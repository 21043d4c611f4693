import HalOS.Lib.CString
import HalOS.Lib.InPlace
import HalOS.Lib.Numeral

/-!
# itoa and atoi

The two conversions of `libs/string.c`. `itoa` stores the digits with the least significant one
first, and then turns them round; `atoi` is given a buffer of so many bytes, and returns nothing if
it reads behind them. An `int` wraps around.

## Main results

* `itoa_decimal`: what `itoa` stores for a decimal number.
* `atoi_itoa`: the way back.
-/

namespace HalOS

open CString (HoldsString Memory)
open InPlace (mirror)
open Numeral (numeral)

/-- The character of a remainder. -/
def itoaChar (remainder : UInt32) : UInt8 :=
  if remainder < 10 then remainder.toUInt8 + 0x30 else remainder.toUInt8 + 0x61 - 10

/-- The first loop of `itoa`, which stores at least one digit; it ends before its bound. -/
def itoaLoop (divisor : UInt32) : ℕ → UInt32 → Memory → ℕ → Memory × ℕ
  | 0, _, m, p => (m, p)
  | bound + 1, ud, m, p =>
      let m := Function.update m p (itoaChar (ud % divisor))
      if ud / divisor = 0 then (m, p + 1) else itoaLoop divisor bound (ud / divisor) m (p + 1)

/-- The second loop of `itoa`. -/
def reverseLoop : ℕ → ℕ → ℕ → Memory → Memory
  | 0, _, _, m => m
  | bound + 1, p1, p2, m =>
      if p1 < p2 then reverseLoop bound (p1 + 1) (p2 - 1) (InPlace.swap m p1 p2) else m

/-- `itoa` from the first loop on. -/
def itoaDigits (m : Memory) (buf : ℕ) (divisor ud : UInt32) : Memory :=
  let (m, p) := itoaLoop divisor (ud.toNat + 1) ud m buf
  let m := Function.update m p 0
  reverseLoop (p - 1) buf (p - 1) m

/-- `itoa`; the bases are the characters `d` and `x`. -/
def itoa (m : Memory) (buf : ℕ) (base d : Int32) : Memory :=
  if base = 0x64 ∧ d < 0 then
    itoaDigits (Function.update m buf 0x2D) (buf + 1) 10 (-d).toUInt32
  else itoaDigits m buf (if base = 0x78 then 16 else 10) d.toUInt32

/-- The first loop of `atoi`, with `n` bytes of the buffer left from offset `i` on. -/
def skipBlanks (m : Memory) : ℕ → ℕ → Option ℕ
  | 0, _ => none
  | n + 1, i =>
      if m i = 0x20 ∨ m i = 0x09 ∨ m i = 0x0A then skipBlanks m n (i + 1) else some i

/-- The second loop of `atoi`. -/
def atoiLoop (m : Memory) : ℕ → ℕ → Int32 → Option Int32
  | 0, _, _ => none
  | n + 1, i, result =>
      if 0x30 ≤ m i ∧ m i ≤ 0x39 then
        atoiLoop m n (i + 1) (result * 10 + Int32.ofNat (m i - 0x30).toNat)
      else some result

/-- The sign, and where the digits begin. -/
def atoiSign (m : Memory) (i : ℕ) : Int32 × ℕ :=
  if m i = 0x2D then (-1, i + 1) else if m i = 0x2B then (1, i + 1) else (1, i)

/-- `atoi` in a buffer of `size` bytes. -/
def atoi (m : Memory) (str size : ℕ) : Option Int32 := do
  let i ← skipBlanks m size str
  let (sign, first) := atoiSign m i
  let result ← atoiLoop m (str + size - first) first 0
  some (sign * result)

/-! ### What is stored -/

/-- These bytes have been stored from an offset on, and no others. -/
structure Written (m m' : Memory) (i : ℕ) (bytes : List UInt8) : Prop where
  byte : ∀ j (h : j < bytes.length), m' (i + j) = bytes[j]
  frame : ∀ p, p < i ∨ i + bytes.length ≤ p → m' p = m p

namespace Written

variable {m m' : Memory} {i : ℕ} {bytes : List UInt8}

theorem nil (m : Memory) (i : ℕ) : Written m m i [] :=
  ⟨fun _ hj => absurd hj (Nat.not_lt_zero _), fun _ _ => rfl⟩

/-- One byte, and then those behind it. -/
theorem cons {c : UInt8} (h : Written (Function.update m i c) m' (i + 1) bytes) :
    Written m m' i (c :: bytes) := by
  constructor
  · intro j hj
    cases j with
    | zero => rw [Nat.add_zero, h.frame i (.inl (Nat.lt_succ_self i)), Function.update_self]; rfl
    | succ j =>
        have hplace : i + (j + 1) = i + 1 + j := by omega
        rw [hplace, h.byte j (Nat.lt_of_succ_lt_succ hj)]
        rfl
  · intro p hp
    rw [List.length_cons] at hp
    rw [h.frame p (by omega), Function.update_of_ne (by omega)]

/-- One byte behind them. -/
theorem concat (h : Written m m' i bytes) (c : UInt8) :
    Written m (Function.update m' (i + bytes.length) c) i (bytes ++ [c]) := by
  constructor
  · intro j hj
    rw [List.length_append, List.length_singleton] at hj
    obtain rfl | hne := eq_or_ne j bytes.length
    · rw [Function.update_self, List.getElem_concat_length rfl]
    · rw [Function.update_of_ne (by omega), List.getElem_append_left (by omega)]
      exact h.byte j (by omega)
  · intro p hp
    rw [List.length_append, List.length_singleton] at hp
    rw [Function.update_of_ne (by omega), h.frame p (by omega)]

/-- Those in front are turned round. -/
theorem mirror {rest : List UInt8} (h : Written m m' i (bytes ++ rest)) :
    Written m (mirror i (i + bytes.length) m') i (bytes.reverse ++ rest) := by
  constructor
  · intro j hj
    rw [List.length_append, List.length_reverse, ← List.length_append] at hj
    rw [InPlace.mirror, List.getElem_append]
    by_cases hfirst : j < bytes.length
    · have hbyte := h.byte (bytes.length - 1 - j) (by rw [List.length_append]; omega)
      have hplace : i + (i + bytes.length - 1 - (i + j)) = i + (bytes.length - 1 - j) := by omega
      rw [if_pos (by omega), dif_pos (by rwa [List.length_reverse]), List.getElem_reverse, hplace,
        hbyte, List.getElem_append_left]
    · have hbyte := h.byte j hj
      rw [List.getElem_append_right (Nat.not_lt.mp hfirst)] at hbyte
      rw [if_neg (by omega), dif_neg (by rwa [List.length_reverse]), hbyte]
      simp only [List.length_reverse]
  · intro p hp
    rw [List.length_append, List.length_reverse] at hp
    have hframe := h.frame p (by rw [List.length_append]; exact hp)
    rw [InPlace.mirror, if_neg (by omega), hframe]

/-- A string with its terminator. -/
theorem holdsString (h : Written m m' i (bytes ++ [0])) (hne : ∀ c ∈ bytes, c ≠ 0) :
    HoldsString m' i bytes := by
  refine ⟨fun j hj => ?_, ?_, hne⟩
  · rw [h.byte j (by rw [List.length_append]; omega), List.getElem_append_left]
  · rw [h.byte bytes.length (by rw [List.length_append]; exact Nat.lt_succ_self _),
      List.getElem_concat_length rfl]

end Written

/-! ### itoa -/

section Itoa

variable {divisor : UInt32} (hdivisor : 1 < divisor.toNat)

/-- The character of a digit. -/
def digitOf (d : ℕ) : UInt8 := itoaChar (UInt32.ofNat d)

theorem itoaChar_mod (ud : UInt32) :
    itoaChar (ud % divisor) = digitOf (ud.toNat % divisor.toNat) := by
  rw [digitOf, ← UInt32.toNat_mod, UInt32.ofNat_toNat]

include hdivisor in
/-- The digits are stored, the least significant one first. -/
theorem itoaLoop_written {bound : ℕ} {ud : UInt32} (hbound : ud.toNat < bound) (m : Memory)
    (p : ℕ) :
    ∃ m', itoaLoop divisor bound ud m p =
        (m', p + (Numeral.digits divisor.toNat ud.toNat).length) ∧
      Written m m' p ((Numeral.digits divisor.toNat ud.toNat).map digitOf) := by
  induction bound generalizing ud m p with
  | zero => cases hbound
  | succ bound ih =>
      have hquotient : (ud / divisor).toNat = ud.toNat / divisor.toNat := UInt32.toNat_div _ _
      rw [itoaLoop, itoaChar_mod]
      obtain hlt | hle := Nat.lt_or_ge ud.toNat divisor.toNat
      · have hzero : ud / divisor = 0 := by
          rw [← UInt32.toNat_inj, hquotient, Nat.div_eq_of_lt hlt, UInt32.toNat_zero]
        rw [if_pos hzero, Nat.mod_eq_of_lt hlt, Numeral.digits_of_lt hlt]
        exact ⟨_, rfl, (Written.nil _ _).cons⟩
      · have hpos : 0 < ud.toNat / divisor.toNat := Nat.div_pos hle (by omega)
        have hsmaller : ud.toNat / divisor.toNat < ud.toNat := Nat.div_lt_self (by omega) hdivisor
        have hmore : ud / divisor ≠ 0 := by
          rw [← UInt32.toNat_inj.ne, hquotient]
          exact hpos.ne'
        have hrest : (ud / divisor).toNat < bound := by omega
        obtain ⟨m', hloop, hwritten⟩ := ih hrest
          (Function.update m p (digitOf (ud.toNat % divisor.toNat))) (p + 1)
        rw [hquotient] at hloop hwritten
        rw [if_neg hmore, hloop, Numeral.digits_of_le hdivisor hle, List.length_cons]
        exact ⟨m', by rw [Nat.add_assoc, Nat.add_comm 1], hwritten.cons⟩

/-- The digits are turned round. -/
theorem reverseLoop_eq {bound p1 p2 : ℕ} (h : p2 ≤ p1 + bound) (m : Memory) :
    reverseLoop bound p1 p2 m = mirror p1 (p2 + 1) m := by
  induction bound generalizing p1 p2 m with
  | zero => exact (InPlace.mirror_of_le (by omega) m).symm
  | succ bound ih =>
      rw [reverseLoop]
      split_ifs with hlt
      · have hlast : p2 - 1 + 1 = p2 := by omega
        rw [ih (by omega), hlast, InPlace.mirror_eq_swap (Nat.succ_lt_succ hlt),
          Nat.succ_sub_one]
      · exact (InPlace.mirror_of_le (by omega) m).symm

include hdivisor in
/-- The numeral is stored with its terminator. -/
theorem itoaDigits_written (m : Memory) (buf : ℕ) (ud : UInt32) :
    Written m (itoaDigits m buf divisor ud) buf
      (numeral digitOf divisor.toNat ud.toNat ++ [0]) := by
  obtain ⟨m', hloop, hwritten⟩ := itoaLoop_written hdivisor (Nat.lt_succ_self ud.toNat) m buf
  have hpos : 0 < (Numeral.digits divisor.toNat ud.toNat).length := by
    rw [← List.length_map digitOf, ← List.length_reverse]
    exact Numeral.length_numeral_pos
  rw [itoaDigits, hloop]
  dsimp only
  rw [reverseLoop_eq (by omega), Nat.sub_add_cancel (by omega), numeral]
  have hterminated := (hwritten.concat 0).mirror
  rwa [List.length_map] at hterminated

/-- **A decimal number** in front of its terminator: the sign, if it is negative, and its
numeral. -/
def decimalText (d : Int32) : List UInt8 :=
  if d < 0 then 0x2D :: numeral digitOf 10 (-d).toUInt32.toNat
  else numeral digitOf 10 d.toUInt32.toNat

theorem itoa_decimal (m : Memory) (buf : ℕ) (d : Int32) :
    Written m (itoa m buf 0x64 d) buf (decimalText d ++ [0]) := by
  have hten : 1 < (10 : UInt32).toNat := by decide
  rw [itoa, decimalText]
  by_cases hneg : d < 0
  · rw [if_pos ⟨rfl, hneg⟩, if_pos hneg, List.cons_append]
    exact (itoaDigits_written hten _ _ _).cons
  · rw [if_neg fun h => hneg h.2, if_neg hneg, if_neg (by decide)]
    exact itoaDigits_written hten _ _ _

/-- A number in base 16, without a sign. -/
theorem itoa_hex (m : Memory) (buf : ℕ) (d : Int32) :
    Written m (itoa m buf 0x78 d) buf (numeral digitOf 16 d.toUInt32.toNat ++ [0]) := by
  rw [itoa, if_neg fun h => absurd h.1 (by decide), if_pos rfl]
  exact itoaDigits_written (by decide) _ _ _

end Itoa

/-! ### atoi -/

/-- Nothing but decimal digits. -/
def Decimals (text : List UInt8) : Prop := ∀ c ∈ text, 0x30 ≤ c ∧ c ≤ 0x39

/-- The value of a decimal digit. -/
def decimalValue (c : UInt8) : ℕ := (c - 0x30).toNat

theorem digitOf_decimal {d : ℕ} (h : d < 10) :
    0x30 ≤ digitOf d ∧ digitOf d ≤ 0x39 ∧ decimalValue (digitOf d) = d ∧
      (digitOf d = 0x30 → d = 0) := by
  revert d
  decide

theorem decimals_numeral (n : ℕ) : Decimals (numeral digitOf 10 n) := by
  intro c hc
  obtain ⟨d, hd, rfl⟩ := Numeral.exists_of_mem_numeral (by decide) hc
  obtain ⟨hle, hge, -⟩ := digitOf_decimal hd
  exact ⟨hle, hge⟩

theorem Decimals.ne_zero {text : List UInt8} (h : Decimals text) : ∀ c ∈ text, c ≠ 0 := by
  rintro c hc rfl
  exact absurd (h 0 hc).1 (by decide)

section Atoi

variable {m : Memory} {i n : ℕ} {text : List UInt8}

/-- The digits of a string are read up to its end. -/
theorem atoiLoop_eq (h : HoldsString m i text) (htext : Decimals text) (hn : text.length < n)
    (result : Int32) :
    atoiLoop m n i result =
      some (result * Int32.ofNat (10 ^ text.length) +
        Int32.ofNat (Numeral.value decimalValue 10 text)) := by
  induction text generalizing n i result with
  | nil =>
      obtain ⟨n, rfl⟩ : ∃ k, n = k + 1 := ⟨n - 1, by rw [List.length_nil] at hn; omega⟩
      have hend : m i = 0 := h.terminator
      rw [atoiLoop, hend, if_neg (by decide)]
      simp
  | cons c text ih =>
      obtain ⟨n, rfl⟩ : ∃ k, n = k + 1 := ⟨n - 1, by omega⟩
      obtain ⟨hc, hrest⟩ := List.forall_mem_cons.mp htext
      have hbyte : m i = c := h.byte 0 (Nat.succ_pos _)
      have hback : HoldsString m (i + 1) text := HoldsString.right (s := [c]) h
      have hten : Int32.ofNat 10 = 10 := rfl
      rw [atoiLoop, hbyte, if_pos hc, ih hback hrest (Nat.lt_of_succ_lt_succ hn),
        Numeral.value_cons, List.length_cons, Nat.pow_succ, Nat.mul_comm (10 ^ _) 10]
      simp only [Int32.ofNat_add, Int32.ofNat_mul, decimalValue, hten]
      rw [Int32.add_mul, Int32.mul_assoc, Int32.add_assoc]

/-- The numeral of a 32-bit number is read as its bits. -/
theorem atoiLoop_numeral {ud : UInt32} (h : HoldsString m i (numeral digitOf 10 ud.toNat))
    (hn : (numeral digitOf 10 ud.toNat).length < n) : atoiLoop m n i 0 = some ud.toInt32 := by
  have hvalue := Numeral.value_numeral (b := 10) (n := ud.toNat) (by decide)
    fun d hd => (digitOf_decimal hd).2.2.1
  rw [atoiLoop_eq h (decimals_numeral _) hn, hvalue, Int32.zero_mul, Int32.zero_add,
    ← UInt32.toInt32_ofNat', UInt32.ofNat_toNat]

/-- A string that begins with no blank is read from its sign on. -/
theorem atoi_eq (hi : m i ≠ 0x20 ∧ m i ≠ 0x09 ∧ m i ≠ 0x0A) (hn : 0 < n) :
    atoi m i n = (atoiLoop m (i + n - (atoiSign m i).2) (atoiSign m i).2 0).map
      ((atoiSign m i).1 * ·) := by
  obtain ⟨n, rfl⟩ : ∃ k, n = k + 1 := ⟨n - 1, by omega⟩
  have hskip : skipBlanks m (n + 1) i = some i := by
    rw [skipBlanks, if_neg (by simp [hi])]
  rw [atoi, hskip, Option.bind_eq_bind, Option.bind_some]
  obtain ⟨sign, first⟩ := atoiSign m i
  dsimp only
  cases atoiLoop m (i + (n + 1) - first) first 0 with
  | none => rfl
  | some result => rfl

/-- No other character that `atoi` looks for is as large as a digit. -/
theorem ne_of_decimal {c k : UInt8} (hc : 0x30 ≤ c) (hk : k < 0x30) : c ≠ k := by
  rintro rfl
  exact UInt8.not_lt.mpr hc hk

theorem atoi_numeral {ud : UInt32} (h : HoldsString m i (numeral digitOf 10 ud.toNat))
    (hn : (numeral digitOf 10 ud.toNat).length < n) : atoi m i n = some ud.toInt32 := by
  have hpos : 0 < (numeral digitOf 10 ud.toNat).length := Numeral.length_numeral_pos
  have hfirst : 0x30 ≤ m i := by
    have hbyte := h.byte 0 hpos
    rw [Nat.add_zero] at hbyte
    rw [hbyte]
    exact (decimals_numeral _ _ (List.getElem_mem hpos)).1
  have hsign : atoiSign m i = (1, i) := by
    rw [atoiSign, if_neg (ne_of_decimal hfirst (by decide)),
      if_neg (ne_of_decimal hfirst (by decide))]
  rw [atoi_eq ⟨ne_of_decimal hfirst (by decide), ne_of_decimal hfirst (by decide),
    ne_of_decimal hfirst (by decide)⟩ (by omega), hsign, atoiLoop_numeral h (by omega),
    Option.map_some, Int32.one_mul]

theorem atoi_minus {ud : UInt32} (h : HoldsString m i (0x2D :: numeral digitOf 10 ud.toNat))
    (hn : (numeral digitOf 10 ud.toNat).length + 1 < n) : atoi m i n = some (-ud.toInt32) := by
  have hbyte : m i = 0x2D := h.byte 0 (Nat.succ_pos _)
  have hsign : atoiSign m i = (-1, i + 1) := if_pos hbyte
  have hdigits : HoldsString m (i + 1) (numeral digitOf 10 ud.toNat) :=
    HoldsString.right (s := [0x2D]) h
  rw [atoi_eq (by rw [hbyte]; decide) (by omega), hsign,
    atoiLoop_numeral hdigits (by dsimp only; omega), Option.map_some, Int32.neg_mul, Int32.one_mul]

end Atoi

/-! ### The round trip -/

/-- Digits behind a sign, if any, and no zero in front of them unless it is the number zero. -/
def Canonical (text : List UInt8) : Prop :=
  ∃ sign digits, text = sign ++ digits ∧ (sign = [] ∨ sign = [0x2D]) ∧ digits ≠ [] ∧
    Decimals digits ∧ (digits.head? = some 0x30 → sign = [] ∧ digits = [0x30])

theorem canonical_decimalText (d : Int32) : Canonical (decimalText d) := by
  have hne (n : ℕ) : numeral digitOf 10 n ≠ [] := List.length_pos_iff.mp Numeral.length_numeral_pos
  have hhead {n : ℕ} (hn : n ≠ 0) : (numeral digitOf 10 n).head? ≠ some 0x30 := by
    obtain ⟨k, text, hk, hlt, htext⟩ := Numeral.numeral_eq_cons digitOf (b := 10) (by decide) hn
    rw [htext]
    exact fun h => hk ((digitOf_decimal hlt).2.2.2 (Option.some.inj h))
  rw [decimalText]
  split_ifs with hneg
  · refine ⟨[0x2D], _, rfl, .inr rfl, hne _, decimals_numeral _, fun h => absurd h (hhead ?_)⟩
    intro hzero
    have hbits : (-d).toUInt32 = 0 := UInt32.toNat_inj.mp hzero
    have hminus : -d = 0 := by
      rw [← Int32.toInt32_toUInt32 (-d), hbits]
      rfl
    have hd : d = 0 := by
      rw [← Int32.neg_neg (a := d), hminus]
      rfl
    rw [hd] at hneg
    exact absurd hneg (by decide)
  · refine ⟨[], _, rfl, .inl rfl, hne _, decimals_numeral _, fun h => ⟨rfl, ?_⟩⟩
    by_cases hzero : d.toUInt32.toNat = 0
    · rw [hzero]
      rfl
    · exact absurd h (hhead hzero)

theorem length_decimalText_le (d : Int32) : (decimalText d).length ≤ 11 := by
  have hle (ud : UInt32) : (numeral digitOf 10 ud.toNat).length ≤ 10 :=
    Numeral.length_numeral_le (by decide) (by decide)
      (Nat.lt_trans ud.toNat_lt (by decide))
  rw [decimalText]
  split_ifs
  · exact Nat.succ_le_succ (hle _)
  · exact Nat.le_succ_of_le (hle _)

theorem decimalText_ne_zero (d : Int32) : ∀ c ∈ decimalText d, c ≠ 0 := by
  rw [decimalText]
  split_ifs
  · exact List.forall_mem_cons.mpr ⟨by decide, (decimals_numeral _).ne_zero⟩
  · exact (decimals_numeral _).ne_zero

/-- `atoi` reads back the text of a number. -/
theorem atoi_decimalText {m : Memory} {i n : ℕ} {d : Int32} (h : HoldsString m i (decimalText d))
    (hn : (decimalText d).length < n) : atoi m i n = some d := by
  rw [decimalText] at h hn
  split_ifs at h hn with hneg
  · rw [atoi_minus h hn, Int32.toInt32_toUInt32, Int32.neg_neg]
  · rw [atoi_numeral h hn, Int32.toInt32_toUInt32]

/-- **The round trip**, which also holds for the most negative number: `atoi` reads in the string
that `itoa` leaves, and not behind it, the number again. -/
theorem atoi_itoa (m : Memory) (buf : ℕ) (d : Int32) :
    ∃ text, HoldsString (itoa m buf 0x64 d) buf text ∧
      (∀ size, text.length < size → atoi (itoa m buf 0x64 d) buf size = some d) ∧
        Canonical text ∧ text.length ≤ 11 := by
  have hstring := (itoa_decimal m buf d).holdsString (decimalText_ne_zero d)
  exact ⟨decimalText d, hstring, fun _ => atoi_decimalText hstring, canonical_decimalText d,
    length_decimalText_le d⟩

end HalOS
