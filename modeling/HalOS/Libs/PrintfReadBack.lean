import HalOS.Libs.Itoa
import HalOS.Libs.PrintfInteger

/-!
# Reading back what was printed

The digits of a printed number, read in the base of its conversion: blanks, signs, zeros and the
letter of the base do not count, and what is left is the number, whatever the flags, the width and
the precision are. The one exception is the flag `#` on a number that is as long as its width, which
loses its first digits.

## Main results

* `readBack_eq_iff`: when the digits of the text are those of the number.
* `atoi_snprintf`: `atoi` reads what `snprintf_` has stored for `%d`.
-/

namespace HalOS

namespace Printf

open CString (Memory HoldsString)
open Numeral (numeral value)

/-! ### Texts and their digits -/

/-- The value of a character as a digit, which is sixteen if it is none. -/
def digitVal (c : UInt8) : ℕ :=
  if 0x30 ≤ c ∧ c ≤ 0x39 then c.toNat - 0x30
  else if 0x41 ≤ c ∧ c ≤ 0x46 then c.toNat - 0x37
  else if 0x61 ≤ c ∧ c ≤ 0x66 then c.toNat - 0x57
  else 16

/-- The digits of a text in a base. -/
def digitsOf (base : ℕ) (text : List UInt8) : List UInt8 := text.filter fun c => digitVal c < base

/-- The number that the digits of a text are. -/
def readBack (base : ℕ) (text : List UInt8) : ℕ := value digitVal base (digitsOf base text)

variable {base : ℕ}

theorem digitVal_digitChar (uppercase : Bool) {d : ℕ} (hd : d < 16) :
    digitVal (digitChar uppercase d) = d := by
  revert uppercase d
  decide

@[simp] theorem digitsOf_append (text text' : List UInt8) :
    digitsOf base (text ++ text') = digitsOf base text ++ digitsOf base text' :=
  List.filter_append _ _

theorem digitsOf_eq_nil {text : List UInt8} (hle : base ≤ 16) (h : ∀ c ∈ text, digitVal c = 16) :
    digitsOf base text = [] := by
  rw [digitsOf, List.filter_eq_nil_iff]
  intro c hc
  rw [h c hc]
  simpa using hle

theorem digitsOf_replicate_space (hle : base ≤ 16) (n : ℕ) :
    digitsOf base (List.replicate n 0x20) = [] :=
  digitsOf_eq_nil hle fun c hc => by rw [List.eq_of_mem_replicate hc]; rfl

theorem digitsOf_replicate_zero (hbase : 1 < base) (n : ℕ) :
    digitsOf base (List.replicate n 0x30) = List.replicate n 0x30 := by
  rw [digitsOf, List.filter_eq_self]
  intro c hc
  rw [List.eq_of_mem_replicate hc, show digitVal 0x30 = 0 from rfl]
  simpa using hbase.trans' Nat.zero_lt_one

/-- Blanks do not count. -/
theorem readBack_revText (hle : base ≤ 16) (buf : List UInt8) (width : ℕ) (flags : Flags) :
    readBack base (revText buf width flags) = readBack base buf.reverse := by
  rw [readBack, readBack, revText]
  split_ifs <;> simp [digitsOf_replicate_space hle]

/-- A character that is no digit does not count. -/
theorem readBack_pushChar {c : UInt8} (hc : base ≤ digitVal c) (buf : List UInt8) :
    readBack base (pushChar buf c).reverse = readBack base buf.reverse := by
  rw [pushChar]
  split_ifs
  · simp [readBack, digitsOf, Nat.not_lt.mpr hc]
  · rfl

/-- A zero in front does not count. -/
theorem readBack_pushZero (hbase : 1 < base) (buf : List UInt8) :
    readBack base (pushChar buf 0x30).reverse = readBack base buf.reverse := by
  have hzero : digitVal 0x30 = 0 := rfl
  rw [pushChar]
  split_ifs
  · simp [readBack, digitsOf, hzero, hbase.trans' Nat.zero_lt_one, Numeral.value_cons]
  · rfl

theorem readBack_ntoaSign (hle : base ≤ 16) (buf : List UInt8) (negative : Bool) (flags : Flags) :
    readBack base (ntoaSign buf negative flags).reverse = readBack base buf.reverse := by
  rw [ntoaSign]
  split_ifs
  · exact readBack_pushChar hle buf
  · exact readBack_pushChar hle buf
  · exact readBack_pushChar hle buf
  · rfl

/-- Zeros in front do not count. -/
theorem readBack_append_zeros (hbase : 1 < base) (buf : List UInt8) (n : ℕ) :
    readBack base (buf ++ List.replicate n 0x30).reverse = readBack base buf.reverse := by
  have hzero : digitVal 0x30 = 0 := rfl
  rw [readBack, List.reverse_append, List.reverse_replicate, digitsOf_append,
    digitsOf_replicate_zero hbase, Numeral.value_replicate_append hzero, readBack]

/-- What the low digits of a number are. -/
theorem readBack_digits (uppercase : Bool) (hbase : 1 < base) (hle : base ≤ 16) (v n : ℕ) :
    readBack base (((Numeral.digits base v).take n).map (digitChar uppercase)).reverse =
      v % base ^ n := by
  have hlt : ∀ d ∈ (Numeral.digits base v).take n, d < base := fun d hd =>
    Numeral.lt_of_mem_digits hbase (List.mem_of_mem_take hd)
  have hdigits : digitsOf base (((Numeral.digits base v).take n).map (digitChar uppercase)).reverse =
      (((Numeral.digits base v).take n).map (digitChar uppercase)).reverse := by
    rw [digitsOf, List.filter_eq_self]
    intro c hc
    obtain ⟨d, hd, rfl⟩ := List.mem_map.mp (List.mem_reverse.mp hc)
    rw [digitVal_digitChar _ ((hlt d hd).trans_le hle)]
    simpa using hlt d hd
  have hmap : ((Numeral.digits base v).take n).map (digitVal ∘ digitChar uppercase) =
      (Numeral.digits base v).take n := by
    conv_rhs => rw [← List.map_id ((Numeral.digits base v).take n)]
    exact List.map_congr_left fun d hd => digitVal_digitChar _ ((hlt d hd).trans_le hle)
  rw [readBack, hdigits, value, List.reverse_reverse, List.map_map, hmap,
    Numeral.ofDigits_take_digits hbase]

/-- What the first characters of the buffer are, with the lowest digit in front and zeros behind the
number. -/
theorem readBack_take (uppercase : Bool) (hbase : 1 < base) (hle : base ≤ 16) (v zeros n : ℕ) :
    readBack base (((Numeral.digits base v).map (digitChar uppercase) ++
      List.replicate zeros 0x30).take n).reverse = v % base ^ n := by
  rw [List.take_append, List.take_replicate, readBack_append_zeros hbase, ← List.map_take,
    readBack_digits uppercase hbase hle]

theorem readBack_integerDigits (hbase : 1 < base) (hle : base ≤ 16) (v : ℕ) (flags : Flags) :
    readBack base (integerDigits v base flags) = v := by
  rw [integerDigits]
  split_ifs with h
  · have hzero : v = 0 := by
      rw [Bool.and_eq_true, decide_eq_true_eq] at h
      exact h.2
    rw [hzero]
    rfl
  · have hall := readBack_digits flags.uppercase hbase hle v (Numeral.digits base v).length
    rw [List.take_length] at hall
    rw [numeral, hall]
    rcases Nat.eq_zero_or_pos v with rfl | hv
    · exact Nat.zero_mod _
    · exact (Numeral.mod_pow_eq_iff hbase hv.ne' _).mpr (Nat.le_refl _)

/-! ### The flag `#` -/

/-- How many characters are taken away for the base of a number. -/
def lostChars (len base prec width : ℕ) (flags : Flags) : ℕ :=
  if !flags.precision && len ≠ 0 && (len = prec || len = width) then if base = 16 then 2 else 1
  else 0

/-- The characters that are left, if two are taken away of one. -/
theorem dropLast_dropLast_eq_take (buf : List UInt8) (base : ℕ) :
    (let dropped := buf.dropLast
     if dropped.length ≠ 0 && base = 16 then dropped.dropLast else dropped) =
      buf.take (buf.length - if base = 16 then 2 else 1) := by
  simp only [List.dropLast_eq_take, List.length_take, List.take_take]
  by_cases hbase : base = 16
  · by_cases hlen : buf.length ≤ 1
    · simp [hbase, show buf.length - 1 = 0 by omega, show buf.length - 2 = 0 by omega]
    · have hlen : min (buf.length - 1) buf.length ≠ 0 := by omega
      simp only [hlen, hbase, ne_eq, not_false_eq_true, decide_true, Bool.and_self, if_true]
      congr 1
      omega
  · simp [hbase]

/-- The base is put behind the characters that are left. -/
theorem readBack_ntoaHash (hbase : 1 < base) (hle : base ≤ 16) (buf : List UInt8)
    (prec width : ℕ) {flags : Flags} (h : flags.hash = true) :
    readBack base (ntoaHash buf base prec width flags).reverse =
      readBack base (buf.take (buf.length - lostChars buf.length base prec width flags)).reverse := by
  have hletter : ∀ buf : List UInt8, readBack base (if base = 16 && !flags.uppercase then
      pushChar buf 0x78 else if base = 16 && flags.uppercase then pushChar buf 0x58
      else if base = 2 then pushChar buf 0x62 else buf).reverse = readBack base buf.reverse := by
    intro buf
    split_ifs with hx hX hb
    · exact readBack_pushChar hle buf
    · exact readBack_pushChar hle buf
    · exact readBack_pushChar (hb ▸ (by decide : 2 ≤ digitVal 0x62)) buf
    · rfl
  rw [ntoaHash, if_pos h]
  simp only [readBack_pushZero hbase, hletter]
  rw [dropLast_dropLast_eq_take, lostChars]
  split_ifs <;> simp

/-! ### Numbers -/

theorem readBack_ntoaZeros (hbase : 1 < base) (buf : List UInt8) (negative : Bool)
    (prec width : ℕ) (flags : Flags) :
    readBack base (ntoaZeros buf negative prec width flags).1.reverse =
      readBack base buf.reverse := by
  simp only [ntoaZeros]
  split_ifs <;> simp only [fillZeros, readBack_append_zeros hbase]

/-- Without the flag `#` the digits are those of the number. -/
theorem readBack_ntoaText_of_not_hash (hbase : 1 < base) (hle : base ≤ 16) {v : ℕ}
    (hv : v < 2 ^ 32) (negative : Bool) (prec width : ℕ) {flags : Flags}
    (h : flags.hash = false ∨ v = 0) :
    readBack base (ntoaText v negative base prec width flags) = v := by
  have hflags : (if v = 0 then { flags with hash := false } else flags).hash = false := by
    rcases h with h | h
    · split_ifs
      · rfl
      · exact h
    · rw [if_pos h]
  rw [ntoaText, readBack_revText hle, ntoaBuffer]
  simp only [ntoaHash_of_not_hash hflags]
  rw [readBack_ntoaSign hle, readBack_ntoaZeros hbase, ntoaDigits_eq hbase hv,
    List.reverse_reverse, readBack_integerDigits hbase hle]

/-- How many zeros are put in front of a number of so many digits, without a precision. -/
def zerosInFront (n width : ℕ) (flags : Flags) : ℕ :=
  if !flags.left && flags.zeropad then min width ntoaBufferSize - n else 0

theorem ntoaZeros_zero (buf : List UInt8) (width : ℕ) {flags : Flags}
    (hplus : flags.plus = false) (hspace : flags.space = false) :
    ntoaZeros buf false 0 width flags =
      (buf ++ List.replicate (zerosInFront buf.length width flags) 0x30, width) := by
  cases hleft : flags.left <;> cases hzero : flags.zeropad <;>
    simp [ntoaZeros, zerosInFront, fillZeros, hplus, hspace, hleft, hzero]

/-- With the flag `#` and a precision, too. -/
theorem readBack_ntoaText_of_precision (hbase : 1 < base) (hle : base ≤ 16) {v : ℕ}
    (hv : v < 2 ^ 32) (negative : Bool) (prec width : ℕ) {flags : Flags}
    (h : flags.precision = true) :
    readBack base (ntoaText v negative base prec width flags) = v := by
  cases hhash : flags.hash with
  | false => exact readBack_ntoaText_of_not_hash hbase hle hv _ _ _ (Or.inl hhash)
  | true =>
      rcases Nat.eq_zero_or_pos v with rfl | hpos
      · exact readBack_ntoaText_of_not_hash hbase hle hv _ _ _ (Or.inr rfl)
      · rw [ntoaText, readBack_revText hle, ntoaBuffer]
        simp only [if_neg hpos.ne']
        rw [readBack_ntoaSign hle, readBack_ntoaHash hbase hle _ _ _ hhash, lostChars]
        simp only [h, Bool.not_true, Bool.false_and, Bool.false_eq_true, if_false, Nat.sub_zero,
          List.take_length]
        rw [readBack_ntoaZeros hbase, ntoaDigits_eq hbase hv, List.reverse_reverse,
          readBack_integerDigits hbase hle]

/-- With the flag `#` and without a precision, the first characters are taken away from a number
that is as long as its width. -/
theorem readBack_ntoaText_of_hash (hbase : 1 < base) (hle : base ≤ 16) {v : ℕ} (hv : v < 2 ^ 32)
    (hpos : 0 < v) (width : ℕ) {flags : Flags} (hhash : flags.hash = true)
    (hprec : flags.precision = false) (hplus : flags.plus = false) (hspace : flags.space = false) :
    let n := (Numeral.digits base v).length
    let len := n + zerosInFront n width flags
    readBack base (ntoaText v false base 0 width flags) =
      v % base ^ (len - if len = width then if base = 16 then 2 else 1 else 0) := by
  intro n len
  have hn : n ≠ 0 := (Numeral.length_digits_pos base v).ne'
  have hdigits : ntoaDigits v base flags =
      (Numeral.digits base v).map (digitChar flags.uppercase) := by
    rw [ntoaDigits_eq hbase hv, integerDigits, hprec]
    simp [numeral]
  rw [ntoaText, readBack_revText hle, ntoaBuffer]
  simp only [if_neg hpos.ne', hdigits, ntoaZeros_zero _ _ hplus hspace]
  rw [readBack_ntoaSign hle, readBack_ntoaHash hbase hle _ _ _ hhash, readBack_take _ hbase hle]
  simp only [List.length_append, List.length_map, List.length_replicate, lostChars, hprec]
  congr 2
  simp [n, len, hn]

theorem integerFlags_unsigned {c : UInt8} (flags : Flags) (h : isSigned c = false) :
    (integerFlags c flags).plus = false ∧ (integerFlags c flags).space = false := by
  simp only [integerFlags, h]
  split_ifs <;> simp_all

theorem length_digits_le_eight {v : ℕ} (hv : v < 2 ^ 32) :
    (Numeral.digits 16 v).length ≤ 8 :=
  Numeral.length_digits_le (by norm_num) (by norm_num) (hv.trans_le (by norm_num))

/-- The digits of a converted number, read in the base of the conversion, are the number without its
sign: whatever the flags, the width and the precision are, unless the flag `#` is given without a
precision, and the number is as long as its width, or, in the base sixteen with zeros up to the
width, one digit shorter. -/
theorem readBack_eq_iff {c : UInt8} {s : Spec} (hs : s.WellFormed) (v : UInt32) :
    readBack (integerBase c) (integerText c s v) =
        (argument c (integerFlags c s.flags) v).natAbs ↔
      ¬((integerFlags c s.flags).hash = true ∧ argument c (integerFlags c s.flags) v ≠ 0 ∧
        s.flags.precision = false ∧
          (s.width = (argumentDigits c s v).length ∨
            integerBase c = 16 ∧ s.flags.zeropad = true ∧ s.flags.left = false ∧
              s.width = (argumentDigits c s v).length + 1)) := by
  have hbase := one_lt_integerBase c
  have hle := integerBase_le c
  have hlt := natAbs_argument_lt c (integerFlags c s.flags) v
  rw [integerText_eq]
  by_cases hplain : (integerFlags c s.flags).hash = false ∨
      (argument c (integerFlags c s.flags) v).natAbs = 0
  · refine iff_of_true (readBack_ntoaText_of_not_hash hbase hle hlt _ _ _ hplain) ?_
    rintro ⟨hhash, hne, -⟩
    rcases hplain with h | h
    · rw [h] at hhash
      cases hhash
    · exact hne (Int.natAbs_eq_zero.mp h)
  obtain ⟨hhash, hne⟩ := not_or.mp hplain
  have hhash : (integerFlags c s.flags).hash = true := by simpa using hhash
  cases hprec : s.flags.precision with
  | true =>
      refine iff_of_true (readBack_ntoaText_of_precision hbase hle hlt _ _ _
        ((integerFlags_precision c s.flags).trans hprec)) ?_
      rintro ⟨-, -, h, -⟩
      cases h
  | false =>
      have hsigned : isSigned c = false := by
        by_contra h
        rw [integerFlags_hash_of_isSigned _ (by simpa using h)] at hhash
        cases hhash
      have hneg : ¬ argument c (integerFlags c s.flags) v < 0 := by simp [argument, hsigned]
      obtain ⟨hplus, hspace⟩ := integerFlags_unsigned s.flags hsigned
      have hdigits : (argumentDigits c s v).length = (Numeral.digits (integerBase c)
          (argument c (integerFlags c s.flags) v).natAbs).length := by
        rw [argumentDigits, integerDigits, integerFlags_precision, hprec]
        simp [numeral]
      have hbits := length_digits_le hbase hlt
      have hsize : ntoaBufferSize = 32 := rfl
      have hzeros : zerosInFront (argumentDigits c s v).length s.width (integerFlags c s.flags) =
          if !s.flags.left && s.flags.zeropad then
            min s.width ntoaBufferSize - (argumentDigits c s v).length else 0 := by
        rw [zerosInFront, integerFlags_left, integerFlags_zeropad, hprec]
        simp
      have hhex : integerBase c = 16 → (argumentDigits c s v).length ≤ 8 := by
        intro h
        rw [hdigits, h]
        exact length_digits_le_eight hlt
      have hpos : 0 < (argumentDigits c s v).length := by
        rw [hdigits]
        exact Numeral.length_digits_pos _ _
      have hread := readBack_ntoaText_of_hash hbase hle hlt (Nat.pos_of_ne_zero hne) s.width hhash
        ((integerFlags_precision c s.flags).trans hprec) hplus hspace
      simp only [← hdigits] at hread hbits
      rw [hs.precision_eq hprec, decide_eq_false hneg, hread,
        Numeral.mod_pow_eq_iff hbase hne, ← hdigits, hzeros]
      simp only [hhash, Int.natAbs_eq_zero.not.mp hne, true_and, ne_eq, not_false_eq_true]
      generalize (argumentDigits c s v).length = n at hbits hhex hpos ⊢
      cases s.flags.left <;> cases s.flags.zeropad <;> by_cases hc : integerBase c = 16 <;>
        simp [hc] at hhex ⊢ <;> split_ifs <;> omega

/-- `printf_("%#4x", 0x1234)` prints `0x34`. -/
theorem readBack_eq_iff_lost :
    readBack 16 (integerText 0x78 ⟨{ Flags.none with hash := true }, 4, 0, [], []⟩ 0x1234) ≠
      0x1234 := by
  have hlost := (readBack_eq_iff (c := 0x78)
    (s := ⟨{ Flags.none with hash := true }, 4, 0, [], []⟩) ⟨by norm_num, fun _ => rfl⟩ 0x1234).not
  exact hlost.mpr (not_not.mpr ⟨rfl, by decide, rfl, Or.inl (by decide)⟩)

/-! ### `snprintf_` and `atoi` -/

theorem digitChar_eq_digitOf {d : ℕ} (hd : d < 10) : digitChar false d = digitOf d := by
  revert d
  decide

/-- What is known of the conversion `%d`. -/
def plain (v : UInt32) : Spec := ⟨.none, 0, 0, [0x64], [.word v]⟩

/-- The text of `%d`. -/
theorem integerText_plain (v : UInt32) :
    integerText 0x64 (plain v) v =
      sign (v.toInt32.toInt < 0) .none ++ numeral digitOf 10 v.toInt32.toInt.natAbs := by
  have hflags : integerFlags 0x64 (plain v).flags = .none := rfl
  have hargument : argument 0x64 .none v = v.toInt32.toInt := rfl
  have hbase : integerBase 0x64 = 10 := rfl
  have hsign : (argumentSign 0x64 (plain v) v).length ≤ 1 := length_sign_le _ _
  have hfits : Fits (argumentDigits 0x64 (plain v) v) (argumentSign 0x64 (plain v) v)
      (plain v).precision (plain v).width .none :=
    ⟨by simp only [plain, Nat.zero_add]; exact hsign.trans (by norm_num), fun h => nomatch h⟩
  have hchars : numeral (digitChar false) 10 v.toInt32.toInt.natAbs =
      numeral digitOf 10 v.toInt32.toInt.natAbs :=
    Numeral.numeral_congr (by norm_num) (fun d hd => digitChar_eq_digitOf hd) _
  have hstandard := ntoaText_standard (one_lt_integerBase 0x64) (natAbs_argument_lt 0x64 _ v) rfl
    (length_argument_le 0x64 (plain v) v) hfits
  rw [integerText_eq, hstandard, hflags, standardText, hargument, hbase, integerDigits]
  simp [plain, Flags.none, hchars]

theorem formatText_plain (fp : FloatText) (v : UInt32) :
    formatText fp [0x25, 0x64] [.word v] = .ok (integerText 0x64 (plain v) v, []) := by
  have hspec : formatSpec [0x64] [.word v] = .ok (plain v) := rfl
  have hconvert : convertText fp 0x64 (plain v) = .ok (integerText 0x64 (plain v) v, []) := rfl
  have hformat : (plain v).format = [0x64] := rfl
  rw [formatText, List.length_cons, formatTextLoop, if_neg (by simp), hspec]
  simp only [bind, Except.bind, hformat, hconvert, List.length_cons, List.length_nil, formatTextLoop,
    Except.map, List.append_nil]

/-- The word of which the digits of a number are printed: the number is that word again, or its
negation if there is a minus in front. -/
theorem exists_printed_word (x : Int32) : ∃ ud : UInt32, ud.toNat = x.toInt.natAbs ∧
    x = if x.toInt < 0 then -ud.toInt32 else ud.toInt32 := by
  refine ⟨(if 0 < x then x else 0 - x).toUInt32, toNat_abs x, ?_⟩
  rw [Int32.toInt32_toUInt32]
  by_cases hpos : 0 < x
  · have hge : ¬ x.toInt < 0 := by
      have := Int32.lt_iff_toInt_lt.mp hpos
      simp at this
      omega
    rw [if_pos hpos, if_neg hge]
  · rw [if_neg hpos]
    split_ifs with hneg
    · rw [Int32.zero_sub, Int32.neg_neg]
    · have hzero : x.toInt = 0 := by
        have := Int32.lt_iff_toInt_lt.not.mp hpos
        simp at this
        omega
      obtain rfl : x = 0 := Int32.toInt_inj.mp hzero
      rfl

/-- A text with its terminator is a string in memory. -/
theorem holdsString_storeBytes {text : List UInt8} (h : ∀ c ∈ text, c ≠ 0) (a : ℕ) (m : Memory) :
    HoldsString (storeBytes a (text ++ [0]) m) a text := by
  refine ⟨fun j hj => ?_, ?_, h⟩
  · rw [storeBytes_getElem (by simp; omega), List.getElem_append_left hj]
  · rw [storeBytes_getElem (by simp), List.getElem_concat_length rfl]

/-- `atoi` reads what `snprintf_` has stored for `%d`, if the buffer has at least twelve bytes. -/
theorem atoi_snprintf (fp : FloatText) {buffer count : ℕ} (v : UInt32) (m : Memory)
    (hbuffer : buffer ≠ 0) (hcount : 12 ≤ count) (hlt : count < 2 ^ 32) :
    ∃ len m', snprintf fp buffer count [0x25, 0x64] [.word v] m = .ok (len, m') ∧
      HalOS.atoi m' buffer count = some v.toInt32 := by
  have hdigits : (numeral digitOf 10 v.toInt32.toInt.natAbs).length ≤ 10 :=
    Numeral.length_numeral_le (by norm_num) (by norm_num)
      ((natAbs_argument_lt 0x64 .none v).trans (by norm_num))
  have hsign := length_sign_le (v.toInt32.toInt < 0) .none
  have hlen : (integerText 0x64 (plain v) v).length ≤ 11 := by
    rw [integerText_plain, List.length_append]
    omega
  have hterminated : terminated count (integerText 0x64 (plain v) v) =
      integerText 0x64 (plain v) v ++ [0] := by
    rw [terminated, if_neg (by omega), List.take_of_length_le (by omega)]
  have hsnprintf := snprintf_eq fp buffer count [0x25, 0x64] [.word v] m hlt fun r hr => by
    rw [formatText_plain] at hr
    cases hr
    exact hlen.trans_lt (by norm_num)
  rw [formatText_plain] at hsnprintf
  refine ⟨_, _, hsnprintf, ?_⟩
  simp only [if_neg hbuffer, hterminated]
  rw [integerText_plain] at hlen ⊢
  rw [List.length_append] at hlen
  obtain ⟨ud, hread, hback⟩ := exists_printed_word v.toInt32
  rw [← hread] at hlen ⊢
  by_cases hneg : v.toInt32.toInt < 0
  · rw [if_pos hneg] at hback
    rw [sign, decide_eq_true hneg, if_pos rfl] at hlen ⊢
    rw [List.length_singleton] at hlen
    rw [List.singleton_append, hback]
    exact atoi_minus (holdsString_storeBytes (List.forall_mem_cons.mpr
      ⟨by decide, (decimals_numeral _).ne_zero⟩) buffer m) (by omega)
  · rw [if_neg hneg] at hback
    have hplain : sign (decide (v.toInt32.toInt < 0)) .none = [] := by
      rw [sign, decide_eq_false hneg]
      rfl
    rw [hplain, List.nil_append, hback]
    exact atoi_numeral (holdsString_storeBytes (decimals_numeral _).ne_zero buffer m) (by omega)

/-- `-7`. -/
theorem atoi_snprintf_seven :
    ∃ len m', snprintf noFloats 100 12 [0x25, 0x64] [.word 0xFFFFFFF9] (fun _ => 0) =
      .ok (len, m') ∧ HalOS.atoi m' 100 12 = some (-7) :=
  atoi_snprintf noFloats 0xFFFFFFF9 (fun _ => 0) (by norm_num) (by norm_num) (by norm_num)

end Printf

end HalOS
