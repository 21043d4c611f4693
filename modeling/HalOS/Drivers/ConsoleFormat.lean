import HalOS.Lib.CString
import HalOS.Lib.InPlace
import HalOS.Lib.Numeral

/-!
# Formats

`console_vprintf` of `drivers/console.c`, with what it passes to `console_putchar` as a list. Its
buffer for numbers has 32 bytes, and a store behind them fails with its index.

## Main results

* `formatNumber_eq`: the number that `format_number` leaves in the buffer.
* `printsNumbers_iff`: which numbers are printed right.
-/

namespace HalOS

open CString (Memory HoldsString)
open InPlace (mirror)
open Numeral (numeral value)

/-! ### The functions -/

/-- What goes wrong: a store behind the buffer, a format that ends in a conversion, of which the
loop reads on behind the terminator, and an argument that is not there. -/
inductive FormatFault
  | store (i : ℕ)
  | format
  | argument
deriving DecidableEq, Repr

/-- `buf[i] = c`. -/
def storeByte (buf : Memory) (i : ℕ) (c : UInt8) : Except FormatFault Memory :=
  if i < 32 then .ok (Function.update buf i c) else .error (.store i)

/-- `digits[d]`. -/
def digitChar (uppercase : Bool) (d : ℕ) : UInt8 :=
  (if uppercase then
    [0x30, 0x31, 0x32, 0x33, 0x34, 0x35, 0x36, 0x37, 0x38, 0x39, 0x41, 0x42, 0x43, 0x44, 0x45, 0x46]
  else
    [0x30, 0x31, 0x32, 0x33, 0x34, 0x35, 0x36, 0x37, 0x38, 0x39, 0x61, 0x62, 0x63, 0x64, 0x65,
      0x66]).getD d 0

/-- The loop of `format_number` that stores the digits; it goes on as long as there are any. -/
def digitLoop (uppercase : Bool) (base : UInt32) :
    ℕ → UInt32 → Memory → ℕ → Except FormatFault (Memory × ℕ)
  | 0, _, buf, i => .ok (buf, i)
  | fuel + 1, val, buf, i =>
      if 0 < val then do
        let buf ← storeByte buf i (digitChar uppercase (val % base).toNat)
        digitLoop uppercase base fuel (val / base) buf (i + 1)
      else .ok (buf, i)

/-- The loop of `format_number` that pads the number, with so many bytes to go. -/
def padLoop (c : UInt8) : ℕ → Memory → ℕ → Except FormatFault (Memory × ℕ)
  | 0, buf, i => .ok (buf, i)
  | n + 1, buf, i => do
      let buf ← storeByte buf i c
      padLoop c n buf (i + 1)

/-- The loop of `format_number` that turns the number round, with so many bytes to go. -/
def swapLoop (i : ℕ) : ℕ → ℕ → Memory → Except FormatFault Memory
  | 0, _, buf => .ok buf
  | n + 1, j, buf => do
      let temp := buf j
      let buf ← storeByte buf j (buf (i - j - 1))
      let buf ← storeByte buf (i - j - 1) temp
      swapLoop i n (j + 1) buf

/-- The lines of `format_number` for the digits, with how many there are. -/
def storeDigits (buf : Memory) (val base : UInt32) (uppercase : Bool) :
    Except FormatFault (Memory × ℕ) :=
  if val = 0 then (storeByte buf 0 0x30).map fun buf => (buf, 1)
  else digitLoop uppercase base val.toNat val buf 0

/-- `format_number`. -/
def formatNumber (buf : Memory) (val base : UInt32) (uppercase : Bool) (width : ℕ)
    (padZero : Bool) : Except FormatFault Memory := do
  let number ← storeDigits buf val base uppercase
  let padded ← padLoop (if padZero then 0x30 else 0x20) (width - number.2) number.1 number.2
  let buf ← swapLoop padded.2 (padded.2 / 2) 0 padded.1
  storeByte buf padded.2 0

/-- An argument of `console_printf`: a word, or a string, which may be `NULL`. -/
inductive VaArg
  | word (v : UInt32)
  | string (s : Option (List UInt8))
deriving DecidableEq, Repr

/-- `*format >= '0' && *format <= '9'`. -/
def isDigit (c : UInt8) : Bool := 0x30 ≤ c && c ≤ 0x39

/-- What stands between `%` and the conversion: the flag and the width, and the rest of the
format. -/
def parseFlags (format : List UInt8) : Bool × ℕ × List UInt8 :=
  let padZero := format.head? = some 0x30
  let format := if padZero then format.tail else format
  (padZero, (format.takeWhile isDigit).foldl (fun width c => width * 10 + (c - 0x30).toNat) 0,
    format.dropWhile isDigit)

/-- The number is formatted and printed; the buffer is kept. -/
def printNumber (buf : Memory) (v base : UInt32) (uppercase : Bool) (width : ℕ) (padZero : Bool) :
    Except FormatFault (List UInt8 × Memory) :=
  (formatNumber buf v base uppercase width padZero).map fun buf => (CString.stringAt buf 32 0, buf)

/-- What one conversion prints, with the buffer and the other arguments after it. -/
def convert (buf : Memory) (n : UInt8) (width : ℕ) (padZero : Bool) (args : List VaArg) :
    Except FormatFault ((List UInt8 × Memory) × List VaArg) :=
  if n = 0x63 then
    match args with
    | .word v :: args => .ok (([v.toUInt8], buf), args)
    | _ => .error .argument
  else if n = 0x73 then
    match args with
    | .string s :: args => .ok ((s.getD [0x28, 0x6E, 0x75, 0x6C, 0x6C, 0x29], buf), args)
    | _ => .error .argument
  else if n = 0x64 then
    match args with
    | .word v :: args => (printNumber buf v 10 false width padZero).map fun r => (r, args)
    | _ => .error .argument
  else if n = 0x75 ∨ n = 0x78 ∨ n = 0x58 then
    match args with
    | .word v :: args => (printNumber buf v 16 (n = 0x58) width padZero).map fun r => (r, args)
    | _ => .error .argument
  else .ok (([0x25, n], buf), args)

/-- The loop of `console_vprintf`, with as much fuel as there is format. -/
def vprintfLoop : ℕ → Memory → List UInt8 → List VaArg → Except FormatFault (List UInt8)
  | 0, _, _, _ => .ok []
  | _, _, [], _ => .ok []
  | fuel + 1, buf, n :: format, args =>
      if n ≠ 0x25 then (vprintfLoop fuel buf format args).map fun text => n :: text
      else
        let flags := parseFlags format
        match flags.2.2 with
        | [] => .error .format
        | n :: format => do
            let r ← convert buf n flags.2.1 flags.1 args
            (vprintfLoop fuel r.1.2 format r.2).map fun text => r.1.1 ++ text

/-- `console_vprintf`; the buffer holds anything at first. -/
def consoleVprintf (buf : Memory) (format : List UInt8) (args : List VaArg) :
    Except FormatFault (List UInt8) :=
  vprintfLoop format.length buf format args

/-! ### The buffer -/

/-- The buffer begins with these bytes. -/
def HoldsBytes (buf : Memory) (bytes : List UInt8) : Prop :=
  ∀ j (h : j < bytes.length), buf j = bytes[j]

theorem storeByte_append {buf : Memory} {bytes : List UInt8} (h : HoldsBytes buf bytes)
    (hlt : bytes.length < 32) (c : UInt8) :
    ∃ buf', storeByte buf bytes.length c = .ok buf' ∧ HoldsBytes buf' (bytes ++ [c]) := by
  refine ⟨_, if_pos hlt, fun j hj => ?_⟩
  rw [List.length_append, List.length_singleton] at hj
  obtain rfl | hne := eq_or_ne j bytes.length
  · rw [Function.update_self, List.getElem_concat_length rfl]
  · rw [Function.update_of_ne hne, List.getElem_append_left (by omega)]
    exact h j (by omega)

theorem padLoop_eq (c : UInt8) (n : ℕ) {buf : Memory} {bytes : List UInt8}
    (h : HoldsBytes buf bytes) (hlt : bytes.length + n ≤ 32) :
    ∃ buf', padLoop c n buf bytes.length = .ok (buf', bytes.length + n) ∧
      HoldsBytes buf' (bytes ++ List.replicate n c) := by
  induction n generalizing buf bytes with
  | zero => exact ⟨buf, rfl, by rwa [List.replicate_zero, List.append_nil]⟩
  | succ n ih =>
      obtain ⟨buf₁, hstore, h₁⟩ := storeByte_append h (by omega) c
      obtain ⟨buf', hloop, h'⟩ := ih h₁ (by rw [List.length_append, List.length_singleton]; omega)
      rw [List.length_append, List.length_singleton] at hloop
      refine ⟨buf', ?_, ?_⟩
      · rw [padLoop, hstore]
        exact hloop.trans (by rw [Nat.add_assoc, Nat.add_comm 1 n])
      · rwa [List.append_assoc, List.singleton_append, ← List.replicate_succ] at h'

theorem digitLoop_eq (uppercase : Bool) {base : UInt32} (hbase : 1 < base.toNat) {fuel : ℕ}
    {val : UInt32} (hfuel : val.toNat ≤ fuel) {buf : Memory} {bytes : List UInt8}
    (h : HoldsBytes buf bytes)
    (hlt : bytes.length + (Nat.digits base.toNat val.toNat).length ≤ 32) :
    ∃ buf', digitLoop uppercase base fuel val buf bytes.length =
        .ok (buf', bytes.length + (Nat.digits base.toNat val.toNat).length) ∧
      HoldsBytes buf'
        (bytes ++ (Nat.digits base.toNat val.toNat).map (digitChar uppercase)) := by
  induction fuel generalizing val buf bytes with
  | zero =>
      have hval : val.toNat = 0 := by omega
      rw [hval, Nat.digits_zero]
      exact ⟨buf, rfl, by rwa [List.map_nil, List.append_nil]⟩
  | succ fuel ih =>
      rw [digitLoop]
      by_cases hpos : 0 < val
      · have hval : 0 < val.toNat := UInt32.lt_iff_toNat_lt.mp hpos
        rw [Nat.digits_def' hbase hval] at hlt ⊢
        rw [List.length_cons] at hlt
        have hquotient : (val / base).toNat = val.toNat / base.toNat := UInt32.toNat_div _ _
        have hsmaller : val.toNat / base.toNat < val.toNat := Nat.div_lt_self hval hbase
        obtain ⟨buf₁, hstore, h₁⟩ := storeByte_append h (by omega)
          (digitChar uppercase (val % base).toNat)
        have hrest : (val / base).toNat ≤ fuel := by omega
        obtain ⟨buf', hloop, h'⟩ := ih hrest h₁
          (by rw [List.length_append, List.length_singleton, hquotient]; omega)
        rw [List.length_append, List.length_singleton, hquotient] at hloop
        rw [hquotient, UInt32.toNat_mod, List.append_assoc, List.singleton_append] at h'
        refine ⟨buf', ?_, h'⟩
        rw [if_pos hpos, hstore, List.length_cons]
        exact hloop.trans (by rw [Nat.add_assoc, Nat.add_comm 1])
      · have hval : val.toNat = 0 := by
          rw [UInt32.lt_iff_toNat_lt] at hpos
          exact Nat.le_zero.mp (Nat.not_lt.mp hpos)
        rw [if_neg hpos, hval, Nat.digits_zero]
        exact ⟨buf, rfl, by rwa [List.map_nil, List.append_nil]⟩

/-- The bytes are turned round that are not among the first `j` and not among the last. -/
theorem swapLoop_eq {i : ℕ} (hi : i ≤ 32) (n j : ℕ) (h : 2 * (j + n) ≤ i)
    (hmiddle : i ≤ 2 * (j + n) + 1) (buf : Memory) :
    swapLoop i n j buf = .ok (mirror j (i - j) buf) := by
  induction n generalizing j buf with
  | zero => exact congrArg Except.ok (InPlace.mirror_of_le (by omega) buf).symm
  | succ n ih =>
      have hfirst : storeByte buf j (buf (i - j - 1)) =
          .ok (Function.update buf j (buf (i - j - 1))) := if_pos (by omega)
      have hsecond (buf : Memory) (c : UInt8) : storeByte buf (i - j - 1) c =
          .ok (Function.update buf (i - j - 1) c) := if_pos (by omega)
      have hinner := ih (j + 1) (by omega) (by omega) (InPlace.swap buf j (i - j - 1))
      rw [← Nat.sub_sub] at hinner
      rw [InPlace.mirror_eq_swap (by omega), ← hinner, swapLoop, hfirst]
      exact congrArg (· >>= swapLoop i n (j + 1)) (hsecond _ _)

/-- The bytes are turned round. -/
theorem HoldsBytes.swapLoop {buf : Memory} {bytes : List UInt8} (h : HoldsBytes buf bytes)
    (hle : bytes.length ≤ 32) :
    ∃ buf', HalOS.swapLoop bytes.length (bytes.length / 2) 0 buf = .ok buf' ∧
      HoldsBytes buf' bytes.reverse := by
  refine ⟨_, swapLoop_eq hle (bytes.length / 2) 0 (by omega) (by omega) buf, fun t ht => ?_⟩
  rw [List.length_reverse] at ht
  rw [InPlace.mirror, if_pos (by omega), List.getElem_reverse, ← h _ (by omega)]
  exact congrArg buf (by omega)

theorem HoldsBytes.holdsString {buf : Memory} {bytes : List UInt8} (h : HoldsBytes buf bytes)
    (hlt : bytes.length < 32) (hne : ∀ c ∈ bytes, c ≠ 0) :
    ∃ buf', storeByte buf bytes.length 0 = .ok buf' ∧ HoldsString buf' 0 bytes := by
  refine ⟨_, if_pos hlt, ⟨fun j hj => ?_, ?_, hne⟩⟩
  · rw [Nat.zero_add, Function.update_of_ne (by omega)]
    exact h j hj
  · rw [Nat.zero_add, Function.update_self]

/-! ### Numbers -/

/-- What pads a number. -/
def padChar (padZero : Bool) : UInt8 := if padZero then 0x30 else 0x20

/-- A text, aligned to the right. -/
def padded (padZero : Bool) (width : ℕ) (text : List UInt8) : List UInt8 :=
  List.replicate (width - text.length) (padChar padZero) ++ text

theorem digitChar_ne_zero (uppercase : Bool) {d : ℕ} (h : d < 16) : digitChar uppercase d ≠ 0 := by
  revert d
  cases uppercase <;> decide

/-- The digits in the buffer, the least significant one first. -/
theorem storeDigits_eq (buf : Memory) (val : UInt32) {base : UInt32} (hbase : 1 < base.toNat)
    (uppercase : Bool)
    (hlength : (Numeral.digits base.toNat val.toNat).length < 32) :
    ∃ buf', storeDigits buf val base uppercase =
        .ok (buf', (Numeral.digits base.toNat val.toNat).length) ∧
      HoldsBytes buf' ((Numeral.digits base.toNat val.toNat).map (digitChar uppercase)) := by
  have hnone : HoldsBytes buf [] := fun j hj => absurd hj (Nat.not_lt_zero j)
  rw [Numeral.digits] at hlength ⊢
  rw [storeDigits]
  by_cases hval : val = 0
  · have hzero : val.toNat = 0 := by rw [hval, UInt32.toNat_zero]
    obtain ⟨buf', hstore, h'⟩ := storeByte_append hnone (by decide) (digitChar uppercase 0)
    have hchar : digitChar uppercase 0 = 0x30 := by cases uppercase <;> rfl
    rw [if_pos hval, if_pos hzero]
    rw [hchar] at hstore
    exact ⟨buf', congrArg (Except.map fun buf => (buf, 1)) hstore, h'⟩
  · have hzero : val.toNat ≠ 0 := fun h => hval (UInt32.toNat_inj.mp h)
    rw [if_neg hzero] at hlength
    rw [if_neg hval, if_neg hzero]
    obtain ⟨buf', hloop, h'⟩ := digitLoop_eq uppercase hbase (Nat.le_refl val.toNat) hnone
      (by rw [List.length_nil]; omega)
    rw [List.length_nil, Nat.zero_add] at hloop
    exact ⟨buf', hloop, h'⟩

/-- The number that `format_number` leaves in the buffer, if it has room. -/
theorem formatNumber_eq (buf : Memory) (val : UInt32) {base : UInt32} (hbase : 1 < base.toNat)
    (hdigit : base.toNat ≤ 16) (uppercase : Bool) {width : ℕ} (padZero : Bool)
    (hlength : (Numeral.digits base.toNat val.toNat).length < 32) (hwidth : width < 32) :
    ∃ buf', formatNumber buf val base uppercase width padZero = .ok buf' ∧
      HoldsString buf' 0
        (padded padZero width (numeral (digitChar uppercase) base.toNat val.toNat)) := by
  obtain ⟨buf₁, hdigits, h₁⟩ := storeDigits_eq buf val hbase uppercase hlength
  have hne : ∀ c ∈ (Numeral.digits base.toNat val.toNat).map (digitChar uppercase), c ≠ 0 := by
    intro c hc
    obtain ⟨d, hd, rfl⟩ := List.mem_map.mp hc
    exact digitChar_ne_zero uppercase
      (Nat.lt_of_lt_of_le (Numeral.lt_of_mem_digits hbase hd) hdigit)
  rw [← List.length_map (f := digitChar uppercase)] at hdigits hlength
  rw [numeral]
  generalize (Numeral.digits base.toNat val.toNat).map (digitChar uppercase) = digits at *
  obtain ⟨buf₂, hpad, h₂⟩ := padLoop_eq (padChar padZero) (width - digits.length) h₁ (by omega)
  have hpadded : (digits ++ List.replicate (width - digits.length) (padChar padZero)).reverse =
      padded padZero width digits.reverse := by
    rw [padded, List.reverse_append, List.reverse_replicate, List.length_reverse]
  have hsize : (digits ++ List.replicate (width - digits.length) (padChar padZero)).length =
      digits.length + (width - digits.length) := by
    rw [List.length_append, List.length_replicate]
  obtain ⟨buf₃, hswap, h₃⟩ := h₂.swapLoop (by omega)
  obtain ⟨buf', hstore, h'⟩ := h₃.holdsString (by rw [List.length_reverse]; omega) (by
    intro c hc
    obtain hc | hc := List.mem_append.mp (List.mem_reverse.mp hc)
    · exact hne c hc
    · rw [List.eq_of_mem_replicate hc, padChar]
      cases padZero <;> decide)
  rw [hsize] at hswap
  rw [List.length_reverse, hsize] at hstore
  rw [hpadded] at h'
  refine ⟨buf', ?_, h'⟩
  rw [formatNumber, hdigits]
  dsimp only [bind, Except.bind]
  rw [← padChar, hpad]
  dsimp only
  rw [hswap]
  exact hstore

/-! ### Formats -/

/-- The width of a conversion. -/
def widthText (width : ℕ) : List UInt8 :=
  if width = 0 then []
  else if width < 10 then [digitChar false width]
  else [digitChar false (width / 10), digitChar false (width % 10)]

/-- A format with one conversion. -/
def conversion (padZero : Bool) (width : ℕ) (conv : UInt8) : List UInt8 :=
  0x25 :: ((if padZero then [0x30] else []) ++ widthText width ++ [conv])

/-- The four conversions of numbers. -/
def numberConversions : List UInt8 := [0x64, 0x75, 0x78, 0x58]

/-- The flag and the width of the conversion are read. -/
theorem parseFlags_conversion (padZero : Bool) {width : ℕ} (hwidth : width < 32) {conv : UInt8}
    (hconv : conv ∈ numberConversions) :
    parseFlags (conversion padZero width conv).tail = (padZero, width, [conv]) := by
  have h : ∀ padZero, ∀ width < 32, ∀ conv ∈ numberConversions,
      parseFlags (conversion padZero width conv).tail = (padZero, width, [conv]) := by
    decide +kernel
  exact h padZero width hwidth conv hconv

theorem convert_number (buf : Memory) (v : UInt32) (padZero : Bool) (width : ℕ) {conv : UInt8}
    (hconv : conv ∈ numberConversions) (args : List VaArg) :
    convert buf conv width padZero (.word v :: args) =
      (printNumber buf v (if conv = 0x64 then 10 else 16) (conv = 0x58) width padZero).map
        fun r => (r, args) := by
  rw [numberConversions, List.mem_cons, List.mem_cons, List.mem_cons, List.mem_singleton] at hconv
  obtain rfl | rfl | rfl | rfl := hconv <;> rfl

/-- A format with one conversion of a number prints the number. -/
theorem consoleVprintf_conversion (buf : Memory) (v : UInt32) (padZero : Bool) {width : ℕ}
    (hwidth : width < 32) {conv : UInt8} (hconv : conv ∈ numberConversions) :
    consoleVprintf buf (conversion padZero width conv) [.word v] =
      (printNumber buf v (if conv = 0x64 then 10 else 16) (conv = 0x58) width padZero).map
        fun r => r.1 := by
  have hflags := parseFlags_conversion padZero hwidth hconv
  rw [conversion, List.tail_cons] at hflags
  rw [consoleVprintf, conversion, List.length_cons, vprintfLoop, if_neg (not_not.mpr rfl)]
  dsimp only
  rw [hflags]
  dsimp only
  rw [convert_number buf v padZero width hconv]
  generalize List.length _ = fuel
  cases printNumber buf v (if conv = 0x64 then 10 else 16) (conv = 0x58) width padZero with
  | error e => rfl
  | ok r =>
      have hend : vprintfLoop fuel r.2 [] [] = .ok [] := by cases fuel <;> rfl
      have hthen : (vprintfLoop fuel r.2 [] []).map (fun text => r.1 ++ text) = .ok r.1 := by
        rw [hend]
        exact congrArg Except.ok (List.append_nil r.1)
      exact hthen

/-- What is printed for a number, in the base of its conversion. -/
theorem consoleVprintf_number (buf : Memory) (v : UInt32) (padZero : Bool) {width : ℕ}
    (hwidth : width < 32) {conv : UInt8} (hconv : conv ∈ numberConversions) :
    consoleVprintf buf (conversion padZero width conv) [.word v] =
      .ok (padded padZero width
        (numeral (digitChar (conv = 0x58)) (if conv = 0x64 then 10 else 16) v.toNat)) := by
  have hbase : (if conv = 0x64 then 10 else 16 : UInt32).toNat =
      if conv = 0x64 then 10 else 16 := by
    split_ifs <;> rfl
  have hrange : 10 ≤ (if conv = 0x64 then 10 else 16) ∧ (if conv = 0x64 then 10 else 16) ≤ 16 := by
    split_ifs <;> decide
  rw [consoleVprintf_conversion buf v padZero hwidth hconv, ← hbase]
  rw [← hbase] at hrange
  generalize (if conv = 0x64 then 10 else 16 : UInt32) = base at hrange ⊢
  have hsize : v.toNat < base.toNat ^ 10 :=
    Nat.lt_of_lt_of_le (Nat.lt_trans v.toNat_lt (by decide)) (Nat.pow_le_pow_left hrange.1 10)
  have hlength : (Numeral.digits base.toNat v.toNat).length ≤ 10 :=
    Numeral.length_digits_le (by omega) (by decide) hsize
  obtain ⟨buf', hformat, h'⟩ := formatNumber_eq buf v
    (by omega : 1 < base.toNat) hrange.2
    (conv = 0x58) padZero (by omega) hwidth
  have htext := h'.stringAt_eq (n := 32) (by
    rw [padded, List.length_append, List.length_replicate, numeral, List.length_reverse,
      List.length_map]
    omega)
  rw [printNumber, hformat, ← htext]
  rfl

/-! ### Reading numbers -/

/-- What a digit stands for. -/
def digitValue (c : UInt8) : ℕ :=
  if c ≤ 0x39 then c.toNat - 0x30 else if c ≤ 0x46 then c.toNat - 0x37 else c.toNat - 0x57

theorem digitValue_digitChar (uppercase : Bool) {d : ℕ} (h : d < 16) :
    digitValue (digitChar uppercase d) = d := by
  revert d
  cases uppercase <;> decide

/-- The number that a text stands for, with spaces in front and perhaps a sign. -/
def readNumber (base : ℕ) (text : List UInt8) : ℤ :=
  let digits := text.dropWhile (· = 0x20)
  if digits.head? = some 0x2D then -(value digitValue base digits.tail : ℤ)
  else value digitValue base digits

/-- The text of a signed number; zeros stand behind the sign. -/
def signedText (padZero : Bool) (width : ℕ) (z : ℤ) : List UInt8 :=
  let digits := numeral (digitChar false) 10 z.natAbs
  if 0 ≤ z then padded padZero width digits
  else if padZero then 0x2D :: padded true (width - 1) digits
  else padded false width (0x2D :: digits)

theorem digitChar_ne (uppercase : Bool) {d : ℕ} (h : d < 16) :
    digitChar uppercase d ≠ 0x20 ∧ digitChar uppercase d ≠ 0x2D := by
  revert d
  cases uppercase <;> decide

/-- Digits are read behind any number of spaces. -/
theorem readNumber_spaces {digits : List UInt8} (h : ∀ c ∈ digits, c ≠ 0x20 ∧ c ≠ 0x2D)
    (k base : ℕ) :
    readNumber base (List.replicate k 0x20 ++ digits) = value digitValue base digits := by
  have hdrop : (List.replicate k 0x20 ++ digits).dropWhile (· = 0x20) = digits := by
    induction k with
    | zero =>
        cases digits with
        | nil => rfl
        | cons c digits =>
            exact List.dropWhile_cons_of_neg (by simpa using (h c List.mem_cons_self).1)
    | succ k ih =>
        rw [List.replicate_succ, List.cons_append, List.dropWhile_cons_of_pos (by decide), ih]
  have hsign : digits.head? ≠ some 0x2D := by
    intro hhead
    exact (h _ (List.mem_of_head? hhead)).2 rfl
  rw [readNumber, hdrop]
  exact if_neg hsign

/-- A padded number is read as the number, in any base. -/
theorem readNumber_padded (padZero : Bool) (width : ℕ) (uppercase : Bool) {b : ℕ} (hb : 1 < b)
    (hle : b ≤ 16) (n c : ℕ) :
    readNumber c (padded padZero width (numeral (digitChar uppercase) b n)) =
      value digitValue c (numeral (digitChar uppercase) b n) := by
  have hchars : ∀ ch ∈ numeral (digitChar uppercase) b n, ch ≠ 0x20 ∧ ch ≠ 0x2D := by
    intro ch hch
    obtain ⟨d, hd, rfl⟩ := List.mem_map.mp (List.mem_reverse.mp hch)
    exact digitChar_ne uppercase (Nat.lt_of_lt_of_le (Numeral.lt_of_mem_digits hb hd) hle)
  rw [padded]
  cases padZero with
  | false => exact readNumber_spaces hchars _ c
  | true =>
      have hzeros : ∀ ch ∈
          List.replicate (width - (numeral (digitChar uppercase) b n).length) 0x30 ++
            numeral (digitChar uppercase) b n, ch ≠ 0x20 ∧ ch ≠ 0x2D := by
        intro ch hch
        obtain hch | hch := List.mem_append.mp hch
        · rw [List.eq_of_mem_replicate hch]
          decide
        · exact hchars ch hch
      exact (readNumber_spaces hzeros 0 c).trans
        (congrArg Nat.cast
          (Numeral.value_replicate_append (by decide : digitValue 0x30 = 0) _ _))

/-- What is printed stands for the number: the text is the right one, and it is read as the
number. -/
def Prints (buf : Memory) (format : List UInt8) (v : UInt32) (text : List UInt8) (base : ℕ)
    (z : ℤ) : Prop :=
  consoleVprintf buf format [.word v] = .ok text ∧ readNumber base text = z

theorem toInt_toInt32 (v : UInt32) :
    v.toInt32.toInt = if v.toNat < 2 ^ 31 then (v.toNat : ℤ) else v.toNat - 2 ^ 32 := by
  have h : v.toInt32.toInt =
      if 2 * v.toNat < 2 ^ 32 then (v.toNat : ℤ) else v.toNat - (2 ^ 32 : ℕ) :=
    BitVec.toInt_eq_toNat_cond _
  rw [h]
  split_ifs <;> omega

section Numbers

variable (buf : Memory) (padZero : Bool) (width : Fin 32) (v : UInt32)

theorem digitValue_of_lt (uppercase : Bool) {b : ℕ} (hb : b ≤ 16) :
    ∀ d < b, digitValue (digitChar uppercase d) = d :=
  fun _ hd => digitValue_digitChar uppercase (Nat.lt_of_lt_of_le hd hb)

theorem readNumber_numeral (uppercase : Bool) {b : ℕ} (hb : 1 < b) (hle : b ≤ 16) :
    readNumber b (padded padZero width (numeral (digitChar uppercase) b v.toNat)) = v.toNat := by
  rw [readNumber_padded padZero width uppercase hb hle,
    Numeral.value_numeral hb (digitValue_of_lt uppercase hle)]

theorem vprintf_d : consoleVprintf buf (conversion padZero width 0x64) [.word v] =
    .ok (padded padZero width (numeral (digitChar false) 10 v.toNat)) :=
  consoleVprintf_number buf v padZero width.isLt (by decide)

theorem vprintf_u : consoleVprintf buf (conversion padZero width 0x75) [.word v] =
    .ok (padded padZero width (numeral (digitChar false) 16 v.toNat)) :=
  consoleVprintf_number buf v padZero width.isLt (by decide)

/-- A negative number is printed as the one that it is without a sign. -/
theorem prints_d_iff :
    Prints buf (conversion padZero width 0x64) v (signedText padZero width v.toInt32.toInt) 10
      v.toInt32.toInt ↔ v.toNat < 2 ^ 31 := by
  constructor
  · rintro ⟨htext, hnumber⟩
    rw [← Except.ok.inj ((vprintf_d buf padZero width v).symm.trans htext),
      readNumber_numeral padZero width v false (by decide) (by decide), toInt_toInt32] at hnumber
    by_contra hnegative
    rw [if_neg hnegative] at hnumber
    omega
  · intro h
    have hpositive : v.toInt32.toInt = v.toNat := by rw [toInt_toInt32, if_pos h]
    have hsigned : signedText padZero width v.toInt32.toInt =
        padded padZero width (numeral (digitChar false) 10 v.toNat) := by
      rw [hpositive, signedText, if_pos (Int.natCast_nonneg _), Int.natAbs_natCast]
    rw [hsigned, hpositive]
    exact ⟨vprintf_d buf padZero width v,
      readNumber_numeral padZero width v false (by decide) (by decide)⟩

/-- Of a number with two digits or more the hexadecimal text is another one. -/
theorem prints_u_iff :
    Prints buf (conversion padZero width 0x75) v
      (padded padZero width (numeral (digitChar false) 10 v.toNat)) 10 v.toNat ↔ v.toNat < 10 := by
  have hprinted := vprintf_u buf padZero width v
  constructor
  · rintro ⟨htext, -⟩
    have hnumber := congrArg (readNumber 16) (Except.ok.inj (hprinted.symm.trans htext))
    rw [readNumber_numeral padZero width v false (by decide) (by decide),
      readNumber_padded padZero width false (by decide) (by decide)] at hnumber
    by_contra hlarge
    have hlt := Numeral.lt_value_numeral (c := 16) (by decide)
      (digitValue_of_lt false (by decide)) (by decide) (Nat.not_lt.mp hlarge)
    omega
  · intro h
    have hsame : numeral (digitChar false) 16 v.toNat = numeral (digitChar false) 10 v.toNat := by
      rw [numeral, numeral, Numeral.digits_of_lt h, Numeral.digits_of_lt (by omega)]
    rw [hsame] at hprinted
    exact ⟨hprinted, readNumber_numeral padZero width v false (by decide) (by decide)⟩

/-- **Numbers** are printed right, whatever the width and the padding, exactly if they are not
negative for `%d` and have one digit for `%u`, and always for `%x` and `%X`. No store misses the
buffer. -/
theorem printsNumbers_iff :
    (Prints buf (conversion padZero width 0x64) v (signedText padZero width v.toInt32.toInt) 10
        v.toInt32.toInt ↔ v.toNat < 2 ^ 31) ∧
      (Prints buf (conversion padZero width 0x75) v
        (padded padZero width (numeral (digitChar false) 10 v.toNat)) 10 v.toNat ↔ v.toNat < 10) ∧
      Prints buf (conversion padZero width 0x78) v
        (padded padZero width (numeral (digitChar false) 16 v.toNat)) 16 v.toNat ∧
      Prints buf (conversion padZero width 0x58) v
        (padded padZero width (numeral (digitChar true) 16 v.toNat)) 16 v.toNat ∧
      ∀ conv ∈ numberConversions,
        ∃ text, consoleVprintf buf (conversion padZero width conv) [.word v] = .ok text := by
  refine ⟨prints_d_iff buf padZero width v, prints_u_iff buf padZero width v, ⟨?_, ?_⟩, ⟨?_, ?_⟩,
    fun conv hconv => ?_⟩
  · exact consoleVprintf_number buf v padZero width.isLt (by decide)
  · exact readNumber_numeral padZero width v false (by decide) (by decide)
  · exact consoleVprintf_number buf v padZero width.isLt (by decide)
  · exact readNumber_numeral padZero width v true (by decide) (by decide)
  · exact ⟨_, consoleVprintf_number buf v padZero width.isLt hconv⟩

end Numbers

/-- The number 16 is printed as 10 by `%u`, and `-1` without its sign by `%d`. -/
theorem printsNumbers_violated :
    (¬ ∀ (buf : Memory) (padZero : Bool) (width : Fin 32) (v : UInt32),
      Prints buf (conversion padZero width 0x64) v (signedText padZero width v.toInt32.toInt) 10
        v.toInt32.toInt) ∧
    ¬ ∀ (buf : Memory) (padZero : Bool) (width : Fin 32) (v : UInt32),
      Prints buf (conversion padZero width 0x75) v
        (padded padZero width (numeral (digitChar false) 10 v.toNat)) 10 v.toNat := by
  constructor
  · intro hall
    exact absurd ((prints_d_iff _ _ _ _).mp (hall (fun _ => 0) false 0 0xFFFFFFFF)) (by decide)
  · intro hall
    exact absurd ((prints_u_iff _ _ _ _).mp (hall (fun _ => 0) false 0 16)) (by decide)

end HalOS
