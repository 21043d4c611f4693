import HalOS.Libs.PrintfText

/-!
# The Text of an Integer

What the conversions of integers print. As long as the buffer of 32 characters holds the number with
its zeros and its sign, the text is that of the C standard, except that a precision is ignored with
the flag `-`. A longer number loses its sign.

## Main results

* `integer_text_standard`: when the text is the standard one.
* `minus_printed_iff`: when a negative number has its sign.
-/

namespace HalOS

namespace Printf

open Numeral (numeral value)

/-! ### Digits -/

/-- The loop stores all digits if there is room for them. -/
theorem digitLoop_eq (uppercase : Bool) {base : ℕ} (hbase : 1 < base) (n v : ℕ) (buf : List UInt8)
    (h : (Numeral.digits base v).length ≤ n) :
    digitLoop uppercase base n v buf =
      buf ++ (Numeral.digits base v).map (digitChar uppercase) := by
  induction n generalizing v buf with
  | zero =>
      have hpos := Numeral.length_digits_pos base v
      omega
  | succ n ih =>
      rw [digitLoop]
      rcases Nat.lt_or_ge v base with hlt | hge
      · rw [Nat.div_eq_of_lt hlt, Numeral.digits_of_lt hlt, Nat.mod_eq_of_lt hlt]
        rfl
      · rw [Numeral.digits_of_le hbase hge, List.length_cons] at h
        have hdiv : v / base ≠ 0 := (Nat.div_pos hge (by omega)).ne'
        simp only [if_pos hdiv]
        rw [ih _ _ (by omega), Numeral.digits_of_le hbase hge, List.map_cons, List.append_assoc]
        rfl

/-- The digits that are printed: none for a zero with a precision. -/
def integerDigits (v base : ℕ) (flags : Flags) : List UInt8 :=
  if flags.precision && v = 0 then [] else numeral (digitChar flags.uppercase) base v

theorem length_digits_le {base v : ℕ} (hbase : 1 < base) (hv : v < 2 ^ 32) :
    (Numeral.digits base v).length ≤ ntoaBufferSize :=
  Numeral.length_digits_le hbase (by norm_num)
    (hv.trans_le (Nat.pow_le_pow_left hbase ntoaBufferSize))

theorem ntoaDigits_eq {base v : ℕ} (hbase : 1 < base) (hv : v < 2 ^ 32) (flags : Flags) :
    ntoaDigits v base flags = (integerDigits v base flags).reverse := by
  rw [ntoaDigits, integerDigits, digitLoop_eq _ hbase _ _ _ (length_digits_le hbase hv),
    List.nil_append]
  by_cases hprec : flags.precision = true <;> by_cases hzero : v = 0 <;>
    simp [hprec, hzero, numeral]

/-! ### The standard text -/

/-- The sign of a number. -/
def sign (negative : Bool) (flags : Flags) : List UInt8 :=
  if negative then [0x2D] else if flags.plus then [0x2B] else if flags.space then [0x20] else []

/-- The text of a number by the standard: its digits with zeros up to the precision and its sign, in
the width. -/
def standardText (digits sign : List UInt8) (prec width : ℕ) (flags : Flags) : List UInt8 :=
  let number := List.replicate (prec - digits.length) 0x30 ++ digits
  let room := width - (sign ++ number).length
  if flags.left then sign ++ (number ++ List.replicate room 0x20)
  else if flags.zeropad then sign ++ (List.replicate room 0x30 ++ number)
  else List.replicate room 0x20 ++ (sign ++ number)

/-- The number with its zeros and its sign is within the buffer. -/
def Fits (digits sign : List UInt8) (prec width : ℕ) (flags : Flags) : Prop :=
  if flags.left then prec ≤ digits.length
  else prec + sign.length ≤ ntoaBufferSize ∧ (flags.zeropad → width ≤ ntoaBufferSize)

theorem length_sign_le (negative : Bool) (flags : Flags) : (sign negative flags).length ≤ 1 := by
  rw [sign]
  split_ifs <;> simp

theorem reverse_sign (negative : Bool) (flags : Flags) :
    (sign negative flags).reverse = sign negative flags := by
  rw [sign]
  split_ifs <;> rfl

/-- The sign is stored if there is room for it. -/
theorem ntoaSign_eq {buf : List UInt8} {negative : Bool} {flags : Flags}
    (h : buf.length + (sign negative flags).length ≤ ntoaBufferSize) :
    ntoaSign buf negative flags = buf ++ sign negative flags := by
  simp only [ntoaSign, sign, pushChar] at h ⊢
  split_ifs at h ⊢ <;> simp_all

theorem ntoaHash_of_not_hash {buf : List UInt8} {base prec width : ℕ} {flags : Flags}
    (h : flags.hash = false) : ntoaHash buf base prec width flags = buf := by
  simp [ntoaHash, h]

theorem reverse_fillZeros (buf : List UInt8) {n : ℕ} (h : n ≤ ntoaBufferSize) :
    (fillZeros buf n).reverse = List.replicate (n - buf.length) 0x30 ++ buf.reverse := by
  rw [fillZeros, List.reverse_append, List.reverse_replicate, Nat.min_eq_left h]

theorem length_fillZeros_eq {buf : List UInt8} {n : ℕ} (h : n ≤ ntoaBufferSize) : (fillZeros buf n).length = max buf.length n := by
  rw [length_fillZeros, Nat.min_eq_left h]

/-- The width for the zeros. -/
theorem width_of_sign (negative : Bool) (width : ℕ) {flags : Flags} (hzero : flags.zeropad = true) :
    (if width ≠ 0 && flags.zeropad && (negative || flags.plus || flags.space) then width - 1
      else width) = width - (sign negative flags).length := by
  cases width with
  | zero => simp
  | succ width => 
      rw [sign]
      cases negative <;> cases flags.plus <;> cases flags.space <;> simp [hzero]

/-- The characters of a number with its sign, in the order of the text. -/
theorem reverse_ntoaSign {buf : List UInt8} {negative : Bool} {flags : Flags}
    (h : buf.length + (sign negative flags).length ≤ ntoaBufferSize) :
    (ntoaSign buf negative flags).reverse = sign negative flags ++ buf.reverse := by
  rw [ntoaSign_eq h, List.reverse_append, reverse_sign]

theorem length_ntoaSign {buf : List UInt8} {negative : Bool} {flags : Flags}
    (h : buf.length + (sign negative flags).length ≤ ntoaBufferSize) :
    (ntoaSign buf negative flags).length = (sign negative flags).length + buf.length := by
  rw [ntoaSign_eq h, List.length_append, Nat.add_comm]

/-- A number that fits is printed as by the standard. -/
theorem ntoaText_standard {v base prec width : ℕ} {negative : Bool} {flags : Flags}
    (hbase : 1 < base) (hv : v < 2 ^ 32) (hhash : flags.hash = false)
    (hsign : (integerDigits v base flags).length + (sign negative flags).length ≤ ntoaBufferSize)
    (hfits : Fits (integerDigits v base flags) (sign negative flags) prec width flags) :
    ntoaText v negative base prec width flags =
      standardText (integerDigits v base flags) (sign negative flags) prec width flags := by
  have hflags : (if v = 0 then { flags with hash := false } else flags).hash = false := by
    split_ifs
    · rfl
    · exact hhash
  have hone := length_sign_le negative flags
  have hsize : ntoaBufferSize = 32 := rfl
  rw [ntoaText, ntoaBuffer, standardText]
  simp only [ntoaHash_of_not_hash hflags, ntoaDigits_eq hbase hv]
  rw [Fits] at hfits
  rw [revText]
  cases hleft : flags.left with
  | true =>
      rw [if_pos hleft] at hfits
      have hzeros : ntoaZeros (integerDigits v base flags).reverse negative prec width flags =
          ((integerDigits v base flags).reverse, width) := by
        rw [ntoaZeros, if_pos hleft]
      have hlen : (integerDigits v base flags).reverse.length + (sign negative flags).length ≤
          ntoaBufferSize := by
        rw [List.length_reverse]
        exact hsign
      simp only [hzeros, reverse_ntoaSign hlen, length_ntoaSign hlen, List.reverse_reverse,
        List.length_reverse, Nat.sub_eq_zero_of_le hfits, List.length_append]
      simp
  | false =>
      rw [if_neg (by simp [hleft])] at hfits
      obtain ⟨hprec, hwidth⟩ := hfits
      cases hzero : flags.zeropad with
      | false =>
          have hzeros : ntoaZeros (integerDigits v base flags).reverse negative prec width flags =
              (fillZeros (integerDigits v base flags).reverse prec, width) := by
            simp [ntoaZeros, hleft, hzero]
          have hlen : (fillZeros (integerDigits v base flags).reverse prec).length +
              (sign negative flags).length ≤ ntoaBufferSize := by
            rw [length_fillZeros_eq (by omega), List.length_reverse]
            omega
          simp only [hzeros, reverse_ntoaSign hlen, length_ntoaSign hlen,
            length_fillZeros_eq (show prec ≤ ntoaBufferSize by omega),
            reverse_fillZeros _ (show prec ≤ ntoaBufferSize by omega), List.reverse_reverse,
            List.length_reverse, List.length_append, List.length_replicate]
          have hnumber : prec - (integerDigits v base flags).length +
              (integerDigits v base flags).length = max (integerDigits v base flags).length prec := by
            omega
          simp [hnumber]
      | true =>
          have hwidth := hwidth hzero
          have hroom : width - (sign negative flags).length ≤ ntoaBufferSize := by omega
          have hzeros : (ntoaZeros (integerDigits v base flags).reverse negative prec width
              flags).1 = fillZeros (fillZeros (integerDigits v base flags).reverse prec)
                (width - (sign negative flags).length) := by
            rw [← width_of_sign negative width hzero, ntoaZeros, if_neg (by simp [hleft])]
            simp only [hzero, if_true]
          have hlen : (fillZeros (fillZeros (integerDigits v base flags).reverse prec)
              (width - (sign negative flags).length)).length +
                (sign negative flags).length ≤ ntoaBufferSize := by
            rw [length_fillZeros_eq hroom, length_fillZeros_eq (by omega), List.length_reverse]
            omega
          simp only [hzeros, reverse_ntoaSign hlen, reverse_fillZeros _ hroom,
            length_fillZeros_eq (show prec ≤ ntoaBufferSize by omega),
            reverse_fillZeros _ (show prec ≤ ntoaBufferSize by omega), List.reverse_reverse,
            List.length_reverse, List.length_append, List.length_replicate]
          have hnumber : prec - (integerDigits v base flags).length +
              (integerDigits v base flags).length = max (integerDigits v base flags).length prec := by
            omega
          simp [hnumber, Nat.sub_sub]

/-! ### Arguments -/

/-- The number that the conversion `c` takes its argument for. -/
def argument (c : UInt8) (flags : Flags) (v : UInt32) : ℤ :=
  if isSigned c then (signedValue flags v).toInt else unsignedValue flags v

/-- The word without its sign is the absolute value, also of the least number. -/
theorem toNat_abs (x : Int32) :
    (if 0 < x then x else 0 - x).toUInt32.toNat = x.toInt.natAbs := by
  have hx : x.toInt = x.toBitVec.toInt := rfl
  have hlt := x.toBitVec.isLt
  split_ifs with h
  · have hpos : 0 < x.toInt := by simpa using Int32.lt_iff_toInt_lt.mp h
    have hbits : x.toUInt32.toNat = x.toBitVec.toNat := rfl
    rw [hx, BitVec.toInt_eq_toNat_cond] at hpos ⊢
    split_ifs at hpos ⊢ <;> omega
  · have hneg : x.toInt ≤ 0 := by
      by_contra hpos
      exact h (Int32.lt_iff_toInt_lt.mpr (by simpa using hpos))
    have hbits : (0 - x).toUInt32.toNat = (0 - x.toBitVec).toNat := rfl
    rw [hx, BitVec.toInt_eq_toNat_cond] at hneg
    rw [hx, hbits, BitVec.toNat_sub, BitVec.toInt_eq_toNat_cond]
    split_ifs at hneg ⊢ <;> simp <;> omega

theorem magnitude_eq (c : UInt8) (flags : Flags) (v : UInt32) :
    magnitude c flags v = (argument c flags v).natAbs := by
  rw [magnitude, argument]
  split_ifs
  · exact toNat_abs _
  · rfl

theorem isNegative_eq (c : UInt8) (flags : Flags) (v : UInt32) :
    isNegative c flags v = decide (argument c flags v < 0) := by
  rw [isNegative, argument]
  cases isSigned c with
  | false => simp
  | true => simp [Int32.lt_iff_toInt_lt]

/-- The digits of an argument. -/
def argumentDigits (c : UInt8) (s : Spec) (v : UInt32) : List UInt8 :=
  let flags := integerFlags c s.flags
  integerDigits (argument c flags v).natAbs (integerBase c) flags

/-- The sign of an argument. -/
def argumentSign (c : UInt8) (s : Spec) (v : UInt32) : List UInt8 :=
  let flags := integerFlags c s.flags
  sign (argument c flags v < 0) flags

theorem integerText_eq (c : UInt8) (s : Spec) (v : UInt32) :
    integerText c s v =
      ntoaText (argument c (integerFlags c s.flags) v).natAbs
        (argument c (integerFlags c s.flags) v < 0) (integerBase c) s.precision s.width
        (integerFlags c s.flags) := by
  rw [integerText, magnitude_eq, isNegative_eq]

theorem one_lt_integerBase (c : UInt8) : 1 < integerBase c := by
  rw [integerBase]
  split_ifs <;> norm_num

theorem integerBase_le (c : UInt8) : integerBase c ≤ 16 := by
  rw [integerBase]
  split_ifs <;> norm_num

theorem integerBase_of_isSigned {c : UInt8} (h : isSigned c = true) : integerBase c = 10 := by
  have hc : c = 0x69 ∨ c = 0x64 := by simpa [isSigned] using h
  rcases hc with rfl | rfl <;> rfl

theorem natAbs_argument_lt (c : UInt8) (flags : Flags) (v : UInt32) :
    (argument c flags v).natAbs < 2 ^ 32 := by
  rw [← magnitude_eq, magnitude]
  split_ifs
  · exact UInt32.toNat_lt _
  · rw [unsignedValue]
    split_ifs
    · exact UInt32.toNat_lt _
    · exact (UInt8.toNat_lt _).trans (by norm_num)
    · exact (UInt16.toNat_lt _).trans (by norm_num)
    · exact UInt32.toNat_lt _

theorem integerFlags_left (c : UInt8) (flags : Flags) :
    (integerFlags c flags).left = flags.left := by
  simp only [integerFlags]
  split_ifs <;> rfl

theorem integerFlags_precision (c : UInt8) (flags : Flags) :
    (integerFlags c flags).precision = flags.precision := by
  simp only [integerFlags]
  split_ifs <;> rfl

theorem integerFlags_zeropad (c : UInt8) (flags : Flags) :
    (integerFlags c flags).zeropad = (flags.zeropad && !flags.precision) := by
  simp only [integerFlags]
  split_ifs <;> simp_all

theorem integerFlags_hash_of_isSigned {c : UInt8} (flags : Flags) (h : isSigned c = true) :
    (integerFlags c flags).hash = false := by
  simp only [integerFlags, integerBase_of_isSigned h]
  split_ifs <;> rfl

/-- Only a signed conversion has a sign. -/
theorem argumentSign_of_not_isSigned {c : UInt8} (s : Spec) (v : UInt32)
    (h : isSigned c = false) : argumentSign c s v = [] := by
  have hneg : ¬ argument c (integerFlags c s.flags) v < 0 := by simp [argument, h]
  have hplus : (integerFlags c s.flags).plus = false := by
    simp only [integerFlags, h]
    split_ifs <;> simp_all
  have hspace : (integerFlags c s.flags).space = false := by
    simp only [integerFlags, h]
    split_ifs <;> simp_all
  simp [argumentSign, sign, hneg, hplus, hspace]

theorem length_integerDigits_le {v base : ℕ} (flags : Flags) {n : ℕ} (hbase : 1 < base)
    (hn : 0 < n) (hv : v < base ^ n) : (integerDigits v base flags).length ≤ n := by
  rw [integerDigits]
  split_ifs
  · exact Nat.zero_le _
  · exact Numeral.length_numeral_le hbase hn hv

/-- The digits of a signed conversion. -/
theorem length_argumentDigits_le {c : UInt8} (s : Spec) (v : UInt32) (h : isSigned c = true) :
    (argumentDigits c s v).length ≤ 10 := by
  rw [argumentDigits, integerBase_of_isSigned h]
  exact length_integerDigits_le _ (by norm_num) (by norm_num)
    ((natAbs_argument_lt _ _ _).trans (by norm_num))

/-- A number has room for its sign. -/
theorem length_argument_le (c : UInt8) (s : Spec) (v : UInt32) :
    (argumentDigits c s v).length + (argumentSign c s v).length ≤ ntoaBufferSize := by
  cases hsigned : isSigned c with
  | false =>
      rw [argumentSign_of_not_isSigned s v hsigned, List.length_nil, Nat.add_zero]
      exact length_integerDigits_le _ (one_lt_integerBase c) (by norm_num)
        ((natAbs_argument_lt _ _ _).trans_le
          (Nat.pow_le_pow_left (one_lt_integerBase c) ntoaBufferSize))
  | true =>
      have hsize : ntoaBufferSize = 32 := rfl
      have hdigits := length_argumentDigits_le s v hsigned
      have hsign : (argumentSign c s v).length ≤ 1 := length_sign_le _ _
      omega

/-- Without the flag `#`, a number that fits the buffer is converted to the text of the standard:
its digits with zeros up to the precision, its sign, and spaces or zeros up to the width. -/
theorem integer_text_standard (c : UInt8) (s : Spec) (v : UInt32)
    (hhash : (integerFlags c s.flags).hash = false)
    (hfits : Fits (argumentDigits c s v) (argumentSign c s v) s.precision s.width
      (integerFlags c s.flags)) :
    integerText c s v =
      standardText (argumentDigits c s v) (argumentSign c s v) s.precision s.width
        (integerFlags c s.flags) := by
  rw [integerText_eq]
  exact ntoaText_standard (one_lt_integerBase c) (natAbs_argument_lt c _ v) hhash
    (length_argument_le c s v) hfits

/-- `printf_("%+05d", 42)`. -/
theorem integer_text_standard_plus :
    integerText 0x64 ⟨{ Flags.none with plus := true, zeropad := true }, 5, 0, [], []⟩ 42 =
      [0x2B, 0x30, 0x30, 0x34, 0x32] :=
  integer_text_standard 0x64 ⟨{ Flags.none with plus := true, zeropad := true }, 5, 0, [], []⟩ 42
    rfl (by simp [Fits, integerFlags, integerBase, isSigned, Flags.none]; decide)

/-! ### The sign -/

theorem minus_ne_digitChar (uppercase : Bool) {d : ℕ} (hd : d < 16) :
    digitChar uppercase d ≠ 0x2D := by
  revert uppercase d
  decide

theorem minus_not_mem_integerDigits {v base : ℕ} (flags : Flags) (hbase : 1 < base)
    (hle : base ≤ 16) : 0x2D ∉ integerDigits v base flags := by
  rw [integerDigits]
  split_ifs
  · exact List.not_mem_nil
  · intro h
    obtain ⟨d, hd, hc⟩ := Numeral.exists_of_mem_numeral hbase h
    exact minus_ne_digitChar _ (hd.trans_le hle) hc

theorem minus_mem_fillZeros {buf : List UInt8} (n : ℕ) :
    0x2D ∈ fillZeros buf n ↔ 0x2D ∈ buf := by
  rw [fillZeros, List.mem_append, or_iff_left]
  intro h
  exact absurd (List.eq_of_mem_replicate h) (by decide)

theorem minus_mem_ntoaZeros {buf : List UInt8} (negative : Bool) (prec width : ℕ) (flags : Flags) :
    0x2D ∈ (ntoaZeros buf negative prec width flags).1 ↔ 0x2D ∈ buf := by
  simp only [ntoaZeros]
  split_ifs <;> simp only [minus_mem_fillZeros]

theorem minus_mem_revText {buf : List UInt8} (width : ℕ) (flags : Flags) :
    0x2D ∈ revText buf width flags ↔ 0x2D ∈ buf := by
  have hspace : ∀ n, (0x2D : UInt8) ∉ List.replicate n 0x20 := fun n h =>
    absurd (List.eq_of_mem_replicate h) (by decide)
  rw [revText]
  split_ifs <;> simp [hspace]

/-- A minus is stored exactly if there is room for it. -/
theorem minus_mem_ntoaSign {buf : List UInt8} (flags : Flags) (h : 0x2D ∉ buf) :
    0x2D ∈ ntoaSign buf true flags ↔ buf.length < ntoaBufferSize := by
  simp only [ntoaSign, if_true, pushChar]
  split_ifs with hlt <;> simp [h, hlt]

/-- How many characters a negative number has with its zeros. -/
theorem length_ntoaZeros (buf : List UInt8) (prec width : ℕ) {flags : Flags}
    (h : flags.left = false) :
    (ntoaZeros buf true prec width flags).1.length =
      max (max buf.length (min prec ntoaBufferSize))
        (if flags.zeropad then min (width - 1) ntoaBufferSize else 0) := by
  rw [ntoaZeros, if_neg (by simp [h])]
  cases hzero : flags.zeropad with
  | false => simp [length_fillZeros]
  | true => cases width <;> simp [length_fillZeros]

/-- A negative number is printed with its sign exactly if it is put to the left of its width, or is
filled up with fewer zeros than the buffer holds characters. -/
theorem minus_printed_iff {c : UInt8} {s : Spec} {v : UInt32}
    (hneg : argument c (integerFlags c s.flags) v < 0) :
    0x2D ∈ integerText c s v ↔
      s.flags.left = true ∨
        s.precision < ntoaBufferSize ∧
          (s.flags.zeropad = true → s.flags.precision = false → s.width ≤ ntoaBufferSize) := by
  have hsigned : isSigned c = true := by
    by_contra h
    rw [argument, if_neg h] at hneg
    omega
  have hsize : ntoaBufferSize = 32 := rfl
  have hbase := one_lt_integerBase c
  have hdigits := length_argumentDigits_le s v hsigned
  have hminus : 0x2D ∉ (argumentDigits c s v).reverse := by
    rw [List.mem_reverse]
    exact minus_not_mem_integerDigits _ hbase (integerBase_le c)
  have hhash : ∀ b : Prop, [Decidable b] → (if b then { integerFlags c s.flags with hash := false }
      else integerFlags c s.flags).hash = false := by
    intro b _
    split_ifs
    · rfl
    · exact integerFlags_hash_of_isSigned _ hsigned
  have hleft := integerFlags_left c s.flags
  rw [integerText_eq, ntoaText, minus_mem_revText, ntoaBuffer]
  simp only [ntoaHash_of_not_hash (hhash _), hneg, decide_true,
    ntoaDigits_eq hbase (natAbs_argument_lt c _ v)]
  rw [minus_mem_ntoaSign _ (by rwa [minus_mem_ntoaZeros])]
  cases hl : s.flags.left with
  | true =>
      rw [ntoaZeros, if_pos (hleft.trans hl), List.length_reverse]
      simp only [true_or, iff_true]
      exact hdigits.trans_lt (by norm_num)
  | false =>
      rw [length_ntoaZeros _ _ _ (hleft.trans hl), List.length_reverse, integerFlags_zeropad]
      rw [argumentDigits] at hdigits
      cases s.flags.zeropad <;> cases s.flags.precision <;> simp <;> omega

/-- `printf_("%033d", -5)` prints a positive number. -/
theorem minus_printed_iff_lost :
    0x2D ∉ integerText 0x64 ⟨{ Flags.none with zeropad := true }, 33, 0, [], []⟩ 0xFFFFFFFB := by
  rw [minus_printed_iff (by decide)]
  simp [Flags.none]

end Printf

end HalOS
