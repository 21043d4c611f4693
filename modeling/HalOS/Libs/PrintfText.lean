import HalOS.Lib.Outcome
import HalOS.Libs.Printf

/-!
# The Text of a Format

What a format means, whatever the output function is: a text, with the arguments that are left. An
output function is given the characters of this text one after another, each with its index in it;
so `snprintf` cuts it off at the end of the buffer and returns its length all the same, and `printf`
puts out its characters other than zero.

## Main results

* `snprintf_stays_in_buffer`: what `snprintf_` returns, and the bytes that it changes.
* `printf_agrees`: `printf_` puts out what `snprintf_` stores.
-/

namespace HalOS

namespace Printf

open CString (Memory)
open Outcome (bind_eq_ok map_eq_ok)

variable {τ : Type} {fp : FloatText} {k : Sink τ}

/-! ### Texts -/

/-- The text of `_out_rev`. -/
def revText (buf : List UInt8) (width : ℕ) (flags : Flags) : List UInt8 :=
  (if !flags.left && !flags.zeropad then List.replicate (width - buf.length) 0x20 else []) ++
    (buf.reverse ++ if flags.left then List.replicate (width - buf.length) 0x20 else [])

/-- The digits that `_ntoa_long` puts into the buffer. -/
def ntoaDigits (value base : ℕ) (flags : Flags) : List UInt8 :=
  if !flags.precision || value ≠ 0 then digitLoop flags.uppercase base ntoaBufferSize value []
  else []

/-- The buffer of `_ntoa_long` with all that is put into it, and the width that is left. -/
def ntoaBuffer (value : ℕ) (negative : Bool) (base prec width : ℕ) (flags : Flags) :
    List UInt8 × ℕ :=
  let zeros := ntoaZeros (ntoaDigits value base flags) negative prec width flags
  let hashed := ntoaHash zeros.1 base prec zeros.2
    (if value = 0 then { flags with hash := false } else flags)
  (ntoaSign hashed negative flags, zeros.2)

/-- The text of `_ntoa_long`. -/
def ntoaText (value : ℕ) (negative : Bool) (base prec width : ℕ) (flags : Flags) : List UInt8 :=
  let buffer := ntoaBuffer value negative base prec width flags
  revText buffer.1 buffer.2 flags

/-- The part of a string that is put out. -/
def stringPart (p : List UInt8) (s : Spec) : List UInt8 :=
  if s.flags.precision then p.take s.precision else p

/-- A text in the width of a conversion. -/
def padded (text : List UInt8) (s : Spec) : List UInt8 :=
  (if s.flags.left then [] else List.replicate (s.width - text.length) 0x20) ++
    (text ++ if s.flags.left then List.replicate (s.width - text.length) 0x20 else [])

/-- The text of the conversion `c` of an integer. -/
def integerText (c : UInt8) (s : Spec) (v : UInt32) : List UInt8 :=
  let flags := integerFlags c s.flags
  ntoaText (magnitude c flags v) (isNegative c flags v) (integerBase c) s.precision s.width flags

/-- The text of the conversion `c` of an integer, with the arguments that are left. -/
def convertIntegerText (c : UInt8) (s : Spec) : Except Fault (List UInt8 × List VaArg) :=
  if (integerFlags c s.flags).longLong then .ok ([], s.args)
  else do
    let (v, args) ← nextWord s.args
    return (integerText c s v, args)

/-- The text of the conversion `c`, with the arguments that are left. -/
def convertText (fp : FloatText) (c : UInt8) (s : Spec) : Except Fault (List UInt8 × List VaArg) :=
  if c ∈ [0x64, 0x69, 0x75, 0x78, 0x58, 0x6F, 0x62] then convertIntegerText c s
  else if c ∈ [0x66, 0x46] then do
    let (v, args) ← nextDouble s.args
    return (fp.ftoa v s.precision s.width (ftoaFlags c s.flags), args)
  else if c ∈ [0x65, 0x45, 0x67, 0x47] then do
    let (v, args) ← nextDouble s.args
    return (fp.etoa v s.precision s.width (etoaFlags c s.flags), args)
  else if c = 0x63 then do
    let (v, args) ← nextWord s.args
    return (padded [v.toUInt8] s, args)
  else if c = 0x73 then do
    let (p, args) ← nextString s.args
    return (padded (stringPart p s) s, args)
  else if c = 0x70 then do
    let (v, args) ← nextWord s.args
    return (ntoaText v.toNat false 16 s.precision 8
      { s.flags with zeropad := true, uppercase := true }, args)
  else .ok ([c], s.args)

/-- The text of a format, with fuel for its characters and conversions. -/
def formatTextLoop (fp : FloatText) :
    ℕ → List UInt8 → List VaArg → Except Fault (List UInt8 × List VaArg)
  | _, [], args => .ok ([], args)
  | 0, _, args => .ok ([], args)
  | fuel + 1, c :: format, args =>
      if c ≠ 0x25 then (formatTextLoop fp fuel format args).map fun r => (c :: r.1, r.2)
      else do
        let s ← formatSpec format args
        match s.format with
        | [] => .error .format
        | c :: format => do
            let (text, args) ← convertText fp c s
            (formatTextLoop fp fuel format args).map fun r => (text ++ r.1, r.2)

/-- The text of a format, with the arguments that are left. -/
def formatText (fp : FloatText) (format : List UInt8) (args : List VaArg) :
    Except Fault (List UInt8 × List VaArg) :=
  formatTextLoop fp format.length format args

/-! ### What an output function is given -/

theorem put_fst_lt (c : UInt8) (st : ℕ × τ) : (k.put c st).1 < 2 ^ 32 :=
  Nat.mod_lt _ (by norm_num)

theorem putAll_append (text text' : List UInt8) (st : ℕ × τ) :
    putAll k (text ++ text') st = putAll k text' (putAll k text st) := by
  induction text generalizing st with
  | nil => rfl
  | cons c text ih => exact ih _

theorem putAll_fst_lt {st : ℕ × τ} (text : List UInt8) (h : st.1 < 2 ^ 32) :
    (putAll k text st).1 < 2 ^ 32 := by
  induction text generalizing st with
  | nil => exact h
  | cons c text ih => exact ih (put_fst_lt c st)

/-- The index counts the characters, as an `unsigned int`. -/
theorem putAll_fst {st : ℕ × τ} (text : List UInt8) (h : st.1 < 2 ^ 32) :
    (putAll k text st).1 = u32 (st.1 + text.length) := by
  induction text generalizing st with
  | nil => exact (Nat.mod_eq_of_lt h).symm
  | cons c text ih =>
      rw [putAll, ih (put_fst_lt c st), List.length_cons]
      simp only [Sink.put, u32]
      omega

theorem spaces_eq (n : ℕ) (st : ℕ × τ) : spaces k n st = putAll k (List.replicate n 0x20) st := by
  induction n generalizing st with
  | zero => rfl
  | succ n ih => exact ih _

/-- The padding on the right goes on until the width is reached. -/
theorem padRight_eq {startIdx width : ℕ} (hstart : startIdx < 2 ^ 32) (hwidth : width < 2 ^ 32)
    (fuel : ℕ) {n : ℕ} {st : ℕ × τ} (hn : n < 2 ^ 32) (h : st.1 = u32 (startIdx + n)) :
    padRight k startIdx width fuel st =
      putAll k (List.replicate (min fuel (width - n)) 0x20) st := by
  induction fuel generalizing n st with
  | zero => simp [padRight, putAll]
  | succ fuel ih =>
      have hidx : u32 (st.1 + 2 ^ 32 - startIdx) = n := by
        simp only [h, u32]
        omega
      rw [padRight, hidx]
      split_ifs with hlt
      · have hput : (k.put 0x20 st).1 = u32 (startIdx + (n + 1)) := by
          simp only [Sink.put, h, u32]
          omega
        rw [ih (by omega) hput, show min (fuel + 1) (width - n) = min fuel (width - (n + 1)) + 1 by
          omega]
        rfl
      · rw [show min (fuel + 1) (width - n) = 0 by omega]
        rfl

/-- `_out_rev` puts out its text. -/
theorem outRev_eq {buf : List UInt8} {width : ℕ} (flags : Flags) {st : ℕ × τ}
    (hbuf : buf.length ≤ ntoaBufferSize) (hwidth : width < 2 ^ 32) (hst : st.1 < 2 ^ 32) :
    outRev k buf width flags st = putAll k (revText buf width flags) st := by
  have hsize : ntoaBufferSize = 32 := rfl
  cases hleft : flags.left with
  | false =>
      simp only [outRev, revText, hleft, Bool.not_false, Bool.true_and, Bool.false_eq_true,
        if_false, List.append_nil, putAll_append, spaces_eq]
      split_ifs <;> rfl
  | true =>
      have hidx : (putAll k buf.reverse st).1 = u32 (st.1 + buf.length) := by
        rw [putAll_fst _ hst, List.length_reverse]
      simp only [outRev, revText, hleft, Bool.not_true, Bool.false_and, Bool.false_eq_true,
        if_false, if_true, List.nil_append, putAll_append]
      rw [padRight_eq hst hwidth width (by omega) hidx, Nat.min_eq_right (Nat.sub_le _ _)]

/-! ### The buffer of a number -/

theorem length_digitLoop_le (uppercase : Bool) (base n value : ℕ) (buf : List UInt8) :
    (digitLoop uppercase base n value buf).length ≤ buf.length + n := by
  induction n generalizing value buf with
  | zero => exact Nat.le_refl _
  | succ n ih =>
      rw [digitLoop]
      split_ifs with h
      · have := ih (value / base) (buf ++ [digitChar uppercase (value % base)])
        simp only [List.length_append, List.length_singleton] at this
        omega
      · simp only [List.length_append, List.length_singleton]
        omega

theorem length_ntoaDigits_le (value base : ℕ) (flags : Flags) :
    (ntoaDigits value base flags).length ≤ ntoaBufferSize := by
  rw [ntoaDigits]
  split_ifs with h
  · exact (length_digitLoop_le _ _ _ _ _).trans (by simp)
  · exact Nat.zero_le _

theorem length_fillZeros (buf : List UInt8) (n : ℕ) :
    (fillZeros buf n).length = max buf.length (min n ntoaBufferSize) := by
  simp only [fillZeros, List.length_append, List.length_replicate]
  omega

theorem length_pushChar_le {buf : List UInt8} (c : UInt8) (h : buf.length ≤ ntoaBufferSize) :
    (pushChar buf c).length ≤ ntoaBufferSize := by
  rw [pushChar]
  split_ifs with hlt
  · rw [List.length_append, List.length_singleton]
    exact hlt
  · exact h

theorem length_ntoaZeros_le {buf : List UInt8} (negative : Bool) (prec width : ℕ) (flags : Flags)
    (h : buf.length ≤ ntoaBufferSize) :
    (ntoaZeros buf negative prec width flags).1.length ≤ ntoaBufferSize := by
  simp only [ntoaZeros]
  split_ifs <;> simp only [length_fillZeros] <;> omega

theorem ntoaZeros_width_le (buf : List UInt8) (negative : Bool) (prec width : ℕ) (flags : Flags) :
    (ntoaZeros buf negative prec width flags).2 ≤ width := by
  simp only [ntoaZeros]
  split_ifs <;> omega

theorem length_ntoaHash_le {buf : List UInt8} (base prec width : ℕ) (flags : Flags)
    (h : buf.length ≤ ntoaBufferSize) :
    (ntoaHash buf base prec width flags).length ≤ ntoaBufferSize := by
  have hdrop : buf.dropLast.length ≤ ntoaBufferSize := by
    rw [List.length_dropLast]
    omega
  have hdrop' : buf.dropLast.dropLast.length ≤ ntoaBufferSize := by
    rw [List.length_dropLast]
    omega
  simp only [ntoaHash]
  split_ifs <;> first
    | exact h
    | exact length_pushChar_le _ (by assumption)
    | exact length_pushChar_le _ (length_pushChar_le _ (by assumption))

theorem length_ntoaSign_le {buf : List UInt8} (negative : Bool) (flags : Flags)
    (h : buf.length ≤ ntoaBufferSize) : (ntoaSign buf negative flags).length ≤ ntoaBufferSize := by
  rw [ntoaSign]
  split_ifs <;> first | exact length_pushChar_le _ h | exact h

/-- The buffer of a number is not overrun. -/
theorem length_ntoaBuffer_le (value : ℕ) (negative : Bool) (base prec width : ℕ) (flags : Flags) :
    (ntoaBuffer value negative base prec width flags).1.length ≤ ntoaBufferSize :=
  length_ntoaSign_le _ _ (length_ntoaHash_le _ _ _ _
    (length_ntoaZeros_le _ _ _ _ (length_ntoaDigits_le _ _ _)))

/-- `_ntoa_long` puts out its text. -/
theorem ntoaLong_eq (value : ℕ) (negative : Bool) (base prec : ℕ) {width : ℕ} (flags : Flags)
    {st : ℕ × τ} (hwidth : width < 2 ^ 32) (hst : st.1 < 2 ^ 32) :
    ntoaLong k value negative base prec width flags st =
      putAll k (ntoaText value negative base prec width flags) st := by
  have hlt : (ntoaBuffer value negative base prec width flags).2 < 2 ^ 32 :=
    (ntoaZeros_width_le _ _ _ _ _).trans_lt hwidth
  rw [ntoaText, ← outRev_eq flags (length_ntoaBuffer_le value negative base prec width flags) hlt
    hst]
  by_cases hv : value = 0 <;>
    simp [ntoaLong, ntoaFormat, ntoaBuffer, ntoaDigits, ntoaZeros, ntoaSign, outRev, hv]

/-! ### Conversions -/

theorem atoi_fst_lt (format : List UInt8) {i : ℕ} (h : i < 2 ^ 32) :
    (atoi format i).1 < 2 ^ 32 := by
  induction format generalizing i with
  | nil => exact h
  | cons c format ih =>
      rw [atoi]
      split_ifs
      · exact ih (Nat.mod_lt _ (by norm_num))
      · exact h

/-- What holds of every conversion that is read off a format. -/
structure Spec.WellFormed (s : Spec) : Prop where
  width_lt : s.width < 2 ^ 32
  precision_eq : s.flags.precision = false → s.precision = 0

theorem formatFlags_precision (format : List UInt8) (flags : Flags) :
    (formatFlags format flags).1.precision = flags.precision := by
  induction format generalizing flags with
  | nil => rfl
  | cons c format ih =>
      rw [formatFlags]
      split_ifs <;> first | exact ih _ | rfl

theorem formatWidth_wellFormed {s s' : Spec} (h : formatWidth s = .ok s') (hs : s.WellFormed) :
    s'.WellFormed := by
  rw [formatWidth] at h
  cases hf : s.format with
  | nil =>
      rw [hf] at h
      cases h
      exact hs
  | cons c format =>
      simp only [hf] at h
      split_ifs at h with hdigit hstar
      · cases h
        exact ⟨atoi_fst_lt _ (by norm_num), hs.precision_eq⟩
      · obtain ⟨r, -, h⟩ := bind_eq_ok.mp h
        split_ifs at h <;> cases h <;> exact ⟨UInt32.toNat_lt _, hs.precision_eq⟩
      · cases h
        exact hs

theorem precisionValue_flags {s s' : Spec} (h : precisionValue s = .ok s') :
    s'.flags = s.flags ∧ s'.width = s.width := by
  rw [precisionValue] at h
  cases hf : s.format with
  | nil =>
      rw [hf] at h
      cases h
      exact ⟨rfl, rfl⟩
  | cons c format =>
      simp only [hf] at h
      split_ifs at h
      · cases h
        exact ⟨rfl, rfl⟩
      · obtain ⟨r, -, h⟩ := bind_eq_ok.mp h
        cases h
        exact ⟨rfl, rfl⟩
      · cases h
        exact ⟨rfl, rfl⟩

theorem formatPrecision_wellFormed {s s' : Spec} (h : formatPrecision s = .ok s')
    (hs : s.WellFormed) : s'.WellFormed := by
  rw [formatPrecision] at h
  cases hf : s.format with
  | nil =>
      rw [hf] at h
      cases h
      exact hs
  | cons c format =>
      simp only [hf] at h
      split_ifs at h
      · obtain ⟨hflags, hwidth⟩ := precisionValue_flags h
        refine ⟨hwidth ▸ hs.width_lt, fun hprec => ?_⟩
        rw [hflags] at hprec
        cases hprec
      · cases h
        exact hs

theorem formatLength_wellFormed {s : Spec} (hs : s.WellFormed) : (formatLength s).WellFormed := by
  rw [formatLength]
  cases s.format with
  | nil => exact hs
  | cons c format =>
      simp only
      split_ifs <;> exact ⟨hs.width_lt, hs.precision_eq⟩

theorem formatSpec_ok {format : List UInt8} {args : List VaArg} {s : Spec}
    (h : formatSpec format args = .ok s) :
    ∃ s₁ s₂, formatWidth ⟨(formatFlags format .none).1, 0, 0, (formatFlags format .none).2, args⟩ =
      .ok s₁ ∧ formatPrecision s₁ = .ok s₂ ∧ s = formatLength s₂ := by
  rw [formatSpec] at h
  obtain ⟨s₁, h₁, h⟩ := bind_eq_ok.mp h
  obtain ⟨s₂, h₂, h⟩ := bind_eq_ok.mp h
  cases h
  exact ⟨s₁, s₂, h₁, h₂, rfl⟩

/-- The width of a conversion is a word, and without a period its precision is zero. -/
theorem formatSpec_wellFormed {format : List UInt8} {args : List VaArg} {s : Spec}
    (h : formatSpec format args = .ok s) : s.WellFormed := by
  obtain ⟨s₁, s₂, h₁, h₂, rfl⟩ := formatSpec_ok h
  have hs₁ : s₁.WellFormed := formatWidth_wellFormed h₁ ⟨by norm_num, fun _ => rfl⟩
  exact formatLength_wellFormed (formatPrecision_wellFormed h₂ hs₁)

theorem padded_eq (text : List UInt8) (s : Spec) (st : ℕ × τ) :
    (let st := if !s.flags.left then spaces k (s.width - text.length) st else st
     let st := putAll k text st
     if s.flags.left then spaces k (s.width - text.length) st else st) =
      putAll k (padded text s) st := by
  cases hleft : s.flags.left <;> simp [padded, hleft, putAll_append, spaces_eq]

theorem convertChar_eq (c : UInt8) (s : Spec) (st : ℕ × τ) :
    convertChar k c s st = putAll k (padded [c] s) st :=
  padded_eq [c] s st

theorem length_stringPart (p : List UInt8) {s : Spec} (hs : s.WellFormed) :
    (stringPart p s).length =
      let l := if s.precision ≠ 0 then min p.length s.precision else p.length
      if s.flags.precision then (if l < s.precision then l else s.precision) else l := by
  cases hprec : s.flags.precision with
  | false => simp [stringPart, hprec, hs.precision_eq hprec]
  | true =>
      simp only [stringPart, hprec, if_true, List.length_take]
      split_ifs <;> omega

theorem convertString_eq (p : List UInt8) {s : Spec} (hs : s.WellFormed) (st : ℕ × τ) :
    convertString k p s st = putAll k (padded (stringPart p s) s) st := by
  rw [← padded_eq, length_stringPart p hs]
  rfl

/-- What is made of an argument, as what is put out and as a text. -/
theorem bind_map_putAll {α : Type} (x : Except Fault (α × List VaArg)) {f : α → ℕ × τ}
    {text : α → List UInt8} {st : ℕ × τ} (h : ∀ a, f a = putAll k (text a) st) :
    (x >>= fun r => .ok (f r.1, r.2) : Except Fault ((ℕ × τ) × List VaArg)) =
      (x >>= fun r => .ok (text r.1, r.2) : Except Fault (List UInt8 × List VaArg)).map
        fun r => (putAll k r.1 st, r.2) := by
  cases x with
  | error e => rfl
  | ok r => exact congrArg (fun st => Except.ok (st, r.2)) (h r.1)

theorem convertInteger_eq (c : UInt8) {s : Spec} {st : ℕ × τ} (hs : s.WellFormed)
    (hst : st.1 < 2 ^ 32) :
    convertInteger k c s st = (convertIntegerText c s).map fun r => (putAll k r.1 st, r.2) := by
  rw [convertInteger, convertIntegerText]
  split_ifs
  · rfl
  · exact bind_map_putAll _ fun v => ntoaLong_eq _ _ _ _ _ hs.width_lt hst

/-- A conversion puts out its text. -/
theorem convert_eq (fp : FloatText) (c : UInt8) {s : Spec} {st : ℕ × τ} (hs : s.WellFormed)
    (hst : st.1 < 2 ^ 32) :
    convert fp k c s st = (convertText fp c s).map fun r => (putAll k r.1 st, r.2) := by
  rw [convert, convertText]
  split_ifs
  · exact convertInteger_eq c hs hst
  · cases nextDouble s.args <;> rfl
  · cases nextDouble s.args <;> rfl
  · exact bind_map_putAll _ fun v => convertChar_eq _ s st
  · exact bind_map_putAll _ fun p => convertString_eq p hs st
  · exact bind_map_putAll _ fun v => ntoaLong_eq _ _ _ _ _ (by norm_num) hst
  · rfl

/-! ### Formats -/

/-- The loop puts out the text of the format. -/
theorem vsnprintfLoop_eq (fp : FloatText) (fuel : ℕ) (format : List UInt8) (args : List VaArg)
    {st : ℕ × τ} (hst : st.1 < 2 ^ 32) :
    vsnprintfLoop fp k fuel format args st =
      (formatTextLoop fp fuel format args).map fun r => putAll k r.1 st := by
  induction fuel generalizing format args st with
  | zero => cases format <;> rfl
  | succ fuel ih =>
      cases format with
      | nil => rfl
      | cons c format =>
          rw [vsnprintfLoop, formatTextLoop]
          split_ifs
          · rw [ih _ _ (put_fst_lt c st)]
            cases formatTextLoop fp fuel format args <;> rfl
          · cases hs : formatSpec format args with
            | error e => rfl
            | ok s =>
                cases hf : s.format with
                | nil => simp [bind, Except.bind, hf, Except.map]
                | cons c format =>
                    simp only [bind, Except.bind, hf]
                    rw [convert_eq fp c (formatSpec_wellFormed hs) hst]
                    cases hc : convertText fp c s with
                    | error e => rfl
                    | ok r =>
                        simp only [Except.map]
                        rw [ih _ _ (putAll_fst_lt _ hst)]
                        cases formatTextLoop fp fuel format r.2 with
                        | error e => rfl
                        | ok r' => exact congrArg Except.ok (putAll_append r.1 r'.1 st).symm

/-- What `_vsnprintf` does with the text of a format that fits into an index. -/
theorem vsnprintf_eq (fp : FloatText) (k : Sink τ) (format : List UInt8) (args : List VaArg) (s : τ)
    (hlen : ∀ r, formatText fp format args = .ok r → r.1.length < 2 ^ 32) :
    vsnprintf fp k format args s =
      (formatText fp format args).map fun r =>
        (r.1.length, k.out 0 (if r.1.length < k.maxlen then r.1.length
          else u32 (k.maxlen + 2 ^ 32 - 1)) k.maxlen (putAll k r.1 (0, s)).2) := by
  rw [vsnprintf, vsnprintfLoop_eq fp _ format args (show (0, s).1 < 2 ^ 32 by norm_num)]
  cases hr : formatText fp format args with
  | error e =>
      rw [formatText] at hr
      rw [hr]
      rfl
  | ok r =>
      have hidx : (putAll k r.1 (0, s)).1 = r.1.length := by
        rw [putAll_fst _ (by norm_num), Nat.zero_add, u32, Nat.mod_eq_of_lt (hlen r hr)]
      rw [formatText] at hr
      rw [hr]
      simp only [Except.map, bind, Except.bind, pure, Except.pure, hidx]

/-! ### Buffers -/

/-- Nothing is put out for a `double`. -/
def noFloats : FloatText := ⟨fun _ _ _ _ => [], fun _ _ _ _ => []⟩

/-- Bytes stored at an address. -/
def storeBytes : ℕ → List UInt8 → Memory → Memory
  | _, [], m => m
  | a, c :: bytes, m => storeBytes (a + 1) bytes (Function.update m a c)

theorem storeBytes_append (a : ℕ) (bytes bytes' : List UInt8) (m : Memory) :
    storeBytes a (bytes ++ bytes') m =
      storeBytes (a + bytes.length) bytes' (storeBytes a bytes m) := by
  induction bytes generalizing a m with
  | nil => rfl
  | cons c bytes ih =>
      rw [List.cons_append, storeBytes, ih, storeBytes, List.length_cons, Nat.add_assoc,
        Nat.add_comm 1]

/-- The bytes that are changed. -/
theorem storeBytes_apply (a : ℕ) (bytes : List UInt8) (m : Memory) (x : ℕ) :
    storeBytes a bytes m x =
      if a ≤ x ∧ x < a + bytes.length then bytes.getD (x - a) 0 else m x := by
  induction bytes generalizing a m with
  | nil => rw [storeBytes, if_neg (by simp)]
  | cons c bytes ih =>
      rw [storeBytes, ih, List.length_cons]
      rcases Nat.lt_trichotomy x a with hlt | rfl | hgt
      · rw [if_neg (by omega), if_neg (by omega), Function.update_of_ne (by omega)]
      · rw [if_neg (by omega), if_pos (by omega), Function.update_self, Nat.sub_self,
          List.getD_cons_zero]
      · have hsub : x - a = x - (a + 1) + 1 := by omega
        rw [Function.update_of_ne (by omega), hsub, List.getD_cons_succ]
        exact if_congr (by omega) rfl rfl

/-- What a text with its terminator leaves in a buffer of this size. -/
def terminated (count : ℕ) (text : List UInt8) : List UInt8 :=
  if count = 0 then [] else text.take (count - 1) ++ [0]

/-- A text that is put out into a buffer is cut off behind it. -/
theorem putAll_outBuffer (buffer maxlen : ℕ) (text : List UInt8) {i : ℕ} (m : Memory)
    (hlen : i + text.length ≤ 2 ^ 32) :
    (putAll ⟨outBuffer buffer, maxlen⟩ text (i, m)).2 =
      storeBytes (buffer + i) (text.take (maxlen - i)) m := by
  induction text generalizing i m with
  | nil => rw [List.take_nil]; rfl
  | cons c text ih =>
      rw [List.length_cons] at hlen
      cases text with
      | nil =>
          by_cases hi : i < maxlen
          · obtain ⟨n, hn⟩ : ∃ n, maxlen - i = n + 1 := ⟨maxlen - i - 1, by omega⟩
            simp [putAll, Sink.put, outBuffer, hi, hn, storeBytes]
          · simp [putAll, Sink.put, outBuffer, hi, show maxlen - i = 0 by omega, storeBytes]
      | cons c' text =>
          have hidx : u32 (i + 1) = i + 1 := by
            rw [List.length_cons] at hlen
            exact Nat.mod_eq_of_lt (by omega)
          rw [putAll, Sink.put]
          simp only [hidx]
          rw [ih _ (by omega), outBuffer]
          split_ifs with hi
          · rw [show maxlen - i = maxlen - (i + 1) + 1 by omega, List.take_succ_cons]
            rfl
          · rw [show maxlen - i = 0 by omega, show maxlen - (i + 1) = 0 by omega]
            rfl

/-- The terminator comes behind the text, or over the last byte of the buffer. -/
theorem outBuffer_terminator (buffer : ℕ) {count : ℕ} (hcount : count < 2 ^ 32)
    (text : List UInt8) (m : Memory) :
    outBuffer buffer 0 (if text.length < count then text.length else u32 (count + 2 ^ 32 - 1)) count
        (storeBytes buffer (text.take count) m) =
      storeBytes buffer (terminated count text) m := by
  rw [terminated]
  rcases Nat.eq_zero_or_pos count with rfl | hpos
  · simp [outBuffer]
  · rw [if_neg hpos.ne', storeBytes_append]
    by_cases hlt : text.length < count
    · rw [if_pos hlt, outBuffer, if_pos hlt, List.take_of_length_le hlt.le,
        List.take_of_length_le (by omega)]
      rfl
    · have hlast : u32 (count + 2 ^ 32 - 1) = count - 1 := by
        simp only [u32]
        omega
      have hsplit : text.take count = text.take (count - 1) ++ [text[count - 1]] := by
        rw [← List.take_succ_eq_append_getElem, show count - 1 + 1 = count by omega]
      rw [if_neg hlt, hlast, outBuffer, if_pos (by omega), hsplit, storeBytes_append,
        List.length_take, Nat.min_eq_left (by omega)]
      simp only [storeBytes, Function.update_idem]

theorem putAll_outNull (maxlen : ℕ) (text : List UInt8) (st : ℕ × τ) :
    (putAll ⟨outNull, maxlen⟩ text st).2 = st.2 := by
  induction text generalizing st with
  | nil => rfl
  | cons c text ih => exact ih _

theorem putAll_outChar (putchar : UInt8 → τ → τ) (maxlen : ℕ) (text : List UInt8) (st : ℕ × τ) :
    (putAll ⟨outChar putchar, maxlen⟩ text st).2 =
      (text.filter (· ≠ 0)).foldl (fun s c => putchar c s) st.2 := by
  induction text generalizing st with
  | nil => rfl
  | cons c text ih =>
      rw [putAll, ih]
      by_cases hc : c = 0 <;> simp [Sink.put, outChar, hc]

/-- What `snprintf_` does with the text of a format. -/
theorem snprintf_eq (fp : FloatText) (buffer count : ℕ) (format : List UInt8)
    (args : List VaArg) (m : Memory) (hcount : count < 2 ^ 32)
    (hlen : ∀ r, formatText fp format args = .ok r → r.1.length < 2 ^ 32) :
    snprintf fp buffer count format args m =
      (formatText fp format args).map fun r =>
        (r.1.length, if buffer = 0 then m else storeBytes buffer (terminated count r.1) m) := by
  rw [snprintf, vsnprintf_eq fp _ format args m hlen]
  cases hr : formatText fp format args with
  | error e => rfl
  | ok r =>
      have hr := hlen r hr
      simp only [Except.map]
      by_cases hnull : buffer = 0
      · simp only [if_pos hnull, putAll_outNull, outNull]
      · simp only [if_neg hnull]
        rw [putAll_outBuffer buffer count r.1 m (by omega), Nat.add_zero, Nat.sub_zero,
          outBuffer_terminator buffer hcount]

/-- What `printf_` does with the text of a format. -/
theorem printf_eq (fp : FloatText) (putchar : UInt8 → τ → τ) (format : List UInt8)
    (args : List VaArg) (s : τ)
    (hlen : ∀ r, formatText fp format args = .ok r → r.1.length < 2 ^ 32) :
    printf fp putchar format args s =
      (formatText fp format args).map fun r =>
        (r.1.length, (r.1.filter (· ≠ 0)).foldl (fun s c => putchar c s) s) := by
  rw [printf, vsnprintf_eq fp _ format args s hlen]
  cases formatText fp format args with
  | error e => rfl
  | ok r => simp only [Except.map, putAll_outChar, outChar, ne_eq, not_true_eq_false, if_false]

theorem length_terminated_le (count : ℕ) (text : List UInt8) :
    (terminated count text).length ≤ count := by
  rw [terminated]
  split_ifs
  · exact Nat.zero_le _
  · rw [List.length_append, List.length_take, List.length_singleton]
    omega

theorem storeBytes_getElem {a : ℕ} {bytes : List UInt8} {i : ℕ} (hi : i < bytes.length)
    (m : Memory) : storeBytes a bytes m (a + i) = bytes[i] := by
  rw [storeBytes_apply, if_pos (by omega), Nat.add_sub_cancel_left, List.getD_eq_getElem?_getD,
    List.getElem?_eq_getElem hi, Option.getD_some]

/-- `snprintf_` returns the length of the text, however small the buffer is. The buffer has the text
as far as there is room for it before the terminator, and no byte outside of the buffer is changed;
there need not be a buffer at all. -/
theorem snprintf_stays_in_buffer (fp : FloatText) {buffer count : ℕ} {format : List UInt8}
    {args rest : List VaArg} {text : List UInt8} (m : Memory) (hcount : count < 2 ^ 32)
    (htext : formatText fp format args = .ok (text, rest)) (hlen : text.length < 2 ^ 32) :
    ∃ m', snprintf fp buffer count format args m = .ok (text.length, m') ∧
      (buffer ≠ 0 → ∀ i (h : i < text.length), i + 1 < count → m' (buffer + i) = text[i]) ∧
      (buffer ≠ 0 → 0 < count → m' (buffer + min text.length (count - 1)) = 0) ∧
      ∀ x, buffer = 0 ∨ x < buffer ∨ buffer + count ≤ x → m' x = m x := by
  have hsnprintf := snprintf_eq fp buffer count format args m hcount fun r hr => by
    rw [htext] at hr
    cases hr
    exact hlen
  rw [htext] at hsnprintf
  refine ⟨_, hsnprintf, fun hne i hi hlast => ?_, fun hne hpos => ?_, fun x hx => ?_⟩
  · have hterm : i < (terminated count text).length := by
      rw [terminated, if_neg (by omega), List.length_append, List.length_take]
      omega
    simp only [if_neg hne]
    rw [storeBytes_getElem hterm]
    simp only [terminated, if_neg (show count ≠ 0 by omega)]
    rw [List.getElem_append_left (by rw [List.length_take]; omega), List.getElem_take]
  · simp only [if_neg hne]
    have hlast : min text.length (count - 1) = (text.take (count - 1)).length := by
      rw [List.length_take, Nat.min_comm]
    have hterm : (text.take (count - 1)).length < (terminated count text).length := by
      rw [terminated, if_neg hpos.ne', List.length_append, List.length_singleton]
      omega
    rw [hlast, storeBytes_getElem hterm]
    simp only [terminated, if_neg hpos.ne', List.getElem_concat_length]
  · simp only
    split_ifs with hnull
    · rfl
    · have hle := length_terminated_le count text
      rw [storeBytes_apply, if_neg (by omega)]

/-- `snprintf_(buffer, 2, "%d", 42)`. -/
theorem snprintf_stays_in_buffer_cut :
    ∃ m', snprintf noFloats 100 2 [0x25, 0x64] [.word 42] (fun _ => 0) = .ok (2, m') ∧
      m' 100 = 0x34 ∧ m' 101 = 0 := by
  have htext : formatText noFloats [0x25, 0x64] [.word 42] = .ok ([0x34, 0x32], []) := rfl
  obtain ⟨m', hm', hbyte, hend, -⟩ := snprintf_stays_in_buffer noFloats (fun _ => 0)
    (by norm_num : 2 < 2 ^ 32) htext (by norm_num)
  exact ⟨m', hm', hbyte (by norm_num) 0 (by norm_num) (by norm_num),
    hend (by norm_num) (by norm_num)⟩

/-- `printf_` puts out what `snprintf_` stores in a buffer that has room for it, without the
characters that are zero, and returns the same length. -/
theorem printf_agrees (fp : FloatText) (putchar : UInt8 → τ → τ) {buffer count len : ℕ}
    {format : List UInt8} {args : List VaArg} {m m' : Memory} (s : τ) (hbuffer : buffer ≠ 0)
    (hcount : count < 2 ^ 32)
    (hshort : ∀ r, formatText fp format args = .ok r → r.1.length < 2 ^ 32)
    (h : snprintf fp buffer count format args m = .ok (len, m')) (hlen : len < count) :
    printf fp putchar format args s =
      .ok (len, (((List.range len).map fun i => m' (buffer + i)).filter (· ≠ 0)).foldl
        (fun s c => putchar c s) s) := by
  rw [snprintf_eq fp buffer count format args m hcount hshort] at h
  obtain ⟨r, hr, heq⟩ := map_eq_ok.mp h
  rw [printf_eq fp putchar format args s hshort, hr]
  simp only [if_neg hbuffer, Prod.mk.injEq] at heq
  obtain ⟨rfl, rfl⟩ := heq
  have hbytes : ((List.range r.1.length).map fun i =>
      storeBytes buffer (terminated count r.1) m (buffer + i)) = r.1 := by
    refine List.ext_getElem (by simp) fun i hi hi' => ?_
    have hterm : i < (terminated count r.1).length := by
      rw [terminated, if_neg (by omega), List.length_append, List.length_take]
      omega
    rw [List.getElem_map, List.getElem_range, storeBytes_getElem hterm]
    simp only [terminated, if_neg (show count ≠ 0 by omega)]
    rw [List.getElem_append_left (by rw [List.length_take]; omega), List.getElem_take]
  rw [hbytes]
  rfl

/-- `printf_("%c%c", 0, 'A')`, of which the first character is not put out. -/
theorem printf_agrees_zero :
    printf noFloats (fun c (s : List UInt8) => s ++ [c]) [0x25, 0x63, 0x25, 0x63]
      [.word 0, .word 0x41] [] = .ok (2, [0x41]) := by
  have htext : formatText noFloats [0x25, 0x63, 0x25, 0x63] [.word 0, .word 0x41] =
      .ok ([0, 0x41], []) := rfl
  have hbuffer : snprintf noFloats 100 10 [0x25, 0x63, 0x25, 0x63] [.word 0, .word 0x41]
      (fun _ => 0) = .ok (2, _) := rfl
  refine printf_agrees noFloats (fun c s => s ++ [c]) [] (by norm_num) (by norm_num)
    (fun r h => ?_) hbuffer (by norm_num)
  cases htext.symm.trans h
  norm_num

end Printf

end HalOS
