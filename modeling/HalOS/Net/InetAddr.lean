import Mathlib.Algebra.Group.Nat.Defs
import Mathlib.Data.FinEnum
import Mathlib.Data.List.Basic

/-!
# Addresses in Dotted Notation

`inet_addr` reads the four parts of an address in one pass. An empty part is the value 0, and the
value of a part is kept in an `int`, which wraps around: what is compared with 255 is its last 32
bits, with a sign.

## Main results

* `readsQuads_iff`: for which strings exactly the dotted quads are accepted.
-/

namespace HalOS

/-! ### The function -/

/-- `INADDR_NONE`. -/
abbrev inaddrNone : UInt32 := 0xFFFFFFFF

/-- The character `.`. -/
abbrev dot : UInt8 := 46

/-- The characters from `0` to `9`. -/
def IsDigit (c : UInt8) : Prop := 48 ≤ c ∧ c ≤ 57

instance : DecidablePred IsDigit := fun c => inferInstanceAs (Decidable (48 ≤ c ∧ c ≤ 57))

/-- `(result << 8) | value`. -/
def appendPart (result : UInt32) (value : Int32) : UInt32 := result <<< 8 ||| value.toUInt32

/-- The loop of `inet_addr`, and what follows it, on the characters before the NUL. -/
def inetAddrLoop : List UInt8 → UInt32 → Int32 → ℕ → UInt32
  | [], result, value, part =>
      if 255 < value ∨ part ≠ 3 then inaddrNone else appendPart result value
  | c :: rest, result, value, part =>
      if c = dot then
        if 255 < value then inaddrNone
        else if 3 < part + 1 then inaddrNone
        else inetAddrLoop rest (appendPart result value) 0 (part + 1)
      else if IsDigit c then
        inetAddrLoop rest result (value * 10 + Int32.ofNat (c.toNat - 48)) part
      else inaddrNone

def inetAddr (ipStr : List UInt8) : UInt32 := inetAddrLoop ipStr 0 0 0

/-! ### Dotted quads -/

/-- The parts of a string. -/
def partsOf (s : List UInt8) : List (List UInt8) := s.splitOn dot

/-- The value of the digits, behind others of the value `n`. -/
def valueFrom (n : ℕ) (digits : List UInt8) : ℕ :=
  digits.foldl (fun value c => value * 10 + (c.toNat - 48)) n

/-- The value of a run of digits. -/
def partValue (digits : List UInt8) : ℕ := valueFrom 0 digits

/-- Four parts, of digits only. -/
def FourRuns (s : List UInt8) : Prop :=
  (partsOf s).length = 4 ∧ ∀ part ∈ partsOf s, ∀ c ∈ part, IsDigit c

/-- Four runs of digits that are not empty, of values of at most 255. -/
def DottedQuad (s : List UInt8) : Prop :=
  FourRuns s ∧ ∀ part ∈ partsOf s, part ≠ [] ∧ partValue part ≤ 255

/-- The last 32 bits of the value, with a sign, are at most 255. -/
def PassesCheck (n : ℕ) : Prop := n % 2 ^ 32 ≤ 255 ∨ 2 ^ 31 ≤ n % 2 ^ 32

/-- The last 32 bits of the values, each of them 8 bits further left than the next. -/
def wordOf (values : List ℕ) (result : UInt32) : UInt32 :=
  values.foldl (fun result n => result <<< 8 ||| UInt32.ofNat n) result

/-- Exactly the dotted quads are accepted, and read as they should be. -/
structure ReadsQuads (s : List UInt8) : Prop where
  accepts : inetAddr s ≠ inaddrNone ↔ DottedQuad s
  value : ∀ a b c d, DottedQuad s → partsOf s = [a, b, c, d] → (inetAddr s).toNat =
    partValue a * 2 ^ 24 + partValue b * 2 ^ 16 + partValue c * 2 ^ 8 + partValue d

/-- A string of four runs of digits with one that is empty or too large, which the check lets
through: none of the values is seen to be too large, and together they are not all ones. -/
structure SlipsThrough (s : List UInt8) : Prop where
  runs : FourRuns s
  passes : ∀ part ∈ partsOf s, PassesCheck (partValue part)
  wrong : ∃ part ∈ partsOf s, part = [] ∨ 255 < partValue part
  word : wordOf ((partsOf s).map partValue) 0 ≠ 0xFFFFFFFF

instance : DecidablePred FourRuns := fun s =>
  inferInstanceAs (Decidable ((partsOf s).length = 4 ∧ ∀ part ∈ partsOf s, ∀ c ∈ part, IsDigit c))

instance : DecidablePred DottedQuad := fun s =>
  inferInstanceAs (Decidable (FourRuns s ∧ ∀ part ∈ partsOf s, part ≠ [] ∧ partValue part ≤ 255))

instance : DecidablePred PassesCheck := fun n =>
  inferInstanceAs (Decidable (n % 2 ^ 32 ≤ 255 ∨ 2 ^ 31 ≤ n % 2 ^ 32))

/-! ### The value of a part -/

theorem partsOf_cons (c : UInt8) (s : List UInt8) :
    partsOf (c :: s) = if c = dot then [] :: partsOf s else (partsOf s).modifyHead (c :: ·) := by
  rw [partsOf, partsOf, List.splitOn, List.splitOn, List.splitOnP_cons_eq_if_modifyHead]
  simp [beq_iff_eq]

theorem exists_partsOf (s : List UInt8) : ∃ first rest, partsOf s = first :: rest :=
  List.exists_cons_of_ne_nil (List.splitOnP_ne_nil _ _)

/-- The check of a value. -/
theorem not_lt_ofNat_iff (n : ℕ) : ¬ 255 < Int32.ofNat n ↔ PassesCheck n := by
  rw [Int32.lt_iff_toInt_lt, Int32.toInt_ofNat', PassesCheck]
  have hsmall : Int32.toInt 255 = 255 := rfl
  have hsize : Int32.size = 2 ^ 32 := rfl
  rw [hsmall, hsize, Int.bmod]
  omega

theorem appendPart_ofNat (result : UInt32) (n : ℕ) :
    appendPart result (Int32.ofNat n) = result <<< 8 ||| UInt32.ofNat n := by
  rw [appendPart, Int32.toUInt32_ofNat']

theorem valueFrom_cons (n : ℕ) (c : UInt8) (digits : List UInt8) :
    valueFrom n (c :: digits) = valueFrom (n * 10 + (c.toNat - 48)) digits := by
  rw [valueFrom, List.foldl_cons, valueFrom]

/-! ### The loop -/

/-- What the loop gives for these parts, when the first of them has the value `n` already and
`part` parts are behind it. -/
def loopResult (first : List UInt8) (rest : List (List UInt8)) (result : UInt32) (n part : ℕ) :
    UInt32 :=
  if part + rest.length = 3 ∧ (∀ part ∈ first :: rest, ∀ c ∈ part, IsDigit c) ∧
      PassesCheck (valueFrom n first) ∧ ∀ part ∈ rest, PassesCheck (partValue part) then
    wordOf (valueFrom n first :: rest.map partValue) result
  else inaddrNone

/-- **The loop** goes from part to part. -/
theorem inetAddrLoop_eq (s : List UInt8) (result : UInt32) (n : ℕ) {part : ℕ} (hpart : part ≤ 3)
    {first : List UInt8} {rest : List (List UInt8)} (hparts : partsOf s = first :: rest) :
    inetAddrLoop s result (Int32.ofNat n) part = loopResult first rest result n part := by
  induction s generalizing result n part first rest with
  | nil =>
      cases hparts
      have hvalue : valueFrom n [] = n := rfl
      rw [inetAddrLoop, loopResult, appendPart_ofNat]
      refine (if_congr ?_ rfl rfl).trans (ite_not _ _ _)
      rw [← not_lt_ofNat_iff]
      by_cases hlast : part = 3
      · simp [hvalue, hlast]
      · simp [hlast]
  | cons c s ih =>
      obtain ⟨first', rest', hs⟩ := exists_partsOf s
      rw [partsOf_cons] at hparts
      rw [inetAddrLoop]
      by_cases hdot : c = dot
      · rw [if_pos hdot, hs] at hparts
        cases hparts
        rw [if_pos hdot, appendPart_ofNat]
        by_cases hcheck : 255 < Int32.ofNat n
        · rw [if_pos hcheck, loopResult, if_neg fun h => (not_lt_ofNat_iff n).mpr h.2.2.1 hcheck]
        rw [if_neg hcheck]
        by_cases hlast : 3 < part + 1
        · rw [if_pos hlast, loopResult, if_neg]
          rintro ⟨hlength, -⟩
          rw [List.length_cons] at hlength
          omega
        · have hnext := ih (result <<< 8 ||| UInt32.ofNat n) 0 (Nat.not_lt.mp hlast) hs
          have hzero : Int32.ofNat 0 = 0 := rfl
          have hvalue : valueFrom n [] = n := rfl
          have hlength : part + 1 + rest'.length = part + (rest'.length + 1) := by omega
          rw [hzero] at hnext
          rw [if_neg hlast, hnext, loopResult, loopResult]
          refine if_congr ?_ rfl rfl
          simp only [List.length_cons, List.forall_mem_cons, List.not_mem_nil, false_implies,
            implies_true, true_and, hvalue, (not_lt_ofNat_iff n).mp hcheck, hlength, partValue]
      · rw [if_neg hdot, hs, List.modifyHead_cons] at hparts
        cases hparts
        rw [if_neg hdot]
        by_cases hdigit : IsDigit c
        · have hvalue : Int32.ofNat n * 10 + Int32.ofNat (c.toNat - 48) =
              Int32.ofNat (n * 10 + (c.toNat - 48)) := by
            rw [Int32.ofNat_add, Int32.ofNat_mul]
            rfl
          rw [if_pos hdigit, hvalue, ih result _ hpart hs, loopResult, loopResult, valueFrom_cons]
          refine if_congr ?_ rfl rfl
          simp only [List.forall_mem_cons, hdigit, true_and]
        · rw [if_neg hdigit, loopResult, if_neg]
          rintro ⟨-, hdigits, -⟩
          exact hdigit (hdigits _ List.mem_cons_self c List.mem_cons_self)

/-- **The function**, for every string. -/
theorem inetAddr_eq (s : List UInt8) :
    inetAddr s =
      if FourRuns s ∧ ∀ part ∈ partsOf s, PassesCheck (partValue part) then
        wordOf ((partsOf s).map partValue) 0
      else inaddrNone := by
  obtain ⟨first, rest, hs⟩ := exists_partsOf s
  have hloop : inetAddr s = loopResult first rest 0 0 0 := inetAddrLoop_eq s 0 0 (by omega) hs
  rw [hloop, loopResult]
  refine if_congr ?_ ?_ rfl
  · have hlength : 0 + rest.length = 3 ↔ rest.length + 1 = 4 := by omega
    simp only [FourRuns, hs, List.length_cons, List.forall_mem_cons, partValue, hlength, and_assoc]
  · rw [hs, List.map_cons, partValue]

/-! ### Dotted quads -/

theorem passesCheck_of_le {n : ℕ} (h : n ≤ 255) : PassesCheck n := by
  rw [PassesCheck]
  omega

/-- A value of at most 255 takes the last 8 bits. -/
theorem toNat_appendByte {result : UInt32} {n : ℕ} (hresult : result.toNat < 2 ^ 24)
    (hn : n ≤ 255) : (result <<< 8 ||| UInt32.ofNat n).toNat = result.toNat * 2 ^ 8 + n := by
  have hlt : n < 2 ^ 8 := by omega
  have hor := Nat.shiftLeft_add_eq_or_of_lt hlt result.toNat
  have hshift : result.toNat <<< 8 % 2 ^ 32 = result.toNat <<< 8 := by
    rw [Nat.shiftLeft_eq]
    exact Nat.mod_eq_of_lt (by omega)
  have hvalue : (UInt32.ofNat n).toNat = n := UInt32.toNat_ofNat_of_lt' (by
    have hsize : UInt32.size = 2 ^ 32 := rfl
    omega)
  simp only [UInt32.toNat_or, UInt32.toNat_shiftLeft, UInt32.reduceToNat, Nat.reduceMod]
  rw [hshift, hvalue, ← hor, Nat.shiftLeft_eq]

/-- The word of four values of at most 255. -/
theorem toNat_wordOf {a b c d : ℕ} (ha : a ≤ 255) (hb : b ≤ 255) (hc : c ≤ 255) (hd : d ≤ 255) :
    (wordOf [a, b, c, d] 0).toNat = a * 2 ^ 24 + b * 2 ^ 16 + c * 2 ^ 8 + d := by
  have hzero : (0 : UInt32).toNat = 0 := rfl
  have h1 := toNat_appendByte (by omega : (0 : UInt32).toNat < 2 ^ 24) ha
  have h2 := toNat_appendByte (by omega : ((0 : UInt32) <<< 8 ||| UInt32.ofNat a).toNat < 2 ^ 24) hb
  have hthree : (((0 : UInt32) <<< 8 ||| UInt32.ofNat a) <<< 8 ||| UInt32.ofNat b).toNat < 2 ^ 24 :=
    by omega
  have h3 := toNat_appendByte hthree hc
  simp only [wordOf, List.foldl_cons, List.foldl_nil]
  rw [toNat_appendByte (by omega) hd]
  omega

/-- A dotted quad is read as it should be. -/
theorem toNat_inetAddr {s : List UInt8} (h : DottedQuad s) {a b c d : List UInt8}
    (hs : partsOf s = [a, b, c, d]) : (inetAddr s).toNat =
      partValue a * 2 ^ 24 + partValue b * 2 ^ 16 + partValue c * 2 ^ 8 + partValue d := by
  obtain ⟨hruns, hparts⟩ := h
  have hpasses : ∀ part ∈ partsOf s, PassesCheck (partValue part) :=
    fun part hmem => passesCheck_of_le (hparts part hmem).2
  rw [inetAddr_eq, if_pos ⟨hruns, hpasses⟩, hs]
  rw [hs] at hparts
  simp only [List.forall_mem_cons] at hparts
  exact toNat_wordOf hparts.1.2 hparts.2.1.2 hparts.2.2.1.2 hparts.2.2.2.1.2

/-- A dotted quad is accepted, unless it spells 255.255.255.255. -/
theorem inetAddr_ne_of_dottedQuad {s : List UInt8} (h : DottedQuad s)
    (hspells : ∃ part ∈ partsOf s, partValue part ≠ 255) : inetAddr s ≠ inaddrNone := by
  obtain ⟨a, b, c, d, hs⟩ : ∃ a b c d, partsOf s = [a, b, c, d] := by
    have hfour := h.1.1
    rcases hs : partsOf s with _ | ⟨a, _ | ⟨b, _ | ⟨c, _ | ⟨d, _ | ⟨e, rest⟩⟩⟩⟩⟩
    case cons.cons.cons.cons.nil => exact ⟨a, b, c, d, rfl⟩
    all_goals simp [hs] at hfour
  have hvalue := toNat_inetAddr h hs
  have hparts := h.2
  rw [hs] at hspells hparts
  simp only [List.forall_mem_cons] at hparts
  intro hnone
  have htop : inaddrNone.toNat = 4294967295 := rfl
  rw [hnone, htop] at hvalue
  simp only [List.mem_cons, List.not_mem_nil, or_false, exists_eq_or_imp, exists_eq_left] at hspells
  omega

/-- No part of a dotted quad is empty or too large. -/
theorem not_slipsThrough_of_dottedQuad {s : List UInt8} (h : DottedQuad s) : ¬ SlipsThrough s := by
  intro hslips
  obtain ⟨part, hmem, hwrong⟩ := hslips.wrong
  obtain ⟨hempty, hle⟩ := h.2 part hmem
  exact hwrong.elim hempty fun hlarge => absurd hlarge (Nat.not_lt.mpr hle)

/-- **Dotted quads**: for every string that does not spell 255.255.255.255, exactly the dotted quads
are accepted and read as they should be, just if the string is not one of those that slip
through. -/
theorem readsQuads_iff (s : List UInt8)
    (hspells : ¬ (DottedQuad s ∧ ∀ part ∈ partsOf s, partValue part = 255)) :
    ReadsQuads s ↔ ¬ SlipsThrough s := by
  constructor
  · intro h hslips
    have haccepted : inetAddr s ≠ inaddrNone := by
      rw [inetAddr_eq, if_pos ⟨hslips.runs, hslips.passes⟩]
      exact hslips.word
    exact not_slipsThrough_of_dottedQuad (h.accepts.mp haccepted) hslips
  · intro hslips
    refine ⟨⟨fun haccepted => ?_, fun hquad => ?_⟩, fun a b c d hquad hs => toNat_inetAddr hquad hs⟩
    · rw [inetAddr_eq] at haccepted
      obtain ⟨hruns, hpasses⟩ : FourRuns s ∧ ∀ part ∈ partsOf s, PassesCheck (partValue part) := by
        by_contra hno
        exact haccepted (if_neg hno)
      rw [if_pos ⟨hruns, hpasses⟩] at haccepted
      refine ⟨hruns, fun part hmem => ?_⟩
      by_contra hwrong
      refine hslips ⟨hruns, hpasses, ⟨part, hmem, ?_⟩, haccepted⟩
      rw [not_and_or, not_not, Nat.not_le] at hwrong
      exact hwrong
    · refine inetAddr_ne_of_dottedQuad hquad ?_
      by_contra hno
      exact hspells ⟨hquad, fun part hmem => by_contra fun hne => hno ⟨part, hmem, hne⟩⟩

/-- `10.0.2.2`. -/
theorem readsQuads_gateway : ReadsQuads [49, 48, 46, 48, 46, 50, 46, 50] :=
  (readsQuads_iff [49, 48, 46, 48, 46, 50, 46, 50] (by decide +kernel)).mpr
    (not_slipsThrough_of_dottedQuad (by decide +kernel))

/-- `1..2.3` is accepted, as 1.0.2.3. -/
theorem not_readsQuads_empty : ¬ ReadsQuads [49, 46, 46, 50, 46, 51] := by
  intro h
  have haccepted : inetAddr [49, 46, 46, 50, 46, 51] ≠ inaddrNone := by decide +kernel
  have hquad := h.accepts.mp haccepted
  exact absurd hquad (by decide +kernel)

end HalOS
