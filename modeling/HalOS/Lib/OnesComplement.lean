import Mathlib.Data.Nat.ModEq

/-!
# One's Complement Sums

The sum of the 16-bit words of a list of bytes, with the carries added back in. Arithmetic is modulo
65535 then, and 0 and 65535 are the two zeros.

## Main results

* `fold_complement`: the complement of a sum fills it up to 65535.
* `wordSum_set`: what a word at an even place contributes.
* `swapBytes_fold`: the order of the two bytes of a word does not matter.
-/

namespace OnesComplement

/-- The sum of the words, the low byte of a word first. A last byte without a partner is a word. -/
def wordSum : List UInt8 → ℕ
  | low :: high :: rest => low.toNat + 256 * high.toNat + wordSum rest
  | [last] => last.toNat
  | [] => 0

/-- The carries are added back in twice. -/
def fold (sum : ℕ) : ℕ :=
  (sum / 65536 + sum % 65536 + (sum / 65536 + sum % 65536) / 65536) % 65536

theorem fold_le (sum : ℕ) : fold sum ≤ 65535 :=
  Nat.le_of_lt_succ (Nat.mod_lt _ (by decide))

/-- Two rounds are enough for a sum of 32 bits. -/
theorem fold_cases {sum : ℕ} (h : sum < 2 ^ 32) :
    (sum / 65536 + sum % 65536 ≤ 65535 ∧ fold sum = sum / 65536 + sum % 65536) ∨
    (65536 ≤ sum / 65536 + sum % 65536 ∧ fold sum + 65535 = sum / 65536 + sum % 65536) := by
  have hround : sum / 65536 + sum % 65536 ≤ 131070 := by omega
  rw [fold]
  generalize sum / 65536 + sum % 65536 = round at hround ⊢
  by_cases hcarry : 65536 ≤ round
  · have hone : round / 65536 = 1 := by omega
    omega
  · have hnone : round / 65536 = 0 := by omega
    omega

theorem fold_modEq {sum : ℕ} (h : sum < 2 ^ 32) : fold sum ≡ sum [MOD 65535] := by
  rw [Nat.ModEq]
  rcases fold_cases h with ⟨-, heq⟩ | ⟨-, heq⟩ <;> omega

theorem fold_pos {sum : ℕ} (hpos : 0 < sum) (h : sum < 2 ^ 32) : 0 < fold sum := by
  rcases fold_cases h with ⟨-, heq⟩ | ⟨hcarry, heq⟩ <;> omega

/-- **The complement** of a sum fills it up. -/
theorem fold_complement {sum : ℕ} (h : sum + 65535 < 2 ^ 32) :
    fold (sum + (65535 - fold sum)) = 65535 := by
  have hle := fold_le sum
  have hsum : fold sum ≡ sum [MOD 65535] := fold_modEq (by omega)
  have hpos : 0 < sum + (65535 - fold sum) := by
    rcases Nat.eq_zero_or_pos sum with hzero | hpos
    · rw [hzero]
      decide
    · exact Nat.add_pos_left hpos _
  have hzero : fold (sum + (65535 - fold sum)) ≡ 0 [MOD 65535] := calc
    fold (sum + (65535 - fold sum)) ≡ sum + (65535 - fold sum) [MOD 65535] :=
      fold_modEq (by omega)
    _ ≡ fold sum + (65535 - fold sum) [MOD 65535] := hsum.symm.add_right _
    _ = 65535 := Nat.add_sub_cancel' hle
    _ ≡ 0 [MOD 65535] := Nat.mod_self _
  have hfold := fold_pos hpos (by omega)
  have htop := fold_le (sum + (65535 - fold sum))
  have hdvd : 65535 ∣ fold (sum + (65535 - fold sum)) := Nat.modEq_zero_iff_dvd.mp hzero
  exact Nat.le_antisymm htop (Nat.le_of_dvd hfold hdvd)

theorem wordSum_le (bytes : List UInt8) : 2 * wordSum bytes ≤ 65535 * (bytes.length + 1) := by
  induction bytes using wordSum.induct with
  | case1 low high rest ih =>
      have hlow := low.toNat_lt
      have hhigh := high.toNat_lt
      simp only [wordSum, List.length_cons]
      omega
  | case2 last =>
      have hlast := last.toNat_lt
      simp only [wordSum, List.length_cons, List.length_nil]
      omega
  | case3 => exact Nat.zero_le _

/-- **A word is replaced.** -/
theorem wordSum_set {bytes : List UInt8} {k : ℕ} (hk : 2 * k + 1 < bytes.length)
    (low high : UInt8) :
    wordSum ((bytes.set (2 * k) low).set (2 * k + 1) high) +
        ((bytes.getD (2 * k) 0).toNat + 256 * (bytes.getD (2 * k + 1) 0).toNat) =
      wordSum bytes + (low.toNat + 256 * high.toNat) := by
  induction bytes using wordSum.induct generalizing k with
  | case1 oldLow oldHigh rest ih =>
      cases k with
      | zero =>
          simp only [Nat.mul_zero, Nat.zero_add, List.set_cons_zero, List.set_cons_succ, wordSum,
            List.getD_cons_zero, List.getD_cons_succ]
          omega
      | succ k =>
          have hrest := @ih k (by simp only [List.length_cons] at hk; omega)
          simp only [Nat.mul_succ, List.set_cons_succ, wordSum, List.getD_cons_succ] at hrest ⊢
          omega
  | case2 last =>
      simp only [List.length_cons, List.length_nil] at hk
      omega
  | case3 => cases hk

/-! ### Addition with an end-around carry -/

/-- The sum of two words, with the carry added back in. -/
def add (a b : ℕ) : ℕ := if 65535 < a + b then a + b - 65535 else a + b

/-- The residue of a sum: 0 for 0, and 65535 for the other multiples of 65535. -/
def residue (sum : ℕ) : ℕ := if sum = 0 then 0 else (sum - 1) % 65535 + 1

theorem residue_le (sum : ℕ) : residue sum ≤ 65535 := by
  rw [residue]
  split_ifs <;> omega

theorem residue_modEq (sum : ℕ) : residue sum ≡ sum [MOD 65535] := by
  rw [residue, Nat.ModEq]
  split_ifs <;> omega

theorem residue_eq_zero_iff {sum : ℕ} : residue sum = 0 ↔ sum = 0 := by
  rw [residue]
  by_cases hsum : sum = 0
  · simp [hsum]
  · simp [hsum]

/-- A word is the residue of a sum if it is congruent, and 0 only for 0. -/
theorem eq_residue {word sum : ℕ} (hle : word ≤ 65535) (hmod : word ≡ sum [MOD 65535])
    (hzero : word = 0 ↔ sum = 0) : word = residue sum := by
  rw [Nat.ModEq] at hmod
  rw [residue]
  split_ifs <;> omega

/-- Adding the carries back in twice gives the residue. -/
theorem fold_eq_residue {sum : ℕ} (h : sum < 2 ^ 32) : fold sum = residue sum := by
  refine eq_residue (fold_le sum) (fold_modEq h) ⟨fun hzero => ?_, ?_⟩
  · by_contra hne
    exact absurd hzero (Nat.ne_of_gt (fold_pos (Nat.pos_of_ne_zero hne) h))
  · rintro rfl
    rfl

theorem add_residue (sum : ℕ) {word : ℕ} (h : word ≤ 65535) :
    add (residue sum) word = residue (sum + word) := by
  have hle := residue_le sum
  have hmod := residue_modEq sum
  have hzero : residue sum = 0 ↔ sum = 0 := residue_eq_zero_iff
  generalize residue sum = r at hle hmod hzero
  rw [Nat.ModEq] at hmod
  refine eq_residue ?_ ?_ ?_
  · rw [add]
    split_ifs <;> omega
  · rw [add, Nat.ModEq]
    split_ifs <;> omega
  · rw [add]
    split_ifs <;> omega

/-- **A sum of words**, with each carry added back in as it comes up. -/
theorem foldl_add {words : List ℕ} (h : ∀ word ∈ words, word ≤ 65535) (sum : ℕ) :
    words.foldl add (residue sum) = residue (sum + words.sum) := by
  induction words generalizing sum with
  | nil => rfl
  | cons word words ih =>
      obtain ⟨hword, hwords⟩ := List.forall_mem_cons.mp h
      rw [List.foldl_cons, add_residue sum hword, ih hwords, List.sum_cons, Nat.add_assoc]

/-! ### Byte order -/

/-- A word with its bytes exchanged. -/
def swapBytes (word : ℕ) : ℕ := word % 256 * 256 + word / 256

theorem swapBytes_residue (sum : ℕ) : swapBytes (residue sum) = residue (256 * sum) := by
  have hle := residue_le sum
  have hmod := residue_modEq sum
  have hzero : residue sum = 0 ↔ sum = 0 := residue_eq_zero_iff
  generalize residue sum = r at hle hmod hzero
  rw [Nat.ModEq] at hmod
  refine eq_residue ?_ ?_ ?_
  · rw [swapBytes]
    omega
  · rw [swapBytes, Nat.ModEq]
    omega
  · rw [swapBytes]
    omega

/-- The words with the high byte first. A last byte without a partner is followed by a zero. -/
def bigWords : List UInt8 → List ℕ
  | high :: low :: rest => (high.toNat * 256 + low.toNat) :: bigWords rest
  | [last] => [last.toNat * 256]
  | [] => []

theorem bigWords_le {bytes : List UInt8} : ∀ word ∈ bigWords bytes, word ≤ 65535 := by
  induction bytes using bigWords.induct with
  | case1 high low rest ih =>
      have hhigh := high.toNat_lt
      have hlow := low.toNat_lt
      exact List.forall_mem_cons.mpr ⟨by omega, ih⟩
  | case2 last =>
      have hlast := last.toNat_lt
      exact List.forall_mem_singleton.mpr (by omega)
  | case3 => exact nofun

/-- The other byte order multiplies the sum by 256. -/
theorem sum_bigWords (bytes : List UInt8) :
    (bigWords bytes).sum ≡ 256 * wordSum bytes [MOD 65535] ∧
      ((bigWords bytes).sum = 0 ↔ wordSum bytes = 0) := by
  induction bytes using bigWords.induct with
  | case1 high low rest ih =>
      obtain ⟨hmod, hzero⟩ := ih
      rw [Nat.ModEq] at hmod ⊢
      simp only [bigWords, wordSum, List.sum_cons]
      omega
  | case2 last =>
      rw [Nat.ModEq]
      simp only [bigWords, wordSum, List.sum_cons, List.sum_nil]
      omega
  | case3 => exact ⟨rfl, Iff.rfl⟩

/-- **Byte order does not matter**: with its bytes exchanged, the folded sum of the words in one
order is the sum of those in the other. -/
theorem swapBytes_fold {bytes : List UInt8} (h : wordSum bytes < 2 ^ 32) :
    swapBytes (fold (wordSum bytes)) = (bigWords bytes).foldl add 0 := by
  obtain ⟨hmod, hzero⟩ := sum_bigWords bytes
  have hle : ∀ word ∈ bigWords bytes, word ≤ 65535 := bigWords_le
  have hbig : (bigWords bytes).foldl add 0 = residue (bigWords bytes).sum := by
    rw [← Nat.zero_add (bigWords bytes).sum]
    exact foldl_add hle 0
  have hswap : residue (256 * wordSum bytes) = residue (bigWords bytes).sum := by
    refine eq_residue (residue_le _) ((residue_modEq _).trans hmod.symm)
      (residue_eq_zero_iff.trans (Iff.trans ?_ hzero.symm))
    omega
  rw [fold_eq_residue h, swapBytes_residue, hbig, hswap]

/-- The complement comes after the exchange, or before it. -/
theorem swapBytes_complement {word : ℕ} (h : word ≤ 65535) :
    swapBytes (65535 - word) = 65535 - swapBytes word := by
  rw [swapBytes, swapBytes]
  omega

/-- The checksum of these bytes: the complement of the sum of the words, with the high byte of
each word first. -/
def checksum (bytes : List UInt8) : ℕ := 65535 - (bigWords bytes).foldl add 0

end OnesComplement
