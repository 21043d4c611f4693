import Mathlib.Data.Finset.Card
import Mathlib.Data.Finset.Range
import Mathlib.Tactic.IntervalCases

/-!
# Byte-Addressed Bitmaps

A bitmap is an area of bytes read one bit at a time: bit `i` lives in byte `i / 8` under
the mask `1 <<< (i % 8)`. The three operations are the C idioms `m[b] & (1 << k)`,
`m[b] |= (1 << k)` and `m[b] &= ~(1 << k)`.

## Main results

* `test_set`, `test_clear`: reading after writing, at every pair of indices.
* `eq_of_test_eq`: bytes with equal bits are equal.
* `byte_eq_full_iff`: a byte is `0xFF` exactly when its eight bits are marked.
* `card_members_set`, `card_members_clear`: how the two writes change the number of
  marked indices below a bound.
* `and_upper_mask`: a mask of the upper bits of a number rounds it down.
-/

namespace Bitmap

/-- The mask `1 << (i % 8)` of bit `i` within its byte. -/
def mask (i : ℕ) : UInt8 := 1 <<< UInt8.ofNat (i % 8)

/-- `m[i / 8] & (1 << (i % 8))`, as a truth value. -/
def test (m : ℕ → UInt8) (i : ℕ) : Bool := m (i / 8) &&& mask i != 0

/-- `m[i / 8] |= (1 << (i % 8))`. -/
def set (m : ℕ → UInt8) (i : ℕ) : ℕ → UInt8 :=
  fun b => if b = i / 8 then m b ||| mask i else m b

/-- `m[i / 8] &= ~(1 << (i % 8))`. -/
def clear (m : ℕ → UInt8) (i : ℕ) : ℕ → UInt8 :=
  fun b => if b = i / 8 then m b &&& ~~~ mask i else m b

/-! ### Numbers -/

/-- **Rounding down** to a multiple of a power of two, by a mask. -/
theorem and_upper_mask {x n k : ℕ} (hx : x < 2 ^ (n + k)) :
    x &&& (2 ^ k - 1) * 2 ^ n = x / 2 ^ n * 2 ^ n := by
  apply Nat.eq_of_testBit_eq
  intro i
  rw [Nat.testBit_and, Nat.testBit_mul_two_pow, Nat.testBit_mul_two_pow,
    Nat.testBit_two_pow_sub_one, Nat.testBit_div_two_pow]
  by_cases hi : n ≤ i
  · rw [Nat.sub_add_cancel hi]
    by_cases hlt : i - n < k
    · simp [hi, hlt]
    · have hbig : x.testBit i = false :=
        Nat.testBit_lt_two_pow (lt_of_lt_of_le hx (Nat.pow_le_pow_right (by decide) (by omega)))
      simp [hbig]
  · simp [hi]

/-! ### One byte -/

/-- The mask of bit `i` has exactly the bit `i % 8`. -/
theorem getLsbD_mask (i : ℕ) {k : ℕ} (hk : k < 8) :
    (mask i).toBitVec.getLsbD k = decide (i % 8 = k) := by
  have hi : i % 8 < 8 := Nat.mod_lt _ (by decide)
  simp only [mask]
  generalize i % 8 = r at hi
  interval_cases r <;> interval_cases k <;> decide

/-- Testing a bit reads that bit of its byte. -/
theorem test_eq_getLsbD (m : ℕ → UInt8) (i : ℕ) :
    test m i = (m (i / 8)).toBitVec.getLsbD (i % 8) := by
  have hi : i % 8 < 8 := Nat.mod_lt _ (by decide)
  have hne : (m (i / 8) &&& mask i ≠ 0) ↔ (m (i / 8)).toBitVec.getLsbD (i % 8) = true := by
    constructor
    · intro h
      by_contra hbit
      apply h
      apply UInt8.toBitVec_inj.mp
      apply BitVec.eq_of_getLsbD_eq
      intro k hk
      have hm := getLsbD_mask i hk
      by_cases hik : i % 8 = k
      · subst hik
        simp [hbit]
      · simp [hm, hik]
    · intro hbit h
      have h2 := congrArg (fun b : UInt8 => b.toBitVec.getLsbD (i % 8)) h
      simp [getLsbD_mask i hi, hbit] at h2
  rw [Bool.eq_iff_iff, ← hne, test]
  simp

/-! ### Reading after writing -/

/-- After marking bit `i`, bit `i` is marked and every other bit is as before. -/
theorem test_set (m : ℕ → UInt8) (i j : ℕ) :
    test (set m i) j = (decide (i = j) || test m j) := by
  have hj : j % 8 < 8 := Nat.mod_lt _ (by decide)
  rw [test_eq_getLsbD, test_eq_getLsbD]
  by_cases hb : j / 8 = i / 8
  · have hij : i % 8 = j % 8 ↔ i = j := by omega
    simp [set, hb, getLsbD_mask i hj, hij, Bool.or_comm]
  · have hij : i ≠ j := by rintro rfl; exact hb rfl
    simp [set, hb, hij]

/-- After clearing bit `i`, bit `i` is clear and every other bit is as before. -/
theorem test_clear (m : ℕ → UInt8) (i j : ℕ) :
    test (clear m i) j = (!decide (i = j) && test m j) := by
  have hj : j % 8 < 8 := Nat.mod_lt _ (by decide)
  rw [test_eq_getLsbD, test_eq_getLsbD]
  by_cases hb : j / 8 = i / 8
  · have hij : i % 8 = j % 8 ↔ i = j := by omega
    simp only [clear, hb, if_true, UInt8.toBitVec_and, UInt8.toBitVec_not,
      BitVec.getLsbD_and, BitVec.getLsbD_not, getLsbD_mask i hj, hij, hj]
    simp [Bool.and_comm]
  · have hij : i ≠ j := by rintro rfl; exact hb rfl
    simp [clear, hb, hij]

@[simp] theorem test_set_self (m : ℕ → UInt8) (i : ℕ) : test (set m i) i = true := by
  simp [test_set]

@[simp] theorem test_clear_self (m : ℕ → UInt8) (i : ℕ) : test (clear m i) i = false := by
  simp [test_clear]

theorem test_set_of_ne {m : ℕ → UInt8} {i j : ℕ} (h : i ≠ j) :
    test (set m i) j = test m j := by
  simp [test_set, h]

theorem test_clear_of_ne {m : ℕ → UInt8} {i j : ℕ} (h : i ≠ j) :
    test (clear m i) j = test m j := by
  simp [test_clear, h]

/-- Bytes that agree on every bit are equal. -/
theorem eq_of_test_eq {m m' : ℕ → UInt8} (h : ∀ i, test m i = test m' i) : m = m' := by
  funext b
  apply UInt8.toBitVec_inj.mp
  apply BitVec.eq_of_getLsbD_eq
  intro k hk
  have hbit := h (8 * b + k)
  rw [test_eq_getLsbD, test_eq_getLsbD] at hbit
  have hdiv : (8 * b + k) / 8 = b := by omega
  have hmod : (8 * b + k) % 8 = k := by omega
  rwa [hdiv, hmod] at hbit

/-- Clearing a bit that was marked from clear restores the bytes. -/
theorem clear_set {m : ℕ → UInt8} {i : ℕ} (h : test m i = false) : clear (set m i) i = m := by
  refine eq_of_test_eq fun j => ?_
  rw [test_clear, test_set]
  by_cases hij : i = j
  · subst hij; simp [h]
  · simp [hij]

/-- A byte reads `0xFF` exactly when all of its eight bits are marked. -/
theorem byte_eq_full_iff (m : ℕ → UInt8) (b : ℕ) :
    m b = 0xFF ↔ ∀ k < 8, test m (8 * b + k) = true := by
  have hread : ∀ k < 8, test m (8 * b + k) = (m b).toBitVec.getLsbD k := by
    intro k hk
    rw [test_eq_getLsbD]
    have hdiv : (8 * b + k) / 8 = b := by omega
    have hmod : (8 * b + k) % 8 = k := by omega
    rw [hdiv, hmod]
  constructor
  · intro h k hk
    rw [hread k hk, h]
    interval_cases k <;> decide
  · intro h
    apply UInt8.toBitVec_inj.mp
    apply BitVec.eq_of_getLsbD_eq
    intro k hk
    rw [← hread k hk, h k hk]
    interval_cases k <;> decide

/-- An area of zero bytes has no bit marked. -/
theorem test_of_byte_eq_zero {m : ℕ → UInt8} {i : ℕ} (h : m (i / 8) = 0) :
    test m i = false := by
  simp [test, h]

/-! ### Runs of bits -/

/-- Mark the `n` bits from `i` on. -/
def setRun (m : ℕ → UInt8) : ℕ → ℕ → ℕ → UInt8
  | _, 0 => m
  | i, n + 1 => setRun (set m i) (i + 1) n

/-- Clear the `n` bits from `i` on. -/
def clearRun (m : ℕ → UInt8) : ℕ → ℕ → ℕ → UInt8
  | _, 0 => m
  | i, n + 1 => clearRun (clear m i) (i + 1) n

theorem test_setRun (m : ℕ → UInt8) (i n j : ℕ) :
    test (setRun m i n) j = (decide (i ≤ j ∧ j < i + n) || test m j) := by
  induction n generalizing m i with
  | zero =>
      have hj : ¬ (i ≤ j ∧ j < i + 0) := by omega
      rw [setRun, decide_eq_false hj, Bool.false_or]
  | succ n ih =>
      rw [setRun, ih, test_set, ← Bool.or_assoc, ← Bool.decide_or]
      congr 1
      simp only [decide_eq_decide]
      omega

theorem test_clearRun (m : ℕ → UInt8) (i n j : ℕ) :
    test (clearRun m i n) j = (!decide (i ≤ j ∧ j < i + n) && test m j) := by
  induction n generalizing m i with
  | zero =>
      have hj : ¬ (i ≤ j ∧ j < i + 0) := by omega
      rw [clearRun, decide_eq_false hj, Bool.not_false, Bool.true_and]
  | succ n ih =>
      rw [clearRun, ih, test_clear, ← Bool.and_assoc, ← Bool.not_or, ← Bool.decide_or]
      congr 2
      simp only [decide_eq_decide]
      omega

/-- Clearing a run that was marked from clear restores the bytes. -/
theorem clearRun_setRun {m : ℕ → UInt8} {i n : ℕ} (h : ∀ k < n, test m (i + k) = false) :
    clearRun (setRun m i n) i n = m := by
  refine eq_of_test_eq fun j => ?_
  rw [test_clearRun, test_setRun]
  by_cases hj : i ≤ j ∧ j < i + n
  · obtain ⟨k, rfl⟩ := Nat.exists_eq_add_of_le hj.1
    simp [hj, h k (by omega)]
  · simp [hj]

/-! ### The set of marked indices below a bound -/

/-- The marked indices below `n`. -/
def members (m : ℕ → UInt8) (n : ℕ) : Finset ℕ := (Finset.range n).filter fun i => test m i

@[simp] theorem mem_members {m : ℕ → UInt8} {n i : ℕ} :
    i ∈ members m n ↔ i < n ∧ test m i = true := by
  simp [members]

theorem members_set {m : ℕ → UInt8} {n i : ℕ} (hi : i < n) :
    members (set m i) n = insert i (members m n) := by
  ext j
  simp only [mem_members, test_set, Finset.mem_insert, Bool.or_eq_true, decide_eq_true_eq]
  constructor
  · rintro ⟨hj, rfl | hm⟩
    · exact Or.inl rfl
    · exact Or.inr ⟨hj, hm⟩
  · rintro (rfl | ⟨hj, hm⟩)
    · exact ⟨hi, Or.inl rfl⟩
    · exact ⟨hj, Or.inr hm⟩

theorem members_clear (m : ℕ → UInt8) (n i : ℕ) :
    members (clear m i) n = (members m n).erase i := by
  ext j
  simp only [mem_members, test_clear, Finset.mem_erase, Bool.and_eq_true, Bool.not_eq_true',
    decide_eq_false_iff_not]
  constructor
  · rintro ⟨hj, hne, hm⟩
    exact ⟨fun h => hne h.symm, hj, hm⟩
  · rintro ⟨hne, hj, hm⟩
    exact ⟨hj, fun h => hne h.symm, hm⟩

theorem card_members_le (m : ℕ → UInt8) (n : ℕ) : (members m n).card ≤ n := by
  calc (members m n).card ≤ (Finset.range n).card := Finset.card_filter_le _ _
    _ = n := Finset.card_range n

/-- Marking a clear bit adds one to the number of marked indices. -/
theorem card_members_set {m : ℕ → UInt8} {n i : ℕ} (hi : i < n) (h : test m i = false) :
    (members (set m i) n).card = (members m n).card + 1 := by
  rw [members_set hi]
  exact Finset.card_insert_of_notMem (by simp [h])

/-- Clearing a marked bit takes one from the number of marked indices. -/
theorem card_members_clear {m : ℕ → UInt8} {n i : ℕ} (hi : i < n) (h : test m i = true) :
    (members (clear m i) n).card + 1 = (members m n).card := by
  rw [members_clear]
  exact Finset.card_erase_add_one (by simp [hi, h])

theorem card_members_setRun {m : ℕ → UInt8} {b i n : ℕ} (hi : i + n ≤ b)
    (h : ∀ k < n, test m (i + k) = false) :
    (members (setRun m i n) b).card = (members m b).card + n := by
  induction n generalizing m i with
  | zero => rfl
  | succ n ih =>
      have hrest : ∀ k < n, test (set m i) (i + 1 + k) = false := by
        intro k hk
        rw [test_set_of_ne (by omega)]
        have := h (k + 1) (by omega)
        rwa [← Nat.add_assoc, Nat.add_right_comm] at this
      have hstep := card_members_set (n := b) (by omega : i < b) (h 0 (by omega))
      have := ih (by omega) hrest
      rw [setRun]
      omega

theorem card_members_clearRun {m : ℕ → UInt8} {b i n : ℕ} (hi : i + n ≤ b)
    (h : ∀ k < n, test m (i + k) = true) :
    (members (clearRun m i n) b).card + n = (members m b).card := by
  induction n generalizing m i with
  | zero => rfl
  | succ n ih =>
      have hrest : ∀ k < n, test (clear m i) (i + 1 + k) = true := by
        intro k hk
        rw [test_clear_of_ne (by omega)]
        have := h (k + 1) (by omega)
        rwa [← Nat.add_assoc, Nat.add_right_comm] at this
      have hstep := card_members_clear (n := b) (by omega : i < b) (h 0 (by omega))
      have := ih (by omega) hrest
      rw [clearRun]
      omega

end Bitmap
