import Mathlib.Data.List.Basic
import Mathlib.Logic.Function.Basic
import Mathlib.Tactic.Common

/-!
# Stores of Blocks

A store that has a block at some places and none at the others. A transfer goes along consecutive
places, and ends at the first one without a block.

## Main results

* `readFrom_writeFrom`: what is written is read back.
* `writeFrom_of_outside`, `readFrom_congr`: a write does not matter elsewhere.
-/

namespace BlockStore

universe u

variable {β : Type u}

/-- The blocks of `n` places, up to the first place without one. -/
def readFrom (p : ℕ → Option β) : ℕ → ℕ → List β
  | _, 0 => []
  | first, n + 1 => (p first).elim [] fun b => b :: readFrom p (first + 1) n

/-- The blocks are written one after the other, up to the first place without one. -/
def writeFrom (p : ℕ → Option β) : ℕ → List β → ℕ → Option β
  | _, [] => p
  | first, b :: bs =>
      if (p first).isSome then writeFrom (Function.update p first (some b)) (first + 1) bs else p

/-- There is a block at each of the `n` places. -/
def Present (p : ℕ → Option β) (first n : ℕ) : Prop :=
  ∀ i, first ≤ i → i < first + n → (p i).isSome

variable {p q : ℕ → Option β} {first n i : ℕ} {b : β} {bs : List β}

theorem present_succ : Present p first (n + 1) ↔ (p first).isSome ∧ Present p (first + 1) n := by
  constructor
  · exact fun h => ⟨h first (Nat.le_refl _) (by omega), fun i hle hlt => h i (by omega) (by omega)⟩
  · rintro ⟨hfirst, hrest⟩ i hle hlt
    rcases Nat.eq_or_lt_of_le hle with rfl | hgt
    · exact hfirst
    · exact hrest i hgt (by omega)

theorem Present.congr (h : Present p first n) (heq : ∀ i, (q i).isSome = (p i).isSome) :
    Present q first n := fun i hle hlt => (heq i).trans (h i hle hlt)

/-! ### Reads -/

theorem readFrom_some (h : p first = some b) :
    readFrom p first (n + 1) = b :: readFrom p (first + 1) n := by
  rw [readFrom, h, Option.elim_some]

theorem readFrom_none (h : p first = none) : readFrom p first n = [] := by
  cases n with
  | zero => rfl
  | succ n => rw [readFrom, h, Option.elim_none]

theorem readFrom_congr (h : ∀ i, first ≤ i → i < first + n → p i = q i) :
    readFrom p first n = readFrom q first n := by
  induction n generalizing first with
  | zero => rfl
  | succ n ih =>
      rw [readFrom, readFrom, h first (Nat.le_refl _) (by omega),
        ih fun i hle hlt => h i (by omega) (by omega)]

/-! ### Writes -/

theorem isSome_update (h : (p first).isSome) (i : ℕ) :
    (Function.update p first (some b) i).isSome = (p i).isSome := by
  rcases eq_or_ne i first with rfl | hne
  · rw [Function.update_self, h]
    rfl
  · rw [Function.update_of_ne hne]

theorem writeFrom_of_outside (h : i < first ∨ first + bs.length ≤ i) :
    writeFrom p first bs i = p i := by
  induction bs generalizing p first with
  | nil => rfl
  | cons b bs ih =>
      rw [List.length_cons] at h
      rw [writeFrom]
      split_ifs
      · rw [ih (by omega), Function.update_of_ne (by omega)]
      · rfl

/-- **Read after write.** -/
theorem readFrom_writeFrom (bs : List β) (h : Present p first bs.length) :
    readFrom (writeFrom p first bs) first bs.length = bs := by
  induction bs generalizing p first with
  | nil => rfl
  | cons b bs ih =>
      obtain ⟨hfirst, hrest⟩ := present_succ.mp h
      rw [writeFrom, if_pos hfirst]
      have hb : writeFrom (Function.update p first (some b)) (first + 1) bs first = some b := by
        rw [writeFrom_of_outside (.inl (Nat.lt_succ_self _)), Function.update_self]
      exact (readFrom_some hb).trans
        (congrArg (b :: ·) (ih (hrest.congr (isSome_update hfirst))))

end BlockStore
