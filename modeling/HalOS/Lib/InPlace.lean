import Mathlib.Logic.Function.Basic
import Mathlib.Data.List.Basic

/-!
# Arrays Changed in Place

An array is a function from places to values. Values are moved one after the other, each from one
place to another, as a loop does that copies within an array: the order matters when a place is
both read and written. Or they change places from both ends of an interval, as a loop does that
turns it round.

## Main results

* `moveAll_apply`: if no place is read once it has been written, every value moved is the one from
  before the first move.
* `mirror_eq_swap`: an interval is turned round from its ends inwards.
-/

namespace InPlace

universe u v

/-! ### Moves -/

section Moves

variable {κ : Type u} {α : Type v} [DecidableEq κ]

/-- A place, behind the one that its value is moved to. -/
abbrev Move (κ : Type u) := κ × κ

/-- The moves, one after the other. -/
def moveAll (moves : List (Move κ)) (f : κ → α) : κ → α :=
  moves.foldl (fun f move => Function.update f move.1 (f move.2)) f

@[simp] theorem moveAll_nil (f : κ → α) : moveAll [] f = f := rfl

@[simp] theorem moveAll_cons (move : Move κ) (moves : List (Move κ)) (f : κ → α) :
    moveAll (move :: moves) f = moveAll moves (Function.update f move.1 (f move.2)) := rfl

/-- A place that nothing is moved to keeps its value. -/
theorem moveAll_of_forall_ne {moves : List (Move κ)} {p : κ} (h : ∀ move ∈ moves, move.1 ≠ p)
    (f : κ → α) : moveAll moves f p = f p := by
  induction moves generalizing f with
  | nil => rfl
  | cons move moves ih =>
      have hp : p ≠ move.1 := (h move List.mem_cons_self).symm
      rw [moveAll_cons, ih fun later hlater => h later (List.mem_cons_of_mem move hlater),
        Function.update_of_ne hp]

/-- What is written is neither read nor written later. -/
def Ordered (moves : List (Move κ)) : Prop :=
  moves.Pairwise fun earlier later => earlier.1 ≠ later.2 ∧ earlier.1 ≠ later.1

/-- **Every value moved** is the one from before the first move. -/
theorem moveAll_apply {moves : List (Move κ)} (h : Ordered moves) {move : Move κ}
    (hmove : move ∈ moves) (f : κ → α) : moveAll moves f move.1 = f move.2 := by
  induction moves generalizing f with
  | nil => cases hmove
  | cons first moves ih =>
      obtain ⟨hfirst, hmoves⟩ := List.pairwise_cons.mp h
      rw [moveAll_cons]
      rcases List.mem_cons.mp hmove with rfl | hlater
      · rw [moveAll_of_forall_ne fun later hlater => (hfirst later hlater).2.symm,
          Function.update_self]
      · rw [ih hmoves hlater, Function.update_of_ne (hfirst move hlater).1.symm]

/-- The moves of `n` places from `src` on to those from `dest` on, the first place first. -/
def block (dest src n : ℕ) : List (Move ℕ) := (List.range n).map fun i => (dest + i, src + i)

theorem mem_block {dest src n : ℕ} {move : Move ℕ} :
    move ∈ block dest src n ↔ ∃ i < n, (dest + i, src + i) = move := by
  simp [block]

/-- From the beginning on, the moves are ordered if they go down. -/
theorem ordered_block {dest src : ℕ} (h : dest ≤ src) (n : ℕ) : Ordered (block dest src n) := by
  rw [Ordered, block, List.pairwise_map]
  refine List.pairwise_lt_range.imp ?_
  intro i j hij
  dsimp only
  omega

/-- From the end back, they are ordered if they go up. -/
theorem ordered_reverse_block {dest src : ℕ} (h : src ≤ dest) (n : ℕ) :
    Ordered (block dest src n).reverse := by
  rw [Ordered, List.pairwise_reverse, block, List.pairwise_map]
  refine List.pairwise_lt_range.imp ?_
  intro i j hij
  dsimp only
  omega

/-- What a block leaves at a place, in an order in which nothing is read once it has been
written. -/
theorem moveAll_block {dest src n : ℕ} {moves : List (Move ℕ)} (h : Ordered moves)
    (hmem : ∀ move, move ∈ moves ↔ move ∈ block dest src n) (f : ℕ → α) (p : ℕ) :
    moveAll moves f p = if dest ≤ p ∧ p < dest + n then f (src + (p - dest)) else f p := by
  split_ifs with hp
  · have hmove : (p, src + (p - dest)) ∈ moves :=
      (hmem _).mpr (mem_block.mpr ⟨p - dest, by omega, by rw [Nat.add_sub_cancel' hp.1]⟩)
    exact moveAll_apply h hmove f
  · refine moveAll_of_forall_ne (fun move hmove => ?_) f
    obtain ⟨i, hi, rfl⟩ := mem_block.mp ((hmem move).mp hmove)
    dsimp only
    omega

end Moves

/-! ### Reversal -/

section Reversal

variable {α : Type u} {lo hi : ℕ}

/-- Two places change their values. -/
def swap (f : ℕ → α) (i j : ℕ) : ℕ → α := Function.update (Function.update f i (f j)) j (f i)

/-- The places from `lo` up to `hi`, turned round. -/
def mirror (lo hi : ℕ) (f : ℕ → α) : ℕ → α := fun p =>
  if lo ≤ p ∧ p < hi then f (lo + (hi - 1 - p)) else f p

/-- There is nothing to do for a single place. -/
theorem mirror_of_le (h : hi ≤ lo + 1) (f : ℕ → α) : mirror lo hi f = f := by
  funext p
  rw [mirror]
  split_ifs
  · exact congrArg f (by omega)
  · rfl

/-- An interval is turned round from its ends inwards. -/
theorem mirror_eq_swap (h : lo + 1 < hi) (f : ℕ → α) :
    mirror lo hi f = mirror (lo + 1) (hi - 1) (swap f lo (hi - 1)) := by
  funext p
  rw [mirror, mirror, swap]
  by_cases hinner : lo + 1 ≤ p ∧ p < hi - 1
  · rw [if_pos (by omega), if_pos hinner, Function.update_of_ne (by omega),
      Function.update_of_ne (by omega)]
    exact congrArg f (by omega)
  rw [if_neg hinner]
  obtain rfl | hlow := eq_or_ne p lo
  · rw [if_pos (by omega), Function.update_of_ne (by omega), Function.update_self]
    exact congrArg f (by omega)
  obtain rfl | hhigh := eq_or_ne p (hi - 1)
  · rw [if_pos (by omega), Function.update_self]
    exact congrArg f (by omega)
  · rw [if_neg (by omega), Function.update_of_ne hhigh, Function.update_of_ne hlow]

end Reversal

end InPlace
