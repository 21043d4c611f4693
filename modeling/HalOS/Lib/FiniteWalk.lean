import Mathlib.Data.Finset.Card
import Mathlib.Logic.Function.Iterate

/-!
# Walks among Finitely Many Places

A walk that can only come to finitely many places comes back to one of them, and from then on it
meets nothing new. What it has not met when it has closed, it never meets.

## Main results

* `never_iff`: a walk never meets a property if it closes before it has met it.
-/

namespace FiniteWalk

universe u

variable {α : Type u} {f : α → α} {s : Finset α} {p : α → Prop} {x : α} {m n : ℕ}

/-- The walk from `x` comes back: the place after `n` steps is the one after `m`. -/
theorem exists_repeat (hs : ∀ y, f y ∈ s) (x : α) :
    ∃ m n, m < n ∧ n ≤ s.card + 1 ∧ f^[m] x = f^[n] x := by
  have hcard : s.card < (Finset.range (s.card + 1)).card := by
    rw [Finset.card_range]
    exact Nat.lt_succ_self _
  have hmaps : ∀ i ∈ Finset.range (s.card + 1), f^[i + 1] x ∈ s := fun i _ => by
    rw [Function.iterate_succ_apply']
    exact hs _
  obtain ⟨i, hi, j, hj, hne, heq⟩ := Finset.exists_ne_map_eq_of_card_lt_of_maps_to hcard hmaps
  rw [Finset.mem_range] at hi hj
  rcases Nat.lt_or_gt_of_ne hne with hlt | hgt
  · exact ⟨i + 1, j + 1, by omega, by omega, heq⟩
  · exact ⟨j + 1, i + 1, by omega, by omega, heq.symm⟩

/-- A walk that has closed meets nothing new. -/
theorem exists_lt_of_repeat (hlt : m < n) (hrepeat : f^[m] x = f^[n] x) (k : ℕ) :
    ∃ j < n, f^[k] x = f^[j] x := by
  induction k using Nat.strong_induction_on with
  | _ k ih =>
      by_cases hk : k < n
      · exact ⟨k, hk, rfl⟩
      obtain ⟨d, rfl⟩ := Nat.exists_eq_add_of_le (Nat.not_lt.mp hk)
      obtain ⟨j, hj, heq⟩ := ih (m + d) (by omega)
      refine ⟨j, hj, Eq.trans ?_ heq⟩
      rw [Nat.add_comm n d, Nat.add_comm m d, Function.iterate_add_apply,
        Function.iterate_add_apply, hrepeat]

/-- **Never**: the walk closes before it has met the property. -/
theorem never_iff (hs : ∀ y, f y ∈ s) :
    (∀ k, ¬ p (f^[k] x)) ↔
      ∃ m n, m < n ∧ n ≤ s.card + 1 ∧ f^[m] x = f^[n] x ∧ ∀ k < n, ¬ p (f^[k] x) := by
  constructor
  · intro hnever
    obtain ⟨m, n, hlt, hle, hrepeat⟩ := exists_repeat hs x
    exact ⟨m, n, hlt, hle, hrepeat, fun k _ => hnever k⟩
  · rintro ⟨m, n, hlt, -, hrepeat, hnone⟩ k
    obtain ⟨j, hj, heq⟩ := exists_lt_of_repeat hlt hrepeat k
    rw [heq]
    exact hnone j hj

end FiniteWalk
