import Mathlib.Data.List.Basic
import Mathlib.Data.List.Induction
import Mathlib.Tactic.Common

/-!
# What has Happened Since

`Since A B l` is the temporal operator of the past on a finite history: something of the kind `A`
has happened, and nothing of the kind `B` since then. What is of the kind `A` may depend on the
history in front of it, so that the operator can be nested.

## Main results

* `since_concat`: one event more.
* `foldl_iff_since`: a flag that some events set and others clear.
-/

namespace History

universe u v

variable {α : Type u}

/-- An event of the kind `A` has happened, and none of the kind `B` since then. -/
def Since (A : List α → α → Prop) (B : α → Prop) (l : List α) : Prop :=
  ∃ before a behind, l = before ++ a :: behind ∧ A before a ∧ ∀ x ∈ behind, ¬ B x

variable {A : List α → α → Prop} {B : α → Prop}

theorem not_since_nil : ¬ Since A B [] := by
  rintro ⟨before, a, behind, hnil, -⟩
  exact List.append_ne_nil_of_right_ne_nil before (List.cons_ne_nil a behind) hnil.symm

/-- One event more. -/
theorem since_concat {l : List α} {x : α} :
    Since A B (l ++ [x]) ↔ A l x ∨ (Since A B l ∧ ¬ B x) := by
  constructor
  · rintro ⟨before, a, behind, hsplit, ha, hbehind⟩
    rcases List.eq_nil_or_concat' behind with rfl | ⟨front, y, rfl⟩
    · obtain ⟨rfl, hx⟩ := List.append_inj' hsplit rfl
      obtain rfl := List.singleton_injective hx
      exact .inl ha
    · rw [← List.cons_append, ← List.append_assoc] at hsplit
      obtain ⟨rfl, hx⟩ := List.append_inj' hsplit rfl
      obtain rfl := List.singleton_injective hx
      refine .inr ⟨⟨before, a, front, rfl, ha, fun z hz => hbehind z ?_⟩, hbehind x ?_⟩
      · exact List.mem_append_left _ hz
      · exact List.mem_append_right _ (List.mem_singleton_self x)
  · rintro (ha | ⟨⟨before, a, behind, rfl, ha, hbehind⟩, hx⟩)
    · exact ⟨l, x, [], rfl, ha, List.forall_mem_nil _⟩
    · refine ⟨before, a, behind ++ [x], by simp, ha, fun z hz => ?_⟩
      rcases List.mem_append.mp hz with hz | hz
      · exact hbehind z hz
      · rw [List.mem_singleton.mp hz]
        exact hx

/-- A flag of a state that is set by the events of one kind, and cleared by the others of another,
is set exactly if one of the first kind has happened, and none of the second since then. -/
theorem foldl_iff_since {σ : Type v} {step : σ → α → σ} {s : σ} (flag : σ → Prop)
    (hinit : ¬ flag s)
    (hstep : ∀ l x, flag (step (l.foldl step s) x) ↔ A l x ∨ (flag (l.foldl step s) ∧ ¬ B x))
    (l : List α) : flag (l.foldl step s) ↔ Since A B l := by
  induction l using List.reverseRecOn with
  | nil => exact iff_of_false hinit not_since_nil
  | append_singleton l x ih =>
      rw [List.foldl_append, List.foldl_cons, List.foldl_nil, hstep, ih, since_concat]

end History
