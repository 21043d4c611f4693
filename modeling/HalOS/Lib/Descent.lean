import HalOS.Lib.Fuel
import Mathlib.Data.Fintype.EquivFin
import Mathlib.Logic.Relation

/-!
# Visits that Visit

A visit of a node of a graph makes visits of other nodes, one behind the other, and may come to an
end with an answer of its own before all of them are made. What the inner visits answer is dropped.
Nothing remembers where it has been: the visits end if no way along the visits made comes round to
where it was. They are computed with fuel, a unit for each level.

## Main results

* `descend_eq_ok`: the answer is the first one at the node itself.
* `finishes_descend_iff`: a visit ends if no cycle is reached.
-/

namespace Descent

open Fuel (Finishes)
open Relation (ReflTransGen TransGen)

universe u v

variable {ε : Type u} {α β γ : Type v} {out : ε}

/-- What a visit does next. -/
inductive Event (α β : Type v)
  | visit (a : α)
  | answer (b : β)

/-- The answer the visit ends with. -/
def answer : List (Event α β) → Option β
  | [] => none
  | .visit _ :: es => answer es
  | .answer b :: _ => some b

/-- The visits made before it ends. -/
def visited : List (Event α β) → List α
  | [] => []
  | .visit a :: es => a :: visited es
  | .answer _ :: _ => []

/-- The events one by one, with the inner visits made by `f`. -/
def perform (f : α → Except ε γ) : List (Event α β) → Except ε (Option β)
  | [] => .ok none
  | .visit a :: es => do
      let _ ← f a
      perform f es
  | .answer b :: _ => .ok (some b)

/-- The visit of a node. -/
def descend (events : α → List (Event α β)) (out : ε) : ℕ → α → Except ε (Option β)
  | 0, _ => .error out
  | k + 1, a => perform (descend events out k) (events a)

/-! ### The events of a visit -/

@[simp]
theorem answer_append (es fs : List (Event α β)) :
    answer (es ++ fs) = (answer es).or (answer fs) := by
  induction es with
  | nil => rfl
  | cons e es ih =>
      cases e with
      | visit a => exact ih
      | answer b => rfl

theorem visited_append_of_none {es fs : List (Event α β)} (h : answer es = none) :
    visited (es ++ fs) = visited es ++ visited fs := by
  induction es with
  | nil => rfl
  | cons e es ih =>
      cases e with
      | visit a => exact congrArg (a :: ·) (ih h)
      | answer b => cases h

theorem visited_append_of_some {es fs : List (Event α β)} {b : β} (h : answer es = some b) :
    visited (es ++ fs) = visited es := by
  induction es with
  | nil => cases h
  | cons e es ih =>
      cases e with
      | visit a => exact congrArg (a :: ·) (ih h)
      | answer c => rfl

/-- Events in groups: the first group with an answer has it. -/
theorem answer_flatMap {δ : Type*} (g : δ → List (Event α β)) (l : List δ) :
    answer (l.flatMap g) = l.findSome? fun x => answer (g x) := by
  induction l with
  | nil => rfl
  | cons x l ih =>
      rw [List.flatMap_cons, answer_append, ih, List.findSome?_cons]
      cases answer (g x) with
      | none => rfl
      | some b => rfl

/-- No group has an answer. -/
theorem answer_range_eq_none {g : ℕ → List (Event α β)} {n : ℕ} :
    answer ((List.range n).flatMap g) = none ↔ ∀ i < n, answer (g i) = none := by
  rw [answer_flatMap, List.findSome?_eq_none_iff]
  simp only [List.mem_range]

/-- The answer is the one of the first group that has one. -/
theorem answer_range_eq_some {g : ℕ → List (Event α β)} {n : ℕ} {b : β} :
    answer ((List.range n).flatMap g) = some b ↔
      ∃ i < n, (∀ j < i, answer (g j) = none) ∧ answer (g i) = some b := by
  induction n with
  | zero =>
      refine ⟨nofun, ?_⟩
      rintro ⟨i, hi, -⟩
      exact absurd hi (Nat.not_lt_zero i)
  | succ n ih =>
      rw [List.range_succ, List.flatMap_append, List.flatMap_singleton, answer_append,
        Option.or_eq_some_iff, ih, answer_range_eq_none]
      constructor
      · rintro (⟨i, hi, hbefore, hb⟩ | ⟨hbefore, hb⟩)
        · exact ⟨i, hi.trans n.lt_succ_self, hbefore, hb⟩
        · exact ⟨n, n.lt_succ_self, hbefore, hb⟩
      · rintro ⟨i, hi, hbefore, hb⟩
        rcases Nat.lt_succ_iff_lt_or_eq.mp hi with hlt | rfl
        · exact Or.inl ⟨i, hlt, hbefore, hb⟩
        · exact Or.inr ⟨hbefore, hb⟩

/-- A visit made is made in one group, and no group before it has an answer. -/
theorem mem_visited_range {g : ℕ → List (Event α β)} {n : ℕ} {a : α} :
    a ∈ visited ((List.range n).flatMap g) ↔
      ∃ i < n, (∀ j < i, answer (g j) = none) ∧ a ∈ visited (g i) := by
  induction n with
  | zero =>
      refine ⟨nofun, ?_⟩
      rintro ⟨i, hi, -⟩
      exact absurd hi (Nat.not_lt_zero i)
  | succ n ih =>
      rw [List.range_succ, List.flatMap_append, List.flatMap_singleton]
      cases h : answer ((List.range n).flatMap g) with
      | some b =>
          rw [visited_append_of_some h, ih]
          constructor
          · rintro ⟨i, hi, hbefore, ha⟩
            exact ⟨i, hi.trans n.lt_succ_self, hbefore, ha⟩
          · rintro ⟨i, hi, hbefore, ha⟩
            rcases Nat.lt_succ_iff_lt_or_eq.mp hi with hlt | rfl
            · exact ⟨i, hlt, hbefore, ha⟩
            · cases h.symm.trans (answer_range_eq_none.mpr hbefore)
      | none =>
          rw [visited_append_of_none h, List.mem_append, ih]
          constructor
          · rintro (⟨i, hi, hbefore, ha⟩ | ha)
            · exact ⟨i, hi.trans n.lt_succ_self, hbefore, ha⟩
            · exact ⟨n, n.lt_succ_self, answer_range_eq_none.mp h, ha⟩
          · rintro ⟨i, hi, hbefore, ha⟩
            rcases Nat.lt_succ_iff_lt_or_eq.mp hi with hlt | rfl
            · exact Or.inl ⟨i, hlt, hbefore, ha⟩
            · exact Or.inr ha

/-! ### Performing them -/

/-- What is performed is the answer, if the inner visits end. -/
theorem perform_eq_ok_iff {f : α → Except ε γ} {es : List (Event α β)} {r : Option β} :
    perform f es = .ok r ↔ r = answer es ∧ ∀ a ∈ visited es, ∃ c, f a = .ok c := by
  induction es with
  | nil => exact ⟨fun h => ⟨(Except.ok.inj h).symm, nofun⟩, fun h => congrArg Except.ok h.1.symm⟩
  | cons e es ih =>
      cases e with
      | answer b =>
          exact ⟨fun h => ⟨(Except.ok.inj h).symm, nofun⟩, fun h => congrArg Except.ok h.1.symm⟩
      | visit a =>
          rw [visited, List.forall_mem_cons, perform, answer]
          constructor
          · intro h
            obtain ⟨c, hc, hrest⟩ := Outcome.bind_eq_ok.mp h
            have hes := ih.mp hrest
            exact ⟨hes.1, ⟨c, hc⟩, hes.2⟩
          · rintro ⟨hr, ⟨c, hc⟩, hrest⟩
            rw [hc]
            exact ih.mpr ⟨hr, hrest⟩

theorem perform_append {f : α → Except ε γ} (es fs : List (Event α β)) :
    perform f (es ++ fs) =
      perform f es >>= fun r => match r with
        | none => perform f fs
        | some b => .ok (some b) := by
  induction es with
  | nil => rfl
  | cons e es ih =>
      cases e with
      | answer b => rfl
      | visit a =>
          rw [List.cons_append, perform, perform]
          cases f a with
          | error e => rfl
          | ok c => exact ih

/-- A loop that returns at the first answer performs the events of its rounds. -/
theorem findSomeM?_eq_perform {δ : Type v} {f : α → Except ε γ} {g : δ → List (Event α β)}
    {body : δ → Except ε (Option β)} (h : ∀ x, body x = perform f (g x)) (l : List δ) :
    l.findSomeM? body = perform f (l.flatMap g) := by
  induction l with
  | nil => rfl
  | cons x l ih =>
      rw [List.findSomeM?_cons, List.flatMap_cons, perform_append, h, ih]
      cases perform f (g x) with
      | error e => rfl
      | ok r =>
          cases r with
          | none => rfl
          | some b => rfl

/-- Nothing else goes wrong. -/
theorem perform_eq_error {f : α → Except ε γ} {es : List (Event α β)} {e : ε}
    (hf : ∀ a e, f a = .error e → e = out) (h : perform f es = .error e) : e = out := by
  induction es with
  | nil => cases h
  | cons ev es ih =>
      cases ev with
      | answer b => cases h
      | visit a =>
          rw [perform] at h
          cases hfa : f a with
          | error e' =>
              rw [hfa] at h
              cases h
              exact hf a e hfa
          | ok c =>
              rw [hfa] at h
              exact ih h

section

variable {events : α → List (Event α β)}

/-- **The answer** is the first one at the node itself. -/
theorem descend_eq_ok {k : ℕ} {a : α} {r : Option β} (h : descend events out k a = .ok r) :
    r = answer (events a) := by
  cases k with
  | zero => cases h
  | succ k => exact (perform_eq_ok_iff.mp h).1

theorem descend_eq_error {k : ℕ} {a : α} {e : ε} (h : descend events out k a = .error e) :
    e = out := by
  induction k generalizing a e with
  | zero => exact (Except.error.inj h).symm
  | succ k ih => exact perform_eq_error (fun a e => ih) h

theorem descend_ne_error_iff {k : ℕ} {a : α} :
    descend events out k a ≠ .error out ↔ descend events out k a = .ok (answer (events a)) := by
  refine ⟨fun h => ?_, fun h => h ▸ nofun⟩
  cases hk : descend events out k a with
  | error e =>
      obtain rfl := descend_eq_error hk
      exact absurd hk h
  | ok r => exact congrArg Except.ok (descend_eq_ok hk)

theorem descend_succ_iff {k : ℕ} {a : α} :
    descend events out (k + 1) a ≠ .error out ↔
      ∀ c ∈ visited (events a), descend events out k c ≠ .error out := by
  rw [descend_ne_error_iff, descend, perform_eq_ok_iff]
  constructor
  · rintro ⟨-, h⟩ c hc
    obtain ⟨r, hr⟩ := h c hc
    exact hr ▸ nofun
  · exact fun h => ⟨rfl, fun c hc => ⟨_, descend_ne_error_iff.mp (h c hc)⟩⟩

/-- More fuel does no harm. -/
theorem descend_mono {k k' : ℕ} (hle : k ≤ k') {a : α} (h : descend events out k a ≠ .error out) :
    descend events out k' a ≠ .error out := by
  induction k generalizing k' a with
  | zero => exact absurd rfl h
  | succ k ih =>
      obtain ⟨k', rfl⟩ := Nat.exists_eq_add_of_le' (Nat.one_le_of_lt hle)
      rw [descend_succ_iff] at h ⊢
      exact fun c hc => ih (Nat.le_of_succ_le_succ hle) (h c hc)

/-- A list of nodes has one amount of fuel for all of them. -/
theorem exists_fuel_forall {l : List α}
    (h : ∀ c ∈ l, Finishes out fun k => descend events out k c) :
    ∃ k, ∀ c ∈ l, descend events out k c ≠ .error out := by
  induction l with
  | nil => exact ⟨0, nofun⟩
  | cons c l ih =>
      obtain ⟨⟨k, hk⟩, hl⟩ := List.forall_mem_cons.mp h
      obtain ⟨k', hk'⟩ := ih hl
      exact ⟨max k k', List.forall_mem_cons.mpr
        ⟨descend_mono (Nat.le_max_left k k') hk,
          fun d hd => descend_mono (Nat.le_max_right k k') (hk' d hd)⟩⟩

/-! ### When a visit ends -/

/-- The visit of `a` makes a visit of `c`. -/
def Visits (events : α → List (Event α β)) (a c : α) : Prop := c ∈ visited (events a)

theorem finishes_descend_iff_acc {a : α} :
    Finishes out (fun k => descend events out k a) ↔
      Acc (fun c b => Visits events b c) a := by
  constructor
  · rintro ⟨k, hk⟩
    dsimp only at hk
    induction k generalizing a with
    | zero => exact absurd rfl hk
    | succ k ih => exact ⟨a, fun c hc => ih (descend_succ_iff.mp hk c hc)⟩
  · intro h
    induction h with
    | intro a _ ih =>
        obtain ⟨k, hk⟩ : ∃ k, ∀ c ∈ visited (events a), descend events out k c ≠ .error out :=
          exists_fuel_forall ih
        exact ⟨k + 1, descend_succ_iff.mpr hk⟩

/-- What is accessible does not come round to itself. -/
theorem not_rel_self_of_acc {δ : Type*} {r : δ → δ → Prop} {a : δ} (h : Acc r a) : ¬ r a a := by
  induction h with
  | intro a _ ih => exact fun haa => ih a haa haa

theorem perform_descend_ne_error_iff {k : ℕ} {es : List (Event α β)} :
    perform (descend events out k) es ≠ .error out ↔
      perform (descend events out k) es = .ok (answer es) := by
  refine ⟨fun h => ?_, fun h => h ▸ nofun⟩
  cases hk : perform (descend events out k) es with
  | error e =>
      obtain rfl := perform_eq_error (fun a e => descend_eq_error) hk
      exact absurd hk h
  | ok r => exact congrArg Except.ok (perform_eq_ok_iff.mp hk).1

/-- A list of events comes to its end if the visits in it do. -/
theorem finishes_perform_iff {es : List (Event α β)} :
    Finishes out (fun k => perform (descend events out k) es) ↔
      ∀ c ∈ visited es, Finishes out fun k => descend events out k c := by
  constructor
  · rintro ⟨k, hk⟩ c hc
    obtain ⟨t, ht⟩ := (perform_eq_ok_iff.mp (perform_descend_ne_error_iff.mp hk)).2 c hc
    exact ⟨k, fun h => nomatch ht.symm.trans h⟩
  · intro h
    obtain ⟨k, hk⟩ := exists_fuel_forall h
    refine ⟨k, perform_descend_ne_error_iff.mpr (perform_eq_ok_iff.mpr ⟨rfl, fun c hc => ?_⟩)⟩
    exact ⟨_, descend_ne_error_iff.mp (hk c hc)⟩

/-- Over finitely many nodes, every way from here ends if it comes to no cycle. -/
theorem acc_iff_no_cycle {δ : Type*} [Finite δ] {r : δ → δ → Prop} {a : δ} :
    Acc (fun c b => r b c) a ↔ ¬ ∃ c, ReflTransGen r a c ∧ TransGen r c c := by
  constructor
  · rintro h ⟨c, hac, hcc⟩
    have hc : Acc (fun c b => r b c) c := by
      clear hcc
      induction hac with
      | refl => exact h
      | tail _ hstep ih => exact ih.inv hstep
    exact not_rel_self_of_acc hc.transGen (Relation.transGen_swap.mpr hcc)
  · intro h
    -- on what is reached from `a`, to be further on is a well-founded relation
    let Reached := {c : δ // ReflTransGen r a c}
    let Further : Reached → Reached → Prop := fun c b => TransGen r b.1 c.1
    have : Finite Reached := Subtype.finite
    have : IsTrans Reached Further := ⟨fun _ _ _ hab hbc => hbc.trans hab⟩
    have : Std.Irrefl Further := ⟨fun c hcc => h ⟨c.1, c.2, hcc⟩⟩
    have hwf : WellFounded Further := Finite.wellFounded_of_trans_of_irrefl Further
    have hacc : ∀ c : Reached, Acc (fun c b => r b c) c.1 := by
      intro c
      induction c using hwf.induction with
      | _ c ih => exact ⟨c.1, fun d hd => ih ⟨d, c.2.tail hd⟩ (TransGen.single hd)⟩
    exact hacc ⟨a, .refl⟩

/-- **A visit ends** if no cycle is reached. -/
theorem finishes_descend_iff [Finite α] {a : α} :
    Finishes out (fun k => descend events out k a) ↔
      ¬ ∃ c, ReflTransGen (Visits events) a c ∧ TransGen (Visits events) c c :=
  finishes_descend_iff_acc.trans acc_iff_no_cycle

end

end Descent
