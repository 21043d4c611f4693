import Mathlib.Data.List.Basic
import Mathlib.Tactic.Common

/-!
# Computations over a Memory

`Access β α` is a computation that looks at a memory of cells in `β` and keeps a list of the
cells it touches, in order. `Within n x m` says that on the memory `m` none of them is at `n`
or above; it is computed along the parts of `x`.

## Main results

* `within_bind`: a sequence stays within the bound if both parts do.
-/

universe u v

/-- A computation over a memory, with the cells it touches. -/
def Access (β : Type u) (α : Type v) : Type (max u v) := (ℕ → β) → α × List ℕ

namespace Access

variable {β α γ ε : Type u} {n : ℕ} {m : ℕ → β}

/-- The result on a memory. -/
def value (x : Access β α) (m : ℕ → β) : α := (x m).1

/-- The cells touched on a memory. -/
def touched (x : Access β α) (m : ℕ → β) : List ℕ := (x m).2

instance : Monad (Access β) where
  pure a := fun _ => (a, [])
  bind x f := fun m => ((f (x m).1 m).1, (x m).2 ++ (f (x m).1 m).2)

/-- Read one cell. -/
def read (i : ℕ) : Access β β := fun m => (m i, [i])

/-- Read cells in a row. -/
def readMany (start len : ℕ) : Access β (List β) := fun m =>
  ((List.range len).map fun i => m (start + i), (List.range len).map fun i => start + i)

/-- Touch cells in a row without using what they hold. -/
def touch (start len : ℕ) : Access β PUnit := fun _ =>
  (⟨⟩, (List.range len).map fun i => start + i)

/-- Go on if a part that touches nothing succeeds. -/
def bindOk (x : Except ε α) (f : α → Access β (Except ε γ)) : Access β (Except ε γ) := fun m =>
  match x with
  | .error e => (.error e, [])
  | .ok a => f a m

/-! ### Results -/

@[simp] theorem value_pure (a : α) (m : ℕ → β) : (pure a : Access β α).value m = a := rfl

theorem value_bind (x : Access β α) (f : α → Access β γ) (m : ℕ → β) :
    (x >>= f).value m = (f (x.value m)).value m := rfl

@[simp] theorem value_read (i : ℕ) (f : β → Access β α) (m : ℕ → β) :
    (read i >>= f).value m = (f (m i)).value m := by
  rfl

@[simp] theorem value_readMany (start len : ℕ) (f : List β → Access β α) (m : ℕ → β) :
    (readMany start len >>= f).value m =
      (f ((List.range len).map fun i => m (start + i))).value m := by
  rfl

@[simp] theorem value_touch (start len : ℕ) (f : PUnit → Access β α) (m : ℕ → β) :
    (touch start len >>= f).value m = (f ⟨⟩).value m := by
  rfl

@[simp] theorem value_ite (p : Prop) [Decidable p] (x y : Access β α) (m : ℕ → β) :
    (if p then x else y).value m = if p then x.value m else y.value m := by
  split_ifs <;> rfl

@[simp] theorem value_bindOk (x : Except ε α) (f : α → Access β (Except ε γ)) (m : ℕ → β) :
    (bindOk x f).value m = x >>= fun a => (f a).value m := by
  cases x with
  | error e => rfl
  | ok a => rfl

/-! ### Bounds -/

/-- Every cell touched is below `n`. -/
def Within (n : ℕ) (x : Access β α) (m : ℕ → β) : Prop := ∀ i ∈ x.touched m, i < n

instance (n : ℕ) (x : Access β α) (m : ℕ → β) : Decidable (Within n x m) :=
  inferInstanceAs (Decidable (∀ i ∈ x.touched m, i < n))

@[simp] theorem within_pure (a : α) : Within n (pure a : Access β α) m :=
  fun _ hi => absurd hi List.not_mem_nil

/-- **Sequences.** -/
theorem within_bind (x : Access β α) (f : α → Access β γ) :
    Within n (x >>= f) m ↔ Within n x m ∧ Within n (f (x.value m)) m := by
  constructor
  · exact fun h => ⟨fun i hi => h i (List.mem_append_left _ hi),
      fun i hi => h i (List.mem_append_right _ hi)⟩
  · rintro ⟨hx, hf⟩ i hi
    exact (List.mem_append.mp hi).elim (hx i) (hf i)

/-- Renaming the result. -/
theorem within_bind_pure (x : Access β α) (f : α → γ) :
    Within n (x >>= fun a => pure (f a)) m ↔ Within n x m := by
  rw [within_bind]
  exact and_iff_left (within_pure _)

/-- A row of cells stays below its end. -/
theorem forall_mem_row {start len : ℕ} :
    (∀ i ∈ (List.range len).map fun i => start + i, i < n) ↔ len = 0 ∨ start + len ≤ n := by
  constructor
  · intro h
    cases len with
    | zero => exact Or.inl rfl
    | succ len =>
        have hlast := h (start + len)
          (List.mem_map_of_mem (List.mem_range.mpr (Nat.lt_succ_self len)))
        exact Or.inr hlast
  · rintro (rfl | h) i hi
    · exact absurd hi List.not_mem_nil
    · obtain ⟨j, hj, rfl⟩ := List.mem_map.mp hi
      exact Nat.lt_of_lt_of_le (Nat.add_lt_add_left (List.mem_range.mp hj) _) h

@[simp] theorem within_read (i : ℕ) (f : β → Access β α) :
    Within n (read i >>= f) m ↔ i < n ∧ Within n (f (m i)) m := by
  refine (within_bind _ _).trans (and_congr_left' ?_)
  exact ⟨fun h => h i List.mem_cons_self, fun h _ hj => List.mem_singleton.mp hj ▸ h⟩

@[simp] theorem within_readMany (start len : ℕ) (f : List β → Access β α) :
    Within n (readMany start len >>= f) m ↔ (len = 0 ∨ start + len ≤ n) ∧
      Within n (f ((List.range len).map fun i => m (start + i))) m :=
  (within_bind _ _).trans (and_congr_left' forall_mem_row)

@[simp] theorem within_readMany_end (start len : ℕ) :
    Within n (readMany start len : Access β (List β)) m ↔ len = 0 ∨ start + len ≤ n :=
  forall_mem_row

@[simp] theorem within_touch (start len : ℕ) (f : PUnit → Access β α) :
    Within n (touch start len >>= f) m ↔ (len = 0 ∨ start + len ≤ n) ∧ Within n (f ⟨⟩) m :=
  (within_bind _ _).trans (and_congr_left' forall_mem_row)

/-- Branches. -/
@[simp] theorem within_ite (p : Prop) [Decidable p] (x y : Access β α) :
    Within n (if p then x else y) m ↔ (p → Within n x m) ∧ (¬ p → Within n y m) := by
  split_ifs with hp
  · simp [hp]
  · simp [hp]

@[simp] theorem within_bindOk (x : Except ε α) (f : α → Access β (Except ε γ)) :
    Within n (bindOk x f) m ↔ ∀ a, x = .ok a → Within n (f a) m := by
  cases x with
  | error e =>
      constructor
      · intro _ a h
        cases h
      · exact fun _ i hi => absurd hi List.not_mem_nil
  | ok a => exact ⟨fun h b hb => Except.ok.inj hb ▸ h, fun h => h a rfl⟩

/-- Every cell touched satisfies `P`. -/
def OnlyTouches (P : ℕ → Prop) (x : Access β α) (m : ℕ → β) : Prop := ∀ i ∈ x.touched m, P i

@[simp] theorem onlyTouches_pure {P : ℕ → Prop} (a : α) : OnlyTouches P (pure a : Access β α) m :=
  fun _ hi => absurd hi List.not_mem_nil

@[simp] theorem onlyTouches_read {P : ℕ → Prop} (i : ℕ) (f : β → Access β α) :
    OnlyTouches P (read i >>= f) m ↔ P i ∧ OnlyTouches P (f (m i)) m :=
  List.forall_mem_cons

@[simp] theorem onlyTouches_ite {P : ℕ → Prop} (p : Prop) [Decidable p] (x y : Access β α) :
    OnlyTouches P (if p then x else y) m ↔
      (p → OnlyTouches P x m) ∧ (¬ p → OnlyTouches P y m) := by
  split_ifs with hp
  · simp [hp]
  · simp [hp]

theorem onlyTouches_bind_pure {P : ℕ → Prop} (x : Access β α) (f : α → γ) :
    OnlyTouches P (x >>= fun a => pure (f a)) m ↔ OnlyTouches P x m := by
  constructor
  · exact fun h i hi => h i (List.mem_append_left _ hi)
  · intro h i hi
    rcases List.mem_append.mp hi with hi | hi
    · exact h i hi
    · exact absurd hi List.not_mem_nil

theorem OnlyTouches.mono {P Q : ℕ → Prop} {x : Access β α} (hPQ : ∀ i, P i → Q i)
    (h : OnlyTouches P x m) : OnlyTouches Q x m := fun i hi => hPQ i (h i hi)

end Access
