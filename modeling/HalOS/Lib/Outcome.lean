import Mathlib.Data.List.Induction
import Mathlib.Tactic.Common

/-!
# Computations that may Fail, side by side

`Alike r` relates two computations in `Except` that end alike: both fail with the same
error, or both succeed with results related by `r`. It composes along `>>=` and along the
run of a list of inputs, so that a simulation is proved one operation at a time. With `r` a
predicate on equal results it is a rule for what a computation preserves.

`Steps step P s₀` are the states that a partial transition function reaches from `s₀` by
steps that meet `P`.

## Main results

* `Alike.bind`, `Alike.foldlM`: composition.
* `Steps.invariant`: what is kept by every step that meets `P` holds in every state reached.
* `foldlM_safe_iff`: a run is safe exactly if it has no step that breaks an invariant.
* `Along.iff_of_invariant`: two conditions on the steps of a run, equivalent under an invariant.
-/

namespace Outcome

universe u v w

variable {ε : Type u} {α α' β β' : Type v}

/-- Both computations fail with one error, or succeed with related results. -/
inductive Alike (r : α → β → Prop) : Except ε α → Except ε β → Prop
  | ok {a : α} {b : β} : r a b → Alike r (.ok a) (.ok b)
  | error (e : ε) : Alike r (.error e) (.error e)

/-- A successful sequence succeeds at each part. -/
theorem bind_eq_ok {x : Except ε α} {f : α → Except ε β} {b : β} :
    x >>= f = .ok b ↔ ∃ a, x = .ok a ∧ f a = .ok b := by
  cases x with
  | error e =>
      constructor
      · intro h
        cases h
      · rintro ⟨a, h, -⟩
        cases h
  | ok a =>
      constructor
      · exact fun h => ⟨a, rfl, h⟩
      · rintro ⟨_, ha, h⟩
        cases ha
        exact h

theorem map_eq_ok {x : Except ε α} {f : α → β} {b : β} :
    x.map f = .ok b ↔ ∃ a, x = .ok a ∧ f a = b := by
  cases x with
  | error e =>
      constructor
      · intro h
        cases h
      · rintro ⟨a, h, -⟩
        cases h
  | ok a =>
      constructor
      · exact fun h => ⟨a, rfl, Except.ok.inj h⟩
      · rintro ⟨_, ha, rfl⟩
        cases ha
        rfl

/-- The test of a successful result, on a computation that is run. -/
theorem exists_eq_ok_of_any {x : Except ε α} {p : α → Bool} (h : x.toOption.any p = true) :
    ∃ a, x = .ok a ∧ p a = true := by
  cases x with
  | error e => cases h
  | ok a => exact ⟨a, rfl, h⟩

theorem Alike.mono {r q : α → β → Prop} (hrq : ∀ a b, r a b → q a b) {x : Except ε α}
    {y : Except ε β} (h : Alike r x y) : Alike q x y := by
  cases h with
  | ok hab => exact .ok (hrq _ _ hab)
  | error e => exact .error e

/-- Sequences of like parts end alike; the second part may use what the first one gave. -/
theorem Alike.bind_of_eq {r : α → β → Prop} {q : α' → β' → Prop} {x : Except ε α}
    {y : Except ε β} {f : α → Except ε α'} {g : β → Except ε β'} (h : Alike r x y)
    (hfg : ∀ a b, x = .ok a → r a b → Alike q (f a) (g b)) : Alike q (x >>= f) (y >>= g) := by
  cases h with
  | ok hab => exact hfg _ _ rfl hab
  | error e => exact .error e

theorem Alike.bind {r : α → β → Prop} {q : α' → β' → Prop} {x : Except ε α} {y : Except ε β}
    {f : α → Except ε α'} {g : β → Except ε β'} (h : Alike r x y)
    (hfg : ∀ a b, r a b → Alike q (f a) (g b)) : Alike q (x >>= f) (y >>= g) :=
  h.bind_of_eq fun a b _ => hfg a b

/-- If the first of two like computations succeeds, so does the second. -/
theorem Alike.of_ok {r : α → β → Prop} {x : Except ε α} {y : Except ε β} (h : Alike r x y)
    {a : α} (hx : x = .ok a) : ∃ b, y = .ok b ∧ r a b := by
  cases h with
  | ok hab =>
      cases hx
      exact ⟨_, rfl, hab⟩
  | error e => cases hx

/-- Results related by a function are its images. -/
theorem alike_iff_eq_map {f : α → β} {x : Except ε α} {y : Except ε β} :
    Alike (fun a b => b = f a) x y ↔ y = x.map f := by
  constructor
  · intro h
    cases h with
    | ok hab =>
        rw [hab]
        rfl
    | error e => rfl
  · rintro rfl
    cases x with
    | error e => exact .error e
    | ok a => exact .ok rfl

/-- What the first computation is known to give can be added to the relation. -/
theorem Alike.and_of_ok {r : α → β → Prop} {p : α → Prop} {x : Except ε α} {y : Except ε β}
    (h : Alike r x y) (hp : ∀ a, x = .ok a → p a) : Alike (fun a b => r a b ∧ p a) x y := by
  cases h with
  | ok hab => exact .ok ⟨hab, hp _ rfl⟩
  | error e => exact .error e

/-- A computation that never succeeds is like any computation that it is like in some way. -/
theorem Alike.of_not_ok {r q : α → β → Prop} {x : Except ε α} {y : Except ε β} (h : Alike r x y)
    (hx : ∀ a, x ≠ .ok a) : Alike q x y := by
  cases h with
  | ok hab => exact absurd rfl (hx _)
  | error e => exact .error e

/-- Runs over one list of inputs, in two systems that step alike. -/
theorem Alike.foldlM {ι : Type w} {r : α → β → Prop} {step : α → ι → Except ε α}
    {step' : β → ι → Except ε β} (hstep : ∀ a b i, r a b → Alike r (step a i) (step' b i))
    (inputs : List ι) {a : α} {b : β} (h : r a b) :
    Alike r (inputs.foldlM step a) (inputs.foldlM step' b) := by
  induction inputs generalizing a b with
  | nil => exact .ok h
  | cons i inputs ih =>
      rw [List.foldlM_cons, List.foldlM_cons]
      exact (hstep a b i h).bind fun _ _ => ih

/-! ### Errors that do not happen -/

/-- The computation does not fail with `e`. -/
def Avoids (e : ε) (x : Except ε α) : Prop := x ≠ .error e

theorem avoids_ok (e : ε) (a : α) : Avoids e (.ok a : Except ε α) := by
  intro h
  cases h

theorem avoids_error {e f : ε} (h : f ≠ e) : Avoids e (.error f : Except ε α) := by
  intro heq
  cases heq
  exact h rfl

/-- A sequence avoids an error that both parts avoid. -/
theorem Avoids.bind {e : ε} {x : Except ε α} {f : α → Except ε β} (h : Avoids e x)
    (hf : ∀ a, x = .ok a → Avoids e (f a)) : Avoids e (x >>= f) := by
  cases x with
  | error f => exact avoids_error fun heq => h (congrArg Except.error heq)
  | ok a => exact hf a rfl

/-! ### Runs of a partial transition function -/

variable {σ : Type v} {ι : Type w}

/-- The states reached from `s₀` by steps that meet `P`. -/
inductive Steps (step : σ → ι → Except ε σ) (P : σ → ι → Prop) (s₀ : σ) : σ → Prop
  | refl : Steps step P s₀ s₀
  | tail {s s' : σ} (i : ι) : Steps step P s₀ s → P s i → step s i = .ok s' → Steps step P s₀ s'

theorem Steps.invariant {step : σ → ι → Except ε σ} {P : σ → ι → Prop} {s₀ s : σ}
    {I : σ → Prop} (h : Steps step P s₀ s) (hinit : I s₀)
    (hstep : ∀ s i s', I s → P s i → step s i = .ok s' → I s') : I s := by
  induction h with
  | refl => exact hinit
  | tail i _ hP hi ih => exact hstep _ i _ ih hP hi

/-- A run goes on where its first part has ended. -/
theorem foldlM_append_of_ok {step : σ → ι → Except ε σ} {inputs : List ι} {s t : σ}
    (h : inputs.foldlM step s = .ok t) (more : List ι) :
    (inputs ++ more).foldlM step s = more.foldlM step t := by
  rw [List.foldlM_append, h]
  rfl

/-- A list of inputs that is consumed without failure is a run. -/
theorem Steps.of_foldlM {step : σ → ι → Except ε σ} {inputs : List ι} {s₀ s : σ}
    (h : inputs.foldlM step s₀ = .ok s) : Steps step (fun _ _ => True) s₀ s := by
  induction inputs using List.reverseRecOn generalizing s with
  | nil =>
      cases h
      exact .refl
  | append_singleton inputs i ih =>
      rw [List.foldlM_append] at h
      obtain ⟨t, ht, h⟩ := bind_eq_ok.mp h
      rw [List.foldlM_cons] at h
      obtain ⟨u, hu, h⟩ := bind_eq_ok.mp h
      cases h
      exact .tail i (ih ht) trivial hu

/-- A step that is bad under an invariant fails, and any other step succeeds and keeps the
invariant. Then the parts of a run succeed exactly if none of its steps is bad. -/
theorem foldlM_safe_iff {step : σ → ι → Except ε σ} {I P : σ → Prop} {Bad : σ → ι → Prop}
    (hbad : ∀ s i, I s → Bad s i → ∀ s', step s i ≠ .ok s')
    (hstep : ∀ s i, I s → ¬ Bad s i → ∃ s', step s i = .ok s' ∧ I s') (hP : ∀ s, I s → P s)
    {s : σ} (hs : I s) (inputs : List ι) :
    (∀ first, first <+: inputs → ∃ t, first.foldlM step s = .ok t ∧ P t) ↔
      ∀ first i, first ++ [i] <+: inputs → ∀ t, first.foldlM step s = .ok t → ¬ Bad t i := by
  have hconcat {first : List ι} {t : σ} (ht : first.foldlM step s = .ok t) (i : ι) :
      (first ++ [i]).foldlM step s = step t i := by
    rw [foldlM_append_of_ok ht, List.foldlM_cons]
    cases step t i with
    | error e => rfl
    | ok t' => rfl
  have hinv (hgood : ∀ first i, first ++ [i] <+: inputs →
      ∀ t, first.foldlM step s = .ok t → I t → ¬ Bad t i) (first : List ι)
      (hfirst : first <+: inputs) : ∃ t, first.foldlM step s = .ok t ∧ I t := by
    induction first using List.reverseRecOn with
    | nil => exact ⟨s, rfl, hs⟩
    | append_singleton first i ih =>
        obtain ⟨t, ht, hI⟩ := ih ((List.prefix_append _ _).trans hfirst)
        obtain ⟨t', hnext, hI'⟩ := hstep t i hI (hgood first i hfirst t ht hI)
        exact ⟨t', (hconcat ht i).trans hnext, hI'⟩
  constructor
  · intro h
    have hgood (first : List ι) (i : ι) (hfirst : first ++ [i] <+: inputs) (t : σ)
        (ht : first.foldlM step s = .ok t) (hI : I t) : ¬ Bad t i := by
      obtain ⟨t', hnext, -⟩ := h _ hfirst
      exact fun hb => hbad t i hI hb t' ((hconcat ht i).symm.trans hnext)
    intro first i hfirst t ht
    obtain ⟨t', ht', hI⟩ := hinv hgood first ((List.prefix_append _ _).trans hfirst)
    obtain rfl := Except.ok.inj (ht.symm.trans ht')
    exact hgood first i hfirst t ht hI
  · intro hgood first hfirst
    obtain ⟨t, ht, hI⟩ := hinv (fun first i hi t ht _ => hgood first i hi t ht) first hfirst
    exact ⟨t, ht, hP t hI⟩

/-- A list of inputs that meet the condition one after the other is a run. -/
theorem Steps.of_checked {step : σ → ι → Except ε σ} {P : σ → ι → Prop}
    [∀ s i, Decidable (P s i)] (e : ε) {inputs : List ι} {s₀ s : σ}
    (h : inputs.foldlM (fun s i => if P s i then step s i else .error e) s₀ = .ok s) :
    Steps step P s₀ s := by
  induction inputs using List.reverseRecOn generalizing s with
  | nil =>
      cases h
      exact .refl
  | append_singleton inputs i ih =>
      rw [List.foldlM_append] at h
      obtain ⟨t, ht, hi⟩ := bind_eq_ok.mp h
      rw [List.foldlM_cons] at hi
      obtain ⟨t', hstep, hi⟩ := bind_eq_ok.mp hi
      cases hi
      by_cases hP : P t i
      · rw [if_pos hP] at hstep
        exact (ih ht).tail i hP hstep
      · rw [if_neg hP] at hstep
        cases hstep

theorem Steps.mono {step : σ → ι → Except ε σ} {P Q : σ → ι → Prop} (hPQ : ∀ s i, P s i → Q s i)
    {s₀ s : σ} (h : Steps step P s₀ s) : Steps step Q s₀ s := by
  induction h with
  | refl => exact .refl
  | tail i _ hP hi ih => exact .tail i ih (hPQ _ i hP) hi

/-- Every step of the run of these inputs meets `P`, as far as the run goes. -/
def Along (step : σ → ι → Except ε σ) (P : σ → ι → σ → Prop) : σ → List ι → Prop
  | _, [] => True
  | s, i :: inputs => ∀ s', step s i = .ok s' → P s i s' ∧ Along step P s' inputs

/-- What each step brings with it under an invariant, it brings along the whole run. -/
theorem Along.imp_of_invariant {step : σ → ι → Except ε σ} {P Q : σ → ι → σ → Prop} {I : σ → Prop}
    (himp : ∀ s i s', I s → step s i = .ok s' → P s i s' → Q s i s' ∧ I s') {s : σ} (hs : I s)
    {inputs : List ι} (h : Along step P s inputs) : Along step Q s inputs := by
  induction inputs generalizing s with
  | nil => trivial
  | cons i inputs ih =>
      intro s' hnext
      obtain ⟨hP, hrest⟩ := h s' hnext
      obtain ⟨hQ, hs'⟩ := himp s i s' hs hnext hP
      exact ⟨hQ, ih hs' hrest⟩

/-- Two conditions on steps hold along the same runs if they are equivalent as long as an invariant
holds, which the steps that meet them keep. -/
theorem Along.iff_of_invariant {step : σ → ι → Except ε σ} {P Q : σ → ι → σ → Prop} {I : σ → Prop}
    (hiff : ∀ s i s', I s → step s i = .ok s' → (P s i s' ↔ Q s i s'))
    (hkeeps : ∀ s i s', I s → step s i = .ok s' → P s i s' → I s') {s : σ} (hs : I s)
    (inputs : List ι) : Along step P s inputs ↔ Along step Q s inputs := by
  constructor
  · refine Along.imp_of_invariant (fun s i s' hI hnext hP => ?_) hs
    exact ⟨(hiff s i s' hI hnext).mp hP, hkeeps s i s' hI hnext hP⟩
  · refine Along.imp_of_invariant (fun s i s' hI hnext hQ => ?_) hs
    have hP := (hiff s i s' hI hnext).mpr hQ
    exact ⟨hP, hkeeps s i s' hI hnext hP⟩

end Outcome
