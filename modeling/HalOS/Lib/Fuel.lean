import HalOS.Lib.Outcome

/-!
# Loops that need not End

A loop that need not end is computed with fuel, and running out of fuel is a fault of its own.
`Finishes out f` says that some fuel is enough, and `Stable out f` that more fuel changes nothing
then.

A scan goes from state to state by turns. A turn stops, passes to the next state, or yields
something with it. The scan goes on until a turn yields, and a search until what was yielded is a
hit.

## Main results

* `finishes_bind_iff`: a sequence finishes if both parts do.
* `IsScan.finishes_search_iff`: a search finishes if a turn stops or yields a hit.
* `IsScan.search_eq_ok_iff`: what it finds is the first hit.
-/

namespace Fuel

open Outcome (bind_eq_ok)

universe u v

variable {ε : Type u} {α β σ : Type v} {out : ε}

/-- Some fuel is enough. -/
def Finishes (out : ε) (f : ℕ → Except ε α) : Prop := ∃ k, f k ≠ .error out

/-- More than enough fuel changes nothing. -/
def Stable (out : ε) (f : ℕ → Except ε α) : Prop := ∀ k, f k ≠ .error out → f (k + 1) = f k

theorem Stable.eq_of_le {f : ℕ → Except ε α} (h : Stable out f) {k k' : ℕ} (hle : k ≤ k')
    (hk : f k ≠ .error out) : f k' = f k := by
  induction hle with
  | refl => rfl
  | step _ ih => exact (h _ (ih ▸ hk)).trans ih

/-- The result does not depend on the fuel. -/
theorem Stable.unique {f : ℕ → Except ε α} (h : Stable out f) {k k' : ℕ} {a b : α}
    (ha : f k = .ok a) (hb : f k' = .ok b) : a = b := by
  have hna : f k ≠ .error out := ha ▸ nofun
  have hnb : f k' ≠ .error out := hb ▸ nofun
  have heq := (h.eq_of_le (Nat.le_max_left k k') hna).symm.trans
    (h.eq_of_le (Nat.le_max_right k k') hnb)
  rw [ha, hb] at heq
  exact Except.ok.inj heq

/-- What is made of the result does not matter. -/
theorem finishes_map_iff {f : ℕ → Except ε α} {g : α → β} :
    Finishes out (fun k => (f k).map g) ↔ Finishes out f := by
  refine exists_congr fun k => not_congr ?_
  dsimp only
  cases f k with
  | error e => exact ⟨fun h => congrArg Except.error (Except.error.inj h),
      fun h => congrArg Except.error (Except.error.inj h)⟩
  | ok a => exact ⟨nofun, nofun⟩

/-- **Sequences.** -/
theorem finishes_bind_iff {f : ℕ → Except ε α} {g : α → ℕ → Except ε β} (hf : Stable out f)
    (hg : ∀ a, Stable out (g a)) :
    Finishes out (fun k => f k >>= fun a => g a k) ↔
      Finishes out f ∧ ∀ k a, f k = .ok a → Finishes out (g a) := by
  constructor
  · rintro ⟨k, hk⟩
    dsimp only at hk
    cases hfk : f k with
    | error e =>
        rw [hfk] at hk
        have hne : f k ≠ .error out := by
          rw [hfk]
          exact fun h => hk (congrArg Except.error (Except.error.inj h))
        refine ⟨⟨k, hne⟩, fun k' a ha => ?_⟩
        have hna : f k' ≠ .error out := ha ▸ nofun
        have heq := (hf.eq_of_le (Nat.le_max_left k k') hne).symm.trans
          (hf.eq_of_le (Nat.le_max_right k k') hna)
        rw [hfk, ha] at heq
        cases heq
    | ok a =>
        refine ⟨⟨k, hfk ▸ nofun⟩, fun k' a' ha' => ?_⟩
        obtain rfl := hf.unique hfk ha'
        rw [hfk] at hk
        exact ⟨k, hk⟩
  · rintro ⟨⟨k, hk⟩, hrest⟩
    cases hfk : f k with
    | error e =>
        refine ⟨k, ?_⟩
        dsimp only
        rw [hfk] at hk ⊢
        exact fun h => hk (congrArg Except.error (Except.error.inj h))
    | ok a =>
        obtain ⟨k', hk'⟩ := hrest k a hfk
        refine ⟨max k k', ?_⟩
        dsimp only
        rw [hf.eq_of_le (Nat.le_max_left k k') hk, hfk]
        change g a (max k k') ≠ _
        rw [(hg a).eq_of_le (Nat.le_max_right k k') hk']
        exact hk'

theorem Stable.bind {f : ℕ → Except ε α} {g : α → ℕ → Except ε β} (hf : Stable out f)
    (hg : ∀ a, Stable out (g a)) : Stable out fun k => f k >>= fun a => g a k := by
  intro k hk
  dsimp only at hk ⊢
  cases hfk : f k with
  | error e =>
      rw [hfk] at hk
      have hne : f k ≠ .error out := by
        rw [hfk]
        exact fun h => hk (congrArg Except.error (Except.error.inj h))
      rw [hf k hne, hfk]
      rfl
  | ok a =>
      rw [hfk] at hk
      rw [hf k (hfk ▸ nofun), hfk]
      exact hg a k hk

/-! ### Scans -/

/-- What a turn of a scan does. -/
inductive Turn (σ β : Type v)
  | stop
  | skip (s : σ)
  | yield (b : β) (s : σ)

/-- The scan from this state on comes to a turn that stops, or to a hit. -/
inductive Ends (turn : σ → Turn σ β) (hit : β → Prop) : σ → Prop
  | stop {s : σ} : turn s = .stop → Ends turn hit s
  | skip {s s' : σ} : turn s = .skip s' → Ends turn hit s' → Ends turn hit s
  | hit {s s' : σ} {b : β} : turn s = .yield b s' → hit b → Ends turn hit s
  | next {s s' : σ} {b : β} : turn s = .yield b s' → Ends turn hit s' → Ends turn hit s

/-- The loop goes on until a turn yields. -/
structure IsScan (out : ε) (turn : σ → Turn σ β) (f : ℕ → σ → Except ε (Option β × σ)) :
    Prop where
  zero : ∀ s, f 0 s = .error out
  stop : ∀ s, turn s = .stop → (∃ e ≠ out, ∀ k, f (k + 1) s = .error e) ∨
    ∃ s', ∀ k, f (k + 1) s = .ok (none, s')
  skip : ∀ s s', turn s = .skip s' → ∀ k, f (k + 1) s = f k s'
  yields : ∀ s b s', turn s = .yield b s' → ∀ k, f (k + 1) s = .ok (some b, s')

/-- The loop goes on until the scan yields a hit. -/
def search (out : ε) (f : ℕ → σ → Except ε (Option β × σ)) (hit : β → Prop) [DecidablePred hit] :
    ℕ → σ → Except ε (Option β × σ)
  | 0, _ => .error out
  | k + 1, s => do
      let (b, s') ← f (k + 1) s
      match b with
      | none => .ok (none, s')
      | some b => if hit b then .ok (some b, s') else search out f hit k s'

/-- The first hit of the scan, and the state behind it. -/
inductive Hits (turn : σ → Turn σ β) (hit : β → Prop) : σ → β → σ → Prop
  | hit {s s' : σ} {b : β} : turn s = .yield b s' → hit b → Hits turn hit s b s'
  | skip {s s' t : σ} {b : β} : turn s = .skip s' → Hits turn hit s' b t → Hits turn hit s b t
  | next {s s' t : σ} {b c : β} : turn s = .yield c s' → ¬ hit c → Hits turn hit s' b t →
      Hits turn hit s b t

section

variable {turn : σ → Turn σ β} {hit : β → Prop} {f : ℕ → σ → Except ε (Option β × σ)}
  {s s' : σ} {b : β} {k : ℕ}

theorem IsScan.stable (hf : IsScan out turn f) (s : σ) : Stable out fun k => f k s := by
  intro k
  induction k generalizing s with
  | zero => exact fun hk => absurd (hf.zero s) hk
  | succ k ih =>
      intro hk
      dsimp only at hk ⊢
      cases hturn : turn s with
      | stop =>
          obtain ⟨e, -, heq⟩ | ⟨s', heq⟩ := hf.stop s hturn
          · rw [heq, heq]
          · rw [heq, heq]
      | skip s' =>
          rw [hf.skip s s' hturn] at hk ⊢
          exact (ih s' hk).trans (hf.skip s s' hturn k).symm
      | yield b s' => rw [hf.yields s b s' hturn, hf.yields s b s' hturn]

/-- A scan that fails, or comes to nothing, has met a turn that stops. -/
theorem IsScan.ends_of_none (hf : IsScan out turn f) (hk : f k s ≠ .error out)
    (hnone : ∀ b s', f k s ≠ .ok (some b, s')) : Ends turn hit s := by
  induction k generalizing s with
  | zero => exact absurd (hf.zero s) hk
  | succ k ih =>
      cases hturn : turn s with
      | stop => exact .stop hturn
      | skip s' =>
          rw [hf.skip s s' hturn] at hk hnone
          exact .skip hturn (ih hk hnone)
      | yield b s' => exact absurd (hf.yields s b s' hturn k) (hnone b s')

/-- What it yields is what matters then. -/
theorem IsScan.ends_of_some (hf : IsScan out turn f) (hk : f k s = .ok (some b, s'))
    (h : hit b ∨ Ends turn hit s') : Ends turn hit s := by
  induction k generalizing s with
  | zero => cases (hf.zero s).symm.trans hk
  | succ k ih =>
      cases hturn : turn s with
      | stop => exact .stop hturn
      | skip t =>
          rw [hf.skip s t hturn] at hk
          exact .skip hturn (ih hk)
      | yield c t =>
          rw [hf.yields s c t hturn] at hk
          cases hk
          exact h.elim (.hit hturn) (.next hturn)

theorem IsScan.hits_of_some {t : σ} {c : β} (hf : IsScan out turn f)
    (hk : f k s = .ok (some b, s'))
    (h : hit b ∧ c = b ∧ t = s' ∨ ¬ hit b ∧ Hits turn hit s' c t) : Hits turn hit s c t := by
  induction k generalizing s with
  | zero => cases (hf.zero s).symm.trans hk
  | succ k ih =>
      cases hturn : turn s with
      | stop =>
          obtain ⟨e, -, heq⟩ | ⟨s', heq⟩ := hf.stop s hturn
          · cases (heq k).symm.trans hk
          · cases (heq k).symm.trans hk
      | skip t =>
          rw [hf.skip s t hturn] at hk
          exact .skip hturn (ih hk)
      | yield d t =>
          rw [hf.yields s d t hturn] at hk
          cases hk
          rcases h with ⟨hb, rfl, rfl⟩ | ⟨hb, hrest⟩
          · exact .hit hturn hb
          · exact .next hturn hb hrest

variable [DecidablePred hit]

theorem search_fault {e : ε} (h : f (k + 1) s = .error e) :
    search out f hit (k + 1) s = .error e := by
  rw [search, h]
  rfl

theorem search_none (h : f (k + 1) s = .ok (none, s')) :
    search out f hit (k + 1) s = .ok (none, s') := by
  rw [search, h]
  rfl

theorem search_hit (h : f (k + 1) s = .ok (some b, s')) (hb : hit b) :
    search out f hit (k + 1) s = .ok (some b, s') := by
  rw [search, h]
  exact if_pos hb

theorem search_next (h : f (k + 1) s = .ok (some b, s')) (hb : ¬ hit b) :
    search out f hit (k + 1) s = search out f hit k s' := by
  rw [search, h]
  exact if_neg hb

/-- Enough fuel for the search is enough for each scan in it. -/
theorem IsScan.stable_search (hf : IsScan out turn f) (s : σ) :
    Stable out fun k => search out f hit k s := by
  intro k
  induction k generalizing s with
  | zero => exact fun hk => absurd rfl hk
  | succ k ih =>
      intro hk
      dsimp only at hk ⊢
      have hmore : f (k + 1) s ≠ .error out → f (k + 2) s = f (k + 1) s := hf.stable s (k + 1)
      cases hfk : f (k + 1) s with
      | error e =>
          rw [search_fault hfk] at hk ⊢
          rw [hfk] at hmore
          exact search_fault (hmore fun h => hk (congrArg Except.error (Except.error.inj h)))
      | ok r =>
          obtain ⟨b, s'⟩ := r
          have hsame := (hmore (hfk ▸ nofun)).trans hfk
          cases b with
          | none => rw [search_none hfk, search_none hsame]
          | some b =>
              by_cases hb : hit b
              · rw [search_hit hfk hb, search_hit hsame hb]
              · rw [search_next hfk hb] at hk ⊢
                rw [search_next hsame hb]
                exact ih s' hk

/-- A turn that passes on leaves the search as it is. -/
theorem IsScan.search_of_skip (hf : IsScan out turn f) (hturn : turn s = .skip s')
    (hk : search out f hit (k + 1) s' ≠ .error out) :
    search out f hit (k + 2) s = search out f hit (k + 1) s' := by
  have hskip : f (k + 2) s = f (k + 1) s' := hf.skip s s' hturn (k + 1)
  cases hfk : f (k + 1) s' with
  | error e => rw [search_fault hfk, search_fault (hskip.trans hfk)]
  | ok r =>
      obtain ⟨b, t⟩ := r
      cases b with
      | none => rw [search_none hfk, search_none (hskip.trans hfk)]
      | some b =>
          by_cases hb : hit b
          · rw [search_hit hfk hb, search_hit (hskip.trans hfk) hb]
          · rw [search_next hfk hb] at hk ⊢
            rw [search_next (hskip.trans hfk) hb]
            exact hf.stable_search t k hk

/-- **A search finishes** if the scan comes to a turn that stops, or to a hit. -/
theorem IsScan.finishes_search_iff (hf : IsScan out turn f) (s : σ) :
    Finishes out (fun k => search out f hit k s) ↔ Ends turn hit s := by
  constructor
  · rintro ⟨k, hk⟩
    dsimp only at hk
    induction k generalizing s with
    | zero => exact absurd rfl hk
    | succ k ih =>
        cases hfk : f (k + 1) s with
        | error e =>
            rw [search_fault hfk] at hk
            refine hf.ends_of_none (k := k + 1) ?_ ?_
            · rw [hfk]
              exact fun h => hk (congrArg Except.error (Except.error.inj h))
            · rw [hfk]
              nofun
        | ok r =>
            obtain ⟨b, t⟩ := r
            cases b with
            | none =>
                refine hf.ends_of_none (k := k + 1) ?_ ?_
                · rw [hfk]
                  nofun
                · rw [hfk]
                  nofun
            | some b =>
                by_cases hb : hit b
                · exact hf.ends_of_some hfk (Or.inl hb)
                · rw [search_next hfk hb] at hk
                  exact hf.ends_of_some hfk (Or.inr (ih t hk))
  · intro h
    induction h with
    | @stop s hturn =>
        obtain ⟨e, he, heq⟩ | ⟨s', heq⟩ := hf.stop s hturn
        · exact ⟨1, fun h => he (Except.error.inj ((search_fault (heq 0)).symm.trans h))⟩
        · exact ⟨1, fun h => nomatch (search_none (heq 0)).symm.trans h⟩
    | @skip s s' hturn _ ih =>
        obtain ⟨k, hk⟩ := ih
        have hsucc : search out f hit (k + 1) s' = search out f hit k s' :=
          hf.stable_search s' k hk
        refine ⟨k + 2, ?_⟩
        dsimp only at hk ⊢
        rw [hf.search_of_skip hturn (hsucc ▸ hk), hsucc]
        exact hk
    | hit hturn hb =>
        exact ⟨1, fun h => nomatch (search_hit (hf.yields _ _ _ hturn 0) hb).symm.trans h⟩
    | @next s s' b hturn _ ih =>
        obtain ⟨k, hk⟩ := ih
        by_cases hb : hit b
        · exact ⟨1, fun h => nomatch (search_hit (hf.yields _ _ _ hturn 0) hb).symm.trans h⟩
        · exact ⟨k + 1, fun h => hk ((search_next (hf.yields _ _ _ hturn k) hb).symm.trans h)⟩

/-- **What a search finds** is the first hit. -/
theorem IsScan.search_eq_ok_iff (hf : IsScan out turn f) (s : σ) (b : β) (t : σ) :
    (∃ k, search out f hit k s = .ok (some b, t)) ↔ Hits turn hit s b t := by
  constructor
  · rintro ⟨k, hk⟩
    induction k generalizing s with
    | zero => cases hk
    | succ k ih =>
        cases hfk : f (k + 1) s with
        | error e => cases (search_fault hfk).symm.trans hk
        | ok r =>
            obtain ⟨c, s'⟩ := r
            cases c with
            | none => cases (search_none hfk).symm.trans hk
            | some c =>
                by_cases hc : hit c
                · cases (search_hit hfk hc).symm.trans hk
                  exact hf.hits_of_some hfk (Or.inl ⟨hc, rfl, rfl⟩)
                · rw [search_next hfk hc] at hk
                  exact hf.hits_of_some hfk (Or.inr ⟨hc, ih s' hk⟩)
  · intro h
    induction h with
    | hit hturn hb => exact ⟨1, search_hit (hf.yields _ _ _ hturn 0) hb⟩
    | @skip s s' t b hturn _ ih =>
        obtain ⟨k, hk⟩ := ih
        have hne : search out f hit k s' ≠ .error out := hk ▸ nofun
        have hsucc : search out f hit (k + 1) s' = search out f hit k s' :=
          hf.stable_search s' k hne
        exact ⟨k + 2, (hf.search_of_skip hturn (hsucc ▸ hne)).trans (hsucc.trans hk)⟩
    | next hturn hc _ ih =>
        obtain ⟨k, hk⟩ := ih
        exact ⟨k + 1, (search_next (hf.yields _ _ _ hturn k) hc).trans hk⟩

end

end Fuel
