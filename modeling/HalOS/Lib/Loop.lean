import Mathlib.Data.Nat.Basic
import Mathlib.Tactic.Common

/-!
# Counting Loops over a State

C loops of the form `for (i = a; i < a + n; i++)` whose test may touch the state. `search`
returns at the first index that passes, `holds` breaks at the first index that fails, and
`scanRun` is the running count that looks for `want` passing indices in a row.

A test is often transparent: on the indices the loop visits it answers a fixed predicate
and hands the state back as it was. The `_of_pure` lemmas turn such a loop into the
predicate's list operation or into `scan`, the same running count without a state, and the
`scan_` lemmas say what the running count finds. `scan` may be started with a count
already running, which is how a second pass continues a first one.

## Main results

* `search_of_pure`, `holds_of_pure`, `scanRun_of_pure`: transparent tests.
* `scan_found`: a hit is a full run inside the pass, or the run carried into it.
* `scan_found_of_carry`: a carried run that goes on long enough is a hit.
* `scan_more`: a miss leaves the length of the trailing run, and there was no full run.
-/

namespace Loop

universe u

variable {σ : Type u}

/-- `for (i = a; i < a + n; i++) if (test(i)) return i;` -/
def search (test : σ → ℕ → Bool × σ) : ℕ → ℕ → σ → Option ℕ × σ
  | 0, _, s => (none, s)
  | n + 1, a, s =>
      match test s a with
      | (true, s') => (some a, s')
      | (false, s') => search test n (a + 1) s'

/-- `for (i = a; i < a + n; i++) if (!test(i)) break;`, and whether the loop ran to its
end. -/
def holds (test : σ → ℕ → Bool × σ) : ℕ → ℕ → σ → Bool × σ
  | 0, _, s => (true, s)
  | n + 1, a, s =>
      match test s a with
      | (true, s') => holds test n (a + 1) s'
      | (false, s') => (false, s')

/-- The outcome of a running count: a full run found, or the run still open at the end of
the pass (its length and where it began). -/
inductive Scan
  | found (start : ℕ)
  | more (count start : ℕ)
deriving DecidableEq, Repr

/-- One pass of a running count over `a, …, a + n - 1`: an index that passes extends the
count (the first one is remembered as the start), any other resets it, and the pass ends
when the count reaches `want`. -/
def scanRun (test : σ → ℕ → Bool × σ) (want : ℕ) : ℕ → ℕ → ℕ → ℕ → σ → Scan × σ
  | 0, _, count, start, s => (.more count start, s)
  | n + 1, a, count, start, s =>
      match test s a with
      | (true, s') =>
          let start := if count = 0 then a else start
          if count + 1 = want then (.found start, s')
          else scanRun test want n (a + 1) (count + 1) start s'
      | (false, s') => scanRun test want n (a + 1) 0 start s'

/-- `scanRun` for a test that neither reads nor writes a state. -/
def scan (p : ℕ → Bool) (want : ℕ) : ℕ → ℕ → ℕ → ℕ → Scan
  | 0, _, count, start => .more count start
  | n + 1, a, count, start =>
      if p a then
        let start := if count = 0 then a else start
        if count + 1 = want then .found start
        else scan p want n (a + 1) (count + 1) start
      else scan p want n (a + 1) 0 start

/-! ### Transparent tests -/

section Pure

variable {test : σ → ℕ → Bool × σ} {p : ℕ → Bool} {s : σ}

theorem search_of_pure {n a : ℕ} (h : ∀ i, a ≤ i → i < a + n → test s i = (p i, s)) :
    search test n a s = ((List.range' a n).find? p, s) := by
  induction n generalizing a with
  | zero => rfl
  | succ n ih =>
      have hrest := ih (a := a + 1) fun i hi hlt => h i (by omega) (by omega)
      rw [search, h a le_rfl (by omega), List.range'_succ, List.find?_cons]
      cases hp : p a with
      | true => rfl
      | false => exact hrest

theorem holds_of_pure {n a : ℕ} (h : ∀ i, a ≤ i → i < a + n → test s i = (p i, s)) :
    holds test n a s = ((List.range' a n).all p, s) := by
  induction n generalizing a with
  | zero => rfl
  | succ n ih =>
      have hrest := ih (a := a + 1) fun i hi hlt => h i (by omega) (by omega)
      rw [holds, h a le_rfl (by omega), List.range'_succ, List.all_cons]
      cases hp : p a with
      | true => exact hrest
      | false => rfl

theorem scanRun_of_pure {want n a count start : ℕ}
    (h : ∀ i, a ≤ i → i < a + n → test s i = (p i, s)) :
    scanRun test want n a count start s = (scan p want n a count start, s) := by
  induction n generalizing a count start with
  | zero => rfl
  | succ n ih =>
      have hrest : ∀ c st, scanRun test want n (a + 1) c st s = (scan p want n (a + 1) c st, s) :=
        fun c st => ih fun i hi hlt => h i (by omega) (by omega)
      rw [scanRun, h a le_rfl (by omega), scan]
      cases hp : p a with
      | false => exact hrest 0 start
      | true =>
          by_cases hc : count + 1 = want
          · simp [hc]
          · simp only [hc, if_true, if_false]
            exact hrest _ _

end Pure

/-! ### What the running count finds -/

section Scan

variable {p : ℕ → Bool} {want : ℕ}

/-- A run of `want` indices from `r` on, all passing. -/
def IsRun (p : ℕ → Bool) (want r : ℕ) : Prop := ∀ i < want, p (r + i) = true

/-- A carried run that goes on for as long as it is short of `want` is found at its
remembered start. -/
theorem scan_found_of_carry {n a count start : ℕ} (hpos : 0 < count) (hlt : count < want)
    (hn : want - count ≤ n) (hp : IsRun p (want - count) a) :
    scan p want n a count start = .found start := by
  induction n generalizing a count with
  | zero => omega
  | succ n ih =>
      have h0 : p a = true := hp 0 (by omega)
      rw [scan, if_pos h0, if_neg (by omega : ¬ count = 0)]
      by_cases hc : count + 1 = want
      · rw [if_pos hc]
      · rw [if_neg hc]
        refine ih (by omega) (by omega) (by omega) fun i hi => ?_
        have := hp (i + 1) (by omega)
        rwa [← Nat.add_assoc, Nat.add_right_comm] at this

/-- A run at the start of a pass is found there. -/
theorem scan_found_of_isRun {n a start : ℕ} (hpos : 0 < want) (hn : want ≤ n)
    (hp : IsRun p want a) : scan p want n a 0 start = .found a := by
  obtain ⟨n, rfl⟩ := Nat.exists_eq_add_of_le' (Nat.lt_of_lt_of_le hpos hn)
  have h0 : p a = true := hp 0 hpos
  rw [scan, if_pos h0]
  by_cases hone : 0 + 1 = want
  · simp only [hone, if_true]
  · simp only [hone, if_false, if_true]
    refine scan_found_of_carry (by omega) (by omega) (by omega) fun i hi => ?_
    have := hp (i + 1) (by omega)
    rwa [← Nat.add_assoc, Nat.add_right_comm] at this

/-- A pass that has a run at its start finds no other. -/
theorem start_eq_of_scan_found {n a start r : ℕ} (hpos : 0 < want) (hn : want ≤ n)
    (h : scan p want n a 0 start = .found r) (hp : IsRun p want a) : r = a := by
  rw [scan_found_of_isRun hpos hn hp] at h
  injection h with hstart
  exact hstart.symm

/-- A hit is a run of `want` indices inside the pass, or the completion of the run that
was carried into it. -/
theorem scan_found {n a count start r : ℕ} (hlt : count < want)
    (h : scan p want n a count start = .found r) :
    (r = start ∧ 0 < count ∧ want - count ≤ n ∧ IsRun p (want - count) a) ∨
      (a ≤ r ∧ r + want ≤ a + n ∧ IsRun p want r) := by
  induction n generalizing a count start with
  | zero => simp [scan] at h
  | succ n ih =>
      rw [scan] at h
      by_cases h0 : p a = true
      · rw [if_pos h0] at h
        -- a run of `k` from `a + 1` on is, with `a` itself, a run of `k + 1` from `a` on
        have hcons : ∀ k, IsRun p k (a + 1) → IsRun p (k + 1) a := by
          intro k hk i hi
          rcases i with _ | i
          · exact h0
          · have := hk i (by omega)
            rwa [Nat.add_right_comm, Nat.add_assoc] at this
        by_cases hc : count + 1 = want
        · simp only [hc, if_true] at h
          injection h with h
          have hrun : IsRun p 1 a := hcons 0 fun i hi => absurd hi (by omega)
          rcases Nat.eq_zero_or_pos count with rfl | hpos
          · right
            obtain rfl : a = r := by simpa using h
            obtain rfl : want = 1 := by omega
            exact ⟨le_rfl, by omega, hrun⟩
          · left
            rw [if_neg (by omega)] at h
            refine ⟨h.symm, hpos, by omega, ?_⟩
            obtain rfl : want = count + 1 := hc.symm
            simpa using hrun
        · simp only [hc, if_false] at h
          rcases ih (by omega) h with ⟨hr, -, hn, hrun⟩ | ⟨hr, hn, hrun⟩
          · have hk := hcons _ hrun
            have hlen : want - (count + 1) + 1 = want - count := by omega
            rw [hlen] at hk
            rcases Nat.eq_zero_or_pos count with rfl | hpos
            · right
              obtain rfl : r = a := by simpa using hr
              exact ⟨le_rfl, by omega, by simpa using hk⟩
            · left
              rw [if_neg (by omega)] at hr
              exact ⟨hr, hpos, by omega, hk⟩
          · exact Or.inr ⟨by omega, by omega, hrun⟩
      · rw [if_neg h0] at h
        rcases ih (by omega) h with ⟨-, hpos, -, -⟩ | ⟨hr, hn, hrun⟩
        · omega
        · exact Or.inr ⟨by omega, by omega, hrun⟩

/-- A hit is no later than any run the pass comes to, and no later than a run that is being
carried. -/
theorem scan_found_le {n a count start st r : ℕ} (hlt : count < want)
    (h : scan p want n a count start = .found st)
    (hr : a ≤ r ∧ (0 < count → start ≤ a) ∧ IsRun p want r ∨
      0 < count ∧ start ≤ r ∧ IsRun p (want - count) a) : st ≤ r := by
  induction n generalizing a count start with
  | zero => simp [scan] at h
  | succ n ih =>
      rw [scan] at h
      by_cases h0 : p a = true
      · have hstart : (if count = 0 then a else start) ≤ r := by
          rcases hr with ⟨har, hbefore, -⟩ | ⟨hpos, hstart, -⟩
          · split_ifs with hc
            · exact har
            · exact Nat.le_trans (hbefore (Nat.pos_of_ne_zero hc)) har
          · rwa [if_neg (Nat.pos_iff_ne_zero.mp hpos)]
        rw [if_pos h0] at h
        by_cases hc : count + 1 = want
        · simp only [hc, if_true, Scan.found.injEq] at h
          exact h ▸ hstart
        · simp only [hc, if_false] at h
          refine ih (by omega) h ?_
          rcases hr with ⟨har, hbefore, hrun⟩ | ⟨hpos, -, hrun⟩
          · rcases Nat.eq_or_lt_of_le har with rfl | har
            · -- the run begins here and is carried from now on
              refine Or.inr ⟨by omega, hstart, fun i hi => ?_⟩
              have := hrun (i + 1) (by omega)
              rwa [← Nat.add_assoc, Nat.add_right_comm] at this
            · refine Or.inl ⟨har, fun _ => ?_, hrun⟩
              split_ifs with hc0
              · omega
              · have := hbefore (Nat.pos_of_ne_zero hc0)
                omega
          · refine Or.inr ⟨by omega, hstart, fun i hi => ?_⟩
            have := hrun (i + 1) (by omega)
            rwa [← Nat.add_assoc, Nat.add_right_comm] at this
      · rw [if_neg h0] at h
        refine ih (by omega) h (Or.inl ?_)
        rcases hr with ⟨har, -, hrun⟩ | ⟨-, -, hrun⟩
        · have hne : a ≠ r := by
            rintro rfl
            exact h0 (hrun 0 (by omega))
          exact ⟨by omega, by omega, hrun⟩
        · exact absurd (hrun 0 (by omega)) h0

/-- A pass that ends with its run still open saw no run of `want` indices. -/
theorem not_isRun_of_scan_more {n a count start c st r : ℕ} (hlt : count < want)
    (h : scan p want n a count start = .more c st) (hr : a ≤ r) (hn : r + want ≤ a + n) :
    ¬ IsRun p want r := by
  induction n generalizing a count start with
  | zero => omega
  | succ n ih =>
      intro hrun
      rw [scan] at h
      by_cases h0 : p a = true
      · rw [if_pos h0] at h
        by_cases hc : count + 1 = want
        · simp [hc] at h
        · simp only [hc, if_false] at h
          rcases Nat.eq_or_lt_of_le hr with rfl | hr
          · -- the run starts here, so the rest of it would have completed the count
            have hfound : scan p want n (a + 1) (count + 1) (if count = 0 then a else start)
                = .found (if count = 0 then a else start) := by
              refine scan_found_of_carry (by omega) (by omega) (by omega) fun i hi => ?_
              have := hrun (i + 1) (by omega)
              rwa [← Nat.add_assoc, Nat.add_right_comm] at this
            rw [hfound] at h
            cases h
          · exact ih (by omega) h (by omega) (by omega) hrun
      · rw [if_neg h0] at h
        rcases Nat.eq_or_lt_of_le hr with rfl | hr
        · exact h0 (hrun 0 (by omega))
        · exact ih (by omega) h (by omega) (by omega) hrun

/-- A pass that ends with its run still open reports the trailing run: either everything
it saw passed and the carried count grew by all of it, or the run began inside the pass,
right after an index that failed. -/
theorem scan_more {n a count start c st : ℕ} (hlt : count < want)
    (h : scan p want n a count start = .more c st) :
    c < want ∧
      ((c = count + n ∧ IsRun p n a ∧ st = if count = 0 ∧ 0 < n then a else start) ∨
        (c < n ∧ IsRun p c (a + n - c) ∧ p (a + n - c - 1) = false ∧
          (0 < c → st = a + n - c))) := by
  induction n generalizing a count start with
  | zero =>
      simp only [scan, Scan.more.injEq] at h
      obtain ⟨rfl, rfl⟩ := h
      exact ⟨hlt, Or.inl ⟨rfl, fun i hi => absurd hi (by omega), by simp⟩⟩
  | succ n ih =>
      rw [scan] at h
      by_cases h0 : p a = true
      · rw [if_pos h0] at h
        by_cases hc : count + 1 = want
        · simp [hc] at h
        · simp only [hc, if_false] at h
          obtain ⟨hcw, ⟨rfl, hrun, hst⟩ | ⟨hcn, hrun, hbreak, hst⟩⟩ := ih (by omega) h
          · refine ⟨hcw, Or.inl ⟨by omega, ?_, ?_⟩⟩
            · intro i hi
              rcases i with _ | i
              · exact h0
              · have := hrun i (by omega)
                rwa [Nat.add_right_comm, Nat.add_assoc] at this
            · simpa using hst
          · have hend : a + 1 + n = a + (n + 1) := by omega
            rw [hend] at hrun hbreak hst
            exact ⟨hcw, Or.inr ⟨by omega, hrun, hbreak, hst⟩⟩
      · rw [if_neg h0] at h
        have hend : a + 1 + n = a + (n + 1) := by omega
        obtain ⟨hcw, ⟨rfl, hrun, hst⟩ | ⟨hcn, hrun, hbreak, hst⟩⟩ := ih (by omega) h
        · refine ⟨hcw, Or.inr ⟨by omega, ?_, ?_, ?_⟩⟩
          · have : a + (n + 1) - (0 + n) = a + 1 := by omega
            rw [this, Nat.zero_add]
            exact hrun
          · have : a + (n + 1) - (0 + n) - 1 = a := by omega
            rw [this]
            simpa using h0
          · intro hpos
            rw [hst, if_pos ⟨rfl, by omega⟩]
            omega
        · rw [hend] at hrun hbreak hst
          exact ⟨hcw, Or.inr ⟨by omega, hrun, hbreak, hst⟩⟩

end Scan

end Loop
