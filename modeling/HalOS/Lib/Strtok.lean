import HalOS.Lib.CString
import Mathlib.Data.List.TakeWhile

/-!
# Tokens

`tokens p l` are the runs of elements of a list that do not meet `p`, and `runs p k l` are these
with their places. `strtok` finds those of a string one by one: it keeps a pointer to what is left,
and ends each token with a zero.

## Main results

* `mem_runs_iff`, `pairwise_runs`: the runs are the longest ones, in their order.
* `runs_eq`, `tokens_eq`: the first token and those behind it.
* `HoldsString.strtok_none`, `HoldsString.strtok_some`: what a call of `strtok` does.
* `Strtok.Pending.nil`, `Strtok.Pending.cons`: a call of `strtok` finds the next token, if any.
-/

namespace CString

/-! ### Runs -/

section Runs

universe u

variable {α : Type u} (p : α → Bool)

/-- The longest runs of elements that do not meet `p`. -/
def tokens (l : List α) : List (List α) := (l.splitOnP p).filter fun piece => !piece.isEmpty

/-- Pieces of a list, each with its place; there is one element between two of them. -/
def placed : ℕ → List (List α) → List (ℕ × List α)
  | _, [] => []
  | k, piece :: pieces => (k, piece) :: placed (k + piece.length + 1) pieces

/-- The longest runs of elements that do not meet `p`, with their places from `k` on. -/
def runs (k : ℕ) (l : List α) : List (ℕ × List α) :=
  (placed k (l.splitOnP p)).filter fun run => !run.2.isEmpty

variable {p}

/-- A list is of the others alone, or there is a first element that meets `p`. -/
theorem separator_induction {motive : List α → Prop}
    (last : ∀ t, (∀ a ∈ t, p a = false) → motive t)
    (separator : ∀ t d l, (∀ a ∈ t, p a = false) → p d = true → motive l → motive (t ++ d :: l))
    (l : List α) : motive l := by
  induction hn : l.length using Nat.strong_induction_on generalizing l with
  | h n ih =>
      subst hn
      have hfirst : ∀ a ∈ l.takeWhile (fun a => !p a), p a = false := by
        intro a ha
        simpa using List.mem_takeWhile_imp ha
      have hsplit := List.takeWhile_append_dropWhile (p := fun a => !p a) (l := l)
      cases hrest : l.dropWhile (fun a => !p a) with
      | nil =>
          rw [hrest, List.append_nil] at hsplit
          exact last l (by rwa [hsplit] at hfirst)
      | cons d back =>
          have hd := List.head_dropWhile_not (fun a => !p a) (l := l)
            (by rw [hrest]; exact List.cons_ne_nil _ _)
          simp only [hrest, List.head_cons] at hd
          rw [hrest] at hsplit
          have hlength := congrArg List.length hsplit
          rw [List.length_append, List.length_cons] at hlength
          rw [← hsplit]
          exact separator _ d back hfirst (by simpa using hd) (ih _ (by omega) back rfl)

theorem map_snd_placed (k : ℕ) (pieces : List (List α)) :
    (placed k pieces).map Prod.snd = pieces := by
  induction pieces generalizing k with
  | nil => rfl
  | cons piece pieces ih => rw [placed, List.map_cons, ih]

theorem map_snd_runs (k : ℕ) (l : List α) : (runs p k l).map Prod.snd = tokens p l := by
  rw [tokens, ← map_snd_placed k (l.splitOnP p), List.filter_map, runs]
  rfl

theorem runs_of_forall {k : ℕ} {t : List α} (ht : ∀ a ∈ t, p a = false) :
    runs p k t = if t = [] then [] else [(k, t)] := by
  rw [runs, List.splitOnP_eq_singleton ht, placed, placed, List.filter_singleton]
  cases t with
  | nil => rfl
  | cons a t => rfl

theorem runs_append_cons_of_forall {t : List α} (ht : ∀ a ∈ t, p a = false) {d : α}
    (hd : p d = true) (k : ℕ) (l : List α) :
    runs p k (t ++ d :: l) = runs p k t ++ runs p (k + t.length + 1) l := by
  rw [runs, List.splitOnP_append_cons_of_forall_mem ht d hd, placed, runs,
    List.splitOnP_eq_singleton ht, placed, placed, ← List.singleton_append, List.filter_append]
  rfl

/-- The runs in front of an element that meets `p`, and those behind it. -/
theorem runs_append_cons {d : α} (hd : p d = true) (k : ℕ) (xs l : List α) :
    runs p k (xs ++ d :: l) = runs p k xs ++ runs p (k + xs.length + 1) l := by
  induction xs using separator_induction (p := p) generalizing k with
  | last t ht => exact runs_append_cons_of_forall ht hd k l
  | separator t e back ht he ih =>
      have hplace : k + t.length + 1 + back.length + 1 = k + (t ++ e :: back).length + 1 := by
        rw [List.length_append, List.length_cons]
        omega
      rw [List.append_assoc, List.cons_append, runs_append_cons_of_forall ht he, ih,
        runs_append_cons_of_forall ht he, List.append_assoc, hplace]

/-- A run of elements that do not meet `p`, with its place from `k` on, that is not part of a
longer one. -/
def MaximalRun (p : α → Bool) (k : ℕ) (l : List α) (i : ℕ) (run : List α) : Prop :=
  ∃ before after, l = before ++ (run ++ after) ∧ i = k + before.length ∧ run ≠ [] ∧
    (∀ a ∈ run, p a = false) ∧ (∀ d ∈ before.getLast?, p d = true) ∧
      ∀ d ∈ after.head?, p d = true

theorem MaximalRun.behind {k i : ℕ} {l run : List α} (t : List α) {d : α} (hd : p d = true)
    (h : MaximalRun p (k + t.length + 1) l i run) : MaximalRun p k (t ++ d :: l) i run := by
  obtain ⟨before, after, rfl, rfl, hne, hrun, hbefore, hafter⟩ := h
  refine ⟨t ++ d :: before, after, by simp, ?_, hne, hrun, ?_, hafter⟩
  · rw [List.length_append, List.length_cons]
    omega
  · intro e he
    cases before with
    | nil => 
        obtain rfl : d = e := by simpa using he
        exact hd
    | cons first before => exact hbefore e (by simpa using he)

/-- **The runs** are the longest ones. -/
theorem mem_runs_iff {k i : ℕ} {l run : List α} :
    (i, run) ∈ runs p k l ↔ MaximalRun p k l i run := by
  constructor
  · intro h
    induction l using separator_induction (p := p) generalizing k with
    | last t ht =>
        rw [runs_of_forall ht] at h
        split_ifs at h with hne
        · cases h
        · obtain ⟨rfl, rfl⟩ := Prod.mk.inj (List.mem_singleton.mp h)
          exact ⟨[], [], by simp, rfl, hne, ht, by simp, by simp⟩
    | separator t d back ht hd ih =>
        rw [runs_append_cons hd, runs_of_forall ht] at h
        rcases List.mem_append.mp h with h | h
        · split_ifs at h with hne
          · cases h
          · obtain ⟨rfl, rfl⟩ := Prod.mk.inj (List.mem_singleton.mp h)
            exact ⟨[], d :: back, by simp, rfl, hne, ht, by simp, by simpa using hd⟩
        · exact (ih h).behind t hd
  · rintro ⟨before, after, rfl, rfl, hne, hrun, hbefore, hafter⟩
    -- what lies behind the run does not change it
    have hfirst (j : ℕ) : (j, run) ∈ runs p j (run ++ after) := by
      have hsingle : runs p j run = [(j, run)] := by rw [runs_of_forall hrun, if_neg hne]
      cases after with
      | nil => simp [hsingle]
      | cons d after =>
          have hd : p d = true := by simpa using hafter
          rw [runs_append_cons hd, hsingle]
          exact List.mem_cons_self
    rcases List.eq_nil_or_concat' before with rfl | ⟨front, d, rfl⟩
    · exact hfirst k
    · have hd : p d = true := by simpa using hbefore
      rw [List.length_append, List.length_singleton, List.append_assoc, List.singleton_append,
        runs_append_cons hd, ← Nat.add_assoc]
      exact List.mem_append_right _ (hfirst _)

/-- One run ends in front of the next. -/
theorem pairwise_runs (k : ℕ) (l : List α) :
    (runs p k l).Pairwise fun first second => first.1 + first.2.length < second.1 := by
  induction l using separator_induction (p := p) generalizing k with
  | last t ht =>
      rw [runs_of_forall ht]
      split_ifs <;> simp
  | separator t d back ht hd ih =>
      rw [runs_append_cons hd, runs_of_forall ht]
      refine List.pairwise_append.mpr ⟨by split_ifs <;> simp, ih _, ?_⟩
      intro first hfirst second hsecond
      obtain ⟨_, _, -, hplace, -⟩ := mem_runs_iff.mp hsecond
      split_ifs at hfirst with hne
      · cases hfirst
      · rw [List.mem_singleton.mp hfirst]
        dsimp only
        omega

/-- What stands before the first run does not count. -/
theorem runs_dropWhile (k : ℕ) (l : List α) :
    runs p (k + (l.takeWhile p).length) (l.dropWhile p) = runs p k l := by
  induction l generalizing k with
  | nil => rfl
  | cons a l ih =>
      by_cases h : p a = true
      · have hplace : k + ((l.takeWhile p).length + 1) = k + 1 + (l.takeWhile p).length := by omega
        have hfirst := runs_append_cons h k [] l
        rw [List.takeWhile_cons_of_pos h, List.dropWhile_cons_of_pos h, List.length_cons, hplace,
          ih]
        exact hfirst.symm
      · rw [List.takeWhile_cons_of_neg h, List.dropWhile_cons_of_neg h]
        rfl

/-- The first run, and those behind the element that ends it. -/
theorem runs_eq {l : List α} (h : l.dropWhile p ≠ []) (k : ℕ) :
    runs p k l = (k + (l.takeWhile p).length, (l.dropWhile p).takeWhile fun a => !p a) ::
      runs p (k + (l.takeWhile p).length + ((l.dropWhile p).takeWhile fun a => !p a).length + 1)
        (((l.dropWhile p).dropWhile fun a => !p a).drop 1) ∧
    (l.dropWhile p).takeWhile (fun a => !p a) ≠ [] ∧
      ∀ a ∈ (l.dropWhile p).takeWhile (fun a => !p a), p a = false := by
  have hfirst : ∀ a ∈ (l.dropWhile p).takeWhile (fun a => !p a), p a = false := fun a ha => by
    simpa using List.mem_takeWhile_imp ha
  have hne : (l.dropWhile p).takeWhile (fun a => !p a) ≠ [] := by
    have hhead := List.head_dropWhile_not p h
    cases hl : l.dropWhile p with
    | nil => exact absurd hl h
    | cons a back =>
        simp only [hl, List.head_cons] at hhead
        rw [List.takeWhile_cons_of_pos (by simpa using hhead)]
        exact List.cons_ne_nil _ _
  refine ⟨?_, hne, hfirst⟩
  have hsplit : (l.dropWhile p).takeWhile (fun a => !p a) ++
      (l.dropWhile p).dropWhile (fun a => !p a) = l.dropWhile p :=
    List.takeWhile_append_dropWhile
  rw [← runs_dropWhile]
  cases hback : (l.dropWhile p).dropWhile (fun a => !p a) with
  | nil =>
      rw [hback, List.append_nil] at hsplit
      rw [hsplit, runs_of_forall (hsplit ▸ hfirst), if_neg h, List.drop_nil,
        runs_of_forall (List.forall_mem_nil _), if_pos rfl]
  | cons d back =>
      have hd := List.head_dropWhile_not (fun a => !p a) (l := l.dropWhile p)
        (by rw [hback]; exact List.cons_ne_nil _ _)
      simp only [hback, List.head_cons] at hd
      rw [hback] at hsplit
      conv_lhs => rw [← hsplit]
      rw [runs_append_cons (by simpa using hd), runs_of_forall hfirst, if_neg hne]
      rfl

theorem runs_eq_nil {l : List α} (h : l.dropWhile p = []) (k : ℕ) : runs p k l = [] := by
  rw [← runs_dropWhile, h]
  rfl

/-! #### Without the places -/

@[simp] theorem tokens_nil : tokens p [] = [] := rfl

theorem tokens_eq_nil {l : List α} (h : l.dropWhile p = []) : tokens p l = [] := by
  rw [← map_snd_runs 0, runs_eq_nil h, List.map_nil]

/-- The first token, and those behind the element that ends it. -/
theorem tokens_eq {l : List α} (h : l.dropWhile p ≠ []) :
    tokens p l = (l.dropWhile p).takeWhile (fun a => !p a) ::
      tokens p (((l.dropWhile p).dropWhile fun a => !p a).drop 1) ∧
    (l.dropWhile p).takeWhile (fun a => !p a) ≠ [] ∧
      ∀ a ∈ (l.dropWhile p).takeWhile (fun a => !p a), p a = false := by
  obtain ⟨heq, hrest⟩ := runs_eq h 0
  refine ⟨?_, hrest⟩
  rw [← map_snd_runs 0, heq, List.map_cons, map_snd_runs]

/-- There is something between two tokens. -/
theorem two_mul_length_tokens_le (l : List α) : 2 * (tokens p l).length ≤ l.length + 1 := by
  rw [← map_snd_runs 0, List.length_map]
  generalize 0 = k
  induction l using separator_induction (p := p) generalizing k with
  | last t ht =>
      rw [runs_of_forall ht]
      split_ifs with hne
      · exact Nat.zero_le _
      · have hpos := List.length_pos_iff.mpr hne
        rw [List.length_singleton]
        omega
  | separator t d back ht hd ih =>
      have hback := ih (k + t.length + 1)
      rw [runs_append_cons hd, runs_of_forall ht, List.length_append, List.length_append,
        List.length_cons]
      split_ifs with hne
      · rw [List.length_nil]
        omega
      · have hpos := List.length_pos_iff.mpr hne
        rw [List.length_singleton]
        omega

/-- The pieces between the elements that meet `p` are of the others. -/
theorem mem_of_mem_splitOnP {l t : List α} (h : t ∈ l.splitOnP p) :
    ∀ a ∈ t, a ∈ l ∧ p a = false := by
  induction l generalizing t with
  | nil =>
      obtain rfl := List.mem_singleton.mp h
      exact List.forall_mem_nil _
  | cons x l ih =>
      have hback (piece : List α) (hpiece : piece ∈ l.splitOnP p) :
          ∀ a ∈ piece, a ∈ x :: l ∧ p a = false := fun a ha =>
        ⟨List.mem_cons_of_mem x (ih hpiece a ha).1, (ih hpiece a ha).2⟩
      rw [List.splitOnP_cons_eq_if_modifyHead] at h
      split_ifs at h with hx
      · rcases List.mem_cons.mp h with rfl | h
        · exact List.forall_mem_nil _
        · exact hback t h
      · obtain ⟨first, pieces, hsplit⟩ :=
          List.exists_cons_of_ne_nil (List.splitOnP_ne_nil p l)
        rw [hsplit, List.modifyHead_cons] at h
        rcases List.mem_cons.mp h with rfl | h
        · exact List.forall_mem_cons.mpr ⟨⟨List.mem_cons_self, by simpa using hx⟩,
            hback first (by rw [hsplit]; exact List.mem_cons_self)⟩
        · exact hback t (by rw [hsplit]; exact List.mem_cons_of_mem first h)

theorem splitOnP_congr {q : α → Bool} {l : List α} (h : ∀ a ∈ l, p a = q a) :
    l.splitOnP p = l.splitOnP q := by
  induction l with
  | nil => rfl
  | cons x l ih =>
      rw [List.splitOnP_cons_eq_if_modifyHead, List.splitOnP_cons_eq_if_modifyHead,
        h x List.mem_cons_self, ih fun a ha => h a (List.mem_cons_of_mem x ha)]

theorem runs_congr {q : α → Bool} {l : List α} (h : ∀ a ∈ l, p a = q a) (k : ℕ) :
    runs p k l = runs q k l := by
  rw [runs, splitOnP_congr h, runs]

theorem ne_nil_of_mem_tokens {l t : List α} (h : t ∈ tokens p l) : t ≠ [] := by
  simpa using (List.mem_filter.mp h).2

end Runs

/-! ### One after the other -/

/-- `strchr`. -/
def strchr : List UInt8 → UInt8 → Option ℕ
  | [], c => if c = 0 then some 0 else none
  | d :: s, c => if d = c then some 0 else (strchr s c).map (· + 1)

/-- `strchr(delim, c)` as a condition. -/
def isDelim (delim : List UInt8) (c : UInt8) : Bool := (strchr delim c).isSome

/-- The memory with the variable `last`. -/
structure Strtok where
  memory : Memory
  last : Option ℕ

/-- The two loops of `strtok`, with `n` bytes of the buffer left from offset `i` on. -/
def scan (m : Memory) (inside : UInt8 → Bool) : ℕ → ℕ → Option ℕ
  | 0, _ => none
  | n + 1, i => if m i ≠ 0 ∧ inside (m i) = true then scan m inside n (i + 1) else some i

/-- The end of `strtok`. -/
def Strtok.endToken (s : Strtok) (stop : ℕ) : Strtok :=
  if s.memory stop = 0 then { s with last := none }
  else ⟨Function.update s.memory stop 0, some (stop + 1)⟩

/-- `strtok` in a buffer of `size` bytes; nothing is returned if it reads behind them. -/
def strtok (s : Strtok) (size : ℕ) (str : Option ℕ) (delim : List UInt8) :
    Option (Option ℕ × Strtok) :=
  match str.or s.last with
  | none => some (none, s)
  | some first => do
      let start ← scan s.memory (isDelim delim) (size - first) first
      if s.memory start = 0 then some (none, { s with last := some start })
      else do
        let stop ← scan s.memory (fun c => !isDelim delim c) (size - start) start
        some (some start, s.endToken stop)

/-- A loop stops at the first character that is not inside, or at the end of the string. -/
theorem HoldsString.scan_eq {m : Memory} {i n : ℕ} {s : List UInt8} (h : HoldsString m i s)
    (hn : s.length < n) (inside : UInt8 → Bool) :
    scan m inside n i = some (i + (s.takeWhile inside).length) := by
  induction n generalizing i s with
  | zero => cases hn
  | succ n ih =>
      rw [scan]
      cases s with
      | nil =>
          have hend : m i = 0 := h.terminator
          rw [if_neg fun hin => hin.1 hend]
          rfl
      | cons c s =>
          have hc : m i = c := h.byte 0 (Nat.succ_pos _)
          have hne : c ≠ 0 := h.ne_zero c List.mem_cons_self
          rw [hc, List.takeWhile_cons]
          by_cases hin : inside c = true
          · have hback : HoldsString m (i + 1) s := HoldsString.right (s := [c]) h
            rw [if_pos ⟨hne, hin⟩, if_pos hin, ih hback (Nat.lt_of_succ_lt_succ hn),
              List.length_cons, Nat.add_assoc, Nat.add_comm 1]
          · rw [if_neg fun hboth => hin hboth.2, if_neg hin]
            rfl

/-- What there is at the end of a part of a string. -/
theorem HoldsString.byte_right {m : Memory} {i : ℕ} {s t : List UInt8}
    (h : HoldsString m i (s ++ t)) : m (i + s.length) = 0 ↔ t = [] := by
  have hright := h.right
  cases t with
  | nil => exact iff_of_true hright.terminator rfl
  | cons c t =>
      have hc : m (i + s.length) = c := hright.byte 0 (Nat.succ_pos _)
      rw [hc]
      exact iff_of_false (hright.ne_zero c List.mem_cons_self) (List.cons_ne_nil c t)

/-- What is left of a text behind its first token and the character that ends it. -/
def behindToken (delim text : List UInt8) : List UInt8 :=
  ((text.dropWhile (isDelim delim)).dropWhile fun c => !isDelim delim c).drop 1

section Calls

variable {s : Strtok} {size i : ℕ} {str : Option ℕ} {delim text : List UInt8}

/-- Without a token the call ends at the terminator, which it stays at. -/
theorem HoldsString.strtok_none (h : HoldsString s.memory i text) (hstr : str.or s.last = some i)
    (hsize : i + text.length < size) (hskip : text.dropWhile (isDelim delim) = []) :
    strtok s size str delim = some (none, { s with last := some (i + text.length) }) ∧
      HoldsString s.memory (i + text.length) [] := by
  have hall : text.takeWhile (isDelim delim) = text := by
    have := List.takeWhile_append_dropWhile (p := isDelim delim) (l := text)
    rwa [hskip, List.append_nil] at this
  have hscan := h.scan_eq (n := size - i) (by omega) (isDelim delim)
  rw [hall] at hscan
  refine ⟨?_, HoldsString.right (by rwa [List.append_nil])⟩
  rw [strtok, hstr]
  dsimp only
  rw [hscan, Option.bind_eq_bind, Option.bind_some, if_pos h.terminator]

/-- Otherwise the first token is found and ended, and nothing else changes; the pointer goes behind
its end, or is gone if there is no more of the text. -/
theorem HoldsString.strtok_some (h : HoldsString s.memory i text) (hstr : str.or s.last = some i)
    (hsize : i + text.length < size) (hskip : text.dropWhile (isDelim delim) ≠ [])
    {start : ℕ} (hstart : start = i + (text.takeWhile (isDelim delim)).length) {t : List UInt8}
    (ht : t = (text.dropWhile (isDelim delim)).takeWhile fun c => !isDelim delim c) :
    ∃ s', strtok s size str delim = some (some start, s') ∧ start + t.length < size ∧
      HoldsString s'.memory start t ∧
      (∀ j, j ≠ start + t.length → s'.memory j = s.memory j) ∧
      ((s'.last = none ∧ behindToken delim text = []) ∨
        s'.last = some (start + t.length + 1) ∧
          HoldsString s'.memory (start + t.length + 1) (behindToken delim text) ∧
            start + t.length + 1 + (behindToken delim text).length < size) := by
  have hscan := h.scan_eq (n := size - i) (by omega) (isDelim delim)
  have hsplit := List.takeWhile_append_dropWhile (p := isDelim delim) (l := text)
  have hlength := congrArg List.length hsplit
  rw [List.length_append] at hlength
  rw [behindToken]
  rw [← hstart] at hscan
  generalize text.takeWhile (isDelim delim) = skipped at hstart hsplit hlength
  generalize text.dropWhile (isDelim delim) = rest at hskip ht hsplit hlength
  rw [← hsplit] at h
  have hrest : HoldsString s.memory start rest := hstart ▸ h.right
  have hstop := hrest.scan_eq (n := size - start) (by omega) fun c => !isDelim delim c
  have hback := List.takeWhile_append_dropWhile (p := fun c => !isDelim delim c) (l := rest)
  rw [← ht] at hstop hback
  have hmore : s.memory start ≠ 0 := fun hzero => hskip (h.byte_right.mp (hstart ▸ hzero))
  have hcall : strtok s size str delim = some (some start, s.endToken (start + t.length)) := by
    rw [strtok, hstr]
    dsimp only
    rw [hscan, Option.bind_eq_bind, Option.bind_some, if_neg hmore, hstop, Option.bind_some]
  have hlength' := congrArg List.length hback
  rw [List.length_append] at hlength'
  generalize rest.dropWhile (fun c => !isDelim delim c) = tail at hback hlength'
  rw [← hback] at hrest
  refine ⟨_, hcall, by omega, ?_⟩
  rw [Strtok.endToken]
  cases tail with
  | nil =>
      rw [if_pos (hrest.byte_right.mpr rfl)]
      rw [List.append_nil] at hrest
      exact ⟨hrest, fun _ _ => rfl, .inl ⟨rfl, List.drop_nil⟩⟩
  | cons d back =>
      rw [if_neg fun hzero => List.cons_ne_nil d back (hrest.byte_right.mp hzero)]
      have hnext : HoldsString s.memory (start + t.length + 1) back :=
        HoldsString.right (s := [d]) hrest.right
      rw [List.length_cons] at hlength'
      refine ⟨hrest.left, fun j hj => Function.update_of_ne hj _ _, .inr ⟨rfl, ?_, ?_⟩⟩
      · exact hnext.congr fun j hj _ => Function.update_of_ne (by omega) _ _
      · rw [List.drop_one, List.tail_cons]
        omega

end Calls

/-- These tokens are still to be found, in the buffer from offset `lo` on. -/
def Strtok.Pending (s : Strtok) (size : ℕ) (delim : List UInt8) (lo : ℕ)
    (ts : List (List UInt8)) : Prop :=
  (s.last = none ∧ ts = []) ∨ ∃ i text, s.last = some i ∧ HoldsString s.memory i text ∧ lo ≤ i ∧
    i + text.length < size ∧ tokens (isDelim delim) text = ts

section Pending

variable {s : Strtok} {size lo : ℕ} {delim : List UInt8}

/-- Nothing is found, and nothing more will be. -/
theorem Strtok.Pending.nil (h : s.Pending size delim lo []) :
    ∃ last, strtok s size none delim = some (none, { s with last := last }) ∧
      Strtok.Pending { s with last := last } size delim lo [] := by
  obtain ⟨hlast, -⟩ | ⟨i, text, hlast, htext, hlo, hsize, htokens⟩ := h
  · refine ⟨none, ?_, .inl ⟨rfl, rfl⟩⟩
    rw [strtok, hlast]
    exact congrArg (fun last => some (none, Strtok.mk s.memory last)) hlast
  · have hskip : text.dropWhile (isDelim delim) = [] := by
      by_contra hne
      rw [(tokens_eq hne).1] at htokens
      cases htokens
    have hcur : (none : Option ℕ).or s.last = some i := hlast
    obtain ⟨hcall, hend⟩ := htext.strtok_none hcur hsize hskip
    exact ⟨some (i + text.length), hcall,
      .inr ⟨_, [], rfl, hend, by omega, by simpa using hsize, tokens_nil⟩⟩

/-- The next token is found, and only what lies behind it may have changed. -/
theorem Strtok.Pending.cons {t : List UInt8} {ts : List (List UInt8)}
    (h : s.Pending size delim lo (t :: ts)) :
    ∃ start s', strtok s size none delim = some (some start, s') ∧ lo ≤ start ∧
      start + t.length < size ∧ HoldsString s'.memory start t ∧
      s'.Pending size delim (start + t.length + 1) ts ∧ ∀ j < lo, s'.memory j = s.memory j := by
  obtain ⟨-, hts⟩ | ⟨i, text, hlast, htext, hlo, hsize, htokens⟩ := h
  · cases hts
  have hskip : text.dropWhile (isDelim delim) ≠ [] := by
    intro hnil
    rw [tokens_eq_nil hnil] at htokens
    cases htokens
  obtain ⟨ht, hts⟩ := List.cons.inj (htokens.symm.trans (tokens_eq hskip).1)
  have hcur : (none : Option ℕ).or s.last = some i := hlast
  obtain ⟨s', hcall, hend, hstring, hframe, hrest⟩ := htext.strtok_some hcur hsize hskip rfl ht
  refine ⟨_, s', hcall, by omega, hend, hstring, ?_, fun j hj => hframe j (by omega)⟩
  rcases hrest with ⟨hnone, hnil⟩ | ⟨hsome, hback, hlt⟩
  · rw [behindToken] at hnil
    exact .inl ⟨hnone, by rw [hts, hnil, tokens_nil]⟩
  · exact .inr ⟨_, _, hsome, hback, Nat.le_refl _, hlt, hts.symm⟩

end Pending

end CString
