import HalOS.Lib.Strtok

/-!
# strtok

`strtok` of `libs/string.c`, called once with a string and then again and again with `NULL`. The
calls may read the bytes up to the terminator of the string, and no others.

## Main results

* `Rest.calls`: what the calls find from any time on.
* `strtok_runs`: the calls find the longest runs of other characters than the delimiters.
-/

namespace HalOS

open CString (HoldsString Memory Strtok isDelim runs strtok)

/-- So many calls of `strtok`, the first one with this argument and the others with `NULL`, in a
buffer of `size` bytes. -/
def strtokCalls (size : ℕ) (delim : List UInt8) :
    ℕ → Option ℕ → Strtok → Option (List (Option ℕ) × Strtok)
  | 0, _, s => some ([], s)
  | n + 1, str, s => do
      let (token, s) ← strtok s size str delim
      let (tokens, s) ← strtokCalls size delim n none s
      some (token :: tokens, s)

/-- From this pointer on these runs are still to be found. -/
def Rest (m : Memory) (cur : Option ℕ) (size : ℕ) (delim : List UInt8)
    (found : List (ℕ × List UInt8)) : Prop :=
  (cur = none ∧ found = []) ∨ ∃ i text, cur = some i ∧ HoldsString m i text ∧
    i + text.length < size ∧ runs (isDelim delim) i text = found

section Calls

variable {s : Strtok} {str : Option ℕ} {size : ℕ} {delim : List UInt8}

/-- If there is none, a call returns `NULL`, and so will the next one. -/
theorem Rest.nil (h : Rest s.memory (str.or s.last) size delim []) :
    ∃ s', strtok s size str delim = some (none, s') ∧ s'.memory = s.memory ∧
      Rest s'.memory s'.last size delim [] := by
  obtain ⟨hcur, -⟩ | ⟨i, text, hcur, htext, hsize, hruns⟩ := h
  · refine ⟨s, ?_, rfl, .inl ⟨(Option.or_eq_none_iff.mp hcur).2, rfl⟩⟩
    rw [strtok, hcur]
  · have hskip : text.dropWhile (isDelim delim) = [] := by
      by_contra hne
      rw [(CString.runs_eq hne i).1] at hruns
      cases hruns
    obtain ⟨hcall, hend⟩ := htext.strtok_none hcur hsize hskip
    exact ⟨_, hcall, rfl, .inr ⟨_, [], rfl, hend, hsize, rfl⟩⟩

/-- Otherwise it returns the first one, with a terminator behind it. -/
theorem Rest.cons {run : ℕ × List UInt8} {found : List (ℕ × List UInt8)}
    (h : Rest s.memory (str.or s.last) size delim (run :: found)) :
    ∃ s', strtok s size str delim = some (some run.1, s') ∧ HoldsString s'.memory run.1 run.2 ∧
      (∀ j, j ≠ run.1 + run.2.length → s'.memory j = s.memory j) ∧
        Rest s'.memory s'.last size delim found := by
  obtain ⟨-, hnone⟩ | ⟨i, text, hcur, htext, hsize, hruns⟩ := h
  · cases hnone
  have hskip : text.dropWhile (isDelim delim) ≠ [] := by
    intro hnil
    rw [CString.runs_eq_nil hnil] at hruns
    cases hruns
  obtain ⟨rfl, rfl⟩ := List.cons.inj (hruns.symm.trans (CString.runs_eq hskip i).1)
  obtain ⟨s', hcall, -, hstring, hframe, hrest⟩ := htext.strtok_some hcur hsize hskip rfl rfl
  refine ⟨s', hcall, hstring, hframe, ?_⟩
  rcases hrest with ⟨hlast, hnil⟩ | ⟨hlast, hback, hlt⟩
  · rw [CString.behindToken] at hnil
    exact .inl ⟨hlast, by rw [hnil]; rfl⟩
  · exact .inr ⟨_, _, hlast, hback, hlt, rfl⟩

/-- **What the calls find** from any time on: the runs one by one, each of which stays a string,
and then nothing. -/
theorem Rest.calls {found : List (ℕ × List UInt8)}
    (h : Rest s.memory (str.or s.last) size delim found)
    (hfound : found.Pairwise fun first second => first.1 + first.2.length < second.1) (n : ℕ) :
    ∃ s', strtokCalls size delim n str s =
        some ((List.range n).map fun k => found[k]?.map Prod.fst, s') ∧
      (∀ run ∈ found.take n, HoldsString s'.memory run.1 run.2) ∧
        ∀ j, (∀ run ∈ found, j ≠ run.1 + run.2.length) → s'.memory j = s.memory j := by
  induction n generalizing s str found with
  | zero => exact ⟨s, rfl, by simp, fun _ _ => rfl⟩
  | succ n ih =>
      cases found with
      | nil =>
          obtain ⟨s₁, hcall, hmemory, hrest⟩ := h.nil
          have hnext : Rest s₁.memory ((none : Option ℕ).or s₁.last) size delim [] := hrest
          obtain ⟨s', hcalls, -, hframe⟩ := ih hnext List.Pairwise.nil
          refine ⟨s', ?_, by simp, fun j hj => (hframe j hj).trans (congrFun hmemory j)⟩
          rw [strtokCalls, hcall, Option.bind_eq_bind, Option.bind_some]
          dsimp only
          rw [hcalls, List.range_succ_eq_map, List.map_cons, List.map_map]
          rfl
      | cons run found =>
          obtain ⟨hrun, hlater⟩ := List.pairwise_cons.mp hfound
          obtain ⟨s₁, hcall, hstring, hframe₁, hrest⟩ := h.cons
          have hnext : Rest s₁.memory ((none : Option ℕ).or s₁.last) size delim found := hrest
          obtain ⟨s', hcalls, hstrings, hframe⟩ := ih hnext hlater
          refine ⟨s', ?_, ?_, ?_⟩
          · rw [strtokCalls, hcall]
            rw [Option.bind_eq_bind, Option.bind_some]
            dsimp only
            rw [hcalls, List.range_succ_eq_map, List.map_cons, List.map_map]
            rfl
          · rw [List.take_succ_cons]
            refine List.forall_mem_cons.mpr ⟨hstring.congr fun j hle hge => ?_, hstrings⟩
            exact hframe j fun later hmem => by have := hrun later hmem; omega
          · intro j hj
            obtain ⟨hfirst, hothers⟩ := List.forall_mem_cons.mp hj
            rw [hframe j hothers, hframe₁ j hfirst]

end Calls

/-! ### A whole string -/

/-- In a string, `strchr` looks for a character among the delimiters. -/
theorem isDelim_eq {c : UInt8} (h : c ≠ 0) (delim : List UInt8) :
    isDelim delim c = delim.contains c := by
  induction delim with
  | nil => rw [isDelim, CString.strchr, if_neg h]; rfl
  | cons d delim ih =>
      rw [isDelim, CString.strchr, List.contains_cons, ← ih, isDelim]
      split_ifs with heq
      · simp [heq]
      · have hne : (c == d) = false := by simpa using Ne.symm heq
        rw [hne, Option.isSome_map, Bool.false_or]

/-- **The runs of a string**: the calls return the longest runs of other characters than the
delimiters, in their order, and then `NULL`, however often; each of them ends with a terminator, and
no byte behind that of the string is read. -/
theorem strtok_runs {m : Memory} {start : ℕ} {text : List UInt8} (h : HoldsString m start text)
    (last : Option ℕ) (delim : List UInt8) :
    ∃ found : List (ℕ × List UInt8), (found.Pairwise fun first second => first.1 < second.1) ∧
      (∀ i run, (i, run) ∈ found ↔ CString.MaximalRun delim.contains start text i run) ∧
      ∀ n, ∃ s, strtokCalls (start + text.length + 1) delim n (some start) ⟨m, last⟩ =
          some ((List.range n).map fun k => found[k]?.map Prod.fst, s) ∧
        ∀ run ∈ found.take n, HoldsString s.memory run.1 run.2 := by
  have hpairwise := CString.pairwise_runs (p := isDelim delim) start text
  have hcongr : ∀ c ∈ text, isDelim delim c = delim.contains c :=
    fun c hc => isDelim_eq (h.ne_zero c hc) delim
  refine ⟨runs (isDelim delim) start text, hpairwise.imp fun hlt => by omega, fun i run => ?_,
    fun n => ?_⟩
  · rw [CString.runs_congr hcongr, CString.mem_runs_iff]
  · have hrest : Rest m ((some start).or last) (start + text.length + 1) delim
        (runs (isDelim delim) start text) :=
      .inr ⟨start, text, rfl, h, Nat.lt_succ_self _, rfl⟩
    obtain ⟨s, hcalls, hstrings, -⟩ := Rest.calls (s := ⟨m, last⟩) hrest hpairwise n
    exact ⟨s, hcalls, hstrings⟩

/-- The string `/a//bc`, split at slashes. -/
theorem strtok_runs_slashes :
    HoldsString (CString.ofList [0x2F, 0x61, 0x2F, 0x2F, 0x62, 0x63]) 0
        [0x2F, 0x61, 0x2F, 0x2F, 0x62, 0x63] ∧
      ∃ found : List (ℕ × List UInt8), (found.Pairwise fun first second => first.1 < second.1) ∧
        (∀ i run, (i, run) ∈ found ↔
          CString.MaximalRun [0x2F].contains 0 [0x2F, 0x61, 0x2F, 0x2F, 0x62, 0x63] i run) ∧
        ∀ n, ∃ s, strtokCalls 7 [0x2F] n (some 0)
              ⟨CString.ofList [0x2F, 0x61, 0x2F, 0x2F, 0x62, 0x63], none⟩ =
            some ((List.range n).map fun k => found[k]?.map Prod.fst, s) ∧
          ∀ run ∈ found.take n, HoldsString s.memory run.1 run.2 := by
  have h := CString.holdsString_ofList (s := [0x2F, 0x61, 0x2F, 0x2F, 0x62, 0x63]) (by simp)
  exact ⟨h, strtok_runs h none [0x2F]⟩

end HalOS
