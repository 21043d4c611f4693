import Mathlib.Data.List.Basic
import Mathlib.Tactic.SplitIfs

/-!
# Doubly Linked Lists

Lists whose elements are found by two functions, as the pointers of a doubly linked list give
them: `next` leads to the following element, `prev` to the one before, and both to `null` where
there is none. What the two functions are at other places does not matter, so the operations are
stated by what they do to the elements of the list.

## Main results

* `Linked.cons`: an element put in front.
* `Linked.erase`: an element taken out, wherever it is.
* `Linked.find_eq`: walking along `next` searches the list.
-/

namespace LinkedList

universe u

variable {α : Type u}

/-- The elements of `xs` are linked in this order, the first one after `before`. -/
def Linked (next prev : α → α) (null : α) : α → List α → Prop
  | _, [] => True
  | before, p :: rest =>
      prev p = before ∧ next p = rest.headD null ∧ Linked next prev null p rest

variable {next prev next' prev' : α → α} {null before p : α} {xs : List α}

theorem Linked.congr (h : Linked next prev null before xs) (hnext : ∀ q ∈ xs, next' q = next q)
    (hprev : ∀ q ∈ xs, prev' q = prev q) : Linked next' prev' null before xs := by
  induction xs generalizing before with
  | nil => trivial
  | cons a rest ih =>
      obtain ⟨hp, hn, hrest⟩ := h
      refine ⟨(hprev a List.mem_cons_self).trans hp, (hnext a List.mem_cons_self).trans hn, ?_⟩
      exact ih hrest (fun q hq => hnext q (List.mem_cons_of_mem _ hq))
        fun q hq => hprev q (List.mem_cons_of_mem _ hq)

/-! ### Neighbours -/

/-- The element after one is an element, or there is none. -/
theorem Linked.next_mem (h : Linked next prev null before xs) (hp : p ∈ xs)
    (hne : next p ≠ null) : next p ∈ xs := by
  induction xs generalizing before with
  | nil => cases hp
  | cons a rest ih =>
      obtain ⟨-, hn, hrest⟩ := h
      rcases List.mem_cons.mp hp with rfl | hp
      · cases rest with
        | nil => exact absurd hn hne
        | cons b rest => simp [hn]
      · exact List.mem_cons_of_mem _ (ih hrest hp)

/-- The element before one is an element, except for the first one. -/
theorem Linked.prev_mem (h : Linked next prev null before xs) (hp : p ∈ xs) :
    prev p = before ∨ prev p ∈ xs := by
  induction xs generalizing before with
  | nil => cases hp
  | cons a rest ih =>
      obtain ⟨hprev, -, hrest⟩ := h
      rcases List.mem_cons.mp hp with rfl | hp
      · exact Or.inl hprev
      · rcases ih hrest hp with heq | hmem
        · exact Or.inr (heq ▸ List.mem_cons_self)
        · exact Or.inr (List.mem_cons_of_mem _ hmem)

/-- No element comes before itself. -/
theorem Linked.prev_ne (h : Linked next prev null before xs) (hnd : xs.Nodup)
    (hbefore : before ∉ xs) (hp : p ∈ xs) : prev p ≠ p := by
  induction xs generalizing before with
  | nil => cases hp
  | cons a rest ih =>
      obtain ⟨hprev, -, hrest⟩ := h
      obtain ⟨hnotin, hnd⟩ := List.nodup_cons.mp hnd
      rcases List.mem_cons.mp hp with rfl | hp
      · exact fun heq => hbefore (by rw [← hprev, heq]; exact List.mem_cons_self)
      · exact ih hrest hnd hnotin hp

/-- Only the first element has `before` before it. -/
theorem Linked.prev_eq_iff (h : Linked next prev null before xs) (hnd : xs.Nodup)
    (hbefore : before ∉ xs) (hp : p ∈ xs) : prev p = before ↔ xs.head? = some p := by
  cases xs with
  | nil => cases hp
  | cons a rest =>
      obtain ⟨hprev, -, hrest⟩ := h
      rcases List.mem_cons.mp hp with rfl | hp
      · simp [hprev]
      · have hne : a ≠ p := fun heq => (List.nodup_cons.mp hnd).1 (heq ▸ hp)
        have hother : prev p ≠ before := by
          rcases hrest.prev_mem hp with heq | hmem
          · exact fun hb => hbefore (by rw [← hb, heq]; exact List.mem_cons_self)
          · exact fun hb => hbefore (hb ▸ List.mem_cons_of_mem _ hmem)
        simp [hne, hother]

/-! ### Insertion and removal -/

variable [DecidableEq α]

/-- An element in front of a list. -/
theorem Linked.cons (h : Linked next prev null before xs) (hnd : xs.Nodup)
    (hprevp : prev' p = before) (hnextp : next' p = xs.headD null)
    (hnext : ∀ q ∈ xs, next' q = next q)
    (hprev : ∀ q ∈ xs, prev' q = if q = xs.headD null then p else prev q) :
    Linked next' prev' null before (p :: xs) := by
  refine ⟨hprevp, hnextp, ?_⟩
  cases xs with
  | nil => trivial
  | cons a rest =>
      obtain ⟨-, hn, hrest⟩ := h
      refine ⟨by rw [hprev a List.mem_cons_self, List.headD_cons, if_pos rfl], ?_, ?_⟩
      · rw [hnext a List.mem_cons_self, hn]
      refine hrest.congr (fun q hq => hnext q (List.mem_cons_of_mem _ hq)) fun q hq => ?_
      rw [hprev q (List.mem_cons_of_mem _ hq), if_neg]
      rintro rfl
      exact (List.nodup_cons.mp hnd).1 hq

/-- A list without one of its elements, whose neighbours are linked past it. -/
theorem Linked.erase (h : Linked next prev null before xs) (hnd : xs.Nodup) (hnull : null ∉ xs)
    (hbefore : before ∉ xs) (hp : p ∈ xs)
    (hnext : ∀ q ∈ xs, q ≠ p → next' q = if q = prev p then next p else next q)
    (hprev : ∀ q ∈ xs, q ≠ p → prev' q = if q = next p then prev p else prev q) :
    Linked next' prev' null before (xs.erase p) := by
  induction xs generalizing before with
  | nil => cases hp
  | cons a rest ih =>
      obtain ⟨hpa, hna, hrest⟩ := h
      obtain ⟨hnotin, hnd⟩ := List.nodup_cons.mp hnd
      by_cases hap : a = p
      · -- the first element goes, and the second one becomes the first
        subst hap
        rw [List.erase_cons_head]
        have hne : ∀ q ∈ rest, q ≠ a := fun q hq heq => hnotin (heq ▸ hq)
        have hnext' : ∀ q ∈ rest, next' q = next q := fun q hq => by
          rw [hnext q (List.mem_cons_of_mem _ hq) (hne q hq), if_neg]
          exact fun heq => hbefore (hpa ▸ heq ▸ List.mem_cons_of_mem _ hq)
        cases rest with
        | nil => trivial
        | cons b rest =>
            obtain ⟨hpb, hnb, hrest⟩ := hrest
            refine ⟨?_, (hnext' b List.mem_cons_self).trans hnb, ?_⟩
            · rw [hprev b (by simp) (hne b List.mem_cons_self), hna, List.headD_cons, if_pos rfl, hpa]
            · refine hrest.congr (fun q hq => hnext' q (List.mem_cons_of_mem _ hq)) fun q hq => ?_
              rw [hprev q (by simp [hq]) (hne q (List.mem_cons_of_mem _ hq)), if_neg]
              rw [hna, List.headD_cons]
              rintro rfl
              exact (List.nodup_cons.mp hnd).1 hq
      · have hpr : p ∈ rest := (List.mem_cons.mp hp).resolve_left (Ne.symm hap)
        rw [List.erase_cons_tail (by simpa using hap)]
        have hnotnext : a ≠ next p := fun heq => by
          by_cases hn : next p = null
          · exact hnull (hn ▸ heq ▸ List.mem_cons_self)
          · exact hnotin (heq ▸ hrest.next_mem hpr hn)
        refine ⟨?_, ?_, ih hrest hnd (fun hm => hnull (List.mem_cons_of_mem _ hm)) hnotin hpr
          (fun q hq => hnext q (List.mem_cons_of_mem _ hq))
          fun q hq => hprev q (List.mem_cons_of_mem _ hq)⟩
        · rw [hprev a List.mem_cons_self hap, if_neg hnotnext, hpa]
        · rw [hnext a List.mem_cons_self hap]
          cases rest with
          | nil => cases hpr
          | cons b rest =>
              by_cases hbp : b = p
              · subst hbp
                rw [if_pos hrest.1.symm, List.erase_cons_head, hrest.2.1]
              · have hprevne : a ≠ prev p := fun heq => by
                  have hhead := (hrest.prev_eq_iff hnd hnotin hpr).mp heq.symm
                  exact hbp (Option.some.inj hhead)
                rw [if_neg hprevne, List.erase_cons_tail (by simpa using hbp), hna]
                rfl

/-! ### Searching -/

/-- Walk along `next` to the first element that passes, or to `null`; `none` where the steps
allowed run out. -/
def walk (next : α → α) (null : α) (test : α → Bool) : ℕ → α → Option α
  | 0, _ => none
  | n + 1, p =>
      if p = null then some null else if test p then some p else walk next null test n (next p)

/-- Walking along `next` searches the list. -/
theorem Linked.walk_eq (h : Linked next prev null before xs) (hnull : null ∉ xs)
    (test : α → Bool) {n : ℕ} (hn : xs.length < n) :
    walk next null test n (xs.headD null) = some ((xs.find? test).getD null) := by
  induction xs generalizing before n with
  | nil =>
      obtain ⟨n, rfl⟩ : ∃ k, n = k + 1 := ⟨n - 1, by simp at hn; omega⟩
      simp [walk]
  | cons a rest ih =>
      obtain ⟨n, rfl⟩ : ∃ k, n = k + 1 := ⟨n - 1, by simp at hn; omega⟩
      obtain ⟨-, hna, hrest⟩ := h
      have hane : a ≠ null := fun heq => hnull (heq ▸ List.mem_cons_self)
      rw [List.headD_cons, walk, if_neg hane]
      cases htest : test a with
      | true => simp [htest]
      | false =>
          rw [if_neg (by simp), hna, ih hrest (fun hm => hnull (List.mem_cons_of_mem _ hm))
            (by simpa using hn)]
          simp [htest]

end LinkedList
