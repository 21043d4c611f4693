import HalOS.Mm.LiballocTiling

/-!
# The Lists of Free Tags

Each tag with an index is on the list of that index, and each list is linked from `freePages` on.
A tag without an index is on none. `insert_tag` and `remove_tag` keep this; what the other
functions change are other members, or tags on no list.

## Main results

* `Listed.insert`, `Listed.remove`: a tag put on a list, and taken off its list.
* `Listed.erase`, `Listed.insert_used`: tags that are on no list come and go.
-/

namespace HalOS

namespace Liballoc

open LinkedList (Linked)

/-- The free tags are on the lists that begin in `freePages`. -/
structure Listed (V : Tags) (freePages : ℕ → ℕ) (tags : Finset ℕ) (lists : ℕ → List ℕ) : Prop where
  mem : ∀ i, ∀ p ∈ lists i, p ∈ tags ∧ V p .index = i
  below : ∀ i, lists i ≠ [] → i < 32
  nodup : ∀ i, (lists i).Nodup
  linked : ∀ i, Linked (fun p => V p .next) (fun p => V p .prev) 0 0 (lists i)
  head : ∀ i, freePages i = (lists i).headD 0
  index : ∀ p ∈ tags, V p .index = minusOne ∨ p ∈ lists (V p .index)
  used : ∀ p ∈ tags, V p .index = minusOne → V p .next = 0 ∧ V p .prev = 0

section Lists

variable {V W : Tags} {freePages : ℕ → ℕ} {tags tags' : Finset ℕ} {lists : ℕ → List ℕ} {p i : ℕ}

theorem Listed.index_lt (h : Listed V freePages tags lists) (hp : p ∈ lists i) : i < 32 :=
  h.below i (List.ne_nil_of_mem hp)

theorem Listed.index_ne (h : Listed V freePages tags lists) (hp : p ∈ lists i) :
    V p .index ≠ minusOne := by
  have := h.index_lt hp
  rw [(h.mem i p hp).2, minusOne]
  omega

/-- What `free` looks at to see whether a neighbour is free. -/
theorem Listed.free_iff (h : Listed V freePages tags lists) (hp : p ∈ tags) :
    V p .index < 2 ^ 31 ↔ V p .index ≠ minusOne := by
  constructor
  · rintro hlt heq
    rw [heq] at hlt
    exact absurd hlt (by decide)
  · intro hne
    have := h.index_lt ((h.index p hp).resolve_left hne)
    omega

theorem Listed.mem_own (h : Listed V freePages tags lists) (hp : p ∈ tags)
    (hne : V p .index ≠ minusOne) : p ∈ lists (V p .index) :=
  (h.index p hp).resolve_left hne

theorem Listed.used_notMem (h : Listed V freePages tags lists) (hused : V p .index = minusOne)
    (i : ℕ) : p ∉ lists i := fun hp => h.index_ne hp hused

/-- The tags before and after one on a list are on the same list. -/
theorem Listed.neighbours (h : Listed V freePages tags lists) (hp : p ∈ lists i) :
    (V p .prev ≠ 0 → V p .prev ∈ lists i) ∧ (V p .next ≠ 0 → V p .next ∈ lists i) :=
  ⟨fun hne => ((h.linked i).prev_mem hp).resolve_left hne, (h.linked i).next_mem hp⟩

theorem Listed.head_mem (h : Listed V freePages tags lists) (hne : freePages i ≠ 0) :
    freePages i ∈ lists i := by
  rw [h.head] at hne ⊢
  cases hl : lists i with
  | nil => exact absurd (by rw [hl]; rfl) hne
  | cons a rest => exact List.mem_cons_self

theorem Listed.congr (h : Listed V freePages tags lists)
    (hindex : ∀ p ∈ tags, W p .index = V p .index) (hnext : ∀ p ∈ tags, W p .next = V p .next)
    (hprev : ∀ p ∈ tags, W p .prev = V p .prev) : Listed W freePages tags lists where
  mem i p hp := ⟨(h.mem i p hp).1, (hindex p (h.mem i p hp).1).trans (h.mem i p hp).2⟩
  below := h.below
  nodup := h.nodup
  linked i := (h.linked i).congr (fun q hq => hnext q (h.mem i q hq).1)
    fun q hq => hprev q (h.mem i q hq).1
  head := h.head
  index p hp := by
    rw [hindex p hp]
    exact h.index p hp
  used p hp := by
    rw [hindex p hp, hnext p hp, hprev p hp]
    exact h.used p hp

/-! ### Used tags -/

/-- A used tag less. -/
theorem Listed.erase (h : Listed V freePages tags lists) (hused : V p .index = minusOne) :
    Listed V freePages (tags.erase p) lists where
  mem i q hq :=
    ⟨Finset.mem_erase.mpr ⟨fun heq => h.used_notMem hused i (heq ▸ hq), (h.mem i q hq).1⟩,
      (h.mem i q hq).2⟩
  below := h.below
  nodup := h.nodup
  linked := h.linked
  head := h.head
  index q hq := h.index q (Finset.mem_of_mem_erase hq)
  used q hq := h.used q (Finset.mem_of_mem_erase hq)

/-- A used tag more. -/
theorem Listed.insert_used (h : Listed V freePages tags lists) (hused : V p .index = minusOne)
    (hnext : V p .next = 0) (hprev : V p .prev = 0) :
    Listed V freePages (insert p tags) lists where
  mem i q hq := ⟨Finset.mem_insert_of_mem (h.mem i q hq).1, (h.mem i q hq).2⟩
  below := h.below
  nodup := h.nodup
  linked := h.linked
  head := h.head
  index q hq := by
    rcases Finset.mem_insert.mp hq with rfl | hq
    · exact Or.inl hused
    · exact h.index q hq
  used q hq := by
    rcases Finset.mem_insert.mp hq with rfl | hq
    · exact fun _ => ⟨hnext, hprev⟩
    · exact h.used q hq

/-! ### `insert_tag` -/

/-- A tag that was on no list is put in front of one. -/
theorem Listed.insert (h : Listed V freePages tags lists) (h0 : 0 ∉ tags) (hp0 : p ≠ 0)
    (hi : i < 32) (hout : ∀ j, p ∉ lists j) (hprev : V p .prev = 0) :
    Listed (V.insert p (freePages i) i) (Function.update freePages i p) (Insert.insert p tags)
      (Function.update lists i (p :: lists i)) := by
  have hindexp : V.insert p (freePages i) i p .index = i := if_pos rfl
  have hindex : ∀ q, q ≠ p → V.insert p (freePages i) i q .index = V q .index := fun q hq =>
    if_neg hq
  have hnext : ∀ q, q ≠ p → V.insert p (freePages i) i q .next = V q .next := fun q hq => if_neg hq
  have hhead : ∀ q, q ≠ freePages i → V.insert p (freePages i) i q .prev = V q .prev :=
    fun q hq => if_neg hq
  have hphead : p ≠ freePages i := fun heq => hout i (heq ▸ h.head_mem (heq ▸ hp0))
  have hne : ∀ {j q}, q ∈ lists j → q ≠ p := fun hq heq => hout _ (heq ▸ hq)
  -- the tag that was first keeps what is before it, unless it is on this list
  have hfirst : ∀ q ∈ tags, V q .index ≠ i → q ≠ freePages i := by
    rintro q hq hqi rfl
    have hq0 : freePages i ≠ 0 := fun heq => h0 (heq ▸ hq)
    exact hqi (h.mem i _ (h.head_mem hq0)).2
  constructor
  case mem =>
    intro j q hq
    rw [Function.update_apply] at hq
    split_ifs at hq with hji
    · rw [hji]
      rcases List.mem_cons.mp hq with rfl | hq
      · exact ⟨Finset.mem_insert_self _ _, hindexp⟩
      · rw [hindex q (hne hq)]
        exact ⟨Finset.mem_insert_of_mem (h.mem i q hq).1, (h.mem i q hq).2⟩
    · rw [hindex q (hne hq)]
      exact ⟨Finset.mem_insert_of_mem (h.mem j q hq).1, (h.mem j q hq).2⟩
  case below =>
    intro j
    rw [Function.update_apply]
    split_ifs with hji
    · exact fun _ => hji ▸ hi
    · exact h.below j
  case nodup =>
    intro j
    rw [Function.update_apply]
    split_ifs with hji
    · exact List.nodup_cons.mpr ⟨hout i, h.nodup i⟩
    · exact h.nodup j
  case linked =>
    intro j
    rw [Function.update_apply]
    split_ifs with hji
    · refine (h.linked i).cons (h.nodup i) ((hhead p hphead).trans hprev) ?_
        (fun q hq => hnext q (hne hq)) fun q hq => ?_
      · exact (if_pos rfl).trans (h.head i)
      · rw [← h.head i]
        rfl
    · refine (h.linked j).congr (fun q hq => hnext q (hne hq)) fun q hq => hhead q ?_
      exact hfirst q (h.mem j q hq).1 ((h.mem j q hq).2 ▸ hji)
  case head =>
    intro j
    rw [Function.update_apply, Function.update_apply]
    split_ifs
    · rfl
    · exact h.head j
  case index =>
    intro q hq
    by_cases hqp : q = p
    · rw [hqp, hindexp, Function.update_self]
      exact Or.inr List.mem_cons_self
    · rw [hindex q hqp]
      rcases h.index q ((Finset.mem_insert.mp hq).resolve_left hqp) with hused | hmem
      · exact Or.inl hused
      · rw [Function.update_apply]
        split_ifs with hji
        · exact Or.inr (List.mem_cons_of_mem _ (hji ▸ hmem))
        · exact Or.inr hmem
  case used =>
    intro q hq
    by_cases hqp : q = p
    · rw [hqp, hindexp]
      intro heq
      rw [heq] at hi
      exact absurd hi (by decide)
    · have hq := (Finset.mem_insert.mp hq).resolve_left hqp
      rw [hindex q hqp, hnext q hqp]
      intro hused
      rw [hhead q (hfirst q hq fun heq => by rw [← heq, hused] at hi; exact absurd hi (by decide))]
      exact h.used q hq hused

/-! ### `remove_tag` -/

/-- A tag is taken off its list. -/
theorem Listed.remove (h : Listed V freePages tags lists) (h0 : 0 ∉ tags) (hp : p ∈ lists i) :
    Listed (V.remove p)
      (if freePages i = p then Function.update freePages i (V p .next) else freePages) tags
      (Function.update lists i ((lists i).erase p)) := by
  have hindexp : V.remove p p .index = minusOne := if_pos rfl
  have hindex : ∀ q, q ≠ p → V.remove p q .index = V q .index := fun q hq => if_neg hq
  have hnext : ∀ q, q ≠ p → V.remove p q .next = if q = V p .prev then V p .next else V q .next :=
    fun q hq => if_neg hq
  have hprev : ∀ q, q ≠ p → V.remove p q .prev = if q = V p .next then V p .prev else V q .prev :=
    fun q hq => if_neg hq
  obtain ⟨hbefore, hafter⟩ := h.neighbours hp
  have hnull : ∀ j, 0 ∉ lists j := fun j hj => h0 (h.mem j 0 hj).1
  -- tags that are not on this list keep their neighbours
  have hother : ∀ q ∈ tags, q ∉ lists i →
      V.remove p q .next = V q .next ∧ V.remove p q .prev = V q .prev := by
    intro q hq hqi
    have hqp : q ≠ p := fun heq => hqi (heq ▸ hp)
    have hq0 : q ≠ 0 := fun heq => h0 (heq ▸ hq)
    rw [hnext q hqp, hprev q hqp, if_neg, if_neg]
    · exact ⟨rfl, rfl⟩
    · rintro rfl
      exact hqi (hafter hq0)
    · rintro rfl
      exact hqi (hbefore hq0)
  have hapart : ∀ {j q}, j ≠ i → q ∈ lists j → q ∉ lists i := fun hji hqj hqi =>
    hji ((h.mem _ _ hqj).2.symm.trans (h.mem _ _ hqi).2)
  constructor
  case mem =>
    intro j q hq
    rw [Function.update_apply] at hq
    split_ifs at hq with hji
    · obtain ⟨hqp, hq⟩ := (h.nodup i).mem_erase_iff.mp hq
      rw [hindex q hqp, hji]
      exact h.mem i q hq
    · rw [hindex q fun heq => hapart hji hq (heq ▸ hp)]
      exact h.mem j q hq
  case below =>
    intro j
    rw [Function.update_apply]
    split_ifs with hji
    · exact fun _ => hji ▸ h.index_lt hp
    · exact h.below j
  case nodup =>
    intro j
    rw [Function.update_apply]
    split_ifs
    · exact (h.nodup i).erase p
    · exact h.nodup j
  case linked =>
    intro j
    rw [Function.update_apply]
    split_ifs with hji
    · exact (h.linked i).erase (h.nodup i) (hnull i) (hnull i) hp (fun q _ hqp => hnext q hqp)
        fun q _ hqp => hprev q hqp
    · exact (h.linked j).congr
        (fun q hq => (hother q (h.mem j q hq).1 (hapart hji hq)).1)
        fun q hq => (hother q (h.mem j q hq).1 (hapart hji hq)).2
  case head =>
    intro j
    have hhead := h.head i
    have hlinked := h.linked i
    cases hl : lists i with
    | nil => exact absurd (hl ▸ hp) List.not_mem_nil
    | cons a rest =>
        rw [hl] at hhead hlinked
        rw [Function.update_apply]
        split_ifs with hfirst hji hji
        · -- the first tag of the list goes
          obtain rfl : a = p := hhead.symm.trans hfirst
          rw [hji, Function.update_self, List.erase_cons_head]
          exact hlinked.2.1
        · rw [Function.update_of_ne hji]
          exact h.head j
        · rw [hji, hhead, List.erase_cons_tail (by simpa using fun heq => hfirst (hhead.trans heq))]
          rfl
        · exact h.head j
  case index =>
    intro q hq
    by_cases hqp : q = p
    · exact Or.inl (hqp ▸ hindexp)
    · rw [hindex q hqp]
      rcases h.index q hq with hused | hmem
      · exact Or.inl hused
      · rw [Function.update_apply]
        split_ifs with hji
        · exact Or.inr ((h.nodup i).mem_erase_iff.mpr ⟨hqp, hji ▸ hmem⟩)
        · exact Or.inr hmem
  case used =>
    intro q hq
    by_cases hqp : q = p
    · rw [hqp]
      exact fun _ => ⟨if_pos rfl, if_pos rfl⟩
    · rw [hindex q hqp]
      intro hused
      obtain ⟨hn, hp⟩ := hother q hq (h.used_notMem hused i)
      rw [hn, hp]
      exact h.used q hq hused

end Lists

end Liballoc

end HalOS
