import HalOS.Mm.VmmCalls

/-!
# Failed Virtual Allocations

A failed allocation ought to leave the page bitmap, the free blocks and all translations as
they were, page tables it created on the way excepted. The four allocators of `vmm.c` do so
exactly when they fail before they have taken anything (`VmmAlloc.FailsEarly`). Each way of
failing later leaves something behind: `pmm_free_block` releases nothing, `vmm_map_mmio`
has no rollback, the rollback of `vmm_alloc_contiguous` stops at the page that failed and
does nothing for the first one, and `dma_alloc` keeps its blocks.

## Main results

* `Builds.tables`: blocks in use do not become page tables.
* `failed_alloc_leaves_no_trace_iff`: exactly the early failures leave no trace.
-/

namespace HalOS

/-- The state `s'` differs from `s` by nothing but page tables created in between. -/
structure NoTrace (s s' : Vmm) : Prop where
  bitmap : s'.bitmap = s.bitmap
  blocks : ∃ new, s'.paging.tables = new ++ s.paging.tables ∧
    (∀ b < s.pmm.bound, s'.pmm.isUsed b = (s.pmm.isUsed b || decide (blockAddr b ∈ new))) ∧
    s'.pmm.usedBlocks = s.pmm.usedBlocks + UInt32.ofNat new.length
  translations : ∀ v, virtToPhys s'.paging v = virtToPhys s.paging v

theorem NoTrace.refl (s : Vmm) : NoTrace s s where
  bitmap := rfl
  blocks := ⟨[], rfl, by simp, by simp⟩
  translations := fun _ => rfl

/-- A page that is no longer free is a trace. -/
theorem not_noTrace_of_page {s s' : Vmm} {i : ℕ} (hfree : isPageFree s i = true)
    (htaken : isPageFree s' i = false) : ¬ NoTrace s s' := by
  intro h
  rw [isPageFree, h.bitmap, ← isPageFree, hfree] at htaken
  exact Bool.noConfusion htaken

/-- A block that is no longer free, and is no page table, is a trace. -/
theorem not_noTrace_of_block {s s' : Vmm} {b : ℕ} {new : List UInt32}
    (hfree : s.pmm.isFree b = true) (hused : s'.pmm.isUsed b = true)
    (htables : s'.paging.tables = new ++ s.paging.tables) (hnew : blockAddr b ∉ new) :
    ¬ NoTrace s s' := by
  obtain ⟨hb, hunused⟩ := Pmm.isFree_iff.mp hfree
  rintro ⟨-, ⟨new', htables', hblocks, -⟩, -⟩
  have heq : new' = new := List.append_cancel_right (htables'.symm.trans htables)
  have := hblocks b hb
  rw [hused, hunused, heq, decide_eq_false hnew] at this
  exact Bool.noConfusion this

/-- The same where no page table was created. -/
theorem not_noTrace_of_lost_block {s s' : Vmm} {b : ℕ} (hfree : s.pmm.isFree b = true)
    (hused : s'.pmm.isUsed b = true) (htables : s'.paging.tables = s.paging.tables) :
    ¬ NoTrace s s' :=
  not_noTrace_of_block hfree hused (htables.trans (List.nil_append _).symm) List.not_mem_nil

/-! ### Which blocks become page tables -/

/-- Mapping pages makes page tables of free blocks only. -/
theorem Builds.tables {s t : Paging} (h : Builds s t) (hs : s.pmm.bound < 2 ^ 20) :
    ∃ new, t.tables = new ++ s.tables ∧
      ∀ b < s.pmm.bound, s.pmm.isUsed b = true → blockAddr b ∉ new := by
  induction h with
  | refl => exact ⟨[], rfl, by simp⟩
  | @map t p v f hb ih =>
      obtain ⟨new, htables, hnew⟩ := ih
      have hgrow := hb.grows hs
      have ht : t.pmm.bound < 2 ^ 20 := by rw [hgrow.bound]; exact hs
      rcases pagingMapPage_cases ht p v f with
        ⟨-, heq⟩ | ⟨-, -, heq⟩ | ⟨-, -, heq⟩ | ⟨c, -, -, -, hfree, heq⟩
      · exact ⟨new, by rw [heq]; exact htables, hnew⟩
      · exact ⟨new, by rw [heq]; exact htables, hnew⟩
      · exact ⟨new, by rw [heq]; exact htables, hnew⟩
      · obtain ⟨hc, hunused⟩ := Pmm.isFree_iff.mp hfree
        refine ⟨blockAddr c :: new, ?_, fun b hlt hused => ?_⟩
        · rw [heq]
          exact congrArg (List.cons (blockAddr c)) htables
        · intro hmem
          rcases List.mem_cons.mp hmem with hbc | hold
          · have hbc := blockAddr_inj (lt_trans hlt hs) (lt_trans hc ht) hbc
            rw [← hbc, hgrow.used b hused] at hunused
            exact Bool.noConfusion hunused
          · exact hnew b hlt hused hold
  | grow _ _ ih => exact ih

/-- A mapping that fails creates no table. -/
theorem tables_of_map_fails {s : Paging} (hs : s.pmm.bound < 2 ^ 20) {p v f : UInt32}
    (h : (pagingMapPage s p v f).1 = false) : (pagingMapPage s p v f).2.tables = s.tables := by
  rcases pagingMapPage_cases hs p v f with
    ⟨-, heq⟩ | ⟨-, -, heq⟩ | ⟨-, -, heq⟩ | ⟨c, -, -, -, -, heq⟩
  · rw [heq] at h
    cases h
  · rw [heq]
  · rw [heq]
  · rw [heq] at h
    cases h

/-! ### The allocators -/

/-- The allocators of `vmm.c`, with their arguments. -/
inductive VmmAlloc
  | page
  | contiguous (pages : UInt32)
  | mmio (physAddr size flags : UInt32)
  | dma (size : UInt32)

def VmmAlloc.run (s : Vmm) : VmmAlloc → UInt32 × Vmm
  | page => vmmAllocPage s
  | contiguous n => vmmAllocContiguous s n
  | mmio p size f => vmmMapMmio s p size f
  | dma size => dmaAlloc s size

/-- The call fails before it takes anything: there is no free page or no free block for it,
no room for the run, no run of pages for the mapping (or nothing to map, at the page whose
address is null), no run of blocks in the zone for devices. -/
def VmmAlloc.FailsEarly (s : Vmm) : VmmAlloc → Prop
  | page => findFreePage s = none ∨ s.pmm.firstFree = none
  | contiguous n => NoRoom s n
  | mmio _ size _ => mmioPages size = 0 ∨ findContiguousFreePages s (mmioPages size) = none
  | dma size => s.pmm.RangeFull (dmaPages size) 0x100000 0x1000000

section Failures

variable {s : Vmm}

theorem noTrace_page_iff (hs : s.pmm.bound < 2 ^ 20) :
    NoTrace s (vmmAllocPage s).2 ↔ findFreePage s = none ∨ s.pmm.firstFree = none := by
  rcases vmmAllocPage_cases hs with ⟨hi, heq⟩ | ⟨i, hi, hcase⟩
  · rw [heq]
    exact iff_of_true (.refl s) (Or.inl hi)
  have hpage := (findFreePage_eq_some.mp hi).2.1
  have hsome : ∀ b, s.pmm.firstFree = some b →
      ¬ (findFreePage s = none ∨ s.pmm.firstFree = none) := by
    rintro b hb (h | h)
    · rw [hi] at h
      cases h
    · rw [hb] at h
      cases h
  rcases hcase with ⟨hf, heq⟩ | ⟨hf, heq⟩ | ⟨b, -, hf, hbfree, ⟨-, heq⟩ | ⟨hfail, heq⟩⟩
  · rw [heq]
    exact iff_of_true (.refl s) (Or.inr hf)
  · -- block 0 is taken for a null pointer, and lost
    rw [heq]
    refine iff_of_false (not_noTrace_of_lost_block (isFree_of_firstFree hf) ?_ rfl) (hsome 0 hf)
    rw [Vmm.pmm_withPmm, isUsed_markBlockUsed, decide_eq_true rfl, Bool.true_or]
  · -- the page at address zero is handed out as a null pointer
    rw [heq]
    refine iff_of_false (not_noTrace_of_page hpage ?_) (hsome b hf)
    exact congrArg not (Bitmap.test_set_self s.bitmap i)
  · -- block `b` was taken, and `pmm_free_block` does not release it
    rw [heq]
    have hused : (markBlockUsed s.pmm b).isUsed b = true := by
      rw [isUsed_markBlockUsed, decide_eq_true rfl, Bool.true_or]
    refine iff_of_false (not_noTrace_of_lost_block hbfree ?_
      (tables_of_map_fails (s := { s.paging with pmm := markBlockUsed s.pmm b }) hs hfail))
      (hsome b hf)
    exact (Paging.grows_map (s := { s.paging with pmm := markBlockUsed s.pmm b }) hs).used b hused

/-- A run of pages that is no longer free is a trace. -/
theorem not_noTrace_of_setRun {s' : Vmm} {n start : ℕ} (hrun : FreeRun s n start) (hn : 0 < n)
    (hbits : s'.bitmap = Bitmap.setRun s.bitmap start n) : ¬ NoTrace s s' := by
  refine not_noTrace_of_page (i := start) (hrun 0 hn).2 ?_
  rw [isPageFree, hbits, Bitmap.test_setRun, decide_eq_true (by omega), Bool.true_or,
    Bool.not_true]

/-- A mapping of a run that fails at page `i` leaves that page marked. -/
theorem page_marked_of_rollback {n start i : ℕ} {t : Vmm} (hrun : FreeRun s n start)
    (hs : s.bound < 2 ^ 20) (hi : i < n) (ht : t.bitmap = Bitmap.setRun s.bitmap start n) :
    isPageFree (vmmFreeContiguous t (pageAddr start) (UInt32.ofNat i)) (start + i) = false := by
  have hlt := (hrun i hi).1
  have htoNat : (UInt32.ofNat i).toNat = i := by
    rw [UInt32.toNat_ofNat']
    omega
  have hstart : start < 2 ^ 20 := by omega
  have hbits := bitmap_vmmFreeContiguous (s := t) hstart
    (show (UInt32.ofNat i).toNat ≤ 2 ^ 20 by omega)
  rw [htoNat] at hbits
  have hset : Bitmap.test t.bitmap (start + i) = true := by
    rw [ht, Bitmap.test_setRun, decide_eq_true (by omega), Bool.true_or]
  rw [isPageFree]
  rcases hbits with heq | heq
  · rw [heq, hset, Bool.not_true]
  · rw [heq, Bitmap.test_clearRun, hset, decide_eq_false (by omega)]
    rfl

theorem noRoom_or_pos (s : Vmm) (n : UInt32) : NoRoom s n ∨ 0 < n.toNat := by
  rcases Nat.eq_zero_or_pos n.toNat with h0 | h0
  · exact Or.inl (Or.inl (UInt32.toNat_inj.mp h0))
  · exact Or.inr h0

/-- What a null pointer from `vmm_alloc_contiguous` leaves behind: nothing, or a page still
marked, or blocks lost at address zero. -/
theorem vmmAllocContiguous_trace (hs : s.pmm.bound < 2 ^ 20) (hp : s.bound < 2 ^ 20)
    (n : UInt32) :
    NoRoom s n ∧ (vmmAllocContiguous s n).2 = s ∨
      ¬ NoRoom s n ∧ ((∃ i, isPageFree s i = true ∧
          isPageFree (vmmAllocContiguous s n).2 i = false) ∨
        s.pmm.isFree 0 = true ∧
          (vmmAllocContiguous s n).2 = s.withPmm (markRunUsed n.toNat 0 s.pmm)) := by
  rcases vmmAllocContiguous_cases hs n with ⟨hroom, heq⟩ | ⟨start, b, hroom, hfind, hb, hcase⟩
  · rw [heq]
    exact Or.inl ⟨hroom, rfl⟩
  · have hn : 0 < n.toNat := (noRoom_or_pos s n).resolve_left hroom
    have hrun := (freeRun_of_find hfind).2.2
    refine Or.inr ⟨hroom, ?_⟩
    rcases hcase with ⟨rfl, heq⟩ | ⟨-, -, heq⟩ | ⟨i, -, hfail, heq⟩
    · refine Or.inr ⟨?_, by rw [heq]⟩
      have := isRun_of_firstRun hb 0 hn
      rwa [Nat.zero_add] at this
    · refine Or.inl ⟨start, (hrun 0 hn).2, ?_⟩
      rw [heq, isPageFree]
      show (!Bitmap.test (Bitmap.setRun s.bitmap start n.toNat) start) = false
      rw [Bitmap.test_setRun, decide_eq_true (by omega), Bool.true_or, Bool.not_true]
    · have hi : i < n.toNat := by
        have := (mapPages_some_lt hfail).2
        omega
      refine Or.inl ⟨start + i, (hrun i hi).2, ?_⟩
      rw [heq]
      exact page_marked_of_rollback hrun hp hi rfl

theorem isUsed_markRunUsed (n b : ℕ) (p : Pmm) (j : ℕ) :
    (markRunUsed n b p).isUsed j = (decide (b ≤ j ∧ j < b + n) || p.isUsed j) := by
  rw [markRunUsed_eq, Pmm.isUsed, Bitmap.test_setRun]
  rfl

theorem noTrace_contiguous_iff (hs : s.pmm.bound < 2 ^ 20) (hp : s.bound < 2 ^ 20) (n : UInt32) :
    NoTrace s (vmmAllocContiguous s n).2 ↔ NoRoom s n := by
  rcases vmmAllocContiguous_trace hs hp n with ⟨hroom, heq⟩ | ⟨hroom, hpage | ⟨hfree, heq⟩⟩
  · rw [heq]
    exact iff_of_true (.refl s) hroom
  · obtain ⟨i, hfree, htaken⟩ := hpage
    exact iff_of_false (not_noTrace_of_page hfree htaken) hroom
  · have hn : 0 < n.toNat := (noRoom_or_pos s n).resolve_left hroom
    rw [heq]
    refine iff_of_false (not_noTrace_of_lost_block hfree ?_ rfl) hroom
    rw [Vmm.pmm_withPmm, isUsed_markRunUsed, decide_eq_true (by omega), Bool.true_or]

theorem noTrace_mmio_iff (p size f : UInt32) :
    NoTrace s (vmmMapMmio s p size f).2 ↔
      mmioPages size = 0 ∨ findContiguousFreePages s (mmioPages size) = none := by
  rcases vmmMapMmio_cases s p size f with ⟨hnone, heq⟩ | ⟨start, hfind, -, heq⟩
  · rw [heq]
    exact iff_of_true (.refl s) (Or.inr hnone)
  · rcases Nat.eq_zero_or_pos (mmioPages size) with h0 | hn
    · have hsame : (vmmMapMmio s p size f).2 = s := by
        rw [heq, mmioLoop, h0]
        rfl
      rw [hsame]
      exact iff_of_true (.refl s) (Or.inl h0)
    · refine iff_of_false
        (not_noTrace_of_setRun (freeRun_of_find hfind).2.2 hn (by rw [heq]; rfl)) ?_
      rintro (h | h)
      · omega
      · rw [hfind] at h
        cases h

theorem noTrace_dma_iff (hs : s.pmm.bound < 2 ^ 20) (hp : s.bound < 2 ^ 20) (size : UInt32) :
    NoTrace s (dmaAlloc s size).2 ↔ s.pmm.RangeFull (dmaPages size) 0x100000 0x1000000 := by
  rcases dmaAlloc_cases s size with ⟨hfull, heq⟩ | ⟨b, pmm, hroom, -, -, htakes, hne, heq⟩
  · rw [heq]
    exact iff_of_true (.refl s) hfull
  refine iff_of_false ?_ hroom
  have hpos : 0 < (dmaPages size).toNat := by
    rcases Nat.eq_zero_or_pos (dmaPages size).toNat with h0 | h0
    · exact absurd (UInt32.toNat_inj.mp h0) hne
    · exact h0
  have hb : (s.withPmm pmm).pmm.bound < 2 ^ 20 := by
    rw [Vmm.pmm_withPmm, htakes.bound]
    exact hs
  have hbfree : s.pmm.isFree b = true := by
    have := htakes.run 0 hpos
    rwa [Nat.add_zero] at this
  have hbused : pmm.isUsed b = true := by
    rw [htakes.isUsed, decide_eq_true (by omega), Bool.true_or]
  -- the blocks stay used and are no page tables, whatever is mapped over them
  have hkeep : ∀ t : Vmm, Grows pmm t.pmm → t.paging.tables = s.paging.tables → ∀ virt,
      ¬ NoTrace s (t.withPaging (mapEach (blockAddr b) virt (1 ||| 2 ||| 16)
        (dmaPages size).toNat 0 t.paging)) := by
    intro t hgrow htables virt
    have ht : t.paging.pmm.bound < 2 ^ 20 := by
      show t.pmm.bound < 2 ^ 20
      rw [hgrow.bound]
      exact hb
    have hmap : Builds t.paging (mapEach (blockAddr b) virt (1 ||| 2 ||| 16)
        (dmaPages size).toNat 0 t.paging) := builds_mapEach
    obtain ⟨new, hnew, hfresh⟩ := hmap.tables ht
    refine not_noTrace_of_block hbfree ((hmap.grows ht).used b (hgrow.used b hbused))
      (hnew.trans (by rw [htables])) (hfresh b ?_ (hgrow.used b hbused))
    show b < t.pmm.bound
    rw [hgrow.bound, htakes.bound]
    exact (Pmm.isFree_iff.mp hbfree).1
  rw [heq]
  rcases vmmAllocContiguous_trace hb hp (dmaPages size) with
    ⟨-, hsame⟩ | ⟨-, ⟨i, hfree, htaken⟩ | ⟨-, hlost⟩⟩
  · rw [hsame]
    exact hkeep (s.withPmm pmm) (.refl _) rfl _
  · exact not_noTrace_of_page (s := s) hfree htaken
  · rw [hlost]
    exact hkeep ((s.withPmm pmm).withPmm (markRunUsed (dmaPages size).toNat 0 pmm))
      (grows_markRunUsed _ _ _) rfl _

end Failures

/-- **Failed allocations.** At every reachable state, a call that returns a null pointer leaves
no trace exactly when it has failed early. -/
theorem failed_alloc_leaves_no_trace_iff (boot : Boot) (s : Vmm) (h : MmReachable boot s)
    (a : VmmAlloc) : (a.run s).1 = 0 → (NoTrace s (a.run s).2 ↔ a.FailsEarly s) := by
  obtain ⟨hs, hp⟩ := h.sizes
  intro _
  cases a with
  | page => exact noTrace_page_iff hs
  | contiguous n => exact noTrace_contiguous_iff hs hp n
  | mmio p size f => exact noTrace_mmio_iff p size f
  | dma size => exact noTrace_dma_iff hs hp size

theorem reachable_smallStart : MmReachable (smallBoot 0x130000) (smallStart 0x130000) := by
  rw [← kmain_smallBoot (by decide)]
  exact .boot

/-- On the small machine with 1216 KiB of memory, a run of 305 pages. -/
theorem failed_alloc_leaves_no_trace_small :
    NoTrace (smallStart 0x130000) ((VmmAlloc.contiguous 305).run (smallStart 0x130000)).2 ↔
      (VmmAlloc.contiguous 305).FailsEarly (smallStart 0x130000) :=
  failed_alloc_leaves_no_trace_iff _ _ reachable_smallStart (.contiguous 305) (by decide +kernel)

/-- There nine blocks are free, and `dma_alloc` of five pages takes five of them, finds that
`vmm_alloc_contiguous` has no five more, and maps its blocks over the lowest pages. -/
theorem failed_dma_alloc_leaves_trace :
    ¬ ∀ boot s, MmReachable boot s → ∀ a : VmmAlloc, (a.run s).1 = 0 →
      NoTrace s (a.run s).2 := by
  intro h
  have hsame := (h _ _ reachable_smallStart (.dma 0x5000) (by decide +kernel)).translations 0
  exact absurd hsame (by decide +kernel)

end HalOS
