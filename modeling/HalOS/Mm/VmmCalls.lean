import HalOS.Mm.VmmBoot

/-!
# What Each Virtual-Memory Call Does

The outcomes of the allocators of `HalOS.Mm.Vmm`, one by one, and what all calls have in
common: they work on the page tables by mapping, unmapping, taking blocks and releasing
blocks (`PagingRun`), and never change how much memory there is.

## Main results

* `vmmAllocPage_cases`, `vmmAllocContiguous_cases`: the outcomes of the two allocators.
* `bitmap_vmmFreeContiguous`: the pages `vmm_free_contiguous` releases.
* `pagingRun_next`: every call is a run of page-table work.
* `MmReachable.sizes`: the sizes, at every reachable state.
-/

namespace HalOS

open Bitmap (setRun clearRun)

/-! ### Marking and unmarking pages -/

@[simp] theorem Vmm.pmm_withPmm (s : Vmm) (pmm : Pmm) : (s.withPmm pmm).pmm = pmm := rfl

@[simp] theorem pmm_markPage (s : Vmm) (i : ℕ) (used : Bool) :
    (markPage s i used).pmm = s.pmm := rfl

@[simp] theorem pmm_markPages (s : Vmm) (i n : ℕ) (used : Bool) :
    (markPages s i n used).pmm = s.pmm := rfl

theorem withPmm_self (s : Vmm) : s.withPmm s.pmm = s := rfl

/-- Unmarking a page that was marked from free undoes the marking. -/
theorem markPage_false_true {s : Vmm} {i : ℕ} (h : isPageFree s i = true) :
    markPage (markPage s i true) i false = s := by
  have hclear : Bitmap.clear (Bitmap.set s.bitmap i) i = s.bitmap :=
    Bitmap.clear_set (isPageFree_iff.mp h)
  show ({ s with bitmap := Bitmap.clear (Bitmap.set s.bitmap i) i } : Vmm) = s
  rw [hclear]

theorem markPages_false_true {s : Vmm} {start n : ℕ} (h : FreeRun s n start) :
    markPages (markPages s start n true) start n false = s := by
  have hclear : clearRun (setRun s.bitmap start n) start n = s.bitmap :=
    Bitmap.clearRun_setRun fun k hk => isPageFree_iff.mp (h k hk).2
  show ({ s with bitmap := clearRun (setRun s.bitmap start n) start n } : Vmm) = s
  rw [hclear]

/-! ### The outcomes of `vmm_alloc_page` -/

/-- The mapping step of `vmm_alloc_page` for page `i` and block `b`. -/
def allocPageMap (s : Vmm) (i b : ℕ) : Bool × Paging :=
  pagingMapPage { s.paging with pmm := markBlockUsed s.pmm b } (blockAddr b) (pageAddr i) (1 ||| 2)

/-- The five ways `vmm_alloc_page` can end: no page, no block, the lost block 0, a page, and a
mapping that fails after block `b` was taken. -/
theorem vmmAllocPage_cases {s : Vmm} (hs : s.pmm.bound < 2 ^ 20) :
    findFreePage s = none ∧ vmmAllocPage s = (0, s) ∨
      ∃ i, findFreePage s = some i ∧
        (s.pmm.firstFree = none ∧ vmmAllocPage s = (0, s) ∨
          s.pmm.firstFree = some 0 ∧
            vmmAllocPage s = (0, s.withPmm (markBlockUsed s.pmm 0)) ∨
          ∃ b, 0 < b ∧ s.pmm.firstFree = some b ∧ s.pmm.isFree b = true ∧
            ((allocPageMap s i b).1 = true ∧
                vmmAllocPage s =
                  (pageAddr i, (markPage s i true).withPaging (allocPageMap s i b).2) ∨
              (allocPageMap s i b).1 = false ∧
                vmmAllocPage s = (0, s.withPaging (allocPageMap s i b).2))) := by
  unfold vmmAllocPage
  cases hi : findFreePage s with
  | none => exact Or.inl ⟨rfl, rfl⟩
  | some i =>
      have hfree := (findFreePage_eq_some.mp hi).2.1
      refine Or.inr ⟨i, rfl, ?_⟩
      simp only [pmm_markPage]
      rcases pmmAllocBlock_cases s.pmm with ⟨hf, heq⟩ | ⟨b, hf, hbfree, heq⟩
      · refine Or.inl ⟨hf, ?_⟩
        simp only [heq, if_true]
        exact congrArg (Prod.mk 0) (markPage_false_true hfree)
      · have hb : b < 2 ^ 20 := lt_trans (Pmm.isFree_iff.mp hbfree).1 hs
        rcases Nat.eq_zero_or_pos b with rfl | hpos
        · have hzero : blockAddr 0 = 0 := by decide
          refine Or.inr (Or.inl ⟨hf, ?_⟩)
          simp only [heq, hzero, if_true]
          exact congrArg (Prod.mk 0)
            (markPage_false_true (s := s.withPmm (markBlockUsed s.pmm 0)) hfree)
        · refine Or.inr (Or.inr ⟨b, hpos, hf, hbfree, ?_⟩)
          simp only [heq, if_neg (blockAddr_ne_zero hpos hb)]
          have hmap : pagingMapPage ((markPage s i true).withPmm (markBlockUsed s.pmm b)).paging
              (blockAddr b) (pageAddr i) (1 ||| 2) = allocPageMap s i b := rfl
          rw [hmap]
          generalize allocPageMap s i b = r
          rcases r with ⟨_ | _, paging⟩
          · exact Or.inr ⟨rfl, congrArg (Prod.mk 0)
              (markPage_false_true (s := s.withPaging paging) hfree)⟩
          · exact Or.inl ⟨rfl, rfl⟩

/-! ### The outcomes of `vmm_alloc_contiguous` -/

/-- The mapping loop of `vmm_alloc_contiguous` for the pages from `start` and the blocks from
`b` on. -/
def allocContiguousMap (s : Vmm) (n start b : ℕ) : Option ℕ × Paging :=
  mapPages (blockAddr b) (pageAddr start) (1 ||| 2) n 0
    { s.paging with pmm := markRunUsed n b s.pmm }

/-- `vmm_alloc_contiguous(n)` finds no room: the count is not possible, or there is no run of
pages, or no run of blocks. -/
def NoRoom (s : Vmm) (n : UInt32) : Prop :=
  n = 0 ∨ s.maxPages < n ∨ findContiguousFreePages s n.toNat = none ∨
    s.pmm.maxBlocks < n ∨ s.pmm.firstRun n.toNat = none

instance (s : Vmm) (n : UInt32) : Decidable (NoRoom s n) := by
  unfold NoRoom
  infer_instance

/-- The four ways `vmm_alloc_contiguous` can end: no room, the lost run at block 0, a run of
pages, and a mapping that fails at page `i` and is rolled back. -/
theorem vmmAllocContiguous_cases {s : Vmm} (hs : s.pmm.bound < 2 ^ 20) (n : UInt32) :
    NoRoom s n ∧ vmmAllocContiguous s n = (0, s) ∨
      ∃ start b, ¬ NoRoom s n ∧ findContiguousFreePages s n.toNat = some start ∧
        s.pmm.firstRun n.toNat = some b ∧
        (b = 0 ∧ vmmAllocContiguous s n = (0, s.withPmm (markRunUsed n.toNat 0 s.pmm)) ∨
          0 < b ∧ (allocContiguousMap s n.toNat start b).1 = none ∧
            vmmAllocContiguous s n =
              (pageAddr start, (markPages s start n.toNat true).withPaging
                (allocContiguousMap s n.toNat start b).2) ∨
          ∃ i, 0 < b ∧ (allocContiguousMap s n.toNat start b).1 = some i ∧
            vmmAllocContiguous s n =
              (0, vmmFreeContiguous ((markPages s start n.toNat true).withPaging
                (allocContiguousMap s n.toNat start b).2) (pageAddr start) (UInt32.ofNat i))) := by
  unfold vmmAllocContiguous
  by_cases hn : n = 0 ∨ s.maxPages < n
  · rw [if_pos hn]
    exact Or.inl ⟨hn.elim Or.inl fun h => Or.inr (Or.inl h), rfl⟩
  · rw [if_neg hn]
    have hn0 : n ≠ 0 := fun h => hn (Or.inl h)
    cases hfind : findContiguousFreePages s n.toNat with
    | none => exact Or.inl ⟨Or.inr (Or.inr (Or.inl hfind)), rfl⟩
    | some start =>
        have hrun := (freeRun_of_find hfind).2.2
        simp only [pmm_markPages, pmmAllocContiguous_eq]
        by_cases hmax : s.pmm.maxBlocks < n
        · rw [if_pos (Or.inr hmax)]
          refine Or.inl ⟨Or.inr (Or.inr (Or.inr (Or.inl hmax))), ?_⟩
          simp only [if_true]
          exact congrArg (Prod.mk 0) (markPages_false_true hrun)
        · rw [if_neg (not_or.mpr ⟨hn0, hmax⟩)]
          cases hblocks : s.pmm.firstRun n.toNat with
          | none =>
              refine Or.inl ⟨Or.inr (Or.inr (Or.inr (Or.inr hblocks))), ?_⟩
              simp only [if_true]
              exact congrArg (Prod.mk 0) (markPages_false_true hrun)
          | some b =>
              have hroom : ¬ NoRoom s n := by
                rintro (h | h | h | h | h)
                · exact hn (Or.inl h)
                · exact hn (Or.inr h)
                · rw [hfind] at h
                  cases h
                · exact hmax h
                · rw [hblocks] at h
                  cases h
              have hpos : 0 < n.toNat := by
                rcases Nat.eq_zero_or_pos n.toNat with h0 | h0
                · exact absurd (UInt32.toNat_inj.mp h0) hn0
                · exact h0
              have hb : b < 2 ^ 20 := by
                have := Pmm.le_bound_of_isRun hpos (isRun_of_firstRun hblocks)
                omega
              refine Or.inr ⟨start, b, hroom, rfl, rfl, ?_⟩
              simp only
              rcases Nat.eq_zero_or_pos b with rfl | hbpos
              · have hzero : blockAddr 0 = 0 := by decide
                rw [if_pos hzero]
                exact Or.inl ⟨rfl, congrArg (Prod.mk 0)
                  (markPages_false_true (s := s.withPmm (markRunUsed n.toNat 0 s.pmm)) hrun)⟩
              · rw [if_neg (blockAddr_ne_zero hbpos hb)]
                have hmap : mapPages (blockAddr b) (pageAddr start) (1 ||| 2) n.toNat 0
                    ((markPages s start n.toNat true).withPmm
                      (markRunUsed n.toNat b s.pmm)).paging =
                    allocContiguousMap s n.toNat start b := rfl
                rw [hmap]
                generalize allocContiguousMap s n.toNat start b = r
                rcases r with ⟨_ | i, paging⟩
                · exact Or.inr (Or.inl ⟨hbpos, rfl, rfl⟩)
                · exact Or.inr (Or.inr ⟨i, hbpos, rfl, rfl⟩)

/-! ### Releasing pages -/

/-- One turn of the loop of `vmm_free_contiguous`. -/
def freeContiguousStep (phys virt : UInt32) (start i : ℕ) (s : Vmm) : Vmm :=
  let s := s.withPaging (pagingUnmapPage s.paging (virt + UInt32.ofNat i * 4096))
  let s := s.withPmm (pmmMarkUnusedRegion s.pmm (phys + UInt32.ofNat i * 4096) 4096)
  markPage s (u32 (start + i)) false

theorem freeContiguousLoop_succ (phys virt : UInt32) (start n i : ℕ) (s : Vmm) :
    freeContiguousLoop phys virt start (n + 1) i s =
      freeContiguousLoop phys virt start n (i + 1) (freeContiguousStep phys virt start i s) := rfl

theorem bitmap_freeContiguousLoop {phys virt : UInt32} {start n i : ℕ} {s : Vmm}
    (h : start + i + n ≤ 2 ^ 32) :
    (freeContiguousLoop phys virt start n i s).bitmap = clearRun s.bitmap (start + i) n := by
  induction n generalizing i s with
  | zero => rfl
  | succ n ih =>
      rw [freeContiguousLoop, ih (by omega), u32_of_lt (by omega), clearRun]
      rfl

@[simp] theorem maxPages_freeContiguousLoop (phys virt : UInt32) (start n i : ℕ) (s : Vmm) :
    (freeContiguousLoop phys virt start n i s).maxPages = s.maxPages := by
  induction n generalizing i s with
  | zero => rfl
  | succ n ih => exact ih (i + 1) _

/-- The index that the source computes from the address of a window page. -/
theorem pageIndex_pageAddr {i : ℕ} (h : i < 2 ^ 20) :
    ((pageAddr i - 0xC0000000) / 4096).toNat = i := by
  have hsub : pageAddr i - 0xC0000000 = UInt32.ofNat i * 4096 := by
    rw [pageAddr]
    grind
  have hpage : (4096 : UInt32).toNat = 4096 := by decide
  rw [hsub, UInt32.toNat_div, UInt32.toNat_mul, UInt32.toNat_ofNat', hpage]
  omega

/-- `vmm_free_contiguous` does nothing, or releases the blocks from the one that the first
page translates to. -/
theorem vmmFreeContiguous_eq (s : Vmm) (virt n : UInt32) :
    vmmFreeContiguous s virt n =
      if virt = 0 ∨ n = 0 ∨ virtToPhys s.paging virt = 0xFFFFFFFF then s
      else
        freeContiguousLoop (virtToPhys s.paging virt) virt ((virt - 0xC0000000) / 4096).toNat
          n.toNat 0 s := by
  unfold vmmFreeContiguous
  by_cases h0 : virt = 0 ∨ n = 0
  · rw [if_pos h0, if_pos (h0.elim Or.inl fun h => Or.inr (Or.inl h))]
  · rw [if_neg h0]
    simp only [pmmFreeBlocks_eq, withPmm_self]
    by_cases hphys : virtToPhys s.paging virt = 0xFFFFFFFF
    · rw [if_pos hphys, if_pos (Or.inr (Or.inr hphys))]
    · rw [if_neg hphys, if_neg]
      rintro (h | h | h)
      · exact h0 (Or.inl h)
      · exact h0 (Or.inr h)
      · exact hphys h

@[simp] theorem maxPages_vmmFreeContiguous (s : Vmm) (virt n : UInt32) :
    (vmmFreeContiguous s virt n).maxPages = s.maxPages := by
  rw [vmmFreeContiguous_eq]
  split_ifs
  · rfl
  · exact maxPages_freeContiguousLoop _ _ _ _ _ _

/-- `vmm_free_contiguous` clears the bits of the pages it is given and no others. -/
theorem bitmap_vmmFreeContiguous {s : Vmm} {start : ℕ} {n : UInt32} (hstart : start < 2 ^ 20)
    (hn : n.toNat ≤ 2 ^ 20) :
    (vmmFreeContiguous s (pageAddr start) n).bitmap = s.bitmap ∨
      (vmmFreeContiguous s (pageAddr start) n).bitmap = clearRun s.bitmap start n.toNat := by
  rw [vmmFreeContiguous_eq, pageIndex_pageAddr hstart]
  split_ifs
  · exact Or.inl rfl
  · refine Or.inr ?_
    rw [bitmap_freeContiguousLoop (by omega)]
    rfl

/-! ### The outcomes of `dma_alloc` -/

/-- The number of pages `dma_alloc` takes for `size` bytes. -/
def dmaPages (size : UInt32) : UInt32 := (size + 4095) / 4096

/-- The two ways `dma_alloc` can go: no blocks in the zone, or blocks from `b` on, which are
mapped over whatever `vmm_alloc_contiguous` returns. -/
theorem dmaAlloc_cases (s : Vmm) (size : UInt32) :
    s.pmm.RangeFull (dmaPages size) 0x100000 0x1000000 ∧ dmaAlloc s size = (0, s) ∨
      ∃ b pmm, ¬ s.pmm.RangeFull (dmaPages size) 0x100000 0x1000000 ∧
        (256 ≤ b ∧ b + (dmaPages size).toNat ≤ 4096) ∧
        pmm = (pmmAllocBlocksInRange s.pmm (dmaPages size) 0x100000 0x1000000).2 ∧
        TakesRun s.pmm (dmaPages size).toNat b pmm ∧ dmaPages size ≠ 0 ∧
        dmaAlloc s size =
          ((vmmAllocContiguous (s.withPmm pmm) (dmaPages size)).1,
            (vmmAllocContiguous (s.withPmm pmm) (dmaPages size)).2.withPaging
              (mapEach (blockAddr b) (vmmAllocContiguous (s.withPmm pmm) (dmaPages size)).1
                (1 ||| 2 ||| 16) (dmaPages size).toNat 0
                (vmmAllocContiguous (s.withPmm pmm) (dmaPages size)).2.paging)) := by
  have hpages : (size + 4095) / 4096 = dmaPages size := rfl
  rw [dmaAlloc]
  simp only [hpages]
  obtain ⟨hfull, heq⟩ | ⟨b, hroom, haddr, htakes, hlo, hhi, hne⟩ :=
    pmmAllocBlocksInRange_spec s.pmm (dmaPages size) 0x100000 0x1000000
  · rw [heq]
    exact Or.inl ⟨hfull, rfl⟩
  · have hlo' : 256 ≤ b := hlo
    have hhi' : b + (dmaPages size).toNat ≤ 4096 := hhi
    have hpos := toNat_pos_of_ne_zero hne
    have hb := Pmm.le_bound_of_isRun hpos htakes.run
    generalize pmmAllocBlocksInRange s.pmm (dmaPages size) 0x100000 0x1000000 = r at haddr htakes ⊢
    obtain ⟨phys, pmm⟩ := r
    simp only at haddr htakes
    subst haddr
    refine Or.inr ⟨b, pmm, hroom, ⟨hlo', hhi'⟩, rfl, htakes, hne, ?_⟩
    simp only [if_neg (blockAddr_ne_zero (show 0 < b by omega) (show b < 2 ^ 20 by omega))]

/-! ### Runs of page-table work -/

/-- `s'` comes from `s` by mapping and unmapping pages, taking blocks, and releasing blocks
that `ok` allows at the time. -/
inductive PagingRun (ok : Paging → UInt32 → Prop) (s : Paging) : Paging → Prop
  | refl : PagingRun ok s s
  | build {t u : Paging} : PagingRun ok s t → Builds t u → PagingRun ok s u
  | unmap {t : Paging} (v : UInt32) : PagingRun ok s t → PagingRun ok s (pagingUnmapPage t v)
  | release {t : Paging} (a : UInt32) : ok t a → PagingRun ok s t →
      PagingRun ok s { t with pmm := pmmMarkUnusedRegion t.pmm a 4096 }

namespace PagingRun

variable {ok : Paging → UInt32 → Prop} {s t u : Paging}

theorem trans (h : PagingRun ok s t) (h' : PagingRun ok t u) : PagingRun ok s u := by
  induction h' with
  | refl => exact h
  | build _ hb ih => exact .build ih hb
  | unmap v _ ih => exact .unmap v ih
  | release a ha _ ih => exact .release a ha ih

theorem of_builds (h : Builds s t) : PagingRun ok s t := .build .refl h

theorem mono {ok' : Paging → UInt32 → Prop} (himp : ∀ t a, ok t a → ok' t a)
    (h : PagingRun ok s t) : PagingRun ok' s t := by
  induction h with
  | refl => exact .refl
  | build _ hb ih => exact .build ih hb
  | unmap v _ ih => exact .unmap v ih
  | release a ha _ ih => exact .release a (himp _ _ ha) ih

theorem bound (h : PagingRun ok s t) (hs : s.pmm.bound < 2 ^ 20) : t.pmm.bound = s.pmm.bound := by
  induction h with
  | refl => rfl
  | build _ hb ih => rw [(hb.grows (by rw [ih]; exact hs)).bound, ih]
  | unmap v _ ih => rw [Paging.pmm_unmap, ih]
  | release a _ _ ih =>
      rw [← ih]
      exact bound_markRegion _ _ _ _

theorem pageDirectory (h : PagingRun ok s t) (hs : s.pmm.bound < 2 ^ 20) :
    t.pageDirectory = s.pageDirectory := by
  induction h with
  | refl => rfl
  | build hr hb ih => rw [hb.pageDirectory (by rw [hr.bound hs]; exact hs), ih]
  | unmap v _ ih => rw [Paging.pageDirectory_unmap, ih]
  | release a _ _ ih => exact ih

end PagingRun

/-- The block of address `a` is released. -/
theorem isUsed_pmmMarkUnusedRegion (p : Pmm) (a : UInt32) (j : ℕ) :
    (pmmMarkUnusedRegion p a 4096).isUsed j =
      (p.isUsed j && !decide (j = (a / 4096).toNat ∧ j < p.bound)) := by
  have hone : regionBlocks 4096 = 1 := by decide
  rw [pmmMarkUnusedRegion, hone, isUsed_markRegion]
  by_cases hj : j = (a / 4096).toNat ∧ j < p.bound
  · rw [if_pos (by omega), decide_eq_true hj, Bool.not_true, Bool.and_false]
  · rw [if_neg (by omega), decide_eq_false hj, Bool.not_false, Bool.and_true]

theorem blockAddr_of_div (a : UInt32) : blockAddr (a / 4096).toNat = pageBase a := by
  have hpage : (4096 : UInt32).toNat = 4096 := by decide
  apply UInt32.toNat_inj.mp
  rw [toNat_blockAddr (by rw [UInt32.toNat_div, hpage]; have := UInt32.toNat_lt a; omega),
    toNat_pageBase, UInt32.toNat_div, hpage]

/-- Page-table work that releases no frame of the tables keeps them sound. -/
theorem PagingRun.sound {s t : Paging}
    (h : PagingRun (fun t a => ¬ t.Holds (pageBase a)) s t) (hs : s.Sound) : t.Sound := by
  induction h with
  | refl => exact hs
  | build _ hb ih => exact hb.sound ih
  | unmap v _ ih => exact ih.unmap
  | @release t a hok _ ih =>
      refine ih.withPmm (bound_markRegion _ _ _ _) fun b hb hheld hused => ?_
      have hne : b ≠ (a / 4096).toNat := by
        rintro rfl
        rw [blockAddr_of_div] at hheld
        exact hok hheld
      rw [isUsed_pmmMarkUnusedRegion, hused, decide_eq_false fun h => hne h.1]
      rfl

/-- Two pages of the window share a slot of sound tables only if they are the same or are
mirrored: one among the first 1024, the other `0x40000` above it. -/
theorem Paging.Sound.slot_cases {s : Paging} (h : s.Sound) {i j : ℕ} (hi : i < 2 ^ 20)
    (hj : j < 2 ^ 20)
    (hslot : pageNum (pageAddr i) = pageNum (pageAddr j) ∨
      s.SameSlot (pageNum (pageAddr i)) (pageNum (pageAddr j))) :
    i = j ∨ i < 1024 ∧ j = i + 0x40000 ∨ j < 1024 ∧ i = j + 0x40000 := by
  have heq : pageNum (pageAddr i) = pageNum (pageAddr j) → i = j := by
    rw [pageNum_pageAddr, pageNum_pageAddr]
    omega
  obtain hsame | hslot := hslot
  · exact Or.inl (heq hsame)
  obtain hsame | htwin := h.eq_or_twin (pageNum_lt _) (pageNum_lt _) hslot
  · exact Or.inl (heq hsame)
  · have hmod := hslot.2.2.2
    rw [pageNum_pageAddr, pageNum_pageAddr] at htwin hmod
    rw [Twin] at htwin
    omega

/-! ### Every call is such a run -/

section Calls

variable {ok : Paging → UInt32 → Prop} {s : Vmm}

theorem Builds.withPmm {s : Paging} {pmm : Pmm} (h : Grows s.pmm pmm) :
    Builds s { s with pmm := pmm } := .grow h .refl

theorem builds_allocPageMap (s : Vmm) (i b : ℕ) : Builds s.paging (allocPageMap s i b).2 :=
  (Builds.withPmm (grows_markBlockUsed s.pmm b)).trans (.map _ _ _ .refl)

theorem grows_markRunUsed (n b : ℕ) (p : Pmm) : Grows p (markRunUsed n b p) := by
  induction n generalizing b p with
  | zero => exact .refl p
  | succ n ih => exact (grows_markBlockUsed p b).trans (ih (b + 1) (markBlockUsed p b))

theorem builds_allocContiguousMap (s : Vmm) (n start b : ℕ) :
    Builds s.paging (allocContiguousMap s n start b).2 :=
  (Builds.withPmm (grows_markRunUsed n b s.pmm)).trans builds_mapPages

theorem builds_vmmAllocPage (hs : s.pmm.bound < 2 ^ 20) :
    Builds s.paging (vmmAllocPage s).2.paging := by
  rcases vmmAllocPage_cases hs with ⟨-, heq⟩ | ⟨i, -, ⟨-, heq⟩ | ⟨-, heq⟩ | ⟨b, -, -, -, hcase⟩⟩
  · rw [heq]
    exact .refl
  · rw [heq]
    exact .refl
  · rw [heq]
    exact .withPmm (grows_markBlockUsed _ _)
  · rcases hcase with ⟨-, heq⟩ | ⟨-, heq⟩
    · rw [heq]
      exact builds_allocPageMap s i b
    · rw [heq]
      exact builds_allocPageMap s i b

@[simp] theorem maxPages_vmmAllocPage (hs : s.pmm.bound < 2 ^ 20) :
    (vmmAllocPage s).2.maxPages = s.maxPages := by
  rcases vmmAllocPage_cases hs with ⟨-, heq⟩ | ⟨i, -, ⟨-, heq⟩ | ⟨-, heq⟩ | ⟨b, -, -, -, hcase⟩⟩
  · rw [heq]
  · rw [heq]
  · rw [heq]
    rfl
  · rcases hcase with ⟨-, heq⟩ | ⟨-, heq⟩ <;> rw [heq] <;> rfl

/-- What `vmm_free_page` does when it does anything. -/
theorem vmmFreePage_eq (s : Vmm) (addr : UInt32) :
    vmmFreePage s addr =
      if addr = 0 ∨ addr &&& 4095 ≠ 0 ∨ addr < 0xC0000000 ∨
          s.maxPages ≤ (addr - 0xC0000000) / 4096 ∨ virtToPhys s.paging addr = 0xFFFFFFFF then s
      else
        markPage (s.withPaging (pagingUnmapPage s.paging addr))
          ((addr - 0xC0000000) / 4096).toNat false := by
  unfold vmmFreePage
  simp only [pmmFreeBlock, withPmm_self]
  by_cases h1 : addr = 0
  · simp [h1]
  by_cases h2 : addr &&& 4095 ≠ 0
  · simp [h2]
  by_cases h3 : addr < 0xC0000000
  · simp [h3]
  by_cases h4 : s.maxPages ≤ (addr - 0xC0000000) / 4096
  · simp [h4]
  by_cases h5 : virtToPhys s.paging addr = 0xFFFFFFFF
  · simp [h5]
  · simp only [h1, h2, h3, h4, h5, if_false, or_self]

theorem pagingRun_vmmFreePage (addr : UInt32) :
    PagingRun ok s.paging (vmmFreePage s addr).paging := by
  rw [vmmFreePage_eq]
  split_ifs
  · exact .refl
  · exact .unmap addr .refl

@[simp] theorem maxPages_vmmFreePage (s : Vmm) (addr : UInt32) :
    (vmmFreePage s addr).maxPages = s.maxPages := by
  rw [vmmFreePage_eq]
  split_ifs <;> rfl

theorem pagingRun_freePages (addr : UInt32) (n j : ℕ) :
    PagingRun ok s.paging (freePages addr n j s).paging := by
  induction n generalizing j s with
  | zero => exact .refl
  | succ n ih => exact (pagingRun_vmmFreePage _).trans (ih (j + 1))

theorem maxPages_freePages (addr : UInt32) (n j : ℕ) (s : Vmm) :
    (freePages addr n j s).maxPages = s.maxPages := by
  induction n generalizing j s with
  | zero => rfl
  | succ n ih => rw [freePages, ih, maxPages_vmmFreePage]

theorem pagingRun_liballocAllocLoop (n i : ℕ) (virt : UInt32) (hs : s.pmm.bound < 2 ^ 20) :
    PagingRun ok s.paging (liballocAllocLoop n i virt s).2.paging ∧
      (liballocAllocLoop n i virt s).2.maxPages = s.maxPages := by
  induction n generalizing i virt s with
  | zero => exact ⟨.refl, rfl⟩
  | succ n ih =>
      rw [liballocAllocLoop]
      have hrun : PagingRun ok s.paging (vmmAllocPage s).2.paging :=
        .of_builds (builds_vmmAllocPage hs)
      have hmax := maxPages_vmmAllocPage hs
      have hb : (vmmAllocPage s).2.pmm.bound < 2 ^ 20 := by
        have := hrun.bound hs
        show (vmmAllocPage s).2.paging.pmm.bound < 2 ^ 20
        rw [this]
        exact hs
      generalize vmmAllocPage s = r at hrun hmax hb
      obtain ⟨page, t⟩ := r
      simp only at hrun hmax hb ⊢
      split_ifs
      · exact ⟨hrun.trans (pagingRun_freePages virt i 0), by rw [maxPages_freePages, hmax]⟩
      · obtain ⟨h1, h2⟩ := ih (i + 1) page hb
        exact ⟨hrun.trans h1, h2.trans hmax⟩
      · obtain ⟨h1, h2⟩ := ih (i + 1) virt hb
        exact ⟨hrun.trans h1, h2.trans hmax⟩

theorem maxPages_vmmMapMmio (s : Vmm) (p size f : UInt32) :
    (vmmMapMmio s p size f).2.maxPages = s.maxPages := by
  rcases vmmMapMmio_cases s p size f with ⟨-, heq⟩ | ⟨start, -, -, heq⟩
  · rw [heq]
  · rw [heq]
    rfl

/-- The loop of `vmm_free_contiguous`, if it may release the blocks it comes to. -/
theorem pagingRun_freeContiguousLoop {phys virt : UInt32} {start n i : ℕ}
    (hok : ∀ t k, k < i + n → ok t (phys + UInt32.ofNat k * 4096)) :
    PagingRun ok s.paging (freeContiguousLoop phys virt start n i s).paging := by
  induction n generalizing i s with
  | zero => exact .refl
  | succ n ih =>
      have hstep : PagingRun ok s.paging (freeContiguousStep phys virt start i s).paging :=
        .release _ (hok _ i (by omega)) (.unmap _ .refl)
      rw [freeContiguousLoop_succ]
      exact hstep.trans (ih fun t k hk => hok t k (by omega))

theorem pagingRun_vmmFreeContiguous (virt n : UInt32) :
    PagingRun (fun _ _ => True) s.paging (vmmFreeContiguous s virt n).paging := by
  rw [vmmFreeContiguous_eq]
  split_ifs
  · exact .refl
  · exact pagingRun_freeContiguousLoop fun _ _ _ => trivial

theorem pagingRun_vmmAllocContiguous (hs : s.pmm.bound < 2 ^ 20) (n : UInt32) :
    PagingRun (fun _ _ => True) s.paging (vmmAllocContiguous s n).2.paging ∧
      (vmmAllocContiguous s n).2.maxPages = s.maxPages := by
  rcases vmmAllocContiguous_cases hs n with ⟨-, heq⟩ | ⟨start, b, -, -, -, hcase⟩
  · rw [heq]
    exact ⟨.refl, rfl⟩
  · rcases hcase with ⟨-, heq⟩ | ⟨-, -, heq⟩ | ⟨i, -, -, heq⟩
    · rw [heq]
      exact ⟨.of_builds (.withPmm (grows_markRunUsed _ _ _)), rfl⟩
    · rw [heq]
      exact ⟨.of_builds (builds_allocContiguousMap _ _ _ _), rfl⟩
    · rw [heq]
      refine ⟨?_, maxPages_vmmFreeContiguous _ _ _⟩
      have hmap := builds_allocContiguousMap s n.toNat start b
      exact (PagingRun.of_builds hmap).trans
        (pagingRun_vmmFreeContiguous (s := (markPages s start n.toNat true).withPaging
          (allocContiguousMap s n.toNat start b).2) _ _)

theorem pagingRun_dmaAlloc (hs : s.pmm.bound < 2 ^ 20) (size : UInt32) :
    PagingRun (fun _ _ => True) s.paging (dmaAlloc s size).2.paging ∧
      (dmaAlloc s size).2.maxPages = s.maxPages := by
  rcases dmaAlloc_cases s size with ⟨-, heq⟩ | ⟨b, pmm, -, -, -, htakes, -, heq⟩
  · rw [heq]
    exact ⟨.refl, rfl⟩
  · have hb : (s.withPmm pmm).pmm.bound < 2 ^ 20 := by
      rw [Vmm.pmm_withPmm, htakes.bound]
      exact hs
    obtain ⟨hrun, hmax⟩ := pagingRun_vmmAllocContiguous hb (dmaPages size)
    rw [heq]
    refine ⟨?_, hmax⟩
    exact ((PagingRun.of_builds (.withPmm htakes.grows)).trans hrun).build builds_mapEach

/-- **Every call** works on the page tables by mapping, unmapping, taking and releasing, and
leaves `vmm_max_pages` alone. -/
theorem pagingRun_next (hs : s.pmm.bound < 2 ^ 20) (c : VmmCall) :
    PagingRun (fun _ _ => True) s.paging (c.next s).paging ∧
      (c.next s).maxPages = s.maxPages := by
  cases c with
  | allocPage => exact ⟨.of_builds (builds_vmmAllocPage hs), maxPages_vmmAllocPage hs⟩
  | freePage a => exact ⟨pagingRun_vmmFreePage a, maxPages_vmmFreePage s a⟩
  | allocContiguous n => exact pagingRun_vmmAllocContiguous hs n
  | freeContiguous a n => exact ⟨pagingRun_vmmFreeContiguous a n, maxPages_vmmFreeContiguous s a n⟩
  | mapMmio p size f =>
      exact ⟨.of_builds (builds_vmmMapMmio s p size f), maxPages_vmmMapMmio s p size f⟩
  | dmaAlloc size => exact pagingRun_dmaAlloc hs size
  | dmaFree a size =>
      show PagingRun _ s.paging (dmaFree s a size).paging ∧ (dmaFree s a size).maxPages = _
      unfold dmaFree
      simp only
      split_ifs
      · exact ⟨.refl, rfl⟩
      · exact ⟨.refl, rfl⟩
      · exact ⟨.refl, rfl⟩
      · exact ⟨pagingRun_vmmFreeContiguous _ _, maxPages_vmmFreeContiguous _ _ _⟩
  | liballocAlloc n =>
      show PagingRun _ s.paging (liballocAlloc s n).2.paging ∧ (liballocAlloc s n).2.maxPages = _
      unfold liballocAlloc
      split_ifs
      · exact ⟨.refl, rfl⟩
      · exact pagingRun_liballocAllocLoop _ _ _ hs
  | liballocFree p n =>
      show PagingRun _ s.paging (liballocFree s p n).paging ∧ (liballocFree s p n).maxPages = _
      unfold liballocFree
      split_ifs
      · exact ⟨.refl, rfl⟩
      · exact ⟨pagingRun_freePages _ _ _, maxPages_freePages _ _ _ _⟩

end Calls

/-! ### Sizes at reachable states -/

theorem Boot.pagingInit_bound_lt (boot : Boot) :
    (pagingInit boot.initial.paging).pmm.bound < 2 ^ 20 := by
  rw [(grows_pagingInit _).bound]
  exact bound_pmmInit_lt boot.kernel boot.memSize boot.pmmBitmap boot.pmmBytes

theorem Boot.kmain_pmm_bound_lt (boot : Boot) : boot.kmain.pmm.bound < 2 ^ 20 := by
  have hb := boot.pagingInit_bound_lt
  have hgrow := (builds_kmain boot).grows hb
  show boot.kmain.paging.pmm.bound < 2 ^ 20
  rw [hgrow.bound]
  exact hb

theorem toNat_div_page_lt (a : UInt32) : (a / 4096).toNat < 2 ^ 20 := by
  have hlt := UInt32.toNat_lt a
  have hpage : (4096 : UInt32).toNat = 4096 := by decide
  rw [UInt32.toNat_div, hpage]
  omega

/-- There are fewer than `2 ^ 20` pages. -/
theorem bound_vmmBitmapInit {s : Vmm} (bytes : ℕ → UInt8) (hs : s.bound < 2 ^ 20) :
    (vmmBitmapInit s bytes).bound < 2 ^ 20 := by
  have hmap : ∀ pmm, (vmmBitmapInitMap s pmm).bound < 2 ^ 20 := fun pmm =>
    toNat_div_page_lt s.pmm.memorySize
  rcases vmmBitmapInit_cases s bytes with heq | ⟨phys, pmm, -, heq | ⟨virt, t, hm, hcase⟩⟩
  · rw [heq]
    exact hs
  · rw [heq]
    exact hmap pmm
  · have ht : t.bound < 2 ^ 20 := by
      have hmax := maxPages_vmmMapMmio (vmmBitmapInitMap s pmm) phys (vmmBitmapPages s * 4096)
        (1 ||| 2)
      rw [hm] at hmax
      show t.maxPages.toNat < 2 ^ 20
      rw [hmax]
      exact hmap pmm
    rcases hcase with ⟨-, heq⟩ | ⟨-, heq⟩ <;> rw [heq] <;> exact ht

theorem Boot.kmain_bound_lt (boot : Boot) : boot.kmain.bound < 2 ^ 20 := by
  have hinit : (boot.initial.withPaging (pagingInit boot.initial.paging)).bound < 2 ^ 20 :=
    show (0 : UInt32).toNat < 2 ^ 20 by decide
  have hbound := bound_vmmBitmapInit boot.vmmBytes hinit
  have hrest : boot.kmain.bound = (vmmBitmapInit
      (boot.initial.withPaging (pagingInit boot.initial.paging)) boot.vmmBytes).bound := by
    simp only [Boot.kmain, Boot.vmm, vmmInit]
    generalize vmmBitmapInit _ boot.vmmBytes = t
    split_ifs <;> rfl
  rw [hrest]
  exact hbound

theorem MmReachable.sizes {boot : Boot} {s : Vmm} (h : MmReachable boot s) :
    s.pmm.bound < 2 ^ 20 ∧ s.bound < 2 ^ 20 := by
  induction h with
  | boot => exact ⟨boot.kmain_pmm_bound_lt, boot.kmain_bound_lt⟩
  | @vmm s c _ ih =>
      obtain ⟨hrun, hmax⟩ := pagingRun_next ih.1 c
      constructor
      · show (c.next s).paging.pmm.bound < 2 ^ 20
        rw [hrun.bound ih.1]
        exact ih.1
      · show (c.next s).maxPages.toNat < 2 ^ 20
        rw [hmax]
        exact ih.2
  | @pmm s c _ ih =>
      refine ⟨?_, ih.2⟩
      rw [Vmm.pmm_withPmm, bound_next]
      exact ih.1

end HalOS
