import Mathlib.Order.Interval.Finset.Nat
import HalOS.Mm.VmmFailure

/-!
# Freeing Device Memory

A successful `dma_alloc(size)` takes two runs of blocks: its own, in the zone for devices, and
the run that `vmm_alloc_contiguous` backs the pages with before they are mapped over.
`dma_free` releases as many blocks as there are pages, so it never gives back both.

## Main results

* `dma_free_never_restores`: `dma_free` never undoes a `dma_alloc`.
-/

namespace HalOS

/-- `dma_free` after `dma_alloc(size)`. -/
def dmaRoundTrip (s : Vmm) (size : UInt32) : Vmm :=
  dmaFree (dmaAlloc s size).2 (dmaAlloc s size).1 size

/-- The round trip restores the bitmaps and the block count, and unmaps the pages. -/
structure DmaRestores (s : Vmm) (size : UInt32) : Prop where
  blocks : (dmaRoundTrip s size).pmm.memoryMap = s.pmm.memoryMap
  usedBlocks : (dmaRoundTrip s size).pmm.usedBlocks = s.pmm.usedBlocks
  pages : (dmaRoundTrip s size).bitmap = s.bitmap
  unmapped : ∀ k < (dmaPages size).toNat,
    virtToPhys (dmaRoundTrip s size).paging ((dmaAlloc s size).1 + UInt32.ofNat k * 4096) =
      0xFFFFFFFF

/-- The tables for the pages that `dma_alloc` chooses exist. -/
def DmaTablesExist (s : Vmm) (size : UInt32) : Prop :=
  ∀ k < (dmaPages size).toNat,
    isPresent (s.paging.pde (pdIndex ((dmaAlloc s size).1 + UInt32.ofNat k * 4096))) = true

instance (s : Vmm) (size : UInt32) : Decidable (DmaTablesExist s size) :=
  inferInstanceAs (Decidable (∀ k < _, _))

/-- Block `j` stays in use if the loop of `vmm_free_contiguous` does not come to it. -/
theorem isUsed_freeContiguousLoop {phys virt : UInt32} {start n i j : ℕ} {s : Vmm}
    (hused : s.pmm.isUsed j = true)
    (hne : ∀ k, i ≤ k → k < i + n → j ≠ ((phys + UInt32.ofNat k * 4096) / 4096).toNat) :
    (freeContiguousLoop phys virt start n i s).pmm.isUsed j = true := by
  induction n generalizing i s with
  | zero => exact hused
  | succ n ih =>
      rw [freeContiguousLoop_succ]
      refine ih ?_ fun k hk hk' => hne k (by omega) (by omega)
      have hstep : (freeContiguousStep phys virt start i s).pmm =
          pmmMarkUnusedRegion (pagingUnmapPage s.paging (virt + UInt32.ofNat i * 4096)).pmm
            (phys + UInt32.ofNat i * 4096) 4096 := rfl
      rw [hstep, isUsed_pmmMarkUnusedRegion, Paging.pmm_unmap,
        decide_eq_false fun h => hne i le_rfl (by omega) h.1]
      exact (Bool.and_true _).trans hused

/-- What `dma_free` can do. -/
theorem dmaFree_cases (s : Vmm) (virt size : UInt32) :
    dmaFree s virt size = s ∨
      dmaFree s virt size =
        freeContiguousLoop (virtToPhys s.paging virt) virt ((virt - 0xC0000000) / 4096).toNat
          (dmaPages size).toNat 0 s := by
  rw [dmaFree]
  simp only [vmmFreeContiguous_eq]
  split_ifs
  · exact Or.inl rfl
  · exact Or.inl rfl
  · exact Or.inl rfl
  · exact Or.inl rfl
  · exact Or.inr rfl

/-- `dma_free` releases no more blocks than there are pages. -/
theorem released_dmaFree (s : Vmm) (virt size : UInt32) :
    ∃ released : ℕ → ℕ, ∀ j, s.pmm.isUsed j = true →
      (dmaFree s virt size).pmm.isUsed j = false →
        ∃ k < (dmaPages size).toNat, j = released k := by
  refine ⟨fun k => ((virtToPhys s.paging virt + UInt32.ofNat k * 4096) / 4096).toNat, ?_⟩
  intro j hused hfreed
  by_contra hnot
  have hkept : (dmaFree s virt size).pmm.isUsed j = true := by
    obtain heq | heq := dmaFree_cases s virt size
    · rw [heq]
      exact hused
    · rw [heq]
      exact isUsed_freeContiguousLoop hused fun k _ hk heq => hnot ⟨k, by omega, heq⟩
  rw [hfreed] at hkept
  exact Bool.noConfusion hkept

/-- Two disjoint runs of `n` blocks are not covered by `n` blocks. -/
theorem two_runs_not_covered {n b c : ℕ} (hn : 0 < n) {f : ℕ → ℕ}
    (hdisj : ∀ i < n, ∀ j < n, b + i ≠ c + j) (hb : ∀ i < n, ∃ k < n, b + i = f k)
    (hc : ∀ j < n, ∃ k < n, c + j = f k) : False := by
  have hcover : Finset.Ico b (b + n) ∪ Finset.Ico c (c + n) ⊆ (Finset.range n).image f := by
    intro x hx
    rw [Finset.mem_union, Finset.mem_Ico, Finset.mem_Ico] at hx
    rw [Finset.mem_image]
    obtain hx | hx := hx
    · obtain ⟨k, hk, heq⟩ := hb (x - b) (by omega)
      exact ⟨k, Finset.mem_range.mpr hk, by omega⟩
    · obtain ⟨k, hk, heq⟩ := hc (x - c) (by omega)
      exact ⟨k, Finset.mem_range.mpr hk, by omega⟩
  have hapart : Disjoint (Finset.Ico b (b + n)) (Finset.Ico c (c + n)) := by
    rw [Finset.disjoint_left]
    intro x hx hx'
    rw [Finset.mem_Ico] at hx hx'
    exact hdisj (x - b) (by omega) (x - c) (by omega) (by omega)
  have hcard := (Finset.card_le_card hcover).trans Finset.card_image_le
  rw [Finset.card_union_of_disjoint hapart, Nat.card_Ico, Nat.card_Ico, Finset.card_range] at hcard
  omega

/-- A successful `dma_alloc` takes two disjoint runs of free blocks. -/
theorem dmaAlloc_takes_two {s : Vmm} (hs : s.pmm.bound < 2 ^ 20) {size : UInt32}
    (hret : (dmaAlloc s size).1 ≠ 0) :
    ∃ b c, 0 < (dmaPages size).toNat ∧
      (∀ i < (dmaPages size).toNat, ∀ j < (dmaPages size).toNat, b + i ≠ c + j) ∧
      (∀ i < (dmaPages size).toNat,
        s.pmm.isUsed (b + i) = false ∧ (dmaAlloc s size).2.pmm.isUsed (b + i) = true) ∧
      ∀ j < (dmaPages size).toNat,
        s.pmm.isUsed (c + j) = false ∧ (dmaAlloc s size).2.pmm.isUsed (c + j) = true := by
  obtain ⟨-, heq⟩ | ⟨b, pmm, -, -, -, htakes, hne, heq⟩ := dmaAlloc_cases s size
  · rw [heq] at hret
    exact absurd rfl hret
  have hpos := toNat_pos_of_ne_zero hne
  have hbound : (s.withPmm pmm).pmm.bound < 2 ^ 20 := by
    rw [Vmm.pmm_withPmm, htakes.bound]
    exact hs
  rw [heq] at hret ⊢
  set n := dmaPages size
  obtain ⟨-, hnull⟩ | ⟨start, c, -, -, hc, hcase⟩ := vmmAllocContiguous_cases hbound n
  · rw [hnull] at hret
    exact absurd rfl hret
  obtain ⟨-, hnull⟩ | ⟨-, -, hcont⟩ | ⟨i, -, -, hnull⟩ := hcase
  · rw [hnull] at hret
    exact absurd rfl hret
  · have hrun := isRun_of_firstRun hc
    -- after the second run is taken, blocks in use stay in use
    have hkeep : ∀ j, (markRunUsed n.toNat c pmm).isUsed j = true →
        (mapEach (blockAddr b) (pageAddr start) (1 ||| 2 ||| 16) n.toNat 0
          (allocContiguousMap (s.withPmm pmm) n.toNat start c).2).pmm.isUsed j = true := by
      have hgrow := (grows_markRunUsed n.toNat c pmm)
      have hbuild : Builds ({ s.paging with pmm := markRunUsed n.toNat c pmm } : Paging)
          (mapEach (blockAddr b) (pageAddr start) (1 ||| 2 ||| 16) n.toNat 0
            (allocContiguousMap (s.withPmm pmm) n.toNat start c).2) :=
        Builds.trans builds_mapPages builds_mapEach
      have hlt : (markRunUsed n.toNat c pmm).bound < 2 ^ 20 := by
        rw [hgrow.bound]
        exact hbound
      exact (hbuild.grows hlt).used
    have hfree : ∀ j < n.toNat, pmm.isUsed (c + j) = false := fun j hj =>
      Pmm.isUsed_eq_false_of_isFree (hrun j hj)
    rw [hcont]
    refine ⟨b, c, hpos, fun i hi j hj hbc => ?_, fun i hi => ⟨?_, hkeep _ ?_⟩,
      fun j hj => ⟨?_, hkeep _ ?_⟩⟩
    · have hj' := hfree j hj
      rw [← hbc, htakes.isUsed, decide_eq_true (by omega), Bool.true_or] at hj'
      exact Bool.noConfusion hj'
    · exact Pmm.isUsed_eq_false_of_isFree (htakes.run i hi)
    · rw [isUsed_markRunUsed, htakes.isUsed, decide_eq_true (show b ≤ b + i ∧ _ by omega),
        Bool.true_or, Bool.or_true]
    · have hj' := hfree j hj
      rw [htakes.isUsed, Bool.or_eq_false_iff] at hj'
      exact hj'.2
    · rw [isUsed_markRunUsed, decide_eq_true (by omega), Bool.true_or]
  · rw [hnull] at hret
    exact absurd rfl hret

/-- **Device memory leaks.** At every reachable state, whenever `dma_alloc` succeeds, `dma_free`
does not undo it. -/
theorem dma_free_never_restores (boot : Boot) (s : Vmm) (h : MmReachable boot s) (size : UInt32)
    (hret : (dmaAlloc s size).1 ≠ 0) : ¬ DmaRestores s size := by
  intro hback
  obtain ⟨b, c, hpos, hdisj, hb, hc⟩ := dmaAlloc_takes_two h.sizes.1 hret
  obtain ⟨released, hreleased⟩ := released_dmaFree (dmaAlloc s size).2 (dmaAlloc s size).1 size
  have hsame : ∀ j, (dmaRoundTrip s size).pmm.isUsed j = s.pmm.isUsed j := fun j => by
    rw [Pmm.isUsed, hback.blocks, ← Pmm.isUsed]
  refine two_runs_not_covered (f := released) hpos hdisj (fun i hi => ?_) fun j hj => ?_
  · exact hreleased _ (hb i hi).2 ((hsame _).trans (hb i hi).1)
  · exact hreleased _ (hc j hj).2 ((hsame _).trans (hc j hj).1)

theorem dmaAlloc_smallStart : (dmaAlloc (smallStart 0x130000) 0x1000).1 ≠ 0 := by
  decide +kernel

/-- One page on the small machine with 1216 KiB of memory. -/
theorem dma_free_never_restores_small : ¬ DmaRestores (smallStart 0x130000) 0x1000 :=
  dma_free_never_restores (smallBoot 0x130000) _ reachable_smallStart _ dmaAlloc_smallStart

/-- There the table for the page exists, and block 296 stays in use after `dma_free`. -/
theorem dma_free_does_not_restore :
    ¬ ∀ boot s, MmReachable boot s → ∀ size, 0 < size → (dmaAlloc s size).1 ≠ 0 →
      DmaTablesExist s size → DmaRestores s size := by
  intro h
  have hback := (h _ _ reachable_smallStart 0x1000 (by decide) dmaAlloc_smallStart
    (by decide +kernel)).blocks
  have hused : (dmaRoundTrip (smallStart 0x130000) 0x1000).pmm.isUsed 296 = true := by
    decide +kernel
  rw [Pmm.isUsed, hback] at hused
  exact absurd hused (by decide +kernel)

end HalOS
