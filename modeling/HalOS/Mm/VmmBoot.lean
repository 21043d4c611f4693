import HalOS.Mm.VmmSpec

/-!
# Starting Up

What `vmm_init` and `kmain` do before any allocator is called: beyond `paging_init` they
only map pages and take blocks (`builds_vmmInit`, `builds_kmain`). The last section
computes the start-up of one small machine, on which the examples of later modules run.

## Main results

* `vmmBitmapInit_cases`: the ways `vmm_bitmap_init` can end.
* `builds_vmmInit`, `builds_kmain`: the start-up as a sequence of mappings.
* `kmain_smallBoot`: the start-up of a small machine.
-/

namespace HalOS

/-! ### The bitmap -/

/-- The state in which `vmm_bitmap_init` maps the bitmap at the frames `phys`. -/
def vmmBitmapInitMap (s : Vmm) (pmm : Pmm) : Vmm :=
  ({ s with maxPages := s.pmm.memorySize / 4096 } : Vmm).withPmm pmm

/-- The number of frames the bitmap takes. -/
def vmmBitmapPages (s : Vmm) : UInt32 := ((s.pmm.memorySize / 4096 + 7) / 8 + 4095) / 4096

/-- What `vmm_bitmap_init` can do. -/
theorem vmmBitmapInit_cases (s : Vmm) (bytes : ℕ → UInt8) :
    vmmBitmapInit s bytes = s ∨
      ∃ phys pmm, pmmAllocBlocks s.pmm (vmmBitmapPages s) = (phys, pmm) ∧
        (vmmBitmapInit s bytes = vmmBitmapInitMap s pmm ∨
          ∃ virt t, vmmMapMmio (vmmBitmapInitMap s pmm) phys (vmmBitmapPages s * 4096) (1 ||| 2) =
              (virt, t) ∧
            (virt = 0 ∧ vmmBitmapInit s bytes = { t with vmmBitmap := 0 } ∨
              virt ≠ 0 ∧ vmmBitmapInit s bytes =
                { t with
                  vmmBitmap := virt
                  bitmap := fun b =>
                    if b < ((s.pmm.memorySize / 4096 + 7) / 8).toNat then 0 else bytes b })) := by
  rw [vmmBitmapInit]
  by_cases h0 : s.pmm.memorySize = 0
  · rw [if_pos h0]
    exact Or.inl rfl
  · rw [if_neg h0]
    have hpages : ((s.pmm.memorySize / 4096 + 7) / 8 + 4095) / 4096 = vmmBitmapPages s := rfl
    have hstart : ∀ pmm, ({ s with maxPages := s.pmm.memorySize / 4096 } : Vmm).withPmm pmm =
        vmmBitmapInitMap s pmm := fun _ => rfl
    have hpmm : ({ s with maxPages := s.pmm.memorySize / 4096 } : Vmm).pmm = s.pmm := rfl
    simp only [hpages, hstart, hpmm]
    generalize pmmAllocBlocks s.pmm (vmmBitmapPages s) = r
    obtain ⟨phys, pmm⟩ := r
    refine Or.inr ⟨phys, pmm, rfl, ?_⟩
    simp only
    by_cases hphys : phys = 0
    · exact Or.inl (if_pos hphys)
    · rw [if_neg hphys]
      generalize vmmMapMmio (vmmBitmapInitMap s pmm) phys (vmmBitmapPages s * 4096) (1 ||| 2) = q
      obtain ⟨virt, t⟩ := q
      refine Or.inr ⟨virt, t, rfl, ?_⟩
      by_cases hvirt : virt = 0
      · subst hvirt
        rw [pmmFreeBlocks_eq]
        exact Or.inl ⟨rfl, rfl⟩
      · exact Or.inr ⟨hvirt, if_neg hvirt⟩

/-- `vmm_bitmap_init`, when it gets its frames and their mapping. -/
theorem vmmBitmapInit_of_mapped {s t : Vmm} {phys virt : UInt32} {pmm : Pmm}
    (hmem : s.pmm.memorySize ≠ 0) (halloc : pmmAllocBlocks s.pmm (vmmBitmapPages s) = (phys, pmm))
    (hphys : phys ≠ 0)
    (hcall : vmmMapMmio (vmmBitmapInitMap s pmm) phys (vmmBitmapPages s * 4096) (1 ||| 2) =
      (virt, t)) (hvirt : virt ≠ 0) (bytes : ℕ → UInt8) :
    vmmBitmapInit s bytes =
      { t with
        vmmBitmap := virt
        bitmap := fun c =>
          if c < ((s.pmm.memorySize / 4096 + 7) / 8).toNat then 0 else bytes c } := by
  have hpages : ((s.pmm.memorySize / 4096 + 7) / 8 + 4095) / 4096 = vmmBitmapPages s := rfl
  have hstart : ({ s with maxPages := s.pmm.memorySize / 4096 } : Vmm).withPmm pmm =
      vmmBitmapInitMap s pmm := rfl
  have hpmm : ({ s with maxPages := s.pmm.memorySize / 4096 } : Vmm).pmm = s.pmm := rfl
  rw [vmmBitmapInit, if_neg hmem]
  simp only [hpages, hpmm, halloc, hphys, if_false, hstart, hcall, hvirt]

/-- What `vmm_bitmap_init` does with page tables. -/
theorem builds_vmmBitmapInit (s : Vmm) (bytes : ℕ → UInt8) :
    Builds s.paging (vmmBitmapInit s bytes).paging := by
  rcases vmmBitmapInit_cases s bytes with heq | ⟨phys, pmm, hp, hcase⟩
  · rw [heq]
    exact .refl
  · have hgrow : Grows s.pmm pmm := by
      have := grows_pmmAllocBlocks s.pmm (vmmBitmapPages s)
      rwa [hp] at this
    have hpmm : Builds s.paging (vmmBitmapInitMap s pmm).paging := .grow hgrow .refl
    rcases hcase with heq | ⟨virt, t, hmap, ⟨-, heq⟩ | ⟨-, heq⟩⟩
    · rw [heq]
      exact hpmm
    all_goals
      have hbuild := builds_vmmMapMmio (vmmBitmapInitMap s pmm) phys (vmmBitmapPages s * 4096)
        (1 ||| 2)
      rw [hmap] at hbuild
      rw [heq]
      exact hpmm.trans hbuild

theorem builds_vmmInit (s : Vmm) (kernel : KernelImage) (bytes : ℕ → UInt8) :
    Builds (pagingInit s.paging) (vmmInit s kernel bytes).paging := by
  have hbitmap := builds_vmmBitmapInit (s.withPaging (pagingInit s.paging)) bytes
  unfold vmmInit
  simp only
  generalize vmmBitmapInit (s.withPaging (pagingInit s.paging)) bytes = t at hbitmap ⊢
  split_ifs
  · exact hbitmap
  · exact hbitmap.trans builds_mapKernel

theorem builds_kmain (boot : Boot) : Builds (pagingInit boot.initial.paging) boot.kmain.paging :=
  (builds_vmmInit boot.initial boot.kernel boot.vmmBytes).trans builds_mapEach

theorem grows_pmmAllocBlock (p : Pmm) : Grows p (pmmAllocBlock p).2 := by
  rcases pmmAllocBlock_cases p with ⟨-, heq⟩ | ⟨b, -, -, heq⟩
  · rw [heq]
    exact .refl p
  · rw [heq]
    exact grows_markBlockUsed p b

theorem grows_pagingInit (s : Paging) : Grows s.pmm (pagingInit s).pmm := by
  have hfirst := grows_pmmAllocBlock s.pmm
  have hsecond := grows_pmmAllocBlock (pmmAllocBlock s.pmm).2
  unfold pagingInit
  by_cases hdir : (pmmAllocBlock s.pmm).1 = 0
  · simp only [hdir, if_true]
    exact hfirst
  · by_cases htable : (pmmAllocBlock (pmmAllocBlock s.pmm).2).1 = 0
    · simp only [hdir, if_false, Paging.zeroFrame, htable, if_true]
      exact hfirst.trans hsecond
    · simp only [hdir, if_false, Paging.zeroFrame, htable]
      exact hfirst.trans hsecond

/-! ### A small machine -/

/-- A machine with `memSize` bytes of memory, a kernel image of 36 pages at 1 MiB that
holds the 128 KiB of `pmm_bitmap`, all memory clear, and no framebuffer. -/
def smallBoot (memSize : UInt32) : Boot where
  kernel := ⟨0x100000, 0x124000⟩
  memSize := memSize
  fbPhys := 0xFD000000
  fbSize := 0
  pmmBitmap := 0x102000
  pmmBytes := fun _ => 0
  mem := fun _ => 0
  nullBytes := fun _ => 0
  vmmBytes := fun _ => 0

/-- What `pmm_init` leaves there: the lowest 292 blocks are used. -/
def smallPmm (memSize : UInt32) : Pmm where
  memorySize := memSize
  usedBlocks := 292
  maxBlocks := (memSize + 4095) / 4096
  memoryMap := fun b => if b < 36 then 0xFF else if b = 36 then 0x0F else 0
  initialized := true
  lastAlloc := 0
  outOfBounds := false

theorem test_smallPmm (memSize : UInt32) (j : ℕ) :
    Bitmap.test (smallPmm memSize).memoryMap j = decide (j < 292) := by
  have hfull : ∀ r < 8, (UInt8.toBitVec 0xFF).getLsbD r = true := by decide
  have hhalf : ∀ r < 8, (UInt8.toBitVec 0x0F).getLsbD r = decide (r < 4) := by decide
  have hempty : ∀ r < 8, (UInt8.toBitVec 0).getLsbD r = false := by decide
  have hbit : j % 8 < 8 := Nat.mod_lt _ (by decide)
  rw [Bitmap.test_eq_getLsbD]
  simp only [smallPmm]
  by_cases hlow : j / 8 < 36
  · rw [if_pos hlow, hfull _ hbit, decide_eq_true (by omega)]
  · rw [if_neg hlow]
    by_cases hlast : j / 8 = 36
    · rw [if_pos hlast, hhalf _ hbit, decide_eq_decide]
      omega
    · rw [if_neg hlast, hempty _ hbit, decide_eq_false (by omega)]

theorem pmmInit_smallBoot {memSize : UInt32} (h : 292 ≤ ((memSize + 4095) / 4096).toNat) :
    pmmInit ⟨0x100000, 0x124000⟩ memSize 0x102000 (fun _ => 0) = smallPmm memSize := by
  have hmem : memSize ≠ 0 := by
    rintro rfl
    exact absurd h (by decide)
  -- low memory, then the kernel image; the bitmap lies inside the image
  have hlow : (0 : UInt32) / 4096 = 0 ∧ regionBlocks 0x100000 = 256 := by decide
  have hkernel : ((0x100000 : UInt32) / 4096).toNat = 256 ∧
      regionBlocks (0x124000 - 0x100000) = 36 := by decide
  have hbitmap : ((0x102000 : UInt32) / 4096).toNat = 258 := by decide
  have hbitmapLen : regionBlocks ((memSize + 4095) / 4096 / 8) ≤ 32 := by
    have hlt := UInt32.toNat_lt (memSize + 4095)
    have hpage : (4096 : UInt32).toNat = 4096 := by decide
    have hlast : (4095 : UInt32).toNat = 4095 := by decide
    have height : (8 : UInt32).toNat = 8 := by decide
    rw [regionBlocks, UInt32.toNat_div, UInt32.toNat_add, UInt32.toNat_div, UInt32.toNat_div,
      hpage, hlast, height]
    omega
  have hzero : ∀ j, Bitmap.test (fun _ => (0 : UInt8)) j = false := fun j =>
    Bitmap.test_of_byte_eq_zero rfl
  have hcount : (0 : UInt32) + UInt32.ofNat 256 + UInt32.ofNat 36 = 292 := by decide
  have hbytes : Bitmap.setRun (Bitmap.setRun (fun _ => 0) 0 256) 256 36 =
      (smallPmm memSize).memoryMap := by
    refine Bitmap.eq_of_test_eq fun j => ?_
    rw [Bitmap.test_setRun, Bitmap.test_setRun, hzero, test_smallPmm, Bool.or_false,
      ← Bool.decide_or, decide_eq_decide]
    omega
  have hfirst : ∀ s : Pmm, s.memoryMap = (fun _ => 0) → s.bound = ((memSize + 4095) / 4096).toNat →
      markRegion true (regionBlocks ((memSize + 4095) / 4096 / 8)) 258
          (markRegion true 36 256 (markRegion true 256 0 s)) =
        { s with
          memoryMap := (smallPmm memSize).memoryMap
          usedBlocks := s.usedBlocks + UInt32.ofNat 256 + UInt32.ofNat 36 } := by
    intro s hmap hbound
    have hlowFree : ∀ j < 256, s.isUsed (0 + j) = false := fun j _ => by
      rw [Pmm.isUsed, hmap, hzero]
    rw [markRegion_of_free (by omega) hlowFree, hmap, markRegion_of_free (n := 36),
      markRegion_of_used]
    · simp only [hbytes]
    · intro j hj
      simp only [Pmm.isUsed, hbytes, test_smallPmm, decide_eq_true_eq]
      omega
    · show 256 + 36 ≤ s.bound
      omega
    · intro j hj
      simp only [Pmm.isUsed, Bitmap.test_setRun, hzero, Bool.or_false, decide_eq_false_iff_not]
      omega
  rw [pmmInit, if_neg (by simp [hmem])]
  simp only [ite_self, pmmMarkUsedRegion, hlow, hkernel, hbitmap, UInt32.toNat_zero]
  rw [hfirst _ rfl rfl]
  simp only [Pmm.blank, smallPmm, hcount]

/-- The start-up of the small machine after `pmm_init`. -/
def smallStart (memSize : UInt32) : Vmm :=
  vmmInit
    { paging :=
        { pmm := smallPmm memSize
          mem := fun _ => 0
          pageDirectory := 0
          tables := [] }
      vmmBitmap := 0
      bitmap := fun _ => 0
      maxPages := 0 }
    ⟨0x100000, 0x124000⟩ fun _ => 0

theorem vmm_smallBoot {memSize : UInt32} (h : 292 ≤ ((memSize + 4095) / 4096).toNat) :
    (smallBoot memSize).vmm = smallStart memSize := by
  have hpmm := pmmInit_smallBoot h
  simp only [Boot.vmm, Boot.initial, smallBoot, hpmm]
  rfl

theorem kmain_smallBoot {memSize : UInt32} (h : 292 ≤ ((memSize + 4095) / 4096).toNat) :
    (smallBoot memSize).kmain = smallStart memSize := by
  have hfb : (((smallBoot memSize).fbSize + 4095) / 4096).toNat = 0 :=
    show (((0 : UInt32) + 4095) / 4096).toNat = 0 by decide
  rw [Boot.kmain, hfb, vmm_smallBoot h]
  exact (smallStart memSize).withPaging_self

theorem pageDirectory_smallBoot : (smallBoot 0x130000).kmain.paging.pageDirectory ≠ 0 := by
  rw [kmain_smallBoot (by decide)]
  decide +kernel

end HalOS
