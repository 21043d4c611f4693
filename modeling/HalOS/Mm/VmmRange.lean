import HalOS.Mm.VmmMmio

/-!
# The Kernel Window

The window of `vmm.c` begins at `KERNEL_VMEM_START` and ends with the address space, after
`0x40000` pages. `vmm_max_pages` does not know: it is the number of pages of physical memory, up to
`2 ^ 20`. So the searches find pages behind the end of the window, whose addresses begin again at
zero, where they are no kernel addresses and `vmm_free_page` does not take them back. (Page
`0x40000` itself has the address zero, which is the failure.)

## Main results

* `staysInWindow_iff`: an address range is in the window just if the run that the search finds is.
* `not_staysInWindow_behind`: a kernel page at address `0x1000`, with 2.5 GiB of memory.
-/

namespace HalOS

/-! ### Ranges -/

/-- The `n` pages from `v` on are kernel pages. -/
def InWindow (v : UInt32) (n : ℕ) : Prop := 0xC0000000 ≤ v.toNat ∧ v.toNat + n * 4096 ≤ 2 ^ 32

instance (v : UInt32) (n : ℕ) : Decidable (InWindow v n) :=
  inferInstanceAs (Decidable (_ ∧ _))

/-- Page `0x40000` apart, a run of pages of the bitmap is in the window if it ends there. -/
theorem inWindow_pageAddr_iff {i : ℕ} (hi : i < 2 ^ 20) (hne : pageAddr i ≠ 0) (n : ℕ) :
    InWindow (pageAddr i) n ↔ i + n ≤ 0x40000 := by
  have hend : i ≠ 0x40000 := fun h => hne ((pageAddr_eq_zero_iff hi).mpr h)
  rw [InWindow, toNat_pageAddr]
  omega

/-- `vmm_free_page` does not turn the address away. -/
def FreePageAccepts (s : Vmm) (addr : UInt32) : Prop :=
  addr ≠ 0 ∧ addr &&& 4095 = 0 ∧ 0xC0000000 ≤ addr ∧ (addr - 0xC0000000) / 4096 < s.maxPages ∧
    virtToPhys s.paging addr ≠ 0xFFFFFFFF

/-! ### The calls that hand out pages -/

/-- The calls that hand out pages of the window, with their arguments. -/
inductive WindowCall
  | page
  | contiguous (n : UInt32)
  | mmio (phys size f : UInt32)

namespace WindowCall

/-- What the call returns, and the state after it. -/
def run (s : Vmm) : WindowCall → UInt32 × Vmm
  | page => vmmAllocPage s
  | contiguous n => vmmAllocContiguous s n
  | mmio phys size f => vmmMapMmio s phys size f

/-- The number of pages that were asked for. -/
def pages : WindowCall → ℕ
  | page => 1
  | contiguous n => n.toNat
  | mmio _ size _ => (size.toNat + 4095) / 4096

/-- The page at which the search of the call ends. -/
def find (s : Vmm) : WindowCall → Option ℕ
  | page => findFreePage s
  | contiguous n => findContiguousFreePages s n.toNat
  | mmio _ size _ => findContiguousFreePages s (mmioPages size)

/-- A call that succeeds returns the address of the page it finds. -/
theorem run_eq {s : Vmm} (hs : s.pmm.bound < 2 ^ 20) {c : WindowCall} (hv : (c.run s).1 ≠ 0) :
    ∃ start, c.find s = some start ∧ start < s.bound ∧ (c.run s).1 = pageAddr start := by
  cases c with
  | page =>
      rcases vmmAllocPage_cases hs with
        ⟨-, heq⟩ | ⟨i, hi, ⟨-, heq⟩ | ⟨-, heq⟩ | ⟨b, -, -, -, ⟨-, heq⟩ | ⟨-, heq⟩⟩⟩
      · exact absurd (congrArg Prod.fst heq) hv
      · exact absurd (congrArg Prod.fst heq) hv
      · exact absurd (congrArg Prod.fst heq) hv
      · exact ⟨i, hi, (findFreePage_eq_some.mp hi).1, congrArg Prod.fst heq⟩
      · exact absurd (congrArg Prod.fst heq) hv
  | contiguous n =>
      rcases vmmAllocContiguous_cases hs n with ⟨-, heq⟩ | ⟨start, b, -, hfind, -, hcase⟩
      · exact absurd (congrArg Prod.fst heq) hv
      · rcases hcase with ⟨-, heq⟩ | ⟨-, -, heq⟩ | ⟨i, -, -, heq⟩
        · exact absurd (congrArg Prod.fst heq) hv
        · exact ⟨start, hfind, (freeRun_of_find hfind).1, congrArg Prod.fst heq⟩
        · exact absurd (congrArg Prod.fst heq) hv
  | mmio phys size f =>
      obtain ⟨start, hmaps⟩ := mapsDevice_of_ne_zero hv
      exact ⟨start, hmaps.find, (freeRun_of_find hmaps.find).1, hmaps.addr⟩

end WindowCall

/-- The page that `vmm_alloc_page` has returned can be freed if it is a page of the window. -/
theorem freePageAccepts_iff {s : Vmm} (hs : s.paging.Sound) (hp : s.bound < 2 ^ 20)
    (hv : (vmmAllocPage s).1 ≠ 0) :
    FreePageAccepts (vmmAllocPage s).2 (vmmAllocPage s).1 ↔
      ∃ i, findFreePage s = some i ∧ i + 1 ≤ 0x40000 := by
  rcases vmmAllocPage_gives hs with ⟨hnull, -⟩ | ⟨i, b, hfind, haddr, hgives⟩
  · exact absurd hnull hv
  obtain ⟨e, he, -⟩ := hgives.frame 0 Nat.one_pos
  have hlt := (hgives.page 0 Nat.one_pos).1
  rw [Nat.add_zero] at he hlt
  have hphys : virtToPhys (vmmAllocPage s).2.paging (pageAddr i) ≠ 0xFFFFFFFF := by
    rw [virtToPhys_pageAddr he]
    exact pageBase_ne_max e
  have hne : pageAddr i ≠ 0 := fun h0 => hv (haddr.trans h0)
  have hindex : (pageAddr i - 0xC0000000) / 4096 < (vmmAllocPage s).2.maxPages := by
    rw [hgives.keeps.maxPages, UInt32.lt_iff_toNat_lt, pageIndex_pageAddr (by omega)]
    exact hlt
  have hstart : 0xC0000000 ≤ pageAddr i ↔ i + 1 ≤ 0x40000 := by
    rw [← inWindow_pageAddr_iff (by omega) hne, InWindow, UInt32.le_iff_toNat_le]
    have hword := UInt32.toNat_lt (pageAddr i)
    have hwindow : (0xC0000000 : UInt32).toNat = 0xC0000000 := by decide
    rw [hwindow, toNat_pageAddr]
    omega
  rw [haddr, FreePageAccepts, hstart]
  constructor
  · rintro ⟨-, -, hwindow, -⟩
    exact ⟨i, hfind, hwindow⟩
  · rintro ⟨j, hj, hwindow⟩
    obtain rfl : i = j := Option.some.inj (hfind.symm.trans hj)
    exact ⟨hne, pageAddr_offset i, hwindow, hindex, hphys⟩

/-- **The kernel window.** At every reachable state, a call that succeeds returns kernel pages just
if the run of pages that its search finds ends with the window. And in every run that gives no page
table back, `vmm_free_page` accepts what `vmm_alloc_page` returns just in that case. -/
theorem staysInWindow_iff (boot : Boot) (s : Vmm) (h : MmReachable boot s) :
    (∀ c : WindowCall, (c.run s).1 ≠ 0 →
      (InWindow (c.run s).1 c.pages ↔ ∃ i, c.find s = some i ∧ i + c.pages ≤ 0x40000)) ∧
    (boot.kmain.paging.pageDirectory ≠ 0 → VmmRun (fun s c => c.KeepsTables s) boot s →
      (vmmAllocPage s).1 ≠ 0 →
      (FreePageAccepts (vmmAllocPage s).2 (vmmAllocPage s).1 ↔
        ∃ i, findFreePage s = some i ∧ i + 1 ≤ 0x40000)) := by
  obtain ⟨hs, hp⟩ := h.sizes
  refine ⟨fun c hv => ?_, fun hdir hrun hv => freePageAccepts_iff (hrun.sound hdir) hp hv⟩
  obtain ⟨i, hfind, hlt, haddr⟩ := WindowCall.run_eq hs hv
  rw [haddr] at hv ⊢
  rw [inWindow_pageAddr_iff (by omega) hv, hfind]
  simp

/-- Two pages of the small machine, and a single one. -/
theorem staysInWindow_small :
    (InWindow ((WindowCall.contiguous 2).run (smallBoot 0x130000).kmain).1
        (WindowCall.contiguous 2).pages ↔
      ∃ i, (WindowCall.contiguous 2).find (smallBoot 0x130000).kmain = some i ∧
        i + (WindowCall.contiguous 2).pages ≤ 0x40000) ∧
    (FreePageAccepts (vmmAllocPage (smallBoot 0x130000).kmain).2
        (vmmAllocPage (smallBoot 0x130000).kmain).1 ↔
      ∃ i, findFreePage (smallBoot 0x130000).kmain = some i ∧ i + 1 ≤ 0x40000) := by
  have hpages : ((WindowCall.contiguous 2).run (smallBoot 0x130000).kmain).1 ≠ 0 := by
    rw [kmain_smallBoot (by decide)]
    decide +kernel
  have hpage : (vmmAllocPage (smallBoot 0x130000).kmain).1 ≠ 0 := by
    rw [kmain_smallBoot (by decide)]
    decide +kernel
  exact ⟨(staysInWindow_iff _ _ .boot).1 _ hpages,
    (staysInWindow_iff _ _ .boot).2 pageDirectory_smallBoot .boot hpage⟩

/-! ### Pages behind the window -/

/-- With room for a block and a page table `vmm_alloc_page` returns the lowest free page. -/
theorem vmmAllocPage_freeFrom {u i : ℕ} {s : Vmm} (h : FreeFrom u s.pmm)
    (hu : u + 9 ≤ s.pmm.bound) (hs : s.pmm.bound < 2 ^ 20) (hfind : findFreePage s = some i) :
    (vmmAllocPage s).1 = pageAddr i := by
  obtain ⟨b, hpos, hfree, hfirst, htaken⟩ := h.pmmAllocBlock (by omega) hs
  rcases vmmAllocPage_cases hs with
    ⟨hnone, -⟩ | ⟨j, hj, ⟨hnone, -⟩ | ⟨hzero, -⟩ | ⟨c, -, hc, -, hcase⟩⟩
  · cases hfind.symm.trans hnone
  · cases hfirst.symm.trans hnone
  · obtain rfl : b = 0 := Option.some.inj (hfirst.symm.trans hzero)
    exact absurd hpos (Nat.lt_irrefl 0)
  · obtain rfl : b = c := Option.some.inj (hfirst.symm.trans hc)
    obtain rfl : i = j := Option.some.inj (hfind.symm.trans hj)
    rcases hcase with ⟨-, heq⟩ | ⟨hfail, -⟩
    · exact congrArg Prod.fst heq
    · have hok : (pagingMapPage { s.paging with pmm := markBlockUsed s.pmm b } (blockAddr b)
          (pageAddr i) (1 ||| 2)).1 = true := by
        have hbound : ({ s.paging with pmm := markBlockUsed s.pmm b } : Paging).pmm.bound =
            s.pmm.bound := rfl
        exact (htaken.map (by rw [hbound]; omega) (by rw [hbound]; exact hs)).1
      rw [allocPageMap, hok] at hfail
      cases hfail

/-- With 2.5 GiB of memory, once the window is full, `vmm_alloc_page` returns `0x1000`. -/
theorem not_staysInWindow_behind :
    ¬ ∀ (boot : Boot) (s : Vmm), MmReachable boot s → ∀ c : WindowCall, (c.run s).1 ≠ 0 →
      InWindow (c.run s).1 c.pages := by
  intro hall
  obtain ⟨hstart, hroomy, hpages, hblocks⟩ := roomy_largeStart
  generalize smallStart 0xA0000000 = s at hroomy hpages hblocks hstart
  have hpagesize : (0x40001000 : UInt32) = 0x40001 * 4096 := by decide
  have hpagecount : (0x40001 : UInt32).toNat = 0x40001 := by decide
  have hcount : mmioPages 0x40001000 = 0x40001 := by
    rw [hpagesize, mmioPages_mul (by rw [hpagecount]; omega), hpagecount]
  obtain ⟨t, hcall, ht⟩ := hroomy.mapMmio 0xA0000000 0 hcount (by omega) (by omega) (by omega)
  have hreach : MmReachable (smallBoot 0xA0000000) t := by
    have := hstart.vmm (.mapMmio 0xA0000000 0x40001000 0)
    rwa [VmmCall.next, VmmCall.run, hcall] at this
  have hbound : t.pmm.bound = s.pmm.bound := by
    rw [Vmm.pmm, (ht.builds.grows hroomy.sound.bound_lt).bound, Vmm.pmm]
  -- the pages up to `0x40000` are taken, the others free
  have hfree : ∀ j, isPageFree t j = (!decide (j < 0x40001) && isPageFree s j) := by
    intro j
    rw [isPageFree, ht.bitmap, Bitmap.test_setRun, isPageFree, Bool.not_or, Nat.zero_add]
    simp only [Nat.zero_le, true_and]
  have hfind : findFreePage t = some 0x40001 := by
    refine findFreePage_eq_some.mpr ⟨by rw [ht.bound]; omega, ?_, fun j hj => ?_⟩
    · rw [hfree, hroomy.pages 0x40001 (by omega)]
      rfl
    · rw [hfree, decide_eq_true hj]
      rfl
  have haddr := vmmAllocPage_freeFrom ht.blocks (by omega) (by omega) hfind
  have hpage := hall _ t hreach .page
  simp only [WindowCall.run, haddr] at hpage
  exact absurd (hpage (by decide)) (by decide)

end HalOS
