import HalOS.Mm.VmmSound
import HalOS.Mm.VmmWindow

/-!
# Room for Page Tables

`paging_map_page` fails only when it needs a block for a page table and finds none. While the
blocks from some `u` on are free and block 0 is not, each call takes at most one block, and one
that is at most `u`; so a loop over `n` pages runs to its end if `u + n` blocks and eight more are
there, and leaves the blocks from `u + n` on free.

## Main results

* `FreeFrom.map`, `FreeFrom.mapPages`: mappings that do not fail.
* `roomy_smallStart`: the small machine of `HalOS.Mm.VmmBoot` with any amount of memory from
  4 MiB on starts up with all pages free, its tables in order and the blocks from 512 on free.
-/

namespace HalOS

open Loop (IsRun)

/-! ### Free blocks from some block on -/

/-- The blocks from `u` on are free, block 0 is not, and the counter does not pass `u`. -/
structure FreeFrom (u : ℕ) (p : Pmm) : Prop where
  zero_used : p.isUsed 0 = true
  free : ∀ b, u ≤ b → b < p.bound → p.isUsed b = false
  count : p.usedBlocks.toNat ≤ u

namespace FreeFrom

variable {u n b : ℕ} {p : Pmm}

theorem mono {u' : ℕ} (h : FreeFrom u p) (hu : u ≤ u') : FreeFrom u' p :=
  ⟨h.zero_used, fun b hb hlt => h.free b (by omega) hlt, by have := h.count; omega⟩

theorem isFree (h : FreeFrom u p) (hu : u ≤ b) (hb : b < p.bound) : p.isFree b = true :=
  Pmm.isFree_iff.mpr ⟨hb, h.free b hu hb⟩

/-- Block 0 is not among the free ones, nor is the run that begins with it. -/
theorem pos_of_isFree (h : FreeFrom u p) (hb : p.isFree b = true) : 0 < b := by
  refine Nat.pos_of_ne_zero ?_
  rintro rfl
  have := h.zero_used
  rw [Pmm.isUsed_eq_false_of_isFree hb] at this
  exact Bool.noConfusion this

/-- `pmm_alloc_block` finds a block, at most `u`. -/
theorem firstFree (h : FreeFrom u p) (hu : u + 8 ≤ p.bound) :
    ∃ b, 0 < b ∧ b ≤ u ∧ p.isFree b = true ∧ p.firstFree = some b := by
  have hcount : ¬ p.maxBlocks ≤ p.usedBlocks := by
    rw [UInt32.le_iff_toNat_le]
    have hb : p.maxBlocks.toNat = p.bound := rfl
    have := h.count
    omega
  cases hfirst : p.firstFree with
  | none =>
      rw [Pmm.firstFree, if_neg hcount, List.find?_range'_eq_none] at hfirst
      have := hfirst u (Nat.zero_le u) (by omega)
      rw [h.free u le_rfl (by omega)] at this
      exact absurd this (by simp)
  | some b =>
      have hfree := isFree_of_firstFree hfirst
      refine ⟨b, h.pos_of_isFree hfree, ?_, hfree, rfl⟩
      by_contra hlt
      have hused := isUsed_of_lt_firstFree hfirst (show u < b by omega)
      rw [h.free u le_rfl (by omega)] at hused
      exact Bool.noConfusion hused

/-- Taking a run that begins no later than `u`. -/
theorem takesRun {p' : Pmm} (h : FreeFrom u p) (hb : b ≤ u) (hu : u + n < 2 ^ 32)
    (ht : TakesRun p n b p') : FreeFrom (u + n) p' where
  zero_used := by rw [ht.isUsed, h.zero_used, Bool.or_true]
  free := fun c hc hlt => by
    rw [ht.bound] at hlt
    rw [ht.isUsed, decide_eq_false (by omega), Bool.false_or]
    exact h.free c (by omega) hlt
  count := by
    have := h.count
    rw [ht.usedBlocks, UInt32.toNat_add, UInt32.toNat_ofNat', Nat.mod_eq_of_lt (by omega),
      Nat.mod_eq_of_lt (by omega)]
    omega

theorem pmmAllocBlock (h : FreeFrom u p) (hu : u + 8 ≤ p.bound) (hb : p.bound < 2 ^ 20) :
    ∃ b, 0 < b ∧ p.isFree b = true ∧ p.firstFree = some b ∧
      FreeFrom (u + 1) (markBlockUsed p b) := by
  obtain ⟨b, hpos, hle, hfree, hfirst⟩ := h.firstFree hu
  exact ⟨b, hpos, hfree, hfirst, h.takesRun hle (by omega) (takesRun_markBlockUsed hfree)⟩

/-- The lowest free run begins no later than `u`, if there is room for it there. -/
theorem firstRun (h : FreeFrom u p) (hn : u + n ≤ p.bound) (hpos : 0 < n) :
    ∃ b, 0 < b ∧ IsRun p.isFree n b ∧ p.firstRun n = some b := by
  cases hfirst : p.firstRun n with
  | none =>
      rw [Pmm.firstRun, List.find?_range'_eq_none] at hfirst
      have hno := hfirst u (Nat.zero_le u) (by omega)
      have hrun : IsRun p.isFree n u := fun i hi => h.isFree (by omega) (by omega)
      rw [all_range'_iff_isRun.mpr hrun] at hno
      exact absurd hno (by decide)
  | some b =>
      have hrun := isRun_of_firstRun hfirst
      exact ⟨b, h.pos_of_isFree (hrun 0 hpos), hrun, rfl⟩

/-! ### Mapping -/

section Mapping

variable {s : Paging} {a v f : UInt32} {i : ℕ}

/-- A mapping that finds room. -/
theorem map (h : FreeFrom u s.pmm) (hu : u + 8 ≤ s.pmm.bound) (hb : s.pmm.bound < 2 ^ 20) :
    (pagingMapPage s a v f).1 = true ∧ FreeFrom (u + 1) (pagingMapPage s a v f).2.pmm := by
  obtain ⟨b, hpos, hfree, hfirst, htaken⟩ := h.pmmAllocBlock hu hb
  rcases pagingMapPage_cases hb a v f with
    ⟨-, heq⟩ | ⟨-, hnone, -⟩ | ⟨-, hzero, -⟩ | ⟨c, -, -, hc, -, heq⟩
  · rw [heq]
    exact ⟨rfl, h.mono (Nat.le_succ u)⟩
  · cases hfirst.symm.trans hnone
  · obtain rfl : b = 0 := Option.some.inj (hfirst.symm.trans hzero)
    exact absurd hpos (Nat.lt_irrefl 0)
  · obtain rfl : b = c := Option.some.inj (hfirst.symm.trans hc)
    rw [heq]
    exact ⟨rfl, htaken⟩

theorem bound_map (hb : s.pmm.bound < 2 ^ 20) :
    (pagingMapPage s a v f).2.pmm.bound = s.pmm.bound := (Paging.grows_map hb).bound

/-- **A loop of mappings** with room for a table a page. -/
theorem mapPages (h : FreeFrom u s.pmm) (hu : u + n + 8 ≤ s.pmm.bound)
    (hb : s.pmm.bound < 2 ^ 20) :
    (mapPages a v f n i s).1 = none ∧ FreeFrom (u + n) (HalOS.mapPages a v f n i s).2.pmm := by
  induction n generalizing u i s with
  | zero => exact ⟨rfl, h⟩
  | succ n ih =>
      obtain ⟨hok, hnext⟩ := h.map (a := a + UInt32.ofNat i * 4096)
        (v := v + UInt32.ofNat i * 4096) (f := f) (by omega) hb
      have hbound := bound_map (a := a + UInt32.ofNat i * 4096)
        (v := v + UInt32.ofNat i * 4096) (f := f) hb
      rw [HalOS.mapPages]
      generalize pagingMapPage s (a + UInt32.ofNat i * 4096) (v + UInt32.ofNat i * 4096) f = r
        at hok hnext hbound ⊢
      obtain ⟨_ | _, t⟩ := r
      · cases hok
      · simp only at hnext hbound ⊢
        have := ih (i := i + 1) hnext (by rw [hbound]; omega) (by rw [hbound]; exact hb)
        rwa [Nat.add_assoc, Nat.add_comm 1] at this

theorem mapKernel {k : KernelImage} (h : FreeFrom u s.pmm) (hu : u + 2 * n + 8 ≤ s.pmm.bound)
    (hb : s.pmm.bound < 2 ^ 20) : FreeFrom (u + 2 * n) (mapKernel k n i s).pmm := by
  induction n generalizing u i s with
  | zero => exact h
  | succ n ih =>
      have hfirst := h.map (a := k.physicalStart + UInt32.ofNat i * 4096)
        (v := k.physicalStart + UInt32.ofNat i * 4096) (f := 1 ||| 2) (by omega) hb
      have hbound := bound_map (a := k.physicalStart + UInt32.ofNat i * 4096)
        (v := k.physicalStart + UInt32.ofNat i * 4096) (f := 1 ||| 2) hb
      have hsecond := hfirst.2.map (a := k.physicalStart + UInt32.ofNat i * 4096)
        (v := pageAddr i) (f := 1 ||| 2) (by rw [hbound]; omega) (by rw [hbound]; exact hb)
      have hbound' := (bound_map (a := k.physicalStart + UInt32.ofNat i * 4096)
        (v := pageAddr i) (f := 1 ||| 2) (by rw [hbound]; exact hb)).trans hbound
      rw [HalOS.mapKernel]
      have := ih (i := i + 1) hsecond.2 (by rw [hbound']; omega) (by rw [hbound']; exact hb)
      rwa [show u + 1 + 1 + 2 * n = u + 2 * (n + 1) by omega] at this

end Mapping

/-- `pmm_alloc_blocks` from the first block on finds the lowest run. -/
theorem pmmAllocBlocks {w : UInt32} (h : FreeFrom u p) (hinit : p.initialized = true)
    (hlast : p.lastAlloc = 0) (hpos : 0 < w.toNat) (hn : u + w.toNat ≤ p.bound)
    (hb : p.bound < 2 ^ 20) :
    ∃ b, 0 < b ∧ b < p.bound ∧ pmmAllocBlocks p w = takeRun p w b ∧
      FreeFrom (u + w.toNat) (takeRun p w b).2 := by
  have hvalid : validateAllocationRequest p w = true := by
    have hmax : p.maxBlocks.toNat = p.bound := rfl
    have hcount := h.count
    have h0 : w ≠ 0 := by
      rintro rfl
      exact absurd hpos (by decide)
    have hsum : (p.usedBlocks + w).toNat = p.usedBlocks.toNat + w.toNat := by
      rw [UInt32.toNat_add]
      exact Nat.mod_eq_of_lt (by omega)
    simp only [validateAllocationRequest, hinit, h0, UInt32.lt_iff_toNat_lt, hsum, hmax,
      Bool.true_and, decide_false, Bool.false_or, Bool.and_eq_true, Bool.not_eq_true',
      decide_eq_false_iff_not]
    omega
  have hrun : IsRun p.isFree w.toNat u := fun i hi => h.isFree (by omega) (by omega)
  have hzero : p.lastAlloc.toNat = 0 := by
    rw [hlast]
    rfl
  rw [HalOS.pmmAllocBlocks, hvalid, hzero]
  simp only [Nat.sub_zero, Bool.not_true, Bool.false_eq_true, if_false,
    scanRun_readFree (show 0 + p.bound ≤ p.bound by omega)]
  cases hscan : Loop.scan p.isFree w.toNat p.bound 0 0 0 with
  | more c st =>
      exact absurd hrun (Loop.not_isRun_of_scan_more hpos hscan (Nat.zero_le u) (by omega))
  | found b =>
      have hle := Loop.scan_found_le hpos hscan
        (Or.inl ⟨Nat.zero_le u, fun h => absurd h (Nat.lt_irrefl 0), hrun⟩)
      rcases Loop.scan_found hpos hscan with ⟨-, h0, -, -⟩ | ⟨-, -, hfound⟩
      · omega
      · exact ⟨b, h.pos_of_isFree (hfound 0 hpos), by omega, rfl,
          h.takesRun hle (by omega) (takesRun_takeRun hfound)⟩

end FreeFrom

/-! ### Entries of the directory -/

namespace Paging

/-- A present entry of the directory stays as it is. -/
theorem Sound.pde_map {s : Paging} (h : s.Sound) {p v f : UInt32} {k : ℕ} (hk : k < 1024)
    (hp : isPresent (s.pde k) = true) : (pagingMapPage s p v f).2.pde k = s.pde k := by
  rcases pagingMapPage_cases h.bound_lt p v f with
    ⟨hd, heq⟩ | ⟨-, -, heq⟩ | ⟨-, -, heq⟩ | ⟨b, hd, -, -, hfree, heq⟩
  · rw [heq, pde_setPte h (pdIndex_lt v) hd (ptIndex_lt v) hk]
  · rw [heq]
  · rw [heq]
    rfl
  · have hne : k ≠ pdIndex v := by
      rintro rfl
      rw [hp] at hd
      exact Bool.noConfusion hd
    rw [heq, pde_setPte (h.addTable hfree) (pdIndex_lt v)
      (isPresent_pde_addTable h (pdIndex_lt v) hfree) (ptIndex_lt v) hk, pde_addTable h hfree hk,
      if_neg hne]

end Paging

namespace Builds

variable {s t : Paging}

theorem pde (h : Builds s t) (hs : s.Sound) {k : ℕ} (hk : k < 1024)
    (hp : isPresent (s.pde k) = true) : t.pde k = s.pde k := by
  induction h with
  | refl => rfl
  | map p v f hb ih =>
      rw [(hb.sound hs).pde_map hk (by rw [ih]; exact hp), ih]
  | grow _ _ ih => exact ih

/-- Pages that share a slot go on to share it. -/
theorem sameSlot (h : Builds s t) (hs : s.Sound) {n m : ℕ} (hn : n < 2 ^ 20) (hm : m < 2 ^ 20)
    (hslot : s.SameSlot n m) : t.SameSlot n m := by
  obtain ⟨hpn, hpm, hbase, hmod⟩ := hslot
  rw [Paging.SameSlot, h.pde hs (by omega) hpn, h.pde hs (by omega) hpm]
  exact ⟨hpn, hpm, hbase, hmod⟩

end Builds

/-! ### Starting up with enough memory -/

/-- `paging_init` with room for the directory and its first table, which entries 0 and 768
share. -/
theorem pagingInit_freeFrom {u : ℕ} {s : Paging} (h : FreeFrom u s.pmm)
    (hu : u + 9 ≤ s.pmm.bound) (hb : s.pmm.bound < 2 ^ 20) :
    (pagingInit s).pageDirectory ≠ 0 ∧ (pagingInit s).SameSlot 0 0xC0000 ∧
      FreeFrom (u + 2) (pagingInit s).pmm ∧
      ∃ d t, (pagingInit s).pmm = markBlockUsed (markBlockUsed s.pmm d) t := by
  obtain ⟨d, hd, -, hdir, hone⟩ := h.pmmAllocBlock (by omega) hb
  have hbound : (markBlockUsed s.pmm d).bound = s.pmm.bound := rfl
  obtain ⟨t, ht, hfree, htable, htwo⟩ :=
    hone.pmmAllocBlock (by rw [hbound]; omega) (by rw [hbound]; exact hb)
  have hdlt := (Pmm.isFree_iff.mp (isFree_of_firstFree hdir)).1
  have htlt := (Pmm.isFree_iff.mp hfree).1
  rw [hbound] at htlt
  have hd0 : blockAddr d ≠ 0 := blockAddr_ne_zero hd (by omega)
  have ht20 : t < 2 ^ 20 := by omega
  have ht0 : blockAddr t ≠ 0 := blockAddr_ne_zero ht ht20
  have hshape : (pagingInit s).pageDirectory = blockAddr d ∧
      (pagingInit s).pmm = markBlockUsed (markBlockUsed s.pmm d) t ∧
      (pagingInit s).pde 768 = blockAddr t ||| 1 ||| 2 := by
    rw [pagingInit]
    simp only [pmmAllocBlock_eq, hdir, hd0, if_false, Paging.zeroFrame, htable, ht0]
    refine ⟨rfl, rfl, ?_⟩
    simp only [Paging.pde, Paging.setPde, PageTree.write, if_true]
  obtain ⟨hdirectory, hpmm, hpde⟩ := hshape
  have hne : (pagingInit s).pageDirectory ≠ 0 := fun h0 => hd0 (hdirectory.symm.trans h0)
  rw [Nat.add_assoc, ← hpmm] at htwo
  refine ⟨hne, ?_, htwo, d, t, hpmm⟩
  obtain ⟨e, hinit⟩ := pagingInit_initialTables hb hne
  have hpresent : isPresent ((pagingInit s).pde 768) = true := by
    rw [hpde, UInt32.or_assoc]
    exact isPresent_or_three _
  rcases hinit.tables with hempty | ⟨c, -, -, -, hentries, -⟩
  · rw [hempty 768 (by decide)] at hpresent
    exact Bool.noConfusion hpresent
  · have hzero := hentries 0 (by decide)
    have hlast := hentries 768 (by decide)
    rw [if_pos (Or.inl rfl)] at hzero
    rw [if_pos (Or.inr rfl)] at hlast
    show isPresent ((pagingInit s).pde 0) = true ∧ isPresent ((pagingInit s).pde 768) = true ∧
      pageBase ((pagingInit s).pde 0) = pageBase ((pagingInit s).pde 768) ∧ 0 = 0
    rw [hzero, hlast]
    exact ⟨isPresent_or_three _, isPresent_or_three _, rfl, rfl⟩

/-- If all pages are free, the search ends at the first. -/
theorem findContiguousFreePages_of_free {s : Vmm} {n : ℕ} (hpos : 0 < s.bound) (hn : n ≤ s.bound)
    (h : ∀ i < s.bound, isPageFree s i = true) : findContiguousFreePages s n = some 0 := by
  rw [findContiguousFreePages, List.find?_range_eq_some]
  refine ⟨?_, List.mem_range.mpr hpos, fun j hj => absurd hj (Nat.not_lt_zero j)⟩
  rw [h 0 hpos, Bool.true_and, List.all_eq_true]
  intro j hj
  have hlt := List.mem_range.mp hj
  rw [Nat.zero_add, decide_eq_true (by omega), h j (by omega)]
  rfl

/-- **`vmm_map_mmio`** finds the first pages of a machine with room and maps them all. -/
theorem vmmMapMmio_freeFrom {u n : ℕ} {s : Vmm} {a size f : UInt32} (h : FreeFrom u s.pmm)
    (hsize : mmioPages size = n) (hpos : 0 < n) (hn : n ≤ s.bound)
    (hpages : ∀ i < s.bound, isPageFree s i = true) (hu : u + n + 8 ≤ s.pmm.bound)
    (hb : s.pmm.bound < 2 ^ 20) :
    (mmioLoop s a size f 0).1 = none ∧ FreeFrom (u + n) (mmioLoop s a size f 0).2.pmm ∧
      vmmMapMmio s a size f =
        (pageAddr 0, (markPages s 0 n true).withPaging (mmioLoop s a size f 0).2) := by
  subst hsize
  have hfind := findContiguousFreePages_of_free (n := mmioPages size) (by omega) hn hpages
  obtain ⟨hok, hfree⟩ := h.mapPages (s := s.paging) (a := a) (v := pageAddr 0)
    (f := f ||| 1 ||| 2) (i := 0) hu hb
  refine ⟨hok, hfree, ?_⟩
  rcases vmmMapMmio_cases s a size f with ⟨hnone, -⟩ | ⟨start, hsome, hret, hstate⟩
  · cases hfind.symm.trans hnone
  · obtain rfl : 0 = start := Option.some.inj (hfind.symm.trans hsome)
    rw [mmioLoop, if_pos hok] at hret
    exact Prod.ext hret hstate

/-- `vmm_bitmap_init` with room for the bitmap and for the tables of its mapping. -/
theorem vmmBitmapInit_freeFrom {u : ℕ} {s : Vmm} {g : ℕ → UInt8} (h : FreeFrom u s.pmm)
    (hinit : s.pmm.initialized = true) (hlast : s.pmm.lastAlloc = 0)
    (hclear : ∀ b, s.bitmap b = 0) (hmem : 4096 ≤ s.pmm.memorySize.toNat)
    (hu : u + 72 ≤ s.pmm.bound) (hb : s.pmm.bound < 2 ^ 20) :
    (vmmBitmapInit s g).maxPages = s.pmm.memorySize / 4096 ∧
      (∀ i < (vmmBitmapInit s g).bound, isPageFree (vmmBitmapInit s g) i = true) ∧
      FreeFrom (u + 64) (vmmBitmapInit s g).pmm := by
  have hlt := UInt32.toNat_lt s.pmm.memorySize
  have hcount := toNat_vmmBitmapPages s
  obtain ⟨b, hpos, hbound, halloc, htaken⟩ := h.pmmAllocBlocks (w := vmmBitmapPages s) hinit hlast
    (by omega) (by omega) hb
  have hphys : blockAddr b ≠ 0 := blockAddr_ne_zero hpos (by omega)
  set t := vmmBitmapInitMap s (takeRun s.pmm (vmmBitmapPages s) b).2 with ht
  have hpage : (4096 : UInt32).toNat = 4096 := by decide
  have hpages : t.bound = s.pmm.memorySize.toNat / 4096 := by
    show (s.pmm.memorySize / 4096).toNat = _
    rw [UInt32.toNat_div, hpage]
  have hfree : ∀ i < t.bound, isPageFree t i = true := fun i _ =>
    isPageFree_iff.mpr (Bitmap.test_of_byte_eq_zero (hclear (i / 8)))
  have hmmio := mmioPages_mul (n := vmmBitmapPages s) (by omega)
  have htbound : t.pmm.bound = s.pmm.bound := (grows_takeRun _ _ _).bound
  have htaken' : FreeFrom (u + (vmmBitmapPages s).toNat) t.pmm := htaken
  -- the mapping succeeds, at the first page of the window
  obtain ⟨-, hmapped, hcall⟩ := vmmMapMmio_freeFrom (a := blockAddr b) (f := 1 ||| 2) htaken'
    hmmio (by omega) (by omega) hfree (by omega) (by omega)
  have hvirt : pageAddr 0 ≠ 0 := by decide
  have hresult : vmmBitmapInit s g =
      { (markPages t 0 (vmmBitmapPages s).toNat true).withPaging
          (mmioLoop t (blockAddr b) (vmmBitmapPages s * 4096) (1 ||| 2) 0).2 with
        vmmBitmap := pageAddr 0
        bitmap := fun c =>
          if c < ((s.pmm.memorySize / 4096 + 7) / 8).toNat then 0 else g c } := by
    have hmem0 : s.pmm.memorySize ≠ 0 := by
      intro h0
      rw [h0] at hmem
      exact absurd hmem (by decide)
    exact vmmBitmapInit_of_mapped hmem0 halloc hphys hcall hvirt g
  have hbound' : (vmmBitmapInit s g).bound = t.bound := by
    rw [hresult]
    rfl
  refine ⟨by rw [hresult]; rfl, fun i hi => ?_, ?_⟩
  · rw [hbound', hpages] at hi
    rw [hresult, isPageFree_iff]
    refine Bitmap.test_of_byte_eq_zero (if_pos ?_)
    rw [UInt32.toNat_div, UInt32.toNat_add, UInt32.toNat_div, hpage]
    show i / 8 < (s.pmm.memorySize.toNat / 4096 + 7) % 2 ^ 32 / 8
    omega
  · rw [hresult]
    exact hmapped.mono (by omega)

/-! ### The small machine with more memory -/

/-- A machine ready for large runs: the tables are in order, entries 0 and 768 of the directory
name one table, all pages are free, and the blocks from `u` on. -/
structure Roomy (u : ℕ) (s : Vmm) : Prop where
  sound : s.paging.Sound
  twin : s.paging.SameSlot 0 0xC0000
  pages : ∀ i < s.bound, isPageFree s i = true
  blocks : FreeFrom u s.pmm

/-- What `vmm_map_mmio` leaves when it maps the frames from `phys` on at the first `n` pages. -/
structure MapsWindow (u n : ℕ) (s : Vmm) (phys f : UInt32) (t : Vmm) : Prop where
  builds : Builds s.paging t.paging
  bound : t.bound = s.bound
  bitmap : t.bitmap = Bitmap.setRun s.bitmap 0 n
  blocks : FreeFrom (u + n) t.pmm
  entry : n ≤ 0x40000 → ∀ k < n,
    t.paging.entry (pageNum (pageAddr k)) = some (runLeaf phys (f ||| 1 ||| 2) k)

theorem Roomy.mapMmio {u n : ℕ} {s : Vmm} (h : Roomy u s) (phys f : UInt32) {size : UInt32}
    (hsize : mmioPages size = n) (hpos : 0 < n) (hn : n ≤ s.bound)
    (hu : u + n + 8 ≤ s.pmm.bound) :
    ∃ t, vmmMapMmio s phys size f = (pageAddr 0, t) ∧ MapsWindow u n s phys f t := by
  obtain ⟨hok, hfree, hcall⟩ := vmmMapMmio_freeFrom (a := phys) (f := f) h.blocks hsize hpos hn
    h.pages hu h.sound.bound_lt
  refine ⟨_, hcall, ?_, rfl, rfl, hfree, fun hwindow k hk => ?_⟩
  · have hbuild := builds_vmmMapMmio s phys size f
    rwa [hcall] at hbuild
  · rw [mmioLoop, hsize] at hok
    have hentry := entry_mapPages (p := phys) (f := f ||| 1 ||| 2) h.sound hwindow
      (show 0 + 0 + n ≤ 2 ^ 20 by omega) (Nat.zero_le k) (by omega) fun j hj => by
        rw [hok] at hj
        cases hj
    rw [Nat.zero_add] at hentry
    show (mmioLoop s phys size f 0).2.entry _ = _
    rw [mmioLoop, hsize]
    exact hentry

theorem freeFrom_smallPmm (memSize : UInt32) : FreeFrom 292 (smallPmm memSize) where
  zero_used := (test_smallPmm memSize 0).trans rfl
  free := fun b hb _ => (test_smallPmm memSize b).trans (decide_eq_false (by omega))
  count := le_rfl

/-- **The small machine with 4 MiB of memory or more** starts up with room. -/
theorem roomy_smallStart (memSize : UInt32) (h : 0x400000 ≤ memSize.toNat)
    (hlt : memSize.toNat + 4095 < 2 ^ 32) :
    Roomy 512 (smallStart memSize) ∧ (smallStart memSize).bound = memSize.toNat / 4096 ∧
      (smallStart memSize).pmm.bound = (memSize.toNat + 4095) / 4096 := by
  have hpage : (4096 : UInt32).toNat = 4096 := by decide
  have hlast : (4095 : UInt32).toNat = 4095 := by decide
  set s : Vmm :=
    { paging :=
        { pmm := smallPmm memSize
          mem := fun _ => 0
          pageDirectory := 0
          tables := [] }
      vmmBitmap := 0
      bitmap := fun _ => 0
      maxPages := 0 }
  have hblocks : s.paging.pmm.bound = (memSize.toNat + 4095) / 4096 := by
    show ((memSize + 4095) / 4096).toNat = _
    rw [UInt32.toNat_div, UInt32.toNat_add, hpage, hlast, Nat.mod_eq_of_lt hlt]
  have hb : s.paging.pmm.bound < 2 ^ 20 := by omega
  -- the directory and its first table
  obtain ⟨hdir, htwin, hfree, d, t, hpmm⟩ := pagingInit_freeFrom (s := s.paging)
    (freeFrom_smallPmm memSize) (by omega) hb
  have hgrow := grows_pagingInit s.paging
  have hb' : (pagingInit s.paging).pmm.bound < 2 ^ 20 := by
    rw [hgrow.bound]
    exact hb
  have hmem : (pagingInit s.paging).pmm.memorySize = memSize := by
    rw [hpmm]
    rfl
  -- the bitmap of the pages
  set p := s.withPaging (pagingInit s.paging) with hp
  have hppmm : p.pmm = (pagingInit s.paging).pmm := rfl
  have hpbound : p.paging.pmm.bound = s.paging.pmm.bound := hgrow.bound
  obtain ⟨hmax, hpages, hfree'⟩ := vmmBitmapInit_freeFrom (s := p) (g := fun _ => 0) hfree
    (by rw [hppmm, hpmm]; rfl) (by rw [hppmm, hpmm]; rfl) (fun _ => rfl)
    (by rw [hppmm, hmem]; omega) (by rw [hppmm, hgrow.bound]; omega) hb'
  have hbuild := builds_vmmBitmapInit p fun _ => 0
  have hdir' : (vmmBitmapInit p fun _ => 0).paging.pageDirectory ≠ 0 := by
    intro h0
    rw [hbuild.pageDirectory hb'] at h0
    exact hdir h0
  have hnum : ((((0x124000 : UInt32) - 0x100000) + 4095) / 4096).toNat = 36 := by decide
  have hstart : smallStart memSize = (vmmBitmapInit p fun _ => 0).withPaging
      (mapKernel ⟨0x100000, 0x124000⟩ 36 0 (vmmBitmapInit p fun _ => 0).paging) := by
    show vmmInit s ⟨0x100000, 0x124000⟩ (fun _ => 0) = _
    rw [vmmInit]
    simp only [← hp, hdir', if_false, hnum]
  have hbound := (hbuild.grows hb').bound
  have hall := builds_vmmInit s ⟨0x100000, 0x124000⟩ fun _ => 0
  have hsound := sound_pagingInit hb hdir
  refine ⟨⟨hall.sound hsound, hall.sameSlot hsound (by decide) (by decide) htwin, ?_, ?_⟩, ?_, ?_⟩
  · rw [hstart]
    exact hpages
  · rw [hstart]
    have := hfree'.mapKernel (s := (vmmBitmapInit p fun _ => 0).paging) (n := 36) (i := 0)
      (k := ⟨0x100000, 0x124000⟩) (by rw [hbound]; omega)
      (by rw [hbound]; exact hb')
    exact this.mono (by omega)
  · rw [hstart]
    show (vmmBitmapInit p fun _ => 0).maxPages.toNat = _
    rw [hmax, UInt32.toNat_div, hpage, hppmm, hmem]
  · rw [← hblocks, ← hgrow.bound]
    exact (hall.grows hb').bound

/-- With 2.5 GiB of memory it has more pages than the window. -/
theorem roomy_largeStart :
    MmReachable (smallBoot 0xA0000000) (smallStart 0xA0000000) ∧
      Roomy 512 (smallStart 0xA0000000) ∧ (smallStart 0xA0000000).bound = 0xA0000 ∧
      (smallStart 0xA0000000).pmm.bound = 0xA0000 := by
  have hsize : (0xA0000000 : UInt32).toNat = 0xA0000000 := by decide
  have hboot : (smallBoot 0xA0000000).kmain = smallStart 0xA0000000 := kmain_smallBoot (by decide)
  obtain ⟨hroomy, hpages, hblocks⟩ := roomy_smallStart 0xA0000000
    (by rw [hsize]; omega) (by rw [hsize]; omega)
  rw [hsize] at hpages hblocks
  exact ⟨hboot ▸ .boot, hroomy, hpages, hblocks⟩

end HalOS
