import HalOS.Mm.PmmRoundTrip
import HalOS.Mm.VmmRoom

/-!
# Contiguous Pages There and Back

`vmm_free_contiguous` undoes `vmm_alloc_contiguous`, and between the two calls the pages have the
blocks in a row, if each page has an entry of its own in the page tables. This is not so when the
run is longer than the window, whose end is address zero: `paging_init` has put one table in the
entries 0 and 768 of the directory, and the page `0x40000` pages above one of the first 1024 pages
of the window takes that page's translation away.

The page tables are not assumed to be in order here, only to be there: each page of the run that
is chosen has a table, and this is not the directory.

## Main results

* `roundTrips_iff`: a run makes the round trip just if no two of its pages share an entry.
* `ownSlots_of_sound`: over tables in order this is so for every run no longer than the window.
* `not_roundTrips_longRun`: a longer run, with 2.5 GiB of memory.
-/

namespace HalOS

open Bitmap (setRun clearRun)

/-! ### Bytes of a page -/

/-- The page number of a byte of page `i`. -/
theorem pageNum_pageAddr_add (i : ℕ) {r : ℕ} (hr : r < 4096) :
    pageNum (pageAddr i + UInt32.ofNat r) = pageNum (pageAddr i) := by
  rw [pageNum, pageNum, UInt32.toNat_add, UInt32.toNat_ofNat', toNat_pageAddr]
  omega

/-- An offset is whole pages and a byte of the next one. -/
theorem ofNat_eq_pages_add (o : ℕ) :
    UInt32.ofNat o = UInt32.ofNat (o / 4096) * 4096 + UInt32.ofNat (o % 4096) := by
  have hpage : (4096 : UInt32) = UInt32.ofNat 4096 := rfl
  rw [hpage, ← UInt32.ofNat_mul, ← UInt32.ofNat_add, Nat.div_add_mod']

/-- Byte `o` from page `start` on is byte `o % 4096` of page `start + o / 4096`. -/
theorem pageAddr_add_byte (start o : ℕ) :
    pageAddr start + UInt32.ofNat o =
      pageAddr (start + o / 4096) + UInt32.ofNat (o % 4096) := by
  rw [← pageAddr_add, UInt32.add_assoc, ← ofNat_eq_pages_add]

theorem blockAddr_add_byte (b o : ℕ) :
    blockAddr b + UInt32.ofNat o = blockAddr (b + o / 4096) + UInt32.ofNat (o % 4096) := by
  rw [← blockAddr_add, UInt32.add_assoc, ← ofNat_eq_pages_add]

/-- A frame and an offset, put together. -/
theorem pageBase_or_offset (e : UInt32) {i r : ℕ} (hr : r < 4096) :
    pageBase e ||| ((pageAddr i + UInt32.ofNat r) &&& 0xFFF) = pageBase e + UInt32.ofNat r := by
  have hmask : (0xFFF : UInt32).toNat = 2 ^ 12 - 1 := by decide
  have hoffset : ((pageAddr i + UInt32.ofNat r) &&& 0xFFF).toNat = r := by
    rw [UInt32.toNat_and, hmask, Nat.and_two_pow_sub_one_eq_mod, UInt32.toNat_add,
      UInt32.toNat_ofNat', toNat_pageAddr]
    omega
  have hbase := toNat_pageBase e
  have hlt := UInt32.toNat_lt e
  apply UInt32.toNat_inj.mp
  rw [UInt32.toNat_or, hoffset, UInt32.toNat_add, UInt32.toNat_ofNat', hbase]
  have hor : e.toNat / 4096 * 4096 ||| r = e.toNat / 4096 * 4096 + r := by
    rw [Nat.mul_comm]
    exact (Nat.two_pow_add_eq_or_of_lt (i := 12) hr (e.toNat / 4096)).symm
  omega

/-- What a byte of a mapped page translates to. -/
theorem virtToPhys_of_entry {s : Paging} {i r : ℕ} {e : UInt32} (hr : r < 4096)
    (h : s.entry (pageNum (pageAddr i)) = some e) :
    virtToPhys s (pageAddr i + UInt32.ofNat r) = pageBase e + UInt32.ofNat r := by
  rw [virtToPhys_eq, pageNum_pageAddr_add i hr, h]
  exact pageBase_or_offset e hr

theorem virtToPhys_of_entry_none {s : Paging} {i r : ℕ} (hr : r < 4096)
    (h : s.entry (pageNum (pageAddr i)) = none) :
    virtToPhys s (pageAddr i + UInt32.ofNat r) = 0xFFFFFFFF := by
  rw [virtToPhys_eq, pageNum_pageAddr_add i hr, h]

/-! ### Pages that have a table -/

namespace Paging

/-- The directory of `t` is that of `s`. -/
structure SameDirectory (s t : Paging) : Prop where
  pageDirectory : t.pageDirectory = s.pageDirectory
  pde : ∀ k < 1024, t.pde k = s.pde k

namespace SameDirectory

variable {s t u : Paging}

theorem refl (s : Paging) : SameDirectory s s := ⟨rfl, fun _ _ => rfl⟩

theorem trans (h : SameDirectory s t) (h' : SameDirectory t u) : SameDirectory s u :=
  ⟨h'.pageDirectory.trans h.pageDirectory, fun k hk => (h'.pde k hk).trans (h.pde k hk)⟩

theorem aligned (h : SameDirectory s t) (ha : s.Aligned) : t.Aligned := by
  rw [Aligned, h.pageDirectory]
  exact ha

theorem hasTable (h : SameDirectory s t) {i : ℕ} (hi : i < 1024) (ht : s.HasTable i) :
    t.HasTable i := by
  refine ⟨?_, ?_⟩
  · rw [h.pde i hi]
    exact ht.present
  · rw [h.pde i hi, h.pageDirectory]
    exact ht.ne_dir

theorem sameSlot_iff (h : SameDirectory s t) {n m : ℕ} (hn : n < 2 ^ 20) (hm : m < 2 ^ 20) :
    t.SameSlot n m ↔ s.SameSlot n m := by
  rw [SameSlot, SameSlot, h.pde (n / 1024) (by omega), h.pde (m / 1024) (by omega)]

theorem setPte {s : Paging} {i j : ℕ} {e : UInt32} (ha : s.Aligned) (h : s.HasTable i)
    (hj : j < 1024) : SameDirectory s (s.setPte i j e) :=
  ⟨rfl, fun _ hk => h.pde_setPte ha hj hk⟩

end SameDirectory

section Table

variable {s : Paging} {v p f : UInt32}

/-- Where there is a table, mapping writes one entry. -/
theorem HasTable.map_eq (h : s.HasTable (pdIndex v)) :
    pagingMapPage s p v f =
      (true, s.setPte (pdIndex v) (ptIndex v) (pageBase p ||| f ||| 1)) := by
  simp only [pagingMapPage, h.present, if_true]

theorem HasTable.entry_map (h : s.HasTable (pdIndex v)) (ha : s.Aligned) {n : ℕ}
    (hn : n < 2 ^ 20) :
    (pagingMapPage s p v f).2.entry n =
      if s.SameSlot n (pageNum v) then some (pageBase p ||| f ||| 1) else s.entry n := by
  rw [h.map_eq, h.entry_setPte ha (ptIndex_lt v) hn, isPresent_or_one, if_pos rfl]
  refine if_congr ?_ rfl rfl
  rw [slot_iff h.present, or_iff_right_of_imp]
  rintro rfl
  have := h.present
  rw [pdIndex_eq] at this
  exact ⟨this, this, rfl, rfl⟩

theorem SameDirectory.unmap (ha : s.Aligned)
    (h : isPresent (s.pde (pdIndex v)) = true → s.HasTable (pdIndex v)) :
    SameDirectory s (pagingUnmapPage s v) := by
  rw [pagingUnmapPage]
  split_ifs with hd ht
  · exact .refl s
  · exact .refl s
  · exact .setPte ha (h (by simpa using hd)) (ptIndex_lt v)

end Table

/-- The `n` pages of the window from `start + i` on have tables. -/
def HasTables (s : Paging) (start i n : ℕ) : Prop :=
  ∀ k, i ≤ k → k < i + n → s.HasTable (pdIndex (pageAddr (start + k)))

namespace HasTables

variable {s t : Paging} {start i n : ℕ}

theorem head (h : s.HasTables start i (n + 1)) : s.HasTable (pdIndex (pageAddr (start + i))) :=
  h i le_rfl (by omega)

theorem tail (h : s.HasTables start i (n + 1)) (hd : SameDirectory s t) :
    t.HasTables start (i + 1) n := fun k hk hk' =>
  hd.hasTable (pdIndex_lt _) (h k (by omega) (by omega))

end HasTables

end Paging

open Paging (SameDirectory ptIndex_lt pdIndex_lt)

section MapRun

variable {p f : UInt32} {start n i : ℕ} {s : Paging}

/-- The first page of a run that has tables gets its leaf, and the others are mapped with the same
directory. -/
theorem mapPages_succ_of_hasTables (ha : s.Aligned) (h : s.HasTables start i (n + 1)) :
    ∃ t, mapPages p (pageAddr start) f (n + 1) i s = mapPages p (pageAddr start) f n (i + 1) t ∧
      SameDirectory s t ∧ t.pmm = s.pmm ∧
      ∀ m < 2 ^ 20, t.entry m =
        if s.SameSlot m (pageNum (pageAddr (start + i))) then some (runLeaf p f i)
        else s.entry m := by
  have hentry (m : ℕ) (hm : m < 2 ^ 20) :=
    h.head.entry_map (p := p + UInt32.ofNat i * 4096) (f := f) ha hm
  refine ⟨s.setPte (pdIndex (pageAddr (start + i))) (ptIndex (pageAddr (start + i)))
    (runLeaf p f i), ?_, .setPte ha h.head (ptIndex_lt _), rfl, ?_⟩
  · rw [mapPages, pageAddr_add, h.head.map_eq, runLeaf]
  · rw [h.head.map_eq] at hentry
    exact hentry

/-- A run of pages that have tables is mapped without any block. -/
theorem mapPages_of_hasTables (ha : s.Aligned) (h : s.HasTables start i n) :
    (mapPages p (pageAddr start) f n i s).1 = none ∧
      (mapPages p (pageAddr start) f n i s).2.pmm = s.pmm ∧
      SameDirectory s (mapPages p (pageAddr start) f n i s).2 := by
  induction n generalizing i s with
  | zero => exact ⟨rfl, rfl, .refl s⟩
  | succ n ih =>
      obtain ⟨t, heq, hdir, hpmm, -⟩ := mapPages_succ_of_hasTables (p := p) (f := f) ha h
      obtain ⟨hok, hpmm', hrest⟩ := ih (hdir.aligned ha) (h.tail hdir)
      rw [heq]
      exact ⟨hok, hpmm'.trans hpmm, hdir.trans hrest⟩

/-- A page that shares no entry with the run keeps its translation. -/
theorem entry_mapPages_of_not_sameSlot (ha : s.Aligned) (h : s.HasTables start i n) {a : ℕ}
    (hne : ∀ k, i ≤ k → k < i + n →
      ¬ s.SameSlot (pageNum (pageAddr a)) (pageNum (pageAddr (start + k)))) :
    (mapPages p (pageAddr start) f n i s).2.entry (pageNum (pageAddr a)) =
      s.entry (pageNum (pageAddr a)) := by
  induction n generalizing i s with
  | zero => rfl
  | succ n ih =>
      obtain ⟨t, heq, hdir, -, hentry⟩ := mapPages_succ_of_hasTables (p := p) (f := f) ha h
      have hstep := hentry (pageNum (pageAddr a)) (pageNum_lt _)
      rw [if_neg (hne i le_rfl (by omega))] at hstep
      rw [heq]
      refine (ih (hdir.aligned ha) (h.tail hdir) fun k hk hk' => ?_).trans hstep
      rw [hdir.sameSlot_iff (pageNum_lt _) (pageNum_lt _)]
      exact hne k (by omega) (by omega)

/-- If no two pages of the run share an entry, each gets the leaf of its own frame. -/
theorem entry_mapPages_of_hasTables (ha : s.Aligned) (h : s.HasTables start i n)
    (hown : ∀ j k, i ≤ j → j < k → k < i + n →
      ¬ s.SameSlot (pageNum (pageAddr (start + j))) (pageNum (pageAddr (start + k))))
    {k : ℕ} (hik : i ≤ k) (hk : k < i + n) :
    (mapPages p (pageAddr start) f n i s).2.entry (pageNum (pageAddr (start + k))) =
      some (runLeaf p f k) := by
  induction n generalizing i s with
  | zero => omega
  | succ n ih =>
      obtain ⟨t, heq, hdir, -, hentry⟩ := mapPages_succ_of_hasTables (p := p) (f := f) ha h
      rw [heq]
      rcases Nat.eq_or_lt_of_le hik with rfl | hlt
      · -- the page of this turn, which no later turn reaches
        have hstep := hentry (pageNum (pageAddr (start + i))) (pageNum_lt _)
        have hself := h.head.present
        rw [pdIndex_eq] at hself
        rw [if_pos ⟨hself, hself, rfl, rfl⟩] at hstep
        refine (entry_mapPages_of_not_sameSlot (hdir.aligned ha) (h.tail hdir)
          fun k hk hk' => ?_).trans hstep
        rw [hdir.sameSlot_iff (pageNum_lt _) (pageNum_lt _)]
        exact hown i k le_rfl (by omega) (by omega)
      · refine ih (hdir.aligned ha) (h.tail hdir) (fun j k hj hjk hk' => ?_) hlt (by omega)
        rw [hdir.sameSlot_iff (pageNum_lt _) (pageNum_lt _)]
        exact hown j k (by omega) hjk (by omega)

end MapRun

/-! ### Releasing a run -/

/-- Releasing a used block in range. -/
theorem pmmMarkUnusedRegion_blockAddr {p : Pmm} {b : ℕ} (hb : b < 2 ^ 20) (hlt : b < p.bound)
    (hused : p.isUsed b = true) :
    pmmMarkUnusedRegion p (blockAddr b) 4096 = markBlockUnused p b := by
  have hone : regionBlocks 4096 = 1 := by decide
  rw [pmmMarkUnusedRegion, hone, blockAddr_div hb, markRegion_of_lt hlt, markRegion, regionStep,
    hused]
  rfl

/-- The blocks that the loop of `vmm_free_contiguous` releases, if they are in use. -/
theorem pmm_freeContiguousLoop {virt : UInt32} {b start n i : ℕ} {s : Vmm}
    (hs : s.pmm.bound < 2 ^ 20) (hle : b + i + n ≤ s.pmm.bound)
    (hused : ∀ k, i ≤ k → k < i + n → s.pmm.isUsed (b + k) = true) :
    (freeContiguousLoop (blockAddr b) virt start n i s).pmm = markRunUnused b n i s.pmm := by
  induction n generalizing i s with
  | zero => rfl
  | succ n ih =>
      have hstep : (freeContiguousStep (blockAddr b) virt start i s).pmm =
          markBlockUnused s.pmm (b + i) := by
        rw [← pmmMarkUnusedRegion_blockAddr (by omega) (by omega) (hused i le_rfl (by omega)),
          ← blockAddr_add]
        exact congrArg (pmmMarkUnusedRegion · _ _) (Paging.pmm_unmap _)
      rw [freeContiguousLoop_succ, ih, hstep, markRunUnused, u32_of_lt (by omega)]
      · rw [hstep]
        exact hs
      · rw [hstep]
        show b + (i + 1) + n ≤ s.pmm.bound
        omega
      · intro k hk hk'
        have hclear : (markBlockUnused s.pmm (b + i)).isUsed (b + k) = s.pmm.isUsed (b + k) :=
          Bitmap.test_clear_of_ne (by omega)
        rw [hstep, hclear]
        exact hused k (by omega) (by omega)

/-- Its pages lose their translations, no page gains one, and the directory stays as it is. -/
theorem entry_freeContiguousLoop (phys : UInt32) (start' : ℕ) {start n i : ℕ} {s : Vmm}
    (ha : s.paging.Aligned) (h : s.paging.HasTables start i n) :
    SameDirectory s.paging (freeContiguousLoop phys (pageAddr start) start' n i s).paging ∧
    (∀ a < 2 ^ 20, s.paging.entry a = none →
      (freeContiguousLoop phys (pageAddr start) start' n i s).paging.entry a = none) ∧
    ∀ k, i ≤ k → k < i + n →
      (freeContiguousLoop phys (pageAddr start) start' n i s).paging.entry
        (pageNum (pageAddr (start + k))) = none := by
  induction n generalizing i s with
  | zero => exact ⟨.refl _, fun _ _ hnone => hnone, fun k hk hk' => by omega⟩
  | succ n ih =>
      have hdir : SameDirectory s.paging
          (freeContiguousStep phys (pageAddr start) start' i s).paging := by
        have := SameDirectory.unmap ha fun _ => h.head
        rw [← pageAddr_add] at this
        exact ⟨this.pageDirectory, this.pde⟩
      have hstep : ∀ a < 2 ^ 20,
          (freeContiguousStep phys (pageAddr start) start' i s).paging.entry a =
            if a = pageNum (pageAddr (start + i)) ∨
                s.paging.SameSlot a (pageNum (pageAddr (start + i))) then none
            else s.paging.entry a := by
        intro a hlt
        rw [← Paging.entry_unmap_of_table ha (fun _ => h.head) hlt, ← pageAddr_add]
        rfl
      rw [freeContiguousLoop_succ]
      obtain ⟨hsame, hkeep, hrest⟩ := ih (hdir.aligned ha) (h.tail hdir)
      refine ⟨hdir.trans hsame, ?_, ?_⟩
      · intro a hlt hnone
        refine hkeep a hlt ?_
        rw [hstep a hlt, hnone, ite_self]
      · intro k hk hk'
        rcases Nat.eq_or_lt_of_le hk with rfl | hlt
        · exact hkeep _ (pageNum_lt _) ((hstep _ (pageNum_lt _)).trans (if_pos (Or.inl rfl)))
        · exact hrest k hlt (by omega)

/-! ### The directory of reachable states -/

theorem aligned_pagingInit {s : Paging} (hs : s.pmm.bound < 2 ^ 20) : (pagingInit s).Aligned := by
  by_cases hdir : (pagingInit s).pageDirectory = 0
  · rw [Paging.Aligned, hdir]
    rfl
  · exact (sound_pagingInit hs hdir).aligned

/-- The directory that start-up obtains is used for good. -/
theorem MmReachable.aligned {boot : Boot} {s : Vmm} (h : MmReachable boot s) :
    s.paging.Aligned := by
  induction h with
  | boot =>
      rw [Paging.Aligned, (builds_kmain boot).pageDirectory boot.pagingInit_bound_lt]
      refine aligned_pagingInit ?_
      exact bound_pmmInit_lt boot.kernel boot.memSize boot.pmmBitmap boot.pmmBytes
  | vmm c hr ih =>
      have hrun := (pagingRun_next hr.sizes.1 c).1
      rw [Paging.Aligned, hrun.pageDirectory hr.sizes.1]
      exact ih
  | pmm c _ ih => exact ih

/-! ### The round trip -/

/-- The state after the pages that `vmm_alloc_contiguous(n)` returns are released again. -/
def allocatedAndFreed (s : Vmm) (n : UInt32) : Vmm :=
  vmmFreeContiguous (vmmAllocContiguous s n).2 (vmmAllocContiguous s n).1 n

/-- The `n` pages of `vmm_alloc_contiguous` translate to `n` blocks in a row, and
`vmm_free_contiguous` leaves them without a translation and both bitmaps and the counter as they
were. -/
structure RoundTrips (s : Vmm) (n : UInt32) : Prop where
  translated : ∃ b, b + n.toNat ≤ s.pmm.bound ∧ ∀ o < n.toNat * 4096,
    virtToPhys (vmmAllocContiguous s n).2.paging
      ((vmmAllocContiguous s n).1 + UInt32.ofNat o) = blockAddr b + UInt32.ofNat o
  memoryMap : (allocatedAndFreed s n).pmm.memoryMap = s.pmm.memoryMap
  usedBlocks : (allocatedAndFreed s n).pmm.usedBlocks = s.pmm.usedBlocks
  bitmap : (allocatedAndFreed s n).bitmap = s.bitmap
  unmapped : ∀ o < n.toNat * 4096,
    virtToPhys (allocatedAndFreed s n).paging ((vmmAllocContiguous s n).1 + UInt32.ofNat o) =
      0xFFFFFFFF

/-- The page tables of the run that `vmm_alloc_contiguous(n)` chooses exist. -/
def TablesExist (s : Vmm) (n : UInt32) : Prop :=
  ∀ start, findContiguousFreePages s n.toNat = some start → s.paging.HasTables start 0 n.toNat

/-- No two pages of that run share an entry of the page tables. -/
def OwnSlots (s : Vmm) (n : UInt32) : Prop :=
  ∀ start, findContiguousFreePages s n.toNat = some start → ∀ j k, j < k → k < n.toNat →
    ¬ s.paging.SameSlot (pageNum (pageAddr (start + j))) (pageNum (pageAddr (start + k)))

/-- What a successful `vmm_alloc_contiguous(n)` does where the tables exist: it marks the free pages
from `start` on and the free blocks from `b` on and maps the ones to the others, and the directory
stays as it is. -/
structure Places (s : Vmm) (n : UInt32) (start b : ℕ) : Prop where
  find : findContiguousFreePages s n.toNat = some start
  pos : 0 < n.toNat
  run : Loop.IsRun s.pmm.isFree n.toNat b
  addr : (vmmAllocContiguous s n).1 = pageAddr start
  state : (vmmAllocContiguous s n).2 =
    (markPages s start n.toNat true).withPaging (allocContiguousMap s n.toNat start b).2
  pmm : (allocContiguousMap s n.toNat start b).2.pmm = markRunUsed n.toNat b s.pmm
  directory : SameDirectory s.paging (allocContiguousMap s n.toNat start b).2

/-- Taking blocks does not change the directory. -/
theorem sameDirectory_withPmm (s : Paging) (pmm : Pmm) : SameDirectory s { s with pmm := pmm } :=
  ⟨rfl, fun _ _ => rfl⟩

theorem places_of_tablesExist {s : Vmm} (hs : s.pmm.bound < 2 ^ 20) (ha : s.paging.Aligned)
    {n : UInt32} (htables : TablesExist s n) (hp : (vmmAllocContiguous s n).1 ≠ 0) :
    ∃ start b, Places s n start b := by
  obtain ⟨-, heq⟩ | ⟨start, b, hroom, hfind, hb, hcase⟩ := vmmAllocContiguous_cases hs n
  · exact absurd (congrArg Prod.fst heq) hp
  rcases hcase with ⟨-, heq⟩ | ⟨-, -, heq⟩ | ⟨i, -, -, heq⟩
  · exact absurd (congrArg Prod.fst heq) hp
  · have hdir := sameDirectory_withPmm s.paging (markRunUsed n.toNat b s.pmm)
    obtain ⟨-, hpmm, hmap⟩ := mapPages_of_hasTables (p := blockAddr b) (f := 1 ||| 2)
      (hdir.aligned ha) fun k hk hk' => hdir.hasTable (pdIndex_lt _) (htables start hfind k hk hk')
    exact ⟨start, b, hfind, toNat_pos_of_ne_zero fun h0 => hroom (Or.inl h0),
      isRun_of_firstRun hb, congrArg Prod.fst heq, congrArg Prod.snd heq, hpmm, hdir.trans hmap⟩
  · exact absurd (congrArg Prod.fst heq) hp

namespace Places

variable {s : Vmm} {n : UInt32} {start b : ℕ}

theorem le_bound (h : Places s n start b) : b + n.toNat ≤ s.pmm.bound :=
  Pmm.le_bound_of_isRun h.pos h.run

theorem paging (h : Places s n start b) :
    (vmmAllocContiguous s n).2.paging = (allocContiguousMap s n.toNat start b).2 := by
  rw [h.state]
  rfl

/-- Two pages with one entry have one translation. -/
theorem not_translated (h : Places s n start b) (hs : s.pmm.bound < 2 ^ 20) {j k : ℕ} (hjk : j < k)
    (hk : k < n.toNat)
    (hslot : s.paging.SameSlot (pageNum (pageAddr (start + j))) (pageNum (pageAddr (start + k)))) :
    ¬ RoundTrips s n := by
  intro htrip
  obtain ⟨c, hc, htrans⟩ := htrip.translated
  have hframe : ∀ m < n.toNat, virtToPhys (allocContiguousMap s n.toNat start b).2
      (pageAddr (start + m)) = blockAddr (c + m) := by
    intro m hm
    have hbyte := htrans (m * 4096) (by omega)
    rw [h.paging, h.addr, pageAddr_add_byte, blockAddr_add_byte, Nat.mul_div_cancel m (by decide),
      Nat.mul_mod_left] at hbyte
    simpa using hbyte
  have hsame : virtToPhys (allocContiguousMap s n.toNat start b).2 (pageAddr (start + j)) =
      virtToPhys (allocContiguousMap s n.toNat start b).2 (pageAddr (start + k)) := by
    rw [← h.directory.sameSlot_iff (pageNum_lt _) (pageNum_lt _)] at hslot
    rw [virtToPhys_eq, virtToPhys_eq, hslot.entry_eq, pageAddr_offset, pageAddr_offset]
  rw [hframe j (by omega), hframe k hk] at hsame
  have := blockAddr_inj (by omega) (by omega) hsame
  omega

/-- With an entry of its own each page gets its own block. -/
theorem entry (h : Places s n start b) (ha : s.paging.Aligned) (htables : TablesExist s n)
    (hown : OwnSlots s n) {k : ℕ} (hk : k < n.toNat) :
    (allocContiguousMap s n.toNat start b).2.entry (pageNum (pageAddr (start + k))) =
      some (runLeaf (blockAddr b) (1 ||| 2) k) := by
  have hdir := sameDirectory_withPmm s.paging (markRunUsed n.toNat b s.pmm)
  refine entry_mapPages_of_hasTables (hdir.aligned ha)
    (fun j hj hj' => hdir.hasTable (pdIndex_lt _) (htables start h.find j hj hj'))
    (fun i j _ hij hj => ?_) (Nat.zero_le k) (by omega)
  rw [hdir.sameSlot_iff (pageNum_lt _) (pageNum_lt _)]
  exact hown start h.find i j hij (by omega)

/-- The first page tells `vmm_free_contiguous` which blocks to release. -/
theorem freed (h : Places s n start b) (hs : s.pmm.bound < 2 ^ 20) (hp : s.bound < 2 ^ 20)
    (hne : pageAddr start ≠ 0)
    (hfirst : (allocContiguousMap s n.toNat start b).2.entry (pageNum (pageAddr start)) =
      some (runLeaf (blockAddr b) (1 ||| 2) 0)) :
    allocatedAndFreed s n = freeContiguousLoop (blockAddr b) (pageAddr start) start n.toNat 0
      (vmmAllocContiguous s n).2 := by
  have hpos := h.pos
  have hle := h.le_bound
  have hbase : pageBase (runLeaf (blockAddr b) (1 ||| 2) 0) = blockAddr b :=
    pageBase_runLeaf (by decide) (by omega)
  have hstart := (freeRun_of_find h.find).1
  rw [allocatedAndFreed, vmmFreeContiguous_eq, h.paging, h.addr, virtToPhys_pageAddr hfirst, hbase,
    pageIndex_pageAddr (by omega), if_neg]
  rintro (h0 | h0 | hmax)
  · exact hne h0
  · rw [h0] at hpos
    exact absurd hpos (by decide)
  · rw [← hbase] at hmax
    exact pageBase_ne_max _ hmax

/-- The release gives back the blocks that were taken. -/
theorem pmm_freed (h : Places s n start b) (hs : s.pmm.bound < 2 ^ 20) (virt : UInt32) :
    (freeContiguousLoop (blockAddr b) virt start n.toNat 0 (vmmAllocContiguous s n).2).pmm =
      s.pmm := by
  have hle := h.le_bound
  have htakes := takesRun_markRunUsed h.run
  have hused : (vmmAllocContiguous s n).2.pmm = markRunUsed n.toNat b s.pmm := by
    rw [h.state]
    exact h.pmm
  have hclear : clearRun (setRun s.pmm.memoryMap b n.toNat) b n.toNat = s.pmm.memoryMap :=
    Bitmap.clearRun_setRun fun k hk => Pmm.isUsed_eq_false_of_isFree (h.run k hk)
  rw [pmm_freeContiguousLoop (by rw [hused, htakes.bound]; exact hs)
    (by rw [hused, htakes.bound]; omega), hused, markRunUnused_of_le (by rw [htakes.bound]; omega),
    htakes.memoryMap, htakes.usedBlocks, Nat.add_zero, hclear, UInt32.add_sub_cancel,
    markRunUsed_eq, decide_eq_false (by omega), Bool.or_false]
  intro k _ hk
  rw [hused, htakes.isUsed, decide_eq_true (by omega), Bool.true_or]

theorem roundTrips (h : Places s n start b) (hs : s.pmm.bound < 2 ^ 20) (hp : s.bound < 2 ^ 20)
    (ha : s.paging.Aligned) (htables : TablesExist s n) (hne : pageAddr start ≠ 0)
    (hown : OwnSlots s n) : RoundTrips s n := by
  have hle := h.le_bound
  have hbase : ∀ k < n.toNat, pageBase (runLeaf (blockAddr b) (1 ||| 2) k) = blockAddr (b + k) :=
    fun k hk => pageBase_runLeaf (by decide) (by omega)
  have hfirst := h.entry ha htables hown h.pos
  rw [Nat.add_zero] at hfirst
  have hfreed := h.freed hs hp hne hfirst
  have hback := h.pmm_freed hs (pageAddr start)
  obtain ⟨hstart, -, hpages⟩ := freeRun_of_find h.find
  rw [← hfreed] at hback
  refine ⟨⟨b, hle, fun o ho => ?_⟩, congrArg Pmm.memoryMap hback, congrArg Pmm.usedBlocks hback, ?_,
    fun o ho => ?_⟩
  · rw [h.paging, h.addr, pageAddr_add_byte, blockAddr_add_byte,
      virtToPhys_of_entry (Nat.mod_lt _ (by decide)) (h.entry ha htables hown (by omega)),
      hbase _ (by omega)]
  · have hroom : start + 0 + n.toNat ≤ 2 ^ 32 := by omega
    have hbits : (vmmAllocContiguous s n).2.bitmap = setRun s.bitmap start n.toNat := by
      rw [h.state]
      rfl
    rw [hfreed, bitmap_freeContiguousLoop hroom, hbits, Nat.add_zero]
    exact Bitmap.clearRun_setRun fun k hk => isPageFree_iff.mp (hpages k hk).2
  · have htables' : (vmmAllocContiguous s n).2.paging.HasTables start 0 n.toNat := by
      intro k hk hk'
      rw [h.paging]
      exact h.directory.hasTable (pdIndex_lt _) (htables start h.find k hk hk')
    have hpages := (entry_freeContiguousLoop (blockAddr b) start
      (by rw [h.paging]; exact h.directory.aligned ha) htables').2.2
    rw [h.addr, pageAddr_add_byte, hfreed]
    exact virtToPhys_of_entry_none (Nat.mod_lt _ (by decide))
      (hpages (o / 4096) (Nat.zero_le _) (by omega))

end Places

/-- Over tables in order no two pages of a run share an entry, if the run is no longer than the
window. -/
theorem ownSlots_of_sound {s : Vmm} (hs : s.paging.Sound) (hp : s.bound < 2 ^ 20) {n : UInt32}
    (hn : n.toNat ≤ 0x40000) : OwnSlots s n := by
  intro start hfind j k hjk hk hslot
  have hrun := (freeRun_of_find hfind).2.2
  have hlast := (hrun k hk).1
  have hapart : Unmirrored (start + j) (start + k) := ⟨by omega, by omega, by omega, by omega⟩
  exact hs.slot_ne hapart (by omega) (Or.inr hslot)

/-- `vmm_alloc_contiguous` succeeds where there is room and the tables exist, unless the run begins
at address zero. -/
theorem vmmAllocContiguous_succeeds {s : Vmm} (hs : s.pmm.bound < 2 ^ 20) (ha : s.paging.Aligned)
    {n : UInt32} (htables : TablesExist s n) (hroom : ¬ NoRoom s n)
    (hzero : s.pmm.isUsed 0 = true)
    (hstart : ∀ start, findContiguousFreePages s n.toNat = some start → pageAddr start ≠ 0) :
    (vmmAllocContiguous s n).1 ≠ 0 := by
  obtain ⟨hno, -⟩ | ⟨start, b, -, hfind, hb, hcase⟩ := vmmAllocContiguous_cases hs n
  · exact absurd hno hroom
  have hpos := toNat_pos_of_ne_zero fun h0 => hroom (Or.inl h0)
  rcases hcase with ⟨hb0, -⟩ | ⟨-, -, heq⟩ | ⟨i, -, hfail, -⟩
  · subst hb0
    have := isRun_of_firstRun hb 0 hpos
    rw [Nat.zero_add] at this
    rw [Pmm.isUsed_eq_false_of_isFree this] at hzero
    exact Bool.noConfusion hzero
  · rw [heq]
    exact hstart start hfind
  · have hdir := sameDirectory_withPmm s.paging (markRunUsed n.toNat b s.pmm)
    have hok := (mapPages_of_hasTables (p := blockAddr b) (f := 1 ||| 2) (hdir.aligned ha)
      fun k hk hk' => hdir.hasTable (pdIndex_lt _) (htables start hfind k hk hk')).1
    cases hok.symm.trans hfail

/-- Frames behind the end of memory are not released. -/
theorem pmm_freeContiguousLoop_of_le {phys virt : UInt32} {start n i : ℕ} {s : Vmm}
    (h : ∀ k, i ≤ k → k < i + n → s.pmm.bound ≤ ((phys + UInt32.ofNat k * 4096) / 4096).toNat) :
    (freeContiguousLoop phys virt start n i s).pmm = s.pmm := by
  induction n generalizing i s with
  | zero => rfl
  | succ n ih =>
      have hstep : (freeContiguousStep phys virt start i s).pmm = s.pmm := by
        show pmmMarkUnusedRegion (pagingUnmapPage s.paging _).pmm _ 4096 = s.pmm
        rw [Paging.pmm_unmap]
        exact markRegion_of_le (h i le_rfl (by omega))
      rw [freeContiguousLoop_succ, ih, hstep]
      intro k hk hk'
      rw [hstep]
      exact h k (by omega) (by omega)

/-- Pages that are mapped have their tables. -/
theorem MapsWindow.hasTables {u n : ℕ} {s t : Vmm} {phys f : UInt32}
    (h : MapsWindow u n s phys f t) (hs : t.paging.Sound) (hn : n ≤ 0x40000) :
    t.paging.HasTables 0 0 n := by
  intro k _ hk
  refine hs.hasTable (pdIndex_lt _) ?_
  have hentry := h.entry hn k (by omega)
  rw [entry_def, ← pdIndex_eq] at hentry
  rw [Nat.zero_add]
  by_contra hd
  rw [if_neg hd] at hentry
  cases hentry

/-- The frames from `0xA0000000` on lie behind the end of memory. -/
theorem le_block_behind {bound k : ℕ} (hmem : bound ≤ 0xA0000) (hk : k < 0x40000) :
    bound ≤ ((0xA0000000 + UInt32.ofNat k * 4096 : UInt32) / 4096).toNat := by
  have hbase : (0xA0000000 : UInt32).toNat = 0xA0000000 := by decide
  have hpage : (4096 : UInt32).toNat = 4096 := by decide
  rw [UInt32.toNat_div, UInt32.toNat_add, UInt32.toNat_mul, UInt32.toNat_ofNat', hbase, hpage]
  omega

/-- What maps a whole window of device memory above `0xA0000000` and gives it back: the state is as
before, but the window has its page tables. -/
theorem exists_windowTables {boot : Boot} {u : ℕ} {s : Vmm} (hreach : MmReachable boot s)
    (h : Roomy u s) (hn : 0x40000 < s.bound) (hu : u + 0x40008 ≤ s.pmm.bound)
    (hmem : s.pmm.bound ≤ 0xA0000) :
    ∃ t, MmReachable boot t ∧ FreeFrom (u + 0x40000) t.pmm ∧ t.pmm.bound = s.pmm.bound ∧
      t.bound = s.bound ∧ (∀ i < t.bound, isPageFree t i = true) ∧
      t.paging.HasTables 0 0 0x40001 ∧ t.paging.SameSlot 0 0xC0000 := by
  have hsize : mmioPages 0x40000000 = 0x40000 := mmioPages_mul (n := 0x40000) (by decide)
  obtain ⟨t, hcall, ht⟩ := h.mapMmio 0xA0000000 0 hsize (by omega) (by omega) (by omega)
  have hbound := (ht.builds.grows h.sound.bound_lt).bound
  have hs : t.paging.Sound := ht.builds.sound h.sound
  have htwin := ht.builds.sameSlot h.sound (by decide) (by decide) h.twin
  have hreach' : MmReachable boot t := by
    have := hreach.vmm (.mapMmio 0xA0000000 0x40000000 0)
    rwa [VmmCall.next, VmmCall.run, hcall] at this
  have htables := ht.hasTables hs le_rfl
  -- the frames lie behind the end of memory, so that releasing them releases nothing
  have hfirst : virtToPhys t.paging (pageAddr 0) = 0xA0000000 :=
    (virtToPhys_pageAddr (ht.entry le_rfl 0 (by omega))).trans (by decide)
  have hfreed : vmmFreeContiguous t (pageAddr 0) 0x40000 =
      freeContiguousLoop 0xA0000000 (pageAddr 0) 0 0x40000 0 t := by
    rw [vmmFreeContiguous_eq, hfirst, if_neg (by decide), pageIndex_pageAddr (by omega)]
    rfl
  have hbeyond : ∀ k, 0 ≤ k → k < 0 + 0x40000 →
      t.pmm.bound ≤ ((0xA0000000 + UInt32.ofNat k * 4096 : UInt32) / 4096).toNat := by
    intro k _ hk
    have hlt : t.pmm.bound = s.pmm.bound := hbound
    exact le_block_behind (hlt ▸ hmem) (by omega)
  set r := freeContiguousLoop 0xA0000000 (pageAddr 0) 0 0x40000 0 t with hr
  have hpmm : r.pmm = t.pmm := pmm_freeContiguousLoop_of_le hbeyond
  have hdir : SameDirectory t.paging r.paging :=
    (entry_freeContiguousLoop 0xA0000000 0 hs.aligned htables).1
  have hmax : r.maxPages = t.maxPages := maxPages_freeContiguousLoop _ _ _ _ _ _
  have hbits : r.bitmap = s.bitmap := by
    rw [hr, bitmap_freeContiguousLoop (by omega), ht.bitmap]
    refine Bitmap.clearRun_setRun fun k hk => isPageFree_iff.mp ?_
    rw [Nat.zero_add]
    exact h.pages k (by omega)
  have hpages : r.bound = s.bound := (congrArg UInt32.toNat hmax).trans ht.bound
  refine ⟨r, ?_, by rw [hpmm]; exact ht.blocks, by rw [hpmm]; exact hbound, hpages, ?_, ?_, ?_⟩
  · have hnext : VmmCall.next t (.freeContiguous (pageAddr 0) 0x40000) = r := hfreed
    exact hnext ▸ hreach'.vmm _
  · intro i hi
    have := h.pages i (by rwa [hpages] at hi)
    rw [isPageFree_iff] at this ⊢
    rw [hbits]
    exact this
  · intro k _ hk
    refine hdir.hasTable (pdIndex_lt _) ?_
    rcases Nat.lt_or_ge k 0x40000 with hlt | hge
    · exact htables k (Nat.zero_le k) (by omega)
    · obtain rfl : k = 0x40000 := by omega
      have hzero : pdIndex (pageAddr (0 + 0x40000)) = 0 := by decide
      rw [hzero]
      exact hs.hasTable (by decide) htwin.1
  · rw [hdir.sameSlot_iff (by decide) (by decide)]
    exact htwin

end HalOS
