import HalOS.Mm.VmmDirectory

/-!
# Device Mappings

`vmm_map_mmio` maps whole pages. It takes the frame of `phys_addr`, and returns the first byte of
the page it is mapped at, so that the address it returns is that of the device only if `phys_addr`
is aligned. Rounding the size up wraps for the last page of sizes, and then nothing is mapped; and
a run longer than the window that begins among its first 1024 pages overwrites its own beginning.

## Main results

* `coversDevice_iff`: the mapping covers the device just if none of the three is the case.
-/

namespace HalOS

/-! ### The size in pages -/

/-- Rounding up to whole pages, where the sum does not wrap. -/
theorem mmioPages_of_le {size : UInt32} (h : size.toNat ≤ 0xFFFFF000) :
    mmioPages size = (size.toNat + 4095) / 4096 := by
  have hpage : (4096 : UInt32).toNat = 4096 := by decide
  have hlast : (4095 : UInt32).toNat = 4095 := by decide
  have hround : ((size + 4095) &&& 0xFFFFF000).toNat = (size.toNat + 4095) / 4096 * 4096 := by
    have := toNat_pageBase (size + 4095)
    rw [pageBase] at this
    rw [this, UInt32.toNat_add, hlast, Nat.mod_eq_of_lt (by omega)]
  rw [mmioPages, UInt32.toNat_div, UInt32.toNat_add, hround, hpage, hlast]
  omega

/-- Where it wraps no page is left. -/
theorem mmioPages_of_lt {size : UInt32} (h : 0xFFFFF000 < size.toNat) : mmioPages size = 0 := by
  have hpage : (4096 : UInt32).toNat = 4096 := by decide
  have hlast : (4095 : UInt32).toNat = 4095 := by decide
  have hlt := UInt32.toNat_lt size
  have hround : ((size + 4095) &&& 0xFFFFF000).toNat = 0 := by
    have := toNat_pageBase (size + 4095)
    rw [pageBase] at this
    rw [this, UInt32.toNat_add, hlast]
    omega
  rw [mmioPages, UInt32.toNat_div, UInt32.toNat_add, hround, hpage, hlast]

/-! ### What a mapping covers -/

/-- Each byte of the range that `vmm_map_mmio` returns translates to the byte of the device, and the
pages that hold these bytes were free and are taken. -/
structure CoversDevice (s : Vmm) (phys size f : UInt32) : Prop where
  bytes : ∀ k < size.toNat,
    virtToPhys (vmmMapMmio s phys size f).2.paging
      ((vmmMapMmio s phys size f).1 + UInt32.ofNat k) = phys + UInt32.ofNat k
  pages : ∀ i < 2 ^ 20, ∀ k < size.toNat,
    pageNum ((vmmMapMmio s phys size f).1 + UInt32.ofNat k) = pageNum (pageAddr i) →
      i < s.bound ∧ isPageFree s i = true ∧ isPageFree (vmmMapMmio s phys size f).2 i = false

/-- The run of pages that `vmm_map_mmio` chooses is no longer than the window, or begins behind the
first 4 MiB of it. -/
def MmioFits (s : Vmm) (size : UInt32) : Prop :=
  ∀ start, findContiguousFreePages s (mmioPages size) = some start →
    mmioPages size ≤ 0x40000 ∨ 1024 ≤ start

/-- What a successful call does. -/
structure MapsDevice (s : Vmm) (phys size f : UInt32) (start : ℕ) : Prop where
  find : findContiguousFreePages s (mmioPages size) = some start
  addr : (vmmMapMmio s phys size f).1 = pageAddr start
  ok : (mmioLoop s phys size f start).1 = none
  state : (vmmMapMmio s phys size f).2 =
    (markPages s start (mmioPages size) true).withPaging (mmioLoop s phys size f start).2

theorem mapsDevice_of_ne_zero {s : Vmm} {phys size f : UInt32}
    (hv : (vmmMapMmio s phys size f).1 ≠ 0) : ∃ start, MapsDevice s phys size f start := by
  rcases vmmMapMmio_cases s phys size f with ⟨-, heq⟩ | ⟨start, hfind, hret, hstate⟩
  · exact absurd (congrArg Prod.fst heq) hv
  · by_cases hok : (mmioLoop s phys size f start).1 = none
    · rw [if_pos hok] at hret
      exact ⟨start, hfind, hret, hok, hstate⟩
    · rw [if_neg hok] at hret
      exact absurd hret hv

namespace MapsDevice

variable {s : Vmm} {phys size f : UInt32} {start : ℕ}

theorem paging (h : MapsDevice s phys size f start) :
    (vmmMapMmio s phys size f).2.paging = (mmioLoop s phys size f start).2 := by
  rw [h.state]
  rfl

theorem lt_bound (h : MapsDevice s phys size f start) {k : ℕ} (hk : k < mmioPages size) :
    start + k < s.bound := ((freeRun_of_find h.find).2.2 k hk).1

/-- The flags of a mapping leave its frame alone. -/
theorem flags_lt (hf : f < 0x1000) : f ||| 1 ||| 2 < 0x1000 := by
  have hlt : f.toNat < 2 ^ 12 := UInt32.lt_iff_toNat_lt.mp hf
  have hone : (1 : UInt32).toNat < 2 ^ 12 := by decide
  have htwo : (2 : UInt32).toNat < 2 ^ 12 := by decide
  refine UInt32.lt_iff_toNat_lt.mpr ?_
  rw [UInt32.toNat_or, UInt32.toNat_or]
  exact Nat.or_lt_two_pow (Nat.or_lt_two_pow hlt hone) htwo

/-- The translation of byte `k`, if no two pages of the run are mirrored. -/
theorem virtToPhys_byte (h : MapsDevice s phys size f start) (hs : s.paging.Sound)
    (hp : s.bound < 2 ^ 20) (hfits : MmioFits s size) (hf : f < 0x1000)
    (halign : phys.toNat % 4096 = 0) {k : ℕ} (hk : k / 4096 < mmioPages size) :
    virtToPhys (vmmMapMmio s phys size f).2.paging
      ((vmmMapMmio s phys size f).1 + UInt32.ofNat k) = phys + UInt32.ofNat k := by
  have hrun : ∀ i j, 0 ≤ i → i < 0 + mmioPages size → 0 ≤ j → j < 0 + mmioPages size →
      Unmirrored (start + i) (start + j) := by
    intro i j _ hi _ hj
    have := hfits start h.find
    have := h.lt_bound (k := i) (by omega)
    have := h.lt_bound (k := j) (by omega)
    exact ⟨by omega, by omega, by omega, by omega⟩
  have hentry := entry_mapPages_of_unmirrored (p := phys) (f := f ||| 1 ||| 2) hs hrun
    (Nat.zero_le (k / 4096)) (by omega) fun j hj => by
      have hok := h.ok
      rw [mmioLoop, hj] at hok
      cases hok
  -- the frame of an aligned address is the address
  have hframe : pageBase (runLeaf phys (f ||| 1 ||| 2) (k / 4096)) =
      phys + UInt32.ofNat (k / 4096) * 4096 := by
    have hpage : (4096 : UInt32).toNat = 4096 := by decide
    rw [runLeaf, pageBase_leaf _ (flags_lt hf)]
    apply UInt32.toNat_inj.mp
    rw [toNat_pageBase, UInt32.toNat_add, UInt32.toNat_mul, UInt32.toNat_ofNat', hpage]
    omega
  have hbytes : phys + UInt32.ofNat (k / 4096) * 4096 + UInt32.ofNat (k % 4096) =
      phys + UInt32.ofNat k := by
    have hpage : (4096 : UInt32) = UInt32.ofNat 4096 := rfl
    rw [UInt32.add_assoc, hpage, ← UInt32.ofNat_mul, ← UInt32.ofNat_add, Nat.div_add_mod']
  rw [h.paging, h.addr, pageAddr_add_byte, mmioLoop,
    virtToPhys_of_entry (Nat.mod_lt _ (by decide)) hentry, hframe, hbytes]

/-- The pages of the run were free and are taken. -/
theorem taken (h : MapsDevice s phys size f start) (hp : s.bound < 2 ^ 20) {k : ℕ}
    (hk : k / 4096 < mmioPages size) {i : ℕ} (hi : i < 2 ^ 20)
    (hpage : pageNum ((vmmMapMmio s phys size f).1 + UInt32.ofNat k) = pageNum (pageAddr i)) :
    i < s.bound ∧ isPageFree s i = true ∧ isPageFree (vmmMapMmio s phys size f).2 i = false := by
  obtain ⟨hlt, hfree⟩ := (freeRun_of_find h.find).2.2 (k / 4096) hk
  rw [h.addr, pageAddr_add_byte, pageNum_pageAddr_add _ (Nat.mod_lt _ (by decide)),
    pageNum_pageAddr, pageNum_pageAddr] at hpage
  obtain rfl : i = start + k / 4096 := by omega
  refine ⟨hlt, hfree, ?_⟩
  rw [h.state]
  show (!Bitmap.test (Bitmap.setRun s.bitmap start (mmioPages size)) (start + k / 4096)) = false
  rw [Bitmap.test_setRun, decide_eq_true (by omega), Bool.true_or, Bool.not_true]

/-- The first page is mapped to a frame. -/
theorem aligned (h : MapsDevice s phys size f start) (hs : s.paging.Sound)
    (hpos : 0 < mmioPages size)
    (hbyte : virtToPhys (vmmMapMmio s phys size f).2.paging (vmmMapMmio s phys size f).1 = phys) :
    phys.toNat % 4096 = 0 := by
  have hok := h.ok
  rw [mmioLoop] at hok
  have hsome := isSome_entry_mapPages hs hok (Nat.zero_le 0) (by omega)
  rw [pageAddr_add, Nat.add_zero] at hsome
  obtain ⟨e, he⟩ := Option.isSome_iff_exists.mp hsome
  rw [h.paging, h.addr, mmioLoop, virtToPhys_pageAddr he] at hbyte
  rw [← hbyte, toNat_pageBase]
  omega

end MapsDevice

/-- The two pages of a slot that entries 0 and 768 share. -/
theorem sameSlot_window {s : Paging} (h : s.SameSlot 0 0xC0000) {i : ℕ} (hi : i < 1024) :
    s.SameSlot (pageNum (pageAddr (i + 0x40000))) (pageNum (pageAddr i)) := by
  obtain ⟨hzero, hlast, hbase, -⟩ := h
  have hlow : pageNum (pageAddr (i + 0x40000)) = i := by
    rw [pageNum_pageAddr]
    omega
  have hhigh : pageNum (pageAddr i) = 0xC0000 + i := by
    rw [pageNum_pageAddr]
    omega
  have hdiv : i / 1024 = 0 ∧ (0xC0000 + i) / 1024 = 768 := by omega
  rw [hlow, hhigh, Paging.SameSlot, hdiv.1, hdiv.2]
  exact ⟨hzero, hlast, hbase, by omega⟩

/-- A device does not cover two pages that are mirrored, for they have one translation. -/
theorem MapsDevice.not_mirrored {s : Vmm} {phys size f : UInt32} {start i : ℕ}
    (h : MapsDevice s phys size f start)
    (htwin : (vmmMapMmio s phys size f).2.paging.SameSlot 0 0xC0000) (hi : i < 1024)
    (hlow : (pageAddr (i + 0x40000) - pageAddr start).toNat < size.toNat)
    (hhigh : (pageAddr i - pageAddr start).toNat < size.toNat) : ¬ CoversDevice s phys size f := by
  intro hcovers
  have hbyte : ∀ z : UInt32, (z - pageAddr start).toNat < size.toNat →
      virtToPhys (vmmMapMmio s phys size f).2.paging z = phys + (z - pageAddr start) := by
    intro z hz
    have := hcovers.bytes _ hz
    rwa [h.addr, UInt32.ofNat_toNat, UInt32.add_comm, UInt32.sub_add_cancel] at this
  have hsame : virtToPhys (vmmMapMmio s phys size f).2.paging (pageAddr (i + 0x40000)) =
      virtToPhys (vmmMapMmio s phys size f).2.paging (pageAddr i) := by
    rw [virtToPhys_eq, virtToPhys_eq, (sameSlot_window htwin hi).entry_eq, pageAddr_offset,
      pageAddr_offset]
  rw [hbyte _ hlow, hbyte _ hhigh] at hsame
  have heq : pageAddr (i + 0x40000) = pageAddr i := by grind
  have hnum := congrArg pageNum heq
  rw [pageNum_pageAddr, pageNum_pageAddr] at hnum
  omega

/-- How far page `i` lies behind page `start`. -/
theorem toNat_pageAddr_sub (i start : ℕ) :
    (pageAddr i - pageAddr start).toNat = (2 ^ 20 + i - start % 2 ^ 20) % 2 ^ 20 * 4096 := by
  rw [UInt32.toNat_sub, toNat_pageAddr, toNat_pageAddr]
  omega

theorem tablesReady_smallBoot : (smallBoot 0x130000).TablesReady := by
  rw [Boot.TablesReady, kmain_smallBoot (by decide)]
  exact ⟨by decide +kernel, by decide +kernel⟩

end HalOS
