import HalOS.Mm.PmmAccounting
import HalOS.Mm.PagingSpec

/-!
# Reserved Memory Stays Reserved

`pmm_init` marks three areas: the first megabyte, the kernel image and the bitmap. A region
call marks as many blocks as the size alone needs, counted from the block of the base, so an
area that does not begin on a block boundary can lose its last block; the bitmap's size is
rounded down; and a size within a page of `2 ^ 32` wraps to no block at all. The last block of
memory may besides be cut short by the end of memory.

A careful run allocates, frees blocks it was given and releases no reserved block. Such runs
are never given reserved or missing memory exactly when `pmm_init` has marked the last block of
each area and the end of memory does not cut a block that is not reserved.

## Main results

* `reserved_used_iff`: when `pmm_init` marks every reserved block.
* `given_safe_iff`: when no careful run is given reserved or missing memory.
* `pmm_reserved_never_handed_out`: the two together.
-/

namespace HalOS

open Loop (IsRun)

/-- The arguments of `pmm_init`, with the kernel's symbols and the bytes at the bitmap. -/
structure PmmStart where
  kernel : KernelImage
  memSize : UInt32
  bitmap : UInt32
  bytes : ℕ → UInt8

namespace PmmStart

/-- What `pmm_init` leaves. -/
def state (m : PmmStart) : Pmm := pmmInit m.kernel m.memSize m.bitmap m.bytes

/-- `pmm_max_blocks`. -/
def blocks (m : PmmStart) : ℕ := m.state.bound

end PmmStart

/-- Block `b` has a byte in `[lo, hi)`. -/
def Overlaps (b lo hi : ℕ) : Prop := lo < hi ∧ lo < (b + 1) * 4096 ∧ b * 4096 < hi

/-- Block `b` overlaps the first megabyte, the kernel image or the bytes of the bitmap. (Bytes
of a bitmap that wraps past the top of the address space lie in the first megabyte.) -/
def PmmStart.Reserved (m : PmmStart) (b : ℕ) : Prop :=
  Overlaps b 0 0x100000 ∨
    Overlaps b m.kernel.physicalStart.toNat m.kernel.physicalEnd.toNat ∨
    Overlaps b m.bitmap.toNat (m.bitmap.toNat + (m.blocks + 7) / 8)

/-- Block `b` is one of those a region call goes through. -/
def InRegion (base size : UInt32) (b : ℕ) : Prop :=
  (base / 4096).toNat ≤ b ∧ b < (base / 4096).toNat + regionBlocks size

/-- Block `b` is one of those `pmm_init` marks. -/
def PmmStart.Marked (m : PmmStart) (b : ℕ) : Prop :=
  InRegion 0 0x100000 b ∨
    InRegion m.kernel.physicalStart (m.kernel.physicalEnd - m.kernel.physicalStart) b ∨
    InRegion m.bitmap ((m.memSize + 4095) / 4096 / 8) b

instance (b lo hi : ℕ) : Decidable (Overlaps b lo hi) := inferInstanceAs (Decidable (_ ∧ _))

instance (base size : UInt32) (b : ℕ) : Decidable (InRegion base size b) :=
  inferInstanceAs (Decidable (_ ∧ _))

instance (m : PmmStart) (b : ℕ) : Decidable (m.Reserved b) := inferInstanceAs (Decidable (_ ∨ _))

instance (m : PmmStart) (b : ℕ) : Decidable (m.Marked b) := inferInstanceAs (Decidable (_ ∨ _))

/-- `pmm_init` marks the last block of the kernel image and of the bitmap, where they exist. An
image that spans nearly the whole address space is not marked at all; it is covered if the
bitmap covers the rest of memory. -/
structure PmmStart.AreasCovered (m : PmmStart) : Prop where
  kernel : m.kernel.physicalStart < m.kernel.physicalEnd →
    m.kernel.physicalEnd.toNat - m.kernel.physicalStart.toNat ≤ 0xFFFFF000 →
    (m.kernel.physicalEnd.toNat - 1) / 4096 < m.blocks →
    m.Marked ((m.kernel.physicalEnd.toNat - 1) / 4096)
  wholeSpace : 0xFFFFF000 < m.kernel.physicalEnd.toNat - m.kernel.physicalStart.toNat →
    256 < m.blocks → m.Marked 256 ∧ m.Marked (m.blocks - 1)
  bitmap : (m.bitmap.toNat + (m.blocks + 7) / 8 - 1) / 4096 < m.blocks →
    m.Marked ((m.bitmap.toNat + (m.blocks + 7) / 8 - 1) / 4096)

/-- The end of memory does not cut a block short, or the block it cuts is reserved. -/
def PmmStart.LastBlockWhole (m : PmmStart) : Prop :=
  0 < m.blocks → m.memSize.toNat % 4096 ≠ 0 → m.Reserved (m.blocks - 1)

/-! ### What `pmm_init` marks -/

theorem PmmStart.blocks_eq (m : PmmStart) (hsize : m.memSize ≠ 0) (hmap : m.bitmap ≠ 0) :
    m.blocks = ((m.memSize + 4095) / 4096).toNat :=
  bound_pmmInit (not_or.mpr ⟨hsize, hmap⟩) m.kernel m.bytes

/-- Without a bitmap there are no blocks. -/
theorem PmmStart.blocks_null (m : PmmStart) (hmap : m.bitmap = 0) : m.blocks = 0 := by
  rw [blocks, state, pmmInit, if_pos (Or.inr hmap)]
  rfl

theorem PmmStart.blocks_lt (m : PmmStart) : m.blocks < 2 ^ 20 := bound_pmmInit_lt _ _ _ _

/-- A region call marks the blocks it goes through. -/
theorem isUsed_pmmMarkUsedRegion {s : Pmm} {b : ℕ} (hb : b < s.bound) (base size : UInt32) :
    (pmmMarkUsedRegion s base size).isUsed b = true ↔
      InRegion base size b ∨ s.isUsed b = true := by
  rw [pmmMarkUsedRegion, isUsed_markRegion]
  split_ifs with h
  · exact iff_of_true rfl (Or.inl ⟨h.1, h.2.1⟩)
  · exact ⟨Or.inr, fun hor => hor.resolve_left fun hin => h ⟨hin.1, hin.2, hb⟩⟩

/-- Memory that is all zero holds no set bit. -/
theorem isUsed_blank {m : PmmStart} {s : Pmm} {b : ℕ}
    (hb : b < ((m.memSize + 4095) / 4096).toNat)
    (hmap : s.memoryMap =
      fun i => if i < (((m.memSize + 4095) / 4096 + 7) / 8).toNat then 0 else m.bytes i) :
    s.isUsed b = false := by
  have hbyte : b / 8 < (((m.memSize + 4095) / 4096 + 7) / 8).toNat := by
    rw [toNat_bitmapSize]
    omega
  rw [Pmm.isUsed, hmap, Bitmap.test_of_byte_eq_zero (if_pos hbyte)]

/-- After `pmm_init` the used blocks are the marked ones. -/
theorem PmmStart.isUsed_state (m : PmmStart) (hsize : m.memSize ≠ 0) {b : ℕ}
    (hb : b < m.blocks) : m.state.isUsed b = true ↔ m.Marked b := by
  by_cases hmap : m.bitmap = 0
  · rw [m.blocks_null hmap] at hb
    omega
  rw [m.blocks_eq hsize hmap] at hb
  have hinit : ∀ t : Pmm, ({ t with initialized := true } : Pmm).isUsed b = t.isUsed b :=
    fun _ => rfl
  have hbound : ∀ t : Pmm, ∀ base size, (pmmMarkUsedRegion t base size).bound = t.bound :=
    fun t base size => bound_markRegion true _ _ t
  rw [state, pmmInit, if_neg (not_or.mpr ⟨hsize, hmap⟩), Marked, hinit,
    isUsed_pmmMarkUsedRegion (by rw [hbound, hbound]; exact hb),
    isUsed_pmmMarkUsedRegion (by rw [hbound]; exact hb), isUsed_pmmMarkUsedRegion hb,
    isUsed_blank (m := m) hb rfl]
  -- the marks are made in the order first megabyte, kernel, bitmap
  constructor
  · rintro (h | h | h | h)
    · exact Or.inr (Or.inr h)
    · exact Or.inr (Or.inl h)
    · exact Or.inl h
    · exact Bool.noConfusion h
  · rintro (h | h | h)
    · exact Or.inr (Or.inr (Or.inl h))
    · exact Or.inr (Or.inl h)
    · exact Or.inl h

/-! ### Areas and the regions that mark them -/

/-- The blocks of a region whose size does not wrap. -/
theorem inRegion_iff {base size : UInt32} (h : size.toNat ≤ 0xFFFFF000) (b : ℕ) :
    InRegion base size b ↔
      base.toNat / 4096 ≤ b ∧ b < base.toNat / 4096 + (size.toNat + 4095) / 4096 := by
  rw [InRegion, regionBlocks, UInt32.toNat_div, UInt32.toNat_div, UInt32.toNat_add]
  have hsum : (size.toNat + (4095 : UInt32).toNat) % 2 ^ 32 = size.toNat + 4095 :=
    Nat.mod_eq_of_lt (by simp only [UInt32.reduceToNat]; omega)
  rw [hsum]
  rfl

/-- A region whose size wraps has no block. -/
theorem not_inRegion {base size : UInt32} (h : 0xFFFFF000 < size.toNat) (b : ℕ) :
    ¬ InRegion base size b := by
  have hlt := size.toNat_lt
  have hzero : regionBlocks size = 0 := by
    rw [regionBlocks, UInt32.toNat_div, UInt32.toNat_add]
    simp only [UInt32.reduceToNat]
    omega
  rintro ⟨hlo, hhi⟩
  omega

/-- **An area and its region.** A region call that starts at an area and is told its size, or
one byte less, goes through every block of the area but perhaps the last. -/
theorem inRegion_of_overlaps {base size : UInt32} {extent b : ℕ} (hsize : size.toNat ≤ 0xFFFFF000)
    (hextent : extent ≤ size.toNat + 1)
    (h : Overlaps b base.toNat (base.toNat + extent))
    (hlast : b ≠ (base.toNat + extent - 1) / 4096) : InRegion base size b := by
  obtain ⟨hpos, hlo, hhi⟩ := h
  rw [inRegion_iff hsize]
  omega

/-- The last block of an area overlaps it. -/
theorem overlaps_last {lo hi : ℕ} (h : lo < hi) : Overlaps ((hi - 1) / 4096) lo hi :=
  ⟨h, by omega, by omega⟩

variable {m : PmmStart}

/-- The size of the bitmap's region. -/
theorem toNat_bitmapRegion (hsize : m.memSize ≠ 0) (hmap : m.bitmap ≠ 0) :
    ((m.memSize + 4095) / 4096 / 8).toNat = m.blocks / 8 := by
  rw [UInt32.toNat_div, m.blocks_eq hsize hmap]
  rfl

theorem toNat_kernelSize (h : m.kernel.physicalStart < m.kernel.physicalEnd) :
    (m.kernel.physicalEnd - m.kernel.physicalStart).toNat =
      m.kernel.physicalEnd.toNat - m.kernel.physicalStart.toNat :=
  UInt32.toNat_sub_of_le _ _ (UInt32.le_of_lt h)

/-- Where the kernel spans the address space, what is marked above the first megabyte is the
bitmap's region. -/
theorem marked_of_wholeSpace
    (hwhole : 0xFFFFF000 < m.kernel.physicalEnd.toNat - m.kernel.physicalStart.toNat) {b : ℕ}
    (hb : 256 ≤ b) (h : m.Marked b) : InRegion m.bitmap ((m.memSize + 4095) / 4096 / 8) b := by
  have hlt : m.kernel.physicalStart < m.kernel.physicalEnd := UInt32.lt_iff_toNat_lt.mpr (by omega)
  obtain h | h | h := h
  · rw [inRegion_iff (by decide)] at h
    simp only [UInt32.reduceToNat] at h
    omega
  · exact absurd h (not_inRegion (by rw [toNat_kernelSize hlt]; exact hwhole) b)
  · exact h

/-- If the areas are covered, every reserved block is marked. -/
theorem PmmStart.AreasCovered.marked (hsize : m.memSize ≠ 0) (hmap : m.bitmap ≠ 0)
    (h : m.AreasCovered) {b : ℕ} (hb : b < m.blocks) (hres : m.Reserved b) : m.Marked b := by
  have hblocks := m.blocks_lt
  have hregion := toNat_bitmapRegion hsize hmap
  obtain hlow | hkernel | hbitmap := hres
  · refine Or.inl ((inRegion_iff (by decide) b).mpr ?_)
    obtain ⟨-, -, hlt⟩ := hlow
    simp only [UInt32.reduceToNat]
    omega
  · have hlt : m.kernel.physicalStart < m.kernel.physicalEnd :=
      UInt32.lt_iff_toNat_lt.mpr hkernel.1
    by_cases hwhole : 0xFFFFF000 < m.kernel.physicalEnd.toNat - m.kernel.physicalStart.toNat
    · by_cases hlow : b < 256
      · refine Or.inl ((inRegion_iff (by decide) b).mpr ?_)
        simp only [UInt32.reduceToNat]
        omega
      · -- the bitmap's region reaches from block 256 to the last one
        obtain ⟨hfirst, hlast⟩ := h.wholeSpace hwhole (by omega)
        have hfirst := marked_of_wholeSpace hwhole le_rfl hfirst
        have hlast := marked_of_wholeSpace hwhole (by omega) hlast
        exact Or.inr (Or.inr ⟨hfirst.1.trans (by omega), lt_of_le_of_lt (by omega) hlast.2⟩)
    · have hend : m.kernel.physicalStart.toNat +
          (m.kernel.physicalEnd - m.kernel.physicalStart).toNat = m.kernel.physicalEnd.toNat := by
        have := hkernel.1
        rw [toNat_kernelSize hlt]
        omega
      by_cases hlast : b = (m.kernel.physicalEnd.toNat - 1) / 4096
      · rw [hlast]
        exact h.kernel hlt (by omega) (by omega)
      · refine Or.inr (Or.inl (inRegion_of_overlaps (by rw [toNat_kernelSize hlt]; omega)
          (Nat.le_succ _) ?_ ?_))
        · rw [hend]
          exact hkernel
        · rw [hend]
          exact hlast
  · by_cases hlast : b = (m.bitmap.toNat + (m.blocks + 7) / 8 - 1) / 4096
    · rw [hlast]
      exact h.bitmap (by omega)
    · exact Or.inr (Or.inr (inRegion_of_overlaps (by omega) (by omega) hbitmap hlast))

/-- **After `pmm_init`.** Every reserved block is marked if and only if the areas are
covered. -/
theorem reserved_marked_iff (hsize : m.memSize ≠ 0) :
    (∀ b < m.blocks, m.Reserved b → m.Marked b) ↔ m.AreasCovered := by
  constructor
  · intro h
    have hblocks := m.blocks_lt
    have hend := m.kernel.physicalEnd.toNat_lt
    refine ⟨fun hlt _ hb => ?_, fun hwhole hb => ⟨?_, ?_⟩, fun hb => ?_⟩
    · exact h _ hb (Or.inr (Or.inl (overlaps_last (UInt32.lt_iff_toNat_lt.mp hlt))))
    · exact h _ hb (Or.inr (Or.inl ⟨by omega, by omega, by omega⟩))
    · exact h _ (by omega) (Or.inr (Or.inl ⟨by omega, by omega, by omega⟩))
    · exact h _ hb (Or.inr (Or.inr (overlaps_last (by omega))))
  · intro h b hb hres
    by_cases hmap : m.bitmap = 0
    · rw [m.blocks_null hmap] at hb
      omega
    · exact h.marked hsize hmap hb hres

/-! ### Careful runs -/

/-- The blocks a call returns. -/
def PmmCall.returned (s : Pmm) (c : PmmCall) : List ℕ :=
  c.requested.elim [] fun n =>
    if (c.run s).1 = 0 then [] else List.range' ((c.run s).1 / 4096).toNat n.toNat

/-- The call frees only blocks that were given before, and releases no reserved block. -/
def PmmCall.Careful (m : PmmStart) (given : List ℕ) : PmmCall → Prop
  | markUnusedRegion base size => ∀ b, InRegion base size b → ¬ m.Reserved b
  | freeBlock p => (p / 4096).toNat ∈ given
  | freeBlocks p n => ∀ i < n.toUInt32.toNat, (p / 4096).toNat + i ∈ given
  | freeContiguous p n => ∀ i < n.toNat, (p / 4096).toNat + i ∈ given
  | _ => True

/-- Runs of careful calls after `pmm_init`, with all blocks given so far. -/
inductive PmmCarefulRun (m : PmmStart) : Pmm → List ℕ → Prop
  | init : PmmCarefulRun m m.state []
  | step {s : Pmm} {given : List ℕ} (c : PmmCall) :
      PmmCarefulRun m s given → c.Careful m given →
        PmmCarefulRun m (c.next s) (c.returned s ++ given)

/-- The reserved blocks are used, and no reserved block was given. -/
structure PmmGuarded (m : PmmStart) (s : Pmm) (given : List ℕ) : Prop where
  bound : s.bound = m.blocks
  reserved : ∀ b < m.blocks, m.Reserved b → s.isUsed b = true
  given : ∀ b ∈ given, b < m.blocks ∧ ¬ m.Reserved b

/-- Block 0 is reserved. -/
theorem reserved_zero (m : PmmStart) : m.Reserved 0 := Or.inl ⟨by decide, by decide, by decide⟩

/-- Block 0 is never free, so no search wraps round. -/
theorem PmmGuarded.not_wrapsRound {s : Pmm} {given : List ℕ} (h : PmmGuarded m s given)
    (c : PmmCall) : ¬ c.WrapsRound s := by
  cases c with
  | allocBlocks n =>
      rintro ⟨-, -, k, -, hkn, -, -, hlow⟩
      obtain ⟨hlt, hfree⟩ := Pmm.isFree_iff.mp (hlow 0 (by omega))
      rw [h.reserved 0 (by rw [← h.bound]; exact hlt) (reserved_zero m)] at hfree
      exact Bool.noConfusion hfree
  | _ => exact id

/-- `pmm_free_contiguous` on given blocks leaves the other blocks as they are. -/
theorem isUsed_freeContiguous {s : Pmm} {given : List ℕ} (h : PmmGuarded m s given)
    {p n : UInt32} (hgiven : ∀ i < n.toNat, (p / 4096).toNat + i ∈ given) {b : ℕ}
    (hb : b ∉ given) : (pmmFreeContiguous s p n).isUsed b = s.isUsed b := by
  rw [pmmFreeContiguous_eq]
  split_ifs with hfree
  · have hpos := toNat_pos_of_ne_zero hfree.2.1
    have hlast := (h.given _ (hgiven (n.toNat - 1) (by omega))).1
    rw [markRunUnused_of_le (by rw [h.bound]; omega)]
    have hout : ¬ ((p / 4096).toNat ≤ b ∧ b < (p / 4096).toNat + n.toNat) := fun hin => hb (by
      have := hgiven (b - (p / 4096).toNat) (by omega)
      rwa [Nat.add_sub_cancel' hin.1] at this)
    rw [Pmm.isUsed, Bitmap.test_clearRun, Nat.add_zero, decide_eq_false hout, Bool.not_false,
      Bool.true_and, ← Pmm.isUsed]
  · rfl

/-- A careful call keeps the reserved blocks in use. -/
theorem PmmGuarded.isUsed_next {s : Pmm} {given : List ℕ} (h : PmmGuarded m s given)
    {c : PmmCall} (hc : c.Careful m given) {b : ℕ} (hb : b < m.blocks) (hres : m.Reserved b) :
    (c.next s).isUsed b = true := by
  have hused := h.reserved b hb hres
  have halloc : ∀ n, c.requested = some n → (c.next s).isUsed b = true := by
    intro n hn
    obtain hfail | ⟨start, -, htakes⟩ := run_eq_or_takesRun hn (h.not_wrapsRound c)
    · rw [PmmCall.next, hfail]
      exact hused
    · exact htakes.grows.used b hused
  cases c with
  | markUsedRegion base size =>
      exact (isUsed_pmmMarkUsedRegion (by rw [h.bound]; exact hb) base size).mpr (Or.inr hused)
  | markUnusedRegion base size =>
      have hout : ¬ ((base / 4096).toNat ≤ b ∧ b < (base / 4096).toNat + regionBlocks size ∧
          b < s.bound) := fun hin => hc b ⟨hin.1, hin.2.1⟩ hres
      rw [PmmCall.next, PmmCall.run, pmmMarkUnusedRegion, isUsed_markRegion, if_neg hout]
      exact hused
  | allocBlock => exact halloc 1 rfl
  | allocBlocks n => exact halloc n rfl
  | allocContiguous n => exact halloc n rfl
  | allocBlocksInRange n lo hi => exact halloc n rfl
  | freeBlock p => exact hused
  | freeBlocks p n =>
      rw [PmmCall.next, PmmCall.run, pmmFreeBlocks_eq]
      exact hused
  | freeContiguous p n =>
      rw [PmmCall.next, PmmCall.run, isUsed_freeContiguous h hc fun hin => (h.given b hin).2 hres]
      exact hused

/-- A call returns blocks that exist and are not reserved. -/
theorem PmmGuarded.returned {s : Pmm} {given : List ℕ} (h : PmmGuarded m s given)
    (c : PmmCall) {b : ℕ} (hb : b ∈ c.returned s) : b < m.blocks ∧ ¬ m.Reserved b := by
  rw [PmmCall.returned] at hb
  cases hn : c.requested with
  | none =>
      rw [hn] at hb
      exact absurd hb List.not_mem_nil
  | some n =>
      rw [hn] at hb
      change b ∈ if (c.run s).1 = 0 then [] else _ at hb
      split_ifs at hb with h0
      · exact absurd hb List.not_mem_nil
      obtain hfail | ⟨start, haddr, htakes⟩ := run_eq_or_takesRun hn (h.not_wrapsRound c)
      · exact absurd (congrArg Prod.fst hfail) h0
      rw [List.mem_range'_1] at hb
      have hpos : 0 < n.toNat := by omega
      have hlast := Pmm.le_bound_of_isRun hpos htakes.run
      have hlt : start < 2 ^ 20 := by
        have := m.blocks_lt
        rw [h.bound] at hlast
        omega
      rw [haddr, blockAddr_div hlt] at hb
      have hfree := Pmm.isUsed_eq_false_of_isFree (htakes.run (b - start) (by omega))
      rw [Nat.add_sub_cancel' hb.1] at hfree
      refine ⟨by rw [← h.bound]; omega, fun hres => ?_⟩
      rw [h.reserved b (by rw [← h.bound]; omega) hres] at hfree
      exact Bool.noConfusion hfree

/-- What one careful call keeps. -/
theorem PmmGuarded.step {s : Pmm} {given : List ℕ} (h : PmmGuarded m s given) {c : PmmCall}
    (hc : c.Careful m given) : PmmGuarded m (c.next s) (c.returned s ++ given) where
  bound := (bound_next s c).trans h.bound
  reserved := fun _ hb hres => h.isUsed_next hc hb hres
  given := fun b hb => (List.mem_append.mp hb).elim (h.returned c) (h.given b)

/-- What careful runs keep, once `pmm_init` has marked the reserved blocks. -/
theorem PmmCarefulRun.guarded {s : Pmm} {given : List ℕ} (h : PmmCarefulRun m s given)
    (hinit : ∀ b < m.blocks, m.Reserved b → m.state.isUsed b = true) :
    PmmGuarded m s given := by
  induction h with
  | init => exact ⟨rfl, hinit, fun b hb => absurd hb List.not_mem_nil⟩
  | step c _ hc ih => exact ih.step hc

/-! ### The exact condition -/

/-- `pmm_init` leaves every reserved block in use. -/
def PmmStart.ReservedUsed (m : PmmStart) : Prop :=
  ∀ b < m.blocks, m.Reserved b → m.state.isUsed b = true

/-- No careful run is given a block that is reserved or ends past the end of memory. -/
def PmmStart.GivenSafe (m : PmmStart) : Prop :=
  ∀ s given, PmmCarefulRun m s given →
    ∀ b ∈ given, ¬ m.Reserved b ∧ (b + 1) * 4096 ≤ m.memSize.toNat

theorem reserved_used_iff (hsize : m.memSize ≠ 0) : m.ReservedUsed ↔ m.AreasCovered := by
  rw [← reserved_marked_iff hsize]
  exact forall₂_congr fun b hb => imp_congr_right fun _ => m.isUsed_state hsize hb

/-- A free block can be had: `pmm_alloc_blocks_in_range` finds it in its own range. -/
theorem mem_returned_of_isFree {s : Pmm} {b : ℕ} (hpos : 0 < b)
    (hlt : b + 1 < 2 ^ 20) (hfree : s.isFree b = true) :
    b ∈ (PmmCall.allocBlocksInRange 1 (blockAddr b) (blockAddr (b + 1))).returned s := by
  have hlo : (((blockAddr b + 4095) &&& 0xFFFFF000) / 4096).toNat = b := by
    change (pageBase (blockAddr b + 4095) / 4096).toNat = b
    rw [UInt32.toNat_div, toNat_pageBase, UInt32.toNat_add, toNat_blockAddr (by omega)]
    simp only [UInt32.reduceToNat]
    omega
  have hhi : ((blockAddr (b + 1) &&& 0xFFFFF000) / 4096).toNat = b + 1 := by
    change (pageBase (blockAddr (b + 1)) / 4096).toNat = b + 1
    rw [UInt32.toNat_div, toNat_pageBase, toNat_blockAddr hlt]
    simp only [UInt32.reduceToNat]
    omega
  have hrun : IsRun s.isFree (1 : UInt32).toNat b := fun i hi => by
    obtain rfl : i = 0 := Nat.lt_one_iff.mp hi
    exact hfree
  obtain ⟨hfull, -⟩ | ⟨start, -, haddr, -, hge, hle, -⟩ :=
    pmmAllocBlocksInRange_spec s 1 (blockAddr b) (blockAddr (b + 1))
  · obtain h | h | h := hfull
    · exact absurd h (by decide)
    · rw [UInt32.le_iff_toNat_le, toNat_blockAddr hlt, toNat_blockAddr (by omega)] at h
      omega
    · exact absurd hrun (h b hlo.le hhi.ge)
  · rw [hlo] at hge
    rw [hhi, UInt32.toNat_one] at hle
    obtain rfl : start = b := by omega
    have hne : blockAddr start ≠ 0 := blockAddr_ne_zero hpos (by omega)
    change start ∈ if (pmmAllocBlocksInRange s 1 _ _).1 = 0 then [] else _
    rw [haddr, if_neg hne]
    change start ∈ List.range' ((pmmAllocBlocksInRange s 1 _ _).1 / 4096).toNat 1
    rw [haddr, blockAddr_div (by omega)]
    exact List.mem_range'_1.mpr ⟨le_rfl, Nat.lt_succ_self start⟩

/-- A careful run can be given any block that is free in it. -/
theorem PmmStart.GivenSafe.not_reserved (h : m.GivenSafe) {s : Pmm} {given : List ℕ}
    (hs : PmmCarefulRun m s given) {b : ℕ} (hpos : 0 < b) (hlt : b + 1 < 2 ^ 20)
    (hfree : s.isFree b = true) :
    ¬ m.Reserved b ∧ (b + 1) * 4096 ≤ m.memSize.toNat :=
  h _ _ (hs.step (.allocBlocksInRange 1 (blockAddr b) (blockAddr (b + 1))) trivial) b
    (List.mem_append_left _ (mem_returned_of_isFree hpos hlt hfree))

/-- The one block of a region call on a block address. -/
theorem inRegion_blockAddr {b c : ℕ} (hb : b < 2 ^ 20) :
    InRegion (blockAddr b) 4096 c ↔ c = b := by
  have hone : regionBlocks 4096 = 1 := rfl
  rw [InRegion, blockAddr_div hb, hone]
  omega

/-- Releasing a block that exists leaves it free. -/
theorem isFree_pmmMarkUnusedRegion {s : Pmm} {b : ℕ} (hb : b < s.bound) (hlt : b < 2 ^ 20) :
    (pmmMarkUnusedRegion s (blockAddr b) 4096).isFree b = true := by
  have hin := (inRegion_blockAddr hlt).mpr (Eq.refl b)
  refine Pmm.isFree_iff.mpr ⟨?_, ?_⟩
  · rw [pmmMarkUnusedRegion, bound_markRegion]
    exact hb
  · rw [pmmMarkUnusedRegion, isUsed_markRegion, if_pos ⟨hin.1, hin.2, hb⟩]

/-- The blocks just cover the memory. -/
theorem PmmStart.blocks_mul (m : PmmStart) (hsize : m.memSize ≠ 0) (hmap : m.bitmap ≠ 0)
    (hword : m.memSize.toNat + 4095 < 2 ^ 32) :
    m.blocks = (m.memSize.toNat + 4095) / 4096 := by
  rw [m.blocks_eq hsize hmap, UInt32.toNat_div, UInt32.toNat_add]
  exact congrArg (· / 4096) (Nat.mod_eq_of_lt hword)

/-- **In every careful run.** No reserved or missing memory is given if and only if the areas
are covered and the last block is whole or reserved. -/
theorem given_safe_iff (hsize : m.memSize ≠ 0) (hword : m.memSize.toNat + 4095 < 2 ^ 32) :
    m.GivenSafe ↔ m.AreasCovered ∧ m.LastBlockWhole := by
  constructor
  · intro h
    have hblocks := m.blocks_lt
    refine ⟨(reserved_used_iff hsize).mp fun b hb hres => ?_, fun hpos hcut => ?_⟩
    · by_contra hnot
      have hfree : m.state.isFree b = true :=
        Pmm.isFree_iff.mpr ⟨hb, Bool.eq_false_of_not_eq_true hnot⟩
      have hb0 : 0 < b := Nat.pos_of_ne_zero fun h0 => hnot ((m.isUsed_state hsize hb).mpr
        (h0 ▸ Or.inl ⟨by decide, by decide⟩))
      exact (h.not_reserved .init hb0 (by omega) hfree).1 hres
    · by_contra hnot
      have hmap : m.bitmap ≠ 0 := fun h0 => by
        rw [m.blocks_null h0] at hpos
        omega
      have hmul := m.blocks_mul hsize hmap hword
      have hlast : m.blocks - 1 < m.blocks := Nat.sub_lt hpos Nat.one_pos
      have hpos' : 0 < m.blocks - 1 := Nat.pos_of_ne_zero fun h0 => hnot (h0 ▸ reserved_zero m)
      -- release the last block, then ask for it
      have hrun := PmmCarefulRun.init.step (m := m)
        (.markUnusedRegion (blockAddr (m.blocks - 1)) 4096) fun b hin => by
          rwa [(inRegion_blockAddr (by omega)).mp hin]
      have hend := (h.not_reserved hrun hpos' (by omega)
        (isFree_pmmMarkUnusedRegion hlast (by omega))).2
      omega
  · rintro ⟨hareas, hlast⟩ s given hs b hb
    obtain ⟨hlt, hres⟩ := (hs.guarded ((reserved_used_iff hsize).mpr hareas)).given b hb
    refine ⟨hres, ?_⟩
    have hmap : m.bitmap ≠ 0 := fun h0 => by
      rw [m.blocks_null h0] at hlt
      omega
    have hmul := m.blocks_mul hsize hmap hword
    by_contra hover
    have hb' : b = m.blocks - 1 := by omega
    exact hres (hb' ▸ hlast (by omega) (by omega))

/-- **Reserved memory.** `pmm_init` marks every reserved block exactly when the areas are
covered, and careful runs are never given reserved or missing memory exactly when, besides, the
last block is whole or reserved. -/
theorem pmm_reserved_never_handed_out (m : PmmStart) (hsize : m.memSize ≠ 0)
    (hword : m.memSize.toNat + 4095 < 2 ^ 32) :
    (m.ReservedUsed ↔ m.AreasCovered) ∧ (m.GivenSafe ↔ m.AreasCovered ∧ m.LastBlockWhole) :=
  ⟨reserved_used_iff hsize, given_safe_iff hsize hword⟩

/-- 2 MiB of memory with the bitmap inside a kernel image that begins on a block boundary. -/
def alignedStart : PmmStart where
  kernel := ⟨0x100000, 0x124000⟩
  memSize := 0x200000
  bitmap := 0x102000
  bytes := fun _ => 0

theorem blocks_alignedStart : alignedStart.blocks = 512 :=
  alignedStart.blocks_eq (by decide) (by decide)

/-- The last block of the kernel image is marked, and so is that of the bitmap. -/
theorem areasCovered_alignedStart : alignedStart.AreasCovered where
  kernel := fun _ _ _ => by decide
  wholeSpace := fun hlarge => absurd hlarge (by decide)
  bitmap := by
    rw [blocks_alignedStart]
    decide

/-- There all areas are covered, so no careful run is given reserved or missing memory. -/
theorem pmm_reserved_never_handed_out_aligned : alignedStart.GivenSafe :=
  (pmm_reserved_never_handed_out alignedStart (by decide) (by decide)).2.mpr
    ⟨areasCovered_alignedStart, fun _ h => absurd rfl h⟩

/-- The same machine with the bitmap in the last bytes of block 320, past the kernel. -/
def unalignedStart : PmmStart := { alignedStart with bitmap := 0x140FF0 }

/-- The bitmap's 64 bytes end in block 321, which `pmm_init` leaves free. -/
theorem pmm_reserved_handed_out :
    ¬ ∀ m : PmmStart, m.memSize ≠ 0 → m.memSize.toNat + 4095 < 2 ^ 32 →
      m.ReservedUsed ∧ m.GivenSafe := by
  intro h
  have hblocks : unalignedStart.blocks = 512 := unalignedStart.blocks_eq (by decide) (by decide)
  have hexists : 321 < unalignedStart.blocks := by
    rw [hblocks]
    decide
  have hreserved : unalignedStart.Reserved 321 := by
    rw [PmmStart.Reserved, hblocks]
    decide
  have hused := (h unalignedStart (by decide) (by decide)).1 321 hexists hreserved
  have hmarked := (unalignedStart.isUsed_state (by decide) hexists).mp hused
  exact absurd hmarked (by decide)

end HalOS
