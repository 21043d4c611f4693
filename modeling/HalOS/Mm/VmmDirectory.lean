import HalOS.Mm.VmmRoundTrip

/-!
# The Directory over a Run

An entry of the page directory is written once. `paging_map_page` fills absent entries, with a
block and the bits for present and writable; nothing changes an entry that is present or takes
it back. So the table that `paging_init` put into entries 0 and 768 stays there, and no entry ever
has the bit `PAGE_USER`, whatever the flags of the mapping that made its table.

As in `HalOS.Mm.VmmSound` this is for runs that give no page table back.

## Main results

* `directoryGrows_next`: what a call does to the directory.
* `VmmRun.twin`: entries 0 and 768 name one table for good.
* `VmmRun.kernelOnly`: no entry is for user pages.
-/

namespace HalOS

open Paging (SameDirectory pdIndex_lt)

namespace Paging

/-- The directory of `t` is that of `s` with more tables. -/
structure DirectoryGrows (s t : Paging) : Prop where
  keeps : ∀ k < 1024, isPresent (s.pde k) = true → t.pde k = s.pde k
  fresh : ∀ k < 1024, isPresent (s.pde k) = false → isPresent (t.pde k) = true →
    ∃ b < 2 ^ 20, t.pde k = blockAddr b ||| (1 ||| 2)

namespace DirectoryGrows

variable {s t u : Paging}

theorem trans (h : DirectoryGrows s t) (h' : DirectoryGrows t u) : DirectoryGrows s u where
  keeps := fun k hk hp => by
    have heq := h.keeps k hk hp
    rw [h'.keeps k hk (by rw [heq]; exact hp), heq]
  fresh := fun k hk hd hp => by
    cases hmid : isPresent (t.pde k) with
    | false => exact h'.fresh k hk hmid hp
    | true =>
        rw [h'.keeps k hk hmid]
        exact h.fresh k hk hd hmid

end DirectoryGrows

theorem SameDirectory.grows {s t : Paging} (h : SameDirectory s t) : DirectoryGrows s t where
  keeps := fun k hk _ => h.pde k hk
  fresh := fun k hk hd hp => by
    rw [h.pde k hk, hd] at hp
    exact Bool.noConfusion hp

theorem DirectoryGrows.refl (s : Paging) : DirectoryGrows s s := (SameDirectory.refl s).grows

theorem Sound.directoryGrows_map {s : Paging} (h : s.Sound) (p v f : UInt32) :
    DirectoryGrows s (pagingMapPage s p v f).2 := by
  refine ⟨fun k hk hp => h.pde_map hk hp, fun k hk hd hp => ?_⟩
  rcases pagingMapPage_cases h.bound_lt p v f with
    ⟨hv, heq⟩ | ⟨-, -, heq⟩ | ⟨-, -, heq⟩ | ⟨b, hv, -, -, hfree, heq⟩
  · rw [heq, pde_setPte h (pdIndex_lt v) hv (ptIndex_lt v) hk, hd] at hp
    exact Bool.noConfusion hp
  · rw [heq, hd] at hp
    exact Bool.noConfusion hp
  · rw [heq] at hp
    exact Bool.noConfusion (hd.symm.trans hp)
  · have hb : b < 2 ^ 20 := lt_trans (Pmm.isFree_iff.mp hfree).1 h.bound_lt
    have hpde : (pagingMapPage s p v f).2.pde k =
        if k = pdIndex v then blockAddr b ||| (1 ||| 2) else s.pde k := by
      rw [heq, pde_setPte (h.addTable hfree) (pdIndex_lt v)
        (isPresent_pde_addTable h (pdIndex_lt v) hfree) (ptIndex_lt v) hk, pde_addTable h hfree hk]
    rw [hpde] at hp ⊢
    split_ifs at hp ⊢
    · exact ⟨b, hb, rfl⟩
    · exact Bool.noConfusion (hd.symm.trans hp)

/-- All entries that are present name tables. -/
theorem Sound.hasTable_of_present {s : Paging} (h : s.Sound) (v : UInt32)
    (hp : isPresent (s.pde (pdIndex v)) = true) : s.HasTable (pdIndex v) :=
  h.hasTable (pdIndex_lt v) hp

end Paging

open Paging (DirectoryGrows)

/-! ### Calls -/

theorem Builds.directoryGrows {s t : Paging} (h : Builds s t) (hs : s.Sound) :
    DirectoryGrows s t := by
  induction h with
  | refl => exact .refl s
  | map p v f hb ih => exact ih.trans ((hb.sound hs).directoryGrows_map p v f)
  | grow _ _ ih => exact ⟨ih.keeps, ih.fresh⟩

/-- Page-table work that releases nothing. -/
theorem PagingRun.directoryGrows {s t : Paging} (h : PagingRun (fun _ _ => False) s t)
    (hs : s.Sound) : DirectoryGrows s t := by
  induction h with
  | refl => exact .refl s
  | build hr hb ih =>
      exact ih.trans (hb.directoryGrows ((hr.mono fun _ _ h => h.elim).sound hs))
  | unmap v hr ih =>
      have ht := (hr.mono fun _ _ h => h.elim).sound hs
      exact ih.trans (SameDirectory.unmap ht.aligned (ht.hasTable_of_present v)).grows
  | release a hno _ _ => exact hno.elim

/-- The loop of `vmm_free_contiguous` changes no entry of the directory. -/
theorem sameDirectory_freeContiguousLoop {phys virt : UInt32} {start n i : ℕ} {s : Vmm}
    (ha : s.paging.Aligned)
    (h : ∀ k < 1024, isPresent (s.paging.pde k) = true → s.paging.HasTable k) :
    SameDirectory s.paging (freeContiguousLoop phys virt start n i s).paging := by
  induction n generalizing i s with
  | zero => exact .refl _
  | succ n ih =>
      have hdir : SameDirectory s.paging (freeContiguousStep phys virt start i s).paging := by
        have := SameDirectory.unmap ha (h (pdIndex (virt + UInt32.ofNat i * 4096)) (pdIndex_lt _))
        exact ⟨this.pageDirectory, this.pde⟩
      rw [freeContiguousLoop_succ]
      refine hdir.trans (ih (hdir.aligned ha) fun k hk hp => hdir.hasTable hk (h k hk ?_))
      rwa [hdir.pde k hk] at hp

theorem directoryGrows_vmmFreeContiguous {s : Vmm} (hs : s.paging.Sound) (virt n : UInt32) :
    DirectoryGrows s.paging (vmmFreeContiguous s virt n).paging := by
  rw [vmmFreeContiguous_eq]
  split_ifs
  · exact .refl _
  · exact (sameDirectory_freeContiguousLoop hs.aligned fun k hk hp => hs.hasTable hk hp).grows

theorem directoryGrows_vmmAllocContiguous {s : Vmm} (hs : s.paging.Sound) (n : UInt32) :
    DirectoryGrows s.paging (vmmAllocContiguous s n).2.paging := by
  rcases vmmAllocContiguous_cases hs.bound_lt n with ⟨-, heq⟩ | ⟨start, b, -, -, -, hcase⟩
  · rw [heq]
    exact .refl _
  have hmap := builds_allocContiguousMap s n.toNat start b
  rcases hcase with ⟨-, heq⟩ | ⟨-, -, heq⟩ | ⟨i, -, -, heq⟩
  · rw [heq]
    exact (Builds.withPmm (grows_markRunUsed _ _ _)).directoryGrows hs
  · rw [heq]
    exact hmap.directoryGrows hs
  · rw [heq]
    refine (hmap.directoryGrows hs).trans ?_
    exact directoryGrows_vmmFreeContiguous (s := (markPages s start n.toNat true).withPaging
      (allocContiguousMap s n.toNat start b).2) (hmap.sound hs) _ _

theorem directoryGrows_dmaAlloc {s : Vmm} (hs : s.paging.Sound) (hp : s.bound < 2 ^ 20)
    (size : UInt32) : DirectoryGrows s.paging (dmaAlloc s size).2.paging := by
  rcases dmaAlloc_cases s size with ⟨-, heq⟩ | ⟨b, pmm, -, ⟨-, hhi⟩, -, htakes, -, heq⟩
  · rw [heq]
    exact .refl _
  · have hs' : (s.withPmm pmm).paging.Sound := hs.grow htakes.grows
    have hgrow : DirectoryGrows s.paging (s.withPmm pmm).paging :=
      (Builds.withPmm htakes.grows).directoryGrows hs
    have hsound : (vmmAllocContiguous (s.withPmm pmm) (dmaPages size)).2.paging.Sound :=
      sound_next (c := .allocContiguous (dmaPages size)) hs' hp
        (show (dmaPages size).toNat ≤ 0x40000 by omega)
    rw [heq]
    exact hgrow.trans ((directoryGrows_vmmAllocContiguous hs' _).trans
      (builds_mapEach.directoryGrows hsound))

/-- **A call adds tables to the directory** and does nothing else to it. -/
theorem directoryGrows_next {s : Vmm} (hs : s.paging.Sound) (hp : s.bound < 2 ^ 20) (c : VmmCall) :
    DirectoryGrows s.paging (c.next s).paging := by
  cases c with
  | allocPage => exact (builds_vmmAllocPage hs.bound_lt).directoryGrows hs
  | freePage a => exact (pagingRun_vmmFreePage a).directoryGrows hs
  | allocContiguous n => exact directoryGrows_vmmAllocContiguous hs n
  | freeContiguous a n => exact directoryGrows_vmmFreeContiguous hs a n
  | mapMmio p size f => exact (builds_vmmMapMmio s p size f).directoryGrows hs
  | dmaAlloc size => exact directoryGrows_dmaAlloc hs hp size
  | dmaFree a size =>
      show DirectoryGrows s.paging (dmaFree s a size).paging
      rw [dmaFree]
      simp only
      split_ifs
      · exact .refl _
      · exact .refl _
      · exact .refl _
      · exact directoryGrows_vmmFreeContiguous hs _ _
  | liballocAlloc n =>
      show DirectoryGrows s.paging (liballocAlloc s n).2.paging
      rw [liballocAlloc]
      split_ifs
      · exact .refl _
      · exact (pagingRun_liballocAllocLoop _ _ _ hs.bound_lt).1.directoryGrows hs
  | liballocFree p n =>
      show DirectoryGrows s.paging (liballocFree s p n).paging
      rw [liballocFree]
      split_ifs
      · exact .refl _
      · exact (pagingRun_freePages _ _ _).directoryGrows hs

/-! ### What start-up left -/

/-- `paging_init` has obtained its directory and its first table, which entries 0 and 768 name. -/
def Boot.TablesReady (boot : Boot) : Prop :=
  boot.kmain.paging.pageDirectory ≠ 0 ∧ boot.kmain.paging.SameSlot 0 0xC0000

/-- Pages that share a slot go on to share it. -/
theorem Paging.DirectoryGrows.sameSlot {s t : Paging} (h : DirectoryGrows s t) {n m : ℕ}
    (hn : n < 2 ^ 20) (hm : m < 2 ^ 20) (hslot : s.SameSlot n m) : t.SameSlot n m := by
  obtain ⟨hpn, hpm, hbase, hmod⟩ := hslot
  rw [Paging.SameSlot, h.keeps _ (by omega) hpn, h.keeps _ (by omega) hpm]
  exact ⟨hpn, hpm, hbase, hmod⟩

/-- **Entries 0 and 768 name one table** in every run. -/
theorem VmmRun.twin {boot : Boot} {s : Vmm} (hboot : boot.TablesReady)
    (h : VmmRun (fun s c => c.KeepsTables s) boot s) : s.paging.SameSlot 0 0xC0000 := by
  induction h with
  | boot => exact hboot.2
  | step c hc hrun ih =>
      refine (directoryGrows_next (hrun.sound hboot.1) hrun.reachable.mm.sizes.2 c).sameSlot
        (by decide) (by decide) ih

/-- No page that a present entry of the directory leads to is open to user code. -/
def Paging.KernelOnly (s : Paging) : Prop :=
  ∀ k < 1024, isPresent (s.pde k) = true → s.pde k &&& 4 = 0

/-- The entry that `paging_map_page` makes for a new table. -/
theorem tableEntry_kernelOnly {b : ℕ} (hb : b < 2 ^ 20) :
    (blockAddr b ||| (1 ||| 2)) &&& 4 = 0 := by
  have hmask : (0xFFFFF000 : UInt32) &&& 4 = 0 := by decide
  have hbits : (1 ||| 2 : UInt32) &&& 4 = 0 := by decide
  have hbase : blockAddr b &&& 4 = 0 := by
    rw [← pageBase_blockAddr hb, pageBase, UInt32.and_assoc, hmask, UInt32.and_zero]
  have hsplit : (blockAddr b ||| (1 ||| 2)) &&& 4 = (blockAddr b &&& 4) ||| ((1 ||| 2) &&& 4) :=
    UInt32.toBitVec_inj.mp BitVec.and_or_distrib_right
  rw [hsplit, hbase, hbits, UInt32.or_zero]

theorem Paging.DirectoryGrows.kernelOnly {s t : Paging} (h : DirectoryGrows s t)
    (hs : s.KernelOnly) : t.KernelOnly := by
  intro k hk hp
  cases hd : isPresent (s.pde k) with
  | true =>
      rw [h.keeps k hk hd]
      exact hs k hk hd
  | false =>
      obtain ⟨b, hb, heq⟩ := h.fresh k hk hd hp
      rw [heq]
      exact tableEntry_kernelOnly hb

theorem InitialTables.kernelOnly {s s' : Paging} {d : ℕ} (h : InitialTables s s' d)
    (hs : s.pmm.bound < 2 ^ 20) : s'.KernelOnly := by
  intro k hk hp
  rcases h.tables with hempty | ⟨t, -, hlt, -, hpde, -⟩
  · rw [hempty k hk] at hp
    exact Bool.noConfusion hp
  · rw [h.grows.bound] at hlt
    rw [hpde k hk] at hp ⊢
    split_ifs at hp ⊢
    · exact tableEntry_kernelOnly (lt_trans hlt hs)
    · exact Bool.noConfusion hp

theorem Boot.kernelOnly {boot : Boot} (hdir : boot.kmain.paging.pageDirectory ≠ 0) :
    boot.kmain.paging.KernelOnly := by
  have hs := bound_pmmInit_lt boot.kernel boot.memSize boot.pmmBitmap boot.pmmBytes
  rw [(builds_kmain boot).pageDirectory boot.pagingInit_bound_lt] at hdir
  obtain ⟨d, hinit⟩ := pagingInit_initialTables (s := boot.initial.paging) hs hdir
  exact ((builds_kmain boot).directoryGrows (hinit.sound hs)).kernelOnly (hinit.kernelOnly hs)

/-- **No entry is for user pages** in any run. -/
theorem VmmRun.kernelOnly {boot : Boot} {s : Vmm} (hdir : boot.kmain.paging.pageDirectory ≠ 0)
    (h : VmmRun (fun s c => c.KeepsTables s) boot s) : s.paging.KernelOnly := by
  induction h with
  | boot => exact Boot.kernelOnly hdir
  | step c hc hrun ih =>
      exact (directoryGrows_next (hrun.sound hdir) hrun.reachable.mm.sizes.2 c).kernelOnly ih

end HalOS
