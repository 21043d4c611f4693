import HalOS.Mm.VmmBoot

/-!
# Page Tables as a Map

From start-up on, the tables behave as a map from virtual pages to frames: mapping a page
and reading it back gives the frame, unmapping it gives `UINT32_MAX`, and no other page is
affected. There is one exception, which `paging_init` sets up itself: entries 0 and 768 of
the directory name one table, so the first 4 MiB and the first 4 MiB of the kernel window
are one set of translations seen at two places (`Mirrored`).

All this is for a directory that exists. When `paging_init` finds no frame for it,
`page_directory` is null and the tables are whatever lies at address zero.

## Main results

* `PagingReachable.sound`: the tables stay sound over every run.
* `paging_behaves_as_map`: reading after mapping and after unmapping, at every address.
* `paging_is_not_a_plain_map`: the mirrored pages, and a null directory.
-/

namespace HalOS

/-- The states that mapping and unmapping leads to after `paging_init` or `vmm_init`, each
called with any reachable physical memory manager. -/
inductive PagingReachable : Paging → Prop
  | pagingInit (s : Paging) : PmmReachable s.pmm → PagingReachable (pagingInit s)
  | vmmInit (s : Vmm) (kernel : KernelImage) (bytes : ℕ → UInt8) : PmmReachable s.pmm →
      PagingReachable (vmmInit s kernel bytes).paging
  | map {s : Paging} (p v f : UInt32) : f < 0x1000 → PagingReachable s →
      PagingReachable (pagingMapPage s p v f).2
  | unmap {s : Paging} (v : UInt32) : PagingReachable s → PagingReachable (pagingUnmapPage s v)

/-- The pages of `a` and `v` lie at one place of the first 4 MiB and of the first 4 MiB of
the kernel window, and entries 0 and 768 of the directory name one table. -/
def Mirrored (s : Paging) (a v : UInt32) : Prop :=
  Twin (pdIndex a) (pdIndex v) ∧ ptIndex a = ptIndex v ∧ isPresent (s.pde 0) = true ∧
    isPresent (s.pde 768) = true ∧ pageBase (s.pde 0) = pageBase (s.pde 768)

instance (s : Paging) (a v : UInt32) : Decidable (Mirrored s a v) := by
  unfold Mirrored Twin
  infer_instance

theorem PagingReachable.bound_lt {s : Paging} (h : PagingReachable s) :
    s.pmm.bound < 2 ^ 20 := by
  induction h with
  | pagingInit s hp =>
      rw [(grows_pagingInit s).bound]
      exact hp.bound_lt
  | vmmInit s kernel bytes hp =>
      have hinit := grows_pagingInit s.paging
      have hb : (HalOS.pagingInit s.paging).pmm.bound < 2 ^ 20 := by
        rw [hinit.bound]
        exact hp.bound_lt
      rw [((builds_vmmInit s kernel bytes).grows hb).bound]
      exact hb
  | map p v f _ _ ih =>
      rw [(Paging.grows_map ih).bound]
      exact ih
  | unmap v _ ih =>
      rw [Paging.pmm_unmap]
      exact ih

/-- **The tables stay sound.** -/
theorem PagingReachable.sound {s : Paging} (h : PagingReachable s) (hdir : s.pageDirectory ≠ 0) :
    s.Sound := by
  induction h with
  | pagingInit s hp => exact sound_pagingInit hp.bound_lt hdir
  | vmmInit s kernel bytes hp =>
      have hb : (HalOS.pagingInit s.paging).pmm.bound < 2 ^ 20 := by
        rw [(grows_pagingInit s.paging).bound]
        exact hp.bound_lt
      have hbuild := builds_vmmInit s kernel bytes
      rw [hbuild.pageDirectory hb] at hdir
      exact hbuild.sound (sound_pagingInit hp.bound_lt hdir)
  | map p v f _ hr ih =>
      rw [Paging.pageDirectory_map hr.bound_lt] at hdir
      exact (ih hdir).map
  | unmap v _ ih =>
      rw [Paging.pageDirectory_unmap] at hdir
      exact (ih hdir).unmap

/-- Where the tables keep `a`'s page: in `v`'s slot exactly when the two pages are the same
or mirrored. -/
theorem slot_iff_mirrored {s : Paging} (h : s.Sound) (a v : UInt32) :
    (pageNum a = pageNum v ∨ s.SameSlot (pageNum a) (pageNum v)) ↔
      pageNum a = pageNum v ∨ Mirrored s a v := by
  constructor
  · rintro (heq | hslot)
    · exact Or.inl heq
    · rcases h.eq_or_twin (pageNum_lt a) (pageNum_lt v) hslot with heq | htwin
      · exact Or.inl heq
      · obtain ⟨ha, hv, hbase, hmod⟩ := hslot
        refine Or.inr ?_
        unfold Mirrored
        rw [pdIndex_eq, pdIndex_eq, ptIndex_eq, ptIndex_eq]
        refine ⟨htwin, hmod, ?_⟩
        rcases htwin with ⟨h0, h768⟩ | ⟨h768, h0⟩
        · rw [h0] at ha hbase
          rw [h768] at hv hbase
          exact ⟨ha, hv, hbase⟩
        · rw [h768] at ha hbase
          rw [h0] at hv hbase
          exact ⟨hv, ha, hbase.symm⟩
  · rintro (heq | ⟨htwin, hmod, h0, h768, hbase⟩)
    · exact Or.inl heq
    · rw [pdIndex_eq, pdIndex_eq] at htwin
      rw [ptIndex_eq, ptIndex_eq] at hmod
      refine Or.inr ?_
      unfold Paging.SameSlot
      rcases htwin with ⟨ha, hv⟩ | ⟨ha, hv⟩
      · rw [ha, hv]
        exact ⟨h0, h768, hbase, hmod⟩
      · rw [ha, hv]
        exact ⟨h768, h0, hbase.symm, hmod⟩

/-- Reading after a successful mapping. -/
theorem virtToPhys_map {s : Paging} (h : s.Sound) {p v f : UInt32} (hf : f < 0x1000)
    (hok : (pagingMapPage s p v f).1 = true) (a : UInt32) :
    virtToPhys (pagingMapPage s p v f).2 a =
      if pageNum a = pageNum v ∨ Mirrored s a v then pageBase p ||| (a &&& 0xFFF)
      else virtToPhys s a := by
  rw [virtToPhys_eq, Paging.entry_map h (pageNum_lt a), virtToPhys_eq s a]
  simp only [hok, true_and, slot_iff_mirrored h]
  split_ifs
  · simp only [pageBase_leaf p hf]
  · rfl

/-- Reading after unmapping. -/
theorem virtToPhys_unmap {s : Paging} (h : s.Sound) (v a : UInt32) :
    virtToPhys (pagingUnmapPage s v) a =
      if pageNum a = pageNum v ∨ Mirrored s a v then 0xFFFFFFFF else virtToPhys s a := by
  rw [virtToPhys_eq, Paging.entry_unmap h (pageNum_lt a), virtToPhys_eq s a]
  simp only [slot_iff_mirrored h]
  split_ifs <;> rfl

/-- **Page tables behave as a map.** At every reachable state whose directory exists, and
for every page: after a successful mapping its addresses translate to the frame, after
unmapping they do not translate, and in both cases no address of another page is affected,
mirrored pages apart, which translate as `v`'s page does. -/
theorem paging_behaves_as_map (s : Paging) (h : PagingReachable s) (hdir : s.pageDirectory ≠ 0)
    (v : UInt32) :
    (∀ p f, f < 0x1000 → (pagingMapPage s p v f).1 = true → ∀ a,
      virtToPhys (pagingMapPage s p v f).2 a =
        if pageNum a = pageNum v ∨ Mirrored s a v then pageBase p ||| (a &&& 0xFFF)
        else virtToPhys s a) ∧
    ∀ a, virtToPhys (pagingUnmapPage s v) a =
      if pageNum a = pageNum v ∨ Mirrored s a v then 0xFFFFFFFF else virtToPhys s a :=
  ⟨fun _ _ hf hok a => virtToPhys_map (h.sound hdir) hf hok a,
    fun a => virtToPhys_unmap (h.sound hdir) v a⟩

/-- `paging_init` on the small machine with 1216 KiB of memory. -/
def smallTables : Paging :=
  pagingInit
    { pmm := smallPmm 0x130000
      mem := fun _ => 0
      pageDirectory := 0
      tables := [] }

theorem reachable_smallTables : PagingReachable smallTables := by
  have hpmm := PmmReachable.init ⟨0x100000, 0x124000⟩ 0x130000 0x102000 fun _ => 0
  rw [pmmInit_smallBoot (by decide)] at hpmm
  exact .pagingInit _ hpmm

/-- `paging_init` with a single block of memory, in which word 1 happens to read as a present
entry that names address zero. -/
def noTables : Paging :=
  pagingInit
    { pmm := pmmInit ⟨0x100000, 0x124000⟩ 0x1000 0x102000 fun _ => 0
      mem := fun w => if w = 1 then 3 else 0
      pageDirectory := 0
      tables := [] }

theorem reachable_noTables : PagingReachable noTables :=
  .pagingInit _ (PmmReachable.init ⟨0x100000, 0x124000⟩ 0x1000 0x102000 fun _ => 0)

/-- The first page of the window of `smallTables`: mapping a device frame there and unmapping
it. -/
theorem paging_behaves_as_map_window :
    (∀ a, virtToPhys (pagingMapPage smallTables 0xFD000000 0xC0000000 3).2 a =
      if pageNum a = pageNum 0xC0000000 ∨ Mirrored smallTables a 0xC0000000
      then pageBase 0xFD000000 ||| (a &&& 0xFFF)
      else virtToPhys smallTables a) ∧
    ∀ a, virtToPhys (pagingUnmapPage smallTables 0xC0000000) a =
      if pageNum a = pageNum 0xC0000000 ∨ Mirrored smallTables a 0xC0000000
      then 0xFFFFFFFF else virtToPhys smallTables a :=
  ⟨(paging_behaves_as_map _ reachable_smallTables (by decide +kernel) 0xC0000000).1
      0xFD000000 3 (by decide) (by decide +kernel),
    (paging_behaves_as_map _ reachable_smallTables (by decide +kernel) 0xC0000000).2⟩

/-- There mapping `0xC0000000` changes what address zero translates to. And with no frame
for the directory, entry 1 of the null directory may name the directory itself, so that a
page mapped through it is lost. -/
theorem paging_is_not_a_plain_map :
    (¬ ∀ s, PagingReachable s → s.pageDirectory ≠ 0 → ∀ p v f, f < 0x1000 →
      (pagingMapPage s p v f).1 = true → ∀ a, pageNum a ≠ pageNum v →
        virtToPhys (pagingMapPage s p v f).2 a = virtToPhys s a) ∧
    ¬ ∀ s, PagingReachable s → ∀ p v f, f < 0x1000 → (pagingMapPage s p v f).1 = true →
      virtToPhys (pagingMapPage s p v f).2 v = pageBase p ||| (v &&& 0xFFF) := by
  constructor
  · intro h
    have hread := h _ reachable_smallTables (by decide +kernel) 0xFD000000 0xC0000000 3
      (by decide) (by decide +kernel) 0 (by decide)
    exact absurd hread (by decide +kernel)
  · intro h
    have hread := h _ reachable_noTables 0x5000 0x401000 3 (by decide) (by decide +kernel)
    exact absurd hread (by decide +kernel)

end HalOS
