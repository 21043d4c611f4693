import HalOS.Mm.VmmCalls

/-!
# Calls over Tables in Order

What the calls of `HalOS.Mm.VmmCalls` do to translations and to the frames of the page tables
when the tables are in order (`Paging.Sound`). Two window pages share a slot of
the tables only if they are `0x40000` pages apart, so a run of at most that many gets one frame
a page. Only `vmm_free_contiguous` and `dma_free` release blocks; the tables stay in order
as long as these blocks hold no page table.

## Main results

* `Builds.holds`: mapping makes page tables of free blocks only.
* `entry_mapPages`, `entry_mapEach`: the translations a mapped run gets.
* `Paging.Sound.freeContiguousLoop`: releasing a run.
* `VmmRun.sound`: the tables are in order after every run that gives no page table back.
-/

namespace HalOS

/-! ### Slots of window pages -/

/-- Neither of two pages of the window is one of the first 1024 with the other `0x40000` pages
above it. -/
structure Unmirrored (i j : ℕ) : Prop where
  left_lt : i < 2 ^ 20
  right_lt : j < 2 ^ 20
  above : i < 1024 → j ≠ i + 0x40000
  below : j < 1024 → i ≠ j + 0x40000

/-- Two different pages of the window that are not mirrored share no slot. -/
theorem Paging.Sound.slot_ne {s : Paging} (h : s.Sound) {i j : ℕ} (hij : Unmirrored i j)
    (hne : i ≠ j) :
    ¬ (pageNum (pageAddr i) = pageNum (pageAddr j) ∨
      s.SameSlot (pageNum (pageAddr i)) (pageNum (pageAddr j))) := by
  intro hslot
  obtain heq | ⟨hlow, heq⟩ | ⟨hlow, heq⟩ := h.slot_cases hij.left_lt hij.right_lt hslot
  · exact hne heq
  · exact hij.above hlow heq
  · exact hij.below hlow heq

/-- Page addresses are aligned. -/
theorem pageAddr_offset (i : ℕ) : pageAddr i &&& 0xFFF = 0 := by
  apply UInt32.toNat_inj.mp
  have hmask : (0xFFF : UInt32).toNat = 2 ^ 12 - 1 := by decide
  rw [UInt32.toNat_and, hmask, Nat.and_two_pow_sub_one_eq_mod, toNat_pageAddr]
  simp

/-- The address of a mapped page translates to its frame. -/
theorem virtToPhys_pageAddr {s : Paging} {i : ℕ} {e : UInt32}
    (h : s.entry (pageNum (pageAddr i)) = some e) : virtToPhys s (pageAddr i) = pageBase e := by
  simp only [virtToPhys_eq, h, pageAddr_offset, UInt32.or_zero]

/-- A frame is not the value that `virt_to_phys` returns for an unmapped page. -/
theorem pageBase_ne_max (e : UInt32) : pageBase e ≠ 0xFFFFFFFF := by
  intro h
  have := congrArg UInt32.toNat h
  have hmax : (0xFFFFFFFF : UInt32).toNat = 4294967295 := by decide
  rw [toNat_pageBase, hmax] at this
  omega

/-! ### Mapping under sound tables -/

namespace Paging

variable {s : Paging}

/-- Mapping makes a page table of nothing but a free block. -/
theorem Sound.holds_map (h : s.Sound) {p v f q : UInt32} (hq : (pagingMapPage s p v f).2.Holds q) :
    s.Holds q ∨ ∃ b, s.pmm.isFree b = true ∧ q = blockAddr b := by
  obtain ⟨hd, heq⟩ | ⟨-, -, heq⟩ | ⟨-, -, heq⟩ | ⟨b, hd, -, -, hfree, heq⟩ :=
    pagingMapPage_cases h.bound_lt p v f
  · rw [heq] at hq
    obtain rfl | ⟨k, hk, hp, rfl⟩ := hq
    · exact Or.inl (Or.inl rfl)
    · rw [pde_setPte h (pdIndex_lt v) hd (ptIndex_lt v) hk] at hp ⊢
      exact Or.inl (Or.inr ⟨k, hk, hp, rfl⟩)
  · rw [heq] at hq
    exact Or.inl hq
  · rw [heq] at hq
    exact Or.inl hq
  · have hb : b < 2 ^ 20 := lt_trans (Pmm.isFree_iff.mp hfree).1 h.bound_lt
    rw [heq] at hq
    obtain rfl | ⟨k, hk, hp, rfl⟩ := hq
    · exact Or.inl (Or.inl rfl)
    · rw [pde_setPte (h.addTable hfree) (pdIndex_lt v)
        (isPresent_pde_addTable h (pdIndex_lt v) hfree) (ptIndex_lt v) hk,
        pde_addTable h hfree hk] at hp ⊢
      split_ifs at hp ⊢
      · exact Or.inr ⟨b, hfree, pageBase_tableEntry hb⟩
      · exact Or.inl (Or.inr ⟨k, hk, hp, rfl⟩)

/-- Unmapping changes no directory entry. -/
theorem Sound.holds_unmap (h : s.Sound) {v q : UInt32} (hq : (pagingUnmapPage s v).Holds q) :
    s.Holds q := by
  rw [pagingUnmapPage] at hq
  split_ifs at hq with hd ht
  · exact hq
  · exact hq
  · obtain rfl | ⟨k, hk, hp, rfl⟩ := hq
    · exact Or.inl rfl
    · rw [pde_setPte h (pdIndex_lt v) (by simpa using hd) (ptIndex_lt v) hk] at hp ⊢
      exact Or.inr ⟨k, hk, hp, rfl⟩

/-- Where a page is mapped already, mapping it succeeds. -/
theorem Sound.map_of_entry (h : s.Sound) {p v f : UInt32} (hv : (s.entry (pageNum v)).isSome) :
    (pagingMapPage s p v f).1 = true := by
  have hd : isPresent (s.pde (pdIndex v)) = true := by
    rw [pdIndex_eq]
    exact isPresent_of_isSome_entry hv
  obtain ⟨-, heq⟩ | ⟨hd', -⟩ | ⟨hd', -⟩ | ⟨b, hd', -⟩ := pagingMapPage_cases h.bound_lt p v f
  · rw [heq]
  all_goals
    rw [hd] at hd'
    exact Bool.noConfusion hd'

end Paging

/-- **Mapping pages** makes page tables of blocks that were not in use. -/
theorem Builds.holds {s t : Paging} (h : Builds s t) (hs : s.Sound) {b : ℕ} (hb : b < 2 ^ 20)
    (hused : s.pmm.isUsed b = true) (hheld : t.Holds (blockAddr b)) : s.Holds (blockAddr b) := by
  induction h with
  | refl => exact hheld
  | @map t p v f hbuild ih =>
      obtain hold | ⟨c, hfree, heq⟩ := (hbuild.sound hs).holds_map hheld
      · exact ih hold
      · obtain ⟨hc, hunused⟩ := Pmm.isFree_iff.mp hfree
        have hgrow := hbuild.grows hs.bound_lt
        have hc' : c < 2 ^ 20 := lt_trans hc (hbuild.sound hs).bound_lt
        rw [← blockAddr_inj hb hc' heq, hgrow.used b hused] at hunused
        exact Bool.noConfusion hunused
  | grow _ _ ih => exact ih hheld

/-! ### The translations of a mapped run -/

section MapRun

variable {p f : UInt32} {start n i : ℕ} {s : Paging}

/-- The leaf that mapping page `k` of a run writes. -/
def runLeaf (p f : UInt32) (k : ℕ) : UInt32 :=
  pageBase (p + UInt32.ofNat k * 4096) ||| f ||| 1

/-- The step of the loops: page `start + i` gets its leaf, and no page changes that is neither
this one nor mirrored to it. -/
theorem entry_mapStep (hs : s.Sound) {a : ℕ} (ha : Unmirrored a (start + i)) :
    (pagingMapPage s (p + UInt32.ofNat i * 4096) (pageAddr start + UInt32.ofNat i * 4096)
        f).2.entry (pageNum (pageAddr a)) =
      if (pagingMapPage s (p + UInt32.ofNat i * 4096) (pageAddr start + UInt32.ofNat i * 4096)
          f).1 = true ∧ a = start + i then some (runLeaf p f i)
      else s.entry (pageNum (pageAddr a)) := by
  rw [Paging.entry_map hs (pageNum_lt _), pageAddr_add]
  by_cases heq : a = start + i
  · subst heq
    simp [runLeaf]
  · rw [if_neg fun h => hs.slot_ne ha heq h.2, if_neg fun h => heq h.2]

/-- A page outside the run keeps its translation. -/
theorem entry_mapPages_of_ne (hs : s.Sound) {a : ℕ}
    (hne : ∀ k, i ≤ k → k < i + n → a ≠ start + k ∧ Unmirrored a (start + k)) :
    (mapPages p (pageAddr start) f n i s).2.entry (pageNum (pageAddr a)) =
      s.entry (pageNum (pageAddr a)) := by
  induction n generalizing i s with
  | zero => rfl
  | succ n ih =>
      obtain ⟨hai, hmirror⟩ := hne i le_rfl (by omega)
      have hstep := entry_mapStep (p := p) (f := f) hs hmirror
      rw [if_neg fun h => hai h.2] at hstep
      have hsound := hs.map (p := p + UInt32.ofNat i * 4096)
        (v := pageAddr start + UInt32.ofNat i * 4096) (f := f)
      rw [mapPages]
      generalize pagingMapPage s (p + UInt32.ofNat i * 4096)
        (pageAddr start + UInt32.ofNat i * 4096) f = r at hstep hsound ⊢
      obtain ⟨_ | _, t⟩ := r
      · exact hstep
      · exact (ih hsound fun k hk hk' => hne k (by omega) (by omega)).trans hstep

/-- **A mapped run**: the pages up to the one that fails, or all of them, have the leaves of
their frames, if no two of them are mirrored. -/
theorem entry_mapPages_of_unmirrored (hs : s.Sound)
    (hrun : ∀ j k, i ≤ j → j < i + n → i ≤ k → k < i + n → Unmirrored (start + j) (start + k))
    {k : ℕ} (hik : i ≤ k) (hk : k < i + n)
    (hok : ∀ j, (mapPages p (pageAddr start) f n i s).1 = some j → k < j) :
    (mapPages p (pageAddr start) f n i s).2.entry (pageNum (pageAddr (start + k))) =
      some (runLeaf p f k) := by
  induction n generalizing i s with
  | zero => omega
  | succ n ih =>
      have hstep := entry_mapStep (p := p) (f := f) hs (hrun k i hik hk le_rfl (by omega))
      have hsound := hs.map (p := p + UInt32.ofNat i * 4096)
        (v := pageAddr start + UInt32.ofNat i * 4096) (f := f)
      rw [mapPages] at hok ⊢
      generalize pagingMapPage s (p + UInt32.ofNat i * 4096)
        (pageAddr start + UInt32.ofNat i * 4096) f = r at hstep hsound hok ⊢
      obtain ⟨_ | _, t⟩ := r
      · have := hok i rfl
        omega
      · by_cases hki : k = i
        · subst hki
          refine (entry_mapPages_of_ne hsound fun j hj hj' => ?_).trans
            (hstep.trans (if_pos ⟨rfl, rfl⟩))
          exact ⟨by omega, hrun k j hik hk (by omega) (by omega)⟩
        · exact ih hsound (fun j k hj hj' hk hk' => hrun j k (by omega) (by omega) (by omega)
            (by omega)) (by omega) (by omega) hok

/-- No two pages of a run no longer than the window are mirrored. -/
theorem entry_mapPages (hs : s.Sound) (hn : n ≤ 0x40000) (hlt : start + i + n ≤ 2 ^ 20) {k : ℕ}
    (hik : i ≤ k) (hk : k < i + n)
    (hok : ∀ j, (mapPages p (pageAddr start) f n i s).1 = some j → k < j) :
    (mapPages p (pageAddr start) f n i s).2.entry (pageNum (pageAddr (start + k))) =
      some (runLeaf p f k) :=
  entry_mapPages_of_unmirrored hs
    (fun j k _ _ _ _ => ⟨by omega, by omega, by omega, by omega⟩) hik hk hok

/-- The same loop over pages that are mapped already. -/
theorem entry_mapEach (hs : s.Sound)
    (hmapped : ∀ k, i ≤ k → k < i + n → (s.entry (pageNum (pageAddr (start + k)))).isSome)
    {a : ℕ} (ha : ∀ k, i ≤ k → k < i + n → Unmirrored a (start + k)) :
    (mapEach p (pageAddr start) f n i s).entry (pageNum (pageAddr a)) =
      if start + i ≤ a ∧ a < start + i + n then some (runLeaf p f (a - start))
      else s.entry (pageNum (pageAddr a)) := by
  induction n generalizing i s with
  | zero =>
      rw [if_neg (by omega)]
      rfl
  | succ n ih =>
      have hok : (pagingMapPage s (p + UInt32.ofNat i * 4096)
          (pageAddr start + UInt32.ofNat i * 4096) f).1 = true := by
        refine hs.map_of_entry ?_
        rw [pageAddr_add]
        exact hmapped i le_rfl (by omega)
      have hstep := entry_mapStep (p := p) (f := f) hs (ha i le_rfl (by omega))
      rw [hok] at hstep
      simp only [true_and] at hstep
      have hbuild : Builds s (pagingMapPage s (p + UInt32.ofNat i * 4096)
          (pageAddr start + UInt32.ofNat i * 4096) f).2 := .map _ _ _ .refl
      have hrest : ∀ k, i + 1 ≤ k → k < i + 1 + n →
          ((pagingMapPage s (p + UInt32.ofNat i * 4096)
            (pageAddr start + UInt32.ofNat i * 4096) f).2.entry
              (pageNum (pageAddr (start + k)))).isSome := fun k hk hk' =>
        hbuild.isSome_entry hs (pageNum_lt _) (hmapped k (by omega) (by omega))
      rw [mapEach, ih (hbuild.sound hs) hrest fun k hk hk' => ha k (by omega) (by omega), hstep]
      by_cases heq : a = start + i
      · subst heq
        rw [if_neg (by omega), if_pos rfl, if_pos (by omega), Nat.add_sub_cancel_left]
      · rw [if_neg heq]
        by_cases hin : start + (i + 1) ≤ a ∧ a < start + (i + 1) + n
        · rw [if_pos hin, if_pos (by omega)]
        · rw [if_neg hin, if_neg (by omega)]

end MapRun

/-! ### What calls keep -/

/-- `s'` has the pages `P` and the blocks `Q` as `s` has them: the pages with their bits and
translations, the blocks in use and not made page tables. -/
structure Keeps (P Q : ℕ → Prop) (s s' : Vmm) : Prop where
  sound : s'.paging.Sound
  maxPages : s'.maxPages = s.maxPages
  bound : s'.pmm.bound = s.pmm.bound
  free : ∀ a, P a → isPageFree s' a = isPageFree s a
  entry : ∀ a, P a → s'.paging.entry (pageNum (pageAddr a)) = s.paging.entry (pageNum (pageAddr a))
  used : ∀ b < s.pmm.bound, Q b → s.pmm.isUsed b = true → s'.pmm.isUsed b = true
  tables : ∀ b < s.pmm.bound, Q b → s.pmm.isUsed b = true →
    s'.paging.Holds (blockAddr b) → s.paging.Holds (blockAddr b)

namespace Keeps

variable {P Q : ℕ → Prop} {s t u : Vmm}

theorem refl (hs : s.paging.Sound) : Keeps P Q s s where
  sound := hs
  maxPages := rfl
  bound := rfl
  free := fun _ _ => rfl
  entry := fun _ _ => rfl
  used := fun _ _ _ h => h
  tables := fun _ _ _ _ h => h

theorem trans (h : Keeps P Q s t) (h' : Keeps P Q t u) : Keeps P Q s u where
  sound := h'.sound
  maxPages := h'.maxPages.trans h.maxPages
  bound := h'.bound.trans h.bound
  free := fun a ha => (h'.free a ha).trans (h.free a ha)
  entry := fun a ha => (h'.entry a ha).trans (h.entry a ha)
  used := fun b hb hq hu => h'.used b (by rwa [h.bound]) hq (h.used b hb hq hu)
  tables := fun b hb hq hu ht =>
    h.tables b hb hq hu (h'.tables b (by rwa [h.bound]) hq (h.used b hb hq hu) ht)

theorem mono {P' Q' : ℕ → Prop} (hP : ∀ a, P' a → P a) (hQ : ∀ b < s.pmm.bound, Q' b → Q b)
    (h : Keeps P Q s t) : Keeps P' Q' s t where
  sound := h.sound
  maxPages := h.maxPages
  bound := h.bound
  free := fun a ha => h.free a (hP a ha)
  entry := fun a ha => h.entry a (hP a ha)
  used := fun b hb hq hu => h.used b hb (hQ b hb hq) hu
  tables := fun b hb hq hu ht => h.tables b hb (hQ b hb hq) hu ht

/-- Mapping and taking blocks keep all blocks in use, and the pages that keep their bits and
translations. -/
theorem of_builds (hs : s.paging.Sound) (hb : Builds s.paging t.paging)
    (hmax : t.maxPages = s.maxPages) (hfree : ∀ a, P a → isPageFree t a = isPageFree s a)
    (hentry : ∀ a, P a →
      t.paging.entry (pageNum (pageAddr a)) = s.paging.entry (pageNum (pageAddr a))) :
    Keeps P (fun _ => True) s t where
  sound := hb.sound hs
  maxPages := hmax
  bound := (hb.grows hs.bound_lt).bound
  free := hfree
  entry := hentry
  used := fun b _ _ hu => (hb.grows hs.bound_lt).used b hu
  tables := fun _ hb' _ hu ht => hb.holds hs (lt_trans hb' hs.bound_lt) hu ht

end Keeps

/-- One turn of the loop of `vmm_free_contiguous` keeps what it does not unmap or release. -/
theorem keeps_freeContiguousStep {s : Vmm} {P Q : ℕ → Prop} {phys virt : UInt32} {start i : ℕ}
    (hs : s.paging.Sound)
    (htables : ¬ s.paging.Holds (pageBase (phys + UInt32.ofNat i * 4096)))
    (hP : ∀ a, P a → a ≠ u32 (start + i) ∧
      ¬ (pageNum (pageAddr a) = pageNum (virt + UInt32.ofNat i * 4096) ∨
        s.paging.SameSlot (pageNum (pageAddr a)) (pageNum (virt + UInt32.ofNat i * 4096))))
    (hQ : ∀ b, Q b → blockAddr b ≠ pageBase (phys + UInt32.ofNat i * 4096)) :
    Keeps P Q s (freeContiguousStep phys virt start i s) := by
  set v := virt + UInt32.ofNat i * 4096 with hv
  set p := phys + UInt32.ofNat i * 4096 with hp
  have hstep : (freeContiguousStep phys virt start i s).paging =
      { pagingUnmapPage s.paging v with
        pmm := pmmMarkUnusedRegion (pagingUnmapPage s.paging v).pmm p 4096 } := rfl
  have hused : ∀ b, blockAddr b ≠ pageBase p → s.pmm.isUsed b = true →
      (pmmMarkUnusedRegion (pagingUnmapPage s.paging v).pmm p 4096).isUsed b = true := by
    intro b hne hu
    have hb : ¬ (b = (p / 4096).toNat ∧ b < s.paging.pmm.bound) := by
      rintro ⟨rfl, -⟩
      exact hne (blockAddr_of_div p)
    rw [Paging.pmm_unmap, isUsed_pmmMarkUnusedRegion, decide_eq_false hb]
    exact (Bool.and_true _).trans hu
  refine ⟨?_, rfl, ?_, fun a ha => ?_, fun a ha => ?_, fun b _ hq hu => ?_, fun b _ _ _ ht => ?_⟩
  · rw [hstep]
    refine hs.unmap.withPmm (bound_markRegion _ _ _ _) fun b _ hheld hu => ?_
    refine hused b (fun heq => htables ?_) (by rwa [Paging.pmm_unmap] at hu)
    rw [← heq]
    exact hs.holds_unmap hheld
  · rw [Vmm.pmm, hstep]
    exact (bound_markRegion _ _ _ _).trans (congrArg Pmm.bound (Paging.pmm_unmap v))
  · show (!Bitmap.test (Bitmap.clear s.bitmap (u32 (start + i))) a) = _
    rw [Bitmap.test_clear_of_ne (hP a ha).1.symm]
    rfl
  · rw [hstep]
    exact (Paging.entry_unmap hs (pageNum_lt _)).trans (if_neg (hP a ha).2)
  · exact hused b (hQ b hq) hu
  · rw [hstep] at ht
    exact hs.holds_unmap ht

/-- **Releasing a run** keeps everything else, if the blocks hold no page table. -/
theorem keeps_freeContiguousLoop {s : Vmm} {P Q : ℕ → Prop} {phys virt : UInt32} {start n i : ℕ}
    (hs : s.paging.Sound)
    (htables : ∀ k, i ≤ k → k < i + n →
      ¬ s.paging.Holds (pageBase (phys + UInt32.ofNat k * 4096)))
    (hP : ∀ a, P a → ∀ k, i ≤ k → k < i + n → a ≠ u32 (start + k) ∧ ∀ t : Paging, t.Sound →
      ¬ (pageNum (pageAddr a) = pageNum (virt + UInt32.ofNat k * 4096) ∨
        t.SameSlot (pageNum (pageAddr a)) (pageNum (virt + UInt32.ofNat k * 4096))))
    (hQ : ∀ b, Q b → ∀ k, i ≤ k → k < i + n →
      blockAddr b ≠ pageBase (phys + UInt32.ofNat k * 4096)) :
    Keeps P Q s (freeContiguousLoop phys virt start n i s) := by
  induction n generalizing i s with
  | zero => exact .refl hs
  | succ n ih =>
      have hstep : Keeps P Q s (freeContiguousStep phys virt start i s) :=
        keeps_freeContiguousStep hs (htables i le_rfl (by omega))
          (fun a ha => ⟨(hP a ha i le_rfl (by omega)).1, (hP a ha i le_rfl (by omega)).2 _ hs⟩)
          (fun b hb => hQ b hb i le_rfl (by omega))
      rw [freeContiguousLoop_succ]
      refine hstep.trans (ih hstep.sound (fun k hk hk' hheld => ?_) ?_ ?_)
      · exact htables k (by omega) (by omega) (hs.holds_unmap hheld)
      · exact fun a ha k hk hk' => hP a ha k (by omega) (by omega)
      · exact fun b hb k hk hk' => hQ b hb k (by omega) (by omega)

theorem blockAddr_add (b k : ℕ) : blockAddr b + UInt32.ofNat k * 4096 = blockAddr (b + k) := by
  rw [blockAddr, blockAddr, UInt32.ofNat_add]
  grind

/-- `vmm_free_contiguous` on the run of window pages whose first page is backed by block `b`,
if the blocks from `b` on hold no page table. -/
theorem keeps_vmmFreeContiguous {s : Vmm} {start b : ℕ} {n : UInt32} (hs : s.paging.Sound)
    (hstart : start + n.toNat ≤ 2 ^ 20) (hn : 0 < n.toNat) (hb : b + n.toNat ≤ 2 ^ 20)
    (hfirst : virtToPhys s.paging (pageAddr start) = blockAddr b)
    (htables : ∀ k < n.toNat, ¬ s.paging.Holds (blockAddr (b + k))) :
    Keeps (fun a => ∀ k < n.toNat, a ≠ start + k ∧ Unmirrored a (start + k))
      (fun c => c < 2 ^ 20 ∧ ∀ k < n.toNat, c ≠ b + k) s
      (vmmFreeContiguous s (pageAddr start) n) := by
  have hblock : ∀ k < n.toNat,
      pageBase (blockAddr b + UInt32.ofNat k * 4096) = blockAddr (b + k) := by
    intro k hk
    rw [blockAddr_add, pageBase_blockAddr (by omega)]
  rw [vmmFreeContiguous_eq]
  split_ifs
  · exact .refl hs
  rw [hfirst, pageIndex_pageAddr (by omega)]
  refine keeps_freeContiguousLoop hs (fun k _ hk => ?_) (fun a ha k _ hk => ?_)
    (fun c hc k _ hk => ?_)
  · rw [hblock k (by omega)]
    exact htables k (by omega)
  · obtain ⟨hne, hmirror⟩ := ha k (by omega)
    rw [u32_of_lt (by omega), pageAddr_add]
    exact ⟨hne, fun t ht => ht.slot_ne hmirror hne⟩
  · rw [hblock k (by omega)]
    intro heq
    exact hc.2 k (by omega) (blockAddr_inj hc.1 (by omega) heq)

/-- `vmm_free_page` on a page of the window. -/
theorem keeps_vmmFreePage {s : Vmm} {x : ℕ} (hs : s.paging.Sound) (hx : x < 2 ^ 20) :
    Keeps (fun a => a ≠ x ∧ Unmirrored a x) (fun _ => True) s (vmmFreePage s (pageAddr x)) := by
  rw [vmmFreePage_eq, pageIndex_pageAddr hx]
  split_ifs
  · exact .refl hs
  · refine ⟨hs.unmap, rfl, ?_, fun a ha => ?_, fun a ha => ?_, fun b _ _ hu => ?_, fun b _ _ _ hb =>
      hs.holds_unmap hb⟩
    · exact congrArg Pmm.bound (Paging.pmm_unmap (pageAddr x))
    · exact congrArg not (Bitmap.test_clear_of_ne (Ne.symm ha.1))
    · exact (Paging.entry_unmap hs (pageNum_lt _)).trans (if_neg (hs.slot_ne ha.2 ha.1))
    · exact (congrArg (fun p => Pmm.isUsed p b) (Paging.pmm_unmap (pageAddr x))).trans hu

/-! ### What allocators give -/

/-- `s'` comes from `s` by giving the `n` pages from `i` on the blocks from `b` on. -/
structure Gives (s : Vmm) (i n b : ℕ) (s' : Vmm) : Prop where
  keeps : Keeps (fun a => ∀ k < n, a ≠ i + k ∧ Unmirrored a (i + k)) (fun _ => True) s s'
  page : ∀ k < n, i + k < s.bound ∧ isPageFree s (i + k) = true ∧ isPageFree s' (i + k) = false
  block : ∀ k < n, s.pmm.isFree (b + k) = true ∧ s'.pmm.isUsed (b + k) = true ∧
    ¬ s'.paging.Holds (blockAddr (b + k))
  frame : ∀ k < n, ∃ e, s'.paging.entry (pageNum (pageAddr (i + k))) = some e ∧
    pageBase e = blockAddr (b + k)

/-- A block that is taken while pages are mapped stays in use and becomes no page table. -/
theorem taken_block {s t : Paging} {pmm : Pmm} (hs : s.Sound) (hg : Grows s.pmm pmm)
    (hbuild : Builds { s with pmm := pmm } t) {c : ℕ} (hfree : s.pmm.isFree c = true)
    (hused : pmm.isUsed c = true) : t.pmm.isUsed c = true ∧ ¬ t.Holds (blockAddr c) := by
  have hs' : ({ s with pmm := pmm } : Paging).Sound := hs.grow hg
  obtain ⟨hc, hunused⟩ := Pmm.isFree_iff.mp hfree
  have hc20 : c < 2 ^ 20 := lt_trans hc hs.bound_lt
  refine ⟨(hbuild.grows hs'.bound_lt).used c hused, fun hheld => ?_⟩
  exact hs.not_holds hc20 hunused (hbuild.holds hs' hc20 hused hheld)

/-- The frame in the leaf of a run's page. -/
theorem pageBase_runLeaf {b k : ℕ} {f : UInt32} (hf : f < 0x1000) (hb : b + k < 2 ^ 20) :
    pageBase (runLeaf (blockAddr b) f k) = blockAddr (b + k) := by
  rw [runLeaf, blockAddr_add, pageBase_leaf _ hf, pageBase_blockAddr hb]

section Allocators

variable {s : Vmm}

/-- **`vmm_alloc_page`** gives the lowest free page a block, or keeps everything. -/
theorem vmmAllocPage_gives (hs : s.paging.Sound) :
    (vmmAllocPage s).1 = 0 ∧ Keeps (fun _ => True) (fun _ => True) s (vmmAllocPage s).2 ∨
      ∃ i b, findFreePage s = some i ∧ (vmmAllocPage s).1 = pageAddr i ∧
        Gives s i 1 b (vmmAllocPage s).2 := by
  have hbuild := builds_vmmAllocPage (s := s) hs.bound_lt
  have hmax := maxPages_vmmAllocPage (s := s) hs.bound_lt
  obtain ⟨-, heq⟩ | ⟨i, hi, ⟨-, heq⟩ | ⟨-, heq⟩ | ⟨b, -, -, hfree, ⟨hok, heq⟩ | ⟨hok, heq⟩⟩⟩ :=
    vmmAllocPage_cases (s := s) hs.bound_lt
  · rw [heq]
    exact Or.inl ⟨rfl, .refl hs⟩
  · rw [heq]
    exact Or.inl ⟨rfl, .refl hs⟩
  · rw [heq] at hbuild hmax ⊢
    exact Or.inl ⟨rfl, .of_builds hs hbuild hmax (fun _ _ => rfl) fun _ _ => rfl⟩
  · obtain ⟨hlt, hpage, -⟩ := findFreePage_eq_some.mp hi
    have hb : b < 2 ^ 20 := lt_trans (Pmm.isFree_iff.mp hfree).1 hs.bound_lt
    have hgrow := grows_markBlockUsed s.pmm b
    have hs' : ({ s.paging with pmm := markBlockUsed s.pmm b } : Paging).Sound := hs.grow hgrow
    have hentry : ∀ a, (allocPageMap s i b).2.entry (pageNum (pageAddr a)) =
        if pageNum (pageAddr a) = pageNum (pageAddr i) ∨
          ({ s.paging with pmm := markBlockUsed s.pmm b } : Paging).SameSlot
            (pageNum (pageAddr a)) (pageNum (pageAddr i)) then
          some (pageBase (blockAddr b) ||| (1 ||| 2) ||| 1)
        else s.paging.entry (pageNum (pageAddr a)) := by
      intro a
      rw [allocPageMap, Paging.entry_map hs' (pageNum_lt _), ← allocPageMap, hok]
      simp only [true_and]
      rfl
    rw [heq] at hbuild hmax ⊢
    refine Or.inr ⟨i, b, hi, rfl, ?_, ?_, ?_, ?_⟩
    · refine .of_builds hs hbuild hmax (fun a ha => ?_) fun a ha => ?_
      · have hne : i ≠ a := (ha 0 Nat.one_pos).1.symm
        exact congrArg not (Bitmap.test_set_of_ne hne)
      · obtain ⟨hne, hmirror⟩ := ha 0 Nat.one_pos
        exact (hentry a).trans (if_neg (hs'.slot_ne hmirror hne))
    · intro k hk
      obtain rfl : k = 0 := by omega
      exact ⟨hlt, hpage, congrArg not (Bitmap.test_set_self s.bitmap i)⟩
    · intro k hk
      obtain rfl : k = 0 := by omega
      refine ⟨hfree, taken_block hs hgrow (.map _ _ _ .refl) hfree ?_⟩
      rw [Nat.add_zero, isUsed_markBlockUsed, decide_eq_true rfl, Bool.true_or]
    · intro k hk
      obtain rfl : k = 0 := by omega
      refine ⟨_, (hentry i).trans (if_pos (Or.inl rfl)), ?_⟩
      rw [pageBase_leaf _ (by decide), pageBase_blockAddr hb]
      rfl
  · rw [heq] at hbuild hmax ⊢
    refine Or.inl ⟨rfl, .of_builds hs hbuild hmax (fun _ _ => rfl) fun a _ => ?_⟩
    have hs' : ({ s.paging with pmm := markBlockUsed s.pmm b } : Paging).Sound :=
      hs.grow (grows_markBlockUsed s.pmm b)
    show (allocPageMap s i b).2.entry _ = _
    rw [allocPageMap, Paging.entry_map hs' (pageNum_lt _), ← allocPageMap, hok]
    simp only [Bool.false_eq_true, false_and, if_false]
    rfl

/-- Page `a` is taken, and no free page is mirrored to it. -/
def Taken (s : Vmm) (a : ℕ) : Prop :=
  isPageFree s a = false ∧ ∀ j < s.bound, isPageFree s j = true → Unmirrored a j

/-- The pages of a free run are others than the taken ones. -/
theorem Taken.of_freeRun {a start n : ℕ} (h : Taken s a) (hrun : FreeRun s n start) {k : ℕ}
    (hk : k < n) : a ≠ start + k ∧ Unmirrored a (start + k) := by
  obtain ⟨hlt, hfree⟩ := hrun k hk
  refine ⟨?_, h.2 _ hlt hfree⟩
  rintro rfl
  rw [h.1] at hfree
  exact Bool.noConfusion hfree

/-- Mapping a free run of pages on a run of blocks that was just taken. -/
theorem mapTaken_spec (hs : s.paging.Sound) (hp : s.bound < 2 ^ 20) {n start b : ℕ} {pmm : Pmm}
    {f : UInt32} (hn : n ≤ 0x40000) (hrun : FreeRun s n start) (htakes : TakesRun s.pmm n b pmm)
    (hf : f < 0x1000) (hpos : 0 < n) {r : Option ℕ × Paging}
    (hr : mapPages (blockAddr b) (pageAddr start) f n 0 { s.paging with pmm := pmm } = r) :
    Keeps (fun a => ∀ k < n, a ≠ start + k ∧ Unmirrored a (start + k)) (fun _ => True) s
        ((markPages s start n true).withPaging r.2) ∧
      (∀ k < n, r.2.pmm.isUsed (b + k) = true ∧ ¬ r.2.Holds (blockAddr (b + k))) ∧
      ∀ k < n, (∀ j, r.1 = some j → k < j) →
        ∃ e, r.2.entry (pageNum (pageAddr (start + k))) = some e ∧
          pageBase e = blockAddr (b + k) := by
  subst hr
  have hgrow := htakes.grows
  have hs' : ({ s.paging with pmm := pmm } : Paging).Sound := hs.grow hgrow
  have hlast := (hrun (n - 1) (by omega)).1
  have hb := Pmm.le_bound_of_isRun hpos htakes.run
  have hbound := hs.bound_lt
  refine ⟨.of_builds hs ((Builds.withPmm hgrow).trans builds_mapPages) rfl (fun a ha => ?_)
    (fun a ha => ?_), fun k hk => ?_, fun k hk hok => ?_⟩
  · show (!Bitmap.test (Bitmap.setRun s.bitmap start n) a) = _
    rw [Bitmap.test_setRun, decide_eq_false, Bool.false_or, isPageFree]
    rintro ⟨hlo, hhi⟩
    exact (ha (a - start) (by omega)).1 (by omega)
  · refine entry_mapPages_of_ne hs' fun k _ hk => ?_
    exact ha k (by omega)
  · refine taken_block hs hgrow builds_mapPages (htakes.run k hk) ?_
    rw [htakes.isUsed, decide_eq_true (by omega), Bool.true_or]
  · have hentry := entry_mapPages (p := blockAddr b) (f := f) hs' hn
      (show start + 0 + n ≤ 2 ^ 20 by omega) (Nat.zero_le k) (by omega) hok
    refine ⟨_, hentry, pageBase_runLeaf hf ?_⟩
    have : s.pmm.bound < 2 ^ 20 := hbound
    omega

/-- The mapping loop of `vmm_alloc_contiguous` on a free run. -/
theorem allocContiguousMap_spec (hs : s.paging.Sound) (hp : s.bound < 2 ^ 20) {n start b : ℕ}
    (hn : n ≤ 0x40000) (hrun : FreeRun s n start) (hblocks : Loop.IsRun s.pmm.isFree n b)
    (hpos : 0 < n) :
    Keeps (fun a => ∀ k < n, a ≠ start + k ∧ Unmirrored a (start + k)) (fun _ => True) s
        ((markPages s start n true).withPaging (allocContiguousMap s n start b).2) ∧
      (∀ k < n, (allocContiguousMap s n start b).2.pmm.isUsed (b + k) = true ∧
        ¬ (allocContiguousMap s n start b).2.Holds (blockAddr (b + k))) ∧
      ∀ k < n, (∀ j, (allocContiguousMap s n start b).1 = some j → k < j) →
        ∃ e, (allocContiguousMap s n start b).2.entry (pageNum (pageAddr (start + k))) = some e ∧
          pageBase e = blockAddr (b + k) :=
  mapTaken_spec hs hp hn hrun (takesRun_markRunUsed hblocks) (by decide) hpos rfl

/-- **`vmm_alloc_contiguous`** gives a run of pages a run of blocks, or keeps what is taken. -/
theorem vmmAllocContiguous_gives (hs : s.paging.Sound) (hp : s.bound < 2 ^ 20) {n : UInt32}
    (hn : n.toNat ≤ 0x40000) :
    (vmmAllocContiguous s n).1 = 0 ∧
        Keeps (Taken s) (fun b => s.pmm.isUsed b = true) s (vmmAllocContiguous s n).2 ∨
      ∃ start b, 0 < n.toNat ∧ (vmmAllocContiguous s n).1 = pageAddr start ∧
        Gives s start n.toNat b (vmmAllocContiguous s n).2 := by
  obtain ⟨-, heq⟩ | ⟨start, b, hroom, hfind, hb, hcase⟩ := vmmAllocContiguous_cases hs.bound_lt n
  · rw [heq]
    exact Or.inl ⟨rfl, .refl hs⟩
  have hpos : 0 < n.toNat := by
    refine toNat_pos_of_ne_zero fun h0 => hroom (Or.inl h0)
  have hrun := (freeRun_of_find hfind).2.2
  have hblocks := isRun_of_firstRun hb
  have hbn := Pmm.le_bound_of_isRun hpos hblocks
  have hbound : s.pmm.bound < 2 ^ 20 := hs.bound_lt
  have hlast := (hrun (n.toNat - 1) (by omega)).1
  obtain ⟨hkeeps, hused, hframe⟩ := allocContiguousMap_spec hs hp hn hrun hblocks hpos
  obtain ⟨-, heq⟩ | ⟨-, hok, heq⟩ | ⟨i, -, hfail, heq⟩ := hcase
  · rw [heq]
    have hkeeps : Keeps (Taken s) (fun _ => True) s
        (s.withPmm (markRunUsed n.toNat 0 s.pmm)) :=
      .of_builds hs (.withPmm (grows_markRunUsed _ _ _)) rfl (fun _ _ => rfl) fun _ _ => rfl
    exact Or.inl ⟨rfl, hkeeps.mono (fun _ h => h) fun _ _ _ => trivial⟩
  · rw [heq]
    refine Or.inr ⟨start, b, hpos, rfl, hkeeps, fun k hk => ?_, fun k hk => ?_, fun k hk => ?_⟩
    · refine ⟨(hrun k hk).1, (hrun k hk).2, ?_⟩
      show (!Bitmap.test (Bitmap.setRun s.bitmap start n.toNat) (start + k)) = false
      rw [Bitmap.test_setRun, decide_eq_true (by omega), Bool.true_or, Bool.not_true]
    · exact ⟨hblocks k hk, hused k hk⟩
    · exact hframe k hk fun j hj => by rw [hok] at hj; cases hj
  · -- the rollback releases the pages and blocks of this call
    rw [heq]
    refine Or.inl ⟨rfl, ?_⟩
    have hin : i < n.toNat := by
      have := (mapPages_some_lt hfail).2
      omega
    have hi : (UInt32.ofNat i).toNat = i := by
      rw [UInt32.toNat_ofNat']
      omega
    have hmap : Keeps (Taken s) (fun c => s.pmm.isUsed c = true) s
        ((markPages s start n.toNat true).withPaging
          (allocContiguousMap s n.toNat start b).2) :=
      hkeeps.mono (fun a ha k hk => ha.of_freeRun hrun hk) fun _ _ _ => trivial
    obtain rfl | hipos := Nat.eq_zero_or_pos i
    · have hzero : UInt32.ofNat 0 = 0 := rfl
      rw [vmmFreeContiguous_eq, if_pos (Or.inr (Or.inl hzero))]
      exact hmap
    · obtain ⟨e, he, hbase⟩ := hframe 0 hpos fun j hj => by
        rw [hfail] at hj
        injection hj with hj
        omega
      have hfree := keeps_vmmFreeContiguous (b := b) (n := UInt32.ofNat i)
        hmap.sound (by omega) (by omega) (by omega) ((virtToPhys_pageAddr he).trans hbase)
        (fun k hk => (hused k (by omega)).2)
      refine hmap.trans (hfree.mono (fun a ha k hk => ?_) fun c hc hcu => ?_)
      · exact ha.of_freeRun hrun (by omega)
      · rw [hmap.bound] at hc
        refine ⟨lt_trans hc hbound, fun k hk => ?_⟩
        rintro rfl
        rw [Pmm.isUsed_eq_false_of_isFree (hblocks k (by omega))] at hcu
        exact Bool.noConfusion hcu

/-- **`dma_alloc`** fails early, maps its blocks over a null pointer, or gives a run of pages
a run of blocks of the zone for devices. -/
theorem dmaAlloc_gives (hs : s.paging.Sound) (hp : s.bound < 2 ^ 20) (size : UInt32) :
    dmaAlloc s size = (0, s) ∨
      ¬ s.pmm.RangeFull (dmaPages size) 0x100000 0x1000000 ∧
        (vmmAllocContiguous (s.withPmm
          (pmmAllocBlocksInRange s.pmm (dmaPages size) 0x100000 0x1000000).2)
          (dmaPages size)).1 = 0 ∨
      ∃ start b, 0 < (dmaPages size).toNat ∧ (dmaAlloc s size).1 = pageAddr start ∧
        Gives s start (dmaPages size).toNat b (dmaAlloc s size).2 := by
  obtain ⟨-, heq⟩ | ⟨b, pmm, hroom, ⟨-, hhi⟩, hpmm, htakes, -, heq⟩ := dmaAlloc_cases s size
  · exact Or.inl heq
  refine Or.inr ?_
  have hgrow : Grows s.pmm pmm := htakes.grows
  have hs' : (s.withPmm pmm).paging.Sound := hs.grow hgrow
  rw [heq]
  set n := dmaPages size
  obtain ⟨hnull, -⟩ | ⟨start, c, hpos, haddr, hgives⟩ :=
    vmmAllocContiguous_gives (s := s.withPmm pmm) hs' hp (n := n) (by omega)
  · exact Or.inl ⟨hroom, hpmm ▸ hnull⟩
  refine Or.inr ⟨start, b, hpos, haddr, ?_⟩
  set t := (vmmAllocContiguous (s.withPmm pmm) n).2
  have hlast := (hgives.page (n.toNat - 1) (by omega)).1
  have hbound : (s.withPmm pmm).bound = s.bound := rfl
  rw [haddr]
  -- the pages are mapped, so mapping them once more cannot fail
  have hentry : ∀ a, (∀ k < n.toNat, Unmirrored a (start + k)) →
      (mapEach (blockAddr b) (pageAddr start) (1 ||| 2 ||| 16) n.toNat 0 t.paging).entry
          (pageNum (pageAddr a)) =
        if start ≤ a ∧ a < start + n.toNat then
          some (runLeaf (blockAddr b) (1 ||| 2 ||| 16) (a - start))
        else t.paging.entry (pageNum (pageAddr a)) := by
    intro a ha
    refine entry_mapEach hgives.keeps.sound (fun k _ hk => ?_) fun k _ hk => ha k (by omega)
    obtain ⟨e, he, -⟩ := hgives.frame k (by omega)
    rw [he]
    rfl
  have hmap : Keeps (fun a => ∀ k < n.toNat, a ≠ start + k ∧ Unmirrored a (start + k))
      (fun _ => True) t
      (t.withPaging
        (mapEach (blockAddr b) (pageAddr start) (1 ||| 2 ||| 16) n.toNat 0 t.paging)) := by
    refine .of_builds hgives.keeps.sound builds_mapEach rfl (fun _ _ => rfl) fun a ha => ?_
    refine (hentry a fun k hk => (ha k hk).2).trans (if_neg ?_)
    rintro ⟨hlo, hhi⟩
    exact (ha (a - start) (by omega)).1 (by omega)
  have hkeeps := hgives.keeps.trans hmap
  have hfirst : Keeps (fun a => ∀ k < n.toNat, a ≠ start + k ∧ Unmirrored a (start + k))
      (fun _ => True) s (s.withPmm pmm) :=
    .of_builds hs (.withPmm hgrow) rfl (fun _ _ => rfl) fun _ _ => rfl
  refine ⟨hfirst.trans hkeeps, hgives.page, fun k hk => ?_, fun k hk => ?_⟩
  · have hfree := htakes.run k hk
    obtain ⟨hlt, hunused⟩ := Pmm.isFree_iff.mp hfree
    have hlt' : b + k < (s.withPmm pmm).pmm.bound := by
      rw [Vmm.pmm_withPmm, hgrow.bound]
      exact hlt
    have hused : (s.withPmm pmm).pmm.isUsed (b + k) = true := by
      rw [Vmm.pmm_withPmm, htakes.isUsed, decide_eq_true (by omega), Bool.true_or]
    refine ⟨hfree, hkeeps.used _ hlt' trivial hused, fun hheld => ?_⟩
    exact hs.not_holds (lt_trans hlt hs.bound_lt) hunused
      (hkeeps.tables _ hlt' trivial hused hheld)
  · refine ⟨_, (hentry (start + k) fun j hj => ?_).trans (if_pos (by omega)), ?_⟩
    · exact ⟨by omega, by omega, by omega, by omega⟩
    · rw [Nat.add_sub_cancel_left]
      exact pageBase_runLeaf (by decide) (by omega)

end Allocators

/-! ### Runs that keep their page tables -/

/-- The blocks that a call of `vmm_free_contiguous` or `dma_free` releases hold no page table,
and a run that is asked for is not longer than the window. -/
def VmmCall.KeepsTables (s : Vmm) : VmmCall → Prop
  | .freeContiguous virt n => ∀ k < n.toNat,
      ¬ s.paging.Holds (pageBase (virtToPhys s.paging virt + UInt32.ofNat k * 4096))
  | .dmaFree virt size => ∀ k < (dmaPages size).toNat,
      ¬ s.paging.Holds (pageBase (virtToPhys s.paging virt + UInt32.ofNat k * 4096))
  | .allocContiguous n => n.toNat ≤ 0x40000
  | _ => True

/-- The states that calls which `ok` allows lead to after start-up. -/
inductive VmmRun (ok : Vmm → VmmCall → Prop) (boot : Boot) : Vmm → Prop
  | boot : VmmRun ok boot boot.kmain
  | step {s : Vmm} (c : VmmCall) : ok s c → VmmRun ok boot s → VmmRun ok boot (c.next s)

theorem VmmRun.reachable {ok : Vmm → VmmCall → Prop} {boot : Boot} {s : Vmm}
    (h : VmmRun ok boot s) : VmmReachable boot s := by
  induction h with
  | boot => exact .boot
  | step c _ _ ih => exact .step c ih

theorem VmmReachable.mm {boot : Boot} {s : Vmm} (h : VmmReachable boot s) :
    MmReachable boot s := by
  induction h with
  | boot => exact .boot
  | step c _ ih => exact .vmm c ih

theorem sound_vmmFreeContiguous {s : Vmm} (hs : s.paging.Sound) {virt n : UInt32}
    (htables : ∀ k < n.toNat,
      ¬ s.paging.Holds (pageBase (virtToPhys s.paging virt + UInt32.ofNat k * 4096))) :
    (vmmFreeContiguous s virt n).paging.Sound := by
  rw [vmmFreeContiguous_eq]
  split_ifs
  · exact hs
  · exact (keeps_freeContiguousLoop (P := fun _ => False) (Q := fun _ => False) hs
      (fun k _ hk => htables k (by omega)) (fun _ h => h.elim) fun _ h => h.elim).sound

theorem sound_dmaAlloc {s : Vmm} (hs : s.paging.Sound) (hp : s.bound < 2 ^ 20) (size : UInt32) :
    (dmaAlloc s size).2.paging.Sound := by
  obtain ⟨-, heq⟩ | ⟨b, pmm, -, ⟨-, hhi⟩, -, htakes, -, heq⟩ := dmaAlloc_cases s size
  · rw [heq]
    exact hs
  · have hs' : (s.withPmm pmm).paging.Sound := hs.grow htakes.grows
    have hsound : (vmmAllocContiguous (s.withPmm pmm) (dmaPages size)).2.paging.Sound := by
      obtain ⟨-, hkeeps⟩ | ⟨start, c, -, -, hgives⟩ :=
        vmmAllocContiguous_gives (n := dmaPages size) hs' hp (by omega)
      · exact hkeeps.sound
      · exact hgives.keeps.sound
    rw [heq]
    exact builds_mapEach.sound hsound

theorem sound_dmaFree {s : Vmm} (hs : s.paging.Sound) {virt size : UInt32}
    (htables : ∀ k < (dmaPages size).toNat,
      ¬ s.paging.Holds (pageBase (virtToPhys s.paging virt + UInt32.ofNat k * 4096))) :
    (dmaFree s virt size).paging.Sound := by
  rw [dmaFree]
  simp only
  split_ifs
  · exact hs
  · exact hs
  · exact hs
  · exact sound_vmmFreeContiguous hs htables

theorem sound_liballocAlloc {s : Vmm} (hs : s.paging.Sound) (n : Int32) :
    (liballocAlloc s n).2.paging.Sound := by
  rw [liballocAlloc]
  split_ifs
  · exact hs
  · exact (pagingRun_liballocAllocLoop _ _ _ hs.bound_lt).1.sound hs

theorem sound_liballocFree {s : Vmm} (hs : s.paging.Sound) (p : UInt32) (n : Int32) :
    (liballocFree s p n).paging.Sound := by
  rw [liballocFree]
  split_ifs
  · exact hs
  · exact (pagingRun_freePages _ _ _).sound hs

/-- A call that gives no page table back keeps the tables in order. -/
theorem sound_next {s : Vmm} (hs : s.paging.Sound) (hp : s.bound < 2 ^ 20) {c : VmmCall}
    (hc : c.KeepsTables s) : (c.next s).paging.Sound := by
  cases c with
  | allocPage => exact (builds_vmmAllocPage hs.bound_lt).sound hs
  | freePage a => exact (pagingRun_vmmFreePage a).sound hs
  | allocContiguous n =>
      obtain ⟨-, hkeeps⟩ | ⟨start, b, -, -, hgives⟩ := vmmAllocContiguous_gives hs hp hc
      · exact hkeeps.sound
      · exact hgives.keeps.sound
  | freeContiguous a n => exact sound_vmmFreeContiguous hs hc
  | mapMmio p size f => exact (builds_vmmMapMmio s p size f).sound hs
  | dmaAlloc size => exact sound_dmaAlloc hs hp size
  | dmaFree a size => exact sound_dmaFree hs hc
  | liballocAlloc n => exact sound_liballocAlloc hs n
  | liballocFree p n => exact sound_liballocFree hs p n

/-- The start-up that obtains a page directory leaves the tables in order. -/
theorem Boot.kmain_sound {boot : Boot} (hdir : boot.kmain.paging.pageDirectory ≠ 0) :
    boot.kmain.paging.Sound := by
  rw [(builds_kmain boot).pageDirectory boot.pagingInit_bound_lt] at hdir
  refine (builds_kmain boot).sound (sound_pagingInit ?_ hdir)
  exact bound_pmmInit_lt boot.kernel boot.memSize boot.pmmBitmap boot.pmmBytes

/-- **The page tables stay in order** in every run that gives no page table back. -/
theorem VmmRun.sound {boot : Boot} {s : Vmm}
    (hdir : boot.kmain.paging.pageDirectory ≠ 0)
    (h : VmmRun (fun s c => c.KeepsTables s) boot s) : s.paging.Sound := by
  induction h with
  | boot => exact boot.kmain_sound hdir
  | step c hc hrun ih => exact sound_next ih hrun.reachable.mm.sizes.2 hc

end HalOS
