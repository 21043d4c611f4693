import HalOS.Mm.PagingSpec
import HalOS.Mm.Vmm

/-!
# Runs of Mappings

Everything that `vmm.c` does with page tables short of unmapping is a sequence of
`paging_map_page` calls between which the physical memory manager gives blocks away. Such a
sequence (`Builds`) keeps the tables sound, keeps used blocks used and keeps every present
entry present; the loops of `vmm.c` and the start-up of `kmain` are instances.

## Main results

* `Builds.sound`, `Builds.grows`, `Builds.isSome_entry`: what such a sequence keeps.
* `builds_mapPages`, `builds_mapEach`, `builds_mapKernel`: the loops.
-/

namespace HalOS

/-! ### Window pages -/

theorem pageAddr_add (i k : ℕ) : pageAddr i + UInt32.ofNat k * 4096 = pageAddr (i + k) := by
  unfold pageAddr
  rw [UInt32.ofNat_add]
  grind

theorem toNat_pageAddr (i : ℕ) : (pageAddr i).toNat = (0xC0000 + i) % 2 ^ 20 * 4096 := by
  have hwindow : (0xC0000000 : UInt32).toNat = 0xC0000000 := by decide
  have hpage : (4096 : UInt32).toNat = 4096 := by decide
  rw [pageAddr, UInt32.toNat_add, UInt32.toNat_mul, UInt32.toNat_ofNat', hwindow, hpage]
  omega

/-- The page number of page `i` of the window. -/
theorem pageNum_pageAddr (i : ℕ) : pageNum (pageAddr i) = (0xC0000 + i) % 2 ^ 20 := by
  rw [pageNum, toNat_pageAddr, Nat.mul_div_cancel _ (by decide)]

theorem pageAddr_eq_zero_iff {i : ℕ} (h : i < 2 ^ 20) : pageAddr i = 0 ↔ i = 0x40000 := by
  rw [← UInt32.toNat_inj, toNat_pageAddr, UInt32.toNat_zero]
  omega

theorem Vmm.withPaging_self (s : Vmm) : s.withPaging s.paging = s := rfl

/-! ### The page bitmap -/

theorem isPageFree_iff {s : Vmm} {i : ℕ} :
    isPageFree s i = true ↔ Bitmap.test s.bitmap i = false := by
  simp [isPageFree]

/-- `find_free_page` finds the lowest free page. -/
theorem findFreePage_eq_some {s : Vmm} {i : ℕ} :
    findFreePage s = some i ↔
      i < s.bound ∧ isPageFree s i = true ∧ ∀ j < i, isPageFree s j = false := by
  rw [findFreePage, List.find?_range_eq_some]
  simp only [List.mem_range, Bool.not_eq_true']
  constructor
  · rintro ⟨h1, h2, h3⟩
    exact ⟨h2, h1, h3⟩
  · rintro ⟨h1, h2, h3⟩
    exact ⟨h2, h1, h3⟩

/-- The `n` pages from `start` on exist and are free. -/
def FreeRun (s : Vmm) (n start : ℕ) : Prop :=
  ∀ j < n, start + j < s.bound ∧ isPageFree s (start + j) = true

/-- A run found by `find_contiguous_free_pages`, and its first page, are free. -/
theorem freeRun_of_find {s : Vmm} {n start : ℕ}
    (h : findContiguousFreePages s n = some start) :
    start < s.bound ∧ isPageFree s start = true ∧ FreeRun s n start := by
  rw [findContiguousFreePages, List.find?_range_eq_some] at h
  obtain ⟨htest, hlt, -⟩ := h
  rw [Bool.and_eq_true] at htest
  refine ⟨by simpa using hlt, htest.1, fun j hj => ?_⟩
  simpa using List.all_eq_true.mp htest.2 j (List.mem_range.mpr hj)

/-- The search finds the lowest free run. -/
theorem findContiguousFreePages_eq_some {s : Vmm} {n start : ℕ} (hn : 0 < n) :
    findContiguousFreePages s n = some start ↔
      FreeRun s n start ∧ ∀ i < start, ¬ FreeRun s n i := by
  have htest : ∀ i, (isPageFree s i && (List.range n).all fun j =>
      decide (i + j < s.bound) && isPageFree s (i + j)) = true ↔ FreeRun s n i := by
    intro i
    rw [Bool.and_eq_true, List.all_eq_true]
    constructor
    · rintro ⟨-, hall⟩ j hj
      simpa using hall j (List.mem_range.mpr hj)
    · intro hrun
      exact ⟨(hrun 0 hn).2, fun j hj => by simpa using hrun j (List.mem_range.mp hj)⟩
  rw [findContiguousFreePages, List.find?_range_eq_some]
  constructor
  · rintro ⟨hrun, -, hlow⟩
    refine ⟨(htest start).mp hrun, fun i hi hfree => ?_⟩
    have := hlow i hi
    rw [(htest i).mpr hfree] at this
    exact Bool.noConfusion this
  · rintro ⟨hrun, hlow⟩
    refine ⟨(htest start).mpr hrun, ?_, fun i hi => ?_⟩
    · exact List.mem_range.mpr (hrun 0 hn).1
    · rw [Bool.not_eq_true', Bool.eq_false_iff]
      exact fun htrue => hlow i hi ((htest i).mp htrue)

/-! ### Sequences of mappings -/

/-- `s'` comes from `s` by mapping pages and giving blocks away. -/
inductive Builds (s : Paging) : Paging → Prop
  | refl : Builds s s
  | map {t : Paging} (p v f : UInt32) : Builds s t → Builds s (pagingMapPage t p v f).2
  | grow {t : Paging} {pmm : Pmm} : Grows t.pmm pmm → Builds s t →
      Builds s { t with pmm := pmm }

namespace Builds

variable {s t u : Paging}

theorem trans (h : Builds s t) (h' : Builds t u) : Builds s u := by
  induction h' with
  | refl => exact h
  | map p v f _ ih => exact .map p v f ih
  | grow hg _ ih => exact .grow hg ih

theorem grows (h : Builds s t) (hs : s.pmm.bound < 2 ^ 20) : Grows s.pmm t.pmm := by
  induction h with
  | refl => exact .refl _
  | map p v f _ ih => exact ih.trans (Paging.grows_map (by rw [ih.bound]; exact hs))
  | grow hg _ ih => exact ih.trans hg

theorem pageDirectory (h : Builds s t) (hs : s.pmm.bound < 2 ^ 20) :
    t.pageDirectory = s.pageDirectory := by
  induction h with
  | refl => rfl
  | map p v f hb ih =>
      rw [Paging.pageDirectory_map (by rw [(hb.grows hs).bound]; exact hs), ih]
  | grow _ _ ih => exact ih

theorem sound (h : Builds s t) (hs : s.Sound) : t.Sound := by
  induction h with
  | refl => exact hs
  | map p v f _ ih => exact ih.map
  | grow hg _ ih => exact ih.grow hg

/-- A page that is mapped stays mapped. -/
theorem isSome_entry (h : Builds s t) (hs : s.Sound) {n : ℕ} (hn : n < 2 ^ 20)
    (hsome : (s.entry n).isSome) : (t.entry n).isSome := by
  induction h with
  | refl => exact hsome
  | map p v f hb ih =>
      rw [Paging.entry_map (hb.sound hs) hn]
      split_ifs
      · rfl
      · exact ih
  | grow _ _ ih => exact ih

end Builds

section Loops

variable {phys virt f : UInt32} {n i : ℕ} {s : Paging}

theorem builds_mapPages : Builds s (mapPages phys virt f n i s).2 := by
  induction n generalizing i s with
  | zero => exact .refl
  | succ n ih =>
      rw [mapPages]
      have hmap := Builds.map (phys + UInt32.ofNat i * 4096) (virt + UInt32.ofNat i * 4096) f
        (Builds.refl (s := s))
      cases hr : pagingMapPage s (phys + UInt32.ofNat i * 4096)
          (virt + UInt32.ofNat i * 4096) f with
      | mk ok s' =>
          rw [hr] at hmap
          cases ok with
          | true => exact hmap.trans ih
          | false => exact hmap

theorem builds_mapEach : Builds s (mapEach phys virt f n i s) := by
  induction n generalizing i s with
  | zero => exact .refl
  | succ n ih => exact (Builds.map _ _ _ .refl).trans ih

theorem builds_mapKernel {kernel : KernelImage} : Builds s (mapKernel kernel n i s) := by
  induction n generalizing i s with
  | zero => exact .refl
  | succ n ih => exact ((Builds.map _ _ _ (.map _ _ _ .refl))).trans ih

/-- The page at which the loop stops is one of its pages. -/
theorem mapPages_some_lt {k : ℕ} (h : (mapPages phys virt f n i s).1 = some k) :
    i ≤ k ∧ k < i + n := by
  induction n generalizing i s with
  | zero => cases h
  | succ n ih =>
      rw [mapPages] at h
      generalize pagingMapPage s (phys + UInt32.ofNat i * 4096) (virt + UInt32.ofNat i * 4096) f = r
        at h
      obtain ⟨_ | _, t⟩ := r
      · injection h with h
        omega
      · have := ih h
        omega

/-- If the loop runs to its end, every page of the run is mapped. -/
theorem isSome_entry_mapPages (hs : s.Sound) (hok : (mapPages phys virt f n i s).1 = none)
    {k : ℕ} (hik : i ≤ k) (hk : k < i + n) :
    ((mapPages phys virt f n i s).2.entry (pageNum (virt + UInt32.ofNat k * 4096))).isSome := by
  induction n generalizing i s with
  | zero => omega
  | succ n ih =>
      rw [mapPages] at hok ⊢
      have hsound := hs.map (p := phys + UInt32.ofNat i * 4096)
        (v := virt + UInt32.ofNat i * 4096) (f := f)
      have hentry := Paging.entry_map (p := phys + UInt32.ofNat i * 4096)
        (v := virt + UInt32.ofNat i * 4096) (f := f) hs
        (pageNum_lt (virt + UInt32.ofNat i * 4096))
      cases hr : pagingMapPage s (phys + UInt32.ofNat i * 4096)
          (virt + UInt32.ofNat i * 4096) f with
      | mk ok s' =>
          rw [hr] at hsound hentry hok
          cases ok with
          | false => simp at hok
          | true =>
              simp only at hok ⊢
              by_cases hki : k = i
              · subst hki
                refine builds_mapPages.isSome_entry hsound (pageNum_lt _) ?_
                simp [hentry]
              · exact ih hsound hok (by omega) (by omega)

end Loops

/-! ### Device mappings -/

/-- The number of pages `vmm_map_mmio` maps for `size` bytes. -/
def mmioPages (size : UInt32) : ℕ := ((((size + 4095) &&& 0xFFFFF000) + 4095) / 4096).toNat

/-- The mapping loop of `vmm_map_mmio` on the pages from `start` on. -/
def mmioLoop (s : Vmm) (phys size f : UInt32) (start : ℕ) : Option ℕ × Paging :=
  mapPages phys (pageAddr start) (f ||| 1 ||| 2) (mmioPages size) 0 s.paging

theorem vmmMapMmio_cases (s : Vmm) (phys size f : UInt32) :
    findContiguousFreePages s (mmioPages size) = none ∧ vmmMapMmio s phys size f = (0, s) ∨
      ∃ start, findContiguousFreePages s (mmioPages size) = some start ∧
        (vmmMapMmio s phys size f).1 =
          (if (mmioLoop s phys size f start).1 = none then pageAddr start else 0) ∧
        (vmmMapMmio s phys size f).2 =
          (markPages s start (mmioPages size) true).withPaging
            (mmioLoop s phys size f start).2 := by
  rw [vmmMapMmio]
  have hpages : ((((size + 4095) &&& 0xFFFFF000) + 4095) / 4096).toNat = mmioPages size := rfl
  simp only [hpages]
  cases hfind : findContiguousFreePages s (mmioPages size) with
  | none => exact Or.inl ⟨rfl, rfl⟩
  | some start =>
      refine Or.inr ⟨start, rfl, ?_⟩
      have hloop : mapPages phys (pageAddr start) (f ||| 1 ||| 2) (mmioPages size) 0
          (markPages s start (mmioPages size) true).paging = mmioLoop s phys size f start := rfl
      simp only [hloop]
      generalize mmioLoop s phys size f start = r
      obtain ⟨_ | i, paging⟩ := r
      · exact ⟨rfl, rfl⟩
      · exact ⟨rfl, rfl⟩

theorem builds_vmmMapMmio (s : Vmm) (phys size f : UInt32) :
    Builds s.paging (vmmMapMmio s phys size f).2.paging := by
  rcases vmmMapMmio_cases s phys size f with ⟨-, heq⟩ | ⟨start, -, -, heq⟩
  · rw [heq]
    exact .refl
  · rw [heq]
    exact builds_mapPages

end HalOS
