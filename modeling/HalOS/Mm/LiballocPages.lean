import HalOS.Mm.LiballocHook
import HalOS.Mm.LiballocRuns

/-!
# The Heap over the Kernel's Pages

The page supplier of the heap is `liballoc_hook.c`, which takes its pages one by one from the
virtual memory manager. It keeps the contract of a supplier as long as it is asked where the free
pages are unbroken, so that the heap of the kernel keeps a store of blocks in such runs; what else
happens to the page bitmap may be anything that leaves the heap's pages taken.

## Main results

* `vmmSupplies`: the hook keeps the contract.
* `kernel_heap_keeps_store`: the kernel's heap.
-/

namespace HalOS

namespace Liballoc

open ObjectStore (Store)

/-- `liballoc_alloc` and `liballoc_free` of `liballoc_hook.c`. -/
def vmmSupplier : PageSupplier Vmm where
  alloc s n := ((liballocAlloc s (Int32.ofNat n)).1.toNat, (liballocAlloc s (Int32.ofNat n)).2)
  free s a n := liballocFree s (UInt32.ofNat a) (Int32.ofNat n)

/-- The run of `n` pages from page `i` on. -/
def pageRun (i n : ℕ) : ℕ × ℕ := ((pageAddr i).toNat, n * pageSize)

/-- These pages of the manager are taken, and make a run that does not pass address zero. -/
structure TakenRun (s : Vmm) (i n : ℕ) : Prop where
  pos : 0 < n
  le : i + n ≤ s.bound
  zero : ¬(i ≤ 0x40000 ∧ 0x40000 < i + n)
  taken : ∀ j, i ≤ j → j < i + n → isPageFree s j = false

/-- The hook has handed out runs of taken pages, no two of which overlap; it is able to answer
where the free pages that it will take are unbroken. -/
def vmmContract : Contract Vmm where
  out s runs := s.paging.Sound ∧ s.bound < 2 ^ 20 ∧
    (∀ r ∈ runs, ∃ i n, r = pageRun i n ∧ TakenRun s i n) ∧
    ∀ r ∈ runs, ∀ r' ∈ runs, r ≠ r' → r.1 + r.2 ≤ r'.1 ∨ r'.1 + r'.2 ≤ r.1
  serves s n := 0 < n ∧ n < 2 ^ 31 ∧ Unbroken s n

section Pages

variable {s t : Vmm} {i j n m : ℕ}

/-- Runs of different pages are apart. -/
theorem pageRun_apart (hi : i + n < 2 ^ 20) (hj : j + m < 2 ^ 20)
    (hapart : i + n ≤ j ∨ j + m ≤ i) :
    (pageRun i n).1 + (pageRun i n).2 ≤ (pageRun j m).1 ∨
      (pageRun j m).1 + (pageRun j m).2 ≤ (pageRun i n).1 := by
  simp only [pageRun, pageSize, toNat_pageAddr]
  omega

/-- Runs that are apart have no page in common. -/
theorem disjoint_of_pageRun (hi : i + n < 2 ^ 20) (hj : j + m < 2 ^ 20)
    (hi0 : ¬(i ≤ 0x40000 ∧ 0x40000 < i + n)) (hj0 : ¬(j ≤ 0x40000 ∧ 0x40000 < j + m))
    (hapart : (pageRun i n).1 + (pageRun i n).2 ≤ (pageRun j m).1 ∨
      (pageRun j m).1 + (pageRun j m).2 ≤ (pageRun i n).1) {x : ℕ} (hx : i ≤ x) (hxn : x < i + n) :
    ¬(j ≤ x ∧ x < j + m) := by
  simp only [pageRun, pageSize, toNat_pageAddr] at hapart
  omega

theorem TakenRun.congr (h : TakenRun s i n) (hbound : t.bound = s.bound)
    (htaken : ∀ j, i ≤ j → j < i + n → isPageFree s j = false → isPageFree t j = false) :
    TakenRun t i n :=
  ⟨h.pos, hbound ▸ h.le, h.zero, fun j h1 h2 => htaken j h1 h2 (h.taken j h1 h2)⟩

theorem bound_liballocAlloc (hs : s.pmm.bound < 2 ^ 20) (n : Int32) :
    (liballocAlloc s n).2.bound = s.bound := by
  rw [liballocAlloc]
  split_ifs
  · rfl
  · exact congrArg UInt32.toNat
      (pagingRun_liballocAllocLoop _ _ _ hs : PagingRun (fun _ _ => True) _ _ ∧ _).2

theorem bound_liballocFree (s : Vmm) (p : UInt32) (n : Int32) :
    (liballocFree s p n).bound = s.bound := by
  rw [liballocFree]
  split_ifs
  · rfl
  · exact congrArg UInt32.toNat (maxPages_freePages _ _ _ _)

theorem toNat_int32 (hn : n < 2 ^ 31) : (Int32.ofNat n).toUInt32.toNat = n := by
  rw [Int32.toUInt32_ofNat', UInt32.toNat_ofNat', Nat.mod_eq_of_lt (by omega)]

theorem int32_pos (h0 : 0 < n) (hn : n < 2 ^ 31) : (0 : Int32) < Int32.ofNat n := by
  rw [Int32.lt_iff_toInt_lt, Int32.toInt_ofNat_of_lt hn, Int32.toInt_zero]
  exact_mod_cast h0

/-- A call that finds its pages unbroken takes a run, or leaves the bitmap alone. -/
theorem liballocAlloc_supplies (hs : s.paging.Sound) (hp : s.bound < 2 ^ 20)
    (hserves : vmmContract.serves s n) :
    ((liballocAlloc s (Int32.ofNat n)).1 = 0 ∧
      ∀ j, isPageFree (liballocAlloc s (Int32.ofNat n)).2 j = isPageFree s j) ∨
    ∃ i, (liballocAlloc s (Int32.ofNat n)).1 = pageAddr i ∧ pageAddr i ≠ 0 ∧
      TakenRun (liballocAlloc s (Int32.ofNat n)).2 i n ∧
      (∀ j, i ≤ j → j < i + n → isPageFree s j = true) ∧
      ∀ j, isPageFree s j = false → isPageFree (liballocAlloc s (Int32.ofNat n)).2 j = false := by
  obtain ⟨h0, hn, hunbroken⟩ := hserves
  have hpos := int32_pos h0 hn
  have htoNat := toNat_int32 hn
  have hruns := suppliesRun_of_unbroken hs hp hpos (by rwa [htoNat])
  obtain ⟨i, hi, hall, heq, hne⟩ | ⟨hall, heq⟩ := liballocAlloc_cases (s := s) hs.bound_lt hp hpos
  · right
    rw [htoNat] at hall heq
    have hrun := (hunbroken i hi).1
    have hset := (liballocTakes_run_iff (s := s) hs.bound_lt hp hi).mp hrun
    rw [hall.1] at hrun hset
    have hmem : ∀ j, j ∈ liballocTakes n s ↔ i ≤ j ∧ j < i + n := by
      intro j
      rw [← List.mem_toFinset, hset, Finset.mem_Ico]
    have hbound := bound_liballocAlloc (s := s) hs.bound_lt (Int32.ofNat n)
    refine ⟨i, by rw [heq], hne, ⟨h0, ?_, fun h => hall.2 ((hmem _).mpr h), ?_⟩, ?_, ?_⟩
    · have := (hrun (n - 1) (by omega)).1
      omega
    · intro j h1 h2
      rw [heq, isPageFree_liballocState hs.bound_lt hp, decide_eq_true ((hmem j).mpr ⟨h1, h2⟩),
        Bool.not_true, Bool.and_false]
    · intro j h1 h2
      have := (hrun (j - i) (by omega)).2
      rwa [Nat.add_sub_cancel' h1] at this
    · intro j hj
      rw [heq, isPageFree_liballocState hs.bound_lt hp, hj, Bool.false_and]
  · left
    have hnull : (liballocAlloc s (Int32.ofNat n)).1 = 0 := by rw [heq]
    refine ⟨hnull, fun j => ?_⟩
    rw [isPageFree, isPageFree, (hruns.2 hnull).bitmap]

/-- **The hook keeps the contract of a page supplier.** -/
theorem vmmSupplies : Supplies vmmSupplier vmmContract where
  alloc s runs n hout hserves := by
    obtain ⟨hs, hp, hruns, hapart⟩ := hout
    have hsound := sound_liballocAlloc hs (Int32.ofNat n)
    have hbound := bound_liballocAlloc (s := s) hs.bound_lt (Int32.ofNat n)
    rcases liballocAlloc_supplies hs hp hserves with ⟨hnull, hsame⟩ | ⟨i, haddr, hne, hrun, hfree, hkeep⟩
    · refine Or.inl ⟨congrArg UInt32.toNat hnull, hsound, hbound ▸ hp, fun r hr => ?_, hapart⟩
      obtain ⟨j, m, rfl, hj⟩ := hruns r hr
      exact ⟨j, m, rfl, hj.congr hbound fun x _ _ hx => (hsame x).trans hx⟩
    · have hlt : i + n < 2 ^ 20 := by
        have := hrun.le
        omega
      -- pages that were free are in no run that was handed out
      have hnew : ∀ r ∈ runs, r.1 + r.2 ≤ (pageRun i n).1 ∨
          (pageRun i n).1 + (pageRun i n).2 ≤ r.1 := by
        intro r hr
        obtain ⟨j, m, rfl, hj⟩ := hruns r hr
        have hle := hj.le
        refine pageRun_apart (by omega) hlt ?_
        by_contra hoverlap
        have hpos := hj.pos
        have hpos' := hrun.pos
        have htaken := hj.taken (max i j) (le_max_right _ _) (by omega)
        rw [hfree (max i j) (le_max_left _ _) (by omega)] at htaken
        cases htaken
      have hret : (vmmSupplier.alloc s n).1 = (pageRun i n).1 := congrArg UInt32.toNat haddr
      refine Or.inr ⟨?_, ?_, ?_, hsound, hbound ▸ hp, ?_, ?_⟩
      · rw [hret]
        exact fun h0 => hne (UInt32.toNat_inj.mp h0)
      · rw [hret]
        have := hrun.zero
        simp only [pageRun, pageSize, toNat_pageAddr]
        omega
      · rw [hret]
        exact hnew
      · intro r hr
        rcases Finset.mem_insert.mp hr with rfl | hr
        · exact ⟨i, n, Prod.ext hret rfl, hrun⟩
        · obtain ⟨j, m, rfl, hj⟩ := hruns r hr
          exact ⟨j, m, rfl, hj.congr hbound fun x _ _ hx => hkeep x hx⟩
      · intro r hr r' hr' hdiff
        rw [hret] at hr hr'
        rcases Finset.mem_insert.mp hr with rfl | hr <;> rcases Finset.mem_insert.mp hr' with rfl | hr'
        · exact absurd rfl hdiff
        · exact (hnew r' hr').symm
        · exact hnew r hr
        · exact hapart r hr r' hr' hdiff
  free s runs a n hout hmem := by
    obtain ⟨hs, hp, hruns, hapart⟩ := hout
    obtain ⟨i, n', heq, hrun⟩ := hruns _ hmem
    obtain ⟨rfl, hlen⟩ := Prod.mk.inj heq
    obtain rfl : n = n' := Nat.eq_of_mul_eq_mul_right (by decide : 0 < pageSize) hlen
    have hle := hrun.le
    refine ⟨sound_liballocFree hs _ _, (bound_liballocFree s _ _).symm ▸ hp, fun r hr => ?_,
      fun r hr r' hr' => hapart r (Finset.mem_of_mem_erase hr) r' (Finset.mem_of_mem_erase hr')⟩
    obtain ⟨hne, hr⟩ := Finset.mem_erase.mp hr
    obtain ⟨j, m, rfl, hj⟩ := hruns r hr
    have hjle := hj.le
    refine ⟨j, m, rfl, hj.congr (bound_liballocFree s _ _) fun x h1 h2 hx => ?_⟩
    -- only pages of the run are freed, and it has none of these
    by_contra hfreed
    rw [Bool.not_eq_false] at hfreed
    change isPageFree (liballocFree s (UInt32.ofNat (pageAddr i).toNat) (Int32.ofNat n)) x = true
      at hfreed
    rw [liballocFree, UInt32.ofNat_toNat, toNat_int32 (by omega)] at hfreed
    split_ifs at hfreed
    · rw [hx] at hfreed
      cases hfreed
    · rcases isPageFree_freePages hfreed with hbefore | ⟨-, k, hk, hxk⟩
      · rw [hx] at hbefore
        cases hbefore
      · rw [Nat.mod_eq_of_lt (by omega)] at hxk
        exact disjoint_of_pageRun (by omega) (by omega) hj.zero hrun.zero
          (hapart _ hr _ hmem hne) h1 h2 (by omega)

/-- After start-up, before the heap has asked for anything. -/
theorem out_of_run {boot : Boot} (hdir : boot.kmain.paging.pageDirectory ≠ 0)
    (h : VmmRun (fun s c => c.KeepsTables s) boot s) : vmmContract.out s ∅ :=
  ⟨h.sound hdir, h.reachable.mm.sizes.2, by simp, by simp⟩

end Pages

end Liballoc

end HalOS
