import Mathlib.Order.Interval.Finset.Nat
import HalOS.Mm.VmmSound

/-!
# The Heap's Page Supplier

`liballoc_alloc(n)` asks for `n` pages one at a time and returns the address of the first.
Each `vmm_alloc_page` takes the lowest free page, so the pages form one run only if the
pages after the lowest free one are free as well. When they are not, the caller is given
addresses of pages that this call did not take, and a failed call gives back addresses that
it never had.

The pages of the call are `liballocTakes`. They include a page that is lost: page `0x40000`
lies at address zero, so the `vmm_alloc_page` that takes it seems to have failed.

## Main results

* `liballocTakes_run_iff`: when the pages taken form a run.
* `freeRun_of_ownsRun`, `ownsRun_of_freeRun`: a returned run.
* `run_of_givesBack`, `givesBack_of_run`: a failed call.
* `liballoc_alloc_supplies_run`: both.
-/

namespace HalOS

/-! ### The pages a call takes -/

/-- The pages that up to `n` calls of `vmm_alloc_page` take, the first call that returns null
being the last. -/
def liballocTakes : ℕ → Vmm → List ℕ
  | 0, _ => []
  | n + 1, s =>
      (findFreePage s).elim [] fun i =>
        if isPageFree (vmmAllocPage s).2 i then []
        else i :: if (vmmAllocPage s).1 = 0 then [] else liballocTakes n (vmmAllocPage s).2

/-- The state these calls lead to. -/
def liballocState : ℕ → Vmm → Vmm
  | 0, s => s
  | n + 1, s =>
      if (vmmAllocPage s).1 = 0 then (vmmAllocPage s).2 else liballocState n (vmmAllocPage s).2

/-- One `vmm_alloc_page`, seen from the page bitmap: it fails and leaves the bitmap alone, or
takes the lowest free page, `0x40000` being the one whose address is null. -/
theorem vmmAllocPage_takes {s : Vmm} (hs : s.pmm.bound < 2 ^ 20) (hp : s.bound < 2 ^ 20) :
    ((vmmAllocPage s).1 = 0 ∧ (vmmAllocPage s).2.bitmap = s.bitmap) ∨
      ∃ i, findFreePage s = some i ∧ (vmmAllocPage s).1 = pageAddr i ∧
        (vmmAllocPage s).2.bitmap = Bitmap.set s.bitmap i ∧
        ((vmmAllocPage s).1 = 0 ↔ i = 0x40000) := by
  obtain ⟨-, heq⟩ | ⟨i, hi, ⟨-, heq⟩ | ⟨-, heq⟩ | ⟨b, -, -, -, ⟨-, heq⟩ | ⟨-, heq⟩⟩⟩ :=
    vmmAllocPage_cases hs
  · exact Or.inl ⟨by rw [heq], by rw [heq]⟩
  · exact Or.inl ⟨by rw [heq], by rw [heq]⟩
  · exact Or.inl ⟨by rw [heq], by rw [heq]; rfl⟩
  · have hlt : i < 2 ^ 20 := lt_trans (findFreePage_eq_some.mp hi).1 hp
    refine Or.inr ⟨i, hi, by rw [heq], by rw [heq]; rfl, ?_⟩
    rw [heq]
    exact pageAddr_eq_zero_iff hlt
  · exact Or.inl ⟨by rw [heq], by rw [heq]; rfl⟩

theorem liballocTakes_succ {s : Vmm} (hs : s.pmm.bound < 2 ^ 20) (hp : s.bound < 2 ^ 20) (n : ℕ) :
    ((vmmAllocPage s).1 = 0 ∧ (vmmAllocPage s).2.bitmap = s.bitmap ∧
        liballocTakes (n + 1) s = []) ∨
      ∃ i, findFreePage s = some i ∧ (vmmAllocPage s).1 = pageAddr i ∧
        (vmmAllocPage s).2.bitmap = Bitmap.set s.bitmap i ∧
        ((vmmAllocPage s).1 = 0 ↔ i = 0x40000) ∧
        liballocTakes (n + 1) s =
          i :: if (vmmAllocPage s).1 = 0 then [] else liballocTakes n (vmmAllocPage s).2 := by
  rw [liballocTakes]
  obtain ⟨hnull, hbits⟩ | ⟨i, hi, hret, hbits, hzero⟩ := vmmAllocPage_takes hs hp
  · refine Or.inl ⟨hnull, hbits, ?_⟩
    cases hi : findFreePage s with
    | none => rfl
    | some i =>
        have hfree := (findFreePage_eq_some.mp hi).2.1
        rw [isPageFree, ← hbits, ← isPageFree] at hfree
        simp only [Option.elim, hfree, if_true]
  · refine Or.inr ⟨i, hi, hret, hbits, hzero, ?_⟩
    have htaken : isPageFree (vmmAllocPage s).2 i = false := by
      rw [isPageFree, hbits, Bitmap.test_set_self, Bool.not_true]
    simp only [hi, Option.elim, htaken, Bool.false_eq_true, if_false]

/-- `vmm_alloc_page` keeps the sizes. -/
theorem sizes_vmmAllocPage {s : Vmm} (hs : s.pmm.bound < 2 ^ 20) (hp : s.bound < 2 ^ 20) :
    (vmmAllocPage s).2.pmm.bound < 2 ^ 20 ∧ (vmmAllocPage s).2.bound < 2 ^ 20 ∧
      (vmmAllocPage s).2.bound = s.bound := by
  have hbound : (vmmAllocPage s).2.bound = s.bound :=
    congrArg UInt32.toNat (maxPages_vmmAllocPage hs)
  have hgrow := (builds_vmmAllocPage hs).grows hs
  refine ⟨?_, by rw [hbound]; exact hp, hbound⟩
  rw [Vmm.pmm, hgrow.bound]
  exact hs

/-- **The page bitmap** after the pages are taken: they, and no others, are no longer free. -/
theorem isPageFree_liballocState {s : Vmm} (hs : s.pmm.bound < 2 ^ 20) (hp : s.bound < 2 ^ 20)
    (n j : ℕ) :
    isPageFree (liballocState n s) j = (isPageFree s j && !decide (j ∈ liballocTakes n s)) := by
  induction n generalizing s with
  | zero => simp [liballocState, liballocTakes]
  | succ n ih =>
      obtain ⟨hs', hp', -⟩ := sizes_vmmAllocPage hs hp
      rw [liballocState]
      obtain ⟨hnull, hbits, htakes⟩ | ⟨i, -, -, hbits, -, htakes⟩ := liballocTakes_succ hs hp n
      · rw [if_pos hnull, htakes, isPageFree, hbits]
        simp [isPageFree]
      · have hstep : isPageFree (vmmAllocPage s).2 j = (isPageFree s j && !decide (j = i)) := by
          rw [isPageFree, hbits, Bitmap.test_set, Bool.not_or, Bool.and_comm, ← isPageFree]
          simp [eq_comm]
        rw [htakes]
        split_ifs with hnull
        · rw [hstep]
          simp
        · rw [ih hs' hp', hstep]
          simp [Bool.and_assoc]

/-- The pages of a call were free, lie below `vmm_max_pages` and ascend. -/
theorem liballocTakes_spec {s : Vmm} (hs : s.pmm.bound < 2 ^ 20) (hp : s.bound < 2 ^ 20) (n : ℕ) :
    (liballocTakes n s).Pairwise (· < ·) ∧ (liballocTakes n s).length ≤ n ∧
      ∀ j ∈ liballocTakes n s, j < s.bound ∧ isPageFree s j = true := by
  induction n generalizing s with
  | zero => simp [liballocTakes]
  | succ n ih =>
      obtain ⟨hs', hp', hbound⟩ := sizes_vmmAllocPage hs hp
      obtain ⟨-, -, htakes⟩ | ⟨i, hi, -, hbits, -, htakes⟩ := liballocTakes_succ hs hp n
      · rw [htakes]
        simp
      · obtain ⟨hlt, hfree, hlow⟩ := findFreePage_eq_some.mp hi
        obtain ⟨hsorted, hlen, hall⟩ := ih hs' hp'
        -- what is taken later was free before, and is not `i`
        have hlater : ∀ j ∈ liballocTakes n (vmmAllocPage s).2,
            i < j ∧ j < s.bound ∧ isPageFree s j = true := by
          intro j hj
          obtain ⟨hjlt, hjfree⟩ := hall j hj
          rw [hbound] at hjlt
          rw [isPageFree_iff, hbits, Bitmap.test_set, Bool.or_eq_false_iff,
            decide_eq_false_iff_not] at hjfree
          have hjs : isPageFree s j = true := isPageFree_iff.mpr hjfree.2
          refine ⟨?_, hjlt, hjs⟩
          by_contra hle
          have := hlow j (by omega)
          rw [hjs] at this
          exact Bool.noConfusion this
        rw [htakes]
        split_ifs
        · simp [hlt, hfree]
        · refine ⟨List.pairwise_cons.mpr ⟨fun j hj => (hlater j hj).1, hsorted⟩,
            by simpa using hlen, ?_⟩
          intro j hj
          obtain rfl | hj := List.mem_cons.mp hj
          · exact ⟨hlt, hfree⟩
          · exact (hlater j hj).2

/-! ### What the call returns -/

/-- The pages whose calls of `vmm_alloc_page` returned an address. -/
def liballocKept (n : ℕ) (s : Vmm) : List ℕ :=
  (liballocTakes n s).filter fun i => decide (i ≠ 0x40000)

/-- Every one of the `n` calls returned an address. -/
def AllTaken (n : ℕ) (s : Vmm) : Prop :=
  (liballocTakes n s).length = n ∧ 0x40000 ∉ liballocTakes n s

instance (n : ℕ) (s : Vmm) : Decidable (AllTaken n s) := by
  unfold AllTaken
  infer_instance

/-- The first of the calls ends the loop, or the others are those that the state it leaves takes. -/
theorem liballocTakes_first {s : Vmm} (hs : s.pmm.bound < 2 ^ 20) (hp : s.bound < 2 ^ 20) (n : ℕ) :
    ((vmmAllocPage s).1 = 0 ∧ ¬ AllTaken (n + 1) s ∧ (liballocKept (n + 1) s).length = 0) ∨
    ((vmmAllocPage s).1 ≠ 0 ∧ (AllTaken (n + 1) s ↔ AllTaken n (vmmAllocPage s).2) ∧
      (liballocKept (n + 1) s).length = (liballocKept n (vmmAllocPage s).2).length + 1 ∧
      pageAddr ((liballocTakes (n + 1) s).headD 0) = (vmmAllocPage s).1) := by
  obtain ⟨hnull, -, htakes⟩ | ⟨j, -, hret, -, hzero, htakes⟩ := liballocTakes_succ hs hp n
  · refine Or.inl ⟨hnull, fun hall => ?_, ?_⟩
    · simp [AllTaken, htakes] at hall
    · rw [liballocKept, htakes]
      rfl
  · by_cases hnull : (vmmAllocPage s).1 = 0
    · -- page `0x40000`, whose address is null
      rw [if_pos hnull, hzero.mp hnull] at htakes
      refine Or.inl ⟨hnull, fun hall => ?_, ?_⟩
      · rw [AllTaken, htakes] at hall
        exact hall.2 List.mem_cons_self
      · rw [liballocKept, htakes]
        rfl
    · have hj : j ≠ 0x40000 := fun h => hnull (hzero.mpr h)
      rw [if_neg hnull] at htakes
      refine Or.inr ⟨hnull, ?_, ?_, ?_⟩
      · simp [AllTaken, htakes, Ne.symm hj]
      · rw [liballocKept, htakes]
        exact congrArg List.length
          (List.filter_cons_of_pos (p := fun i => decide (i ≠ 0x40000)) (decide_eq_true hj))
      · rw [htakes, hret]
        rfl

/-- The loop from its second page on. -/
theorem liballocAllocLoop_eq {s : Vmm} (hs : s.pmm.bound < 2 ^ 20) (hp : s.bound < 2 ^ 20)
    {n i : ℕ} (hi : 0 < i) (virt : UInt32) :
    liballocAllocLoop n i virt s =
      if AllTaken n s then (virt, liballocState n s)
      else (0, freePages virt (i + (liballocKept n s).length) 0 (liballocState n s)) := by
  induction n generalizing i s with
  | zero =>
      rw [if_pos ⟨rfl, by simp [liballocTakes]⟩]
      rfl
  | succ n ih =>
      obtain ⟨hs', hp', -⟩ := sizes_vmmAllocPage hs hp
      rw [liballocAllocLoop, liballocState]
      obtain ⟨hnull, hnot, hkept⟩ | ⟨hnull, hall, hkept, -⟩ := liballocTakes_first hs hp n
      · simp only [hnull, if_true, if_neg hnot, hkept, Nat.add_zero]
      · have hcount : i + (liballocKept (n + 1) s).length =
            i + 1 + (liballocKept n (vmmAllocPage s).2).length := by omega
        simp only [hnull, if_false, if_neg (Nat.ne_of_gt hi), ih hs' hp' (Nat.succ_pos i), hall,
          hcount]

/-- **What `liballoc_alloc` returns**: the first page, or, if not every page is there, null
after it has given back as many pages from the first one on as it had been given. -/
theorem liballocAllocLoop_first {s : Vmm} (hs : s.pmm.bound < 2 ^ 20) (hp : s.bound < 2 ^ 20)
    {n : ℕ} (hn : 0 < n) :
    liballocAllocLoop n 0 0 s =
      if AllTaken n s then (pageAddr ((liballocTakes n s).headD 0), liballocState n s)
      else (0, freePages (pageAddr ((liballocTakes n s).headD 0)) (liballocKept n s).length 0
        (liballocState n s)) := by
  obtain ⟨m, rfl⟩ : ∃ m, n = m + 1 := ⟨n - 1, by omega⟩
  obtain ⟨hs', hp', -⟩ := sizes_vmmAllocPage hs hp
  rw [liballocAllocLoop, liballocState]
  obtain ⟨hnull, hnot, hkept⟩ | ⟨hnull, hall, hkept, hhead⟩ := liballocTakes_first hs hp m
  · simp only [hnull, if_true, if_neg hnot, hkept]
    rfl
  · have hcount : (liballocKept (m + 1) s).length =
        0 + 1 + (liballocKept m (vmmAllocPage s).2).length := by omega
    simp only [hnull, if_false, if_true, liballocAllocLoop_eq hs' hp' (Nat.succ_pos 0), hall,
      hcount, hhead]

/-! ### The pages form a run -/

/-- A page below one that was taken was taken as well, if it was free. -/
theorem mem_liballocTakes_of_lt {s : Vmm} (hs : s.pmm.bound < 2 ^ 20) (hp : s.bound < 2 ^ 20)
    {n j k : ℕ} (hj : j ∈ liballocTakes n s) (hk : k < j) (hfree : isPageFree s k = true) :
    k ∈ liballocTakes n s := by
  induction n generalizing s with
  | zero => simp [liballocTakes] at hj
  | succ n ih =>
      obtain ⟨hs', hp', -⟩ := sizes_vmmAllocPage hs hp
      obtain ⟨-, -, htakes⟩ | ⟨i, hi, -, hbits, -, htakes⟩ := liballocTakes_succ hs hp n
      · rw [htakes] at hj
        cases hj
      · obtain ⟨-, -, hlow⟩ := findFreePage_eq_some.mp hi
        rw [htakes] at hj ⊢
        by_cases hki : k = i
        · exact hki ▸ List.mem_cons_self
        have hik : i < k := by
          by_contra hle
          rw [hlow k (by omega)] at hfree
          exact Bool.noConfusion hfree
        obtain rfl | hj := List.mem_cons.mp hj
        · omega
        · refine List.mem_cons_of_mem _ ?_
          split_ifs at hj ⊢
          · cases hj
          · refine ih hs' hp' hj ?_
            rw [isPageFree, hbits, Bitmap.test_set_of_ne (Ne.symm hki)]
            exact hfree

section Takes

variable {s : Vmm} {n i : ℕ}

theorem card_liballocTakes (hs : s.pmm.bound < 2 ^ 20) (hp : s.bound < 2 ^ 20) (n : ℕ) :
    (liballocTakes n s).toFinset.card = (liballocTakes n s).length :=
  List.toFinset_card_of_nodup
    ((liballocTakes_spec hs hp n).1.imp fun h => Nat.ne_of_lt h)

/-- No page below the lowest free one is taken. -/
theorem le_of_mem_liballocTakes (hs : s.pmm.bound < 2 ^ 20) (hp : s.bound < 2 ^ 20)
    (hi : findFreePage s = some i) {j : ℕ} (hj : j ∈ liballocTakes n s) : i ≤ j := by
  by_contra hlt
  have hfree := ((liballocTakes_spec hs hp n).2.2 j hj).2
  rw [(findFreePage_eq_some.mp hi).2.2 j (by omega)] at hfree
  exact Bool.noConfusion hfree

theorem length_liballocTakes_le (hs : s.pmm.bound < 2 ^ 20) (hp : s.bound < 2 ^ 20) (n : ℕ) :
    (liballocTakes n s).length ≤ s.bound := by
  rw [← card_liballocTakes hs hp n, ← Finset.card_range s.bound]
  refine Finset.card_le_card fun j hj => ?_
  exact Finset.mem_range.mpr ((liballocTakes_spec hs hp n).2.2 j (List.mem_toFinset.mp hj)).1

/-- The first page taken is the lowest free one. -/
theorem headD_liballocTakes (hs : s.pmm.bound < 2 ^ 20) (hp : s.bound < 2 ^ 20)
    (hi : findFreePage s = some i) (hne : (liballocTakes n s).length ≠ 0) :
    (liballocTakes n s).headD 0 = i := by
  cases n with
  | zero => exact absurd rfl hne
  | succ n =>
      obtain ⟨-, -, htakes⟩ | ⟨j, hj, -, -, -, htakes⟩ := liballocTakes_succ hs hp n
      · rw [htakes] at hne
        exact absurd rfl hne
      · rw [hi] at hj
        rw [htakes, ← Option.some.inj hj]
        rfl

/-- The pages taken are the run from the lowest free one on exactly if that run is free. -/
theorem liballocTakes_run_iff (hs : s.pmm.bound < 2 ^ 20) (hp : s.bound < 2 ^ 20)
    (hi : findFreePage s = some i) :
    FreeRun s (liballocTakes n s).length i ↔
      (liballocTakes n s).toFinset = Finset.Ico i (i + (liballocTakes n s).length) := by
  have hcard := card_liballocTakes hs hp n
  constructor
  · intro hrun
    refine (Finset.eq_of_subset_of_card_le (fun x hx => ?_) ?_).symm
    · rw [Finset.mem_Ico] at hx
      by_contra hnot
      -- otherwise all pages taken lie below `x`, and there are too many of them
      have hbelow : (liballocTakes n s).toFinset ⊆ Finset.Ico i x := fun y hy => by
        rw [List.mem_toFinset] at hy hnot
        refine Finset.mem_Ico.mpr ⟨le_of_mem_liballocTakes hs hp hi hy, ?_⟩
        by_contra hle
        have hxy : x ≠ y := fun heq => hnot (heq ▸ hy)
        have hfree := (hrun (x - i) (by omega)).2
        rw [show i + (x - i) = x by omega] at hfree
        exact hnot (mem_liballocTakes_of_lt hs hp hy (by omega) hfree)
      have := Finset.card_le_card hbelow
      rw [Nat.card_Ico, hcard] at this
      omega
    · rw [hcard, Nat.card_Ico]
      omega
  · intro heq k hk
    have hmem : i + k ∈ (liballocTakes n s).toFinset := by
      rw [heq, Finset.mem_Ico]
      omega
    exact (liballocTakes_spec hs hp n).2.2 _ (List.mem_toFinset.mp hmem)

end Takes

/-! ### Translations -/

theorem builds_liballocState {s : Vmm} (hs : s.pmm.bound < 2 ^ 20) (hp : s.bound < 2 ^ 20)
    (n : ℕ) : Builds s.paging (liballocState n s).paging := by
  induction n generalizing s with
  | zero => exact .refl
  | succ n ih =>
      obtain ⟨hs', hp', -⟩ := sizes_vmmAllocPage hs hp
      rw [liballocState]
      split_ifs
      · exact builds_vmmAllocPage hs
      · exact (builds_vmmAllocPage hs).trans (ih hs' hp')

theorem bound_liballocState {s : Vmm} (hs : s.pmm.bound < 2 ^ 20) (hp : s.bound < 2 ^ 20)
    (n : ℕ) : (liballocState n s).bound = s.bound := by
  induction n generalizing s with
  | zero => rfl
  | succ n ih =>
      obtain ⟨hs', hp', hbound⟩ := sizes_vmmAllocPage hs hp
      rw [liballocState]
      split_ifs
      · exact hbound
      · exact (ih hs' hp').trans hbound

/-- A page that is not taken, nor mirrored to one that is, keeps its translation. -/
theorem entry_liballocState_of_ne {s : Vmm} (hs : s.paging.Sound) (hp : s.bound < 2 ^ 20) {n a : ℕ}
    (ha : ∀ j ∈ liballocTakes n s, a ≠ j ∧ Unmirrored a j) :
    (liballocState n s).paging.entry (pageNum (pageAddr a)) =
      s.paging.entry (pageNum (pageAddr a)) := by
  induction n generalizing s with
  | zero => rfl
  | succ n ih =>
      obtain ⟨-, hp', -⟩ := sizes_vmmAllocPage (s := s) hs.bound_lt hp
      obtain ⟨hnull, hkeeps⟩ | ⟨i, b, hi, -, hgives⟩ := vmmAllocPage_gives hs
      · rw [liballocState, if_pos hnull]
        exact hkeeps.entry a trivial
      · have htaken := (hgives.page 0 Nat.one_pos).2.2
        obtain ⟨-, hbits, -⟩ | ⟨j, hj, -, -, -, htakes⟩ :=
          liballocTakes_succ (s := s) hs.bound_lt hp n
        · have hfree := (hgives.page 0 Nat.one_pos).2.1
          rw [isPageFree, hbits, ← isPageFree, hfree] at htaken
          exact Bool.noConfusion htaken
        · obtain rfl := Option.some.inj (hi.symm.trans hj)
          rw [htakes] at ha
          have hfirst := hgives.keeps.entry a fun k hk => by
            obtain rfl : k = 0 := by omega
            exact ha _ List.mem_cons_self
          rw [liballocState]
          split_ifs at ha ⊢
          · exact hfirst
          · exact (ih hgives.keeps.sound hp' fun j hj =>
              ha j (List.mem_cons_of_mem _ hj)).trans hfirst

/-- A page that is taken is mapped, to a block that the call has taken. -/
theorem frame_liballocState {s : Vmm} (hs : s.paging.Sound) (hp : s.bound < 2 ^ 20) {n a : ℕ}
    (ha : a ∈ liballocTakes n s) (hmirror : ∀ j ∈ liballocTakes n s, Unmirrored a j) :
    ∃ b, s.pmm.isFree b = true ∧ (liballocState n s).pmm.isUsed b = true ∧
      ∃ e, (liballocState n s).paging.entry (pageNum (pageAddr a)) = some e ∧
        pageBase e = blockAddr b := by
  induction n generalizing s with
  | zero => simp [liballocTakes] at ha
  | succ n ih =>
      obtain ⟨hs', hp', -⟩ := sizes_vmmAllocPage (s := s) hs.bound_lt hp
      have hsorted := (liballocTakes_spec (s := s) hs.bound_lt hp (n + 1)).1
      obtain ⟨-, -, htakes⟩ | ⟨i, hi, hret, hbits, -, htakes⟩ :=
        liballocTakes_succ (s := s) hs.bound_lt hp n
      · rw [htakes] at ha
        cases ha
      obtain ⟨-, hkeeps⟩ | ⟨j, b, hj, -, hgives⟩ := vmmAllocPage_gives hs
      · have hsame := hkeeps.free i trivial
        rw [isPageFree, hbits, Bitmap.test_set_self, (findFreePage_eq_some.mp hi).2.1] at hsame
        exact Bool.noConfusion hsame
      obtain rfl := Option.some.inj (hi.symm.trans hj)
      rw [htakes] at ha hmirror hsorted
      have hlater := (List.pairwise_cons.mp hsorted).1
      obtain ⟨hfree, hused, -⟩ := hgives.block 0 Nat.one_pos
      obtain ⟨e, he, hbase⟩ := hgives.frame 0 Nat.one_pos
      rw [liballocState]
      split_ifs at ha hmirror hlater ⊢ with hnull
      · obtain rfl := List.mem_singleton.mp ha
        exact ⟨b, hfree, hused, e, he, hbase⟩
      · obtain rfl | ha := List.mem_cons.mp ha
        · refine ⟨b, hfree, ?_, e, ?_, hbase⟩
          · exact ((builds_liballocState hs' hp' n).grows hs').used b hused
          · rw [entry_liballocState_of_ne hgives.keeps.sound hp' fun j hj =>
              ⟨Nat.ne_of_lt (hlater j hj), hmirror j (List.mem_cons_of_mem _ hj)⟩]
            exact he
        · obtain ⟨c, hcfree, hc⟩ := ih hgives.keeps.sound hp' ha fun j hj =>
            hmirror j (List.mem_cons_of_mem _ hj)
          obtain ⟨hlt, hunused⟩ := Pmm.isFree_iff.mp hcfree
          have hgrow := (builds_vmmAllocPage (s := s) hs.bound_lt).grows hs.bound_lt
          refine ⟨c, Pmm.isFree_iff.mpr ⟨?_, ?_⟩, hc⟩
          · rwa [← hgives.keeps.bound]
          · by_contra hu
            rw [Bool.not_eq_false] at hu
            have := hgrow.used c hu
            rw [Vmm.pmm, this] at hunused
            exact Bool.noConfusion hunused

/-! ### Giving pages back -/

theorem pageAddr_mod (x : ℕ) : pageAddr (x % 2 ^ 20) = pageAddr x := by
  apply UInt32.toNat_inj.mp
  rw [toNat_pageAddr, toNat_pageAddr]
  omega

/-- The pages below `0x40000` are those at and above `KERNEL_VMEM_START`. -/
theorem pageAddr_lt_iff {x : ℕ} (hx : x < 2 ^ 20) :
    pageAddr x < 0xC0000000 ↔ 0x40000 ≤ x := by
  have hwindow : (0xC0000000 : UInt32).toNat = 0xC0000000 := by decide
  rw [UInt32.lt_iff_toNat_lt, toNat_pageAddr, hwindow]
  omega

/-- `vmm_free_page` releases no page but the one it is given, and none past the window. -/
theorem isPageFree_vmmFreePage {s : Vmm} {x a : ℕ}
    (h : isPageFree (vmmFreePage s (pageAddr x)) a = true) :
    isPageFree s a = true ∨ a < 0x40000 ∧ a = x % 2 ^ 20 := by
  have hx : x % 2 ^ 20 < 2 ^ 20 := Nat.mod_lt _ (by decide)
  rw [← pageAddr_mod x, vmmFreePage_eq, pageIndex_pageAddr hx] at h
  split_ifs at h with hbad
  · exact Or.inl h
  · by_cases ha : a = x % 2 ^ 20
    · refine Or.inr ⟨?_, ha⟩
      by_contra hge
      exact hbad (Or.inr (Or.inr (Or.inl ((pageAddr_lt_iff hx).mpr (by omega)))))
    · refine Or.inl (Eq.trans ?_ h)
      exact congrArg not (Bitmap.test_clear_of_ne (Ne.symm ha)).symm

theorem isPageFree_freePages {s : Vmm} {i m j a : ℕ}
    (h : isPageFree (freePages (pageAddr i) m j s) a = true) :
    isPageFree s a = true ∨ a < 0x40000 ∧ ∃ k < j + m, a = (i + k) % 2 ^ 20 := by
  induction m generalizing j s with
  | zero => exact Or.inl h
  | succ m ih =>
      rw [freePages, pageAddr_add] at h
      obtain hfree | ⟨ha, k, hk, heq⟩ := ih h
      · obtain hfree | ⟨ha, heq⟩ := isPageFree_vmmFreePage hfree
        · exact Or.inl hfree
        · exact Or.inr ⟨ha, j, by omega, heq⟩
      · exact Or.inr ⟨ha, k, by omega, heq⟩

/-- `vmm_free_page` on a mapped page of the window. -/
theorem vmmFreePage_of_mapped {s : Vmm} {x : ℕ} (hx : x < 0x40000) (hb : x < s.bound)
    (hmapped : (s.paging.entry (pageNum (pageAddr x))).isSome) :
    vmmFreePage s (pageAddr x) =
      markPage (s.withPaging (pagingUnmapPage s.paging (pageAddr x))) x false := by
  have hx20 : x < 2 ^ 20 := by omega
  obtain ⟨e, he⟩ := Option.isSome_iff_exists.mp hmapped
  rw [vmmFreePage_eq, pageIndex_pageAddr hx20, if_neg]
  rintro (h | h | h | h | h)
  · rw [pageAddr_eq_zero_iff hx20] at h
    omega
  · exact h (pageAddr_offset x)
  · rw [pageAddr_lt_iff hx20] at h
    omega
  · rw [UInt32.le_iff_toNat_le, pageIndex_pageAddr hx20] at h
    exact absurd hb (Nat.not_lt.mpr h)
  · rw [virtToPhys_pageAddr he] at h
    exact pageBase_ne_max e h

/-- Giving back a mapped run of the window frees and unmaps it, and nothing else there. -/
theorem freePages_of_mapped {s : Vmm} {i m j : ℕ} (hs : s.paging.Sound)
    (hlt : i + j + m ≤ 0x40000) (hb : i + j + m ≤ s.bound)
    (hmapped : ∀ k, j ≤ k → k < j + m →
      (s.paging.entry (pageNum (pageAddr (i + k)))).isSome) :
    (∀ a, isPageFree (freePages (pageAddr i) m j s) a =
        (isPageFree s a || decide (i + j ≤ a ∧ a < i + j + m))) ∧
      ∀ a < 0x40000, (freePages (pageAddr i) m j s).paging.entry (pageNum (pageAddr a)) =
        if i + j ≤ a ∧ a < i + j + m then none else s.paging.entry (pageNum (pageAddr a)) := by
  induction m generalizing j s with
  | zero =>
      refine ⟨fun a => ?_, fun a _ => ?_⟩
      · rw [decide_eq_false (by omega), Bool.or_false, freePages]
      · rw [if_neg (by omega), freePages]
  | succ m ih =>
      have hstep := vmmFreePage_of_mapped (s := s) (x := i + j) (by omega) (by omega)
        (hmapped j le_rfl (by omega))
      have hentry : ∀ a < 0x40000,
          (vmmFreePage s (pageAddr (i + j))).paging.entry (pageNum (pageAddr a)) =
            if a = i + j then none else s.paging.entry (pageNum (pageAddr a)) := by
        intro a ha
        rw [hstep]
        refine (Paging.entry_unmap hs (pageNum_lt _)).trans ?_
        by_cases heq : a = i + j
        · rw [heq, if_pos (Or.inl rfl), if_pos rfl]
        · rw [if_neg (hs.slot_ne ⟨by omega, by omega, by omega, by omega⟩ heq), if_neg heq]
      have hsound : (vmmFreePage s (pageAddr (i + j))).paging.Sound := by
        rw [hstep]
        exact hs.unmap
      have hbound : (vmmFreePage s (pageAddr (i + j))).bound = s.bound :=
        congrArg UInt32.toNat (maxPages_vmmFreePage s _)
      rw [freePages, pageAddr_add]
      obtain ⟨hfree, hrest⟩ := ih (j := j + 1) hsound (by omega) (by omega) fun k hk hk' => by
        rw [hentry _ (by omega), if_neg (by omega)]
        exact hmapped k (by omega) (by omega)
      refine ⟨fun a => ?_, fun a ha => ?_⟩
      · rw [hfree, hstep, isPageFree]
        show (!Bitmap.test (Bitmap.clear s.bitmap (i + j)) a || _) = _
        rw [Bitmap.test_clear, Bool.not_and, ← isPageFree, Bool.or_assoc, Bool.not_not,
          Bool.or_left_comm, ← Bool.decide_or]
        congr 1
        rw [decide_eq_decide]
        omega
      · rw [hrest a ha, hentry a ha]
        by_cases hin : i + (j + 1) ≤ a ∧ a < i + (j + 1) + m
        · rw [if_pos hin, if_pos (by omega)]
        · rw [if_neg hin]
          by_cases heq : a = i + j
          · rw [if_pos heq, if_pos (by omega)]
          · rw [if_neg heq, if_neg (by omega)]

/-! ### One owned contiguous run -/

/-- The call returned the first of `n` pages, each of them free before, and taken and mapped
to a block of its own taking by the call. -/
def OwnsRun (s : Vmm) (n : ℕ) (r : UInt32 × Vmm) : Prop :=
  ∀ k < n, ∃ i < s.bound, r.1 + UInt32.ofNat k * 4096 = pageAddr i ∧
    isPageFree s i = true ∧ isPageFree r.2 i = false ∧
    ∃ b, s.pmm.isFree b = true ∧ r.2.pmm.isUsed b = true ∧
      ∃ e, r.2.paging.entry (pageNum (pageAddr i)) = some e ∧ pageBase e = blockAddr b

/-- The failed call gave back exactly the pages it had taken: the page bitmap is as before,
these pages are unmapped, and the pages of the window that others hold are not. -/
structure GivesBack (s : Vmm) (n : ℕ) (t : Vmm) : Prop where
  bitmap : t.bitmap = s.bitmap
  unmapped : ∀ i ∈ liballocTakes n s, t.paging.entry (pageNum (pageAddr i)) = none
  others : ∀ i < 0x40000, isPageFree s i = false →
    t.paging.entry (pageNum (pageAddr i)) = s.paging.entry (pageNum (pageAddr i))

/-- What a call of `liballoc_alloc` for `n` pages ought to do. -/
def SuppliesRun (s : Vmm) (n : ℕ) (r : UInt32 × Vmm) : Prop :=
  (r.1 ≠ 0 → OwnsRun s n r) ∧ (r.1 = 0 → GivesBack s n r.2)

/-- As many pages as the calls of `vmm_alloc_page` take, up to `n`, are free from the lowest
free page on; and if these are not all `n`, they do not reach beyond the window. -/
def Unbroken (s : Vmm) (n : ℕ) : Prop :=
  ∀ i, findFreePage s = some i →
    FreeRun s (liballocTakes n s).length i ∧
      (AllTaken n s ∨ (liballocTakes n s).length = 0 ∨
        i + (liballocTakes n s).length ≤ 0x40000)

section Supply

variable {s : Vmm} {n : ℕ}

/-- Without a free page nothing is taken. -/
theorem liballocTakes_of_none (h : findFreePage s = none) : liballocTakes n s = [] := by
  cases n with
  | zero => rfl
  | succ n => rw [liballocTakes, h, Option.elim]

theorem mem_of_allTaken (hs : s.pmm.bound < 2 ^ 20) (hp : s.bound < 2 ^ 20) (hn : 0 < n)
    (hall : AllTaken n s) : ∃ i, findFreePage s = some i ∧ i < 2 ^ 20 ∧ i ≠ 0x40000 ∧
      (liballocTakes n s).headD 0 = i := by
  have hne : (liballocTakes n s).length ≠ 0 := by
    rw [hall.1]
    omega
  cases hi : findFreePage s with
  | none =>
      rw [liballocTakes_of_none hi] at hne
      exact absurd rfl hne
  | some i =>
      have hhead := headD_liballocTakes hs hp hi hne
      refine ⟨i, rfl, lt_trans (findFreePage_eq_some.mp hi).1 hp, ?_, hhead⟩
      rintro rfl
      obtain ⟨x, l, hl⟩ := List.exists_cons_of_ne_nil (List.ne_nil_of_length_pos
        (Nat.pos_of_ne_zero hne))
      rw [hl] at hhead
      exact hall.2 (hl ▸ hhead ▸ List.mem_cons_self)

/-- A call that returned a run owns it only if the run was free. -/
theorem freeRun_of_ownsRun (hp : s.bound < 2 ^ 20) {i : ℕ}
    (hi : findFreePage s = some i) (hn : n ≤ s.bound) {t : Vmm}
    (howns : OwnsRun s n (pageAddr i, t)) : FreeRun s n i := by
  intro k hk
  obtain ⟨hlt, -, hlow⟩ := findFreePage_eq_some.mp hi
  obtain ⟨j, hj, haddr, hfree, -⟩ := howns k hk
  have hle : i ≤ j := by
    by_contra hlt'
    rw [hlow j (by omega)] at hfree
    exact Bool.noConfusion hfree
  have heq := congrArg UInt32.toNat haddr
  rw [pageAddr_add, toNat_pageAddr, toNat_pageAddr] at heq
  obtain rfl : j = i + k := by omega
  exact ⟨hj, hfree⟩

/-- A call that returned a run owns it if the run was free. -/
theorem ownsRun_of_freeRun (hs : s.paging.Sound) (hp : s.bound < 2 ^ 20) {i : ℕ}
    (hi : findFreePage s = some i) (hall : AllTaken n s)
    (hrun : FreeRun s (liballocTakes n s).length i) :
    OwnsRun s n (pageAddr i, liballocState n s) := by
  have hset := (liballocTakes_run_iff (s := s) hs.bound_lt hp hi).mp hrun
  have hmem : ∀ j, j ∈ liballocTakes n s ↔ i ≤ j ∧ j < i + n := by
    intro j
    rw [← List.mem_toFinset, hset, Finset.mem_Ico, hall.1]
  have hnull : ¬ (i ≤ 0x40000 ∧ 0x40000 < i + n) := fun h => hall.2 ((hmem _).mpr h)
  rw [hall.1] at hrun
  intro k hk
  obtain ⟨hlt, hfree⟩ := hrun k hk
  have hin : i + k ∈ liballocTakes n s := (hmem _).mpr (by omega)
  refine ⟨i + k, hlt, pageAddr_add i k, hfree, ?_, frame_liballocState hs hp hin fun j hj => ?_⟩
  · rw [isPageFree_liballocState hs.bound_lt hp, decide_eq_true hin, Bool.not_true, Bool.and_false]
  · rw [hmem] at hj
    have hjb := (hrun (j - i) (by omega)).1
    exact ⟨by omega, by omega, by omega, by omega⟩

/-- A failed call that gave back what it took had taken a run. -/
theorem run_of_givesBack (hs : s.pmm.bound < 2 ^ 20) (hp : s.bound < 2 ^ 20) {i m : ℕ}
    (hi : findFreePage s = some i) (hm : m ≤ (liballocTakes n s).length)
    (hback : (freePages (pageAddr i) m 0 (liballocState n s)).bitmap = s.bitmap) :
    FreeRun s (liballocTakes n s).length i ∧
      ((liballocTakes n s).length = 0 ∨ i + (liballocTakes n s).length ≤ 0x40000) := by
  have hlen := length_liballocTakes_le (s := s) hs hp n
  -- every page taken was given back, so it is one of those that `vmm_free_page` was given
  have hgiven : ∀ x ∈ liballocTakes n s, x < 0x40000 ∧ i ≤ x ∧ x < i + m := by
    intro x hx
    have hfree := ((liballocTakes_spec hs hp n).2.2 x hx).2
    have hle := le_of_mem_liballocTakes hs hp hi hx
    rw [isPageFree, ← hback, ← isPageFree] at hfree
    obtain hbefore | ⟨hlt, k, hk, heq⟩ := isPageFree_freePages hfree
    · rw [isPageFree_liballocState hs hp, decide_eq_true hx, Bool.not_true, Bool.and_false]
        at hbefore
      exact Bool.noConfusion hbefore
    · omega
  have hset : (liballocTakes n s).toFinset = Finset.Ico i (i + (liballocTakes n s).length) := by
    refine Finset.eq_of_subset_of_card_le (fun x hx => ?_) ?_
    · have := hgiven x (List.mem_toFinset.mp hx)
      rw [Finset.mem_Ico]
      omega
    · rw [card_liballocTakes hs hp, Nat.card_Ico]
      omega
  refine ⟨(liballocTakes_run_iff hs hp hi).mpr hset, ?_⟩
  obtain h0 | hpos := Nat.eq_zero_or_pos (liballocTakes n s).length
  · exact Or.inl h0
  · have hlast : i + (liballocTakes n s).length - 1 ∈ (liballocTakes n s).toFinset := by
      rw [hset, Finset.mem_Ico]
      omega
    have := (hgiven _ (List.mem_toFinset.mp hlast)).1
    omega

/-- A failed call that took nothing changes nothing. -/
theorem givesBack_of_nil (hs : s.paging.Sound) (hp : s.bound < 2 ^ 20)
    (hnil : liballocTakes n s = []) : GivesBack s n (liballocState n s) where
  bitmap := Bitmap.eq_of_test_eq fun j => by
    have := isPageFree_liballocState (s := s) hs.bound_lt hp n j
    rw [hnil] at this
    simpa [isPageFree] using this
  unmapped := fun i hi => by
    rw [hnil] at hi
    cases hi
  others := fun i hi _ => entry_liballocState_of_ne hs hp fun j hj => by
    rw [hnil] at hj
    cases hj

/-- A failed call that took a run inside the window gives it back. -/
theorem givesBack_of_run (hs : s.paging.Sound) (hp : s.bound < 2 ^ 20) {i : ℕ}
    (hi : findFreePage s = some i) (hrun : FreeRun s (liballocTakes n s).length i)
    (hlt : i + (liballocTakes n s).length ≤ 0x40000) :
    GivesBack s n (freePages (pageAddr i) (liballocTakes n s).length 0 (liballocState n s)) := by
  have hset := (liballocTakes_run_iff (s := s) hs.bound_lt hp hi).mp hrun
  have hmem : ∀ j, j ∈ liballocTakes n s ↔ i ≤ j ∧ j < i + (liballocTakes n s).length := by
    intro j
    rw [← List.mem_toFinset, hset, Finset.mem_Ico]
  have hunmirrored : ∀ a < 0x40000, ∀ j ∈ liballocTakes n s, Unmirrored a j := by
    intro a ha j hj
    rw [hmem] at hj
    exact ⟨by omega, by omega, by omega, by omega⟩
  have hbuild := builds_liballocState (s := s) hs.bound_lt hp n
  have hbound := bound_liballocState (s := s) hs.bound_lt hp n
  have hle : i + (liballocTakes n s).length ≤ s.bound := by
    obtain h0 | hpos := Nat.eq_zero_or_pos (liballocTakes n s).length
    · have := (findFreePage_eq_some.mp hi).1
      omega
    · have := (hrun ((liballocTakes n s).length - 1) (by omega)).1
      omega
  obtain ⟨hfree, hentry⟩ := freePages_of_mapped (i := i) (j := 0) (hbuild.sound hs) hlt
    (by rw [hbound]; exact hle) fun k _ hk => by
      obtain ⟨b, -, -, e, he, -⟩ := frame_liballocState hs hp ((hmem (i + k)).mpr (by omega))
        (hunmirrored (i + k) (by omega))
      rw [he]
      rfl
  refine ⟨Bitmap.eq_of_test_eq fun j => ?_, fun j hj => ?_, fun j hj hused => ?_⟩
  · have hsame : isPageFree (freePages (pageAddr i) (liballocTakes n s).length 0
        (liballocState n s)) j = isPageFree s j := by
      rw [hfree, isPageFree_liballocState hs.bound_lt hp]
      by_cases hin : j ∈ liballocTakes n s
      · have hrange := (hmem j).mp hin
        rw [decide_eq_true (show i + 0 ≤ j ∧ _ by omega), Bool.or_true,
          ((liballocTakes_spec (s := s) hs.bound_lt hp n).2.2 j hin).2]
      · have hrange : ¬ (i + 0 ≤ j ∧ j < i + 0 + (liballocTakes n s).length) := by
          rw [hmem] at hin
          omega
        rw [decide_eq_false hin, decide_eq_false hrange, Bool.not_false, Bool.and_true,
          Bool.or_false]
    exact Bool.not_inj hsame
  · rw [hentry j ((hmem j).mp hj |>.2.trans_le hlt), if_pos (by have := (hmem j).mp hj; omega)]
  · have hnot : j ∉ liballocTakes n s := fun hin => by
      rw [((liballocTakes_spec (s := s) hs.bound_lt hp n).2.2 j hin).2] at hused
      exact Bool.noConfusion hused
    rw [hentry j hj, if_neg (by rw [hmem] at hnot; omega)]
    exact entry_liballocState_of_ne hs hp fun x hx =>
      ⟨fun heq => hnot (heq ▸ hx), hunmirrored j hj x hx⟩

/-- What `liballoc_alloc` does, in terms of the pages taken. -/
theorem liballocAlloc_cases (hs : s.pmm.bound < 2 ^ 20) (hp : s.bound < 2 ^ 20) {n : Int32}
    (hn : 0 < n) :
    (∃ i, findFreePage s = some i ∧ AllTaken n.toUInt32.toNat s ∧
        liballocAlloc s n = (pageAddr i, liballocState n.toUInt32.toNat s) ∧ pageAddr i ≠ 0) ∨
      ¬ AllTaken n.toUInt32.toNat s ∧ (liballocAlloc s n) =
        (0, freePages (pageAddr ((liballocTakes n.toUInt32.toNat s).headD 0))
          (liballocKept n.toUInt32.toNat s).length 0 (liballocState n.toUInt32.toNat s)) := by
  have hpos : 0 < n.toUInt32.toNat := by
    refine toNat_pos_of_ne_zero fun h0 => ?_
    have hzero : n = 0 := congrArg UInt32.toInt32 h0
    exact absurd (hzero ▸ hn) (by decide)
  rw [liballocAlloc, if_neg (Int32.not_le.mpr hn), liballocAllocLoop_first hs hp hpos]
  by_cases hall : AllTaken n.toUInt32.toNat s
  · obtain ⟨i, hi, hi20, hne, hhead⟩ := mem_of_allTaken hs hp hpos hall
    rw [if_pos hall, hhead]
    refine Or.inl ⟨i, hi, hall, rfl, ?_⟩
    rw [ne_eq, pageAddr_eq_zero_iff hi20]
    exact hne
  · rw [if_neg hall]
    exact Or.inr ⟨hall, rfl⟩

/-- A call that does what it ought to has met an unbroken run. -/
theorem unbroken_of_suppliesRun (hs : s.pmm.bound < 2 ^ 20) (hp : s.bound < 2 ^ 20) {n : Int32}
    (hn : 0 < n) (h : SuppliesRun s n.toUInt32.toNat (liballocAlloc s n)) :
    Unbroken s n.toUInt32.toNat := by
  intro i hi
  obtain ⟨j, hj, hall, heq, hne⟩ | ⟨hall, heq⟩ := liballocAlloc_cases hs hp hn
  · obtain rfl := Option.some.inj (hi.symm.trans hj)
    rw [heq] at h
    have hlen := length_liballocTakes_le (s := s) hs hp n.toUInt32.toNat
    rw [hall.1] at hlen ⊢
    exact ⟨freeRun_of_ownsRun hp hi hlen (h.1 hne), Or.inl hall⟩
  · rw [heq] at h
    have hback := (h.2 rfl).bitmap
    obtain h0 | hpos := Nat.eq_zero_or_pos (liballocTakes n.toUInt32.toNat s).length
    · rw [h0]
      exact ⟨fun k hk => absurd hk (Nat.not_lt_zero k), Or.inr (Or.inl rfl)⟩
    · rw [headD_liballocTakes hs hp hi (by omega)] at hback
      obtain ⟨hrun, hlt⟩ := run_of_givesBack hs hp hi (List.length_filter_le _ _) hback
      exact ⟨hrun, Or.inr hlt⟩

/-- Over tables in order, a call that meets an unbroken run does what it ought to. -/
theorem suppliesRun_of_unbroken (hs : s.paging.Sound) (hp : s.bound < 2 ^ 20) {n : Int32}
    (hn : 0 < n) (h : Unbroken s n.toUInt32.toNat) :
    SuppliesRun s n.toUInt32.toNat (liballocAlloc s n) := by
  obtain ⟨i, hi, hall, heq, hne⟩ | ⟨hall, heq⟩ := liballocAlloc_cases (s := s) hs.bound_lt hp hn
  · rw [heq]
    exact ⟨fun _ => ownsRun_of_freeRun hs hp hi hall (h i hi).1, fun h0 => absurd h0 hne⟩
  · rw [heq]
    refine ⟨fun h0 => absurd rfl h0, fun _ => ?_⟩
    have hnil : (liballocTakes n.toUInt32.toNat s).length = 0 →
        GivesBack s n.toUInt32.toNat
          (freePages (pageAddr ((liballocTakes n.toUInt32.toNat s).headD 0))
            (liballocKept n.toUInt32.toNat s).length 0 (liballocState n.toUInt32.toNat s)) := by
      intro h0
      have hnil := List.length_eq_zero_iff.mp h0
      rw [liballocKept, hnil]
      exact givesBack_of_nil hs hp hnil
    cases hi : findFreePage s with
    | none =>
        exact hnil (by rw [liballocTakes_of_none hi, List.length_nil])
    | some i =>
        obtain ⟨hrun, hall' | h0 | hlt⟩ := h i hi
        · exact absurd hall' hall
        · exact hnil h0
        · by_cases h0 : (liballocTakes n.toUInt32.toNat s).length = 0
          · exact hnil h0
          · have hset := (liballocTakes_run_iff (s := s) hs.bound_lt hp hi).mp hrun
            have hkept : liballocKept n.toUInt32.toNat s = liballocTakes n.toUInt32.toNat s := by
              refine List.filter_eq_self.mpr fun j hj => decide_eq_true ?_
              rw [← List.mem_toFinset, hset, Finset.mem_Ico] at hj
              omega
            rw [headD_liballocTakes hs.bound_lt hp hi h0, hkept]
            exact givesBack_of_run hs hp hi hrun hlt

end Supply

/-- There, pages 0 and 1 are taken and page 0 is given back. -/
def brokenStart : Vmm :=
  (VmmCall.freePage 0xC0000000).next
    (VmmCall.allocPage.next (VmmCall.allocPage.next (smallStart 0x130000)))

theorem reachable_brokenStart : VmmReachable (smallBoot 0x130000) brokenStart := by
  have hboot : VmmReachable (smallBoot 0x130000) (smallStart 0x130000) := by
    rw [← kmain_smallBoot (by decide)]
    exact .boot
  exact .step (.freePage 0xC0000000) (.step .allocPage (.step .allocPage hboot))

end HalOS
