import HalOS.Mm.VmmRange

/-!
# User Pages

`vmm_map_userspace` and `vmm_alloc_userspace_pages` of `vmm.c`, beside all other calls of the two
memory managers. They pass `PAGE_USER` to `paging_map_page`, which puts it into the entry of the
page table alone: the entry of the directory that it makes for a new table is always present and
writable only. So user code reaches none of the pages.

The range ends at `USER_SPACE_END`, which is `0xBFFFFFFF` and not `0xC0000000`. It begins with the
last byte of a page, so the page at its end is not one that the call maps, and every call maps
the page before that one, which the first call has returned.

## Main results

* `UserRun.kernelOnly`: the directory has no entry for user code, in any run.
* `not_servesUser`: so no call serves user code.
* `entry_topPage`: every call puts a frame of its own where the last one's is.
* `entry_lastPage`: and it leaves the page of the last bytes as it was.
-/

namespace HalOS

open Paging (DirectoryGrows SameDirectory pdIndex_lt)

/-! ### The two functions -/

def vmmMapUserspace (s : Vmm) (virtAddr physAddr flags : UInt32) : Bool × Vmm :=
  if 0xC0000000 ≤ virtAddr then (false, s)
  else
    match pagingMapPage s.paging physAddr virtAddr (flags ||| 1 ||| 4) with
    | (ok, paging) => (ok, s.withPaging paging)

/-- `paging_unmap_page` on the pages `virt + j * PAGE_SIZE` for `n` values of `j`. -/
def unmapPages (virt : UInt32) : ℕ → ℕ → Paging → Paging
  | 0, _, s => s
  | n + 1, j, s => unmapPages virt n (j + 1) (pagingUnmapPage s (virt + UInt32.ofNat j * 4096))

def vmmAllocUserspacePages (s : Vmm) (pages : UInt32) : UInt32 × Vmm :=
  let virtAddr := 0xBFFFFFFF - pages * 4096
  match pmmAllocBlocks s.pmm pages with
  | (phys, pmm) =>
      let s := s.withPmm pmm
      if phys = 0 then (0, s)
      else
        match mapPages phys virtAddr (1 ||| 2 ||| 4) pages.toNat 0 s.paging with
        | (none, paging) => (virtAddr, s.withPaging paging)
        | (some i, paging) =>
            let s := s.withPaging (unmapPages virtAddr i 0 paging)
            (0, s.withPmm (pmmFreeBlocks s.pmm phys pages.toInt32))

/-- The frames that the call obtains begin here. -/
def userFrames (s : Vmm) (n : UInt32) : UInt32 := (pmmAllocBlocks s.pmm n).1

/-- The mapping loop of the call. -/
def userMap (s : Vmm) (n : UInt32) : Option ℕ × Paging :=
  mapPages (userFrames s n) (0xBFFFFFFF - n * 4096) (1 ||| 2 ||| 4) n.toNat 0
    { s.paging with pmm := (pmmAllocBlocks s.pmm n).2 }

/-- The three ways `vmm_alloc_userspace_pages` can end: no frames, pages, and a mapping that fails
at page `i` and is taken back. -/
theorem vmmAllocUserspacePages_cases (s : Vmm) (n : UInt32) :
    userFrames s n = 0 ∧ vmmAllocUserspacePages s n = (0, s.withPmm (pmmAllocBlocks s.pmm n).2) ∨
      userFrames s n ≠ 0 ∧ (userMap s n).1 = none ∧
        vmmAllocUserspacePages s n = (0xBFFFFFFF - n * 4096, s.withPaging (userMap s n).2) ∨
      userFrames s n ≠ 0 ∧ ∃ i, (userMap s n).1 = some i ∧
        vmmAllocUserspacePages s n =
          (0, (s.withPaging (unmapPages (0xBFFFFFFF - n * 4096) i 0 (userMap s n).2)).withPmm
            (pmmFreeBlocks (unmapPages (0xBFFFFFFF - n * 4096) i 0 (userMap s n).2).pmm
              (userFrames s n) n.toInt32)) := by
  have hmap : mapPages (pmmAllocBlocks s.pmm n).1 (0xBFFFFFFF - n * 4096) (1 ||| 2 ||| 4) n.toNat 0
      (s.withPmm (pmmAllocBlocks s.pmm n).2).paging = userMap s n := rfl
  rw [vmmAllocUserspacePages]
  simp only [hmap]
  split_ifs with hphys
  · exact Or.inl ⟨hphys, rfl⟩
  · cases hmapped : userMap s n with
    | mk failed paging =>
        cases failed with
        | none => exact Or.inr (Or.inl ⟨hphys, rfl, rfl⟩)
        | some i => exact Or.inr (Or.inr ⟨hphys, i, rfl, rfl⟩)

/-- A call that succeeds has mapped all pages. -/
theorem vmmAllocUserspacePages_of_ne_zero {s : Vmm} {n : UInt32}
    (hv : (vmmAllocUserspacePages s n).1 ≠ 0) :
    userFrames s n ≠ 0 ∧ (userMap s n).1 = none ∧
      vmmAllocUserspacePages s n = (0xBFFFFFFF - n * 4096, s.withPaging (userMap s n).2) := by
  rcases vmmAllocUserspacePages_cases s n with ⟨-, heq⟩ | hmaps | ⟨-, i, -, heq⟩
  · exact absurd (congrArg Prod.fst heq) hv
  · exact hmaps
  · exact absurd (congrArg Prod.fst heq) hv

/-! ### Runs with user pages -/

/-- The calls of both memory managers, those for user pages among them. -/
inductive UserCall
  | vmm (c : VmmCall)
  | pmm (c : PmmCall)
  | mapUserspace (virtAddr physAddr flags : UInt32)
  | allocUserspacePages (pages : UInt32)

namespace UserCall

/-- The state a call leaves. -/
def next (s : Vmm) : UserCall → Vmm
  | vmm c => c.next s
  | pmm c => s.withPmm (c.next s.pmm)
  | mapUserspace virtAddr physAddr flags => (vmmMapUserspace s virtAddr physAddr flags).2
  | allocUserspacePages n => (vmmAllocUserspacePages s n).2

/-- The call gives no block back that holds a page table. -/
def KeepsTables (s : Vmm) : UserCall → Prop
  | vmm c => c.KeepsTables s
  | pmm c => ∀ b < s.pmm.bound, s.paging.Holds (blockAddr b) → (c.next s.pmm).isUsed b = true
  | _ => True

/-- The user ranges returned before the call, and the one that it returns. -/
def given (s : Vmm) (ranges : List (UInt32 × UInt32)) : UserCall → List (UInt32 × UInt32)
  | allocUserspacePages n =>
      if (vmmAllocUserspacePages s n).1 = 0 then ranges
      else ((vmmAllocUserspacePages s n).1, n) :: ranges
  | _ => ranges

end UserCall

/-- The states that calls which give no page table back lead to after start-up, with the user
ranges (address and number of pages) that were returned on the way. -/
inductive UserRun (boot : Boot) : List (UInt32 × UInt32) → Vmm → Prop
  | boot : UserRun boot [] boot.kmain
  | step {ranges : List (UInt32 × UInt32)} {s : Vmm} (c : UserCall) :
      c.KeepsTables s → UserRun boot ranges s → UserRun boot (c.given s ranges) (c.next s)

/-! ### The directory over a run -/

theorem builds_userMap (s : Vmm) (n : UInt32) : Builds s.paging (userMap s n).2 :=
  (Builds.withPmm (grows_pmmAllocBlocks s.pmm n)).trans builds_mapPages

theorem Paging.Sound.unmapPages {s : Paging} (h : s.Sound) (virt : UInt32) (n j : ℕ) :
    (unmapPages virt n j s).Sound := by
  induction n generalizing j s with
  | zero => exact h
  | succ n ih => exact ih h.unmap (j + 1)

theorem directoryGrows_unmapPages {s : Paging} (h : s.Sound) (virt : UInt32) (n j : ℕ) :
    DirectoryGrows s (unmapPages virt n j s) := by
  induction n generalizing j s with
  | zero => exact .refl s
  | succ n ih =>
      exact (SameDirectory.unmap h.aligned (h.hasTable_of_present _)).grows.trans
        (ih h.unmap (j + 1))

/-- What a call for user pages does to the tables. -/
theorem tables_vmmAllocUserspacePages {s : Vmm} (hs : s.paging.Sound) (n : UInt32) :
    (vmmAllocUserspacePages s n).2.paging.Sound ∧
      DirectoryGrows s.paging (vmmAllocUserspacePages s n).2.paging := by
  have hgrow := Builds.withPmm (s := s.paging) (grows_pmmAllocBlocks s.pmm n)
  have hmap := builds_userMap s n
  rcases vmmAllocUserspacePages_cases s n with ⟨-, heq⟩ | ⟨-, -, heq⟩ | ⟨-, i, -, heq⟩
  · rw [heq]
    exact ⟨hgrow.sound hs, hgrow.directoryGrows hs⟩
  · rw [heq]
    exact ⟨hmap.sound hs, hmap.directoryGrows hs⟩
  · rw [heq, pmmFreeBlocks_eq]
    exact ⟨(hmap.sound hs).unmapPages _ _ _, (hmap.directoryGrows hs).trans
      (directoryGrows_unmapPages (hmap.sound hs) _ _ _)⟩

theorem tables_vmmMapUserspace {s : Vmm} (hs : s.paging.Sound) (v p f : UInt32) :
    (vmmMapUserspace s v p f).2.paging.Sound ∧
      DirectoryGrows s.paging (vmmMapUserspace s v p f).2.paging := by
  rw [vmmMapUserspace]
  split_ifs
  · exact ⟨hs, .refl _⟩
  · exact ⟨hs.map, hs.directoryGrows_map p v (f ||| 1 ||| 4)⟩

/-- The tables are in order, and their directory is not for user code. -/
structure UserSound (s : Vmm) : Prop where
  sound : s.paging.Sound
  bound_lt : s.bound < 2 ^ 20
  kernelOnly : s.paging.KernelOnly

theorem UserSound.next {s : Vmm} (h : UserSound s) {c : UserCall} (hc : c.KeepsTables s) :
    UserSound (c.next s) := by
  cases c with
  | vmm c =>
      refine ⟨sound_next h.sound h.bound_lt hc, ?_,
        (directoryGrows_next h.sound h.bound_lt c).kernelOnly h.kernelOnly⟩
      have hmax : (c.next s).maxPages = s.maxPages := (pagingRun_next h.sound.bound_lt c).2
      rw [Vmm.bound, UserCall.next, hmax]
      exact h.bound_lt
  | pmm c =>
      exact ⟨h.sound.withPmm (bound_next s.pmm c) fun b hb hheld _ => hc b hb hheld, h.bound_lt,
        h.kernelOnly⟩
  | mapUserspace v p f =>
      obtain ⟨hsound, hgrows⟩ := tables_vmmMapUserspace h.sound v p f
      refine ⟨hsound, ?_, hgrows.kernelOnly h.kernelOnly⟩
      rw [UserCall.next, vmmMapUserspace]
      split_ifs <;> exact h.bound_lt
  | allocUserspacePages n =>
      obtain ⟨hsound, hgrows⟩ := tables_vmmAllocUserspacePages h.sound n
      refine ⟨hsound, ?_, hgrows.kernelOnly h.kernelOnly⟩
      rw [UserCall.next]
      rcases vmmAllocUserspacePages_cases s n with ⟨-, heq⟩ | ⟨-, -, heq⟩ | ⟨-, i, -, heq⟩
      all_goals
        rw [heq]
        exact h.bound_lt

/-- **No run opens the directory to user code.** -/
theorem UserRun.userSound {boot : Boot} {ranges : List (UInt32 × UInt32)} {s : Vmm}
    (hdir : boot.kmain.paging.pageDirectory ≠ 0) (h : UserRun boot ranges s) : UserSound s := by
  induction h with
  | boot => exact ⟨Boot.kmain_sound hdir, boot.kmain_bound_lt, Boot.kernelOnly hdir⟩
  | step c hc _ ih => exact ih.next hc

/-! ### Serving user code -/

/-- `vmm_alloc_userspace_pages(n)` serves user code: the bytes of the range that it returns are
different bytes of the frames it has obtained, user code may reach them, and the pages of `ranges`,
which were returned before, keep their frames. -/
structure ServesUser (ranges : List (UInt32 × UInt32)) (s : Vmm) (n : UInt32) : Prop where
  own : ∀ i < n.toNat * 4096, ∃ j < n.toNat * 4096,
    virtToPhys (vmmAllocUserspacePages s n).2.paging
        ((vmmAllocUserspacePages s n).1 + UInt32.ofNat i) = userFrames s n + UInt32.ofNat j
  distinct : ∀ i < n.toNat * 4096, ∀ j < n.toNat * 4096,
    virtToPhys (vmmAllocUserspacePages s n).2.paging
        ((vmmAllocUserspacePages s n).1 + UInt32.ofNat i) =
      virtToPhys (vmmAllocUserspacePages s n).2.paging
        ((vmmAllocUserspacePages s n).1 + UInt32.ofNat j) → i = j
  user : ∀ i < n.toNat * 4096, ∀ v, v = (vmmAllocUserspacePages s n).1 + UInt32.ofNat i →
    (vmmAllocUserspacePages s n).2.paging.pde (pdIndex v) &&& 4 ≠ 0 ∧
      (vmmAllocUserspacePages s n).2.paging.pte (pdIndex v) (ptIndex v) &&& 4 ≠ 0
  kept : ∀ r ∈ ranges, ∀ k < r.2.toNat,
    (vmmAllocUserspacePages s n).2.paging.entry (pageNum (r.1 + UInt32.ofNat k * 4096)) =
      s.paging.entry (pageNum (r.1 + UInt32.ofNat k * 4096))

/-- No frames are obtained for no pages. -/
theorem userFrames_zero (s : Vmm) : userFrames s 0 = 0 := by
  have hv : validateAllocationRequest s.pmm 0 = false := by simp [validateAllocationRequest]
  rw [userFrames, pmmAllocBlocks, hv]
  rfl

/-- **User code is not served**: in every run, each call that succeeds returns pages which the
directory does not open to user code. -/
theorem not_servesUser (boot : Boot) (hdir : boot.kmain.paging.pageDirectory ≠ 0)
    (ranges : List (UInt32 × UInt32)) (s : Vmm) (h : UserRun boot ranges s) (n : UInt32)
    (hv : (vmmAllocUserspacePages s n).1 ≠ 0) : ¬ ServesUser ranges s n := by
  intro hserves
  obtain ⟨hs, -, hkernel⟩ := h.userSound hdir
  obtain ⟨hframes, hmapped, heq⟩ := vmmAllocUserspacePages_of_ne_zero hv
  obtain ⟨ht, hgrows⟩ := tables_vmmAllocUserspacePages hs n
  have hn : 0 < n.toNat := by
    by_contra hzero
    have : n = 0 := UInt32.toNat_inj.mp (Nat.le_zero.mp (Nat.not_lt.mp hzero))
    exact hframes (this ▸ userFrames_zero s)
  -- the page of the first byte is mapped, through an entry that is not for user code
  have hfirst : ((userMap s n).2.entry (pageNum (0xBFFFFFFF - n * 4096))).isSome := by
    have := isSome_entry_mapPages (hs.grow (grows_pmmAllocBlocks s.pmm n)) hmapped (Nat.zero_le 0)
      (k := 0) (by omega)
    rw [show UInt32.ofNat 0 * 4096 = 0 from by simp, UInt32.add_zero] at this
    exact this
  have hpde : (vmmAllocUserspacePages s n).2.paging.pde (pdIndex (0xBFFFFFFF - n * 4096)) &&& 4 =
      0 := by
    refine hgrows.kernelOnly hkernel _ (pdIndex_lt _) ?_
    rw [heq, pdIndex_eq]
    exact isPresent_of_isSome_entry hfirst
  refine (hserves.user 0 (by omega) _ rfl).1 ?_
  have haddr : (vmmAllocUserspacePages s n).1 + UInt32.ofNat 0 = 0xBFFFFFFF - n * 4096 := by
    rw [heq]
    simp
  rw [haddr]
  exact hpde

/-! ### Where the range lies -/

section Range

variable {phys virt f : UInt32} {n i : ℕ} {s : Paging}

/-- The last page that the mapping loop maps has the frame it was given. -/
theorem entry_mapPages_last (hs : s.Sound) (hok : (mapPages phys virt f (n + 1) i s).1 = none) :
    (mapPages phys virt f (n + 1) i s).2.entry (pageNum (virt + UInt32.ofNat (i + n) * 4096)) =
      some (pageBase (phys + UInt32.ofNat (i + n) * 4096) ||| f ||| 1) := by
  induction n generalizing i s with
  | zero =>
      have hentry := Paging.entry_map (p := phys + UInt32.ofNat i * 4096)
        (v := virt + UInt32.ofNat i * 4096) (f := f) hs
        (pageNum_lt (virt + UInt32.ofNat i * 4096))
      rw [mapPages] at hok ⊢
      cases hr : pagingMapPage s (phys + UInt32.ofNat i * 4096)
          (virt + UInt32.ofNat i * 4096) f with
      | mk ok t =>
          rw [hr] at hok hentry
          cases ok with
          | false => cases hok
          | true =>
              rw [Nat.add_zero]
              simpa [mapPages] using hentry
  | succ n ih =>
      have hsound := hs.map (p := phys + UInt32.ofNat i * 4096)
        (v := virt + UInt32.ofNat i * 4096) (f := f)
      rw [mapPages] at hok ⊢
      cases hr : pagingMapPage s (phys + UInt32.ofNat i * 4096)
          (virt + UInt32.ofNat i * 4096) f with
      | mk ok t =>
          rw [hr] at hok hsound
          cases ok with
          | false => cases hok
          | true =>
              have hnext : i + (n + 1) = i + 1 + n := by omega
              rw [hnext]
              exact ih hsound hok

/-- A page outside the first table and its twin keeps its entry if the loop does not map it. -/
theorem entry_mapPages_of_not_mapped (hs : s.Sound) {m : ℕ} (hm : m < 2 ^ 20)
    (htwin : m / 1024 ≠ 0 ∧ m / 1024 ≠ 768)
    (hne : ∀ k, i ≤ k → k < i + n → m ≠ pageNum (virt + UInt32.ofNat k * 4096)) :
    (mapPages phys virt f n i s).2.entry m = s.entry m := by
  induction n generalizing i s with
  | zero => rfl
  | succ n ih =>
      have hsound := hs.map (p := phys + UInt32.ofNat i * 4096)
        (v := virt + UInt32.ofNat i * 4096) (f := f)
      have hentry := Paging.entry_map (p := phys + UInt32.ofNat i * 4096)
        (v := virt + UInt32.ofNat i * 4096) (f := f) hs hm
      have hslot : ¬ (m = pageNum (virt + UInt32.ofNat i * 4096) ∨
          s.SameSlot m (pageNum (virt + UInt32.ofNat i * 4096))) := by
        rintro (heq | hsame)
        · exact hne i le_rfl (by omega) heq
        · rcases hs.eq_or_twin hm (pageNum_lt _) hsame with heq | ⟨hzero, -⟩ | ⟨hwindow, -⟩
          · exact hne i le_rfl (by omega) heq
          · exact htwin.1 hzero
          · exact htwin.2 hwindow
      rw [if_neg fun h => hslot h.2] at hentry
      rw [mapPages]
      cases hr : pagingMapPage s (phys + UInt32.ofNat i * 4096)
          (virt + UInt32.ofNat i * 4096) f with
      | mk ok t =>
          rw [hr] at hentry hsound
          cases ok with
          | false => exact hentry
          | true => exact (ih hsound fun k hk hk' => hne k (by omega) (by omega)).trans hentry

end Range

/-- Page `k` of the range. The address of its first byte is the last of a page. -/
theorem pageNum_userRange {n : UInt32} {k : ℕ} (hn : n.toNat * 4096 < 0xBFFFFFFF)
    (hk : k ≤ n.toNat) :
    pageNum (0xBFFFFFFF - n * 4096 + UInt32.ofNat k * 4096) = 0xBFFFF - n.toNat + k := by
  have hend : (0xBFFFFFFF : UInt32).toNat = 0xBFFFFFFF := by decide
  have hpage : (4096 : UInt32).toNat = 4096 := by decide
  have hsize : (n * 4096).toNat = n.toNat * 4096 := by
    rw [UInt32.toNat_mul, hpage, Nat.mod_eq_of_lt (by omega)]
  have hstart : (0xBFFFFFFF - n * 4096 : UInt32).toNat = 0xBFFFFFFF - n.toNat * 4096 := by
    rw [UInt32.toNat_sub_of_le _ _ (UInt32.le_iff_toNat_le.mpr (by omega)), hend, hsize]
  have hoffset : (UInt32.ofNat k * 4096).toNat = k * 4096 := by
    rw [UInt32.toNat_mul, UInt32.toNat_ofNat', hpage]
    omega
  rw [pageNum, UInt32.toNat_add, hstart, hoffset, Nat.mod_eq_of_lt (by omega)]
  omega

/-- **Every call takes the page of the last one**: the page below `USER_SPACE_END`'s is mapped to
the last frame of the call. -/
theorem entry_topPage {s : Vmm} (hs : s.paging.Sound) {n : UInt32}
    (hn : n.toNat * 4096 < 0xBFFFFFFF) (hpos : 0 < n.toNat)
    (hv : (vmmAllocUserspacePages s n).1 ≠ 0) :
    (vmmAllocUserspacePages s n).2.paging.entry 0xBFFFE =
      some (pageBase (userFrames s n + UInt32.ofNat (n.toNat - 1) * 4096) |||
        (1 ||| 2 ||| 4) ||| 1) := by
  obtain ⟨-, hmapped, heq⟩ := vmmAllocUserspacePages_of_ne_zero hv
  obtain ⟨m, hm⟩ := Nat.exists_eq_add_of_lt hpos
  have hpage := pageNum_userRange hn (k := m) (by omega)
  have htop : 0xBFFFF - n.toNat + m = 0xBFFFE := by omega
  have hlast : n.toNat - 1 = m := by omega
  rw [htop] at hpage
  rw [heq, hlast]
  rw [userMap, show n.toNat = m + 1 by omega] at hmapped
  have hentry := entry_mapPages_last (hs.grow (grows_pmmAllocBlocks s.pmm n)) hmapped
  rw [Nat.zero_add, hpage] at hentry
  rw [Vmm.withPaging, userMap, show n.toNat = m + 1 by omega]
  exact hentry

/-- **The page of the last bytes**, up to `USER_SPACE_END`, is not mapped by the call. -/
theorem entry_lastPage {s : Vmm} (hs : s.paging.Sound) {n : UInt32}
    (hn : n.toNat * 4096 < 0xBFFFFFFF) (hv : (vmmAllocUserspacePages s n).1 ≠ 0) :
    (vmmAllocUserspacePages s n).2.paging.entry 0xBFFFF = s.paging.entry 0xBFFFF := by
  obtain ⟨-, -, heq⟩ := vmmAllocUserspacePages_of_ne_zero hv
  rw [heq]
  refine entry_mapPages_of_not_mapped (hs.grow (grows_pmmAllocBlocks s.pmm n)) (by decide)
    (by decide) fun k _ hk => ?_
  rw [pageNum_userRange hn (by omega)]
  omega

/-! ### One user page of the small machine -/

theorem not_servesUser_one : ¬ ServesUser [] (smallBoot 0x130000).kmain 1 := by
  have hv : (vmmAllocUserspacePages (smallBoot 0x130000).kmain 1).1 ≠ 0 := by
    rw [kmain_smallBoot (by decide)]
    decide +kernel
  exact not_servesUser _ pageDirectory_smallBoot _ _ .boot _ hv

/-- The entry of the directory over the page at `0xBFFFEFFF` does not have `PAGE_USER`. -/
theorem not_servesUser_first :
    ¬ ∀ (boot : Boot) (ranges : List (UInt32 × UInt32)) (s : Vmm), UserRun boot ranges s →
      ∀ n : UInt32, 1 ≤ n.toNat → n.toNat * 4096 < 0xBFFFFFFF →
        (vmmAllocUserspacePages s n).1 ≠ 0 → ServesUser ranges s n := by
  intro hall
  have hboot : (smallBoot 0x130000).kmain = smallStart 0x130000 := kmain_smallBoot (by decide)
  have hrun : UserRun (smallBoot 0x130000) [] (smallStart 0x130000) := hboot ▸ .boot
  have hserves := hall _ _ _ hrun 1 (by decide) (by decide) (by decide +kernel)
  exact (hserves.user 0 (by decide) _ rfl).1 (by decide +kernel)

end HalOS
