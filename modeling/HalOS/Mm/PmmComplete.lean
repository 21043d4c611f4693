import HalOS.Mm.PmmReserved

/-!
# What the Allocators do not Find

An allocator should fail when there is no room and only then. Four things stand in the way: the
block whose address is zero, which is also the failure; the blocks behind the last whole byte of the
bitmap, which `pmm_alloc_block` does not look at; the test of the counter; and the second pass of
`pmm_alloc_blocks`, which goes on with the count of the first.

`pmm_alloc_blocks_in_range` rounds its lower bound up in 32 bits, so that a bound in the last page
becomes zero.

## Main results

* `findsMemory_iff`: when the three allocators fail exactly if there is no room.
* `staysInRange_iff`: when the fourth stays in its range.
-/

namespace HalOS

open Loop (IsRun)

/-! ### Room -/

namespace Pmm

/-- There are so many free blocks in a row. -/
def HasRun (s : Pmm) (n : ℕ) : Prop := ∃ start, IsRun s.isFree n start

theorem isRun_one {s : Pmm} {b : ℕ} : IsRun s.isFree 1 b ↔ s.isFree b = true := by
  refine ⟨fun h => h 0 Nat.one_pos, fun h i hi => ?_⟩
  obtain rfl := Nat.lt_one_iff.mp hi
  exact h

theorem hasRun_one_iff {s : Pmm} : s.HasRun 1 ↔ ∃ b, s.isFree b = true :=
  exists_congr fun _ => isRun_one

end Pmm

/-- The call fails if there is no such run of blocks and only then, and changes nothing if it
fails. -/
def PmmCall.FindsRun (s : Pmm) (c : PmmCall) (n : ℕ) : Prop :=
  ((c.run s).1 = 0 ↔ ¬ s.HasRun n) ∧
    ((c.run s).1 = 0 → (c.run s).2.memoryMap = s.memoryMap ∧
      (c.run s).2.usedBlocks = s.usedBlocks)

/-- It fails if there is no such run, and does otherwise not. -/
theorem PmmCall.findsRun_iff {s : Pmm} {c : PmmCall} {n : ℕ}
    (hfails : ¬ s.HasRun n → (c.run s).1 = 0 → (c.run s).2 = s) :
    c.FindsRun s n ↔ ((c.run s).1 = 0 ↔ ¬ s.HasRun n) := by
  refine ⟨And.left, fun h => ⟨h, fun hnull => ?_⟩⟩
  rw [hfails (h.mp hnull) hnull]
  exact ⟨rfl, rfl⟩

/-! ### One block -/

/-- If a block is free, the counter says so, block 0 is not, and one that is lies in a whole byte of
the bitmap. -/
def Pmm.BlockInSight (s : Pmm) : Prop :=
  s.HasRun 1 → s.usedBlocks < s.maxBlocks ∧ s.isFree 0 = false ∧
    ∃ b < s.bound / 8 * 8, s.isFree b = true

section

variable {s : Pmm}

theorem blockAddr_eq_zero_iff {b : ℕ} (h : b < 2 ^ 20) : blockAddr b = 0 ↔ b = 0 := by
  refine ⟨fun h0 => ?_, fun h0 => h0 ▸ rfl⟩
  by_contra hb
  exact blockAddr_ne_zero (Nat.pos_of_ne_zero hb) h h0

theorem pmmAllocBlock_eq_zero_iff (hs : s.bound < 2 ^ 20) :
    (pmmAllocBlock s).1 = 0 ↔ s.firstFree = none ∨ s.firstFree = some 0 := by
  rw [pmmAllocBlock_eq]
  cases hfirst : s.firstFree with
  | none => simp
  | some b =>
      have hb : b < s.bound := (Pmm.isFree_iff.mp (isFree_of_firstFree hfirst)).1
      simp [blockAddr_eq_zero_iff (hb.trans hs)]

/-- The first free block is not block 0 if there is one in sight. -/
theorem Pmm.BlockInSight.firstFree (h : s.BlockInSight) (hrun : s.HasRun 1) :
    ∃ b, b ≠ 0 ∧ s.firstFree = some b := by
  obtain ⟨hcount, hzero, b, hb, hfree⟩ := h hrun
  rw [Pmm.firstFree, if_neg (UInt32.not_le.mpr hcount)]
  cases hfind : (List.range' 0 (s.bound / 8 * 8)).find? fun b => !s.isUsed b with
  | none =>
      have hused := List.find?_range'_eq_none.mp hfind b (Nat.zero_le b) (by omega)
      simp [(Pmm.isFree_iff.mp hfree).2] at hused
  | some c =>
      refine ⟨c, ?_, rfl⟩
      rintro rfl
      have hclear := (List.find?_range'_eq_some.mp hfind).1
      have hbound : 0 < s.bound := by omega
      simp [Pmm.isFree, hbound] at hzero
      simp [hzero] at hclear

theorem blockInSight_of_firstFree {b : ℕ} (hfirst : s.firstFree = some b) (hb : b ≠ 0) :
    s.BlockInSight := by
  intro _
  have hfree := isFree_of_firstFree hfirst
  rw [Pmm.firstFree] at hfirst
  by_cases hcount : s.maxBlocks ≤ s.usedBlocks
  · rw [if_pos hcount] at hfirst
    cases hfirst
  · rw [if_neg hcount] at hfirst
    obtain ⟨-, hmem, hbefore⟩ := List.find?_range'_eq_some.mp hfirst
    have hlt := (List.mem_range'_1.mp hmem).2
    rw [Nat.zero_add] at hlt
    refine ⟨UInt32.not_le.mp hcount, ?_, b, hlt, hfree⟩
    have hused := hbefore 0 le_rfl (Nat.pos_of_ne_zero hb)
    simp only [Bool.not_not] at hused
    simp [Pmm.isFree, hused]

/-- **`pmm_alloc_block`** finds a block if one is in sight. -/
theorem findsRun_allocBlock_iff (hs : s.bound < 2 ^ 20) :
    PmmCall.FindsRun s .allocBlock 1 ↔ s.BlockInSight := by
  have hnone : ¬ s.HasRun 1 → s.firstFree = none := by
    intro hrun
    refine Option.eq_none_iff_forall_ne_some.mpr fun b hfirst => ?_
    exact hrun (Pmm.hasRun_one_iff.mpr ⟨b, isFree_of_firstFree hfirst⟩)
  rw [PmmCall.findsRun_iff fun hrun _ => by
    rw [PmmCall.run, pmmAllocBlock_eq, hnone hrun]]
  rw [PmmCall.run, pmmAllocBlock_eq_zero_iff hs]
  constructor
  · intro h hrun
    cases hfirst : s.firstFree with
    | none => exact absurd hrun (h.mp (Or.inl hfirst))
    | some b =>
        refine blockInSight_of_firstFree hfirst ?_ hrun
        rintro rfl
        exact h.mp (Or.inr hfirst) hrun
  · intro h
    refine ⟨fun hnull hrun => ?_, fun hrun => Or.inl (hnone hrun)⟩
    obtain ⟨b, hb, hfirst⟩ := h.firstFree hrun
    rcases hnull with hnull | hnull
    · cases hfirst.symm.trans hnull
    · exact hb (Option.some.inj (hfirst.symm.trans hnull))

/-! ### Blocks in a row -/

theorem isFree_lt_of_isRun {n start : ℕ} (hn : 0 < n) (h : IsRun s.isFree n start) :
    start < s.bound := by
  have := Pmm.le_bound_of_isRun hn h
  omega

theorem firstRun_eq_none_iff {n : ℕ} (hn : 0 < n) : s.firstRun n = none ↔ ¬ s.HasRun n := by
  rw [Pmm.firstRun, List.find?_range'_eq_none]
  constructor
  · rintro h ⟨start, hrun⟩
    have hall := all_range'_iff_isRun.mpr hrun
    have := h start (Nat.zero_le start) (by simpa using isFree_lt_of_isRun hn hrun)
    rw [hall] at this
    cases this
  · intro h start _ _
    cases hall : (List.range' 0 n).all fun j => s.isFree (start + j) with
    | false => rfl
    | true => exact absurd ⟨start, all_range'_iff_isRun.mp hall⟩ h

theorem firstRun_eq_zero_iff {n : ℕ} (hn : 0 < n) :
    s.firstRun n = some 0 ↔ IsRun s.isFree n 0 := by
  refine ⟨isRun_of_firstRun, fun h => ?_⟩
  have hmem : 0 ∈ List.range' 0 s.bound :=
    List.mem_range'_1.mpr ⟨le_rfl, by simpa using isFree_lt_of_isRun hn h⟩
  exact List.find?_range'_eq_some.mpr ⟨all_range'_iff_isRun.mpr h, hmem, by omega⟩

/-- It fails if there is no room, or if it finds some at address zero. -/
theorem pmmAllocContiguous_eq_zero_iff (hs : s.bound < 2 ^ 20) {n : UInt32} (hn : n ≠ 0) :
    (pmmAllocContiguous s n).1 = 0 ↔ ¬ s.HasRun n.toNat ∨ IsRun s.isFree n.toNat 0 := by
  have hpos := toNat_pos_of_ne_zero hn
  rw [pmmAllocContiguous_eq]
  by_cases hmax : s.maxBlocks < n
  · have hnone : ¬ s.HasRun n.toNat := by
      rintro ⟨start, hrun⟩
      have hle := Pmm.le_bound_of_isRun hpos hrun
      have hlt : s.bound < n.toNat := UInt32.lt_iff_toNat_lt.mp hmax
      omega
    rw [if_pos (Or.inr hmax)]
    exact iff_of_true rfl (Or.inl hnone)
  · rw [if_neg (not_or.mpr ⟨hn, hmax⟩), ← firstRun_eq_none_iff hpos, ← firstRun_eq_zero_iff hpos]
    cases hfirst : s.firstRun n.toNat with
    | none => simp
    | some start =>
        have hlt := isFree_lt_of_isRun hpos (isRun_of_firstRun hfirst)
        simp [blockAddr_eq_zero_iff (hlt.trans hs)]

/-- **`pmm_alloc_contiguous`** finds blocks in a row if those from 0 on are not free. -/
theorem findsRun_allocContiguous_iff (hs : s.bound < 2 ^ 20) {n : UInt32} (hn : n ≠ 0) :
    PmmCall.FindsRun s (.allocContiguous n) n.toNat ↔ ¬ IsRun s.isFree n.toNat 0 := by
  have hpos := toNat_pos_of_ne_zero hn
  have hsame : ¬ s.HasRun n.toNat → (pmmAllocContiguous s n).2 = s := by
    intro hrun
    rw [pmmAllocContiguous_eq, (firstRun_eq_none_iff hpos).mpr hrun]
    split_ifs with h <;> rfl
  rw [PmmCall.findsRun_iff (c := .allocContiguous n) fun hrun _ => hsame hrun, PmmCall.run,
    pmmAllocContiguous_eq_zero_iff hs hn]
  constructor
  · exact fun h hzero => h.mp (Or.inr hzero) ⟨0, hzero⟩
  · exact fun h => ⟨fun hnull => hnull.resolve_right h, Or.inl⟩

/-! ### The search in two passes -/

/-- `pmm_alloc_blocks` takes the blocks from 0 on: they are free, and the first pass does not come
to others. -/
def Pmm.TakesFromZero (s : Pmm) (n : ℕ) : Prop :=
  IsRun s.isFree n 0 ∧ ¬ s.WrapsRound n ∧
    (s.lastAlloc = 0 ∨ ∀ start, s.lastAlloc.toNat ≤ start → ¬ IsRun s.isFree n start)

/-- What `pmm_alloc_blocks` comes to when the request is valid and the search does not wrap
round. -/
theorem pmmAllocBlocks_eq_zero_iff (hs : s.bound < 2 ^ 20) {n : UInt32}
    (hv : validateAllocationRequest s n = true) (hwrap : ¬ s.WrapsRound n.toNat) :
    (pmmAllocBlocks s n).1 = 0 ↔ ¬ s.HasRun n.toNat ∨ s.TakesFromZero n.toNat := by
  have hpos := (le_bound_of_validate hv).1
  rcases pmmAllocBlocks_cases hv with ⟨-, heq, hnone⟩ | ⟨-, start, heq, hrun, hfirst, hzero⟩ | h
  · rw [heq]
    refine iff_of_true rfl (Or.inl ?_)
    rintro ⟨start, hrun⟩
    exact hnone start hrun
  · have hlt := (isFree_lt_of_isRun hpos hrun).trans hs
    rw [heq, takeRun, blockAddr_eq_zero_iff hlt]
    constructor
    · rintro rfl
      exact Or.inr ⟨hrun, hwrap, hfirst.imp_left fun h =>
        UInt32.toNat_inj.mp (Nat.le_zero.mp h)⟩
    · rintro (hnone | ⟨hrun0, -, hlast⟩)
      · exact absurd ⟨start, hrun⟩ hnone
      · refine (hzero hrun0).resolve_right ?_
        rintro ⟨hpos', hle⟩
        rcases hlast with hlast | hlast
        · rw [hlast] at hpos'
          exact absurd hpos' (Nat.lt_irrefl 0)
        · exact hlast start hle hrun
  · exact absurd h.1 hwrap

/-- What the search needs: with room, the request is valid and the blocks from 0 on are not those it
comes to; without, it does not wrap round. -/
def Pmm.RunInSight (s : Pmm) (n : UInt32) : Prop :=
  (s.HasRun n.toNat → validateAllocationRequest s n = true ∧ ¬ s.TakesFromZero n.toNat) ∧
    (¬ s.HasRun n.toNat → validateAllocationRequest s n = true → ¬ s.WrapsRound n.toNat)

/-- A search that wraps round does not fail. -/
theorem pmmAllocBlocks_ne_zero_of_wrapsRound (hs : s.bound < 2 ^ 20) {n : UInt32}
    (hv : validateAllocationRequest s n = true) (hwrap : s.WrapsRound n.toNat) :
    (pmmAllocBlocks s n).1 ≠ 0 := by
  have hle := (le_bound_of_validate hv).2
  rcases pmmAllocBlocks_cases hv with h | h | ⟨-, c, start, hc, hcn, hend, heq⟩
  · exact absurd hwrap h.1
  · exact absurd hwrap h.1
  · rw [heq]
    exact blockAddr_ne_zero (by omega) (by omega)

/-- **`pmm_alloc_blocks`** finds blocks in a row if they are in sight. -/
theorem findsRun_allocBlocks_iff (hs : s.bound < 2 ^ 20) (n : UInt32) :
    PmmCall.FindsRun s (.allocBlocks n) n.toNat ↔ s.RunInSight n := by
  have htakes : s.TakesFromZero n.toNat → s.HasRun n.toNat ∧ ¬ s.WrapsRound n.toNat :=
    fun h => ⟨⟨0, h.1⟩, h.2.1⟩
  cases hv : validateAllocationRequest s n with
  | false =>
      have heq : pmmAllocBlocks s n = (0, s) := by
        simp only [pmmAllocBlocks, hv, Bool.not_false, if_true]
      rw [PmmCall.findsRun_iff (s := s) (c := .allocBlocks n) fun _ _ => congrArg Prod.snd heq,
        PmmCall.run, heq, Pmm.RunInSight, hv]
      simp
  | true =>
      have hsame : ¬ s.HasRun n.toNat → (pmmAllocBlocks s n).1 = 0 →
          (pmmAllocBlocks s n).2 = s := by
        intro hnone hnull
        rcases pmmAllocBlocks_cases hv with ⟨-, heq, -⟩ | ⟨-, start, -, hrun, -⟩ | ⟨hwrap, -⟩
        · rw [heq]
        · exact absurd ⟨start, hrun⟩ hnone
        · exact absurd hnull (pmmAllocBlocks_ne_zero_of_wrapsRound hs hv hwrap)
      rw [PmmCall.findsRun_iff (c := .allocBlocks n) hsame, PmmCall.run, Pmm.RunInSight, hv]
      by_cases hwrap : s.WrapsRound n.toNat
      · have hne := pmmAllocBlocks_ne_zero_of_wrapsRound hs hv hwrap
        tauto
      · rw [pmmAllocBlocks_eq_zero_iff hs hv hwrap]
        tauto

/-! ### All three -/

/-- The three allocators fail exactly if there is no room, and change nothing then. -/
def Pmm.FindsMemory (s : Pmm) : Prop :=
  PmmCall.FindsRun s .allocBlock 1 ∧ ∀ n : UInt32, n ≠ 0 →
    PmmCall.FindsRun s (.allocBlocks n) n.toNat ∧ PmmCall.FindsRun s (.allocContiguous n) n.toNat

/-- **The allocators find memory whenever there is some** if it is in sight. -/
theorem findsMemory_iff {s : Pmm} (hs : PmmReachable s) :
    s.FindsMemory ↔ s.BlockInSight ∧ ∀ n : UInt32, n ≠ 0 →
      s.RunInSight n ∧ ¬ IsRun s.isFree n.toNat 0 := by
  have hbound := hs.bound_lt
  refine and_congr (findsRun_allocBlock_iff hbound) (forall₂_congr fun n hn => ?_)
  exact and_congr (findsRun_allocBlocks_iff hbound n) (findsRun_allocContiguous_iff hbound hn)

/-! ### With a counter that is right -/

/-- A counter that is right leaves room for every run. -/
theorem Pmm.Accounted.add_le (h : s.Accounted) {n : ℕ} (hn : 0 < n) (hrun : s.HasRun n) :
    s.usedBlocks.toNat + n ≤ s.bound := by
  obtain ⟨start, hrun⟩ := hrun
  have hcard := Bitmap.card_members_setRun (Pmm.le_bound_of_isRun hn hrun) fun k hk =>
    Pmm.isUsed_eq_false_of_isFree (hrun k hk)
  rw [h.counted, Pmm.usedSet, ← hcard]
  exact Bitmap.card_members_le _ _

/-- Where the counter is right and block 0 is taken, blocks in a row are always in sight. -/
theorem Pmm.Accounted.runInSight (h : s.Accounted) (hinit : s.initialized = true)
    (hzero : s.isUsed 0 = true) {n : UInt32} (hn : n ≠ 0) :
    s.RunInSight n ∧ ¬ IsRun s.isFree n.toNat 0 := by
  have hpos := toNat_pos_of_ne_zero hn
  have hnot : ∀ m, 0 < m → ¬ IsRun s.isFree m 0 := by
    intro m hm hrun
    cases hzero.symm.trans (Pmm.isUsed_eq_false_of_isFree (hrun 0 hm))
  refine ⟨⟨fun hrun => ⟨?_, fun htakes => hnot _ hpos htakes.1⟩, fun _ _ hwrap => ?_⟩, hnot _ hpos⟩
  · have hle := h.add_le hpos hrun
    have hword := s.bound_lt_word
    have hsum : s.usedBlocks.toNat + n.toNat < 2 ^ 32 := by omega
    have hmax : ¬ s.maxBlocks < n := by
      rw [UInt32.not_lt, UInt32.le_iff_toNat_le]
      exact le_of_add_le_right hle
    have hroom : ¬ s.maxBlocks < s.usedBlocks + n := by
      rw [UInt32.not_lt, UInt32.le_iff_toNat_le, UInt32.toNat_add, Nat.mod_eq_of_lt hsum]
      exact hle
    simp [validateAllocationRequest, hinit, hn, hmax, hroom]
  · obtain ⟨-, c, -, hcn, -, -, hhead⟩ := hwrap
    exact hnot _ (by omega) hhead

/-- There a block is in sight if one that is free lies in a whole byte of the bitmap. -/
theorem Pmm.Accounted.blockInSight (h : s.Accounted) (hzero : s.isUsed 0 = true)
    (hwhole : ∀ b, s.isFree b = true → ∃ c < s.bound / 8 * 8, s.isFree c = true) :
    s.BlockInSight := by
  intro hrun
  have hlt : s.usedBlocks < s.maxBlocks := by
    have := h.add_le Nat.one_pos hrun
    rw [UInt32.lt_iff_toNat_lt]
    exact this
  obtain ⟨b, hb⟩ := Pmm.hasRun_one_iff.mp hrun
  refine ⟨hlt, ?_, hwhole b hb⟩
  simp [Pmm.isFree, hzero]

end

/-! ### Two machines -/

/-- After `pmm_init` the free blocks are those it does not mark. -/
theorem PmmStart.isFree_state_iff (m : PmmStart) (hsize : m.memSize ≠ 0) (hmap : m.bitmap ≠ 0)
    {b : ℕ} :
    m.state.isFree b = true ↔ b < ((m.memSize + 4095) / 4096).toNat ∧ ¬ m.Marked b := by
  rw [Pmm.isFree_iff, ← m.blocks_eq hsize hmap]
  refine and_congr_right fun hb => ?_
  rw [← m.isUsed_state hsize hb, Bool.not_eq_true]

/-- With 2 MiB the number of blocks is a multiple of eight, and after `pmm_init` the allocators find
memory whenever there is some. -/
theorem findsMemory_alignedStart : alignedStart.state.FindsMemory := by
  have haccounted : alignedStart.state.Accounted := accounted_pmmInit _ _ _ _
  have hbound : alignedStart.state.bound = 512 := alignedStart.blocks_eq (by decide) (by decide)
  have hzero : alignedStart.state.isUsed 0 = true := by
    refine (alignedStart.isUsed_state (by decide) ?_).mpr (by decide)
    rw [PmmStart.blocks, hbound]
    decide
  refine (findsMemory_iff (.init _ _ _ _)).mpr ⟨haccounted.blockInSight hzero fun b hb => ?_,
    fun n hn => haccounted.runInSight rfl hzero hn⟩
  have hlt := (Pmm.isFree_iff.mp hb).1
  rw [hbound] at hlt ⊢
  exact ⟨b, hlt, hb⟩

/-- 16 KiB behind the first megabyte, with a kernel of one block and the bitmap behind it. -/
def oddStart : PmmStart where
  kernel := ⟨0x100000, 0x101000⟩
  memSize := 0x104000
  bitmap := 0x101000
  bytes := fun _ => 0

/-- Blocks 258 and 259 are free there, but the bitmap's whole bytes end with block 255:
`pmm_alloc_block` fails. -/
theorem not_findsMemory_oddStart : PmmReachable oddStart.state ∧ ¬ oddStart.state.FindsMemory := by
  have hreach : PmmReachable oddStart.state := .init _ _ _ _
  have hbound : oddStart.state.bound = 260 := oddStart.blocks_eq (by decide) (by decide)
  have hfree : oddStart.state.isFree 258 = true :=
    (oddStart.isFree_state_iff (by decide) (by decide)).mpr (by decide)
  refine ⟨hreach, fun h => ?_⟩
  obtain ⟨-, -, b, hb, hbfree⟩ :=
    (findsRun_allocBlock_iff hreach.bound_lt).mp h.1 (Pmm.hasRun_one_iff.mpr ⟨258, hfree⟩)
  have hlow : b < 256 := by omega
  exact ((oddStart.isFree_state_iff (by decide) (by decide)).mp hbfree).2
    (Or.inl ⟨Nat.zero_le b, hlow⟩)

/-! ### A range -/

/-- What the call returns lies in the range and was free, and it returns nothing exactly if no
blocks in a row lie there. -/
def Pmm.StaysInRange (s : Pmm) (n lo hi : UInt32) : Prop :=
  let p := (pmmAllocBlocksInRange s n lo hi).1
  (p ≠ 0 → lo ≤ p ∧ p.toNat + n.toNat * 4096 ≤ hi.toNat ∧
    IsRun s.isFree n.toNat (p.toNat / 4096)) ∧
  (p = 0 ↔ ¬ ∃ start, IsRun s.isFree n.toNat start ∧ lo.toNat ≤ start * 4096 ∧
    (start + n.toNat) * 4096 ≤ hi.toNat)

/-- The first blocks are not the ones taken; and if the lower bound lies in the last page, they are,
or there are none in a row below that page. -/
def Pmm.RangeInSight (s : Pmm) (n lo hi : UInt32) : Prop :=
  (lo = 0 → n.toNat * 4096 ≤ hi.toNat → ¬ IsRun s.isFree n.toNat 0) ∧
    (0xFFFFF000 < lo → IsRun s.isFree n.toNat 0 ∨
      ∀ start, start + n.toNat ≤ 0xFFFFF → ¬ IsRun s.isFree n.toNat start)

theorem toNat_roundDown (a : UInt32) : ((a &&& 0xFFFFF000) / 4096).toNat = a.toNat / 4096 := by
  have hmask : (0xFFFFF000 : UInt32).toNat = (2 ^ 20 - 1) * 2 ^ 12 := by decide
  rw [UInt32.toNat_div, UInt32.toNat_and, hmask, Bitmap.and_upper_mask a.toNat_lt]
  exact Nat.mul_div_cancel _ (by decide)

/-- A bound that is not in the last page is rounded up. -/
theorem toNat_roundUp {a : UInt32} (h : a ≤ 0xFFFFF000) :
    (((a + 4095) &&& 0xFFFFF000) / 4096).toNat = (a.toNat + 4095) / 4096 := by
  have hle : a.toNat ≤ 0xFFFFF000 := UInt32.le_iff_toNat_le.mp h
  rw [toNat_roundDown, UInt32.toNat_add]
  exact congrArg (· / 4096) (Nat.mod_eq_of_lt (by simp only [UInt32.reduceToNat]; omega))

/-- One in the last page becomes zero. -/
theorem toNat_roundUp_wraps {a : UInt32} (h : 0xFFFFF000 < a) :
    (((a + 4095) &&& 0xFFFFF000) / 4096).toNat = 0 := by
  have hlt : 0xFFFFF000 < a.toNat := UInt32.lt_iff_toNat_lt.mp h
  have := a.toNat_lt
  rw [toNat_roundDown, UInt32.toNat_add]
  simp only [UInt32.reduceToNat]
  omega

section

variable {s : Pmm} {n lo hi : UInt32}

/-- The blocks from 0 on are free and lie between the rounded bounds. -/
def Pmm.RangeFromZero (s : Pmm) (n lo hi : UInt32) : Prop :=
  IsRun s.isFree n.toNat 0 ∧ (((lo + 4095) &&& 0xFFFFF000) / 4096).toNat = 0 ∧
    n.toNat ≤ ((hi &&& 0xFFFFF000) / 4096).toNat

/-- They are found first. -/
theorem pmmAllocBlocksInRange_zero (hn : n ≠ 0) (hlo : lo < hi) (h : s.RangeFromZero n lo hi) :
    (pmmAllocBlocksInRange s n lo hi).1 = 0 := by
  obtain ⟨hrun, hstart, hend⟩ := h
  have hscan : Loop.scan s.isFree n.toNat ((hi &&& 0xFFFFF000) / 4096).toNat 0 0 0 = .found 0 :=
    Loop.scan_found_of_isRun (toNat_pos_of_ne_zero hn) hend hrun
  rw [pmmAllocBlocksInRange, if_neg (not_or.mpr ⟨hn, UInt32.not_le.mpr hlo⟩)]
  simp only [hstart, Loop.scanRun_of_pure fun i _ _ => pmmIsBlockFree_eq s i, Nat.sub_zero, hscan]
  rfl

/-- What the call returns: nothing, because there is nothing or because it starts at 0; or the
address of a run between the rounded bounds. -/
theorem pmmAllocBlocksInRange_fst (hn : n ≠ 0) (hlo : lo < hi) :
    (pmmAllocBlocksInRange s n lo hi).1 = 0 ∧
        (s.RangeFull n lo hi ∨ s.RangeFromZero n lo hi) ∨
      ∃ start, (pmmAllocBlocksInRange s n lo hi).1.toNat = start * 4096 ∧ 0 < start ∧
        IsRun s.isFree n.toNat start ∧ (((lo + 4095) &&& 0xFFFFF000) / 4096).toNat ≤ start ∧
        start + n.toNat ≤ ((hi &&& 0xFFFFF000) / 4096).toNat ∧ ¬ s.RangeFromZero n lo hi := by
  rcases pmmAllocBlocksInRange_spec s n lo hi with ⟨hfull, heq⟩ |
    ⟨start, -, heq, htakes, hle, hend, -⟩
  · exact Or.inl ⟨congrArg Prod.fst heq, Or.inl hfull⟩
  · by_cases hzero : s.RangeFromZero n lo hi
    · exact Or.inl ⟨pmmAllocBlocksInRange_zero hn hlo hzero, Or.inr hzero⟩
    · have hhi := hi.toNat_lt
      rw [toNat_roundDown] at hend
      have hstart : start < 2 ^ 20 := by omega
      refine Or.inr ⟨start, ?_, ?_, htakes.run, hle, ?_, hzero⟩
      · rw [heq, toNat_blockAddr hstart]
      · refine Nat.pos_of_ne_zero ?_
        rintro rfl
        refine hzero ⟨htakes.run, Nat.le_zero.mp hle, ?_⟩
        rw [toNat_roundDown]
        omega
      · rw [toNat_roundDown]
        exact hend

theorem ne_zero_of_toNat {p : UInt32} {b : ℕ} (h : p.toNat = b * 4096) (hb : 0 < b) : p ≠ 0 := by
  rintro rfl
  have : 0 = b * 4096 := h
  omega

/-- A lower bound that is not in the last page. -/
theorem staysInRange_of_le (hn : n ≠ 0) (hlo : lo < hi) (hle : lo ≤ 0xFFFFF000) :
    s.StaysInRange n lo hi ↔
      (lo = 0 → n.toNat * 4096 ≤ hi.toNat → ¬ IsRun s.isFree n.toNat 0) := by
  have hcases := pmmAllocBlocksInRange_fst (s := s) hn hlo
  simp only [Pmm.RangeFull, Pmm.RangeFromZero, toNat_roundUp hle, toNat_roundDown] at hcases
  rcases hcases with ⟨hnull, hfull | ⟨hrun, hzero, hend⟩⟩ |
    ⟨start, haddr, hpos, hrun, hge, hend, hnot⟩
  · have hnone : ¬ ∃ start, IsRun s.isFree n.toNat start ∧ lo.toNat ≤ start * 4096 ∧
        (start + n.toNat) * 4096 ≤ hi.toNat := by
      rintro ⟨start, hrun, hge, hend⟩
      rcases hfull with h | h | h
      · exact hn h
      · exact absurd hlo (UInt32.not_lt.mpr h)
      · exact h start (by omega) (by omega) hrun
    refine iff_of_true ⟨fun h => absurd hnull h, iff_of_true hnull hnone⟩ ?_
    rintro rfl hend hrun
    exact hnone ⟨0, hrun, Nat.zero_le _, (Nat.zero_add n.toNat).symm ▸ hend⟩
  · have hlozero : lo = 0 := UInt32.toNat_inj.mp (by rw [UInt32.toNat_zero]; omega)
    have hle' : n.toNat * 4096 ≤ hi.toNat := by omega
    refine iff_of_false (fun h => h.2.mp hnull ⟨0, hrun, ?_, ?_⟩) fun h => h hlozero hle' hrun
    · rw [hlozero]
      exact Nat.zero_le _
    · rwa [Nat.zero_add]
  · have hne := ne_zero_of_toNat haddr hpos
    refine iff_of_true ⟨fun _ => ⟨?_, ?_, ?_⟩, iff_of_false hne ?_⟩ ?_
    · rw [UInt32.le_iff_toNat_le]
      omega
    · omega
    · rwa [haddr, Nat.mul_div_cancel _ (by decide)]
    · exact not_not.mpr ⟨start, hrun, by omega, by omega⟩
    · rintro rfl hend' hrun0
      exact hnot ⟨hrun0, rfl, by omega⟩

/-- One in the last page. -/
theorem staysInRange_of_lt (hn : n ≠ 0) (hlo : lo < hi) (hlt : 0xFFFFF000 < lo) :
    s.StaysInRange n lo hi ↔ (IsRun s.isFree n.toNat 0 ∨
      ∀ start, start + n.toNat ≤ 0xFFFFF → ¬ IsRun s.isFree n.toNat start) := by
  have hcases := pmmAllocBlocksInRange_fst (s := s) hn hlo
  simp only [Pmm.RangeFull, Pmm.RangeFromZero, toNat_roundUp_wraps hlt, toNat_roundDown] at hcases
  have hpage : 0xFFFFF000 < lo.toNat := UInt32.lt_iff_toNat_lt.mp hlt
  have hlohi : lo.toNat < hi.toNat := UInt32.lt_iff_toNat_lt.mp hlo
  have hhi := hi.toNat_lt
  -- no whole block lies between the bounds
  have hnone : ¬ ∃ start, IsRun s.isFree n.toNat start ∧ lo.toNat ≤ start * 4096 ∧
      (start + n.toNat) * 4096 ≤ hi.toNat := by
    rintro ⟨start, -, hge, hend⟩
    have := toNat_pos_of_ne_zero hn
    omega
  rcases hcases with ⟨hnull, hfull | ⟨hrun, -, -⟩⟩ | ⟨start, haddr, hpos, hrun, -, hend, hnot⟩
  · refine iff_of_true ⟨fun h => absurd hnull h, iff_of_true hnull hnone⟩
      (Or.inr fun start hend => ?_)
    rcases hfull with h | h | h
    · exact absurd h hn
    · exact absurd hlo (UInt32.not_lt.mpr h)
    · exact h start (Nat.zero_le _) (by omega)
  · exact iff_of_true ⟨fun h => absurd hnull h, iff_of_true hnull hnone⟩ (Or.inl hrun)
  · have hne := ne_zero_of_toNat haddr hpos
    refine iff_of_false (fun h => hne (h.2.mpr hnone)) ?_
    rintro (hrun0 | hall)
    · exact hnot ⟨hrun0, trivial, by omega⟩
    · exact hall start (by omega) hrun

/-- **The range is respected** if it is in sight. -/
theorem staysInRange_iff (s : Pmm) {n lo hi : UInt32} (hn : n ≠ 0) (hlo : lo < hi) :
    s.StaysInRange n lo hi ↔ s.RangeInSight n lo hi := by
  by_cases hle : lo ≤ 0xFFFFF000
  · rw [staysInRange_of_le hn hlo hle, Pmm.RangeInSight, and_iff_left]
    exact fun hlt => absurd hle (UInt32.not_le.mpr hlt)
  · have hlt := UInt32.not_le.mp hle
    rw [staysInRange_of_lt hn hlo hlt, Pmm.RangeInSight, and_iff_right]
    · exact ⟨fun h _ => h, fun h => h hlt⟩
    · rintro rfl
      exact absurd hlt (by decide)

end

/-- Above the first megabyte, with 2 MiB. -/
theorem staysInRange_alignedStart :
    alignedStart.state.StaysInRange 16 0x100000 0x200000 :=
  (staysInRange_iff _ (by decide) (by decide)).mpr
    ⟨fun h => absurd h (by decide), fun h => absurd h (by decide)⟩

/-- Asked for a block in the last page of the address space, the call returns one of the first two
megabytes. -/
theorem not_staysInRange_alignedStart :
    PmmReachable alignedStart.state ∧
      ¬ alignedStart.state.StaysInRange 1 0xFFFFF001 0xFFFFFFFF := by
  refine ⟨.init _ _ _ _, fun h => ?_⟩
  have hfree : ∀ b, alignedStart.state.isFree b = true ↔ b < 512 ∧ ¬ alignedStart.Marked b :=
    fun b => alignedStart.isFree_state_iff (by decide) (by decide)
  rcases (staysInRange_of_lt (by decide) (by decide) (by decide)).mp h with hzero | hnone
  · exact ((hfree 0).mp (Pmm.isRun_one.mp hzero)).2 (by decide)
  · exact hnone 511 (by decide) (Pmm.isRun_one.mpr ((hfree 511).mpr (by decide)))

end HalOS
