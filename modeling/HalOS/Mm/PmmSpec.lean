import HalOS.Mm.Pmm

/-!
# What Each Physical-Memory Call Does

One description for each function of `HalOS.Mm.Pmm`, in terms of the bits it finds. The
search loops only look at bits in range, so they answer a fixed predicate of the state
(`Pmm.isFree`) and leave the state alone; what an allocator does to the state is then one
of three things: nothing, taking a free run (`TakesRun`), or, for `pmm_alloc_blocks`
alone, completing on the low blocks a run begun at the top of memory (`WrapsRound`), in
which case it marks blocks that do not exist.

## Main results

* `pmmAllocBlock_eq`, `pmmAllocContiguous_eq`, `pmmAllocBlocksInRange_spec`: three
  allocators as a search followed by taking the run found.
* `pmmAllocBlocks_spec`: the fourth, with its overrun.
* `pmmFreeBlocks_eq`, `pmmFreeContiguous_eq`: the free paths.
* `isUsed_markRegion`: the two region calls, bit by bit.
-/

namespace HalOS

open Bitmap (setRun clearRun)
open Loop (IsRun)

namespace Pmm

/-- Block `b` exists and its bit is clear: what `pmm_is_block_free` answers. -/
def isFree (s : Pmm) (b : ℕ) : Bool := decide (b < s.bound) && !s.isUsed b

/-- The used blocks that exist. -/
def usedSet (s : Pmm) : Finset ℕ := Bitmap.members s.memoryMap s.bound

theorem isFree_iff {s : Pmm} {b : ℕ} :
    s.isFree b = true ↔ b < s.bound ∧ s.isUsed b = false := by
  simp [isFree]

theorem isUsed_eq_false_of_isFree {s : Pmm} {b : ℕ} (h : s.isFree b = true) :
    s.isUsed b = false :=
  (isFree_iff.mp h).2

theorem mem_usedSet {s : Pmm} {b : ℕ} : b ∈ s.usedSet ↔ b < s.bound ∧ s.isUsed b = true := by
  simp [usedSet, isUsed]

/-- A non-empty free run ends inside the bitmap. -/
theorem le_bound_of_isRun {s : Pmm} {n start : ℕ} (hn : 0 < n) (h : IsRun s.isFree n start) :
    start + n ≤ s.bound := by
  have := (isFree_iff.mp (h (n - 1) (by omega))).1
  omega

/-- An access in range leaves the state as it is. -/
theorem touch_of_lt {s : Pmm} {b : ℕ} (h : b < s.bound) : s.touch b = s := by
  have hb : decide (s.bound ≤ b) = false := by simpa using h
  simp [touch, hb]

@[simp] theorem bound_touch (s : Pmm) (b : ℕ) : (s.touch b).bound = s.bound := rfl
@[simp] theorem memoryMap_touch (s : Pmm) (b : ℕ) : (s.touch b).memoryMap = s.memoryMap := rfl

end Pmm

@[simp] theorem bound_markBlockUsed (s : Pmm) (b : ℕ) :
    (markBlockUsed s b).bound = s.bound := rfl

@[simp] theorem bound_markBlockUnused (s : Pmm) (b : ℕ) :
    (markBlockUnused s b).bound = s.bound := rfl

theorem markBlockUsed_of_lt {s : Pmm} {b : ℕ} (h : b < s.bound) :
    markBlockUsed s b =
      { s with memoryMap := Bitmap.set s.memoryMap b, usedBlocks := s.usedBlocks + 1 } := by
  simp [markBlockUsed, Pmm.setBit, Pmm.touch_of_lt h]

theorem markBlockUnused_of_lt {s : Pmm} {b : ℕ} (h : b < s.bound) :
    markBlockUnused s b =
      { s with memoryMap := Bitmap.clear s.memoryMap b, usedBlocks := s.usedBlocks - 1 } := by
  simp [markBlockUnused, Pmm.clearBit, Pmm.touch_of_lt h]

theorem readBit_of_lt {s : Pmm} {b : ℕ} (h : b < s.bound) : s.readBit b = (s.isUsed b, s) := by
  simp [Pmm.readBit, Pmm.touch_of_lt h]

/-! ### Marking loops -/

/-- Marking a run of `n` blocks, in range or not. -/
theorem markRunUsed_eq (n b : ℕ) (s : Pmm) :
    markRunUsed n b s =
      { s with
        memoryMap := setRun s.memoryMap b n
        usedBlocks := s.usedBlocks + UInt32.ofNat n
        outOfBounds := s.outOfBounds || decide (0 < n ∧ s.bound < b + n) } := by
  induction n generalizing b s with
  | zero => simp [markRunUsed, setRun]
  | succ n ih =>
      have hcount : s.usedBlocks + 1 + UInt32.ofNat n = s.usedBlocks + UInt32.ofNat (n + 1) := by
        rw [UInt32.ofNat_add, UInt32.add_assoc, UInt32.add_comm (UInt32.ofNat n)]
        rfl
      have hoob : (decide (s.bound ≤ b) || decide (0 < n ∧ s.bound < b + 1 + n)) =
          decide (0 < n + 1 ∧ s.bound < b + (n + 1)) := by
        rw [← Bool.decide_or, decide_eq_decide]
        omega
      rw [markRunUsed, ih]
      simp only [markBlockUsed, Pmm.setBit, Pmm.touch, setRun, hcount, Bool.or_assoc]
      congr 2

/-- The marking loop of `pmm_alloc_blocks_in_range` on blocks in range. -/
theorem setRunBits_of_le {n b : ℕ} {s : Pmm} (h : b + n ≤ s.bound) :
    setRunBits n b s = { s with memoryMap := setRun s.memoryMap b n } := by
  induction n generalizing b s with
  | zero => rfl
  | succ n ih =>
      have hb : b < s.bound := by omega
      have hset : s.setBit b = { s with memoryMap := Bitmap.set s.memoryMap b } := by
        simp [Pmm.setBit, Pmm.touch_of_lt hb]
      rw [setRunBits, hset, ih (by simp only [Pmm.bound] at h ⊢; omega)]
      rfl

/-! ### Regions -/

/-- One step of a region call on a block in range. -/
def regionStep (used : Bool) (s : Pmm) (b : ℕ) : Pmm :=
  if s.isUsed b = used then s else if used then markBlockUsed s b else markBlockUnused s b

@[simp] theorem bound_regionStep (used : Bool) (s : Pmm) (b : ℕ) :
    (regionStep used s b).bound = s.bound := by
  unfold regionStep
  split_ifs <;> rfl

theorem markRegion_of_lt {used : Bool} {n b : ℕ} {s : Pmm} (h : b < s.bound) :
    markRegion used (n + 1) b s = markRegion used n (b + 1) (regionStep used s b) := by
  rw [markRegion, if_neg (by omega), readBit_of_lt h]
  rfl

theorem markRegion_of_le {used : Bool} {n b : ℕ} {s : Pmm} (h : s.bound ≤ b) :
    markRegion used n b s = s := by
  cases n with
  | zero => rfl
  | succ n => rw [markRegion, if_pos h]

/-- **The region rule.** What each single step in range keeps, a region call keeps. -/
theorem markRegion_induction {used : Bool} {P : Pmm → Prop}
    (hstep : ∀ s b, b < s.bound → P s → P (regionStep used s b)) {n b : ℕ} {s : Pmm}
    (h : P s) : P (markRegion used n b s) := by
  induction n generalizing b s with
  | zero => exact h
  | succ n ih =>
      by_cases hb : b < s.bound
      · rw [markRegion_of_lt hb]
        exact ih (hstep s b hb h)
      · rwa [markRegion_of_le (by omega)]

theorem isUsed_regionStep {used : Bool} {s : Pmm} {b : ℕ} (h : b < s.bound) (j : ℕ) :
    (regionStep used s b).isUsed j = if j = b then used else s.isUsed j := by
  unfold regionStep
  by_cases hu : s.isUsed b = used
  · rw [if_pos hu]
    split_ifs with hj
    · rw [hj, hu]
    · rfl
  · rw [if_neg hu]
    cases used with
    | true =>
        by_cases hj : j = b
        · simp [hj, markBlockUsed_of_lt h, Pmm.isUsed]
        · simp [hj, markBlockUsed_of_lt h, Pmm.isUsed, Bitmap.test_set_of_ne (Ne.symm hj)]
    | false =>
        by_cases hj : j = b
        · simp [hj, markBlockUnused_of_lt h, Pmm.isUsed]
        · simp [hj, markBlockUnused_of_lt h, Pmm.isUsed, Bitmap.test_clear_of_ne (Ne.symm hj)]

@[simp] theorem bound_markRegion (used : Bool) (n b : ℕ) (s : Pmm) :
    (markRegion used n b s).bound = s.bound :=
  markRegion_induction (P := fun t => t.bound = s.bound)
    (fun t b _ ht => by rw [bound_regionStep, ht]) rfl

/-- **Region calls, bit by bit**: the blocks of the region that exist get the new value,
every other bit is as before. -/
theorem isUsed_markRegion (used : Bool) (n b : ℕ) (s : Pmm) (j : ℕ) :
    (markRegion used n b s).isUsed j =
      if b ≤ j ∧ j < b + n ∧ j < s.bound then used else s.isUsed j := by
  induction n generalizing b s with
  | zero =>
      rw [if_neg (by omega)]
      rfl
  | succ n ih =>
      by_cases hb : b < s.bound
      · rw [markRegion_of_lt hb, ih, bound_regionStep, isUsed_regionStep hb]
        by_cases hj : j = b
        · rw [if_neg (by omega), if_pos hj, if_pos (by omega)]
        · rw [if_neg hj]
          by_cases hin : b + 1 ≤ j ∧ j < b + 1 + n ∧ j < s.bound
          · rw [if_pos hin, if_pos (by omega)]
          · rw [if_neg hin, if_neg (by omega)]
      · rw [markRegion_of_le (by omega), if_neg (by omega)]

/-- Marking a region that is free takes it. -/
theorem markRegion_of_free {n b : ℕ} {s : Pmm} (hle : b + n ≤ s.bound)
    (hfree : ∀ j < n, s.isUsed (b + j) = false) :
    markRegion true n b s =
      { s with
        memoryMap := setRun s.memoryMap b n
        usedBlocks := s.usedBlocks + UInt32.ofNat n } := by
  induction n generalizing b s with
  | zero => simp [markRegion, setRun]
  | succ n ih =>
      have hb : b < s.bound := by omega
      have hstep : regionStep true s b = markBlockUsed s b := by
        have := hfree 0 (by omega)
        rw [Nat.add_zero] at this
        simp [regionStep, this]
      have hcount : s.usedBlocks + 1 + UInt32.ofNat n = s.usedBlocks + UInt32.ofNat (n + 1) := by
        rw [UInt32.ofNat_add]
        grind
      rw [markRegion_of_lt hb, hstep, ih]
      · simp only [markBlockUsed_of_lt hb, setRun, hcount]
      · rw [bound_markBlockUsed]
        omega
      · intro j hj
        have := hfree (j + 1) (by omega)
        rw [markBlockUsed_of_lt hb, Pmm.isUsed, Bitmap.test_set_of_ne (by omega), ← Pmm.isUsed,
          Nat.add_assoc, Nat.add_comm 1 j]
        exact this

/-- Marking a region that is used changes nothing. -/
theorem markRegion_of_used {n b : ℕ} {s : Pmm} (hused : ∀ j < n, s.isUsed (b + j) = true) :
    markRegion true n b s = s := by
  induction n generalizing b with
  | zero => rfl
  | succ n ih =>
      have h0 := hused 0 (by omega)
      rw [Nat.add_zero] at h0
      by_cases hb : b < s.bound
      · rw [markRegion_of_lt hb, regionStep, if_pos h0]
        refine ih fun j hj => ?_
        rw [Nat.add_assoc, Nat.add_comm 1 j]
        exact hused (j + 1) (by omega)
      · exact markRegion_of_le (by omega)

/-! ### The searches -/

theorem pmmIsBlockFree_eq (s : Pmm) (b : ℕ) : pmmIsBlockFree s b = (s.isFree b, s) := by
  unfold pmmIsBlockFree
  by_cases hb : s.bound ≤ b
  · rw [if_pos hb]
    have : s.isFree b = false := by simp [Pmm.isFree, hb]
    rw [this]
  · rw [if_neg hb, readBit_of_lt (by omega)]
    simp [Pmm.isFree, show b < s.bound by omega]

theorem readFree_eq {s : Pmm} {b : ℕ} (h : b < s.bound) : readFree s b = (s.isFree b, s) := by
  simp [readFree, readBit_of_lt h, Pmm.isFree, h]

/-- The lowest clear bit among the whole bytes of the bitmap: the block that
`pmm_alloc_block` takes, unless the counter says that none is left. -/
def Pmm.firstFree (s : Pmm) : Option ℕ :=
  if s.maxBlocks ≤ s.usedBlocks then none
  else (List.range' 0 (s.bound / 8 * 8)).find? fun b => !s.isUsed b

/-- Within a byte the search stops at the lowest clear bit. -/
theorem allocBlockBits_eq {s : Pmm} {byteIdx n k : ℕ} (h : byteIdx * 8 + (k + n) ≤ s.bound) :
    allocBlockBits byteIdx n k s =
      ((List.range' (byteIdx * 8 + k) n).find? fun b => !s.isUsed b, s) := by
  induction n generalizing k with
  | zero => rfl
  | succ n ih =>
      have hlt : byteIdx * 8 + k < s.bound := by omega
      rw [allocBlockBits, if_neg (by omega), readBit_of_lt hlt, List.range'_succ, List.find?_cons]
      cases hu : s.isUsed (byteIdx * 8 + k) with
      | true =>
          simp only [Bool.not_true]
          rw [ih (by omega), Nat.add_assoc]
      | false => rfl

/-- The two nested loops of `pmm_alloc_block` are one search for the lowest clear bit. -/
theorem allocBlockBytes_eq {s : Pmm} {n byteIdx : ℕ} (h : (byteIdx + n) * 8 ≤ s.bound) :
    allocBlockBytes n byteIdx s =
      ((List.range' (byteIdx * 8) (n * 8)).find? fun b => !s.isUsed b, s) := by
  induction n generalizing byteIdx with
  | zero => rfl
  | succ n ih =>
      have hsplit : List.range' (byteIdx * 8) ((n + 1) * 8) =
          List.range' (byteIdx * 8) 8 ++ List.range' ((byteIdx + 1) * 8) (n * 8) := by
        have hlen : (n + 1) * 8 = 8 + n * 8 := by omega
        have hstart : (byteIdx + 1) * 8 = byteIdx * 8 + 8 := by omega
        rw [hlen, hstart]
        exact (List.range'_append_1).symm
      rw [allocBlockBytes, Pmm.touch_of_lt (by omega), hsplit, List.find?_append]
      by_cases hfull : s.memoryMap byteIdx = 0xFF
      · -- a full byte holds no clear bit, so skipping it loses nothing
        have hnone : (List.range' (byteIdx * 8) 8).find? (fun b => !s.isUsed b) = none := by
          rw [List.find?_range'_eq_none]
          intro i hi hlt
          have := (Bitmap.byte_eq_full_iff _ _).mp hfull (i - byteIdx * 8) (by omega)
          rw [show 8 * byteIdx + (i - byteIdx * 8) = i by omega] at this
          simpa [Pmm.isUsed] using this
        rw [if_pos hfull, hnone, Option.none_or, ih (by omega)]
      · rw [if_neg hfull, allocBlockBits_eq (by omega), Nat.add_zero]
        cases hf : (List.range' (byteIdx * 8) 8).find? (fun b => !s.isUsed b) with
        | some b => rfl
        | none =>
            simp only [Option.none_or]
            exact ih (by omega)

/-- `find_contiguous_free_blocks` returns the lowest free run. -/
theorem findContiguousFreeBlocks_eq (s : Pmm) {n : ℕ} (hn : 0 < n) :
    findContiguousFreeBlocks s n =
      ((List.range' 0 s.bound).find?
        (fun i => (List.range' 0 n).all fun j => s.isFree (i + j)), s) := by
  have hinner : ∀ i, Loop.holds
      (fun s j => if s.bound ≤ i + j then (false, s) else pmmIsBlockFree s (i + j)) n 0 s =
        ((List.range' 0 n).all (fun j => s.isFree (i + j)), s) := by
    intro i
    refine Loop.holds_of_pure fun j _ _ => ?_
    by_cases hij : s.bound ≤ i + j
    · simp [hij, Pmm.isFree]
    · rw [if_neg hij, pmmIsBlockFree_eq]
  refine Loop.search_of_pure fun i _ _ => ?_
  rw [pmmIsBlockFree_eq]
  cases hfree : s.isFree i with
  | true => exact hinner i
  | false =>
      have hzero : (List.range' 0 n).all (fun j => s.isFree (i + j)) = false := by
        rw [List.all_eq_false]
        exact ⟨0, by simp [hn], by simp [hfree]⟩
      rw [hzero]

/-- What `all` over a range says of a run. -/
theorem all_range'_iff_isRun {p : ℕ → Bool} {n i : ℕ} :
    ((List.range' 0 n).all fun j => p (i + j)) = true ↔ IsRun p n i := by
  simp [IsRun]

/-! ### The allocators -/

/-- `s'` is `s` with the free run of `n` blocks from `start` on marked and counted. -/
structure TakesRun (s : Pmm) (n start : ℕ) (s' : Pmm) : Prop where
  run : IsRun s.isFree n start
  memoryMap : s'.memoryMap = setRun s.memoryMap start n
  usedBlocks : s'.usedBlocks = s.usedBlocks + UInt32.ofNat n
  maxBlocks : s'.maxBlocks = s.maxBlocks
  outOfBounds : s'.outOfBounds = s.outOfBounds

theorem TakesRun.bound {s s' : Pmm} {n start : ℕ} (h : TakesRun s n start s') :
    s'.bound = s.bound := by
  simp [Pmm.bound, h.maxBlocks]

theorem TakesRun.isUsed {s s' : Pmm} {n start : ℕ} (h : TakesRun s n start s') (j : ℕ) :
    s'.isUsed j = (decide (start ≤ j ∧ j < start + n) || s.isUsed j) := by
  rw [Pmm.isUsed, h.memoryMap, Bitmap.test_setRun, Pmm.isUsed]

/-- Marking a free run takes it. -/
theorem takesRun_markRunUsed {s : Pmm} {n start : ℕ} (h : IsRun s.isFree n start) :
    TakesRun s n start (markRunUsed n start s) := by
  rw [markRunUsed_eq]
  refine ⟨h, rfl, rfl, rfl, ?_⟩
  have hin : ¬ (0 < n ∧ s.bound < start + n) := by
    rintro ⟨hn, hlt⟩
    have := Pmm.le_bound_of_isRun hn h
    omega
  simp [hin]

/-- `pmm_alloc_block` takes the lowest clear bit of the whole bytes. -/
theorem pmmAllocBlock_eq (s : Pmm) :
    pmmAllocBlock s =
      match s.firstFree with
      | some b => (blockAddr b, markBlockUsed s b)
      | none => (0, s) := by
  unfold pmmAllocBlock Pmm.firstFree
  by_cases hfull : s.maxBlocks ≤ s.usedBlocks
  · rw [if_pos hfull, if_pos hfull]
  · rw [if_neg hfull, if_neg hfull, allocBlockBytes_eq (by omega), Nat.zero_mul]
    cases (List.range' 0 (s.bound / 8 * 8)).find? fun b => !s.isUsed b <;> rfl

theorem isFree_of_firstFree {s : Pmm} {b : ℕ} (h : s.firstFree = some b) :
    s.isFree b = true := by
  unfold Pmm.firstFree at h
  split_ifs at h
  obtain ⟨hu, hb, -⟩ := List.find?_range'_eq_some.mp h
  have hlt : b < s.bound / 8 * 8 := by simpa using (List.mem_range'_1.mp hb).2
  exact Pmm.isFree_iff.mpr ⟨by omega, by simpa using hu⟩

theorem takesRun_markBlockUsed {s : Pmm} {b : ℕ} (h : s.isFree b = true) :
    TakesRun s 1 b (markBlockUsed s b) :=
  have hrun : IsRun s.isFree 1 b := fun i hi => by
    obtain rfl : i = 0 := by omega
    exact h
  takesRun_markRunUsed hrun

/-- The start of the lowest free run of `n` blocks. -/
def Pmm.firstRun (s : Pmm) (n : ℕ) : Option ℕ :=
  (List.range' 0 s.bound).find? fun i => (List.range' 0 n).all fun j => s.isFree (i + j)

theorem isRun_of_firstRun {s : Pmm} {n start : ℕ} (h : s.firstRun n = some start) :
    IsRun s.isFree n start :=
  all_range'_iff_isRun.mp (List.find?_range'_eq_some.mp h).1

/-- `pmm_alloc_contiguous` takes the lowest free run of the requested length. -/
theorem pmmAllocContiguous_eq (s : Pmm) (n : UInt32) :
    pmmAllocContiguous s n =
      if n = 0 ∨ s.maxBlocks < n then (0, s)
      else
        match s.firstRun n.toNat with
        | some start => (blockAddr start, markRunUsed n.toNat start s)
        | none => (0, s) := by
  unfold pmmAllocContiguous
  by_cases hn : n = 0 ∨ s.maxBlocks < n
  · rw [if_pos hn, if_pos hn]
  · have hpos : 0 < n.toNat := by
      rcases Nat.eq_zero_or_pos n.toNat with h0 | h0
      · exact absurd (Or.inl (UInt32.toNat_inj.mp h0)) hn
      · exact h0
    rw [if_neg hn, if_neg hn, findContiguousFreeBlocks_eq s hpos]
    unfold Pmm.firstRun
    cases (List.range' 0 s.bound).find?
      (fun i => (List.range' 0 n.toNat).all fun j => s.isFree (i + j)) <;> rfl

/-- `pmm_alloc_blocks_in_range` finds no room: nothing is asked for, the range is empty, or no
free run lies between the rounded bounds. -/
def Pmm.RangeFull (s : Pmm) (n lo hi : UInt32) : Prop :=
  n = 0 ∨ hi ≤ lo ∨ ∀ start, (((lo + 4095) &&& 0xFFFFF000) / 4096).toNat ≤ start →
    start + n.toNat ≤ ((hi &&& 0xFFFFF000) / 4096).toNat → ¬ IsRun s.isFree n.toNat start

/-- `pmm_alloc_blocks_in_range` either finds no room and changes nothing, or takes a free run
that starts at or above the rounded lower bound and ends by the rounded upper one. -/
theorem pmmAllocBlocksInRange_spec (s : Pmm) (n lo hi : UInt32) :
    s.RangeFull n lo hi ∧ pmmAllocBlocksInRange s n lo hi = (0, s) ∨
      ∃ start, ¬ s.RangeFull n lo hi ∧ (pmmAllocBlocksInRange s n lo hi).1 = blockAddr start ∧
        TakesRun s n.toNat start (pmmAllocBlocksInRange s n lo hi).2 ∧
        (((lo + 4095) &&& 0xFFFFF000) / 4096).toNat ≤ start ∧
        start + n.toNat ≤ ((hi &&& 0xFFFFF000) / 4096).toNat ∧ n ≠ 0 := by
  unfold pmmAllocBlocksInRange
  by_cases hbad : n = 0 ∨ hi ≤ lo
  · exact Or.inl ⟨hbad.elim Or.inl fun h => Or.inr (Or.inl h), by rw [if_pos hbad]⟩
  · rw [if_neg hbad]
    have hn : n ≠ 0 := fun h => hbad (Or.inl h)
    have hpos : 0 < n.toNat := by
      rcases Nat.eq_zero_or_pos n.toNat with h0 | h0
      · exact absurd (UInt32.toNat_inj.mp h0) hn
      · exact h0
    simp only [Loop.scanRun_of_pure fun i _ _ => pmmIsBlockFree_eq s i]
    cases hscan : Loop.scan s.isFree n.toNat
        (((hi &&& 0xFFFFF000) / 4096).toNat - (((lo + 4095) &&& 0xFFFFF000) / 4096).toNat)
        (((lo + 4095) &&& 0xFFFFF000) / 4096).toNat 0 0 with
    | more c st =>
        refine Or.inl ⟨Or.inr (Or.inr fun start hlo hhi => ?_), rfl⟩
        exact Loop.not_isRun_of_scan_more hpos hscan hlo (by omega)
    | found start =>
        rcases Loop.scan_found hpos hscan with ⟨-, h0, -, -⟩ | ⟨hlo, hhi, hrun⟩
        · omega
        · have hle := Pmm.le_bound_of_isRun hpos hrun
          have hroom : ¬ s.RangeFull n lo hi := by
            rintro (h | h | h)
            · exact hn h
            · exact hbad (Or.inr h)
            · exact h start hlo (by omega) hrun
          refine Or.inr ⟨start, hroom, rfl, ?_, hlo, by omega, hn⟩
          simp only [setRunBits_of_le hle]
          exact ⟨hrun, rfl, by simp, rfl, rfl⟩

/-! ### `pmm_alloc_blocks` and its two passes -/

/-- The situation in which the second pass of `pmm_alloc_blocks` completes a run that the
first pass began: the first pass, from `lastAlloc` up, meets no full run, but the topmost
`c` blocks are free, and so are the lowest `n - c`. -/
def Pmm.WrapsRound (s : Pmm) (n : ℕ) : Prop :=
  (∀ r, s.lastAlloc.toNat ≤ r → r + n ≤ s.bound → ¬ IsRun s.isFree n r) ∧
    ∃ c, 0 < c ∧ c < n ∧ s.lastAlloc.toNat + c ≤ s.bound ∧
      IsRun s.isFree c (s.bound - c) ∧ IsRun s.isFree (n - c) 0

theorem scanRun_readFree {s : Pmm} {want n a count start : ℕ} (h : a + n ≤ s.bound) :
    Loop.scanRun readFree want n a count start s =
      (Loop.scan s.isFree want n a count start, s) :=
  Loop.scanRun_of_pure fun _ _ hi => readFree_eq (by omega)

/-- What the first pass leaves to the second: a trailing run of `c` blocks, the longest
one, remembered at its start. -/
theorem firstPass_more {s : Pmm} {n c st : ℕ} (hn : 0 < n)
    (h : Loop.scan s.isFree n (s.bound - s.lastAlloc.toNat) s.lastAlloc.toNat 0 0 =
      .more c st) :
    c < n ∧ s.lastAlloc.toNat + c ≤ max s.bound s.lastAlloc.toNat ∧
      (0 < c → st + c = s.bound) ∧ IsRun s.isFree c (s.bound - c) ∧
      (∀ c', c < c' → s.lastAlloc.toNat + c' ≤ s.bound → ¬ IsRun s.isFree c' (s.bound - c')) := by
  obtain ⟨hc, ⟨rfl, hrun, hst⟩ | ⟨hcn, hrun, hbreak, hst⟩⟩ := Loop.scan_more hn h
  · refine ⟨hc, by omega, ?_, ?_, fun c' hc' hle => by omega⟩
    · intro hpos
      rw [if_pos ⟨rfl, by omega⟩] at hst
      omega
    · rcases Nat.eq_zero_or_pos (s.bound - s.lastAlloc.toNat) with h0 | h0
      · rw [h0, Nat.zero_add]
        exact fun i hi => absurd hi (by omega)
      · rwa [show s.bound - (0 + (s.bound - s.lastAlloc.toNat)) = s.lastAlloc.toNat by omega,
          Nat.zero_add]
  · have hend : s.lastAlloc.toNat + (s.bound - s.lastAlloc.toNat) = s.bound := by omega
    rw [hend] at hrun hbreak hst
    refine ⟨hc, by omega, fun hpos => ?_, hrun, fun c' hc' hle hrun' => ?_⟩
    · have := hst hpos
      omega
    · have := hrun' (c' - c - 1) (by omega)
      rw [show s.bound - c' + (c' - c - 1) = s.bound - c - 1 by omega, hbreak] at this
      exact Bool.false_ne_true this

/-- A second pass that wraps round ends at the start that the first pass remembered. -/
theorem secondPass_of_wrapsRound {s : Pmm} {n c st : ℕ} (hn : 0 < n) (hle : n ≤ s.bound)
    (h : Loop.scan s.isFree n (s.bound - s.lastAlloc.toNat) s.lastAlloc.toNat 0 0 = .more c st)
    (hw : s.WrapsRound n) : 0 < c ∧ Loop.scan s.isFree n s.bound 0 c st = .found st := by
  obtain ⟨hc, hcle, -, -, hmaximal⟩ := firstPass_more hn h
  obtain ⟨-, c', hc', -, hle', htail', hhead⟩ := hw
  have hcc : c' ≤ c := by
    by_contra hlt
    exact hmaximal c' (by omega) hle' htail'
  refine ⟨by omega, Loop.scan_found_of_carry (by omega) hc (by omega) fun i hi => ?_⟩
  exact hhead i (by omega)

/-- A valid request is for some blocks, and for no more than there are. -/
theorem le_bound_of_validate {s : Pmm} {n : UInt32} (hv : validateAllocationRequest s n = true) :
    0 < n.toNat ∧ n.toNat ≤ s.bound := by
  simp only [validateAllocationRequest, Bool.and_eq_true, Bool.not_eq_true',
    Bool.or_eq_false_iff, decide_eq_false_iff_not] at hv
  obtain ⟨⟨-, h0, hmax⟩, -⟩ := hv
  have hne : n.toNat ≠ 0 := fun h => h0 (UInt32.toNat_inj.mp h)
  have := UInt32.not_lt.mp hmax
  exact ⟨by omega, UInt32.le_iff_toNat_le.mp this⟩

/-- `pmm_last_alloc` lies behind the last block: the first pass is empty, and the second one finds
the lowest run. -/
theorem pmmAllocBlocks_pastEnd {s : Pmm} {n : UInt32} (hv : validateAllocationRequest s n = true)
    (hlast : s.bound < s.lastAlloc.toNat) :
    ¬ s.WrapsRound n.toNat ∧
      (pmmAllocBlocks s n = (0, s) ∧ (∀ start, ¬ IsRun s.isFree n.toNat start) ∨
        ∃ start, pmmAllocBlocks s n = takeRun s n start ∧ IsRun s.isFree n.toNat start ∧
          (IsRun s.isFree n.toNat 0 → start = 0)) := by
  obtain ⟨hpos, hle⟩ := le_bound_of_validate hv
  have hzero : s.bound - s.lastAlloc.toNat = 0 := by omega
  refine ⟨?_, ?_⟩
  · rintro ⟨-, c, hc, -, hle', -⟩
    omega
  unfold pmmAllocBlocks
  simp only [hv, Bool.not_true, Bool.false_eq_true, if_false, hzero, Loop.scanRun,
    scanRun_readFree (show 0 + s.bound ≤ s.bound by omega)]
  cases hscan : Loop.scan s.isFree n.toNat s.bound 0 0 0 with
  | more c st =>
      refine Or.inl ⟨rfl, fun r hrun => ?_⟩
      have hend := Pmm.le_bound_of_isRun hpos hrun
      exact Loop.not_isRun_of_scan_more hpos hscan (Nat.zero_le r) (by omega) hrun
  | found start =>
      obtain ⟨-, h0, -, -⟩ | ⟨-, -, hrun⟩ := Loop.scan_found hpos hscan
      · omega
      · exact Or.inr ⟨start, rfl, hrun, Loop.start_eq_of_scan_found hpos hle hscan⟩

/-- **`pmm_alloc_blocks`**, a valid request. There is no free run and it fails, or it takes one: one
that the first pass comes to, if there is such a one, and the one from block 0 on, if that is free
and the first pass does not start behind it. Or the search wraps round, and it marks `n` blocks that
begin `c < n` below the end of memory. -/
theorem pmmAllocBlocks_cases {s : Pmm} {n : UInt32} (hv : validateAllocationRequest s n = true) :
    (¬ s.WrapsRound n.toNat ∧ pmmAllocBlocks s n = (0, s) ∧
      ∀ start, ¬ IsRun s.isFree n.toNat start) ∨
    (¬ s.WrapsRound n.toNat ∧ ∃ start, pmmAllocBlocks s n = takeRun s n start ∧
      IsRun s.isFree n.toNat start ∧
      (s.lastAlloc.toNat ≤ start ∨
        ∀ r, s.lastAlloc.toNat ≤ r → ¬ IsRun s.isFree n.toNat r) ∧
      (IsRun s.isFree n.toNat 0 →
        start = 0 ∨ 0 < s.lastAlloc.toNat ∧ s.lastAlloc.toNat ≤ start)) ∨
    (s.WrapsRound n.toNat ∧
      ∃ c start, 0 < c ∧ c < n.toNat ∧ start + c = s.bound ∧
        pmmAllocBlocks s n = takeRun s n start) := by
  obtain ⟨hpos, hle⟩ := le_bound_of_validate hv
  have hend : ∀ r, IsRun s.isFree n.toNat r → r + n.toNat ≤ s.bound := fun r hrun =>
    Pmm.le_bound_of_isRun hpos hrun
  by_cases hlast : s.bound < s.lastAlloc.toNat
  · obtain ⟨hnw, ⟨heq, hnone⟩ | ⟨start, heq, hrun, hzero⟩⟩ := pmmAllocBlocks_pastEnd hv hlast
    · exact Or.inl ⟨hnw, heq, hnone⟩
    · refine Or.inr (Or.inl ⟨hnw, start, heq, hrun, Or.inr fun r hr hrun' => ?_,
        fun hrun0 => Or.inl (hzero hrun0)⟩)
      have := hend r hrun'
      omega
  unfold pmmAllocBlocks
  simp only [hv, Bool.not_true, Bool.false_eq_true, if_false]
  rw [scanRun_readFree (by omega)]
  cases hfirst : Loop.scan s.isFree n.toNat (s.bound - s.lastAlloc.toNat) s.lastAlloc.toNat 0 0
    with
  | found start =>
      rcases Loop.scan_found hpos hfirst with ⟨-, h0, -, -⟩ | ⟨hlo, hhi, hrun⟩
      · omega
      · refine Or.inr (Or.inl ⟨fun hw => hw.1 start hlo (by omega) hrun, start, rfl, hrun,
          Or.inl hlo, fun hrun0 => ?_⟩)
        rcases Nat.eq_zero_or_pos s.lastAlloc.toNat with h0 | h0
        · rw [h0] at hfirst
          exact Or.inl (Loop.start_eq_of_scan_found hpos (by omega) hfirst hrun0)
        · exact Or.inr ⟨h0, hlo⟩
  | more c st =>
      simp only [scanRun_readFree (show 0 + s.bound ≤ s.bound by omega)]
      obtain ⟨hc, hcle, hst, htail, -⟩ := firstPass_more hpos hfirst
      have hnorun : ∀ r, s.lastAlloc.toNat ≤ r → r + n.toNat ≤ s.bound →
          ¬ IsRun s.isFree n.toNat r := fun r hlo hhi =>
        Loop.not_isRun_of_scan_more hpos hfirst hlo (by omega)
      have hwrap := secondPass_of_wrapsRound hpos hle hfirst
      cases hsecond : Loop.scan s.isFree n.toNat s.bound 0 c st with
      | more c2 st2 =>
          refine Or.inl ⟨fun hw => ?_, rfl, fun r hrun => ?_⟩
          · rw [(hwrap hw).2] at hsecond
            cases hsecond
          · have := hend r hrun
            exact Loop.not_isRun_of_scan_more hc hsecond (Nat.zero_le r) (by omega) hrun
      | found start =>
          rcases Loop.scan_found hc hsecond with ⟨rfl, hcpos, -, hhead⟩ | ⟨-, hhi, hrun⟩
          · refine Or.inr (Or.inr ⟨⟨hnorun, c, hcpos, hc, by omega, htail, hhead⟩, ?_⟩)
            exact ⟨c, start, hcpos, hc, hst hcpos, rfl⟩
          · have hnw : ¬ s.WrapsRound n.toNat := by
              intro hw
              obtain ⟨hcpos, hfound⟩ := hwrap hw
              rw [hfound] at hsecond
              injection hsecond with hstart
              have := hst hcpos
              omega
            refine Or.inr (Or.inl ⟨hnw, start, rfl, hrun,
              Or.inr fun r hlo hrun' => hnorun r hlo (hend r hrun') hrun',
              fun hrun0 => Or.inl ?_⟩)
            rcases Nat.eq_zero_or_pos c with rfl | hcpos
            · exact Loop.start_eq_of_scan_found hpos hle hsecond hrun0
            · exact absurd ⟨hnorun, c, hcpos, hc, by omega, htail,
                fun i hi => hrun0 i (by omega)⟩ hnw

/-- **`pmm_alloc_blocks`.** Unless the search wraps round, the call fails and changes
nothing or takes a free run. If it does wrap round, it marks `n` blocks that begin `c < n`
below the end of memory. -/
theorem pmmAllocBlocks_spec {s : Pmm} {n : UInt32} (hv : validateAllocationRequest s n = true) :
    (¬ s.WrapsRound n.toNat ∧
      (pmmAllocBlocks s n = (0, s) ∨
        ∃ start, pmmAllocBlocks s n = takeRun s n start ∧ IsRun s.isFree n.toNat start)) ∨
    (s.WrapsRound n.toNat ∧
      ∃ c start, 0 < c ∧ c < n.toNat ∧ start + c = s.bound ∧
        pmmAllocBlocks s n = takeRun s n start) := by
  rcases pmmAllocBlocks_cases hv with ⟨hnw, heq, -⟩ | ⟨hnw, start, heq, hrun, -⟩ | hwraps
  · exact Or.inl ⟨hnw, Or.inl heq⟩
  · exact Or.inl ⟨hnw, Or.inr ⟨start, heq, hrun⟩⟩
  · exact Or.inr hwraps

/-- Without a wrap `pmm_alloc_blocks` takes the run it returns. -/
theorem takesRun_takeRun {s : Pmm} {n : UInt32} {start : ℕ} (h : IsRun s.isFree n.toNat start) :
    TakesRun s n.toNat start (takeRun s n start).2 := by
  obtain ⟨hrun, hmap, hcount, hmax, hoob⟩ := takesRun_markRunUsed h
  exact ⟨hrun, hmap, hcount, hmax, hoob⟩

/-! ### Giving blocks away -/

theorem isUsed_markBlockUsed (p : Pmm) (b j : ℕ) :
    (markBlockUsed p b).isUsed j = (decide (b = j) || p.isUsed j) :=
  Bitmap.test_set p.memoryMap b j

/-- The physical memory manager has only given blocks away. -/
structure Grows (p p' : Pmm) : Prop where
  bound : p'.bound = p.bound
  used : ∀ b, p.isUsed b = true → p'.isUsed b = true

theorem Grows.refl (p : Pmm) : Grows p p := ⟨rfl, fun _ h => h⟩

theorem Grows.trans {p q r : Pmm} (h : Grows p q) (h' : Grows q r) : Grows p r :=
  ⟨h'.bound.trans h.bound, fun b hb => h'.used b (h.used b hb)⟩

theorem grows_markBlockUsed (p : Pmm) (b : ℕ) : Grows p (markBlockUsed p b) :=
  ⟨rfl, fun j hj => by rw [isUsed_markBlockUsed, hj, Bool.or_true]⟩

theorem TakesRun.grows {p p' : Pmm} {n start : ℕ} (h : TakesRun p n start p') :
    Grows p p' :=
  ⟨h.bound, fun j hj => by rw [h.isUsed, hj, Bool.or_true]⟩

theorem grows_takeRun (p : Pmm) (n : UInt32) (start : ℕ) : Grows p (takeRun p n start).2 := by
  have hmap : (takeRun p n start).2.memoryMap = setRun p.memoryMap start n.toNat := by
    simp [takeRun, markRunUsed_eq]
  refine ⟨by simp [takeRun, markRunUsed_eq, Pmm.bound], fun j hj => ?_⟩
  rw [Pmm.isUsed, hmap, Bitmap.test_setRun, ← Pmm.isUsed, hj, Bool.or_true]

theorem grows_pmmAllocBlocks (p : Pmm) (n : UInt32) : Grows p (pmmAllocBlocks p n).2 := by
  cases hv : validateAllocationRequest p n with
  | false =>
      simp only [pmmAllocBlocks, hv, Bool.not_false, if_true]
      exact .refl p
  | true =>
      rcases pmmAllocBlocks_spec hv with ⟨-, heq | ⟨start, heq, -⟩⟩ | ⟨-, c, start, -, -, -, heq⟩
      · rw [heq]; exact .refl p
      · rw [heq]; exact grows_takeRun p n start
      · rw [heq]; exact grows_takeRun p n start

/-! ### The free paths -/

theorem bound_markRunUnused (block n i : ℕ) (s : Pmm) :
    (markRunUnused block n i s).bound = s.bound := by
  induction n generalizing i s with
  | zero => rfl
  | succ n ih => rw [markRunUnused, ih, bound_markBlockUnused]

theorem freeBlocksLoop_eq (p : UInt32) (n i : ℕ) (s : Pmm) : freeBlocksLoop p n i s = s := by
  induction n generalizing i with
  | zero => rfl
  | succ n ih => exact ih (i + 1)

/-- `pmm_free_blocks` changes nothing: the call it makes for each block returns at once. -/
theorem pmmFreeBlocks_eq (s : Pmm) (p : UInt32) (n : Int32) : pmmFreeBlocks s p n = s := by
  unfold pmmFreeBlocks
  split_ifs
  · rfl
  · rfl
  · exact freeBlocksLoop_eq _ _ _ _

/-- The blocks of `pmm_free_contiguous`, at indices that wrap, are all in range and used or
out of range. -/
def Pmm.noneFree (s : Pmm) (block n : ℕ) : Bool :=
  (List.range' 0 n).all fun i => !s.isFree (u32 (block + i))

theorem pmmFreeContiguous_eq (s : Pmm) (p n : UInt32) :
    pmmFreeContiguous s p n =
      if p ≠ 0 ∧ n ≠ 0 ∧ p / 4096 + n ≤ s.maxBlocks ∧
          s.noneFree (p / 4096).toNat n.toNat = true
      then markRunUnused (p / 4096).toNat n.toNat 0 s
      else s := by
  unfold pmmFreeContiguous
  by_cases h0 : p = 0 ∨ n = 0
  · rw [if_pos h0, if_neg]
    rintro ⟨hp, hn, -⟩
    exact h0.elim hp hn
  · have hp : p ≠ 0 := fun h => h0 (Or.inl h)
    have hn : n ≠ 0 := fun h => h0 (Or.inr h)
    rw [if_neg h0]
    by_cases hmax : s.maxBlocks < p / 4096 + n
    · rw [if_pos hmax, if_neg]
      rintro ⟨-, -, hle, -⟩
      exact absurd hmax (UInt32.not_lt.mpr hle)
    · rw [if_neg hmax, Loop.holds_of_pure (p := fun i => !s.isFree (u32 ((p / 4096).toNat + i)))
        fun i _ _ => by simp [pmmIsBlockFree_eq], Pmm.noneFree]
      cases hall : (List.range' 0 n.toNat).all fun i =>
          !s.isFree (u32 ((p / 4096).toNat + i)) with
      | true => simp [hp, hn, UInt32.not_lt.mp hmax]
      | false => simp

end HalOS
