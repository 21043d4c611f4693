import HalOS.Mm.PmmSpec

/-!
# Exclusive Allocation of Physical Blocks

An allocation is exclusive when every block it covers exists, was free before the call, is
used after it, and no other bit has moved. Three of the four allocators are exclusive in
every reachable state. `pmm_alloc_blocks` is exclusive except when its search wraps round
(`PmmCall.WrapsRound`): the count of consecutive free blocks survives the step from the
first pass to the second, so a run can be put together from the top and the bottom of
memory, and the blocks marked for it run past the last one.

A history keeps the list of live allocations: an allocation is live from the call that
returned it to the first call that clears one of its bits.

## Main results

* `exclusive_iff_not_wrapsRound`: the exact condition, at every reachable state.
* `pairwise_disjoint_of_history`: while no call wraps round, live allocations are disjoint.
* `pmm_alloc_exclusive`: the two together.
-/

namespace HalOS

open Loop (IsRun)

/-! ### The size of the bitmap -/

theorem bound_takeRun (s : Pmm) (n : UInt32) (start : ℕ) :
    (takeRun s n start).2.bound = s.bound := by
  simp [takeRun, markRunUsed_eq, Pmm.bound]

/-- No call changes the number of blocks. -/
@[simp] theorem bound_next (s : Pmm) (c : PmmCall) : (c.next s).bound = s.bound := by
  cases c with
  | markUsedRegion base size => exact bound_markRegion _ _ _ _
  | markUnusedRegion base size => exact bound_markRegion _ _ _ _
  | allocBlock =>
      simp only [PmmCall.next, PmmCall.run, pmmAllocBlock_eq]
      cases s.firstFree <;> rfl
  | allocBlocks n =>
      simp only [PmmCall.next, PmmCall.run]
      cases hv : validateAllocationRequest s n with
      | false => simp [pmmAllocBlocks, hv]
      | true =>
          obtain ⟨-, h | ⟨start, h, -⟩⟩ | ⟨-, c, start, -, -, -, h⟩ := pmmAllocBlocks_spec hv
          · rw [h]
          · rw [h, bound_takeRun]
          · rw [h, bound_takeRun]
  | allocContiguous n =>
      simp only [PmmCall.next, PmmCall.run, pmmAllocContiguous_eq]
      split_ifs
      · rfl
      · cases s.firstRun n.toNat with
        | none => rfl
        | some start => simp [markRunUsed_eq, Pmm.bound]
  | allocBlocksInRange n lo hi =>
      rcases pmmAllocBlocksInRange_spec s n lo hi with ⟨-, h⟩ | ⟨start, -, -, h, -⟩
      · simp [PmmCall.next, PmmCall.run, h]
      · exact h.bound
  | freeBlock p => rfl
  | freeBlocks p n => simp [PmmCall.next, PmmCall.run, pmmFreeBlocks_eq]
  | freeContiguous p n =>
      simp only [PmmCall.next, PmmCall.run, pmmFreeContiguous_eq]
      split_ifs
      · exact bound_markRunUnused _ _ _ _
      · rfl

/-- `pmm_max_blocks` is below `2 ^ 20`. -/
theorem toNat_maxBlocks_lt (memSize : UInt32) : ((memSize + 4095) / 4096).toNat < 2 ^ 20 := by
  rw [UInt32.toNat_div]
  exact Nat.div_lt_of_lt_mul (by simpa using UInt32.toNat_lt (memSize + 4095))

/-- The bytes that `pmm_init` clears. -/
theorem toNat_bitmapSize (memSize : UInt32) :
    (((memSize + 4095) / 4096 + 7) / 8).toNat = (((memSize + 4095) / 4096).toNat + 7) / 8 := by
  have hlt := toNat_maxBlocks_lt memSize
  rw [UInt32.toNat_div, UInt32.toNat_add]
  refine congrArg (· / 8) (Nat.mod_eq_of_lt ?_)
  exact Nat.lt_of_lt_of_le (Nat.add_lt_add_right hlt 7) (by decide)

/-- The number of blocks `pmm_init` sets up. -/
theorem bound_pmmInit {memSize bitmap : UInt32} (h : ¬ (memSize = 0 ∨ bitmap = 0))
    (kernel : KernelImage) (bytes : ℕ → UInt8) :
    (pmmInit kernel memSize bitmap bytes).bound = ((memSize + 4095) / 4096).toNat := by
  have hinit : ∀ t : Pmm, ({ t with initialized := true } : Pmm).bound = t.bound := fun _ => rfl
  rw [pmmInit, if_neg h, hinit, pmmMarkUsedRegion, bound_markRegion, pmmMarkUsedRegion,
    bound_markRegion, pmmMarkUsedRegion, bound_markRegion]
  rfl

/-- `pmm_init` sets up fewer than `2 ^ 20` blocks. -/
theorem bound_pmmInit_lt (kernel : KernelImage) (memSize bitmap : UInt32) (bytes : ℕ → UInt8) :
    (pmmInit kernel memSize bitmap bytes).bound < 2 ^ 20 := by
  by_cases h : memSize = 0 ∨ bitmap = 0
  · rw [pmmInit, if_pos h]
    exact Nat.zero_lt_of_lt (Nat.lt_two_pow_self (n := 20))
  · rw [bound_pmmInit h]
    exact toNat_maxBlocks_lt memSize

theorem PmmReachable.bound_lt {s : Pmm} (h : PmmReachable s) : s.bound < 2 ^ 20 := by
  induction h with
  | init kernel memSize bitmap bytes => exact bound_pmmInit_lt kernel memSize bitmap bytes
  | step c _ ih => rwa [bound_next]

/-! ### Block addresses -/

theorem toNat_blockAddr {b : ℕ} (h : b < 2 ^ 20) : (blockAddr b).toNat = b * 4096 := by
  rw [blockAddr, UInt32.toNat_mul, UInt32.toNat_ofNat']
  have h1 : b % 2 ^ 32 = b := Nat.mod_eq_of_lt (by omega)
  rw [h1]
  exact Nat.mod_eq_of_lt (by show b * 4096 < 2 ^ 32; omega)

/-- The block of an address an allocator returns is the block it took. -/
theorem blockAddr_div {b : ℕ} (h : b < 2 ^ 20) : (blockAddr b / 4096).toNat = b := by
  rw [UInt32.toNat_div, toNat_blockAddr h]
  exact Nat.mul_div_cancel b (by decide)

theorem blockAddr_ne_zero {b : ℕ} (hpos : 0 < b) (h : b < 2 ^ 20) : blockAddr b ≠ 0 := by
  intro h0
  have := congrArg UInt32.toNat h0
  rw [toNat_blockAddr h, UInt32.toNat_zero] at this
  omega

/-! ### Exclusive allocation -/

/-- The step from `s` to `s'` allocates the `n` blocks from `b` on and nothing else: each
exists, was free and is now used, and every other bit is as before. -/
structure TakenExclusively (s s' : Pmm) (n b : ℕ) : Prop where
  exists_blocks : ∀ i < n, b + i < s.bound
  free_before : ∀ i < n, s.isUsed (b + i) = false
  used_after : ∀ i < n, s'.isUsed (b + i) = true
  others : ∀ j, ¬ (b ≤ j ∧ j < b + n) → s'.isUsed j = s.isUsed j

/-- The number of blocks a call asks for, for the four allocators. -/
def PmmCall.requested : PmmCall → Option UInt32
  | allocBlock => some 1
  | allocBlocks n => some n
  | allocContiguous n => some n
  | allocBlocksInRange n _ _ => some n
  | _ => none

/-- If the call allocates, it allocates exclusively, at the address it returns. -/
def PmmCall.Exclusive (s : Pmm) (c : PmmCall) : Prop :=
  ∀ n, c.requested = some n → (c.run s).1 ≠ 0 →
    TakenExclusively s (c.next s) n.toNat ((c.run s).1 / 4096).toNat

/-- The call is a `pmm_alloc_blocks` that passes its checks and whose search wraps
round. -/
def PmmCall.WrapsRound (s : Pmm) : PmmCall → Prop
  | allocBlocks n => validateAllocationRequest s n = true ∧ s.WrapsRound n.toNat
  | _ => False

theorem TakesRun.takenExclusively {s s' : Pmm} {n start : ℕ} (h : TakesRun s n start s')
    (hb : s.bound < 2 ^ 20) {a : UInt32} (ha : a = blockAddr start) :
    TakenExclusively s s' n (a / 4096).toNat := by
  rcases Nat.eq_zero_or_pos n with rfl | hn
  · refine ⟨by omega, by omega, by omega, fun j hj => ?_⟩
    rw [h.isUsed, decide_eq_false (by omega), Bool.false_or]
  · have hlast := Pmm.le_bound_of_isRun hn h.run
    rw [ha, blockAddr_div (by omega)]
    refine ⟨by omega, fun i hi => ?_, fun i hi => ?_, fun j hj => ?_⟩
    · exact Pmm.isUsed_eq_false_of_isFree (h.run i hi)
    · rw [h.isUsed, decide_eq_true (by omega), Bool.true_or]
    · rw [h.isUsed, decide_eq_false hj, Bool.false_or]

/-- An allocator that does not wrap round fails or takes a free run. -/
theorem run_eq_or_takesRun {s : Pmm} {c : PmmCall} {n : UInt32} (hn : c.requested = some n)
    (hw : ¬ c.WrapsRound s) :
    c.run s = (0, s) ∨
      ∃ start, (c.run s).1 = blockAddr start ∧ TakesRun s n.toNat start (c.run s).2 := by
  cases c with
  | allocBlock =>
      obtain rfl : (1 : UInt32) = n := by simpa [PmmCall.requested] using hn
      simp only [PmmCall.run, pmmAllocBlock_eq]
      cases hf : s.firstFree with
      | none => exact Or.inl rfl
      | some b => exact Or.inr ⟨b, rfl, takesRun_markBlockUsed (isFree_of_firstFree hf)⟩
  | allocBlocks m =>
      obtain rfl : m = n := by simpa [PmmCall.requested] using hn
      simp only [PmmCall.run]
      cases hv : validateAllocationRequest s m with
      | false => exact Or.inl (by simp [pmmAllocBlocks, hv])
      | true =>
          obtain ⟨-, h | ⟨start, h, hrun⟩⟩ | ⟨hwr, -⟩ := pmmAllocBlocks_spec hv
          · exact Or.inl h
          · exact Or.inr ⟨start, by rw [h]; rfl, by rw [h]; exact takesRun_takeRun hrun⟩
          · exact absurd ⟨hv, hwr⟩ hw
  | allocContiguous m =>
      obtain rfl : m = n := by simpa [PmmCall.requested] using hn
      simp only [PmmCall.run, pmmAllocContiguous_eq]
      split_ifs
      · exact Or.inl rfl
      · cases hf : s.firstRun m.toNat with
        | none => exact Or.inl rfl
        | some start =>
            exact Or.inr ⟨start, rfl, takesRun_markRunUsed (isRun_of_firstRun hf)⟩
  | allocBlocksInRange m lo hi =>
      obtain rfl : m = n := by simpa [PmmCall.requested] using hn
      simp only [PmmCall.run]
      rcases pmmAllocBlocksInRange_spec s m lo hi with ⟨-, h⟩ | ⟨start, -, haddr, h, -⟩
      · exact Or.inl h
      · exact Or.inr ⟨start, haddr, h⟩
  | _ => simp [PmmCall.requested] at hn

/-- A call that wraps round returns an address from which the requested blocks run past
the end of memory. -/
theorem not_exclusive_of_wrapsRound {s : Pmm} (hs : s.bound < 2 ^ 20) {c : PmmCall}
    (hw : c.WrapsRound s) : ¬ c.Exclusive s := by
  cases c with
  | allocBlocks n =>
      obtain ⟨hv, hwr⟩ := hw
      obtain ⟨hnw, -⟩ | ⟨-, c, start, hc, hcn, hstart, h⟩ := pmmAllocBlocks_spec hv
      · exact absurd hwr hnw
      · have hle : n.toNat ≤ s.bound := by
          simp only [validateAllocationRequest, Bool.and_eq_true, Bool.not_eq_true',
            Bool.or_eq_false_iff, decide_eq_false_iff_not] at hv
          exact UInt32.le_iff_toNat_le.mp (UInt32.not_lt.mp hv.1.2.2)
        intro hex
        have haddr : ((PmmCall.allocBlocks n).run s).1 = blockAddr start := by
          simp only [PmmCall.run, h]
          rfl
        have hin := (hex n rfl (by
          rw [haddr]
          exact blockAddr_ne_zero (by omega) (by omega))).exists_blocks c hcn
        rw [haddr, blockAddr_div (by omega)] at hin
        omega
  | _ => exact hw.elim

/-- **The exact condition.** In every reachable state an allocator allocates exclusively
unless it is a `pmm_alloc_blocks` that wraps round. -/
theorem exclusive_iff_not_wrapsRound {s : Pmm} (h : PmmReachable s) (c : PmmCall) :
    c.Exclusive s ↔ ¬ c.WrapsRound s := by
  constructor
  · exact fun hex hw => not_exclusive_of_wrapsRound h.bound_lt hw hex
  · intro hw n hn h0
    rcases run_eq_or_takesRun hn hw with hfail | ⟨start, haddr, htakes⟩
    · rw [hfail] at h0
      exact absurd rfl h0
    · exact htakes.takenExclusively h.bound_lt haddr

/-! ### Live allocations -/

/-- An allocation: its first block and its number of blocks. -/
abbrev Allocation := ℕ × ℕ

/-- No block belongs to both allocations. -/
def BlocksDisjoint (a b : Allocation) : Prop := ∀ i < a.2, ∀ j < b.2, a.1 + i ≠ b.1 + j

/-- Every block of the allocation is still marked used. -/
def StillHeld (s : Pmm) (a : Allocation) : Prop := ∀ i < a.2, s.isUsed (a.1 + i) = true

instance (s : Pmm) (a : Allocation) : Decidable (StillHeld s a) :=
  inferInstanceAs (Decidable (∀ i < a.2, s.isUsed (a.1 + i) = true))

/-- The live allocations after a call: those none of whose bits the call cleared, and the
one it returned, if any. -/
def liveAfter (s : Pmm) (c : PmmCall) (live : List Allocation) : List Allocation :=
  let kept := live.filter (StillHeld (c.next s))
  match c.requested with
  | some n => if (c.run s).1 = 0 then kept else (((c.run s).1 / 4096).toNat, n.toNat) :: kept
  | none => kept

/-- Runs from `pmm_init` in which every call meets `P`, with the allocations live at their
end. -/
inductive PmmHistory (P : Pmm → PmmCall → Prop) : Pmm → List Allocation → Prop
  | init (kernel : KernelImage) (memSize bitmap : UInt32) (bytes : ℕ → UInt8) :
      PmmHistory P (pmmInit kernel memSize bitmap bytes) []
  | step {s : Pmm} {live : List Allocation} (c : PmmCall) :
      PmmHistory P s live → P s c → PmmHistory P (c.next s) (liveAfter s c live)

theorem PmmHistory.reachable {P : Pmm → PmmCall → Prop} {s : Pmm} {live : List Allocation}
    (h : PmmHistory P s live) : PmmReachable s := by
  induction h with
  | init kernel memSize bitmap bytes => exact PmmReachable.init kernel memSize bitmap bytes
  | step c _ _ ih => exact PmmReachable.step c ih

/-- In a history whose allocations are exclusive, live allocations hold their blocks and
share none. -/
theorem live_of_history {s : Pmm} {live : List Allocation}
    (h : PmmHistory (fun s c => c.Exclusive s) s live) :
    (∀ a ∈ live, StillHeld s a) ∧ live.Pairwise BlocksDisjoint := by
  induction h with
  | init => simp
  | @step s live c _ hex ih =>
      obtain ⟨hheld, hdisj⟩ := ih
      have hkept : ∀ a ∈ live.filter (StillHeld (c.next s)), StillHeld (c.next s) a :=
        fun a ha => by simpa using (List.mem_filter.mp ha).2
      have hkeptDisj := hdisj.filter (fun a => decide (StillHeld (c.next s) a))
      unfold liveAfter
      cases hn : c.requested with
      | none => exact ⟨hkept, hkeptDisj⟩
      | some n =>
          by_cases h0 : (c.run s).1 = 0
          · simp only [h0, if_true]
            exact ⟨hkept, hkeptDisj⟩
          · simp only [h0, if_false]
            have hnew := hex n hn h0
            refine ⟨?_, List.pairwise_cons.mpr ⟨fun a ha i hi j hj heq => ?_, hkeptDisj⟩⟩
            · rintro a (_ | ⟨_, ha⟩)
              · exact hnew.used_after
              · exact hkept a ha
            · -- the older allocation held the block, so it was not free for the new one
              have hold := hheld a (List.mem_filter.mp ha).1 j hj
              have hfree := hnew.free_before i hi
              simp only at heq
              rw [heq, hold] at hfree
              exact Bool.noConfusion hfree

/-- **Exclusive allocation.** At every reachable state a call allocates exclusively if and
only if it does not wrap round; and whatever history of calls that do not wrap round led to
the state, no two allocations live in it share a block. -/
theorem pmm_alloc_exclusive (s : Pmm) (h : PmmReachable s) :
    (∀ c : PmmCall, c.Exclusive s ↔ ¬ c.WrapsRound s) ∧
      ∀ live, PmmHistory (fun s c => ¬ c.WrapsRound s) s live → live.Pairwise BlocksDisjoint := by
  refine ⟨exclusive_iff_not_wrapsRound h, fun live hlive => ?_⟩
  have hex : PmmHistory (fun s c => c.Exclusive s) s live := by
    clear h
    induction hlive with
    | init kernel memSize bitmap bytes => exact PmmHistory.init kernel memSize bitmap bytes
    | step c hs hw ih =>
        exact PmmHistory.step c ih ((exclusive_iff_not_wrapsRound hs.reachable c).mpr hw)
  exact (live_of_history hex).2

/-- Both parts with 2 MiB of memory: `pmm_alloc_block` right after `pmm_init`, and the
history of that one call. -/
theorem pmm_alloc_exclusive_at_boot :
    PmmCall.allocBlock.Exclusive (pmmInit ⟨0x100000, 0x124000⟩ 0x200000 0x102000 fun _ => 0) ∧
      (liveAfter (pmmInit ⟨0x100000, 0x124000⟩ 0x200000 0x102000 fun _ => 0) .allocBlock
        []).Pairwise BlocksDisjoint :=
  ⟨((pmm_alloc_exclusive _ (.init ⟨0x100000, 0x124000⟩ 0x200000 0x102000 _)).1
      .allocBlock).mpr id,
    (pmm_alloc_exclusive _ (.step .allocBlock (.init ⟨0x100000, 0x124000⟩ 0x200000 0x102000
      _))).2 _ (.step .allocBlock (.init ⟨0x100000, 0x124000⟩ 0x200000 0x102000 _) id)⟩

/-- Three blocks of memory, all reserved by `pmm_init`, of which the first and the last are
then released. -/
def twoEndsFree : Pmm :=
  (PmmCall.markUnusedRegion 0x2000 0x1000).next
    ((PmmCall.markUnusedRegion 0 0x1000).next
      (pmmInit ⟨0x100000, 0x101000⟩ 0x3000 0x100800 fun _ => 0))

theorem reachable_twoEndsFree : PmmReachable twoEndsFree :=
  .step _ (.step _ (.init _ _ _ _))

/-- Asked for two blocks there, `pmm_alloc_blocks` returns the address of block 2 and marks
blocks 2 and 3; block 3 does not exist. -/
theorem pmm_alloc_not_exclusive :
    ¬ ∀ s, PmmReachable s → ∀ c : PmmCall, c.Exclusive s := by
  intro h
  have haddr : ((PmmCall.allocBlocks 2).run twoEndsFree).1 = 0x2000 := by decide +kernel
  have hin := (h _ reachable_twoEndsFree (.allocBlocks 2) 2 rfl
    (by rw [haddr]; decide)).exists_blocks 1 (by decide)
  rw [haddr] at hin
  exact absurd hin (by decide +kernel)

end HalOS
