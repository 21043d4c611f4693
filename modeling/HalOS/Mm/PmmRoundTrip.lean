import HalOS.Mm.PmmAccounting

/-!
# Freeing Physical Blocks

The source pairs each allocator with a free function: `pmm_alloc_block` with
`pmm_free_block`, `pmm_alloc_blocks` with `pmm_free_blocks`, `pmm_alloc_contiguous` with
`pmm_free_contiguous`. Only the last pair is a round trip. The first two free functions
end in `pmm_free_block`, which returns before it looks at its argument, so what they are
given stays used for good.

A free call is misdirected when it names an unaligned address, blocks that do not exist or
a block that is already free. Misdirected calls change nothing, except that
`pmm_free_contiguous` never looks at the alignment and checks the end of the range on a
32-bit sum (`PmmCall.ClearsAnyway`).

## Main results

* `restores_contiguous`, `not_restores_block`, `not_restores_blocks`: the three pairs.
* `next_eq_self_iff`: misdirected calls.
* `pmm_free_undoes_alloc`: the two together.
-/

namespace HalOS

open Loop (IsRun)

/-! ### Allocation and free pairs -/

/-- An allocator with the arguments of one call, and the free function the source pairs
with it. -/
inductive PmmPair
  | block
  | blocks (numBlocks : UInt32)
  | contiguous (numBlocks : UInt32)

def PmmPair.alloc (s : Pmm) : PmmPair → UInt32 × Pmm
  | block => pmmAllocBlock s
  | blocks n => pmmAllocBlocks s n
  | contiguous n => pmmAllocContiguous s n

def PmmPair.free (s : Pmm) (p : UInt32) : PmmPair → Pmm
  | block => pmmFreeBlock s p
  | blocks n => pmmFreeBlocks s p n.toInt32
  | contiguous n => pmmFreeContiguous s p n

/-- Allocating and freeing at once gives back the bitmap and the counter. -/
def PmmPair.Restores (s : Pmm) (pair : PmmPair) : Prop :=
  (pair.free (pair.alloc s).2 (pair.alloc s).1).memoryMap = s.memoryMap ∧
    (pair.free (pair.alloc s).2 (pair.alloc s).1).usedBlocks = s.usedBlocks

theorem UInt32.add_eq_left_iff {a b : UInt32} : a + b = a ↔ b = 0 := by
  constructor
  · intro h
    grind
  · rintro rfl
    exact UInt32.add_zero a

theorem not_restores_block {s : Pmm} (hp : (PmmPair.block.alloc s).1 ≠ 0) :
    ¬ PmmPair.block.Restores s := by
  intro hrest
  have hcount := hrest.2
  simp only [PmmPair.alloc, PmmPair.free, pmmFreeBlock, pmmAllocBlock_eq] at hp hcount
  cases hf : s.firstFree with
  | none => simp [hf] at hp
  | some b =>
      simp only [hf] at hcount
      exact absurd (UInt32.add_eq_left_iff.mp hcount) (by decide)

theorem not_restores_blocks {s : Pmm} {n : UInt32} (hp : ((PmmPair.blocks n).alloc s).1 ≠ 0) :
    ¬ (PmmPair.blocks n).Restores s := by
  intro hrest
  have hcount := hrest.2
  simp only [PmmPair.alloc, PmmPair.free, pmmFreeBlocks_eq] at hp hcount
  cases hv : validateAllocationRequest s n with
  | false => simp [pmmAllocBlocks, hv] at hp
  | true =>
      have hn : n ≠ 0 := by
        simp only [validateAllocationRequest, Bool.and_eq_true, Bool.not_eq_true',
          Bool.or_eq_false_iff, decide_eq_false_iff_not] at hv
        exact hv.1.2.1
      have htake : ∀ start, (takeRun s n start).2.usedBlocks = s.usedBlocks + n := fun start => by
        simp [takeRun, markRunUsed_eq]
      obtain ⟨-, h | ⟨start, h, -⟩⟩ | ⟨-, c, start, -, -, -, h⟩ := pmmAllocBlocks_spec hv
      · rw [h] at hp
        exact hp rfl
      · rw [h, htake] at hcount
        exact hn (UInt32.add_eq_left_iff.mp hcount)
      · rw [h, htake] at hcount
        exact hn (UInt32.add_eq_left_iff.mp hcount)

theorem restores_contiguous {s : Pmm} (hs : s.bound < 2 ^ 20) {n : UInt32}
    (hp : ((PmmPair.contiguous n).alloc s).1 ≠ 0) : (PmmPair.contiguous n).Restores s := by
  simp only [PmmPair.Restores, PmmPair.alloc, PmmPair.free, pmmAllocContiguous_eq] at hp ⊢
  split_ifs at hp ⊢ with hn
  · exact absurd rfl hp
  · cases hf : s.firstRun n.toNat with
    | none => simp [hf] at hp
    | some start =>
        simp only [hf] at hp ⊢
        have hn0 : n ≠ 0 := fun h => hn (Or.inl h)
        have hpos : 0 < n.toNat := by
          rcases Nat.eq_zero_or_pos n.toNat with h0 | h0
          · exact absurd (UInt32.toNat_inj.mp h0) hn0
          · exact h0
        have ht := takesRun_markRunUsed (isRun_of_firstRun hf)
        have hle := Pmm.le_bound_of_isRun hpos ht.run
        have hblock := blockAddr_div (b := start) (by omega)
        generalize hs' : markRunUsed n.toNat start s = s' at ht ⊢
        have hsum : (blockAddr start / 4096 + n).toNat = start + n.toNat := by
          rw [UInt32.toNat_add, hblock]
          exact Nat.mod_eq_of_lt (by omega)
        have hmax : blockAddr start / 4096 + n ≤ s'.maxBlocks := by
          rw [UInt32.le_iff_toNat_le, hsum, ht.maxBlocks]
          exact hle
        -- every block of the run is now used, so the double-free test passes
        have hnone : s'.noneFree (blockAddr start / 4096).toNat n.toNat = true := by
          rw [hblock, Pmm.noneFree_iff]
          intro i hi
          rw [u32_of_lt (by omega)]
          have : s'.isUsed (start + i) = true := by
            rw [ht.isUsed, decide_eq_true (by omega), Bool.true_or]
          simp [Pmm.isFree, this]
        rw [pmmFreeContiguous_eq, if_pos ⟨hp, hn0, hmax, hnone⟩, hblock,
          markRunUnused_of_le (by rw [ht.bound]; omega)]
        constructor
        · rw [Nat.add_zero, ht.memoryMap]
          exact Bitmap.clearRun_setRun fun k hk => Pmm.isUsed_eq_false_of_isFree (ht.run k hk)
        · show s'.usedBlocks - UInt32.ofNat n.toNat = s.usedBlocks
          rw [ht.usedBlocks, UInt32.add_sub_cancel]

/-! ### Misdirected free calls -/

/-- The call frees an unaligned address, blocks that do not exist or a block that is
free. -/
def PmmCall.Misdirected (s : Pmm) : PmmCall → Prop
  | freeBlock p => BadRange p 1
  | freeBlocks p n => BadRange p n.toNatClampNeg
  | freeContiguous p n => BadRange p n.toNat
  | _ => False
where
  /-- The `n` blocks from address `p` on are not all existing, used and aligned. -/
  BadRange (p : UInt32) (n : ℕ) : Prop :=
    p.toNat % 4096 ≠ 0 ∨ s.bound < p.toNat / 4096 + n ∨
      ∃ i < n, s.isFree (p.toNat / 4096 + i) = true

/-- The misdirected calls that clear bits all the same: `pmm_free_contiguous` on an
unaligned address whose blocks are used, or on a range so long that its end wraps past
`2 ^ 32` back into memory. -/
def PmmCall.ClearsAnyway (s : Pmm) : PmmCall → Prop
  | freeContiguous p n =>
      p ≠ 0 ∧ n ≠ 0 ∧
        ((p.toNat % 4096 ≠ 0 ∧ p.toNat / 4096 + n.toNat ≤ s.bound ∧
            ∀ i < n.toNat, s.isFree (p.toNat / 4096 + i) = false) ∨
          (2 ^ 32 ≤ p.toNat / 4096 + n.toNat ∧
            p.toNat / 4096 + n.toNat - 2 ^ 32 ≤ s.bound ∧
            ∀ i < n.toNat, s.isFree (u32 (p.toNat / 4096 + i)) = false))
  | _ => False

/-- Reaching the clearing loop always changes the counter. -/
theorem usedBlocks_markRunUnused (block n i : ℕ) (s : Pmm) :
    (markRunUnused block n i s).usedBlocks = s.usedBlocks - UInt32.ofNat n := by
  induction n generalizing i s with
  | zero => simp [markRunUnused]
  | succ n ih =>
      rw [markRunUnused, ih, UInt32.ofNat_add]
      show s.usedBlocks - 1 - UInt32.ofNat n = s.usedBlocks - (UInt32.ofNat n + 1)
      grind

theorem pmmFreeContiguous_eq_self_iff (s : Pmm) (p n : UInt32) :
    pmmFreeContiguous s p n = s ↔
      ¬ (p ≠ 0 ∧ n ≠ 0 ∧ p / 4096 + n ≤ s.maxBlocks ∧
        s.noneFree (p / 4096).toNat n.toNat = true) := by
  rw [pmmFreeContiguous_eq]
  split_ifs with hpass
  · refine iff_of_false (fun heq => ?_) (fun h => h hpass)
    have := congrArg Pmm.usedBlocks heq
    rw [usedBlocks_markRunUnused, UInt32.ofNat_toNat] at this
    exact hpass.2.1 (by grind)
  · exact iff_of_true rfl hpass

/-- The tests of `pmm_free_contiguous`, with the wrapped sum written out. -/
theorem freeContiguous_passes_iff {s : Pmm} (hs : s.bound < 2 ^ 20) (p n : UInt32) :
    (p / 4096 + n ≤ s.maxBlocks ∧ s.noneFree (p / 4096).toNat n.toNat = true) ↔
      ((p.toNat / 4096 + n.toNat ≤ s.bound ∧
          ∀ i < n.toNat, s.isFree (p.toNat / 4096 + i) = false) ∨
        (2 ^ 32 ≤ p.toNat / 4096 + n.toNat ∧ p.toNat / 4096 + n.toNat - 2 ^ 32 ≤ s.bound ∧
          ∀ i < n.toNat, s.isFree (u32 (p.toNat / 4096 + i)) = false)) := by
  have hblock : (p / 4096).toNat = p.toNat / 4096 := by rw [UInt32.toNat_div]; rfl
  have hb : p.toNat / 4096 < 2 ^ 20 :=
    Nat.div_lt_of_lt_mul (by simpa using UInt32.toNat_lt p)
  have hn := UInt32.toNat_lt n
  have hle : p / 4096 + n ≤ s.maxBlocks ↔ (p.toNat / 4096 + n.toNat) % 2 ^ 32 ≤ s.bound := by
    rw [UInt32.le_iff_toNat_le, UInt32.toNat_add, hblock]
    rfl
  rw [hle, hblock, Pmm.noneFree_iff]
  by_cases hwrap : p.toNat / 4096 + n.toNat < 2 ^ 32
  · rw [Nat.mod_eq_of_lt hwrap]
    constructor
    · rintro ⟨hsum, hnone⟩
      exact Or.inl ⟨hsum, fun i hi => by have := hnone i hi; rwa [u32_of_lt (by omega)] at this⟩
    · rintro (⟨hsum, hnone⟩ | ⟨hge, -⟩)
      · exact ⟨hsum, fun i hi => by rw [u32_of_lt (by omega)]; exact hnone i hi⟩
      · omega
  · have hmod : (p.toNat / 4096 + n.toNat) % 2 ^ 32 = p.toNat / 4096 + n.toNat - 2 ^ 32 := by
      omega
    rw [hmod]
    constructor
    · rintro ⟨hsum, hnone⟩
      exact Or.inr ⟨by omega, hsum, hnone⟩
    · rintro (⟨hsum, -⟩ | ⟨-, hsum, hnone⟩)
      · omega
      · exact ⟨hsum, hnone⟩

/-- A misdirected free call leaves the state alone exactly when it is not one of those that
clear bits anyway. -/
theorem next_eq_self_iff {s : Pmm} (hs : s.bound < 2 ^ 20) {c : PmmCall}
    (hbad : c.Misdirected s) : c.next s = s ↔ ¬ c.ClearsAnyway s := by
  cases c with
  | freeBlock p => exact iff_of_true rfl id
  | freeBlocks p n => exact iff_of_true (pmmFreeBlocks_eq s p n) id
  | freeContiguous p n =>
      show pmmFreeContiguous s p n = s ↔ _
      rw [pmmFreeContiguous_eq_self_iff, freeContiguous_passes_iff hs, not_iff_not]
      refine and_congr_right fun _ => and_congr_right fun _ => ?_
      constructor
      · rintro (⟨hsum, hnone⟩ | hwrap)
        · rcases hbad with hal | hout | ⟨i, hi, hfree⟩
          · exact Or.inl ⟨hal, hsum, hnone⟩
          · omega
          · rw [hnone i hi] at hfree
            exact Bool.noConfusion hfree
        · exact Or.inr hwrap
      · rintro (⟨-, hused⟩ | hwrap)
        · exact Or.inl hused
        · exact Or.inr hwrap
  | _ => exact hbad.elim

/-- **Free undoes allocation.** At every reachable state: among successful allocations,
exactly those of `pmm_alloc_contiguous` are undone by their free function; and a misdirected
free call changes nothing exactly when it does not clear bits anyway. -/
theorem pmm_free_undoes_alloc (s : Pmm) (hs : PmmReachable s) :
    (∀ pair : PmmPair, (pair.alloc s).1 ≠ 0 → (pair.Restores s ↔ ∃ n, pair = .contiguous n)) ∧
      ∀ c : PmmCall, c.Misdirected s → (c.next s = s ↔ ¬ c.ClearsAnyway s) := by
  refine ⟨fun pair hp => ?_, fun c hbad => next_eq_self_iff hs.bound_lt hbad⟩
  cases pair with
  | block => exact iff_of_false (not_restores_block hp) (by rintro ⟨n, h⟩; cases h)
  | blocks n => exact iff_of_false (not_restores_blocks hp) (by rintro ⟨n, h⟩; cases h)
  | contiguous n => exact iff_of_true (restores_contiguous hs.bound_lt hp) ⟨n, rfl⟩

/-- Eight blocks of memory, all reserved by `pmm_init`, of which block 1 is released. -/
def oneBlockFree : Pmm :=
  (PmmCall.markUnusedRegion 0x1000 0x1000).next
    (pmmInit ⟨0x100000, 0x101000⟩ 0x8000 0x100800 fun _ => 0)

theorem reachable_oneBlockFree : PmmReachable oneBlockFree := .step _ (.init _ _ _ _)

/-- Both parts at `oneBlockFree`: a contiguous block is given back, and freeing the unaligned
address `0x2001` with `pmm_free_block` changes nothing. -/
theorem pmm_free_undoes_alloc_one :
    (PmmPair.contiguous 1).Restores oneBlockFree ∧
      (PmmCall.freeBlock 0x2001).next oneBlockFree = oneBlockFree :=
  ⟨((pmm_free_undoes_alloc _ reachable_oneBlockFree).1 (.contiguous 1) (by decide +kernel)).mpr
      ⟨1, rfl⟩,
    ((pmm_free_undoes_alloc _ reachable_oneBlockFree).2 (.freeBlock 0x2001)
      (Or.inl (by decide))).mpr id⟩

/-- Block 1 is allocated there by `pmm_alloc_block` and stays used when it is freed. -/
theorem pmm_free_does_not_undo_alloc :
    ¬ ∀ s, PmmReachable s → ∀ pair : PmmPair, (pair.alloc s).1 ≠ 0 → pair.Restores s := by
  intro h
  have hcount := (h _ reachable_oneBlockFree .block (by decide +kernel)).2
  exact absurd hcount (by decide +kernel)

end HalOS
