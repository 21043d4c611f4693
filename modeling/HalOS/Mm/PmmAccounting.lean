import Mathlib.Order.Interval.Finset.Nat
import HalOS.Mm.PmmExclusive

/-!
# Accounting of Physical Blocks

The bitmap and the counter are written separately. A state is accounted when the counter
is the number of used blocks that exist and no access has left the bitmap. `pmm_init`
establishes this, and every call keeps it with two exceptions (`PmmCall.Overruns`):

* a `pmm_alloc_blocks` that wraps round marks and counts blocks past the end;
* a `pmm_free_contiguous` whose block number and length add up to more than `2 ^ 32`
  passes its range check on the wrapped sum and clears bits far outside.

The purpose of the allocator is a set of used blocks that grows by free runs and shrinks
by released ones. `BlockPool` is that model, and `poolStep_next` shows that every call
which does not overrun is one of its steps.

## Main results

* `accounted_next_iff`: one call, in both directions.
* `pmm_accounting`: whole runs from `pmm_init`.
* `poolStep_next`: the bitmap refines the pool of blocks.
-/

namespace HalOS

open Bitmap (setRun clearRun members)
open Loop (IsRun)

/-- The counter is the number of used blocks that exist, and no bit at or above
`maxBlocks` has been read or written. -/
structure Pmm.Accounted (s : Pmm) : Prop where
  counted : s.usedBlocks.toNat = s.usedSet.card
  inRange : s.outOfBounds = false
  used_le : s.usedBlocks ≤ s.maxBlocks

theorem Pmm.card_usedSet_le (s : Pmm) : s.usedSet.card ≤ s.bound := Bitmap.card_members_le _ _

/-- The last field of `Accounted` follows from the first. -/
theorem Pmm.Accounted.of_counted {s : Pmm} (hc : s.usedBlocks.toNat = s.usedSet.card)
    (ho : s.outOfBounds = false) : s.Accounted :=
  ⟨hc, ho, UInt32.le_iff_toNat_le.mpr (hc ▸ s.card_usedSet_le)⟩

theorem Pmm.bound_lt_word (s : Pmm) : s.bound < 2 ^ 32 := UInt32.toNat_lt s.maxBlocks

/-! ### What the steps do to the accounts -/

theorem accounted_regionStep (used : Bool) (s : Pmm) (b : ℕ) (hb : b < s.bound)
    (h : s.Accounted) : (regionStep used s b).Accounted := by
  have hlt := s.bound_lt_word
  unfold regionStep
  by_cases hu : s.isUsed b = used
  · rwa [if_pos hu]
  · rw [if_neg hu]
    cases used with
    | true =>
        have hclear : Bitmap.test s.memoryMap b = false := by simpa [Pmm.isUsed] using hu
        have hcard := Bitmap.card_members_set hb hclear
        have hle := Bitmap.card_members_le (Bitmap.set s.memoryMap b) s.bound
        have hcount := h.counted
        simp only [if_true, markBlockUsed_of_lt hb]
        refine Pmm.Accounted.of_counted ?_ h.inRange
        simp only [UInt32.toNat_add]
        show (s.usedBlocks.toNat + 1) % 2 ^ 32 = (members (Bitmap.set s.memoryMap b) s.bound).card
        rw [hcard, hcount]
        exact Nat.mod_eq_of_lt (by rw [← Pmm.usedSet] at hcard; omega)
    | false =>
        have hset : Bitmap.test s.memoryMap b = true := by simpa [Pmm.isUsed] using hu
        have hcard := Bitmap.card_members_clear hb hset
        have hcount := h.counted
        have hle : (1 : UInt32) ≤ s.usedBlocks := by
          rw [UInt32.le_iff_toNat_le, hcount, Pmm.usedSet]
          show 1 ≤ _
          omega
        simp only [Bool.false_eq_true, if_false, markBlockUnused_of_lt hb]
        refine Pmm.Accounted.of_counted ?_ h.inRange
        rw [UInt32.toNat_sub_of_le _ _ hle, hcount]
        show s.usedSet.card - 1 = (members (Bitmap.clear s.memoryMap b) s.bound).card
        rw [Pmm.usedSet]
        omega

theorem accounted_markRegion (used : Bool) (n b : ℕ) {s : Pmm} (h : s.Accounted) :
    (markRegion used n b s).Accounted :=
  markRegion_induction (fun t b hb ht => accounted_regionStep used t b hb ht) h

/-- Taking a free run keeps the accounts. -/
theorem TakesRun.accounted {s s' : Pmm} {n start : ℕ} (ht : TakesRun s n start s')
    (h : s.Accounted) : s'.Accounted := by
  refine Pmm.Accounted.of_counted ?_ (by rw [ht.outOfBounds, h.inRange])
  rcases Nat.eq_zero_or_pos n with rfl | hn
  · simp [Pmm.usedSet, ht.bound, ht.memoryMap, ht.usedBlocks, h.counted, setRun]
  · have hle := Pmm.le_bound_of_isRun hn ht.run
    have hlt := s.bound_lt_word
    have hcard := Bitmap.card_members_setRun hle fun k hk =>
      Pmm.isUsed_eq_false_of_isFree (ht.run k hk)
    have hmax := Bitmap.card_members_le (setRun s.memoryMap start n) s.bound
    have hcount := h.counted
    rw [Pmm.usedSet] at hcount
    rw [ht.usedBlocks, Pmm.usedSet, ht.bound, ht.memoryMap, UInt32.toNat_add,
      UInt32.toNat_ofNat', hcard, hcount, Nat.mod_eq_of_lt (by omega : n < 2 ^ 32)]
    exact Nat.mod_eq_of_lt (by omega)

/-- Clearing a run of blocks in range. -/
theorem markRunUnused_of_le {block n i : ℕ} {s : Pmm} (h : block + i + n ≤ s.bound) :
    markRunUnused block n i s =
      { s with
        memoryMap := clearRun s.memoryMap (block + i) n
        usedBlocks := s.usedBlocks - UInt32.ofNat n } := by
  have hword := s.bound_lt_word
  induction n generalizing i s with
  | zero => simp [markRunUnused, clearRun]
  | succ n ih =>
      have hlt : block + i < s.bound := by omega
      rw [markRunUnused, u32_of_lt (by omega), markBlockUnused_of_lt hlt,
        ih (by simp only [Pmm.bound] at h ⊢; omega) (by simp only [Pmm.bound] at hword ⊢; omega)]
      have hcount : s.usedBlocks - 1 - UInt32.ofNat n = s.usedBlocks - UInt32.ofNat (n + 1) := by
        rw [UInt32.ofNat_add]
        show _ = s.usedBlocks - (UInt32.ofNat n + 1)
        grind
      simp only [clearRun, hcount, Nat.add_assoc]

theorem outOfBounds_markRunUnused_mono {block n i : ℕ} {s : Pmm} (h : s.outOfBounds = true) :
    (markRunUnused block n i s).outOfBounds = true := by
  induction n generalizing i s with
  | zero => exact h
  | succ n ih =>
      refine ih ?_
      simp [markBlockUnused, Pmm.clearBit, Pmm.touch, h]

/-- Clearing a run that meets an index outside the bitmap is recorded. -/
theorem outOfBounds_markRunUnused {block n i k : ℕ} {s : Pmm} (hi : i ≤ k) (hk : k < i + n)
    (h : s.bound ≤ u32 (block + k)) : (markRunUnused block n i s).outOfBounds = true := by
  induction n generalizing i s with
  | zero => omega
  | succ n ih =>
      rw [markRunUnused]
      rcases Nat.eq_or_lt_of_le hi with rfl | hlt
      · refine outOfBounds_markRunUnused_mono ?_
        simp [markBlockUnused, Pmm.clearBit, Pmm.touch, h]
      · exact ih (by omega) (by omega) (by rwa [bound_markBlockUnused])

/-! ### The two overruns -/

/-- The call leaves the bitmap: a `pmm_alloc_blocks` that wraps round, or a
`pmm_free_contiguous` whose range wraps past `2 ^ 32`, passes the check on the wrapped sum
and meets no free block. -/
def PmmCall.Overruns (s : Pmm) : PmmCall → Prop
  | allocBlocks n => validateAllocationRequest s n = true ∧ s.WrapsRound n.toNat
  | freeContiguous p n =>
      p ≠ 0 ∧ 2 ^ 32 ≤ (p / 4096).toNat + n.toNat ∧ p / 4096 + n ≤ s.maxBlocks ∧
        s.noneFree (p / 4096).toNat n.toNat = true
  | _ => False

theorem PmmCall.not_wrapsRound_of_not_overruns {s : Pmm} {c : PmmCall} (h : ¬ c.Overruns s) :
    ¬ c.WrapsRound s := by
  cases c with
  | allocBlocks n => exact h
  | _ => exact id

theorem Pmm.noneFree_iff {s : Pmm} {block n : ℕ} :
    s.noneFree block n = true ↔ ∀ i < n, s.isFree (u32 (block + i)) = false := by
  simp [Pmm.noneFree]

/-- A `pmm_free_contiguous` that reaches its clearing loop without overrunning clears a run
of used blocks in range. -/
theorem usedRun_of_noneFree {s : Pmm} {p n : UInt32} (hsum : (p / 4096).toNat + n.toNat < 2 ^ 32)
    (hle : p / 4096 + n ≤ s.maxBlocks) (hnone : s.noneFree (p / 4096).toNat n.toNat = true) :
    (p / 4096).toNat + n.toNat ≤ s.bound ∧
      ∀ k < n.toNat, s.isUsed ((p / 4096).toNat + k) = true := by
  have hbound : (p / 4096).toNat + n.toNat ≤ s.bound := by
    have := UInt32.le_iff_toNat_le.mp hle
    rwa [UInt32.toNat_add, Nat.mod_eq_of_lt hsum] at this
  refine ⟨hbound, fun k hk => ?_⟩
  have := Pmm.noneFree_iff.mp hnone k hk
  rw [u32_of_lt (by omega)] at this
  have hlt : (p / 4096).toNat + k < s.bound := by omega
  cases hu : s.isUsed ((p / 4096).toNat + k) with
  | true => rfl
  | false => rw [Pmm.isFree_iff.mpr ⟨hlt, hu⟩] at this; exact this.symm

theorem accounted_freeContiguous {s : Pmm} {p n : UInt32} (h : s.Accounted)
    (ho : ¬ (PmmCall.freeContiguous p n).Overruns s) : (pmmFreeContiguous s p n).Accounted := by
  rw [pmmFreeContiguous_eq]
  split_ifs with hpass
  · obtain ⟨hp, hn, hle, hnone⟩ := hpass
    have hsum : (p / 4096).toNat + n.toNat < 2 ^ 32 := by
      by_contra hge
      exact ho ⟨hp, by omega, hle, hnone⟩
    obtain ⟨hbound, hused⟩ := usedRun_of_noneFree hsum hle hnone
    have hcard := Bitmap.card_members_clearRun hbound hused
    have hcount := h.counted
    rw [markRunUnused_of_le (by omega), UInt32.ofNat_toNat]
    refine Pmm.Accounted.of_counted ?_ h.inRange
    have hnle : n ≤ s.usedBlocks := by
      rw [UInt32.le_iff_toNat_le, hcount, Pmm.usedSet]
      omega
    rw [UInt32.toNat_sub_of_le _ _ hnle, hcount]
    show s.usedSet.card - n.toNat =
      (members (clearRun s.memoryMap ((p / 4096).toNat + 0) n.toNat) s.bound).card
    rw [Pmm.usedSet, Nat.add_zero]
    omega
  · exact h

/-- A call that overruns is recorded as out of bounds. -/
theorem outOfBounds_of_overruns {s : Pmm} {c : PmmCall} (ho : c.Overruns s) :
    (c.next s).outOfBounds = true := by
  cases c with
  | allocBlocks n =>
      obtain ⟨hv, hw⟩ := ho
      obtain ⟨hnw, -⟩ | ⟨-, c, start, hc, hcn, hstart, h⟩ := pmmAllocBlocks_spec hv
      · exact absurd hw hnw
      · have hout : 0 < n.toNat ∧ s.bound < start + n.toNat := by omega
        simp [PmmCall.next, PmmCall.run, h, takeRun, markRunUsed_eq, hout]
  | freeContiguous p n =>
      obtain ⟨hp, hsum, hle, hnone⟩ := ho
      have hblock : (p / 4096).toNat < 2 ^ 20 := by
        rw [UInt32.toNat_div]
        exact Nat.div_lt_of_lt_mul (by simpa using UInt32.toNat_lt p)
      have hn0 : n ≠ 0 := by
        rintro rfl
        rw [UInt32.toNat_zero] at hsum
        omega
      simp only [PmmCall.next, PmmCall.run, pmmFreeContiguous_eq]
      rw [if_pos ⟨hp, hn0, hle, hnone⟩]
      -- the loop passes the index `2 ^ 32 - 1`, above any bitmap
      refine outOfBounds_markRunUnused (k := 2 ^ 32 - 1 - (p / 4096).toNat) (by omega) ?_ ?_
      · omega
      · have := s.bound_lt_word
        rw [u32_of_lt (by omega)]
        omega
  | _ => exact ho.elim

/-- **One call.** From an accounted state a call leads to an accounted state exactly when
it does not overrun. -/
theorem accounted_next_iff {s : Pmm} (h : s.Accounted) (c : PmmCall) :
    (c.next s).Accounted ↔ ¬ c.Overruns s := by
  constructor
  · intro hnext ho
    have := outOfBounds_of_overruns ho
    rw [hnext.inRange] at this
    exact Bool.noConfusion this
  · intro ho
    have halloc : ∀ n, c.requested = some n → (c.next s).Accounted := by
      intro n hn
      rcases run_eq_or_takesRun hn (PmmCall.not_wrapsRound_of_not_overruns ho) with
        hfail | ⟨start, -, ht⟩
      · rwa [PmmCall.next, hfail]
      · exact ht.accounted h
    cases c with
    | markUsedRegion base size => exact accounted_markRegion true _ _ h
    | markUnusedRegion base size => exact accounted_markRegion false _ _ h
    | allocBlock => exact halloc 1 rfl
    | allocBlocks n => exact halloc n rfl
    | allocContiguous n => exact halloc n rfl
    | allocBlocksInRange n lo hi => exact halloc n rfl
    | freeBlock p => exact h
    | freeBlocks p n => simpa [PmmCall.next, PmmCall.run, pmmFreeBlocks_eq] using h
    | freeContiguous p n => exact accounted_freeContiguous h ho

/-! ### Runs -/

theorem accounted_pmmInit (kernel : KernelImage) (memSize bitmap : UInt32)
    (bytes : ℕ → UInt8) : (pmmInit kernel memSize bitmap bytes).Accounted := by
  unfold pmmInit
  split_ifs with h0
  · exact Pmm.Accounted.of_counted rfl rfl
  · have hbytes := toNat_bitmapSize memSize
    -- before the three regions are marked the counter and every bit are zero
    have hzero : ∀ (size : UInt32) (lo : ℕ → UInt8), Pmm.Accounted
        { Pmm.blank
            (fun i => if i < (((memSize + 4095) / 4096 + 7) / 8).toNat then 0 else lo i) with
          memorySize := size
          maxBlocks := (memSize + 4095) / 4096 } := by
      intro size lo
      refine Pmm.Accounted.of_counted ?_ rfl
      refine (Finset.card_eq_zero.mpr (Finset.eq_empty_of_forall_notMem fun i hi => ?_)).symm
      obtain ⟨hlt, htest⟩ := Bitmap.mem_members.mp hi
      have hbyte : i / 8 < (((memSize + 4095) / 4096 + 7) / 8).toNat := by
        have : i < ((memSize + 4095) / 4096).toNat := hlt
        omega
      rw [Bitmap.test_of_byte_eq_zero (by simp only [Pmm.blank, hbyte, if_true])] at htest
      exact Bool.noConfusion htest
    have hregions := accounted_markRegion true (regionBlocks ((memSize + 4095) / 4096 / 8))
      (bitmap / 4096).toNat (accounted_markRegion true
        (regionBlocks (kernel.physicalEnd - kernel.physicalStart))
        (kernel.physicalStart / 4096).toNat
        (accounted_markRegion true (regionBlocks 0x100000) ((0 : UInt32) / 4096).toNat
          (hzero memSize bytes)))
    exact ⟨hregions.counted, hregions.inRange, hregions.used_le⟩

/-- The state after a sequence of calls. -/
def runCalls (s : Pmm) (calls : List PmmCall) : Pmm := calls.foldl PmmCall.next s

theorem accounted_run_iff {s : Pmm} (h : s.Accounted) (calls : List PmmCall) :
    (∀ pre, pre <+: calls → (runCalls s pre).Accounted) ↔
      ∀ pre c, pre ++ [c] <+: calls → ¬ c.Overruns (runCalls s pre) := by
  constructor
  · intro hall pre c hpre
    have hbefore := hall pre ((List.prefix_append pre [c]).trans hpre)
    have hafter := hall (pre ++ [c]) hpre
    rw [runCalls, List.foldl_append] at hafter
    exact (accounted_next_iff hbefore c).mp hafter
  · intro hall pre
    induction pre using List.reverseRecOn with
    | nil => exact fun _ => h
    | append_singleton pre c ih =>
        intro hpre
        have hbefore := ih ((List.prefix_append pre [c]).trans hpre)
        rw [runCalls, List.foldl_append]
        exact (accounted_next_iff hbefore c).mpr (hall pre c hpre)

/-- **The accounting invariant.** In every run from `pmm_init`, whatever the calls and
their arguments: all states are accounted if and only if no call overruns. -/
theorem pmm_accounting (kernel : KernelImage) (memSize bitmap : UInt32) (bytes : ℕ → UInt8)
    (calls : List PmmCall) :
    (∀ pre, pre <+: calls → (runCalls (pmmInit kernel memSize bitmap bytes) pre).Accounted) ↔
      ∀ pre c, pre ++ [c] <+: calls →
        ¬ c.Overruns (runCalls (pmmInit kernel memSize bitmap bytes) pre) :=
  accounted_run_iff (accounted_pmmInit kernel memSize bitmap bytes) calls

/-- Three blocks of memory; the first and the last are released and `pmm_alloc_blocks` is
asked for two. It marks block 3, which does not exist. -/
theorem pmm_accounting_fails :
    ¬ ∀ kernel memSize bitmap bytes calls,
      (runCalls (pmmInit kernel memSize bitmap bytes) calls).Accounted := by
  intro h
  have hrun := (h ⟨0x100000, 0x101000⟩ 0x3000 0x100800 (fun _ => 0)
    [.markUnusedRegion 0 0x1000, .markUnusedRegion 0x2000 0x1000, .allocBlocks 2]).inRange
  exact absurd hrun (by decide +kernel)

/-! ### The pool of blocks -/

/-- What the allocator is for: a set of used blocks below a bound. -/
@[ext] structure BlockPool where
  bound : ℕ
  used : Finset ℕ
  used_lt : ∀ b ∈ used, b < bound

namespace BlockPool

/-- One step of the pool: nothing happens, a run of unused blocks is taken, the blocks of a
region that exist are reserved, or the blocks of a region are released. -/
inductive Step (P : BlockPool) : BlockPool → Prop
  | idle : Step P P
  | take {P' : BlockPool} (start n : ℕ) : P'.bound = P.bound → start + n ≤ P.bound →
      Disjoint P.used (Finset.Ico start (start + n)) →
      P'.used = P.used ∪ Finset.Ico start (start + n) → Step P P'
  | reserve {P' : BlockPool} (start n : ℕ) : P'.bound = P.bound →
      P'.used = P.used ∪ (Finset.Ico start (start + n) ∩ Finset.range P.bound) → Step P P'
  | release {P' : BlockPool} (start n : ℕ) : P'.bound = P.bound →
      P'.used = P.used \ Finset.Ico start (start + n) → Step P P'

end BlockPool

/-- The pool a state stands for. -/
def Pmm.pool (s : Pmm) : BlockPool where
  bound := s.bound
  used := s.usedSet
  used_lt := fun _ hb => (Pmm.mem_usedSet.mp hb).1

/-- Region calls reserve or release. -/
theorem poolStep_markRegion (used : Bool) (n b : ℕ) (s : Pmm) :
    BlockPool.Step s.pool (markRegion used n b s).pool := by
  have hbound := bound_markRegion used n b s
  cases used with
  | true =>
      refine .reserve b n hbound ?_
      ext j
      simp only [Pmm.pool, Finset.mem_union, Pmm.mem_usedSet, hbound, isUsed_markRegion,
        Finset.mem_inter, Finset.mem_Ico, Finset.mem_range]
      split_ifs with hj
      · simp [hj]
      · constructor
        · exact Or.inl
        · rintro (h | ⟨⟨h1, h2⟩, h3⟩)
          · exact h
          · exact absurd ⟨h1, h2, h3⟩ hj
  | false =>
      refine .release b n hbound ?_
      ext j
      simp only [Pmm.pool, Finset.mem_sdiff, Pmm.mem_usedSet, hbound, isUsed_markRegion,
        Finset.mem_Ico]
      split_ifs with hj
      · simp [hj]
      · constructor
        · rintro ⟨h1, h2⟩
          exact ⟨⟨h1, h2⟩, fun h => hj ⟨h.1, h.2, h1⟩⟩
        · exact fun h => h.1

theorem TakesRun.poolStep {s s' : Pmm} {n start : ℕ} (h : TakesRun s n start s') :
    BlockPool.Step s.pool s'.pool := by
  rcases Nat.eq_zero_or_pos n with rfl | hn
  · have hsame : s'.pool = s.pool := by
      ext1
      · exact h.bound
      · ext j
        have hj : ¬ (start ≤ j ∧ j < start + 0) := by omega
        simp only [Pmm.pool, Pmm.mem_usedSet, h.bound, h.isUsed, decide_eq_false hj,
          Bool.false_or]
    rw [hsame]
    exact .idle
  · have hle := Pmm.le_bound_of_isRun hn h.run
    refine .take start n h.bound hle ?_ ?_
    · refine Finset.disjoint_left.mpr fun j hj hrun => ?_
      obtain ⟨hlo, hhi⟩ := Finset.mem_Ico.mp hrun
      obtain ⟨i, rfl⟩ := Nat.exists_eq_add_of_le hlo
      have hfree := Pmm.isUsed_eq_false_of_isFree (h.run i (by omega))
      rw [(Pmm.mem_usedSet.mp hj).2] at hfree
      exact Bool.noConfusion hfree
    · ext j
      simp only [Pmm.pool, Finset.mem_union, Pmm.mem_usedSet, h.bound, h.isUsed, Bool.or_eq_true,
        decide_eq_true_eq, Finset.mem_Ico]
      constructor
      · rintro ⟨hj, hrun | hu⟩
        · exact Or.inr hrun
        · exact Or.inl ⟨hj, hu⟩
      · rintro (⟨hj, hu⟩ | hrun)
        · exact ⟨hj, Or.inr hu⟩
        · exact ⟨by omega, Or.inl hrun⟩

/-- **Refinement.** A call that does not overrun is one step of the pool of blocks. -/
theorem poolStep_next {s : Pmm} {c : PmmCall} (ho : ¬ c.Overruns s) :
    BlockPool.Step s.pool (c.next s).pool := by
  have halloc : ∀ n, c.requested = some n → BlockPool.Step s.pool (c.next s).pool := by
    intro n hn
    rcases run_eq_or_takesRun hn (PmmCall.not_wrapsRound_of_not_overruns ho) with
      hfail | ⟨start, -, ht⟩
    · rw [PmmCall.next, hfail]
      exact .idle
    · exact ht.poolStep
  cases c with
  | markUsedRegion base size => exact poolStep_markRegion true _ _ s
  | markUnusedRegion base size => exact poolStep_markRegion false _ _ s
  | allocBlock => exact halloc 1 rfl
  | allocBlocks n => exact halloc n rfl
  | allocContiguous n => exact halloc n rfl
  | allocBlocksInRange n lo hi => exact halloc n rfl
  | freeBlock p => exact .idle
  | freeBlocks p n =>
      rw [PmmCall.next, PmmCall.run, pmmFreeBlocks_eq]
      exact .idle
  | freeContiguous p n =>
      simp only [PmmCall.next, PmmCall.run, pmmFreeContiguous_eq]
      split_ifs with hpass
      · obtain ⟨hp, hn, hle, hnone⟩ := hpass
        have hsum : (p / 4096).toNat + n.toNat < 2 ^ 32 := by
          by_contra hge
          exact ho ⟨hp, by omega, hle, hnone⟩
        obtain ⟨hbound, -⟩ := usedRun_of_noneFree hsum hle hnone
        rw [markRunUnused_of_le (by omega)]
        refine .release (p / 4096).toNat n.toNat rfl ?_
        ext j
        simp only [Pmm.pool, Finset.mem_sdiff, Pmm.mem_usedSet, Pmm.isUsed,
          Bitmap.test_clearRun, Nat.add_zero, Finset.mem_Ico, Bool.and_eq_true, Bool.not_eq_true',
          decide_eq_false_iff_not]
        constructor
        · rintro ⟨hj, hout, hu⟩
          exact ⟨⟨hj, hu⟩, hout⟩
        · rintro ⟨⟨hj, hu⟩, hout⟩
          exact ⟨hj, hout, hu⟩
      · exact .idle

end HalOS
