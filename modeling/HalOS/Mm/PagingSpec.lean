import HalOS.Mm.Paging
import HalOS.Mm.PmmExclusive

/-!
# Page Tables as a Page Tree

The directory and tables of `HalOS.Mm.Paging` are a page tree: `pageFormat` says how the
source reads an entry, and `Paging.entry` is the leaf that a walk finds for a page number.
`virt_to_phys` reads that leaf, `paging_map_page` writes it and `paging_unmap_page` clears
it, provided the tables are in order (`Paging.Sound`): the directory and the tables are
used blocks of the physical memory manager, no table is the directory, and no table serves
two directory entries, entries 0 and 768 apart.

## Main results

* `virtToPhys_eq`: translation is a walk.
* `pagingMapPage_cases`: the four things `paging_map_page` can do.
* `Paging.Sound.map`, `entry_map`, `Paging.Sound.unmap`, `entry_unmap`: what mapping and
  unmapping do to sound tables and to every entry.
* `sound_pagingInit`: the tables of `paging_init` are sound.
-/

namespace HalOS

open PageTree (fill write walk Separated Fresh)

/-! ### Addresses and entries -/

/-- The number of the page that `addr` lies on. -/
def pageNum (addr : UInt32) : ℕ := addr.toNat / 4096

theorem pageNum_lt (addr : UInt32) : pageNum addr < 2 ^ 20 := by
  have := UInt32.toNat_lt addr
  exact Nat.div_lt_of_lt_mul (by simpa using this)

theorem toNat_pageBase (a : UInt32) : (pageBase a).toNat = a.toNat / 4096 * 4096 := by
  have hmask : (0xFFFFF000 : UInt32).toNat = (2 ^ 20 - 1) * 2 ^ 12 := by decide
  rw [pageBase, UInt32.toNat_and, hmask]
  exact Bitmap.and_upper_mask a.toNat_lt

theorem pdIndex_eq (v : UInt32) : pdIndex v = pageNum v / 1024 := by
  rw [pdIndex, UInt32.toNat_shiftRight, pageNum, Nat.div_div_eq_div_mul]
  simp [Nat.shiftRight_eq_div_pow]

theorem ptIndex_eq (v : UInt32) : ptIndex v = pageNum v % 1024 := by
  have h3 : (0x3FF : UInt32).toNat = 2 ^ 10 - 1 := by decide
  rw [ptIndex, UInt32.toNat_and, h3, Nat.and_two_pow_sub_one_eq_mod, UInt32.toNat_shiftRight,
    pageNum]
  simp [Nat.shiftRight_eq_div_pow]

theorem pageBase_or (a b : UInt32) : pageBase (a ||| b) = pageBase a ||| pageBase b :=
  UInt32.toBitVec_inj.mp BitVec.and_or_distrib_right

theorem pageBase_of_lt {f : UInt32} (h : f < 0x1000) : pageBase f = 0 := by
  apply UInt32.toNat_inj.mp
  have hlt : f.toNat < 4096 := UInt32.lt_iff_toNat_lt.mp h
  rw [toNat_pageBase, Nat.div_eq_of_lt hlt]
  rfl

theorem pageBase_pageBase (a : UInt32) : pageBase (pageBase a) = pageBase a := by
  apply UInt32.toNat_inj.mp
  rw [toNat_pageBase, toNat_pageBase]
  omega

/-- The frame of the leaf that `paging_map_page` writes. -/
theorem pageBase_leaf (p : UInt32) {f : UInt32} (h : f < 0x1000) :
    pageBase (pageBase p ||| f ||| 1) = pageBase p := by
  rw [pageBase_or, pageBase_or, pageBase_pageBase, pageBase_of_lt h,
    pageBase_of_lt (f := 1) (by decide), UInt32.or_zero, UInt32.or_zero]

theorem pageBase_blockAddr {b : ℕ} (h : b < 2 ^ 20) : pageBase (blockAddr b) = blockAddr b := by
  apply UInt32.toNat_inj.mp
  rw [toNat_pageBase, toNat_blockAddr h]
  omega

theorem blockAddr_inj {b c : ℕ} (hb : b < 2 ^ 20) (hc : c < 2 ^ 20)
    (h : blockAddr b = blockAddr c) : b = c := by
  have := congrArg UInt32.toNat h
  rw [toNat_blockAddr hb, toNat_blockAddr hc] at this
  omega

theorem isPresent_iff (e : UInt32) : isPresent e = true ↔ e.toNat % 2 = 1 := by
  have hand : (e &&& 1).toNat = e.toNat % 2 := by
    rw [UInt32.toNat_and]
    exact Nat.and_one_is_mod _
  rw [isPresent, bne_iff_ne, ne_eq, ← UInt32.toNat_inj, hand, UInt32.toNat_zero]
  omega

@[simp] theorem isPresent_or_one (e : UInt32) : isPresent (e ||| 1) = true := by
  rw [isPresent_iff, UInt32.toNat_or]
  exact (Nat.or_mod_two_pow (n := 1)).trans (by
    rcases Nat.mod_two_eq_zero_or_one e.toNat with h | h <;> simp [h])

@[simp] theorem isPresent_or_three (e : UInt32) : isPresent (e ||| (1 ||| 2)) = true := by
  rw [UInt32.or_comm 1, ← UInt32.or_assoc, isPresent_or_one]

@[simp] theorem isPresent_zero : isPresent 0 = false := by decide

/-! ### The page tree -/

/-- How `paging.c` reads an entry. -/
def pageFormat : PageTree.Format UInt32 where
  slots := 1024
  present := isPresent
  frame := fun e => wordIndex (pageBase e)
  dvd_frame := fun e => by
    rw [wordIndex, toNat_pageBase]
    omega

/-- Entries 0 and 768 of the directory may name one table. -/
def Twin (i k : ℕ) : Prop := i = 0 ∧ k = 768 ∨ i = 768 ∧ k = 0

/-- Two entries point at one word exactly when they name one frame. -/
theorem frame_eq_iff {e e' : UInt32} :
    pageFormat.frame e = pageFormat.frame e' ↔ pageBase e = pageBase e' := by
  constructor
  · intro h
    apply UInt32.toNat_inj.mp
    have hw : (pageBase e).toNat / 4 = (pageBase e').toNat / 4 := h
    rw [toNat_pageBase, toNat_pageBase] at hw ⊢
    omega
  · intro h
    exact congrArg wordIndex h

theorem wordIndex_blockAddr {b : ℕ} (h : b < 2 ^ 20) : wordIndex (blockAddr b) = b * 1024 := by
  rw [wordIndex, toNat_blockAddr h]
  omega

namespace Paging

/-- The leaf that the tables hold for page `n`. -/
def entry (s : Paging) (n : ℕ) : Option UInt32 :=
  walk pageFormat s.mem (wordIndex s.pageDirectory) (n / 1024) (n % 1024)

/-- The frame `p` holds the directory or a table it names. -/
def Holds (s : Paging) (p : UInt32) : Prop :=
  p = s.pageDirectory ∨ ∃ i < 1024, isPresent (s.pde i) = true ∧ pageBase (s.pde i) = p

/-- The frame `p` is a used block. -/
def Owns (s : Paging) (p : UInt32) : Prop :=
  ∃ b < s.pmm.bound, s.pmm.isUsed b = true ∧ p = blockAddr b

/-- The tables are in order. -/
structure Sound (s : Paging) : Prop where
  bound_lt : s.pmm.bound < 2 ^ 20
  owned : ∀ p, s.Holds p → s.Owns p
  separated : Separated pageFormat s.mem (wordIndex s.pageDirectory) Twin

/-- The directory fills a frame. -/
def Aligned (s : Paging) : Prop := pageBase s.pageDirectory = s.pageDirectory

/-- Entry `i` of the directory names a page table: a frame other than the directory's. -/
structure HasTable (s : Paging) (i : ℕ) : Prop where
  present : isPresent (s.pde i) = true
  ne_dir : pageBase (s.pde i) ≠ s.pageDirectory

/-- Pages `n` and `m` are kept in one slot of one table. -/
def SameSlot (s : Paging) (n m : ℕ) : Prop :=
  isPresent (s.pde (n / 1024)) = true ∧ isPresent (s.pde (m / 1024)) = true ∧
    pageBase (s.pde (n / 1024)) = pageBase (s.pde (m / 1024)) ∧ n % 1024 = m % 1024

instance (s : Paging) (n m : ℕ) : Decidable (s.SameSlot n m) :=
  inferInstanceAs (Decidable (_ ∧ _ ∧ _ ∧ _))

end Paging

theorem entry_def (s : Paging) (n : ℕ) :
    s.entry n =
      if isPresent (s.pde (n / 1024)) then
        if isPresent (s.pte (n / 1024) (n % 1024)) then some (s.pte (n / 1024) (n % 1024))
        else none
      else none := rfl

/-- A page that is mapped lies under a present entry of the directory. -/
theorem isPresent_of_isSome_entry {s : Paging} {n : ℕ} (h : (s.entry n).isSome) :
    isPresent (s.pde (n / 1024)) = true := by
  by_contra habsent
  rw [entry_def, if_neg habsent] at h
  exact Bool.noConfusion h

/-- Translation is a walk. -/
theorem virtToPhys_eq (s : Paging) (v : UInt32) :
    virtToPhys s v =
      match s.entry (pageNum v) with
      | some e => pageBase e ||| (v &&& 0xFFF)
      | none => 0xFFFFFFFF := by
  rw [virtToPhys, entry_def, pdIndex_eq, ptIndex_eq]
  by_cases hd : isPresent (s.pde (pageNum v / 1024)) = true
  · by_cases ht : isPresent (s.pte (pageNum v / 1024) (pageNum v % 1024)) = true
    · simp [hd, ht]
    · simp [hd, ht]
  · simp [hd]

/-! ### What mapping can do -/

/-- What `pmm_alloc_block` can do. -/
theorem pmmAllocBlock_cases (s : Pmm) :
    s.firstFree = none ∧ pmmAllocBlock s = (0, s) ∨
      ∃ b, s.firstFree = some b ∧ s.isFree b = true ∧
        pmmAllocBlock s = (blockAddr b, markBlockUsed s b) := by
  rw [pmmAllocBlock_eq]
  cases hf : s.firstFree with
  | none => exact Or.inl ⟨rfl, rfl⟩
  | some b => exact Or.inr ⟨b, rfl, isFree_of_firstFree hf, rfl⟩

namespace Paging

/-- The tables after block `b` was zeroed and made the table of directory entry `i`. -/
def addTable (s : Paging) (i b : ℕ) : Paging :=
  { s with
    pmm := markBlockUsed s.pmm b
    mem := PageTree.install pageFormat s.mem (wordIndex s.pageDirectory) i
      (blockAddr b ||| (1 ||| 2)) 0
    tables := blockAddr b :: s.tables }

end Paging

theorem pageBase_tableEntry {b : ℕ} (h : b < 2 ^ 20) :
    pageBase (blockAddr b ||| (1 ||| 2)) = blockAddr b := by
  rw [pageBase_or, pageBase_blockAddr h, pageBase_of_lt (f := 1 ||| 2) (by decide),
    UInt32.or_zero]

/-- The three things the creation of a table can do: fail, fail and lose block 0, succeed. -/
theorem createTable_cases {s : Paging} (hs : s.pmm.bound < 2 ^ 20) (i : ℕ) :
    s.pmm.firstFree = none ∧ createTable s i = (false, s) ∨
      s.pmm.firstFree = some 0 ∧
        createTable s i = (false, { s with pmm := markBlockUsed s.pmm 0 }) ∨
      ∃ b, 0 < b ∧ s.pmm.firstFree = some b ∧ s.pmm.isFree b = true ∧
        createTable s i = (true, s.addTable i b) := by
  unfold createTable
  rcases pmmAllocBlock_cases s.pmm with ⟨hf, heq⟩ | ⟨b, hf, hfree, heq⟩
  · exact Or.inl ⟨hf, by simp [heq]⟩
  · have hb : b < 2 ^ 20 := lt_trans (Pmm.isFree_iff.mp hfree).1 hs
    rcases Nat.eq_zero_or_pos b with rfl | hpos
    · exact Or.inr (Or.inl ⟨hf, by simp [heq, blockAddr]⟩)
    · refine Or.inr (Or.inr ⟨b, hpos, hf, hfree, ?_⟩)
      simp only [heq, if_neg (blockAddr_ne_zero hpos hb)]
      simp only [Paging.addTable, Paging.setPde, Paging.zeroFrame, PageTree.install, pageFormat,
        pageBase_tableEntry hb]

/-- The four things `paging_map_page` can do. -/
theorem pagingMapPage_cases {s : Paging} (hs : s.pmm.bound < 2 ^ 20) (p v flags : UInt32) :
    (isPresent (s.pde (pdIndex v)) = true ∧
        pagingMapPage s p v flags =
          (true, s.setPte (pdIndex v) (ptIndex v) (pageBase p ||| flags ||| 1))) ∨
      (isPresent (s.pde (pdIndex v)) = false ∧ s.pmm.firstFree = none ∧
        pagingMapPage s p v flags = (false, s)) ∨
      (isPresent (s.pde (pdIndex v)) = false ∧ s.pmm.firstFree = some 0 ∧
        pagingMapPage s p v flags = (false, { s with pmm := markBlockUsed s.pmm 0 })) ∨
      ∃ b, isPresent (s.pde (pdIndex v)) = false ∧ 0 < b ∧ s.pmm.firstFree = some b ∧
        s.pmm.isFree b = true ∧
        pagingMapPage s p v flags =
          (true, (s.addTable (pdIndex v) b).setPte (pdIndex v) (ptIndex v)
            (pageBase p ||| flags ||| 1)) := by
  unfold pagingMapPage
  cases hd : isPresent (s.pde (pdIndex v)) with
  | true => exact Or.inl ⟨rfl, rfl⟩
  | false =>
      rw [if_neg Bool.false_ne_true]
      rcases createTable_cases hs (pdIndex v) with ⟨hf, heq⟩ | ⟨hf, heq⟩ | ⟨b, hb, hf, hfree, heq⟩
      · exact Or.inr (Or.inl ⟨rfl, hf, by rw [heq]⟩)
      · exact Or.inr (Or.inr (Or.inl ⟨rfl, hf, by rw [heq]⟩))
      · exact Or.inr (Or.inr (Or.inr ⟨b, rfl, hb, hf, hfree, by rw [heq]⟩))

/-! ### Sound tables stay sound -/

namespace Paging

variable {s : Paging}

theorem pdIndex_lt (v : UInt32) : pdIndex v < 1024 := by
  have := pageNum_lt v
  rw [pdIndex_eq]
  omega

theorem ptIndex_lt (v : UInt32) : ptIndex v < 1024 := by
  rw [ptIndex_eq]
  omega

/-- A change of the physical memory manager that leaves the frames of the tables used keeps
the tables sound. -/
theorem Sound.withPmm (h : s.Sound) {pmm : Pmm} (hb : pmm.bound = s.pmm.bound)
    (hused : ∀ b < s.pmm.bound, s.Holds (blockAddr b) → s.pmm.isUsed b = true →
      pmm.isUsed b = true) : ({ s with pmm := pmm } : Paging).Sound where
  bound_lt := by
    show pmm.bound < 2 ^ 20
    rw [hb]
    exact h.bound_lt
  owned := fun p hp => by
    have hp : s.Holds p := hp
    obtain ⟨b, hlt, hu, rfl⟩ := h.owned p hp
    refine ⟨b, ?_, hused b hlt hp hu, rfl⟩
    show b < pmm.bound
    rwa [hb]
  separated := h.separated

/-- The directory starts at the first word of an aligned frame. -/
theorem Sound.pde_eq_iff (h : s.Sound) {b : ℕ} (hb : b < 2 ^ 20) :
    b * 1024 = wordIndex s.pageDirectory ↔ blockAddr b = s.pageDirectory := by
  obtain ⟨d, hd, -, hdir⟩ := h.owned _ (Or.inl rfl)
  have hd' : d < 2 ^ 20 := lt_trans hd h.bound_lt
  rw [hdir, wordIndex_blockAddr hd']
  constructor
  · intro heq
    rw [show b = d by omega]
  · intro heq
    rw [blockAddr_inj hb hd' heq]

theorem Aligned.dvd_dir (ha : s.Aligned) : pageFormat.slots ∣ wordIndex s.pageDirectory := by
  rw [← ha]
  exact pageFormat.dvd_frame s.pageDirectory

theorem HasTable.frame_ne {i : ℕ} (h : s.HasTable i) (ha : s.Aligned) :
    pageFormat.frame (s.pde i) ≠ wordIndex s.pageDirectory := by
  intro heq
  refine h.ne_dir ?_
  rw [← ha] at heq
  rw [frame_eq_iff.mp heq, ha]

theorem Sound.aligned (h : s.Sound) : s.Aligned := by
  obtain ⟨d, hd, -, hdir⟩ := h.owned _ (Or.inl rfl)
  rw [Aligned, hdir, pageBase_blockAddr (lt_trans hd h.bound_lt)]

theorem Sound.hasTable (h : s.Sound) {i : ℕ} (hi : i < 1024) (hd : isPresent (s.pde i) = true) :
    s.HasTable i :=
  ⟨hd, fun heq => h.separated.apart i hi hd (congrArg wordIndex heq)⟩

/-- A block that is not in use holds no page table. -/
theorem Sound.not_holds (h : s.Sound) {b : ℕ} (hb : b < 2 ^ 20) (hunused : s.pmm.isUsed b = false) :
    ¬ s.Holds (blockAddr b) := by
  intro hheld
  obtain ⟨c, hc, hused, heq⟩ := h.owned _ hheld
  rw [blockAddr_inj hb (lt_trans hc h.bound_lt) heq, hused] at hunused
  exact Bool.noConfusion hunused

/-- A block that holds no page table is fresh for the tables. -/
theorem Sound.fresh_of_not_holds (h : s.Sound) {b : ℕ} (hb : b < 2 ^ 20)
    (hne : ¬ s.Holds (blockAddr b)) :
    Fresh pageFormat s.mem (wordIndex s.pageDirectory) (wordIndex (blockAddr b)) := by
  constructor
  · rw [wordIndex_blockAddr hb, ne_eq, h.pde_eq_iff hb]
    exact fun heq => hne (Or.inl heq)
  · intro i hi hp heq
    refine hne (Or.inr ⟨i, hi, hp, ?_⟩)
    rw [← pageBase_blockAddr hb] at heq ⊢
    exact frame_eq_iff.mp heq

/-- A free block is fresh for the tables. -/
theorem Sound.fresh (h : s.Sound) {b : ℕ} (hfree : s.pmm.isFree b = true) :
    Fresh pageFormat s.mem (wordIndex s.pageDirectory)
      (pageFormat.frame (blockAddr b ||| (1 ||| 2))) := by
  obtain ⟨hlt, hunused⟩ := Pmm.isFree_iff.mp hfree
  have hb : b < 2 ^ 20 := lt_trans hlt h.bound_lt
  have hframe : pageFormat.frame (blockAddr b ||| (1 ||| 2)) = wordIndex (blockAddr b) := by
    show wordIndex (pageBase (blockAddr b ||| (1 ||| 2))) = wordIndex (blockAddr b)
    rw [pageBase_tableEntry hb]
  rw [hframe]
  exact h.fresh_of_not_holds hb (h.not_holds hb hunused)

section ZeroFrame

variable {b : ℕ}

theorem dvd_wordIndex_blockAddr (hb : b < 2 ^ 20) : pageFormat.slots ∣ wordIndex (blockAddr b) := by
  rw [← pageBase_blockAddr hb]
  exact pageFormat.dvd_frame (blockAddr b)

theorem Sound.pde_zeroFrame (h : s.Sound) (hb : b < 2 ^ 20) (hne : ¬ s.Holds (blockAddr b)) {k : ℕ}
    (hk : k < 1024) : (s.zeroFrame (blockAddr b)).pde k = s.pde k :=
  PageTree.fill_dir h.separated (dvd_wordIndex_blockAddr hb) (h.fresh_of_not_holds hb hne)
    (fun _ => 0) hk

theorem Sound.holds_zeroFrame (h : s.Sound) (hb : b < 2 ^ 20) (hne : ¬ s.Holds (blockAddr b))
    {q : UInt32} (hq : (s.zeroFrame (blockAddr b)).Holds q) : s.Holds q := by
  rcases hq with rfl | ⟨k, hk, hp, rfl⟩
  · exact Or.inl rfl
  · rw [h.pde_zeroFrame hb hne hk] at hp ⊢
    exact Or.inr ⟨k, hk, hp, rfl⟩

/-- Clearing a frame that holds no page table. -/
theorem Sound.zeroFrame (h : s.Sound) (hb : b < 2 ^ 20) (hne : ¬ s.Holds (blockAddr b)) :
    (s.zeroFrame (blockAddr b)).Sound where
  bound_lt := h.bound_lt
  owned := fun p hp => h.owned p (h.holds_zeroFrame hb hne hp)
  separated := h.separated.fill (dvd_wordIndex_blockAddr hb) (h.fresh_of_not_holds hb hne)
    fun _ => 0

theorem Sound.entry_zeroFrame (h : s.Sound) (hb : b < 2 ^ 20) (hne : ¬ s.Holds (blockAddr b))
    {n : ℕ} (hn : n < 2 ^ 20) : (s.zeroFrame (blockAddr b)).entry n = s.entry n :=
  PageTree.walk_fill h.separated (dvd_wordIndex_blockAddr hb) (h.fresh_of_not_holds hb hne)
    (fun _ => 0) (show n / 1024 < 1024 by omega) (Nat.mod_lt n (show 0 < 1024 by omega))

end ZeroFrame

theorem pde_addTable (h : s.Sound) {i b : ℕ} (hfree : s.pmm.isFree b = true) {k : ℕ}
    (hk : k < 1024) :
    (s.addTable i b).pde k = if k = i then blockAddr b ||| (1 ||| 2) else s.pde k :=
  PageTree.install_dir h.separated (h.fresh hfree) hk

theorem Sound.addTable (h : s.Sound) {i b : ℕ} (hfree : s.pmm.isFree b = true) :
    (s.addTable i b).Sound where
  bound_lt := h.bound_lt
  owned := fun p hp => by
    obtain ⟨hlt, -⟩ := Pmm.isFree_iff.mp hfree
    have hb : b < 2 ^ 20 := lt_trans hlt h.bound_lt
    have hold : ∀ q, s.Owns q → (s.addTable i b).Owns q := by
      rintro q ⟨c, hc, hu, rfl⟩
      refine ⟨c, hc, ?_, rfl⟩
      rw [Paging.addTable, isUsed_markBlockUsed, hu, Bool.or_true]
    rcases hp with rfl | ⟨k, hk, hpk, rfl⟩
    · exact hold _ (h.owned _ (Or.inl rfl))
    · rw [pde_addTable h hfree hk] at hpk ⊢
      split_ifs at hpk ⊢
      · refine ⟨b, hlt, ?_, pageBase_tableEntry hb⟩
        rw [Paging.addTable, isUsed_markBlockUsed, decide_eq_true rfl, Bool.true_or]
      · exact hold _ (h.owned _ (Or.inr ⟨k, hk, hpk, rfl⟩))
  separated := h.separated.install (h.fresh hfree)

theorem entry_addTable (h : s.Sound) {i b : ℕ} (hi : i < 1024) (hd : isPresent (s.pde i) = false)
    (hfree : s.pmm.isFree b = true) {n : ℕ} (hn : n < 2 ^ 20) :
    (s.addTable i b).entry n = s.entry n :=
  PageTree.walk_install h.separated hi hd (show pageFormat.present 0 = false from isPresent_zero)
    (h.fresh hfree) (show n / 1024 < 1024 by omega) (show n % 1024 < 1024 by omega)

section SetPte

variable {i j : ℕ} {e : UInt32}

theorem HasTable.pde_setPte (h : s.HasTable i) (ha : s.Aligned) (hj : j < 1024) {k : ℕ}
    (hk : k < 1024) : (s.setPte i j e).pde k = s.pde k :=
  PageTree.write_leaf_dir ha.dvd_dir (h.frame_ne ha) hj hk

/-- Writing an entry of a page table, entry by entry. -/
theorem HasTable.entry_setPte (h : s.HasTable i) (ha : s.Aligned) (hj : j < 1024) {n : ℕ}
    (hn : n < 2 ^ 20) :
    (s.setPte i j e).entry n =
      if isPresent (s.pde (n / 1024)) = true ∧
          pageBase (s.pde (n / 1024)) = pageBase (s.pde i) ∧ n % 1024 = j then
        (if isPresent e then some e else none)
      else s.entry n := by
  have := PageTree.walk_write_leaf (w := e) ha.dvd_dir (h.frame_ne ha) hj
    (show n / 1024 < 1024 by omega) (show n % 1024 < 1024 by omega)
  simp only [frame_eq_iff] at this
  exact this

theorem pde_setPte (h : s.Sound) (hi : i < 1024) (hd : isPresent (s.pde i) = true) (hj : j < 1024)
    {k : ℕ} (hk : k < 1024) : (s.setPte i j e).pde k = s.pde k :=
  (h.hasTable hi hd).pde_setPte h.aligned hj hk

theorem Sound.setPte (h : s.Sound) (hi : i < 1024) (hd : isPresent (s.pde i) = true)
    (hj : j < 1024) : (s.setPte i j e).Sound where
  bound_lt := h.bound_lt
  owned := fun p hp => by
    refine h.owned p ?_
    rcases hp with rfl | ⟨k, hk, hpk, rfl⟩
    · exact Or.inl rfl
    · rw [pde_setPte h hi hd hj hk] at hpk ⊢
      exact Or.inr ⟨k, hk, hpk, rfl⟩
  separated := h.separated.write_leaf hi hd hj

theorem entry_setPte (h : s.Sound) (hi : i < 1024) (hd : isPresent (s.pde i) = true)
    (hj : j < 1024) {n : ℕ} (hn : n < 2 ^ 20) :
    (s.setPte i j e).entry n =
      if isPresent (s.pde (n / 1024)) = true ∧
          pageBase (s.pde (n / 1024)) = pageBase (s.pde i) ∧ n % 1024 = j then
        (if isPresent e then some e else none)
      else s.entry n :=
  (h.hasTable hi hd).entry_setPte h.aligned hj hn

end SetPte

/-! ### Mapping and unmapping -/

theorem SameSlot.entry_eq {n m : ℕ} (h : s.SameSlot n m) : s.entry n = s.entry m := by
  obtain ⟨hn, hm, hbase, hslot⟩ := h
  have hpte : s.pte (n / 1024) (n % 1024) = s.pte (m / 1024) (m % 1024) := by
    rw [pte, pte, pteWord, pteWord, hbase, hslot]
  rw [entry_def, entry_def, hn, hm, hpte]

/-- Two pages of sound tables share a slot only when they are mirrored. -/
theorem Sound.eq_or_twin (h : s.Sound) {n m : ℕ} (hn : n < 2 ^ 20) (hm : m < 2 ^ 20)
    (hslot : s.SameSlot n m) : n = m ∨ Twin (n / 1024) (m / 1024) := by
  obtain ⟨hpn, hpm, hbase, hmod⟩ := hslot
  rcases h.separated.distinct (n / 1024) (show n / 1024 < 1024 by omega) (m / 1024)
    (show m / 1024 < 1024 by omega) hpn hpm (frame_eq_iff.mpr hbase) with heq | htwin
  · exact Or.inl (by omega)
  · exact Or.inr htwin

theorem Sound.grow (h : s.Sound) {pmm : Pmm} (hg : Grows s.pmm pmm) :
    ({ s with pmm := pmm } : Paging).Sound :=
  h.withPmm hg.bound fun b _ _ hu => hg.used b hu

section Map

variable {p v f : UInt32}

theorem grows_map (hs : s.pmm.bound < 2 ^ 20) : Grows s.pmm (pagingMapPage s p v f).2.pmm := by
  rcases pagingMapPage_cases hs p v f with
    ⟨-, heq⟩ | ⟨-, -, heq⟩ | ⟨-, -, heq⟩ | ⟨b, -, -, -, -, heq⟩
  · rw [heq]; exact .refl _
  · rw [heq]; exact .refl _
  · rw [heq]; exact grows_markBlockUsed _ _
  · rw [heq]; exact grows_markBlockUsed _ _

theorem pageDirectory_map (hs : s.pmm.bound < 2 ^ 20) :
    (pagingMapPage s p v f).2.pageDirectory = s.pageDirectory := by
  rcases pagingMapPage_cases hs p v f with
    ⟨-, heq⟩ | ⟨-, -, heq⟩ | ⟨-, -, heq⟩ | ⟨b, -, -, -, -, heq⟩ <;> rw [heq] <;> rfl

theorem isPresent_pde_addTable (h : s.Sound) {i b : ℕ} (hi : i < 1024)
    (hfree : s.pmm.isFree b = true) : isPresent ((s.addTable i b).pde i) = true := by
  rw [pde_addTable h hfree hi, if_pos rfl, isPresent_or_three]

theorem Sound.map (h : s.Sound) : (pagingMapPage s p v f).2.Sound := by
  rcases pagingMapPage_cases h.bound_lt p v f with
    ⟨hd, heq⟩ | ⟨-, -, heq⟩ | ⟨-, -, heq⟩ | ⟨b, hd, -, -, hfree, heq⟩
  · rw [heq]
    exact h.setPte (pdIndex_lt v) hd (ptIndex_lt v)
  · rw [heq]
    exact h
  · rw [heq]
    exact h.grow (grows_markBlockUsed _ _)
  · rw [heq]
    exact (h.addTable hfree).setPte (pdIndex_lt v)
      (isPresent_pde_addTable h (pdIndex_lt v) hfree) (ptIndex_lt v)

/-- No page but `v`'s own is kept in the table just created for it. -/
theorem addTable_slot_iff (h : s.Sound) {b : ℕ} (hd : isPresent (s.pde (pdIndex v)) = false)
    (hfree : s.pmm.isFree b = true) {n : ℕ} (hn : n < 2 ^ 20) :
    (isPresent ((s.addTable (pdIndex v) b).pde (n / 1024)) = true ∧
        pageBase ((s.addTable (pdIndex v) b).pde (n / 1024)) =
          pageBase ((s.addTable (pdIndex v) b).pde (pdIndex v)) ∧ n % 1024 = ptIndex v) ↔
      n = pageNum v ∨ s.SameSlot n (pageNum v) := by
  have hlt : n / 1024 < 1024 := by omega
  have hnot : ¬ s.SameSlot n (pageNum v) := by
    rintro ⟨-, hv, -⟩
    rw [← pdIndex_eq, hd] at hv
    exact Bool.noConfusion hv
  rw [pde_addTable h hfree hlt, pde_addTable h hfree (pdIndex_lt v), if_pos rfl]
  by_cases hnv : n / 1024 = pdIndex v
  · rw [if_pos hnv, isPresent_or_three, ptIndex_eq]
    rw [pdIndex_eq] at hnv
    constructor
    · rintro ⟨-, -, hmod⟩
      exact Or.inl (by omega)
    · rintro (rfl | hslot)
      · exact ⟨rfl, rfl, rfl⟩
      · exact absurd hslot hnot
  · rw [if_neg hnv]
    constructor
    · rintro ⟨hp, hbase, -⟩
      exact absurd (frame_eq_iff.mpr hbase) ((h.fresh hfree).2 _ hlt hp)
    · rintro (rfl | hslot)
      · exact absurd (pdIndex_eq v).symm hnv
      · exact absurd hslot hnot

/-- Two ways to say that page `n` is kept where `v`'s page is. -/
theorem slot_iff (hd : isPresent (s.pde (pdIndex v)) = true) {n : ℕ} :
    (isPresent (s.pde (n / 1024)) = true ∧
        pageBase (s.pde (n / 1024)) = pageBase (s.pde (pdIndex v)) ∧ n % 1024 = ptIndex v) ↔
      n = pageNum v ∨ s.SameSlot n (pageNum v) := by
  rw [pdIndex_eq] at hd ⊢
  rw [ptIndex_eq]
  constructor
  · rintro ⟨hp, hbase, hmod⟩
    exact Or.inr ⟨hp, hd, hbase, hmod⟩
  · rintro (rfl | ⟨hp, -, hbase, hmod⟩)
    · exact ⟨hd, rfl, rfl⟩
    · exact ⟨hp, hbase, hmod⟩

/-- **Mapping, entry by entry.** -/
theorem entry_map (h : s.Sound) {n : ℕ} (hn : n < 2 ^ 20) :
    (pagingMapPage s p v f).2.entry n =
      if (pagingMapPage s p v f).1 = true ∧ (n = pageNum v ∨ s.SameSlot n (pageNum v)) then
        some (pageBase p ||| f ||| 1)
      else s.entry n := by
  rcases pagingMapPage_cases h.bound_lt p v f with
    ⟨hd, heq⟩ | ⟨-, -, heq⟩ | ⟨-, -, heq⟩ | ⟨b, hd, -, -, hfree, heq⟩
  · simp only [heq, entry_setPte h (pdIndex_lt v) hd (ptIndex_lt v) hn, slot_iff hd,
      isPresent_or_one, if_true, true_and]
  · simp only [heq, Bool.false_eq_true, false_and, if_false]
  · simp only [heq, Bool.false_eq_true, false_and, if_false]
    rfl
  · simp only [heq, entry_setPte (h.addTable hfree) (pdIndex_lt v)
      (isPresent_pde_addTable h (pdIndex_lt v) hfree) (ptIndex_lt v) hn,
      addTable_slot_iff h hd hfree hn, entry_addTable h (pdIndex_lt v) hd hfree hn,
      isPresent_or_one, if_true, true_and]

end Map

section Unmap

variable {v : UInt32}

@[simp] theorem pmm_unmap (v : UInt32) : (pagingUnmapPage s v).pmm = s.pmm := by
  unfold pagingUnmapPage
  split_ifs <;> rfl

@[simp] theorem pageDirectory_unmap (v : UInt32) :
    (pagingUnmapPage s v).pageDirectory = s.pageDirectory := by
  unfold pagingUnmapPage
  split_ifs <;> rfl

theorem Sound.unmap (h : s.Sound) : (pagingUnmapPage s v).Sound := by
  unfold pagingUnmapPage
  split_ifs with hd ht
  · exact h
  · exact h
  · exact h.setPte (pdIndex_lt v) (by simpa using hd) (ptIndex_lt v)

/-- **Unmapping, entry by entry**, a page whose directory entry names a table or nothing. -/
theorem entry_unmap_of_table (ha : s.Aligned)
    (h : isPresent (s.pde (pdIndex v)) = true → s.HasTable (pdIndex v)) {n : ℕ} (hn : n < 2 ^ 20) :
    (pagingUnmapPage s v).entry n =
      if n = pageNum v ∨ s.SameSlot n (pageNum v) then none else s.entry n := by
  have hsame : s.entry (pageNum v) = none →
      s.entry n = if n = pageNum v ∨ s.SameSlot n (pageNum v) then none else s.entry n := by
    intro hnone
    split_ifs with hn
    · rcases hn with rfl | hslot
      · exact hnone
      · rw [hslot.entry_eq, hnone]
    · rfl
  have hentry := entry_def s (pageNum v)
  rw [← pdIndex_eq, ← ptIndex_eq] at hentry
  unfold pagingUnmapPage
  cases hd : isPresent (s.pde (pdIndex v)) with
  | false => exact hsame (by simp [hentry, hd])
  | true =>
      cases ht : isPresent (s.pte (pdIndex v) (ptIndex v)) with
      | false => exact hsame (by simp [hentry, hd, ht])
      | true =>
          simp only [Bool.not_true, Bool.false_eq_true, if_false,
            (h hd).entry_setPte ha (ptIndex_lt v) hn, slot_iff hd, isPresent_zero]

theorem entry_unmap (h : s.Sound) {n : ℕ} (hn : n < 2 ^ 20) :
    (pagingUnmapPage s v).entry n =
      if n = pageNum v ∨ s.SameSlot n (pageNum v) then none else s.entry n :=
  entry_unmap_of_table h.aligned (h.hasTable (pdIndex_lt v)) hn

end Unmap

end Paging

/-! ### The first tables -/

/-- Every block below the first free one is used. -/
theorem isUsed_of_lt_firstFree {p : Pmm} {b j : ℕ} (h : p.firstFree = some b) (hj : j < b) :
    p.isUsed j = true := by
  unfold Pmm.firstFree at h
  split_ifs at h
  obtain ⟨-, -, hlow⟩ := List.find?_range'_eq_some.mp h
  simpa using hlow j (Nat.zero_le j) hj

/-- `pmm_alloc_block` gives out blocks in ascending order. -/
theorem lt_of_firstFree_markBlockUsed {p : Pmm} {b c : ℕ} (hb : p.firstFree = some b)
    (hc : (markBlockUsed p b).firstFree = some c) : b < c := by
  have hfree := isFree_of_firstFree hc
  have hunused := Pmm.isUsed_eq_false_of_isFree hfree
  rw [isUsed_markBlockUsed, Bool.or_eq_false_iff, decide_eq_false_iff_not] at hunused
  obtain ⟨hne, hcu⟩ := hunused
  by_contra hle
  have := isUsed_of_lt_firstFree hb (show c < b by omega)
  rw [this] at hcu
  exact Bool.noConfusion hcu

/-- What `paging_init` leaves when it obtains a directory: an empty directory, or one whose
entries 0 and 768 name a table of the lowest 1024 frames. -/
structure InitialTables (s s' : Paging) (d : ℕ) : Prop where
  pos : 0 < d
  lt_bound : d < s'.pmm.bound
  used : s'.pmm.isUsed d = true
  pageDirectory : s'.pageDirectory = blockAddr d
  grows : Grows s.pmm s'.pmm
  tables : (∀ i < 1024, s'.pde i = 0) ∨
    ∃ t, t ≠ d ∧ t < s'.pmm.bound ∧ s'.pmm.isUsed t = true ∧
      (∀ i < 1024, s'.pde i = if i = 0 ∨ i = 768 then blockAddr t ||| (1 ||| 2) else 0) ∧
      ∀ j < 1024, s'.mem (t * 1024 + j) = UInt32.ofNat j * 4096 ||| 1 ||| 2

theorem pagingInit_initialTables {s : Paging} (hs : s.pmm.bound < 2 ^ 20)
    (hdir : (pagingInit s).pageDirectory ≠ 0) : ∃ d, InitialTables s (pagingInit s) d := by
  unfold pagingInit at hdir ⊢
  rcases pmmAllocBlock_cases s.pmm with ⟨-, heq⟩ | ⟨d, hd, hdfree, heq⟩
  · simp [heq] at hdir
  · obtain ⟨hdlt, -⟩ := Pmm.isFree_iff.mp hdfree
    have hd20 : d < 2 ^ 20 := lt_trans hdlt hs
    simp only [heq] at hdir ⊢
    have hpos : 0 < d := by
      rcases Nat.eq_zero_or_pos d with rfl | h
      · simp [blockAddr] at hdir
      · exact h
    have hused : (markBlockUsed s.pmm d).isUsed d = true := by simp [isUsed_markBlockUsed]
    rw [if_neg (blockAddr_ne_zero hpos hd20)]
    refine ⟨d, ?_⟩
    rcases pmmAllocBlock_cases (markBlockUsed s.pmm d) with ⟨-, heq'⟩ | ⟨t, ht, htfree, heq'⟩
    · -- no block is left for the first table
      simp only [Paging.zeroFrame, heq', if_true]
      refine ⟨hpos, hdlt, hused, rfl, grows_markBlockUsed _ _, Or.inl fun i hi => ?_⟩
      simp [Paging.pde, fill, hi]
    · obtain ⟨htlt, -⟩ := Pmm.isFree_iff.mp htfree
      have ht20 : t < 2 ^ 20 := lt_trans htlt hs
      have hdt : d < t := lt_of_firstFree_markBlockUsed hd ht
      have hgrows := grows_markBlockUsed (markBlockUsed s.pmm d) t
      have ht0 : blockAddr t ≠ 0 := blockAddr_ne_zero (by omega) ht20
      simp only [Paging.zeroFrame, heq', if_neg ht0]
      refine ⟨hpos, hdlt, hgrows.used d hused, rfl, (grows_markBlockUsed _ _).trans hgrows, ?_⟩
      refine Or.inr ⟨t, by omega, htlt, by simp [Paging.setPde, isUsed_markBlockUsed], ?_, ?_⟩
      · intro i hi
        simp only [Paging.pde, Paging.setPde, write, fill, wordIndex_blockAddr hd20,
          wordIndex_blockAddr ht20, pageBase_blockAddr ht20, UInt32.or_assoc]
        by_cases h768 : i = 768
        · simp [h768]
        · by_cases h0 : i = 0
          · simp [h0]
          · rw [if_neg (by omega), if_neg (by omega), if_neg (by omega), if_neg (by omega),
              if_pos (by omega), if_neg (by omega)]
      · intro j hj
        simp only [Paging.setPde, write, fill, wordIndex_blockAddr hd20, wordIndex_blockAddr ht20]
        rw [if_neg (by omega), if_neg (by omega), if_pos (by omega), Nat.add_sub_cancel_left]

/-- **The tables of `paging_init` are sound.** -/
theorem InitialTables.sound {s s' : Paging} {d : ℕ} (h : InitialTables s s' d)
    (hs : s.pmm.bound < 2 ^ 20) : s'.Sound := by
  have hb : s'.pmm.bound < 2 ^ 20 := by rw [h.grows.bound]; exact hs
  have hd20 : d < 2 ^ 20 := lt_trans h.lt_bound hb
  have hdvd : pageFormat.slots ∣ wordIndex s'.pageDirectory := by
    rw [h.pageDirectory, wordIndex_blockAddr hd20]
    exact ⟨d, Nat.mul_comm d 1024⟩
  rcases h.tables with hempty | ⟨t, htd, htlt, hut, hpde, -⟩
  · have habsent : ∀ i < 1024, isPresent (s'.pde i) = true → False := by
      intro i hi hp
      rw [hempty i hi] at hp
      exact Bool.noConfusion hp
    refine ⟨hb, ?_, hdvd, ?_, ?_⟩
    · rintro p (rfl | ⟨i, hi, hp, -⟩)
      · exact ⟨d, h.lt_bound, h.used, h.pageDirectory⟩
      · exact (habsent i hi hp).elim
    · intro i hi hp
      exact (habsent i hi hp).elim
    · intro i hi k hk hp
      exact (habsent i hi hp).elim
  · have ht20 : t < 2 ^ 20 := lt_trans htlt hb
    have hwhere : ∀ i < 1024, isPresent (s'.pde i) = true →
        (i = 0 ∨ i = 768) ∧ pageBase (s'.pde i) = blockAddr t := by
      intro i hi hp
      rw [hpde i hi] at hp ⊢
      by_cases hi0 : i = 0 ∨ i = 768
      · rw [if_pos hi0, pageBase_tableEntry ht20]
        exact ⟨hi0, rfl⟩
      · rw [if_neg hi0] at hp
        exact Bool.noConfusion hp
    refine ⟨hb, ?_, hdvd, ?_, ?_⟩
    · rintro p (rfl | ⟨i, hi, hp, rfl⟩)
      · exact ⟨d, h.lt_bound, h.used, h.pageDirectory⟩
      · exact ⟨t, htlt, hut, (hwhere i hi hp).2⟩
    · intro i hi hp heq
      have hbase : wordIndex (pageBase (s'.pde i)) = wordIndex s'.pageDirectory := heq
      rw [(hwhere i hi hp).2, h.pageDirectory, wordIndex_blockAddr ht20,
        wordIndex_blockAddr hd20] at hbase
      omega
    · intro i hi k hk hp hp' _
      have h1 := (hwhere i hi hp).1
      have h2 := (hwhere k hk hp').1
      unfold Twin
      omega

theorem sound_pagingInit {s : Paging} (hs : s.pmm.bound < 2 ^ 20)
    (hdir : (pagingInit s).pageDirectory ≠ 0) : (pagingInit s).Sound := by
  obtain ⟨d, h⟩ := pagingInit_initialTables hs hdir
  exact h.sound hs

end HalOS
