import Mathlib.Data.Nat.Log
import HalOS.Mm.LiballocInvariant

/-!
# The Steps of the Heap's Calls

What `malloc` and `free` do to a heap that keeps its invariant, step by step: a tag is taken off
its list, gets its size and is cut, takes a free neighbour's room, and is put on the list of its
size. Each step leaves the bytes outside the tags alone.

## Main results

* `listIndex_eq`: the list of a size is its binary logarithm, from `MINEXP` on.
* `Holds.takeTag`, `Holds.melt`, `Holds.absorb`, `Holds.splitTag`, `Holds.insertTag`: the steps.
-/

namespace HalOS

namespace Liballoc

open CString (Memory)
open Records (Writes Outside)

/-! ### Sizes -/

theorem getexpLoop_eq {size n shift : ℕ} (hle : 2 ^ shift ≤ size)
    (hlt : size < 2 ^ (shift + 1 + n)) : getexpLoop size n (shift + 1) = Nat.log 2 size + 1 := by
  induction n generalizing shift with
  | zero => rw [getexpLoop, Nat.log_eq_of_pow_le_of_lt_pow hle hlt]
  | succ n ih =>
      rw [getexpLoop]
      split_ifs with hsmall
      · rw [Nat.log_eq_of_pow_le_of_lt_pow hle hsmall]
      · exact ih (Nat.le_of_not_lt hsmall) (by rwa [show shift + 1 + 1 + n = shift + 1 + (n + 1) by omega])

/-- `getexp` is the binary logarithm. -/
theorem getexp_eq {size : ℕ} (hle : 2 ^ 8 ≤ size) (hlt : size < 2 ^ 32) :
    getexp size = Nat.log 2 size := by
  rw [getexp, if_neg (by omega), getexpLoop_eq (by omega : 2 ^ 7 ≤ size) hlt]
  simp

theorem getexp_nonneg_iff {size : ℕ} (hlt : size < 2 ^ 32) : 0 ≤ getexp size ↔ 2 ^ 8 ≤ size := by
  constructor
  · intro h
    by_contra hsmall
    rw [getexp, if_pos (by omega)] at h
    omega
  · intro h
    rw [getexp_eq h hlt]
    exact Int.natCast_nonneg _

/-- The list of a size. -/
theorem listIndex_eq {size : ℕ} (hlt : size < 2 ^ 32) :
    listIndex size = max 8 (Nat.log 2 size) := by
  rw [listIndex]
  by_cases hsmall : size < 2 ^ 8
  · have : Nat.log 2 size < 8 := Nat.log_lt_of_lt_pow' (by decide) hsmall
    rw [getexp, if_pos hsmall, if_pos (by decide), Nat.max_eq_left (by omega)]
  · have hlog : 8 ≤ Nat.log 2 size := (Nat.le_log_iff_pow_le (by decide) (by omega)).mpr (by omega)
    rw [getexp_eq (by omega) hlt, if_neg (by omega), Nat.max_eq_right hlog, Int.toNat_natCast]

theorem listIndex_lt {size : ℕ} (hlt : size < 2 ^ 32) : listIndex size < 32 := by
  rw [listIndex_eq hlt]
  exact max_lt (by decide) (Nat.log_lt_of_lt_pow' (by decide) hlt)

/-- A size without the tag, as it is computed in `unsigned int`. -/
theorem u32_sub_tagSize {r : ℕ} (hr : 32 ≤ r) (hlt : r < 2 ^ 32) :
    u32 (r + 2 ^ 32 - tagSize) = r - tagSize := by
  simp only [tagSize, u32]
  omega

/-- What a block of `r` bytes has over, as it is computed in `unsigned int`. -/
theorem u32_remainder {r n : ℕ} (hr : n + tagSize ≤ r) (hlt : r < 2 ^ 32) :
    u32 (r + 2 ^ 33 - tagSize - n) = r - (tagSize + n) := by
  simp only [tagSize, u32] at *
  omega

/-- The test of the search. -/
theorem fits_iff {n r : ℕ} (hn : n + tagSize < 2 ^ 32) (hr : 32 ≤ r) (hlt : r < 2 ^ 32) :
    u32 (n + tagSize) ≤ u32 (r + 2 ^ 32 - tagSize) ↔ n + 2 * tagSize ≤ r := by
  simp only [tagSize, u32] at *
  omega

/-! ### Heaps -/

variable {σ : Type}

/-- A heap with these blocks. -/
def Holds (h : Heap σ) (s : Shape) : Prop := Sound (field h.mem) h.freePages h.completePages s

/-- No byte outside the tags of a set has changed. -/
def Unchanged (T : Set ℕ) (m m' : Memory) : Prop := ∀ a, Outside TagField T a → m' a = m a

/-- The runs of pages, as their beginnings and lengths. -/
def Shape.runs (s : Shape) : Finset (ℕ × ℕ) := s.tags.image s.home

/-- The runs with one tag more. -/
theorem image_update {tags : Finset ℕ} (home : ℕ → ℕ × ℕ) {q : ℕ} (hq : q ∉ tags) (r : ℕ × ℕ) :
    (insert q tags).image (Function.update home q r) = insert r (tags.image home) := by
  have hrest : tags.image (Function.update home q r) = tags.image home :=
    Finset.image_congr fun x hx =>
      Function.update_of_ne (ne_of_mem_of_not_mem (Finset.mem_coe.mp hx) hq) _ _
  rw [Finset.image_insert, Function.update_self, hrest]

/-- A tag in the run of another tag makes no run more. -/
theorem image_update_insert {tags : Finset ℕ} {home : ℕ → ℕ × ℕ} {p q : ℕ} (hq : q ∉ tags)
    (hp : p ∈ tags) :
    (insert q tags).image (Function.update home q (home p)) = tags.image home := by
  rw [image_update home hq]
  exact Finset.insert_eq_of_mem (Finset.mem_image_of_mem _ hp)

/-- The runs with one tag less, whose run has another tag. -/
theorem image_erase_of_shared {tags : Finset ℕ} {home : ℕ → ℕ × ℕ} {p q : ℕ} (hq : q ∈ tags)
    (hqp : q ≠ p) (hhome : home q = home p) : (tags.erase p).image home = tags.image home := by
  refine Finset.Subset.antisymm (Finset.image_subset_image (Finset.erase_subset _ _)) ?_
  intro r hr
  obtain ⟨x, hx, rfl⟩ := Finset.mem_image.mp hr
  by_cases hxp : x = p
  · rw [hxp, ← hhome]
    exact Finset.mem_image_of_mem _ (Finset.mem_erase.mpr ⟨hqp, hq⟩)
  · exact Finset.mem_image_of_mem _ (Finset.mem_erase.mpr ⟨hxp, hx⟩)

/-- The runs with one tag less, whose run has no other tag. -/
theorem image_erase_of_alone {tags : Finset ℕ} {home : ℕ → ℕ × ℕ} {p : ℕ}
    (halone : ∀ q ∈ tags, q ≠ p → home q ≠ home p) :
    (tags.erase p).image home = (tags.image home).erase (home p) := by
  ext r
  simp only [Finset.mem_image, Finset.mem_erase]
  constructor
  · rintro ⟨q, ⟨hqp, hq⟩, rfl⟩
    exact ⟨halone q hq hqp, q, hq, rfl⟩
  · rintro ⟨hne, q, hq, rfl⟩
    exact ⟨q, ⟨fun heq => hne (heq ▸ rfl), hq⟩, rfl⟩

theorem Unchanged.trans {T U X : Set ℕ} {m m' m'' : Memory} (h : Unchanged T m m')
    (h' : Unchanged U m' m'') (hT : T ⊆ X) (hU : U ⊆ X) : Unchanged X m m'' := fun a ha =>
  (h' a fun p hp => ha p (hU hp)).trans (h a fun p hp => ha p (hT hp))

section Blocks

variable {h : Heap σ} {s : Shape} {p n : ℕ}

/-- The bytes of a caller's block are in no tag. -/
theorem Holds.outside (hs : Holds h s) (hp : s.live p = some n) {a : ℕ} (hle : p + tagSize ≤ a)
    (hlt : a < p + tagSize + n) : Outside TagField (s.tags : Set ℕ) a := by
  obtain ⟨hmem, -, -, hfits⟩ := hs.live p n hp
  intro q hq
  rw [sizeOf_tagField]
  rw [tagSize] at *
  rcases Nat.lt_trichotomy p q with hpq | heq | hqp
  · have := hs.tiled.apart p hmem q hq hpq
    omega
  · omega
  · have := hs.tiled.apart q hq p hmem hqp
    have := hs.tiled.room q hq
    omega

/-- Bytes outside the runs are in no tag. -/
theorem Holds.outside_of_runs (hs : Holds h s) {a : ℕ}
    (ha : ∀ r ∈ s.runs, a < r.1 ∨ r.1 + r.2 ≤ a) : Outside TagField (s.tags : Set ℕ) a := by
  intro q hq
  rw [sizeOf_tagField]
  have := hs.tiled.inside q hq
  have := hs.tiled.room q hq
  have := ha (s.home q) (Finset.mem_image_of_mem _ hq)
  omega

/-- There are no more tags than would fill the address space. -/
theorem Holds.card_le (hs : Holds h s) : s.tags.card ≤ 2 ^ 27 := by
  have hcard := Finset.card_le_card_of_injOn (s := s.tags) (t := Finset.range (2 ^ 27)) (· / 32)
    (fun p hp => by
      have := hs.tiled.lt hp
      simp only [Finset.coe_range, Set.mem_Iio]
      omega)
    (fun p hp q hq heq => by
      have hroomp := hs.tiled.room p hp
      have hroomq := hs.tiled.room q hq
      dsimp only at heq
      rcases Nat.lt_trichotomy p q with hpq | hpq | hqp
      · have := hs.tiled.apart p hp q hq hpq
        omega
      · exact hpq
      · have := hs.tiled.apart q hq p hp hqp
        omega)
  simpa using hcard

theorem Holds.length_le (hs : Holds h s) (i : ℕ) : (s.lists i).length ≤ 2 ^ 27 := by
  have hsub : (s.lists i).toFinset ⊆ s.tags := fun p hp =>
    (hs.listed.mem i p (List.mem_toFinset.mp hp)).1
  have := Finset.card_le_card hsub
  rw [List.toFinset_card_of_nodup (hs.listed.nodup i)] at this
  exact this.trans hs.card_le

theorem Holds.fitsTag_eq (hs : Holds h s) (hp : p ∈ s.tags) (hn : n + tagSize < 2 ^ 32) :
    fitsTag h.mem n p = decide (n + 2 * tagSize ≤ field h.mem p .realSize) :=
  decide_eq_decide.mpr (fits_iff hn (hs.tiled.room p hp) (Records.field_lt _ _ _))

end Blocks

/-! ### Steps -/

section Steps

variable {h : Heap σ} {s : Shape} {p i n : ℕ}

theorem Tags.remove_congr {V W : Tags} {S : Set ℕ} (hVW : ∀ r ∈ S, ∀ f, V r f = W r f) (hp : p ∈ S)
    {r : ℕ} (hr : r ∈ S) (f : TagField) : V.remove p r f = W.remove p r f := by
  cases f <;> simp [Tags.remove, hVW r hr, hVW p hp]

/-- A member of a tag after some stores. -/
theorem field_on {S : Set ℕ} {m m' : Memory} {V : Tags} (hw : Writes S m m' V) (hp : p ∈ S)
    (f : TagField) : field m' p f = V p f := hw.on p hp f

/-- `remove_tag`, on the members. -/
theorem Holds.removeTag_writes (hs : Holds h s) (hp : p ∈ s.lists i) :
    Writes (s.tags : Set ℕ) h.mem (removeTag h p).mem (Tags.remove (field h.mem) p) := by
  obtain ⟨hmem, hindex⟩ := hs.listed.mem i p hp
  obtain ⟨hbefore, hafter⟩ := hs.listed.neighbours hp
  exact Liballoc.removeTag_writes hs.tiled.spaced hs.tiled.zero_notMem hmem
    (fun hne => (hs.listed.mem i _ (hbefore hne)).1) (fun hne => (hs.listed.mem i _ (hafter hne)).1)
    ((hs.listed.linked i).prev_ne (hs.listed.nodup i)
      (fun h0 => hs.tiled.zero_notMem (hs.listed.mem i 0 h0).1) hp)

/-- A tag that was found is in hand. -/
theorem Holds.takeTag (hs : Holds h s) (hp : p ∈ s.lists i) :
    Holds (takeTag h p i)
      { s with
        lists := Function.update s.lists i ((s.lists i).erase p)
        hand := insert p s.hand } ∧
    Writes (s.tags : Set ℕ) h.mem (Liballoc.takeTag h p i).mem (Tags.remove (field h.mem) p) := by
  obtain ⟨hmem, hindex⟩ := hs.listed.mem i p hp
  have hw := hs.removeTag_writes hp
  have hsound := (hs.remove hp).congr fun q hq f => hw.on q hq f
  have hwhole : isWhole (removeTag h p).mem p = Tags.whole (field h.mem) p := by
    rw [isWhole, Tags.whole, field_on hw hmem, field_on hw hmem]
    rfl
  rw [Holds, Liballoc.takeTag, hwhole]
  subst hindex
  split_ifs with hwh
  · rw [if_pos hwh] at hsound
    exact ⟨hsound, hw⟩
  · rw [if_neg hwh] at hsound
    exact ⟨hsound, hw⟩

/-- A free neighbour to the left takes the room of the tag in hand. -/
theorem Holds.melt (hs : Holds h s) {l : ℕ} (hp : p ∈ s.tags) (hpu : field h.mem p .index = minusOne)
    (hlive : s.live p = none) (hl : field h.mem p .splitLeft = l) (hfree : l ∈ s.lists i) :
    Holds (removeTag { h with mem := (meltLeft h.mem p).2 } l)
      { s with
        tags := s.tags.erase p
        lists := Function.update s.lists i ((s.lists i).erase l)
        hand := insert l s.hand } ∧
    Writes (s.tags : Set ℕ) h.mem (removeTag { h with mem := (meltLeft h.mem p).2 } l).mem
      ((Tags.remove (field h.mem) l).join l p) := by
  obtain ⟨hlmem, hindex⟩ := hs.listed.mem i l hfree
  have hl0 : field h.mem p .splitLeft ≠ 0 := hl ▸ Nat.ne_of_gt (hs.tiled.pos hlmem)
  have hlp : field h.mem l .splitRight = p := hl ▸ (hs.tiled.left p hp hl0).2
  have hlne : l ≠ p := hl ▸ hs.tiled.left_ne hp hl0
  obtain ⟨hbefore, hafter⟩ := hs.listed.neighbours hfree
  have hw := meltLeft_writes hs.tiled.spaced hs.tiled.zero_notMem hp (hl ▸ hlmem) (hl ▸ hlne)
    fun hr0 => (hs.tiled.right p hp hr0).1
  rw [hl] at hw
  -- the members of the left neighbour that `remove_tag` reads are as they were
  have hsame : ∀ f, f ≠ .realSize → f ≠ .splitLeft → f ≠ .splitRight →
      field (meltLeft h.mem p).2 l f = field h.mem l f := by
    intro f h1 h2 h3
    rw [field_on hw hlmem]
    cases f <;> first | rfl | contradiction
  have hprev := hsame .prev (by decide) (by decide) (by decide)
  have hnext := hsame .next (by decide) (by decide) (by decide)
  have hlindex := hsame .index (by decide) (by decide) (by decide)
  have hw' := Liballoc.removeTag_writes (h := { h with mem := (meltLeft h.mem p).2 })
    hs.tiled.spaced hs.tiled.zero_notMem hlmem
    (fun hne => by
      rw [hprev] at hne ⊢
      exact (hs.listed.mem i _ (hbefore hne)).1)
    (fun hne => by
      rw [hnext] at hne ⊢
      exact (hs.listed.mem i _ (hafter hne)).1)
    (by
      rw [hprev]
      exact (hs.listed.linked i).prev_ne (hs.listed.nodup i)
        (fun h0 => hs.tiled.zero_notMem (hs.listed.mem i 0 h0).1) hfree)
  have hw'' : Writes (s.tags : Set ℕ) h.mem (removeTag { h with mem := (meltLeft h.mem p).2 } l).mem
      ((Tags.remove (field h.mem) l).join l p) := by
    refine (hw.trans hw').congr fun r hr f => ?_
    rw [Tags.remove_congr hw.on hlmem hr, Tags.remove_join]
  refine ⟨?_, hw''⟩
  have hremoved := hs.remove hfree
  have hnotwhole : Tags.whole (field h.mem) l = false := by
    rw [Tags.whole, hlp]
    exact decide_eq_false fun hboth => Nat.ne_of_gt (hs.tiled.pos hp) hboth.2
  rw [hnotwhole] at hremoved
  have hjoined := hremoved.join hlmem hp hlp (if_pos rfl) ((if_neg (Ne.symm hlne)).trans hpu) hlive
  have hsound := hjoined.congr fun q hq f => hw''.on q (Finset.mem_of_mem_erase hq) f
  have hfp : (removeTag { h with mem := (meltLeft h.mem p).2 } l).freePages =
      if h.freePages i = l then Function.update h.freePages i (field h.mem l .next)
      else h.freePages := by
    rw [removeTag]
    dsimp only
    rw [hlindex, hnext, hindex]
  rw [Holds, hfp]
  exact hsound

/-- The tag in hand takes the room of a free neighbour to the right. -/
theorem Holds.absorb (hs : Holds h s) {r : ℕ} (hp : p ∈ s.tags)
    (hpu : field h.mem p .index = minusOne) (hr : field h.mem p .splitRight = r)
    (hfree : r ∈ s.lists i) :
    Holds (absorbRight h p)
      { s with
        tags := s.tags.erase r
        lists := Function.update s.lists i ((s.lists i).erase r)
        hand := insert r s.hand } ∧
    Writes (s.tags : Set ℕ) h.mem (absorbRight h p).mem
      ((Tags.remove (field h.mem) r).join p r) := by
  obtain ⟨hrmem, hindex⟩ := hs.listed.mem i r hfree
  have hr0 : field h.mem p .splitRight ≠ 0 := hr ▸ Nat.ne_of_gt (hs.tiled.pos hrmem)
  have hback : field h.mem r .splitLeft = p := hr ▸ (hs.tiled.right p hp hr0).2.2.2
  have hne : p ≠ r := fun heq => hs.tiled.right_ne hp hr0 (hr.trans heq.symm)
  obtain ⟨hbefore, hafter⟩ := hs.listed.neighbours hfree
  have hw := absorbRight_writes hs.tiled.spaced hs.tiled.zero_notMem hp (hs.tiled.lt hp) hr hrmem hne
    (fun hne => (hs.listed.mem i _ (hbefore hne)).1) (fun hne => (hs.listed.mem i _ (hafter hne)).1)
    ((hs.listed.linked i).prev_ne (hs.listed.nodup i)
      (fun h0 => hs.tiled.zero_notMem (hs.listed.mem i 0 h0).1) hfree)
    fun hr0 => (hs.tiled.right r hrmem hr0).1
  refine ⟨?_, hw⟩
  have hremoved := hs.remove hfree
  have hnotwhole : Tags.whole (field h.mem) r = false := by
    rw [Tags.whole, hback]
    exact decide_eq_false fun hboth => Nat.ne_of_gt (hs.tiled.pos hp) hboth.1
  rw [hnotwhole] at hremoved
  have hjoined := hremoved.join hp hrmem hr ((if_neg hne).trans hpu) (if_pos rfl)
    (hs.live_of_listed hfree)
  have hsound := hjoined.congr fun q hq f => hw.on q (Finset.mem_of_mem_erase hq) f
  have hfp : (absorbRight h p).freePages =
      if h.freePages i = r then Function.update h.freePages i (field h.mem r .next)
      else h.freePages := by
    rw [absorbRight]
    dsimp only
    rw [hr, removeTag, hindex]
  rw [Holds, hfp]
  exact hsound

/-- `insert_tag`, for a tag that is on no list whatever its index. -/
theorem insertTag_sound {completePages : ℕ → ℤ} {index : ℤ}
    (hs : Sound (Tags.clear (field h.mem) p) h.freePages completePages s)
    (hp : p ∈ s.tags) (hi : listIndex (field h.mem p .realSize - tagSize) = i)
    (hindex : 0 ≤ index → index = i)
    (hleft : Tags.LeftUsed (Tags.clear (field h.mem) p) p)
    (hright : Tags.RightUsed (Tags.clear (field h.mem) p) p) (hlive : s.live p = none)
    (hroom : Tags.whole (field h.mem) p → completePages i < maxComplete) :
    Sound (field (insertTag h p index).mem) (insertTag h p index).freePages
      (if Tags.whole (field h.mem) p then Function.update completePages i (completePages i + 1)
        else completePages)
      { s with
        lists := Function.update s.lists i (p :: s.lists i)
        hand := s.hand \ {p} } ∧
    Unchanged (s.tags : Set ℕ) h.mem (insertTag h p index).mem := by
  obtain ⟨V, hV⟩ : ∃ V : Tags, Tags.clear (field h.mem) p = V := ⟨_, rfl⟩
  have hother : ∀ r f, f ≠ .index → V r f = field h.mem r f := fun r f hf =>
    hV ▸ Tags.clear_of_field hf _ _
  have hindexp : V p .index = minusOne := hV ▸ Tags.clear_index _ _
  have hwhole : Tags.whole V p = Tags.whole (field h.mem) p := by
    rw [Tags.whole, Tags.whole, hother p _ (by decide), hother p _ (by decide)]
  have hreal := hother p .realSize (by decide)
  rw [hV] at hs hleft hright
  have hroomp := hs.tiled.room p hp
  have hlt : field h.mem p .realSize < 2 ^ 32 := Records.field_lt _ _ _
  have hi32 : i < 32 := hi ▸ listIndex_lt (by omega)
  have hhead : h.freePages i ≠ 0 → h.freePages i ∈ (s.tags : Set ℕ) := fun hne =>
    (hs.listed.mem i _ (hs.listed.head_mem hne)).1
  have hused := hs.listed.used p hp hindexp
  have hreali : (if index < 0 then
      listIndex (u32 (field h.mem p .realSize + 2 ^ 32 - tagSize)) else index.toNat) = i := by
    split_ifs with hneg
    · rw [u32_sub_tagSize (hreal ▸ hroomp) hlt, hi]
    · rw [hindex (by omega), Int.toNat_natCast]
  have hw := insertTag_writes hs.tiled.spaced hs.tiled.zero_notMem hp (by omega) hreali hhead
    (by
      by_cases hne : h.freePages i = 0
      · rw [hne]
        decide
      · exact hs.tiled.lt (hhead hne))
    (by rw [← hother p .next (by decide), hused.1]) (hs.tiled.lt hp)
  refine ⟨?_, hw.off⟩
  have hsound := hs.insert hp hindexp (hreal ▸ hi) hi32 hleft hright hlive (hwhole ▸ hroom)
  rw [hwhole] at hsound
  have hfp : (insertTag h p index).freePages = Function.update h.freePages i p := by
    rw [insertTag, hreali]
  rw [hfp]
  refine hsound.congr fun r hr f => (hw.on r hr f).trans ?_
  cases f with
  | index =>
      change (if r = p then i else field h.mem r .index) = if r = p then i else V r .index
      split_ifs with hrp
      · rfl
      · rw [← hV, Tags.clear_of_ne hrp]
  | next =>
      exact if_congr Iff.rfl rfl (hother r _ (by decide)).symm
  | prev =>
      exact if_congr Iff.rfl rfl (hother r _ (by decide)).symm
  | magic => exact (hother r _ (by decide)).symm
  | size => exact (hother r _ (by decide)).symm
  | realSize => exact (hother r _ (by decide)).symm
  | splitLeft => exact (hother r _ (by decide)).symm
  | splitRight => exact (hother r _ (by decide)).symm

/-- The first part of `split_tag`: what is left over becomes a tag, whose index is not set yet. -/
theorem Holds.carveTag (hs : Holds h s) (hp : p ∈ s.tags) (hpu : field h.mem p .index = minusOne)
    {keep rest : ℕ} (hkeep : 32 ≤ keep) (hrest : 32 ≤ rest)
    (hsum : keep + rest = field h.mem p .realSize)
    (hfits : ∀ n, s.live p = some n → n + tagSize ≤ keep) :
    Sound (Tags.clear (field (carveTag h.mem p (p + keep) rest)) (p + keep)) h.freePages
      h.completePages
      { s with
        tags := insert (p + keep) s.tags
        home := Function.update s.home (p + keep) (s.home p)
        hand := insert (p + keep) s.hand } ∧
    Writes ((insert (p + keep) s.tags : Finset ℕ) : Set ℕ) h.mem
      (Liballoc.carveTag h.mem p (p + keep) rest) (Tags.carve (field h.mem) p (p + keep) rest) := by
  have hend := hs.tiled.end_le hp
  have hpos := hs.tiled.pos hp
  have hnotin : p + keep ∉ s.tags := hs.tiled.notMem_of_inside hp (by omega) (by omega)
  have hcarved := hs.carve hp hpu hkeep hrest hsum hfits
  have hw := carveTag_writes hcarved.tiled.spaced hcarved.tiled.zero_notMem
    (Finset.mem_insert_of_mem hp) (Finset.mem_insert_self _ _) (by omega : p + keep ≠ p) (by omega)
    (by omega : p + keep < 2 ^ 32) (by omega : rest < 2 ^ 32)
    (fun hr0 => Finset.mem_insert_of_mem (hs.tiled.right p hp hr0).1)
    fun heq => hnotin (heq ▸ (hs.tiled.right p hp (by omega)).1)
  refine ⟨hcarved.congr fun r hr f => ?_, hw⟩
  rw [Tags.clear, Tags.clear, Records.View.set_apply, Records.View.set_apply, field_on hw hr]

/-- `split_tag`: what is left over is cut off, and is free. -/
theorem Holds.splitTag (hs : Holds h s) (hp : p ∈ s.tags) (hpu : field h.mem p .index = minusOne)
    (hright : Tags.RightUsed (field h.mem) p) (hlive : s.live p = some n)
    (hroom : n + 2 * tagSize ≤ field h.mem p .realSize) (hhand : s.hand = ∅) :
    ∃ s', Holds (splitTag h p) s' ∧ s'.hand = ∅ ∧ s'.live = s.live ∧ s'.runs = s.runs ∧
      s.tags ⊆ s'.tags ∧ Unchanged (s'.tags : Set ℕ) h.mem (splitTag h p).mem ∧
      ∃ q, s'.lists = Function.update s.lists
        (listIndex (field h.mem p .realSize - (2 * tagSize + n)))
        (q :: s.lists (listIndex (field h.mem p .realSize - (2 * tagSize + n)))) := by
  obtain ⟨-, -, hsize, -⟩ := hs.live p n hlive
  have htag : tagSize = 32 := rfl
  have hend := hs.tiled.end_le hp
  have hpos := hs.tiled.pos hp
  have hlt : field h.mem p .realSize < 2 ^ 32 := Records.field_lt _ _ _
  obtain ⟨rest, hrest⟩ : ∃ rest, tagSize + n + rest = field h.mem p .realSize :=
    ⟨field h.mem p .realSize - (tagSize + n), by omega⟩
  have hrest32 : tagSize ≤ rest := by omega
  have hnotin : p + (tagSize + n) ∉ s.tags := hs.tiled.notMem_of_inside hp (by omega) (by omega)
  obtain ⟨hcarved, hw⟩ := hs.carveTag hp hpu (Nat.le_add_right 32 n) hrest32 hrest fun m hm => by
    rw [hlive] at hm
    cases hm
    omega
  -- the function of the source computes the same numbers
  have hsplit : Liballoc.splitTag h p = insertTag
      { h with mem := Liballoc.carveTag h.mem p (p + (tagSize + n)) rest } (p + (tagSize + n))
      (-1) := by
    have hrem : u32 (field h.mem p .realSize + 2 ^ 33 - tagSize - n) = rest := by
      rw [u32_remainder (by omega) hlt]
      omega
    have hat : u32 (p + tagSize + n) = p + (tagSize + n) := by
      rw [Nat.add_assoc]
      exact u32_of_lt (by omega)
    rw [Liballoc.splitTag, hsize, hrem, hat]
  generalize hm : Liballoc.carveTag h.mem p (p + (tagSize + n)) rest = m at hcarved hw hsplit
  generalize hnew : p + (tagSize + n) = new at *
  have hnewmem : new ∈ insert new s.tags := Finset.mem_insert_self _ _
  have hpmem : p ∈ insert new s.tags := Finset.mem_insert_of_mem hp
  have hVleft : field m new .splitLeft = p := (field_on hw hnewmem _).trans (if_pos rfl)
  have hVright : field m new .splitRight = field h.mem p .splitRight :=
    (field_on hw hnewmem _).trans (if_pos rfl)
  have hVreal : field m new .realSize = rest := (field_on hw hnewmem _).trans (if_pos rfl)
  have hset : ∀ r ∈ s.tags, Tags.clear (field m) new r .index = field h.mem r .index := by
    intro r hr
    have hrn : r ≠ new := fun heq => hnotin (heq ▸ hr)
    rw [Tags.clear_of_ne hrn, field_on hw (Finset.mem_insert_of_mem hr)]
    rfl
  have hnotwhole : Tags.whole (field m) new = false := by
    rw [Tags.whole, hVleft]
    exact decide_eq_false fun hboth => by omega
  obtain ⟨hins, hunch⟩ := insertTag_sound (h := { h with mem := m }) (i := listIndex (rest - tagSize))
    hcarved hnewmem (by rw [hVreal])
    (fun h0 => absurd h0 (by decide) : 0 ≤ (-1 : ℤ) → (-1 : ℤ) = _)
    (by
      rw [Tags.LeftUsed, Tags.clear_of_field (f := .splitLeft) (by decide)]
      dsimp only
      rw [hVleft, hset p hp]
      exact fun _ => hpu)
    (by
      rw [Tags.RightUsed, Tags.clear_of_field (f := .splitRight) (by decide)]
      dsimp only
      rw [hVright]
      intro hr0
      rw [hset _ (hs.tiled.right p hp hr0).1]
      exact hright hr0)
    (hs.live_eq_none hnotin) (by simp [hnotwhole])
  rw [← hsplit, hnotwhole] at hins
  rw [← hsplit] at hunch
  have hlist : field h.mem p .realSize - (2 * tagSize + n) = rest - tagSize := by omega
  refine ⟨_, hins.rehand (T := ∅) ?_, rfl, rfl, ?_, Finset.subset_insert _ _, fun a ha => ?_, new,
    by rw [hlist]⟩
  · rintro q - ⟨hq, hqn⟩
    rw [hhand] at hq
    exact (Set.mem_insert_iff.mp hq).elim (fun heq => absurd heq hqn) id
  · exact image_update_insert hnotin hp
  · exact (hunch a ha).trans (hw.off a ha)

end Steps

end Liballoc

end HalOS
