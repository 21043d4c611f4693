import HalOS.Mm.Liballoc

/-!
# What the Heap's Functions Do to the Tags

Each function on boundary tags changes a few members of a few tags. Where the tags do not overlap,
this is a function on the members of all tags, and no byte outside the tags changes.

## Main results

* `insertTag_writes`, `removeTag_writes`: a tag put on a list, or taken off its list.
* `meltLeft_writes`, `absorbRight_writes`: two neighbours made one.
* `carveTag_writes`, `newTagAt_writes`: a tag cut in two, and a new one.
-/

namespace HalOS

namespace Liballoc

open CString (Memory)
open Records (View Writes Spaced)

/-- The members of all tags. -/
abbrev Tags := View TagField

/-! ### The functions on members -/

/-- A tag put in front of the list that began with `head`. -/
def Tags.insert (V : Tags) (tag head index : ℕ) : Tags := fun r f =>
  match f with
  | .index => if r = tag then index else V r .index
  | .next => if r = tag then head else V r .next
  | .prev => if r = head then tag else V r .prev
  | f => V r f

/-- A tag taken off its list. -/
def Tags.remove (V : Tags) (tag : ℕ) : Tags := fun r f =>
  match f with
  | .index => if r = tag then minusOne else V r .index
  | .next => if r = tag then 0 else if r = V tag .prev then V tag .next else V r .next
  | .prev => if r = tag then 0 else if r = V tag .next then V tag .prev else V r .prev
  | f => V r f

/-- A tag that takes the room of its neighbour to the right. -/
def Tags.join (V : Tags) (left tag : ℕ) : Tags := fun r f =>
  match f with
  | .realSize => if r = left then u32 (V left .realSize + V tag .realSize) else V r .realSize
  | .splitLeft => if r = V tag .splitRight then left else V r .splitLeft
  | .splitRight => if r = left then V tag .splitRight else V r .splitRight
  | f => V r f

/-- A tag cut in two. -/
def Tags.carve (V : Tags) (tag newTag remainder : ℕ) : Tags := fun r f =>
  match f with
  | .magic => if r = newTag then liballocMagic else V r .magic
  | .realSize =>
      if r = newTag then remainder
      else if r = tag then u32 (V tag .realSize + 2 ^ 32 - remainder) else V r .realSize
  | .next => if r = newTag then 0 else V r .next
  | .prev => if r = newTag then 0 else V r .prev
  | .splitLeft =>
      if r = newTag then tag else if r = V tag .splitRight then newTag else V r .splitLeft
  | .splitRight =>
      if r = newTag then V tag .splitRight else if r = tag then newTag else V r .splitRight
  | f => V r f

/-- A new tag at the beginning of its pages. -/
def Tags.begin (V : Tags) (tag size realSize : ℕ) : Tags := fun r f =>
  if r = tag then
    match f with
    | .magic => liballocMagic
    | .size => size
    | .realSize => realSize
    | .index => minusOne
    | _ => 0
  else V r f

/-- Joining and removal change different members. -/
theorem Tags.remove_join (V : Tags) (left tag : ℕ) :
    (V.join left tag).remove left = (V.remove left).join left tag := by
  funext r f
  cases f <;> rfl

/-! ### Refinement -/

theorem u32_lt (x : ℕ) : u32 x < 2 ^ 32 := Nat.mod_lt x (by decide)

section Writes

variable {σ : Type} {S : Set ℕ} {h : Heap σ} {m m₀ : Memory} {V : Tags} {tag v : ℕ}

/-- `tag->f = v`. -/
theorem writes_setField (hw : Writes S m₀ m V) (hS : Spaced TagField S) (htag : tag ∈ S)
    (f : TagField) (hv : v < 2 ^ 32) : Writes S m₀ (setField m tag f v) (V.set tag f v) :=
  hw.set hS htag f hv

/-- `if (tag != NULL) tag->f = v;`, where no tag is at address zero. -/
theorem writes_setNonNull (hw : Writes S m₀ m V) (hS : Spaced TagField S) (h0 : 0 ∉ S)
    (htag : tag ≠ 0 → tag ∈ S) (f : TagField) (hv : v < 2 ^ 32) :
    Writes S m₀ (setNonNull m tag f v) (V.set tag f v) := by
  rw [setNonNull]
  split_ifs with hnull
  · exact hw.set hS (htag hnull) f hv
  · refine hw.congr fun p hp g => ?_
    rw [View.set_apply, if_neg]
    rintro ⟨rfl, -⟩
    exact hnull fun heq => h0 (heq ▸ hp)

theorem insertTag_writes (hS : Spaced TagField S) (h0 : 0 ∉ S) (htag : tag ∈ S) {index : ℤ} {i : ℕ}
    (hi : i < 2 ^ 32) (hindex : (if index < 0 then
      listIndex (u32 (field h.mem tag .realSize + 2 ^ 32 - tagSize)) else index.toNat) = i)
    (hhead : h.freePages i ≠ 0 → h.freePages i ∈ S) (hlt : h.freePages i < 2 ^ 32)
    (hnext : field h.mem tag .next = 0) (htaglt : tag < 2 ^ 32) :
    Writes S h.mem (insertTag h tag index).mem
      (Tags.insert (field h.mem) tag (h.freePages i) i) := by
  have hw := writes_setNonNull (writes_setField (.refl S h.mem) hS htag .index hi) hS h0 hhead .prev
    htaglt
  rw [insertTag, hindex]
  dsimp only
  split_ifs with hnull
  · refine (writes_setField hw hS htag .next hlt).congr fun r _ f => ?_
    cases f <;> simp [View.set, Tags.insert]
  · rw [not_not] at hnull
    refine hw.congr fun r hr f => ?_
    cases f <;> simp [View.set, Tags.insert, hnull]
    rintro rfl
    exact hnext

theorem removeTag_writes (hS : Spaced TagField S) (h0 : 0 ∉ S) (htag : tag ∈ S)
    (hprev : field h.mem tag .prev ≠ 0 → field h.mem tag .prev ∈ S)
    (hnext : field h.mem tag .next ≠ 0 → field h.mem tag .next ∈ S)
    (hne : field h.mem tag .prev ≠ tag) :
    Writes S h.mem (removeTag h tag).mem (Tags.remove (field h.mem) tag) := by
  have hlt : ∀ f, field h.mem tag f < 2 ^ 32 := fun f => Records.field_lt _ _ _
  have hw := writes_setNonNull (.refl S h.mem) hS h0 hprev .next (hlt .next)
  rw [removeTag]
  dsimp only
  generalize hm : setNonNull h.mem (field h.mem tag .prev) .next _ = m at hw ⊢
  -- what the second store reads is still there
  have hn : field m tag .next = field h.mem tag .next := by
    refine (hw.on tag htag .next).trans ?_
    simp [View.set, Ne.symm hne]
  have hp : field m tag .prev = field h.mem tag .prev := by
    refine (hw.on tag htag .prev).trans ?_
    simp [View.set]
  rw [hn, hp]
  have hw := writes_setField (writes_setField (writes_setField (writes_setNonNull hw hS h0 hnext
    .prev (hlt .prev)) hS htag .next (by decide : 0 < 2 ^ 32)) hS htag .prev
    (by decide : 0 < 2 ^ 32)) hS htag .index (by decide : minusOne < 2 ^ 32)
  refine hw.congr fun r _ f => ?_
  cases f <;> simp [View.set, Tags.remove]

/-- The stores that `melt_left` and `absorb_right` share. -/
def joinTags (mem : Memory) (left tag : ℕ) : Memory :=
  let mem := setField mem left .realSize (u32 (field mem left .realSize + field mem tag .realSize))
  let mem := setField mem left .splitRight (field mem tag .splitRight)
  setNonNull mem (field mem tag .splitRight) .splitLeft left

theorem joinTags_writes {left : ℕ} (hw : Writes S m₀ m V) (hS : Spaced TagField S) (h0 : 0 ∉ S)
    (hleft : left ∈ S) (htag : tag ∈ S) (hne : left ≠ tag) (hlt : left < 2 ^ 32)
    (hright : V tag .splitRight ≠ 0 → V tag .splitRight ∈ S) :
    Writes S m₀ (joinTags m left tag) (V.join left tag) := by
  have hw₁ := writes_setField hw hS hleft .realSize
    (u32_lt (field m left .realSize + field m tag .realSize))
  dsimp only [joinTags]
  generalize setField m left .realSize _ = m₁ at hw₁ ⊢
  have hr₁ : field m₁ tag .splitRight = V tag .splitRight := by
    refine (hw₁.on tag htag .splitRight).trans ?_
    simp [View.set]
  have hw₂ := writes_setField hw₁ hS hleft .splitRight (Records.field_lt m₁ tag TagField.splitRight)
  generalize setField m₁ left .splitRight _ = m₂ at hw₂ ⊢
  have hr₂ : field m₂ tag .splitRight = V tag .splitRight := by
    refine (hw₂.on tag htag .splitRight).trans ?_
    rw [View.set_apply, if_neg fun h => hne h.1.symm, ← hw₁.on tag htag]
    exact hr₁
  rw [hr₂]
  refine (writes_setNonNull hw₂ hS h0 hright .splitLeft hlt).congr fun r _ f => ?_
  have hl := hw.on left hleft .realSize
  have ht := hw.on tag htag .realSize
  cases f <;> simp [View.set, Tags.join, hr₁, hl, ht]

theorem meltLeft_writes (hS : Spaced TagField S) (h0 : 0 ∉ S) (htag : tag ∈ S)
    (hleft : field m tag .splitLeft ∈ S) (hne : field m tag .splitLeft ≠ tag)
    (hright : field m tag .splitRight ≠ 0 → field m tag .splitRight ∈ S) :
    Writes S m (meltLeft m tag).2 (Tags.join (field m) (field m tag .splitLeft) tag) :=
  joinTags_writes (.refl S m) hS h0 hleft htag hne (Records.field_lt _ _ _) hright

theorem absorbRight_writes (hS : Spaced TagField S) (h0 : 0 ∉ S) (htag : tag ∈ S)
    (hlt : tag < 2 ^ 32) {right : ℕ} (hr : field h.mem tag .splitRight = right) (hright : right ∈ S)
    (hne : tag ≠ right)
    (hprev : field h.mem right .prev ≠ 0 → field h.mem right .prev ∈ S)
    (hnext : field h.mem right .next ≠ 0 → field h.mem right .next ∈ S)
    (hself : field h.mem right .prev ≠ right)
    (hbeyond : field h.mem right .splitRight ≠ 0 → field h.mem right .splitRight ∈ S) :
    Writes S h.mem (absorbRight h tag).mem ((Tags.remove (field h.mem) right).join tag right) := by
  have hw := removeTag_writes hS h0 hright hprev hnext hself
  subst hr
  exact joinTags_writes hw hS h0 htag hright hne hlt hbeyond

theorem carveTag_writes {newTag remainder : ℕ} (hS : Spaced TagField S) (h0 : 0 ∉ S)
    (htag : tag ∈ S) (hnew : newTag ∈ S) (hne : newTag ≠ tag) (hlt : tag < 2 ^ 32)
    (hnewlt : newTag < 2 ^ 32) (hrem : remainder < 2 ^ 32)
    (hright : field m tag .splitRight ≠ 0 → field m tag .splitRight ∈ S)
    (hother : field m tag .splitRight ≠ newTag) :
    Writes S m (carveTag m tag newTag remainder) (Tags.carve (field m) tag newTag remainder) := by
  have hzero : 0 < 2 ^ 32 := by decide
  have hw := writes_setField (writes_setField (writes_setField (writes_setField (writes_setField
    (.refl S m) hS hnew .magic (by decide : liballocMagic < 2 ^ 32)) hS hnew .realSize hrem) hS hnew
    .next hzero) hS hnew .prev hzero) hS hnew .splitLeft hlt
  dsimp only [carveTag]
  generalize setField _ newTag .splitLeft tag = m₁ at hw ⊢
  have hr : field m₁ tag .splitRight = field m tag .splitRight := by
    refine (hw.on tag htag .splitRight).trans ?_
    simp [View.set]
  have hw := writes_setField hw hS hnew .splitRight (Records.field_lt m₁ tag TagField.splitRight)
  generalize setField m₁ newTag .splitRight _ = m₂ at hw ⊢
  have hr₂ : field m₂ newTag .splitRight = field m tag .splitRight := by
    refine (hw.on newTag hnew .splitRight).trans ?_
    simp [View.set, hr]
  rw [hr₂]
  have hw := writes_setField (writes_setNonNull hw hS h0 hright .splitLeft hnewlt) hS htag
    .splitRight hnewlt
  generalize setField _ tag .splitRight newTag = m₃ at hw ⊢
  have hreal : field m₃ tag .realSize = field m tag .realSize := by
    refine (hw.on tag htag .realSize).trans ?_
    simp [View.set, Ne.symm hne]
  have hnewreal : field m₃ newTag .realSize = remainder := by
    refine (hw.on newTag hnew .realSize).trans ?_
    simp [View.set]
  rw [hreal, hnewreal]
  refine (writes_setField hw hS htag .realSize (u32_lt _)).congr fun r _ f => ?_
  by_cases hrnew : r = newTag
  · subst hrnew
    cases f <;> simp [View.set, Tags.carve, hr, hne, Ne.symm hother]
  · cases f <;> simp [View.set, Tags.carve, hrnew]

theorem newTagAt_writes {size realSize : ℕ} (hS : Spaced TagField S) (htag : tag ∈ S)
    (hsize : size < 2 ^ 32) (hreal : realSize < 2 ^ 32) :
    Writes S m (newTagAt m tag size realSize) (Tags.begin (field m) tag size realSize) := by
  have hzero : 0 < 2 ^ 32 := by decide
  have hw := writes_setField (writes_setField (writes_setField (writes_setField (writes_setField
    (writes_setField (writes_setField (writes_setField (.refl S m) hS htag .magic
    (by decide : liballocMagic < 2 ^ 32)) hS htag .size hsize) hS htag .realSize hreal) hS htag
    .index (by decide : minusOne < 2 ^ 32)) hS htag .next hzero) hS htag .prev hzero) hS htag
    .splitLeft hzero) hS htag .splitRight hzero
  refine hw.congr fun r _ f => ?_
  by_cases hr : r = tag
  · cases f <;> simp [View.set, Tags.begin, hr]
  · simp [View.set, Tags.begin, hr]

end Writes

end Liballoc

end HalOS
