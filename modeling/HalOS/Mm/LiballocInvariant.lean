import Mathlib.Data.List.Count
import HalOS.Mm.LiballocLists

/-!
# The Heap's Invariant

Besides the division into tags and the lists of free ones, the heap keeps these: no two
neighbours are both free; each free tag is on the list of its size; `l_completePages` counts the
free runs on each list, and no more than `MAXCOMPLETE` of them are kept; a block that a caller has
is as big as he asked for, and every tag that is not free is a caller's. While a call works on a
tag, that tag is neither free nor a caller's, but in the call's hand.

## Main results

* `Sound.remove`, `Sound.join`, `Sound.insert`, `Sound.erase`, `Sound.begin`, `Sound.carve`,
  `Sound.setSize`, `Sound.release`: the steps of `malloc` and `free`.
-/

namespace HalOS

namespace Liballoc

/-- The blocks of a heap: its tags, the runs they lie in, the free lists, the tags in a caller's
hand with the sizes asked for, and the tags a call works on. -/
structure Shape where
  tags : Finset ℕ
  home : ℕ → ℕ × ℕ
  lists : ℕ → List ℕ
  live : ℕ → Option ℕ
  hand : Set ℕ

/-- A tag without neighbours. -/
def Tags.whole (V : Tags) (p : ℕ) : Bool := decide (V p .splitLeft = 0 ∧ V p .splitRight = 0)

/-- The members, with no index at one tag. -/
def Tags.clear (V : Tags) (p : ℕ) : Tags := Records.View.set V p .index minusOne

theorem Tags.clear_index (V : Tags) (p : ℕ) : V.clear p p .index = minusOne := if_pos ⟨rfl, rfl⟩

theorem Tags.clear_of_field {V : Tags} {f : TagField} (hf : f ≠ .index) (p r : ℕ) :
    V.clear p r f = V r f := if_neg (hf ·.2)

theorem Tags.clear_of_ne {V : Tags} {p r : ℕ} (hr : r ≠ p) (f : TagField) :
    V.clear p r f = V r f := if_neg (hr ·.1)

/-- The invariant of the heap. -/
structure Sound (V : Tags) (freePages : ℕ → ℕ) (completePages : ℕ → ℤ) (s : Shape) : Prop where
  tiled : Tiled V s.tags s.home
  listed : Listed V freePages s.tags s.lists
  merged : ∀ p ∈ s.tags, V p .splitRight ≠ 0 →
    V p .index = minusOne ∨ V (V p .splitRight) .index = minusOne
  classed : ∀ i, ∀ p ∈ s.lists i, listIndex (V p .realSize - tagSize) = i
  complete : ∀ i, completePages i = ((s.lists i).countP V.whole : ℕ) ∧
    completePages i ≤ maxComplete
  live : ∀ p n, s.live p = some n →
    p ∈ s.tags ∧ V p .index = minusOne ∧ V p .size = n ∧ n + tagSize ≤ V p .realSize
  held : ∀ p ∈ s.tags, V p .index = minusOne → p ∈ s.hand ∨ (s.live p).isSome

section Steps

variable {V W : Tags} {freePages : ℕ → ℕ} {completePages : ℕ → ℤ} {s : Shape} {p i : ℕ}

theorem Sound.congr (h : Sound V freePages completePages s) (hVW : ∀ p ∈ s.tags, ∀ f, W p f = V p f) :
    Sound W freePages completePages s where
  tiled := h.tiled.congr (fun p hp => hVW p hp _) (fun p hp => hVW p hp _) (fun p hp => hVW p hp _)
    fun p hp => hVW p hp _
  listed := h.listed.congr (fun p hp => hVW p hp _) (fun p hp => hVW p hp _) fun p hp => hVW p hp _
  merged p hp := by
    rw [hVW p hp, hVW p hp]
    intro hne
    rw [hVW _ (h.tiled.right p hp hne).1]
    exact h.merged p hp hne
  classed i p hp := by
    rw [hVW p (h.listed.mem i p hp).1]
    exact h.classed i p hp
  complete i := by
    have hcount : (s.lists i).countP W.whole = (s.lists i).countP V.whole :=
      List.countP_congr fun p hp => by
        rw [Tags.whole, Tags.whole, hVW p (h.listed.mem i p hp).1, hVW p (h.listed.mem i p hp).1]
    rw [hcount]
    exact h.complete i
  live p n hp := by
    obtain ⟨hmem, hused, hsize, hfits⟩ := h.live p n hp
    rw [hVW p hmem, hVW p hmem, hVW p hmem]
    exact ⟨hmem, hused, hsize, hfits⟩
  held p hp := by
    rw [hVW p hp]
    exact h.held p hp

theorem Sound.live_eq_none (h : Sound V freePages completePages s) (hp : p ∉ s.tags) :
    s.live p = none := by
  cases hl : s.live p with
  | none => rfl
  | some n => exact absurd (h.live p n hl).1 hp

/-- The tags with an index are the free ones, which no caller has. -/
theorem Sound.live_of_listed (h : Sound V freePages completePages s) (hp : p ∈ s.lists i) :
    s.live p = none := by
  cases hl : s.live p with
  | none => rfl
  | some n => exact absurd (h.live p n hl).2.1 (h.listed.index_ne hp)

/-- A caller gives a block back, and a call has it in its hand. -/
theorem Sound.release (h : Sound V freePages completePages s) (p : ℕ) :
    Sound V freePages completePages
      { s with live := Function.update s.live p none, hand := insert p s.hand } where
  tiled := h.tiled
  listed := h.listed
  merged := h.merged
  classed := h.classed
  complete := h.complete
  live q n hq := by
    dsimp only at hq
    rw [Function.update_apply] at hq
    split_ifs at hq
    exact h.live q n hq
  held q hq hused := by
    dsimp only
    by_cases hqp : q = p
    · exact Or.inl (hqp ▸ Set.mem_insert _ _)
    · rw [Function.update_of_ne hqp]
      exact (h.held q hq hused).imp_left (Set.mem_insert_of_mem _)

/-- A call takes a tag off its list. -/
theorem Sound.remove (h : Sound V freePages completePages s) (hp : p ∈ s.lists i) :
    Sound (V.remove p)
      (if freePages i = p then Function.update freePages i (V p .next) else freePages)
      (if V.whole p then Function.update completePages i (completePages i - 1) else completePages)
      { s with
        lists := Function.update s.lists i ((s.lists i).erase p)
        hand := insert p s.hand } where
  tiled := h.tiled.congr (fun _ _ => rfl) (fun _ _ => rfl) (fun _ _ => rfl) fun _ _ => rfl
  listed := h.listed.remove h.tiled.zero_notMem hp
  merged q hq hne := by
    have hindex : ∀ r, V r .index = minusOne → V.remove p r .index = minusOne := by
      intro r hr
      change (if r = p then minusOne else V r .index) = minusOne
      split_ifs
      · rfl
      · exact hr
    exact (h.merged q hq hne).imp (hindex _) (hindex _)
  classed j q hq := by
    dsimp only at hq
    rw [Function.update_apply] at hq
    split_ifs at hq with hji
    · exact hji ▸ h.classed i q (List.mem_of_mem_erase hq)
    · exact h.classed j q hq
  complete j := by
    have hperm := (List.perm_cons_erase hp).countP_eq V.whole
    obtain ⟨hcount, hle⟩ := h.complete i
    rw [List.countP_cons] at hperm
    rw [show (V.remove p).whole = V.whole from rfl]
    dsimp only
    by_cases hji : j = i
    · subst hji
      rw [Function.update_self]
      split_ifs with hw
      · rw [Function.update_self]
        rw [if_pos hw] at hperm
        omega
      · rw [if_neg hw] at hperm
        omega
    · rw [Function.update_of_ne hji]
      split_ifs
      · rw [Function.update_of_ne hji]
        exact h.complete j
      · exact h.complete j
  live q n hq := by
    obtain ⟨hmem, hused, hrest⟩ := h.live q n hq
    have hqp : q ≠ p := fun heq => h.listed.index_ne hp (heq ▸ hused)
    exact ⟨hmem, (if_neg hqp).trans hused, hrest⟩
  held q hq hused := by
    by_cases hqp : q = p
    · exact Or.inl (hqp ▸ Set.mem_insert _ _)
    · exact (h.held q hq ((if_neg hqp).symm.trans hused)).imp_left (Set.mem_insert_of_mem _)

/-- A tag takes the room of its neighbour to the right, where neither is free. -/
theorem Sound.join (h : Sound V freePages completePages s) {l : ℕ} (hl : l ∈ s.tags)
    (hp : p ∈ s.tags) (hlp : V l .splitRight = p) (hlu : V l .index = minusOne)
    (hpu : V p .index = minusOne) (hlive : s.live p = none) :
    Sound (V.join l p) freePages completePages { s with tags := s.tags.erase p } := by
  have hp0 : V l .splitRight ≠ 0 := hlp ▸ Nat.ne_of_gt (h.tiled.pos hp)
  have hl0 : l ≠ 0 := Nat.ne_of_gt (h.tiled.pos hl)
  obtain ⟨-, hadd, -, hback⟩ := h.tiled.right l hl hp0
  rw [hlp] at hadd hback hp0
  have hjoined : (V.join l p) l .realSize = V l .realSize + V p .realSize := by
    have := h.tiled.end_le hp
    have := h.tiled.pos hl
    exact (if_pos rfl).trans (u32_of_lt (by omega))
  have hother : ∀ q, q ≠ l → (V.join l p) q .realSize = V q .realSize := fun q hq => if_neg hq
  have hfree : ∀ {i q}, q ∈ s.lists i → q ≠ l := fun hq heq => h.listed.index_ne hq (heq ▸ hlu)
  -- whether a free tag is a whole run does not change
  have hwhole : ∀ q ∈ s.tags, q ≠ l → (V.join l p).whole q = V.whole q := by
    intro q hq hql
    have hqr : (V.join l p) q .splitRight = V q .splitRight := if_neg hql
    have hqs : (V.join l p) q .splitLeft = if q = V p .splitRight then l else V q .splitLeft := rfl
    rw [Tags.whole, Tags.whole, hqr, hqs]
    split_ifs with hqp
    · have hqback : V q .splitLeft = p := by
        rw [hqp]
        exact (h.tiled.right p hp (hqp ▸ Nat.ne_of_gt (h.tiled.pos hq))).2.2.2
      simp [hqback, hl0, hp0]
    · rfl
  constructor
  case tiled => exact h.tiled.join hl hp hlp
  case listed =>
    exact (h.listed.erase hpu).congr (fun _ _ => rfl) (fun _ _ => rfl) fun _ _ => rfl
  case merged =>
    intro q hq
    obtain ⟨-, hq⟩ := Finset.mem_erase.mp hq
    change (if q = l then V p .splitRight else V q .splitRight) ≠ 0 →
      V q .index = minusOne ∨
        V (if q = l then V p .splitRight else V q .splitRight) .index = minusOne
    split_ifs with hql
    · exact fun _ => Or.inl (hql ▸ hlu)
    · exact h.merged q hq
  case classed =>
    intro i q hq
    rw [hother q (hfree hq)]
    exact h.classed i q hq
  case complete =>
    intro i
    have hcount : (s.lists i).countP (V.join l p).whole = (s.lists i).countP V.whole :=
      List.countP_congr fun q hq => by rw [hwhole q (h.listed.mem i q hq).1 (hfree hq)]
    dsimp only
    rw [hcount]
    exact h.complete i
  case live =>
    intro q n hq
    obtain ⟨hmem, hused, hsize, hfits⟩ := h.live q n hq
    have hqp : q ≠ p := fun heq => by
      rw [heq, hlive] at hq
      cases hq
    refine ⟨Finset.mem_erase.mpr ⟨hqp, hmem⟩, hused, hsize, ?_⟩
    by_cases hql : q = l
    · rw [hql] at hfits ⊢
      omega
    · rw [hother q hql]
      exact hfits
  case held => exact fun q hq => h.held q (Finset.mem_of_mem_erase hq)

/-- A call puts the tag in its hand on the list of its size. -/
theorem Sound.insert (h : Sound V freePages completePages s) (hp : p ∈ s.tags)
    (hpu : V p .index = minusOne) (hi : listIndex (V p .realSize - tagSize) = i) (hi32 : i < 32)
    (hleft : V p .splitLeft ≠ 0 → V (V p .splitLeft) .index = minusOne)
    (hright : V p .splitRight ≠ 0 → V (V p .splitRight) .index = minusOne)
    (hlive : s.live p = none) (hroom : V.whole p → completePages i < maxComplete) :
    Sound (V.insert p (freePages i) i) (Function.update freePages i p)
      (if V.whole p then Function.update completePages i (completePages i + 1) else completePages)
      { s with
        lists := Function.update s.lists i (p :: s.lists i)
        hand := s.hand \ {p} } := by
  have hout : ∀ j, p ∉ s.lists j := h.listed.used_notMem hpu
  have hindex : ∀ q, q ≠ p → V.insert p (freePages i) i q .index = V q .index := fun q hq =>
    if_neg hq
  constructor
  case tiled => exact h.tiled.congr (fun _ _ => rfl) (fun _ _ => rfl) (fun _ _ => rfl) fun _ _ => rfl
  case listed =>
    have := h.listed.insert h.tiled.zero_notMem (Nat.ne_of_gt (h.tiled.pos hp)) hi32 hout
      (h.listed.used p hp hpu).2
    rwa [Finset.insert_eq_of_mem hp] at this
  case merged =>
    intro q hq
    change V q .splitRight ≠ 0 → _
    intro hne
    change _ ∨ V.insert p (freePages i) i (V q .splitRight) .index = _
    by_cases hqp : q = p
    · subst hqp
      rw [hindex _ (h.tiled.right_ne hq hne)]
      exact Or.inr (hright hne)
    · rw [hindex q hqp]
      by_cases hrp : V q .splitRight = p
      · -- the tag to the left of the one that is put on the list
        have hback := (h.tiled.right q hq hne).2.2.2
        rw [hrp] at hback
        exact Or.inl (hback ▸ hleft (hback ▸ Nat.ne_of_gt (h.tiled.pos hq)))
      · rw [hindex _ hrp]
        exact h.merged q hq hne
  case classed =>
    intro j q hq
    dsimp only at hq
    rw [Function.update_apply] at hq
    split_ifs at hq with hji
    · rcases List.mem_cons.mp hq with rfl | hq
      · exact hi.trans hji.symm
      · exact hji ▸ h.classed i q hq
    · exact h.classed j q hq
  case complete =>
    intro j
    obtain ⟨hcount, hle⟩ := h.complete i
    rw [show (V.insert p (freePages i) i).whole = V.whole from rfl]
    dsimp only
    by_cases hji : j = i
    · subst hji
      rw [Function.update_self, List.countP_cons]
      split_ifs with hw
      · have := hroom hw
        rw [Function.update_self]
        omega
      · omega
    · rw [Function.update_of_ne hji]
      split_ifs
      · rw [Function.update_of_ne hji]
        exact h.complete j
      · exact h.complete j
  case live =>
    intro q n hq
    obtain ⟨hmem, hused, hrest⟩ := h.live q n hq
    have hqp : q ≠ p := fun heq => by
      rw [heq, hlive] at hq
      cases hq
    exact ⟨hmem, (hindex q hqp).trans hused, hrest⟩
  case held =>
    intro q hq hused
    by_cases hqp : q = p
    · have hp : V.insert p (freePages i) i q .index = i := if_pos hqp
      rw [← hp, hused] at hi32
      exact absurd hi32 (by decide)
    · rw [hindex q hqp] at hused
      exact (h.held q hq hused).imp_left fun hq => ⟨hq, hqp⟩

/-- A call gives the run in its hand back to the supplier. -/
theorem Sound.erase (h : Sound V freePages completePages s) (hp : p ∈ s.tags)
    (hpu : V p .index = minusOne) (hwhole : V.whole p) (hlive : s.live p = none) :
    Sound V freePages completePages
      { s with tags := s.tags.erase p, hand := s.hand \ {p} } := by
  obtain ⟨hleft, hright⟩ := of_decide_eq_true hwhole
  constructor
  case tiled => exact h.tiled.erase hp hleft hright
  case listed => exact h.listed.erase hpu
  case merged => exact fun q hq => h.merged q (Finset.mem_of_mem_erase hq)
  case classed => exact h.classed
  case complete => exact h.complete
  case live =>
    intro q n hq
    obtain ⟨hmem, hrest⟩ := h.live q n hq
    refine ⟨Finset.mem_erase.mpr ⟨fun heq => ?_, hmem⟩, hrest⟩
    rw [heq, hlive] at hq
    cases hq
  case held =>
    intro q hq hused
    obtain ⟨hqp, hq⟩ := Finset.mem_erase.mp hq
    exact (h.held q hq hused).imp_left fun hq => ⟨hq, hqp⟩

/-- The supplier gives a call a new run. -/
theorem Sound.begin (h : Sound V freePages completePages s) {a n : ℕ} (size : ℕ) (ha : 0 < a)
    (hn : pageCount ≤ n) (hend : a + n * pageSize ≤ 2 ^ 32)
    (hapart : ∀ p ∈ s.tags, (s.home p).1 + (s.home p).2 ≤ a ∨ a + n * pageSize ≤ (s.home p).1)
    (hnew : a ∉ s.tags) :
    Sound (V.begin a size (n * pageSize)) freePages completePages
      { s with
        tags := Insert.insert a s.tags
        home := Function.update s.home a (a, n * pageSize)
        hand := Insert.insert a s.hand } := by
  have hsame : ∀ r ∈ s.tags, ∀ f, (V.begin a size (n * pageSize)) r f = V r f := by
    intro r hr f
    have hra : r ≠ a := fun heq => hnew (heq ▸ hr)
    exact if_neg hra
  have h' : Sound (V.begin a size (n * pageSize)) freePages completePages s := h.congr hsame
  constructor
  case tiled => exact h.tiled.begin ha hn hend hapart
  case listed => exact h'.listed.insert_used (if_pos rfl) (if_pos rfl) (if_pos rfl)
  case merged =>
    intro q hq hne
    rcases Finset.mem_insert.mp hq with rfl | hq
    · exact absurd (if_pos rfl) hne
    · exact h'.merged q hq hne
  case classed => exact h'.classed
  case complete => exact h'.complete
  case live =>
    intro q m hq
    obtain ⟨hmem, hrest⟩ := h'.live q m hq
    exact ⟨Finset.mem_insert_of_mem hmem, hrest⟩
  case held =>
    intro q hq hused
    rcases Finset.mem_insert.mp hq with rfl | hq
    · exact Or.inl (Set.mem_insert _ _)
    · exact (h'.held q hq hused).imp_left (Set.mem_insert_of_mem _)

/-- A call gives the tag in its hand to a caller. -/
theorem Sound.setSize (h : Sound V freePages completePages s) {n : ℕ} (hp : p ∈ s.tags)
    (hpu : V p .index = minusOne) (hfits : n + tagSize ≤ V p .realSize) :
    Sound (V.set p .size n) freePages completePages
      { s with live := Function.update s.live p (some n), hand := s.hand \ {p} } := by
  have hsame : ∀ q f, f ≠ .size → V.set p .size n q f = V q f := fun q f hf => if_neg (hf ·.2)
  constructor
  case tiled =>
    exact h.tiled.congr (fun _ _ => hsame _ _ (by decide)) (fun _ _ => hsame _ _ (by decide))
      (fun _ _ => hsame _ _ (by decide)) fun _ _ => hsame _ _ (by decide)
  case listed =>
    exact h.listed.congr (fun _ _ => hsame _ _ (by decide)) (fun _ _ => hsame _ _ (by decide))
      fun _ _ => hsame _ _ (by decide)
  case merged =>
    intro q
    simp only [hsame _ TagField.splitRight (by decide), hsame _ TagField.index (by decide)]
    exact h.merged q
  case classed =>
    intro i q
    rw [hsame q .realSize (by decide)]
    exact h.classed i q
  case complete =>
    intro i
    have hwhole : Tags.whole (V.set p .size n) = V.whole := by
      funext q
      rw [Tags.whole, Tags.whole, hsame q .splitLeft (by decide), hsame q .splitRight (by decide)]
    rw [hwhole]
    exact h.complete i
  case live =>
    intro q m hq
    rw [hsame q .index (by decide), hsame q .realSize (by decide), Records.View.set_apply]
    dsimp only at hq
    rw [Function.update_apply] at hq
    split_ifs at hq with hqp
    · subst hqp
      rw [if_pos ⟨rfl, rfl⟩]
      cases hq
      exact ⟨hp, hpu, rfl, hfits⟩
    · rw [if_neg fun heq => hqp heq.1]
      exact h.live q m hq
  case held =>
    intro q hq
    rw [hsame q .index (by decide)]
    intro hused
    dsimp only
    by_cases hqp : q = p
    · rw [hqp, Function.update_self]
      exact Or.inr rfl
    · rw [Function.update_of_ne hqp]
      exact (h.held q hq hused).imp_left fun hq => ⟨hq, hqp⟩

/-- A call cuts a tag that is not free in two, and has the second part in its hand. -/
theorem Sound.carve (h : Sound V freePages completePages s) (hp : p ∈ s.tags)
    (hpu : V p .index = minusOne) {keep rest : ℕ} (hkeep : 32 ≤ keep) (hrest : 32 ≤ rest)
    (hsum : keep + rest = V p .realSize) (hfits : ∀ n, s.live p = some n → n + tagSize ≤ keep) :
    Sound ((V.carve p (p + keep) rest).clear (p + keep)) freePages completePages
      { s with
        tags := Insert.insert (p + keep) s.tags
        home := Function.update s.home (p + keep) (s.home p)
        hand := Insert.insert (p + keep) s.hand } := by
  have hnew : p + keep ∉ s.tags := h.tiled.notMem_of_inside hp (by omega) (by omega)
  have hne : ∀ r ∈ s.tags, r ≠ p + keep := fun r hr heq => hnew (heq ▸ hr)
  have hend := h.tiled.end_le hp
  have hp0 := Nat.ne_of_gt (h.tiled.pos hp)
  obtain ⟨W, hW⟩ : ∃ W : Tags, (V.carve p (p + keep) rest).clear (p + keep) = W := ⟨_, rfl⟩
  rw [hW]
  have hother : ∀ r f, f ≠ .index → W r f = V.carve p (p + keep) rest r f := fun r f hf =>
    hW ▸ Tags.clear_of_field hf _ _
  have hindexnew : W (p + keep) .index = minusOne := hW ▸ Tags.clear_index _ _
  have hindex : ∀ r ∈ s.tags, W r .index = V r .index := fun r hr =>
    hW ▸ Tags.clear_of_ne (hne r hr) _
  have hsize : ∀ r, W r .size = V r .size := fun r => hother r _ (by decide)
  have hnext : ∀ r ∈ s.tags, W r .next = V r .next := fun r hr =>
    (hother r _ (by decide)).trans (if_neg (hne r hr))
  have hprev : ∀ r ∈ s.tags, W r .prev = V r .prev := fun r hr =>
    (hother r _ (by decide)).trans (if_neg (hne r hr))
  have hreal : ∀ r ∈ s.tags, r ≠ p → W r .realSize = V r .realSize := fun r hr hrp =>
    (hother r _ (by decide)).trans ((if_neg (hne r hr)).trans (if_neg hrp))
  have hrealp : W p .realSize = keep := by
    rw [hother p _ (by decide)]
    refine (if_neg (hne p hp)).trans ((if_pos rfl).trans ?_)
    rw [u32]
    omega
  have hright : ∀ r ∈ s.tags, r ≠ p → W r .splitRight = V r .splitRight := fun r hr hrp =>
    (hother r _ (by decide)).trans ((if_neg (hne r hr)).trans (if_neg hrp))
  have hleft : ∀ r ∈ s.tags,
      W r .splitLeft = if r = V p .splitRight then p + keep else V r .splitLeft := fun r hr =>
    (hother r _ (by decide)).trans (if_neg (hne r hr))
  have hfree : ∀ {i q}, q ∈ s.lists i → q ≠ p := fun hq heq =>
    h.listed.index_ne hq (heq ▸ hpu)
  constructor
  case tiled =>
    exact (h.tiled.carve hp hkeep hrest hsum).congr (fun r _ => hother r _ (by decide))
      (fun r _ => hother r _ (by decide)) (fun r _ => hother r _ (by decide))
      fun r _ => hother r _ (by decide)
  case listed =>
    exact (h.listed.congr hindex hnext hprev).insert_used hindexnew
      ((hother _ _ (by decide)).trans (if_pos rfl)) ((hother _ _ (by decide)).trans (if_pos rfl))
  case merged =>
    intro q hq
    rcases Finset.mem_insert.mp hq with rfl | hq
    · exact fun _ => Or.inl hindexnew
    · rw [hindex q hq]
      by_cases hqp : q = p
      · exact fun _ => Or.inl (hqp ▸ hpu)
      · rw [hright q hq hqp]
        intro hr
        rw [hindex _ (h.tiled.right q hq hr).1]
        exact h.merged q hq hr
  case classed =>
    intro i q hq
    rw [hreal q (h.listed.mem i q hq).1 (hfree hq)]
    exact h.classed i q hq
  case complete =>
    intro i
    have hcount : (s.lists i).countP (Tags.whole W) = (s.lists i).countP V.whole :=
      List.countP_congr fun q hq => by
        have hmem := (h.listed.mem i q hq).1
        rw [Tags.whole, Tags.whole, hleft q hmem, hright q hmem (hfree hq)]
        split_ifs with hqr
        · have hback : V q .splitLeft = p := by
            rw [hqr]
            exact (h.tiled.right p hp (hqr ▸ Nat.ne_of_gt (h.tiled.pos hmem))).2.2.2
          simp [hback, hp0]
        · rfl
    rw [hcount]
    exact h.complete i
  case live =>
    intro q n hq
    obtain ⟨hmem, hused, hsz, hfit⟩ := h.live q n hq
    rw [hindex q hmem, hsize]
    refine ⟨Finset.mem_insert_of_mem hmem, hused, hsz, ?_⟩
    by_cases hqp : q = p
    · rw [hqp, hrealp]
      exact hfits n (hqp ▸ hq)
    · rw [hreal q hmem hqp]
      exact hfit
  case held =>
    intro q hq hused
    rcases Finset.mem_insert.mp hq with rfl | hq
    · exact Or.inl (Set.mem_insert _ _)
    · rw [hindex q hq] at hused
      exact (h.held q hq hused).imp_left (Set.mem_insert_of_mem _)

/-! ### Neighbours -/

/-- The neighbour to the left, if there is one, is not free. -/
def Tags.LeftUsed (V : Tags) (p : ℕ) : Prop :=
  V p .splitLeft ≠ 0 → V (V p .splitLeft) .index = minusOne

/-- The neighbour to the right, if there is one, is not free. -/
def Tags.RightUsed (V : Tags) (p : ℕ) : Prop :=
  V p .splitRight ≠ 0 → V (V p .splitRight) .index = minusOne

/-- A free tag has no free neighbours. -/
theorem Sound.used_of_free (h : Sound V freePages completePages s) (hp : p ∈ s.tags)
    (hfree : V p .index ≠ minusOne) : V.LeftUsed p ∧ V.RightUsed p := by
  refine ⟨fun hl0 => ?_, fun hr0 => (h.merged p hp hr0).resolve_left hfree⟩
  obtain ⟨hmem, hback⟩ := h.tiled.left p hp hl0
  refine (h.merged _ hmem ?_).resolve_right ?_
  · rw [hback]
    exact Nat.ne_of_gt (h.tiled.pos hp)
  · rwa [hback]

/-- What is left of two tags is left of the tag they become. -/
theorem Sound.leftUsed_join (h : Sound V freePages completePages s) {l : ℕ} (hl : l ∈ s.tags)
    (hp : p ∈ s.tags) (hlp : V l .splitRight = p) (x : ℕ) (hV : V.LeftUsed l) :
    ((V.remove x).join l p).LeftUsed l := by
  have hp0 : V l .splitRight ≠ 0 := hlp ▸ Nat.ne_of_gt (h.tiled.pos hp)
  have hadd := (h.tiled.right l hl hp0).2.1
  have hroom := h.tiled.room l hl
  have hne : l ≠ V p .splitRight := fun heq => by
    have := (h.tiled.right p hp (heq ▸ Nat.ne_of_gt (h.tiled.pos hl))).2.1
    omega
  have hleft : ((V.remove x).join l p) l .splitLeft = V l .splitLeft := if_neg hne
  rw [Tags.LeftUsed, hleft]
  intro hl0
  change (if V l .splitLeft = x then minusOne else V (V l .splitLeft) .index) = minusOne
  split_ifs
  · rfl
  · exact hV hl0

/-- What is right of two tags is right of the tag they become. -/
theorem Tags.rightUsed_join {l : ℕ} (x : ℕ) (hV : V.RightUsed p) :
    ((V.remove x).join l p).RightUsed l := by
  have hright : ((V.remove x).join l p) l .splitRight = V p .splitRight := if_pos rfl
  rw [Tags.RightUsed, hright]
  intro hr0
  change (if V p .splitRight = x then minusOne else V (V p .splitRight) .index) = minusOne
  split_ifs
  · rfl
  · exact hV hr0

/-- The tags in hand may be described otherwise. -/
theorem Sound.rehand (h : Sound V freePages completePages s) {T : Set ℕ}
    (hT : ∀ q ∈ s.tags, q ∈ s.hand → q ∈ T) :
    Sound V freePages completePages { s with hand := T } where
  tiled := h.tiled
  listed := h.listed
  merged := h.merged
  classed := h.classed
  complete := h.complete
  live := h.live
  held q hq hused := (h.held q hq hused).imp_left (hT q hq)

end Steps

end Liballoc

end HalOS
