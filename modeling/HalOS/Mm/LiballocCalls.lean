import HalOS.Mm.LiballocSteps

/-!
# The Calls of the Heap

`malloc` takes the first block of its list that is big enough, or a new run, and cuts off what it
does not need; `free` joins the block with its free neighbours, of which there is at most one on
each side, and puts it on the list of its size or gives its run back. Both end, whatever the heap,
within as many steps as there can be tags.

## Main results

* `malloc_found`, `malloc_new`, `malloc_null`: the three ends of `malloc`.
* `free_spec`: `free` of a caller's block.
-/

namespace HalOS

namespace Liballoc

open CString (Memory)
open Records (Writes Outside)

variable {σ : Type} {h h' h'' : Heap σ} {s s' s'' : Shape} {p n : ℕ} {ps : PageSupplier σ}

/-! ### The end of `malloc` -/

/-- A block that is cut has more than another tag over. -/
theorem room_of_remainder {r : ℕ} (hr : n + tagSize ≤ r)
    (hrem : u32 (r + 2 ^ 33 - n - tagSize * 2) < 2 ^ 31) : n + 2 * tagSize ≤ r := by
  simp only [tagSize, u32] at *
  omega

/-- What the end of `malloc` has done with the tag `p`: it is a caller's, and what it does not need
of the tag's room is free. -/
structure Finished (h h' : Heap σ) (s s' : Shape) (p n : ℕ) : Prop where
  holds : Holds h' s'
  idle : s'.hand = ∅
  live : s'.live = Function.update s.live p (some n)
  runs : s'.runs = s.runs
  tags : s.tags ⊆ s'.tags
  unchanged : Unchanged (s'.tags : Set ℕ) h.mem h'.mem
  pages : h'.pages = h.pages
  initialized : h'.initialized = h.initialized
  lists : s'.lists = s.lists ∨ ∃ q, s'.lists = Function.update s.lists
    (listIndex (field h.mem p .realSize - (2 * tagSize + n)))
    (q :: s.lists (listIndex (field h.mem p .realSize - (2 * tagSize + n))))

/-- The tag in hand becomes a caller's, and what is left over is cut off. -/
theorem Holds.finishTag (hs : Holds h s) (hp : p ∈ s.tags) (hpu : field h.mem p .index = minusOne)
    (hright : Tags.RightUsed (field h.mem) p) (hroom : n + tagSize ≤ field h.mem p .realSize)
    (hbig : tagSize < field h.mem p .realSize) (hhand : ∀ q ∈ s.tags, q ∈ s.hand → q = p) :
    ∃ s', (finishTag h p n).1 = p + tagSize ∧ Finished h (finishTag h p n).2 s s' p n := by
  have hlt : field h.mem p .realSize < 2 ^ 32 := Records.field_lt _ _ _
  have hw := writes_setField (.refl (s.tags : Set ℕ) h.mem) hs.tiled.spaced hp .size
    (by omega : n < 2 ^ 32)
  have hsized : Holds { h with mem := setField h.mem p .size n }
      { s with live := Function.update s.live p (some n), hand := ∅ } :=
    ((hs.setSize hp hpu hroom).rehand fun q hq hqh => hqh.2 (hhand q hq hqh.1)).congr
      fun q hq f => hw.on q hq f
  have hother : ∀ q ∈ s.tags, ∀ f, f ≠ .size →
      field (setField h.mem p .size n) q f = field h.mem q f := fun q hq f hf =>
    (field_on hw hq f).trans (if_neg (hf ·.2))
  have hptr : u32 (p + tagSize) = p + tagSize := by
    have := hs.tiled.end_le hp
    have := hs.tiled.pos hp
    have htag : tagSize = 32 := rfl
    exact u32_of_lt (by omega)
  rw [Liballoc.finishTag]
  dsimp only
  rw [hptr, hother p hp .realSize (by decide)]
  generalize hm : setField h.mem p .size n = m at hsized hother hw
  split_ifs with hrem hexp
  · have hroom' := room_of_remainder hroom hrem.2
    obtain ⟨s', hs', hidle, hlive, hruns, hsub, hunch, q, hlists⟩ := hsized.splitTag hp
      ((hother p hp .index (by decide)).trans hpu)
      (by
        rw [Tags.RightUsed]
        dsimp only
        rw [hother p hp .splitRight (by decide)]
        intro hr0
        rw [hother _ (hs.tiled.right p hp hr0).1 .index (by decide)]
        exact hright hr0)
      (Function.update_self _ _ _) ((hother p hp .realSize (by decide)).symm ▸ hroom') rfl
    dsimp only at hlists
    rw [hother p hp .realSize (by decide)] at hlists
    exact ⟨s', rfl, hs', hidle, hlive, hruns, hsub,
      Unchanged.trans hw.off hunch (Finset.coe_subset.mpr hsub) subset_rfl, rfl, rfl,
      Or.inr ⟨q, hlists⟩⟩
  · exact ⟨_, rfl, hsized, rfl, rfl, rfl, subset_rfl, hw.off, rfl, rfl, Or.inl rfl⟩
  · exact ⟨_, rfl, hsized, rfl, rfl, rfl, subset_rfl, hw.off, rfl, rfl, Or.inl rfl⟩

/-! ### A new run -/

theorem pageCount_le_pagesFor (n : ℕ) : pageCount ≤ pagesFor n := by
  rw [pagesFor]
  split_ifs <;> omega

/-- The pages asked for hold the block and its tag. -/
theorem le_pagesFor (hn : n + tagSize < 2 ^ 32) : n + tagSize ≤ pagesFor n * pageSize := by
  rw [pagesFor, u32_of_lt hn]
  simp only [pageSize, pageCount, tagSize] at *
  split_ifs <;> omega

theorem Holds.allocateNewTag (hs : Holds h s) {a : ℕ} {supply : σ}
    (halloc : ps.alloc h.pages (pagesFor n) = (a, supply)) (ha : a ≠ 0) (hn : n + tagSize < 2 ^ 32)
    (hend : a + pagesFor n * pageSize ≤ 2 ^ 32)
    (hapart : ∀ r ∈ s.runs, r.1 + r.2 ≤ a ∨ a + pagesFor n * pageSize ≤ r.1) :
    (allocateNewTag ps h n).1 = a ∧ (allocateNewTag ps h n).2.pages = supply ∧
    (allocateNewTag ps h n).2.initialized = h.initialized ∧
    Holds (allocateNewTag ps h n).2
      { s with
        tags := insert a s.tags
        home := Function.update s.home a (a, pagesFor n * pageSize)
        hand := insert a s.hand } ∧
    Writes ((insert a s.tags : Finset ℕ) : Set ℕ) h.mem (allocateNewTag ps h n).2.mem
      (Tags.begin (field h.mem) a n (pagesFor n * pageSize)) ∧ a ∉ s.tags := by
  have hapart' : ∀ q ∈ s.tags, (s.home q).1 + (s.home q).2 ≤ a ∨
      a + pagesFor n * pageSize ≤ (s.home q).1 := fun q hq =>
    hapart _ (Finset.mem_image_of_mem _ hq)
  have hlen := le_pagesFor hn
  have hnew : a ∉ s.tags := fun hmem => by
    have := hs.tiled.inside a hmem
    have := hs.tiled.room a hmem
    have := hapart' a hmem
    have htag : tagSize = 32 := rfl
    omega
  have hbegun := hs.begin n (Nat.pos_of_ne_zero ha) (pageCount_le_pagesFor n) hend hapart'
    hnew
  have hw := newTagAt_writes (m := h.mem) hbegun.tiled.spaced
    (Finset.mem_insert_self a s.tags) (by omega : n < 2 ^ 32)
    (by omega : pagesFor n * pageSize < 2 ^ 32)
  have hcall : Liballoc.allocateNewTag ps h n = (a, { h with
      mem := newTagAt h.mem a n (pagesFor n * pageSize), pages := supply }) := by
    simp only [Liballoc.allocateNewTag, halloc, if_neg ha]
    rw [u32_of_lt (by omega)]
  rw [hcall]
  exact ⟨rfl, rfl, rfl, hbegun.congr fun q hq f => hw.on q hq f, hw, hnew⟩

/-! ### `malloc` -/

/-- What `malloc` does: it takes the first block of its list that is big enough, or a new run. -/
theorem malloc_eq (hs : Holds (startUp h) s) (n : ℕ) {fuel : ℕ} (hfuel : 2 ^ 27 < fuel) :
    malloc ps fuel h n = some
      (match (s.lists (listIndex n)).find? (fitsTag (startUp h).mem n) with
      | some p => finishTag (takeTag (startUp h) p (listIndex n)) p n
      | none =>
          match allocateNewTag ps (startUp h) n with
          | (tag, h) => if tag = 0 then (0, h) else finishTag h tag n) := by
  have h0 : 0 ∉ s.lists (listIndex n) := fun hmem =>
    hs.tiled.zero_notMem (hs.listed.mem _ _ hmem).1
  have hwalk := (hs.listed.linked (listIndex n)).walk_eq h0 (fitsTag (startUp h).mem n)
    (lt_of_le_of_lt (hs.length_le _) hfuel)
  rw [malloc]
  dsimp only
  rw [hs.listed.head, hwalk, Option.map_some]
  cases hfind : (s.lists (listIndex n)).find? (fitsTag (startUp h).mem n) with
  | none => rfl
  | some p =>
      have hp0 : p ≠ 0 := fun heq => h0 (heq ▸ List.mem_of_find?_eq_some hfind)
      rw [Option.getD_some, if_neg hp0]

/-- Between calls a heap keeps its invariant; before the first one it has no tags. -/
structure Ready (h : Heap σ) (s : Shape) : Prop where
  holds : Holds (startUp h) s
  idle : s.hand = ∅
  fresh : h.initialized = false → s.tags = ∅

theorem startUp_initialized (h : Heap σ) : (startUp h).initialized = true := by
  rw [startUp]
  split_ifs with hinit
  · exact hinit
  · rfl

theorem startUp_of_initialized (hinit : h.initialized = true) : startUp h = h := if_pos hinit

theorem startUp_mem (h : Heap σ) : (startUp h).mem = h.mem := by
  rw [startUp]
  split_ifs <;> rfl

theorem startUp_pages (h : Heap σ) : (startUp h).pages = h.pages := by
  rw [startUp]
  split_ifs <;> rfl

theorem Ready.of_holds (hs : Holds h s) (hinit : h.initialized = true) (hidle : s.hand = ∅) :
    Ready h s :=
  ⟨by rwa [startUp_of_initialized hinit], hidle, fun hfalse => by rw [hinit] at hfalse; cases hfalse⟩

/-- What a call of `malloc` for `n` bytes has done when it gave the tag `p` to its caller. -/
structure Allocated (h h' : Heap σ) (s s' : Shape) (p n : ℕ) : Prop where
  ready : Ready h' s'
  fresh : s.live p = none
  live : s'.live = Function.update s.live p (some n)
  unchanged : Unchanged (s.tags ∪ s'.tags : Set ℕ) h.mem h'.mem

/-- The block that `malloc` takes, where there is one on its list. -/
def Shape.found (s : Shape) (m : Memory) (n : ℕ) : Option ℕ :=
  (s.lists (listIndex n)).find? (fitsTag m n)

/-- A block on the list. -/
theorem malloc_found (ps : PageSupplier σ) (hr : Ready h s) (hn : n + tagSize < 2 ^ 32) {fuel : ℕ} (hfuel : 2 ^ 27 < fuel)
    (hfind : s.found h.mem n = some p) :
    ∃ h' s', malloc ps fuel h n = some (p + tagSize, h') ∧ Allocated h h' s s' p n ∧
      h'.pages = h.pages ∧ s'.runs = s.runs := by
  obtain ⟨hs, hidle, -⟩ := hr
  rw [Shape.found, ← startUp_mem h] at hfind
  have hlist := List.mem_of_find?_eq_some hfind
  obtain ⟨hp, hindex⟩ := hs.listed.mem _ p hlist
  have hfits := List.find?_some hfind
  rw [hs.fitsTag_eq hp hn] at hfits
  have hroom := of_decide_eq_true hfits
  have htag : tagSize = 32 := rfl
  obtain ⟨htaken, hw⟩ := hs.takeTag hlist
  have hright := (hs.used_of_free hp (hs.listed.index_ne hlist)).2
  have hfield := field_on hw hp
  have hreal : field (takeTag (startUp h) p (listIndex n)).mem p .realSize =
      field (startUp h).mem p .realSize := hfield .realSize
  have hsplit : field (takeTag (startUp h) p (listIndex n)).mem p .splitRight =
      field (startUp h).mem p .splitRight := hfield .splitRight
  obtain ⟨s', hptr, hf⟩ := htaken.finishTag (n := n) hp ((hfield _).trans (if_pos rfl))
    (by
      rw [Tags.RightUsed, hsplit]
      intro hr0
      rw [field_on hw (hs.tiled.right p hp hr0).1]
      exact (if_neg (hs.tiled.right_ne hp hr0)).trans (hright hr0))
    (by omega) (by omega) fun q _ hq => by
      rw [hidle] at hq
      exact (Set.mem_insert_iff.mp hq).resolve_right (Set.notMem_empty q)
  have htake : (takeTag (startUp h) p (listIndex n)).pages = h.pages ∧
      (takeTag (startUp h) p (listIndex n)).initialized = true := by
    rw [takeTag]
    split_ifs
    · exact ⟨startUp_pages h, startUp_initialized h⟩
    · exact ⟨startUp_pages h, startUp_initialized h⟩
  have hoff := hw.off
  rw [startUp_mem] at hoff
  refine ⟨_, s', ?_, ⟨.of_holds hf.holds (hf.initialized.trans htake.2) hf.idle,
    hs.live_of_listed hlist, hf.live, Unchanged.trans hoff hf.unchanged Set.subset_union_left
    Set.subset_union_right⟩, hf.pages.trans htake.1, hf.runs⟩
  rw [malloc_eq hs n hfuel, hfind]
  exact congrArg some (Prod.ext hptr rfl)

/-- No block on the list, and no pages. -/
theorem malloc_null (hr : Ready h s) {fuel : ℕ} (hfuel : 2 ^ 27 < fuel)
    (hfind : s.found h.mem n = none) (halloc : (ps.alloc h.pages (pagesFor n)).1 = 0) :
    ∃ h', malloc ps fuel h n = some (0, h') ∧ Ready h' s ∧ h'.mem = h.mem ∧
      h'.pages = (ps.alloc h.pages (pagesFor n)).2 := by
  obtain ⟨hs, hidle, -⟩ := hr
  rw [Shape.found, ← startUp_mem h] at hfind
  rw [← startUp_pages h] at halloc ⊢
  have hcall : allocateNewTag ps (startUp h) n =
      (0, { startUp h with pages := (ps.alloc (startUp h).pages (pagesFor n)).2 }) := by
    simp only [allocateNewTag, halloc, if_pos]
  refine ⟨{ startUp h with pages := (ps.alloc (startUp h).pages (pagesFor n)).2 }, ?_,
    .of_holds hs (startUp_initialized h) hidle, startUp_mem h, rfl⟩
  rw [malloc_eq hs n hfuel, hfind]
  dsimp only
  rw [hcall]
  rfl

/-- No block on the list, and a new run. -/
theorem malloc_new (hr : Ready h s) (hn : n + tagSize < 2 ^ 32) {fuel : ℕ} (hfuel : 2 ^ 27 < fuel)
    {a : ℕ} {supply : σ} (hfind : s.found h.mem n = none)
    (halloc : ps.alloc h.pages (pagesFor n) = (a, supply)) (ha : a ≠ 0)
    (hend : a + pagesFor n * pageSize ≤ 2 ^ 32)
    (hapart : ∀ r ∈ s.runs, r.1 + r.2 ≤ a ∨ a + pagesFor n * pageSize ≤ r.1) :
    ∃ h' s', malloc ps fuel h n = some (a + tagSize, h') ∧ Allocated h h' s s' a n ∧
      h'.pages = supply ∧ s'.runs = insert (a, pagesFor n * pageSize) s.runs ∧
      (s'.lists = s.lists ∨ ∃ q, s'.lists = Function.update s.lists
        (listIndex (pagesFor n * pageSize - (2 * tagSize + n)))
        (q :: s.lists (listIndex (pagesFor n * pageSize - (2 * tagSize + n))))) := by
  obtain ⟨hs, hidle, -⟩ := hr
  rw [Shape.found, ← startUp_mem h] at hfind
  rw [← startUp_pages h] at halloc
  obtain ⟨htag, hpages, hinit, hnew, hw, hnotin⟩ := hs.allocateNewTag halloc ha hn hend hapart
  have hfield := field_on hw (Finset.mem_insert_self a s.tags)
  have hreal : field (allocateNewTag ps (startUp h) n).2.mem a .realSize = pagesFor n * pageSize :=
    (hfield _).trans (if_pos rfl)
  have hlen := le_pagesFor hn
  have hcount := pageCount_le_pagesFor n
  obtain ⟨s', hptr, hf⟩ := hnew.finishTag (n := n) (Finset.mem_insert_self _ _)
    ((hfield _).trans (if_pos rfl))
    (by
      rw [Tags.RightUsed, hfield]
      exact fun hr0 => absurd (if_pos rfl) hr0)
    (by rwa [hreal])
    (by
      rw [hreal]
      simp only [pageSize, pageCount, tagSize] at *
      omega) fun q _ hq => by
      rw [hidle] at hq
      exact (Set.mem_insert_iff.mp hq).resolve_right (Set.notMem_empty q)
  have hoff := hw.off
  rw [startUp_mem] at hoff
  refine ⟨_, s', ?_, ⟨.of_holds hf.holds
    (hf.initialized.trans (hinit.trans (startUp_initialized h))) hf.idle, hs.live_eq_none hnotin,
    hf.live, Unchanged.trans hoff hf.unchanged
      ((Finset.coe_subset.mpr hf.tags).trans Set.subset_union_right) Set.subset_union_right⟩,
    hf.pages.trans hpages, hf.runs.trans (image_update _ hnotin _), ?_⟩
  · rw [malloc_eq hs n hfuel, hfind]
    dsimp only
    rw [htag, if_neg ha]
    exact congrArg some (Prod.ext hptr rfl)
  · have hlists := hf.lists
    rw [hreal] at hlists
    exact hlists

/-! ### The loops of `free` -/

/-- A call has the tag `p` in its hand, and no other. -/
structure InHand (h : Heap σ) (s : Shape) (p : ℕ) : Prop where
  holds : Holds h s
  mem : p ∈ s.tags
  used : field h.mem p .index = minusOne
  live : s.live p = none
  only : ∀ q ∈ s.tags, q ∈ s.hand → q = p

/-- Tags have been joined, and nothing else has happened. -/
structure Joined (h h' : Heap σ) (s s' : Shape) : Prop where
  live : s'.live = s.live
  runs : s'.runs = s.runs
  tags : s'.tags ⊆ s.tags
  unchanged : Unchanged (s.tags : Set ℕ) h.mem h'.mem
  pages : h'.pages = h.pages
  initialized : h'.initialized = h.initialized

theorem Joined.refl (h : Heap σ) (s : Shape) : Joined h h s s :=
  ⟨rfl, rfl, subset_rfl, fun _ _ => rfl, rfl, rfl⟩

theorem Joined.trans (hj : Joined h h' s s') (hj' : Joined h' h'' s' s'') : Joined h h'' s s'' where
  live := hj'.live.trans hj.live
  runs := hj'.runs.trans hj.runs
  tags := hj'.tags.trans hj.tags
  unchanged := hj.unchanged.trans hj'.unchanged subset_rfl (Finset.coe_subset.mpr hj.tags)
  pages := hj'.pages.trans hj.pages
  initialized := hj'.initialized.trans hj.initialized

/-- What the loops of `free` test. -/
theorem Holds.test_iff (hs : Holds h s) {q : ℕ} (hq : q ≠ 0 → q ∈ s.tags) :
    (q ≠ 0 ∧ field h.mem q .index < 2 ^ 31) ↔ ¬(q ≠ 0 → field h.mem q .index = minusOne) := by
  constructor
  · rintro ⟨h0, hlt⟩ hused
    exact (hs.listed.free_iff (hq h0)).mp hlt (hused h0)
  · intro hnot
    push Not at hnot
    exact ⟨hnot.1, (hs.listed.free_iff (hq hnot.1)).mpr hnot.2⟩

/-- The first loop ends after one round at most, since there is one free neighbour at most. -/
theorem InHand.meltLoop (hi : InHand h s p) {fuel : ℕ} (hfuel : 2 ≤ fuel) :
    ∃ q h' s', meltLoop fuel h p = some (q, h') ∧ InHand h' s' q ∧
      Tags.LeftUsed (field h'.mem) q ∧ Joined h h' s s' := by
  obtain ⟨fuel, rfl⟩ : ∃ k, fuel = k + 2 := ⟨fuel - 2, by omega⟩
  obtain ⟨hs, hp, hpu, hlive, honly⟩ := hi
  have hstop : ∀ {h' : Heap σ} {s' : Shape} {q k : ℕ}, Holds h' s' → q ∈ s'.tags →
      Tags.LeftUsed (field h'.mem) q → Liballoc.meltLoop (k + 1) h' q = some (q, h') := by
    intro h' s' q k hs' hq hleft
    rw [Liballoc.meltLoop]
    refine if_neg fun htest => ?_
    exact (hs'.test_iff fun h0 => (hs'.tiled.left q hq h0).1).mp htest hleft
  by_cases hleft : Tags.LeftUsed (field h.mem) p
  · exact ⟨p, h, s, hstop hs hp hleft, ⟨hs, hp, hpu, hlive, honly⟩, hleft, .refl h s⟩
  · have htest := (hs.test_iff fun h0 => (hs.tiled.left p hp h0).1).mpr hleft
    obtain ⟨hl0, hfree⟩ := htest
    obtain ⟨hl, hback⟩ := hs.tiled.left p hp hl0
    have hne := hs.tiled.left_ne hp hl0
    have hhome := (hs.tiled.left_end hp hl0).2
    have hindex := (hs.listed.free_iff hl).mp hfree
    have hlist := hs.listed.mem_own hl hindex
    obtain ⟨hs', hw⟩ := hs.melt hp hpu hlive rfl hlist
    generalize hleftname : field h.mem p .splitLeft = l at *
    have hl' : l ∈ s.tags.erase p := Finset.mem_erase.mpr ⟨hne, hl⟩
    generalize hheap : removeTag { h with mem := (meltLeft h.mem p).2 } l = h' at hs' hw
    have hleft' : Tags.LeftUsed (field h'.mem) l := by
      have hjoin := hs.leftUsed_join hl hp hback l (hs.used_of_free hl hindex).1
      rw [Tags.LeftUsed, field_on hw hl]
      intro h0
      have h0' : field h'.mem l .splitLeft ≠ 0 := by rwa [field_on hw hl]
      have hmem := (hs'.tiled.left l hl' h0').1
      rw [field_on hw hl] at hmem
      rw [field_on hw (Finset.mem_of_mem_erase hmem)]
      exact hjoin h0
    refine ⟨l, h', _, ?_, ⟨hs', hl', ?_, hs.live_of_listed hlist, ?_⟩, hleft', ?_⟩
    · rw [Liballoc.meltLoop, hleftname]
      dsimp only
      rw [if_pos ⟨hl0, hfree⟩, show meltLeft h.mem p = (l, (meltLeft h.mem p).2) from
        Prod.ext hleftname rfl]
      dsimp only
      rw [hheap]
      exact hstop hs' hl' hleft'
    · exact (field_on hw hl _).trans (if_pos rfl)
    · intro q hq hqh
      obtain ⟨hqp, hq⟩ := Finset.mem_erase.mp hq
      exact (Set.mem_insert_iff.mp hqh).resolve_right fun hqh => hqp (honly q hq hqh)
    · have hheap' : h'.pages = h.pages ∧ h'.initialized = h.initialized := by
        rw [← hheap, removeTag]
        exact ⟨rfl, rfl⟩
      exact ⟨rfl, image_erase_of_shared hl hne hhome, Finset.erase_subset _ _, hw.off, hheap'.1,
        hheap'.2⟩

/-- So does the second one. -/
theorem InHand.absorbLoop (hi : InHand h s p) (hleft : Tags.LeftUsed (field h.mem) p) {fuel : ℕ}
    (hfuel : 2 ≤ fuel) :
    ∃ h' s', absorbLoop fuel h p = some h' ∧ InHand h' s' p ∧ Tags.LeftUsed (field h'.mem) p ∧
      Tags.RightUsed (field h'.mem) p ∧ Joined h h' s s' := by
  obtain ⟨fuel, rfl⟩ : ∃ k, fuel = k + 2 := ⟨fuel - 2, by omega⟩
  obtain ⟨hs, hp, hpu, hlive, honly⟩ := hi
  have hstop : ∀ {h' : Heap σ} {s' : Shape} {k : ℕ}, Holds h' s' → p ∈ s'.tags →
      Tags.RightUsed (field h'.mem) p → Liballoc.absorbLoop (k + 1) h' p = some h' := by
    intro h' s' k hs' hp hright
    rw [Liballoc.absorbLoop]
    refine if_neg fun htest => ?_
    exact (hs'.test_iff fun h0 => (hs'.tiled.right p hp h0).1).mp htest hright
  by_cases hright : Tags.RightUsed (field h.mem) p
  · exact ⟨h, s, hstop hs hp hright, ⟨hs, hp, hpu, hlive, honly⟩, hleft, hright, .refl h s⟩
  · have htest := (hs.test_iff fun h0 => (hs.tiled.right p hp h0).1).mpr hright
    obtain ⟨hr0, hfree⟩ := htest
    obtain ⟨hr, -, hhome, -⟩ := hs.tiled.right p hp hr0
    have hne := hs.tiled.right_ne hp hr0
    have hindex := (hs.listed.free_iff hr).mp hfree
    have hlist := hs.listed.mem_own hr hindex
    obtain ⟨hs', hw⟩ := hs.absorb hp hpu rfl hlist
    generalize hrightname : field h.mem p .splitRight = r at *
    have hp' : p ∈ s.tags.erase r := Finset.mem_erase.mpr ⟨Ne.symm hne, hp⟩
    have hleft' : Tags.LeftUsed (field (absorbRight h p).mem) p := by
      have hjoin := hs.leftUsed_join hp hr hrightname r hleft
      rw [Tags.LeftUsed, field_on hw hp]
      intro h0
      have h0' : field (absorbRight h p).mem p .splitLeft ≠ 0 := by rwa [field_on hw hp]
      have hmem := (hs'.tiled.left p hp' h0').1
      rw [field_on hw hp] at hmem
      rw [field_on hw (Finset.mem_of_mem_erase hmem)]
      exact hjoin h0
    have hright' : Tags.RightUsed (field (absorbRight h p).mem) p := by
      have hjoin : ((Tags.remove (field h.mem) r).join p r).RightUsed p :=
        Tags.rightUsed_join r (hs.used_of_free hr hindex).2
      rw [Tags.RightUsed, field_on hw hp]
      intro h0
      have h0' : field (absorbRight h p).mem p .splitRight ≠ 0 := by rwa [field_on hw hp]
      have hmem := (hs'.tiled.right p hp' h0').1
      rw [field_on hw hp] at hmem
      rw [field_on hw (Finset.mem_of_mem_erase hmem)]
      exact hjoin h0
    refine ⟨absorbRight h p, _, ?_, ⟨hs', hp', ?_, hlive, ?_⟩, hleft', hright', ?_⟩
    · rw [Liballoc.absorbLoop, hrightname, if_pos ⟨hr0, hfree⟩]
      exact hstop hs' hp' hright'
    · have hpr : p ≠ r := Ne.symm hne
      exact (field_on hw hp _).trans ((if_neg hpr).trans hpu)
    · intro q hq hqh
      obtain ⟨hqr, hq⟩ := Finset.mem_erase.mp hq
      exact honly q hq ((Set.mem_insert_iff.mp hqh).resolve_left hqr)
    · exact ⟨rfl, image_erase_of_shared hp (Ne.symm hne) hhome.symm, Finset.erase_subset _ _, hw.off,
        rfl, rfl⟩

/-! ### The end of `free` -/

/-- The pages of a run. -/
theorem pagesOf_eq {n : ℕ} (hn : pageCount ≤ n) : pagesOf (n * pageSize) = n := by
  have hwhole : ¬n * pageSize % pageSize ≠ 0 := not_not.mpr (Nat.mul_mod_left _ _)
  rw [pagesOf, if_neg hwhole, Nat.mul_div_cancel _ (by decide : 0 < pageSize)]
  exact if_neg (Nat.not_lt.mpr hn)

/-- A whole tag has its run for itself. -/
theorem Holds.alone (hs : Holds h s) (hp : p ∈ s.tags) (hwhole : Tags.whole (field h.mem) p) :
    s.home p = (p, field h.mem p .realSize) ∧ ∀ q ∈ s.tags, q ≠ p → s.home q ≠ s.home p := by
  obtain ⟨hleft, hright⟩ := of_decide_eq_true hwhole
  have hhome := hs.tiled.whole hp hleft hright
  refine ⟨hhome, fun q hq hqp heq => ?_⟩
  have hin := hs.tiled.inside q hq
  have hroom := hs.tiled.room q hq
  rw [heq, hhome] at hin
  dsimp only at hin
  have := hs.tiled.apart p hp q hq (by omega)
  omega

/-- What a call of `free` has done with the block at the tag `p`. -/
structure Freed (ps : PageSupplier σ) (h h' : Heap σ) (s s' : Shape) : Prop where
  holds : Holds h' s'
  idle : s'.hand = ∅
  live : s'.live = s.live
  tags : s'.tags ⊆ s.tags
  unchanged : Unchanged (s.tags : Set ℕ) h.mem h'.mem
  initialized : h'.initialized = h.initialized
  /-- A run is given back as it was supplied, or none is. -/
  pages : (h'.pages = h.pages ∧ s'.runs = s.runs) ∨
    ∃ a n, (a, n * pageSize) ∈ s.runs ∧ h'.pages = ps.free h.pages a n ∧
      s'.runs = s.runs.erase (a, n * pageSize)

/-- The tag in hand goes back on a list, or its run to the supplier. -/
theorem InHand.returnTag (ps : PageSupplier σ) (hi : InHand h s p) (hleft : Tags.LeftUsed (field h.mem) p)
    (hright : Tags.RightUsed (field h.mem) p) : ∃ s', Freed ps h (returnTag ps h p) s s' := by
  obtain ⟨hs, hp, hpu, hlive, honly⟩ := hi
  have hroom := hs.tiled.room p hp
  have hlt : field h.mem p .realSize < 2 ^ 32 := Records.field_lt _ _ _
  have hhand : ∀ q, q ∈ s.tags → q ∈ s.hand \ {p} → q ∈ (∅ : Set ℕ) := fun q hq hqh =>
    hqh.2 (honly q hq hqh.1)
  generalize hi : listIndex (field h.mem p .realSize - tagSize) = i
  have hclear : Tags.clear (field h.mem) p = field h.mem := Records.View.set_eq_self hpu
  have hinsert := insertTag_sound (h := h)
    (by rwa [hclear] : Sound (Tags.clear (field h.mem) p) h.freePages h.completePages s) hp hi
    (fun _ => rfl : 0 ≤ (i : ℤ) → (i : ℤ) = i) (by rwa [hclear]) (by rwa [hclear]) hlive
  rw [Liballoc.returnTag, u32_sub_tagSize hroom hlt, hi]
  rw [show isWhole h.mem p = Tags.whole (field h.mem) p from rfl]
  split_ifs with hwhole hfull
  · -- the run goes back
    obtain ⟨hhome, halone⟩ := hs.alone hp hwhole
    obtain ⟨n, hn, hlen⟩ := hs.tiled.pages p hp
    rw [hhome] at hlen
    dsimp only at hlen
    refine ⟨_, (hs.erase hp hpu hwhole hlive).rehand (T := ∅) fun q hq hqh =>
      hhand q (Finset.mem_of_mem_erase hq) hqh, rfl, rfl, Finset.erase_subset _ _, fun _ _ => rfl,
      rfl, Or.inr ⟨p, n, ?_, ?_, ?_⟩⟩
    · rw [← hlen, ← hhome]
      exact Finset.mem_image_of_mem _ hp
    · rw [hlen, pagesOf_eq hn]
    · rw [← hlen, ← hhome]
      exact image_erase_of_alone halone
  · have hle := (hs.complete i).2
    obtain ⟨hsound, hunch⟩ := hinsert fun _ => lt_of_le_of_ne hle hfull
    rw [if_pos hwhole] at hsound
    exact ⟨_, hsound.rehand hhand, rfl, rfl, subset_rfl, hunch, rfl, Or.inl ⟨rfl, rfl⟩⟩
  · obtain ⟨hsound, hunch⟩ := hinsert fun hw => absurd hw hwhole
    rw [if_neg hwhole] at hsound
    exact ⟨_, hsound.rehand hhand, rfl, rfl, subset_rfl, hunch, rfl, Or.inl ⟨rfl, rfl⟩⟩

/-- `free` of a block that a caller has. -/
theorem free_spec (ps : PageSupplier σ) (hr : Ready h s) (hp : s.live p = some n) {fuel : ℕ} (hfuel : 2 ≤ fuel) :
    ∃ h' s', free ps fuel h (p + tagSize) = some h' ∧ Ready h' s' ∧
      s'.live = Function.update s.live p none ∧ s'.tags ⊆ s.tags ∧
      Unchanged (s.tags : Set ℕ) h.mem h'.mem ∧
      ((h'.pages = h.pages ∧ s'.runs = s.runs) ∨
        ∃ a n, (a, n * pageSize) ∈ s.runs ∧ h'.pages = ps.free h.pages a n ∧
          s'.runs = s.runs.erase (a, n * pageSize)) := by
  obtain ⟨hs, hidle, hfresh⟩ := hr
  obtain ⟨hmem, hused, -, -⟩ := hs.live p n hp
  have hinit : h.initialized = true := by
    cases hinit : h.initialized with
    | true => rfl
    | false => exact absurd (hfresh hinit ▸ hmem) (Finset.notMem_empty p)
  rw [startUp_of_initialized hinit] at hs hused
  have htagged : u32 (p + tagSize + 2 ^ 32 - tagSize) = p := by
    have := hs.tiled.lt hmem
    rw [Nat.add_right_comm, Nat.add_sub_cancel, u32, Nat.add_mod_right, Nat.mod_eq_of_lt this]
  have hstart : InHand h { s with live := Function.update s.live p none, hand := insert p s.hand }
      p := by
    refine ⟨hs.release p, hmem, hused, Function.update_self _ _ _, fun q _ hq => ?_⟩
    rw [hidle] at hq
    exact (Set.mem_insert_iff.mp hq).resolve_right (Set.notMem_empty q)
  obtain ⟨q, h₁, s₁, hmelt, hi₁, hleft₁, hj₁⟩ := hstart.meltLoop hfuel
  obtain ⟨h₂, s₂, habsorb, hi₂, hleft₂, hright₂, hj₂⟩ := hi₁.absorbLoop hleft₁ hfuel
  obtain ⟨s₃, hfreed⟩ := hi₂.returnTag ps hleft₂ hright₂
  have hj := hj₁.trans hj₂
  refine ⟨returnTag ps h₂ q, s₃, ?_, .of_holds hfreed.holds ?_ hfreed.idle,
    hfreed.live.trans hj.live, hfreed.tags.trans hj.tags,
    hj.unchanged.trans hfreed.unchanged subset_rfl (Finset.coe_subset.mpr hj.tags), ?_⟩
  · rw [free, if_neg (by simp [tagSize]), htagged, if_neg (by simpa using hs.tiled.magic p hmem),
      hmelt]
    simp [habsorb]
  · exact hfreed.initialized.trans (hj.initialized.trans hinit)
  · obtain ⟨hpages, hruns⟩ | ⟨a, n, hrun, hpages, hruns⟩ := hfreed.pages
    · exact Or.inl ⟨hpages.trans hj.pages, hruns.trans hj.runs⟩
    · rw [hj.runs] at hrun hruns
      rw [hj.pages] at hpages
      exact Or.inr ⟨a, n, hrun, hpages, hruns⟩

end Liballoc

end HalOS
