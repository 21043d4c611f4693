import HalOS.Mm.LiballocStore

/-!
# The Heap in Use

What holds of the heap in every run of calls, whoever makes them: the blocks are those of a store;
when everything has been given back, only whole runs are left, and few of them. Two things that
its callers may not expect: `malloc` looks only at the list of the size it is asked for, so that
small blocks that are not freed each take a run of their own; and a `realloc` that fails has given
the old block away.

## Main results

* `heap_keeps_store`: the heap keeps a store of blocks.
* `all_given_back`: a heap with no block in use.
* `small_blocks_take_runs`: small blocks from a heap that was not used before.
* `realloc_failing_frees`: a `realloc` that fails.
-/

namespace HalOS

namespace Liballoc

open CString (Memory)
open ObjectStore (Store block)

variable {σ : Type} {ps : PageSupplier σ} {k : Contract σ} {fuel : ℕ} {h h' : Heap σ} {t : Store}
  {s : Shape} {n p : ℕ}

/-! ### A supplier -/

/-- A supplier that hands out the pages from an address on, and takes none back. -/
def bump : PageSupplier ℕ where
  alloc supply n :=
    if supply + n * pageSize ≤ 2 ^ 32 then (supply, supply + n * pageSize) else (0, supply)
  free supply _ _ := supply

def bumpContract : Contract ℕ where
  out supply runs := 2 ^ 31 ≤ supply ∧ ∀ r ∈ runs, 2 ^ 31 ≤ r.1 ∧ r.1 + r.2 ≤ supply
  serves _ _ := True

theorem bump_supplies : Supplies bump bumpContract where
  alloc supply runs n hout _ := by
    obtain ⟨hlow, hruns⟩ := hout
    by_cases hend : supply + n * pageSize ≤ 2 ^ 32
    · refine Or.inr ?_
      simp only [bump, if_pos hend]
      refine ⟨by omega, hend, fun r hr => Or.inl (hruns r hr).2, by omega, fun r hr => ?_⟩
      rcases Finset.mem_insert.mp hr with rfl | hr
      · exact ⟨hlow, le_rfl⟩
      · have := hruns r hr
        omega
    · refine Or.inl ?_
      simp only [bump, if_neg hend]
      exact ⟨trivial, hlow, hruns⟩
  free supply runs a n hout _ := ⟨hout.1, fun r hr => hout.2 r (Finset.mem_of_mem_erase hr)⟩

/-- A heap that was not used yet, with the last 16 pages for its supplier. -/
def bumpHeap : Heap ℕ := ⟨fun _ => 0, fun _ => 0, fun _ => 0, false, 2 ^ 32 - 65536⟩

theorem reach_bumpHeap_out : bumpContract.out bumpHeap.pages ∅ := ⟨by decide, by simp⟩

theorem reach_bumpHeap : Reach bump bumpContract (2 ^ 27 + 1) bumpHeap fun _ => none :=
  .start rfl reach_bumpHeap_out

/-! ### A store of blocks -/

/-- **The heap keeps a store.** In every run, the blocks that callers have do not overlap, lie in
the runs that the supplier has handed out and have the bytes that their callers left there; and
every call that callers may make returns, with a block that nobody has. -/
theorem heap_keeps_store (hsup : Supplies ps k) (hfuel : 2 ^ 27 < fuel)
    (hreach : Reach ps k fuel h t) :
    t.Apart ∧ ObjectStore.Holds h.mem t ∧
      (∃ runs, k.out h.pages runs ∧ ∀ p bytes, t p = some bytes →
        ∃ r ∈ runs, r.1 + tagSize ≤ p ∧ p + bytes.length ≤ r.1 + r.2) ∧
      ∀ c, Permits ps k fuel h t c → ∃ ptr h', step ps fuel h c = some (ptr, h') ∧ t ptr = none := by
  have ht := hreach.tracks hsup hfuel
  refine ⟨ht.sound.1, ht.sound.2, ?_, fun c hc => ?_⟩
  · obtain ⟨s, hr, hout, rfl⟩ := ht
    refine ⟨s.runs, hout, fun ptr bytes hp => ?_⟩
    obtain ⟨p, n, rfl, hpn⟩ := exists_of_contents (Option.isSome_of_eq_some hp)
    rw [contents_add, hpn] at hp
    cases hp
    obtain ⟨hmem, -, -, hfits⟩ := hr.holds.live p n hpn
    have hin := hr.holds.tiled.inside p hmem
    refine ⟨s.home p, Finset.mem_image_of_mem _ hmem, by omega, ?_⟩
    rw [ObjectStore.length_block]
    omega
  · obtain ⟨ptr, h', hstep, hfresh, -⟩ := step_tracks hsup ht hfuel hc
    exact ⟨ptr, h', hstep, hfresh⟩

/-- The first call. -/
theorem heap_keeps_store_bump :
    ∃ ptr h', step bump (2 ^ 27 + 1) bumpHeap (.malloc 100) = some (ptr, h') :=
  ((heap_keeps_store bump_supplies (by decide) reach_bumpHeap).2.2.2 (.malloc 100)
    ⟨by decide, fun _ => trivial⟩).imp fun _ => Exists.imp fun _ h => h.1

/-! ### Nothing in use -/

/-- Where no caller has a block, every tag is a free run. -/
theorem Ready.whole_of_empty (hr : Ready h s) (hempty : ∀ p, s.live p = none) (hp : p ∈ s.tags) :
    p ∈ s.lists (field (startUp h).mem p .index) ∧ Tags.whole (field (startUp h).mem) p := by
  have hs := hr.holds
  have hfree : ∀ q ∈ s.tags, field (startUp h).mem q .index ≠ minusOne := by
    intro q hq hused
    rcases hs.held q hq hused with hhand | hlive
    · rw [hr.idle] at hhand
      exact hhand
    · rw [hempty q] at hlive
      cases hlive
  refine ⟨hs.listed.mem_own hp (hfree p hp), decide_eq_true ⟨?_, ?_⟩⟩
  · by_contra hl0
    exact hfree _ (hs.tiled.left p hp hl0).1 ((hs.used_of_free hp (hfree p hp)).1 hl0)
  · by_contra hr0
    exact hfree _ (hs.tiled.right p hp hr0).1 ((hs.used_of_free hp (hfree p hp)).2 hr0)

/-- Calls of `malloc`, one after another, with their results. -/
def mallocs (ps : PageSupplier σ) (fuel : ℕ) : List ℕ → Heap σ → Option (List ℕ × Heap σ)
  | [], h => some ([], h)
  | n :: sizes, h => do
      let (ptr, h) ← malloc ps fuel h n
      let (ptrs, h) ← mallocs ps fuel sizes h
      return (ptr :: ptrs, h)

/-- The list of what is left of a run of the least length. -/
theorem listIndex_rest (hn : n ≤ 32704) :
    pagesFor n = 16 ∧ listIndex n ≤ 14 ∧ 15 ≤ listIndex (16 * pageSize - (2 * tagSize + n)) := by
  refine ⟨?_, ?_, ?_⟩
  · rw [pagesFor, u32_of_lt (by simp only [tagSize]; omega)]
    simp only [pageSize, pageCount, tagSize]
    split_ifs <;> omega
  · rw [listIndex_eq (by omega)]
    exact max_le (by decide) (Nat.le_of_lt_succ (Nat.log_lt_of_lt_pow' (by decide) (by omega)))
  · have hlt : 16 * pageSize - (2 * tagSize + n) < 2 ^ 32 := by
      simp only [pageSize, tagSize]
      omega
    rw [listIndex_eq hlt]
    refine le_trans ?_ (le_max_right _ _)
    refine (Nat.le_log_iff_pow_le (by decide) ?_).mpr ?_
    · simp only [pageSize, tagSize]
      omega
    · simp only [pageSize, tagSize]
      omega

/-- Where all free blocks are on the lists from 15 on, a small block takes a new run and leaves
them there. -/
theorem malloc_small (hsup : Supplies ps k) (hfuel : 2 ^ 27 < fuel)
    (hserves : ∀ supply n, k.serves supply n) (hr : Ready h s) (hout : k.out h.pages s.runs)
    (hlists : ∀ i < 15, s.lists i = []) (hn : n ≤ 32704) :
    ∃ ptr h' s', malloc ps fuel h n = some (ptr, h') ∧ Ready h' s' ∧ k.out h'.pages s'.runs ∧
      (∀ i < 15, s'.lists i = []) ∧ h'.pages = (ps.alloc h.pages 16).2 := by
  obtain ⟨hpages, hindex, hrest⟩ := listIndex_rest hn
  have hsmall : n + tagSize < 2 ^ 32 := by
    simp only [tagSize]
    omega
  have hfind : s.found h.mem n = none := by
    rw [Shape.found, hlists _ (by omega)]
    rfl
  rcases hsup.alloc h.pages s.runs (pagesFor n) hout (hserves _ _) with
    ⟨hnull, hout'⟩ | ⟨hne, hend, hapart, hout'⟩
  · obtain ⟨h', hcall, hr', hmem, hp⟩ := malloc_null hr hfuel hfind hnull
    exact ⟨0, h', s, hcall, hr', by rwa [hp], hlists, by rw [hp, hpages]⟩
  · obtain ⟨h', s', hcall, hal, hp, hruns, hl⟩ :=
      malloc_new hr hsmall hfuel hfind rfl hne hend hapart
    refine ⟨_, h', s', hcall, hal.ready, by rwa [hp, hruns], fun i hi => ?_, by rw [hp, hpages]⟩
    rcases hl with hl | ⟨q, hl⟩
    · rw [hl]
      exact hlists i hi
    · rw [hl, hpages, Function.update_of_ne (by omega)]
      exact hlists i hi

/-- **Small blocks do not share a run.** From a heap that was not used before, each of any number
of calls for up to 32704 bytes asks the supplier for 16 pages more, although almost all of the
pages before are free. -/
theorem small_blocks_take_runs (hsup : Supplies ps k) (hfuel : 2 ^ 27 < fuel)
    (hserves : ∀ supply n, k.serves supply n) (hinit : h.initialized = false)
    (hout : k.out h.pages ∅) {sizes : List ℕ} (hsizes : ∀ n ∈ sizes, n ≤ 32704) :
    ∃ ptrs h', mallocs ps fuel sizes h = some (ptrs, h') ∧
      h'.pages = (fun supply => (ps.alloc supply 16).2)^[sizes.length] h.pages := by
  suffices hgen : ∀ (h : Heap σ) (s : Shape), Ready h s → k.out h.pages s.runs →
      (∀ i < 15, s.lists i = []) → ∃ ptrs h', mallocs ps fuel sizes h = some (ptrs, h') ∧
        h'.pages = (fun supply => (ps.alloc supply 16).2)^[sizes.length] h.pages by
    exact hgen h _ (ready_of_fresh hinit) hout fun _ _ => rfl
  induction sizes with
  | nil => exact fun h s _ _ _ => ⟨[], h, rfl, rfl⟩
  | cons n sizes ih =>
      intro h s hr hout hlists
      obtain ⟨ptr, h₁, s₁, hcall, hr₁, hout₁, hlists₁, hpages⟩ := malloc_small hsup hfuel hserves hr
        hout hlists (hsizes n List.mem_cons_self)
      obtain ⟨ptrs, h₂, hcalls, hpages₂⟩ := ih (fun m hm => hsizes m (List.mem_cons_of_mem _ hm)) h₁
        s₁ hr₁ hout₁ hlists₁
      refine ⟨ptr :: ptrs, h₂, ?_, ?_⟩
      · simp [mallocs, hcall, hcalls]
      · rw [hpages₂, hpages, List.length_cons, Function.iterate_succ_apply]

/-- Two blocks of a hundred bytes would need 32 pages, and there are 16. -/
theorem small_blocks_take_runs_bump :
    ∃ ptrs h', mallocs bump (2 ^ 27 + 1) [100, 100] bumpHeap = some (ptrs, h') ∧
      h'.pages = 2 ^ 32 :=
  (small_blocks_take_runs bump_supplies (by decide) (fun _ _ => trivial) rfl reach_bumpHeap_out
    (by decide : ∀ n ∈ [100, 100], n ≤ 32704)).imp fun _ => Exists.imp fun _ h => ⟨h.1, h.2.trans (by decide)⟩

/-! ### Calls that fail -/

/-- Bytes below all runs do not matter to the heap. -/
theorem Ready.of_low (hr : Ready h s) {size : ℕ} (hlow : ∀ r ∈ s.runs, size ≤ r.1) {m : Memory}
    (hm : ∀ a, size ≤ a → m a = h.mem a) :
    Ready { h with mem := m } s ∧ contents m s = contents h.mem s := by
  have hbelow : ∀ q ∈ s.tags, size ≤ q := fun q hq =>
    (hlow _ (Finset.mem_image_of_mem s.home hq)).trans (hr.holds.tiled.inside q hq).1
  refine ⟨hr.of_mem fun q hq a h1 _ => hm a ((hbelow q hq).trans h1), ?_⟩
  funext x
  rw [contents, contents]
  split_ifs with hx
  · cases hk : s.live (x - tagSize) with
    | none => rfl
    | some k =>
        have hq := hbelow _ (hr.holds.live _ k hk).1
        exact congrArg some (ObjectStore.block_congr fun a h1 _ => hm a (by omega))
  · rfl

/-- **A `realloc` that fails gives the old block away.** It returns null, the block is no caller's
any more, and its bytes are copied to the addresses from zero on. -/
theorem realloc_failing_frees (hsup : Supplies ps k) (hfuel : 2 ^ 27 < fuel)
    (hreach : Reach ps k fuel h t) {size : ℕ} {bytes : List UInt8} (hp : t p = some bytes)
    (hsize : size ≠ 0) (hn : size + tagSize < 2 ^ 32) (hserved : Served k fuel h size)
    (hfail : (malloc ps fuel h size).map Prod.fst = some 0)
    (hlow : ∀ runs, k.out h.pages runs → ∀ r ∈ runs, size ≤ r.1) :
    ∃ h', realloc ps fuel h p size = some (0, h') ∧ Tracks k h' (Function.update t p none) ∧
      block h'.mem 0 (min size bytes.length) = bytes.take size := by
  obtain ⟨s, hr, hout, rfl⟩ := hreach.tracks hsup hfuel
  obtain ⟨ptr, h₁, hcall, hres⟩ := malloc_supplied hsup hr hout hn hserved hfuel
  rw [hcall] at hfail
  obtain ⟨rfl, hr₁, hmem, hout₁⟩ : ptr = 0 ∧ Ready h₁ s ∧ h₁.mem = h.mem ∧
      k.out h₁.pages s.runs := by
    rcases hres with ⟨q, s', rfl, -⟩ | hres
    · exact absurd (Option.some.inj hfail) (by simp [tagSize])
    · exact hres
  obtain ⟨q, m, rfl, hq⟩ := exists_of_contents (Option.isSome_of_eq_some hp)
  rw [contents_add, hq] at hp
  cases hp
  rw [ObjectStore.length_block, ObjectStore.take_block]
  obtain ⟨hqmem, -, hsz, -⟩ := hr.holds.live q m hq
  have hbelow : size ≤ q := (hlow _ hout _ (Finset.mem_image_of_mem s.home hqmem)).trans
    (hr.holds.tiled.inside q hqmem).1
  -- the length that is copied
  have hlen : (if size < field h.mem (u32 (q + tagSize + 2 ^ 32 - tagSize)) .size then size
      else field h.mem (u32 (q + tagSize + 2 ^ 32 - tagSize)) .size) = min size m := by
    rw [startUp_mem] at hsz
    rw [Nat.add_right_comm, Nat.add_sub_cancel, u32, Nat.add_mod_right,
      Nat.mod_eq_of_lt (hr.holds.tiled.lt hqmem), hsz]
    split_ifs <;> omega
  obtain ⟨hcopied, hcont⟩ := hr₁.of_low (hlow _ hout)
    (m := liballocMemcpy (min size m) 0 (q + tagSize) h₁.mem) fun a ha => by
      rw [liballocMemcpy_apply (by omega), if_neg (by omega)]
  obtain ⟨h₂, s₂, hfree, hr₂, hout₂, hcont₂, hunch⟩ := free_supplied hsup hcopied hout₁ hq
    (by omega : 2 ≤ fuel)
  refine ⟨h₂, ?_, ⟨s₂, hr₂, hout₂, ?_⟩, ?_⟩
  · have hp0 : q + tagSize ≠ 0 := by simp [tagSize]
    rw [realloc, if_neg hsize, if_neg hp0]
    dsimp only
    rw [hlen, hcall]
    simp [hfree]
  · rw [hcont₂, hcont, hmem]
  · refine List.ext_getElem (by simp) fun i h1 h2 => ?_
    rw [ObjectStore.length_block] at h1
    rw [ObjectStore.getElem_block, ObjectStore.getElem_block, hunch]
    · dsimp only
      rw [liballocMemcpy_apply (by omega), if_pos (by omega), hmem]
      simp
    · intro r hrm
      rw [sizeOf_tagField]
      have := (hlow _ hout _ (Finset.mem_image_of_mem s.home hrm)).trans
        (hr.holds.tiled.inside r hrm).1
      omega

/-- A block of 100 bytes that is to become one of 70000. -/
theorem realloc_failing_frees_bump : ∃ h h', realloc bump (2 ^ 27 + 1) h (2 ^ 32 - 65504) 70000 =
    some (0, h') := by
  have hsecond : ((malloc bump (2 ^ 27 + 1) bumpHeap 100).bind fun r =>
      (malloc bump (2 ^ 27 + 1) r.2 70000).map Prod.fst) = some 0 := by decide +kernel
  have hfirst : (malloc bump (2 ^ 27 + 1) bumpHeap 100).map Prod.fst =
      some (2 ^ 32 - 65504) := by decide +kernel
  obtain ⟨ptr, h, hcall, -, -⟩ := malloc_tracks (n := 100) bump_supplies
    (reach_bumpHeap.tracks bump_supplies (by decide)) (by decide) (fun _ => trivial)
    (by decide : 2 ^ 27 < 2 ^ 27 + 1)
  rw [hcall] at hfirst hsecond
  obtain rfl : ptr = 2 ^ 32 - 65504 := Option.some.inj hfirst
  have hreach := Reach.call reach_bumpHeap (c := .malloc 100) ⟨by decide, fun _ => trivial⟩ hcall
  obtain ⟨h', hrealloc, -⟩ := realloc_failing_frees bump_supplies (by decide) hreach
    (by simp [after] : after h.mem (fun _ => none) (2 ^ 32 - 65504) (.malloc 100) (2 ^ 32 - 65504) =
      some (block h.mem (2 ^ 32 - 65504) 100)) (by decide : 70000 ≠ 0) (by decide) (fun _ => trivial) hsecond fun runs hout r hr => by
      have := (hout.2 r hr).1
      omega
  exact ⟨h, h', hrealloc⟩

end Liballoc

end HalOS
