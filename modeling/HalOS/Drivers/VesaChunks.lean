import HalOS.Drivers.Vesa

/-!
# Where the Chunks of the Back Buffer Lie

Each chunk of `vesa_init` goes to the lowest hole that is large enough for it. The chunks are placed
end to end just if the pages behind the first one are all free, and the last chunk, which may be
shorter, finds no hole below the first one.

## Main results

* `PlacesChunks.follows`: pages that lie together were placed end to end.
* `PlacesChunks.placed`: what the tables hold when the chunks are placed end to end.
* `placesChunks_of_chunkLoop`: the loop as a list of places.
* `noted_chunkLoop`: what the loop does to the manager of the blocks.
-/

namespace HalOS

/-! ### Places -/

/-- The pages of a chunk and the first of its blocks. -/
structure Place where
  start : ℕ
  pages : ℕ
  block : ℕ

namespace Place

/-- Page `a` is one of the chunk's. -/
def Has (p : Place) (a : ℕ) : Prop := p.start ≤ a ∧ a < p.start + p.pages

def blocks (p : Place) : List ℕ := List.range' p.block p.pages

end Place

/-- From `s` to `t` chunks for `remaining` pages are placed, one after the other, at the lowest hole
that is large enough. -/
inductive PlacesChunks : ℕ → Vmm → List Place → Vmm → Prop
  | done (s : Vmm) : PlacesChunks 0 s [] s
  | chunk {remaining start b : ℕ} {s t u : Vmm} {places : List Place} :
      0 < remaining → findContiguousFreePages s (chunkPages remaining) = some start →
      Gives s start (chunkPages remaining) b t →
      t.bitmap = Bitmap.setRun s.bitmap start (chunkPages remaining) →
      PlacesChunks (remaining - chunkPages remaining) t places u →
      PlacesChunks remaining s (⟨start, chunkPages remaining, b⟩ :: places) u

/-- The search looks at the bitmap and the number of pages alone. -/
theorem findContiguousFreePages_congr {s t : Vmm} (hbits : s.bitmap = t.bitmap)
    (hmax : s.maxPages = t.maxPages) (n : ℕ) :
    findContiguousFreePages s n = findContiguousFreePages t n := by
  have hfree : isPageFree s = isPageFree t := funext fun i => by
    rw [isPageFree, isPageFree, hbits]
  have hbound : s.bound = t.bound := congrArg UInt32.toNat hmax
  rw [findContiguousFreePages, findContiguousFreePages, hfree, hbound]

/-- The state of the window after `done` pages of a buffer were placed end to end. -/
structure PlacedTo (s₁ : Vmm) (start done : ℕ) (s : Vmm) : Prop where
  bitmap : s.bitmap = Bitmap.setRun s₁.bitmap start done
  maxPages : s.maxPages = s₁.maxPages

namespace PlacedTo

variable {s₁ s t : Vmm} {start done n b : ℕ}

theorem find (h : PlacedTo s₁ start done s) (n : ℕ) :
    findContiguousFreePages s n = findContiguousFreePages (markPages s₁ start done true) n :=
  findContiguousFreePages_congr (t := markPages s₁ start done true) h.bitmap h.maxPages n

theorem isPageFree_iff (h : PlacedTo s₁ start done s) (i : ℕ) :
    isPageFree s i = true ↔ isPageFree s₁ i = true ∧ ¬ (start ≤ i ∧ i < start + done) := by
  rw [← isPageFree_markPages s₁ start done i, isPageFree, h.bitmap]
  rfl

theorem step (h : PlacedTo s₁ start done s) (hg : Gives s (start + done) n b t)
    (hbits : t.bitmap = Bitmap.setRun s.bitmap (start + done) n) :
    PlacedTo s₁ start (done + n) t where
  bitmap := by
    rw [hbits, h.bitmap]
    refine Bitmap.eq_of_test_eq fun j => ?_
    rw [Bitmap.test_setRun, Bitmap.test_setRun, Bitmap.test_setRun, ← Bool.or_assoc,
      ← Bool.decide_or]
    congr 2
    simp only [eq_iff_iff]
    omega
  maxPages := hg.keeps.maxPages.trans h.maxPages

end PlacedTo

/-- The pages of a chunk were free. -/
theorem PlacesChunks.isPageFree_of_has {remaining : ℕ} {s t : Vmm} {places : List Place}
    (h : PlacesChunks remaining s places t) {p : Place} (hp : p ∈ places) {a : ℕ} (ha : p.Has a) :
    a < s.bound ∧ isPageFree s a = true := by
  induction h with
  | done => cases hp
  | @chunk remaining found b s t u places hr hfind hgives hbits hrest ih =>
      rcases List.mem_cons.mp hp with rfl | hp
      · obtain ⟨hlo, hhi⟩ := ha
        obtain ⟨k, rfl⟩ := Nat.exists_eq_add_of_le hlo
        obtain ⟨hlt, hfree, -⟩ := hgives.page k (by simpa using hhi)
        exact ⟨hlt, hfree⟩
      · obtain ⟨hlt, hfree⟩ := ih hp
        have hbound : t.bound = s.bound := congrArg UInt32.toNat hgives.keeps.maxPages
        rw [hbound] at hlt
        rw [isPageFree, hbits] at hfree
        exact ⟨hlt, ((isPageFree_markPages s found _ a).mp hfree).1⟩

/-- A chunk that has room behind the pages placed so far, and the page behind them if it is the last
one, goes right there. -/
theorem PlacedTo.found_eq {s₁ s : Vmm} {start done remaining found : ℕ}
    (hto : PlacedTo s₁ start done s) (hr : 0 < remaining)
    (hfirst : findContiguousFreePages s₁ (chunkPages (done + remaining)) = some start)
    (hdone : done % 32 = 0) (hfind : findContiguousFreePages s (chunkPages remaining) = some found)
    (hnext : FreeRun s (chunkPages remaining) (start + done))
    (hown : remaining ≤ chunkPages remaining → start + done < found + chunkPages remaining) :
    found = start + done := by
  have hpos := chunkPages_pos hr
  obtain ⟨hrun, hlow⟩ := (findContiguousFreePages_eq_some hpos).mp hfind
  have hbelow : found ≤ start + done := by
    by_contra hlt
    exact hlow _ (by omega) hnext
  by_contra hne
  have hunplaced : ∀ k < chunkPages remaining, isPageFree s₁ (found + k) = true ∧
      ¬ (start ≤ found + k ∧ found + k < start + done) := fun k hk =>
    (hto.isPageFree_iff _).mp (hrun k hk).2
  have hzero := (hunplaced 0 hpos).2
  rcases Nat.eq_zero_or_pos done with rfl | hsome
  · rw [Nat.zero_add] at hfirst
    exact hne (Option.some.inj ((hfind.symm.trans (hto.find _)).trans hfirst))
  · have hfull : chunkPages (done + remaining) = 32 := by
      rw [chunkPages, if_pos (by omega)]
    by_cases hlast : chunkPages remaining = 32
    · -- a hole for a full chunk below the first one
      rw [hfull] at hfirst
      rw [hlast] at hrun hunplaced
      refine ((findContiguousFreePages_eq_some (by omega)).mp hfirst).2 found (by omega)
        fun k hk => ⟨?_, (hunplaced k hk).1⟩
      have hlt := (hrun k hk).1
      rwa [Vmm.bound, hto.maxPages] at hlt
    · -- the last chunk: the page behind the others is not its own
      have hend : remaining ≤ chunkPages remaining := by
        rw [chunkPages] at hlast ⊢
        split_ifs at hlast ⊢ <;> omega
      have hhi := hown hend
      have hplaced := (hunplaced (start + done - 1 - found) (by omega)).2
      omega

/-- **Pages that lie together were placed end to end**: where all pages behind those placed so far
are given to chunks, each chunk goes right behind the one before it. -/
theorem PlacesChunks.follows {s₁ s t : Vmm} {start done remaining : ℕ} {places : List Place}
    (h : PlacesChunks remaining s places t) (hto : PlacedTo s₁ start done s)
    (hfirst : findContiguousFreePages s₁ (chunkPages (done + remaining)) = some start)
    (hdone : done % 32 = 0 ∨ remaining = 0)
    (hcover : ∀ a, start + done ≤ a → a < start + done + remaining → ∃ p ∈ places, p.Has a) :
    ∀ j, done ≤ 32 * j → 32 * j < done + remaining →
      findContiguousFreePages (markPages s₁ start (32 * j) true)
        (chunkPages (done + remaining - 32 * j)) = some (start + 32 * j) := by
  induction h generalizing done with
  | done => omega
  | @chunk remaining found b s t u places hr hfind hgives hbits hrest ih =>
      have hle := chunkPages_le remaining
      have hpos := chunkPages_pos hr
      have hall := PlacesChunks.chunk hr hfind hgives hbits hrest
      have hnext : FreeRun s (chunkPages remaining) (start + done) := fun k hk => by
        obtain ⟨p, hp, hhas⟩ := hcover (start + done + k) (by omega) (by omega)
        exact hall.isPageFree_of_has hp hhas
      have hown : remaining ≤ chunkPages remaining →
          start + done < found + chunkPages remaining := fun hlast => by
        rw [Nat.sub_eq_zero_of_le hlast] at hrest
        cases hrest with
        | done =>
            obtain ⟨p, hp, -, hhi⟩ := hcover (start + done) le_rfl (by omega)
            obtain rfl := List.mem_singleton.mp hp
            exact hhi
        | chunk hzero => exact absurd hzero (lt_irrefl 0)
      obtain rfl : found = start + done :=
        hto.found_eq hr hfirst (hdone.resolve_right (by omega)) hfind hnext hown
      intro j hlo hhi
      rcases Nat.eq_or_lt_of_le hlo with heq | hlt
      · rw [← heq, ← hto.find, Nat.add_sub_cancel_left]
        exact hfind
      · have hfull : chunkPages remaining = 32 := by
          rw [chunkPages, if_pos (by omega)]
        have hsum : done + 32 + (remaining - 32) = done + remaining := by omega
        rw [hfull] at hgives hbits hrest ih
        have hnextcover : ∀ a, start + (done + 32) ≤ a →
            a < start + (done + 32) + (remaining - 32) → ∃ p ∈ places, p.Has a := by
          intro a ha ha'
          obtain ⟨p, hp, hhas⟩ := hcover a (by omega) (by omega)
          rcases List.mem_cons.mp hp with rfl | hp
          · obtain ⟨-, hend⟩ := hhas
            simp only at hend
            omega
          · exact ⟨p, hp, hhas⟩
        have := ih (hto.step hgives hbits) (by rw [hsum]; exact hfirst) (by omega) hnextcover j
          (by omega) (by omega)
        rwa [hsum] at this

/-! ### What the tables hold -/

theorem PlacesChunks.maxPages {remaining : ℕ} {s t : Vmm} {places : List Place}
    (h : PlacesChunks remaining s places t) : t.maxPages = s.maxPages := by
  induction h with
  | done => rfl
  | chunk _ _ hgives _ _ ih => exact ih.trans hgives.keeps.maxPages

/-- With no more pages than the window has, a page that is given to no chunk keeps its entry. -/
theorem PlacesChunks.entry_of_not_has {remaining : ℕ} {s t : Vmm} {places : List Place}
    (h : PlacesChunks remaining s places t) (hbound : s.bound ≤ 0x40000) {a : ℕ} (ha : a < 0x40000)
    (hnot : ∀ p ∈ places, ¬ p.Has a) :
    t.paging.entry (pageNum (pageAddr a)) = s.paging.entry (pageNum (pageAddr a)) := by
  induction h with
  | done => rfl
  | @chunk remaining found b s t u places hr hfind hgives hbits hrest ih =>
      have hbound' : t.bound ≤ 0x40000 := by
        rw [Vmm.bound, hgives.keeps.maxPages]
        exact hbound
      rw [ih hbound' fun p hp => hnot p (List.mem_cons_of_mem _ hp)]
      refine hgives.keeps.entry a fun k hk => ?_
      have hlt := (hgives.page k hk).1
      have hout := hnot _ List.mem_cons_self
      simp only [Place.Has] at hout
      exact ⟨by omega, by omega, by omega, by omega, by omega⟩

/-- The pages from `start` on are mapped to `blocks`, which are different blocks in use. -/
structure Placed (start : ℕ) (blocks : List ℕ) (s : Vmm) : Prop where
  entry : ∀ (k : ℕ) (hk : k < blocks.length), ∃ e,
    s.paging.entry (pageNum (pageAddr (start + k))) = some e ∧ pageBase e = blockAddr blocks[k]
  used : ∀ b ∈ blocks, b < s.pmm.bound ∧ s.pmm.isUsed b = true
  nodup : blocks.Nodup

namespace Placed

variable {start : ℕ} {blocks : List ℕ} {s t : Vmm}

theorem nil (start : ℕ) (s : Vmm) : Placed start [] s where
  entry := fun _ hk => absurd hk (Nat.not_lt_zero _)
  used := fun _ hb => absurd hb (List.not_mem_nil)
  nodup := List.nodup_nil

theorem of_keeps (h : Placed start blocks s) {P : ℕ → Prop}
    (hk : Keeps P (fun _ => True) s t) (hP : ∀ k < blocks.length, P (start + k)) :
    Placed start blocks t where
  entry := fun k hkl => by
    rw [hk.entry _ (hP k hkl)]
    exact h.entry k hkl
  used := fun b hb => by
    obtain ⟨hlt, hused⟩ := h.used b hb
    rw [hk.bound]
    exact ⟨hlt, hk.used b hlt trivial hused⟩
  nodup := h.nodup

/-- The next chunk goes behind those placed. -/
theorem step (h : Placed start blocks s) {n b : ℕ}
    (hg : Gives s (start + blocks.length) n b t) (hend : start + blocks.length + n ≤ 0x40000) :
    Placed start (blocks ++ List.range' b n) t := by
  have hold := h.of_keeps hg.keeps fun k hk j hj =>
    ⟨by omega, by omega, by omega, by omega, by omega⟩
  refine ⟨fun k hk => ?_, fun c hc => ?_, ?_⟩
  · rw [List.length_append, List.length_range'] at hk
    by_cases hin : k < blocks.length
    · rw [List.getElem_append_left hin]
      exact hold.entry k hin
    · obtain ⟨e, hentry, hframe⟩ := hg.frame (k - blocks.length) (by omega)
      have hsum : start + blocks.length + (k - blocks.length) = start + k := by omega
      rw [hsum] at hentry
      refine ⟨e, hentry, ?_⟩
      rw [List.getElem_append_right (by omega), List.getElem_range', Nat.one_mul]
      exact hframe
  · rcases List.mem_append.mp hc with hc | hc
    · exact hold.used c hc
    · obtain ⟨k, hk, rfl⟩ := List.mem_range'.mp hc
      rw [Nat.one_mul]
      obtain ⟨hfree, hused, -⟩ := hg.block k hk
      rw [hg.keeps.bound]
      exact ⟨(Pmm.isFree_iff.mp hfree).1, hused⟩
  · refine List.nodup_append.mpr ⟨h.nodup, List.nodup_range', fun c hc d hd heq => ?_⟩
    obtain ⟨k, hk, rfl⟩ := List.mem_range'.mp hd
    rw [Nat.one_mul] at heq
    have hunused := (Pmm.isFree_iff.mp (hg.block k hk).1).2
    rw [← heq, (h.used c hc).2] at hunused
    exact Bool.noConfusion hunused

end Placed

/-- **Chunks that lie end to end** are mapped to their blocks, one page behind the other. -/
theorem PlacesChunks.placed {s₁ s t : Vmm} {start remaining : ℕ} {places : List Place}
    {blocks : List ℕ} (h : PlacesChunks remaining s places t)
    (hto : PlacedTo s₁ start blocks.length s) (hplaced : Placed start blocks s)
    (hdone : blocks.length % 32 = 0 ∨ remaining = 0)
    (hfollows : Follows s₁ start (blocks.length + remaining))
    (hend : start + blocks.length + remaining ≤ 0x40000) :
    Placed start (blocks ++ places.flatMap Place.blocks) t := by
  induction h generalizing blocks with
  | done =>
      rw [List.flatMap_nil, List.append_nil]
      exact hplaced
  | @chunk remaining found b s t u places hr hfind hgives hbits hrest ih =>
      have hle := chunkPages_le remaining
      have hnext := hfollows (blocks.length / 32) (by omega)
      have hwhole : 32 * (blocks.length / 32) = blocks.length := by omega
      rw [hwhole, Nat.add_sub_cancel_left, ← hto.find] at hnext
      obtain rfl : found = start + blocks.length := Option.some.inj (hfind.symm.trans hnext)
      have hlength : (blocks ++ List.range' b (chunkPages remaining)).length =
          blocks.length + chunkPages remaining := by
        rw [List.length_append, List.length_range']
      have hsum : blocks.length + chunkPages remaining + (remaining - chunkPages remaining) =
          blocks.length + remaining := by omega
      have hblocks : Place.blocks ⟨start + blocks.length, chunkPages remaining, b⟩ =
          List.range' b (chunkPages remaining) := rfl
      rw [List.flatMap_cons, ← List.append_assoc, hblocks]
      refine ih ?_ (hplaced.step hgives (by omega)) ?_ ?_ ?_
      · rw [hlength]
        exact hto.step hgives hbits
      · rw [hlength, chunkPages]
        split_ifs <;> omega
      · rw [hlength, hsum]
        exact hfollows
      · rw [hlength]
        omega

/-! ### The loop -/

/-- The frames of the chunks, in the order in which they were taken. -/
def chunkFrames (chunks : List Chunk) : List UInt32 :=
  chunks.flatMap fun c => (List.range c.pages).map fun k => c.phys + UInt32.ofNat k * 4096

/-- The loop notes chunks behind those noted before. -/
theorem prefix_chunkLoop (turns remaining : ℕ) (offset : UInt32) (chunks : List Chunk) (s : Vesa) :
    chunks <+: (chunkLoop turns remaining offset chunks s).2.1 := by
  induction turns generalizing remaining offset chunks s with
  | zero => exact List.prefix_rfl
  | succ turns ih =>
      rcases Nat.eq_zero_or_pos remaining with rfl | hr
      · exact List.prefix_rfl
      · rcases chunkLoop_cases turns hr offset chunks s with
          ⟨-, heq⟩ | ⟨-, ⟨-, heq⟩ | ⟨-, heq⟩⟩
        · rw [heq]
        · rw [heq]
          exact List.prefix_append _ _
        · rw [heq]
          exact (List.prefix_append _ _).trans (ih _ _ _ _)

/-- A chunk that gets its blocks is noted. -/
theorem chunkOf_mem_chunkLoop (turns : ℕ) {remaining : ℕ} (hr : 0 < remaining) (offset : UInt32)
    (chunks : List Chunk) {s : Vesa} (hphys : (chunkAlloc s.vmm (chunkPages remaining)).1 ≠ 0) :
    chunkOf s.vmm (chunkPages remaining) ∈
      (chunkLoop (turns + 1) remaining offset chunks s).2.1 := by
  have hnoted : chunkOf s.vmm (chunkPages remaining) ∈
      chunks ++ [chunkOf s.vmm (chunkPages remaining)] :=
    List.mem_append_right _ List.mem_cons_self
  obtain ⟨hzero, -⟩ | ⟨-, ⟨-, heq⟩ | ⟨-, heq⟩⟩ := chunkLoop_cases turns hr offset chunks s
  · exact absurd hzero hphys
  · rw [heq]
    exact hnoted
  · rw [heq]
    exact (prefix_chunkLoop _ _ _ _ _).subset hnoted

/-- Only the first chunk sets the address of the buffer. -/
theorem backBuffer_chunkLoop (turns remaining : ℕ) (offset : UInt32) (chunks : List Chunk)
    (s : Vesa) (hoffset : 0 < offset.toNat) (hend : offset.toNat + remaining * 4096 < 2 ^ 32) :
    (chunkLoop turns remaining offset chunks s).2.2.backBuffer = s.backBuffer := by
  induction turns generalizing remaining offset chunks s with
  | zero => rfl
  | succ turns ih =>
      rcases Nat.eq_zero_or_pos remaining with rfl | hr
      · rfl
      · have hle := chunkPages_le remaining
        rcases chunkLoop_cases turns hr offset chunks s with
          ⟨-, heq⟩ | ⟨-, ⟨-, heq⟩ | ⟨-, heq⟩⟩
        · rw [heq]
          rfl
        · rw [heq]
          rfl
        · have hpage : (4096 : UInt32).toNat = 4096 := by decide
          have hnext : (offset + UInt32.ofNat (chunkPages remaining) * 4096).toNat =
              offset.toNat + chunkPages remaining * 4096 := by
            rw [UInt32.toNat_add, UInt32.toNat_mul, UInt32.toNat_ofNat', hpage]
            omega
          have hne : offset ≠ 0 := fun h => by
            rw [h] at hoffset
            exact absurd hoffset (by decide)
          rw [heq, ih _ _ _ _ (by omega) (by omega), if_neg hne]

/-- **The loop places chunks**, if no search for blocks wraps round. -/
theorem placesChunks_of_chunkLoop {turns remaining : ℕ} {offset : UInt32}
    {chunks chunks' : List Chunk}
    {s t : Vesa} (hs : s.vmm.paging.Sound) (hp : s.vmm.bound < 2 ^ 20) (hturns : remaining ≤ turns)
    (hloop : chunkLoop turns remaining offset chunks s = (true, chunks', t))
    (hnw : ∀ c ∈ chunks', ¬ c.pmm.WrapsRound c.pages) :
    ∃ places, PlacesChunks remaining s.vmm places t.vmm ∧
      chunkFrames chunks' = chunkFrames chunks ++ (places.flatMap Place.blocks).map blockAddr := by
  induction turns generalizing remaining offset chunks s with
  | zero =>
      obtain rfl : remaining = 0 := by omega
      rw [chunkLoop] at hloop
      cases hloop
      exact ⟨[], .done _, by simp⟩
  | succ turns ih =>
      rcases Nat.eq_zero_or_pos remaining with rfl | hr
      · rw [chunkLoop, if_pos rfl] at hloop
        cases hloop
        exact ⟨[], .done _, by simp⟩
      · have hle := chunkPages_le remaining
        have hpos := chunkPages_pos hr
        rcases chunkLoop_cases turns hr offset chunks s with
          ⟨-, heq⟩ | ⟨hphys, ⟨-, heq⟩ | ⟨hvirt, heq⟩⟩
        · cases heq.symm.trans hloop
        · cases heq.symm.trans hloop
        · have hnoted := chunkOf_mem_chunkLoop turns hr offset chunks hphys
          rw [hloop] at hnoted
          rw [heq] at hloop
          obtain ⟨start, b, hfind, -, hphys', hgives, hbits⟩ :=
            chunk_gives hs hp hle.1 hphys hvirt (hnw _ hnoted)
          have hbound : (chunkDone s.vmm (chunkPages remaining)).bound < 2 ^ 20 := by
            rw [Vmm.bound, hgives.keeps.maxPages]
            exact hp
          obtain ⟨places, hplaces, hframes⟩ := ih hgives.keeps.sound hbound (by omega) hloop
          refine ⟨_, .chunk hr hfind hgives hbits hplaces, ?_⟩
          have hchunk : chunkFrames [chunkOf s.vmm (chunkPages remaining)] =
              (List.range' b (chunkPages remaining)).map blockAddr := by
            rw [chunkFrames, List.flatMap_singleton, List.range'_eq_map_range, List.map_map]
            refine List.map_congr_left fun k _ => ?_
            rw [chunkOf, hphys', blockAddr_add]
            rfl
          rw [hframes, List.flatMap_cons, List.map_append, ← List.append_assoc]
          congr 1
          rw [chunkFrames, List.flatMap_append]
          exact congrArg (chunkFrames chunks ++ ·) hchunk

/-- `c` was taken from the manager between `p` and `t`. -/
structure NotedBetween (p t : Pmm) (c : Chunk) : Prop where
  before : Grows p c.pmm
  phys : c.phys = (pmmAllocBlocks c.pmm (UInt32.ofNat c.pages)).1
  phys_ne : c.phys ≠ 0
  pages_le : c.pages ≤ 32
  after : Grows (pmmAllocBlocks c.pmm (UInt32.ofNat c.pages)).2 t

/-- What is known of a chunk that was taken. -/
theorem NotedBetween.spec {p t : Pmm} {c : Chunk} (h : NotedBetween p t c) (hb : p.bound < 2 ^ 20) :
    0 < c.pages ∧ c.phys = blockAddr (c.phys.toNat / 4096) ∧
      t.isUsed (c.phys.toNat / 4096) = true ∧
      (c.pmm.WrapsRound c.pages →
        c.pmm.isFree (c.phys.toNat / 4096 + (c.pages - 1)) = false) ∧
      (¬ c.pmm.WrapsRound c.pages →
        ∀ k < c.pages, c.pmm.isFree (c.phys.toNat / 4096 + k) = true ∧
          p.isFree (c.phys.toNat / 4096 + k) = true) := by
  have hcount : (UInt32.ofNat c.pages).toNat = c.pages := by
    have := h.pages_le
    rw [UInt32.toNat_ofNat']
    omega
  have hphys := h.phys
  obtain ⟨hpos, b, hlt, haddr, hused, hwraps, htakes⟩ :=
    pmmAllocBlocks_of_ne_zero (hphys ▸ h.phys_ne)
  rw [hcount] at hpos hwraps htakes
  rw [h.before.bound] at hlt
  have hindex : c.phys.toNat / 4096 = b := by
    rw [hphys, haddr, toNat_blockAddr (lt_trans hlt hb)]
    omega
  rw [hindex]
  refine ⟨hpos, hphys.trans haddr, h.after.used b hused, hwraps, fun hnw k hk => ?_⟩
  have hfree := (htakes hnw).run k hk
  refine ⟨hfree, ?_⟩
  obtain ⟨hltk, hunused⟩ := Pmm.isFree_iff.mp hfree
  rw [h.before.bound] at hltk
  refine Pmm.isFree_iff.mpr ⟨hltk, ?_⟩
  cases hu : p.isUsed (b + k) with
  | false => rfl
  | true => exact absurd (h.before.used _ hu) (by rw [hunused]; decide)

@[simp] theorem pmm_clearPages (virt : UInt32) (n k : ℕ) (s : Paging) :
    (clearPages virt n k s).pmm = s.pmm := by
  induction n generalizing k s with
  | zero => rfl
  | succ n ih => exact ih _ _

/-- What a chunk does to the manager of the blocks. -/
theorem grows_chunk (s : Vmm) (n : ℕ) (hb : s.pmm.bound < 2 ^ 20) :
    Grows s.pmm (chunkAlloc s n).2 ∧ Grows (chunkAlloc s n).2 (chunkMap s n).2.pmm ∧
      (chunkDone s n).pmm = (chunkMap s n).2.pmm := by
  have halloc : Grows s.pmm (chunkAlloc s n).2 := grows_pmmAllocBlocks s.pmm _
  refine ⟨halloc, ?_, pmm_clearPages _ _ _ _⟩
  refine (builds_vmmMapMmio (s.withPmm (chunkAlloc s n).2) _ _ _).grows ?_
  show (chunkAlloc s n).2.bound < 2 ^ 20
  rw [halloc.bound]
  exact hb

/-- The loop gives blocks away, to the chunks it notes among others. -/
theorem noted_chunkLoop (turns remaining : ℕ) (offset : UInt32) (chunks : List Chunk) {s : Vesa}
    (hb : s.vmm.pmm.bound < 2 ^ 20) :
    Grows s.vmm.pmm (chunkLoop turns remaining offset chunks s).2.2.vmm.pmm ∧
      ∀ c ∈ (chunkLoop turns remaining offset chunks s).2.1, c ∈ chunks ∨
        NotedBetween s.vmm.pmm (chunkLoop turns remaining offset chunks s).2.2.vmm.pmm c := by
  induction turns generalizing remaining offset chunks s with
  | zero => exact ⟨.refl _, fun c hc => Or.inl hc⟩
  | succ turns ih =>
      rcases Nat.eq_zero_or_pos remaining with rfl | hr
      · exact ⟨.refl _, fun c hc => Or.inl hc⟩
      · have hle := chunkPages_le remaining
        obtain ⟨halloc, hmap, hdone⟩ := grows_chunk s.vmm (chunkPages remaining) hb
        rcases chunkLoop_cases turns hr offset chunks s with
          ⟨-, heq⟩ | ⟨hphys, ⟨-, heq⟩ | ⟨-, heq⟩⟩
        · rw [heq]
          exact ⟨halloc, fun c hc => Or.inl hc⟩
        · rw [heq]
          refine ⟨halloc.trans hmap, fun c hc => ?_⟩
          rcases List.mem_append.mp hc with hc | hc
          · exact Or.inl hc
          · obtain rfl := List.mem_singleton.mp hc
            exact Or.inr ⟨.refl _, rfl, hphys, hle.1, hmap⟩
        · have hgrow : Grows s.vmm.pmm (chunkDone s.vmm (chunkPages remaining)).pmm := by
            rw [hdone]
            exact halloc.trans hmap
          obtain ⟨hrest, hnoted⟩ := ih (remaining - chunkPages remaining)
            (offset + UInt32.ofNat (chunkPages remaining) * 4096)
            (chunks ++ [chunkOf s.vmm (chunkPages remaining)])
            (s := { s with
              backBuffer :=
                if offset = 0 then (chunkMap s.vmm (chunkPages remaining)).1 else s.backBuffer
              vmm := chunkDone s.vmm (chunkPages remaining) })
            (by rw [hgrow.bound]; exact hb)
          rw [heq]
          refine ⟨hgrow.trans hrest, fun c hc => ?_⟩
          rcases hnoted c hc with hc | hnote
          · rcases List.mem_append.mp hc with hc | hc
            · exact Or.inl hc
            · obtain rfl := List.mem_singleton.mp hc
              refine Or.inr ⟨.refl _, rfl, hphys, hle.1, hmap.trans ?_⟩
              rw [← hdone]
              exact hrest
          · exact Or.inr ⟨hgrow.trans hnote.before, hnote.phys, hnote.phys_ne, hnote.pages_le,
              hnote.after⟩

end HalOS
