import HalOS.Drivers.VesaChunks

/-!
# Whether the Back Buffer Is One Block

`vesa_init` takes the address of the first chunk for that of the buffer. So the buffer is one block
just if its chunks are placed end to end. The blocks are the call's own if no search of
`pmm_alloc_blocks` wraps round.

When the call fails, `pmm_free_blocks` gives nothing back (`pmm_free_block` returns at once), so the
blocks are returned only if there are none.

## Main results

* `oneBlock_iff`: a call that succeeds.
* `returnsChunks_iff`: a call that fails.
* `backBuffer_iff`: both, at the end of every run.
-/

namespace HalOS

/-! ### The heap -/

/-- `malloc` asks `liballoc_alloc` for pages. -/
def Heap.Supplied (heap : Heap) : Prop :=
  ∀ size s, ∃ counts : List Int32,
    (heap.malloc size s).2 = counts.foldl (fun s n => (liballocAlloc s n).2) s

/-- `free` hands `vmm_free_page` pages that were in use when `malloc` returned. -/
def Heap.FreesHeld (heap : Heap) : Prop :=
  ∀ size s t, ∃ pages : List ℕ,
    (∀ x ∈ pages, x < 2 ^ 20 ∧ isPageFree (heap.malloc size s).2 x = false) ∧
      heap.free (heap.malloc size s).1 t =
        pages.foldl (fun t x => vmmFreePage t (pageAddr x)) t

@[simp] theorem pmm_vmmFreePage (s : Vmm) (addr : UInt32) : (vmmFreePage s addr).pmm = s.pmm := by
  rw [vmmFreePage_eq]
  split_ifs
  · rfl
  · exact Paging.pmm_unmap addr

/-- `vmm_free_page` does not take pages behind the window. -/
theorem vmmFreePage_behind (s : Vmm) {x : ℕ} (hlo : 0x40000 ≤ x) (hhi : x < 2 ^ 20) :
    vmmFreePage s (pageAddr x) = s := by
  have hbelow : pageAddr x < 0xC0000000 := by
    have hwindow : (0xC0000000 : UInt32).toNat = 0xC0000000 := by decide
    rw [UInt32.lt_iff_toNat_lt, hwindow, toNat_pageAddr]
    omega
  rw [vmmFreePage_eq, if_pos (Or.inr (Or.inr (Or.inl hbelow)))]

/-- Freeing pages of the heap. -/
theorem keeps_freePagesOf {s t : Vmm} {pages : List ℕ} (ht : t.paging.Sound)
    (hheld : ∀ x ∈ pages, x < 2 ^ 20 ∧ isPageFree s x = false) :
    Keeps (fun a => a < 0x40000 ∧ isPageFree s a = true) (fun _ => True) t
      (pages.foldl (fun t x => vmmFreePage t (pageAddr x)) t) := by
  induction pages generalizing t with
  | nil => exact .refl ht
  | cons x pages ih =>
      obtain ⟨hx, hused⟩ := hheld x List.mem_cons_self
      have hrest := fun y hy => hheld y (List.mem_cons_of_mem x hy)
      rw [List.foldl_cons]
      by_cases hin : x < 0x40000
      · have hstep : Keeps (fun a => a < 0x40000 ∧ isPageFree s a = true) (fun _ => True) t
            (vmmFreePage t (pageAddr x)) := by
          refine (keeps_vmmFreePage ht hx).mono (fun a ha => ?_) fun _ _ _ => trivial
          refine ⟨fun heq => ?_, by omega, by omega, by omega, by omega⟩
          rw [heq, hused] at ha
          exact Bool.noConfusion ha.2
        exact hstep.trans (ih hstep.sound hrest)
      · rw [vmmFreePage_behind t (by omega) hx]
        exact ih ht hrest

/-- Freeing pages of the heap changes no translation, but for pages that are unmapped. -/
theorem entry_freePagesOf {t : Vmm} {pages : List ℕ} (ht : t.paging.Sound) {m : ℕ}
    (hm : m < 2 ^ 20) :
    (pages.foldl (fun t x => vmmFreePage t (pageAddr x)) t).paging.entry m = t.paging.entry m ∨
      (pages.foldl (fun t x => vmmFreePage t (pageAddr x)) t).paging.entry m = none := by
  induction pages generalizing t with
  | nil => exact Or.inl rfl
  | cons x pages ih =>
      have hstep : (vmmFreePage t (pageAddr x)).paging.Sound ∧
          ((vmmFreePage t (pageAddr x)).paging.entry m = t.paging.entry m ∨
            (vmmFreePage t (pageAddr x)).paging.entry m = none) := by
        rw [vmmFreePage_eq]
        split_ifs
        · exact ⟨ht, Or.inl rfl⟩
        · refine ⟨ht.unmap, ?_⟩
          show (pagingUnmapPage t.paging (pageAddr x)).entry m = _ ∨
            (pagingUnmapPage t.paging (pageAddr x)).entry m = _
          rw [Paging.entry_unmap ht hm]
          split_ifs
          · exact Or.inr rfl
          · exact Or.inl rfl
      rw [List.foldl_cons]
      rcases ih hstep.1 with heq | hnone
      · rw [heq]
        exact hstep.2
      · exact Or.inr hnone

theorem pmm_freePagesOf (t : Vmm) (pages : List ℕ) :
    (pages.foldl (fun t x => vmmFreePage t (pageAddr x)) t).pmm = t.pmm := by
  induction pages generalizing t with
  | nil => rfl
  | cons x pages ih => rw [List.foldl_cons, ih, pmm_vmmFreePage]

/-- The rollback gives nothing back. -/
@[simp] theorem freeChunks_eq (chunks : List Chunk) (p : Pmm) : freeChunks chunks p = p := by
  induction chunks with
  | nil => rfl
  | cons c chunks ih =>
      rw [freeChunks, List.foldl_cons, pmmFreeBlocks_eq]
      exact ih

/-! ### The call -/

section Call

variable (heap : Heap) (s : Vesa) (framebuffer width height pitch bpp : UInt32)

/-- The state when `malloc` has returned. -/
def heapState : Vmm := (heap.malloc (chunkArrayBytes (pagesNeeded height pitch)) s.vmm).2

/-- The `while` loop of the call. -/
def takeChunks : Bool × List Chunk × Vesa :=
  chunkLoop (pagesNeeded height pitch).toNat (pagesNeeded height pitch).toNat 0 []
    ((s.setMode framebuffer width height pitch bpp).withVmm (heapState heap s height pitch))

/-- The parameters are valid, and there is an array for the chunks. -/
structure AllocationStarts : Prop where
  params : ¬ (framebuffer = 0 ∨ width = 0 ∨ height = 0 ∨ pitch = 0 ∨ bpp = 0)
  size : ¬ 0x2000000 < height * pitch
  array : (heap.malloc (chunkArrayBytes (pagesNeeded height pitch)) s.vmm).1 ≠ 0

variable {heap s framebuffer width height pitch bpp}

/-- What the call returns when the loop has run. -/
theorem vesaInit_eq (h : AllocationStarts heap s framebuffer width height pitch bpp)
    (status : UInt8) :
    vesaInit heap status s framebuffer width height pitch bpp =
      match takeChunks heap s framebuffer width height pitch bpp with
      | (false, chunks, u) =>
          (-1, chunks, (u.withPmm (freeChunks chunks u.vmm.pmm)).withVmm
            (heap.free (heap.malloc (chunkArrayBytes (pagesNeeded height pitch)) s.vmm).1
              (u.withPmm (freeChunks chunks u.vmm.pmm)).vmm))
      | (true, chunks, u) =>
          (0, chunks, { u.withVmm
            (heap.free (heap.malloc (chunkArrayBytes (pagesNeeded height pitch)) s.vmm).1
              u.vmm) with
              vsyncSupported := status != 0xFF }) := by
  have hmode : (s.setMode framebuffer width height pitch bpp).vmm = s.vmm := rfl
  rw [vesaInit, if_neg h.params, if_neg h.size]
  simp only [hmode, if_neg h.array]
  rfl

/-- A call that succeeds has run the loop. -/
theorem allocationStarts_of_eq_zero {status : UInt8}
    (h : (vesaInit heap status s framebuffer width height pitch bpp).1 = 0) :
    AllocationStarts heap s framebuffer width height pitch bpp := by
  have hfail : (-1 : Int32) ≠ 0 := by decide
  by_cases hparams : framebuffer = 0 ∨ width = 0 ∨ height = 0 ∨ pitch = 0 ∨ bpp = 0
  · rw [vesaInit, if_pos hparams] at h
    exact absurd h hfail
  by_cases hsize : 0x2000000 < height * pitch
  · rw [vesaInit, if_neg hparams, if_pos hsize] at h
    exact absurd h hfail
  refine ⟨hparams, hsize, fun harray => ?_⟩
  have hmode : (s.setMode framebuffer width height pitch bpp).vmm = s.vmm := rfl
  rw [vesaInit, if_neg hparams, if_neg hsize] at h
  simp only [hmode, if_pos harray] at h
  exact absurd h hfail

/-- What is known of a call that succeeds. -/
theorem exists_of_eq_zero {status : UInt8} {chunks : List Chunk} {t : Vesa}
    (h : vesaInit heap status s framebuffer width height pitch bpp = (0, chunks, t)) :
    ∃ u, takeChunks heap s framebuffer width height pitch bpp = (true, chunks, u) ∧
      t.vmm = heap.free (heap.malloc (chunkArrayBytes (pagesNeeded height pitch)) s.vmm).1 u.vmm ∧
      t.backBuffer = u.backBuffer := by
  rw [vesaInit_eq (allocationStarts_of_eq_zero (congrArg Prod.fst h)) status] at h
  generalize takeChunks heap s framebuffer width height pitch bpp = r at h ⊢
  rcases r with ⟨_ | _, taken, u⟩
  · have hcode : (-1 : Int32) = 0 := congrArg Prod.fst h
    exact absurd hcode (by decide)
  · cases h
    exact ⟨u, rfl, rfl, rfl⟩

/-- What is known of a call that fails when it has begun to take blocks. -/
theorem exists_of_eq_neg_one {status : UInt8} {chunks : List Chunk} {t : Vesa}
    (hstarts : AllocationStarts heap s framebuffer width height pitch bpp)
    (h : vesaInit heap status s framebuffer width height pitch bpp = (-1, chunks, t)) :
    ∃ u, takeChunks heap s framebuffer width height pitch bpp = (false, chunks, u) ∧
      t.vmm = heap.free (heap.malloc (chunkArrayBytes (pagesNeeded height pitch)) s.vmm).1
        (u.withPmm (freeChunks chunks u.vmm.pmm)).vmm := by
  rw [vesaInit_eq hstarts status] at h
  generalize takeChunks heap s framebuffer width height pitch bpp = r at h ⊢
  rcases r with ⟨_ | _, taken, u⟩
  · cases h
    exact ⟨u, rfl, rfl⟩
  · have hcode : (0 : Int32) = -1 := congrArg Prod.fst h
    exact absurd hcode (by decide)

end Call

/-- The number of pages of a buffer. -/
theorem toNat_pagesNeeded {height pitch : UInt32} (h : height.toNat * pitch.toNat ≤ 2 ^ 25) :
    (pagesNeeded height pitch).toNat = (height.toNat * pitch.toNat + 4095) / 4096 := by
  have hpage : (4096 : UInt32).toNat = 4096 := by decide
  have hlast : (4095 : UInt32).toNat = 4095 := by decide
  have hround := toNat_pageBase (height * pitch + 4095)
  rw [pageBase, UInt32.toNat_add, UInt32.toNat_mul, hlast, Nat.mod_eq_of_lt (a := height.toNat * _)
    (by omega), Nat.mod_eq_of_lt (by omega)] at hround
  rw [pagesNeeded, UInt32.toNat_div, hround, hpage]
  omega

/-! ### One block -/

/-- The `size` bytes from `g_back_buffer` on are mapped to frames of the chunks, no two of them to
one byte, and these frames were free when the chunks were taken. -/
structure OneBlock (chunks : List Chunk) (t : Vesa) (size : ℕ) : Prop where
  fits : t.backBuffer.toNat + size ≤ 2 ^ 32
  taken : ∀ c ∈ chunks, ∀ k < c.pages, c.pmm.isFree (c.phys.toNat / 4096 + k) = true
  mapped : ∀ o < size, ∃ p ∈ chunkFrames chunks, ∃ r < 4096,
    virtToPhys t.vmm.paging (t.backBuffer + UInt32.ofNat o) = p + UInt32.ofNat r
  once : ∀ o < size, ∀ o' < size,
    virtToPhys t.vmm.paging (t.backBuffer + UInt32.ofNat o) =
      virtToPhys t.vmm.paging (t.backBuffer + UInt32.ofNat o') → o = o'

/-- All blocks of the chunks are free again, and no other block is. -/
structure ReturnsChunks (chunks : List Chunk) (before after : Pmm) : Prop where
  returned : ∀ c ∈ chunks, ∀ k < c.pages, after.isUsed (c.phys.toNat / 4096 + k) = false
  others : ∀ b, (∀ c ∈ chunks, ∀ k < c.pages, b ≠ c.phys.toNat / 4096 + k) →
    after.isUsed b = before.isUsed b

/-- The pages of the buffer are free, and the last chunk finds no hole below. -/
structure LiesEndToEnd (s : Vmm) (start n : ℕ) : Prop where
  free : FreeRun s n start
  last : n % 32 ≠ 0 → ∀ i < start, ¬ FreeRun s (n % 32) i

/-- No page of the buffer is mapped to a free block beforehand. -/
def NoStale (s : Vmm) (start n : ℕ) : Prop :=
  ∀ k < n, ∀ e, s.paging.entry (pageNum (pageAddr (start + k))) = some e →
    ∀ b, s.pmm.isFree b = true → pageBase e ≠ blockAddr b

/-- A byte of a frame. -/
theorem toNat_blockAddr_add {b r : ℕ} (hb : b < 2 ^ 20) (hr : r < 4096) :
    (blockAddr b + UInt32.ofNat r).toNat = b * 4096 + r := by
  rw [UInt32.toNat_add, toNat_blockAddr hb, UInt32.toNat_ofNat']
  omega

/-- Pages that are mapped to the blocks of the chunks, one behind the other, are one block. -/
theorem Placed.oneBlock {start size : ℕ} {blocks : List ℕ} {chunks : List Chunk} {t : Vesa}
    (h : Placed start blocks t.vmm) (hb : t.vmm.pmm.bound < 2 ^ 20)
    (hend : start + blocks.length ≤ 0x40000) (hsize : size ≤ blocks.length * 4096)
    (hbuffer : t.backBuffer = pageAddr start) (hframes : chunkFrames chunks = blocks.map blockAddr)
    (htaken : ∀ c ∈ chunks, ∀ k < c.pages, c.pmm.isFree (c.phys.toNat / 4096 + k) = true) :
    OneBlock chunks t size := by
  have hbyte : ∀ o < size, ∃ hk : o / 4096 < blocks.length,
      virtToPhys t.vmm.paging (t.backBuffer + UInt32.ofNat o) =
        blockAddr blocks[o / 4096] + UInt32.ofNat (o % 4096) := by
    intro o ho
    have hk : o / 4096 < blocks.length := by omega
    obtain ⟨e, hentry, hframe⟩ := h.entry (o / 4096) hk
    refine ⟨hk, ?_⟩
    rw [hbuffer, pageAddr_add_byte, virtToPhys_of_entry (Nat.mod_lt _ (by decide)) hentry, hframe]
  have hlt : ∀ (k : ℕ) (hk : k < blocks.length), blocks[k] < 2 ^ 20 := fun k hk =>
    lt_trans (h.used _ (List.getElem_mem hk)).1 hb
  refine ⟨?_, htaken, fun o ho => ?_, fun o ho o' ho' heq => ?_⟩
  · rw [hbuffer, toNat_pageAddr]
    omega
  · obtain ⟨hk, hphys⟩ := hbyte o ho
    refine ⟨blockAddr blocks[o / 4096], ?_, o % 4096, Nat.mod_lt _ (by decide), hphys⟩
    rw [hframes]
    exact List.mem_map_of_mem (List.getElem_mem hk)
  · obtain ⟨hk, hphys⟩ := hbyte o ho
    obtain ⟨hk', hphys'⟩ := hbyte o' ho'
    rw [hphys, hphys'] at heq
    have hsame := congrArg UInt32.toNat heq
    rw [toNat_blockAddr_add (hlt _ hk) (Nat.mod_lt _ (by decide)),
      toNat_blockAddr_add (hlt _ hk') (Nat.mod_lt _ (by decide))] at hsame
    have hblock : blocks[o / 4096] = blocks[o' / 4096] := by omega
    have hpage : o / 4096 = o' / 4096 := (h.nodup.getElem_inj_iff).mp hblock
    omega

/-- A frame of the chunks was free before the call. -/
theorem isFree_of_mem_chunkFrames {chunks : List Chunk} {p t : Pmm} (hb : p.bound < 2 ^ 20)
    (hnoted : ∀ c ∈ chunks, NotedBetween p t c) (hnw : ∀ c ∈ chunks, ¬ c.pmm.WrapsRound c.pages)
    {q : UInt32} (hq : q ∈ chunkFrames chunks) : ∃ b, p.isFree b = true ∧ q = blockAddr b := by
  obtain ⟨c, hc, hmem⟩ := List.mem_flatMap.mp hq
  obtain ⟨k, hk, rfl⟩ := List.mem_map.mp hmem
  obtain ⟨-, haddr, -, -, hfree⟩ := (hnoted c hc).spec hb
  refine ⟨_, (hfree (hnw c hc) k (List.mem_range.mp hk)).2, ?_⟩
  rw [← blockAddr_add, ← haddr]

/-- **The pages of one block were all given to chunks.** -/
theorem OneBlock.covered {remaining start size : ℕ} {places : List Place} {chunks : List Chunk}
    {s₁ u : Vmm} {p : Pmm} {t : Vesa} (h : OneBlock chunks t size)
    (hplaces : PlacesChunks remaining s₁ places u) (hbound : s₁.bound ≤ 0x40000)
    (hstale : NoStale s₁ start remaining) (hb : s₁.pmm.bound < 2 ^ 20)
    (hnoted : ∀ c ∈ chunks, NotedBetween s₁.pmm p c)
    (hnw : ∀ c ∈ chunks, ¬ c.pmm.WrapsRound c.pages)
    (hbuffer : t.backBuffer = pageAddr start) (hstart : start < 0x40000)
    (hlast : (remaining - 1) * 4096 < size)
    (hentry : ∀ m < 2 ^ 20, t.vmm.paging.entry m = u.paging.entry m ∨ t.vmm.paging.entry m = none) :
    ∀ a, start ≤ a → a < start + remaining → ∃ q ∈ places, q.Has a := by
  intro a hlo hhi
  by_contra hnone
  obtain ⟨k, rfl⟩ := Nat.exists_eq_add_of_le hlo
  have hk : k < remaining := by omega
  have hbyte : k * 4096 < size :=
    lt_of_le_of_lt (Nat.mul_le_mul_right 4096 (Nat.le_sub_one_of_lt hk)) hlast
  have hpages : start + k < 0x40000 := by
    have hwindow := h.fits
    rw [hbuffer, toNat_pageAddr] at hwindow
    omega
  have hkeeps := hplaces.entry_of_not_has hbound hpages fun q hq hhas => hnone ⟨q, hq, hhas⟩
  obtain ⟨q, hq, r, hr, hphys⟩ := h.mapped (k * 4096) hbyte
  obtain ⟨b, hfree, rfl⟩ := isFree_of_mem_chunkFrames hb hnoted hnw hq
  have hlt : b < 2 ^ 20 := lt_trans (Pmm.isFree_iff.mp hfree).1 hb
  have hpage : t.backBuffer + UInt32.ofNat (k * 4096) = pageAddr (start + k) := by
    rw [hbuffer, pageAddr_add_byte, Nat.mul_div_cancel _ (by decide), Nat.mul_mod_left]
    simp
  rw [hpage] at hphys
  have hvalue := congrArg UInt32.toNat hphys
  rw [toNat_blockAddr_add hlt hr] at hvalue
  cases hnow : t.vmm.paging.entry (pageNum (pageAddr (start + k))) with
  | none =>
      have hmax : (0xFFFFFFFF : UInt32).toNat = 0xFFFFFFFF := by decide
      have hbelow := (Pmm.isFree_iff.mp hfree).1
      have hunmapped : virtToPhys t.vmm.paging (pageAddr (start + k)) = 0xFFFFFFFF := by
        rw [virtToPhys_eq, hnow]
      rw [hunmapped, hmax] at hvalue
      omega
  | some e =>
      have hold : s₁.paging.entry (pageNum (pageAddr (start + k))) = some e := by
        rcases hentry _ (pageNum_lt (pageAddr (start + k))) with heq | hgone
        · rw [← hkeeps, ← heq, hnow]
        · cases hnow.symm.trans hgone
      refine hstale k hk e hold b hfree (UInt32.toNat_inj.mp ?_)
      rw [virtToPhys_pageAddr hnow, toNat_pageBase] at hvalue
      obtain rfl : r = 0 := by omega
      rw [toNat_pageBase, toNat_blockAddr hlt, hvalue, Nat.add_zero]

/-! ### Both ends of the call -/

theorem PlacesChunks.sound {remaining : ℕ} {s t : Vmm} {places : List Place}
    (h : PlacesChunks remaining s places t) (hs : s.paging.Sound) :
    t.paging.Sound ∧ t.pmm.bound = s.pmm.bound := by
  induction h with
  | done => exact ⟨hs, rfl⟩
  | chunk _ _ hgives _ _ ih =>
      obtain ⟨hsound, hbound⟩ := ih hgives.keeps.sound
      exact ⟨hsound, hbound.trans hgives.keeps.bound⟩

theorem PlacesChunks.length {remaining : ℕ} {s t : Vmm} {places : List Place}
    (h : PlacesChunks remaining s places t) : (places.flatMap Place.blocks).length = remaining := by
  induction h with
  | done => rfl
  | @chunk remaining found b s t u places hr hfind hgives hbits hrest ih =>
      have hle := chunkPages_le remaining
      have hblocks : Place.blocks ⟨found, chunkPages remaining, b⟩ =
          List.range' b (chunkPages remaining) := rfl
      rw [List.flatMap_cons, List.length_append, ih, hblocks, List.length_range']
      omega

/-- The buffer begins where the first chunk is placed. -/
theorem exists_start {n : ℕ} {chunks : List Chunk} {s u : Vesa} (hn : 0 < n)
    (hlt : n * 4096 < 2 ^ 32) (hloop : chunkLoop n n 0 [] s = (true, chunks, u)) :
    ∃ start, findContiguousFreePages s.vmm (chunkPages n) = some start ∧
      u.backBuffer = pageAddr start := by
  obtain ⟨m, rfl⟩ := Nat.exists_eq_add_of_lt hn
  rw [Nat.zero_add] at *
  have hle := chunkPages_le (m + 1)
  have hpos := chunkPages_pos hn
  rcases chunkLoop_cases m hn 0 [] s with ⟨-, heq⟩ | ⟨hphys, ⟨-, heq⟩ | ⟨hvirt, heq⟩⟩
  · cases heq.symm.trans hloop
  · cases heq.symm.trans hloop
  · have hcount : (UInt32.ofNat (chunkPages (m + 1))).toNat = chunkPages (m + 1) := by
      rw [UInt32.toNat_ofNat']
      omega
    have hpages : mmioPages (UInt32.ofNat (chunkPages (m + 1)) * 4096) = chunkPages (m + 1) := by
      rw [mmioPages_mul (by omega), hcount]
    have hoffset : (0 + UInt32.ofNat (chunkPages (m + 1)) * 4096 : UInt32).toNat =
        chunkPages (m + 1) * 4096 := by
      have hpage : (4096 : UInt32).toNat = 4096 := by decide
      rw [UInt32.zero_add, UInt32.toNat_mul, hcount, hpage]
      omega
    obtain ⟨start, hmaps⟩ := mapsDevice_of_ne_zero hvirt
    refine ⟨start, ?_, ?_⟩
    · have := hmaps.find
      rwa [hpages] at this
    · have hbuffer := backBuffer_chunkLoop m (m + 1 - chunkPages (m + 1))
        (0 + UInt32.ofNat (chunkPages (m + 1)) * 4096)
        ([] ++ [chunkOf s.vmm (chunkPages (m + 1))])
        { s with
          backBuffer :=
            if (0 : UInt32) = 0 then (chunkMap s.vmm (chunkPages (m + 1))).1 else s.backBuffer
          vmm := chunkDone s.vmm (chunkPages (m + 1)) }
        (by rw [hoffset]; omega) (by rw [hoffset]; omega)
      rw [heq] at hloop
      rw [hloop] at hbuffer
      rw [hbuffer, if_pos rfl]
      exact hmaps.addr

/-- Every chunk of a loop was taken between its beginning and its end. -/
theorem notedBetween_of_chunkLoop {n : ℕ} {ok : Bool} {chunks : List Chunk} {s u : Vesa}
    (hb : s.vmm.pmm.bound < 2 ^ 20) (hloop : chunkLoop n n 0 [] s = (ok, chunks, u)) :
    ∀ c ∈ chunks, NotedBetween s.vmm.pmm u.vmm.pmm c := by
  intro c hc
  have hnoted := (noted_chunkLoop n n 0 [] hb).2
  rw [hloop] at hnoted
  exact (hnoted c hc).resolve_left List.not_mem_nil

section Success

variable {n size start : ℕ} {chunks : List Chunk} {s u t : Vesa} {pages : List ℕ}

/-- Pages that lie end to end make one block. -/
theorem oneBlock_of_liesEndToEnd (hs : s.vmm.paging.Sound) (hp : s.vmm.bound < 2 ^ 20)
    (hnpos : 0 < n) (hle : size ≤ n * 4096)
    (hloop : chunkLoop n n 0 [] s = (true, chunks, u))
    (hheld : ∀ x ∈ pages, x < 2 ^ 20 ∧ isPageFree s.vmm x = false)
    (hvmm : t.vmm = pages.foldl (fun t x => vmmFreePage t (pageAddr x)) u.vmm)
    (hfind : findContiguousFreePages s.vmm (chunkPages n) = some start)
    (hbuffer : t.backBuffer = pageAddr start) (hnw : ∀ c ∈ chunks, ¬ c.pmm.WrapsRound c.pages)
    (hlies : LiesEndToEnd s.vmm start n) (hend : start + n ≤ 0x40000) :
    OneBlock chunks t size := by
  have hb : s.vmm.pmm.bound < 2 ^ 20 := hs.bound_lt
  have hstart : PlacedTo s.vmm start 0 s.vmm := ⟨rfl, rfl⟩
  obtain ⟨places, hplaces, hframes⟩ := placesChunks_of_chunkLoop hs hp le_rfl hloop hnw
  obtain ⟨hsound, hbound⟩ := hplaces.sound hs
  have hlength := hplaces.length
  have hplaced := hplaces.placed hstart (.nil start s.vmm) (Or.inl rfl)
    (by
      rw [List.length_nil, Nat.zero_add]
      exact (follows_iff hfind hnpos).mpr ⟨hlies.free, hlies.last⟩)
    (by simpa using hend)
  rw [List.nil_append] at hplaced
  have hkeeps := keeps_freePagesOf hsound hheld
  rw [← hvmm] at hkeeps
  refine (hplaced.of_keeps hkeeps fun k hk => ?_).oneBlock ?_ ?_ ?_ hbuffer ?_ ?_
  · rw [hlength] at hk
    exact ⟨by omega, (hlies.free k hk).2⟩
  · rw [hkeeps.bound, hbound]
    exact hb
  · rw [hlength]
    exact hend
  · rw [hlength]
    exact hle
  · rw [hframes]
    rfl
  · intro c hc k hk
    exact (((notedBetween_of_chunkLoop hb hloop c hc).spec hb).2.2.2.2 (hnw c hc) k hk).1

/-- One block has its pages end to end, where none is mapped beforehand to a free block. -/
theorem liesEndToEnd_of_oneBlock (hs : s.vmm.paging.Sound) (hp : s.vmm.bound < 2 ^ 20)
    (hnpos : 0 < n) (hlast : (n - 1) * 4096 < size)
    (hloop : chunkLoop n n 0 [] s = (true, chunks, u))
    (hvmm : t.vmm = pages.foldl (fun t x => vmmFreePage t (pageAddr x)) u.vmm)
    (hfind : findContiguousFreePages s.vmm (chunkPages n) = some start)
    (hbuffer : t.backBuffer = pageAddr start) (hbound : s.vmm.bound ≤ 0x40000)
    (hstale : NoStale s.vmm start n) (hone : OneBlock chunks t size) :
    (∀ c ∈ chunks, ¬ c.pmm.WrapsRound c.pages) ∧ LiesEndToEnd s.vmm start n := by
  have hb : s.vmm.pmm.bound < 2 ^ 20 := hs.bound_lt
  have hstart : PlacedTo s.vmm start 0 s.vmm := ⟨rfl, rfl⟩
  have hnoted := notedBetween_of_chunkLoop hb hloop
  have hnw : ∀ c ∈ chunks, ¬ c.pmm.WrapsRound c.pages := by
    intro c hc hw
    obtain ⟨hcpos, -, -, hnotfree, -⟩ := (hnoted c hc).spec hb
    have htaken := hone.taken c hc (c.pages - 1) (by omega)
    rw [hnotfree hw] at htaken
    exact Bool.noConfusion htaken
  obtain ⟨places, hplaces, -⟩ := placesChunks_of_chunkLoop hs hp le_rfl hloop hnw
  have hcover := hone.covered hplaces hbound hstale hb hnoted hnw hbuffer
    (by have := (freeRun_of_find hfind).1; omega) hlast fun m hm => by
      rw [hvmm]
      exact entry_freePagesOf (hplaces.sound hs).1 hm
  have hfollows := hplaces.follows hstart (by rw [Nat.zero_add]; exact hfind) (Or.inl rfl)
    (by simpa using hcover)
  rw [Nat.zero_add] at hfollows
  obtain ⟨hfree, hbehind⟩ := (follows_iff hfind hnpos).mp fun j hj =>
    hfollows j (Nat.zero_le _) hj
  exact ⟨hnw, hfree, hbehind⟩

end Success

/-- **Success.** The buffer is one block if no search for blocks wraps round and its pages lie end
to end in the window; and only if, where no page of it is mapped beforehand to a free block and
there are no more pages than the window has. -/
theorem oneBlock_iff {n size : ℕ} {chunks : List Chunk} {s u t : Vesa} {pages : List ℕ}
    (hs : s.vmm.paging.Sound) (hp : s.vmm.bound < 2 ^ 20)
    (hle : size ≤ n * 4096) (hlast : (n - 1) * 4096 < size) (hn : n * 4096 < 2 ^ 32)
    (hloop : chunkLoop n n 0 [] s = (true, chunks, u))
    (hheld : ∀ x ∈ pages, x < 2 ^ 20 ∧ isPageFree s.vmm x = false)
    (hvmm : t.vmm = pages.foldl (fun t x => vmmFreePage t (pageAddr x)) u.vmm)
    (hbuffer : t.backBuffer = u.backBuffer) :
    ∃ start, findContiguousFreePages s.vmm (chunkPages n) = some start ∧
      ((∀ c ∈ chunks, ¬ c.pmm.WrapsRound c.pages) → LiesEndToEnd s.vmm start n →
        start + n ≤ 0x40000 → OneBlock chunks t size) ∧
      (s.vmm.bound ≤ 0x40000 → NoStale s.vmm start n →
        (OneBlock chunks t size ↔
          (∀ c ∈ chunks, ¬ c.pmm.WrapsRound c.pages) ∧ LiesEndToEnd s.vmm start n)) := by
  have hnpos : 0 < n := by omega
  obtain ⟨start, hfind, haddr⟩ := exists_start hnpos hn hloop
  have henough := oneBlock_of_liesEndToEnd hs hp hnpos hle hloop hheld hvmm hfind
    (hbuffer.trans haddr)
  refine ⟨start, hfind, henough, fun hbound hstale => ⟨fun hone => ?_, fun ⟨hnw, hlies⟩ => ?_⟩⟩
  · exact liesEndToEnd_of_oneBlock hs hp hnpos hlast hloop hvmm hfind (hbuffer.trans haddr) hbound
      hstale hone
  · refine henough hnw hlies ?_
    have := (hlies.free (n - 1) (by omega)).1
    omega

/-- **Failure.** The blocks are given back just if there are none. -/
theorem returnsChunks_iff {n : ℕ} {chunks : List Chunk} {s u t : Vesa}
    (hb : s.vmm.pmm.bound < 2 ^ 20) (hn : 0 < n) (hloop : chunkLoop n n 0 [] s = (false, chunks, u))
    (hpmm : t.vmm.pmm = u.vmm.pmm) :
    ReturnsChunks chunks u.vmm.pmm t.vmm.pmm ↔
      (pmmAllocBlocks s.vmm.pmm (UInt32.ofNat (chunkPages n))).1 = 0 := by
  obtain ⟨m, rfl⟩ := Nat.exists_eq_add_of_lt hn
  rw [Nat.zero_add] at *
  have hnoted := notedBetween_of_chunkLoop hb hloop
  have hfirst : (chunkAlloc s.vmm (chunkPages (m + 1))).1 =
      (pmmAllocBlocks s.vmm.pmm (UInt32.ofNat (chunkPages (m + 1)))).1 := rfl
  constructor
  · intro hgives
    by_contra hne
    have hmem := chunkOf_mem_chunkLoop m hn 0 [] fun hzero => hne (hfirst.symm.trans hzero)
    rw [hloop] at hmem
    obtain ⟨hpos, -, hused, -⟩ := (hnoted _ hmem).spec hb
    have hfree := hgives.returned _ hmem 0 hpos
    rw [hpmm, Nat.add_zero, hused] at hfree
    exact Bool.noConfusion hfree
  · intro hzero
    have hnil : chunks = [] := by
      rcases chunkLoop_cases m hn 0 [] s with ⟨-, heq⟩ | ⟨hne, -⟩
      · cases heq.symm.trans hloop
        rfl
      · exact absurd hzero hne
    rw [hnil, hpmm]
    exact ⟨fun c hc => absurd hc List.not_mem_nil, fun _ _ => rfl⟩

/-- What `malloc` does is part of a run. -/
theorem Heap.Supplied.userRun {heap : Heap} (h : heap.Supplied) {boot : Boot}
    {ranges : List (UInt32 × UInt32)} {s : Vmm} (hs : UserRun boot ranges s) (size : UInt32) :
    UserRun boot ranges (heap.malloc size s).2 := by
  obtain ⟨counts, heq⟩ := h size s
  rw [heq]
  clear heq
  induction counts generalizing s with
  | nil => exact hs
  | cons n counts ih => exact ih (.step (.vmm (.liballocAlloc n)) trivial hs)

/-- A heap that has no pages yet: the first `malloc` of less than 16 pages, which asks for 16, and
its `free`, which keeps them. -/
def freshHeap : Heap where
  malloc := fun _ s => match liballocAlloc s 16 with
    | (tag, s) => (if tag = 0 then 0 else tag + 32, s)
  free := fun _ s => s

theorem supplied_freshHeap : freshHeap.Supplied := fun _ _ => ⟨[16], rfl⟩

theorem freesHeld_freshHeap : freshHeap.FreesHeld := fun _ _ _ => ⟨[], by simp, rfl⟩

/-- The driver when the small machine has started up. -/
def smallVesa (memSize : UInt32) : Vesa where
  vbeBuffer := 0
  width := 0
  height := 0
  pitch := 0
  bpp := 0
  backBuffer := 0
  vsyncSupported := false
  vmm := smallStart memSize

theorem userRun_smallVesa {memSize : UInt32} (h : 292 ≤ ((memSize + 4095) / 4096).toNat) :
    UserRun (smallBoot memSize) [] (smallVesa memSize).vmm := by
  have hboot : (smallBoot memSize).kmain = smallStart memSize := kmain_smallBoot h
  rw [smallVesa, ← hboot]
  exact .boot

end HalOS
