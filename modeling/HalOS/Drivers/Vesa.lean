import HalOS.Mm.VmmUserspace

/-!
# The Back Buffer

`vesa_init` of `drivers/vesa.c`. It asks the physical memory manager for the back buffer in chunks
of 32 blocks, the last one shorter, and `vmm_map_mmio` for pages for each of them, and takes the
address of the first chunk for that of the buffer. If a chunk cannot be had or not be mapped, it
gives the chunks back, all of them as if they were full.

The array that the chunks are noted in comes from the heap, of which only what it asks of
`vmm_alloc_page` and `vmm_free_page` is seen here (`Heap`). A chunk is noted with its length and
the state of the manager that was asked for it, which the source does not note. `memset` goes
through the page tables, page by page.

## Main results

* `follows_iff`: when the chunks of a buffer get pages that follow each other.
* `chunk_gives`: one turn of the loop.
-/

namespace HalOS

/-! ### The driver -/

/-- The variables of `vesa.c` that `vesa_init` sets, and the memory managers. -/
structure Vesa where
  vbeBuffer : UInt32
  width : UInt32
  height : UInt32
  pitch : UInt32
  bpp : UInt32
  backBuffer : UInt32
  vsyncSupported : Bool
  vmm : Vmm

namespace Vesa

def withVmm (s : Vesa) (vmm : Vmm) : Vesa := { s with vmm := vmm }

def withPmm (s : Vesa) (pmm : Pmm) : Vesa := { s with vmm := s.vmm.withPmm pmm }

/-- The first assignments of `vesa_init`. -/
def setMode (s : Vesa) (framebuffer width height pitch bpp : UInt32) : Vesa :=
  { s with vbeBuffer := framebuffer, width := width, height := height, pitch := pitch, bpp := bpp }

end Vesa

/-- `malloc` and `free`. -/
structure Heap where
  malloc : UInt32 → Vmm → UInt32 × Vmm
  free : UInt32 → Vmm → Vmm

/-- An entry of `phys_chunks`, with the number of its blocks and the manager they come from. -/
structure Chunk where
  phys : UInt32
  /-- Ghost: the number of blocks. -/
  pages : ℕ
  /-- Ghost: the manager that was asked. -/
  pmm : Pmm

/-- `memset(virt, 0, n * PAGE_SIZE)`, where the pages are mapped. -/
def clearPages (virt : UInt32) : ℕ → ℕ → Paging → Paging
  | 0, _, s => s
  | n + 1, k, s =>
      clearPages virt n (k + 1) (s.zeroFrame (virtToPhys s (virt + UInt32.ofNat k * 4096)))

/-- `pmm_free_blocks(phys_chunks[i], CHUNK_SIZE)` for all chunks. -/
def freeChunks (chunks : List Chunk) (s : Pmm) : Pmm :=
  chunks.foldl (fun s c => pmmFreeBlocks s c.phys 32) s

/-- `chunk_pages`. -/
def chunkPages (remaining : ℕ) : ℕ := if 32 < remaining then 32 else remaining

/-- The `while` loop of `vesa_init`, up to the first chunk that fails. Each turn takes a page at
least, so `remaining` turns are enough. -/
def chunkLoop : ℕ → ℕ → UInt32 → List Chunk → Vesa → Bool × List Chunk × Vesa
  | 0, _, _, chunks, s => (true, chunks, s)
  | turns + 1, remaining, offset, chunks, s =>
      if remaining = 0 then (true, chunks, s)
      else
        let n := chunkPages remaining
        match pmmAllocBlocks s.vmm.pmm (UInt32.ofNat n) with
        | (phys, pmm) =>
            let asked := s.vmm.pmm
            let s := s.withPmm pmm
            if phys = 0 then (false, chunks, s)
            else
              let chunks := chunks ++ [⟨phys, n, asked⟩]
              match vmmMapMmio s.vmm phys (UInt32.ofNat n * 4096) (1 ||| 2 ||| 16) with
              | (virt, vmm) =>
                  let s := s.withVmm vmm
                  if virt = 0 then (false, chunks, s)
                  else
                    let s := if offset = 0 then { s with backBuffer := virt } else s
                    let s := s.withVmm (s.vmm.withPaging (clearPages virt n 0 s.vmm.paging))
                    chunkLoop turns (remaining - n) (offset + UInt32.ofNat n * 4096) chunks s

/-- `pages_needed`. -/
def pagesNeeded (height pitch : UInt32) : UInt32 :=
  ((height * pitch + 4095) &&& 0xFFFFF000) / 4096

/-- The size of the array of the chunks. -/
def chunkArrayBytes (pages : UInt32) : UInt32 := 4 * ((pages + 32 - 1) / 32)

/-- `vesa_init`, with the byte that port `0x3DA` holds. The chunks it has taken are returned too. -/
def vesaInit (heap : Heap) (status : UInt8) (s : Vesa)
    (framebuffer width height pitch bpp : UInt32) :
    Int32 × List Chunk × Vesa :=
  if framebuffer = 0 ∨ width = 0 ∨ height = 0 ∨ pitch = 0 ∨ bpp = 0 then (-1, [], s)
  else
    let s := s.setMode framebuffer width height pitch bpp
    if 0x2000000 < height * pitch then (-1, [], s)
    else
      let pages := pagesNeeded height pitch
      match heap.malloc (chunkArrayBytes pages) s.vmm with
      | (array, vmm) =>
          let s := s.withVmm vmm
          if array = 0 then (-1, [], s)
          else
            match chunkLoop pages.toNat pages.toNat 0 [] s with
            | (false, chunks, s) =>
                let s := s.withPmm (freeChunks chunks s.vmm.pmm)
                (-1, chunks, s.withVmm (heap.free array s.vmm))
            | (true, chunks, s) =>
                let s := s.withVmm (heap.free array s.vmm)
                (0, chunks, { s with vsyncSupported := status != 0xFF })

/-! ### Where the chunks go -/

theorem chunkPages_le (n : ℕ) : chunkPages n ≤ 32 ∧ chunkPages n ≤ n := by
  rw [chunkPages]
  split_ifs <;> omega

theorem chunkPages_pos {n : ℕ} (h : 0 < n) : 0 < chunkPages n := by
  rw [chunkPages]
  split_ifs <;> omega

/-- A page is free after a run was marked if it was free and is not one of the run. -/
theorem isPageFree_markPages (s : Vmm) (start n i : ℕ) :
    isPageFree (markPages s start n true) i = true ↔
      isPageFree s i = true ∧ ¬ (start ≤ i ∧ i < start + n) := by
  rw [isPageFree_iff, isPageFree_iff]
  show Bitmap.test (Bitmap.setRun s.bitmap start n) i = false ↔ _
  rw [Bitmap.test_setRun, Bool.or_eq_false_iff, decide_eq_false_iff_not]
  exact And.comm

/-- Each chunk of a buffer of `n` pages goes right behind the one before it. -/
def Follows (s : Vmm) (start n : ℕ) : Prop :=
  ∀ j, 32 * j < n →
    findContiguousFreePages (markPages s start (32 * j) true) (chunkPages (n - 32 * j)) =
      some (start + 32 * j)

/-- **The chunks follow each other** if all pages of the buffer are free, and the last chunk, if it
is shorter, finds no room below. -/
theorem follows_iff {s : Vmm} {start n : ℕ}
    (hfirst : findContiguousFreePages s (chunkPages n) = some start) (hn : 0 < n) :
    Follows s start n ↔
      FreeRun s n start ∧ (n % 32 ≠ 0 → ∀ i < start, ¬ FreeRun s (n % 32) i) := by
  obtain ⟨hrun, hlow⟩ := (findContiguousFreePages_eq_some (chunkPages_pos hn)).mp hfirst
  constructor
  · intro hfollows
    refine ⟨fun k hk => ?_, fun hlast i hi hfree => ?_⟩
    · have hj := hfollows (k / 32) (by omega)
      rw [findContiguousFreePages_eq_some (chunkPages_pos (by omega))] at hj
      obtain ⟨hlt, hpage⟩ := hj.1 (k % 32) (by rw [chunkPages]; split_ifs <;> omega)
      have hsum : start + 32 * (k / 32) + k % 32 = start + k := by omega
      rw [hsum] at hlt hpage
      exact ⟨hlt, ((isPageFree_markPages s _ _ _).mp hpage).1⟩
    · have hj := hfollows (n / 32) (by omega)
      have hchunk : chunkPages (n - 32 * (n / 32)) = n % 32 := by
        rw [chunkPages, if_neg (by omega)]
        omega
      rw [hchunk, findContiguousFreePages_eq_some (by omega)] at hj
      by_cases hend : i + n % 32 ≤ start ∨ n < 32
      · refine hj.2 i (by omega) fun k hk => ?_
        obtain ⟨hlt, hpage⟩ := hfree k hk
        exact ⟨hlt, (isPageFree_markPages s _ _ _).mpr ⟨hpage, by omega⟩⟩
      · -- a hole that reaches the first chunk would have taken it
        have hfull : chunkPages n = 32 := by
          rw [chunkPages]
          split_ifs <;> omega
        rw [hfull] at hrun hlow
        refine hlow i hi fun k hk => ?_
        by_cases hbelow : i + k < start
        · exact hfree k (by omega)
        · have hsum : i + k = start + (i + k - start) := by omega
          rw [hsum]
          exact hrun _ (by omega)
  · rintro ⟨hall, hlast⟩ j hj
    rw [findContiguousFreePages_eq_some (chunkPages_pos (by omega))]
    have hle := chunkPages_le (n - 32 * j)
    refine ⟨fun k hk => ?_, fun i hi hfree => ?_⟩
    · obtain ⟨hlt, hpage⟩ := hall (32 * j + k) (by omega)
      rw [← Nat.add_assoc] at hlt hpage
      exact ⟨hlt, (isPageFree_markPages s _ _ _).mpr ⟨hpage, by omega⟩⟩
    · have hold : FreeRun s (chunkPages (n - 32 * j)) i := fun k hk =>
        ⟨(hfree k hk).1, ((isPageFree_markPages s _ _ _).mp (hfree k hk).2).1⟩
      have hbelow : i < start := by
        have := ((isPageFree_markPages s _ _ _).mp (hfree 0 (chunkPages_pos (by omega))).2).2
        omega
      by_cases hfull : chunkPages (n - 32 * j) = 32
      · have hchunk : chunkPages n = 32 := by
          rw [chunkPages]
          split_ifs <;> omega
        rw [hfull] at hold
        rw [hchunk] at hlow
        exact hlow i hbelow hold
      · have hshort : chunkPages (n - 32 * j) = n % 32 ∧ n % 32 ≠ 0 := by
          rw [chunkPages] at hfull ⊢
          split_ifs at hfull ⊢ <;> omega
        rw [hshort.1] at hold
        exact hlast hshort.2 i hbelow hold

/-! ### One chunk -/

/-- A chunk that `pmm_alloc_blocks` returns: its first block is in use, and it is a free run unless
the search has wrapped round. -/
theorem pmmAllocBlocks_of_ne_zero {p : Pmm} {n : UInt32} (h : (pmmAllocBlocks p n).1 ≠ 0) :
    0 < n.toNat ∧ ∃ b < p.bound, (pmmAllocBlocks p n).1 = blockAddr b ∧
      (pmmAllocBlocks p n).2.isUsed b = true ∧
      (p.WrapsRound n.toNat → p.isFree (b + (n.toNat - 1)) = false) ∧
      (¬ p.WrapsRound n.toNat → TakesRun p n.toNat b (pmmAllocBlocks p n).2) := by
  cases hv : validateAllocationRequest p n with
  | false =>
      rw [pmmAllocBlocks, hv] at h
      exact absurd rfl h
  | true =>
      obtain ⟨hpos, -⟩ := le_bound_of_validate hv
      have hused : ∀ start, (takeRun p n start).2.isUsed start = true := by
        intro start
        have hmap : (takeRun p n start).2.memoryMap =
            Bitmap.setRun p.memoryMap start n.toNat := by
          simp [takeRun, markRunUsed_eq]
        rw [Pmm.isUsed, hmap, Bitmap.test_setRun, decide_eq_true (by omega), Bool.true_or]
      rcases pmmAllocBlocks_spec hv with
        ⟨hnw, heq | ⟨start, heq, hrun⟩⟩ | ⟨hw, c, start, hc, hcn, hend, heq⟩
      · rw [heq] at h
        exact absurd rfl h
      · rw [heq]
        have hle := Pmm.le_bound_of_isRun hpos hrun
        exact ⟨hpos, start, by omega, rfl, hused start, fun hw => absurd hw hnw,
          fun _ => takesRun_takeRun hrun⟩
      · rw [heq]
        refine ⟨hpos, start, by omega, rfl, hused start, fun _ => ?_, fun hnw => absurd hw hnw⟩
        by_contra hfree
        have := (Pmm.isFree_iff.mp (by simpa using hfree)).1
        omega

/-- Mapping a chunk. -/
theorem mapChunk_gives {s : Vmm} (hs : s.paging.Sound) (hp : s.bound < 2 ^ 20) {n b : ℕ} {pmm : Pmm}
    (htakes : TakesRun s.pmm n b pmm) (hpos : 0 < n) (hn : n ≤ 32)
    (hv : (vmmMapMmio (s.withPmm pmm) (blockAddr b) (UInt32.ofNat n * 4096)
      (1 ||| 2 ||| 16)).1 ≠ 0) :
    ∃ start, findContiguousFreePages s n = some start ∧
      (vmmMapMmio (s.withPmm pmm) (blockAddr b) (UInt32.ofNat n * 4096) (1 ||| 2 ||| 16)).1 =
        pageAddr start ∧
      Gives s start n b
        (vmmMapMmio (s.withPmm pmm) (blockAddr b) (UInt32.ofNat n * 4096) (1 ||| 2 ||| 16)).2 ∧
      (vmmMapMmio (s.withPmm pmm) (blockAddr b) (UInt32.ofNat n * 4096) (1 ||| 2 ||| 16)).2.bitmap =
        Bitmap.setRun s.bitmap start n := by
  have hcount : (UInt32.ofNat n).toNat = n := by
    rw [UInt32.toNat_ofNat']
    omega
  have hpages : mmioPages (UInt32.ofNat n * 4096) = n := by
    rw [mmioPages_mul (by omega), hcount]
  obtain ⟨start, hmaps⟩ := mapsDevice_of_ne_zero hv
  have hfind : findContiguousFreePages s n = some start := by
    have := hmaps.find
    rwa [hpages] at this
  have hrun : FreeRun s n start := (freeRun_of_find hfind).2.2
  have hok := hmaps.ok
  have hstate := hmaps.state
  rw [mmioLoop, hpages] at hok hstate
  obtain ⟨hkeeps, hblocks, hframes⟩ := mapTaken_spec (f := 1 ||| 2 ||| 16 ||| 1 ||| 2) hs hp
    (by omega) hrun htakes (by decide) hpos rfl
  refine ⟨start, hfind, hmaps.addr, ?_, by rw [hstate]; rfl⟩
  rw [hstate]
  refine ⟨hkeeps, fun k hk => ⟨(hrun k hk).1, (hrun k hk).2, ?_⟩, fun k hk => ?_, fun k hk => ?_⟩
  · show (!Bitmap.test (Bitmap.setRun s.bitmap start n) (start + k)) = false
    rw [Bitmap.test_setRun, decide_eq_true (by omega), Bool.true_or, Bool.not_true]
  · exact ⟨htakes.run k hk, hblocks k hk⟩
  · refine hframes k hk fun j hj => ?_
    exact absurd (hok.symm.trans hj) (by simp)

/-- Clearing pages whose frames hold no page table keeps everything. -/
theorem keeps_clearPages {s : Vmm} {start n k : ℕ} (b : ℕ) (hs : s.paging.Sound)
    (h : ∀ j, k ≤ j → j < k + n → b + j < 2 ^ 20 ∧ ¬ s.paging.Holds (blockAddr (b + j)) ∧
      ∃ e, s.paging.entry (pageNum (pageAddr (start + j))) = some e ∧
        pageBase e = blockAddr (b + j)) :
    Keeps (fun _ => True) (fun _ => True) s
      (s.withPaging (clearPages (pageAddr start) n k s.paging)) := by
  induction n generalizing k s with
  | zero => exact .refl hs
  | succ n ih =>
      obtain ⟨hb, hheld, e, hentry, hframe⟩ := h k le_rfl (by omega)
      have hphys : virtToPhys s.paging (pageAddr start + UInt32.ofNat k * 4096) =
          blockAddr (b + k) := by
        rw [pageAddr_add, virtToPhys_pageAddr hentry, hframe]
      have hstep : Keeps (fun _ => True) (fun _ => True) s
          (s.withPaging (s.paging.zeroFrame (blockAddr (b + k)))) :=
        ⟨hs.zeroFrame hb hheld, rfl, rfl, fun _ _ => rfl,
          fun a _ => hs.entry_zeroFrame hb hheld (pageNum_lt _), fun _ _ _ hu => hu,
          fun c _ _ _ hc => hs.holds_zeroFrame hb hheld hc⟩
      rw [clearPages, hphys]
      refine hstep.trans (ih hstep.sound fun j hj hj' => ?_)
      obtain ⟨hb', hheld', e', hentry', hframe'⟩ := h j (by omega) (by omega)
      refine ⟨hb', fun hc => hheld' (hs.holds_zeroFrame hb hheld hc), e', ?_, hframe'⟩
      rw [← hentry']
      exact hs.entry_zeroFrame hb hheld (pageNum_lt _)

/-- What a run was given stays when everything is kept. -/
theorem Gives.of_keeps {s t u : Vmm} {i n b : ℕ} (h : Gives s i n b t)
    (hk : Keeps (fun _ => True) (fun _ => True) t u) : Gives s i n b u where
  keeps := h.keeps.trans (hk.mono (fun _ _ => trivial) fun _ _ _ => trivial)
  page := fun k hkn => by
    obtain ⟨hlt, hfree, htaken⟩ := h.page k hkn
    exact ⟨hlt, hfree, (hk.free _ trivial).trans htaken⟩
  block := fun k hkn => by
    obtain ⟨hfree, hused, hheld⟩ := h.block k hkn
    have hb : b + k < t.pmm.bound := by
      rw [h.keeps.bound]
      exact (Pmm.isFree_iff.mp hfree).1
    exact ⟨hfree, hk.used _ hb trivial hused, fun hc => hheld (hk.tables _ hb trivial hused hc)⟩
  frame := fun k hkn => by
    obtain ⟨e, hentry, hframe⟩ := h.frame k hkn
    exact ⟨e, (hk.entry _ trivial).trans hentry, hframe⟩

/-! ### One turn -/

section Turn

variable (s : Vmm) (n : ℕ)

/-- The blocks of a chunk of `n` pages. -/
def chunkAlloc : UInt32 × Pmm := pmmAllocBlocks s.pmm (UInt32.ofNat n)

/-- The pages of the chunk. -/
def chunkMap : UInt32 × Vmm :=
  vmmMapMmio (s.withPmm (chunkAlloc s n).2) (chunkAlloc s n).1 (UInt32.ofNat n * 4096)
    (1 ||| 2 ||| 16)

/-- The state when the chunk is cleared. -/
def chunkDone : Vmm :=
  (chunkMap s n).2.withPaging (clearPages (chunkMap s n).1 n 0 (chunkMap s n).2.paging)

/-- The entry of `phys_chunks`. -/
def chunkOf : Chunk := ⟨(chunkAlloc s n).1, n, s.pmm⟩

end Turn

/-- A turn of the loop finds no blocks, or no pages, or is done. -/
theorem chunkLoop_cases (turns : ℕ) {remaining : ℕ} (hr : 0 < remaining) (offset : UInt32)
    (chunks : List Chunk) (s : Vesa) :
    (chunkAlloc s.vmm (chunkPages remaining)).1 = 0 ∧
      chunkLoop (turns + 1) remaining offset chunks s =
        (false, chunks, s.withPmm (chunkAlloc s.vmm (chunkPages remaining)).2) ∨
    (chunkAlloc s.vmm (chunkPages remaining)).1 ≠ 0 ∧
      ((chunkMap s.vmm (chunkPages remaining)).1 = 0 ∧
        chunkLoop (turns + 1) remaining offset chunks s =
          (false, chunks ++ [chunkOf s.vmm (chunkPages remaining)],
            s.withVmm (chunkMap s.vmm (chunkPages remaining)).2) ∨
      (chunkMap s.vmm (chunkPages remaining)).1 ≠ 0 ∧
        chunkLoop (turns + 1) remaining offset chunks s =
          chunkLoop turns (remaining - chunkPages remaining)
            (offset + UInt32.ofNat (chunkPages remaining) * 4096)
            (chunks ++ [chunkOf s.vmm (chunkPages remaining)])
            { s with
              backBuffer :=
                if offset = 0 then (chunkMap s.vmm (chunkPages remaining)).1 else s.backBuffer
              vmm := chunkDone s.vmm (chunkPages remaining) }) := by
  have halloc : pmmAllocBlocks s.vmm.pmm (UInt32.ofNat (chunkPages remaining)) =
      chunkAlloc s.vmm (chunkPages remaining) := rfl
  have hmap : vmmMapMmio (s.withPmm (chunkAlloc s.vmm (chunkPages remaining)).2).vmm
      (chunkAlloc s.vmm (chunkPages remaining)).1 (UInt32.ofNat (chunkPages remaining) * 4096)
      (1 ||| 2 ||| 16) = chunkMap s.vmm (chunkPages remaining) := rfl
  rw [chunkLoop, if_neg (by omega)]
  simp only [halloc, hmap]
  by_cases hphys : (chunkAlloc s.vmm (chunkPages remaining)).1 = 0
  · rw [if_pos hphys]
    exact Or.inl ⟨hphys, rfl⟩
  · rw [if_neg hphys]
    refine Or.inr ⟨hphys, ?_⟩
    by_cases hvirt : (chunkMap s.vmm (chunkPages remaining)).1 = 0
    · rw [if_pos hvirt]
      exact Or.inl ⟨hvirt, rfl⟩
    · rw [if_neg hvirt]
      refine Or.inr ⟨hvirt, ?_⟩
      by_cases hoffset : offset = 0
      · rw [if_pos hoffset, if_pos hoffset]
        rfl
      · rw [if_neg hoffset, if_neg hoffset]
        rfl

/-- **One chunk.** If its search for blocks does not wrap round, a chunk gets the lowest hole that
is large enough. -/
theorem chunk_gives {s : Vmm} (hs : s.paging.Sound) (hp : s.bound < 2 ^ 20) {n : ℕ} (hn : n ≤ 32)
    (hphys : (chunkAlloc s n).1 ≠ 0) (hvirt : (chunkMap s n).1 ≠ 0)
    (hnw : ¬ s.pmm.WrapsRound n) :
    ∃ start b, findContiguousFreePages s n = some start ∧ (chunkMap s n).1 = pageAddr start ∧
      (chunkAlloc s n).1 = blockAddr b ∧ Gives s start n b (chunkDone s n) ∧
      (chunkDone s n).bitmap = Bitmap.setRun s.bitmap start n := by
  have hcount : (UInt32.ofNat n).toNat = n := by
    rw [UInt32.toNat_ofNat']
    omega
  obtain ⟨hpos, b, -, hb, -, -, htakes⟩ := pmmAllocBlocks_of_ne_zero hphys
  rw [hcount] at hpos htakes
  have htakes : TakesRun s.pmm n b (chunkAlloc s n).2 := htakes hnw
  have hb : (chunkAlloc s n).1 = blockAddr b := hb
  rw [chunkMap, hb] at hvirt
  obtain ⟨start, hfind, haddr, hgives, hbits⟩ := mapChunk_gives hs hp htakes hpos hn hvirt
  have hmap : chunkMap s n = vmmMapMmio (s.withPmm (chunkAlloc s n).2) (blockAddr b)
      (UInt32.ofNat n * 4096) (1 ||| 2 ||| 16) := by rw [chunkMap, hb]
  rw [← hmap] at haddr hgives hbits
  refine ⟨start, b, hfind, haddr, hb, ?_, hbits⟩
  rw [chunkDone, haddr]
  refine hgives.of_keeps (keeps_clearPages b hgives.keeps.sound fun j _ hj => ?_)
  have hlt := (Pmm.isFree_iff.mp (hgives.block j (by omega)).1).1
  have hbound : s.pmm.bound < 2 ^ 20 := hs.bound_lt
  exact ⟨by omega, (hgives.block j (by omega)).2.2, hgives.frame j (by omega)⟩

end HalOS
