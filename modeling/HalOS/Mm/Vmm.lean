import HalOS.Mm.Paging

/-!
# The Virtual Memory Manager

The page allocators of `mm/vmm.c`, the heap's page supplier in `mm/liballoc_hook.c`, and
the part of `kmain` that starts them. A bitmap has one bit for each page of the window
that begins at `KERNEL_VMEM_START`; page `i` of the window is the address `pageAddr i`,
which wraps round to zero at `i = 0x40000`.

`bitmap` holds the bytes that the pointer `vmmBitmap` points at. While it is null, which it
is when `vmm_bitmap_init` calls `vmm_map_mmio`, these are the bytes found at address zero.

Page indices are natural numbers; `vmm_max_pages` is below `2 ^ 20`, so no index that the
loops form can wrap, except where `u32` says so. `serial_printf` calls are left out.
-/

namespace HalOS

/-- `KERNEL_VMEM_START + page * PAGE_SIZE`. -/
def pageAddr (page : ℕ) : UInt32 := 0xC0000000 + UInt32.ofNat page * 4096

/-- The variables of `vmm.c`, with the bytes found at `vmm_bitmap`. -/
structure Vmm where
  paging : Paging
  vmmBitmap : UInt32
  bitmap : ℕ → UInt8
  maxPages : UInt32

namespace Vmm

/-- `vmm_max_pages` as an index bound. -/
def bound (s : Vmm) : ℕ := s.maxPages.toNat

def pmm (s : Vmm) : Pmm := s.paging.pmm

def withPmm (s : Vmm) (pmm : Pmm) : Vmm := { s with paging := { s.paging with pmm := pmm } }

def withPaging (s : Vmm) (paging : Paging) : Vmm := { s with paging := paging }

end Vmm

/-! ### The page bitmap -/

def isPageFree (s : Vmm) (page : ℕ) : Bool := !Bitmap.test s.bitmap page

/-- `find_free_page`, with `none` for the returned `-1`. -/
def findFreePage (s : Vmm) : Option ℕ := (List.range s.bound).find? fun i => isPageFree s i

/-- `find_contiguous_free_pages`, with `none` for the returned `-1`; `vmm_map_mmio` spells
the same two loops out. -/
def findContiguousFreePages (s : Vmm) (pagesNeeded : ℕ) : Option ℕ :=
  (List.range s.bound).find? fun i =>
    isPageFree s i &&
      (List.range pagesNeeded).all fun j => decide (i + j < s.bound) && isPageFree s (i + j)

def markPage (s : Vmm) (page : ℕ) (used : Bool) : Vmm :=
  { s with bitmap := if used then Bitmap.set s.bitmap page else Bitmap.clear s.bitmap page }

/-- `mark_page` on the `n` pages from `page` on. -/
def markPages (s : Vmm) (page n : ℕ) (used : Bool) : Vmm :=
  { s with
    bitmap := if used then Bitmap.setRun s.bitmap page n else Bitmap.clearRun s.bitmap page n }

/-! ### Mapping runs of pages -/

/-- `for (i …) if (!paging_map_page(phys + i * PAGE_SIZE, virt + i * PAGE_SIZE, flags))`:
map `n` pages up to the first one that fails, and say which one that is. -/
def mapPages (phys virt flags : UInt32) : ℕ → ℕ → Paging → Option ℕ × Paging
  | 0, _, s => (none, s)
  | n + 1, i, s =>
      match pagingMapPage s (phys + UInt32.ofNat i * 4096) (virt + UInt32.ofNat i * 4096) flags with
      | (true, s) => mapPages phys virt flags n (i + 1) s
      | (false, s) => (some i, s)

/-- The same loop where the result of `paging_map_page` is not looked at. -/
def mapEach (phys virt flags : UInt32) : ℕ → ℕ → Paging → Paging
  | 0, _, s => s
  | n + 1, i, s =>
      mapEach phys virt flags n (i + 1)
        (pagingMapPage s (phys + UInt32.ofNat i * 4096) (virt + UInt32.ofNat i * 4096) flags).2

def vmmMapMmio (s : Vmm) (physAddr size flags : UInt32) : UInt32 × Vmm :=
  let size := (size + 4095) &&& 0xFFFFF000
  let pagesNeeded := ((size + 4095) / 4096).toNat
  match findContiguousFreePages s pagesNeeded with
  | none => (0, s)
  | some startIndex =>
      let s := markPages s startIndex pagesNeeded true
      let virtStart := pageAddr startIndex
      match mapPages physAddr virtStart (flags ||| 1 ||| 2) pagesNeeded 0 s.paging with
      | (some _, paging) => (0, s.withPaging paging)
      | (none, paging) => (virtStart, s.withPaging paging)

/-! ### Single pages -/

def vmmAllocPage (s : Vmm) : UInt32 × Vmm :=
  match findFreePage s with
  | none => (0, s)
  | some pageIndex =>
      let s := markPage s pageIndex true
      let virtAddr := pageAddr pageIndex
      match pmmAllocBlock s.pmm with
      | (physAddr, pmm) =>
          let s := s.withPmm pmm
          if physAddr = 0 then (0, markPage s pageIndex false)
          else
            match pagingMapPage s.paging physAddr virtAddr (1 ||| 2) with
            | (true, paging) => (virtAddr, s.withPaging paging)
            | (false, paging) =>
                let s := s.withPaging paging
                (0, markPage (s.withPmm (pmmFreeBlock s.pmm physAddr)) pageIndex false)

def vmmFreePage (s : Vmm) (addr : UInt32) : Vmm :=
  if addr = 0 then s
  else if addr &&& 4095 ≠ 0 then s
  else if addr < 0xC0000000 then s
  else
    let pageIndex := (addr - 0xC0000000) / 4096
    if s.maxPages ≤ pageIndex then s
    else
      let physAddr := virtToPhys s.paging addr
      if physAddr = 0xFFFFFFFF then s
      else
        let s := s.withPmm (pmmFreeBlock s.pmm physAddr)
        let s := s.withPaging (pagingUnmapPage s.paging addr)
        markPage s pageIndex.toNat false

/-! ### Contiguous pages -/

/-- The loop of `vmm_free_contiguous`. -/
def freeContiguousLoop (physStart virtStart : UInt32) (startIndex : ℕ) : ℕ → ℕ → Vmm → Vmm
  | 0, _, s => s
  | n + 1, i, s =>
      let s := s.withPaging (pagingUnmapPage s.paging (virtStart + UInt32.ofNat i * 4096))
      let s := s.withPmm (pmmMarkUnusedRegion s.pmm (physStart + UInt32.ofNat i * 4096) 4096)
      freeContiguousLoop physStart virtStart startIndex n (i + 1)
        (markPage s (u32 (startIndex + i)) false)

def vmmFreeContiguous (s : Vmm) (virtAddr pages : UInt32) : Vmm :=
  if virtAddr = 0 ∨ pages = 0 then s
  else
    let physStart := virtToPhys s.paging virtAddr
    if physStart = 0xFFFFFFFF then s
    else
      let s := s.withPmm (pmmFreeBlocks s.pmm physStart pages.toInt32)
      let startIndex := ((virtAddr - 0xC0000000) / 4096).toNat
      freeContiguousLoop physStart virtAddr startIndex pages.toNat 0 s

def vmmAllocContiguous (s : Vmm) (pages : UInt32) : UInt32 × Vmm :=
  if pages = 0 ∨ s.maxPages < pages then (0, s)
  else
    match findContiguousFreePages s pages.toNat with
    | none => (0, s)
    | some startIndex =>
        let s := markPages s startIndex pages.toNat true
        match pmmAllocContiguous s.pmm pages with
        | (physStart, pmm) =>
            let s := s.withPmm pmm
            if physStart = 0 then (0, markPages s startIndex pages.toNat false)
            else
              let virtStart := pageAddr startIndex
              match mapPages physStart virtStart (1 ||| 2) pages.toNat 0 s.paging with
              | (none, paging) => (virtStart, s.withPaging paging)
              | (some i, paging) =>
                  (0, vmmFreeContiguous (s.withPaging paging) virtStart (UInt32.ofNat i))

/-! ### Memory for devices -/

/-- `dma_alloc`. The loop runs also when `vmm_alloc_contiguous` has returned null. -/
def dmaAlloc (s : Vmm) (size : UInt32) : UInt32 × Vmm :=
  let pages := (size + 4095) / 4096
  match pmmAllocBlocksInRange s.pmm pages 0x100000 0x1000000 with
  | (phys, pmm) =>
      let s := s.withPmm pmm
      if phys = 0 then (0, s)
      else
        match vmmAllocContiguous s pages with
        | (virt, s) =>
            (virt, s.withPaging (mapEach phys virt (1 ||| 2 ||| 16) pages.toNat 0 s.paging))

def dmaFree (s : Vmm) (addr size : UInt32) : Vmm :=
  if addr = 0 ∨ size = 0 then s
  else if addr &&& 4095 ≠ 0 then s
  else
    let pages := (size + 4095) / 4096
    if s.maxPages < pages then s else vmmFreeContiguous s addr pages

/-! ### The heap's page supplier -/

/-- `vmm_free_page` on the pages `addr + j * PAGE_SIZE` for `n` values of `j`. -/
def freePages (addr : UInt32) : ℕ → ℕ → Vmm → Vmm
  | 0, _, s => s
  | n + 1, j, s => freePages addr n (j + 1) (vmmFreePage s (addr + UInt32.ofNat j * 4096))

/-- The loop of `liballoc_alloc` with `i` pages taken, the first of them at `virtAddr`. -/
def liballocAllocLoop : ℕ → ℕ → UInt32 → Vmm → UInt32 × Vmm
  | 0, _, virtAddr, s => (virtAddr, s)
  | n + 1, i, virtAddr, s =>
      match vmmAllocPage s with
      | (page, s) =>
          if page = 0 then (0, freePages virtAddr i 0 s)
          else liballocAllocLoop n (i + 1) (if i = 0 then page else virtAddr) s

def liballocAlloc (s : Vmm) (numBlocks : Int32) : UInt32 × Vmm :=
  if numBlocks ≤ 0 then (0, s) else liballocAllocLoop numBlocks.toUInt32.toNat 0 0 s

def liballocFree (s : Vmm) (ptr : UInt32) (numBlocks : Int32) : Vmm :=
  if ptr = 0 ∨ numBlocks ≤ 0 then s else freePages ptr numBlocks.toUInt32.toNat 0 s

/-! ### Starting up -/

/-- `vmm_bitmap_init`. The frames of the bitmap hold `bytes`; `memset` zeroes as many of
them as the pages need. -/
def vmmBitmapInit (s : Vmm) (bytes : ℕ → UInt8) : Vmm :=
  let totalPhysMem := s.pmm.memorySize
  if totalPhysMem = 0 then s
  else
    let s := { s with maxPages := totalPhysMem / 4096 }
    let bitmapSize := (s.maxPages + 7) / 8
    let bitmapPages := (bitmapSize + 4095) / 4096
    match pmmAllocBlocks s.pmm bitmapPages with
    | (bitmapPhys, pmm) =>
        let s := s.withPmm pmm
        if bitmapPhys = 0 then s
        else
          match vmmMapMmio s bitmapPhys (bitmapPages * 4096) (1 ||| 2) with
          | (vmmBitmap, s) =>
              let s := { s with vmmBitmap := vmmBitmap }
              if vmmBitmap = 0 then
                s.withPmm (pmmFreeBlocks s.pmm bitmapPhys bitmapPages.toInt32)
              else
                { s with bitmap := fun b => if b < bitmapSize.toNat then 0 else bytes b }

/-- The loop of `vmm_init`: each page of the kernel image is mapped at its own address and
in the window. -/
def mapKernel (kernel : KernelImage) : ℕ → ℕ → Paging → Paging
  | 0, _, s => s
  | n + 1, i, s =>
      let physAddr := kernel.physicalStart + UInt32.ofNat i * 4096
      let virtAddr := pageAddr i
      let s := (pagingMapPage s physAddr physAddr (1 ||| 2)).2
      mapKernel kernel n (i + 1) (pagingMapPage s physAddr virtAddr (1 ||| 2)).2

def vmmInit (s : Vmm) (kernel : KernelImage) (bytes : ℕ → UInt8) : Vmm :=
  let s := s.withPaging (pagingInit s.paging)
  let s := vmmBitmapInit s bytes
  if s.paging.pageDirectory = 0 then s
  else
    let kernelSize := kernel.physicalEnd - kernel.physicalStart
    let numPages := ((kernelSize + 4095) / 4096).toNat
    s.withPaging (mapKernel kernel numPages 0 s.paging)

/-- The machine as `kmain` finds it: the kernel image, the memory size and the framebuffer
that the boot loader reports, the address of `pmm_bitmap`, and the contents of memory. -/
structure Boot where
  kernel : KernelImage
  memSize : UInt32
  fbPhys : UInt32
  fbSize : UInt32
  pmmBitmap : UInt32
  /-- The bytes at `pmm_bitmap`. -/
  pmmBytes : ℕ → UInt8
  mem : ℕ → UInt32
  /-- The bytes at address zero. -/
  nullBytes : ℕ → UInt8
  /-- The bytes of the frames that `vmm_bitmap_init` obtains. -/
  vmmBytes : ℕ → UInt8

/-- The state in which `kmain` calls `vmm_init`. -/
def Boot.initial (boot : Boot) : Vmm where
  paging :=
    { pmm := pmmInit boot.kernel boot.memSize boot.pmmBitmap boot.pmmBytes
      mem := boot.mem
      pageDirectory := 0
      tables := [] }
  vmmBitmap := 0
  bitmap := boot.nullBytes
  maxPages := 0

/-- The state after `vmm_init`. -/
def Boot.vmm (boot : Boot) : Vmm := vmmInit boot.initial boot.kernel boot.vmmBytes

/-- The state after `kmain` has mapped the framebuffer. -/
def Boot.kmain (boot : Boot) : Vmm :=
  let s := boot.vmm
  let fbPages := ((boot.fbSize + 4095) / 4096).toNat
  s.withPaging (mapEach boot.fbPhys (0xC0000000 + 0x3000000) (1 ||| 2 ||| 16) fbPages 0 s.paging)

/-! ### Calls and runs -/

/-- The calls of the virtual memory manager and of the heap's page supplier. -/
inductive VmmCall
  | allocPage
  | freePage (addr : UInt32)
  | allocContiguous (pages : UInt32)
  | freeContiguous (virtAddr pages : UInt32)
  | mapMmio (physAddr size flags : UInt32)
  | dmaAlloc (size : UInt32)
  | dmaFree (addr size : UInt32)
  | liballocAlloc (numBlocks : Int32)
  | liballocFree (ptr : UInt32) (numBlocks : Int32)
deriving DecidableEq

/-- What a call returns (`0` for the calls that return nothing) and the state after it. -/
def VmmCall.run (s : Vmm) : VmmCall → UInt32 × Vmm
  | allocPage => vmmAllocPage s
  | freePage a => (0, vmmFreePage s a)
  | allocContiguous n => vmmAllocContiguous s n
  | freeContiguous a n => (0, vmmFreeContiguous s a n)
  | mapMmio p size flags => vmmMapMmio s p size flags
  | dmaAlloc size => HalOS.dmaAlloc s size
  | dmaFree a size => (0, HalOS.dmaFree s a size)
  | liballocAlloc n => HalOS.liballocAlloc s n
  | liballocFree p n => (0, HalOS.liballocFree s p n)

/-- The state a call leaves. -/
def VmmCall.next (s : Vmm) (c : VmmCall) : Vmm := (c.run s).2

/-- The states that some sequence of calls after `kmain`'s start-up of `boot` leads to. -/
inductive VmmReachable (boot : Boot) : Vmm → Prop
  | boot : VmmReachable boot boot.kmain
  | step {s : Vmm} (c : VmmCall) : VmmReachable boot s → VmmReachable boot (c.next s)

/-- The states that calls of both memory managers, in any order, lead to after start-up. -/
inductive MmReachable (boot : Boot) : Vmm → Prop
  | boot : MmReachable boot boot.kmain
  | vmm {s : Vmm} (c : VmmCall) : MmReachable boot s → MmReachable boot (c.next s)
  | pmm {s : Vmm} (c : PmmCall) : MmReachable boot s →
      MmReachable boot (s.withPmm (c.next s.pmm))

end HalOS
