import Mathlib.Data.Finset.Card
import HalOS.Lib.Bitmap
import HalOS.Lib.Loop

/-!
# The Physical Memory Manager

The block allocator of `mm/pmm.c`: one bit for each 4 KiB block, a counter of used blocks,
and four allocators that search the bitmap in four different ways. Machine words are
`UInt32`, so every sum, product and decrement wraps as it does on the target. Block and
loop indices are natural numbers; where the C code forms an index by a sum that can pass
`2 ^ 32`, the sum is taken through `u32`.

`serial_printf` calls are left out: they read nothing back.

The field `outOfBounds` is not in the source. Every access to a bit goes through `touch`,
which raises it when the bit lies at or above `maxBlocks`; an access in range leaves the
state as it is (`touch_of_lt`).
-/

namespace HalOS

/-- Reduction of an index sum computed in `uint32_t`. -/
def u32 (x : ℕ) : ℕ := x % 2 ^ 32

theorem toNat_pos_of_ne_zero {n : UInt32} (h : n ≠ 0) : 0 < n.toNat :=
  Nat.pos_of_ne_zero fun h0 => h (UInt32.toNat_inj.mp h0)

theorem u32_of_lt {x : ℕ} (h : x < 2 ^ 32) : u32 x = x := Nat.mod_eq_of_lt h

/-- The linker symbols `__kernel_physical_start` and `__kernel_physical_end`. -/
structure KernelImage where
  physicalStart : UInt32
  physicalEnd : UInt32
deriving DecidableEq, Repr

/-- The static variables of `pmm.c`, with the bytes found at `pmm_memory_map`. -/
structure Pmm where
  memorySize : UInt32
  usedBlocks : UInt32
  maxBlocks : UInt32
  memoryMap : ℕ → UInt8
  initialized : Bool
  lastAlloc : UInt32
  /-- Ghost: some access has used a bit at or above `maxBlocks`. -/
  outOfBounds : Bool

namespace Pmm

/-- `pmm_max_blocks` as an index bound. -/
def bound (s : Pmm) : ℕ := s.maxBlocks.toNat

/-- The bit of block `b`, read as a truth value. -/
def isUsed (s : Pmm) (b : ℕ) : Bool := Bitmap.test s.memoryMap b

/-- The ghost effect of accessing bit `b`. -/
def touch (s : Pmm) (b : ℕ) : Pmm :=
  { s with outOfBounds := s.outOfBounds || decide (s.bound ≤ b) }

/-- `pmm_memory_map[b / 8] & (1 << (b % 8))`. -/
def readBit (s : Pmm) (b : ℕ) : Bool × Pmm := (s.isUsed b, s.touch b)

/-- `pmm_memory_map[b / 8] |= (1 << (b % 8))`. -/
def setBit (s : Pmm) (b : ℕ) : Pmm :=
  { s.touch b with memoryMap := Bitmap.set s.memoryMap b }

/-- `pmm_memory_map[b / 8] &= ~(1 << (b % 8))`. -/
def clearBit (s : Pmm) (b : ℕ) : Pmm :=
  { s.touch b with memoryMap := Bitmap.clear s.memoryMap b }

end Pmm

/-! ### Marking regions -/

/-- `mark_block_used`: set the bit and count it. -/
def markBlockUsed (s : Pmm) (block : ℕ) : Pmm :=
  { s.setBit block with usedBlocks := s.usedBlocks + 1 }

/-- The opposite of `mark_block_used`, written out in the source at each use: clear the
bit and take it off the counter. -/
def markBlockUnused (s : Pmm) (block : ℕ) : Pmm :=
  { s.clearBit block with usedBlocks := s.usedBlocks - 1 }

/-- The loop shared by `pmm_mark_used_region` and `pmm_mark_unused_region`: from `block`
on, for `n` blocks or up to the last one, move to `used` the blocks that are not there
yet. The index cannot wrap: both summands of the source are below `2 ^ 20`. -/
def markRegion (used : Bool) : ℕ → ℕ → Pmm → Pmm
  | 0, _, s => s
  | n + 1, block, s =>
      if s.bound ≤ block then s
      else
        let (bit, s) := s.readBit block
        let s := if bit = used then s
          else if used then markBlockUsed s block else markBlockUnused s block
        markRegion used n (block + 1) s

/-- The number of blocks `(size + PMM_BLOCK_SIZE - 1) / PMM_BLOCK_SIZE` a region spans. -/
def regionBlocks (size : UInt32) : ℕ := ((size + 4095) / 4096).toNat

def pmmMarkUsedRegion (s : Pmm) (base size : UInt32) : Pmm :=
  markRegion true (regionBlocks size) (base / 4096).toNat s

def pmmMarkUnusedRegion (s : Pmm) (base size : UInt32) : Pmm :=
  markRegion false (regionBlocks size) (base / 4096).toNat s

/-- The state of `pmm.c` before `pmm_init`, over whatever bytes lie at a null bitmap. -/
def Pmm.blank (bytes : ℕ → UInt8) : Pmm where
  memorySize := 0
  usedBlocks := 0
  maxBlocks := 0
  memoryMap := bytes
  initialized := false
  lastAlloc := 0
  outOfBounds := false

/-- `pmm_init`. The memory at `bitmap` holds `bytes`; `memset` zeroes as many of them as
the blocks need. -/
def pmmInit (kernel : KernelImage) (memSize bitmap : UInt32) (bytes : ℕ → UInt8) : Pmm :=
  if memSize = 0 ∨ bitmap = 0 then Pmm.blank bytes
  else
    let maxBlocks := (memSize + 4095) / 4096
    let bitmapSize := ((maxBlocks + 7) / 8).toNat
    let s : Pmm :=
      { Pmm.blank (fun i => if i < bitmapSize then 0 else bytes i) with
        memorySize := memSize
        maxBlocks := maxBlocks }
    let s := pmmMarkUsedRegion s 0 0x100000
    let s := pmmMarkUsedRegion s kernel.physicalStart (kernel.physicalEnd - kernel.physicalStart)
    let s := pmmMarkUsedRegion s bitmap (maxBlocks / 8)
    { s with initialized := true }

/-! ### Allocation -/

/-- The inner loop of `pmm_alloc_block` over the bits of byte `byteIdx`. -/
def allocBlockBits (byteIdx : ℕ) : ℕ → ℕ → Pmm → Option ℕ × Pmm
  | 0, _, s => (none, s)
  | n + 1, bitIdx, s =>
      let block := byteIdx * 8 + bitIdx
      if s.bound ≤ block then (none, s)
      else
        match s.readBit block with
        | (true, s) => allocBlockBits byteIdx n (bitIdx + 1) s
        | (false, s) => (some block, s)

/-- The outer loop of `pmm_alloc_block`. The comparison with `0xFF` reads all eight bits
of the byte; the last of them is the one that could lie out of range. -/
def allocBlockBytes : ℕ → ℕ → Pmm → Option ℕ × Pmm
  | 0, _, s => (none, s)
  | n + 1, byteIdx, s =>
      let s := s.touch (byteIdx * 8 + 7)
      if s.memoryMap byteIdx = 0xFF then allocBlockBytes n (byteIdx + 1) s
      else
        match allocBlockBits byteIdx 8 0 s with
        | (some block, s) => (some block, s)
        | (none, s) => allocBlockBytes n (byteIdx + 1) s

/-- The address `block * PMM_BLOCK_SIZE` that the allocators return. -/
def blockAddr (block : ℕ) : UInt32 := UInt32.ofNat block * 4096

def pmmAllocBlock (s : Pmm) : UInt32 × Pmm :=
  if s.maxBlocks ≤ s.usedBlocks then (0, s)
  else
    match allocBlockBytes (s.bound / 8) 0 s with
    | (some block, s) => (blockAddr block, markBlockUsed s block)
    | (none, s) => (0, s)

def pmmIsBlockFree (s : Pmm) (block : ℕ) : Bool × Pmm :=
  if s.bound ≤ block then (false, s)
  else
    let (used, s) := s.readBit block
    (!used, s)

/-- `find_contiguous_free_blocks`, with `none` for the returned `-1`. -/
def findContiguousFreeBlocks (s : Pmm) (numBlocks : ℕ) : Option ℕ × Pmm :=
  Loop.search
    (fun s i =>
      match pmmIsBlockFree s i with
      | (false, s) => (false, s)
      | (true, s) =>
          Loop.holds
            (fun s j => if s.bound ≤ i + j then (false, s) else pmmIsBlockFree s (i + j))
            numBlocks 0 s)
    s.bound 0 s

/-- `mark_block_used` on the `n` blocks from `block` on. -/
def markRunUsed : ℕ → ℕ → Pmm → Pmm
  | 0, _, s => s
  | n + 1, block, s => markRunUsed n (block + 1) (markBlockUsed s block)

def pmmAllocContiguous (s : Pmm) (numBlocks : UInt32) : UInt32 × Pmm :=
  if numBlocks = 0 ∨ s.maxBlocks < numBlocks then (0, s)
  else
    match findContiguousFreeBlocks s numBlocks.toNat with
    | (some start, s) => (blockAddr start, markRunUsed numBlocks.toNat start s)
    | (none, s) => (0, s)

/-- `validate_allocation_request`. -/
def validateAllocationRequest (s : Pmm) (blocks : UInt32) : Bool :=
  s.initialized && !(blocks = 0 || s.maxBlocks < blocks) &&
    !(s.maxBlocks < s.usedBlocks + blocks)

/-- The test `!(pmm_memory_map[b / 8] & (1 << (b % 8)))` of the scan in
`pmm_alloc_blocks`. -/
def readFree (s : Pmm) (block : ℕ) : Bool × Pmm :=
  let (used, s) := s.readBit block
  (!used, s)

/-- The end of a successful `pmm_alloc_blocks`. -/
def takeRun (s : Pmm) (numBlocks : UInt32) (start : ℕ) : UInt32 × Pmm :=
  let s := markRunUsed numBlocks.toNat start s
  (blockAddr start,
    { s with lastAlloc := (UInt32.ofNat start + numBlocks) % s.maxBlocks })

/-- `pmm_alloc_blocks`. The two passes of the `while` loop differ in where they start; the
second goes on with the count and the start block the first one ended with. -/
def pmmAllocBlocks (s : Pmm) (numBlocks : UInt32) : UInt32 × Pmm :=
  if !validateAllocationRequest s numBlocks then (0, s)
  else
    let want := numBlocks.toNat
    let start := s.lastAlloc.toNat
    match Loop.scanRun readFree want (s.bound - start) start 0 0 s with
    | (.found startBlock, s) => takeRun s numBlocks startBlock
    | (.more consecutive startBlock, s) =>
        match Loop.scanRun readFree want s.bound 0 consecutive startBlock s with
        | (.found startBlock, s) => takeRun s numBlocks startBlock
        | (.more _ _, s) => (0, s)

/-- The marking loop of `pmm_alloc_blocks_in_range`, which leaves the counter to its
caller. -/
def setRunBits : ℕ → ℕ → Pmm → Pmm
  | 0, _, s => s
  | n + 1, block, s => setRunBits n (block + 1) (s.setBit block)

def pmmAllocBlocksInRange (s : Pmm) (numBlocks startAddr endAddr : UInt32) : UInt32 × Pmm :=
  if numBlocks = 0 ∨ endAddr ≤ startAddr then (0, s)
  else
    let startAddr := (startAddr + 4095) &&& 0xFFFFF000
    let endAddr := endAddr &&& 0xFFFFF000
    let startBlock := (startAddr / 4096).toNat
    let endBlock := (endAddr / 4096).toNat
    match Loop.scanRun pmmIsBlockFree numBlocks.toNat (endBlock - startBlock) startBlock 0 0 s with
    | (.found firstBlock, s) =>
        let s := setRunBits numBlocks.toNat firstBlock s
        (blockAddr firstBlock, { s with usedBlocks := s.usedBlocks + numBlocks })
    | (.more _ _, s) => (0, s)

/-! ### Freeing -/

/-- `pmm_free_block`. The `if` on a null pointer governs the message alone, so the
`return` after it is taken on every call and nothing below it is reached. -/
def pmmFreeBlock (s : Pmm) (_p : UInt32) : Pmm := s

/-- The loop of `pmm_free_blocks`. -/
def freeBlocksLoop (p : UInt32) : ℕ → ℕ → Pmm → Pmm
  | 0, _, s => s
  | n + 1, i, s => freeBlocksLoop p n (i + 1) (pmmFreeBlock s (p + UInt32.ofNat i * 4096))

def pmmFreeBlocks (s : Pmm) (p : UInt32) (numBlocks : Int32) : Pmm :=
  if p = 0 ∨ numBlocks ≤ 0 then s
  else if s.maxBlocks < p / 4096 + numBlocks.toUInt32 then s
  else freeBlocksLoop p numBlocks.toUInt32.toNat 0 s

/-- The clearing loop of `pmm_free_contiguous`, at indices `block + i` in `uint32_t`. -/
def markRunUnused (block : ℕ) : ℕ → ℕ → Pmm → Pmm
  | 0, _, s => s
  | n + 1, i, s => markRunUnused block n (i + 1) (markBlockUnused s (u32 (block + i)))

def pmmFreeContiguous (s : Pmm) (ptr numBlocks : UInt32) : Pmm :=
  if ptr = 0 ∨ numBlocks = 0 then s
  else
    let block := ptr / 4096
    if s.maxBlocks < block + numBlocks then s
    else
      match Loop.holds
          (fun s i =>
            let (free, s) := pmmIsBlockFree s (u32 (block.toNat + i))
            (!free, s))
          numBlocks.toNat 0 s with
      | (false, s) => s
      | (true, s) => markRunUnused block.toNat numBlocks.toNat 0 s

/-! ### Calls and runs -/

/-- The public calls of `pmm.h` after `pmm_init`, with their arguments. -/
inductive PmmCall
  | markUsedRegion (base size : UInt32)
  | markUnusedRegion (base size : UInt32)
  | allocBlock
  | allocBlocks (numBlocks : UInt32)
  | allocContiguous (numBlocks : UInt32)
  | allocBlocksInRange (numBlocks startAddr endAddr : UInt32)
  | freeBlock (p : UInt32)
  | freeBlocks (p : UInt32) (numBlocks : Int32)
  | freeContiguous (ptr numBlocks : UInt32)
deriving DecidableEq

/-- What a call returns (`0` for the calls that return nothing) and the state after it. -/
def PmmCall.run (s : Pmm) : PmmCall → UInt32 × Pmm
  | markUsedRegion base size => (0, pmmMarkUsedRegion s base size)
  | markUnusedRegion base size => (0, pmmMarkUnusedRegion s base size)
  | allocBlock => pmmAllocBlock s
  | allocBlocks n => pmmAllocBlocks s n
  | allocContiguous n => pmmAllocContiguous s n
  | allocBlocksInRange n lo hi => pmmAllocBlocksInRange s n lo hi
  | freeBlock p => (0, pmmFreeBlock s p)
  | freeBlocks p n => (0, pmmFreeBlocks s p n)
  | freeContiguous p n => (0, pmmFreeContiguous s p n)

/-- The state a call leaves. -/
def PmmCall.next (s : Pmm) (c : PmmCall) : Pmm := (c.run s).2

/-- The states that some sequence of calls after some `pmm_init` leads to. -/
inductive PmmReachable : Pmm → Prop
  | init (kernel : KernelImage) (memSize bitmap : UInt32) (bytes : ℕ → UInt8) :
      PmmReachable (pmmInit kernel memSize bitmap bytes)
  | step {s : Pmm} (c : PmmCall) : PmmReachable s → PmmReachable (c.next s)

end HalOS
