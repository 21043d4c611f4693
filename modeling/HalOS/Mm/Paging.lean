import HalOS.Lib.PageTree
import HalOS.Mm.Pmm

/-!
# Page Tables

The page directory and page tables of `mm/paging.c`, and the translation `virt_to_phys` of
`mm/vmm.c`. Physical memory is a store of 32-bit words, indexed by word: the directory and
the tables are frames of it, taken from the physical memory manager.

An access to a table is taken to reach the frame that the directory entry names, whether
the source gets there through the physical address or, once paging is on, through its
alias above `0xC0000000`. So `paging_active` is left out, `page_directory` keeps its
physical address, and `invlpg` has no effect on the state. The bitmaps of the two memory
managers are kept apart from this store.

The field `tables` is not in the source: it lists the frames that were made page tables.
-/

namespace HalOS

open PageTree (fill write)

/-- The index of the word at physical address `p`. -/
def wordIndex (p : UInt32) : ℕ := p.toNat / 4

/-- `addr & ~0xFFF`. -/
def pageBase (addr : UInt32) : UInt32 := addr &&& 0xFFFFF000

/-- `entry & PAGE_PRESENT`, as a truth value. -/
def isPresent (entry : UInt32) : Bool := entry &&& 1 != 0

/-- `virt_addr >> 22`. -/
def pdIndex (virtAddr : UInt32) : ℕ := (virtAddr >>> 22).toNat

/-- `(virt_addr >> 12) & 0x3FF`. -/
def ptIndex (virtAddr : UInt32) : ℕ := ((virtAddr >>> 12) &&& 0x3FF).toNat

/-- The page directory of `paging.c`, the memory it lives in and the manager its frames
come from. -/
structure Paging where
  pmm : Pmm
  mem : ℕ → UInt32
  pageDirectory : UInt32
  /-- Ghost: the frames that were made page tables, latest first. -/
  tables : List UInt32

namespace Paging

/-- `page_directory[i]`. -/
def pde (s : Paging) (i : ℕ) : UInt32 := s.mem (wordIndex s.pageDirectory + i)

/-- `page_directory[i] = entry`. -/
def setPde (s : Paging) (i : ℕ) (entry : UInt32) : Paging :=
  { s with mem := write s.mem (wordIndex s.pageDirectory + i) entry }

/-- The word of entry `j` in the table that `page_directory[i]` names. -/
def pteWord (s : Paging) (i j : ℕ) : ℕ := wordIndex (pageBase (s.pde i)) + j

/-- Entry `j` of the table that `page_directory[i]` names. -/
def pte (s : Paging) (i j : ℕ) : UInt32 := s.mem (s.pteWord i j)

def setPte (s : Paging) (i j : ℕ) (entry : UInt32) : Paging :=
  { s with mem := write s.mem (s.pteWord i j) entry }

/-- `memset(frame, 0, PAGE_SIZE)`. -/
def zeroFrame (s : Paging) (frame : UInt32) : Paging :=
  { s with mem := fill s.mem (wordIndex frame) 1024 fun _ => 0 }

end Paging

/-- `paging_init`. The loop writes 2048 entries where the table holds 1024, so it also
fills the frame behind the table. Entries 0 and 768 of the directory name one table. -/
def pagingInit (s : Paging) : Paging :=
  match pmmAllocBlock s.pmm with
  | (pageDirectory, pmm) =>
      let s := { s with pmm := pmm, pageDirectory := pageDirectory }
      if pageDirectory = 0 then s
      else
        let s := s.zeroFrame pageDirectory
        match pmmAllocBlock s.pmm with
        | (firstPageTable, pmm) =>
            let s := { s with pmm := pmm }
            if firstPageTable = 0 then s
            else
              let s := { s.zeroFrame firstPageTable with tables := firstPageTable :: s.tables }
              let s := { s with
                mem := fill s.mem (wordIndex firstPageTable) 2048 fun i =>
                  UInt32.ofNat i * 4096 ||| 1 ||| 2 }
              let s := s.setPde 0 (pageBase firstPageTable ||| 1 ||| 2)
              s.setPde 768 (firstPageTable ||| 1 ||| 2)

/-- The part of `paging_map_page` that makes directory entry `i` present. -/
def createTable (s : Paging) (i : ℕ) : Bool × Paging :=
  match pmmAllocBlock s.pmm with
  | (physTable, pmm) =>
      let s := { s with pmm := pmm }
      if physTable = 0 then (false, s)
      else
        let s := { s.zeroFrame physTable with tables := physTable :: s.tables }
        (true, s.setPde i (physTable ||| (1 ||| 2)))

def pagingMapPage (s : Paging) (physAddr virtAddr flags : UInt32) : Bool × Paging :=
  match if isPresent (s.pde (pdIndex virtAddr)) then (true, s)
      else createTable s (pdIndex virtAddr) with
  | (false, s) => (false, s)
  | (true, s) =>
      (true, s.setPte (pdIndex virtAddr) (ptIndex virtAddr) (pageBase physAddr ||| flags ||| 1))

def pagingUnmapPage (s : Paging) (virtAddr : UInt32) : Paging :=
  if !isPresent (s.pde (pdIndex virtAddr)) then s
  else if !isPresent (s.pte (pdIndex virtAddr) (ptIndex virtAddr)) then s
  else s.setPte (pdIndex virtAddr) (ptIndex virtAddr) 0

/-- `virt_to_phys`. -/
def virtToPhys (s : Paging) (virtAddr : UInt32) : UInt32 :=
  if !isPresent (s.pde (pdIndex virtAddr)) then 0xFFFFFFFF
  else if !isPresent (s.pte (pdIndex virtAddr) (ptIndex virtAddr)) then 0xFFFFFFFF
  else pageBase (s.pte (pdIndex virtAddr) (ptIndex virtAddr)) ||| (virtAddr &&& 0xFFF)

end HalOS
