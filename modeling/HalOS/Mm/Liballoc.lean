import HalOS.Lib.LinkedList
import HalOS.Lib.Records
import HalOS.Mm.Pmm

/-!
# The Heap

`malloc`, `free`, `calloc` and `realloc` of `mm/liballoc.c` on a memory of bytes. A block of the
heap begins with a boundary tag of eight words; the tags of one run of pages are linked to their
neighbours by `splitLeft` and `splitRight`, and the tags of free blocks are in one of the lists
that begin in `freePages`, by the exponent of their size.

Addresses and sizes are natural numbers; where the source computes in `unsigned int` and the
result can pass `2 ^ 32`, it is taken through `u32`. The member `index`, an `int`, is the word that
holds it: `-1` is `minusOne`, and it is not negative while it is below `2 ^ 31`.

What `liballoc_alloc` and `liballoc_free` do is a `PageSupplier`; `HalOS.Mm.LiballocPages` takes
those of `mm/liballoc_hook.c`. `liballoc_lock` and `liballoc_unlock` are left out here. The loops
that follow pointers are given a number of steps and end in `none` when it runs out.
-/

namespace HalOS

namespace Liballoc

open CString (Memory)

/-- The members of `struct boundary_tag`. -/
inductive TagField
  | magic | size | realSize | index | splitLeft | splitRight | next | prev
deriving DecidableEq, Repr

instance : Records.Layout TagField where
  words := 8
  position
    | .magic => 0
    | .size => 1
    | .realSize => 2
    | .index => 3
    | .splitLeft => 4
    | .splitRight => 5
    | .next => 6
    | .prev => 7
  position_lt f := by cases f <;> decide
  position_injective f g h := by cases f <;> cases g <;> first | rfl | cases h

/-- `tag->f`. -/
abbrev field (m : Memory) (tag : ℕ) (f : TagField) : ℕ := Records.field m tag f

/-- `tag->f = v`. -/
abbrev setField (m : Memory) (tag : ℕ) (f : TagField) (v : ℕ) : Memory :=
  Records.setField m tag f v

/-- `if (tag != NULL) tag->f = v;` -/
def setNonNull (m : Memory) (tag : ℕ) (f : TagField) (v : ℕ) : Memory :=
  if tag ≠ 0 then setField m tag f v else m

/-- `LIBALLOC_MAGIC`. -/
abbrev liballocMagic : ℕ := 0xc001c0de

/-- `sizeof(struct boundary_tag)`. -/
abbrev tagSize : ℕ := 32

/-- `l_pageSize`. -/
abbrev pageSize : ℕ := 4096

/-- `l_pageCount`, the least number of pages to ask for. -/
abbrev pageCount : ℕ := 16

/-- `MAXCOMPLETE`. -/
abbrev maxComplete : ℤ := 5

/-- The word of an `int` that is `-1`. -/
abbrev minusOne : ℕ := 2 ^ 32 - 1

/-- `liballoc_alloc`, with `0` for null, and `liballoc_free`. -/
structure PageSupplier (σ : Type) where
  alloc : σ → ℕ → ℕ × σ
  free : σ → ℕ → ℕ → σ

/-- The variables of `liballoc.c`, with the memory and the state of the page supplier. -/
structure Heap (σ : Type) where
  mem : Memory
  freePages : ℕ → ℕ
  completePages : ℕ → ℤ
  initialized : Bool
  pages : σ

/-! ### Sizes -/

/-- The loop of `getexp`, with `n` steps to `MAXEXP`. -/
def getexpLoop (size : ℕ) : ℕ → ℕ → ℕ
  | 0, shift => shift
  | n + 1, shift => if size < 2 ^ shift then shift else getexpLoop size n (shift + 1)

def getexp (size : ℕ) : ℤ := if size < 2 ^ 8 then -1 else getexpLoop size 24 8 - 1

/-- `index = getexp(size); if (index < MINEXP) index = MINEXP;` -/
def listIndex (size : ℕ) : ℕ := if getexp size < 8 then 8 else (getexp size).toNat

/-! ### Tags -/

variable {σ : Type}

/-- `insert_tag`; an index below zero is found from the size. -/
def insertTag (h : Heap σ) (tag : ℕ) (index : ℤ) : Heap σ :=
  let realIndex :=
    if index < 0 then listIndex (u32 (field h.mem tag .realSize + 2 ^ 32 - tagSize))
    else index.toNat
  let head := h.freePages realIndex
  let mem := setField h.mem tag .index realIndex
  let mem := setNonNull mem head .prev tag
  let mem := if head ≠ 0 then setField mem tag .next head else mem
  { h with mem := mem, freePages := Function.update h.freePages realIndex tag }

def removeTag (h : Heap σ) (tag : ℕ) : Heap σ :=
  let index := field h.mem tag .index
  let freePages :=
    if h.freePages index = tag then Function.update h.freePages index (field h.mem tag .next)
    else h.freePages
  let mem := h.mem
  let mem := setNonNull mem (field mem tag .prev) .next (field mem tag .next)
  let mem := setNonNull mem (field mem tag .next) .prev (field mem tag .prev)
  let mem := setField mem tag .next 0
  let mem := setField mem tag .prev 0
  { h with mem := setField mem tag .index minusOne, freePages := freePages }

/-- `melt_left`: the tag to the left takes this one's room. -/
def meltLeft (mem : Memory) (tag : ℕ) : ℕ × Memory :=
  let left := field mem tag .splitLeft
  let mem := setField mem left .realSize (u32 (field mem left .realSize + field mem tag .realSize))
  let mem := setField mem left .splitRight (field mem tag .splitRight)
  (left, setNonNull mem (field mem tag .splitRight) .splitLeft left)

/-- `absorb_right`: this tag takes the room of the one to the right. -/
def absorbRight (h : Heap σ) (tag : ℕ) : Heap σ :=
  let right := field h.mem tag .splitRight
  let h := removeTag h right
  let mem := setField h.mem tag .realSize
    (u32 (field h.mem tag .realSize + field h.mem right .realSize))
  let mem := setField mem tag .splitRight (field mem right .splitRight)
  { h with mem := setNonNull mem (field mem right .splitRight) .splitLeft tag }

/-- The stores of `split_tag`, before `insert_tag`. -/
def carveTag (mem : Memory) (tag newTag remainder : ℕ) : Memory :=
  let mem := setField mem newTag .magic liballocMagic
  let mem := setField mem newTag .realSize remainder
  let mem := setField mem newTag .next 0
  let mem := setField mem newTag .prev 0
  let mem := setField mem newTag .splitLeft tag
  let mem := setField mem newTag .splitRight (field mem tag .splitRight)
  let mem := setNonNull mem (field mem newTag .splitRight) .splitLeft newTag
  let mem := setField mem tag .splitRight newTag
  setField mem tag .realSize
    (u32 (field mem tag .realSize + 2 ^ 32 - field mem newTag .realSize))

/-- `split_tag`, which cuts off what the block does not need. -/
def splitTag (h : Heap σ) (tag : ℕ) : Heap σ :=
  let size := field h.mem tag .size
  let remainder := u32 (field h.mem tag .realSize + 2 ^ 33 - tagSize - size)
  let newTag := u32 (tag + tagSize + size)
  insertTag { h with mem := carveTag h.mem tag newTag remainder } newTag (-1)

/-! ### Allocation -/

/-- The pages that `allocate_new_tag` asks for. -/
def pagesFor (size : ℕ) : ℕ :=
  let usage := u32 (size + tagSize)
  let pages := if usage % pageSize ≠ 0 then usage / pageSize + 1 else usage / pageSize
  if pages < pageCount then pageCount else pages

/-- The stores of `allocate_new_tag` to the tag at the beginning of its pages. -/
def newTagAt (mem : Memory) (tag size realSize : ℕ) : Memory :=
  let mem := setField mem tag .magic liballocMagic
  let mem := setField mem tag .size size
  let mem := setField mem tag .realSize realSize
  let mem := setField mem tag .index minusOne
  let mem := setField mem tag .next 0
  let mem := setField mem tag .prev 0
  let mem := setField mem tag .splitLeft 0
  setField mem tag .splitRight 0

/-- `allocate_new_tag`, with `0` for null. -/
def allocateNewTag (ps : PageSupplier σ) (h : Heap σ) (size : ℕ) : ℕ × Heap σ :=
  let pages := pagesFor size
  match ps.alloc h.pages pages with
  | (tag, supply) =>
      if tag = 0 then (0, { h with pages := supply })
      else
        (tag, { h with mem := newTagAt h.mem tag size (u32 (pages * pageSize)), pages := supply })

/-- The part of `malloc` that begins when the library is used for the first time. -/
def startUp (h : Heap σ) : Heap σ :=
  if h.initialized then h
  else { h with freePages := fun _ => 0, completePages := fun _ => 0, initialized := true }

/-- Whether a free block is big enough. -/
def fitsTag (mem : Memory) (size tag : ℕ) : Bool :=
  decide (u32 (size + tagSize) ≤ u32 (field mem tag .realSize + 2 ^ 32 - tagSize))

/-- `(tag->split_left == NULL) && (tag->split_right == NULL)`. -/
def isWhole (mem : Memory) (tag : ℕ) : Bool :=
  decide (field mem tag .splitLeft = 0 ∧ field mem tag .splitRight = 0)

/-- A tag that was found is taken off its list. -/
def takeTag (h : Heap σ) (tag index : ℕ) : Heap σ :=
  let h := removeTag h tag
  if isWhole h.mem tag then
    { h with
      completePages := Function.update h.completePages index (h.completePages index - 1) }
  else h

/-- The end of `malloc`: the size is set, and what is left over is split off. -/
def finishTag (h : Heap σ) (tag size : ℕ) : ℕ × Heap σ :=
  let h := { h with mem := setField h.mem tag .size size }
  let remainder := u32 (field h.mem tag .realSize + 2 ^ 33 - size - tagSize * 2)
  let h :=
    if 0 < remainder ∧ remainder < 2 ^ 31 then
      if 0 ≤ getexp remainder then splitTag h tag else h
    else h
  (u32 (tag + tagSize), h)

/-- `malloc`, with `0` for null; `fuel` bounds the steps of the search. -/
def malloc (ps : PageSupplier σ) (fuel : ℕ) (h : Heap σ) (size : ℕ) : Option (ℕ × Heap σ) :=
  let h := startUp h
  let index := listIndex size
  (LinkedList.walk (fun tag => field h.mem tag .next) 0 (fitsTag h.mem size) fuel
      (h.freePages index)).map fun tag =>
    if tag = 0 then
      match allocateNewTag ps h size with
      | (tag, h) => if tag = 0 then (0, h) else finishTag h tag size
    else finishTag (takeTag h tag index) tag size

/-! ### Release -/

/-- The loop of `free` that melts the tag into free ones to its left. -/
def meltLoop : ℕ → Heap σ → ℕ → Option (ℕ × Heap σ)
  | 0, _, _ => none
  | n + 1, h, tag =>
      let left := field h.mem tag .splitLeft
      if left ≠ 0 ∧ field h.mem left .index < 2 ^ 31 then
        match meltLeft h.mem tag with
        | (tag, mem) => meltLoop n (removeTag { h with mem := mem } tag) tag
      else some (tag, h)

/-- The loop of `free` that absorbs free tags to the right. -/
def absorbLoop : ℕ → Heap σ → ℕ → Option (Heap σ)
  | 0, _, _ => none
  | n + 1, h, tag =>
      let right := field h.mem tag .splitRight
      if right ≠ 0 ∧ field h.mem right .index < 2 ^ 31 then absorbLoop n (absorbRight h tag) tag
      else some h

/-- The pages that `free` gives back for a whole run. -/
def pagesOf (realSize : ℕ) : ℕ :=
  let pages := if realSize % pageSize ≠ 0 then realSize / pageSize + 1 else realSize / pageSize
  if pages < pageCount then pageCount else pages

/-- The end of `free`: the tag goes back on a list, or its pages to the supplier. -/
def returnTag (ps : PageSupplier σ) (h : Heap σ) (tag : ℕ) : Heap σ :=
  let index := listIndex (u32 (field h.mem tag .realSize + 2 ^ 32 - tagSize))
  if isWhole h.mem tag then
    if h.completePages index = maxComplete then
      { h with pages := ps.free h.pages tag (pagesOf (field h.mem tag .realSize)) }
    else
      insertTag
        { h with
          completePages := Function.update h.completePages index (h.completePages index + 1) }
        tag index
  else insertTag h tag index

def free (ps : PageSupplier σ) (fuel : ℕ) (h : Heap σ) (ptr : ℕ) : Option (Heap σ) :=
  if ptr = 0 then some h
  else
    let tag := u32 (ptr + 2 ^ 32 - tagSize)
    if field h.mem tag .magic ≠ liballocMagic then some h
    else do
      let (tag, h) ← meltLoop fuel h tag
      let h ← absorbLoop fuel h tag
      return returnTag ps h tag

/-! ### `calloc` and `realloc` -/

/-- `liballoc_memset`, with `n` bytes to go from number `i` on. -/
def liballocMemset (s : ℕ) (c : UInt8) : ℕ → ℕ → Memory → Memory
  | 0, _, m => m
  | n + 1, i, m => liballocMemset s c n (i + 1) (Function.update m (s + i) c)

/-- The second loop of `liballoc_memcpy`. -/
def copyBytes : ℕ → ℕ → ℕ → Memory → Memory
  | 0, _, _, m => m
  | n + 1, dest, src, m => copyBytes n (dest + 1) (src + 1) (Function.update m dest (m src))

/-- `liballoc_memcpy`, whose first loop copies words. -/
def liballocMemcpy (n dest src : ℕ) (m : Memory) : Memory :=
  if n < 4 then copyBytes n dest src m
  else liballocMemcpy (n - 4) (dest + 4) (src + 4) (Records.putWord m dest (Records.word m src))
termination_by n

def calloc (ps : PageSupplier σ) (fuel : ℕ) (h : Heap σ) (nobj size : ℕ) :
    Option (ℕ × Heap σ) :=
  let realSize := u32 (nobj * size)
  (malloc ps fuel h realSize).map fun (p, h) =>
    (p, { h with mem := liballocMemset p 0 realSize 0 h.mem })

def realloc (ps : PageSupplier σ) (fuel : ℕ) (h : Heap σ) (p size : ℕ) : Option (ℕ × Heap σ) :=
  if size = 0 then (free ps fuel h p).map fun h => (0, h)
  else if p = 0 then malloc ps fuel h size
  else do
    let tag := u32 (p + 2 ^ 32 - tagSize)
    let tagged := field h.mem tag .size
    let realSize := if size < tagged then size else tagged
    let (ptr, h) ← malloc ps fuel h size
    let h ← free ps fuel { h with mem := liballocMemcpy realSize ptr p h.mem } p
    return (ptr, h)

end Liballoc

end HalOS
