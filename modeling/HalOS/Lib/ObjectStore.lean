import HalOS.Lib.CString

/-!
# Object Stores

What an allocator of memory is for: it keeps a store of blocks, each at an address and with its
bytes, that no operation on one of them disturbs. A memory holds a store if the bytes of each block
are where the block is.

## Main results

* `block_append`, `block_update`: the bytes of a block.
* `Store.write_apply`: a byte stored.
-/

namespace ObjectStore

open CString (Memory)

/-- The blocks by their addresses. -/
abbrev Store := ℕ → Option (List UInt8)

/-- `n` bytes of a memory. -/
def block (m : Memory) (p n : ℕ) : List UInt8 := (List.range n).map fun i => m (p + i)

section Blocks

variable {m m' : Memory} {p n : ℕ}

@[simp] theorem length_block (m : Memory) (p n : ℕ) : (block m p n).length = n := by simp [block]

@[simp] theorem getElem_block (m : Memory) (p n i : ℕ) (h : i < (block m p n).length) :
    (block m p n)[i] = m (p + i) := by simp [block]

theorem block_congr (h : ∀ a, p ≤ a → a < p + n → m' a = m a) : block m' p n = block m p n :=
  List.map_congr_left fun i hi => h _ (by omega) (by have := List.mem_range.mp hi; omega)

theorem block_append (m : Memory) (p k l : ℕ) :
    block m p (k + l) = block m p k ++ block m (p + k) l := by
  simp [block, List.range_add, Nat.add_assoc, Function.comp_def]

theorem take_block (m : Memory) (p n k : ℕ) : (block m p n).take k = block m p (min k n) := by
  refine List.ext_getElem (by simp) fun i h1 h2 => ?_
  simp

/-- A byte stored in a block, or outside it. -/
theorem block_update (m : Memory) (p n a : ℕ) (b : UInt8) :
    block (Function.update m a b) p n =
      if p ≤ a then (block m p n).set (a - p) b else block m p n := by
  split_ifs with hle
  · refine List.ext_getElem (by simp) fun i h1 h2 => ?_
    rw [getElem_block, List.getElem_set, Function.update_apply]
    split_ifs with h3 h4 h4
    · rfl
    · omega
    · omega
    · rw [getElem_block]
  · exact block_congr fun x hx _ => Function.update_of_ne (by omega) _ _

end Blocks

/-- A byte is stored at an address: the block that has it changes. -/
def Store.write (t : Store) (a : ℕ) (b : UInt8) : Store := fun p =>
  (t p).map fun bytes => if p ≤ a then bytes.set (a - p) b else bytes

/-- The address of a byte of some block. -/
def Store.Owns (t : Store) (a : ℕ) : Prop :=
  ∃ p bytes, t p = some bytes ∧ p ≤ a ∧ a < p + bytes.length

/-- No two blocks share a byte. -/
def Store.Apart (t : Store) : Prop := ∀ p q bytes bytes', p < q → t p = some bytes →
  t q = some bytes' → p + bytes.length ≤ q

/-- The memory holds the blocks of a store. -/
def Holds (m : Memory) (t : Store) : Prop :=
  ∀ p bytes, t p = some bytes → block m p bytes.length = bytes

end ObjectStore
