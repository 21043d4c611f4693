import HalOS.Drivers.Console
import HalOS.Lib.CString
import HalOS.Lib.InPlace

/-!
# memmove

`memmove` of `libs/string.c`, which copies from the beginning on or from the end back, and what
becomes of it in `console_scroll`. The two intervals lie in the memory, so that an address is a
number.

## Main results

* `memmove_apply`: what `memmove` leaves at an address.
* `HoldsPixels.memmove`: the rows that `console_scroll` moves.
-/

namespace HalOS

open CString (Memory)
open InPlace (block moveAll)

/-- The first loop of `memmove`, with `n` bytes to go from number `i` on. -/
def copyUp (dest src : ℕ) : ℕ → ℕ → Memory → Memory
  | 0, _, m => m
  | n + 1, i, m => copyUp dest src n (i + 1) (Function.update m (dest + i) (m (src + i)))

/-- The second loop of `memmove`, with `i` bytes to go. -/
def copyDown (dest src : ℕ) : ℕ → Memory → Memory
  | 0, m => m
  | i + 1, m => copyDown dest src i (Function.update m (dest + i) (m (src + i)))

/-- `memmove`, which returns its first argument. -/
def memmove (m : Memory) (dest src n : ℕ) : ℕ × Memory :=
  if dest < src then (dest, copyUp dest src n 0 m) else (dest, copyDown dest src n m)

/-! ### The two directions -/

section Directions

variable (dest src : ℕ)

theorem copyUp_eq (n i : ℕ) (m : Memory) :
    copyUp dest src n i m = moveAll (block (dest + i) (src + i) n) m := by
  induction n generalizing i m with
  | zero => rfl
  | succ n ih =>
      have hblock : block (dest + i) (src + i) (n + 1) =
          (dest + i, src + i) :: block (dest + (i + 1)) (src + (i + 1)) n := by
        rw [block, List.range_succ_eq_map, List.map_cons, List.map_map, block]
        refine congrArg _ (List.map_congr_left fun j _ => ?_)
        exact Prod.ext (by dsimp only [Function.comp]; omega) (by dsimp only [Function.comp]; omega)
      rw [copyUp, ih, hblock, InPlace.moveAll_cons]

theorem copyDown_eq (n : ℕ) (m : Memory) :
    copyDown dest src n m = moveAll (block dest src n).reverse m := by
  induction n generalizing m with
  | zero => rfl
  | succ n ih =>
      have hblock : (block dest src (n + 1)).reverse =
          (dest + n, src + n) :: (block dest src n).reverse := by
        rw [block, List.range_succ, List.map_append, List.reverse_append, block]
        rfl
      rw [copyDown, ih, hblock, InPlace.moveAll_cons]

end Directions

/-- **memmove** copies the bytes as they were, wherever the two intervals lie, and changes no
others. -/
theorem memmove_apply (m : Memory) (dest src n p : ℕ) :
    (memmove m dest src n).2 p =
      if dest ≤ p ∧ p < dest + n then m (src + (p - dest)) else m p := by
  rw [memmove]
  by_cases hlt : dest < src
  · rw [if_pos hlt]
    dsimp only
    rw [copyUp_eq]
    exact InPlace.moveAll_block (InPlace.ordered_block (Nat.le_of_lt hlt) n) (fun _ => Iff.rfl) m p
  · rw [if_neg hlt]
    dsimp only
    rw [copyDown_eq]
    exact InPlace.moveAll_block (InPlace.ordered_reverse_block (Nat.le_of_not_lt hlt) n)
      (fun _ => List.mem_reverse) m p

/-! ### Scrolling -/

/-- Byte `k` of a pixel. -/
def pixelByte (color : UInt32) (k : ℕ) : UInt8 := UInt8.ofNat (color.toNat / 2 ^ (8 * k))

/-- The back buffer, four bytes for each pixel, at an address. -/
def HoldsPixels (m : Memory) (base : ℕ) (back : ℕ → UInt32) : Prop :=
  ∀ i, ∀ k < 4, m (base + (4 * i + k)) = pixelByte (back i) k

/-- The call of `memmove` in `console_scroll`: where it stays in the back buffer, it moves the
pixels. -/
theorem HoldsPixels.memmove {m : Memory} {base start n : ℕ} {back back' : ℕ → UInt32} {d : Display}
    (h : HoldsPixels m base back) (hmove : d.movePixels back start n = .ok back') :
    HoldsPixels (memmove m base (base + 4 * start) (4 * n)).2 base back' := by
  rw [Display.movePixels] at hmove
  split_ifs at hmove
  obtain rfl := Except.ok.inj hmove
  intro i k hk
  rw [memmove_apply]
  dsimp only
  by_cases hi : i < n
  · have hsrc : base + 4 * start + (base + (4 * i + k) - base) = base + (4 * (start + i) + k) := by
      omega
    rw [if_pos (by omega), if_pos hi, hsrc, h _ k hk]
  · rw [if_neg (by omega), if_neg hi, h i k hk]

end HalOS
