import Mathlib.Data.Nat.Basic
import Mathlib.Tactic.Common
import Mathlib.Tactic.Push

/-!
# Two-Level Page Trees in a Flat Store

A page tree lives in a store of words. A directory of `slots` entries sits at one word
index; a present entry names the word index of a table of `slots` entries, and a present
entry of that table is a leaf. Which words are present, and where an entry points, is the
business of a `Format`; tables and directories are aligned to their own size.

Two directory entries may name the same table. Whether they may is a relation on directory
indices, given as a parameter.

## Main results

* `walk_write_leaf`: after a leaf is written, a walk finds the new leaf where its directory
  entry names the written table at the written slot, and what it found before elsewhere.
* `walk_fill`: filling a frame that is no table changes no walk.
* `walk_install`: a fresh table of absent entries changes no walk.
* `Separated.write_leaf`, `Separated.install`: both writes keep the tables apart.
-/

namespace PageTree

universe u

variable {W : Type u}

/-- How a word is read as an entry of a directory or of a table. -/
structure Format (W : Type u) where
  slots : ℕ
  present : W → Bool
  frame : W → ℕ
  /-- Entries point at aligned tables. -/
  dvd_frame : ∀ e, slots ∣ frame e

/-- The store with word `a` set to `w`. -/
def write (mem : ℕ → W) (a : ℕ) (w : W) : ℕ → W := fun x => if x = a then w else mem x

/-- The store with the `n` words from `a` on set to `f 0, …, f (n - 1)`. -/
def fill (mem : ℕ → W) (a n : ℕ) (f : ℕ → W) : ℕ → W :=
  fun x => if a ≤ x ∧ x < a + n then f (x - a) else mem x

/-- `fill` is the loop that writes its words one by one. -/
theorem fill_succ (mem : ℕ → W) (a n : ℕ) (f : ℕ → W) :
    fill mem a (n + 1) f = write (fill mem a n f) (a + n) (f n) := by
  funext x
  simp only [fill, write]
  by_cases hx : x = a + n
  · subst hx
    rw [if_pos (by omega), if_pos rfl, Nat.add_sub_cancel_left]
  · rw [if_neg hx]
    by_cases hin : a ≤ x ∧ x < a + n
    · rw [if_pos hin, if_pos (by omega)]
    · rw [if_neg hin, if_neg (by omega)]

variable (F : Format W)

/-- The leaf found at slot `j` of the table that directory entry `i` names. -/
def walk (mem : ℕ → W) (dir i j : ℕ) : Option W :=
  if F.present (mem (dir + i)) then
    let leaf := mem (F.frame (mem (dir + i)) + j)
    if F.present leaf then some leaf else none
  else none

/-- No table is the directory, and two entries that name one table are related by `twin`. -/
structure Separated (mem : ℕ → W) (dir : ℕ) (twin : ℕ → ℕ → Prop) : Prop where
  dvd_dir : F.slots ∣ dir
  apart : ∀ i < F.slots, F.present (mem (dir + i)) = true → F.frame (mem (dir + i)) ≠ dir
  distinct : ∀ i < F.slots, ∀ k < F.slots,
    F.present (mem (dir + i)) = true → F.present (mem (dir + k)) = true →
      F.frame (mem (dir + i)) = F.frame (mem (dir + k)) → i = k ∨ twin i k

variable {F} {mem : ℕ → W} {dir : ℕ} {twin : ℕ → ℕ → Prop}

/-- Slots of aligned tables coincide only when table and slot do. -/
theorem slot_inj {n f g j k : ℕ} (hf : n ∣ f) (hg : n ∣ g) (hj : j < n) (hk : k < n)
    (h : f + j = g + k) : f = g ∧ j = k := by
  obtain ⟨a, rfl⟩ := hf
  obtain ⟨b, rfl⟩ := hg
  have hab : a = b := by
    have := congrArg (· / n) h
    simpa [Nat.mul_add_div (show 0 < n by omega), Nat.div_eq_of_lt hj, Nat.div_eq_of_lt hk]
      using this
  subst hab
  exact ⟨rfl, by omega⟩

/-! ### Writing a leaf -/

section Leaf

variable {i₀ j₀ : ℕ} {w : W}

/-- Writing into a table leaves the directory alone. -/
theorem write_leaf_dir (hdir : F.slots ∣ dir) (hne : F.frame (mem (dir + i₀)) ≠ dir)
    (hj₀ : j₀ < F.slots) {i : ℕ} (hi : i < F.slots) :
    write mem (F.frame (mem (dir + i₀)) + j₀) w (dir + i) = mem (dir + i) := by
  refine if_neg fun heq => hne ?_
  exact (slot_inj hdir (F.dvd_frame _) hi hj₀ heq).1.symm

theorem Separated.write_leaf_dir (h : Separated F mem dir twin) (hi₀ : i₀ < F.slots)
    (hp : F.present (mem (dir + i₀)) = true) (hj₀ : j₀ < F.slots) {i : ℕ} (hi : i < F.slots) :
    write mem (F.frame (mem (dir + i₀)) + j₀) w (dir + i) = mem (dir + i) :=
  PageTree.write_leaf_dir h.dvd_dir (h.apart i₀ hi₀ hp) hj₀ hi

theorem Separated.write_leaf (h : Separated F mem dir twin) (hi₀ : i₀ < F.slots)
    (hp : F.present (mem (dir + i₀)) = true) (hj₀ : j₀ < F.slots) :
    Separated F (write mem (F.frame (mem (dir + i₀)) + j₀) w) dir twin where
  dvd_dir := h.dvd_dir
  apart := fun i hi hpi => by
    rw [h.write_leaf_dir hi₀ hp hj₀ hi] at hpi ⊢
    exact h.apart i hi hpi
  distinct := fun i hi k hk hpi hpk heq => by
    rw [h.write_leaf_dir hi₀ hp hj₀ hi] at hpi heq
    rw [h.write_leaf_dir hi₀ hp hj₀ hk] at hpk heq
    exact h.distinct i hi k hk hpi hpk heq

/-- **Read over write.** -/
theorem walk_write_leaf (hdir : F.slots ∣ dir) (hne : F.frame (mem (dir + i₀)) ≠ dir)
    (hj₀ : j₀ < F.slots) {i j : ℕ} (hi : i < F.slots) (hj : j < F.slots) :
    walk F (write mem (F.frame (mem (dir + i₀)) + j₀) w) dir i j =
      if F.present (mem (dir + i)) = true ∧
          F.frame (mem (dir + i)) = F.frame (mem (dir + i₀)) ∧ j = j₀ then
        (if F.present w then some w else none)
      else walk F mem dir i j := by
  unfold walk
  rw [write_leaf_dir hdir hne hj₀ hi]
  cases hpi : F.present (mem (dir + i)) with
  | false => simp
  | true =>
      by_cases heq : F.frame (mem (dir + i)) = F.frame (mem (dir + i₀)) ∧ j = j₀
      · simp [heq.1, heq.2, write]
      · have hne : F.frame (mem (dir + i)) + j ≠ F.frame (mem (dir + i₀)) + j₀ := fun ha =>
          heq (slot_inj (F.dvd_frame _) (F.dvd_frame _) hj hj₀ ha)
        simp [heq, write, hne]

end Leaf

/-! ### Filling a frame -/

section Fill

/-- The table at word `t` is neither the directory nor a table in use. -/
def Fresh (F : Format W) (mem : ℕ → W) (dir t : ℕ) : Prop :=
  t ≠ dir ∧ ∀ i < F.slots, F.present (mem (dir + i)) = true → F.frame (mem (dir + i)) ≠ t

theorem fill_of_ne {t f j : ℕ} (ht : F.slots ∣ t) (hf : F.slots ∣ f) (hne : f ≠ t)
    (hj : j < F.slots) (v : ℕ → W) : fill mem t F.slots v (f + j) = mem (f + j) := by
  refine if_neg fun hin => hne ?_
  have hsum : f + j = t + (f + j - t) := by omega
  exact (slot_inj hf ht hj (by omega) hsum).1

variable {t : ℕ}

theorem fill_dir (h : Separated F mem dir twin) (ht : F.slots ∣ t) (hfresh : Fresh F mem dir t)
    (v : ℕ → W) {i : ℕ} (hi : i < F.slots) : fill mem t F.slots v (dir + i) = mem (dir + i) :=
  fill_of_ne ht h.dvd_dir (Ne.symm hfresh.1) hi v

theorem Separated.fill (h : Separated F mem dir twin) (ht : F.slots ∣ t)
    (hfresh : Fresh F mem dir t) (v : ℕ → W) :
    Separated F (PageTree.fill mem t F.slots v) dir twin where
  dvd_dir := h.dvd_dir
  apart := fun i hi hpi => by
    rw [fill_dir h ht hfresh v hi] at hpi ⊢
    exact h.apart i hi hpi
  distinct := fun i hi k hk hpi hpk heq => by
    rw [fill_dir h ht hfresh v hi] at hpi heq
    rw [fill_dir h ht hfresh v hk] at hpk heq
    exact h.distinct i hi k hk hpi hpk heq

/-- **Filling a frame that is no table changes no walk.** -/
theorem walk_fill (h : Separated F mem dir twin) (ht : F.slots ∣ t) (hfresh : Fresh F mem dir t)
    (v : ℕ → W) {i j : ℕ} (hi : i < F.slots) (hj : j < F.slots) :
    walk F (PageTree.fill mem t F.slots v) dir i j = walk F mem dir i j := by
  unfold walk
  rw [fill_dir h ht hfresh v hi]
  cases hpi : F.present (mem (dir + i)) with
  | false => rfl
  | true => simp only [if_true, fill_of_ne ht (F.dvd_frame _) (hfresh.2 i hi hpi) hj]

end Fill

/-! ### Installing a table -/

section Install

variable {i₀ : ℕ} {e zero : W}

/-- The store after the table that `e` names is filled with `zero` and `e` is written to
directory entry `i`. -/
def install (F : Format W) (mem : ℕ → W) (dir i : ℕ) (e zero : W) : ℕ → W :=
  write (fill mem (F.frame e) F.slots fun _ => zero) (dir + i) e

theorem install_dir (h : Separated F mem dir twin) (hfresh : Fresh F mem dir (F.frame e))
    {i : ℕ} (hi : i < F.slots) :
    install F mem dir i₀ e zero (dir + i) = if i = i₀ then e else mem (dir + i) := by
  unfold install write
  by_cases hii : i = i₀
  · rw [if_pos (by omega), if_pos hii]
  · rw [if_neg (by omega), if_neg hii,
      fill_of_ne (F.dvd_frame e) h.dvd_dir (Ne.symm hfresh.1) hi]

theorem Separated.install (h : Separated F mem dir twin)
    (hfresh : Fresh F mem dir (F.frame e)) :
    Separated F (install F mem dir i₀ e zero) dir twin where
  dvd_dir := h.dvd_dir
  apart := fun i hi hpi => by
    rw [install_dir h hfresh hi] at hpi ⊢
    split_ifs at hpi ⊢
    · exact hfresh.1
    · exact h.apart i hi hpi
  distinct := fun i hi k hk hpi hpk heq => by
    rw [install_dir h hfresh hi] at hpi heq
    rw [install_dir h hfresh hk] at hpk heq
    by_cases hi' : i = i₀
    · by_cases hk' : k = i₀
      · exact Or.inl (hi'.trans hk'.symm)
      · rw [if_neg hk'] at hpk
        rw [if_pos hi', if_neg hk'] at heq
        exact absurd heq.symm (hfresh.2 k hk hpk)
    · rw [if_neg hi'] at hpi heq
      by_cases hk' : k = i₀
      · rw [if_pos hk'] at heq
        exact absurd heq (hfresh.2 i hi hpi)
      · rw [if_neg hk'] at hpk heq
        exact h.distinct i hi k hk hpi hpk heq

/-- **A fresh table changes no walk**: below its own entry there was nothing before, and
there is nothing in it. -/
theorem walk_install (h : Separated F mem dir twin) (hi₀ : i₀ < F.slots)
    (habsent : F.present (mem (dir + i₀)) = false) (hzero : F.present zero = false)
    (hfresh : Fresh F mem dir (F.frame e)) {i j : ℕ} (hi : i < F.slots) (hj : j < F.slots) :
    walk F (PageTree.install F mem dir i₀ e zero) dir i j = walk F mem dir i j := by
  have hslot : ∀ f, F.slots ∣ f → f ≠ dir →
      PageTree.install F mem dir i₀ e zero (f + j) =
        if f = F.frame e then zero else mem (f + j) := by
    intro f hf hdir
    have hne : f + j ≠ dir + i₀ := fun ha => hdir (slot_inj hf h.dvd_dir hj hi₀ ha).1
    unfold PageTree.install write
    rw [if_neg hne]
    by_cases hfe : f = F.frame e
    · subst hfe
      rw [if_pos rfl]
      exact if_pos ⟨by omega, by omega⟩
    · rw [if_neg hfe, fill_of_ne (F.dvd_frame e) hf hfe hj]
  unfold walk
  rw [install_dir h hfresh hi]
  by_cases hii : i = i₀
  · subst hii
    simp only [if_true, habsent]
    rw [hslot _ (F.dvd_frame e) hfresh.1, if_pos rfl, hzero]
    simp
  · rw [if_neg hii]
    cases hpi : F.present (mem (dir + i)) with
    | false => rfl
    | true => simp only [if_true, hslot _ (F.dvd_frame _) (h.apart i hi hpi),
        if_neg (hfresh.2 i hi hpi)]

end Install

end PageTree
