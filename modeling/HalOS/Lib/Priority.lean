import Mathlib.Data.Finset.Max

/-!
# Registers Cleared in the Order of Priority

A register is a finite set in a linear order, the least element first. `clearFirst` takes out its
first element without being told which one that is. Whoever means to take out an element of its
own takes out exactly that one if it is the first.

## Main results

* `sdiff_clearFirst_subset_singleton_iff`: `clearFirst` takes out this element.
* `sdiff_clearFirst_subset_empty_iff`: `clearFirst` takes out nothing.
-/

namespace Priority

universe u

variable {α : Type u} [LinearOrder α] {a : α} {s : Finset α}

/-- The set without its first element, if it has one. -/
def clearFirst (s : Finset α) : Finset α :=
  if h : s.Nonempty then s.erase (s.min' h) else s

theorem clearFirst_subset : clearFirst s ⊆ s := by
  rw [clearFirst]
  split
  · exact Finset.erase_subset _ _
  · exact Finset.Subset.refl s

/-- The element ahead of all others is the one that is taken out. -/
theorem clearFirst_eq_erase (ha : a ∈ s) (hfirst : ∀ b ∈ s, a ≤ b) :
    clearFirst s = s.erase a := by
  have hne : s.Nonempty := ⟨a, ha⟩
  have hmin : s.min' hne = a := le_antisymm (s.min'_le a ha) (hfirst _ (s.min'_mem hne))
  rw [clearFirst, dif_pos hne, hmin]

/-- The first element is gone. -/
theorem min'_mem_sdiff_clearFirst (hne : s.Nonempty) : s.min' hne ∈ s \ clearFirst s := by
  rw [clearFirst, dif_pos hne]
  exact Finset.mem_sdiff.mpr ⟨s.min'_mem hne, Finset.notMem_erase _ _⟩

theorem sdiff_clearFirst_subset_empty_iff : s \ clearFirst s ⊆ ∅ ↔ s = ∅ := by
  constructor
  · intro h
    by_contra hs
    have hne := Finset.nonempty_iff_ne_empty.mpr hs
    exact Finset.notMem_empty _ (h (min'_mem_sdiff_clearFirst hne))
  · rintro rfl
    exact Finset.sdiff_subset

theorem sdiff_clearFirst_subset_singleton_iff (ha : a ∈ s) :
    s \ clearFirst s ⊆ {a} ↔ ∀ b ∈ s, a ≤ b := by
  constructor
  · intro h b hb
    have hmin := Finset.mem_singleton.mp (h (min'_mem_sdiff_clearFirst ⟨a, ha⟩))
    exact hmin ▸ s.min'_le b hb
  · intro hfirst b hb
    obtain ⟨hmem, hgone⟩ := Finset.mem_sdiff.mp hb
    rw [clearFirst_eq_erase ha hfirst] at hgone
    by_contra hne
    exact hgone (Finset.mem_erase.mpr ⟨fun heq => hne (Finset.mem_singleton.mpr heq), hmem⟩)

/-- An element is gone if nothing else is taken out. -/
theorem notMem_clearFirst (ha : a ∈ s) (h : s \ clearFirst s ⊆ {a}) : a ∉ clearFirst s := by
  rw [clearFirst_eq_erase ha ((sdiff_clearFirst_subset_singleton_iff ha).mp h)]
  exact Finset.notMem_erase a s

end Priority
