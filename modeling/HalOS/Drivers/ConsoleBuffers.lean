import HalOS.Drivers.Console

/-!
# Back Buffer and Front Buffer

What is drawn and not in the front buffer yet lies in the dirty rectangle. `console_ungetchar`
clears more than it marks, a column and a row of pixels, but behind the last character and below
its line there is nothing to be cleared.

## Main results

* `Console.Valid.step`: what each operation keeps.
* `keepsDrawn_consoleRun`: nothing that is drawn is lost, as long as scrolling stays on the screen.
-/

namespace HalOS

/-! ### Pixels -/

namespace Display

variable (d : Display)

theorem width_le_pitchPixels : d.width ≤ d.pitchPixels := by
  have := d.width_le
  rw [pitchPixels]
  omega

/-- The pixels of the screen are in the buffer. -/
theorem height_mul_le : d.height * d.pitchPixels ≤ d.height * d.pitch / 4 :=
  Nat.mul_div_le_mul_div_assoc _ _ _

/-- The screen is small. -/
theorem size_lt_pixels : d.height * d.pitchPixels < 2 ^ 30 := by
  have := d.height_mul_le
  have := d.size_lt
  omega

variable {d} {x y : ℕ}

theorem index_lt (hx : x < d.width) {n : ℕ} : d.index x y < n * d.pitchPixels ↔ y < n := by
  have hle := d.width_le_pitchPixels
  rw [index]
  constructor
  · intro h
    by_contra hn
    have := Nat.mul_le_mul_right d.pitchPixels (Nat.not_lt.mp hn)
    omega
  · intro h
    have := Nat.mul_le_mul_right d.pitchPixels (Nat.succ_le_of_lt h)
    rw [Nat.succ_mul] at this
    omega

/-- The pixels of a row from one column to another. -/
theorem index_mem_row (hx : x < d.width) {x1 x2 j : ℕ} (hle : x1 ≤ x2) (h2 : x2 ≤ d.width) :
    d.index x1 j ≤ d.index x y ∧ d.index x y < d.index x1 j + (x2 - x1) ↔
      y = j ∧ x1 ≤ x ∧ x < x2 := by
  have hpitch := d.width_le_pitchPixels
  constructor
  · rintro ⟨hlow, hhigh⟩
    have hfirst : ¬ y < j := by
      rw [← index_lt hx]
      rw [index] at hlow
      omega
    have hlast : y < j + 1 := by
      rw [← index_lt hx, Nat.succ_mul]
      rw [index] at hhigh
      dsimp only [index] at hhigh ⊢
      omega
    obtain rfl : y = j := by omega
    rw [index, index] at hlow hhigh
    omega
  · rintro ⟨rfl, hlow, hhigh⟩
    rw [index, index]
    omega

theorem index_inj (hx : x < d.width) {i j : ℕ} (hi : i < d.width) :
    d.index x y = d.index i j ↔ x = i ∧ y = j := by
  have h := index_mem_row (y := y) (j := j) hx (Nat.le_succ i) (Nat.succ_le_of_lt hi)
  constructor
  · intro heq
    obtain ⟨hy, hlow, hhigh⟩ := h.mp ⟨by omega, by omega⟩
    exact ⟨by omega, hy⟩
  · rintro ⟨rfl, rfl⟩
    rfl

theorem putpixel_apply (hx : x < d.width) (hy : y < d.height) (back : ℕ → UInt32) (i j : ℕ)
    (color : UInt32) :
    d.putpixel back i j color (d.index x y) =
      if x = i ∧ y = j then color else back (d.index x y) := by
  rw [putpixel]
  by_cases hon : i < d.width ∧ j < d.height
  · rw [if_pos hon, Function.update_apply]
    exact if_congr (index_inj hx hon.1) rfl rfl
  · rw [if_neg hon, if_neg]
    rintro ⟨rfl, rfl⟩
    exact hon ⟨hx, hy⟩

/-- A row of a rectangle. -/
theorem fillRow_apply (hx : x < d.width) (hy : y < d.height) (back : ℕ → UInt32)
    (i j width : ℕ) (color : UInt32) :
    (List.range width).foldl (fun back k => d.putpixel back (i + k) j color) back (d.index x y) =
      if y = j ∧ i ≤ x ∧ x < i + width then color else back (d.index x y) := by
  induction width with
  | zero => exact (if_neg (by omega)).symm
  | succ width ih =>
      rw [List.range_succ, List.foldl_append, List.foldl_cons, List.foldl_nil,
        putpixel_apply hx hy, ih]
      split_ifs <;> first | rfl | omega

/-- A rectangle of one color. -/
theorem fillRect_apply (hx : x < d.width) (hy : y < d.height) (back : ℕ → UInt32)
    (i j width height : ℕ) (color : UInt32) :
    d.fillRect back i j width height color (d.index x y) =
      if (i ≤ x ∧ x < i + width) ∧ j ≤ y ∧ y < j + height then color
      else back (d.index x y) := by
  rw [fillRect]
  induction height with
  | zero => exact (if_neg (by omega)).symm
  | succ height ih =>
      rw [List.range_succ, List.foldl_append, List.foldl_cons, List.foldl_nil,
        fillRow_apply hx hy, ih]
      split_ifs <;> first | rfl | omega

/-- Steps that leave a pixel leave it together. -/
theorem foldl_apply {l : List ℕ} {f : (ℕ → UInt32) → ℕ → ℕ → UInt32} {i : ℕ}
    (h : ∀ a ∈ l, ∀ back, f back a i = back i) (back : ℕ → UInt32) : l.foldl f back i = back i := by
  induction l generalizing back with
  | nil => rfl
  | cons a l ih =>
      rw [List.foldl_cons, ih fun b hb => h b (List.mem_cons_of_mem _ hb),
        h a List.mem_cons_self]

/-- The bits of a glyph are drawn in their row of the cell. -/
theorem drawBits_apply (hx : x < d.width) (hy : y < d.height) {i j : ℕ}
    (hout : ¬ (y = j ∧ i ≤ x ∧ x < i + d.font.width)) (fg : UInt32) (byte : ℕ) (fontByte : UInt8)
    (n bit : ℕ) (back : ℕ → UInt32) :
    drawBits d fg i j byte fontByte n bit back (d.index x y) = back (d.index x y) := by
  induction n generalizing bit back with
  | zero => rfl
  | succ n ih =>
      rw [drawBits]
      split_ifs
      · exact ih _ _
      · rfl
      · rw [ih, putpixel_apply hx hy, if_neg (by omega)]

/-- A glyph is drawn in its cell. -/
theorem drawGlyph_apply (hx : x < d.width) (hy : y < d.height) {i j : ℕ}
    (hout : ¬ ((i ≤ x ∧ x < i + d.font.width) ∧ j ≤ y ∧ y < j + d.font.height)) (fg : UInt32)
    (c : UInt8) (back : ℕ → UInt32) :
    drawGlyph d fg i j c back (d.index x y) = back (d.index x y) := by
  rw [drawGlyph]
  refine foldl_apply (fun fontY hfontY back => ?_) back
  refine foldl_apply (fun byte _ back => ?_) back
  rw [List.mem_range] at hfontY
  dsimp only
  split_ifs
  · rfl
  · exact drawBits_apply hx hy (by omega) _ _ _ _ _ _

/-- Rows of a rectangle are copied. -/
theorem copyRows_apply (hx : x < d.width) (src dest : ℕ → UInt32) {x1 x2 : ℕ} (hle : x1 ≤ x2)
    (h2 : x2 ≤ d.width) (j n : ℕ) :
    (List.range n).foldl (fun dest k => copyPixels src dest (d.index x1 (j + k)) (x2 - x1)) dest
        (d.index x y) =
      if (x1 ≤ x ∧ x < x2) ∧ j ≤ y ∧ y < j + n then src (d.index x y) else dest (d.index x y) := by
  induction n with
  | zero => exact (if_neg (by omega)).symm
  | succ n ih =>
      rw [List.range_succ, List.foldl_append, List.foldl_cons, List.foldl_nil, copyPixels, ih,
        if_congr (index_mem_row hx hle h2) rfl rfl]
      split_ifs <;> first | rfl | omega

/-- The whole buffer is copied. -/
theorem copyPixels_all (hx : x < d.width) (hy : y < d.height) (src dest : ℕ → UInt32) :
    copyPixels src dest 0 (d.height * d.pitch / 4) (d.index x y) = src (d.index x y) := by
  have hlt : d.index x y < d.height * d.pitchPixels := (index_lt hx).mpr hy
  have hle := d.height_mul_le
  exact if_pos ⟨Nat.zero_le _, by omega⟩

/-- A scroll that stays on the screen moves the rows up. -/
theorem movePixels_rows (back : ℕ → UInt32) {rows : ℕ} (h : rows ≤ d.height) :
    ∃ back', d.movePixels back (rows * d.pitchPixels % 2 ^ 30)
        ((d.height - rows) * d.pitchPixels % 2 ^ 30) = .ok back' ∧
      ∀ x y, x < d.width → y < d.height → back' (d.index x y) =
        if y < d.height - rows then back (d.index x (y + rows)) else back (d.index x y) := by
  have hsize := d.size_lt_pixels
  have hle := d.height_mul_le
  have hsum : rows * d.pitchPixels + (d.height - rows) * d.pitchPixels =
      d.height * d.pitchPixels := by
    rw [← Nat.add_mul, Nat.add_sub_cancel' h]
  rw [Nat.mod_eq_of_lt (by omega), Nat.mod_eq_of_lt (by omega), movePixels,
    if_pos (.inr (by omega))]
  refine ⟨_, rfl, fun x y hx hy => ?_⟩
  rw [if_congr (index_lt hx) rfl rfl]
  split_ifs
  · refine congrArg back ?_
    rw [index, index, Nat.add_mul]
    omega
  · rfl

end Display

/-! ### The rectangle -/

/-- The pixel is in the rectangle. -/
def DirtyRect.Has (r : DirtyRect) (x y : ℕ) : Prop :=
  r.dirty = true ∧ (r.x1 ≤ x ∧ x < r.x2) ∧ r.y1 ≤ y ∧ y < r.y2

/-- If there is a rectangle, it is one of the screen. -/
def DirtyRect.Inside (d : Display) (r : DirtyRect) : Prop :=
  r.dirty = true → (r.x1 ≤ r.x2 ∧ r.x2 ≤ d.width) ∧ r.y1 ≤ r.y2 ∧ r.y2 ≤ d.height

/-- What is not in the front buffer lies in the rectangle, and the rectangle on the screen. -/
structure Console.Consistent (d : Display) (s : Console) : Prop where
  inside : s.rect.Inside d
  covered : ∀ x y, x < d.width → y < d.height →
    s.back (d.index x y) ≠ s.front (d.index x y) → s.rect.Has x y

/-- The two buffers show the same. -/
def Console.Synced (d : Display) (s : Console) : Prop :=
  ∀ x y, x < d.width → y < d.height → s.back (d.index x y) = s.front (d.index x y)

theorem Display.width_lt (d : Display) : d.width < 2 ^ 30 ∧ d.height < 2 ^ 30 := by
  have hsize := d.size_lt_pixels
  have hpitch := d.width_le_pitchPixels
  have hwidth : 0 < d.width :=
    Nat.lt_of_lt_of_le (by decide) (Nat.le_trans d.font_width d.one_col)
  have hheight : 0 < d.height :=
    Nat.lt_of_lt_of_le (by decide) (Nat.le_trans d.font_height d.one_row)
  have hrow : d.pitchPixels ≤ d.height * d.pitchPixels := Nat.le_mul_of_pos_left _ hheight
  have hcol : d.height ≤ d.height * d.pitchPixels :=
    Nat.le_mul_of_pos_right _ (Nat.lt_of_lt_of_le hwidth hpitch)
  omega

theorem addU32_of_lt {a b : ℕ} (h : a + b < 2 ^ 32) : addU32 a b = a + b := Nat.mod_eq_of_lt h

theorem subU32_of_le {a b : ℕ} (ha : a < 2 ^ 32) (h : b ≤ a) : subU32 a b = a - b := by
  rw [subU32]
  omega

/-- The rectangle after a part of the screen was marked. -/
theorem DirtyRect.mark_spec {d : Display} {r : DirtyRect} (hr : r.Inside d) {x y width height : ℕ}
    (hx : x + width ≤ d.width) (hy : y + height ≤ d.height) :
    (r.mark x y width height).Inside d ∧
      (∀ i j, r.Has i j → (r.mark x y width height).Has i j) ∧
      ∀ i j, (x ≤ i ∧ i < x + width) ∧ y ≤ j ∧ j < y + height →
        (r.mark x y width height).Has i j := by
  have hlt := d.width_lt
  rw [mark, addU32_of_lt (by omega), addU32_of_lt (by omega)]
  by_cases hdirty : r.dirty = true
  · rw [if_pos hdirty]
    have hin := hr hdirty
    refine ⟨fun _ => ?_, fun i j hhas => ⟨hdirty, ?_⟩, fun i j hpart => ⟨hdirty, ?_⟩⟩
    · dsimp only
      split_ifs <;> omega
    · have hhas := hhas.2
      dsimp only
      split_ifs <;> omega
    · dsimp only
      split_ifs <;> omega
  · rw [if_neg hdirty]
    exact ⟨fun _ => ⟨⟨Nat.le_add_right _ _, hx⟩, Nat.le_add_right _ _, hy⟩,
      fun _ _ hhas => absurd hhas.1 hdirty, fun _ _ hpart => ⟨rfl, hpart⟩⟩

/-- Drawing within the part of the screen that is marked then. -/
theorem Console.Consistent.draw {d : Display} {s : Console} (h : s.Consistent d)
    {x y width height : ℕ} (hx : x + width ≤ d.width) (hy : y + height ≤ d.height)
    (back : ℕ → UInt32) (hback : ∀ i j, i < d.width → j < d.height →
      ¬ ((x ≤ i ∧ i < x + width) ∧ y ≤ j ∧ j < y + height) →
        back (d.index i j) = s.back (d.index i j)) :
    (consoleMarkDirty { s with back := back } x y width height).Consistent d := by
  obtain ⟨hinside, hkeeps, hmarked⟩ := DirtyRect.mark_spec h.inside hx hy
  refine ⟨hinside, fun i j hi hj hne => ?_⟩
  by_cases hpart : (x ≤ i ∧ i < x + width) ∧ y ≤ j ∧ j < y + height
  · exact hmarked i j hpart
  · refine hkeeps i j (h.covered i j hi hj ?_)
    rwa [← hback i j hi hj hpart]

/-- Without a rectangle the buffers show the same. -/
theorem Console.Consistent.synced {d : Display} {s : Console} (h : s.Consistent d)
    (hclean : ¬ s.rect.dirty = true) : s.Synced d := by
  intro x y hx hy
  by_contra hne
  exact hclean (h.covered x y hx hy hne).1

theorem Console.Synced.consistent {d : Display} {s : Console} (h : s.Synced d)
    (hinside : s.rect.Inside d) : s.Consistent d :=
  ⟨hinside, fun x y hx hy hne => absurd (h x y hx hy) hne⟩

/-- After a flush the buffers show the same. -/
theorem Console.Consistent.flush {d : Display} {s : Console} (h : s.Consistent d) :
    (consoleFlush d s).Synced d ∧ (consoleFlush d s).Consistent d := by
  rw [consoleFlush]
  by_cases hdirty : s.rect.dirty = true
  · rw [if_pos hdirty]
    obtain ⟨⟨hle, hwidth⟩, -⟩ := h.inside hdirty
    have hlt := d.width_lt
    have hsynced : Console.Synced d { s with
        front := (List.range (s.rect.y2 - s.rect.y1)).foldl
          (fun front j => Display.copyPixels s.back front (d.index s.rect.x1 (s.rect.y1 + j))
            (subU32 s.rect.x2 s.rect.x1)) s.front
        rect := { s.rect with dirty := false } } := by
      intro x y hx hy
      dsimp only
      rw [subU32_of_le (by omega) hle, Display.copyRows_apply hx _ _ hle hwidth]
      split_ifs with hrect
      · rfl
      · by_contra hne
        have hhas := h.covered x y hx hy hne
        exact hrect ⟨hhas.2.1, hhas.2.2.1, by have := hhas.2.2; omega⟩
    exact ⟨hsynced, hsynced.consistent fun hd => by cases hd⟩
  · rw [if_neg hdirty]
    exact ⟨h.synced hdirty, h⟩

/-! ### What is kept -/

/-- The cursor is on the screen, or behind the last character of its line. Below the line there is
nothing, and with a font of the least width there is nothing behind the cursor either, as far down
as `console_ungetchar` clears. -/
structure Console.Valid (d : Display) (s : Console) : Prop extends s.Consistent d where
  cols_eq : s.cols = d.width / d.font.width
  rows_eq : s.rows = d.height / d.font.height
  cursorX_le : s.cursorX ≤ s.cols
  cursorY_lt : s.cursorY < s.rows
  below : ∀ x y, x < d.width → y < d.height → (s.cursorY + 1) * d.font.height ≤ y →
    s.back (d.index x y) = s.bg
  behind : d.font.width = fontWidth → ∀ x y, x < d.width → y < d.height →
    s.cursorX * d.font.width ≤ x → s.cursorY * d.font.height ≤ y →
      y ≤ s.cursorY * d.font.height + fontHeight → s.back (d.index x y) = s.bg

/-- The rows that a scroll moves stay on the screen, and it moves whole lines if what
`console_ungetchar` leaves of a character might come up under the cursor. -/
def ScrollFits (d : Display) (lines : Int32) : Prop :=
  d.scrollPixels lines ≤ d.height ∧
    (d.font.width = fontWidth → fontHeight + 1 < d.font.height →
      d.font.height ∣ d.scrollPixels lines)

section Kept

variable {d : Display} {s : Console}

theorem consoleFlush_fields (d : Display) (s : Console) :
    ∃ front rect, consoleFlush d s = { s with front := front, rect := rect } := by
  rw [consoleFlush]
  split_ifs
  · exact ⟨_, _, rfl⟩
  · exact ⟨_, _, rfl⟩

theorem cursorX_consoleFlush (d : Display) (s : Console) :
    (consoleFlush d s).cursorX = s.cursorX := by
  obtain ⟨front, rect, heq⟩ := consoleFlush_fields d s
  rw [heq]

theorem Console.Valid.flush (h : s.Valid d) : (consoleFlush d s).Valid d := by
  have hconsistent := h.toConsistent.flush.2
  obtain ⟨front, rect, heq⟩ := consoleFlush_fields d s
  rw [heq] at hconsistent ⊢
  exact ⟨hconsistent, h.cols_eq, h.rows_eq, h.cursorX_le, h.cursorY_lt, h.below, h.behind⟩

theorem Display.cols_pos (d : Display) : 0 < d.width / d.font.width :=
  Nat.div_pos d.one_col (Nat.lt_of_lt_of_le (by decide) d.font_width)

theorem Display.rows_pos (d : Display) : 0 < d.height / d.font.height :=
  Nat.div_pos d.one_row (Nat.lt_of_lt_of_le (by decide) d.font_height)

/-- A clear screen, whatever the buffers held. -/
theorem valid_consoleClear (hinside : s.rect.Inside d) (hcols : s.cols = d.width / d.font.width)
    (hrows : s.rows = d.height / d.font.height) : (consoleClear d s).Valid d := by
  have hrowsPos := d.rows_pos
  obtain ⟨hmark, -, hall⟩ := DirtyRect.mark_spec hinside
    (Nat.le_of_eq (Nat.zero_add d.width)) (Nat.le_of_eq (Nat.zero_add d.height))
  have hclear (x y : ℕ) (hx : x < d.width) (hy : y < d.height) :
      d.fillRect s.back 0 0 d.width d.height s.bg (d.index x y) = s.bg := by
    rw [Display.fillRect_apply hx hy, if_pos (by omega)]
  have hmarked : (consoleMarkDirty { s with
      back := d.fillRect s.back 0 0 d.width d.height s.bg
      buffer := fun i => if i < s.rows * s.cols then 0 else s.buffer i
      cursorX := 0
      cursorY := 0 } 0 0 d.width d.height).Valid d := by
    refine ⟨⟨hmark, fun x y hx hy _ => hall x y (by omega)⟩, hcols, hrows, Nat.zero_le _, ?_,
      fun x y hx hy _ => hclear x y hx hy, fun _ x y hx hy _ _ _ => hclear x y hx hy⟩
    rw [← hrows] at hrowsPos
    exact hrowsPos
  exact hmarked.flush

/-- What a scroll does that stays on the screen. -/
theorem consoleScroll_eq (s : Console) {lines : Int32} (h : d.scrollPixels lines ≤ d.height) :
    ∃ back, consoleScroll d s lines = .ok (vesaSwapBuffers d (consoleMarkDirty
        { s with back := back } 0 (d.height - d.scrollPixels lines) d.width
          (d.scrollPixels lines))) ∧
      ∀ x y, x < d.width → y < d.height → back (d.index x y) =
        if y < d.height - d.scrollPixels lines then s.back (d.index x (y + d.scrollPixels lines))
        else s.bg := by
  obtain ⟨back, hmove, hback⟩ := d.movePixels_rows s.back h
  have hlt := d.width_lt
  refine ⟨d.fillRect back 0 (d.height - d.scrollPixels lines) d.width
    (d.height - (d.height - d.scrollPixels lines)) s.bg, ?_, fun x y hx hy => ?_⟩
  · rw [consoleScroll]
    dsimp only
    rw [subU32_of_le (by omega) h, hmove]
    rfl
  · rw [Display.fillRect_apply hx hy, hback x y hx hy]
    split_ifs <;> first | rfl | omega

/-- After all pixels have been copied the buffers show the same. -/
theorem synced_vesaSwapBuffers (s : Console) : (vesaSwapBuffers d s).Synced d :=
  fun _ _ hx hy => (Display.copyPixels_all hx hy _ _).symm

theorem consistent_scroll (hinside : s.rect.Inside d) (back : ℕ → UInt32) {rows : ℕ}
    (h : rows ≤ d.height) :
    (vesaSwapBuffers d (consoleMarkDirty { s with back := back } 0 (d.height - rows) d.width
      rows)).Consistent d :=
  (synced_vesaSwapBuffers _).consistent
    (DirtyRect.mark_spec hinside (by omega) (by omega)).1

theorem Console.Valid.scroll (h : s.Valid d) {lines : Int32} (hfits : ScrollFits d lines) :
    ∃ s', consoleScroll d s lines = .ok s' ∧ s'.Valid d := by
  obtain ⟨back, hscroll, hback⟩ := consoleScroll_eq s hfits.1
  have hsucc : (s.cursorY + 1) * d.font.height = s.cursorY * d.font.height + d.font.height :=
    Nat.succ_mul _ _
  refine ⟨_, hscroll, consistent_scroll h.inside back hfits.1, h.cols_eq, h.rows_eq, h.cursorX_le,
    h.cursorY_lt, fun x y hx hy hbelow => ?_, fun hwidth x y hx hy hcol hrow hend => ?_⟩
  · refine (hback x y hx hy).trans ?_
    have hbelow : (s.cursorY + 1) * d.font.height ≤ y := hbelow
    split_ifs
    · exact h.below x _ hx (by omega) (by omega)
    · rfl
  · refine (hback x y hx hy).trans ?_
    have hrow : s.cursorY * d.font.height ≤ y := hrow
    have hend : y ≤ s.cursorY * d.font.height + fontHeight := hend
    split_ifs
    · -- what comes up is behind the cursor, or below its line
      by_cases hline : (s.cursorY + 1) * d.font.height ≤ y + d.scrollPixels lines
      · exact h.below x _ hx (by omega) hline
      refine h.behind hwidth x _ hx (by omega) hcol (by omega) ?_
      by_cases hhigh : fontHeight + 1 < d.font.height
      · obtain ⟨k, hk⟩ := hfits.2 hwidth hhigh
        cases k with
        | zero => omega
        | succ k =>
            rw [Nat.mul_succ] at hk
            omega
      · omega
    · rfl

theorem scrollPixels_one (d : Display) : d.scrollPixels 1 = d.font.height := by
  have hlt := d.width_lt
  have hrow := d.one_row
  have hone : (1 : Int32).toUInt32.toNat = 1 := rfl
  rw [Display.scrollPixels, hone, Nat.one_mul]
  omega

theorem Console.Valid.newline (h : s.Valid d) :
    ∃ s', consoleNewline d s = .ok s' ∧ s'.Valid d ∧ s'.cursorX = 0 := by
  have hlt := d.width_lt
  have hrows : s.rows ≤ d.height := by
    rw [h.rows_eq]
    exact Nat.div_le_self _ _
  have hcursor := h.cursorY_lt
  have hnext : addU32 s.cursorY 1 = s.cursorY + 1 := addU32_of_lt (by omega)
  have hsucc (n : ℕ) : (n + 1) * d.font.height = n * d.font.height + d.font.height :=
    Nat.succ_mul _ _
  rw [consoleNewline, hnext]
  dsimp only
  by_cases hlast : s.rows ≤ s.cursorY + 1
  · rw [if_pos hlast]
    have hone := scrollPixels_one d
    have hfits : d.scrollPixels 1 ≤ d.height := by rw [hone]; exact d.one_row
    obtain ⟨back, hscroll, hback⟩ :=
      consoleScroll_eq { s with cursorX := 0, cursorY := s.cursorY + 1 } hfits
    rw [hone] at hscroll hback
    have hline : subU32 s.rows 1 = s.cursorY := by
      rw [subU32_of_le (by omega) (by omega)]
      omega
    -- below the line that comes up there has been nothing before
    have hempty (x y : ℕ) (hx : x < d.width) (hy : y < d.height)
        (hrow : s.cursorY * d.font.height ≤ y) : back (d.index x y) = s.bg := by
      refine (hback x y hx hy).trans ?_
      split_ifs
      · exact h.below x _ hx (by omega) (by rw [hsucc]; omega)
      · rfl
    have hvalid : Console.Valid d { vesaSwapBuffers d (consoleMarkDirty
        { { s with cursorX := 0, cursorY := s.cursorY + 1 } with back := back } 0
          (d.height - d.font.height) d.width d.font.height) with cursorY := subU32 s.rows 1 } := by
      rw [hline]
      have hconsistent := consistent_scroll (s := s) h.inside back d.one_row
      refine ⟨⟨hconsistent.inside, hconsistent.covered⟩, h.cols_eq, h.rows_eq, Nat.zero_le _,
        h.cursorY_lt, fun x y hx hy hbelow => hempty x y hx hy ?_,
        fun _ x y hx hy _ hrow _ => hempty x y hx hy hrow⟩
      have hbelow : (s.cursorY + 1) * d.font.height ≤ y := hbelow
      rw [hsucc] at hbelow
      omega
    rw [hscroll]
    exact ⟨_, rfl, hvalid.flush, cursorX_consoleFlush _ _⟩
  · rw [if_neg hlast]
    have hvalid : Console.Valid d { s with cursorX := 0, cursorY := s.cursorY + 1 } := by
      refine ⟨⟨h.inside, h.covered⟩, h.cols_eq, h.rows_eq, Nat.zero_le _, Nat.not_le.mp hlast,
        fun x y hx hy hbelow => h.below x y hx hy ?_,
        fun _ x y hx hy _ hrow _ => h.below x y hx hy hrow⟩
      have hbelow : (s.cursorY + 1 + 1) * d.font.height ≤ y := hbelow
      rw [hsucc] at hbelow
      omega
    exact ⟨_, rfl, hvalid.flush, cursorX_consoleFlush _ _⟩

/-- A character of the screen. -/
theorem Console.Valid.cell (h : s.Valid d) {x : ℕ} (hx : x < s.cols) :
    (x + 1) * d.font.width ≤ d.width ∧ (s.cursorY + 1) * d.font.height ≤ d.height ∧
      s.cursorY * s.cols + x < s.rows * s.cols := by
  have hcursor := h.cursorY_lt
  have hrow := Nat.mul_le_mul_right s.cols (Nat.succ_le_of_lt hcursor)
  rw [Nat.succ_mul] at hrow
  refine ⟨?_, ?_, by omega⟩
  · rw [h.cols_eq] at hx
    exact Nat.le_trans (Nat.mul_le_mul_right _ (Nat.succ_le_of_lt hx)) (Nat.div_mul_le_self _ _)
  · rw [h.rows_eq] at hcursor
    exact Nat.le_trans (Nat.mul_le_mul_right _ (Nat.succ_le_of_lt hcursor))
      (Nat.div_mul_le_self _ _)

/-- Drawing a character of the line of the cursor, which is then behind it or before it. -/
theorem Console.Valid.drawCell (h : s.Valid d) {x cursorX : ℕ} (hx : x < s.cols)
    (hcursor : cursorX ≤ s.cols) (buffer : ℕ → UInt8) {back : ℕ → UInt32}
    (hback : ∀ i j, i < d.width → j < d.height →
      ¬ ((x * d.font.width ≤ i ∧ i < x * d.font.width + d.font.width) ∧
        s.cursorY * d.font.height ≤ j ∧ j < s.cursorY * d.font.height + d.font.height) →
      back (d.index i j) = s.back (d.index i j))
    (hbehind : d.font.width = fontWidth → ∀ i j, i < d.width → j < d.height →
      cursorX * d.font.width ≤ i → s.cursorY * d.font.height ≤ j →
        j ≤ s.cursorY * d.font.height + fontHeight → back (d.index i j) = s.bg) :
    Console.Valid d
      { consoleMarkDirty { s with buffer := buffer, back := back } (x * d.font.width)
          (s.cursorY * d.font.height) d.font.width d.font.height with cursorX := cursorX } := by
  obtain ⟨hright, hbottom, -⟩ := h.cell hx
  rw [Nat.succ_mul] at hright hbottom
  have hdraw := h.toConsistent.draw hright hbottom back hback
  refine ⟨⟨hdraw.inside, hdraw.covered⟩, h.cols_eq, h.rows_eq, hcursor, h.cursorY_lt,
    fun i j hi hj hbelow => (hback i j hi hj ?_).trans (h.below i j hi hj hbelow), hbehind⟩
  have hbelow : (s.cursorY + 1) * d.font.height ≤ j := hbelow
  rw [Nat.succ_mul] at hbelow
  omega

/-- The character is stored. -/
theorem Console.Valid.store_eq (h : s.Valid d) {x : ℕ} (hx : x < s.cols) (c : UInt8) :
    Console.store { s with cursorX := x } c = .ok
      { s with
        cursorX := x
        buffer := Function.update s.buffer (s.cursorY * s.cols + x) c } :=
  if_pos (h.cell hx).2.2

theorem Console.Valid.putAtCursor (h : s.Valid d) (hcol : s.cursorX < s.cols)
    (hwidth : d.font.width ≤ 64) (c : UInt8) :
    ∃ s', HalOS.putAtCursor d s c = .ok s' ∧ s'.Valid d := by
  have hbytes : ¬ 8 < d.font.bytesPerRow := by
    rw [Font.bytesPerRow]
    omega
  have hvalid := h.drawCell hcol hcol
    (Function.update s.buffer (s.cursorY * s.cols + s.cursorX) c)
    (fun i j hi hj hout => Display.drawGlyph_apply hi hj hout s.fg c s.back)
    fun hleast i j hi hj hbehind hrow hend => by
      rw [Nat.succ_mul] at hbehind
      exact (Display.drawGlyph_apply hi hj (by omega) s.fg c s.back).trans
        (h.behind hleast i j hi hj (by omega) hrow hend)
  refine ⟨_, ?_, hvalid⟩
  have hstore : s.store c =
      .ok { s with buffer := Function.update s.buffer (s.cursorY * s.cols + s.cursorX) c } :=
    h.store_eq hcol c
  have hchar : drawChar d
      { s with buffer := Function.update s.buffer (s.cursorY * s.cols + s.cursorX) c }
      s.cursorX s.cursorY c = .ok (consoleMarkDirty
        { s with
          buffer := Function.update s.buffer (s.cursorY * s.cols + s.cursorX) c
          back := drawGlyph d s.fg (s.cursorX * d.font.width) (s.cursorY * d.font.height) c
            s.back }
        (s.cursorX * d.font.width) (s.cursorY * d.font.height) d.font.width d.font.height) :=
    if_neg hbytes
  rw [HalOS.putAtCursor, hstore]
  exact congrArg (· >>= fun t => Except.ok { t with cursorX := t.cursorX + 1 }) hchar

theorem Console.Valid.putchar (h : s.Valid d) {c : UInt8}
    (hfits : Printable c → d.font.width ≤ 64) :
    ∃ s', consolePutchar d s c = .ok s' ∧ s'.Valid d := by
  rw [consolePutchar]
  split_ifs with hskip hnewline hline
  · exact ⟨s, rfl, h⟩
  · obtain ⟨s', hstep, hvalid, -⟩ := h.newline
    exact ⟨s', hstep, hvalid⟩
  all_goals
    have hprintable : Printable c := by
      by_contra hnot
      exact hskip ⟨hnot, hnewline⟩
  · obtain ⟨s₁, hstep, hvalid, hcursor⟩ := h.newline
    rw [hstep]
    refine hvalid.putAtCursor ?_ (hfits hprintable) c
    rw [hcursor, hvalid.cols_eq]
    exact d.cols_pos
  · exact h.putAtCursor (Nat.not_le.mp hline) (hfits hprintable) c

/-- What `console_ungetchar` clears behind the character and below it is clear already. -/
theorem Console.Valid.cleared_eq (h : s.Valid d) {x : ℕ} (hx : x + 1 = s.cursorX) {i j : ℕ}
    (hi : i < d.width) (hj : j < d.height)
    (hout : ¬ ((x * d.font.width ≤ i ∧ i < x * d.font.width + d.font.width) ∧
      s.cursorY * d.font.height ≤ j ∧ j < s.cursorY * d.font.height + d.font.height)) :
    d.fillRect s.back (x * d.font.width) (s.cursorY * d.font.height) (fontWidth + 1)
      (fontHeight + 1) s.bg (d.index i j) = s.back (d.index i j) := by
  have hleast := d.font_width
  have hlow := d.font_height
  have hline : (s.cursorY + 1) * d.font.height = s.cursorY * d.font.height + d.font.height :=
    Nat.succ_mul _ _
  have hnext : s.cursorX * d.font.width = x * d.font.width + d.font.width := by
    rw [← hx, Nat.succ_mul]
  rw [Display.fillRect_apply hi hj]
  split_ifs with hcleared
  · by_cases hunder : (s.cursorY + 1) * d.font.height ≤ j
    · exact (h.below i j hi hj hunder).symm
    · exact (h.behind (by omega) i j hi hj (by omega) (by omega) (by omega)).symm
  · rfl

theorem Console.Valid.ungetchar (h : s.Valid d) :
    ∃ s', consoleUngetchar d s = .ok s' ∧ s'.Valid d := by
  rw [consoleUngetchar]
  by_cases hpos : 0 < s.cursorX
  · rw [if_pos hpos]
    obtain ⟨x, hx⟩ : ∃ x, x + 1 = s.cursorX := ⟨s.cursorX - 1, Nat.sub_add_cancel hpos⟩
    have hcol : x < s.cols := by
      have := h.cursorX_le
      omega
    have hvalid := h.drawCell hcol (Nat.le_of_lt hcol)
      (Function.update s.buffer (s.cursorY * s.cols + x) 0)
      (fun i j hi hj hout => h.cleared_eq hx hi hj hout)
      fun hwidth i j hi hj hbehind hrow hend => by
        have hnext : s.cursorX * d.font.width = x * d.font.width + d.font.width := by
          rw [← hx, Nat.succ_mul]
        rw [Display.fillRect_apply hi hj]
        split_ifs with hcleared
        · rfl
        · exact h.behind hwidth i j hi hj (by omega) hrow hend
    have hcursor : s.cursorX - 1 = x := by omega
    rw [hcursor]
    dsimp only
    rw [h.store_eq hcol]
    exact ⟨_, rfl, hvalid.flush⟩
  · rw [if_neg hpos]
    exact ⟨_, rfl, h.flush⟩

/-- Scrolling stays on the screen, and a character is drawn with a font `row_offsets` is made for:
what the operation asks. -/
def OpFits (d : Display) : ConsoleOp → Prop
  | .putchar c => Printable c → d.font.width ≤ 64
  | .printf text => ∀ c ∈ text, Printable c → d.font.width ≤ 64
  | .scroll lines => ScrollFits d lines
  | .ungetchar | .clear | .flush => True

theorem Console.Valid.printf (h : s.Valid d) {text : List UInt8}
    (hfits : ∀ c ∈ text, Printable c → d.font.width ≤ 64) :
    ∃ s', text.foldlM (consolePutchar d) s = .ok s' ∧ s'.Valid d := by
  induction text generalizing s with
  | nil => exact ⟨s, rfl, h⟩
  | cons c text ih =>
      obtain ⟨s₁, hfirst, hvalid⟩ := h.putchar (hfits c List.mem_cons_self)
      rw [List.foldlM_cons, hfirst]
      exact ih hvalid fun c' hmem => hfits c' (List.mem_cons_of_mem c hmem)

/-- One operation. -/
theorem Console.Valid.step (h : s.Valid d) {op : ConsoleOp} (hfits : OpFits d op) :
    ∃ s', consoleStep d s op = .ok s' ∧ s'.Valid d := by
  cases op with
  | putchar c => exact h.putchar hfits
  | ungetchar => exact h.ungetchar
  | printf text => exact h.printf hfits
  | scroll lines => exact h.scroll hfits
  | clear => exact ⟨_, rfl, valid_consoleClear h.inside h.cols_eq h.rows_eq⟩
  | flush => exact ⟨_, rfl, h.flush⟩

/-- One operation after the other. -/
theorem Console.Valid.run (h : s.Valid d) {ops : List ConsoleOp} (hfits : ∀ op ∈ ops, OpFits d op) :
    ∃ s', consoleRun d s ops = .ok s' ∧ s'.Valid d := by
  induction ops generalizing s with
  | nil => exact ⟨s, rfl, h⟩
  | cons op ops ih =>
      obtain ⟨s₁, hfirst, hvalid⟩ := h.step (hfits op List.mem_cons_self)
      rw [consoleRun, List.foldlM_cons, hfirst]
      exact ih hvalid fun op' hmem => hfits op' (List.mem_cons_of_mem op hmem)

end Kept

theorem valid_consoleInit (d : Display) (fg bg : UInt32) (buffer : ℕ → UInt8)
    (back front : ℕ → UInt32) : (consoleInit d fg bg buffer back front).Valid d :=
  valid_consoleClear (fun hdirty => by cases hdirty) rfl rfl

/-! ### Nothing is lost -/

/-- The operations run, and what is drawn is in the front buffer or waits in the rectangle. -/
def KeepsDrawn (d : Display) (s : Console) (ops : List ConsoleOp) : Prop :=
  ∃ s', consoleRun d s ops = .ok s' ∧ s'.Consistent d ∧ (consoleFlush d s').Synced d

/-- Nothing that is drawn is lost, as long as scrolling stays on the screen. -/
theorem keepsDrawn_consoleRun (d : Display) (fg bg : UInt32) (buffer : ℕ → UInt8)
    (back front : ℕ → UInt32) (ops : List ConsoleOp) (h : ∀ op ∈ ops, OpFits d op) :
    KeepsDrawn d (consoleInit d fg bg buffer back front) ops := by
  obtain ⟨s', hrun, hvalid⟩ := (valid_consoleInit d fg bg buffer back front).run h
  exact ⟨s', hrun, hvalid.toConsistent, hvalid.toConsistent.flush.1⟩

/-- A screen of 640 by 480 pixels, and a font of which nothing is seen. -/
def vgaDisplay : Display where
  width := 640
  height := 480
  pitch := 2560
  font := ⟨32, 16, 16, 8, fun _ => 0⟩
  width_le := by decide
  size_lt := by decide
  font_width := by decide
  font_height := by decide
  one_col := by decide
  one_row := by decide

/-- A line, a character that is taken back, and the last but one line at the top. -/
theorem keepsDrawn_scroll_vga : KeepsDrawn vgaDisplay
    (consoleInit vgaDisplay 0xFFFFFF 0 (fun _ => 0) (fun _ => 0) fun _ => 0)
    [.printf [0x41, 0x0A, 0x42], .ungetchar, .scroll 29, .putchar 0x43] := by
  refine keepsDrawn_consoleRun _ _ _ _ _ _ _ fun op hmem => ?_
  have hnarrow : vgaDisplay.font.width ≤ 64 := by decide
  have hscroll : ScrollFits vgaDisplay 29 := ⟨by decide, fun _ _ => by decide⟩
  simp only [List.mem_cons, List.not_mem_nil, or_false] at hmem
  rcases hmem with rfl | rfl | rfl | rfl
  · exact fun _ _ _ => hnarrow
  · trivial
  · exact hscroll
  · exact fun _ => hnarrow

/-- A scroll by more lines than there are moves pixels from behind the buffer. -/
theorem keepsDrawn_violated : ¬ KeepsDrawn vgaDisplay
    (consoleInit vgaDisplay 0xFFFFFF 0 (fun _ => 0) (fun _ => 0) fun _ => 0) [.scroll 31] := by
  have hmove (back : ℕ → UInt32) : vgaDisplay.movePixels back
      (vgaDisplay.scrollPixels 31 * vgaDisplay.pitchPixels % 2 ^ 30)
      (subU32 vgaDisplay.height (vgaDisplay.scrollPixels 31) * vgaDisplay.pitchPixels % 2 ^ 30) =
        .error .memmove :=
    if_neg (by decide)
  rintro ⟨s', hrun, -⟩
  rw [consoleRun, List.foldlM_cons, consoleStep, consoleScroll] at hrun
  dsimp only at hrun
  rw [hmove] at hrun
  cases hrun

end HalOS
