import HalOS.Drivers.ConsoleBuffers
import HalOS.Lib.Outcome

/-!
# The Cursor of the Console

What the functions of `drivers/console.c` do to the cursor and to the buffer of the characters,
whatever they draw: the numbers have 32 bits here, and an access that is not to one of the cells
fails with its index.

## Main results

* `TextConsole.Valid.step`: every operation keeps the cursor at a cell, or behind the last one of
  its line.
* `cursor_addresses_cell`: so does every run, and all its accesses are to cells.
* `shows_consoleRun`: the text is that of the console that draws.
-/

namespace HalOS

/-- The variables of `console.c` that make up the text. -/
structure TextConsole where
  cols : UInt32
  rows : UInt32
  cursorX : UInt32
  cursorY : UInt32
  buffer : ℕ → UInt8

namespace TextConsole

/-- The number of the cells. -/
def cells (s : TextConsole) : ℕ := s.rows.toNat * s.cols.toNat

/-- `console.buffer[cursor_y * cols + cursor_x] = c`. -/
def store (s : TextConsole) (c : UInt8) : Except ℕ TextConsole :=
  let i := (s.cursorY * s.cols + s.cursorX).toNat
  if i < s.cells then .ok { s with buffer := Function.update s.buffer i c } else .error i

/-- `console_clear`, where `memset` clears so many bytes as the product has in 32 bits. -/
def clear (s : TextConsole) : Except ℕ TextConsole :=
  let n := (s.rows * s.cols).toNat
  if n ≤ s.cells then
    .ok { s with
      buffer := fun i => if i < n then 0 else s.buffer i
      cursorX := 0
      cursorY := 0 }
  else .error s.cells

/-- `console_scroll`, which moves the pixels only. -/
def scroll (s : TextConsole) (_lines : Int32) : TextConsole := s

/-- `console_putchar('\n')`. -/
def newline (s : TextConsole) : TextConsole :=
  let s := { s with cursorX := 0, cursorY := s.cursorY + 1 }
  if s.rows ≤ s.cursorY then { s.scroll 1 with cursorY := s.rows - 1 } else s

/-- The end of `console_putchar`. -/
def putAtCursor (s : TextConsole) (c : UInt8) : Except ℕ TextConsole :=
  (s.store c).map fun s => { s with cursorX := s.cursorX + 1 }

/-- `console_putchar`. -/
def putchar (s : TextConsole) (c : UInt8) : Except ℕ TextConsole :=
  if ¬ Printable c ∧ c ≠ 0x0A then .ok s
  else if c = 0x0A then .ok s.newline
  else if s.cols ≤ s.cursorX then s.newline.putAtCursor c
  else s.putAtCursor c

/-- `console_ungetchar`. -/
def ungetchar (s : TextConsole) : Except ℕ TextConsole :=
  if 0 < s.cursorX then { s with cursorX := s.cursorX - 1 }.store 0 else .ok s

/-- The loop of `console_ungetchar_bound`. -/
def ungetcharBound (s : TextConsole) : ℕ → Except ℕ TextConsole
  | 0 => .ok s
  | n + 1 => if 0 < s.cursorX then do (← s.ungetchar).ungetcharBound n else .ok s

/-- `console_gotoxy`. -/
def gotoxy (s : TextConsole) (x y : UInt32) : TextConsole :=
  if x < s.cols ∧ y < s.rows then { s with cursorX := x, cursorY := y } else s

end TextConsole

/-- What is done with the console. -/
inductive TextOp
  | putchar (c : UInt8)
  | ungetchar
  | ungetcharBound (n : UInt8)
  | gotoxy (x y : UInt32)
  | scroll (lines : Int32)
  | clear
deriving DecidableEq, Repr

def TextConsole.step (s : TextConsole) : TextOp → Except ℕ TextConsole
  | .putchar c => s.putchar c
  | .ungetchar => s.ungetchar
  | .ungetcharBound n => s.ungetcharBound n.toNat
  | .gotoxy x y => .ok (s.gotoxy x y)
  | .scroll lines => .ok (s.scroll lines)
  | .clear => s.clear

/-- `console_init` on a screen and with a font of these sizes. -/
def textInit (width height fontWidth fontHeight : UInt32) (buffer : ℕ → UInt8) :
    Except ℕ TextConsole :=
  TextConsole.clear ⟨width / fontWidth, height / fontHeight, 0, 0, buffer⟩

/-- The console after these operations. -/
def textRun (width height fontWidth fontHeight : UInt32) (buffer : ℕ → UInt8) (ops : List TextOp) :
    Except ℕ TextConsole := do
  ops.foldlM TextConsole.step (← textInit width height fontWidth fontHeight buffer)

/-! ### Cells -/

namespace TextConsole

/-- There are cells, and the cursor is at one of them or behind the last one of its line. -/
structure Valid (cols rows : UInt32) (s : TextConsole) : Prop where
  cols_eq : s.cols = cols
  rows_eq : s.rows = rows
  cols_pos : 1 ≤ cols
  cursorX_le : s.cursorX ≤ cols
  cursorY_lt : s.cursorY < rows

section Steps

variable {cols rows : UInt32} {s : TextConsole}

/-- The index of a cell. -/
theorem index_lt {x y : UInt32} (hx : x < cols) (hy : y < rows) :
    (y * cols + x).toNat < rows.toNat * cols.toNat := by
  rw [UInt32.lt_iff_toNat_lt] at hx hy
  have hrow : (y.toNat + 1) * cols.toNat ≤ rows.toNat * cols.toNat :=
    Nat.mul_le_mul_right cols.toNat hy
  rw [Nat.succ_mul] at hrow
  calc
    (y * cols + x).toNat ≤ (y * cols).toNat + x.toNat := by
      rw [UInt32.toNat_add]
      exact Nat.mod_le _ _
    _ ≤ y.toNat * cols.toNat + x.toNat := by
      rw [UInt32.toNat_mul]
      exact Nat.add_le_add_right (Nat.mod_le _ _) _
    _ < rows.toNat * cols.toNat := by omega

/-- What is below another number does not wrap around. -/
theorem toNat_succ_of_lt {a b : UInt32} (h : a < b) : (a + 1).toNat = a.toNat + 1 := by
  have hb := b.toNat_lt
  rw [UInt32.lt_iff_toNat_lt] at h
  rw [UInt32.toNat_add, UInt32.toNat_one, Nat.mod_eq_of_lt (by omega)]

theorem toNat_pred_of_pos {a : UInt32} (h : 0 < a) : (a - 1).toNat = a.toNat - 1 := by
  have hle : (1 : UInt32).toNat ≤ a.toNat := UInt32.lt_iff_toNat_lt.mp h
  rw [UInt32.toNat_sub_of_le _ _ (UInt32.le_iff_toNat_le.mpr hle), UInt32.toNat_one]

theorem Valid.store (h : s.Valid cols rows) (hx : s.cursorX < cols) (c : UInt8) :
    ∃ buffer, s.store c = .ok { s with buffer := buffer } := by
  have hindex := index_lt hx h.cursorY_lt
  rw [← h.cols_eq, ← h.rows_eq] at hindex
  exact ⟨_, if_pos hindex⟩

theorem Valid.rows_pos (h : s.Valid cols rows) : 0 < rows :=
  UInt32.lt_of_le_of_lt UInt32.zero_le h.cursorY_lt

theorem Valid.cells_eq (h : s.Valid cols rows) : s.cells = rows.toNat * cols.toNat := by
  rw [cells, h.rows_eq, h.cols_eq]

/-- The cursor at another place. -/
theorem Valid.moveTo (h : s.Valid cols rows) {x y : UInt32} (hx : x ≤ cols) (hy : y < rows)
    (buffer : ℕ → UInt8) :
    Valid cols rows { s with cursorX := x, cursorY := y, buffer := buffer } :=
  ⟨h.cols_eq, h.rows_eq, h.cols_pos, hx, hy⟩

theorem Valid.clear (h : s.Valid cols rows) : ∃ s', s.clear = .ok s' ∧ s'.Valid cols rows := by
  have hsize : (s.rows * s.cols).toNat ≤ s.cells := by
    rw [UInt32.toNat_mul]
    exact Nat.mod_le _ _
  exact ⟨_, if_pos hsize, h.moveTo UInt32.zero_le h.rows_pos _⟩

/-- Below the last line the screen scrolls, and the cursor stays. -/
theorem Valid.newline (h : s.Valid cols rows) :
    s.newline.Valid cols rows ∧ s.newline.cursorX = 0 := by
  have hrows := h.rows_pos
  rw [TextConsole.newline]
  dsimp only
  split_ifs with hlast
  · have hlt : s.rows - 1 < rows := by
      rw [h.rows_eq, UInt32.lt_iff_toNat_lt, toNat_pred_of_pos hrows]
      rw [UInt32.lt_iff_toNat_lt, UInt32.toNat_zero] at hrows
      omega
    exact ⟨h.moveTo UInt32.zero_le hlt s.buffer, rfl⟩
  · rw [h.rows_eq] at hlast
    exact ⟨h.moveTo UInt32.zero_le (UInt32.not_le.mp hlast) _, rfl⟩

theorem Valid.putAtCursor (h : s.Valid cols rows) (hx : s.cursorX < cols) (c : UInt8) :
    ∃ s', s.putAtCursor c = .ok s' ∧ s'.Valid cols rows := by
  obtain ⟨buffer, hstore⟩ := h.store hx c
  have hnext : s.cursorX + 1 ≤ cols := by
    rw [UInt32.le_iff_toNat_le, toNat_succ_of_lt hx]
    exact UInt32.lt_iff_toNat_lt.mp hx
  refine ⟨{ s with cursorX := s.cursorX + 1, buffer := buffer }, ?_,
    h.moveTo hnext h.cursorY_lt buffer⟩
  rw [TextConsole.putAtCursor, hstore]
  rfl

/-- A cursor behind the last cell of its line goes to the next line before anything is stored. -/
theorem Valid.putchar (h : s.Valid cols rows) (c : UInt8) :
    ∃ s', s.putchar c = .ok s' ∧ s'.Valid cols rows := by
  obtain ⟨hnewline, hfirst⟩ := h.newline
  rw [TextConsole.putchar]
  split_ifs with hnot hline hbehind
  · exact ⟨s, rfl, h⟩
  · exact ⟨_, rfl, hnewline⟩
  · refine hnewline.putAtCursor ?_ c
    rw [hfirst]
    exact UInt32.lt_of_lt_of_le (by decide) h.cols_pos
  · rw [h.cols_eq] at hbehind
    exact h.putAtCursor (UInt32.not_le.mp hbehind) c

theorem Valid.ungetchar (h : s.Valid cols rows) :
    ∃ s', s.ungetchar = .ok s' ∧ s'.Valid cols rows := by
  rw [TextConsole.ungetchar]
  split_ifs with hpos
  · have hlt : s.cursorX - 1 < cols := by
      have hle := UInt32.le_iff_toNat_le.mp h.cursorX_le
      rw [UInt32.lt_iff_toNat_lt, toNat_pred_of_pos hpos]
      rw [UInt32.lt_iff_toNat_lt, UInt32.toNat_zero] at hpos
      omega
    have hback : Valid cols rows { s with cursorX := s.cursorX - 1 } :=
      h.moveTo (UInt32.le_of_lt hlt) h.cursorY_lt s.buffer
    obtain ⟨buffer, hstore⟩ := hback.store hlt 0
    exact ⟨_, hstore, hback.moveTo hback.cursorX_le hback.cursorY_lt buffer⟩
  · exact ⟨s, rfl, h⟩

theorem Valid.ungetcharBound (h : s.Valid cols rows) (n : ℕ) :
    ∃ s', s.ungetcharBound n = .ok s' ∧ s'.Valid cols rows := by
  induction n generalizing s with
  | zero => exact ⟨s, rfl, h⟩
  | succ n ih =>
      rw [TextConsole.ungetcharBound]
      split_ifs
      · obtain ⟨s₁, hunget, h₁⟩ := h.ungetchar
        obtain ⟨s', hloop, h'⟩ := ih h₁
        exact ⟨s', Outcome.bind_eq_ok.mpr ⟨s₁, hunget, hloop⟩, h'⟩
      · exact ⟨s, rfl, h⟩

theorem Valid.gotoxy (h : s.Valid cols rows) (x y : UInt32) : (s.gotoxy x y).Valid cols rows := by
  rw [TextConsole.gotoxy]
  split_ifs with hcell
  · rw [h.cols_eq, h.rows_eq] at hcell
    exact h.moveTo (UInt32.le_of_lt hcell.1) hcell.2 s.buffer
  · exact h

/-- **Every operation** accesses cells only, and keeps the cursor. -/
theorem Valid.step (h : s.Valid cols rows) (op : TextOp) :
    ∃ s', s.step op = .ok s' ∧ s'.Valid cols rows := by
  cases op with
  | putchar c => exact h.putchar c
  | ungetchar => exact h.ungetchar
  | ungetcharBound n => exact h.ungetcharBound n.toNat
  | gotoxy x y => exact ⟨_, rfl, h.gotoxy x y⟩
  | scroll lines => exact ⟨s, rfl, h⟩
  | clear => exact h.clear

theorem Valid.run (h : s.Valid cols rows) (ops : List TextOp) :
    ∃ s', ops.foldlM TextConsole.step s = .ok s' ∧ s'.Valid cols rows := by
  induction ops generalizing s with
  | nil => exact ⟨s, rfl, h⟩
  | cons op ops ih =>
      obtain ⟨s₁, hstep, h₁⟩ := h.step op
      obtain ⟨s', hrun, h'⟩ := ih h₁
      exact ⟨s', Outcome.bind_eq_ok.mpr ⟨s₁, hstep, hrun⟩, h'⟩

end Steps

end TextConsole

/-- **The cursor** is at a cell of the screen or behind the last cell of its line, after any
operations, and nothing but cells is accessed. -/
theorem cursor_addresses_cell (width height fontWidth fontHeight : UInt32)
    (hcols : 1 ≤ width / fontWidth) (hrows : 1 ≤ height / fontHeight) (buffer : ℕ → UInt8)
    (ops : List TextOp) :
    ∃ s, textRun width height fontWidth fontHeight buffer ops = .ok s ∧
      s.cols = width / fontWidth ∧ s.rows = height / fontHeight ∧
        s.cursorX ≤ s.cols ∧ s.cursorY < s.rows := by
  have hpos : (0 : UInt32) < 1 := by decide
  have hinit : TextConsole.Valid (width / fontWidth) (height / fontHeight)
      ⟨width / fontWidth, height / fontHeight, 0, 0, buffer⟩ :=
    ⟨rfl, rfl, hcols, UInt32.zero_le, UInt32.lt_of_lt_of_le hpos hrows⟩
  obtain ⟨s₀, hclear, h₀⟩ := hinit.clear
  obtain ⟨s, hrun, h⟩ := h₀.run ops
  refine ⟨s, Outcome.bind_eq_ok.mpr ⟨s₀, hclear, hrun⟩, h.cols_eq, h.rows_eq, ?_, ?_⟩
  · rw [h.cols_eq]
    exact h.cursorX_le
  · rw [h.rows_eq]
    exact h.cursorY_lt

/-- A line is filled up to its end in the last row, and some of it is taken back. -/
theorem cursor_addresses_cell_vga :
    ∃ s, textRun 640 480 8 16 (fun _ => 0) [.gotoxy 78 29, .putchar 0x41, .putchar 0x42,
        .putchar 0x43, .ungetcharBound 3, .scroll 1, .putchar 0x0A] = .ok s ∧
      s.cols = 640 / 8 ∧ s.rows = 480 / 16 ∧ s.cursorX ≤ s.cols ∧ s.cursorY < s.rows :=
  cursor_addresses_cell 640 480 8 16 (by decide) (by decide) _ _

/-! ### The console that draws -/

/-- The console that draws has this text and this cursor. -/
structure Shows (s : Console) (t : TextConsole) : Prop where
  cols_eq : s.cols = t.cols.toNat
  rows_eq : s.rows = t.rows.toNat
  cursorX_eq : s.cursorX = t.cursorX.toNat
  cursorY_eq : s.cursorY = t.cursorY.toNat
  buffer_eq : s.buffer = t.buffer

namespace Shows

variable {d : Display} {s s' : Console} {t : TextConsole}

theorem flush (h : Shows s t) : Shows (consoleFlush d s) t := by
  obtain ⟨front, rect, heq⟩ := consoleFlush_fields d s
  rw [heq]
  exact ⟨h.cols_eq, h.rows_eq, h.cursorX_eq, h.cursorY_eq, h.buffer_eq⟩

theorem scroll (h : Shows s t) {lines : Int32} (hscroll : consoleScroll d s lines = .ok s') :
    Shows s' (t.scroll lines) := by
  obtain ⟨back, -, heq⟩ := Outcome.bind_eq_ok.mp hscroll
  obtain rfl := Except.ok.inj heq
  exact ⟨h.cols_eq, h.rows_eq, h.cursorX_eq, h.cursorY_eq, h.buffer_eq⟩

theorem clear (h : Shows s t) (hcells : t.cells < 2 ^ 32) :
    ∃ t', t.clear = .ok t' ∧ Shows (consoleClear d s) t' := by
  have hsize : (t.rows * t.cols).toNat = t.cells := by
    rw [UInt32.toNat_mul]
    exact Nat.mod_eq_of_lt hcells
  refine ⟨_, if_pos (Nat.le_of_eq hsize), flush ⟨h.cols_eq, h.rows_eq, rfl, rfl, ?_⟩⟩
  dsimp only [consoleMarkDirty]
  rw [hsize, h.rows_eq, h.cols_eq, h.buffer_eq]
  rfl

theorem subU32_toNat_one (a : UInt32) : subU32 a.toNat 1 = (a - 1).toNat := by
  rw [UInt32.toNat_sub, subU32, UInt32.toNat_one]
  congr 1
  omega

theorem newline (h : Shows s t) (hnewline : consoleNewline d s = .ok s') : Shows s' t.newline := by
  have hnext : addU32 s.cursorY 1 = (t.cursorY + 1).toNat := by
    rw [h.cursorY_eq, UInt32.toNat_add]
    rfl
  have hmoved : Shows { s with cursorX := 0, cursorY := addU32 s.cursorY 1 }
      { t with cursorX := 0, cursorY := t.cursorY + 1 } :=
    ⟨h.cols_eq, h.rows_eq, rfl, hnext, h.buffer_eq⟩
  have hlast : s.rows ≤ addU32 s.cursorY 1 ↔ t.rows ≤ t.cursorY + 1 := by
    rw [h.rows_eq, hnext, UInt32.le_iff_toNat_le]
  rw [consoleNewline] at hnewline
  rw [TextConsole.newline]
  dsimp only at hnewline ⊢
  by_cases hbelow : s.rows ≤ addU32 s.cursorY 1
  · rw [if_pos hbelow] at hnewline
    rw [if_pos (hlast.mp hbelow)]
    obtain ⟨s₁, hscrolled, heq⟩ := Outcome.bind_eq_ok.mp hnewline
    obtain rfl := Except.ok.inj heq
    obtain ⟨s₂, hscroll, rfl⟩ := Outcome.map_eq_ok.mp hscrolled
    have h₂ := hmoved.scroll hscroll
    have hrows : subU32 s₂.rows 1 = (t.rows - 1).toNat := by
      rw [h₂.rows_eq]
      exact subU32_toNat_one t.rows
    exact flush ⟨h₂.cols_eq, h₂.rows_eq, h₂.cursorX_eq, hrows, h₂.buffer_eq⟩
  · rw [if_neg hbelow] at hnewline
    rw [if_neg (hlast.not.mp hbelow)]
    obtain ⟨s₁, hsame, heq⟩ := Outcome.bind_eq_ok.mp hnewline
    obtain rfl := Except.ok.inj heq
    obtain rfl := Except.ok.inj hsame
    exact flush hmoved

/-- The cell is the same where there are less than 2^32. -/
theorem store (h : Shows s t) (hcells : t.cells < 2 ^ 32) {c : UInt8}
    (hstore : s.store c = .ok s') : ∃ t', t.store c = .ok t' ∧ Shows s' t' ∧
      t'.cursorX = t.cursorX ∧ t'.cols = t.cols := by
  rw [Console.store] at hstore
  split_ifs at hstore with hcell
  obtain rfl := Except.ok.inj hstore
  rw [h.cursorY_eq, h.cursorX_eq, h.cols_eq, h.rows_eq] at hcell ⊢
  have hindex : (t.cursorY * t.cols + t.cursorX).toNat =
      t.cursorY.toNat * t.cols.toNat + t.cursorX.toNat := by
    rw [TextConsole.cells] at hcells
    rw [UInt32.toNat_add, UInt32.toNat_mul, Nat.mod_add_mod, Nat.mod_eq_of_lt (by omega)]
  rw [TextConsole.store, hindex, TextConsole.cells, if_pos hcell, h.buffer_eq]
  exact ⟨_, rfl, ⟨rfl, rfl, rfl, rfl, rfl⟩, rfl, rfl⟩

/-- Drawing leaves the text as it is. -/
theorem putAtCursor (h : Shows s t) (hcells : t.cells < 2 ^ 32) (hx : t.cursorX < t.cols)
    {c : UInt8} (hput : HalOS.putAtCursor d s c = .ok s') :
    ∃ t', t.putAtCursor c = .ok t' ∧ Shows s' t' := by
  obtain ⟨s₁, hstore, hput⟩ := Outcome.bind_eq_ok.mp hput
  obtain ⟨s₂, hdraw, heq⟩ := Outcome.bind_eq_ok.mp hput
  obtain rfl := Except.ok.inj heq
  obtain ⟨t₁, htext, h₁, hcursor, hcols⟩ := h.store hcells hstore
  rw [drawChar] at hdraw
  split_ifs at hdraw
  obtain rfl := Except.ok.inj hdraw
  refine ⟨{ t₁ with cursorX := t₁.cursorX + 1 }, ?_, h₁.cols_eq, h₁.rows_eq, ?_, h₁.cursorY_eq,
    h₁.buffer_eq⟩
  · rw [TextConsole.putAtCursor, htext]
    rfl
  · rw [← hcursor, ← hcols] at hx
    rw [TextConsole.toNat_succ_of_lt hx, ← h₁.cursorX_eq]
    rfl

theorem putchar (h : Shows s t) {cols rows : UInt32} (ht : t.Valid cols rows)
    (hcells : t.cells < 2 ^ 32) {c : UInt8} (hput : consolePutchar d s c = .ok s') :
    ∃ t', t.putchar c = .ok t' ∧ Shows s' t' := by
  have hbehind : s.cols ≤ s.cursorX ↔ t.cols ≤ t.cursorX := by
    rw [h.cols_eq, h.cursorX_eq, UInt32.le_iff_toNat_le]
  rw [consolePutchar] at hput
  rw [TextConsole.putchar]
  simp only [hbehind] at hput
  split_ifs at hput ⊢ with hnot hline hwrap
  · obtain rfl := Except.ok.inj hput
    exact ⟨t, rfl, h⟩
  · exact ⟨t.newline, rfl, h.newline hput⟩
  · obtain ⟨s₁, hnewline, hput⟩ := Outcome.bind_eq_ok.mp hput
    obtain ⟨hvalid, hfirst⟩ := ht.newline
    refine (h.newline hnewline).putAtCursor ?_ ?_ hput
    · rwa [hvalid.cells_eq, ← ht.cells_eq]
    · rw [hfirst, hvalid.cols_eq]
      exact UInt32.lt_of_lt_of_le (by decide) ht.cols_pos
  · exact h.putAtCursor hcells (UInt32.not_le.mp hwrap) hput

theorem ungetchar (h : Shows s t) (hcells : t.cells < 2 ^ 32)
    (hunget : consoleUngetchar d s = .ok s') : ∃ t', t.ungetchar = .ok t' ∧ Shows s' t' := by
  have hpos : 0 < s.cursorX ↔ 0 < t.cursorX := by
    rw [h.cursorX_eq, UInt32.lt_iff_toNat_lt]
    rfl
  rw [consoleUngetchar] at hunget
  rw [TextConsole.ungetchar]
  simp only [hpos] at hunget
  split_ifs at hunget ⊢ with hback
  · have hprevious :
        Shows { s with cursorX := s.cursorX - 1 } { t with cursorX := t.cursorX - 1 } :=
      ⟨h.cols_eq, h.rows_eq, by rw [TextConsole.toNat_pred_of_pos hback, h.cursorX_eq],
        h.cursorY_eq, h.buffer_eq⟩
    obtain ⟨s₁, hstore, heq⟩ := Outcome.bind_eq_ok.mp hunget
    obtain rfl := Except.ok.inj heq
    obtain ⟨t₁, htext, h₁, -⟩ := hprevious.store hcells hstore
    exact ⟨t₁, htext, flush ⟨h₁.cols_eq, h₁.rows_eq, h₁.cursorX_eq, h₁.cursorY_eq, h₁.buffer_eq⟩⟩
  · obtain rfl := Except.ok.inj hunget
    exact ⟨t, rfl, h.flush⟩

end Shows

/-- What an operation of the console that draws does to the text. -/
def textOps : ConsoleOp → List TextOp
  | .putchar c => [.putchar c]
  | .ungetchar => [.ungetchar]
  | .printf text => text.map .putchar
  | .scroll lines => [.scroll lines]
  | .clear => [.clear]
  | .flush => []

section Refinement

variable {d : Display} {s s' : Console} {t : TextConsole} {cols rows : UInt32}

theorem Shows.printf (h : Shows s t) (ht : t.Valid cols rows)
    (hcells : rows.toNat * cols.toNat < 2 ^ 32) {text : List UInt8}
    (hprint : text.foldlM (consolePutchar d) s = .ok s') :
    ∃ t', (text.map TextOp.putchar).foldlM TextConsole.step t = .ok t' ∧ Shows s' t' := by
  induction text generalizing s t with
  | nil =>
      obtain rfl := Except.ok.inj hprint
      exact ⟨t, rfl, h⟩
  | cons c text ih =>
      rw [List.foldlM_cons] at hprint
      obtain ⟨s₁, hput, hprint⟩ := Outcome.bind_eq_ok.mp hprint
      obtain ⟨t₁, htext, h₁⟩ := h.putchar ht (by rwa [ht.cells_eq]) hput
      obtain ⟨t₂, hvalid, ht₁⟩ := ht.putchar c
      obtain rfl := Except.ok.inj (htext.symm.trans hvalid)
      obtain ⟨t', hrun, h'⟩ := ih h₁ ht₁ hprint
      exact ⟨t', Outcome.bind_eq_ok.mpr ⟨t₁, htext, hrun⟩, h'⟩

/-- **An operation** that draws, and succeeds, does to the text what it does here. -/
theorem Shows.step (h : Shows s t) (ht : t.Valid cols rows)
    (hcells : rows.toNat * cols.toNat < 2 ^ 32) {op : ConsoleOp}
    (hstep : consoleStep d s op = .ok s') :
    ∃ t', (textOps op).foldlM TextConsole.step t = .ok t' ∧ Shows s' t' := by
  have hsingle {op : TextOp} (hop : ∃ t', t.step op = .ok t' ∧ Shows s' t') :
      ∃ t', [op].foldlM TextConsole.step t = .ok t' ∧ Shows s' t' := by
    obtain ⟨t', htext, h'⟩ := hop
    exact ⟨t', Outcome.bind_eq_ok.mpr ⟨t', htext, rfl⟩, h'⟩
  have hsmall : t.cells < 2 ^ 32 := by rwa [ht.cells_eq]
  cases op with
  | putchar c => exact hsingle (h.putchar ht hsmall hstep)
  | ungetchar => exact hsingle (h.ungetchar hsmall hstep)
  | printf text => exact h.printf ht hcells hstep
  | scroll lines => exact hsingle ⟨_, rfl, h.scroll hstep⟩
  | clear =>
      obtain rfl := Except.ok.inj hstep
      exact hsingle (h.clear hsmall)
  | flush =>
      obtain rfl := Except.ok.inj hstep
      exact ⟨t, rfl, h.flush⟩

theorem Shows.run (h : Shows s t) (ht : t.Valid cols rows)
    (hcells : rows.toNat * cols.toNat < 2 ^ 32) {ops : List ConsoleOp}
    (hrun : consoleRun d s ops = .ok s') :
    ∃ t', (ops.flatMap textOps).foldlM TextConsole.step t = .ok t' ∧ Shows s' t' := by
  induction ops generalizing s t with
  | nil =>
      obtain rfl := Except.ok.inj hrun
      exact ⟨t, rfl, h⟩
  | cons op ops ih =>
      rw [consoleRun, List.foldlM_cons] at hrun
      obtain ⟨s₁, hstep, hrun⟩ := Outcome.bind_eq_ok.mp hrun
      obtain ⟨t₁, htext, h₁⟩ := h.step ht hcells hstep
      obtain ⟨t₂, hvalid, ht₁⟩ := ht.run (textOps op)
      obtain rfl := Except.ok.inj (htext.symm.trans hvalid)
      obtain ⟨t', hops, h'⟩ := ih h₁ ht₁ hrun
      rw [List.flatMap_cons]
      exact ⟨t', (Outcome.foldlM_append_of_ok htext _).trans hops, h'⟩

end Refinement

/-- **The console that draws**, as long as it runs, shows the text that it has here. -/
theorem shows_consoleRun {d : Display} {fg bg : UInt32} {buffer : ℕ → UInt8}
    {back front : ℕ → UInt32} {ops : List ConsoleOp} {s : Console}
    (h : consoleRun d (consoleInit d fg bg buffer back front) ops = .ok s) :
    ∃ t, textRun (UInt32.ofNat d.width) (UInt32.ofNat d.height) (UInt32.ofNat d.font.width)
        (UInt32.ofNat d.font.height) buffer (ops.flatMap textOps) = .ok t ∧ Shows s t := by
  obtain ⟨hwidth, hheight⟩ := d.width_lt
  have hcol := d.one_col
  have hrow := d.one_row
  have hdiv {a b : ℕ} (ha : a < 2 ^ 30) (hb : b ≤ a) :
      (UInt32.ofNat a / UInt32.ofNat b).toNat = a / b := by
    have hsize : UInt32.size = 2 ^ 32 := rfl
    rw [UInt32.toNat_div, UInt32.toNat_ofNat_of_lt' (by omega),
      UInt32.toNat_ofNat_of_lt' (by omega)]
  have hcols := hdiv hwidth hcol
  have hrows := hdiv hheight hrow
  have hcells : d.height / d.font.height * (d.width / d.font.width) < 2 ^ 32 := by
    have hsize := d.size_lt_pixels
    calc
      d.height / d.font.height * (d.width / d.font.width) ≤ d.height * d.pitchPixels :=
        Nat.mul_le_mul (Nat.div_le_self _ _)
          (Nat.le_trans (Nat.div_le_self _ _) d.width_le_pitchPixels)
      _ < 2 ^ 32 := by omega
  have hpos : (0 : UInt32) < 1 := by decide
  have hone {q : UInt32} (hq : 0 < q.toNat) : 1 ≤ q := UInt32.le_iff_toNat_le.mpr hq
  have hvalid : TextConsole.Valid (UInt32.ofNat d.width / UInt32.ofNat d.font.width)
      (UInt32.ofNat d.height / UInt32.ofNat d.font.height)
      ⟨UInt32.ofNat d.width / UInt32.ofNat d.font.width,
        UInt32.ofNat d.height / UInt32.ofNat d.font.height, 0, 0, buffer⟩ :=
    ⟨rfl, rfl, hone (by rw [hcols]; exact d.cols_pos), UInt32.zero_le,
      UInt32.lt_of_lt_of_le hpos (hone (by rw [hrows]; exact d.rows_pos))⟩
  rw [← hrows, ← hcols] at hcells
  have hstart : Shows ⟨fg, bg, d.width / d.font.width, d.height / d.font.height, 0, 0, buffer,
      ⟨0, 0, 0, 0, false⟩, back, front⟩
      ⟨UInt32.ofNat d.width / UInt32.ofNat d.font.width,
        UInt32.ofNat d.height / UInt32.ofNat d.font.height, 0, 0, buffer⟩ :=
    ⟨hcols.symm, hrows.symm, rfl, rfl, rfl⟩
  obtain ⟨t₀, hclear, h₀⟩ := hstart.clear (d := d) (by rwa [hvalid.cells_eq])
  obtain ⟨t₁, hclear', ht₀⟩ := hvalid.clear
  obtain rfl := Except.ok.inj (hclear.symm.trans hclear')
  obtain ⟨t, hrun, ht⟩ := h₀.run ht₀ hcells h
  exact ⟨t, Outcome.bind_eq_ok.mpr ⟨t₀, hclear, hrun⟩, ht⟩

end HalOS
