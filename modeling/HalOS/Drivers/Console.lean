import Mathlib.Algebra.Group.Nat.Defs
import Mathlib.Data.List.Basic
import Mathlib.Logic.Function.Basic

/-!
# The Console

The functions of `drivers/console.c` that draw, and those of `drivers/vesa.c` that they use. They
draw into the back buffer and note in a rectangle what is not in the front buffer yet. A buffer is
a function from the index of a pixel to its color; a row has a quarter of the pitch of pixels.

A coordinate on the screen is far below 2^31, so that it is a number here, and only where a
coordinate may leave the screen the 32 bits are seen. Waiting for the vertical retrace is left out.
-/

namespace HalOS

abbrev fontWidth : ℕ := 8
abbrev fontHeight : ℕ := 16

/-! ### Data -/

/-- `PSF2_Header`, with the bytes from there on. -/
structure Font where
  headersize : ℕ
  bytesperglyph : ℕ
  height : ℕ
  width : ℕ
  bytes : ℕ → UInt8

/-- The screen with its font, which is 8 by 16 pixels at least, and of which one character fits at
least; the buffer is part of the address space. -/
structure Display where
  width : ℕ
  height : ℕ
  pitch : ℕ
  font : Font
  width_le : 4 * width ≤ pitch
  size_lt : height * pitch < 2 ^ 32
  font_width : fontWidth ≤ font.width
  font_height : fontHeight ≤ font.height
  one_col : font.width ≤ width
  one_row : font.height ≤ height

/-- `DirtyRect`. -/
structure DirtyRect where
  x1 : ℕ
  y1 : ℕ
  x2 : ℕ
  y2 : ℕ
  dirty : Bool
deriving DecidableEq, Repr

/-- What goes wrong: a store behind `row_offsets`, one behind the buffer of the characters, and a
`memmove` that leaves the back buffer. -/
inductive ConsoleFault
  | rowOffsets
  | cell (i : ℕ)
  | memmove
deriving DecidableEq, Repr

/-- The variables of `console.c`, and the two buffers. -/
structure Console where
  fg : UInt32
  bg : UInt32
  cols : ℕ
  rows : ℕ
  cursorX : ℕ
  cursorY : ℕ
  buffer : ℕ → UInt8
  rect : DirtyRect
  back : ℕ → UInt32
  front : ℕ → UInt32

/-- The sum in 32 bits. -/
def addU32 (a b : ℕ) : ℕ := (a + b) % 2 ^ 32

/-- The difference in 32 bits. -/
def subU32 (a b : ℕ) : ℕ := (a + 2 ^ 32 - b) % 2 ^ 32

/-! ### Pixels -/

namespace Display

variable (d : Display)

/-- `g_pitch / sizeof(uint32_t)`. -/
def pitchPixels : ℕ := d.pitch / 4

/-- The index of a pixel. -/
def index (x y : ℕ) : ℕ := y * d.pitchPixels + x

/-- `vbe_putpixel`. -/
def putpixel (back : ℕ → UInt32) (x y : ℕ) (color : UInt32) : ℕ → UInt32 :=
  if x < d.width ∧ y < d.height then Function.update back (d.index x y) color else back

/-- Two loops around `vbe_putpixel`, row by row. -/
def fillRect (back : ℕ → UInt32) (x y width height : ℕ) (color : UInt32) : ℕ → UInt32 :=
  (List.range height).foldl
    (fun back j => (List.range width).foldl
      (fun back i => d.putpixel back (x + i) (y + j) color) back) back

/-- `memcpy` for `n` pixels from an index on. -/
def copyPixels (src dest : ℕ → UInt32) (start n : ℕ) : ℕ → UInt32 := fun i =>
  if start ≤ i ∧ i < start + n then src i else dest i

/-- `memmove` for `n` pixels to the beginning of the buffer. -/
def movePixels (back : ℕ → UInt32) (start n : ℕ) : Except ConsoleFault (ℕ → UInt32) :=
  if n = 0 ∨ start + n ≤ d.height * d.pitch / 4 then
    .ok fun i => if i < n then back (start + i) else back i
  else .error .memmove

end Display

/-- `vesa_swap_buffers`. -/
def vesaSwapBuffers (d : Display) (s : Console) : Console :=
  { s with front := Display.copyPixels s.back s.front 0 (d.height * d.pitch / 4) }

/-! ### The rectangle -/

/-- The rectangle after `console_mark_dirty`. -/
def DirtyRect.mark (r : DirtyRect) (x y width height : ℕ) : DirtyRect :=
  if r.dirty then
    { r with
      x1 := if x < r.x1 then x else r.x1
      y1 := if y < r.y1 then y else r.y1
      x2 := if r.x2 < addU32 x width then addU32 x width else r.x2
      y2 := if r.y2 < addU32 y height then addU32 y height else r.y2 }
  else ⟨x, y, addU32 x width, addU32 y height, true⟩

/-- `console_mark_dirty`. -/
def consoleMarkDirty (s : Console) (x y width height : ℕ) : Console :=
  { s with rect := s.rect.mark x y width height }

/-- `console_flush`. -/
def consoleFlush (d : Display) (s : Console) : Console :=
  if s.rect.dirty then
    { s with
      front := (List.range (s.rect.y2 - s.rect.y1)).foldl
        (fun front j => Display.copyPixels s.back front (d.index s.rect.x1 (s.rect.y1 + j))
          (subU32 s.rect.x2 s.rect.x1)) s.front
      rect := { s.rect with dirty := false } }
  else s

/-! ### Characters -/

/-- `bytes_per_row`. -/
def Font.bytesPerRow (f : Font) : ℕ := (f.width + 7) / 8

/-- `glyph[font_y * bytes_per_row + byte]`. -/
def Font.glyphByte (f : Font) (c : UInt8) (fontY byte : ℕ) : UInt8 :=
  f.bytes (f.headersize + c.toNat * f.bytesperglyph + fontY * f.bytesPerRow + byte)

/-- The innermost loop of `draw_char`, with `n` bits to go. -/
def drawBits (d : Display) (fg : UInt32) (x y byte : ℕ) (fontByte : UInt8) :
    ℕ → ℕ → (ℕ → UInt32) → ℕ → UInt32
  | 0, _, back => back
  | n + 1, bit, back =>
      if fontByte &&& (0x80 >>> UInt8.ofNat bit) = 0 then
        drawBits d fg x y byte fontByte n (bit + 1) back
      else if d.font.width ≤ byte * 8 + bit then back
      else
        drawBits d fg x y byte fontByte n (bit + 1)
          (d.putpixel back (x + (byte * 8 + bit)) y fg)

/-- The loops of `draw_char`. -/
def drawGlyph (d : Display) (fg : UInt32) (x y : ℕ) (c : UInt8) (back : ℕ → UInt32) :
    ℕ → UInt32 :=
  (List.range d.font.height).foldl
    (fun back fontY => (List.range d.font.bytesPerRow).foldl
      (fun back byte =>
        let fontByte := d.font.glyphByte c fontY byte
        if fontByte = 0 then back
        else drawBits d fg x (y + fontY) byte fontByte 8 0 back) back) back

/-- `draw_char`; `row_offsets` has eight entries. -/
def drawChar (d : Display) (s : Console) (x y : ℕ) (c : UInt8) : Except ConsoleFault Console :=
  let screenX := x * d.font.width
  let screenY := y * d.font.height
  if 8 < d.font.bytesPerRow then .error .rowOffsets
  else
    .ok (consoleMarkDirty { s with back := drawGlyph d s.fg screenX screenY c s.back }
      screenX screenY d.font.width d.font.height)

/-- `console_clear`. -/
def consoleClear (d : Display) (s : Console) : Console :=
  consoleFlush d (consoleMarkDirty
    { s with
      back := d.fillRect s.back 0 0 d.width d.height s.bg
      buffer := fun i => if i < s.rows * s.cols then 0 else s.buffer i
      cursorX := 0
      cursorY := 0 } 0 0 d.width d.height)

/-- `scroll_pixels`. -/
def Display.scrollPixels (d : Display) (lines : Int32) : ℕ :=
  lines.toUInt32.toNat * d.font.height % 2 ^ 32

/-- `console_scroll`. -/
def consoleScroll (d : Display) (s : Console) (lines : Int32) : Except ConsoleFault Console := do
  let scrollPixels := d.scrollPixels lines
  let y := subU32 d.height scrollPixels
  let back ← d.movePixels s.back (scrollPixels * d.pitchPixels % 2 ^ 30)
    (y * d.pitchPixels % 2 ^ 30)
  let s := { s with back := d.fillRect back 0 y d.width (d.height - y) s.bg }
  .ok (vesaSwapBuffers d (consoleMarkDirty s 0 y d.width scrollPixels))

/-- `console_putchar('\n')`. -/
def consoleNewline (d : Display) (s : Console) : Except ConsoleFault Console := do
  let s := { s with cursorX := 0, cursorY := addU32 s.cursorY 1 }
  let s ←
    if s.rows ≤ s.cursorY then
      (consoleScroll d s 1).map fun s => { s with cursorY := subU32 s.rows 1 }
    else .ok s
  .ok (consoleFlush d s)

/-- `console.buffer[cursor_y * cols + cursor_x] = c`. -/
def Console.store (s : Console) (c : UInt8) : Except ConsoleFault Console :=
  let i := s.cursorY * s.cols + s.cursorX
  if i < s.rows * s.cols then .ok { s with buffer := Function.update s.buffer i c }
  else .error (.cell i)

/-- A character that `console_putchar` draws; a `char` above 127 is negative. -/
def Printable (c : UInt8) : Prop := 0x20 ≤ c ∧ c ≤ 0x7E

instance (c : UInt8) : Decidable (Printable c) := inferInstanceAs (Decidable (_ ∧ _))

/-- The end of `console_putchar`, which stores the character and draws it. -/
def putAtCursor (d : Display) (s : Console) (c : UInt8) : Except ConsoleFault Console := do
  let s ← s.store c
  let s ← drawChar d s s.cursorX s.cursorY c
  .ok { s with cursorX := s.cursorX + 1 }

/-- `console_putchar`. -/
def consolePutchar (d : Display) (s : Console) (c : UInt8) : Except ConsoleFault Console :=
  if ¬ Printable c ∧ c ≠ 0x0A then .ok s
  else if c = 0x0A then consoleNewline d s
  else if s.cols ≤ s.cursorX then do
    let s ← consoleNewline d s
    putAtCursor d s c
  else putAtCursor d s c

/-- `console_ungetchar`. -/
def consoleUngetchar (d : Display) (s : Console) : Except ConsoleFault Console :=
  if 0 < s.cursorX then do
    let s := { s with cursorX := s.cursorX - 1 }
    let s ← s.store 0
    let screenX := s.cursorX * d.font.width
    let screenY := s.cursorY * d.font.height
    let s := { s with
      back := d.fillRect s.back screenX screenY (fontWidth + 1) (fontHeight + 1) s.bg }
    .ok (consoleFlush d (consoleMarkDirty s screenX screenY d.font.width d.font.height))
  else .ok (consoleFlush d s)

/-- `console_init`, which finds the buffers as they are, and no rectangle. -/
def consoleInit (d : Display) (fg bg : UInt32) (buffer : ℕ → UInt8) (back front : ℕ → UInt32) :
    Console :=
  consoleClear d
    { fg := fg
      bg := bg
      cols := d.width / d.font.width
      rows := d.height / d.font.height
      cursorX := 0
      cursorY := 0
      buffer := buffer
      rect := ⟨0, 0, 0, 0, false⟩
      back := back
      front := front }

/-! ### Operations -/

/-- What is done with the console; `console_printf` passes a text to `console_putchar`. -/
inductive ConsoleOp
  | putchar (c : UInt8)
  | ungetchar
  | printf (text : List UInt8)
  | scroll (lines : Int32)
  | clear
  | flush
deriving DecidableEq, Repr

def consoleStep (d : Display) (s : Console) : ConsoleOp → Except ConsoleFault Console
  | .putchar c => consolePutchar d s c
  | .ungetchar => consoleUngetchar d s
  | .printf text => text.foldlM (consolePutchar d) s
  | .scroll lines => consoleScroll d s lines
  | .clear => .ok (consoleClear d s)
  | .flush => .ok (consoleFlush d s)

/-- The console after these operations. -/
def consoleRun (d : Display) (s : Console) (ops : List ConsoleOp) : Except ConsoleFault Console :=
  ops.foldlM (consoleStep d) s

end HalOS
