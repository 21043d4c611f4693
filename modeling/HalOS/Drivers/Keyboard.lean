import Mathlib.Data.List.Basic
import Mathlib.Data.List.Induction
import Mathlib.Tactic.Common

/-!
# The Keyboard

`keyboard_handler` of `drivers/keyboard.c` gets a scan code from the keyboard, whose byte is ready
when its interrupt comes. A key that is held down sends its make code again and again.

What a character should be depends on the keys that are held, and what it is on the flag for the
shift keys. The flag is described by the events so far.

## Main results

* `shiftPressed_iff_latched`: when the flag is set.
* `followsKeys_iff`: when every character is the one of the keys that are held.
-/

namespace HalOS

abbrev scanCodeKeyTab : UInt8 := 0x0F
abbrev scanCodeKeyEnter : UInt8 := 0x1C
abbrev scanCodeKeyLeftShift : UInt8 := 0x2A
abbrev scanCodeKeyRightShift : UInt8 := 0x36
abbrev scanCodeKeyCapsLock : UInt8 := 0x3A

/-! ### The handler -/

/-- `g_scan_code_chars`. -/
def scanCodeChars : List UInt8 :=
  [0x00, 0x1B, 0x31, 0x32, 0x33, 0x34, 0x35, 0x36, 0x37, 0x38, 0x39, 0x30, 0x2D, 0x3D, 0x08,
    -- the tabulator and the row of Q
    0x09, 0x71, 0x77, 0x65, 0x72, 0x74, 0x79, 0x75, 0x69, 0x6F, 0x70, 0x5B, 0x5D, 0x0A,
    -- the row of A
    0x00, 0x61, 0x73, 0x64, 0x66, 0x67, 0x68, 0x6A, 0x6B, 0x6C, 0x3B, 0x27, 0x60, 0x00,
    -- the row of Z
    0x5C, 0x7A, 0x78, 0x63, 0x76, 0x62, 0x6E, 0x6D, 0x2C, 0x2E, 0x2F, 0x00, 0x2A, 0x00, 0x20] ++
  List.replicate 16 0x00 ++ [0x2D, 0x00, 0x00, 0x00, 0x2B] ++ List.replicate 49 0x00

/-- The cases of `alternate_chars`. -/
def alternateCases : List (UInt8 × UInt8) :=
  [(0x60, 0x7E), (0x31, 0x21), (0x32, 0x40), (0x33, 0x23), (0x34, 0x24), (0x35, 0x25), (0x36, 0x5E),
    (0x37, 0x26), (0x38, 0x2A), (0x39, 0x28), (0x30, 0x29), (0x2D, 0x5F), (0x3D, 0x2B),
    (0x5B, 0x7B), (0x5D, 0x7D), (0x5C, 0x7C), (0x3B, 0x3A), (0x27, 0x22), (0x2C, 0x3C),
    (0x2E, 0x3E), (0x2F, 0x3F)]

/-- `alternate_chars`. -/
def alternateChars (ch : UInt8) : UInt8 := (alternateCases.lookup ch).getD ch

/-- `isalpha`. -/
def isalpha (c : UInt8) : Bool := 0x41 ≤ c && c ≤ 0x5A || 0x61 ≤ c && c ≤ 0x7A

/-- `upper`. -/
def upper (c : UInt8) : UInt8 := if 0x61 ≤ c ∧ c ≤ 0x7A then c - 32 else c

/-- The variables of `keyboard.c`. -/
structure Keyboard where
  capsLock : Bool
  shiftPressed : Bool
  ch : UInt8
  scanCode : UInt8
deriving DecidableEq, Repr

/-- `keyboard_handler`, with what `get_scancode` returns. -/
def keyboardHandler (k : Keyboard) (scancode : UInt8) : Keyboard :=
  let k := { k with ch := 0, scanCode := scancode }
  if scancode &&& 0x80 ≠ 0 then k
  else if scancode = scanCodeKeyCapsLock then { k with capsLock := !k.capsLock }
  else if scancode = scanCodeKeyEnter then { k with ch := 0x0A }
  else if scancode = scanCodeKeyTab then { k with ch := 0x09 }
  else if scancode = scanCodeKeyLeftShift then { k with shiftPressed := true }
  else
    let ch := scanCodeChars.getD scancode.toNat 0
    if k.capsLock then
      { k with ch := if k.shiftPressed then alternateChars ch else upper ch }
    else
      { k with
        ch := if k.shiftPressed then if isalpha ch then upper ch else alternateChars ch else ch
        shiftPressed := false }

/-- `kb_getchar`, once there is a character; a `char` above 127 is negative. -/
def kbGetchar (k : Keyboard) : Option (UInt8 × Keyboard) :=
  if k.ch = 0 ∨ 0x80 ≤ k.ch then none else some (k.ch, { k with ch := 0, scanCode := 0 })

/-! ### Keys -/

/-- A key with two characters. -/
structure KeyChars where
  code : UInt8
  plain : UInt8
  shifted : UInt8
deriving DecidableEq, Repr

/-- The letters, the digits and the symbols of the keyboard. -/
def layout : List KeyChars :=
  [⟨0x02, 0x31, 0x21⟩, ⟨0x03, 0x32, 0x40⟩, ⟨0x04, 0x33, 0x23⟩, ⟨0x05, 0x34, 0x24⟩,
    ⟨0x06, 0x35, 0x25⟩, ⟨0x07, 0x36, 0x5E⟩, ⟨0x08, 0x37, 0x26⟩, ⟨0x09, 0x38, 0x2A⟩,
    ⟨0x0A, 0x39, 0x28⟩, ⟨0x0B, 0x30, 0x29⟩, ⟨0x0C, 0x2D, 0x5F⟩, ⟨0x0D, 0x3D, 0x2B⟩,
    ⟨0x10, 0x71, 0x51⟩, ⟨0x11, 0x77, 0x57⟩, ⟨0x12, 0x65, 0x45⟩, ⟨0x13, 0x72, 0x52⟩,
    ⟨0x14, 0x74, 0x54⟩, ⟨0x15, 0x79, 0x59⟩, ⟨0x16, 0x75, 0x55⟩, ⟨0x17, 0x69, 0x49⟩,
    ⟨0x18, 0x6F, 0x4F⟩, ⟨0x19, 0x70, 0x50⟩, ⟨0x1A, 0x5B, 0x7B⟩, ⟨0x1B, 0x5D, 0x7D⟩,
    ⟨0x1E, 0x61, 0x41⟩, ⟨0x1F, 0x73, 0x53⟩, ⟨0x20, 0x64, 0x44⟩, ⟨0x21, 0x66, 0x46⟩,
    ⟨0x22, 0x67, 0x47⟩, ⟨0x23, 0x68, 0x48⟩, ⟨0x24, 0x6A, 0x4A⟩, ⟨0x25, 0x6B, 0x4B⟩,
    ⟨0x26, 0x6C, 0x4C⟩, ⟨0x27, 0x3B, 0x3A⟩, ⟨0x28, 0x27, 0x22⟩, ⟨0x29, 0x60, 0x7E⟩,
    ⟨0x2B, 0x5C, 0x7C⟩, ⟨0x2C, 0x7A, 0x5A⟩, ⟨0x2D, 0x78, 0x58⟩, ⟨0x2E, 0x63, 0x43⟩,
    ⟨0x2F, 0x76, 0x56⟩, ⟨0x30, 0x62, 0x42⟩, ⟨0x31, 0x6E, 0x4E⟩, ⟨0x32, 0x6D, 0x4D⟩,
    ⟨0x33, 0x2C, 0x3C⟩, ⟨0x34, 0x2E, 0x3E⟩, ⟨0x35, 0x2F, 0x3F⟩]

def KeyChars.isLetter (e : KeyChars) : Bool := 0x61 ≤ e.plain && e.plain ≤ 0x7A

inductive Key
  | printable (e : KeyChars) (h : e ∈ layout)
  | leftShift
  | rightShift
  | capsLock

namespace Key

def code : Key → UInt8
  | printable e _ => e.code
  | leftShift => scanCodeKeyLeftShift
  | rightShift => scanCodeKeyRightShift
  | capsLock => scanCodeKeyCapsLock

/-- The key is one that the handler has no case for. -/
def IsOrdinary : Key → Prop
  | printable _ _ => True
  | leftShift => False
  | rightShift => True
  | capsLock => False

end Key

inductive KeyEvent
  | press (key : Key)
  | release (key : Key)

/-- The make code or the break code. -/
def KeyEvent.scancode : KeyEvent → UInt8
  | press key => key.code
  | release key => key.code ||| 0x80

/-- Which of the two shift keys are down, and whether caps lock is on: it changes with each make
code. -/
structure HeldKeys where
  left : Bool
  right : Bool
  caps : Bool
deriving DecidableEq, Repr

namespace HeldKeys

def next (held : HeldKeys) : KeyEvent → HeldKeys
  | .press .leftShift => { held with left := true }
  | .press .rightShift => { held with right := true }
  | .press .capsLock => { held with caps := !held.caps }
  | .release .leftShift => { held with left := false }
  | .release .rightShift => { held with right := false }
  | _ => held

/-- Some shift key is down. -/
def shift (held : HeldKeys) : Bool := held.left || held.right

/-- After these events. -/
def after (events : List KeyEvent) : HeldKeys := events.foldl next ⟨false, false, false⟩

end HeldKeys

/-- The character of a key: a letter is upper case if either a shift key is down or caps lock is on,
another key has its shifted symbol if a shift key is down. -/
def KeyChars.char (e : KeyChars) (caps shift : Bool) : UInt8 :=
  if (if e.isLetter then caps != shift else shift) then e.shifted else e.plain

/-! ### Runs -/

/-- The handler is called for the event, and `kb_getchar` takes the character. -/
def Keyboard.step (k : Keyboard) (event : KeyEvent) : Keyboard :=
  let k := keyboardHandler k event.scancode
  (kbGetchar k).elim k fun read => read.2

/-- The variables after these events. -/
def Keyboard.after (events : List KeyEvent) : Keyboard :=
  events.foldl Keyboard.step ⟨false, false, 0, 0⟩

/-- Each character is the one of the keys that are held then. -/
def FollowsKeys (events : List KeyEvent) : Prop :=
  ∀ before e h later, events = before ++ .press (.printable e h) :: later →
    (keyboardHandler (.after before) e.code).ch =
      e.char (HeldKeys.after before).caps (HeldKeys.after before).shift

/-- The left shift key has been pressed, and since then no other key without caps lock. -/
def Latched (events : List KeyEvent) : Prop :=
  ∃ before later, events = before ++ .press .leftShift :: later ∧
    ∀ middle key rest, later = middle ++ .press key :: rest → key.IsOrdinary →
      (HeldKeys.after (before ++ .press .leftShift :: middle)).caps = true

theorem HeldKeys.after_concat (events : List KeyEvent) (event : KeyEvent) :
    HeldKeys.after (events ++ [event]) = (HeldKeys.after events).next event :=
  List.foldl_append

theorem Keyboard.after_concat (events : List KeyEvent) (event : KeyEvent) :
    Keyboard.after (events ++ [event]) = (Keyboard.after events).step event :=
  List.foldl_append

/-- Taking the character leaves the flags. -/
theorem Keyboard.step_flags (k : Keyboard) (event : KeyEvent) :
    (k.step event).capsLock = (keyboardHandler k event.scancode).capsLock ∧
      (k.step event).shiftPressed = (keyboardHandler k event.scancode).shiftPressed := by
  rw [Keyboard.step, kbGetchar]
  split_ifs
  · exact ⟨rfl, rfl⟩
  · exact ⟨rfl, rfl⟩

/-- A key is released, and the handler does nothing. -/
theorem keyboardHandler_release (k : Keyboard) (key : Key) :
    keyboardHandler k (KeyEvent.release key).scancode =
      { k with ch := 0, scanCode := (KeyEvent.release key).scancode } := by
  have h : ∀ n < 256, (UInt8.ofNat n ||| 0x80) &&& 0x80 ≠ 0 := by decide +kernel
  have hbit := h key.code.toNat key.code.toNat_lt
  rw [UInt8.ofNat_toNat] at hbit
  exact if_pos hbit

/-- An ordinary key clears the flag for the shift keys, but not if caps lock is on. -/
theorem keyboardHandler_ordinary (key : Key) (h : key.IsOrdinary) (k : Keyboard) :
    (keyboardHandler k key.code).capsLock = k.capsLock ∧
      (keyboardHandler k key.code).shiftPressed = (k.shiftPressed && k.capsLock) := by
  have hright : ∀ caps shift,
      (keyboardHandler ⟨caps, shift, 0, 0⟩ scanCodeKeyRightShift).capsLock = caps ∧
        (keyboardHandler ⟨caps, shift, 0, 0⟩ scanCodeKeyRightShift).shiftPressed =
          (shift && caps) := by decide +kernel
  have hlayout : ∀ e ∈ layout, ∀ caps shift,
      (keyboardHandler ⟨caps, shift, 0, 0⟩ e.code).capsLock = caps ∧
        (keyboardHandler ⟨caps, shift, 0, 0⟩ e.code).shiftPressed = (shift && caps) := by
    decide +kernel
  cases key with
  | printable e he => exact hlayout e he k.capsLock k.shiftPressed
  | leftShift => exact h.elim
  | rightShift => exact hright k.capsLock k.shiftPressed
  | capsLock => exact h.elim

/-- The characters of the keys. -/
theorem ch_keyboardHandler {e : KeyChars} (he : e ∈ layout) (k : Keyboard) :
    (keyboardHandler k e.code).ch = e.char k.capsLock k.shiftPressed := by
  have h : ∀ e ∈ layout, ∀ caps shift, (keyboardHandler ⟨caps, shift, 0, 0⟩ e.code).ch =
      e.char caps shift := by decide +kernel
  exact h e he k.capsLock k.shiftPressed

theorem plain_ne_shifted {e : KeyChars} (he : e ∈ layout) : e.plain ≠ e.shifted := by
  revert e
  decide

/-! ### The flags -/

/-- The flag for caps lock is right. -/
theorem capsLock_after (events : List KeyEvent) :
    (Keyboard.after events).capsLock = (HeldKeys.after events).caps := by
  induction events using List.reverseRecOn with
  | nil => rfl
  | append_singleton events event ih =>
      rw [Keyboard.after_concat, HeldKeys.after_concat, (Keyboard.step_flags _ _).1]
      cases event with
      | release key =>
          rw [keyboardHandler_release]
          cases key <;> exact ih
      | press key =>
          cases key with
          | printable e he =>
              exact (keyboardHandler_ordinary (.printable e he) trivial _).1.trans ih
          | leftShift => exact ih
          | rightShift => exact (keyboardHandler_ordinary .rightShift trivial _).1.trans ih
          | capsLock => exact congrArg not ih

theorem not_latched_nil : ¬ Latched [] := by
  rintro ⟨before, later, hevents, -⟩
  cases before with
  | nil => cases hevents
  | cons event before => cases hevents

/-- One event more. -/
theorem latched_concat (events : List KeyEvent) (event : KeyEvent) :
    Latched (events ++ [event]) ↔ event = .press .leftShift ∨
      (Latched events ∧ ∀ key, event = .press key → key.IsOrdinary →
        (HeldKeys.after events).caps = true) := by
  constructor
  · rintro ⟨before, later, hevents, hlater⟩
    obtain rfl | ⟨middle, last, rfl⟩ := later.eq_nil_or_concat'
    · exact .inl (List.singleton_inj.mp (List.append_inj' hevents rfl).2)
    · rw [← List.cons_append, ← List.append_assoc] at hevents
      obtain ⟨rfl, hlast⟩ := List.append_inj' hevents rfl
      obtain rfl := List.singleton_inj.mp hlast
      refine .inr ⟨⟨before, middle, rfl, ?_⟩, ?_⟩
      · rintro early key rest rfl
        exact hlater early key (rest ++ [event]) (by simp)
      · rintro key rfl
        exact hlater middle key [] rfl
  · rintro (rfl | ⟨⟨before, later, rfl, hlater⟩, hevent⟩)
    · refine ⟨events, [], rfl, ?_⟩
      rintro middle key rest hrest
      cases middle <;> cases hrest
    · refine ⟨before, later ++ [event], by simp, ?_⟩
      intro middle key rest hrest
      obtain rfl | ⟨early, last, rfl⟩ := rest.eq_nil_or_concat'
      · obtain ⟨rfl, hlast⟩ := List.append_inj' hrest rfl
        exact hevent key (List.singleton_inj.mp hlast)
      · rw [← List.cons_append, ← List.append_assoc] at hrest
        exact hlater middle key early (List.append_inj' hrest rfl).1

/-- The flag for the shift keys. -/
theorem shiftPressed_iff_latched (events : List KeyEvent) :
    (Keyboard.after events).shiftPressed = true ↔ Latched events := by
  induction events using List.reverseRecOn with
  | nil => exact iff_of_false Bool.false_ne_true not_latched_nil
  | append_singleton events event ih =>
      rw [Keyboard.after_concat, (Keyboard.step_flags _ _).2, latched_concat, ← ih,
        ← capsLock_after]
      have hordinary {key : Key} (h : key.IsOrdinary) (hne : key ≠ .leftShift) :
          (keyboardHandler (.after events) (KeyEvent.press key).scancode).shiftPressed = true ↔
            KeyEvent.press key = .press .leftShift ∨
              ((Keyboard.after events).shiftPressed = true ∧
                ∀ other, KeyEvent.press key = .press other → other.IsOrdinary →
                  (Keyboard.after events).capsLock = true) := by
        have hshift := (keyboardHandler_ordinary key h (.after events)).2
        rw [KeyEvent.scancode, hshift, Bool.and_eq_true, KeyEvent.press.injEq,
          or_iff_right hne, and_congr_right_iff]
        refine fun _ => ⟨fun hcaps _ _ _ => hcaps, fun hall => hall key rfl h⟩
      cases event with
      | release key =>
          rw [keyboardHandler_release]
          simp
      | press key =>
          cases key with
          | printable e he => exact hordinary trivial (by rintro ⟨⟩)
          | leftShift => exact iff_of_true rfl (.inl rfl)
          | rightShift => exact hordinary trivial (by rintro ⟨⟩)
          | capsLock =>
              refine ⟨fun h => .inr ⟨h, ?_⟩, fun h => ?_⟩
              · rintro _ ⟨⟩ ⟨⟩
              · exact (h.resolve_left (by rintro ⟨⟩)).1

/-! ### Characters -/

/-- **The characters** are those of the keys that are held exactly if at each press of a key with
two characters the left shift key has been pressed, and since then no other key without caps lock,
just when some shift key is down. -/
theorem followsKeys_iff (events : List KeyEvent) :
    FollowsKeys events ↔
      ∀ before e h later, events = before ++ .press (.printable e h) :: later →
        (Latched before ↔ (HeldKeys.after before).shift = true) := by
  have hchar (e : KeyChars) (h : e ∈ layout) (caps shift latch : Bool) :
      e.char caps latch = e.char caps shift ↔ (latch = true ↔ shift = true) := by
    have hne := plain_ne_shifted h
    rw [KeyChars.char, KeyChars.char]
    cases e.isLetter <;> cases caps <;> cases shift <;> cases latch <;> simp [hne, hne.symm]
  refine forall_congr' fun before => forall_congr' fun e => forall_congr' fun h =>
    forall_congr' fun later => imp_congr_right fun _ => ?_
  rw [ch_keyboardHandler h, capsLock_after, hchar e h, shiftPressed_iff_latched]

/-- The key A. -/
def keyA : Key := .printable ⟨0x1E, 0x61, 0x41⟩ (by decide)

/-- The second of two letters is lower case, although the left shift key is still down. -/
theorem followsKeys_violated : ¬ ∀ events, FollowsKeys events := by
  intro hall
  have h := hall [.press .leftShift, .press keyA, .release keyA, .press keyA]
    [.press .leftShift, .press keyA, .release keyA] ⟨0x1E, 0x61, 0x41⟩ (by decide) [] rfl
  exact absurd h (by decide +kernel)

end HalOS
