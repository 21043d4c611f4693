import HalOS.Lib.CString
import Mathlib.Algebra.Ring.Nat

/-!
# Records in Memory

A C structure of 32-bit members in a memory of bytes. A word is stored with its lowest byte
first; the members of a record lie one after another from its address on. Records whose
addresses are equal or far enough apart do not share a byte, so that a store to one member
changes that member of that record and nothing else. `Writes` follows a sequence of such
stores: what the members are afterwards, and that no byte outside the records has changed.

## Main results

* `word_putWord`, `word_putWord_of_apart`: a word after a store.
* `field_setField`: a member after a store to a member.
* `Writes.set`: one store more.
-/

namespace Records

open CString (Memory)

/-! ### Words -/

/-- The 32-bit word at an address. -/
def word (m : Memory) (a : ℕ) : ℕ :=
  (m a).toNat + 256 * (m (a + 1)).toNat + 65536 * (m (a + 2)).toNat +
    16777216 * (m (a + 3)).toNat

/-- Store a word. -/
def putWord (m : Memory) (a v : ℕ) : Memory := fun p =>
  if a ≤ p ∧ p < a + 4 then UInt8.ofNat (v / 256 ^ (p - a)) else m p

theorem word_lt (m : Memory) (a : ℕ) : word m a < 2 ^ 32 := by
  have h0 := (m a).toNat_lt
  have h1 := (m (a + 1)).toNat_lt
  have h2 := (m (a + 2)).toNat_lt
  have h3 := (m (a + 3)).toNat_lt
  rw [word]
  omega

theorem word_congr {m m' : Memory} {a : ℕ} (h : ∀ p, a ≤ p → p < a + 4 → m' p = m p) :
    word m' a = word m a := by
  rw [word, word, h a (by omega) (by omega), h (a + 1) (by omega) (by omega),
    h (a + 2) (by omega) (by omega), h (a + 3) (by omega) (by omega)]

/-- A byte of a store. -/
theorem putWord_apply (m : Memory) (a v k : ℕ) (hk : k < 4) :
    (putWord m a v (a + k)).toNat = v / 256 ^ k % 256 := by
  rw [putWord, if_pos (by omega), Nat.add_sub_cancel_left, UInt8.toNat_ofNat']

theorem putWord_of_outside {m : Memory} {a v p : ℕ} (h : p < a ∨ a + 4 ≤ p) :
    putWord m a v p = m p := if_neg (by omega)

/-- A stored word is read back. -/
theorem word_putWord {v : ℕ} (m : Memory) (a : ℕ) (hv : v < 2 ^ 32) :
    word (putWord m a v) a = v := by
  have h0 : (putWord m a v a).toNat = v % 256 := by simpa using putWord_apply m a v 0 (by decide)
  have h1 := putWord_apply m a v 1 (by decide)
  have h2 := putWord_apply m a v 2 (by decide)
  have h3 := putWord_apply m a v 3 (by decide)
  rw [word, h0, h1, h2, h3]
  omega

theorem word_putWord_of_apart {m : Memory} {a b v : ℕ} (h : b + 4 ≤ a ∨ a + 4 ≤ b) :
    word (putWord m a v) b = word m b :=
  word_congr fun _ _ _ => putWord_of_outside (by omega)

/-! ### Records -/

/-- The members of a structure of words. -/
class Layout (φ : Type) where
  words : ℕ
  position : φ → ℕ
  position_lt : ∀ f, position f < words
  position_injective : Function.Injective position

section Fields

variable {φ : Type} [Layout φ]

/-- Where a member lies in its structure. -/
def offset (f : φ) : ℕ := 4 * Layout.position f

variable (φ) in
/-- `sizeof` of the structure. -/
def sizeOf : ℕ := 4 * Layout.words φ

/-- The member `f` of the record at `p`. -/
def field (m : Memory) (p : ℕ) (f : φ) : ℕ := word m (p + offset f)

/-- `p->f = v`. -/
def setField (m : Memory) (p : ℕ) (f : φ) (v : ℕ) : Memory := putWord m (p + offset f) v

theorem field_lt (m : Memory) (p : ℕ) (f : φ) : field m p f < 2 ^ 32 := word_lt _ _

theorem offset_lt (f : φ) : offset f + 4 ≤ sizeOf φ := by
  have := Layout.position_lt f
  rw [offset, sizeOf]
  omega

theorem field_congr {m m' : Memory} {p : ℕ} (h : ∀ a, p ≤ a → a < p + sizeOf φ → m' a = m a)
    (f : φ) : field m' p f = field m p f := by
  have hlt := offset_lt f
  exact word_congr fun a _ _ => h a (by omega) (by omega)

theorem offset_apart {f g : φ} (h : f ≠ g) : offset f + 4 ≤ offset g ∨ offset g + 4 ≤ offset f := by
  have hne : Layout.position f ≠ Layout.position g := fun heq =>
    h (Layout.position_injective heq)
  rw [offset, offset]
  omega

variable (φ) in
/-- Two records are one, or share no byte. -/
def Separate (p q : ℕ) : Prop := p = q ∨ p + sizeOf φ ≤ q ∨ q + sizeOf φ ≤ p

variable (φ) in
/-- Any two records of a set are one, or share no byte. -/
def Spaced (S : Set ℕ) : Prop := ∀ p ∈ S, ∀ q ∈ S, Separate φ p q

theorem Spaced.mono {S T : Set ℕ} (h : Spaced φ T) (hST : S ⊆ T) : Spaced φ S :=
  fun p hp q hq => h p (hST hp) q (hST hq)

/-- Lies in no record of a set. -/
def Outside (φ : Type) [Layout φ] (S : Set ℕ) (a : ℕ) : Prop := ∀ p ∈ S, a < p ∨ p + sizeOf φ ≤ a

/-- A member after a store to a member. -/
theorem field_setField [DecidableEq φ] {m : Memory} {p q v : ℕ} {f g : φ} (h : Separate φ p q) (hv : v < 2 ^ 32) :
    field (setField m p f v) q g = if q = p ∧ g = f then v else field m q g := by
  have hf := offset_lt f
  have hg := offset_lt g
  by_cases hsame : q = p ∧ g = f
  · obtain ⟨rfl, rfl⟩ := hsame
    rw [if_pos ⟨rfl, rfl⟩, field, setField, word_putWord _ _ hv]
  · rw [if_neg hsame, field, field, setField, word_putWord_of_apart]
    obtain rfl | hpq | hqp := h
    · have := offset_apart (f := f) (g := g) fun heq => hsame ⟨rfl, heq.symm⟩
      omega
    · omega
    · omega

end Fields

/-! ### Sequences of stores -/

/-- The members of the records at all addresses. -/
abbrev View (φ : Type) := ℕ → φ → ℕ

section Stores

variable {φ : Type} [DecidableEq φ]

/-- `p->f = v` in a view. -/
def View.set (V : View φ) (p : ℕ) (f : φ) (v : ℕ) : View φ := fun q g =>
  if q = p ∧ g = f then v else V q g

theorem View.set_apply (V : View φ) (p : ℕ) (f : φ) (v q : ℕ) (g : φ) :
    V.set p f v q g = if q = p ∧ g = f then v else V q g := rfl

/-- Storing what is there changes nothing. -/
theorem View.set_eq_self {V : View φ} {p : ℕ} {f : φ} {v : ℕ} (h : V p f = v) :
    V.set p f v = V := by
  funext q g
  rw [View.set_apply]
  split_ifs with heq
  · rw [heq.1, heq.2, h]
  · rfl

variable [Layout φ]

/-- `m'` comes from `m` by stores to records of `S`, whose members are then those of `V`. -/
structure Writes (S : Set ℕ) (m m' : Memory) (V : View φ) : Prop where
  on : ∀ p ∈ S, ∀ f, field m' p f = V p f
  off : ∀ a, Outside φ S a → m' a = m a

omit [DecidableEq φ] in
theorem Writes.refl (S : Set ℕ) (m : Memory) : Writes S m m (field (φ := φ) m) :=
  ⟨fun _ _ _ => rfl, fun _ _ => rfl⟩

omit [DecidableEq φ] in
theorem Writes.congr {S : Set ℕ} {m m' : Memory} {V W : View φ} (h : Writes S m m' V)
    (hVW : ∀ p ∈ S, ∀ f, V p f = W p f) : Writes S m m' W :=
  ⟨fun p hp f => (h.on p hp f).trans (hVW p hp f), h.off⟩

omit [DecidableEq φ] in
theorem Writes.trans {S : Set ℕ} {m m' m'' : Memory} {V W : View φ} (h : Writes S m m' V)
    (h' : Writes S m' m'' W) : Writes S m m'' W :=
  ⟨h'.on, fun a ha => (h'.off a ha).trans (h.off a ha)⟩

/-- One store more. -/
theorem Writes.set {S : Set ℕ} {m m' : Memory} {V : View φ} (h : Writes S m m' V)
    (hS : Spaced φ S) {p v : ℕ} (hp : p ∈ S) (f : φ) (hv : v < 2 ^ 32) :
    Writes S m (setField m' p f v) (V.set p f v) where
  on q hq g := by rw [field_setField (hS p hp q hq) hv, View.set_apply, h.on q hq g]
  off a ha := by
    have hlt := offset_lt f
    have hap := ha p hp
    rw [← h.off a ha, setField, putWord_of_outside (by omega)]

end Stores

end Records
