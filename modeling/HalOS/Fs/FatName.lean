import HalOS.Fs.Fat
import Mathlib.Data.List.GetD
import Mathlib.Order.Basic

/-!
# Long Names

A name is stored in parts of 13 characters, the last part first. `parse_lfn_entry` puts each part
where its sequence number says, so the buffer then holds the name from front to back; and
`fat32_next_dir_entry` copies the parts out of it from back to front.

## Main results

* `length_fat32NextDirEntry`: no long name is left over when a call returns.
* `decodes_iff_reversible`: the names that are read as they were stored.
-/

namespace HalOS

open CString (Memory)
open Outcome (bind_eq_ok)

/-! ### Entries, one after the other -/

section Entries

variable {disk : Disk} {v : Fat32Volume}

/-- Reading goes through these entries, from the first list to the second. -/
inductive Reads (disk : Disk) (v : Fat32Volume) : Fat32DirList → List Memory → Fat32DirList → Prop
  | nil (list : Fat32DirList) : Reads disk v list [] list
  | cons {list mid list' : Fat32DirList} {entry : Memory} {entries : List Memory} :
      readNextEntry disk v list = .ok (some entry, mid) → Reads disk v mid entries list' →
      Reads disk v list (entry :: entries) list'

/-- Reading in two parts. -/
theorem Reads.of_append {list list' : Fat32DirList} {entries entries' : List Memory}
    (h : Reads disk v list (entries ++ entries') list') :
    ∃ mid, Reads disk v list entries mid ∧ Reads disk v mid entries' list' := by
  induction entries generalizing list with
  | nil => exact ⟨list, .nil list, h⟩
  | cons entry entries ih =>
      cases h with
      | cons hread hrest =>
          obtain ⟨mid, h₁, h₂⟩ := ih hrest
          exact ⟨mid, .cons hread h₁, h₂⟩

theorem Reads.append {list mid list' : Fat32DirList} {entries entries' : List Memory}
    (h : Reads disk v list entries mid) (h' : Reads disk v mid entries' list') :
    Reads disk v list (entries ++ entries') list' := by
  induction h with
  | nil list => exact h'
  | cons hread _ ih => exact .cons hread (ih h')

/-- An entry that no result comes of is passed over. -/
theorem fat32NextDirEntry_skip {lfn lfn' : LfnState} {list mid : Fat32DirList} {entry : Memory}
    (hread : readNextEntry disk v list = .ok (some entry, mid))
    (hstep : entryStep lfn entry = .ok (lfn', none)) (fuel : ℕ) :
    fat32NextDirEntry disk v (fuel + 1) ⟨lfn, list⟩ =
      fat32NextDirEntry disk v fuel ⟨lfn', mid⟩ := by
  rw [fat32NextDirEntry]
  dsimp only
  rw [hread]
  change (entryStep lfn entry >>= _) = _
  rw [hstep]
  rfl

/-- An entry that a result comes of ends the call. -/
theorem fat32NextDirEntry_found {lfn lfn' : LfnState} {list mid : Fat32DirList} {entry : Memory}
    {out : DirEntry} (hread : readNextEntry disk v list = .ok (some entry, mid))
    (hstep : entryStep lfn entry = .ok (lfn', some out)) (fuel : ℕ) :
    fat32NextDirEntry disk v (fuel + 1) ⟨lfn, list⟩ = .ok (some out, ⟨lfn', mid⟩) := by
  rw [fat32NextDirEntry]
  dsimp only
  rw [hread]
  change (entryStep lfn entry >>= _) = _
  rw [hstep]
  rfl

/-- So does an entry that faults. -/
theorem fat32NextDirEntry_fault {lfn : LfnState} {list mid : Fat32DirList} {entry : Memory}
    {e : FatFault} (hread : readNextEntry disk v list = .ok (some entry, mid))
    (hstep : entryStep lfn entry = .error e) (fuel : ℕ) :
    fat32NextDirEntry disk v (fuel + 1) ⟨lfn, list⟩ = .error e := by
  rw [fat32NextDirEntry]
  dsimp only
  rw [hread]
  change (entryStep lfn entry >>= _) = _
  rw [hstep]
  rfl

end Entries

/-! ### The three kinds of entries -/

section EntryStep

variable {st : LfnState} {entry : Memory}

theorem entryStep_lfn (st : LfnState) (hattrib : entryAttrib entry = dirEntryAttribLfn)
    (hseq : lfnSequence entry ≠ 0) :
    entryStep st entry = (do
      let buffer ← parseLfnEntry entry st.buffer
      .ok ({ buffer := buffer,
             length := if st.length < lfnSequence entry then lfnSequence entry else st.length },
        none)) := by
  rw [entryStep, if_pos hattrib]
  exact if_neg hseq

theorem entryStep_long (hattrib : entryAttrib entry ≠ dirEntryAttribLfn) (hlen : 0 < st.length) :
    entryStep st entry = (do
      let name ← joinLfn st.buffer st.length.toNat
      .ok ({ st with length := 0 }, some { file := entryFile entry, name := name })) := by
  rw [entryStep, if_neg hattrib, if_pos hlen]

theorem entryStep_short (hattrib : entryAttrib entry ≠ dirEntryAttribLfn) (hlen : st.length = 0) :
    entryStep st entry =
      .ok (st, some { file := entryFile entry, name := parseShortFilename entry }) := by
  have hlen' : ¬ 0 < st.length := by
    rw [hlen]
    exact UInt8.lt_irrefl 0
  rw [entryStep, if_neg hattrib, if_neg hlen']

/-- No long name is left over when there is a result. -/
theorem length_of_entryStep {st' : LfnState} {out : DirEntry}
    (h : entryStep st entry = .ok (st', some out)) : st'.length = 0 := by
  by_cases hattrib : entryAttrib entry = dirEntryAttribLfn
  · rw [entryStep, if_pos hattrib] at h
    by_cases hseq : lfnSequence entry = 0
    · simp only [if_pos hseq] at h
      cases Except.ok.inj h
    · simp only [if_neg hseq] at h
      obtain ⟨buffer, -, h⟩ := bind_eq_ok.mp h
      cases Except.ok.inj h
  · by_cases hlen : st.length = 0
    · rw [entryStep_short hattrib hlen] at h
      obtain ⟨rfl, -⟩ := Prod.mk.inj (Except.ok.inj h)
      exact hlen
    · rw [entryStep_long hattrib (UInt8.pos_iff_ne_zero.mpr hlen)] at h
      obtain ⟨name, -, h⟩ := bind_eq_ok.mp h
      obtain ⟨rfl, -⟩ := Prod.mk.inj (Except.ok.inj h)
      rfl

end EntryStep

/-- No long name is left over when a call returns. -/
theorem length_fat32NextDirEntry {disk : Disk} {v : Fat32Volume} {fuel : ℕ} {st st' : DirState}
    {out : Option DirEntry} (h : fat32NextDirEntry disk v fuel st = .ok (out, st')) :
    st'.lfn.length = 0 := by
  induction fuel generalizing st with
  | zero => cases h
  | succ fuel ih =>
      rw [fat32NextDirEntry] at h
      obtain ⟨⟨entry, list⟩, -, h⟩ := bind_eq_ok.mp h
      cases entry with
      | none =>
          obtain ⟨-, rfl⟩ := Prod.mk.inj (Except.ok.inj h)
          rfl
      | some entry =>
          obtain ⟨⟨lfn, found⟩, hstep, h⟩ := bind_eq_ok.mp h
          cases found with
          | none => exact ih h
          | some found =>
              obtain ⟨-, rfl⟩ := Prod.mk.inj (Except.ok.inj h)
              exact length_of_entryStep hstep

/-! ### Names in parts -/

/-- Unit `p` of a stored name: its characters, a zero, and padding. -/
def lfnUnit (name : List UInt8) (p : ℕ) : UInt16 :=
  if p < name.length then (name.getD p 0).toUInt16 else if p = name.length then 0 else 0xFFFF

/-- How many entries a name takes. -/
def lfnParts (name : List UInt8) : ℕ := (name.length + 12) / 13

/-- The entry with part `k` of the name. -/
structure LfnEntry (name : List UInt8) (k : ℕ) (entry : Memory) : Prop where
  attrib : entryAttrib entry = dirEntryAttribLfn
  sequence : entry 0 = UInt8.ofNat k ||| if k = lfnParts name then 0x40 else 0
  units : ∀ i < 13, lfnChar entry i = lfnUnit name ((k - 1) * 13 + i)

/-- The entries with the first `k` parts of the name, the last of them first. -/
inductive LfnEntries (name : List UInt8) : ℕ → List Memory → Prop
  | nil : LfnEntries name 0 []
  | cons {k : ℕ} {entry : Memory} {entries : List Memory} :
      LfnEntry name (k + 1) entry → LfnEntries name k entries →
      LfnEntries name (k + 1) (entry :: entries)

/-- The name is stored in the entries, before the short entry. -/
structure StoredName (name : List UInt8) (entries : List Memory) (short : Memory) : Prop where
  chars : ∀ c ∈ name, c ≠ 0
  length_pos : 1 ≤ name.length
  length_le : name.length ≤ 255
  entries : LfnEntries name (lfnParts name) entries
  short : entryAttrib short ≠ dirEntryAttribLfn

/-- Part `k` of a name. -/
def namePart (name : List UInt8) (k : ℕ) : List UInt8 := (name.drop (k * 13)).take 13

/-- The name has one part, or up to 19 full ones that read the same in reverse order. -/
def Reversible (name : List UInt8) : Prop :=
  name.length ≤ 13 ∨
    (name.length % 13 = 0 ∧ name.length ≤ 247 ∧
      ∀ k < lfnParts name, namePart name k = namePart name (lfnParts name - k - 1))

instance (name : List UInt8) : Decidable (Reversible name) :=
  inferInstanceAs (Decidable (_ ∨ _ ∧ _ ∧ _))

/-! ### Into the buffer -/

/-- The loop copies the characters before the padding. -/
theorem parseLfnChars_eq (lfn : Memory) {n i m : ℕ} (him : i ≤ m) (hmn : m ≤ i + n)
    (hchar : ∀ j, i ≤ j → j < m → lfnChar lfn j ≠ 0xFFFF)
    (hend : m = i + n ∨ lfnChar lfn m = 0xFFFF)
    (hsize : i < m → ((lfnSequence lfn).toNat - 1) * 13 + m ≤ nameSize) (buffer : Memory) :
    parseLfnChars lfn n i buffer = .ok fun p =>
      if ((lfnSequence lfn).toNat - 1) * 13 + i ≤ p ∧
          p < ((lfnSequence lfn).toNat - 1) * 13 + m then
        (lfnChar lfn (p - ((lfnSequence lfn).toNat - 1) * 13)).toUInt8
      else buffer p := by
  induction n generalizing i buffer with
  | zero =>
      obtain rfl : i = m := by omega
      rw [parseLfnChars]
      congr 1
      funext p
      rw [if_neg (by omega)]
  | succ n ih =>
      rw [parseLfnChars]
      by_cases hi : i = m
      · subst hi
        have hpad : lfnChar lfn i = 0xFFFF := hend.resolve_left (by omega)
        rw [if_pos hpad]
        congr 1
        funext p
        rw [if_neg (by omega)]
      have hsize' := hsize (by omega)
      rw [if_neg (hchar i (Nat.le_refl i) (by omega))]
      dsimp only
      rw [if_neg (by omega : ¬ nameSize ≤ ((lfnSequence lfn).toNat - 1) * 13 + i),
        ih (by omega) (by omega) (fun j hj => hchar j (by omega)) (hend.imp_left (by omega))
          fun _ => hsize']
      congr 1
      funext p
      rw [Function.update_apply]
      by_cases hp : p = ((lfnSequence lfn).toNat - 1) * 13 + i
      · rw [if_neg (by omega), if_pos hp, if_pos (by omega), hp, Nat.add_sub_cancel_left]
      · rw [if_neg hp]
        exact if_congr (by omega) rfl rfl

section Stored

variable {name : List UInt8}

theorem lfnParts_pos (h : 1 ≤ name.length) : 0 < lfnParts name := by
  rw [lfnParts]
  omega

/-- The character at a place of the name, or its terminator. -/
theorem toUInt8_lfnUnit {p : ℕ} (hp : p ≤ name.length) :
    (lfnUnit name p).toUInt8 = name.getD p 0 := by
  rw [lfnUnit]
  by_cases hlt : p < name.length
  · rw [if_pos hlt, UInt8.toUInt8_toUInt16]
  · rw [if_neg hlt, if_pos (by omega), List.getD_eq_default _ _ (by omega)]
    rfl

theorem lfnUnit_ne_pad {p : ℕ} (hp : p ≤ name.length) : lfnUnit name p ≠ 0xFFFF := by
  rw [lfnUnit]
  by_cases hlt : p < name.length
  · rw [if_pos hlt]
    intro h
    have := congrArg UInt16.toNat h
    rw [UInt8.toNat_toUInt16] at this
    have hc := (name.getD p 0).toNat_lt
    change _ = 65535 at this
    omega
  · rw [if_neg hlt, if_pos (by omega)]
    decide

theorem lfnUnit_pad {p : ℕ} (hp : name.length < p) : lfnUnit name p = 0xFFFF := by
  rw [lfnUnit, if_neg (by omega), if_neg (by omega)]

/-- The sequence number of an entry. -/
theorem LfnEntry.toNat_lfnSequence {k : ℕ} {entry : Memory} (h : LfnEntry name k entry)
    (hk : k < 32) : (lfnSequence entry).toNat = k := by
  have hmask : ∀ k < 32, ((UInt8.ofNat k ||| 0x40) &&& 0x1F).toNat = k ∧
      ((UInt8.ofNat k ||| 0) &&& 0x1F).toNat = k := by decide
  rw [lfnSequence, h.sequence]
  by_cases hlast : k = lfnParts name
  · rw [if_pos hlast]
    exact (hmask k hk).1
  · rw [if_neg hlast]
    exact (hmask k hk).2

/-- The buffer holds the name from part `k` on. -/
def HoldsFrom (name : List UInt8) (k : ℕ) (buffer : Memory) : Prop :=
  ∀ p, k * 13 ≤ p → p < lfnParts name * 13 → p ≤ name.length → buffer p = name.getD p 0

/-- Part `k` is added in front of those already in the buffer. -/
theorem LfnEntry.parseLfnEntry_eq {k : ℕ} {entry : Memory} (h : LfnEntry name (k + 1) entry)
    (hk : k < lfnParts name) (hlen : name.length ≤ 255) {buffer : Memory}
    (hbuf : HoldsFrom name (k + 1) buffer) :
    ∃ buffer', parseLfnEntry entry buffer = .ok buffer' ∧ HoldsFrom name k buffer' := by
  have hparts : (lfnParts name - 1) * 13 < name.length := by
    rw [lfnParts] at hk ⊢
    omega
  have hseq : (lfnSequence entry).toNat - 1 = k := by
    rw [h.toNat_lfnSequence (by rw [lfnParts] at hk; omega)]
    rfl
  have hkmul : k * 13 ≤ (lfnParts name - 1) * 13 := Nat.mul_le_mul_right 13 (by omega)
  have hunits : ∀ i < 13, lfnChar entry i = lfnUnit name (k * 13 + i) := h.units
  obtain ⟨m, hm, hmle, hmend⟩ : ∃ m ≤ 13, k * 13 + m ≤ name.length + 1 ∧
      (m = 13 ∨ k * 13 + m = name.length + 1) := by
    by_cases hfull : k * 13 + 13 ≤ name.length + 1
    · exact ⟨13, Nat.le_refl 13, hfull, Or.inl rfl⟩
    · exact ⟨name.length + 1 - k * 13, by omega, by omega, Or.inr (by omega)⟩
  have hparse := parseLfnChars_eq entry (n := 13) (i := 0) (m := m) (Nat.zero_le m)
    (by omega)
    (fun j _ hj => by
      rw [hunits j (by omega)]
      exact lfnUnit_ne_pad (by omega))
    (by
      by_cases h13 : m = 13
      · exact Or.inl h13
      · refine Or.inr ?_
        rw [hunits m (by omega)]
        exact lfnUnit_pad (by omega))
    (by rw [hseq, nameSize]; omega) buffer
  refine ⟨_, hparse, fun p hp hp' hplen => ?_⟩
  rw [hseq]
  by_cases hpk : p < k * 13 + m
  · rw [if_pos ⟨hp, hpk⟩, hunits _ (by omega), Nat.add_sub_cancel' hp, toUInt8_lfnUnit hplen]
  · rw [if_neg (by omega)]
    exact hbuf p (by omega) hp' hplen

/-- After its entries, the buffer holds the name. -/
theorem LfnEntries.passed {disk : Disk} {v : Fat32Volume} {k : ℕ} {entries : List Memory}
    (h : LfnEntries name k entries) {list list' : Fat32DirList} (lfn : LfnState)
    (hread : Reads disk v list entries list') (hpos : 1 ≤ name.length) (hlen : name.length ≤ 255)
    (hk : k ≤ lfnParts name)
    (hlfn : lfn.length.toNat = lfnParts name ∨ lfn.length = 0 ∧ k = lfnParts name)
    (hbuf : HoldsFrom name k lfn.buffer) :
    ∃ lfn', lfn'.length.toNat = lfnParts name ∧ HoldsFrom name 0 lfn'.buffer ∧
      ∀ fuel, fat32NextDirEntry disk v (fuel + entries.length) ⟨lfn, list⟩ =
        fat32NextDirEntry disk v fuel ⟨lfn', list'⟩ := by
  induction h generalizing list lfn with
  | nil =>
      cases hread
      have := lfnParts_pos hpos
      exact ⟨lfn, hlfn.resolve_right (by omega), hbuf, fun _ => rfl⟩
  | @cons k entry entries he _ ih =>
      have hk32 : lfnParts name < 32 := by
        rw [lfnParts]
        omega
      cases hread with
      | cons hnext hrest =>
          obtain ⟨buffer, hparse, hbuf'⟩ := he.parseLfnEntry_eq (by omega) hlen hbuf
          have hseq := he.toNat_lfnSequence (by omega)
          have hseq0 : lfnSequence entry ≠ 0 := fun h0 => by
            rw [h0] at hseq
            exact absurd hseq (Nat.succ_ne_zero k).symm
          have hstep := entryStep_lfn lfn he.attrib hseq0
          rw [hparse] at hstep
          have hlength : (if lfn.length < lfnSequence entry then lfnSequence entry
              else lfn.length).toNat = lfnParts name := by
            by_cases hlt : lfn.length < lfnSequence entry
            · rw [if_pos hlt, hseq]
              rcases hlfn with hfull | ⟨-, hall⟩
              · rw [UInt8.lt_iff_toNat_lt] at hlt
                omega
              · exact hall
            · rw [if_neg hlt]
              refine hlfn.resolve_right fun ⟨hzero, _⟩ => hlt ?_
              rw [hzero]
              exact UInt8.pos_iff_ne_zero.mpr hseq0
          obtain ⟨lfn', hlfn', hholds, hrun⟩ := ih
            { buffer := buffer
              length := if lfn.length < lfnSequence entry then lfnSequence entry else lfn.length }
            hrest (by omega) (Or.inl hlength) hbuf'
          refine ⟨lfn', hlfn', hholds, fun fuel => ?_⟩
          rw [List.length_cons, ← Nat.add_assoc, fat32NextDirEntry_skip hnext hstep]
          exact hrun fuel

/-! ### Out of the buffer -/

/-- The copies of the parts. -/
theorem joinParts_apply (buffer : Memory) (parts n i : ℕ) (temp : Memory) (p : ℕ) :
    joinParts buffer parts n i temp p =
      if i ≤ p / 13 ∧ p / 13 < i + n then
        CString.stringByte (fun j => buffer ((parts - p / 13 - 1) * 13 + j)) (p % 13)
      else temp p := by
  induction n generalizing i temp with
  | zero => rw [joinParts, if_neg (by omega)]
  | succ n ih =>
      rw [joinParts, ih, CString.strncpy_apply]
      by_cases hp : p / 13 = i
      · rw [if_neg (by omega), if_pos (by omega), if_pos (by omega), hp,
          (by omega : p - i * 13 = p % 13)]
      · rw [if_neg (by omega : ¬ (i * 13 ≤ p ∧ p < i * 13 + 13))]
        exact if_congr (by omega) rfl rfl

/-- What is put together, before its terminator. -/
def joined (buffer : Memory) (parts p : ℕ) : UInt8 :=
  CString.stringByte (fun j => buffer ((parts - p / 13 - 1) * 13 + j)) (p % 13)

theorem joinLfn_eq {parts : ℕ} (h : parts * 13 < nameSize) (buffer : Memory) :
    joinLfn buffer parts = .ok (CString.stringAt
      (fun p => if p < parts * 13 then joined buffer parts p else 0) nameSize 0) := by
  rw [joinLfn, if_neg (by omega)]
  congr 2
  funext p
  rw [Function.update_apply, joinParts_apply]
  by_cases hp : p < parts * 13
  · rw [if_neg (by omega), if_pos (by omega), if_pos hp]
    rfl
  · rw [if_neg hp]
    by_cases hend : p = parts * 13
    · rw [if_pos hend]
    · rw [if_neg hend, if_neg (by omega)]

/-- The name that comes of `parts` parts without a zero. -/
theorem joinLfn_of_ne_zero {parts : ℕ} {buffer : Memory} (h : parts * 13 < nameSize)
    (hne : ∀ p < parts * 13, buffer p ≠ 0) :
    joinLfn buffer parts =
      .ok ((List.range (parts * 13)).map fun p =>
        buffer ((parts - p / 13 - 1) * 13 + p % 13)) := by
  have hjoined : ∀ p < parts * 13,
      joined buffer parts p = buffer ((parts - p / 13 - 1) * 13 + p % 13) := by
    intro p hp
    refine CString.stringByte_of_ne_zero fun k hk => hne _ ?_
    have : (parts - p / 13 - 1) * 13 + 13 ≤ parts * 13 := by
      have := Nat.mul_le_mul_right 13 (by omega : parts - p / 13 - 1 + 1 ≤ parts)
      omega
    omega
  rw [joinLfn_eq h, CString.stringAt_eq_map h]
  · congr 1
    refine List.map_congr_left fun p hp => ?_
    have hp := List.mem_range.mp hp
    rw [Nat.zero_add, if_pos hp, hjoined p hp]
  · intro p hp
    have hlt : (parts - p / 13 - 1) * 13 + p % 13 < parts * 13 := by
      have := Nat.mul_le_mul_right 13 (by omega : parts - p / 13 - 1 + 1 ≤ parts)
      omega
    rw [Nat.zero_add, if_pos hp, hjoined p hp]
    exact hne _ hlt
  · rw [Nat.zero_add, if_neg (Nat.lt_irrefl _)]

/-- A name of one part. -/
theorem joinLfn_one {buffer : Memory} (hchars : ∀ c ∈ name, c ≠ 0) (hlen : name.length ≤ 13)
    (hbuf : ∀ p < 13, p ≤ name.length → buffer p = name.getD p 0) :
    joinLfn buffer 1 = .ok name := by
  have hne : ∀ p < name.length, name.getD p 0 ≠ 0 := fun p hp => by
    rw [List.getD_eq_getElem _ _ hp]
    exact hchars _ (List.getElem_mem hp)
  have hjoined : ∀ p < 13, joined buffer 1 p = CString.stringByte buffer p := by
    intro p hp
    rw [joined, (by omega : 1 - p / 13 - 1 = 0), (by omega : p % 13 = p)]
    simp only [Nat.zero_mul, Nat.zero_add]
  have hcopy : ∀ p < name.length, joined buffer 1 p = name.getD p 0 := by
    intro p hp
    rw [hjoined p (by omega), CString.stringByte_of_ne_zero, hbuf p (by omega) (by omega)]
    intro k hk
    rw [hbuf k (by omega) (by omega)]
    exact hne k (by omega)
  rw [joinLfn_eq (by decide), CString.stringAt_eq_map (l := name.length) (by rw [nameSize]; omega)]
  · congr 1
    refine List.ext_getElem (by rw [List.length_map, List.length_range]) fun p _ hp => ?_
    rw [List.getElem_map, List.getElem_range, Nat.zero_add, if_pos (by omega), hcopy p hp,
      List.getD_eq_getElem _ _ hp]
  · intro p hp
    rw [Nat.zero_add, if_pos (by omega), hcopy p hp]
    exact hne p hp
  · rw [Nat.zero_add]
    by_cases hfull : name.length < 1 * 13
    · rw [if_pos hfull, hjoined _ (by omega)]
      refine CString.stringByte_eq_zero ?_
      rw [hbuf _ (by omega) (Nat.le_refl _), List.getD_eq_default _ _ (Nat.le_refl _)]
    · rw [if_neg hfull]

/-- A last part that is not full comes first, with the terminator behind it. -/
theorem joinLfn_ne_of_remainder {buffer : Memory} (hlong : 13 < name.length)
    (hremainder : name.length % 13 ≠ 0) (hbuf : HoldsFrom name 0 buffer) :
    joinLfn buffer (lfnParts name) ≠ .ok name := by
  have hparts : (lfnParts name - 1) * 13 + name.length % 13 = name.length := by
    rw [lfnParts]
    omega
  intro h
  by_cases hsize : lfnParts name * 13 < nameSize
  · rw [joinLfn_eq hsize] at h
    have hzero : joined buffer (lfnParts name) (name.length % 13) = 0 := by
      refine CString.stringByte_eq_zero ?_
      rw [(by omega : name.length % 13 / 13 = 0), Nat.sub_zero, Nat.mod_mod, hparts,
        hbuf _ (by omega) (by omega) (Nat.le_refl _), List.getD_eq_default _ _ (Nat.le_refl _)]
    have hle := CString.length_stringAt_le (m := fun p =>
      if p < lfnParts name * 13 then joined buffer (lfnParts name) p else 0) (i := 0)
      (l := name.length % 13) nameSize (by
        rw [Nat.zero_add, if_pos (by omega)]
        exact hzero)
    rw [Except.ok.inj h] at hle
    omega
  · rw [joinLfn, if_pos (by omega)] at h
    cases h

/-- A full part, character by character. -/
theorem namePart_eq {k : ℕ} (h : (k + 1) * 13 ≤ name.length) :
    namePart name k = (List.range 13).map fun i => name.getD (k * 13 + i) 0 := by
  rw [namePart]
  refine List.ext_getElem ?_ fun i hi _ => ?_
  · rw [List.length_take, List.length_drop, List.length_map, List.length_range]
    omega
  · rw [List.length_take, List.length_drop] at hi
    rw [List.getElem_take, List.getElem_drop, List.getElem_map, List.getElem_range,
      List.getD_eq_getElem _ _ (by omega)]

/-- Full parts come back in reverse order. -/
theorem joinLfn_full {buffer : Memory} (hchars : ∀ c ∈ name, c ≠ 0)
    (hfull : name.length % 13 = 0) (hlen : name.length ≤ 247) (hbuf : HoldsFrom name 0 buffer) :
    joinLfn buffer (lfnParts name) = .ok name ↔
      ∀ k < lfnParts name, namePart name k = namePart name (lfnParts name - k - 1) := by
  have hparts : lfnParts name * 13 = name.length := by
    rw [lfnParts]
    omega
  have hcopy : ∀ p < name.length, buffer p = name.getD p 0 := fun p hp =>
    hbuf p (by omega) (by omega) (by omega)
  have hbound : ∀ k, (lfnParts name - k - 1) * 13 + 13 ≤ name.length ∨ lfnParts name = 0 := by
    intro k
    by_cases h0 : lfnParts name = 0
    · exact Or.inr h0
    · have := Nat.mul_le_mul_right 13 (by omega : lfnParts name - k - 1 + 1 ≤ lfnParts name)
      omega
  have hchar : joinLfn buffer (lfnParts name) = .ok name ↔
      ∀ p < name.length,
        name.getD ((lfnParts name - p / 13 - 1) * 13 + p % 13) 0 = name.getD p 0 := by
    rw [joinLfn_of_ne_zero (by rw [nameSize]; omega) (fun p hp => by
      rw [hcopy p (by omega), List.getD_eq_getElem _ _ (by omega)]
      exact hchars _ (List.getElem_mem _)), hparts]
    constructor
    · intro h p hp
      have hb := hbound (p / 13)
      have hname := Except.ok.inj h
      rw [List.getD_eq_getElem _ _ hp, ← hcopy _ (by omega)]
      have := List.getElem_of_eq hname (i := p)
        (by rw [List.length_map, List.length_range]; exact hp)
      rw [List.getElem_map, List.getElem_range] at this
      exact this
    · intro h
      congr 1
      refine List.ext_getElem (by rw [List.length_map, List.length_range]) fun p _ hp => ?_
      have hb := hbound (p / 13)
      rw [List.getElem_map, List.getElem_range, hcopy _ (by omega), h p hp,
        List.getD_eq_getElem _ _ hp]
  rw [hchar]
  constructor
  · intro h k hk
    have hb := hbound k
    have hk13 := Nat.mul_le_mul_right 13 (by omega : k + 1 ≤ lfnParts name)
    rw [namePart_eq (by omega), namePart_eq (by omega)]
    refine List.map_congr_left fun i hi => ?_
    have hi := List.mem_range.mp hi
    have := h (k * 13 + i) (by omega)
    rw [(by omega : (k * 13 + i) / 13 = k), (by omega : (k * 13 + i) % 13 = i)] at this
    exact this.symm
  · intro h p hp
    have hk : p / 13 < lfnParts name := by omega
    have hb := hbound (p / 13)
    have hk13 := Nat.mul_le_mul_right 13 (by omega : p / 13 + 1 ≤ lfnParts name)
    have hpart := h (p / 13) hk
    rw [namePart_eq (by omega), namePart_eq (by omega)] at hpart
    have := List.map_inj_left.mp hpart (p % 13) (List.mem_range.mpr (Nat.mod_lt _ (by omega)))
    rw [(by omega : p / 13 * 13 + p % 13 = p)] at this
    exact this.symm

/-- When the name comes out of the buffer. -/
theorem joinLfn_eq_iff {buffer : Memory} (hchars : ∀ c ∈ name, c ≠ 0) (hpos : 1 ≤ name.length)
    (hbuf : HoldsFrom name 0 buffer) :
    joinLfn buffer (lfnParts name) = .ok name ↔ Reversible name := by
  by_cases hone : name.length ≤ 13
  · have hparts : lfnParts name = 1 := by
      rw [lfnParts]
      omega
    rw [hparts]
    exact iff_of_true
      (joinLfn_one hchars hone fun p hp hle => hbuf p (by omega) (by omega) hle) (Or.inl hone)
  by_cases hremainder : name.length % 13 ≠ 0
  · refine iff_of_false (joinLfn_ne_of_remainder (by omega) hremainder hbuf) ?_
    rintro (h | ⟨h, -⟩)
    · exact hone h
    · exact hremainder h
  rw [not_not] at hremainder
  by_cases hlen : name.length ≤ 247
  · rw [joinLfn_full hchars hremainder hlen hbuf]
    exact ⟨fun h => Or.inr ⟨hremainder, hlen, h⟩, fun h => (h.resolve_left hone).2.2⟩
  · refine iff_of_false ?_ ?_
    · rw [joinLfn, if_pos (by rw [lfnParts, nameSize]; omega)]
      exact nofun
    · rintro (h | ⟨-, h, -⟩)
      · exact hone h
      · exact hlen h

/-- What a call returns that begins at the first entry of a stored name. -/
theorem StoredName.call_eq {entries : List Memory} {short : Memory}
    (hs : StoredName name entries short) {disk : Disk} {v : Fat32Volume}
    {list list' : Fat32DirList} (hread : Reads disk v list (entries ++ [short]) list')
    {lfn : LfnState} (hlfn : lfn.length = 0) :
    ∃ buffer, HoldsFrom name 0 buffer ∧ ∀ fuel, entries.length < fuel →
      fat32NextDirEntry disk v fuel ⟨lfn, list⟩ =
        (joinLfn buffer (lfnParts name)).map fun decoded =>
          (some ⟨entryFile short, decoded⟩, ⟨⟨buffer, 0⟩, list'⟩) := by
  obtain ⟨mid, hentries, hshort⟩ := hread.of_append
  obtain ⟨⟨buffer, length⟩, hlength, hbuf, hrun⟩ := hs.entries.passed _ hentries hs.length_pos
    hs.length_le (Nat.le_refl _) (Or.inr ⟨hlfn, rfl⟩) fun p hp hp' => absurd hp (by omega)
  refine ⟨buffer, hbuf, fun fuel hfuel => ?_⟩
  obtain ⟨n, rfl⟩ : ∃ n, fuel = n + 1 + entries.length := ⟨fuel - entries.length - 1, by omega⟩
  cases hshort with
  | cons hnext hrest =>
      cases hrest
      have hpos : 0 < length := UInt8.lt_iff_toNat_lt.mpr (hlength ▸ lfnParts_pos hs.length_pos)
      have hstep := @entryStep_long ⟨buffer, length⟩ short hs.short hpos
      dsimp only at hstep hlength
      rw [hlength] at hstep
      rw [hrun]
      cases hjoin : joinLfn buffer (lfnParts name) with
      | error e =>
          rw [hjoin] at hstep
          exact fat32NextDirEntry_fault hnext hstep n
      | ok decoded =>
          rw [hjoin] at hstep
          exact fat32NextDirEntry_found hnext hstep n

end Stored

/-- A stored name is read as it was stored exactly if it is reversible. -/
theorem decodes_iff_reversible {name : List UInt8} {entries : List Memory} {short : Memory}
    (hs : StoredName name entries short) {disk : Disk} {v : Fat32Volume}
    {list list' : Fat32DirList} (hread : Reads disk v list (entries ++ [short]) list')
    {lfn : LfnState} (hlfn : lfn.length = 0) {fuel : ℕ} (hfuel : entries.length < fuel) :
    (∃ file st, fat32NextDirEntry disk v fuel ⟨lfn, list⟩ = .ok (some ⟨file, name⟩, st)) ↔
      Reversible name := by
  obtain ⟨buffer, hbuf, hcall⟩ := hs.call_eq hread hlfn
  rw [hcall fuel hfuel, ← joinLfn_eq_iff hs.chars hs.length_pos hbuf]
  constructor
  · rintro ⟨file, st, h⟩
    obtain ⟨decoded, hjoin, heq⟩ := Outcome.map_eq_ok.mp h
    cases heq
    exact hjoin
  · intro hjoin
    rw [hjoin]
    exact ⟨_, _, rfl⟩

/-- The bytes of the entry with part `k` of a name. -/
def lfnRecord (name : List UInt8) (k : ℕ) : Memory := fun b =>
  let unit (i : ℕ) : UInt8 :=
    let u := lfnUnit name ((k - 1) * 13 + i)
    if b % 2 = 0 then u.toUInt8 else (u >>> 8).toUInt8
  if b = 0 then UInt8.ofNat k ||| if k = lfnParts name then 0x40 else 0
  else if b < 11 then
    let u := lfnUnit name ((k - 1) * 13 + (b - 1) / 2)
    if b % 2 = 1 then u.toUInt8 else (u >>> 8).toUInt8
  else if b = 11 then dirEntryAttribLfn
  else if 14 ≤ b ∧ b < 26 then unit (5 + (b - 14) / 2)
  else if 28 ≤ b then unit (11 + (b - 28) / 2)
  else 0

/-- A sector with the entries of a name. -/
def sampleNameSector (name : List UInt8) : Memory := fun i =>
  if i / 32 < lfnParts name then lfnRecord name (lfnParts name - i / 32) (i % 32)
  else if i = lfnParts name * 32 then 0x41
  else 0

/-- Entry `k` of that sector. -/
def sampleSlot (name : List UInt8) (k : ℕ) : Memory := fun i => sampleNameSector name (k * 32 + i)

/-- A volume with one sector per cluster, the first of them sector 2. -/
def sampleVolume : Fat32Volume where
  header := { Fat32Header.zero with sectorsPerCluster := 1 }
  fatSizeInSectors := 1
  dataStartSector := 2
  fat := some fun _ => 0x0FFFFFFF
  clusterSize := 512

/-- The directory that consists of that sector, after `n` entries. -/
def sampleList (name : List UInt8) (n : UInt32) : Fat32DirList where
  cluster := 2
  entry := n
  sectorBuffer := sampleNameSector name
  bufferedSector := 2

/-- `"readme.txt"`. -/
def shortSample : List UInt8 := [0x72, 0x65, 0x61, 0x64, 0x6D, 0x65, 0x2E, 0x74, 0x78, 0x74]

/-- `"abcdefghijklmn"`. -/
def longSample : List UInt8 := (List.range 14).map fun i => UInt8.ofNat (0x61 + i)

theorem storedName_shortSample :
    StoredName shortSample [sampleSlot shortSample 0] (sampleSlot shortSample 1) where
  chars := by simp [shortSample]
  length_pos := by decide
  length_le := by decide
  entries := .cons ⟨by decide, by decide, by decide⟩ .nil
  short := by decide

theorem storedName_longSample :
    StoredName longSample [sampleSlot longSample 0, sampleSlot longSample 1]
      (sampleSlot longSample 2) where
  chars := List.forall_mem_map.mpr (by decide)
  length_pos := by decide
  length_le := by decide
  entries := .cons ⟨by decide, by decide, by decide⟩ (.cons ⟨by decide, by decide, by decide⟩ .nil)
  short := by decide

theorem reads_shortSample :
    Reads (fun _ => none) sampleVolume (sampleList shortSample 0)
      ([sampleSlot shortSample 0] ++ [sampleSlot shortSample 1]) (sampleList shortSample 2) :=
  @Reads.cons _ _ _ (sampleList shortSample 1) _ _ _ rfl
    (@Reads.cons _ _ _ (sampleList shortSample 2) _ _ _ rfl (.nil _))

theorem decodes_iff_reversible_shortSample :
    ∃ file st, fat32NextDirEntry (fun _ => none) sampleVolume 2
      ⟨⟨fun _ => 0x7A, 0⟩, sampleList shortSample 0⟩ = .ok (some ⟨file, shortSample⟩, st) :=
  (decodes_iff_reversible storedName_shortSample reads_shortSample rfl (by decide)).mpr (by decide)

/-- Of a name with 14 characters, the last one comes back. -/
theorem decodes_violated :
    ¬ ∀ name entries short, StoredName name entries short →
      ∀ disk v list list', Reads disk v list (entries ++ [short]) list' →
      ∀ lfn : LfnState, lfn.length = 0 → ∀ fuel, entries.length < fuel →
      ∃ file st, fat32NextDirEntry disk v fuel ⟨lfn, list⟩ = .ok (some ⟨file, name⟩, st) := by
  intro h
  have hread : Reads (fun _ => none) sampleVolume (sampleList longSample 0)
      ([sampleSlot longSample 0, sampleSlot longSample 1] ++ [sampleSlot longSample 2])
      (sampleList longSample 3) :=
    @Reads.cons _ _ _ (sampleList longSample 1) _ _ _ rfl
      (@Reads.cons _ _ _ (sampleList longSample 2) _ _ _ rfl (.cons rfl (.nil _)))
  obtain ⟨file, st, heq⟩ := h _ _ _ storedName_longSample _ _ _ _ hread ⟨fun _ => 0, 0⟩ rfl 3
    (by decide)
  obtain ⟨buffer, hbuf, hcall⟩ := storedName_longSample.call_eq hread
    (rfl : (⟨fun _ => 0, 0⟩ : LfnState).length = 0)
  rw [hcall 3 (by decide)] at heq
  obtain ⟨decoded, hjoin, hout⟩ := Outcome.map_eq_ok.mp heq
  cases hout
  exact absurd ((joinLfn_eq_iff storedName_longSample.chars storedName_longSample.length_pos
    hbuf).mp hjoin) (by decide)

end HalOS
