import HalOS.Fs.FatShortName

/-!
# The Buffers of a Directory Listing

A turn of the loop of `fat32_next_dir_entry` stores in `lfn_buffer`, in `temp`, or in the buffer of
the caller. What it stores is told here as lists, offset by offset, as far as the source goes on;
the model of `Fat` faults where one of the offsets lies outside.

A long name of 20 parts has its last character at offset 254 of `lfn_buffer`, but its parts are put
together at full length, which takes 261 bytes of `temp`.

## Main results

* `inBounds_iff_entryStep`: the turns without a fault are those whose stores are in bounds.
* `staysInBuffers_iff`: the directories that stay in the buffers.
-/

namespace HalOS

open CString (Memory Store storeAll)
open Outcome (bind_eq_ok)

/-! ### The stores -/

/-- What the loop of `parse_lfn_entry` stores in `lfn_buffer`, with `n` characters to come from
number `i` on. -/
def parseLfnStores (lfn : Memory) : ℕ → ℕ → List Store
  | 0, _ => []
  | n + 1, i =>
      if lfnChar lfn i = 0xFFFF then []
      else
        (((lfnSequence lfn).toNat - 1) * 13 + i, (lfnChar lfn i).toUInt8) ::
          parseLfnStores lfn n (i + 1)

/-- What the loop of `fat32_next_dir_entry` stores in `temp`, with `n` parts to come from number
`i` on. -/
def joinPartsStores (buffer : Memory) (parts : ℕ) : ℕ → ℕ → List Store
  | 0, _ => []
  | n + 1, i =>
      CString.strncpyStores (fun j => buffer ((parts - i - 1) * 13 + j)) (i * 13) 13 ++
        joinPartsStores buffer parts n (i + 1)

/-- What is stored in `temp`, with the terminator. -/
def tempStores (buffer : Memory) (parts : ℕ) : List Store :=
  joinPartsStores buffer parts parts 0 ++ [(parts * 13, 0)]

/-- What a turn stores: `parse_lfn_entry` in `lfn_buffer`, the loop in `temp`, `strcpy` in
`out_name`, and `parse_short_filename` in `out_name`. -/
structure EntryStores where
  lfnBuffer : List Store
  temp : List Store
  outName : List Store
  shortName : List Store

/-- The stores of a turn, with what `temp` and `out_name` hold before. -/
def entryStores (st : LfnState) (temp outName entry : Memory) : EntryStores :=
  if entryAttrib entry = dirEntryAttribLfn then
    if lfnSequence entry = 0 then ⟨[], [], [], []⟩ else ⟨parseLfnStores entry 13 0, [], [], []⟩
  else if 0 < st.length then
    let stores := tempStores st.buffer st.length.toNat
    ⟨[], stores, CString.strcpyStores (storeAll stores temp) (st.length.toNat * 13 + 1) 0, []⟩
  else ⟨[], [], [], shortFilenameStores entry outName⟩

/-- The stores lie in `lfn_buffer[256]`, `temp[256]`, `out_name[256]`, and for a short name in
`output[13]`. -/
structure EntryStores.InBounds (s : EntryStores) : Prop where
  lfnBuffer : ∀ x ∈ s.lfnBuffer, x.1 < nameSize
  temp : ∀ x ∈ s.temp, x.1 < nameSize
  outName : ∀ x ∈ s.outName, x.1 < nameSize
  shortName : ∀ x ∈ s.shortName, x.1 < 13

/-- Every store that comes of the entries, one after the other, lies in its buffer, whatever `temp`
and `out_name` hold. -/
def StaysInBuffers : LfnState → List Memory → Prop
  | _, [] => True
  | st, entry :: entries =>
      (∀ temp outName, (entryStores st temp outName entry).InBounds) ∧
        ∀ st' out, entryStep st entry = .ok (st', out) → StaysInBuffers st' entries

/-! ### What the stores come to -/

theorem storeAll_parseLfnStores {lfn : Memory} {n i : ℕ} {buffer buffer' : Memory}
    (h : parseLfnChars lfn n i buffer = .ok buffer') :
    storeAll (parseLfnStores lfn n i) buffer = buffer' := by
  induction n generalizing i buffer with
  | zero => exact Except.ok.inj h
  | succ n ih =>
      rw [parseLfnChars] at h
      rw [parseLfnStores]
      dsimp only at h
      split_ifs at h with hpad hsize
      · rw [if_pos hpad]
        exact Except.ok.inj h
      · rw [if_neg hpad]
        exact ih h

theorem storeAll_joinPartsStores (buffer : Memory) (parts n i : ℕ) (temp : Memory) :
    storeAll (joinPartsStores buffer parts n i) temp = joinParts buffer parts n i temp := by
  induction n generalizing i temp with
  | zero => rfl
  | succ n ih =>
      rw [joinPartsStores, CString.storeAll_append, CString.storeAll_strncpyStores, ih]
      rfl

theorem storeAll_tempStores (buffer : Memory) (parts : ℕ) (temp : Memory) (p : ℕ) :
    storeAll (tempStores buffer parts) temp p =
      if p < parts * 13 then joined buffer parts p else if p = parts * 13 then 0 else temp p := by
  rw [tempStores, CString.storeAll_append, storeAll_joinPartsStores, CString.storeAll_cons,
    CString.storeAll_nil, Function.update_apply, joinParts_apply]
  by_cases hp : p < parts * 13
  · rw [if_neg (by omega), if_pos (by omega), if_pos hp]
    rfl
  · rw [if_neg hp]
    exact if_congr Iff.rfl rfl (if_neg (by omega))

/-- `temp` holds the long name, whatever it held before. -/
theorem stringAt_tempStores {parts : ℕ} (h : parts * 13 < nameSize) (buffer temp : Memory) :
    joinLfn buffer parts =
      .ok (CString.stringAt (storeAll (tempStores buffer parts) temp) nameSize 0) := by
  rw [joinLfn_eq h]
  refine congrArg _ (CString.stringAt_congr (l := parts * 13) _ (fun p hp => ?_) ?_)
  · rw [Nat.zero_add, storeAll_tempStores]
    by_cases hlt : p < parts * 13
    · rw [if_pos hlt, if_pos hlt]
    · rw [if_neg hlt, if_neg hlt, if_pos (Nat.le_antisymm hp (Nat.not_lt.mp hlt))]
  · rw [Nat.zero_add, if_neg (Nat.lt_irrefl _)]

/-- A name that is put together has room in `temp`. -/
theorem lt_nameSize_of_joinLfn {buffer : Memory} {parts : ℕ} {name : List UInt8}
    (h : joinLfn buffer parts = .ok name) : parts * 13 < nameSize := by
  by_contra hsize
  rw [joinLfn, if_pos (Nat.not_lt.mp hsize)] at h
  cases h

/-- **A turn without a fault** leaves in `lfn_buffer` and in the buffer of the caller what its
stores say, whatever `temp` and the latter held. -/
theorem entryStep_eq_storeAll {st st' : LfnState} {entry : Memory} {out : Option DirEntry}
    (h : entryStep st entry = .ok (st', out)) (temp outName : Memory) :
    st'.buffer = storeAll (entryStores st temp outName entry).lfnBuffer st.buffer ∧
      ∀ e ∈ out, e.name = CString.stringAt
        (storeAll ((entryStores st temp outName entry).outName ++
          (entryStores st temp outName entry).shortName) outName) nameSize 0 := by
  rw [entryStores]
  by_cases hattrib : entryAttrib entry = dirEntryAttribLfn
  · rw [if_pos hattrib]
    by_cases hseq : lfnSequence entry = 0
    · rw [if_pos hseq]
      rw [entryStep, if_pos hattrib] at h
      obtain ⟨rfl, rfl⟩ := Prod.mk.inj (Except.ok.inj ((if_pos hseq).symm.trans h))
      exact ⟨rfl, fun e he => by cases he⟩
    · rw [if_neg hseq]
      rw [entryStep_lfn st hattrib hseq] at h
      obtain ⟨buffer, hparse, h⟩ := bind_eq_ok.mp h
      obtain ⟨rfl, rfl⟩ := Prod.mk.inj (Except.ok.inj h)
      exact ⟨(storeAll_parseLfnStores hparse).symm, fun e he => by cases he⟩
  · rw [if_neg hattrib]
    by_cases hlen : 0 < st.length
    · rw [if_pos hlen]
      rw [entryStep_long hattrib hlen] at h
      obtain ⟨name, hjoin, h⟩ := bind_eq_ok.mp h
      obtain ⟨rfl, rfl⟩ := Prod.mk.inj (Except.ok.inj h)
      refine ⟨rfl, fun e he => ?_⟩
      obtain rfl := Option.some.inj he
      have hsize := lt_nameSize_of_joinLfn hjoin
      have hend : storeAll (tempStores st.buffer st.length.toNat) temp
          (st.length.toNat * 13) = 0 := by
        rw [storeAll_tempStores, if_neg (Nat.lt_irrefl _), if_pos rfl]
      rw [stringAt_tempStores hsize st.buffer temp] at hjoin
      rw [List.append_nil, CString.stringAt_strcpyStores outName nameSize hend]
      exact (Except.ok.inj hjoin).symm
    · rw [if_neg hlen]
      have hzero : st.length = 0 := by
        by_contra hne
        exact hlen (UInt8.pos_iff_ne_zero.mpr hne)
      rw [entryStep_short hattrib hzero] at h
      obtain ⟨rfl, rfl⟩ := Prod.mk.inj (Except.ok.inj h)
      refine ⟨rfl, fun e he => ?_⟩
      obtain rfl := Option.some.inj he
      exact (stringAt_shortFilenameBuffer entry outName).symm

/-! ### Bounds -/

theorem forall_parseLfnStores_iff {lfn : Memory} {n i : ℕ} (buffer : Memory) :
    (∀ x ∈ parseLfnStores lfn n i, x.1 < nameSize) ↔
      ∃ buffer', parseLfnChars lfn n i buffer = .ok buffer' := by
  induction n generalizing i buffer with
  | zero => exact iff_of_true (List.forall_mem_nil _) ⟨buffer, rfl⟩
  | succ n ih =>
      rw [parseLfnStores, parseLfnChars]
      dsimp only
      split_ifs with hpad hsize
      · exact iff_of_true (List.forall_mem_nil _) ⟨buffer, rfl⟩
      · refine iff_of_false (fun h => Nat.not_lt.mpr hsize (h _ List.mem_cons_self)) ?_
        rintro ⟨_, ⟨⟩⟩
      · rw [List.forall_mem_cons, ih]
        exact and_iff_right (Nat.not_le.mp hsize)

theorem fst_lt_of_mem_joinPartsStores {buffer : Memory} {parts n i : ℕ} {x : Store}
    (h : x ∈ joinPartsStores buffer parts n i) : x.1 < (i + n) * 13 := by
  induction n generalizing i with
  | zero => cases h
  | succ n ih =>
      obtain h | h := List.mem_append.mp h
      · have := CString.fst_lt_of_mem_strncpyStores _ _ h
        omega
      · have := ih h
        omega

theorem forall_tempStores_iff {buffer : Memory} {parts : ℕ} :
    (∀ x ∈ tempStores buffer parts, x.1 < nameSize) ↔ parts * 13 < nameSize := by
  constructor
  · exact fun h => h (parts * 13, 0) (List.mem_append_right _ (List.mem_singleton_self _))
  · intro hsize x hx
    obtain hx | hx := List.mem_append.mp hx
    · have := fst_lt_of_mem_joinPartsStores hx
      omega
    · rw [List.mem_singleton.mp hx]
      exact hsize

/-- **The turns without a fault** are those whose stores are in bounds. -/
theorem inBounds_iff_entryStep {st : LfnState} {temp outName entry : Memory} :
    (entryStores st temp outName entry).InBounds ↔ ∃ r, entryStep st entry = .ok r := by
  have hnil : ∀ k : ℕ, ∀ x ∈ ([] : List Store), x.1 < k := fun k => List.forall_mem_nil _
  rw [entryStores]
  by_cases hattrib : entryAttrib entry = dirEntryAttribLfn
  · rw [if_pos hattrib]
    by_cases hseq : lfnSequence entry = 0
    · rw [if_pos hseq]
      refine iff_of_true ⟨hnil _, hnil _, hnil _, hnil _⟩ ⟨(st, none), ?_⟩
      rw [entryStep, if_pos hattrib]
      exact if_pos hseq
    · rw [if_neg hseq, entryStep_lfn st hattrib hseq]
      constructor
      · intro h
        obtain ⟨buffer', hparse⟩ := (forall_parseLfnStores_iff st.buffer).mp h.lfnBuffer
        exact ⟨_, bind_eq_ok.mpr ⟨buffer', hparse, rfl⟩⟩
      · rintro ⟨r, h⟩
        obtain ⟨buffer', hparse, -⟩ := bind_eq_ok.mp h
        exact ⟨(forall_parseLfnStores_iff st.buffer).mpr ⟨buffer', hparse⟩, hnil _, hnil _, hnil _⟩
  · rw [if_neg hattrib]
    by_cases hlen : 0 < st.length
    · rw [if_pos hlen, entryStep_long hattrib hlen]
      constructor
      · intro h
        have hsize := forall_tempStores_iff.mp h.temp
        exact ⟨_, bind_eq_ok.mpr ⟨_, stringAt_tempStores hsize st.buffer temp, rfl⟩⟩
      · rintro ⟨r, h⟩
        obtain ⟨name, hjoin, -⟩ := bind_eq_ok.mp h
        have hsize := lt_nameSize_of_joinLfn hjoin
        refine ⟨hnil _, forall_tempStores_iff.mpr hsize, fun x hx => ?_, hnil _⟩
        have := CString.fst_lt_of_mem_strcpyStores _ hx
        omega
    · rw [if_neg hlen]
      have hzero : st.length = 0 := by
        by_contra hne
        exact hlen (UInt8.pos_iff_ne_zero.mpr hne)
      exact iff_of_true ⟨hnil _, hnil _, hnil _, fun x => fst_lt_of_mem_shortFilenameStores⟩
        ⟨_, entryStep_short hattrib hzero⟩

/-- The entries stay in the buffers if they are decoded without a fault. -/
theorem staysInBuffers_iff_decodeEntries {st : LfnState} {entries : List Memory} :
    StaysInBuffers st entries ↔ ∃ results, decodeEntries st entries = .ok results := by
  induction entries generalizing st with
  | nil => exact iff_of_true trivial ⟨[], rfl⟩
  | cons entry entries ih =>
      rw [StaysInBuffers]
      simp only [inBounds_iff_entryStep, forall_const]
      cases hstep : entryStep st entry with
      | error e =>
          refine iff_of_false (fun h => ?_) (not_decodeEntries_of_error hstep)
          obtain ⟨⟨r, hr⟩, -⟩ := h
          cases hr
      | ok r =>
          rw [exists_decodeEntries_cons_iff hstep, ← ih]
          constructor
          · exact fun h => h.2 _ _ rfl
          · refine fun h => ⟨⟨r, rfl⟩, fun st' out heq => ?_⟩
            rw [Except.ok.inj heq] at h
            exact h

/-- The last entry of a long name of 20 parts, with the one character of that part. -/
def lastPart : Memory := fun i =>
  if i = 0 then 0x54 else if i = 1 then 0x41 else if i = 11 then 0x0F
  else if i = 2 ∨ i = 3 ∨ i = 4 then 0 else 0xFF

end HalOS
