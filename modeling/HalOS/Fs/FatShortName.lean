import HalOS.Fs.FatPath

/-!
# Short Names

A short name has up to eight characters and an extension of up to three, each padded with spaces.
`parse_short_filename` takes the padding off the name in place, and then appends the three bytes of
the extension as they are.

What it stores in the buffer of its caller is a list of stores here. The model of the call in
`Fat` is the string that they leave, whatever the buffer held before.

## Main results

* `stringAt_shortFilenameBuffer`: the string in the buffer.
* `undoesPadding_iff`: the names that come out as they were stored.
-/

namespace HalOS

open CString (Memory Store storeAll HoldsString)

/-! ### The stores -/

/-- What the loop of `parse_short_filename` that takes the padding off stores. -/
def trimSpacesStores : ℕ → Memory → List Store
  | 0, _ => []
  | n + 1, output =>
      if output n ≠ 0x20 then [] else (n, 0) :: trimSpacesStores n (Function.update output n 0)

/-- What is left of the name once the padding is gone, and the buffer then. -/
def trimmedName (entry output : Memory) : ℕ × Memory :=
  trimSpaces 8 (CString.strncpy entry output 0 8)

def trimmedStores (entry output : Memory) : List Store :=
  CString.strncpyStores entry 0 8 ++ trimSpacesStores 8 (CString.strncpy entry output 0 8)

/-- The buffer with the dot. -/
def dottedName (entry output : Memory) : Memory :=
  Function.update (Function.update (trimmedName entry output).2 (trimmedName entry output).1 0x2E)
    ((trimmedName entry output).1 + 1) 0

def dottedStores (entry output : Memory) : List Store :=
  trimmedStores entry output ++
    [((trimmedName entry output).1, 0x2E), ((trimmedName entry output).1 + 1, 0)]

/-- The buffer with the extension. -/
def joinedName (entry output : Memory) : Memory :=
  CString.strncat (fun i => entry (8 + i)) (dottedName entry output) nameSize 3

def joinedStores (entry output : Memory) : List Store :=
  dottedStores entry output ++
    CString.appendCharsStores (fun i => entry (8 + i))
      (CString.stringAt (dottedName entry output) nameSize 0).length 3 0

/-- What the loop of `tolower` stores, which reads each byte before it stores it. -/
def loweredStores (n : ℕ) (m : Memory) : List Store :=
  (List.range n).map fun i => (i, CString.tolower (m i))

/-- What `parse_short_filename` stores in `output`. -/
def shortFilenameStores (entry output : Memory) : List Store :=
  if entry 8 = 0x20 ∧ entry 9 = 0x20 ∧ entry 10 = 0x20 then
    trimmedStores entry output ++ [((trimmedName entry output).1, 0)]
  else if entryLowercase entry ≠ 0 then
    joinedStores entry output ++ loweredStores 13 (joinedName entry output)
  else joinedStores entry output

/-- The buffer after `parse_short_filename`. -/
def shortFilenameBuffer (entry output : Memory) : Memory :=
  storeAll (shortFilenameStores entry output) output

variable {entry output : Memory}

theorem storeAll_trimSpacesStores (n : ℕ) (output : Memory) :
    storeAll (trimSpacesStores n output) output = (trimSpaces n output).2 := by
  induction n generalizing output with
  | zero => rfl
  | succ n ih =>
      rw [trimSpacesStores, trimSpaces]
      split_ifs
      · rfl
      · exact ih _

theorem storeAll_trimmedStores (entry output : Memory) :
    storeAll (trimmedStores entry output) output = (trimmedName entry output).2 := by
  rw [trimmedStores, CString.storeAll_append, CString.storeAll_strncpyStores,
    storeAll_trimSpacesStores, trimmedName]

theorem storeAll_dottedStores (entry output : Memory) :
    storeAll (dottedStores entry output) output = dottedName entry output := by
  rw [dottedStores, CString.storeAll_append, storeAll_trimmedStores]
  rfl

theorem storeAll_joinedStores (entry output : Memory) :
    storeAll (joinedStores entry output) output = joinedName entry output := by
  rw [joinedStores, CString.storeAll_append, storeAll_dottedStores,
    CString.storeAll_appendCharsStores]
  rfl

theorem storeAll_loweredStores (n : ℕ) (m : Memory) :
    storeAll (loweredStores n m) m = fun i => if i < n then CString.tolower (m i) else m i := by
  induction n with
  | zero => rfl
  | succ n ih =>
      rw [loweredStores, List.range_succ, List.map_append, CString.storeAll_append]
      rw [loweredStores] at ih
      rw [ih]
      funext i
      rw [List.map_singleton, CString.storeAll_cons, CString.storeAll_nil, Function.update_apply]
      by_cases hi : i = n
      · rw [if_pos hi, if_pos (hi ▸ Nat.lt_succ_self n), hi]
      · rw [if_neg hi]
        exact if_congr (by omega) rfl rfl

theorem shortFilenameBuffer_eq (entry output : Memory) :
    shortFilenameBuffer entry output =
      if entry 8 = 0x20 ∧ entry 9 = 0x20 ∧ entry 10 = 0x20 then
        Function.update (trimmedName entry output).2 (trimmedName entry output).1 0
      else if entryLowercase entry ≠ 0 then fun i =>
        if i < 13 then CString.tolower (joinedName entry output i) else joinedName entry output i
      else joinedName entry output := by
  rw [shortFilenameBuffer, shortFilenameStores]
  split_ifs
  · rw [CString.storeAll_append, storeAll_trimmedStores]
    rfl
  · rw [CString.storeAll_append, storeAll_joinedStores, storeAll_loweredStores]
  · exact storeAll_joinedStores entry output

/-! ### Where the stores are -/

theorem fst_lt_of_mem_trimSpacesStores {n : ℕ} {s : Store}
    (h : s ∈ trimSpacesStores n output) : s.1 < n := by
  induction n generalizing output with
  | zero => cases h
  | succ n ih =>
      rw [trimSpacesStores] at h
      split_ifs at h
      · cases h
      · obtain rfl | h := List.mem_cons.mp h
        · exact Nat.lt_succ_self n
        · exact Nat.lt_succ_of_lt (ih h)

theorem fst_trimSpaces_le (n : ℕ) (output : Memory) : (trimSpaces n output).1 ≤ n := by
  induction n generalizing output with
  | zero => exact Nat.le_refl 0
  | succ n ih =>
      rw [trimSpaces]
      split_ifs
      · exact Nat.le_refl _
      · exact Nat.le_succ_of_le (ih _)

/-- The dotted name ends at the latest behind the dot. -/
theorem length_stringAt_dottedName_le (entry output : Memory) :
    (CString.stringAt (dottedName entry output) nameSize 0).length ≤
      (trimmedName entry output).1 + 1 := by
  refine CString.length_stringAt_le _ ?_
  rw [Nat.zero_add, dottedName, Function.update_self]

theorem fst_lt_of_mem_trimmedStores {s : Store} (h : s ∈ trimmedStores entry output) :
    s.1 < 8 := by
  obtain h | h := List.mem_append.mp h
  · exact CString.fst_lt_of_mem_strncpyStores _ _ h
  · exact fst_lt_of_mem_trimSpacesStores h

theorem fst_lt_of_mem_joinedStores {s : Store} (h : s ∈ joinedStores entry output) :
    s.1 < 13 := by
  have hlen : (trimmedName entry output).1 ≤ 8 := fst_trimSpaces_le 8 _
  have hjoin := length_stringAt_dottedName_le entry output
  obtain h | h := List.mem_append.mp h
  · obtain h | h := List.mem_append.mp h
    · exact Nat.lt_trans (fst_lt_of_mem_trimmedStores h) (by decide)
    · obtain rfl | h := List.mem_cons.mp h
      · exact Nat.lt_of_le_of_lt hlen (by decide)
      · obtain rfl := List.mem_singleton.mp h
        exact Nat.lt_of_le_of_lt (Nat.succ_le_succ hlen) (by decide)
  · have := CString.fst_le_of_mem_appendCharsStores _ _ h
    omega

/-- **Every store** of `parse_short_filename` lies in its buffer of 13 bytes. -/
theorem fst_lt_of_mem_shortFilenameStores {s : Store}
    (h : s ∈ shortFilenameStores entry output) : s.1 < 13 := by
  rw [shortFilenameStores] at h
  split_ifs at h
  · obtain h | h := List.mem_append.mp h
    · exact Nat.lt_trans (fst_lt_of_mem_trimmedStores h) (by decide)
    · obtain rfl := List.mem_singleton.mp h
      exact Nat.lt_of_le_of_lt (fst_trimSpaces_le 8 _) (by decide)
  · obtain h | h := List.mem_append.mp h
    · exact fst_lt_of_mem_joinedStores h
    · obtain ⟨i, hi, rfl⟩ := List.mem_map.mp h
      exact List.mem_range.mp hi
  · exact fst_lt_of_mem_joinedStores h

/-! ### The string -/

theorem trimSpaces_congr {n k : ℕ} {m m' : Memory} (hn : n ≤ k) (h : ∀ j < k, m j = m' j) :
    (trimSpaces n m).1 = (trimSpaces n m').1 ∧
      ∀ j < k, (trimSpaces n m).2 j = (trimSpaces n m').2 j := by
  induction n generalizing m m' with
  | zero => exact ⟨rfl, h⟩
  | succ n ih =>
      rw [trimSpaces, trimSpaces, ← h n hn]
      split_ifs
      · exact ⟨rfl, h⟩
      · refine ih (Nat.le_of_succ_le hn) fun j hj => ?_
        rw [Function.update_apply, Function.update_apply, h j hj]

theorem trimmedName_congr (entry output output' : Memory) :
    (trimmedName entry output).1 = (trimmedName entry output').1 ∧
      ∀ j < 8, (trimmedName entry output).2 j = (trimmedName entry output').2 j := by
  refine trimSpaces_congr (Nat.le_refl 8) fun j hj => ?_
  rw [CString.strncpy_apply, CString.strncpy_apply, if_pos ⟨Nat.zero_le j, by omega⟩,
    if_pos ⟨Nat.zero_le j, by omega⟩]

theorem dottedName_congr (entry output output' : Memory) :
    ∀ j ≤ (trimmedName entry output).1 + 1,
      dottedName entry output j = dottedName entry output' j := by
  intro j hj
  obtain ⟨hlen, hbytes⟩ := trimmedName_congr entry output output'
  have hle : (trimmedName entry output).1 ≤ 8 := fst_trimSpaces_le 8 _
  rw [dottedName, dottedName, ← hlen]
  simp only [Function.update_apply]
  split_ifs
  · rfl
  · rfl
  · exact hbytes j (by omega)

theorem joinedName_congr (entry output output' : Memory) :
    ∃ l, joinedName entry output l = 0 ∧
      ∀ j ≤ l, joinedName entry output j = joinedName entry output' j := by
  have hdotted := dottedName_congr entry output output'
  have hstring : CString.stringAt (dottedName entry output) nameSize 0 =
      CString.stringAt (dottedName entry output') nameSize 0 := by
    refine CString.stringAt_congr (l := (trimmedName entry output).1 + 1) _ (fun j hj => ?_) ?_
    · rw [Nat.zero_add]
      exact hdotted j hj
    · rw [Nat.zero_add]
      exact Function.update_self _ _ _
  rw [joinedName, joinedName, CString.strncat, CString.strncat, ← hstring]
  refine CString.appendChars_congr _ _ 3 0 fun j hj => hdotted j ?_
  have := length_stringAt_dottedName_le entry output
  omega

/-- What the buffer held does not matter. -/
theorem stringAt_shortFilenameBuffer_congr (entry output output' : Memory) :
    CString.stringAt (shortFilenameBuffer entry output) nameSize 0 =
      CString.stringAt (shortFilenameBuffer entry output') nameSize 0 := by
  obtain ⟨l, hzero, hjoined⟩ := joinedName_congr entry output output'
  rw [shortFilenameBuffer_eq, shortFilenameBuffer_eq]
  split_ifs
  · obtain ⟨hlen, hbytes⟩ := trimmedName_congr entry output output'
    have hle : (trimmedName entry output).1 ≤ 8 := fst_trimSpaces_le 8 _
    refine CString.stringAt_congr (l := (trimmedName entry output).1) _ (fun j hj => ?_) ?_
    · rw [Nat.zero_add, ← hlen, Function.update_apply, Function.update_apply]
      split_ifs
      · rfl
      · exact hbytes j (by omega)
    · rw [Nat.zero_add, Function.update_self]
  · refine CString.stringAt_congr (l := l) _ (fun j hj => ?_) ?_
    · rw [Nat.zero_add, hjoined j hj]
    · rw [Nat.zero_add, hzero]
      exact ite_self _
  · refine CString.stringAt_congr (l := l) _ (fun j hj => ?_) ?_
    · rw [Nat.zero_add, hjoined j hj]
    · rw [Nat.zero_add, hzero]

/-- **The model of the call** is the string that the stores leave, whatever the buffer held. -/
theorem stringAt_shortFilenameBuffer (entry output : Memory) :
    CString.stringAt (shortFilenameBuffer entry output) nameSize 0 = parseShortFilename entry := by
  rw [stringAt_shortFilenameBuffer_congr entry output fun _ => 0, shortFilenameBuffer_eq,
    parseShortFilename]
  split_ifs <;> rfl

/-! ### Stored names -/

/-- A base name and an extension. -/
structure ShortName where
  base : List UInt8
  ext : List UInt8
  base_pos : 1 ≤ base.length
  base_le : base.length ≤ 8
  ext_le : ext.length ≤ 3
  chars : ∀ c ∈ base ++ ext, c ≠ 0 ∧ c ≠ 0x20 ∧ c ≠ 0x2E

/-- The name as it is written. -/
def ShortName.text (n : ShortName) : List UInt8 :=
  if n.ext = [] then n.base else n.base ++ 0x2E :: n.ext

/-- The entry has the name in its fields `short_name` and `short_ext`, padded with spaces. -/
structure ShortName.StoredIn (n : ShortName) (entry : Memory) : Prop where
  shortName : ∀ i < 8, entry i = n.base.getD i 0x20
  shortExt : ∀ i < 3, entry (8 + i) = n.ext.getD i 0x20

/-- The extension with its padding. -/
def ShortName.paddedExt (n : ShortName) : List UInt8 :=
  n.ext ++ List.replicate (3 - n.ext.length) 0x20

/-- What is left of a padded name. -/
theorem trimSpaces_eq {n l : ℕ} {m : Memory} (hl : l ≤ n)
    (hpad : ∀ j, l ≤ j → j < n → m j = 0x20) (hlast : 0 < l → m (l - 1) ≠ 0x20) :
    (trimSpaces n m).1 = l ∧ ∀ j < l, (trimSpaces n m).2 j = m j := by
  induction n generalizing m with
  | zero =>
      obtain rfl : l = 0 := Nat.le_zero.mp hl
      exact ⟨rfl, fun _ _ => rfl⟩
  | succ n ih =>
      rw [trimSpaces]
      by_cases heq : l = n + 1
      · subst heq
        have hn : m n ≠ 0x20 := hlast (Nat.succ_pos n)
        rw [if_pos hn]
        exact ⟨rfl, fun _ _ => rfl⟩
      have hn : m n = 0x20 := hpad n (by omega) (Nat.lt_succ_self n)
      rw [if_neg (not_not.mpr hn)]
      have hsame : ∀ j, j ≠ n → Function.update m n 0 j = m j :=
        fun j hj => Function.update_of_ne hj _ _
      obtain ⟨hfst, hsnd⟩ := ih (m := Function.update m n 0) (by omega)
        (fun j hj hjn => by rw [hsame j (by omega)]; exact hpad j hj (by omega))
        (fun hpos => by rw [hsame _ (by omega)]; exact hlast hpos)
      exact ⟨hfst, fun j hj => (hsnd j hj).trans (hsame j (by omega))⟩

variable {n : ShortName}

theorem ShortName.StoredIn.trimmedName (h : n.StoredIn entry) (output : Memory) :
    (trimmedName entry output).1 = n.base.length ∧
      ∀ j (hj : j < n.base.length), (HalOS.trimmedName entry output).2 j = n.base[j] := by
  have hbase := n.base_le
  have hpos := n.base_pos
  have hchar : ∀ c ∈ n.base, c ≠ 0 ∧ c ≠ 0x20 ∧ c ≠ 0x2E :=
    fun c hc => n.chars c (List.mem_append_left _ hc)
  have hget : ∀ j (hj : j < n.base.length), entry j = n.base[j] := fun j hj => by
    rw [h.shortName j (by omega), List.getD_eq_getElem _ _ hj]
  have hcopy : ∀ j < 8, CString.strncpy entry output 0 8 j = entry j := fun j hj => by
    rw [CString.strncpy_apply, if_pos ⟨Nat.zero_le j, by omega⟩, Nat.sub_zero]
    refine CString.stringByte_of_ne_zero fun k hk => ?_
    by_cases hlt : k < n.base.length
    · rw [hget k hlt]
      exact (hchar _ (List.getElem_mem hlt)).1
    · rw [h.shortName k (by omega), List.getD_eq_default _ _ (Nat.not_lt.mp hlt)]
      decide
  obtain ⟨hlen, hbytes⟩ := trimSpaces_eq (m := CString.strncpy entry output 0 8) hbase
    (fun j hj hj8 => by
      rw [hcopy j hj8, h.shortName j hj8, List.getD_eq_default _ _ hj])
    (fun _ => by
      rw [hcopy _ (by omega), hget _ (by omega)]
      exact (hchar _ (List.getElem_mem _)).2.1)
  exact ⟨hlen, fun j hj => (hbytes j hj).trans ((hcopy j (by omega)).trans (hget j hj))⟩

/-- The extension is blank if it is empty. -/
theorem ShortName.StoredIn.blank_iff (h : n.StoredIn entry) :
    (entry 8 = 0x20 ∧ entry 9 = 0x20 ∧ entry 10 = 0x20) ↔ n.ext = [] := by
  constructor
  · rintro ⟨h8, -⟩
    by_contra hne
    have hpos : 0 < n.ext.length := List.length_pos_iff.mpr hne
    have h0 := h.shortExt 0 (by decide)
    rw [List.getD_eq_getElem _ _ hpos] at h0
    exact (n.chars _ (List.mem_append_right _ (List.getElem_mem hpos))).2.1 (h0.symm.trans h8)
  · intro hnil
    have hext := h.shortExt
    rw [hnil] at hext
    exact ⟨hext 0 (by decide), hext 1 (by decide), hext 2 (by decide)⟩

theorem ShortName.length_paddedExt (n : ShortName) : n.paddedExt.length = 3 := by
  rw [paddedExt, List.length_append, List.length_replicate]
  exact Nat.add_sub_cancel' n.ext_le

theorem ShortName.paddedExt_ne_zero (n : ShortName) : ∀ c ∈ n.paddedExt, c ≠ 0 := by
  intro c hc
  obtain hc | hc := List.mem_append.mp hc
  · exact (n.chars c (List.mem_append_right _ hc)).1
  · rw [List.eq_of_mem_replicate hc]
    decide

theorem ShortName.StoredIn.holdsString_joinedName (h : n.StoredIn entry) (output : Memory) :
    HoldsString (joinedName entry output) 0 (n.base ++ 0x2E :: n.paddedExt) := by
  obtain ⟨hlen, hbytes⟩ := h.trimmedName output
  have hbase := n.base_le
  have hdotted : HoldsString (dottedName entry output) 0 (n.base ++ [0x2E]) := by
    rw [dottedName, hlen]
    refine ⟨fun j hj => ?_, ?_, fun c hc => ?_⟩
    · rw [List.length_append, List.length_singleton] at hj
      rw [Nat.zero_add, Function.update_of_ne (by omega), List.getElem_append]
      by_cases hlt : j < n.base.length
      · rw [Function.update_of_ne (by omega), dif_pos hlt, hbytes j hlt]
      · obtain rfl : j = n.base.length := by omega
        rw [Function.update_self, dif_neg hlt]
        exact (List.getElem_singleton _).symm
    · rw [Nat.zero_add, List.length_append, List.length_singleton, Function.update_self]
    · obtain hc | hc := List.mem_append.mp hc
      · exact (n.chars c (List.mem_append_left _ hc)).1
      · rw [List.mem_singleton.mp hc]
        decide
  have hroom : (n.base ++ [0x2E]).length < nameSize := by
    rw [List.length_append, List.length_singleton, nameSize]
    omega
  have hsource (j : ℕ) (hj : j < n.paddedExt.length) : entry (8 + j) = n.paddedExt[j] := by
    rw [n.length_paddedExt] at hj
    rw [h.shortExt j hj, ← List.getD_eq_getElem _ 0x20, ShortName.paddedExt]
    by_cases hlt : j < n.ext.length
    · rw [List.getD_append _ _ _ _ hlt]
    · rw [List.getD_append_right _ _ _ _ (Nat.not_lt.mp hlt),
        List.getD_replicate _ (by omega), List.getD_eq_default _ _ (Nat.not_lt.mp hlt)]
  have hjoined := hdotted.strncat hroom hsource n.paddedExt_ne_zero n.length_paddedExt.le
    (Or.inl n.length_paddedExt)
  rwa [List.append_assoc] at hjoined

theorem holdsString_map_tolower {m : Memory} {s : List UInt8} {k : ℕ} (h : HoldsString m 0 s)
    (hk : s.length < k) :
    HoldsString (fun i => if i < k then CString.tolower (m i) else m i) 0
      (s.map CString.tolower) := by
  refine ⟨fun j hj => ?_, ?_, fun c hc => ?_⟩
  · rw [List.length_map] at hj
    rw [Nat.zero_add, if_pos (Nat.lt_trans hj hk), List.getElem_map, ← h.byte j hj, Nat.zero_add]
  · have hzero := h.terminator
    rw [Nat.zero_add] at hzero
    rw [List.length_map, Nat.zero_add, if_pos hk, hzero]
    rfl
  · obtain ⟨d, hd, rfl⟩ := List.mem_map.mp hc
    exact (CString.tolower_cases d).2.not.mpr (h.ne_zero d hd)

theorem sameName_map_tolower (s : List UInt8) : SameName (s.map CString.tolower) s := by
  rw [SameName, List.map_map]
  exact List.map_congr_left fun c _ => (CString.tolower_cases c).1

/-- **What comes out**, up to the case of the letters: the extension with its padding. -/
theorem ShortName.StoredIn.holdsString (h : n.StoredIn entry) (output : Memory) :
    ∃ name, HoldsString (shortFilenameBuffer entry output) 0 name ∧
      SameName name (if n.ext = [] then n.base else n.base ++ 0x2E :: n.paddedExt) := by
  obtain ⟨hlen, hbytes⟩ := h.trimmedName output
  have hbase : ∀ c ∈ n.base, c ≠ 0 := fun c hc => (n.chars c (List.mem_append_left _ hc)).1
  rw [shortFilenameBuffer_eq]
  by_cases hnil : n.ext = []
  · rw [if_pos (h.blank_iff.mpr hnil), if_pos hnil]
    refine ⟨n.base, ⟨fun j hj => ?_, ?_, hbase⟩, rfl⟩
    · rw [Nat.zero_add, hlen, Function.update_of_ne (Nat.ne_of_lt hj), hbytes j hj]
    · rw [Nat.zero_add, hlen, Function.update_self]
  · rw [if_neg (h.blank_iff.not.mpr hnil), if_neg hnil]
    have hjoined := h.holdsString_joinedName output
    by_cases hlower : entryLowercase entry ≠ 0
    · rw [if_pos hlower]
      have hshort : (n.base ++ 0x2E :: n.paddedExt).length < 13 := by
        have := n.base_le
        have := n.length_paddedExt
        rw [List.length_append, List.length_cons]
        omega
      exact ⟨_, holdsString_map_tolower hjoined hshort, sameName_map_tolower _⟩
    · rw [if_neg hlower]
      exact ⟨_, hjoined, rfl⟩

/-- An extension that comes out as it was stored has no padding. -/
theorem ShortName.StoredIn.length_ext (h : n.StoredIn entry) {name : List UInt8}
    (hname : HoldsString (shortFilenameBuffer entry output) 0 name)
    (hsame : SameName name n.text) : n.ext.length = 0 ∨ n.ext.length = 3 := by
  obtain ⟨name', hname', hsame'⟩ := h.holdsString output
  rw [hname.unique hname'] at hsame
  have hlen := congrArg List.length (hsame.symm.trans hsame')
  rw [List.length_map, List.length_map, ShortName.text] at hlen
  by_cases hnil : n.ext = []
  · exact Or.inl (List.length_eq_zero_iff.mpr hnil)
  · rw [if_neg hnil, if_neg hnil, List.length_append, List.length_append, List.length_cons,
      List.length_cons, n.length_paddedExt] at hlen
    exact Or.inr (by omega)

/-- **Short names** come out as they were stored, whatever the buffer held, exactly if the
extension has no padding: it is empty or has three characters. -/
theorem undoesPadding_iff (h : n.StoredIn entry) :
    (∀ output, ∃ name, HoldsString (shortFilenameBuffer entry output) 0 name ∧
        name.length ≤ 12 ∧ SameName name n.text) ↔
      n.ext.length = 0 ∨ n.ext.length = 3 := by
  have hbase := n.base_le
  constructor
  · intro hall
    obtain ⟨name, hname, -, hsame⟩ := hall fun _ => 0
    exact h.length_ext hname hsame
  · intro hext output
    obtain ⟨name, hname, hsame⟩ := h.holdsString output
    have htext : (if n.ext = [] then n.base else n.base ++ 0x2E :: n.paddedExt) = n.text := by
      rw [ShortName.text]
      split_ifs with hnil
      · rfl
      · have hthree := hext.resolve_left fun h0 => hnil (List.length_eq_zero_iff.mp h0)
        rw [ShortName.paddedExt, hthree]
        exact congrArg (n.base ++ 0x2E :: ·) (List.append_nil _)
    rw [htext] at hsame
    refine ⟨name, hname, ?_, hsame⟩
    have hlen := congrArg List.length hsame
    rw [List.length_map, List.length_map] at hlen
    rw [hlen, ShortName.text]
    split_ifs
    · omega
    · rw [List.length_append, List.length_cons]
      have := n.ext_le
      omega

/-! ### Entries -/

/-- The entry of a name, with zeros behind it. -/
def ShortName.encode (n : ShortName) : Memory := fun i =>
  if i < 8 then n.base.getD i 0x20 else if i < 11 then n.ext.getD (i - 8) 0x20 else 0

theorem ShortName.storedIn_encode (n : ShortName) : n.StoredIn n.encode where
  shortName := fun _ hi => if_pos hi
  shortExt := fun i hi => by
    rw [encode, if_neg (by omega), if_pos (by omega), Nat.add_sub_cancel_left]

/-- `A.TXT`. -/
def textName : ShortName :=
  ⟨[0x41], [0x54, 0x58, 0x54], by decide, by decide, by decide, by decide +kernel⟩

/-- `A.C`. -/
def sourceName : ShortName :=
  ⟨[0x41], [0x43], by decide, by decide, by decide, by decide +kernel⟩

theorem undoesPadding_textName : textName.StoredIn textName.encode ∧
    ∀ output, ∃ name, HoldsString (shortFilenameBuffer textName.encode output) 0 name ∧
      name.length ≤ 12 ∧ SameName name textName.text :=
  ⟨textName.storedIn_encode, (undoesPadding_iff textName.storedIn_encode).mpr (Or.inr rfl)⟩

/-- `A.C` comes out with two spaces behind it. -/
theorem undoesPadding_violated :
    ¬ ∀ (n : ShortName) (entry : Memory), n.StoredIn entry → ∀ output,
      ∃ name, HoldsString (shortFilenameBuffer entry output) 0 name ∧
        name.length ≤ 12 ∧ SameName name n.text := by
  intro hall
  obtain ⟨name, hname, -, hsame⟩ :=
    hall sourceName sourceName.encode sourceName.storedIn_encode fun _ => 0
  exact absurd (sourceName.storedIn_encode.length_ext hname hsame) (by decide)

end HalOS
