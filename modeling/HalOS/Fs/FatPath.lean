import HalOS.Fs.FatDir
import Mathlib.Data.List.TakeWhile

/-!
# Paths

A path leads from the root through the entries of its components. `fat32_find_file` takes one
leading slash off and stops at the first empty component, so what stands behind a run of slashes
is not looked at.

## Main results

* `findPath_eq`: the lookup of the pieces before the first empty one.
* `finds_iff_slashRuns`: when that is the lookup of the path.
-/

namespace HalOS

open CString (Memory)

/-! ### Names -/

/-- The names differ in case only. -/
def SameName (a b : List UInt8) : Prop := a.map CString.toupper = b.map CString.toupper

instance (a b : List UInt8) : Decidable (SameName a b) := inferInstanceAs (Decidable (_ = _))

theorem SameName.toupper {a b : List UInt8} :
    SameName a (b.map CString.toupper) ↔ SameName a b := by
  rw [SameName, SameName, List.map_map]
  have hcomp : CString.toupper ∘ CString.toupper = CString.toupper :=
    funext fun c => (CString.toupper_cases c).1
  rw [hcomp]

/-- What `fat32_strcasecmp` says of strings. -/
theorem fat32Strcasecmp_eq_zero_iff {a b : List UInt8} (ha : ∀ c ∈ a, c ≠ 0)
    (hb : ∀ c ∈ b, c ≠ 0) : fat32Strcasecmp a b = 0 ↔ SameName a b := by
  have hne : ∀ c : UInt8, c ≠ 0 → (CString.toupper c).toNat ≠ 0 := fun c hc h =>
    hc ((CString.toupper_cases c).2.1.mp (UInt8.toNat_inj.mp h))
  induction a generalizing b with
  | nil =>
      cases b with
      | nil => exact iff_of_true rfl rfl
      | cons d t =>
          have := hne d (hb d List.mem_cons_self)
          rw [fat32Strcasecmp]
          exact iff_of_false (by omega) nofun
  | cons c s ih =>
      cases b with
      | nil =>
          have := hne c (ha c List.mem_cons_self)
          rw [fat32Strcasecmp]
          exact iff_of_false (by omega) nofun
      | cons d t =>
          rw [fat32Strcasecmp, SameName, List.map_cons, List.map_cons, List.cons.injEq]
          have hrest := ih (fun x hx => ha x (List.mem_cons_of_mem c hx))
            fun x hx => hb x (List.mem_cons_of_mem d hx)
          by_cases heq : CString.toupper c = CString.toupper d
          · rw [if_pos heq]
            exact ⟨fun h => ⟨heq, hrest.mp h⟩, fun h => hrest.mpr h.2⟩
          · rw [if_neg heq]
            refine iff_of_false (fun h => heq (UInt8.toNat_inj.mp ?_)) fun h => heq h.1
            omega

theorem ne_zero_of_mem_stringAt {m : Memory} {n i : ℕ} {c : UInt8}
    (h : c ∈ CString.stringAt m n i) : c ≠ 0 := by
  induction n generalizing i with
  | zero => cases h
  | succ n ih =>
      rw [CString.stringAt] at h
      by_cases h0 : m i = 0
      · rw [if_pos h0] at h
        cases h
      rw [if_neg h0] at h
      rcases List.mem_cons.mp h with rfl | h
      · exact h0
      · exact ih h

/-- The names of results are strings. -/
theorem ne_zero_of_entryStep {st st' : LfnState} {entry : Memory} {out : DirEntry}
    (h : entryStep st entry = .ok (st', some out)) : ∀ c ∈ out.name, c ≠ 0 := by
  have hname : ∃ m, out.name = CString.stringAt m nameSize 0 := by
    by_cases hattrib : entryAttrib entry = dirEntryAttribLfn
    · rw [entryStep, if_pos hattrib] at h
      by_cases hseq : lfnSequence entry = 0
      · cases (if_pos hseq).symm.trans h
      · replace h := (if_neg hseq).symm.trans h
        obtain ⟨buffer, -, h⟩ := Outcome.bind_eq_ok.mp h
        cases h
    · by_cases hlen : st.length = 0
      · rw [entryStep_short hattrib hlen] at h
        cases h
        dsimp only
        rw [parseShortFilename]
        by_cases hext : entry 8 = 0x20 ∧ entry 9 = 0x20 ∧ entry 10 = 0x20
        · exact ⟨_, if_pos hext⟩
        · exact ⟨_, if_neg hext⟩
      · rw [entryStep_long hattrib (UInt8.pos_iff_ne_zero.mpr hlen)] at h
        obtain ⟨name, hjoin, h⟩ := Outcome.bind_eq_ok.mp h
        cases h
        rw [joinLfn] at hjoin
        by_cases hsize : nameSize ≤ st.length.toNat * 13
        · rw [if_pos hsize] at hjoin
          cases hjoin
        · rw [if_neg hsize] at hjoin
          exact ⟨_, (Except.ok.inj hjoin).symm⟩
  obtain ⟨m, hm⟩ := hname
  rw [hm]
  exact fun c hc => ne_zero_of_mem_stringAt hc

section

variable {disk : Disk} {v : Fat32Volume}

theorem ne_zero_of_fat32NextDirEntry {fuel : ℕ} {st st' : DirState} {out : DirEntry}
    (h : fat32NextDirEntry disk v fuel st = .ok (some out, st')) : ∀ c ∈ out.name, c ≠ 0 := by
  induction fuel generalizing st with
  | zero => cases h
  | succ fuel ih =>
      rw [fat32NextDirEntry] at h
      obtain ⟨⟨entry, list⟩, -, h⟩ := Outcome.bind_eq_ok.mp h
      cases entry with
      | none => cases h
      | some entry =>
          obtain ⟨⟨lfn, found⟩, hstep, h⟩ := Outcome.bind_eq_ok.mp h
          cases found with
          | none => exact ih h
          | some found =>
              cases h
              exact ne_zero_of_entryStep hstep

/-! ### The search in a directory -/

/-- More fuel changes nothing. -/
theorem fat32NextDirEntry_mono {fuel fuel' : ℕ} (hle : fuel ≤ fuel') {st : DirState}
    {r : Option DirEntry × DirState} (h : fat32NextDirEntry disk v fuel st = .ok r) :
    fat32NextDirEntry disk v fuel' st = .ok r := by
  induction fuel generalizing fuel' st with
  | zero => cases h
  | succ fuel ih =>
      obtain ⟨n, rfl⟩ : ∃ n, fuel' = n + 1 := ⟨fuel' - 1, by omega⟩
      rw [fat32NextDirEntry] at h ⊢
      obtain ⟨⟨entry, list⟩, hread, h⟩ := Outcome.bind_eq_ok.mp h
      rw [hread]
      cases entry with
      | none => exact h
      | some entry =>
          obtain ⟨⟨lfn, found⟩, hstep, h⟩ := Outcome.bind_eq_ok.mp h
          change (entryStep st.lfn entry >>= _) = _
          rw [hstep]
          cases found with
          | none => exact ih (by omega) h
          | some found => exact h

/-- The first entry of the name. -/
def firstMatch (entries : List DirEntry) (component : List UInt8) : Option Fat32File :=
  (entries.find? fun e => SameName e.name component).map DirEntry.file

/-- The search finds the first entry of the name. -/
theorem findEntry_eq {st : DirState} {entries : List DirEntry} {component : List UInt8}
    (h : Lists disk v st entries) (hcomponent : ∀ c ∈ component, c ≠ 0) :
    ∃ lfn fuel₀, lfn.length = 0 ∧ ∀ fuel ≥ fuel₀,
      findEntry disk v (component.map CString.toupper) fuel st =
        .ok (firstMatch entries component, lfn) := by
  have hupper : ∀ c ∈ component.map CString.toupper, c ≠ 0 := by
    intro c hc
    obtain ⟨d, hd, rfl⟩ := List.mem_map.mp hc
    exact fun h0 => hcomponent d hd ((CString.toupper_cases d).2.1.mp h0)
  induction h with
  | @done st st' n hcall =>
      refine ⟨st'.lfn, n + 1, length_fat32NextDirEntry hcall, fun fuel hfuel => ?_⟩
      obtain ⟨k, rfl⟩ : ∃ k, fuel = k + 1 := ⟨fuel - 1, by omega⟩
      rw [findEntry, fat32NextDirEntry_mono (by omega) hcall]
      rfl
  | @next st st' n out results hcall _ ih =>
      have hname : fat32Strcasecmp out.name (component.map CString.toupper) = 0 ↔
          SameName out.name component := by
        rw [fat32Strcasecmp_eq_zero_iff (ne_zero_of_fat32NextDirEntry hcall) hupper]
        exact SameName.toupper
      by_cases hsame : SameName out.name component
      · refine ⟨st'.lfn, n + 1, length_fat32NextDirEntry hcall, fun fuel hfuel => ?_⟩
        obtain ⟨k, rfl⟩ : ∃ k, fuel = k + 1 := ⟨fuel - 1, by omega⟩
        rw [findEntry, fat32NextDirEntry_mono (by omega) hcall, firstMatch,
          List.find?_cons_of_pos (by simpa using hsame)]
        exact if_pos (hname.mpr hsame)
      · obtain ⟨lfn, fuel₀, hlfn, hrest⟩ := ih
        refine ⟨lfn, max (n + 1) (fuel₀ + 1), hlfn, fun fuel hfuel => ?_⟩
        obtain ⟨k, rfl⟩ : ∃ k, fuel = k + 1 := ⟨fuel - 1, by omega⟩
        rw [findEntry, fat32NextDirEntry_mono (by omega) hcall, firstMatch,
          List.find?_cons_of_neg (by simpa using hsame)]
        refine (if_neg fun h => hsame (hname.mp h)).trans ?_
        exact hrest k (by omega)

/-! ### The tree -/

/-- What a path leads to, from an entry on. The pieces are what the slashes separate, so a piece
that is not the last one is followed by a slash; empty ones lead nowhere else. -/
def lookup (tree : UInt32 → List DirEntry) : Fat32File → List (List UInt8) → Option Fat32File
  | current, [] => some current
  | current, [] :: rest => lookup tree current rest
  | current, (c :: cs) :: rest =>
      match firstMatch (tree current.cluster) (c :: cs) with
      | none => none
      | some file =>
          if file.attrib &&& fat32IsDir = 0 ∧ rest ≠ [] then none else lookup tree file rest

/-- The root directory, as `fat32_find_file` begins. -/
def rootDirectory (v : Fat32Volume) : Fat32File where
  attrib := fat32IsDir
  cluster := v.header.rootCluster
  size := 0

/-- `".."`. -/
def parentName : List UInt8 := [0x2E, 0x2E]

/-- The directories that paths without `..` lead to. -/
inductive InTree (v : Fat32Volume) (tree : UInt32 → List DirEntry) : Fat32File → Prop
  | root : InTree v tree (rootDirectory v)
  | entry {dir : Fat32File} {e : DirEntry} : InTree v tree dir → e ∈ tree dir.cluster →
      e.name ≠ parentName → e.file.attrib &&& fat32IsDir ≠ 0 → InTree v tree e.file

/-- The directories of the tree enumerate as it says, whatever was enumerated before. -/
def Enumerates (disk : Disk) (v : Fat32Volume) (tree : UInt32 → List DirEntry) : Prop :=
  ∀ dir, InTree v tree dir → ∀ stale (lfn : LfnState), lfn.length = 0 →
    Lists disk v ⟨lfn, fat32ListDir dir stale⟩ (tree dir.cluster)

/-- What the driver makes of the pieces: it stops at the first empty one. -/
def lookupFront (tree : UInt32 → List DirEntry) :
    Fat32File → List (List UInt8) → Option Fat32File
  | current, [] => some current
  | current, [] :: _ => some current
  | current, (c :: cs) :: rest =>
      match firstMatch (tree current.cluster) (c :: cs) with
      | none => none
      | some file =>
          if file.attrib &&& fat32IsDir = 0 ∧ rest ≠ [] then none else lookupFront tree file rest

/-- The first piece of a path, and the others. -/
theorem splitOn_eq (path : List UInt8) :
    path.splitOn 0x2F = path.takeWhile (· ≠ 0x2F) ::
      if path.dropWhile (· ≠ 0x2F) = [] then []
      else ((path.dropWhile (· ≠ 0x2F)).drop 1).splitOn 0x2F := by
  have hfront : ∀ c ∈ path.takeWhile (· ≠ 0x2F), (c == 0x2F) = false := fun c hc => by
    simpa using List.mem_takeWhile_imp hc
  have hpath : path.takeWhile (· ≠ 0x2F) ++ path.dropWhile (· ≠ 0x2F) = path :=
    List.takeWhile_append_dropWhile
  cases hback : path.dropWhile (· ≠ 0x2F) with
  | nil =>
      rw [hback, List.append_nil] at hpath
      rw [if_pos rfl, List.splitOn_eq_splitOnP, ← List.splitOnP_eq_singleton hfront, hpath]
  | cons c rest =>
      have hc : (c == 0x2F) = true := by
        have := List.head_dropWhile_not (fun x : UInt8 => decide (x ≠ 0x2F)) (l := path)
          (by rw [hback]; exact List.cons_ne_nil _ _)
        simp only [hback, List.head_cons] at this
        simpa using this
      rw [if_neg (List.cons_ne_nil _ _), List.drop_one, List.tail_cons, List.splitOn_eq_splitOnP,
        List.splitOn_eq_splitOnP, ← List.splitOnP_append_cons_of_forall_mem hfront c hc, ← hback,
        hpath]

theorem mem_tree_of_firstMatch {entries : List DirEntry} {component : List UInt8}
    {file : Fat32File} (h : firstMatch entries component = some file) :
    ∃ e ∈ entries, SameName e.name component ∧ e.file = file := by
  obtain ⟨e, hfind, rfl⟩ := Option.map_eq_some_iff.mp h
  exact ⟨e, List.mem_of_find?_eq_some hfind, by simpa using List.find?_some hfind, rfl⟩

theorem eq_parentName {name : List UInt8} (h : SameName parentName name) : name = parentName := by
  obtain ⟨c, hc, cs, hcs, rfl⟩ : ∃ c, CString.toupper c = 0x2E ∧ ∃ cs,
      cs.map CString.toupper = [0x2E] ∧ name = c :: cs := by
    obtain ⟨c, cs, rfl, hc, hcs⟩ := List.map_eq_cons_iff.mp h.symm
    exact ⟨c, hc, cs, hcs, rfl⟩
  obtain ⟨d, ds, rfl, hd, hds⟩ := List.map_eq_cons_iff.mp hcs
  rw [(CString.toupper_cases c).2.2.1.mp hc, (CString.toupper_cases d).2.2.1.mp hd,
    List.map_eq_nil_iff.mp hds]
  rfl

theorem findPath_nil (stale : ℕ → Fat32DirList) (fuel n : ℕ) (current : Fat32File)
    (lfn : LfnState) : findPath disk v stale fuel n [] current lfn = .ok (some current, lfn) := by
  cases n with
  | zero => rfl
  | succ n => rfl

variable {tree : UInt32 → List DirEntry}

section Turn

variable {stale : ℕ → Fat32DirList} {fuel n : ℕ} {path component back : List UInt8}
  {current : Fat32File} {lfn lfn' : LfnState}

/-- A turn of the loop whose component is missing. -/
theorem findPath_missing (hfront : path.takeWhile (· ≠ 0x2F) = component) (hne : component ≠ [])
    (hsize : component.length ≤ 255)
    (hfind : findEntry disk v (component.map CString.toupper) fuel
      ⟨lfn, fat32ListDir current (stale n)⟩ = .ok (none, lfn')) :
    findPath disk v stale fuel (n + 1) path current lfn = .ok (none, lfn') := by
  have hfits : ¬ nameSize ≤ component.length := by
    rw [nameSize]
    omega
  simp only [findPath, hfront]
  rw [if_neg hne, if_neg hfits, hfind]
  rfl

/-- A turn of the loop whose component is found. -/
theorem findPath_found (hfront : path.takeWhile (· ≠ 0x2F) = component)
    (hback : path.dropWhile (· ≠ 0x2F) = back) (hne : component ≠ [])
    (hsize : component.length ≤ 255) {file : Fat32File}
    (hfind : findEntry disk v (component.map CString.toupper) fuel
      ⟨lfn, fat32ListDir current (stale n)⟩ = .ok (some file, lfn')) :
    findPath disk v stale fuel (n + 1) path current lfn =
      if file.attrib &&& fat32IsDir = 0 ∧ back ≠ [] then .ok (none, lfn')
      else findPath disk v stale fuel n (back.drop 1) file lfn' := by
  have hfits : ¬ nameSize ≤ component.length := by
    rw [nameSize]
    omega
  simp only [findPath, hfront, hback]
  rw [if_neg hne, if_neg hfits, hfind]
  rfl

end Turn

/-- The lookup of the pieces before the first empty one. -/
theorem findPath_eq (henum : Enumerates disk v tree) (stale : ℕ → Fat32DirList) (n : ℕ)
    {path : List UInt8} (hn : path.length ≤ n) {current : Fat32File} (hdir : InTree v tree current)
    {lfn : LfnState} (hlfn : lfn.length = 0) (hchars : ∀ c ∈ path, c ≠ 0)
    (hpieces : ∀ piece ∈ path.splitOn 0x2F, piece.length ≤ 255 ∧ piece ≠ parentName) :
    ∃ lfn' fuel₀, ∀ fuel ≥ fuel₀, findPath disk v stale fuel n path current lfn =
      .ok (lookupFront tree current (path.splitOn 0x2F), lfn') := by
  induction n generalizing path current lfn with
  | zero =>
      obtain rfl : path = [] := List.length_eq_zero_iff.mp (Nat.le_zero.mp hn)
      exact ⟨lfn, 0, fun fuel _ => rfl⟩
  | succ n ih =>
      obtain ⟨back, hback⟩ : ∃ back, path.dropWhile (· ≠ 0x2F) = back := ⟨_, rfl⟩
      obtain ⟨component, hfront⟩ : ∃ component, path.takeWhile (· ≠ 0x2F) = component := ⟨_, rfl⟩
      have hpath : component ++ back = path := by
        rw [← hfront, ← hback]
        exact List.takeWhile_append_dropWhile
      rw [splitOn_eq, hfront, hback] at hpieces ⊢
      cases component with
      | nil =>
          refine ⟨lfn, 0, fun fuel _ => ?_⟩
          simp only [findPath, hfront]
          exact if_pos trivial
      | cons c cs =>
          obtain ⟨hsize, hname⟩ := hpieces _ List.mem_cons_self
          obtain ⟨lfn₁, fuel₁, hlfn₁, hfind⟩ := findEntry_eq
            (henum current hdir (stale n) lfn hlfn)
            fun d hd => hchars d (hpath ▸ List.mem_append_left back hd)
          rw [lookupFront]
          cases hmatch : firstMatch (tree current.cluster) (c :: cs) with
          | none =>
              rw [hmatch] at hfind
              exact ⟨lfn₁, fuel₁, fun fuel hfuel =>
                findPath_missing hfront (List.cons_ne_nil c cs) hsize (hfind fuel hfuel)⟩
          | some file =>
              rw [hmatch] at hfind
              have hturn := fun fuel hfuel => findPath_found hfront hback (List.cons_ne_nil c cs)
                hsize (hfind fuel hfuel)
              dsimp only
              by_cases hnil : back = []
              · -- the last piece, with no slash behind it
                rw [if_pos hnil, if_neg fun h => h.2 rfl]
                refine ⟨lfn₁, fuel₁, fun fuel hfuel => (hturn fuel hfuel).trans ?_⟩
                rw [if_neg fun h => h.2 hnil, hnil]
                exact findPath_nil stale fuel n file lfn₁
              rw [if_neg hnil] at hpieces ⊢
              by_cases hdirectory : file.attrib &&& fat32IsDir = 0
              · rw [if_pos ⟨hdirectory, List.splitOn_ne_nil _ _⟩]
                refine ⟨lfn₁, fuel₁, fun fuel hfuel => (hturn fuel hfuel).trans ?_⟩
                exact if_pos ⟨hdirectory, hnil⟩
              rw [if_neg fun h => hdirectory h.1]
              obtain ⟨e, he, hsame, rfl⟩ := mem_tree_of_firstMatch hmatch
              have hparent : e.name ≠ parentName := by
                intro hparent
                rw [hparent] at hsame
                exact hname (eq_parentName hsame)
              have hlen : (back.drop 1).length ≤ n := by
                rw [← hpath, List.length_append, List.length_cons] at hn
                rw [List.length_drop]
                omega
              obtain ⟨lfn', fuel₂, hrest⟩ := ih hlen (.entry hdir he hparent hdirectory) hlfn₁
                (fun d hd => hchars d
                  (hpath ▸ List.mem_append_right _ ((List.drop_sublist 1 back).subset hd)))
                fun piece hp => hpieces piece (List.mem_cons_of_mem _ hp)
              refine ⟨lfn', max fuel₁ fuel₂, fun fuel hfuel => ?_⟩
              rw [hturn fuel (by omega), if_neg fun h => hdirectory h.1]
              exact hrest fuel (by omega)

/-! ### Paths with runs of slashes -/

/-- The pieces of a path, behind the slash that it begins with. -/
def pathPieces (path : List UInt8) : List (List UInt8) :=
  (if path.head? = some 0x2F then path.drop 1 else path).splitOn 0x2F

/-- Where the pieces before the first empty one lead, those behind it lead as well. -/
def SlashRunsHarmless (tree : UInt32 → List DirEntry) (current : Fat32File)
    (pieces : List (List UInt8)) : Prop :=
  ∀ file, lookup tree current (pieces.takeWhile (· ≠ []) ++ [[]]) = some file →
    lookup tree file (pieces.dropWhile (· ≠ [])) = some file

/-- The slash that a path begins with leads nowhere else. -/
theorem lookup_pathPieces (path : List UInt8) (current : Fat32File) :
    lookup tree current (pathPieces path) = lookup tree current (path.splitOn 0x2F) := by
  rw [pathPieces]
  by_cases hhead : path.head? = some 0x2F
  · obtain ⟨rest, rfl⟩ : ∃ rest, path = 0x2F :: rest := List.head?_eq_some_iff.mp hhead
    rw [if_pos hhead, splitOn_eq (0x2F :: rest)]
    rfl
  · rw [if_neg hhead]

/-- When it is enough to look at the pieces before the first empty one. -/
theorem lookupFront_eq_lookup_iff (current : Fat32File) (pieces : List (List UInt8)) :
    lookupFront tree current pieces = lookup tree current pieces ↔
      SlashRunsHarmless tree current pieces := by
  induction pieces generalizing current with
  | nil =>
      exact iff_of_true rfl fun _ _ => rfl
  | cons piece rest ih =>
      cases piece with
      | nil =>
          rw [SlashRunsHarmless, List.takeWhile_cons_of_neg (by simp),
            List.dropWhile_cons_of_neg (by simp), List.nil_append, lookupFront]
          constructor
          · intro h file hfile
            obtain rfl : current = file := Option.some.inj hfile
            exact h.symm
          · exact fun h => (h current rfl).symm
      | cons c cs =>
          rw [SlashRunsHarmless, List.takeWhile_cons_of_pos (by simp),
            List.dropWhile_cons_of_pos (by simp), List.cons_append]
          simp only [lookupFront, lookup]
          cases firstMatch (tree current.cluster) (c :: cs) with
          | none => exact iff_of_true rfl fun _ hfile => by cases hfile
          | some file =>
              dsimp only
              have hmore : rest.takeWhile (· ≠ []) ++ [[]] ≠ [] :=
                List.append_ne_nil_of_right_ne_nil _ (List.cons_ne_nil _ _)
              by_cases hdirectory : file.attrib &&& fat32IsDir = 0
              · refine iff_of_true ?_ fun _ hfile => ?_
                · by_cases hnil : rest = []
                  · rw [hnil]
                    rfl
                  · rw [if_pos ⟨hdirectory, hnil⟩, if_pos ⟨hdirectory, hnil⟩]
                · rw [if_pos ⟨hdirectory, hmore⟩] at hfile
                  cases hfile
              · simp only [hdirectory, false_and, if_false]
                exact ih file

/-- With no component behind an empty piece there is nothing to overlook. -/
theorem slashRunsHarmless_of_forall {pieces : List (List UInt8)} (current : Fat32File)
    (h : ∀ piece ∈ pieces.dropWhile (· ≠ []), piece = []) :
    SlashRunsHarmless tree current pieces := by
  intro file _
  generalize pieces.dropWhile (· ≠ []) = back at h
  induction back with
  | nil => rfl
  | cons piece rest ih =>
      obtain rfl := h piece List.mem_cons_self
      exact ih fun piece hp => h piece (List.mem_cons_of_mem _ hp)

/-- The call gives this, if it has enough fuel. -/
def Finds (disk : Disk) (v : Fat32Volume) (stale : ℕ → Fat32DirList) (path : List UInt8)
    (lfn : LfnState) (found : Option Fat32File) : Prop :=
  ∃ lfn' fuel₀, ∀ fuel ≥ fuel₀, fat32FindFile disk v stale fuel path lfn = .ok (found, lfn')

theorem Finds.unique {stale : ℕ → Fat32DirList} {path : List UInt8} {lfn : LfnState}
    {found found' : Option Fat32File} (h : Finds disk v stale path lfn found)
    (h' : Finds disk v stale path lfn found') : found = found' := by
  obtain ⟨_, n, hn⟩ := h
  obtain ⟨_, n', hn'⟩ := h'
  have := (hn (max n n') (Nat.le_max_left n n')).symm.trans (hn' (max n n') (Nat.le_max_right n n'))
  exact (Prod.mk.inj (Except.ok.inj this)).1

/-- A path of components that the driver has room for. -/
structure GoodPath (path : List UInt8) : Prop where
  ne_nil : path ≠ []
  ne_zero : ∀ c ∈ path, c ≠ 0
  pieces : ∀ piece ∈ path.splitOn 0x2F, piece.length ≤ 255 ∧ piece ≠ parentName

/-- What the call gives. -/
theorem finds_lookupFront (henum : Enumerates disk v tree) {path : List UInt8}
    (hpath : GoodPath path) (stale : ℕ → Fat32DirList) {lfn : LfnState} (hlfn : lfn.length = 0) :
    Finds disk v stale path lfn (lookupFront tree (rootDirectory v) (pathPieces path)) := by
  have hrest : ∃ rest, (if path.head? = some 0x2F then path.drop 1 else path) = rest ∧
      rest.length ≤ path.length ∧ (∀ c ∈ rest, c ≠ 0) ∧
      ∀ piece ∈ rest.splitOn 0x2F, piece.length ≤ 255 ∧ piece ≠ parentName := by
    by_cases hhead : path.head? = some 0x2F
    · obtain ⟨rest, rfl⟩ : ∃ rest, path = 0x2F :: rest := List.head?_eq_some_iff.mp hhead
      refine ⟨rest, if_pos hhead, Nat.le_succ _,
        fun c hc => hpath.ne_zero c (List.mem_cons_of_mem _ hc),
        fun piece hp => hpath.pieces piece ?_⟩
      rw [splitOn_eq (0x2F :: rest)]
      exact List.mem_cons_of_mem _ hp
    · exact ⟨path, if_neg hhead, Nat.le_refl _, hpath.ne_zero, hpath.pieces⟩
  obtain ⟨rest, hrest, hlen, hchars, hpieces⟩ := hrest
  obtain ⟨lfn', fuel₀, hcall⟩ := findPath_eq henum stale path.length hlen .root hlfn hchars hpieces
  refine ⟨lfn', fuel₀, fun fuel hfuel => ?_⟩
  rw [fat32FindFile, if_neg hpath.ne_nil, pathPieces, hrest]
  exact hcall fuel hfuel

/-- A path is looked up exactly if what stands behind its first run of slashes leads nowhere
else. -/
theorem finds_iff_slashRuns (henum : Enumerates disk v tree) {path : List UInt8}
    (hpath : GoodPath path) (stale : ℕ → Fat32DirList) {lfn : LfnState} (hlfn : lfn.length = 0) :
    Finds disk v stale path lfn (lookup tree (rootDirectory v) (path.splitOn 0x2F)) ↔
      SlashRunsHarmless tree (rootDirectory v) (pathPieces path) := by
  have hfinds := finds_lookupFront henum hpath stale hlfn
  rw [← lookup_pathPieces, ← lookupFront_eq_lookup_iff]
  constructor
  · exact fun h => hfinds.unique h
  · exact fun h => h ▸ hfinds

end

/-- A root directory with one entry, the file `A`. -/
def sampleRootContent : ℕ → Memory := fun n b =>
  if n = 2 then if b = 0 then 0x41 else if b < 11 then 0x20 else 0 else 0

def sampleRootDrive : Disk := fun n => some (sampleRootContent n.toNat)

def sampleRootVolume : Fat32Volume :=
  { sampleVolume with header := { sampleVolume.header with rootCluster := 2 } }

def sampleTree (c : UInt32) : List DirEntry := if c = 2 then [⟨⟨0, 0, 0⟩, [0x41]⟩] else []

theorem lists_sampleTree (stale : Fat32DirList) {lfn : LfnState} (hlfn : lfn.length = 0) :
    Lists sampleRootDrive sampleRootVolume
      ⟨lfn, fat32ListDir (rootDirectory sampleRootVolume) stale⟩ (sampleTree 2) := by
  have hdir : Directory sampleRootDrive sampleRootVolume (fun _ => 0x0FFFFFFF) sampleRootContent
      (rootDirectory sampleRootVolume) [2] :=
    { isDir := by decide
      wellFormed := .last ⟨by decide, by decide, by decide⟩ (by decide)
      head := rfl
      holds := fun c hc i hi => by
        obtain rfl := List.mem_singleton.mp hc
        obtain rfl : i = 0 := Nat.lt_one_iff.mp hi
        rfl }
  have hreach : Reaches sampleRootDrive sampleRootVolume (fun _ => 0x0FFFFFFF) sampleRootContent
      (rootDirectory sampleRootVolume) [2] := ⟨by decide, fun _ => Or.inl (by decide)⟩
  have hused : usedSlots (dirSlots sampleRootVolume sampleRootContent [2]) =
      [clusterSlot sampleRootVolume sampleRootContent 2 0] := rfl
  have hread := hreach.readsOut ⟨rfl, by decide, rfl⟩ hdir stale
  rw [hused] at hread
  rw [lists_iff_decodeEntries hread, decodeEntries, entryStep_short (by decide) hlfn]
  have hfile : entryFile (clusterSlot sampleRootVolume sampleRootContent 2 0) = ⟨0, 0, 0⟩ := by
    decide
  have hname : parseShortFilename (clusterSlot sampleRootVolume sampleRootContent 2 0) =
      [0x41] := by decide
  rw [hfile, hname]
  rfl

theorem enumerates_sampleTree : Enumerates sampleRootDrive sampleRootVolume sampleTree := by
  intro dir hdir stale lfn hlfn
  cases hdir with
  | root => exact lists_sampleTree stale hlfn
  | @entry dir e _ he _ hisDir =>
      rw [sampleTree] at he
      by_cases hc : dir.cluster = 2
      · rw [if_pos hc] at he
        obtain rfl := List.mem_singleton.mp he
        exact absurd rfl hisDir
      · rw [if_neg hc] at he
        cases he

theorem finds_iff_slashRuns_sampleTree :
    Finds sampleRootDrive sampleRootVolume (fun _ => ⟨7, 7, fun _ => 7, 7⟩) [0x2F, 0x61]
      ⟨fun _ => 0, 0⟩
      (lookup sampleTree (rootDirectory sampleRootVolume) ([0x2F, 0x61].splitOn 0x2F)) :=
  (finds_iff_slashRuns enumerates_sampleTree ⟨by decide, by simp, by decide⟩ _ rfl).mpr
    (slashRunsHarmless_of_forall _ (by decide))

/-- `//A` leads to the root. -/
theorem finds_violated :
    ¬ ∀ disk v tree, Enumerates disk v tree → ∀ path, GoodPath path →
      ∀ stale (lfn : LfnState), lfn.length = 0 →
      Finds disk v stale path lfn (lookup tree (rootDirectory v) (path.splitOn 0x2F)) := by
  intro h
  have hpath : GoodPath [0x2F, 0x2F, 0x41] := ⟨by decide, by simp, by decide⟩
  have hfinds := h _ _ _ enumerates_sampleTree _ hpath (fun _ => ⟨7, 7, fun _ => 7, 7⟩)
    ⟨fun _ => 0, 0⟩ rfl
  exact absurd (hfinds.unique (finds_lookupFront enumerates_sampleTree hpath _ rfl)) (by decide)

end HalOS
