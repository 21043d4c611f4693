import HalOS.Lib.Outcome
import HalOS.Lib.Strtok
import Mathlib.Data.List.Forall2

/-!
# The Path of a Name

`resolve_path` of `shell.c` puts the current path and a name together, splits the result with
`strtok` and writes the components that are left, in capitals. Each component goes through `upper`,
which has room for the twelve characters of a short name.

## Main results

* `holdsString_resolvePath`: what is written, if no component is too long.
* `normalizes_iff`: when the normal form is written, and once more for the result.
-/

namespace HalOS

open CString (Memory Store Strtok)

/-! ### Data -/

/-- `sizeof(combined)`. -/
abbrev combinedSize : ℕ := 512

/-- The entries of `components`. -/
abbrev maxComponents : ℕ := 256

/-- `sizeof(upper)`. -/
abbrev upperSize : ℕ := 13

/-- `sizeof(resolved)`, of the callers. -/
abbrev resolvedSize : ℕ := 256

/-- `"."`. -/
abbrev dotName : List UInt8 := [0x2E]

/-- `".."`. -/
abbrev dotDotName : List UInt8 := [0x2E, 0x2E]

/-- `"/"`. -/
abbrev slashDelim : List UInt8 := [0x2F]

inductive PathBuffer
  | combined
  | upper
  | resolved
deriving DecidableEq, Repr

/-- What goes wrong: a store outside a buffer, and a read behind `combined`. -/
inductive PathFault
  | store (buffer : PathBuffer)
  | read
  | outOfFuel
deriving DecidableEq, Repr

/-- What the local buffers hold before anything is stored, and where `strtok` has stopped. -/
structure PathLocals where
  combined : Memory
  upper : Memory
  last : Option ℕ

/-! ### The combined path -/

/-- Stores to a buffer of `size` bytes. -/
def storeIn (buffer : PathBuffer) (size : ℕ) (stores : List Store) (m : Memory) :
    Except PathFault Memory :=
  if ∀ s ∈ stores, s.1 < size then .ok (CString.storeAll stores m) else .error (.store buffer)

/-- `strncat(combined, s, sizeof(combined) - strlen(combined) - 1)`. -/
def appendToCombined (combined : Memory) (s : List UInt8) : Except PathFault Memory :=
  let length := (CString.stringAt combined combinedSize 0).length
  storeIn .combined combinedSize
    (CString.appendCharsStores (CString.ofList s) length (combinedSize - length - 1) 0) combined

/-- The slash behind the current path, only if needed. -/
def addSlash (current : List UInt8) (combined : Memory) : Except PathFault Memory :=
  if current ≠ [] ∧ current.getLast? ≠ some 0x2F then appendToCombined combined [0x2F]
  else .ok combined

/-- The two cases at the beginning of `resolve_path`. -/
def combinePaths (current path : List UInt8) (combined : Memory) : Except PathFault Memory :=
  if path.head? = some 0x2F then
    storeIn .combined combinedSize
      (CString.strncpyStores (CString.ofList path) 0 combinedSize) combined
  else do
    let combined ← storeIn .combined combinedSize
      (CString.strncpyStores (CString.ofList current) 0 combinedSize) combined
    let combined ← addSlash current combined
    appendToCombined combined path

/-- `combined`, before it is split. -/
def combinedBuffer (current path : List UInt8) (locals : PathLocals) : Except PathFault Memory := do
  let combined ← storeIn .combined combinedSize [(0, 0)] locals.combined
  let combined ← combinePaths current path combined
  storeIn .combined combinedSize [(combinedSize - 1, 0)] combined

/-! ### The components -/

/-- A call of `strtok` with the slash. -/
def nextToken (s : Strtok) (str : Option ℕ) : Except PathFault (Option ℕ × Strtok) :=
  match CString.strtok s combinedSize str slashDelim with
  | none => .error .read
  | some r => .ok r

/-- The string of a component. -/
def componentAt (combined : Memory) (i : ℕ) : List UInt8 :=
  CString.stringAt combined (combinedSize - i) i

/-- The entries of `components` after a token, the last one first. -/
def keepToken (combined : Memory) (components : List ℕ) (i : ℕ) : List ℕ :=
  if componentAt combined i = dotName then components
  else if componentAt combined i = dotDotName then components.tail
  else i :: components

/-- The loop over the tokens. -/
def splitLoop : ℕ → Option ℕ → List ℕ → Strtok → Except PathFault (List ℕ × Strtok)
  | 0, _, _, _ => .error .outOfFuel
  | _ + 1, none, components, s => .ok (components, s)
  | fuel + 1, some i, components, s =>
      if components.length < maxComponents then do
        let next ← nextToken s none
        splitLoop fuel next.1 (keepToken s.memory components i) next.2
      else .ok (components, s)

/-! ### The result -/

/-- What is stored to `upper` for a component. -/
def upperStores (component : List UInt8) : List Store :=
  CString.blockStores 0 ((component.take 12).map CString.toupper) ++ [(component.length, 0)]

/-- The loop over the components. -/
def writeLoop (upper combined : Memory) (size : ℕ) :
    List ℕ → ℕ → Memory → Except PathFault (ℕ × Memory)
  | [], pos, resolved => .ok (pos, resolved)
  | i :: components, pos, resolved => do
      let upper' ← storeIn .upper upperSize (upperStores (componentAt combined i)) upper
      let name := CString.stringAt upper' upperSize 0
      if size < pos + name.length + 1 then .ok (pos, resolved)
      else do
        let resolved ← storeIn .resolved size
          (CString.blockStores pos name ++ [(pos + name.length, 0x2F)]) resolved
        writeLoop upper combined size components (pos + name.length + 1) resolved

/-- The terminator of the result. -/
def endResolved (size pos : ℕ) (resolved : Memory) : Except PathFault Memory :=
  if 1 < pos then storeIn .resolved size [(pos - 1, 0)] resolved
  else storeIn .resolved size [(1, 0)] resolved

/-- `resolve_path`, with strings for `current` and `path`. -/
def resolvePath (locals : PathLocals) (current path : List UInt8) (resolved : Memory)
    (size : ℕ) : Except PathFault Memory := do
  let combined ← combinedBuffer current path locals
  let first ← nextToken ⟨combined, locals.last⟩ (some 0)
  let split ← splitLoop combinedSize first.1 [] first.2
  let resolved ← storeIn .resolved size [(0, 0x2F)] resolved
  let written ← writeLoop locals.upper split.2.memory size split.1.reverse 1 resolved
  endResolved size written.1 written.2

/-! ### The normal form -/

/-- The name behind the current path, unless it begins at the root. -/
def combinedPath (current path : List UInt8) : List UInt8 :=
  if path.head? = some 0x2F then path
  else if current ≠ [] ∧ current.getLast? ≠ some 0x2F then current ++ 0x2F :: path
  else current ++ path

/-- The components that are left after one more, the last one first. -/
def cancelComponent (left : List (List UInt8)) (component : List UInt8) : List (List UInt8) :=
  if component = [] ∨ component = dotName then left
  else if component = dotDotName then left.tail
  else component :: left

/-- The components of the normal form. -/
def normalComponents (text : List UInt8) : List (List UInt8) :=
  ((text.splitOn 0x2F).foldl cancelComponent []).reverse

/-- The normal form. -/
def normalForm (text : List UInt8) : List UInt8 :=
  0x2F :: [0x2F].intercalate ((normalComponents text).map (List.map CString.toupper))

/-! ### What is combined -/

theorem storeIn_ok {buffer : PathBuffer} {size : ℕ} {stores : List Store} (m : Memory)
    (h : ∀ s ∈ stores, s.1 < size) :
    storeIn buffer size stores m = .ok (CString.storeAll stores m) := if_pos h

theorem storeIn_strncpy {s : List UInt8} (h : ∀ c ∈ s, c ≠ 0) (hs : s.length < combinedSize)
    (m : Memory) :
    ∃ m', storeIn .combined combinedSize
        (CString.strncpyStores (CString.ofList s) 0 combinedSize) m = .ok m' ∧
      CString.HoldsString m' 0 s := by
  refine ⟨_, storeIn_ok m fun store hstore => ?_, ?_⟩
  · have := CString.fst_lt_of_mem_strncpyStores _ _ hstore
    rwa [Nat.zero_add] at this
  · rw [CString.storeAll_strncpyStores]
    exact (CString.holdsString_ofList h).strncpy hs

theorem appendToCombined_ok {m : Memory} {s t : List UInt8} (hm : CString.HoldsString m 0 s)
    (ht : ∀ c ∈ t, c ≠ 0) (hlength : (s ++ t).length < combinedSize) :
    ∃ m', appendToCombined m t = .ok m' ∧ CString.HoldsString m' 0 (s ++ t) := by
  rw [List.length_append] at hlength
  have hstring : CString.stringAt m combinedSize 0 = s := hm.stringAt_eq (by omega)
  have hlist := CString.holdsString_ofList ht
  rw [appendToCombined, hstring]
  refine ⟨_, storeIn_ok m fun store hstore => ?_, ?_⟩
  · have := CString.fst_le_of_mem_appendCharsStores _ _ hstore
    omega
  · rw [CString.storeAll_appendCharsStores]
    have happend : CString.HoldsString (CString.strncat (CString.ofList t) m combinedSize
        (combinedSize - s.length - 1)) 0 (s ++ t) :=
      hm.strncat (by omega) (fun j hj => by simpa using hlist.byte j hj) ht (by omega)
        (.inr (by simpa using hlist.terminator))
    rwa [CString.strncat, hstring] at happend

theorem combinePaths_ok {current path : List UInt8} (hcurrent : ∀ c ∈ current, c ≠ 0)
    (hpath : ∀ c ∈ path, c ≠ 0) (hlength : (combinedPath current path).length < combinedSize)
    (m : Memory) :
    ∃ m', combinePaths current path m = .ok m' ∧
      CString.HoldsString m' 0 (combinedPath current path) := by
  rw [combinePaths, combinedPath]
  rw [combinedPath] at hlength
  by_cases habsolute : path.head? = some 0x2F
  · rw [if_pos habsolute] at hlength
    rw [if_pos habsolute, if_pos habsolute]
    exact storeIn_strncpy hpath hlength m
  rw [if_neg habsolute] at hlength
  rw [if_neg habsolute, if_neg habsolute]
  have hle : current.length < combinedSize := by
    split_ifs at hlength <;> rw [List.length_append] at hlength <;> omega
  obtain ⟨m₁, hcopy, hm₁⟩ := storeIn_strncpy hcurrent hle m
  by_cases hslash : current ≠ [] ∧ current.getLast? ≠ some 0x2F
  · rw [if_pos hslash] at hlength ⊢
    rw [List.append_cons] at hlength ⊢
    obtain ⟨m₂, happend, hm₂⟩ := appendToCombined_ok hm₁ (t := [0x2F])
      (List.forall_mem_singleton.mpr (by decide))
      (by rw [List.length_append] at hlength; omega)
    obtain ⟨m₃, hend, hm₃⟩ := appendToCombined_ok hm₂ hpath hlength
    refine ⟨m₃, ?_, hm₃⟩
    have hadd : addSlash current m₁ = .ok m₂ := (if_pos hslash).trans happend
    exact Outcome.bind_eq_ok.mpr ⟨m₁, hcopy, Outcome.bind_eq_ok.mpr ⟨_, hadd, hend⟩⟩
  · rw [if_neg hslash] at hlength ⊢
    obtain ⟨m₃, hend, hm₃⟩ := appendToCombined_ok hm₁ hpath hlength
    refine ⟨m₃, ?_, hm₃⟩
    have hadd : addSlash current m₁ = .ok m₁ := if_neg hslash
    exact Outcome.bind_eq_ok.mpr ⟨m₁, hcopy, Outcome.bind_eq_ok.mpr ⟨_, hadd, hend⟩⟩

/-- `combined` holds the combined path. -/
theorem combinedBuffer_ok {current path : List UInt8} (hcurrent : ∀ c ∈ current, c ≠ 0)
    (hpath : ∀ c ∈ path, c ≠ 0) (hlength : (combinedPath current path).length < combinedSize)
    (locals : PathLocals) :
    ∃ m, combinedBuffer current path locals = .ok m ∧
      CString.HoldsString m 0 (combinedPath current path) := by
  obtain ⟨m, hcombine, hm⟩ := combinePaths_ok hcurrent hpath hlength
    (Function.update locals.combined 0 0)
  refine ⟨Function.update m (combinedSize - 1) 0, ?_, hm.congr fun j _ hj => ?_⟩
  · have hfirst : storeIn .combined combinedSize [(0, 0)] locals.combined =
        .ok (Function.update locals.combined 0 0) := storeIn_ok _ (by decide)
    exact Outcome.bind_eq_ok.mpr ⟨_, hfirst, Outcome.bind_eq_ok.mpr ⟨m, hcombine,
      storeIn_ok m (by decide)⟩⟩
  · rw [Nat.zero_add] at hj
    rw [Function.update_apply]
    split_ifs with hlast
    · have hend := hm.terminator
      rw [Nat.zero_add, Nat.le_antisymm (by omega) hj] at hend
      exact hend.symm
    · rfl

/-! ### What is kept -/

/-- The component stands in `combined`, before offset `lo`. -/
structure StandsAt (combined : Memory) (lo : ℕ) (i : ℕ) (component : List UInt8) : Prop where
  holds : CString.HoldsString combined i component
  lt_lo : i + component.length < lo
  lt_size : i + component.length < combinedSize

theorem StandsAt.componentAt_eq {m : Memory} {lo i : ℕ} {component : List UInt8}
    (h : StandsAt m lo i component) : componentAt m i = component := by
  have := h.lt_size
  exact h.holds.stringAt_eq (by omega)

/-- Stores behind the components leave them. -/
theorem StandsAt.mono {m m' : Memory} {lo lo' i : ℕ} {component : List UInt8}
    (h : StandsAt m lo i component) (hm : ∀ j < lo, m' j = m j) (hlo : lo ≤ lo') :
    StandsAt m' lo' i component := by
  have := h.lt_lo
  exact ⟨h.holds.congr fun j _ hj => hm j (by omega), by omega, h.lt_size⟩

/-- A token that is kept, or takes the one before with it. -/
theorem forall₂_keepToken {m : Memory} {lo i : ℕ} {t : List UInt8} {components : List ℕ}
    {left : List (List UInt8)} (h : List.Forall₂ (StandsAt m lo) components left)
    (ht : StandsAt m lo i t) (hne : t ≠ []) :
    List.Forall₂ (StandsAt m lo) (keepToken m components i) (cancelComponent left t) := by
  rw [keepToken, cancelComponent, ht.componentAt_eq]
  by_cases hdot : t = dotName
  · rw [if_pos hdot, if_pos (.inr hdot)]
    exact h
  have hstays : ¬ (t = [] ∨ t = dotName) := not_or.mpr ⟨hne, hdot⟩
  rw [if_neg hdot, if_neg hstays]
  by_cases hup : t = dotDotName
  · rw [if_pos hup, if_pos hup]
    cases h with
    | nil => exact .nil
    | cons _ hback => exact hback
  · rw [if_neg hup, if_neg hup]
    exact .cons ht h

theorem length_cancelComponent_le (left : List (List UInt8)) (component : List UInt8) :
    (cancelComponent left component).length ≤ left.length + 1 := by
  rw [cancelComponent]
  split_ifs
  · exact Nat.le_succ _
  · rw [List.length_tail]
    omega
  · exact Nat.le_refl _

/-- The tokens that are still to be found, one after the other. -/
theorem splitLoop_ok {ts : List (List UInt8)} (hne : ∀ t ∈ ts, t ≠ []) {s : Strtok} {lo : ℕ}
    (h : s.Pending combinedSize slashDelim lo ts) {components : List ℕ}
    {left : List (List UInt8)} (hcomponents : List.Forall₂ (StandsAt s.memory lo) components left)
    (hroom : left.length + ts.length ≤ maxComponents) {fuel : ℕ} (hfuel : ts.length < fuel) :
    ∃ components' s', (nextToken s none >>= fun next => splitLoop fuel next.1 components next.2) =
        .ok (components', s') ∧
      ∃ lo', List.Forall₂ (StandsAt s'.memory lo') components' (ts.foldl cancelComponent left) := by
  induction ts generalizing s lo components left fuel with
  | nil =>
      obtain ⟨last, hcall, -⟩ := h.nil
      obtain ⟨fuel, rfl⟩ : ∃ k, fuel = k + 1 := ⟨fuel - 1, by omega⟩
      have hnext : nextToken s none = .ok (none, { s with last := last }) := by
        rw [nextToken, hcall]
      exact ⟨_, _, Outcome.bind_eq_ok.mpr ⟨_, hnext, rfl⟩, lo, hcomponents⟩
  | cons t ts ih =>
      obtain ⟨start, s₁, hcall, hlo, hsize, hholds, hpending, hsame⟩ := h.cons
      rw [List.length_cons] at hroom hfuel
      obtain ⟨fuel, rfl⟩ : ∃ k, fuel = k + 1 := ⟨fuel - 1, by omega⟩
      have hnext : nextToken s none = .ok (some start, s₁) := by
        rw [nextToken, hcall]
      have ht : StandsAt s₁.memory (start + t.length + 1) start t :=
        ⟨hholds, Nat.lt_succ_self _, hsize⟩
      have hkept := forall₂_keepToken
        (hcomponents.imp fun _ _ hstands => hstands.mono hsame (by omega)) ht
        (hne t List.mem_cons_self)
      have hlength := length_cancelComponent_le left t
      obtain ⟨components', s', hloop, hall⟩ := ih
        (fun t' ht' => hne t' (List.mem_cons_of_mem t ht')) hpending hkept (by omega)
        (by omega : ts.length < fuel)
      refine ⟨components', s', Outcome.bind_eq_ok.mpr ⟨_, hnext, ?_⟩, hall⟩
      have hcount : components.length < maxComponents := by
        rw [hcomponents.length_eq]
        omega
      exact (if_pos hcount).trans hloop

/-! ### Tokens and components -/

theorem foldl_cancelComponent_filter (pieces left : List (List UInt8)) :
    (pieces.filter fun piece => !piece.isEmpty).foldl cancelComponent left =
      pieces.foldl cancelComponent left := by
  induction pieces generalizing left with
  | nil => rfl
  | cons piece pieces ih =>
      cases piece with
      | nil => exact ih left
      | cons c piece => exact ih _

/-- `strtok` finds the components. -/
theorem foldl_cancelComponent_tokens {text : List UInt8} (h : ∀ c ∈ text, c ≠ 0) :
    (CString.tokens (CString.isDelim slashDelim) text).foldl cancelComponent [] =
      (normalComponents text).reverse := by
  have hsplit : text.splitOnP (CString.isDelim slashDelim) = text.splitOn 0x2F := by
    rw [List.splitOn_eq_splitOnP]
    refine CString.splitOnP_congr fun c hc => ?_
    have hne := h c hc
    by_cases heq : c = 0x2F
    · rw [heq]
      rfl
    · rw [CString.isDelim, CString.strchr, if_neg (Ne.symm heq), CString.strchr, if_neg hne]
      exact (beq_eq_false_iff_ne.mpr heq).symm
  rw [CString.tokens, hsplit, foldl_cancelComponent_filter, normalComponents, List.reverse_reverse]

/-! ### What is written -/

/-- The bytes stand at the beginning of the buffer. -/
def BeginsWith (m : Memory) (bytes : List UInt8) : Prop :=
  ∀ j (h : j < bytes.length), m j = bytes[j]

/-- What the loop writes for the components. -/
def writtenBytes (components : List (List UInt8)) : List UInt8 :=
  components.flatMap fun component => component.map CString.toupper ++ [0x2F]

theorem BeginsWith.store {m : Memory} {bytes : List UInt8} (h : BeginsWith m bytes)
    (name : List UInt8) (b : UInt8) :
    BeginsWith (CString.storeAll
      (CString.blockStores bytes.length name ++ [(bytes.length + name.length, b)]) m)
      (bytes ++ (name ++ [b])) := by
  intro j hj
  rw [CString.storeAll_append, CString.storeAll_blockStores, CString.storeAll_cons,
    CString.storeAll_nil, Function.update_apply]
  rw [List.length_append, List.length_append, List.length_singleton] at hj
  split_ifs with hlast
  · subst hlast
    simp
  rw [List.getElem_append]
  split_ifs with hlt
  · rw [CString.memcpy_of_lt _ hlt, h j hlt]
  · obtain ⟨k, rfl⟩ := Nat.exists_eq_add_of_le (Nat.not_lt.mp hlt)
    have hk : k < name.length := by omega
    rw [CString.memcpy_add, List.getElem?_eq_getElem hk, Option.getD_some]
    simp [hk]

/-- `upper` has room for twelve characters. -/
theorem upperStores_fit_iff (component : List UInt8) :
    (∀ s ∈ upperStores component, s.1 < upperSize) ↔ component.length ≤ 12 := by
  constructor
  · intro h
    exact Nat.le_of_lt_succ (h (component.length, 0)
      (List.mem_append_right _ (List.mem_singleton_self _)))
  · intro hle s hs
    rcases List.mem_append.mp hs with hs | hs
    · have hlt := CString.fst_lt_of_mem_blockStores _ hs
      rw [Nat.zero_add, List.length_map] at hlt
      exact Nat.lt_trans (Nat.lt_of_lt_of_le hlt (List.length_take_le _ _)) (by decide)
    · rw [List.mem_singleton.mp hs]
      exact Nat.lt_succ_of_le hle

theorem storeIn_upper_of_le {component : List UInt8} (hle : component.length ≤ 12)
    (hcomponent : ∀ c ∈ component, c ≠ 0) (upper : Memory) :
    ∃ m, storeIn .upper upperSize (upperStores component) upper = .ok m ∧
      CString.stringAt m upperSize 0 = component.map CString.toupper := by
  refine ⟨_, storeIn_ok upper ((upperStores_fit_iff component).mpr hle), ?_⟩
  have hname : ∀ c ∈ component.map CString.toupper, c ≠ 0 := by
    intro c hc
    obtain ⟨d, hd, rfl⟩ := List.mem_map.mp hc
    exact fun hzero => hcomponent d hd ((CString.toupper_cases d).2.1.mp hzero)
  have hholds := CString.holdsString_blockStores upper 0 hname
  rw [List.length_map, Nat.zero_add] at hholds
  rw [upperStores, List.take_of_length_le hle]
  exact hholds.stringAt_eq (by rw [List.length_map]; exact Nat.lt_succ_of_le hle)

section Written

variable {combined : Memory} {lo size : ℕ} (upper : Memory)

/-- One component. -/
theorem writeLoop_cons {i : ℕ} {component : List UInt8} (h : StandsAt combined lo i component)
    (hle : component.length ≤ 12) {bytes : List UInt8} {resolved : Memory}
    (hbytes : BeginsWith resolved bytes)
    (hsize : bytes.length + (component.length + 1) ≤ size) (components : List ℕ) :
    ∃ m, writeLoop upper combined size (i :: components) bytes.length resolved =
        writeLoop upper combined size components
          (bytes ++ (component.map CString.toupper ++ [0x2F])).length m ∧
      BeginsWith m (bytes ++ (component.map CString.toupper ++ [0x2F])) := by
  obtain ⟨m, hupper, hstring⟩ := storeIn_upper_of_le hle h.holds.ne_zero upper
  have hmap : (component.map CString.toupper).length = component.length := List.length_map _
  refine ⟨_, ?_, hbytes.store (component.map CString.toupper) 0x2F⟩
  have hfit : ∀ s ∈ CString.blockStores bytes.length (component.map CString.toupper) ++
      [(bytes.length + (component.map CString.toupper).length, 0x2F)], s.1 < size := by
    intro s hs
    rcases List.mem_append.mp hs with hs | hs
    · have := CString.fst_lt_of_mem_blockStores _ hs
      omega
    · rw [List.mem_singleton.mp hs]
      omega
  have hlength : (bytes ++ (component.map CString.toupper ++ [0x2F])).length =
      bytes.length + (component.map CString.toupper).length + 1 := by
    rw [List.length_append, List.length_append, List.length_singleton, Nat.add_assoc]
  rw [writeLoop, h.componentAt_eq, hupper, hlength]
  dsimp only [bind, Except.bind]
  rw [hstring, if_neg (by omega), storeIn_ok resolved hfit]

theorem writeLoop_ok {components : List ℕ} {left : List (List UInt8)}
    (h : List.Forall₂ (StandsAt combined lo) components left)
    (hle : ∀ component ∈ left, component.length ≤ 12) {bytes : List UInt8} {resolved : Memory}
    (hbytes : BeginsWith resolved bytes)
    (hsize : bytes.length + (writtenBytes left).length ≤ size) :
    ∃ m, writeLoop upper combined size components bytes.length resolved =
        .ok ((bytes ++ writtenBytes left).length, m) ∧
      BeginsWith m (bytes ++ writtenBytes left) := by
  induction h generalizing bytes resolved with
  | nil => exact ⟨resolved, by rw [writtenBytes, List.flatMap_nil, List.append_nil]; rfl,
      by rwa [writtenBytes, List.flatMap_nil, List.append_nil]⟩
  | @cons i component components left hstands hback ih =>
      rw [writtenBytes, List.flatMap_cons, List.length_append, List.length_append,
        List.length_singleton, List.length_map] at hsize
      obtain ⟨m, hstep, hm⟩ := writeLoop_cons upper hstands (hle component List.mem_cons_self)
        hbytes (by omega : bytes.length + (component.length + 1) ≤ size) components
      obtain ⟨m', hloop, hm'⟩ := ih
        (fun component' hmem => hle component' (List.mem_cons_of_mem component hmem)) hm (by
          rw [List.length_append, List.length_append, List.length_singleton, List.length_map,
            writtenBytes]
          omega)
      rw [List.append_assoc] at hloop hm'
      exact ⟨m', hstep.trans hloop, hm'⟩

/-- The first component that is too long is written behind `upper`. -/
theorem writeLoop_error {components : List ℕ} {left : List (List UInt8)}
    (h : List.Forall₂ (StandsAt combined lo) components left)
    (hlong : ¬ ∀ component ∈ left, component.length ≤ 12) {bytes : List UInt8}
    {resolved : Memory} (hbytes : BeginsWith resolved bytes)
    (hsize : bytes.length + (writtenBytes left).length ≤ size) :
    writeLoop upper combined size components bytes.length resolved = .error (.store .upper) := by
  induction h generalizing bytes resolved with
  | nil => exact absurd (List.forall_mem_nil _) hlong
  | @cons i component components left hstands hback ih =>
      rw [writtenBytes, List.flatMap_cons, List.length_append, List.length_append,
        List.length_singleton, List.length_map] at hsize
      by_cases hle : component.length ≤ 12
      · obtain ⟨m, hstep, hm⟩ := writeLoop_cons upper hstands hle hbytes
          (by omega : bytes.length + (component.length + 1) ≤ size) components
        refine hstep.trans (ih (fun hall => hlong (List.forall_mem_cons.mpr ⟨hle, hall⟩)) hm ?_)
        rw [List.length_append, List.length_append, List.length_singleton, List.length_map,
          writtenBytes]
        omega
      · have hstore : storeIn .upper upperSize (upperStores component) upper =
            .error (.store .upper) := if_neg fun hfit => hle ((upperStores_fit_iff _).mp hfit)
        rw [writeLoop, hstands.componentAt_eq, hstore]
        rfl

end Written

/-! ### Normal forms -/

/-- A component that neither stays nor goes up. -/
def IsName (component : List UInt8) : Prop :=
  component ≠ [] ∧ component ≠ dotName ∧ component ≠ dotDotName

theorem mem_foldl_cancelComponent {pieces left : List (List UInt8)} {component : List UInt8}
    (h : component ∈ pieces.foldl cancelComponent left) :
    component ∈ left ∨ component ∈ pieces ∧ IsName component := by
  induction pieces generalizing left with
  | nil => exact .inl h
  | cons piece pieces ih =>
      rcases ih h with hleft | ⟨hmem, hname⟩
      · rw [cancelComponent] at hleft
        split_ifs at hleft with hstays hup
        · exact .inl hleft
        · exact .inl (List.mem_of_mem_tail hleft)
        · rcases List.mem_cons.mp hleft with rfl | hleft
          · exact .inr ⟨List.mem_cons_self, fun hnil => hstays (.inl hnil),
              fun hdot => hstays (.inr hdot), hup⟩
          · exact .inl hleft
      · exact .inr ⟨List.mem_cons_of_mem piece hmem, hname⟩

theorem mem_normalComponents {text component : List UInt8}
    (h : component ∈ normalComponents text) :
    IsName component ∧ ∀ c ∈ component, c ∈ text ∧ c ≠ 0x2F := by
  rcases mem_foldl_cancelComponent (List.mem_reverse.mp h) with hnil | ⟨hmem, hname⟩
  · cases hnil
  · rw [List.splitOn_eq_splitOnP] at hmem
    exact ⟨hname, fun c hc => by simpa using CString.mem_of_mem_splitOnP hmem c hc⟩

/-- Names are kept as they are. -/
theorem foldl_cancelComponent_names {pieces : List (List UInt8)}
    (h : ∀ piece ∈ pieces, IsName piece) (left : List (List UInt8)) :
    pieces.foldl cancelComponent left = pieces.reverse ++ left := by
  induction pieces generalizing left with
  | nil => rfl
  | cons piece pieces ih =>
      obtain ⟨hne, hdot, hup⟩ := h piece List.mem_cons_self
      rw [List.foldl_cons, cancelComponent, if_neg (not_or.mpr ⟨hne, hdot⟩), if_neg hup,
        ih fun piece' hmem => h piece' (List.mem_cons_of_mem piece hmem), List.reverse_cons,
        List.append_assoc, List.singleton_append]

theorem eq_of_map_toupper {component name : List UInt8} (hname : ∀ c ∈ name, c = 0x2E)
    (h : component.map CString.toupper = name) : component = name := by
  induction component generalizing name with
  | nil => exact h
  | cons c component ih =>
      cases name with
      | nil => cases h
      | cons d name =>
          obtain ⟨hc, hback⟩ := List.cons.inj h
          have hd := hname d List.mem_cons_self
          rw [ih (fun c' hc' => hname c' (List.mem_cons_of_mem d hc')) hback, hd,
            (CString.toupper_cases c).2.2.1.mp (hc.trans hd)]

theorem IsName.map_toupper {component : List UInt8} (h : IsName component) :
    IsName (component.map CString.toupper) := by
  refine ⟨fun hnil => h.1 (List.map_eq_nil_iff.mp hnil), fun hdot => h.2.1 ?_,
    fun hup => h.2.2 ?_⟩
  · exact eq_of_map_toupper (fun c hc => List.eq_of_mem_replicate (n := 1) hc) hdot
  · exact eq_of_map_toupper (fun c hc => List.eq_of_mem_replicate (n := 2) hc) hup

/-- The components of a normal form are those it is made of. -/
theorem normalComponents_normalForm (text : List UInt8) :
    normalComponents (normalForm text) =
      (normalComponents text).map (List.map CString.toupper) := by
  have hnames : ∀ piece ∈ (normalComponents text).map (List.map CString.toupper),
      IsName piece := by
    intro piece hpiece
    obtain ⟨component, hcomponent, rfl⟩ := List.mem_map.mp hpiece
    exact (mem_normalComponents hcomponent).1.map_toupper
  have hslash : ∀ piece ∈ (normalComponents text).map (List.map CString.toupper),
      0x2F ∉ piece := by
    intro piece hpiece hmem
    obtain ⟨component, hcomponent, rfl⟩ := List.mem_map.mp hpiece
    obtain ⟨c, hc, heq⟩ := List.mem_map.mp hmem
    exact ((mem_normalComponents hcomponent).2 c hc).2 ((CString.toupper_cases c).2.2.2.mp heq)
  have hfirst (l : List UInt8) : (0x2F :: l).splitOn 0x2F = [] :: l.splitOn 0x2F := by
    rw [List.splitOn_eq_splitOnP, List.splitOn_eq_splitOnP, List.splitOnP_cons_eq_if_modifyHead]
    rfl
  rw [normalComponents, normalForm, hfirst]
  generalize (normalComponents text).map (List.map CString.toupper) = pieces at hnames hslash
  cases pieces with
  | nil => rfl
  | cons piece pieces =>
      rw [List.splitOn_intercalate _ hslash (List.cons_ne_nil _ _)]
      have hskip : cancelComponent [] [] = [] := rfl
      rw [List.foldl_cons, hskip, foldl_cancelComponent_names hnames, List.append_nil,
        List.reverse_reverse]

/-- **The normal form** of a normal form is itself. -/
theorem normalForm_normalForm (text : List UInt8) :
    normalForm (normalForm text) = normalForm text := by
  have htoupper : CString.toupper ∘ CString.toupper = CString.toupper :=
    funext fun c => (CString.toupper_cases c).1
  have hmap : List.map CString.toupper ∘ List.map CString.toupper = List.map CString.toupper := by
    funext component
    rw [Function.comp_apply, List.map_map, htoupper]
  rw [normalForm, normalComponents_normalForm, List.map_map, hmap, normalForm]

/-- What the loop writes ends with a slash more, if it writes anything. -/
theorem writtenBytes_eq (left : List (List UInt8)) :
    writtenBytes left = [0x2F].intercalate (left.map (List.map CString.toupper)) ++
      if left = [] then [] else [0x2F] := by
  induction left with
  | nil => rfl
  | cons component left ih =>
      rw [if_neg (List.cons_ne_nil _ _), writtenBytes, List.flatMap_cons, ← writtenBytes, ih,
        List.map_cons]
      by_cases hnil : left = []
      · subst hnil
        simp
      · rw [if_neg hnil, List.intercalate_cons_of_ne_nil (by simpa using hnil), List.append_assoc,
          List.append_assoc, List.append_assoc]

theorem cons_writtenBytes (text : List UInt8) :
    0x2F :: writtenBytes (normalComponents text) =
      normalForm text ++ if normalComponents text = [] then [] else [0x2F] := by
  rw [writtenBytes_eq, normalForm, List.cons_append]

theorem ne_zero_of_mem_normalForm {text : List UInt8} (h : ∀ c ∈ text, c ≠ 0) :
    ∀ c ∈ normalForm text, c ≠ 0 := by
  intro c hc
  have hmem : c ∈ 0x2F :: writtenBytes (normalComponents text) := by
    rw [cons_writtenBytes]
    exact List.mem_append_left _ hc
  rcases List.mem_cons.mp hmem with rfl | hmem
  · decide
  obtain ⟨component, hcomponent, hc⟩ := List.mem_flatMap.mp hmem
  rcases List.mem_append.mp hc with hc | hc
  · obtain ⟨d, hd, rfl⟩ := List.mem_map.mp hc
    exact fun hzero => h d ((mem_normalComponents hcomponent).2 d hd).1
      ((CString.toupper_cases d).2.1.mp hzero)
  · rw [List.mem_singleton.mp hc]
    decide

/-! ### The whole function -/

theorem BeginsWith.holdsString {m : Memory} {bytes behind : List UInt8}
    (h : BeginsWith m (bytes ++ behind)) (hne : ∀ c ∈ bytes, c ≠ 0) :
    CString.HoldsString (Function.update m bytes.length 0) 0 bytes := by
  refine ⟨fun j hj => ?_, ?_, hne⟩
  · rw [Nat.zero_add, Function.update_of_ne (by omega),
      h j (by rw [List.length_append]; omega), List.getElem_append_left]
  · rw [Nat.zero_add]
    exact Function.update_self _ _ _

/-- There is room for what is written, and the slash behind it. -/
theorem length_writtenBytes_le {text : List UInt8} {size : ℕ}
    (hsize : (normalForm text).length < size) :
    [(0x2F : UInt8)].length + (writtenBytes (normalComponents text)).length ≤ size := by
  have hcons := congrArg List.length (cons_writtenBytes text)
  rw [List.length_cons, List.length_append] at hcons
  rw [List.length_singleton]
  split_ifs at hcons
  · rw [List.length_nil] at hcons
    omega
  · rw [List.length_singleton] at hcons
    omega

theorem beginsWith_update (m : Memory) (b : UInt8) : BeginsWith (Function.update m 0 b) [b] := by
  intro j hj
  rw [List.length_singleton] at hj
  obtain rfl := Nat.lt_one_iff.mp hj
  exact Function.update_self _ _ _

/-- The terminator takes the place of the last slash, or stands behind the first. -/
theorem endResolved_ok {text : List UInt8} {size : ℕ} (hsize : (normalForm text).length < size)
    (hne : ∀ c ∈ text, c ≠ 0) {m : Memory}
    (hm : BeginsWith m ([0x2F] ++ writtenBytes (normalComponents text))) :
    ∃ m', endResolved size ([0x2F] ++ writtenBytes (normalComponents text)).length m = .ok m' ∧
      CString.HoldsString m' 0 (normalForm text) := by
  rw [List.singleton_append, cons_writtenBytes] at hm ⊢
  have hholds := hm.holdsString (ne_zero_of_mem_normalForm hne)
  refine ⟨_, ?_, hholds⟩
  have hstore : storeIn .resolved size [((normalForm text).length, 0)] m =
      .ok (Function.update m (normalForm text).length 0) :=
    storeIn_ok m (List.forall_mem_singleton.mpr hsize)
  rw [endResolved, List.length_append]
  split_ifs with hempty hpos hpos
  · have hroot : (normalForm text).length = 1 := by
      rw [normalForm, hempty]
      rfl
    rw [hroot] at hpos
    exact absurd hpos (by decide)
  · have hroot : (normalForm text).length = 1 := by
      rw [normalForm, hempty]
      rfl
    rw [hroot] at hstore ⊢
    exact hstore
  · rw [List.length_singleton, Nat.add_sub_cancel]
    exact hstore
  · have hlong : 1 ≤ (normalForm text).length := Nat.succ_le_of_lt (Nat.succ_pos _)
    rw [List.length_singleton] at hpos
    omega

section Whole

variable {current path : List UInt8} (hcurrent : ∀ c ∈ current, c ≠ 0) (hpath : ∀ c ∈ path, c ≠ 0)
  (hlength : (combinedPath current path).length < combinedSize)
include hcurrent hpath hlength

theorem ne_zero_of_mem_combinedPath : ∀ c ∈ combinedPath current path, c ≠ 0 := by
  obtain ⟨m, -, hm⟩ := combinedBuffer_ok hcurrent hpath hlength ⟨fun _ => 0, fun _ => 0, none⟩
  exact hm.ne_zero

/-- The components are those of the normal form, and are written one by one. -/
theorem resolvePath_eq (locals : PathLocals) (resolved : Memory) {size : ℕ} (hsize : 0 < size) :
    ∃ combined lo components,
      List.Forall₂ (StandsAt combined lo) components
        (normalComponents (combinedPath current path)) ∧
      resolvePath locals current path resolved size =
        (writeLoop locals.upper combined size components 1 (Function.update resolved 0 0x2F) >>=
          fun written => endResolved size written.1 written.2) := by
  obtain ⟨m, hcombined, hm⟩ := combinedBuffer_ok hcurrent hpath hlength locals
  have hpending : Strtok.Pending ⟨m, some 0⟩ combinedSize slashDelim 0
      (CString.tokens (CString.isDelim slashDelim) (combinedPath current path)) :=
    .inr ⟨0, _, rfl, hm, Nat.le_refl 0, by rwa [Nat.zero_add], rfl⟩
  have hroom : combinedSize = 2 * maxComponents := rfl
  have htokens := CString.two_mul_length_tokens_le (p := CString.isDelim slashDelim)
    (combinedPath current path)
  obtain ⟨components, s, hsplit, lo, hall⟩ := splitLoop_ok
    (fun t ht => CString.ne_nil_of_mem_tokens ht) hpending .nil (by rw [List.length_nil]; omega)
    (by omega : _ < combinedSize)
  rw [foldl_cancelComponent_tokens hm.ne_zero] at hall
  obtain ⟨next, hnext, hloop⟩ := Outcome.bind_eq_ok.mp hsplit
  have hfirst : nextToken ⟨m, locals.last⟩ (some 0) = .ok next := hnext
  have hslash : storeIn .resolved size [(0, 0x2F)] resolved =
      .ok (Function.update resolved 0 0x2F) :=
    storeIn_ok resolved (List.forall_mem_singleton.mpr hsize)
  refine ⟨s.memory, lo, components.reverse, ?_, ?_⟩
  · rw [← List.reverse_reverse (normalComponents _)]
    exact List.forall₂_reverse_iff.mpr hall
  · rw [resolvePath, hcombined]
    dsimp only [bind, Except.bind]
    rw [hfirst]
    dsimp only
    rw [hloop]
    dsimp only
    rw [hslash]

/-- The normal form is written if no component of it is too long. -/
theorem holdsString_resolvePath (hle : ∀ component ∈ normalComponents (combinedPath current path),
      component.length ≤ 12) {size : ℕ}
    (hsize : (normalForm (combinedPath current path)).length < size) (locals : PathLocals)
    (resolved : Memory) :
    ∃ m, resolvePath locals current path resolved size = .ok m ∧
      CString.HoldsString m 0 (normalForm (combinedPath current path)) := by
  obtain ⟨combined, lo, components, hall, heq⟩ := resolvePath_eq hcurrent hpath hlength locals
    resolved (Nat.zero_lt_of_lt hsize)
  obtain ⟨m, hwrite, hm⟩ := writeLoop_ok locals.upper hall hle (beginsWith_update resolved 0x2F)
    (length_writtenBytes_le hsize)
  obtain ⟨m', hend, hm'⟩ := endResolved_ok hsize
    (ne_zero_of_mem_combinedPath hcurrent hpath hlength) hm
  exact ⟨m', heq.trans (Outcome.bind_eq_ok.mpr ⟨_, hwrite, hend⟩), hm'⟩

/-- A component that is too long is written behind `upper`. -/
theorem resolvePath_error (hlong : ¬ ∀ component ∈ normalComponents (combinedPath current path),
      component.length ≤ 12) {size : ℕ}
    (hsize : (normalForm (combinedPath current path)).length < size) (locals : PathLocals)
    (resolved : Memory) :
    resolvePath locals current path resolved size = .error (.store .upper) := by
  obtain ⟨combined, lo, components, hall, heq⟩ := resolvePath_eq hcurrent hpath hlength locals
    resolved (Nat.zero_lt_of_lt hsize)
  have herror := writeLoop_error locals.upper hall hlong (beginsWith_update resolved 0x2F)
    (length_writtenBytes_le hsize)
  rw [heq]
  exact congrArg (· >>= fun written => endResolved size written.1 written.2) herror

end Whole

/-- The normal form of the combined path is written, and from the result the result again. -/
def Normalizes (current path : List UInt8) : Prop :=
  ∀ locals resolved, ∃ m, resolvePath locals current path resolved resolvedSize = .ok m ∧
    CString.HoldsString m 0 (normalForm (combinedPath current path)) ∧
    ∀ locals' current' resolved', (∀ c ∈ current', c ≠ 0) →
      ∃ m', resolvePath locals' current' (CString.stringAt m resolvedSize 0) resolved'
          resolvedSize = .ok m' ∧
        CString.HoldsString m' 0 (normalForm (combinedPath current path))

theorem combinedPath_normalForm (current text : List UInt8) :
    combinedPath current (normalForm text) = normalForm text := if_pos rfl

/-- **Paths** are written in normal form exactly if no component of it has more than twelve
characters. -/
theorem normalizes_iff {current path : List UInt8} (hcurrent : ∀ c ∈ current, c ≠ 0)
    (hpath : ∀ c ∈ path, c ≠ 0) (hlength : (combinedPath current path).length < combinedSize)
    (hsize : (normalForm (combinedPath current path)).length < resolvedSize) :
    Normalizes current path ↔
      ∀ component ∈ normalComponents (combinedPath current path), component.length ≤ 12 := by
  constructor
  · intro h
    by_contra hlong
    obtain ⟨m, hok, -⟩ := h ⟨fun _ => 0, fun _ => 0, none⟩ fun _ => 0
    have herror := resolvePath_error hcurrent hpath hlength hlong hsize
      ⟨fun _ => 0, fun _ => 0, none⟩ fun _ => 0
    cases hok.symm.trans herror
  · intro hle locals resolved
    obtain ⟨m, hok, hm⟩ := holdsString_resolvePath hcurrent hpath hlength hle hsize locals resolved
    refine ⟨m, hok, hm, fun locals' current' resolved' hcurrent' => ?_⟩
    have hcombined := combinedPath_normalForm current' (combinedPath current path)
    have hagain : ∀ component ∈ normalComponents (normalForm (combinedPath current path)),
        component.length ≤ 12 := by
      intro component hcomponent
      rw [normalComponents_normalForm] at hcomponent
      obtain ⟨before, hbefore, rfl⟩ := List.mem_map.mp hcomponent
      rw [List.length_map]
      exact hle before hbefore
    rw [hm.stringAt_eq hsize]
    have hroom : (normalForm (combinedPath current'
        (normalForm (combinedPath current path)))).length < resolvedSize := by
      rwa [hcombined, normalForm_normalForm]
    have hresult := holdsString_resolvePath hcurrent'
      (ne_zero_of_mem_normalForm (ne_zero_of_mem_combinedPath hcurrent hpath hlength))
      (by rw [hcombined]; exact Nat.lt_trans hsize (by decide)) (by rw [hcombined]; exact hagain)
      hroom locals' resolved'
    rwa [hcombined, normalForm_normalForm] at hresult

/-- `"/BIN"` and `"../a/./b"`. -/
theorem normalizes_sample : Normalizes [0x2F, 0x42, 0x49, 0x4E]
    [0x2E, 0x2E, 0x2F, 0x61, 0x2F, 0x2E, 0x2F, 0x62] :=
  (normalizes_iff (by simp) (by simp) (by decide) (by decide)).mpr (by decide)

/-- Thirteen letters. -/
theorem normalizes_violated : ¬ Normalizes [0x2F] (List.replicate 13 0x61) := by
  intro h
  obtain ⟨m, hok, -⟩ := h ⟨fun _ => 0, fun _ => 0, none⟩ fun _ => 0
  have herror : resolvePath ⟨fun _ => 0, fun _ => 0, none⟩ [0x2F] (List.replicate 13 0x61)
      (fun _ => 0) resolvedSize = .error (.store .upper) :=
    resolvePath_error (by simp) (by simp) (by decide) (by decide) (by decide) _ _
  cases hok.symm.trans herror

end HalOS
