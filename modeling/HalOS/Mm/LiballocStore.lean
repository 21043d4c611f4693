import HalOS.Lib.ObjectStore
import HalOS.Mm.LiballocCalls

/-!
# The Heap Keeps a Store of Blocks

Seen from its callers, the heap is a store of blocks: each has its bytes, which only its owner
changes. The calls are those of the library and the stores of its callers into their own blocks;
between them everything else may change, the heap's runs and the supplier's record of them apart.

A caller gives back what it has and writes where it has room. The sizes it asks for are below
`2 ^ 32 - 32`; beyond that `size + sizeof(struct boundary_tag)` passes `2 ^ 32` and the block is
too small. `calloc` and `realloc` do not look whether their `malloc` failed, and go on to write at
address zero, so that they are asked for only when it succeeds.

## Main results

* `step_tracks`: one call.
* `Reach.tracks`: any sequence of calls, with anything in between.
-/

namespace HalOS

namespace Liballoc

open CString (Memory)
open ObjectStore (Store block)
open Records (Outside)

/-! ### Copying -/

theorem liballocMemset_apply (s : ℕ) (c : UInt8) (n i : ℕ) (m : Memory) (a : ℕ) :
    liballocMemset s c n i m a = if s + i ≤ a ∧ a < s + i + n then c else m a := by
  induction n generalizing i m with
  | zero => rw [liballocMemset, if_neg (by omega)]
  | succ n ih =>
      rw [liballocMemset, ih, Function.update_apply]
      split_ifs <;> first | rfl | omega

theorem copyBytes_apply {n dest src : ℕ} {m : Memory} (hapart : src + n ≤ dest ∨ dest + n ≤ src)
    (a : ℕ) : copyBytes n dest src m a =
      if dest ≤ a ∧ a < dest + n then m (src + (a - dest)) else m a := by
  induction n generalizing dest src m with
  | zero => rw [copyBytes, if_neg (by omega)]
  | succ n ih =>
      rw [copyBytes, ih (by omega)]
      by_cases ha : a = dest
      · rw [if_neg (by omega), if_pos (by omega), ha, Function.update_self, Nat.sub_self,
          Nat.add_zero]
      · rw [Function.update_of_ne ha]
        split_ifs with h1 h2 h2
        · rw [Function.update_of_ne (by omega), show src + 1 + (a - (dest + 1)) =
            src + (a - dest) by omega]
        · omega
        · omega
        · rfl

/-- A word copied is its four bytes copied. -/
theorem putWord_word (m : Memory) (dest src a : ℕ) :
    Records.putWord m dest (Records.word m src) a =
      if dest ≤ a ∧ a < dest + 4 then m (src + (a - dest)) else m a := by
  split_ifs with ha
  · obtain ⟨k, rfl⟩ : ∃ k, a = dest + k := ⟨a - dest, by omega⟩
    rw [Nat.add_sub_cancel_left]
    have hk : k = 0 ∨ k = 1 ∨ k = 2 ∨ k = 3 := by omega
    have h0 := (m src).toNat_lt
    have h1 := (m (src + 1)).toNat_lt
    have h2 := (m (src + 2)).toNat_lt
    have h3 := (m (src + 3)).toNat_lt
    apply UInt8.toNat_inj.mp
    rw [Records.putWord_apply _ _ _ _ (by omega), Records.word]
    rcases hk with rfl | rfl | rfl | rfl
    · simp only [Nat.pow_zero, Nat.div_one, Nat.add_zero]
      omega
    · omega
    · omega
    · omega
  · exact Records.putWord_of_outside (by omega)

/-- `liballoc_memcpy` copies, where the two blocks are apart. -/
theorem liballocMemcpy_apply {n dest src : ℕ} {m : Memory}
    (hapart : src + n ≤ dest ∨ dest + n ≤ src) (a : ℕ) : liballocMemcpy n dest src m a =
      if dest ≤ a ∧ a < dest + n then m (src + (a - dest)) else m a := by
  induction n using Nat.strong_induction_on generalizing dest src m with
  | _ n ih =>
      rw [liballocMemcpy]
      split_ifs with hsmall hin hin
      · rw [copyBytes_apply hapart, if_pos hin]
      · rw [copyBytes_apply hapart, if_neg hin]
      · rw [ih (n - 4) (by omega) (by omega)]
        split_ifs with h1
        · rw [putWord_word, if_neg (by omega), show src + 4 + (a - (dest + 4)) =
            src + (a - dest) by omega]
        · rw [putWord_word, if_pos (by omega)]
      · rw [ih (n - 4) (by omega) (by omega), if_neg (by omega), putWord_word, if_neg (by omega)]

/-! ### Blocks -/

section Blocks

variable {σ : Type} {h h' : Heap σ} {s s' : Shape} {p n : ℕ}

/-- What the callers have. -/
def contents (m : Memory) (s : Shape) : Store := fun ptr =>
  if tagSize ≤ ptr then (s.live (ptr - tagSize)).map (block m ptr) else none

theorem contents_add (m : Memory) (s : Shape) (p : ℕ) :
    contents m s (p + tagSize) = (s.live p).map (block m (p + tagSize)) := by
  rw [contents, if_pos (Nat.le_add_left _ _), Nat.add_sub_cancel]

theorem contents_zero (m : Memory) (s : Shape) : contents m s 0 = none := if_neg (by decide)

/-- A block in the store is a caller's. -/
theorem exists_of_contents {m : Memory} {ptr : ℕ} (hptr : (contents m s ptr).isSome) :
    ∃ p n, ptr = p + tagSize ∧ s.live p = some n := by
  rw [contents] at hptr
  split_ifs at hptr with hle
  · rw [Option.isSome_map] at hptr
    obtain ⟨n, hn⟩ := Option.isSome_iff_exists.mp hptr
    exact ⟨ptr - tagSize, n, by omega, hn⟩
  · cases hptr

/-- The blocks after one of them has come or gone. -/
theorem contents_update (hs : Holds h s) (hs' : Holds h' s') {o : Option ℕ}
    (hlive : s'.live = Function.update s.live p o)
    (hunch : Unchanged (s.tags ∪ s'.tags : Set ℕ) h.mem h'.mem) :
    contents h'.mem s' = Function.update (contents h.mem s) (p + tagSize)
      (o.map (block h'.mem (p + tagSize))) := by
  funext ptr
  by_cases hptr : ptr = p + tagSize
  · rw [hptr, contents_add, hlive, Function.update_self, Function.update_self]
  · rw [Function.update_of_ne hptr, contents, contents]
    split_ifs with hle
    · have hne : ptr - tagSize ≠ p := fun heq => hptr (by omega)
      rw [hlive, Function.update_of_ne hne]
      cases hq : s.live (ptr - tagSize) with
      | none => rfl
      | some k =>
          have hq' : s'.live (ptr - tagSize) = some k := by
            rw [hlive, Function.update_of_ne hne, hq]
          refine congrArg some (ObjectStore.block_congr fun a h1 h2 => hunch a ?_)
          intro q hq₀
          rcases hq₀ with hmem | hmem
          · exact hs.outside hq (by omega) (by omega) q hmem
          · exact hs'.outside hq' (by omega) (by omega) q hmem
    · rfl

/-- Bytes outside the tags do not matter. -/
theorem Ready.of_mem (hr : Ready h s) {m : Memory}
    (hm : ∀ p ∈ s.tags, ∀ a, p ≤ a → a < p + tagSize → m a = h.mem a) :
    Ready { h with mem := m } s := by
  have hstart : startUp { h with mem := m } = { startUp h with mem := m } := by
    rw [startUp, startUp]
    split_ifs <;> rfl
  refine ⟨?_, hr.idle, hr.fresh⟩
  rw [hstart]
  refine Sound.congr hr.holds fun p hp f => Records.field_congr (fun a h1 h2 => ?_) f
  rw [startUp_mem]
  exact hm p hp a h1 h2

theorem Ready.of_outside (hr : Ready h s) {m : Memory}
    (hm : ∀ a, m a = h.mem a ∨ Outside TagField (s.tags : Set ℕ) a) :
    Ready { h with mem := m } s :=
  hr.of_mem fun p hp a h1 h2 => (hm a).resolve_right fun hout => by
    have := hout p hp
    rw [sizeOf_tagField] at this
    rw [tagSize] at h2
    omega

/-- The blocks of callers do not overlap. -/
theorem Holds.blocks_apart (hs : Holds h s) {q k : ℕ} (hpq : p < q) (hp : s.live p = some n)
    (hq : s.live q = some k) : p + tagSize + n ≤ q := by
  obtain ⟨hpm, -, -, hfits⟩ := hs.live p n hp
  have := hs.tiled.apart p hpm q (hs.live q k hq).1 hpq
  omega

end Blocks

/-! ### Calls -/

/-- What may be asked of the heap, and the stores of its callers. -/
inductive Call
  | malloc (size : ℕ)
  | free (ptr : ℕ)
  | calloc (nobj size : ℕ)
  | realloc (ptr size : ℕ)
  | write (a : ℕ) (b : UInt8)
deriving DecidableEq

variable {σ : Type}

/-- A call with its result, which is zero where there is none. -/
def step (ps : PageSupplier σ) (fuel : ℕ) (h : Heap σ) : Call → Option (ℕ × Heap σ)
  | .malloc size => malloc ps fuel h size
  | .free ptr => (free ps fuel h ptr).map fun h => (0, h)
  | .calloc nobj size => calloc ps fuel h nobj size
  | .realloc ptr size => realloc ps fuel h ptr size
  | .write a b => some (0, { h with mem := Function.update h.mem a b })

/-- The store after a call with result `ptr`, where a new block has the bytes of `m`. -/
def after (m : Memory) (t : Store) (ptr : ℕ) : Call → Store
  | .malloc size => if ptr = 0 then t else Function.update t ptr (some (block m ptr size))
  | .free p => Function.update t p none
  | .calloc nobj size =>
      Function.update t ptr (some (List.replicate (u32 (nobj * size)) 0))
  | .realloc p size =>
      if size = 0 then Function.update t p none
      else if p = 0 then
        if ptr = 0 then t else Function.update t ptr (some (block m ptr size))
      else
        let kept := ((t p).getD []).take size
        Function.update (Function.update t ptr
          (some (kept ++ block m (ptr + kept.length) (size - kept.length)))) p none
  | .write a b => t.write a b

/-- What a supplier keeps account of: `out supply runs` says that it has handed out these runs,
and `serves supply n` that it is able to answer a request for `n` pages. -/
structure Contract (σ : Type) where
  out : σ → Finset (ℕ × ℕ) → Prop
  serves : σ → ℕ → Prop

/-- What the heap needs of its supplier: where it answers, a new run is apart from all that it has
handed out, and one of these may be given back. -/
structure Supplies (ps : PageSupplier σ) (k : Contract σ) : Prop where
  alloc : ∀ supply runs n, k.out supply runs → k.serves supply n →
    ((ps.alloc supply n).1 = 0 ∧ k.out (ps.alloc supply n).2 runs) ∨
    ((ps.alloc supply n).1 ≠ 0 ∧ (ps.alloc supply n).1 + n * pageSize ≤ 2 ^ 32 ∧
      (∀ r ∈ runs, r.1 + r.2 ≤ (ps.alloc supply n).1 ∨
        (ps.alloc supply n).1 + n * pageSize ≤ r.1) ∧
      k.out (ps.alloc supply n).2 (insert ((ps.alloc supply n).1, n * pageSize) runs))
  free : ∀ supply runs a n, k.out supply runs → (a, n * pageSize) ∈ runs →
    k.out (ps.free supply a n) (runs.erase (a, n * pageSize))

/-- `malloc` does not fail. -/
def Succeeds (ps : PageSupplier σ) (fuel : ℕ) (h : Heap σ) (n : ℕ) : Prop :=
  (malloc ps fuel h n).map Prod.fst ≠ some 0

/-- `malloc` asks for pages only where the supplier is able to answer. -/
def Served (k : Contract σ) (fuel : ℕ) (h : Heap σ) (n : ℕ) : Prop :=
  LinkedList.walk (fun tag => field h.mem tag .next) 0 (fitsTag h.mem n) fuel
    ((startUp h).freePages (listIndex n)) = some 0 → k.serves h.pages (pagesFor n)

/-- What callers may ask for. -/
def Permits (ps : PageSupplier σ) (k : Contract σ) (fuel : ℕ) (h : Heap σ) (t : Store) :
    Call → Prop
  | .malloc size => size + tagSize < 2 ^ 32 ∧ Served k fuel h size
  | .free p => p = 0 ∨ (t p).isSome
  | .calloc nobj size =>
      u32 (nobj * size) + tagSize < 2 ^ 32 ∧ Served k fuel h (u32 (nobj * size)) ∧
        Succeeds ps fuel h (u32 (nobj * size))
  | .realloc p size => (p = 0 ∨ (t p).isSome) ∧ (size ≠ 0 →
      size + tagSize < 2 ^ 32 ∧ Served k fuel h size ∧ (p ≠ 0 → Succeeds ps fuel h size))
  | .write a _ => t.Owns a

section Calls

variable {ps : PageSupplier σ} {k : Contract σ} {fuel : ℕ} {h h' : Heap σ} {t : Store}
  {s : Shape} {p n : ℕ}

/-- The search of `malloc` ends without a block where there is none. -/
theorem Ready.served (hr : Ready h s) (hfuel : 2 ^ 27 < fuel) (hserved : Served k fuel h n)
    (hfind : s.found h.mem n = none) : k.serves h.pages (pagesFor n) := by
  have hs := hr.holds
  have h0 : 0 ∉ s.lists (listIndex n) := fun hmem =>
    hs.tiled.zero_notMem (hs.listed.mem _ _ hmem).1
  have hwalk := (hs.listed.linked (listIndex n)).walk_eq h0 (fitsTag (startUp h).mem n)
    (lt_of_le_of_lt (hs.length_le _) hfuel)
  rw [← hs.listed.head, startUp_mem, ← Shape.found, hfind] at hwalk
  exact hserved hwalk

/-- `malloc`, where the supplier keeps its promise. -/
theorem malloc_supplied (hsup : Supplies ps k) (hr : Ready h s) (hout : k.out h.pages s.runs)
    (hn : n + tagSize < 2 ^ 32) (hserved : Served k fuel h n) (hfuel : 2 ^ 27 < fuel) :
    ∃ ptr h', malloc ps fuel h n = some (ptr, h') ∧
      ((∃ p s', ptr = p + tagSize ∧ Allocated h h' s s' p n ∧ k.out h'.pages s'.runs) ∨
        (ptr = 0 ∧ Ready h' s ∧ h'.mem = h.mem ∧ k.out h'.pages s.runs)) := by
  cases hfind : s.found h.mem n with
  | some p =>
      obtain ⟨h', s', hcall, hal, hpages, hruns⟩ := malloc_found ps hr hn hfuel hfind
      exact ⟨_, h', hcall, Or.inl ⟨p, s', rfl, hal, by rwa [hpages, hruns]⟩⟩
  | none =>
      rcases hsup.alloc h.pages s.runs (pagesFor n) hout (hr.served hfuel hserved hfind) with
        ⟨hnull, hout'⟩ | ⟨hne, hend, hapart, hout'⟩
      · obtain ⟨h', hcall, hr', hmem, hpages⟩ := malloc_null hr hfuel hfind hnull
        exact ⟨0, h', hcall, Or.inr ⟨rfl, hr', hmem, by rwa [hpages]⟩⟩
      · obtain ⟨h', s', hcall, hal, hpages, hruns, -⟩ :=
          malloc_new hr hn hfuel hfind rfl hne hend hapart
        exact ⟨_, h', hcall, Or.inl ⟨_, s', rfl, hal, by rwa [hpages, hruns]⟩⟩

/-- `free`, where the supplier keeps its promise. -/
theorem free_supplied (hsup : Supplies ps k) (hr : Ready h s) (hout : k.out h.pages s.runs)
    (hp : s.live p = some n) (hfuel : 2 ≤ fuel) :
    ∃ h' s', free ps fuel h (p + tagSize) = some h' ∧ Ready h' s' ∧ k.out h'.pages s'.runs ∧
      contents h'.mem s' = Function.update (contents h.mem s) (p + tagSize) none ∧
      Unchanged (s.tags : Set ℕ) h.mem h'.mem := by
  obtain ⟨h', s', hcall, hr', hlive, hsub, hunch, hpages⟩ := free_spec ps hr hp hfuel
  refine ⟨h', s', hcall, hr', ?_, ?_, hunch⟩
  · rcases hpages with ⟨hpages, hruns⟩ | ⟨a, k, hrun, hpages, hruns⟩
    · rwa [hpages, hruns]
    · rw [hpages, hruns]
      exact hsup.free _ _ _ _ hout hrun
  · have hcont := contents_update hr.holds hr'.holds hlive (by
      rw [startUp_mem, startUp_mem]
      exact fun a ha => hunch a fun q hq => ha q (Or.inl hq))
    rwa [startUp_mem, startUp_mem] at hcont

/-- The heap's blocks are those of the store. -/
def Tracks (k : Contract σ) (h : Heap σ) (t : Store) : Prop :=
  ∃ s, Ready h s ∧ k.out h.pages s.runs ∧ contents h.mem s = t

/-- `malloc` gives a block that nobody has, or none. -/
theorem malloc_tracks (hsup : Supplies ps k) (ht : Tracks k h t) (hn : n + tagSize < 2 ^ 32)
    (hserved : Served k fuel h n) (hfuel : 2 ^ 27 < fuel) :
    ∃ ptr h', malloc ps fuel h n = some (ptr, h') ∧ t ptr = none ∧
      Tracks k h' (if ptr = 0 then t else Function.update t ptr (some (block h'.mem ptr n))) := by
  obtain ⟨s, hr, hout, rfl⟩ := ht
  obtain ⟨ptr, h', hcall, hres⟩ := malloc_supplied hsup hr hout hn hserved hfuel
  refine ⟨ptr, h', hcall, ?_⟩
  rcases hres with ⟨p, s', rfl, hal, hout'⟩ | ⟨rfl, hr', hmem, hout'⟩
  · rw [contents_add, hal.fresh, if_neg (by simp [tagSize])]
    refine ⟨rfl, s', hal.ready, hout', ?_⟩
    have hcont := contents_update hr.holds hal.ready.holds hal.live
      (by rw [startUp_mem, startUp_mem]; exact hal.unchanged)
    rwa [startUp_mem, startUp_mem] at hcont
  · rw [contents_zero, if_pos rfl]
    exact ⟨rfl, s, hr', hout', by rw [hmem]⟩

/-- `free` takes a block away. -/
theorem free_tracks (hsup : Supplies ps k) (ht : Tracks k h t) (hp : p = 0 ∨ (t p).isSome)
    (hfuel : 2 ≤ fuel) :
    ∃ h', free ps fuel h p = some h' ∧ Tracks k h' (Function.update t p none) := by
  obtain ⟨s, hr, hout, rfl⟩ := ht
  rcases hp with rfl | hp
  · refine ⟨h, if_pos rfl, s, hr, hout, ?_⟩
    rw [← contents_zero h.mem s, Function.update_eq_self]
  · obtain ⟨q, n, rfl, hq⟩ := exists_of_contents hp
    obtain ⟨h', s', hcall, hr', hout', hcont, -⟩ := free_supplied hsup hr hout hq hfuel
    exact ⟨h', hcall, s', hr', hout', hcont⟩

/-- A store of bytes into a block. -/
theorem Tracks.write_block (ht : Tracks k h t) {bytes : List UInt8} (hp : t p = some bytes)
    {m : Memory} (hm : ∀ a, a < p ∨ p + bytes.length ≤ a → m a = h.mem a) :
    Tracks k { h with mem := m } (Function.update t p (some (block m p bytes.length))) := by
  obtain ⟨s, hr, hout, rfl⟩ := ht
  obtain ⟨q, n, rfl, hq⟩ := exists_of_contents (Option.isSome_of_eq_some hp)
  rw [contents_add, hq] at hp
  cases hp
  rw [ObjectStore.length_block] at hm ⊢
  have hr' : Ready { h with mem := m } s := by
    refine hr.of_outside fun a => ?_
    by_cases ha : q + tagSize ≤ a ∧ a < q + tagSize + n
    · exact Or.inr (hr.holds.outside hq ha.1 ha.2)
    · exact Or.inl (hm a (by omega))
  refine ⟨s, hr', hout, ?_⟩
  funext x
  by_cases hx : x = q + tagSize
  · rw [hx, contents_add, hq, Function.update_self]
    rfl
  · rw [Function.update_of_ne hx, contents, contents]
    split_ifs with hle
    · cases hk : s.live (x - tagSize) with
      | none => rfl
      | some k =>
          refine congrArg some (ObjectStore.block_congr fun a h1 h2 => hm a ?_)
          rcases Nat.lt_trichotomy (x - tagSize) q with hlt | heq | hgt
          · have := hr.holds.blocks_apart hlt hk hq
            omega
          · omega
          · have := hr.holds.blocks_apart hgt hq hk
            omega
    · rfl

/-- The blocks of a store that a heap tracks do not overlap, and each is where the heap has it. -/
theorem Tracks.sound (ht : Tracks k h t) : t.Apart ∧ ObjectStore.Holds h.mem t := by
  obtain ⟨s, hr, hout, rfl⟩ := ht
  constructor
  · intro p q bytes bytes' hpq hp hq
    obtain ⟨p, n, rfl, hpn⟩ := exists_of_contents (Option.isSome_of_eq_some hp)
    obtain ⟨q, k, rfl, hqk⟩ := exists_of_contents (Option.isSome_of_eq_some hq)
    rw [contents_add, hpn] at hp
    cases hp
    have := hr.holds.blocks_apart (by omega) hpn hqk
    rw [ObjectStore.length_block]
    omega
  · intro p bytes hp
    obtain ⟨p, n, rfl, hpn⟩ := exists_of_contents (Option.isSome_of_eq_some hp)
    rw [contents_add, hpn] at hp
    cases hp
    rw [ObjectStore.length_block]

/-- `calloc` gives a block of zeros. -/
theorem calloc_tracks (hsup : Supplies ps k) (ht : Tracks k h t) {nobj size : ℕ}
    (hn : u32 (nobj * size) + tagSize < 2 ^ 32) (hserved : Served k fuel h (u32 (nobj * size)))
    (hok : Succeeds ps fuel h (u32 (nobj * size))) (hfuel : 2 ^ 27 < fuel) :
    ∃ ptr h', calloc ps fuel h nobj size = some (ptr, h') ∧ t ptr = none ∧
      Tracks k h' (Function.update t ptr (some (List.replicate (u32 (nobj * size)) 0))) := by
  obtain ⟨ptr, h', hcall, hfresh, ht'⟩ := malloc_tracks hsup ht hn hserved hfuel
  have hptr : ptr ≠ 0 := fun h0 => hok (by rw [hcall, h0]; rfl)
  rw [if_neg hptr] at ht'
  refine ⟨ptr, _, by rw [calloc, hcall]; rfl, hfresh, ?_⟩
  generalize u32 (nobj * size) = n at *
  have hw := ht'.write_block (m := liballocMemset ptr 0 n 0 h'.mem) (Function.update_self _ _ _)
    fun a ha => by
      rw [ObjectStore.length_block] at ha
      rw [liballocMemset_apply, if_neg (by omega)]
  rw [Function.update_idem, ObjectStore.length_block] at hw
  have hzero : block (liballocMemset ptr 0 n 0 h'.mem) ptr n = List.replicate n 0 := by
    refine List.ext_getElem (by simp) fun i h1 h2 => ?_
    rw [ObjectStore.length_block] at h1
    rw [ObjectStore.getElem_block, liballocMemset_apply, if_pos (by omega), List.getElem_replicate]
  rwa [hzero] at hw

/-- `realloc` of a block keeps the bytes that there is room for. -/
theorem realloc_tracks (hsup : Supplies ps k) (ht : Tracks k h t) {size : ℕ}
    {bytes : List UInt8} (hp : t p = some bytes) (hsize : size ≠ 0) (hn : size + tagSize < 2 ^ 32)
    (hserved : Served k fuel h size) (hok : Succeeds ps fuel h size) (hfuel : 2 ^ 27 < fuel) :
    ∃ ptr h', realloc ps fuel h p size = some (ptr, h') ∧ t ptr = none ∧
      Tracks k h' (Function.update (Function.update t ptr
        (some (bytes.take size ++ block h'.mem (ptr + (bytes.take size).length)
          (size - (bytes.take size).length)))) p none) := by
  obtain ⟨ptr, h₁, hcall, hfresh, ht₁⟩ := malloc_tracks hsup ht hn hserved hfuel
  have hptr : ptr ≠ 0 := fun h0 => hok (by rw [hcall, h0]; rfl)
  have hne : p ≠ ptr := fun heq => by
    rw [heq, hfresh] at hp
    cases hp
  have hp0 : p ≠ 0 := by
    obtain ⟨s, -, -, rfl⟩ := ht
    rintro rfl
    rw [contents_zero] at hp
    cases hp
  rw [if_neg hptr] at ht₁
  -- the tag has the size of the block
  have htagged : field h.mem (u32 (p + 2 ^ 32 - tagSize)) .size = bytes.length := by
    obtain ⟨s, hr, -, rfl⟩ := ht
    obtain ⟨q, n, rfl, hq⟩ := exists_of_contents (Option.isSome_of_eq_some hp)
    rw [contents_add, hq] at hp
    cases hp
    obtain ⟨hmem, -, hsz, -⟩ := hr.holds.live q n hq
    rw [startUp_mem] at hsz
    have hlt := hr.holds.tiled.lt hmem
    rw [Nat.add_right_comm, Nat.add_sub_cancel, u32, Nat.add_mod_right, Nat.mod_eq_of_lt hlt, hsz,
      ObjectStore.length_block]
  generalize hkept : bytes.take size = kept
  have hlen : kept.length = if size < bytes.length then size else bytes.length := by
    rw [← hkept, List.length_take]
    split_ifs <;> omega
  have hlesize : kept.length ≤ size := by
    rw [← hkept]
    exact List.length_take_le _ _
  have hlebytes : kept.length ≤ bytes.length := by
    rw [← hkept]
    exact List.length_take_le' _ _
  -- the copy
  obtain ⟨hap, hheld⟩ := ht₁.sound
  have hp₁ : Function.update t ptr (some (block h₁.mem ptr size)) p = some bytes := by
    rw [Function.update_of_ne hne, hp]
  have hapart : p + kept.length ≤ ptr ∨ ptr + kept.length ≤ p := by
    rcases Nat.lt_or_gt_of_ne hne with hlt | hlt
    · have := hap p ptr _ _ hlt hp₁ (Function.update_self _ _ _)
      omega
    · have := hap ptr p _ _ hlt (Function.update_self _ _ _) hp₁
      rw [ObjectStore.length_block] at this
      omega
  have hw := ht₁.write_block (m := liballocMemcpy kept.length ptr p h₁.mem)
    (Function.update_self _ _ _) fun a ha => by
      rw [ObjectStore.length_block] at ha
      rw [liballocMemcpy_apply hapart, if_neg (by omega)]
  rw [Function.update_idem, ObjectStore.length_block] at hw
  obtain ⟨h₂, hfree, ht₂⟩ := free_tracks hsup hw (p := p)
    (Or.inr (by rw [Function.update_of_ne hne, hp]; rfl)) (by omega : 2 ≤ fuel)
  refine ⟨ptr, h₂, ?_, hfresh, ?_⟩
  · rw [realloc, if_neg hsize, if_neg hp0]
    dsimp only
    rw [htagged, ← hlen, hcall]
    simp [hfree]
  · -- the bytes copied, and those that came with the block
    have hbytes : block (liballocMemcpy kept.length ptr p h₁.mem) ptr kept.length = kept := by
      have hsrc : block h₁.mem p kept.length = kept := by
        have := congrArg (List.take kept.length) (hheld p bytes hp₁)
        rw [ObjectStore.take_block, Nat.min_eq_left hlebytes] at this
        rw [this, ← hkept, List.length_take, List.take_eq_take_min, Nat.min_comm]
        simp
      rw [← hsrc, ObjectStore.length_block]
      refine List.ext_getElem (by simp) fun i h1 h2 => ?_
      rw [ObjectStore.length_block] at h1
      rw [ObjectStore.getElem_block, ObjectStore.getElem_block, liballocMemcpy_apply hapart,
        if_pos (by omega), Nat.add_sub_cancel_left]
    have hblock := (ht₂.sound.2 ptr _ (by
      rw [Function.update_of_ne (Ne.symm hne), Function.update_self]))
    rw [ObjectStore.length_block] at hblock
    have hfirst : block h₂.mem ptr kept.length = kept := by
      have := congrArg (List.take kept.length) hblock
      rwa [ObjectStore.take_block, ObjectStore.take_block, Nat.min_eq_left hlesize, hbytes] at this
    have hsplit := ObjectStore.block_append h₂.mem ptr kept.length (size - kept.length)
    rw [Nat.add_sub_cancel' hlesize, hblock, hfirst] at hsplit
    rwa [hsplit] at ht₂

/-- One call, of those that callers may make, returns; a new block is nobody's, and the heap has
the blocks of the store afterwards. -/
theorem step_tracks (hsup : Supplies ps k) (ht : Tracks k h t) (hfuel : 2 ^ 27 < fuel)
    {c : Call} (hc : Permits ps k fuel h t c) :
    ∃ ptr h', step ps fuel h c = some (ptr, h') ∧ t ptr = none ∧
      Tracks k h' (after h'.mem t ptr c) := by
  have h0 : t 0 = none := by
    obtain ⟨s, -, -, rfl⟩ := ht
    exact contents_zero _ _
  have hfree : ∀ {p}, p = 0 ∨ (t p).isSome → ∃ h', (free ps fuel h p).map (fun h => (0, h)) =
      some (0, h') ∧ t 0 = none ∧ Tracks k h' (Function.update t p none) := by
    intro p hp
    obtain ⟨h', hcall, ht'⟩ := free_tracks hsup ht hp (by omega : 2 ≤ fuel)
    exact ⟨h', by rw [hcall]; rfl, h0, ht'⟩
  cases c with
  | malloc size => exact malloc_tracks hsup ht hc.1 hc.2 hfuel
  | free p =>
      obtain ⟨h', hres⟩ := hfree hc
      exact ⟨0, h', hres⟩
  | calloc nobj size => exact calloc_tracks hsup ht hc.1 hc.2.1 hc.2.2 hfuel
  | realloc p size =>
      obtain ⟨hp, hsize⟩ := hc
      by_cases hs0 : size = 0
      · obtain ⟨h', hcall, hrest⟩ := hfree hp
        exact ⟨0, h', by rw [step, realloc, if_pos hs0, hcall], by rwa [after, if_pos hs0]⟩
      · obtain ⟨hn, hserved, hok⟩ := hsize hs0
        by_cases hp0 : p = 0
        · obtain ⟨ptr, h', hcall, hrest⟩ := malloc_tracks hsup ht hn hserved hfuel
          refine ⟨ptr, h', ?_, ?_⟩
          · rw [step, realloc, if_neg hs0, if_pos hp0, hcall]
          · rwa [after, if_neg hs0, if_pos hp0]
        · obtain ⟨bytes, hbytes⟩ := Option.isSome_iff_exists.mp (hp.resolve_left hp0)
          obtain ⟨ptr, h', hcall, hrest⟩ := realloc_tracks hsup ht hbytes hs0 hn hserved (hok hp0)
            hfuel
          refine ⟨ptr, h', hcall, ?_⟩
          rw [after, if_neg hs0, if_neg hp0, hbytes]
          exact hrest
  | write a b =>
      obtain ⟨p, bytes, hp, hle, hlt⟩ := hc
      refine ⟨0, _, rfl, h0, ?_⟩
      obtain ⟨s, hr, hout, rfl⟩ := ht
      obtain ⟨q, n, rfl, hq⟩ := exists_of_contents (Option.isSome_of_eq_some hp)
      rw [contents_add, hq] at hp
      cases hp
      rw [ObjectStore.length_block] at hlt
      refine ⟨s, hr.of_outside fun x => ?_, hout, ?_⟩
      · by_cases hx : x = a
        · exact Or.inr (hx ▸ hr.holds.outside hq hle hlt)
        · exact Or.inl (Function.update_of_ne hx _ _)
      · funext x
        rw [after, Store.write, contents, contents]
        by_cases hx : tagSize ≤ x
        · rw [if_pos hx, if_pos hx]
          cases s.live (x - tagSize) with
          | none => rfl
          | some k =>
              dsimp only [Option.map_some]
              rw [ObjectStore.block_update]
        · rw [if_neg hx, if_neg hx]
          rfl

/-- What happens between two calls of the heap: the bytes of the runs stay, and the supplier does
not forget what it has handed out. -/
structure Between (k : Contract σ) (h : Heap σ) (m : Memory) (supply : σ) : Prop where
  bytes : ∀ runs, k.out h.pages runs → ∀ r ∈ runs, ∀ a, r.1 ≤ a → a < r.1 + r.2 → m a = h.mem a
  supply : ∀ runs, k.out h.pages runs → k.out supply runs

theorem Tracks.between (ht : Tracks k h t) {m : Memory} {supply : σ}
    (hb : Between k h m supply) : Tracks k { h with mem := m, pages := supply } t := by
  obtain ⟨s, hr, hout, rfl⟩ := ht
  have hm : ∀ p ∈ s.tags, ∀ a, p ≤ a → a < p + field (startUp h).mem p .realSize → m a = h.mem a :=
    fun p hp a h1 h2 => hb.bytes _ hout _ (Finset.mem_image_of_mem _ hp) a
      (by have := hr.holds.tiled.inside p hp; omega) (by
        have := hr.holds.tiled.inside p hp
        omega)
  have hr' := hr.of_mem (m := m) fun p hp a h1 h2 => hm p hp a h1 (by
    have := hr.holds.tiled.room p hp
    rw [tagSize] at h2
    omega)
  have hpages : startUp { h with mem := m, pages := supply } =
      { startUp { h with mem := m } with pages := supply } := by
    rw [startUp, startUp]
    split_ifs <;> rfl
  refine ⟨s, ⟨by rw [hpages]; exact hr'.holds, hr.idle, hr.fresh⟩, hb.supply _ hout, ?_⟩
  funext x
  rw [contents, contents]
  split_ifs with hx
  · cases hk : s.live (x - tagSize) with
    | none => rfl
    | some k =>
        obtain ⟨hmem, -, -, hfits⟩ := hr.holds.live _ k hk
        exact congrArg some (ObjectStore.block_congr fun a h1 h2 => hm _ hmem a (by omega) (by omega))
  · rfl

/-! ### Runs -/

/-- The heaps that come about, with the store their callers have: from a heap that was not used
yet, by calls that callers may make, and by whatever happens between them. -/
inductive Reach (ps : PageSupplier σ) (k : Contract σ) (fuel : ℕ) : Heap σ → Store → Prop
  | start {h : Heap σ} : h.initialized = false → k.out h.pages ∅ → Reach ps k fuel h fun _ => none
  | call {h h' : Heap σ} {t : Store} {c : Call} {ptr : ℕ} : Reach ps k fuel h t →
      Permits ps k fuel h t c → step ps fuel h c = some (ptr, h') →
      Reach ps k fuel h' (after h'.mem t ptr c)
  | between {h : Heap σ} {t : Store} {m : Memory} {supply : σ} : Reach ps k fuel h t →
      Between k h m supply → Reach ps k fuel { h with mem := m, pages := supply } t

/-- A heap that was not used yet. -/
theorem ready_of_fresh (hinit : h.initialized = false) :
    Ready h ⟨∅, fun _ => (0, 0), fun _ => [], fun _ => none, ∅⟩ := by
  have hstart : startUp h = { h with
      freePages := fun _ => 0, completePages := fun _ => 0, initialized := true } := by
    rw [startUp, if_neg (by simp [hinit])]
  refine ⟨?_, rfl, fun _ => rfl⟩
  rw [hstart]
  constructor
  case tiled => constructor <;> simp
  case listed => constructor <;> simp [LinkedList.Linked]
  all_goals simp

theorem Reach.tracks (hsup : Supplies ps k) (hfuel : 2 ^ 27 < fuel)
    (hreach : Reach ps k fuel h t) : Tracks k h t := by
  induction hreach with
  | start hinit hout => exact ⟨_, ready_of_fresh hinit, hout, by funext x; simp [contents]⟩
  | call _ hc hstep ih =>
      obtain ⟨ptr', h'', hstep', -, ht⟩ := step_tracks hsup ih hfuel hc
      rw [hstep] at hstep'
      cases hstep'
      exact ht
  | between _ hb ih => exact ih.between hb

end Calls

end Liballoc

end HalOS
