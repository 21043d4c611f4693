import HalOS.Fs.FatChain
import HalOS.Fs.FatName
import Mathlib.Data.Nat.Find

/-!
# Directories

The entries of a directory are those of its clusters, up to the first one that begins with a zero.
`read_next_entry` goes through them as long as the links of the chain survive its mask, and skips
none: a deleted entry is decoded like any other.

## Main results

* `readsOut_dirSlots`: the entries that are read are those of the directory.
* `lists_iff_decodeEntries`: the results are those that the decoding of these entries gives.
* `listsExactly_iff_plain`: when the results are those of the live entries.
-/

namespace HalOS

open CString (Memory)
open Outcome (bind_eq_ok)

/-! ### What a directory consists of -/

/-- Entry `j` of a cluster. -/
def clusterSlot (v : Fat32Volume) (content : ℕ → Memory) (c : UInt32) (j : ℕ) : Memory :=
  fun i => content (clusterStart v c + j / 16) (j % 16 * 32 + i)

/-- The entries of a cluster. -/
def clusterSlots (v : Fat32Volume) (content : ℕ → Memory) (c : UInt32) : List Memory :=
  (List.range (v.header.sectorsPerCluster.toNat * 16)).map (clusterSlot v content c)

/-- The entries of a chain. -/
def dirSlots (v : Fat32Volume) (content : ℕ → Memory) (chain : List UInt32) : List Memory :=
  chain.flatMap (clusterSlots v content)

/-- The entries before the first zero entry. -/
def usedSlots (slots : List Memory) : List Memory := slots.takeWhile fun s => s 0 ≠ 0

/-- The entries that are not deleted. -/
def undeleted (slots : List Memory) : List Memory := slots.filter fun s => s 0 ≠ 0xE5

/-- The short entries. -/
def shortSlots (slots : List Memory) : List Memory :=
  slots.filter fun s => entryAttrib s ≠ dirEntryAttribLfn

/-- What comes of the entries, one after the other. -/
def decodeEntries : LfnState → List Memory → Except FatFault (List DirEntry)
  | _, [] => .ok []
  | st, entry :: entries => do
      let (st, out) ← entryStep st entry
      let rest ← decodeEntries st entries
      .ok (out.toList ++ rest)

/-- The calls of `fat32_next_dir_entry` from this state on give these results, and then none. -/
inductive Lists (disk : Disk) (v : Fat32Volume) : DirState → List DirEntry → Prop
  | done {st st' : DirState} {fuel : ℕ} : fat32NextDirEntry disk v fuel st = .ok (none, st') →
      Lists disk v st []
  | next {st st' : DirState} {fuel : ℕ} {out : DirEntry} {results : List DirEntry} :
      fat32NextDirEntry disk v fuel st = .ok (some out, st') → Lists disk v st' results →
      Lists disk v st (out :: results)

/-! ### From entries to results -/

/-- Reading goes through these entries and then finds none. -/
inductive ReadsOut (disk : Disk) (v : Fat32Volume) : Fat32DirList → List Memory → Prop
  | done {list list' : Fat32DirList} : readNextEntry disk v list = .ok (none, list') →
      ReadsOut disk v list []
  | next {list mid : Fat32DirList} {entry : Memory} {entries : List Memory} :
      readNextEntry disk v list = .ok (some entry, mid) → ReadsOut disk v mid entries →
      ReadsOut disk v list (entry :: entries)

variable {disk : Disk} {v : Fat32Volume} {list : Fat32DirList} {lfn : LfnState}
  {entries : List Memory} {results : List DirEntry}

theorem ReadsOut.of_eq {list' : Fat32DirList} (h : ReadsOut disk v list' entries)
    (heq : readNextEntry disk v list = readNextEntry disk v list') :
    ReadsOut disk v list entries := by
  cases h with
  | done hread => exact .done (heq.trans hread)
  | next hread hrest => exact .next (heq.trans hread) hrest

theorem fat32NextDirEntry_none {list' : Fat32DirList}
    (hread : readNextEntry disk v list = .ok (none, list')) (fuel : ℕ) :
    fat32NextDirEntry disk v (fuel + 1) ⟨lfn, list⟩ =
      .ok (none, ⟨{ lfn with length := 0 }, list'⟩) := by
  rw [fat32NextDirEntry]
  dsimp only
  rw [hread]
  rfl

theorem exists_fuel {fuel : ℕ} {st : DirState} {r : Option DirEntry × DirState}
    (h : fat32NextDirEntry disk v fuel st = .ok r) : ∃ n, fuel = n + 1 := by
  cases fuel with
  | zero => cases h
  | succ n => exact ⟨n, rfl⟩

/-- Passing over an entry leaves the results as they are. -/
theorem lists_skip_iff {lfn' : LfnState} {mid : Fat32DirList}
    (heq : ∀ fuel, fat32NextDirEntry disk v (fuel + 1) ⟨lfn, list⟩ =
      fat32NextDirEntry disk v fuel ⟨lfn', mid⟩) :
    Lists disk v ⟨lfn, list⟩ results ↔ Lists disk v ⟨lfn', mid⟩ results := by
  constructor
  · intro h
    cases h with
    | done hcall =>
        obtain ⟨n, rfl⟩ := exists_fuel hcall
        exact .done ((heq n).symm.trans hcall)
    | next hcall hrest =>
        obtain ⟨n, rfl⟩ := exists_fuel hcall
        exact .next ((heq n).symm.trans hcall) hrest
  · intro h
    cases h with
    | done hcall => exact .done ((heq _).trans hcall)
    | next hcall hrest => exact .next ((heq _).trans hcall) hrest

/-- The results are those that the decoding of the entries gives. -/
theorem lists_iff_decodeEntries (h : ReadsOut disk v list entries) :
    Lists disk v ⟨lfn, list⟩ results ↔ decodeEntries lfn entries = .ok results := by
  induction h generalizing lfn results with
  | done hread =>
      constructor
      · intro hlists
        cases hlists with
        | done => rfl
        | next hcall _ =>
            obtain ⟨n, rfl⟩ := exists_fuel hcall
            rw [fat32NextDirEntry_none hread] at hcall
            cases hcall
      · intro hdecode
        obtain rfl : [] = results := Except.ok.inj hdecode
        exact .done (fat32NextDirEntry_none hread 0)
  | next hread _ ih =>
      rw [decodeEntries]
      cases hstep : entryStep lfn _ with
      | error e =>
          refine iff_of_false (fun hlists => ?_) nofun
          have hfault := fat32NextDirEntry_fault hread hstep
          cases hlists with
          | done hcall =>
              obtain ⟨n, rfl⟩ := exists_fuel hcall
              cases (hfault n).symm.trans hcall
          | next hcall _ =>
              obtain ⟨n, rfl⟩ := exists_fuel hcall
              cases (hfault n).symm.trans hcall
      | ok step =>
          obtain ⟨lfn', out⟩ := step
          cases out with
          | none =>
              change _ ↔ (decodeEntries lfn' _ >>= fun rest => .ok ([] ++ rest)) = _
              rw [lists_skip_iff (fat32NextDirEntry_skip hread hstep), ih, bind_eq_ok]
              constructor
              · exact fun h => ⟨results, h, rfl⟩
              · rintro ⟨rest, hrest, heq⟩
                rw [hrest]
                exact heq
          | some out =>
              have hfound := fat32NextDirEntry_found hread hstep
              change _ ↔ (decodeEntries lfn' _ >>= fun rest => .ok ([out] ++ rest)) = _
              rw [bind_eq_ok]
              constructor
              · intro hlists
                cases hlists with
                | done hcall =>
                    obtain ⟨n, rfl⟩ := exists_fuel hcall
                    cases (hfound n).symm.trans hcall
                | next hcall hrest =>
                    obtain ⟨n, rfl⟩ := exists_fuel hcall
                    cases (hfound n).symm.trans hcall
                    exact ⟨_, ih.mp hrest, rfl⟩
              · rintro ⟨rest, hrest, heq⟩
                obtain rfl : [out] ++ rest = results := Except.ok.inj heq
                exact .next (hfound 0) (ih.mpr hrest)

/-! ### Reading a cluster -/

/-- The list stands before entry `e` of the cluster, with the sector in its buffer that it says;
at the beginning it may say a sector that is not there. -/
structure At (disk : Disk) (v : Fat32Volume) (list : Fat32DirList) (c : UInt32) (e : ℕ) :
    Prop where
  cluster : list.cluster = c
  entry : list.entry = UInt32.ofNat e
  buffer : disk list.bufferedSector = some list.sectorBuffer ∨
    e = 0 ∧ list.bufferedSector ≠ clusterToSector v c

variable {fat : ℕ → UInt32} {content : ℕ → Memory} {c : UInt32} {e : ℕ}

/-- The end of `read_next_entry`, at an entry of the cluster. -/
theorem readEntry_eq (hlist : At disk v list c e) (he : e < v.header.sectorsPerCluster.toNat * 16)
    (hc : 2 ≤ c.toNat) (hholds : HoldsCluster disk v content c) :
    ∃ mid, At disk v mid c (e + 1) ∧
      readEntry disk v list =
        (if clusterSlot v content c e 0 = 0 then none else some (clusterSlot v content c e),
          mid) := by
  have hspc := v.header.sectorsPerCluster.toNat_lt
  have hperSector : sectorSize / dirEntrySize = UInt32.ofNat 16 := rfl
  have hentry : list.entry.toNat = e := by
    rw [hlist.entry]
    exact UInt32.toNat_ofNat_of_lt' (by change e < 2 ^ 32; omega)
  have hdiv : list.entry / (sectorSize / dirEntrySize) = UInt32.ofNat (e / 16) := by
    rw [← UInt32.toNat_inj, UInt32.toNat_div, hentry, hperSector]
    exact (UInt32.toNat_ofNat_of_lt' (by change e / 16 < 2 ^ 32; omega)).symm
  have hmod : (list.entry % (sectorSize / dirEntrySize)).toNat = e % 16 := by
    rw [UInt32.toNat_mod, hentry, hperSector]
    rfl
  have hdisk := hholds.disk_eq hc (i := e / 16) (by omega)
  have hread : (if list.bufferedSector ≠ clusterToSector v list.cluster +
        list.entry / (sectorSize / dirEntrySize) then
        (disk (clusterToSector v list.cluster + list.entry / (sectorSize / dirEntrySize))).map
          fun bytes => { list with
            sectorBuffer := bytes
            bufferedSector :=
              clusterToSector v list.cluster + list.entry / (sectorSize / dirEntrySize) }
      else some list) =
      some ⟨c, list.entry, content (clusterStart v c + e / 16),
        clusterToSector v c + UInt32.ofNat (e / 16)⟩ := by
    rw [hlist.cluster, hdiv]
    by_cases hcached : list.bufferedSector = clusterToSector v c + UInt32.ofNat (e / 16)
    · rw [if_neg (not_not.mpr hcached), ← hcached, ← hlist.cluster]
      have hbuffer : list.sectorBuffer = content (clusterStart v c + e / 16) := by
        rcases hlist.buffer with hbuffer | ⟨rfl, hne⟩
        · rw [hcached, hdisk] at hbuffer
          exact (Option.some.inj hbuffer).symm
        · exact absurd (hcached.trans (UInt32.add_zero _)) hne
      rw [← hlist.cluster] at hbuffer
      rw [← hbuffer]
    · rw [if_pos hcached, hdisk, Option.map_some]
  refine ⟨⟨c, list.entry + 1, content (clusterStart v c + e / 16),
    clusterToSector v c + UInt32.ofNat (e / 16)⟩, ⟨rfl, ?_, Or.inl hdisk⟩, ?_⟩
  · rw [hlist.entry, UInt32.ofNat_add]
    rfl
  · rw [readEntry]
    dsimp only
    rw [hread]
    dsimp only
    rw [hmod]
    by_cases hzero : clusterSlot v content c e 0 = 0
    · rw [if_pos hzero]
      exact if_pos hzero
    · rw [if_neg hzero]
      exact if_neg hzero

/-- An entry of the cluster is read, unless it is zero. -/
theorem readNextEntry_eq (hg : Geometry v fat) (hlist : At disk v list c e)
    (he : e < v.header.sectorsPerCluster.toNat * 16) (hc : 2 ≤ c.toNat)
    (hholds : HoldsCluster disk v content c) :
    ∃ mid, At disk v mid c (e + 1) ∧
      readNextEntry disk v list =
        .ok (if clusterSlot v content c e 0 = 0 then none else some (clusterSlot v content c e),
          mid) := by
  have hspc := v.header.sectorsPerCluster.toNat_lt
  have hlast : ¬ v.clusterSize / dirEntrySize ≤ list.entry := by
    rw [UInt32.le_iff_toNat_le, UInt32.toNat_div, hg.toNat_clusterSize, hlist.entry,
      UInt32.toNat_ofNat_of_lt' (by change e < 2 ^ 32; omega)]
    change ¬ _ / 32 ≤ e
    omega
  obtain ⟨mid, hmid, hread⟩ := readEntry_eq hlist he hc hholds
  refine ⟨mid, hmid, ?_⟩
  rw [readNextEntry, if_neg hlast, hread]

/-- Behind the last entry of the cluster, reading goes on in the next one. -/
theorem readNextEntry_turn (hg : Geometry v fat)
    (hlist : At disk v list c (v.header.sectorsPerCluster.toNat * 16)) :
    readNextEntry disk v list =
      if fat c.toNat &&& 0xFFFFFF = 0xFFFFFF then
        .ok (none, { list with cluster := fat c.toNat &&& 0xFFFFFF })
      else
        .ok (readEntry disk v { list with cluster := fat c.toNat &&& 0xFFFFFF, entry := 0 }) := by
  have hspc := v.header.sectorsPerCluster.toNat_lt
  have hlast : v.clusterSize / dirEntrySize ≤ list.entry := by
    rw [UInt32.le_iff_toNat_le, UInt32.toNat_div, hg.toNat_clusterSize, hlist.entry,
      UInt32.toNat_ofNat_of_lt' (by change _ < 2 ^ 32; omega)]
    change _ / 32 ≤ _
    omega
  rw [readNextEntry, if_pos hlast, hlist.cluster, hg.nextCluster_eq]
  rfl

theorem mem_clusterSlots {s : Memory} :
    s ∈ clusterSlots v content c ↔
      ∃ j < v.header.sectorsPerCluster.toNat * 16, clusterSlot v content c j = s := by
  rw [clusterSlots, List.mem_map]
  simp only [List.mem_range]

/-- The entries of a cluster from one on are read up to the first zero entry; if there is none,
reading goes on with what comes behind the cluster. -/
theorem readsOut_cluster (hg : Geometry v fat) (hc : 2 ≤ c.toNat)
    (hholds : HoldsCluster disk v content c) {rest : List Memory} (n : ℕ)
    (hn : e + n = v.header.sectorsPerCluster.toNat * 16) (hlist : At disk v list c e)
    (hrest : (∀ j, e ≤ j → j < v.header.sectorsPerCluster.toNat * 16 →
        clusterSlot v content c j 0 ≠ 0) →
      ∀ list', At disk v list' c (v.header.sectorsPerCluster.toNat * 16) →
        ReadsOut disk v list' (usedSlots rest)) :
    ReadsOut disk v list
      (usedSlots ((List.range' e n).map (clusterSlot v content c) ++ rest)) := by
  induction n generalizing e list with
  | zero =>
      obtain rfl : e = v.header.sectorsPerCluster.toNat * 16 := by omega
      exact hrest (fun j hj hj' => absurd hj' (by omega)) list hlist
  | succ n ih =>
      obtain ⟨mid, hmid, hread⟩ := readNextEntry_eq hg hlist (by omega) hc hholds
      rw [List.range'_succ, List.map_cons, List.cons_append, usedSlots]
      by_cases hzero : clusterSlot v content c e 0 = 0
      · rw [if_pos hzero] at hread
        rw [List.takeWhile_cons_of_neg (by simpa using hzero)]
        exact .done hread
      · rw [if_neg hzero] at hread
        rw [List.takeWhile_cons_of_pos (by simpa using hzero)]
        refine .next hread (ih (by omega) hmid fun hall => hrest fun j hj hj' => ?_)
        rcases Nat.lt_or_ge e j with hlt | hge
        · exact hall j hlt hj'
        · obtain rfl : e = j := by omega
          exact hzero

/-! ### Reading a chain -/

/-- The driver ends where the number it makes of the end marker leads: it is the one that it takes
for the end, or what it leads to ends the directory, or cannot be read. -/
def EndsAt (disk : Disk) (v : Fat32Volume) (next : UInt32) : Prop :=
  next = 0xFFFFFF ∨ ∀ bytes, disk (clusterToSector v next) = some bytes → bytes 0 = 0

/-- As far as there is no zero entry, the links have 24 bits and are not the number that the
driver takes for the end, and the driver ends at the end marker. -/
def LinksSurvive (disk : Disk) (v : Fat32Volume) (content : ℕ → Memory) (fat : ℕ → UInt32) :
    List UInt32 → Prop
  | [] => True
  | [c] => (∀ s ∈ clusterSlots v content c, s 0 ≠ 0) → EndsAt disk v (fat c.toNat &&& 0xFFFFFF)
  | c :: d :: ds => (∀ s ∈ clusterSlots v content c, s 0 ≠ 0) →
      d.toNat < 0xFFFFFF ∧ LinksSurvive disk v content fat (d :: ds)

theorem EndsAt.readsOut (h : EndsAt disk v (fat c.toNat &&& 0xFFFFFF)) (hg : Geometry v fat)
    (hlist : At disk v list c (v.header.sectorsPerCluster.toNat * 16)) :
    ReadsOut disk v list [] := by
  have hturn := readNextEntry_turn hg hlist
  by_cases hend : fat c.toNat &&& 0xFFFFFF = 0xFFFFFF
  · rw [if_pos hend] at hturn
    exact .done hturn
  rw [if_neg hend] at hturn
  have hzero := h.resolve_left hend
  have hpos := hg.spc_pos
  have hbuffer := hlist.buffer.resolve_right fun ⟨h0, _⟩ => by omega
  generalize fat c.toNat &&& 0xFFFFFF = next at hturn hzero
  have hnone : ∃ list', readEntry disk v { list with cluster := next, entry := 0 } =
      (none, list') := by
    have hsector : clusterToSector v next + 0 / (sectorSize / dirEntrySize) =
        clusterToSector v next := UInt32.add_zero _
    rw [readEntry]
    dsimp only
    rw [hsector]
    by_cases hcached : list.bufferedSector = clusterToSector v next
    · rw [if_neg (not_not.mpr hcached)]
      rw [hcached] at hbuffer
      exact ⟨_, if_pos (hzero _ hbuffer)⟩
    · rw [if_pos hcached]
      cases hdisk : disk (clusterToSector v next) with
      | none => exact ⟨_, rfl⟩
      | some bytes => exact ⟨_, if_pos (hzero bytes hdisk)⟩
  obtain ⟨list', hnone⟩ := hnone
  rw [hnone] at hturn
  exact .done hturn

/-- Behind the last entry of a cluster, the list stands at the beginning of the next one. -/
theorem readNextEntry_link {d : UInt32} (hg : Geometry v fat)
    (hlist : At disk v list c (v.header.sectorsPerCluster.toNat * 16))
    (hlink : fat c.toNat &&& 0x0FFFFFFF = d) (hd : d.toNat < 0xFFFFFF) :
    ∃ list', At disk v list' d 0 ∧ readNextEntry disk v list = readNextEntry disk v list' := by
  have hpos := hg.spc_pos
  have hturn := readNextEntry_turn hg hlist
  have hnext : fat c.toNat &&& 0xFFFFFF = d :=
    Except.ok.inj ((hg.nextCluster_eq c).symm.trans (hg.nextCluster_link hlink (by omega)))
  have hne : d ≠ 0xFFFFFF := by
    rintro rfl
    exact absurd hd (by decide)
  rw [hnext, if_neg hne] at hturn
  refine ⟨{ list with cluster := d, entry := 0 },
    ⟨rfl, rfl, Or.inl (hlist.buffer.resolve_right fun ⟨h0, _⟩ => by omega)⟩, ?_⟩
  have hfirst : ¬ v.clusterSize / dirEntrySize ≤ 0 := by
    rw [UInt32.le_iff_toNat_le, UInt32.toNat_div, hg.toNat_clusterSize]
    change ¬ _ / 32 ≤ 0
    omega
  rw [hturn, readNextEntry]
  exact (if_neg hfirst).symm

theorem clusterSlots_eq (v : Fat32Volume) (content : ℕ → Memory) (c : UInt32) :
    clusterSlots v content c =
      (List.range' 0 (v.header.sectorsPerCluster.toNat * 16)).map (clusterSlot v content c) := by
  rw [clusterSlots, List.range_eq_range']

theorem forall_clusterSlots
    (h : ∀ j, 0 ≤ j → j < v.header.sectorsPerCluster.toNat * 16 →
      clusterSlot v content c j 0 ≠ 0) : ∀ s ∈ clusterSlots v content c, s 0 ≠ 0 := by
  intro s hs
  obtain ⟨j, hlt, rfl⟩ := mem_clusterSlots.mp hs
  exact h j (Nat.zero_le j) hlt

/-- The entries that are read are those of the directory. -/
theorem readsOut_dirSlots {count : ℕ} {chain : List UInt32} (hg : Geometry v fat)
    (hchain : Chain fat count chain) (hholds : ∀ c ∈ chain, HoldsCluster disk v content c)
    (hlinks : LinksSurvive disk v content fat chain) (hhead : chain.head? = some c)
    (hlist : At disk v list c 0) :
    ReadsOut disk v list (usedSlots (dirSlots v content chain)) := by
  induction hchain generalizing list c with
  | last hnum _ =>
      obtain rfl := Option.some.inj hhead
      rw [dirSlots, List.flatMap_singleton, ← List.append_nil (clusterSlots _ _ _),
        clusterSlots_eq]
      exact readsOut_cluster hg hnum.two_le (hholds _ (List.mem_singleton_self _)) _
        (Nat.zero_add _) hlist fun hj list' hlist' =>
          (hlinks (forall_clusterSlots hj)).readsOut hg hlist'
  | link hnum hlink _ ih =>
      obtain rfl := Option.some.inj hhead
      rw [dirSlots, List.flatMap_cons, clusterSlots_eq]
      refine readsOut_cluster hg hnum.two_le (hholds _ List.mem_cons_self) _
        (Nat.zero_add _) hlist fun hj list' hlist' => ?_
      obtain ⟨hd, hlinks'⟩ := hlinks (forall_clusterSlots hj)
      obtain ⟨next, hnext, heq⟩ := readNextEntry_link hg hlist' hlink hd
      exact (ih (fun c hc => hholds c (List.mem_cons_of_mem _ hc)) hlinks' rfl hnext).of_eq heq

/-! ### Results -/

/-- The characters of a long-name entry lie in the buffer. -/
def LfnFits (s : Memory) : Prop :=
  ∀ i < 13, (∀ j ≤ i, lfnChar s j ≠ 0xFFFF) →
    ((lfnSequence s).toNat - 1) * 13 + i < nameSize

/-- The long-name entries fit into the buffer, and those that a short entry follows into a
name. -/
def NamesFit : List Memory → Prop
  | [] => True
  | s :: rest =>
      (entryAttrib s = dirEntryAttribLfn → lfnSequence s ≠ 0 →
        LfnFits s ∧ (shortSlots rest ≠ [] → (lfnSequence s).toNat ≤ 19)) ∧
      NamesFit rest

theorem lt_of_parseLfnChars {s : Memory} {n i k : ℕ} {buffer buffer' : Memory}
    (h : parseLfnChars s n i buffer = .ok buffer') (hik : i ≤ k) (hkn : k < i + n)
    (hchars : ∀ j, i ≤ j → j ≤ k → lfnChar s j ≠ 0xFFFF) :
    ((lfnSequence s).toNat - 1) * 13 + k < nameSize := by
  induction n generalizing i buffer with
  | zero => omega
  | succ n ih =>
      rw [parseLfnChars, if_neg (hchars i (Nat.le_refl i) hik)] at h
      dsimp only at h
      by_cases hsize : nameSize ≤ ((lfnSequence s).toNat - 1) * 13 + i
      · rw [if_pos hsize] at h
        cases h
      rw [if_neg hsize] at h
      by_cases heq : i = k
      · rw [← heq]
        omega
      · exact ih h (by omega) (by omega) fun j hj => hchars j (by omega)

/-- An entry whose characters lie in the buffer is copied. -/
theorem exists_parseLfnEntry_iff {s buffer : Memory} :
    (∃ buffer', parseLfnEntry s buffer = .ok buffer') ↔ LfnFits s := by
  constructor
  · rintro ⟨buffer', h⟩ i hi hchars
    exact lt_of_parseLfnChars h (Nat.zero_le i) (by omega) fun j _ hj => hchars j hj
  · intro hfits
    have hm : ∃ m ≤ 13, (∀ j, 0 ≤ j → j < m → lfnChar s j ≠ 0xFFFF) ∧
        (m = 0 + 13 ∨ lfnChar s m = 0xFFFF) := by
      by_cases hpad : ∃ j < 13, lfnChar s j = 0xFFFF
      · have hspec := Nat.find_spec hpad
        exact ⟨Nat.find hpad, Nat.le_of_lt hspec.1, fun j _ hj hchar =>
          Nat.find_min hpad hj ⟨Nat.lt_trans hj hspec.1, hchar⟩, Or.inr hspec.2⟩
      · exact ⟨13, Nat.le_refl 13, fun j _ hj hchar => hpad ⟨j, hj, hchar⟩, Or.inl rfl⟩
    obtain ⟨m, hm, hchars, hend⟩ := hm
    refine ⟨_, parseLfnChars_eq _ (Nat.zero_le m) (by omega) hchars hend (fun hpos => ?_) buffer⟩
    have := hfits (m - 1) (by omega) fun j hj => hchars j (Nat.zero_le j) (by omega)
    omega

theorem shortSlots_cons (entry : Memory) (entries : List Memory) :
    (shortSlots (entry :: entries)).map entryFile =
      (if entryAttrib entry ≠ dirEntryAttribLfn then [entryFile entry] else []) ++
        (shortSlots entries).map entryFile := by
  rw [shortSlots, List.filter_cons]
  by_cases hattrib : entryAttrib entry ≠ dirEntryAttribLfn
  · rw [if_pos (by simpa using hattrib), if_pos hattrib]
    rfl
  · rw [if_neg (by simpa using hattrib), if_neg hattrib]
    rfl

/-- Behind an entry that is read without a fault only the rest counts. -/
theorem exists_decodeEntries_cons_iff {s : Memory} {lfn' : LfnState} {out : Option DirEntry}
    (hstep : entryStep lfn s = .ok (lfn', out)) :
    (∃ results, decodeEntries lfn (s :: entries) = .ok results) ↔
      ∃ results, decodeEntries lfn' entries = .ok results := by
  rw [decodeEntries, hstep]
  constructor
  · rintro ⟨results, h⟩
    change (decodeEntries lfn' entries >>= _) = _ at h
    obtain ⟨more, hmore, -⟩ := bind_eq_ok.mp h
    exact ⟨more, hmore⟩
  · rintro ⟨more, hmore⟩
    change ∃ results, (decodeEntries lfn' entries >>= _) = _
    exact ⟨out.toList ++ more, bind_eq_ok.mpr ⟨more, hmore, rfl⟩⟩

theorem not_decodeEntries_of_error {s : Memory} {e : FatFault}
    (hstep : entryStep lfn s = .error e) :
    ¬ ∃ results, decodeEntries lfn (s :: entries) = .ok results := by
  rintro ⟨results, h⟩
  rw [decodeEntries, hstep] at h
  cases h

/-- The length of a long name is the greatest sequence number. -/
theorem toNat_maxLength_le_iff {length sequence : UInt8} {n : ℕ} :
    (if length < sequence then sequence else length).toNat ≤ n ↔
      sequence.toNat ≤ n ∧ length.toNat ≤ n := by
  by_cases hlt : length < sequence
  · rw [if_pos hlt]
    rw [UInt8.lt_iff_toNat_lt] at hlt
    omega
  · rw [if_neg hlt]
    rw [UInt8.lt_iff_toNat_lt] at hlt
    omega

/-- The entries are decoded without a fault exactly if their names fit. -/
theorem exists_decodeEntries_iff :
    (∃ results, decodeEntries lfn entries = .ok results) ↔
      NamesFit entries ∧ (shortSlots entries ≠ [] → lfn.length.toNat ≤ 19) := by
  induction entries generalizing lfn with
  | nil => exact iff_of_true ⟨[], rfl⟩ ⟨trivial, fun h => absurd rfl h⟩
  | cons s rest ih =>
      rw [NamesFit]
      by_cases hattrib : entryAttrib s = dirEntryAttribLfn
      · have hshort : shortSlots (s :: rest) = shortSlots rest :=
          List.filter_cons_of_neg (by simpa using hattrib)
        rw [hshort]
        by_cases hzero : lfnSequence s = 0
        · have hstep : entryStep lfn s = .ok (lfn, none) := by
            rw [entryStep, if_pos hattrib]
            exact if_pos hzero
          rw [exists_decodeEntries_cons_iff hstep, ih]
          exact ⟨fun h => ⟨⟨fun _ h0 => absurd hzero h0, h.1⟩, h.2⟩, fun h => ⟨h.1.2, h.2⟩⟩
        have hstep := entryStep_lfn lfn hattrib hzero
        by_cases hfits : LfnFits s
        · obtain ⟨buffer, hparse⟩ := exists_parseLfnEntry_iff.mpr hfits
          rw [hparse] at hstep
          rw [exists_decodeEntries_cons_iff hstep, ih]
          rw [toNat_maxLength_le_iff]
          constructor
          · rintro ⟨hrest, hlen⟩
            exact ⟨⟨fun _ _ => ⟨hfits, fun h => (hlen h).1⟩, hrest⟩, fun h => (hlen h).2⟩
          · rintro ⟨⟨hs, hrest⟩, hlen⟩
            exact ⟨hrest, fun h => ⟨(hs hattrib hzero).2 h, hlen h⟩⟩
        · have hparse : ∃ e, parseLfnEntry s lfn.buffer = .error e := by
            cases hparse : parseLfnEntry s lfn.buffer with
            | error e => exact ⟨e, rfl⟩
            | ok buffer => exact absurd (exists_parseLfnEntry_iff.mp ⟨buffer, hparse⟩) hfits
          obtain ⟨e, hparse⟩ := hparse
          rw [hparse] at hstep
          exact iff_of_false (not_decodeEntries_of_error hstep) fun h =>
            hfits (h.1.1 hattrib hzero).1
      · have hshort : shortSlots (s :: rest) ≠ [] := by
          rw [shortSlots, List.filter_cons_of_pos (by simpa using hattrib)]
          exact List.cons_ne_nil _ _
        by_cases hzero : lfn.length = 0
        · have hlen : lfn.length.toNat ≤ 19 := by
            rw [hzero]
            exact Nat.zero_le 19
          rw [exists_decodeEntries_cons_iff (entryStep_short hattrib hzero), ih]
          exact ⟨fun h => ⟨⟨fun h' => absurd h' hattrib, h.1⟩, fun _ => hlen⟩,
            fun h => ⟨h.1.2, fun _ => hlen⟩⟩
        have hstep := entryStep_long hattrib (UInt8.pos_iff_ne_zero.mpr hzero)
        by_cases hlen : lfn.length.toNat ≤ 19
        · rw [joinLfn_eq (by rw [nameSize]; omega)] at hstep
          rw [exists_decodeEntries_cons_iff hstep, ih]
          exact ⟨fun h => ⟨⟨fun h' => absurd h' hattrib, h.1⟩, fun _ => hlen⟩,
            fun h => ⟨h.1.2, fun _ => Nat.zero_le 19⟩⟩
        · rw [joinLfn, if_pos (by rw [nameSize]; omega)] at hstep
          exact iff_of_false (not_decodeEntries_of_error hstep) fun h => hlen (h.2 hshort)

/-- What a result says of the file is what its entry says. -/
theorem entryStep_file {lfn' : LfnState} {out : Option DirEntry} {entry : Memory}
    (h : entryStep lfn entry = .ok (lfn', out)) :
    out.toList.map DirEntry.file =
      if entryAttrib entry ≠ dirEntryAttribLfn then [entryFile entry] else [] := by
  by_cases hattrib : entryAttrib entry = dirEntryAttribLfn
  · rw [if_neg (not_not.mpr hattrib)]
    by_cases hzero : lfnSequence entry = 0
    · rw [entryStep, if_pos hattrib] at h
      obtain ⟨-, rfl⟩ := Prod.mk.inj (Except.ok.inj ((if_pos hzero).symm.trans h))
      rfl
    · rw [entryStep_lfn _ hattrib hzero] at h
      obtain ⟨buffer, -, h⟩ := bind_eq_ok.mp h
      obtain ⟨-, rfl⟩ := Prod.mk.inj (Except.ok.inj h)
      rfl
  · rw [if_pos hattrib]
    by_cases hzero : lfn.length = 0
    · rw [entryStep_short hattrib hzero] at h
      obtain ⟨-, rfl⟩ := Prod.mk.inj (Except.ok.inj h)
      rfl
    · rw [entryStep_long hattrib (UInt8.pos_iff_ne_zero.mpr hzero)] at h
      obtain ⟨name, -, h⟩ := bind_eq_ok.mp h
      obtain ⟨-, rfl⟩ := Prod.mk.inj (Except.ok.inj h)
      rfl

/-- The results are one for each short entry, with what the entry says of the file. -/
theorem map_file_decodeEntries (h : decodeEntries lfn entries = .ok results) :
    results.map DirEntry.file = (shortSlots entries).map entryFile := by
  induction entries generalizing lfn results with
  | nil =>
      obtain rfl : [] = results := Except.ok.inj h
      rfl
  | cons entry entries ih =>
      rw [decodeEntries] at h
      obtain ⟨⟨lfn', out⟩, hstep, h⟩ := bind_eq_ok.mp h
      obtain ⟨rest, hrest, h⟩ := bind_eq_ok.mp h
      obtain rfl : out.toList ++ rest = results := Except.ok.inj h
      rw [List.map_append, shortSlots_cons, entryStep_file hstep, ih hrest]

/-! ### Directories, exactly -/

/-- The file is a directory of the volume, with this chain of clusters. -/
structure Directory (disk : Disk) (v : Fat32Volume) (fat : ℕ → UInt32) (content : ℕ → Memory)
    (dir : Fat32File) (chain : List UInt32) : Prop where
  isDir : dir.attrib &&& fat32IsDir ≠ 0
  wellFormed : Chain fat (v.fatSizeInSectors.toNat * 128) chain
  head : chain.head? = some dir.cluster
  holds : ∀ c ∈ chain, HoldsCluster disk v content c

/-- There is one result for each live short entry, with what the entry says of the file, and the
names are those of the entries without the deleted ones. -/
def ListsExactly (disk : Disk) (v : Fat32Volume) (st : DirState) (slots : List Memory) : Prop :=
  ∃ results, Lists disk v st results ∧
    results.map DirEntry.file = (shortSlots (undeleted (usedSlots slots))).map entryFile ∧
    decodeEntries st.lfn (undeleted (usedSlots slots)) = .ok results

/-- The driver goes through the entries of the directory. -/
structure Reaches (disk : Disk) (v : Fat32Volume) (fat : ℕ → UInt32) (content : ℕ → Memory)
    (dir : Fat32File) (chain : List UInt32) : Prop where
  first : clusterToSector v dir.cluster ≠ 0
  links : LinksSurvive disk v content fat chain

/-- The driver meets no entry that it does not treat as it should. -/
structure PlainSlots (slots : List Memory) : Prop where
  live : ∀ s ∈ usedSlots slots, s 0 ≠ 0xE5
  namesFit : NamesFit (usedSlots slots)

theorem plain_iff {slots : List Memory} :
    PlainSlots slots ↔ (∀ s ∈ usedSlots slots, s 0 ≠ 0xE5) ∧ NamesFit (usedSlots slots) :=
  ⟨fun h => ⟨h.live, h.namesFit⟩, fun h => ⟨h.1, h.2⟩⟩

variable {dir : Fat32File} {chain : List UInt32}

theorem Reaches.readsOut (h : Reaches disk v fat content dir chain) (hg : Geometry v fat)
    (hdir : Directory disk v fat content dir chain) (stale : Fat32DirList) :
    ReadsOut disk v (fat32ListDir dir stale) (usedSlots (dirSlots v content chain)) := by
  refine readsOut_dirSlots hg hdir.wellFormed hdir.holds h.links hdir.head ?_
  rw [fat32ListDir, if_neg hdir.isDir]
  exact ⟨rfl, rfl, Or.inr ⟨rfl, h.first.symm⟩⟩

/-- Plain entries are listed. -/
theorem PlainSlots.listsExactly {slots : List Memory} (h : PlainSlots slots)
    (hread : ReadsOut disk v list (usedSlots slots)) (hlfn : lfn.length = 0) :
    ListsExactly disk v ⟨lfn, list⟩ slots := by
  have hall : undeleted (usedSlots slots) = usedSlots slots :=
    List.filter_eq_self.mpr fun s hs => decide_eq_true (h.live s hs)
  obtain ⟨results, hdecode⟩ := exists_decodeEntries_iff.mpr
    ⟨h.namesFit, fun _ => (congrArg UInt8.toNat hlfn).trans_le (Nat.zero_le 19)⟩
  refine ⟨results, (lists_iff_decodeEntries hread).mpr hdecode, ?_, ?_⟩
  · rw [hall]
    exact map_file_decodeEntries hdecode
  · rw [hall]
    exact hdecode

/-- A deleted short entry is one result too many. -/
theorem ListsExactly.undeleted_short {slots : List Memory}
    (h : ListsExactly disk v ⟨lfn, list⟩ slots)
    (hread : ReadsOut disk v list (usedSlots slots)) :
    NamesFit (usedSlots slots) ∧
      ∀ s ∈ usedSlots slots, s 0 = 0xE5 → entryAttrib s = dirEntryAttribLfn := by
  obtain ⟨results, hlists, hfiles, -⟩ := h
  have hdecode := (lists_iff_decodeEntries hread).mp hlists
  refine ⟨(exists_decodeEntries_iff.mp ⟨results, hdecode⟩).1, fun s hs hdel => ?_⟩
  by_contra hattrib
  have hcount := congrArg List.length ((map_file_decodeEntries hdecode).symm.trans hfiles)
  rw [List.length_map, List.length_map, shortSlots, shortSlots, undeleted, List.filter_comm,
    eq_comm, List.length_filter_eq_length_iff] at hcount
  exact absurd hdel (of_decide_eq_true
    (hcount s (List.mem_filter.mpr ⟨hs, decide_eq_true hattrib⟩)))

/-- The drives differ in the deleted entries only. -/
def DeletedVary (disk disk' : Disk) : Prop :=
  ∀ n, (disk n = none ∧ disk' n = none) ∨ ∃ m m', disk n = some m ∧ disk' n = some m' ∧
    ∀ b, m' b = m b ∨ m (b / 32 * 32) = 0xE5 ∧ b % 32 ≠ 0

/-- The entries with the deleted ones made short and blank. -/
def blankDeleted (m : Memory) : Memory :=
  fun b => if m (b / 32 * 32) = 0xE5 ∧ b % 32 ≠ 0 then 0 else m b

theorem blankDeleted_zero (m : Memory) : blankDeleted m 0 = m 0 :=
  if_neg fun ⟨_, h⟩ => h rfl

theorem dirSlots_blankDeleted (v : Fat32Volume) (content : ℕ → Memory) (chain : List UInt32) :
    dirSlots v (fun n => blankDeleted (content n)) chain =
      (dirSlots v content chain).map blankDeleted := by
  have hslot : ∀ c j, clusterSlot v (fun n => blankDeleted (content n)) c j =
      blankDeleted (clusterSlot v content c j) := by
    intro c j
    funext i
    have hstart : (j % 16 * 32 + i) / 32 * 32 = j % 16 * 32 + i / 32 * 32 := by omega
    have hoffset : (j % 16 * 32 + i) % 32 = i % 32 := by omega
    simp only [clusterSlot, blankDeleted, hstart, hoffset]
    rfl
  rw [dirSlots, dirSlots, List.map_flatMap]
  congr 1
  funext c
  rw [clusterSlots, clusterSlots, List.map_map]
  exact List.map_congr_left fun j _ => hslot c j

theorem usedSlots_map_blankDeleted (slots : List Memory) :
    usedSlots (slots.map blankDeleted) = (usedSlots slots).map blankDeleted := by
  rw [usedSlots, List.takeWhile_map]
  congr 2
  funext s
  exact congrArg (fun b => decide (b ≠ 0)) (blankDeleted_zero s)

theorem deletedVary_blankDeleted (disk : Disk) :
    DeletedVary disk fun n => (disk n).map blankDeleted := by
  intro n
  dsimp only
  cases disk n with
  | none => exact Or.inl ⟨rfl, rfl⟩
  | some m =>
      refine Or.inr ⟨m, blankDeleted m, rfl, rfl, fun b => ?_⟩
      by_cases hb : m (b / 32 * 32) = 0xE5 ∧ b % 32 ≠ 0
      · exact Or.inr hb
      · exact Or.inl (if_neg hb)

theorem HoldsCluster.blankDeleted (h : HoldsCluster disk v content c) :
    HoldsCluster (fun n => (disk n).map HalOS.blankDeleted) v
      (fun n => HalOS.blankDeleted (content n)) c := by
  intro i hi
  have hsector := h i hi
  rw [diskSector] at hsector ⊢
  by_cases hlt : clusterStart v c + i < 2 ^ 32
  · rw [if_pos hlt] at hsector ⊢
    rw [hsector]
    rfl
  · rw [if_neg hlt] at hsector
    cases hsector

theorem LinksSurvive.blankDeleted (h : LinksSurvive disk v content fat chain) :
    LinksSurvive (fun n => (disk n).map HalOS.blankDeleted) v
      (fun n => HalOS.blankDeleted (content n)) fat chain := by
  have hslots : ∀ c, (∀ s ∈ clusterSlots v (fun n => HalOS.blankDeleted (content n)) c, s 0 ≠ 0) →
      ∀ s ∈ clusterSlots v content c, s 0 ≠ 0 := by
    intro c hall s hs
    have hmem : HalOS.blankDeleted s ∈
        clusterSlots v (fun n => HalOS.blankDeleted (content n)) c := by
      have := dirSlots_blankDeleted v content [c]
      rw [dirSlots, dirSlots, List.flatMap_singleton, List.flatMap_singleton] at this
      rw [this]
      exact List.mem_map_of_mem hs
    rw [← blankDeleted_zero s]
    exact hall _ hmem
  induction chain with
  | nil => trivial
  | cons c ds ih =>
      cases ds with
      | nil =>
          intro hall
          refine (h (hslots c hall)).imp_right fun hend bytes hbytes => ?_
          obtain ⟨m, hm, rfl⟩ := Option.map_eq_some_iff.mp hbytes
          rw [blankDeleted_zero]
          exact hend m hm
      | cons d ds =>
          intro hall
          obtain ⟨hd, hrest⟩ := h (hslots c hall)
          exact ⟨hd, ih hrest⟩

/-- A directory whose entries are gone through and plain is listed exactly; and one whose entries
are gone through is plain if it is listed exactly, whatever its deleted entries contain. -/
theorem listsExactly_iff_plain (hg : Geometry v fat)
    (hdir : Directory disk v fat content dir chain) (stale : Fat32DirList)
    (hlfn : lfn.length = 0) :
    (Reaches disk v fat content dir chain ∧ PlainSlots (dirSlots v content chain) →
      ListsExactly disk v ⟨lfn, fat32ListDir dir stale⟩ (dirSlots v content chain)) ∧
    (Reaches disk v fat content dir chain →
      (∀ disk' content', DeletedVary disk disk' → (∀ c ∈ chain, HoldsCluster disk' v content' c) →
        ListsExactly disk' v ⟨lfn, fat32ListDir dir stale⟩ (dirSlots v content' chain)) →
      PlainSlots (dirSlots v content chain)) := by
  constructor
  · exact fun ⟨hreach, hplain⟩ => hplain.listsExactly (hreach.readsOut hg hdir stale) hlfn
  intro hreach hall
  have hself : DeletedVary disk disk := by
    intro n
    cases disk n with
    | none => exact Or.inl ⟨rfl, rfl⟩
    | some m => exact Or.inr ⟨m, m, rfl, rfl, fun b => Or.inl rfl⟩
  have hfit := ((hall disk content hself hdir.holds).undeleted_short
    (hreach.readsOut hg hdir stale)).1
  refine ⟨fun s hs hdel => ?_, hfit⟩
  -- a deleted entry that is made short is one result too many
  have hholds : ∀ c ∈ chain, HoldsCluster (fun n => (disk n).map blankDeleted) v
      (fun n => blankDeleted (content n)) c := fun c hc => (hdir.holds c hc).blankDeleted
  have hexact := hall _ _ (deletedVary_blankDeleted disk) hholds
  have hread := Reaches.readsOut ⟨hreach.first, hreach.links.blankDeleted⟩ hg
    ⟨hdir.isDir, hdir.wellFormed, hdir.head, hholds⟩ stale
  have hmem : blankDeleted s ∈
      usedSlots (dirSlots v (fun n => blankDeleted (content n)) chain) := by
    rw [dirSlots_blankDeleted, usedSlots_map_blankDeleted]
    exact List.mem_map_of_mem hs
  have hattrib := (hexact.undeleted_short hread).2 _ hmem ((blankDeleted_zero s).trans hdel)
  have hblank : entryAttrib (blankDeleted s) = 0 := if_pos ⟨hdel, by decide⟩
  exact absurd (hblank.symm.trans hattrib) (by decide)

/-- A directory of one cluster, with one entry, whose name begins with this byte. -/
def sampleContent (first : UInt8) : ℕ → Memory := fun n b => if n = 2 ∧ b = 0 then first else 0

def sampleDrive (first : UInt8) : Disk := fun n => some (sampleContent first n.toNat)

def sampleDirectory : Fat32File where
  attrib := fat32IsDir
  cluster := 2
  size := 0

theorem geometry_sampleVolume : Geometry sampleVolume fun _ => 0x0FFFFFFF :=
  ⟨rfl, by decide, rfl⟩

theorem directory_sampleDirectory (first : UInt8) :
    Directory (sampleDrive first) sampleVolume (fun _ => 0x0FFFFFFF) (sampleContent first)
      sampleDirectory [2] where
  isDir := by decide
  wellFormed := .last ⟨by decide, by decide, by decide⟩ (by decide)
  head := rfl
  holds c hc i hi := by
    obtain rfl := List.mem_singleton.mp hc
    obtain rfl : i = 0 := Nat.lt_one_iff.mp hi
    rfl

theorem reaches_sampleDirectory (first : UInt8) :
    Reaches (sampleDrive first) sampleVolume (fun _ => 0x0FFFFFFF) (sampleContent first)
      sampleDirectory [2] where
  first := by decide
  links _ := Or.inl (by decide)

theorem usedSlots_sampleDirectory {first : UInt8} (h : first ≠ 0) :
    usedSlots (dirSlots sampleVolume (sampleContent first) [2]) =
      [clusterSlot sampleVolume (sampleContent first) 2 0] := by
  have hslots : dirSlots sampleVolume (sampleContent first) [2] =
      clusterSlot sampleVolume (sampleContent first) 2 0 ::
        clusterSlot sampleVolume (sampleContent first) 2 1 ::
          (List.range' 2 14).map (clusterSlot sampleVolume (sampleContent first) 2) := rfl
  have hfirst : clusterSlot sampleVolume (sampleContent first) 2 0 0 ≠ 0 := h
  have hsecond : clusterSlot sampleVolume (sampleContent first) 2 1 0 = 0 := rfl
  rw [hslots, usedSlots, List.takeWhile_cons_of_pos (by simpa using hfirst),
    List.takeWhile_cons_of_neg (by simpa using hsecond)]

theorem listsExactly_iff_plain_sampleDirectory :
    ListsExactly (sampleDrive 0x41) sampleVolume
      ⟨⟨fun _ => 0, 0⟩, fat32ListDir sampleDirectory ⟨7, 7, fun _ => 7, 7⟩⟩
      (dirSlots sampleVolume (sampleContent 0x41) [2]) :=
  (listsExactly_iff_plain geometry_sampleVolume (directory_sampleDirectory 0x41) _ rfl).1
    ⟨reaches_sampleDirectory 0x41, by
      rw [plain_iff, usedSlots_sampleDirectory (by decide)]
      exact ⟨fun s hs => by rw [List.mem_singleton.mp hs]; decide,
        fun h => absurd h (by decide), trivial⟩⟩

/-- The one entry of the directory is deleted, and listed. -/
theorem listsExactly_violated :
    ¬ ∀ disk v fat content dir chain, Geometry v fat →
      Directory disk v fat content dir chain → ∀ stale (lfn : LfnState), lfn.length = 0 →
      ListsExactly disk v ⟨lfn, fat32ListDir dir stale⟩ (dirSlots v content chain) := by
  intro h
  have hexact := h _ _ _ _ _ _ geometry_sampleVolume (directory_sampleDirectory 0xE5)
    ⟨7, 7, fun _ => 7, 7⟩ ⟨fun _ => 0, 0⟩ rfl
  have hread := (reaches_sampleDirectory 0xE5).readsOut geometry_sampleVolume
    (directory_sampleDirectory 0xE5) ⟨7, 7, fun _ => 7, 7⟩
  have hattrib := (hexact.undeleted_short hread).2
  rw [usedSlots_sampleDirectory (by decide)] at hattrib
  exact absurd (hattrib _ (List.mem_singleton_self _) rfl) (by decide)

end HalOS
