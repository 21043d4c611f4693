import HalOS.Fs.FatPath
import HalOS.Lib.Fuel

/-!
# Walks through Directories

Nothing but the chain of clusters moves a walk through a directory on, and the chain comes from the
disk. The walk ends at an entry that begins with a zero, in a sector that cannot be read, or at the
end of the chain; a chain that turns back on itself need have none of these.

## Main results

* `ends_iff_walkEnds`: a walk ends at one of these, or at what is looked for.
* `walksFinish_iff_walkEnds`: when the listing of a directory and the search for a path finish.
-/

namespace HalOS

open CString (Memory)
open Fuel (Finishes Stable Turn Ends Hits IsScan search finishes_bind_iff)
open Outcome (bind_eq_ok Avoids avoids_ok avoids_error)

/-! ### The slots of a chain -/

/-- Cluster number `k` of the chain that begins with `c`, as the driver follows it. -/
def chainCluster (fat : ℕ → UInt32) (c : UInt32) (k : ℕ) : UInt32 :=
  (fun c => fat c.toNat &&& 0xFFFFFF)^[k] c

/-- `entries_per_cluster`. -/
def entriesPerCluster (v : Fat32Volume) : ℕ := v.clusterSize.toNat / 32

/-- The cluster of the chain that slot `n` is in. If no entry fits a cluster, the walk goes to the
next one before each read. -/
def slotCluster (v : Fat32Volume) (n : ℕ) : ℕ :=
  if entriesPerCluster v = 0 then n + 1 else n / entriesPerCluster v

/-- The number of slot `n` in its cluster. -/
def slotEntry (v : Fat32Volume) (n : ℕ) : ℕ :=
  if entriesPerCluster v = 0 then 0 else n % entriesPerCluster v

/-- The sector that slot `n` is in. -/
def slotSector (v : Fat32Volume) (fat : ℕ → UInt32) (c : UInt32) (n : ℕ) : UInt32 :=
  clusterToSector v (chainCluster fat c (slotCluster v n)) + UInt32.ofNat (slotEntry v n / 16)

/-- Slot `n` as the walk finds it. The walk begins with the buffer on the stack as sector 0, and
reads that sector only when it comes back to it. -/
def slotSeen (disk : Disk) (v : Fat32Volume) (fat : ℕ → UInt32) (c : UInt32) (stack : Memory)
    (n : ℕ) : Option Memory :=
  (if ∀ m ≤ n, slotSector v fat c m = 0 then some stack else disk (slotSector v fat c n)).map
    fun bytes i => bytes (slotEntry v n % 16 * 32 + i)

/-- The chain is at its end before slot `n`. The cluster that it begins with is not asked. -/
def ChainOver (v : Fat32Volume) (fat : ℕ → UInt32) (c : UInt32) (n : ℕ) : Prop :=
  0 < slotCluster v n ∧ chainCluster fat c (slotCluster v n) = 0xFFFFFF

/-- The walk ends at slot `n`: the chain is at its end, the sector cannot be read, or the entry
begins with a zero. -/
def StopsAt (disk : Disk) (v : Fat32Volume) (fat : ℕ → UInt32) (c : UInt32) (stack : Memory)
    (n : ℕ) : Prop :=
  ChainOver v fat c n ∨ ∀ slot, slotSeen disk v fat c stack n = some slot → slot 0 = 0

/-- The `k` slots from number `m` on. -/
def slotsFrom (disk : Disk) (v : Fat32Volume) (fat : ℕ → UInt32) (c : UInt32) (stack : Memory)
    (m k : ℕ) : List Memory :=
  (List.range' m k).map fun n => (slotSeen disk v fat c stack n).getD fun _ => 0

/-- What comes of the entries one after the other, and what is kept. -/
def decodeRun : LfnState → List Memory → Except FatFault (List DirEntry × LfnState)
  | st, [] => .ok ([], st)
  | st, entry :: entries => do
      let (st, out) ← entryStep st entry
      let (rest, st) ← decodeRun st entries
      .ok (out.toList ++ rest, st)

/-- One of the entries is looked for, or overruns the buffer of the long name. -/
def DecodeEnds (hit : DirEntry → Prop) (lfn : LfnState) (entries : List Memory) : Prop :=
  (∃ e, decodeRun lfn entries = .error e) ∨
    ∃ results lfn', decodeRun lfn entries = .ok (results, lfn') ∧ ∃ out ∈ results, hit out

/-- The walk from cluster `c` on comes to a slot that ends it. -/
def WalkEnds (disk : Disk) (v : Fat32Volume) (fat : ℕ → UInt32) (hit : DirEntry → Prop)
    (c : UInt32) (stack : Memory) (lfn : LfnState) : Prop :=
  ∃ n, StopsAt disk v fat c stack n ∨ DecodeEnds hit lfn (slotsFrom disk v fat c stack 0 n)

/-! ### What one read does -/

/-- The list stands before slot `n`, and the walk has not ended before. -/
structure Before (disk : Disk) (v : Fat32Volume) (fat : ℕ → UInt32) (c : UInt32) (stack : Memory)
    (list : Fat32DirList) (n : ℕ) : Prop where
  position : n = 0 ∧ list.cluster = c ∧ list.entry = 0 ∨
    ∃ m, n = m + 1 ∧ list.cluster = chainCluster fat c (slotCluster v m) ∧
      list.entry = UInt32.ofNat (slotEntry v m + 1)
  buffer : (list.bufferedSector = 0 ∧ list.sectorBuffer = stack ∧
      ∀ m < n, slotSector v fat c m = 0) ∨
    (disk list.bufferedSector = some list.sectorBuffer ∧ ∃ m < n, slotSector v fat c m ≠ 0)
  goesOn : ∀ m < n, ¬ StopsAt disk v fat c stack m

variable {disk : Disk} {v : Fat32Volume} {fat : ℕ → UInt32} {c : UInt32} {stack : Memory}
  {list : Fat32DirList} {n : ℕ}

theorem chainCluster_succ (fat : ℕ → UInt32) (c : UInt32) (k : ℕ) :
    chainCluster fat c (k + 1) = fat (chainCluster fat c k).toNat &&& 0xFFFFFF :=
  Function.iterate_succ_apply' _ _ _

theorem entriesPerCluster_lt (v : Fat32Volume) : entriesPerCluster v < 2 ^ 27 := by
  have hlt := v.clusterSize.toNat_lt
  rw [entriesPerCluster]
  omega

theorem slotEntry_lt (v : Fat32Volume) (n : ℕ) : slotEntry v n < 2 ^ 27 := by
  have hlt := entriesPerCluster_lt v
  rw [slotEntry]
  split_ifs with hzero
  · exact Nat.two_pow_pos 27
  · exact (Nat.mod_lt n (Nat.pos_of_ne_zero hzero)).trans hlt

/-- The next slot is in the same cluster, or it is the first one of the next cluster. -/
theorem slot_succ (v : Fat32Volume) (n : ℕ) :
    (entriesPerCluster v ≤ slotEntry v n + 1 ∧ slotCluster v (n + 1) = slotCluster v n + 1 ∧
      slotEntry v (n + 1) = 0) ∨
    (slotEntry v n + 1 < entriesPerCluster v ∧ slotCluster v (n + 1) = slotCluster v n ∧
      slotEntry v (n + 1) = slotEntry v n + 1) := by
  rw [slotCluster, slotCluster, slotEntry, slotEntry]
  by_cases hzero : entriesPerCluster v = 0
  · simp [hzero]
  · simp only [if_neg hzero]
    generalize entriesPerCluster v = e at hzero ⊢
    have hpos := Nat.pos_of_ne_zero hzero
    have hlt := Nat.mod_lt n hpos
    have hdiv := Nat.div_add_mod n e
    rcases Nat.lt_or_ge (n % e + 1) e with hmore | hfull
    · refine Or.inr ⟨hmore, ?_⟩
      exact (Nat.div_mod_unique hpos).mpr ⟨by omega, hmore⟩
    · refine Or.inl ⟨hfull, ?_⟩
      refine (Nat.div_mod_unique hpos).mpr ⟨?_, hpos⟩
      rw [Nat.mul_succ]
      omega

/-- The list that the sector is chosen by. -/
theorem Before.readNextEntry_eq (h : Before disk v fat c stack list n) (hfat : v.fat = some fat) :
    (ChainOver v fat c n ∧ ∃ list', readNextEntry disk v list = .ok (none, list')) ∨
    (¬ ChainOver v fat c n ∧ readNextEntry disk v list = .ok (readEntry disk v { list with
      cluster := chainCluster fat c (slotCluster v n)
      entry := UInt32.ofNat (slotEntry v n) })) := by
  have hnext : ∀ d, nextCluster v d = .ok (fat d.toNat &&& 0xFFFFFF) := fun d => by
    rw [nextCluster, hfat]
    rfl
  have hper : (v.clusterSize / dirEntrySize).toNat = entriesPerCluster v := UInt32.toNat_div _ _
  have hlink : ∀ k, list.cluster = chainCluster fat c k →
      entriesPerCluster v ≤ list.entry.toNat → slotCluster v n = k + 1 → slotEntry v n = 0 →
      (ChainOver v fat c n ∧ ∃ list', readNextEntry disk v list = .ok (none, list')) ∨
      (¬ ChainOver v fat c n ∧ readNextEntry disk v list = .ok (readEntry disk v { list with
        cluster := chainCluster fat c (slotCluster v n)
        entry := UInt32.ofNat (slotEntry v n) })) := by
    intro k hk hfull hcluster hentry
    rw [readNextEntry, if_pos (UInt32.le_iff_toNat_le.mpr (hper ▸ hfull)), hnext, hk,
      ← chainCluster_succ, ChainOver, hcluster, hentry]
    by_cases hend : chainCluster fat c (k + 1) = 0xFFFFFF
    · exact Or.inl ⟨⟨Nat.succ_pos k, hend⟩, _, if_pos hend⟩
    · exact Or.inr ⟨fun hover => hend hover.2, if_neg hend⟩
  have hstay : ∀ k e, list.cluster = chainCluster fat c k → list.entry = UInt32.ofNat e →
      e < entriesPerCluster v → slotCluster v n = k → slotEntry v n = e →
      readNextEntry disk v list = .ok (readEntry disk v { list with
        cluster := chainCluster fat c (slotCluster v n)
        entry := UInt32.ofNat (slotEntry v n) }) := by
    intro k e hk he hlt hcluster hentry
    have hnot : ¬ v.clusterSize / dirEntrySize ≤ list.entry := by
      have hbound := entriesPerCluster_lt v
      have htoNat : (UInt32.ofNat e).toNat = e :=
        UInt32.toNat_ofNat_of_lt' (by change e < 2 ^ 32; omega)
      rw [UInt32.le_iff_toNat_le, hper, he, htoNat]
      omega
    rw [readNextEntry, if_neg hnot, hcluster, hentry, ← hk, ← he]
  rcases h.position with ⟨rfl, hcluster, hentry⟩ | ⟨m, rfl, hcluster, hentry⟩
  · rcases Nat.eq_zero_or_pos (entriesPerCluster v) with hzero | hpos
    · refine hlink 0 hcluster (by omega) ?_ ?_
      · rw [slotCluster, if_pos hzero]
      · rw [slotEntry, if_pos hzero]
    · have hfirst : slotCluster v 0 = 0 := by rw [slotCluster, if_neg hpos.ne', Nat.zero_div]
      refine Or.inr ⟨fun hover => (hover.1.trans_eq hfirst).false,
        hstay 0 0 hcluster hentry hpos hfirst ?_⟩
      rw [slotEntry, if_neg hpos.ne', Nat.zero_mod]
  · have htoNat : list.entry.toNat = slotEntry v m + 1 := by
      have hbound := slotEntry_lt v m
      rw [hentry]
      exact UInt32.toNat_ofNat_of_lt' (by change slotEntry v m + 1 < 2 ^ 32; omega)
    rcases slot_succ v m with ⟨hfull, hc, he⟩ | ⟨hmore, hc, he⟩
    · exact hlink _ hcluster (htoNat ▸ hfull) hc he
    · refine Or.inr ⟨fun hover => h.goesOn m (Nat.lt_succ_self m) (Or.inl ?_),
        hstay _ _ hcluster hentry hmore hc he⟩
      rwa [ChainOver, hc] at hover

/-- The sector is in the buffer, or it is read into it. -/
theorem Before.sector (h : Before disk v fat c stack list n) :
    (if list.bufferedSector ≠ slotSector v fat c n then disk (slotSector v fat c n)
      else some list.sectorBuffer) =
    if ∀ m ≤ n, slotSector v fat c m = 0 then some stack else disk (slotSector v fat c n) := by
  rcases h.buffer with ⟨hsector, hstack, hbefore⟩ | ⟨hread, m, hm, hne⟩
  · by_cases hzero : slotSector v fat c n = 0
    · have hall : ∀ m ≤ n, slotSector v fat c m = 0 := fun m hm =>
        (Nat.lt_or_eq_of_le hm).elim (hbefore m) fun heq => heq ▸ hzero
      rw [if_pos hall, if_neg (not_not_intro (hsector.trans hzero.symm)), hstack]
    · rw [if_pos fun heq => hzero (heq.symm.trans hsector), if_neg fun hall =>
        hzero (hall n (Nat.le_refl n))]
  · rw [if_neg (c := ∀ m ≤ n, slotSector v fat c m = 0) fun hall => hne (hall m hm.le)]
    by_cases hsame : list.bufferedSector = slotSector v fat c n
    · rw [if_neg (not_not_intro hsame), ← hsame, hread]
    · rw [if_pos hsame]

/-- The end of `read_next_entry` on slot `n`. -/
theorem readEntry_slot (disk : Disk) (v : Fat32Volume) (fat : ℕ → UInt32) (c : UInt32)
    (list : Fat32DirList) (n : ℕ) :
    readEntry disk v { list with
        cluster := chainCluster fat c (slotCluster v n)
        entry := UInt32.ofNat (slotEntry v n) } =
      match (if list.bufferedSector ≠ slotSector v fat c n then disk (slotSector v fat c n)
        else some list.sectorBuffer) with
      | none => (none, { list with
          cluster := chainCluster fat c (slotCluster v n)
          entry := UInt32.ofNat (slotEntry v n) })
      | some bytes =>
          let entry : Memory := fun i => bytes (slotEntry v n % 16 * 32 + i)
          (if entry 0 = 0 then none else some entry, {
            cluster := chainCluster fat c (slotCluster v n)
            entry := UInt32.ofNat (slotEntry v n + 1)
            sectorBuffer := bytes
            bufferedSector := slotSector v fat c n }) := by
  have hbound := slotEntry_lt v n
  have htoNat : (UInt32.ofNat (slotEntry v n)).toNat = slotEntry v n :=
    UInt32.toNat_ofNat_of_lt' (by change _ < 2 ^ 32; omega)
  have hsector : clusterToSector v (chainCluster fat c (slotCluster v n)) +
      UInt32.ofNat (slotEntry v n) / (sectorSize / dirEntrySize) = slotSector v fat c n := by
    rw [slotSector]
    congr 1
    have hsmall : (UInt32.ofNat (slotEntry v n / 16)).toNat = slotEntry v n / 16 :=
      UInt32.toNat_ofNat_of_lt' (by change _ < 2 ^ 32; omega)
    rw [← UInt32.toNat_inj, UInt32.toNat_div, htoNat, hsmall]
    rfl
  have hstart : (UInt32.ofNat (slotEntry v n) % (sectorSize / dirEntrySize)).toNat *
      dirEntrySize.toNat = slotEntry v n % 16 * 32 := by
    rw [UInt32.toNat_mod, htoNat]
    rfl
  have hsucc : UInt32.ofNat (slotEntry v n) + 1 = UInt32.ofNat (slotEntry v n + 1) :=
    (UInt32.ofNat_add _ 1).symm
  rw [readEntry]
  simp only [hsector]
  by_cases hsame : list.bufferedSector = slotSector v fat c n
  · simp only [hsame, ne_eq, not_true_eq_false, if_false, hstart, hsucc]
    split_ifs <;> rfl
  · simp only [hsame, ne_eq, not_false_eq_true, if_true]
    cases disk (slotSector v fat c n) with
    | none => rfl
    | some bytes =>
        simp only [Option.map_some, hstart, hsucc]
        split_ifs <;> rfl

/-- **One read** ends the walk if the slot does, and gives the entry otherwise. -/
theorem Before.turn (h : Before disk v fat c stack list n) (hfat : v.fat = some fat) :
    (StopsAt disk v fat c stack n ∧ ∃ list', readNextEntry disk v list = .ok (none, list')) ∨
    (¬ StopsAt disk v fat c stack n ∧ ∃ slot mid, slotSeen disk v fat c stack n = some slot ∧
      readNextEntry disk v list = .ok (some slot, mid) ∧
      Before disk v fat c stack mid (n + 1)) := by
  rcases h.readNextEntry_eq hfat with ⟨hover, hread⟩ | ⟨hover, hread⟩
  · exact Or.inl ⟨Or.inl hover, hread⟩
  · rw [hread, readEntry_slot]
    have hseen := h.sector
    cases hbytes : (if list.bufferedSector ≠ slotSector v fat c n then
        disk (slotSector v fat c n) else some list.sectorBuffer) with
    | none =>
        refine Or.inl ⟨Or.inr fun slot hslot => ?_, _, rfl⟩
        rw [slotSeen, ← hseen, hbytes] at hslot
        cases hslot
    | some bytes =>
        have hslot : slotSeen disk v fat c stack n =
            some fun i => bytes (slotEntry v n % 16 * 32 + i) := by
          rw [slotSeen, ← hseen, hbytes]
          rfl
        dsimp only
        by_cases hzero : bytes (slotEntry v n % 16 * 32 + 0) = 0
        · refine Or.inl ⟨Or.inr fun slot heq => ?_, _, by rw [if_pos hzero]⟩
          rw [hslot] at heq
          cases heq
          exact hzero
        · have hopen : ¬ StopsAt disk v fat c stack n := by
            rintro (hchain | hall)
            · exact hover hchain
            · exact hzero (hall _ hslot)
          refine Or.inr ⟨hopen, _, _, hslot, by rw [if_neg hzero], Or.inr ⟨n, rfl, rfl, rfl⟩, ?_,
            fun m hm => (Nat.lt_succ_iff_lt_or_eq.mp hm).elim (h.goesOn m) fun heq =>
              heq ▸ hopen⟩
          rw [hseen] at hbytes
          split_ifs at hbytes with hall
          · exact Or.inl ⟨hall n (Nat.le_refl n), (Option.some.inj hbytes).symm,
              fun m hm => hall m (Nat.lt_succ_iff.mp hm)⟩
          · obtain ⟨m, hm, hne⟩ : ∃ m ≤ n, slotSector v fat c m ≠ 0 := by simpa using hall
            exact Or.inr ⟨hbytes, m, Nat.lt_succ_iff.mpr hm, hne⟩

/-- An entry that is read is the next one. -/
theorem Before.of_read (h : Before disk v fat c stack list n) (hfat : v.fat = some fat)
    {entry : Memory} {mid : Fat32DirList}
    (hread : readNextEntry disk v list = .ok (some entry, mid)) :
    ¬ StopsAt disk v fat c stack n ∧ slotSeen disk v fat c stack n = some entry ∧
      Before disk v fat c stack mid (n + 1) := by
  rcases h.turn hfat with ⟨-, list', hnone⟩ | ⟨hopen, slot, mid', hslot, hsome, hmid⟩
  · cases hnone.symm.trans hread
  · cases hsome.symm.trans hread
    exact ⟨hopen, hslot, hmid⟩

/-! ### The walk as a scan -/

/-- A turn of the loop of `fat32_next_dir_entry`. -/
def dirTurn (disk : Disk) (v : Fat32Volume) (st : DirState) : Turn DirState DirEntry :=
  match readNextEntry disk v st.list with
  | .ok (some entry, list) =>
      match entryStep st.lfn entry with
      | .ok (lfn, none) => .skip ⟨lfn, list⟩
      | .ok (lfn, some out) => .yield out ⟨lfn, list⟩
      | .error _ => .stop
  | _ => .stop

section Turns

variable {lfn lfn' : LfnState} {mid : Fat32DirList} {entry : Memory}

theorem dirTurn_none (hread : readNextEntry disk v list = .ok (none, mid)) :
    dirTurn disk v ⟨lfn, list⟩ = .stop := by
  simp only [dirTurn, hread]

theorem dirTurn_fault {e : FatFault} (hread : readNextEntry disk v list = .ok (some entry, mid))
    (hstep : entryStep lfn entry = .error e) : dirTurn disk v ⟨lfn, list⟩ = .stop := by
  simp only [dirTurn, hread, hstep]

theorem dirTurn_skip (hread : readNextEntry disk v list = .ok (some entry, mid))
    (hstep : entryStep lfn entry = .ok (lfn', none)) :
    dirTurn disk v ⟨lfn, list⟩ = .skip ⟨lfn', mid⟩ := by
  simp only [dirTurn, hread, hstep]

theorem dirTurn_found {out : DirEntry} (hread : readNextEntry disk v list = .ok (some entry, mid))
    (hstep : entryStep lfn entry = .ok (lfn', some out)) :
    dirTurn disk v ⟨lfn, list⟩ = .yield out ⟨lfn', mid⟩ := by
  simp only [dirTurn, hread, hstep]

end Turns

theorem dirTurn_eq_skip {st st' : DirState} (h : dirTurn disk v st = .skip st') :
    ∃ entry, readNextEntry disk v st.list = .ok (some entry, st'.list) ∧
      entryStep st.lfn entry = .ok (st'.lfn, none) := by
  rw [dirTurn] at h
  split at h
  · split at h
    · cases h
      exact ⟨_, ‹_›, ‹_›⟩
    · cases h
    · cases h
  · cases h

theorem dirTurn_eq_yield {st st' : DirState} {out : DirEntry}
    (h : dirTurn disk v st = .yield out st') :
    ∃ entry, readNextEntry disk v st.list = .ok (some entry, st'.list) ∧
      entryStep st.lfn entry = .ok (st'.lfn, some out) := by
  rw [dirTurn] at h
  split at h
  · split at h
    · cases h
    · cases h
      exact ⟨_, ‹_›, ‹_›⟩
    · cases h
  · cases h

theorem avoids_readNextEntry (disk : Disk) (v : Fat32Volume) (list : Fat32DirList) :
    Avoids .outOfFuel (readNextEntry disk v list) := by
  rw [readNextEntry]
  split_ifs
  · refine Avoids.bind ?_ fun next _ => ?_
    · rw [nextCluster]
      cases v.fat with
      | none => exact avoids_error (by rintro ⟨⟩)
      | some fat => exact avoids_ok _ _
    · split_ifs
      · exact avoids_ok _ _
      · exact avoids_ok _ _
  · exact avoids_ok _ _

theorem avoids_parseLfnChars (lfn : Memory) (n i : ℕ) (buffer : Memory) :
    Avoids .outOfFuel (parseLfnChars lfn n i buffer) := by
  induction n generalizing i buffer with
  | zero => exact avoids_ok _ _
  | succ n ih =>
      rw [parseLfnChars]
      dsimp only
      split_ifs
      · exact avoids_ok _ _
      · exact avoids_error (by rintro ⟨⟩)
      · exact ih _ _

theorem avoids_joinLfn (buffer : Memory) (parts : ℕ) :
    Avoids .outOfFuel (joinLfn buffer parts) := by
  rw [joinLfn.eq_def]
  split_ifs
  · exact avoids_error (by rintro ⟨⟩)
  · exact avoids_ok _ _

theorem avoids_entryStep (st : LfnState) (entry : Memory) :
    Avoids .outOfFuel (entryStep st entry) := by
  rw [entryStep]
  by_cases hlfn : entryAttrib entry = dirEntryAttribLfn
  · rw [if_pos hlfn]
    by_cases hseq : lfnSequence entry = 0
    · simp only [hseq, if_true]
      exact avoids_ok _ _
    · simp only [hseq, if_false]
      exact (avoids_parseLfnChars _ _ _ _).bind fun _ _ => avoids_ok _ _
  · rw [if_neg hlfn]
    by_cases hlen : 0 < st.length
    · rw [if_pos hlen]
      exact (avoids_joinLfn _ _).bind fun _ _ => avoids_ok _ _
    · rw [if_neg hlen]
      exact avoids_ok _ _

/-- `fat32_next_dir_entry` is a scan. -/
theorem isScan_fat32NextDirEntry (disk : Disk) (v : Fat32Volume) :
    IsScan .outOfFuel (dirTurn disk v) (fat32NextDirEntry disk v) where
  zero _ := rfl
  stop st hturn := by
    cases hread : readNextEntry disk v st.list with
    | error e =>
        refine Or.inl ⟨e, fun he => avoids_readNextEntry disk v st.list (he ▸ hread),
          fun k => ?_⟩
        rw [fat32NextDirEntry]
        dsimp only
        rw [hread]
        rfl
    | ok r =>
        obtain ⟨entry, list⟩ := r
        cases entry with
        | none => exact Or.inr ⟨_, fat32NextDirEntry_none hread⟩
        | some entry =>
            cases hstep : entryStep st.lfn entry with
            | error e =>
                exact Or.inl ⟨e, fun he => avoids_entryStep _ _ (he ▸ hstep),
                  fat32NextDirEntry_fault hread hstep⟩
            | ok r =>
                obtain ⟨lfn, out⟩ := r
                cases out with
                | none => cases hturn.symm.trans (dirTurn_skip hread hstep)
                | some out => cases hturn.symm.trans (dirTurn_found hread hstep)
  skip st st' hturn k := by
    obtain ⟨entry, hread, hstep⟩ := dirTurn_eq_skip hturn
    exact fat32NextDirEntry_skip hread hstep k
  yields st out st' hturn k := by
    obtain ⟨entry, hread, hstep⟩ := dirTurn_eq_yield hturn
    exact fat32NextDirEntry_found hread hstep k

/-! ### Where the scan ends -/

theorem slotsFrom_succ (disk : Disk) (v : Fat32Volume) (fat : ℕ → UInt32) (c : UInt32)
    (stack : Memory) (m k : ℕ) :
    slotsFrom disk v fat c stack m (k + 1) =
      (slotSeen disk v fat c stack m).getD (fun _ => 0) ::
        slotsFrom disk v fat c stack (m + 1) k := by
  rw [slotsFrom, List.range'_succ, List.map_cons, slotsFrom]

/-- What comes of an entry stands before the rest. -/
theorem decodeEnds_cons {hit : DirEntry → Prop} {lfn lfn' : LfnState} {entry : Memory}
    {entries : List Memory} {out : Option DirEntry} (h : entryStep lfn entry = .ok (lfn', out)) :
    DecodeEnds hit lfn (entry :: entries) ↔
      DecodeEnds hit lfn' entries ∨
        (∃ found ∈ out, hit found) ∧ ∃ r, decodeRun lfn' entries = .ok r := by
  rw [DecodeEnds, DecodeEnds, decodeRun, h]
  change (∃ e, (decodeRun lfn' entries >>= _) = _) ∨
    (∃ results st, (decodeRun lfn' entries >>= _) = _ ∧ _) ↔ _
  cases decodeRun lfn' entries with
  | error e => simp [bind, Except.bind]
  | ok r =>
      have hmem : (∃ found ∈ out.toList ++ r.1, hit found) ↔
          (∃ found ∈ r.1, hit found) ∨ ∃ found ∈ out, hit found := by
        simp only [List.mem_append, Option.mem_toList, or_and_right, exists_or]
        exact or_comm
      simpa [bind, Except.bind, Prod.ext_iff] using hmem

/-- An entry that nothing comes of makes no difference. -/
theorem decodeEnds_skip {hit : DirEntry → Prop} {lfn lfn' : LfnState} {entry : Memory}
    {entries : List Memory} (h : entryStep lfn entry = .ok (lfn', none)) :
    DecodeEnds hit lfn (entry :: entries) ↔ DecodeEnds hit lfn' entries := by
  rw [decodeEnds_cons h]
  simp

/-- One that something comes of is looked for, or makes no difference. -/
theorem decodeEnds_yield {hit : DirEntry → Prop} {lfn lfn' : LfnState} {entry : Memory}
    {entries : List Memory} {out : DirEntry} (h : entryStep lfn entry = .ok (lfn', some out)) :
    DecodeEnds hit lfn (entry :: entries) ↔
      DecodeEnds hit lfn' entries ∨ hit out ∧ ∃ r, decodeRun lfn' entries = .ok r := by
  rw [decodeEnds_cons h]
  simp

/-- The scan from slot `m` on. -/
theorem Before.ends_iff {hit : DirEntry → Prop} {lfn : LfnState} {m : ℕ}
    (h : Before disk v fat c stack list m) (hfat : v.fat = some fat) :
    Ends (dirTurn disk v) hit ⟨lfn, list⟩ ↔
      ∃ k, StopsAt disk v fat c stack (m + k) ∨
        DecodeEnds hit lfn (slotsFrom disk v fat c stack m k) := by
  constructor
  · intro hends
    generalize hst : (⟨lfn, list⟩ : DirState) = st at hends
    induction hends generalizing lfn list m with
    | @stop st hturn =>
        subst hst
        rcases h.turn hfat with ⟨hstops, -⟩ | ⟨-, slot, mid, hslot, hread, -⟩
        · exact ⟨0, Or.inl hstops⟩
        · refine ⟨1, Or.inr (Or.inl ?_)⟩
          rw [slotsFrom_succ, hslot, Option.getD_some, decodeRun]
          cases hstep : entryStep lfn slot with
          | error e => exact ⟨e, rfl⟩
          | ok r =>
              obtain ⟨lfn', out⟩ := r
              cases out with
              | none => cases hturn.symm.trans (dirTurn_skip hread hstep)
              | some out => cases hturn.symm.trans (dirTurn_found hread hstep)
    | @skip st st' hturn _ ih =>
        subst hst
        obtain ⟨entry, hentry, hstep⟩ := dirTurn_eq_skip hturn
        obtain ⟨-, hslot, hmid⟩ := h.of_read hfat hentry
        obtain ⟨k, hk⟩ := ih hmid rfl
        refine ⟨k + 1, hk.imp (fun hstops => ?_) fun hdecode => ?_⟩
        · rwa [Nat.add_right_comm] at hstops
        · rw [slotsFrom_succ, hslot, Option.getD_some]
          exact (decodeEnds_skip hstep).mpr hdecode
    | @hit st st' out hturn hhit =>
        subst hst
        obtain ⟨entry, hentry, hstep⟩ := dirTurn_eq_yield hturn
        obtain ⟨-, hslot, -⟩ := h.of_read hfat hentry
        refine ⟨1, Or.inr ?_⟩
        rw [slotsFrom_succ, hslot, Option.getD_some]
        exact (decodeEnds_yield hstep).mpr (Or.inr ⟨hhit, _, rfl⟩)
    | @next st st' out hturn _ ih =>
        subst hst
        obtain ⟨entry, hentry, hstep⟩ := dirTurn_eq_yield hturn
        obtain ⟨-, hslot, hmid⟩ := h.of_read hfat hentry
        obtain ⟨k, hk⟩ := ih hmid rfl
        refine ⟨k + 1, hk.imp (fun hstops => ?_) fun hdecode => ?_⟩
        · rwa [Nat.add_right_comm] at hstops
        · rw [slotsFrom_succ, hslot, Option.getD_some]
          exact (decodeEnds_yield hstep).mpr (Or.inl hdecode)
  · rintro ⟨k, hk⟩
    induction k generalizing lfn list m with
    | zero =>
        rcases hk with hstops | ⟨e, he⟩ | ⟨results, lfn', heq, out, hout, -⟩
        · rcases h.turn hfat with ⟨-, list', hread⟩ | ⟨hopen, -⟩
          · exact .stop (dirTurn_none hread)
          · exact absurd hstops hopen
        · cases he
        · cases heq
          cases hout
    | succ k ih =>
        rcases h.turn hfat with ⟨-, list', hread⟩ | ⟨hopen, slot, mid, hslot, hread, hmid⟩
        · exact .stop (dirTurn_none hread)
        · rw [slotsFrom_succ, hslot, Option.getD_some, ← Nat.add_assoc, Nat.add_right_comm] at hk
          cases hstep : entryStep lfn slot with
          | error e => exact .stop (dirTurn_fault hread hstep)
          | ok r =>
              obtain ⟨lfn', out⟩ := r
              cases out with
              | none =>
                  exact .skip (dirTurn_skip hread hstep)
                    (ih hmid (hk.imp_right (decodeEnds_skip hstep).mp))
              | some out =>
                  have hturn := dirTurn_found hread hstep
                  rcases hk with hstops | hdecode
                  · exact .next hturn (ih hmid (Or.inl hstops))
                  · rcases (decodeEnds_yield hstep).mp hdecode with hrest | ⟨hhit, -⟩
                    · exact .next hturn (ih hmid (Or.inr hrest))
                    · exact .hit hturn hhit

/-- A walk begins before slot 0. -/
theorem before_zero (disk : Disk) (v : Fat32Volume) (fat : ℕ → UInt32) {dir : Fat32File}
    (hdir : dir.attrib &&& fat32IsDir ≠ 0) (stale : Fat32DirList) :
    Before disk v fat dir.cluster stale.sectorBuffer (fat32ListDir dir stale) 0 where
  position := by
    rw [fat32ListDir, if_neg hdir]
    exact Or.inl ⟨rfl, rfl, rfl⟩
  buffer := by
    rw [fat32ListDir, if_neg hdir]
    exact Or.inl ⟨rfl, rfl, fun m hm => absurd hm (Nat.not_lt_zero m)⟩
  goesOn m hm := absurd hm (Nat.not_lt_zero m)

/-- **A walk** from the first cluster of a directory on ends where `WalkEnds` says. -/
theorem ends_iff_walkEnds {hit : DirEntry → Prop} {lfn : LfnState} (hfat : v.fat = some fat)
    {dir : Fat32File} (hdir : dir.attrib &&& fat32IsDir ≠ 0) (stale : Fat32DirList) :
    Ends (dirTurn disk v) hit ⟨lfn, fat32ListDir dir stale⟩ ↔
      WalkEnds disk v fat hit dir.cluster stale.sectorBuffer lfn := by
  rw [(before_zero disk v fat hdir stale).ends_iff hfat, WalkEnds]
  simp only [Nat.zero_add]

/-! ### What a search finds -/

/-- The first of the entries from slot `m` on that is looked for, and what is kept behind it. -/
def FirstFound (disk : Disk) (v : Fat32Volume) (fat : ℕ → UInt32) (hit : DirEntry → Prop)
    (c : UInt32) (stack : Memory) (m : ℕ) (lfn : LfnState) (out : DirEntry) (lfn' : LfnState) :
    Prop :=
  ∃ k results st slot, (∀ i ≤ k, ¬ StopsAt disk v fat c stack (m + i)) ∧
    decodeRun lfn (slotsFrom disk v fat c stack m k) = .ok (results, st) ∧
    (∀ other ∈ results, ¬ hit other) ∧ slotSeen disk v fat c stack (m + k) = some slot ∧
    entryStep st slot = .ok (lfn', some out) ∧ hit out

theorem decodeRun_cons_eq_ok {lfn st : LfnState} {entry : Memory} {entries : List Memory}
    {results : List DirEntry} :
    decodeRun lfn (entry :: entries) = .ok (results, st) ↔
      ∃ lfn' out rest, entryStep lfn entry = .ok (lfn', out) ∧
        decodeRun lfn' entries = .ok (rest, st) ∧ results = out.toList ++ rest := by
  rw [decodeRun, bind_eq_ok]
  constructor
  · rintro ⟨⟨lfn', out⟩, hstep, h⟩
    obtain ⟨⟨rest, st'⟩, hrest, h⟩ := bind_eq_ok.mp h
    cases h
    exact ⟨lfn', out, rest, hstep, hrest, rfl⟩
  · rintro ⟨lfn', out, rest, hstep, hrest, rfl⟩
    exact ⟨(lfn', out), hstep, bind_eq_ok.mpr ⟨(rest, st), hrest, rfl⟩⟩

/-- Passing over an entry. -/
theorem FirstFound.cons {hit : DirEntry → Prop} {lfn lfn₁ lfn' : LfnState} {m : ℕ}
    {out : DirEntry} {slot : Memory} {passed : Option DirEntry}
    (h : FirstFound disk v fat hit c stack (m + 1) lfn₁ out lfn')
    (hopen : ¬ StopsAt disk v fat c stack m) (hslot : slotSeen disk v fat c stack m = some slot)
    (hstep : entryStep lfn slot = .ok (lfn₁, passed)) (hpassed : ∀ other ∈ passed, ¬ hit other) :
    FirstFound disk v fat hit c stack m lfn out lfn' := by
  obtain ⟨k, results, st, last, hgo, hdecode, hnone, hlast, hfound, hhit⟩ := h
  refine ⟨k + 1, passed.toList ++ results, st, last, fun i hi => ?_, ?_, fun other hother => ?_,
    ?_, hfound, hhit⟩
  · cases i with
    | zero => exact hopen
    | succ i =>
        have hrest := hgo i (Nat.le_of_succ_le_succ hi)
        rwa [Nat.add_assoc, Nat.add_comm 1 i] at hrest
  · rw [slotsFrom_succ, hslot, Option.getD_some]
    exact decodeRun_cons_eq_ok.mpr ⟨lfn₁, passed, results, hstep, hdecode, rfl⟩
  · rcases List.mem_append.mp hother with hfirst | hrest
    · exact hpassed other (Option.mem_toList.mp hfirst)
    · exact hnone other hrest
  · rwa [Nat.add_assoc, Nat.add_comm 1 k] at hlast

/-- The first hit of the scan from slot `m` on. -/
theorem Before.hits_iff {hit : DirEntry → Prop} {lfn lfn' : LfnState} {m : ℕ} {out : DirEntry}
    (h : Before disk v fat c stack list m) (hfat : v.fat = some fat) :
    (∃ list', Hits (dirTurn disk v) hit ⟨lfn, list⟩ out ⟨lfn', list'⟩) ↔
      FirstFound disk v fat hit c stack m lfn out lfn' := by
  constructor
  · rintro ⟨list', hhits⟩
    generalize hst : (⟨lfn, list⟩ : DirState) = st at hhits
    generalize hst' : (⟨lfn', list'⟩ : DirState) = st' at hhits
    induction hhits generalizing lfn list m with
    | @hit st st' out hturn hhit =>
        subst hst hst'
        obtain ⟨entry, hentry, hstep⟩ := dirTurn_eq_yield hturn
        obtain ⟨hopen, hslot, -⟩ := h.of_read hfat hentry
        refine ⟨0, [], lfn, entry, fun i hi => ?_, rfl, nofun, hslot, hstep, hhit⟩
        rwa [Nat.le_zero.mp hi]
    | @skip st mid t out hturn _ ih =>
        subst hst
        obtain ⟨entry, hentry, hstep⟩ := dirTurn_eq_skip hturn
        obtain ⟨hopen, hslot, hmid⟩ := h.of_read hfat hentry
        exact (ih hmid rfl hst').cons hopen hslot hstep nofun
    | @next st mid t out passed hturn hnot _ ih =>
        subst hst
        obtain ⟨entry, hentry, hstep⟩ := dirTurn_eq_yield hturn
        obtain ⟨hopen, hslot, hmid⟩ := h.of_read hfat hentry
        refine (ih hmid rfl hst').cons hopen hslot hstep fun other hother => ?_
        cases hother
        exact hnot
  · rintro ⟨k, results, st, last, hgo, hdecode, hnone, hlast, hfound, hhit⟩
    induction k generalizing lfn list m results with
    | zero =>
        cases hdecode
        rcases h.turn hfat with ⟨hstops, -⟩ | ⟨-, slot, mid, hslot, hread, -⟩
        · exact absurd hstops (hgo 0 (Nat.le_refl 0))
        · cases hslot.symm.trans hlast
          exact ⟨mid, .hit (dirTurn_found hread hfound) hhit⟩
    | succ k ih =>
        rcases h.turn hfat with ⟨hstops, -⟩ | ⟨-, slot, mid, hslot, hread, hmid⟩
        · exact absurd hstops (hgo 0 (Nat.zero_le _))
        · rw [slotsFrom_succ, hslot, Option.getD_some] at hdecode
          obtain ⟨lfn₁, passed, rest, hstep, hrest, rfl⟩ := decodeRun_cons_eq_ok.mp hdecode
          have hgo' : ∀ i ≤ k, ¬ StopsAt disk v fat c stack (m + 1 + i) := fun i hi => by
            rw [Nat.add_assoc, Nat.add_comm 1 i]
            exact hgo (i + 1) (Nat.succ_le_succ hi)
          rw [← Nat.add_assoc, Nat.add_right_comm] at hlast
          obtain ⟨list', hhits⟩ := ih hmid rest hgo' hrest
            (fun other hother => hnone other (List.mem_append_right _ hother)) hlast
          cases passed with
          | none => exact ⟨list', .skip (dirTurn_skip hread hstep) hhits⟩
          | some passed =>
              exact ⟨list', .next (dirTurn_found hread hstep) (hnone passed List.mem_cons_self)
                hhits⟩

/-! ### The loops -/

/-- `while (fat32_next_dir_entry(…))`: what a directory lists. -/
def listEntries (disk : Disk) (v : Fat32Volume) : ℕ → DirState → Except FatFault (List DirEntry)
  | 0, _ => .error .outOfFuel
  | fuel + 1, st => do
      let (out, st) ← fat32NextDirEntry disk v (fuel + 1) st
      match out with
      | none => .ok []
      | some out => do
          let rest ← listEntries disk v fuel st
          .ok (out :: rest)

/-- The listing looks for nothing. -/
theorem listEntries_eq_error_iff (fuel : ℕ) (st : DirState) (e : FatFault) :
    listEntries disk v fuel st = .error e ↔
      search .outOfFuel (fat32NextDirEntry disk v) (fun _ => False) fuel st = .error e := by
  induction fuel generalizing st with
  | zero =>
      rw [listEntries, search]
      simp
  | succ fuel ih =>
      cases hcall : fat32NextDirEntry disk v (fuel + 1) st with
      | error e =>
          rw [listEntries, hcall, Fuel.search_fault hcall]
          simp [bind, Except.bind]
      | ok r =>
          obtain ⟨out, st'⟩ := r
          cases out with
          | none =>
              rw [listEntries, hcall, Fuel.search_none hcall]
              simp [bind, Except.bind]
          | some out =>
              rw [listEntries, hcall, Fuel.search_next hcall not_false, ← ih]
              change (listEntries disk v fuel st' >>= _) = _ ↔ _
              cases listEntries disk v fuel st' with
              | error e => simp [bind, Except.bind]
              | ok rest => simp [bind, Except.bind]

/-- **Listings.** -/
theorem finishes_listEntries_iff (hfat : v.fat = some fat) {dir : Fat32File}
    (hdir : dir.attrib &&& fat32IsDir ≠ 0) (stale : Fat32DirList) (lfn : LfnState) :
    Finishes .outOfFuel (fun fuel => listEntries disk v fuel ⟨lfn, fat32ListDir dir stale⟩) ↔
      WalkEnds disk v fat (fun _ => False) dir.cluster stale.sectorBuffer lfn := by
  rw [← ends_iff_walkEnds hfat hdir stale,
    ← (isScan_fat32NextDirEntry disk v).finishes_search_iff]
  exact exists_congr fun fuel => not_congr (listEntries_eq_error_iff fuel _ _)

/-- An entry with this name, up to case. -/
def Named (component : List UInt8) (out : DirEntry) : Prop :=
  fat32Strcasecmp out.name (component.map CString.toupper) = 0

instance (component : List UInt8) : DecidablePred (Named component) :=
  fun out => inferInstanceAs (Decidable (fat32Strcasecmp out.name _ = 0))

/-- The search in a directory looks for a name. -/
theorem findEntry_eq_search (component : List UInt8) (fuel : ℕ) (st : DirState) :
    findEntry disk v (component.map CString.toupper) fuel st =
      (search .outOfFuel (fat32NextDirEntry disk v) (Named component) fuel st).map
        fun r => (r.1.map DirEntry.file, r.2.lfn) := by
  induction fuel generalizing st with
  | zero => rfl
  | succ fuel ih =>
      rw [findEntry, search]
      cases fat32NextDirEntry disk v (fuel + 1) st with
      | error e => rfl
      | ok r =>
          obtain ⟨out, st'⟩ := r
          cases out with
          | none => rfl
          | some out =>
              change (if _ then _ else _) = Except.map _ (if Named component out then _ else _)
              by_cases hnamed : Named component out
              · rw [if_pos hnamed]
                exact if_pos hnamed
              · rw [if_neg hnamed, ← ih]
                exact if_neg hnamed

theorem map_eq_error_iff {α β : Type} {x : Except FatFault α} {f : α → β} {e : FatFault} :
    x.map f = .error e ↔ x = .error e := by
  cases x with
  | error e => simp [Except.map]
  | ok a => simp [Except.map]

theorem stable_findEntry (component : List UInt8) (st : DirState) :
    Stable .outOfFuel fun fuel =>
      findEntry disk v (component.map CString.toupper) fuel st := by
  intro fuel hne
  simp only [findEntry_eq_search] at hne ⊢
  congr 1
  exact (isScan_fat32NextDirEntry disk v).stable_search st fuel (mt map_eq_error_iff.mpr hne)

/-- **The search in a directory.** -/
theorem finishes_findEntry_iff (hfat : v.fat = some fat) {dir : Fat32File}
    (hdir : dir.attrib &&& fat32IsDir ≠ 0) (stale : Fat32DirList) (lfn : LfnState)
    (component : List UInt8) :
    Finishes .outOfFuel (fun fuel => findEntry disk v (component.map CString.toupper) fuel
        ⟨lfn, fat32ListDir dir stale⟩) ↔
      WalkEnds disk v fat (Named component) dir.cluster stale.sectorBuffer lfn := by
  rw [← ends_iff_walkEnds hfat hdir stale,
    ← (isScan_fat32NextDirEntry disk v).finishes_search_iff]
  refine exists_congr fun fuel => not_congr ?_
  dsimp only
  rw [findEntry_eq_search, map_eq_error_iff]

/-- What it finds. -/
theorem findEntry_eq_ok_iff (hfat : v.fat = some fat) {dir : Fat32File}
    (hdir : dir.attrib &&& fat32IsDir ≠ 0) (stale : Fat32DirList) (lfn : LfnState)
    (component : List UInt8) (file : Fat32File) (lfn' : LfnState) :
    (∃ fuel, findEntry disk v (component.map CString.toupper) fuel
        ⟨lfn, fat32ListDir dir stale⟩ = .ok (some file, lfn')) ↔
      ∃ out, FirstFound disk v fat (Named component) dir.cluster stale.sectorBuffer 0 lfn out
        lfn' ∧ out.file = file := by
  have hfound : ∀ out, (∃ list', Hits (dirTurn disk v) (Named component)
      ⟨lfn, fat32ListDir dir stale⟩ out ⟨lfn', list'⟩) ↔
      FirstFound disk v fat (Named component) dir.cluster stale.sectorBuffer 0 lfn out lfn' :=
    fun out => (before_zero disk v fat hdir stale).hits_iff hfat
  constructor
  · rintro ⟨fuel, h⟩
    rw [findEntry_eq_search] at h
    obtain ⟨⟨out, st⟩, hsearch, heq⟩ := Outcome.map_eq_ok.mp h
    cases out with
    | none => cases heq
    | some out =>
        cases heq
        exact ⟨out, (hfound out).mp ⟨st.list,
          ((isScan_fat32NextDirEntry disk v).search_eq_ok_iff _ _ _).mp ⟨fuel, hsearch⟩⟩, rfl⟩
  · rintro ⟨out, hfirst, rfl⟩
    obtain ⟨list', hhits⟩ := (hfound out).mpr hfirst
    obtain ⟨fuel, hsearch⟩ :=
      ((isScan_fat32NextDirEntry disk v).search_eq_ok_iff _ _ _).mpr hhits
    refine ⟨fuel, ?_⟩
    rw [findEntry_eq_search, hsearch]
    rfl

/-! ### Paths -/

/-- The walks through the directories on a path end, one after the other. A walk ends early at the
component that it looks for. -/
def PathWalksEnd (disk : Disk) (v : Fat32Volume) (fat : ℕ → UInt32) (stale : ℕ → Fat32DirList) :
    ℕ → List UInt8 → Fat32File → LfnState → Prop
  | 0, _, _, _ => True
  | n + 1, path, current, lfn =>
      let component := path.takeWhile (· ≠ 0x2F)
      let rest := path.dropWhile (· ≠ 0x2F)
      component = [] ∨ nameSize ≤ component.length ∨
        WalkEnds disk v fat (Named component) current.cluster (stale n).sectorBuffer lfn ∧
        ∀ out lfn', FirstFound disk v fat (Named component) current.cluster
            (stale n).sectorBuffer 0 lfn out lfn' →
          rest = [] ∨ out.file.attrib &&& fat32IsDir = 0 ∨
            PathWalksEnd disk v fat stale n (rest.drop 1) out.file lfn'

variable {stale : ℕ → Fat32DirList}

/-- The rest of a turn of `fat32_find_file`. -/
def findRest (disk : Disk) (v : Fat32Volume) (stale : ℕ → Fat32DirList) (n : ℕ)
    (rest : List UInt8) (found : Option Fat32File × LfnState) (fuel : ℕ) :
    Except FatFault (Option Fat32File × LfnState) :=
  match found.1 with
  | none => .ok (none, found.2)
  | some file =>
      if file.attrib &&& fat32IsDir = 0 ∧ rest ≠ [] then .ok (none, found.2)
      else findPath disk v stale fuel n (rest.drop 1) file found.2

theorem findPath_succ (n : ℕ) {path : List UInt8} (current : Fat32File) (lfn : LfnState)
    (fuel : ℕ) (hne : path.takeWhile (· ≠ 0x2F) ≠ [])
    (hlen : ¬ nameSize ≤ (path.takeWhile (· ≠ 0x2F)).length) :
    findPath disk v stale fuel (n + 1) path current lfn =
      findEntry disk v ((path.takeWhile (· ≠ 0x2F)).map CString.toupper) fuel
          ⟨lfn, fat32ListDir current (stale n)⟩ >>= fun found =>
        findRest disk v stale n (path.dropWhile (· ≠ 0x2F)) found fuel := by
  rw [findPath]
  dsimp only
  rw [if_neg hne, if_neg hlen]
  refine bind_congr fun found => ?_
  obtain ⟨found, lfn'⟩ := found
  cases found with
  | none => rfl
  | some file => rfl

theorem stable_findRest_of {n : ℕ} (h : ∀ path current lfn,
    Stable .outOfFuel fun fuel => findPath disk v stale fuel n path current lfn)
    (rest : List UInt8) (found : Option Fat32File × LfnState) :
    Stable .outOfFuel (findRest disk v stale n rest found) := by
  obtain ⟨found, lfn⟩ := found
  cases found with
  | none => exact fun _ _ => rfl
  | some file =>
      intro fuel hfuel
      simp only [findRest] at hfuel ⊢
      split_ifs at hfuel ⊢
      · rfl
      · exact h _ _ _ fuel hfuel

theorem stable_findPath (n : ℕ) (path : List UInt8) (current : Fat32File) (lfn : LfnState) :
    Stable .outOfFuel fun fuel => findPath disk v stale fuel n path current lfn := by
  induction n generalizing path current lfn with
  | zero => exact fun fuel _ => rfl
  | succ n ih =>
      by_cases hne : path.takeWhile (· ≠ 0x2F) = []
      · intro fuel _
        simp only [findPath, hne, if_true]
      · by_cases hlen : nameSize ≤ (path.takeWhile (· ≠ 0x2F)).length
        · intro fuel _
          simp only [findPath, if_neg hne, if_pos hlen]
        · simp only [findPath_succ n current lfn _ hne hlen]
          exact (stable_findEntry _ _).bind (stable_findRest_of ih _)

theorem stable_findRest (n : ℕ) (rest : List UInt8) (found : Option Fat32File × LfnState) :
    Stable .outOfFuel (findRest disk v stale n rest found) :=
  stable_findRest_of (stable_findPath n) rest found

theorem findPath_nil_eq (fuel n : ℕ) (current : Fat32File) (lfn : LfnState) :
    findPath disk v stale fuel n [] current lfn = .ok (some current, lfn) := by
  cases n with
  | zero => rfl
  | succ n => rfl

/-- What a turn leaves to be done about a file. -/
theorem finishes_findRest_iff (n : ℕ) (rest : List UInt8) (file : Fat32File) (lfn : LfnState) :
    Finishes .outOfFuel (findRest disk v stale n rest (some file, lfn)) ↔
      rest = [] ∨ file.attrib &&& fat32IsDir = 0 ∨
        Finishes .outOfFuel
          fun fuel => findPath disk v stale fuel n (rest.drop 1) file lfn := by
  by_cases hrest : rest = []
  · refine iff_of_true ⟨0, ?_⟩ (Or.inl hrest)
    rw [findRest]
    dsimp only
    rw [if_neg fun h => h.2 hrest, hrest, List.drop_nil, findPath_nil_eq]
    rintro ⟨⟩
  · by_cases hfile : file.attrib &&& fat32IsDir = 0
    · refine iff_of_true ⟨0, ?_⟩ (Or.inr (Or.inl hfile))
      rw [findRest]
      dsimp only
      rw [if_pos ⟨hfile, hrest⟩]
      rintro ⟨⟩
    · simp only [hrest, hfile, false_or]
      refine exists_congr fun fuel => not_congr ?_
      simp only [findRest, if_neg fun h : file.attrib &&& fat32IsDir = 0 ∧ rest ≠ [] => hfile h.1]

/-- **Paths**, from a directory on. -/
theorem finishes_findPath_iff (hfat : v.fat = some fat) (n : ℕ) (path : List UInt8)
    {current : Fat32File} (hdir : current.attrib &&& fat32IsDir ≠ 0) (lfn : LfnState) :
    Finishes .outOfFuel (fun fuel => findPath disk v stale fuel n path current lfn) ↔
      PathWalksEnd disk v fat stale n path current lfn := by
  induction n generalizing path current lfn with
  | zero => exact iff_of_true ⟨0, by rintro ⟨⟩⟩ trivial
  | succ n ih =>
      rw [PathWalksEnd]
      by_cases hne : path.takeWhile (· ≠ 0x2F) = []
      · refine iff_of_true ⟨0, ?_⟩ (Or.inl hne)
        simp only [findPath, if_pos hne]
        rintro ⟨⟩
      · by_cases hlen : nameSize ≤ (path.takeWhile (· ≠ 0x2F)).length
        · refine iff_of_true ⟨0, ?_⟩ (Or.inr (Or.inl hlen))
          simp only [findPath, if_neg hne, if_pos hlen]
          rintro ⟨⟩
        · simp only [findPath_succ n current lfn _ hne hlen, hne, hlen, false_or]
          rw [finishes_bind_iff (stable_findEntry _ _) (stable_findRest n _),
            finishes_findEntry_iff hfat hdir]
          refine and_congr_right fun _ => ?_
          constructor
          · intro h out lfn' hfirst
            obtain ⟨fuel, hfuel⟩ := (findEntry_eq_ok_iff hfat hdir _ _ _ _ _).mpr ⟨out, hfirst, rfl⟩
            refine ((finishes_findRest_iff n _ _ _).mp (h fuel _ hfuel)).imp_right fun hrest => ?_
            by_cases hfile : out.file.attrib &&& fat32IsDir = 0
            · exact Or.inl hfile
            · exact hrest.imp_right (ih _ hfile _).mp
          · rintro h fuel ⟨found, lfn'⟩ hfuel
            cases found with
            | none => exact ⟨0, by rintro ⟨⟩⟩
            | some file =>
                obtain ⟨out, hfirst, rfl⟩ :=
                  (findEntry_eq_ok_iff hfat hdir _ _ _ _ _).mp ⟨fuel, hfuel⟩
                refine (finishes_findRest_iff n _ _ _).mpr ((h out lfn' hfirst).imp_right ?_)
                intro hrest
                by_cases hfile : out.file.attrib &&& fat32IsDir = 0
                · exact Or.inl hfile
                · exact hrest.imp_right (ih _ hfile _).mpr

/-- The walks of `fat32_find_file` end. -/
def FileWalksEnd (disk : Disk) (v : Fat32Volume) (fat : ℕ → UInt32) (stale : ℕ → Fat32DirList)
    (path : List UInt8) (lfn : LfnState) : Prop :=
  PathWalksEnd disk v fat stale path.length
    (if path.head? = some 0x2F then path.drop 1 else path) (rootDirectory v) lfn

/-- Every link leads to cluster 2. -/
def loopVolume : Fat32Volume := { sampleVolume with fat := some fun _ => 2 }

/-- Every entry has the name `AAAAAAAA.AAA`. -/
def loopDisk : Disk := fun _ => some fun _ => 0x41

theorem chainCluster_loop (k : ℕ) : chainCluster (fun _ => 2) 2 k = 2 := by
  cases k with
  | zero => rfl
  | succ k => exact chainCluster_succ _ _ k

theorem slotSeen_loop (n : ℕ) :
    slotSeen loopDisk loopVolume (fun _ => 2) 2 (fun _ => 0x41) n = some fun _ => 0x41 := by
  rw [slotSeen]
  split_ifs <;> rfl

theorem decodeRun_loop (k m : ℕ) : ∃ results, decodeRun ⟨fun _ => 0, 0⟩
    (slotsFrom loopDisk loopVolume (fun _ => 2) 2 (fun _ => 0x41) m k) =
      .ok (results, ⟨fun _ => 0, 0⟩) := by
  induction k generalizing m with
  | zero => exact ⟨[], rfl⟩
  | succ k ih =>
      obtain ⟨results, hrest⟩ := ih (m + 1)
      rw [slotsFrom_succ, slotSeen_loop]
      exact ⟨_, decodeRun_cons_eq_ok.mpr ⟨_, _, results, rfl, hrest, rfl⟩⟩

/-- The walk does not end. -/
theorem not_walkEnds_loop : ¬ WalkEnds loopDisk loopVolume (fun _ => 2) (fun _ => False) 2
    (fun _ => 0x41) ⟨fun _ => 0, 0⟩ := by
  rintro ⟨n, (⟨-, hover⟩ | hstops) | ⟨e, he⟩ | ⟨results, lfn', -, out, -, hfalse⟩⟩
  · rw [chainCluster_loop] at hover
    cases hover
  · cases hstops _ (slotSeen_loop n)
  · obtain ⟨results, hrun⟩ := decodeRun_loop n 0
    cases hrun.symm.trans he
  · exact hfalse

end HalOS
