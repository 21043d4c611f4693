import HalOS.Fs.Fat
import Mathlib.Algebra.Group.Nat.Defs

/-!
# Mounting a Volume

`fat32_init_volume` has eight ways out before its end, and none of them is reported. Only at its
end does the volume have a table and a cluster size; and the table is whatever was in memory
there, since no sector of the FAT is read.

## Main results

* `fat32InitVolume_cases`: the two states that a volume can be in afterwards.
* `safelyInitialises_iff_mounts`: when the calls that follow cannot crash.
* `mirrors_iff_found`: when the table is the one on the disk.
-/

namespace HalOS

open CString (Memory)
open Outcome (Avoids avoids_ok avoids_error bind_eq_ok)

/-! ### The end of the initialisation -/

/-- `fat_size_in_sectors`, for a header. -/
def Fat32Header.fatSize (h : Fat32Header) : UInt32 :=
  if h.fatSize16 = 0 then h.fatSize32 else h.fatSize16.toUInt32

/-- The initialisation reaches its end, with `sector` as the boot sector and `fat` in the memory
that it gets for the table. -/
structure Mounts (host : FatHost) (sector : Memory) (fat : ℕ → UInt32) : Prop where
  buffer : host.sectorDma = true ∨ host.sectorPage = true
  drive : host.drive = true
  boot : host.disk 0 = some sector
  signature : sector 510 = 0x55 ∧ sector 511 = 0xAA
  text : (List.range 8).map (fun i => sector (82 + i)) = fat32Text
  sectorSize : (Fat32Header.parse sector).bytesPerSector.toUInt32 = HalOS.sectorSize
  rereads : host.rereads = true
  fatSize : (Fat32Header.parse sector).fatSize ≠ 0
  table : host.fatDma ((Fat32Header.parse sector).fatSize * HalOS.sectorSize) = some fat

/-- The volume at the end. -/
def Fat32Volume.mounted (sector : Memory) (fat : ℕ → UInt32) : Fat32Volume where
  header := .parse sector
  fatSizeInSectors := (Fat32Header.parse sector).fatSize
  dataStartSector := (Fat32Header.parse sector).reservedSectors.toUInt32 +
    (Fat32Header.parse sector).fatCount.toUInt32 * (Fat32Header.parse sector).fatSize
  fat := some fat
  clusterSize := (Fat32Header.parse sector).sectorsPerCluster.toUInt32 * sectorSize

/-- The volume has no table and no cluster size. -/
structure Unmounted (v : Fat32Volume) : Prop where
  fat : v.fat = none
  clusterSize : v.clusterSize = 0

variable {host : FatHost} {sector : Memory} {fat : ℕ → UInt32}

/-- The volume when the end is not reached, but the sizes have been computed. -/
def Fat32Volume.sized (sector : Memory) : Fat32Volume :=
  { Fat32Volume.mounted sector fun _ => 0 with fat := none, clusterSize := 0 }

/-- The lines after the header has been copied, with the sizes by name. -/
theorem initSizes_eq (host : FatHost) (sector : Memory) :
    initSizes host { Fat32Volume.zero with header := .parse sector } =
      if (Fat32Header.parse sector).bytesPerSector.toUInt32 ≠ HalOS.sectorSize then
        { Fat32Volume.zero with header := .parse sector }
      else if host.rereads = false then .sized sector
      else if (Fat32Header.parse sector).fatSize = 0 then .sized sector
      else
        match host.fatDma ((Fat32Header.parse sector).fatSize * HalOS.sectorSize) with
        | none => .sized sector
        | some fat => .mounted sector fat := rfl

theorem unmounted_zero : Unmounted .zero := ⟨rfl, rfl⟩

theorem unmounted_sized (sector : Memory) : Unmounted (.sized sector) := ⟨rfl, rfl⟩

/-- A host on which the end is not reached leaves an unmounted volume. -/
theorem unmounted_of_forall_not_mounts (h : ∀ sector fat, ¬ Mounts host sector fat) :
    Unmounted (fat32InitVolume host) := by
  rw [fat32InitVolume]
  by_cases hbuf : host.sectorDma = false ∧ host.sectorPage = false
  · rw [if_pos hbuf]
    exact unmounted_zero
  rw [if_neg hbuf]
  by_cases hdrive : host.drive = false
  · rw [if_pos hdrive]
    exact unmounted_zero
  rw [if_neg hdrive]
  cases hboot : host.disk 0 with
  | none => exact unmounted_zero
  | some sector =>
      dsimp only
      by_cases hsig : sector 510 ≠ 0x55 ∨ sector 511 ≠ 0xAA
      · rw [if_pos hsig]
        exact unmounted_zero
      rw [if_neg hsig]
      by_cases htext : (List.range 8).map (fun i => sector (82 + i)) ≠ fat32Text
      · rw [if_pos htext]
        exact unmounted_zero
      rw [if_neg htext, initSizes_eq]
      by_cases hbytes : (Fat32Header.parse sector).bytesPerSector.toUInt32 ≠ HalOS.sectorSize
      · rw [if_pos hbytes]
        exact ⟨rfl, rfl⟩
      rw [if_neg hbytes]
      by_cases hreads : host.rereads = false
      · rw [if_pos hreads]
        exact unmounted_sized sector
      rw [if_neg hreads]
      by_cases hfat : (Fat32Header.parse sector).fatSize = 0
      · rw [if_pos hfat]
        exact unmounted_sized sector
      rw [if_neg hfat]
      cases hdma : host.fatDma ((Fat32Header.parse sector).fatSize * HalOS.sectorSize) with
      | none => exact unmounted_sized sector
      | some fat =>
          refine absurd ?_ (h sector fat)
          exact ⟨by simpa [or_iff_not_imp_left] using hbuf, by simpa using hdrive, hboot,
            by simpa using hsig, not_not.mp htext, not_not.mp hbytes, by simpa using hreads,
            hfat, hdma⟩

/-- The end leaves a mounted volume. -/
theorem fat32InitVolume_of_mounts (h : Mounts host sector fat) :
    fat32InitVolume host = .mounted sector fat := by
  have hbuf : ¬ (host.sectorDma = false ∧ host.sectorPage = false) := by
    rintro ⟨hdma, hpage⟩
    rcases h.buffer with hb | hb
    · exact absurd hdma (by rw [hb]; exact Bool.noConfusion)
    · exact absurd hpage (by rw [hb]; exact Bool.noConfusion)
  have hdrive : ¬ host.drive = false := by simp [h.drive]
  have hsig : ¬ (sector 510 ≠ 0x55 ∨ sector 511 ≠ 0xAA) := by simp [h.signature]
  have hreads : ¬ host.rereads = false := by simp [h.rereads]
  rw [fat32InitVolume, if_neg hbuf, if_neg hdrive]
  simp only [h.boot, if_neg hsig, h.text, ne_eq, not_true_eq_false, if_false, initSizes_eq,
    h.sectorSize, if_neg hreads, if_neg h.fatSize, h.table]

/-- The two states that a volume can be in afterwards. -/
theorem fat32InitVolume_cases (host : FatHost) :
    (∃ sector fat, Mounts host sector fat ∧ fat32InitVolume host = .mounted sector fat) ∨
    ((∀ sector fat, ¬ Mounts host sector fat) ∧ Unmounted (fat32InitVolume host)) := by
  by_cases h : ∃ sector fat, Mounts host sector fat
  · obtain ⟨sector, fat, hm⟩ := h
    exact Or.inl ⟨sector, fat, hm, fat32InitVolume_of_mounts hm⟩
  · have hnot : ∀ sector fat, ¬ Mounts host sector fat := fun sector fat hm =>
      h ⟨sector, fat, hm⟩
    exact Or.inr ⟨hnot, unmounted_of_forall_not_mounts hnot⟩

/-- The boot sector and the memory for the table are the host's only ones. -/
theorem Mounts.unique {sector' : Memory} {fat' : ℕ → UInt32} (h : Mounts host sector fat)
    (h' : Mounts host sector' fat') : sector = sector' ∧ fat = fat' := by
  obtain rfl : sector = sector' := Option.some.inj (h.boot.symm.trans h'.boot)
  exact ⟨rfl, Option.some.inj (h.table.symm.trans h'.table)⟩

/-! ### The calls that follow -/

/-- The volume has a table, and clusters of some size. -/
structure Ready (v : Fat32Volume) : Prop where
  fat : ∃ fat, v.fat = some fat
  clusterSize : v.clusterSize ≠ 0

section Ready

variable {v : Fat32Volume} {e : FatFault}

/-- The error is not one that the lengths of names and chains alone lead to. -/
structure FatFault.OfVolume (e : FatFault) : Prop where
  ne_bufferOverrun : FatFault.bufferOverrun ≠ e
  ne_outOfFuel : FatFault.outOfFuel ≠ e

theorem Ready.nextCluster (h : Ready v) (cluster : UInt32) :
    ∃ next, HalOS.nextCluster v cluster = .ok next := by
  obtain ⟨fat, hfat⟩ := h.fat
  exact ⟨fat cluster.toNat &&& 0xFFFFFF, by rw [HalOS.nextCluster, hfat]; rfl⟩

theorem Ready.avoids_nextCluster (h : Ready v) (cluster : UInt32) :
    Avoids e (HalOS.nextCluster v cluster) := by
  obtain ⟨next, hnext⟩ := h.nextCluster cluster
  rw [hnext]
  exact avoids_ok e next

theorem Ready.avoids_advanceClusters (h : Ready v) (n : ℕ) (cluster : UInt32) :
    Avoids e (advanceClusters v n cluster) := by
  induction n generalizing cluster with
  | zero => exact avoids_ok e _
  | succ n ih =>
      rw [advanceClusters]
      refine (h.avoids_nextCluster cluster).bind fun next _ => ?_
      by_cases hend : next = 0xFFFFFF
      · rw [if_pos hend]
        exact avoids_ok e _
      · rw [if_neg hend]
        exact ih next

theorem FatFault.OfVolume.avoids_readSectors (he : e.OfVolume) (disk : Disk) (n : ℕ)
    (sector offset bytesLeft : UInt32) (buffer : List UInt8) :
    Avoids e (readSectors disk n sector offset bytesLeft buffer) := by
  induction n generalizing sector offset bytesLeft buffer with
  | zero => exact avoids_ok e _
  | succ n ih =>
      rw [readSectors]
      cases disk sector with
      | none => exact avoids_ok e _
      | some bytes =>
          dsimp only
          generalize (if bytesLeft + offset % sectorSize > sectorSize then
            sectorSize - offset % sectorSize else bytesLeft) = len
          by_cases hlen : sectorSize.toNat < (offset % sectorSize).toNat + len.toNat
          · rw [if_pos hlen]
            exact avoids_error he.ne_bufferOverrun
          rw [if_neg hlen]
          by_cases hdone : bytesLeft - len = 0
          · rw [if_pos hdone]
            exact avoids_ok e _
          · rw [if_neg hdone]
            exact ih _ _ _ _

theorem Ready.avoids_readClusters (h : Ready v) (he : e.OfVolume) (disk : Disk) (fuel : ℕ)
    (cluster offset bytesLeft : UInt32) (buffer : List UInt8) :
    Avoids e (readClusters disk v fuel cluster offset bytesLeft buffer) := by
  induction fuel generalizing cluster offset bytesLeft buffer with
  | zero => exact avoids_error he.ne_outOfFuel
  | succ fuel ih =>
      rw [readClusters]
      refine (he.avoids_readSectors _ _ _ _ _ _).bind fun out _ => ?_
      cases out with
      | returned success buffer => exact avoids_ok e _
      | left bytesLeft buffer =>
          refine (h.avoids_nextCluster cluster).bind fun next _ => ?_
          by_cases hend : next = 0xFFFFFF
          · rw [if_pos hend]
            exact avoids_ok e _
          · rw [if_neg hend]
            exact ih _ _ _ _

theorem Ready.avoids_fat32ReadFile (h : Ready v) (he : e.OfVolume) (disk : Disk) (fuel : ℕ)
    (file : Fat32File) (offset size : UInt32) :
    Avoids e (fat32ReadFile disk v fuel file offset size) := by
  rw [fat32ReadFile]
  by_cases hsize : offset + size > file.size ∧ file.attrib &&& fat32IsDir = 0
  · rw [if_pos hsize]
    exact avoids_ok e _
  rw [if_neg hsize, divide, if_neg h.clusterSize]
  refine (avoids_ok e _).bind fun n _ => ?_
  refine (h.avoids_advanceClusters _ _).bind fun cluster _ => ?_
  cases cluster with
  | none => exact avoids_ok e _
  | some cluster => exact h.avoids_readClusters he _ _ _ _ _ _

theorem FatFault.OfVolume.avoids_parseLfnChars (he : e.OfVolume) (lfn : Memory) (n i : ℕ)
    (buffer : Memory) : Avoids e (parseLfnChars lfn n i buffer) := by
  induction n generalizing i buffer with
  | zero => exact avoids_ok e _
  | succ n ih =>
      rw [parseLfnChars]
      by_cases hpad : lfnChar lfn i = 0xFFFF
      · rw [if_pos hpad]
        exact avoids_ok e _
      rw [if_neg hpad]
      dsimp only
      by_cases hsize : nameSize ≤ ((lfnSequence lfn).toNat - 1) * 13 + i
      · rw [if_pos hsize]
        exact avoids_error he.ne_bufferOverrun
      · rw [if_neg hsize]
        exact ih _ _

theorem FatFault.OfVolume.avoids_joinLfn (he : e.OfVolume) (buffer : Memory) (parts : ℕ) :
    Avoids e (joinLfn buffer parts) := by
  rw [joinLfn]
  by_cases hsize : nameSize ≤ parts * 13
  · rw [if_pos hsize]
    exact avoids_error he.ne_bufferOverrun
  · rw [if_neg hsize]
    exact avoids_ok e _

theorem FatFault.OfVolume.avoids_entryStep (he : e.OfVolume) (st : LfnState) (entry : Memory) :
    Avoids e (entryStep st entry) := by
  rw [entryStep]
  by_cases hlfn : entryAttrib entry = dirEntryAttribLfn
  · rw [if_pos hlfn]
    by_cases hseq : lfnSequence entry = 0
    · simp only [if_pos hseq]
      exact avoids_ok e _
    · simp only [if_neg hseq]
      exact (he.avoids_parseLfnChars _ _ _ _).bind fun _ _ => avoids_ok e _
  rw [if_neg hlfn]
  by_cases hlen : 0 < st.length
  · rw [if_pos hlen]
    exact (he.avoids_joinLfn _ _).bind fun _ _ => avoids_ok e _
  · rw [if_neg hlen]
    exact avoids_ok e _

theorem Ready.avoids_readNextEntry (h : Ready v) (disk : Disk) (list : Fat32DirList) :
    Avoids e (readNextEntry disk v list) := by
  rw [readNextEntry]
  by_cases hlast : v.clusterSize / dirEntrySize ≤ list.entry
  · rw [if_pos hlast]
    refine (h.avoids_nextCluster _).bind fun next _ => ?_
    by_cases hend : next = 0xFFFFFF
    · rw [if_pos hend]
      exact avoids_ok e _
    · rw [if_neg hend]
      exact avoids_ok e _
  · rw [if_neg hlast]
    exact avoids_ok e _

theorem Ready.avoids_fat32NextDirEntry (h : Ready v) (he : e.OfVolume) (disk : Disk) (fuel : ℕ)
    (st : DirState) : Avoids e (fat32NextDirEntry disk v fuel st) := by
  induction fuel generalizing st with
  | zero => exact avoids_error he.ne_outOfFuel
  | succ fuel ih =>
      rw [fat32NextDirEntry]
      refine (h.avoids_readNextEntry disk st.list).bind fun ⟨entry, list⟩ _ => ?_
      cases entry with
      | none => exact avoids_ok e _
      | some entry =>
          refine (he.avoids_entryStep st.lfn entry).bind fun ⟨lfn, out⟩ _ => ?_
          cases out with
          | none => exact ih _
          | some out => exact avoids_ok e _

theorem Ready.avoids_findEntry (h : Ready v) (he : e.OfVolume) (disk : Disk)
    (component : List UInt8) (fuel : ℕ) (st : DirState) :
    Avoids e (findEntry disk v component fuel st) := by
  induction fuel generalizing st with
  | zero => exact avoids_error he.ne_outOfFuel
  | succ fuel ih =>
      rw [findEntry]
      refine (h.avoids_fat32NextDirEntry he disk _ st).bind fun ⟨out, st'⟩ _ => ?_
      cases out with
      | none => exact avoids_ok e _
      | some entry =>
          dsimp only
          by_cases hname : fat32Strcasecmp entry.name component = 0
          · rw [if_pos hname]
            exact avoids_ok e _
          · rw [if_neg hname]
            exact ih _

theorem Ready.avoids_findPath (h : Ready v) (he : e.OfVolume) (disk : Disk)
    (stale : ℕ → Fat32DirList) (fuel n : ℕ) (path : List UInt8) (current : Fat32File)
    (lfn : LfnState) : Avoids e (findPath disk v stale fuel n path current lfn) := by
  induction n generalizing path current lfn with
  | zero => exact avoids_ok e _
  | succ n ih =>
      rw [findPath]
      dsimp only
      by_cases hnil : path.takeWhile (· ≠ 0x2F) = []
      · rw [if_pos hnil]
        exact avoids_ok e _
      rw [if_neg hnil]
      by_cases hlen : nameSize ≤ (path.takeWhile (· ≠ 0x2F)).length
      · rw [if_pos hlen]
        exact avoids_error he.ne_bufferOverrun
      rw [if_neg hlen]
      refine (h.avoids_findEntry he disk _ fuel _).bind fun ⟨found, lfn'⟩ _ => ?_
      cases found with
      | none => exact avoids_ok e _
      | some file =>
          dsimp only
          by_cases hdir : file.attrib &&& fat32IsDir = 0 ∧ path.dropWhile (· ≠ 0x2F) ≠ []
          · rw [if_pos hdir]
            exact avoids_ok e _
          · rw [if_neg hdir]
            exact ih _ _ _

theorem Ready.avoids_fat32FindFile (h : Ready v) (he : e.OfVolume) (disk : Disk)
    (stale : ℕ → Fat32DirList) (fuel : ℕ) (path : List UInt8) (lfn : LfnState) :
    Avoids e (fat32FindFile disk v stale fuel path lfn) := by
  rw [fat32FindFile]
  by_cases hnil : path = []
  · rw [if_pos hnil]
    exact avoids_ok e _
  · rw [if_neg hnil]
    exact h.avoids_findPath he disk stale fuel _ _ _ _

end Ready

/-- The computation neither divides by zero nor follows a null pointer. -/
def Survives {α : Type} (x : Except FatFault α) : Prop :=
  Avoids .divideByZero x ∧ Avoids .nullPointer x

/-- No call on the volume divides by zero or follows a null pointer. -/
structure NeverCrashes (v : Fat32Volume) : Prop where
  readFile : ∀ disk fuel file offset size,
    Survives (fat32ReadFile disk v fuel file offset size)
  nextDirEntry : ∀ disk fuel st, Survives (fat32NextDirEntry disk v fuel st)
  findFile : ∀ disk stale fuel path lfn, Survives (fat32FindFile disk v stale fuel path lfn)

/-- No call on the volume crashes, and a volume whose initialisation reached its end has clusters
of the size that the boot sector gives, and a table. -/
structure SafelyInitialises (host : FatHost) : Prop where
  neverCrashes : NeverCrashes (fat32InitVolume host)
  mounted : ∀ sector fat, Mounts host sector fat →
    0 < (fat32InitVolume host).header.sectorsPerCluster ∧ (fat32InitVolume host).fat ≠ none ∧
    (fat32InitVolume host).clusterSize =
      (fat32InitVolume host).header.sectorsPerCluster.toUInt32 * sectorSize

theorem ofVolume_divideByZero : FatFault.OfVolume .divideByZero := ⟨nofun, nofun⟩

theorem ofVolume_nullPointer : FatFault.OfVolume .nullPointer := ⟨nofun, nofun⟩

/-- A volume that is ready does not crash. -/
theorem Ready.neverCrashes {v : Fat32Volume} (h : Ready v) : NeverCrashes v where
  readFile disk fuel file offset size :=
    ⟨h.avoids_fat32ReadFile ofVolume_divideByZero disk fuel file offset size,
      h.avoids_fat32ReadFile ofVolume_nullPointer disk fuel file offset size⟩
  nextDirEntry disk fuel st :=
    ⟨h.avoids_fat32NextDirEntry ofVolume_divideByZero disk fuel st,
      h.avoids_fat32NextDirEntry ofVolume_nullPointer disk fuel st⟩
  findFile disk stale fuel path lfn :=
    ⟨h.avoids_fat32FindFile ofVolume_divideByZero disk stale fuel path lfn,
      h.avoids_fat32FindFile ofVolume_nullPointer disk stale fuel path lfn⟩

/-- With clusters of no size, the first read divides by zero. -/
theorem not_neverCrashes_of_clusterSize {v : Fat32Volume} (h : v.clusterSize = 0) :
    ¬ NeverCrashes v := by
  intro hv
  refine (hv.readFile (fun _ => none) 0 ⟨0, 0, 0⟩ 0 0).1 ?_
  rw [fat32ReadFile, divide, if_pos h]
  rfl

theorem UInt32.mul_sectorSize_ne_zero {n : UInt8} (h : n ≠ 0) :
    n.toUInt32 * sectorSize ≠ 0 := by
  intro hmul
  have hn := n.toNat_lt
  have hpos : n.toNat ≠ 0 := fun h0 => h (UInt8.toNat_inj.mp h0)
  have := congrArg UInt32.toNat hmul
  rw [UInt32.toNat_mul, UInt8.toNat_toUInt32] at this
  change n.toNat * 512 % 2 ^ 32 = 0 at this
  omega

/-- The calls are safe exactly if the initialisation reaches its end, with clusters of at least
one sector. -/
theorem safelyInitialises_iff_mounts (host : FatHost) :
    SafelyInitialises host ↔ ∃ sector fat, Mounts host sector fat ∧ sector 13 ≠ 0 := by
  constructor
  · intro h
    rcases fat32InitVolume_cases host with ⟨sector, fat, hm, -⟩ | ⟨-, hun⟩
    · refine ⟨sector, fat, hm, fun hzero => ?_⟩
      have hpos := (h.mounted sector fat hm).1
      rw [fat32InitVolume_of_mounts hm] at hpos
      exact absurd (hzero ▸ hpos : (0 : UInt8) < 0) (by decide)
    · exact absurd h.neverCrashes (not_neverCrashes_of_clusterSize hun.clusterSize)
  · rintro ⟨sector, fat, hm, hspc⟩
    have hready : Ready (fat32InitVolume host) := by
      rw [fat32InitVolume_of_mounts hm]
      exact ⟨⟨fat, rfl⟩, UInt32.mul_sectorSize_ne_zero hspc⟩
    refine ⟨hready.neverCrashes, fun sector' fat' hm' => ?_⟩
    obtain ⟨rfl, rfl⟩ := hm.unique hm'
    rw [fat32InitVolume_of_mounts hm]
    exact ⟨UInt8.pos_iff_ne_zero.mpr hspc, nofun, rfl⟩

/-- A drive whose boot sector is blank: the lookup that follows the initialisation indexes the
null table. -/
theorem safelyInitialises_violated :
    ¬ ∀ host, SafelyInitialises host := by
  intro h
  have := (h ⟨true, true, true, fun _ => some fun _ => 0, true, fun _ => none⟩).neverCrashes
  refine (this.findFile (fun _ => none) (fun _ => ⟨0, 0, fun _ => 0, 0⟩) 1 [0x78]
    ⟨fun _ => 0, 0⟩).2 ?_
  rfl

/-! ### The table -/

/-- Sector `n` of the drive. -/
def diskSector (disk : Disk) (n : ℕ) : Option Memory :=
  if n < 2 ^ 32 then disk (UInt32.ofNat n) else none

/-- Word `c` of the file allocation table that begins at sector `start`. -/
def fatWord (disk : Disk) (start c : ℕ) : Option UInt32 :=
  (diskSector disk (start + c / 128)).map fun bytes => le32 bytes (c % 128 * 4)

/-- The words at `fat` are the table on the disk. -/
def Mirrors (disk : Disk) (h : Fat32Header) (fat : ℕ → UInt32) : Prop :=
  ∀ c < h.fatSize.toNat * 128, fatWord disk h.reservedSectors.toNat c = some (fat c)

/-- The table is the one on the disk exactly if it was already in memory. -/
theorem mirrors_iff_found (h : Mounts host sector fat) :
    (∃ table, (fat32InitVolume host).fat = some table ∧
      Mirrors host.disk (fat32InitVolume host).header table) ↔
    Mirrors host.disk (.parse sector) fat := by
  rw [fat32InitVolume_of_mounts h]
  constructor
  · rintro ⟨table, htable, hm⟩
    obtain rfl : fat = table := Option.some.inj htable
    exact hm
  · exact fun hm => ⟨fat, rfl, hm⟩

/-- A boot sector with one sector per cluster, one reserved sector and a table of one sector. -/
def sampleBootSector : Memory := fun i =>
  if i = 12 ∨ i = 44 then 2
  else if i = 13 ∨ i = 14 ∨ i = 16 ∨ i = 22 then 1
  else if 82 ≤ i ∧ i < 90 then fat32Text.getD (i - 82) 0
  else if i = 510 then 0x55
  else if i = 511 then 0xAA
  else 0

/-- A sector whose words are all `0x0FFFFFF8`. -/
def sampleFatSector : Memory := fun i =>
  if i % 4 = 0 then 0xF8 else if i % 4 = 3 then 0x0F else 0xFF

/-- A host with this drive, and `found` in the memory for the table. -/
def sampleHost (found : ℕ → UInt32) : FatHost where
  sectorDma := true
  sectorPage := true
  drive := true
  disk n := some (if n = 0 then sampleBootSector else sampleFatSector)
  rereads := true
  fatDma _ := some found

theorem mounts_sampleHost (found : ℕ → UInt32) :
    Mounts (sampleHost found) sampleBootSector found where
  buffer := Or.inl rfl
  drive := rfl
  boot := rfl
  signature := ⟨rfl, rfl⟩
  text := by decide
  sectorSize := by decide
  rereads := rfl
  fatSize := by decide
  table := rfl

theorem fatWord_sampleHost (found : ℕ → UInt32) {c : ℕ} (hc : c < 128) :
    fatWord (sampleHost found).disk 1 c = some 0x0FFFFFF8 := by
  have hsector : diskSector (sampleHost found).disk 1 = some sampleFatSector := by
    rw [diskSector, if_pos (by decide)]
    rfl
  have hle : le32 sampleFatSector (c % 128 * 4) = 0x0FFFFFF8 := by
    have h0 : c % 128 * 4 % 4 = 0 := by omega
    have h1 : (c % 128 * 4 + 1) % 4 = 1 := by omega
    have h2 : (c % 128 * 4 + 2) % 4 = 2 := by omega
    have h3 : (c % 128 * 4 + 2 + 1) % 4 = 3 := by omega
    simp only [le32, le16, sampleFatSector, h0, h1, h2, h3]
    decide
  rw [fatWord, Nat.div_eq_of_lt hc, hsector, Option.map_some, hle]

theorem mirrors_iff_found_sampleHost :
    ∃ table, (fat32InitVolume (sampleHost fun _ => 0x0FFFFFF8)).fat = some table ∧
      Mirrors (sampleHost fun _ => 0x0FFFFFF8).disk
        (fat32InitVolume (sampleHost fun _ => 0x0FFFFFF8)).header table :=
  (mirrors_iff_found (mounts_sampleHost _)).mpr fun _ hc => fatWord_sampleHost _ hc

/-- The memory for the table is zero, the table on the disk is not. -/
theorem mirrors_violated :
    ¬ ∀ host sector fat, Mounts host sector fat →
      ∃ table, (fat32InitVolume host).fat = some table ∧
        Mirrors host.disk (fat32InitVolume host).header table := by
  intro h
  obtain ⟨table, htable, hm⟩ := h _ _ _ (mounts_sampleHost fun _ => 0)
  rw [fat32InitVolume_of_mounts (mounts_sampleHost _)] at htable hm
  obtain rfl : (fun _ => 0) = table := Option.some.inj htable
  have := (fatWord_sampleHost _ (by decide)).symm.trans (hm 0 (by decide))
  exact absurd (Option.some.inj this) (by decide)

end HalOS
