import HalOS.Lib.CString
import HalOS.Lib.Outcome

/-!
# The FAT32 Driver

The functions of `drivers/fat.c` on volumes of the source's machine words, so every sum and
comparison is the one the target computes.

The drive is a function from sector numbers to the bytes that `disk_read_sector` leaves in the
buffer, `none` where it fails. `volume->fat` is the table of words found where it points to,
`none` when it is null. What C leaves undefined, and a division by zero, ends a call with a
`FatFault`; loops that need not end carry `fuel`, and running out of it is a fault of its own.

A directory entry is the pointer to its 32 bytes. The parameters of the calls are not null. The
`static` variables of `fat32_next_dir_entry` are an argument that is passed on.
-/

namespace HalOS

open CString (Memory)

/-- What ends a call. -/
inductive FatFault
  | divideByZero | nullPointer | bufferOverrun | outOfFuel
deriving DecidableEq, Repr

/-! ### Constants -/

/-- `SECTOR_SIZE`. -/
abbrev sectorSize : UInt32 := 512

/-- `FAT32_IS_DIR`. -/
abbrev fat32IsDir : UInt32 := 0x10

/-- `DIR_ENTRY_ATTRIB_LFN`. -/
abbrev dirEntryAttribLfn : UInt8 := 0x0F

/-- `sizeof(FAT32_Directory_Entry)`. -/
abbrev dirEntrySize : UInt32 := 32

/-- `sizeof(lfn_buffer)`, `sizeof(temp)`, and the size of the buffers for names and components. -/
abbrev nameSize : ℕ := 256

/-! ### Data -/

/-- The drive, as `disk_read_sector` sees it. -/
abbrev Disk := UInt32 → Option Memory

/-- Little-endian reads. -/
def le16 (m : Memory) (i : ℕ) : UInt16 := (m (i + 1)).toUInt16 <<< 8 ||| (m i).toUInt16

def le32 (m : Memory) (i : ℕ) : UInt32 := (le16 m (i + 2)).toUInt32 <<< 16 ||| (le16 m i).toUInt32

/-- The fields of `FAT32_Header` that the driver reads. -/
structure Fat32Header where
  bytesPerSector : UInt16
  sectorsPerCluster : UInt8
  reservedSectors : UInt16
  fatCount : UInt8
  fatSize16 : UInt16
  fatSize32 : UInt32
  rootCluster : UInt32
deriving DecidableEq, Repr

/-- The header at the start of the boot sector. -/
def Fat32Header.parse (sector : Memory) : Fat32Header where
  bytesPerSector := le16 sector 11
  sectorsPerCluster := sector 13
  reservedSectors := le16 sector 14
  fatCount := sector 16
  fatSize16 := le16 sector 22
  fatSize32 := le32 sector 36
  rootCluster := le32 sector 44

/-- The header after `memset`. -/
def Fat32Header.zero : Fat32Header where
  bytesPerSector := 0
  sectorsPerCluster := 0
  reservedSectors := 0
  fatCount := 0
  fatSize16 := 0
  fatSize32 := 0
  rootCluster := 0

/-- `FAT32_Volume`. -/
structure Fat32Volume where
  header : Fat32Header
  fatSizeInSectors : UInt32
  dataStartSector : UInt32
  fat : Option (ℕ → UInt32)
  clusterSize : UInt32

/-- The volume after `memset`. -/
def Fat32Volume.zero : Fat32Volume where
  header := .zero
  fatSizeInSectors := 0
  dataStartSector := 0
  fat := none
  clusterSize := 0

/-- `FAT32_File`, without `offset`, which nothing reads. -/
structure Fat32File where
  attrib : UInt32
  cluster : UInt32
  size : UInt32
deriving DecidableEq, Repr

/-- `FAT32_DirList`. -/
structure Fat32DirList where
  cluster : UInt32
  entry : UInt32
  sectorBuffer : Memory
  bufferedSector : UInt32

/-- The `static` variables of `fat32_next_dir_entry`. -/
structure LfnState where
  buffer : Memory
  length : UInt8

/-! ### Volumes -/

/-- `cluster_to_sector`. -/
def clusterToSector (v : Fat32Volume) (cluster : UInt32) : UInt32 :=
  v.dataStartSector + (cluster - 2) * v.header.sectorsPerCluster.toUInt32

/-- `volume->fat[cluster] & 0xFFFFFF`. -/
def nextCluster (v : Fat32Volume) (cluster : UInt32) : Except FatFault UInt32 :=
  v.fat.elim (.error .nullPointer) fun fat => .ok (fat cluster.toNat &&& 0xFFFFFF)

/-- `a / b`. -/
def divide (a b : UInt32) : Except FatFault UInt32 :=
  if b = 0 then .error .divideByZero else .ok (a / b)

/-- What `fat32_init_volume` meets: whether `dma_alloc(SECTOR_SIZE)` and, failing that,
`vmm_alloc_page` return a buffer, whether there is an ATA drive, the drive, whether the second
read of the boot sector succeeds, and for the size of the FAT in bytes what `dma_alloc` returns,
as the words found there. -/
structure FatHost where
  sectorDma : Bool
  sectorPage : Bool
  drive : Bool
  disk : Disk
  rereads : Bool
  fatDma : UInt32 → Option (ℕ → UInt32)

/-- `"FAT32   "`. -/
def fat32Text : List UInt8 := [0x46, 0x41, 0x54, 0x33, 0x32, 0x20, 0x20, 0x20]

/-- The lines of `fat32_init_volume` after the header has been copied. -/
def initSizes (host : FatHost) (v : Fat32Volume) : Fat32Volume :=
  if v.header.bytesPerSector.toUInt32 ≠ sectorSize then v
  else
    let fatSize :=
      if v.header.fatSize16 = 0 then v.header.fatSize32 else v.header.fatSize16.toUInt32
    let v :=
      { v with
        fatSizeInSectors := fatSize
        dataStartSector :=
          v.header.reservedSectors.toUInt32 + v.header.fatCount.toUInt32 * fatSize }
    if host.rereads = false then v
    else if fatSize = 0 then v
    else
      match host.fatDma (fatSize * sectorSize) with
      | none => v
      | some fat =>
          { v with
            fat := some fat
            clusterSize := v.header.sectorsPerCluster.toUInt32 * sectorSize }

def fat32InitVolume (host : FatHost) : Fat32Volume :=
  if host.sectorDma = false ∧ host.sectorPage = false then .zero
  else if host.drive = false then .zero
  else
    match host.disk 0 with
    | none => .zero
    | some sector =>
        if sector 510 ≠ 0x55 ∨ sector 511 ≠ 0xAA then .zero
        else if (List.range 8).map (fun i => sector (82 + i)) ≠ fat32Text then .zero
        else initSizes host { Fat32Volume.zero with header := .parse sector }

/-! ### Files -/

/-- How a loop of `fat32_read_file` ends: the call returns, with what it has written to the
buffer, or the loop is left with so many bytes still to read. -/
inductive ReadOutcome
  | returned (success : Bool) (buffer : List UInt8)
  | left (bytesLeft : UInt32) (buffer : List UInt8)
deriving DecidableEq, Repr

/-- The `len` bytes at offset `start`. -/
def sectorBytes (m : Memory) (start len : ℕ) : List UInt8 :=
  (List.range len).map fun i => m (start + i)

/-- The inner loop of `fat32_read_file`, with `n` sectors of the cluster to come, the next of
them `sector`. -/
def readSectors (disk : Disk) : ℕ → UInt32 → UInt32 → UInt32 → List UInt8 →
    Except FatFault ReadOutcome
  | 0, _, _, bytesLeft, buffer => .ok (.left bytesLeft buffer)
  | n + 1, sector, offset, bytesLeft, buffer =>
      let offset := offset % sectorSize
      match disk sector with
      | none => .ok (.returned false buffer)
      | some bytes =>
          let bytesToRead := if bytesLeft + offset > sectorSize then sectorSize - offset
            else bytesLeft
          if sectorSize.toNat < offset.toNat + bytesToRead.toNat then .error .bufferOverrun
          else
            let buffer := buffer ++ sectorBytes bytes offset.toNat bytesToRead.toNat
            if bytesLeft - bytesToRead = 0 then .ok (.returned true buffer)
            else readSectors disk n (sector + 1) 0 (bytesLeft - bytesToRead) buffer

/-- The outer loop of `fat32_read_file`. The first sector of a cluster that is read is number
`offset / SECTOR_SIZE`. -/
def readClusters (disk : Disk) (v : Fat32Volume) : ℕ → UInt32 → UInt32 → UInt32 → List UInt8 →
    Except FatFault (Bool × List UInt8)
  | 0, _, _, _, _ => .error .outOfFuel
  | fuel + 1, cluster, offset, bytesLeft, buffer => do
      let first := offset / sectorSize
      match ← readSectors disk (v.header.sectorsPerCluster.toNat - first.toNat)
          (clusterToSector v cluster + first) offset bytesLeft buffer with
      | .returned success buffer => .ok (success, buffer)
      | .left bytesLeft buffer =>
          let next ← nextCluster v cluster
          if next = 0xFFFFFF then .ok (false, buffer)
          else
            readClusters disk v fuel next
              (if first.toNat < v.header.sectorsPerCluster.toNat then 0 else offset) bytesLeft
              buffer

/-- The first loop of `fat32_read_file`; `none` when it meets the end of the chain. -/
def advanceClusters (v : Fat32Volume) : ℕ → UInt32 → Except FatFault (Option UInt32)
  | 0, cluster => .ok (some cluster)
  | n + 1, cluster => do
      let next ← nextCluster v cluster
      if next = 0xFFFFFF then .ok none else advanceClusters v n next

/-- `fat32_read_file`: the result, and the bytes written to the buffer. -/
def fat32ReadFile (disk : Disk) (v : Fat32Volume) (fuel : ℕ) (file : Fat32File)
    (offset size : UInt32) : Except FatFault (Bool × List UInt8) :=
  if offset + size > file.size ∧ file.attrib &&& fat32IsDir = 0 then .ok (false, [])
  else do
    let clustersToAdvance ← divide offset v.clusterSize
    match ← advanceClusters v clustersToAdvance.toNat file.cluster with
    | none => .ok (false, [])
    | some cluster =>
        readClusters disk v fuel cluster (offset - clustersToAdvance * v.clusterSize) size []

/-! ### Directory entries -/

/-- The fields of `FAT32_Directory_Entry` behind the name. -/
def entryAttrib (entry : Memory) : UInt8 := entry 11
def entryLowercase (entry : Memory) : UInt8 := entry 12
def entryClusterHigh (entry : Memory) : UInt16 := le16 entry 20
def entryClusterLow (entry : Memory) : UInt16 := le16 entry 26
def entryFileSize (entry : Memory) : UInt32 := le32 entry 28

/-- The loop of `parse_short_filename` that takes the padding off the name, with the characters
below `n` to come; what is left of the name. -/
def trimSpaces : ℕ → Memory → ℕ × Memory
  | 0, output => (0, output)
  | n + 1, output =>
      if output n ≠ 0x20 then (n + 1, output) else trimSpaces n (Function.update output n 0)

/-- `parse_short_filename`. -/
def parseShortFilename (entry : Memory) : List UInt8 :=
  let (len, output) := trimSpaces 8 (CString.strncpy entry (fun _ => 0) 0 8)
  if entry 8 = 0x20 ∧ entry 9 = 0x20 ∧ entry 10 = 0x20 then
    CString.stringAt (Function.update output len 0) nameSize 0
  else
    let output := Function.update (Function.update output len 0x2E) (len + 1) 0
    let output := CString.strncat (fun i => entry (8 + i)) output nameSize 3
    CString.stringAt
      (if entryLowercase entry ≠ 0 then fun i => if i < 13 then CString.tolower (output i)
        else output i else output) nameSize 0

/-- The UTF-16 units of a long-name entry. -/
def lfnChar (lfn : Memory) (i : ℕ) : UInt16 :=
  if i < 5 then le16 lfn (1 + 2 * i)
  else if i < 11 then le16 lfn (14 + 2 * (i - 5))
  else le16 lfn (28 + 2 * (i - 11))

/-- `lfn->sequence & 0x1F`. -/
def lfnSequence (lfn : Memory) : UInt8 := lfn 0 &&& 0x1F

/-- The loop of `parse_lfn_entry`, with `n` characters to come from number `i` on. -/
def parseLfnChars (lfn : Memory) : ℕ → ℕ → Memory → Except FatFault Memory
  | 0, _, buffer => .ok buffer
  | n + 1, i, buffer =>
      if lfnChar lfn i = 0xFFFF then .ok buffer
      else
        let index := ((lfnSequence lfn).toNat - 1) * 13 + i
        if nameSize ≤ index then .error .bufferOverrun
        else parseLfnChars lfn n (i + 1) (Function.update buffer index (lfnChar lfn i).toUInt8)

/-- `parse_lfn_entry`. -/
def parseLfnEntry (lfn buffer : Memory) : Except FatFault Memory := parseLfnChars lfn 13 0 buffer

/-- The loop of `fat32_next_dir_entry` that puts the parts together, with `n` of them to come
from number `i` on. -/
def joinParts (buffer : Memory) (parts : ℕ) : ℕ → ℕ → Memory → Memory
  | 0, _, temp => temp
  | n + 1, i, temp =>
      joinParts buffer parts n (i + 1)
        (CString.strncpy (fun j => buffer ((parts - i - 1) * 13 + j)) temp (i * 13) 13)

/-- The long name of `parts` parts. -/
def joinLfn (buffer : Memory) (parts : ℕ) : Except FatFault (List UInt8) :=
  if nameSize ≤ parts * 13 then .error .bufferOverrun
  else
    .ok (CString.stringAt
      (Function.update (joinParts buffer parts parts 0 fun _ => 0) (parts * 13) 0) nameSize 0)

/-- What `fat32_next_dir_entry` writes to `out_file` and `out_name`. -/
structure DirEntry where
  file : Fat32File
  name : List UInt8
deriving DecidableEq, Repr

/-- `out_file` for a directory entry. -/
def entryFile (entry : Memory) : Fat32File where
  attrib := (entryAttrib entry).toUInt32
  cluster := (entryClusterHigh entry).toUInt32 <<< 16 ||| (entryClusterLow entry).toUInt32
  size := entryFileSize entry

/-- A turn of the loop of `fat32_next_dir_entry`, for an entry that was read. -/
def entryStep (st : LfnState) (entry : Memory) : Except FatFault (LfnState × Option DirEntry) :=
  if entryAttrib entry = dirEntryAttribLfn then
    let seq := lfnSequence entry
    if seq = 0 then .ok (st, none)
    else do
      let buffer ← parseLfnEntry entry st.buffer
      .ok ({ buffer := buffer, length := if st.length < seq then seq else st.length }, none)
  else if 0 < st.length then do
    let name ← joinLfn st.buffer st.length.toNat
    .ok ({ st with length := 0 }, some { file := entryFile entry, name := name })
  else .ok (st, some { file := entryFile entry, name := parseShortFilename entry })

/-! ### Directories -/

/-- `fat32_list_dir`. -/
def fat32ListDir (dir : Fat32File) (list : Fat32DirList) : Fat32DirList :=
  if dir.attrib &&& fat32IsDir = 0 then list
  else { list with cluster := dir.cluster, entry := 0, bufferedSector := 0 }

/-- The last lines of `read_next_entry`, on a list whose entry lies in its cluster. -/
def readEntry (disk : Disk) (v : Fat32Volume) (list : Fat32DirList) :
    Option Memory × Fat32DirList :=
  let rightSector :=
    clusterToSector v list.cluster + list.entry / (sectorSize / dirEntrySize)
  let read :=
    if list.bufferedSector ≠ rightSector then
      (disk rightSector).map fun bytes =>
        { list with sectorBuffer := bytes, bufferedSector := rightSector }
    else some list
  match read with
  | none => (none, list)
  | some list =>
      let start := (list.entry % (sectorSize / dirEntrySize)).toNat * dirEntrySize.toNat
      let entry : Memory := fun i => list.sectorBuffer (start + i)
      let list := { list with entry := list.entry + 1 }
      if entry 0 = 0 then (none, list) else (some entry, list)

/-- `read_next_entry`. -/
def readNextEntry (disk : Disk) (v : Fat32Volume) (list : Fat32DirList) :
    Except FatFault (Option Memory × Fat32DirList) :=
  if v.clusterSize / dirEntrySize ≤ list.entry then do
    let next ← nextCluster v list.cluster
    if next = 0xFFFFFF then .ok (none, { list with cluster := next })
    else .ok (readEntry disk v { list with cluster := next, entry := 0 })
  else .ok (readEntry disk v list)

/-- What the caller holds between two calls of `fat32_next_dir_entry`. -/
structure DirState where
  lfn : LfnState
  list : Fat32DirList

/-- `fat32_next_dir_entry`. -/
def fat32NextDirEntry (disk : Disk) (v : Fat32Volume) :
    ℕ → DirState → Except FatFault (Option DirEntry × DirState)
  | 0, _ => .error .outOfFuel
  | fuel + 1, st => do
      let (entry, list) ← readNextEntry disk v st.list
      match entry with
      | none => .ok (none, { lfn := { st.lfn with length := 0 }, list := list })
      | some entry =>
          let (lfn, out) ← entryStep st.lfn entry
          match out with
          | none => fat32NextDirEntry disk v fuel { lfn := lfn, list := list }
          | some out => .ok (some out, { lfn := lfn, list := list })

/-! ### Paths -/

/-- `fat32_strcasecmp`, on strings without their terminators. -/
def fat32Strcasecmp : List UInt8 → List UInt8 → Int
  | [], [] => 0
  | c :: _, [] => (CString.toupper c).toNat
  | [], c :: _ => -(CString.toupper c).toNat
  | c :: s, d :: t =>
      if CString.toupper c = CString.toupper d then fat32Strcasecmp s t
      else (CString.toupper c).toNat - (CString.toupper d).toNat

/-- The inner loop of `fat32_find_file`: the first entry of the name. -/
def findEntry (disk : Disk) (v : Fat32Volume) (component : List UInt8) :
    ℕ → DirState → Except FatFault (Option Fat32File × LfnState)
  | 0, _ => .error .outOfFuel
  | fuel + 1, st => do
      let (out, st) ← fat32NextDirEntry disk v (fuel + 1) st
      match out with
      | none => .ok (none, st.lfn)
      | some entry =>
          if fat32Strcasecmp entry.name component = 0 then .ok (some entry.file, st.lfn)
          else findEntry disk v component fuel st

/-- The outer loop of `fat32_find_file` on what is left of the path, which begins behind a slash
or at its start; `stale` is what the turns of the loop find in `list` on the stack. -/
def findPath (disk : Disk) (v : Fat32Volume) (stale : ℕ → Fat32DirList) (fuel : ℕ) :
    ℕ → List UInt8 → Fat32File → LfnState → Except FatFault (Option Fat32File × LfnState)
  | 0, _, current, lfn => .ok (some current, lfn)
  | n + 1, path, current, lfn =>
      let component := path.takeWhile (· ≠ 0x2F)
      let rest := path.dropWhile (· ≠ 0x2F)
      if component = [] then .ok (some current, lfn)
      else if nameSize ≤ component.length then .error .bufferOverrun
      else do
        let st : DirState := { lfn := lfn, list := fat32ListDir current (stale n) }
        let (found, lfn) ← findEntry disk v (component.map CString.toupper) fuel st
        match found with
        | none => .ok (none, lfn)
        | some file =>
            if file.attrib &&& fat32IsDir = 0 ∧ rest ≠ [] then .ok (none, lfn)
            else findPath disk v stale fuel n (rest.drop 1) file lfn

/-- `fat32_find_file`: the file, if it is found, for a path without its terminator. -/
def fat32FindFile (disk : Disk) (v : Fat32Volume) (stale : ℕ → Fat32DirList) (fuel : ℕ)
    (path : List UInt8) (lfn : LfnState) : Except FatFault (Option Fat32File × LfnState) :=
  if path = [] then .ok (none, lfn)
  else
    findPath disk v stale fuel path.length (if path.head? = some 0x2F then path.drop 1 else path)
      { attrib := fat32IsDir, cluster := v.header.rootCluster, size := 0 } lfn

end HalOS
