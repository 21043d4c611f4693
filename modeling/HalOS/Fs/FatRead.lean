import HalOS.Fs.FatChain
import Mathlib.Logic.Function.Iterate

/-!
# Reading Files

`fat32_read_file` walks the chain with the links as its mask leaves them, and reads sector by
sector from the cluster it arrives at. The closed form of the read says what it returns on a drive
where these sectors are readable; comparing it with the bytes of the chain, and the 32-bit check of
the range with the sum it stands for, gives the condition.

## Main results

* `fat32ReadFile_eq`: the bytes that a read returns.
* `readsFile_iff_walkServes`: when they are the bytes of the file.
-/

namespace HalOS

open CString (Memory)
open Outcome (bind_eq_ok)

/-! ### Bytes of blocks -/

/-- The `len` bytes from offset `start` on of blocks of 512 bytes. -/
def blockBytes (block : ℕ → Memory) (start len : ℕ) : List UInt8 :=
  (List.range len).map fun i => block ((start + i) / 512) ((start + i) % 512)

variable {block block' : ℕ → Memory} {start len : ℕ}

theorem blockBytes_zero (block : ℕ → Memory) (start : ℕ) : blockBytes block start 0 = [] := rfl

theorem length_blockBytes : (blockBytes block start len).length = len := by
  rw [blockBytes, List.length_map, List.length_range]

theorem getElem_blockBytes {i : ℕ} (h : i < (blockBytes block start len).length) :
    (blockBytes block start len)[i] = block ((start + i) / 512) ((start + i) % 512) := by
  simp only [blockBytes, List.getElem_map, List.getElem_range]

theorem blockBytes_congr
    (h : ∀ p, start ≤ p → p < start + len → block (p / 512) = block' (p / 512)) :
    blockBytes block start len = blockBytes block' start len := by
  refine List.map_congr_left fun i hi => ?_
  have hi := List.mem_range.mp hi
  rw [h (start + i) (Nat.le_add_right start i) (by omega)]

theorem blockBytes_add (block : ℕ → Memory) (start m len : ℕ) :
    blockBytes block start (m + len) =
      blockBytes block start m ++ blockBytes block (start + m) len := by
  rw [blockBytes, List.range_add, List.map_append, List.map_map]
  congr 1
  refine List.map_congr_left fun i _ => ?_
  simp only [Function.comp_apply, Nat.add_assoc]

/-- Counting the blocks from a later one. -/
theorem blockBytes_shift (block : ℕ → Memory) (k start len : ℕ) :
    blockBytes block (k * 512 + start) len = blockBytes (fun j => block (j + k)) start len := by
  refine List.map_congr_left fun i _ => ?_
  have hdiv : (k * 512 + start + i) / 512 = (start + i) / 512 + k := by omega
  have hmod : (k * 512 + start + i) % 512 = (start + i) % 512 := by omega
  rw [hdiv, hmod]

theorem sectorBytes_eq (h : start + len ≤ 512) :
    sectorBytes (block 0) start len = blockBytes block start len := by
  refine List.map_congr_left fun i hi => ?_
  have hi := List.mem_range.mp hi
  have hdiv : (start + i) / 512 = 0 := by omega
  have hmod : (start + i) % 512 = start + i := by omega
  rw [hdiv, hmod]

/-! ### The sectors of a cluster -/

variable {disk : Disk}

theorem toNat_ofNat_of_lt {n : ℕ} (h : n < 4294967296) : (UInt32.ofNat n).toNat = n :=
  UInt32.toNat_ofNat_of_lt' h

theorem toNat_mod_sectorSize_lt (offset : UInt32) : (offset % sectorSize).toNat < 512 := by
  rw [UInt32.toNat_mod]
  exact Nat.mod_lt _ (by decide)

/-- What is read of one sector. -/
theorem bytesToRead_eq {offset : UInt32} {o left : ℕ} (ho : offset.toNat = o) (ho512 : o < 512)
    (hsum : o + left < 4294967296) :
    (if UInt32.ofNat left + offset > sectorSize then sectorSize - offset
      else UInt32.ofNat left).toNat = min (512 - o) left := by
  have hleft := toNat_ofNat_of_lt (by omega : left < 4294967296)
  have hle : offset ≤ sectorSize := by
    rw [UInt32.le_iff_toNat_le, ho]
    exact Nat.le_of_lt ho512
  have hadd : (UInt32.ofNat left + offset).toNat = left + o := by
    rw [UInt32.toNat_add, hleft, ho]
    exact Nat.mod_eq_of_lt (by omega)
  by_cases hmore : UInt32.ofNat left + offset > sectorSize
  · rw [if_pos hmore, UInt32.toNat_sub_of_le _ _ hle, ho]
    rw [gt_iff_lt, UInt32.lt_iff_toNat_lt, hadd] at hmore
    change 512 < _ at hmore
    change 512 - o = _
    omega
  · rw [if_neg hmore, hleft]
    rw [gt_iff_lt, UInt32.lt_iff_toNat_lt, hadd] at hmore
    change ¬ 512 < _ at hmore
    omega

/-- One sector: the read ends in it, or goes on at the start of the next one. -/
theorem readSectors_succ {n : ℕ} {sector offset : UInt32} {o left : ℕ}
    (ho : (offset % sectorSize).toNat = o) (hpos : 0 < left) (hsum : o + left < 4294967296)
    {bytes : Memory} (hsector : disk sector = some bytes) (buffer : List UInt8) :
    readSectors disk (n + 1) sector offset (UInt32.ofNat left) buffer =
      if o + left ≤ 512 then .ok (.returned true (buffer ++ sectorBytes bytes o left))
      else readSectors disk n (sector + 1) 0 (UInt32.ofNat (left - (512 - o)))
        (buffer ++ sectorBytes bytes o (512 - o)) := by
  have ho512 : o < 512 := ho ▸ toNat_mod_sectorSize_lt offset
  rw [readSectors, hsector]
  dsimp only
  generalize offset % sectorSize = offset' at ho ⊢
  have hlen := bytesToRead_eq ho ho512 hsum
  generalize (if UInt32.ofNat left + offset' > sectorSize then sectorSize - offset'
    else UInt32.ofNat left) = m at hlen ⊢
  have hfits : ¬ sectorSize.toNat < offset'.toNat + m.toNat := by
    rw [ho, hlen]
    change ¬ 512 < _
    omega
  have hleft := toNat_ofNat_of_lt (by omega : left < 4294967296)
  have hm : m ≤ UInt32.ofNat left := by
    rw [UInt32.le_iff_toNat_le, hlen, hleft]
    omega
  have hsub : UInt32.ofNat left - m = UInt32.ofNat (left - min (512 - o) left) := by
    rw [← UInt32.toNat_inj, UInt32.toNat_sub_of_le _ _ hm, hleft, hlen,
      toNat_ofNat_of_lt (by omega)]
  rw [if_neg hfits, ho, hlen, hsub]
  by_cases hlast : o + left ≤ 512
  · have hmin : min (512 - o) left = left := by omega
    rw [hmin, Nat.sub_self, if_pos hlast]
    exact if_pos rfl
  · have hmin : min (512 - o) left = 512 - o := by omega
    have hne : UInt32.ofNat (left - (512 - o)) ≠ 0 := by
      intro h0
      have := congrArg UInt32.toNat h0
      rw [toNat_ofNat_of_lt (by omega)] at this
      change left - (512 - o) = 0 at this
      omega
    rw [hmin, if_neg hne, if_neg hlast]

/-- The sectors of a cluster from one on: the read ends in them, or they are read to the end. -/
theorem readSectors_eq (block : ℕ → Memory) {n : ℕ} {sector offset : UInt32} {o left : ℕ}
    (ho : (offset % sectorSize).toNat = o) (hpos : 0 < left) (hsum : o + left < 4294967296)
    (hblock : ∀ j < n, j * 512 < o + left → disk (sector + UInt32.ofNat j) = some (block j))
    (buffer : List UInt8) :
    readSectors disk n sector offset (UInt32.ofNat left) buffer = .ok
      (if o + left ≤ n * 512 then .returned true (buffer ++ blockBytes block o left)
      else .left (UInt32.ofNat (left - (n * 512 - o)))
        (buffer ++ blockBytes block o (n * 512 - o))) := by
  induction n generalizing sector offset o left block buffer with
  | zero =>
      rw [readSectors, if_neg (by omega), Nat.zero_mul, Nat.zero_sub, Nat.sub_zero,
        blockBytes_zero, List.append_nil]
  | succ n ih =>
      have hfirst : disk sector = some (block 0) := by
        have hsector : sector + UInt32.ofNat 0 = sector := UInt32.add_zero sector
        have hneeded : 0 * 512 < o + left := by
          rw [Nat.zero_mul]
          omega
        exact hsector ▸ hblock 0 (Nat.succ_pos n) hneeded
      rw [readSectors_succ ho hpos hsum hfirst]
      by_cases hlast : o + left ≤ 512
      · rw [if_pos hlast, if_pos (by omega : o + left ≤ (n + 1) * 512), sectorBytes_eq hlast]
      have ho512 : o < 512 := ho ▸ toNat_mod_sectorSize_lt offset
      rw [if_neg hlast,
        ih (fun j => block (j + 1)) (o := 0) (by decide) (by omega) (by omega)]
      · have hjoin : ∀ l, sectorBytes (block 0) o (512 - o) ++
            blockBytes (fun j => block (j + 1)) 0 l = blockBytes block o (512 - o + l) := by
          intro l
          rw [sectorBytes_eq (by omega), blockBytes_add, ← blockBytes_shift,
            (by omega : o + (512 - o) = 1 * 512 + 0)]
        rw [List.append_assoc, List.append_assoc, hjoin, hjoin]
        by_cases hend : o + left ≤ (n + 1) * 512
        · rw [if_pos (by omega), if_pos hend, (by omega : 512 - o + (left - (512 - o)) = left)]
        · rw [if_neg (by omega), if_neg hend,
            (by omega : 512 - o + (n * 512 - 0) = (n + 1) * 512 - o),
            (by omega : left - (512 - o) - (n * 512 - 0) = left - ((n + 1) * 512 - o))]
      · intro j hj hj'
        have hsector : sector + UInt32.ofNat (j + 1) = sector + 1 + UInt32.ofNat j := by
          rw [UInt32.ofNat_add, UInt32.add_comm (UInt32.ofNat j), ← UInt32.add_assoc]
          rfl
        have hrest : 0 + (left - (512 - o)) = o + left - 512 := by omega
        have hneeded : (j + 1) * 512 < o + left := by
          rw [hrest] at hj'
          rw [Nat.succ_mul]
          exact Nat.add_lt_of_lt_sub hj'
        exact hsector ▸ hblock (j + 1) (Nat.succ_lt_succ hj) hneeded

/-! ### The walk -/

/-- The cluster behind `c`, as the mask leaves it. -/
def maskedNext (fat : ℕ → UInt32) (c : UInt32) : UInt32 := fat c.toNat &&& 0xFFFFFF

/-- Cluster `k` of the walk from `c`. -/
def maskedWalk (fat : ℕ → UInt32) (c : UInt32) (k : ℕ) : UInt32 := (maskedNext fat)^[k] c

variable {v : Fat32Volume} {fat : ℕ → UInt32} {c : UInt32}

theorem maskedWalk_succ (fat : ℕ → UInt32) (c : UInt32) (k : ℕ) :
    maskedWalk fat c (k + 1) = maskedWalk fat (maskedNext fat c) k :=
  Function.iterate_succ_apply _ k c

/-- The walk meets no end in its first `n` links. -/
def UnbrokenWalk (fat : ℕ → UInt32) (c : UInt32) (n : ℕ) : Prop :=
  ∀ k < n, maskedWalk fat c (k + 1) ≠ 0xFFFFFF

theorem unbroken_succ_iff {n : ℕ} :
    UnbrokenWalk fat c (n + 1) ↔
      maskedNext fat c ≠ 0xFFFFFF ∧ UnbrokenWalk fat (maskedNext fat c) n := by
  constructor
  · intro h
    refine ⟨h 0 (Nat.succ_pos n), fun k hk => ?_⟩
    rw [← maskedWalk_succ]
    exact h (k + 1) (Nat.succ_lt_succ hk)
  · rintro ⟨h0, h⟩ k hk
    cases k with
    | zero => exact h0
    | succ k =>
        rw [maskedWalk_succ]
        exact h k (Nat.lt_of_succ_lt_succ hk)

/-- The first loop goes along the walk, and gives up at its end. -/
theorem advanceClusters_eq (hg : Geometry v fat) (n : ℕ) (c : UInt32) :
    (UnbrokenWalk fat c n → advanceClusters v n c = .ok (some (maskedWalk fat c n))) ∧
      (¬ UnbrokenWalk fat c n → advanceClusters v n c = .ok none) := by
  induction n generalizing c with
  | zero => exact ⟨fun _ => rfl, fun h => absurd (fun k hk => absurd hk (Nat.not_lt_zero k)) h⟩
  | succ n ih =>
      rw [advanceClusters, hg.nextCluster_eq, unbroken_succ_iff, maskedWalk_succ]
      change (_ → (if maskedNext fat c = 0xFFFFFF then Except.ok none
        else advanceClusters v n (maskedNext fat c)) = _) ∧ _
      by_cases hend : maskedNext fat c = 0xFFFFFF
      · exact ⟨fun h => absurd hend h.1, fun _ => if_pos hend⟩
      · refine ⟨fun h => (if_neg hend).trans ((ih _).1 h.2), fun h => (if_neg hend).trans ?_⟩
        exact (ih _).2 fun hrest => h ⟨hend, hrest⟩

/-- A turn of the outer loop. -/
theorem readClusters_turn (hg : Geometry v fat) (fuel : ℕ) (c offset bytesLeft : UInt32)
    (buffer : List UInt8) (hoffset : offset.toNat < v.clusterSize.toNat) :
    readClusters disk v (fuel + 1) c offset bytesLeft buffer =
      (readSectors disk (v.header.sectorsPerCluster.toNat - offset.toNat / 512)
          (clusterToSector v c + UInt32.ofNat (offset.toNat / 512)) offset bytesLeft buffer >>=
        fun
          | .returned success buffer => .ok (success, buffer)
          | .left bytesLeft buffer =>
              if maskedNext fat c = 0xFFFFFF then .ok (false, buffer)
              else readClusters disk v fuel (maskedNext fat c) 0 bytesLeft buffer) := by
  have hfirst : offset / sectorSize = UInt32.ofNat (offset.toNat / 512) := by
    rw [← UInt32.toNat_inj, UInt32.toNat_div, toNat_ofNat_of_lt]
    · rfl
    · have := offset.toNat_lt
      omega
  have hfirst' : (offset / sectorSize).toNat = offset.toNat / 512 := UInt32.toNat_div _ _
  have hlt : offset.toNat / 512 < v.header.sectorsPerCluster.toNat := by
    rw [hg.toNat_clusterSize] at hoffset
    omega
  rw [readClusters, hfirst', hfirst, if_pos hlt]
  congr 1
  funext out
  cases out with
  | returned success buffer => rfl
  | left bytesLeft buffer =>
      rw [hg.nextCluster_eq]
      rfl

/-- A sector of the cluster that is needed has a byte of the read in it. -/
theorem exists_pos_of_block {n o left j : ℕ} (hj : j < n - o / 512)
    (hneeded : j * 512 < o % 512 + left) (ho : o < n * 512) (hpos : 0 < left) :
    ∃ p, o ≤ p ∧ p < o + left ∧ p < n * 512 ∧ p / 512 = j + o / 512 := by
  by_cases h0 : j = 0
  · exact ⟨o, Nat.le_refl o, by omega, ho, by omega⟩
  · have hmod := Nat.div_add_mod' o 512
    have hmul : (j + o / 512) * 512 = j * 512 + o / 512 * 512 := Nat.add_mul j (o / 512) 512
    refine ⟨(j + o / 512) * 512, by omega, ?_, ?_, by omega⟩
    · calc (j + o / 512) * 512 = j * 512 + o / 512 * 512 := hmul
        _ < o % 512 + left + o / 512 * 512 := Nat.add_lt_add_right hneeded _
        _ = o + left := by omega
    · exact Nat.mul_lt_mul_of_pos_right (Nat.add_lt_of_lt_sub hj) (by decide)

/-- The sectors that a turn reads: the read ends in the cluster, or the cluster is read to its
end. -/
theorem readSectors_cluster (block : ℕ → Memory) (hg : Geometry v fat) {o left : ℕ}
    (ho : o < v.clusterSize.toNat) (hpos : 0 < left) (hsum : o + left < 4294967296)
    (hblock : ∀ p, o ≤ p → p < o + left → p < v.clusterSize.toNat →
      disk (clusterToSector v c + UInt32.ofNat (p / 512)) = some (block (p / 512)))
    (buffer : List UInt8) :
    readSectors disk (v.header.sectorsPerCluster.toNat - o / 512)
        (clusterToSector v c + UInt32.ofNat (o / 512)) (UInt32.ofNat o) (UInt32.ofNat left)
        buffer = .ok
      (if o + left ≤ v.clusterSize.toNat then .returned true (buffer ++ blockBytes block o left)
      else .left (UInt32.ofNat (left - (v.clusterSize.toNat - o)))
        (buffer ++ blockBytes block o (v.clusterSize.toNat - o))) := by
  have hcs := hg.toNat_clusterSize
  have hoffset : (UInt32.ofNat o % sectorSize).toNat = o % 512 := by
    rw [UInt32.toNat_mod, toNat_ofNat_of_lt (by omega)]
    rfl
  have hshift : ∀ l, blockBytes (fun j => block (j + o / 512)) (o % 512) l =
      blockBytes block o l := by
    intro l
    rw [← blockBytes_shift, Nat.div_add_mod']
  rw [hcs] at ho hblock ⊢
  rw [readSectors_eq (fun j => block (j + o / 512)) hoffset hpos (by omega)]
  · rw [hshift, hshift]
    by_cases hend : o + left ≤ v.header.sectorsPerCluster.toNat * 512
    · rw [if_pos (by omega), if_pos hend]
    · rw [if_neg (by omega), if_neg hend,
        (by omega : (v.header.sectorsPerCluster.toNat - o / 512) * 512 - o % 512 =
          v.header.sectorsPerCluster.toNat * 512 - o)]
  · intro j hj hneeded
    obtain ⟨p, hop, hpl, hpc, hdiv⟩ := exists_pos_of_block hj hneeded ho hpos
    have hsector : clusterToSector v c + UInt32.ofNat (o / 512) + UInt32.ofNat j =
        clusterToSector v c + UInt32.ofNat (j + o / 512) := by
      rw [UInt32.add_assoc, ← UInt32.ofNat_add, Nat.add_comm]
    rw [hsector, ← hdiv]
    exact hblock p hop hpl hpc

/-- A read that stays on the walk returns its bytes. -/
theorem readClusters_eq (disk : Disk) (block : ℕ → Memory) (hg : Geometry v fat) {fuel o left : ℕ}
    (ho : o < v.clusterSize.toNat) (hpos : 0 < left) (hsum : o + left < 4294967296)
    (hwalk : UnbrokenWalk fat c ((o + left - 1) / v.clusterSize.toNat))
    (hblock : ∀ p, o ≤ p → p < o + left →
      disk (clusterToSector v (maskedWalk fat c (p / v.clusterSize.toNat)) +
        UInt32.ofNat (p / 512 % v.header.sectorsPerCluster.toNat)) = some (block (p / 512)))
    (hfuel : (o + left - 1) / v.clusterSize.toNat < fuel) (buffer : List UInt8) :
    readClusters disk v fuel c (UInt32.ofNat o) (UInt32.ofNat left) buffer =
      .ok (true, buffer ++ blockBytes block o left) := by
  induction fuel generalizing c o left block buffer with
  | zero => exact absurd hfuel (Nat.not_lt_zero _)
  | succ fuel ih =>
      have hcs := hg.toNat_clusterSize
      have hn := hg.spc_pos
      have hoffset := toNat_ofNat_of_lt (by omega : o < 4294967296)
      rw [readClusters_turn hg fuel c _ _ buffer (by rw [hoffset]; exact ho), hoffset,
        readSectors_cluster block hg ho hpos hsum]
      · by_cases hend : o + left ≤ v.clusterSize.toNat
        · rw [if_pos hend]
          rfl
        rw [if_neg hend]
        have hrest : o + left - 1 = 0 + (left - (v.clusterSize.toNat - o)) - 1 +
            v.clusterSize.toNat := by omega
        have hcspos : 0 < v.clusterSize.toNat := by omega
        rw [hrest, Nat.add_div_right _ hcspos] at hwalk hfuel
        obtain ⟨hnext, hwalk'⟩ := unbroken_succ_iff.mp hwalk
        change (if maskedNext fat c = 0xFFFFFF then _ else _) = _
        rw [if_neg hnext]
        refine (ih (fun j => block (j + v.header.sectorsPerCluster.toNat)) (o := 0)
          hcspos (by omega) (by omega) hwalk' (fun p _ hp => ?_)
          (Nat.lt_of_succ_lt_succ hfuel) _).trans ?_
        · have hp' := hblock (p + v.clusterSize.toNat) (by omega) (by omega)
          rw [Nat.add_div_right _ hcspos, maskedWalk_succ] at hp'
          have hdiv : (p + v.clusterSize.toNat) / 512 =
              p / 512 + v.header.sectorsPerCluster.toNat := by
            rw [hcs]
            omega
          rwa [hdiv, Nat.add_mod_right] at hp'
        · have hjoin : o + (v.clusterSize.toNat - o) =
              v.header.sectorsPerCluster.toNat * 512 + 0 := by omega
          rw [List.append_assoc, ← blockBytes_shift, ← hjoin, ← blockBytes_add,
            (by omega : v.clusterSize.toNat - o + (left - (v.clusterSize.toNat - o)) = left)]
      · intro p hop hpl hpc
        have hp := hblock p hop hpl
        have hlt : p / 512 < v.header.sectorsPerCluster.toNat := by
          rw [hcs] at hpc
          omega
        rw [Nat.div_eq_of_lt hpc, Nat.mod_eq_of_lt hlt] at hp
        exact hp

/-- A read whose walk ends too early does not succeed. -/
theorem readClusters_broken (hg : Geometry v fat) {sectors : UInt32 → Memory}
    (htotal : ∀ s, disk s = some (sectors s)) {o left : ℕ} (ho : o < v.clusterSize.toNat)
    (hpos : 0 < left) (hsum : o + left < 4294967296)
    (hwalk : ¬ UnbrokenWalk fat c ((o + left - 1) / v.clusterSize.toNat)) (fuel : ℕ)
    (buffer written : List UInt8) :
    readClusters disk v fuel c (UInt32.ofNat o) (UInt32.ofNat left) buffer ≠
      .ok (true, written) := by
  induction fuel generalizing c o left buffer with
  | zero => exact nofun
  | succ fuel ih =>
      have hoffset := toNat_ofNat_of_lt (by omega : o < 4294967296)
      rw [readClusters_turn hg fuel c _ _ buffer (by rw [hoffset]; exact ho), hoffset,
        readSectors_cluster (fun j => sectors (clusterToSector v c + UInt32.ofNat j)) hg ho
          hpos hsum fun p _ _ _ => htotal _]
      by_cases hend : o + left ≤ v.clusterSize.toNat
      · refine absurd (fun k hk => absurd hk ?_) hwalk
        rw [Nat.div_eq_of_lt (by omega)]
        exact Nat.not_lt_zero k
      rw [if_neg hend]
      change (if maskedNext fat c = 0xFFFFFF then _ else _) ≠ _
      by_cases hnext : maskedNext fat c = 0xFFFFFF
      · rw [if_pos hnext]
        exact nofun
      rw [if_neg hnext]
      have hrest : o + left - 1 = 0 + (left - (v.clusterSize.toNat - o)) - 1 +
          v.clusterSize.toNat := by omega
      rw [hrest, Nat.add_div_right _ (by omega)] at hwalk
      exact ih (o := 0) (by omega) (by omega) (by omega)
        (fun h => hwalk (unbroken_succ_iff.mpr ⟨hnext, h⟩)) _

/-! ### What a read touches -/

/-- The bytes written when a loop ends. -/
def ReadOutcome.buffer : ReadOutcome → List UInt8
  | .returned _ buffer => buffer
  | .left _ buffer => buffer

/-- Bytes that are written stay written. -/
theorem length_readSectors {n : ℕ} {sector offset bytesLeft : UInt32} {buffer : List UInt8}
    {out : ReadOutcome} (h : readSectors disk n sector offset bytesLeft buffer = .ok out) :
    buffer.length ≤ out.buffer.length := by
  induction n generalizing sector offset bytesLeft buffer with
  | zero =>
      obtain rfl := Except.ok.inj h
      exact Nat.le_refl _
  | succ n ih =>
      rw [readSectors] at h
      dsimp only at h
      cases hdisk : disk sector with
      | none =>
          rw [hdisk] at h
          obtain rfl := Except.ok.inj h
          exact Nat.le_refl _
      | some bytes =>
          rw [hdisk] at h
          dsimp only at h
          generalize (if bytesLeft + offset % sectorSize > sectorSize then
            sectorSize - offset % sectorSize else bytesLeft) = m at h
          by_cases hover : sectorSize.toNat < (offset % sectorSize).toNat + m.toNat
          · rw [if_pos hover] at h
            cases h
          rw [if_neg hover] at h
          have happend : buffer.length ≤
              (buffer ++ sectorBytes bytes (offset % sectorSize).toNat m.toNat).length := by
            rw [List.length_append]
            exact Nat.le_add_right _ _
          by_cases hdone : bytesLeft - m = 0
          · rw [if_pos hdone] at h
            obtain rfl := Except.ok.inj h
            exact happend
          · rw [if_neg hdone] at h
            exact happend.trans (ih h)

theorem length_readClusters {fuel : ℕ} {offset bytesLeft : UInt32} {buffer written : List UInt8}
    {success : Bool} (h : readClusters disk v fuel c offset bytesLeft buffer =
      .ok (success, written)) : buffer.length ≤ written.length := by
  induction fuel generalizing c offset bytesLeft buffer with
  | zero => cases h
  | succ fuel ih =>
      rw [readClusters] at h
      obtain ⟨out, hout, h⟩ := bind_eq_ok.mp h
      have hlen := length_readSectors hout
      cases out with
      | returned success' buffer' =>
          obtain ⟨-, rfl⟩ := Prod.mk.inj (Except.ok.inj h)
          exact hlen
      | left bytesLeft' buffer' =>
          obtain ⟨next, -, h⟩ := bind_eq_ok.mp h
          by_cases hend : next = 0xFFFFFF
          · rw [if_pos hend] at h
            obtain ⟨-, rfl⟩ := Prod.mk.inj (Except.ok.inj h)
            exact hlen
          · rw [if_neg hend] at h
            exact hlen.trans (ih h)

/-- The first sector that is read writes something. -/
theorem length_lt_readSectors {n : ℕ} {sector offset bytesLeft : UInt32} {bytes : Memory}
    (hdisk : disk sector = some bytes) (hleft : bytesLeft ≠ 0) {buffer : List UInt8}
    {out : ReadOutcome} (h : readSectors disk (n + 1) sector offset bytesLeft buffer = .ok out) :
    buffer.length < out.buffer.length := by
  have hmod := toNat_mod_sectorSize_lt offset
  rw [readSectors] at h
  dsimp only at h
  rw [hdisk] at h
  dsimp only at h
  generalize offset % sectorSize = offset' at h hmod
  have hm : 0 < (if bytesLeft + offset' > sectorSize then sectorSize - offset'
      else bytesLeft).toNat := by
    by_cases hmore : bytesLeft + offset' > sectorSize
    · have hle : offset' ≤ sectorSize := UInt32.le_iff_toNat_le.mpr (Nat.le_of_lt hmod)
      rw [if_pos hmore, UInt32.toNat_sub_of_le _ _ hle]
      exact Nat.sub_pos_of_lt hmod
    · rw [if_neg hmore]
      exact Nat.pos_of_ne_zero fun h0 => hleft (UInt32.toNat_inj.mp h0)
  generalize (if bytesLeft + offset' > sectorSize then sectorSize - offset' else bytesLeft) = m
    at h hm
  by_cases hover : sectorSize.toNat < offset'.toNat + m.toNat
  · rw [if_pos hover] at h
    cases h
  rw [if_neg hover] at h
  have happend : buffer.length < (buffer ++ sectorBytes bytes offset'.toNat m.toNat).length := by
    rw [List.length_append, sectorBytes, List.length_map, List.length_range]
    exact Nat.lt_add_of_pos_right hm
  by_cases hdone : bytesLeft - m = 0
  · rw [if_pos hdone] at h
    obtain rfl := Except.ok.inj h
    exact happend
  · rw [if_neg hdone] at h
    exact happend.trans_le (length_readSectors h)

/-- A read that gets as far as a readable sector does not leave the buffer alone. -/
theorem readClusters_ne_untouched (hg : Geometry v fat) {sectors : UInt32 → Memory}
    (htotal : ∀ s, disk s = some (sectors s)) {offset bytesLeft : UInt32}
    (hoffset : offset.toNat < v.clusterSize.toNat) (hleft : bytesLeft ≠ 0) (fuel : ℕ) :
    readClusters disk v fuel c offset bytesLeft [] ≠ .ok (false, []) := by
  cases fuel with
  | zero => exact nofun
  | succ fuel =>
      intro h
      rw [readClusters_turn hg fuel c _ _ _ hoffset] at h
      obtain ⟨out, hout, h⟩ := bind_eq_ok.mp h
      obtain ⟨n, hn⟩ : ∃ n, v.header.sectorsPerCluster.toNat - offset.toNat / 512 = n + 1 := by
        rw [hg.toNat_clusterSize] at hoffset
        exact ⟨v.header.sectorsPerCluster.toNat - offset.toNat / 512 - 1, by omega⟩
      rw [hn] at hout
      have hlen := length_lt_readSectors (htotal _) hleft hout
      cases out with
      | returned success buffer =>
          obtain ⟨-, rfl⟩ := Prod.mk.inj (Except.ok.inj h)
          exact absurd hlen (Nat.lt_irrefl 0)
      | left bytesLeft' buffer =>
          dsimp only at h
          by_cases hend : maskedNext fat c = 0xFFFFFF
          · rw [if_pos hend] at h
            obtain ⟨-, rfl⟩ := Prod.mk.inj (Except.ok.inj h)
            exact absurd hlen (Nat.lt_irrefl 0)
          · rw [if_neg hend] at h
            exact absurd (hlen.trans_le (length_readClusters h)) (Nat.lt_irrefl 0)

/-! ### The whole call -/

variable {file : Fat32File} {offset size : UInt32}

theorem fat32ReadFile_beyond (hcheck : file.size < offset + size)
    (hfile : file.attrib &&& fat32IsDir = 0) (fuel : ℕ) :
    fat32ReadFile disk v fuel file offset size = .ok (false, []) := by
  rw [fat32ReadFile, if_pos ⟨hcheck, hfile⟩]

/-- A call that passes the check of the range. -/
theorem fat32ReadFile_within (disk : Disk) (hg : Geometry v fat)
    (hcheck : ¬ file.size < offset + size) (fuel : ℕ) :
    (UnbrokenWalk fat file.cluster (offset.toNat / v.clusterSize.toNat) →
      fat32ReadFile disk v fuel file offset size =
        readClusters disk v fuel
          (maskedWalk fat file.cluster (offset.toNat / v.clusterSize.toNat))
          (UInt32.ofNat (offset.toNat % v.clusterSize.toNat)) size []) ∧
    (¬ UnbrokenWalk fat file.cluster (offset.toNat / v.clusterSize.toNat) →
      fat32ReadFile disk v fuel file offset size = .ok (false, [])) := by
  have hcspos : 0 < v.clusterSize.toNat := by
    have := hg.spc_pos
    rw [hg.toNat_clusterSize]
    omega
  have hcs0 : v.clusterSize ≠ 0 := fun h0 => by
    rw [h0] at hcspos
    exact absurd hcspos (Nat.lt_irrefl 0)
  have hdiv : (offset / v.clusterSize).toNat = offset.toNat / v.clusterSize.toNat :=
    UInt32.toNat_div _ _
  have hrest : offset - offset / v.clusterSize * v.clusterSize =
      UInt32.ofNat (offset.toNat % v.clusterSize.toNat) := by
    have hle : offset / v.clusterSize * v.clusterSize ≤ offset := by
      rw [UInt32.le_iff_toNat_le, UInt32.toNat_mul, hdiv]
      exact (Nat.mod_le _ _).trans (Nat.div_mul_le_self _ _)
    have hmod := Nat.mod_lt offset.toNat hcspos
    have hmul := Nat.div_add_mod' offset.toNat v.clusterSize.toNat
    have := offset.toNat_lt
    have := v.clusterSize.toNat_lt
    rw [← UInt32.toNat_inj, UInt32.toNat_sub_of_le _ _ hle, UInt32.toNat_mul, hdiv,
      toNat_ofNat_of_lt (by omega), Nat.mod_eq_of_lt (by omega)]
    omega
  rw [fat32ReadFile, if_neg fun h => hcheck h.1, divide, if_neg hcs0]
  change (_ → (advanceClusters v (offset / v.clusterSize).toNat file.cluster >>= _) = _) ∧
    (_ → (advanceClusters v (offset / v.clusterSize).toNat file.cluster >>= _) = _)
  rw [hdiv, hrest]
  have hadvance := advanceClusters_eq hg (offset.toNat / v.clusterSize.toNat) file.cluster
  constructor
  · intro hwalk
    rw [hadvance.1 hwalk]
    rfl
  · intro hwalk
    rw [hadvance.2 hwalk]
    rfl

/-! ### The bytes of a file -/

/-- The file has this chain of clusters; an empty file may have none. -/
structure FileChain (v : Fat32Volume) (fat : ℕ → UInt32) (file : Fat32File)
    (chain : List UInt32) : Prop where
  isFile : file.attrib &&& fat32IsDir = 0
  wellFormed : chain = [] ∨
    Chain fat (v.fatSizeInSectors.toNat * 128) chain ∧ chain.head? = some file.cluster
  long : file.size.toNat ≤ chain.length * v.clusterSize.toNat

/-- The bytes of a cluster. -/
def clusterBytes (v : Fat32Volume) (content : ℕ → Memory) (c : UInt32) : List UInt8 :=
  (List.range (v.header.sectorsPerCluster.toNat * 512)).map fun i =>
    content (clusterStart v c + i / 512) (i % 512)

/-- The bytes of a chain from `offset` on. -/
def fileBytes (v : Fat32Volume) (content : ℕ → Memory) (chain : List UInt32)
    (offset size : ℕ) : List UInt8 :=
  ((chain.flatMap (clusterBytes v content)).drop offset).take size

/-- Sector `k` of a chain. -/
def chainSector (v : Fat32Volume) (chain : List UInt32) (k : ℕ) : ℕ :=
  clusterStart v (chain.getD (k / v.header.sectorsPerCluster.toNat) 0) +
    k % v.header.sectorsPerCluster.toNat

theorem chainSector_cons_of_lt {ds : List UInt32} {k : ℕ}
    (h : k < v.header.sectorsPerCluster.toNat) :
    chainSector v (c :: ds) k = clusterStart v c + k := by
  rw [chainSector, Nat.div_eq_of_lt h, Nat.mod_eq_of_lt h]
  rfl

theorem chainSector_cons_add {ds : List UInt32} (k : ℕ)
    (hpos : 0 < v.header.sectorsPerCluster.toNat) :
    chainSector v (c :: ds) (k + v.header.sectorsPerCluster.toNat) = chainSector v ds k := by
  rw [chainSector, chainSector, Nat.add_div_right _ hpos, Nat.add_mod_right]
  rfl

/-- The bytes of the clusters are those of the sectors, one after the other. -/
theorem flatMap_clusterBytes (content : ℕ → Memory) (chain : List UInt32)
    (hpos : 0 < v.header.sectorsPerCluster.toNat) :
    chain.flatMap (clusterBytes v content) =
      blockBytes (fun k => content (chainSector v chain k)) 0
        (chain.length * (v.header.sectorsPerCluster.toNat * 512)) := by
  induction chain with
  | nil =>
      rw [List.flatMap_nil, List.length_nil, Nat.zero_mul]
      rfl
  | cons c ds ih =>
      have hfirst : clusterBytes v content c =
          blockBytes (fun k => content (chainSector v (c :: ds) k)) 0
            (v.header.sectorsPerCluster.toNat * 512) := by
        refine List.map_congr_left fun i hi => ?_
        have hi := List.mem_range.mp hi
        dsimp only
        rw [Nat.zero_add, chainSector_cons_of_lt (by omega)]
      have hrest : ∀ l, blockBytes (fun k => content (chainSector v ds k)) 0 l =
          blockBytes (fun k => content (chainSector v (c :: ds) k))
            (v.header.sectorsPerCluster.toNat * 512 + 0) l := by
        intro l
        rw [blockBytes_shift]
        refine blockBytes_congr fun p _ _ => ?_
        rw [chainSector_cons_add _ hpos]
      rw [List.flatMap_cons, ih, hfirst, hrest, List.length_cons, Nat.succ_mul,
        Nat.add_comm (_ * _) (_ * 512), blockBytes_add, Nat.zero_add, Nat.add_zero]

/-- The bytes of a file that lie in its chain. -/
theorem fileBytes_eq (hg : Geometry v fat) (content : ℕ → Memory) {chain : List UInt32} {o l : ℕ}
    (h : o + l ≤ chain.length * v.clusterSize.toNat) :
    fileBytes v content chain o l =
      blockBytes (fun k => content (chainSector v chain k)) o l := by
  obtain ⟨r, hr⟩ : ∃ r, chain.length * (v.header.sectorsPerCluster.toNat * 512) = o + (l + r) := by
    rw [hg.toNat_clusterSize] at h
    exact ⟨_, (Nat.add_sub_cancel' h).symm.trans (Nat.add_assoc _ _ _)⟩
  rw [fileBytes, flatMap_clusterBytes content chain hg.spc_pos, hr, blockBytes_add, Nat.zero_add,
    List.drop_left' length_blockBytes, blockBytes_add, List.take_left' length_blockBytes]

/-! ### Reads, exactly -/

/-- The call gives this, if it has enough fuel. -/
def Returns (disk : Disk) (v : Fat32Volume) (file : Fat32File) (offset size : UInt32)
    (r : Bool × List UInt8) : Prop :=
  ∃ fuel₀, ∀ fuel ≥ fuel₀, fat32ReadFile disk v fuel file offset size = .ok r

/-- The sectors with the bytes asked for can be read. -/
def Readable (disk : Disk) (v : Fat32Volume) (content : ℕ → Memory) (chain : List UInt32)
    (offset size : UInt32) : Prop :=
  ∀ p, offset.toNat ≤ p → p < offset.toNat + size.toNat →
    diskSector disk (chainSector v chain (p / 512)) =
      some (content (chainSector v chain (p / 512)))

/-- Within the file a read returns its bytes, and beyond it a read returns nothing. -/
structure ReadsFile (v : Fat32Volume) (file : Fat32File) (chain : List UInt32)
    (offset size : UInt32) : Prop where
  within : 0 < size.toNat → offset.toNat + size.toNat ≤ file.size.toNat →
    ∀ disk content, Readable disk v content chain offset size →
      Returns disk v file offset size
        (true, fileBytes v content chain offset.toNat size.toNat)
  beyond : file.size.toNat < offset.toNat + size.toNat →
    ∀ disk, Returns disk v file offset size (false, [])

/-- The walk meets no end up to the last cluster that is read, and it and the chain name the same
sectors from the first cluster that is read on; and a range beyond the file either fails the
check, or the walk ends before its first cluster. -/
structure WalkServes (v : Fat32Volume) (fat : ℕ → UInt32) (file : Fat32File)
    (chain : List UInt32) (offset size : UInt32) : Prop where
  within : 0 < size.toNat → offset.toNat + size.toNat ≤ file.size.toNat →
    (∀ p, offset.toNat ≤ p → p < offset.toNat + size.toNat →
      chainSector v chain (p / 512) < 4294967296) →
    UnbrokenWalk fat file.cluster ((offset.toNat + size.toNat - 1) / v.clusterSize.toNat) ∧
    ∀ k, offset.toNat / v.clusterSize.toNat ≤ k →
      k ≤ (offset.toNat + size.toNat - 1) / v.clusterSize.toNat →
      clusterToSector v (maskedWalk fat file.cluster k) = clusterToSector v (chain.getD k 0)
  beyond : file.size.toNat < offset.toNat + size.toNat →
    offset.toNat + size.toNat < 4294967296 ∨
    file.size.toNat < offset.toNat + size.toNat - 4294967296 ∨
    ¬ UnbrokenWalk fat file.cluster (offset.toNat / v.clusterSize.toNat)

theorem Returns.unique {r r' : Bool × List UInt8} (h : Returns disk v file offset size r)
    (h' : Returns disk v file offset size r') : r = r' := by
  obtain ⟨n, hn⟩ := h
  obtain ⟨n', hn'⟩ := h'
  exact Except.ok.inj
    ((hn (max n n') (Nat.le_max_left n n')).symm.trans (hn' (max n n') (Nat.le_max_right n n')))

theorem maskedWalk_add (fat : ℕ → UInt32) (c : UInt32) (m n : ℕ) :
    maskedWalk fat c (m + n) = maskedWalk fat (maskedWalk fat c m) n := by
  rw [Nat.add_comm]
  exact Function.iterate_add_apply _ n m c

theorem unbroken_add {m n : ℕ} :
    UnbrokenWalk fat c (m + n) ↔
      UnbrokenWalk fat c m ∧ UnbrokenWalk fat (maskedWalk fat c m) n := by
  constructor
  · refine fun h => ⟨fun k hk => h k (by omega), fun k hk => ?_⟩
    rw [← maskedWalk_add]
    exact h (m + k) (by omega)
  · rintro ⟨h, h'⟩ k hk
    by_cases hkm : k < m
    · exact h k hkm
    · obtain ⟨j, rfl⟩ : ∃ j, k = m + j := ⟨k - m, by omega⟩
      rw [Nat.add_assoc, maskedWalk_add]
      exact h' j (by omega)

/-- The last cluster of a read, counted from its first. -/
theorem div_last (offset : ℕ) {size cs : ℕ} (hpos : 0 < size) (hcs : 0 < cs) :
    (offset + size - 1) / cs = offset / cs + (offset % cs + size - 1) / cs := by
  have hmod := Nat.mod_add_div offset cs
  have hlast : offset + size - 1 = offset % cs + size - 1 + cs * (offset / cs) := by omega
  rw [hlast, Nat.add_mul_div_left _ _ hcs, Nat.add_comm]

section Within

variable {chain : List UInt32} {content : ℕ → Memory}

theorem Geometry.clusterSize_pos (hg : Geometry v fat) : 0 < v.clusterSize.toNat := by
  have := hg.spc_pos
  rw [hg.toNat_clusterSize]
  omega

/-- A range in the file passes the check. -/
theorem check_within (h : offset.toNat + size.toNat ≤ file.size.toNat) :
    ¬ file.size < offset + size := by
  have := file.size.toNat_lt
  rw [UInt32.lt_iff_toNat_lt, UInt32.toNat_add, Nat.mod_eq_of_lt (by omega)]
  omega

/-- A read in the file on a walk that meets no end. -/
theorem returns_within (disk : Disk) (block : ℕ → Memory) (hg : Geometry v fat)
    (hpos : 0 < size.toNat) (hin : offset.toNat + size.toNat ≤ file.size.toNat)
    (hwalk : UnbrokenWalk fat file.cluster ((offset.toNat + size.toNat - 1) / v.clusterSize.toNat))
    (hblock : ∀ p, offset.toNat ≤ p → p < offset.toNat + size.toNat →
      disk (clusterToSector v (maskedWalk fat file.cluster (p / v.clusterSize.toNat)) +
        UInt32.ofNat (p / 512 % v.header.sectorsPerCluster.toNat)) = some (block (p / 512))) :
    Returns disk v file offset size (true, blockBytes block offset.toNat size.toNat) := by
  have hcs := hg.toNat_clusterSize
  have hcspos := hg.clusterSize_pos
  have hsize := file.size.toNat_lt
  have hmul := Nat.mod_add_div offset.toNat v.clusterSize.toNat
  have hle := Nat.mod_le offset.toNat v.clusterSize.toNat
  rw [div_last _ hpos hcspos, unbroken_add] at hwalk
  refine ⟨(offset.toNat % v.clusterSize.toNat + size.toNat - 1) / v.clusterSize.toNat + 1,
    fun fuel hfuel => ?_⟩
  have hread := readClusters_eq disk
    (fun j => block (j + offset.toNat / v.clusterSize.toNat *
      v.header.sectorsPerCluster.toNat)) hg (Nat.mod_lt _ hcspos) hpos
    (by omega : offset.toNat % v.clusterSize.toNat + size.toNat < 4294967296) hwalk.2
    (fun p hop hpl => ?_) hfuel []
  · rw [(fat32ReadFile_within disk hg (check_within hin) fuel).1 hwalk.1]
    rw [UInt32.ofNat_toNat, List.nil_append, ← blockBytes_shift] at hread
    rw [hread]
    congr 3
    rw [Nat.mul_assoc, ← hcs, Nat.mul_comm, Nat.add_comm]
    exact hmul
  · have hp := hblock (p + v.clusterSize.toNat * (offset.toNat / v.clusterSize.toNat))
      (by omega) (by omega)
    have hdiv : (p + v.clusterSize.toNat * (offset.toNat / v.clusterSize.toNat)) / 512 =
        p / 512 + offset.toNat / v.clusterSize.toNat * v.header.sectorsPerCluster.toNat := by
      generalize offset.toNat / v.clusterSize.toNat = q
      rw [hcs, Nat.mul_comm _ 512, Nat.mul_assoc, Nat.add_mul_div_left _ _ (by decide),
        Nat.mul_comm q]
    rw [Nat.add_mul_div_left _ _ hcspos, Nat.add_comm (p / v.clusterSize.toNat), maskedWalk_add,
      hdiv, Nat.add_mul_mod_self_right] at hp
    exact hp

theorem div_clusterSize (hg : Geometry v fat) (p : ℕ) :
    p / 512 / v.header.sectorsPerCluster.toNat = p / v.clusterSize.toNat := by
  rw [Nat.div_div_eq_div_mul, hg.toNat_clusterSize, Nat.mul_comm]

/-- A cluster that begins at the same sector as the one of the chain holds the same sector. -/
theorem sector_of_same (hg : Geometry v fat) {count p : ℕ} {d : UInt32}
    (hchain : Chain fat count chain) (hp : p < chain.length * v.clusterSize.toNat)
    (hlt : chainSector v chain (p / 512) < 4294967296)
    (hsame : clusterToSector v d =
      clusterToSector v (chain.getD (p / v.clusterSize.toNat) 0)) :
    clusterToSector v d + UInt32.ofNat (p / 512 % v.header.sectorsPerCluster.toNat) =
      UInt32.ofNat (chainSector v chain (p / 512)) := by
  have hk : p / v.clusterSize.toNat < chain.length :=
    Nat.div_lt_of_lt_mul (by rwa [Nat.mul_comm])
  have hmem : chain.getD (p / v.clusterSize.toNat) 0 ∈ chain := by
    rw [List.getD_eq_getElem _ _ hk]
    exact List.getElem_mem hk
  rw [chainSector, div_clusterSize hg] at hlt ⊢
  rw [hsame]
  exact toNat_clusterToSector_add (hchain.clusterNumber _ hmem).two_le hlt

/-- A read in the file on a walk that ends too early does not succeed. -/
theorem not_returns_of_broken (hg : Geometry v fat) (hpos : 0 < size.toNat)
    (hin : offset.toNat + size.toNat ≤ file.size.toNat)
    (hwalk : ¬ UnbrokenWalk fat file.cluster
      ((offset.toNat + size.toNat - 1) / v.clusterSize.toNat))
    {sectors : UInt32 → Memory} (htotal : ∀ s, disk s = some (sectors s)) (written : List UInt8) :
    ¬ Returns disk v file offset size (true, written) := by
  have hcspos := hg.clusterSize_pos
  have hsize := file.size.toNat_lt
  have hle := Nat.mod_le offset.toNat v.clusterSize.toNat
  rintro ⟨fuel, hcall⟩
  have hcall := hcall fuel (Nat.le_refl fuel)
  rw [div_last _ hpos hcspos, unbroken_add] at hwalk
  have hwithin := fat32ReadFile_within disk hg (check_within hin) fuel
  by_cases hstart : UnbrokenWalk fat file.cluster (offset.toNat / v.clusterSize.toNat)
  · have hread := readClusters_broken hg htotal (Nat.mod_lt offset.toNat hcspos) hpos
      (by omega : offset.toNat % v.clusterSize.toNat + size.toNat < 4294967296)
      (fun h => hwalk ⟨hstart, h⟩) fuel [] written
    rw [UInt32.ofNat_toNat] at hread
    exact hread ((hwithin.1 hstart).symm.trans hcall)
  · have := (hwithin.2 hstart).symm.trans hcall
    cases this

/-- What the condition says of a read in the file. -/
theorem WalkServes.returns (h : WalkServes v fat file chain offset size) (hg : Geometry v fat)
    (hfile : FileChain v fat file chain) (hpos : 0 < size.toNat)
    (hin : offset.toNat + size.toNat ≤ file.size.toNat)
    (hread : Readable disk v content chain offset size) :
    Returns disk v file offset size
      (true, fileBytes v content chain offset.toNat size.toNat) := by
  have hlong := hfile.long
  have hcspos := hg.clusterSize_pos
  have hlt : ∀ p, offset.toNat ≤ p → p < offset.toNat + size.toNat →
      chainSector v chain (p / 512) < 4294967296 := fun p hop hpl =>
    lt_of_diskSector (hread p hop hpl)
  obtain ⟨hwalk, hsame⟩ := h.within hpos hin hlt
  have hchain := hfile.wellFormed.resolve_left fun hnil => by
    rw [hnil, List.length_nil, Nat.zero_mul] at hlong
    omega
  rw [fileBytes_eq hg content (hin.trans hlong)]
  refine returns_within _ _ hg hpos hin hwalk fun p hop hpl => ?_
  have hsector := hread p hop hpl
  rw [diskSector, if_pos (lt_of_diskSector hsector)] at hsector
  rw [sector_of_same hg hchain.1 (by omega) (hlt p hop hpl)]
  · exact hsector
  · exact hsame _ (Nat.div_le_div_right hop) (Nat.div_le_div_right (by omega))

/-- The drive that has ones in one sector and zeros in all others. -/
def markedDrive (target : UInt32) : Disk := fun s => some fun _ => if s = target then 1 else 0

def markedContent (target : UInt32) : ℕ → Memory :=
  fun n _ => if UInt32.ofNat n = target then 1 else 0

theorem readable_markedDrive (target : UInt32)
    (hlt : ∀ p, offset.toNat ≤ p → p < offset.toNat + size.toNat →
      chainSector v chain (p / 512) < 4294967296) :
    Readable (markedDrive target) v (markedContent target) chain offset size :=
  fun p hop hpl => if_pos (hlt p hop hpl)

/-- A cluster that is read has a byte of the read in it. -/
theorem exists_pos_of_cluster {o l cs k : ℕ} (hcs : 0 < cs) (hpos : 0 < l) (hfirst : o / cs ≤ k)
    (hlast : k ≤ (o + l - 1) / cs) : ∃ p, o ≤ p ∧ p < o + l ∧ p / cs = k := by
  have hle : k * cs ≤ o + l - 1 := (Nat.le_div_iff_mul_le hcs).mp hlast
  have hlt : o < (k + 1) * cs := (Nat.div_lt_iff_lt_mul hcs).mp (Nat.lt_succ_of_le hfirst)
  rcases Nat.le_total o (k * cs) with hcase | hcase
  · exact ⟨k * cs, hcase, by omega, Nat.mul_div_cancel k hcs⟩
  · exact ⟨o, Nat.le_refl o, by omega, Nat.div_eq_of_lt_le hcase hlt⟩

/-- Where the walk and the chain name different sectors, a drive tells them apart. -/
theorem ReadsFile.same_sector (h : ReadsFile v file chain offset size) (hg : Geometry v fat)
    (hfile : FileChain v fat file chain) (hpos : 0 < size.toNat)
    (hin : offset.toNat + size.toNat ≤ file.size.toNat)
    (hlt : ∀ p, offset.toNat ≤ p → p < offset.toNat + size.toNat →
      chainSector v chain (p / 512) < 4294967296)
    (hwalk : UnbrokenWalk fat file.cluster ((offset.toNat + size.toNat - 1) / v.clusterSize.toNat))
    {k : ℕ} (hfirst : offset.toNat / v.clusterSize.toNat ≤ k)
    (hlast : k ≤ (offset.toNat + size.toNat - 1) / v.clusterSize.toNat) :
    clusterToSector v (maskedWalk fat file.cluster k) = clusterToSector v (chain.getD k 0) := by
  have hlong := hfile.long
  have hchain := hfile.wellFormed.resolve_left fun hnil => by
    rw [hnil, List.length_nil, Nat.zero_mul] at hlong
    omega
  obtain ⟨p, hop, hpl, rfl⟩ := exists_pos_of_cluster hg.clusterSize_pos hpos hfirst hlast
  by_contra hne
  obtain ⟨target, htarget⟩ : ∃ target, UInt32.ofNat (chainSector v chain (p / 512)) = target :=
    ⟨_, rfl⟩
  have hfileBytes := h.within hpos hin _ _ (readable_markedDrive target hlt)
  rw [fileBytes_eq hg _ (hin.trans hlong)] at hfileBytes
  have hread := returns_within (markedDrive target)
    (fun j _ => if clusterToSector v
      (maskedWalk fat file.cluster (j / v.header.sectorsPerCluster.toNat)) +
        UInt32.ofNat (j % v.header.sectorsPerCluster.toNat) = target then 1 else 0)
    hg hpos hin hwalk fun q _ _ => by
      rw [div_clusterSize hg]
      rfl
  have hbytes := (Prod.mk.inj (hfileBytes.unique hread)).2
  have hbyte := List.getElem_of_eq hbytes (i := p - offset.toNat)
    (by rw [length_blockBytes]; omega)
  rw [getElem_blockBytes, getElem_blockBytes, Nat.add_sub_cancel' hop, div_clusterSize hg] at hbyte
  have hmarked : markedContent target (chainSector v chain (p / 512)) (p % 512) = 1 :=
    if_pos htarget
  have hsame := sector_of_same hg hchain.1 (by omega) (hlt p hop hpl)
    (d := chain.getD (p / v.clusterSize.toNat) 0) rfl
  rw [hmarked, if_neg] at hbyte
  · exact absurd hbyte (by decide)
  · rw [← htarget, ← hsame]
    exact fun heq => hne ((UInt32.add_left_inj _).mp heq)

end Within

/-- The sum that the check computes, when it is too large. -/
theorem toNat_add_wrap (h : 4294967296 ≤ offset.toNat + size.toNat) :
    (offset + size).toNat = offset.toNat + size.toNat - 4294967296 := by
  have := offset.toNat_lt
  have := size.toNat_lt
  rw [UInt32.toNat_add]
  omega

/-- What a range beyond the file meets, where a read of it leaves the buffer alone. -/
theorem ReadsFile.serves_beyond {chain : List UInt32} (h : ReadsFile v file chain offset size)
    (hg : Geometry v fat) (hout : file.size.toNat < offset.toNat + size.toNat) :
    offset.toNat + size.toNat < 4294967296 ∨
    file.size.toNat < offset.toNat + size.toNat - 4294967296 ∨
    ¬ UnbrokenWalk fat file.cluster (offset.toNat / v.clusterSize.toNat) := by
  by_contra hnot
  rw [not_or, not_or, not_not] at hnot
  obtain ⟨hwrap, hpass, hwalk⟩ := hnot
  have hcheck : ¬ file.size < offset + size := by
    rw [UInt32.lt_iff_toNat_lt, toNat_add_wrap (by omega)]
    exact hpass
  have hsize : size ≠ 0 := by
    rintro rfl
    have := offset.toNat_lt
    change ¬ offset.toNat + 0 < 4294967296 at hwrap
    omega
  obtain ⟨fuel, hcall⟩ := h.beyond hout (markedDrive 0)
  have hmod := Nat.mod_lt offset.toNat hg.clusterSize_pos
  have := v.clusterSize.toNat_lt
  have hrest := toNat_ofNat_of_lt (by omega : offset.toNat % v.clusterSize.toNat < 4294967296)
  exact readClusters_ne_untouched hg (fun _ => rfl) (by rw [hrest]; exact hmod) hsize fuel
    (((fat32ReadFile_within _ hg hcheck fuel).1 hwalk).symm.trans (hcall fuel (Nat.le_refl fuel)))

/-- A walk along numbers that the mask leaves as they are is the chain. -/
theorem maskedWalk_eq_getD {count : ℕ} {chain : List UInt32} (hchain : Chain fat count chain)
    (hsmall : ∀ d ∈ chain, d.toNat < 0xFFFFFF) (hhead : chain.head? = some c) {k : ℕ}
    (hk : k < chain.length) : maskedWalk fat c k = chain.getD k 0 := by
  induction hchain generalizing c k with
  | last _ _ =>
      obtain rfl := Option.some.inj hhead
      obtain rfl : k = 0 := Nat.lt_one_iff.mp hk
      rfl
  | @link c' d ds _ hlink _ ih =>
      obtain rfl := Option.some.inj hhead
      cases k with
      | zero => rfl
      | succ k =>
          have hd := hsmall d (List.mem_cons_of_mem _ List.mem_cons_self)
          have hnext : maskedNext fat c' = d := by
            have := congrArg UInt32.toNat hlink
            rw [toNat_and_28] at this
            rw [← UInt32.toNat_inj, maskedNext, toNat_and_24]
            omega
          rw [maskedWalk_succ, hnext]
          exact ih (fun x hx => hsmall x (List.mem_cons_of_mem _ hx)) rfl
            (Nat.lt_of_succ_lt_succ hk)

/-- The walk serves where the clusters have numbers below `0xFFFFFF` and the sum is no number of
more than 32 bits. -/
theorem walkServes_of_small {chain : List UInt32}
    (hfile : FileChain v fat file chain) (hsmall : ∀ d ∈ chain, d.toNat < 0xFFFFFF)
    (hsum : offset.toNat + size.toNat < 4294967296) :
    WalkServes v fat file chain offset size where
  within hpos hin _ := by
    have hlong := hfile.long
    obtain ⟨hchain, hhead⟩ := hfile.wellFormed.resolve_left fun hnil => by
      rw [hnil, List.length_nil, Nat.zero_mul] at hlong
      omega
    have hlast : (offset.toNat + size.toNat - 1) / v.clusterSize.toNat < chain.length :=
      Nat.div_lt_of_lt_mul (by rw [Nat.mul_comm]; omega)
    constructor
    · intro k hk hend
      have hlt : k + 1 < chain.length := by omega
      rw [maskedWalk_eq_getD hchain hsmall hhead hlt, List.getD_eq_getElem _ _ hlt] at hend
      have hlow := hsmall _ (List.getElem_mem hlt)
      rw [hend] at hlow
      exact absurd hlow (by decide)
    · intro k _ hk
      rw [maskedWalk_eq_getD hchain hsmall hhead (by omega)]
  beyond _ := Or.inl hsum

/-- A call does what it should exactly if the walk serves. -/
theorem readsFile_iff_walkServes (hg : Geometry v fat) {chain : List UInt32}
    (hfile : FileChain v fat file chain) :
    ReadsFile v file chain offset size ↔ WalkServes v fat file chain offset size := by
  constructor
  · intro h
    constructor
    · intro hpos hin hlt
      have hwalk : UnbrokenWalk fat file.cluster
          ((offset.toNat + size.toNat - 1) / v.clusterSize.toNat) := by
        by_contra hbroken
        exact not_returns_of_broken hg hpos hin hbroken (fun _ => rfl) _
          (h.within hpos hin _ _ (readable_markedDrive 0 hlt))
      exact ⟨hwalk, fun k => h.same_sector hg hfile hpos hin hlt hwalk⟩
    · exact h.serves_beyond hg
  · intro h
    constructor
    · exact fun hpos hin disk content hread => h.returns hg hfile hpos hin hread
    · intro hout disk
      refine ⟨0, fun fuel _ => ?_⟩
      by_cases hcheck : file.size < offset + size
      · exact fat32ReadFile_beyond hcheck hfile.isFile fuel
      refine (fat32ReadFile_within disk hg hcheck fuel).2 ?_
      rw [UInt32.lt_iff_toNat_lt] at hcheck
      rcases h.beyond hout with hlt | hlt | hwalk
      · rw [UInt32.toNat_add, Nat.mod_eq_of_lt hlt] at hcheck
        exact absurd hout hcheck
      · have hwrap : 4294967296 ≤ offset.toNat + size.toNat := by omega
        rw [toNat_add_wrap hwrap] at hcheck
        exact absurd hlt hcheck
      · exact hwalk

/-- A file of ten bytes in cluster 2 of the volume of `sampleHost`. -/
def sampleFile : Fat32File where
  attrib := 0
  cluster := 2
  size := 10

theorem geometry_sampleHost :
    Geometry (.mounted sampleBootSector fun _ => 0x0FFFFFFF) fun _ => 0x0FFFFFFF :=
  ⟨rfl, by decide, rfl⟩

theorem fileChain_sampleFile :
    FileChain (.mounted sampleBootSector fun _ => 0x0FFFFFFF) (fun _ => 0x0FFFFFFF) sampleFile
      [2] where
  isFile := by decide
  wellFormed := Or.inr ⟨.last ⟨by decide, by decide, by decide⟩ (by decide), rfl⟩
  long := by decide

theorem readsFile_iff_walkServes_sampleFile :
    ReadsFile (.mounted sampleBootSector fun _ => 0x0FFFFFFF) sampleFile [2] 3 5 :=
  (readsFile_iff_walkServes geometry_sampleHost fileChain_sampleFile).mpr
    (walkServes_of_small fileChain_sampleFile (by simp) (by decide))

/-- Four bytes from the end of the 32-bit numbers on, the sum of offset and size begins anew. -/
theorem readsFile_violated :
    ¬ ∀ v fat file chain, Geometry v fat → FileChain v fat file chain →
      ∀ offset size, ReadsFile v file chain offset size := by
  intro h
  have hserves := (h _ _ _ _ geometry_sampleHost fileChain_sampleFile 4
    0xFFFFFFFE).serves_beyond geometry_sampleHost (by decide)
  rcases hserves with hlt | hlt | hwalk
  · exact absurd hlt (by decide)
  · exact absurd hlt (by decide)
  · exact hwalk fun k hk => absurd hk (Nat.not_lt_zero k)

end HalOS
