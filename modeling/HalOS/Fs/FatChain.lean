import HalOS.Fs.FatInit
import Mathlib.Data.Nat.Bitwise

/-!
# Cluster Chains

What the rules of FAT32 say of a chain of clusters: the numbers of clusters have 28 bits, and any
number from `0x0FFFFFF8` on ends the chain. The driver keeps 24 bits of an entry of the table and
takes one number for the end.

## Main results

* `toNat_clusterToSector_add`: the sectors of a cluster are where the rules say.
* `Geometry.nextCluster_link`: a link is followed to a cluster whose number has 24 bits.
-/

namespace HalOS

open CString (Memory)

/-- What a volume has that the initialisation has brought to its end: a table, and clusters of one
sector or more. -/
structure Geometry (v : Fat32Volume) (fat : ℕ → UInt32) : Prop where
  fat : v.fat = some fat
  sectorsPerCluster : v.header.sectorsPerCluster ≠ 0
  clusterSize : v.clusterSize = v.header.sectorsPerCluster.toUInt32 * sectorSize

/-- The initialisation leaves that geometry. -/
theorem Mounts.geometry {host : FatHost} {sector : Memory} {fat : ℕ → UInt32}
    (h : Mounts host sector fat) (hspc : sector 13 ≠ 0) :
    Geometry (fat32InitVolume host) fat := by
  rw [fat32InitVolume_of_mounts h]
  exact ⟨rfl, hspc, rfl⟩

/-! ### The rules -/

/-- The number of a cluster of the table. -/
structure ClusterNumber (count : ℕ) (c : UInt32) : Prop where
  two_le : 2 ≤ c.toNat
  lt_count : c.toNat < count
  lt_bits : c.toNat < 2 ^ 28

/-- A chain of clusters, in a table of `count` words. -/
inductive Chain (fat : ℕ → UInt32) (count : ℕ) : List UInt32 → Prop
  | last {c : UInt32} : ClusterNumber count c → 0x0FFFFFF8 ≤ fat c.toNat &&& 0x0FFFFFFF →
      Chain fat count [c]
  | link {c d : UInt32} {ds : List UInt32} : ClusterNumber count c →
      fat c.toNat &&& 0x0FFFFFFF = d → Chain fat count (d :: ds) → Chain fat count (c :: d :: ds)

theorem Chain.clusterNumber {fat : ℕ → UInt32} {count : ℕ} {chain : List UInt32}
    (h : Chain fat count chain) : ∀ c ∈ chain, ClusterNumber count c := by
  induction h with
  | last hnum _ =>
      intro c hc
      obtain rfl := List.mem_singleton.mp hc
      exact hnum
  | link hnum _ _ ih =>
      intro c hc
      rcases List.mem_cons.mp hc with rfl | hc
      · exact hnum
      · exact ih c hc

/-- The first sector of a cluster. -/
def clusterStart (v : Fat32Volume) (c : UInt32) : ℕ :=
  v.dataStartSector.toNat + (c.toNat - 2) * v.header.sectorsPerCluster.toNat

/-- The drive has this content in the sectors of the cluster. -/
def HoldsCluster (disk : Disk) (v : Fat32Volume) (content : ℕ → Memory) (c : UInt32) : Prop :=
  ∀ i < v.header.sectorsPerCluster.toNat,
    diskSector disk (clusterStart v c + i) = some (content (clusterStart v c + i))

/-! ### What the driver makes of them -/

variable {v : Fat32Volume} {fat : ℕ → UInt32} {count : ℕ} {disk : Disk} {content : ℕ → Memory}
  {c d : UInt32}

theorem Geometry.spc_pos (h : Geometry v fat) : 0 < v.header.sectorsPerCluster.toNat :=
  Nat.pos_of_ne_zero fun h0 => h.sectorsPerCluster (UInt8.toNat_inj.mp h0)

theorem Geometry.toNat_clusterSize (h : Geometry v fat) :
    v.clusterSize.toNat = v.header.sectorsPerCluster.toNat * 512 := by
  have := v.header.sectorsPerCluster.toNat_lt
  rw [h.clusterSize, UInt32.toNat_mul, UInt8.toNat_toUInt32]
  exact Nat.mod_eq_of_lt (by change _ * 512 < 2 ^ 32; omega)

theorem Geometry.nextCluster_eq (h : Geometry v fat) (c : UInt32) :
    nextCluster v c = .ok (fat c.toNat &&& 0xFFFFFF) := by
  rw [nextCluster, h.fat]
  rfl

theorem toNat_and_24 (x : UInt32) : (x &&& 0xFFFFFF).toNat = x.toNat % 2 ^ 24 := by
  rw [UInt32.toNat_and]
  exact Nat.and_two_pow_sub_one_eq_mod x.toNat 24

theorem toNat_and_28 (x : UInt32) : (x &&& 0x0FFFFFFF).toNat = x.toNat % 2 ^ 28 := by
  rw [UInt32.toNat_and]
  exact Nat.and_two_pow_sub_one_eq_mod x.toNat 28

/-- A link is followed to a cluster whose number has 24 bits. -/
theorem Geometry.nextCluster_link (h : Geometry v fat) (hlink : fat c.toNat &&& 0x0FFFFFFF = d)
    (hd : d.toNat < 2 ^ 24) : nextCluster v c = .ok d := by
  rw [h.nextCluster_eq]
  congr 1
  rw [← UInt32.toNat_inj, toNat_and_24]
  have := congrArg UInt32.toNat hlink
  rw [toNat_and_28] at this
  omega

/-- Where a sector of a cluster is. -/
theorem toNat_clusterToSector_add {i : ℕ} (hc : 2 ≤ c.toNat)
    (hi : clusterStart v c + i < 2 ^ 32) :
    clusterToSector v c + UInt32.ofNat i = UInt32.ofNat (clusterStart v c + i) := by
  rw [clusterStart] at hi ⊢
  have htwo : (2 : UInt32) ≤ c := UInt32.le_iff_toNat_le.mpr hc
  have hsub : (c - 2).toNat = c.toNat - 2 := UInt32.toNat_sub_of_le c 2 htwo
  have hilt : i < UInt32.size := Nat.lt_of_le_of_lt (Nat.le_add_left _ _) hi
  have hmul : (c.toNat - 2) * v.header.sectorsPerCluster.toNat < 2 ^ 32 := by omega
  have hstart : v.dataStartSector.toNat + (c.toNat - 2) * v.header.sectorsPerCluster.toNat <
      2 ^ 32 := by omega
  rw [← UInt32.toNat_inj, clusterToSector, UInt32.toNat_add, UInt32.toNat_add, UInt32.toNat_mul,
    hsub, UInt8.toNat_toUInt32, UInt32.toNat_ofNat_of_lt' hi, UInt32.toNat_ofNat_of_lt' hilt,
    Nat.mod_eq_of_lt hmul, Nat.mod_eq_of_lt hstart]
  exact Nat.mod_eq_of_lt hi

theorem lt_of_diskSector {n : ℕ} {bytes : Memory} (h : diskSector disk n = some bytes) :
    n < 2 ^ 32 := by
  by_contra hn
  rw [diskSector, if_neg hn] at h
  cases h

/-- The read of a sector of a cluster gives its content. -/
theorem HoldsCluster.disk_eq (h : HoldsCluster disk v content c) (hc : 2 ≤ c.toNat) {i : ℕ}
    (hi : i < v.header.sectorsPerCluster.toNat) :
    disk (clusterToSector v c + UInt32.ofNat i) = some (content (clusterStart v c + i)) := by
  have hsector := h i hi
  have hlt := lt_of_diskSector hsector
  rw [toNat_clusterToSector_add hc hlt, ← hsector, diskSector, if_pos hlt]

end HalOS
