import HalOS.Lib.OnesComplement
import HalOS.Net.Network

/-!
# The Internet Checksum

`ip_checksum` is the complement of the folded sum of the words. Its 32-bit sum has room for every
packet whose length is of 16 bits.

## Main results

* `ipChecksum_store`: a packet that holds its checksum has the checksum 0.
* `ipChecksum_isChecksum`: in the byte order of the network, `ip_checksum` is the Internet checksum.
-/

namespace HalOS

open OnesComplement (wordSum fold fold_le fold_complement wordSum_le wordSum_set swapBytes
  swapBytes_fold swapBytes_complement)

/-- The checksum in a packet, at `i` and `i + 1`, as the machine stores it. -/
def storeChecksum (packet : List UInt8) (i : ℕ) (checksum : UInt16) : List UInt8 :=
  (packet.set i checksum.toUInt8).set (i + 1) (checksum >>> 8).toUInt8

theorem withChecksum_eq (packet : List UInt8) (checksum : UInt16) :
    withChecksum packet checksum = storeChecksum packet 2 checksum := rfl

theorem toNat_word (high low : UInt8) :
    (high.toUInt32 <<< 8 ||| low.toUInt32).toNat = low.toNat + 256 * high.toNat := by
  have hhigh : high.toNat < 256 := high.toNat_lt
  have hor := Nat.shiftLeft_add_eq_or_of_lt (i := 8) low.toNat_lt high.toNat
  have hshift : high.toNat <<< 8 % 2 ^ 32 = high.toNat <<< 8 := by
    rw [Nat.shiftLeft_eq]
    exact Nat.mod_eq_of_lt (by omega)
  simp only [UInt32.toNat_or, UInt32.toNat_shiftLeft, UInt8.toNat_toUInt32, UInt32.reduceToNat,
    Nat.reduceMod]
  rw [hshift, ← hor, Nat.shiftLeft_eq]
  omega

/-- A word is added to a sum that has room. -/
theorem toNat_add_word {sum : UInt32} {high low : UInt8}
    (h : sum.toNat + (low.toNat + 256 * high.toNat) < 2 ^ 32) :
    (sum + (high.toUInt32 <<< 8 ||| low.toUInt32)).toNat =
      sum.toNat + (low.toNat + 256 * high.toNat) := by
  rw [UInt32.toNat_add, toNat_word]
  exact Nat.mod_eq_of_lt h

theorem toNat_highByte (value : UInt16) : (value >>> 8).toUInt8.toNat = value.toNat / 256 := by
  have hlt := value.toNat_lt
  simp only [UInt16.toNat_toUInt8, UInt16.toNat_shiftRight, Nat.shiftRight_eq_div_pow,
    UInt16.reduceToNat, Nat.reduceMod, Nat.reducePow]
  omega

/-- **The loop** of `ip_checksum`, as long as the sum has room. -/
theorem toNat_sumWords (packet : List UInt8) (sum : UInt32)
    (h : sum.toNat + wordSum packet < 2 ^ 32) :
    (sumWords packet sum).toNat = sum.toNat + wordSum packet := by
  induction packet, sum using sumWords.induct with
  | case1 low high rest sum ih =>
      rw [wordSum] at h
      have hnext := toNat_add_word (by omega : sum.toNat + (low.toNat + 256 * high.toNat) < 2 ^ 32)
      rw [sumWords, ih (by rw [hnext]; omega), hnext, wordSum]
      omega
  | case2 last sum =>
      rw [wordSum] at h
      rw [sumWords, wordSum, UInt32.toNat_add, UInt8.toNat_toUInt32]
      exact Nat.mod_eq_of_lt h
  | case3 sum => rfl

/-- The sum of a packet has room. -/
theorem wordSum_lt {packet : List UInt8} (h : packet.length < 2 ^ 17) :
    wordSum packet + 65535 < 2 ^ 32 := by
  have hle := wordSum_le packet
  omega

/-- The sum of `ip_checksum` does not overflow. -/
theorem toNat_sumWords_zero {packet : List UInt8} (h : packet.length < 2 ^ 17) :
    (sumWords packet 0).toNat = wordSum packet := by
  have hroom := wordSum_lt h
  rw [toNat_sumWords packet 0 (by simpa using Nat.lt_of_le_of_lt (Nat.le_add_right _ _) hroom)]
  exact Nat.zero_add _

/-- The carries are added back in twice, and the complement is taken. -/
theorem toNat_complement_fold (sum : UInt32) :
    (~~~((sum >>> 16) + (sum &&& (0xFFFF : UInt32)) +
      (((sum >>> 16) + (sum &&& (0xFFFF : UInt32))) >>> 16))).toUInt16.toNat =
      65535 - fold sum.toNat := by
  have hmask : ∀ x : UInt32, (x &&& 0xFFFF).toNat = x.toNat % 65536 := fun x => by
    rw [UInt32.toNat_and]
    exact Nat.and_two_pow_sub_one_eq_mod x.toNat 16
  have hshift : ∀ x : UInt32, (x >>> 16).toNat = x.toNat / 65536 := fun x => by
    rw [UInt32.toNat_shiftRight]
    exact Nat.shiftRight_eq_div_pow x.toNat 16
  have hnot : ∀ x : UInt32, (~~~x).toUInt16.toNat = 65535 - x.toNat % 65536 := fun x => by
    have hlt := x.toNat_lt
    have hsize : UInt32.size = 4294967296 := rfl
    rw [UInt32.toNat_toUInt16, UInt32.toNat_not, hsize]
    omega
  have hlt := sum.toNat_lt
  have hround : sum.toNat / 65536 + sum.toNat % 65536 ≤ 131070 := by omega
  have hfirst : (sum >>> 16 + (sum &&& 0xFFFF)).toNat =
      sum.toNat / 65536 + sum.toNat % 65536 := by
    rw [UInt32.toNat_add, hshift, hmask]
    exact Nat.mod_eq_of_lt (by omega)
  rw [hnot, UInt32.toNat_add, hshift, hfirst, fold]
  generalize sum.toNat / 65536 + sum.toNat % 65536 = round at hround ⊢
  rw [Nat.mod_eq_of_lt (by omega : round + round / 65536 < 2 ^ 32)]

/-- `ip_checksum`, as a number. -/
theorem toNat_ipChecksum {packet : List UInt8} (h : packet.length < 2 ^ 17) :
    (ipChecksum packet).toNat = 65535 - fold (wordSum packet) := by
  rw [← toNat_sumWords_zero h]
  exact toNat_complement_fold _

/-- A packet without a checksum in its place. -/
structure NoChecksum (packet : List UInt8) (i : ℕ) : Prop where
  room : i + 1 < packet.length
  low : packet.getD i 0 = 0
  high : packet.getD (i + 1) 0 = 0

theorem length_storeChecksum (packet : List UInt8) (i : ℕ) (checksum : UInt16) :
    (storeChecksum packet i checksum).length = packet.length := by
  rw [storeChecksum, List.length_set, List.length_set]

/-- A checksum in an empty field is one more word. -/
theorem wordSum_storeChecksum {packet : List UInt8} {k : ℕ} (h : NoChecksum packet (2 * k))
    (checksum : UInt16) :
    wordSum (storeChecksum packet (2 * k) checksum) = wordSum packet + checksum.toNat := by
  have hset := wordSum_set h.room checksum.toUInt8 (checksum >>> 8).toUInt8
  rw [h.low, h.high] at hset
  have hbytes : checksum.toUInt8.toNat + 256 * (checksum >>> 8).toUInt8.toNat =
      checksum.toNat := by
    rw [toNat_highByte, UInt16.toNat_toUInt8]
    omega
  rw [← hbytes]
  exact hset

/-- **The checksum of a packet that holds its checksum.** -/
theorem ipChecksum_store {packet : List UInt8} {k : ℕ} (h : NoChecksum packet (2 * k))
    (hlen : packet.length < 2 ^ 17) :
    ipChecksum (storeChecksum packet (2 * k) (ipChecksum packet)) = 0 := by
  rw [← UInt16.toNat_inj, toNat_ipChecksum (by rwa [length_storeChecksum]),
    wordSum_storeChecksum h, toNat_ipChecksum hlen, fold_complement (wordSum_lt hlen)]
  rfl

/-- A 16-bit value in memory, read in the byte order of the network. -/
def networkOrder (value : UInt16) : ℕ :=
  256 * value.toUInt8.toNat + (value >>> 8).toUInt8.toNat

theorem networkOrder_eq (value : UInt16) : networkOrder value = swapBytes value.toNat := by
  rw [networkOrder, swapBytes, toNat_highByte, UInt16.toNat_toUInt8]
  omega

/-- **The Internet checksum**: for every packet whose length is of 16 bits, the sum does not
overflow, `ip_checksum` leaves the checksum of the packet in memory, and the packet that holds it
at an even offset has the checksum 0. -/
theorem ipChecksum_isChecksum (packet : List UInt8) (hlen : packet.length < 2 ^ 16) :
    (sumWords packet 0).toNat = wordSum packet ∧
      networkOrder (ipChecksum packet) = OnesComplement.checksum packet ∧
      ∀ k, NoChecksum packet (2 * k) →
        ipChecksum (storeChecksum packet (2 * k) (ipChecksum packet)) = 0 := by
  have hwide : packet.length < 2 ^ 17 := by omega
  have hroom := wordSum_lt hwide
  refine ⟨toNat_sumWords_zero hwide, ?_, fun k hk => ipChecksum_store hk hwide⟩
  rw [networkOrder_eq, toNat_ipChecksum hwide, swapBytes_complement (fold_le _),
    swapBytes_fold (by omega), OnesComplement.checksum]

/-- The echo request with the identifier 1 and the data byte 7. -/
theorem ipChecksum_isChecksum_echo :
    (sumWords [8, 0, 0, 0, 0, 1, 0, 0, 7] 0).toNat = wordSum [8, 0, 0, 0, 0, 1, 0, 0, 7] ∧
      networkOrder (ipChecksum [8, 0, 0, 0, 0, 1, 0, 0, 7]) =
        OnesComplement.checksum [8, 0, 0, 0, 0, 1, 0, 0, 7] ∧
      ipChecksum (storeChecksum [8, 0, 0, 0, 0, 1, 0, 0, 7] (2 * 1)
        (ipChecksum [8, 0, 0, 0, 0, 1, 0, 0, 7])) = 0 := by
  obtain ⟨hsum, hstored, hfield⟩ :=
    ipChecksum_isChecksum [8, 0, 0, 0, 0, 1, 0, 0, 7] (by decide)
  exact ⟨hsum, hstored, hfield 1 ⟨by decide, by decide, by decide⟩⟩

end HalOS
