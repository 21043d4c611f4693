import HalOS.Net.Checksum
import HalOS.Net.TcpWire

/-!
# The TCP Checksum

`tcp_checksum` sums the words of a pseudo header and of the segment and folds the sum like
`ip_checksum`. The last byte of a segment of odd length is taken for the high byte of a word here,
and for the low byte there.

## Main results

* `tcpChecksum_iff`: for which segments the two routines agree, and a receiver accepts the segment.
-/

namespace HalOS

open OnesComplement (wordSum fold fold_le fold_modEq fold_eq_residue fold_complement wordSum_le
  residue residue_modEq)

/-- The pseudo header, as it lies in memory. The addresses are those in the header of the packet. -/
def pseudoHeader (srcIp dstIp : UInt32) (tcpLen : UInt16) : List UInt8 :=
  [srcIp.toUInt8, (srcIp >>> 8).toUInt8, (srcIp >>> 16).toUInt8, (srcIp >>> 24).toUInt8,
    dstIp.toUInt8, (dstIp >>> 8).toUInt8, (dstIp >>> 16).toUInt8, (dstIp >>> 24).toUInt8,
    0, ipProtoTcp] ++ be16Bytes tcpLen

/-- `ptr[i]`, for a pointer to words. -/
def wordAt (bytes : List UInt8) (i : ℕ) : UInt32 :=
  (bytes.getD (2 * i + 1) 0).toUInt32 <<< 8 ||| (bytes.getD (2 * i) 0).toUInt32

/-- The loop of `tcp_checksum` over the segment, and the last byte. -/
def sumTcpWords : List UInt8 → UInt32 → UInt32
  | low :: high :: rest, sum => sumTcpWords rest (sum + (high.toUInt32 <<< 8 ||| low.toUInt32))
  | [last], sum => sum + last.toUInt32 <<< 8
  | [], sum => sum

/-- `tcp_checksum`, for the segment `tcp`. -/
def tcpChecksum (srcIp dstIp : UInt32) (tcp : List UInt8) : UInt16 :=
  let ph := pseudoHeader srcIp dstIp (UInt16.ofNat tcp.length)
  let sum := (List.range (ph.length / 2)).foldl (fun sum i => sum + wordAt ph i) 0
  let sum := sumTcpWords tcp sum
  let sum := (sum >>> 16) + (sum &&& (0xFFFF : UInt32))
  let sum := sum + (sum >>> 16)
  (~~~sum).toUInt16

/-- The pseudo header and the segment, as a receiver sums them. -/
def withPseudoHeader (srcIp dstIp : UInt32) (tcp : List UInt8) : List UInt8 :=
  pseudoHeader srcIp dstIp (UInt16.ofNat tcp.length) ++ tcp

/-- The last byte of a list of odd length, and 0 for the others. -/
def unpaired : List UInt8 → ℕ
  | _ :: _ :: rest => unpaired rest
  | [last] => last.toNat
  | [] => 0

/-- The length is even, or the last byte is zero. -/
def EndsEven (tcp : List UInt8) : Prop := tcp.length % 2 = 0 ∨ tcp.getLast? = some 0

instance (tcp : List UInt8) : Decidable (EndsEven tcp) :=
  inferInstanceAs (Decidable (_ ∨ _))

variable {srcIp dstIp : UInt32} {tcp : List UInt8}

/-! ### The sums -/

theorem unpaired_le (tcp : List UInt8) : unpaired tcp ≤ 255 := by
  induction tcp using unpaired.induct with
  | case1 low high rest ih => exact ih
  | case2 last => exact Nat.le_of_lt_succ last.toNat_lt
  | case3 => exact Nat.zero_le _

theorem unpaired_eq_zero_iff : unpaired tcp = 0 ↔ EndsEven tcp := by
  induction tcp using unpaired.induct with
  | case1 low high rest ih =>
      rw [unpaired, ih]
      cases rest with
      | nil => exact iff_of_true (.inl rfl) (.inl (by simp))
      | cons next rest =>
          have hlen : (low :: high :: next :: rest).length % 2 = (next :: rest).length % 2 :=
            Nat.add_mod_right _ 2
          rw [EndsEven, EndsEven, hlen, List.getLast?_cons_cons, List.getLast?_cons_cons]
  | case2 last =>
      rw [unpaired, EndsEven]
      simp [← UInt8.toNat_inj]
  | case3 => exact iff_of_true rfl (.inl rfl)

/-- **The loop** of `tcp_checksum`, as long as the sum has room. -/
theorem toNat_sumTcpWords (tcp : List UInt8) (sum : UInt32)
    (h : sum.toNat + (wordSum tcp + 255 * unpaired tcp) < 2 ^ 32) :
    (sumTcpWords tcp sum).toNat = sum.toNat + (wordSum tcp + 255 * unpaired tcp) := by
  induction tcp, sum using sumTcpWords.induct with
  | case1 low high rest sum ih =>
      rw [wordSum, unpaired] at h
      have hnext := toNat_add_word (by omega : sum.toNat + (low.toNat + 256 * high.toNat) < 2 ^ 32)
      rw [sumTcpWords, ih (by rw [hnext]; omega), hnext, wordSum, unpaired]
      omega
  | case2 last sum =>
      have hlast : (last.toUInt32 <<< 8).toNat = last.toNat + 255 * last.toNat := by
        have hlt := last.toNat_lt
        simp only [UInt32.toNat_shiftLeft, UInt8.toNat_toUInt32, UInt32.reduceToNat, Nat.reduceMod,
          Nat.shiftLeft_eq]
        omega
      rw [wordSum, unpaired] at h
      rw [sumTcpWords, wordSum, unpaired, UInt32.toNat_add, hlast]
      exact Nat.mod_eq_of_lt h
  | case3 sum => rfl

/-- The pseudo header is a list of words, and not all of them are zero. -/
theorem wordSum_withPseudoHeader (srcIp dstIp : UInt32) (len : UInt16) :
    ∃ sum, 0 < sum ∧ sum ≤ 425977 ∧
      (∀ tcp, wordSum (pseudoHeader srcIp dstIp len ++ tcp) = sum + wordSum tcp) ∧
      ((List.range 6).foldl (fun sum i => sum + wordAt (pseudoHeader srcIp dstIp len) i) 0).toNat =
        sum := by
  have hlen : (pseudoHeader srcIp dstIp len).length = 12 := rfl
  have hle := wordSum_le (pseudoHeader srcIp dstIp len)
  rw [hlen] at hle
  have hloop : (List.range 6).foldl
      (fun sum i => sum + wordAt (pseudoHeader srcIp dstIp len) i) 0 =
        sumWords (pseudoHeader srcIp dstIp len) 0 := rfl
  refine ⟨wordSum (pseudoHeader srcIp dstIp len), ?_, by omega, fun tcp => ?_, ?_⟩
  · have hprotocol : ipProtoTcp.toNat = 6 := rfl
    simp only [pseudoHeader, be16Bytes, List.cons_append, List.nil_append, wordSum, hprotocol]
    omega
  · simp only [pseudoHeader, be16Bytes, List.cons_append, List.nil_append, wordSum, Nat.add_zero,
      Nat.add_assoc]
  · rw [hloop, toNat_sumWords_zero (by rw [hlen]; decide)]

/-- There is room for the sum of a pseudo header, a segment and a checksum. -/
theorem wordSum_withPseudoHeader_lt (srcIp dstIp : UInt32) (hlen : tcp.length < 2 ^ 16) :
    0 < wordSum (withPseudoHeader srcIp dstIp tcp) ∧
      wordSum (withPseudoHeader srcIp dstIp tcp) + 255 * unpaired tcp + 65535 < 2 ^ 32 := by
  obtain ⟨sum, hpos, hle, happend, -⟩ :=
    wordSum_withPseudoHeader srcIp dstIp (UInt16.ofNat tcp.length)
  have hsegment := wordSum_le tcp
  have hlast := unpaired_le tcp
  rw [withPseudoHeader, happend]
  omega

/-- `tcp_checksum`, as a number. -/
theorem toNat_tcpChecksum (srcIp dstIp : UInt32) (hlen : tcp.length < 2 ^ 16) :
    (tcpChecksum srcIp dstIp tcp).toNat =
      65535 - fold (wordSum (withPseudoHeader srcIp dstIp tcp) + 255 * unpaired tcp) := by
  obtain ⟨-, hroom⟩ := wordSum_withPseudoHeader_lt srcIp dstIp hlen
  obtain ⟨sum, -, -, happend, hloop⟩ :=
    wordSum_withPseudoHeader srcIp dstIp (UInt16.ofNat tcp.length)
  rw [withPseudoHeader, happend] at hroom ⊢
  have hlength : (pseudoHeader srcIp dstIp (UInt16.ofNat tcp.length)).length = 12 := rfl
  rw [Nat.add_assoc, ← hloop, ← toNat_sumTcpWords tcp _ (by rw [hloop]; omega)]
  simp only [tcpChecksum, hlength, Nat.reduceDiv]
  exact toNat_complement_fold _

/-! ### The two routines -/

/-- **The same checksum.** -/
theorem tcpChecksum_eq_iff (srcIp dstIp : UInt32) (hlen : tcp.length < 2 ^ 16) :
    tcpChecksum srcIp dstIp tcp = ipChecksum (withPseudoHeader srcIp dstIp tcp) ↔
      EndsEven tcp := by
  obtain ⟨-, hroom⟩ := wordSum_withPseudoHeader_lt srcIp dstIp hlen
  have hlast := unpaired_le tcp
  have hlength : (withPseudoHeader srcIp dstIp tcp).length = 12 + tcp.length := by
    rw [withPseudoHeader, List.length_append]
    rfl
  rw [← unpaired_eq_zero_iff, ← UInt16.toNat_inj, toNat_tcpChecksum srcIp dstIp hlen,
    toNat_ipChecksum (by omega)]
  generalize wordSum (withPseudoHeader srcIp dstIp tcp) = sum at hroom ⊢
  constructor
  · intro heq
    have hodd := fold_modEq (show sum + 255 * unpaired tcp < 2 ^ 32 by omega)
    have heven := fold_modEq (show sum < 2 ^ 32 by omega)
    have hodd_le := fold_le (sum + 255 * unpaired tcp)
    have heven_le := fold_le sum
    rw [Nat.ModEq] at hodd heven
    omega
  · intro hzero
    rw [hzero, Nat.mul_zero, Nat.add_zero]

/-- **A receiver** sums the pseudo header and the segment with its checksum. -/
theorem ipChecksum_storeTcp_iff (srcIp dstIp : UInt32) (hfield : NoChecksum tcp 16)
    (hlen : tcp.length < 2 ^ 16) :
    ipChecksum (withPseudoHeader srcIp dstIp
        (storeChecksum tcp 16 (tcpChecksum srcIp dstIp tcp))) = 0 ↔ EndsEven tcp := by
  obtain ⟨-, hroom⟩ := wordSum_withPseudoHeader_lt srcIp dstIp hlen
  have hlast := unpaired_le tcp
  obtain ⟨head, -, -, happend, -⟩ :=
    wordSum_withPseudoHeader srcIp dstIp (UInt16.ofNat tcp.length)
  have hsum : wordSum (withPseudoHeader srcIp dstIp
      (storeChecksum tcp 16 (tcpChecksum srcIp dstIp tcp))) =
        wordSum (withPseudoHeader srcIp dstIp tcp) + (tcpChecksum srcIp dstIp tcp).toNat := by
    rw [withPseudoHeader, length_storeChecksum, happend, withPseudoHeader, happend,
      wordSum_storeChecksum (k := 8) hfield, Nat.add_assoc]
  have hlength : (withPseudoHeader srcIp dstIp
      (storeChecksum tcp 16 (tcpChecksum srcIp dstIp tcp))).length = 12 + tcp.length := by
    rw [withPseudoHeader, List.length_append, length_storeChecksum]
    rfl
  rw [← unpaired_eq_zero_iff, ← UInt16.toNat_inj, toNat_ipChecksum (by omega), hsum,
    toNat_tcpChecksum srcIp dstIp hlen]
  generalize wordSum (withPseudoHeader srcIp dstIp tcp) = sum at hroom ⊢
  constructor
  · intro hzero
    have hstored := fold_modEq (show sum + 255 * unpaired tcp < 2 ^ 32 by omega)
    have hstored_le := fold_le (sum + 255 * unpaired tcp)
    have hsummed := fold_modEq
      (show sum + (65535 - fold (sum + 255 * unpaired tcp)) < 2 ^ 32 by omega)
    have hsummed_le := fold_le (sum + (65535 - fold (sum + 255 * unpaired tcp)))
    have hnone : (0 : UInt16).toNat = 0 := rfl
    rw [hnone] at hzero
    rw [Nat.ModEq] at hstored hsummed
    omega
  · intro hzero
    rw [hzero, Nat.mul_zero, Nat.add_zero, fold_complement (by omega)]
    rfl

/-- The packets that `tcp_send_segment` builds have no checksum yet when it is computed. -/
theorem noChecksum_wire (seg : TcpSegment) : NoChecksum seg.wire 16 := by
  refine ⟨?_, rfl, rfl⟩
  rw [length_wire]
  omega

/-- **The TCP checksum**: for every segment whose length is of 16 bits, `tcp_checksum` gives what
`ip_checksum` gives for the pseudo header and the segment, and a receiver accepts the segment with
its checksum, just if the length is even or the last byte is zero. -/
theorem tcpChecksum_iff (srcIp dstIp : UInt32) (tcp : List UInt8) (hlen : tcp.length < 2 ^ 16) :
    (tcpChecksum srcIp dstIp tcp = ipChecksum (withPseudoHeader srcIp dstIp tcp) ↔
      EndsEven tcp) ∧
    ∀ seg : TcpSegment, seg.wire = tcp →
      (ipChecksum (withPseudoHeader srcIp dstIp
        (storeChecksum tcp 16 (tcpChecksum srcIp dstIp tcp))) = 0 ↔ EndsEven tcp) := by
  refine ⟨tcpChecksum_eq_iff srcIp dstIp hlen, ?_⟩
  rintro seg rfl
  exact ipChecksum_storeTcp_iff srcIp dstIp (noChecksum_wire seg) hlen

/-- An acknowledgement without data. -/
def sampleAck (data : List UInt8) : TcpSegment where
  owner := 0
  buffered := 0
  srcIp := 0x0A000202
  dstIp := 0x0A00020F
  srcPort := 8080
  destPort := 40000
  seq := 7
  ack := 9
  dataOffset := 0x50
  flags := tcpAck
  window := 4096
  options := []
  data := data

theorem tcpChecksum_iff_ack :
    tcpChecksum 0x0202000A 0x0F02000A (sampleAck []).wire =
        ipChecksum (withPseudoHeader 0x0202000A 0x0F02000A (sampleAck []).wire) ∧
      ipChecksum (withPseudoHeader 0x0202000A 0x0F02000A (storeChecksum (sampleAck []).wire 16
        (tcpChecksum 0x0202000A 0x0F02000A (sampleAck []).wire))) = 0 := by
  obtain ⟨hsame, haccepted⟩ :=
    tcpChecksum_iff 0x0202000A 0x0F02000A (sampleAck []).wire (by decide)
  exact ⟨hsame.mpr (by decide), (haccepted _ rfl).mpr (by decide)⟩

/-- One byte of data, and the receiver drops the segment. -/
theorem not_tcpChecksum_oneByte :
    ¬ (tcpChecksum 0x0202000A 0x0F02000A (sampleAck [65]).wire =
        ipChecksum (withPseudoHeader 0x0202000A 0x0F02000A (sampleAck [65]).wire) ∧
      ipChecksum (withPseudoHeader 0x0202000A 0x0F02000A (storeChecksum (sampleAck [65]).wire 16
        (tcpChecksum 0x0202000A 0x0F02000A (sampleAck [65]).wire))) = 0) := by
  decide +kernel

end HalOS
