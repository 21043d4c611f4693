import HalOS.Net.TcpSpec

/-!
# Segments on the Wire

The bytes of the packet that `tcp_send_segment` builds, and what `tcp_handle_packet` reads back
from them.

## Main results

* `parse_bytes`: the header that is read is the one that was sent.
-/

namespace HalOS

/-! ### Bytes of memory -/

theorem length_bytesAt (bytes : ℕ → UInt8) (start len : ℕ) :
    (bytesAt bytes start len).length = len := by
  rw [bytesAt, List.length_map, List.length_range]

theorem take_bytesAt (bytes : ℕ → UInt8) (start : ℕ) {k len : ℕ} (h : k ≤ len) :
    (bytesAt bytes start len).take k = bytesAt bytes start k := by
  rw [bytesAt, bytesAt, ← List.map_take, List.take_range, Nat.min_eq_left h]

theorem bytesAt_offset (m : ℕ → UInt8) (base start len : ℕ) :
    bytesAt (fun i => m (base + i)) start len = bytesAt m (base + start) len := by
  simp only [bytesAt, Nat.add_assoc]

theorem bytesAt_add (m : ℕ → UInt8) (start a b : ℕ) :
    bytesAt m start (a + b) = bytesAt m start a ++ bytesAt m (start + a) b := by
  simp only [bytesAt, List.range_add, List.map_append, List.map_map, List.append_cancel_left_eq]
  refine List.map_congr_left fun i _ => ?_
  rw [Function.comp_apply, Nat.add_assoc]

/-! ### Segments as bytes -/

/-- `htons` and `htonl`, as bytes. -/
def be16Bytes (x : UInt16) : List UInt8 := [(x >>> 8).toUInt8, x.toUInt8]

def be32Bytes (x : UInt32) : List UInt8 := be16Bytes (x >>> 16).toUInt16 ++ be16Bytes x.toUInt16

/-- The packet. The checksum, which no branch of the receiver depends on, and the urgent pointer
are zero. -/
def TcpSegment.wire (seg : TcpSegment) : List UInt8 :=
  be16Bytes seg.srcPort ++ be16Bytes seg.destPort ++ be32Bytes seg.seq ++ be32Bytes seg.ack ++
    [seg.dataOffset, seg.flags] ++ be16Bytes seg.window ++ [0, 0, 0, 0] ++ seg.options ++ seg.data

theorem length_wire (seg : TcpSegment) :
    seg.wire.length = 20 + seg.options.length + seg.data.length := by
  rw [TcpSegment.wire, List.length_append, List.length_append]
  rfl

/-- The memory from the TCP header on. -/
def TcpSegment.bytes (seg : TcpSegment) (i : ℕ) : UInt8 := seg.wire.getD i 0

/-- The length that the IPv4 layer passes on. -/
def TcpSegment.len (seg : TcpSegment) : UInt16 := UInt16.ofNat seg.wire.length

/-- The header of the packet. -/
def TcpSegment.header (seg : TcpSegment) : TcpHeader where
  srcPort := seg.srcPort
  destPort := seg.destPort
  seq := seg.seq
  ack := seg.ack
  dataOffset := seg.dataOffset
  flags := seg.flags

/-- A number of two digits is put together from them. -/
theorem shiftLeft_or_mod (k x : ℕ) (hx : x < 2 ^ k * 2 ^ k) :
    (x >>> k % 2 ^ k) <<< k % (2 ^ k * 2 ^ k) ||| x % 2 ^ k = x := by
  have hhigh : x >>> k < 2 ^ k := by
    rw [Nat.shiftRight_eq_div_pow]
    exact Nat.div_lt_of_lt_mul hx
  have hshift : x >>> k <<< k < 2 ^ k * 2 ^ k := by
    rw [Nat.shiftLeft_eq]
    exact Nat.mul_lt_mul_of_pos_right hhigh (Nat.two_pow_pos k)
  rw [Nat.mod_eq_of_lt hhigh, Nat.mod_eq_of_lt hshift,
    ← Nat.shiftLeft_add_eq_or_of_lt (Nat.mod_lt _ (Nat.two_pow_pos k)), Nat.shiftLeft_eq,
    Nat.shiftRight_eq_div_pow, Nat.mul_comm, Nat.div_add_mod]

theorem uint16_of_bytes (x : UInt16) :
    (x >>> 8).toUInt8.toUInt16 <<< 8 ||| x.toUInt8.toUInt16 = x := by
  have h := shiftLeft_or_mod 8 x.toNat x.toNat_lt
  exact UInt16.toNat_inj.mp (by simpa using h)

theorem uint32_of_halves (x : UInt32) :
    (x >>> 16).toUInt16.toUInt32 <<< 16 ||| x.toUInt16.toUInt32 = x := by
  have h := shiftLeft_or_mod 16 x.toNat x.toNat_lt
  exact UInt32.toNat_inj.mp (by simpa using h)

/-- **Reading a header back.** -/
theorem parse_bytes (seg : TcpSegment) : TcpHeader.parse seg.bytes = seg.header := by
  have hsrc : be16 seg.bytes 0 = seg.srcPort := uint16_of_bytes seg.srcPort
  have hdest : be16 seg.bytes 2 = seg.destPort := uint16_of_bytes seg.destPort
  have hseq : be32 seg.bytes 4 = seg.seq := by
    have hhigh : be16 seg.bytes 4 = (seg.seq >>> 16).toUInt16 := uint16_of_bytes _
    have hlow : be16 seg.bytes 6 = seg.seq.toUInt16 := uint16_of_bytes _
    rw [be32, hhigh, hlow, uint32_of_halves]
  have hack : be32 seg.bytes 8 = seg.ack := by
    have hhigh : be16 seg.bytes 8 = (seg.ack >>> 16).toUInt16 := uint16_of_bytes _
    have hlow : be16 seg.bytes 10 = seg.ack.toUInt16 := uint16_of_bytes _
    rw [be32, hhigh, hlow, uint32_of_halves]
  rw [TcpHeader.parse, hsrc, hdest, hseq, hack]
  rfl

/-- The segment arrives. -/
def TcpSegment.arrives (seg : TcpSegment) : TcpEvent :=
  .segment seg.srcIp seg.dstIp seg.bytes seg.len

/-! ### The IPv4 layer -/

abbrev ipProtoIcmp : UInt8 := 1
abbrev ipProtoTcp : UInt8 := 6

/-- `sizeof(packet_buffer)`, which is `sizeof(frame)` too. -/
abbrev packetBufferSize : ℕ := 1518

/-- What `net_send_ipv4_packet` hands to `eth_send_frame`. -/
structure Ipv4Packet where
  dstIp : UInt32
  protocol : UInt8
  totalLength : UInt16
  payload : List UInt8
deriving DecidableEq, Repr

/-- `net_send_ipv4_packet`, with the next hop resolved; `none` when the packet is dropped. The
payload is copied into `packet_buffer` behind 20 bytes of header, and `eth_send_frame` copies the
packet into its frame behind 14 bytes more. -/
def netSendIpv4Packet (dstIp : UInt32) (protocol : UInt8) (payload : List UInt8)
    (payloadLen : UInt16) : Except Fault (Option Ipv4Packet) :=
  let totalLen := 20 + payloadLen
  if packetBufferSize < totalLen.toNat then .ok none
  else if packetBufferSize < 20 + payloadLen.toNat then .error .bufferOverrun
  else if packetBufferSize < 14 + totalLen.toNat then .error .bufferOverrun
  else
    .ok (some
      { dstIp := dstIp
        protocol := protocol
        totalLength := totalLen
        payload := payload.take payloadLen.toNat })

/-- The number and the payload that the segment puts on the wire, if it is not dropped. -/
def TcpSegment.onWire (seg : TcpSegment) : Except Fault (List (UInt32 × List UInt8)) :=
  (netSendIpv4Packet seg.dstIp ipProtoTcp seg.wire seg.len).map fun packet =>
    packet.elim [] fun packet => [(seg.seq, packet.payload.drop (20 + seg.options.length))]

/-- A payload that is put on the wire fits a frame and the 16 bits of its length. -/
theorem le_of_netSendIpv4Packet {dstIp : UInt32} {protocol : UInt8} {payload : List UInt8}
    {payloadLen : UInt16} {packet : Ipv4Packet}
    (h : netSendIpv4Packet dstIp protocol payload payloadLen = .ok (some packet)) :
    packet.payload = payload.take payloadLen.toNat ∧ payloadLen.toNat ≤ 1484 := by
  rw [netSendIpv4Packet] at h
  have hsize : packetBufferSize = 1518 := rfl
  split_ifs at h with htotal hbuffer hframe
  · cases h
  · rw [Except.ok.injEq, Option.some.injEq] at h
    refine ⟨h ▸ rfl, ?_⟩
    rw [UInt16.toNat_add] at hframe
    simp only [UInt16.reduceToNat] at hframe
    have hlt := payloadLen.toNat_lt
    omega

/-- A payload that fits a frame is put on the wire. -/
theorem netSendIpv4Packet_of_le {dstIp : UInt32} {protocol : UInt8} {payload : List UInt8}
    {payloadLen : UInt16} (h : payloadLen.toNat ≤ 1484) :
    netSendIpv4Packet dstIp protocol payload payloadLen = .ok (some
      { dstIp := dstIp
        protocol := protocol
        totalLength := 20 + payloadLen
        payload := payload.take payloadLen.toNat }) := by
  have htotal : (20 + payloadLen).toNat = 20 + payloadLen.toNat := by
    rw [UInt16.toNat_add]
    simp only [UInt16.reduceToNat]
    omega
  have hsize : packetBufferSize = 1518 := rfl
  rw [netSendIpv4Packet, htotal, if_neg (by omega), if_neg (by omega), if_neg (by omega)]

/-! ### A peer -/

/-- A segment from port 1234 of the machine at 10.0.2.2 to the HTTP port of the one at
10.0.2.15. -/
def peerSegment (seq ack : UInt32) (flags : UInt8) (data : List UInt8) : TcpSegment where
  owner := 0
  buffered := 0
  srcIp := 0x0A000202
  dstIp := 0x0A00020F
  srcPort := 1234
  destPort := 8080
  seq := seq
  ack := ack
  dataOffset := 0x50
  flags := flags
  window := 4096
  options := []
  data := data

/-- The peer opens a connection to the HTTP port. -/
def peerOpens : List TcpEvent :=
  [.listen 8080, (peerSegment 0 0 tcpSyn []).arrives, (peerSegment 1 1 tcpAck []).arrives]

end HalOS
