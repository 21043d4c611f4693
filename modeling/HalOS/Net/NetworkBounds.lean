import HalOS.Net.Network

/-!
# Reads of a Received Frame

`net_process_packet` checks the length of the frame against the Ethernet and the IPv4 header, and
the IPv4 lengths against each other. It does not check that there is an ARP packet behind the
Ethernet header, nor a TCP header in the IPv4 packet, and the data offset of a segment is compared
with 5 only.

## Main results

* `inBounds_iff_frameFits`: what a frame has to have for all accesses to be inside it.
-/

namespace HalOS

open Access (Within within_bind)
open Outcome (Steps exists_eq_ok_of_any)

/-! ### What has to fit -/

/-- The end of the bytes that `process_tcp_options` looks at. -/
def optionsReach (bytes : ℕ → UInt8) : ℕ → ℕ → ℕ → ℕ
  | 0, _, _ => 0
  | fuel + 1, ptr, remaining =>
      if remaining = 0 then 0
      else if bytes ptr = 0 then ptr + 1
      else if bytes ptr = 1 then max (ptr + 1) (optionsReach bytes fuel (ptr + 1) (remaining - 1))
      else if remaining - 1 = 0 then ptr + 1
      else if (bytes (ptr + 1)).toNat < 2 then ptr + 2
      else if bytes ptr = 2 ∧ (bytes (ptr + 1)).toNat = 4 ∧ 2 ≤ remaining - 1 - 1 then
        max (ptr + 4) (optionsReach bytes fuel (ptr + 4) (remaining - 1 - 1 - 2))
      else if remaining - 1 - 1 < (bytes (ptr + 1)).toNat - 2 then ptr + 2
      else
        max (ptr + 2) (optionsReach bytes fuel (ptr + (bytes (ptr + 1)).toNat)
          (remaining - 1 - 1 - ((bytes (ptr + 1)).toNat - 2)))

/-- The `switch` of `tcp_handle_packet` has a case for the state. -/
def TcpState.hasHandler (state : TcpState) : Bool :=
  state = .synSent || state = .synReceived || state = .established || state = .waitForAck ||
    state = .lastAck

/-- The segment reaches a state handler. -/
def SegmentHandled (s : TcpStack) (srcIp dstIp : UInt32) (tcp : TcpHeader) : Prop :=
  ¬ tcp.dataOffset >>> 4 < 5 ∧ hasFlag tcp.flags tcpRst = false ∧
    ∃ c, findConnection s srcIp tcp.srcPort dstIp tcp.destPort = some c ∧ c.state.hasHandler = true

/-- The frame has room for what `tcp_handle_packet` looks at: the header up to the flags and, if
the data offset is valid, up to the checksum; the whole header, if a state handler is reached; the
options, if a connection is opened. -/
def TcpFits (s : TcpStack) (srcIp dstIp : UInt32) (bytes : ℕ → UInt8) (len : UInt16)
    (room : ℕ) : Prop :=
  let tcp := TcpHeader.parse bytes
  14 ≤ room ∧ (¬ tcp.dataOffset >>> 4 < 5 → 18 ≤ room) ∧
    (SegmentHandled s srcIp dstIp tcp → tcp.headerLen ≤ len) ∧
    (¬ tcp.dataOffset >>> 4 < 5 → hasFlag tcp.flags tcpRst = false →
      findConnection s srcIp tcp.srcPort dstIp tcp.destPort = none →
        hasFlag tcp.flags tcpSyn = true → isListeningPort s tcp.destPort = true →
          s.malloc.1 = true →
            optionsReach bytes (tcp.headerLen.toNat - 20) 20 (tcp.headerLen.toNat - 20) ≤ room)

/-- `header_len`, and where the payload of the IPv4 packet is. -/
def ipHeaderLen (data : ℕ → UInt8) : UInt16 := (data 14 &&& 0xF).toUInt16 * 4

def ipPayloadStart (data : ℕ → UInt8) : ℕ := 14 + (ipHeaderLen data).toNat

def ipPayloadLen (data : ℕ → UInt8) : UInt16 := be16 data 16 - ipHeaderLen data

/-- The frame has an IPv4 packet of the protocol that the checks let through. -/
structure Ipv4Accepted (nicIp : UInt32) (data : ℕ → UInt8) (len : UInt16) (protocol : UInt8) :
    Prop where
  ethertype : be16 data 12 = ethertypeIp
  long : ¬ len < 34
  header : ¬ (data 14 >>> 4 ≠ 4 ∨ data 14 &&& 0xF < 5 ∨ be16 data 16 < ipHeaderLen data)
  fits : ¬ len.toNat < 14 + (be16 data 16).toNat
  whole : ¬ (be16 data 20 &&& 0x1FFF ≠ 0 ∨ be16 data 20 &&& 0x2000 ≠ 0)
  dest : ¬ (be32 data 30 ≠ nicIp ∧ be32 data 30 ≠ 0xFFFFFFFF)
  protocol : data 23 = protocol

/-- The TCP segment of the frame. -/
def frameSegment (data : ℕ → UInt8) (i : ℕ) : UInt8 := data (ipPayloadStart data + i)

/-- The frame has what `net_process_packet` looks at. -/
structure FrameFits (s : NetStack) (data : ℕ → UInt8) (len : UInt16) : Prop where
  arp : ¬ len < 14 → be16 data 12 = ethertypeArp → 22 ≤ len.toNat ∧
    (be16 data 20 = arpReply → 32 ≤ len.toNat) ∧ (be16 data 20 = arpRequest → 42 ≤ len.toNat)
  tcp : Ipv4Accepted s.tcp.nicIp data len ipProtoTcp →
    TcpFits s.tcp (be32 data 26) (be32 data 30) (frameSegment data) (ipPayloadLen data)
      (len.toNat - ipPayloadStart data)

/-- No byte behind the end of the frame is touched, and a segment that reaches a state handler has
its header inside. -/
structure InBounds (s : NetStack) (data : ℕ → UInt8) (len : UInt16) : Prop where
  within : Within len.toNat (netProcessPacket s len) data
  header : Ipv4Accepted s.tcp.nicIp data len ipProtoTcp →
    SegmentHandled s.tcp (be32 data 26) (be32 data 30) (.parse (frameSegment data)) →
      20 ≤ (TcpHeader.parse (frameSegment data)).headerLen.toNat ∧
        (TcpHeader.parse (frameSegment data)).headerLen ≤ ipPayloadLen data

variable {s : TcpStack} {c : TcpConnection} {m : ℕ → UInt8} {n base : ℕ} {tcp : TcpHeader}
  {len : UInt16} {srcIp dstIp : UInt32} {α : Type}

/-! ### The parts -/

@[simp] theorem within_readBe16 (i : ℕ) (f : UInt16 → Access UInt8 α) :
    Within n (readBe16 i >>= f) m ↔ i + 2 ≤ n ∧ Within n (f (be16 m i)) m := by
  refine (within_bind _ _).trans (and_congr ?_ Iff.rfl)
  rw [readBe16, Access.within_read, Access.within_read]
  simp only [Access.within_pure, and_true]
  exact ⟨fun h => h.2, fun h => ⟨Nat.lt_of_succ_lt h, h⟩⟩

@[simp] theorem within_readBe32 (i : ℕ) (f : UInt32 → Access UInt8 α) :
    Within n (readBe32 i >>= f) m ↔ i + 4 ≤ n ∧ Within n (f (be32 m i)) m := by
  have hvalue : (readBe32 i).value m = be32 m i := by
    rw [readBe32, value_readBe16, value_readBe16, Access.value_pure, be32]
  refine (within_bind _ _).trans (and_congr ?_ (by rw [hvalue]))
  rw [readBe32, within_readBe16, within_readBe16]
  simp only [Access.within_pure, and_true]
  omega

/-- The walk over the options, by recursion on its bound. -/
theorem within_processTcpOptionsAt (hbase : base ≤ n) (fuel ptr remaining : ℕ) (mss : UInt16) :
    Within n (processTcpOptionsAt base fuel ptr remaining mss) m ↔
      base + optionsReach (fun i => m (base + i)) fuel ptr remaining ≤ n := by
  induction fuel generalizing ptr remaining mss with
  | zero => exact iff_of_true (Access.within_pure _) hbase
  | succ fuel ih =>
      rw [processTcpOptionsAt, optionsReach]
      simp only [Access.within_ite, Access.within_read, Access.within_pure, ih]
      split_ifs with hend h0 h1 hlast hbad hmss hlong
      · simp [hend, hbase]
      · simp [hend, h0]
        omega
      · simp [hend, h1]
        omega
      · simp [hend, h0, h1, hlast]
        omega
      · simp [hend, h0, h1, hlast, hbad]
        omega
      · simp [hend, hlast, hmss]
        omega
      · simp [hend, h0, h1, hlast, hbad, hmss, hlong]
        omega
      · simp [hend, h0, h1, hlast, hbad, hmss, hlong]
        omega

theorem within_readPayload {start : ℕ} {dataLen : UInt16} (h : start + dataLen.toNat ≤ n) :
    Within n (readPayload start dataLen) m := by
  rw [readPayload, Access.within_ite, Access.within_readMany, Access.within_ite]
  refine ⟨fun _ => Access.within_readMany_end .. |>.mpr (Or.inr h), fun hlong => ⟨Or.inr ?_, ?_⟩⟩
  · have hfour : 4 ≤ dataLen.toNat := Nat.not_lt.mp hlong
    omega
  · exact ⟨fun _ => Access.within_pure _, fun _ => Access.within_readMany_end .. |>.mpr (Or.inr h)⟩

/-- With the header inside the segment, the handler of `TCP_ESTABLISHED` stays inside it. -/
theorem within_handleEstablishedStateAt {conn : ℕ} (hsegment : base + len.toNat ≤ n)
    (hlow : 20 ≤ tcp.headerLen.toNat) (hhigh : tcp.headerLen ≤ len) :
    Within n (handleEstablishedStateAt s conn base tcp len) m := by
  have hheader : tcp.headerLen.toNat ≤ len.toNat := hhigh
  have hdata : (len - tcp.headerLen).toNat = len.toNat - tcp.headerLen.toNat :=
    UInt16.toNat_sub_of_le _ _ hhigh
  rw [handleEstablishedStateAt, within_readBe32, within_readBe32, Access.within_bindOk]
  refine ⟨by omega, by omega, fun x _ => (within_bind _ _).mpr ⟨?_, Access.within_pure _⟩⟩
  refine within_readPayload ?_
  change base + tcp.headerLen.toNat + (len - tcp.headerLen).toNat ≤ n
  omega

theorem within_handleInStateAt (hsegment : base + len.toNat ≤ n)
    (hlow : 20 ≤ tcp.headerLen.toNat) (hhigh : c.state.hasHandler = true → tcp.headerLen ≤ len) :
    Within n (handleInStateAt s c base tcp len) m := by
  have hread (h : c.state.hasHandler = true) : base + 20 ≤ n := by
    have hheader : tcp.headerLen.toNat ≤ len.toNat := hhigh h
    omega
  rw [handleInStateAt]
  cases hstate : c.state with
  | synSent =>
      have hroom := hread (by rw [hstate]; rfl)
      simp [Access.within_ite]
      omega
  | synReceived =>
      have hroom := hread (by rw [hstate]; rfl)
      simp
      omega
  | established =>
      rw [if_neg (by decide), if_neg (by decide), if_pos rfl]
      exact within_handleEstablishedStateAt hsegment hlow (hhigh (by rw [hstate]; rfl))
  | waitForAck =>
      have hroom := hread (by rw [hstate]; rfl)
      simp
      omega
  | lastAck =>
      have hroom := hread (by rw [hstate]; rfl)
      simp
      omega
  | _ => exact Access.within_pure _

theorem within_tcpSendResetAt :
    Within n (tcpSendResetAt s srcIp dstIp base tcp) m ↔ base + 12 ≤ n := by
  rw [tcpSendResetAt, within_readBe32]
  simp [Nat.add_assoc]

theorem within_passiveOpenAt (hbase : base ≤ n) :
    Within n (passiveOpenAt s srcIp dstIp base tcp) m ↔
      (s.malloc.1 = true → base + 8 ≤ n ∧
        base + optionsReach (fun i => m (base + i)) (tcp.headerLen.toNat - 20) 20
          (tcp.headerLen.toNat - 20) ≤ n) := by
  rw [passiveOpenAt, Access.within_ite, within_readBe32, within_bind,
    within_processTcpOptionsAt hbase]
  cases s.malloc.1 with
  | false => simp
  | true => simp [Nat.add_assoc]

/-- A data offset that passes the check leaves room for the fixed header. -/
theorem le_headerLen (h : ¬ tcp.dataOffset >>> 4 < 5) : 20 ≤ tcp.headerLen.toNat := by
  have hlow : 5 ≤ (tcp.dataOffset >>> 4).toNat := Nat.not_lt.mp h
  have hhigh : (tcp.dataOffset >>> 4).toNat < 16 := by
    have hlt := tcp.dataOffset.toNat_lt
    rw [UInt8.toNat_shiftRight]
    simp only [UInt8.reduceToNat, Nat.reduceMod, Nat.shiftRight_eq_div_pow]
    omega
  rw [TcpHeader.headerLen, UInt16.toNat_mul, UInt8.toNat_toUInt16]
  simp only [UInt16.reduceToNat]
  omega

/-- **Segments.** -/
theorem within_tcpHandlePacketAt_iff (hsegment : base + len.toNat ≤ n) :
    Within n (tcpHandlePacketAt s srcIp dstIp base len) m ∧
        (SegmentHandled s srcIp dstIp (.parse fun i => m (base + i)) →
          20 ≤ (TcpHeader.parse fun i => m (base + i)).headerLen.toNat ∧
            (TcpHeader.parse fun i => m (base + i)).headerLen ≤ len) ↔
      TcpFits s srcIp dstIp (fun i => m (base + i)) len (n - base) := by
  have hbase : base ≤ n := Nat.le_trans (Nat.le_add_right _ _) hsegment
  rw [TcpFits]
  simp only [tcpHandlePacketAt, Access.within_read, Access.within_ite, within_readBe16,
    Access.within_touch]
  generalize htcp : (TcpHeader.parse fun i => m (base + i)) = tcp
  have hflags : m (base + 13) = tcp.flags := by rw [← htcp]; rfl
  have hdata : m (base + 12) = tcp.dataOffset := by rw [← htcp]; rfl
  have hsrc : be16 m base = tcp.srcPort := by rw [← htcp]; rfl
  have hdest : be16 m (base + 2) = tcp.destPort := by rw [← htcp]; rfl
  simp only [hflags, hdata, hsrc, hdest]
  by_cases hoff : tcp.dataOffset >>> 4 < 5
  · have hnot : ¬ SegmentHandled s srcIp dstIp tcp := fun h => h.1 hoff
    simp only [hoff, hnot, within_bind, within_tcpSendResetAt, Access.within_pure]
    simp
    omega
  · have hlow := le_headerLen hoff
    simp only [hoff, hlow, SegmentHandled]
    cases hfind : findConnection s srcIp tcp.srcPort dstIp tcp.destPort with
    | none =>
        simp only [Option.elim_none, Access.within_ite, within_bind, within_tcpSendResetAt,
          within_passiveOpenAt hbase, TcpHeader.headerLen]
        generalize optionsReach (fun i => m (base + i)) _ 20 _ = reach
        cases hasFlag tcp.flags tcpRst <;> cases hasFlag tcp.flags tcpSyn <;>
          cases isListeningPort s tcp.destPort <;> cases s.malloc.1 <;> simp <;> omega
    | some c =>
        simp only [Option.elim_some, Access.within_ite, Access.within_pure]
        constructor
        · rintro ⟨⟨h13, h12, -, hcheck⟩, hhandled⟩
          obtain ⟨h16, -⟩ := hcheck not_false
          exact ⟨by omega, fun _ => by omega, fun h => (hhandled h).2, fun _ _ h => by cases h⟩
        · rintro ⟨h14, h18, hhandled, -⟩
          have h18 := h18 not_false
          refine ⟨⟨by omega, by omega, fun h => h.elim, fun _ => ⟨Or.inr (by omega),
            Or.inr hsegment, by omega, by omega, fun _ => trivial, fun hrst => ?_⟩⟩,
            fun h => ⟨trivial, hhandled h⟩⟩
          exact within_handleInStateAt hsegment hlow fun hstate =>
            hhandled ⟨not_false, Bool.eq_false_iff.mpr hrst, c, rfl, hstate⟩

/-! ### Frames -/

theorem within_processArp (s : NetStack) :
    Within n (processArp s) m ↔ 22 ≤ n ∧ (be16 m 20 = arpReply → 32 ≤ n) ∧
      (be16 m 20 = arpRequest → 42 ≤ n) := by
  rw [processArp, within_readBe16, Access.within_ite, Access.within_ite]
  simp only [within_readBe32, Access.within_readMany, Access.within_ite, Access.within_pure]
  have hne : arpReply ≠ arpRequest := by decide
  by_cases hreply : be16 m 20 = arpReply
  · rw [hreply]
    simp [hne]
    omega
  · by_cases hrequest : be16 m 20 = arpRequest
    · rw [hrequest]
      simp [hne.symm]
      omega
    · simp [hreply, hrequest]

/-- ICMP packets that reach the handler are inside the frame. -/
theorem within_icmpHandlePacket (s : NetStack) (hframe : 34 ≤ n) (hpacket : base + len.toNat ≤ n)
    (hlen : ¬ len < 8) : Within n (icmpHandlePacket s base len) m := by
  have hlow : 8 ≤ len.toNat := Nat.not_lt.mp hlen
  rw [icmpHandlePacket, within_readBe16]
  simp only [Access.within_ite, within_readBe32, Access.within_read, Access.within_readMany,
    Access.within_touch, Access.within_pure]
  have hreply : base + min len.toNat 1498 ≤ n := by omega
  simp only [hreply, hpacket]
  simp
  omega

/-- A packet that the checks let through ends inside the frame. -/
theorem le_of_fits
    (hheader : ¬ (m 14 >>> 4 ≠ 4 ∨ m 14 &&& 0xF < 5 ∨ be16 m 16 < ipHeaderLen m))
    (hfits : ¬ len.toNat < 14 + (be16 m 16).toNat) :
    ipPayloadStart m + (ipPayloadLen m).toNat ≤ len.toNat := by
  have hle : ipHeaderLen m ≤ be16 m 16 := UInt16.not_lt.mp fun h => hheader (Or.inr (Or.inr h))
  have hnat : (ipHeaderLen m).toNat ≤ (be16 m 16).toNat := hle
  have hsub : (ipPayloadLen m).toNat = (be16 m 16).toNat - (ipHeaderLen m).toNat :=
    UInt16.toNat_sub_of_le _ _ hle
  rw [ipPayloadStart, hsub]
  omega

/-- The checks of the IPv4 branch, one after the other. -/
theorem within_processIpv4_iff (s : NetStack) (hether : be16 m 12 = ethertypeIp) :
    Within len.toNat (processIpv4 s len) m ↔
      (Ipv4Accepted s.tcp.nicIp m len ipProtoTcp →
        Within len.toNat (tcpHandlePacketAt s.tcp (be32 m 26) (be32 m 30) (ipPayloadStart m)
          (ipPayloadLen m)) m) := by
  rw [processIpv4, Access.within_ite]
  by_cases hlong : len < 34
  · exact iff_of_true ⟨fun _ => Access.within_pure _, fun h => absurd hlong h⟩
      fun h => absurd hlong h.long
  have hframe : 34 ≤ len.toNat := Nat.not_lt.mp hlong
  simp only [hlong, not_false_eq_true, true_implies, true_and, and_true, implies_true,
    Access.within_read, within_readBe16, within_readBe32, Access.within_ite, Access.within_pure,
    Access.within_bind_pure]
  constructor
  · rintro ⟨-, -, h⟩ haccepted
    exact ((((h haccepted.header haccepted.fits).2 haccepted.whole).2 haccepted.dest).2.1
      haccepted.protocol).2
  · intro h
    refine ⟨by omega, by omega, fun hheader hfits => ⟨by omega, fun hwhole => ⟨by omega,
      fun hdest => ⟨by omega, fun htcp => ⟨by omega, ?_⟩, fun _ _ hshort => ?_⟩⟩⟩⟩
    · exact h ⟨hether, hlong, hheader, hfits, hwhole, hdest, htcp⟩
    · refine within_icmpHandlePacket s hframe ?_ hshort
      exact le_of_fits hheader hfits

/-- The segment of an accepted packet. -/
theorem within_segment_iff (s : NetStack)
    (h : Ipv4Accepted s.tcp.nicIp m len ipProtoTcp) :
    Within len.toNat (tcpHandlePacketAt s.tcp (be32 m 26) (be32 m 30) (ipPayloadStart m)
          (ipPayloadLen m)) m ∧
        (SegmentHandled s.tcp (be32 m 26) (be32 m 30) (.parse (frameSegment m)) →
          20 ≤ (TcpHeader.parse (frameSegment m)).headerLen.toNat ∧
            (TcpHeader.parse (frameSegment m)).headerLen ≤ ipPayloadLen m) ↔
      TcpFits s.tcp (be32 m 26) (be32 m 30) (frameSegment m) (ipPayloadLen m)
        (len.toNat - ipPayloadStart m) :=
  within_tcpHandlePacketAt_iff (le_of_fits h.header h.fits)

/-- **Reads of a received frame.** Every byte that is touched while a frame is processed lies in
the frame, and every segment that reaches a state handler has its header inside, if and only if the
frame has room for the fixed parts of what it carries and for the header length it states. -/
theorem inBounds_iff_frameFits (s : NetStack) (data : ℕ → UInt8) (len : UInt16) :
    InBounds s data len ↔ FrameFits s data len := by
  by_cases hshort : len < 14
  · have hnot (h : Ipv4Accepted s.tcp.nicIp data len ipProtoTcp) : False :=
      h.long (UInt16.lt_trans hshort (by decide))
    refine iff_of_true ⟨?_, fun h => (hnot h).elim⟩
      ⟨fun h => absurd hshort h, fun h => (hnot h).elim⟩
    rw [netProcessPacket, if_pos hshort]
    exact Access.within_pure _
  have hether : 14 ≤ len.toNat := Nat.not_lt.mp hshort
  have hwithin : Within len.toNat (netProcessPacket s len) data ↔
      (be16 data 12 = ethertypeArp → Within len.toNat (processArp s) data) ∧
        (be16 data 12 = ethertypeIp → Within len.toNat (processIpv4 s len) data) := by
    rw [netProcessPacket, if_neg hshort, within_readBe16, Access.within_ite, Access.within_ite,
      Access.within_bind_pure]
    have hne : ethertypeArp ≠ ethertypeIp := by decide
    by_cases harp : be16 data 12 = ethertypeArp
    · simp [harp, hne]
      omega
    · simp [harp]
      omega
  constructor
  · rintro ⟨hframe, hheader⟩
    obtain ⟨harp, hip⟩ := hwithin.mp hframe
    refine ⟨fun _ h => (within_processArp s).mp (harp h), fun h => ?_⟩
    exact (within_segment_iff s h).mp
      ⟨(within_processIpv4_iff s h.ethertype).mp (hip h.ethertype) h, hheader h⟩
  · rintro ⟨harp, htcp⟩
    refine ⟨hwithin.mpr ⟨fun h => (within_processArp s).mpr (harp hshort h), fun h => ?_⟩,
      fun h => ((within_segment_iff s h).mpr (htcp h)).2⟩
    exact (within_processIpv4_iff s h).mpr fun haccepted =>
      ((within_segment_iff s haccepted).mpr (htcp haccepted)).1

/-- A host of which only the TCP stack matters. -/
def hostWith (t : TcpStack) : NetStack where
  tcp := t
  nicMac := []
  arpCache := []
  prevId := 0
  arpSent := []
  icmpSent := []

/-- A frame of 60 bytes with a segment of the peer whose data offset says 60 bytes as well. -/
def longOffsetFrame : List UInt8 :=
  List.replicate 12 0 ++ [0x08, 0x00] ++
    [0x45, 0, 0, 40, 0, 0, 0, 0, 64, 6, 0, 0, 10, 0, 2, 2, 10, 0, 2, 15] ++
    { peerSegment 1 1 tcpAck [] with dataOffset := 0xF0 }.wire ++ List.replicate 6 0

/-- The segment is handled with a payload of 65496 bytes. -/
theorem inBounds_violated :
    ¬ ∀ t, Steps TcpEvent.next (fun _ _ => True) (.boot 0 0x0A00020F none []) t →
      ∀ data len, InBounds (hostWith t) data len := by
  intro hall
  obtain ⟨t, hrun, htest⟩ := exists_eq_ok_of_any
    (p := fun t => t.nicIp == 0x0A00020F &&
      (findConnection t 0x0A000202 1234 0x0A00020F 8080).any (·.state.hasHandler))
    (x := peerOpens.foldlM TcpEvent.next (.boot 0 0x0A00020F none [])) (by decide +kernel)
  obtain ⟨hnic, hfind⟩ := Bool.and_eq_true_iff.mp htest
  obtain ⟨c, hc, hstate⟩ := (Option.any_eq_true _ _).mp hfind
  have haccepted : Ipv4Accepted t.nicIp (longOffsetFrame.getD · 0) 60 ipProtoTcp :=
    ⟨by decide, by decide, by decide, by decide, by decide,
      by rw [beq_iff_eq.mp hnic]; decide, by decide⟩
  have hlong := (hall t (.of_foldlM hrun) (longOffsetFrame.getD · 0) 60).header haccepted
    ⟨by decide, by decide, c, hc, hstate⟩
  exact absurd hlong.2 (by decide)

end HalOS
