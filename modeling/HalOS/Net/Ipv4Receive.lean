import HalOS.Net.ArpPending
import HalOS.Net.Checksum
import HalOS.Net.NetworkBounds

/-!
# From Host to Host

A packet that one host sends is a frame in the memory of the other one, behind which that memory
holds whatever it held before. `handlerCalls` keeps the calls of the handlers of TCP and ICMP which
`net_process_packet` makes for a frame.

## Main results

* `value_netProcessPacket_ip`: a frame with an IPv4 packet does what its handlers do.
* `receive_send`: the handler of the receiver is called with what the sender was given.
-/

namespace HalOS

open CString (Memory memcpy memcpy_of_lt memcpy_add)

/-! ### Calls of the handlers -/

/-- A call of `tcp_handle_packet` or of `icmp_handle_packet`: the addresses of the IPv4 header, and
the place and the length of the payload. -/
structure HandlerCall where
  protocol : UInt8
  srcIp : UInt32
  dstIp : UInt32
  start : ℕ
  len : UInt16
deriving DecidableEq, Repr

/-- The payload that the call leads to. -/
def HandlerCall.payload (call : HandlerCall) (m : ℕ → UInt8) : List UInt8 :=
  bytesAt m call.start call.len.toNat

/-- The call of a handler. -/
def HandlerCall.run (m : ℕ → UInt8) (s : NetStack) (call : HandlerCall) : Except Fault NetStack :=
  if call.protocol = ipProtoTcp then
    (tcpHandlePacket s.tcp call.srcIp call.dstIp (fun i => m (call.start + i)) call.len).map
      fun t => { s with tcp := t }
  else .ok ((icmpHandlePacket s call.start call.len).value m)

/-- The packet of a frame, as it goes to the handler of its protocol. -/
def handlerCall (m : ℕ → UInt8) : HandlerCall where
  protocol := m 23
  srcIp := be32 m 26
  dstIp := be32 m 30
  start := ipPayloadStart m
  len := ipPayloadLen m

/-- The calls that are made for a frame. -/
def handlerCalls (nicIp : UInt32) (m : ℕ → UInt8) (len : UInt16) : List HandlerCall :=
  if be16 m 12 ≠ ethertypeIp then []
  else if len < 34 then []
  else if m 14 >>> 4 ≠ 4 ∨ m 14 &&& 0xF < 5 ∨ be16 m 16 < ipHeaderLen m then []
  else if len.toNat < 14 + (be16 m 16).toNat then []
  else if be16 m 20 &&& 0x1FFF ≠ 0 ∨ be16 m 20 &&& 0x2000 ≠ 0 then []
  else if be32 m 30 ≠ nicIp ∧ be32 m 30 ≠ 0xFFFFFFFF then []
  else if m 23 = ipProtoTcp then [handlerCall m]
  else if m 23 = ipProtoIcmp then if ipPayloadLen m < 8 then [] else [handlerCall m]
  else []

variable {m : ℕ → UInt8} {len : UInt16}

theorem value_tcp (s : NetStack) (srcIp dstIp : UInt32) (base : ℕ) (len : UInt16)
    (m : ℕ → UInt8) :
    (tcpHandlePacketAt s.tcp srcIp dstIp base len >>= fun t =>
        pure (t.map fun t => { s with tcp := t })).value m =
      (tcpHandlePacket s.tcp srcIp dstIp (fun i => m (base + i)) len).map
        fun t => { s with tcp := t } := by
  rw [Access.value_bind, Access.value_pure, value_tcpHandlePacketAt]

theorem value_icmp (s : NetStack) (base : ℕ) (len : UInt16) (m : ℕ → UInt8) :
    (icmpHandlePacket s base len >>= fun s =>
        (pure (.ok s) : Access UInt8 (Except Fault NetStack))).value m =
      .ok ((icmpHandlePacket s base len).value m) := by
  rw [Access.value_bind, Access.value_pure]

/-- **A frame with an IPv4 packet** does what its handlers do. -/
theorem value_netProcessPacket_ip (hether : be16 m 12 = ethertypeIp) (s : NetStack) :
    (netProcessPacket s len).value m =
      (handlerCalls s.tcp.nicIp m len).foldlM (HandlerCall.run m) s := by
  have hne : ethertypeIp ≠ ethertypeArp := by decide
  have hone : [handlerCall m].foldlM (HandlerCall.run m) s = HandlerCall.run m s (handlerCall m) :=
    bind_pure _
  rw [netProcessPacket, handlerCalls, if_neg (not_not_intro hether)]
  by_cases hshort : len < 14
  · have hlt : len < 34 := UInt16.lt_trans hshort (by decide)
    rw [if_pos hshort, if_pos hlt]
    rfl
  simp only [if_neg hshort, value_readBe16, hether, if_neg hne, if_true]
  rw [processIpv4]
  simp only [Access.value_ite, Access.value_read, value_readBe16, value_readBe32,
    Access.value_pure, value_tcp, value_icmp, apply_ite (List.foldlM (HandlerCall.run m) s), hone]
  by_cases htcp : m 23 = ipProtoTcp
  · have hrun : HandlerCall.run m s (handlerCall m) =
        (tcpHandlePacket s.tcp (be32 m 26) (be32 m 30) (fun i => m (ipPayloadStart m + i))
          (ipPayloadLen m)).map fun t => { s with tcp := t } := if_pos htcp
    simp only [htcp, if_true, hrun]
    rfl
  · have hrun : HandlerCall.run m s (handlerCall m) =
        .ok ((icmpHandlePacket s (ipPayloadStart m) (ipPayloadLen m)).value m) := if_neg htcp
    simp only [htcp, if_false, hrun]
    rfl

/-! ### The frame in memory -/

variable {nic : NicDevice} {s s' : Ipv4Stack} {call : Ipv4Call} {send : Ipv4Send}

theorem length_frame (nic : NicDevice) (send : Ipv4Send) :
    (send.frame nic).length = max 60 (34 + send.call.payload.length) := by
  rw [Ipv4Send.frame, length_bytesAt, length_packet]
  omega

theorem be16_eq_of_bytes {x : UInt16} {i : ℕ} (hhigh : m i = (x >>> 8).toUInt8)
    (hlow : m (i + 1) = x.toUInt8) : be16 m i = x := by
  rw [be16, hhigh, hlow, uint16_of_bytes]

theorem be32_eq_of_halves {x : UInt32} {i : ℕ} (hhigh : be16 m i = (x >>> 16).toUInt16)
    (hlow : be16 m (i + 2) = x.toUInt16) : be32 m i = x := by
  rw [be32, hhigh, hlow, uint32_of_halves]

theorem be16_ethFrame (dstMac : List UInt8) (ethertype : UInt16) (packet : List UInt8) :
    be16 (ethFrame nic dstMac ethertype packet) 12 = ethertype := by
  have hhigh : ethFrame nic dstMac ethertype packet 12 = (ethertype >>> 8).toUInt8 := by
    rw [ethFrame, memcpy_of_lt _ (by decide)]
    exact memcpy_add _ 12 0 (be16Bytes ethertype)
  have hlow : ethFrame nic dstMac ethertype packet 13 = ethertype.toUInt8 := by
    rw [ethFrame, memcpy_of_lt _ (by decide)]
    exact memcpy_add _ 12 1 (be16Bytes ethertype)
  exact be16_eq_of_bytes hhigh hlow

/-- The memory starts with the frame. -/
def HoldsFrame (nic : NicDevice) (send : Ipv4Send) (m : ℕ → UInt8) : Prop :=
  bytesAt m 0 (send.frame nic).length = send.frame nic

theorem HoldsFrame.apply (h : HoldsFrame nic send m) {i : ℕ}
    (hi : i < (send.frame nic).length) :
    m i = ethFrame nic send.dstMac ethertypeIp (send.packet nic) i := by
  have hlen : (send.frame nic).length = max 60 (14 + (send.packet nic).length) :=
    length_bytesAt _ _ _
  have hget := congrArg (fun l : List UInt8 => l[i]?) h
  rw [hlen] at hget hi
  simpa [Ipv4Send.frame, bytesAt, hi] using hget

theorem HoldsFrame.bytesAt_packet (h : HoldsFrame nic send m) :
    bytesAt m 14 (send.packet nic).length = send.packet nic := by
  have hmemory : bytesAt m 14 (send.packet nic).length =
      bytesAt (ethFrame nic send.dstMac ethertypeIp (send.packet nic)) 14
        (send.packet nic).length := by
    refine List.map_congr_left fun i hi => h.apply ?_
    have hlt := List.mem_range.mp hi
    rw [length_packet] at hlt
    rw [length_frame]
    omega
  rw [hmemory, ethFrame, bytesAt_memcpy]

theorem HoldsFrame.bytesAt_header (h : HoldsFrame nic send m) :
    bytesAt m 14 20 = ipv4Header nic send.call send.id := by
  have hpacket := h.bytesAt_packet
  rw [length_packet, bytesAt_add, Ipv4Send.packet] at hpacket
  exact List.append_inj_left hpacket (by rw [length_bytesAt, length_ipv4Header])

theorem HoldsFrame.bytesAt_payload (h : HoldsFrame nic send m) :
    bytesAt m 34 send.call.payload.length = send.call.payload := by
  have hpacket := h.bytesAt_packet
  rw [length_packet, bytesAt_add, Ipv4Send.packet] at hpacket
  exact List.append_inj_right hpacket (by rw [length_bytesAt, length_ipv4Header])

/-- The header in the frame. -/
theorem take_drop_frame (nic : NicDevice) (send : Ipv4Send) :
    ((send.frame nic).drop 14).take 20 = ipv4Header nic send.call send.id := by
  have hlen : (send.frame nic).length = max 60 (14 + (send.packet nic).length) :=
    length_bytesAt _ _ _
  have hframe : HoldsFrame nic send
      (ethFrame nic send.dstMac ethertypeIp (send.packet nic)) := by
    rw [HoldsFrame, hlen]
    rfl
  obtain ⟨rest, hrest⟩ : ∃ rest, (send.frame nic).length = 14 + (20 + rest) :=
    ⟨(send.frame nic).length - 34, by rw [length_frame]; omega⟩
  have hsplit := hframe
  rw [HoldsFrame, hrest, bytesAt_add, bytesAt_add, Nat.zero_add, hframe.bytesAt_header] at hsplit
  rw [← hsplit, List.drop_left' (length_bytesAt _ _ _),
    List.take_left' (length_ipv4Header nic send.call send.id)]

/-- The fields of the header, as the receiver reads them. -/
structure HeaderFields (nic : NicDevice) (call : Ipv4Call) (m : ℕ → UInt8) : Prop where
  versionIhl : m 14 = 0x45
  totalLength : be16 m 16 = 20 + call.payloadLen
  fragOffset : be16 m 20 = 0
  protocol : m 23 = call.protocol
  srcIp : be32 m 26 = nic.ipAddr
  dstIp : be32 m 30 = call.dstIp

theorem HoldsFrame.fields (h : HoldsFrame nic send m) : HeaderFields nic send.call m := by
  have hbyte : ∀ i < 20, m (14 + i) = (ipv4Header nic send.call send.id).getD i 0 := fun i hi => by
    rw [← h.bytesAt_header]
    simp [bytesAt, hi]
  have hzero : ∀ i, i = 6 ∨ i = 7 → (ipv4Header nic send.call send.id).getD i 0 = 0 := by
    rintro i (rfl | rfl)
    · rfl
    · rfl
  exact
    { versionIhl := hbyte 0 (by decide)
      totalLength := be16_eq_of_bytes (hbyte 2 (by decide)) (hbyte 3 (by decide))
      fragOffset := by
        rw [be16, hbyte 6 (by decide), hbyte 7 (by decide), hzero 6 (Or.inl rfl),
          hzero 7 (Or.inr rfl)]
        rfl
      protocol := hbyte 9 (by decide)
      srcIp := be32_eq_of_halves
        (be16_eq_of_bytes (hbyte 12 (by decide)) (hbyte 13 (by decide)))
        (be16_eq_of_bytes (hbyte 14 (by decide)) (hbyte 15 (by decide)))
      dstIp := be32_eq_of_halves
        (be16_eq_of_bytes (hbyte 16 (by decide)) (hbyte 17 (by decide)))
        (be16_eq_of_bytes (hbyte 18 (by decide)) (hbyte 19 (by decide))) }

theorem HoldsFrame.ethertype (h : HoldsFrame nic send m) : be16 m 12 = ethertypeIp := by
  have hlen := length_frame nic send
  rw [be16, h.apply (by omega), h.apply (by omega)]
  exact be16_ethFrame send.dstMac ethertypeIp (send.packet nic)

/-- **The call of the handler** for the frame. -/
theorem HoldsFrame.handlerCall (h : HoldsFrame nic send m) :
    handlerCall m =
      { protocol := send.call.protocol
        srcIp := nic.ipAddr
        dstIp := send.call.dstIp
        start := 34
        len := send.call.payloadLen } := by
  have hfields := h.fields
  have hheader : ipHeaderLen m = 20 := by
    rw [ipHeaderLen, hfields.versionIhl]
    rfl
  have hlen : 20 + send.call.payloadLen - 20 = send.call.payloadLen := by
    rw [UInt16.add_comm, UInt16.add_sub_cancel]
  rw [HalOS.handlerCall, ipPayloadStart, ipPayloadLen, hheader, hfields.protocol, hfields.srcIp,
    hfields.dstIp, hfields.totalLength, hlen]
  rfl

/-- The frame passes the checks of a receiver with this address. -/
theorem HoldsFrame.handlerCalls (h : HoldsFrame nic send m)
    (hlen : send.call.payload.length ≤ 1484)
    (hprotocol : send.call.protocol = ipProtoTcp ∨
      send.call.protocol = ipProtoIcmp ∧ 8 ≤ send.call.payload.length) :
    handlerCalls send.call.dstIp m (UInt16.ofNat (send.frame nic).length) =
      [HalOS.handlerCall m] := by
  have hfields := h.fields
  have hframe : (UInt16.ofNat (send.frame nic).length).toNat =
      max 60 (34 + send.call.payload.length) := by
    rw [length_frame]
    exact UInt16.toNat_ofNat_of_lt' (by simp only [UInt16.size]; omega)
  have htotal : (20 + send.call.payloadLen).toNat = 20 + send.call.payload.length :=
    toNat_totalLen (by omega)
  have hlong : ¬ UInt16.ofNat (send.frame nic).length < 34 := fun hlt => by
    have hnat := UInt16.lt_iff_toNat_lt.mp hlt
    rw [hframe] at hnat
    simp only [UInt16.reduceToNat] at hnat
    omega
  have hheader : ¬ (m 14 >>> 4 ≠ 4 ∨ m 14 &&& 0xF < 5 ∨ be16 m 16 < ipHeaderLen m) := by
    rw [ipHeaderLen, hfields.versionIhl, hfields.totalLength]
    rintro (hversion | hihl | htooShort)
    · exact hversion rfl
    · exact absurd hihl (by decide)
    · have hnat := UInt16.lt_iff_toNat_lt.mp htooShort
      rw [htotal] at hnat
      exact absurd hnat (Nat.not_lt.mpr (Nat.le_add_right 20 _))
  have hfits : ¬ (UInt16.ofNat (send.frame nic).length).toNat < 14 + (be16 m 16).toNat := by
    rw [hframe, hfields.totalLength, htotal]
    omega
  have hwhole : ¬ (be16 m 20 &&& 0x1FFF ≠ 0 ∨ be16 m 20 &&& 0x2000 ≠ 0) := by
    rw [hfields.fragOffset]
    decide
  have hdest : ¬ (be32 m 30 ≠ send.call.dstIp ∧ be32 m 30 ≠ 0xFFFFFFFF) :=
    fun hother => hother.1 hfields.dstIp
  rw [HalOS.handlerCalls, if_neg (not_not_intro h.ethertype), if_neg hlong, if_neg hheader,
    if_neg hfits, if_neg hwhole, if_neg hdest, hfields.protocol]
  rcases hprotocol with htcp | ⟨hicmp, hlow⟩
  · exact if_pos htcp
  · have hicmpLen : ipPayloadLen m = send.call.payloadLen :=
      congrArg HandlerCall.len h.handlerCall
    have hroom : ¬ ipPayloadLen m < 8 := fun hlt => by
      have hnat := UInt16.lt_iff_toNat_lt.mp hlt
      rw [hicmpLen, toNat_payloadLen] at hnat
      exact absurd hnat (Nat.not_lt.mpr hlow)
    rw [if_neg (by rw [hicmp]; decide), if_pos hicmp, if_neg hroom]

/-! ### Sending and receiving -/

/-- A packet that fits a frame goes out, if its next hop is resolved. -/
theorem sendIpv4Packet_of_resolves (hhop : Resolves nic s (nextHop nic call.dstIp))
    (hlen : call.payload.length ≤ 1484) :
    ∃ s' send, sendIpv4Packet nic s call = .ok (s', some send) := by
  have hsize : packetBufferSize = 1518 := rfl
  have htotal : (20 + call.payloadLen).toNat = 20 + call.payload.length :=
    toNat_totalLen (by omega)
  obtain ⟨dstMac, requests, hlookup⟩ := hhop.exists_arpLookup
  rw [sendIpv4Packet, fillHeader, if_neg (by omega), hlookup]
  have hroom : ¬ packetBufferSize < 20 + call.payload.length := by omega
  have hframe : ¬ packetBufferSize < 14 + (20 + call.payload.length) := by omega
  simp only [copyPayload, handOver, ethSendFrame, toNat_payloadLen, htotal, if_neg hroom,
    if_neg hframe]
  exact ⟨_, _, rfl⟩

/-- The checksum of a header. -/
theorem ipChecksum_ipv4Header (nic : NicDevice) (call : Ipv4Call) (id : UInt16) :
    ipChecksum (ipv4Header nic call id) = 0 := by
  rw [ipv4Header]
  have hlen : ([0x45, 0] ++ be16Bytes (20 + call.payloadLen) ++ be16Bytes id ++
      [0, 0, 64, call.protocol, 0, 0] ++ be32Bytes nic.ipAddr ++ be32Bytes call.dstIp).length =
      20 := rfl
  exact ipChecksum_store (k := 5) ⟨by rw [hlen]; decide, rfl, rfl⟩ (by rw [hlen]; decide)

/-- **From host to host.** A packet whose next hop is resolved goes out as one frame with a valid
header. Wherever that frame arrives at the host with the destination address, the handler of its
protocol is called once, with the payload and the addresses of the two hosts. -/
theorem receive_send (a : NicDevice) (s : Ipv4Stack) (call : Ipv4Call)
    (hhop : Resolves a s (nextHop a call.dstIp)) (hlen : call.payload.length ≤ 1484)
    (hprotocol : call.protocol = ipProtoTcp ∨
      call.protocol = ipProtoIcmp ∧ 8 ≤ call.payload.length) :
    ∃ s' send, sendIpv4Packet a s call = .ok (s', some send) ∧
      s'.sent = s.sent ++ [send.frame a] ∧
      ipChecksum (((send.frame a).drop 14).take 20) = 0 ∧
      ∀ (b : NetStack) (m : ℕ → UInt8), b.tcp.nicIp = call.dstIp →
        bytesAt m 0 (send.frame a).length = send.frame a → ∃ c : HandlerCall,
          handlerCalls b.tcp.nicIp m (UInt16.ofNat (send.frame a).length) = [c] ∧
          (netProcessPacket b (UInt16.ofNat (send.frame a).length)).value m = c.run m b ∧
          c.protocol = call.protocol ∧ c.payload m = call.payload ∧
          c.len.toNat = call.payload.length ∧ c.srcIp = a.ipAddr ∧ c.dstIp = b.tcp.nicIp := by
  obtain ⟨s', send, hsend⟩ := sendIpv4Packet_of_resolves hhop hlen
  obtain ⟨hnone, -⟩ | ⟨send', heq, rfl, -, -, -, -, hsent, -⟩ := sendIpv4Packet_eq_ok hsend
  · cases hnone
  cases heq
  refine ⟨s', send, hsend, hsent, ?_, fun b m hb hm => ?_⟩
  · rw [take_drop_frame, ipChecksum_ipv4Header]
  · have hframe : HoldsFrame a send m := hm
    have hcalls := hframe.handlerCalls hlen hprotocol
    have hcall := hframe.handlerCall
    rw [← hb] at hcalls
    refine ⟨handlerCall m, hcalls, ?_, ?_, ?_, ?_, ?_, ?_⟩
    · rw [value_netProcessPacket_ip hframe.ethertype, hcalls]
      exact bind_pure _
    · rw [hcall]
    · rw [HandlerCall.payload, hcall, toNat_payloadLen, hframe.bytesAt_payload]
    · rw [hcall, toNat_payloadLen]
    · rw [hcall]
    · rw [hcall, hb]

theorem bytesAt_getD (bytes : List UInt8) :
    bytesAt (fun i => bytes.getD i 0) 0 bytes.length = bytes := by
  refine List.ext_getElem (length_bytesAt _ _ _) fun i hi hi' => ?_
  simp [bytesAt, hi']

/-- A keystroke of the shell goes to the gateway, which runs the same code. -/
theorem receive_send_keystroke :
    ∃ s' send, sendIpv4Packet defaultNic (arpHost [⟨5, 0x0A000202, [0x52, 0x55, 10, 0, 2, 2]⟩] 5)
        keystroke = .ok (s', some send) ∧ s'.sent = [send.frame defaultNic] ∧
      ∃ c : HandlerCall, handlerCalls 0x0A000202 (fun i => (send.frame defaultNic).getD i 0)
        (UInt16.ofNat (send.frame defaultNic).length) = [c] ∧ c.srcIp = 0x0A00020F ∧
        c.payload (fun i => (send.frame defaultNic).getD i 0) = List.replicate 21 0x41 := by
  obtain ⟨s', send, hsend, hsent, -, hreceive⟩ := receive_send defaultNic
    (arpHost [⟨5, 0x0A000202, [0x52, 0x55, 10, 0, 2, 2]⟩] 5) keystroke (by decide) (by decide)
    (Or.inl rfl)
  obtain ⟨c, hcalls, -, -, hpayload, -, hsrc, -⟩ := hreceive
    { sampleNetStack with tcp := { sampleNetStack.tcp with nicIp := 0x0A000202 } } _ rfl
    (bytesAt_getD _)
  exact ⟨s', send, hsend, hsent, c, hcalls, hsrc, hpayload⟩

end HalOS
