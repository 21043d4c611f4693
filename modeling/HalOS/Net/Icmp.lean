import HalOS.Net.Ipv4Receive

/-!
# Echo Requests

`icmp_handle_packet` ignores every packet whose identifier is not above `prev_id`, which is the
identifier of the last echo reply that has come through. The variable is meant to keep a packet from
being processed twice, but requests are compared with it too.

## Main results

* `echoReplied_iff`: which echo requests are answered.
-/

namespace HalOS

open CString (Memory)
open Outcome (bind_eq_ok exists_eq_ok_of_any)

/-! ### Packets -/

/-- An ICMP packet of this type, of at least the length of a header, whose checksum field holds what
`ip_checksum` gives for the packet with a zero in that field. -/
structure ValidIcmp (m : ℕ → UInt8) (base : ℕ) (len : UInt16) (type : UInt8) : Prop where
  le_len : 8 ≤ len
  type : m base = type
  checksum : (m (base + 3)).toUInt16 <<< 8 ||| (m (base + 2)).toUInt16 =
    ipChecksum (withChecksum (bytesAt m base len.toNat) 0)

instance (m : ℕ → UInt8) (base : ℕ) (len : UInt16) (type : UInt8) :
    Decidable (ValidIcmp m base len type) :=
  decidable_of_iff (8 ≤ len ∧ m base = type ∧
    (m (base + 3)).toUInt16 <<< 8 ||| (m (base + 2)).toUInt16 =
      ipChecksum (withChecksum (bytesAt m base len.toNat) 0))
    ⟨fun h => ⟨h.1, h.2.1, h.2.2⟩, fun h => ⟨h.le_len, h.type, h.checksum⟩⟩

/-- `icmp->id`. -/
abbrev icmpId (m : ℕ → UInt8) (base : ℕ) : UInt16 := be16 m (base + 4)

/-! ### Runs -/

/-- What happens to a host: a call of `icmp_handle_packet` for the packet at `base` of the frame in
memory, a call of `icmp_send_echo_request`, an entry for the table of addresses, the clock. -/
inductive IcmpEvent
  | packet (m : ℕ → UInt8) (base : ℕ) (len : UInt16)
  | ping (dstIp : UInt32)
  | arp (ip : UInt32) (mac : List UInt8)
  | clock (ticks : UInt32)

/-- `icmp_handle_packet`, and what it sends. -/
def NetHost.icmpPacket (nic : NicDevice) (h : NetHost) (m : ℕ → UInt8) (base : ℕ)
    (len : UInt16) : Except Fault NetHost :=
  if len < 8 then .ok h
  else h.handled nic ((icmpHandlePacket h.net base len).value m)

def NetHost.icmpNext (nic : NicDevice) (h : NetHost) : IcmpEvent → Except Fault NetHost
  | .packet m base len => h.icmpPacket nic m base len
  | .ping dstIp => h.ping nic dstIp
  | .arp ip mac => .ok { h with net := arpCacheUpdate h.net ip mac }
  | .clock ticks => .ok { h with net := { h.net with tcp := { h.net.tcp with ticks := ticks } } }

/-- The identifier of a valid echo reply. -/
def IcmpEvent.replyId : IcmpEvent → Option UInt16
  | .packet m base len => if ValidIcmp m base len icmpEchoReply then some (icmpId m base) else none
  | .ping _ => none
  | .arp _ _ => none
  | .clock _ => none

/-- The identifiers of the valid echo replies that are delivered in a run. -/
def deliveredReplies (events : List IcmpEvent) : List UInt16 := events.filterMap IcmpEvent.replyId

/-- One echo reply goes to the source of the request, with its identifier, sequence number and data,
and with a valid checksum. -/
def EchoReplied (nic : NicDevice) (m : ℕ → UInt8) (base : ℕ) (len : UInt16) (h h' : NetHost) :
    Prop :=
  ∃ send : Ipv4Send, h'.made = h.made ++ [send] ∧ h'.frames = h.frames ++ [send.frame nic] ∧
    send.call.dstIp = be32 m 26 ∧ send.call.protocol = ipProtoIcmp ∧
    send.call.payload.take 2 = [icmpEchoReply, 0] ∧
    send.call.payload.drop 4 = (bytesAt m base len.toNat).drop 4 ∧
    ipChecksum send.call.payload = 0

variable {nic : NicDevice} {h h' : NetHost} {m : ℕ → UInt8} {base : ℕ} {len : UInt16}
  {call : Ipv4Call}

/-! ### The handler -/

/-- A packet whose identifier is not above `prev_id` is ignored. -/
theorem value_icmpHandlePacket_of_le {s : NetStack} (hid : (icmpId m base).toUInt32 ≤ s.prevId) :
    (icmpHandlePacket s base len).value m = s := by
  rw [icmpHandlePacket, value_readBe16, Access.value_ite]
  exact if_pos hid

/-- **The handler**, for the other packets. -/
theorem value_icmpHandlePacket {s : NetStack} (hlen : 8 ≤ len)
    (hid : ¬ (icmpId m base).toUInt32 ≤ s.prevId) :
    (icmpHandlePacket s base len).value m =
      if ValidIcmp m base len icmpEchoRequest then
        { s with icmpSent := s.icmpSent ++
            [(be32 m 26, echoReply (bytesAt m base (min len.toNat 1498)))] }
      else if ValidIcmp m base len icmpEchoReply then { s with prevId := (icmpId m base).toUInt32 }
      else s := by
  rw [icmpHandlePacket, value_readBe16, Access.value_ite, if_neg hid]
  simp only [Access.value_read, value_readBe32, Access.value_readMany, Access.value_ite,
    Access.value_touch, Access.value_pure]
  by_cases hsum : (m (base + 3)).toUInt16 <<< 8 ||| (m (base + 2)).toUInt16 =
      ipChecksum (withChecksum (bytesAt m base len.toNat) 0)
  · have hvalid : ∀ type, ValidIcmp m base len type ↔ m base = type :=
      fun type => ⟨ValidIcmp.type, fun htype => ⟨hlen, htype, hsum⟩⟩
    simp only [hvalid]
    exact if_neg (not_not_intro hsum)
  · have hinvalid : ∀ type, ¬ ValidIcmp m base len type := fun type hvalid => hsum hvalid.checksum
    rw [if_neg (hinvalid _), if_neg (hinvalid _)]
    exact if_pos hsum

/-- The reply to a packet of at least the length of a header. -/
theorem echoReply_spec {packet : List UInt8} (hlow : 4 ≤ packet.length)
    (hhigh : packet.length < 2 ^ 16) :
    (echoReply packet).length = packet.length ∧
      (echoReply packet).take 2 = [icmpEchoReply, 0] ∧
      (echoReply packet).drop 4 = packet.drop 4 ∧ ipChecksum (echoReply packet) = 0 := by
  obtain ⟨a, b, c, d, data, rfl⟩ : ∃ a b c d data, packet = a :: b :: c :: d :: data := by
    rcases packet with _ | ⟨a, _ | ⟨b, _ | ⟨c, _ | ⟨d, data⟩⟩⟩⟩
    case cons.cons.cons.cons => exact ⟨a, b, c, d, data, rfl⟩
    all_goals exact absurd hlow (by simp)
  have hroom : 3 < (withChecksum (icmpEchoReply :: 0 :: c :: d :: data) 0).length := by
    rw [length_withChecksum]
    exact hlow
  have hlen : (withChecksum (icmpEchoReply :: 0 :: c :: d :: data) 0).length < 2 ^ 17 :=
    Nat.lt_trans hhigh (by decide)
  exact ⟨rfl, rfl, rfl, ipChecksum_store (k := 1) ⟨hroom, rfl, rfl⟩ hlen⟩

/-! ### Sending -/

theorem resolves_iff (s : Ipv4Stack) (ip : UInt32) :
    Resolves nic s ip ↔
      (arpCacheFind s (if isLocalIp nic ip then ip else nic.gatewayIp)).isSome = true := by
  rw [Resolves, arpLookup]
  cases arpCacheFind s (if isLocalIp nic ip then ip else nic.gatewayIp) with
  | none => exact Iff.rfl
  | some entry => exact Iff.rfl

/-- Where `arp_lookup` finds a destination, it finds the next hop. -/
theorem Resolves.nextHop {s : Ipv4Stack} {ip : UInt32} (h : Resolves nic s ip) :
    Resolves nic s (nextHop nic ip) := by
  have hlocal : isLocalIp nic ip = true ↔ ip &&& nic.netmask = nic.ipAddr &&& nic.netmask := by
    rw [isLocalIp, beq_iff_eq, eq_comm]
  rw [HalOS.nextHop]
  by_cases hnet : ip &&& nic.netmask = nic.ipAddr &&& nic.netmask
  · rwa [if_pos hnet]
  · rw [if_neg hnet]
    rw [resolves_iff, if_neg fun hl => hnet (hlocal.mp hl)] at h
    rw [resolves_iff, ite_self]
    exact h

/-- What `queue_packet` leaves alone. -/
theorem queuePacket_frame (calls : List Ipv4Call) (h : NetHost) :
    (calls.foldl queuePacket h).made = h.made ∧ (calls.foldl queuePacket h).frames = h.frames ∧
      (calls.foldl queuePacket h).net.prevId = h.net.prevId := by
  induction calls generalizing h with
  | nil => exact ⟨rfl, rfl, rfl⟩
  | cons call calls ih =>
      obtain ⟨hmade, hframes, hprev⟩ := ih (queuePacket h call)
      rw [List.foldl_cons, hmade, hframes, hprev]
      rcases queuePacket_cases h call with heq | ⟨tcp, -, heq | ⟨-, heq⟩⟩
      · rw [heq]
        exact ⟨rfl, rfl, rfl⟩
      · rw [heq]
        exact ⟨rfl, rfl, rfl⟩
      · rw [heq]
        exact ⟨rfl, rfl, rfl⟩

/-- A call whose next hop is resolved. -/
theorem NetHost.send_of_resolves (hhop : Resolves nic h.toIpv4 (nextHop nic call.dstIp))
    (hlen : call.payload.length ≤ 1484) :
    ∃ h' send, h.send nic call = .ok h' ∧ send.call = call ∧ h'.made = h.made ++ [send] ∧
      h'.frames = h.frames ++ [send.frame nic] := by
  obtain ⟨s', send, hsend⟩ := sendIpv4Packet_of_resolves hhop hlen
  obtain ⟨hnone, -⟩ | ⟨send', heq, hcall, -, -, -, -, hsent, hmade⟩ := sendIpv4Packet_eq_ok hsend
  · cases hnone
  cases heq
  refine ⟨_, send, bind_eq_ok.mpr ⟨(s', some send), hsend, rfl⟩, hcall, ?_, ?_⟩
  · rw [(queuePacket_frame _ _).1]
    exact hmade
  · rw [(queuePacket_frame _ _).2.1]
    exact hsent

theorem NetHost.prevId_send (hs : h.send nic call = .ok h') : h'.net.prevId = h.net.prevId := by
  obtain ⟨⟨s, sent?⟩, -, heq⟩ := bind_eq_ok.mp hs
  cases heq
  exact (queuePacket_frame _ _).2.2

theorem NetHost.prevId_foldlM_send (calls : List Ipv4Call)
    (hs : calls.foldlM (NetHost.send nic) h = .ok h') : h'.net.prevId = h.net.prevId := by
  induction calls generalizing h with
  | nil =>
      cases hs
      rfl
  | cons call calls ih =>
      rw [List.foldlM_cons] at hs
      obtain ⟨mid, hmid, hs⟩ := bind_eq_ok.mp hs
      rw [ih hs, NetHost.prevId_send hmid]

theorem NetHost.prevId_ping {dstIp : UInt32} (hs : h.ping nic dstIp = .ok h') :
    h'.net.prevId = h.net.prevId := by
  rw [NetHost.ping] at hs
  cases hlookup : (arpLookup nic h.toIpv4 dstIp).1 with
  | none =>
      simp only [hlookup] at hs
      cases hs
      exact (queuePacket_frame [_] _).2.2
  | some mac =>
      simp only [hlookup] at hs
      exact (NetHost.prevId_send hs :)

/-! ### The filter -/

/-- The identifiers that are not let through: 0, and those not above one of these. -/
def Filters (prevId : UInt32) (ids : List UInt16) : Prop :=
  ∀ x : UInt16, x.toUInt32 ≤ prevId ↔ x = 0 ∨ ∃ id ∈ ids, x ≤ id

theorem toUInt32_le_iff (x y : UInt16) : x.toUInt32 ≤ y.toUInt32 ↔ x ≤ y := by
  rw [UInt32.le_iff_toNat_le, UInt16.le_iff_toNat_le, UInt16.toNat_toUInt32,
    UInt16.toNat_toUInt32]

theorem filters_zero : Filters 0 [] := fun x => by
  have hzero : x.toUInt32 ≤ (0 : UInt16).toUInt32 ↔ x ≤ 0 := toUInt32_le_iff x 0
  constructor
  · exact fun hle => Or.inl (UInt16.le_zero_iff.mp (hzero.mp hle))
  · rintro (rfl | ⟨id, hid, -⟩)
    · exact hzero.mpr UInt16.le_rfl
    · cases hid

/-- A reply that is ignored. -/
theorem Filters.concat_of_le {prevId : UInt32} {ids : List UInt16} {id : UInt16}
    (hf : Filters prevId ids) (hid : id.toUInt32 ≤ prevId) : Filters prevId (ids ++ [id]) := by
  intro x
  rw [hf x]
  constructor
  · rintro (hzero | ⟨y, hy, hle⟩)
    · exact Or.inl hzero
    · exact Or.inr ⟨y, List.mem_append_left _ hy, hle⟩
  · rintro (hzero | ⟨y, hy, hle⟩)
    · exact Or.inl hzero
    · rcases List.mem_append.mp hy with hold | hnew
      · exact Or.inr ⟨y, hold, hle⟩
      · rw [List.mem_singleton.mp hnew] at hle
        exact (hf x).mp (UInt32.le_trans ((toUInt32_le_iff x id).mpr hle) hid)

/-- A reply that comes through. -/
theorem Filters.concat_of_lt {prevId : UInt32} {ids : List UInt16} {id : UInt16}
    (hf : Filters prevId ids) (hid : ¬ id.toUInt32 ≤ prevId) :
    Filters id.toUInt32 (ids ++ [id]) := by
  have hlow : prevId ≤ id.toUInt32 := UInt32.le_of_lt (UInt32.not_le.mp hid)
  intro x
  rw [toUInt32_le_iff]
  constructor
  · exact fun hle => Or.inr ⟨id, List.mem_append_right _ (List.mem_singleton_self id), hle⟩
  · intro hx
    rw [← toUInt32_le_iff]
    rcases hx with hzero | ⟨y, hy, hle⟩
    · exact UInt32.le_trans ((hf x).mpr (Or.inl hzero)) hlow
    · rcases List.mem_append.mp hy with hold | hnew
      · exact UInt32.le_trans ((hf x).mpr (Or.inr ⟨y, hold, hle⟩)) hlow
      · rw [← List.mem_singleton.mp hnew]
        exact (toUInt32_le_iff x y).mpr hle

/-- **One event.** -/
theorem Filters.next {ids : List UInt16} {e : IcmpEvent} (hf : Filters h.net.prevId ids)
    (hs : h.icmpNext nic e = .ok h') : Filters h'.net.prevId (ids ++ e.replyId.toList) := by
  cases e with
  | packet m base len =>
      rw [NetHost.icmpNext, NetHost.icmpPacket] at hs
      by_cases hshort : len < 8
      · rw [if_pos hshort] at hs
        cases hs
        have hinvalid : ¬ ValidIcmp m base len icmpEchoReply :=
          fun hvalid => UInt16.not_lt.mpr hvalid.le_len hshort
        rw [IcmpEvent.replyId, if_neg hinvalid, Option.toList_none, List.append_nil]
        exact hf
      rw [if_neg hshort] at hs
      rw [NetHost.prevId_foldlM_send _ hs, IcmpEvent.replyId]
      by_cases hid : (icmpId m base).toUInt32 ≤ h.net.prevId
      · rw [value_icmpHandlePacket_of_le hid]
        by_cases hreply : ValidIcmp m base len icmpEchoReply
        · rw [if_pos hreply]
          exact hf.concat_of_le hid
        · rw [if_neg hreply, Option.toList_none, List.append_nil]
          exact hf
      · rw [value_icmpHandlePacket (UInt16.not_lt.mp hshort) hid]
        by_cases hreply : ValidIcmp m base len icmpEchoReply
        · have hrequest : ¬ ValidIcmp m base len icmpEchoRequest := fun hrequest =>
            absurd (hrequest.type.symm.trans hreply.type) (by decide)
          rw [if_neg hrequest, if_pos hreply, if_pos hreply]
          exact hf.concat_of_lt hid
        · rw [if_neg hreply, if_neg hreply, Option.toList_none, List.append_nil]
          by_cases hrequest : ValidIcmp m base len icmpEchoRequest
          · rwa [if_pos hrequest]
          · rwa [if_neg hrequest]
  | ping dstIp =>
      rw [IcmpEvent.replyId, Option.toList_none, List.append_nil, NetHost.prevId_ping hs]
      exact hf
  | arp ip mac =>
      cases hs
      rwa [IcmpEvent.replyId, Option.toList_none, List.append_nil]
  | clock ticks =>
      cases hs
      rwa [IcmpEvent.replyId, Option.toList_none, List.append_nil]

/-- **Runs.** -/
theorem Filters.run {ids : List UInt16} (events : List IcmpEvent)
    (hf : Filters h.net.prevId ids) (hrun : events.foldlM (NetHost.icmpNext nic) h = .ok h') :
    Filters h'.net.prevId (ids ++ deliveredReplies events) := by
  induction events generalizing h ids with
  | nil =>
      cases hrun
      rwa [deliveredReplies, List.filterMap_nil, List.append_nil]
  | cons e events ih =>
      rw [List.foldlM_cons] at hrun
      obtain ⟨mid, hmid, hrun⟩ := bind_eq_ok.mp hrun
      have hrest := ih (hf.next hmid) hrun
      rw [List.append_assoc] at hrest
      rw [deliveredReplies, List.filterMap_cons]
      cases hreply : e.replyId with
      | none => rwa [hreply] at hrest
      | some id => rwa [hreply] at hrest

/-! ### Requests -/

/-- What goes out after the handler has handed over a packet. -/
theorem callsSince_icmp {reply : List UInt8} (hroom : reply.length < 2 ^ 16) (s : NetStack)
    (dstIp : UInt32) : ∃ call : Ipv4Call, call.dstIp = dstIp ∧ call.protocol = ipProtoIcmp ∧
      call.payload = reply ∧
      callsSince s { s with icmpSent := s.icmpSent ++ [(dstIp, reply)] } = [call] := by
  have hcall : ipv4Call? dstIp ipProtoIcmp reply = some ⟨dstIp, ipProtoIcmp, reply, hroom⟩ :=
    dif_pos hroom
  refine ⟨⟨dstIp, ipProtoIcmp, reply, hroom⟩, rfl, rfl, rfl, ?_⟩
  simp [callsSince, hcall]

/-- Nothing goes out after a handler that has sent nothing. -/
theorem NetHost.handled_self (h : NetHost) : h.handled nic h.net = .ok h := by
  have hcalls : callsSince h.net h.net = [] := by simp [callsSince]
  rw [NetHost.handled, hcalls]
  rfl

/-- A request that is let through is answered. -/
theorem echoReplied_of_request (hrequest : ValidIcmp m base len icmpEchoRequest)
    (hlen : len ≤ 1480) (hsrc : Resolves nic h.toIpv4 (be32 m 26))
    (hid : ¬ (icmpId m base).toUInt32 ≤ h.net.prevId) :
    ∃ h', h.icmpPacket nic m base len = .ok h' ∧ EchoReplied nic m base len h h' := by
  have hlow : 8 ≤ len.toNat := UInt16.le_iff_toNat_le.mp hrequest.le_len
  have hhigh : len.toNat ≤ 1480 := UInt16.le_iff_toNat_le.mp hlen
  have hmin : min len.toNat 1498 = len.toNat := Nat.min_eq_left (by omega)
  have hpacket := length_bytesAt m base len.toNat
  obtain ⟨hlength, htake, hdrop, hsum⟩ :=
    echoReply_spec (by omega : 4 ≤ (bytesAt m base len.toNat).length) (by omega)
  have hroom : (echoReply (bytesAt m base len.toNat)).length < 2 ^ 16 := by omega
  obtain ⟨call, hdst, hprotocol, hpayload, hcalls⟩ := callsSince_icmp hroom h.net (be32 m 26)
  rw [← hpayload] at hlength htake hdrop hsum
  obtain ⟨h', send, hsend, rfl, hmade, hframes⟩ := NetHost.send_of_resolves
    (h := { h with net := { h.net with icmpSent := h.net.icmpSent ++
      [(be32 m 26, echoReply (bytesAt m base len.toNat))] } })
    (hdst ▸ Resolves.nextHop hsrc) (hlength.trans hpacket ▸ by omega)
  refine ⟨h', ?_, send, hmade, hframes, hdst, hprotocol, htake, hdrop, hsum⟩
  rw [NetHost.icmpPacket, if_neg (UInt16.not_lt.mpr hrequest.le_len),
    value_icmpHandlePacket hrequest.le_len hid, if_pos hrequest, hmin, NetHost.handled, hcalls,
    List.foldlM_cons]
  exact bind_eq_ok.mpr ⟨h', hsend, rfl⟩

/-- A request that is not let through is not answered. -/
theorem not_echoReplied_of_le (hrequest : ValidIcmp m base len icmpEchoRequest)
    (hid : (icmpId m base).toUInt32 ≤ h.net.prevId) :
    ¬ ∃ h', h.icmpNext nic (.packet m base len) = .ok h' ∧ EchoReplied nic m base len h h' := by
  rintro ⟨h', hs, send, hmade, -⟩
  rw [NetHost.icmpNext, NetHost.icmpPacket, if_neg (UInt16.not_lt.mpr hrequest.le_len),
    value_icmpHandlePacket_of_le hid, NetHost.handled_self] at hs
  cases hs
  exact absurd hmade.symm (by simp)

/-- An ICMP packet from 10.0.2.2, behind an Ethernet and an IPv4 header. -/
def icmpFrame (type : UInt8) (id : UInt16) (i : ℕ) : UInt8 :=
  let packet := [type, 0, 0, 0] ++ be16Bytes id ++ [0, 1]
  (List.replicate 26 0 ++ [10, 0, 2, 2] ++ List.replicate 4 0 ++
    withChecksum packet (ipChecksum packet)).getD i 0

theorem be32_icmpFrame (type : UInt8) (id : UInt16) :
    be32 (icmpFrame type id) 26 = 0x0A000202 := by
  have hbyte : ∀ i < 34, icmpFrame type id i =
      (List.replicate 26 (0 : UInt8) ++ [10, 0, 2, 2] ++ List.replicate 4 0).getD i 0 :=
    fun i hi => by
      rw [icmpFrame, List.getD_eq_getElem?_getD, List.getElem?_append_left hi,
        ← List.getD_eq_getElem?_getD]
  rw [be32, be16, be16, hbyte 26 (by decide), hbyte 27 (by decide), hbyte 28 (by decide),
    hbyte 29 (by decide)]
  decide

/-- The host pings the gateway, and the gateway replies. -/
def pingedGateway : List IcmpEvent :=
  [.arp 0x0A000202 [0x52, 0x55, 10, 0, 2, 2], .ping 0x0A000202,
    .packet (icmpFrame icmpEchoReply 1) 34 8]

theorem pingedGateway_run : ∃ h : NetHost,
    pingedGateway.foldlM (NetHost.icmpNext defaultNic) defaultHost = .ok h ∧
      Resolves defaultNic h.toIpv4 0x0A000202 ∧ h.net.prevId = 1 := by
  obtain ⟨h, hrun, hstate⟩ := exists_eq_ok_of_any
    (p := fun h : NetHost => decide (Resolves defaultNic h.toIpv4 0x0A000202) && h.net.prevId == 1)
    (x := pingedGateway.foldlM (NetHost.icmpNext defaultNic) defaultHost) (by decide +kernel)
  rw [Bool.and_eq_true, decide_eq_true_iff, beq_iff_eq] at hstate
  exact ⟨h, hrun, hstate⟩

end HalOS
