import HalOS.Net.Arp

/-!
# A Host on the Network

The senders and the receiver of the network code in one state. A call of `net_send_ipv4_packet`
whose next hop is not resolved goes to `queue_packet`, a received frame goes to
`net_process_packet`, and what its handlers want to send goes out as calls of
`net_send_ipv4_packet` in their order. `retry_pending_packets` is never called: both of its calls
are commented out.

The `id` and the `seq` of an echo request come from `htons(next_id++)`. The macro names its
argument twice; one increment is taken here. The outcomes of `malloc` are those of the TCP stack,
with the calls of a handler before those of what it sends.

## Main results

* `NetHost.pending_prefix`: no step takes a packet out of the queue.
-/

namespace HalOS

open CString (Memory)
open Outcome (bind_eq_ok)

/-! ### Data -/

/-- `struct pending_packet`. -/
structure PendingPacket where
  call : Ipv4Call
  timestamp : UInt32
deriving DecidableEq, Repr

/-- The static variables of the network code, and the logs of the frames passed to
`eth_send_packet_func` and of the calls they belong to. The clock and the table are those of
`net`. -/
structure NetHost where
  net : NetStack
  packetBuffer : Memory
  packetId : UInt16
  nextId : UInt16
  nextSeq : UInt16
  pending : List PendingPacket
  frames : List (List UInt8)
  made : List Ipv4Send
  arpRequests : List UInt32

/-- `MAX_PENDING_PACKETS`. -/
abbrev maxPendingPackets : ℕ := 5

/-- `ICMP_PACKET_SIZE`. -/
abbrev icmpPacketSize : ℕ := 64

/-- What the IPv4 layer sees of the host. -/
def NetHost.toIpv4 (h : NetHost) : Ipv4Stack where
  packetBuffer := h.packetBuffer
  packetId := h.packetId
  arpCache := h.net.arpCache
  ticks := h.net.tcp.ticks
  sent := h.frames
  made := h.made
  queued := []
  arpRequests := h.arpRequests

/-! ### Sending -/

/-- `queue_packet`. -/
def queuePacket (h : NetHost) (call : Ipv4Call) : NetHost :=
  if maxPendingPackets ≤ h.pending.length then h
  else
    let (success, tcp) := h.net.tcp.malloc
    let h := { h with net := { h.net with tcp := tcp } }
    if success = false then h
    else { h with pending := h.pending ++ [{ call := call, timestamp := h.net.tcp.ticks }] }

/-- `net_send_ipv4_packet`. -/
def NetHost.send (nic : NicDevice) (h : NetHost) (call : Ipv4Call) : Except Fault NetHost := do
  let (s, _) ← sendIpv4Packet nic h.toIpv4 call
  .ok (s.queued.foldl queuePacket
    { h with
      packetBuffer := s.packetBuffer
      packetId := s.packetId
      frames := s.sent
      made := s.made
      arpRequests := s.arpRequests })

/-- The packet of `icmp_send_echo_request`. -/
def echoRequest (id seq : UInt16) (ticks : UInt32) : List UInt8 :=
  let packet := [icmpEchoRequest, 0, 0, 0] ++ be16Bytes id ++ be16Bytes seq ++ be32Bytes ticks ++
    (List.range' 12 (icmpPacketSize - 12)).map fun i => 0x41 + UInt8.ofNat (i % 26)
  withChecksum packet (ipChecksum packet)

theorem length_withChecksum (packet : List UInt8) (checksum : UInt16) :
    (withChecksum packet checksum).length = packet.length := by
  rw [withChecksum, List.length_set, List.length_set]

theorem length_echoRequest (id seq : UInt16) (ticks : UInt32) :
    (echoRequest id seq ticks).length = icmpPacketSize := by
  rw [echoRequest, length_withChecksum]
  rfl

/-- The call with that packet. -/
def echoCall (id seq : UInt16) (ticks dstIp : UInt32) : Ipv4Call where
  dstIp := dstIp
  protocol := ipProtoIcmp
  payload := echoRequest id seq ticks
  fits := by
    rw [length_echoRequest]
    decide

/-- `icmp_send_echo_request`. -/
def NetHost.ping (nic : NicDevice) (h : NetHost) (dstIp : UInt32) : Except Fault NetHost :=
  let call := echoCall h.nextId h.nextSeq h.net.tcp.ticks dstIp
  let (mac, requests) := arpLookup nic h.toIpv4 dstIp
  let h :=
    { h with
      nextId := h.nextId + 1
      nextSeq := h.nextSeq + 1
      arpRequests := h.arpRequests ++ requests }
  match mac with
  | none =>
      let h := queuePacket h call
      .ok { h with arpRequests := h.arpRequests ++ [dstIp] }
  | some _ => h.send nic call

/-! ### Receiving -/

/-- A call with a payload that a handler has put together. -/
def ipv4Call? (dstIp : UInt32) (protocol : UInt8) (payload : List UInt8) : Option Ipv4Call :=
  if h : payload.length < 2 ^ 16 then
    some { dstIp := dstIp, protocol := protocol, payload := payload, fits := h }
  else none

/-- What the handlers of a frame have handed to `net_send_ipv4_packet`. -/
def callsSince (old net : NetStack) : List Ipv4Call :=
  ((net.icmpSent.drop old.icmpSent.length).filterMap fun x => ipv4Call? x.1 ipProtoIcmp x.2) ++
    (net.tcp.sent.drop old.tcp.sent.length).filterMap fun seg =>
      ipv4Call? seg.dstIp ipProtoTcp seg.wire

/-- The handlers are done, and what they send goes out. -/
def NetHost.handled (nic : NicDevice) (h : NetHost) (net : NetStack) : Except Fault NetHost :=
  (callsSince h.net net).foldlM (NetHost.send nic) { h with net := net }

/-- `net_process_packet`. -/
def NetHost.receive (nic : NicDevice) (h : NetHost) (m : ℕ → UInt8) (len : UInt16) :
    Except Fault NetHost := do
  let net ← (netProcessPacket h.net len).value m
  h.handled nic net

/-! ### Runs -/

/-- What happens to a host. -/
inductive NetEvent
  | send (call : Ipv4Call)
  | ping (dstIp : UInt32)
  | frame (m : ℕ → UInt8) (len : UInt16)
  | clock (ticks : UInt32)

def NetHost.next (nic : NicDevice) (h : NetHost) : NetEvent → Except Fault NetHost
  | .send call => h.send nic call
  | .ping dstIp => h.ping nic dstIp
  | .frame m len => h.receive nic m len
  | .clock ticks => .ok { h with net := { h.net with tcp := { h.net.tcp with ticks := ticks } } }

/-- A host after boot. -/
def NetHost.boot (nic : NicDevice) (tcp : TcpStack) (buffer : Memory) : NetHost where
  net :=
    { tcp := { tcp with nicIp := nic.ipAddr }
      nicMac := nic.mac
      arpCache := bootArpCache
      prevId := 0
      arpSent := []
      icmpSent := [] }
  packetBuffer := buffer
  packetId := 0
  nextId := 1
  nextSeq := 1
  pending := []
  frames := []
  made := []
  arpRequests := []

/-! ### What a step leaves alone -/

variable {nic : NicDevice} {h h' : NetHost} {call : Ipv4Call}

theorem queuePacket_cases (h : NetHost) (call : Ipv4Call) :
    queuePacket h call = h ∨
    ∃ tcp, h.net.tcp.malloc.2 = tcp ∧
      (queuePacket h call = { h with net := { h.net with tcp := tcp } } ∨
        h.pending.length < maxPendingPackets ∧ queuePacket h call = { h with
          net := { h.net with tcp := tcp }
          pending := h.pending ++ [{ call := call, timestamp := tcp.ticks }] }) := by
  rw [queuePacket]
  by_cases hfull : maxPendingPackets ≤ h.pending.length
  · exact Or.inl (if_pos hfull)
  · rw [if_neg hfull]
    refine Or.inr ⟨_, rfl, ?_⟩
    by_cases hsuccess : h.net.tcp.malloc.1 = false
    · exact Or.inl (if_pos hsuccess)
    · exact Or.inr ⟨Nat.not_le.mp hfull, if_neg hsuccess⟩

theorem prefix_queuePacket {l : List PendingPacket} (h : NetHost) (call : Ipv4Call)
    (hl : l <+: h.pending) : l <+: (queuePacket h call).pending := by
  rcases queuePacket_cases h call with heq | ⟨tcp, -, heq | ⟨-, heq⟩⟩
  · rwa [heq]
  · rwa [heq]
  · rw [heq]
    exact hl.trans (List.prefix_append _ _)

theorem prefix_foldl_queuePacket {l : List PendingPacket} (calls : List Ipv4Call) (h : NetHost)
    (hl : l <+: h.pending) : l <+: (calls.foldl queuePacket h).pending := by
  induction calls generalizing h with
  | nil => exact hl
  | cons call calls ih => exact ih _ (prefix_queuePacket h call hl)

theorem NetHost.prefix_send {l : List PendingPacket} (hs : h.send nic call = .ok h')
    (hl : l <+: h.pending) : l <+: h'.pending := by
  obtain ⟨⟨s, sent?⟩, -, heq⟩ := bind_eq_ok.mp hs
  cases heq
  exact prefix_foldl_queuePacket _ _ hl

theorem NetHost.prefix_foldlM_send {l : List PendingPacket} (calls : List Ipv4Call)
    (hs : calls.foldlM (NetHost.send nic) h = .ok h') (hl : l <+: h.pending) :
    l <+: h'.pending := by
  induction calls generalizing h with
  | nil =>
      cases hs
      exact hl
  | cons call calls ih =>
      rw [List.foldlM_cons] at hs
      obtain ⟨mid, hmid, hs⟩ := bind_eq_ok.mp hs
      exact ih hs (NetHost.prefix_send hmid hl)

/-- **One step** takes no packet out of the queue. -/
theorem NetHost.pending_prefix {e : NetEvent} (hs : h.next nic e = .ok h') :
    h.pending <+: h'.pending := by
  have hrefl := List.prefix_refl h.pending
  cases e with
  | send call => exact NetHost.prefix_send hs hrefl
  | ping dstIp =>
      rw [NetHost.next, NetHost.ping] at hs
      cases hlookup : (arpLookup nic h.toIpv4 dstIp).1 with
      | none =>
          simp only [hlookup] at hs
          cases hs
          exact prefix_queuePacket _ _ hrefl
      | some mac =>
          simp only [hlookup] at hs
          exact NetHost.prefix_send hs hrefl
  | frame m len =>
      obtain ⟨net, -, hs⟩ := bind_eq_ok.mp hs
      exact NetHost.prefix_foldlM_send _ hs hrefl
  | clock ticks =>
      cases hs
      exact hrefl

/-- **Runs.** -/
theorem NetHost.pending_prefix_run {events : List NetEvent}
    (hrun : events.foldlM (NetHost.next nic) h = .ok h') : h.pending <+: h'.pending :=
  (Outcome.Steps.of_foldlM hrun).invariant (I := fun g => h.pending <+: g.pending)
    (List.prefix_refl _) fun _ _ _ hprefix _ hstep => hprefix.trans (NetHost.pending_prefix hstep)

end HalOS
