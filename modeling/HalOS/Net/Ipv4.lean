import HalOS.Lib.CString
import HalOS.Net.Network

/-!
# Sending an IPv4 Packet

`net_send_ipv4_packet` in three steps: the header is filled in, the payload is copied behind it,
and the packet goes to `eth_send_frame`. The packet is put together in a static buffer, which
`eth_send_frame` copies into a frame of its own.

The log `sent` holds the frames passed to `eth_send_packet_func`, `made` the calls that they
belong to. What happens to a packet whose next hop is not resolved is logged as it is handed over.
The macro in `htons(packet_id++)` names its argument twice; one increment is taken here.

## Main results

* `sendIpv4Packet_eq_ok`: a call that runs alone sends its own header and payload.
-/

namespace HalOS

open CString (Memory memcpy memcpy_of_lt memcpy_add)
open Outcome (bind_eq_ok)

/-! ### Data -/

/-- The fields of `nic` that the senders read. -/
structure NicDevice where
  ipAddr : UInt32
  netmask : UInt32
  gatewayIp : UInt32
  mac : List UInt8
deriving DecidableEq, Repr

/-- The arguments of `net_send_ipv4_packet`: `payload` is what the pointer leads to. -/
structure Ipv4Call where
  dstIp : UInt32
  protocol : UInt8
  payload : List UInt8
  fits : payload.length < 2 ^ 16
deriving DecidableEq, Repr

def Ipv4Call.payloadLen (call : Ipv4Call) : UInt16 := UInt16.ofNat call.payload.length

/-- A call whose header has been filled in: its arguments, `dst_mac`, and what `packet_id++` has
given. -/
structure Ipv4Send where
  call : Ipv4Call
  dstMac : List UInt8
  id : UInt16
deriving DecidableEq, Repr

/-- The static variables, and the logs. -/
structure Ipv4Stack where
  packetBuffer : Memory
  packetId : UInt16
  arpCache : List ArpCacheEntry
  ticks : UInt32
  sent : List (List UInt8)
  made : List Ipv4Send
  queued : List Ipv4Call
  arpRequests : List UInt32

abbrev arpCacheTimeout : UInt32 := 30000

/-! ### The next hop -/

def isLocalIp (nic : NicDevice) (ip : UInt32) : Bool :=
  nic.ipAddr &&& nic.netmask == ip &&& nic.netmask

/-- The first entry for the address that is not too old. -/
def arpCacheFind (s : Ipv4Stack) (ip : UInt32) : Option ArpCacheEntry :=
  s.arpCache.find? fun e => e.ip == ip && s.ticks - e.timestamp < arpCacheTimeout

/-- `arp_lookup`, with the requests that it sends. -/
def arpLookup (nic : NicDevice) (s : Ipv4Stack) (ip : UInt32) : Option (List UInt8) × List UInt32 :=
  let targetIp := if isLocalIp nic ip then ip else nic.gatewayIp
  match arpCacheFind s targetIp with
  | some entry => (some entry.mac, [])
  | none =>
      (none,
        if targetIp = nic.gatewayIp ∧ (arpCacheFind s nic.gatewayIp).isNone then [nic.gatewayIp]
        else [])

/-- The address that is looked up for a destination. -/
def nextHop (nic : NicDevice) (dstIp : UInt32) : UInt32 :=
  if dstIp &&& nic.netmask = nic.ipAddr &&& nic.netmask then dstIp else nic.gatewayIp

/-! ### The header -/

/-- The header: `ip_checksum` is computed with a zero in its place, and stored as it is. -/
def ipv4Header (nic : NicDevice) (call : Ipv4Call) (id : UInt16) : List UInt8 :=
  let header := [0x45, 0] ++ be16Bytes (20 + call.payloadLen) ++ be16Bytes id ++
    [0, 0, 64, call.protocol, 0, 0] ++ be32Bytes nic.ipAddr ++ be32Bytes call.dstIp
  let checksum := ipChecksum header
  (header.set 10 checksum.toUInt8).set 11 (checksum >>> 8).toUInt8

/-- `net_send_ipv4_packet` up to the header; `none` when the packet is not sent. -/
def fillHeader (nic : NicDevice) (s : Ipv4Stack) (call : Ipv4Call) :
    Ipv4Stack × Option Ipv4Send :=
  let totalLen : UInt16 := 20 + call.payloadLen
  if packetBufferSize < totalLen.toNat then (s, none)
  else
    match arpLookup nic s (nextHop nic call.dstIp) with
    | (none, requests) =>
        ({ s with
            queued := s.queued ++ [call]
            arpRequests := s.arpRequests ++ requests ++ [nextHop nic call.dstIp] }, none)
    | (some dstMac, requests) =>
        ({ s with
            packetBuffer := memcpy s.packetBuffer 0 (ipv4Header nic call s.packetId)
            packetId := s.packetId + 1
            arpRequests := s.arpRequests ++ requests },
          some { call := call, dstMac := dstMac, id := s.packetId })

/-! ### The payload and the frame -/

def copyPayload (s : Ipv4Stack) (send : Ipv4Send) : Except Fault Ipv4Stack :=
  if packetBufferSize < 20 + send.call.payloadLen.toNat then .error .bufferOverrun
  else .ok { s with packetBuffer := memcpy s.packetBuffer 20 send.call.payload }

/-- The frame with a packet, in the memory of `frame`. -/
def ethFrame (nic : NicDevice) (dstMac : List UInt8) (ethertype : UInt16) (packet : List UInt8) :
    Memory :=
  memcpy (memcpy (memcpy (memcpy (fun _ => 0) 0 dstMac) 6 nic.mac) 12 (be16Bytes ethertype)) 14
    packet

/-- `eth_send_frame`: what it passes to `eth_send_packet_func`. -/
def ethSendFrame (nic : NicDevice) (dstMac : List UInt8) (ethertype : UInt16) (data : Memory)
    (len : UInt16) : Except Fault (List UInt8) :=
  let totalLen : UInt16 := 14 + len
  let totalLen := if totalLen < 60 then 60 else totalLen
  if packetBufferSize < 14 + len.toNat then .error .bufferOverrun
  else .ok (bytesAt (ethFrame nic dstMac ethertype (bytesAt data 0 len.toNat)) 0 totalLen.toNat)

def handOver (nic : NicDevice) (s : Ipv4Stack) (send : Ipv4Send) : Except Fault Ipv4Stack := do
  let frame ← ethSendFrame nic send.dstMac ethertypeIp s.packetBuffer (20 + send.call.payloadLen)
  .ok { s with sent := s.sent ++ [frame], made := s.made ++ [send] }

/-- `net_send_ipv4_packet`, without interruption. -/
def sendIpv4Packet (nic : NicDevice) (s : Ipv4Stack) (call : Ipv4Call) :
    Except Fault (Ipv4Stack × Option Ipv4Send) :=
  match fillHeader nic s call with
  | (s, none) => .ok (s, none)
  | (s, some send) => do
      let s ← copyPayload s send
      let s ← handOver nic s send
      .ok (s, some send)

/-! ### What a call is to send -/

/-- The packet of a call. -/
def Ipv4Send.packet (nic : NicDevice) (send : Ipv4Send) : List UInt8 :=
  ipv4Header nic send.call send.id ++ send.call.payload

/-- The frame with the header and the payload of a call, filled up to 60 bytes. -/
def Ipv4Send.frame (nic : NicDevice) (send : Ipv4Send) : List UInt8 :=
  bytesAt (ethFrame nic send.dstMac ethertypeIp (send.packet nic)) 0
    (max 60 (14 + (send.packet nic).length))

variable {nic : NicDevice} {s s' : Ipv4Stack} {call : Ipv4Call} {send : Ipv4Send}

theorem length_ipv4Header (nic : NicDevice) (call : Ipv4Call) (id : UInt16) :
    (ipv4Header nic call id).length = 20 := by
  rw [ipv4Header]
  simp only [List.length_set]
  rfl

theorem length_packet (nic : NicDevice) (send : Ipv4Send) :
    (send.packet nic).length = 20 + send.call.payload.length := by
  rw [Ipv4Send.packet, List.length_append, length_ipv4Header]

theorem toNat_payloadLen (call : Ipv4Call) : call.payloadLen.toNat = call.payload.length :=
  UInt16.toNat_ofNat_of_lt' call.fits

/-! ### Memory -/

theorem bytesAt_memcpy (m : Memory) (start : ℕ) (bytes : List UInt8) :
    bytesAt (memcpy m start bytes) start bytes.length = bytes := by
  refine List.ext_getElem (length_bytesAt _ _ _) fun i hi hi' => ?_
  simp only [bytesAt, List.getElem_map, List.getElem_range, memcpy_add,
    List.getElem?_eq_getElem hi', Option.getD_some]

theorem bytesAt_memcpy_of_le {m : Memory} {start from' n : ℕ} {bytes : List UInt8}
    (h : from' + n ≤ start) : bytesAt (memcpy m start bytes) from' n = bytesAt m from' n := by
  refine List.map_congr_left fun i hi => memcpy_of_lt m ?_
  have hlt := List.mem_range.mp hi
  omega

/-- The frame holds its packet. -/
theorem ethFrame_inj {dstMac : List UInt8} {ethertype : UInt16} {p q : List UInt8} {n : ℕ}
    (hlen : p.length = q.length) (hn : 14 + q.length ≤ n)
    (h : bytesAt (ethFrame nic dstMac ethertype p) 0 n =
      bytesAt (ethFrame nic dstMac ethertype q) 0 n) : p = q := by
  obtain ⟨k, rfl⟩ := Nat.exists_eq_add_of_le hn
  rw [bytesAt_add _ 0 (14 + q.length) k, bytesAt_add _ 0 (14 + q.length) k] at h
  have hpair := List.append_inj_left h (by rw [length_bytesAt, length_bytesAt])
  rw [bytesAt_add, bytesAt_add] at hpair
  have hpacket := List.append_inj_right hpair (by rw [length_bytesAt, length_bytesAt])
  have hq : bytesAt (ethFrame nic dstMac ethertype q) 14 q.length = q := bytesAt_memcpy _ _ _
  have hp : bytesAt (ethFrame nic dstMac ethertype p) 14 p.length = p := bytesAt_memcpy _ _ _
  rw [Nat.zero_add, hq, ← hlen, hp] at hpacket
  exact hpacket

/-! ### One call -/

/-- A frame that goes out has room for its packet. -/
theorem ethSendFrame_eq_ok {dstMac : List UInt8} {ethertype : UInt16} {data : Memory}
    {len : UInt16} {frame : List UInt8}
    (h : ethSendFrame nic dstMac ethertype data len = .ok frame) :
    14 + len.toNat ≤ packetBufferSize ∧
      frame = bytesAt (ethFrame nic dstMac ethertype (bytesAt data 0 len.toNat)) 0
        (max 60 (14 + len.toNat)) := by
  rw [ethSendFrame] at h
  have hsize : packetBufferSize = 1518 := rfl
  split_ifs at h with hfull hshort
  all_goals
    have htotal : (14 + len).toNat = 14 + len.toNat := by
      rw [UInt16.toNat_add]
      simp only [UInt16.reduceToNat]
      omega
    refine ⟨by omega, (Except.ok.inj h).symm.trans (congrArg _ ?_)⟩
  · have hlt := UInt16.lt_iff_toNat_lt.mp hshort
    rw [htotal] at hlt
    simp only [UInt16.reduceToNat] at hlt ⊢
    omega
  · have hle := mt UInt16.lt_iff_toNat_lt.mpr hshort
    rw [htotal] at hle ⊢
    simp only [UInt16.reduceToNat] at hle
    omega

/-- The buffer holds the header and the payload that were copied into it. -/
theorem bytesAt_packetBuffer {buffer : Memory} {header payload : List UInt8}
    (hheader : bytesAt buffer 0 20 = header) :
    bytesAt (memcpy buffer 20 payload) 0 (20 + payload.length) = header ++ payload := by
  rw [bytesAt_add, bytesAt_memcpy_of_le (by omega), hheader, bytesAt_memcpy]

/-- The length of a packet that has room in the buffer does not wrap. -/
theorem toNat_totalLen (h : 20 + call.payload.length < 2 ^ 16) :
    (20 + call.payloadLen).toNat = 20 + call.payload.length := by
  rw [UInt16.toNat_add, toNat_payloadLen]
  exact Nat.mod_eq_of_lt h

/-- A packet that goes out has room in the buffer, and its frame. -/
theorem handOver_eq_ok (hfits : 20 + send.call.payload.length ≤ packetBufferSize)
    (h : handOver nic s send = .ok s') :
    send.call.payload.length ≤ 1484 ∧ s' = { s with
      sent := s.sent ++ [bytesAt (ethFrame nic send.dstMac ethertypeIp
        (bytesAt s.packetBuffer 0 (20 + send.call.payload.length))) 0
          (max 60 (14 + (20 + send.call.payload.length)))]
      made := s.made ++ [send] } := by
  obtain ⟨frame, hframe, h⟩ := bind_eq_ok.mp h
  obtain ⟨hroom, rfl⟩ := ethSendFrame_eq_ok hframe
  have hsize : packetBufferSize = 1518 := rfl
  have hlen : (20 + send.call.payloadLen).toNat = 20 + send.call.payload.length :=
    toNat_totalLen (by omega)
  rw [hlen] at h hroom
  exact ⟨by omega, (Except.ok.inj h).symm⟩

theorem copyPayload_eq_ok (h : copyPayload s send = .ok s') :
    20 + send.call.payload.length ≤ packetBufferSize ∧
      s' = { s with packetBuffer := memcpy s.packetBuffer 20 send.call.payload } := by
  rw [copyPayload, toNat_payloadLen] at h
  split_ifs at h with hfull
  exact ⟨Nat.not_lt.mp hfull, (Except.ok.inj h).symm⟩

/-- The packet is not sent, and the buffer is left alone; or its header is in the buffer. -/
theorem fillHeader_cases (nic : NicDevice) (s : Ipv4Stack) (call : Ipv4Call) :
    (∃ queued requests, fillHeader nic s call =
        ({ s with queued := queued, arpRequests := requests }, none)) ∨
    ∃ send requests, send.call = call ∧ send.id = s.packetId ∧
      fillHeader nic s call =
        ({ s with
            packetBuffer := memcpy s.packetBuffer 0 (ipv4Header nic send.call send.id)
            packetId := s.packetId + 1
            arpRequests := requests }, some send) := by
  rw [fillHeader]
  by_cases hlarge : packetBufferSize < (20 + call.payloadLen).toNat
  · rw [if_pos hlarge]
    exact Or.inl ⟨s.queued, s.arpRequests, rfl⟩
  · rw [if_neg hlarge]
    obtain ⟨dstMac, requests⟩ := arpLookup nic s (nextHop nic call.dstIp)
    cases dstMac with
    | none => exact Or.inl ⟨_, _, rfl⟩
    | some dstMac =>
        exact Or.inr ⟨{ call := call, dstMac := dstMac, id := s.packetId },
          s.arpRequests ++ requests, rfl, rfl, rfl⟩

/-- **A call that runs alone** sends the frame with its own header and payload, or leaves the
buffer alone. -/
theorem sendIpv4Packet_eq_ok {sent? : Option Ipv4Send}
    (h : sendIpv4Packet nic s call = .ok (s', sent?)) :
    (sent? = none ∧ s'.packetBuffer = s.packetBuffer ∧ s'.packetId = s.packetId ∧
      s'.sent = s.sent ∧ s'.made = s.made) ∨
    ∃ send, sent? = some send ∧ send.call = call ∧ send.id = s.packetId ∧
      call.payload.length ≤ 1484 ∧
      bytesAt s'.packetBuffer 0 (20 + call.payload.length) = send.packet nic ∧
      s'.packetId = s.packetId + 1 ∧ s'.sent = s.sent ++ [send.frame nic] ∧
      s'.made = s.made ++ [send] := by
  rw [sendIpv4Packet] at h
  obtain ⟨queued, requests, heq⟩ | ⟨send, requests, hcall, hid, heq⟩ := fillHeader_cases nic s call
  · rw [heq] at h
    obtain ⟨rfl, rfl⟩ := Prod.mk.inj (Except.ok.inj h)
    exact Or.inl ⟨rfl, rfl, rfl, rfl, rfl⟩
  · rw [heq] at h
    obtain ⟨s₁, hcopy, h⟩ := bind_eq_ok.mp h
    obtain ⟨s₂, hhand, h⟩ := bind_eq_ok.mp h
    obtain ⟨rfl, rfl⟩ := Prod.mk.inj (Except.ok.inj h)
    obtain ⟨hfits, hs₁⟩ := copyPayload_eq_ok hcopy
    obtain ⟨hroom, hs₂⟩ := handOver_eq_ok hfits hhand
    have hbuffer : bytesAt s₁.packetBuffer 0 (20 + send.call.payload.length) = send.packet nic := by
      have hheader := bytesAt_memcpy s.packetBuffer 0 (ipv4Header nic send.call send.id)
      rw [length_ipv4Header] at hheader
      rw [hs₁]
      exact bytesAt_packetBuffer hheader
    refine Or.inr ⟨send, rfl, hcall, hid, hcall ▸ hroom, ?_, ?_, ?_, ?_⟩
    · rw [hs₂, ← hcall]
      exact hbuffer
    · rw [hs₂, hs₁]
    · rw [hs₂, hbuffer, hs₁, Ipv4Send.frame, length_packet]
    · rw [hs₂, hs₁]

/-- The packet of a call that runs alone is the one of `netSendIpv4Packet`. -/
theorem netSendIpv4Packet_of_sendIpv4Packet (h : sendIpv4Packet nic s call = .ok (s', some send)) :
    netSendIpv4Packet call.dstIp call.protocol call.payload call.payloadLen = .ok (some
      { dstIp := call.dstIp
        protocol := call.protocol
        totalLength := 20 + call.payloadLen
        payload := call.payload }) := by
  obtain ⟨hnone, -⟩ | ⟨-, -, -, -, hroom, -⟩ := sendIpv4Packet_eq_ok h
  · cases hnone
  · rw [netSendIpv4Packet_of_le (by rw [toNat_payloadLen]; exact hroom), toNat_payloadLen,
      List.take_length]

end HalOS
