import HalOS.Lib.Access
import HalOS.Net.TcpWire

/-!
# Received Frames

`net_process_packet`, from the Ethernet header to the handlers of ARP, ICMP and TCP. The frame is
memory that is read byte by byte, and `Access` keeps what is touched; `len` is the length the
driver passes. What the handlers do to the stack is `HalOS.Net.Tcp`; the functions here read the
same fields where the source reads them.

What is sent is a log: `arpSent` holds the payloads handed to `eth_send_frame` with their
destinations, `icmpSent` those handed to `net_send_ipv4_packet`. The messages to the serial line
and the console are left out.
-/

namespace HalOS

open Access (read readMany touch bindOk)

/-! ### Data -/

/-- `struct arp_cache_entry`. -/
structure ArpCacheEntry where
  ip : UInt32
  mac : List UInt8
  timestamp : UInt32
deriving DecidableEq, Repr

/-- The static variables of the network code above the TCP stack. -/
structure NetStack where
  tcp : TcpStack
  nicMac : List UInt8
  arpCache : List ArpCacheEntry
  prevId : UInt32
  arpSent : List (List UInt8 × List UInt8)
  icmpSent : List (UInt32 × List UInt8)
deriving DecidableEq, Repr

abbrev ethertypeArp : UInt16 := 0x0806
abbrev ethertypeIp : UInt16 := 0x0800
abbrev arpRequest : UInt16 := 1
abbrev arpReply : UInt16 := 2
abbrev icmpEchoReply : UInt8 := 0
abbrev icmpEchoRequest : UInt8 := 8

/-! ### Reading -/

def readBe16 (i : ℕ) : Access UInt8 UInt16 := do
  let high ← read i
  let low ← read (i + 1)
  pure (high.toUInt16 <<< 8 ||| low.toUInt16)

def readBe32 (i : ℕ) : Access UInt8 UInt32 := do
  let high ← readBe16 i
  let low ← readBe16 (i + 2)
  pure (high.toUInt32 <<< 16 ||| low.toUInt32)

/-! ### ARP -/

/-- `arp_cache_update`: the first slot that has the address or is free. -/
def arpCacheUpdate (s : NetStack) (ip : UInt32) (mac : List UInt8) : NetStack :=
  { s with
    arpCache :=
      s.arpCache.modify (s.arpCache.findIdx fun e => e.ip == ip || e.ip == 0) fun _ =>
        { ip := ip, mac := mac, timestamp := s.tcp.ticks } }

/-- `ntohl`. -/
def ntohl (x : UInt32) : UInt32 :=
  (x >>> 24 &&& (0xFF : UInt32)) ||| (x >>> 8 &&& (0xFF00 : UInt32)) |||
    (x <<< 8 &&& (0xFF0000 : UInt32)) ||| x <<< 24

/-- The payload of the reply: the request with its two parties exchanged. -/
def arpReplyTo (s : NetStack) (arp : List UInt8) : List UInt8 :=
  arp.take 6 ++ [0, 2] ++ s.nicMac ++ (arp.drop 24).take 4 ++ (arp.drop 8).take 6 ++
    (arp.drop 14).take 4

/-- The branch `ETHERTYPE_ARP` of `net_process_packet`. The target address is swapped once more
after its bytes have been put together. -/
def processArp (s : NetStack) : Access UInt8 NetStack := do
  let opcode ← readBe16 20
  if opcode = arpReply then
    let senderIp ← readBe32 28
    let senderMac ← readMany 22 6
    pure (arpCacheUpdate s senderIp senderMac)
  else if opcode = arpRequest then
    let targetIp ← readBe32 38
    if ntohl targetIp = s.tcp.nicIp then
      let senderIp ← readBe32 28
      let arp ← readMany 14 28
      let s := arpCacheUpdate s senderIp ((arp.drop 8).take 6)
      pure { s with arpSent := s.arpSent ++ [((arp.drop 8).take 6, arpReplyTo s arp)] }
    else pure s
  else pure s

/-! ### ICMP -/

/-- The loop of `ip_checksum`: words in the byte order of the machine. -/
def sumWords : List UInt8 → UInt32 → UInt32
  | low :: high :: rest, sum => sumWords rest (sum + (high.toUInt32 <<< 8 ||| low.toUInt32))
  | [last], sum => sum + last.toUInt32
  | [], sum => sum

def ipChecksum (data : List UInt8) : UInt16 :=
  let sum := sumWords data 0
  let sum := (sum >>> 16) + (sum &&& 0xFFFF)
  let sum := sum + (sum >>> 16)
  (~~~sum).toUInt16

/-- The packet with a checksum field, bytes 2 and 3. -/
def withChecksum (packet : List UInt8) (checksum : UInt16) : List UInt8 :=
  (packet.set 2 checksum.toUInt8).set 3 (checksum >>> 8).toUInt8

/-- The reply to an echo request. -/
def echoReply (payload : List UInt8) : List UInt8 :=
  let reply := withChecksum ((payload.set 0 icmpEchoReply).set 1 0) 0
  withChecksum reply (ipChecksum reply)

/-- `icmp_handle_packet`, on the packet at `base`. The checksum is read, cleared, recomputed and
put back. -/
def icmpHandlePacket (s : NetStack) (base : ℕ) (len : UInt16) : Access UInt8 NetStack := do
  let id ← readBe16 (base + 4)
  if id.toUInt32 ≤ s.prevId then pure s
  else
    let type ← read base
    let srcIp ← readBe32 26
    let low ← read (base + 2)
    let high ← read (base + 3)
    let packet ← readMany base len.toNat
    if high.toUInt16 <<< 8 ||| low.toUInt16 ≠ ipChecksum (withChecksum packet 0) then pure s
    else if type = icmpEchoRequest then
      let payload ← readMany base (min len.toNat 1498)
      pure { s with icmpSent := s.icmpSent ++ [(srcIp, echoReply payload)] }
    else if type = icmpEchoReply then
      touch base 8
      pure { s with prevId := id.toUInt32 }
    else pure s

/-! ### TCP -/

/-- The loop of `process_tcp_options`, on the segment at `base`. -/
def processTcpOptionsAt (base : ℕ) : ℕ → ℕ → ℕ → UInt16 → Access UInt8 UInt16
  | 0, _, _, mss => pure mss
  | fuel + 1, ptr, remaining, mss =>
      if remaining = 0 then pure mss
      else do
        let kind ← read (base + ptr)
        let remaining := remaining - 1
        if kind = 0 then pure mss
        else if kind = 1 then processTcpOptionsAt base fuel (ptr + 1) remaining mss
        else if remaining = 0 then pure mss
        else
          let length ← read (base + (ptr + 1))
          let remaining := remaining - 1
          if length.toNat < 2 then pure mss
          else if kind = 2 ∧ length.toNat = 4 ∧ 2 ≤ remaining then
            let high ← read (base + (ptr + 2))
            let low ← read (base + (ptr + 3))
            let value := high.toUInt16 <<< 8 ||| low.toUInt16
            processTcpOptionsAt base fuel (ptr + 4) (remaining - 2)
              (if value < defaultMss then value else defaultMss)
          else if remaining < length.toNat - 2 then pure mss
          else
            processTcpOptionsAt base fuel (ptr + length.toNat) (remaining - (length.toNat - 2)) mss

/-- The control block of a passive open, with the MSS that the options give. -/
def openedBlock (addr : ℕ) (srcIp dstIp : UInt32) (tcp : TcpHeader) (seq : UInt32)
    (mss : UInt16) : TcpConnection where
  addr := addr
  localIp := dstIp
  remoteIp := srcIp
  localPort := tcp.destPort
  remotePort := tcp.srcPort
  mss := mss
  nextSeq := seq
  expectedAck := tcp.seq + 1
  dupAckCount := 0
  state := .synReceived
  retransmitQueue := []
  queueWild := false
  recvBuffer := []
  lastAck := 0

/-- `passiveOpen` on the segment at `base`. -/
def passiveOpenAt (s : TcpStack) (srcIp dstIp : UInt32) (base : ℕ) (tcp : TcpHeader) :
    Access UInt8 TcpStack :=
  if s.malloc.1 = false then pure s.malloc.2
  else do
    let seq ← readBe32 (base + 4)
    let mss ← processTcpOptionsAt base (tcp.headerLen.toNat - 20) 20 (tcp.headerLen.toNat - 20)
      defaultMss
    let x := generateSecureInitialSeq s.malloc.2
    let c := openedBlock x.2.nextAddr srcIp dstIp { tcp with seq := seq } x.1 mss
    let s := addConnection { x.2 with nextAddr := x.2.nextAddr + 1 } c
    let y := tcpSendSegment s c (tcpSyn ||| tcpAck) [] 0
    pure (startRetransmissionTimer (y.1.setConn y.2) y.2.addr retransmitTimeout)

/-- `tcp_send_reset` for the segment at `base`. -/
def tcpSendResetAt (s : TcpStack) (srcIp dstIp : UInt32) (base : ℕ) (tcp : TcpHeader) :
    Access UInt8 TcpStack := do
  let ack ← readBe32 (base + 8)
  pure (tcpSendReset s srcIp dstIp { tcp with ack := ack })

/-- The payload as `handle_established_state` reads it: four bytes tell whether it is a request,
and the rest is copied if it is not. -/
def readPayload (start : ℕ) (dataLen : UInt16) : Access UInt8 (List UInt8) :=
  if dataLen < 4 then readMany start dataLen.toNat
  else do
    let first ← readMany start 4
    if isHttpGetRequest first then pure first else readMany start dataLen.toNat

/-- `handle_established_state` on the segment at `base`. -/
def handleEstablishedStateAt (s : TcpStack) (conn : ℕ) (base : ℕ) (tcp : TcpHeader)
    (len : UInt16) : Access UInt8 (Except Fault TcpStack) := do
  let seq ← readBe32 (base + 4)
  let ack ← readBe32 (base + 8)
  let tcp := { tcp with seq := seq, ack := ack }
  let dataLen := len - tcp.headerLen
  bindOk (do
    let x ← prepareSegment s conn tcp
    let c ← processAck x.2 tcp.seq tcp.ack dataLen
    .ok (if tcp.seq ≠ c.expectedAck then tcpSendSegment x.1 c tcpAck [] 0 else (x.1, c)))
    fun x => do
      let payload ← readPayload (base + tcp.headerLen.toNat) dataLen
      pure (do
        let y ← receiveData x.1 x.2 tcp.seq payload dataLen
        let z := handleFin y.1 y.2 tcp.flags
        .ok (z.1.setConn z.2))

/-- The `switch` of `tcp_handle_packet` on the segment at `base`. -/
def handleInStateAt (s : TcpStack) (c : TcpConnection) (base : ℕ) (tcp : TcpHeader)
    (len : UInt16) : Access UInt8 (Except Fault TcpStack) :=
  if c.state = .synSent then
    if tcp.flags &&& (tcpSyn ||| tcpAck) = tcpSyn ||| tcpAck then do
      let ack ← readBe32 (base + 8)
      if ack = c.nextSeq then
        let seq ← readBe32 (base + 4)
        pure (.ok (handleSynSent s c { tcp with seq := seq, ack := ack }))
      else pure (.ok s)
    else pure (.ok s)
  else if c.state = .synReceived then
    if hasFlag tcp.flags tcpAck then do
      let ack ← readBe32 (base + 8)
      pure (.ok (handleSynReceived s c { tcp with ack := ack }))
    else pure (.ok s)
  else if c.state = .established then handleEstablishedStateAt s c.addr base tcp len
  else if c.state = .waitForAck then do
    let ack ← readBe32 (base + 8)
    pure (handleWaitForAckState s c.addr { tcp with ack := ack })
  else if c.state = .lastAck then
    bindOk (s.deref c.addr) fun d =>
      if hasFlag tcp.flags tcpAck then do
        let ack ← readBe32 (base + 8)
        pure (if ack = d.nextSeq then removeConnection s c.addr else .ok s)
      else pure (.ok s)
  else pure (.ok s)

/-- `tcp_handle_packet` on the segment at `base`. -/
def tcpHandlePacketAt (s : TcpStack) (srcIp dstIp : UInt32) (base : ℕ) (len : UInt16) :
    Access UInt8 (Except Fault TcpStack) := do
  let flags ← read (base + 13)
  let dataOffset ← read (base + 12)
  if dataOffset >>> 4 < 5 then
    let srcPort ← readBe16 base
    let destPort ← readBe16 (base + 2)
    let s ← tcpSendResetAt s srcIp dstIp base
      { srcPort := srcPort, destPort := destPort, seq := 0, ack := 0, dataOffset := dataOffset,
        flags := flags }
    pure (.ok s)
  else
    -- the checksum is read, cleared, recomputed and put back
    touch (base + 16) 2
    touch base len.toNat
    let srcPort ← readBe16 base
    let destPort ← readBe16 (base + 2)
    let tcp : TcpHeader :=
      { srcPort := srcPort, destPort := destPort, seq := 0, ack := 0, dataOffset := dataOffset,
        flags := flags }
    (findConnection s srcIp srcPort dstIp destPort).elim
      (if hasFlag flags tcpRst then pure (.ok s)
      else if hasFlag flags tcpSyn ∧ isListeningPort s destPort = true then do
        let s ← passiveOpenAt s srcIp dstIp base tcp
        pure (.ok s)
      else do
        let s ← tcpSendResetAt s srcIp dstIp base tcp
        pure (.ok s))
      fun c =>
        if hasFlag flags tcpRst then pure (removeConnection s c.addr)
        else handleInStateAt s c base tcp len

/-! ### Frames -/

/-- The branch `ETHERTYPE_IP` of `net_process_packet`. -/
def processIpv4 (s : NetStack) (len : UInt16) : Access UInt8 (Except Fault NetStack) :=
  if len < 34 then pure (.ok s)
  else do
    let versionIhl ← read 14
    let totalLength ← readBe16 16
    let headerLen := (versionIhl &&& 0xF).toUInt16 * 4
    if versionIhl >>> 4 ≠ 4 ∨ versionIhl &&& 0xF < 5 ∨ totalLength < headerLen then pure (.ok s)
    else if len.toNat < 14 + totalLength.toNat then pure (.ok s)
    else
      let fragOffset ← readBe16 20
      if fragOffset &&& 0x1FFF ≠ 0 ∨ fragOffset &&& 0x2000 ≠ 0 then pure (.ok s)
      else
        let dstIp ← readBe32 30
        if dstIp ≠ s.tcp.nicIp ∧ dstIp ≠ 0xFFFFFFFF then pure (.ok s)
        else
          let protocol ← read 23
          if protocol = ipProtoTcp then
            let srcIp ← readBe32 26
            let t ← tcpHandlePacketAt s.tcp srcIp dstIp (14 + headerLen.toNat)
              (totalLength - headerLen)
            pure (t.map fun t => { s with tcp := t })
          else if protocol = ipProtoIcmp then
            if totalLength - headerLen < 8 then pure (.ok s)
            else
              let s ← icmpHandlePacket s (14 + headerLen.toNat) (totalLength - headerLen)
              pure (.ok s)
          else pure (.ok s)

/-- `net_process_packet`. -/
def netProcessPacket (s : NetStack) (len : UInt16) : Access UInt8 (Except Fault NetStack) :=
  if len < 14 then pure (.ok s)
  else do
    let ethertype ← readBe16 12
    if ethertype = ethertypeArp then
      let s ← processArp s
      pure (.ok s)
    else if ethertype = ethertypeIp then processIpv4 s len
    else pure (.ok s)

/-! ### What the handlers do -/

variable {s : TcpStack} {c : TcpConnection} {m : ℕ → UInt8} {base : ℕ} {tcp : TcpHeader}

@[simp] theorem value_readBe16 {α : Type} (i : ℕ) (f : UInt16 → Access UInt8 α) (m : ℕ → UInt8) :
    (readBe16 i >>= f).value m = (f (be16 m i)).value m := by
  rfl

@[simp] theorem value_readBe32 {α : Type} (i : ℕ) (f : UInt32 → Access UInt8 α) (m : ℕ → UInt8) :
    (readBe32 i >>= f).value m = (f (be32 m i)).value m := by
  have h : (readBe32 i).value m = be32 m i := by
    rw [readBe32, value_readBe16, value_readBe16, Access.value_pure, be32]
  rw [Access.value_bind, h]

theorem value_processTcpOptionsAt (base : ℕ) (m : ℕ → UInt8) (fuel ptr remaining : ℕ)
    (mss : UInt16) :
    (processTcpOptionsAt base fuel ptr remaining mss).value m =
      processTcpOptions (fun i => m (base + i)) fuel ptr remaining mss := by
  induction fuel generalizing ptr remaining mss with
  | zero => rfl
  | succ fuel ih =>
      simp only [processTcpOptionsAt, processTcpOptions, Access.value_ite, Access.value_read,
        Access.value_pure, ih]

theorem value_tcpSendResetAt (s : TcpStack) (srcIp dstIp : UInt32) (base : ℕ)
    (tcp : TcpHeader) (m : ℕ → UInt8) :
    (tcpSendResetAt s srcIp dstIp base tcp).value m = tcpSendReset s srcIp dstIp
      { tcp with ack := be32 m (base + 8) } := by
  rw [tcpSendResetAt, value_readBe32, Access.value_pure]

/-- **Opening.** -/
theorem value_passiveOpenAt (s : TcpStack) (srcIp dstIp : UInt32) (base : ℕ) (tcp : TcpHeader)
    (m : ℕ → UInt8) :
    (passiveOpenAt s srcIp dstIp base tcp).value m =
      passiveOpen s srcIp dstIp { tcp with seq := be32 m (base + 4) } fun i => m (base + i) := by
  obtain ⟨hno, heq⟩ | ⟨hok, c, t, x, rfl, rfl, rfl, heq⟩ := passiveOpen_cases s srcIp dstIp
    { tcp with seq := be32 m (base + 4) } fun i => m (base + i)
  · rw [heq, passiveOpenAt, if_pos hno, Access.value_pure]
  · rw [heq, passiveOpenAt, if_neg (by rw [hok]; decide), value_readBe32, Access.value_bind,
      value_processTcpOptionsAt, Access.value_pure]
    rfl

/-- Four bytes are enough to tell what is done about the payload. -/
theorem receiveData_readPayload (s : TcpStack) (c : TcpConnection) (seq : UInt32) (start : ℕ)
    (dataLen : UInt16) (m : ℕ → UInt8) :
    receiveData s c seq ((readPayload start dataLen).value m) dataLen =
      receiveData s c seq (bytesAt m start dataLen.toNat) dataLen := by
  rw [readPayload]
  by_cases hshort : dataLen < 4
  · rw [if_pos hshort]
    rfl
  · have hlen : 4 ≤ dataLen.toNat := Nat.not_lt.mp hshort
    have hsame : isHttpGetRequest (bytesAt m start dataLen.toNat) =
        isHttpGetRequest (bytesAt m start 4) := by
      rw [isHttpGetRequest, isHttpGetRequest, take_bytesAt m start hlen,
        take_bytesAt m start (Nat.le_refl 4)]
    rw [if_neg hshort, Access.value_readMany, Access.value_ite]
    change receiveData s c seq (if isHttpGetRequest (bytesAt m start 4) = true then
      bytesAt m start 4 else bytesAt m start dataLen.toNat) dataLen = _
    cases hget : isHttpGetRequest (bytesAt m start 4) with
    | false => rfl
    | true =>
        rw [hget] at hsame
        simp only [if_true, receiveData, hget, hsame]

/-- **Established.** -/
theorem value_handleEstablishedStateAt (s : TcpStack) (conn base : ℕ) (tcp : TcpHeader)
    (len : UInt16) (m : ℕ → UInt8) :
    (handleEstablishedStateAt s conn base tcp len).value m =
      handleEstablishedState s conn
        { tcp with seq := be32 m (base + 4), ack := be32 m (base + 8) }
        (fun i => m (base + i)) len := by
  rw [handleEstablishedStateAt, value_readBe32, value_readBe32]
  generalize htcp :
    ({ tcp with seq := be32 m (base + 4), ack := be32 m (base + 8) } : TcpHeader) = t
  rw [handleEstablishedState_eq]
  simp only [Access.value_bindOk, bind_assoc]
  refine bind_congr fun x => bind_congr fun c => ?_
  rw [finishSegment, bytesAt_offset]
  generalize (if t.seq ≠ c.expectedAck then tcpSendSegment x.1 c tcpAck [] 0 else (x.1, c)) = y
  rw [bind_assoc, ← receiveData_readPayload]
  rfl

theorem value_handleInStateAt (s : TcpStack) (c : TcpConnection) (base : ℕ) (tcp : TcpHeader)
    (len : UInt16) (m : ℕ → UInt8) :
    (handleInStateAt s c base tcp len).value m =
      handleInState s c { tcp with seq := be32 m (base + 4), ack := be32 m (base + 8) }
        (fun i => m (base + i)) len := by
  rw [handleInStateAt, handleInState]
  cases hstate : c.state with
  | synSent =>
      rw [if_pos rfl]
      simp only [Access.value_ite, value_readBe32, Access.value_pure, handleSynSent]
      by_cases hflags : tcp.flags &&& (tcpSyn ||| tcpAck) = tcpSyn ||| tcpAck
      · by_cases hack : be32 m (base + 8) = c.nextSeq
        · rw [if_pos hflags, if_pos hack]
        · rw [if_pos hflags, if_neg hack, if_neg fun h => hack h.2]
      · rw [if_neg hflags, if_neg fun h => hflags h.1]
  | synReceived =>
      rw [if_neg (by decide), if_pos rfl]
      simp only [Access.value_ite, value_readBe32, Access.value_pure, handleSynReceived]
      by_cases hflags : hasFlag tcp.flags tcpAck = true
      · rw [if_pos hflags]
      · rw [if_neg hflags, if_neg fun h => hflags h.1]
  | established =>
      rw [if_neg (by decide), if_neg (by decide), if_pos rfl, value_handleEstablishedStateAt]
  | waitForAck =>
      rw [if_neg (by decide), if_neg (by decide), if_neg (by decide), if_pos rfl, value_readBe32]
      rfl
  | lastAck =>
      rw [if_neg (by decide), if_neg (by decide), if_neg (by decide), if_neg (by decide),
        if_pos rfl]
      simp only [Access.value_bindOk, Access.value_ite, value_readBe32, Access.value_pure,
        handleLastAckState]
      refine bind_congr fun d => ?_
      by_cases hflags : hasFlag tcp.flags tcpAck = true
      · by_cases hack : be32 m (base + 8) = d.nextSeq
        · rw [if_pos hflags, if_pos hack, if_pos ⟨hflags, hack⟩]
        · rw [if_pos hflags, if_neg hack, if_neg fun h => hack h.2]
      · rw [if_neg hflags, if_neg fun h => hflags h.1]
  | _ => rfl

/-- **The two models agree.** Reading the segment where the source reads it, `tcp_handle_packet`
does what it does on the header as a whole. -/
theorem value_tcpHandlePacketAt (s : TcpStack) (srcIp dstIp : UInt32) (base : ℕ) (len : UInt16)
    (m : ℕ → UInt8) :
    (tcpHandlePacketAt s srcIp dstIp base len).value m =
      tcpHandlePacket s srcIp dstIp (fun i => m (base + i)) len := by
  have hseq : be32 (fun i => m (base + i)) 4 = be32 m (base + 4) := rfl
  have hack : be32 (fun i => m (base + i)) 8 = be32 m (base + 8) := rfl
  have hsrc : be16 (fun i => m (base + i)) 0 = be16 m base := rfl
  have hdest : be16 (fun i => m (base + i)) 2 = be16 m (base + 2) := rfl
  rw [tcpHandlePacket, TcpHeader.parse, hseq, hack, hsrc, hdest, handleSegment, tcpHandlePacketAt]
  simp only [Access.value_read, Access.value_ite, value_readBe16, Access.value_touch]
  by_cases hoff : m (base + 12) >>> 4 < 5
  · rw [if_pos hoff, if_pos hoff, Access.value_bind, value_tcpSendResetAt, Access.value_pure]
    rfl
  · rw [if_neg hoff, if_neg hoff]
    cases hfind : findConnection s srcIp (be16 m base) dstIp (be16 m (base + 2)) with
    | none =>
        simp only [Option.elim_none, Access.value_ite, Access.value_bind, value_passiveOpenAt,
          value_tcpSendResetAt, Access.value_pure]
        split_ifs <;> rfl
    | some c =>
        simp only [Option.elim_some, Access.value_ite, Access.value_pure, value_handleInStateAt]

end HalOS
