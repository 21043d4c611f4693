import HalOS.Net.TcpFrame
import HalOS.Net.TcpWire

/-!
# The Handshake between Two Hosts

One host opens a connection actively to a port that the other one listens on. The network keeps
every segment that was ever sent and may deliver it any number of times, in any order, or never;
so a log of sent segments is all that it is.

An end in `TCP_ESTABLISHED` takes the number of any segment for the next one it expects, a late
SYN or SYN-ACK included, and that is how the two ends come to disagree. As long as no such segment
reaches an end in `TCP_ESTABLISHED`, they agree.

## Main results

* `agrees_of_noLateSyn`: the condition under which the ends agree, for whole runs.
-/

namespace HalOS

open Outcome (Steps bind_eq_ok map_eq_ok exists_eq_ok_of_any)

/-! ### Two hosts and a network -/

/-- The host that calls `tcp_connect` and the one that listens. -/
structure Link where
  client : TcpStack
  server : TcpStack
deriving DecidableEq, Repr

/-- What can happen at a host: a segment of the other one arrives, the timers are checked, time
passes. -/
inductive LinkInput
  | arrival (i : ℕ)
  | checkTimers
  | tick (ticks : UInt32)

/-- A host after an input; `peer` is the host at the other end of the network. -/
def LinkInput.next (peer s : TcpStack) : LinkInput → Except Fault TcpStack
  | arrival i => (peer.sent[i]?).elim (.ok s) fun seg => seg.arrives.next s
  | checkTimers => TcpEvent.checkTimers.next s
  | tick ticks => (TcpEvent.tick ticks).next s

/-- An input at one of the two hosts. -/
inductive LinkEvent
  | client (input : LinkInput)
  | server (input : LinkInput)

def LinkEvent.next (l : Link) : LinkEvent → Except Fault Link
  | client input => (input.next l.server l.client).map fun s => { l with client := s }
  | server input => (input.next l.client l.server).map fun s => { l with server := s }

/-- No connection, no timer, and nothing sent so far. -/
structure Idle (s : TcpStack) : Prop where
  connections : s.connectionList = []
  timers : s.activeTimers = []
  silent : s.sent = []

/-- One host listens on `port`, the other one has called `tcp_connect`. -/
def Link.opened (client server : TcpStack) (stale : StaleBlock) (remoteIp : UInt32)
    (port : UInt16) : Link where
  client := tcpConnect client stale remoteIp port
  server := tcpListen server port

/-- The key of the other end. -/
def TcpConnection.peerKey (c : TcpConnection) : UInt32 × UInt16 × UInt32 × UInt16 :=
  (c.localIp, c.localPort, c.remoteIp, c.remotePort)

/-- If both ends are in `TCP_ESTABLISHED`, each expects what the other one sends next; `conn` is
what `tcp_connect` returned. -/
def Link.Agrees (conn : ℕ) (l : Link) : Prop :=
  ∀ c ∈ l.client.connectionList, ∀ d ∈ l.server.connectionList, c.addr = conn →
    d.key = c.peerKey → c.state = .established → d.state = .established →
      c.expectedAck = d.nextSeq ∧ d.expectedAck = c.nextSeq

instance (conn : ℕ) (l : Link) : Decidable (l.Agrees conn) :=
  inferInstanceAs (Decidable (∀ c ∈ l.client.connectionList, ∀ d ∈ l.server.connectionList,
    c.addr = conn → d.key = c.peerKey → c.state = .established → d.state = .established →
      c.expectedAck = d.nextSeq ∧ d.expectedAck = c.nextSeq))

/-- The segment does not carry a SYN to a connection in `TCP_ESTABLISHED`. -/
def TcpSegment.NotLate (s : TcpStack) (seg : TcpSegment) : Prop :=
  ∀ c, findConnection s seg.srcIp seg.srcPort seg.dstIp seg.destPort = some c →
    c.state = .established → hasFlag seg.flags tcpSyn = false

def LinkInput.NotLate (peer s : TcpStack) : LinkInput → Prop
  | arrival i => ∀ seg, peer.sent[i]? = some seg → seg.NotLate s
  | _ => True

/-- No SYN comes to an end in `TCP_ESTABLISHED`. -/
def NoLateSyn (l : Link) : LinkEvent → Prop
  | .client input => input.NotLate l.server l.client
  | .server input => input.NotLate l.client l.server

instance (s : TcpStack) (seg : TcpSegment) : Decidable (seg.NotLate s) :=
  inferInstanceAs (Decidable (∀ c ∈ findConnection s seg.srcIp seg.srcPort seg.dstIp seg.destPort,
    c.state = .established → hasFlag seg.flags tcpSyn = false))

instance (peer s : TcpStack) : (input : LinkInput) → Decidable (input.NotLate peer s)
  | .arrival i => inferInstanceAs (Decidable (∀ seg ∈ peer.sent[i]?, seg.NotLate s))
  | .checkTimers => isTrue trivial
  | .tick _ => isTrue trivial

instance (l : Link) : (e : LinkEvent) → Decidable (NoLateSyn l e)
  | .client input => inferInstanceAs (Decidable (input.NotLate l.server l.client))
  | .server input => inferInstanceAs (Decidable (input.NotLate l.client l.server))

variable {s s' : TcpStack} {c d : TcpConnection} {key : UInt32 × UInt16 × UInt32 × UInt16}
  {seg : TcpSegment}

/-! ### Segments without payload -/

/-- What the other host reads of a segment without payload. -/
structure ReadEmpty (c : TcpConnection) (flags : UInt8) (tcp : TcpHeader) (len : UInt16) :
    Prop where
  srcPort : tcp.srcPort = c.localPort
  destPort : tcp.destPort = c.remotePort
  seq : tcp.seq = c.nextSeq
  ack : tcp.ack = c.expectedAck
  flags : tcp.flags = flags
  offset : ¬ tcp.dataOffset >>> 4 < 5
  empty : len - tcp.headerLen = 0

/-- A segment without payload arrives. -/
theorem exists_arrives_empty (s : TcpStack) (c : TcpConnection) (flags : UInt8) :
    ∃ tcp bytes len, (buildSegment c flags []).arrives.next s =
        handleSegment s c.localIp c.remoteIp tcp bytes len ∧
      ReadEmpty c flags tcp len := by
  refine ⟨(buildSegment c flags []).header, (buildSegment c flags []).bytes,
    (buildSegment c flags []).len, ?_, rfl, rfl, rfl, rfl, rfl, ?_, ?_⟩
  · rw [TcpSegment.arrives, TcpEvent.next, tcpHandlePacket, parse_bytes]
    rfl
  · have hoff : (buildSegment c flags []).header.dataOffset =
        if hasFlag flags tcpSyn then 0x60 else 0x50 := rfl
    rw [hoff]
    cases hasFlag flags tcpSyn with
    | true => decide
    | false => decide
  · have hoff : (buildSegment c flags []).header.dataOffset =
        if hasFlag flags tcpSyn then 0x60 else 0x50 := rfl
    have hoptions : (buildSegment c flags []).options =
        if hasFlag flags tcpSyn then [2, 4, 0x05, 0xB4] else [] := rfl
    have hlen : (buildSegment c flags []).len =
        UInt16.ofNat (20 + (buildSegment c flags []).options.length) := by
      rw [TcpSegment.len, length_wire]
      rfl
    rw [TcpHeader.headerLen, hlen, hoff, hoptions]
    cases hasFlag flags tcpSyn with
    | true => decide
    | false => decide

/-- Its connection is the one with the key of the other end. -/
theorem ReadEmpty.findConnection {flags : UInt8} {tcp : TcpHeader} {len : UInt16}
    (h : ReadEmpty c flags tcp len) (s : TcpStack) :
    HalOS.findConnection s c.localIp tcp.srcPort c.remoteIp tcp.destPort =
      s.connectionList.find? fun d => d.key == c.peerKey := by
  rw [findConnection_eq, h.srcPort, h.destPort]
  rfl

/-- The queue holds only segments without payload. -/
def Plain (c : TcpConnection) : Prop := ∀ e ∈ c.retransmitQueue, e.length = 0

theorem Plain.afterSend (h : Plain c) (flags : UInt8) (data : List UInt8) (queued : Bool) :
    Plain (c.afterSend flags data 0 queued) := by
  rw [Plain, TcpConnection.afterSend]
  cases queued with
  | false => exact h
  | true => exact List.forall_mem_cons.mpr ⟨rfl, h⟩

/-! ### A host with one connection -/

/-- The connection is the only one, and no timer is running. -/
structure Only (s : TcpStack) (c : TcpConnection) : Prop where
  list : s.connectionList = [c]
  timers : s.activeTimers = []

theorem Only.deref (h : Only s c) : s.deref c.addr = .ok c := by
  rw [TcpStack.deref, h.list, List.find?_cons, beq_self_eq_true]
  rfl

theorem Only.setConn (h : Only s c) (hd : d.addr = c.addr) : Only (s.setConn d) d where
  list := by rw [TcpStack.setConn, h.list, List.map_singleton, if_pos hd.symm]
  timers := h.timers

theorem Only.send (h : Only s c) (d : TcpConnection) (flags : UInt8) (data : List UInt8)
    (dataLen : UInt16) : Only (tcpSendSegment s d flags data dataLen).1 c where
  list := by rw [connectionList_tcpSendSegment, h.list]
  timers := by rw [activeTimers_tcpSendSegment, h.timers]

theorem sequenceLen_ack_zero : sequenceLen tcpAck 0 = 0 := rfl

/-- What the handler of `TCP_ESTABLISHED` does first: at most it repeats a segment without
payload. -/
theorem Only.prepareSegment (h : Only s c) (hstate : c.state = .established) (hplain : Plain c)
    {tcp : TcpHeader} {x : TcpStack × TcpConnection}
    (hx : HalOS.prepareSegment s c.addr tcp = .ok x) :
    Only x.1 c ∧ (∃ count, x.2 = { c with dupAckCount := count }) ∧ x.1.nextAddr = s.nextAddr ∧
      (x.1.sent = s.sent ∨ x.1.sent = s.sent ++ [buildSegment c tcpAck []]) := by
  obtain ⟨s₁, hs₁, hx⟩ := bind_eq_ok.mp hx
  obtain rfl := Except.ok.inj ((checkTcpTimers_nil h.timers).symm.trans hs₁)
  obtain ⟨c₁, hc₁, hx⟩ := bind_eq_ok.mp hx
  obtain rfl := Except.ok.inj (h.deref.symm.trans hc₁)
  rw [reestablish_of_established hstate] at hx
  obtain ⟨x₁, x₂⟩ := x
  obtain ⟨-, rfl, rfl⟩ | ⟨-, -, rfl, rfl⟩ | ⟨-, -, e, es, hq, hsend⟩ := fastRetransmit_eq_ok hx
  · exact ⟨h, ⟨_, rfl⟩, rfl, Or.inl rfl⟩
  · exact ⟨h, ⟨_, rfl⟩, rfl, Or.inl rfl⟩
  · have hlen : e.length = 0 := hplain e (by rw [hq]; exact List.mem_cons_self)
    have hsend₁ := (congrArg Prod.fst hsend).symm
    have hsend₂ := (congrArg Prod.snd hsend).symm
    subst hsend₁ hsend₂
    refine ⟨h.send _ _ _ _, ⟨c.dupAckCount + 1, ?_⟩, (frame_tcpSendSegment _ _ _ _ _).nextAddr,
      Or.inr ?_⟩
    · rw [tcpSendSegment_eq, hlen, TcpConnection.afterSend, sequenceLen_ack_zero, UInt32.add_zero]
      rfl
    · rw [sent_tcpSendSegment, hlen]
      rfl

theorem expectedAck_afterAck_zero (c : TcpConnection) (seq ack : UInt32) :
    (c.afterAck seq ack 0).expectedAck = seq :=
  UInt32.add_zero seq

/-- The handler of `TCP_ESTABLISHED` on a segment without payload: it acknowledges, and what is left
is the FIN. -/
theorem Only.afterAck (h : Only s c) (hstate : c.state = .established) (hplain : Plain c)
    {tcp : TcpHeader} {bytes : ℕ → UInt8} {len : UInt16} (hempty : len - tcp.headerLen = 0)
    (hs : handleEstablishedState s c.addr tcp bytes len = .ok s') :
    ∃ t count c', Only t c ∧ t.nextAddr = s.nextAddr ∧
      (t.sent = s.sent ∨ t.sent = s.sent ++ [buildSegment c tcpAck []]) ∧
      c' = { c with dupAckCount := count }.afterAck tcp.seq tcp.ack 0 ∧
      s' = (handleFin t c' tcp.flags).1.setConn (handleFin t c' tcp.flags).2 := by
  obtain ⟨x, c₃, z, hx, hc₃, hz, rfl⟩ := exists_of_handleEstablishedState hs
  obtain ⟨honly, ⟨count, hcount⟩, hnext, hsent⟩ := h.prepareSegment hstate hplain hx
  rw [hempty] at hc₃
  obtain ⟨-, rfl⟩ := processAck_eq_ok.mp hc₃
  rw [finishSegment_empty_eq hempty (expectedAck_afterAck_zero _ _ _).symm] at hz
  obtain rfl := Except.ok.inj hz
  exact ⟨x.1, count, _, honly, hnext, hsent, by rw [hcount], rfl⟩

/-- An acknowledgement without payload, with the numbers that the connection expects, leaves them
as they are. -/
theorem Only.acknowledged (h : Only s c) (hstate : c.state = .established) (hplain : Plain c)
    {tcp : TcpHeader} {bytes : ℕ → UInt8} {len : UInt16} (hempty : len - tcp.headerLen = 0)
    (hfin : hasFlag tcp.flags tcpFin = false) (hseq : tcp.seq = c.expectedAck)
    (hack : tcp.ack = c.nextSeq)
    (hs : handleEstablishedState s c.addr tcp bytes len = .ok s') :
    ∃ c', Only s' c' ∧ c'.addr = c.addr ∧ c'.key = c.key ∧ c'.state = .established ∧ Plain c' ∧
      c'.nextSeq = c.nextSeq ∧ c'.expectedAck = c.expectedAck ∧ s'.nextAddr = s.nextAddr ∧
      (s'.sent = s.sent ∨ s'.sent = s.sent ++ [buildSegment c tcpAck []]) := by
  obtain ⟨t, count, c', honly, hnext, hsent, hc', rfl⟩ := h.afterAck hstate hplain hempty hs
  have haddr : c'.addr = c.addr := by rw [hc']; rfl
  rw [handleFin, hfin]
  refine ⟨c', honly.setConn haddr, haddr, ?_, ?_, fun e he => ?_, ?_, ?_, hnext, hsent⟩
  · rw [hc']
    rfl
  · rw [hc']
    exact hstate
  · rw [hc'] at he
    exact hplain e (List.mem_filter.mp he).1
  · rw [hc', hack]
    exact if_neg (UInt32.lt_irrefl _)
  · rw [hc', expectedAck_afterAck_zero, hseq]

theorem handleFin_of_fin {flags : UInt8} (hfin : hasFlag flags tcpFin = true) (s : TcpStack)
    (c : TcpConnection) :
    (handleFin s c flags).1.connectionList = s.connectionList ∧
      (handleFin s c flags).2.addr = c.addr ∧ (handleFin s c flags).2.state = .lastAck := by
  simp only [handleFin, if_pos hfin, connectionList_tcpSendSegment, addr_tcpSendSegment, and_self]

/-- A FIN without payload takes the connection to `TCP_LAST_ACK`. -/
theorem Only.finished (h : Only s c) (hstate : c.state = .established) (hplain : Plain c)
    {tcp : TcpHeader} {bytes : ℕ → UInt8} {len : UInt16} (hempty : len - tcp.headerLen = 0)
    (hfin : hasFlag tcp.flags tcpFin = true)
    (hs : handleEstablishedState s c.addr tcp bytes len = .ok s') :
    ∀ d ∈ s'.connectionList, d.state = .lastAck := by
  obtain ⟨t, count, c', honly, -, -, hc', rfl⟩ := h.afterAck hstate hplain hempty hs
  obtain ⟨hlist, hend, hlast⟩ := handleFin_of_fin hfin t c'
  have haddr : c.addr = (handleFin t c' tcp.flags).2.addr := by rw [hend, hc']; rfl
  intro d hd
  rw [TcpStack.setConn, hlist, honly.list, List.map_singleton, if_pos haddr] at hd
  rw [List.mem_singleton.mp hd, hlast]

/-! ### An end that has closed -/

/-- Writing back a block changes no other. -/
theorem mem_setConn_of_addr_eq {c' d : TcpConnection} (hd : d ∈ (s.setConn c').connectionList)
    (haddr : c'.addr = c.addr) : d.addr = c.addr ∨ d ∈ s.connectionList := by
  obtain rfl | hd := mem_setConn hd
  · exact Or.inl haddr
  · exact Or.inr hd

theorem mem_handleSynSent (s : TcpStack) (c : TcpConnection) (tcp : TcpHeader) :
    ∀ d ∈ (handleSynSent s c tcp).connectionList, d.addr = c.addr ∨ d ∈ s.connectionList := by
  intro d hd
  obtain ⟨-, heq⟩ | ⟨-, -, x, hx, heq⟩ := handleSynSent_cases s c tcp
  · rw [heq] at hd
    exact Or.inr hd
  · have haddr : x.2.addr = c.addr := by rw [hx, addr_tcpSendSegment]
    have hlist : x.1.connectionList = s.connectionList := by rw [hx, connectionList_tcpSendSegment]
    rw [heq] at hd
    exact hlist ▸ mem_setConn_of_addr_eq hd haddr

theorem mem_handleSynReceived (s : TcpStack) (c : TcpConnection) (tcp : TcpHeader) :
    ∀ d ∈ (handleSynReceived s c tcp).connectionList,
      d.addr = c.addr ∨ d ∈ s.connectionList := by
  intro d hd
  rw [handleSynReceived] at hd
  split_ifs at hd
  · exact mem_setConn_of_addr_eq hd rfl
  · exact Or.inr hd

/-- The handler of `TCP_ESTABLISHED` writes after the timer check. -/
theorem mem_handleEstablishedState {tcp : TcpHeader} {bytes : ℕ → UInt8} {len : UInt16}
    (hs : handleEstablishedState s c.addr tcp bytes len = .ok s') :
    ∃ t, checkTcpTimers s = .ok t ∧
      ∀ d ∈ s'.connectionList, d.addr = c.addr ∨ d ∈ t.connectionList := by
  obtain ⟨x, c₃, z, hx, hc₃, hz, rfl⟩ := exists_of_handleEstablishedState hs
  obtain ⟨t, ht, hx⟩ := bind_eq_ok.mp hx
  obtain ⟨c₁, hc₁, hx⟩ := bind_eq_ok.mp hx
  have haddr : z.2.addr = c.addr := by
    rw [addr_finishSegment hz, (processAck_eq_ok.mp hc₃).2]
    exact (addr_fastRetransmit hx).trans ((reestablish_addr c₁ _ _).trans (deref_eq_ok hc₁).2)
  have hlist : z.1.connectionList = t.connectionList := by
    rw [connectionList_finishSegment hz, connectionList_fastRetransmit hx]
  exact ⟨t, ht, fun d hd => hlist ▸ mem_setConn_of_addr_eq hd haddr⟩

theorem mem_handleWaitForAckState {tcp : TcpHeader}
    (hs : handleWaitForAckState s c.addr tcp = .ok s') :
    ∀ d ∈ s'.connectionList, d.addr = c.addr ∨ d ∈ s.connectionList := by
  intro d hd
  obtain ⟨c₁, hc₁, -⟩ := bind_eq_ok.mp hs
  have haddr := (deref_eq_ok hc₁).2
  cases hq : c₁.retransmitQueue with
  | nil =>
      obtain rfl := eq_of_handleWaitForAckState_nil hc₁ hq hs
      exact Or.inr hd
  | cons e es =>
      obtain ⟨-, -, hrem⟩ | ⟨-, rfl⟩ | ⟨-, -, rfl⟩ | ⟨-, -, -, x, rfl, rfl⟩ | ⟨-, -, -, rfl⟩ :=
        handleWaitForAckState_eq_ok hc₁ hq hs
      · exact mem_setConn_of_addr_eq (mem_connectionList_removeConnection hrem hd) haddr
      · exact mem_setConn_of_addr_eq hd haddr
      · exact mem_setConn_of_addr_eq hd haddr
      · obtain haddr | hd := mem_setConn_of_addr_eq hd ((addr_tcpSendSegment _ _ _ _ _).trans haddr)
        · exact Or.inl haddr
        · rw [connectionList_tcpSendSegment] at hd
          exact Or.inr hd
      · exact mem_setConn_of_addr_eq hd haddr

/-- A handler writes to the block of its own connection only, up to what the timer check does. -/
theorem mem_handleInState {tcp : TcpHeader} {bytes : ℕ → UInt8} {len : UInt16}
    (hs : handleInState s c tcp bytes len = .ok s') :
    ∃ t, (t = s ∨ checkTcpTimers s = .ok t) ∧
      ∀ d ∈ s'.connectionList, d.addr = c.addr ∨ d ∈ t.connectionList := by
  rw [handleInState] at hs
  cases hstate : c.state with
  | synSent =>
      rw [hstate] at hs
      obtain rfl := Except.ok.inj hs
      exact ⟨s, Or.inl rfl, mem_handleSynSent s c tcp⟩
  | synReceived =>
      rw [hstate] at hs
      obtain rfl := Except.ok.inj hs
      exact ⟨s, Or.inl rfl, mem_handleSynReceived s c tcp⟩
  | established =>
      rw [hstate] at hs
      change handleEstablishedState s c.addr tcp bytes len = .ok s' at hs
      obtain ⟨t, ht, hmem⟩ := mem_handleEstablishedState hs
      exact ⟨t, Or.inr ht, hmem⟩
  | waitForAck =>
      rw [hstate] at hs
      exact ⟨s, Or.inl rfl, mem_handleWaitForAckState hs⟩
  | lastAck =>
      rw [hstate] at hs
      obtain ⟨c₁, -, hs⟩ := bind_eq_ok.mp hs
      refine ⟨s, Or.inl rfl, fun d hd => Or.inr ?_⟩
      split_ifs at hs
      · exact mem_connectionList_removeConnection hs hd
      · exact Except.ok.inj hs ▸ hd
  | _ =>
      rw [hstate] at hs
      obtain rfl := Except.ok.inj hs
      exact ⟨s, Or.inl rfl, fun d hd => Or.inr hd⟩

/-- The end at `conn` has closed: its block waits for the last acknowledgement or is gone, and no
new one will be there. -/
structure Closed (conn : ℕ) (s : TcpStack) : Prop where
  last : ∀ c ∈ s.connectionList, c.addr = conn → c.state = .lastAck
  passed : conn < s.nextAddr

variable {conn : ℕ}

theorem sendInvariant_closed (conn : ℕ) :
    SendInvariant (fun c => c.addr = conn → c.state = .lastAck) fun _ => True where
  sent := fun _ _ _ => trivial
  afterSend := fun h _ _ _ _ _ => h
  retried := fun h _ _ _ _ => h

theorem Closed.checkTcpTimers (h : Closed conn s) (hs : HalOS.checkTcpTimers s = .ok s') :
    Closed conn s' where
  last := ((sendInvariant_closed conn).checkTcpTimers ⟨h.last, fun _ _ => trivial⟩ hs).blocks
  passed := (frame_checkTcpTimers hs).nextAddr ▸ h.passed

theorem Closed.removeConnection (h : Closed conn s) {addr : ℕ}
    (hs : HalOS.removeConnection s addr = .ok s') : Closed conn s' where
  last := fun d hd => h.last d (mem_connectionList_removeConnection hs hd)
  passed := (frame_removeConnection hs).nextAddr ▸ h.passed

theorem Closed.passiveOpen (h : Closed conn s) (srcIp dstIp : UInt32) (tcp : TcpHeader)
    (bytes : ℕ → UInt8) : Closed conn (HalOS.passiveOpen s srcIp dstIp tcp bytes) := by
  obtain ⟨-, heq⟩ | ⟨-, c, t, x, hc, ht, hx, heq⟩ := passiveOpen_cases s srcIp dstIp tcp bytes
  · rw [heq]
    exact ⟨h.last, h.passed⟩
  · have hxaddr : x.2.addr = s.nextAddr := by
      rw [hx, addr_tcpSendSegment, hc]
      rfl
    have hxlist : x.1.connectionList = c :: s.connectionList := by
      rw [hx, connectionList_tcpSendSegment, addConnection, ht]
    have hcaddr : c.addr = s.nextAddr := by
      rw [hc]
      rfl
    rw [heq]
    refine ⟨fun d hd hconn => ?_, ?_⟩
    · rw [connectionList_startRetransmissionTimer] at hd
      obtain rfl | hd := mem_setConn hd
      · exact absurd (hconn.symm.trans hxaddr) (Nat.ne_of_lt h.passed)
      · rw [hxlist] at hd
        obtain rfl | hd := List.mem_cons.mp hd
        · exact absurd (hconn.symm.trans hcaddr) (Nat.ne_of_lt h.passed)
        · exact h.last d hd hconn
    · rw [(frame_startRetransmissionTimer _ _ _).nextAddr, (frame_setConn _ _).nextAddr, hx,
        (frame_tcpSendSegment _ _ _ _ _).nextAddr, addConnection, ht]
      exact Nat.lt_succ_of_lt h.passed

/-- Any segment leaves a closed end closed. -/
theorem Closed.handleSegment (h : Closed conn s) {srcIp dstIp : UInt32} {tcp : TcpHeader}
    {bytes : ℕ → UInt8} {len : UInt16}
    (hs : HalOS.handleSegment s srcIp dstIp tcp bytes len = .ok s') : Closed conn s' := by
  obtain rfl | rfl | ⟨-, -, -, rfl⟩ | ⟨c, hfind, hrem | ⟨-, hin⟩⟩ := handleSegment_eq_ok hs
  · exact h
  · exact ⟨fun d hd => h.last d (by rwa [tcpSendReset, connectionList_tcpSendSegment] at hd),
      (frame_tcpSendReset s srcIp dstIp tcp).nextAddr ▸ h.passed⟩
  · exact h.passiveOpen _ _ _ _
  · exact h.removeConnection hrem
  · refine ⟨fun d hd hconn => ?_, (frame_handleInState hin).nextAddr ▸ h.passed⟩
    by_cases hown : c.addr = conn
    · have hlast := h.last c (List.mem_of_find?_eq_some hfind) hown
      rw [handleInState, hlast] at hin
      obtain ⟨c₁, -, hin⟩ := bind_eq_ok.mp hin
      split_ifs at hin
      · exact (h.removeConnection hin).last d hd hconn
      · exact h.last d (Except.ok.inj hin ▸ hd) hconn
    · obtain ⟨t, ht, hmem⟩ := mem_handleInState hin
      obtain hd | hd := hmem d hd
      · exact absurd (hd.symm.trans hconn) hown
      · obtain rfl | ht := ht
        · exact h.last d hd hconn
        · exact (h.checkTcpTimers ht).last d hd hconn

/-- A closed end stays closed. -/
theorem Closed.next (h : Closed conn s) {peer : TcpStack} {input : LinkInput}
    (hs : input.next peer s = .ok s') : Closed conn s' := by
  cases input with
  | arrival i =>
      rw [LinkInput.next] at hs
      cases hseg : peer.sent[i]? with
      | none =>
          rw [hseg] at hs
          exact Except.ok.inj hs ▸ h
      | some seg =>
          rw [hseg] at hs
          exact h.handleSegment hs
  | checkTimers => exact h.checkTcpTimers hs
  | tick ticks => exact Except.ok.inj hs ▸ ⟨h.last, h.passed⟩

/-! ### The two sides

`start` is the initial number of the active side; `reply` is the number that it expects from the
moment it is in `TCP_ESTABLISHED`. -/

/-- What the active side sends. -/
def ClientSends (key : UInt32 × UInt16 × UInt32 × UInt16) (start : UInt32) (reply : Option UInt32)
    (seg : TcpSegment) : Prop :=
  ∃ c : TcpConnection, c.key = key ∧
    ((seg = buildSegment c tcpSyn [] ∧ c.nextSeq = start) ∨
      (seg = buildSegment c tcpAck [] ∧ c.nextSeq = start + 1 ∧ reply = some c.expectedAck))

/-- What the passive side sends. -/
def ServerSends (key : UInt32 × UInt16 × UInt32 × UInt16) (start : UInt32) (reply : Option UInt32)
    (seg : TcpSegment) : Prop :=
  ∃ d : TcpConnection, d.peerKey = key ∧
    (seg = buildSegment d (tcpSyn ||| tcpAck) [] ∨ seg = buildSegment d tcpFin [] ∨
      seg = buildSegment d tcpRst [] ∨
      (seg = buildSegment d tcpAck [] ∧ reply = some d.nextSeq ∧ d.expectedAck = start + 1))

/-- The active side before it closes. -/
structure ClientSide (conn : ℕ) (key : UInt32 × UInt16 × UInt32 × UInt16) (start : UInt32)
    (reply : Option UInt32) (s : TcpStack) : Prop where
  sent : ∀ seg ∈ s.sent, ClientSends key start reply seg
  passed : conn < s.nextAddr
  only : ∃ c, Only s c ∧ c.addr = conn ∧ c.key = key ∧ Plain c ∧ c.nextSeq = start + 1 ∧
    ((c.state = .synSent ∧ reply = none) ∨
      (c.state = .established ∧ reply = some c.expectedAck))

/-- The block of the passive side: it waits for the last segment of the handshake, perhaps with a
timer, or it has seen it. -/
structure ServerBlock (key : UInt32 × UInt16 × UInt32 × UInt16) (start : UInt32)
    (reply : Option UInt32) (timers : List TcpTimer) (d : TcpConnection) : Prop where
  key : d.peerKey = key
  expects : d.expectedAck = start + 1
  plain : Plain d
  phase : (d.state = .synReceived ∧ (timers = [] ∨ ∃ t, timers = [t] ∧ t.conn = d.addr)) ∨
    (d.state = .established ∧ timers = [] ∧ reply = some d.nextSeq)

/-- The passive side while the active one has not closed. -/
structure ServerSide (key : UInt32 × UInt16 × UInt32 × UInt16) (start : UInt32)
    (reply : Option UInt32) (s : TcpStack) : Prop where
  sent : ∀ seg ∈ s.sent, ServerSends key start reply seg
  shape : (s.connectionList = [] ∧ s.activeTimers = []) ∨
    ∃ d, s.connectionList = [d] ∧ ServerBlock key start reply s.activeTimers d

variable {start : UInt32} {reply : Option UInt32}

/-- Nothing that was sent before depends on the number that the active side now expects. -/
theorem ClientSends.established (h : ClientSends key start none seg) (reply : Option UInt32) :
    ClientSends key start reply seg := by
  obtain ⟨c, hkey, hsyn | ⟨-, -, hreply⟩⟩ := h
  · exact ⟨c, hkey, Or.inl hsyn⟩
  · cases hreply

theorem ServerSide.established (h : ServerSide key start none s) (reply : Option UInt32) :
    ServerSide key start reply s where
  sent := fun seg hseg => by
    obtain ⟨d, hkey, hsyn | hfin | hrst | ⟨-, hreply, -⟩⟩ := h.sent seg hseg
    · exact ⟨d, hkey, Or.inl hsyn⟩
    · exact ⟨d, hkey, Or.inr (Or.inl hfin)⟩
    · exact ⟨d, hkey, Or.inr (Or.inr (Or.inl hrst))⟩
    · cases hreply
  shape := by
    obtain hidle | ⟨d, hlist, hblock⟩ := h.shape
    · exact Or.inl hidle
    · refine Or.inr ⟨d, hlist, hblock.key, hblock.expects, hblock.plain, ?_⟩
      obtain hwait | ⟨-, -, hreply⟩ := hblock.phase
      · exact Or.inl hwait
      · cases hreply

/-- The timer of the passive side sends a FIN and goes on, or gives up, which has no next
timer. -/
theorem ServerSide.checkTcpTimers (h : ServerSide key start reply s)
    (hs : HalOS.checkTcpTimers s = .ok s') : ServerSide key start reply s' := by
  obtain ⟨-, htimers⟩ | ⟨d, hlist, hblock⟩ := h.shape
  · exact Except.ok.inj ((checkTcpTimers_nil htimers).symm.trans hs) ▸ h
  obtain ⟨hstate, htimers | ⟨t, htimers, hconn⟩⟩ | ⟨hstate, htimers, hreply⟩ := hblock.phase
  · exact Except.ok.inj ((checkTcpTimers_nil htimers).symm.trans hs) ▸ h
  · have hderef : s.deref t.conn = .ok d := by
      rw [TcpStack.deref, hlist, hconn, List.find?_cons, beq_self_eq_true]
      rfl
    rw [HalOS.checkTcpTimers, htimers, checkTimersLoop, hderef] at hs
    obtain ⟨d₁, hd₁, hs⟩ := bind_eq_ok.mp hs
    obtain rfl := Except.ok.inj hd₁
    by_cases hrunning : s.ticks - t.startTime < t.timeoutMs
    · rw [if_pos hrunning, checkTimersLoop] at hs
      obtain rfl := Except.ok.inj hs
      refine ⟨h.sent, Or.inr ⟨d, hlist, hblock.key, hblock.expects, hblock.plain, ?_⟩⟩
      exact Or.inl ⟨hstate, Or.inr ⟨t, rfl, hconn⟩⟩
    rw [if_neg hrunning] at hs
    obtain ⟨x, hretry, hs⟩ := bind_eq_ok.mp hs
    cases x with
    | none =>
        obtain ⟨s₁, -, hs⟩ := bind_eq_ok.mp hs
        cases hs
    | some y =>
        obtain ⟨s₁, t'⟩ := y
        obtain ⟨e, es, hwait, -⟩ | ⟨-, -, x, hx, rfl, rfl⟩ := retransmitOnTimer_eq_some hretry
        · rw [hstate] at hwait
          cases hwait
        · have hxlist : x.1.connectionList = [d] := by
            rw [hx, connectionList_tcpSendSegment, hlist]
          have hxaddr : x.2.addr = d.addr := by rw [hx, addr_tcpSendSegment]
          rw [hstate] at hx
          simp only [checkTimersLoop] at hs
          obtain rfl := Except.ok.inj hs
          refine ⟨fun seg hseg => ?_, Or.inr ⟨x.2, ?_, ?_, ?_, ?_, ?_⟩⟩
          · rw [TcpStack.setConn, hx, sent_tcpSendSegment] at hseg
            obtain hseg | hseg := List.mem_append.mp hseg
            · exact h.sent seg hseg
            · exact ⟨d, hblock.key, Or.inr (Or.inl (List.mem_singleton.mp hseg))⟩
          · rw [TcpStack.setConn, hxlist, List.map_singleton, if_pos hxaddr.symm]
          · rw [hx, tcpSendSegment_eq]
            exact hblock.key
          · rw [hx, expectedAck_tcpSendSegment]
            exact hblock.expects
          · rw [hx, tcpSendSegment_eq]
            exact hblock.plain.afterSend _ _ _
          · rw [hxaddr, hx, state_tcpSendSegment]
            exact Or.inl ⟨hstate, Or.inr ⟨_, rfl, hconn⟩⟩
  · exact Except.ok.inj ((checkTcpTimers_nil htimers).symm.trans hs) ▸ h

theorem peerKey_eq_key : d.peerKey = c.key ↔ d.key = c.peerKey := by
  simp only [TcpConnection.peerKey, TcpConnection.key, Prod.mk.injEq]
  constructor
  · rintro ⟨h₁, h₂, h₃, h₄⟩
    exact ⟨h₃, h₄, h₁, h₂⟩
  · rintro ⟨h₁, h₂, h₃, h₄⟩
    exact ⟨h₃, h₄, h₁, h₂⟩

/-- The segment finds the one connection of its key. -/
theorem ReadEmpty.findConnection_singleton {flags : UInt8} {tcp : TcpHeader} {len : UInt16}
    (h : ReadEmpty c flags tcp len) (hlist : s.connectionList = [d]) (hkey : d.key = c.peerKey) :
    HalOS.findConnection s c.localIp tcp.srcPort c.remoteIp tcp.destPort = some d := by
  rw [h.findConnection, hlist, List.find?_cons, hkey, beq_self_eq_true]

/-- A segment of the active side is late for a connection in `TCP_ESTABLISHED` if it has a
SYN. -/
theorem TcpSegment.NotLate.hasFlag_eq_false {flags : UInt8}
    (h : (buildSegment c flags []).NotLate s) (hlist : s.connectionList = [d])
    (hkey : d.key = c.peerKey) (hstate : d.state = .established) :
    hasFlag flags tcpSyn = false := by
  refine h d ?_ hstate
  rw [findConnection_eq, hlist]
  exact List.find?_cons_of_pos (hkey ▸ beq_self_eq_true c.peerKey)

theorem startRetransmissionTimer_cases (s : TcpStack) (addr : ℕ) (timeoutMs : UInt32) :
    (startRetransmissionTimer s addr timeoutMs).sent = s.sent ∧
      ((startRetransmissionTimer s addr timeoutMs).activeTimers = s.activeTimers ∨
        ∃ t, (startRetransmissionTimer s addr timeoutMs).activeTimers = t :: s.activeTimers ∧
          t.conn = addr) := by
  rw [startRetransmissionTimer, TcpStack.malloc]
  cases s.mallocs.headD true with
  | false => exact ⟨rfl, Or.inl rfl⟩
  | true => exact ⟨rfl, Or.inr ⟨_, rfl, rfl⟩⟩

/-- A SYN of the active side opens the passive one. -/
theorem ServerSide.passiveOpen (h : ServerSide key start reply s)
    (hlist : s.connectionList = []) (htimers : s.activeTimers = []) (hkey : c.key = key)
    (hseq : c.nextSeq = start) {flags : UInt8} {tcp : TcpHeader} {len : UInt16}
    (hread : ReadEmpty c flags tcp len) (bytes : ℕ → UInt8) :
    ServerSide key start reply (HalOS.passiveOpen s c.localIp c.remoteIp tcp bytes) := by
  obtain ⟨-, heq⟩ | ⟨-, d, t, x, hd, ht, hx, heq⟩ :=
    passiveOpen_cases s c.localIp c.remoteIp tcp bytes
  · rw [heq]
    exact ⟨h.sent, Or.inl ⟨hlist, htimers⟩⟩
  have hdkey : d.peerKey = key := by
    rw [hd, ← hkey]
    change (c.remoteIp, tcp.destPort, c.localIp, tcp.srcPort) = c.key
    rw [hread.srcPort, hread.destPort]
    rfl
  have hxlist : x.1.connectionList = [d] := by
    rw [hx, connectionList_tcpSendSegment, addConnection, ht, hlist]
  have hxaddr : x.2.addr = d.addr := by rw [hx, addr_tcpSendSegment]
  have hxtimers : x.1.activeTimers = [] := by
    rw [hx, activeTimers_tcpSendSegment, addConnection, ht, htimers]
  obtain ⟨hsent, hstarted⟩ :=
    startRetransmissionTimer_cases (x.1.setConn x.2) x.2.addr retransmitTimeout
  rw [heq]
  refine ⟨fun seg hseg => ?_, Or.inr ⟨x.2, ?_, ?_, ?_, ?_, Or.inl ⟨?_, ?_⟩⟩⟩
  · rw [hsent, TcpStack.setConn, hx, sent_tcpSendSegment, addConnection, ht] at hseg
    obtain hseg | hseg := List.mem_append.mp hseg
    · exact h.sent seg hseg
    · exact ⟨d, hdkey, Or.inl (List.mem_singleton.mp hseg)⟩
  · rw [connectionList_startRetransmissionTimer, TcpStack.setConn, hxlist, List.map_singleton,
      if_pos hxaddr.symm]
  · rw [hx, tcpSendSegment_eq]
    exact hdkey
  · rw [hx, expectedAck_tcpSendSegment, hd, ← hseq, ← hread.seq]
    rfl
  · have hempty : Plain d := by
      rw [hd]
      exact fun e he => absurd he List.not_mem_nil
    rw [hx, tcpSendSegment_eq]
    exact hempty.afterSend _ _ _
  · rw [hx, state_tcpSendSegment, hd]
    rfl
  · obtain hnone | ⟨timer, hone, hconn⟩ := hstarted
    · exact Or.inl (hnone.trans hxtimers)
    · refine Or.inr ⟨timer, hone.trans ?_, hconn⟩
      rw [TcpStack.setConn, hxtimers]

/-- A segment of the active side arrives at the passive one. -/
theorem ServerSide.arrival (h : ServerSide key start reply s)
    (hseg : ClientSends key start reply seg) (hlate : seg.NotLate s)
    (hs : seg.arrives.next s = .ok s') : ServerSide key start reply s' := by
  obtain ⟨c, hkey, hsends⟩ := hseg
  obtain ⟨flags, rfl, hflags⟩ : ∃ flags, seg = buildSegment c flags [] ∧
      ((flags = tcpSyn ∧ c.nextSeq = start) ∨
        (flags = tcpAck ∧ c.nextSeq = start + 1 ∧ reply = some c.expectedAck)) := by
    obtain ⟨rfl, hseq⟩ | ⟨rfl, hseq⟩ := hsends
    · exact ⟨tcpSyn, rfl, Or.inl ⟨rfl, hseq⟩⟩
    · exact ⟨tcpAck, rfl, Or.inr ⟨rfl, hseq⟩⟩
  have hrst : hasFlag flags tcpRst = false := by
    obtain ⟨rfl, -⟩ | ⟨rfl, -⟩ := hflags
    · rfl
    · rfl
  obtain ⟨tcp, bytes, len, harrives, hread⟩ := exists_arrives_empty s c flags
  rw [harrives] at hs
  obtain ⟨hlist, htimers⟩ | ⟨d, hlist, hblock⟩ := h.shape
  · -- the passive side has no connection
    have hnone : findConnection s c.localIp tcp.srcPort c.remoteIp tcp.destPort = none := by
      rw [hread.findConnection, hlist]
      rfl
    obtain rfl | rfl | ⟨-, hsyn, -, rfl⟩ | ⟨d, hfind, -⟩ := handleSegment_eq_ok hs
    · exact h
    · refine ⟨fun seg hseg => ?_, Or.inl ⟨?_, ?_⟩⟩
      · rw [tcpSendReset, sent_tcpSendSegment] at hseg
        obtain hseg | hseg := List.mem_append.mp hseg
        · exact h.sent seg hseg
        · refine ⟨resetBlock c.localIp c.remoteIp tcp, ?_,
            Or.inr (Or.inr (Or.inl (List.mem_singleton.mp hseg)))⟩
          change (c.remoteIp, tcp.destPort, c.localIp, tcp.srcPort) = key
          rw [hread.srcPort, hread.destPort, ← hkey]
          rfl
      · rw [tcpSendReset, connectionList_tcpSendSegment, hlist]
      · rw [tcpSendReset, activeTimers_tcpSendSegment, htimers]
    · obtain ⟨rfl, hseq⟩ | ⟨rfl, -⟩ := hflags
      · exact h.passiveOpen hlist htimers hkey hseq hread bytes
      · rw [hread.flags] at hsyn
        cases hsyn
    · rw [hnone] at hfind
      cases hfind
  have hdkey : d.key = c.peerKey := peerKey_eq_key.mp (hblock.key.trans hkey.symm)
  rw [handleSegment_of_find hread.offset (hread.findConnection_singleton hlist hdkey)
    (by rw [hread.flags]; exact hrst), handleInState] at hs
  obtain ⟨hstate, htimers⟩ | ⟨hstate, htimers, hreply⟩ := hblock.phase
  · -- only the acknowledgement of its SYN-ACK takes it to `TCP_ESTABLISHED`
    rw [hstate] at hs
    obtain rfl := Except.ok.inj hs
    rw [handleSynReceived, hread.flags, hread.ack]
    split_ifs with hack
    · obtain ⟨rfl, -⟩ | ⟨rfl, -, hreply⟩ := hflags
      · cases hack.1
      · refine ⟨h.sent, Or.inr ⟨{ d with state := .established }, ?_, hblock.key, hblock.expects,
          hblock.plain, Or.inr ⟨rfl, ?_, hreply.trans (congrArg some hack.2)⟩⟩⟩
        · rw [cancelRetransmissionTimer, TcpStack.setConn, hlist, List.map_singleton, if_pos rfl]
        · rw [cancelRetransmissionTimer, TcpStack.setConn]
          obtain hnone | ⟨t, hone, hconn⟩ := htimers
          · rw [hnone]
            rfl
          · rw [hone, List.eraseP_cons_of_pos (by rw [hconn]; exact beq_self_eq_true _)]
    · exact h
  · -- the condition leaves only acknowledgements
    have hsyn := hlate.hasFlag_eq_false hlist hdkey hstate
    rw [hstate] at hs
    obtain ⟨rfl, -⟩ | ⟨rfl, hseq, hreply'⟩ := hflags
    · cases hsyn
    have hack : c.expectedAck = d.nextSeq := Option.some.inj (hreply'.symm.trans hreply)
    obtain ⟨d', honly, -, hkey', hstate', hplain', hnext', hexpected', -, hsent⟩ :=
      (Only.mk hlist htimers).acknowledged hstate hblock.plain hread.empty
        (by rw [hread.flags]; rfl) (by rw [hread.seq, hseq, hblock.expects])
        (hread.ack.trans hack) hs
    refine ⟨fun seg hseg => ?_, Or.inr ⟨d', honly.list, ?_, hexpected'.trans hblock.expects,
      hplain', Or.inr ⟨hstate', honly.timers, hreply.trans (congrArg some hnext'.symm)⟩⟩⟩
    · obtain heq | heq := hsent
      · exact h.sent seg (heq ▸ hseg)
      · rw [heq] at hseg
        obtain hseg | hseg := List.mem_append.mp hseg
        · exact h.sent seg hseg
        · exact ⟨d, hblock.key, Or.inr (Or.inr (Or.inr
            ⟨List.mem_singleton.mp hseg, hreply, hblock.expects⟩))⟩
    · rw [(peerKey_eq_key (c := c)).mpr (hkey'.trans hdkey), hkey]

/-- A RST closes the active side. -/
theorem ClientSide.closed_of_reset (h : ClientSide conn key start reply s) {addr : ℕ}
    (hs : removeConnection s addr = .ok s') (haddr : ∀ c ∈ s.connectionList, c.addr = addr) :
    Closed conn s' where
  last := by
    obtain ⟨c, -, -, rfl⟩ := exists_of_removeConnection hs
    intro d hd
    obtain ⟨hmem, hother⟩ := List.mem_filter.mp hd
    exact absurd (haddr d hmem) (bne_iff_ne.mp hother)
  passed := (frame_removeConnection hs).nextAddr ▸ h.passed

/-- The SYN-ACK takes the active side to `TCP_ESTABLISHED`; nothing else changes it. -/
theorem ClientSide.synSent (h : ClientSide conn key start none s) (honly : Only s c)
    (haddr : c.addr = conn) (hkey : c.key = key) (hplain : Plain c)
    (hnext : c.nextSeq = start + 1) (tcp : TcpHeader) :
    ∃ reply, ClientSide conn key start reply (handleSynSent s c tcp) := by
  obtain ⟨-, heq⟩ | ⟨-, -, x, hx, heq⟩ := handleSynSent_cases s c tcp
  · rw [heq]
    exact ⟨none, h⟩
  have hxaddr : x.2.addr = c.addr := by rw [hx, addr_tcpSendSegment]
  have honly' : Only (x.1.setConn x.2) x.2 := by
    refine Only.setConn (c := c) ?_ hxaddr
    rw [hx]
    exact honly.send _ _ _ _
  rw [heq]
  refine ⟨some (tcp.seq + 1), fun seg hseg => ?_, ?_, x.2, ⟨honly'.list, ?_⟩, hxaddr.trans haddr,
    ?_, ?_, ?_, Or.inr ⟨?_, ?_⟩⟩
  · rw [cancelRetransmissionTimer, TcpStack.setConn, hx, sent_tcpSendSegment] at hseg
    obtain hseg | hseg := List.mem_append.mp hseg
    · exact (h.sent seg hseg).established _
    · exact ⟨{ c with expectedAck := tcp.seq + 1, state := .established }, hkey,
        Or.inr ⟨List.mem_singleton.mp hseg, hnext, rfl⟩⟩
  · rw [(frame_cancelTimer _ _).nextAddr, (frame_setConn _ _).nextAddr, hx,
      (frame_tcpSendSegment _ _ _ _ _).nextAddr]
    exact h.passed
  · rw [cancelRetransmissionTimer, honly'.timers]
    rfl
  · rw [hx, tcpSendSegment_eq]
    exact hkey
  · rw [hx, tcpSendSegment_eq]
    exact Plain.afterSend (c := { c with expectedAck := tcp.seq + 1, state := .established })
      hplain _ _ _
  · rw [hx, nextSeq_tcpSendSegment, sequenceLen_ack_zero, UInt32.add_zero]
    exact hnext
  · rw [hx, state_tcpSendSegment]
  · rw [hx, expectedAck_tcpSendSegment]

/-- A segment of the passive side arrives at the active one. -/
theorem ClientSide.arrival (h : ClientSide conn key start reply s)
    (hseg : ServerSends key start reply seg) (hlate : seg.NotLate s)
    (hs : seg.arrives.next s = .ok s') :
    (∃ reply', ClientSide conn key start reply' s' ∧ (reply = none ∨ reply' = reply)) ∨
      Closed conn s' := by
  obtain ⟨c, honly, haddr, hkey, hplain, hnext, hphase⟩ := h.only
  obtain ⟨d, hdkey, hsends⟩ := hseg
  obtain ⟨flags, rfl, hflags⟩ : ∃ flags, seg = buildSegment d flags [] ∧
      (flags = tcpSyn ||| tcpAck ∨ flags = tcpFin ∨ flags = tcpRst ∨
        (flags = tcpAck ∧ reply = some d.nextSeq ∧ d.expectedAck = start + 1)) := by
    obtain rfl | rfl | rfl | ⟨rfl, hack⟩ := hsends
    · exact ⟨_, rfl, Or.inl rfl⟩
    · exact ⟨_, rfl, Or.inr (Or.inl rfl)⟩
    · exact ⟨_, rfl, Or.inr (Or.inr (Or.inl rfl))⟩
    · exact ⟨_, rfl, Or.inr (Or.inr (Or.inr ⟨rfl, hack⟩))⟩
  obtain ⟨tcp, bytes, len, harrives, hread⟩ := exists_arrives_empty s d flags
  have hpeer : c.key = d.peerKey := hkey.trans hdkey.symm
  have hfind := hread.findConnection_singleton honly.list hpeer
  rw [harrives] at hs
  by_cases hrst : hasFlag flags tcpRst = true
  · rw [handleSegment, if_neg hread.offset, hfind] at hs
    simp only [hread.flags, hrst, if_true] at hs
    refine Or.inr (h.closed_of_reset hs fun e he => ?_)
    rw [honly.list, List.mem_singleton] at he
    rw [he]
  rw [handleSegment_of_find hread.offset hfind
    (by rw [hread.flags]; exact Bool.eq_false_iff.mpr hrst), handleInState] at hs
  obtain ⟨hstate, rfl⟩ | ⟨hstate, hreply⟩ := hphase
  · rw [hstate] at hs
    obtain rfl := Except.ok.inj hs
    obtain ⟨reply', hside⟩ := h.synSent honly haddr hkey hplain hnext tcp
    exact Or.inl ⟨reply', hside, Or.inl rfl⟩
  rw [hstate] at hs
  obtain rfl | rfl | rfl | ⟨rfl, hreply', hexpects⟩ := hflags
  · cases hlate.hasFlag_eq_false honly.list hpeer hstate
  · have hlast := honly.finished hstate hplain hread.empty (by rw [hread.flags]; rfl) hs
    exact Or.inr ⟨fun e he _ => hlast e he, (frame_handleEstablishedState hs).nextAddr ▸ h.passed⟩
  · exact absurd rfl hrst
  · have hseq : d.nextSeq = c.expectedAck := Option.some.inj (hreply'.symm.trans hreply)
    obtain ⟨c', honly', haddr', hkey', hstate', hplain', hnext', hexpected', hpassed', hsent⟩ :=
      honly.acknowledged hstate hplain hread.empty (by rw [hread.flags]; rfl)
        (hread.seq.trans hseq) (by rw [hread.ack, hexpects, hnext]) hs
    refine Or.inl ⟨reply, ⟨fun seg hseg => ?_, hpassed' ▸ h.passed, c', honly',
      haddr'.trans haddr, hkey'.trans hkey, hplain', hnext'.trans hnext,
      Or.inr ⟨hstate', hreply.trans (congrArg some hexpected'.symm)⟩⟩, Or.inr rfl⟩
    obtain heq | heq := hsent
    · exact h.sent seg (heq ▸ hseg)
    · rw [heq] at hseg
      obtain hseg | hseg := List.mem_append.mp hseg
      · exact h.sent seg hseg
      · exact ⟨c, hkey, Or.inr ⟨List.mem_singleton.mp hseg, hnext, hreply⟩⟩

/-! ### Runs -/

/-- What holds in every state: the two sides fit together until the active one closes, and if
there was no memory for the active open nothing ever happens. -/
def LinkInvariant (conn : ℕ) (l : Link) : Prop :=
  (∃ key start reply, ClientSide conn key start reply l.client ∧
    ServerSide key start reply l.server) ∨
  Closed conn l.client ∨ (Idle l.client ∧ Idle l.server)

/-- Two hosts that have sent nothing stay as they are. -/
theorem Idle.next (h : Idle s) {peer : TcpStack} (hpeer : Idle peer) {input : LinkInput}
    (hs : input.next peer s = .ok s') : Idle s' := by
  cases input with
  | arrival i =>
      rw [LinkInput.next, hpeer.silent] at hs
      exact Except.ok.inj hs ▸ h
  | checkTimers =>
      exact Except.ok.inj ((checkTcpTimers_nil h.timers).symm.trans hs) ▸ h
  | tick ticks => exact Except.ok.inj hs ▸ ⟨h.connections, h.timers, h.silent⟩

theorem ClientSide.next (h : ClientSide conn key start reply s) {peer : TcpStack}
    (hpeer : ServerSide key start reply peer) {input : LinkInput} (hlate : input.NotLate peer s)
    (hs : input.next peer s = .ok s') :
    (∃ reply', ClientSide conn key start reply' s' ∧ (reply = none ∨ reply' = reply)) ∨
      Closed conn s' := by
  obtain ⟨c, honly, hc⟩ := h.only
  cases input with
  | arrival i =>
      rw [LinkInput.next] at hs
      cases hseg : peer.sent[i]? with
      | none =>
          rw [hseg] at hs
          exact Or.inl ⟨reply, Except.ok.inj hs ▸ h, Or.inr rfl⟩
      | some seg =>
          rw [hseg] at hs
          exact h.arrival (hpeer.sent seg (List.mem_of_getElem? hseg)) (hlate seg hseg) hs
  | checkTimers =>
      rw [← Except.ok.inj ((checkTcpTimers_nil honly.timers).symm.trans hs)]
      exact Or.inl ⟨reply, h, Or.inr rfl⟩
  | tick ticks =>
      obtain rfl := Except.ok.inj hs
      exact Or.inl ⟨reply, ⟨h.sent, h.passed, c, ⟨honly.list, honly.timers⟩, hc⟩, Or.inr rfl⟩

theorem ServerSide.next (h : ServerSide key start reply s) {peer : TcpStack}
    (hpeer : ClientSide conn key start reply peer) {input : LinkInput}
    (hlate : input.NotLate peer s) (hs : input.next peer s = .ok s') :
    ServerSide key start reply s' := by
  cases input with
  | arrival i =>
      rw [LinkInput.next] at hs
      cases hseg : peer.sent[i]? with
      | none =>
          rw [hseg] at hs
          exact Except.ok.inj hs ▸ h
      | some seg =>
          rw [hseg] at hs
          exact h.arrival (hpeer.sent seg (List.mem_of_getElem? hseg)) (hlate seg hseg) hs
  | checkTimers => exact h.checkTcpTimers hs
  | tick ticks => exact Except.ok.inj hs ▸ ⟨h.sent, h.shape⟩

/-- The step lemma. -/
theorem LinkInvariant.next {l l' : Link} (h : LinkInvariant conn l) {e : LinkEvent}
    (hlate : NoLateSyn l e) (hl : e.next l = .ok l') : LinkInvariant conn l' := by
  cases e with
  | client input =>
      obtain ⟨s', hs, rfl⟩ := map_eq_ok.mp hl
      obtain ⟨key, start, reply, hclient, hserver⟩ | hclosed | ⟨hclient, hserver⟩ := h
      · obtain ⟨reply', hclient', rfl | rfl⟩ | hclosed := hclient.next hserver hlate hs
        · exact Or.inl ⟨key, start, reply', hclient', hserver.established reply'⟩
        · exact Or.inl ⟨key, start, reply', hclient', hserver⟩
        · exact Or.inr (Or.inl hclosed)
      · exact Or.inr (Or.inl (hclosed.next hs))
      · exact Or.inr (Or.inr ⟨hclient.next hserver hs, hserver⟩)
  | server input =>
      obtain ⟨s', hs, rfl⟩ := map_eq_ok.mp hl
      obtain ⟨key, start, reply, hclient, hserver⟩ | hclosed | ⟨hclient, hserver⟩ := h
      · exact Or.inl ⟨key, start, reply, hclient, hserver.next hclient hlate hs⟩
      · exact Or.inr (Or.inl hclosed)
      · exact Or.inr (Or.inr ⟨hclient, hserver.next hclient hs⟩)

theorem idle_tcpListen (h : Idle s) (port : UInt16) : Idle (tcpListen s port) := by
  rw [tcpListen, TcpStack.malloc]
  cases s.mallocs.headD true with
  | false => exact ⟨h.connections, h.timers, h.silent⟩
  | true => exact ⟨h.connections, h.timers, h.silent⟩

/-- At the beginning only the SYN has been sent. -/
theorem linkInvariant_opened {client server : TcpStack} (hclient : Idle client)
    (hserver : Idle server) (stale : StaleBlock) (remoteIp : UInt32) (port : UInt16) :
    LinkInvariant client.nextAddr (.opened client server stale remoteIp port) := by
  have hlisten := idle_tcpListen hserver port
  obtain ⟨-, heq⟩ | ⟨-, c, t, x, hc, ht, hx, heq⟩ := tcpConnect_cases client stale remoteIp port
  · refine Or.inr (Or.inr ⟨?_, hlisten⟩)
    rw [Link.opened, heq]
    exact ⟨hclient.connections, hclient.timers, hclient.silent⟩
  have hxaddr : x.2.addr = client.nextAddr := by
    rw [hx, addr_tcpSendSegment, hc]
    rfl
  have hempty : Plain c := by
    rw [hc]
    exact fun e he => absurd he List.not_mem_nil
  refine Or.inl ⟨c.key, c.nextSeq, none, ?_, ?_⟩
  · rw [Link.opened, heq]
    refine ⟨fun seg hseg => ?_, ?_, x.2, ⟨?_, ?_⟩, hxaddr, ?_, ?_, ?_, Or.inl ⟨?_, rfl⟩⟩
    · rw [addConnection, hx, sent_tcpSendSegment, ht, hclient.silent, List.nil_append] at hseg
      exact ⟨c, rfl, Or.inl ⟨List.mem_singleton.mp hseg, rfl⟩⟩
    · rw [addConnection, hx, (frame_tcpSendSegment _ _ _ _ _).nextAddr, ht]
      exact Nat.lt_succ_self _
    · rw [addConnection, hx, connectionList_tcpSendSegment, ht, hclient.connections]
    · rw [addConnection, hx, activeTimers_tcpSendSegment, ht, hclient.timers]
    · rw [hx, tcpSendSegment_eq]
      rfl
    · rw [hx, tcpSendSegment_eq]
      exact hempty.afterSend _ _ _
    · rw [hx, nextSeq_tcpSendSegment]
      rfl
    · rw [hx, state_tcpSendSegment, hc]
      rfl
  · refine ⟨fun seg hseg => ?_, Or.inl ⟨hlisten.connections, hlisten.timers⟩⟩
    rw [Link.opened, hlisten.silent] at hseg
    exact absurd hseg List.not_mem_nil

theorem LinkInvariant.agrees {l : Link} (h : LinkInvariant conn l) : l.Agrees conn := by
  intro c hc d hd hconn _ hc' hd'
  obtain ⟨key, start, reply, hclient, hserver⟩ | hclosed | ⟨hclient, -⟩ := h
  · obtain ⟨c₀, honly, -, -, -, hnext, hphase⟩ := hclient.only
    rw [honly.list, List.mem_singleton] at hc
    subst hc
    obtain ⟨hnil, -⟩ | ⟨d₀, hlist, hblock⟩ := hserver.shape
    · rw [hnil] at hd
      exact absurd hd List.not_mem_nil
    rw [hlist, List.mem_singleton] at hd
    subst hd
    obtain ⟨hwait, -⟩ | ⟨-, hreply⟩ := hphase
    · rw [hc'] at hwait
      cases hwait
    obtain ⟨hwait, -⟩ | ⟨-, -, hreply'⟩ := hblock.phase
    · rw [hd'] at hwait
      cases hwait
    · exact ⟨Option.some.inj (hreply.symm.trans hreply'), hblock.expects.trans hnext.symm⟩
  · rw [hclosed.last c hc hconn] at hc'
    cases hc'
  · rw [hclient.connections] at hc
    exact absurd hc List.not_mem_nil

/-- **The two ends agree** in every state of every run in which no SYN comes late. -/
theorem agrees_of_noLateSyn (client server : TcpStack) (hclient : Idle client)
    (hserver : Idle server) (stale : StaleBlock) (remoteIp : UInt32) (port : UInt16) (l : Link)
    (h : Steps LinkEvent.next NoLateSyn (.opened client server stale remoteIp port) l) :
    l.Agrees client.nextAddr :=
  (h.invariant (linkInvariant_opened hclient hserver stale remoteIp port)
    fun _ _ _ hinv hlate hl => hinv.next hlate hl).agrees

/-- Two hosts that have just started; the one at 10.0.2.2 connects to port 8080 of the one at
10.0.2.15. -/
def newLink : Link :=
  .opened (.boot 0 0x0A000202 none []) (.boot 7 0x0A00020F none []) .zero 0x0A00020F 8080

/-- SYN, SYN-ACK and ACK arrive in order. -/
def threeWay : List LinkEvent := [.server (.arrival 0), .client (.arrival 0), .server (.arrival 1)]

/-- Both ends are in `TCP_ESTABLISHED`. -/
def Link.bothEstablished (l : Link) : Bool :=
  l.client.connectionList.any (·.state == .established) &&
    l.server.connectionList.any (·.state == .established)

theorem agrees_of_noLateSyn_threeWay :
    ∃ l, Steps LinkEvent.next NoLateSyn newLink l ∧ l.bothEstablished = true ∧ l.Agrees 1 := by
  obtain ⟨l, hrun, hboth⟩ := exists_eq_ok_of_any (p := Link.bothEstablished)
    (x := threeWay.foldlM (fun l e => if NoLateSyn l e then e.next l else .error .wildPointer)
      newLink) (by decide +kernel)
  have hsteps := Steps.of_checked _ hrun
  exact ⟨l, hsteps, hboth, agrees_of_noLateSyn (.boot 0 0x0A000202 none [])
    (.boot 7 0x0A00020F none []) ⟨rfl, rfl, rfl⟩ ⟨rfl, rfl, rfl⟩ .zero 0x0A00020F 8080 l hsteps⟩

/-- The SYN-ACK arrives twice. -/
theorem agrees_violated : ¬ ∀ l, Steps LinkEvent.next (fun _ _ => True) newLink l → l.Agrees 1 := by
  intro hall
  obtain ⟨l, hrun, hdisagree⟩ := exists_eq_ok_of_any (p := fun l : Link => !decide (l.Agrees 1))
    (x := (threeWay ++ [LinkEvent.client (.arrival 0)]).foldlM LinkEvent.next newLink)
    (by decide +kernel)
  simp only [hall l (Steps.of_foldlM hrun), decide_true, Bool.not_true] at hdisagree
  cases hdisagree

end HalOS
