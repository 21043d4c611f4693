import HalOS.Net.TcpListed
import HalOS.Net.TcpReceived

/-!
# Closing a Served Connection

`handle_wait_for_ack_state` frees a connection when the response is acknowledged and sends no FIN.
The only FIN that such a connection can have sent before is the one that `check_tcp_timers` puts in
the place of a SYN-ACK that it means to repeat.

## Main results

* `finSent_iff_mem_repeated`: exactly those connections were closed by a FIN whose handshake had
  run into its timer.
-/

namespace HalOS

open Outcome (Steps bind_eq_ok exists_eq_ok_of_any)

/-! ### What is logged -/

/-- A segment with FIN was transmitted for the connection. -/
def FinSent (s : TcpStack) (conn : ℕ) : Prop :=
  ∃ seg ∈ s.sent, seg.owner = conn ∧ hasFlag seg.flags tcpFin = true

instance (s : TcpStack) (conn : ℕ) : Decidable (FinSent s conn) :=
  inferInstanceAs (Decidable (∃ seg ∈ s.sent, _))

/-- The connections of the timers that have counted a retry. -/
def retried (timers : List TcpTimer) : List ℕ :=
  (timers.filter fun t => t.retries ≠ 0).map (·.conn)

/-- The connection for which a caller of `tcp_send_segment` sends a FIN. -/
def finCalled : TcpEvent → List ℕ
  | .send conn flags _ _ => if hasFlag flags tcpFin then [conn] else []
  | _ => []

/-- The stack, with the connections one of whose timers has counted a retry in some state so far,
and those for which a caller has sent a FIN. -/
structure RecordedStack where
  stack : TcpStack
  repeated : List ℕ
deriving DecidableEq, Repr

/-- The state after an event. -/
def RecordedStack.next (h : RecordedStack) (e : TcpEvent) : Except Fault RecordedStack := do
  let s ← e.next h.stack
  .ok { stack := s, repeated := h.repeated ++ (finCalled e ++ retried s.activeTimers) }

/-- The connection that `handle_wait_for_ack_state` removes when the event is next. -/
def completed (s : TcpStack) : TcpEvent → Option TcpConnection
  | .segment srcIp dstIp bytes _ =>
      let tcp := TcpHeader.parse bytes
      if tcp.dataOffset >>> 4 < 5 ∨ hasFlag tcp.flags tcpRst = true then none
      else
        (findConnection s srcIp tcp.srcPort dstIp tcp.destPort).filter fun c =>
          c.state == .waitForAck &&
            (handleWaitForAckState s c.addr tcp).toOption.any fun s' => !s'.addrs.contains c.addr
  | _ => none

/-- The states in which a connection has not been closed by the peer. -/
def TcpState.isOpen : TcpState → Bool
  | synSent | synReceived | established | waitForAck => true
  | _ => false

variable {s s' t : TcpStack} {c c' d : TcpConnection} {r r' : List ℕ}

/-! ### One connection -/

/-- As long as the connection is open, a FIN was sent for it exactly if it is in the record, and
only then its queue has one. -/
structure Tracks (s : TcpStack) (r : List ℕ) (c : TcpConnection) : Prop where
  fin : c.state.isOpen = true → (FinSent s c.addr ↔ c.addr ∈ r)
  queue : c.state.isOpen = true →
    ∀ e ∈ c.retransmitQueue, hasFlag e.flags tcpFin = true → c.addr ∈ r

theorem Tracks.congr (h : Tracks s r c) (hsent : s'.sent = s.sent)
    (hmem : c.addr ∈ r' ↔ c.addr ∈ r) : Tracks s' r' c where
  fin := fun hopen => by rw [FinSent, hsent, hmem]; exact h.fin hopen
  queue := fun hopen e he hfin => hmem.mpr (h.queue hopen e he hfin)

/-- Fields are assigned, and entries dropped. -/
theorem Tracks.assign (h : Tracks s r c) (haddr : c'.addr = c.addr)
    (hopen : c'.state.isOpen = true → c.state.isOpen = true)
    (hqueue : ∀ e ∈ c'.retransmitQueue, ∃ e' ∈ c.retransmitQueue, e'.flags = e.flags) :
    Tracks s r c' where
  fin := fun hstate => by rw [haddr]; exact h.fin (hopen hstate)
  queue := fun hstate e he hfin => by
    obtain ⟨e', he', heq⟩ := hqueue e he
    rw [haddr]
    exact h.queue (hopen hstate) e' he' (heq ▸ hfin)

theorem finSent_tcpSendSegment (s : TcpStack) (c : TcpConnection) (flags : UInt8)
    (data : List UInt8) (dataLen : UInt16) (conn : ℕ) :
    FinSent (tcpSendSegment s c flags data dataLen).1 conn ↔
      FinSent s conn ∨ (c.addr = conn ∧ hasFlag flags tcpFin = true) := by
  rw [FinSent, sent_tcpSendSegment, FinSent]
  simp only [List.mem_append, List.mem_singleton, or_and_right, exists_or, exists_eq_left]
  rfl

/-- A segment with FIN that is sent for a connection in the record leaves it in order. -/
theorem Tracks.of_fin (hfin : FinSent s c.addr) (hmem : c.addr ∈ r) : Tracks s r c :=
  ⟨fun _ => iff_of_true hfin hmem, fun _ _ _ _ => hmem⟩

/-- The connection `c` is held while the rest of the stack stays in place. -/
structure Carries (r : List ℕ) (s : TcpStack) (c : TcpConnection) (s' : TcpStack)
    (c' : TcpConnection) : Prop where
  addr : c'.addr = c.addr
  state : c'.state = .synSent → c.state = .synSent
  list : s'.connectionList = s.connectionList
  nextAddr : s'.nextAddr = s.nextAddr
  timers : ∃ started, s'.activeTimers = started ++ s.activeTimers ∧
    ∀ t ∈ started, t.conn = c.addr ∧ t.retries = 0
  sent : ∀ seg ∈ s'.sent, seg ∈ s.sent ∨ seg.owner = c.addr
  own : Tracks s r c → Tracks s' r c'
  other : ∀ d, d.addr ≠ c.addr → Tracks s r d → Tracks s' r d

namespace Carries

theorem trans (h : Carries r s c s' c') {d : TcpConnection} (h' : Carries r s' c' t d) :
    Carries r s c t d where
  addr := h'.addr.trans h.addr
  state := fun hd => h.state (h'.state hd)
  list := h'.list.trans h.list
  nextAddr := h'.nextAddr.trans h.nextAddr
  timers := by
    obtain ⟨started, heq, hall⟩ := h.timers
    obtain ⟨started', heq', hall'⟩ := h'.timers
    refine ⟨started' ++ started, by rw [heq', heq, List.append_assoc], fun t ht => ?_⟩
    obtain ht | ht := List.mem_append.mp ht
    · exact ⟨(hall' t ht).1.trans h.addr, (hall' t ht).2⟩
    · exact hall t ht
  sent := fun seg hseg => (h'.sent seg hseg).elim (h.sent seg) fun hown =>
    Or.inr (hown.trans h.addr)
  own := fun hc => h'.own (h.own hc)
  other := fun e hne he => h'.other e (fun heq => hne (heq.trans h.addr)) (h.other e hne he)

/-- Only the block changes. -/
theorem assign (haddr : c'.addr = c.addr) (hstate : c'.state = .synSent → c.state = .synSent)
    (hopen : c'.state.isOpen = true → c.state.isOpen = true)
    (hqueue : ∀ e ∈ c'.retransmitQueue, ∃ e' ∈ c.retransmitQueue, e'.flags = e.flags) :
    Carries r s c s c' where
  addr := haddr
  state := hstate
  list := rfl
  nextAddr := rfl
  timers := ⟨[], rfl, fun _ ht => absurd ht List.not_mem_nil⟩
  sent := fun _ hseg => Or.inl hseg
  own := fun h => h.assign haddr hopen hqueue
  other := fun _ _ h => h

/-- Fields other than the state and the queue are assigned. -/
theorem assign_fields (haddr : c'.addr = c.addr) (hstate : c'.state = c.state)
    (hqueue : c'.retransmitQueue = c.retransmitQueue) : Carries r s c s c' :=
  assign haddr (fun h => hstate ▸ h) (fun h => hstate ▸ h) fun e he => ⟨e, hqueue ▸ he, rfl⟩

/-- Only the stack changes, and not its log. -/
theorem of_sent_eq (hlist : s'.connectionList = s.connectionList)
    (hnext : s'.nextAddr = s.nextAddr) (hsent : s'.sent = s.sent)
    (htimers : ∃ started, s'.activeTimers = started ++ s.activeTimers ∧
      ∀ t ∈ started, t.conn = c.addr ∧ t.retries = 0) :
    Carries r s c s' c where
  addr := rfl
  state := id
  list := hlist
  nextAddr := hnext
  timers := htimers
  sent := fun _ hseg => Or.inl (hsent ▸ hseg)
  own := fun h => h.congr hsent Iff.rfl
  other := fun _ _ h => h.congr hsent Iff.rfl

theorem refl (r : List ℕ) (s : TcpStack) (c : TcpConnection) : Carries r s c s c :=
  assign_fields rfl rfl rfl

/-- A segment is sent. If it has FIN, an open connection is in the record. -/
theorem send {flags : UInt8} {data : List UInt8} {dataLen : UInt16}
    {x : TcpStack × TcpConnection} (hx : x = tcpSendSegment s c flags data dataLen)
    (hfin : hasFlag flags tcpFin = true → c.state.isOpen = true → Tracks s r c → c.addr ∈ r) :
    Carries r s c x.1 x.2 where
  addr := by rw [hx, addr_tcpSendSegment]
  state := by rw [hx, state_tcpSendSegment]; exact id
  list := by rw [hx, connectionList_tcpSendSegment]
  nextAddr := by rw [hx, (frame_tcpSendSegment _ _ _ _ _).nextAddr]
  timers := by
    rw [hx, activeTimers_tcpSendSegment]
    exact ⟨[], rfl, fun _ ht => absurd ht List.not_mem_nil⟩
  sent := by
    intro seg hseg
    rw [hx, sent_tcpSendSegment, List.mem_append, List.mem_singleton] at hseg
    obtain hold | rfl := hseg
    · exact Or.inl hold
    · exact Or.inr rfl
  own := by
    intro h
    refine ⟨fun hopen => ?_, fun hopen e he heflags => ?_⟩
    · rw [hx, state_tcpSendSegment] at hopen
      rw [hx, addr_tcpSendSegment, finSent_tcpSendSegment, h.fin hopen]
      exact ⟨fun hor => hor.elim id fun hflags => hfin hflags.2 hopen h, Or.inl⟩
    · rw [hx, state_tcpSendSegment] at hopen
      rw [hx, tcpSendSegment_eq, TcpConnection.afterSend] at he
      rw [hx, addr_tcpSendSegment]
      dsimp only at he
      split_ifs at he
      · obtain rfl | he := List.mem_cons.mp he
        · exact hfin heflags hopen h
        · exact h.queue hopen e he heflags
      · exact h.queue hopen e he heflags
  other := by
    intro d hne h
    refine ⟨fun hopen => ?_, h.queue⟩
    rw [hx, finSent_tcpSendSegment, h.fin hopen]
    exact or_iff_left fun hown => hne hown.1.symm

/-- A segment without FIN is sent. -/
theorem send_plain {flags : UInt8} {data : List UInt8} {dataLen : UInt16}
    {x : TcpStack × TcpConnection} (hx : x = tcpSendSegment s c flags data dataLen)
    (hflags : hasFlag flags tcpFin = false) : Carries r s c x.1 x.2 :=
  send hx fun hfin => absurd (hflags.symm.trans hfin) Bool.false_ne_true

end Carries

/-! ### The parts of the handlers -/

theorem carries_fastRetransmit {ack : UInt32} {x : TcpStack × TcpConnection}
    (h : fastRetransmit s c ack = .ok x) : Carries r s c x.1 x.2 := by
  obtain ⟨-, heq, heq'⟩ | ⟨-, -, heq, heq'⟩ | ⟨-, -, e, es, hq, heq⟩ :=
    @fastRetransmit_eq_ok _ x.1 _ x.2 _ h
  · rw [heq, heq']
    exact Carries.refl r s c
  · rw [heq, heq']
    exact Carries.assign_fields rfl rfl rfl
  · refine Carries.trans ?_ (Carries.send_plain (x := x) heq rfl)
    exact Carries.assign_fields rfl rfl rfl

theorem carries_startRetransmissionTimer (s : TcpStack) (c : TcpConnection) (timeoutMs : UInt32) :
    Carries r s c (startRetransmissionTimer s c.addr timeoutMs) c := by
  rw [startRetransmissionTimer, TcpStack.malloc]
  cases s.mallocs.headD true with
  | false => exact Carries.of_sent_eq rfl rfl rfl ⟨[], rfl, fun _ ht => absurd ht List.not_mem_nil⟩
  | true =>
      refine Carries.of_sent_eq rfl rfl rfl ⟨[_], rfl, fun t ht => ?_⟩
      rw [List.mem_singleton.mp ht]
      exact ⟨rfl, rfl⟩

theorem carries_malloc (s : TcpStack) (c : TcpConnection) : Carries r s c s.malloc.2 c :=
  Carries.of_sent_eq rfl rfl rfl ⟨[], rfl, fun _ ht => absurd ht List.not_mem_nil⟩

theorem carries_handleHttpRequest (hstate : c.state.isOpen = true) :
    Carries r s c (handleHttpRequest s c).1
      { (handleHttpRequest s c).2 with state := .waitForAck } := by
  obtain ⟨-, x, hx, heq⟩ | ⟨file, -, -, heq⟩ | ⟨file, -, -, x, y, hx, hy, heq⟩ :=
    handleHttpRequest_cases s c
  · rw [heq]
    refine (Carries.send_plain hx rfl).trans ?_
    refine Carries.assign rfl nofun (fun _ => ?_) fun e he => ⟨e, he, rfl⟩
    rw [hx, state_tcpSendSegment]
    exact hstate
  · rw [heq]
    have hmalloc : Carries r s c s.malloc.2 c :=
      carries_malloc s c
    refine hmalloc.trans ?_
    exact Carries.assign rfl nofun (fun _ => hstate) fun e he => ⟨e, he, rfl⟩
  · rw [heq]
    have hmalloc : Carries r s c s.malloc.2 c :=
      carries_malloc s c
    have hsends := (hmalloc.trans (Carries.send_plain hx rfl)).trans (Carries.send_plain hy rfl)
    refine (hsends.trans (carries_startRetransmissionTimer y.1 y.2 retransmitTimeout)).trans ?_
    refine Carries.assign rfl nofun (fun _ => ?_) fun e he => ⟨e, he, rfl⟩
    rw [hy, state_tcpSendSegment, hx, state_tcpSendSegment]
    exact hstate

theorem carries_receiveData (hstate : c.state.isOpen = true) {seq : UInt32} {payload : List UInt8}
    {dataLen : UInt16} {x : TcpStack × TcpConnection}
    (h : receiveData s c seq payload dataLen = .ok x) : Carries r s c x.1 x.2 := by
  obtain ⟨-, heq, heq'⟩ | ⟨-, -, y, rfl, heq, heq'⟩ | ⟨-, -, -, heq⟩ :=
    @receiveData_eq_ok _ x.1 _ x.2 _ _ _ h
  · rw [heq, heq']
    exact Carries.refl r s c
  · rw [heq, heq']
    refine Carries.trans ?_ (carries_handleHttpRequest hstate)
    exact Carries.assign_fields rfl rfl rfl
  · refine Carries.trans ?_ (Carries.send_plain (x := x) heq rfl)
    exact Carries.assign_fields rfl rfl rfl

/-- A FIN from the peer is answered by one, and the connection is not open any more. -/
theorem carries_handleFin (s : TcpStack) (c : TcpConnection) (flags : UInt8) :
    Carries r s c (handleFin s c flags).1 (handleFin s c flags).2 := by
  rw [handleFin]
  split_ifs
  · dsimp only
    generalize hx : tcpSendSegment s
      { c with expectedAck := c.expectedAck + 1, state := .closeWait } tcpAck [] 0 = x
    generalize hy : tcpSendSegment x.1 x.2 (tcpFin ||| tcpAck) [] 0 = y
    have hstate : x.2.state = .closeWait := by rw [← hx, state_tcpSendSegment]
    have hclosed : y.2.state = .closeWait := by rw [← hy, state_tcpSendSegment, hstate]
    have hend : Carries r y.1 y.2 y.1 { y.2 with state := .lastAck } :=
      Carries.assign rfl (by rintro ⟨⟩) (by rintro ⟨⟩) fun e he => ⟨e, he, rfl⟩
    refine Carries.trans ?_ ((Carries.trans (Carries.send_plain hx.symm rfl)
      (Carries.send hy.symm fun _ hopen => ?_)).trans hend)
    · exact Carries.assign rfl (by rintro ⟨⟩) (by rintro ⟨⟩) fun e he => ⟨e, he, rfl⟩
    · rw [hstate] at hopen
      cases hopen
  · exact Carries.refl r s c

theorem carries_processAck {seq ack : UInt32} {dataLen : UInt16}
    (h : processAck c seq ack dataLen = .ok c') : Carries r s c s c' := by
  obtain ⟨-, rfl⟩ := processAck_eq_ok.mp h
  exact Carries.assign rfl id id fun e he => ⟨e, (List.mem_filter.mp he).1, rfl⟩

theorem state_fastRetransmit {ack : UInt32} {x : TcpStack × TcpConnection}
    (h : fastRetransmit s c ack = .ok x) : x.2.state = c.state := by
  obtain ⟨-, -, heq⟩ | ⟨-, -, -, heq⟩ | ⟨-, -, e, es, -, heq⟩ :=
    @fastRetransmit_eq_ok _ x.1 _ x.2 _ h
  · rw [heq]
  · rw [heq]
  · rw [(Prod.ext_iff.mp heq).2, state_tcpSendSegment]

/-- The handler of `TCP_ESTABLISHED`, once the timers have been checked. -/
theorem carries_established {tcp : TcpHeader} {bytes : ℕ → UInt8} {len : UInt16}
    (hstate : c.state = .established) {x y z : TcpStack × TcpConnection}
    (hfast : fastRetransmit s (reestablish c tcp.seq tcp.ack) tcp.ack = .ok x)
    (hack : processAck x.2 tcp.seq tcp.ack (len - tcp.headerLen) = .ok c')
    (hy : y = if tcp.seq ≠ c'.expectedAck then tcpSendSegment x.1 c' tcpAck [] 0 else (x.1, c'))
    (hdata : receiveData y.1 y.2 tcp.seq
      (bytesAt bytes tcp.headerLen.toNat (len - tcp.headerLen).toNat)
      (len - tcp.headerLen) = .ok z) :
    Carries r s c (handleFin z.1 z.2 tcp.flags).1 (handleFin z.1 z.2 tcp.flags).2 := by
  rw [reestablish_of_established hstate] at hfast
  have hack' : c'.state = .established := by
    obtain ⟨-, rfl⟩ := processAck_eq_ok.mp hack
    exact (state_fastRetransmit hfast).trans hstate
  have hreply : Carries r x.1 c' y.1 y.2 ∧ y.2.state = .established := by
    split_ifs at hy
    · exact ⟨Carries.send_plain hy rfl, by rw [hy, state_tcpSendSegment, hack']⟩
    · rw [hy]
      exact ⟨Carries.refl _ _ _, hack'⟩
  have hopen : y.2.state.isOpen = true := by rw [hreply.2]; rfl
  exact ((((carries_fastRetransmit hfast).trans (carries_processAck hack)).trans hreply.1).trans
    (carries_receiveData hopen hdata)).trans (carries_handleFin z.1 z.2 tcp.flags)

/-! ### The timer check -/

theorem mem_retried {timers : List TcpTimer} {a : ℕ} :
    a ∈ retried timers ↔ ∃ t ∈ timers, t.retries ≠ 0 ∧ t.conn = a := by
  simp [retried, and_assoc]

/-- Everything but the timers. -/
structure Recorded (s : TcpStack) (r : List ℕ) (timers : List TcpTimer) : Prop where
  addressed : Addressed s
  known : ∀ t ∈ timers, t.conn < s.nextAddr
  quiet : ∀ t ∈ timers, ∀ c ∈ s.connectionList, c.addr = t.conn → c.state ≠ .synSent
  owners : ∀ seg ∈ s.sent, seg.owner < s.nextAddr
  tracks : ∀ c ∈ s.connectionList, Tracks s r c

/-- Timers of the same connections, and a record with the same connections of the list. -/
theorem Recorded.congr {timers timers' : List TcpTimer} (h : Recorded s r timers)
    (hsub : ∀ t ∈ timers', ∃ u ∈ timers, u.conn = t.conn)
    (hmem : ∀ c ∈ s.connectionList, (c.addr ∈ r' ↔ c.addr ∈ r)) : Recorded s r' timers' where
  addressed := h.addressed
  known := by
    intro t ht
    obtain ⟨u, hu, heq⟩ := hsub t ht
    exact heq ▸ h.known u hu
  quiet := by
    intro t ht
    obtain ⟨u, hu, heq⟩ := hsub t ht
    exact heq ▸ h.quiet u hu
  owners := h.owners
  tracks := fun c hc => (h.tracks c hc).congr rfl (hmem c hc)

theorem Recorded.timers {timers : List TcpTimer} (h : Recorded s r timers)
    (active : List TcpTimer) : Recorded { s with activeTimers := active } r timers where
  addressed := h.addressed.frame (frame_timers s active)
  known := h.known
  quiet := h.quiet
  owners := h.owners
  tracks := fun c hc => (h.tracks c hc).congr rfl Iff.rfl

/-- A block is written back. -/
theorem Recorded.write {timers : List TcpTimer} (h : Recorded s r timers)
    (hc : c ∈ s.connectionList) (hcarries : Carries r s c s' c') :
    Recorded (s'.setConn c') r timers where
  addressed := by
    refine h.addressed.sublist ?_ hcarries.nextAddr
    rw [map_addr_setConn, hcarries.list]
  known := fun t ht => hcarries.nextAddr ▸ h.known t ht
  quiet := by
    intro t ht d hd heq
    obtain rfl | ⟨hmem, -⟩ := mem_setConn_iff_ne hd
    · exact fun hsyn => h.quiet t ht c hc (hcarries.addr ▸ heq) (hcarries.state hsyn)
    · exact h.quiet t ht d (hcarries.list ▸ hmem) heq
  owners := by
    intro seg hseg
    have hnext : (s'.setConn c').nextAddr = s.nextAddr := hcarries.nextAddr
    rw [hnext]
    obtain hold | hown := hcarries.sent seg hseg
    · exact h.owners seg hold
    · exact hown ▸ (h.addressed.bound c hc).2
  tracks := by
    intro d hd
    obtain rfl | ⟨hmem, hne⟩ := mem_setConn_iff_ne hd
    · exact (hcarries.own (h.tracks c hc)).congr rfl Iff.rfl
    · rw [hcarries.addr] at hne
      exact (hcarries.other d hne (h.tracks d (hcarries.list ▸ hmem))).congr rfl Iff.rfl

/-- A FIN is sent, and the connection comes into the record. -/
theorem Recorded.fin {timers : List TcpTimer} (h : Recorded s r timers) (hc : c ∈ s.connectionList)
    {flags : UInt8} {data : List UInt8} {dataLen : UInt16} {x : TcpStack × TcpConnection}
    (hx : x = tcpSendSegment s c flags data dataLen) (hflags : hasFlag flags tcpFin = true)
    (hmem : ∀ a, a ∈ r' ↔ a ∈ r ∨ a = c.addr) : Recorded (x.1.setConn x.2) r' timers where
  addressed := h.addressed.frame (frame_sendBack hx x.2)
  known := by
    intro t ht
    rw [(frame_sendBack hx x.2).nextAddr]
    exact h.known t ht
  quiet := by
    intro t ht d hd heq
    obtain rfl | ⟨hlist, -⟩ := mem_setConn_iff_ne hd
    · rw [hx, state_tcpSendSegment]
      rw [hx, addr_tcpSendSegment] at heq
      exact h.quiet t ht c hc heq
    · rw [hx, connectionList_tcpSendSegment] at hlist
      exact h.quiet t ht d hlist heq
  owners := by
    intro seg hseg
    have hlog : (x.1.setConn x.2).sent = x.1.sent := rfl
    rw [(frame_sendBack hx x.2).nextAddr]
    rw [hlog, hx, sent_tcpSendSegment, List.mem_append, List.mem_singleton] at hseg
    obtain hold | rfl := hseg
    · exact h.owners seg hold
    · exact (h.addressed.bound c hc).2
  tracks := by
    intro d hd
    have hsent : (x.1.setConn x.2).sent = x.1.sent := rfl
    obtain rfl | ⟨hlist, hne⟩ := mem_setConn_iff_ne hd
    · refine Tracks.of_fin ?_ ((hmem _).mpr (Or.inr (by rw [hx, addr_tcpSendSegment])))
      rw [FinSent, hsent, hx, ← FinSent, finSent_tcpSendSegment, addr_tcpSendSegment]
      exact Or.inr ⟨rfl, hflags⟩
    · rw [hx, addr_tcpSendSegment] at hne
      rw [hx, connectionList_tcpSendSegment] at hlist
      have hother : Tracks x.1 r d := by
        refine ⟨fun hopen => ?_, (h.tracks d hlist).queue⟩
        rw [hx, finSent_tcpSendSegment, (h.tracks d hlist).fin hopen]
        exact or_iff_left fun hown => hne hown.1.symm
      refine hother.congr hsent ?_
      rw [hmem]
      exact or_iff_left hne

/-- A block is freed. -/
theorem Recorded.free {timers : List TcpTimer} (h : Recorded s r timers)
    (hs : freeConnection s c = .ok s') :
    Recorded s' r timers ∧ ∀ d ∈ s'.connectionList, d.addr ≠ c.addr := by
  have hframe := frame_freeConnection hs
  obtain ⟨-, rfl⟩ := freeConnection_eq_ok.mp hs
  refine ⟨⟨h.addressed.frame hframe, h.known, fun t ht d hd => ?_, h.owners, fun d hd => ?_⟩,
    fun d hd => ?_⟩
  · exact h.quiet t ht d (List.mem_filter.mp hd).1
  · exact (h.tracks d (List.mem_filter.mp hd).1).congr rfl Iff.rfl
  · exact bne_iff_ne.mp (List.mem_filter.mp hd).2

theorem mem_retried_singleton {timer : TcpTimer} {a : ℕ} :
    a ∈ retried [timer] ↔ timer.retries ≠ 0 ∧ timer.conn = a := by
  simp [mem_retried]

theorem retried_append (timers timers' : List TcpTimer) :
    retried (timers ++ timers') = retried timers ++ retried timers' := by
  rw [retried, List.filter_append, List.map_append]
  rfl

/-- A timer moves on whose retries are recorded. -/
theorem mem_append_retried_concat (kept : List TcpTimer) {timer : TcpTimer}
    (h : timer.retries ≠ 0 → timer.conn ∈ r) (a : ℕ) :
    a ∈ r ++ retried (kept ++ [timer]) ↔ a ∈ r ++ retried kept := by
  rw [retried_append, ← List.append_assoc, List.mem_append]
  refine or_iff_left_of_imp fun hmem => List.mem_append_left _ ?_
  obtain ⟨hretries, rfl⟩ := mem_retried_singleton.mp hmem
  exact h hretries

/-- The timers of a connection that is freed are the only ones that go from those before `pp`. -/
theorem mem_retried_eraseIdx {kept : List TcpTimer} {i conn a : ℕ}
    (hi : (kept.findIdx? fun t => t.conn == conn) = some i) (hne : a ≠ conn) :
    a ∈ retried (kept.eraseIdx i) ↔ a ∈ retried kept := by
  have herase : kept.eraseIdx i = kept.eraseP fun t => t.conn == conn := by
    rw [List.eraseP_eq_eraseIdx, hi]
  rw [herase, mem_retried, mem_retried]
  refine exists_congr fun t => and_congr_left fun ht => List.mem_eraseP_of_neg ?_
  rw [ht.2, beq_iff_eq]
  exact hne

/-- A count that has not come to its limit does not wrap. -/
theorem succ_retries_ne_zero {n : UInt8} (h : n < maxSynRetries) : n + 1 ≠ 0 := by
  intro hzero
  have hnat : (n.toNat + 1) % 2 ^ 8 = 0 := congrArg UInt8.toNat hzero
  have hlt : n.toNat < 5 := h
  omega

/-- The loop of the timer check. Those before `pp` that have counted a retry have sent their
FIN. -/
theorem TimerLoop.recorded {kept rest : List TcpTimer} (hloop : TimerLoop kept rest s s')
    (h : Recorded s (r ++ retried kept) (kept ++ rest))
    (hold : ∀ t ∈ rest, t.retries ≠ 0 → t.conn ∈ r) :
    Recorded s' (r ++ retried s'.activeTimers) s'.activeTimers := by
  induction hloop with
  | done =>
      rw [List.append_nil] at h
      exact h.timers _
  | @running kept rest timer s s' c _ _ _ ih =>
      obtain ⟨htimer, hrest⟩ := List.forall_mem_cons.mp hold
      refine ih (h.congr (fun t ht => ⟨t, ?_, rfl⟩) fun c _ =>
        mem_append_retried_concat kept htimer c.addr) hrest
      rwa [List.append_assoc] at ht
  | @again kept rest timer timer' s u s' c hc _ hretry _ ih =>
      obtain ⟨htimer, hrest⟩ := List.forall_mem_cons.mp hold
      obtain ⟨hcmem, hcaddr⟩ := deref_eq_ok hc
      have hsub (htimer : timer'.conn = timer.conn) :
          ∀ t ∈ kept ++ [timer'] ++ rest, ∃ v ∈ kept ++ timer :: rest, v.conn = t.conn := by
        intro t ht
        rw [List.append_assoc, List.singleton_append] at ht
        obtain ht | ht := List.mem_append.mp ht
        · exact ⟨t, List.mem_append_left _ ht, rfl⟩
        obtain rfl | ht := List.mem_cons.mp ht
        · exact ⟨timer, List.mem_append_right _ List.mem_cons_self, htimer.symm⟩
        · exact ⟨t, List.mem_append_right _ (List.mem_cons_of_mem _ ht), rfl⟩
      obtain ⟨e, es, -, hq, -, x, hx, rfl, htimer'⟩ | ⟨-, hleft, x, hx, rfl, htimer'⟩ :=
        retransmitOnTimer_eq_some hretry
      · -- an ACK with the entry's data
        have hcarries : Carries (r ++ retried kept) s c x.1 x.2 := by
          refine Carries.trans ?_ (Carries.send_plain hx rfl)
          refine Carries.assign rfl id id fun d hd => ?_
          rw [hq]
          obtain rfl | hd := List.mem_cons.mp hd
          · exact ⟨e, List.mem_cons_self, rfl⟩
          · exact ⟨d, List.mem_cons_of_mem _ hd, rfl⟩
        have hretries : timer'.retries ≠ 0 → timer'.conn ∈ r := by
          rw [htimer']
          exact htimer
        exact ih ((h.write hcmem hcarries).congr (hsub (by rw [htimer']))
          fun d _ => mem_append_retried_concat kept hretries d.addr) hrest
      · -- a FIN in the place of whatever was sent
        have hquiet : c.state ≠ .synSent :=
          h.quiet timer (List.mem_append_right _ List.mem_cons_self) c hcmem hcaddr
        rw [if_neg hquiet] at hx
        refine ih ((h.fin hcmem hx rfl fun a => ?_).congr (hsub (by rw [htimer']))
          fun _ _ => Iff.rfl) hrest
        rw [htimer', retried_append, ← List.append_assoc, List.mem_append,
          mem_retried_singleton, hcaddr]
        exact or_congr_right ⟨fun hor => hor.2.symm, fun heq =>
          ⟨succ_retries_ne_zero hleft, heq.symm⟩⟩
  | @unlinked kept rest timer s u s' c i _ _ _ hfree hfind _ ih =>
      obtain ⟨hrec, hothers⟩ := h.free hfree
      refine ih (hrec.congr (fun t ht => ⟨t, ?_, rfl⟩) fun d hd => ?_)
        (List.forall_mem_cons.mp hold).2
      · obtain ht | ht := List.mem_append.mp ht
        · exact List.mem_append_left _ (List.mem_of_mem_eraseIdx ht)
        · exact List.mem_append_right _ (List.mem_cons_of_mem _ ht)
      · rw [List.mem_append, List.mem_append, mem_retried_eraseIdx hfind (hothers d hd)]
  | @passedOver kept rest timer next s u s' c _ _ _ hfree _ _ ih =>
      obtain ⟨hrec, -⟩ := h.free hfree
      refine ih (hrec.congr (fun t ht => ⟨t, ?_, rfl⟩) fun _ _ => Iff.rfl)
        fun t ht => hold t (List.mem_cons_of_mem _ (List.mem_cons_of_mem _ ht))
      obtain ht | ht := List.mem_append.mp ht
      · exact List.mem_append_left _ ht
      · exact List.mem_append_right _ (List.mem_cons_of_mem _ (List.mem_cons_of_mem _ ht))

/-! ### Whole stacks -/

theorem startRetransmissionTimer_setConn (s : TcpStack) (c : TcpConnection) (conn : ℕ)
    (timeoutMs : UInt32) : startRetransmissionTimer (s.setConn c) conn timeoutMs =
      (startRetransmissionTimer s conn timeoutMs).setConn c := by
  have hmalloc : (s.setConn c).malloc = (s.malloc.1, s.malloc.2.setConn c) := rfl
  rw [startRetransmissionTimer, startRetransmissionTimer, hmalloc]
  generalize s.malloc = x
  obtain ⟨ok, t⟩ := x
  cases ok with
  | false => rfl
  | true => rfl

/-- The record of a run is in order. -/
structure FinHistory (r : List ℕ) (s : TcpStack) : Prop where
  recorded : Recorded s r s.activeTimers
  counted : ∀ t ∈ s.activeTimers, t.retries ≠ 0 → t.conn ∈ r
  old : ∀ a ∈ r, a < s.nextAddr

namespace FinHistory

theorem congr (h : FinHistory r s) (hmem : ∀ a, a ∈ r' ↔ a ∈ r) : FinHistory r' s where
  recorded := h.recorded.congr (fun t ht => ⟨t, ht, rfl⟩) fun c _ => hmem c.addr
  counted := fun t ht hretries => (hmem t.conn).mpr (h.counted t ht hretries)
  old := fun a ha => h.old a ((hmem a).mp ha)

/-- The retries that the timers have counted are in the record already. -/
theorem append (h : FinHistory r s) : FinHistory (r ++ retried s.activeTimers) s := by
  refine h.congr fun a => ?_
  rw [List.mem_append]
  refine or_iff_left_of_imp fun hmem => ?_
  obtain ⟨t, ht, hretries, rfl⟩ := mem_retried.mp hmem
  exact h.counted t ht hretries

/-- Nothing changes but the surroundings. -/
theorem same (h : FinHistory r s) (hlist : s'.connectionList = s.connectionList)
    (htimers : s'.activeTimers = s.activeTimers) (hsent : s'.sent = s.sent)
    (hnext : s'.nextAddr = s.nextAddr) : FinHistory r s' := by
  refine ⟨⟨h.recorded.addressed.sublist (by rw [hlist]) hnext, ?_, ?_, ?_, fun c hc => ?_⟩, ?_, ?_⟩
  · rw [htimers, hnext]
    exact h.recorded.known
  · rw [htimers, hlist]
    exact h.recorded.quiet
  · rw [hsent, hnext]
    exact h.recorded.owners
  · exact (h.recorded.tracks c (hlist ▸ hc)).congr hsent Iff.rfl
  · rw [htimers]
    exact h.counted
  · rw [hnext]
    exact h.old

/-- Some timers go. -/
theorem timers (h : FinHistory r s) {active : List TcpTimer}
    (hsub : ∀ t ∈ active, t ∈ s.activeTimers) : FinHistory r { s with activeTimers := active } where
  recorded := (h.recorded.timers active).congr (fun t ht => ⟨t, hsub t ht, rfl⟩) fun _ _ => Iff.rfl
  counted := fun t ht => h.counted t (hsub t ht)
  old := h.old

theorem cancel (h : FinHistory r s) (conn : ℕ) : FinHistory r (cancelRetransmissionTimer s conn) :=
  h.timers fun _ ht => List.mem_of_mem_eraseP ht

theorem remove (h : FinHistory r s) {conn : ℕ} (hs : removeConnection s conn = .ok s') :
    FinHistory r s' := by
  obtain ⟨c, -, hfree⟩ := bind_eq_ok.mp hs
  have hcancel := h.cancel conn
  have hrec := (hcancel.recorded.free hfree).1
  obtain ⟨-, rfl⟩ := freeConnection_eq_ok.mp hfree
  exact ⟨hrec, hcancel.counted, hcancel.old⟩

/-- A block is written back. Only a block whose SYN was answered may have got a timer. -/
theorem write (h : FinHistory r s) (hc : c ∈ s.connectionList) (hcarries : Carries r s c s' c')
    (hstate : c.state = .synSent → s'.activeTimers = s.activeTimers) :
    FinHistory r (s'.setConn c') := by
  obtain ⟨started, htimers, hstarted⟩ := hcarries.timers
  have hrec := h.recorded.write hc hcarries
  have hnext : (s'.setConn c').nextAddr = s.nextAddr := hcarries.nextAddr
  have hmem : ∀ t ∈ (s'.setConn c').activeTimers, t ∈ started ∨ t ∈ s.activeTimers := by
    intro t ht
    exact List.mem_append.mp (htimers ▸ ht)
  refine ⟨⟨hrec.addressed, fun t ht => ?_, fun t ht d hd heq hsyn => ?_, hrec.owners, hrec.tracks⟩,
    fun t ht hretries => ?_, fun a ha => hnext ▸ h.old a ha⟩
  · obtain hnew | hold := hmem t ht
    · rw [hnext, (hstarted t hnew).1]
      exact (h.recorded.addressed.bound c hc).2
    · exact hrec.known t hold
  · obtain hnew | hold := hmem t ht
    · obtain rfl | ⟨-, hne⟩ := mem_setConn_iff_ne hd
      · rw [hstate (hcarries.state hsyn), List.self_eq_append_left] at htimers
        rw [htimers] at hnew
        cases hnew
      · exact hne (heq.trans ((hstarted t hnew).1.trans hcarries.addr.symm))
    · exact hrec.quiet t hold d hd heq hsyn
  · obtain hnew | hold := hmem t ht
    · exact absurd (hstarted t hnew).2 hretries
    · exact h.counted t hold hretries

/-- A new block, for which a segment may have been sent, comes on the list. -/
theorem opened (h : FinHistory r s) (haddr : c.addr = s.nextAddr) (hqueue : c.retransmitQueue = [])
    {u : TcpStack} (hlist : u.connectionList = s.connectionList) (hsent : u.sent = s.sent)
    (hnext : u.nextAddr = s.nextAddr + 1) (hcarries : Carries r u c s' c')
    (htimers : s'.activeTimers = s.activeTimers) : FinHistory r (addConnection s' c') := by
  have hnew : c'.addr = s.nextAddr := hcarries.addr.trans haddr
  have hnext' : (addConnection s' c').nextAddr = s.nextAddr + 1 := hcarries.nextAddr.trans hnext
  have hlist' : (addConnection s' c').connectionList = c' :: s.connectionList :=
    congrArg (c' :: ·) (hcarries.list.trans hlist)
  have hbound := h.recorded.addressed.bound
  have hown : Tracks u r c := by
    refine ⟨fun _ => iff_of_false ?_ ?_, fun _ e he => ?_⟩
    · rintro ⟨seg, hseg, hseg', -⟩
      have hlt := h.recorded.owners seg (hsent ▸ hseg)
      omega
    · intro hmem
      have hlt := h.old _ hmem
      omega
    · rw [hqueue] at he
      cases he
  have htimers' : (addConnection s' c').activeTimers = s.activeTimers := htimers
  have hmem : ∀ d ∈ (addConnection s' c').connectionList, d = c' ∨ d ∈ s.connectionList := by
    intro d hd
    rw [hlist'] at hd
    exact List.mem_cons.mp hd
  have hne : ∀ d ∈ s.connectionList, d.addr ≠ s.nextAddr :=
    fun d hd => Nat.ne_of_lt (hbound d hd).2
  refine ⟨⟨⟨?_, fun d hd => ?_, ?_⟩, fun t ht => ?_, fun t ht d hd heq => ?_, fun seg hseg => ?_,
    fun d hd => ?_⟩, fun t ht => ?_, fun a ha => ?_⟩
  · rw [hlist', List.map_cons, List.nodup_cons, hnew]
    refine ⟨fun hmem => ?_, h.recorded.addressed.nodup⟩
    obtain ⟨d, hd, heq⟩ := List.mem_map.mp hmem
    exact hne d hd heq
  · rw [hnext']
    obtain rfl | hold := hmem d hd
    · have hfresh := h.recorded.addressed.fresh
      omega
    · exact ⟨(hbound d hold).1, Nat.lt_succ_of_lt (hbound d hold).2⟩
  · rw [hnext']
    exact Nat.succ_pos _
  · rw [hnext']
    exact Nat.lt_succ_of_lt (h.recorded.known t (htimers' ▸ ht))
  · have hlt := h.recorded.known t (htimers' ▸ ht)
    obtain rfl | hold := hmem d hd
    · omega
    · exact h.recorded.quiet t (htimers' ▸ ht) d hold heq
  · rw [hnext']
    obtain hold | hown := hcarries.sent seg hseg
    · exact Nat.lt_succ_of_lt (h.recorded.owners seg (hsent ▸ hold))
    · omega
  · obtain rfl | hold := hmem d hd
    · exact (hcarries.own hown).congr rfl Iff.rfl
    · have htracks : Tracks u r d := (h.recorded.tracks d hold).congr hsent Iff.rfl
      exact (hcarries.other d (haddr ▸ hne d hold) htracks).congr rfl Iff.rfl
  · exact h.counted t (htimers' ▸ ht)
  · rw [hnext']
    exact Nat.lt_succ_of_lt (h.old a ha)

theorem checkTimers (h : FinHistory r s) (hs : checkTcpTimers s = .ok s') :
    FinHistory (r ++ retried s'.activeTimers) s' := by
  have hrec : Recorded s (r ++ retried []) ([] ++ s.activeTimers) :=
    h.recorded.congr (fun t ht => ⟨t, ht, rfl⟩) fun c _ => by
      rw [retried, List.filter_nil, List.map_nil, List.append_nil]
  have hloop := (timerLoop_of_checkTcpTimers hs).recorded hrec h.counted
  refine ⟨hloop, fun t ht hretries => ?_, fun a ha => ?_⟩
  · exact List.mem_append_right _ (mem_retried.mpr ⟨t, ht, hretries, rfl⟩)
  · obtain ha | ha := List.mem_append.mp ha
    · rw [(frame_checkTcpTimers hs).nextAddr]
      exact h.old a ha
    · obtain ⟨t, ht, -, rfl⟩ := mem_retried.mp ha
      exact hloop.known t ht

theorem passiveOpen (h : FinHistory r s) (srcIp dstIp : UInt32) (tcp : TcpHeader)
    (bytes : ℕ → UInt8) : FinHistory r (passiveOpen s srcIp dstIp tcp bytes) := by
  obtain ⟨-, heq⟩ | ⟨-, c, u, x, hc, hu, hx, heq⟩ := passiveOpen_cases s srcIp dstIp tcp bytes
  · rw [heq]
    exact h.same rfl rfl rfl rfl
  · have hopened : FinHistory r (addConnection u c) :=
      h.opened (by rw [hc]; rfl) (by rw [hc]; rfl) (by rw [hu]) (by rw [hu]) (by rw [hu])
        (Carries.refl r u c) (by rw [hu])
    have hsent := hopened.write List.mem_cons_self
      ((Carries.send_plain hx rfl).trans
        (carries_startRetransmissionTimer x.1 x.2 retransmitTimeout))
      fun hsyn => by rw [hc] at hsyn; cases hsyn
    rw [heq, startRetransmissionTimer_setConn]
    exact hsent

theorem handleEstablishedState (h : FinHistory r s) (hc : c ∈ s.connectionList)
    (hstate : c.state = .established) {tcp : TcpHeader} {bytes : ℕ → UInt8} {len : UInt16}
    (hs : handleEstablishedState s c.addr tcp bytes len = .ok s') :
    FinHistory (r ++ retried s'.activeTimers) s' := by
  obtain ⟨s₁, c₁, s₂, c₂, c₃, x, y, h₁, hc₁, h₂, h₃, hx, hy, rfl⟩ := handleEstablishedState_eq_ok hs
  obtain ⟨hmem, haddr⟩ := deref_eq_ok hc₁
  have hstate₁ : c₁.state = .established := by
    have hcore := core_checkTcpTimers h.recorded.addressed h₁ hc hmem haddr
    exact (congrArg TcpConnection.state hcore).trans hstate
  have hcarries : Carries (r ++ retried s₁.activeTimers) s₁ c₁ _ _ :=
    carries_established hstate₁ (x := (s₂, c₂)) h₂ h₃ hx hy
  obtain ⟨started, htimers, hstarted⟩ := hcarries.timers
  have hwrite := (h.checkTimers h₁).write hmem hcarries fun hsyn => by
    rw [hstate₁] at hsyn
    cases hsyn
  have hnone : retried started = [] := by
    rw [retried, List.map_eq_nil_iff, List.filter_eq_nil_iff]
    intro t ht hretries
    rw [(hstarted t ht).2] at hretries
    simp at hretries
  have hretried : retried ((handleFin y.1 y.2 tcp.flags).1.setConn
      (handleFin y.1 y.2 tcp.flags).2).activeTimers = retried s₁.activeTimers := by
    have hactive : ((handleFin y.1 y.2 tcp.flags).1.setConn
      (handleFin y.1 y.2 tcp.flags).2).activeTimers = started ++ s₁.activeTimers := htimers
    rw [hactive, retried_append, hnone, List.nil_append]
  rw [hretried]
  exact hwrite

theorem handleWaitForAckState (h : FinHistory r s) (hc : c ∈ s.connectionList)
    (hstate : c.state = .waitForAck) {tcp : TcpHeader}
    (hs : handleWaitForAckState s c.addr tcp = .ok s') : FinHistory r s' := by
  have hderef := h.recorded.addressed.deref_of_mem hc
  have hsyn : c.state = .synSent → ∀ u : TcpStack, u.activeTimers = s.activeTimers := by
    intro hsyn
    rw [hstate] at hsyn
    cases hsyn
  cases hq : c.retransmitQueue with
  | nil =>
      obtain rfl := eq_of_handleWaitForAckState_nil hderef hq hs
      exact h
  | cons e es =>
      obtain ⟨-, rfl, hrem⟩ | ⟨-, rfl⟩ | ⟨-, -, rfl⟩ | ⟨-, -, -, x, hx, rfl⟩ | ⟨-, -, -, rfl⟩ :=
        handleWaitForAckState_eq_ok hderef hq hs
      · refine FinHistory.remove (h.write hc ?_ fun h' => hsyn h' _) hrem
        exact Carries.assign rfl id id nofun
      · refine h.write hc (Carries.assign rfl id id fun d hd => ?_) fun h' => hsyn h' _
        exact ⟨d, hq ▸ List.mem_cons_of_mem _ hd, rfl⟩
      · refine h.write hc (Carries.assign rfl id id fun d hd => ?_) fun h' => hsyn h' _
        rw [hq]
        obtain rfl | hd := List.mem_cons.mp hd
        · exact ⟨e, List.mem_cons_self, rfl⟩
        · exact ⟨d, List.mem_cons_of_mem _ hd, rfl⟩
      · refine h.write hc ?_ fun h' => hsyn h' _
        have hfin : hasFlag e.flags tcpFin = true → c.state.isOpen = true → Tracks s r c →
            c.addr ∈ r := fun hflags hopen htracks =>
          htracks.queue hopen e (hq ▸ List.mem_cons_self) hflags
        have hcount : Carries r s c s { c with dupAckCount := c.dupAckCount + 1 } :=
          Carries.assign_fields rfl rfl rfl
        have hsend := Carries.send hx fun hflags hopen htracks =>
          hfin hflags hopen (htracks.assign rfl id fun d hd => ⟨d, hd, rfl⟩)
        exact (hcount.trans hsend).trans (Carries.assign_fields rfl rfl rfl)
      · exact h.write hc (Carries.assign_fields rfl rfl rfl) fun h' => hsyn h' _

/-- The handler for the state of the connection. -/
theorem handleInState (h : FinHistory r s) (hc : c ∈ s.connectionList) {tcp : TcpHeader}
    {bytes : ℕ → UInt8} {len : UInt16} (hs : handleInState s c tcp bytes len = .ok s') :
    FinHistory (r ++ retried s'.activeTimers) s' := by
  rw [HalOS.handleInState] at hs
  cases hstate : c.state with
  | synSent =>
      rw [hstate] at hs
      obtain rfl := Except.ok.inj hs
      obtain ⟨-, heq⟩ | ⟨-, -, x, hx, heq⟩ := handleSynSent_cases s c tcp
      · rw [heq]
        exact h.append
      · have hassign : Carries r s c s
            { c with expectedAck := tcp.seq + 1, state := .established } :=
          Carries.assign rfl (by rintro ⟨⟩) (fun _ => by rw [hstate]; rfl) fun e he => ⟨e, he, rfl⟩
        have hcarries := hassign.trans (Carries.send_plain hx rfl)
        rw [heq]
        refine ((h.write hc hcarries fun _ => ?_).cancel _).append
        rw [hx, activeTimers_tcpSendSegment]
  | synReceived =>
      rw [hstate] at hs
      obtain rfl := Except.ok.inj hs
      rw [handleSynReceived]
      split_ifs
      · have hassign : Carries r s c s { c with state := .established } :=
          Carries.assign rfl (by rintro ⟨⟩) (fun _ => by rw [hstate]; rfl) fun e he => ⟨e, he, rfl⟩
        exact ((h.write hc hassign fun _ => rfl).cancel c.addr).append
      · exact h.append
  | established =>
      rw [hstate] at hs
      exact h.handleEstablishedState hc hstate hs
  | waitForAck =>
      rw [hstate] at hs
      exact (h.handleWaitForAckState hc hstate hs).append
  | lastAck =>
      rw [hstate] at hs
      obtain ⟨d, -, hlast⟩ := bind_eq_ok.mp hs
      split_ifs at hlast
      · exact (h.remove hlast).append
      · obtain rfl := Except.ok.inj hlast
        exact h.append
  | _ =>
      rw [hstate] at hs
      obtain rfl := Except.ok.inj hs
      exact h.append

/-- A reset belongs to no connection of the list. -/
theorem tcpSendReset (h : FinHistory r s) (srcIp dstIp : UInt32) (tcp : TcpHeader) :
    FinHistory r (tcpSendReset s srcIp dstIp tcp) := by
  have hcarries :
      Carries r s (resetBlock srcIp dstIp tcp) (HalOS.tcpSendReset s srcIp dstIp tcp) _ :=
    Carries.send_plain rfl rfl
  have hnext := hcarries.nextAddr
  obtain ⟨started, htimers, hstarted⟩ := hcarries.timers
  have hactive : (HalOS.tcpSendReset s srcIp dstIp tcp).activeTimers = s.activeTimers :=
    activeTimers_tcpSendSegment _ _ _ _ _
  refine ⟨⟨h.recorded.addressed.sublist (by rw [hcarries.list]) hnext, ?_, ?_, ?_, ?_⟩, ?_, ?_⟩
  · rw [hactive, hnext]
    exact h.recorded.known
  · rw [hactive, hcarries.list]
    exact h.recorded.quiet
  · intro seg hseg
    rw [hnext]
    obtain hold | hown := hcarries.sent seg hseg
    · exact h.recorded.owners seg hold
    · exact hown ▸ h.recorded.addressed.fresh
  · intro d hd
    rw [hcarries.list] at hd
    exact hcarries.other d (Nat.ne_of_gt (h.recorded.addressed.bound d hd).1)
      (h.recorded.tracks d hd)
  · rw [hactive]
    exact h.counted
  · rw [hnext]
    exact h.old

/-- An incoming segment. -/
theorem handleSegment (h : FinHistory r s) {srcIp dstIp : UInt32} {tcp : TcpHeader}
    {bytes : ℕ → UInt8} {len : UInt16} (hs : handleSegment s srcIp dstIp tcp bytes len = .ok s') :
    FinHistory (r ++ retried s'.activeTimers) s' := by
  obtain rfl | rfl | ⟨-, -, -, rfl⟩ | ⟨c, hfind, hrem | ⟨-, hin⟩⟩ := handleSegment_eq_ok hs
  · exact h.append
  · exact (h.tcpSendReset srcIp dstIp tcp).append
  · exact (h.passiveOpen srcIp dstIp tcp bytes).append
  · exact (h.remove hrem).append
  · exact h.handleInState (mem_of_findConnection hfind) hin

theorem tcpConnect (h : FinHistory r s) (stale : StaleBlock) (remoteIp : UInt32)
    (remotePort : UInt16) : FinHistory r (tcpConnect s stale remoteIp remotePort) := by
  obtain ⟨-, heq⟩ | ⟨-, c, u, x, hc, hu, hx, heq⟩ := tcpConnect_cases s stale remoteIp remotePort
  · rw [heq]
    exact h.same rfl rfl rfl rfl
  · rw [heq]
    refine h.opened (u := u) (by rw [hc]; rfl) (by rw [hc]; rfl) (by rw [hu]) (by rw [hu])
      (by rw [hu]) (Carries.send_plain hx rfl) ?_
    rw [hx, activeTimers_tcpSendSegment, hu]

/-- A segment that a caller sends. -/
theorem sendOn (h : FinHistory r s) {conn : ℕ} {flags : UInt8} {data : List UInt8}
    {dataLen : UInt16} (hs : sendOn s conn flags data dataLen = .ok s') :
    FinHistory (r ++ finCalled (.send conn flags data dataLen)) s' := by
  obtain ⟨c, hderef, hsend⟩ := bind_eq_ok.mp hs
  obtain ⟨hc, rfl⟩ := deref_eq_ok hderef
  generalize hx : tcpSendSegment s c flags data dataLen = x at hsend
  obtain rfl := Except.ok.inj hsend
  have hactive : x.1.activeTimers = s.activeTimers := by rw [← hx, activeTimers_tcpSendSegment]
  rw [finCalled]
  split_ifs with hflags
  · have hmem : ∀ a, a ∈ r ++ [c.addr] ↔ a ∈ r ∨ a = c.addr := fun a => by
      rw [List.mem_append, List.mem_singleton]
    have hfin := h.recorded.fin hc hx.symm hflags hmem
    have hactive' : (x.1.setConn x.2).activeTimers = s.activeTimers := hactive
    have hnext := (frame_sendBack hx.symm x.2).nextAddr
    refine ⟨hactive'.symm ▸ hfin, fun t ht hretries => ?_, fun a ha => ?_⟩
    · exact List.mem_append_left _ (h.counted t (hactive' ▸ ht) hretries)
    · rw [hnext]
      obtain ha | ha := List.mem_append.mp ha
      · exact h.old a ha
      · rw [List.mem_singleton.mp ha]
        exact (h.recorded.addressed.bound c hc).2
  · rw [List.append_nil]
    exact h.write hc (Carries.send_plain hx.symm (Bool.eq_false_iff.mpr hflags)) fun _ => hactive

/-- **The step lemma.** -/
theorem next (h : FinHistory r s) {e : TcpEvent} (hs : e.next s = .ok s') :
    FinHistory (r ++ (finCalled e ++ retried s'.activeTimers)) s' := by
  cases e with
  | segment srcIp dstIp bytes len => exact h.handleSegment hs
  | connect stale remoteIp remotePort =>
      obtain rfl := Except.ok.inj hs
      exact (h.tcpConnect stale remoteIp remotePort).append
  | listen port =>
      obtain rfl := Except.ok.inj hs
      refine FinHistory.append (h.same ?_ ?_ ?_ ?_)
      all_goals
        rw [tcpListen, TcpStack.malloc]
        cases s.mallocs.headD true with
        | false => rfl
        | true => rfl
  | send conn flags data dataLen =>
      rw [← List.append_assoc]
      exact (h.sendOn hs).append
  | remove conn => exact (h.remove hs).append
  | checkTimers => exact h.checkTimers hs
  | drain conn =>
      obtain ⟨c, hderef, hs⟩ := bind_eq_ok.mp hs
      obtain rfl := Except.ok.inj hs
      have hassign : Carries r s c s { c with recvBuffer := [] } :=
        Carries.assign_fields rfl rfl rfl
      exact (h.write (deref_eq_ok hderef).1 hassign fun _ => rfl).append
  | tick ticks =>
      obtain rfl := Except.ok.inj hs
      have hsame : FinHistory r { s with ticks := ticks } := h.same rfl rfl rfl rfl
      exact hsame.append

end FinHistory

theorem finHistory_boot (ticks nicIp : UInt32) (indexHtml : Option (List UInt8))
    (mallocs : List Bool) : FinHistory [] (TcpStack.boot ticks nicIp indexHtml mallocs) where
  recorded := ⟨addressed_boot ticks nicIp indexHtml mallocs, nofun, nofun, nofun, nofun⟩
  counted := nofun
  old := nofun

/-- Every state of a run has its record in order. -/
theorem finHistory_of_steps {ticks nicIp : UInt32} {indexHtml : Option (List UInt8)}
    {mallocs : List Bool} {h : RecordedStack}
    (hsteps : Steps RecordedStack.next (fun _ _ => True)
      ⟨TcpStack.boot ticks nicIp indexHtml mallocs, []⟩ h) : FinHistory h.repeated h.stack := by
  refine hsteps.invariant (I := fun h : RecordedStack => FinHistory h.repeated h.stack)
    (finHistory_boot ticks nicIp indexHtml mallocs) fun h e h' hh _ hs => ?_
  obtain ⟨s', hs', heq⟩ := bind_eq_ok.mp hs
  obtain rfl := Except.ok.inj heq
  exact hh.next hs'

/-- A connection that the handler removes is one that waits for an acknowledgement. -/
theorem mem_of_completed {e : TcpEvent} (h : completed s e = some c) :
    c ∈ s.connectionList ∧ c.state = .waitForAck := by
  cases e with
  | segment srcIp dstIp bytes len =>
      rw [completed] at h
      split_ifs at h
      rw [Option.filter_eq_some_iff, findConnection_eq] at h
      obtain ⟨hfind, hcheck⟩ := h
      rw [Bool.and_eq_true, beq_iff_eq] at hcheck
      exact ⟨List.mem_of_find?_eq_some hfind, hcheck.1⟩
  | _ => cases h

/-- **When a served connection is closed by a FIN.** In every run, a connection that
`handle_wait_for_ack_state` removes has sent a FIN before exactly if one of its timers had counted
a retry, or a caller had sent a FIN for it. -/
theorem finSent_iff_mem_repeated (ticks nicIp : UInt32) (indexHtml : Option (List UInt8))
    (mallocs : List Bool) (h : RecordedStack)
    (hsteps : Steps RecordedStack.next (fun _ _ => True)
      ⟨TcpStack.boot ticks nicIp indexHtml mallocs, []⟩ h)
    (e : TcpEvent) (c : TcpConnection) (hdone : completed h.stack e = some c) :
    FinSent h.stack c.addr ↔ c.addr ∈ h.repeated := by
  obtain ⟨hc, hstate⟩ := mem_of_completed hdone
  exact ((finHistory_of_steps hsteps).recorded.tracks c hc).fin (by rw [hstate]; rfl)

/-- The peer asks for the page, and acknowledges what has come up to `ack`, once. -/
def peerAsks (seq ack : UInt32) : List TcpEvent :=
  [(peerSegment 1 seq tcpAck (asciiBytes "GET /")).arrives, (peerSegment 6 ack tcpAck []).arrives]

/-- The timer runs out before the handshake ends: the connection that the next acknowledgement
removes has sent a FIN. -/
theorem finSent_iff_mem_repeated_late :
    ∃ h : RecordedStack, ∃ c, completed h.stack (peerSegment 6 85 tcpAck []).arrives = some c ∧
      (FinSent h.stack c.addr ↔ c.addr ∈ h.repeated) ∧ c.addr ∈ h.repeated := by
  obtain ⟨h, hrun, hdone⟩ := exists_eq_ok_of_any
    (p := fun h : RecordedStack =>
      (completed h.stack (peerSegment 6 85 tcpAck []).arrives).any fun c =>
        decide (c.addr ∈ h.repeated))
    (x := (peerOpens.take 2 ++ [.tick 3000, .checkTimers, (peerSegment 1 2 tcpAck []).arrives] ++
      peerAsks 2 85).foldlM RecordedStack.next ⟨.boot 0 0x0A00020F (some [0x41]) [], []⟩)
    (by decide +kernel)
  obtain ⟨c, hc, hmem⟩ := Option.any_eq_true _ _ |>.mp hdone
  exact ⟨h, c, hc, finSent_iff_mem_repeated 0 0x0A00020F (some [0x41]) [] h
    (Steps.of_foldlM hrun) _ c hc, of_decide_eq_true hmem⟩

/-- The peer that acknowledges in time gets no FIN. -/
theorem finSent_violated :
    ¬ ∀ h, Steps RecordedStack.next (fun _ _ => True)
        ⟨TcpStack.boot 0 0x0A00020F (some [0x41]) [], []⟩ h →
      ∀ e c, completed h.stack e = some c → FinSent h.stack c.addr := by
  intro hall
  obtain ⟨h, hrun, hdone⟩ := exists_eq_ok_of_any
    (p := fun h : RecordedStack =>
      (completed h.stack (peerSegment 6 84 tcpAck []).arrives).any fun c =>
        !decide (FinSent h.stack c.addr))
    (x := (peerOpens ++ peerAsks 1 84).foldlM RecordedStack.next
      ⟨.boot 0 0x0A00020F (some [0x41]) [], []⟩)
    (by decide +kernel)
  obtain ⟨c, hc, hnone⟩ := Option.any_eq_true _ _ |>.mp hdone
  simp only [hall h (Steps.of_foldlM hrun) _ c hc, decide_true, Bool.not_true] at hnone
  cases hnone

end HalOS
