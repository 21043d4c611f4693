import HalOS.Net.TcpFrame
import HalOS.Net.TcpWire

/-!
# Active Opens on Stale Memory

`tcp_connect` fills in a block from `malloc` without clearing it first, as a passive open does.
Four of the fields it does not write are read later: the length of the receive buffer goes into
every window, the walk along the queue follows its link, and the duplicate acknowledgement
count and the last acknowledgement decide about fast retransmission.

## Main results

* `independent_of_agree`: the run depends on these four, and on no others.
* `agree_of_independent`: while no timer is running, it does depend on each of them.
-/

namespace HalOS

open Outcome (Alike Steps bind_eq_ok exists_eq_ok_of_any foldlM_append_of_ok)
open List (Forall₂)

/-! ### Alike runs -/

/-- The bytes are the same but for those that were there before the connection. -/
def SameBytes (σ τ : StaleBlock) (bytes bytes' : List UInt8) : Prop :=
  bytes' = bytes ∨ ∃ received, bytes = σ.recvBuffer ++ received ∧ bytes' = τ.recvBuffer ++ received

/-- What can be seen of the two control blocks is the same, and their queues are lists. -/
structure SameConn (σ τ : StaleBlock) (c d : TcpConnection) : Prop where
  addr : d.addr = c.addr
  key : d.key = c.key
  state : d.state = c.state
  nextSeq : d.nextSeq = c.nextSeq
  expectedAck : d.expectedAck = c.expectedAck
  queue : d.retransmitQueue = c.retransmitQueue
  finite : c.queueWild = false ∧ d.queueWild = false
  length : d.recvBuffer.length = c.recvBuffer.length
  bytes : SameBytes σ τ c.recvBuffer d.recvBuffer

/-- The runs have sent the same segments, windows included, and have the same connections, the
one at address `a` up to what cannot be seen of it. -/
def SameBehaviour (a : ℕ) (σ τ : StaleBlock) : TcpStack → TcpStack → Prop :=
  StackRel (fun c d => (c.addr = a → SameConn σ τ c d) ∧ (c.addr ≠ a → d = c)) fun x y => y = x

/-- Whatever follows, a run that starts with the active open does not depend on the block. -/
def Independent (s : TcpStack) (σ τ : StaleBlock) (remoteIp : UInt32) (remotePort : UInt16) :
    Prop :=
  ∀ events : List TcpEvent, Alike (SameBehaviour s.nextAddr σ τ)
    (events.foldlM TcpEvent.next (tcpConnect s σ remoteIp remotePort))
    (events.foldlM TcpEvent.next (tcpConnect s τ remoteIp remotePort))

/-- The blocks agree in the fields that are read. -/
structure AgreeOnRead (σ τ : StaleBlock) : Prop where
  queue : σ.queueWild = false ∧ τ.queueWild = false
  length : τ.recvBuffer.length = σ.recvBuffer.length
  dupAck : τ.dupAckCount = σ.dupAckCount
  lastAck : τ.lastAck = σ.lastAck

variable {s s' t : TcpStack} {σ τ : StaleBlock} {a : ℕ} {c d : TcpConnection}

/-- The blocks of one connection in two alike runs: all the same but the MSS and the bytes in the
buffer; of any other connection, the same. -/
def TwinConn (a : ℕ) (σ τ : StaleBlock) (c d : TcpConnection) : Prop :=
  ∃ mss bytes, d = { c with mss := mss, recvBuffer := bytes } ∧
    bytes.length = c.recvBuffer.length ∧
    (c.addr = a → c.queueWild = false ∧ SameBytes σ τ c.recvBuffer bytes) ∧ (c.addr ≠ a → d = c)

theorem SameBytes.append {bytes bytes' : List UInt8} (h : SameBytes σ τ bytes bytes')
    (payload : List UInt8) : SameBytes σ τ (bytes ++ payload) (bytes' ++ payload) := by
  obtain rfl | ⟨received, rfl, rfl⟩ := h
  · exact Or.inl rfl
  · exact Or.inr ⟨received ++ payload, List.append_assoc _ _ _, List.append_assoc _ _ _⟩

/-- Twins stay twins, whatever is done to both. -/
theorem runClosed_twinConn (a : ℕ) (σ τ : StaleBlock) :
    RunClosed (TwinConn a σ τ) fun x y => y = x where
  closed := fun conn =>
    { addr := by
        rintro c d ⟨mss, bytes, rfl, -⟩
        rfl
      sent := by
        rintro c d ⟨mss, bytes, rfl, hlen, -⟩ flags data
        simp only [buildSegment, TcpConnection.recvBufferLen, hlen]
      afterSend := by
        rintro c d ⟨mss, bytes, hd, hlen, hown, hother⟩ flags data dataLen queued -
        refine ⟨mss, bytes, ?_, hlen, hown, fun h => ?_⟩
        · rw [hd]
          rfl
        · rw [hother h]
      state := by
        rintro c d ⟨mss, bytes, rfl, -⟩
        rfl
      wild := by
        rintro c d ⟨mss, bytes, rfl, -⟩
        rfl
      queue := by
        rintro c d ⟨mss, bytes, rfl, -⟩
        exact List.forall₂_same.mpr fun _ _ => rfl
      retried := by
        rintro c d ⟨mss, bytes, hd, hlen, hown, hother⟩ retries e es f fs he hf
        obtain ⟨rfl, rfl⟩ : f = e ∧ fs = es := by
          rw [hd] at hf
          exact ⟨(List.cons.inj (hf.symm.trans he)).1, (List.cons.inj (hf.symm.trans he)).2⟩
        refine ⟨mss, bytes, ?_, hlen, hown, fun h => ?_⟩
        · rw [hd]
        · rw [hother h]
      expected := by
        rintro c d ⟨mss, bytes, rfl, -⟩
        rfl
      received := by
        rintro c d ⟨mss, bytes, rfl, hlen, -⟩
        exact hlen
      setState := by
        rintro c d ⟨mss, bytes, hd, hlen, hown, hother⟩ state
        exact ⟨mss, bytes, by rw [hd], hlen, hown, fun h => by rw [hother h]⟩
      setExpected := by
        rintro c d ⟨mss, bytes, hd, hlen, hown, hother⟩ ack
        exact ⟨mss, bytes, by rw [hd], hlen, hown, fun h => by rw [hother h]⟩
      append := by
        rintro c d ⟨mss, bytes, hd, hlen, hown, hother⟩ payload -
        refine ⟨mss, bytes ++ payload, by rw [hd], ?_, fun h => ?_, fun h => by rw [hother h]⟩
        · rw [List.length_append, List.length_append, hlen]
        · exact ⟨(hown h).1, (hown h).2.append payload⟩
      nextSeq := by
        rintro c d ⟨mss, bytes, rfl, -⟩ -
        exact (UInt32.add_zero _).symm
      lastAck := by
        rintro c d ⟨mss, bytes, rfl, -⟩ -
        exact (UInt32.add_zero _).symm
      dupAck := by
        rintro c d ⟨mss, bytes, rfl, -⟩ -
        rfl
      entries := by
        rintro c d ⟨mss, bytes, rfl, -⟩ -
        exact (map_shiftEntry_zero _).symm
      setNext := by
        rintro c d ⟨mss, bytes, hd, hlen, hown, hother⟩ - seq
        rw [UInt32.add_zero]
        exact ⟨mss, bytes, by rw [hd], hlen, hown, fun h => by rw [hother h]⟩
      setLast := by
        rintro c d ⟨mss, bytes, hd, hlen, hown, hother⟩ - ack
        rw [UInt32.add_zero]
        exact ⟨mss, bytes, by rw [hd], hlen, hown, fun h => by rw [hother h]⟩
      setDup := by
        rintro c d ⟨mss, bytes, hd, hlen, hown, hother⟩ - count
        exact ⟨mss, bytes, by rw [hd], hlen, hown, fun h => by rw [hother h]⟩
      setQueue := by
        rintro c d ⟨mss, bytes, hd, hlen, hown, hother⟩ - queue -
        rw [map_shiftEntry_zero]
        exact ⟨mss, bytes, by rw [hd], hlen, hown, fun h => by rw [hother h]⟩ }
  key := by
    rintro c d ⟨mss, bytes, rfl, -⟩
    rfl
  reset := fun _ _ _ => rfl
  drained := by
    rintro c d ⟨mss, bytes, hd, -, hown, hother⟩
    exact ⟨mss, [], by rw [hd], rfl, fun h => ⟨(hown h).1, Or.inl rfl⟩, fun h => by rw [hother h]⟩

theorem TwinConn.of_ne (h : c.addr ≠ a) : TwinConn a σ τ c c :=
  ⟨c.mss, c.recvBuffer, rfl, rfl, fun heq => absurd heq h, fun _ => rfl⟩

theorem TwinConn.sameConn (h : TwinConn a σ τ c d) :
    (c.addr = a → SameConn σ τ c d) ∧ (c.addr ≠ a → d = c) := by
  obtain ⟨mss, bytes, rfl, hlen, hown, hother⟩ := h
  refine ⟨fun haddr => ?_, hother⟩
  obtain ⟨hwild, hbytes⟩ := hown haddr
  exact ⟨rfl, rfl, rfl, rfl, rfl, rfl, ⟨hwild, hwild⟩, hlen, hbytes⟩

/-! ### Agreement is enough -/

/-- The block of the active open, when the SYN has been sent. -/
theorem tcpConnect_eq (hmem : s.malloc.1 = true) (σ : StaleBlock) (remoteIp : UInt32)
    (remotePort : UInt16) :
    ∃ c t x, c = activeBlock s.nextAddr s.nicIp σ remoteIp remotePort
        (generateSecureInitialSeq s).1 (generateSecureInitialSeq (generateSecureInitialSeq s).2).1 ∧
      t = { s with
        mallocs := s.mallocs.tail
        counter := s.counter + 1 + 1
        nextAddr := s.nextAddr + 1 } ∧
      x = tcpSendSegment t c tcpSyn [] 0 ∧
      tcpConnect s σ remoteIp remotePort = addConnection x.1 x.2 := by
  obtain ⟨hno, -⟩ | ⟨-, h⟩ := tcpConnect_cases s σ remoteIp remotePort
  · exact absurd (hno.symm.trans hmem) Bool.false_ne_true
  · exact h

theorem stackRel_tcpConnect (haddr : Addressed s) (hmem : s.malloc.1 = true)
    (hagree : AgreeOnRead σ τ) (remoteIp : UInt32) (remotePort : UInt16) :
    StackRel (TwinConn s.nextAddr σ τ) (fun x y => y = x) (tcpConnect s σ remoteIp remotePort)
      (tcpConnect s τ remoteIp remotePort) := by
  obtain ⟨c, t, x, rfl, rfl, rfl, hσ⟩ := tcpConnect_eq hmem σ remoteIp remotePort
  obtain ⟨d, t, y, rfl, rfl, rfl, hτ⟩ := tcpConnect_eq hmem τ remoteIp remotePort
  rw [hσ, hτ]
  have hbefore : StackRel (TwinConn s.nextAddr σ τ) (fun x y => y = x)
      { s with
        mallocs := s.mallocs.tail
        counter := s.counter + 1 + 1
        nextAddr := s.nextAddr + 1 }
      { s with
        mallocs := s.mallocs.tail
        counter := s.counter + 1 + 1
        nextAddr := s.nextAddr + 1 } :=
    StackRel.refl (fun c hc => .of_ne (Nat.ne_of_lt (haddr.bound c hc).2)) fun _ _ => rfl
  have hsend := (runClosed_twinConn s.nextAddr σ τ).base.tcpSendSegment hbefore
    (c := activeBlock s.nextAddr s.nicIp σ remoteIp remotePort (generateSecureInitialSeq s).1
      (generateSecureInitialSeq (generateSecureInitialSeq s).2).1)
    (d := activeBlock s.nextAddr s.nicIp τ remoteIp remotePort (generateSecureInitialSeq s).1
      (generateSecureInitialSeq (generateSecureInitialSeq s).2).1) ?_ tcpSyn [] 0
  · exact hsend.1.addConnection hsend.2
  · refine ⟨τ.mss, τ.recvBuffer, ?_, hagree.length, fun _ => ⟨hagree.queue.1, ?_⟩, fun h => ?_⟩
    · simp only [activeBlock, hagree.dupAck, hagree.lastAck, hagree.queue]
    · exact Or.inr ⟨[], (List.append_nil _).symm, (List.append_nil _).symm⟩
    · exact absurd rfl h

theorem nextAddr_tcpConnect (hmem : s.malloc.1 = true) (σ : StaleBlock) (remoteIp : UInt32)
    (remotePort : UInt16) :
    (tcpConnect s σ remoteIp remotePort).nextAddr = s.nextAddr + 1 := by
  obtain ⟨c, t, x, rfl, rfl, rfl, hσ⟩ := tcpConnect_eq hmem σ remoteIp remotePort
  rw [hσ, tcpSendSegment_eq]
  rfl

/-- Addresses are not used again. -/
theorem nextAddr_mono {e : TcpEvent} (h : e.next s = .ok s') : s.nextAddr ≤ s'.nextAddr := by
  obtain ⟨-, heq⟩ | ⟨c, -, -, heq, -⟩ := addrs_next h
  · exact Nat.le_of_eq heq.symm
  · rw [heq]
    exact Nat.le_succ _

/-- Twins run alike. -/
theorem independent_of_agree (haddr : Addressed s) (hmem : s.malloc.1 = true)
    (hagree : AgreeOnRead σ τ) (remoteIp : UInt32) (remotePort : UInt16) :
    Independent s σ τ remoteIp remotePort := by
  intro events
  have hstep (u v : TcpStack) (e : TcpEvent)
      (h : StackRel (TwinConn s.nextAddr σ τ) (fun x y => y = x) u v ∧ s.nextAddr < u.nextAddr) :
      Alike (fun u v => StackRel (TwinConn s.nextAddr σ τ) (fun x y => y = x) u v ∧
        s.nextAddr < u.nextAddr) (e.next u) (e.next v) := by
    refine Alike.and_of_ok ((runClosed_twinConn s.nextAddr σ τ).next h.1 e fun c hc => .of_ne ?_)
      fun u' hu' => Nat.lt_of_lt_of_le h.2 (nextAddr_mono hu')
    cases hc with
    | passive _ _ => exact Nat.ne_of_gt h.2
    | active _ => exact Nat.ne_of_gt h.2
  refine (Alike.foldlM hstep events
    ⟨stackRel_tcpConnect haddr hmem hagree remoteIp remotePort, ?_⟩).mono fun u v h => ?_
  · rw [nextAddr_tcpConnect hmem]
    exact Nat.lt_succ_self _
  · obtain ⟨cs, ls, heq, hcs, hls⟩ := h.1
    exact ⟨cs, ls, heq, hcs.imp fun _ _ => TwinConn.sameConn, hls⟩

/-! ### Agreement is necessary

While no timer runs, the peer can tell the blocks apart: the SYN shows the length of the receive
buffer, and acknowledgements of one and the same number, with a byte sent before each so that
there is something to repeat, show the two fields of fast retransmission. -/

/-- The connection is the newest one, and no timer is running. -/
structure Newest (s : TcpStack) (c : TcpConnection) : Prop where
  list : ∃ rest, s.connectionList = c :: rest
  timers : s.activeTimers = []

/-- An empty segment of the peer. -/
def probe (key : UInt32 × UInt16 × UInt32 × UInt16) (seq ack : UInt32) (flags : UInt8) :
    TcpSegment where
  owner := 0
  buffered := 0
  srcIp := key.1
  dstIp := key.2.2.1
  srcPort := key.2.1
  destPort := key.2.2.2
  seq := seq
  ack := ack
  dataOffset := 0x50
  flags := flags
  window := 4096
  options := []
  data := []

theorem Newest.deref (h : Newest s c) : s.deref c.addr = .ok c := by
  obtain ⟨rest, hlist⟩ := h.list
  rw [TcpStack.deref, hlist, List.find?_cons, beq_self_eq_true]
  rfl

theorem Newest.setConn (h : Newest s c) (hd : d.addr = c.addr) : Newest (s.setConn d) d where
  list := by
    obtain ⟨rest, hlist⟩ := h.list
    rw [TcpStack.setConn, hlist, List.map_cons, if_pos hd.symm]
    exact ⟨_, rfl⟩
  timers := h.timers

theorem Newest.send (h : Newest s c) (d : TcpConnection) (flags : UInt8) (data : List UInt8)
    (dataLen : UInt16) : Newest (tcpSendSegment s d flags data dataLen).1 c where
  list := by rw [connectionList_tcpSendSegment]; exact h.list
  timers := by rw [activeTimers_tcpSendSegment]; exact h.timers

/-- A probe finds its connection. -/
theorem Newest.arrives (h : Newest s c) (seq ack : UInt32) {flags : UInt8}
    (hrst : hasFlag flags tcpRst = false) :
    (probe c.key seq ack flags).arrives.next s =
      handleInState s c (probe c.key seq ack flags).header
       (probe c.key seq ack flags).bytes 20 := by
  have hfind : findConnection s c.key.1 c.key.2.1 c.key.2.2.1 c.key.2.2.2 = some c := by
    obtain ⟨rest, hlist⟩ := h.list
    rw [findConnection_eq, hlist, List.find?_cons, beq_self_eq_true]
  have hlen : (probe c.key seq ack flags).len = 20 := rfl
  have hoff : ¬ (probe c.key seq ack flags).header.dataOffset >>> 4 < 5 :=
    show ¬ (0x50 : UInt8) >>> 4 < 5 by decide
  rw [TcpSegment.arrives, TcpEvent.next, tcpHandlePacket, parse_bytes, hlen]
  generalize htcp : (probe c.key seq ack flags).header = tcp at hoff ⊢
  have hflags : tcp.flags = flags := by rw [← htcp]; rfl
  have hsrc : tcp.srcPort = c.key.2.1 := by rw [← htcp]; rfl
  have hdest : tcp.destPort = c.key.2.2.2 := by rw [← htcp]; rfl
  refine handleSegment_of_find hoff ?_ ?_ _ _
  · rw [hsrc, hdest]
    exact hfind
  · rw [hflags, hrst]

/-- A connection that was established a moment ago, in a host with memory left. -/
structure Established (s : TcpStack) (c : TcpConnection) : Prop extends Newest s c where
  memory : s.mallocs = []
  state : c.state = .established
  finite : c.queueWild = false

/-- The handshake completes. -/
theorem Newest.synAck (h : Newest s c) (hstate : c.state = .synSent) (hmem : s.mallocs = [])
    (hwild : c.queueWild = false) :
    ∃ s' c', (probe c.key 0 c.nextSeq (tcpSyn ||| tcpAck)).arrives.next s = .ok s' ∧
      Established s' c' ∧ c'.key = c.key ∧ c'.addr = c.addr ∧ c'.lastAck = c.lastAck ∧
      c'.dupAckCount = c.dupAckCount := by
  rw [h.arrives 0 c.nextSeq (by decide), handleInState, hstate]
  generalize htcp : (probe c.key 0 c.nextSeq (tcpSyn ||| tcpAck)).header = tcp
  have hflags : tcp.flags = tcpSyn ||| tcpAck := by rw [← htcp]; rfl
  have hack : tcp.ack = c.nextSeq := by rw [← htcp]; rfl
  obtain ⟨hnot, -⟩ | ⟨-, -, x, hx, heq⟩ := handleSynSent_cases s c tcp
  · exact absurd ⟨by rw [hflags]; decide, hack⟩ hnot
  · have hnew : Newest x.1 c := by
      rw [hx]
      exact h.send _ _ _ _
    have haddr : x.2.addr = c.addr := by
      rw [hx, addr_tcpSendSegment]
    have hset := hnew.setConn haddr
    refine ⟨_, x.2, congrArg Except.ok heq, ⟨⟨hset.list, ?_⟩, ?_, ?_, ?_⟩, ?_, haddr, ?_, ?_⟩
    · rw [cancelRetransmissionTimer, hset.timers]
      rfl
    all_goals
      rw [hx, tcpSendSegment_eq]
    · rw [hmem, queueOutcome_nil]
      rfl
    · rfl
    · exact hwild
    · rfl
    · rfl
    · rfl

theorem queueOutcome_length_le {flags : UInt8} {dataLen : UInt16}
    (h : needsQueue flags dataLen = true) (mallocs : List Bool) :
    (queueOutcome mallocs flags dataLen).2.length ≤ mallocs.length - 1 := by
  rw [queueOutcome, if_pos h]
  split_ifs
  · exact Nat.le_of_eq (List.length_tail ..)
  · rw [List.length_tail, List.length_tail]
    exact Nat.sub_le _ _
  · exact Nat.le_of_eq (List.length_tail ..)

/-- A byte is sent. -/
theorem Newest.sendByte (h : Newest s c) :
    ∃ s' c', (TcpEvent.send c.addr tcpAck [0] 1).next s = .ok s' ∧ Newest s' c' ∧
      s'.mallocs.length ≤ s.mallocs.length - 1 ∧ c'.core = c.core ∧
      (s.mallocs = [] → c'.retransmitQueue ≠ []) ∧ s'.sent.length = s.sent.length + 1 := by
  generalize hx : tcpSendSegment s c tcpAck [0] 1 = x
  have haddr : x.2.addr = c.addr := by rw [← hx, addr_tcpSendSegment]
  have hnew : Newest x.1 c := by
    rw [← hx]
    exact h.send _ _ _ _
  refine ⟨x.1.setConn x.2, x.2, bind_eq_ok.mpr ⟨c, h.deref, ?_⟩, hnew.setConn haddr, ?_, ?_, ?_, ?_⟩
  · rw [hx]
  all_goals rw [← hx]
  · rw [tcpSendSegment_eq]
    exact queueOutcome_length_le (by decide) _
  · rw [tcpSendSegment_eq]
    rfl
  · intro hmem
    rw [tcpSendSegment_eq, hmem, queueOutcome_nil]
    exact List.cons_ne_nil _ _
  · rw [TcpStack.setConn, sent_tcpSendSegment, List.length_append]
    rfl

/-- The number of allocations that may fail is finite: so many bytes are sent. -/
theorem Newest.exhaust (h : Newest s c) (n : ℕ) (hn : s.mallocs.length ≤ n) :
    ∃ s' c', (List.replicate n (TcpEvent.send c.addr tcpAck [0] 1)).foldlM TcpEvent.next s =
      .ok s' ∧ Newest s' c' ∧ s'.mallocs = [] ∧ c'.core = c.core := by
  induction n generalizing s c with
  | zero => exact ⟨s, c, rfl, h, List.eq_nil_of_length_eq_zero (Nat.le_zero.mp hn), rfl⟩
  | succ n ih =>
      obtain ⟨t, d, ht, hnew, hlen, hcore, -, -⟩ := h.sendByte
      obtain ⟨s', c', hs', hnew', hmem', hcore'⟩ := ih hnew (by omega)
      refine ⟨s', c', ?_, hnew', hmem', hcore'.trans hcore⟩
      have haddr : d.core.addr = c.core.addr := congrArg (·.addr) hcore
      rw [List.replicate_succ, List.foldlM_cons, ht, show c.addr = d.addr from haddr.symm]
      exact hs'

/-- The counter of duplicates after an acknowledgement. -/
def dupAfter (c : TcpConnection) (ack : UInt32) : UInt8 :=
  if ack = c.lastAck then c.dupAckCount + 1 else c.dupAckCount

/-- The segments that an acknowledgement makes the host repeat. -/
def repeats (c : TcpConnection) (ack : UInt32) : ℕ :=
  if ack = c.lastAck ∧ c.dupAckCount + 1 = 3 then 1 else 0

theorem Established.fastRetransmit (h : Established s c) (hq : c.retransmitQueue ≠ [])
    (ack : UInt32) :
    ∃ s' c', fastRetransmit s c ack = .ok (s', c') ∧ Newest s' c ∧ s'.mallocs = [] ∧
      c'.core = { c with dupAckCount := dupAfter c ack }.core ∧
      s'.sent.length = s.sent.length + repeats c ack := by
  obtain ⟨e, es, hq⟩ := List.exists_cons_of_ne_nil hq
  rw [HalOS.fastRetransmit, dupAfter, repeats]
  by_cases hdup : ack = c.lastAck
  · simp only [if_pos hdup]
    by_cases hthree : c.dupAckCount + 1 = 3
    · obtain ⟨x, hx⟩ : ∃ x, x = tcpSendSegment s { c with dupAckCount := c.dupAckCount + 1 }
        tcpAck e.data e.length := ⟨_, rfl⟩
      rw [if_pos hthree, if_pos ⟨hdup, hthree⟩]
      refine ⟨x.1, x.2, ?_, ?_, ?_, ?_, ?_⟩
      · simp only [repeatFront, hq]
        rw [hx, ← hq]
      all_goals rw [hx]
      · exact h.toNewest.send _ _ _ _
      · rw [tcpSendSegment_eq, h.memory, queueOutcome_nil]
      · rw [tcpSendSegment_eq]
        rfl
      · rw [sent_tcpSendSegment, List.length_append]
        rfl
    · rw [if_neg hthree, if_neg fun heq => hthree heq.2]
      exact ⟨s, _, rfl, h.toNewest, h.memory, rfl, rfl⟩
  · rw [if_neg hdup, if_neg hdup, if_neg fun heq => hdup heq.1]
    exact ⟨s, c, rfl, h.toNewest, h.memory, rfl, rfl⟩

/-- An acknowledgement without data counts as a duplicate or not. -/
theorem Established.probe (h : Established s c) (hq : c.retransmitQueue ≠ []) (ack : UInt32) :
    ∃ s' c', (probe c.key 0 ack tcpAck).arrives.next s = .ok s' ∧ Established s' c' ∧
      c'.key = c.key ∧ c'.addr = c.addr ∧ c'.lastAck = c.lastAck ∧
      c'.dupAckCount = dupAfter c ack ∧ s'.sent.length = s.sent.length + repeats c ack := by
  obtain ⟨t, d, hfast, hnew, hmem, hcore, hsent⟩ := h.fastRetransmit hq ack
  rw [h.arrives 0 ack (by decide), handleInState, h.state]
  generalize htcp : (HalOS.probe c.key 0 ack tcpAck).header = tcp
  have hack : tcp.ack = ack := by rw [← htcp]; rfl
  have hflags : tcp.flags = tcpAck := by rw [← htcp]; rfl
  have hoff : tcp.dataOffset = 0x50 := by rw [← htcp]; rfl
  have hlen : (20 : UInt16) - tcp.headerLen = 0 := by
    rw [TcpHeader.headerLen, hoff]
    decide
  have hprepare : prepareSegment s c.addr tcp = .ok (t, d) := by
    refine bind_eq_ok.mpr ⟨s, ?_, bind_eq_ok.mpr ⟨c, h.deref, ?_⟩⟩
    · exact checkTcpTimers_nil h.timers
    · rw [reestablish_of_established h.state, hack]
      exact hfast
  have hwild : d.core.queueWild = false := by rw [hcore]; exact h.finite
  have haddr : d.core.addr = c.addr := by rw [hcore]; rfl
  have hset := hnew.setConn (d := d.afterAck tcp.seq tcp.ack 0) haddr
  refine ⟨t.setConn (d.afterAck tcp.seq tcp.ack 0), d.afterAck tcp.seq tcp.ack 0, ?_,
    ⟨hset, hmem, ?_, hwild⟩, ?_, haddr, ?_, ?_, hsent⟩
  · rw [handleEstablishedState_eq, hlen]
    refine bind_eq_ok.mpr ⟨(t, d), hprepare, bind_eq_ok.mpr
      ⟨_, processAck_eq_ok.mpr ⟨hwild, rfl⟩,
        bind_eq_ok.mpr ⟨_, finishSegment_empty hlen ?_ ?_ _, rfl⟩⟩⟩
    · exact (UInt32.add_zero _).symm
    · rw [hflags]
      decide
  · exact (congrArg (·.state) hcore).trans h.state
  · exact congrArg (·.key) hcore
  · exact congrArg (·.lastAck) hcore
  · exact congrArg (·.dupAckCount) hcore

/-- A byte is sent, and an acknowledgement comes. -/
def probeRound (c : TcpConnection) (ack : UInt32) : List TcpEvent :=
  [.send c.addr tcpAck [0] 1, (probe c.key 0 ack tcpAck).arrives]

theorem Established.probeRound (h : Established s c) (ack : UInt32) :
    ∃ s' c', (probeRound c ack).foldlM TcpEvent.next s = .ok s' ∧ Established s' c' ∧
      c'.key = c.key ∧ c'.addr = c.addr ∧ c'.lastAck = c.lastAck ∧
      c'.dupAckCount = dupAfter c ack ∧ s'.sent.length = s.sent.length + 1 + repeats c ack := by
  obtain ⟨t, d, ht, hnew, hlen, hcore, hq, hsent⟩ := h.sendByte
  have hmem : t.mallocs = [] := by
    rw [h.memory] at hlen
    exact List.eq_nil_of_length_eq_zero (Nat.le_zero.mp hlen)
  have hest : Established t d :=
    ⟨hnew, hmem, (congrArg (·.state) hcore).trans h.state,
      (congrArg (·.queueWild) hcore).trans h.finite⟩
  have hkey : d.core.key = c.core.key := congrArg (·.key) hcore
  have haddr : d.core.addr = c.core.addr := congrArg (·.addr) hcore
  have hlast : d.core.lastAck = c.core.lastAck := congrArg (·.lastAck) hcore
  have hdup : d.core.dupAckCount = c.core.dupAckCount := congrArg (·.dupAckCount) hcore
  obtain ⟨s', c', hs', hest', hkey', haddr', hlast', hdup', hsent'⟩ := hest.probe (hq h.memory) ack
  refine ⟨s', c', ?_, hest', hkey'.trans hkey, haddr'.trans haddr, hlast'.trans hlast, ?_, ?_⟩
  · rw [HalOS.probeRound, List.foldlM_cons, ht]
    refine bind_eq_ok.mpr ⟨t, rfl, bind_eq_ok.mpr ⟨s', ?_, rfl⟩⟩
    rw [← hs']
    exact congrArg (fun k => (HalOS.probe k 0 ack tcpAck).arrives.next t) hkey.symm
  · rw [hdup', dupAfter, dupAfter]
    exact congrArg₂ (fun l n => if ack = l then n + 1 else n) hlast hdup
  · rw [hsent', hsent, repeats, repeats]
    exact congrArg₂ (fun l (n : UInt8) => s.sent.length + 1 + if ack = l ∧ n + 1 = 3 then 1 else 0)
      hlast hdup

/-- So many rounds. -/
def probeRounds (c : TcpConnection) (ack : UInt32) : ℕ → List TcpEvent
  | 0 => []
  | n + 1 => probeRounds c ack n ++ probeRound c ack

theorem probeRound_congr (hkey : d.key = c.key) (haddr : d.addr = c.addr) (ack : UInt32) :
    HalOS.probeRound d ack = HalOS.probeRound c ack := by
  rw [probeRound, probeRound, hkey, haddr]

theorem probeRounds_congr (hkey : d.key = c.key) (haddr : d.addr = c.addr) (ack : UInt32) (n : ℕ) :
    probeRounds d ack n = probeRounds c ack n := by
  induction n with
  | zero => rfl
  | succ n ih => rw [probeRounds, probeRounds, ih, probeRound_congr hkey haddr]

/-- The counter goes up with the rounds if the number is the last one acknowledged. -/
theorem Established.probeRounds (h : Established s c) (ack : UInt32) (n : ℕ) :
    ∃ s' c', (probeRounds c ack n).foldlM TcpEvent.next s = .ok s' ∧ Established s' c' ∧
      c'.key = c.key ∧ c'.addr = c.addr ∧ c'.lastAck = c.lastAck ∧
      c'.dupAckCount = if ack = c.lastAck then c.dupAckCount + UInt8.ofNat n
        else c.dupAckCount := by
  induction n with
  | zero =>
      refine ⟨s, c, rfl, h, rfl, rfl, rfl, ?_⟩
      split_ifs
      · exact (UInt8.add_zero _).symm
      · rfl
  | succ n ih =>
      obtain ⟨t, d, ht, hest, hkey, haddr, hlast, hdup⟩ := ih
      obtain ⟨s', c', hs', hest', hkey', haddr', hlast', hdup', -⟩ := hest.probeRound ack
      refine ⟨s', c', ?_, hest', hkey'.trans hkey, haddr'.trans haddr, hlast'.trans hlast, ?_⟩
      · rw [HalOS.probeRounds, List.foldlM_append, ht, ← probeRound_congr hkey haddr]
        exact hs'
      · rw [hdup', dupAfter, hdup, hlast]
        by_cases heq : ack = c.lastAck
        · rw [if_pos heq, if_pos heq, if_pos heq, UInt8.ofNat_add, UInt8.add_assoc]
          rfl
        · rw [if_neg heq, if_neg heq, if_neg heq]

/-- What the two runs of a list of events have sent. -/
theorem Independent.sent_length {remoteIp : UInt32} {remotePort : UInt16}
    (h : Independent s σ τ remoteIp remotePort) (events : List TcpEvent) {u v : TcpStack}
    (hu : events.foldlM TcpEvent.next (tcpConnect s σ remoteIp remotePort) = .ok u)
    (hv : events.foldlM TcpEvent.next (tcpConnect s τ remoteIp remotePort) = .ok v) :
    v.sent.length = u.sent.length := by
  obtain ⟨w, hw, cs, ls, rfl, -, hls⟩ := (h events).of_ok hu
  rw [← Except.ok.inj (hw.symm.trans hv)]
  exact hls.length_eq.symm

theorem Independent.newest {remoteIp : UInt32} {remotePort : UInt16}
    (h : Independent s σ τ remoteIp remotePort) (events : List TcpEvent) {u v : TcpStack}
    (hu : events.foldlM TcpEvent.next (tcpConnect s σ remoteIp remotePort) = .ok u)
    (hv : events.foldlM TcpEvent.next (tcpConnect s τ remoteIp remotePort) = .ok v)
    (hc : Newest u c) (hd : Newest v d) (haddr : c.addr = s.nextAddr) : SameConn σ τ c d := by
  obtain ⟨w, hw, cs, ls, rfl, hcs, -⟩ := (h events).of_ok hu
  obtain rfl := Except.ok.inj (hw.symm.trans hv)
  obtain ⟨rest, hrest⟩ := hc.list
  obtain ⟨rest', rfl⟩ : ∃ rest', cs = d :: rest' := hd.list
  rw [hrest, List.forall₂_cons] at hcs
  exact hcs.1.1 haddr

/-- The connection that the active open leaves. -/
theorem newest_tcpConnect (hmem : s.malloc.1 = true) (htimers : s.activeTimers = [])
    (σ : StaleBlock) (remoteIp : UInt32) (remotePort : UInt16) :
    ∃ c, Newest (tcpConnect s σ remoteIp remotePort) c ∧ c.addr = s.nextAddr ∧
      c.state = .synSent ∧ c.queueWild = σ.queueWild ∧ c.recvBuffer = σ.recvBuffer ∧
      c.lastAck = σ.lastAck ∧ c.dupAckCount = σ.dupAckCount := by
  obtain ⟨c, t, x, rfl, rfl, rfl, heq⟩ := tcpConnect_eq hmem σ remoteIp remotePort
  rw [heq, tcpSendSegment_eq]
  exact ⟨_, ⟨⟨_, rfl⟩, htimers⟩, rfl, rfl, rfl, rfl, rfl, rfl⟩

/-- The last number a block holds comes up again after as many rounds as its counter lacks. -/
theorem agree_of_repeats (heq : ∀ ack n,
    repeats (c := { c with dupAckCount :=
      if ack = c.lastAck then c.dupAckCount + UInt8.ofNat n else c.dupAckCount }) ack =
    repeats { d with dupAckCount :=
      if ack = d.lastAck then d.dupAckCount + UInt8.ofNat n else d.dupAckCount } ack) :
    d.dupAckCount = c.dupAckCount ∧ d.lastAck = c.lastAck := by
  have h := heq c.lastAck (2 - c.dupAckCount).toNat
  simp only [repeats, if_true, UInt8.ofNat_toNat] at h
  have hc : c.dupAckCount + (2 - c.dupAckCount) + 1 = 3 := by grind
  rw [if_pos ⟨trivial, hc⟩] at h
  by_cases hd : c.lastAck = d.lastAck
  · rw [if_pos hd] at h
    by_cases hthree : d.dupAckCount + (2 - c.dupAckCount) + 1 = 3
    · refine ⟨?_, hd.symm⟩
      grind
    · rw [if_neg fun h => hthree h.2] at h
      cases h
  · rw [if_neg fun h => hd h.1] at h
    cases h

/-- From the second segment on: allocations are used up, and the handshake completes. -/
theorem Newest.exhaust_synAck (h : Newest s c) (hstate : c.state = .synSent)
    (hwild : c.queueWild = false) {n : ℕ} (hn : s.mallocs.length ≤ n) :
    ∃ t d, (List.replicate n (TcpEvent.send c.addr tcpAck [0] 1)).foldlM TcpEvent.next s = .ok t ∧
      Newest t d ∧ d.core = c.core ∧
      ∃ s' c', (probe d.key 0 d.nextSeq (tcpSyn ||| tcpAck)).arrives.next t = .ok s' ∧
        Established s' c' ∧ c'.key = d.key ∧ c'.addr = d.addr ∧ c'.lastAck = c.lastAck ∧
        c'.dupAckCount = c.dupAckCount := by
  obtain ⟨t, d, ht, hnew, hmem, hcore⟩ := h.exhaust n hn
  obtain ⟨s', c', hs', hest, hkey, haddr, hlast, hdup⟩ := hnew.synAck
    ((congrArg (·.state) hcore).trans hstate) hmem ((congrArg (·.queueWild) hcore).trans hwild)
  exact ⟨t, d, ht, hnew, hcore, s', c', hs', hest, hkey, haddr,
    hlast.trans (congrArg (·.lastAck) hcore), hdup.trans (congrArg (·.dupAckCount) hcore)⟩

/-- Runs that have sent as much after every number of rounds count alike. -/
theorem Established.agree {u v : TcpStack} (hc : Established u c) (hd : Established v d)
    (hkey : d.key = c.key) (haddr : d.addr = c.addr)
    (hlen : ∀ (events : List TcpEvent) (u' v' : TcpStack), events.foldlM TcpEvent.next u = .ok u' →
      events.foldlM TcpEvent.next v = .ok v' → v'.sent.length = u'.sent.length) :
    d.dupAckCount = c.dupAckCount ∧ d.lastAck = c.lastAck := by
  refine agree_of_repeats fun ack n => ?_
  obtain ⟨u₁, c₁, hu₁, hc₁, hck, hca, hcl, hcd⟩ := hc.probeRounds ack n
  obtain ⟨v₁, d₁, hv₁, hd₁, hdk, hda, hdl, hdd⟩ := hd.probeRounds ack n
  obtain ⟨u₂, c₂, hu₂, -, -, -, -, -, hu⟩ := hc₁.probeRound ack
  obtain ⟨v₂, d₂, hv₂, -, -, -, -, -, hv⟩ := hd₁.probeRound ack
  rw [probeRounds_congr hkey haddr] at hv₁
  rw [probeRound_congr hck hca] at hu₂
  rw [probeRound_congr (hdk.trans hkey) (hda.trans haddr)] at hv₂
  have hbefore := hlen _ _ _ hu₁ hv₁
  have hafter := hlen (HalOS.probeRounds c ack n ++ HalOS.probeRound c ack) u₂ v₂
    ((foldlM_append_of_ok hu₁ _).trans hu₂) ((foldlM_append_of_ok hv₁ _).trans hv₂)
  have hrepeats : repeats c₁ ack = repeats d₁ ack := by omega
  rw [repeats, repeats, hcl, hcd, hdl, hdd] at hrepeats
  exact hrepeats

theorem agree_of_independent (hmem : s.malloc.1 = true) (htimers : s.activeTimers = [])
    {remoteIp : UInt32} {remotePort : UInt16} (h : Independent s σ τ remoteIp remotePort) :
    AgreeOnRead σ τ := by
  obtain ⟨c, hc, hca, hcs, hcw, hcb, hcl, hcd⟩ :=
    newest_tcpConnect hmem htimers σ remoteIp remotePort
  obtain ⟨d, hd, hda, hds, hdw, hdb, hdl, hdd⟩ :=
    newest_tcpConnect hmem htimers τ remoteIp remotePort
  have hsame := h.newest [] rfl rfl hc hd hca
  obtain ⟨hwild, hwild'⟩ := hsame.finite
  obtain ⟨t, e, ht, he, hecore, u, c₁, hu, hc₁, hck, hca₁, hcl₁, hcd₁⟩ :=
    hc.exhaust_synAck hcs hwild
      (Nat.le_add_right _ (tcpConnect s τ remoteIp remotePort).mallocs.length)
  obtain ⟨t', e', ht', he', -, v, d₁, hv, hd₁, hdk, hda₁, hdl₁, hdd₁⟩ :=
    hd.exhaust_synAck hds hwild'
      (Nat.le_add_left _ (tcpConnect s σ remoteIp remotePort).mallocs.length)
  rw [hsame.addr] at ht'
  have haddr : e.core.addr = c.core.addr := congrArg (·.addr) hecore
  have hnow := h.newest _ ht ht' he he' (haddr.trans hca)
  rw [hnow.key, hnow.nextSeq] at hv
  have hrun := (foldlM_append_of_ok ht [_]).trans (bind_eq_ok.mpr ⟨u, hu, rfl⟩)
  have hrun' := (foldlM_append_of_ok ht' [_]).trans (bind_eq_ok.mpr ⟨v, hv, rfl⟩)
  obtain ⟨hdup, hlast⟩ := hc₁.agree hd₁ (by rw [hck, hdk, hnow.key])
    (by rw [hca₁, hda₁, hnow.addr]) fun events u' v' hu' hv' =>
      h.sent_length _ ((foldlM_append_of_ok hrun events).trans hu')
        ((foldlM_append_of_ok hrun' events).trans hv')
  exact
    { queue := ⟨hcw ▸ hwild, hdw ▸ hwild'⟩
      length := by rw [← hcb, ← hdb, hsame.length]
      dupAck := by rw [← hdd, ← hdd₁, hdup, hcd₁, hcd]
      lastAck := by rw [← hdl, ← hdl₁, hlast, hcl₁, hcl] }

/-! ### Independence -/

/-- **An active open depends on the stale memory in four fields.** In every state that is reached
agreement in the fields that are read is enough for alike runs. While no timer is running it is
also necessary; with timers, a check that follows freed memory may end both runs before the
difference shows. -/
theorem independent_iff_agreeOnRead {ticks nicIp : UInt32} {indexHtml : Option (List UInt8)}
    {mallocs : List Bool} {s : TcpStack}
    (h : Steps TcpEvent.next (fun _ _ => True) (.boot ticks nicIp indexHtml mallocs) s)
    (hmem : s.malloc.1 = true) (σ τ : StaleBlock) (remoteIp : UInt32) (remotePort : UInt16) :
    (AgreeOnRead σ τ → Independent s σ τ remoteIp remotePort) ∧
    (s.activeTimers = [] → Independent s σ τ remoteIp remotePort → AgreeOnRead σ τ) := by
  have haddr : Addressed s := h.invariant (addressed_boot ..) fun _ _ _ h _ hs => h.next hs
  exact ⟨fun hagree => independent_of_agree haddr hmem hagree remoteIp remotePort,
    fun htimers hind => agree_of_independent hmem htimers hind⟩

/-- A block that was used for a connection before, with one byte left in its buffer. -/
def leftoverBlock : StaleBlock :=
  { StaleBlock.zero with
    mss := 536
    recvBuffer := [0x0A]
    length_lt := by decide }

/-- The first connection of a host runs the same on a block that differs in `mss` only. -/
theorem independent_iff_agreeOnRead_mss :
    Independent (.boot 0 0x0A00020F none []) .zero { StaleBlock.zero with mss := 536 }
      0x0A000202 80 :=
  (independent_iff_agreeOnRead .refl rfl _ _ _ _).1 ⟨⟨rfl, rfl⟩, rfl, rfl, rfl⟩

/-- The byte that was left shows in the window of the SYN. -/
theorem activeOpen_dependent :
    ¬ Independent (.boot 0 0x0A00020F none []) .zero leftoverBlock 0x0A000202 80 := by
  intro h
  have hlen : leftoverBlock.recvBuffer.length = StaleBlock.zero.recvBuffer.length :=
    (agree_of_independent rfl rfl h).length
  exact absurd hlen (by decide)

end HalOS
