import Mathlib.Data.List.Perm.Basic
import HalOS.Net.TcpRetire

/-!
# Retransmission Timers

A passive open puts its SYN-ACK into the queue and starts a timer for it. Nothing else keeps the
two together: an active open starts no timer, the end of a handshake cancels the timer and leaves
the queue, and a timer that is given up takes the next one off the list with it. So the timers
cover the connections as long as none of this happens.

## Main results

* `timersCover_of_keepsTimers`: the exact condition on the events of a run.
-/

namespace HalOS

open Outcome (Steps bind_eq_ok exists_eq_ok_of_any)

/-! ### Coverage -/

/-- Every timer is one of a connection of the list, no connection has two, and every connection
with a queue has one. -/
structure TimersCover (s : TcpStack) : Prop where
  live : ∀ t ∈ s.activeTimers, t.conn ∈ s.connectionList.map (·.addr)
  single : (s.activeTimers.map (·.conn)).Nodup
  covers : ∀ c ∈ s.connectionList, c.retransmitQueue ≠ [] →
    c.addr ∈ s.activeTimers.map (·.conn)

instance (s : TcpStack) : Decidable (TimersCover s) :=
  decidable_of_iff ((∀ t ∈ s.activeTimers, t.conn ∈ s.connectionList.map (·.addr)) ∧
      (s.activeTimers.map (·.conn)).Nodup ∧
      ∀ c ∈ s.connectionList, c.retransmitQueue ≠ [] → c.addr ∈ s.activeTimers.map (·.conn))
    ⟨fun h => ⟨h.1, h.2.1, h.2.2⟩, fun h => ⟨h.live, h.single, h.covers⟩⟩

/-- The segment ends the handshake of a passive open. -/
def EndsHandshake (s : TcpStack) (srcIp dstIp : UInt32) (tcp : TcpHeader) : Prop :=
  ¬ tcp.dataOffset >>> 4 < 5 ∧ hasFlag tcp.flags tcpRst = false ∧
    ∃ c, findConnection s srcIp tcp.srcPort dstIp tcp.destPort = some c ∧
      c.state = .synReceived ∧ hasFlag tcp.flags tcpAck = true ∧ tcp.ack = c.nextSeq

/-- The event is no active open, no segment that ends a handshake, and no check of the timers
that gives one up. -/
def KeepsTimers (s : TcpStack) : TcpEvent → Prop
  | .connect _ _ _ => False
  | .segment srcIp dstIp bytes _ => ¬ EndsHandshake s srcIp dstIp (.parse bytes)
  | .checkTimers => ∀ t ∈ s.activeTimers, t.expired s → t.retries < maxSynRetries
  | _ => True

/-- A connection that waits for the end of its handshake. -/
structure Waiting (c : TcpConnection) : Prop where
  state : c.state = .synReceived
  queued : c.retransmitQueue ≠ []
  finite : c.queueWild = false

/-- What such runs keep: every connection waits, and the timers are those of the connections. -/
structure Handshaking (s : TcpStack) : Prop where
  addressed : Addressed s
  memory : s.mallocs = []
  waiting : ∀ c ∈ s.connectionList, Waiting c
  timers : (s.activeTimers.map (·.conn)).Perm (s.connectionList.map (·.addr))

variable {s s' : TcpStack} {c : TcpConnection}

theorem Handshaking.timersCover (h : Handshaking s) : TimersCover s where
  live := fun _ ht => h.timers.subset (List.mem_map_of_mem ht)
  single := h.timers.nodup_iff.mpr h.addressed.nodup
  covers := fun _ hc _ => h.timers.symm.subset (List.mem_map_of_mem hc)

/-! ### Sending and removing -/

theorem Waiting.afterSend (h : Waiting c) (flags : UInt8) (data : List UInt8) (dataLen : UInt16)
    (queued : Bool) : Waiting (c.afterSend flags data dataLen queued) where
  state := h.state
  queued := by
    rw [TcpConnection.afterSend]
    cases queued with
    | false => exact h.queued
    | true => exact List.cons_ne_nil _ _
  finite := h.finite

theorem sendInvariant_waiting : SendInvariant Waiting fun _ => True where
  sent := fun _ _ _ => trivial
  afterSend := fun h flags data dataLen queued _ => h.afterSend flags data dataLen queued
  retried := fun h _ _ _ _ => ⟨h.state, List.cons_ne_nil _ _, h.finite⟩

/-- The addresses and the timers stay. -/
theorem Handshaking.write (h : Handshaking s) (haddr : Addressed s') (hmem : s'.mallocs = [])
    (hblocks : ∀ c ∈ s'.connectionList, Waiting c)
    (haddrs : s'.connectionList.map (·.addr) = s.connectionList.map (·.addr))
    (htimers : s'.activeTimers.map (·.conn) = s.activeTimers.map (·.conn)) : Handshaking s' :=
  ⟨haddr, hmem, hblocks, by rw [haddrs, htimers]; exact h.timers⟩

/-- A segment is sent and the block is written back. -/
theorem Handshaking.sendBack (h : Handshaking s) (haddr : Addressed s') (hc : Waiting c)
    {x : TcpStack × TcpConnection} {flags : UInt8} {data : List UInt8} {dataLen : UInt16}
    (hx : x = tcpSendSegment s c flags data dataLen) (hs : s' = x.1.setConn x.2) :
    Handshaking s' := by
  rw [tcpSendSegment_eq] at hx
  subst hx hs
  refine h.write haddr ?_ (fun d hd => ?_) ?_ rfl
  · rw [TcpStack.setConn, h.memory, queueOutcome_nil]
  · obtain rfl | hd := mem_setConn hd
    · exact hc.afterSend _ _ _ _
    · exact h.waiting d hd
  · rw [map_addr_setConn]

theorem map_conn_cancelRetransmissionTimer (s : TcpStack) (conn : ℕ) :
    (cancelRetransmissionTimer s conn).activeTimers.map (·.conn) =
      (s.activeTimers.map (·.conn)).erase conn := by
  rw [List.erase_eq_eraseP', List.eraseP_map]
  rfl

/-- A removal takes the connection and its timer. -/
theorem Handshaking.remove (h : Handshaking s) (haddr : Addressed s') {conn : ℕ}
    (hs : removeConnection s conn = .ok s') : Handshaking s' := by
  obtain ⟨c, -, -, rfl⟩ := exists_of_removeConnection hs
  refine ⟨haddr, h.memory, fun d hd => h.waiting d (List.mem_filter.mp hd).1, ?_⟩
  have haddrs : (s.connectionList.filter fun d => d.addr != conn).map (·.addr) =
      (s.connectionList.map (·.addr)).erase conn := by
    rw [h.addressed.nodup.erase_eq_filter, List.filter_map]
    rfl
  rw [map_conn_cancelRetransmissionTimer, haddrs]
  exact h.timers.erase conn

/-! ### The timer check

In the loop the timers are those before `pp` and those from it on. -/

/-- The retries of a connection that waits are those of its timer. -/
theorem Waiting.exhausted_iff (h : Waiting c) {timer : TcpTimer} :
    Exhausted c timer ↔ ¬ timer.retries < maxSynRetries := by
  rw [Exhausted, if_neg]
  rw [h.state]
  exact TcpState.noConfusion

/-- A retransmission changes neither the addresses nor the connection of the timer. -/
theorem retransmitOnTimer_waiting (h : ∀ c ∈ s.connectionList, Waiting c) (hmem : s.mallocs = [])
    {timer timer' : TcpTimer} (hc : s.deref timer.conn = .ok c)
    (hretry : retransmitOnTimer s timer c = .ok (some (s', timer'))) :
    (∀ d ∈ s'.connectionList, Waiting d) ∧ s'.mallocs = [] ∧
      s'.connectionList.map (·.addr) = s.connectionList.map (·.addr) ∧
      s'.nextAddr = s.nextAddr ∧ s'.ticks = s.ticks ∧ timer'.conn = timer.conn := by
  have hframe := frame_retransmitOnTimer hretry
  have hholds := sendInvariant_waiting.retransmitOnTimer ⟨h, fun _ _ => trivial⟩
    (h c (deref_eq_ok hc).1) hretry
  have haddrs (d : TcpConnection) (flags : UInt8) (data : List UInt8) (dataLen : UInt16)
      {x : TcpStack × TcpConnection} (hx : x = tcpSendSegment s d flags data dataLen) :
      (x.1.setConn x.2).connectionList.map (·.addr) = s.connectionList.map (·.addr) := by
    rw [map_addr_setConn, hx, connectionList_tcpSendSegment]
  obtain ⟨e, es, -, -, -, x, hx, rfl, rfl⟩ | ⟨-, -, x, hx, rfl, rfl⟩ :=
    retransmitOnTimer_eq_some hretry
  · exact ⟨hholds.blocks, hframe.mallocs_nil hmem, haddrs _ _ _ _ hx, hframe.nextAddr,
      hframe.ticks, rfl⟩
  · exact ⟨hholds.blocks, hframe.mallocs_nil hmem, haddrs _ _ _ _ hx, hframe.nextAddr,
      hframe.ticks, rfl⟩

/-- The turn of a timer that is kept, in the loop. -/
theorem Handshaking.retry {kept rest : List TcpTimer} {timer timer' : TcpTimer}
    (h : Handshaking { s with activeTimers := kept ++ timer :: rest })
    (hc : s.deref timer.conn = .ok c)
    (hretry : retransmitOnTimer s timer c = .ok (some (s', timer'))) :
    Handshaking { s' with activeTimers := kept ++ [timer'] ++ rest } := by
  obtain ⟨hwaiting, hmem, haddrs, hnext, -, hconn⟩ :=
    retransmitOnTimer_waiting (s := s) h.waiting h.memory hc hretry
  refine h.write (h.addressed.sublist ?_ hnext) hmem hwaiting haddrs ?_
  · rw [haddrs]
  · simp [hconn]

/-- The loop, when it gives no timer up. -/
theorem TimerLoop.handshaking {kept rest : List TcpTimer} (hloop : TimerLoop kept rest s s')
    (h : Handshaking { s with activeTimers := kept ++ rest })
    (hkeep : ∀ t ∈ rest, t.expired s → t.retries < maxSynRetries) : Handshaking s' := by
  induction hloop with
  | done =>
      rw [List.append_nil] at h
      exact h
  | running _ _ _ ih =>
      refine ih ?_ (List.forall_mem_cons.mp hkeep).2
      rwa [List.append_assoc]
  | again hc _ hretry _ ih =>
      refine ih (h.retry hc hretry) fun d hd hexp => (List.forall_mem_cons.mp hkeep).2 d hd ?_
      exact (d.expired_congr (frame_retransmitOnTimer hretry).ticks).mp hexp
  | unlinked hc hexpired hspent _ _ _ _ =>
      exact absurd ((List.forall_mem_cons.mp hkeep).1 hexpired)
        ((h.waiting _ (deref_eq_ok hc).1).exhausted_iff.mp (exhausted_of_none hspent))
  | passedOver hc hexpired hspent _ _ _ _ =>
      exact absurd ((List.forall_mem_cons.mp hkeep).1 hexpired)
        ((h.waiting _ (deref_eq_ok hc).1).exhausted_iff.mp (exhausted_of_none hspent))

/-- A check that gives a timer up: the connection of the next one loses its timer. -/
theorem Handshaking.not_timersCover_checkTcpTimers (h : Handshaking s)
    (hgive : ∃ t ∈ s.activeTimers, t.expired s ∧ ¬ t.retries < maxSynRetries)
    (hs : checkTcpTimers s = .ok s') : ¬ TimersCover s' := by
  intro hcover
  have howns := h.timersCover
  obtain ⟨d, hd, hexpired, hretries⟩ := hgive
  obtain ⟨e, he, heq⟩ := List.mem_map.mp (howns.live d hd)
  have hderef : s.deref d.conn = .ok e := by
    rw [← heq]
    exact h.addressed.deref_of_mem he
  obtain ⟨o, -, hstays, hnone⟩ := (timerLoop_of_checkTcpTimers hs).orphan howns.single howns.live
    ⟨d, hd, hexpired, e, hderef, (h.waiting e he).exhausted_iff.mpr hretries⟩
  obtain ⟨c, hc, hconn⟩ := List.mem_map.mp hstays
  have hwaiting := (sendInvariant_waiting.sends_checkTcpTimers hs h.waiting).1 c hc
  rw [← hconn] at hnone
  exact hnone (hcover.covers c hc hwaiting.queued)

/-! ### The events -/

/-- While memory lasts a timer is started. -/
theorem map_conn_startRetransmissionTimer (h : s.mallocs = []) (conn : ℕ) (timeoutMs : UInt32) :
    (startRetransmissionTimer s conn timeoutMs).activeTimers.map (·.conn) =
      conn :: s.activeTimers.map (·.conn) := by
  rw [startRetransmissionTimer, TcpStack.malloc, h]
  rfl

theorem malloc_nil (h : s.mallocs = []) : s.malloc.1 = true := by
  rw [TcpStack.malloc, h]
  rfl

/-- A passive open queues the SYN-ACK and starts a timer. -/
theorem Handshaking.passiveOpen (h : Handshaking s) {srcIp dstIp : UInt32} {tcp : TcpHeader}
    {bytes : ℕ → UInt8} (haddr : Addressed s')
    (hs : s' = HalOS.passiveOpen s srcIp dstIp tcp bytes) : Handshaking s' := by
  obtain ⟨hmem, -⟩ | ⟨-, c, t, x, hc, ht, hx, heq⟩ := passiveOpen_cases s srcIp dstIp tcp bytes
  · rw [malloc_nil h.memory] at hmem
    cases hmem
  have htmem : t.mallocs = [] := by
    rw [ht, h.memory]
    rfl
  have hlist : t.connectionList = s.connectionList := by rw [ht]
  have htimers : t.activeTimers = s.activeTimers := by rw [ht]
  rw [tcpSendSegment_eq] at hx
  have hwaiting : Waiting x.2 := by
    rw [hx, addConnection, htmem, queueOutcome_nil, hc]
    exact ⟨rfl, List.cons_ne_nil _ _, rfl⟩
  have hxaddr : x.2.addr = c.addr := by
    rw [hx]
    rfl
  have hxlist : x.1.connectionList = c :: s.connectionList := by
    rw [hx, addConnection, hlist]
  have hxmem : (x.1.setConn x.2).mallocs = [] := by
    rw [TcpStack.setConn, hx, addConnection, htmem, queueOutcome_nil]
  rw [hs, heq] at haddr ⊢
  refine ⟨haddr, (frame_startRetransmissionTimer _ _ _).mallocs_nil hxmem, fun d hd => ?_, ?_⟩
  · rw [connectionList_startRetransmissionTimer, TcpStack.setConn, hxlist, List.map_cons,
      if_pos hxaddr.symm] at hd
    obtain rfl | hd := List.mem_cons.mp hd
    · exact hwaiting
    · obtain rfl | hd := mem_setConn (s := s) hd
      · exact hwaiting
      · exact h.waiting d hd
  · rw [map_conn_startRetransmissionTimer hxmem, connectionList_startRetransmissionTimer,
      map_addr_setConn, hxlist, List.map_cons, hxaddr]
    have hxtimers : (x.1.setConn x.2).activeTimers = s.activeTimers := by
      rw [TcpStack.setConn, hx, addConnection, htimers]
    rw [hxtimers]
    exact h.timers.cons _

/-- A segment that does not end a handshake. -/
theorem Handshaking.handleSegment (h : Handshaking s) {srcIp dstIp : UInt32} {tcp : TcpHeader}
    {bytes : ℕ → UInt8} {len : UInt16} (haddr : Addressed s')
    (hends : ¬ EndsHandshake s srcIp dstIp tcp)
    (hs : HalOS.handleSegment s srcIp dstIp tcp bytes len = .ok s') : Handshaking s' := by
  have hreset : Addressed (tcpSendReset s srcIp dstIp tcp) →
      Handshaking (tcpSendReset s srcIp dstIp tcp) := by
    intro haddr
    rw [tcpSendReset, tcpSendSegment_eq] at haddr ⊢
    exact h.write haddr (by rw [h.memory, queueOutcome_nil]) h.waiting rfl rfl
  by_cases hoff : tcp.dataOffset >>> 4 < 5
  · rw [HalOS.handleSegment, if_pos hoff] at hs
    obtain rfl := Except.ok.inj hs
    exact hreset haddr
  obtain rfl | rfl | ⟨-, -, -, hopen⟩ | ⟨c, hfind, hrem | ⟨hrst, hin⟩⟩ := handleSegment_eq_ok hs
  · exact h
  · exact hreset haddr
  · exact h.passiveOpen haddr hopen
  · exact h.remove haddr hrem
  · have hstate := (h.waiting c (List.mem_of_find?_eq_some hfind)).state
    rw [handleInState, hstate, Except.ok.injEq, handleSynReceived, if_neg] at hin
    · exact hin ▸ h
    · exact fun hack => hends ⟨hoff, hrst, c, hfind, hstate, hack⟩

/-- An event that keeps the timers keeps the two lists together. -/
theorem Handshaking.next (h : Handshaking s) {e : TcpEvent} (hkeep : KeepsTimers s e)
    (hs : e.next s = .ok s') : Handshaking s' := by
  have haddr : Addressed s' := h.addressed.next hs
  cases e with
  | segment srcIp dstIp bytes len => exact h.handleSegment haddr hkeep hs
  | connect stale remoteIp remotePort => exact hkeep.elim
  | listen port =>
      obtain rfl := Except.ok.inj hs
      rw [tcpListen, TcpStack.malloc, h.memory] at haddr ⊢
      exact h.write haddr rfl h.waiting rfl rfl
  | send conn flags data dataLen =>
      obtain ⟨c, hc, hs⟩ := bind_eq_ok.mp hs
      exact h.sendBack haddr (h.waiting c (deref_eq_ok hc).1) rfl (Except.ok.inj hs).symm
  | remove conn => exact h.remove haddr hs
  | checkTimers => exact (timerLoop_of_checkTcpTimers hs).handshaking h hkeep
  | drain conn =>
      obtain ⟨c, hc, hs⟩ := bind_eq_ok.mp hs
      obtain rfl := Except.ok.inj hs
      refine h.write haddr h.memory (fun d hd => ?_) (map_addr_setConn _ _) rfl
      obtain rfl | hd := mem_setConn hd
      · have hwaiting := h.waiting c (deref_eq_ok hc).1
        exact ⟨hwaiting.state, hwaiting.queued, hwaiting.finite⟩
      · exact h.waiting d hd
  | tick ticks =>
      obtain rfl := Except.ok.inj hs
      exact h.write haddr h.memory h.waiting rfl rfl

/-- An active open queues the SYN and starts no timer. -/
theorem Handshaking.not_timersCover_tcpConnect (h : Handshaking s) (stale : StaleBlock)
    (remoteIp : UInt32) (remotePort : UInt16) :
    ¬ TimersCover (tcpConnect s stale remoteIp remotePort) := by
  intro hcover
  obtain ⟨hmem, -⟩ | ⟨-, c, t, x, hc, ht, hx, heq⟩ :=
    tcpConnect_cases s stale remoteIp remotePort
  · rw [malloc_nil h.memory] at hmem
    cases hmem
  have htmem : t.mallocs = [] := by
    rw [ht, h.memory]
    rfl
  rw [tcpSendSegment_eq, htmem, queueOutcome_nil] at hx
  have hqueued : x.2.retransmitQueue ≠ [] := by
    rw [hx]
    exact List.cons_ne_nil _ _
  have hxaddr : x.2.addr = s.nextAddr := by
    rw [hx, hc]
    rfl
  have htimers : (addConnection x.1 x.2).activeTimers = s.activeTimers := by
    rw [addConnection, hx, ht]
  rw [heq] at hcover
  have hmem := hcover.covers x.2 List.mem_cons_self hqueued
  rw [htimers, hxaddr] at hmem
  obtain ⟨d, hd, hd'⟩ := List.mem_map.mp (h.timers.subset hmem)
  exact absurd hd' (Nat.ne_of_lt (h.addressed.bound d hd).2)

/-- The end of a handshake cancels the timer and leaves the SYN-ACK in the queue. -/
theorem Handshaking.not_timersCover_handleSegment (h : Handshaking s) {srcIp dstIp : UInt32}
    {tcp : TcpHeader} {bytes : ℕ → UInt8} {len : UInt16} (hends : EndsHandshake s srcIp dstIp tcp)
    (hs : HalOS.handleSegment s srcIp dstIp tcp bytes len = .ok s') : ¬ TimersCover s' := by
  obtain ⟨hoff, hrst, c, hfind, hstate, hack⟩ := hends
  have hmem : c ∈ s.connectionList := List.mem_of_find?_eq_some hfind
  rw [handleSegment_of_find hoff hfind hrst, handleInState, hstate, Except.ok.injEq,
    handleSynReceived, if_pos hack] at hs
  subst hs
  intro hcover
  have htimer := hcover.covers { c with state := .established }
    (List.mem_map.mpr ⟨c, hmem, if_pos rfl⟩) (h.waiting c hmem).queued
  rw [map_conn_cancelRetransmissionTimer] at htimer
  exact (h.timers.nodup_iff.mpr h.addressed.nodup).not_mem_erase htimer

/-- Any other event breaks the coverage. -/
theorem Handshaking.not_timersCover (h : Handshaking s) {e : TcpEvent} (hkeep : ¬ KeepsTimers s e)
    (hs : e.next s = .ok s') : ¬ TimersCover s' := by
  cases e with
  | segment srcIp dstIp bytes len =>
      exact h.not_timersCover_handleSegment (not_not.mp hkeep) hs
  | connect stale remoteIp remotePort =>
      obtain rfl := Except.ok.inj hs
      exact h.not_timersCover_tcpConnect stale remoteIp remotePort
  | checkTimers =>
      refine h.not_timersCover_checkTcpTimers ?_ hs
      simpa only [KeepsTimers, Classical.not_forall, exists_prop] using hkeep
  | _ => exact absurd trivial hkeep

/-! ### Runs -/

theorem handshaking_boot (ticks nicIp : UInt32) (indexHtml : Option (List UInt8)) :
    Handshaking (.boot ticks nicIp indexHtml []) :=
  ⟨addressed_boot _ _ _ _, rfl, fun _ hc => absurd hc List.not_mem_nil, List.Perm.nil⟩

/-- **The timers cover the connections**, exactly in the runs in which nothing is opened
actively, no handshake ends and no timer is given up: they do in every state of such a run, and
any other event that goes on from there ends it. -/
theorem timersCover_of_keepsTimers (ticks nicIp : UInt32) (indexHtml : Option (List UInt8))
    (s : TcpStack) (h : Steps TcpEvent.next KeepsTimers (.boot ticks nicIp indexHtml []) s) :
    TimersCover s ∧ ∀ e s', e.next s = .ok s' → (TimersCover s' ↔ KeepsTimers s e) := by
  have hs : Handshaking s :=
    h.invariant (handshaking_boot ticks nicIp indexHtml) fun _ _ _ h hkeep hs => h.next hkeep hs
  refine ⟨hs.timersCover, fun e s' hnext => ⟨fun hcover => ?_, fun hkeep => ?_⟩⟩
  · by_contra hkeep
    exact hs.not_timersCover hkeep hnext hcover
  · exact (hs.next hkeep hnext).timersCover

/-- After a SYN has come in, the connection that waits has its timer. -/
theorem timersCover_of_keepsTimers_syn :
    ∃ s, Steps TcpEvent.next KeepsTimers (.boot 0 0x0A00020F none []) s ∧
      s.activeTimers.length = 1 ∧ TimersCover s := by
  have hlisten : Steps TcpEvent.next KeepsTimers (.boot 0 0x0A00020F none [])
      (tcpListen (.boot 0 0x0A00020F none []) 8080) := .tail (.listen 8080) .refl trivial rfl
  obtain ⟨s, hsyn, hone⟩ := exists_eq_ok_of_any (p := fun s => s.activeTimers.length == 1)
    (x := (peerSegment 0 0 tcpSyn []).arrives.next
      (tcpListen (.boot 0 0x0A00020F none []) 8080)) (by decide +kernel)
  have hsteps := hlisten.tail _ (by rintro ⟨-, -, c, hfind, -⟩; cases hfind) hsyn
  exact ⟨s, hsteps, beq_iff_eq.mp hone, (timersCover_of_keepsTimers 0 0x0A00020F none s hsteps).1⟩

/-- An active open has its SYN in the queue and no timer. -/
theorem timersCover_violated :
    ¬ ∀ s, Steps TcpEvent.next (fun _ _ => True) (.boot 0 0x0A00020F none []) s →
      TimersCover s := by
  intro hall
  obtain ⟨s, hrun, huncovered⟩ := exists_eq_ok_of_any (p := fun s => !decide (TimersCover s))
    (x := [TcpEvent.connect .zero 0x0A000202 8080].foldlM TcpEvent.next
      (.boot 0 0x0A00020F none [])) (by decide +kernel)
  simp only [hall s (Steps.of_foldlM hrun), decide_true, Bool.not_true] at huncovered
  cases huncovered

end HalOS
