import Mathlib.Data.List.Nodup
import HalOS.Net.TcpInvariant

/-!
# What the Handlers Leave Alone

A handler writes control blocks back in place and takes some off the list; it never adds one,
never takes back a segment, and leaves the clock, the ports and the counter alone. Only the two
opens put a block on the list, at a fresh address, so addresses stay distinct.

## Main results

* `frame_handleInState`, `frame_checkTcpTimers`: the frame of the handlers.
* `Addressed.next`: every event keeps addresses distinct.
-/

namespace HalOS

open Outcome (bind_eq_ok)

/-- The step leaves the addresses of the blocks that stay, extends the log, and leaves the
surroundings alone. -/
structure Frame (s s' : TcpStack) : Prop where
  addrs : (s'.connectionList.map (·.addr)).Sublist (s.connectionList.map (·.addr))
  sent : s.sent <+: s'.sent
  mallocs : s'.mallocs <:+ s.mallocs
  listenPorts : s'.listenPorts = s.listenPorts
  counter : s'.counter = s.counter
  ticks : s'.ticks = s.ticks
  nicIp : s'.nicIp = s.nicIp
  indexHtml : s'.indexHtml = s.indexHtml
  nextAddr : s'.nextAddr = s.nextAddr

variable {s s' t : TcpStack} {c c' : TcpConnection}

namespace Frame

theorem refl (s : TcpStack) : Frame s s :=
  ⟨List.Sublist.refl _, List.prefix_refl _, List.suffix_refl _, rfl, rfl, rfl, rfl, rfl, rfl⟩

theorem trans (h : Frame s s') (h' : Frame s' t) : Frame s t where
  addrs := h'.addrs.trans h.addrs
  sent := h.sent.trans h'.sent
  mallocs := h'.mallocs.trans h.mallocs
  listenPorts := h'.listenPorts.trans h.listenPorts
  counter := h'.counter.trans h.counter
  ticks := h'.ticks.trans h.ticks
  nicIp := h'.nicIp.trans h.nicIp
  indexHtml := h'.indexHtml.trans h.indexHtml
  nextAddr := h'.nextAddr.trans h.nextAddr

/-- While memory lasts it goes on lasting. -/
theorem mallocs_nil (h : Frame s s') (hs : s.mallocs = []) : s'.mallocs = [] := by
  have hsuffix := h.mallocs
  rwa [hs, List.suffix_nil] at hsuffix

end Frame

/-- Writing a block back changes no address. -/
theorem map_addr_setConn (s : TcpStack) (c : TcpConnection) :
    (s.setConn c).connectionList.map (·.addr) = s.connectionList.map (·.addr) := by
  rw [TcpStack.setConn, List.map_map]
  refine List.map_congr_left fun d _ => ?_
  rw [Function.comp_apply]
  split_ifs with h
  · exact h.symm
  · rfl

theorem frame_setConn (s : TcpStack) (c : TcpConnection) : Frame s (s.setConn c) where
  addrs := by rw [map_addr_setConn]
  sent := List.prefix_refl _
  mallocs := List.suffix_refl _
  listenPorts := rfl
  counter := rfl
  ticks := rfl
  nicIp := rfl
  indexHtml := rfl
  nextAddr := rfl

theorem frame_timers (s : TcpStack) (timers : List TcpTimer) :
    Frame s { s with activeTimers := timers } :=
  ⟨List.Sublist.refl _, List.prefix_refl _, List.suffix_refl _, rfl, rfl, rfl, rfl, rfl, rfl⟩

theorem queueOutcome_suffix (mallocs : List Bool) (flags : UInt8) (dataLen : UInt16) :
    (queueOutcome mallocs flags dataLen).2 <:+ mallocs := by
  rw [queueOutcome]
  split_ifs
  · exact List.tail_suffix _
  · exact (List.tail_suffix _).trans (List.tail_suffix _)
  · exact List.tail_suffix _
  · exact List.suffix_refl _

theorem frame_tcpSendSegment (s : TcpStack) (c : TcpConnection) (flags : UInt8)
    (data : List UInt8) (dataLen : UInt16) :
    Frame s (tcpSendSegment s c flags data dataLen).1 := by
  rw [tcpSendSegment_eq]
  exact ⟨List.Sublist.refl _, List.prefix_append _ _, queueOutcome_suffix _ _ _, rfl, rfl, rfl,
    rfl, rfl, rfl⟩

theorem frame_malloc (s : TcpStack) : Frame s s.malloc.2 :=
  ⟨List.Sublist.refl _, List.prefix_refl _, List.tail_suffix _, rfl, rfl, rfl, rfl, rfl, rfl⟩

theorem frame_startRetransmissionTimer (s : TcpStack) (conn : ℕ) (timeoutMs : UInt32) :
    Frame s (startRetransmissionTimer s conn timeoutMs) := by
  rw [startRetransmissionTimer]
  have hmalloc := frame_malloc s
  generalize s.malloc = x at hmalloc
  obtain ⟨ok, t⟩ := x
  cases ok with
  | false => exact hmalloc
  | true => exact hmalloc.trans (frame_timers _ _)

theorem frame_freeConnection (h : freeConnection s c = .ok s') : Frame s s' := by
  obtain ⟨-, rfl⟩ := freeConnection_eq_ok.mp h
  exact ⟨List.filter_sublist.map _, List.prefix_refl _, List.suffix_refl _, rfl, rfl, rfl, rfl,
    rfl, rfl⟩

theorem frame_removeConnection {conn : ℕ} (h : removeConnection s conn = .ok s') : Frame s s' := by
  obtain ⟨c, -, hfree⟩ := bind_eq_ok.mp h
  exact (frame_timers s _).trans (frame_freeConnection hfree)

/-- A segment is sent and a block is written back. -/
theorem frame_sendBack {x : TcpStack × TcpConnection} {flags : UInt8} {data : List UInt8}
    {dataLen : UInt16} (h : x = tcpSendSegment s c flags data dataLen) (c' : TcpConnection) :
    Frame s (x.1.setConn c') := by
  subst h
  exact (frame_tcpSendSegment s c flags data dataLen).trans (frame_setConn _ c')

theorem frame_retransmitOnTimer {timer timer' : TcpTimer}
    (h : retransmitOnTimer s timer c = .ok (some (s', timer'))) : Frame s s' := by
  obtain ⟨e, es, -, -, -, x, hx, rfl, -⟩ | ⟨-, -, x, hx, rfl, -⟩ := retransmitOnTimer_eq_some h
  · exact frame_sendBack hx _
  · exact frame_sendBack hx _

/-- A relation of stacks that whatever the loop of the timer check does stays in. -/
structure TimerClosed (F : TcpStack → TcpStack → Prop) : Prop where
  trans : ∀ {s s' t}, F s s' → F s' t → F s t
  timers : ∀ s timers, F s { s with activeTimers := timers }
  retry : ∀ {s s' timer timer' c}, s.deref timer.conn = .ok c →
    retransmitOnTimer s timer c = .ok (some (s', timer')) → F s s'
  free : ∀ {s s'} {timer : TcpTimer} {c}, s.deref timer.conn = .ok c →
    freeConnection s c = .ok s' → F s s'

/-- The loop of the timer check. -/
theorem TimerClosed.timerLoop {F : TcpStack → TcpStack → Prop} (H : TimerClosed F)
    {kept rest : List TcpTimer} (h : TimerLoop kept rest s s') : F s s' := by
  induction h with
  | done => exact H.timers _ _
  | running _ _ _ ih => exact ih
  | again hc _ hretry _ ih => exact H.trans (H.retry hc hretry) ih
  | unlinked hc _ _ hfree _ _ ih => exact H.trans (H.free hc hfree) ih
  | passedOver hc _ _ hfree _ _ ih => exact H.trans (H.free hc hfree) ih

theorem TimerClosed.checkTcpTimers {F : TcpStack → TcpStack → Prop} (H : TimerClosed F)
    (h : checkTcpTimers s = .ok s') : F s s' :=
  H.timerLoop (timerLoop_of_checkTcpTimers h)

theorem frame_checkTcpTimers (h : checkTcpTimers s = .ok s') : Frame s s' :=
  TimerClosed.checkTcpTimers
    { trans := Frame.trans
      timers := frame_timers
      retry := fun _ hretry => frame_retransmitOnTimer hretry
      free := fun _ hfree => frame_freeConnection hfree } h

/-- What the timer check sends, for blocks that satisfy `P`. -/
theorem SendInvariant.sends_checkTcpTimers {P : TcpConnection → Prop} {Q : TcpSegment → Prop}
    (H : SendInvariant P Q) (hs : HalOS.checkTcpTimers s = .ok s')
    (h : ∀ c ∈ s.connectionList, P c) :
    (∀ c ∈ s'.connectionList, P c) ∧ ∃ more, s'.sent = s.sent ++ more ∧ ∀ seg ∈ more, Q seg := by
  refine TimerClosed.checkTcpTimers (F := fun s s' => (∀ c ∈ s.connectionList, P c) →
    (∀ c ∈ s'.connectionList, P c) ∧ ∃ more, s'.sent = s.sent ++ more ∧ ∀ seg ∈ more, Q seg)
    { trans := ?_, timers := ?_, retry := ?_, free := ?_ } hs h
  · intro s s' t hss' hst h
    obtain ⟨h', more, hmore, hQ⟩ := hss' h
    obtain ⟨ht, more', hmore', hQ'⟩ := hst h'
    refine ⟨ht, more ++ more', by rw [hmore', hmore, List.append_assoc], fun seg hseg => ?_⟩
    exact (List.mem_append.mp hseg).elim (hQ seg) (hQ' seg)
  · exact fun s timers h => ⟨h, [], (List.append_nil _).symm, fun seg hseg => absurd hseg
      List.not_mem_nil⟩
  · intro s s' timer timer' c hc hretry h
    have hsend {d : TcpConnection} (hd : P d) (flags : UInt8) (data : List UInt8)
        (dataLen : UInt16) (x : TcpStack × TcpConnection)
        (hx : x = tcpSendSegment s d flags data dataLen) :
        (∀ c ∈ (x.1.setConn x.2).connectionList, P c) ∧
          ∃ more, (x.1.setConn x.2).sent = s.sent ++ more ∧ ∀ seg ∈ more, Q seg := by
      rw [tcpSendSegment_eq] at hx
      subst hx
      refine ⟨fun e he => ?_, _, rfl, fun seg hseg => ?_⟩
      · obtain rfl | he := mem_setConn he
        · exact H.afterSend hd _ _ _ _ queueOutcome_needsQueue
        · exact h e he
      · rw [List.mem_singleton.mp hseg]
        exact H.sent hd _ _
    have hP : P c := h c (deref_eq_ok hc).1
    obtain ⟨e, es, -, hq, -, x, hx, rfl, -⟩ | ⟨-, -, x, hx, rfl, -⟩ :=
      retransmitOnTimer_eq_some hretry
    · exact hsend (H.retried hP (e.retries + 1) e es hq) _ _ _ x hx
    · exact hsend hP _ _ _ x hx
  · intro s s' timer c hc hfree h
    obtain ⟨-, rfl⟩ := freeConnection_eq_ok.mp hfree
    exact ⟨fun d hd => h d (List.mem_filter.mp hd).1, [], (List.append_nil _).symm,
      fun seg hseg => absurd hseg List.not_mem_nil⟩

/-! ### The handlers -/

theorem frame_handleHttpRequest (s : TcpStack) (c : TcpConnection) :
    Frame s (handleHttpRequest s c).1 := by
  obtain ⟨-, x, rfl, heq⟩ | ⟨file, -, -, heq⟩ | ⟨file, -, -, x, y, rfl, rfl, heq⟩ :=
    handleHttpRequest_cases s c
  · rw [heq]
    exact frame_tcpSendSegment s c _ _ _
  · rw [heq]
    exact frame_malloc s
  · rw [heq]
    have hheaders := (frame_malloc s).trans (frame_tcpSendSegment s.malloc.2 c (tcpPsh ||| tcpAck)
      (httpHeaders (httpBodySize file)) (UInt16.ofNat (httpHeaders (httpBodySize file)).length))
    exact (hheaders.trans (frame_tcpSendSegment _ _ _ _ _)).trans
      (frame_startRetransmissionTimer _ _ _)

theorem frame_fastRetransmit {ack : UInt32} (h : fastRetransmit s c ack = .ok (s', c')) :
    Frame s s' := by
  obtain ⟨-, rfl, -⟩ | ⟨-, -, rfl, -⟩ | ⟨-, -, e, es, -, hsend⟩ := fastRetransmit_eq_ok h
  · exact Frame.refl _
  · exact Frame.refl _
  · have hframe := frame_tcpSendSegment s { c with dupAckCount := c.dupAckCount + 1 } tcpAck e.data
      e.length
    rwa [← hsend] at hframe

theorem frame_receiveData {seq : UInt32} {payload : List UInt8} {dataLen : UInt16}
    (h : receiveData s c seq payload dataLen = .ok (s', c')) : Frame s s' := by
  obtain ⟨-, rfl, -⟩ | ⟨-, -, x, rfl, rfl, -⟩ | ⟨-, -, -, hsend⟩ := receiveData_eq_ok h
  · exact Frame.refl _
  · exact frame_handleHttpRequest _ _
  · have hframe := frame_tcpSendSegment s
      { c with
        expectedAck := seq + dataLen.toUInt32
        recvBuffer := c.recvBuffer ++ payload } tcpAck [] 0
    rwa [← hsend] at hframe

theorem frame_handleFin (s : TcpStack) (c : TcpConnection) (flags : UInt8) :
    Frame s (handleFin s c flags).1 := by
  rw [handleFin]
  split_ifs
  · exact (frame_tcpSendSegment s _ tcpAck [] 0).trans (frame_tcpSendSegment _ _ _ _ _)
  · exact Frame.refl s

theorem frame_handleEstablishedState {conn : ℕ} {tcp : TcpHeader} {bytes : ℕ → UInt8}
    {len : UInt16} (h : handleEstablishedState s conn tcp bytes len = .ok s') : Frame s s' := by
  obtain ⟨s₁, c₁, s₂, c₂, c₃, x, y, htimers, -, hfast, -, hx, hdata, rfl⟩ :=
    handleEstablishedState_eq_ok h
  have hack : Frame s₂ x.1 := by
    rw [hx]
    split_ifs
    · exact frame_tcpSendSegment s₂ c₃ _ _ _
    · exact Frame.refl s₂
  have hbefore := ((frame_checkTcpTimers htimers).trans (frame_fastRetransmit hfast)).trans hack
  have hafter := (frame_receiveData hdata).trans (frame_handleFin y.1 y.2 tcp.flags)
  exact (hbefore.trans hafter).trans (frame_setConn _ _)

theorem frame_handleWaitForAckState {conn : ℕ} {tcp : TcpHeader}
    (h : handleWaitForAckState s conn tcp = .ok s') : Frame s s' := by
  obtain ⟨c, -, h⟩ := bind_eq_ok.mp h
  cases hq : c.retransmitQueue with
  | nil =>
      simp only [hq] at h
      split_ifs at h
      cases h
      exact Frame.refl _
  | cons e es =>
      simp only [hq] at h
      split_ifs at h
      · exact (frame_setConn s _).trans (frame_removeConnection h)
      all_goals rw [Except.ok.injEq] at h; subst h
      · exact frame_setConn s _
      · exact frame_setConn s _
      · exact frame_sendBack rfl _
      · exact frame_setConn s _

theorem frame_handleLastAckState {conn : ℕ} {tcp : TcpHeader}
    (h : handleLastAckState s conn tcp = .ok s') : Frame s s' := by
  obtain ⟨c, -, h⟩ := bind_eq_ok.mp h
  split_ifs at h
  · exact frame_removeConnection h
  · cases h
    exact Frame.refl _

theorem frame_cancelTimer (s : TcpStack) (conn : ℕ) :
    Frame s (cancelRetransmissionTimer s conn) :=
  frame_timers s _

theorem frame_handleSynSent (s : TcpStack) (c : TcpConnection) (tcp : TcpHeader) :
    Frame s (handleSynSent s c tcp) := by
  obtain ⟨-, heq⟩ | ⟨-, -, x, hx, heq⟩ := handleSynSent_cases s c tcp
  · rw [heq]
    exact Frame.refl s
  · rw [heq]
    exact (frame_sendBack hx _).trans (frame_cancelTimer _ _)

theorem frame_handleSynReceived (s : TcpStack) (c : TcpConnection) (tcp : TcpHeader) :
    Frame s (handleSynReceived s c tcp) := by
  rw [handleSynReceived]
  split_ifs
  · exact (frame_setConn s _).trans (frame_cancelTimer _ _)
  · exact Frame.refl s

/-- The handler for the state of the connection. -/
theorem frame_handleInState {tcp : TcpHeader} {bytes : ℕ → UInt8} {len : UInt16}
    (h : handleInState s c tcp bytes len = .ok s') : Frame s s' := by
  rw [handleInState] at h
  cases hstate : c.state with
  | synSent =>
      rw [hstate] at h
      cases h
      exact frame_handleSynSent s c tcp
  | synReceived =>
      rw [hstate] at h
      cases h
      exact frame_handleSynReceived s c tcp
  | established =>
      rw [hstate] at h
      exact frame_handleEstablishedState h
  | waitForAck =>
      rw [hstate] at h
      exact frame_handleWaitForAckState h
  | lastAck =>
      rw [hstate] at h
      exact frame_handleLastAckState h
  | _ =>
      rw [hstate] at h
      cases h
      exact Frame.refl s

theorem frame_tcpSendReset (s : TcpStack) (srcIp dstIp : UInt32) (tcp : TcpHeader) :
    Frame s (tcpSendReset s srcIp dstIp tcp) :=
  frame_tcpSendSegment s _ _ _ _

/-! ### Addresses -/

/-- Control blocks have distinct addresses, none null and all below the next fresh one. -/
structure Addressed (s : TcpStack) : Prop where
  nodup : (s.connectionList.map (·.addr)).Nodup
  bound : ∀ c ∈ s.connectionList, 0 < c.addr ∧ c.addr < s.nextAddr
  fresh : 0 < s.nextAddr

theorem addressed_boot (ticks nicIp : UInt32) (indexHtml : Option (List UInt8))
    (mallocs : List Bool) : Addressed (TcpStack.boot ticks nicIp indexHtml mallocs) :=
  ⟨List.nodup_nil, fun _ hc => absurd hc List.not_mem_nil, Nat.one_pos⟩

/-- What an event does to the addresses: some go, or the block it opens comes in front. -/
theorem addrs_next {e : TcpEvent} (h : e.next s = .ok s') :
    ((s'.connectionList.map (·.addr)).Sublist (s.connectionList.map (·.addr)) ∧
      s'.nextAddr = s.nextAddr) ∨
    ∃ c, e.Opens s c ∧ c.addr = s.nextAddr ∧ s'.nextAddr = s.nextAddr + 1 ∧
      s'.connectionList.map (·.addr) = c.addr :: s.connectionList.map (·.addr) := by
  have hframe (hf : Frame s s') :
      (s'.connectionList.map (·.addr)).Sublist (s.connectionList.map (·.addr)) ∧
        s'.nextAddr = s.nextAddr := ⟨hf.addrs, hf.nextAddr⟩
  cases e with
  | segment srcIp dstIp bytes len =>
      obtain rfl | rfl | ⟨hnone, -, -, rfl⟩ | ⟨c, -, hrem | ⟨-, hin⟩⟩ := handleSegment_eq_ok h
      · exact Or.inl (hframe (Frame.refl _))
      · exact Or.inl (hframe (frame_tcpSendReset _ _ _ _))
      · obtain ⟨-, heq⟩ | ⟨hmem, c, t, x, rfl, rfl, rfl, heq⟩ :=
          passiveOpen_cases s srcIp dstIp (TcpHeader.parse bytes) bytes
        · rw [heq]
          exact Or.inl ⟨List.Sublist.refl _, rfl⟩
        · refine Or.inr ⟨_, .passive hnone hmem, rfl, ?_, ?_⟩
          · rw [heq, (frame_startRetransmissionTimer _ _ _).nextAddr,
              (frame_sendBack rfl _).nextAddr]
            rfl
          · rw [heq]
            rw [connectionList_startRetransmissionTimer, map_addr_setConn, tcpSendSegment_eq]
            rfl
      · exact Or.inl (hframe (frame_removeConnection hrem))
      · exact Or.inl (hframe (frame_handleInState hin))
  | connect stale remoteIp remotePort =>
      cases h
      obtain ⟨-, heq⟩ | ⟨hmem, c, t, x, rfl, rfl, rfl, heq⟩ :=
        tcpConnect_cases s stale remoteIp remotePort
      · rw [heq]
        exact Or.inl ⟨List.Sublist.refl _, rfl⟩
      · refine Or.inr ⟨_, .active hmem, rfl, ?_, ?_⟩
        · rw [heq, tcpSendSegment_eq]
          rfl
        · rw [heq, tcpSendSegment_eq]
          rfl
  | listen port =>
      cases h
      rw [tcpListen, TcpStack.malloc]
      cases s.mallocs.headD true with
      | false => exact Or.inl ⟨List.Sublist.refl _, rfl⟩
      | true => exact Or.inl ⟨List.Sublist.refl _, rfl⟩
  | send conn flags data dataLen =>
      obtain ⟨c, -, h⟩ := bind_eq_ok.mp h
      cases h
      exact Or.inl (hframe (frame_sendBack rfl _))
  | remove conn => exact Or.inl (hframe (frame_removeConnection h))
  | checkTimers => exact Or.inl (hframe (frame_checkTcpTimers h))
  | drain conn =>
      obtain ⟨c, -, h⟩ := bind_eq_ok.mp h
      cases h
      exact Or.inl (hframe (frame_setConn s _))
  | tick ticks =>
      cases h
      exact Or.inl ⟨List.Sublist.refl _, rfl⟩

theorem Addressed.sublist (h : Addressed s)
    (hsub : (s'.connectionList.map (·.addr)).Sublist (s.connectionList.map (·.addr)))
    (hnext : s'.nextAddr = s.nextAddr) : Addressed s' := by
  refine ⟨h.nodup.sublist hsub, fun d hd => ?_, hnext ▸ h.fresh⟩
  obtain ⟨d', hd', heq⟩ := List.mem_map.mp (hsub.subset (List.mem_map_of_mem hd))
  rw [hnext, ← heq]
  exact h.bound d' hd'

theorem Addressed.frame (h : Addressed s) (hf : Frame s s') : Addressed s' :=
  h.sublist hf.addrs hf.nextAddr

/-- A block of the list is what its address leads to. -/
theorem Addressed.deref_of_mem (h : Addressed s) (hc : c ∈ s.connectionList) :
    s.deref c.addr = .ok c := by
  rw [TcpStack.deref]
  cases hfind : s.connectionList.find? fun d => d.addr == c.addr with
  | none => exact absurd (beq_self_eq_true c.addr) (List.find?_eq_none.mp hfind c hc)
  | some d =>
      have haddr : d.addr = c.addr := by simpa using List.find?_some hfind
      rw [List.inj_on_of_nodup_map h.nodup (List.mem_of_find?_eq_some hfind) hc haddr]
      rfl

theorem Addressed.next (h : Addressed s) {e : TcpEvent} (hs : e.next s = .ok s') :
    Addressed s' := by
  obtain ⟨hsub, hnext⟩ | ⟨c, -, hc, hnext, haddrs⟩ := addrs_next hs
  · exact h.sublist hsub hnext
  · have hold : ∀ a ∈ s.connectionList.map (·.addr), 0 < a ∧ a < s.nextAddr := by
      intro a ha
      obtain ⟨d, hd, rfl⟩ := List.mem_map.mp ha
      exact h.bound d hd
    refine ⟨?_, fun d hd => ?_, hnext ▸ Nat.succ_pos _⟩
    · rw [haddrs, List.nodup_cons]
      refine ⟨fun hmem => ?_, h.nodup⟩
      exact absurd (hc ▸ (hold _ hmem).2) (Nat.lt_irrefl _)
    · have hmem := List.mem_map_of_mem (f := (·.addr)) hd
      rw [haddrs, List.mem_cons] at hmem
      obtain heq | hmem := hmem
      · rw [heq, hc, hnext]
        exact ⟨h.fresh, Nat.lt_succ_self _⟩
      · rw [hnext]
        exact ⟨(hold _ hmem).1, Nat.lt_succ_of_lt (hold _ hmem).2⟩

/-! ### What the timer check leaves of a block -/

/-- The control block but for the two fields that sending changes. -/
def TcpConnection.core (c : TcpConnection) : TcpConnection :=
  { c with nextSeq := 0, retransmitQueue := [] }

theorem sendInvariant_core (p : TcpConnection → Prop) :
    SendInvariant (fun c => p c.core) fun _ => True where
  sent := fun _ _ _ => trivial
  afterSend := fun h _ _ _ _ _ => h
  retried := fun h _ _ _ _ => h

/-- The timer check only sends: the rest of a block that stays is as it was. -/
theorem core_checkTcpTimers (haddr : Addressed s) (hs : checkTcpTimers s = .ok s')
    {c d : TcpConnection} (hc : c ∈ s.connectionList) (hd : d ∈ s'.connectionList)
    (heq : d.addr = c.addr) : d.core = c.core := by
  have hholds : Holds (fun d => d.core.addr = c.addr → d.core = c.core) (fun _ => True) s := by
    refine ⟨fun d hd heq => ?_, fun _ _ => trivial⟩
    rw [List.inj_on_of_nodup_map haddr.nodup hd hc heq]
  exact ((sendInvariant_core fun d => d.addr = c.addr → d = c.core).checkTcpTimers hholds hs).blocks
    d hd heq

/-! ### Connections that stay -/

/-- The control blocks that are allocated. -/
abbrev TcpStack.addrs (s : TcpStack) : List ℕ := s.connectionList.map (·.addr)

variable {conn : ℕ}

theorem mem_addrs_setConn (d : TcpConnection) (h : conn ∈ s.addrs) :
    conn ∈ (s.setConn d).addrs := by
  rw [TcpStack.addrs, map_addr_setConn]
  exact h

theorem mem_addrs_freeConnection (hs : freeConnection s c = .ok s') (hne : c.addr ≠ conn)
    (h : conn ∈ s.addrs) : conn ∈ s'.addrs := by
  obtain ⟨-, rfl⟩ := freeConnection_eq_ok.mp hs
  obtain ⟨d, hd, rfl⟩ := List.mem_map.mp h
  exact List.mem_map_of_mem (List.mem_filter.mpr ⟨hd, bne_iff_ne.mpr fun heq => hne heq.symm⟩)

theorem mem_addrs_removeConnection {a : ℕ} (hs : removeConnection s a = .ok s') (hne : a ≠ conn)
    (h : conn ∈ s.addrs) : conn ∈ s'.addrs := by
  obtain ⟨d, hd, hfree⟩ := bind_eq_ok.mp hs
  refine mem_addrs_freeConnection hfree ?_ h
  rw [(deref_eq_ok hd).2]
  exact hne

theorem not_mem_addrs_removeConnection (hs : removeConnection s conn = .ok s') :
    conn ∉ s'.addrs := by
  obtain ⟨c, -, -, rfl⟩ := exists_of_removeConnection hs
  intro hmem
  obtain ⟨d, hd, heq⟩ := List.mem_map.mp hmem
  exact bne_iff_ne.mp (List.mem_filter.mp hd).2 heq

theorem mem_addrs_sendBack {x : TcpStack × TcpConnection} {flags : UInt8} {data : List UInt8}
    {dataLen : UInt16} (hx : x = tcpSendSegment s c flags data dataLen) (d : TcpConnection)
    (h : conn ∈ s.addrs) : conn ∈ (x.1.setConn d).addrs := by
  refine mem_addrs_setConn d ?_
  rw [hx, TcpStack.addrs, connectionList_tcpSendSegment]
  exact h

/-- Freeing adds no block. -/
theorem mem_connectionList_freeConnection {t : TcpStack} (hfree : freeConnection s c = .ok t)
    {d : TcpConnection} (hd : d ∈ t.connectionList) : d ∈ s.connectionList := by
  obtain ⟨-, rfl⟩ := freeConnection_eq_ok.mp hfree
  exact (List.mem_filter.mp hd).1

theorem mem_connectionList_removeConnection {t : TcpStack} (hrem : removeConnection s conn = .ok t)
    {d : TcpConnection} (hd : d ∈ t.connectionList) : d ∈ s.connectionList := by
  obtain ⟨c, -, -, rfl⟩ := exists_of_removeConnection hrem
  exact (List.mem_filter.mp hd).1

end HalOS
