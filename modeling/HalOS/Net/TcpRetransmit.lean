import HalOS.Net.TcpInvariant
import HalOS.Net.TcpWire

/-!
# Retransmission

Every repetition of a segment goes through `tcp_send_segment`, which numbers it as new data,
puts it into the queue once more, and is given other flags than the entry has. What an entry
stands for takes sequence space, so `next_seq` moves each time, or the flags differ.

## Main results

* `retransmission_never_faithful`: on none of the four paths is the repetition the entry's.
-/

namespace HalOS

open Outcome (Steps bind_eq_ok exists_eq_ok_of_any)

/-! ### Faithful repetition -/

/-- What an entry stands for. -/
def RetransmitEntry.content (e : RetransmitEntry) : UInt32 × UInt16 × UInt8 × List UInt8 :=
  (e.seq, e.length, e.flags, e.data)

/-- From `s` to `s'`, one segment was sent for the connection, and it repeats the entry `e`:
its number, flags and payload are those of the entry, and `next_seq` and the queue stay. -/
structure Faithful (s : TcpStack) (c : TcpConnection) (s' : TcpStack) (c' : TcpConnection)
    (e : RetransmitEntry) : Prop where
  segment : ∃ seg, s'.sent = s.sent ++ [seg] ∧ seg.seq = e.seq ∧ seg.flags = e.flags ∧
    seg.data = e.data
  nextSeq : c'.nextSeq = c.nextSeq
  queue : (c'.retransmitQueue.map RetransmitEntry.content).Perm
    (c.retransmitQueue.map RetransmitEntry.content)

/-- Every entry stands for a segment that takes sequence space. -/
def EntriesTakeSpace (c : TcpConnection) : Prop :=
  ∀ e ∈ c.retransmitQueue, needsQueue e.flags e.length = true

/-- The stacks that the loop of `check_tcp_timers` goes through from `s₀`: each turn repeats a
segment, or frees a block, or does nothing. -/
inductive TimerCheck (s₀ : TcpStack) : TcpStack → Prop
  | refl : TimerCheck s₀ s₀
  | repeated {s s' : TcpStack} {timer timer' : TcpTimer} {c : TcpConnection} :
      TimerCheck s₀ s → s.deref timer.conn = .ok c →
        retransmitOnTimer s timer c = .ok (some (s', timer')) → TimerCheck s₀ s'
  | freed {s s' : TcpStack} {c : TcpConnection} :
      TimerCheck s₀ s → freeConnection s c = .ok s' → TimerCheck s₀ s'

variable {s s' s₀ : TcpStack} {c c' : TcpConnection} {e : RetransmitEntry}

/-- A segment that needs an entry takes sequence space. -/
theorem sequenceLen_ne_zero {flags : UInt8} {dataLen : UInt16}
    (h : needsQueue flags dataLen = true) : sequenceLen flags dataLen ≠ 0 := by
  intro hzero
  have hlt := dataLen.toNat_lt
  rw [sequenceLen] at hzero
  by_cases hcontrol : hasFlag flags (tcpSyn ||| tcpFin) = true
  · rw [if_pos hcontrol] at hzero
    have hnat := congrArg UInt32.toNat hzero
    simp only [UInt32.toNat_add, UInt16.toNat_toUInt32, UInt32.toNat_one, UInt32.toNat_zero] at hnat
    omega
  · rw [if_neg hcontrol, UInt32.add_zero] at hzero
    rw [needsQueue, Bool.eq_false_iff.mpr hcontrol, Bool.false_or, decide_eq_true_eq,
      UInt16.lt_iff_toNat_lt] at h
    have hnat := congrArg UInt32.toNat hzero
    simp only [UInt16.toNat_toUInt32, UInt32.toNat_zero] at hnat
    rw [hnat] at h
    exact absurd h (Nat.lt_irrefl _)

/-- Entries are made of segments that need one. -/
theorem blockInvariant_entriesTakeSpace : BlockInvariant EntriesTakeSpace fun _ => True where
  sent := fun _ _ _ => trivial
  afterSend := by
    intro c h flags data dataLen queued hneed e he
    cases queued with
    | false => exact h e he
    | true =>
        obtain rfl | he := List.mem_cons.mp he
        · exact hneed rfl
        · exact h e he
  retried := by
    intro c h retries e es hq f hf
    rw [EntriesTakeSpace, hq] at h
    obtain rfl | hf := List.mem_cons.mp hf
    · exact h e List.mem_cons_self
    · exact h f (List.mem_cons_of_mem _ hf)
  reset := fun _ _ _ => trivial
  assign := fun h _ _ _ _ _ => h
  dropped := fun h queue hsub e he => h e (hsub.subset he)
  append := fun h _ _ => h
  drained := fun h => h

/-- In every state of every run. -/
theorem entriesTakeSpace_of_steps {ticks nicIp : UInt32} {indexHtml : Option (List UInt8)}
    {mallocs : List Bool}
    (h : Steps TcpEvent.next (fun _ _ => True) (TcpStack.boot ticks nicIp indexHtml mallocs) s) :
    Holds EntriesTakeSpace (fun _ => True) s := by
  refine h.invariant ⟨fun c hc => absurd hc List.not_mem_nil, fun _ _ => trivial⟩
    fun s e s' hI _ hs => blockInvariant_entriesTakeSpace.next hI (fun c hc => ?_) hs
  cases hc with
  | passive _ _ => exact fun e he => absurd he List.not_mem_nil
  | active _ => exact fun e he => absurd he List.not_mem_nil

theorem TimerCheck.entriesTakeSpace (h : TimerCheck s₀ s)
    (h₀ : Holds EntriesTakeSpace (fun _ => True) s₀) :
    Holds EntriesTakeSpace (fun _ => True) s := by
  induction h with
  | refl => exact h₀
  | repeated _ hc hs ih =>
      exact blockInvariant_entriesTakeSpace.toSendInvariant.retransmitOnTimer ih
        (ih.blocks _ (deref_eq_ok hc).1) hs
  | freed _ hs ih =>
      obtain ⟨-, rfl⟩ := freeConnection_eq_ok.mp hs
      exact ⟨fun d hd => ih.blocks d (List.mem_of_mem_filter hd), ih.segments⟩

/-! ### The four paths -/

/-- Sending a segment that needs an entry moves `next_seq`. -/
theorem nextSeq_send_ne {flags : UInt8} {dataLen : UInt16} (h : needsQueue flags dataLen = true)
    (seq : UInt32) : seq + sequenceLen flags dataLen ≠ seq := by
  intro heq
  exact sequenceLen_ne_zero h (by simpa using heq)

/-- An entry that is sent through `tcp_send_segment` is not repeated faithfully. -/
theorem not_faithful_of_send {flags : UInt8} {x : TcpStack × TcpConnection} {d : TcpConnection}
    (hneed : needsQueue e.flags e.length = true)
    (hx : x = tcpSendSegment s d flags e.data e.length) (hd : d.nextSeq = c.nextSeq)
    (hs : s'.sent = x.1.sent) (hc : c'.nextSeq = x.2.nextSeq) : ¬ Faithful s c s' c' e := by
  rintro ⟨⟨seg, hseg, -, hflags, -⟩, hnext, -⟩
  rw [hs, hx, sent_tcpSendSegment, List.append_cancel_left_eq, List.singleton_inj] at hseg
  have hsame : flags = e.flags := by
    rw [← hflags, ← hseg]
    rfl
  rw [hc, hx, nextSeq_tcpSendSegment, hd, hsame] at hnext
  exact nextSeq_send_ne hneed _ hnext

/-- A timer expires: the entry at the front is repeated in `TCP_WAIT_FOR_ACK`, and a SYN or FIN
is sent for whatever entry in any other state. -/
theorem not_faithful_of_timer {conn : ℕ} {timer timer' : TcpTimer} (hspace : EntriesTakeSpace c)
    (h : retransmitOnTimer s timer c = .ok (some (s', timer'))) (hc : s.deref conn = .ok c)
    (hc' : s'.deref conn = .ok c') (he : e ∈ c.retransmitQueue)
    (hfront : c.state = .waitForAck → c.retransmitQueue.head? = some e) :
    ¬ Faithful s c s' c' e := by
  have hback {x : TcpStack × TcpConnection} (hread : x.1.deref conn = s.deref conn)
      (haddr : x.2.addr = c.addr) : (x.1.setConn x.2).deref conn = .ok x.2 :=
    deref_setConn (hread.trans hc) (haddr.trans (deref_eq_ok hc).2)
  obtain ⟨f, es, hstate, hq, -, x, hx, rfl, -⟩ | ⟨-, -, x, hx, rfl, -⟩ :=
    retransmitOnTimer_eq_some h
  · obtain rfl : f = e := by
      have hhead := hfront hstate
      rwa [hq, List.head?_cons, Option.some_inj] at hhead
    have hread := hback (x := x) (by simp [hx]) (by simp [hx])
    obtain rfl : x.2 = c' := Except.ok.inj (hread.symm.trans hc')
    exact not_faithful_of_send (hspace f he) hx rfl rfl rfl
  · have hread := hback (x := x) (by simp [hx]) (by simp [hx])
    obtain rfl : x.2 = c' := Except.ok.inj (hread.symm.trans hc')
    intro hfaithful
    have hnext := hfaithful.nextSeq
    rw [hx, nextSeq_tcpSendSegment] at hnext
    refine nextSeq_send_ne ?_ _ hnext
    split_ifs
    · decide
    · decide

/-- The third duplicate acknowledgement in `TCP_ESTABLISHED`. -/
theorem not_faithful_of_fastRetransmit {ack : UInt32} (hspace : EntriesTakeSpace c)
    (h : fastRetransmit s c ack = .ok (s', c')) (hsent : s'.sent ≠ s.sent)
    (hfront : c.retransmitQueue.head? = some e) : ¬ Faithful s c s' c' e := by
  obtain ⟨-, rfl, -⟩ | ⟨-, -, rfl, -⟩ | ⟨-, -, f, es, hq, hx⟩ := fastRetransmit_eq_ok h
  · exact absurd rfl hsent
  · exact absurd rfl hsent
  · rw [hq, List.head?_cons, Option.some_inj] at hfront
    subst hfront
    exact not_faithful_of_send (hspace f (hq ▸ List.mem_cons_self)) hx rfl rfl rfl

/-- The third duplicate acknowledgement in `TCP_WAIT_FOR_ACK`. -/
theorem not_faithful_of_waitForAck {conn : ℕ} {tcp : TcpHeader} (hspace : EntriesTakeSpace c)
    (h : handleWaitForAckState s conn tcp = .ok s') (hc : s.deref conn = .ok c)
    (hc' : s'.deref conn = .ok c') (hsent : s'.sent ≠ s.sent)
    (hfront : c.retransmitQueue.head? = some e) : ¬ Faithful s c s' c' e := by
  obtain ⟨es, hq⟩ := List.head?_eq_some_iff.mp hfront
  obtain ⟨-, -, hrem⟩ | ⟨-, rfl⟩ | ⟨-, -, rfl⟩ | ⟨-, -, -, x, hx, rfl⟩ | ⟨-, -, -, rfl⟩ :=
    handleWaitForAckState_eq_ok hc hq h
  · refine absurd ?_ hsent
    obtain ⟨d, -, -, rfl⟩ := exists_of_removeConnection hrem
    rfl
  · exact absurd rfl hsent
  · exact absurd rfl hsent
  · have hread : (x.1.setConn { x.2 with dupAckCount := 0 }).deref conn =
        .ok { x.2 with dupAckCount := 0 } := by
      refine deref_setConn (c := c) ?_ ?_
      · rw [hx, deref_tcpSendSegment, hc]
      · rw [hx, addr_tcpSendSegment]
        exact (deref_eq_ok hc).2
    obtain rfl := Except.ok.inj (hread.symm.trans hc')
    exact not_faithful_of_send (hspace e (hq ▸ List.mem_cons_self)) hx rfl rfl rfl
  · exact absurd rfl hsent

/-- **Retransmission is never faithful.** In no reachable state, on none of the four paths. -/
theorem retransmission_never_faithful (ticks nicIp : UInt32) (indexHtml : Option (List UInt8))
    (mallocs : List Bool) (s₀ : TcpStack)
    (h₀ : Steps TcpEvent.next (fun _ _ => True) (TcpStack.boot ticks nicIp indexHtml mallocs) s₀) :
    -- a timer expires
    (∀ s timer timer' c s' c' e, TimerCheck s₀ s → s.deref timer.conn = .ok c →
      retransmitOnTimer s timer c = .ok (some (s', timer')) → s'.deref timer.conn = .ok c' →
      e ∈ c.retransmitQueue → (c.state = .waitForAck → c.retransmitQueue.head? = some e) →
        ¬ Faithful s c s' c' e) ∧
    -- the third duplicate in `TCP_ESTABLISHED`
    (∀ conn seq ack s₁ c₁ s' c' e, checkTcpTimers s₀ = .ok s₁ → s₁.deref conn = .ok c₁ →
      fastRetransmit s₁ (reestablish c₁ seq ack) ack = .ok (s', c') → s'.sent ≠ s₁.sent →
      (reestablish c₁ seq ack).retransmitQueue.head? = some e →
        ¬ Faithful s₁ (reestablish c₁ seq ack) s' c' e) ∧
    -- the third duplicate in `TCP_WAIT_FOR_ACK`
    ∀ conn tcp c s' c' e, s₀.deref conn = .ok c → handleWaitForAckState s₀ conn tcp = .ok s' →
      s'.deref conn = .ok c' → s'.sent ≠ s₀.sent → c.retransmitQueue.head? = some e →
        ¬ Faithful s₀ c s' c' e := by
  have hspace := entriesTakeSpace_of_steps h₀
  refine ⟨?_, ?_, ?_⟩
  · intro s timer timer' c s' c' e hcheck hc hsend hc' he hfront
    have hblock := (hcheck.entriesTakeSpace hspace).blocks c (deref_eq_ok hc).1
    exact not_faithful_of_timer hblock hsend hc hc' he hfront
  · intro conn seq ack s₁ c₁ s' c' e htimers hc₁ hfast hsent hfront
    have htimed := blockInvariant_entriesTakeSpace.toSendInvariant.checkTcpTimers hspace htimers
    have hblock : EntriesTakeSpace (reestablish c₁ seq ack) := by
      rw [reestablish]
      split_ifs
      · exact htimed.blocks c₁ (deref_eq_ok hc₁).1
      · exact htimed.blocks c₁ (deref_eq_ok hc₁).1
    exact not_faithful_of_fastRetransmit hblock hfast hsent hfront
  · intro conn tcp c s' c' e hc hwait hc' hsent hfront
    exact not_faithful_of_waitForAck (hspace.blocks c (deref_eq_ok hc).1) hwait hc hc' hsent hfront

/-- The connection of the peer that has sent a SYN, as the passive open leaves it. -/
def halfOpen : TcpConnection where
  addr := 1
  localIp := 0x0A00020F
  remoteIp := 0x0A000202
  localPort := 8080
  remotePort := 1234
  mss := defaultMss
  nextSeq := 1
  expectedAck := 1
  dupAckCount := 0
  state := .synReceived
  retransmitQueue :=
    [{ seq := 0, length := 0, data := [], flags := tcpSyn ||| tcpAck, retries := 0 }]
  queueWild := false
  recvBuffer := []
  lastAck := 0

/-- The timer of its SYN-ACK. -/
def synAckTimer : TcpTimer where
  conn := 1
  timeoutMs := retransmitTimeout
  startTime := 0
  retries := 0

/-- The SYN-ACK has not been acknowledged for three seconds. -/
theorem synAck_expires :
    ∃ s, Steps TcpEvent.next (fun _ _ => True) (TcpStack.boot 0 0x0A00020F none []) s ∧
      s.deref 1 = .ok halfOpen ∧ s.activeTimers = [synAckTimer] ∧ s.ticks = 3000 := by
  obtain ⟨s, hrun, hs⟩ := exists_eq_ok_of_any
    (p := fun s : TcpStack => decide (s.connectionList = [halfOpen] ∧
      s.activeTimers = [synAckTimer] ∧ s.ticks = 3000))
    (x := (peerOpens.take 2 ++ [TcpEvent.tick 3000]).foldlM TcpEvent.next
      (TcpStack.boot 0 0x0A00020F none []))
    (by decide +kernel)
  obtain ⟨hlist, htimers, hticks⟩ := of_decide_eq_true hs
  refine ⟨s, .of_foldlM hrun, ?_, htimers, hticks⟩
  rw [TcpStack.deref, hlist]
  rfl

/-- What the expiry does. -/
theorem retransmitOnTimer_synAck {s : TcpStack} (hs : s.deref 1 = .ok halfOpen) :
    ∃ s' c' timer', retransmitOnTimer s synAckTimer halfOpen = .ok (some (s', timer')) ∧
      s'.deref 1 = .ok c' ∧ c'.nextSeq = 2 := by
  have hsend : retransmitOnTimer s synAckTimer halfOpen =
      .ok (some ((tcpSendSegment s halfOpen tcpFin [] 0).1.setConn
        (tcpSendSegment s halfOpen tcpFin [] 0).2,
        { synAckTimer with
          retries := 1
          startTime := (tcpSendSegment s halfOpen tcpFin [] 0).1.ticks })) := by
    rw [retransmitOnTimer, if_neg (by decide), if_pos (by decide), if_neg (by decide)]
    rfl
  refine ⟨_, _, _, hsend, deref_setConn (c := halfOpen) ?_ (addr_tcpSendSegment _ _ _ _ _), ?_⟩
  · rw [deref_tcpSendSegment, hs]
  · rw [nextSeq_tcpSendSegment]
    rfl

/-- The expiry of that timer, where the theorem applies. -/
theorem retransmission_never_faithful_synAck :
    ∃ s s' c' timer', retransmitOnTimer s synAckTimer halfOpen = .ok (some (s', timer')) ∧
      ∀ e ∈ halfOpen.retransmitQueue, ¬ Faithful s halfOpen s' c' e := by
  obtain ⟨s, hrun, hconn, -, -⟩ := synAck_expires
  obtain ⟨s', c', timer', hsend, hread, -⟩ := retransmitOnTimer_synAck hconn
  refine ⟨s, s', c', timer', hsend, fun e he => ?_⟩
  exact (retransmission_never_faithful 0 0x0A00020F none [] s hrun).1 s synAckTimer timer' halfOpen
    s' c' e .refl hconn hsend hread he fun hstate => absurd hstate (by decide)

/-- The SYN-ACK is repeated as a bare FIN with the next number. -/
theorem retransmission_not_faithful :
    ¬ ∀ s, Steps TcpEvent.next (fun _ _ => True) (TcpStack.boot 0 0x0A00020F none []) s →
      ∀ timer ∈ s.activeTimers, timer.timeoutMs ≤ s.ticks - timer.startTime →
        ∀ c s' timer' c' e, s.deref timer.conn = .ok c → c.retransmitQueue = [e] →
          retransmitOnTimer s timer c = .ok (some (s', timer')) →
            s'.deref timer.conn = .ok c' → Faithful s c s' c' e := by
  intro hall
  obtain ⟨s, hrun, hconn, htimers, hticks⟩ := synAck_expires
  obtain ⟨s', c', timer', hsend, hread, hnext⟩ := retransmitOnTimer_synAck hconn
  have hfaithful := hall s hrun synAckTimer (htimers ▸ List.mem_cons_self) (by rw [hticks]; decide)
    halfOpen s' timer' c' _ hconn rfl hsend hread
  have hsame := hfaithful.nextSeq
  rw [hnext] at hsame
  exact absurd hsame (by decide)

end HalOS
