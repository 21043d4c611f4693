import HalOS.Net.TcpReceived
import HalOS.Net.TcpSends

/-!
# Which Segment is Retransmitted

`tcp_send_segment` puts each entry in front of the queue, and whatever retransmits takes the entry
at the front. As long as the numbers do not wrap every entry has a greater number than the ones
behind it, so what is retransmitted is the newest segment, which is the oldest one only where it is
alone.

## Main results

* `NewestFirst.send`: what sending does to the order of the queue.
* `OrderedStack.next`: every event keeps every queue newest first.
* `selectsOldest_iff`: the exact condition, for every run and every retransmission.
-/

namespace HalOS

open Outcome (Steps bind_eq_ok exists_eq_ok_of_any)

/-- The numbers of the segments that were sent for a connection do not wrap. -/
def NoWrap (log : List TcpSegment) (conn : ℕ) : Prop :=
  ∀ seg ∈ log, seg.owner = conn → seg.seq.toNat + seg.data.length +
    (if hasFlag seg.flags (tcpSyn ||| tcpFin) then 1 else 0) < 2 ^ 32

instance (log : List TcpSegment) (conn : ℕ) : Decidable (NoWrap log conn) :=
  inferInstanceAs (Decidable (∀ seg ∈ log, _))

/-- A caller of `tcp_send_segment` has the bytes that it wants sent. -/
def WholeSend (_ : TcpStack) : TcpEvent → Prop
  | .send _ _ data dataLen => dataLen.toNat ≤ data.length
  | _ => True

instance (s : TcpStack) (e : TcpEvent) : Decidable (WholeSend s e) :=
  match e with
  | .send _ _ data dataLen => inferInstanceAs (Decidable (dataLen.toNat ≤ data.length))
  | .segment .. | .connect .. | .listen _ | .remove _ | .checkTimers | .drain _ | .tick _ =>
      inferInstanceAs (Decidable True)

/-- The entry `e` of the connection `c` is selected to be retransmitted, in the state `u` that the
next event goes through from `s`: the timer check sends the data again, or a duplicate
acknowledgement does in `TCP_ESTABLISHED`, where the timers have been checked (which leaves the
state as it is), or in `TCP_WAIT_FOR_ACK`. -/
inductive Selects (s : TcpStack) : TcpStack → TcpConnection → RetransmitEntry → Prop
  | timer {u t : TcpStack} {timer timer' : TcpTimer} {c : TcpConnection} {e : RetransmitEntry}
      (hcheck : TimerCheck s u) (hc : u.deref timer.conn = .ok c)
      (hexpired : ¬ u.ticks - timer.startTime < timer.timeoutMs) (hstate : c.state = .waitForAck)
      (hretry : retransmitOnTimer u timer c = .ok (some (t, timer')))
      (hfront : c.retransmitQueue.head? = some e) : Selects s u c e
  | established {u : TcpStack} {c d : TcpConnection} {e : RetransmitEntry} {ack : UInt32}
      {x : TcpStack × TcpConnection} (hc : c ∈ s.connectionList) (hstate : c.state = .established)
      (htimers : checkTcpTimers s = .ok u) (hd : u.deref c.addr = .ok d)
      (hfast : fastRetransmit u d ack = .ok x) (hsent : x.1.sent ≠ u.sent)
      (hfront : d.retransmitQueue.head? = some e) : Selects s u d e
  | waitForAck {s' : TcpStack} {conn : ℕ} {c : TcpConnection} {tcp : TcpHeader}
      {e : RetransmitEntry} (hc : s.deref conn = .ok c) (hstate : c.state = .waitForAck)
      (hwait : handleWaitForAckState s conn tcp = .ok s') (hsent : s'.sent ≠ s.sent)
      (hfront : c.retransmitQueue.head? = some e) : Selects s s c e

/-- The queue is a list, and the entry has the smallest number of it. -/
def IsOldest (c : TcpConnection) (e : RetransmitEntry) : Prop :=
  c.queueWild = false ∧ ∀ f ∈ c.retransmitQueue, e.seq ≤ f.seq

/-- The queue is a list, and the entry is all of it. -/
def IsAlone (c : TcpConnection) (e : RetransmitEntry) : Prop :=
  c.queueWild = false ∧ c.retransmitQueue = [e]

variable {s s' t u : TcpStack} {c c' d : TcpConnection} {e : RetransmitEntry}
  {log log' : List TcpSegment} {conn : ℕ}

/-! ### One queue -/

/-- Entries have all their bytes and, as long as no number has wrapped, smaller numbers than those
in front of them and than `next_seq`. -/
structure NewestFirst (log : List TcpSegment) (c : TcpConnection) : Prop where
  whole : ∀ e ∈ c.retransmitQueue, e.length.toNat ≤ e.data.length
  descending : NoWrap log c.addr → (c.retransmitQueue.Pairwise fun e f => f.seq < e.seq) ∧
    ∀ e ∈ c.retransmitQueue, e.seq < c.nextSeq

theorem NoWrap.of_prefix (h : NoWrap log' conn) (hlog : log <+: log') : NoWrap log conn :=
  fun seg hseg => h seg (hlog.subset hseg)

namespace NewestFirst

/-- Other segments are sent. -/
theorem mono (h : NewestFirst log c) (hlog : log <+: log') : NewestFirst log' c where
  whole := h.whole
  descending := fun hwrap => h.descending (hwrap.of_prefix hlog)

/-- Entries are dropped, and `next_seq` does not go back. -/
theorem assign (h : NewestFirst log c) (haddr : c'.addr = c.addr) (hnext : c.nextSeq ≤ c'.nextSeq)
    (hqueue : c'.retransmitQueue.Sublist c.retransmitQueue) : NewestFirst log c' where
  whole := fun e he => h.whole e (hqueue.subset he)
  descending := fun hwrap => by
    obtain ⟨hpairs, hbelow⟩ := h.descending (haddr ▸ hwrap)
    exact ⟨hpairs.sublist hqueue, fun e he =>
      UInt32.lt_of_lt_of_le (hbelow e (hqueue.subset he)) hnext⟩

/-- A new block has nothing queued. -/
theorem of_nil (log : List TcpSegment) (h : c.retransmitQueue = []) : NewestFirst log c where
  whole := by
    rw [h]
    exact nofun
  descending := fun _ => by
    rw [h]
    exact ⟨List.Pairwise.nil, nofun⟩

end NewestFirst

/-- A number that does not wrap: `next_seq` goes up by what is sent. -/
theorem toNat_add_sequenceLen {seq : UInt32} {flags : UInt8} {dataLen : UInt16}
    (h : seq.toNat + dataLen.toNat + (if hasFlag flags (tcpSyn ||| tcpFin) then 1 else 0) <
      2 ^ 32) :
    (seq + sequenceLen flags dataLen).toNat =
      seq.toNat + dataLen.toNat + if hasFlag flags (tcpSyn ||| tcpFin) then 1 else 0 := by
  have hlt := dataLen.toNat_lt
  rw [sequenceLen, UInt32.toNat_add, UInt32.toNat_add, UInt16.toNat_toUInt32]
  split_ifs at h ⊢
  · rw [UInt32.toNat_one]
    omega
  · rw [UInt32.toNat_zero]
    omega

/-- A segment that is queued takes at least one number. -/
theorem pos_of_needsQueue {flags : UInt8} {dataLen : UInt16} (h : needsQueue flags dataLen = true) :
    0 < dataLen.toNat + if hasFlag flags (tcpSyn ||| tcpFin) then 1 else 0 := by
  rw [needsQueue, Bool.or_eq_true, decide_eq_true_iff, UInt16.lt_iff_toNat_lt] at h
  split_ifs with hflags
  · exact Nat.succ_pos _
  · obtain hyes | hpos := h
    · exact absurd hyes hflags
    · exact hpos

/-- **Sending.** The segment is put in front, with a greater number than all that are queued. -/
theorem NewestFirst.send {flags : UInt8} {data : List UInt8} {dataLen : UInt16}
    {x : TcpStack × TcpConnection} (h : NewestFirst s.sent c)
    (hx : x = tcpSendSegment s c flags data dataLen) (hdata : dataLen.toNat ≤ data.length) :
    NewestFirst x.1.sent x.2 := by
  have hlen : (data.take dataLen.toNat).length = dataLen.toNat := by
    rw [List.length_take, Nat.min_eq_left hdata]
  rw [tcpSendSegment_eq] at hx
  subst hx
  refine ⟨?_, fun hwrap => ?_⟩
  · rw [TcpConnection.afterSend]
    split_ifs
    · refine List.forall_mem_cons.mpr ⟨?_, h.whole⟩
      exact Nat.le_of_eq hlen.symm
    · exact h.whole
  · obtain ⟨hpairs, hbelow⟩ := h.descending (hwrap.of_prefix (List.prefix_append _ _))
    have hmine := hwrap _ (List.mem_append_right _ List.mem_cons_self) rfl
    change c.nextSeq.toNat + (data.take dataLen.toNat).length + (if hasFlag flags _ then 1 else 0) <
      2 ^ 32 at hmine
    rw [hlen] at hmine
    have hnext := toNat_add_sequenceLen hmine
    have hup : c.nextSeq ≤ c.nextSeq + sequenceLen flags dataLen := by
      rw [UInt32.le_iff_toNat_le, hnext]
      omega
    have hold : ∀ e ∈ c.retransmitQueue, e.seq < c.nextSeq + sequenceLen flags dataLen :=
      fun e he => UInt32.lt_of_lt_of_le (hbelow e he) hup
    rw [TcpConnection.afterSend]
    split_ifs with hqueued
    · have hpos := pos_of_needsQueue (queueOutcome_needsQueue hqueued)
      refine ⟨List.pairwise_cons.mpr ⟨hbelow, hpairs⟩, List.forall_mem_cons.mpr ⟨?_, hold⟩⟩
      change c.nextSeq < c.nextSeq + sequenceLen flags dataLen
      rw [UInt32.lt_iff_toNat_lt, hnext]
      omega
    · exact ⟨hpairs, hold⟩

/-- What the end of the handlers does. -/
theorem NewestFirst.sendsOnly (h : NewestFirst s.sent c) (hsends : SendsOnly s c s' c') :
    NewestFirst s'.sent c' := by
  induction hsends with
  | refl => exact h
  | send _ hx _ hdata ih => exact ih.send hx hdata
  | assign _ haddr hnext hqueue _ ih =>
      exact ih.assign haddr (hnext ▸ UInt32.le_refl _) (hqueue ▸ List.Sublist.refl _)
  | surroundings _ _ hsent ih => rwa [hsent]

/-- The oldest entry of a queue that is newest first is the last one. -/
theorem NewestFirst.isOldest_iff (h : NewestFirst log c) (hwrap : NoWrap log c.addr)
    (hfront : c.retransmitQueue.head? = some e) : IsOldest c e ↔ IsAlone c e := by
  obtain ⟨es, hq⟩ := List.head?_eq_some_iff.mp hfront
  obtain ⟨hpairs, -⟩ := h.descending hwrap
  rw [hq, List.pairwise_cons] at hpairs
  rw [IsOldest, IsAlone, hq]
  refine and_congr_right fun _ => ?_
  cases es with
  | nil => simp
  | cons f es =>
      refine iff_of_false (fun hall => ?_) (by simp)
      have hlt := hpairs.1 f List.mem_cons_self
      have hle := hall f (List.mem_cons_of_mem _ List.mem_cons_self)
      exact UInt32.not_le.mpr hlt hle

/-! ### The parts of the handlers -/

theorem newestFirst_fastRetransmit {ack : UInt32} {x : TcpStack × TcpConnection}
    (h : NewestFirst s.sent c) (hfast : fastRetransmit s c ack = .ok x) :
    NewestFirst x.1.sent x.2 := by
  obtain ⟨-, heq, heq'⟩ | ⟨-, -, heq, heq'⟩ | ⟨-, -, e, es, hq, heq⟩ :=
    @fastRetransmit_eq_ok _ x.1 _ x.2 _ hfast
  · rw [heq, heq']
    exact h
  · rw [heq, heq']
    exact h.assign rfl (UInt32.le_refl _) (List.Sublist.refl _)
  · have hx : x = tcpSendSegment s { c with dupAckCount := c.dupAckCount + 1 } tcpAck e.data
        e.length := heq
    have hassign : NewestFirst s.sent { c with dupAckCount := c.dupAckCount + 1 } :=
      h.assign rfl (UInt32.le_refl _) (List.Sublist.refl _)
    exact hassign.send hx (h.whole e (hq ▸ List.mem_cons_self))

theorem newestFirst_processAck {seq ack : UInt32} {dataLen : UInt16} (h : NewestFirst log c)
    (hack : processAck c seq ack dataLen = .ok c') : NewestFirst log c' := by
  obtain ⟨-, rfl⟩ := processAck_eq_ok.mp hack
  refine h.assign rfl ?_ List.filter_sublist
  rw [TcpConnection.afterAck]
  split_ifs with hlt
  · exact UInt32.le_of_lt hlt
  · exact UInt32.le_refl _

/-- The entry at the front gets another retry count. -/
theorem NewestFirst.retried (h : NewestFirst log c) {es : List RetransmitEntry}
    (hq : c.retransmitQueue = e :: es) (retries : UInt8) :
    NewestFirst log { c with retransmitQueue := { e with retries := retries } :: es } where
  whole := by
    have hwhole := h.whole
    rw [hq, List.forall_mem_cons] at hwhole
    exact List.forall_mem_cons.mpr hwhole
  descending := fun hwrap => by
    obtain ⟨hpairs, hbelow⟩ := h.descending hwrap
    rw [hq, List.pairwise_cons] at hpairs
    rw [hq, List.forall_mem_cons] at hbelow
    exact ⟨List.pairwise_cons.mpr hpairs, List.forall_mem_cons.mpr hbelow⟩

/-! ### Whole stacks -/

/-- Every queue is newest first. -/
def OrderedStack (s : TcpStack) : Prop := ∀ c ∈ s.connectionList, NewestFirst s.sent c

namespace OrderedStack

/-- Nothing changes but the surroundings and the log, and blocks may go. -/
theorem same (h : OrderedStack s) (hlist : ∀ c ∈ s'.connectionList, c ∈ s.connectionList)
    (hlog : s.sent <+: s'.sent) : OrderedStack s' :=
  fun c hc => (h c (hlist c hc)).mono hlog

/-- A block is written back. -/
theorem write (h : OrderedStack s) (hlist : s'.connectionList = s.connectionList)
    (hlog : s.sent <+: s'.sent) (hc : NewestFirst s'.sent c') : OrderedStack (s'.setConn c') := by
  intro d hd
  obtain rfl | hmem := mem_setConn hd
  · exact hc
  · exact (h d (hlist ▸ hmem)).mono hlog

/-- A segment is sent and its block written back. -/
theorem sendBack (h : OrderedStack s) (hc : NewestFirst s.sent c) {flags : UInt8}
    {data : List UInt8} {dataLen : UInt16} {x : TcpStack × TcpConnection}
    (hx : x = tcpSendSegment s c flags data dataLen) (hdata : dataLen.toNat ≤ data.length) :
    OrderedStack (x.1.setConn x.2) := by
  refine h.write ?_ ?_ (hc.send hx hdata)
  · rw [hx, connectionList_tcpSendSegment]
  · rw [hx, sent_tcpSendSegment]
    exact List.prefix_append _ _

theorem freeConnection (h : OrderedStack s) (hs : freeConnection s c = .ok s') :
    OrderedStack s' :=
  h.same (fun _ hd => mem_connectionList_freeConnection hs hd) (frame_freeConnection hs).sent

theorem removeConnection (h : OrderedStack s) (hs : removeConnection s conn = .ok s') :
    OrderedStack s' := by
  obtain ⟨d, -, hfree⟩ := bind_eq_ok.mp hs
  have hcancel : OrderedStack (cancelRetransmissionTimer s conn) :=
    h.same (fun _ hc => hc) (List.prefix_refl _)
  exact hcancel.freeConnection hfree

/-- A timer that has run out. -/
theorem retransmitOnTimer (h : OrderedStack s) {timer timer' : TcpTimer}
    (hc : s.deref timer.conn = .ok c)
    (hs : retransmitOnTimer s timer c = .ok (some (s', timer'))) : OrderedStack s' := by
  have hblock := h c (deref_eq_ok hc).1
  obtain ⟨e, es, -, hq, -, x, hx, rfl, -⟩ | ⟨-, -, x, hx, rfl, -⟩ := retransmitOnTimer_eq_some hs
  · exact h.sendBack (hblock.retried hq _) hx (hblock.whole e (hq ▸ List.mem_cons_self))
  · exact h.sendBack hblock hx (Nat.zero_le _)

theorem checkTcpTimers (h : OrderedStack s) (hs : checkTcpTimers s = .ok s') :
    OrderedStack s' := by
  refine TimerClosed.checkTcpTimers (F := fun s s' => OrderedStack s → OrderedStack s')
    { trans := fun hs hs' h => hs' (hs h)
      timers := fun _ _ h => h.same (fun _ hc => hc) (List.prefix_refl _)
      retry := fun hc hretry h => h.retransmitOnTimer hc hretry
      free := fun _ hfree h => h.freeConnection hfree } hs h

/-- The states that the timer check goes through. -/
theorem timerCheck (h : OrderedStack s) (hcheck : TimerCheck s u) : OrderedStack u := by
  induction hcheck with
  | refl => exact h
  | repeated _ hc hs ih => exact ih.retransmitOnTimer hc hs
  | freed _ hs ih => exact ih.freeConnection hs

/-- The start of the handler of `TCP_ESTABLISHED`. -/
theorem prepareSegment (h : OrderedStack s) (hc : s.deref conn = .ok c)
    (hstate : c.state = .established) {tcp : TcpHeader} {x : TcpStack × TcpConnection}
    (hs : prepareSegment s conn tcp = .ok x) :
    OrderedStack x.1 ∧ NewestFirst x.1.sent x.2 := by
  obtain ⟨u, htimers, hs⟩ := bind_eq_ok.mp hs
  obtain ⟨d, hd, hs⟩ := bind_eq_ok.mp hs
  obtain ⟨more, -, hblocks⟩ := sendsFins_checkTcpTimers htimers
  obtain ⟨c₀, hc₀, hcore, -⟩ := hblocks conn d hd
  obtain rfl : c = c₀ := Except.ok.inj (hc.symm.trans hc₀)
  have hstate' : d.state = .established := (congrArg TcpConnection.state hcore).trans hstate
  rw [reestablish_of_established hstate'] at hs
  have hu := h.checkTcpTimers htimers
  refine ⟨hu.same (fun e he => ?_) (frame_fastRetransmit hs).sent,
    newestFirst_fastRetransmit (hu d (deref_eq_ok hd).1) hs⟩
  rwa [connectionList_fastRetransmit hs] at he

theorem handleEstablishedState (h : OrderedStack s) (hc : s.deref conn = .ok c)
    (hstate : c.state = .established) {tcp : TcpHeader} {bytes : ℕ → UInt8} {len : UInt16}
    (hs : handleEstablishedState s conn tcp bytes len = .ok s') : OrderedStack s' := by
  obtain ⟨x, y, z, hprepare, hack, hfinish, rfl⟩ := exists_of_handleEstablishedState hs
  obtain ⟨hx, hblock⟩ := h.prepareSegment hc hstate hprepare
  have hsends := sendsOnly_finishSegment hfinish
  obtain ⟨more, hmore, -⟩ := hsends.nextSeq
  refine hx.write hsends.list ?_ ((newestFirst_processAck hblock hack).sendsOnly hsends)
  rw [hmore]
  exact List.prefix_append _ _

theorem handleWaitForAckState (h : OrderedStack s) (hc : s.deref conn = .ok c) {tcp : TcpHeader}
    (hs : handleWaitForAckState s conn tcp = .ok s') : OrderedStack s' := by
  have hblock := h c (deref_eq_ok hc).1
  cases hq : c.retransmitQueue with
  | nil =>
      obtain rfl := eq_of_handleWaitForAckState_nil hc hq hs
      exact h
  | cons e es =>
      have hdrop : NewestFirst s.sent { c with retransmitQueue := es } :=
        hblock.assign rfl (UInt32.le_refl _) (hq ▸ List.sublist_cons_self e es)
      have hcount : NewestFirst s.sent { c with dupAckCount := c.dupAckCount + 1 } :=
        hblock.assign rfl (UInt32.le_refl _) (List.Sublist.refl _)
      obtain ⟨-, rfl, hrem⟩ | ⟨-, rfl⟩ | ⟨-, -, rfl⟩ | ⟨-, -, -, x, hx, rfl⟩ | ⟨-, -, -, rfl⟩ :=
        handleWaitForAckState_eq_ok hc hq hs
      · exact (h.write rfl (List.prefix_refl _) hdrop).removeConnection hrem
      · exact h.write rfl (List.prefix_refl _) hdrop
      · refine h.write rfl (List.prefix_refl _) ?_
        exact (hblock.retried hq 0).assign rfl (UInt32.le_refl _) (List.Sublist.refl _)
      · have hsent := hcount.send hx (hblock.whole e (hq ▸ List.mem_cons_self))
        refine h.write ?_ ?_ (hsent.assign rfl (UInt32.le_refl _) (List.Sublist.refl _))
        · rw [hx, connectionList_tcpSendSegment]
        · rw [hx, sent_tcpSendSegment]
          exact List.prefix_append _ _
      · exact h.write rfl (List.prefix_refl _) hcount

/-- The handler for the state of the connection. -/
theorem handleInState (h : OrderedStack s) (hc : s.deref c.addr = .ok c) {tcp : TcpHeader}
    {bytes : ℕ → UInt8} {len : UInt16} (hs : handleInState s c tcp bytes len = .ok s') :
    OrderedStack s' := by
  have hblock := h c (deref_eq_ok hc).1
  rw [HalOS.handleInState] at hs
  cases hstate : c.state with
  | synSent =>
      rw [hstate] at hs
      obtain rfl := Except.ok.inj hs
      obtain ⟨-, heq⟩ | ⟨-, -, x, hx, heq⟩ := handleSynSent_cases s c tcp
      · rw [heq]
        exact h
      · have hopen : NewestFirst s.sent
            { c with expectedAck := tcp.seq + 1, state := .established } :=
          hblock.assign rfl (UInt32.le_refl _) (List.Sublist.refl _)
        rw [heq]
        exact (h.sendBack hopen hx (Nat.zero_le _)).same (fun _ hd => hd) (List.prefix_refl _)
  | synReceived =>
      rw [hstate] at hs
      obtain rfl := Except.ok.inj hs
      have hopen : NewestFirst s.sent { c with state := .established } :=
        hblock.assign rfl (UInt32.le_refl _) (List.Sublist.refl _)
      rw [handleSynReceived]
      split_ifs
      · have hwrite := h.write rfl (List.prefix_refl _) hopen
        exact hwrite.same (fun _ hd => hd) (List.prefix_refl _)
      · exact h
  | established =>
      rw [hstate] at hs
      exact h.handleEstablishedState hc hstate hs
  | waitForAck =>
      rw [hstate] at hs
      exact h.handleWaitForAckState hc hs
  | lastAck =>
      rw [hstate] at hs
      obtain ⟨d, -, hlast⟩ := bind_eq_ok.mp hs
      split_ifs at hlast
      · exact h.removeConnection hlast
      · obtain rfl := Except.ok.inj hlast
        exact h
  | _ =>
      rw [hstate] at hs
      obtain rfl := Except.ok.inj hs
      exact h

/-- A new block comes on the list. -/
theorem addConnection (h : OrderedStack s) (hlist : t.connectionList = s.connectionList)
    (hlog : s.sent <+: t.sent) (hc : NewestFirst t.sent c) :
    OrderedStack (addConnection t c) := by
  refine List.forall_mem_cons.mpr ⟨hc, fun d hd => ?_⟩
  rw [hlist] at hd
  exact (h d hd).mono hlog

theorem passiveOpen (h : OrderedStack s) (srcIp dstIp : UInt32) (tcp : TcpHeader)
    (bytes : ℕ → UInt8) : OrderedStack (passiveOpen s srcIp dstIp tcp bytes) := by
  obtain ⟨-, heq⟩ | ⟨-, c, u, x, hc, hu, hx, heq⟩ := passiveOpen_cases s srcIp dstIp tcp bytes
  · rw [heq]
    exact h.same (fun _ hd => hd) (List.prefix_refl _)
  · have hnew : NewestFirst u.sent c := .of_nil _ (by rw [hc]; rfl)
    have hsent : u.sent = s.sent := by rw [hu]
    have hopened := h.addConnection (by rw [hu]) (hsent ▸ List.prefix_refl _) hnew
    rw [heq]
    refine (hopened.sendBack hnew hx (Nat.zero_le _)).same (fun d hd => ?_) ?_
    · rwa [connectionList_startRetransmissionTimer] at hd
    · exact sent_startRetransmissionTimer _ _ _ ▸ List.prefix_refl _

theorem tcpConnect (h : OrderedStack s) (stale : StaleBlock) (remoteIp : UInt32)
    (remotePort : UInt16) : OrderedStack (tcpConnect s stale remoteIp remotePort) := by
  obtain ⟨-, heq⟩ | ⟨-, c, u, x, hc, hu, hx, heq⟩ := tcpConnect_cases s stale remoteIp remotePort
  · rw [heq]
    exact h.same (fun _ hd => hd) (List.prefix_refl _)
  · have hnew : NewestFirst u.sent c := .of_nil _ (by rw [hc]; rfl)
    rw [heq]
    refine h.addConnection ?_ ?_ (hnew.send hx (Nat.zero_le _))
    · rw [hx, connectionList_tcpSendSegment, hu]
    · rw [hx, sent_tcpSendSegment, hu]
      exact List.prefix_append _ _

/-- An incoming segment. -/
theorem handleSegment (h : OrderedStack s) (haddr : Addressed s) {srcIp dstIp : UInt32}
    {tcp : TcpHeader} {bytes : ℕ → UInt8} {len : UInt16}
    (hs : handleSegment s srcIp dstIp tcp bytes len = .ok s') : OrderedStack s' := by
  obtain rfl | rfl | ⟨-, -, -, rfl⟩ | ⟨c, hfind, hrem | ⟨-, hin⟩⟩ := handleSegment_eq_ok hs
  · exact h
  · refine h.same (fun d hd => ?_) (frame_tcpSendReset s srcIp dstIp tcp).sent
    rwa [tcpSendReset, connectionList_tcpSendSegment] at hd
  · exact h.passiveOpen srcIp dstIp tcp bytes
  · exact h.removeConnection hrem
  · exact h.handleInState (haddr.deref_of_mem (mem_of_findConnection hfind)) hin

/-- **The step lemma.** -/
theorem next (h : OrderedStack s) (haddr : Addressed s) {e : TcpEvent} (hwhole : WholeSend s e)
    (hs : e.next s = .ok s') : OrderedStack s' := by
  cases e with
  | segment srcIp dstIp bytes len => exact h.handleSegment haddr hs
  | connect stale remoteIp remotePort =>
      obtain rfl := Except.ok.inj hs
      exact h.tcpConnect stale remoteIp remotePort
  | listen port =>
      obtain rfl := Except.ok.inj hs
      rw [tcpListen, TcpStack.malloc]
      cases s.mallocs.headD true with
      | false => exact h.same (fun _ hd => hd) (List.prefix_refl _)
      | true => exact h.same (fun _ hd => hd) (List.prefix_refl _)
  | send conn flags data dataLen =>
      obtain ⟨c, hc, hs⟩ := bind_eq_ok.mp hs
      obtain rfl := Except.ok.inj hs
      exact h.sendBack (h c (deref_eq_ok hc).1) rfl hwhole
  | remove conn => exact h.removeConnection hs
  | checkTimers => exact h.checkTcpTimers hs
  | drain conn =>
      obtain ⟨c, hc, hs⟩ := bind_eq_ok.mp hs
      obtain rfl := Except.ok.inj hs
      refine h.write rfl (List.prefix_refl _) ?_
      exact (h c (deref_eq_ok hc).1).assign rfl (UInt32.le_refl _) (List.Sublist.refl _)
  | tick ticks =>
      obtain rfl := Except.ok.inj hs
      exact h.same (fun _ hd => hd) (List.prefix_refl _)

end OrderedStack

/-- In every state of every run. -/
theorem orderedStack_of_steps {ticks nicIp : UInt32} {indexHtml : Option (List UInt8)}
    {mallocs : List Bool}
    (h : Steps TcpEvent.next WholeSend (TcpStack.boot ticks nicIp indexHtml mallocs) s) :
    Addressed s ∧ OrderedStack s := by
  refine h.invariant (I := fun s => Addressed s ∧ OrderedStack s)
    ⟨addressed_boot .., fun _ hc => absurd hc List.not_mem_nil⟩ fun s e s' hI hwhole hs => ?_
  exact ⟨hI.1.next hs, hI.2.next hI.1 hwhole hs⟩

/-- What is selected is at the front of a queue that is newest first. -/
theorem Selects.newestFirst (h : Selects s u c e) (hs : OrderedStack s) :
    NewestFirst u.sent c ∧ c.retransmitQueue.head? = some e := by
  cases h with
  | timer hcheck hc _ _ _ hfront => exact ⟨hs.timerCheck hcheck c (deref_eq_ok hc).1, hfront⟩
  | established _ _ htimers hd _ _ hfront =>
      exact ⟨hs.checkTcpTimers htimers c (deref_eq_ok hd).1, hfront⟩
  | waitForAck hc _ _ _ hfront => exact ⟨hs c (deref_eq_ok hc).1, hfront⟩

/-- **The oldest segment first.** In every run, and whenever an entry of a connection whose numbers
have not wrapped is selected to be retransmitted, it is the oldest one if and only if it is the
only one. -/
theorem selectsOldest_iff (ticks nicIp : UInt32) (indexHtml : Option (List UInt8))
    (mallocs : List Bool) (s : TcpStack)
    (hsteps : Steps TcpEvent.next WholeSend (TcpStack.boot ticks nicIp indexHtml mallocs) s)
    (u : TcpStack) (c : TcpConnection) (e : RetransmitEntry) (hselects : Selects s u c e)
    (hwrap : NoWrap u.sent c.addr) : IsOldest c e ↔ IsAlone c e := by
  obtain ⟨hordered, hfront⟩ := hselects.newestFirst (orderedStack_of_steps hsteps).2
  exact hordered.isOldest_iff hwrap hfront

/-- A test of a run from boot on, with a page of one byte, and of what a timer that has run out
selects. -/
theorem exists_selects (events : List TcpEvent)
    (p : TcpStack → TcpConnection → RetransmitEntry → Bool)
    (h : ((events.foldlM (fun s e => if WholeSend s e then e.next s else .error .useAfterFree)
      (.boot 0 0x0A00020F (some [0x41]) [])).toOption.any fun s => s.activeTimers.any fun timer =>
        !decide (s.ticks - timer.startTime < timer.timeoutMs) &&
          (s.deref timer.conn).toOption.any fun c => decide (c.state = .waitForAck) &&
            ((retransmitOnTimer s timer c).toOption.any Option.isSome &&
              c.retransmitQueue.head?.any (p s c))) = true) :
    ∃ s c e, Steps TcpEvent.next WholeSend (.boot 0 0x0A00020F (some [0x41]) []) s ∧
      Selects s s c e ∧ p s c e = true := by
  obtain ⟨s, hrun, htest⟩ := exists_eq_ok_of_any h
  obtain ⟨timer, -, htest⟩ := List.any_eq_true.mp htest
  obtain ⟨hexpired, htest⟩ := Bool.and_eq_true_iff.mp htest
  obtain ⟨c, hc, htest⟩ := exists_eq_ok_of_any htest
  obtain ⟨hstate, htest⟩ := Bool.and_eq_true_iff.mp htest
  obtain ⟨hsend, htest⟩ := Bool.and_eq_true_iff.mp htest
  obtain ⟨y, hretry, hsome⟩ := exists_eq_ok_of_any hsend
  obtain ⟨⟨t, timer'⟩, rfl⟩ := Option.isSome_iff_exists.mp hsome
  obtain ⟨e, hfront, hp⟩ := (Option.any_eq_true _ _).mp htest
  rw [Bool.not_eq_true', decide_eq_false_iff_not] at hexpired
  exact ⟨s, c, e, .of_checked _ hrun,
    .timer .refl hc hexpired (of_decide_eq_true hstate) hretry hfront, hp⟩

/-- The peer asks for the page, which is sent behind a header block, and acknowledges no more than
`ack`. The timer runs out. -/
def unanswered (ack : UInt32) : List TcpEvent :=
  peerOpens ++ [(peerSegment 1 1 tcpAck (asciiBytes "GET /")).arrives,
    (peerSegment 6 ack tcpAck []).arrives, .tick 3000]

/-- The page is acknowledged. The header block, which is alone in the queue, is selected. -/
theorem selectsOldest_iff_header :
    ∃ s c e, Steps TcpEvent.next WholeSend (.boot 0 0x0A00020F (some [0x41]) []) s ∧
      Selects s s c e ∧ e.seq = 1 ∧ IsOldest c e := by
  obtain ⟨s, c, e, hsteps, hselects, hp⟩ := exists_selects (unanswered 84)
    (fun s c e => decide (NoWrap s.sent c.addr ∧ c.queueWild = false ∧ c.retransmitQueue = [e] ∧
      e.seq = 1))
    (by decide +kernel)
  obtain ⟨hwrap, hwild, hq, hseq⟩ := of_decide_eq_true hp
  exact ⟨s, c, e, hsteps, hselects, hseq, (selectsOldest_iff 0 0x0A00020F (some [0x41]) [] s hsteps
    s c e hselects hwrap).mpr ⟨hwild, hq⟩⟩

/-- Nothing is acknowledged. The page is selected, and the header block waits behind it. -/
theorem not_selectsOldest_page :
    ¬ ∀ s, Steps TcpEvent.next WholeSend (.boot 0 0x0A00020F (some [0x41]) []) s →
      ∀ u c e, Selects s u c e → NoWrap u.sent c.addr → IsOldest c e := by
  intro hall
  obtain ⟨s, c, e, hsteps, hselects, hp⟩ := exists_selects (unanswered 1)
    (fun s c e => decide (NoWrap s.sent c.addr ∧ ∃ f ∈ c.retransmitQueue, ¬ e.seq ≤ f.seq))
    (by decide +kernel)
  obtain ⟨hwrap, f, hf, hlater⟩ := of_decide_eq_true hp
  exact hlater ((hall s hsteps s c e hselects hwrap).2 f hf)

end HalOS
