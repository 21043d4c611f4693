import HalOS.Net.HttpServer
import HalOS.Net.TcpFrame
import HalOS.Net.TcpRetransmit
import Mathlib.Algebra.GroupWithZero.Nat

/-!
# What a Segment Does to `next_seq`

Once the timers have been checked and a duplicate acknowledgement has been answered, the handlers
do nothing to a control block but send new segments for it and assign fields, so that `next_seq`
moves by what is sent and the queue grows in front. What comes before does not keep to that: the
timer check and fast retransmission number what they repeat as new data, and `TCP_ESTABLISHED` sets
`next_seq` to any acknowledgement that is ahead of it.

## Main results

* `SendsOnly.nextSeq`, `SendsOnly.queue`: what sending does to a block.
* `sendsFins_checkTcpTimers`: what the timer check does to an established connection.
* `movesBySending_iff`: the exact condition, for every state and every segment.
-/

namespace HalOS

open Outcome (Steps bind_eq_ok exists_eq_ok_of_any)

/-- The sequence space of a segment: its payload bytes, one for SYN and one for FIN. -/
def TcpSegment.space (seg : TcpSegment) : ℕ :=
  seg.data.length + (if hasFlag seg.flags tcpSyn then 1 else 0) +
    if hasFlag seg.flags tcpFin then 1 else 0

/-- The sequence space of some segments. -/
def sequenceSpace (segs : List TcpSegment) : ℕ := (segs.map TcpSegment.space).sum

/-- The segments that were sent for a connection from `s` to `s'`. -/
def sentSince (s s' : TcpStack) (conn : ℕ) : List TcpSegment :=
  (s'.sent.drop s.sent.length).filter fun seg => seg.owner = conn

variable {s s' t : TcpStack} {c c' d e : TcpConnection} {more more' : List TcpSegment} {conn : ℕ}

theorem sequenceSpace_append (segs segs' : List TcpSegment) :
    sequenceSpace (segs ++ segs') = sequenceSpace segs + sequenceSpace segs' := by
  rw [sequenceSpace, List.map_append, List.sum_append]
  rfl

theorem sentSince_of_append (h : s'.sent = s.sent ++ more) :
    sentSince s s' conn = more.filter fun seg => seg.owner = conn := by
  rw [sentSince, h, List.drop_left]

/-- All of them are segments of the connection. -/
theorem sentSince_of_owner (h : s'.sent = s.sent ++ more) (hown : ∀ seg ∈ more, seg.owner = conn) :
    sentSince s s' conn = more := by
  rw [sentSince_of_append h, List.filter_eq_self]
  exact fun seg hseg => decide_eq_true (hown seg hseg)

theorem sentSince_self (h : s'.sent = s.sent) : sentSince s s' conn = [] :=
  sentSince_of_append (h.trans (List.append_nil _).symm)

/-! ### Blocks that are only sent for -/

/-- New segments were sent for the connection, none with SYN, and fields assigned other than its
numbers and its queue. -/
inductive SendsOnly (s : TcpStack) (c : TcpConnection) : TcpStack → TcpConnection → Prop
  | refl : SendsOnly s c s c
  | send {s' : TcpStack} {c' : TcpConnection} (h : SendsOnly s c s' c')
      {x : TcpStack × TcpConnection} {flags : UInt8} {data : List UInt8} {dataLen : UInt16}
      (hx : x = tcpSendSegment s' c' flags data dataLen) (hsyn : hasFlag flags tcpSyn = false)
      (hdata : dataLen.toNat ≤ data.length) : SendsOnly s c x.1 x.2
  | assign {s' : TcpStack} {c' d : TcpConnection} (h : SendsOnly s c s' c')
      (haddr : d.addr = c'.addr) (hnext : d.nextSeq = c'.nextSeq)
      (hqueue : d.retransmitQueue = c'.retransmitQueue) (hwild : d.queueWild = c'.queueWild) :
      SendsOnly s c s' d
  | surroundings {s' t : TcpStack} {c' : TcpConnection} (h : SendsOnly s c s' c')
      (hlist : t.connectionList = s'.connectionList) (hsent : t.sent = s'.sent) :
      SendsOnly s c t c'

/-- Sending puts the segment in front of the queue, or leaves the queue alone. -/
theorem queue_tcpSendSegment {x : TcpStack × TcpConnection} {flags : UInt8} {data : List UInt8}
    {dataLen : UInt16} (hx : x = tcpSendSegment s c flags data dataLen) :
    ∃ added, x.2.retransmitQueue = added ++ c.retransmitQueue ∧ added.length ≤ 1 := by
  rw [hx, tcpSendSegment_eq, TcpConnection.afterSend]
  cases (queueOutcome s.mallocs flags dataLen).1 with
  | false => exact ⟨[], rfl, Nat.zero_le _⟩
  | true => exact ⟨[_], rfl, Nat.le_refl _⟩

namespace SendsOnly

theorem trans (h : SendsOnly s c s' c') (h' : SendsOnly s' c' t d) : SendsOnly s c t d := by
  induction h' with
  | refl => exact h
  | send _ hx hsyn hdata ih => exact ih.send hx hsyn hdata
  | assign _ haddr hnext hqueue hwild ih => exact ih.assign haddr hnext hqueue hwild
  | surroundings _ hlist hsent ih => exact ih.surroundings hlist hsent

theorem addr (h : SendsOnly s c s' c') : c'.addr = c.addr := by
  induction h with
  | refl => rfl
  | send _ hx _ _ ih => rw [hx, addr_tcpSendSegment, ih]
  | assign _ haddr _ _ _ ih => exact haddr.trans ih
  | surroundings _ _ _ ih => exact ih

theorem list (h : SendsOnly s c s' c') : s'.connectionList = s.connectionList := by
  induction h with
  | refl => rfl
  | send _ hx _ _ ih => rw [hx, connectionList_tcpSendSegment, ih]
  | assign _ _ _ _ _ ih => exact ih
  | surroundings _ hlist _ ih => exact hlist.trans ih

theorem queueWild (h : SendsOnly s c s' c') : c'.queueWild = c.queueWild := by
  induction h with
  | refl => rfl
  | send _ hx _ _ ih => rw [hx, tcpSendSegment_eq, ← ih]; rfl
  | assign _ _ _ _ hwild ih => exact hwild.trans ih
  | surroundings _ _ _ ih => exact ih

/-- The queue grows in front. -/
theorem queue (h : SendsOnly s c s' c') :
    ∃ newer, c'.retransmitQueue = newer ++ c.retransmitQueue := by
  induction h with
  | refl => exact ⟨[], rfl⟩
  | send _ hx _ _ ih =>
      obtain ⟨newer, hnewer⟩ := ih
      obtain ⟨added, hadded, -⟩ := queue_tcpSendSegment hx
      exact ⟨added ++ newer, by rw [hadded, hnewer, List.append_assoc]⟩
  | assign _ _ _ hqueue _ ih =>
      rw [hqueue]
      exact ih
  | surroundings _ _ _ ih => exact ih

end SendsOnly

/-- A segment without SYN takes the space by which sending it moves `next_seq`. -/
theorem ofNat_space {flags : UInt8} {data : List UInt8} {dataLen : UInt16}
    (hsyn : hasFlag flags tcpSyn = false) (hdata : dataLen.toNat ≤ data.length)
    (c : TcpConnection) :
    UInt32.ofNat (buildSegment c flags (data.take dataLen.toNat)).space =
      sequenceLen flags dataLen := by
  have hcontrol : hasFlag flags (tcpSyn ||| tcpFin) = hasFlag flags tcpFin := by
    have hzero : flags &&& tcpSyn = 0 := by simpa [hasFlag] using hsyn
    have hor : flags &&& (tcpSyn ||| tcpFin) = flags &&& tcpFin := by
      refine UInt8.toBitVec_inj.mp ?_
      rw [UInt8.toBitVec_and, UInt8.toBitVec_or, BitVec.and_or_distrib_left,
        ← UInt8.toBitVec_and, hzero, ← UInt8.toBitVec_and]
      exact BitVec.zero_or
    rw [hasFlag, hor, hasFlag]
  have hspace : (buildSegment c flags (data.take dataLen.toNat)).space =
      dataLen.toNat + if hasFlag flags tcpFin then 1 else 0 := by
    change (data.take dataLen.toNat).length + (if hasFlag flags tcpSyn then 1 else 0) + _ = _
    rw [hsyn, if_neg Bool.false_ne_true, Nat.add_zero, List.length_take, Nat.min_eq_left hdata]
    rfl
  rw [hspace, sequenceLen, hcontrol, UInt32.ofNat_add]
  rw [UInt32.ofNat_uInt16ToNat]
  split_ifs <;> rfl

/-- **What sending does to the numbers.** `next_seq` moves by the sequence space of the segments
that the log gains, which are all the connection's. -/
theorem SendsOnly.nextSeq (h : SendsOnly s c s' c') :
    ∃ more, s'.sent = s.sent ++ more ∧ (∀ seg ∈ more, seg.owner = c.addr) ∧
      c'.nextSeq = c.nextSeq + UInt32.ofNat (sequenceSpace more) := by
  induction h with
  | refl => exact ⟨[], (List.append_nil _).symm, nofun, (UInt32.add_zero _).symm⟩
  | @send t d h x flags data dataLen hx hsyn hdata ih =>
      obtain ⟨more, hsent, hown, hnext⟩ := ih
      refine ⟨more ++ [buildSegment d flags (data.take dataLen.toNat)], ?_, ?_, ?_⟩
      · rw [hx, sent_tcpSendSegment, hsent, List.append_assoc]
      · intro seg hseg
        obtain hseg | hseg := List.mem_append.mp hseg
        · exact hown seg hseg
        · rw [List.mem_singleton.mp hseg]
          exact h.addr
      · have hlast : sequenceSpace [buildSegment d flags (data.take dataLen.toNat)] =
            (buildSegment d flags (data.take dataLen.toNat)).space := Nat.add_zero _
        rw [hx, nextSeq_tcpSendSegment, hnext, sequenceSpace_append, hlast, UInt32.ofNat_add,
          ofNat_space hsyn hdata, UInt32.add_assoc]
  | assign _ _ hnext _ _ ih =>
      obtain ⟨more, hsent, hown, hnext'⟩ := ih
      exact ⟨more, hsent, hown, hnext.trans hnext'⟩
  | surroundings _ _ hsent ih =>
      obtain ⟨more, hsent', hown, hnext⟩ := ih
      exact ⟨more, hsent.trans hsent', hown, hnext⟩

/-! ### The end of the handlers -/

theorem length_httpNotFound_lt : httpNotFound.length < 2 ^ 16 := by decide

/-- What is sent of the file is there. -/
theorem bodySize_le (file : List UInt8) : (httpBodySize file).toUInt16.toNat ≤ file.length := by
  have hsize : (httpBodySize file).toNat ≤ file.length := by
    have hlen : (UInt32.ofNat file.length).toNat ≤ file.length := by
      rw [UInt32.toNat_ofNat']
      exact Nat.mod_le _ _
    rw [httpBodySize]
    split_ifs with h
    · have hone : 1 ≤ UInt32.ofNat file.length := UInt32.le_iff_toNat_le.mpr h.1
      rw [UInt32.toNat_sub_of_le _ _ hone]
      exact Nat.le_trans (Nat.sub_le _ _) hlen
    · exact hlen
  rw [UInt32.toNat_toUInt16]
  exact Nat.le_trans (Nat.mod_le _ _) hsize

theorem sendsOnly_startRetransmissionTimer (s : TcpStack) (c : TcpConnection) (conn : ℕ)
    (timeoutMs : UInt32) : SendsOnly s c (startRetransmissionTimer s conn timeoutMs) c :=
  SendsOnly.refl.surroundings (connectionList_startRetransmissionTimer s conn timeoutMs)
    (sent_startRetransmissionTimer s conn timeoutMs)

theorem sendsOnly_handleHttpRequest (s : TcpStack) (c : TcpConnection) :
    SendsOnly s c (handleHttpRequest s c).1 (handleHttpRequest s c).2 := by
  have hmalloc : SendsOnly s c s.malloc.2 c := SendsOnly.refl.surroundings rfl rfl
  obtain ⟨-, x, hx, heq⟩ | ⟨file, -, -, heq⟩ | ⟨file, -, -, x, y, hx, hy, heq⟩ :=
    handleHttpRequest_cases s c
  · have hlen : (UInt16.ofNat httpNotFound.length).toNat ≤ httpNotFound.length :=
      Nat.le_of_eq (UInt16.toNat_ofNat_of_lt' length_httpNotFound_lt)
    rw [heq]
    exact (SendsOnly.refl.send hx rfl hlen).assign rfl rfl rfl rfl
  · rw [heq]
    exact hmalloc.assign rfl rfl rfl rfl
  · have hlen : (UInt16.ofNat (httpHeaders (httpBodySize file)).length).toNat ≤
        (httpHeaders (httpBodySize file)).length :=
      Nat.le_of_eq (UInt16.toNat_ofNat_of_lt'
        (Nat.lt_of_le_of_lt (length_httpHeaders_le _) (by decide)))
    have hsends := (hmalloc.send hx rfl hlen).send hy rfl (bodySize_le file)
    rw [heq]
    exact (hsends.trans (sendsOnly_startRetransmissionTimer _ _ _ _)).assign rfl rfl rfl rfl

theorem sendsOnly_receiveData {seq : UInt32} {payload : List UInt8} {dataLen : UInt16}
    {x : TcpStack × TcpConnection} (h : receiveData s c seq payload dataLen = .ok x) :
    SendsOnly s c x.1 x.2 := by
  obtain ⟨-, heq, heq'⟩ | ⟨-, -, y, rfl, heq, heq'⟩ | ⟨-, -, -, heq⟩ :=
    @receiveData_eq_ok _ x.1 _ x.2 _ _ _ h
  · rw [heq, heq']
    exact .refl
  · rw [heq, heq']
    refine (SendsOnly.trans ?_ (sendsOnly_handleHttpRequest _ _)).assign rfl rfl rfl rfl
    exact SendsOnly.refl.assign rfl rfl rfl rfl
  · refine SendsOnly.send (x := x) ?_ heq rfl (Nat.zero_le _)
    exact SendsOnly.refl.assign rfl rfl rfl rfl

theorem sendsOnly_handleFin (s : TcpStack) (c : TcpConnection) (flags : UInt8) :
    SendsOnly s c (handleFin s c flags).1 (handleFin s c flags).2 := by
  rw [handleFin]
  split_ifs
  · have hclosing : SendsOnly s c s
        { c with expectedAck := c.expectedAck + 1, state := .closeWait } :=
      SendsOnly.refl.assign rfl rfl rfl rfl
    exact ((hclosing.send rfl rfl (Nat.zero_le _)).send rfl rfl (Nat.zero_le _)).assign
      rfl rfl rfl rfl
  · exact .refl

/-- The end of the handler of `TCP_ESTABLISHED`. -/
theorem sendsOnly_finishSegment {tcp : TcpHeader} {bytes : ℕ → UInt8} {len : UInt16}
    {z : TcpStack × TcpConnection} (h : finishSegment s c tcp bytes len = .ok z) :
    SendsOnly s c z.1 z.2 := by
  obtain ⟨y, hdata, h⟩ := bind_eq_ok.mp h
  rw [Except.ok.injEq] at h
  rw [← h]
  refine (SendsOnly.trans ?_ (sendsOnly_receiveData hdata)).trans (sendsOnly_handleFin _ _ _)
  split_ifs
  · exact SendsOnly.refl.send rfl rfl (Nat.zero_le _)
  · exact .refl

/-- A block that was only sent for is written back: it is read again, and `next_seq` has moved by
what was sent. -/
theorem SendsOnly.written (h : SendsOnly s c t d) (hc : s.deref c.addr = .ok e) :
    (t.setConn d).deref c.addr = .ok d ∧
      d.nextSeq = c.nextSeq + UInt32.ofNat (sequenceSpace (sentSince s (t.setConn d) c.addr)) := by
  obtain ⟨more, hmore, hown, hnext⟩ := h.nextSeq
  have hread : t.deref c.addr = .ok e := by
    rw [TcpStack.deref, h.list]
    exact hc
  have hsent : (t.setConn d).sent = s.sent ++ more := hmore
  refine ⟨deref_setConn hread h.addr, ?_⟩
  rw [sentSince_of_owner hsent hown, hnext]

/-! ### The timer check -/

/-- Freeing takes a block off the list and leaves the others. -/
theorem deref_freeConnection (h : freeConnection s c = .ok s') (hd : s'.deref conn = .ok d) :
    conn ≠ c.addr ∧ s.deref conn = .ok d := by
  obtain ⟨-, rfl⟩ := freeConnection_eq_ok.mp h
  rw [TcpStack.deref, List.find?_filter] at hd
  by_cases hconn : conn = c.addr
  · have hnone : s.connectionList.find? (fun e => decide
        ((e.addr != c.addr) = true ∧ (e.addr == conn) = true)) = none := by
      refine List.find?_eq_none.mpr fun e _ hboth => ?_
      obtain ⟨hne, heq⟩ := of_decide_eq_true hboth
      exact bne_iff_ne.mp hne ((beq_iff_eq.mp heq).trans hconn)
    rw [hnone] at hd
    cases hd
  · refine ⟨hconn, ?_⟩
    have hsame : (fun e : TcpConnection => decide
        ((e.addr != c.addr) = true ∧ (e.addr == conn) = true)) = fun e => e.addr == conn := by
      funext e
      refine Bool.eq_iff_iff.mpr (decide_eq_true_iff.trans (and_iff_right_of_imp fun heq => ?_))
      rw [beq_iff_eq.mp heq]
      exact bne_iff_ne.mpr hconn
    rwa [hsame] at hd

/-- From `s` to `s'` the timers were checked: blocks have only gone or been sent for, and for an
established connection only FINs, one number each. -/
def SendsFins (s s' : TcpStack) : Prop :=
  ∃ more, s'.sent = s.sent ++ more ∧ ∀ a d, s'.deref a = .ok d → ∃ c, s.deref a = .ok c ∧
    d.core = c.core ∧ (c.state = .established →
      d.nextSeq = c.nextSeq + UInt32.ofNat (more.filter fun seg => seg.owner = a).length ∧
        ∃ added, d.retransmitQueue = added ++ c.retransmitQueue)

namespace SendsFins

/-- Nothing is sent, and blocks only go. -/
theorem of_sent_eq (hsent : s'.sent = s.sent)
    (hderef : ∀ a d, s'.deref a = .ok d → s.deref a = .ok d) : SendsFins s s' := by
  refine ⟨[], hsent.trans (List.append_nil _).symm, fun a d hd => ?_⟩
  exact ⟨d, hderef a d hd, rfl, fun _ => ⟨(UInt32.add_zero _).symm, [], rfl⟩⟩

theorem trans (h : SendsFins s s') (h' : SendsFins s' t) : SendsFins s t := by
  obtain ⟨more, hmore, hblocks⟩ := h
  obtain ⟨more', hmore', hblocks'⟩ := h'
  refine ⟨more ++ more', by rw [hmore', hmore, List.append_assoc], fun a d hd => ?_⟩
  obtain ⟨e, he, hcore', hfins'⟩ := hblocks' a d hd
  obtain ⟨c, hc, hcore, hfins⟩ := hblocks a e he
  refine ⟨c, hc, hcore'.trans hcore, fun hstate => ?_⟩
  obtain ⟨hnext, added, hqueue⟩ := hfins hstate
  obtain ⟨hnext', added', hqueue'⟩ := hfins' ((congrArg TcpConnection.state hcore).trans hstate)
  refine ⟨?_, added' ++ added, by rw [hqueue', hqueue, List.append_assoc]⟩
  rw [hnext', hnext, List.filter_append, List.length_append, UInt32.ofNat_add, UInt32.add_assoc]

/-- One segment is sent and its block written back: a FIN, if the connection is established. -/
theorem sendBack {c₀ : TcpConnection} {flags : UInt8} {data : List UInt8} {dataLen : UInt16}
    {x : TcpStack × TcpConnection} (hx : x = tcpSendSegment s c₀ flags data dataLen)
    (hc : s.deref conn = .ok c) (hcore : c₀.core = c.core)
    (hfin : c.state = .established → c₀ = c ∧ sequenceLen flags dataLen = 1) :
    SendsFins s (x.1.setConn x.2) := by
  have haddr : c₀.addr = conn :=
    (congrArg TcpConnection.addr hcore).trans (deref_eq_ok hc).2
  have haddr' : x.2.addr = conn := by rw [hx, addr_tcpSendSegment, haddr]
  refine ⟨[buildSegment c₀ flags (data.take dataLen.toNat)], ?_, fun a d hd => ?_⟩
  · change x.1.sent = _
    rw [hx, sent_tcpSendSegment]
  by_cases ha : a = conn
  · have hback : (x.1.setConn x.2).deref conn = .ok x.2 :=
      deref_setConn (by rw [hx, deref_tcpSendSegment, hc]) haddr'
    obtain rfl : x.2 = d := Except.ok.inj (hback.symm.trans (ha ▸ hd))
    refine ⟨c, ha ▸ hc, ?_, fun hstate => ?_⟩
    · rw [hx, tcpSendSegment_eq]
      exact hcore
    · obtain ⟨rfl, hone⟩ := hfin hstate
      have hown : [buildSegment c₀ flags (data.take dataLen.toNat)].filter
          (fun seg => seg.owner = a) = [buildSegment c₀ flags (data.take dataLen.toNat)] :=
        List.filter_eq_self.mpr fun seg hseg =>
          decide_eq_true (List.mem_singleton.mp hseg ▸ haddr.trans ha.symm)
      obtain ⟨added, hadded, -⟩ := queue_tcpSendSegment hx
      refine ⟨?_, added, hadded⟩
      rw [hown, hx, nextSeq_tcpSendSegment, hone]
      rfl
  · rw [deref_setConn_of_ne (haddr'.symm ▸ Ne.symm ha), hx, deref_tcpSendSegment] at hd
    have hother : [buildSegment c₀ flags (data.take dataLen.toNat)].filter
        (fun seg => seg.owner = a) = [] :=
      List.filter_eq_nil_iff.mpr fun seg hseg hown => by
        rw [List.mem_singleton.mp hseg, decide_eq_true_iff] at hown
        exact ha (hown.symm.trans haddr)
    rw [hother]
    exact ⟨d, hd, rfl, fun _ => ⟨(UInt32.add_zero _).symm, [], rfl⟩⟩

end SendsFins

/-- **The timer check** leaves of a block that stays all but its numbers and its queue. For an
established connection it sends FINs. -/
theorem sendsFins_checkTcpTimers (h : checkTcpTimers s = .ok s') : SendsFins s s' := by
  refine TimerClosed.checkTcpTimers
    { trans := SendsFins.trans
      timers := fun _ _ => .of_sent_eq rfl fun _ _ hd => hd
      retry := ?_
      free := fun _ hfree => ?_ } h
  · intro s s' timer timer' c hc hretry
    obtain ⟨e, es, hstate, -, -, x, hx, rfl, -⟩ | ⟨-, -, x, hx, rfl, -⟩ :=
      retransmitOnTimer_eq_some hretry
    · exact .sendBack hx hc rfl fun hestablished => by
        rw [hstate] at hestablished
        cases hestablished
    · refine .sendBack hx hc rfl fun hestablished => ⟨rfl, ?_⟩
      rw [hestablished]
      rfl
  · refine .of_sent_eq ?_ fun a d hd => (deref_freeConnection hfree hd).2
    rw [(freeConnection_eq_ok.mp hfree).2]

/-! ### What is repeated -/

/-- The FINs that the timer check sends for the connection. -/
def timerFins (s : TcpStack) (conn : ℕ) : ℕ :=
  (checkTcpTimers s).toOption.elim 0 fun t => (sentSince s t conn).length

/-- The length of the entry at the front of the queue. -/
def TcpConnection.frontLength (c : TcpConnection) : UInt32 :=
  c.retransmitQueue.head?.elim 0 fun e => e.length.toUInt32

/-- The length of the entry that the timer check leaves at the front of the queue. -/
def frontAfterTimers (s : TcpStack) (conn : ℕ) : UInt32 :=
  ((checkTcpTimers s).toOption.bind fun t => (t.deref conn).toOption).elim 0
    TcpConnection.frontLength

/-- The numbers that are given to what is repeated for a connection in `TCP_ESTABLISHED`: one to
each FIN of the timer check, and those of the front entry at the third duplicate. -/
def repeatedNumbers (s : TcpStack) (c : TcpConnection) (ack : UInt32) : UInt32 :=
  UInt32.ofNat (timerFins s c.addr) +
    if ack = c.lastAck ∧ c.dupAckCount + 1 = 3 then frontAfterTimers s c.addr else 0

/-- What is held after fast retransmission has grown from what was held before. -/
structure Grown (s : TcpStack) (c : TcpConnection) (s' : TcpStack) (c' : TcpConnection) : Prop where
  sent : ∃ more, s'.sent = s.sent ++ more
  addr : c'.addr = c.addr
  queueWild : c'.queueWild = c.queueWild
  queue : ∃ added, c'.retransmitQueue = added ++ c.retransmitQueue

theorem fastRetransmit_numbers {ack : UInt32} {x : TcpStack × TcpConnection}
    (h : fastRetransmit s c ack = .ok x) :
    Grown s c x.1 x.2 ∧ x.2.nextSeq =
      c.nextSeq + if ack = c.lastAck ∧ c.dupAckCount + 1 = 3 then c.frontLength else 0 := by
  obtain ⟨hne, heq, heq'⟩ | ⟨hack, hempty, heq, heq'⟩ | ⟨hack, hthree, e, es, hq, heq⟩ :=
    @fastRetransmit_eq_ok _ x.1 _ x.2 _ h
  · rw [heq, heq', if_neg fun hboth => hne hboth.1, UInt32.add_zero]
    exact ⟨⟨⟨[], (List.append_nil _).symm⟩, rfl, rfl, [], rfl⟩, rfl⟩
  · rw [heq, heq']
    refine ⟨⟨⟨[], (List.append_nil _).symm⟩, rfl, rfl, [], rfl⟩, ?_⟩
    split_ifs with hboth
    · rw [TcpConnection.frontLength, hempty hboth.2]
      exact (UInt32.add_zero _).symm
    · exact (UInt32.add_zero _).symm
  · have hx : x = tcpSendSegment s { c with dupAckCount := c.dupAckCount + 1 } tcpAck e.data
        e.length := heq
    obtain ⟨added, hadded, -⟩ := queue_tcpSendSegment hx
    refine ⟨⟨⟨_, by rw [hx, sent_tcpSendSegment]⟩, ?_, ?_, added, hadded⟩, ?_⟩
    · rw [hx, addr_tcpSendSegment]
    · rw [hx, tcpSendSegment_eq]
      rfl
    · rw [if_pos ⟨hack, hthree⟩, TcpConnection.frontLength, hq, hx, nextSeq_tcpSendSegment]
      exact congrArg _ (UInt32.add_zero _)

/-- The start of the handler of `TCP_ESTABLISHED`. -/
theorem prepareSegment_established {tcp : TcpHeader} {x : TcpStack × TcpConnection}
    (hc : s.deref conn = .ok c) (hstate : c.state = .established)
    (h : prepareSegment s conn tcp = .ok x) :
    Grown s c x.1 x.2 ∧ x.2.nextSeq = c.nextSeq + repeatedNumbers s c tcp.ack := by
  obtain ⟨t, htimers, h⟩ := bind_eq_ok.mp h
  obtain ⟨d, hd, h⟩ := bind_eq_ok.mp h
  obtain ⟨more, hmore, hblocks⟩ := sendsFins_checkTcpTimers htimers
  obtain ⟨c₀, hc₀, hcore, hfins⟩ := hblocks conn d hd
  obtain rfl : c = c₀ := Except.ok.inj (hc.symm.trans hc₀)
  obtain ⟨hnext, added, hqueue⟩ := hfins hstate
  have haddr : c.addr = conn := (deref_eq_ok hc).2
  have hstate' : d.state = .established := (congrArg TcpConnection.state hcore).trans hstate
  have hcount : timerFins s c.addr = (more.filter fun seg => seg.owner = conn).length := by
    rw [timerFins, htimers, haddr]
    exact congrArg List.length (sentSince_of_append hmore)
  have hfront : frontAfterTimers s c.addr = d.frontLength := by
    rw [frontAfterTimers, htimers, haddr]
    change (t.deref conn).toOption.elim 0 _ = _
    rw [hd]
    rfl
  have hlast : d.lastAck = c.lastAck := (congrArg TcpConnection.lastAck hcore :)
  have hdup : d.dupAckCount = c.dupAckCount := (congrArg TcpConnection.dupAckCount hcore :)
  rw [reestablish_of_established hstate'] at h
  obtain ⟨hgrown, hnext'⟩ := fastRetransmit_numbers h
  obtain ⟨more', hmore'⟩ := hgrown.sent
  obtain ⟨added', hadded'⟩ := hgrown.queue
  refine ⟨⟨⟨more ++ more', ?_⟩, ?_, ?_, added' ++ added, ?_⟩, ?_⟩
  · rw [hmore', hmore, List.append_assoc]
  · exact hgrown.addr.trans (congrArg TcpConnection.addr hcore :)
  · exact hgrown.queueWild.trans (congrArg TcpConnection.queueWild hcore :)
  · rw [hadded', hqueue, List.append_assoc]
  · rw [hnext', hnext, repeatedNumbers, hcount, hfront, hlast, hdup, UInt32.add_assoc]

/-! ### The dispatcher -/

/-- The stack when everything that the call repeats for the connection has been sent: by the timer
check and fast retransmission in `TCP_ESTABLISHED`, by the handler of `TCP_WAIT_FOR_ACK`. -/
def repeatsDone (s : TcpStack) (c : TcpConnection) (tcp : TcpHeader) : Except Fault TcpStack :=
  if tcp.dataOffset >>> 4 < 5 ∨ hasFlag tcp.flags tcpRst = true then .ok s
  else
    match c.state with
    | .established => (prepareSegment s c.addr tcp).map (·.1)
    | .waitForAck => handleWaitForAckState s c.addr tcp
    | _ => .ok s

/-- `next_seq` moves by the sequence space of the new segments that are sent for the connection. -/
def MovesBySending (s : TcpStack) (c : TcpConnection) (tcp : TcpHeader) (s' : TcpStack) : Prop :=
  ∀ c', s'.deref c.addr = .ok c' → ∃ t, repeatsDone s c tcp = .ok t ∧
    c'.nextSeq = c.nextSeq + UInt32.ofNat (sequenceSpace (sentSince t s' c.addr))

/-- In `TCP_ESTABLISHED` nothing is repeated that takes a number, and the acknowledgement is not
ahead of `next_seq` (or it takes `next_seq` back to where it was before it wrapped). In
`TCP_WAIT_FOR_ACK` the segment is not the third duplicate, or the front entry takes no number. -/
def StaysPut (s : TcpStack) (c : TcpConnection) (tcp : TcpHeader) : Prop :=
  ¬ tcp.dataOffset >>> 4 < 5 → hasFlag tcp.flags tcpRst = false →
    match c.state with
    | .established =>
        (repeatedNumbers s c tcp.ack = 0 ∧ tcp.ack ≤ c.nextSeq) ∨
          (c.nextSeq + repeatedNumbers s c tcp.ack < tcp.ack ∧ tcp.ack = c.nextSeq)
    | .waitForAck =>
        ∀ e ∈ c.retransmitQueue.head?, ¬ e.expectedAck ≤ tcp.ack → ¬ c.lastAck < tcp.ack →
          3 ≤ c.dupAckCount + 1 → needsQueue e.flags e.length = false
    | _ => True

/-- What is repeated for a segment that comes to the handler of the state. -/
theorem repeatsDone_of_handled {tcp : TcpHeader} (hoff : ¬ tcp.dataOffset >>> 4 < 5)
    (hrst : hasFlag tcp.flags tcpRst = false) (s : TcpStack) (c : TcpConnection) :
    repeatsDone s c tcp = match c.state with
      | .established => (prepareSegment s c.addr tcp).map (·.1)
      | .waitForAck => handleWaitForAckState s c.addr tcp
      | _ => .ok s := by
  refine if_neg fun hor => hor.elim hoff fun htrue => ?_
  exact Bool.false_ne_true (hrst.symm.trans htrue)

/-- Of a block that is still read, only where `next_seq` stood before the new segments counts. -/
theorem movesBySending_iff_eq {tcp : TcpHeader} {n : UInt32}
    (hrepeats : repeatsDone s c tcp = .ok t) (hread : s'.deref c.addr = .ok d)
    (hmoved : d.nextSeq = n + UInt32.ofNat (sequenceSpace (sentSince t s' c.addr))) :
    MovesBySending s c tcp s' ↔ n = c.nextSeq := by
  constructor
  · intro hmoves
    obtain ⟨t', ht', hd⟩ := hmoves d hread
    obtain rfl := Except.ok.inj (hrepeats.symm.trans ht')
    exact UInt32.add_left_inj _ |>.mp (hmoved.symm.trans hd)
  · intro hsame c' hc'
    obtain rfl := Except.ok.inj (hread.symm.trans hc')
    exact ⟨t, hrepeats, by rw [hmoved, hsame]⟩

/-- A state in which only new segments are sent. -/
theorem SendsOnly.movesBySending {tcp : TcpHeader} (h : SendsOnly s c t d)
    (hc : s.deref c.addr = .ok c) (hrepeats : repeatsDone s c tcp = .ok s) :
    MovesBySending s c tcp (t.setConn d) := by
  obtain ⟨hread, hnext⟩ := h.written hc
  exact (movesBySending_iff_eq hrepeats hread hnext).mpr rfl

/-- The stack is as before, or only the log has grown, for others. -/
theorem movesBySending_of_same {tcp : TcpHeader} (hc : s.deref c.addr = .ok c)
    (hsame : s'.deref c.addr = s.deref c.addr) (hsent : sentSince s s' c.addr = [])
    (hrepeats : repeatsDone s c tcp = .ok s) : MovesBySending s c tcp s' := by
  refine (movesBySending_iff_eq hrepeats (hsame.trans hc) ?_).mpr rfl
  rw [hsent]
  exact (UInt32.add_zero _).symm

/-- A connection that is removed has no `next_seq` any more. -/
theorem movesBySending_of_removed {tcp : TcpHeader} (h : removeConnection t c.addr = .ok s') :
    MovesBySending s c tcp s' := by
  intro c' hc'
  obtain ⟨d, hd, hfree⟩ := bind_eq_ok.mp h
  exact absurd (deref_eq_ok hd).2.symm (deref_freeConnection hfree hc').1

/-- `next_seq` in `TCP_ESTABLISHED`: what is new moves it as it should, so it counts where it stood
before that. -/
theorem movesBySending_established {tcp : TcpHeader} {bytes : ℕ → UInt8} {len : UInt16}
    (hc : s.deref c.addr = .ok c) (hstate : c.state = .established)
    (hoff : ¬ tcp.dataOffset >>> 4 < 5) (hrst : hasFlag tcp.flags tcpRst = false)
    (h : handleEstablishedState s c.addr tcp bytes len = .ok s') :
    MovesBySending s c tcp s' ↔ StaysPut s c tcp := by
  obtain ⟨x, y, z, hprepare, hack, hfinish, rfl⟩ := exists_of_handleEstablishedState h
  obtain ⟨hgrown, hnext⟩ := prepareSegment_established hc hstate hprepare
  obtain ⟨e, he⟩ := deref_prepareSegment hprepare
  obtain ⟨-, rfl⟩ := processAck_eq_ok.mp hack
  have haddr : (x.2.afterAck tcp.seq tcp.ack (len - tcp.headerLen)).addr = c.addr := hgrown.addr
  obtain ⟨hread, hmoved⟩ := (sendsOnly_finishSegment hfinish).written (haddr.symm ▸ he)
  rw [haddr] at hread hmoved
  have hrepeats : repeatsDone s c tcp = .ok x.1 := by
    rw [repeatsDone_of_handled hoff hrst, hstate, hprepare]
    rfl
  rw [movesBySending_iff_eq hrepeats hread hmoved, TcpConnection.afterAck, hnext, StaysPut, hstate]
  simp only [hoff, hrst, not_false_eq_true, true_imp_iff]
  generalize repeatedNumbers s c tcp.ack = n
  have hstay : c.nextSeq + n = c.nextSeq ↔ n = 0 := by
    rw [UInt32.add_eq_left]
  split_ifs with hlt
  · constructor
    · exact fun hack => Or.inr ⟨hlt, hack⟩
    · rintro (⟨rfl, hle⟩ | ⟨-, hack⟩)
      · rw [UInt32.add_zero] at hlt
        exact absurd (UInt32.lt_of_lt_of_le hlt hle) (UInt32.lt_irrefl _)
      · exact hack
  · rw [hstay]
    constructor
    · rintro rfl
      rw [UInt32.add_zero] at hlt
      exact Or.inl ⟨rfl, UInt32.not_lt.mp hlt⟩
    · rintro (⟨hzero, -⟩ | ⟨hlt', -⟩)
      · exact hzero
      · exact absurd hlt' hlt

/-- What takes no queue entry takes no number. -/
theorem sequenceLen_eq_zero_iff {flags : UInt8} {dataLen : UInt16} :
    sequenceLen flags dataLen = 0 ↔ needsQueue flags dataLen = false := by
  constructor
  · intro hzero
    exact Bool.eq_false_iff.mpr fun hneed => sequenceLen_ne_zero hneed hzero
  · intro hnone
    rw [needsQueue, Bool.or_eq_false_iff, decide_eq_false_iff_not, UInt16.not_lt] at hnone
    obtain ⟨hflags, hlen⟩ := hnone
    rw [UInt16.le_zero_iff] at hlen
    rw [sequenceLen, hflags, hlen]
    rfl

/-- `next_seq` in `TCP_WAIT_FOR_ACK`: whatever is sent there is a repetition. -/
theorem movesBySending_waitForAck {tcp : TcpHeader} (hc : s.deref c.addr = .ok c)
    (hstate : c.state = .waitForAck) (hoff : ¬ tcp.dataOffset >>> 4 < 5)
    (hrst : hasFlag tcp.flags tcpRst = false)
    (h : handleWaitForAckState s c.addr tcp = .ok s') :
    MovesBySending s c tcp s' ↔ StaysPut s c tcp := by
  have hrepeats : repeatsDone s c tcp = .ok s' := by
    rw [repeatsDone_of_handled hoff hrst, hstate, ← h]
  have hproperty {d : TcpConnection} (hread : s'.deref c.addr = .ok d) :
      MovesBySending s c tcp s' ↔ d.nextSeq = c.nextSeq := by
    refine movesBySending_iff_eq hrepeats hread ?_
    rw [sentSince_self rfl]
    exact (UInt32.add_zero _).symm
  rw [StaysPut, hstate]
  simp only [hoff, hrst, not_false_eq_true, true_imp_iff]
  cases hq : c.retransmitQueue with
  | nil =>
      obtain rfl := eq_of_handleWaitForAckState_nil hc hq h
      exact iff_of_true ((hproperty hc).mpr rfl) nofun
  | cons e es =>
      have hfront {p : RetransmitEntry → Prop} : (∀ f ∈ (e :: es).head?, p f) ↔ p e := by simp
      rw [hfront]
      obtain ⟨hfull, rfl, hrem⟩ | ⟨hfull, rfl⟩ | ⟨-, hpart, rfl⟩ |
        ⟨hfull, hpart, hthree, x, hx, rfl⟩ | ⟨-, -, hthree, rfl⟩ :=
          handleWaitForAckState_eq_ok hc hq h
      · exact iff_of_true (movesBySending_of_removed hrem) fun hnot => absurd hfull hnot
      · exact iff_of_true ((hproperty (deref_setConn hc rfl)).mpr rfl) fun hnot => absurd hfull hnot
      · exact iff_of_true ((hproperty (deref_setConn hc rfl)).mpr rfl)
          fun _ hnot => absurd hpart hnot
      · have hread : (x.1.setConn { x.2 with dupAckCount := 0 }).deref c.addr =
            .ok { x.2 with dupAckCount := 0 } :=
          deref_setConn (by rw [hx, deref_tcpSendSegment, hc]) (by rw [hx, addr_tcpSendSegment])
        have hnext : x.2.nextSeq = c.nextSeq + sequenceLen e.flags e.length := by
          rw [hx, nextSeq_tcpSendSegment]
        rw [hproperty hread, hnext, UInt32.add_eq_left, sequenceLen_eq_zero_iff]
        exact ⟨fun hnone _ _ _ => hnone, fun hall => hall hfull hpart hthree⟩
      · exact iff_of_true ((hproperty (deref_setConn hc rfl)).mpr rfl)
          fun _ _ hnot => absurd hnot hthree

/-- In the other states nothing is repeated. -/
theorem repeatsDone_of_ne (hne : c.state ≠ .established) (hne' : c.state ≠ .waitForAck)
    (s : TcpStack) (tcp : TcpHeader) : repeatsDone s c tcp = .ok s ∧ StaysPut s c tcp := by
  rw [repeatsDone, StaysPut]
  cases hstate : c.state with
  | established => exact absurd hstate hne
  | waitForAck => exact absurd hstate hne'
  | _ => exact ⟨ite_self _, fun _ _ => trivial⟩

/-- What the handlers of the other states do. -/
theorem movesBySending_of_ne {tcp : TcpHeader} {bytes : ℕ → UInt8} {len : UInt16}
    (hc : s.deref c.addr = .ok c) (hne : c.state ≠ .established) (hne' : c.state ≠ .waitForAck)
    (h : handleInState s c tcp bytes len = .ok s') : MovesBySending s c tcp s' := by
  have hrepeats := (repeatsDone_of_ne hne hne' s tcp).1
  have hself : MovesBySending s c tcp s :=
    movesBySending_of_same hc rfl (sentSince_self rfl) hrepeats
  rw [handleInState] at h
  cases hstate : c.state with
  | established => exact absurd hstate hne
  | waitForAck => exact absurd hstate hne'
  | synSent =>
      rw [hstate] at h
      obtain rfl := Except.ok.inj h
      obtain ⟨-, heq⟩ | ⟨-, -, x, hx, heq⟩ := handleSynSent_cases s c tcp
      · rw [heq]
        exact hself
      · have hassign : SendsOnly s c s
            { c with expectedAck := tcp.seq + 1, state := .established } :=
          SendsOnly.refl.assign rfl rfl rfl rfl
        rw [heq]
        exact (hassign.send hx rfl (Nat.zero_le _)).movesBySending hc hrepeats
  | synReceived =>
      rw [hstate] at h
      obtain rfl := Except.ok.inj h
      have hassign : SendsOnly s c s { c with state := .established } :=
        SendsOnly.refl.assign rfl rfl rfl rfl
      rw [handleSynReceived]
      split_ifs
      · exact hassign.movesBySending hc hrepeats
      · exact hself
  | lastAck =>
      rw [hstate] at h
      obtain ⟨d, -, hlast⟩ := bind_eq_ok.mp h
      split_ifs at hlast
      · exact movesBySending_of_removed hlast
      · obtain rfl := Except.ok.inj hlast
        exact hself
  | _ =>
      rw [hstate] at h
      obtain rfl := Except.ok.inj h
      exact hself

/-- **The peer and `next_seq`.** An incoming segment moves the `next_seq` of an existing connection
by the new segments it makes the stack send, and by nothing else, if and only if it finds the
connection so that it stays put. -/
theorem movesBySending_iff (haddr : Addressed s) {srcIp dstIp : UInt32} {bytes : ℕ → UInt8}
    {len : UInt16}
    (hfind : findConnection s srcIp (TcpHeader.parse bytes).srcPort dstIp
      (TcpHeader.parse bytes).destPort = some c)
    (h : tcpHandlePacket s srcIp dstIp bytes len = .ok s') :
    MovesBySending s c (TcpHeader.parse bytes) s' ↔ StaysPut s c (TcpHeader.parse bytes) := by
  have hmem := mem_of_findConnection hfind
  have hc := haddr.deref_of_mem hmem
  rw [tcpHandlePacket, handleSegment] at h
  generalize TcpHeader.parse bytes = tcp at hfind h ⊢
  by_cases hoff : tcp.dataOffset >>> 4 < 5
  · rw [if_pos hoff] at h
    obtain rfl := Except.ok.inj h
    refine iff_of_true (movesBySending_of_same hc rfl ?_ ?_) fun hnot => absurd hoff hnot
    · rw [tcpSendReset, sentSince_of_append (sent_tcpSendSegment _ _ _ _ _)]
      refine List.filter_eq_nil_iff.mpr fun seg hseg hown => ?_
      rw [List.mem_singleton.mp hseg, decide_eq_true_iff] at hown
      exact absurd hown.symm (Nat.ne_of_gt (haddr.bound c hmem).1)
    · rw [repeatsDone, if_pos (Or.inl hoff)]
  · rw [if_neg hoff, hfind] at h
    cases hrst : hasFlag tcp.flags tcpRst with
    | true =>
        simp only [hrst, if_true] at h
        exact iff_of_true (movesBySending_of_removed h) fun _ hno => by
          rw [hrst] at hno
          cases hno
    | false =>
        simp only [hrst, Bool.false_eq_true, if_false] at h
        by_cases hne : c.state = .established
        · rw [handleInState, hne] at h
          exact movesBySending_established hc hne hoff hrst h
        by_cases hne' : c.state = .waitForAck
        · rw [handleInState, hne'] at h
          exact movesBySending_waitForAck hc hne' hoff hrst h
        exact iff_of_true (movesBySending_of_ne hc hne hne' h) (repeatsDone_of_ne hne hne' s tcp).2

/-- From boot on, with a page of one byte, a run comes to `s`, where a segment of the peer is
handled for the connection `c`. -/
structure Handled (seg : TcpSegment) (s : TcpStack) (c : TcpConnection) (s' : TcpStack) :
    Prop where
  run : Steps TcpEvent.next (fun _ _ => True) (.boot 0 0x0A00020F (some [0x41]) []) s
  found : findConnection s seg.srcIp (TcpHeader.parse seg.bytes).srcPort seg.dstIp
    (TcpHeader.parse seg.bytes).destPort = some c
  handled : tcpHandlePacket s seg.srcIp seg.dstIp seg.bytes seg.len = .ok s'

theorem Handled.addressed {seg : TcpSegment} (h : Handled seg s c s') : Addressed s :=
  h.run.invariant (addressed_boot ..) fun _ _ _ h _ hs => h.next hs

/-- A test of a run and of what is done about the segment. -/
theorem exists_handled (events : List TcpEvent) (seg : TcpSegment)
    (p : TcpStack → TcpConnection → TcpStack → Bool)
    (h : ((events.foldlM TcpEvent.next
      (.boot 0 0x0A00020F (some [0x41]) [])).toOption.any fun s =>
      (findConnection s seg.srcIp (TcpHeader.parse seg.bytes).srcPort seg.dstIp
        (TcpHeader.parse seg.bytes).destPort).any fun c =>
          (tcpHandlePacket s seg.srcIp seg.dstIp seg.bytes seg.len).toOption.any (p s c)) = true) :
    ∃ s c s', Handled seg s c s' ∧ p s c s' = true := by
  obtain ⟨s, hrun, htest⟩ := exists_eq_ok_of_any h
  obtain ⟨c, hfound, htest⟩ := (Option.any_eq_true _ _).mp htest
  obtain ⟨s', hhandled, hp⟩ := exists_eq_ok_of_any htest
  exact ⟨s, c, s', ⟨.of_foldlM hrun, hfound, hhandled⟩, hp⟩

/-- A request moves `next_seq` by the answer. -/
theorem movesBySending_iff_request : ∃ s c s',
    Handled (peerSegment 1 1 tcpAck (asciiBytes "GET /")) s c s' ∧ MovesBySending s c
      (TcpHeader.parse (peerSegment 1 1 tcpAck (asciiBytes "GET /")).bytes) s' := by
  obtain ⟨s, c, s', h, hp⟩ := exists_handled peerOpens
    (peerSegment 1 1 tcpAck (asciiBytes "GET /"))
    (fun s c _ => decide (c.state = .established ∧ repeatedNumbers s c
      (TcpHeader.parse (peerSegment 1 1 tcpAck (asciiBytes "GET /")).bytes).ack = 0 ∧
      (TcpHeader.parse (peerSegment 1 1 tcpAck (asciiBytes "GET /")).bytes).ack ≤ c.nextSeq))
    (by decide +kernel)
  obtain ⟨hstate, hnone, hle⟩ := of_decide_eq_true hp
  refine ⟨s, c, s', h, (movesBySending_iff h.addressed h.found h.handled).mpr fun _ _ => ?_⟩
  rw [hstate]
  exact Or.inl ⟨hnone, hle⟩

/-- An acknowledgement of what was never sent moves `next_seq`, and nothing is sent that takes a
number. -/
theorem not_movesBySending_ahead : ¬ ∀ seg s c s', Handled seg s c s' →
    MovesBySending s c (TcpHeader.parse seg.bytes) s' := by
  intro hall
  obtain ⟨s, c, s', h, hp⟩ := exists_handled peerOpens (peerSegment 1 1000 tcpAck [])
    (fun s c s' => (s'.deref c.addr).toOption.any fun c' =>
      (repeatsDone s c (TcpHeader.parse (peerSegment 1 1000 tcpAck []).bytes)).toOption.any fun t =>
        decide (c'.nextSeq ≠ c.nextSeq + UInt32.ofNat (sequenceSpace (sentSince t s' c.addr))))
    (by decide +kernel)
  obtain ⟨c', hc', hp⟩ := exists_eq_ok_of_any hp
  obtain ⟨t, ht, hmoved⟩ := exists_eq_ok_of_any hp
  obtain ⟨t', ht', hsame⟩ := hall _ s c s' h c' hc'
  obtain rfl := Except.ok.inj (ht.symm.trans ht')
  exact of_decide_eq_true hmoved hsame

end HalOS
