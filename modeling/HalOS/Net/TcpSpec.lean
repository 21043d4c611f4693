import HalOS.Lib.Outcome
import HalOS.Net.Tcp

/-!
# What the Parts of the TCP Stack Do

`tcp_send_segment` does three things: it logs the segment, it advances `next_seq` by the
sequence space the segment takes, and it may put an entry in front of the queue. Everything
the handlers do to a control block is made of this and of plain assignments.

## Main results

* `tcpSendSegment_eq`: sending in closed form.
* `deref_eq_ok`, `mem_setConn`: reading and writing control blocks.
-/

namespace HalOS

open Outcome (bind_eq_ok)

/-! ### Sending -/

/-- The sequence space a segment takes. -/
def sequenceLen (flags : UInt8) (dataLen : UInt16) : UInt32 :=
  dataLen.toUInt32 + if hasFlag flags (tcpSyn ||| tcpFin) then 1 else 0

/-- `tcp_send_segment` tries to queue such a segment. -/
def needsQueue (flags : UInt8) (dataLen : UInt16) : Bool :=
  hasFlag flags (tcpSyn ||| tcpFin) || decide (0 < dataLen)

/-- Whether the segment is queued, and the outcomes of `malloc` left over. -/
def queueOutcome (mallocs : List Bool) (flags : UInt8) (dataLen : UInt16) : Bool × List Bool :=
  if needsQueue flags dataLen then
    if mallocs.headD true then
      if dataLen = 0 then (true, mallocs.tail)
      else (mallocs.tail.headD true, mallocs.tail.tail)
    else (false, mallocs.tail)
  else (false, mallocs)

/-- The control block after a segment was sent for it. -/
def TcpConnection.afterSend (c : TcpConnection) (flags : UInt8) (data : List UInt8)
    (dataLen : UInt16) (queued : Bool) : TcpConnection :=
  { c with
    nextSeq := c.nextSeq + sequenceLen flags dataLen
    retransmitQueue :=
      if queued then
        { seq := c.nextSeq, length := dataLen, data := data.take dataLen.toNat, flags := flags,
          retries := 0 } :: c.retransmitQueue
      else c.retransmitQueue }

theorem queueOutcome_needsQueue {mallocs : List Bool} {flags : UInt8} {dataLen : UInt16}
    (h : (queueOutcome mallocs flags dataLen).1 = true) : needsQueue flags dataLen = true := by
  rw [queueOutcome] at h
  split_ifs at h with hneed
  · exact hneed
  · exact hneed

/-- While memory lasts every segment that needs it is queued. -/
theorem queueOutcome_nil (flags : UInt8) (dataLen : UInt16) :
    queueOutcome [] flags dataLen = (needsQueue flags dataLen, []) := by
  rw [queueOutcome]
  cases needsQueue flags dataLen with
  | false => rfl
  | true =>
      by_cases h : dataLen = 0
      · simp [h]
      · simp [h]

/-- The end of `tcp_send_segment`, once it wants an entry. -/
theorem queueSegment_eq {flags : UInt8} {dataLen : UInt16} (h : needsQueue flags dataLen = true)
    (s : TcpStack) (c : TcpConnection) (seq : UInt32) (data : List UInt8) :
    queueSegment s c seq flags data dataLen =
      ({ s with mallocs := (queueOutcome s.mallocs flags dataLen).2 },
        { c with
          retransmitQueue :=
            if (queueOutcome s.mallocs flags dataLen).1 then
              { seq := seq, length := dataLen, data := data, flags := flags, retries := 0 } ::
                c.retransmitQueue
            else c.retransmitQueue }) := by
  rw [queueSegment, queueOutcome, if_pos h, TcpStack.malloc]
  cases s.mallocs.headD true with
  | false => rfl
  | true =>
      by_cases hlen : dataLen = 0
      · simp [hlen]
      · simp only [hlen, TcpStack.malloc]
        cases s.mallocs.tail.headD true <;> rfl

/-- **Sending.** -/
theorem tcpSendSegment_eq (s : TcpStack) (c : TcpConnection) (flags : UInt8) (data : List UInt8)
    (dataLen : UInt16) :
    tcpSendSegment s c flags data dataLen =
      ({ s with
          sent := s.sent ++ [buildSegment c flags (data.take dataLen.toNat)]
          mallocs := (queueOutcome s.mallocs flags dataLen).2 },
        c.afterSend flags data dataLen (queueOutcome s.mallocs flags dataLen).1) := by
  have hnext : (if hasFlag flags (tcpSyn ||| tcpFin) = true then
      { c with nextSeq := c.nextSeq + dataLen.toUInt32 + 1 }
      else { c with nextSeq := c.nextSeq + dataLen.toUInt32 } : TcpConnection) =
      { c with nextSeq := c.nextSeq + sequenceLen flags dataLen } := by
    rw [sequenceLen]
    split_ifs
    · rw [UInt32.add_assoc]
    · rw [UInt32.add_zero]
  rw [tcpSendSegment]
  simp only [hnext]
  by_cases hneed : needsQueue flags dataLen = true
  · have hplain : ¬ (flags = tcpAck ∧ dataLen = 0) := by
      rintro ⟨rfl, rfl⟩
      exact absurd hneed (by decide)
    have hwant : hasFlag flags (tcpSyn ||| tcpFin) = true ∨ 0 < dataLen := by
      simpa [needsQueue] using hneed
    rw [if_neg hplain, if_pos hwant, queueSegment_eq hneed]
    rfl
  · have hnot : ¬ (hasFlag flags (tcpSyn ||| tcpFin) = true ∨ 0 < dataLen) := by
      simpa [needsQueue] using hneed
    rw [if_neg hnot, ite_self, queueOutcome, if_neg hneed]
    rfl

section SendFields

variable (s : TcpStack) (c : TcpConnection) (flags : UInt8) (data : List UInt8) (dataLen : UInt16)

@[simp] theorem sent_tcpSendSegment : (tcpSendSegment s c flags data dataLen).1.sent =
    s.sent ++ [buildSegment c flags (data.take dataLen.toNat)] := by
  rw [tcpSendSegment_eq]

@[simp] theorem connectionList_tcpSendSegment :
    (tcpSendSegment s c flags data dataLen).1.connectionList = s.connectionList := by
  rw [tcpSendSegment_eq]

@[simp] theorem deref_tcpSendSegment (addr : ℕ) :
    (tcpSendSegment s c flags data dataLen).1.deref addr = s.deref addr := by
  rw [tcpSendSegment_eq]
  rfl

@[simp] theorem activeTimers_tcpSendSegment :
    (tcpSendSegment s c flags data dataLen).1.activeTimers = s.activeTimers := by
  rw [tcpSendSegment_eq]

@[simp] theorem nextSeq_tcpSendSegment : (tcpSendSegment s c flags data dataLen).2.nextSeq =
    c.nextSeq + sequenceLen flags dataLen := by
  rw [tcpSendSegment_eq]
  rfl

@[simp] theorem addr_tcpSendSegment : (tcpSendSegment s c flags data dataLen).2.addr = c.addr := by
  rw [tcpSendSegment_eq]
  rfl

@[simp] theorem state_tcpSendSegment :
    (tcpSendSegment s c flags data dataLen).2.state = c.state := by
  rw [tcpSendSegment_eq]
  rfl

theorem length_le_tcpSendSegment : c.retransmitQueue.length ≤
    (tcpSendSegment s c flags data dataLen).2.retransmitQueue.length := by
  rw [tcpSendSegment_eq, TcpConnection.afterSend]
  cases (queueOutcome s.mallocs flags dataLen).1 with
  | false => exact Nat.le_refl _
  | true => exact Nat.le_succ _

@[simp] theorem expectedAck_tcpSendSegment :
    (tcpSendSegment s c flags data dataLen).2.expectedAck = c.expectedAck := by
  rw [tcpSendSegment_eq]
  rfl

@[simp] theorem recvBuffer_tcpSendSegment :
    (tcpSendSegment s c flags data dataLen).2.recvBuffer = c.recvBuffer := by
  rw [tcpSendSegment_eq]
  rfl

end SendFields

/-! ### Control blocks -/

/-- What `find_connection` looks for. -/
def TcpConnection.key (c : TcpConnection) : UInt32 × UInt16 × UInt32 × UInt16 :=
  (c.remoteIp, c.remotePort, c.localIp, c.localPort)

theorem findConnection_eq (s : TcpStack) (remoteIp : UInt32) (remotePort : UInt16)
    (localIp : UInt32) (localPort : UInt16) :
    findConnection s remoteIp remotePort localIp localPort =
      s.connectionList.find? fun c => c.key == (remoteIp, remotePort, localIp, localPort) := by
  rw [findConnection]
  refine congrArg (List.find? · s.connectionList) (funext fun c => ?_)
  rw [Bool.eq_iff_iff]
  simp [TcpConnection.key, and_assoc]

/-- A connection that is found for a key is on the list. -/
theorem mem_of_findConnection {s : TcpStack} {c : TcpConnection} {remoteIp localIp : UInt32}
    {remotePort localPort : UInt16}
    (h : findConnection s remoteIp remotePort localIp localPort = some c) :
    c ∈ s.connectionList :=
  List.mem_of_find?_eq_some h

/-- A control block that is read is on the list, at its address. -/
theorem deref_eq_ok {s : TcpStack} {addr : ℕ} {c : TcpConnection} (h : s.deref addr = .ok c) :
    c ∈ s.connectionList ∧ c.addr = addr := by
  rw [TcpStack.deref] at h
  cases hf : s.connectionList.find? fun c => c.addr == addr with
  | none =>
      rw [hf] at h
      cases h
  | some d =>
      rw [hf] at h
      cases h
      exact ⟨List.mem_of_find?_eq_some hf, by simpa using List.find?_some hf⟩

/-- A control block that was written is read back. -/
theorem deref_setConn {s : TcpStack} {addr : ℕ} {c d : TcpConnection} (h : s.deref addr = .ok c)
    (hd : d.addr = addr) : (s.setConn d).deref addr = .ok d := by
  rw [TcpStack.deref] at h ⊢
  have hfind : (s.setConn d).connectionList.find? (fun c => c.addr == addr) =
      (s.connectionList.find? fun c => c.addr == addr).map
        fun e => if e.addr = d.addr then d else e := by
    rw [TcpStack.setConn, List.find?_map]
    refine congrArg (Option.map _) (congrArg (List.find? · s.connectionList) (funext fun e => ?_))
    rw [Function.comp_apply]
    split_ifs with he
    · rw [hd, he, hd]
    · rfl
  rw [hfind]
  cases hf : s.connectionList.find? fun c => c.addr == addr with
  | none =>
      rw [hf] at h
      cases h
  | some e =>
      have he : e.addr = d.addr := by
        rw [hd]
        simpa using List.find?_some hf
      rw [Option.map_some, if_pos he]
      rfl

/-- Writing a control block leaves the others. -/
theorem deref_setConn_of_ne {s : TcpStack} {addr : ℕ} {c : TcpConnection} (h : c.addr ≠ addr) :
    (s.setConn c).deref addr = s.deref addr := by
  rw [TcpStack.deref, TcpStack.deref, TcpStack.setConn, List.find?_map]
  have hpred : ((fun d : TcpConnection => d.addr == addr) ∘
      fun d => if d.addr = c.addr then c else d) = fun d => d.addr == addr := by
    funext d
    rw [Function.comp_apply]
    split_ifs with hd
    · rw [hd]
    · rfl
  rw [hpred]
  cases hf : s.connectionList.find? fun d => d.addr == addr with
  | none => rfl
  | some d =>
      have hd : d.addr = addr := by simpa using List.find?_some hf
      rw [Option.map_some, if_neg fun heq => h (heq.symm.trans hd)]

theorem mem_setConn {s : TcpStack} {c d : TcpConnection}
    (h : d ∈ (s.setConn c).connectionList) : d = c ∨ d ∈ s.connectionList := by
  obtain ⟨e, he, heq⟩ := List.mem_map.mp h
  split_ifs at heq
  · exact Or.inl heq.symm
  · exact Or.inr (heq ▸ he)

/-! ### What a call that succeeds has done

One lemma for each function with several outcomes. -/

variable {s s' : TcpStack} {c c' : TcpConnection}

/-- The oldest entry was repeated, with one retry more, or a SYN or a FIN was sent. -/
theorem retransmitOnTimer_eq_some {timer timer' : TcpTimer}
    (h : retransmitOnTimer s timer c = .ok (some (s', timer'))) :
    (∃ e es, c.state = .waitForAck ∧ c.retransmitQueue = e :: es ∧ e.retries < maxSynRetries ∧
      ∃ x, x = tcpSendSegment s
          { c with retransmitQueue := { e with retries := e.retries + 1 } :: es } tcpAck e.data
          e.length ∧
        s' = x.1.setConn x.2 ∧ timer' = { timer with startTime := s.ticks }) ∨
    (c.state ≠ .waitForAck ∧ timer.retries < maxSynRetries ∧
      ∃ x, x = tcpSendSegment s c (if c.state = .synSent then tcpSyn else tcpFin) [] 0 ∧
        s' = x.1.setConn x.2 ∧
        timer' = { timer with retries := timer.retries + 1, startTime := s.ticks }) := by
  rw [retransmitOnTimer] at h
  by_cases hstate : c.state = .waitForAck
  · rw [if_pos hstate] at h
    cases hq : c.retransmitQueue with
    | nil =>
        rw [hq] at h
        simp only at h
        split_ifs at h
        cases h
    | cons e es =>
        rw [hq] at h
        simp only at h
        by_cases hleft : e.retries < maxSynRetries
        · rw [if_pos hleft] at h
          simp only [Except.ok.injEq, Option.some.injEq, Prod.mk.injEq] at h
          obtain ⟨rfl, rfl⟩ := h
          exact Or.inl ⟨e, es, hstate, rfl, hleft, _, rfl, rfl, by rw [tcpSendSegment_eq]⟩
        · rw [if_neg hleft] at h
          cases h
  · rw [if_neg hstate] at h
    by_cases hleft : timer.retries < maxSynRetries
    · rw [if_pos hleft] at h
      simp only [Except.ok.injEq, Option.some.injEq, Prod.mk.injEq] at h
      obtain ⟨rfl, rfl⟩ := h
      exact Or.inr ⟨hstate, hleft, _, rfl, rfl, by rw [tcpSendSegment_eq]⟩
    · rw [if_neg hleft] at h
      cases h

/-- A connection is given up when the retries of its front entry, or of the timer, are used up. -/
theorem retransmitOnTimer_eq_none {timer : TcpTimer}
    (h : retransmitOnTimer s timer c = .ok none) :
    (c.state = .waitForAck ∧ ∀ e ∈ c.retransmitQueue.head?, ¬ e.retries < maxSynRetries) ∨
    (c.state ≠ .waitForAck ∧ ¬ timer.retries < maxSynRetries) := by
  rw [retransmitOnTimer] at h
  by_cases hstate : c.state = .waitForAck
  · rw [if_pos hstate] at h
    refine Or.inl ⟨hstate, fun e he hleft => ?_⟩
    cases hq : c.retransmitQueue with
    | nil =>
        rw [hq] at he
        cases he
    | cons d es =>
        rw [hq] at h he
        obtain rfl := Option.some.inj he
        simp only [if_pos hleft] at h
        cases h
  · rw [if_neg hstate] at h
    refine Or.inr ⟨hstate, fun hleft => ?_⟩
    rw [if_pos hleft] at h
    cases h

/-- A third duplicate repeats the entry at the front; any other leaves the stack alone. -/
theorem fastRetransmit_eq_ok {ack : UInt32} (h : fastRetransmit s c ack = .ok (s', c')) :
    (ack ≠ c.lastAck ∧ s' = s ∧ c' = c) ∨
    (ack = c.lastAck ∧ (c.dupAckCount + 1 = 3 → c.retransmitQueue = []) ∧ s' = s ∧
      c' = { c with dupAckCount := c.dupAckCount + 1 }) ∨
    (ack = c.lastAck ∧ c.dupAckCount + 1 = 3 ∧ ∃ e es, c.retransmitQueue = e :: es ∧
      (s', c') =
        tcpSendSegment s { c with dupAckCount := c.dupAckCount + 1 } tcpAck e.data e.length) := by
  rw [fastRetransmit] at h
  by_cases hdup : ack = c.lastAck
  · rw [if_pos hdup] at h
    by_cases hthree : c.dupAckCount + 1 = 3
    · simp only [if_pos hthree, repeatFront] at h
      cases hq : c.retransmitQueue with
      | nil =>
          rw [hq] at h
          simp only at h
          split_ifs at h
          cases h
          exact Or.inr (Or.inl ⟨hdup, fun _ => rfl, rfl, by rw [← hq]⟩)
      | cons e es =>
          rw [hq] at h
          simp only [Except.ok.injEq] at h
          exact Or.inr (Or.inr ⟨hdup, hthree, e, es, rfl, by rw [← h, ← hq]⟩)
    · simp only [if_neg hthree] at h
      cases h
      exact Or.inr (Or.inl ⟨hdup, fun heq => absurd heq hthree, rfl, rfl⟩)
  · rw [if_neg hdup] at h
    cases h
    exact Or.inl ⟨hdup, rfl, rfl⟩

/-- The page is not there, or there is no memory for it, or two segments go out. -/
theorem handleHttpRequest_cases (s : TcpStack) (c : TcpConnection) :
    (s.indexHtml = none ∧ ∃ x, x = tcpSendSegment s c (tcpPsh ||| tcpAck) httpNotFound
        (UInt16.ofNat httpNotFound.length) ∧
      handleHttpRequest s c = (x.1, { x.2 with state := .closeWait })) ∨
    (∃ file, s.indexHtml = some file ∧ s.malloc.1 = false ∧
      handleHttpRequest s c = (s.malloc.2, { c with state := .closeWait })) ∨
    (∃ file, s.indexHtml = some file ∧ s.malloc.1 = true ∧ ∃ x y,
      x = tcpSendSegment s.malloc.2 c (tcpPsh ||| tcpAck) (httpHeaders (httpBodySize file))
        (UInt16.ofNat (httpHeaders (httpBodySize file)).length) ∧
      y = tcpSendSegment x.1 x.2 (tcpPsh ||| tcpAck) file (httpBodySize file).toUInt16 ∧
      handleHttpRequest s c = (startRetransmissionTimer y.1 y.2.addr retransmitTimeout,
        { y.2 with state := .waitForAck })) := by
  rw [handleHttpRequest]
  cases s.indexHtml with
  | none => exact Or.inl ⟨rfl, _, rfl, rfl⟩
  | some file =>
      cases hmalloc : s.malloc with
      | mk ok t =>
          cases ok with
          | false => exact Or.inr (Or.inl ⟨file, rfl, rfl, rfl⟩)
          | true =>
              simp only
              generalize hx : tcpSendSegment t c (tcpPsh ||| tcpAck)
                (httpHeaders (httpBodySize file))
                (UInt16.ofNat (httpHeaders (httpBodySize file)).length) = x
              obtain ⟨s₁, c₁⟩ := x
              simp only
              generalize hy : tcpSendSegment s₁ c₁ (tcpPsh ||| tcpAck) file
                (httpBodySize file).toUInt16 = y
              exact Or.inr (Or.inr ⟨file, rfl, trivial, (s₁, c₁), y, hx.symm, hy.symm, rfl⟩)

/-- A SYN-ACK with the right number is acknowledged; anything else is ignored. -/
theorem handleSynSent_cases (s : TcpStack) (c : TcpConnection) (tcp : TcpHeader) :
    (¬ (tcp.flags &&& (tcpSyn ||| tcpAck) = tcpSyn ||| tcpAck ∧ tcp.ack = c.nextSeq) ∧
      handleSynSent s c tcp = s) ∨
    (tcp.flags &&& (tcpSyn ||| tcpAck) = tcpSyn ||| tcpAck ∧ tcp.ack = c.nextSeq ∧ ∃ x,
      x = tcpSendSegment s { c with expectedAck := tcp.seq + 1, state := .established } tcpAck
        [] 0 ∧
      handleSynSent s c tcp = cancelRetransmissionTimer (x.1.setConn x.2) x.2.addr) := by
  rw [handleSynSent]
  by_cases hsyn : tcp.flags &&& (tcpSyn ||| tcpAck) = tcpSyn ||| tcpAck ∧ tcp.ack = c.nextSeq
  · rw [if_pos hsyn]
    exact Or.inr ⟨hsyn.1, hsyn.2, _, rfl, rfl⟩
  · rw [if_neg hsyn]
    exact Or.inl ⟨hsyn, rfl⟩

/-- A passive open, if there is memory for the block. -/
theorem passiveOpen_cases (s : TcpStack) (srcIp dstIp : UInt32) (tcp : TcpHeader)
    (bytes : ℕ → UInt8) :
    (s.malloc.1 = false ∧ passiveOpen s srcIp dstIp tcp bytes = s.malloc.2) ∨
    (s.malloc.1 = true ∧ ∃ c t x,
      c = passiveBlock s.nextAddr srcIp dstIp tcp bytes (generateSecureInitialSeq s).1 ∧
      t = { s with
        mallocs := s.mallocs.tail
        counter := s.counter + 1
        nextAddr := s.nextAddr + 1 } ∧
      x = tcpSendSegment (addConnection t c) c (tcpSyn ||| tcpAck) [] 0 ∧
      passiveOpen s srcIp dstIp tcp bytes =
        startRetransmissionTimer (x.1.setConn x.2) x.2.addr retransmitTimeout) := by
  rw [passiveOpen]
  cases hmalloc : s.malloc with
  | mk ok t =>
      obtain rfl : t = { s with mallocs := s.mallocs.tail } := (Prod.mk.inj hmalloc).2.symm
      cases ok with
      | false => exact Or.inl ⟨rfl, rfl⟩
      | true => exact Or.inr ⟨rfl, _, _, _, rfl, rfl, rfl, rfl⟩

/-- An active open, if there is memory for the block. -/
theorem tcpConnect_cases (s : TcpStack) (stale : StaleBlock) (remoteIp : UInt32)
    (remotePort : UInt16) :
    (s.malloc.1 = false ∧ tcpConnect s stale remoteIp remotePort = s.malloc.2) ∨
    (s.malloc.1 = true ∧ ∃ c t x,
      c = activeBlock s.nextAddr s.nicIp stale remoteIp remotePort
        (generateSecureInitialSeq s).1
        (generateSecureInitialSeq (generateSecureInitialSeq s).2).1 ∧
      t = { s with
        mallocs := s.mallocs.tail
        counter := s.counter + 1 + 1
        nextAddr := s.nextAddr + 1 } ∧
      x = tcpSendSegment t c tcpSyn [] 0 ∧
      tcpConnect s stale remoteIp remotePort = addConnection x.1 x.2) := by
  rw [tcpConnect]
  cases hmalloc : s.malloc with
  | mk ok t =>
      obtain rfl : t = { s with mallocs := s.mallocs.tail } := (Prod.mk.inj hmalloc).2.symm
      cases ok with
      | false => exact Or.inl ⟨rfl, rfl⟩
      | true => exact Or.inr ⟨rfl, _, _, _, rfl, rfl, rfl, rfl⟩

/-- The control block after an acknowledgement. -/
def TcpConnection.afterAck (c : TcpConnection) (seq ack : UInt32) (dataLen : UInt16) :
    TcpConnection :=
  { c with
    expectedAck := seq + dataLen.toUInt32
    nextSeq := if c.nextSeq < ack then ack else c.nextSeq
    retransmitQueue := c.retransmitQueue.filter fun e => !(e.seq + e.length.toUInt32 ≤ ack) }

theorem processAck_eq (c : TcpConnection) (seq ack : UInt32) (dataLen : UInt16) :
    processAck c seq ack dataLen =
      if c.queueWild then .error .wildPointer else .ok (c.afterAck seq ack dataLen) := by
  rw [processAck, TcpConnection.afterAck]
  by_cases hlt : c.nextSeq < ack
  · simp only [if_pos hlt, dropAcknowledged]
  · simp only [if_neg hlt, dropAcknowledged]

theorem processAck_eq_ok {seq ack : UInt32} {dataLen : UInt16} :
    processAck c seq ack dataLen = .ok c' ↔
      c.queueWild = false ∧ c' = c.afterAck seq ack dataLen := by
  rw [processAck_eq]
  cases c.queueWild with
  | true => simp
  | false => simp [eq_comm]

/-- The payload was empty, a request, or it went into the buffer and was acknowledged. -/
theorem receiveData_eq_ok {seq : UInt32} {payload : List UInt8} {dataLen : UInt16}
    (h : receiveData s c seq payload dataLen = .ok (s', c')) :
    (dataLen = 0 ∧ s' = s ∧ c' = c) ∨
    (dataLen ≠ 0 ∧ isHttpGetRequest payload = true ∧
      ∃ x, x = handleHttpRequest s { c with expectedAck := seq + dataLen.toUInt32 } ∧
        s' = x.1 ∧ c' = { x.2 with state := .waitForAck }) ∨
    (dataLen ≠ 0 ∧ isHttpGetRequest payload = false ∧
      c.recvBuffer.length + payload.length ≤ recvBufferSize ∧
      (s', c') =
        tcpSendSegment s
          { c with
            expectedAck := seq + dataLen.toUInt32
            recvBuffer := c.recvBuffer ++ payload } tcpAck [] 0) := by
  rw [receiveData] at h
  by_cases hlen : dataLen = 0
  · rw [if_pos hlen] at h
    cases h
    exact Or.inl ⟨hlen, rfl, rfl⟩
  · rw [if_neg hlen] at h
    cases hget : isHttpGetRequest payload with
    | true =>
        simp only [hget, if_true] at h
        cases h
        exact Or.inr (Or.inl ⟨hlen, rfl, _, rfl, rfl, rfl⟩)
    | false =>
        by_cases hfit : recvBufferSize < c.recvBuffer.length + payload.length
        · simp only [hget, hfit, if_true, Bool.false_eq_true, if_false] at h
          cases h
        · simp only [hget, hfit, Bool.false_eq_true, if_false, Except.ok.injEq] at h
          exact Or.inr (Or.inr ⟨hlen, rfl, Nat.not_lt.mp hfit, h.symm⟩)

/-- The start of the handler of `TCP_ESTABLISHED`, up to the sequence numbers. -/
def prepareSegment (s : TcpStack) (conn : ℕ) (tcp : TcpHeader) :
    Except Fault (TcpStack × TcpConnection) := do
  let s ← checkTcpTimers s
  let c ← s.deref conn
  fastRetransmit s (reestablish c tcp.seq tcp.ack) tcp.ack

/-- The end of the handler of `TCP_ESTABLISHED`: what is done about the payload and the FIN. -/
def finishSegment (s : TcpStack) (c : TcpConnection) (tcp : TcpHeader) (bytes : ℕ → UInt8)
    (len : UInt16) : Except Fault (TcpStack × TcpConnection) := do
  let x := if tcp.seq ≠ c.expectedAck then tcpSendSegment s c tcpAck [] 0 else (s, c)
  let y ← receiveData x.1 x.2 tcp.seq
    (bytesAt bytes tcp.headerLen.toNat (len - tcp.headerLen).toNat) (len - tcp.headerLen)
  .ok (handleFin y.1 y.2 tcp.flags)

/-- Without payload the end of the handler is about the FIN alone. -/
theorem finishSegment_empty_eq {tcp : TcpHeader} {len : UInt16} (hlen : len - tcp.headerLen = 0)
    (hseq : tcp.seq = c.expectedAck) (bytes : ℕ → UInt8) :
    finishSegment s c tcp bytes len = .ok (handleFin s c tcp.flags) := by
  rw [finishSegment, hlen, if_neg (not_not.mpr hseq)]
  exact bind_eq_ok.mpr ⟨(s, c), if_pos rfl, rfl⟩

/-- A segment without payload and without FIN ends the handler quietly. -/
theorem finishSegment_empty {tcp : TcpHeader} {len : UInt16} (hlen : len - tcp.headerLen = 0)
    (hseq : tcp.seq = c.expectedAck) (hfin : hasFlag tcp.flags tcpFin = false) (bytes : ℕ → UInt8) :
    finishSegment s c tcp bytes len = .ok (s, c) := by
  rw [finishSegment_empty_eq hlen hseq, handleFin, hfin]
  rfl

/-- A run of the loop of `check_tcp_timers` that comes to its end: `kept` are the timers before
`pp`, and each clause is one thing the code does about the timer at `pp`. -/
inductive TimerLoop : List TcpTimer → List TcpTimer → TcpStack → TcpStack → Prop
  | done {kept : List TcpTimer} {s : TcpStack} :
      TimerLoop kept [] s { s with activeTimers := kept }
  | running {kept rest : List TcpTimer} {timer : TcpTimer} {s s' : TcpStack} {c : TcpConnection}
      (hc : s.deref timer.conn = .ok c) (hrunning : s.ticks - timer.startTime < timer.timeoutMs)
      (hrest : TimerLoop (kept ++ [timer]) rest s s') : TimerLoop kept (timer :: rest) s s'
  | again {kept rest : List TcpTimer} {timer timer' : TcpTimer} {s t s' : TcpStack}
      {c : TcpConnection} (hc : s.deref timer.conn = .ok c)
      (hexpired : ¬ s.ticks - timer.startTime < timer.timeoutMs)
      (hretry : retransmitOnTimer s timer c = .ok (some (t, timer')))
      (hrest : TimerLoop (kept ++ [timer']) rest t s') : TimerLoop kept (timer :: rest) s s'
  | unlinked {kept rest : List TcpTimer} {timer : TcpTimer} {s t s' : TcpStack}
      {c : TcpConnection} {i : ℕ} (hc : s.deref timer.conn = .ok c)
      (hexpired : ¬ s.ticks - timer.startTime < timer.timeoutMs)
      (hspent : retransmitOnTimer s timer c = .ok none) (hfree : freeConnection s c = .ok t)
      (hfind : (kept.findIdx? fun t => t.conn == c.addr) = some i)
      (hrest : TimerLoop (kept.eraseIdx i) rest t s') : TimerLoop kept (timer :: rest) s s'
  | passedOver {kept rest : List TcpTimer} {timer next : TcpTimer} {s t s' : TcpStack}
      {c : TcpConnection} (hc : s.deref timer.conn = .ok c)
      (hexpired : ¬ s.ticks - timer.startTime < timer.timeoutMs)
      (hspent : retransmitOnTimer s timer c = .ok none) (hfree : freeConnection s c = .ok t)
      (hfind : (kept.findIdx? fun t => t.conn == c.addr) = none)
      (hrest : TimerLoop kept rest t s') : TimerLoop kept (timer :: next :: rest) s s'

/-- The function runs through the clauses, by induction on the timers to come. -/
theorem TimerLoop.of_eq_ok (n : ℕ) : ∀ (rest kept : List TcpTimer) {s s' : TcpStack},
    rest.length ≤ n → checkTimersLoop kept rest s = .ok s' → TimerLoop kept rest s s' := by
  induction n with
  | zero =>
      intro rest kept s s' hlen hs
      rw [List.length_eq_zero_iff.mp (Nat.le_zero.mp hlen)] at hs ⊢
      rw [checkTimersLoop] at hs
      cases hs
      exact .done
  | succ n ih =>
      intro rest kept s s' hlen hs
      cases rest with
      | nil =>
          rw [checkTimersLoop] at hs
          cases hs
          exact .done
      | cons timer rest =>
          rw [List.length_cons, Nat.add_le_add_iff_right] at hlen
          rw [checkTimersLoop] at hs
          obtain ⟨c, hc, hs⟩ := bind_eq_ok.mp hs
          split_ifs at hs with hrunning
          · exact .running hc hrunning (ih rest _ hlen hs)
          obtain ⟨x, hx, hs⟩ := bind_eq_ok.mp hs
          cases x with
          | some y => exact .again hc hrunning hx (ih rest _ hlen hs)
          | none =>
              obtain ⟨t, hfree, hs⟩ := bind_eq_ok.mp hs
              cases hfind : kept.findIdx? fun t => t.conn == c.addr with
              | some i =>
                  simp only [hfind] at hs
                  split_ifs at hs
                  exact .unlinked hc hrunning hx hfree hfind (ih rest _ hlen hs)
              | none =>
                  simp only [hfind] at hs
                  cases rest with
                  | nil => cases hs
                  | cons next rest =>
                      exact .passedOver hc hrunning hx hfree hfind
                        (ih rest _ (Nat.le_of_succ_le hlen) hs)

/-- A check that comes to its end is a run of the loop. -/
theorem timerLoop_of_checkTcpTimers (h : checkTcpTimers s = .ok s') :
    TimerLoop [] s.activeTimers s s' :=
  .of_eq_ok _ _ _ (Nat.le_refl _) h

/-- Without timers the check does nothing. -/
theorem checkTcpTimers_nil (h : s.activeTimers = []) : checkTcpTimers s = .ok s := by
  rw [checkTcpTimers, h, checkTimersLoop, ← h]

theorem handleEstablishedState_eq (s : TcpStack) (conn : ℕ) (tcp : TcpHeader) (bytes : ℕ → UInt8)
    (len : UInt16) :
    handleEstablishedState s conn tcp bytes len = (do
      let x ← prepareSegment s conn tcp
      let c ← processAck x.2 tcp.seq tcp.ack (len - tcp.headerLen)
      let z ← finishSegment x.1 c tcp bytes len
      .ok (z.1.setConn z.2)) := by
  simp only [prepareSegment, finishSegment, bind_assoc]
  rfl

/-- The handler of `TCP_ESTABLISHED`: what is done before the acknowledgement, the acknowledgement,
and what is done after it. -/
theorem exists_of_handleEstablishedState {conn : ℕ} {tcp : TcpHeader} {bytes : ℕ → UInt8}
    {len : UInt16} (h : handleEstablishedState s conn tcp bytes len = .ok s') :
    ∃ x y z, prepareSegment s conn tcp = .ok x ∧
      processAck x.2 tcp.seq tcp.ack (len - tcp.headerLen) = .ok y ∧
      finishSegment x.1 y tcp bytes len = .ok z ∧ s' = z.1.setConn z.2 := by
  rw [handleEstablishedState_eq] at h
  obtain ⟨x, hprepare, h⟩ := bind_eq_ok.mp h
  obtain ⟨y, hack, h⟩ := bind_eq_ok.mp h
  obtain ⟨z, hfinish, h⟩ := bind_eq_ok.mp h
  exact ⟨x, y, z, hprepare, hack, hfinish, (Except.ok.inj h).symm⟩

theorem connectionList_startRetransmissionTimer (s : TcpStack) (conn : ℕ) (timeoutMs : UInt32) :
    (startRetransmissionTimer s conn timeoutMs).connectionList = s.connectionList := by
  rw [startRetransmissionTimer, TcpStack.malloc]
  cases s.mallocs.headD true with
  | false => rfl
  | true => rfl

theorem connectionList_handleHttpRequest (s : TcpStack) (c : TcpConnection) :
    (handleHttpRequest s c).1.connectionList = s.connectionList := by
  obtain ⟨-, x, rfl, heq⟩ | ⟨file, -, -, heq⟩ | ⟨file, -, -, x, y, rfl, rfl, heq⟩ :=
    handleHttpRequest_cases s c
  · rw [heq, connectionList_tcpSendSegment]
  · rw [heq]
    rfl
  · rw [heq, connectionList_startRetransmissionTimer, connectionList_tcpSendSegment,
      connectionList_tcpSendSegment]
    rfl

/-- Up to the end the handler does not write the block back. -/
theorem connectionList_finishSegment {tcp : TcpHeader} {bytes : ℕ → UInt8} {len : UInt16}
    {z : TcpStack × TcpConnection} (h : finishSegment s c tcp bytes len = .ok z) :
    z.1.connectionList = s.connectionList := by
  obtain ⟨y, hdata, h⟩ := bind_eq_ok.mp h
  rw [Except.ok.injEq] at h
  have hfin : z.1.connectionList = y.1.connectionList := by
    rw [← h, handleFin]
    split_ifs
    · simp
    · rfl
  rw [hfin]
  obtain ⟨-, heq, -⟩ | ⟨-, -, w, rfl, heq, -⟩ | ⟨-, -, -, heq⟩ :=
    @receiveData_eq_ok _ y.1 _ y.2 _ _ _ hdata
  · rw [heq]
    split_ifs
    · exact connectionList_tcpSendSegment _ _ _ _ _
    · rfl
  · rw [heq, connectionList_handleHttpRequest]
    split_ifs
    · exact connectionList_tcpSendSegment _ _ _ _ _
    · rfl
  · rw [(Prod.ext_iff.mp heq).1, connectionList_tcpSendSegment]
    split_ifs
    · exact connectionList_tcpSendSegment _ _ _ _ _
    · rfl

theorem addr_handleHttpRequest (s : TcpStack) (c : TcpConnection) :
    (handleHttpRequest s c).2.addr = c.addr := by
  obtain ⟨-, x, rfl, heq⟩ | ⟨file, -, -, heq⟩ | ⟨file, -, -, x, y, rfl, rfl, heq⟩ :=
    handleHttpRequest_cases s c
  · rw [heq]
    exact addr_tcpSendSegment _ _ _ _ _
  · rw [heq]
  · rw [heq]
    exact (addr_tcpSendSegment _ _ _ _ _).trans (addr_tcpSendSegment _ _ _ _ _)

theorem addr_finishSegment {tcp : TcpHeader} {bytes : ℕ → UInt8} {len : UInt16}
    {z : TcpStack × TcpConnection} (h : finishSegment s c tcp bytes len = .ok z) :
    z.2.addr = c.addr := by
  obtain ⟨y, hdata, h⟩ := bind_eq_ok.mp h
  rw [Except.ok.injEq] at h
  have hfin : z.2.addr = y.2.addr := by
    rw [← h, handleFin]
    split_ifs
    · simp
    · rfl
  rw [hfin]
  generalize hx : (if tcp.seq ≠ c.expectedAck then tcpSendSegment s c tcpAck [] 0
    else (s, c)) = x at hdata
  have haddr : x.2.addr = c.addr := by
    rw [← hx]
    split_ifs
    · exact addr_tcpSendSegment _ _ _ _ _
    · rfl
  rw [← haddr]
  obtain ⟨-, -, heq⟩ | ⟨-, -, w, rfl, -, heq⟩ | ⟨-, -, -, heq⟩ :=
    @receiveData_eq_ok _ y.1 _ y.2 _ _ _ hdata
  · rw [heq]
  · rw [heq]
    exact addr_handleHttpRequest _ _
  · rw [(Prod.ext_iff.mp heq).2, addr_tcpSendSegment]

theorem reestablish_addr (c : TcpConnection) (seq ack : UInt32) :
    (reestablish c seq ack).addr = c.addr := by
  rw [reestablish]
  split_ifs
  · rfl
  · rfl

/-- A connection that is established already stays as it is. -/
theorem reestablish_of_established (h : c.state = .established) (seq ack : UInt32) :
    reestablish c seq ack = c := by
  rw [reestablish, h]
  exact if_neg (by decide)

theorem connectionList_fastRetransmit {ack : UInt32} {x : TcpStack × TcpConnection}
    (h : fastRetransmit s c ack = .ok x) : x.1.connectionList = s.connectionList := by
  obtain ⟨-, heq, -⟩ | ⟨-, -, heq, -⟩ | ⟨-, -, e, es, -, heq⟩ :=
    @fastRetransmit_eq_ok _ x.1 _ x.2 _ h
  · rw [heq]
  · rw [heq]
  · rw [(Prod.ext_iff.mp heq).1, connectionList_tcpSendSegment]

/-- The stack from which the handler goes on has the block. -/
theorem deref_prepareSegment {conn : ℕ} {tcp : TcpHeader} {x : TcpStack × TcpConnection}
    (h : prepareSegment s conn tcp = .ok x) : ∃ d, x.1.deref conn = .ok d := by
  obtain ⟨s₁, -, h⟩ := bind_eq_ok.mp h
  obtain ⟨c₁, hc₁, h⟩ := bind_eq_ok.mp h
  obtain ⟨-, heq, -⟩ | ⟨-, -, heq, -⟩ | ⟨-, -, e, es, -, heq⟩ :=
    @fastRetransmit_eq_ok _ x.1 _ x.2 _ h
  · exact ⟨c₁, heq ▸ hc₁⟩
  · exact ⟨c₁, heq ▸ hc₁⟩
  · refine ⟨c₁, ?_⟩
    rw [(Prod.ext_iff.mp heq).1, deref_tcpSendSegment, hc₁]

/-- The steps of the handler of `TCP_ESTABLISHED`. -/
theorem handleEstablishedState_eq_ok {conn : ℕ} {tcp : TcpHeader} {bytes : ℕ → UInt8}
    {len : UInt16} (h : handleEstablishedState s conn tcp bytes len = .ok s') :
    ∃ s₁ c₁ s₂ c₂ c₃ x y,
      checkTcpTimers s = .ok s₁ ∧ s₁.deref conn = .ok c₁ ∧
      fastRetransmit s₁ (reestablish c₁ tcp.seq tcp.ack) tcp.ack = .ok (s₂, c₂) ∧
      processAck c₂ tcp.seq tcp.ack (len - tcp.headerLen) = .ok c₃ ∧
      x = (if tcp.seq ≠ c₃.expectedAck then tcpSendSegment s₂ c₃ tcpAck [] 0 else (s₂, c₃)) ∧
      receiveData x.1 x.2 tcp.seq (bytesAt bytes tcp.headerLen.toNat (len - tcp.headerLen).toNat)
          (len - tcp.headerLen) = .ok y ∧
      s' = (handleFin y.1 y.2 tcp.flags).1.setConn (handleFin y.1 y.2 tcp.flags).2 := by
  obtain ⟨s₁, h₁, h⟩ := bind_eq_ok.mp h
  obtain ⟨c₁, hc₁, h⟩ := bind_eq_ok.mp h
  obtain ⟨⟨s₂, c₂⟩, h₂, h⟩ := bind_eq_ok.mp h
  obtain ⟨c₃, h₃, h⟩ := bind_eq_ok.mp h
  generalize hx : (if tcp.seq ≠ c₃.expectedAck then tcpSendSegment s₂ c₃ tcpAck [] 0
    else (s₂, c₃)) = x at h
  obtain ⟨y, h₄, h⟩ := bind_eq_ok.mp h
  rw [Except.ok.injEq] at h
  exact ⟨s₁, c₁, s₂, c₂, c₃, x, y, h₁, hc₁, h₂, h₃, hx.symm, h₄, h.symm⟩

/-- Freeing a connection takes its block off the list, if its queue is one. -/
theorem freeConnection_eq_ok : freeConnection s c = .ok s' ↔ c.queueWild = false ∧
    s' = { s with connectionList := s.connectionList.filter fun d => d.addr != c.addr } := by
  rw [freeConnection]
  split_ifs with hwild
  · exact ⟨fun h => (nomatch h), fun h => absurd hwild (Bool.eq_false_iff.mp h.1)⟩
  · exact ⟨fun h => ⟨Bool.eq_false_iff.mpr hwild, (Except.ok.inj h).symm⟩, fun h => by rw [h.2]⟩

/-- Removing a connection whose queue is a list. -/
theorem removeConnection_eq {conn : ℕ} (hc : s.deref conn = .ok c) (hwild : c.queueWild = false) :
    removeConnection s conn =
      .ok { cancelRetransmissionTimer s conn with
        connectionList := s.connectionList.filter fun d => d.addr != conn } := by
  rw [removeConnection, hc]
  refine freeConnection_eq_ok.mpr ⟨hwild, ?_⟩
  rw [(deref_eq_ok hc).2]
  rfl

/-- What removing a connection leaves. -/
theorem exists_of_removeConnection {conn : ℕ} (h : removeConnection s conn = .ok s') :
    ∃ c, s.deref conn = .ok c ∧ c.queueWild = false ∧
      s' = { cancelRetransmissionTimer s conn with
        connectionList := s.connectionList.filter fun d => d.addr != conn } := by
  obtain ⟨c, hc, hfree⟩ := bind_eq_ok.mp h
  have hwild := (freeConnection_eq_ok.mp hfree).1
  exact ⟨c, hc, hwild, Except.ok.inj (h.symm.trans (removeConnection_eq hc hwild))⟩

/-- The handler of `TCP_WAIT_FOR_ACK` has nothing to do for an empty queue. -/
theorem eq_of_handleWaitForAckState_nil {conn : ℕ} {tcp : TcpHeader} (hc : s.deref conn = .ok c)
    (hq : c.retransmitQueue = []) (h : handleWaitForAckState s conn tcp = .ok s') : s' = s := by
  obtain ⟨d, hd, h⟩ := bind_eq_ok.mp h
  obtain rfl : c = d := Except.ok.inj (hc.symm.trans hd)
  rw [hq] at h
  simp only at h
  split_ifs at h
  exact (Except.ok.inj h).symm

/-- The handler of `TCP_WAIT_FOR_ACK` on a queue that is not empty: the entry is acknowledged
in full, or in part, or not at all. -/
theorem handleWaitForAckState_eq_ok {conn : ℕ} {tcp : TcpHeader} (hc : s.deref conn = .ok c)
    {e : RetransmitEntry} {es : List RetransmitEntry} (hq : c.retransmitQueue = e :: es)
    (h : handleWaitForAckState s conn tcp = .ok s') :
    (e.expectedAck ≤ tcp.ack ∧ es = [] ∧
      removeConnection (s.setConn { c with retransmitQueue := [] }) conn = .ok s') ∨
    (e.expectedAck ≤ tcp.ack ∧ s' = s.setConn { c with retransmitQueue := es }) ∨
    (¬ e.expectedAck ≤ tcp.ack ∧ c.lastAck < tcp.ack ∧
      s' = s.setConn
        { c with lastAck := tcp.ack, retransmitQueue := { e with retries := 0 } :: es }) ∨
    (¬ e.expectedAck ≤ tcp.ack ∧ ¬ c.lastAck < tcp.ack ∧ 3 ≤ c.dupAckCount + 1 ∧ ∃ x,
      x = tcpSendSegment s { c with dupAckCount := c.dupAckCount + 1 } e.flags e.data e.length ∧
      s' = x.1.setConn { x.2 with dupAckCount := 0 }) ∨
    (¬ e.expectedAck ≤ tcp.ack ∧ ¬ c.lastAck < tcp.ack ∧ ¬ 3 ≤ c.dupAckCount + 1 ∧
      s' = s.setConn { c with dupAckCount := c.dupAckCount + 1 }) := by
  obtain ⟨d, hd, h⟩ := bind_eq_ok.mp h
  obtain rfl : c = d := Except.ok.inj (hc.symm.trans hd)
  rw [hq] at h
  simp only at h
  by_cases hfull : e.expectedAck ≤ tcp.ack
  · rw [if_pos hfull] at h
    split_ifs at h with hlast
    · obtain ⟨rfl, -⟩ := hlast
      exact Or.inl ⟨hfull, rfl, h⟩
    · exact Or.inr (Or.inl ⟨hfull, (Except.ok.inj h).symm⟩)
  · rw [if_neg hfull] at h
    by_cases hpart : c.lastAck < tcp.ack
    · rw [if_pos hpart] at h
      exact Or.inr (Or.inr (Or.inl ⟨hfull, hpart, (Except.ok.inj h).symm⟩))
    · rw [if_neg hpart] at h
      by_cases hthree : 3 ≤ c.dupAckCount + 1
      · rw [if_pos hthree] at h
        exact Or.inr (Or.inr (Or.inr (Or.inl
          ⟨hfull, hpart, hthree, _, hq ▸ rfl, (Except.ok.inj h).symm⟩)))
      · rw [if_neg hthree] at h
        exact Or.inr (Or.inr (Or.inr (Or.inr ⟨hfull, hpart, hthree, hq ▸ (Except.ok.inj h).symm⟩)))

/-- What `tcp_handle_packet` did with a segment. -/
theorem handleSegment_eq_ok {srcIp dstIp : UInt32} {tcp : TcpHeader} {bytes : ℕ → UInt8}
    {len : UInt16} (h : handleSegment s srcIp dstIp tcp bytes len = .ok s') :
    s' = s ∨ s' = tcpSendReset s srcIp dstIp tcp ∨
    (findConnection s srcIp tcp.srcPort dstIp tcp.destPort = none ∧
      hasFlag tcp.flags tcpSyn = true ∧ isListeningPort s tcp.destPort = true ∧
      s' = passiveOpen s srcIp dstIp tcp bytes) ∨
    ∃ c, findConnection s srcIp tcp.srcPort dstIp tcp.destPort = some c ∧
      (removeConnection s c.addr = .ok s' ∨
        (hasFlag tcp.flags tcpRst = false ∧ handleInState s c tcp bytes len = .ok s')) := by
  rw [handleSegment] at h
  by_cases hoff : tcp.dataOffset >>> 4 < 5
  · rw [if_pos hoff] at h
    cases h
    exact Or.inr (Or.inl rfl)
  · rw [if_neg hoff] at h
    cases hfind : findConnection s srcIp tcp.srcPort dstIp tcp.destPort with
    | none =>
        simp only [hfind] at h
        split_ifs at h with hrst hsyn
        all_goals rw [Except.ok.injEq] at h; subst h
        · exact Or.inl rfl
        · exact Or.inr (Or.inr (Or.inl ⟨rfl, hsyn.1, hsyn.2, rfl⟩))
        · exact Or.inr (Or.inl rfl)
    | some c =>
        simp only [hfind] at h
        split_ifs at h with hrst
        · exact Or.inr (Or.inr (Or.inr ⟨c, rfl, Or.inl h⟩))
        · exact Or.inr (Or.inr (Or.inr ⟨c, rfl, Or.inr ⟨Bool.eq_false_iff.mpr hrst, h⟩⟩))

/-- A segment for a connection goes to the handler of its state. -/
theorem handleSegment_of_find {srcIp dstIp : UInt32} {tcp : TcpHeader}
    (hoff : ¬ tcp.dataOffset >>> 4 < 5)
    (hfind : findConnection s srcIp tcp.srcPort dstIp tcp.destPort = some c)
    (hrst : hasFlag tcp.flags tcpRst = false) (bytes : ℕ → UInt8) (len : UInt16) :
    handleSegment s srcIp dstIp tcp bytes len = handleInState s c tcp bytes len := by
  rw [handleSegment, if_neg hoff, hfind]
  simp only [hrst, Bool.false_eq_true, if_false]

end HalOS
