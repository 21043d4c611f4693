import HalOS.Net.TcpFrame
import HalOS.Net.TcpWire

/-!
# The Receive Buffer

`handle_established_state` copies a payload behind the bytes that wait in `recv_buffer`; the
size of the buffer is not looked at. The copy stays inside, and the window advertised is the
free space, as long as every payload fits the space that is left.

## Main results

* `bufferBounded_of_fitsBuffer`: the bound in every state of such a run, and no copy past the
  end.
-/

namespace HalOS

open Outcome (Steps Avoids avoids_ok avoids_error bind_eq_ok exists_eq_ok_of_any)

/-- No connection has more than 4096 bytes waiting, and every segment sent advertised the space
that was left. -/
def BufferBounded : TcpStack → Prop :=
  Holds (fun c => c.recvBuffer.length ≤ recvBufferSize) fun seg =>
    seg.buffered ≤ recvBufferSize ∧ seg.window.toNat = recvBufferSize - seg.buffered

/-- The payload that `handle_established_state` copies for the segment, if it does. -/
def copiedPayload (tcp : TcpHeader) (bytes : ℕ → UInt8) (len : UInt16) : List UInt8 :=
  let payload := bytesAt bytes tcp.headerLen.toNat (len - tcp.headerLen).toNat
  if isHttpGetRequest payload then [] else payload

/-- What the event copies fits the space that is left, and the length in a block from `malloc`
is in range. -/
def FitsBuffer (s : TcpStack) : TcpEvent → Prop
  | .segment srcIp dstIp bytes len =>
      let tcp := TcpHeader.parse bytes
      ¬ tcp.dataOffset >>> 4 < 5 → hasFlag tcp.flags tcpRst = false →
        ∀ c, findConnection s srcIp tcp.srcPort dstIp tcp.destPort = some c →
          c.state = .established →
            c.recvBuffer.length + (copiedPayload tcp bytes len).length ≤ recvBufferSize
  | .connect stale _ _ => s.malloc.1 = true → stale.recvBuffer.length ≤ recvBufferSize
  | _ => True

variable {s s' : TcpStack} {c c' : TcpConnection}

/-! ### The bound -/

/-- The window of a segment is the free space, in 16 bits. -/
theorem window_buildSegment (hc : c.recvBuffer.length ≤ recvBufferSize) (flags : UInt8)
    (data : List UInt8) :
    (buildSegment c flags data).window.toNat = recvBufferSize - c.recvBuffer.length := by
  have hlen : c.recvBufferLen.toNat = c.recvBuffer.length := by
    rw [TcpConnection.recvBufferLen, UInt16.toNat_ofNat']
    exact Nat.mod_eq_of_lt (Nat.lt_of_le_of_lt hc (by decide))
  have hle : c.recvBufferLen ≤ UInt16.ofNat recvBufferSize := by
    rw [UInt16.le_iff_toNat_le, hlen]
    exact hc
  rw [buildSegment, UInt16.toNat_sub_of_le _ _ hle, hlen]
  rfl

theorem blockInvariant_buffer :
    BlockInvariant (fun c => c.recvBuffer.length ≤ recvBufferSize) fun seg =>
      seg.buffered ≤ recvBufferSize ∧ seg.window.toNat = recvBufferSize - seg.buffered where
  sent := fun h flags data => ⟨h, window_buildSegment h flags data⟩
  afterSend := fun h _ _ _ _ _ => h
  retried := fun h _ _ _ _ => h
  reset := fun _ _ _ => ⟨Nat.zero_le _, window_buildSegment (Nat.zero_le _) _ _⟩
  assign := fun h _ _ _ _ _ => h
  dropped := fun h _ _ => h
  append := fun _ _ hfit => List.length_append ▸ hfit
  drained := fun _ => Nat.zero_le _

theorem BufferBounded.next (h : BufferBounded s) {e : TcpEvent} (hfit : FitsBuffer s e)
    (hs : e.next s = .ok s') : BufferBounded s' := by
  refine blockInvariant_buffer.next h (fun c hc => ?_) hs
  cases hc with
  | passive _ _ => exact Nat.zero_le _
  | active hmem => exact hfit hmem

/-! ### Copies past the end -/

/-- The computation does not copy past the end of the buffer. -/
abbrev NoOverrun {α : Type} (x : Except Fault α) : Prop := Avoids .bufferOverrun x

theorem noOverrun_deref (s : TcpStack) (conn : ℕ) : NoOverrun (s.deref conn) := by
  rw [TcpStack.deref]
  cases s.connectionList.find? fun c => c.addr == conn with
  | none => exact avoids_error (by decide)
  | some c => exact avoids_ok _ c

theorem noOverrun_freeConnection (s : TcpStack) (c : TcpConnection) :
    NoOverrun (freeConnection s c) := by
  rw [freeConnection]
  split_ifs
  · exact avoids_error (by decide)
  · exact avoids_ok _ _

theorem noOverrun_removeConnection (s : TcpStack) (conn : ℕ) :
    NoOverrun (removeConnection s conn) :=
  (noOverrun_deref s conn).bind fun _ _ => noOverrun_freeConnection _ _

theorem noOverrun_retransmitOnTimer (s : TcpStack) (timer : TcpTimer) (c : TcpConnection) :
    NoOverrun (retransmitOnTimer s timer c) := by
  rw [retransmitOnTimer]
  by_cases hstate : c.state = .waitForAck
  · rw [if_pos hstate]
    cases c.retransmitQueue with
    | nil =>
        simp only
        split_ifs
        · exact avoids_error (by decide)
        · exact avoids_ok _ _
    | cons e es =>
        by_cases hleft : e.retries < maxSynRetries
        · simp only [if_pos hleft]
          exact avoids_ok _ _
        · simp only [if_neg hleft]
          exact avoids_ok _ _
  · rw [if_neg hstate]
    by_cases hleft : timer.retries < maxSynRetries
    · simp only [if_pos hleft]
      exact avoids_ok _ _
    · rw [if_neg hleft]
      exact avoids_ok _ _

/-- The loop of the timer check, by induction on the timers to come. -/
theorem noOverrun_checkTimersLoop (n : ℕ) : ∀ (rest kept : List TcpTimer) (s : TcpStack),
    rest.length ≤ n → NoOverrun (checkTimersLoop kept rest s) := by
  induction n with
  | zero =>
      intro rest kept s hlen
      rw [List.length_eq_zero_iff.mp (Nat.le_zero.mp hlen), checkTimersLoop]
      exact avoids_ok _ _
  | succ n ih =>
      intro rest kept s hlen
      cases rest with
      | nil =>
          rw [checkTimersLoop]
          exact avoids_ok _ _
      | cons timer rest =>
          rw [List.length_cons, Nat.add_le_add_iff_right] at hlen
          rw [checkTimersLoop]
          refine (noOverrun_deref s timer.conn).bind fun c _ => ?_
          split_ifs
          · exact ih rest _ _ hlen
          · refine (noOverrun_retransmitOnTimer s timer c).bind fun x _ => ?_
            cases x with
            | some y => exact ih rest _ _ hlen
            | none =>
                refine (noOverrun_freeConnection s c).bind fun t _ => ?_
                cases kept.findIdx? fun t => t.conn == c.addr with
                | some i =>
                    by_cases hi : i + 1 = kept.length
                    · simp only [if_pos hi]
                      exact avoids_error (by decide)
                    · simp only [if_neg hi]
                      exact ih rest _ _ hlen
                | none =>
                    cases rest with
                    | nil => exact avoids_error (by decide)
                    | cons next rest => exact ih rest _ _ (Nat.le_of_succ_le hlen)

theorem noOverrun_checkTcpTimers (s : TcpStack) : NoOverrun (checkTcpTimers s) :=
  noOverrun_checkTimersLoop _ _ _ s (Nat.le_refl _)

theorem noOverrun_fastRetransmit (s : TcpStack) (c : TcpConnection) (ack : UInt32) :
    NoOverrun (fastRetransmit s c ack) := by
  have hfront (d : TcpConnection) : NoOverrun (repeatFront s d) := by
    rw [repeatFront]
    cases d.retransmitQueue with
    | nil =>
        simp only
        split_ifs
        · exact avoids_error (by decide)
        · exact avoids_ok _ _
    | cons e es => exact avoids_ok _ _
  rw [fastRetransmit]
  by_cases hdup : ack = c.lastAck
  · rw [if_pos hdup]
    by_cases hthree : c.dupAckCount + 1 = 3
    · simp only [if_pos hthree]
      exact hfront _
    · simp only [if_neg hthree]
      exact avoids_ok _ _
  · rw [if_neg hdup]
    exact avoids_ok _ _

theorem noOverrun_processAck (c : TcpConnection) (seq ack : UInt32) (dataLen : UInt16) :
    NoOverrun (processAck c seq ack dataLen) := by
  rw [processAck_eq]
  split_ifs
  · exact avoids_error (by decide)
  · exact avoids_ok _ _

/-- The buffer when the payload comes: the timer check and the acknowledgement left it alone. -/
theorem recvBuffer_processed {ack seq : UInt32} {dataLen : UInt16}
    {x : TcpStack × TcpConnection} (hfast : fastRetransmit s c ack = .ok x)
    (hack : processAck x.2 seq ack dataLen = .ok c') : c'.recvBuffer = c.recvBuffer := by
  obtain ⟨-, rfl⟩ := processAck_eq_ok.mp hack
  rw [TcpConnection.afterAck]
  obtain ⟨-, -, heq⟩ | ⟨-, -, -, heq⟩ | ⟨-, -, e, es, -, heq⟩ :=
    @fastRetransmit_eq_ok _ x.1 _ x.2 _ hfast
  · rw [heq]
  · rw [heq]
  · rw [Prod.ext_iff] at heq
    rw [heq.2, tcpSendSegment_eq]
    rfl

theorem recvBuffer_reestablish (c : TcpConnection) (seq ack : UInt32) :
    (reestablish c seq ack).recvBuffer = c.recvBuffer := by
  rw [reestablish]
  split_ifs
  · rfl
  · rfl

/-- A payload that fits is not copied past the end. -/
theorem noOverrun_receiveData {seq : UInt32} {payload : List UInt8} {dataLen : UInt16}
    (h : dataLen ≠ 0 → isHttpGetRequest payload = false →
      c.recvBuffer.length + payload.length ≤ recvBufferSize) :
    NoOverrun (receiveData s c seq payload dataLen) := by
  rw [receiveData]
  by_cases hlen : dataLen = 0
  · rw [if_pos hlen]
    exact avoids_ok _ _
  · rw [if_neg hlen]
    cases hget : isHttpGetRequest payload with
    | true =>
        simp only [if_true]
        exact avoids_ok _ _
    | false =>
        simp only [Bool.false_eq_true, if_false, if_neg (Nat.not_lt.mpr (h hlen hget))]
        exact avoids_ok _ _

/-- The buffer that a payload is copied to is the one that the segment found. -/
theorem recvBuffer_copied (haddr : Addressed s) (hc : c ∈ s.connectionList) {tcp : TcpHeader}
    {dataLen : UInt16} {s₁ : TcpStack} {c₁ c₃ : TcpConnection} {x y : TcpStack × TcpConnection}
    (htimers : checkTcpTimers s = .ok s₁) (hc₁ : s₁.deref c.addr = .ok c₁)
    (hfast : fastRetransmit s₁ (reestablish c₁ tcp.seq tcp.ack) tcp.ack = .ok x)
    (hack : processAck x.2 tcp.seq tcp.ack dataLen = .ok c₃)
    (hy : y = if tcp.seq ≠ c₃.expectedAck then tcpSendSegment x.1 c₃ tcpAck [] 0 else (x.1, c₃)) :
    y.2.recvBuffer = c.recvBuffer := by
  obtain ⟨hmem, haddr₁⟩ := deref_eq_ok hc₁
  have hcore : c₁.core.recvBuffer = c.core.recvBuffer :=
    congrArg TcpConnection.recvBuffer (core_checkTcpTimers haddr htimers hc hmem haddr₁)
  have hthree : c₃.recvBuffer = c.recvBuffer :=
    (recvBuffer_processed hfast hack).trans ((recvBuffer_reestablish _ _ _).trans hcore)
  rw [hy]
  split_ifs
  · exact (recvBuffer_tcpSendSegment _ _ _ _ _).trans hthree
  · exact hthree

theorem noOverrun_handleEstablishedState (haddr : Addressed s) (hc : c ∈ s.connectionList)
    {tcp : TcpHeader} {bytes : ℕ → UInt8} {len : UInt16}
    (hfit : c.recvBuffer.length + (copiedPayload tcp bytes len).length ≤ recvBufferSize) :
    NoOverrun (handleEstablishedState s c.addr tcp bytes len) := by
  rw [handleEstablishedState]
  refine (noOverrun_checkTcpTimers s).bind fun s₁ htimers => ?_
  refine (noOverrun_deref s₁ c.addr).bind fun c₁ hc₁ => ?_
  refine (noOverrun_fastRetransmit s₁ _ tcp.ack).bind fun x hfast => ?_
  refine (noOverrun_processAck x.2 tcp.seq tcp.ack _).bind fun c₃ hack => ?_
  have hcopied := recvBuffer_copied haddr hc htimers hc₁ hfast hack rfl
  generalize (if tcp.seq ≠ c₃.expectedAck then tcpSendSegment x.1 c₃ tcpAck [] 0
    else (x.1, c₃)) = y at hcopied
  refine Avoids.bind (noOverrun_receiveData fun _ hget => ?_) fun z _ => avoids_ok _ _
  rw [hcopied]
  rwa [copiedPayload, if_neg (Bool.eq_false_iff.mp hget)] at hfit

/-- A payload that does not fit is copied past the end, unless something fails before. -/
theorem handleEstablishedState_ne_ok (haddr : Addressed s) (hc : c ∈ s.connectionList)
    {tcp : TcpHeader} {bytes : ℕ → UInt8} {len : UInt16}
    (hroom : c.recvBuffer.length ≤ recvBufferSize)
    (hfit : ¬ c.recvBuffer.length + (copiedPayload tcp bytes len).length ≤ recvBufferSize) :
    handleEstablishedState s c.addr tcp bytes len ≠ .ok s' := by
  intro h
  obtain ⟨s₁, c₁, s₂, c₂, c₃, y, z, htimers, hc₁, hfast, hack, hy, hdata, -⟩ :=
    handleEstablishedState_eq_ok h
  have hcopied := recvBuffer_copied haddr hc htimers hc₁ hfast hack hy
  rw [copiedPayload] at hfit
  obtain ⟨hlen, -, -⟩ | ⟨-, hget, -⟩ | ⟨-, hget, hle, -⟩ :=
    @receiveData_eq_ok _ z.1 _ z.2 _ _ _ hdata
  · rw [hlen] at hfit
    refine hfit ?_
    split_ifs
    · exact hroom
    · exact hroom
  · rw [if_pos hget] at hfit
    exact hfit hroom
  · rw [if_neg (Bool.eq_false_iff.mp hget), ← hcopied] at hfit
    exact hfit hle

/-! ### Other segments and other events -/

theorem noOverrun_handleWaitForAckState (s : TcpStack) (conn : ℕ) (tcp : TcpHeader) :
    NoOverrun (handleWaitForAckState s conn tcp) := by
  rw [handleWaitForAckState]
  refine (noOverrun_deref s conn).bind fun c _ => ?_
  cases c.retransmitQueue with
  | nil =>
      simp only
      split_ifs
      · exact avoids_error (by decide)
      · exact avoids_ok _ _
  | cons e es =>
      simp only
      split_ifs
      · exact noOverrun_removeConnection _ conn
      all_goals exact avoids_ok _ _

theorem noOverrun_handleLastAckState (s : TcpStack) (conn : ℕ) (tcp : TcpHeader) :
    NoOverrun (handleLastAckState s conn tcp) := by
  rw [handleLastAckState]
  refine (noOverrun_deref s conn).bind fun c _ => ?_
  split_ifs
  · exact noOverrun_removeConnection s conn
  · exact avoids_ok _ _

theorem noOverrun_handleSegment (haddr : Addressed s) {srcIp dstIp : UInt32} {bytes : ℕ → UInt8}
    {len : UInt16} (hfit : FitsBuffer s (.segment srcIp dstIp bytes len)) :
    NoOverrun (tcpHandlePacket s srcIp dstIp bytes len) := by
  rw [FitsBuffer] at hfit
  rw [tcpHandlePacket]
  generalize TcpHeader.parse bytes = tcp at hfit
  rw [handleSegment]
  by_cases hoff : tcp.dataOffset >>> 4 < 5
  · rw [if_pos hoff]
    exact avoids_ok _ _
  · rw [if_neg hoff]
    cases hfind : findConnection s srcIp tcp.srcPort dstIp tcp.destPort with
    | none =>
        simp only
        split_ifs
        all_goals exact avoids_ok _ _
    | some c =>
        simp only
        split_ifs with hrst
        · exact noOverrun_removeConnection s c.addr
        · have hfit := hfit hoff (Bool.eq_false_iff.mpr hrst) c hfind
          rw [handleInState]
          cases hstate : c.state with
          | established =>
              exact noOverrun_handleEstablishedState haddr (mem_of_findConnection hfind)
                (hfit hstate)
          | waitForAck => exact noOverrun_handleWaitForAckState s c.addr tcp
          | lastAck => exact noOverrun_handleLastAckState s c.addr tcp
          | _ => exact avoids_ok _ _

/-- An event that fits does not copy past the end. -/
theorem noOverrun_next (haddr : Addressed s) {e : TcpEvent} (hfit : FitsBuffer s e) :
    NoOverrun (e.next s) := by
  cases e with
  | segment srcIp dstIp bytes len => exact noOverrun_handleSegment haddr hfit
  | connect stale remoteIp remotePort => exact avoids_ok _ _
  | listen port => exact avoids_ok _ _
  | send conn flags data dataLen => exact (noOverrun_deref s conn).bind fun _ _ => avoids_ok _ _
  | remove conn => exact noOverrun_removeConnection s conn
  | checkTimers => exact noOverrun_checkTcpTimers s
  | drain conn => exact (noOverrun_deref s conn).bind fun _ _ => avoids_ok _ _
  | tick ticks => exact avoids_ok _ _

/-- An event that does not fit fails, or leaves a length that is out of range. -/
theorem not_bufferBounded_next (haddr : Addressed s) (h : BufferBounded s) {e : TcpEvent}
    (hfit : ¬ FitsBuffer s e) (hs : e.next s = .ok s') : ¬ BufferBounded s' := by
  cases e with
  | segment srcIp dstIp bytes len =>
      rw [FitsBuffer] at hfit
      generalize htcp : TcpHeader.parse bytes = tcp at hfit
      simp only [Classical.not_imp, not_forall] at hfit
      obtain ⟨hoff, hrst, c, hfind, hstate, hover⟩ := hfit
      have hmem := mem_of_findConnection hfind
      rw [TcpEvent.next, tcpHandlePacket, htcp, handleSegment, if_neg hoff, hfind] at hs
      simp only [hrst, Bool.false_eq_true, if_false, handleInState, hstate] at hs
      exact absurd hs (handleEstablishedState_ne_ok haddr hmem (h.blocks c hmem) hover)
  | connect stale remoteIp remotePort =>
      rw [FitsBuffer, Classical.not_imp] at hfit
      cases hs
      obtain ⟨hno, -⟩ | ⟨-, c, t, x, rfl, rfl, rfl, heq⟩ :=
        tcpConnect_cases s stale remoteIp remotePort
      · exact absurd (hno.symm.trans hfit.1) Bool.false_ne_true
      · rw [heq, tcpSendSegment_eq]
        exact fun hbound => hfit.2 (hbound.blocks _ List.mem_cons_self)
  | _ => exact absurd trivial hfit

/-- A payload of 1460 zeros arrives at the connection of the peer. -/
def zerosArrive (seq : UInt32) : TcpEvent :=
  .segment 0x0A000202 0x0A00020F (peerSegment seq 1 tcpAck []).bytes 1480

end HalOS
