import HalOS.Net.TcpBuffer

/-!
# Translation of Sequence Space

Sequence numbers have no origin: adding one number to all of them changes nothing that the two
ends can agree on. `handle_last_ack_state` compares for equality and respects this.
`handle_established_state` and `handle_wait_for_ack_state` compare with `<` and `>=` on 32 bits,
so they respect it where the order of the numbers compared survives the translation.

## Main results

* `translation_iff`: the exact condition for each of the three handlers.
-/

namespace HalOS

open Outcome (Alike alike_iff_eq_map bind_eq_ok exists_eq_ok_of_any)
open List (Forall₂)

/-! ### The translation -/

/-- The connection at address `a`, moved by `k`. -/
def shiftConn (a : ℕ) (k : UInt32) (c : TcpConnection) : TcpConnection :=
  if c.addr = a then
    { c with
      nextSeq := c.nextSeq + k
      lastAck := c.lastAck + k
      retransmitQueue := c.retransmitQueue.map (shiftEntry k) }
  else c

/-- A segment sent for the connection, moved by `k`. -/
def shiftSegment (a : ℕ) (k : UInt32) (seg : TcpSegment) : TcpSegment :=
  if seg.owner = a then { seg with seq := seg.seq + k } else seg

/-- The stack with the connection and its segments moved by `k`. -/
def TcpStack.shift (s : TcpStack) (a : ℕ) (k : UInt32) : TcpStack :=
  { s with
    connectionList := s.connectionList.map (shiftConn a k)
    sent := s.sent.map (shiftSegment a k) }

/-- Running the handler on the translated state and segment gives the translated result. -/
def TranslatesBy (k : UInt32) (a : ℕ) (handler : TcpStack → TcpHeader → Except Fault TcpStack)
    (s : TcpStack) (tcp : TcpHeader) : Prop :=
  handler (s.shift a k) { tcp with ack := tcp.ack + k } =
    (handler s tcp).map fun s' => s'.shift a k

variable {s s' t : TcpStack} {c d : TcpConnection} {a : ℕ} {k : UInt32}

/-- Lists related by a function are images. -/
theorem forall₂_eq_map {α β : Type} {f : α → β} {l : List α} {l' : List β} :
    Forall₂ (fun x y => y = f x) l l' ↔ l' = l.map f := by
  constructor
  · intro h
    induction h with
    | nil => rfl
    | cons hxy _ ih => rw [hxy, ih, List.map_cons]
  · rintro rfl
    exact List.forall₂_map_right_iff.mpr (List.forall₂_same.mpr fun _ _ => rfl)

/-- Lockstep under the translation is the translation of the stack. -/
theorem stackRel_shift : StackRel (fun c d => d = shiftConn a k c)
    (fun x y => y = shiftSegment a k x) s t ↔ t = s.shift a k := by
  constructor
  · rintro ⟨cs, ls, rfl, hc, hs⟩
    rw [forall₂_eq_map.mp hc, forall₂_eq_map.mp hs, TcpStack.shift]
  · rintro rfl
    exact ⟨_, _, rfl, forall₂_eq_map.mpr rfl, forall₂_eq_map.mpr rfl⟩

/-- Lockstep that leaves the segments open. -/
theorem StackRel.anySegment {R : TcpConnection → TcpConnection → Prop}
    {S : TcpSegment → TcpSegment → Prop} (h : StackRel R S s t) :
    StackRel R (fun _ _ => True) s t := by
  obtain ⟨cs, ls, heq, hcs, hls⟩ := h
  exact ⟨cs, ls, heq, hcs, hls.imp fun _ _ _ => trivial⟩

theorem translatesBy_iff {handler : TcpStack → TcpHeader → Except Fault TcpStack}
    {tcp : TcpHeader} :
    TranslatesBy k a handler s tcp ↔
      Alike (StackRel (fun c d => d = shiftConn a k c) fun x y => y = shiftSegment a k x)
        (handler s tcp) (handler (s.shift a k) { tcp with ack := tcp.ack + k }) := by
  rw [TranslatesBy, ← alike_iff_eq_map]
  exact ⟨fun h => h.mono fun _ _ => stackRel_shift.mpr,
    fun h => h.mono fun _ _ => stackRel_shift.mp⟩

theorem shiftConn_of_addr (h : c.addr = a) : shiftConn a k c =
    { c with
      nextSeq := c.nextSeq + k
      lastAck := c.lastAck + k
      retransmitQueue := c.retransmitQueue.map (shiftEntry k) } :=
  if_pos h

theorem shiftConn_of_ne (h : c.addr ≠ a) : shiftConn a k c = c :=
  if_neg h

theorem eq_shiftConn_of_addr (hd : d =
    { c with
      nextSeq := c.nextSeq + k
      lastAck := c.lastAck + k
      retransmitQueue := c.retransmitQueue.map (shiftEntry k) }) (h : c.addr = a) :
    d = shiftConn a k c :=
  hd.trans (shiftConn_of_addr h).symm

theorem eq_shiftConn_of_ne (hd : d = c) (h : c.addr ≠ a) : d = shiftConn a k c :=
  hd.trans (shiftConn_of_ne h).symm

/-- The translation is closed under everything the handlers do. -/
theorem ackClosed_shift (a : ℕ) (k : UInt32) :
    AckClosed (fun c d => d = shiftConn a k c) (fun x y => y = shiftSegment a k x) a k where
  addr := by
    rintro c d rfl
    rw [shiftConn]
    split_ifs <;> rfl
  sent := by
    rintro c d rfl flags data
    have hown : (buildSegment c flags data).owner = c.addr := rfl
    rw [shiftSegment, hown, shiftConn]
    split_ifs
    · rfl
    · rfl
  afterSend := by
    rintro c d rfl flags data dataLen queued -
    by_cases h : c.addr = a
    · rw [shiftConn_of_addr h]
      refine eq_shiftConn_of_addr ?_ h
      have hnext : c.nextSeq + k + sequenceLen flags dataLen =
          c.nextSeq + sequenceLen flags dataLen + k := by ac_rfl
      cases queued with
      | false => simp [TcpConnection.afterSend, hnext]
      | true => simp [TcpConnection.afterSend, shiftEntry, hnext]
    · rw [shiftConn_of_ne h]
      exact eq_shiftConn_of_ne rfl h
  state := by
    rintro c d rfl
    rw [shiftConn]
    split_ifs <;> rfl
  wild := by
    rintro c d rfl
    rw [shiftConn]
    split_ifs <;> rfl
  queue := by
    rintro c d rfl
    rw [shiftConn]
    split_ifs
    · exact List.forall₂_map_right_iff.mpr (List.forall₂_same.mpr fun _ _ => rfl)
    · exact List.forall₂_same.mpr fun _ _ => rfl
  retried := by
    rintro c d rfl retries e es f fs he hf
    by_cases h : c.addr = a
    · rw [shiftConn_of_addr h, he] at hf
      obtain ⟨rfl, rfl⟩ := List.cons.inj hf
      rw [shiftConn_of_addr h]
      exact eq_shiftConn_of_addr rfl h
    · rw [shiftConn_of_ne h, he] at hf
      obtain ⟨rfl, rfl⟩ := List.cons.inj hf
      rw [shiftConn_of_ne h]
      exact eq_shiftConn_of_ne rfl h
  expected := by
    rintro c d rfl
    rw [shiftConn]
    split_ifs <;> rfl
  received := by
    rintro c d rfl
    rw [shiftConn]
    split_ifs <;> rfl
  setState := by
    rintro c d rfl state
    rw [shiftConn, shiftConn]
    split_ifs <;> rfl
  setExpected := by
    rintro c d rfl ack
    rw [shiftConn, shiftConn]
    split_ifs <;> rfl
  append := by
    rintro c d rfl payload -
    rw [shiftConn, shiftConn]
    split_ifs <;> rfl
  nextSeq := by
    rintro c d rfl h
    rw [shiftConn_of_addr h]
  lastAck := by
    rintro c d rfl h
    rw [shiftConn_of_addr h]
  dupAck := by
    rintro c d rfl h
    rw [shiftConn_of_addr h]
  entries := by
    rintro c d rfl h
    rw [shiftConn_of_addr h]
  setNext := by
    rintro c d rfl h seq
    rw [shiftConn_of_addr h]
    exact eq_shiftConn_of_addr rfl h
  setLast := by
    rintro c d rfl h ack
    rw [shiftConn_of_addr h]
    exact eq_shiftConn_of_addr rfl h
  setDup := by
    rintro c d rfl h count
    rw [shiftConn_of_addr h]
    exact eq_shiftConn_of_addr rfl h
  setQueue := by
    rintro c d rfl h queue -
    rw [shiftConn_of_addr h]
    exact eq_shiftConn_of_addr rfl h

theorem deref_shift (s : TcpStack) (a : ℕ) (k : UInt32) (b : ℕ) :
    (s.shift a k).deref b = (s.deref b).map (shiftConn a k) :=
  alike_iff_eq_map.mp ((stackRel_shift.mpr rfl).deref (ackClosed_shift a k).addr b)

/-! ### `handle_established_state` -/

/-- The payload of the segment is empty, a request, or fits the buffer of the connection. -/
def PayloadFits (c : TcpConnection) (tcp : TcpHeader) (bytes : ℕ → UInt8) (len : UInt16) : Prop :=
  len - tcp.headerLen = 0 ∨
    isHttpGetRequest (bytesAt bytes tcp.headerLen.toNat (len - tcp.headerLen).toNat) = true ∨
      c.recvBuffer.length + (len - tcp.headerLen).toNat ≤ recvBufferSize

theorem payloadFits_afterAck {tcp : TcpHeader} {bytes : ℕ → UInt8} {len dataLen : UInt16}
    {seq ack : UInt32} :
    PayloadFits (c.afterAck seq ack dataLen) tcp bytes len ↔ PayloadFits c tcp bytes len :=
  Iff.rfl

/-- The comparisons of `handle_established_state` come out alike, where the segment gets so far
and its payload does not end the run. -/
def EstablishedAgrees (k : UInt32) (s : TcpStack) (conn : ℕ) (tcp : TcpHeader) (bytes : ℕ → UInt8)
    (len : UInt16) : Prop :=
  ∀ x, prepareSegment s conn tcp = .ok x → x.2.queueWild = false → PayloadFits x.2 tcp bytes len →
    AckAgrees k tcp.ack x.2

/-- Control blocks at `a` whose `next_seq` differ by `m` and whose queues differ in their older
parts, `q₁` and `q₂`. -/
structure Drift (a : ℕ) (m : UInt32) (q₁ q₂ : List RetransmitEntry) (c d : TcpConnection) :
    Prop where
  own : c.addr = a
  addr : d.addr = c.addr
  expectedAck : d.expectedAck = c.expectedAck
  received : d.recvBuffer.length = c.recvBuffer.length
  nextSeq : d.nextSeq = c.nextSeq + m
  queue : ∃ n, c.retransmitQueue.drop n = q₁ ∧ d.retransmitQueue.drop n = q₂

/-- What is done about the payload and the FIN leaves the difference as it is. -/
theorem dataClosed_drift (a : ℕ) (m : UInt32) (q₁ q₂ : List RetransmitEntry) :
    DataClosed (Drift a m q₁ q₂) fun _ _ => True where
  addr := Drift.addr
  sent := fun _ _ _ => trivial
  afterSend := by
    rintro c d ⟨hown, haddr, hexp, hrecv, hnext, n, hc, hd⟩ flags data dataLen queued -
    refine ⟨hown, haddr, hexp, hrecv, ?_, ?_⟩
    · have hcomm : c.nextSeq + m + sequenceLen flags dataLen =
          c.nextSeq + sequenceLen flags dataLen + m := by ac_rfl
      rw [TcpConnection.afterSend, TcpConnection.afterSend, hnext, hcomm]
    · cases queued with
      | false => exact ⟨n, hc, hd⟩
      | true => exact ⟨n + 1, hc, hd⟩
  expected := Drift.expectedAck
  received := Drift.received
  setState := fun h _ => ⟨h.own, h.addr, h.expectedAck, h.received, h.nextSeq, h.queue⟩
  setExpected := fun h _ => ⟨h.own, h.addr, rfl, h.received, h.nextSeq, h.queue⟩
  append := fun h payload _ => by
    refine ⟨h.own, h.addr, h.expectedAck, ?_, h.nextSeq, h.queue⟩
    rw [List.length_append, List.length_append, h.received]

/-- A segment gets to the end of the handler if and only if its payload fits. -/
theorem finishSegment_ok_iff {tcp : TcpHeader} {bytes : ℕ → UInt8} {len : UInt16} :
    (∃ z, finishSegment s c tcp bytes len = .ok z) ↔ PayloadFits c tcp bytes len := by
  have hbuffer : (if tcp.seq ≠ c.expectedAck then tcpSendSegment s c tcpAck [] 0
      else (s, c)).2.recvBuffer = c.recvBuffer := by
    split_ifs
    · exact recvBuffer_tcpSendSegment _ _ _ _ _
    · rfl
  rw [finishSegment, PayloadFits]
  generalize (if tcp.seq ≠ c.expectedAck then tcpSendSegment s c tcpAck [] 0 else (s, c)) = x
    at hbuffer
  constructor
  · rintro ⟨z, hz⟩
    obtain ⟨y, hdata, -⟩ := bind_eq_ok.mp hz
    obtain ⟨hlen, -, -⟩ | ⟨-, hget, -⟩ | ⟨-, -, hle, -⟩ :=
      @receiveData_eq_ok _ y.1 _ y.2 _ _ _ hdata
    · exact Or.inl hlen
    · exact Or.inr (Or.inl hget)
    · rw [length_bytesAt, hbuffer] at hle
      exact Or.inr (Or.inr hle)
  · intro hfit
    rw [receiveData]
    by_cases hlen : len - tcp.headerLen = 0
    · rw [if_pos hlen]
      exact ⟨_, rfl⟩
    · rw [if_neg hlen]
      cases hget : isHttpGetRequest
          (bytesAt bytes tcp.headerLen.toNat (len - tcp.headerLen).toNat) with
      | true => exact ⟨_, rfl⟩
      | false =>
          rw [hget] at hfit
          have hle := (hfit.resolve_left hlen).resolve_left Bool.false_ne_true
          rw [← hbuffer, ← length_bytesAt bytes tcp.headerLen.toNat (len - tcp.headerLen).toNat]
            at hle
          simp only [Bool.false_eq_true, if_false, if_neg (Nat.not_lt.mpr hle)]
          exact ⟨_, rfl⟩

/-- Two filters with one result agree on every member. -/
theorem filter_eq_iff {α : Type} {p q : α → Bool} {l : List α} :
    l.filter p = l.filter q ↔ ∀ x ∈ l, p x = q x := by
  refine ⟨fun h x hx => ?_, List.filter_congr⟩
  rw [Bool.eq_iff_iff]
  constructor
  · intro hp
    have hmem : x ∈ l.filter q := h ▸ List.mem_filter.mpr ⟨hx, hp⟩
    exact (List.mem_filter.mp hmem).2
  · intro hq
    have hmem : x ∈ l.filter p := h ▸ List.mem_filter.mpr ⟨hx, hq⟩
    exact (List.mem_filter.mp hmem).2

theorem shiftEntry_injective (k : UInt32) : Function.Injective (shiftEntry k) := by
  rintro ⟨seq, length, data, flags, retries⟩ ⟨seq', length', data', flags', retries'⟩ h
  simp only [shiftEntry, RetransmitEntry.mk.injEq, UInt32.add_left_inj] at h
  simpa using h

/-- If the blocks after the acknowledgement differ by the translation, the comparisons came out
alike. -/
theorem ackAgrees_of_afterAck {seq ack : UInt32} {dataLen : UInt16} (hc : c.addr = a)
    (hnext : ((shiftConn a k c).afterAck seq (ack + k) dataLen).nextSeq =
      (c.afterAck seq ack dataLen).nextSeq + k)
    (hqueue : ((shiftConn a k c).afterAck seq (ack + k) dataLen).retransmitQueue =
      (c.afterAck seq ack dataLen).retransmitQueue.map (shiftEntry k)) :
    AckAgrees k ack c := by
  rw [shiftConn_of_addr hc] at hnext hqueue
  simp only [TcpConnection.afterAck] at hnext hqueue
  constructor
  · by_cases hlt : c.nextSeq < ack
    · rw [if_pos hlt] at hnext
      by_cases hlt' : c.nextSeq + k < ack + k
      · exact iff_of_true hlt' hlt
      · rw [if_neg hlt', UInt32.add_left_inj] at hnext
        exact absurd hlt (hnext ▸ UInt32.lt_irrefl _)
    · rw [if_neg hlt] at hnext
      by_cases hlt' : c.nextSeq + k < ack + k
      · rw [if_pos hlt', UInt32.add_left_inj] at hnext
        exact absurd hlt' (hnext ▸ UInt32.lt_irrefl _)
      · exact iff_of_false hlt' hlt
  · rw [List.filter_map, (List.map_injective_iff.mpr (shiftEntry_injective k)).eq_iff,
      filter_eq_iff] at hqueue
    intro e he
    exact decide_eq_decide.mp (Bool.not_inj (hqueue e he))

/-- Blocks that drifted apart and are translations of each other drifted by the translation. -/
theorem Drift.eq_of_shift {m : UInt32} {q₁ q₂ : List RetransmitEntry} (h : Drift a m q₁ q₂ c d)
    (hd : d = shiftConn a k c) : m = k ∧ q₂ = q₁.map (shiftEntry k) := by
  rw [shiftConn_of_addr h.own] at hd
  obtain ⟨n, hc, hdrop⟩ := h.queue
  have hnext : c.nextSeq + k = c.nextSeq + m := by simpa [hd] using h.nextSeq
  refine ⟨((UInt32.add_right_inj _).mp hnext).symm, ?_⟩
  rw [← hc, ← hdrop, hd, List.map_drop]

theorem add_sub_self (m n : UInt32) : n + (m - n) = m := by
  rw [UInt32.add_comm, UInt32.sub_add_cancel]

theorem drift_afterAck (hc : c.addr = a) (seq ack : UInt32) (dataLen : UInt16) :
    Drift a
      (((shiftConn a k c).afterAck seq (ack + k) dataLen).nextSeq -
        (c.afterAck seq ack dataLen).nextSeq)
      (c.afterAck seq ack dataLen).retransmitQueue
      ((shiftConn a k c).afterAck seq (ack + k) dataLen).retransmitQueue
      (c.afterAck seq ack dataLen) ((shiftConn a k c).afterAck seq (ack + k) dataLen) := by
  have haddr : (shiftConn a k c).addr = c.addr := (ackClosed_shift a k).addr rfl
  have hrecv : (shiftConn a k c).recvBuffer.length = c.recvBuffer.length :=
    (ackClosed_shift a k).received rfl
  exact ⟨hc, haddr, rfl, hrecv, (add_sub_self _ _).symm, 0, rfl, rfl⟩

/-- What is written back when a segment gets to the end of the handler. -/
theorem handleEstablishedState_ok {tcp : TcpHeader} {bytes : ℕ → UInt8} {len : UInt16}
    {x z : TcpStack × TcpConnection} (hx : prepareSegment s a tcp = .ok x)
    (hwild : x.2.queueWild = false)
    (hz : finishSegment x.1 (x.2.afterAck tcp.seq tcp.ack (len - tcp.headerLen)) tcp bytes len =
      .ok z) (hown : z.2.addr = a) :
    handleEstablishedState s a tcp bytes len = .ok (z.1.setConn z.2) ∧
      (z.1.setConn z.2).deref a = .ok z.2 := by
  constructor
  · rw [handleEstablishedState_eq, hx]
    exact bind_eq_ok.mpr ⟨_, rfl, bind_eq_ok.mpr ⟨_, processAck_eq_ok.mpr ⟨hwild, rfl⟩,
      bind_eq_ok.mpr ⟨z, hz, rfl⟩⟩⟩
  · obtain ⟨d, hd⟩ := deref_prepareSegment hx
    refine deref_setConn (c := d) ?_ hown
    rwa [TcpStack.deref, connectionList_finishSegment hz]

/-- If the segment gets to the end of the handler and the two results are translations of each
other, the comparisons came out alike. -/
theorem ackAgrees_of_translatesBy {tcp : TcpHeader} {bytes : ℕ → UInt8} {len : UInt16}
    {x y : TcpStack × TcpConnection} (hx : prepareSegment s a tcp = .ok x)
    (hy : prepareSegment (s.shift a k) a { tcp with ack := tcp.ack + k } = .ok y)
    (hstack : StackRel (fun c d => d = shiftConn a k c) (fun u v => v = shiftSegment a k u) x.1 y.1)
    (hconn : y.2 = shiftConn a k x.2) (haddr : x.2.addr = a) (hwild : x.2.queueWild = false)
    (hfit : PayloadFits x.2 tcp bytes len)
    (h : TranslatesBy k a (fun s tcp => handleEstablishedState s a tcp bytes len) s tcp) :
    AckAgrees k tcp.ack x.2 := by
  have hwild' : y.2.queueWild = false := ((ackClosed_shift a k).wild hconn).trans hwild
  have hfit' : PayloadFits (x.2.afterAck tcp.seq tcp.ack (len - tcp.headerLen)) tcp bytes len :=
    payloadFits_afterAck.mpr hfit
  obtain ⟨z, hz⟩ := (finishSegment_ok_iff (s := x.1)).mpr hfit'
  -- the end of the handler keeps the difference of the blocks
  obtain ⟨w, hw, -, hzw⟩ := ((dataClosed_drift a _ _ _).finishSegment hstack.anySegment
    (drift_afterAck haddr tcp.seq tcp.ack (len - tcp.headerLen)) tcp bytes len
    (tcp.ack + k)).of_ok hz
  rw [← hconn] at hw
  obtain ⟨hs, hread⟩ := handleEstablishedState_ok hx hwild hz hzw.own
  obtain ⟨ht, hread'⟩ := handleEstablishedState_ok hy hwild' hw (hzw.addr.trans hzw.own)
  -- so the blocks that are written back show how far they had drifted
  rw [TranslatesBy, hs, ht] at h
  rw [Except.ok.inj h, deref_shift, hread] at hread'
  obtain ⟨hm, hq⟩ := hzw.eq_of_shift (Except.ok.inj hread').symm
  have hnext := (add_sub_self ((shiftConn a k x.2).afterAck tcp.seq (tcp.ack + k)
    (len - tcp.headerLen)).nextSeq (x.2.afterAck tcp.seq tcp.ack (len - tcp.headerLen)).nextSeq)
  rw [hm] at hnext
  exact ackAgrees_of_afterAck haddr hnext.symm hq

/-- **The handler of `TCP_ESTABLISHED`.** -/
theorem translatesBy_handleEstablishedState_iff (hstate : ∀ s' c, checkTcpTimers s = .ok s' →
      s'.deref a = .ok c → ¬ (c.state = .synSent ∨ c.state = .closeWait))
    (tcp : TcpHeader) (bytes : ℕ → UInt8) (len : UInt16) :
    TranslatesBy k a (fun s tcp => handleEstablishedState s a tcp bytes len) s tcp ↔
      EstablishedAgrees k s a tcp bytes len := by
  have hprep := (ackClosed_shift a k).prepareSegment (stackRel_shift.mpr rfl) tcp (s := s)
    (Or.inr hstate)
  constructor
  · intro h x hx hwild hfit
    obtain ⟨y, hy, ⟨hstack, hconn⟩, haddr⟩ := hprep.of_ok hx
    exact ackAgrees_of_translatesBy hx hy hstack hconn haddr hwild hfit h
  · intro hagrees
    rw [translatesBy_iff]
    simp only [handleEstablishedState_eq]
    refine hprep.bind_of_eq fun x y hx hxy => ?_
    obtain ⟨⟨hstack, hconn⟩, haddr⟩ := hxy
    have hwilds := (ackClosed_shift a k).wild hconn
    cases hwild : x.2.queueWild with
    | true =>
        rw [processAck_eq, processAck_eq, hwilds, hwild]
        exact .error _
    | false =>
        by_cases hfit : PayloadFits x.2 tcp bytes len
        · refine ((ackClosed_shift a k).processAck hconn haddr (hagrees x hx hwild hfit) tcp.seq
            _).bind fun c d hcd => ?_
          refine ((ackClosed_shift a k).finishSegment hstack hcd tcp bytes len _).bind
            fun z w hzw => ?_
          exact .ok (hzw.1.setConn (ackClosed_shift a k).addr hzw.2)
        · -- the payload ends both runs
          rw [processAck_eq_ok.mpr ⟨hwild, rfl⟩, processAck_eq_ok.mpr ⟨hwilds.trans hwild, rfl⟩]
          refine Alike.bind (r := fun c d =>
            c = x.2.afterAck tcp.seq tcp.ack (len - tcp.headerLen) ∧
            d = y.2.afterAck tcp.seq (tcp.ack + k) (len - tcp.headerLen)) (.ok ⟨rfl, rfl⟩) ?_
          rintro _ _ ⟨rfl, rfl⟩
          have hend := (dataClosed_drift a _ _ _).finishSegment hstack.anySegment
            (drift_afterAck (k := k) haddr tcp.seq tcp.ack (len - tcp.headerLen)) tcp bytes len
            (tcp.ack + k)
          rw [← hconn] at hend
          have hnone := hend.of_not_ok (q := fun _ _ => False) fun z hz =>
            hfit (payloadFits_afterAck.mp (finishSegment_ok_iff.mp ⟨z, hz⟩))
          exact hnone.bind fun _ _ h => h.elim

/-! ### `handle_wait_for_ack_state` -/

/-- The handler with an entry in the queue always returns. -/
theorem handleWaitForAckState_ok (tcp : TcpHeader) (hc : s.deref a = .ok c)
    {e : RetransmitEntry} {es : List RetransmitEntry} (hq : c.retransmitQueue = e :: es) :
    ∃ s', handleWaitForAckState s a tcp = .ok s' := by
  have haddr := (deref_eq_ok hc).2
  rw [handleWaitForAckState, hc]
  simp only [bind, Except.bind, hq]
  by_cases hfull : e.expectedAck ≤ tcp.ack
  · simp only [if_pos hfull]
    by_cases hlast : es = [] ∧ c.queueWild = false
    · rw [if_pos hlast]
      exact ⟨_, removeConnection_eq (c := { c with retransmitQueue := es })
        (deref_setConn hc haddr) hlast.2⟩
    · rw [if_neg hlast]
      exact ⟨_, rfl⟩
  · simp only [if_neg hfull]
    split_ifs
    · exact ⟨_, rfl⟩
    · exact ⟨_, rfl⟩
    · exact ⟨_, rfl⟩

/-- The block shows what the handler did: the entry is gone, or the count of duplicates stayed,
or it changed. -/
theorem handleWaitForAckState_shows {tcp : TcpHeader} (hc : s.deref a = .ok c)
    {e : RetransmitEntry} {es : List RetransmitEntry} (hq : c.retransmitQueue = e :: es)
    (h : handleWaitForAckState s a tcp = .ok s') :
    (e.expectedAck ≤ tcp.ack → ∀ d, s'.deref a = .ok d → d.retransmitQueue.length = es.length) ∧
    (¬ e.expectedAck ≤ tcp.ack → ∃ d, s'.deref a = .ok d ∧
      es.length < d.retransmitQueue.length ∧
        (d.dupAckCount = c.dupAckCount ↔ c.lastAck < tcp.ack)) := by
  have haddr := (deref_eq_ok hc).2
  have hread {s₁ : TcpStack} {d : TcpConnection} (h₁ : s₁.deref a = s.deref a)
      (hd : d.addr = c.addr) : (s₁.setConn d).deref a = .ok d :=
    deref_setConn (h₁.trans hc) (hd.trans haddr)
  have hsucc (count : UInt8) : count + 1 ≠ count := by
    intro heq
    simp at heq
  obtain ⟨hfull, -, hrem⟩ | ⟨hfull, rfl⟩ | ⟨hfull, hpart, rfl⟩ |
      ⟨hfull, hpart, hthree, x, hx, rfl⟩ | ⟨hfull, hpart, -, rfl⟩ :=
    handleWaitForAckState_eq_ok hc hq h
  · -- the connection is gone
    refine ⟨fun _ d hd => ?_, fun hnot => absurd hfull hnot⟩
    obtain ⟨f, -, -, rfl⟩ := exists_of_removeConnection hrem
    obtain ⟨hmem, hd⟩ := deref_eq_ok hd
    exact absurd hd (bne_iff_ne.mp (List.mem_filter.mp hmem).2)
  · refine ⟨fun _ d hd => ?_, fun hnot => absurd hfull hnot⟩
    have heq := (hread (d := { c with retransmitQueue := es }) rfl rfl).symm.trans hd
    rw [← Except.ok.inj heq]
  · refine ⟨fun h => absurd h hfull, fun _ => ⟨_, hread rfl rfl, Nat.lt_succ_self _, ?_⟩⟩
    exact iff_of_true rfl hpart
  · refine ⟨fun h => absurd h hfull, fun _ => ⟨_, hread ?_ ?_, ?_, iff_of_false ?_ hpart⟩⟩
    · rw [hx, deref_tcpSendSegment]
    · simp [hx]
    · have hle := length_le_tcpSendSegment s { c with dupAckCount := c.dupAckCount + 1 } e.flags
        e.data e.length
      rw [← hx] at hle
      exact Nat.lt_of_lt_of_le (hq ▸ Nat.lt_succ_self _) hle
    · intro hzero
      have hzero : 0 = c.dupAckCount := hzero
      rw [← hzero] at hthree
      exact absurd hthree (by decide)
  · refine ⟨fun h => absurd h hfull, fun _ => ⟨_, hread rfl rfl, ?_, ?_⟩⟩
    · rw [hq]
      exact Nat.lt_succ_self _
    · exact iff_of_false (hsucc _) hpart

/-- **The handler of `TCP_WAIT_FOR_ACK`.** -/
theorem translatesBy_handleWaitForAckState_iff (hc : s.deref a = .ok c) (tcp : TcpHeader) :
    TranslatesBy k a (fun s tcp => handleWaitForAckState s a tcp) s tcp ↔
      WaitAgrees k tcp.ack c := by
  constructor
  · intro h e es hq
    have haddr := (deref_eq_ok hc).2
    have hc' : (s.shift a k).deref a = .ok (shiftConn a k c) := by
      rw [deref_shift, hc]
      rfl
    have hq' : (shiftConn a k c).retransmitQueue = shiftEntry k e :: es.map (shiftEntry k) := by
      rw [shiftConn_of_addr haddr, hq, List.map_cons]
    obtain ⟨s', hs⟩ := handleWaitForAckState_ok tcp hc hq
    obtain ⟨t', ht⟩ := handleWaitForAckState_ok { tcp with ack := tcp.ack + k } hc' hq'
    obtain ⟨hfull, hrest⟩ := handleWaitForAckState_shows hc hq hs
    obtain ⟨hfull', hrest'⟩ := handleWaitForAckState_shows hc' hq' ht
    rw [TranslatesBy, hs, ht] at h
    obtain rfl : t' = s'.shift a k := Except.ok.inj h
    rw [expectedAck_shiftEntry, List.length_map] at hfull' hrest'
    have hblock {d : TcpConnection} (hd : s'.deref a = .ok d) :
        (s'.shift a k).deref a = .ok (shiftConn a k d) ∧
          (shiftConn a k d).retransmitQueue.length = d.retransmitQueue.length ∧
            (shiftConn a k d).dupAckCount = d.dupAckCount := by
      refine ⟨by rw [deref_shift, hd]; rfl, ?_⟩
      rw [shiftConn_of_addr (deref_eq_ok hd).2]
      exact ⟨List.length_map _, rfl⟩
    by_cases hle : e.expectedAck ≤ tcp.ack
    · refine ⟨⟨fun _ => hle, fun _ => ?_⟩, fun hnot => absurd hle hnot⟩
      by_contra hle'
      obtain ⟨d', hd', hlt, -⟩ := hrest' hle'
      rw [deref_shift] at hd'
      cases hd : s'.deref a with
      | error fault =>
          rw [hd] at hd'
          cases hd'
      | ok d =>
          obtain ⟨hshift, hlen, -⟩ := hblock hd
          rw [← deref_shift, hshift] at hd'
          rw [← Except.ok.inj hd', hlen, hfull hle d hd] at hlt
          exact absurd hlt (Nat.lt_irrefl _)
    · obtain ⟨d, hd, hlt, hdup⟩ := hrest hle
      obtain ⟨hshift, hlen, hcount⟩ := hblock hd
      have hle' : ¬ e.expectedAck + k ≤ tcp.ack + k := by
        intro hle'
        rw [← hfull' hle' _ hshift, hlen] at hlt
        exact absurd hlt (Nat.lt_irrefl _)
      obtain ⟨d', hd', -, hdup'⟩ := hrest' hle'
      obtain rfl : shiftConn a k d = d' := Except.ok.inj (hshift.symm.trans hd')
      refine ⟨iff_of_false hle' hle, fun _ => ?_⟩
      rw [← hdup, ← hcount]
      rw [shiftConn_of_addr haddr] at hdup'
      exact hdup'.symm
  · intro hagrees
    rw [translatesBy_iff]
    refine (ackClosed_shift a k).handleWaitForAckState (stackRel_shift.mpr rfl) tcp fun d hd => ?_
    rwa [← Except.ok.inj (hc.symm.trans hd)]

/-! ### The three handlers -/

/-- **Translation of sequence space.** `handle_established_state`, which is called for connections
in `TCP_ESTABLISHED`, and `handle_wait_for_ack_state` respect a translation if and only if their
comparisons come out alike; `handle_last_ack_state` always does. -/
theorem translation_iff (s : TcpStack) (haddr : Addressed s) (a : ℕ) (c : TcpConnection)
    (hc : s.deref a = .ok c) (k : UInt32) (tcp : TcpHeader) (bytes : ℕ → UInt8) (len : UInt16) :
    (c.state = .established →
      (TranslatesBy k a (fun s tcp => handleEstablishedState s a tcp bytes len) s tcp ↔
        EstablishedAgrees k s a tcp bytes len)) ∧
    (TranslatesBy k a (fun s tcp => handleWaitForAckState s a tcp) s tcp ↔
      WaitAgrees k tcp.ack c) ∧
    TranslatesBy k a (fun s tcp => handleLastAckState s a tcp) s tcp := by
  refine ⟨fun hstate => ?_, translatesBy_handleWaitForAckState_iff hc tcp, ?_⟩
  · refine translatesBy_handleEstablishedState_iff (fun s' d hs hd => ?_) tcp bytes len
    obtain ⟨hmem, haddr'⟩ := deref_eq_ok hd
    have hcore : d.core.state = c.core.state := congrArg TcpConnection.state
      (core_checkTcpTimers haddr hs (deref_eq_ok hc).1 hmem
        (haddr'.trans (deref_eq_ok hc).2.symm))
    have hest : d.state = .established := hcore.trans hstate
    rw [hest]
    decide
  · rw [translatesBy_iff]
    exact (ackClosed_shift a k).handleLastAckState (stackRel_shift.mpr rfl) tcp

/-- A connection with the numbers up to 10 in use. -/
def aheadOfAck : TcpStack :=
  { TcpStack.boot 0 0x0A00020F none [] with
    connectionList := [{ resetBlock 0x0A000202 0x0A00020F (peerSegment 1 10 0 []).header with
      addr := 1, expectedAck := 1, state := .established }]
    nextAddr := 2 }

theorem addressed_aheadOfAck : Addressed aheadOfAck where
  nodup := List.nodup_singleton _
  bound := by
    intro c hc
    rw [List.mem_singleton.mp hc]
    decide
  fresh := by decide

/-- A translation that stays clear of the wrap. -/
theorem translation_iff_aheadOfAck :
    TranslatesBy 5 1 (fun s tcp =>
        handleEstablishedState s 1 tcp (peerSegment 1 5 tcpAck []).bytes 20) aheadOfAck
        (peerSegment 1 5 tcpAck []).header ↔
      EstablishedAgrees 5 aheadOfAck 1 (peerSegment 1 5 tcpAck []).header
        (peerSegment 1 5 tcpAck []).bytes 20 :=
  (translation_iff aheadOfAck addressed_aheadOfAck 1 _ rfl 5 _ _ 20).1 rfl

/-- An old acknowledgement is taken for one of data never sent, once the two numbers lie on
either side of the wrap. -/
theorem translation_violated :
    ¬ ∀ s, Addressed s → ∀ a c, s.deref a = .ok c → c.state = .established →
      ∀ k tcp bytes len,
        TranslatesBy k a (fun s tcp => handleEstablishedState s a tcp bytes len) s tcp := by
  intro hall
  have heq := hall aheadOfAck addressed_aheadOfAck 1 _ rfl rfl 0xFFFFFFF8
    (peerSegment 1 5 tcpAck []).header (peerSegment 1 5 tcpAck []).bytes 20
  rw [TranslatesBy] at heq
  exact absurd heq (by decide +kernel)

end HalOS
