import HalOS.Net.TcpFrame
import HalOS.Net.TcpWire

/-!
# The Received Stream

`handle_established_state` appends the payload of every segment to `recv_buffer` and sets
`expected_ack` behind it, wherever in the peer's stream the payload comes from. What has been
received is a prefix of the stream as long as each segment continues where the ones before it
ended.

## Main results

* `inOrder_iff_continues`: the buffer and the acknowledgements follow the stream if and only if the
  segments do.
-/

namespace HalOS

open Outcome (Steps bind_eq_ok exists_eq_ok_of_any)

/-! ### Arrivals -/

/-- A segment that arrives for a connection, and the tick count at the time. -/
structure Arrival where
  ticks : UInt32
  tcp : TcpHeader
  bytes : ℕ → UInt8
  len : UInt16

namespace Arrival

/-- `data_len`. -/
def dataLen (x : Arrival) : UInt16 := x.len - x.tcp.headerLen

def payload (x : Arrival) : List UInt8 := bytesAt x.bytes x.tcp.headerLen.toNat x.dataLen.toNat

/-- The handler of `TCP_ESTABLISHED` runs. -/
def receive (conn : ℕ) (s : TcpStack) (x : Arrival) : Except Fault TcpStack :=
  handleEstablishedState { s with ticks := x.ticks } conn x.tcp x.bytes x.len

/-- The payload is what the stream has at `offset`. -/
def SliceAt (x : Arrival) (stream : List UInt8) (offset : ℕ) : Prop :=
  x.payload = (stream.drop offset).take x.dataLen.toNat

instance (x : Arrival) (stream : List UInt8) (offset : ℕ) : Decidable (x.SliceAt stream offset) :=
  inferInstanceAs (Decidable (_ = _))

/-- A data segment of the stream that starts at the number `start`. -/
structure CutFrom (x : Arrival) (start : UInt32) (stream : List UInt8) : Prop where
  slice : ∃ offset, x.tcp.seq = start + UInt32.ofNat offset ∧ x.SliceAt stream offset
  data : x.dataLen ≠ 0
  notGet : isHttpGetRequest x.payload = false
  notFin : hasFlag x.tcp.flags tcpFin = false

end Arrival

/-- The bytes that the segments carry, in the order of arrival. -/
def received (arrivals : List Arrival) : List UInt8 := (arrivals.map (·.payload)).flatten

/-- The segment starts where the ones before it ended, and has the stream's bytes there. -/
def Continues (start : UInt32) (stream : List UInt8) (before : List Arrival) (x : Arrival) :
    Prop :=
  x.tcp.seq = start + UInt32.ofNat (received before).length ∧
    x.SliceAt stream (received before).length

instance (start : UInt32) (stream : List UInt8) (before : List Arrival) (x : Arrival) :
    Decidable (Continues start stream before x) := inferInstanceAs (Decidable (_ ∧ _))

/-- The numbers that segments of the connection acknowledge. -/
def acksOf (conn : ℕ) (sent : List TcpSegment) : List UInt32 :=
  (sent.filter fun seg => seg.owner == conn).map (·.ack)

/-- Between the states, a part of the stream was received in order: behind the bytes that were
there at the start the buffer has a prefix of the stream, and every segment that was sent
acknowledges the prefix from before or from after, the last one the prefix from after. -/
def InOrder (conn : ℕ) (c : TcpConnection) (stream : List UInt8) (s s' : TcpStack) : Prop :=
  ∃ d d' before after more, s.deref conn = .ok d ∧ s'.deref conn = .ok d' ∧
    d.recvBuffer = c.recvBuffer ++ before ∧ d'.recvBuffer = c.recvBuffer ++ after ∧
    after <+: stream ∧ s'.sent = s.sent ++ more ∧
    (∀ ack ∈ acksOf conn more, ack = c.expectedAck + UInt32.ofNat before.length ∨
      ack = c.expectedAck + UInt32.ofNat after.length) ∧
    (acksOf conn more).getLast? = some (c.expectedAck + UInt32.ofNat after.length)

variable {s s' : TcpStack} {c d : TcpConnection} {conn : ℕ} {x : Arrival}

theorem Arrival.length_payload (x : Arrival) : x.payload.length = x.dataLen.toNat := by
  rw [Arrival.payload, bytesAt, List.length_map, List.length_range]

theorem acksOf_append (conn : ℕ) (sent more : List TcpSegment) :
    acksOf conn (sent ++ more) = acksOf conn sent ++ acksOf conn more := by
  rw [acksOf, List.filter_append, List.map_append]
  rfl

theorem acksOf_singleton {seg : TcpSegment} (h : seg.owner = conn) :
    acksOf conn [seg] = [seg.ack] := by
  simp [acksOf, h]

theorem mem_acksOf {sent : List TcpSegment} {ack : UInt32} :
    ack ∈ acksOf conn sent ↔ ∃ seg ∈ sent, seg.owner = conn ∧ seg.ack = ack := by
  simp [acksOf, and_assoc]

theorem received_append (before : List Arrival) (x : Arrival) :
    received (before ++ [x]) = received before ++ x.payload := by
  rw [received, List.map_append, List.flatten_append]
  exact congrArg (received before ++ ·) (List.append_nil _)

/-! ### One segment -/

/-- While the connection waits for data, what the timer check sends for it acknowledges what the
connection expects. -/
theorem sendInvariant_acks (conn : ℕ) (ack : UInt32) :
    SendInvariant (fun d => d.addr = conn → d.expectedAck = ack)
      fun seg => seg.owner = conn → seg.ack = ack where
  sent := fun h _ _ => h
  afterSend := fun h _ _ _ _ _ => h
  retried := fun h _ _ _ _ => h

/-- Fast retransmission acknowledges what the connection expects. -/
theorem fastRetransmit_sends {ack : UInt32} {c' : TcpConnection}
    (h : fastRetransmit s c ack = .ok (s', c')) :
    ∃ more, s'.sent = s.sent ++ more ∧ (∀ seg ∈ more, seg.ack = c.expectedAck) ∧
      s'.connectionList = s.connectionList ∧ c'.addr = c.addr ∧ c'.state = c.state ∧
      c'.recvBuffer = c.recvBuffer := by
  obtain ⟨-, rfl, rfl⟩ | ⟨-, -, rfl, rfl⟩ | ⟨-, -, e, es, -, hsend⟩ := fastRetransmit_eq_ok h
  · exact ⟨[], (List.append_nil _).symm, fun _ hseg => absurd hseg List.not_mem_nil,
      rfl, rfl, rfl, rfl⟩
  · exact ⟨[], (List.append_nil _).symm, fun _ hseg => absurd hseg List.not_mem_nil,
      rfl, rfl, rfl, rfl⟩
  · rw [tcpSendSegment_eq, Prod.mk.injEq] at hsend
    obtain ⟨rfl, rfl⟩ := hsend
    refine ⟨_, rfl, fun seg hseg => ?_, rfl, rfl, rfl, rfl⟩
    rw [List.mem_singleton.mp hseg]
    rfl

/-- A length in 16 bits does not vanish in a sequence number. -/
theorem add_toUInt32_ne {dataLen : UInt16} (h : dataLen ≠ 0) (seq : UInt32) :
    seq ≠ seq + dataLen.toUInt32 := by
  intro heq
  have hzero : dataLen.toUInt32 = 0 := by
    rwa [eq_comm, UInt32.add_eq_left] at heq
  have hnat := congrArg UInt32.toNat hzero
  rw [UInt16.toNat_toUInt32] at hnat
  exact h (UInt16.toNat_inj.mp hnat)

/-- **What is done about a data segment.** The payload goes behind what is there, whatever its
number. -/
theorem receive_eq_ok (haddr : Addressed s) (hc : s.deref conn = .ok c)
    (hstate : c.state = .established) (hdata : x.dataLen ≠ 0)
    (hget : isHttpGetRequest x.payload = false) (hfin : hasFlag x.tcp.flags tcpFin = false)
    (h : x.receive conn s = .ok s') :
    ∃ c' more, s'.deref conn = .ok c' ∧ c'.state = .established ∧
      c'.recvBuffer = c.recvBuffer ++ x.payload ∧
      c'.expectedAck = x.tcp.seq + x.dataLen.toUInt32 ∧ s'.sent = s.sent ++ more ∧
      (∀ ack ∈ acksOf conn more,
        ack = c.expectedAck ∨ ack = x.tcp.seq + x.dataLen.toUInt32) ∧
      (acksOf conn more).getLast? = some (x.tcp.seq + x.dataLen.toUInt32) := by
  obtain ⟨s₁, c₁, s₂, c₂, c₃, y, z, htimers, hc₁, hfast, hack, hy, hz, rfl⟩ :=
    handleEstablishedState_eq_ok h
  have haddr₁ : Addressed { s with ticks := x.ticks } := ⟨haddr.nodup, haddr.bound, haddr.fresh⟩
  have hcore : c₁.core = c.core := core_checkTcpTimers haddr₁ htimers (deref_eq_ok hc).1
    (deref_eq_ok hc₁).1 ((deref_eq_ok hc₁).2.trans (deref_eq_ok hc).2.symm)
  have hexpected : c₁.expectedAck = c.expectedAck := congrArg (·.expectedAck) hcore
  have hstate₁ : c₁.state = .established := (congrArg (·.state) hcore).trans hstate
  -- the timer check and fast retransmission
  obtain ⟨-, more₁, hsent₁, hacks₁⟩ := (sendInvariant_acks conn c.expectedAck).sends_checkTcpTimers
    htimers fun d hd heq => by
      rw [List.inj_on_of_nodup_map haddr.nodup hd (deref_eq_ok hc).1
        (heq.trans (deref_eq_ok hc).2.symm)]
  rw [reestablish_of_established hstate₁] at hfast
  obtain ⟨more₂, hsent₂, hacks₂, hlist₂, haddr₂, hstate₂, hbuffer₂⟩ := fastRetransmit_sends hfast
  -- the two acknowledgements
  have hlen : x.len - x.tcp.headerLen = x.dataLen := rfl
  rw [hlen] at hack hz
  obtain ⟨-, rfl⟩ := processAck_eq_ok.mp hack
  have hfar : x.tcp.seq ≠ (c₂.afterAck x.tcp.seq x.tcp.ack x.dataLen).expectedAck :=
    add_toUInt32_ne hdata _
  rw [if_pos hfar] at hy
  obtain ⟨hzero, -⟩ | ⟨-, hreq, -⟩ | ⟨-, -, -, hz⟩ := @receiveData_eq_ok _ z.1 _ z.2 _ _ _ hz
  · exact absurd hzero hdata
  · exact absurd (hreq.symm.trans hget) Bool.noConfusion
  have hquiet : handleFin z.1 z.2 x.tcp.flags = z := by
    rw [handleFin, hfin]
    rfl
  rw [hquiet]
  rw [tcpSendSegment_eq] at hy hz
  rw [Prod.mk.injEq] at hz
  obtain ⟨hz₁, hz₂⟩ := hz
  subst hy
  have hconn : c₂.addr = conn := haddr₂.trans (deref_eq_ok hc₁).2
  have hread : z.1.deref conn = .ok c₁ := by
    rw [hz₁, TcpStack.deref]
    exact hlist₂ ▸ hc₁
  obtain ⟨g, g', hg, hack, hg', hack', hsent₃⟩ : ∃ g g' : TcpSegment, g.owner = conn ∧
      g.ack = x.tcp.seq + x.dataLen.toUInt32 ∧ g'.owner = conn ∧
      g'.ack = x.tcp.seq + x.dataLen.toUInt32 ∧ z.1.sent = s₂.sent ++ [g] ++ [g'] := by
    rw [hz₁]
    exact ⟨_, _, hconn, rfl, hconn, rfl, rfl⟩
  have hacks : acksOf conn (more₁ ++ more₂ ++ [g] ++ [g']) =
      acksOf conn (more₁ ++ more₂) ++ [g.ack] ++ [g'.ack] := by
    rw [acksOf_append, acksOf_append, acksOf_singleton hg, acksOf_singleton hg']
  refine ⟨z.2, more₁ ++ more₂ ++ [g] ++ [g'], deref_setConn hread ?_, ?_, ?_, ?_, ?_, ?_, ?_⟩
  · rw [hz₂]
    exact hconn
  · rw [hz₂]
    exact hstate₂.trans hstate₁
  · rw [hz₂]
    exact congrArg (· ++ x.payload) (hbuffer₂.trans (congrArg (·.recvBuffer) hcore))
  · rw [hz₂]
    rfl
  · rw [TcpStack.setConn, hsent₃, hsent₂, hsent₁]
    simp only [List.append_assoc]
  · intro ack hmem
    rw [hacks, List.mem_append, List.mem_append, List.mem_singleton, List.mem_singleton] at hmem
    obtain (hold | rfl) | rfl := hmem
    · obtain ⟨seg, hseg, hown, rfl⟩ := mem_acksOf.mp hold
      obtain hseg | hseg := List.mem_append.mp hseg
      · exact Or.inl (hacks₁ seg hseg hown)
      · exact Or.inl ((hacks₂ seg hseg).trans hexpected)
    · exact Or.inr hack
    · exact Or.inr hack'
  · rw [hacks, List.getLast?_append, hack']
    rfl

/-! ### Runs of segments -/

variable {arrivals before : List Arrival} {stream : List UInt8}

/-- Each segment of the list continues the stream. -/
def ContinueInTurn (start : UInt32) (stream : List UInt8) (arrivals : List Arrival) : Prop :=
  ∀ before x after, arrivals = before ++ x :: after → Continues start stream before x

/-- Each segment of the list is received in order. -/
def DeliversInOrder (conn : ℕ) (c : TcpConnection) (stream : List UInt8) (s : TcpStack)
    (arrivals : List Arrival) : Prop :=
  ∀ before x after, arrivals = before ++ x :: after → ∀ s₁ s₂,
    before.foldlM (Arrival.receive conn) s = .ok s₁ → x.receive conn s₁ = .ok s₂ →
      InOrder conn c stream s₁ s₂

theorem ContinueInTurn.of_append {start : UInt32} {more : List Arrival}
    (h : ContinueInTurn start stream (arrivals ++ more)) : ContinueInTurn start stream arrivals :=
  fun before x after heq => h before x (after ++ more) (by rw [heq, List.append_assoc]; rfl)

/-- One segment more. -/
theorem ContinueInTurn.concat {start : UInt32} (h : ContinueInTurn start stream arrivals)
    (hx : Continues start stream arrivals x) : ContinueInTurn start stream (arrivals ++ [x]) := by
  intro before y after heq
  obtain rfl | ⟨rest, z, rfl⟩ := List.eq_nil_or_concat after
  · obtain ⟨rfl, hxy⟩ := List.append_inj' heq rfl
    rwa [← List.singleton_inj.mp hxy]
  · rw [List.concat_eq_append, ← List.cons_append, ← List.append_assoc] at heq
    exact h before y rest (List.append_inj' heq rfl).1

theorem DeliversInOrder.of_append {more : List Arrival}
    (h : DeliversInOrder conn c stream s (arrivals ++ more)) :
    DeliversInOrder conn c stream s arrivals :=
  fun before x after heq => h before x (after ++ more) (by rw [heq, List.append_assoc]; rfl)

theorem Addressed.receive (haddr : Addressed s) (h : x.receive conn s = .ok s') : Addressed s' :=
  Addressed.frame (s := { s with ticks := x.ticks }) ⟨haddr.nodup, haddr.bound, haddr.fresh⟩
    (frame_handleEstablishedState h)

/-- A prefix goes on as a prefix if what comes next is what the list has there. -/
theorem append_prefix_iff {l m stream : List UInt8} (h : l <+: stream) :
    l ++ m <+: stream ↔ m = (stream.drop l.length).take m.length := by
  obtain ⟨rest, rfl⟩ := h
  rw [List.prefix_append_right_inj, List.drop_left, List.prefix_iff_eq_take]

theorem Arrival.slice_iff (x : Arrival) (h : received before <+: stream) :
    x.SliceAt stream (received before).length ↔ received (before ++ [x]) <+: stream := by
  rw [received_append, append_prefix_iff h, x.length_payload]
  rfl

/-- The number behind a payload that starts `n` bytes into the stream. -/
theorem Arrival.next_number (x : Arrival) (start : UInt32) (n : ℕ) :
    start + UInt32.ofNat (n + x.payload.length) = start + UInt32.ofNat n + x.dataLen.toUInt32 := by
  have hlen : UInt32.ofNat x.payload.length = x.dataLen.toUInt32 := by
    rw [x.length_payload]
    exact UInt32.toNat_inj.mp (by simp)
  rw [UInt32.ofNat_add, hlen, UInt32.add_assoc]

/-- What a run leaves: every payload is in the buffer, in the order of arrival, and if the
segments continue the stream the connection expects what comes next. -/
theorem receive_run (haddr : Addressed s) (hc : s.deref conn = .ok c)
    (hstate : c.state = .established)
    (hcut : ∀ x ∈ arrivals, x.CutFrom c.expectedAck stream)
    (hrun : arrivals.foldlM (Arrival.receive conn) s = .ok s') :
    Addressed s' ∧ ∃ c', s'.deref conn = .ok c' ∧ c'.state = .established ∧
      c'.recvBuffer = c.recvBuffer ++ received arrivals ∧
      (ContinueInTurn c.expectedAck stream arrivals →
        c'.expectedAck = c.expectedAck + UInt32.ofNat (received arrivals).length ∧
          received arrivals <+: stream) := by
  induction arrivals using List.reverseRecOn generalizing s' with
  | nil =>
      cases hrun
      exact ⟨haddr, c, hc, hstate, (List.append_nil _).symm,
        fun _ => ⟨(UInt32.add_zero _).symm, List.nil_prefix⟩⟩
  | append_singleton arrivals x ih =>
      rw [List.foldlM_append] at hrun
      obtain ⟨t, ht, hrun⟩ := bind_eq_ok.mp hrun
      obtain ⟨u, hu, hrun⟩ := bind_eq_ok.mp hrun
      cases hrun
      obtain ⟨haddr₁, c₁, hc₁, hstate₁, hbuffer₁, hturn₁⟩ :=
        ih (fun y hy => hcut y (List.mem_append_left _ hy)) ht
      have hx := hcut x (List.mem_append_right _ List.mem_cons_self)
      obtain ⟨c', more, hc', hstate', hbuffer', hexpected', -⟩ :=
        receive_eq_ok haddr₁ hc₁ hstate₁ hx.data hx.notGet hx.notFin hu
      refine ⟨haddr₁.receive hu, c', hc', hstate', ?_, fun hturn => ?_⟩
      · rw [hbuffer', hbuffer₁, received_append, List.append_assoc]
      · obtain ⟨hseq, hslice⟩ := hturn arrivals x [] rfl
        obtain ⟨-, hprefix⟩ := hturn₁ hturn.of_append
        refine ⟨?_, (x.slice_iff hprefix).mp hslice⟩
        rw [hexpected', hseq, received_append, List.length_append, x.next_number]

/-- What arrives in order has been sent in order. -/
theorem continues_of_delivers (haddr : Addressed s) (hc : s.deref conn = .ok c)
    (hstate : c.state = .established)
    (hcut : ∀ x ∈ arrivals, x.CutFrom c.expectedAck stream)
    (hrun : arrivals.foldlM (Arrival.receive conn) s = .ok s')
    (hdeliver : DeliversInOrder conn c stream s arrivals) :
    ContinueInTurn c.expectedAck stream arrivals := by
  induction arrivals using List.reverseRecOn generalizing s' with
  | nil => exact fun before x after heq => absurd heq (by simp)
  | append_singleton arrivals x ih =>
      rw [List.foldlM_append] at hrun
      obtain ⟨t, ht, hrun⟩ := bind_eq_ok.mp hrun
      obtain ⟨u, hu, -⟩ := bind_eq_ok.mp hrun
      have hold := fun y hy => hcut y (List.mem_append_left [x] hy)
      have hturn := ih hold ht hdeliver.of_append
      refine hturn.concat ?_
      obtain ⟨haddr₁, c₁, hc₁, hstate₁, hbuffer₁, hrest₁⟩ := receive_run haddr hc hstate hold ht
      obtain ⟨hexpected₁, hprefix₁⟩ := hrest₁ hturn
      have hx := hcut x (List.mem_append_right _ List.mem_cons_self)
      obtain ⟨c₂, more, hc₂, -, hbuffer₂, -, hsent₂, -, hlast₂⟩ :=
        receive_eq_ok haddr₁ hc₁ hstate₁ hx.data hx.notGet hx.notFin hu
      obtain ⟨d, d', was, is, more', hd, hd', hwas, his, hstream, hsent', -, hlast'⟩ :=
        hdeliver arrivals x [] rfl t u ht hu
      obtain rfl := Except.ok.inj (hc₂.symm.trans hd')
      obtain rfl : more = more' := List.append_cancel_left (hsent₂.symm.trans hsent')
      obtain rfl : is = received (arrivals ++ [x]) := by
        rw [hbuffer₂, hbuffer₁, List.append_assoc, ← received_append] at his
        exact (List.append_cancel_left his).symm
      refine ⟨?_, (x.slice_iff hprefix₁).mpr hstream⟩
      have hnumber := Option.some.inj (hlast₂.symm.trans hlast')
      rw [received_append, List.length_append, x.next_number] at hnumber
      exact (UInt32.add_left_inj _).mp hnumber

/-- What is sent in order arrives in order. -/
theorem delivers_of_continues (haddr : Addressed s) (hc : s.deref conn = .ok c)
    (hstate : c.state = .established)
    (hcut : ∀ x ∈ arrivals, x.CutFrom c.expectedAck stream)
    (hturn : ContinueInTurn c.expectedAck stream arrivals) :
    DeliversInOrder conn c stream s arrivals := by
  rintro before x after rfl s₁ s₂ hs₁ hs₂
  have hturn₁ : ContinueInTurn c.expectedAck stream before := hturn.of_append
  obtain ⟨haddr₁, c₁, hc₁, hstate₁, hbuffer₁, hrest₁⟩ := receive_run haddr hc hstate
    (fun y hy => hcut y (List.mem_append_left _ hy)) hs₁
  obtain ⟨hexpected₁, hprefix₁⟩ := hrest₁ hturn₁
  have hx := hcut x (List.mem_append_right _ List.mem_cons_self)
  obtain ⟨c₂, more, hc₂, -, hbuffer₂, hexpected₂, hsent₂, hacks₂, hlast₂⟩ :=
    receive_eq_ok haddr₁ hc₁ hstate₁ hx.data hx.notGet hx.notFin hs₂
  obtain ⟨hseq, hslice⟩ := hturn before x after rfl
  have hnext : x.tcp.seq + x.dataLen.toUInt32 =
      c.expectedAck + UInt32.ofNat (received (before ++ [x])).length := by
    rw [hseq, received_append, List.length_append, x.next_number]
  refine ⟨c₁, c₂, received before, received (before ++ [x]), more, hc₁, hc₂, hbuffer₁, ?_,
    (x.slice_iff hprefix₁).mp hslice, hsent₂, ?_, ?_⟩
  · rw [hbuffer₂, hbuffer₁, received_append, List.append_assoc]
  · rw [← hnext, ← hexpected₁]
    exact hacks₂
  · rw [← hnext]
    exact hlast₂

/-- **In-order delivery.** In every run of segments of one stream, the buffer and the
acknowledgements follow the stream if and only if each segment starts where the ones before it
ended. -/
theorem inOrder_iff_continues (haddr : Addressed s) (hc : s.deref conn = .ok c)
    (hstate : c.state = .established)
    (hcut : ∀ x ∈ arrivals, x.CutFrom c.expectedAck stream)
    (hrun : arrivals.foldlM (Arrival.receive conn) s = .ok s') :
    DeliversInOrder conn c stream s arrivals ↔ ContinueInTurn c.expectedAck stream arrivals :=
  ⟨continues_of_delivers haddr hc hstate hcut hrun,
    delivers_of_continues haddr hc hstate hcut⟩

/-- A byte of the peer. -/
def byteArrives (seq : UInt32) (byte : UInt8) : Arrival where
  ticks := 0
  tcp := (peerSegment seq 1 tcpAck [byte]).header
  bytes := (peerSegment seq 1 tcpAck [byte]).bytes
  len := 21

/-- The connection of the peer is open and `s'` is reached when the segments have arrived. -/
def Opened (arrivals : List Arrival) (s : TcpStack) (c : TcpConnection) (s' : TcpStack) : Prop :=
  Steps TcpEvent.next (fun _ _ => True) (.boot 0 0x0A00020F none []) s ∧ s.deref 1 = .ok c ∧
    c.state = .established ∧ c.expectedAck = 1 ∧ arrivals.foldlM (Arrival.receive 1) s = .ok s'

theorem Opened.addressed {s' : TcpStack} (h : Opened arrivals s c s') : Addressed s :=
  h.1.invariant (addressed_boot ..) fun _ _ _ h _ hs => h.next hs

/-- A test of both runs. -/
theorem exists_opened (arrivals : List Arrival)
    (h : ((peerOpens.foldlM TcpEvent.next (.boot 0 0x0A00020F none [])).toOption.any fun s =>
      (s.deref 1).toOption.any (fun c => c.state == .established && c.expectedAck == 1) &&
        (arrivals.foldlM (Arrival.receive 1) s).toOption.any fun _ => true) = true) :
    ∃ s c s', Opened arrivals s c s' := by
  obtain ⟨s, hs, htest⟩ := exists_eq_ok_of_any h
  obtain ⟨hread, hrun⟩ := Bool.and_eq_true_iff.mp htest
  obtain ⟨c, hc, hfields⟩ := exists_eq_ok_of_any hread
  obtain ⟨s', hs', -⟩ := exists_eq_ok_of_any hrun
  obtain ⟨hstate, hexpected⟩ := Bool.and_eq_true_iff.mp hfields
  exact ⟨s, c, s', .of_foldlM hs, hc, beq_iff_eq.mp hstate, beq_iff_eq.mp hexpected, hs'⟩

theorem cutFrom_byteArrives_fst : (byteArrives 1 0x61).CutFrom 1 [0x61, 0x62] :=
  ⟨⟨0, by decide, by decide⟩, by decide, by decide, by decide⟩

theorem cutFrom_byteArrives_snd : (byteArrives 2 0x62).CutFrom 1 [0x61, 0x62] :=
  ⟨⟨1, by decide, by decide⟩, by decide, by decide, by decide⟩

/-- Two bytes arrive one after the other. -/
theorem inOrder_iff_continues_bytes :
    ∃ s c s', Opened [byteArrives 1 0x61, byteArrives 2 0x62] s c s' ∧
      DeliversInOrder 1 c [0x61, 0x62] s [byteArrives 1 0x61, byteArrives 2 0x62] := by
  obtain ⟨s, c, s', hopened⟩ := exists_opened [byteArrives 1 0x61, byteArrives 2 0x62]
    (by decide +kernel)
  obtain ⟨-, hc, hstate, hexpected, hrun⟩ := id hopened
  have hturn : ContinueInTurn 1 [0x61, 0x62] ([] ++ [byteArrives 1 0x61] ++ [byteArrives 2 0x62]) :=
    ContinueInTurn.concat (.concat (fun _ _ _ heq => absurd heq (by simp)) (by decide)) (by decide)
  refine ⟨s, c, s', hopened, (inOrder_iff_continues hopened.addressed hc hstate ?_ hrun).mpr ?_⟩
  · rw [hexpected]
    exact List.forall_mem_cons.mpr ⟨cutFrom_byteArrives_fst,
      List.forall_mem_singleton.mpr cutFrom_byteArrives_snd⟩
  · rw [hexpected]
    exact hturn

/-- A byte that arrives twice is received twice. -/
theorem inOrder_violated :
    ¬ ∀ s, Steps TcpEvent.next (fun _ _ => True) (.boot 0 0x0A00020F none []) s →
      ∀ conn c, s.deref conn = .ok c → c.state = .established →
        ∀ stream arrivals s', (∀ x ∈ arrivals, Arrival.CutFrom x c.expectedAck stream) →
          arrivals.foldlM (Arrival.receive conn) s = .ok s' →
            DeliversInOrder conn c stream s arrivals := by
  intro hall
  obtain ⟨s, c, s', hopened⟩ := exists_opened [byteArrives 1 0x61, byteArrives 1 0x61]
    (by decide +kernel)
  obtain ⟨hsteps, hc, hstate, hexpected, hrun⟩ := id hopened
  have hcut : ∀ x ∈ [byteArrives 1 0x61, byteArrives 1 0x61],
      x.CutFrom c.expectedAck [0x61, 0x62] := by
    rw [hexpected]
    exact List.forall_mem_cons.mpr ⟨cutFrom_byteArrives_fst,
      List.forall_mem_singleton.mpr cutFrom_byteArrives_fst⟩
  have hturn := continues_of_delivers hopened.addressed hc hstate hcut hrun
    (hall s hsteps 1 c hc hstate _ _ s' hcut hrun)
  have hsecond := hturn [byteArrives 1 0x61] (byteArrives 1 0x61) [] rfl
  rw [hexpected] at hsecond
  exact absurd hsecond (by decide)

end HalOS
