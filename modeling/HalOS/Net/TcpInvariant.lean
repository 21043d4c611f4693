import HalOS.Net.TcpLockstep

/-!
# Invariants of Single Control Blocks

A property of control blocks that sending and assignments keep, with a property of segments
that sending establishes, holds in every state: the lockstep rule for a stack and itself.

## Main results

* `SendInvariant.checkTcpTimers`: what the timer check keeps.
* `BlockInvariant.next`: what every event keeps.
-/

namespace HalOS

open List (Forall₂)

/-- Every control block satisfies `P`, and every segment that was sent satisfies `Q`. -/
structure Holds (P : TcpConnection → Prop) (Q : TcpSegment → Prop) (s : TcpStack) : Prop where
  blocks : ∀ c ∈ s.connectionList, P c
  segments : ∀ seg ∈ s.sent, Q seg

/-- Sending keeps `P` and logs segments that satisfy `Q`; so does raising a retry count. -/
structure SendInvariant (P : TcpConnection → Prop) (Q : TcpSegment → Prop) : Prop where
  sent : ∀ {c}, P c → ∀ flags data, Q (buildSegment c flags data)
  afterSend : ∀ {c}, P c → ∀ flags data dataLen queued,
    (queued = true → needsQueue flags dataLen = true) → P (c.afterSend flags data dataLen queued)
  retried : ∀ {c}, P c → ∀ retries e es, c.retransmitQueue = e :: es →
    P { c with retransmitQueue := { e with retries := retries } :: es }

/-- Everything the code does to a control block keeps `P`. -/
structure BlockInvariant (P : TcpConnection → Prop) (Q : TcpSegment → Prop) : Prop
    extends SendInvariant P Q where
  reset : ∀ srcIp dstIp tcp, Q (buildSegment (resetBlock srcIp dstIp tcp) tcpRst [])
  assign : ∀ {c}, P c → ∀ nextSeq expectedAck dupAckCount state lastAck,
    P { c with
      nextSeq := nextSeq
      expectedAck := expectedAck
      dupAckCount := dupAckCount
      state := state
      lastAck := lastAck }
  dropped : ∀ {c}, P c → ∀ queue, queue.Sublist c.retransmitQueue →
    P { c with retransmitQueue := queue }
  append : ∀ {c}, P c → ∀ payload, c.recvBuffer.length + payload.length ≤ recvBufferSize →
    P { c with recvBuffer := c.recvBuffer ++ payload }
  drained : ∀ {c}, P c → P { c with recvBuffer := [] }

variable {P : TcpConnection → Prop} {Q : TcpSegment → Prop} {s s' : TcpStack}

/-- Lists related by an equality are equal. -/
theorem forall₂_eq_and {α : Type} {p : α → Prop} {l l' : List α} :
    Forall₂ (fun a b => b = a ∧ p a) l l' ↔ l' = l ∧ ∀ a ∈ l, p a := by
  constructor
  · intro h
    induction h with
    | nil => exact ⟨rfl, fun a ha => absurd ha List.not_mem_nil⟩
    | cons hab _ ih =>
        obtain ⟨rfl, hp⟩ := hab
        exact ⟨by rw [ih.1], List.forall_mem_cons.mpr ⟨hp, ih.2⟩⟩
  · rintro ⟨rfl, hp⟩
    exact List.forall₂_same.mpr fun a ha => ⟨rfl, hp a ha⟩

theorem stackRel_iff_holds {t : TcpStack} :
    StackRel (fun c d => d = c ∧ P c) (fun a b => b = a ∧ Q a) s t ↔ t = s ∧ Holds P Q s := by
  constructor
  · rintro ⟨cs, ls, rfl, hc, hl⟩
    obtain ⟨rfl, hP⟩ := forall₂_eq_and.mp hc
    obtain ⟨rfl, hQ⟩ := forall₂_eq_and.mp hl
    exact ⟨rfl, hP, hQ⟩
  · rintro ⟨rfl, hP, hQ⟩
    exact ⟨_, _, rfl, forall₂_eq_and.mpr ⟨rfl, hP⟩, forall₂_eq_and.mpr ⟨rfl, hQ⟩⟩

theorem SendInvariant.sendClosed (H : SendInvariant P Q) :
    SendClosed (fun c d => d = c ∧ P c) (fun a b => b = a ∧ Q a) where
  addr := fun ⟨h, _⟩ => h ▸ rfl
  state := fun ⟨h, _⟩ => h ▸ rfl
  wild := fun ⟨h, _⟩ => h ▸ rfl
  queue := by
    rintro c d ⟨rfl, -⟩
    exact List.forall₂_same.mpr fun e _ => rfl
  sent := by
    rintro c d ⟨rfl, hP⟩ flags data
    exact ⟨rfl, H.sent hP flags data⟩
  afterSend := by
    rintro c d ⟨rfl, hP⟩ flags data dataLen queued hneed
    exact ⟨rfl, H.afterSend hP flags data dataLen queued hneed⟩
  retried := by
    rintro c d ⟨rfl, hP⟩ retries e es f fs he hf
    obtain ⟨rfl, rfl⟩ := List.cons.inj (he.symm.trans hf)
    exact ⟨rfl, H.retried hP retries e es he⟩

/-- The timer check keeps what sending keeps. -/
theorem SendInvariant.checkTcpTimers (H : SendInvariant P Q) (h : Holds P Q s)
    (hs : checkTcpTimers s = .ok s') : Holds P Q s' := by
  obtain ⟨t, ht, hrel⟩ := (H.sendClosed.checkTcpTimers (stackRel_iff_holds.mpr ⟨rfl, h⟩)).of_ok hs
  exact (stackRel_iff_holds.mp hrel).2

/-- A timer that expires keeps what sending keeps. -/
theorem SendInvariant.retransmitOnTimer (H : SendInvariant P Q) (h : Holds P Q s)
    {c : TcpConnection} (hc : P c) {timer timer' : TcpTimer}
    (hs : HalOS.retransmitOnTimer s timer c = .ok (some (s', timer'))) : Holds P Q s' := by
  obtain ⟨y, hy, hrel⟩ := (H.sendClosed.retransmitOnTimer (stackRel_iff_holds.mpr ⟨rfl, h⟩)
    ⟨rfl, hc⟩ timer).of_ok hs
  cases hrel with
  | some hrel => exact (stackRel_iff_holds.mp hrel.1).2

theorem BlockInvariant.runClosed (H : BlockInvariant P Q) :
    RunClosed (fun c d => d = c ∧ P c) (fun a b => b = a ∧ Q a) where
  closed := fun conn =>
    { H.toSendInvariant.sendClosed with
      expected := fun ⟨h, _⟩ => h ▸ rfl
      received := fun ⟨h, _⟩ => h ▸ rfl
      setState := by
        rintro c d ⟨rfl, hP⟩ state
        exact ⟨rfl, H.assign hP d.nextSeq d.expectedAck d.dupAckCount state d.lastAck⟩
      setExpected := by
        rintro c d ⟨rfl, hP⟩ ack
        exact ⟨rfl, H.assign hP d.nextSeq ack d.dupAckCount d.state d.lastAck⟩
      append := by
        rintro c d ⟨rfl, hP⟩ payload hfit
        exact ⟨rfl, H.append hP payload hfit⟩
      nextSeq := by
        rintro c d ⟨rfl, -⟩ -
        exact (UInt32.add_zero _).symm
      lastAck := by
        rintro c d ⟨rfl, -⟩ -
        exact (UInt32.add_zero _).symm
      dupAck := fun ⟨h, _⟩ _ => h ▸ rfl
      entries := by
        rintro c d ⟨rfl, -⟩ -
        exact (map_shiftEntry_zero _).symm
      setNext := by
        rintro c d ⟨rfl, hP⟩ - seq
        rw [UInt32.add_zero]
        exact ⟨rfl, H.assign hP seq d.expectedAck d.dupAckCount d.state d.lastAck⟩
      setLast := by
        rintro c d ⟨rfl, hP⟩ - ack
        rw [UInt32.add_zero]
        exact ⟨rfl, H.assign hP d.nextSeq d.expectedAck d.dupAckCount d.state ack⟩
      setDup := by
        rintro c d ⟨rfl, hP⟩ - count
        exact ⟨rfl, H.assign hP d.nextSeq d.expectedAck count d.state d.lastAck⟩
      setQueue := by
        rintro c d ⟨rfl, hP⟩ - queue hsub
        rw [map_shiftEntry_zero]
        exact ⟨rfl, H.dropped hP queue hsub⟩ }
  key := fun ⟨h, _⟩ => h ▸ rfl
  reset := fun srcIp dstIp tcp => ⟨rfl, H.reset srcIp dstIp tcp⟩
  drained := by
    rintro c d ⟨rfl, hP⟩
    exact ⟨rfl, H.drained hP⟩

/-- **The rule for invariants.** An event keeps `P` and `Q` if the block it may open satisfies
`P`. -/
theorem BlockInvariant.next (H : BlockInvariant P Q) (h : Holds P Q s) {e : TcpEvent}
    (hopen : ∀ c, e.Opens s c → P c) (hs : e.next s = .ok s') : Holds P Q s' := by
  obtain ⟨t, ht, hrel⟩ := (H.runClosed.next (stackRel_iff_holds.mpr ⟨rfl, h⟩) e
    fun c hc => ⟨rfl, hopen c hc⟩).of_ok hs
  exact (stackRel_iff_holds.mp hrel).2

end HalOS
