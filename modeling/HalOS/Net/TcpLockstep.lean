import Mathlib.Data.List.Forall2
import HalOS.Net.TcpSpec

/-!
# Two TCP Stacks in Lockstep

Two stacks run in lockstep when they differ only in corresponding control blocks, related by
some `R`, and in corresponding sent segments, related by some `S`. If `R` and `S` are closed
under what the code does to a control block, every call keeps the lockstep: it faults in both
or in neither, and leaves stacks in lockstep.

With `R c d` as `c = d ∧ P c` this is the rule for invariants of single control blocks.

## Main results

* `SendClosed.checkTcpTimers`: the timer check, where closure under sending is enough.
* `BlockClosed.next`: every event.
-/

namespace HalOS

open Outcome (Alike bind_eq_ok)
open List (Forall₂)

/-! ### Related stacks -/

/-- The stacks agree but for related control blocks and related segments. -/
def StackRel (R : TcpConnection → TcpConnection → Prop) (S : TcpSegment → TcpSegment → Prop)
    (s t : TcpStack) : Prop :=
  ∃ cs ls, t = { s with connectionList := cs, sent := ls } ∧
    Forall₂ R s.connectionList cs ∧ Forall₂ S s.sent ls

/-- The entries agree but for the sequence number. -/
def EntryAlike (e f : RetransmitEntry) : Prop := f = { e with seq := f.seq }

/-- The relations are closed under sending. -/
structure WriteClosed (R : TcpConnection → TcpConnection → Prop)
    (S : TcpSegment → TcpSegment → Prop) : Prop where
  addr : ∀ {c d}, R c d → d.addr = c.addr
  sent : ∀ {c d}, R c d → ∀ flags data, S (buildSegment c flags data) (buildSegment d flags data)
  afterSend : ∀ {c d}, R c d → ∀ flags data dataLen queued,
    (queued = true → needsQueue flags dataLen = true) →
      R (c.afterSend flags data dataLen queued) (d.afterSend flags data dataLen queued)

/-- The relations are closed under what the timer check does besides. -/
structure SendClosed (R : TcpConnection → TcpConnection → Prop)
    (S : TcpSegment → TcpSegment → Prop) : Prop extends WriteClosed R S where
  state : ∀ {c d}, R c d → d.state = c.state
  wild : ∀ {c d}, R c d → d.queueWild = c.queueWild
  queue : ∀ {c d}, R c d → Forall₂ EntryAlike c.retransmitQueue d.retransmitQueue
  retried : ∀ {c d}, R c d → ∀ retries e es f fs, c.retransmitQueue = e :: es →
    d.retransmitQueue = f :: fs →
      R { c with retransmitQueue := { e with retries := retries } :: es }
        { d with retransmitQueue := { f with retries := retries } :: fs }

variable {R R₀ : TcpConnection → TcpConnection → Prop} {S : TcpSegment → TcpSegment → Prop}
  {s t : TcpStack} {c d : TcpConnection}

/-- Stacks in lockstep, each with a control block in hand that is still to be written back. -/
def HeldRel (R₀ R : TcpConnection → TcpConnection → Prop) (S : TcpSegment → TcpSegment → Prop)
    (x y : TcpStack × TcpConnection) : Prop :=
  StackRel R₀ S x.1 y.1 ∧ R x.2 y.2

namespace StackRel

theorem refl (hR : ∀ c ∈ s.connectionList, R c c) (hS : ∀ seg ∈ s.sent, S seg seg) :
    StackRel R S s s :=
  ⟨_, _, rfl, List.forall₂_same.mpr hR, List.forall₂_same.mpr hS⟩

theorem mallocs (h : StackRel R S s t) : t.mallocs = s.mallocs := by
  obtain ⟨cs, ls, rfl, -, -⟩ := h
  rfl

theorem activeTimers (h : StackRel R S s t) : t.activeTimers = s.activeTimers := by
  obtain ⟨cs, ls, rfl, -, -⟩ := h
  rfl

theorem ticks (h : StackRel R S s t) : t.ticks = s.ticks := by
  obtain ⟨cs, ls, rfl, -, -⟩ := h
  rfl

theorem connections (h : StackRel R S s t) : Forall₂ R s.connectionList t.connectionList := by
  obtain ⟨cs, ls, rfl, hc, -⟩ := h
  exact hc

theorem segments (h : StackRel R S s t) : Forall₂ S s.sent t.sent := by
  obtain ⟨cs, ls, rfl, -, hs⟩ := h
  exact hs

end StackRel

/-- Related lists are searched alike. -/
theorem forall₂_find? {l l' : List TcpConnection} (h : Forall₂ R l l')
    {p q : TcpConnection → Bool} (hpq : ∀ c d, R c d → q d = p c) :
    l.find? p = none ∧ l'.find? q = none ∨
      ∃ c d, l.find? p = some c ∧ l'.find? q = some d ∧ R c d := by
  induction h with
  | nil => exact Or.inl ⟨rfl, rfl⟩
  | @cons c d l l' hcd _ ih =>
      rw [List.find?_cons, List.find?_cons, hpq c d hcd]
      cases p c with
      | true => exact Or.inr ⟨c, d, rfl, rfl, hcd⟩
      | false => exact ih

theorem StackRel.deref (h : StackRel R S s t) (haddr : ∀ {c d}, R c d → d.addr = c.addr)
    (addr : ℕ) : Alike R (s.deref addr) (t.deref addr) := by
  rw [TcpStack.deref, TcpStack.deref]
  obtain ⟨hn, hn'⟩ | ⟨c, d, hc, hd, hR⟩ := forall₂_find? (p := fun c => c.addr == addr)
    (q := fun c => c.addr == addr) h.connections fun c d hcd => by rw [haddr hcd]
  · rw [hn, hn']
    exact .error _
  · rw [hc, hd]
    exact .ok hR

theorem StackRel.setConn (h : StackRel R S s t) (haddr : ∀ {c d}, R c d → d.addr = c.addr)
    (hR : R c d) : StackRel R S (s.setConn c) (t.setConn d) := by
  obtain ⟨cs, ls, rfl, hc, hs⟩ := h
  refine ⟨_, _, rfl, ?_, hs⟩
  refine List.rel_map (fun a b hab => ?_) hc
  rw [haddr hab, haddr hR]
  split_ifs
  · exact hR
  · exact hab

/-- Changes that touch neither control blocks nor segments. -/
theorem StackRel.map (h : StackRel R S s t) (f : TcpStack → TcpStack)
    (hf : ∀ s cs ls, f { s with connectionList := cs, sent := ls } =
      { f s with connectionList := cs, sent := ls })
    (hc : ∀ s, (f s).connectionList = s.connectionList := by intros; rfl)
    (hs : ∀ s, (f s).sent = s.sent := by intros; rfl) : StackRel R S (f s) (f t) := by
  obtain ⟨cs, ls, rfl, hcs, hls⟩ := h
  refine ⟨cs, ls, hf s cs ls, ?_, ?_⟩
  · rwa [hc]
  · rwa [hs]

theorem StackRel.malloc (h : StackRel R S s t) :
    t.malloc.1 = s.malloc.1 ∧ StackRel R S s.malloc.2 t.malloc.2 := by
  obtain ⟨cs, ls, rfl, hc, hs⟩ := h
  exact ⟨rfl, cs, ls, rfl, hc, hs⟩

theorem StackRel.startRetransmissionTimer (h : StackRel R S s t) {a b : ℕ} (hab : b = a)
    (timeoutMs : UInt32) :
    StackRel R S (HalOS.startRetransmissionTimer s a timeoutMs)
      (HalOS.startRetransmissionTimer t b timeoutMs) := by
  obtain ⟨cs, ls, rfl, hc, hs⟩ := h
  rw [hab, HalOS.startRetransmissionTimer, HalOS.startRetransmissionTimer, TcpStack.malloc,
    TcpStack.malloc]
  cases s.mallocs.headD true with
  | false => exact ⟨cs, ls, rfl, hc, hs⟩
  | true => exact ⟨cs, ls, rfl, hc, hs⟩

theorem StackRel.cancelTimer (h : StackRel R S s t) {a b : ℕ} (hab : b = a) :
    StackRel R S (cancelRetransmissionTimer s a) (cancelRetransmissionTimer t b) := by
  obtain ⟨cs, ls, rfl, hc, hs⟩ := h
  rw [hab]
  exact ⟨cs, ls, rfl, hc, hs⟩

theorem StackRel.addConnection (h : StackRel R S s t) (hR : R c d) :
    StackRel R S (HalOS.addConnection s c) (HalOS.addConnection t d) := by
  obtain ⟨cs, ls, rfl, hc, hs⟩ := h
  exact ⟨_, _, rfl, .cons hR hc, hs⟩

namespace WriteClosed

variable (H : WriteClosed R S)
include H

theorem tcpSendSegment (h : StackRel R₀ S s t) (hR : R c d) (flags : UInt8) (data : List UInt8)
    (dataLen : UInt16) : HeldRel R₀ R S (HalOS.tcpSendSegment s c flags data dataLen)
      (HalOS.tcpSendSegment t d flags data dataLen) := by
  rw [tcpSendSegment_eq, tcpSendSegment_eq]
  obtain ⟨cs, ls, rfl, hc, hs⟩ := h
  refine ⟨⟨_, _, rfl, hc, ?_⟩, H.afterSend hR _ _ _ _ queueOutcome_needsQueue⟩
  exact List.rel_append hs (.cons (H.sent hR _ _) .nil)

end WriteClosed

namespace SendClosed

variable (H : SendClosed R S)
include H

theorem freeConnection (h : StackRel R S s t) (hR : R c d) :
    Alike (StackRel R S) (HalOS.freeConnection s c) (HalOS.freeConnection t d) := by
  rw [HalOS.freeConnection, HalOS.freeConnection, H.wild hR]
  obtain ⟨cs, ls, rfl, hc, hs⟩ := h
  split_ifs
  · exact .error _
  · refine .ok ⟨_, _, rfl, ?_, hs⟩
    exact List.rel_filter (fun a b hab => by simp only [H.addr hab, H.addr hR]) hc

theorem retransmitOnTimer (h : StackRel R S s t) (hR : R c d) (timer : TcpTimer) :
    Alike (Option.Rel fun x y => StackRel R S x.1 y.1 ∧ y.2 = x.2)
      (HalOS.retransmitOnTimer s timer c) (HalOS.retransmitOnTimer t timer d) := by
  have hstates := H.state hR
  rw [HalOS.retransmitOnTimer, HalOS.retransmitOnTimer]
  by_cases hstate : c.state = .waitForAck
  · rw [if_pos hstate, if_pos (hstates.trans hstate)]
    have hq := H.queue hR
    cases hc : c.retransmitQueue with
    | nil =>
        rw [hc, List.forall₂_nil_left_iff] at hq
        rw [hq, H.wild hR]
        split_ifs
        · exact .error _
        · exact .ok .none
    | cons e es =>
        rw [hc] at hq
        obtain ⟨f, fs, hef, -, hd⟩ := List.forall₂_cons_left_iff.mp hq
        rw [EntryAlike] at hef
        generalize f.seq = seq at hef
        subst hef
        rw [hd]
        by_cases hleft : e.retries < maxSynRetries
        · have hsend := H.tcpSendSegment h (H.retried hR (e.retries + 1) e es _ fs hc hd) tcpAck
            e.data e.length
          simp only [if_pos hleft]
          exact .ok (.some ⟨hsend.1.setConn H.addr hsend.2, by simp only [hsend.1.ticks]⟩)
        · simp only [if_neg hleft]
          exact .ok .none
  · have hstate' : ¬ d.state = .waitForAck := fun heq => hstate (hstates.symm.trans heq)
    rw [if_neg hstate, if_neg hstate']
    by_cases hleft : timer.retries < maxSynRetries
    · rw [if_pos hleft, if_pos hleft]
      have hflags : (if d.state = .synSent then tcpSyn else tcpFin) =
          if c.state = .synSent then tcpSyn else tcpFin := by rw [hstates]
      rw [hflags]
      generalize (if c.state = .synSent then tcpSyn else tcpFin) = flags
      have hsend := H.tcpSendSegment h hR flags [] 0
      generalize HalOS.tcpSendSegment s c flags [] 0 = x at hsend
      generalize HalOS.tcpSendSegment t d flags [] 0 = y at hsend
      exact .ok (.some ⟨hsend.1.setConn H.addr hsend.2, by simp only [hsend.1.ticks]⟩)
    · rw [if_neg hleft, if_neg hleft]
      exact .ok .none

/-- The loop of `check_tcp_timers`, by induction on the timers to come. -/
theorem checkTimersLoop (n : ℕ) : ∀ (rest kept : List TcpTimer) {s t : TcpStack},
    rest.length ≤ n → StackRel R S s t →
      Alike (StackRel R S) (HalOS.checkTimersLoop kept rest s)
        (HalOS.checkTimersLoop kept rest t) := by
  induction n with
  | zero =>
      intro rest kept s t hlen h
      rw [List.length_eq_zero_iff.mp (Nat.le_zero.mp hlen), HalOS.checkTimersLoop,
        HalOS.checkTimersLoop]
      exact .ok (h.map (fun s => { s with activeTimers := kept }) fun _ _ _ => rfl)
  | succ n ih =>
      intro rest kept s t hlen h
      cases rest with
      | nil =>
          rw [HalOS.checkTimersLoop, HalOS.checkTimersLoop]
          exact .ok (h.map (fun s => { s with activeTimers := kept }) fun _ _ _ => rfl)
      | cons timer rest =>
          rw [List.length_cons, Nat.add_le_add_iff_right] at hlen
          rw [HalOS.checkTimersLoop, HalOS.checkTimersLoop]
          refine (h.deref H.addr timer.conn).bind fun c d hR => ?_
          rw [h.ticks]
          split_ifs
          · exact ih rest _ hlen h
          · refine (H.retransmitOnTimer h hR timer).bind fun x y hxy => ?_
            cases hxy with
            | some hxy =>
                simp only [hxy.2]
                exact ih rest _ hlen hxy.1
            | none =>
                refine (H.freeConnection h hR).bind fun s' t' h' => ?_
                rw [H.addr hR]
                cases kept.findIdx? fun t => t.conn == c.addr with
                | some i =>
                    by_cases hi : i + 1 = kept.length
                    · simp only [if_pos hi]
                      exact .error _
                    · simp only [if_neg hi]
                      exact ih rest _ hlen h'
                | none =>
                    cases rest with
                    | nil => exact .error _
                    | cons next rest => exact ih rest _ (Nat.le_of_succ_le hlen) h'

theorem checkTcpTimers (h : StackRel R S s t) :
    Alike (StackRel R S) (HalOS.checkTcpTimers s) (HalOS.checkTcpTimers t) := by
  rw [HalOS.checkTcpTimers, HalOS.checkTcpTimers, h.activeTimers]
  exact H.checkTimersLoop _ _ _ (Nat.le_refl _) h

end SendClosed

/-! ### The handlers -/

/-- The relations are closed under what is done about the payload and the FIN of a segment. -/
structure DataClosed (R : TcpConnection → TcpConnection → Prop)
    (S : TcpSegment → TcpSegment → Prop) : Prop extends WriteClosed R S where
  expected : ∀ {c d}, R c d → d.expectedAck = c.expectedAck
  received : ∀ {c d}, R c d → d.recvBuffer.length = c.recvBuffer.length
  setState : ∀ {c d}, R c d → ∀ state, R { c with state := state } { d with state := state }
  setExpected : ∀ {c d}, R c d →
    ∀ ack, R { c with expectedAck := ack } { d with expectedAck := ack }
  append : ∀ {c d}, R c d → ∀ payload, c.recvBuffer.length + payload.length ≤ recvBufferSize →
    R { c with recvBuffer := c.recvBuffer ++ payload }
      { d with recvBuffer := d.recvBuffer ++ payload }

/-- The relations are closed under the rest of what the handlers do, apart from their use of
the acknowledgement number. -/
structure BlockClosed (R : TcpConnection → TcpConnection → Prop)
    (S : TcpSegment → TcpSegment → Prop) : Prop extends SendClosed R S, DataClosed R S

namespace DataClosed

variable (H : DataClosed R S)
include H

theorem handleHttpRequest (h : StackRel R₀ S s t) (hR : R c d) :
    HeldRel R₀ R S (HalOS.handleHttpRequest s c) (HalOS.handleHttpRequest t d) := by
  have hfile : t.indexHtml = s.indexHtml := by
    obtain ⟨cs, ls, rfl, -, -⟩ := h
    rfl
  rw [HalOS.handleHttpRequest, HalOS.handleHttpRequest, hfile]
  cases s.indexHtml with
  | none =>
      have hsend := H.tcpSendSegment h hR (tcpPsh ||| tcpAck) httpNotFound
        (UInt16.ofNat httpNotFound.length)
      exact ⟨hsend.1, H.setState hsend.2 _⟩
  | some file =>
      obtain ⟨hmalloc, hstack⟩ := h.malloc
      generalize s.malloc = x at hmalloc hstack
      generalize t.malloc = y at hmalloc hstack
      obtain ⟨ok, s'⟩ := x
      obtain ⟨ok', t'⟩ := y
      obtain rfl : ok' = ok := hmalloc
      cases ok' with
      | false => exact ⟨hstack, H.setState hR _⟩
      | true =>
          have hheaders := H.tcpSendSegment hstack hR (tcpPsh ||| tcpAck)
            (httpHeaders (httpBodySize file))
            (UInt16.ofNat (httpHeaders (httpBodySize file)).length)
          have hbody := H.tcpSendSegment hheaders.1 hheaders.2 (tcpPsh ||| tcpAck) file
            (httpBodySize file).toUInt16
          refine ⟨?_, H.setState hbody.2 _⟩
          exact hbody.1.startRetransmissionTimer (H.addr hbody.2) _

theorem receiveData (h : StackRel R₀ S s t) (hR : R c d) (seq : UInt32) (payload : List UInt8)
    (dataLen : UInt16) :
    Alike (HeldRel R₀ R S) (HalOS.receiveData s c seq payload dataLen)
      (HalOS.receiveData t d seq payload dataLen) := by
  rw [HalOS.receiveData, HalOS.receiveData]
  by_cases hlen : dataLen = 0
  · rw [if_pos hlen, if_pos hlen]
    exact .ok ⟨h, hR⟩
  · rw [if_neg hlen, if_neg hlen]
    have hexp := H.setExpected hR (seq + dataLen.toUInt32)
    by_cases hget : isHttpGetRequest payload = true
    · simp only [if_pos hget]
      have hhttp := H.handleHttpRequest h hexp
      exact .ok ⟨hhttp.1, H.setState hhttp.2 _⟩
    · simp only [if_neg hget, H.received hR]
      by_cases hfit : recvBufferSize < c.recvBuffer.length + payload.length
      · rw [if_pos hfit, if_pos hfit]
        exact .error _
      · rw [if_neg hfit, if_neg hfit]
        exact .ok (H.tcpSendSegment h (H.append hexp payload (Nat.not_lt.mp hfit)) _ _ _)

theorem handleFin (h : StackRel R₀ S s t) (hR : R c d) (flags : UInt8) :
    HeldRel R₀ R S (HalOS.handleFin s c flags) (HalOS.handleFin t d flags) := by
  rw [HalOS.handleFin, HalOS.handleFin]
  by_cases hfin : hasFlag flags tcpFin = true
  · rw [if_pos hfin, if_pos hfin, H.expected hR]
    have hclose := H.setState (H.setExpected hR (c.expectedAck + 1)) .closeWait
    have hack := H.tcpSendSegment h hclose tcpAck [] 0
    have hfin := H.tcpSendSegment hack.1 hack.2 (tcpFin ||| tcpAck) [] 0
    exact ⟨hfin.1, H.setState hfin.2 _⟩
  · rw [if_neg hfin, if_neg hfin]
    exact ⟨h, hR⟩

/-- The end of the handler of `TCP_ESTABLISHED`. -/
theorem finishSegment (h : StackRel R₀ S s t) (hR : R c d) (tcp : TcpHeader)
    (bytes : ℕ → UInt8) (len : UInt16) (ack : UInt32) :
    Alike (HeldRel R₀ R S) (HalOS.finishSegment s c tcp bytes len)
      (HalOS.finishSegment t d { tcp with ack := ack } bytes len) := by
  rw [HalOS.finishSegment, HalOS.finishSegment]
  have hack : HeldRel R₀ R S
      (if tcp.seq ≠ c.expectedAck then HalOS.tcpSendSegment s c tcpAck [] 0 else (s, c))
      (if tcp.seq ≠ d.expectedAck then HalOS.tcpSendSegment t d tcpAck [] 0 else (t, d)) := by
    rw [H.expected hR]
    split_ifs
    · exact H.tcpSendSegment h hR _ _ _
    · exact ⟨h, hR⟩
  have hdata := H.receiveData hack.1 hack.2 tcp.seq
    (bytesAt bytes tcp.headerLen.toNat (len - tcp.headerLen).toNat) (len - tcp.headerLen)
  exact hdata.bind fun x y hxy => .ok (H.handleFin hxy.1 hxy.2 tcp.flags)

end DataClosed

namespace BlockClosed

variable (H : BlockClosed R S)
include H

theorem removeConnection (h : StackRel R S s t) (conn : ℕ) :
    Alike (StackRel R S) (HalOS.removeConnection s conn) (HalOS.removeConnection t conn) := by
  rw [HalOS.removeConnection, HalOS.removeConnection]
  exact (h.deref H.addr conn).bind fun c d hR => H.freeConnection (h.cancelTimer rfl) hR

end BlockClosed

/-! ### Acknowledgements -/

/-- The entry moved by `k` in sequence space. -/
def shiftEntry (k : UInt32) (e : RetransmitEntry) : RetransmitEntry := { e with seq := e.seq + k }

/-- The control blocks at address `conn` differ by a translation of their sequence space by
`k`, and the relation is closed under what the handlers do with acknowledgement numbers. -/
structure AckClosed (R : TcpConnection → TcpConnection → Prop)
    (S : TcpSegment → TcpSegment → Prop) (conn : ℕ) (k : UInt32) : Prop
    extends BlockClosed R S where
  nextSeq : ∀ {c d}, R c d → c.addr = conn → d.nextSeq = c.nextSeq + k
  lastAck : ∀ {c d}, R c d → c.addr = conn → d.lastAck = c.lastAck + k
  dupAck : ∀ {c d}, R c d → c.addr = conn → d.dupAckCount = c.dupAckCount
  entries : ∀ {c d}, R c d → c.addr = conn →
    d.retransmitQueue = c.retransmitQueue.map (shiftEntry k)
  setNext : ∀ {c d}, R c d → c.addr = conn → ∀ seq,
    R { c with nextSeq := seq } { d with nextSeq := seq + k }
  setLast : ∀ {c d}, R c d → c.addr = conn → ∀ ack,
    R { c with lastAck := ack } { d with lastAck := ack + k }
  setDup : ∀ {c d}, R c d → c.addr = conn → ∀ count,
    R { c with dupAckCount := count } { d with dupAckCount := count }
  setQueue : ∀ {c d}, R c d → c.addr = conn → ∀ queue, queue.Sublist c.retransmitQueue →
    R { c with retransmitQueue := queue } { d with retransmitQueue := queue.map (shiftEntry k) }

/-- The comparisons of `handle_established_state` come out alike after the translation. -/
def AckAgrees (k ack : UInt32) (c : TcpConnection) : Prop :=
  (c.nextSeq + k < ack + k ↔ c.nextSeq < ack) ∧
    ∀ e ∈ c.retransmitQueue,
      (e.seq + k + e.length.toUInt32 ≤ ack + k ↔ e.seq + e.length.toUInt32 ≤ ack)

/-- The comparisons of `handle_wait_for_ack_state` come out alike after the translation. -/
def WaitAgrees (k ack : UInt32) (c : TcpConnection) : Prop :=
  ∀ e es, c.retransmitQueue = e :: es →
    (e.expectedAck + k ≤ ack + k ↔ e.expectedAck ≤ ack) ∧
      (¬ e.expectedAck ≤ ack → (c.lastAck + k < ack + k ↔ c.lastAck < ack))

theorem map_shiftEntry_zero (queue : List RetransmitEntry) :
    queue.map (shiftEntry 0) = queue := by
  refine (List.map_congr_left fun e _ => ?_).trans (List.map_id queue)
  rw [shiftEntry, UInt32.add_zero, id]

theorem ackAgrees_zero (ack : UInt32) (c : TcpConnection) : AckAgrees 0 ack c := by
  simp [AckAgrees]

theorem waitAgrees_zero (ack : UInt32) (c : TcpConnection) : WaitAgrees 0 ack c := by
  simp [WaitAgrees]

theorem expectedAck_shiftEntry (k : UInt32) (e : RetransmitEntry) :
    (shiftEntry k e).expectedAck = e.expectedAck + k := by
  rw [RetransmitEntry.expectedAck, RetransmitEntry.expectedAck]
  change e.seq + k + e.length.toUInt32 + (if hasFlag e.flags _ = true then 1 else 0) = _
  ac_rfl

theorem addr_repeatFront {x : TcpStack × TcpConnection} (h : repeatFront s c = .ok x) :
    x.2.addr = c.addr := by
  rw [repeatFront] at h
  cases hqueue : c.retransmitQueue with
  | nil =>
      rw [hqueue] at h
      cases hwild : c.queueWild with
      | false =>
          rw [hwild] at h
          cases h
          rfl
      | true =>
          rw [hwild] at h
          cases h
  | cons e es =>
      rw [hqueue] at h
      cases h
      rw [tcpSendSegment_eq]
      rfl

/-- Fast retransmission keeps the block's address. -/
theorem addr_fastRetransmit {ack : UInt32} {x : TcpStack × TcpConnection}
    (h : fastRetransmit s c ack = .ok x) : x.2.addr = c.addr := by
  rw [fastRetransmit] at h
  by_cases hdup : ack = c.lastAck
  · rw [if_pos hdup] at h
    by_cases hthree : c.dupAckCount + 1 = 3
    · simp only [if_pos hthree] at h
      have haddr := addr_repeatFront h
      exact haddr
    · simp only [if_neg hthree] at h
      cases h
      rfl
  · rw [if_neg hdup] at h
    cases h
    rfl

namespace AckClosed

variable {conn : ℕ} {k : UInt32} (H : AckClosed R S conn k)
include H

theorem repeatFront (h : StackRel R S s t) (hR : R c d) (hc : c.addr = conn) :
    Alike (HeldRel R R S) (HalOS.repeatFront s c) (HalOS.repeatFront t d) := by
  rw [HalOS.repeatFront, HalOS.repeatFront, H.entries hR hc, H.wild hR]
  cases c.retransmitQueue with
  | nil =>
      simp only [List.map_nil]
      split_ifs
      · exact .error _
      · exact .ok ⟨h, hR⟩
  | cons e es => exact .ok (H.tcpSendSegment h hR tcpAck e.data e.length)

theorem fastRetransmit (h : StackRel R S s t) (hR : R c d) (hc : c.addr = conn) (ack : UInt32) :
    Alike (HeldRel R R S) (HalOS.fastRetransmit s c ack) (HalOS.fastRetransmit t d (ack + k)) := by
  rw [HalOS.fastRetransmit, HalOS.fastRetransmit]
  have hlast : ack + k = d.lastAck ↔ ack = c.lastAck := by
    rw [H.lastAck hR hc, UInt32.add_left_inj]
  by_cases hdup : ack = c.lastAck
  · rw [if_pos hdup, if_pos (hlast.mpr hdup)]
    have hcount := H.setDup hR hc (c.dupAckCount + 1)
    simp only [H.dupAck hR hc]
    by_cases hthree : c.dupAckCount + 1 = 3
    · simp only [if_pos hthree]
      exact H.repeatFront h hcount hc
    · simp only [if_neg hthree]
      exact .ok ⟨h, hcount⟩
  · rw [if_neg hdup, if_neg fun heq => hdup (hlast.mp heq)]
    exact .ok ⟨h, hR⟩

theorem dropAcknowledged (hR : R c d) (hc : c.addr = conn) {ack : UInt32}
    (hagree : ∀ e ∈ c.retransmitQueue,
      (e.seq + k + e.length.toUInt32 ≤ ack + k ↔ e.seq + e.length.toUInt32 ≤ ack)) :
    Alike R (HalOS.dropAcknowledged c ack) (HalOS.dropAcknowledged d (ack + k)) := by
  rw [HalOS.dropAcknowledged, HalOS.dropAcknowledged]
  have hwild := H.wild hR
  have hdrop : d.retransmitQueue.filter
      (fun e => !(decide (e.seq + e.length.toUInt32 ≤ ack + k))) =
      (c.retransmitQueue.filter fun e => !(decide (e.seq + e.length.toUInt32 ≤ ack))).map
        (shiftEntry k) := by
    rw [H.entries hR hc, List.filter_map]
    refine congrArg (List.map (shiftEntry k)) (List.filter_congr fun e he => ?_)
    exact congrArg Bool.not (decide_eq_decide.mpr (hagree e he))
  by_cases hw : c.queueWild = true
  · rw [if_pos hw, if_pos (hwild.trans hw)]
    exact .error _
  · rw [if_neg hw, if_neg (hwild ▸ hw), hdrop]
    exact .ok (H.setQueue hR hc _ List.filter_sublist)

theorem processAck (hR : R c d) (hc : c.addr = conn) {ack : UInt32} (hagree : AckAgrees k ack c)
    (seq : UInt32) (dataLen : UInt16) :
    Alike R (HalOS.processAck c seq ack dataLen) (HalOS.processAck d seq (ack + k) dataLen) := by
  rw [HalOS.processAck, HalOS.processAck]
  have hexp := H.setExpected hR (seq + dataLen.toUInt32)
  have hcmp : d.nextSeq < ack + k ↔ c.nextSeq < ack := by
    rw [H.nextSeq hR hc]
    exact hagree.1
  by_cases hlt : c.nextSeq < ack
  · simp only [if_pos hlt, if_pos (hcmp.mpr hlt)]
    exact H.dropAcknowledged (H.setNext hexp hc ack) hc hagree.2
  · simp only [if_neg hlt, if_neg fun h => hlt (hcmp.mp h)]
    exact H.dropAcknowledged hexp hc hagree.2

theorem reestablish (hR : R c d) (hc : c.addr = conn) (seq ack : UInt32)
    (hk : k = 0 ∨ ¬ (c.state = .synSent ∨ c.state = .closeWait)) :
    R (HalOS.reestablish c seq ack) (HalOS.reestablish d seq (ack + k)) := by
  have hstate := H.state hR
  rw [HalOS.reestablish, HalOS.reestablish]
  by_cases hre : c.state = .synSent ∨ c.state = .closeWait
  · obtain rfl := hk.resolve_right (not_not_intro hre)
    have hall := H.setDup (H.setExpected (H.setNext (H.setState hR .established) hc (seq + 1))
      (ack + 1)) hc 0
    rw [UInt32.add_zero] at hall
    rw [if_pos hre, if_pos (hstate ▸ hre), UInt32.add_zero]
    exact hall
  · rw [if_neg hre, if_neg (hstate ▸ hre)]
    exact hR

/-- The start of the handler of `TCP_ESTABLISHED`. -/
theorem prepareSegment (h : StackRel R S s t) (tcp : TcpHeader)
    (hk : k = 0 ∨ ∀ s' c, HalOS.checkTcpTimers s = .ok s' → s'.deref conn = .ok c →
      ¬ (c.state = .synSent ∨ c.state = .closeWait)) :
    Alike (fun x y => HeldRel R R S x y ∧ x.2.addr = conn) (HalOS.prepareSegment s conn tcp)
      (HalOS.prepareSegment t conn { tcp with ack := tcp.ack + k }) := by
  rw [HalOS.prepareSegment, HalOS.prepareSegment]
  refine (H.checkTcpTimers h).bind_of_eq fun s₁ t₁ hs₁ h₁ => ?_
  refine (h₁.deref H.addr conn).bind_of_eq fun c₁ d₁ hc₁ hR₁ => ?_
  have haddr₁ := (deref_eq_ok hc₁).2
  have hre := H.reestablish hR₁ haddr₁ tcp.seq tcp.ack (hk.imp_right fun hk => hk _ _ hs₁ hc₁)
  have haddr : (HalOS.reestablish c₁ tcp.seq tcp.ack).addr = conn := by
    rw [HalOS.reestablish]
    split_ifs <;> exact haddr₁
  exact (H.fastRetransmit h₁ hre haddr tcp.ack).and_of_ok fun x hx =>
    (addr_fastRetransmit hx).trans haddr

/-- The handler of `TCP_ESTABLISHED`, where the comparisons come out alike. -/
theorem handleEstablishedState (h : StackRel R S s t) (tcp : TcpHeader) (bytes : ℕ → UInt8)
    (len : UInt16)
    (hagree : ∀ x, HalOS.prepareSegment s conn tcp = .ok x → AckAgrees k tcp.ack x.2)
    (hk : k = 0 ∨ ∀ s' c, HalOS.checkTcpTimers s = .ok s' → s'.deref conn = .ok c →
      ¬ (c.state = .synSent ∨ c.state = .closeWait)) :
    Alike (StackRel R S) (HalOS.handleEstablishedState s conn tcp bytes len)
      (HalOS.handleEstablishedState t conn { tcp with ack := tcp.ack + k } bytes len) := by
  rw [handleEstablishedState_eq, handleEstablishedState_eq]
  refine (H.prepareSegment h tcp hk).bind_of_eq fun x y hx hxy => ?_
  refine (H.processAck hxy.1.2 hxy.2 (hagree x hx) tcp.seq _).bind fun c d hR => ?_
  refine (H.finishSegment hxy.1.1 hR tcp bytes len _).bind fun z w hzw => ?_
  exact .ok (hzw.1.setConn H.addr hzw.2)

/-- The handler of `TCP_WAIT_FOR_ACK`, where the comparisons come out alike. -/
theorem handleWaitForAckState (h : StackRel R S s t) (tcp : TcpHeader)
    (hagree : ∀ c, s.deref conn = .ok c → WaitAgrees k tcp.ack c) :
    Alike (StackRel R S) (HalOS.handleWaitForAckState s conn tcp)
      (HalOS.handleWaitForAckState t conn { tcp with ack := tcp.ack + k }) := by
  rw [HalOS.handleWaitForAckState, HalOS.handleWaitForAckState]
  refine (h.deref H.addr conn).bind_of_eq fun c d hc hR => ?_
  have haddr := (deref_eq_ok hc).2
  have hwild := H.wild hR
  have hentries := H.entries hR haddr
  cases hq : c.retransmitQueue with
  | nil =>
      rw [hq, List.map_nil] at hentries
      rw [hentries, hwild]
      simp only
      split_ifs
      · exact .error _
      · exact .ok h
  | cons e es =>
      rw [hq, List.map_cons] at hentries
      rw [hentries]
      obtain ⟨hend, hlast⟩ := hagree c hc e es hq
      have hrest : R { c with retransmitQueue := es }
          { d with retransmitQueue := es.map (shiftEntry k) } :=
        H.setQueue hR haddr es (hq ▸ List.sublist_cons_self e es)
      simp only [expectedAck_shiftEntry]
      by_cases hfull : e.expectedAck ≤ tcp.ack
      · simp only [if_pos hfull, if_pos (hend.mpr hfull)]
        have hset := h.setConn H.addr hrest
        have hlastEntry : (es.map (shiftEntry k) = [] ∧ d.queueWild = false) ↔
            (es = [] ∧ c.queueWild = false) := by
          rw [List.map_eq_nil_iff, hwild]
        by_cases hempty : es = [] ∧ c.queueWild = false
        · rw [if_pos hempty, if_pos (hlastEntry.mpr hempty)]
          exact H.removeConnection hset conn
        · rw [if_neg hempty, if_neg fun h => hempty (hlastEntry.mp h)]
          exact .ok hset
      · simp only [if_neg hfull, if_neg fun h => hfull (hend.mp h)]
        have hcmp : d.lastAck < tcp.ack + k ↔ c.lastAck < tcp.ack := by
          rw [H.lastAck hR haddr]
          exact hlast hfull
        by_cases hpart : c.lastAck < tcp.ack
        · rw [if_pos hpart, if_pos (hcmp.mpr hpart)]
          have hreset := H.retried (H.setLast hR haddr tcp.ack) 0 e es (shiftEntry k e)
            (es.map (shiftEntry k)) hq hentries
          exact .ok (h.setConn H.addr hreset)
        · rw [if_neg hpart, if_neg fun h => hpart (hcmp.mp h)]
          have hcount := H.setDup hR haddr (c.dupAckCount + 1)
          have hdup := H.dupAck hR haddr
          rw [hq, hentries] at hcount
          by_cases hthree : 3 ≤ c.dupAckCount + 1
          · rw [if_pos hthree, if_pos (hdup ▸ hthree)]
            have hsend := H.tcpSendSegment h hcount e.flags e.data e.length
            rw [hdup]
            exact .ok (hsend.1.setConn H.addr
              (H.setDup hsend.2 (by rw [tcpSendSegment_eq]; exact haddr) 0))
          · rw [if_neg hthree, if_neg (hdup ▸ hthree), hdup]
            exact .ok (h.setConn H.addr hcount)

/-- The handler of `TCP_LAST_ACK` compares for equality alone. -/
theorem handleLastAckState (h : StackRel R S s t) (tcp : TcpHeader) :
    Alike (StackRel R S) (HalOS.handleLastAckState s conn tcp)
      (HalOS.handleLastAckState t conn { tcp with ack := tcp.ack + k }) := by
  rw [HalOS.handleLastAckState, HalOS.handleLastAckState]
  refine (h.deref H.addr conn).bind_of_eq fun c d hc hR => ?_
  rw [H.nextSeq hR (deref_eq_ok hc).2]
  simp only [UInt32.add_left_inj]
  split_ifs
  · exact H.removeConnection h conn
  · exact .ok h

end AckClosed

/-! ### Events -/

/-- A control block that an event can add to the list. -/
inductive TcpEvent.Opens (s : TcpStack) : TcpEvent → TcpConnection → Prop
  | passive {srcIp dstIp : UInt32} {bytes : ℕ → UInt8} {len : UInt16} :
      findConnection s srcIp (TcpHeader.parse bytes).srcPort dstIp
          (TcpHeader.parse bytes).destPort = none →
        s.malloc.1 = true →
        Opens s (.segment srcIp dstIp bytes len)
          (passiveBlock s.nextAddr srcIp dstIp (TcpHeader.parse bytes) bytes
            (generateSecureInitialSeq s).1)
  | active {stale : StaleBlock} {remoteIp : UInt32} {remotePort : UInt16} :
      s.malloc.1 = true →
      Opens s (.connect stale remoteIp remotePort)
        (activeBlock s.nextAddr s.nicIp stale remoteIp remotePort (generateSecureInitialSeq s).1
          (generateSecureInitialSeq (generateSecureInitialSeq s).2).1)

/-- The relations are closed under everything that events do. -/
structure RunClosed (R : TcpConnection → TcpConnection → Prop)
    (S : TcpSegment → TcpSegment → Prop) : Prop where
  closed : ∀ conn, AckClosed R S conn 0
  key : ∀ {c d}, R c d → d.key = c.key
  reset : ∀ srcIp dstIp tcp, S (buildSegment (resetBlock srcIp dstIp tcp) tcpRst [])
    (buildSegment (resetBlock srcIp dstIp tcp) tcpRst [])
  drained : ∀ {c d}, R c d → R { c with recvBuffer := [] } { d with recvBuffer := [] }

namespace RunClosed

variable (H : RunClosed R S)
include H

theorem base : BlockClosed R S := (H.closed 0).toBlockClosed

theorem tcpSendReset (h : StackRel R S s t) (srcIp dstIp : UInt32) (tcp : TcpHeader) :
    StackRel R S (HalOS.tcpSendReset s srcIp dstIp tcp) (HalOS.tcpSendReset t srcIp dstIp tcp) := by
  rw [HalOS.tcpSendReset, HalOS.tcpSendReset, tcpSendSegment_eq, tcpSendSegment_eq]
  obtain ⟨cs, ls, rfl, hc, hs⟩ := h
  exact ⟨_, _, rfl, hc, List.rel_append hs (.cons (H.reset srcIp dstIp tcp) .nil)⟩

theorem handleSynSent (h : StackRel R S s t) (hR : R c d) (tcp : TcpHeader) :
    StackRel R S (HalOS.handleSynSent s c tcp) (HalOS.handleSynSent t d tcp) := by
  rw [HalOS.handleSynSent, HalOS.handleSynSent]
  have hnext : d.nextSeq = c.nextSeq := by
    rw [(H.closed c.addr).nextSeq hR rfl, UInt32.add_zero]
  by_cases hsyn : tcp.flags &&& (tcpSyn ||| tcpAck) = tcpSyn ||| tcpAck ∧ tcp.ack = c.nextSeq
  · rw [if_pos hsyn, if_pos (hnext ▸ hsyn)]
    have hest := H.base.setState (H.base.setExpected hR (tcp.seq + 1)) .established
    have hsend := H.base.tcpSendSegment h hest tcpAck [] 0
    exact (hsend.1.setConn H.base.addr hsend.2).cancelTimer (H.base.addr hsend.2)
  · rw [if_neg hsyn, if_neg (hnext ▸ hsyn)]
    exact h

theorem handleSynReceived (h : StackRel R S s t) (hR : R c d) (tcp : TcpHeader) :
    StackRel R S (HalOS.handleSynReceived s c tcp) (HalOS.handleSynReceived t d tcp) := by
  rw [HalOS.handleSynReceived, HalOS.handleSynReceived]
  have hnext : d.nextSeq = c.nextSeq := by
    rw [(H.closed c.addr).nextSeq hR rfl, UInt32.add_zero]
  by_cases hack : hasFlag tcp.flags tcpAck = true ∧ tcp.ack = c.nextSeq
  · rw [if_pos hack, if_pos (hnext ▸ hack)]
    have hset := h.setConn H.base.addr (H.base.setState hR .established)
    exact hset.cancelTimer (H.base.addr hR)
  · rw [if_neg hack, if_neg (hnext ▸ hack)]
    exact h

theorem passiveOpen (h : StackRel R S s t) (srcIp dstIp : UInt32) (tcp : TcpHeader)
    (bytes : ℕ → UInt8)
    (hopen : s.malloc.1 = true →
      R (passiveBlock s.nextAddr srcIp dstIp tcp bytes (generateSecureInitialSeq s).1)
        (passiveBlock s.nextAddr srcIp dstIp tcp bytes (generateSecureInitialSeq s).1)) :
    StackRel R S (HalOS.passiveOpen s srcIp dstIp tcp bytes)
      (HalOS.passiveOpen t srcIp dstIp tcp bytes) := by
  obtain ⟨cs, ls, rfl, hc, hs⟩ := h
  rw [TcpStack.malloc] at hopen
  rw [HalOS.passiveOpen, HalOS.passiveOpen, TcpStack.malloc, TcpStack.malloc]
  generalize s.mallocs.headD true = ok at hopen
  cases ok with
  | false => exact ⟨cs, ls, rfl, hc, hs⟩
  | true =>
      replace hopen := hopen rfl
      -- the stacks once the block is on the list
      have hadd : StackRel R S
          { s with
            mallocs := s.mallocs.tail
            counter := s.counter + 1
            nextAddr := s.nextAddr + 1 }
          { s with
            connectionList := cs
            sent := ls
            mallocs := s.mallocs.tail
            counter := s.counter + 1
            nextAddr := s.nextAddr + 1 } := ⟨cs, ls, rfl, hc, hs⟩
      have hsend := H.base.tcpSendSegment (hadd.addConnection hopen) hopen (tcpSyn ||| tcpAck) [] 0
      exact (hsend.1.setConn H.base.addr hsend.2).startRetransmissionTimer
        (H.base.addr hsend.2) retransmitTimeout

theorem tcpConnect (h : StackRel R S s t) (stale : StaleBlock) (remoteIp : UInt32)
    (remotePort : UInt16)
    (hopen : s.malloc.1 = true → R (activeBlock s.nextAddr s.nicIp stale remoteIp remotePort
        (generateSecureInitialSeq s).1
        (generateSecureInitialSeq (generateSecureInitialSeq s).2).1)
      (activeBlock s.nextAddr s.nicIp stale remoteIp remotePort (generateSecureInitialSeq s).1
        (generateSecureInitialSeq (generateSecureInitialSeq s).2).1)) :
    StackRel R S (HalOS.tcpConnect s stale remoteIp remotePort)
      (HalOS.tcpConnect t stale remoteIp remotePort) := by
  obtain ⟨cs, ls, rfl, hc, hs⟩ := h
  rw [TcpStack.malloc] at hopen
  rw [HalOS.tcpConnect, HalOS.tcpConnect, TcpStack.malloc, TcpStack.malloc]
  generalize s.mallocs.headD true = ok at hopen
  cases ok with
  | false => exact ⟨cs, ls, rfl, hc, hs⟩
  | true =>
      replace hopen := hopen rfl
      have hnext : StackRel R S
          { s with
            mallocs := s.mallocs.tail
            counter := s.counter + 1 + 1
            nextAddr := s.nextAddr + 1 }
          { s with
            connectionList := cs
            sent := ls
            mallocs := s.mallocs.tail
            counter := s.counter + 1 + 1
            nextAddr := s.nextAddr + 1 } := ⟨cs, ls, rfl, hc, hs⟩
      have hsend := H.base.tcpSendSegment hnext hopen tcpSyn [] 0
      exact hsend.1.addConnection hsend.2

/-- The handler for the state of the connection. -/
theorem handleInState (h : StackRel R S s t) (hR : R c d) (tcp : TcpHeader) (bytes : ℕ → UInt8)
    (len : UInt16) :
    Alike (StackRel R S) (HalOS.handleInState s c tcp bytes len)
      (HalOS.handleInState t d tcp bytes len) := by
  have hack : ({ tcp with ack := tcp.ack + 0 } : TcpHeader) = tcp := by rw [UInt32.add_zero]
  have hzero := H.closed c.addr
  rw [HalOS.handleInState, HalOS.handleInState, H.base.state hR, H.base.addr hR]
  cases c.state with
  | synSent => exact .ok (H.handleSynSent h hR tcp)
  | synReceived => exact .ok (H.handleSynReceived h hR tcp)
  | established =>
      have hest := hzero.handleEstablishedState h tcp bytes len
        (fun _ _ => ackAgrees_zero _ _) (Or.inl rfl)
      rwa [hack] at hest
  | waitForAck =>
      have hwait := hzero.handleWaitForAckState h tcp fun _ _ => waitAgrees_zero _ _
      rwa [hack] at hwait
  | lastAck =>
      have hlast := hzero.handleLastAckState h tcp
      rwa [hack] at hlast
  | _ => exact .ok h

theorem handleSegment (h : StackRel R S s t) (srcIp dstIp : UInt32) (tcp : TcpHeader)
    (bytes : ℕ → UInt8) (len : UInt16)
    (hopen : findConnection s srcIp tcp.srcPort dstIp tcp.destPort = none → s.malloc.1 = true →
      R (passiveBlock s.nextAddr srcIp dstIp tcp bytes (generateSecureInitialSeq s).1)
        (passiveBlock s.nextAddr srcIp dstIp tcp bytes (generateSecureInitialSeq s).1)) :
    Alike (StackRel R S) (HalOS.handleSegment s srcIp dstIp tcp bytes len)
      (HalOS.handleSegment t srcIp dstIp tcp bytes len) := by
  have hlisten : isListeningPort t tcp.destPort = isListeningPort s tcp.destPort := by
    obtain ⟨cs, ls, rfl, -, -⟩ := h
    rfl
  rw [HalOS.handleSegment, HalOS.handleSegment, hlisten]
  by_cases hoff : tcp.dataOffset >>> 4 < 5
  · rw [if_pos hoff, if_pos hoff]
    exact .ok (H.tcpSendReset h srcIp dstIp tcp)
  · rw [if_neg hoff, if_neg hoff]
    rw [findConnection_eq] at hopen
    rw [findConnection_eq, findConnection_eq]
    obtain ⟨hn, hn'⟩ | ⟨c, d, hc, hd, hR⟩ := forall₂_find? h.connections
      (p := fun c => c.key == (srcIp, tcp.srcPort, dstIp, tcp.destPort))
      (q := fun c => c.key == (srcIp, tcp.srcPort, dstIp, tcp.destPort))
      fun c d hcd => by rw [H.key hcd]
    · rw [hn, hn']
      simp only
      split_ifs
      · exact .ok h
      · exact .ok (H.passiveOpen h srcIp dstIp tcp bytes (hopen hn))
      · exact .ok (H.tcpSendReset h srcIp dstIp tcp)
    · rw [hc, hd]
      simp only [H.base.addr hR]
      split_ifs
      · exact H.base.removeConnection h c.addr
      · exact H.handleInState h hR tcp bytes len

/-- **The lockstep rule.** Stacks in lockstep stay so under every event. -/
theorem next (h : StackRel R S s t) (e : TcpEvent) (hopen : ∀ c, e.Opens s c → R c c) :
    Alike (StackRel R S) (e.next s) (e.next t) := by
  cases e with
  | segment srcIp dstIp bytes len =>
      exact H.handleSegment h srcIp dstIp _ bytes len
        fun hnone hmem => hopen _ (.passive hnone hmem)
  | connect stale remoteIp remotePort =>
      exact .ok (H.tcpConnect h stale remoteIp remotePort fun hmem => hopen _ (.active hmem))
  | listen port =>
      obtain ⟨cs, ls, rfl, hc, hs⟩ := h
      rw [TcpEvent.next, TcpEvent.next, tcpListen, tcpListen, TcpStack.malloc, TcpStack.malloc]
      cases s.mallocs.headD true with
      | false => exact .ok ⟨cs, ls, rfl, hc, hs⟩
      | true => exact .ok ⟨cs, ls, rfl, hc, hs⟩
  | send conn flags data dataLen =>
      refine (h.deref H.base.addr conn).bind fun c d hR => ?_
      have hsend := H.base.tcpSendSegment h hR flags data dataLen
      exact .ok (hsend.1.setConn H.base.addr hsend.2)
  | remove conn => exact H.base.removeConnection h conn
  | checkTimers => exact H.base.checkTcpTimers h
  | drain conn =>
      exact (h.deref H.base.addr conn).bind fun c d hR => .ok (h.setConn H.base.addr (H.drained hR))
  | tick ticks =>
      obtain ⟨cs, ls, rfl, hc, hs⟩ := h
      exact .ok ⟨cs, ls, rfl, hc, hs⟩

end RunClosed

end HalOS
