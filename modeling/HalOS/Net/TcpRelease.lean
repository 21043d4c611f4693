import HalOS.Net.TcpRetire
import HalOS.Net.TcpSends

/-!
# What an Acknowledgement Releases

The two handlers that process acknowledgements do it differently. In `TCP_ESTABLISHED` the whole
queue is walked, but a SYN or a FIN is not counted in the end of an entry. In `TCP_WAIT_FOR_ACK` it
is counted, but only the entry at the front is looked at, and the queue is newest first.

## Main results

* `releasesAcked_iff`: the exact condition, for every queue and every acknowledgement.
-/

namespace HalOS

open Outcome (Steps bind_eq_ok exists_eq_ok_of_any)

/-- The number behind the segment that an entry stands for, its SYN or FIN counted, before it
wraps. -/
def RetransmitEntry.endSeq (e : RetransmitEntry) : ℕ :=
  e.seq.toNat + e.length.toNat + if hasFlag e.flags (tcpSyn ||| tcpFin) then 1 else 0

/-- The entries that an acknowledgement does not cover. -/
def outstanding (ack : UInt32) (queue : List RetransmitEntry) : List RetransmitEntry :=
  queue.filter fun e => ack.toNat < e.endSeq

/-- The handler of `TCP_ESTABLISHED` releases what is acknowledged: of the entries that were queued
before, those that are outstanding are left when the acknowledgement has been processed, in their
order, and what is queued before and after that comes in front of them. -/
def ReleasesEstablished (s : TcpStack) (c : TcpConnection) (tcp : TcpHeader) (bytes : ℕ → UInt8)
    (len : UInt16) (s' : TcpStack) : Prop :=
  ∃ x y z added left newer, prepareSegment s c.addr tcp = .ok x ∧
    processAck x.2 tcp.seq tcp.ack (len - tcp.headerLen) = .ok y ∧
    finishSegment x.1 y tcp bytes len = .ok z ∧ s'.deref c.addr = .ok z.2 ∧
    x.2.retransmitQueue = added ++ c.retransmitQueue ∧ left.Sublist added ∧
    y.retransmitQueue = left ++ outstanding tcp.ack c.retransmitQueue ∧
    z.2.retransmitQueue = newer ++ y.retransmitQueue

/-- The handler of `TCP_WAIT_FOR_ACK` releases what is acknowledged: but for their retry counts the
entries that are outstanding are left in their order, with at most one in front of them for each
segment that was sent, and the connection goes if there are none. -/
def ReleasesWaiting (s : TcpStack) (c : TcpConnection) (ack : UInt32) (s' : TcpStack) : Prop :=
  (∀ c', s'.deref c.addr = .ok c' → ∃ newer, newer.length ≤ (sentSince s s' c.addr).length ∧
    c'.retransmitQueue.map RetransmitEntry.content =
      newer ++ (outstanding ack c.retransmitQueue).map RetransmitEntry.content) ∧
  (c.addr ∉ s'.addrs ↔ outstanding ack c.retransmitQueue = [])

/-- The handler of the state releases exactly what is acknowledged. -/
def ReleasesAcked (s : TcpStack) (c : TcpConnection) (tcp : TcpHeader) (bytes : ℕ → UInt8)
    (len : UInt16) (s' : TcpStack) : Prop :=
  match c.state with
  | .established => ReleasesEstablished s c tcp bytes len s'
  | .waitForAck => ReleasesWaiting s c tcp.ack s'
  | _ => True

/-- In `TCP_ESTABLISHED` the acknowledgement is not the number of a SYN or FIN that is queued. In
`TCP_WAIT_FOR_ACK` there is an entry, it covers none but the front one, and not all of a queue that
does not end. -/
def AcksFrontOnly (c : TcpConnection) (ack : UInt32) : Prop :=
  match c.state with
  | .established => ∀ e ∈ c.retransmitQueue, hasFlag e.flags (tcpSyn ||| tcpFin) = true →
      e.seq.toNat + e.length.toNat ≠ ack.toNat
  | .waitForAck => c.retransmitQueue ≠ [] ∧ (∀ e ∈ c.retransmitQueue.tail, ack.toNat < e.endSeq) ∧
      (c.queueWild = true → ∃ e ∈ c.retransmitQueue, ack.toNat < e.endSeq)
  | _ => True

variable {s s' : TcpStack} {c : TcpConnection} {e : RetransmitEntry} {ack : UInt32}

/-! ### Entries that do not wrap -/

theorem toNat_dataEnd (h : e.endSeq < 2 ^ 32) :
    (e.seq + e.length.toUInt32).toNat = e.seq.toNat + e.length.toNat := by
  rw [RetransmitEntry.endSeq] at h
  rw [UInt32.toNat_add, UInt16.toNat_toUInt32]
  exact Nat.mod_eq_of_lt (Nat.lt_of_le_of_lt (Nat.le_add_right _ _) h)

theorem toNat_expectedAck (h : e.endSeq < 2 ^ 32) : e.expectedAck.toNat = e.endSeq := by
  have hdata := toNat_dataEnd h
  rw [RetransmitEntry.endSeq] at h ⊢
  rw [RetransmitEntry.expectedAck, UInt32.toNat_add, hdata]
  split_ifs at h ⊢
  · exact Nat.mod_eq_of_lt h
  · exact Nat.mod_eq_of_lt h

/-- Where the walk of `TCP_ESTABLISHED` and the law differ: on a SYN or FIN that is next. -/
theorem keeps_iff (h : e.endSeq < 2 ^ 32)
    (hnext : hasFlag e.flags (tcpSyn ||| tcpFin) = true →
      e.seq.toNat + e.length.toNat ≠ ack.toNat) :
    (!(e.seq + e.length.toUInt32 ≤ ack : Bool)) = decide (ack.toNat < e.endSeq) := by
  rw [Bool.eq_iff_iff, Bool.not_eq_true', decide_eq_false_iff_not, decide_eq_true_iff,
    UInt32.le_iff_toNat_le, toNat_dataEnd h, RetransmitEntry.endSeq]
  split_ifs with hflags
  · have hne := hnext hflags
    omega
  · omega

/-! ### The two handlers -/

/-- The walk over what was queued before releases what is acknowledged, just if it meets no SYN or
FIN that is next. -/
theorem releasesEstablished_iff {tcp : TcpHeader} {bytes : ℕ → UInt8} {len : UInt16}
    (hc : s.deref c.addr = .ok c) (hstate : c.state = .established)
    (hwrap : ∀ e ∈ c.retransmitQueue, e.endSeq < 2 ^ 32)
    (h : handleEstablishedState s c.addr tcp bytes len = .ok s') :
    ReleasesEstablished s c tcp bytes len s' ↔ ∀ e ∈ c.retransmitQueue,
      hasFlag e.flags (tcpSyn ||| tcpFin) = true →
        e.seq.toNat + e.length.toNat ≠ tcp.ack.toNat := by
  obtain ⟨x, y, z, hprepare, hack, hfinish, rfl⟩ := exists_of_handleEstablishedState h
  obtain ⟨hgrown, -⟩ := prepareSegment_established hc hstate hprepare
  obtain ⟨added, hadded⟩ := hgrown.queue
  obtain ⟨-, hy⟩ := processAck_eq_ok.mp hack
  have hwalk : y.retransmitQueue =
      added.filter (fun e => !(e.seq + e.length.toUInt32 ≤ tcp.ack)) ++
        c.retransmitQueue.filter fun e => !(e.seq + e.length.toUInt32 ≤ tcp.ack) := by
    rw [hy, TcpConnection.afterAck, hadded, List.filter_append]
  constructor
  · rintro ⟨x', y', z', added', left, newer, hx', hy', -, -, -, -, hleft, -⟩
    obtain rfl := Except.ok.inj (hprepare.symm.trans hx')
    obtain rfl := Except.ok.inj (hack.symm.trans hy')
    -- an entry that is next is outstanding, and the walk drops it
    intro e he hflags hnext
    have hout : e ∈ outstanding tcp.ack c.retransmitQueue := by
      refine List.mem_filter.mpr ⟨he, decide_eq_true ?_⟩
      rw [RetransmitEntry.endSeq, if_pos hflags]
      omega
    have hmem := List.mem_append_right left hout
    rw [← hleft, hwalk, ← List.filter_append, List.mem_filter, Bool.not_eq_true',
      decide_eq_false_iff_not, UInt32.le_iff_toNat_le, toNat_dataEnd (hwrap e he)] at hmem
    exact hmem.2 (Nat.le_of_eq hnext)
  · intro hnext
    obtain ⟨e, he⟩ := deref_prepareSegment hprepare
    have haddr : y.addr = c.addr := by
      rw [hy]
      exact hgrown.addr
    have hread := ((sendsOnly_finishSegment hfinish).written (haddr.symm ▸ he)).1
    obtain ⟨newer, hnewer⟩ := (sendsOnly_finishSegment hfinish).queue
    have hsame : c.retransmitQueue.filter (fun e => !(e.seq + e.length.toUInt32 ≤ tcp.ack)) =
        outstanding tcp.ack c.retransmitQueue :=
      List.filter_congr fun e he => keeps_iff (hwrap e he) (hnext e he)
    rw [hsame] at hwalk
    exact ⟨x, y, z, added, _, newer, hprepare, hack, hfinish, haddr ▸ hread, hadded,
      List.filter_sublist, hwalk, hnewer⟩

theorem outstanding_eq_self {queue : List RetransmitEntry} :
    outstanding ack queue = queue ↔ ∀ e ∈ queue, ack.toNat < e.endSeq := by
  rw [outstanding, List.filter_eq_self]
  exact forall₂_congr fun e _ => decide_eq_true_iff

/-- A list that ends in what a test leaves of another one, whose first element passes, has all of
it. -/
theorem filter_eq_self_of_append {α : Type} {added newer l : List α} {a : α} {q : α → Bool}
    (h : added ++ a :: l = newer ++ (a :: l).filter q) (ha : q a = true) :
    (a :: l).filter q = a :: l := by
  have hlen : ((a :: l).filter q).length ≤ (a :: l).length := List.length_filter_le _ _
  obtain ⟨front, hfront⟩ := List.suffix_of_suffix_length_le (h ▸ List.suffix_append newer _)
    (List.suffix_append added (a :: l)) hlen
  cases front with
  | nil => exact hfront
  | cons b front =>
      obtain rfl : b = a := (List.cons.inj hfront).1
      -- the test leaves `b` in front of all that it leaves
      have hagain : ((b :: l).filter q).filter q = (b :: l).filter q :=
        List.filter_eq_self.mpr fun x hx => (List.mem_filter.mp hx).2
      have hcount := congrArg List.length (congrArg (List.filter q) hfront)
      rw [List.filter_append, hagain, List.filter_cons_of_pos ha, List.length_append,
        List.length_cons] at hcount
      omega

/-- Whether an entry is outstanding does not depend on its retry count. -/
theorem map_content_outstanding (ack : UInt32) (queue : List RetransmitEntry) :
    (outstanding ack queue).map RetransmitEntry.content =
      (queue.map RetransmitEntry.content).filter fun x => ack.toNat < x.1.toNat + x.2.1.toNat +
        if hasFlag x.2.2.1 (tcpSyn ||| tcpFin) then 1 else 0 := by
  rw [outstanding, List.filter_map]
  rfl

/-- The queue is left as it is, but for retry counts, and perhaps an entry in front, and the
connection stays. That releases what is acknowledged just if nothing is acknowledged. -/
theorem releasesWaiting_of_kept {c' : TcpConnection} {added queue : List RetransmitEntry}
    (hread : s'.deref c.addr = .ok c') (hqueue : c'.retransmitQueue = added ++ queue)
    (hadded : added.length ≤ (sentSince s s' c.addr).length)
    {es : List RetransmitEntry} (hq : c.retransmitQueue = e :: es)
    (hsame : queue.map RetransmitEntry.content = (e :: es).map RetransmitEntry.content)
    (hfront : ack.toNat < e.endSeq) :
    ReleasesWaiting s c ack s' ↔ ∀ f ∈ es, ack.toNat < f.endSeq := by
  constructor
  · rintro ⟨hleft, -⟩
    obtain ⟨newer, -, heq⟩ := hleft c' hread
    rw [hqueue, List.map_append, hsame, hq, map_content_outstanding, List.map_cons] at heq
    have hall := filter_eq_self_of_append heq (decide_eq_true hfront)
    rw [← List.map_cons, ← map_content_outstanding] at hall
    have hlen := congrArg List.length hall
    rw [List.length_map, List.length_map, outstanding, List.length_filter_eq_length_iff] at hlen
    exact fun f hf => of_decide_eq_true (hlen f (List.mem_cons_of_mem _ hf))
  · intro hall
    have hself : outstanding ack c.retransmitQueue = e :: es := by
      rw [hq, outstanding_eq_self]
      exact List.forall_mem_cons.mpr ⟨hfront, hall⟩
    rw [ReleasesWaiting, hself]
    refine ⟨fun d hd => ?_, iff_of_false (not_not_intro ?_) nofun⟩
    · obtain rfl := Except.ok.inj (hread.symm.trans hd)
      refine ⟨added.map RetransmitEntry.content, ?_, ?_⟩
      · rw [List.length_map]
        exact hadded
      · rw [hqueue, List.map_append, hsame]
    · obtain ⟨hmem, haddr⟩ := deref_eq_ok hread
      exact haddr ▸ List.mem_map_of_mem hmem

/-- An acknowledgement of the front entry: it goes, and with the last one the connection. -/
theorem handleWaitForAckState_of_acked {tcp : TcpHeader} (hc : s.deref c.addr = .ok c)
    {es : List RetransmitEntry} (hq : c.retransmitQueue = e :: es)
    (hfull : e.expectedAck ≤ tcp.ack) : handleWaitForAckState s c.addr tcp =
      if es = [] ∧ c.queueWild = false then
        removeConnection (s.setConn { c with retransmitQueue := es }) c.addr
      else .ok (s.setConn { c with retransmitQueue := es }) := by
  simp only [handleWaitForAckState, hc, bind, Except.bind, hq]
  exact if_pos hfull

/-- The front entry is acknowledged. That releases what is acknowledged just if no other is, and
if the end of the queue is seen. -/
theorem releasesWaiting_of_acked {tcp : TcpHeader} (hc : s.deref c.addr = .ok c)
    {es : List RetransmitEntry} (hq : c.retransmitQueue = e :: es)
    (hwrap : e.endSeq < 2 ^ 32) (hfull : e.expectedAck ≤ tcp.ack)
    (h : handleWaitForAckState s c.addr tcp = .ok s') :
    ReleasesWaiting s c tcp.ack s' ↔ (∀ f ∈ es, tcp.ack.toNat < f.endSeq) ∧
      (c.queueWild = true → ∃ f ∈ e :: es, tcp.ack.toNat < f.endSeq) := by
  have hcovered : ¬ tcp.ack.toNat < e.endSeq := by
    rw [← toNat_expectedAck hwrap]
    exact Nat.not_lt.mpr (UInt32.le_iff_toNat_le.mp hfull)
  have hout : outstanding tcp.ack c.retransmitQueue = outstanding tcp.ack es := by
    rw [hq]
    exact List.filter_cons_of_neg fun hlt => hcovered (of_decide_eq_true hlt)
  rw [handleWaitForAckState_of_acked hc hq hfull] at h
  rw [ReleasesWaiting, hout]
  split_ifs at h with hlast
  · obtain ⟨rfl, hwild⟩ := hlast
    have hgone := not_mem_addrs_removeConnection h
    refine iff_of_true ⟨fun c' hc' => ?_, iff_of_true hgone rfl⟩ ⟨nofun, fun htrue => ?_⟩
    · obtain ⟨hmem, haddr⟩ := deref_eq_ok hc'
      exact absurd (haddr ▸ List.mem_map_of_mem hmem) hgone
    · exact absurd (hwild.symm.trans htrue) Bool.false_ne_true
  · obtain rfl := Except.ok.inj h
    have hread : (s.setConn { c with retransmitQueue := es }).deref c.addr =
        .ok { c with retransmitQueue := es } := deref_setConn hc rfl
    have hstays : c.addr ∈ (s.setConn { c with retransmitQueue := es }).addrs :=
      mem_addrs_setConn _ (List.mem_map_of_mem (deref_eq_ok hc).1)
    have hquiet : sentSince s (s.setConn { c with retransmitQueue := es }) c.addr = [] :=
      sentSince_self rfl
    constructor
    · rintro ⟨hleft, hgone⟩
      obtain ⟨newer, hnewer, heq⟩ := hleft _ hread
      rw [hquiet, List.length_nil, Nat.le_zero, List.length_eq_zero_iff] at hnewer
      rw [hnewer, List.nil_append] at heq
      have hlen := congrArg List.length heq
      rw [List.length_map, List.length_map, eq_comm, outstanding,
        List.length_filter_eq_length_iff] at hlen
      refine ⟨fun f hf => of_decide_eq_true (hlen f hf), fun _ => ?_⟩
      have hsome : outstanding tcp.ack es ≠ [] := fun hnil => hgone.mpr hnil hstays
      obtain ⟨f, hf⟩ := List.exists_mem_of_ne_nil _ hsome
      obtain ⟨hf, hlt⟩ := List.mem_filter.mp hf
      exact ⟨f, List.mem_cons_of_mem _ hf, of_decide_eq_true hlt⟩
    · rintro ⟨hall, hwild⟩
      rw [outstanding_eq_self.mpr hall]
      refine ⟨fun c' hc' => ?_, iff_of_false (not_not_intro hstays) fun hnil => ?_⟩
      · obtain rfl := Except.ok.inj (hread.symm.trans hc')
        exact ⟨[], Nat.zero_le _, rfl⟩
      · -- the queue has come to its end, which the code does not see
        have htrue : c.queueWild = true := by
          by_contra hfalse
          exact hlast ⟨hnil, Bool.eq_false_iff.mpr hfalse⟩
        obtain ⟨f, hf, hlt⟩ := hwild htrue
        rw [hnil, List.mem_singleton] at hf
        exact hcovered (hf ▸ hlt)

/-- The handler looks at the front entry alone. -/
theorem releasesWaiting_iff {tcp : TcpHeader} (hc : s.deref c.addr = .ok c)
    (hwrap : ∀ e ∈ c.retransmitQueue, e.endSeq < 2 ^ 32)
    (h : handleWaitForAckState s c.addr tcp = .ok s') :
    ReleasesWaiting s c tcp.ack s' ↔ c.retransmitQueue ≠ [] ∧
      (∀ e ∈ c.retransmitQueue.tail, tcp.ack.toNat < e.endSeq) ∧
        (c.queueWild = true → ∃ e ∈ c.retransmitQueue, tcp.ack.toNat < e.endSeq) := by
  cases hq : c.retransmitQueue with
  | nil =>
      obtain rfl := eq_of_handleWaitForAckState_nil hc hq h
      refine iff_of_false (fun hreleases => ?_) fun hboth => hboth.1 rfl
      rw [ReleasesWaiting, hq] at hreleases
      exact hreleases.2.mpr rfl (List.mem_map_of_mem (deref_eq_ok hc).1)
  | cons e es =>
      have hend : e.endSeq < 2 ^ 32 := hwrap e (hq ▸ List.mem_cons_self)
      rw [List.tail_cons, and_iff_right (List.cons_ne_nil e es)]
      by_cases hfull : e.expectedAck ≤ tcp.ack
      · exact releasesWaiting_of_acked hc hq hend hfull h
      have hfront : tcp.ack.toNat < e.endSeq := by
        rw [← toNat_expectedAck hend]
        exact UInt32.lt_iff_toNat_lt.mp (UInt32.not_le.mp hfull)
      rw [and_iff_left fun _ => ⟨e, List.mem_cons_self, hfront⟩]
      obtain ⟨hnot, -⟩ | ⟨hnot, -⟩ | ⟨-, -, rfl⟩ | ⟨-, -, -, x, hx, rfl⟩ | ⟨-, -, -, rfl⟩ :=
        handleWaitForAckState_eq_ok hc hq h
      · exact absurd hnot hfull
      · exact absurd hnot hfull
      · have hread := deref_setConn (d := { c with
          lastAck := tcp.ack
          retransmitQueue := { e with retries := 0 } :: es }) hc rfl
        exact releasesWaiting_of_kept hread (List.nil_append _).symm (Nat.zero_le _) hq rfl hfront
      · have hread : (x.1.setConn { x.2 with dupAckCount := 0 }).deref c.addr =
            .ok { x.2 with dupAckCount := 0 } :=
          deref_setConn (by rw [hx, deref_tcpSendSegment, hc]) (by rw [hx, addr_tcpSendSegment])
        obtain ⟨added, hadded, hone⟩ := queue_tcpSendSegment hx
        refine releasesWaiting_of_kept hread hadded ?_ hq (by rw [← hq]) hfront
        have hsent : (x.1.setConn { x.2 with dupAckCount := 0 }).sent = s.sent ++ [_] :=
          (congrArg (TcpStack.sent ·.1) hx).trans (sent_tcpSendSegment _ _ _ _ _)
        rw [sentSince_of_owner hsent fun seg hseg => List.mem_singleton.mp hseg ▸ rfl]
        exact hone
      · have hread := deref_setConn (d := { c with dupAckCount := c.dupAckCount + 1 }) hc rfl
        exact releasesWaiting_of_kept hread (List.nil_append _).symm (Nat.zero_le _) hq
          (congrArg _ hq) hfront

/-- **Cumulative acknowledgement.** For every queue whose entries do not wrap and every
acknowledgement, the handlers release exactly what is acknowledged if and only if, in
`TCP_ESTABLISHED`, no SYN or FIN of the queue is next, and in `TCP_WAIT_FOR_ACK` nothing is
acknowledged but the front entry. -/
theorem releasesAcked_iff (haddr : Addressed s) (hmem : c ∈ s.connectionList) {tcp : TcpHeader}
    {bytes : ℕ → UInt8} {len : UInt16} (hwrap : ∀ e ∈ c.retransmitQueue, e.endSeq < 2 ^ 32)
    (h : handleInState s c tcp bytes len = .ok s') :
    ReleasesAcked s c tcp bytes len s' ↔ AcksFrontOnly c tcp.ack := by
  have hc := haddr.deref_of_mem hmem
  rw [handleInState] at h
  rw [ReleasesAcked, AcksFrontOnly]
  cases hstate : c.state with
  | established =>
      rw [hstate] at h
      exact releasesEstablished_iff hc hstate hwrap h
  | waitForAck =>
      rw [hstate] at h
      exact releasesWaiting_iff hc hwrap h
  | _ => exact Iff.rfl

/-- A segment that is handled for the connection goes to the handler of its state. -/
theorem Handled.handleInState {seg : TcpSegment} (h : Handled seg s c s')
    (hoff : ¬ (TcpHeader.parse seg.bytes).dataOffset >>> 4 < 5)
    (hrst : hasFlag (TcpHeader.parse seg.bytes).flags tcpRst = false) :
    handleInState s c (TcpHeader.parse seg.bytes) seg.bytes seg.len = .ok s' := by
  rw [← handleSegment_of_find hoff h.found hrst]
  exact h.handled

/-- The SYN-ACK of the handshake is released by the first acknowledgement that follows. -/
theorem releasesAcked_iff_synAck : ∃ s c s', Handled (peerSegment 1 1 tcpAck []) s c s' ∧
    c.retransmitQueue ≠ [] ∧ ReleasesAcked s c (TcpHeader.parse (peerSegment 1 1 tcpAck []).bytes)
      (peerSegment 1 1 tcpAck []).bytes (peerSegment 1 1 tcpAck []).len s' := by
  obtain ⟨s, c, s', h, hp⟩ := exists_handled peerOpens (peerSegment 1 1 tcpAck [])
    (fun _ c _ => decide (c.state = .established ∧ c.retransmitQueue ≠ [] ∧
      (∀ e ∈ c.retransmitQueue, e.endSeq < 2 ^ 32) ∧ ∀ e ∈ c.retransmitQueue,
        hasFlag e.flags (tcpSyn ||| tcpFin) = true → e.seq.toNat + e.length.toNat ≠
          (TcpHeader.parse (peerSegment 1 1 tcpAck []).bytes).ack.toNat))
    (by decide +kernel)
  obtain ⟨hstate, hqueue, hwrap, hnext⟩ := of_decide_eq_true hp
  have hmem := mem_of_findConnection h.found
  refine ⟨s, c, s', h, hqueue, (releasesAcked_iff h.addressed hmem hwrap
    (h.handleInState (by decide +kernel) (by decide +kernel))).mpr ?_⟩
  rw [AcksFrontOnly, hstate]
  exact hnext

/-- The page is queued in front of the header block. An acknowledgement of the header block alone
releases nothing. -/
theorem not_releasesAcked_header : ¬ ∀ seg s c s', Handled seg s c s' →
    c.state = .established ∨ c.state = .waitForAck →
    (∀ e ∈ c.retransmitQueue, e.endSeq < 2 ^ 32) → (TcpHeader.parse seg.bytes).ack ≤ c.nextSeq →
      ReleasesAcked s c (TcpHeader.parse seg.bytes) seg.bytes seg.len s' := by
  intro hall
  obtain ⟨s, c, s', h, hp⟩ := exists_handled (peerOpens ++
      [(peerSegment 1 1 tcpAck (asciiBytes "GET /")).arrives]) (peerSegment 6 83 tcpAck [])
    (fun s c s' => decide (c.state = .waitForAck ∧
      (∀ e ∈ c.retransmitQueue, e.endSeq < 2 ^ 32) ∧
      (TcpHeader.parse (peerSegment 6 83 tcpAck []).bytes).ack ≤ c.nextSeq ∧
      sentSince s s' c.addr = []) &&
      (s'.deref c.addr).toOption.any fun c' : TcpConnection => decide
        (c'.retransmitQueue.map RetransmitEntry.content ≠ (outstanding (TcpHeader.parse
          (peerSegment 6 83 tcpAck []).bytes).ack c.retransmitQueue).map RetransmitEntry.content))
    (by decide +kernel)
  obtain ⟨hbefore, hafter⟩ := Bool.and_eq_true_iff.mp hp
  obtain ⟨hstate, hwrap, hack, hquiet⟩ := of_decide_eq_true hbefore
  obtain ⟨c', hc', hmore⟩ := exists_eq_ok_of_any hafter
  have hreleases := hall _ s c s' h (Or.inr hstate) hwrap hack
  rw [ReleasesAcked, hstate] at hreleases
  obtain ⟨newer, hnewer, heq⟩ := hreleases.1 c' hc'
  rw [hquiet, List.length_nil, Nat.le_zero, List.length_eq_zero_iff] at hnewer
  rw [hnewer, List.nil_append] at heq
  exact of_decide_eq_true hmore heq

end HalOS
