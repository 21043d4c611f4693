import HalOS.Net.TcpFrame
import HalOS.Net.TcpWire

/-!
# The Timers that are Given Up

A timer that has run out with no retry left is given up: `remove_connection` takes it off the list
and its connection with it. The lines after that call then take the *next* timer off as well, whose
connection stays; and where there is no next one, they follow a null pointer. So the check does what
it ought to do just if it gives up nothing.

## Main results

* `TimerLoop.orphan`: the loop gives a timer up, and leaves a connection without its timer.
* `exists_checkTimersLoop`: the loop gives nothing up.
* `retiresOwn_iff`: the exact condition, for every list of timers.
-/

namespace HalOS

open Outcome (bind_eq_ok exists_eq_ok_of_any)

/-- The timer has run out. -/
def TcpTimer.expired (s : TcpStack) (t : TcpTimer) : Prop :=
  ¬ s.ticks - t.startTime < t.timeoutMs

instance (s : TcpStack) (t : TcpTimer) : Decidable (t.expired s) :=
  inferInstanceAs (Decidable (¬ _))

/-- Every timer is one of a connection of the list, and no connection has two. -/
structure OwnTimers (s : TcpStack) : Prop where
  live : ∀ t ∈ s.activeTimers, t.conn ∈ s.addrs
  single : (s.activeTimers.map (·.conn)).Nodup

instance (s : TcpStack) : Decidable (OwnTimers s) :=
  decidable_of_iff ((∀ t ∈ s.activeTimers, t.conn ∈ s.addrs) ∧
    (s.activeTimers.map (·.conn)).Nodup) ⟨fun h => ⟨h.1, h.2⟩, fun h => ⟨h.live, h.single⟩⟩

/-- There is no retry left: of the front entry of the queue in `TCP_WAIT_FOR_ACK`, which may be
empty, of the timer itself in any other state. -/
def Exhausted (c : TcpConnection) (t : TcpTimer) : Prop :=
  if c.state = .waitForAck then ∀ e ∈ c.retransmitQueue.head?, ¬ e.retries < maxSynRetries
  else ¬ t.retries < maxSynRetries

instance (c : TcpConnection) (t : TcpTimer) : Decidable (Exhausted c t) :=
  inferInstanceAs (Decidable (ite _ _ _))

/-- The timer has run out and its connection has no retry left. -/
def TcpTimer.spent (s : TcpStack) (t : TcpTimer) : Prop :=
  t.expired s ∧ ∃ c, s.deref t.conn = .ok c ∧ Exhausted c t

/-- What a check ought to do: the connections that go are those of the timers that are spent, and
the timers of the others stay in their order. -/
structure RetiresOwn (s s' : TcpStack) : Prop where
  removed : ∀ a ∈ s.addrs, a ∉ s'.addrs ↔ ∃ t ∈ s.activeTimers, t.conn = a ∧ t.spent s
  timers : s'.activeTimers.map (·.conn) =
    (s.activeTimers.map (·.conn)).filter fun a => a ∈ s'.addrs

variable {s s' t : TcpStack} {c : TcpConnection} {kept rest : List TcpTimer}
  {timer timer' : TcpTimer}

/-! ### One timer -/

theorem TcpTimer.expired_congr (h : s'.ticks = s.ticks) (t : TcpTimer) :
    t.expired s' ↔ t.expired s := by
  rw [expired, expired, h]

theorem exhausted_of_none (h : retransmitOnTimer s timer c = .ok none) : Exhausted c timer := by
  obtain ⟨hstate, hspent⟩ | ⟨hstate, hspent⟩ := retransmitOnTimer_eq_none h
  · rw [Exhausted, if_pos hstate]
    exact hspent
  · rw [Exhausted, if_neg hstate]
    exact hspent

theorem not_exhausted_of_some (h : retransmitOnTimer s timer c = .ok (some (t, timer'))) :
    ¬ Exhausted c timer := by
  obtain ⟨e, es, hstate, hq, hleft, -⟩ | ⟨hstate, hleft, -⟩ := retransmitOnTimer_eq_some h
  · rw [Exhausted, if_pos hstate, hq]
    exact fun hspent => hspent e rfl hleft
  · rw [Exhausted, if_neg hstate]
    exact not_not_intro hleft

/-- A timer that has a retry left sends. -/
theorem exists_retransmitOnTimer (s : TcpStack) (h : ¬ Exhausted c timer) :
    ∃ t timer', retransmitOnTimer s timer c = .ok (some (t, timer')) := by
  rw [Exhausted] at h
  by_cases hstate : c.state = .waitForAck
  · rw [if_pos hstate, Classical.not_forall] at h
    obtain ⟨e, h⟩ := h
    rw [Classical.not_imp, not_not] at h
    obtain ⟨he, hleft⟩ := h
    obtain ⟨es, hq⟩ := List.head?_eq_some_iff.mp he
    simp only [retransmitOnTimer, if_pos hstate, hq, if_pos hleft]
    exact ⟨_, _, rfl⟩
  · rw [if_neg hstate, not_not] at h
    rw [retransmitOnTimer, if_neg hstate, if_pos h]
    exact ⟨_, _, rfl⟩

/-- Sending changes neither the addresses nor any other block, and the timer stays one of its
connection. -/
theorem retransmitOnTimer_same (hc : s.deref timer.conn = .ok c)
    (hretry : retransmitOnTimer s timer c = .ok (some (t, timer'))) :
    t.addrs = s.addrs ∧ timer'.conn = timer.conn ∧
      ∀ a, a ≠ timer.conn → t.deref a = s.deref a := by
  have haddr := (deref_eq_ok hc).2
  have hsent (d : TcpConnection) (flags : UInt8) (data : List UInt8) (dataLen : UInt16)
      (x : TcpStack × TcpConnection) (hx : x = tcpSendSegment s d flags data dataLen)
      (hd : d.addr = c.addr) :
      (x.1.setConn x.2).addrs = s.addrs ∧
        ∀ a, a ≠ timer.conn → (x.1.setConn x.2).deref a = s.deref a := by
    refine ⟨?_, fun a ha => ?_⟩
    · rw [TcpStack.addrs, map_addr_setConn, hx, connectionList_tcpSendSegment]
    · rw [deref_setConn_of_ne, hx, deref_tcpSendSegment]
      rw [hx, addr_tcpSendSegment, hd, haddr]
      exact ha.symm
  obtain ⟨e, es, -, -, -, x, hx, rfl, rfl⟩ | ⟨-, -, x, hx, rfl, rfl⟩ :=
    retransmitOnTimer_eq_some hretry
  · obtain ⟨haddrs, hothers⟩ := hsent _ _ _ _ x hx rfl
    exact ⟨haddrs, rfl, hothers⟩
  · obtain ⟨haddrs, hothers⟩ := hsent _ _ _ _ x hx rfl
    exact ⟨haddrs, rfl, hothers⟩

/-- Another timer is spent after a retransmission just if it was before. -/
theorem spent_congr {d : TcpTimer} (hticks : t.ticks = s.ticks)
    (hderef : t.deref d.conn = s.deref d.conn) : d.spent t ↔ d.spent s := by
  rw [TcpTimer.spent, TcpTimer.spent, d.expired_congr hticks, hderef]

/-! ### A timer is given up -/

/-- The loop starts no timer. -/
theorem TimerLoop.conn_subset (h : TimerLoop kept rest s s') :
    s'.activeTimers.map (·.conn) ⊆ (kept ++ rest).map (·.conn) := by
  induction h with
  | done =>
      rw [List.append_nil]
      exact List.Subset.refl _
  | running _ _ _ ih => rwa [List.append_assoc] at ih
  | again hc _ hretry _ ih =>
      rw [List.append_assoc] at ih
      simpa [(retransmitOnTimer_same hc hretry).2.1] using ih
  | unlinked _ _ _ _ _ _ ih =>
      refine List.Subset.trans ih (List.map_subset _ (List.append_subset.mpr ⟨?_, ?_⟩))
      · exact List.subset_append_of_subset_left _ (List.eraseIdx_sublist _ _).subset
      · exact List.subset_append_of_subset_right _ (List.subset_cons_self _ _)
  | passedOver _ _ _ _ _ _ ih =>
      refine List.Subset.trans ih (List.map_subset _ (List.append_subset.mpr ⟨?_, ?_⟩))
      · exact List.subset_append_left _ _
      · exact List.subset_append_of_subset_right _ fun e he =>
          List.mem_cons_of_mem _ (List.mem_cons_of_mem _ he)

/-- The loop frees no connection without a timer to come. -/
theorem TimerLoop.mem_addrs {a : ℕ} (h : TimerLoop kept rest s s') (ha : a ∈ s.addrs)
    (hnone : a ∉ rest.map (·.conn)) : a ∈ s'.addrs := by
  induction h with
  | done => exact ha
  | running _ _ _ ih => exact ih ha (List.not_mem_of_not_mem_cons hnone)
  | again hc _ hretry _ ih =>
      refine ih ?_ (List.not_mem_of_not_mem_cons hnone)
      rw [(retransmitOnTimer_same hc hretry).1]
      exact ha
  | unlinked hc _ _ hfree _ _ ih =>
      refine ih (mem_addrs_freeConnection hfree ?_ ha) (List.not_mem_of_not_mem_cons hnone)
      rw [(deref_eq_ok hc).2]
      exact (List.ne_of_not_mem_cons hnone).symm
  | passedOver hc _ _ hfree _ _ ih =>
      refine ih (mem_addrs_freeConnection hfree ?_ ha)
        (List.not_mem_of_not_mem_cons (List.not_mem_of_not_mem_cons hnone))
      rw [(deref_eq_ok hc).2]
      exact (List.ne_of_not_mem_cons hnone).symm

/-- **A timer is given up**: the connection of the next one stays and has no timer. -/
theorem TimerLoop.orphan (h : TimerLoop kept rest s s')
    (hsingle : ((kept ++ rest).map (·.conn)).Nodup) (hlive : ∀ d ∈ rest, d.conn ∈ s.addrs)
    (hspent : ∃ d ∈ rest, d.spent s) :
    ∃ d ∈ rest, d.conn ∈ s'.addrs ∧ d.conn ∉ s'.activeTimers.map (·.conn) := by
  induction h with
  | done =>
      obtain ⟨d, hd, -⟩ := hspent
      exact absurd hd List.not_mem_nil
  | @running kept rest timer s s' c hc hrunning hrest ih =>
      obtain ⟨d, hd, hds⟩ := hspent
      have hd : d ∈ rest := by
        obtain rfl | hd := List.mem_cons.mp hd
        · exact absurd hrunning hds.1
        · exact hd
      obtain ⟨o, ho, horphan⟩ := ih (by rwa [List.append_assoc])
        (fun e he => hlive e (List.mem_cons_of_mem _ he)) ⟨d, hd, hds⟩
      exact ⟨o, List.mem_cons_of_mem _ ho, horphan⟩
  | @again kept rest timer timer' s t s' c hc hexpired hretry hrest ih =>
      obtain ⟨haddrs, hconn, hothers⟩ := retransmitOnTimer_same hc hretry
      have hticks := (frame_retransmitOnTimer hretry).ticks
      obtain ⟨d, hd, hds⟩ := hspent
      have hd : d ∈ rest := by
        obtain rfl | hd := List.mem_cons.mp hd
        · obtain ⟨-, e, he, hexhausted⟩ := hds
          obtain rfl := Except.ok.inj (hc.symm.trans he)
          exact absurd hexhausted (not_exhausted_of_some hretry)
        · exact hd
      have hne : d.conn ≠ timer.conn := by
        rw [List.map_append, List.map_cons, List.nodup_append] at hsingle
        intro heq
        exact (List.nodup_cons.mp hsingle.2.1).1 (List.mem_map.mpr ⟨d, hd, heq⟩)
      obtain ⟨o, ho, horphan⟩ := ih (by simpa [hconn] using hsingle)
        (fun e he => haddrs ▸ hlive e (List.mem_cons_of_mem _ he))
        ⟨d, hd, (spent_congr hticks (hothers _ hne)).mpr hds⟩
      exact ⟨o, List.mem_cons_of_mem _ ho, horphan⟩
  | @unlinked kept rest timer s t s' c i hc hexpired hgive hfree hfind hrest ih =>
      -- a timer before `pp` would be a second one of the connection
      obtain ⟨hi, heq, -⟩ := List.findIdx?_eq_some_iff_getElem.mp hfind
      rw [beq_iff_eq, (deref_eq_ok hc).2] at heq
      rw [List.map_append, List.map_cons, List.nodup_append] at hsingle
      exact absurd heq (hsingle.2.2 _ (List.mem_map_of_mem (List.getElem_mem hi)) _
        List.mem_cons_self)
  | @passedOver kept rest timer next s t s' c hc hexpired hgive hfree hfind hrest ih =>
      rw [List.map_append, List.map_cons, List.map_cons, List.nodup_append] at hsingle
      obtain ⟨-, hcons, hdisjoint⟩ := hsingle
      obtain ⟨hfirst, hnext⟩ := List.nodup_cons.mp hcons
      obtain ⟨hnext, -⟩ := List.nodup_cons.mp hnext
      refine ⟨next, List.mem_cons_of_mem _ List.mem_cons_self, ?_, fun hmem => ?_⟩
      · refine hrest.mem_addrs (mem_addrs_freeConnection hfree ?_ ?_) hnext
        · rw [(deref_eq_ok hc).2]
          exact List.ne_of_not_mem_cons hfirst
        · exact hlive next (List.mem_cons_of_mem _ List.mem_cons_self)
      · have := hrest.conn_subset hmem
        rw [List.map_append, List.mem_append] at this
        obtain hkept | hlater := this
        · exact hdisjoint _ hkept _ (List.mem_cons_of_mem _ List.mem_cons_self) rfl
        · exact hnext hlater

/-! ### No timer is given up -/

/-- The loop, by induction on the timers from `pp` on, when none of them is given up. -/
theorem exists_checkTimersLoop (rest : List TcpTimer) : ∀ (kept : List TcpTimer) (s : TcpStack),
    (rest.map (·.conn)).Nodup → (∀ d ∈ rest, ∃ c, s.deref d.conn = .ok c) →
      (∀ d ∈ rest, ¬ d.spent s) →
      ∃ s', checkTimersLoop kept rest s = .ok s' ∧ s'.addrs = s.addrs ∧
        s'.activeTimers.map (·.conn) = (kept ++ rest).map (·.conn) := by
  induction rest with
  | nil =>
      intro kept s _ _ _
      exact ⟨_, rfl, rfl, by rw [List.append_nil]⟩
  | cons timer rest ih =>
      intro kept s hsingle hlive hleft
      obtain ⟨hfirst, hsingle⟩ := List.nodup_cons.mp hsingle
      obtain ⟨⟨c, hc⟩, hlive⟩ := List.forall_mem_cons.mp hlive
      obtain ⟨htimer, hleft⟩ := List.forall_mem_cons.mp hleft
      by_cases hrunning : s.ticks - timer.startTime < timer.timeoutMs
      · obtain ⟨s', hs, haddrs, htimers⟩ := ih (kept ++ [timer]) s hsingle hlive hleft
        refine ⟨s', ?_, haddrs, by rwa [List.append_assoc] at htimers⟩
        rw [checkTimersLoop]
        refine bind_eq_ok.mpr ⟨c, hc, ?_⟩
        rw [if_pos hrunning]
        exact hs
      · have hnot : ¬ Exhausted c timer := fun hspent => htimer ⟨hrunning, c, hc, hspent⟩
        obtain ⟨t, timer', hretry⟩ := exists_retransmitOnTimer s hnot
        obtain ⟨haddrs, hconn, hothers⟩ := retransmitOnTimer_same hc hretry
        have hticks := (frame_retransmitOnTimer hretry).ticks
        have hsame : ∀ d ∈ rest, t.deref d.conn = s.deref d.conn := fun d hd =>
          hothers _ fun heq => hfirst (List.mem_map.mpr ⟨d, hd, heq⟩)
        obtain ⟨s', hs, haddrs', htimers⟩ := ih (kept ++ [timer']) t hsingle
          (fun d hd => by rw [hsame d hd]; exact hlive d hd)
          fun d hd hspent => hleft d hd ((spent_congr hticks (hsame d hd)).mp hspent)
        refine ⟨s', ?_, haddrs'.trans haddrs, ?_⟩
        · rw [checkTimersLoop]
          refine bind_eq_ok.mpr ⟨c, hc, ?_⟩
          rw [if_neg hrunning]
          exact bind_eq_ok.mpr ⟨_, hretry, hs⟩
        · rw [htimers]
          simp [hconn]

/-! ### The check -/

/-- A connection of the list is what its address leads to. -/
theorem exists_deref {a : ℕ} (h : a ∈ s.addrs) : ∃ c, s.deref a = .ok c := by
  obtain ⟨d, hd, rfl⟩ := List.mem_map.mp h
  rw [TcpStack.deref]
  cases hfind : s.connectionList.find? fun c => c.addr == d.addr with
  | none => exact absurd (beq_self_eq_true d.addr) (List.find?_eq_none.mp hfind d hd)
  | some c => exact ⟨c, rfl⟩

/-- **The check retires only its own timers**, just if it gives none up: for every table and every
list of timers of which each is one of a connection of its own. -/
theorem retiresOwn_iff (s : TcpStack) (h : OwnTimers s) :
    (∃ s', checkTcpTimers s = .ok s' ∧ RetiresOwn s s') ↔ ∀ t ∈ s.activeTimers, ¬ t.spent s := by
  constructor
  · rintro ⟨s', hs, howns⟩ d hd hspent
    obtain ⟨o, ho, hstays, hnone⟩ := (timerLoop_of_checkTcpTimers hs).orphan h.single h.live
      ⟨d, hd, hspent⟩
    rw [howns.timers, List.mem_filter, not_and] at hnone
    exact hnone (List.mem_map_of_mem ho) (decide_eq_true hstays)
  · intro hleft
    obtain ⟨s', hs, haddrs, htimers⟩ := exists_checkTimersLoop s.activeTimers [] s h.single
      (fun d hd => exists_deref (h.live d hd)) hleft
    refine ⟨s', hs, fun a ha => ⟨fun hgone => absurd (haddrs ▸ ha) hgone, ?_⟩, ?_⟩
    · rintro ⟨d, hd, -, hspent⟩
      exact absurd hspent (hleft d hd)
    · rw [htimers, List.nil_append, List.filter_eq_self.mpr]
      intro a ha
      obtain ⟨d, hd, rfl⟩ := List.mem_map.mp ha
      exact decide_eq_true (haddrs ▸ h.live d hd)

/-- The peer's SYN has come in; a check half a second before its timer runs out. -/
theorem retiresOwn_syn :
    ∃ s, s.activeTimers.length = 1 ∧ ∃ s', checkTcpTimers s = .ok s' ∧ RetiresOwn s s' := by
  obtain ⟨s, -, hs⟩ := exists_eq_ok_of_any
    (p := fun s => decide (OwnTimers s ∧ s.activeTimers.length = 1 ∧
      ∀ t ∈ s.activeTimers, ¬ t.expired s))
    (x := [.listen 8080, (peerSegment 0 0 tcpSyn []).arrives, .tick 2500].foldlM TcpEvent.next
      (.boot 0 0x0A00020F none [])) (by decide +kernel)
  obtain ⟨howns, hone, hrunning⟩ := of_decide_eq_true hs
  exact ⟨s, hone, (retiresOwn_iff s howns).mpr fun d hd hspent => hrunning d hd hspent.1⟩

/-- The peer's SYN has come in and it goes silent: after five retries the timer is given up, and
the check goes on to the one behind it. -/
theorem not_retiresOwn_silent :
    ¬ ∀ s, OwnTimers s → ∃ s', checkTcpTimers s = .ok s' ∧ RetiresOwn s s' := by
  intro hall
  obtain ⟨s, -, hs⟩ := exists_eq_ok_of_any
    (p := fun s => decide (OwnTimers s ∧ checkTcpTimers s = .error .nullDereference))
    (x := [.listen 8080, (peerSegment 0 0 tcpSyn []).arrives, .tick 3000, .checkTimers,
      .tick 6000, .checkTimers, .tick 9000, .checkTimers, .tick 12000, .checkTimers, .tick 15000,
      .checkTimers, .tick 18000].foldlM TcpEvent.next (.boot 0 0x0A00020F none []))
    (by decide +kernel)
  obtain ⟨howns, hnull⟩ := of_decide_eq_true hs
  obtain ⟨s', hs', -⟩ := hall s howns
  rw [hnull] at hs'
  cases hs'

end HalOS
