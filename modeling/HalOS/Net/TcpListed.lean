import HalOS.Net.TcpTimers

/-!
# Connections that Stay

A connection is taken off the list by a RST, by the acknowledgement that `TCP_LAST_ACK` waits for,
by the one that empties the queue in `TCP_WAIT_FOR_ACK`, when a timer gives it up, and by a caller
of `remove_connection`. Nothing else does.

## Main results

* `mem_addrs_checkTcpTimers`, `mem_addrs_handleSegment`: a connection that none of this happens to
  stays.
-/

namespace HalOS

open Outcome (bind_eq_ok)

/-- The timers of the connection that have run out. -/
def expiredTimers (s : TcpStack) (conn : ℕ) (timers : List TcpTimer) : List TcpTimer :=
  timers.filter fun t => t.conn = conn ∧ t.expired s

/-- The connection has a retry left for each of these timers: of its front entry in
`TCP_WAIT_FOR_ACK`, of the timer itself in any other state. -/
def RetriesLeft (c : TcpConnection) (timers : List TcpTimer) : Prop :=
  if c.state = .waitForAck then
    timers = [] ∨ c.retransmitQueue.head?.any (fun e =>
      e.retries.toNat + timers.length ≤ maxSynRetries.toNat) = true
  else ∀ t ∈ timers, t.retries < maxSynRetries

instance (c : TcpConnection) (timers : List TcpTimer) : Decidable (RetriesLeft c timers) :=
  inferInstanceAs (Decidable (ite _ _ _))

/-- A check of these timers does not give the connection up. -/
def KeepsOnTimers (s : TcpStack) (conn : ℕ) (timers : List TcpTimer) : Prop :=
  ∀ c ∈ s.connectionList, c.addr = conn → RetriesLeft c (expiredTimers s conn timers)

instance (s : TcpStack) (conn : ℕ) (timers : List TcpTimer) :
    Decidable (KeepsOnTimers s conn timers) :=
  inferInstanceAs (Decidable (∀ c ∈ s.connectionList, _ → _))

/-- The segment does not take the connection off the list: it is not for the connection, or no
RST, not the acknowledgement that `TCP_LAST_ACK` waits for, and not the one that empties the queue
in `TCP_WAIT_FOR_ACK`; and if it makes `handle_established_state` check the timers, they do not
give the connection up. -/
def KeepsOnSegment (s : TcpStack) (conn : ℕ) (srcIp dstIp : UInt32) (tcp : TcpHeader) : Prop :=
  ¬ tcp.dataOffset >>> 4 < 5 →
    ∀ c ∈ findConnection s srcIp tcp.srcPort dstIp tcp.destPort,
      (c.addr = conn →
        hasFlag tcp.flags tcpRst = false ∧
        (c.state = .lastAck → ¬ (hasFlag tcp.flags tcpAck = true ∧ tcp.ack = c.nextSeq)) ∧
        (c.state = .waitForAck → c.queueWild = false → c.retransmitQueue.length = 1 →
          ∀ e ∈ c.retransmitQueue, ¬ e.expectedAck ≤ tcp.ack)) ∧
      (hasFlag tcp.flags tcpRst = false → c.state = .established →
        KeepsOnTimers s conn s.activeTimers)

instance (s : TcpStack) (conn : ℕ) (srcIp dstIp : UInt32) (tcp : TcpHeader) :
    Decidable (KeepsOnSegment s conn srcIp dstIp tcp) :=
  inferInstanceAs (Decidable (_ → ∀ c ∈ findConnection s srcIp tcp.srcPort dstIp tcp.destPort,
    (_ → _ ∧ _ ∧ _) ∧ (_ → _ → _)))

variable {s s' : TcpStack} {c : TcpConnection} {conn : ℕ}

/-! ### The timer check -/

theorem RetriesLeft.sublist {timers timers' : List TcpTimer} (h : RetriesLeft c timers)
    (hsub : timers'.Sublist timers) : RetriesLeft c timers' := by
  rw [RetriesLeft] at h ⊢
  split_ifs at h ⊢
  · obtain rfl | h := h
    · exact Or.inl (List.sublist_nil.mp hsub)
    · obtain ⟨e, he, hleft⟩ := (Option.any_eq_true _ _).mp h
      refine Or.inr ((Option.any_eq_true _ _).mpr ⟨e, he, ?_⟩)
      rw [decide_eq_true_eq] at hleft ⊢
      exact Nat.le_trans (Nat.add_le_add_left hsub.length_le _) hleft
  · exact fun t ht => h t (hsub.subset ht)

theorem expiredTimers_sublist {timers timers' : List TcpTimer} (hsub : timers'.Sublist timers)
    (hticks : s'.ticks = s.ticks) (conn : ℕ) :
    (expiredTimers s' conn timers').Sublist (expiredTimers s conn timers) := by
  have hsame : expiredTimers s' conn timers' = expiredTimers s conn timers' := by
    refine List.filter_congr fun t _ => decide_eq_decide.mpr ?_
    rw [TcpTimer.expired_congr hticks]
  rw [hsame]
  exact hsub.filter _

theorem expiredTimers_cons_of_expired {timer : TcpTimer} (hconn : timer.conn = conn)
    (hexpired : timer.expired s) (timers : List TcpTimer) :
    expiredTimers s conn (timer :: timers) = timer :: expiredTimers s conn timers :=
  List.filter_cons_of_pos (decide_eq_true ⟨hconn, hexpired⟩)

/-- A timer of the connection that runs out takes one retry and does not give it up. -/
theorem RetriesLeft.retransmit {timer : TcpTimer} {timers : List TcpTimer}
    (h : RetriesLeft c (timer :: timers)) {x : Option (TcpStack × TcpTimer)}
    (hx : retransmitOnTimer s timer c = .ok x) :
    ∃ t timer' d, x = some (TcpStack.setConn t d, timer') ∧ t.connectionList = s.connectionList ∧
      d.addr = c.addr ∧ RetriesLeft d timers := by
  rw [RetriesLeft] at h
  cases x with
  | none =>
      obtain ⟨hstate, hspent⟩ | ⟨hstate, hspent⟩ := retransmitOnTimer_eq_none hx
      · rw [if_pos hstate] at h
        obtain h | h := h
        · cases h
        obtain ⟨e, he, hleft⟩ := (Option.any_eq_true _ _).mp h
        rw [decide_eq_true_eq, List.length_cons] at hleft
        refine absurd (UInt8.lt_iff_toNat_lt.mpr ?_) (hspent e he)
        exact Nat.lt_of_lt_of_le (Nat.lt_add_of_pos_right (Nat.succ_pos _)) hleft
      · rw [if_neg hstate] at h
        exact absurd (h timer List.mem_cons_self) hspent
  | some y =>
      obtain ⟨t', timer'⟩ := y
      obtain ⟨e, es, hstate, hq, hretries, x, rfl, rfl, -⟩ | ⟨hstate, -, x, rfl, rfl, -⟩ :=
        retransmitOnTimer_eq_some hx
      · refine ⟨_, timer', _, rfl, connectionList_tcpSendSegment _ _ _ _ _,
          addr_tcpSendSegment _ _ _ _ _, ?_⟩
        rw [if_pos hstate, hq] at h
        obtain h | h := h
        · cases h
        simp only [List.head?_cons, Option.any_some, decide_eq_true_eq, List.length_cons] at h
        have hraised : (e.retries + 1).toNat ≤ e.retries.toNat + 1 := by
          rw [UInt8.toNat_add]
          exact Nat.mod_le _ _
        rw [RetriesLeft, state_tcpSendSegment, if_pos hstate, tcpSendSegment_eq,
          TcpConnection.afterSend]
        refine Or.inr ?_
        split_ifs
        · simp only [List.head?_cons, Option.any_some, decide_eq_true_eq]
          change 0 + timers.length ≤ _
          omega
        · simp only [List.head?_cons, Option.any_some, decide_eq_true_eq]
          omega
      · refine ⟨_, timer', _, rfl, connectionList_tcpSendSegment _ _ _ _ _,
          addr_tcpSendSegment _ _ _ _ _, ?_⟩
        rw [if_neg hstate] at h
        rw [RetriesLeft, state_tcpSendSegment, if_neg hstate]
        exact fun t ht => h t (List.mem_cons_of_mem _ ht)

/-- After the turn of a timer of another connection the timers to come leave it its retries. -/
theorem KeepsOnTimers.rest {t : TcpStack} {timer : TcpTimer} {rest timers : List TcpTimer}
    (h : KeepsOnTimers s conn (timer :: rest)) (hticks : t.ticks = s.ticks)
    (hsub : timers.Sublist rest)
    (hblocks : ∀ d ∈ t.connectionList, d.addr = conn → d ∈ s.connectionList) :
    KeepsOnTimers t conn timers := fun d hd heq =>
  (h d (hblocks d hd heq) heq).sublist (expiredTimers_sublist (hsub.cons timer) hticks conn)

/-- A timer that is given up is one of another connection. -/
theorem KeepsOnTimers.ne_of_none {timer : TcpTimer} {rest : List TcpTimer}
    (h : KeepsOnTimers s conn (timer :: rest)) (hc : s.deref timer.conn = .ok c)
    (hexpired : timer.expired s) (hspent : retransmitOnTimer s timer c = .ok none) :
    c.addr ≠ conn := by
  intro hown
  obtain ⟨hcmem, hcaddr⟩ := deref_eq_ok hc
  have hleft := h c hcmem hown
  rw [expiredTimers_cons_of_expired (hcaddr.symm.trans hown) hexpired] at hleft
  obtain ⟨t, timer', d, hsome, -⟩ := hleft.retransmit hspent
  cases hsome

/-- The loop of the timer check. -/
theorem TimerLoop.mem_addrs_of_keeps {kept rest : List TcpTimer} (h : TimerLoop kept rest s s')
    (hkeeps : KeepsOnTimers s conn rest) (hmem : conn ∈ s.addrs) : conn ∈ s'.addrs := by
  induction h with
  | done => exact hmem
  | running _ _ _ ih =>
      exact ih (hkeeps.rest rfl (List.Sublist.refl _) fun _ hd _ => hd) hmem
  | @again kept rest timer timer' s t s' c hc hexpired hretry hrest ih =>
      obtain ⟨hcmem, hcaddr⟩ := deref_eq_ok hc
      have hticks := (frame_retransmitOnTimer hretry).ticks
      by_cases hown : c.addr = conn
      · -- the timer is one of the connection: it has a retry left
        have hleft := hkeeps c hcmem hown
        rw [expiredTimers_cons_of_expired (hcaddr.symm.trans hown) hexpired] at hleft
        obtain ⟨u, timer'', d, hsome, hlist, hdaddr, hd⟩ := hleft.retransmit hretry
        cases hsome
        refine ih (fun e he heq => ?_) ?_
        · obtain rfl | he := mem_setConn he
          · exact hd.sublist (expiredTimers_sublist (List.Sublist.refl rest) hticks conn)
          · rw [hlist] at he
            exact (hkeeps e he heq).sublist
              (expiredTimers_sublist (List.sublist_cons_self timer rest) hticks conn)
        · refine mem_addrs_setConn d ?_
          rw [TcpStack.addrs, hlist]
          exact hmem
      · have hother : (∀ d ∈ t.connectionList, d.addr = conn → d ∈ s.connectionList) ∧
            conn ∈ t.addrs := by
          obtain ⟨e, es, -, -, -, x, hx, rfl, -⟩ | ⟨-, -, x, hx, rfl, -⟩ :=
            retransmitOnTimer_eq_some hretry
          all_goals
            refine ⟨fun d hd hdconn => ?_, mem_addrs_sendBack hx _ hmem⟩
            obtain rfl | hd := mem_setConn hd
            · rw [hx, addr_tcpSendSegment] at hdconn
              exact absurd hdconn hown
            · rwa [hx, connectionList_tcpSendSegment] at hd
        exact ih (hkeeps.rest hticks (List.Sublist.refl _) hother.1) hother.2
  | unlinked hc hexpired hspent hfree _ _ ih =>
      exact ih (hkeeps.rest (frame_freeConnection hfree).ticks (List.Sublist.refl _)
        fun d hd _ => mem_connectionList_freeConnection hfree hd)
        (mem_addrs_freeConnection hfree (hkeeps.ne_of_none hc hexpired hspent) hmem)
  | passedOver hc hexpired hspent hfree _ _ ih =>
      exact ih (hkeeps.rest (frame_freeConnection hfree).ticks (List.sublist_cons_self _ _)
        fun d hd _ => mem_connectionList_freeConnection hfree hd)
        (mem_addrs_freeConnection hfree (hkeeps.ne_of_none hc hexpired hspent) hmem)

/-- A check that finds a retry left for each timer of the connection keeps it. -/
theorem mem_addrs_checkTcpTimers (hkeeps : KeepsOnTimers s conn s.activeTimers)
    (h : conn ∈ s.addrs) (hs : checkTcpTimers s = .ok s') : conn ∈ s'.addrs :=
  (timerLoop_of_checkTcpTimers hs).mem_addrs_of_keeps hkeeps h

/-! ### Segments -/

theorem mem_addrs_handleEstablishedState {a : ℕ} {tcp : TcpHeader} {bytes : ℕ → UInt8}
    {len : UInt16} (hkeeps : KeepsOnTimers s conn s.activeTimers)
    (h : conn ∈ s.addrs) (hs : handleEstablishedState s a tcp bytes len = .ok s') :
    conn ∈ s'.addrs := by
  obtain ⟨x, c, z, hprep, -, hfinish, rfl⟩ := exists_of_handleEstablishedState hs
  refine mem_addrs_setConn _ ?_
  rw [TcpStack.addrs, connectionList_finishSegment hfinish]
  obtain ⟨s₁, htimers, hprep⟩ := bind_eq_ok.mp hprep
  obtain ⟨c₁, -, hfast⟩ := bind_eq_ok.mp hprep
  rw [connectionList_fastRetransmit hfast]
  exact mem_addrs_checkTcpTimers hkeeps h htimers

theorem mem_addrs_handleWaitForAckState {tcp : TcpHeader} (hc : s.deref c.addr = .ok c)
    (hkeeps : c.addr = conn → c.queueWild = false → c.retransmitQueue.length = 1 →
      ∀ e ∈ c.retransmitQueue, ¬ e.expectedAck ≤ tcp.ack)
    (h : conn ∈ s.addrs) (hs : handleWaitForAckState s c.addr tcp = .ok s') : conn ∈ s'.addrs := by
  obtain ⟨d, hd, hs⟩ := bind_eq_ok.mp hs
  obtain rfl : c = d := Except.ok.inj (hc.symm.trans hd)
  cases hq : c.retransmitQueue with
  | nil =>
      simp only [hq] at hs
      split_ifs at hs
      cases hs
      exact h
  | cons e es =>
      simp only [hq] at hs
      split_ifs at hs with hfull hlast
      · refine mem_addrs_removeConnection hs (fun heq => ?_) (mem_addrs_setConn _ h)
        refine hkeeps heq hlast.2 ?_ e (hq ▸ List.mem_cons_self) hfull
        rw [hq, hlast.1, List.length_singleton]
      all_goals rw [← Except.ok.inj hs]
      · exact mem_addrs_setConn _ h
      · exact mem_addrs_setConn _ h
      · exact mem_addrs_sendBack rfl _ h
      · exact mem_addrs_setConn _ h

theorem mem_addrs_handleInState {tcp : TcpHeader} {bytes : ℕ → UInt8} {len : UInt16}
    (haddr : Addressed s) (hc : c ∈ s.connectionList)
    (hlast : c.addr = conn → c.state = .lastAck →
      ¬ (hasFlag tcp.flags tcpAck = true ∧ tcp.ack = c.nextSeq))
    (hwait : c.addr = conn → c.state = .waitForAck → c.queueWild = false →
      c.retransmitQueue.length = 1 → ∀ e ∈ c.retransmitQueue, ¬ e.expectedAck ≤ tcp.ack)
    (htimers : c.state = .established → KeepsOnTimers s conn s.activeTimers)
    (h : conn ∈ s.addrs) (hs : handleInState s c tcp bytes len = .ok s') : conn ∈ s'.addrs := by
  rw [handleInState] at hs
  cases hstate : c.state with
  | synSent =>
      simp only [hstate] at hs
      rw [← Except.ok.inj hs]
      obtain ⟨-, heq⟩ | ⟨-, -, x, hx, heq⟩ := handleSynSent_cases s c tcp
      · rw [heq]
        exact h
      · rw [heq]
        exact mem_addrs_sendBack hx _ h
  | synReceived =>
      simp only [hstate] at hs
      rw [← Except.ok.inj hs, handleSynReceived]
      split_ifs
      · exact mem_addrs_setConn _ h
      · exact h
  | established =>
      simp only [hstate] at hs
      exact mem_addrs_handleEstablishedState (htimers hstate) h hs
  | waitForAck =>
      simp only [hstate] at hs
      exact mem_addrs_handleWaitForAckState (haddr.deref_of_mem hc)
        (fun heq => hwait heq hstate) h hs
  | lastAck =>
      simp only [hstate] at hs
      obtain ⟨d, hd, hs⟩ := bind_eq_ok.mp hs
      obtain rfl : c = d := Except.ok.inj ((haddr.deref_of_mem hc).symm.trans hd)
      split_ifs at hs with hfinal
      · exact mem_addrs_removeConnection hs (fun heq => hlast heq hstate hfinal) h
      · rw [← Except.ok.inj hs]
        exact h
  | _ =>
      simp only [hstate] at hs
      rw [← Except.ok.inj hs]
      exact h

theorem mem_addrs_passiveOpen (srcIp dstIp : UInt32) (tcp : TcpHeader) (bytes : ℕ → UInt8)
    (h : conn ∈ s.addrs) : conn ∈ (passiveOpen s srcIp dstIp tcp bytes).addrs := by
  obtain ⟨-, heq⟩ | ⟨-, c, t, x, rfl, rfl, hx, heq⟩ := passiveOpen_cases s srcIp dstIp tcp bytes
  · rw [heq]
    exact h
  · rw [heq, TcpStack.addrs, connectionList_startRetransmissionTimer]
    exact mem_addrs_sendBack hx _ (List.mem_cons_of_mem _ h)

/-- A segment that does not take the connection off the list keeps it. -/
theorem mem_addrs_handleSegment {srcIp dstIp : UInt32} {tcp : TcpHeader} {bytes : ℕ → UInt8}
    {len : UInt16} (haddr : Addressed s) (hkeeps : KeepsOnSegment s conn srcIp dstIp tcp)
    (h : conn ∈ s.addrs) (hs : handleSegment s srcIp dstIp tcp bytes len = .ok s') :
    conn ∈ s'.addrs := by
  rw [handleSegment] at hs
  by_cases hoff : tcp.dataOffset >>> 4 < 5
  · rw [if_pos hoff] at hs
    rw [← Except.ok.inj hs, tcpSendReset, TcpStack.addrs, connectionList_tcpSendSegment]
    exact h
  rw [if_neg hoff] at hs
  cases hfind : findConnection s srcIp tcp.srcPort dstIp tcp.destPort with
  | none =>
      simp only [hfind] at hs
      split_ifs at hs
      all_goals rw [← Except.ok.inj hs]
      · exact h
      · exact mem_addrs_passiveOpen _ _ _ _ h
      · rw [tcpSendReset, TcpStack.addrs, connectionList_tcpSendSegment]
        exact h
  | some c =>
      obtain ⟨hown, htimers⟩ := hkeeps hoff c hfind
      simp only [hfind] at hs
      split_ifs at hs with hrst
      · exact mem_addrs_removeConnection hs
          (fun heq => absurd ((hown heq).1.symm.trans hrst) Bool.false_ne_true) h
      · exact mem_addrs_handleInState haddr (List.mem_of_find?_eq_some hfind)
          (fun heq => (hown heq).2.1) (fun heq => (hown heq).2.2)
          (htimers (Bool.eq_false_iff.mpr hrst)) h hs

end HalOS
