import HalOS.Shell.TelnetSafe

/-!
# The Bytes of the Telnet Client

`telnet_command` hands the receive buffer to `telnet_filter` and sets its length to zero two
statements later. What a segment appends between the two is lost, and so is what is left in the
buffer when the command ends. Everything else arrives, in order and once.

## Main results

* `delivered_of_drainsAll`: what is handed over is what was appended, exactly in the sessions in
  which neither happens.
-/

namespace HalOS

open Outcome (Steps bind_eq_ok exists_eq_ok_of_any)

/-- What was handed to `telnet_filter` is a prefix of what was appended, and all of it when the
command is done. -/
structure TelnetSession.Delivered (t : TelnetSession) : Prop where
  start : t.handed <+: t.appended
  complete : t.pc = .done → t.handed = t.appended

instance (t : TelnetSession) : Decidable t.Delivered :=
  decidable_of_iff (t.handed <+: t.appended ∧ (t.pc = .done → t.handed = t.appended))
    ⟨fun h => ⟨h.1, h.2⟩, fun h => ⟨h.start, h.complete⟩⟩

/-- Nothing is appended between the call of `telnet_filter` and the reset of the length, and
nothing waits in the buffer when the command removes its connection. -/
def TelnetSession.DrainsAll (t : TelnetSession) : TelnetInput → Prop
  | .statement _ =>
      t.pc.removesConn = true →
        ∀ c ∈ t.stack.connectionList, c.addr = t.conn → c.recvBuffer = []
  | .segment srcIp dstIp bytes len =>
      t.pc = .drainReset → appendedPayload t.stack t.conn srcIp dstIp (.parse bytes) bytes len = []
  | .tick _ => True

instance (t : TelnetSession) : (i : TelnetInput) → Decidable (t.DrainsAll i)
  | .statement _ =>
      inferInstanceAs (Decidable (_ → ∀ c ∈ t.stack.connectionList, _ → _))
  | .segment _ _ _ _ => inferInstanceAs (Decidable (_ → _))
  | .tick _ => .isTrue trivial

/-- These bytes wait to be handed over. Before the reset those that are in the buffer have been. -/
def TelnetSession.Waits (t : TelnetSession) (waiting : List UInt8) : Prop :=
  ∃ c ∈ t.stack.connectionList, c.addr = t.conn ∧
    waiting = if t.pc = .drainReset then [] else c.recvBuffer

variable {t t' : TelnetSession} {i : TelnetInput} {key : Option UInt8}

/-! ### Accounting for a step -/

/-- What a step appends, hands over and leaves. -/
structure TelnetSession.Accounts (t t' : TelnetSession) (payload : List UInt8) : Prop where
  appended : t'.appended = t.appended ++ payload
  handed : t'.handed = t.handed ∨
    payload = [] ∧ ∃ waiting, t.Waits waiting ∧ t'.handed = t.handed ++ waiting
  waits : ∀ waiting', t'.Waits waiting' → ∃ waiting, t.Waits waiting ∧
    t'.handed ++ waiting' = t.handed ++ waiting ++ if t.pc = .drainReset then [] else payload

/-- A step that leaves the buffers alone, away from the reset. -/
theorem TelnetSession.accounts_of_sameBuffers (hbuffers : SameBuffers t.stack t'.stack)
    (hconn : t'.conn = t.conn) (happended : t'.appended = t.appended)
    (hhanded : t'.handed = t.handed) (hpc : t.pc ≠ .drainReset) (hpc' : t'.pc ≠ .drainReset) :
    t.Accounts t' [] where
  appended := by rw [happended, List.append_nil]
  handed := Or.inl hhanded
  waits := by
    rintro waiting' ⟨c', hc', haddr', rfl⟩
    obtain ⟨c, hc, haddr, hbuffer⟩ := hbuffers c' hc'
    refine ⟨c.recvBuffer, ⟨c, hc, (haddr.trans haddr').trans hconn, (if_neg hpc).symm⟩, ?_⟩
    rw [if_neg hpc', if_neg hpc, List.append_nil, hhanded, hbuffer]

/-- A statement only reads and goes on. -/
theorem TelnetSession.accounts_read (hstack : t'.stack = t.stack) (hconn : t'.conn = t.conn)
    (happended : t'.appended = t.appended) (hhanded : t'.handed = t.handed)
    (hpc : t.pc ≠ .drainReset) (hpc' : t'.pc ≠ .drainReset) : t.Accounts t' [] :=
  accounts_of_sameBuffers (sameBuffers_of_subset fun _ he => hstack ▸ he) hconn happended hhanded
    hpc hpc'

theorem sameBuffers_sendOn {s s' : TcpStack} {conn : ℕ} {flags : UInt8} {data : List UInt8}
    {dataLen : UInt16} (h : sendOn s conn flags data dataLen = .ok s') : SameBuffers s s' := by
  obtain ⟨c, hc, h⟩ := bind_eq_ok.mp h
  have hback : SameBuffers s ((tcpSendSegment s c flags data dataLen).1.setConn
      (tcpSendSegment s c flags data dataLen).2) :=
    sameBuffers_sendBack rfl (deref_eq_ok hc).1 (addr_tcpSendSegment _ _ _ _ _).symm
      (recvBuffer_tcpSendSegment _ _ _ _ _).symm
  rw [← Except.ok.inj h]
  exact hback

/-- A key leads to the test of the state, to a send, or out of the loop. -/
theorem afterKey_ne (key : Option UInt8) : afterKey key ≠ .drainReset ∧ afterKey key ≠ .done := by
  cases key with
  | none => exact ⟨nofun, nofun⟩
  | some key =>
      rw [afterKey]
      split_ifs
      · exact ⟨nofun, nofun⟩
      · exact ⟨nofun, nofun⟩

/-- **A statement**, by cases on the place where the command stands. -/
theorem TelnetSession.accounts_statement (haddr : Addressed t.stack)
    (h : t.statement key = .ok t') : t.Accounts t' [] := by
  rw [TelnetSession.statement] at h
  cases hpc : t.pc with
  | readClock | done =>
      simp only [hpc] at h
      rw [← Except.ok.inj h]
      exact accounts_read rfl rfl rfl rfl (by rw [hpc]; rintro ⟨⟩) (by simp [hpc])
  | keyTest =>
      simp only [hpc] at h
      rw [← Except.ok.inj h]
      exact accounts_read rfl rfl rfl rfl (by rw [hpc]; rintro ⟨⟩) (afterKey_ne key).1
  | waitTest | connectedTest | loopTest | drainTest | closedTest =>
      simp only [hpc] at h
      obtain ⟨c, -, h⟩ := bind_eq_ok.mp h
      rw [← Except.ok.inj h]
      refine accounts_read rfl rfl rfl rfl (by rw [hpc]; rintro ⟨⟩) ?_
      dsimp only
      split_ifs
      · rintro ⟨⟩
      · rintro ⟨⟩
  | waitTimers | loopTimers =>
      simp only [hpc] at h
      obtain ⟨s, hs, h⟩ := bind_eq_ok.mp h
      rw [← Except.ok.inj h]
      exact accounts_of_sameBuffers (sameBuffers_checkTcpTimers haddr hs) rfl rfl rfl
        (by rw [hpc]; rintro ⟨⟩) (by rintro ⟨⟩)
  | timedOut | finish =>
      simp only [hpc] at h
      obtain ⟨s, hs, h⟩ := bind_eq_ok.mp h
      rw [← Except.ok.inj h]
      exact accounts_of_sameBuffers (sameBuffers_removeConnection hs) rfl rfl rfl
        (by rw [hpc]; rintro ⟨⟩) (by rintro ⟨⟩)
  | negotiate | sendKey =>
      simp only [hpc] at h
      obtain ⟨s, hs, h⟩ := bind_eq_ok.mp h
      rw [← Except.ok.inj h]
      exact accounts_of_sameBuffers (sameBuffers_sendOn hs) rfl rfl rfl
        (by rw [hpc]; rintro ⟨⟩) (by rintro ⟨⟩)
  | filter =>
      simp only [hpc] at h
      obtain ⟨c, hc, h⟩ := bind_eq_ok.mp h
      obtain ⟨hmem, hconn⟩ := deref_eq_ok hc
      have hwaits : t.Waits c.recvBuffer := ⟨c, hmem, hconn, by
        rw [hpc, if_neg (by decide)]⟩
      rw [← Except.ok.inj h]
      refine ⟨(List.append_nil _).symm, Or.inr ⟨rfl, c.recvBuffer, hwaits, rfl⟩, ?_⟩
      rintro waiting' ⟨d, -, -, rfl⟩
      refine ⟨c.recvBuffer, hwaits, ?_⟩
      rw [if_pos rfl, ite_self]
  | drainReset =>
      simp only [hpc] at h
      obtain ⟨s, hs, h⟩ := bind_eq_ok.mp h
      obtain ⟨c, hc, hs⟩ := bind_eq_ok.mp hs
      obtain ⟨hmem, hconn⟩ := deref_eq_ok hc
      rw [← Except.ok.inj h, ← Except.ok.inj hs]
      refine ⟨(List.append_nil _).symm, Or.inl rfl, ?_⟩
      rintro waiting' ⟨d, hd, hdconn, rfl⟩
      refine ⟨[], ⟨c, hmem, hconn, by rw [if_pos hpc]⟩, ?_⟩
      obtain rfl | ⟨-, hne⟩ := mem_setConn_iff_ne hd
      · rw [ite_self, ite_self, List.append_nil, List.append_nil, List.append_nil]
        rfl
      · exact absurd (hdconn.trans hconn.symm) hne

/-- A payload is appended to a listed connection only. -/
theorem mem_addrs_of_appendedPayload {s : TcpStack} {conn : ℕ} {srcIp dstIp : UInt32}
    {tcp : TcpHeader} {bytes : ℕ → UInt8} {len : UInt16}
    (h : appendedPayload s conn srcIp dstIp tcp bytes len ≠ []) : conn ∈ s.addrs := by
  rw [appendedPayload] at h
  split_ifs at h
  · exact absurd rfl h
  cases hfind : findConnection s srcIp tcp.srcPort dstIp tcp.destPort with
  | none =>
      rw [hfind] at h
      exact absurd rfl h
  | some c =>
      simp only [hfind] at h
      split_ifs at h with hown
      · exact hown.1 ▸ List.mem_map_of_mem (List.mem_of_find?_eq_some hfind)
      · exact absurd rfl h

/-- **A segment.** -/
theorem TelnetSession.accounts_segment (haddr : Addressed t.stack)
    (hknown : t.conn < t.stack.nextAddr) {srcIp dstIp : UInt32} {bytes : ℕ → UInt8} {len : UInt16}
    (h : t.step (.segment srcIp dstIp bytes len) = .ok t') :
    t.Accounts t' (appendedPayload t.stack t.conn srcIp dstIp (.parse bytes) bytes len) := by
  obtain ⟨s, hs, h⟩ := bind_eq_ok.mp h
  have hstack : t'.stack = s := by rw [← Except.ok.inj h]; rfl
  have hpc' : t'.pc = t.pc := by rw [← Except.ok.inj h]; rfl
  have hhanded : t'.handed = t.handed := by rw [← Except.ok.inj h]; rfl
  have hsame : t'.conn = t.conn := by rw [← Except.ok.inj h]; rfl
  refine ⟨by rw [← Except.ok.inj h], Or.inl hhanded, ?_⟩
  rintro waiting' ⟨c', hc', hconn', rfl⟩
  rw [hstack] at hc'
  rw [hsame] at hconn'
  obtain ⟨hsubset, -⟩ := addrs_subset_next (e := .segment srcIp dstIp bytes len) hs
  have hmem : t.conn ∈ t.stack.addrs := by
    obtain hmem | hfresh := hsubset _ (List.mem_map_of_mem hc')
    · exact hconn' ▸ hmem
    · exact absurd (hconn'.symm.trans hfresh) (Nat.ne_of_lt hknown)
  obtain ⟨c, hc, hconn⟩ := List.mem_map.mp hmem
  refine ⟨_, ⟨c, hc, hconn, rfl⟩, ?_⟩
  have hbuffer := recvBuffer_handleSegment haddr hs hc hc' (hconn.trans hconn'.symm)
  rw [hconn] at hbuffer
  rw [hpc', hhanded]
  split_ifs
  · rw [List.append_nil, List.append_nil]
  · rw [hbuffer, List.append_assoc]

/-- **A step.** -/
theorem TelnetSession.accounts_step (haddr : Addressed t.stack)
    (hknown : t.conn < t.stack.nextAddr) (h : t.step i = .ok t') :
    ∃ payload, t.Accounts t' payload ∧ (payload ≠ [] → t.conn ∈ t.stack.addrs) ∧
      (t.DrainsAll i → t.pc = .drainReset → payload = []) := by
  cases i with
  | statement key =>
      exact ⟨[], accounts_statement haddr h, fun hne => absurd rfl hne, fun _ _ => rfl⟩
  | segment srcIp dstIp bytes len =>
      exact ⟨_, accounts_segment haddr hknown h, mem_addrs_of_appendedPayload, id⟩
  | tick ticks =>
      rw [← Except.ok.inj h]
      refine ⟨[], ⟨(List.append_nil _).symm, Or.inl rfl, ?_⟩, fun hne => absurd rfl hne,
        fun _ _ => rfl⟩
      intro waiting hwaits
      exact ⟨waiting, hwaits, by rw [ite_self, List.append_nil]⟩

/-! ### Sessions that lose nothing -/

/-- What such a session keeps. -/
structure TelnetSession.Accounted (t : TelnetSession) : Prop where
  addressed : Addressed t.stack
  known : t.conn < t.stack.nextAddr
  waits : ∀ waiting, t.Waits waiting → t.handed ++ waiting = t.appended
  start : t.handed <+: t.appended
  ended : t.pc = .done → t.conn ∉ t.stack.addrs ∧ t.handed = t.appended

theorem TelnetSession.Accounted.delivered (h : t.Accounted) : t.Delivered :=
  ⟨h.start, fun hdone => (h.ended hdone).2⟩

/-- The command comes to its end by removing the connection. -/
theorem TelnetSession.step_done (h : t.step i = .ok t') (hdone : t'.pc = .done)
    (hbefore : t.pc ≠ .done) : ∃ key, i = .statement key ∧ t.pc.removesConn = true ∧
      removeConnection t.stack t.conn = .ok t'.stack ∧ t'.handed = t.handed ∧
      t'.appended = t.appended := by
  cases i with
  | segment srcIp dstIp bytes len =>
      obtain ⟨s, -, h⟩ := bind_eq_ok.mp h
      rw [← Except.ok.inj h] at hdone
      exact absurd hdone hbefore
  | tick ticks =>
      rw [← Except.ok.inj h] at hdone
      exact absurd hdone hbefore
  | statement key =>
      refine ⟨key, rfl, ?_⟩
      rw [step, statement] at h
      cases hpc : t.pc with
      | timedOut | finish =>
          simp only [hpc] at h
          obtain ⟨s, hs, h⟩ := bind_eq_ok.mp h
          rw [← Except.ok.inj h]
          exact ⟨rfl, hs, rfl, rfl⟩
      | done => exact absurd hpc hbefore
      | readClock =>
          simp only [hpc] at h
          rw [← Except.ok.inj h] at hdone
          cases hdone
      | keyTest =>
          simp only [hpc] at h
          rw [← Except.ok.inj h] at hdone
          exact absurd hdone (afterKey_ne key).2
      | waitTest | connectedTest | loopTest | drainTest | closedTest =>
          simp only [hpc] at h
          obtain ⟨c, -, h⟩ := bind_eq_ok.mp h
          rw [← Except.ok.inj h] at hdone
          dsimp only at hdone
          split_ifs at hdone
      | filter | drainReset | waitTimers | loopTimers | negotiate | sendKey =>
          simp only [hpc] at h
          obtain ⟨s, -, h⟩ := bind_eq_ok.mp h
          rw [← Except.ok.inj h] at hdone
          cases hdone

/-- A connection that is gone does not come back. -/
theorem TelnetSession.Moved.not_mem_addrs (h : t.Moved i t') (hknown : t.conn < t.stack.nextAddr)
    (hgone : t.conn ∉ t.stack.addrs) : t.conn ∉ t'.stack.addrs := by
  obtain ⟨-, hstack⟩ | ⟨e, -, hs⟩ := h.stack
  · rw [hstack]
    exact hgone
  · intro hmem
    obtain hmem | hfresh := (addrs_subset_next hs).1 _ hmem
    · exact hgone hmem
    · exact absurd hfresh (Nat.ne_of_lt hknown)

/-- The addresses stay distinct, and the one of the connection stays an old one. -/
theorem TelnetSession.Moved.addressed (h : t.Moved i t') (haddr : Addressed t.stack)
    (hknown : t.conn < t.stack.nextAddr) :
    Addressed t'.stack ∧ t'.conn < t'.stack.nextAddr := by
  rw [h.conn]
  obtain ⟨-, hstack⟩ | ⟨e, -, hs⟩ := h.stack
  · rw [hstack]
    exact ⟨haddr, hknown⟩
  · exact ⟨haddr.next hs, Nat.lt_of_lt_of_le hknown (addrs_subset_next hs).2⟩

/-- What waits when the command removes its connection. -/
theorem TelnetSession.waits_of_removes (hpc : t.pc.removesConn = true) {s : TcpStack}
    (h : removeConnection t.stack t.conn = .ok s) :
    ∃ c, t.Waits c.recvBuffer ∧ c ∈ t.stack.connectionList ∧ c.addr = t.conn := by
  obtain ⟨c, hc, -⟩ := bind_eq_ok.mp h
  obtain ⟨hmem, hconn⟩ := deref_eq_ok hc
  refine ⟨c, ⟨c, hmem, hconn, (if_neg fun hreset => ?_).symm⟩, hmem, hconn⟩
  rw [hreset] at hpc
  cases hpc

theorem TelnetSession.Accounted.step (h : t.Accounted) (hdrains : t.DrainsAll i)
    (hs : t.step i = .ok t') : t'.Accounted := by
  have hmoved := moved_step hs
  obtain ⟨haddr, hknown⟩ := hmoved.addressed h.addressed h.known
  obtain ⟨payload, haccounts, hlisted, hnone⟩ := accounts_step h.addressed h.known hs
  have hgap : (if t.pc = .drainReset then [] else payload) = payload := by
    split_ifs with hpc
    · exact (hnone hdrains hpc).symm
    · rfl
  have hstart : t'.handed <+: t'.appended := by
    rw [haccounts.appended]
    obtain heq | ⟨rfl, waiting, hwaits, heq⟩ := haccounts.handed
    · rw [heq]
      exact h.start.trans (List.prefix_append _ _)
    · simp only [heq, h.waits waiting hwaits, List.append_nil, List.prefix_refl]
  refine ⟨haddr, hknown, ?_, hstart, ?_⟩
  · intro waiting' hwaits'
    obtain ⟨waiting, hwaits, heq⟩ := haccounts.waits waiting' hwaits'
    rw [heq, hgap, h.waits waiting hwaits, haccounts.appended]
  · intro hdone
    rw [hmoved.conn]
    by_cases hbefore : t.pc = .done
    · obtain ⟨hgone, hall⟩ := h.ended hbefore
      have hempty : payload = [] := by
        by_contra hne
        exact hgone (hlisted hne)
      refine ⟨hmoved.not_mem_addrs h.known hgone, ?_⟩
      obtain heq | ⟨-, waiting, ⟨c, hc, hconn, -⟩, -⟩ := haccounts.handed
      · rw [heq, haccounts.appended, hempty, List.append_nil, hall]
      · exact absurd (hconn ▸ List.mem_map_of_mem hc) hgone
    · obtain ⟨key, rfl, hremoves, hremove, hhanded, happended⟩ := step_done hs hdone hbefore
      obtain ⟨c, hwaits, hempty⟩ := waits_of_removes hremoves hremove
      refine ⟨not_mem_addrs_removeConnection hremove, ?_⟩
      have hall := h.waits _ hwaits
      rwa [hdrains hremoves c hempty.1 hempty.2, List.append_nil, ← hhanded, ← happended] at hall

/-! ### Sessions that lose something -/

/-- Fewer bytes have been handed over, or wait, than were appended. -/
structure TelnetSession.Short (t : TelnetSession) : Prop where
  addressed : Addressed t.stack
  known : t.conn < t.stack.nextAddr
  handed : t.handed.length < t.appended.length
  waits : ∀ waiting, t.Waits waiting → (t.handed ++ waiting).length < t.appended.length

/-- What is lost stays lost. -/
theorem TelnetSession.Short.step (h : t.Short) (hs : t.step i = .ok t') : t'.Short := by
  have hmoved := moved_step hs
  obtain ⟨haddr, hknown⟩ := hmoved.addressed h.addressed h.known
  obtain ⟨payload, haccounts, -, -⟩ := accounts_step h.addressed h.known hs
  have hgrown : t.appended.length + payload.length = t'.appended.length := by
    rw [haccounts.appended, List.length_append]
  refine ⟨haddr, hknown, ?_, fun waiting' hwaits' => ?_⟩
  · refine Nat.lt_of_lt_of_le ?_ (Nat.le_trans (Nat.le_add_right _ _) (Nat.le_of_eq hgrown))
    obtain heq | ⟨-, waiting, hwaits, heq⟩ := haccounts.handed
    · rw [heq]
      exact h.handed
    · rw [heq]
      exact h.waits waiting hwaits
  · obtain ⟨waiting, hwaits, heq⟩ := haccounts.waits waiting' hwaits'
    rw [heq, List.length_append, ← hgrown]
    refine Nat.add_lt_add_of_lt_of_le (h.waits waiting hwaits) ?_
    split_ifs
    · exact Nat.zero_le _
    · exact Nat.le_refl _

/-- The first step that does not meet the condition loses something. -/
theorem TelnetSession.Accounted.short (h : t.Accounted) (hdrains : ¬ t.DrainsAll i)
    (hs : t.step i = .ok t') : t'.Short := by
  have hmoved := moved_step hs
  obtain ⟨haddr, hknown⟩ := hmoved.addressed h.addressed h.known
  cases i with
  | tick ticks => exact absurd trivial hdrains
  | statement key =>
      rw [DrainsAll, Classical.not_imp] at hdrains
      obtain ⟨hremoves, hfull⟩ := hdrains
      have hbefore : t.pc ≠ .done := by
        intro hpc
        rw [hpc] at hremoves
        cases hremoves
      obtain ⟨-, -, -, hremove, hhanded, happended⟩ :=
        step_done hs (pc_of_removesConn hs hremoves) hbefore
      obtain ⟨c, hwaits, hc, hconn⟩ := waits_of_removes hremoves hremove
      have hwaiting : c.recvBuffer ≠ [] := by
        intro hempty
        refine hfull fun d hd hdconn => ?_
        rw [List.inj_on_of_nodup_map h.addressed.nodup hd hc (hdconn.trans hconn.symm), hempty]
      refine ⟨haddr, hknown, ?_, ?_⟩
      · rw [hhanded, happended, ← h.waits _ hwaits, List.length_append]
        exact Nat.lt_add_of_pos_right (List.length_pos_iff.mpr hwaiting)
      · rintro waiting ⟨d, hd, hdconn, -⟩
        rw [hmoved.conn] at hdconn
        exact absurd (hdconn ▸ List.mem_map_of_mem hd) (not_mem_addrs_removeConnection hremove)
  | segment srcIp dstIp bytes len =>
      rw [DrainsAll, Classical.not_imp] at hdrains
      obtain ⟨hpc, hpayload⟩ := hdrains
      have haccounts := accounts_segment h.addressed h.known hs
      obtain ⟨c, hc, hconn⟩ := List.mem_map.mp (mem_addrs_of_appendedPayload hpayload)
      have hall := h.waits [] ⟨c, hc, hconn, by rw [if_pos hpc]⟩
      have hmore : t.appended.length < t'.appended.length := by
        rw [haccounts.appended, List.length_append]
        exact Nat.lt_add_of_pos_right (List.length_pos_iff.mpr hpayload)
      have hhanded : t'.handed = t.handed :=
        haccounts.handed.resolve_right fun hsome => hpayload hsome.1
      refine ⟨haddr, hknown, ?_, fun waiting' hwaits' => ?_⟩
      · rw [hhanded, ← List.append_nil t.handed, hall]
        exact hmore
      · obtain ⟨waiting, hwaits, heq⟩ := haccounts.waits waiting' hwaits'
        rw [heq, if_pos hpc, List.append_nil, h.waits waiting hwaits]
        exact hmore

/-! ### Sessions -/

theorem TelnetSession.accounted_begin {s : TcpStack} (h : Addressed s) {stale : StaleBlock}
    (hstale : stale.recvBuffer = []) (remoteIp : UInt32) (port : UInt16) :
    (begin s stale remoteIp port).Accounted := by
  have haddr : Addressed (tcpConnect s stale remoteIp port) :=
    h.next (e := .connect stale remoteIp port) rfl
  have hnull : (0 : ℕ) ∉ (tcpConnect s stale remoteIp port).addrs := by
    intro hmem
    obtain ⟨c, hc, heq⟩ := List.mem_map.mp hmem
    exact absurd heq (Nat.ne_of_gt (haddr.bound c hc).1)
  obtain ⟨hno, heq⟩ | ⟨hmem, c, u, x, rfl, rfl, rfl, heq⟩ := tcpConnect_cases s stale remoteIp port
  · have hconn : (begin s stale remoteIp port).conn = 0 := by rw [begin, hno]; rfl
    refine ⟨haddr, hconn ▸ haddr.fresh, ?_, List.prefix_refl _, fun _ => ⟨hconn ▸ hnull, rfl⟩⟩
    rintro waiting ⟨d, hd, hdconn, -⟩
    exact absurd (hconn ▸ hdconn ▸ List.mem_map_of_mem hd) hnull
  · have hconn : (begin s stale remoteIp port).conn = s.nextAddr := by rw [begin, hmem]; rfl
    have hpc : (begin s stale remoteIp port).pc = .readClock := by rw [begin, hmem]; rfl
    refine ⟨haddr, ?_, ?_, List.prefix_refl _,
      fun hdone => absurd (hpc.symm.trans hdone) (by decide)⟩
    · rw [hconn, begin, heq, tcpSendSegment_eq]
      exact Nat.lt_succ_self _
    · rintro waiting ⟨d, hd, hdconn, rfl⟩
      rw [hconn] at hdconn
      rw [begin, heq, tcpSendSegment_eq] at hd
      obtain rfl | hold := List.mem_cons.mp hd
      · rw [hpc, if_neg (by decide)]
        exact hstale
      · exact absurd hdconn (Nat.ne_of_lt (h.bound d hold).2)

/-- **Every byte arrives once** in the sessions whose buffer starts empty, that append nothing
between the call of `telnet_filter` and the reset, and leave nothing in the buffer at the end. Any
other step that goes on loses bytes for good. -/
theorem delivered_of_drainsAll (ticks nicIp : UInt32) (indexHtml : Option (List UInt8))
    (mallocs : List Bool) (s : TcpStack)
    (hs : Steps TcpEvent.next (fun _ _ => True) (.boot ticks nicIp indexHtml mallocs) s)
    (stale : StaleBlock) (hstale : stale.recvBuffer = []) (remoteIp : UInt32) (port : UInt16)
    (t : TelnetSession)
    (h : Steps TelnetSession.step TelnetSession.DrainsAll (.begin s stale remoteIp port) t) :
    t.Delivered ∧
      ∀ i t' u, t.step i = .ok t' → ¬ t.DrainsAll i →
        Steps TelnetSession.step (fun _ _ => True) t' u → u.pc = .done → ¬ u.Delivered := by
  have ht : t.Accounted :=
    h.invariant (TelnetSession.accounted_begin (addressed_of_steps hs) hstale remoteIp port)
      fun _ _ _ hI hdrains hstep => hI.step hdrains hstep
  refine ⟨ht.delivered, fun i t' u hstep hdrains hu hdone hdelivered => ?_⟩
  have hshort : u.Short :=
    hu.invariant (ht.short hdrains hstep) fun _ _ _ hI _ hstep => hI.step hstep
  exact absurd (hdelivered.complete hdone ▸ hshort.handed) (Nat.lt_irrefl _)

/-- A session that receives one byte. -/
theorem delivered_of_drainsAll_byte :
    ∃ t : TelnetSession, t.pc = .done ∧ t.handed = [0x41] ∧ t.Delivered := by
  obtain ⟨t, ht, hend⟩ := exists_eq_ok_of_any
    (p := fun t : TelnetSession => decide (t.pc = .done ∧ t.handed = [0x41]))
    (x := (byteReceived ++ [TelnetInput.statement none]).foldlM
      (fun t i => if t.DrainsAll i then t.step i else .error .useAfterFree) firstSession)
    (by decide +kernel)
  obtain ⟨hpc, hhanded⟩ := of_decide_eq_true hend
  exact ⟨t, hpc, hhanded, (delivered_of_drainsAll 0 0x0A00020F none [] _ .refl .zero rfl 0x0A000202
    23 t (Steps.of_checked .useAfterFree ht)).1⟩

/-- A second byte comes in while the first one is shown. -/
def byteBetween : List TelnetInput :=
  connected ++ serverSegment 101 5 tcpAck [0x41] :: List.replicate 2 (.statement none) ++
    serverSegment 102 5 tcpAck [0x42] :: [.statement none, .statement (some 0x03), .statement none]

/-- It is never handed over. -/
theorem delivered_violated :
    ¬ ∀ t, Steps TelnetSession.step (fun _ _ => True) firstSession t → t.Delivered := by
  intro hall
  obtain ⟨t, hrun, hlost⟩ := exists_eq_ok_of_any
    (p := fun t => !decide t.Delivered && decide (t.appended = [0x41, 0x42]))
    (x := byteBetween.foldlM TelnetSession.step firstSession) (by decide +kernel)
  simp only [hall t (.of_foldlM hrun), decide_true, Bool.not_true, Bool.false_and] at hlost
  cases hlost

end HalOS
