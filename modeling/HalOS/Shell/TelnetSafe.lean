import HalOS.Net.TcpListed
import HalOS.Shell.Telnet

/-!
# The Pointer of the Telnet Client

`telnet_command` holds `conn` from `tcp_connect` to its own `remove_connection`, and nothing tells
it when the packet handler or the timer check frees the block before. The pointer is good as long
as none of the events that take a connection off the list happens to this one.

## Main results

* `safe_of_keepsConn`: in such sessions every access meets a listed connection, and no connection
  is removed twice.
-/

namespace HalOS

open Outcome (Steps bind_eq_ok exists_eq_ok_of_any)

/-- The next statement does not use a connection that has been removed, and none has been removed
twice. -/
structure TelnetSession.Safe (t : TelnetSession) : Prop where
  listed : t.pc.usesConn = true → t.conn ∈ t.stack.addrs
  again : t.pc.removesConn = true → t.conn ∉ t.removed
  once : t.removed.Nodup

instance (t : TelnetSession) : Decidable t.Safe :=
  decidable_of_iff ((t.pc.usesConn = true → t.conn ∈ t.stack.addrs) ∧
      (t.pc.removesConn = true → t.conn ∉ t.removed) ∧ t.removed.Nodup)
    ⟨fun h => ⟨h.1, h.2.1, h.2.2⟩, fun h => ⟨h.listed, h.again, h.once⟩⟩

/-- Until the command is done, no segment takes its connection off the list, and no check of the
timers gives it up. -/
def TelnetSession.KeepsConn (t : TelnetSession) : TelnetInput → Prop
  | .statement _ =>
      t.pc.checksTimers = true → KeepsOnTimers t.stack t.conn t.stack.activeTimers
  | .segment srcIp dstIp bytes _ =>
      t.pc ≠ .done → KeepsOnSegment t.stack t.conn srcIp dstIp (.parse bytes)
  | .tick _ => True

instance (t : TelnetSession) : (i : TelnetInput) → Decidable (t.KeepsConn i)
  | .statement _ => inferInstanceAs (Decidable (_ → KeepsOnTimers _ _ _))
  | .segment _ _ _ _ => inferInstanceAs (Decidable (_ → KeepsOnSegment _ _ _ _ _))
  | .tick _ => .isTrue trivial

/-- What such a session keeps. -/
structure TelnetSession.Guarded (t : TelnetSession) : Prop where
  addressed : Addressed t.stack
  listed : t.pc ≠ .done → t.conn ∈ t.stack.addrs
  once : t.removed.Nodup
  gone : ∀ a ∈ t.removed, a ∉ t.stack.addrs ∧ a < t.stack.nextAddr

variable {t t' : TelnetSession} {i : TelnetInput} {key : Option UInt8}

/-! ### What a step does -/

theorem takenOff_eq_nil {s s' : TcpStack} (h : ∀ a ∈ s.addrs, a ∈ s'.addrs) : takenOff s s' = [] :=
  List.filter_eq_nil_iff.mpr fun a ha => by simpa using h a ha

/-- The stack and the log of removals after a step. -/
structure TelnetSession.Moved (t : TelnetSession) (i : TelnetInput) (t' : TelnetSession) :
    Prop where
  conn : t'.conn = t.conn
  removed : t'.removed = t.removed ++ takenOff t.stack t'.stack
  stack : (t.event i = none ∧ t'.stack = t.stack) ∨
    ∃ e, t.event i = some e ∧ e.next t.stack = .ok t'.stack

/-- A step that leaves the stack alone. -/
theorem TelnetSession.moved_of_stack_eq (hevent : t.event i = none) (hstack : t'.stack = t.stack)
    (hconn : t'.conn = t.conn) (hremoved : t'.removed = t.removed) : t.Moved i t' where
  conn := hconn
  removed := by
    rw [hremoved, hstack, takenOff_eq_nil fun _ ha => ha, List.append_nil]
  stack := Or.inl ⟨hevent, hstack⟩

/-- A step that makes a call. -/
theorem TelnetSession.moved_goto {e : TcpEvent} {s : TcpStack} (hevent : t.event i = some e)
    (hs : e.next t.stack = .ok s) (pc : TelnetPc) : t.Moved i (t.goto s pc) where
  conn := rfl
  removed := rfl
  stack := Or.inr ⟨e, hevent, hs⟩

/-- **A statement**, by cases on the place where the command stands. -/
theorem TelnetSession.moved_statement (h : t.statement key = .ok t') :
    t.Moved (.statement key) t' := by
  rw [TelnetSession.statement] at h
  cases hpc : t.pc with
  | readClock | keyTest | done =>
      simp only [hpc] at h
      rw [← Except.ok.inj h]
      exact moved_of_stack_eq (by rw [event, hpc]) rfl rfl rfl
  | waitTest | connectedTest | loopTest | drainTest | filter | closedTest =>
      simp only [hpc] at h
      obtain ⟨c, -, h⟩ := bind_eq_ok.mp h
      rw [← Except.ok.inj h]
      exact moved_of_stack_eq (by rw [event, hpc]) rfl rfl rfl
  | waitTimers | loopTimers =>
      simp only [hpc] at h
      obtain ⟨s, hs, h⟩ := bind_eq_ok.mp h
      rw [← Except.ok.inj h]
      exact moved_goto (e := .checkTimers) (by rw [event, hpc]) hs _
  | timedOut | finish =>
      simp only [hpc] at h
      obtain ⟨s, hs, h⟩ := bind_eq_ok.mp h
      rw [← Except.ok.inj h]
      exact moved_goto (e := .remove t.conn) (by rw [event, hpc]) hs _
  | negotiate =>
      simp only [hpc] at h
      obtain ⟨s, hs, h⟩ := bind_eq_ok.mp h
      rw [← Except.ok.inj h]
      exact moved_goto (e := .send t.conn (tcpPsh ||| tcpAck) [telnetIac, telnetWill, teloptSga] 3)
        (by rw [event, hpc]) hs _
  | sendKey c =>
      simp only [hpc] at h
      obtain ⟨s, hs, h⟩ := bind_eq_ok.mp h
      rw [← Except.ok.inj h]
      exact moved_goto (e := .send t.conn (tcpPsh ||| tcpAck) (keyBytes c)
        (UInt16.ofNat (keyBytes c).length)) (by rw [event, hpc]) hs _
  | drainReset =>
      simp only [hpc] at h
      obtain ⟨s, hs, h⟩ := bind_eq_ok.mp h
      rw [← Except.ok.inj h]
      exact moved_goto (e := .drain t.conn) (by rw [event, hpc]) hs _

theorem TelnetSession.moved_step (h : t.step i = .ok t') : t.Moved i t' := by
  cases i with
  | statement key => exact moved_statement h
  | segment srcIp dstIp bytes len =>
      obtain ⟨s, hs, h⟩ := bind_eq_ok.mp h
      rw [← Except.ok.inj h]
      exact ⟨rfl, rfl, Or.inr ⟨_, rfl, hs⟩⟩
  | tick ticks =>
      rw [← Except.ok.inj h]
      refine ⟨rfl, (List.append_nil t.removed).symm.trans ?_, Or.inr ⟨_, rfl, rfl⟩⟩
      exact congrArg (t.removed ++ ·) (takenOff_eq_nil fun _ ha => ha).symm

/-! ### The log of removals -/

/-- A call takes addresses off the list or puts a fresh one on it. -/
theorem addrs_subset_next {s s' : TcpStack} {e : TcpEvent} (h : e.next s = .ok s') :
    (∀ a ∈ s'.addrs, a ∈ s.addrs ∨ a = s.nextAddr) ∧ s.nextAddr ≤ s'.nextAddr := by
  obtain ⟨hsub, hnext⟩ | ⟨c, -, hc, hnext, haddrs⟩ := addrs_next h
  · exact ⟨fun a ha => Or.inl (hsub.subset ha), Nat.le_of_eq hnext.symm⟩
  · refine ⟨fun a ha => ?_, hnext ▸ Nat.le_succ _⟩
    rw [TcpStack.addrs, haddrs, List.mem_cons] at ha
    exact ha.elim (fun heq => Or.inr (heq.trans hc)) Or.inl

/-- No call removes a connection that has been removed, and none comes back. -/
theorem TelnetSession.Guarded.removals (h : t.Guarded) (hmoved : t.Moved i t') :
    Addressed t'.stack ∧ t'.removed.Nodup ∧
      ∀ a ∈ t'.removed, a ∉ t'.stack.addrs ∧ a < t'.stack.nextAddr := by
  obtain ⟨-, hstack⟩ | ⟨e, -, hs⟩ := hmoved.stack
  · rw [hmoved.removed, hstack, takenOff_eq_nil fun _ ha => ha, List.append_nil]
    exact ⟨h.addressed, h.once, h.gone⟩
  obtain ⟨hsubset, hnext⟩ := addrs_subset_next hs
  refine ⟨h.addressed.next hs, ?_, fun a ha => ?_⟩
  · rw [hmoved.removed]
    refine h.once.append (h.addressed.nodup.filter _) fun a ha ha' => ?_
    exact (h.gone a ha).1 (List.mem_filter.mp ha').1
  · rw [hmoved.removed, List.mem_append] at ha
    obtain ha | ha := ha
    · obtain ⟨hgone, hlt⟩ := h.gone a ha
      refine ⟨fun hmem => ?_, Nat.lt_of_lt_of_le hlt hnext⟩
      exact (hsubset a hmem).elim hgone fun heq => absurd (heq ▸ hlt) (Nat.lt_irrefl _)
    · obtain ⟨hmem, hgone⟩ := List.mem_filter.mp ha
      obtain ⟨d, hd, rfl⟩ := List.mem_map.mp hmem
      exact ⟨of_decide_eq_true hgone, Nat.lt_of_lt_of_le (h.addressed.bound d hd).2 hnext⟩

/-! ### The connection stays -/

/-- The command ends with its own `remove_connection`. -/
theorem TelnetSession.pc_of_removesConn (h : t.statement key = .ok t')
    (hpc : t.pc.removesConn = true) : t'.pc = .done := by
  rw [TelnetSession.statement] at h
  cases hwhere : t.pc with
  | timedOut | finish =>
      simp only [hwhere] at h
      obtain ⟨s, -, h⟩ := bind_eq_ok.mp h
      rw [← Except.ok.inj h]
      rfl
  | _ =>
      rw [hwhere] at hpc
      cases hpc

theorem mem_addrs_sendOn {s s' : TcpStack} {conn a : ℕ} {flags : UInt8} {data : List UInt8}
    {dataLen : UInt16} (hs : sendOn s a flags data dataLen = .ok s') (h : conn ∈ s.addrs) :
    conn ∈ s'.addrs := by
  obtain ⟨c, -, hs⟩ := bind_eq_ok.mp hs
  rw [← Except.ok.inj hs]
  exact mem_addrs_sendBack rfl _ h

/-- A step that keeps the connection, by cases on the call that it makes. -/
theorem TelnetSession.Guarded.mem_addrs (h : t.Guarded) (hkeeps : t.KeepsConn i)
    (hs : t.step i = .ok t') (hdone : t'.pc ≠ .done) : t.conn ∈ t'.stack.addrs := by
  have hmoved := moved_step hs
  cases i with
  | segment srcIp dstIp bytes len =>
      obtain ⟨s, hsegment, hs⟩ := bind_eq_ok.mp hs
      rw [← Except.ok.inj hs] at hdone ⊢
      exact mem_addrs_handleSegment h.addressed (hkeeps hdone) (h.listed hdone) hsegment
  | tick ticks =>
      rw [← Except.ok.inj hs] at hdone ⊢
      exact h.listed hdone
  | statement key =>
      have hbefore : t.pc ≠ .done := by
        intro hpc
        rw [step, statement, hpc] at hs
        exact hdone (Except.ok.inj hs ▸ hpc)
      have hmem := h.listed hbefore
      obtain ⟨-, hstack⟩ | ⟨e, hevent, hcall⟩ := hmoved.stack
      · rw [hstack]
        exact hmem
      cases hpc : t.pc with
      | waitTimers | loopTimers =>
          rw [event, hpc] at hevent
          obtain rfl := Option.some.inj hevent
          exact mem_addrs_checkTcpTimers (hkeeps (by rw [hpc]; rfl)) hmem hcall
      | timedOut | finish => exact absurd (pc_of_removesConn hs (by rw [hpc]; rfl)) hdone
      | negotiate | sendKey =>
          rw [event, hpc] at hevent
          obtain rfl := Option.some.inj hevent
          rw [TcpEvent.next] at hcall
          exact mem_addrs_sendOn hcall hmem
      | drainReset =>
          rw [event, hpc] at hevent
          obtain rfl := Option.some.inj hevent
          obtain ⟨c, -, hcall⟩ := bind_eq_ok.mp hcall
          rw [← Except.ok.inj hcall]
          exact mem_addrs_setConn _ hmem
      | _ =>
          rw [event, hpc] at hevent
          cases hevent

theorem TelnetSession.Guarded.step (h : t.Guarded) (hkeeps : t.KeepsConn i)
    (hs : t.step i = .ok t') : t'.Guarded := by
  have hmoved := moved_step hs
  obtain ⟨haddressed, honce, hgone⟩ := h.removals hmoved
  exact ⟨haddressed, fun hdone => hmoved.conn ▸ h.mem_addrs hkeeps hs hdone, honce, hgone⟩

theorem TelnetSession.Guarded.safe (h : t.Guarded) : t.Safe where
  listed := by
    intro huses
    refine h.listed fun hdone => ?_
    rw [hdone] at huses
    cases huses
  again := by
    intro hremoves hmem
    refine (h.gone _ hmem).1 (h.listed fun hdone => ?_)
    rw [hdone] at hremoves
    cases hremoves
  once := h.once

/-! ### Sessions -/

/-- The block that `tcp_connect` returns is on the list. -/
theorem TelnetSession.guarded_begin {s : TcpStack} (h : Addressed s) (stale : StaleBlock)
    (remoteIp : UInt32) (port : UInt16) : (begin s stale remoteIp port).Guarded where
  addressed := h.next (e := .connect stale remoteIp port) rfl
  listed := by
    intro hdone
    obtain ⟨hno, -⟩ | ⟨hmem, c, u, x, rfl, rfl, rfl, heq⟩ := tcpConnect_cases s stale remoteIp port
    · refine absurd ?_ hdone
      rw [begin, hno]
      rfl
    · rw [begin, heq, tcpSendSegment_eq, if_pos hmem]
      exact List.mem_cons_self
  once := List.nodup_nil
  gone := fun _ ha => absurd ha List.not_mem_nil

theorem addressed_of_steps {ticks nicIp : UInt32} {indexHtml : Option (List UInt8)}
    {mallocs : List Bool} {s : TcpStack}
    (h : Steps TcpEvent.next (fun _ _ => True) (.boot ticks nicIp indexHtml mallocs) s) :
    Addressed s :=
  h.invariant (addressed_boot _ _ _ _) fun _ _ _ haddr _ hs => haddr.next hs

/-- **The pointer stays good** in every session that no segment and no timer takes the connection
away from, whatever had happened to the stack before and however segments and statements
interleave. -/
theorem safe_of_keepsConn (ticks nicIp : UInt32) (indexHtml : Option (List UInt8))
    (mallocs : List Bool) (s : TcpStack)
    (hs : Steps TcpEvent.next (fun _ _ => True) (.boot ticks nicIp indexHtml mallocs) s)
    (stale : StaleBlock) (remoteIp : UInt32) (port : UInt16) (t : TelnetSession)
    (h : Steps TelnetSession.step TelnetSession.KeepsConn
      (.begin s stale remoteIp port) t) : t.Safe :=
  (h.invariant (TelnetSession.guarded_begin (addressed_of_steps hs) stale remoteIp port)
    fun _ _ _ hI hkeeps hstep => hI.step hkeeps hstep).safe

/-- A session that receives one byte. -/
theorem safe_of_keepsConn_byte : ∃ t : TelnetSession, t.pc = .finish ∧ t.Safe := by
  obtain ⟨t, ht, hpc⟩ := exists_eq_ok_of_any (p := fun t => decide (t.pc = .finish))
    (x := byteReceived.foldlM (fun t i => if t.KeepsConn i then t.step i else .error .useAfterFree)
      firstSession) (by decide +kernel)
  exact ⟨t, of_decide_eq_true hpc, safe_of_keepsConn 0 0x0A00020F none [] _ .refl .zero 0x0A000202
    23 t (Steps.of_checked .useAfterFree ht)⟩

/-- The server refuses the connection, and the first loop reads the block that the RST freed. -/
theorem safe_violated :
    ¬ ∀ t, Steps TelnetSession.step (fun _ _ => True) firstSession t → t.Safe := by
  intro hall
  obtain ⟨t, hrun, hunsafe⟩ := exists_eq_ok_of_any (p := fun t => !decide t.Safe)
    (x := [serverSegment 0 2 tcpRst [], .statement none].foldlM TelnetSession.step firstSession)
    (by decide +kernel)
  simp only [hall t (.of_foldlM hrun), decide_true, Bool.not_true] at hunsafe
  cases hunsafe

end HalOS
