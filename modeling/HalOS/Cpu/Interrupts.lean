import HalOS.Net.NetHost

/-!
# Interrupts inside an Interrupt Handler

A processor takes interrupts while its interrupt flag is set. The gate of an interrupt clears the
flag, and `irq.asm` sets it again when the handler has returned. The allocator uses the flag as its
lock: `liballoc_lock` is `cli` and `liballoc_unlock` is `sti`, which does not put back what the flag
has been but sets it. A handler that has called `malloc` or `free` runs on with interrupts enabled.

Only the instructions that write the flag are kept of a handler's code. Any number of others stands
between two of them and behind the last one, so that an interrupt can come in between. Which
interrupts the controllers let through is not part of this model; the timer's has the highest
priority and comes through in the handler of every other one.

## Main results

* `nonReentrant_iff`: handlers are never nested exactly if none of them reaches the lock.
* `nested_of_unlocks`: otherwise a second handler does run inside the first one.
* `forall_skipsLock_queuePacket`, `forall_skipsLock_tcpSendSegment`,
  `forall_skipsLock_removeConnection`: when the network stack reaches it.
-/

namespace HalOS

open Outcome (Steps)

/-! ### The allocator -/

/-- The instructions that write the interrupt flag. -/
inductive FlagInstr
  | cli | sti
deriving DecidableEq, Repr

/-- The flag after the instruction. -/
def FlagInstr.flag : FlagInstr → Bool
  | cli => false
  | sti => true

/-- `liballoc_lock`. -/
def liballocLock : List FlagInstr := [.cli]

/-- `liballoc_unlock`. -/
def liballocUnlock : List FlagInstr := [.sti]

/-- `malloc`, which unlocks whether there is memory or not. -/
def mallocCode : List FlagInstr := liballocLock ++ liballocUnlock

/-- `free`, which unlocks behind the check of the magic number as it does at the end. -/
def freeCode (ptr : UInt32) : List FlagInstr :=
  if ptr = 0 then [] else liballocLock ++ liballocUnlock

/-- `calloc`. -/
def callocCode : List FlagInstr := mallocCode

/-- `realloc`. -/
def reallocCode (p size : UInt32) : List FlagInstr :=
  if size = 0 then freeCode p
  else if p = 0 then mallocCode
  else liballocLock ++ liballocUnlock ++ mallocCode ++ freeCode p

/-- The calls of the allocator. -/
inductive AllocCall
  | malloc
  | free (ptr : UInt32)
  | calloc
  | realloc (p size : UInt32)

def AllocCall.code : AllocCall → List FlagInstr
  | malloc => mallocCode
  | free ptr => freeCode ptr
  | calloc => callocCode
  | realloc p size => reallocCode p size

/-- The call returns before it takes the lock: it is `free(NULL)`, or `realloc(NULL, 0)`. -/
def AllocCall.SkipsLock : AllocCall → Prop
  | free ptr => ptr = 0
  | realloc p size => p = 0 ∧ size = 0
  | _ => False

/-- A call that does not return before the lock ends with the flag set. -/
theorem AllocCall.code_cases (c : AllocCall) :
    (c.SkipsLock ∧ c.code = []) ∨ (¬ c.SkipsLock ∧ FlagInstr.sti ∈ c.code) := by
  cases c with
  | malloc => exact Or.inr ⟨id, by decide⟩
  | calloc => exact Or.inr ⟨id, by decide⟩
  | free ptr =>
      by_cases hptr : ptr = 0
      · exact Or.inl ⟨hptr, if_pos hptr⟩
      · exact Or.inr ⟨hptr, by simp [AllocCall.code, freeCode, hptr, liballocUnlock]⟩
  | realloc p size =>
      by_cases hsize : size = 0
      · by_cases hp : p = 0
        · exact Or.inl ⟨⟨hp, hsize⟩, by simp [AllocCall.code, reallocCode, freeCode, hsize, hp]⟩
        · refine Or.inr ⟨fun h => hp h.1, ?_⟩
          simp [AllocCall.code, reallocCode, freeCode, hsize, hp, liballocUnlock]
      · refine Or.inr ⟨fun h => hsize h.2, ?_⟩
        by_cases hp : p = 0
        · simp [AllocCall.code, reallocCode, mallocCode, hsize, hp, liballocUnlock]
        · simp [AllocCall.code, reallocCode, hsize, hp, liballocUnlock]

/-! ### The processor -/

/-- `isr_irq_handler` with a handler that makes these calls. -/
def isrIrqHandler (calls : List AllocCall) : List FlagInstr :=
  calls.flatMap AllocCall.code

/-- The interrupt flag, and what is left of each handler that has not returned, the innermost
first. -/
structure Cpu where
  enabled : Bool
  handlers : List (List FlagInstr)
deriving DecidableEq

/-- The kernel before any interrupt. -/
def Cpu.boot : Cpu := { enabled := false, handlers := [] }

/-- An interrupt whose handler makes these calls, the next instruction or the return of the
innermost handler, or an instruction of the kernel below all handlers. -/
inductive CpuEvent
  | irq (calls : List AllocCall)
  | handler
  | kernel (i : FlagInstr)

/-- One event, if it can happen. -/
def Cpu.next (s : Cpu) : CpuEvent → Except Unit Cpu
  | .irq calls =>
      if s.enabled then
        -- The gate clears the flag, and `irq_n` begins with `cli`.
        .ok { enabled := false, handlers := (.cli :: isrIrqHandler calls) :: s.handlers }
      else .error ()
  | .handler =>
      match s.handlers with
      | [] => .error ()
      -- `sti` and `iret`, with no interrupt in between.
      | [] :: handlers => .ok { enabled := true, handlers := handlers }
      | (i :: code) :: handlers => .ok { enabled := i.flag, handlers := code :: handlers }
  | .kernel i =>
      if s.handlers = [] then .ok { s with enabled := i.flag } else .error ()

/-- The handlers make one of these sequences of calls. -/
def CpuEvent.Of (programs : Set (List AllocCall)) : Cpu → CpuEvent → Prop
  | _, .irq calls => calls ∈ programs
  | _, _ => True

/-- Interrupts are disabled while a handler runs, and no handler runs inside another one. -/
structure Cpu.NonReentrant (s : Cpu) : Prop where
  disabled : s.handlers ≠ [] → s.enabled = false
  single : s.handlers.length ≤ 1

variable {programs : Set (List AllocCall)}

/-! ### Handlers that skip the lock -/

theorem isrIrqHandler_eq_nil {calls : List AllocCall} (h : ∀ c ∈ calls, c.SkipsLock) :
    isrIrqHandler calls = [] := by
  refine List.flatMap_eq_nil_iff.mpr fun c hc => ?_
  rcases c.code_cases with ⟨-, hcode⟩ | ⟨hlocks, -⟩
  · exact hcode
  · exact absurd (h c hc) hlocks

/-- No handler runs, or one that will not set the flag. -/
def Cpu.Masked (s : Cpu) : Prop :=
  s.handlers = [] ∨ s.enabled = false ∧ ∃ code, s.handlers = [code] ∧ FlagInstr.sti ∉ code

theorem Cpu.Masked.nonReentrant {s : Cpu} (h : s.Masked) : s.NonReentrant := by
  rcases h with hnone | ⟨hdisabled, code, hcode, -⟩
  · exact ⟨fun hsome => absurd hnone hsome, by simp [hnone]⟩
  · exact ⟨fun _ => hdisabled, by simp [hcode]⟩

/-- Every event keeps the flag clear as long as the handlers skip the lock. -/
theorem Cpu.Masked.next {s s' : Cpu} {e : CpuEvent}
    (hskips : ∀ calls ∈ programs, ∀ c ∈ calls, c.SkipsLock) (h : s.Masked)
    (he : e.Of programs s) (hs : s.next e = .ok s') : s'.Masked := by
  cases e with
  | irq calls =>
      rw [Cpu.next] at hs
      split at hs
      · rename_i henabled
        cases hs
        rcases h with hnone | ⟨hdisabled, -⟩
        · refine Or.inr ⟨rfl, [.cli], ?_, by decide⟩
          rw [isrIrqHandler_eq_nil (hskips calls he), hnone]
        · exact absurd (hdisabled.symm.trans henabled) (by decide)
      · cases hs
  | handler =>
      rcases h with hnone | ⟨-, code, hcode, hsti⟩
      · rw [Cpu.next, hnone] at hs
        cases hs
      · cases code with
        | nil =>
            rw [Cpu.next, hcode] at hs
            cases hs
            exact Or.inl rfl
        | cons i code =>
            rw [Cpu.next, hcode] at hs
            cases hs
            refine Or.inr ⟨?_, code, rfl, fun hmem => hsti (List.mem_cons_of_mem i hmem)⟩
            cases i with
            | cli => rfl
            | sti => exact absurd List.mem_cons_self hsti
  | kernel i =>
      rw [Cpu.next] at hs
      split at hs
      · cases hs
        exact Or.inl ‹_›
      · cases hs

/-! ### Handlers that take the lock -/

/-- A handler runs as far as its first `sti`. -/
theorem Cpu.exists_steps_sti {s : Cpu} {code : List FlagInstr} (hsti : FlagInstr.sti ∈ code)
    (hcode : s.handlers = [code]) (hs : Steps Cpu.next (CpuEvent.Of programs) .boot s) :
    ∃ rest, Steps Cpu.next (CpuEvent.Of programs) .boot
      { enabled := true, handlers := [rest] } := by
  induction code generalizing s with
  | nil => cases hsti
  | cons i code ih =>
      have hnext : s.next .handler = .ok { enabled := i.flag, handlers := [code] } := by
        rw [Cpu.next, hcode]
      have hsteps := hs.tail CpuEvent.handler trivial hnext
      cases i with
      | sti => exact ⟨code, hsteps⟩
      | cli =>
          refine ih ?_ rfl hsteps
          exact (List.mem_cons.mp hsti).resolve_left nofun

/-- A handler with a call that takes the lock comes to run with interrupts enabled. -/
theorem exists_steps_enabled {calls : List AllocCall} (hcalls : calls ∈ programs) {c : AllocCall}
    (hc : c ∈ calls) (hlocks : ¬ c.SkipsLock) :
    ∃ rest, Steps Cpu.next (CpuEvent.Of programs) .boot
      { enabled := true, handlers := [rest] } := by
  have hsti : FlagInstr.sti ∈ isrIrqHandler calls := by
    rcases c.code_cases with ⟨hskips, -⟩ | ⟨-, hsti⟩
    · exact absurd hskips hlocks
    · exact List.mem_flatMap.mpr ⟨c, hc, hsti⟩
  have hkernel : Steps Cpu.next (CpuEvent.Of programs) .boot { enabled := true, handlers := [] } :=
    Steps.refl.tail (.kernel .sti) trivial rfl
  exact Cpu.exists_steps_sti (List.mem_cons_of_mem _ hsti) rfl
    (hkernel.tail (.irq calls) hcalls rfl)

/-- **A nested handler.** Where a handler makes a call that takes the lock, the handler of the next
interrupt runs inside it. -/
theorem nested_of_unlocks {calls : List AllocCall} (hcalls : calls ∈ programs) {c : AllocCall}
    (hc : c ∈ calls) (hlocks : ¬ c.SkipsLock) {second : List AllocCall}
    (hsecond : second ∈ programs) :
    ∃ rest, Steps Cpu.next (CpuEvent.Of programs) .boot
      { enabled := false, handlers := [.cli :: isrIrqHandler second, rest] } := by
  obtain ⟨rest, hsteps⟩ := exists_steps_enabled hcalls hc hlocks
  exact ⟨rest, hsteps.tail (.irq second) hsecond rfl⟩

/-- **Interrupt handlers.** In every run interrupts stay disabled from the entry of a handler to its
return and no handler runs inside another one, exactly if no handler makes a call of the allocator
that takes the lock. -/
theorem nonReentrant_iff (programs : Set (List AllocCall)) :
    (∀ s, Steps Cpu.next (CpuEvent.Of programs) .boot s → s.NonReentrant) ↔
      ∀ calls ∈ programs, ∀ c ∈ calls, c.SkipsLock := by
  constructor
  · intro h calls hcalls c hc
    by_contra hlocks
    obtain ⟨rest, hsteps⟩ := exists_steps_enabled hcalls hc hlocks
    exact absurd ((h _ hsteps).disabled nofun) nofun
  · intro hskips s hs
    refine Cpu.Masked.nonReentrant ?_
    exact hs.invariant (Or.inl rfl) fun s e s' h he hnext => h.next hskips he hnext

/-! ### The network stack -/

/-- The calls of `queue_packet`. -/
def queuePacketCalls (pendingCount : ℕ) : List AllocCall :=
  if maxPendingPackets ≤ pendingCount then [] else [.malloc]

/-- The calls of `net_send_ipv4_packet`, which queues the packet where the next hop is not in the
cache. -/
def netSendCalls (cached : Bool) (pendingCount : ℕ) : List AllocCall :=
  if cached then [] else queuePacketCalls pendingCount

/-- The calls of `tcp_send_segment` behind those of its packet, where its allocations return
`entry` and `data`. -/
def tcpSendSegmentCalls (packet : List AllocCall) (flags : UInt8) (dataLen : UInt16)
    (entry data : UInt32) : List AllocCall :=
  if flags = tcpAck ∧ dataLen = 0 then packet
  else if hasFlag flags (tcpSyn ||| tcpFin) ∨ 0 < dataLen then
    packet ++ .malloc ::
      if entry = 0 ∨ dataLen = 0 then [] else .malloc :: if data = 0 then [.free entry] else []
  else packet

/-- The calls of `remove_connection`, with the connection's timer if it has one, the data and the
address of each entry of its queue, and its own address if it is listed. -/
def removeConnectionCalls (timer : Option UInt32) (entries : List (UInt32 × UInt32))
    (conn : Option UInt32) : List AllocCall :=
  timer.toList.map .free ++ entries.flatMap (fun (data, entry) => [.free data, .free entry]) ++
    conn.toList.map .free

theorem forall_skipsLock_queuePacket (pendingCount : ℕ) :
    (∀ c ∈ queuePacketCalls pendingCount, c.SkipsLock) ↔ maxPendingPackets ≤ pendingCount := by
  by_cases hfull : maxPendingPackets ≤ pendingCount
  · simp [queuePacketCalls, hfull]
  · simp [queuePacketCalls, hfull, AllocCall.SkipsLock]

/-- A segment takes the lock unless nothing of it is kept for retransmission. -/
theorem forall_skipsLock_tcpSendSegment (packet : List AllocCall) (flags : UInt8)
    (dataLen : UInt16) (entry data : UInt32) :
    (∀ c ∈ tcpSendSegmentCalls packet flags dataLen entry data, c.SkipsLock) ↔
      (∀ c ∈ packet, c.SkipsLock) ∧ hasFlag flags (tcpSyn ||| tcpFin) = false ∧ dataLen = 0 := by
  have hpos : 0 < dataLen ↔ dataLen ≠ 0 := UInt16.pos_iff_ne_zero
  rw [tcpSendSegmentCalls]
  by_cases hplain : flags = tcpAck ∧ dataLen = 0
  · have hflags : hasFlag flags (tcpSyn ||| tcpFin) = false := hplain.1 ▸ rfl
    rw [if_pos hplain]
    exact ⟨fun h => ⟨h, hflags, hplain.2⟩, And.left⟩
  · rw [if_neg hplain]
    by_cases hkept : hasFlag flags (tcpSyn ||| tcpFin) ∨ 0 < dataLen
    · rw [if_pos hkept]
      constructor
      · exact fun h => (h .malloc (List.mem_append_right _ List.mem_cons_self)).elim
      · rintro ⟨-, hflags, hlen⟩
        rcases hkept with hset | hset
        · exact absurd (hflags.symm.trans hset) (by decide)
        · exact absurd hlen (hpos.mp hset)
    · rw [if_neg hkept]
      obtain ⟨hflags, hlen⟩ := not_or.mp hkept
      exact ⟨fun h => ⟨h, Bool.eq_false_iff.mpr hflags, not_not.mp (hpos.not.mp hlen)⟩, And.left⟩

/-- A connection that has a timer, keeps a segment or is listed is not freed without the lock. -/
theorem forall_skipsLock_removeConnection (timer : Option UInt32)
    (entries : List (UInt32 × UInt32)) (conn : Option UInt32) :
    (∀ c ∈ removeConnectionCalls timer entries conn, c.SkipsLock) ↔
      (∀ t ∈ timer, t = 0) ∧ (∀ e ∈ entries, e.1 = 0 ∧ e.2 = 0) ∧ ∀ c ∈ conn, c = 0 := by
  have hfree : ∀ ptr : Option UInt32,
      (∀ c ∈ ptr.toList.map AllocCall.free, c.SkipsLock) ↔ ∀ p ∈ ptr, p = 0 := by
    intro ptr
    cases ptr with
    | none => simp
    | some p => simp [AllocCall.SkipsLock]
  have hentries : (∀ c ∈ entries.flatMap fun (data, entry) => [AllocCall.free data, .free entry],
      c.SkipsLock) ↔ ∀ e ∈ entries, e.1 = 0 ∧ e.2 = 0 := by
    induction entries with
    | nil => simp
    | cons e entries ih =>
        rw [List.flatMap_cons, List.forall_mem_append, ih, List.forall_mem_cons]
        simp [AllocCall.SkipsLock]
  rw [removeConnectionCalls, List.forall_mem_append, List.forall_mem_append, hfree, hentries, hfree,
    and_assoc]

/-- The handler of a frame whose answer is queued, and a handler that makes no call. -/
def answersUnresolved : Set (List AllocCall) := {netSendCalls false 0, []}

/-- The second handler runs before the one of the frame has returned. -/
theorem nonReentrant_violated :
    ¬ ∀ s, Steps Cpu.next (CpuEvent.Of answersUnresolved) .boot s → s.NonReentrant := by
  intro h
  have hqueues : netSendCalls false 0 ∈ answersUnresolved := Or.inl rfl
  obtain ⟨rest, hsteps⟩ := nested_of_unlocks hqueues List.mem_cons_self id (Or.inr rfl)
  exact absurd (h _ hsteps).single (by simp)

end HalOS
