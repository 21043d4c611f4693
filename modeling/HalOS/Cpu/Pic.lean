import HalOS.Lib.Outcome
import HalOS.Lib.Priority

/-!
# Acknowledging Interrupts

The 8259s keep a bit for every interrupt in service: a line of the master for each, and a line of
the slave too for IRQ 8 to 15, whose line at the master is 2. They let an interrupt through only
ahead of all that are in service. A non-specific end of interrupt clears the first bit of one
controller, whoever sends it.

`isr_irq_handler` sends one for every interrupt, and `timer_handler` and `rtl8139_irq_handler` send
one of their own before that. The first of the two goes to the right place but for the timer's,
which is sent for `IRQ_BASE` and so to the slave too. The second finds the bit already clear, and
hits the interrupt that the handler was nested in.

An IRQ 7 or 15 is taken for spurious if the command port of its controller reads with a clear bit 7,
and then gets no end of interrupt. That port holds the requests, not what is in service, so the bit
is an input here.

## Main results

* `properAll_iff`: in which runs each interrupt clears its own bits and no others.
* `properAll_of_unnested`: those in which no handler is nested are among them.
-/

namespace HalOS

open Outcome (Along)
open Priority (clearFirst)

/-! ### The controllers -/

/-- The bits in service at the master and at the slave. -/
structure Pics where
  master : Finset ℕ
  slave : Finset ℕ
deriving DecidableEq

/-- The line of an interrupt at the master. -/
def masterLine (irq : ℕ) : ℕ := if irq < 8 then irq else 2

/-- `IRQ_BASE`. -/
abbrev irqBase : ℕ := 0x20

/-- `pic8259_eoi`. -/
def pic8259Eoi (irq : ℕ) (p : Pics) : Pics :=
  if 8 ≤ irq then { master := clearFirst p.master, slave := clearFirst p.slave }
  else { p with master := clearFirst p.master }

/-- `pic8259_is_spurious`, with bit 7 of the command port. -/
def pic8259IsSpurious (irq : ℕ) (commandBit : Bool) : Bool :=
  if irq = 7 then !commandBit
  else if irq = 15 then !commandBit
  else true

/-! ### The handlers -/

/-- The handlers that are registered. -/
inductive IrqHandler
  | timer | keyboard | rtl8139
deriving DecidableEq, Repr

/-- `g_interrupt_handlers`, with the NIC on a line of its own. -/
def interruptHandler (nicIrq irq : ℕ) : Option IrqHandler :=
  if irq = 0 then some .timer
  else if irq = 1 then some .keyboard
  else if irq = nicIrq then some .rtl8139
  else none

/-- The interrupt for which the handler sends an end of interrupt, if it sends one. -/
def IrqHandler.eoi (nicIrq : ℕ) : IrqHandler → Option ℕ
  | timer => some irqBase
  | keyboard => none
  | rtl8139 => some nicIrq

/-- What the handler of an interrupt sends, if there is one and it sends anything. -/
def handlerEoi (nicIrq irq : ℕ) : Option ℕ :=
  (interruptHandler nicIrq irq).bind (IrqHandler.eoi nicIrq)

/-- The first test of `isr_irq_handler`, after which it returns at once. -/
def ignoresIrq (irq : ℕ) (commandBit : Bool) : Prop :=
  irq = 7 ∧ pic8259IsSpurious 7 commandBit = true ∨
    irq = 15 ∧ pic8259IsSpurious 15 commandBit = true

instance (irq : ℕ) (commandBit : Bool) : Decidable (ignoresIrq irq commandBit) :=
  inferInstanceAs (Decidable (_ ∨ _))

/-! ### Nested dispatches -/

/-- A call of `isr_irq_handler` that has not returned, and whether its handler has sent an end of
interrupt. A spurious interrupt comes as IRQ 7 of its controller, with no bit there. -/
structure Dispatch where
  irq : ℕ
  spurious : Bool
  sent : Bool
deriving DecidableEq

/-- What the interrupt has in service at the master. -/
def Dispatch.masterBits (d : Dispatch) : Finset ℕ :=
  if d.sent = true ∨ d.spurious = true ∧ d.irq = 7 then ∅ else {masterLine d.irq}

/-- What the interrupt has in service at the slave. -/
def Dispatch.slaveBits (d : Dispatch) : Finset ℕ :=
  if d.sent = true ∨ d.spurious = true ∨ d.irq < 8 then ∅ else {d.irq - 8}

/-- The controllers let the interrupt through. -/
def Dispatch.ComesThrough (d : Dispatch) (p : Pics) : Prop :=
  d.irq < 16 ∧ d.irq ≠ 2 ∧ (d.spurious = true → d.irq = 7 ∨ d.irq = 15) ∧
    (∀ a ∈ d.masterBits, ∀ b ∈ p.master, a < b) ∧ ∀ a ∈ d.slaveBits, ∀ b ∈ p.slave, a < b

instance (d : Dispatch) (p : Pics) : Decidable (d.ComesThrough p) :=
  inferInstanceAs (Decidable (_ ∧ _))

/-- The controllers when the processor has taken the interrupt. -/
def Dispatch.taken (d : Dispatch) (p : Pics) : Pics where
  master := p.master ∪ d.masterBits
  slave := p.slave ∪ d.slaveBits

/-- The controllers, and the calls of `isr_irq_handler` that have not returned, the innermost
first. -/
structure PicHost where
  pics : Pics
  active : List Dispatch
deriving DecidableEq

/-- No interrupt in service. -/
def PicHost.boot : PicHost := { pics := { master := ∅, slave := ∅ }, active := [] }

/-- An interrupt with what the command port reads, the end of interrupt that the innermost handler
sends, or the one that `isr_irq_handler` sends before it returns. -/
inductive PicEvent
  | interrupt (irq : ℕ) (spurious commandBit : Bool)
  | handlerEoi
  | dispatcherEoi

/-- One event, if it can happen. -/
def PicHost.next (nicIrq : ℕ) (s : PicHost) : PicEvent → Except Unit PicHost
  | .interrupt irq spurious commandBit =>
      let d : Dispatch := { irq := irq, spurious := spurious, sent := false }
      if d.ComesThrough s.pics then
        if ignoresIrq irq commandBit then .ok { s with pics := d.taken s.pics }
        else .ok { pics := d.taken s.pics, active := d :: s.active }
      else .error ()
  | .handlerEoi =>
      match s.active with
      | [] => .error ()
      | d :: active =>
          match handlerEoi nicIrq d.irq with
          | none => .error ()
          | some irq =>
              if d.sent = true then .error ()
              else .ok
                { pics := pic8259Eoi irq s.pics, active := { d with sent := true } :: active }
  | .dispatcherEoi =>
      match s.active with
      | [] => .error ()
      | d :: active =>
          -- The handler has returned.
          if d.sent = (handlerEoi nicIrq d.irq).isSome then
            .ok { pics := pic8259Eoi d.irq s.pics, active := active }
          else .error ()

/-! ### What is to hold of each event -/

/-- Only bits that the interrupt has in service are cleared. -/
structure Dispatch.ClearsOwn (d : Dispatch) (p p' : Pics) : Prop where
  master : p.master \ p'.master ⊆ d.masterBits
  slave : p.slave \ p'.slave ⊆ d.slaveBits

/-- Neither the line of the interrupt nor the one of its cascade is in service. -/
structure OutOfService (irq : ℕ) (p : Pics) : Prop where
  master : masterLine irq ∉ p.master
  slave : 8 ≤ irq → irq - 8 ∉ p.slave

/-- The event clears no bit but those of its own interrupt, and when the handling of an interrupt
that is not spurious ends its own bits are clear. -/
def PicHost.Proper (s : PicHost) : PicEvent → PicHost → Prop
  | .interrupt irq spurious commandBit, s' =>
      ignoresIrq irq commandBit → spurious = false → OutOfService irq s'.pics
  | .handlerEoi, s' => ∀ d ∈ s.active.head?, d.ClearsOwn s.pics s'.pics
  | .dispatcherEoi, s' => ∀ d ∈ s.active.head?,
      d.ClearsOwn s.pics s'.pics ∧ (d.spurious = false → OutOfService d.irq s'.pics)

/-- Every event of the run is proper. -/
def ProperAll (nicIrq : ℕ) (events : List PicEvent) : Prop :=
  Along (PicHost.next nicIrq) PicHost.Proper .boot events

/-- No line is in service at the master that the interrupt does not expect: none if it is a spurious
IRQ 7, and otherwise not the cascade's ahead of its own, which a spurious IRQ 15 leaves behind. -/
def Dispatch.Unspoiled (d : Dispatch) (p : Pics) : Prop :=
  if d.spurious = true ∧ d.irq = 7 then p.master = ∅ else masterLine d.irq ≤ 2 ∨ 2 ∉ p.master

/-- The condition on an event. An IRQ 7 or 15 that is not spurious finds bit 7 set. The first end of
interrupt is sent with nothing unexpected at the master, and the timer's with nothing in service at
the slave. The second one is sent with nothing in service at the master. -/
def PicHost.Fits (s : PicHost) : PicEvent → Prop
  | .interrupt irq spurious commandBit =>
      spurious = false → irq = 7 ∨ irq = 15 → commandBit = true
  | .handlerEoi => ∀ d ∈ s.active.head?,
      d.Unspoiled s.pics ∧ (d.irq = 0 → s.pics.slave = ∅)
  | .dispatcherEoi => ∀ d ∈ s.active.head?,
      if d.sent = true then s.pics.master = ∅ else d.Unspoiled s.pics

/-- Every event of the run meets the condition. -/
def FitsAll (nicIrq : ℕ) (events : List PicEvent) : Prop :=
  Along (PicHost.next nicIrq) (fun s e _ => s.Fits e) .boot events

variable {nicIrq : ℕ} {s s' : PicHost} {e : PicEvent} {d : Dispatch} {active : List Dispatch}
  {p p' : Pics}

/-! ### What is in service -/

theorem Dispatch.mem_masterBits {b : ℕ} :
    b ∈ d.masterBits ↔
      d.sent = false ∧ ¬ (d.spurious = true ∧ d.irq = 7) ∧ b = masterLine d.irq := by
  rw [Dispatch.masterBits]
  split
  · rename_i h
    refine iff_of_false (Finset.notMem_empty b) fun ⟨hsent, hother, _⟩ => ?_
    rcases h with h | h
    · cases hsent.symm.trans h
    · exact hother h
  · rename_i h
    obtain ⟨hsent, hother⟩ := not_or.mp h
    rw [Finset.mem_singleton]
    exact ⟨fun hb => ⟨Bool.eq_false_iff.mpr hsent, hother, hb⟩, fun hb => hb.2.2⟩

theorem Dispatch.mem_slaveBits {b : ℕ} :
    b ∈ d.slaveBits ↔
      d.sent = false ∧ d.spurious = false ∧ 8 ≤ d.irq ∧ b = d.irq - 8 := by
  rw [Dispatch.slaveBits]
  split
  · rename_i h
    refine iff_of_false (Finset.notMem_empty b) fun ⟨hsent, hreal, hirq, _⟩ => ?_
    rcases h with h | h | h
    · cases hsent.symm.trans h
    · cases hreal.symm.trans h
    · exact Nat.not_lt.mpr hirq h
  · rename_i h
    obtain ⟨hsent, hothers⟩ := not_or.mp h
    obtain ⟨hreal, hirq⟩ := not_or.mp hothers
    rw [Finset.mem_singleton]
    exact ⟨fun hb => ⟨Bool.eq_false_iff.mpr hsent, Bool.eq_false_iff.mpr hreal,
      Nat.not_lt.mp hirq, hb⟩, fun hb => hb.2.2.2⟩

theorem Dispatch.bits_of_sent (hsent : d.sent = true) : d.masterBits = ∅ ∧ d.slaveBits = ∅ :=
  ⟨if_pos (Or.inl hsent), if_pos (Or.inl hsent)⟩

/-- An interrupt that is not spurious has its line at the master. -/
theorem Dispatch.masterLine_mem (hsent : d.sent = false) (hreal : d.spurious = false) :
    masterLine d.irq ∈ d.masterBits := by
  refine mem_masterBits.mpr ⟨hsent, fun h => ?_, rfl⟩
  cases hreal.symm.trans h.1

/-- It is in service when the processor has taken it. -/
theorem Dispatch.not_outOfService_taken (hsent : d.sent = false) (hreal : d.spurious = false) :
    ¬ OutOfService d.irq (d.taken p) :=
  fun h => h.master (Finset.mem_union_right _ (masterLine_mem hsent hreal))

/-- An interrupt in service at the slave has the cascade's line at the master. -/
theorem Dispatch.two_mem_masterBits {b : ℕ} (hb : b ∈ d.slaveBits) : 2 ∈ d.masterBits := by
  obtain ⟨hsent, hreal, hirq, -⟩ := mem_slaveBits.mp hb
  refine mem_masterBits.mpr ⟨hsent, fun h => ?_, (if_neg (Nat.not_lt.mpr hirq)).symm⟩
  cases hreal.symm.trans h.1

/-- What is in service belongs to the calls that have not returned, each ahead of those it is nested
in. Only the cascade's line may be left over. -/
structure PicHost.Tracked (p : Pics) (active : List Dispatch) : Prop where
  holdsMaster : ∀ d ∈ active, d.masterBits ⊆ p.master
  holdsSlave : ∀ d ∈ active, d.slaveBits ⊆ p.slave
  master : ∀ b ∈ p.master, b = 2 ∨ ∃ d ∈ active, b ∈ d.masterBits
  slave : ∀ b ∈ p.slave, ∃ d ∈ active, b ∈ d.slaveBits
  ahead : active.Pairwise fun d d' => ∀ a ∈ d.masterBits, ∀ b ∈ d'.masterBits, a < b

namespace PicHost.Tracked

/-- Nothing is in service at the slave unless the cascade's line is. -/
theorem slave_eq_empty (h : Tracked p active) (hmaster : p.master = ∅) : p.slave = ∅ := by
  refine Finset.eq_empty_of_forall_notMem fun b hb => ?_
  obtain ⟨d, hd, hbits⟩ := h.slave b hb
  have htwo := h.holdsMaster d hd (Dispatch.two_mem_masterBits hbits)
  rw [hmaster] at htwo
  exact Finset.notMem_empty 2 htwo

/-- The slave serves the innermost call if that has the cascade's line. -/
theorem slave_subset (h : Tracked p (d :: active)) (hd : 2 ∈ d.masterBits) :
    p.slave ⊆ d.slaveBits := by
  intro b hb
  obtain ⟨d', hd', hbits⟩ := h.slave b hb
  rcases List.mem_cons.mp hd' with rfl | hd'
  · exact hbits
  · have hlt := List.rel_of_pairwise_cons h.ahead hd' 2 hd 2 (Dispatch.two_mem_masterBits hbits)
    exact absurd hlt (Nat.lt_irrefl 2)

/-- A call that has cleared its own bits and no others leaves the rest as it was. -/
theorem release (h : Tracked p (d :: active)) (hown : d.ClearsOwn p p')
    (hmaster : p'.master ⊆ p.master) (hslave : p'.slave ⊆ p.slave)
    (hgone : ∀ b ∈ d.masterBits, b ∉ p'.master) (hgone' : ∀ b ∈ d.slaveBits, b ∉ p'.slave) :
    Tracked p' active where
  holdsMaster d' hd' b hb := by
    by_contra hcleared
    have hmem := h.holdsMaster d' (List.mem_cons_of_mem d hd') hb
    have hlt := List.rel_of_pairwise_cons h.ahead hd' b
      (hown.master (Finset.mem_sdiff.mpr ⟨hmem, hcleared⟩)) b hb
    exact Nat.lt_irrefl b hlt
  holdsSlave d' hd' b hb := by
    by_contra hcleared
    have hmem := h.holdsSlave d' (List.mem_cons_of_mem d hd') hb
    have hlt := List.rel_of_pairwise_cons h.ahead hd' 2
      (Dispatch.two_mem_masterBits (hown.slave (Finset.mem_sdiff.mpr ⟨hmem, hcleared⟩))) 2
      (Dispatch.two_mem_masterBits hb)
    exact Nat.lt_irrefl 2 hlt
  master b hb := by
    rcases h.master b (hmaster hb) with htwo | ⟨d', hd', hbits⟩
    · exact Or.inl htwo
    · rcases List.mem_cons.mp hd' with rfl | hd'
      · exact absurd hb (hgone b hbits)
      · exact Or.inr ⟨d', hd', hbits⟩
  slave b hb := by
    obtain ⟨d', hd', hbits⟩ := h.slave b (hslave hb)
    rcases List.mem_cons.mp hd' with rfl | hd'
    · exact absurd hb (hgone' b hbits)
    · exact ⟨d', hd', hbits⟩
  ahead := (List.pairwise_cons.mp h.ahead).2

/-- A call with nothing in service may stand in front. -/
theorem cons_of_sent (h : Tracked p active) (hsent : d.sent = true) :
    Tracked p (d :: active) where
  holdsMaster d' hd' := by
    rcases List.mem_cons.mp hd' with rfl | hd'
    · exact (Dispatch.bits_of_sent hsent).1 ▸ Finset.empty_subset _
    · exact h.holdsMaster d' hd'
  holdsSlave d' hd' := by
    rcases List.mem_cons.mp hd' with rfl | hd'
    · exact (Dispatch.bits_of_sent hsent).2 ▸ Finset.empty_subset _
    · exact h.holdsSlave d' hd'
  master b hb := (h.master b hb).imp_right fun ⟨d', hd', hbits⟩ =>
    ⟨d', List.mem_cons_of_mem d hd', hbits⟩
  slave b hb :=
    have ⟨d', hd', hbits⟩ := h.slave b hb
    ⟨d', List.mem_cons_of_mem d hd', hbits⟩
  ahead := List.pairwise_cons.mpr ⟨fun _ _ a ha =>
    absurd ((Dispatch.bits_of_sent hsent).1 ▸ ha) (Finset.notMem_empty a), h.ahead⟩

end PicHost.Tracked

/-! ### One end of interrupt -/

@[simp] theorem pic8259Eoi_master (irq : ℕ) :
    (pic8259Eoi irq p).master = clearFirst p.master := by
  rw [pic8259Eoi]
  split <;> rfl

theorem pic8259Eoi_slave_of_le {irq : ℕ} (h : 8 ≤ irq) :
    (pic8259Eoi irq p).slave = clearFirst p.slave := by
  rw [pic8259Eoi, if_pos h]

theorem pic8259Eoi_slave_of_lt {irq : ℕ} (h : irq < 8) : (pic8259Eoi irq p).slave = p.slave := by
  rw [pic8259Eoi, if_neg (Nat.not_le.mpr h)]

theorem pic8259Eoi_slave_subset (irq : ℕ) : (pic8259Eoi irq p).slave ⊆ p.slave := by
  by_cases h : 8 ≤ irq
  · rw [pic8259Eoi_slave_of_le h]
    exact Priority.clearFirst_subset
  · rw [pic8259Eoi_slave_of_lt (Nat.not_le.mp h)]

theorem Dispatch.masterBits_eq {b : ℕ} (hb : b ∈ d.masterBits) : d.masterBits = {b} := by
  obtain ⟨hsent, hother, rfl⟩ := mem_masterBits.mp hb
  refine if_neg (not_or.mpr ⟨?_, hother⟩)
  exact Bool.eq_false_iff.mp hsent

theorem Dispatch.slaveBits_eq {b : ℕ} (hb : b ∈ d.slaveBits) : d.slaveBits = {b} := by
  obtain ⟨hsent, hreal, hirq, rfl⟩ := mem_slaveBits.mp hb
  refine if_neg (not_or.mpr ⟨?_, not_or.mpr ⟨?_, Nat.not_lt.mpr hirq⟩⟩)
  · exact Bool.eq_false_iff.mp hsent
  · exact Bool.eq_false_iff.mp hreal

theorem Dispatch.slaveBits_of_lt (hirq : d.irq < 8) : d.slaveBits = ∅ :=
  if_pos (Or.inr (Or.inr hirq))

/-- The cascade's line of an interrupt of the slave. -/
theorem Dispatch.two_mem_of_le (hsent : d.sent = false) (hirq : 8 ≤ d.irq) :
    2 ∈ d.masterBits := by
  refine mem_masterBits.mpr ⟨hsent, fun h => ?_, (if_neg (Nat.not_lt.mpr hirq)).symm⟩
  omega

/-- Nothing is ahead of the timer. -/
theorem Dispatch.unspoiled_of_zero (hirq : d.irq = 0) : d.Unspoiled p := by
  rw [Dispatch.Unspoiled, hirq, if_neg fun hspurious => absurd hspurious.2 (by decide)]
  exact Or.inl (Nat.zero_le 2)

namespace PicHost.Tracked

/-- At the master the first end of interrupt goes to the innermost call. -/
theorem clears_master_iff (h : Tracked p (d :: active)) (hsent : d.sent = false) :
    p.master \ clearFirst p.master ⊆ d.masterBits ↔ d.Unspoiled p := by
  rw [Dispatch.Unspoiled]
  by_cases hspurious : d.spurious = true ∧ d.irq = 7
  · rw [if_pos hspurious, Dispatch.masterBits, if_pos (Or.inr hspurious)]
    exact Priority.sdiff_clearFirst_subset_empty_iff
  · have hmem : masterLine d.irq ∈ d.masterBits :=
      Dispatch.mem_masterBits.mpr ⟨hsent, hspurious, rfl⟩
    rw [if_neg hspurious, Dispatch.masterBits_eq hmem,
      Priority.sdiff_clearFirst_subset_singleton_iff (h.holdsMaster d List.mem_cons_self hmem)]
    constructor
    · exact fun hfirst => or_iff_not_imp_right.mpr fun htwo => hfirst 2 (not_not.mp htwo)
    · intro hcascade b hb
      rcases h.master b hb with rfl | ⟨d', hd', hbits⟩
      · exact hcascade.resolve_right (not_not_intro hb)
      · rcases List.mem_cons.mp hd' with rfl | hd'
        · exact ((Dispatch.mem_masterBits.mp hbits).2.2).ge
        · exact (List.rel_of_pairwise_cons h.ahead hd' _ hmem b hbits).le

/-- At the slave it goes to the innermost call whatever else is in service. -/
theorem clears_slave (h : Tracked p (d :: active)) (hsent : d.sent = false) (hirq : 8 ≤ d.irq) :
    p.slave \ clearFirst p.slave ⊆ d.slaveBits :=
  Finset.sdiff_subset.trans (h.slave_subset (Dispatch.two_mem_of_le hsent hirq))

/-- **The first end of interrupt**, for the interrupt itself. -/
theorem clearsOwn_iff (h : Tracked p (d :: active)) (hsent : d.sent = false) :
    d.ClearsOwn p (pic8259Eoi d.irq p) ↔ d.Unspoiled p := by
  rw [← h.clears_master_iff hsent]
  refine ⟨fun hown => pic8259Eoi_master d.irq ▸ hown.master, fun hmaster => ⟨?_, ?_⟩⟩
  · rwa [pic8259Eoi_master]
  · by_cases hirq : 8 ≤ d.irq
    · rw [pic8259Eoi_slave_of_le hirq]
      exact h.clears_slave hsent hirq
    · rw [pic8259Eoi_slave_of_lt (Nat.not_le.mp hirq), Finset.sdiff_self]
      exact Finset.empty_subset _

/-- **The first end of interrupt**, for `IRQ_BASE` in place of the timer. -/
theorem clearsOwn_timer_iff (h : Tracked p (d :: active)) (hsent : d.sent = false)
    (hirq : d.irq = 0) : d.ClearsOwn p (pic8259Eoi irqBase p) ↔ p.slave = ∅ := by
  have hslave : (pic8259Eoi irqBase p).slave = clearFirst p.slave :=
    pic8259Eoi_slave_of_le (by decide)
  rw [← Priority.sdiff_clearFirst_subset_empty_iff,
    ← Dispatch.slaveBits_of_lt (d := d) (hirq ▸ Nat.zero_lt_succ 7), ← hslave]
  refine ⟨Dispatch.ClearsOwn.slave, fun hown => ⟨?_, hown⟩⟩
  rw [pic8259Eoi_master]
  exact (h.clears_master_iff hsent).mpr (Dispatch.unspoiled_of_zero hirq)

/-- **The second end of interrupt.** -/
theorem clearsOwn_sent_iff (h : Tracked p (d :: active)) (hsent : d.sent = true) :
    d.ClearsOwn p (pic8259Eoi d.irq p) ↔ p.master = ∅ := by
  obtain ⟨hmaster, hslave⟩ := Dispatch.bits_of_sent hsent
  constructor
  · intro hown
    have hcleared := hown.master
    rw [hmaster, pic8259Eoi_master] at hcleared
    exact Priority.sdiff_clearFirst_subset_empty_iff.mp hcleared
  · intro hnone
    have hsdiff : ∀ bits bits' : Finset ℕ, bits = ∅ → bits \ bits' ⊆ ∅ := by
      rintro _ bits' rfl
      exact Finset.sdiff_subset
    exact ⟨hmaster ▸ hsdiff _ _ hnone, hslave ▸ hsdiff _ _ (h.slave_eq_empty hnone)⟩

/-- An end of interrupt that clears no bits of others clears those of the innermost call. -/
theorem gone (h : Tracked p (d :: active)) {irq : ℕ} (hle : 8 ≤ d.irq → 8 ≤ irq)
    (hown : d.ClearsOwn p (pic8259Eoi irq p)) :
    (∀ b ∈ d.masterBits, b ∉ (pic8259Eoi irq p).master) ∧
      ∀ b ∈ d.slaveBits, b ∉ (pic8259Eoi irq p).slave := by
  constructor
  · intro b hb
    have hcleared := hown.master
    rw [pic8259Eoi_master, Dispatch.masterBits_eq hb] at hcleared
    rw [pic8259Eoi_master]
    exact Priority.notMem_clearFirst (h.holdsMaster d List.mem_cons_self hb) hcleared
  · intro b hb
    have hirq := hle (Dispatch.mem_slaveBits.mp hb).2.2.1
    have hcleared := hown.slave
    rw [pic8259Eoi_slave_of_le hirq, Dispatch.slaveBits_eq hb] at hcleared
    rw [pic8259Eoi_slave_of_le hirq]
    exact Priority.notMem_clearFirst (h.holdsSlave d List.mem_cons_self hb) hcleared

/-- The calls around the innermost one keep what they have in service. -/
theorem eoi (h : Tracked p (d :: active)) {irq : ℕ} (hle : 8 ≤ d.irq → 8 ≤ irq)
    (hown : d.ClearsOwn p (pic8259Eoi irq p)) : Tracked (pic8259Eoi irq p) active := by
  obtain ⟨hgone, hgone'⟩ := h.gone hle hown
  refine h.release hown ?_ (pic8259Eoi_slave_subset irq) hgone hgone'
  rw [pic8259Eoi_master]
  exact Priority.clearFirst_subset

end PicHost.Tracked

/-! ### One event -/

/-- What an event can do. -/
inductive PicHost.Step (nicIrq : ℕ) : PicHost → PicEvent → PicHost → Prop
  | ignored {p : Pics} {active : List Dispatch} {irq : ℕ} {spurious commandBit : Bool}
      (hthrough : Dispatch.ComesThrough ⟨irq, spurious, false⟩ p)
      (hignored : ignoresIrq irq commandBit) :
      Step nicIrq ⟨p, active⟩ (.interrupt irq spurious commandBit)
        ⟨Dispatch.taken ⟨irq, spurious, false⟩ p, active⟩
  | dispatched {p : Pics} {active : List Dispatch} {irq : ℕ} {spurious commandBit : Bool}
      (hthrough : Dispatch.ComesThrough ⟨irq, spurious, false⟩ p)
      (hhandled : ¬ ignoresIrq irq commandBit) :
      Step nicIrq ⟨p, active⟩ (.interrupt irq spurious commandBit)
        ⟨Dispatch.taken ⟨irq, spurious, false⟩ p, ⟨irq, spurious, false⟩ :: active⟩
  | sent {p : Pics} {d : Dispatch} {active : List Dispatch} {irq : ℕ}
      (hhandler : handlerEoi nicIrq d.irq = some irq) (hsent : d.sent = false) :
      Step nicIrq ⟨p, d :: active⟩ .handlerEoi
        ⟨pic8259Eoi irq p, { d with sent := true } :: active⟩
  | returned {p : Pics} {d : Dispatch} {active : List Dispatch}
      (hsent : d.sent = (handlerEoi nicIrq d.irq).isSome) :
      Step nicIrq ⟨p, d :: active⟩ .dispatcherEoi ⟨pic8259Eoi d.irq p, active⟩

theorem PicHost.Step.of_next (h : s.next nicIrq e = .ok s') : Step nicIrq s e s' := by
  obtain ⟨p, active⟩ := s
  cases e with
  | interrupt irq spurious commandBit =>
      rw [PicHost.next] at h
      split at h
      · rename_i hthrough
        split at h
        · rename_i hignored
          cases h
          exact .ignored hthrough hignored
        · rename_i hhandled
          cases h
          exact .dispatched hthrough hhandled
      · cases h
  | handlerEoi =>
      cases active with
      | nil => cases h
      | cons d active =>
          simp only [PicHost.next] at h
          split at h
          · cases h
          · rename_i irq hhandler
            split at h
            · cases h
            · rename_i hsent
              cases h
              exact .sent hhandler (Bool.eq_false_iff.mpr hsent)
  | dispatcherEoi =>
      cases active with
      | nil => cases h
      | cons d active =>
          simp only [PicHost.next] at h
          split at h
          · rename_i hsent
            cases h
            exact .returned hsent
          · cases h

theorem ignoresIrq_iff (irq : ℕ) (commandBit : Bool) :
    ignoresIrq irq commandBit ↔ (irq = 7 ∨ irq = 15) ∧ commandBit = false := by
  simp [ignoresIrq, pic8259IsSpurious, or_and_right]

/-- The handler's end of interrupt is sent for the interrupt, but for the timer's. -/
theorem handlerEoi_cases {irq irq' : ℕ} (h : handlerEoi nicIrq irq = some irq') :
    (irq = 0 ∧ irq' = irqBase) ∨ (irq ≠ 0 ∧ irq' = irq) := by
  rw [handlerEoi, interruptHandler] at h
  by_cases hzero : irq = 0
  · rw [if_pos hzero] at h
    cases h
    exact Or.inl ⟨hzero, rfl⟩
  · rw [if_neg hzero] at h
    split at h
    · cases h
    · split at h
      · rename_i hnic
        cases h
        exact Or.inr ⟨hzero, hnic.symm⟩
      · cases h

/-- It goes to the slave for an interrupt of the slave. -/
theorem le_of_handlerEoi {irq irq' : ℕ} (h : handlerEoi nicIrq irq = some irq') :
    8 ≤ irq → 8 ≤ irq' := by
  rcases handlerEoi_cases h with ⟨-, rfl⟩ | ⟨-, rfl⟩
  · exact fun _ => by decide
  · exact id

namespace PicHost.Tracked

theorem boot : Tracked PicHost.boot.pics PicHost.boot.active where
  holdsMaster := nofun
  holdsSlave := nofun
  master _ hb := absurd hb (Finset.notMem_empty _)
  slave _ hb := absurd hb (Finset.notMem_empty _)
  ahead := .nil

/-- A call that comes through is ahead of all others. -/
theorem taken (h : Tracked p active) (hthrough : d.ComesThrough p) :
    Tracked (d.taken p) (d :: active) where
  holdsMaster d' hd' := by
    rcases List.mem_cons.mp hd' with rfl | hd'
    · exact Finset.subset_union_right
    · exact (h.holdsMaster d' hd').trans Finset.subset_union_left
  holdsSlave d' hd' := by
    rcases List.mem_cons.mp hd' with rfl | hd'
    · exact Finset.subset_union_right
    · exact (h.holdsSlave d' hd').trans Finset.subset_union_left
  master b hb := by
    rcases Finset.mem_union.mp hb with hb | hb
    · exact (h.master b hb).imp_right fun ⟨d', hd', hbits⟩ =>
        ⟨d', List.mem_cons_of_mem d hd', hbits⟩
    · exact Or.inr ⟨d, List.mem_cons_self, hb⟩
  slave b hb := by
    rcases Finset.mem_union.mp hb with hb | hb
    · obtain ⟨d', hd', hbits⟩ := h.slave b hb
      exact ⟨d', List.mem_cons_of_mem d hd', hbits⟩
    · exact ⟨d, List.mem_cons_self, hb⟩
  ahead := List.pairwise_cons.mpr ⟨fun d' hd' a ha b hb =>
    hthrough.2.2.2.1 a ha b (h.holdsMaster d' hd' hb), h.ahead⟩

/-- A spurious interrupt that is ignored leaves at most the cascade's line. -/
theorem ignored (h : Tracked p active) (hthrough : d.ComesThrough p)
    (hspurious : d.spurious = true) : Tracked (d.taken p) active where
  holdsMaster d' hd' := (h.holdsMaster d' hd').trans Finset.subset_union_left
  holdsSlave d' hd' := (h.holdsSlave d' hd').trans Finset.subset_union_left
  master b hb := by
    rcases Finset.mem_union.mp hb with hb | hb
    · exact h.master b hb
    · obtain ⟨-, hother, rfl⟩ := Dispatch.mem_masterBits.mp hb
      have hirq := (hthrough.2.2.1 hspurious).resolve_left fun hirq => hother ⟨hspurious, hirq⟩
      exact Or.inl (hirq ▸ rfl)
  slave b hb := by
    rcases Finset.mem_union.mp hb with hb | hb
    · exact h.slave b hb
    · exact absurd ((Dispatch.mem_slaveBits.mp hb).2.1.symm.trans hspurious) (by decide)
  ahead := h.ahead

/-- Nothing of an interrupt is left when its call has cleared its own bits. -/
theorem outOfService (h : Tracked p (d :: active)) (hreal : d.spurious = false)
    (hown : d.ClearsOwn p (pic8259Eoi d.irq p)) : OutOfService d.irq (pic8259Eoi d.irq p) := by
  cases hsent : d.sent with
  | true =>
      have hnone := (h.clearsOwn_sent_iff hsent).mp hown
      refine ⟨fun hb => ?_, fun _ hb => ?_⟩
      · rw [pic8259Eoi_master, hnone] at hb
        exact Finset.notMem_empty _ (Priority.clearFirst_subset hb)
      · have hmem := pic8259Eoi_slave_subset d.irq hb
        rw [h.slave_eq_empty hnone] at hmem
        exact Finset.notMem_empty _ hmem
  | false =>
      obtain ⟨hgone, hgone'⟩ := h.gone id hown
      refine ⟨hgone _ ?_, fun hirq => hgone' _ ?_⟩
      · exact Dispatch.masterLine_mem hsent hreal
      · exact Dispatch.mem_slaveBits.mpr ⟨hsent, hreal, hirq, rfl⟩

end PicHost.Tracked

theorem forall_innermost {P : Dispatch → Prop} : (∀ d' ∈ (d :: active).head?, P d') ↔ P d := by
  simp

/-- An event is proper exactly if it meets the condition. -/
theorem PicHost.Step.proper_iff (hs : Step nicIrq s e s') (h : Tracked s.pics s.active) :
    s.Proper e s' ↔ s.Fits e := by
  cases hs with
  | @ignored p _ irq spurious commandBit hthrough hignored =>
      obtain ⟨hirq, hbit⟩ := (ignoresIrq_iff irq commandBit).mp hignored
      constructor
      · intro hproper hreal
        have htaken := Dispatch.not_outOfService_taken (d := ⟨irq, spurious, false⟩) (p := p)
          rfl hreal
        exact absurd (hproper hignored hreal) htaken
      · intro hfits _ hreal
        cases hbit.symm.trans (hfits hreal hirq)
  | @dispatched _ _ irq spurious commandBit hthrough hhandled =>
      refine iff_of_true (fun hignored => absurd hignored hhandled) fun _ hirq => ?_
      by_contra hbit
      exact hhandled ((ignoresIrq_iff irq commandBit).mpr ⟨hirq, Bool.eq_false_iff.mpr hbit⟩)
  | @sent p d active irq hhandler hsent =>
      refine forall_innermost.trans (Iff.trans ?_ forall_innermost.symm)
      rcases handlerEoi_cases hhandler with ⟨hirq, rfl⟩ | ⟨hirq, rfl⟩
      · rw [h.clearsOwn_timer_iff hsent hirq]
        exact ⟨fun hslave => ⟨Dispatch.unspoiled_of_zero hirq, fun _ => hslave⟩,
          fun hfits => hfits.2 hirq⟩
      · rw [h.clearsOwn_iff hsent]
        exact ⟨fun hown => ⟨hown, fun hzero => absurd hzero hirq⟩, And.left⟩
  | @returned p d active hsent =>
      refine forall_innermost.trans (Iff.trans ?_ forall_innermost.symm)
      rw [and_iff_left_of_imp fun hown hreal => h.outOfService hreal hown]
      split
      · exact h.clearsOwn_sent_iff ‹_›
      · exact h.clearsOwn_iff (Bool.eq_false_iff.mpr ‹_›)

/-- A proper event keeps account of what is in service. -/
theorem PicHost.Step.tracked (hs : Step nicIrq s e s') (h : Tracked s.pics s.active)
    (hproper : s.Proper e s') : Tracked s'.pics s'.active := by
  cases hs with
  | @ignored p _ irq spurious commandBit hthrough hignored =>
      refine h.ignored hthrough ?_
      by_contra hspurious
      have hreal := Bool.eq_false_iff.mpr hspurious
      have htaken := Dispatch.not_outOfService_taken (d := ⟨irq, spurious, false⟩) (p := p)
        rfl hreal
      exact htaken (hproper hignored hreal)
  | dispatched hthrough hhandled => exact h.taken hthrough
  | @sent p d active irq hhandler hsent =>
      have hown := hproper d rfl
      exact (h.eoi (le_of_handlerEoi hhandler) hown).cons_of_sent rfl
  | @returned p d active hsent => exact h.eoi id (hproper d rfl).1

/-- **Ends of interrupt.** In every run each interrupt clears its own bits in service and no others,
exactly if every event of the run meets the condition. -/
theorem properAll_iff (nicIrq : ℕ) (events : List PicEvent) :
    ProperAll nicIrq events ↔ FitsAll nicIrq events :=
  Along.iff_of_invariant (I := fun s => PicHost.Tracked s.pics s.active)
    (fun _ _ _ h hnext => (PicHost.Step.of_next hnext).proper_iff h)
    (fun _ _ _ h hnext => (PicHost.Step.of_next hnext).tracked h) .boot events

/-- A frame comes in on line 11, and a tick of the timer inside its handler. -/
def tickInsideFrame : List PicEvent :=
  [.interrupt 11 false true, .interrupt 0 false true, .handlerEoi]

/-- The timer's handler clears the NIC's bit at the slave. -/
theorem properAll_violated : ¬ ∀ nicIrq events, ProperAll nicIrq events := by
  intro h
  have hframe : PicHost.boot.next 11 (.interrupt 11 false true) =
      .ok ⟨⟨{2}, {3}⟩, [⟨11, false, false⟩]⟩ := rfl
  have htick : PicHost.next 11 ⟨⟨{2}, {3}⟩, [⟨11, false, false⟩]⟩ (.interrupt 0 false true) =
      .ok ⟨⟨{2, 0}, {3}⟩, [⟨0, false, false⟩, ⟨11, false, false⟩]⟩ := rfl
  have hsent : PicHost.next 11 ⟨⟨{2, 0}, {3}⟩, [⟨0, false, false⟩, ⟨11, false, false⟩]⟩
      .handlerEoi = .ok ⟨⟨{2}, ∅⟩, [⟨0, false, true⟩, ⟨11, false, false⟩]⟩ := rfl
  have hproper := (((h 11 tickInsideFrame _ hframe).2 _ htick).2 _ hsent).1
  have hslave := (hproper _ rfl).slave
  exact absurd hslave (by decide)

/-! ### Handlers that are not nested -/

/-- An interrupt that is not spurious comes when no handler runs. -/
def PicHost.Unnested (s : PicHost) : PicEvent → Prop
  | .interrupt irq spurious commandBit =>
      s.active = [] ∧ spurious = false ∧ (irq = 7 ∨ irq = 15 → commandBit = true)
  | _ => True

/-- At most one interrupt is in service, and it is not spurious. -/
structure PicHost.Single (s : PicHost) : Prop where
  tracked : Tracked s.pics s.active
  master : ∀ b ∈ s.pics.master, ∃ d ∈ s.active, b ∈ d.masterBits
  real : ∀ d ∈ s.active, d.spurious = false
  length : s.active.length ≤ 1

theorem PicHost.Single.eq_nil (h : Single ⟨p, d :: active⟩) : active = [] :=
  List.length_eq_zero_iff.mp (Nat.le_zero.mp (Nat.le_of_succ_le_succ h.length))

/-- The call that runs finds its own bits in service. -/
theorem PicHost.Single.fits (h : Single ⟨p, [d]⟩) :
    d.Unspoiled p ∧ (d.irq = 0 → p.slave = ∅) ∧ (d.sent = true → p.master = ∅) := by
  have hreal := h.real d List.mem_cons_self
  have hmaster : ∀ b ∈ p.master, b ∈ d.masterBits := fun b hb => by
    obtain ⟨d', hd', hbits⟩ := h.master b hb
    rwa [List.mem_singleton.mp hd'] at hbits
  refine ⟨?_, fun hirq => ?_, fun hsent => ?_⟩
  · rw [Dispatch.Unspoiled, if_neg fun hspurious => Bool.eq_false_iff.mp hreal hspurious.1]
    refine or_iff_not_imp_right.mpr fun htwo => ?_
    exact (Dispatch.mem_masterBits.mp (hmaster 2 (not_not.mp htwo))).2.2.ge
  · refine Finset.eq_empty_of_forall_notMem fun b hb => ?_
    obtain ⟨d', hd', hbits⟩ := h.tracked.slave b hb
    rw [List.mem_singleton.mp hd', Dispatch.slaveBits_of_lt (hirq ▸ Nat.zero_lt_succ 7)] at hbits
    exact Finset.notMem_empty b hbits
  · refine Finset.eq_empty_of_forall_notMem fun b hb => ?_
    exact Finset.notMem_empty b ((Dispatch.bits_of_sent hsent).1 ▸ hmaster b hb)

/-- What the calls have in service is all that is, when one of them has cleared its own. -/
theorem PicHost.Single.eoi (h : Single ⟨p, [d]⟩) {irq : ℕ} (hle : 8 ≤ d.irq → 8 ≤ irq)
    (hown : d.ClearsOwn p (pic8259Eoi irq p)) : Single ⟨pic8259Eoi irq p, []⟩ where
  tracked := h.tracked.eoi hle hown
  master b hb := by
    obtain ⟨d', hd', hbits⟩ := h.master b (by
      rw [pic8259Eoi_master] at hb
      exact Priority.clearFirst_subset hb)
    rw [List.mem_singleton.mp hd'] at hbits
    exact absurd hb ((h.tracked.gone hle hown).1 b hbits)
  real := nofun
  length := Nat.zero_le 1

/-- One event. -/
theorem PicHost.Single.step (h : s.Single) (hs : Step nicIrq s e s') (hunnested : s.Unnested e) :
    s.Fits e ∧ s'.Single := by
  cases hs with
  | @ignored p active irq spurious commandBit hthrough hignored =>
      obtain ⟨-, -, hbit⟩ := hunnested
      obtain ⟨hirq, hclear⟩ := (ignoresIrq_iff irq commandBit).mp hignored
      cases hclear.symm.trans (hbit hirq)
  | @dispatched p active irq spurious commandBit hthrough hhandled =>
      obtain ⟨hnone, hreal, hbit⟩ := hunnested
      obtain rfl : active = [] := hnone
      refine ⟨fun _ => hbit, h.tracked.taken hthrough, fun b hb => ?_, ?_, Nat.le_refl 1⟩
      · rcases Finset.mem_union.mp hb with hb | hb
        · obtain ⟨d', hd', -⟩ := h.master b hb
          cases hd'
        · exact ⟨_, List.mem_cons_self, hb⟩
      · exact List.forall_mem_singleton.mpr hreal
  | @sent p d active irq hhandler hsent =>
      obtain rfl := h.eq_nil
      have hfits : PicHost.Fits ⟨p, [d]⟩ .handlerEoi :=
        forall_innermost.mpr ⟨h.fits.1, h.fits.2.1⟩
      have hown := (((Step.sent hhandler hsent).proper_iff h.tracked).mpr hfits) d rfl
      have hnone := h.eoi (le_of_handlerEoi hhandler) hown
      refine ⟨hfits, hnone.tracked.cons_of_sent rfl, fun b hb => ?_, ?_, Nat.le_refl 1⟩
      · obtain ⟨d', hd', -⟩ := hnone.master b hb
        cases hd'
      · exact List.forall_mem_singleton.mpr (h.real d List.mem_cons_self)
  | @returned p d active hsent =>
      obtain rfl := h.eq_nil
      have hfits : PicHost.Fits ⟨p, [d]⟩ .dispatcherEoi := forall_innermost.mpr (by
        split
        · exact h.fits.2.2 ‹_›
        · exact h.fits.1)
      have hown := ((((Step.returned hsent).proper_iff h.tracked).mpr hfits) d rfl).1
      exact ⟨hfits, h.eoi id hown⟩

/-- **Handlers one after the other.** As long as no handler is nested in another one and no
interrupt is spurious, each interrupt clears its own bits and no others. -/
theorem properAll_of_unnested (nicIrq : ℕ) {events : List PicEvent}
    (h : Along (PicHost.next nicIrq) (fun s e _ => s.Unnested e) .boot events) :
    ProperAll nicIrq events := by
  refine Along.imp_of_invariant (I := PicHost.Single) (fun s e s' hs hnext hunnested => ?_)
    ⟨.boot, nofun, nofun, Nat.zero_le 1⟩ h
  have hstep := PicHost.Step.of_next hnext
  obtain ⟨hfits, hs'⟩ := hs.step hstep hunnested
  exact ⟨(hstep.proper_iff hs.tracked).mpr hfits, hs'⟩

end HalOS
