import HalOS.Cpu.Gates
import Mathlib.Tactic.IntervalCases

/-!
# Entering and Leaving Interrupts

The stubs of `asm/irq.asm`, as lists of their instructions, on a processor with its registers and
the words of its memory. An interrupt is delivered through its gate within the privilege of the
kernel, and `isr_irq_handler` is any code that keeps the stack of its callers, its argument
included. Interrupts come at any point at which they are enabled and the stack has room, so also
in handlers and in the stubs themselves, to any depth.

Addresses and words are natural numbers; the stack does not run down to address zero. What
instructions other than those for the interrupt flag do to `eflags` does not matter, since all of it
is restored.

## Main results

* `irq_reaches_handler`: where an interrupt leads, and what `isr_irq_handler` is given.
* `interrupt_resumes`: the code that is interrupted goes on with its registers and its stack.
-/

namespace HalOS

namespace Entry

open Gates (Gate gateAt idtInit interruptGate)

/-- What a segment register holds. -/
abbrev Selector := Fin (2 ^ 16)

/-- The registers, and the word at each address. -/
structure Cpu where
  eax : ℕ
  ecx : ℕ
  edx : ℕ
  ebx : ℕ
  esp : ℕ
  ebp : ℕ
  esi : ℕ
  edi : ℕ
  eip : ℕ
  eflags : ℕ
  cs : Selector
  ds : Selector
  es : Selector
  fs : Selector
  gs : Selector
  mem : ℕ → ℕ

namespace Cpu

/-- The interrupt flag. -/
def interruptFlag (s : Cpu) : Bool := s.eflags.testBit 9

/-- A word is pushed. -/
def push (v : ℕ) (s : Cpu) : Cpu :=
  { s with esp := s.esp - 4, mem := Function.update s.mem (s.esp - 4) v }

end Cpu

/-- The segment registers that the stubs load. -/
inductive Seg
  | ds | es | fs | gs
deriving DecidableEq, Repr

/-- A segment register is loaded. -/
def Seg.load (v : Selector) (s : Cpu) : Seg → Cpu
  | ds => { s with ds := v }
  | es => { s with es := v }
  | fs => { s with fs := v }
  | gs => { s with gs := v }

/-- The instructions of the stubs. -/
inductive Instr
  | cli | sti
  | pushImm (v : ℕ)
  | pusha | popa
  | movAxDs
  | pushEax
  | movAx (v : Selector)
  | movSegAx (seg : Seg)
  | movSegBx (seg : Seg)
  | pushEsp | popEsp | popEbx
  | addEsp (v : ℕ)
  | iret
deriving DecidableEq, Repr

/-- The low half of a register is replaced. -/
def lowHalf (v : ℕ) (x : Selector) : ℕ := v / 2 ^ 16 * 2 ^ 16 + x

/-- The low half of a register. -/
def toSelector (v : ℕ) : Selector := ⟨v % 2 ^ 16, Nat.mod_lt _ (by norm_num)⟩

/-- One instruction. -/
def Instr.exec (s : Cpu) : Instr → Cpu
  | cli => { s with eflags := s.eflags - if s.interruptFlag then 2 ^ 9 else 0 }
  | sti => { s with eflags := s.eflags + if s.interruptFlag then 0 else 2 ^ 9 }
  | pushImm v => s.push v
  | pusha =>
      let esp := s.esp
      let s := (((s.push s.eax).push s.ecx).push s.edx).push s.ebx
      (((s.push esp).push s.ebp).push s.esi).push s.edi
  | popa =>
      { s with
        edi := s.mem s.esp, esi := s.mem (s.esp + 4), ebp := s.mem (s.esp + 8),
        ebx := s.mem (s.esp + 16), edx := s.mem (s.esp + 20), ecx := s.mem (s.esp + 24),
        eax := s.mem (s.esp + 28), esp := s.esp + 32 }
  | movAxDs => { s with eax := lowHalf s.eax s.ds }
  | pushEax => s.push s.eax
  | movAx v => { s with eax := lowHalf s.eax v }
  | movSegAx seg => seg.load (toSelector s.eax) s
  | movSegBx seg => seg.load (toSelector s.ebx) s
  | pushEsp => s.push s.esp
  | popEsp => { s with esp := s.mem s.esp }
  | popEbx => { s with ebx := s.mem s.esp, esp := s.esp + 4 }
  | addEsp v => { s with esp := s.esp + v }
  | iret =>
      { s with
        eip := s.mem s.esp, cs := toSelector (s.mem (s.esp + 4)), eflags := s.mem (s.esp + 8),
        esp := s.esp + 12 }

/-- Instructions one after another. -/
def execAll : List Instr → Cpu → Cpu
  | [], s => s
  | i :: is, s => execAll is (i.exec s)

/-- `irq_k`, up to its jump to `irq_handler`. -/
def irqStub (k : ℕ) : List Instr := [.cli, .pushImm 0, .pushImm (32 + k)]

/-- `irq_handler` up to its call of `isr_irq_handler`. -/
def irqEnter : List Instr :=
  [.pusha, .movAxDs, .pushEax, .movAx 0x10, .movSegAx .ds, .movSegAx .es, .movSegAx .fs,
    .movSegAx .gs, .pushEsp]

/-- `irq_handler` behind its call of `isr_irq_handler`. -/
def irqLeave : List Instr :=
  [.popEsp, .popEbx, .movSegBx .ds, .movSegBx .es, .movSegBx .fs, .movSegBx .gs, .popa, .addEsp 8,
    .sti, .iret]

/-- What the processor does to `eflags` at an interrupt gate: TF, IF, NT, RF and VM are cleared. -/
def gateFlags (eflags : ℕ) : ℕ := eflags &&& (2 ^ 32 - 1 - (2 ^ 8 + 2 ^ 9 + 2 ^ 14 + 2 ^ 16 + 2 ^ 17))

/-- An interrupt is delivered through a gate of the kernel. -/
def deliver (g : Gate) (s : Cpu) : Cpu :=
  let s := ((s.push s.eflags).push s.cs).push s.eip
  { s with eflags := gateFlags s.eflags, cs := toSelector g.selector, eip := g.offset }

/-- `isr_irq_handler` is called, and is to return to this address. -/
def call (ret : ℕ) (s : Cpu) : Cpu := s.push ret

/-- It returns. -/
def ret (s : Cpu) : Cpu := { s with eip := s.mem s.esp, esp := s.esp + 4 }

variable (g : Gate) (retAddr k : ℕ)

/-- The processor at the first instruction of `isr_irq_handler`, if IRQ `k` has come at `s`. -/
def entered (s : Cpu) : Cpu := call retAddr (execAll (irqStub k ++ irqEnter) (deliver g s))

/-! ### What the handler is given -/

/-- `REGISTERS`, by the words at its address. -/
structure Registers where
  ds : ℕ
  edi : ℕ
  esi : ℕ
  ebp : ℕ
  esp : ℕ
  ebx : ℕ
  edx : ℕ
  ecx : ℕ
  eax : ℕ
  intNo : ℕ
  errCode : ℕ
  eip : ℕ
  cs : ℕ
  eflags : ℕ
deriving DecidableEq, Repr

/-- The structure at an address. -/
def registersAt (mem : ℕ → ℕ) (a : ℕ) : Registers where
  ds := mem a
  edi := mem (a + 4)
  esi := mem (a + 8)
  ebp := mem (a + 12)
  esp := mem (a + 16)
  ebx := mem (a + 20)
  edx := mem (a + 24)
  ecx := mem (a + 28)
  eax := mem (a + 32)
  intNo := mem (a + 36)
  errCode := mem (a + 40)
  eip := mem (a + 44)
  cs := mem (a + 48)
  eflags := mem (a + 52)

/-- How many bytes are pushed before the handler runs. -/
abbrev frameSize : ℕ := 64

variable {g retAddr k} {s : Cpu}

theorem entered_esp : (entered g retAddr k s).esp = s.esp - 64 := by
  simp [entered, call, deliver, execAll, irqStub, irqEnter, Instr.exec, Cpu.push, Seg.load]
  omega

/-- The words that are pushed, from the return address on up. -/
def frame (retAddr k : ℕ) (s : Cpu) : List ℕ :=
  [retAddr, s.esp - 56, lowHalf s.eax s.ds, s.edi, s.esi, s.ebp, s.esp - 20, s.ebx, s.edx, s.ecx,
    s.eax, 32 + k, 0, s.eip, s.cs, s.eflags]

/-- The stack of the code that is interrupted, below its own words. -/
theorem entered_mem (hroom : frameSize ≤ s.esp) (i : ℕ) (hi : i < 16) :
    (entered g retAddr k s).mem (s.esp - 64 + 4 * i) = (frame retAddr k s).getD i 0 := by
  obtain ⟨e, he⟩ : ∃ e, s.esp = e + 64 := ⟨s.esp - 64, by simp only [frameSize] at hroom; omega⟩
  simp only [entered, call, deliver, execAll, irqStub, irqEnter, Instr.exec, Cpu.push, Seg.load,
    List.cons_append, List.nil_append, he, frame]
  interval_cases i <;> simp

/-- No other word is changed. -/
theorem entered_mem_of_le {a : ℕ} (hroom : frameSize ≤ s.esp) (ha : s.esp ≤ a) :
    (entered g retAddr k s).mem a = s.mem a := by
  obtain ⟨e, he⟩ : ∃ e, s.esp = e + 64 := ⟨s.esp - 64, by simp only [frameSize] at hroom; omega⟩
  simp only [entered, call, deliver, execAll, irqStub, irqEnter, Instr.exec, Cpu.push, Seg.load,
    List.cons_append, List.nil_append, he]
  rw [he] at ha
  simp only [Function.update_apply]
  repeat rw [if_neg (by omega)]

theorem interruptFlag_entered : (entered g retAddr k s).interruptFlag = false := by
  have hflag : (gateFlags s.eflags).testBit 9 = false := by
    have hmask : (2 ^ 32 - 1 - (2 ^ 8 + 2 ^ 9 + 2 ^ 14 + 2 ^ 16 + 2 ^ 17)).testBit 9 = false := rfl
    rw [gateFlags, Nat.testBit_and, hmask, Bool.and_false]
  simp [entered, call, deliver, execAll, irqStub, irqEnter, Instr.exec, Cpu.push, Seg.load,
    Cpu.interruptFlag, hflag]

/-- An IRQ leads through the gate that `idt_init` has set for it to its stub, and from there to
`isr_irq_handler`, with interrupts disabled and with the registers of the code that is interrupted;
but `esp` is that of the stub, and the upper half of `ds` is that of `eax`. -/
theorem irq_reaches_handler (exception irq : ℕ → UInt32) {k : ℕ} (hk : k < 16) (retAddr : ℕ)
    {s : Cpu} (hroom : frameSize ≤ s.esp) :
    ∃ g, gateAt (idtInit exception irq) (32 + k) = some g ∧ g.present = true ∧
      g.offset = (irq k).toNat ∧ (entered g retAddr k s).interruptFlag = false ∧
        registersAt (entered g retAddr k s).mem
            ((entered g retAddr k s).mem ((entered g retAddr k s).esp + 4)) =
          { ds := lowHalf s.eax s.ds, edi := s.edi, esi := s.esi, ebp := s.ebp,
            esp := s.esp - 20, ebx := s.ebx, edx := s.edx, ecx := s.ecx, eax := s.eax,
            intNo := 32 + k, errCode := 0, eip := s.eip, cs := s.cs, eflags := s.eflags } := by
  refine ⟨interruptGate (irq k), ?_, rfl, rfl, interruptFlag_entered, ?_⟩
  · rw [Gates.gateAt_idtInit, if_neg (by omega), if_pos (by omega), Nat.add_sub_cancel_left]
  have hsize : 64 ≤ s.esp := hroom
  have hword : ∀ i a, a = s.esp - 64 + 4 * i → i < 16 →
      (entered (interruptGate (irq k)) retAddr k s).mem a = (frame retAddr k s).getD i 0 :=
    fun i a ha hi => ha ▸ entered_mem hroom i hi
  have hreg : (entered (interruptGate (irq k)) retAddr k s).mem (s.esp - 64 + 4) = s.esp - 56 :=
    hword 1 _ (by omega) (by norm_num)
  rw [entered_esp, hreg, registersAt]
  simp only [Registers.mk.injEq]
  refine ⟨hword 2 _ ?_ ?_, hword 3 _ ?_ ?_, hword 4 _ ?_ ?_, hword 5 _ ?_ ?_, hword 6 _ ?_ ?_,
    hword 7 _ ?_ ?_, hword 8 _ ?_ ?_, hword 9 _ ?_ ?_, hword 10 _ ?_ ?_, hword 11 _ ?_ ?_,
    hword 12 _ ?_ ?_, hword 13 _ ?_ ?_, hword 14 _ ?_ ?_, hword 15 _ ?_ ?_⟩ <;> omega

/-- A processor that runs the kernel at address 5, with a stack of a hundred bytes. -/
def sampleCpu : Cpu :=
  ⟨1, 2, 3, 4, 100, 6, 7, 8, 5, 0x202, 0x08, 0x10, 0x10, 0x10, 0x10, fun _ => 0⟩

/-- IRQ 1. -/
theorem irq_reaches_handler_keyboard :
    ∃ g, gateAt (idtInit (fun _ => 0) fun k => UInt32.ofNat (0x1000 + k)) 33 = some g ∧
      g.present = true ∧ g.offset = 0x1001 ∧
        (entered g 9 1 sampleCpu).interruptFlag = false ∧
          registersAt (entered g 9 1 sampleCpu).mem
              ((entered g 9 1 sampleCpu).mem ((entered g 9 1 sampleCpu).esp + 4)) =
            ⟨0x10, 8, 7, 6, 80, 4, 3, 2, 1, 33, 0, 5, 0x08, 0x202⟩ :=
  irq_reaches_handler (fun _ => 0) (fun k => UInt32.ofNat (0x1000 + k)) (by norm_num : 1 < 16) 9
    (s := sampleCpu) (by norm_num [sampleCpu])

/-! ### Runs with interrupts -/

/-- What runs: C code whose callers have the stack from an address on up, or instructions of a
stub. -/
inductive Task
  | code (base : ℕ)
  | stub (is : List Instr)

/-- The words of the stack from an address up to its top are the same. -/
def KeepsStack (top base : ℕ) (s t : Cpu) : Prop :=
  ∀ a, base ≤ a → a < top → t.mem a = s.mem a

/-- Runs of a task, from one state of the processor to another, with interrupts. C code does
anything that keeps the stack of its callers. An interrupt runs the handler until it returns, with
the stack pointer it was called with, and then the rest of the stub. -/
inductive Runs (irq : ℕ → UInt32) (retAddr top : ℕ) : Task → Cpu → Cpu → Prop
  | stop (base : ℕ) (s : Cpu) : Runs irq retAddr top (.code base) s s
  | own {base : ℕ} {s s' t : Cpu} : KeepsStack top base s s' → s'.esp ≤ base →
      Runs irq retAddr top (.code base) s' t → Runs irq retAddr top (.code base) s t
  | done (s : Cpu) : Runs irq retAddr top (.stub []) s s
  | instr {i : Instr} {is : List Instr} {s t : Cpu} : Runs irq retAddr top (.stub is) (i.exec s) t →
      Runs irq retAddr top (.stub (i :: is)) s t
  | interrupt {task : Task} {s u v t : Cpu} (k : ℕ) : k < 16 → s.interruptFlag = true →
      frameSize ≤ s.esp → s.esp ≤ top →
      Runs irq retAddr top (.code (s.esp - 60)) (entered (interruptGate (irq k)) retAddr k s) u →
      u.esp = s.esp - 64 → Runs irq retAddr top (.stub irqLeave) (ret u) v →
      Runs irq retAddr top task v t → Runs irq retAddr top task s t

variable {irq : ℕ → UInt32} {top : ℕ}

/-- The code that was interrupted goes on as if nothing had been, except for segment registers other
than `ds`, which have all got what `ds` holds, and for memory other than its stack. -/
structure Resumes (top : ℕ) (s v : Cpu) : Prop where
  eax : v.eax = s.eax
  ecx : v.ecx = s.ecx
  edx : v.edx = s.edx
  ebx : v.ebx = s.ebx
  esp : v.esp = s.esp
  ebp : v.ebp = s.ebp
  esi : v.esi = s.esi
  edi : v.edi = s.edi
  eip : v.eip = s.eip
  eflags : v.eflags = s.eflags
  cs : v.cs = s.cs
  ds : v.ds = s.ds
  segs : v.es = s.es ∧ v.fs = s.fs ∧ v.gs = s.gs ∨ v.es = s.ds ∧ v.fs = s.ds ∧ v.gs = s.ds
  stack : KeepsStack top s.esp s v

theorem Resumes.refl (top : ℕ) (s : Cpu) : Resumes top s s where
  eax := rfl
  ecx := rfl
  edx := rfl
  ebx := rfl
  esp := rfl
  ebp := rfl
  esi := rfl
  edi := rfl
  eip := rfl
  eflags := rfl
  cs := rfl
  ds := rfl
  segs := Or.inl ⟨rfl, rfl, rfl⟩
  stack := fun _ _ _ => rfl

theorem Resumes.trans {s v w : Cpu} (h : Resumes top s v) (h' : Resumes top v w) :
    Resumes top s w where
  eax := h'.eax.trans h.eax
  ecx := h'.ecx.trans h.ecx
  edx := h'.edx.trans h.edx
  ebx := h'.ebx.trans h.ebx
  esp := h'.esp.trans h.esp
  ebp := h'.ebp.trans h.ebp
  esi := h'.esi.trans h.esi
  edi := h'.edi.trans h.edi
  eip := h'.eip.trans h.eip
  eflags := h'.eflags.trans h.eflags
  cs := h'.cs.trans h.cs
  ds := h'.ds.trans h.ds
  segs := by
    rcases h'.segs with ⟨hes, hfs, hgs⟩ | ⟨hes, hfs, hgs⟩
    · rw [hes, hfs, hgs]
      exact h.segs
    · rw [hes, hfs, hgs, h.ds]
      exact Or.inr ⟨rfl, rfl, rfl⟩
  stack := fun a ha htop => (h'.stack a (h.esp.trans_le ha) htop).trans (h.stack a ha htop)

/-- A run of a stub, with any number of interrupts before each of its instructions and behind the
last one. -/
def Chain (top : ℕ) : List Instr → Cpu → Cpu → Prop
  | [], s, t => Resumes top s t
  | i :: is, s, t => ∃ v, Resumes top s v ∧ Chain top is (i.exec v) t

theorem Chain.of_resumes {is : List Instr} {s v t : Cpu} (h : Resumes top s v)
    (h' : Chain top is v t) : Chain top is s t := by
  cases is with
  | nil => exact h.trans h'
  | cons i is =>
      obtain ⟨w, hw, hrest⟩ := h'
      exact ⟨w, h.trans hw, hrest⟩

/-! ### The way back -/

/-- The stub is at this address of the stack that it was entered with. -/
structure Live (top : ℕ) (m : ℕ → ℕ) (esp : ℕ) (w : Cpu) : Prop where
  esp_eq : w.esp = esp
  mem_eq : ∀ a, esp ≤ a → a < top → w.mem a = m a

theorem Live.resumes {m : ℕ → ℕ} {esp : ℕ} {w w' : Cpu} (h : Live top m esp w)
    (h' : Resumes top w w') : Live top m esp w' :=
  ⟨h'.esp.trans h.esp_eq, fun a ha htop =>
    (h'.stack a (h.esp_eq.trans_le ha) htop).trans (h.mem_eq a ha htop)⟩

/-- Words are taken off the stack. -/
theorem Live.up {m : ℕ → ℕ} {esp esp' : ℕ} {w w' : Cpu} (h : Live top m esp w) (hle : esp ≤ esp')
    (hesp : w'.esp = esp') (hmem : w'.mem = w.mem) : Live top m esp' w' :=
  ⟨hesp, fun a ha htop => by rw [hmem]; exact h.mem_eq a (hle.trans ha) htop⟩

theorem toSelector_lowHalf (v : ℕ) (x : Selector) : toSelector (lowHalf v x) = x := by
  have hx := x.isLt
  ext
  simp only [toSelector, lowHalf]
  omega

theorem toSelector_val (x : Selector) : toSelector x = x := by
  ext
  exact Nat.mod_eq_of_lt x.isLt

/-- A word of the frame, where the stub finds it. -/
theorem Live.word {esp i a : ℕ} {w : Cpu} (h : Live top (entered g retAddr k s).mem esp w)
    (hroom : frameSize ≤ s.esp) (htop : s.esp ≤ top) (hle : esp ≤ a)
    (ha : a = s.esp - 64 + 4 * i) (hi : i < 16) :
    w.mem a = (frame retAddr k s).getD i 0 := by
  simp only [frameSize] at hroom
  rw [h.mem_eq a hle (by omega), ha, entered_mem hroom i hi]

/-- The registers that `popa` and `iret` load. -/
structure Restored (s w : Cpu) : Prop where
  eax : w.eax = s.eax
  ecx : w.ecx = s.ecx
  edx : w.edx = s.edx
  ebx : w.ebx = s.ebx
  ebp : w.ebp = s.ebp
  esi : w.esi = s.esi
  edi : w.edi = s.edi

theorem Restored.resumes {w w' : Cpu} (h : Restored s w) (h' : Resumes top w w') : Restored s w' :=
  ⟨h'.eax.trans h.eax, h'.ecx.trans h.ecx, h'.edx.trans h.edx, h'.ebx.trans h.ebx,
    h'.ebp.trans h.ebp, h'.esi.trans h.esi, h'.edi.trans h.edi⟩

/-- The data segment registers hold what `ds` held. -/
structure Segments (s w : Cpu) : Prop where
  ds : w.ds = s.ds
  es : w.es = s.ds
  fs : w.fs = s.ds
  gs : w.gs = s.ds

theorem Segments.resumes {w w' : Cpu} (h : Segments s w) (h' : Resumes top w w') :
    Segments s w' := by
  have hds := h'.ds.trans h.ds
  rcases h'.segs with ⟨hes, hfs, hgs⟩ | ⟨hes, hfs, hgs⟩
  · exact ⟨hds, hes.trans h.es, hfs.trans h.fs, hgs.trans h.gs⟩
  · exact ⟨hds, hes.trans h.ds, hfs.trans h.ds, hgs.trans h.ds⟩

theorem Resumes.es_eq {w w' : Cpu} {x : Selector} (h : Resumes top w w') (hes : w.es = x)
    (hds : w.ds = x) : w'.es = x := by
  rcases h.segs with ⟨h, -, -⟩ | ⟨h, -, -⟩
  · exact h.trans hes
  · exact h.trans hds

theorem Resumes.fs_eq {w w' : Cpu} {x : Selector} (h : Resumes top w w') (hfs : w.fs = x)
    (hds : w.ds = x) : w'.fs = x := by
  rcases h.segs with ⟨-, h, -⟩ | ⟨-, h, -⟩
  · exact h.trans hfs
  · exact h.trans hds

theorem Live.load {m : ℕ → ℕ} {esp : ℕ} {w : Cpu} (h : Live top m esp w) (seg : Seg) :
    Live top m esp ((Instr.movSegBx seg).exec w) := by
  cases seg <;> exact ⟨h.esp_eq, h.mem_eq⟩

/-- The first half of the way back: `ds` and the other segment registers are loaded from the
frame. -/
theorem segments_of_chain {u w : Cpu} {is : List Instr} (hroom : frameSize ≤ s.esp)
    (htop : s.esp ≤ top)
    (hlive : Live top (entered g retAddr k s).mem (s.esp - 60) u)
    (h : Chain top (.popEsp :: .popEbx :: .movSegBx .ds :: .movSegBx .es :: .movSegBx .fs ::
      .movSegBx .gs :: is) u w) :
    ∃ u', Live top (entered g retAddr k s).mem (s.esp - 52) u' ∧ Segments s u' ∧
      Chain top is u' w := by
  have hsize : 64 ≤ s.esp := hroom
  obtain ⟨w₀, r₀, w₁, r₁, w₂, r₂, w₃, r₃, w₄, r₄, w₅, r₅, hrest⟩ := h
  have l₀ := hlive.resumes r₀
  have hesp : w₀.mem w₀.esp = s.esp - 56 := by
    rw [l₀.esp_eq]
    exact l₀.word hroom htop (Nat.le_refl _) (i := 1) (by omega) (by norm_num)
  have l₁ : Live top (entered g retAddr k s).mem (s.esp - 56) (Instr.popEsp.exec w₀) :=
    l₀.up (by omega) hesp rfl
  have l₁ := l₁.resumes r₁
  have hebx : w₁.mem w₁.esp = lowHalf s.eax s.ds := by
    rw [l₁.esp_eq]
    exact l₁.word hroom htop (Nat.le_refl _) (i := 2) (by omega) (by norm_num)
  have l₂ : Live top (entered g retAddr k s).mem (s.esp - 52) (Instr.popEbx.exec w₁) :=
    l₁.up (by omega) (by simp only [Instr.exec, l₁.esp_eq]; omega) rfl
  have l₅ : Live top (entered g retAddr k s).mem (s.esp - 52) w₅ :=
    (((((l₂.resumes r₂).load .ds).resumes r₃).load .es |>.resumes r₄).load .fs).resumes r₅
  -- an interrupt in between loads the segment registers with `ds`, which is right by then
  have e₂ : toSelector w₂.ebx = s.ds := by rw [r₂.ebx, ← toSelector_lowHalf s.eax s.ds, ← hebx]; rfl
  have e₃ : toSelector w₃.ebx = s.ds := by rw [r₃.ebx]; exact e₂
  have e₄ : toSelector w₄.ebx = s.ds := by rw [r₄.ebx]; exact e₃
  have e₅ : toSelector w₅.ebx = s.ds := by rw [r₅.ebx]; exact e₄
  have d₃ : w₃.ds = s.ds := r₃.ds.trans e₂
  have d₄ : w₄.ds = s.ds := r₄.ds.trans d₃
  have d₅ : w₅.ds = s.ds := r₅.ds.trans d₄
  have s₄ : w₄.es = s.ds := r₄.es_eq e₃ d₃
  have s₅ : w₅.es = s.ds := r₅.es_eq s₄ d₄
  exact ⟨(Instr.movSegBx .gs).exec w₅, l₅.load .gs, ⟨d₅, s₅, r₅.fs_eq e₄ d₄, e₅⟩, hrest⟩

/-- The second half: the other registers are loaded from the frame. -/
theorem restored_of_chain {u v : Cpu} (hroom : frameSize ≤ s.esp) (htop : s.esp ≤ top)
    (hlive : Live top (entered g retAddr k s).mem (s.esp - 52) u) (hsegs : Segments s u)
    (h : Chain top [.popa, .addEsp 8, .sti, .iret] u v) :
    Resumes top s v ∧ Segments s v := by
  have hsize : 64 ≤ s.esp := hroom
  obtain ⟨w₀, r₀, w₁, r₁, w₂, r₂, w₃, r₃, r₄⟩ := h
  have l₀ := hlive.resumes r₀
  have hword : ∀ i a, a = s.esp - 64 + 4 * i → 3 ≤ i → i < 16 →
      w₀.mem a = (frame retAddr k s).getD i 0 := fun i a ha hle hi =>
    l₀.word hroom htop (by omega) ha hi
  have p₁ : Restored s (Instr.popa.exec w₀) := by
    constructor <;> simp only [Instr.exec, l₀.esp_eq]
    · exact hword 10 _ (by omega) (by norm_num) (by norm_num)
    · exact hword 9 _ (by omega) (by norm_num) (by norm_num)
    · exact hword 8 _ (by omega) (by norm_num) (by norm_num)
    · exact hword 7 _ (by omega) (by norm_num) (by norm_num)
    · exact hword 5 _ (by omega) (by norm_num) (by norm_num)
    · exact hword 4 _ (by omega) (by norm_num) (by norm_num)
    · exact hword 3 _ (by omega) (by norm_num) (by norm_num)
  have l₁ : Live top (entered g retAddr k s).mem (s.esp - 20) (Instr.popa.exec w₀) :=
    l₀.up (by omega) (by simp only [Instr.exec, l₀.esp_eq]; omega) rfl
  have l₁ := l₁.resumes r₁
  have l₂ : Live top (entered g retAddr k s).mem (s.esp - 12) ((Instr.addEsp 8).exec w₁) :=
    l₁.up (by omega) (by simp only [Instr.exec, l₁.esp_eq]; omega) rfl
  have l₃ : Live top (entered g retAddr k s).mem (s.esp - 12) (Instr.sti.exec w₂) :=
    (l₂.resumes r₂).up (Nat.le_refl _) (l₂.resumes r₂).esp_eq rfl
  have l₃ := l₃.resumes r₃
  have p₁ : Restored s w₁ := p₁.resumes r₁
  have p₂ : Restored s ((Instr.addEsp 8).exec w₁) :=
    ⟨p₁.eax, p₁.ecx, p₁.edx, p₁.ebx, p₁.ebp, p₁.esi, p₁.edi⟩
  have p₂ : Restored s w₂ := p₂.resumes r₂
  have p₃ : Restored s (Instr.sti.exec w₂) :=
    ⟨p₂.eax, p₂.ecx, p₂.edx, p₂.ebx, p₂.ebp, p₂.esi, p₂.edi⟩
  have p₃ : Restored s w₃ := p₃.resumes r₃
  have g₀ := hsegs.resumes r₀
  have g₁ : Segments s (Instr.popa.exec w₀) := ⟨g₀.ds, g₀.es, g₀.fs, g₀.gs⟩
  have g₁ := g₁.resumes r₁
  have g₂ : Segments s ((Instr.addEsp 8).exec w₁) := ⟨g₁.ds, g₁.es, g₁.fs, g₁.gs⟩
  have g₂ := g₂.resumes r₂
  have g₃ : Segments s (Instr.sti.exec w₂) := ⟨g₂.ds, g₂.es, g₂.fs, g₂.gs⟩
  have g₃ := g₃.resumes r₃
  have g₄ : Segments s (Instr.iret.exec w₃) := ⟨g₃.ds, g₃.es, g₃.fs, g₃.gs⟩
  have hframe : ∀ i a, a = s.esp - 64 + 4 * i → 13 ≤ i → i < 16 →
      w₃.mem a = (frame retAddr k s).getD i 0 := fun i a ha hle hi =>
    l₃.word hroom htop (by omega) ha hi
  have hcs : w₃.mem (w₃.esp + 4) = s.cs := by
    rw [l₃.esp_eq]
    exact hframe 14 _ (by omega) (by norm_num) (by norm_num)
  have heip : w₃.mem w₃.esp = s.eip := by
    rw [l₃.esp_eq]
    exact hframe 13 _ (by omega) (by norm_num) (by norm_num)
  have heflags : w₃.mem (w₃.esp + 8) = s.eflags := by
    rw [l₃.esp_eq]
    exact hframe 15 _ (by omega) (by norm_num) (by norm_num)
  have hesp : w₃.esp + 12 = s.esp := by
    rw [l₃.esp_eq]
    omega
  have hiret : Resumes top s (Instr.iret.exec w₃) :=
    { p₃, g₄ with
      esp := hesp
      eip := heip
      eflags := heflags
      cs := (congrArg toSelector hcs).trans (toSelector_val s.cs)
      segs := Or.inr ⟨g₄.es, g₄.fs, g₄.gs⟩
      stack := fun a ha hlt => (l₃.mem_eq a (by omega) hlt).trans (entered_mem_of_le hroom ha) }
  exact ⟨hiret.trans r₄, g₄.resumes r₄⟩

/-- The way back from the handler, with interrupts between its instructions. -/
theorem resumes_of_chain {u v : Cpu} (hroom : frameSize ≤ s.esp) (htop : s.esp ≤ top)
    (hstack : KeepsStack top (s.esp - 60) (entered g retAddr k s) u) (hesp : u.esp = s.esp - 64)
    (h : Chain top irqLeave (ret u) v) : Resumes top s v ∧ Segments s v := by
  have hlive : Live top (entered g retAddr k s).mem (s.esp - 60) (ret u) := by
    refine ⟨?_, hstack⟩
    simp only [frameSize] at hroom
    simp only [ret, hesp]
    omega
  obtain ⟨u', hlive', hsegs, hrest⟩ := segments_of_chain hroom htop hlive h
  exact restored_of_chain hroom htop hlive' hsegs hrest

/-! ### Interrupts at any point -/

/-- What is shown of a run by induction: C code keeps the stack of its callers, and a stub is a chain
of instructions. -/
def Task.Holds (top : ℕ) (s t : Cpu) : Task → Prop
  | code base => s.esp ≤ base → KeepsStack top base s t
  | stub is => Chain top is s t

theorem Runs.holds {task : Task} {s t : Cpu} (h : Runs irq retAddr top task s t) :
    task.Holds top s t := by
  induction h with
  | stop base s => exact fun _ _ _ _ => rfl
  | own hkeeps hesp _ ih =>
      exact fun _ a ha hlt => (ih hesp a ha hlt).trans (hkeeps a ha hlt)
  | done s => exact Resumes.refl top s
  | instr _ ih => exact ⟨_, Resumes.refl top _, ih⟩
  | @interrupt task s u v t k hk hflag hroom htop _ hesp _ _ ihcode ihstub ihrest =>
      have hentered : (entered (interruptGate (irq k)) retAddr k s).esp = s.esp - 64 := entered_esp
      have hstack := ihcode (by omega)
      obtain ⟨hresumes, -⟩ := resumes_of_chain hroom htop hstack hesp ihstub
      cases task with
      | stub is => exact Chain.of_resumes hresumes ihrest
      | code base =>
          intro hbase a ha hlt
          have hrest : KeepsStack top base v t := ihrest (hresumes.esp.trans_le hbase)
          exact (hrest a ha hlt).trans (hresumes.stack a (hbase.trans ha) hlt)

/-- An interrupt, at any point of any code of the kernel, with any interrupts that come in its handler
and in its stub: when it is over, the code that was interrupted has the same registers, flags and
instruction pointer, and the same stack. Only the other segment registers have got what `ds` holds. -/
theorem interrupt_resumes (irq : ℕ → UInt32) (retAddr top : ℕ) (g : Gate) (k : ℕ) {s u v : Cpu}
    (hroom : frameSize ≤ s.esp) (htop : s.esp ≤ top)
    (hhandler : Runs irq retAddr top (.code (s.esp - 60)) (entered g retAddr k s) u)
    (hreturn : u.esp = s.esp - 64) (hstub : Runs irq retAddr top (.stub irqLeave) (ret u) v) :
    Resumes top s v ∧ v.es = s.ds ∧ v.fs = s.ds ∧ v.gs = s.ds := by
  have hentered : (entered g retAddr k s).esp = s.esp - 64 := entered_esp
  have hstack : KeepsStack top (s.esp - 60) (entered g retAddr k s) u :=
    hhandler.holds (by omega)
  obtain ⟨hresumes, hsegs⟩ := resumes_of_chain hroom htop hstack hreturn hstub.holds
  exact ⟨hresumes, hsegs.es, hsegs.fs, hsegs.gs⟩

/-- A handler that does nothing. -/
theorem interrupt_resumes_idle :
    ∃ v, Resumes 100 sampleCpu v ∧ v.es = 0x10 ∧ v.fs = 0x10 ∧ v.gs = 0x10 :=
  ⟨_, interrupt_resumes (fun _ => 0) 9 100 (interruptGate 0) 1 (s := sampleCpu)
    (by norm_num [sampleCpu]) (by norm_num [sampleCpu]) (.stop _ _) entered_esp
    (.instr (.instr (.instr (.instr (.instr (.instr (.instr (.instr (.instr (.instr
      (.done _)))))))))))⟩

end Entry

end HalOS
