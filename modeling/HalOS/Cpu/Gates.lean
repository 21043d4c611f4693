import Mathlib.Algebra.Ring.Nat
import Mathlib.Data.List.Range
import Mathlib.Logic.Function.Basic
import Mathlib.Tactic.NormNum

/-!
# Descriptor Tables

`gdt_set_entry`, `gdt_init`, `tss_init` and `idt_set_entry`, `idt_init` of `cpu/gdt.c`, `cpu/tss.c`
and `cpu/idt.c`: the entries as the structures of the source, with their bytes in memory, and what
the processor makes of these bytes. Where the tables and the stubs stand is a parameter.

## Main results

* `gate_idtSetEntry`, `segment_gdtSetEntry`: the processor finds in an entry what it was set to.
* `gateAt_idtInit`: which vectors have a gate, and where it leads.
-/

namespace HalOS

namespace Gates

/-! ### Entries -/

/-- `IDT`. -/
structure Idt where
  baseLow : UInt16
  segmentSelector : UInt16
  zero : UInt8
  type : UInt8
  baseHigh : UInt16
deriving DecidableEq, Repr

/-- `GDT`. -/
structure Gdt where
  segmentLimit : UInt16
  baseLow : UInt16
  baseMiddle : UInt8
  access : UInt8
  granularity : UInt8
  baseHigh : UInt8
deriving DecidableEq, Repr

/-- An entry that has not been set. -/
def Idt.empty : Idt := ⟨0, 0, 0, 0, 0⟩

/-- An entry that has not been set. -/
def Gdt.empty : Gdt := ⟨0, 0, 0, 0, 0, 0⟩

/-- The entry that `idt_set_entry` stores. -/
def idtSetEntry (base : UInt32) (segSel : UInt16) (flags : UInt8) : Idt where
  baseLow := (base &&& 0xFFFF).toUInt16
  segmentSelector := segSel
  zero := 0
  type := flags
  baseHigh := ((base >>> 16) &&& 0xFFFF).toUInt16

/-- The entry that `gdt_set_entry` stores. -/
def gdtSetEntry (base limit : UInt32) (access gran : UInt8) : Gdt where
  segmentLimit := (limit &&& 0xFFFF).toUInt16
  baseLow := (base &&& 0xFFFF).toUInt16
  baseMiddle := ((base >>> 16) &&& 0xFF).toUInt8
  access := access
  granularity := ((limit >>> 16) &&& 0x0F).toUInt8 ||| (gran &&& 0xF0)
  baseHigh := ((base >>> 24) &&& 0xFF).toUInt8

/-- The two bytes of a `uint16_t` in memory. -/
def littleEndian (v : UInt16) : List UInt8 := [v.toUInt8, (v >>> 8).toUInt8]

/-- The packed structure in memory. -/
def Idt.bytes (e : Idt) : List UInt8 :=
  littleEndian e.baseLow ++ littleEndian e.segmentSelector ++ [e.zero, e.type] ++
    littleEndian e.baseHigh

/-- The packed structure in memory. -/
def Gdt.bytes (e : Gdt) : List UInt8 :=
  littleEndian e.segmentLimit ++ littleEndian e.baseLow ++
    [e.baseMiddle, e.access, e.granularity, e.baseHigh]

/-! ### The processor -/

/-- What the processor reads in an entry of the IDT. -/
structure Gate where
  offset : ℕ
  selector : ℕ
  present : Bool
  dpl : ℕ
  kind : ℕ
deriving DecidableEq, Repr

/-- What the processor reads in an entry of the GDT: `flags` are the granularity, the size of the
operands, the bit for long mode and the one that is free, and `kind` is the type of the segment with
the bit for code and data. -/
structure Segment where
  base : ℕ
  limit : ℕ
  present : Bool
  dpl : ℕ
  kind : ℕ
  flags : ℕ
deriving DecidableEq, Repr

/-- A gate by its eight bytes. -/
def gate (b : List ℕ) : Gate where
  offset := b.getD 0 0 + b.getD 1 0 * 2 ^ 8 + b.getD 6 0 * 2 ^ 16 + b.getD 7 0 * 2 ^ 24
  selector := b.getD 2 0 + b.getD 3 0 * 2 ^ 8
  present := b.getD 5 0 / 2 ^ 7 % 2 = 1
  dpl := b.getD 5 0 / 2 ^ 5 % 4
  kind := b.getD 5 0 % 2 ^ 5

/-- A segment by its eight bytes. With the granularity set, the limit counts pages. -/
def segment (b : List ℕ) : Segment where
  base := b.getD 2 0 + b.getD 3 0 * 2 ^ 8 + b.getD 4 0 * 2 ^ 16 + b.getD 7 0 * 2 ^ 24
  limit :=
    let limit := b.getD 0 0 + b.getD 1 0 * 2 ^ 8 + b.getD 6 0 % 2 ^ 4 * 2 ^ 16
    if b.getD 6 0 / 2 ^ 7 = 1 then limit * 2 ^ 12 + (2 ^ 12 - 1) else limit
  present := b.getD 5 0 / 2 ^ 7 % 2 = 1
  dpl := b.getD 5 0 / 2 ^ 5 % 4
  kind := b.getD 5 0 % 2 ^ 5
  flags := b.getD 6 0 / 2 ^ 4

/-- The bytes as numbers. -/
def values (bytes : List UInt8) : List ℕ := bytes.map UInt8.toNat

/-! ### One entry -/

@[simp] theorem values_littleEndian (v : UInt16) :
    values (littleEndian v) = [v.toNat % 2 ^ 8, v.toNat / 2 ^ 8] := by
  have hlt := v.toNat_lt
  simp [values, littleEndian, Nat.shiftRight_eq_div_pow]
  omega

@[simp] theorem values_append (bytes bytes' : List UInt8) :
    values (bytes ++ bytes') = values bytes ++ values bytes' :=
  List.map_append

theorem toNat_low (x : UInt32) : (x &&& 0xFFFF).toUInt16.toNat = x.toNat % 2 ^ 16 := by
  have hmask := Nat.and_two_pow_sub_one_eq_mod x.toNat 16
  rw [UInt32.toNat_toUInt16, UInt32.toNat_and]
  simp at hmask ⊢
  omega

theorem toNat_high (x : UInt32) :
    ((x >>> 16) &&& 0xFFFF).toUInt16.toNat = x.toNat / 2 ^ 16 := by
  have hlt := x.toNat_lt
  have hmask := Nat.and_two_pow_sub_one_eq_mod (x.toNat / 2 ^ 16) 16
  rw [UInt32.toNat_toUInt16, UInt32.toNat_and, UInt32.toNat_shiftRight,
    Nat.shiftRight_eq_div_pow]
  simp at hmask ⊢
  omega

/-- The processor finds in an entry of the IDT what it was set to. -/
theorem gate_idtSetEntry (base : UInt32) (segSel : UInt16) (flags : UInt8) :
    gate (values (idtSetEntry base segSel flags).bytes) =
      ⟨base.toNat, segSel.toNat, flags.toNat / 2 ^ 7 % 2 = 1, flags.toNat / 2 ^ 5 % 4,
        flags.toNat % 2 ^ 5⟩ := by
  have hlt := base.toNat_lt
  have hsel := segSel.toNat_lt
  have hbytes : values (idtSetEntry base segSel flags).bytes =
      [base.toNat % 2 ^ 16 % 2 ^ 8, base.toNat % 2 ^ 16 / 2 ^ 8, segSel.toNat % 2 ^ 8,
        segSel.toNat / 2 ^ 8, 0, flags.toNat, base.toNat / 2 ^ 16 % 2 ^ 8,
        base.toNat / 2 ^ 16 / 2 ^ 8] := by
    simp only [idtSetEntry, Idt.bytes, values_append, values_littleEndian]
    rw [toNat_low base, toNat_high base]
    rfl
  rw [hbytes, gate]
  simp only [List.getD_cons_zero, List.getD_cons_succ, Gate.mk.injEq, and_true]
  exact ⟨by omega, by omega⟩

theorem toNat_shift_byte (x : UInt32) {k : UInt32} {n : ℕ} (hk : k.toNat = n) (hn : n < 32) :
    ((x >>> k) &&& 0xFF).toUInt8.toNat = x.toNat / 2 ^ n % 2 ^ 8 := by
  have hmask := Nat.and_two_pow_sub_one_eq_mod (x.toNat / 2 ^ n) 8
  rw [UInt32.toNat_toUInt8, UInt32.toNat_and, UInt32.toNat_shiftRight, hk, Nat.mod_eq_of_lt hn,
    Nat.shiftRight_eq_div_pow]
  simp at hmask ⊢
  omega

/-- The byte with the high bits of the limit, and the flags above them. -/
theorem toNat_granularity (limit : UInt32) (gran : UInt8) :
    (((limit >>> 16) &&& 0x0F).toUInt8 ||| (gran &&& 0xF0)).toNat =
      limit.toNat / 2 ^ 16 % 2 ^ 4 + gran.toNat / 2 ^ 4 * 2 ^ 4 := by
  have hhigh : ∀ n < 256, n &&& 240 = n / 2 ^ 4 * 2 ^ 4 := by decide +kernel
  have hgran : (gran &&& 0xF0).toNat = gran.toNat / 2 ^ 4 * 2 ^ 4 := by
    rw [UInt8.toNat_and]
    exact hhigh _ gran.toNat_lt
  have hlow : ((limit >>> 16) &&& 0x0F).toUInt8.toNat = limit.toNat / 2 ^ 16 % 2 ^ 4 := by
    have hmask := Nat.and_two_pow_sub_one_eq_mod (limit.toNat / 2 ^ 16) 4
    rw [UInt32.toNat_toUInt8, UInt32.toNat_and, UInt32.toNat_shiftRight,
      Nat.shiftRight_eq_div_pow]
    simp at hmask ⊢
    omega
  have hlt : limit.toNat / 2 ^ 16 % 2 ^ 4 < 2 ^ 4 := Nat.mod_lt _ (by norm_num)
  rw [UInt8.toNat_or, hgran, hlow, Nat.or_comm, Nat.mul_comm, ← Nat.two_pow_add_eq_or_of_lt hlt,
    Nat.add_comm]

/-- The processor finds in an entry of the GDT what it was set to, of the limit its 20 low bits. -/
theorem segment_gdtSetEntry (base limit : UInt32) (access gran : UInt8) :
    segment (values (gdtSetEntry base limit access gran).bytes) =
      ⟨base.toNat,
        if gran.toNat / 2 ^ 7 = 1 then limit.toNat % 2 ^ 20 * 2 ^ 12 + (2 ^ 12 - 1)
          else limit.toNat % 2 ^ 20,
        access.toNat / 2 ^ 7 % 2 = 1, access.toNat / 2 ^ 5 % 4, access.toNat % 2 ^ 5,
        gran.toNat / 2 ^ 4⟩ := by
  have hlt := base.toNat_lt
  have hbytes : values (gdtSetEntry base limit access gran).bytes =
      [limit.toNat % 2 ^ 16 % 2 ^ 8, limit.toNat % 2 ^ 16 / 2 ^ 8, base.toNat % 2 ^ 16 % 2 ^ 8,
        base.toNat % 2 ^ 16 / 2 ^ 8, base.toNat / 2 ^ 16 % 2 ^ 8, access.toNat,
        limit.toNat / 2 ^ 16 % 2 ^ 4 + gran.toNat / 2 ^ 4 * 2 ^ 4,
        base.toNat / 2 ^ 24 % 2 ^ 8] := by
    simp only [gdtSetEntry, Gdt.bytes, values_append, values_littleEndian, toNat_low]
    simp only [values, List.map_cons, List.map_nil, toNat_granularity,
      toNat_shift_byte base (show (16 : UInt32).toNat = 16 from rfl) (by norm_num),
      toNat_shift_byte base (show (24 : UInt32).toNat = 24 from rfl) (by norm_num)]
    rfl
  have hflag : (limit.toNat / 2 ^ 16 % 2 ^ 4 + gran.toNat / 2 ^ 4 * 2 ^ 4) / 2 ^ 7 =
      gran.toNat / 2 ^ 7 := by omega
  rw [hbytes, segment]
  simp only [List.getD_cons_zero, List.getD_cons_succ, Segment.mk.injEq, true_and, hflag]
  refine ⟨by omega, ?_, by omega⟩
  split_ifs <;> omega

/-! ### The tables -/

/-- Entries stored in a table one after another. -/
def storeEntries {α : Type} (entries : List (ℕ × α)) (table : ℕ → α) : ℕ → α :=
  entries.foldl (fun table e => Function.update table e.1 e.2) table

theorem storeEntries_append {α : Type} (entries entries' : List (ℕ × α)) (table : ℕ → α) :
    storeEntries (entries ++ entries') table = storeEntries entries' (storeEntries entries table) :=
  List.foldl_append

/-- Entries with consecutive numbers. -/
theorem storeEntries_range {α : Type} (a n : ℕ) (f : ℕ → α) (table : ℕ → α) (v : ℕ) :
    storeEntries ((List.range n).map fun i => (a + i, f i)) table v =
      if a ≤ v ∧ v < a + n then f (v - a) else table v := by
  induction n with
  | zero => rw [if_neg (by omega)]; rfl
  | succ n ih =>
      rw [List.range_succ, List.map_append, storeEntries_append]
      simp only [List.map_cons, List.map_nil]
      rw [storeEntries, List.foldl_cons, List.foldl_nil]
      by_cases hv : v = a + n
      · rw [hv, Function.update_self, if_pos (by omega), Nat.add_sub_cancel_left]
      · rw [Function.update_of_ne hv, ih]
        exact if_congr (by omega) rfl rfl

section Idt

variable (exception irq : ℕ → UInt32)

/-- What `idt_init` stores, with the addresses of `exception_0` to `exception_31`, of `irq_0` to
`irq_15` and of `exception_128`. -/
def idtInit : ℕ → Idt :=
  storeEntries
    (((List.range 32).map fun i => (0 + i, idtSetEntry (exception i) 0x08 0x8E)) ++
      ((List.range 16).map fun i => (32 + i, idtSetEntry (irq i) 0x08 0x8E)) ++
        [(128, idtSetEntry (exception 128) 0x08 0x8E)])
    fun _ => Idt.empty

/-- `sizeof(g_idt) - 1`. -/
def idtLimit : ℕ := 256 * 8 - 1

/-- The gate of a vector, if it is within the limit of the table. -/
def gateAt (table : ℕ → Idt) (v : ℕ) : Option Gate :=
  if v * 8 + 7 ≤ idtLimit then some (gate (values (table v).bytes)) else none

/-- A gate of the kernel for interrupts: of 32 bits, and for code that runs with its privilege. -/
def interruptGate (offset : UInt32) : Gate := ⟨offset.toNat, 0x08, true, 0, 0xE⟩

theorem gate_kernel (offset : UInt32) :
    gate (values (idtSetEntry offset 0x08 0x8E).bytes) = interruptGate offset := by
  rw [gate_idtSetEntry]
  rfl

/-- Which vectors have a gate, and where it leads. -/
theorem gateAt_idtInit (v : ℕ) :
    gateAt (idtInit exception irq) v =
      if v < 32 ∨ v = 128 then some (interruptGate (exception v))
      else if v < 48 then some (interruptGate (irq (v - 32)))
      else if v < 256 then some ⟨0, 0, false, 0, 0⟩
      else none := by
  have hentry : idtInit exception irq v =
      if v = 128 then idtSetEntry (exception 128) 0x08 0x8E
      else if 32 ≤ v ∧ v < 32 + 16 then idtSetEntry (irq (v - 32)) 0x08 0x8E
      else if 0 ≤ v ∧ v < 0 + 32 then idtSetEntry (exception (v - 0)) 0x08 0x8E
      else Idt.empty := by
    rw [idtInit, storeEntries_append, storeEntries_append]
    by_cases hv : v = 128
    · rw [if_pos hv, storeEntries, List.foldl_cons, List.foldl_nil, hv, Function.update_self]
    · rw [if_neg hv, storeEntries, List.foldl_cons, List.foldl_nil, Function.update_of_ne hv,
        storeEntries_range, storeEntries_range]
  have hlimit : idtLimit = 2047 := rfl
  rw [gateAt, hentry]
  by_cases hv : v = 128
  · subst hv
    simp [hlimit, gate_kernel]
  by_cases hirq : 32 ≤ v ∧ v < 48
  · rw [if_neg hv, if_pos hirq, if_pos (by omega), if_neg (by omega), if_pos hirq.2, gate_kernel]
  rw [if_neg hv, if_neg hirq]
  by_cases hexc : v < 32
  · rw [if_pos (show v * 8 + 7 ≤ idtLimit by omega), if_pos (show 0 ≤ v ∧ v < 0 + 32 by omega),
      if_pos (Or.inl hexc), gate_kernel]
    rfl
  · rw [if_neg (show ¬(0 ≤ v ∧ v < 0 + 32) by omega), if_neg (show ¬(v < 32 ∨ v = 128) by omega),
      if_neg (show ¬ v < 48 by omega)]
    exact if_congr (by omega) rfl rfl

end Idt

/-- What `gdt_init` stores, and `tss_init`, with the address of `tss`. -/
def gdtInit (tss : UInt32) : ℕ → Gdt :=
  storeEntries
    [(0, gdtSetEntry 0 0 0 0), (1, gdtSetEntry 0 0xFFFFFFFF 0x9A 0xCF),
      (2, gdtSetEntry 0 0xFFFFFFFF 0x92 0xCF), (3, gdtSetEntry 0 0xFFFFFFFF 0xFA 0xCF),
      (4, gdtSetEntry 0 0xFFFFFFFF 0xF2 0xCF), (5, gdtSetEntry tss (104 - 1) 0x89 0x00)]
    fun _ => Gdt.empty

/-- The segment of a selector. -/
def segmentAt (table : ℕ → Gdt) (selector : ℕ) : Segment :=
  segment (values (table (selector / 8)).bytes)

/-- The code and data of the kernel and of its users are the whole memory, and the task state is
where it is. -/
theorem segmentAt_gdtInit (tss : UInt32) :
    segmentAt (gdtInit tss) 0x08 = ⟨0, 2 ^ 32 - 1, true, 0, 0x1A, 0xC⟩ ∧
      segmentAt (gdtInit tss) 0x10 = ⟨0, 2 ^ 32 - 1, true, 0, 0x12, 0xC⟩ ∧
      segmentAt (gdtInit tss) 0x1B = ⟨0, 2 ^ 32 - 1, true, 3, 0x1A, 0xC⟩ ∧
      segmentAt (gdtInit tss) 0x23 = ⟨0, 2 ^ 32 - 1, true, 3, 0x12, 0xC⟩ ∧
      segmentAt (gdtInit tss) 0x28 = ⟨tss.toNat, 103, true, 0, 0x9, 0⟩ := by
  have hentry : ∀ n, n < 6 → gdtInit tss n = ([gdtSetEntry 0 0 0 0,
      gdtSetEntry 0 0xFFFFFFFF 0x9A 0xCF, gdtSetEntry 0 0xFFFFFFFF 0x92 0xCF,
      gdtSetEntry 0 0xFFFFFFFF 0xFA 0xCF, gdtSetEntry 0 0xFFFFFFFF 0xF2 0xCF,
      gdtSetEntry tss (104 - 1) 0x89 0x00].getD n Gdt.empty) := by
    intro n hn
    match n, hn with
    | 0, _ => rfl
    | 1, _ => rfl
    | 2, _ => rfl
    | 3, _ => rfl
    | 4, _ => rfl
    | 5, _ => rfl
  simp only [segmentAt]
  refine ⟨?_, ?_, ?_, ?_, ?_⟩ <;> rw [hentry _ (by norm_num)] <;>
    simp only [List.getD_cons_succ, List.getD_cons_zero] <;> exact segment_gdtSetEntry _ _ _ _

end Gates

end HalOS
