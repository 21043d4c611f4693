import HalOS.Drivers.IdeTaskFile

/-!
# The Ports of the IDE Driver

What the functions of the driver add to the operations on the ports, and what they leave alone: the
table of the drives and the ports of the channels. Each function is gone through once, for any
property of operations that those of its registers have.

The device control register of a channel is at its port `control`, but the driver counts its
registers from two ports above.

## Main results

* `Ide.Adds.ideSectors`: a call of `ide_read_sectors` or `ide_write_sectors` adds operations of a
  property that those on its channel have.
* `runSectors_com1`: the bytes for the control register of the primary channel go to `COM1`.
-/

namespace HalOS

/-- The port of an operation. -/
def PortOp.port : PortOp → UInt16
  | outb port _ => port
  | inb port => port
  | insw port _ => port
  | outsw port _ => port

/-! ### The tables -/

/-- The drives and the ports of the channels are the same. -/
structure Ide.SameTable (s s' : Ide) : Prop where
  devices : s'.devices = s.devices
  base : ∀ i, (s'.channels i).base = (s.channels i).base
  control : ∀ i, (s'.channels i).control = (s.channels i).control

namespace Ide.SameTable

variable {s s' s'' : Ide}

theorem refl (s : Ide) : s.SameTable s := ⟨rfl, fun _ => rfl, fun _ => rfl⟩

theorem trans (h : s.SameTable s') (h' : s'.SameTable s'') : s.SameTable s'' :=
  ⟨h'.devices.trans h.devices, fun i => (h'.base i).trans (h.base i),
    fun i => (h'.control i).trans (h.control i)⟩

theorem emit (s : Ide) (op : PortOp) : s.SameTable (s.emit op) :=
  ⟨rfl, fun _ => rfl, fun _ => rfl⟩

/-- The registers are at the same ports. -/
theorem registerPort_eq (h : s.SameTable s') (i : ℕ) {reg : UInt8} (hreg : reg ≤ 0x0C) :
    registerPort (s'.channels i) reg = registerPort (s.channels i) reg := by
  have hlt : reg < 0x0E := UInt8.lt_of_le_of_lt hreg (by decide)
  rw [registerPort, registerPort, h.base, h.control, if_pos hlt, if_pos hlt]

end Ide.SameTable

/-! ### Properties of operations -/

/-- Reads of the registers of a channel have the property. -/
def AllowsReads (P : PortOp → Prop) (ch : IdeChannel) : Prop :=
  ∀ reg ≤ (0x0C : UInt8), ∀ port, registerPort ch reg = some port → P (.inb port)

/-- All operations on a channel have the property. -/
structure Allows (P : PortOp → Prop) (ch : IdeChannel) : Prop where
  reads : AllowsReads P ch
  writes : ∀ reg ≤ (0x0C : UInt8), ∀ data port, registerPort ch reg = some port →
    P (.outb port data)
  insw : ∀ buffer, P (.insw ch.base buffer)
  outsw : ∀ buffer, P (.outsw ch.base buffer)

/-- Operations with the property are added, and the tables stay. -/
structure Ide.Adds (P : PortOp → Prop) (s s' : Ide) : Prop where
  table : s.SameTable s'
  ports : ∃ ops, s'.ports = s.ports ++ ops ∧ ∀ op ∈ ops, P op

theorem Allows.imp {P Q : PortOp → Prop} {ch : IdeChannel} (hP : Allows P ch)
    (h : ∀ op, P op → Q op) : Allows Q ch where
  reads reg hreg port hport := h _ (hP.reads reg hreg port hport)
  writes reg hreg data port hport := h _ (hP.writes reg hreg data port hport)
  insw buffer := h _ (hP.insw buffer)
  outsw buffer := h _ (hP.outsw buffer)

theorem allows_true (ch : IdeChannel) : Allows (fun _ => True) ch :=
  ⟨fun _ _ _ _ => trivial, fun _ _ _ _ _ => trivial, fun _ => trivial, fun _ => trivial⟩

section Congr

variable {P : PortOp → Prop} {s s' : Ide} {i : ℕ}

theorem AllowsReads.congr (hP : AllowsReads P (s.channels i)) (h : s.SameTable s') :
    AllowsReads P (s'.channels i) := fun reg hreg port hport =>
  hP reg hreg port ((h.registerPort_eq i hreg).symm.trans hport)

theorem Allows.congr (hP : Allows P (s.channels i)) (h : s.SameTable s') :
    Allows P (s'.channels i) where
  reads := hP.reads.congr h
  writes reg hreg data port hport :=
    hP.writes reg hreg data port ((h.registerPort_eq i hreg).symm.trans hport)
  insw buffer := by
    rw [h.base]
    exact hP.insw buffer
  outsw buffer := by
    rw [h.base]
    exact hP.outsw buffer

end Congr

/-! ### The functions of the driver -/

/-- The driver after the command. -/
abbrev requested (host : IdeHost) (s : Ide) (call : AtaCall) : Ide :=
  ideWriteRegisters (beginAccess host s call) (s.devices call.drive.toNat).channel
    (commandWrites (s.devices call.drive.toNat).drive
      (lbaMode call.lba (s.devices call.drive.toNat).features) call.direction call.lba
      call.numSectors)

namespace Ide.Adds

variable {P : PortOp → Prop} {s s' s'' : Ide} {channel reg : UInt8}

theorem of_ports (htable : s.SameTable s') (hports : s'.ports = s.ports) : s.Adds P s' :=
  ⟨htable, [], by rw [hports, List.append_nil], List.forall_mem_nil _⟩

theorem refl (s : Ide) : s.Adds P s := of_ports (.refl s) rfl

theorem trans (h : s.Adds P s') (h' : s'.Adds P s'') : s.Adds P s'' := by
  obtain ⟨htable, ops, hports, hops⟩ := h
  obtain ⟨htable', ops', hports', hops'⟩ := h'
  refine ⟨htable.trans htable', ops ++ ops', ?_, List.forall_mem_append.mpr ⟨hops, hops'⟩⟩
  rw [hports', hports, List.append_assoc]

theorem emit (s : Ide) {op : PortOp} (hop : P op) : s.Adds P (s.emit op) :=
  ⟨.emit s op, [op], rfl, List.forall_mem_singleton.mpr hop⟩

theorem look (s : Ide) (i : ℕ) : s.Adds P (s.look i) :=
  of_ports ⟨rfl, fun _ => rfl, fun _ => rfl⟩ rfl

theorem beginCall (s : Ide) (call : AtaCall) : s.Adds P (s.beginCall call) :=
  of_ports ⟨rfl, fun _ => rfl, fun _ => rfl⟩ rfl

theorem setNoIntr (s : Ide) (i : ℕ) (noIntr : UInt16) : s.Adds P (s.setNoIntr i noIntr) := by
  refine of_ports ⟨rfl, fun j => ?_, fun j => ?_⟩ rfl
  all_goals
    rcases eq_or_ne j i with rfl | hne
    · simp [Ide.setNoIntr]
    · simp [Ide.setNoIntr, Function.update_of_ne hne]

section Reads

variable (host : IdeHost)

theorem readRegister (hP : AllowsReads P (s.channels channel.toNat)) (hle : reg ≤ 0x0C)
    (hreg : ¬ (0x07 < reg ∧ reg < 0x0C)) :
    s.Adds P (ideReadRegister host s channel reg).2 := by
  rw [ideReadRegister]
  dsimp only
  rw [if_neg hreg, Ide.get]
  cases hport : registerPort (s.channels channel.toNat) reg with
  | none => exact refl s
  | some port => exact emit s (hP reg hle port hport)

theorem readTimes (hP : AllowsReads P (s.channels channel.toNat)) (hle : reg ≤ 0x0C)
    (hreg : ¬ (0x07 < reg ∧ reg < 0x0C)) (n : ℕ) :
    s.Adds P (HalOS.readTimes host channel reg n s) := by
  induction n generalizing s with
  | zero => exact refl s
  | succ n ih =>
      have hread := readRegister host hP hle hreg
      exact hread.trans (ih (hP.congr hread.table))

theorem waitWhileBusy (hP : AllowsReads P (s.channels channel.toNat)) :
    s.Adds P (HalOS.waitWhileBusy host s channel) := readTimes host hP (by decide) (by decide) _

/-- The waiting of `ide_polling`. -/
theorem waiting (hP : AllowsReads P (s.channels channel.toNat)) : s.Adds P
    (HalOS.waitWhileBusy host (HalOS.readTimes host channel ataRegAltstatus 4 s) channel) := by
  have hread := readTimes host hP (by decide : ataRegAltstatus ≤ 0x0C) (by decide) 4
  exact hread.trans (waitWhileBusy host (hP.congr hread.table))

theorem polling (hP : AllowsReads P (s.channels channel.toNat)) (advancedCheck : Bool) :
    s.Adds P (idePolling host s channel advancedCheck).2 := by
  have hwaiting := waiting host hP
  have hstatus := hwaiting.trans (readRegister host (hP.congr hwaiting.table)
    (by decide : ataRegStatus ≤ 0x0C) (by decide))
  rw [idePolling]
  dsimp only
  split_ifs
  · exact hstatus
  · exact hstatus
  · exact hstatus
  · exact hstatus
  · exact hwaiting

theorem printError {drive : UInt8}
    (hP : AllowsReads P (s.channels (s.devices drive.toNat).channel.toNat)) (err : UInt8) :
    s.Adds P (idePrintError host s drive err).2 := by
  have herror : (s.look drive.toNat).Adds P (ideReadRegister host (s.look drive.toNat)
      (s.devices drive.toNat).channel ataRegError).2 :=
    readRegister host (hP.congr (look s _ : s.Adds P _).table) (by decide) (by decide)
  rw [idePrintError]
  dsimp only
  split_ifs
  · exact refl s
  · exact look s _
  · exact ((look s _).trans herror).trans (look _ _)
  · exact look s _
  · exact look s _
  · exact look s _

end Reads

section Writes

theorem put {data : UInt8}
    (hP : ∀ port, registerPort (s.channels channel.toNat) reg = some port → P (.outb port data)) :
    s.Adds P (s.put channel reg data) := by
  rw [Ide.put]
  cases hport : registerPort (s.channels channel.toNat) reg with
  | none => exact refl s
  | some port => exact emit s (hP port hport)

theorem writeRegister (hP : Allows P (s.channels channel.toNat)) (hle : reg ≤ 0x0C)
    (data : UInt8) : s.Adds P (ideWriteRegister s channel reg data) := by
  rw [ideWriteRegister]
  dsimp only
  split_ifs
  · have hfirst : s.Adds P (s.put channel ataRegControl
      (0x80 ||| (s.channels channel.toNat).noIntr).toUInt8) :=
        put (hP.writes _ (by decide) _)
    have hsecond := hfirst.trans (put ((hP.congr hfirst.table).writes reg hle data))
    exact hsecond.trans (put ((hP.congr hsecond.table).writes _ (by decide) _))
  · exact put (hP.writes reg hle data)

theorem writeRegisters (hP : Allows P (s.channels channel.toNat))
    {writes : List (UInt8 × UInt8)} (hle : ∀ w ∈ writes, w.1 ≤ 0x0C) :
    s.Adds P (ideWriteRegisters s channel writes) := by
  induction writes generalizing s with
  | nil => exact refl s
  | cons w writes ih =>
      obtain ⟨hw, hrest⟩ := List.forall_mem_cons.mp hle
      have hwrite := writeRegister hP hw w.2
      exact hwrite.trans (ih (hP.congr hwrite.table) hrest)

theorem le_of_mem_commandWrites {slavebit numSectors : UInt8} {mode : LbaMode}
    {direction : AtaDirection} {lba : UInt32} :
    ∀ w ∈ commandWrites slavebit mode direction lba numSectors, w.1 ≤ 0x0C := by
  cases mode
  all_goals simp [commandWrites, ataRegHddevsel, ataRegSeccount0, ataRegSeccount1, ataRegLba0,
    ataRegLba1, ataRegLba2, ataRegLba3, ataRegLba4, ataRegLba5, ataRegCommand]

variable (host : IdeHost)

theorem readData (hP : AllowsReads P (s.channels channel.toNat)) {bus : UInt16}
    (hinsw : ∀ buffer, P (.insw bus buffer)) (n : ℕ) (buffer : UInt32) :
    s.Adds P (HalOS.readData host channel bus n buffer s).2 := by
  induction n generalizing s buffer with
  | zero => exact refl s
  | succ n ih =>
      have hpoll := polling host hP true
      rw [HalOS.readData]
      split_ifs
      · exact hpoll
      · have hsector := hpoll.trans (emit _ (hinsw buffer))
        exact hsector.trans (ih (hP.congr hsector.table) _)

theorem writeData (hP : AllowsReads P (s.channels channel.toNat)) {bus : UInt16}
    (houtsw : ∀ buffer, P (.outsw bus buffer)) (n : ℕ) (buffer : UInt32) :
    s.Adds P (HalOS.writeData host channel bus n buffer s) := by
  induction n generalizing s buffer with
  | zero => exact refl s
  | succ n ih =>
      have hsector := (polling host hP false).trans (emit _ (houtsw buffer))
      exact hsector.trans (ih (hP.congr hsector.table) _)

theorem beginAccess (call : AtaCall)
    (hP : Allows P (s.channels (s.devices call.drive.toNat).channel.toNat)) :
    s.Adds P (HalOS.beginAccess host s call) := by
  have hcall : s.Adds P ((s.beginCall call).setNoIntr
      (s.devices call.drive.toNat).channel.toNat 2) := (beginCall s call).trans (setNoIntr _ _ _)
  have hcontrol := hcall.trans
    (writeRegister (hP.congr hcall.table) (by decide : ataRegControl ≤ 0x0C) 0x02)
  exact hcontrol.trans (waitWhileBusy host (hP.congr hcontrol.table).reads)

theorem requested (call : AtaCall)
    (hP : Allows P (s.channels (s.devices call.drive.toNat).channel.toNat)) :
    s.Adds P (HalOS.requested host s call) := by
  have hbegin := beginAccess host call hP
  exact hbegin.trans (writeRegisters (hP.congr hbegin.table) le_of_mem_commandWrites)

theorem ideAtaAccess {drive : UInt8}
    (hP : Allows P (s.channels (s.devices drive.toNat).channel.toNat)) (direction : AtaDirection)
    (lba : UInt32) (numSectors : UInt8) (buffer : UInt32) :
    s.Adds P (HalOS.ideAtaAccess host s direction drive lba numSectors buffer).2 := by
  have hcommand := requested host ⟨direction, drive, lba, numSectors⟩ hP
  have hP' := (hP.congr hcommand.table).reads
  cases direction with
  | read => exact hcommand.trans (readData host hP' hP.insw numSectors.toNat buffer)
  | write =>
      have hdata := hcommand.trans (writeData host hP' hP.outsw numSectors.toNat buffer)
      have hflush := hdata.trans (writeRegister (hP.congr hdata.table)
        (by decide : ataRegCommand ≤ 0x0C)
        (cacheFlush (lbaMode lba (s.devices drive.toNat).features)))
      exact hflush.trans (polling host (hP.congr hflush.table).reads false)

theorem ideSectors {drive : UInt8}
    (hP : Allows P (s.channels (s.devices drive.toNat).channel.toNat)) (direction : AtaDirection)
    (stale numSectors : UInt8) (lba buffer : UInt32) :
    s.Adds P (HalOS.ideSectors direction host s stale drive numSectors lba buffer).2 := by
  have hlook : s.Adds P (s.look drive.toNat) := look s _
  have hP' : Allows P ((s.look drive.toNat).channels
    ((s.look drive.toNat).devices drive.toNat).channel.toNat) := hP
  rw [HalOS.ideSectors]
  dsimp only
  split_ifs
  · exact refl s
  · exact hlook
  · exact hlook
  · have haccess := hlook.trans (ideAtaAccess host hP' direction lba numSectors buffer)
    refine haccess.trans (printError host ?_ _)
    rw [haccess.table.devices]
    exact (hP.congr haccess.table).reads
  · exact hlook.trans (printError host hP'.reads stale)

end Writes

end Ide.Adds

theorem sameTable_requested (host : IdeHost) (s : Ide) (call : AtaCall) :
    s.SameTable (requested host s call) := (Ide.Adds.requested host call (allows_true _)).table

theorem sameTable_writeData (host : IdeHost) (s : Ide) (channel : UInt8) (bus : UInt16) (n : ℕ)
    (buffer : UInt32) : s.SameTable (writeData host channel bus n buffer s) :=
  have houtsw : ∀ buffer, (fun _ => True) (PortOp.outsw bus buffer) := fun _ => trivial
  (Ide.Adds.writeData host (allows_true _).reads houtsw n buffer).table

/-! ### Ports -/

/-- One of the eight registers of a channel, or the port two above that of its control register. -/
def AtChannel (ch : IdeChannel) (op : PortOp) : Prop :=
  (∃ k < (8 : UInt16), op.port = ch.base + k) ∨ op.port = ch.control + 2

theorem registerPort_atChannel {ch : IdeChannel} {reg : UInt8} (hle : reg ≤ 0x0C) {port : UInt16}
    (h : registerPort ch reg = some port) :
    (∃ k < (8 : UInt16), port = ch.base + k) ∨ port = ch.control + 2 := by
  have hoffset (a x y : UInt16) : a + x - y = a + (x - y) := by
    rw [UInt16.sub_eq_add_neg, UInt16.add_assoc, ← UInt16.sub_eq_add_neg]
  rw [registerPort] at h
  split_ifs at h with hlow hhigh hcontrol
  · cases h
    refine .inl ⟨reg.toUInt16, ?_, UInt16.sub_zero _⟩
    exact UInt16.lt_iff_toNat_lt.mpr (UInt8.lt_iff_toNat_lt.mp hlow)
  · cases h
    refine .inl ⟨reg.toUInt16 - 6, ?_, hoffset _ _ _⟩
    have hge : (8 : ℕ) ≤ reg.toNat := UInt8.le_iff_toNat_le.mp (UInt8.not_lt.mp hlow)
    have hlt : reg.toNat < 12 := UInt8.lt_iff_toNat_lt.mp hhigh
    have hsix : (6 : UInt16) ≤ reg.toUInt16 := UInt16.le_iff_toNat_le.mpr (by
      rw [UInt8.toNat_toUInt16]
      exact (by omega : 6 ≤ reg.toNat))
    rw [UInt16.lt_iff_toNat_lt, UInt16.toNat_sub_of_le _ _ hsix, UInt8.toNat_toUInt16]
    exact (by omega : reg.toNat - 6 < 8)
  · cases h
    have hreg : reg = 0x0C := UInt8.le_antisymm hle (UInt8.not_lt.mp hhigh)
    rw [hreg]
    exact .inr (hoffset _ _ _)
  · exact absurd (UInt8.lt_of_le_of_lt hle (by decide)) hcontrol

theorem allows_atChannel (ch : IdeChannel) : Allows (AtChannel ch) ch where
  reads reg hle port hport := registerPort_atChannel hle hport
  writes reg hle data port hport := registerPort_atChannel hle hport
  insw buffer := .inl ⟨0, by decide, (UInt16.add_zero _).symm⟩
  outsw buffer := .inl ⟨0, by decide, (UInt16.add_zero _).symm⟩

/-- Operations on a channel stay below all ports but the one. -/
theorem AtChannel.port_ne {ch : IdeChannel} {op : PortOp} {port : UInt16} (hop : AtChannel ch op)
    (hc : ch.IsAta) (hport : 0x200 ≤ port.toNat) (hcontrol : ch.control + 2 ≠ port) :
    op.port ≠ port := by
  intro heq
  have hbase : ch.base.toNat + 8 ≤ 0x200 := by
    obtain ⟨hbase, -⟩ | ⟨hbase, -⟩ := hc
    · rw [hbase]
      decide
    · rw [hbase]
      decide
  obtain ⟨k, hk, hop⟩ | hop := hop
  · have hk : k.toNat < 8 := UInt16.lt_iff_toNat_lt.mp hk
    have hsum := UInt16.toNat_add ch.base k
    rw [← hop, heq] at hsum
    omega
  · exact hcontrol (hop.symm.trans heq)

/-! ### Bytes for the control register -/

/-- The byte that an operation writes to this port. -/
def PortOp.byteTo (port : UInt16) : PortOp → Option UInt8
  | outb p data => if p = port then some data else none
  | _ => none

/-- The bytes that are written to this port. -/
def bytesTo (port : UInt16) (ops : List PortOp) : List UInt8 := ops.filterMap (PortOp.byteTo port)

theorem byteTo_of_ne {op : PortOp} {port : UInt16} (h : op.port ≠ port) :
    op.byteTo port = none := by
  cases op with
  | outb p data => exact if_neg h
  | inb p => rfl
  | insw p buffer => rfl
  | outsw p buffer => rfl

theorem bytesTo_append (port : UInt16) (ops ops' : List PortOp) :
    bytesTo port (ops ++ ops') = bytesTo port ops ++ bytesTo port ops' := List.filterMap_append

theorem bytesTo_of_none {port : UInt16} {ops : List PortOp}
    (h : ∀ op ∈ ops, op.byteTo port = none) : bytesTo port ops = [] :=
  List.filterMap_eq_nil_iff.mpr h

/-- Reads write nothing. -/
theorem allowsReads_byteTo (port : UInt16) (ch : IdeChannel) :
    AllowsReads (fun op => op.byteTo port = none) ch := fun _ _ _ _ => rfl

theorem Ide.Adds.bytesTo_eq {port : UInt16} {s s' : Ide}
    (h : s.Adds (fun op => op.byteTo port = none) s') :
    bytesTo port s'.ports = bytesTo port s.ports := by
  obtain ⟨ops, hports, hops⟩ := h.ports
  rw [hports, bytesTo_append, bytesTo_of_none hops, List.append_nil]

section Control

variable {ch : IdeChannel} (hc : ch.IsAta)

include hc

theorem bytesTo_control (data : UInt8) :
    bytesTo (ch.control + 2) (registerOps ch (ataRegControl, data)) = [data] := by
  obtain ⟨base, control, bmIde, noIntr⟩ := ch
  obtain ⟨rfl, rfl⟩ | ⟨rfl, rfl⟩ := hc
  all_goals simp [registerOps, registerPort, ataRegControl, bytesTo, PortOp.byteTo]

/-- The registers of the extended command are written with two bytes around each. -/
theorem bytesTo_commandWrites (hintr : ch.noIntr = 2) (slavebit : UInt8) (mode : LbaMode)
    (direction : AtaDirection) (lba : UInt32) (n : UInt8) :
    bytesTo (ch.control + 2)
        ((commandWrites slavebit mode direction lba n).flatMap (registerOps ch)) =
      if mode = .lba48 then [0x82, 0x02, 0x82, 0x02, 0x82, 0x02, 0x82, 0x02] else [] := by
  obtain ⟨base, control, bmIde, noIntr⟩ := ch
  have hhigh : (0x80 ||| 0x02 : UInt8) = 0x82 := rfl
  subst hintr
  obtain ⟨rfl, rfl⟩ | ⟨rfl, rfl⟩ := hc
  all_goals cases mode
  all_goals simp [bytesTo, PortOp.byteTo, commandWrites, registerOps, registerPort, ataRegHddevsel,
    ataRegSeccount0, ataRegSeccount1, ataRegLba0, ataRegLba1, ataRegLba2, ataRegLba3, ataRegLba4,
    ataRegLba5, ataRegCommand, ataRegControl, hhigh]

theorem bytesTo_command (data : UInt8) :
    bytesTo (ch.control + 2) (registerOps ch (ataRegCommand, data)) = [] := by
  obtain ⟨base, control, bmIde, noIntr⟩ := ch
  obtain ⟨rfl, rfl⟩ | ⟨rfl, rfl⟩ := hc
  all_goals simp [registerOps, registerPort, ataRegCommand, bytesTo, PortOp.byteTo]

end Control

section Access

variable {s : Ide} {drive : UInt8} (hc : (s.channels (s.devices drive.toNat).channel.toNat).IsAta)
  (host : IdeHost)

include hc

/-- What an access writes to the port two above that of the control register up to the command. -/
theorem bytesTo_requested (direction : AtaDirection) (lba : UInt32) (n : UInt8) :
    let ch := s.channels (s.devices drive.toNat).channel.toNat
    bytesTo (ch.control + 2) (requested host s ⟨direction, drive, lba, n⟩).ports =
      bytesTo (ch.control + 2) s.ports ++ 0x02 ::
        if lbaMode lba (s.devices drive.toNat).features = .lba48 then
          [0x82, 0x02, 0x82, 0x02, 0x82, 0x02, 0x82, 0x02]
        else [] := by
  dsimp only
  obtain ⟨hchannel, reads, hports, hreads⟩ := ports_beginAccess host s ⟨direction, drive, lba, n⟩
  have hata : (accessChannel s drive).IsAta := hc
  have hreads : ∀ op ∈ reads, op.byteTo
      ((s.channels (s.devices drive.toNat).channel.toNat).control + 2) = none := by
    intro op hop
    obtain ⟨port, rfl⟩ := hreads op hop
    rfl
  have hcontrol : bytesTo ((s.channels (s.devices drive.toNat).channel.toNat).control + 2)
      (registerOps (accessChannel s drive) (ataRegControl, 2)) = [2] := bytesTo_control hata 2
  have hwrites : bytesTo ((s.channels (s.devices drive.toNat).channel.toNat).control + 2)
      ((commandWrites (s.devices drive.toNat).drive
        (lbaMode lba (s.devices drive.toNat).features) direction lba n).flatMap
          (registerOps (accessChannel s drive))) =
      if lbaMode lba (s.devices drive.toNat).features = .lba48 then
        [0x82, 0x02, 0x82, 0x02, 0x82, 0x02, 0x82, 0x02]
      else [] :=
    bytesTo_commandWrites hata rfl (s.devices drive.toNat).drive
      (lbaMode lba (s.devices drive.toNat).features) direction lba n
  rw [ports_ideWriteRegisters, hchannel, hports]
  simp only [bytesTo_append, bytesTo_of_none hreads, hcontrol, hwrites, List.nil_append,
    List.append_assoc, List.singleton_append]

/-- The flush command is none of these bytes. -/
theorem bytesTo_flush {written : Ide} (htable : s.SameTable written) (data : UInt8) :
    let port := (s.channels (s.devices drive.toNat).channel.toNat).control + 2
    bytesTo port
        (ideWriteRegister written (s.devices drive.toNat).channel ataRegCommand data).ports =
      bytesTo port written.ports := by
  dsimp only
  have hata : (written.channels (s.devices drive.toNat).channel.toNat).IsAta := by
    rw [IdeChannel.IsAta, htable.base, htable.control]
    exact hc
  have hflush := bytesTo_command hata data
  rw [htable.control] at hflush
  rw [ports_ideWriteRegister _ _ (ataRegCommand, data), bytesTo_append, hflush, List.append_nil]

/-- The rest of an access writes nothing there. -/
theorem bytesTo_ideAtaAccess (direction : AtaDirection) (lba : UInt32) (n : UInt8)
    (buffer : UInt32) :
    let ch := s.channels (s.devices drive.toNat).channel.toNat
    bytesTo (ch.control + 2) (ideAtaAccess host s direction drive lba n buffer).2.ports =
      bytesTo (ch.control + 2) s.ports ++ 0x02 ::
        if lbaMode lba (s.devices drive.toNat).features = .lba48 then
          [0x82, 0x02, 0x82, 0x02, 0x82, 0x02, 0x82, 0x02]
        else [] := by
  have hstart := bytesTo_requested hc host direction lba n
  dsimp only at hstart ⊢
  rw [← hstart]
  cases direction with
  | read =>
      exact (Ide.Adds.readData host (allowsReads_byteTo _ _) (fun _ => rfl) _ _).bytesTo_eq
  | write =>
      have htable := (sameTable_requested host s ⟨.write, drive, lba, n⟩).trans
        (sameTable_writeData host _ (s.devices drive.toNat).channel
          (s.channels (s.devices drive.toNat).channel.toNat).base n.toNat buffer)
      exact calc
        _ = _ := (Ide.Adds.polling host (allowsReads_byteTo _ _) false).bytesTo_eq
        _ = _ := bytesTo_flush hc htable _
        _ = _ := (Ide.Adds.writeData host (allowsReads_byteTo _ _) (fun _ => rfl) n.toNat
                  buffer).bytesTo_eq

end Access

/-! ### Calls one after the other -/

/-- `COM1`. -/
abbrev com1 : UInt16 := 0x3F8

/-- A call of `ide_read_sectors` or `ide_write_sectors`, with what it meets at the ports and in the
variable for the result. -/
structure SectorsCall where
  direction : AtaDirection
  host : IdeHost
  stale : UInt8
  drive : UInt8
  numSectors : UInt8
  lba : UInt32
  buffer : UInt32

namespace SectorsCall

def run (s : Ide) (c : SectorsCall) : Ide :=
  (ideSectors c.direction c.host s c.stale c.drive c.numSectors c.lba c.buffer).2

/-- The channel of the drive. -/
def channel (s : Ide) (c : SectorsCall) : IdeChannel :=
  s.channels (s.devices c.drive.toNat).channel.toNat

/-- The call gets to `ide_ata_access`. -/
def Accesses (s : Ide) (c : SectorsCall) : Prop :=
  ¬ maximumIdeDevices < c.drive ∧ (s.devices c.drive.toNat).reserved ≠ 0 ∧
    ¬ ((s.devices c.drive.toNat).size < c.lba + c.numSectors.toUInt32 ∧
      (s.devices c.drive.toNat).type = ideAta) ∧ (s.devices c.drive.toNat).type = ideAta

instance (s : Ide) (c : SectorsCall) : Decidable (c.Accesses s) := by
  unfold Accesses
  infer_instance

/-- The bytes for the control register of the primary channel. -/
def controlBytes (s : Ide) (c : SectorsCall) : List UInt8 :=
  if c.Accesses s ∧ (c.channel s).control = 0x3F6 then
    0x02 :: if lbaMode c.lba (s.devices c.drive.toNat).features = .lba48 then
      [0x82, 0x02, 0x82, 0x02, 0x82, 0x02, 0x82, 0x02]
    else []
  else []

end SectorsCall

def runSectors (s : Ide) (calls : List SectorsCall) : Ide := calls.foldl SectorsCall.run s

section Runs

variable {s s' : Ide} {c : SectorsCall}

theorem SectorsCall.adds_run {P : PortOp → Prop} (hP : Allows P (c.channel s)) :
    s.Adds P (c.run s) := .ideSectors c.host hP c.direction c.stale c.numSectors c.lba c.buffer

theorem SectorsCall.sameTable_run (s : Ide) (c : SectorsCall) : s.SameTable (c.run s) :=
  (adds_run (allows_true _)).table

/-- The tables decide what a call gives to the control register. -/
theorem Ide.SameTable.controlBytes_eq (h : s.SameTable s') (c : SectorsCall) :
    c.controlBytes s' = c.controlBytes s := by
  have haccess : c.Accesses s' ↔ c.Accesses s := by
    rw [SectorsCall.Accesses, SectorsCall.Accesses, h.devices]
  have hcontrol : (c.channel s').control = (c.channel s).control := by
    rw [SectorsCall.channel, SectorsCall.channel, h.devices, h.control]
  rw [SectorsCall.controlBytes, SectorsCall.controlBytes, h.devices]
  exact if_congr (and_congr haccess (by rw [hcontrol])) rfl rfl

theorem Ide.SameTable.isAta (h : s.SameTable s') (hc : (c.channel s).IsAta) :
    (c.channel s').IsAta := by
  rw [SectorsCall.channel, h.devices, IdeChannel.IsAta, h.base, h.control]
  exact hc

/-- The call is refused, or has no access to make. -/
theorem bytesTo_run_of_not (h : ¬ c.Accesses s) :
    bytesTo com1 (c.run s).ports = bytesTo com1 s.ports := by
  rw [SectorsCall.run, ideSectors]
  dsimp only
  split_ifs with hdrive hthere hroom hata
  · rfl
  · rfl
  · rfl
  · exact absurd ⟨hdrive, hthere, hroom, hata⟩ h
  · exact (Ide.Adds.printError c.host (allowsReads_byteTo _ _) c.stale).bytesTo_eq

/-- What is printed about the access is not written to ports. -/
theorem bytesTo_run_of_accesses (h : c.Accesses s) :
    bytesTo com1 (c.run s).ports = bytesTo com1 (ideAtaAccess c.host (s.look c.drive.toNat)
      c.direction c.drive c.lba c.numSectors c.buffer).2.ports := by
  obtain ⟨hdrive, hthere, hroom, hata⟩ := h
  rw [SectorsCall.run, ideSectors, if_neg hdrive]
  dsimp only
  rw [if_neg hthere, if_neg hroom, if_pos hata]
  exact (Ide.Adds.printError c.host (allowsReads_byteTo _ _) _).bytesTo_eq

/-- **One call.** -/
theorem bytesTo_run (hc : (c.channel s).IsAta) :
    bytesTo com1 (c.run s).ports = bytesTo com1 s.ports ++ c.controlBytes s := by
  rw [SectorsCall.controlBytes]
  by_cases h : c.Accesses s
  · by_cases hprimary : (c.channel s).control = 0x3F6
    · have hchannel : ((s.look c.drive.toNat).channels
        ((s.look c.drive.toNat).devices c.drive.toNat).channel.toNat).IsAta := hc
      have haccess :=
        bytesTo_ideAtaAccess hchannel c.host c.direction c.lba c.numSectors c.buffer
      rw [if_pos ⟨h, hprimary⟩, bytesTo_run_of_accesses h]
      have hport : com1 = (c.channel s).control + 2 := by
        rw [hprimary]
        rfl
      rw [hport]
      exact haccess
    · have hquiet : Allows (fun op => op.byteTo com1 = none) (c.channel s) := by
        refine (allows_atChannel _).imp fun op hop => byteTo_of_ne (hop.port_ne hc (by decide) ?_)
        obtain ⟨-, hcontrol⟩ | ⟨-, hcontrol⟩ := hc
        · exact absurd hcontrol hprimary
        · rw [hcontrol]
          decide
      rw [if_neg fun hboth => hprimary hboth.2, List.append_nil]
      exact (SectorsCall.adds_run hquiet).bytesTo_eq
  · rw [if_neg fun hboth => h hboth.1, List.append_nil, bytesTo_run_of_not h]

/-- **Runs.** What the driver means for the control registers of the channels does not get there:
all the bytes for the primary one are written to the data register of `COM1`, and no other bytes
are. -/
theorem runSectors_com1 (s : Ide) (calls : List SectorsCall)
    (hata : ∀ c ∈ calls, (c.channel s).IsAta) :
    let s' := runSectors s calls
    bytesTo com1 s'.ports =
        bytesTo com1 s.ports ++ calls.flatMap (SectorsCall.controlBytes s) ∧
      s.Adds (fun op => op.port ≠ 0x3F6 ∧ op.port ≠ 0x376) s' := by
  induction calls generalizing s with
  | nil => exact ⟨(List.append_nil _).symm, .refl s⟩
  | cons c calls ih =>
      obtain ⟨hc, hrest⟩ := List.forall_mem_cons.mp hata
      have htable := SectorsCall.sameTable_run s c
      obtain ⟨hbytes, hadds⟩ := ih (c.run s) fun c' hc' => htable.isAta (hrest c' hc')
      have hapart : Allows (fun op => op.port ≠ 0x3F6 ∧ op.port ≠ 0x376) (c.channel s) := by
        refine (allows_atChannel _).imp fun op hop =>
          ⟨hop.port_ne hc (by decide) ?_, hop.port_ne hc (by decide) ?_⟩
        all_goals
          obtain ⟨-, hcontrol⟩ | ⟨-, hcontrol⟩ := hc
          all_goals
            rw [hcontrol]
            decide
      refine ⟨?_, (SectorsCall.adds_run hapart).trans hadds⟩
      have hsame : SectorsCall.controlBytes (c.run s) = SectorsCall.controlBytes s :=
        funext fun c' => htable.controlBytes_eq c'
      rw [hsame, bytesTo_run hc, List.append_assoc] at hbytes
      rw [List.flatMap_cons]
      exact hbytes

/-- Sector 5 of the drive is read and written, and a sector of a drive that is not there is read. -/
theorem runSectors_com1_oneDrive :
    let s' := runSectors oneDrive [⟨.read, idleHost, 0, 0, 1, 5, 0x1000⟩,
      ⟨.write, idleHost, 0, 0, 1, 5, 0x1000⟩, ⟨.read, idleHost, 0, 3, 1, 5, 0x1000⟩]
    bytesTo com1 s'.ports = [0x02, 0x02] ∧
      oneDrive.Adds (fun op => op.port ≠ 0x3F6 ∧ op.port ≠ 0x376) s' :=
  runSectors_com1 oneDrive _ fun _ _ => .inl ⟨rfl, rfl⟩

end Runs

end HalOS
