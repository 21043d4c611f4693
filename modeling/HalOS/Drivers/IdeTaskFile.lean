import HalOS.Drivers.IdeSectors

/-!
# The Task File

What a drive makes of the registers that `ide_ata_access` writes. The sector count and the three
registers of the address keep the byte written before the last one, and a command takes the address
from them in one of three ways.

## Main results

* `commandsIssued_ideAtaAccess`: the first command of an access, with the registers then.
* `encodesRequest_iff`: when the drive is asked for the sectors that were meant.
-/

namespace HalOS

/-! ### Drives -/

/-- The registers of a channel; the high ones hold what the low ones held before. -/
structure TaskFile where
  count : UInt8
  countHigh : UInt8
  lba0 : UInt8
  lba0High : UInt8
  lba1 : UInt8
  lba1High : UInt8
  lba2 : UInt8
  lba2High : UInt8
  device : UInt8
deriving DecidableEq, Repr

/-- A byte is written to a port of the channel. -/
def TaskFile.write (base : UInt16) (t : TaskFile) (port : UInt16) (data : UInt8) : TaskFile :=
  if port = base + 2 then { t with count := data, countHigh := t.count }
  else if port = base + 3 then { t with lba0 := data, lba0High := t.lba0 }
  else if port = base + 4 then { t with lba1 := data, lba1High := t.lba1 }
  else if port = base + 5 then { t with lba2 := data, lba2High := t.lba2 }
  else if port = base + 6 then { t with device := data }
  else t

/-- The commands that the channel is given, each with the registers then. -/
def commandsIssued (base : UInt16) : TaskFile → List PortOp → List (TaskFile × UInt8)
  | _, [] => []
  | t, .outb port data :: ops =>
      if port = base + 7 then (t, data) :: commandsIssued base t ops
      else commandsIssued base (t.write base port data) ops
  | t, .inb _ :: ops => commandsIssued base t ops
  | t, .insw _ _ :: ops => commandsIssued base t ops
  | t, .outsw _ _ :: ops => commandsIssued base t ops

/-- The sector that a command in this mode begins with: 48 bits in six bytes, 28 bits in three
bytes and the head, or 16 heads with 63 sectors a track. -/
def TaskFile.address (t : TaskFile) : LbaMode → ℕ
  | .lba48 =>
      t.lba0.toNat + 2 ^ 8 * t.lba1.toNat + 2 ^ 16 * t.lba2.toNat + 2 ^ 24 * t.lba0High.toNat +
        2 ^ 32 * t.lba1High.toNat + 2 ^ 40 * t.lba2High.toNat
  | .lba28 =>
      t.lba0.toNat + 2 ^ 8 * t.lba1.toNat + 2 ^ 16 * t.lba2.toNat +
        2 ^ 24 * (t.device &&& 0x0F).toNat
  | .chs =>
      ((t.lba1.toNat + 2 ^ 8 * t.lba2.toNat) * 16 + (t.device &&& 0x0F).toNat) * 63 +
        t.lba0.toNat - 1

/-- How many sectors a mode has addresses for. -/
def LbaMode.capacity : LbaMode → ℕ
  | .lba48 => 2 ^ 48
  | .lba28 => 2 ^ 28
  | .chs => 2 ^ 16 * 16 * 63

/-- READ SECTORS and WRITE SECTORS, and their extended forms. -/
def sectorsCommand (extended : Bool) : AtaDirection → UInt8
  | .read => if extended then 0x24 else 0x20
  | .write => if extended then 0x34 else 0x30

/-- The first of the commands asks, in this mode, for the sectors that are meant. -/
def EncodesRequest (mode : LbaMode) (direction : AtaDirection) (slavebit : UInt8) (lba : UInt32)
    (numSectors : UInt8) (issued : List (TaskFile × UInt8)) : Prop :=
  ∃ t rest, issued = (t, sectorsCommand (mode = .lba48) direction) :: rest ∧
    (t.device &&& 0x40 ≠ 0 ↔ mode ≠ .chs) ∧ (t.device &&& 0x10 ≠ 0 ↔ slavebit = 1) ∧
    t.address mode = lba.toNat ∧
    ∀ sector, lba.toNat ≤ sector → sector < lba.toNat + numSectors.toNat → sector < mode.capacity

/-- A channel at the ports that `ata_init` gives to one of the two. -/
def IdeChannel.IsAta (c : IdeChannel) : Prop :=
  c.base = 0x1F0 ∧ c.control = 0x3F6 ∨ c.base = 0x170 ∧ c.control = 0x376

/-! ### What goes over the ports -/

/-- The operations of `ide_write_register`. -/
def registerOps (c : IdeChannel) (w : UInt8 × UInt8) : List PortOp :=
  let out := fun reg data => (registerPort c reg).toList.map fun port => PortOp.outb port data
  if 0x07 < w.1 ∧ w.1 < 0x0C then
    out ataRegControl (0x80 ||| c.noIntr).toUInt8 ++ out w.1 w.2 ++
      out ataRegControl c.noIntr.toUInt8
  else out w.1 w.2

theorem ports_put (s : Ide) (channel reg data : UInt8) :
    (s.put channel reg data).ports =
      s.ports ++ (registerPort (s.channels channel.toNat) reg).toList.map fun port =>
        PortOp.outb port data := by
  rw [Ide.put]
  cases registerPort (s.channels channel.toNat) reg with
  | none => exact (List.append_nil _).symm
  | some port => rfl

theorem channels_put (s : Ide) (channel reg data : UInt8) :
    (s.put channel reg data).channels = s.channels := by
  rw [Ide.put]
  cases registerPort (s.channels channel.toNat) reg with
  | none => rfl
  | some port => rfl

theorem ports_ideWriteRegister (s : Ide) (channel : UInt8) (w : UInt8 × UInt8) :
    (ideWriteRegister s channel w.1 w.2).ports =
      s.ports ++ registerOps (s.channels channel.toNat) w := by
  rw [ideWriteRegister, registerOps]
  dsimp only
  split_ifs
  · simp only [ports_put, channels_put, List.append_assoc]
  · rw [ports_put]

theorem channels_ideWriteRegister (s : Ide) (channel : UInt8) (w : UInt8 × UInt8) :
    (ideWriteRegister s channel w.1 w.2).channels = s.channels := by
  rw [ideWriteRegister]
  dsimp only
  split_ifs
  · rw [channels_put, channels_put, channels_put]
  · rw [channels_put]

theorem ports_ideWriteRegisters (s : Ide) (channel : UInt8) (writes : List (UInt8 × UInt8)) :
    (ideWriteRegisters s channel writes).ports =
      s.ports ++ writes.flatMap (registerOps (s.channels channel.toNat)) := by
  induction writes generalizing s with
  | nil => exact (List.append_nil _).symm
  | cons w writes ih =>
      rw [ideWriteRegisters, List.foldl_cons, ← ideWriteRegisters, ih, ports_ideWriteRegister,
        channels_ideWriteRegister, List.flatMap_cons, List.append_assoc]

/-- Reads of a status register. -/
theorem ports_readTimes (host : IdeHost) {channel reg : UInt8}
    (hreg : ¬ (0x07 < reg ∧ reg < 0x0C)) (n : ℕ) (s : Ide) :
    ∃ reads, (readTimes host channel reg n s).ports = s.ports ++ reads ∧
      ∀ op ∈ reads, ∃ port, op = .inb port := by
  induction n generalizing s with
  | zero => exact ⟨[], (List.append_nil _).symm, List.forall_mem_nil _⟩
  | succ n ih =>
      obtain ⟨reads, hports, hreads⟩ := ih (ideReadRegister host s channel reg).2
      have hread : (ideReadRegister host s channel reg).2.ports =
          s.ports ++ (registerPort (s.channels channel.toNat) reg).toList.map PortOp.inb := by
        rw [ideReadRegister]
        dsimp only
        rw [if_neg hreg, Ide.get]
        cases registerPort (s.channels channel.toNat) reg with
        | none => exact (List.append_nil _).symm
        | some port => rfl
      refine ⟨_, by rw [readTimes, hports, hread, List.append_assoc], fun op hop => ?_⟩
      obtain hop | hop := List.mem_append.mp hop
      · obtain ⟨port, -, rfl⟩ := List.mem_map.mp hop
        exact ⟨port, rfl⟩
      · exact hreads op hop

/-! ### What the drive makes of it -/

theorem commandsIssued_reads {base : UInt16} {t : TaskFile} {reads ops : List PortOp}
    (h : ∀ op ∈ reads, ∃ port, op = .inb port) :
    commandsIssued base t (reads ++ ops) = commandsIssued base t ops := by
  induction reads with
  | nil => rfl
  | cons op reads ih =>
      obtain ⟨port, rfl⟩ := h op List.mem_cons_self
      exact ih fun op hop => h op (List.mem_cons_of_mem _ hop)

/-- The registers when the command is issued. -/
def requestRegisters (t : TaskFile) (slavebit numSectors : UInt8) (lba : UInt32) :
    LbaMode → TaskFile
  | .lba48 =>
      { count := numSectors
        countHigh := 0
        lba0 := (lbaIo lba .lba48).io0
        lba0High := (lbaIo lba .lba48).io3
        lba1 := (lbaIo lba .lba48).io1
        lba1High := (lbaIo lba .lba48).io4
        lba2 := (lbaIo lba .lba48).io2
        lba2High := (lbaIo lba .lba48).io5
        device := deviceSelect slavebit (lbaIo lba .lba48).head .lba48 }
  | mode =>
      { count := numSectors
        countHigh := t.count
        lba0 := (lbaIo lba mode).io0
        lba0High := t.lba0
        lba1 := (lbaIo lba mode).io1
        lba1High := t.lba1
        lba2 := (lbaIo lba mode).io2
        lba2High := t.lba2
        device := deviceSelect slavebit (lbaIo lba mode).head mode }

theorem commandsIssued_commandWrites {c : IdeChannel} (hc : c.IsAta) (t : TaskFile)
    (slavebit : UInt8) (mode : LbaMode) (direction : AtaDirection) (lba : UInt32)
    (numSectors : UInt8) (ops : List PortOp) :
    commandsIssued c.base t
        ((commandWrites slavebit mode direction lba numSectors).flatMap (registerOps c) ++ ops) =
      (requestRegisters t slavebit numSectors lba mode, ataCommand mode direction) ::
        commandsIssued c.base (requestRegisters t slavebit numSectors lba mode) ops := by
  obtain ⟨base, control, bmIde, noIntr⟩ := c
  obtain ⟨rfl, rfl⟩ | ⟨rfl, rfl⟩ := hc
  all_goals cases mode
  all_goals simp [commandsIssued, commandWrites, registerOps, registerPort, TaskFile.write,
    requestRegisters, ataRegHddevsel, ataRegSeccount0, ataRegSeccount1, ataRegLba0, ataRegLba1,
    ataRegLba2, ataRegLba3, ataRegLba4, ataRegLba5, ataRegCommand, ataRegControl]

theorem commandsIssued_control {c : IdeChannel} (hc : c.IsAta) (t : TaskFile) (data : UInt8)
    (ops : List PortOp) :
    commandsIssued c.base t (registerOps c (ataRegControl, data) ++ ops) =
      commandsIssued c.base t ops := by
  obtain ⟨base, control, bmIde, noIntr⟩ := c
  obtain ⟨rfl, rfl⟩ | ⟨rfl, rfl⟩ := hc
  all_goals simp [commandsIssued, registerOps, registerPort, TaskFile.write, ataRegControl]

section Access

variable (host : IdeHost) (s : Ide)

/-- The channel of a drive while it is accessed. -/
def accessChannel (s : Ide) (drive : UInt8) : IdeChannel :=
  { s.channels (s.devices drive.toNat).channel.toNat with noIntr := 2 }

theorem channels_beginCall (call : AtaCall) (noIntr : UInt16) :
    ((s.beginCall call).setNoIntr (s.devices call.drive.toNat).channel.toNat noIntr).channels
        (s.devices call.drive.toNat).channel.toNat =
      { s.channels (s.devices call.drive.toNat).channel.toNat with noIntr := noIntr } :=
  Function.update_self _ _ _

theorem channels_ideReadRegister (channel reg : UInt8) :
    (ideReadRegister host s channel reg).2.channels = s.channels := by
  have hget (s : Ide) : (s.get host channel reg).2.channels = s.channels := by
    rw [Ide.get]
    cases registerPort (s.channels channel.toNat) reg with
    | none => rfl
    | some port => rfl
  rw [ideReadRegister]
  dsimp only
  split_ifs
  · dsimp only
    rw [channels_put, hget, channels_put]
  · exact hget s

theorem channels_readTimes {channel reg : UInt8} (n : ℕ) (s : Ide) :
    (readTimes host channel reg n s).channels = s.channels := by
  induction n generalizing s with
  | zero => rfl
  | succ n ih => rw [readTimes, ih, channels_ideReadRegister]

/-- Until the drive is ready, its channel gets no command. -/
theorem ports_beginAccess (call : AtaCall) :
    (beginAccess host s call).channels (s.devices call.drive.toNat).channel.toNat =
        accessChannel s call.drive ∧
      ∃ reads, (beginAccess host s call).ports =
          s.ports ++ (registerOps (accessChannel s call.drive) (ataRegControl, 2) ++ reads) ∧
        ∀ op ∈ reads, ∃ port, op = .inb port := by
  have hchannel := channels_beginCall s call 2
  have hbegin : beginAccess host s call = waitWhileBusy host (ideWriteRegister
      ((s.beginCall call).setNoIntr (s.devices call.drive.toNat).channel.toNat 2)
        (s.devices call.drive.toNat).channel ataRegControl 0x02)
      (s.devices call.drive.toNat).channel := rfl
  rw [hbegin, waitWhileBusy]
  generalize host.busyReads _ + 1 = n
  obtain ⟨reads, hports, hreads⟩ := ports_readTimes host
    (by decide : ¬ (0x07 < ataRegStatus ∧ ataRegStatus < 0x0C)) n (ideWriteRegister
      ((s.beginCall call).setNoIntr (s.devices call.drive.toNat).channel.toNat 2)
        (s.devices call.drive.toNat).channel ataRegControl 0x02)
  refine ⟨?_, reads, ?_, hreads⟩
  · rw [channels_readTimes, channels_ideWriteRegister _ _ (ataRegControl, 0x02)]
    exact hchannel
  · rw [hports, ports_ideWriteRegister _ _ (ataRegControl, 0x02), hchannel, List.append_assoc]
    rfl

/-- The first command of an access, with the registers then. -/
theorem commandsIssued_ideAtaAccess (t : TaskFile) (direction : AtaDirection) (drive : UInt8)
    (lba : UInt32) (numSectors : UInt8) (buffer : UInt32)
    (hc : (s.channels (s.devices drive.toNat).channel.toNat).IsAta) :
    ∃ rest, commandsIssued (s.channels (s.devices drive.toNat).channel.toNat).base t
        (ideAtaAccess host s.unlogged direction drive lba numSectors buffer).2.ports =
      (requestRegisters t (s.devices drive.toNat).drive numSectors lba
          (lbaMode lba (s.devices drive.toNat).features),
        ataCommand (lbaMode lba (s.devices drive.toNat).features) direction) :: rest := by
  obtain ⟨hchannel, reads, hports, hreads⟩ :=
    ports_beginAccess host s.unlogged ⟨direction, drive, lba, numSectors⟩
  have hchannel : (beginAccess host s.unlogged ⟨direction, drive, lba, numSectors⟩).channels
      (s.devices drive.toNat).channel.toNat = accessChannel s drive := hchannel
  have hata : (accessChannel s drive).IsAta := hc
  let written := ideWriteRegisters
    (beginAccess host s.unlogged ⟨direction, drive, lba, numSectors⟩)
    (s.devices drive.toNat).channel (commandWrites (s.devices drive.toNat).drive
      (lbaMode lba (s.devices drive.toNat).features) direction lba numSectors)
  have hextends : written.Extends
      (ideAtaAccess host s.unlogged direction drive lba numSectors buffer).2 := by
    cases direction with
    | read => exact (Ide.Extends.refl written).readData _ _ _
    | write => exact (((Ide.Extends.refl written).writeData _ _ _).writeRegister _ _).polling false
  obtain ⟨ops, hops⟩ := hextends.ports
  refine ⟨commandsIssued (accessChannel s drive).base (requestRegisters t
    (s.devices drive.toNat).drive numSectors lba (lbaMode lba (s.devices drive.toNat).features))
      ops, ?_⟩
  rw [← hops, ports_ideWriteRegisters, hports, hchannel]
  exact calc
    _ = commandsIssued (accessChannel s drive).base t
          (registerOps (accessChannel s drive) (ataRegControl, 2) ++ (reads ++
            ((commandWrites (s.devices drive.toNat).drive
              (lbaMode lba (s.devices drive.toNat).features) direction lba numSectors).flatMap
                (registerOps (accessChannel s drive)) ++ ops))) := by
        simp only [Ide.unlogged, List.nil_append, List.append_assoc]
        rfl
    _ = _ := by
        rw [commandsIssued_control hata, commandsIssued_reads hreads,
          commandsIssued_commandWrites hata]

end Access

/-! ### Addresses -/

/-- A field of `m` bits from bit `n` on. -/
theorem toNat_field (lba : UInt32) {mask k : UInt32} (n m : ℕ) (hk : k.toNat = n) (hn : n < 32)
    (hm : m ≤ 8) (hmask : mask.toNat = (2 ^ m - 1) <<< n) :
    ((lba &&& mask) >>> k).toUInt8.toNat = lba.toNat / 2 ^ n % 2 ^ m := by
  have hfield : (lba.toNat &&& mask.toNat) >>> n = lba.toNat / 2 ^ n % 2 ^ m := by
    rw [hmask, Nat.shiftRight_and_distrib, Nat.shiftLeft_shiftRight,
      Nat.and_two_pow_sub_one_eq_mod, Nat.shiftRight_eq_div_pow]
  have hlt : lba.toNat / 2 ^ n % 2 ^ m < 2 ^ 8 :=
    Nat.lt_of_lt_of_le (Nat.mod_lt _ (Nat.two_pow_pos m)) (Nat.pow_le_pow_right (by decide) hm)
  rw [UInt32.toNat_toUInt8, UInt32.toNat_shiftRight, UInt32.toNat_and, hk, Nat.mod_eq_of_lt hn,
    hfield, Nat.mod_eq_of_lt hlt]

/-- The selection of the drive, for a number of a head. -/
theorem deviceSelect_bits {slavebit head : UInt8} (hslave : slavebit = 0 ∨ slavebit = 1)
    (hhead : head.toNat < 16) (mode : LbaMode) :
    (deviceSelect slavebit head mode &&& 0x0F).toNat = head.toNat ∧
      (deviceSelect slavebit head mode &&& 0x40 ≠ 0 ↔ mode ≠ .chs) ∧
      (deviceSelect slavebit head mode &&& 0x10 ≠ 0 ↔ slavebit = 1) := by
  rw [← UInt8.ofNat_toNat (x := head)]
  generalize head.toNat = n at hhead ⊢
  obtain rfl | rfl := hslave
  all_goals cases mode
  all_goals
    revert n
    decide

theorem address_lba48 (t : TaskFile) (slavebit numSectors : UInt8) (lba : UInt32) :
    (requestRegisters t slavebit numSectors lba .lba48).address .lba48 = lba.toNat := by
  have h0 : (lbaIo lba .lba48).io0.toNat = lba.toNat / 2 ^ 0 % 2 ^ 8 :=
    toNat_field lba 0 8 rfl (by decide) (by decide) (by decide)
  have h1 : (lbaIo lba .lba48).io1.toNat = lba.toNat / 2 ^ 8 % 2 ^ 8 :=
    toNat_field lba 8 8 rfl (by decide) (by decide) (by decide)
  have h2 : (lbaIo lba .lba48).io2.toNat = lba.toNat / 2 ^ 16 % 2 ^ 8 :=
    toNat_field lba 16 8 rfl (by decide) (by decide) (by decide)
  have h3 : (lbaIo lba .lba48).io3.toNat = lba.toNat / 2 ^ 24 % 2 ^ 8 :=
    toNat_field lba 24 8 rfl (by decide) (by decide) (by decide)
  have h4 : (lbaIo lba .lba48).io4.toNat = 0 := rfl
  have h5 : (lbaIo lba .lba48).io5.toNat = 0 := rfl
  have hlt := lba.toNat_lt
  rw [requestRegisters, TaskFile.address, h0, h1, h2, h3, h4, h5]
  omega

theorem head_lba28 (lba : UInt32) :
    (lbaIo lba .lba28).head.toNat = lba.toNat / 2 ^ 24 % 2 ^ 4 :=
  toNat_field lba 24 4 rfl (by decide) (by decide) (by decide)

theorem address_lba28 (t : TaskFile) {slavebit : UInt8} (hslave : slavebit = 0 ∨ slavebit = 1)
    (numSectors : UInt8) (lba : UInt32) :
    (requestRegisters t slavebit numSectors lba .lba28).address .lba28 = lba.toNat % 2 ^ 28 := by
  have h0 : (lbaIo lba .lba28).io0.toNat = lba.toNat / 2 ^ 0 % 2 ^ 8 :=
    toNat_field lba 0 8 rfl (by decide) (by decide) (by decide)
  have h1 : (lbaIo lba .lba28).io1.toNat = lba.toNat / 2 ^ 8 % 2 ^ 8 :=
    toNat_field lba 8 8 rfl (by decide) (by decide) (by decide)
  have h2 : (lbaIo lba .lba28).io2.toNat = lba.toNat / 2 ^ 16 % 2 ^ 8 :=
    toNat_field lba 16 8 rfl (by decide) (by decide) (by decide)
  have hhead := head_lba28 lba
  have hlt : (lbaIo lba .lba28).head.toNat < 16 := by omega
  have hselect := (deviceSelect_bits hslave hlt .lba28).1
  simp only [requestRegisters, TaskFile.address, h0, h1, h2, hselect, hhead]
  omega

/-- The two bytes of a cylinder. -/
theorem toNat_cylinder (cyl : UInt16) :
    ((cyl >>> 0) &&& 0xFF).toUInt8.toNat = cyl.toNat % 2 ^ 8 ∧
      ((cyl >>> 8) &&& 0xFF).toUInt8.toNat = cyl.toNat / 2 ^ 8 := by
  have hlt := cyl.toNat_lt
  have hand (n : ℕ) : n &&& 255 = n % 2 ^ 8 := Nat.and_two_pow_sub_one_eq_mod n 8
  constructor
  · simp [hand]
  · simp [hand, Nat.shiftRight_eq_div_pow]
    omega

/-- The sector, the cylinder and the head of a number that is not too large for this mode to be
chosen. -/
theorem toNat_lbaIo_chs {lba : UInt32} (h : lba.toNat < 2 ^ 28) :
    (lbaIo lba .chs).io0.toNat = lba.toNat % 63 + 1 ∧
      (lbaIo lba .chs).io1.toNat = lba.toNat / 1008 % 2 ^ 16 % 2 ^ 8 ∧
      (lbaIo lba .chs).io2.toNat = lba.toNat / 1008 % 2 ^ 16 / 2 ^ 8 ∧
      (lbaIo lba .chs).head.toNat = lba.toNat / 63 % 16 := by
  have hsect : (lba % 63 + 1).toUInt8.toNat = lba.toNat % 63 + 1 := by
    simp
    omega
  have hstart : (lba + 1 - (lba % 63 + 1).toUInt8.toUInt32).toNat = lba.toNat - lba.toNat % 63 := by
    rw [UInt32.toNat_sub, UInt32.toNat_add, UInt8.toNat_toUInt32, hsect]
    simp
    omega
  have hperCylinder : (16 * 63 : UInt32).toNat = 1008 := rfl
  have hcyl : ((lba + 1 - (lba % 63 + 1).toUInt8.toUInt32) / (16 * 63)).toUInt16.toNat =
      lba.toNat / 1008 % 2 ^ 16 := by
    rw [UInt32.toNat_toUInt16, UInt32.toNat_div, hstart, hperCylinder]
    omega
  refine ⟨hsect, ?_, ?_, ?_⟩
  · exact (toNat_cylinder _).1.trans (by rw [hcyl])
  · exact (toNat_cylinder _).2.trans (by rw [hcyl])
  · have hhead : (lbaIo lba .chs).head =
        ((lba + 1 - (lba % 63 + 1).toUInt8.toUInt32) % (16 * 63) / 63).toUInt8 := rfl
    have htrack : (63 : UInt32).toNat = 63 := rfl
    rw [hhead, UInt32.toNat_toUInt8, UInt32.toNat_div, UInt32.toNat_mod, hstart, hperCylinder,
      htrack]
    omega

/-- The number of the cylinder is cut off. -/
theorem address_chs (t : TaskFile) {slavebit : UInt8} (hslave : slavebit = 0 ∨ slavebit = 1)
    (numSectors : UInt8) {lba : UInt32} (h : lba.toNat < 2 ^ 28) :
    (requestRegisters t slavebit numSectors lba .chs).address .chs =
      lba.toNat % (2 ^ 16 * 16 * 63) := by
  obtain ⟨h0, h1, h2, hhead⟩ := toNat_lbaIo_chs h
  have hlt : (lbaIo lba .chs).head.toNat < 16 := by omega
  have hselect := (deviceSelect_bits hslave hlt .chs).1
  simp only [requestRegisters, TaskFile.address, h0, h1, h2, hselect, hhead]
  omega

theorem head_requestRegisters {lba : UInt32} {mode : LbaMode}
    (h : lba.toNat < 2 ^ 28 ∨ mode ≠ .chs) :
    (lbaIo lba mode).head.toNat < 16 := by
  cases mode with
  | chs =>
      have hhead := (toNat_lbaIo_chs (h.resolve_right fun hne => hne rfl)).2.2.2
      omega
  | lba28 =>
      have hhead := head_lba28 lba
      omega
  | lba48 => exact (by decide : (0 : ℕ) < 16)

/-! ### Requests -/

/-- The sectors that the mode has addresses for. -/
def RequestFits (features : UInt16) (lba : UInt32) (numSectors : UInt8) : Prop :=
  2 ^ 28 ≤ lba.toNat ∨
    (features &&& 0x200 ≠ 0 ∧ lba.toNat + numSectors.toNat ≤ 2 ^ 28) ∨
    (features &&& 0x200 = 0 ∧ lba.toNat + numSectors.toNat ≤ 2 ^ 16 * 16 * 63)

theorem requestFits_iff {features : UInt16} {lba : UInt32} {numSectors : UInt8} :
    RequestFits features lba numSectors ↔
      lba.toNat + numSectors.toNat ≤ (lbaMode lba features).capacity := by
  have hlba := lba.toNat_lt
  have hnum := numSectors.toNat_lt
  have hlarge : (0x10000000 : UInt32) ≤ lba ↔ 2 ^ 28 ≤ lba.toNat := UInt32.le_iff_toNat_le
  rw [RequestFits, lbaMode]
  by_cases hmode : (0x10000000 : UInt32) ≤ lba
  · rw [if_pos hmode, LbaMode.capacity]
    have := hlarge.mp hmode
    omega
  · rw [if_neg hmode]
    rw [hlarge] at hmode
    by_cases hfeatures : features &&& 0x200 = 0
    · rw [if_neg (not_not.mpr hfeatures), or_iff_right hmode,
        or_iff_right fun h => h.1 hfeatures]
      exact and_iff_right hfeatures
    · rw [if_pos hfeatures, or_iff_right hmode, or_iff_left fun h => hfeatures h.1]
      exact and_iff_right hfeatures

/-- The other modes are for small numbers. -/
theorem lbaMode_cases (lba : UInt32) (features : UInt16) :
    lba.toNat < 2 ^ 28 ∨ lbaMode lba features = .lba48 := by
  by_cases hmode : (0x10000000 : UInt32) ≤ lba
  · exact .inr (if_pos hmode)
  · rw [UInt32.le_iff_toNat_le] at hmode
    exact .inl (Nat.not_le.mp hmode)

variable (host : IdeHost) (s : Ide) (t : TaskFile) (direction : AtaDirection) (drive : UInt8)
variable (lba : UInt32) (numSectors : UInt8) (buffer : UInt32)

/-- The address is cut off at the end of the mode. -/
theorem address_requestRegisters {slavebit : UInt8} (hslave : slavebit = 0 ∨ slavebit = 1)
    (features : UInt16) :
    (requestRegisters t slavebit numSectors lba (lbaMode lba features)).address
      (lbaMode lba features) = lba.toNat % (lbaMode lba features).capacity := by
  have hmode := lbaMode_cases lba features
  cases h : lbaMode lba features with
  | chs =>
      rw [h] at hmode
      exact address_chs t hslave numSectors (hmode.resolve_right (by decide))
  | lba28 => exact address_lba28 t hslave numSectors lba
  | lba48 =>
      have hlt := lba.toNat_lt
      rw [address_lba48, LbaMode.capacity]
      omega

/-- A request that fits is encoded. -/
theorem encodesRequest_of_requestFits
    (hc : (s.channels (s.devices drive.toNat).channel.toNat).IsAta)
    (hslave : (s.devices drive.toNat).drive = 0 ∨ (s.devices drive.toNat).drive = 1)
    (hpos : 1 ≤ numSectors.toNat)
    (hfits : RequestFits (s.devices drive.toNat).features lba numSectors) :
    EncodesRequest (lbaMode lba (s.devices drive.toNat).features) direction
      (s.devices drive.toNat).drive lba numSectors
      (commandsIssued (s.channels (s.devices drive.toNat).channel.toNat).base t
        (ideAtaAccess host s.unlogged direction drive lba numSectors buffer).2.ports) := by
  obtain ⟨rest, hissued⟩ :=
    commandsIssued_ideAtaAccess host s t direction drive lba numSectors buffer hc
  have haddress := address_requestRegisters t lba numSectors hslave (s.devices drive.toNat).features
  have hmode := lbaMode_cases lba (s.devices drive.toNat).features
  rw [requestFits_iff] at hfits
  rw [hissued]
  generalize lbaMode lba (s.devices drive.toNat).features = mode at *
  have hhead : (lbaIo lba mode).head.toNat < 16 := by
    refine head_requestRegisters (hmode.imp_right ?_)
    rintro rfl
    decide
  obtain ⟨-, hlba, hdrive⟩ := deviceSelect_bits hslave hhead mode
  refine ⟨requestRegisters t (s.devices drive.toNat).drive numSectors lba mode, rest,
    ?_, ?_, ?_, ?_, ?_⟩
  · cases mode <;> cases direction <;> rfl
  · cases mode <;> exact hlba
  · cases mode <;> exact hdrive
  · rw [haddress, Nat.mod_eq_of_lt (by omega)]
  · intro sector _ hsector
    omega

/-- A request that is encoded fits: its last sector does. -/
theorem requestFits_of_encodesRequest {mode : LbaMode} {slavebit : UInt8}
    {issued : List (TaskFile × UInt8)} (hpos : 1 ≤ numSectors.toNat)
    (h : EncodesRequest mode direction slavebit lba numSectors issued) :
    lba.toNat + numSectors.toNat ≤ mode.capacity := by
  obtain ⟨_, _, _, _, _, _, hsectors⟩ := h
  have hlast := hsectors (lba.toNat + (numSectors.toNat - 1)) (by omega) (by omega)
  omega

/-- **The task file** encodes the requested sectors exactly if the mode that is chosen for the first
of them has addresses for all. -/
theorem encodesRequest_iff (hpos : 1 ≤ numSectors.toNat)
    (hc : (s.channels (s.devices drive.toNat).channel.toNat).IsAta)
    (hslave : (s.devices drive.toNat).drive = 0 ∨ (s.devices drive.toNat).drive = 1) :
    EncodesRequest (lbaMode lba (s.devices drive.toNat).features) direction
        (s.devices drive.toNat).drive lba numSectors
        (commandsIssued (s.channels (s.devices drive.toNat).channel.toNat).base t
          (ideAtaAccess host s.unlogged direction drive lba numSectors buffer).2.ports) ↔
      RequestFits (s.devices drive.toNat).features lba numSectors :=
  ⟨fun h => requestFits_iff.mpr (requestFits_of_encodesRequest direction lba numSectors hpos h),
    encodesRequest_of_requestFits host s t direction drive lba numSectors buffer hc hslave hpos⟩

/-- A drive of 2^29 sectors. -/
def largeDrive : Ide :=
  { oneDrive with
    devices := fun i => if i = 0 then ⟨1, 0, 0, 0, 0x200, 0x20000000⟩ else ⟨0, 0, 0, 0, 0, 0⟩ }

def zeroedTaskFile : TaskFile := ⟨0, 0, 0, 0, 0, 0, 0, 0, 0⟩

/-- A sector in the middle of the drive. -/
theorem encodesRequest_largeDrive :
    EncodesRequest .lba48 .read 0 0x10000000 1
      (commandsIssued 0x1F0 zeroedTaskFile
        (ideAtaAccess idleHost largeDrive.unlogged .read 0 0x10000000 1 0).2.ports) :=
  (encodesRequest_iff idleHost largeDrive zeroedTaskFile .read 0 0x10000000 1 0 (by decide)
    (.inl (by decide)) (.inl rfl)).mpr (.inl (by decide))

/-- Of two sectors on both sides of 2^28 the second has no address in the mode of the first. -/
theorem encodesRequest_violated :
    ¬ ∀ (host : IdeHost) (s : Ide) (t : TaskFile) (direction : AtaDirection) (drive : UInt8)
        (lba : UInt32) (numSectors : UInt8) (buffer : UInt32),
      1 ≤ numSectors.toNat →
      lba.toNat + numSectors.toNat ≤ (s.devices drive.toNat).size.toNat →
      (s.channels (s.devices drive.toNat).channel.toNat).IsAta →
      ((s.devices drive.toNat).drive = 0 ∨ (s.devices drive.toNat).drive = 1) →
      EncodesRequest (lbaMode lba (s.devices drive.toNat).features) direction
        (s.devices drive.toNat).drive lba numSectors
        (commandsIssued (s.channels (s.devices drive.toNat).channel.toNat).base t
          (ideAtaAccess host s.unlogged direction drive lba numSectors buffer).2.ports) := by
  intro hall
  have h := hall idleHost largeDrive zeroedTaskFile .read 0 0x0FFFFFFF 2 0 (by decide) (by decide)
    (.inl (by decide)) (.inl rfl)
  exact absurd (requestFits_of_encodesRequest .read 0x0FFFFFFF 2 (by decide) h) (by decide)

end HalOS
