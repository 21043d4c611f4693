import Mathlib.Algebra.Group.Nat.Defs
import Mathlib.Tactic.Common

/-!
# The IDE Driver

The functions of `drivers/ide.c` behind `ide_read_sectors` and `ide_write_sectors`. What goes over
the ports is a list of operations, and the answer of a drive to a read depends on those before it.
A drive that is waited for is ready after a number of reads.

The state has three logs that the code does not have: the operations on the ports, the entries of
`g_ide_devices` that were looked at, and the calls of `ide_ata_access`. The table is a function, so
that what stands behind its five entries can be looked at. What is printed is left out.
-/

namespace HalOS

/-! ### Constants -/

/-- `MAXIMUM_IDE_DEVICES`. -/
abbrev maximumIdeDevices : UInt8 := 5

/-- `IDE_ATA`. -/
abbrev ideAta : UInt16 := 0

abbrev ataRegError : UInt8 := 0x01
abbrev ataRegSeccount0 : UInt8 := 0x02
abbrev ataRegLba0 : UInt8 := 0x03
abbrev ataRegLba1 : UInt8 := 0x04
abbrev ataRegLba2 : UInt8 := 0x05
abbrev ataRegHddevsel : UInt8 := 0x06
abbrev ataRegCommand : UInt8 := 0x07
abbrev ataRegStatus : UInt8 := 0x07
abbrev ataRegSeccount1 : UInt8 := 0x08
abbrev ataRegLba3 : UInt8 := 0x09
abbrev ataRegLba4 : UInt8 := 0x0A
abbrev ataRegLba5 : UInt8 := 0x0B
abbrev ataRegControl : UInt8 := 0x0C
abbrev ataRegAltstatus : UInt8 := 0x0C

abbrev ataSrDrq : UInt8 := 0x08
abbrev ataSrDf : UInt8 := 0x20
abbrev ataSrErr : UInt8 := 0x01

/-! ### Data -/

/-- What goes over the ports; `insw` and `outsw` are the 256 words of a sector. -/
inductive PortOp
  | outb (port : UInt16) (data : UInt8)
  | inb (port : UInt16)
  | insw (port : UInt16) (buffer : UInt32)
  | outsw (port : UInt16) (buffer : UInt32)
deriving DecidableEq, Repr

/-- `IDE_CHANNELS`. -/
structure IdeChannel where
  base : UInt16
  control : UInt16
  bmIde : UInt16
  noIntr : UInt16
deriving DecidableEq, Repr

/-- `IDE_DEVICE`, without what is only printed. -/
structure IdeDevice where
  reserved : UInt8
  channel : UInt8
  drive : UInt8
  type : UInt16
  features : UInt16
  size : UInt32
deriving DecidableEq, Repr

inductive AtaDirection
  | read | write
deriving DecidableEq, Repr

/-- `LBA_MODE_CHS`, `LBA_MODE_28`, `LBA_MODE_48`. -/
inductive LbaMode
  | chs | lba28 | lba48
deriving DecidableEq, Repr

/-- A call of `ide_ata_access`. -/
structure AtaCall where
  direction : AtaDirection
  drive : UInt8
  lba : UInt32
  numSectors : UInt8
deriving DecidableEq, Repr

/-- The drives: what they answer to the read at the end of these operations, and how many reads
of the status say after these that they are busy. -/
structure IdeHost where
  answer : List PortOp → UInt8
  busyReads : List PortOp → ℕ

/-- The variables of `ide.c`. -/
structure Ide where
  channels : ℕ → IdeChannel
  devices : ℕ → IdeDevice
  irqInvoked : UInt8
  /-- Ghost: the operations on the ports. -/
  ports : List PortOp
  /-- Ghost: the entries of `g_ide_devices` that were looked at. -/
  entries : List ℕ
  /-- Ghost: the calls of `ide_ata_access`. -/
  calls : List AtaCall

namespace Ide

def emit (s : Ide) (op : PortOp) : Ide := { s with ports := s.ports ++ [op] }

/-- An entry of `g_ide_devices` is looked at. -/
def look (s : Ide) (i : ℕ) : Ide := { s with entries := s.entries ++ [i] }

/-- `g_ide_channels[channel].no_intr = noIntr`. -/
def setNoIntr (s : Ide) (channel : ℕ) (noIntr : UInt16) : Ide :=
  { s with
    channels := Function.update s.channels channel { s.channels channel with noIntr := noIntr } }

/-- Nothing has been logged yet. -/
def unlogged (s : Ide) : Ide := { s with ports := [], entries := [], calls := [] }

end Ide

/-! ### Registers -/

/-- The port of a register. -/
def registerPort (c : IdeChannel) (reg : UInt8) : Option UInt16 :=
  if reg < 0x08 then some (c.base + reg.toUInt16 - 0x00)
  else if reg < 0x0C then some (c.base + reg.toUInt16 - 0x06)
  else if reg < 0x0E then some (c.control + reg.toUInt16 - 0x0A)
  else if reg < 0x16 then some (c.bmIde + reg.toUInt16 - 0x0E)
  else none

/-- The lines of `ide_write_register` for the register itself. -/
def Ide.put (s : Ide) (channel reg data : UInt8) : Ide :=
  (registerPort (s.channels channel.toNat) reg).elim s fun port => s.emit (.outb port data)

/-- The lines of `ide_read_register` for the register itself. A number without a port reads
nothing, and then the value is as good as any. -/
def Ide.get (host : IdeHost) (s : Ide) (channel reg : UInt8) : UInt8 × Ide :=
  let s := (registerPort (s.channels channel.toNat) reg).elim s fun port => s.emit (.inb port)
  (host.answer s.ports, s)

/-- `ide_write_register`. -/
def ideWriteRegister (s : Ide) (channel reg data : UInt8) : Ide :=
  let noIntr := (s.channels channel.toNat).noIntr
  if 0x07 < reg ∧ reg < 0x0C then
    let s := s.put channel ataRegControl (0x80 ||| noIntr).toUInt8
    let s := s.put channel reg data
    s.put channel ataRegControl noIntr.toUInt8
  else s.put channel reg data

/-- `ide_read_register`. -/
def ideReadRegister (host : IdeHost) (s : Ide) (channel reg : UInt8) : UInt8 × Ide :=
  let noIntr := (s.channels channel.toNat).noIntr
  if 0x07 < reg ∧ reg < 0x0C then
    let s := s.put channel ataRegControl (0x80 ||| noIntr).toUInt8
    let ret := s.get host channel reg
    (ret.1, ret.2.put channel ataRegControl noIntr.toUInt8)
  else s.get host channel reg

/-- A register is read so many times. -/
def readTimes (host : IdeHost) (channel reg : UInt8) : ℕ → Ide → Ide
  | 0, s => s
  | n + 1, s => readTimes host channel reg n (ideReadRegister host s channel reg).2

/-- `while (ide_read_register(channel, ATA_REG_STATUS) & ATA_SR_BSY)`. -/
def waitWhileBusy (host : IdeHost) (s : Ide) (channel : UInt8) : Ide :=
  readTimes host channel ataRegStatus (host.busyReads s.ports + 1) s

/-- `ide_polling`. -/
def idePolling (host : IdeHost) (s : Ide) (channel : UInt8) (advancedCheck : Bool) :
    UInt8 × Ide :=
  let s := readTimes host channel ataRegAltstatus 4 s
  let s := waitWhileBusy host s channel
  if advancedCheck then
    let state := ideReadRegister host s channel ataRegStatus
    if state.1 &&& ataSrErr ≠ 0 then (2, state.2)
    else if state.1 &&& ataSrDf ≠ 0 then (1, state.2)
    else if state.1 &&& ataSrDrq = 0 then (3, state.2)
    else (0, state.2)
  else (0, s)

/-! ### Accesses -/

/-- `lba_io` and `head`. -/
structure LbaIo where
  io0 : UInt8
  io1 : UInt8
  io2 : UInt8
  io3 : UInt8
  io4 : UInt8
  io5 : UInt8
  head : UInt8
deriving DecidableEq, Repr

def lbaMode (lba : UInt32) (features : UInt16) : LbaMode :=
  if 0x10000000 ≤ lba then .lba48 else if features &&& 0x200 ≠ 0 then .lba28 else .chs

def lbaIo (lba : UInt32) : LbaMode → LbaIo
  | .lba48 =>
      { io0 := ((lba &&& 0x000000FF) >>> 0).toUInt8
        io1 := ((lba &&& 0x0000FF00) >>> 8).toUInt8
        io2 := ((lba &&& 0x00FF0000) >>> 16).toUInt8
        io3 := ((lba &&& 0xFF000000) >>> 24).toUInt8
        io4 := 0
        io5 := 0
        head := 0 }
  | .lba28 =>
      { io0 := ((lba &&& 0x00000FF) >>> 0).toUInt8
        io1 := ((lba &&& 0x000FF00) >>> 8).toUInt8
        io2 := ((lba &&& 0x0FF0000) >>> 16).toUInt8
        io3 := 0
        io4 := 0
        io5 := 0
        head := ((lba &&& 0xF000000) >>> 24).toUInt8 }
  | .chs =>
      let sect := (lba % 63 + 1).toUInt8
      let cyl := ((lba + 1 - sect.toUInt32) / (16 * 63)).toUInt16
      { io0 := sect
        io1 := ((cyl >>> 0) &&& 0xFF).toUInt8
        io2 := ((cyl >>> 8) &&& 0xFF).toUInt8
        io3 := 0
        io4 := 0
        io5 := 0
        head := ((lba + 1 - sect.toUInt32) % (16 * 63) / 63).toUInt8 }

/-- `cmd`; `dma` is zero throughout. -/
def ataCommand : LbaMode → AtaDirection → UInt8
  | .chs, .read => 0x20
  | .lba28, .read => 0x20
  | .lba48, .read => 0x24
  | .chs, .write => 0x30
  | .lba28, .write => 0x30
  | .lba48, .write => 0x34

/-- The entries of the array of flush commands. -/
def cacheFlush : LbaMode → UInt8
  | .chs => 0xE7
  | .lba28 => 0xE7
  | .lba48 => 0xEA

/-- What `ATA_REG_HDDEVSEL` is set to. -/
def deviceSelect (slavebit head : UInt8) : LbaMode → UInt8
  | .chs => (0xA0 : UInt8) ||| slavebit <<< 4 ||| head
  | _ => (0xE0 : UInt8) ||| slavebit <<< 4 ||| head

/-- The registers that `ide_ata_access` writes from the selection of the drive to the command, with
what it writes there. -/
def commandWrites (slavebit : UInt8) (mode : LbaMode) (direction : AtaDirection) (lba : UInt32)
    (numSectors : UInt8) : List (UInt8 × UInt8) :=
  let io := lbaIo lba mode
  [(ataRegHddevsel, deviceSelect slavebit io.head mode)] ++
    (if mode = .lba48 then
      [(ataRegSeccount1, 0), (ataRegLba3, io.io3), (ataRegLba4, io.io4), (ataRegLba5, io.io5)]
    else []) ++
    [(ataRegSeccount0, numSectors), (ataRegLba0, io.io0), (ataRegLba1, io.io1),
      (ataRegLba2, io.io2), (ataRegCommand, ataCommand mode direction)]

/-- `ide_write_register` for one register after the other. -/
def ideWriteRegisters (s : Ide) (channel : UInt8) (writes : List (UInt8 × UInt8)) : Ide :=
  writes.foldl (fun s w => ideWriteRegister s channel w.1 w.2) s

/-- The loop that reads the sectors. -/
def readData (host : IdeHost) (channel : UInt8) (bus : UInt16) : ℕ → UInt32 → Ide → UInt8 × Ide
  | 0, _, s => (0, s)
  | n + 1, buffer, s =>
      let err := idePolling host s channel true
      if err.1 ≠ 0 then err
      else readData host channel bus n (buffer + 256 * 2) (err.2.emit (.insw bus buffer))

/-- The loop that writes the sectors. -/
def writeData (host : IdeHost) (channel : UInt8) (bus : UInt16) : ℕ → UInt32 → Ide → Ide
  | 0, _, s => s
  | n + 1, buffer, s =>
      let s := (idePolling host s channel false).2
      writeData host channel bus n (buffer + 256 * 2) (s.emit (.outsw bus buffer))

/-- `ide_ata_access` is called, and sets `g_ide_irq_invoked`. -/
def Ide.beginCall (s : Ide) (call : AtaCall) : Ide :=
  { s.look call.drive.toNat with calls := s.calls ++ [call], irqInvoked := 0 }

/-- The lines of `ide_ata_access` up to the waiting for the drive. -/
def beginAccess (host : IdeHost) (s : Ide) (call : AtaCall) : Ide :=
  let channel := (s.devices call.drive.toNat).channel
  let s := s.beginCall call
  let s := s.setNoIntr channel.toNat (s.irqInvoked.toUInt16 + 0x02)
  waitWhileBusy host (ideWriteRegister s channel ataRegControl 0x02) channel

/-- `ide_ata_access`. -/
def ideAtaAccess (host : IdeHost) (s : Ide) (direction : AtaDirection) (drive : UInt8)
    (lba : UInt32) (numSectors : UInt8) (buffer : UInt32) : UInt8 × Ide :=
  let device := s.devices drive.toNat
  let channel := device.channel
  let bus := (s.channels channel.toNat).base
  let mode := lbaMode lba device.features
  let s := ideWriteRegisters (beginAccess host s ⟨direction, drive, lba, numSectors⟩) channel
    (commandWrites device.drive mode direction lba numSectors)
  match direction with
  | .read => readData host channel bus numSectors.toNat buffer s
  | .write =>
      let s := writeData host channel bus numSectors.toNat buffer s
      let s := ideWriteRegister s channel ataRegCommand (cacheFlush mode)
      (0, (idePolling host s channel false).2)

/-- The codes for the bits of the error register, of which the last one counts. -/
def errorCode (st : UInt8) : UInt8 :=
  [(0x01, 7), (0x02, 3), (0x04, 20), (0x08, 3), (0x10, 21), (0x20, 3), (0x40, 22), (0x80, 13)].foldl
    (fun err bit => if st &&& bit.1 ≠ 0 then bit.2 else err) 2

/-- `ide_print_error`. -/
def idePrintError (host : IdeHost) (s : Ide) (drive err : UInt8) : UInt8 × Ide :=
  if err = 0 then (err, s)
  else
    let code :=
      if err = 1 then (19, s)
      else if err = 2 then
        let s := s.look drive.toNat
        let st := ideReadRegister host s (s.devices drive.toNat).channel ataRegError
        (errorCode st.1, st.2)
      else if err = 3 then (23, s)
      else if err = 4 then (8, s)
      else (err, s)
    (code.1, code.2.look drive.toNat)

/-- The body of `ide_read_sectors` and `ide_write_sectors`; `stale` is what the variable `err` holds
before it is set. -/
def ideSectors (direction : AtaDirection) (host : IdeHost) (s : Ide) (stale drive : UInt8)
    (numSectors : UInt8) (lba buffer : UInt32) : Int32 × Ide :=
  if maximumIdeDevices < drive then (-1, s)
  else
    let device := s.devices drive.toNat
    let s := s.look drive.toNat
    if device.reserved = 0 then (-1, s)
    else if device.size < lba + numSectors.toUInt32 ∧ device.type = ideAta then (-2, s)
    else
      let err :=
        if device.type = ideAta then ideAtaAccess host s direction drive lba numSectors buffer
        else (stale, s)
      let code := idePrintError host err.2 drive err.1
      (code.1.toUInt32.toInt32, code.2)

/-- `ide_read_sectors`. -/
def ideReadSectors (host : IdeHost) (s : Ide) (stale drive numSectors : UInt8)
    (lba buffer : UInt32) : Int32 × Ide :=
  ideSectors .read host s stale drive numSectors lba buffer

/-- `ide_write_sectors`. -/
def ideWriteSectors (host : IdeHost) (s : Ide) (stale drive numSectors : UInt8)
    (lba buffer : UInt32) : Int32 × Ide :=
  ideSectors .write host s stale drive numSectors lba buffer

end HalOS
