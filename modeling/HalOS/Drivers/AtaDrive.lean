import HalOS.Drivers.IdeTaskFile
import HalOS.Lib.BlockStore
import Mathlib.Data.Fin.VecNotation
import Mathlib.Tactic.FinCases

/-!
# Drives at the Ports

Two channels with two drives each, as machines that take the operations of the driver one by one. A
command takes its sectors from the task file; a sector then goes over the data port at a time, until
there are none left or one cannot be accessed. What a drive answers to a read of its status follows
from the operations before, and it is busy before that for as many reads as it likes.

The drives have no failures other than sectors that can be neither read nor written.

## Main results

* `loadSectors_storeSectors`: sectors in memory are loaded as they were stored.
-/

namespace HalOS

open BlockStore

/-! ### Memory -/

/-- The bytes of a sector. -/
abbrev Sector := Fin 512 → UInt8

/-- The bytes of memory. -/
abbrev Ram := UInt32 → UInt8

/-- The sector in memory at an address. -/
def loadSector (m : Ram) (buffer : UInt32) : Sector := fun i => m (buffer + UInt32.ofNat i)

def storeSector (m : Ram) (buffer : UInt32) (b : Sector) : Ram := fun a =>
  if h : (a - buffer).toNat < 512 then b ⟨(a - buffer).toNat, h⟩ else m a

/-- Sectors one after the other. -/
def loadSectors (m : Ram) : UInt32 → ℕ → List Sector
  | _, 0 => []
  | buffer, n + 1 => loadSector m buffer :: loadSectors m (buffer + 256 * 2) n

def storeSectors (m : Ram) : UInt32 → List Sector → Ram
  | _, [] => m
  | buffer, b :: bs => storeSectors (storeSector m buffer b) (buffer + 256 * 2) bs

section Memory

variable {m : Ram} {buffer a : UInt32} {bs : List Sector}

theorem loadSector_storeSector (m : Ram) (buffer : UInt32) (b : Sector) :
    loadSector (storeSector m buffer b) buffer = b := by
  funext i
  have hoffset : (buffer + UInt32.ofNat i - buffer).toNat = i := by
    rw [UInt32.add_comm, UInt32.add_sub_cancel, UInt32.toNat_ofNat']
    omega
  rw [loadSector, storeSector, dif_pos (by rw [hoffset]; exact i.isLt)]
  exact congrArg b (Fin.ext hoffset)

theorem length_loadSectors (m : Ram) (buffer : UInt32) (n : ℕ) :
    (loadSectors m buffer n).length = n := by
  induction n generalizing buffer with
  | zero => rfl
  | succ n ih => rw [loadSectors, List.length_cons, ih]

/-- The distance from the next sector on. -/
theorem toNat_sub_next (a buffer : UInt32) : (a - (buffer + 256 * 2)).toNat =
    if (a - buffer).toNat < 512 then 2 ^ 32 - 512 + (a - buffer).toNat
    else (a - buffer).toNat - 512 := by
  have hlt := (a - buffer).toNat_lt
  have hstep : a - (buffer + 256 * 2) = a - buffer - 512 := by
    rw [UInt32.sub_eq_add_neg, UInt32.neg_add, UInt32.sub_eq_add_neg, UInt32.sub_eq_add_neg,
      UInt32.sub_eq_add_neg, UInt32.add_assoc]
    rfl
  have hsize : (512 : UInt32).toNat = 512 := rfl
  rw [hstep, UInt32.toNat_sub, hsize]
  split_ifs
  · omega
  · omega

/-- Memory behind the sectors stays. -/
theorem storeSectors_of_apart (h : 512 * bs.length ≤ (a - buffer).toNat) :
    storeSectors m buffer bs a = m a := by
  induction bs generalizing m buffer with
  | nil => rfl
  | cons b bs ih =>
      rw [List.length_cons] at h
      have hnext := toNat_sub_next a buffer
      rw [if_neg (by omega)] at hnext
      rw [storeSectors, ih (by omega), storeSector, dif_neg (by omega)]

theorem loadSectors_storeSectors (m : Ram) (buffer : UInt32) (bs : List Sector)
    (h : 512 * bs.length ≤ 2 ^ 32) :
    loadSectors (storeSectors m buffer bs) buffer bs.length = bs := by
  induction bs generalizing m buffer with
  | nil => rfl
  | cons b bs ih =>
      rw [List.length_cons] at h
      rw [List.length_cons, loadSectors, storeSectors, ih _ _ (by omega)]
      congr 1
      refine Eq.trans (funext fun i => storeSectors_of_apart ?_) (loadSector_storeSector m buffer b)
      have hoffset : (buffer + UInt32.ofNat i - buffer).toNat = i := by
        rw [UInt32.add_comm, UInt32.add_sub_cancel, UInt32.toNat_ofNat']
        omega
      rw [toNat_sub_next, hoffset, if_pos i.isLt]
      omega

end Memory

/-! ### A channel -/

/-- What a channel is about to do: nothing, after a failure or not, or to move so many sectors from
this one on. -/
inductive AtaTransfer
  | idle (failed : Bool)
  | reading (sector left : ℕ)
  | writing (sector left : ℕ)
deriving DecidableEq, Repr

/-- A channel with the sectors of its two drives, of which `true` is the slave. -/
structure AtaChannel where
  task : TaskFile
  transfer : AtaTransfer
  drives : Bool → ℕ → Option Sector

namespace TaskFile

/-- The drive that is selected. -/
def slave (t : TaskFile) : Bool := t.device &&& 0x10 ≠ 0

/-- The mode of the address. -/
def mode (t : TaskFile) (extended : Bool) : LbaMode :=
  if extended then .lba48 else if t.device &&& 0x40 ≠ 0 then .lba28 else .chs

/-- How many sectors are asked for; zero stands for the number that does not fit the register. -/
def sectors (t : TaskFile) (extended : Bool) : ℕ :=
  if extended then
    if t.count = 0 ∧ t.countHigh = 0 then 2 ^ 16 else t.count.toNat + 2 ^ 8 * t.countHigh.toNat
  else if t.count = 0 then 2 ^ 8
  else t.count.toNat

end TaskFile

/-- The status register. -/
def AtaTransfer.status : AtaTransfer → UInt8
  | idle false => 0x50
  | idle true => 0x51
  | reading _ _ => 0x58
  | writing _ _ => 0x58

namespace AtaChannel

/-- The drive that is selected. -/
def selected (ch : AtaChannel) : ℕ → Option Sector := ch.drives ch.task.slave

/-- A read goes on at a sector if there is one. -/
def readOn (ch : AtaChannel) (sector left : ℕ) : AtaTransfer :=
  if left = 0 then .idle false
  else if (ch.selected sector).isSome then .reading sector left
  else .idle true

/-- A write goes on at any sector. -/
def writeOn (sector left : ℕ) : AtaTransfer :=
  if left = 0 then .idle false else .writing sector left

def goOn (ch : AtaChannel) (sector left : ℕ) : AtaDirection → AtaTransfer
  | .read => ch.readOn sector left
  | .write => writeOn sector left

/-- A transfer of the sectors in the task file. -/
def begin (ch : AtaChannel) (extended : Bool) (direction : AtaDirection) : AtaTransfer :=
  ch.goOn (ch.task.address (ch.task.mode extended)) (ch.task.sectors extended) direction

/-- A command is written; the last two are FLUSH CACHE and its extended form. -/
def command (ch : AtaChannel) (cmd : UInt8) : AtaTransfer :=
  if cmd = sectorsCommand false .read then ch.begin false .read
  else if cmd = sectorsCommand true .read then ch.begin true .read
  else if cmd = sectorsCommand false .write then ch.begin false .write
  else if cmd = sectorsCommand true .write then ch.begin true .write
  else if cmd = 0xE7 ∨ cmd = 0xEA then .idle false
  else .idle true

/-- The sector at the data port. -/
def data (ch : AtaChannel) : Option Sector :=
  match ch.transfer with
  | .reading sector _ => ch.selected sector
  | _ => none

/-- A sector has been read from the data port. -/
def taken (ch : AtaChannel) : AtaChannel :=
  match ch.transfer with
  | .reading sector left => { ch with transfer := ch.readOn (sector + 1) (left - 1) }
  | _ => ch

/-- A sector has been written to the data port. -/
def given (ch : AtaChannel) (b : Sector) : AtaChannel :=
  match ch.transfer with
  | .writing sector left =>
      if (ch.selected sector).isSome then
        { ch with
          drives := Function.update ch.drives ch.task.slave
            (Function.update ch.selected sector (some b))
          transfer := writeOn (sector + 1) (left - 1) }
      else { ch with transfer := .idle true }
  | _ => ch

/-- An operation on a port, with the registers of the channel at `base`. -/
def step (base : UInt16) (m : Ram) (ch : AtaChannel) : PortOp → AtaChannel
  | .outb port data =>
      if port = base + 7 then { ch with transfer := ch.command data }
      else { ch with task := ch.task.write base port data }
  | .inb _ => ch
  | .insw port _ => if port = base then ch.taken else ch
  | .outsw port buffer => if port = base then ch.given (loadSector m buffer) else ch

end AtaChannel

/-! ### Both channels -/

/-- The primary channel and the secondary one, and memory. -/
structure AtaBus where
  channels : Fin 2 → AtaChannel
  ram : Ram

/-- Where `ata_init` takes the registers of the channels to be. -/
def ataBase : Fin 2 → UInt16 := ![0x1F0, 0x170]

def ataControl : Fin 2 → UInt16 := ![0x3F6, 0x376]

namespace AtaBus

/-- Memory after an operation. -/
def ramAfter (b : AtaBus) : PortOp → Ram
  | .insw port buffer =>
      if port = ataBase 0 then (b.channels 0).data.elim b.ram (storeSector b.ram buffer)
      else if port = ataBase 1 then (b.channels 1).data.elim b.ram (storeSector b.ram buffer)
      else b.ram
  | _ => b.ram

def step (b : AtaBus) (op : PortOp) : AtaBus where
  channels c := (b.channels c).step (ataBase c) b.ram op
  ram := b.ramAfter op

def run (b : AtaBus) (ops : List PortOp) : AtaBus := ops.foldl step b

/-- The byte that a port is read as; `other` stands for what is not a status register. -/
def answer (b : AtaBus) (other : UInt8) (port : UInt16) : UInt8 :=
  if port = ataBase 0 + 7 then (b.channels 0).transfer.status
  else if port = ataBase 1 + 7 then (b.channels 1).transfer.status
  else other

/-- The drives, as the driver meets them. -/
def host (b : AtaBus) (other : List PortOp → UInt8) (busyReads : List PortOp → ℕ) : IdeHost where
  answer ops :=
    match ops.getLast? with
    | some (.inb port) => (b.run ops).answer (other ops) port
    | _ => other ops
  busyReads := busyReads

/-- The sectors of a drive. -/
def platter (b : AtaBus) (c : Fin 2) (slave : Bool) : ℕ → Option Sector :=
  (b.channels c).drives slave

/-- One channel is another one, and memory too. -/
def set (b : AtaBus) (c : Fin 2) (ch : AtaChannel) (m : Ram) : AtaBus :=
  ⟨Function.update b.channels c ch, m⟩

end AtaBus

end HalOS
