import HalOS.Lib.Descent
import Mathlib.Tactic.Common

/-!
# The PCI Scan

`pci_get_device` and the functions under it. A configuration space gives the bytes of each function
of each device of each bus. `pci_scan_bus` goes through the devices of a bus, and a bridge that it
comes to makes it scan the bus behind, whose answer is dropped. The scan is computed with fuel, a
unit for each bus it is inside of.

## Main results

* `pciScanBus_eq`: the scan of a bus is a visit of it.
-/

namespace HalOS

open Descent

/-! ### Data -/

/-- `pci_dev_t`, its bit fields from the lowest up. -/
structure PciDev where
  offset : BitVec 2
  field : BitVec 6
  function : BitVec 3
  device : BitVec 5
  bus : BitVec 8
  reserved : BitVec 7
  enable : BitVec 1
deriving DecidableEq

/-- The other member of the union. -/
def PciDev.bits (dev : PciDev) : BitVec 32 :=
  dev.enable ++ dev.reserved ++ dev.bus ++ dev.device ++ dev.function ++ dev.field ++ dev.offset

/-- `dev_zero`. -/
def devZero : PciDev := ⟨0, 0, 0, 0, 0, 0, 0⟩

/-- The designation of a function. -/
def functionOf (bus : BitVec 8) (device : BitVec 5) (function : BitVec 3) : PciDev :=
  { devZero with bus := bus, device := device, function := function }

/-- The bytes of the functions, by bus, device, function and offset. -/
abbrev ConfigSpace := BitVec 8 → BitVec 5 → BitVec 3 → BitVec 8 → UInt8

/-- What ends a scan without an answer. -/
inductive PciFault
  | outOfFuel
deriving DecidableEq, Repr

abbrev pciVendorId : BitVec 32 := 0x00
abbrev pciDeviceId : BitVec 32 := 0x02
abbrev pciSubclass : BitVec 32 := 0x0a
abbrev pciClass : BitVec 32 := 0x0b
abbrev pciSecondaryBus : BitVec 32 := 0x19

abbrev pciTypeBridge : UInt32 := 0x0604
abbrev pciNone : UInt32 := 0xFFFF
abbrev devicePerBus : ℕ := 32
abbrev functionPerDevice : ℕ := 32

/-- The sizes that `pci_init` puts into `pci_size_map`. -/
def pciInit : List (BitVec 32 × ℕ) :=
  [(0x00, 2), (0x02, 2), (0x04, 2), (0x06, 2), (0x0a, 1), (0x0b, 1), (0x0c, 1), (0x0d, 1),
    (0x0e, 1), (0x0f, 1), (0x10, 4), (0x14, 4), (0x18, 4), (0x1C, 4), (0x20, 4), (0x24, 4),
    (0x3C, 1), (0x19, 1)]

/-- `pci_size_map[field]`. -/
def pciSizeMap (field : BitVec 32) : ℕ := (pciInit.lookup field).getD 0

/-! ### Reading -/

/-- The byte at `PCI_CONFIG_DATA + port` for the address in `PCI_CONFIG_ADDRESS`. -/
def inportb (config : ConfigSpace) (address : PciDev) (port : BitVec 2) : UInt8 :=
  config address.bus address.device address.function (address.field ++ port)

def inports (config : ConfigSpace) (address : PciDev) (port : BitVec 2) : UInt16 :=
  (inportb config address (port + 1)).toUInt16 <<< 8 ||| (inportb config address port).toUInt16

def inportl (config : ConfigSpace) (address : PciDev) : UInt32 :=
  (inports config address 2).toUInt32 <<< 16 ||| (inports config address 0).toUInt32

/-- `pci_read`. -/
def pciRead (config : ConfigSpace) (dev : PciDev) (field : BitVec 32) : UInt32 :=
  let dev := { dev with field := ((field &&& 0xFC) >>> 2).setWidth 6, enable := 1 }
  match pciSizeMap field with
  | 1 => (inportb config dev ((field &&& 3).setWidth 2)).toUInt32
  | 2 => (inports config dev ((field &&& 2).setWidth 2)).toUInt32
  | 4 => inportl config dev
  | _ => 0xFFFFFFFF

def getDeviceType (config : ConfigSpace) (dev : PciDev) : UInt32 :=
  pciRead config dev pciClass <<< 8 ||| pciRead config dev pciSubclass

def getSecondaryBus (config : ConfigSpace) (dev : PciDev) : UInt32 :=
  pciRead config dev pciSecondaryBus

/-! ### Scanning -/

section

variable (config : ConfigSpace) (scanBus : ℕ → Except PciFault PciDev)
  (vendorId deviceId : UInt16) (deviceType : Int32)

/-- What `pci_scan_function` and `pci_scan_bus` do about a bridge. -/
def scanBehind (dev : PciDev) : Except PciFault Unit :=
  if getDeviceType config dev = pciTypeBridge then do
    let _ ← scanBus (getSecondaryBus config dev).toNat
    .ok ()
  else .ok ()

/-- `pci_scan_function`, with `pci_scan_bus` for the buses behind bridges. -/
def pciScanFunction (bus device function : ℕ) : Except PciFault PciDev := do
  let dev := functionOf (.ofNat 8 bus) (.ofNat 5 device) (.ofNat 3 function)
  scanBehind config scanBus dev
  if deviceType = -1 ∨ deviceType.toUInt32 = getDeviceType config dev then
    let devId := pciRead config dev pciDeviceId
    let vendId := pciRead config dev pciVendorId
    if vendId = vendorId.toUInt32 ∧ devId = deviceId.toUInt32 then .ok dev else .ok devZero
  else .ok devZero

/-- `pci_scan_device`. -/
def pciScanDevice (bus device : ℕ) : Except PciFault PciDev :=
  let dev := functionOf (.ofNat 8 bus) (.ofNat 5 device) 0
  if pciRead config dev pciVendorId = pciNone then .ok devZero
  else do
    let t ← (List.range functionPerDevice).findSomeM? fun function =>
      let dev := { dev with function := .ofNat 3 function }
      if pciRead config dev pciVendorId ≠ pciNone then do
        let t ← pciScanFunction config scanBus vendorId deviceId deviceType bus device function
        .ok (if t.bits ≠ 0 then some t else none)
      else .ok none
    .ok (t.getD devZero)

/-- `pci_scan_bus`. -/
def pciScanBus : ℕ → ℕ → Except PciFault PciDev
  | 0, _ => .error .outOfFuel
  | fuel + 1, bus => do
      let t ← (List.range devicePerBus).findSomeM? fun device => do
        let t ← pciScanDevice config (pciScanBus fuel) vendorId deviceId deviceType bus device
        if t.bits ≠ 0 then
          scanBehind config (pciScanBus fuel) t
          .ok (some t)
        else .ok none
      .ok (t.getD devZero)

/-- `pci_get_device`. -/
def pciGetDevice (fuel : ℕ) : Except PciFault PciDev := do
  let t ← pciScanBus config vendorId deviceId deviceType fuel 0
  if t.bits ≠ 0 then .ok t
  else
    let t ← (List.range' 1 255).findSomeM? fun bus => do
      let t ← pciScanBus config vendorId deviceId deviceType fuel bus
      .ok (if t.bits ≠ 0 then some t else none)
    .ok (t.getD devZero)

end

/-! ### What is read -/

/-- The word at an offset of a function. -/
def word (config : ConfigSpace) (bus : BitVec 8) (device : BitVec 5) (function : BitVec 3)
    (offset : BitVec 8) : UInt16 :=
  (config bus device function (offset + 1)).toUInt16 <<< 8 |||
    (config bus device function offset).toUInt16

section

variable {config : ConfigSpace} (dev : PciDev)

/-- A field of one byte. -/
theorem pciRead_byte {field : BitVec 32} {offset : BitVec 8} (hsize : pciSizeMap field = 1)
    (hoffset : ((field &&& 0xFC) >>> 2).setWidth 6 ++ (field &&& 3).setWidth 2 = offset) :
    pciRead config dev field = (config dev.bus dev.device dev.function offset).toUInt32 := by
  subst hoffset
  simp only [pciRead, hsize, inportb]

/-- A field of two bytes. -/
theorem pciRead_word {field : BitVec 32} {offset : BitVec 8} (hsize : pciSizeMap field = 2)
    (hlow : ((field &&& 0xFC) >>> 2).setWidth 6 ++ (field &&& 2).setWidth 2 = offset)
    (hhigh : ((field &&& 0xFC) >>> 2).setWidth 6 ++ ((field &&& 2).setWidth 2 + 1) = offset + 1) :
    pciRead config dev field = (word config dev.bus dev.device dev.function offset).toUInt32 := by
  subst hlow
  simp only [pciRead, hsize, inports, inportb, word, hhigh]

theorem pciRead_vendorId :
    pciRead config dev pciVendorId = (word config dev.bus dev.device dev.function 0).toUInt32 :=
  pciRead_word dev (by decide) (by decide) (by decide)

theorem pciRead_deviceId :
    pciRead config dev pciDeviceId = (word config dev.bus dev.device dev.function 2).toUInt32 :=
  pciRead_word dev (by decide) (by decide) (by decide)

theorem pciRead_secondaryBus :
    pciRead config dev pciSecondaryBus =
      (config dev.bus dev.device dev.function 0x19).toUInt32 :=
  pciRead_byte dev (by decide) (by decide)

end

/-! ### The designation zero -/

theorem append_eq_zero_iff {m n : ℕ} {x : BitVec m} {y : BitVec n} :
    x ++ y = 0 ↔ x = 0 ∧ y = 0 := by
  simp only [← BitVec.toNat_inj, BitVec.toNat_append, BitVec.ofNat_eq_ofNat, BitVec.toNat_ofNat,
    Nat.zero_mod, Nat.or_eq_zero_iff, Nat.shiftLeft_eq, Nat.mul_eq_zero, Nat.two_pow_pos,
    Nat.ne_of_gt, or_false]

theorem bits_eq_zero_iff {dev : PciDev} : dev.bits = 0 ↔ dev = devZero := by
  obtain ⟨offset, field, function, device, bus, reserved, enable⟩ := dev
  change (enable ++ reserved ++ bus ++ device ++ function ++ field ++ offset :
    BitVec (1 + 7 + 8 + 5 + 3 + 6 + 2)) = 0 ↔ _
  simp only [append_eq_zero_iff, devZero, PciDev.mk.injEq]
  tauto

theorem functionOf_eq_devZero_iff {bus : BitVec 8} {device : BitVec 5} {function : BitVec 3} :
    functionOf bus device function = devZero ↔ bus = 0 ∧ device = 0 ∧ function = 0 := by
  simp only [functionOf, devZero, PciDev.mk.injEq]
  tauto

/-! ### The events of a scan -/

section

variable (config : ConfigSpace)

/-- There is a function there: its vendor id is not all ones. -/
def Present (bus : BitVec 8) (device : BitVec 5) (function : BitVec 3) : Prop :=
  word config bus device function 0 ≠ 0xFFFF

/-- The function is a bridge. -/
def IsBridge (bus : BitVec 8) (device : BitVec 5) (function : BitVec 3) : Prop :=
  getDeviceType config (functionOf bus device function) = pciTypeBridge

/-- The number of the bus behind a bridge. -/
def secondaryBus (bus : BitVec 8) (device : BitVec 5) (function : BitVec 3) : BitVec 8 :=
  (config bus device function 0x19).toBitVec

variable (vendorId deviceId : UInt16) (deviceType : Int32)

/-- The function has the ids and the type asked for. -/
def Matches (bus : BitVec 8) (device : BitVec 5) (function : BitVec 3) : Prop :=
  (deviceType = -1 ∨
      deviceType.toUInt32 = getDeviceType config (functionOf bus device function)) ∧
    word config bus device function 0 = vendorId ∧ word config bus device function 2 = deviceId

/-- The scan of a bus ends with such a function, unless its designation is zero. -/
def Answers (bus : BitVec 8) (device : BitVec 5) (function : BitVec 3) : Prop :=
  Matches config vendorId deviceId deviceType bus device function ∧
    functionOf bus device function ≠ devZero

instance (bus : BitVec 8) (device : BitVec 5) (function : BitVec 3) :
    Decidable (Present config bus device function) := inferInstanceAs (Decidable (_ ≠ _))

instance (bus : BitVec 8) (device : BitVec 5) (function : BitVec 3) :
    Decidable (IsBridge config bus device function) := inferInstanceAs (Decidable (_ = _))

instance (bus : BitVec 8) (device : BitVec 5) (function : BitVec 3) :
    Decidable (Matches config vendorId deviceId deviceType bus device function) :=
  inferInstanceAs (Decidable (_ ∧ _))

instance (bus : BitVec 8) (device : BitVec 5) (function : BitVec 3) :
    Decidable (Answers config vendorId deviceId deviceType bus device function) :=
  inferInstanceAs (Decidable (_ ∧ _))

/-- The function is a bridge, and then the bus behind it is scanned; it is what is looked for, and
then the scan ends. -/
def functionEvents (bus : BitVec 8) (device : BitVec 5) (function : BitVec 3) :
    List (Event (BitVec 8) PciDev) :=
  if Present config bus device function then
    (if IsBridge config bus device function then
      [.visit (secondaryBus config bus device function)] else []) ++
    (if Answers config vendorId deviceId deviceType bus device function then
      [.answer (functionOf bus device function)] else [])
  else []

/-- A device without a function 0 is left out. -/
def deviceEvents (bus : BitVec 8) (device : BitVec 5) : List (Event (BitVec 8) PciDev) :=
  if Present config bus device 0 then
    (List.range functionPerDevice).flatMap fun function =>
      functionEvents config vendorId deviceId deviceType bus device (.ofNat 3 function)
  else []

def busEvents (bus : BitVec 8) : List (Event (BitVec 8) PciDev) :=
  (List.range devicePerBus).flatMap fun device =>
    deviceEvents config vendorId deviceId deviceType bus (.ofNat 5 device)

end

section

variable {config : ConfigSpace} {vendorId deviceId : UInt16} {deviceType : Int32} {bus : BitVec 8}
  {device : BitVec 5} {function : BitVec 3}

/-- The answer of a function is itself. -/
theorem answer_functionEvents :
    answer (functionEvents config vendorId deviceId deviceType bus device function) =
      if Present config bus device function ∧
        Answers config vendorId deviceId deviceType bus device function
      then some (functionOf bus device function) else none := by
  by_cases hpresent : Present config bus device function <;>
    by_cases hbridge : IsBridge config bus device function <;>
    by_cases hanswers : Answers config vendorId deviceId deviceType bus device function <;>
    simp [functionEvents, answer, hpresent, hbridge, hanswers]

theorem answer_functionEvents_eq_some {t : PciDev} :
    answer (functionEvents config vendorId deviceId deviceType bus device function) = some t ↔
      (Present config bus device function ∧
        Answers config vendorId deviceId deviceType bus device function) ∧
        functionOf bus device function = t := by
  rw [answer_functionEvents, Option.ite_none_right_eq_some, Option.some.injEq]

theorem answer_functionEvents_eq_none :
    answer (functionEvents config vendorId deviceId deviceType bus device function) = none ↔
      ¬ (Present config bus device function ∧
        Answers config vendorId deviceId deviceType bus device function) := by
  rw [answer_functionEvents, ite_eq_right_iff]
  exact imp_congr_right fun _ => ⟨nofun, nofun⟩

/-- A bridge makes the bus behind it be visited. -/
theorem mem_visited_functionEvents {c : BitVec 8} :
    c ∈ visited (functionEvents config vendorId deviceId deviceType bus device function) ↔
      Present config bus device function ∧ IsBridge config bus device function ∧
        c = secondaryBus config bus device function := by
  by_cases hpresent : Present config bus device function <;>
    by_cases hbridge : IsBridge config bus device function <;>
    by_cases hanswers : Answers config vendorId deviceId deviceType bus device function <;>
    simp [functionEvents, visited, hpresent, hbridge, hanswers]

end

/-! ### The scan as a visit -/

section

variable {config : ConfigSpace} {vendorId deviceId : UInt16} {deviceType : Int32}
  {f : BitVec 8 → Except PciFault (Option PciDev)} {bus : BitVec 8} {device : BitVec 5}
  {function : BitVec 3}

/-- The scans of the buses behind, as visits. -/
def scansBy (f : BitVec 8 → Except PciFault (Option PciDev)) (bus : ℕ) : Except PciFault PciDev :=
  (f (.ofNat 8 bus)).map (·.getD devZero)

theorem pciRead_ne_pciNone_iff :
    pciRead config (functionOf bus device function) pciVendorId ≠ pciNone ↔
      Present config bus device function := by
  rw [pciRead_vendorId]
  exact (UInt16.toUInt32_inj (b := 0xFFFF)).not

theorem ofNat_getSecondaryBus :
    BitVec.ofNat 8 (getSecondaryBus config (functionOf bus device function)).toNat =
      secondaryBus config bus device function := by
  rw [getSecondaryBus, pciRead_secondaryBus, UInt8.toNat_toUInt32]
  exact BitVec.ofNat_toNat _ _

theorem scanBehind_functionOf :
    scanBehind config (scansBy f) (functionOf bus device function) =
      if IsBridge config bus device function then
        (f (secondaryBus config bus device function)).map fun _ => ()
      else .ok () := by
  rw [scanBehind, scansBy, ofNat_getSecondaryBus]
  refine if_congr Iff.rfl ?_ rfl
  cases f (secondaryBus config bus device function) with
  | error e => rfl
  | ok t => rfl

/-- `pci_scan_function` behind the bridge. -/
theorem pciScanFunction_eq (b d n : ℕ) (hbus : .ofNat 8 b = bus) (hdevice : .ofNat 5 d = device)
    (hfunction : .ofNat 3 n = function) :
    pciScanFunction config (scansBy f) vendorId deviceId deviceType b d n =
      scanBehind config (scansBy f) (functionOf bus device function) >>= fun _ =>
        .ok (if Matches config vendorId deviceId deviceType bus device function then
          functionOf bus device function else devZero) := by
  subst hbus hdevice hfunction
  rw [pciScanFunction]
  congr 1
  funext _
  by_cases htype : deviceType = -1 ∨ deviceType.toUInt32 =
      getDeviceType config (functionOf (.ofNat 8 b) (.ofNat 5 d) (.ofNat 3 n))
  · rw [if_pos htype, pciRead_vendorId, pciRead_deviceId, apply_ite Except.ok]
    refine if_congr ⟨fun h => ⟨htype, ?_⟩, fun h => ?_⟩ rfl rfl
    · exact ⟨UInt16.toUInt32_inj.mp h.1, UInt16.toUInt32_inj.mp h.2⟩
    · exact ⟨UInt16.toUInt32_inj.mpr h.2.1, UInt16.toUInt32_inj.mpr h.2.2⟩
  · rw [if_neg htype, if_neg fun h => htype h.1]

/-- An answer, if it is one, is different from zero. -/
theorem some_of_matches :
    (if (if Matches config vendorId deviceId deviceType bus device function then
        functionOf bus device function else devZero).bits ≠ 0 then
      some (if Matches config vendorId deviceId deviceType bus device function then
        functionOf bus device function else devZero) else none) =
    if Answers config vendorId deviceId deviceType bus device function then
      some (functionOf bus device function) else none := by
  simp only [Answers, ne_eq, bits_eq_zero_iff]
  by_cases hmatches : Matches config vendorId deviceId deviceType bus device function
  · simp only [hmatches, if_true, true_and]
  · simp only [hmatches, if_false, not_true, false_and]

theorem perform_answers :
    perform f (if Answers config vendorId deviceId deviceType bus device function then
      [.answer (functionOf bus device function)] else []) =
    .ok (if Answers config vendorId deviceId deviceType bus device function then
      some (functionOf bus device function) else none) := by
  by_cases h : Answers config vendorId deviceId deviceType bus device function
  · rw [if_pos h, if_pos h]
    rfl
  · rw [if_neg h, if_neg h]
    rfl

/-- What the loop of `pci_scan_device` does about a function. -/
theorem functionRound_eq (b d n : ℕ) (hbus : .ofNat 8 b = bus) (hdevice : .ofNat 5 d = device)
    (hfunction : .ofNat 3 n = function) :
    (if pciRead config (functionOf bus device function) pciVendorId ≠ pciNone then do
        let t ← pciScanFunction config (scansBy f) vendorId deviceId deviceType b d n
        .ok (if t.bits ≠ 0 then some t else none)
      else .ok none : Except PciFault (Option PciDev)) =
    perform f (functionEvents config vendorId deviceId deviceType bus device function) := by
  rw [functionEvents]
  by_cases hpresent : Present config bus device function
  · rw [if_pos (pciRead_ne_pciNone_iff.mpr hpresent), if_pos hpresent,
      pciScanFunction_eq b d n hbus hdevice hfunction, scanBehind_functionOf, perform_append,
      perform_answers, ← some_of_matches]
    by_cases hbridge : IsBridge config bus device function
    · rw [if_pos hbridge, if_pos hbridge, perform]
      cases f (secondaryBus config bus device function) with
      | error e => rfl
      | ok t => rfl
    · rw [if_neg hbridge, if_neg hbridge]
      rfl
  · rw [if_neg (pciRead_ne_pciNone_iff.not.mpr hpresent), if_neg hpresent]
    rfl

/-- `pci_scan_device` performs the events of the device. -/
theorem pciScanDevice_eq (b d : ℕ) (hbus : .ofNat 8 b = bus) (hdevice : .ofNat 5 d = device) :
    pciScanDevice config (scansBy f) vendorId deviceId deviceType b d =
      (perform f (deviceEvents config vendorId deviceId deviceType bus device)).map
        (·.getD devZero) := by
  subst hbus hdevice
  rw [pciScanDevice, deviceEvents]
  by_cases hpresent : Present config (.ofNat 8 b) (.ofNat 5 d) 0
  · rw [if_neg (pciRead_ne_pciNone_iff.mpr hpresent), if_pos hpresent]
    have hloop := findSomeM?_eq_perform
      (fun n => (functionRound_eq b d n rfl rfl rfl : _ = perform f (functionEvents config vendorId
        deviceId deviceType (.ofNat 8 b) (.ofNat 5 d) (.ofNat 3 n)))) (List.range functionPerDevice)
    refine (congrArg (· >>= fun t => .ok (t.getD devZero)) hloop).trans ?_
    cases perform f ((List.range functionPerDevice).flatMap _) with
    | error e => rfl
    | ok t => rfl
  · rw [if_pos (not_not.mp (pciRead_ne_pciNone_iff.not.mpr hpresent)), if_neg hpresent]
    rfl

/-- An answer is not zero. -/
theorem ne_devZero_of_answer {t : PciDev}
    (hanswer : answer (deviceEvents config vendorId deviceId deviceType bus device) = some t) :
    t ≠ devZero := by
  rw [deviceEvents] at hanswer
  by_cases hpresent : Present config bus device 0
  · rw [if_pos hpresent] at hanswer
    obtain ⟨i, hi, hbefore, ht⟩ := answer_range_eq_some.mp hanswer
    obtain ⟨⟨-, -, hne⟩, rfl⟩ := answer_functionEvents_eq_some.mp ht
    exact hne
  · rw [if_neg hpresent] at hanswer
    cases hanswer

theorem ne_devZero_of_answer_bus {t : PciDev}
    (hanswer : answer (busEvents config vendorId deviceId deviceType bus) = some t) :
    t ≠ devZero := by
  obtain ⟨i, hi, hbefore, ht⟩ := answer_range_eq_some.mp hanswer
  exact ne_devZero_of_answer ht

/-- The bus behind a bridge that answers has been visited before it does. -/
theorem mem_visited_of_answer {t : PciDev}
    (hanswer : answer (deviceEvents config vendorId deviceId deviceType bus device) = some t)
    (hbridge : getDeviceType config t = pciTypeBridge) :
    BitVec.ofNat 8 (getSecondaryBus config t).toNat ∈
      visited (deviceEvents config vendorId deviceId deviceType bus device) := by
  rw [deviceEvents] at hanswer ⊢
  by_cases hpresent : Present config bus device 0
  · rw [if_pos hpresent] at hanswer ⊢
    obtain ⟨i, hi, hbefore, ht⟩ := answer_range_eq_some.mp hanswer
    obtain ⟨⟨hfunction, -⟩, rfl⟩ := answer_functionEvents_eq_some.mp ht
    exact mem_visited_range.mpr ⟨i, hi, hbefore,
      mem_visited_functionEvents.mpr ⟨hfunction, hbridge, ofNat_getSecondaryBus⟩⟩
  · rw [if_neg hpresent] at hanswer
    cases hanswer

/-- What the loop of `pci_scan_bus` does about a device. -/
theorem deviceRound_eq (b d : ℕ) (hbus : .ofNat 8 b = bus) (hdevice : .ofNat 5 d = device) :
    (do
      let t ← pciScanDevice config (scansBy f) vendorId deviceId deviceType b d
      if t.bits ≠ 0 then
        scanBehind config (scansBy f) t
        .ok (some t)
      else .ok none : Except PciFault (Option PciDev)) =
    perform f (deviceEvents config vendorId deviceId deviceType bus device) := by
  rw [pciScanDevice_eq b d hbus hdevice]
  cases hperform : perform f (deviceEvents config vendorId deviceId deviceType bus device) with
  | error e => rfl
  | ok r =>
      obtain ⟨rfl, hvisited⟩ := perform_eq_ok_iff.mp hperform
      cases hanswer : answer (deviceEvents config vendorId deviceId deviceType bus device) with
      | none => rfl
      | some t =>
          have hbits : t.bits ≠ 0 := bits_eq_zero_iff.not.mpr (ne_devZero_of_answer hanswer)
          have hbehind : scanBehind config (scansBy f) t = .ok () := by
            rw [scanBehind]
            by_cases hbridge : getDeviceType config t = pciTypeBridge
            · obtain ⟨r, hr⟩ := hvisited _ (mem_visited_of_answer hanswer hbridge)
              rw [if_pos hbridge, scansBy, hr]
              rfl
            · exact if_neg hbridge
          change (if t.bits ≠ 0 then scanBehind config (scansBy f) t >>= fun _ => .ok (some t)
            else .ok none) = _
          rw [if_pos hbits, hbehind]
          rfl

/-- **The scan of a bus** is a visit of it. -/
theorem pciScanBus_eq (fuel b : ℕ) :
    pciScanBus config vendorId deviceId deviceType fuel b =
      scansBy (descend (busEvents config vendorId deviceId deviceType) .outOfFuel fuel) b := by
  induction fuel generalizing b with
  | zero => rfl
  | succ fuel ih =>
      have hscans : pciScanBus config vendorId deviceId deviceType fuel =
          scansBy (descend (busEvents config vendorId deviceId deviceType) .outOfFuel fuel) :=
        funext ih
      have hloop := findSomeM?_eq_perform
        (fun d => (deviceRound_eq b d rfl rfl : _ = perform
          (descend (busEvents config vendorId deviceId deviceType) .outOfFuel fuel)
          (deviceEvents config vendorId deviceId deviceType (.ofNat 8 b) (.ofNat 5 d))))
        (List.range devicePerBus)
      rw [pciScanBus, hscans]
      refine (congrArg (· >>= fun t => .ok (t.getD devZero)) hloop).trans ?_
      rw [scansBy, descend, busEvents]
      cases perform (descend _ _ fuel) ((List.range devicePerBus).flatMap _) with
      | error e => rfl
      | ok t => rfl

/-- A bus, with its answer behind it. -/
def busRound (config : ConfigSpace) (vendorId deviceId : UInt16) (deviceType : Int32)
    (bus : BitVec 8) : List (Event (BitVec 8) PciDev) :=
  .visit bus ::
    (answer (busEvents config vendorId deviceId deviceType bus)).elim [] ([.answer ·])

@[simp]
theorem answer_busRound :
    answer (busRound config vendorId deviceId deviceType bus) =
      answer (busEvents config vendorId deviceId deviceType bus) := by
  rw [busRound, answer]
  cases answer (busEvents config vendorId deviceId deviceType bus) with
  | none => rfl
  | some t => rfl

@[simp]
theorem visited_busRound :
    visited (busRound config vendorId deviceId deviceType bus) = [bus] := by
  rw [busRound, visited]
  cases answer (busEvents config vendorId deviceId deviceType bus) with
  | none => rfl
  | some t => rfl

/-- The buses one behind the other. -/
def searchEvents (config : ConfigSpace) (vendorId deviceId : UInt16) (deviceType : Int32) :
    List (Event (BitVec 8) PciDev) :=
  (List.range 256).flatMap fun bus => busRound config vendorId deviceId deviceType (.ofNat 8 bus)

/-- What `pci_get_device` does about a bus. -/
theorem busRound_eq (fuel b : ℕ) :
    (do
      let t ← pciScanBus config vendorId deviceId deviceType fuel b
      .ok (if t.bits ≠ 0 then some t else none) : Except PciFault (Option PciDev)) =
    perform (descend (busEvents config vendorId deviceId deviceType) .outOfFuel fuel)
      (busRound config vendorId deviceId deviceType (.ofNat 8 b)) := by
  rw [pciScanBus_eq, scansBy, busRound, perform]
  cases hdescend : descend (busEvents config vendorId deviceId deviceType) PciFault.outOfFuel fuel
      (.ofNat 8 b) with
  | error e => rfl
  | ok r =>
      obtain rfl := descend_eq_ok hdescend
      cases hanswer : answer (busEvents config vendorId deviceId deviceType (.ofNat 8 b)) with
      | none => rfl
      | some t =>
          have hbits : t.bits ≠ 0 := bits_eq_zero_iff.not.mpr (ne_devZero_of_answer_bus hanswer)
          exact congrArg Except.ok (if_pos hbits)

/-- `pci_get_device` performs the visits of the buses. -/
theorem pciGetDevice_eq (fuel : ℕ) :
    pciGetDevice config vendorId deviceId deviceType fuel =
      (perform (descend (busEvents config vendorId deviceId deviceType) .outOfFuel fuel)
        (searchEvents config vendorId deviceId deviceType)).map (·.getD devZero) := by
  have hloop := findSomeM?_eq_perform
    (fun b => (busRound_eq fuel b : _ = perform
      (descend (busEvents config vendorId deviceId deviceType) PciFault.outOfFuel fuel) _))
    (List.range 256)
  rw [searchEvents, ← hloop, List.range_eq_range', List.range'_succ, List.findSomeM?_cons,
    pciGetDevice]
  cases pciScanBus config vendorId deviceId deviceType fuel 0 with
  | error e => rfl
  | ok t =>
      simp only [bind, Except.bind]
      by_cases hbits : t.bits ≠ 0
      · rw [if_pos hbits, if_pos hbits]
        rfl
      · rw [if_neg hbits, if_neg hbits]
        rfl

end

end HalOS
