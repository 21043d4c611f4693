import HalOS.Drivers.Pci
import Mathlib.Algebra.Group.Nat.Defs

/-!
# What the PCI Scan Finds, and when it Ends

The scan keeps no record of the buses it is inside of, so bridges that lead in a circle keep it
going. A function that ends the scan of a bus also keeps it from the bridges behind. The function
with all three numbers zero never ends it: its designation is the value for "not found".

## Main results

* `finishes_pciScanBus_iff`: the scan of a bus ends if no circle of bridges is come to.
* `pciScan_ends_iff`: so does the search over all buses.
* `findsEvery_iff`: a function that is there is found unless it is the one at zero, alone.
-/

namespace HalOS

open Fuel (Finishes finishes_map_iff)
open Descent
open Relation (ReflTransGen TransGen)

/-! ### Functions and bridges of a configuration space -/

section

variable (config : ConfigSpace)

/-- There is a function there, on a device that has a function 0. -/
def OnDevice (bus : BitVec 8) (device : BitVec 5) (function : BitVec 3) : Prop :=
  Present config bus device 0 ∧ Present config bus device function

/-- A bridge on the one bus leads to the other. -/
def BridgeLink (bus behind : BitVec 8) : Prop :=
  ∃ device function, OnDevice config bus device function ∧ IsBridge config bus device function ∧
    secondaryBus config bus device function = behind

/-- No way along the bridges comes round. -/
def AcyclicBridges : Prop := ∀ bus, ¬ TransGen (BridgeLink config) bus bus

variable (vendorId deviceId : UInt16)

/-- The function has these ids, and its device has a function 0. -/
def HasIds (bus : BitVec 8) (device : BitVec 5) (function : BitVec 3) : Prop :=
  Present config bus device 0 ∧ word config bus device function 0 = vendorId ∧
    word config bus device function 2 = deviceId

variable (deviceType : Int32)

/-- The scan of the bus ends with this function. -/
def EndsScan (bus : BitVec 8) (device : BitVec 5) (function : BitVec 3) : Prop :=
  OnDevice config bus device function ∧
    Answers config vendorId deviceId deviceType bus device function

/-- A bridge on the one bus leads to the other, and no function before it ends the scan. -/
def ScansBehind (bus behind : BitVec 8) : Prop :=
  ∃ device function, OnDevice config bus device function ∧ IsBridge config bus device function ∧
    secondaryBus config bus device function = behind ∧
    (∀ device' < device, ∀ function', ¬ EndsScan config vendorId deviceId deviceType bus device'
      function') ∧
    ∀ function' < function, ¬ EndsScan config vendorId deviceId deviceType bus device function'

end

/-! ### The events of a bus -/

section

variable {w n : ℕ} {β : Type}

theorem ofNat_toNat_self (x : BitVec w) : BitVec.ofNat w x.toNat = x := by
  rw [BitVec.ofNat_toNat, BitVec.setWidth_eq]

/-- The counters of the loops go through all numbers that a device, or a function, can have. -/
theorem answer_range_ofNat (g : BitVec w → List (Event (BitVec 8) β)) (hn : 2 ^ w ≤ n) :
    answer ((List.range n).flatMap fun i => g (.ofNat w i)) = none ↔ ∀ x, answer (g x) = none := by
  rw [answer_range_eq_none]
  constructor
  · intro h x
    exact ofNat_toNat_self x ▸ h x.toNat (x.isLt.trans_le hn)
  · exact fun h i _ => h _

theorem mem_visited_range_ofNat (g : BitVec w → List (Event (BitVec 8) β)) (hn : 2 ^ w ≤ n)
    {c : BitVec 8} :
    c ∈ visited ((List.range n).flatMap fun i => g (.ofNat w i)) ↔
      ∃ x, (∀ y < x, answer (g y) = none) ∧ c ∈ visited (g x) := by
  rw [mem_visited_range]
  constructor
  · rintro ⟨i, -, hbefore, hc⟩
    refine ⟨.ofNat w i, fun y hy => ?_, hc⟩
    rw [BitVec.lt_def, BitVec.toNat_ofNat] at hy
    exact ofNat_toNat_self y ▸ hbefore y.toNat (hy.trans_le (Nat.mod_le i _))
  · rintro ⟨x, hbefore, hc⟩
    refine ⟨x.toNat, x.isLt.trans_le hn, fun j hj => hbefore _ ?_, (ofNat_toNat_self x).symm ▸ hc⟩
    rw [BitVec.lt_def, BitVec.toNat_ofNat, Nat.mod_eq_of_lt (hj.trans x.isLt)]
    exact hj

end

section

variable {config : ConfigSpace} {vendorId deviceId : UInt16} {deviceType : Int32} {bus : BitVec 8}
  {device : BitVec 5} {function : BitVec 3}

/-- On a device with a function 0. -/
theorem endsScan_iff (hpresent : Present config bus device 0) :
    EndsScan config vendorId deviceId deviceType bus device function ↔
      Present config bus device function ∧
        Answers config vendorId deviceId deviceType bus device function :=
  ⟨fun h => ⟨h.1.2, h.2⟩, fun h => ⟨⟨hpresent, h.1⟩, h.2⟩⟩

theorem answer_deviceEvents_eq_none :
    answer (deviceEvents config vendorId deviceId deviceType bus device) = none ↔
      ∀ function, ¬ EndsScan config vendorId deviceId deviceType bus device function := by
  rw [deviceEvents]
  by_cases hpresent : Present config bus device 0
  · rw [if_pos hpresent, answer_range_ofNat (functionEvents config _ _ _ bus device) (by decide)]
    refine forall_congr' fun function => ?_
    exact answer_functionEvents_eq_none.trans (not_congr (endsScan_iff hpresent).symm)
  · rw [if_neg hpresent]
    exact iff_of_true rfl fun function h => hpresent h.1.1

/-- A device answers with one of its functions. -/
theorem endsScan_of_answer_deviceEvents {t : PciDev}
    (h : answer (deviceEvents config vendorId deviceId deviceType bus device) = some t) :
    ∃ function, EndsScan config vendorId deviceId deviceType bus device function ∧
      functionOf bus device function = t := by
  rw [deviceEvents] at h
  by_cases hpresent : Present config bus device 0
  · rw [if_pos hpresent] at h
    obtain ⟨i, -, -, ht⟩ := answer_range_eq_some.mp h
    obtain ⟨⟨hfunction, hanswers⟩, rfl⟩ := answer_functionEvents_eq_some.mp ht
    exact ⟨_, ⟨⟨hpresent, hfunction⟩, hanswers⟩, rfl⟩
  · rw [if_neg hpresent] at h
    cases h

theorem mem_visited_deviceEvents {behind : BitVec 8} :
    behind ∈ visited (deviceEvents config vendorId deviceId deviceType bus device) ↔
      ∃ function, (∀ function' < function,
          ¬ EndsScan config vendorId deviceId deviceType bus device function') ∧
        OnDevice config bus device function ∧ IsBridge config bus device function ∧
        secondaryBus config bus device function = behind := by
  rw [deviceEvents]
  by_cases hpresent : Present config bus device 0
  · rw [if_pos hpresent,
      mem_visited_range_ofNat (functionEvents config _ _ _ bus device) (by decide)]
    refine exists_congr fun function => and_congr (forall₂_congr fun function' _ => ?_) ?_
    · exact answer_functionEvents_eq_none.trans (not_congr (endsScan_iff hpresent).symm)
    · rw [mem_visited_functionEvents]
      constructor
      · rintro ⟨hfunction, hbridge, h⟩
        exact ⟨⟨hpresent, hfunction⟩, hbridge, h.symm⟩
      · rintro ⟨hon, hbridge, h⟩
        exact ⟨hon.2, hbridge, h.symm⟩
  · rw [if_neg hpresent]
    refine iff_of_false List.not_mem_nil ?_
    rintro ⟨function, -, hon, -⟩
    exact hpresent hon.1

/-- The answers of a bus. -/
theorem answer_busEvents_eq_none :
    answer (busEvents config vendorId deviceId deviceType bus) = none ↔
      ∀ device function, ¬ EndsScan config vendorId deviceId deviceType bus device function := by
  rw [busEvents, answer_range_ofNat (deviceEvents config _ _ _ bus) (by decide)]
  exact forall_congr' fun device => answer_deviceEvents_eq_none

theorem endsScan_of_answer_busEvents {t : PciDev}
    (h : answer (busEvents config vendorId deviceId deviceType bus) = some t) :
    ∃ device function, EndsScan config vendorId deviceId deviceType bus device function ∧
      functionOf bus device function = t := by
  obtain ⟨i, -, -, ht⟩ := answer_range_eq_some.mp h
  exact ⟨_, endsScan_of_answer_deviceEvents ht⟩

/-- **The visits of a bus** are the scans of the buses behind bridges that are come to. -/
theorem visits_busEvents_iff {behind : BitVec 8} :
    Visits (busEvents config vendorId deviceId deviceType) bus behind ↔
      ScansBehind config vendorId deviceId deviceType bus behind := by
  rw [Visits, busEvents, mem_visited_range_ofNat (deviceEvents config _ _ _ bus) (by decide)]
  refine exists_congr fun device => ?_
  rw [mem_visited_deviceEvents]
  constructor
  · rintro ⟨hdevices, function, hfunctions, hon, hbridge, hbehind⟩
    exact ⟨function, hon, hbridge, hbehind,
      fun device' hlt => answer_deviceEvents_eq_none.mp (hdevices device' hlt), hfunctions⟩
  · rintro ⟨function, hon, hbridge, hbehind, hdevices, hfunctions⟩
    exact ⟨fun device' hlt => answer_deviceEvents_eq_none.mpr (hdevices device' hlt),
      function, hfunctions, hon, hbridge, hbehind⟩

theorem visits_eq :
    Visits (busEvents config vendorId deviceId deviceType) =
      ScansBehind config vendorId deviceId deviceType :=
  funext fun _ => funext fun _ => propext visits_busEvents_iff

/-! ### When a scan ends -/

instance finiteBus : Finite (BitVec 8) :=
  Finite.of_injective BitVec.toFin fun _ _ => BitVec.eq_of_toFin_eq

/-- The scan comes to a bus from which it comes back to that bus. -/
def Circles (config : ConfigSpace) (vendorId deviceId : UInt16) (deviceType : Int32)
    (bus : BitVec 8) : Prop :=
  ∃ c, ReflTransGen (ScansBehind config vendorId deviceId deviceType) bus c ∧
    TransGen (ScansBehind config vendorId deviceId deviceType) c c

theorem finishes_visit_iff :
    Finishes PciFault.outOfFuel (fun fuel =>
        descend (busEvents config vendorId deviceId deviceType) .outOfFuel fuel bus) ↔
      ¬ Circles config vendorId deviceId deviceType bus := by
  rw [finishes_descend_iff, visits_eq, Circles]

/-- **The scan of a bus ends** if it comes to no circle of bridges. -/
theorem finishes_pciScanBus_iff (bus : ℕ) :
    Finishes .outOfFuel (fun fuel =>
        pciScanBus config vendorId deviceId deviceType fuel bus) ↔
      ¬ Circles config vendorId deviceId deviceType (.ofNat 8 bus) := by
  simp only [pciScanBus_eq, scansBy, finishes_map_iff, finishes_visit_iff]

/-- The search visits a bus if no bus before it has an answer. -/
theorem mem_visited_searchEvents :
    bus ∈ visited (searchEvents config vendorId deviceId deviceType) ↔
      ∀ bus' < bus, ∀ device function,
        ¬ EndsScan config vendorId deviceId deviceType bus' device function := by
  rw [searchEvents, mem_visited_range_ofNat (busRound config _ _ _) (by decide)]
  simp only [answer_busRound, visited_busRound, answer_busEvents_eq_none, List.mem_singleton]
  constructor
  · rintro ⟨b, hbefore, rfl⟩
    exact hbefore
  · exact fun h => ⟨bus, h, rfl⟩

/-- **The search over all buses ends** if none that it comes to leads to a circle. -/
theorem finishes_pciGetDevice_iff :
    Finishes .outOfFuel (fun fuel => pciGetDevice config vendorId deviceId deviceType fuel) ↔
      ∀ bus, (∀ bus' < bus, ∀ device function,
          ¬ EndsScan config vendorId deviceId deviceType bus' device function) →
        ¬ Circles config vendorId deviceId deviceType bus := by
  simp only [pciGetDevice_eq, finishes_map_iff, finishes_perform_iff, mem_visited_searchEvents,
    finishes_visit_iff]

/-! ### What is found -/

/-- With an id that is not all ones, and every type accepted. -/
theorem endsScan_any_iff (hvendor : vendorId ≠ 0xFFFF) :
    EndsScan config vendorId deviceId (-1) bus device function ↔
      HasIds config vendorId deviceId bus device function ∧
        functionOf bus device function ≠ devZero := by
  constructor
  · rintro ⟨⟨hpresent, -⟩, ⟨-, hids⟩, hne⟩
    exact ⟨⟨hpresent, hids⟩, hne⟩
  · rintro ⟨⟨hpresent, hid, hdevice⟩, hne⟩
    exact ⟨⟨hpresent, fun h => hvendor (hid.symm.trans h)⟩, ⟨Or.inl rfl, hid, hdevice⟩, hne⟩

/-- The search has no answer if no function ends a scan. -/
theorem answer_searchEvents_eq_none :
    answer (searchEvents config vendorId deviceId deviceType) = none ↔
      ∀ bus device function,
        ¬ EndsScan config vendorId deviceId deviceType bus device function := by
  rw [searchEvents, answer_range_ofNat (busRound config _ _ _) (by decide)]
  simp only [answer_busRound, answer_busEvents_eq_none]

/-- The answer of the search is a function that ends a scan. -/
theorem endsScan_of_answer_searchEvents {t : PciDev}
    (h : answer (searchEvents config vendorId deviceId deviceType) = some t) :
    EndsScan config vendorId deviceId deviceType t.bus t.device t.function ∧ t ≠ devZero := by
  obtain ⟨i, -, -, ht⟩ := answer_range_eq_some.mp h
  rw [answer_busRound] at ht
  obtain ⟨device, function, hends, rfl⟩ := endsScan_of_answer_busEvents ht
  exact ⟨hends, hends.2.2⟩

/-- Scans that answer or not only leave bridges out. -/
theorem ScansBehind.bridgeLink {behind : BitVec 8}
    (h : ScansBehind config vendorId deviceId deviceType bus behind) :
    BridgeLink config bus behind := by
  obtain ⟨device, function, hon, hbridge, hbehind, -⟩ := h
  exact ⟨device, function, hon, hbridge, hbehind⟩

theorem AcyclicBridges.not_circles (h : AcyclicBridges config) :
    ¬ Circles config vendorId deviceId deviceType bus := by
  rintro ⟨c, -, hc⟩
  have hmono : TransGen (ScansBehind config vendorId deviceId deviceType) ≤
      TransGen (BridgeLink config) := Relation.TransGen.mono fun _ _ => ScansBehind.bridgeLink
  exact h c (hmono c c hc)

/-- Without circles the search ends, and gives the answer. -/
theorem AcyclicBridges.exists_fuel (h : AcyclicBridges config) :
    ∃ fuel, pciGetDevice config vendorId deviceId deviceType fuel =
      .ok ((answer (searchEvents config vendorId deviceId deviceType)).getD devZero) := by
  have hends : Finishes PciFault.outOfFuel fun fuel =>
      perform (descend (busEvents config vendorId deviceId deviceType) .outOfFuel fuel)
        (searchEvents config vendorId deviceId deviceType) :=
    finishes_perform_iff.mpr fun bus _ => finishes_visit_iff.mpr h.not_circles
  obtain ⟨fuel, hfuel⟩ := hends
  refine ⟨fuel, ?_⟩
  rw [pciGetDevice_eq, perform_descend_ne_error_iff.mp hfuel]
  rfl

/-- The search gives something different from `dev_zero` if a function with these ids is there,
and then such a function. -/
def FindsEvery (config : ConfigSpace) (vendorId deviceId : UInt16) : Prop :=
  ∃ fuel t, pciGetDevice config vendorId deviceId (-1) fuel = .ok t ∧
    (t ≠ devZero ↔ ∃ bus device function, HasIds config vendorId deviceId bus device function) ∧
    (t ≠ devZero → HasIds config vendorId deviceId t.bus t.device t.function)

/-- The function at zero has these ids, and no other has. -/
def OnlyAtZero (config : ConfigSpace) (vendorId deviceId : UInt16) : Prop :=
  HasIds config vendorId deviceId 0 0 0 ∧
    ∀ bus device function, HasIds config vendorId deviceId bus device function →
      bus = 0 ∧ device = 0 ∧ function = 0

/-- What the search gives does not depend on the fuel. -/
theorem pciGetDevice_eq_ok {fuel : ℕ} {t : PciDev}
    (h : pciGetDevice config vendorId deviceId deviceType fuel = .ok t) :
    t = (answer (searchEvents config vendorId deviceId deviceType)).getD devZero := by
  rw [pciGetDevice_eq] at h
  cases hperform : perform (descend (busEvents config vendorId deviceId deviceType)
      PciFault.outOfFuel fuel) (searchEvents config vendorId deviceId deviceType) with
  | error e =>
      rw [hperform] at h
      cases h
  | ok r =>
      rw [hperform, (perform_eq_ok_iff.mp hperform).1] at h
      exact (Except.ok.inj h).symm

/-- The search gives something different from `dev_zero` if a function with these ids is there that
is not at zero. -/
theorem searched_ne_devZero_iff (hvendor : vendorId ≠ 0xFFFF) :
    (answer (searchEvents config vendorId deviceId (-1))).getD devZero ≠ devZero ↔
      ∃ bus device function, HasIds config vendorId deviceId bus device function ∧
        functionOf bus device function ≠ devZero := by
  cases hanswer : answer (searchEvents config vendorId deviceId (-1)) with
  | none =>
      refine iff_of_false (not_not.mpr rfl) ?_
      rintro ⟨bus, device, function, h⟩
      exact answer_searchEvents_eq_none.mp hanswer bus device function
        ((endsScan_any_iff hvendor).mpr h)
  | some t =>
      obtain ⟨hends, hne⟩ := endsScan_of_answer_searchEvents hanswer
      exact iff_of_true hne ⟨_, _, _, (endsScan_any_iff hvendor).mp hends⟩

/-- What it gives then is such a function. -/
theorem hasIds_of_searched (hvendor : vendorId ≠ 0xFFFF) {t : PciDev}
    (h : answer (searchEvents config vendorId deviceId (-1)) = some t) :
    HasIds config vendorId deviceId t.bus t.device t.function :=
  ((endsScan_any_iff hvendor).mp (endsScan_of_answer_searchEvents h).1).1

/-- What is at zero alone is not found. -/
theorem OnlyAtZero.not_findsEvery (hvendor : vendorId ≠ 0xFFFF)
    (h : OnlyAtZero config vendorId deviceId) : ¬ FindsEvery config vendorId deviceId := by
  rintro ⟨fuel, t, hget, hiff, -⟩
  obtain rfl := pciGetDevice_eq_ok hget
  obtain ⟨bus, device, function, hids, hne⟩ :=
    (searched_ne_devZero_iff hvendor).mp (hiff.mpr ⟨_, _, _, h.1⟩)
  exact hne (functionOf_eq_devZero_iff.mpr (h.2 bus device function hids))

/-- **The search finds every device** but one at zero. -/
theorem findsEvery_iff {config : ConfigSpace} {vendorId deviceId : UInt16}
    (hacyclic : AcyclicBridges config) (hvendor : vendorId ≠ 0xFFFF) :
    FindsEvery config vendorId deviceId ↔ ¬ OnlyAtZero config vendorId deviceId := by
  refine ⟨fun hfinds honly => honly.not_findsEvery hvendor hfinds, fun h => ?_⟩
  obtain ⟨fuel, hget⟩ : ∃ fuel, pciGetDevice config vendorId deviceId (-1) fuel = .ok _ :=
    hacyclic.exists_fuel
  refine ⟨fuel, _, hget, ?_, fun hne => ?_⟩
  · rw [searched_ne_devZero_iff hvendor]
    constructor
    · rintro ⟨bus, device, function, hids, -⟩
      exact ⟨bus, device, function, hids⟩
    · rintro ⟨bus, device, function, hids⟩
      -- one with the ids that is at zero has another beside it
      by_contra hnone
      have honly : ∀ b d n, HasIds config vendorId deviceId b d n → b = 0 ∧ d = 0 ∧ n = 0 :=
        fun b d n hc => functionOf_eq_devZero_iff.mp
          (not_not.mp fun hne => hnone ⟨b, d, n, hc, hne⟩)
      obtain ⟨rfl, rfl, rfl⟩ := honly bus device function hids
      exact h ⟨hids, honly⟩
  · cases hanswer : answer (searchEvents config vendorId deviceId (-1)) with
    | none => exact absurd (congrArg (·.getD devZero) hanswer) hne
    | some t => exact hasIds_of_searched hvendor hanswer

/-- One function at 0:`device`.0 with these bytes, and nothing else. -/
def oneFunction (device : BitVec 5) (bytes : List (BitVec 8 × UInt8)) : ConfigSpace :=
  fun b d n offset =>
    if b = 0 ∧ d = device ∧ n = 0 then (bytes.lookup offset).getD 0 else 0xFF

/-- A host bridge with the ids 8086:1237. -/
def hostBridge : List (BitVec 8 × UInt8) :=
  [(0x00, 0x86), (0x01, 0x80), (0x02, 0x37), (0x03, 0x12), (0x0b, 0x06)]

/-- A network card with the ids 10EC:8139. -/
def networkCard : List (BitVec 8 × UInt8) :=
  [(0x00, 0xEC), (0x01, 0x10), (0x02, 0x39), (0x03, 0x81), (0x0b, 0x02)]

theorem not_present_oneFunction {device : BitVec 5} {bytes : List (BitVec 8 × UInt8)}
    {d : BitVec 5} {n : BitVec 3} (h : ¬ (bus = 0 ∧ d = device ∧ n = 0)) :
    ¬ Present (oneFunction device bytes) bus d n := by
  simp only [Present, word, oneFunction, if_neg h]
  decide

/-- Nothing leads anywhere if the one function is no bridge. -/
theorem acyclicBridges_oneFunction {device : BitVec 5} {bytes : List (BitVec 8 × UInt8)}
    (h : ¬ IsBridge (oneFunction device bytes) 0 device 0) :
    AcyclicBridges (oneFunction device bytes) := by
  intro b hb
  obtain ⟨c, ⟨d, n, ⟨-, hpresent⟩, hbridge, -⟩, -⟩ := Relation.TransGen.head'_iff.mp hb
  by_cases hat : b = 0 ∧ d = device ∧ n = 0
  · obtain ⟨rfl, rfl, rfl⟩ := hat
    exact h hbridge
  · exact not_present_oneFunction hat hpresent

/-- A network card at 0:3.0 is found. -/
theorem findsEvery_networkCard : FindsEvery (oneFunction 3 networkCard) 0x10EC 0x8139 := by
  refine (findsEvery_iff (acyclicBridges_oneFunction ?_) (by decide)).mpr ?_
  · decide
  · rintro ⟨⟨hpresent, -⟩, -⟩
    exact not_present_oneFunction (by decide) hpresent

/-- The host bridge, at 0:0.0, is not. -/
theorem not_findsEvery_hostBridge :
    AcyclicBridges (oneFunction 0 hostBridge) ∧
      HasIds (oneFunction 0 hostBridge) 0x8086 0x1237 0 0 0 ∧
      ¬ FindsEvery (oneFunction 0 hostBridge) 0x8086 0x1237 := by
  have hids : HasIds (oneFunction 0 hostBridge) 0x8086 0x1237 0 0 0 := by
    refine ⟨?_, ?_, ?_⟩ <;> decide
  refine ⟨acyclicBridges_oneFunction (by decide), hids,
    OnlyAtZero.not_findsEvery (by decide) ⟨hids, fun b d n h => ?_⟩⟩
  have hpresent : Present (oneFunction 0 hostBridge) b d n :=
    fun hnone => absurd (h.2.1.symm.trans hnone) (by decide)
  exact not_not.mp fun hat => not_present_oneFunction hat hpresent

/-! ### Circles -/

/-- **The scans end** if they come to no circle of bridges: the one of a bus, and the one of all
buses up to the first with an answer. -/
theorem pciScan_ends_iff (config : ConfigSpace) (vendorId deviceId : UInt16) (deviceType : Int32) :
    (∀ bus : ℕ, Finishes .outOfFuel (fun fuel =>
        pciScanBus config vendorId deviceId deviceType fuel bus) ↔
      ¬ Circles config vendorId deviceId deviceType (.ofNat 8 bus)) ∧
    (Finishes .outOfFuel (fun fuel => pciGetDevice config vendorId deviceId deviceType fuel) ↔
      ∀ bus, (∀ bus' < bus, ∀ device function,
          ¬ EndsScan config vendorId deviceId deviceType bus' device function) →
        ¬ Circles config vendorId deviceId deviceType bus) :=
  ⟨finishes_pciScanBus_iff, finishes_pciGetDevice_iff⟩

/-- A bridge whose secondary bus number is still zero. -/
def unconfiguredBridge : List (BitVec 8 × UInt8) :=
  [(0x00, 0x86), (0x01, 0x80), (0x02, 0x48), (0x03, 0x24), (0x0a, 0x04), (0x0b, 0x06),
    (0x0e, 0x01)]

/-- On bus 0 it keeps the scan going. -/
theorem not_finishes_unconfiguredBridge :
    ¬ Finishes .outOfFuel (fun fuel =>
        pciScanBus (oneFunction 2 unconfiguredBridge) 0x10EC 0x8139 (-1) fuel 0) ∧
      ¬ Finishes .outOfFuel (fun fuel =>
        pciGetDevice (oneFunction 2 unconfiguredBridge) 0x10EC 0x8139 (-1) fuel) := by
  have hlink : ScansBehind (oneFunction 2 unconfiguredBridge) 0x10EC 0x8139 (-1) 0 0 := by
    refine ⟨2, 0, by constructor <;> decide, by decide, by decide, fun d hd n h => ?_,
      fun n hn => absurd hn BitVec.not_lt_zero⟩
    exact not_present_oneFunction (fun hat => BitVec.lt_irrefl 2 (hat.2.1 ▸ hd)) h.1.2
  have hcircles : Circles (oneFunction 2 unconfiguredBridge) 0x10EC 0x8139 (-1) 0 :=
    ⟨0, .refl, .single hlink⟩
  refine ⟨fun h => (finishes_pciScanBus_iff 0).mp h hcircles, fun h => ?_⟩
  exact finishes_pciGetDevice_iff.mp h 0 (fun b hb => absurd hb BitVec.not_lt_zero) hcircles

end

end HalOS
