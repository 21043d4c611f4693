import HalOS.Drivers.Ide

/-!
# Confined Accesses

`ide_read_sectors` and `ide_write_sectors` look at the entry of the drive before they know that
there is one, add in 32 bits, and set the result of an access only if the drive is an ATA drive.

## Main results

* `Ide.Extends`: the logs go on.
* `idePrintError_ne_zero`: an error stays one.
* `sectorsConfined_iff`: when the accesses are confined to the drive.
-/

namespace HalOS

/-! ### Logs -/

/-- The logs go on. -/
structure Ide.Extends (s s' : Ide) : Prop where
  ports : s.ports <+: s'.ports
  entries : s.entries <+: s'.entries
  calls : s.calls <+: s'.calls

namespace Ide.Extends

variable {s s' : Ide} {host : IdeHost} {channel : UInt8}

theorem refl (s : Ide) : s.Extends s :=
  ⟨List.prefix_refl _, List.prefix_refl _, List.prefix_refl _⟩

theorem trans {s'' : Ide} (h : s.Extends s') (h' : s'.Extends s'') : s.Extends s'' :=
  ⟨h.ports.trans h'.ports, h.entries.trans h'.entries, h.calls.trans h'.calls⟩

theorem beginCall (s : Ide) (call : AtaCall) : s.Extends (s.beginCall call) :=
  ⟨List.prefix_refl _, List.prefix_append _ _, List.prefix_append _ _⟩

theorem look (h : s.Extends s') (i : ℕ) : s.Extends (s'.look i) :=
  ⟨h.ports, h.entries.trans (List.prefix_append _ _), h.calls⟩

theorem setNoIntr (h : s.Extends s') (c : ℕ) (noIntr : UInt16) :
    s.Extends (s'.setNoIntr c noIntr) := ⟨h.ports, h.entries, h.calls⟩

theorem emit (h : s.Extends s') (op : PortOp) : s.Extends (s'.emit op) :=
  ⟨h.ports.trans (List.prefix_append _ _), h.entries, h.calls⟩

theorem put (h : s.Extends s') (reg data : UInt8) : s.Extends (s'.put channel reg data) := by
  rw [Ide.put]
  cases registerPort (s'.channels channel.toNat) reg with
  | none => exact h
  | some port => exact h.emit _

theorem get (h : s.Extends s') (reg : UInt8) : s.Extends (s'.get host channel reg).2 := by
  rw [Ide.get]
  cases registerPort (s'.channels channel.toNat) reg with
  | none => exact h
  | some port => exact h.emit _

theorem writeRegister (h : s.Extends s') (reg data : UInt8) :
    s.Extends (ideWriteRegister s' channel reg data) := by
  rw [ideWriteRegister]
  dsimp only
  split_ifs
  · exact ((h.put _ _).put _ _).put _ _
  · exact h.put _ _

theorem readRegister (h : s.Extends s') (reg : UInt8) :
    s.Extends (ideReadRegister host s' channel reg).2 := by
  rw [ideReadRegister]
  dsimp only
  split_ifs
  · dsimp only
    exact ((h.put _ _).get _).put _ _
  · exact h.get _

theorem readTimes (h : s.Extends s') (reg : UInt8) (n : ℕ) :
    s.Extends (HalOS.readTimes host channel reg n s') := by
  induction n generalizing s' with
  | zero => exact h
  | succ n ih => exact ih (h.readRegister reg)

theorem polling (h : s.Extends s') (advancedCheck : Bool) :
    s.Extends (idePolling host s' channel advancedCheck).2 := by
  have hwait : s.Extends
      (waitWhileBusy host (HalOS.readTimes host channel ataRegAltstatus 4 s') channel) :=
    (h.readTimes _ _).readTimes _ _
  have hread : s.Extends (ideReadRegister host
      (waitWhileBusy host (HalOS.readTimes host channel ataRegAltstatus 4 s') channel) channel
      ataRegStatus).2 := hwait.readRegister ataRegStatus
  rw [idePolling]
  dsimp only
  split_ifs
  · exact hread
  · exact hread
  · exact hread
  · exact hread
  · exact hwait

theorem writeRegisters (h : s.Extends s') (writes : List (UInt8 × UInt8)) :
    s.Extends (ideWriteRegisters s' channel writes) := by
  induction writes generalizing s' with
  | nil => exact h
  | cons w writes ih => exact ih (h.writeRegister w.1 w.2)

theorem readData (h : s.Extends s') (bus : UInt16) (n : ℕ) (buffer : UInt32) :
    s.Extends (HalOS.readData host channel bus n buffer s').2 := by
  induction n generalizing s' buffer with
  | zero => exact h
  | succ n ih =>
      rw [HalOS.readData]
      split_ifs
      · exact h.polling true
      · exact ih ((h.polling true).emit _) _

theorem writeData (h : s.Extends s') (bus : UInt16) (n : ℕ) (buffer : UInt32) :
    s.Extends (HalOS.writeData host channel bus n buffer s') := by
  induction n generalizing s' buffer with
  | zero => exact h
  | succ n ih => exact ih ((h.polling false).emit _) _

theorem printError (h : s.Extends s') (drive err : UInt8) :
    s.Extends (idePrintError host s' drive err).2 := by
  rw [idePrintError]
  dsimp only
  split_ifs
  · exact h
  · exact h.look _
  · exact ((h.look _).readRegister _).look _
  · exact h.look _
  · exact h.look _
  · exact h.look _

end Ide.Extends

open Ide (Extends)

variable (host : IdeHost) (s : Ide)

theorem extends_beginAccess (call : AtaCall) :
    (s.beginCall call).Extends (beginAccess host s call) := by
  rw [beginAccess, waitWhileBusy]
  exact (((Extends.refl _).setNoIntr _ _).writeRegister _ _).readTimes _ _

theorem extends_ideAtaAccess (direction : AtaDirection) (drive : UInt8) (lba : UInt32)
    (numSectors : UInt8) (buffer : UInt32) :
    (s.beginCall ⟨direction, drive, lba, numSectors⟩).Extends
      (ideAtaAccess host s direction drive lba numSectors buffer).2 := by
  have h := extends_beginAccess host s ⟨direction, drive, lba, numSectors⟩
  cases direction with
  | read => exact (h.writeRegisters _).readData _ _ _
  | write => exact (((h.writeRegisters _).writeData _ _ _).writeRegister _ _).polling false

/-! ### Errors -/

theorem errorCode_ne_zero (st : UInt8) : errorCode st ≠ 0 := by
  have h : ∀ n < 256, errorCode (UInt8.ofNat n) ≠ 0 := by decide +kernel
  have hst := h st.toNat st.toNat_lt
  rwa [UInt8.ofNat_toNat] at hst

/-- An error is reported as one. -/
theorem idePrintError_ne_zero {drive err : UInt8} (h : err ≠ 0) :
    (idePrintError host s drive err).1 ≠ 0 := by
  rw [idePrintError, if_neg h]
  dsimp only
  split_ifs
  · exact (by decide : (19 : UInt8) ≠ 0)
  · exact errorCode_ne_zero _
  · exact (by decide : (23 : UInt8) ≠ 0)
  · exact (by decide : (8 : UInt8) ≠ 0)
  · exact h

/-! ### Confinement -/

/-- The drive is there and has the sectors. -/
def AccessAllowed (s : Ide) (drive numSectors : UInt8) (lba : UInt32) : Prop :=
  drive < maximumIdeDevices ∧ (s.devices drive.toNat).reserved ≠ 0 ∧
    (s.devices drive.toNat).type = ideAta ∧
    lba.toNat + numSectors.toNat ≤ (s.devices drive.toNat).size.toNat

/-- How a call of `ide_read_sectors` or `ide_write_sectors` ends: it accesses the drive only if that
is allowed, and else it returns an error, has given nothing to the drives, and has looked at entries
of the table only. -/
structure SectorsConfined (s : Ide) (drive numSectors : UInt8) (lba : UInt32) (r : Int32 × Ide) :
    Prop where
  call : r.2.calls ≠ [] → AccessAllowed s drive numSectors lba
  error : ¬ AccessAllowed s drive numSectors lba →
    r.1 ≠ 0 ∧ (∀ op ∈ r.2.ports, ∃ port, op = .inb port) ∧
      ∀ i ∈ r.2.entries, i < maximumIdeDevices.toNat

/-- What the guards make sure of: the drive is not the one behind the table, and one of the table
that is there is an ATA drive, on which a sum that wraps round is still too large. -/
def GuardsHold (s : Ide) (drive numSectors : UInt8) (lba : UInt32) : Prop :=
  drive ≠ maximumIdeDevices ∧
    (drive < maximumIdeDevices → (s.devices drive.toNat).reserved ≠ 0 →
      (s.devices drive.toNat).type = ideAta ∧
        (2 ^ 32 ≤ lba.toNat + numSectors.toNat →
          (s.devices drive.toNat).size.toNat < lba.toNat + numSectors.toNat - 2 ^ 32))

variable {host s} {direction : AtaDirection} {stale drive numSectors : UInt8} {lba buffer : UInt32}

/-- Without sectors behind the sum, the sum of the guard is the one of the numbers, or wraps
round. -/
theorem toNat_sectorsEnd (lba : UInt32) (numSectors : UInt8) :
    (lba + numSectors.toUInt32).toNat =
      if 2 ^ 32 ≤ lba.toNat + numSectors.toNat then lba.toNat + numSectors.toNat - 2 ^ 32
      else lba.toNat + numSectors.toNat := by
  have hlba := lba.toNat_lt
  have hnum := numSectors.toNat_lt
  rw [UInt32.toNat_add, UInt8.toNat_toUInt32]
  split_ifs <;> omega

/-- An access behind the guard. -/
theorem ideSectors_access (hdrive : ¬ maximumIdeDevices < drive)
    (hthere : (s.devices drive.toNat).reserved ≠ 0)
    (hguard : ¬ ((s.devices drive.toNat).size < lba + numSectors.toUInt32 ∧
      (s.devices drive.toNat).type = ideAta))
    (hata : (s.devices drive.toNat).type = ideAta) :
    (ideSectors direction host s stale drive numSectors lba buffer).2.calls ≠ [] := by
  rw [ideSectors, if_neg hdrive]
  simp only [if_neg hthere, if_neg hguard, if_pos hata]
  have h : (ideAtaAccess host (s.look drive.toNat) direction drive lba numSectors buffer).2.Extends
      (idePrintError host
        (ideAtaAccess host (s.look drive.toNat) direction drive lba numSectors buffer).2 drive
        (ideAtaAccess host (s.look drive.toNat) direction drive lba numSectors buffer).1).2 :=
    (Extends.refl _).printError drive _
  have hcall := (extends_ideAtaAccess host (s.look drive.toNat) direction drive lba numSectors
    buffer).calls.subset (List.mem_append_right _ (List.mem_singleton_self _))
  exact List.ne_nil_of_mem (h.calls.subset hcall)

/-- Without an access the result is what its variable holds. -/
theorem ideSectors_unset (hdrive : ¬ maximumIdeDevices < drive)
    (hthere : (s.devices drive.toNat).reserved ≠ 0)
    (hata : (s.devices drive.toNat).type ≠ ideAta) :
    (ideSectors direction host s 0 drive numSectors lba buffer).1 = 0 := by
  have hguard : ¬ ((s.devices drive.toNat).size < lba + numSectors.toUInt32 ∧
      (s.devices drive.toNat).type = ideAta) := fun hall => hata hall.2
  rw [ideSectors, if_neg hdrive]
  dsimp only
  rw [if_neg hthere, if_neg hguard, if_neg hata]
  rfl

/-- The entry of the drive is looked at, unless its number is too large. -/
theorem extends_ideSectors (hdrive : ¬ maximumIdeDevices < drive) :
    (s.look drive.toNat).Extends
      (ideSectors direction host s stale drive numSectors lba buffer).2 := by
  rw [ideSectors, if_neg hdrive]
  dsimp only
  split_ifs
  · exact .refl _
  · exact .refl _
  · have h := extends_ideAtaAccess host (s.look drive.toNat) direction drive lba numSectors buffer
    exact ((Extends.beginCall _ _).trans h).printError _ _
  · exact (Extends.refl _).printError _ _

/-- The guards are enough. -/
theorem sectorsConfined_of_guardsHold (h : GuardsHold s drive numSectors lba) :
    SectorsConfined s drive numSectors lba
      (ideSectors direction host s.unlogged stale drive numSectors lba buffer) := by
  obtain ⟨hbehind, hguards⟩ := h
  rw [ideSectors]
  by_cases hdrive : maximumIdeDevices < drive
  · rw [if_pos hdrive]
    exact ⟨fun hcalls => absurd rfl hcalls, fun _ =>
      ⟨(by decide : (-1 : Int32) ≠ 0), List.forall_mem_nil _, List.forall_mem_nil _⟩⟩
  rw [if_neg hdrive]
  have hlt : drive < maximumIdeDevices := by
    rw [UInt8.lt_iff_toNat_lt] at hdrive ⊢
    rw [ne_eq, ← UInt8.toNat_inj] at hbehind
    omega
  have hentries : ∀ i ∈ [drive.toNat], i < maximumIdeDevices.toNat := by
    intro i hi
    rw [List.mem_singleton.mp hi]
    exact UInt8.lt_iff_toNat_lt.mp hlt
  dsimp only
  split_ifs with hthere hguard hata
  · exact ⟨fun hcalls => absurd rfl hcalls, fun _ =>
      ⟨(by decide : (-1 : Int32) ≠ 0), List.forall_mem_nil _, hentries⟩⟩
  · exact ⟨fun hcalls => absurd rfl hcalls, fun _ =>
      ⟨(by decide : (-2 : Int32) ≠ 0), List.forall_mem_nil _, hentries⟩⟩
  · have hallowed : AccessAllowed s drive numSectors lba := by
      refine ⟨hlt, hthere, hata, ?_⟩
      have hsum := toNat_sectorsEnd lba numSectors
      have hle : ¬ (s.devices drive.toNat).size < lba + numSectors.toUInt32 :=
        fun hsize => hguard ⟨hsize, hata⟩
      rw [UInt32.lt_iff_toNat_lt, hsum] at hle
      have hwrap := (hguards hlt hthere).2
      split_ifs at hle with hover
      · exact absurd (hwrap hover) hle
      · exact Nat.not_lt.mp hle
    exact ⟨fun _ => hallowed, fun hnot => absurd hallowed hnot⟩
  · exact absurd (hguards hlt hthere).1 hata

/-- They are needed, whatever the variable for the result holds. -/
theorem guardsHold_of_sectorsConfined
    (h : ∀ stale, SectorsConfined s drive numSectors lba
      (ideSectors direction host s.unlogged stale drive numSectors lba buffer)) :
    GuardsHold s drive numSectors lba := by
  have hmax : ¬ maximumIdeDevices < maximumIdeDevices := by decide
  refine ⟨?_, fun hlt hthere => ?_⟩
  · rintro rfl
    have hnot : ¬ AccessAllowed s maximumIdeDevices numSectors lba := fun hall => hmax hall.1
    have hextends : (s.unlogged.look maximumIdeDevices.toNat).Extends (ideSectors direction host
        s.unlogged 0 maximumIdeDevices numSectors lba buffer).2 := extends_ideSectors hmax
    have hmem := hextends.entries.subset (List.mem_append_right _ (List.mem_singleton_self _))
    exact Nat.lt_irrefl _ (((h 0).error hnot).2.2 _ hmem)
  · have hdrive : ¬ maximumIdeDevices < drive := by
      rw [UInt8.lt_iff_toNat_lt] at hlt ⊢
      omega
    by_cases hata : (s.devices drive.toNat).type = ideAta
    · refine ⟨hata, fun hover => ?_⟩
      by_contra hsize
      have hsum := toNat_sectorsEnd lba numSectors
      rw [if_pos hover] at hsum
      have hguard : ¬ ((s.devices drive.toNat).size < lba + numSectors.toUInt32 ∧
          (s.devices drive.toNat).type = ideAta) := by
        rintro ⟨hlarge, -⟩
        rw [UInt32.lt_iff_toNat_lt, hsum] at hlarge
        exact hsize hlarge
      have hallowed := (h 0).call (ideSectors_access (s := s.unlogged) hdrive hthere hguard hata)
      have := hallowed.2.2.2
      have := (s.devices drive.toNat).size.toNat_lt
      omega
    · have hnot : ¬ AccessAllowed s drive numSectors lba := fun hall => hata hall.2.2.1
      refine absurd ?_ ((h 0).error hnot).1
      exact ideSectors_unset (s := s.unlogged) hdrive hthere hata

/-- **Accesses to the drives** are confined, whatever the variable for the result holds, exactly if
the guards hold: for reads and for writes. -/
theorem sectorsConfined_iff (host : IdeHost) (s : Ide) (drive numSectors : UInt8)
    (lba buffer : UInt32) :
    ((∀ stale, SectorsConfined s drive numSectors lba
        (ideReadSectors host s.unlogged stale drive numSectors lba buffer)) ↔
      GuardsHold s drive numSectors lba) ∧
    ((∀ stale, SectorsConfined s drive numSectors lba
        (ideWriteSectors host s.unlogged stale drive numSectors lba buffer)) ↔
      GuardsHold s drive numSectors lba) :=
  ⟨⟨guardsHold_of_sectorsConfined, fun h _ => sectorsConfined_of_guardsHold h⟩,
    ⟨guardsHold_of_sectorsConfined, fun h _ => sectorsConfined_of_guardsHold h⟩⟩

/-- The drives answer zero, and are never busy. -/
def idleHost : IdeHost := ⟨fun _ => 0, fun _ => 0⟩

/-- A table with one drive of 2^20 sectors. -/
def oneDrive : Ide where
  channels := fun _ => ⟨0x1F0, 0x3F6, 0, 0⟩
  devices := fun i => if i = 0 then ⟨1, 0, 0, 0, 0x200, 0x100000⟩ else ⟨0, 0, 0, 0, 0, 0⟩
  irqInvoked := 0
  ports := []
  entries := []
  calls := []

/-- Eight sectors from the last one of the numbers on pass the guard, since their sum is seven. -/
theorem sectorsConfined_violated :
    ¬ ∀ host s drive numSectors lba buffer stale, SectorsConfined s drive numSectors lba
      (ideReadSectors host s.unlogged stale drive numSectors lba buffer) := by
  intro hall
  have h := guardsHold_of_sectorsConfined fun stale =>
    hall idleHost oneDrive 0 8 0xFFFFFFFF 0 stale
  exact absurd ((h.2 (by decide) (by decide)).2 (by decide)) (by decide)

end HalOS
