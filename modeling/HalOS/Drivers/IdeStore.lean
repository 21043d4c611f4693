import HalOS.Drivers.AtaAccess

/-!
# Drives as Stores

Sectors are read and written over the ports, while memory changes in between and drives are busy for
as long as they like. What comes of it is what comes of four stores of sectors: `DiskStore` knows
neither ports nor commands.

Calls are taken to keep to what the guards of the driver rely on, and to what the mode of the
address can express.

## Main results

* `run_refines`: runs of `ide_read_sectors` and `ide_write_sectors` are runs of the stores.
* `read_back`: sectors are read as they were written, whatever happens in between.
-/

namespace HalOS

open BlockStore

/-! ### Stores -/

/-- What stays unknown of a call: what else is read from the ports, how long the drives are busy,
and what the variable for the result holds. -/
structure AtaEnv where
  other : List PortOp → UInt8
  busyReads : List PortOp → ℕ
  stale : UInt8

/-- Calls of `ide_read_sectors` and `ide_write_sectors`, and memory that is changed by others. -/
inductive DiskEvent
  | access (direction : AtaDirection) (env : AtaEnv) (drive numSectors : UInt8)
      (lba buffer : UInt32)
  | compute (ram : Ram)

/-- The sectors of the drives, by channel and by drive, and memory. -/
structure DiskStore where
  platters : Fin 2 → Bool → ℕ → Option Sector
  ram : Ram

namespace DiskStore

/-- A transfer of `n` sectors, and whether it is reported as complete. -/
def transfer (d : DiskStore) (place : Fin 2 × Bool) (first n : ℕ) (buffer : UInt32) :
    AtaDirection → Bool × DiskStore
  | .read =>
      let blocks := readFrom (d.platters place.1 place.2) first n
      (blocks.length = n, { d with ram := storeSectors d.ram buffer blocks })
  | .write =>
      let platter := writeFrom (d.platters place.1 place.2) first (loadSectors d.ram buffer n)
      (true, { d with
        platters := Function.update d.platters place.1
          (Function.update (d.platters place.1) place.2 platter) })

/-- An event, with what a drive has room for and where it is. Beyond its end nothing happens. -/
def next (capacity : UInt8 → ℕ) (place : UInt8 → Fin 2 × Bool) (d : DiskStore) :
    DiskEvent → Bool × DiskStore
  | .access direction _ drive numSectors lba buffer =>
      if lba.toNat + numSectors.toNat ≤ capacity drive then
        d.transfer (place drive) lba.toNat numSectors.toNat buffer direction
      else (false, d)
  | .compute ram => (true, { d with ram := ram })

def run (capacity : UInt8 → ℕ) (place : UInt8 → Fin 2 × Bool) :
    List DiskEvent → DiskStore → List Bool × DiskStore
  | [], d => ([], d)
  | e :: events, d =>
      let r := d.next capacity place e
      let rest := run capacity place events r.2
      (r.1 :: rest.1, rest.2)

end DiskStore

/-! ### The driver with its drives -/

structure IdeMachine where
  ide : Ide
  bus : AtaBus

namespace IdeMachine

/-- `ide_read_sectors` and `ide_write_sectors`, with the drives at the ports. -/
def sectors (x : IdeMachine) (direction : AtaDirection) (env : AtaEnv) (drive numSectors : UInt8)
    (lba buffer : UInt32) : Int32 × IdeMachine :=
  let r := ideSectors direction (x.bus.host env.other env.busyReads) x.ide.unlogged env.stale drive
    numSectors lba buffer
  (r.1, ⟨r.2, x.bus.run r.2.ports⟩)

/-- An event, with the result of the call. -/
def next (x : IdeMachine) : DiskEvent → Int32 × IdeMachine
  | .access direction env drive numSectors lba buffer =>
      x.sectors direction env drive numSectors lba buffer
  | .compute ram => (0, { x with bus := { x.bus with ram := ram } })

def run : List DiskEvent → IdeMachine → List Int32 × IdeMachine
  | [], x => ([], x)
  | e :: events, x =>
      let r := x.next e
      let rest := run events r.2
      (r.1 :: rest.1, rest.2)

/-- What the stores know of it. -/
def store (x : IdeMachine) : DiskStore := ⟨x.bus.platter, x.bus.ram⟩

end IdeMachine

/-- The sectors that a drive of the table has room for. -/
def Ide.capacity (s : Ide) (drive : UInt8) : ℕ :=
  if drive < maximumIdeDevices ∧ (s.devices drive.toNat).reserved ≠ 0 then
    (s.devices drive.toNat).size.toNat
  else 0

/-- Where a drive of the table is. -/
def Ide.place (s : Ide) (drive : UInt8) : Fin 2 × Bool :=
  (if (s.devices drive.toNat).channel = 0 then ⟨0, Nat.zero_lt_two⟩ else ⟨1, Nat.one_lt_two⟩,
    (s.devices drive.toNat).drive ≠ 0)

/-- What a call has to keep to: the guards, at least one sector, and addresses that the mode of the
first one has. -/
def DiskEvent.Proper (s : Ide) : DiskEvent → Prop
  | .access _ _ drive numSectors lba _ =>
      GuardsHold s drive numSectors lba ∧ 1 ≤ numSectors.toNat ∧
        (lba.toNat + numSectors.toNat ≤ s.capacity drive →
          DriveAt s drive (s.place drive).1 (s.place drive).2 ∧
            RequestFits (s.devices drive.toNat).features lba numSectors)
  | .compute _ => True

/-! ### Calls -/

section Calls

variable {s s' : Ide} {x : IdeMachine} {drive numSectors : UInt8} {lba : UInt32}

theorem accessAllowed_iff (hguards : GuardsHold s drive numSectors lba)
    (hpos : 1 ≤ numSectors.toNat) : AccessAllowed s drive numSectors lba ↔
      lba.toNat + numSectors.toNat ≤ s.capacity drive := by
  rw [AccessAllowed, Ide.capacity]
  by_cases hthere : drive < maximumIdeDevices ∧ (s.devices drive.toNat).reserved ≠ 0
  · rw [if_pos hthere]
    have hata := (hguards.2 hthere.1 hthere.2).1
    exact ⟨fun h => h.2.2.2, fun h => ⟨hthere.1, hthere.2, hata, h⟩⟩
  · rw [if_neg hthere]
    exact iff_of_false (fun h => hthere ⟨h.1, h.2.1⟩) (by omega)

theorem Ide.SameTable.capacity (h : s.SameTable s') : s'.capacity = s.capacity := by
  funext drive
  rw [Ide.capacity, Ide.capacity, h.devices]

theorem Ide.SameTable.place (h : s.SameTable s') : s'.place = s.place := by
  funext drive
  rw [Ide.place, Ide.place, h.devices]

theorem Ide.SameTable.proper (h : s.SameTable s') {e : DiskEvent} (he : e.Proper s) :
    e.Proper s' := by
  cases e with
  | compute ram => trivial
  | access direction env drive numSectors lba buffer =>
      obtain ⟨hguards, hpos, hserved⟩ := he
      rw [GuardsHold, ← h.devices] at hguards
      refine ⟨hguards, hpos, fun hroom => ?_⟩
      rw [h.capacity] at hroom
      obtain ⟨⟨hchannel, hdrive⟩, hfits⟩ := hserved hroom
      rw [h.place, h.devices]
      refine ⟨⟨?_, ?_⟩, hfits⟩
      · rw [h.devices]
        exact h.at_iff.mpr hchannel
      · rw [h.devices]
        exact hdrive

theorem sameTable_unlogged (s : Ide) : s.SameTable s.unlogged :=
  ⟨rfl, fun _ => rfl, fun _ => rfl⟩

/-- A call that gets to the drive. -/
theorem ideSectors_allowed (direction : AtaDirection) (host : IdeHost) (stale : UInt8)
    (buffer : UInt32) (h : AccessAllowed s drive numSectors lba) :
    let access := ideAtaAccess host (s.look drive.toNat) direction drive lba numSectors buffer
    let code := idePrintError host access.2 drive access.1
    ideSectors direction host s stale drive numSectors lba buffer =
      (code.1.toUInt32.toInt32, code.2) := by
  obtain ⟨hlt, hthere, hata, hroom⟩ := h
  have hdrive : ¬ maximumIdeDevices < drive := by
    rw [UInt8.lt_iff_toNat_lt] at hlt ⊢
    omega
  have hsum := toNat_sectorsEnd lba numSectors
  have hsize := (s.devices drive.toNat).size.toNat_lt
  rw [if_neg (by omega)] at hsum
  have hguard : ¬ ((s.devices drive.toNat).size < lba + numSectors.toUInt32 ∧
      (s.devices drive.toNat).type = ideAta) := by
    rw [UInt32.lt_iff_toNat_lt, hsum]
    omega
  rw [ideSectors, if_neg hdrive]
  dsimp only
  rw [if_neg hthere, if_neg hguard, if_pos hata]

/-- The result tells whether there was an error. -/
theorem printError_eq_zero (host : IdeHost) (s : Ide) (drive err : UInt8) :
    (idePrintError host s drive err).1.toUInt32.toInt32 = 0 ↔ err = 0 := by
  have hcode (code : UInt8) : code.toUInt32.toInt32 = 0 ↔ code = 0 := by
    have hall : ∀ n < 256, (UInt8.ofNat n).toUInt32.toInt32 = 0 ↔ UInt8.ofNat n = 0 := by
      decide +kernel
    have hnat := hall code.toNat code.toNat_lt
    rwa [UInt8.ofNat_toNat] at hnat
  rw [hcode]
  constructor
  · exact fun h => by_contra fun hne => idePrintError_ne_zero host s hne h
  · rintro rfl
    rfl

variable (direction : AtaDirection) (env : AtaEnv) (buffer : UInt32)

theorem sameTable_sectors : x.ide.SameTable
    (x.sectors direction env drive numSectors lba buffer).2.ide :=
  (sameTable_unlogged x.ide).trans
    (Ide.Adds.ideSectors _ (allows_true _) direction env.stale numSectors lba buffer).table

/-- A call beyond the end of a drive, or of a drive that is not there. -/
theorem sectors_refused (hguards : GuardsHold x.ide drive numSectors lba)
    (hnot : ¬ AccessAllowed x.ide drive numSectors lba) :
    let r := x.sectors direction env drive numSectors lba buffer
    r.1 ≠ 0 ∧ r.2.bus = x.bus := by
  have hconfined : SectorsConfined x.ide drive numSectors lba (ideSectors direction
      (x.bus.host env.other env.busyReads) x.ide.unlogged env.stale drive numSectors lba buffer) :=
    sectorsConfined_of_guardsHold hguards
  obtain ⟨hne, hreads, -⟩ := hconfined.error hnot
  exact ⟨hne, AtaBus.run_reads _ hreads⟩

theorem platter_set (b : AtaBus) (c : Fin 2) (ch : AtaChannel) (m : Ram) :
    (b.set c ch m).platter = Function.update b.platter c ch.drives := by
  funext c' slave
  rcases eq_or_ne c' c with rfl | hne
  · simp [AtaBus.platter, AtaBus.set]
  · simp [AtaBus.platter, AtaBus.set, hne]

/-- A call that gets to the drive is a transfer of the stores. -/
theorem sectors_transfer (hallowed : AccessAllowed x.ide drive numSectors lba)
    (hpos : 1 ≤ numSectors.toNat)
    (hat : DriveAt x.ide drive (x.ide.place drive).1 (x.ide.place drive).2)
    (hfits : RequestFits (x.ide.devices drive.toNat).features lba numSectors) :
    let r := x.sectors direction env drive numSectors lba buffer
    let q := x.store.transfer (x.ide.place drive) lba.toNat numSectors.toNat buffer direction
    (r.1 = 0 ↔ q.1 = true) ∧ r.2.store = q.2 := by
  have hcall := ideSectors_allowed (s := x.ide.unlogged) direction
    (x.bus.host env.other env.busyReads) env.stale buffer hallowed
  have hat : DriveAt (x.ide.unlogged.look drive.toNat) drive (x.ide.place drive).1
    (x.ide.place drive).2 := ⟨hat.channel, hat.drive⟩
  have hstore (s : Ide) (b : AtaBus) : IdeMachine.store ⟨s, b⟩ = ⟨b.platter, b.ram⟩ := rfl
  dsimp only at hcall ⊢
  rw [IdeMachine.sectors, hcall]
  dsimp only
  rw [printError_eq_zero, (onlyReads_printError _ _ _ _).run_eq]
  cases direction with
  | read =>
      obtain ⟨hlength, ch, -, hdrives, -, hrun⟩ := run_ideAtaAccess_read (b := x.bus) (B := x.bus)
        env.other env.busyReads buffer hat rfl hpos hfits
      have hsame : Function.update x.bus.platter (x.ide.place drive).1
          (x.bus.channels (x.ide.place drive).1).drives = x.bus.platter :=
        Function.update_eq_self _ _
      rw [hrun, DiskStore.transfer, decide_eq_true_iff]
      refine ⟨hlength, (hstore _ _).trans ?_⟩
      rw [platter_set, hdrives, hsame]
      rfl
  | write =>
      obtain ⟨hzero, ch, -, hdrives, -, hrun⟩ := run_ideAtaAccess_write (b := x.bus) (B := x.bus)
        env.other env.busyReads buffer hat rfl hpos hfits
      rw [hrun]
      refine ⟨iff_of_true hzero rfl, (hstore _ _).trans ?_⟩
      rw [platter_set, hdrives]
      rfl

end Calls

/-! ### One drive -/

/-- A drive of a million sectors at the primary channel, full of zeros, as `oneDrive` has it. -/
def oneDisk : IdeMachine where
  ide := oneDrive
  bus :=
    { channels := fun c =>
        { task := ⟨0, 0, 0, 0, 0, 0, 0, 0, 0⟩
          transfer := .idle false
          drives := fun slave i =>
            if c.val = 0 ∧ slave = false ∧ i < 0x100000 then some fun _ => 0 else none }
      ram := fun _ => 0 }

/-- Ports read as zero, and a drive that is never busy. -/
def quietEnv : AtaEnv := ⟨fun _ => 0, fun _ => 0, 0⟩

theorem driveAt_oneDrive : DriveAt oneDrive 0 (oneDrive.place 0).1 (oneDrive.place 0).2 :=
  ⟨⟨rfl, rfl⟩, rfl⟩

/-- Calls within the drive. -/
theorem proper_oneDrive (direction : AtaDirection) (env : AtaEnv) {numSectors : UInt8}
    {lba : UInt32} (buffer : UInt32) (hpos : 1 ≤ numSectors.toNat)
    (hend : lba.toNat + numSectors.toNat ≤ 0x100000) :
    (DiskEvent.access direction env 0 numSectors lba buffer).Proper oneDrive := by
  refine ⟨⟨by decide, fun _ _ => ⟨rfl, fun hwraps => by omega⟩⟩, hpos, fun _ => ?_⟩
  exact ⟨driveAt_oneDrive, .inr (.inl ⟨by decide, by omega⟩)⟩

/-- Calls of drives that are not there. -/
theorem proper_absent (direction : AtaDirection) (env : AtaEnv) {drive numSectors : UInt8}
    (lba buffer : UInt32) (hdrive : drive ≠ maximumIdeDevices)
    (habsent : (oneDrive.devices drive.toNat).reserved = 0) (hpos : 1 ≤ numSectors.toNat) :
    (DiskEvent.access direction env drive numSectors lba buffer).Proper oneDrive := by
  refine ⟨⟨hdrive, fun _ hthere => absurd habsent hthere⟩, hpos, fun hroom => ?_⟩
  rw [Ide.capacity, if_neg fun h => h.2 habsent] at hroom
  omega

/-! ### Runs -/

/-- **One event.** -/
theorem next_refines {x : IdeMachine} {e : DiskEvent} (he : e.Proper x.ide) :
    let r := x.next e
    let q := x.store.next x.ide.capacity x.ide.place e
    (r.1 = 0 ↔ q.1 = true) ∧ r.2.store = q.2 ∧ x.ide.SameTable r.2.ide := by
  cases e with
  | compute ram => exact ⟨iff_of_true rfl rfl, rfl, .refl _⟩
  | access direction env drive numSectors lba buffer =>
      obtain ⟨hguards, hpos, hserved⟩ := he
      have hiff := accessAllowed_iff hguards hpos
      dsimp only [IdeMachine.next]
      rw [DiskStore.next]
      by_cases hroom : lba.toNat + numSectors.toNat ≤ x.ide.capacity drive
      · obtain ⟨hat, hfits⟩ := hserved hroom
        rw [if_pos hroom]
        obtain ⟨hcode, hstore⟩ :=
          sectors_transfer direction env buffer (hiff.mpr hroom) hpos hat hfits
        exact ⟨hcode, hstore, sameTable_sectors direction env buffer⟩
      · rw [if_neg hroom]
        obtain ⟨hcode, hbus⟩ :=
          sectors_refused direction env buffer hguards fun h => hroom (hiff.mp h)
        refine ⟨iff_of_false hcode (by simp), ?_, sameTable_sectors direction env buffer⟩
        have hstore : IdeMachine.store ⟨x.ide, (x.sectors direction env drive numSectors lba
          buffer).2.bus⟩ = x.store := congrArg (fun b => IdeMachine.store ⟨x.ide, b⟩) hbus
        exact hstore

/-- **Runs.** The results tell what the stores report, and in the end drives and memory hold what
the stores hold. -/
theorem run_refines (events : List DiskEvent) (x : IdeMachine)
    (hproper : ∀ e ∈ events, e.Proper x.ide) :
    let r := x.run events
    let q := x.store.run x.ide.capacity x.ide.place events
    r.1.map (fun code => decide (code = 0)) = q.1 ∧ r.2.store = q.2 ∧
      x.ide.SameTable r.2.ide := by
  induction events generalizing x with
  | nil => exact ⟨rfl, rfl, .refl _⟩
  | cons e events ih =>
      obtain ⟨hcode, hstore, htable⟩ := next_refines (hproper e List.mem_cons_self)
      obtain ⟨hcodes, hstores, htables⟩ := ih (x.next e).2 fun e he =>
        htable.proper (hproper e (List.mem_cons_of_mem _ he))
      rw [htable.capacity, htable.place, hstore] at hcodes hstores
      refine ⟨?_, hstores, htable.trans htables⟩
      simp only [IdeMachine.run, DiskStore.run, List.map_cons, hcodes, List.cons.injEq, and_true]
      exact Bool.eq_iff_iff.mpr (decide_eq_true_iff.trans hcode)

theorem run_refines_oneDisk :
    let events := [DiskEvent.access .write quietEnv 0 1 5 0x1000, .compute fun _ => 0xFF,
      .access .read quietEnv 0 1 5 0x2000, .access .read quietEnv 3 1 5 0x2000]
    let r := oneDisk.run events
    let q := oneDisk.store.run oneDisk.ide.capacity oneDisk.ide.place events
    r.1.map (fun code => decide (code = 0)) = q.1 ∧ r.2.store = q.2 ∧
      oneDisk.ide.SameTable r.2.ide := by
  refine run_refines _ oneDisk fun e he => ?_
  simp only [List.mem_cons, List.not_mem_nil, or_false] at he
  obtain rfl | rfl | rfl | rfl := he
  · exact proper_oneDrive _ _ _ (by decide) (by decide)
  · trivial
  · exact proper_oneDrive _ _ _ (by decide) (by decide)
  · exact proper_absent _ _ _ _ (by decide) rfl (by decide)

/-! ### Read after write -/

/-- These sectors of a drive are not written. -/
def DiskEvent.Leaves (place : UInt8 → Fin 2 × Bool) (p : Fin 2 × Bool) (first n : ℕ) :
    DiskEvent → Prop
  | .access direction _ drive numSectors lba _ =>
      direction = .write → place drive = p →
        lba.toNat + numSectors.toNat ≤ first ∨ first + n ≤ lba.toNat
  | .compute _ => True

section Store

variable {capacity : UInt8 → ℕ} {place : UInt8 → Fin 2 × Bool} {p : Fin 2 × Bool} {first n i : ℕ}

theorem DiskStore.platters_next {e : DiskEvent} (he : e.Leaves place p first n) (hlow : first ≤ i)
    (hhigh : i < first + n) (d : DiskStore) :
    (d.next capacity place e).2.platters p.1 p.2 i = d.platters p.1 p.2 i := by
  cases e with
  | compute ram => rfl
  | access direction env drive numSectors lba buffer =>
      rw [next]
      split_ifs
      · cases direction with
        | read => rfl
        | write =>
            rw [transfer]
            by_cases hplace : place drive = p
            · have hapart := he rfl hplace
              have hlength := length_loadSectors d.ram buffer numSectors.toNat
              simp only [hplace, Function.update_self]
              exact writeFrom_of_outside (by omega)
            · by_cases hchannel : p.1 = (place drive).1
              · have hslave : p.2 ≠ (place drive).2 :=
                  fun hslave => hplace (Prod.ext hchannel.symm hslave.symm)
                simp only [hchannel, Function.update_self, Function.update_of_ne hslave]
              · simp only [Function.update_of_ne hchannel]
      · rfl

theorem DiskStore.platters_run {events : List DiskEvent}
    (hevents : ∀ e ∈ events, e.Leaves place p first n) (hlow : first ≤ i) (hhigh : i < first + n)
    (d : DiskStore) :
    (d.run capacity place events).2.platters p.1 p.2 i = d.platters p.1 p.2 i := by
  induction events generalizing d with
  | nil => rfl
  | cons e events ih =>
      exact (ih (fun e he => hevents e (List.mem_cons_of_mem _ he)) _).trans
        (platters_next (hevents e List.mem_cons_self) hlow hhigh d)

end Store

/-- **Read after write.** Sectors that are there and are written to a drive are read from it as they
were in memory then, whatever is read and written in between but these sectors. -/
theorem read_back (x : IdeMachine) (events : List DiskEvent) (env env' : AtaEnv)
    {drive numSectors : UInt8} {lba : UInt32} (buffer buffer' : UInt32)
    (hwrite : (DiskEvent.access .write env drive numSectors lba buffer).Proper x.ide)
    (hroom : lba.toNat + numSectors.toNat ≤ x.ide.capacity drive)
    (hpresent : Present (x.bus.platter (x.ide.place drive).1 (x.ide.place drive).2) lba.toNat
      numSectors.toNat)
    (hevents : ∀ e ∈ events, e.Proper x.ide ∧
      e.Leaves x.ide.place (x.ide.place drive) lba.toNat numSectors.toNat) :
    let y := ((x.next (.access .write env drive numSectors lba buffer)).2.run events).2
    let r := y.next (.access .read env' drive numSectors lba buffer')
    r.1 = 0 ∧ loadSectors r.2.bus.ram buffer' numSectors.toNat =
      loadSectors x.bus.ram buffer numSectors.toNat := by
  obtain ⟨-, hstore₁, htable₁⟩ := next_refines hwrite
  obtain ⟨-, hstore₂, htable₂⟩ := run_refines events
    (x.next (.access .write env drive numSectors lba buffer)).2
    fun e he => htable₁.proper (hevents e he).1
  have htable := htable₁.trans htable₂
  obtain ⟨hcode, hstore₃, -⟩ := next_refines (htable.proper
    (e := .access .read env' drive numSectors lba buffer') hwrite)
  rw [htable₁.capacity, htable₁.place, hstore₁] at hstore₂
  rw [htable.capacity, htable.place, hstore₂] at hcode hstore₃
  -- what the drive holds before it is read
  have hlength := length_loadSectors x.bus.ram buffer numSectors.toNat
  have hread : readFrom ((DiskStore.run x.ide.capacity x.ide.place events (x.store.next
      x.ide.capacity x.ide.place (.access .write env drive numSectors lba buffer)).2).2.platters
        (x.ide.place drive).1 (x.ide.place drive).2) lba.toNat numSectors.toNat =
      loadSectors x.bus.ram buffer numSectors.toNat := by
    rw [readFrom_congr fun i hlow hhigh =>
      DiskStore.platters_run (fun e he => (hevents e he).2) hlow hhigh _]
    have hwritten := readFrom_writeFrom (loadSectors x.bus.ram buffer numSectors.toNat)
      (by rwa [hlength])
    rw [hlength] at hwritten
    simpa [DiskStore.next, hroom, DiskStore.transfer, IdeMachine.store] using hwritten
  rw [DiskStore.next, if_pos hroom, DiskStore.transfer, hread] at hcode hstore₃
  refine ⟨hcode.mpr (by simp [hlength]), ?_⟩
  have hram := congrArg DiskStore.ram hstore₃
  have hsize := numSectors.toNat_lt
  have hload := loadSectors_storeSectors (DiskStore.run x.ide.capacity x.ide.place events
    (x.store.next x.ide.capacity x.ide.place (.access .write env drive numSectors lba
      buffer)).2).2.ram buffer' (loadSectors x.bus.ram buffer numSectors.toNat) (by omega)
  rw [hlength] at hload
  exact (congrArg (fun m => loadSectors m buffer' numSectors.toNat) hram).trans hload

/-- Two sectors are written, the sector behind them is written, memory is cleared, and the two
sectors are read. -/
theorem read_back_oneDisk :
    let events := [DiskEvent.access .write quietEnv 0 1 7 0x3000, .compute fun _ => 0]
    let y := ((oneDisk.next (.access .write quietEnv 0 2 5 0x1000)).2.run events).2
    let r := y.next (.access .read quietEnv 0 2 5 0x2000)
    r.1 = 0 ∧ loadSectors r.2.bus.ram 0x2000 2 = loadSectors oneDisk.bus.ram 0x1000 2 := by
  refine read_back oneDisk _ quietEnv quietEnv 0x1000 0x2000
    (proper_oneDrive _ _ _ (by decide) (by decide)) (by decide) ?_ fun e he => ?_
  · intro i hlow hhigh
    have hthere : i < 0x100000 := by
      have hend : (5 : UInt32).toNat + (2 : UInt8).toNat = 7 := rfl
      omega
    exact Option.isSome_iff_exists.mpr ⟨fun _ => 0, if_pos ⟨rfl, rfl, hthere⟩⟩
  · simp only [List.mem_cons, List.not_mem_nil, or_false] at he
    obtain rfl | rfl := he
    · exact ⟨proper_oneDrive _ _ _ (by decide) (by decide), fun _ _ => .inr (by decide)⟩
    · exact ⟨trivial, trivial⟩

end HalOS
