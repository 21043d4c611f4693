import HalOS.Drivers.AtaDrive
import HalOS.Drivers.IdePorts

/-!
# Accesses to Drives

What the functions of the IDE driver do to drives that take their operations. Only the commands and
the data port matter to a drive: its control register is two ports below the one that the driver
takes it to be at, and reads change nothing.

## Main results

* `run_ideAtaAccess_read`, `run_ideAtaAccess_write`: an access is a transfer of blocks.
-/

namespace HalOS

open BlockStore

/-! ### Operations -/

namespace AtaBus

variable {b : AtaBus} {c : Fin 2} {ch : AtaChannel}

theorem run_append (b : AtaBus) (ops ops' : List PortOp) :
    b.run (ops ++ ops') = (b.run ops).run ops' := List.foldl_append

theorem run_concat (b : AtaBus) (ops : List PortOp) (op : PortOp) :
    b.run (ops ++ [op]) = (b.run ops).step op := run_append b ops [op]

theorem step_inb (b : AtaBus) (port : UInt16) : b.step (.inb port) = b := rfl

theorem run_reads {reads : List PortOp} (b : AtaBus) (h : ∀ op ∈ reads, ∃ port, op = .inb port) :
    b.run reads = b := by
  induction reads with
  | nil => rfl
  | cons op reads ih =>
      obtain ⟨port, rfl⟩ := h op List.mem_cons_self
      exact ih fun op hop => h op (List.mem_cons_of_mem _ hop)

@[simp]
theorem channels_set (b : AtaBus) (c : Fin 2) (ch : AtaChannel) (m : Ram) :
    (b.set c ch m).channels c = ch := Function.update_self _ _ _

@[simp]
theorem ram_set (b : AtaBus) (c : Fin 2) (ch : AtaChannel) (m : Ram) : (b.set c ch m).ram = m := rfl

@[simp]
theorem set_set (b : AtaBus) (c : Fin 2) (ch ch' : AtaChannel) (m m' : Ram) :
    (b.set c ch m).set c ch' m' = b.set c ch' m' := by
  simp [set]

theorem set_eq_self (h : b.channels c = ch) : b.set c ch b.ram = b := by
  rw [← h, set, Function.update_eq_self]

end AtaBus

open AtaBus

/-- Bytes written to ports: memory stays, and each channel takes what is for it. -/
theorem run_outb {ops : List PortOp} (b : AtaBus)
    (h : ∀ op ∈ ops, ∃ port data, op = .outb port data) :
    b.run ops =
      ⟨fun c => ops.foldl (AtaChannel.step (ataBase c) b.ram) (b.channels c), b.ram⟩ := by
  induction ops generalizing b with
  | nil => rfl
  | cons op ops ih =>
      obtain ⟨port, data, rfl⟩ := h op List.mem_cons_self
      exact ih _ fun op hop => h op (List.mem_cons_of_mem _ hop)

theorem outb_registerOps {c : IdeChannel} {w : UInt8 × UInt8} :
    ∀ op ∈ registerOps c w, ∃ port data, op = .outb port data := by
  intro op hop
  rw [registerOps] at hop
  split_ifs at hop
  all_goals
    simp only [List.mem_append, List.mem_map] at hop
    grind

/-! ### Registers -/

/-- The driver takes the channel to be where it is. -/
structure IdeChannel.At (ch : IdeChannel) (c : Fin 2) : Prop where
  base : ch.base = ataBase c
  control : ch.control = ataControl c

theorem channel_cases (c : Fin 2) : c = 0 ∨ c = 1 := by omega

section Registers

variable {ch : IdeChannel} {c : Fin 2} (hc : ch.At c)

include hc

/-- What the driver takes for the control register is nowhere. -/
theorem foldl_control (c' : Fin 2) (m : Ram) (a : AtaChannel) (v : UInt8) :
    (registerOps ch (ataRegControl, v)).foldl (AtaChannel.step (ataBase c') m) a = a := by
  obtain ⟨base, control, bmIde, noIntr⟩ := ch
  obtain ⟨rfl, rfl⟩ := hc
  obtain rfl | rfl := channel_cases c <;> obtain rfl | rfl := channel_cases c'
  all_goals simp [registerOps, registerPort, AtaChannel.step, TaskFile.write, ataRegControl,
    ataBase, ataControl]

theorem foldl_commandWrites (m : Ram) (a : AtaChannel) (slavebit : UInt8) (mode : LbaMode)
    (direction : AtaDirection) (lba : UInt32) (n : UInt8) :
    ((commandWrites slavebit mode direction lba n).flatMap (registerOps ch)).foldl
        (AtaChannel.step (ataBase c) m) a =
      { a with
        task := requestRegisters a.task slavebit n lba mode
        transfer := AtaChannel.command
          { a with task := requestRegisters a.task slavebit n lba mode }
          (ataCommand mode direction) } := by
  obtain ⟨base, control, bmIde, noIntr⟩ := ch
  obtain ⟨rfl, rfl⟩ := hc
  obtain rfl | rfl := channel_cases c
  all_goals cases mode
  all_goals simp [commandWrites, registerOps, registerPort, AtaChannel.step, TaskFile.write,
    requestRegisters, ataRegHddevsel, ataRegSeccount0, ataRegSeccount1, ataRegLba0, ataRegLba1,
    ataRegLba2, ataRegLba3, ataRegLba4, ataRegLba5, ataRegCommand, ataRegControl, ataBase,
    ataControl]

/-- The other channel does not take the registers for its own. -/
theorem foldl_commandWrites_other {c' : Fin 2} (hne : c' ≠ c) (m : Ram) (a : AtaChannel)
    (slavebit : UInt8) (mode : LbaMode) (direction : AtaDirection) (lba : UInt32) (n : UInt8) :
    ((commandWrites slavebit mode direction lba n).flatMap (registerOps ch)).foldl
      (AtaChannel.step (ataBase c') m) a = a := by
  obtain ⟨base, control, bmIde, noIntr⟩ := ch
  obtain ⟨rfl, rfl⟩ := hc
  obtain rfl | rfl := channel_cases c <;> obtain rfl | rfl := channel_cases c'
  all_goals first | exact absurd rfl hne | cases mode
  all_goals simp [commandWrites, registerOps, registerPort, AtaChannel.step, TaskFile.write,
    ataRegHddevsel, ataRegSeccount0, ataRegSeccount1, ataRegLba0, ataRegLba1,
    ataRegLba2, ataRegLba3, ataRegLba4, ataRegLba5, ataRegCommand, ataRegControl, ataBase,
    ataControl]

theorem run_control (b : AtaBus) (v : UInt8) : b.run (registerOps ch (ataRegControl, v)) = b := by
  rw [run_outb b outb_registerOps]
  simp only [foldl_control hc]

/-- **A command** gets to its channel with the registers of the request. -/
theorem run_commandWrites (b : AtaBus) (slavebit : UInt8) (mode : LbaMode)
    (direction : AtaDirection) (lba : UInt32) (n : UInt8) :
    b.run ((commandWrites slavebit mode direction lba n).flatMap (registerOps ch)) =
      b.set c
        { b.channels c with
          task := requestRegisters (b.channels c).task slavebit n lba mode
          transfer := AtaChannel.command
            { b.channels c with task := requestRegisters (b.channels c).task slavebit n lba mode }
            (ataCommand mode direction) } b.ram := by
  have houtb : ∀ op ∈ (commandWrites slavebit mode direction lba n).flatMap (registerOps ch),
      ∃ port data, op = PortOp.outb port data := by
    intro op hop
    obtain ⟨w, -, hop⟩ := List.mem_flatMap.mp hop
    exact outb_registerOps op hop
  rw [run_outb b houtb, AtaBus.set]
  congr 1
  funext c'
  rcases eq_or_ne c' c with rfl | hne
  · rw [foldl_commandWrites hc, Function.update_self]
  · rw [foldl_commandWrites_other hc hne, Function.update_of_ne hne]

theorem run_flush (b : AtaBus) (mode : LbaMode) :
    b.run (registerOps ch (ataRegCommand, cacheFlush mode)) =
      b.set c { b.channels c with transfer := .idle false } b.ram := by
  rw [run_outb b outb_registerOps, AtaBus.set]
  congr 1
  funext c'
  obtain ⟨base, control, bmIde, noIntr⟩ := ch
  obtain ⟨rfl, rfl⟩ := hc
  obtain rfl | rfl := channel_cases c <;> obtain rfl | rfl := channel_cases c'
  all_goals cases mode
  all_goals simp [registerOps, registerPort, AtaChannel.step, TaskFile.write, ataRegCommand,
    cacheFlush, AtaChannel.command, sectorsCommand, ataBase]

end Registers

/-! ### Requests -/

theorem slave_eq (slave : Bool) :
    (bif slave then (1 : UInt8) else 0) = 0 ∨ (bif slave then (1 : UInt8) else 0) = 1 := by
  cases slave
  · exact .inl rfl
  · exact .inr rfl

/-- The registers of a request that fits, as the drive reads them. -/
theorem taskFile_request (t : TaskFile) (slave : Bool) {features : UInt16} {lba : UInt32}
    {n : UInt8} (hpos : 1 ≤ n.toNat) (hfits : RequestFits features lba n) :
    let task := requestRegisters t (bif slave then 1 else 0) n lba (lbaMode lba features)
    task.slave = slave ∧
      task.mode (lbaMode lba features = .lba48) = lbaMode lba features ∧
      task.address (lbaMode lba features) = lba.toNat ∧
      task.sectors (lbaMode lba features = .lba48) = n.toNat := by
  have haddress := address_requestRegisters t lba n (slave_eq slave) features
  have hmode := lbaMode_cases lba features
  rw [requestFits_iff] at hfits
  generalize lbaMode lba features = mode at *
  have hhead : (lbaIo lba mode).head.toNat < 16 := by
    refine head_requestRegisters (hmode.imp_right ?_)
    rintro rfl
    decide
  obtain ⟨-, hlba, hdrive⟩ := deviceSelect_bits (slave_eq slave) hhead mode
  have hcount : n ≠ 0 := by
    rintro rfl
    exact absurd hpos (by decide)
  have hslave : decide ((bif slave then (1 : UInt8) else 0) = 1) = slave := by
    cases slave <;> rfl
  refine ⟨?_, ?_, by rw [haddress, Nat.mod_eq_of_lt (by omega)], ?_⟩
  · cases mode <;> simpa [TaskFile.slave, requestRegisters, hdrive] using hslave
  · cases mode <;> simp_all [TaskFile.mode, requestRegisters]
  · cases mode <;> simp [TaskFile.sectors, requestRegisters, hcount]

/-- A channel that has been given a request that fits. -/
theorem command_request (a : AtaChannel) (slave : Bool) (direction : AtaDirection)
    {features : UInt16} {lba : UInt32} {n : UInt8} (hpos : 1 ≤ n.toNat)
    (hfits : RequestFits features lba n) (task : TaskFile)
    (htask : task =
      requestRegisters a.task (bif slave then 1 else 0) n lba (lbaMode lba features)) :
    AtaChannel.command { a with task := task } (ataCommand (lbaMode lba features) direction) =
      AtaChannel.goOn { a with task := task } lba.toNat n.toNat direction := by
  obtain ⟨-, hmode, haddress, hsectors⟩ := taskFile_request a.task slave hpos hfits
  rw [← htask] at hmode haddress hsectors
  generalize lbaMode lba features = mode at *
  have hbegin : AtaChannel.command { a with task := task } (ataCommand mode direction) =
      AtaChannel.begin { a with task := task } (mode = .lba48) direction := by
    cases mode <;> cases direction <;> rfl
  rw [hbegin, AtaChannel.begin, hmode, haddress, hsectors]

/-! ### The driver beside the drives -/

/-- The channels are where they were. -/
theorem Ide.SameTable.at_iff {s s' : Ide} (h : s.SameTable s') {i : ℕ} {c : Fin 2} :
    (s'.channels i).At c ↔ (s.channels i).At c := by
  constructor
  · exact fun hc => ⟨(h.base i).symm.trans hc.base, (h.control i).symm.trans hc.control⟩
  · exact fun hc => ⟨(h.base i).trans hc.base, (h.control i).trans hc.control⟩

/-- Nothing but reads of ports has been added. -/
abbrev Ide.OnlyReads (s s' : Ide) : Prop := s.Adds (fun op => ∃ port, op = .inb port) s'

theorem allowsReads_inb (ch : IdeChannel) : AllowsReads (fun op => ∃ port, op = .inb port) ch :=
  fun _ _ port _ => ⟨port, rfl⟩

/-- The drives do not notice reads. -/
theorem Ide.OnlyReads.run_eq {s s' : Ide} (h : s.OnlyReads s') (b : AtaBus) :
    b.run s'.ports = b.run s.ports := by
  obtain ⟨reads, hports, hreads⟩ := h.ports
  rw [hports, run_append, run_reads _ hreads]

theorem onlyReads_polling (host : IdeHost) (s : Ide) (channel : UInt8) (advancedCheck : Bool) :
    s.OnlyReads (idePolling host s channel advancedCheck).2 :=
  .polling host (allowsReads_inb _) advancedCheck

theorem onlyReads_printError (host : IdeHost) (s : Ide) (drive err : UInt8) :
    s.OnlyReads (idePrintError host s drive err).2 :=
  .printError host (allowsReads_inb _) err

section Polling

variable {b : AtaBus} (other : List PortOp → UInt8) (busyReads : List PortOp → ℕ) {s : Ide}
  {c : Fin 2} {channel : UInt8}

/-- The status of the channel is read. -/
theorem readRegister_status (hc : (s.channels channel.toNat).At c) :
    (ideReadRegister (b.host other busyReads) s channel ataRegStatus).1 =
      ((b.run s.ports).channels c).transfer.status := by
  have hport : registerPort (s.channels channel.toNat) ataRegStatus = some (ataBase c + 7) := by
    rw [registerPort, hc.base]
    obtain rfl | rfl := channel_cases c <;> rfl
  have hread : (ideReadRegister (b.host other busyReads) s channel ataRegStatus).1 =
      (b.run (s.ports ++ [.inb (ataBase c + 7)])).answer
        (other (s.ports ++ [.inb (ataBase c + 7)])) (ataBase c + 7) := by
    rw [ideReadRegister]
    dsimp only
    rw [if_neg (by decide), Ide.get, hport]
    simp [AtaBus.host, Ide.emit]
  rw [hread, run_concat, step_inb, AtaBus.answer]
  obtain rfl | rfl := channel_cases c
  · rfl
  · rfl

/-- What `ide_polling` makes of the status. -/
def pollCode (st : UInt8) : UInt8 :=
  if st &&& ataSrErr ≠ 0 then 2
  else if st &&& ataSrDf ≠ 0 then 1
  else if st &&& ataSrDrq = 0 then 3
  else 0

theorem idePolling_code (hc : (s.channels channel.toNat).At c) :
    (idePolling (b.host other busyReads) s channel true).1 =
      pollCode ((b.run s.ports).channels c).transfer.status := by
  have hwaiting : s.OnlyReads (waitWhileBusy (b.host other busyReads)
      (readTimes (b.host other busyReads) channel ataRegAltstatus 4 s) channel) :=
    .waiting _ (allowsReads_inb _)
  rw [idePolling]
  simp only [if_true, readRegister_status other busyReads (hwaiting.table.at_iff.mpr hc),
    hwaiting.run_eq]
  rw [pollCode]
  split_ifs
  · rfl
  · rfl
  · rfl
  · rfl

end Polling

/-! ### Sectors over the data port -/

section Data

variable {b B : AtaBus} {c : Fin 2} {sector left : ℕ}

theorem channel_ne {c c' : Fin 2} (h : c' ≠ c) : ataBase c ≠ ataBase c' := by
  obtain rfl | rfl := channel_cases c <;> obtain rfl | rfl := channel_cases c'
  all_goals first | exact absurd rfl h | decide

/-- A sector is read. -/
theorem step_insw (buffer : UInt32) {block : Sector}
    (htransfer : (b.channels c).transfer = .reading sector left)
    (hblock : (b.channels c).selected sector = some block) :
    b.step (.insw (ataBase c) buffer) =
      b.set c { b.channels c with transfer := (b.channels c).readOn (sector + 1) (left - 1) }
        (storeSector b.ram buffer block) := by
  have hdata : (b.channels c).data = some block := by
    rw [AtaChannel.data, htransfer]
    exact hblock
  rw [step, AtaBus.set, AtaBus.mk.injEq]
  constructor
  · funext c'
    rcases eq_or_ne c' c with rfl | hne
    · rw [Function.update_self, AtaChannel.step, if_pos rfl, AtaChannel.taken, htransfer]
    · rw [Function.update_of_ne hne, AtaChannel.step, if_neg (channel_ne hne)]
  · rw [ramAfter]
    obtain rfl | rfl := channel_cases c
    · rw [if_pos rfl, hdata, Option.elim_some]
    · rw [if_neg (channel_ne (by decide)), if_pos rfl, hdata, Option.elim_some]

/-- A sector is written. -/
theorem step_outsw (buffer : UInt32) : b.step (.outsw (ataBase c) buffer) =
    b.set c ((b.channels c).given (loadSector b.ram buffer)) b.ram := by
  rw [step, AtaBus.set, AtaBus.mk.injEq]
  refine ⟨funext fun c' => ?_, rfl⟩
  rcases eq_or_ne c' c with rfl | hne
  · rw [Function.update_self, AtaChannel.step, if_pos rfl]
  · rw [Function.update_of_ne hne, AtaChannel.step, if_neg (channel_ne hne)]

variable (other : List PortOp → UInt8) (busyReads : List PortOp → ℕ) {s : Ide} (channel : UInt8)

/-- **The loop that reads** gets the sectors up to the first one that is not there, and says so. -/
theorem run_readData (buffer : UInt32) {n : ℕ} (hc : (s.channels channel.toNat).At c)
    (hB : b.run s.ports = B)
    (htransfer : (B.channels c).transfer = (B.channels c).readOn sector n) :
    let r := readData (b.host other busyReads) channel (ataBase c) n buffer s
    let blocks := readFrom (B.channels c).selected sector n
    (r.1 = 0 ↔ blocks.length = n) ∧ ∃ failed, b.run r.2.ports =
      B.set c { B.channels c with transfer := .idle failed }
        (storeSectors B.ram buffer blocks) := by
  induction n generalizing s sector buffer B with
  | zero =>
      have hidle : B.channels c = { B.channels c with transfer := .idle false } := by
        rw [AtaChannel.readOn, if_pos rfl] at htransfer
        rw [← htransfer]
      exact ⟨iff_of_true rfl rfl, false, hB.trans (set_eq_self hidle).symm⟩
  | succ n ih =>
      have hpoll : s.OnlyReads (idePolling (b.host other busyReads) s channel true).2 :=
        onlyReads_polling _ s channel true
      have hcode := idePolling_code other busyReads (b := b) hc
      rw [hB, htransfer, AtaChannel.readOn, if_neg (Nat.succ_ne_zero n)] at hcode
      rw [AtaChannel.readOn, if_neg (Nat.succ_ne_zero n)] at htransfer
      cases hblock : (B.channels c).selected sector with
      | none =>
          rw [hblock, if_neg (by simp)] at hcode htransfer
          have hne : (idePolling (b.host other busyReads) s channel true).1 ≠ 0 := by
            rw [hcode]
            decide
          have hidle : B.channels c = { B.channels c with transfer := .idle true } := by
            rw [← htransfer]
          simp only [readData, if_pos hne, readFrom_none hblock, storeSectors]
          refine ⟨iff_of_false hne (by simp), true, ?_⟩
          rw [hpoll.run_eq, hB, set_eq_self hidle]
      | some block =>
          rw [hblock, if_pos (by simp)] at hcode htransfer
          have heq : (idePolling (b.host other busyReads) s channel true).1 = 0 :=
            hcode.trans (by decide : pollCode 0x58 = 0)
          have hstep : b.run ((idePolling (b.host other busyReads) s channel true).2.emit
              (.insw (ataBase c) buffer)).ports =
                B.set c { B.channels c with transfer := (B.channels c).readOn (sector + 1) n }
                  (storeSector B.ram buffer block) := by
            rw [Ide.emit, run_concat, hpoll.run_eq, hB, step_insw _ htransfer hblock,
              Nat.add_sub_cancel]
          have htable := hpoll.table.trans (.emit _ (.insw (ataBase c) buffer))
          obtain ⟨hlength, failed, hrun⟩ := ih (buffer + 256 * 2)
            (htable.at_iff.mpr hc) hstep (by rw [channels_set]; rfl)
          simp only [readData, heq, ne_eq, not_true_eq_false, if_false, readFrom_some hblock,
            storeSectors, List.length_cons, Nat.add_right_cancel_iff]
          rw [channels_set, ram_set, set_set] at hrun
          rw [channels_set] at hlength
          exact ⟨hlength, failed, hrun⟩

/-- A drive that waits for no sectors takes none. -/
theorem run_writeData_idle (buffer : UInt32) (n : ℕ) {failed : Bool} (hB : b.run s.ports = B)
    (htransfer : (B.channels c).transfer = .idle failed) :
    b.run (writeData (b.host other busyReads) channel (ataBase c) n buffer s).ports = B := by
  induction n generalizing s buffer with
  | zero => exact hB
  | succ n ih =>
      have hpoll : s.OnlyReads (idePolling (b.host other busyReads) s channel false).2 :=
        onlyReads_polling _ s channel false
      have hgiven (block : Sector) : (B.channels c).given block = B.channels c := by
        rw [AtaChannel.given, htransfer]
      have hstep : b.run ((idePolling (b.host other busyReads) s channel false).2.emit
          (.outsw (ataBase c) buffer)).ports = B := by
        rw [Ide.emit, run_concat, hpoll.run_eq, hB, step_outsw, hgiven, set_eq_self rfl]
      exact ih (buffer + 256 * 2) hstep

/-- **The loop that writes** replaces the sectors up to the first one that is not there. -/
theorem run_writeData (buffer : UInt32) {n : ℕ} (hB : b.run s.ports = B)
    (htransfer : (B.channels c).transfer = AtaChannel.writeOn sector n) :
    ∃ failed, b.run (writeData (b.host other busyReads) channel (ataBase c) n buffer s).ports =
      B.set c
        { B.channels c with
          drives := Function.update (B.channels c).drives (B.channels c).task.slave
            (writeFrom (B.channels c).selected sector (loadSectors B.ram buffer n))
          transfer := .idle failed } B.ram := by
  induction n generalizing s sector buffer B with
  | zero =>
      have hidle : B.channels c = { B.channels c with
          drives := Function.update (B.channels c).drives (B.channels c).task.slave
            (B.channels c).selected
          transfer := .idle false } := by
        rw [AtaChannel.writeOn, if_pos rfl] at htransfer
        rw [AtaChannel.selected, Function.update_eq_self, ← htransfer]
      exact ⟨false, hB.trans (set_eq_self hidle).symm⟩
  | succ n ih =>
      have hpoll : s.OnlyReads (idePolling (b.host other busyReads) s channel false).2 :=
        onlyReads_polling _ s channel false
      rw [AtaChannel.writeOn, if_neg (Nat.succ_ne_zero n)] at htransfer
      have hstep : b.run ((idePolling (b.host other busyReads) s channel false).2.emit
          (.outsw (ataBase c) buffer)).ports =
            B.set c ((B.channels c).given (loadSector B.ram buffer)) B.ram := by
        rw [Ide.emit, run_concat, hpoll.run_eq, hB, step_outsw]
      rw [writeData, loadSectors, writeFrom]
      by_cases hsome : ((B.channels c).selected sector).isSome
      · have hgiven : (B.channels c).given (loadSector B.ram buffer) = { B.channels c with
            drives := Function.update (B.channels c).drives (B.channels c).task.slave
              (Function.update (B.channels c).selected sector (some (loadSector B.ram buffer)))
            transfer := AtaChannel.writeOn (sector + 1) n } := by
          rw [AtaChannel.given, htransfer]
          exact if_pos hsome
        obtain ⟨failed, hrun⟩ := ih (buffer + 256 * 2) hstep (by rw [channels_set, hgiven])
        refine ⟨failed, ?_⟩
        rw [channels_set, ram_set, set_set, hgiven] at hrun
        rw [if_pos hsome]
        simpa [AtaChannel.selected] using hrun
      · have hgiven : (B.channels c).given (loadSector B.ram buffer) =
            { B.channels c with transfer := .idle true } := by
          rw [AtaChannel.given, htransfer]
          exact if_neg hsome
        have hrun := run_writeData_idle other busyReads channel (buffer + 256 * 2) n hstep
          (by rw [channels_set, hgiven])
        refine ⟨true, ?_⟩
        rw [if_neg hsome, hrun, hgiven, AtaChannel.selected, Function.update_eq_self]

end Data

/-! ### Accesses -/

/-- Where a drive of the table is. -/
structure DriveAt (s : Ide) (drive : UInt8) (c : Fin 2) (slave : Bool) : Prop where
  channel : (s.channels (s.devices drive.toNat).channel.toNat).At c
  drive : (s.devices drive.toNat).drive = bif slave then 1 else 0

section Access

variable {b B : AtaBus} {c : Fin 2} {slave : Bool} (other : List PortOp → UInt8)
  (busyReads : List PortOp → ℕ) {s : Ide} {drive n : UInt8} {lba : UInt32}

/-- Until the drive is ready, it is left alone. -/
theorem run_beginAccess (hat : DriveAt s drive c slave) (direction : AtaDirection) :
    b.run (beginAccess (b.host other busyReads) s ⟨direction, drive, lba, n⟩).ports =
      b.run s.ports := by
  obtain ⟨-, reads, hports, hreads⟩ :=
    ports_beginAccess (b.host other busyReads) s ⟨direction, drive, lba, n⟩
  have hchannel : (accessChannel s drive).At c := ⟨hat.channel.base, hat.channel.control⟩
  rw [hports, run_append, run_append, run_control hchannel, run_reads _ hreads]

/-- The drive has been given the command. -/
theorem run_request (hat : DriveAt s drive c slave) (hB : b.run s.ports = B)
    (hpos : 1 ≤ n.toNat) (hfits : RequestFits (s.devices drive.toNat).features lba n)
    (direction : AtaDirection) :
    ∃ ch, ch.selected = B.platter c slave ∧ ch.task.slave = slave ∧
      ch.drives = (B.channels c).drives ∧
      ch.transfer = ch.goOn lba.toNat n.toNat direction ∧
      b.run (requested (b.host other busyReads) s ⟨direction, drive, lba, n⟩).ports =
        B.set c ch B.ram := by
  have hchannel := (Ide.Adds.beginAccess (b.host other busyReads) ⟨direction, drive, lba, n⟩
    (allows_true (s.channels (s.devices drive.toNat).channel.toNat))).table.at_iff.mpr hat.channel
  obtain ⟨task, htask⟩ : ∃ task, task = requestRegisters (B.channels c).task
    (bif slave then 1 else 0) n lba (lbaMode lba (s.devices drive.toNat).features) := ⟨_, rfl⟩
  have hslave : task.slave = slave :=
    htask ▸ (taskFile_request (B.channels c).task slave hpos hfits).1
  refine ⟨{ B.channels c with
      task := task
      transfer := AtaChannel.command { B.channels c with task := task }
        (ataCommand (lbaMode lba (s.devices drive.toNat).features) direction) },
    congrArg (B.channels c).drives hslave, hslave, rfl,
    command_request _ slave direction hpos hfits task htask, ?_⟩
  rw [ports_ideWriteRegisters, run_append, run_beginAccess other busyReads hat, hB,
    run_commandWrites hchannel, hat.drive, htask]

/-- **A read** gets the sectors up to the first one that is not there into memory, and says whether
it got all. -/
theorem run_ideAtaAccess_read (buffer : UInt32) (hat : DriveAt s drive c slave)
    (hB : b.run s.ports = B) (hpos : 1 ≤ n.toNat)
    (hfits : RequestFits (s.devices drive.toNat).features lba n) :
    let r := ideAtaAccess (b.host other busyReads) s .read drive lba n buffer
    let blocks := readFrom (B.platter c slave) lba.toNat n.toNat
    (r.1 = 0 ↔ blocks.length = n.toNat) ∧ ∃ ch failed, ch.drives = (B.channels c).drives ∧
      ch.transfer = .idle failed ∧
      b.run r.2.ports = B.set c ch (storeSectors B.ram buffer blocks) := by
  obtain ⟨ch, hselected, -, hdrives, htransfer, hrun⟩ :=
    run_request other busyReads hat hB hpos hfits .read
  have htable := sameTable_requested (b.host other busyReads) s ⟨.read, drive, lba, n⟩
  obtain ⟨hlength, failed, hread⟩ := run_readData other busyReads
    (s.devices drive.toNat).channel buffer (htable.at_iff.mpr hat.channel) hrun
    (by rw [channels_set]; exact htransfer)
  rw [channels_set, hselected] at hlength
  rw [channels_set, ram_set, hselected, set_set] at hread
  dsimp only
  rw [ideAtaAccess, hat.channel.base]
  exact ⟨hlength, ⟨ch.task, .idle failed, ch.drives⟩, failed, hdrives, rfl, hread⟩

/-- **A write** replaces the sectors up to the first one that is not there by those in memory, and
never fails. -/
theorem run_ideAtaAccess_write (buffer : UInt32) (hat : DriveAt s drive c slave)
    (hB : b.run s.ports = B) (hpos : 1 ≤ n.toNat)
    (hfits : RequestFits (s.devices drive.toNat).features lba n) :
    let r := ideAtaAccess (b.host other busyReads) s .write drive lba n buffer
    r.1 = 0 ∧ ∃ ch failed, ch.drives = Function.update (B.channels c).drives slave
        (writeFrom (B.platter c slave) lba.toNat (loadSectors B.ram buffer n.toNat)) ∧
      ch.transfer = .idle failed ∧ b.run r.2.ports = B.set c ch B.ram := by
  obtain ⟨ch, hselected, hslave, hdrives, htransfer, hrun⟩ :=
    run_request other busyReads hat hB hpos hfits .write
  have htable := (sameTable_requested (b.host other busyReads) s ⟨.write, drive, lba, n⟩).trans
    (sameTable_writeData (b.host other busyReads) _ (s.devices drive.toNat).channel (ataBase c)
      n.toNat buffer)
  obtain ⟨failed, hwrite⟩ := run_writeData other busyReads (s.devices drive.toNat).channel buffer
    hrun (by rw [channels_set]; exact htransfer)
  rw [channels_set, ram_set, hselected, hslave, hdrives, set_set] at hwrite
  dsimp only
  rw [ideAtaAccess, hat.channel.base]
  refine ⟨rfl, ⟨ch.task, .idle false, Function.update _ _ _⟩, false, rfl, rfl, ?_⟩
  dsimp only
  rw [(onlyReads_polling _ _ _ _).run_eq, ports_ideWriteRegister _ _ (ataRegCommand, _), run_append,
    hwrite, run_flush (htable.at_iff.mpr hat.channel), set_set, channels_set, ram_set]

end Access

end HalOS
