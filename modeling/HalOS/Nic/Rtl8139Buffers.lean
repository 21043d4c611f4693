import HalOS.Mm.VmmCalls
import HalOS.Nic.Rtl8139Ring

/-!
# The Buffers of the RTL8139

`rtl8139_init` asks `dma_alloc` for as many bytes as it needs pages: the receive ring of 16384 bytes
and the four transmit slots of 1792 bytes each have one page.

## Main results

* `within_rtl8139ReceivePacket_iff`: when a call reads inside the receive buffer.
* `insideAll_iff`: when a run of sending and receiving stays inside both buffers.
-/

namespace HalOS

open Access (Within)

/-! ### What was allocated -/

/-- The bytes of the pages that `dma_alloc` provides. -/
def dmaBytes (size : UInt32) : ℕ := (dmaPages size).toNat * 4096

/-- `tx_pages`. -/
def txPages : UInt32 := (numTxBuffers * txBufferSize.toUInt32 + 4096 - 1) / 4096

/-- What `rtl8139_init` gets for `nic.rx_buffer` and for `nic.tx_buffer`. -/
def rxBufferBytes : ℕ := dmaBytes rxBufferPages

def txBufferBytes : ℕ := dmaBytes txPages

theorem rxBufferBytes_eq : rxBufferBytes = 4096 := by decide

theorem txBufferBytes_eq : txBufferBytes = 4096 := by decide

variable {ring : ℕ → UInt8} {mac : List UInt8} {n fuel : ℕ} {cbr offset start : UInt16}
  {received : List (List UInt8)} {nic : Rtl8139}

/-! ### Sending -/

theorem within_rtl8139SendPacket {data : ℕ → UInt8} {len : UInt16} {m : ℕ → UInt8} :
    Within n (rtl8139SendPacket nic data len) m ↔
      txBufferSize < len ∨ len.toNat = 0 ∨ nic.txCurrent.toNat * 1792 + len.toNat ≤ n := by
  rw [rtl8139SendPacket, Access.within_ite]
  simp only [Access.within_touch, Access.within_pure, and_true, implies_true, true_and]
  exact Decidable.or_iff_not_imp_left.symm

/-! ### Receiving -/

/-- Where the header at an offset is read. -/
abbrev bufferPos (offset : UInt16) : ℕ := (offset % rxBufferSize).toNat

/-- The header, the source address and the frame at an offset end inside the buffer, the frame if
the loop does not return there. -/
structure ReadFits (ring : ℕ → UInt8) (mac : List UInt8) (n : ℕ) (pos : ℕ) : Prop where
  header : pos + 16 ≤ n
  frame : ¬ DropsAt ring mac pos → pos + 4 + (headerLength (bytesAt ring pos 4)).toNat ≤ n

/-- The offsets that the loop comes to, and after how many rounds. -/
inductive WalksTo (ring : ℕ → UInt8) (mac : List UInt8) (cbr : UInt16) :
    ℕ → UInt16 → UInt16 → Prop
  | here (start : UInt16) : WalksTo ring mac cbr 0 start start
  | next {k : ℕ} {start offset : UInt16} (goes : start ≠ cbr)
      (accepted : ¬ DropsAt ring mac (bufferPos start))
      (rest : WalksTo ring mac cbr k
        (nextRxOffset (start % rxBufferSize) (headerLength (bytesAt ring (bufferPos start) 4)))
        offset) :
      WalksTo ring mac cbr (k + 1) start offset

/-- One round. -/
theorem within_rxLoop_succ :
    Within n (rxLoop mac cbr (fuel + 1) start received) ring ↔
      start = cbr ∨ ReadFits ring mac n (bufferPos start) ∧
        (¬ DropsAt ring mac (bufferPos start) →
          Within n (rxLoop mac cbr fuel
            (nextRxOffset (start % rxBufferSize) (headerLength (bytesAt ring (bufferPos start) 4)))
            (received ++ [bytesAt ring (bufferPos start + 4)
              (headerLength (bytesAt ring (bufferPos start) 4)).toNat])) ring) := by
  have hrow : ∀ i len, (List.range len).map (fun j => ring (i + j)) = bytesAt ring i len :=
    fun _ _ => rfl
  rw [rxLoop, Access.within_ite]
  simp only [Access.within_pure, implies_true, true_and, Access.within_readMany,
    Access.within_ite, hrow]
  have hpos : ¬ DropsAt ring mac (bufferPos start) →
      (headerLength (bytesAt ring (bufferPos start) 4)).toNat ≠ 0 := fun hdrops hzero =>
    hdrops (Or.inr (Or.inl (UInt16.toNat_inj.mp hzero)))
  constructor
  · intro h
    refine or_iff_not_imp_left.mpr fun hend => ?_
    obtain ⟨-, hsource, hrest⟩ := h hend
    have hframe := fun hdrops : ¬ DropsAt ring mac (bufferPos start) =>
      hrest (fun hown => hdrops (Or.inl hown)) fun hbad => hdrops (Or.inr hbad)
    exact ⟨⟨hsource.resolve_left (by decide), fun hdrops =>
      (hframe hdrops).1.resolve_left (hpos hdrops)⟩, fun hdrops => (hframe hdrops).2⟩
  · intro h hend
    obtain ⟨hfits, hrest⟩ := h.resolve_left hend
    have hheader : (start % rxBufferSize).toNat + 16 ≤ n := hfits.header
    refine ⟨Or.inr (by omega), Or.inr hheader, fun hown hbad => ?_⟩
    have hdrops : ¬ DropsAt ring mac (bufferPos start) := not_or.mpr ⟨hown, hbad⟩
    exact ⟨Or.inr (hfits.frame hdrops), hrest hdrops⟩

/-- **The loop** reads inside the buffer if it does so at every offset that it comes to. -/
theorem within_rxLoop_iff :
    Within n (rxLoop mac cbr fuel start received) ring ↔
      ∀ k < fuel, ∀ offset, WalksTo ring mac cbr k start offset → offset ≠ cbr →
        ReadFits ring mac n (bufferPos offset) := by
  induction fuel generalizing start received with
  | zero => exact iff_of_true (Access.within_pure _) nofun
  | succ fuel ih =>
      rw [within_rxLoop_succ, ih]
      constructor
      · intro h k hk offset hwalk hne
        cases hwalk with
        | here => exact (h.resolve_left hne).1
        | next hgoes haccepted hrest =>
            exact (h.resolve_left hgoes).2 haccepted _ (Nat.lt_of_succ_lt_succ hk) offset hrest hne
      · intro h
        refine or_iff_not_imp_left.mpr fun hend => ⟨?_, fun hdrops k hk offset hwalk hne => ?_⟩
        · exact h 0 (Nat.succ_pos fuel) start (.here start) hend
        · exact h (k + 1) (Nat.succ_lt_succ hk) offset (.next hend hdrops hwalk) hne

/-- The loop ends by itself where it comes to the position of the device. -/
theorem rxLoop_done_iff :
    (∃ received', (rxLoop mac cbr fuel start received).value ring = some (.done cbr, received')) ↔
      ∃ k < fuel, WalksTo ring mac cbr k start cbr := by
  induction fuel generalizing start received with
  | zero => exact iff_of_false nofun nofun
  | succ fuel ih =>
      rw [value_rxLoop_succ rfl]
      by_cases hend : start = cbr
      · rw [if_pos hend]
        exact iff_of_true ⟨received, hend ▸ rfl⟩ ⟨0, Nat.succ_pos fuel, hend ▸ .here start⟩
      · rw [if_neg hend]
        by_cases hdrops : DropsAt ring mac (bufferPos start)
        · rw [if_pos hdrops]
          refine iff_of_false ?_ ?_
          · rintro ⟨received', h⟩
            cases h
          · rintro ⟨k, -, hwalk⟩
            cases hwalk with
            | here => exact hend rfl
            | next _ haccepted _ => exact haccepted hdrops
        · rw [if_neg hdrops, ih]
          constructor
          · rintro ⟨k, hk, hwalk⟩
            exact ⟨k + 1, Nat.succ_lt_succ hk, .next hend hdrops hwalk⟩
          · rintro ⟨k, hk, hwalk⟩
            cases hwalk with
            | here => exact absurd rfl hend
            | next _ _ hrest => exact ⟨_, Nat.lt_of_succ_lt_succ hk, hrest⟩

/-- The function behind its loop reads the word at the position of the device. -/
theorem within_rxFinish (x : Option (RxEnd × List (List UInt8)))
    (hx : ∀ o received, x = some (.done o, received) → o = cbr) :
    Within n (rxFinish nic x) ring ↔
      ((∃ received, x = some (.done cbr, received)) → bufferPos cbr + 2 ≤ n) := by
  rcases x with _ | ⟨offset | _, received⟩
  · exact iff_of_true (Access.within_pure _) (by rintro ⟨_, ⟨⟩⟩)
  · obtain rfl := hx offset received rfl
    rw [rxFinish, Access.within_readMany, Access.within_ite]
    simp only [Access.within_pure, implies_true, and_true]
    constructor
    · exact fun h _ => h.resolve_left (by decide)
    · exact fun h => Or.inr (h ⟨received, rfl⟩)
  · exact iff_of_true (Access.within_pure _) (by rintro ⟨_, ⟨⟩⟩)

/-- At every offset that the loop comes to the buffer has room: for a header and what is behind it,
and at the position of the device for a word. -/
def WalkFits (ring : ℕ → UInt8) (mac : List UInt8) (n : ℕ) (cbr start : UInt16) : Prop :=
  ∀ k offset, WalksTo ring mac cbr k start offset →
    (offset ≠ cbr → ReadFits ring mac n (bufferPos offset)) ∧
    (offset = cbr → bufferPos offset + 2 ≤ n)

/-- **A call** of `rtl8139_receive_packet`, however many rounds it takes. -/
theorem within_rtl8139ReceivePacket_iff (word3A word3C : UInt16) :
    (∀ fuel, Within n (rtl8139ReceivePacket fuel nic word3A word3C) ring) ↔
      behind16 (portPosition word3A word3C) = nic.rxPtr ∨
        WalkFits ring nic.mac n (behind16 (portPosition word3A word3C)) nic.rxPtr := by
  generalize hcbr : behind16 (portPosition word3A word3C) = cbr
  by_cases hnone : cbr = nic.rxPtr
  · refine iff_of_true (fun fuel => ?_) (Or.inl hnone)
    rw [rtl8139ReceivePacket, Access.within_ite, hcbr]
    exact ⟨fun _ => Access.within_pure _, fun h => absurd hnone h⟩
  have hcall : ∀ fuel, Within n (rtl8139ReceivePacket fuel nic word3A word3C) ring ↔
      Within n (rxLoop nic.mac cbr fuel nic.rxPtr nic.received) ring ∧
        ((∃ k < fuel, WalksTo ring nic.mac cbr k nic.rxPtr cbr) → bufferPos cbr + 2 ≤ n) := by
    intro fuel
    have hdone : (∃ received', (rxLoop nic.mac cbr fuel nic.rxPtr nic.received).value ring =
        some (.done cbr, received')) ↔ ∃ k < fuel, WalksTo ring nic.mac cbr k nic.rxPtr cbr :=
      rxLoop_done_iff
    rw [rtl8139ReceivePacket, Access.within_ite, hcbr, Access.within_bind]
    simp only [hnone, false_implies, true_and, not_false_eq_true, true_implies]
    rw [← hdone]
    exact and_congr_right' (within_rxFinish _ fun o r h => (rxLoop_eq_some h).1 o rfl)
  rw [or_iff_right hnone]
  constructor
  · intro h k offset hwalk
    obtain ⟨hloop, hend⟩ := (hcall (k + 1)).mp (h (k + 1))
    refine ⟨within_rxLoop_iff.mp hloop k (Nat.lt_succ_self k) offset hwalk, ?_⟩
    rintro rfl
    exact hend ⟨k, Nat.lt_succ_self k, hwalk⟩
  · refine fun h fuel => (hcall fuel).mpr ⟨?_, ?_⟩
    · exact within_rxLoop_iff.mpr fun k _ offset hwalk => (h k offset hwalk).1
    · rintro ⟨k, -, hwalk⟩
      exact (h k cbr hwalk).2 rfl

/-! ### Runs -/

/-- A call of `rtl8139_send_packet`, or one of `rtl8139_receive_packet` with this `rx_ptr`. -/
inductive NicCall
  | send (data : ℕ → UInt8) (len : UInt16)
  | receive (rxPtr : UInt16) (ring : ℕ → UInt8) (word3A word3C : UInt16)

/-- What a call leaves to the senders behind it. Any `rx_ptr` may come next. -/
def NicCall.next (nic : Rtl8139) : NicCall → Rtl8139
  | .send data len => (rtl8139SendPacket nic data len).value fun _ => 0
  | .receive _ _ _ _ => nic

/-- Every byte that the call touches is in the pages of its buffer. -/
def NicCall.Inside (nic : Rtl8139) : NicCall → Prop
  | .send data len => Within txBufferBytes (rtl8139SendPacket nic data len) fun _ => 0
  | .receive rxPtr ring word3A word3C => ∀ fuel,
      Within rxBufferBytes (rtl8139ReceivePacket fuel { nic with rxPtr := rxPtr } word3A word3C)
        ring

/-- The packet is accepted. -/
def NicCall.accepted : NicCall → Bool
  | .send _ len => len ≤ txBufferSize
  | .receive _ _ _ _ => false

/-- What has to fit, when so many packets have been accepted before: in the first two slots any
packet that is accepted, in the third slot 512 bytes, in the fourth one none. -/
def NicCall.Fits (mac : List UInt8) (sent : ℕ) : NicCall → Prop
  | .send _ len => len ≤ txBufferSize → len.toNat = 0 ∨ sent % 4 * 1792 + len.toNat ≤ 4096
  | .receive rxPtr ring word3A word3C =>
      behind16 (portPosition word3A word3C) = rxPtr ∨
        WalkFits ring mac 4096 (behind16 (portPosition word3A word3C)) rxPtr

/-- The calls of a run stay inside the buffers. -/
def InsideAll : Rtl8139 → List NicCall → Prop
  | _, [] => True
  | nic, call :: calls => call.Inside nic ∧ InsideAll (call.next nic) calls

/-- Each call of a run meets the condition. -/
def NicFitsAll (mac : List UInt8) : ℕ → List NicCall → Prop
  | _, [] => True
  | sent, call :: calls =>
      call.Fits mac sent ∧ NicFitsAll mac (if call.accepted then sent + 1 else sent) calls

/-- The slots are used in turn. -/
theorem NicCall.next_spec (call : NicCall) {sent : ℕ} (h : nic.txCurrent.toNat = sent % 4) :
    (call.next nic).mac = nic.mac ∧
      (call.next nic).txCurrent.toNat = (if call.accepted then sent + 1 else sent) % 4 := by
  cases call with
  | send data len =>
      rw [NicCall.next, rtl8139SendPacket, NicCall.accepted, Access.value_ite]
      by_cases hlarge : txBufferSize < len
      · rw [if_pos hlarge, if_neg (by simpa using hlarge)]
        exact ⟨rfl, h⟩
      · rw [if_neg hlarge, if_pos (by simpa using hlarge)]
        have hslot : ((nic.txCurrent + 1) % 4).toNat = (nic.txCurrent.toNat + 1) % 256 % 4 := by
          rw [UInt8.toNat_mod, UInt8.toNat_add]
          rfl
        exact ⟨rfl, hslot.trans (by omega)⟩
  | receive rxPtr ring word3A word3C => exact ⟨rfl, h⟩

/-- **One call.** -/
theorem NicCall.inside_iff (call : NicCall) {sent : ℕ} (h : nic.txCurrent.toNat = sent % 4) :
    call.Inside nic ↔ call.Fits nic.mac sent := by
  cases call with
  | send data len =>
      rw [NicCall.Inside, NicCall.Fits, within_rtl8139SendPacket, h, txBufferBytes_eq,
        ← UInt16.not_lt, ← or_iff_not_imp_left]
  | receive rxPtr ring word3A word3C =>
      rw [NicCall.Inside, rxBufferBytes_eq]
      exact within_rtl8139ReceivePacket_iff word3A word3C

/-- **The buffers.** In every run from `rtl8139_init` on, with any `rx_ptr` for each call that
receives, every byte that is touched lies in the pages of its buffer exactly if each packet that is
accepted ends at 4096 in its slot and each walk over the ring reads up to 4096. -/
theorem insideAll_iff (mac : List UInt8) (calls : List NicCall) :
    InsideAll { bootNic with mac := mac } calls ↔ NicFitsAll mac 0 calls := by
  have hrun : ∀ (nic : Rtl8139) (sent : ℕ), nic.txCurrent.toNat = sent % 4 →
      (InsideAll nic calls ↔ NicFitsAll nic.mac sent calls) := by
    induction calls with
    | nil => exact fun _ _ _ => Iff.rfl
    | cons call calls ih =>
        intro nic sent h
        obtain ⟨hmac, hslot⟩ := call.next_spec h
        rw [InsideAll, NicFitsAll, call.inside_iff h, ih _ _ hslot, hmac]
  exact hrun _ 0 rfl

/-- The third of three full frames ends 1002 bytes behind the buffer. -/
theorem insideAll_violated : ¬ ∀ (mac : List UInt8) (calls : List NicCall),
    (∀ call ∈ calls, call.accepted = true) → InsideAll { bootNic with mac := mac } calls := by
  intro h
  have hinside := h nicMac (List.replicate 3 (.send (fun _ => 0) 1514))
    (fun call hcall => by rw [List.eq_of_mem_replicate hcall]; rfl)
  have hthird := hinside.2.2.1
  rw [NicCall.Inside, within_rtl8139SendPacket] at hthird
  revert hthird
  decide

end HalOS
