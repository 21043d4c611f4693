import HalOS.Nic.Rtl8139

/-!
# The Receive Ring

The region of the receive buffer from `rx_ptr` to the position of the device holds frames. A
position counts on over the end of the buffer here, and is taken modulo its size where it is used.

`rtl8139_receive_packet` returns from the middle of its loop when it comes to a frame with the
address of the NIC as its source, and then `rx_ptr` stays: the frames before it are received again
with the next interrupt, and the ones behind it never.

## Main results

* `consumes_iff`: when a call receives the frames of the region and moves on behind them.
* `consumesAll_iff`: the same for one call after the other.
-/

namespace HalOS

/-! ### The region -/

/-- A frame in the ring, and the six bytes where its source address is read. -/
structure RxFrame where
  data : List UInt8
  srcMac : List UInt8
deriving DecidableEq, Repr

/-- Where the header behind a frame of this length is. -/
def nextHeader (pos len : ℕ) : ℕ := (pos + len + 7) / 4 * 4

/-- The buffer holds these frames from one position to another. -/
inductive RingHolds (ring : ℕ → UInt8) : ℕ → List RxFrame → ℕ → Prop
  | nil (pos : ℕ) : RingHolds ring pos [] pos
  | cons {pos stop : ℕ} {frame : RxFrame} {frames : List RxFrame}
      (length : (headerLength (bytesAt ring (pos % 16384) 4)).toNat = frame.data.length)
      (pos_len : 1 ≤ frame.data.length) (len_le : frame.data.length ≤ 1514)
      (data : bytesAt ring (pos % 16384 + 4) frame.data.length = frame.data)
      (srcMac : bytesAt ring (pos % 16384 + 10) 6 = frame.srcMac)
      (rest : RingHolds ring (nextHeader pos frame.data.length) frames stop) :
      RingHolds ring pos (frame :: frames) stop

variable {ring : ℕ → UInt8} {mac : List UInt8} {pos stop fuel : ℕ} {frame : RxFrame}
  {frames : List RxFrame} {cbr offset : UInt16} {received received' : List (List UInt8)}

theorem RingHolds.le (h : RingHolds ring pos frames stop) : pos ≤ stop := by
  induction h with
  | nil pos => exact Nat.le_refl pos
  | cons _ _ _ _ _ _ ih =>
      rw [nextHeader] at ih
      omega

theorem RingHolds.lt (h : RingHolds ring pos (frame :: frames) stop) : pos < stop := by
  cases h with
  | cons _ _ _ _ _ hrest =>
      have hle := hrest.le
      rw [nextHeader] at hle
      omega

theorem nextHeader_mod (pos len : ℕ) :
    nextHeader (pos % 16384) len % 16384 = nextHeader pos len % 16384 := by
  rw [nextHeader, nextHeader]
  omega

/-! ### The loop -/

/-- A header whose length `rtl8139_receive_packet` does not accept. -/
def BadLength (ring : ℕ → UInt8) (pos : ℕ) : Prop :=
  headerLength (bytesAt ring pos 4) = 0 ∨ 1514 < headerLength (bytesAt ring pos 4)

instance (ring : ℕ → UInt8) (pos : ℕ) : Decidable (BadLength ring pos) :=
  inferInstanceAs (Decidable (_ ∨ _))

/-- What makes the loop return at a header. -/
def DropsAt (ring : ℕ → UInt8) (mac : List UInt8) (pos : ℕ) : Prop :=
  bytesAt ring (pos + 10) 6 = mac ∨ BadLength ring pos

instance (ring : ℕ → UInt8) (mac : List UInt8) (pos : ℕ) : Decidable (DropsAt ring mac pos) :=
  inferInstanceAs (Decidable (_ ∨ _))

theorem toNat_bufferPos (hoffset : offset.toNat = pos % 16384) :
    (offset % rxBufferSize).toNat = pos % 16384 := by
  rw [UInt16.toNat_mod, hoffset]
  exact Nat.mod_mod pos 16384

/-- **One round**, at a header. -/
theorem value_rxLoop_succ {p : ℕ} (hp : (offset % rxBufferSize).toNat = p) :
    (rxLoop mac cbr (fuel + 1) offset received).value ring =
      if offset = cbr then some (.done offset, received)
      else if DropsAt ring mac p then some (.dropped, received)
      else
        (rxLoop mac cbr fuel
          (nextRxOffset (offset % rxBufferSize) (headerLength (bytesAt ring p 4)))
          (received ++
            [bytesAt ring (p + 4) (headerLength (bytesAt ring p 4)).toNat])).value ring := by
  have hrow : ∀ start len, (List.range len).map (fun i => ring (start + i)) =
      bytesAt ring start len := fun _ _ => rfl
  rw [rxLoop]
  simp only [Access.value_ite, Access.value_pure, Access.value_readMany, hrow, hp]
  refine if_congr Iff.rfl rfl ?_
  by_cases hown : bytesAt ring (p + 10) 6 = mac
  · have hdrops : DropsAt ring mac p := Or.inl hown
    rw [if_pos hown, if_pos hdrops]
  · rw [if_neg hown]
    refine if_congr ?_ rfl rfl
    rw [DropsAt, or_iff_right hown]
    rfl

/-- The header of a frame in the region. -/
theorem RingHolds.not_dropsAt (h : RingHolds ring pos (frame :: frames) stop)
    (hown : frame.srcMac ≠ mac) : ¬ DropsAt ring mac (pos % 16384) := by
  cases h with
  | cons hlength hlow hhigh _ hsrc _ =>
      rintro (hmac | hzero | hlong)
      · exact hown (hsrc.symm.trans hmac)
      · rw [hzero] at hlength
        exact absurd (hlength ▸ hlow) (by decide)
      · have hlt := UInt16.lt_iff_toNat_lt.mp hlong
        rw [hlength] at hlt
        exact absurd hhigh (Nat.not_le.mpr hlt)

/-- Where the frame behind a frame of the region is. -/
theorem RingHolds.next (h : RingHolds ring pos (frame :: frames) stop)
    (hoffset : offset.toNat = pos % 16384) :
    (nextRxOffset (offset % rxBufferSize) (headerLength (bytesAt ring (pos % 16384) 4))).toNat =
      nextHeader pos frame.data.length % 16384 := by
  cases h with
  | cons hlength _ hhigh _ _ _ =>
      have hpos := toNat_bufferPos hoffset
      rw [toNat_nextRxOffset (by rw [hpos]; exact Nat.mod_lt _ (by decide)) (by omega), hpos,
        hlength]
      exact nextHeader_mod pos frame.data.length

/-- The loop is not at its end before the last frame. -/
theorem RingHolds.ne_cbr (h : RingHolds ring pos (frame :: frames) stop)
    (hsize : stop < pos + 16384) (hoffset : offset.toNat = pos % 16384)
    (hcbr : cbr.toNat = stop % 16384) : offset ≠ cbr := by
  have hlt := h.lt
  rintro rfl
  omega

/-- The region of the other frames. -/
theorem RingHolds.tail (h : RingHolds ring pos (frame :: frames) stop)
    (hsize : stop < pos + 16384) :
    RingHolds ring (nextHeader pos frame.data.length) frames stop ∧
      stop < nextHeader pos frame.data.length + 16384 := by
  cases h with
  | cons _ _ _ _ _ hrest =>
      refine ⟨hrest, ?_⟩
      rw [nextHeader]
      omega

/-- The bytes that go to `net_process_packet`. -/
theorem RingHolds.packet (h : RingHolds ring pos (frame :: frames) stop) :
    bytesAt ring (pos % 16384 + 4) (headerLength (bytesAt ring (pos % 16384) 4)).toNat =
      frame.data := by
  cases h with
  | cons hlength _ _ hdata _ _ => rw [hlength, hdata]

/-- **The loop**, over frames of others. -/
theorem rxLoop_of_others (h : RingHolds ring pos frames stop) (hsize : stop < pos + 16384)
    (hoffset : offset.toNat = pos % 16384) (hcbr : cbr.toNat = stop % 16384)
    (hothers : ∀ f ∈ frames, f.srcMac ≠ mac) (hfuel : frames.length < fuel) :
    (rxLoop mac cbr fuel offset received).value ring =
      some (.done cbr, received ++ frames.map RxFrame.data) := by
  induction frames generalizing pos fuel offset received with
  | nil =>
      cases h
      obtain ⟨fuel, rfl⟩ := Nat.exists_eq_succ_of_ne_zero (Nat.ne_of_gt hfuel)
      have hend : offset = cbr := UInt16.toNat_inj.mp (hoffset.trans hcbr.symm)
      rw [value_rxLoop_succ (toNat_bufferPos hoffset), if_pos hend, hend, List.map_nil,
        List.append_nil]
  | cons frame frames ih =>
      obtain ⟨fuel, rfl⟩ := Nat.exists_eq_succ_of_ne_zero (Nat.ne_of_gt (Nat.zero_lt_of_lt hfuel))
      obtain ⟨hrest, hroom⟩ := h.tail hsize
      rw [value_rxLoop_succ (toNat_bufferPos hoffset), if_neg (h.ne_cbr hsize hoffset hcbr),
        if_neg (h.not_dropsAt (hothers frame List.mem_cons_self)), h.packet,
        ih hrest hroom (h.next hoffset) (fun f hf => hothers f (List.mem_cons_of_mem _ hf))
          (Nat.lt_of_succ_lt_succ hfuel), List.map_cons, List.append_assoc]
      rfl

/-- The frames up to the first one of our own. -/
def beforeOwn (mac : List UInt8) (frames : List RxFrame) : List RxFrame :=
  frames.takeWhile fun f => f.srcMac ≠ mac

/-- **A frame of our own** is where the loop returns. -/
theorem rxLoop_of_own (h : RingHolds ring pos frames stop) (hsize : stop < pos + 16384)
    (hoffset : offset.toNat = pos % 16384) (hcbr : cbr.toNat = stop % 16384)
    (hown : ∃ f ∈ frames, f.srcMac = mac) {e : RxEnd}
    (hend : (rxLoop mac cbr fuel offset received).value ring = some (e, received')) :
    e = .dropped ∧ received' = received ++ (beforeOwn mac frames).map RxFrame.data := by
  induction frames generalizing pos fuel offset received with
  | nil => exact absurd hown (by simp)
  | cons frame frames ih =>
      cases fuel with
      | zero => cases hend
      | succ fuel =>
          rw [value_rxLoop_succ (toNat_bufferPos hoffset),
            if_neg (h.ne_cbr hsize hoffset hcbr)] at hend
          by_cases hfirst : frame.srcMac = mac
          · have hdrops : DropsAt ring mac (pos % 16384) := by
              cases h with
              | cons _ _ _ _ hread _ => exact Or.inl (hread.trans hfirst)
            rw [if_pos hdrops] at hend
            cases hend
            simp [beforeOwn, hfirst]
          · obtain ⟨hrest, hroom⟩ := h.tail hsize
            obtain ⟨f, hf, hsrc⟩ := hown
            have hlater : ∃ f ∈ frames, f.srcMac = mac := by
              rcases List.mem_cons.mp hf with rfl | hf
              · exact absurd hsrc hfirst
              · exact ⟨f, hf, hsrc⟩
            rw [if_neg (h.not_dropsAt hfirst), h.packet] at hend
            obtain ⟨hdropped, heq⟩ := ih hrest hroom (h.next hoffset) hlater hend
            refine ⟨hdropped, ?_⟩
            rw [heq]
            simp [beforeOwn, hfirst]

/-- Where the loop ends by itself, and that it only adds to what has been received. -/
theorem rxLoop_eq_some {e : RxEnd}
    (hend : (rxLoop mac cbr fuel offset received).value ring = some (e, received')) :
    (∀ o, e = .done o → o = cbr) ∧ received <+: received' := by
  induction fuel generalizing offset received with
  | zero => cases hend
  | succ fuel ih =>
      rw [value_rxLoop_succ rfl] at hend
      split_ifs at hend with hdone hdrops
      · cases hend
        refine ⟨?_, List.prefix_refl _⟩
        rintro o ho
        cases ho
        exact hdone
      · cases hend
        exact ⟨nofun, List.prefix_refl _⟩
      · obtain ⟨hcbr, hprefix⟩ := ih hend
        exact ⟨hcbr, (List.prefix_append _ _).trans hprefix⟩

/-! ### Calls -/

/-- A call of `rtl8139_receive_packet`: the receive buffer, what the two ports give, and the frames
in the region up to the position of the device. -/
structure RxCall where
  ring : ℕ → UInt8
  word3A : UInt16
  word3C : UInt16
  frames : List RxFrame
  stop : ℕ

/-- The position of the device in the buffer. -/
def RxCall.writePos (c : RxCall) : ℕ := c.stop % 16384

/-- The region from `rx_ptr` on holds the frames. -/
structure RxCall.Fits (c : RxCall) (rxPtr : ℕ) : Prop where
  holds : RingHolds c.ring rxPtr c.frames c.stop
  room : c.stop < rxPtr + 16384

/-- `rtl8139_receive_packet` returns. -/
def RxCall.Returns (c : RxCall) (nic nic' : Rtl8139) : Prop :=
  ∃ fuel, (rtl8139ReceivePacket fuel nic c.word3A c.word3C).value c.ring = some nic'

/-- The frames of others have gone to `net_process_packet`, each of them once and in their order,
`rx_ptr` is the position of the device, and the position 16 bytes before it was written to
`REG_CAPR`. If there were no frames, nothing is written. -/
structure RxCall.Consumes (c : RxCall) (nic nic' : Rtl8139) : Prop where
  received : nic'.received =
    nic.received ++ (c.frames.filter fun f => f.srcMac ≠ nic.mac).map RxFrame.data
  rxPtr : nic'.rxPtr.toNat = c.writePos
  capr : c.frames ≠ [] → ∃ word : UInt16, nic'.capr = nic.capr ++ [word] ∧
    word.toNat = (c.writePos + 16368) % 16384

/-- The two ports, put together, are 16 above the position of the device, up to the size of the
buffer. -/
def RxCall.PortsAgree (c : RxCall) : Prop :=
  16 ≤ (portPosition c.word3A c.word3C).toNat ∧
    ((portPosition c.word3A c.word3C).toNat - 16) % 16384 = c.writePos

instance (c : RxCall) : Decidable c.PortsAgree := inferInstanceAs (Decidable (_ ∧ _))

/-- What has to hold of a call: the ports agree with the position; no frame has the address of the
NIC as its source; the position is not below 16; and the bytes behind the region do not look like
an overflow. If there are no frames, it is enough that these bytes make the loop return. -/
def RxCall.Meets (c : RxCall) (mac : List UInt8) : Prop :=
  if c.frames = [] then c.PortsAgree ∨ DropsAt c.ring mac c.writePos
  else c.PortsAgree ∧ (∀ f ∈ c.frames, f.srcMac ≠ mac) ∧ 16 ≤ c.writePos ∧
    c.ring (c.writePos + 1) &&& 0x80 = 0

instance (c : RxCall) (mac : List UInt8) : Decidable (c.Meets mac) :=
  if h : c.frames = [] then
    decidable_of_iff (c.PortsAgree ∨ DropsAt c.ring mac c.writePos) (by rw [RxCall.Meets, if_pos h])
  else
    decidable_of_iff (c.PortsAgree ∧ (∀ f ∈ c.frames, f.srcMac ≠ mac) ∧ 16 ≤ c.writePos ∧
      c.ring (c.writePos + 1) &&& 0x80 = 0) (by rw [RxCall.Meets, if_neg h])

variable {c : RxCall} {nic nic' : Rtl8139}

theorem portsAgree_iff :
    c.PortsAgree ↔ (behind16 (portPosition c.word3A c.word3C)).toNat = c.writePos := by
  have hlt : c.writePos < 16384 := Nat.mod_lt _ (by decide)
  rw [RxCall.PortsAgree]
  by_cases hlow : 16 ≤ (portPosition c.word3A c.word3C).toNat
  · rw [toNat_behind16 hlow, and_iff_right hlow]
  · rw [toNat_behind16_of_lt (Nat.not_le.mp hlow)]
    omega

/-- With the interrupt mask of `rtl8139_init` in the port 0x3C, which is `REG_IMR`, the ports agree
with no position where a frame can begin. -/
theorem not_portsAgree_of_imr (himr : c.word3C = 5) (hstop : c.stop % 4 = 0) : ¬ c.PortsAgree := by
  have hlow : (5 : UInt16) &&& 0xFF = 5 := by decide
  have hraw : (portPosition c.word3A c.word3C).toNat % 256 = 5 := by
    have hor := Nat.shiftLeft_add_eq_or_of_lt (by decide : 5 < 2 ^ 8) (c.word3A.toNat % 256)
    have hshift : c.word3A.toNat <<< 8 % 2 ^ 16 = (c.word3A.toNat % 256) <<< 8 := by
      rw [Nat.shiftLeft_eq, Nat.shiftLeft_eq]
      omega
    have hnat : (portPosition c.word3A c.word3C).toNat = c.word3A.toNat <<< 8 % 2 ^ 16 ||| 5 := by
      rw [portPosition, himr, hlow, UInt16.toNat_or, UInt16.toNat_shiftLeft]
      rfl
    rw [hnat, hshift, ← hor, Nat.shiftLeft_eq]
    omega
  rintro ⟨hhigh, hagree⟩
  rw [RxCall.writePos] at hagree
  omega

/-- What a call does that returns: nothing, if there is nothing new; or the loop has come to an
end, and `rx_ptr` moves if it has ended by itself and there is no overflow. -/
theorem RxCall.Returns.cases (h : c.Returns nic nic') :
    (behind16 (portPosition c.word3A c.word3C) = nic.rxPtr ∧ nic' = nic) ∨
    behind16 (portPosition c.word3A c.word3C) ≠ nic.rxPtr ∧
      ∃ fuel e received,
        (rxLoop nic.mac (behind16 (portPosition c.word3A c.word3C)) fuel nic.rxPtr
          nic.received).value c.ring = some (e, received) ∧
        ((rxFinish nic (some (e, received))).value c.ring = some nic') := by
  obtain ⟨fuel, h⟩ := h
  rw [rtl8139ReceivePacket, Access.value_ite] at h
  by_cases hnone : behind16 (portPosition c.word3A c.word3C) = nic.rxPtr
  · rw [if_pos hnone] at h
    exact Or.inl ⟨hnone, (Option.some.inj h).symm⟩
  · rw [if_neg hnone, Access.value_bind] at h
    refine Or.inr ⟨hnone, fuel, ?_⟩
    cases hloop : (rxLoop nic.mac (behind16 (portPosition c.word3A c.word3C)) fuel nic.rxPtr
        nic.received).value c.ring with
    | none =>
        rw [hloop] at h
        cases h
    | some x => exact ⟨x.1, x.2, rfl, hloop ▸ h⟩

/-- The end of a call whose loop has ended by itself. -/
theorem value_rxFinish_done (nic : Rtl8139) (offset : UInt16) (received : List (List UInt8))
    {p : ℕ} (hp : (offset % rxBufferSize).toNat = p) (ring : ℕ → UInt8) :
    (rxFinish nic (some (.done offset, received))).value ring =
      if ring (p + 1) &&& 0x80 = 0 then
        some { nic with
          received := received
          rxPtr := offset
          capr := nic.capr ++ [behind16 offset] }
      else some { nic with received := received } := by
  rw [rxFinish, Access.value_readMany, Access.value_ite, hp]
  exact ite_not (ring (p + 1) &&& 0x80 = 0) _ _

/-- Whatever the end of a call does, it keeps what has been received. -/
theorem rxFinish_eq_some {e : RxEnd}
    (h : (rxFinish nic (some (e, received))).value ring = some nic') :
    nic'.received = received ∧ nic'.mac = nic.mac ∧
      (nic'.rxPtr = nic.rxPtr ∨ ∃ offset, e = .done offset ∧
        ring ((offset % rxBufferSize).toNat + 1) &&& 0x80 = 0 ∧ nic'.rxPtr = offset ∧
        nic'.capr = nic.capr ++ [behind16 offset]) := by
  cases e with
  | dropped =>
      cases h
      exact ⟨rfl, rfl, Or.inl rfl⟩
  | done offset =>
      rw [value_rxFinish_done nic offset received rfl] at h
      split_ifs at h with hclear
      · cases h
        exact ⟨rfl, rfl, Or.inr ⟨offset, rfl, hclear, rfl, rfl⟩⟩
      · cases h
        exact ⟨rfl, rfl, Or.inl rfl⟩

theorem RxCall.Returns.mac_eq (h : c.Returns nic nic') : nic'.mac = nic.mac := by
  obtain ⟨-, rfl⟩ | ⟨-, fuel, e, received, -, hfinish⟩ := h.cases
  · rfl
  · exact (rxFinish_eq_some hfinish).2.1

/-! ### One call -/

/-- The device is not where the driver is, if there are frames. -/
theorem RxCall.Fits.writePos_ne {rxPtr : ℕ} (h : c.Fits rxPtr)
    (hframes : c.frames ≠ []) : rxPtr ≠ c.writePos := by
  obtain ⟨frame, frames, heq⟩ := List.exists_cons_of_ne_nil hframes
  have hlt := (heq ▸ h.holds).lt
  have hroom := h.room
  rw [RxCall.writePos]
  omega

/-- A call with nothing new. -/
theorem consumes_iff_of_nil (hframes : c.frames = []) (hpos : nic.rxPtr.toNat = c.writePos) :
    (∃ nic', c.Returns nic nic' ∧ c.Consumes nic nic') ↔
      c.PortsAgree ∨ DropsAt c.ring nic.mac c.writePos := by
  have hsame : c.Consumes nic nic :=
    { received := by rw [hframes, List.filter_nil, List.map_nil, List.append_nil]
      rxPtr := hpos
      capr := fun hne => absurd hframes hne }
  have hcbr : behind16 (portPosition c.word3A c.word3C) = nic.rxPtr ↔ c.PortsAgree := by
    rw [portsAgree_iff, ← hpos, UInt16.toNat_inj]
  have hlt : c.writePos < 16384 := Nat.mod_lt _ (by decide)
  have hbuffer : (nic.rxPtr % rxBufferSize).toNat = c.writePos := by
    rw [UInt16.toNat_mod, hpos]
    exact Nat.mod_eq_of_lt hlt
  constructor
  · rintro ⟨nic', hreturns, hconsumes⟩
    obtain ⟨hnone, -⟩ | ⟨hnew, fuel, e, received, hloop, hfinish⟩ := hreturns.cases
    · exact Or.inl (hcbr.mp hnone)
    · refine or_iff_not_imp_right.mpr fun hgoes => ?_
      cases fuel with
      | zero => cases hloop
      | succ fuel =>
          rw [value_rxLoop_succ hbuffer, if_neg (Ne.symm hnew), if_neg hgoes] at hloop
          have hlen := (rxLoop_eq_some hloop).2.length_le
          have hreceived := (rxFinish_eq_some hfinish).1.symm.trans hconsumes.received
          rw [hreceived, hframes] at hlen
          simp at hlen
  · intro hmeets
    refine ⟨nic, ?_, hsame⟩
    by_cases hnone : behind16 (portPosition c.word3A c.word3C) = nic.rxPtr
    · refine ⟨0, ?_⟩
      rw [rtl8139ReceivePacket, Access.value_ite, if_pos hnone]
      rfl
    · have hdrops := hmeets.resolve_left fun hagree => hnone (hcbr.mpr hagree)
      refine ⟨1, ?_⟩
      rw [rtl8139ReceivePacket, Access.value_ite, if_neg hnone, Access.value_bind,
        value_rxLoop_succ hbuffer, if_neg (Ne.symm hnone), if_pos hdrops]
      rfl

/-- A call with something new. -/
theorem consumes_iff_of_ne_nil (hframes : c.frames ≠ []) (hrx : nic.rxPtr.toNat < 16384)
    (hfits : c.Fits nic.rxPtr.toNat) :
    (∃ nic', c.Returns nic nic' ∧ c.Consumes nic nic') ↔
      c.PortsAgree ∧ (∀ f ∈ c.frames, f.srcMac ≠ nic.mac) ∧ 16 ≤ c.writePos ∧
        c.ring (c.writePos + 1) &&& 0x80 = 0 := by
  have hne := hfits.writePos_ne hframes
  have hlt : c.writePos < 16384 := Nat.mod_lt _ (by decide)
  have hoffset : nic.rxPtr.toNat = nic.rxPtr.toNat % 16384 := (Nat.mod_eq_of_lt hrx).symm
  generalize hcbr : behind16 (portPosition c.word3A c.word3C) = cbr
  have hagree : c.PortsAgree ↔ cbr.toNat = c.writePos := by rw [portsAgree_iff, hcbr]
  constructor
  · rintro ⟨nic', hreturns, hconsumes⟩
    have hmoved : nic'.rxPtr ≠ nic.rxPtr := fun heq => hne (heq ▸ hconsumes.rxPtr)
    obtain ⟨-, rfl⟩ | ⟨-, fuel, e, received, hloop, hfinish⟩ := hreturns.cases
    · exact absurd rfl hmoved
    obtain ⟨-, -, hsame | ⟨offset, rfl, hclear, hptr, hcapr⟩⟩ := rxFinish_eq_some hfinish
    · exact absurd hsame hmoved
    rw [hcbr] at hloop
    obtain rfl : offset = cbr := (rxLoop_eq_some hloop).1 offset rfl
    have hend : offset.toNat = c.writePos := hptr ▸ hconsumes.rxPtr
    refine ⟨hagree.mpr hend, fun f hf hown => ?_, ?_, ?_⟩
    · exact absurd (rxLoop_of_own hfits.holds hfits.room hoffset hend ⟨f, hf, hown⟩ hloop).1 nofun
    · obtain ⟨word, hword, hvalue⟩ := hconsumes.capr hframes
      obtain rfl : behind16 offset = word :=
        List.singleton_inj.mp (List.append_cancel_left (hcapr.symm.trans hword))
      by_contra hlow
      rw [toNat_behind16_of_lt (by omega)] at hvalue
      omega
    · have hbuffer : (offset % rxBufferSize).toNat = c.writePos := toNat_bufferPos hend
      rwa [hbuffer] at hclear
  · rintro ⟨hports, hothers, hhigh, hclear⟩
    have hend := hagree.mp hports
    have hloop : (rxLoop nic.mac cbr (c.frames.length + 1) nic.rxPtr nic.received).value c.ring =
        some (.done cbr, nic.received ++ c.frames.map RxFrame.data) :=
      rxLoop_of_others hfits.holds hfits.room hoffset hend hothers (Nat.lt_succ_self _)
    have hnew : cbr ≠ nic.rxPtr := fun heq => hne (heq ▸ hend)
    have hbuffer : (cbr % rxBufferSize).toNat = c.writePos := toNat_bufferPos hend
    have hreturns : c.Returns nic
        { nic with
          received := nic.received ++ c.frames.map RxFrame.data
          rxPtr := cbr
          capr := nic.capr ++ [behind16 cbr] } :=
      ⟨c.frames.length + 1, by
        rw [rtl8139ReceivePacket, Access.value_ite, hcbr, if_neg hnew, Access.value_bind, hloop,
          value_rxFinish_done nic cbr _ hbuffer, if_pos hclear]⟩
    have hbehind : (behind16 cbr).toNat = (c.writePos + 16368) % 16384 := by
      rw [toNat_behind16 (by omega), hend]
      omega
    exact ⟨_, hreturns,
      { received := by rw [List.filter_eq_self.mpr fun f hf => decide_eq_true (hothers f hf)]
        rxPtr := hend
        capr := fun _ => ⟨behind16 cbr, rfl, hbehind⟩ }⟩

/-- **One call.** -/
theorem consumes_iff (hrx : nic.rxPtr.toNat < 16384) (hfits : c.Fits nic.rxPtr.toNat) :
    (∃ nic', c.Returns nic nic' ∧ c.Consumes nic nic') ↔ c.Meets nic.mac := by
  rw [RxCall.Meets]
  by_cases hframes : c.frames = []
  · have hholds := hfits.holds
    rw [hframes] at hholds
    generalize hpos : nic.rxPtr.toNat = rxPtr at hrx hholds
    cases hholds with
    | nil =>
        rw [if_pos hframes]
        exact consumes_iff_of_nil hframes (hpos.trans (Nat.mod_eq_of_lt hrx).symm)
  · rw [if_neg hframes]
    exact consumes_iff_of_ne_nil hframes hrx hfits

/-- **A frame of our own stays.** The frames before it are received, and `rx_ptr` does not move. -/
theorem blocked_of_own (hrx : nic.rxPtr.toNat < 16384) (hfits : c.Fits nic.rxPtr.toNat)
    (hports : c.PortsAgree) (hown : ∃ f ∈ c.frames, f.srcMac = nic.mac)
    (h : c.Returns nic nic') :
    nic'.rxPtr = nic.rxPtr ∧
      nic'.received = nic.received ++ (beforeOwn nic.mac c.frames).map RxFrame.data := by
  obtain ⟨f, hf, hsrc⟩ := hown
  have hend := portsAgree_iff.mp hports
  have hne := hfits.writePos_ne (List.ne_nil_of_mem hf)
  obtain ⟨hnone, -⟩ | ⟨-, fuel, e, received, hloop, hfinish⟩ := h.cases
  · exact absurd (hnone ▸ hend) hne
  · obtain ⟨rfl, rfl⟩ := rxLoop_of_own hfits.holds hfits.room (Nat.mod_eq_of_lt hrx).symm hend
      ⟨f, hf, hsrc⟩ hloop
    obtain ⟨hreceived, -, hsame | ⟨offset, hdone, -⟩⟩ := rxFinish_eq_some hfinish
    · exact ⟨hsame, hreceived⟩
    · cases hdone

/-! ### One call after the other -/

/-- The region of each call begins where the one of the call before it has ended. -/
def FitAll : ℕ → List RxCall → Prop
  | _, [] => True
  | rxPtr, c :: calls => c.Fits rxPtr ∧ FitAll c.writePos calls

/-- Each call consumes its frames. -/
def ConsumesAll : Rtl8139 → List RxCall → Prop
  | _, [] => True
  | nic, c :: calls => ∃ nic', c.Returns nic nic' ∧ c.Consumes nic nic' ∧ ConsumesAll nic' calls

/-- **The receive ring.** In every run of calls each call receives the frames of others in its
region once and in order, ends at the position of the device and tells it so, exactly if each call
meets the condition. -/
theorem consumesAll_iff (nic : Rtl8139) (calls : List RxCall) (hrx : nic.rxPtr.toNat < 16384)
    (hfit : FitAll nic.rxPtr.toNat calls) :
    ConsumesAll nic calls ↔ ∀ c ∈ calls, c.Meets nic.mac := by
  induction calls generalizing nic with
  | nil => exact iff_of_true trivial nofun
  | cons c calls ih =>
      obtain ⟨hfits, hrest⟩ := hfit
      rw [List.forall_mem_cons, ← consumes_iff hrx hfits]
      have hnext : ∀ nic', c.Returns nic nic' → c.Consumes nic nic' →
          (ConsumesAll nic' calls ↔ ∀ d ∈ calls, d.Meets nic.mac) := by
        intro nic' hreturns hconsumes
        rw [← hreturns.mac_eq]
        refine ih nic' ?_ (hconsumes.rxPtr ▸ hrest)
        rw [hconsumes.rxPtr]
        exact Nat.mod_lt _ (by decide)
      constructor
      · rintro ⟨nic', hreturns, hconsumes, hall⟩
        exact ⟨⟨nic', hreturns, hconsumes⟩, (hnext nic' hreturns hconsumes).mp hall⟩
      · rintro ⟨⟨nic', hreturns, hconsumes⟩, hall⟩
        exact ⟨nic', hreturns, hconsumes, (hnext nic' hreturns hconsumes).mpr hall⟩

/-- A broadcast of 60 bytes, and the ring with broadcasts from these addresses. -/
def broadcastFrame (srcMac : List UInt8) : List UInt8 :=
  List.replicate 6 0xFF ++ srcMac ++ List.replicate 48 0

def broadcastRing (srcMacs : List (List UInt8)) (i : ℕ) : UInt8 :=
  (srcMacs.flatMap fun srcMac => [1, 0, 60, 0] ++ broadcastFrame srcMac).getD i 0

def gatewayMac : List UInt8 := [0x52, 0x55, 10, 0, 2, 2]
def nicMac : List UInt8 := [0x52, 0x54, 0, 0x12, 0x34, 0x56]

/-- The NIC after `rtl8139_init`. -/
def bootNic : Rtl8139 where
  mac := nicMac
  rxPtr := 0
  txCurrent := 0
  txBuffer := fun _ => 0
  received := []
  capr := []
  txStatus := []

/-- A call after two broadcasts have come. -/
def twoBroadcasts (srcMac srcMac' : List UInt8) : RxCall where
  ring := broadcastRing [srcMac, srcMac']
  word3A := 0
  word3C := 144
  frames := [⟨broadcastFrame srcMac, srcMac⟩, ⟨broadcastFrame srcMac', srcMac'⟩]
  stop := 128

theorem fits_twoBroadcasts (c : RxCall)
    (hc : c = twoBroadcasts gatewayMac gatewayMac ∨ c = twoBroadcasts nicMac gatewayMac) :
    c.Fits 0 := by
  rcases hc with rfl | rfl
  all_goals
    refine ⟨?_, by decide⟩
    exact .cons (by decide) (by decide) (by decide) (by decide) (by decide)
      (.cons (by decide) (by decide) (by decide) (by decide) (by decide) (.nil 128))

theorem consumesAll_iff_gateway : ConsumesAll bootNic [twoBroadcasts gatewayMac gatewayMac] :=
  (consumesAll_iff bootNic [twoBroadcasts gatewayMac gatewayMac] (by decide)
    ⟨fits_twoBroadcasts _ (Or.inl rfl), trivial⟩).mpr
    (List.forall_mem_singleton.mpr (by decide))

/-- The gateway's frame is never received behind a frame of our own. -/
theorem consumesAll_violated :
    ¬ ∀ (nic : Rtl8139) (calls : List RxCall), nic.rxPtr.toNat < 16384 →
      FitAll nic.rxPtr.toNat calls →
      (∀ c ∈ calls, c.frames ≠ [] ∧ c.PortsAgree ∧ c.ring (c.writePos + 1) &&& 0x80 = 0) →
      ConsumesAll nic calls := by
  intro h
  have hfits := fits_twoBroadcasts _ (Or.inr rfl)
  obtain ⟨nic', hreturns, hconsumes, -⟩ := h bootNic [twoBroadcasts nicMac gatewayMac]
    (by decide) ⟨hfits, trivial⟩ (List.forall_mem_singleton.mpr (by decide))
  have hmeets := (consumes_iff (by decide) hfits).mp ⟨nic', hreturns, hconsumes⟩
  exact absurd hmeets (by decide)

end HalOS
