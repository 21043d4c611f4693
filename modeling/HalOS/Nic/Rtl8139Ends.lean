import HalOS.Lib.FiniteWalk
import HalOS.Nic.Rtl8139Ring

/-!
# The End of the Receive Loop

The loop of `rtl8139_receive_packet` goes from header to header until one is at the position that
the device has given, or makes it return. A position that no header has is never met: the device's
position is not rounded to a multiple of four, and below 16 it is not a place in the buffer.

## Main results

* `receiveEnds_iff`: for which contents of the buffer and which positions the loop ends.
-/

namespace HalOS

/-! ### The headers -/

/-- The place of the header behind the one at `pos`. -/
def headerAfter (ring : ℕ → UInt8) (pos : ℕ) : ℕ :=
  nextHeader pos (headerLength (bytesAt ring pos 4)).toNat % 16384

/-- The loop ends at this header: the device's position is here, or the loop returns. -/
def MeetsAt (ring : ℕ → UInt8) (mac : List UInt8) (cbr : UInt16) (pos : ℕ) : Prop :=
  pos = cbr.toNat ∨ DropsAt ring mac pos

instance (ring : ℕ → UInt8) (mac : List UInt8) (cbr : UInt16) (pos : ℕ) :
    Decidable (MeetsAt ring mac cbr pos) :=
  inferInstanceAs (Decidable (_ ∨ _))

/-- The headers from `pos` on form a ring: one of them is behind a later one, and the loop ends at
none of those between. -/
def HeadersClose (ring : ℕ → UInt8) (mac : List UInt8) (cbr : UInt16) (pos : ℕ) : Prop :=
  ∃ m n, m < n ∧ n ≤ 4097 ∧ (headerAfter ring)^[m] pos = (headerAfter ring)^[n] pos ∧
    ∀ k < n, ¬ MeetsAt ring mac cbr ((headerAfter ring)^[k] pos)

/-- The places that a header can have, behind another. -/
def headerPlaces : Finset ℕ := (Finset.range 4096).image (4 * ·)

/-- The call returns: the loop has ended. -/
def ReceiveEnds (nic : Rtl8139) (word3A word3C : UInt16) (ring : ℕ → UInt8) : Prop :=
  ∃ fuel nic', (rtl8139ReceivePacket fuel nic word3A word3C).value ring = some nic'

variable {ring : ℕ → UInt8} {mac : List UInt8} {cbr offset : UInt16} {pos : ℕ}
  {received : List (List UInt8)}

theorem headerAfter_mem (ring : ℕ → UInt8) (pos : ℕ) : headerAfter ring pos ∈ headerPlaces := by
  refine Finset.mem_image.mpr ⟨headerAfter ring pos / 4, Finset.mem_range.mpr ?_, ?_⟩
  · rw [headerAfter]
    omega
  · rw [headerAfter, nextHeader]
    omega

theorem card_headerPlaces : headerPlaces.card = 4096 := by
  rw [headerPlaces, Finset.card_image_of_injective _ fun a b h => Nat.eq_of_mul_eq_mul_left
    (by decide) h, Finset.card_range]

/-- The walk never comes to an end if its headers form a ring. -/
theorem headersClose_iff (ring : ℕ → UInt8) (mac : List UInt8) (cbr : UInt16) (pos : ℕ) :
    HeadersClose ring mac cbr pos ↔
      ∀ k, ¬ MeetsAt ring mac cbr ((headerAfter ring)^[k] pos) := by
  rw [FiniteWalk.never_iff (headerAfter_mem ring), card_headerPlaces]
  exact Iff.rfl

/-! ### The loop -/

/-- **One round**, as a step from header to header. -/
theorem exists_rxLoop_succ (hoffset : offset.toNat = pos) (hpos : pos < 16384)
    (hgo : ¬ MeetsAt ring mac cbr pos) :
    ∃ next received', next.toNat = headerAfter ring pos ∧
      ∀ fuel, (rxLoop mac cbr (fuel + 1) offset received).value ring =
        (rxLoop mac cbr fuel next received').value ring := by
  have hp : (offset % rxBufferSize).toNat = pos := by
    rw [toNat_bufferPos (by rw [hoffset, Nat.mod_eq_of_lt hpos]), Nat.mod_eq_of_lt hpos]
  have hne : offset ≠ cbr := fun heq => hgo (.inl (by rw [← hoffset, heq]))
  have hkeeps : ¬ DropsAt ring mac pos := fun hdrops => hgo (.inr hdrops)
  have hlen : (headerLength (bytesAt ring pos 4)).toNat ≤ 1514 := by
    have hle := UInt16.not_lt.mp fun hlong => hkeeps (.inr (.inr hlong))
    exact UInt16.le_iff_toNat_le.mp hle
  refine ⟨nextRxOffset (offset % rxBufferSize) (headerLength (bytesAt ring pos 4)),
    received ++ [bytesAt ring (pos + 4) (headerLength (bytesAt ring pos 4)).toNat], ?_,
    fun fuel => ?_⟩
  · rw [toNat_nextRxOffset (by rw [hp]; exact hpos) hlen, hp]
    rfl
  · rw [value_rxLoop_succ hp, if_neg hne, if_neg hkeeps]

/-- The loop ends at a header where it stops. -/
theorem exists_rxLoop_of_meetsAt (hoffset : offset.toNat = pos) (hpos : pos < 16384)
    (hstops : MeetsAt ring mac cbr pos) :
    ∃ r, (rxLoop mac cbr 1 offset received).value ring = some r := by
  have hp : (offset % rxBufferSize).toNat = pos := by
    rw [toNat_bufferPos (by rw [hoffset, Nat.mod_eq_of_lt hpos]), Nat.mod_eq_of_lt hpos]
  rw [value_rxLoop_succ hp]
  by_cases hcbr : offset = cbr
  · exact ⟨_, if_pos hcbr⟩
  · have hdrops : DropsAt ring mac pos :=
      hstops.resolve_left fun heq => hcbr (UInt16.toNat_inj.mp (hoffset.trans heq))
    rw [if_neg hcbr, if_pos hdrops]
    exact ⟨_, rfl⟩

theorem headerAfter_lt (ring : ℕ → UInt8) (pos : ℕ) : headerAfter ring pos < 16384 :=
  Nat.mod_lt _ (by decide)

/-- **The loop** ends if the walk from header to header comes to one where it stops. -/
theorem exists_rxLoop_iff (hoffset : offset.toNat = pos) (hpos : pos < 16384) :
    (∃ fuel r, (rxLoop mac cbr fuel offset received).value ring = some r) ↔
      ∃ k, MeetsAt ring mac cbr ((headerAfter ring)^[k] pos) := by
  constructor
  · rintro ⟨fuel, r, hloop⟩
    induction fuel generalizing offset pos received with
    | zero => cases hloop
    | succ fuel ih =>
        by_cases hstops : MeetsAt ring mac cbr pos
        · exact ⟨0, hstops⟩
        · obtain ⟨next, received', hnext, hround⟩ := exists_rxLoop_succ hoffset hpos hstops
          rw [hround] at hloop
          obtain ⟨k, hk⟩ := ih hnext (headerAfter_lt ring pos) hloop
          exact ⟨k + 1, hk⟩
  · rintro ⟨k, hk⟩
    induction k generalizing offset pos received with
    | zero => exact ⟨1, exists_rxLoop_of_meetsAt hoffset hpos hk⟩
    | succ k ih =>
        by_cases hstops : MeetsAt ring mac cbr pos
        · exact ⟨1, exists_rxLoop_of_meetsAt hoffset hpos hstops⟩
        · obtain ⟨next, received', hnext, hround⟩ := exists_rxLoop_succ hoffset hpos hstops
          obtain ⟨fuel, r, hloop⟩ := ih hnext (headerAfter_lt ring pos) hk
          exact ⟨fuel + 1, r, by rw [hround, hloop]⟩

/-- The function returns when its loop has ended. -/
theorem receiveEnds_iff_rxLoop (nic : Rtl8139) (word3A word3C : UInt16) (ring : ℕ → UInt8) :
    ReceiveEnds nic word3A word3C ring ↔
      ∃ fuel r, (rxLoop nic.mac (behind16 (portPosition word3A word3C)) fuel nic.rxPtr
        nic.received).value ring = some r := by
  constructor
  · rintro ⟨fuel, nic', hcall⟩
    rw [rtl8139ReceivePacket, Access.value_ite] at hcall
    by_cases hcbr : behind16 (portPosition word3A word3C) = nic.rxPtr
    · exact ⟨1, (.done nic.rxPtr, nic.received), by rw [rxLoop, if_pos hcbr.symm]; rfl⟩
    · rw [if_neg hcbr, Access.value_bind] at hcall
      refine ⟨fuel, ?_⟩
      cases hloop : (rxLoop nic.mac (behind16 (portPosition word3A word3C)) fuel nic.rxPtr
          nic.received).value ring with
      | none =>
          rw [hloop] at hcall
          cases hcall
      | some r => exact ⟨r, rfl⟩
  · rintro ⟨fuel, ⟨ending, received⟩, hloop⟩
    refine ⟨fuel, ?_⟩
    rw [rtl8139ReceivePacket, Access.value_ite]
    by_cases hcbr : behind16 (portPosition word3A word3C) = nic.rxPtr
    · exact ⟨nic, if_pos hcbr⟩
    rw [if_neg hcbr, Access.value_bind, hloop]
    cases ending with
    | dropped => exact ⟨_, rfl⟩
    | done offset =>
        rw [value_rxFinish_done nic offset received rfl, ← apply_ite some]
        exact ⟨_, rfl⟩

/-- A header of length 60 at each multiple of four. -/
def stampedRing (i : ℕ) : UInt8 := if i % 4 = 2 then 60 else 0

theorem stampedRing_add (pos i : ℕ) (h : pos % 4 = 0) :
    stampedRing (pos + i) = if i % 4 = 2 then 60 else 0 := by
  rw [stampedRing, Nat.add_mod, h, Nat.zero_add, Nat.mod_mod]

theorem bytesAt_stampedRing {pos : ℕ} (h : pos % 4 = 0) :
    bytesAt stampedRing pos 4 = [0, 0, 60, 0] ∧
      bytesAt stampedRing (pos + 10) 6 = [60, 0, 0, 0, 60, 0] := by
  have hrow : ∀ start len, bytesAt stampedRing (pos + start) len =
      (List.range len).map fun i => if (start + i) % 4 = 2 then 60 else 0 := fun start len =>
    List.map_congr_left fun i _ => by rw [Nat.add_assoc, stampedRing_add pos _ h]
  exact ⟨hrow 0 4, hrow 10 6⟩

end HalOS
