import HalOS.Net.Ipv4Receive

/-!
# Packet Sizes

`net_send_ipv4_packet` compares the total length with the size of its buffer, but the sum is taken
in 16 bits. `eth_send_frame` puts 14 bytes more in front and compares nothing.

## Main results

* `keepsSizes_iff`: for which payloads no buffer is overrun.
-/

namespace HalOS

open CString (Memory)

/-- The packet of the call is dropped; or it has room in `packet_buffer`, and the frame that the
NIC gets has room in `frame` and holds the total length. A copy without room is a fault. -/
def KeepsSizes (nic : NicDevice) (s : Ipv4Stack) (call : Ipv4Call) : Prop :=
  ∃ s' sent?, sendIpv4Packet nic s call = .ok (s', sent?) ∧
    (sent? = none ∧ s'.sent = s.sent ∨
      20 + call.payload.length ≤ packetBufferSize ∧ ∃ frame, s'.sent = s.sent ++ [frame] ∧
        frame.length ≤ packetBufferSize ∧
        (be16 (frame.getD · 0) 16).toNat = 20 + call.payload.length)

/-- The frame has room for a payload of this length, or the length is found to be too large. -/
def SafeLength (n : ℕ) : Prop := n ≤ 1484 ∨ 1499 ≤ n ∧ n < 65516

instance : DecidablePred SafeLength := fun n =>
  inferInstanceAs (Decidable (n ≤ 1484 ∨ 1499 ≤ n ∧ n < 65516))

variable {nic : NicDevice} {s s' : Ipv4Stack} {call : Ipv4Call} {send : Ipv4Send}

/-- The check of the total length. -/
theorem lt_totalLen_iff (call : Ipv4Call) :
    packetBufferSize < (20 + call.payloadLen).toNat ↔
      1499 ≤ call.payload.length ∧ call.payload.length < 65516 := by
  have hfits := call.fits
  have hsize : packetBufferSize = 1518 := rfl
  rw [UInt16.toNat_add, toNat_payloadLen]
  simp only [UInt16.reduceToNat]
  omega

/-- A packet whose total length is found to be too large is dropped. -/
theorem sendIpv4Packet_of_large (h : packetBufferSize < (20 + call.payloadLen).toNat) :
    sendIpv4Packet nic s call = .ok (s, none) := by
  rw [sendIpv4Packet, fillHeader, if_pos h]

/-- The other packets are not dropped, if the next hop is resolved. -/
theorem ne_none_of_resolves (hhop : Resolves nic s (nextHop nic call.dstIp))
    (hsmall : ¬ packetBufferSize < (20 + call.payloadLen).toNat) :
    sendIpv4Packet nic s call ≠ .ok (s', none) := by
  intro h
  obtain ⟨dstMac, requests, hlookup⟩ := hhop.exists_arpLookup
  rw [sendIpv4Packet, fillHeader, if_neg hsmall, hlookup] at h
  obtain ⟨s₁, -, h⟩ := Outcome.bind_eq_ok.mp h
  obtain ⟨s₂, -, h⟩ := Outcome.bind_eq_ok.mp h
  cases h

/-- The frame holds the total length. -/
theorem toNat_be16_frame (h : send.call.payload.length ≤ 1484) :
    (be16 ((send.frame nic).getD · 0) 16).toNat = 20 + send.call.payload.length := by
  have hfields : HeaderFields nic send.call ((send.frame nic).getD · 0) :=
    HoldsFrame.fields (bytesAt_getD _)
  rw [hfields.totalLength]
  exact toNat_totalLen (by omega)

/-- A call that ends without a fault has a payload of a safe length. -/
theorem safeLength_of_eq_ok {sent? : Option Ipv4Send}
    (hhop : Resolves nic s (nextHop nic call.dstIp))
    (h : sendIpv4Packet nic s call = .ok (s', sent?)) : SafeLength call.payload.length := by
  by_cases hlarge : packetBufferSize < (20 + call.payloadLen).toNat
  · exact .inr ((lt_totalLen_iff call).mp hlarge)
  · obtain ⟨rfl, -⟩ | ⟨send, -, -, -, hroom, -⟩ := sendIpv4Packet_eq_ok h
    · exact absurd h (ne_none_of_resolves hhop hlarge)
    · exact .inl hroom

/-- A payload of a safe length is sent, or dropped. -/
theorem exists_sendIpv4Packet_of_safeLength (hhop : Resolves nic s (nextHop nic call.dstIp))
    (h : SafeLength call.payload.length) :
    ∃ s' sent?, sendIpv4Packet nic s call = .ok (s', sent?) ∧
      (sent? = none ∧ s'.sent = s.sent ∨
        ∃ send, sent? = some send ∧ send.call = call ∧ call.payload.length ≤ 1484 ∧
          s'.sent = s.sent ++ [send.frame nic]) := by
  rcases h with hroom | hlarge
  · obtain ⟨s', send, hsend⟩ := sendIpv4Packet_of_resolves hhop hroom
    obtain ⟨hnone, -⟩ | ⟨send', heq, hcall, -, -, -, -, hsent, -⟩ := sendIpv4Packet_eq_ok hsend
    · cases hnone
    · exact ⟨s', some send, hsend, .inr ⟨send', heq, hcall, hroom, hsent⟩⟩
  · exact ⟨s, none, sendIpv4Packet_of_large ((lt_totalLen_iff call).mpr hlarge),
      .inl ⟨rfl, rfl⟩⟩

/-- **Packet sizes.** With the next hop resolved, a packet is dropped or goes out without an
overrun and with its length just if the payload fits a frame, or its length is one that the check
finds to be too large. -/
theorem keepsSizes_iff (nic : NicDevice) (s : Ipv4Stack) (call : Ipv4Call)
    (hhop : Resolves nic s (nextHop nic call.dstIp)) :
    KeepsSizes nic s call ↔ SafeLength call.payload.length := by
  constructor
  · rintro ⟨s', sent?, hsend, -⟩
    exact safeLength_of_eq_ok hhop hsend
  · intro hsafe
    obtain ⟨s', sent?, hsend, hdropped | ⟨send, -, rfl, hroom, hsent⟩⟩ :=
      exists_sendIpv4Packet_of_safeLength hhop hsafe
    · exact ⟨s', sent?, hsend, .inl hdropped⟩
    · have hlen := length_frame nic send
      have hsize : packetBufferSize = 1518 := rfl
      exact ⟨s', sent?, hsend, .inr ⟨by omega, send.frame nic, hsent, by omega,
        toNat_be16_frame hroom⟩⟩

/-- A keystroke of the shell, with the gateway in the table. -/
theorem keepsSizes_iff_keystroke :
    KeepsSizes defaultNic (arpHost [⟨5, 0x0A000202, [0x52, 0x55, 10, 0, 2, 2]⟩] 5) keystroke :=
  (keepsSizes_iff defaultNic (arpHost [⟨5, 0x0A000202, [0x52, 0x55, 10, 0, 2, 2]⟩] 5) keystroke
    (by decide)).mpr (by decide)

/-- A call with zeros for the gateway. -/
def zerosCall (n : ℕ) (h : n < 2 ^ 16) : Ipv4Call where
  dstIp := 0x0A000202
  protocol := ipProtoTcp
  payload := List.replicate n 0
  fits := by rwa [List.length_replicate]

/-- A packet that fits the buffer, and not the frame. -/
theorem not_keepsSizes_1505 :
    ¬ KeepsSizes defaultNic (arpHost [⟨5, 0x0A000202, [0x52, 0x55, 10, 0, 2, 2]⟩] 5)
      (zerosCall 1485 (by decide)) := by
  rintro ⟨s', sent?, hsend, -⟩
  have hhop : Resolves defaultNic (arpHost [⟨5, 0x0A000202, [0x52, 0x55, 10, 0, 2, 2]⟩] 5)
      (nextHop defaultNic 0x0A000202) := by decide
  have hsafe := safeLength_of_eq_ok hhop hsend
  have hlen : (zerosCall 1485 (by decide)).payload.length = 1485 := List.length_replicate
  rw [hlen] at hsafe
  exact absurd hsafe (by decide)

end HalOS
