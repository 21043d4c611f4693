import HalOS.Net.Icmp
import HalOS.Net.Ipv4Sizes

/-!
# Sending the Packets that Wait

`retry_pending_packets` goes through the slots of `pending_queue`. A packet whose address is found
goes to `net_send_ipv4_packet`, its payload is freed, and the last packet takes its place, so the
index is visited again. The call it makes can itself come to `queue_packet`.

## Main results

* `retriesAll_iff`: when each packet that can be sent is sent once, and the others are kept.
-/

namespace HalOS

open CString (Memory memcpy)
open Outcome (bind_eq_ok)

/-! ### Data -/

/-- `struct pending_packet`, a slot of `pending_queue`. -/
structure QueueSlot where
  dstIp : UInt32
  protocol : UInt8
  payload : ℕ
  payloadLen : UInt16
  timestamp : UInt32
deriving DecidableEq, Repr, Inhabited

/-- The packet of a slot: the payload is what the pointer leads to. -/
def QueueSlot.call (memory : Memory) (slot : QueueSlot) : Ipv4Call where
  dstIp := slot.dstIp
  protocol := slot.protocol
  payload := bytesAt memory slot.payload slot.payloadLen.toNat
  fits := by
    rw [length_bytesAt]
    exact slot.payloadLen.toNat_lt

/-- `pending_queue` and `pending_count`, the state of the IPv4 layer, the memory and what the coming
calls of `malloc` give (0 for `NULL`); and the logs of the calls of `net_send_ipv4_packet` and of
`free`. -/
structure QueueState where
  ipv4 : Ipv4Stack
  memory : Memory
  slots : List QueueSlot
  count : ℕ
  allocations : List ℕ
  passed : List Ipv4Call
  freed : List ℕ

/-- The packets that wait: the first `pending_count` slots. -/
def QueueState.pending (q : QueueState) : List QueueSlot := q.slots.take q.count

/-! ### The functions -/

/-- `queue_packet`. The slot is filled up to the payload before the pointer is checked. -/
def QueueState.queue (q : QueueState) (call : Ipv4Call) : QueueState :=
  if maxPendingPackets ≤ q.count then q
  else
    let payload := q.allocations.headD 0
    let slot :=
      { q.slots.getD q.count default with
        dstIp := call.dstIp, protocol := call.protocol, payload := payload }
    let q := { q with allocations := q.allocations.tail, slots := q.slots.set q.count slot }
    if payload = 0 then q
    else
      let slot := { slot with payloadLen := call.payloadLen, timestamp := q.ipv4.ticks }
      { q with
        memory := memcpy q.memory payload call.payload
        slots := q.slots.set q.count slot
        count := q.count + 1 }

/-- `net_send_ipv4_packet`. What it wants to queue goes into the slots. -/
def QueueState.send (nic : NicDevice) (q : QueueState) (call : Ipv4Call) :
    Except Fault QueueState := do
  let (s, _) ← sendIpv4Packet nic q.ipv4 call
  .ok ((s.queued.drop q.ipv4.queued.length).foldl QueueState.queue
    { q with ipv4 := s, passed := q.passed ++ [call] })

/-- The payload at `i` is freed, the packet changes places with the last one, and there is one
packet less. -/
def QueueState.release (q : QueueState) (i : ℕ) : QueueState :=
  let slot := q.slots.getD i default
  let q :=
    { q with
      freed := q.freed ++ [slot.payload]
      slots := q.slots.set i { slot with payload := 0 } }
  let last := q.count - 1
  let slots :=
    if i ≠ last then
      (q.slots.set i (q.slots.getD last default)).set last (q.slots.getD i default)
    else q.slots
  { q with slots := slots, count := last }

/-- The loop of `retry_pending_packets`, from the index `i`. `i--` and the `i++` of the loop cancel
out. -/
def retryLoop (nic : NicDevice) : ℕ → ℕ → QueueState → Option (Except Fault QueueState)
  | 0, _, _ => none
  | fuel + 1, i, q =>
      if q.count ≤ i then some (.ok q)
      else
        let slot := q.slots.getD i default
        let (mac, requests) := arpLookup nic q.ipv4 slot.dstIp
        let q :=
          { q with ipv4 := { q.ipv4 with arpRequests := q.ipv4.arpRequests ++ requests } }
        match mac with
        | none => retryLoop nic fuel (i + 1) q
        | some _ =>
            match q.send nic (slot.call q.memory) with
            | .error fault => some (.error fault)
            | .ok q => retryLoop nic fuel i (q.release i)

/-- `retry_pending_packets`. -/
def retryPendingPackets (nic : NicDevice) (fuel : ℕ) (q : QueueState) :
    Option (Except Fault QueueState) :=
  retryLoop nic fuel 0 q

/-! ### What a call is to do -/

/-- `arp_lookup` finds the address of the packet. -/
def CanBeSent (nic : NicDevice) (q : QueueState) (slot : QueueSlot) : Prop :=
  Resolves nic q.ipv4 slot.dstIp

instance (nic : NicDevice) (q : QueueState) : DecidablePred (CanBeSent nic q) :=
  fun slot => inferInstanceAs (Decidable (Resolves nic q.ipv4 slot.dstIp))

/-- Some packets have been passed on, in this order, and their payloads have been freed; these are
the ones that can be sent. The others wait as before. -/
structure Retried (nic : NicDevice) (q q' : QueueState) (done : List QueueSlot) : Prop where
  passed : q'.passed = q.passed ++ done.map (QueueSlot.call q.memory)
  freed : q'.freed = q.freed ++ done.map QueueSlot.payload
  sent : done.Perm (q.pending.filter (CanBeSent nic q))
  kept : q'.pending.Perm (q.pending.filter (¬ CanBeSent nic q ·))
  memory : q'.memory = q.memory

/-- The call ends, without a fault, with the packets that can be sent passed on. -/
def RetriesAll (nic : NicDevice) (q : QueueState) : Prop :=
  ∃ fuel q' done, retryPendingPackets nic fuel q = some (.ok q') ∧ Retried nic q q' done

variable {nic : NicDevice} {q q' : QueueState} {call : Ipv4Call} {slot : QueueSlot}

/-! ### One packet -/

theorem length_call (memory : Memory) (slot : QueueSlot) :
    (slot.call memory).payload.length = slot.payloadLen.toNat := length_bytesAt _ _ _

/-- A packet whose next hop is resolved does not come to `queue_packet`, and the table of addresses
stays. -/
theorem sendIpv4Packet_keeps {s s' : Ipv4Stack} {sent? : Option Ipv4Send}
    (hhop : Resolves nic s (nextHop nic call.dstIp))
    (h : sendIpv4Packet nic s call = .ok (s', sent?)) :
    s'.queued = s.queued ∧ s'.arpCache = s.arpCache ∧ s'.ticks = s.ticks := by
  obtain ⟨dstMac, requests, hlookup⟩ := hhop.exists_arpLookup
  rw [sendIpv4Packet, fillHeader, hlookup] at h
  split_ifs at h with hlarge
  · cases h
    exact ⟨rfl, rfl, rfl⟩
  · obtain ⟨s₁, hcopy, h⟩ := bind_eq_ok.mp h
    obtain ⟨s₂, hhand, h⟩ := bind_eq_ok.mp h
    cases h
    obtain ⟨-, rfl⟩ := copyPayload_eq_ok hcopy
    obtain ⟨frame, -, hhand⟩ := bind_eq_ok.mp hhand
    cases hhand
    exact ⟨rfl, rfl, rfl⟩

/-- Whether an address is found depends on the table and on the clock. -/
theorem resolves_congr {s s' : Ipv4Stack} (hcache : s'.arpCache = s.arpCache)
    (hticks : s'.ticks = s.ticks) (ip : UInt32) : Resolves nic s' ip ↔ Resolves nic s ip := by
  rw [resolves_iff, resolves_iff, arpCacheFind, arpCacheFind, hcache, hticks]

/-- **A packet that can be sent** is passed on, and nothing is queued. -/
theorem QueueState.send_eq_ok (hres : Resolves nic q.ipv4 call.dstIp)
    (h : q.send nic call = .ok q') :
    SafeLength call.payload.length ∧ ∃ s, s.arpCache = q.ipv4.arpCache ∧ s.ticks = q.ipv4.ticks ∧
      q' = { q with ipv4 := s, passed := q.passed ++ [call] } := by
  obtain ⟨⟨s, sent?⟩, hsend, h⟩ := bind_eq_ok.mp h
  obtain ⟨hqueued, hcache, hticks⟩ := sendIpv4Packet_keeps hres.nextHop hsend
  refine ⟨safeLength_of_eq_ok hres.nextHop hsend, s, hcache, hticks, ?_⟩
  have hnone : s.queued.drop q.ipv4.queued.length = [] := by rw [hqueued, List.drop_length]
  simp only [hnone, List.foldl_nil] at h
  exact (Except.ok.inj h).symm

/-- A packet of a safe length is passed on without a fault. -/
theorem QueueState.exists_send (hres : Resolves nic q.ipv4 call.dstIp)
    (hsafe : SafeLength call.payload.length) : ∃ q', q.send nic call = .ok q' := by
  obtain ⟨s, sent?, hsend, -⟩ := exists_sendIpv4Packet_of_safeLength hres.nextHop hsafe
  exact ⟨_, bind_eq_ok.mpr ⟨_, hsend, rfl⟩⟩

/-! ### The slots -/

/-- The slots around the one at `i`. -/
structure SlotAt (q : QueueState) (i : ℕ) (before : List QueueSlot) (slot : QueueSlot)
    (after : List QueueSlot) : Prop where
  slots : ∃ rest, q.slots = before ++ slot :: (after ++ rest)
  before : before.length = i
  count : q.count = i + 1 + after.length

theorem exists_slotAt {i : ℕ} (hroom : q.count ≤ q.slots.length) (hi : i < q.count) :
    ∃ before slot after, SlotAt q i before slot after := by
  have hlt : i < q.slots.length := by omega
  refine ⟨q.slots.take i, q.slots[i], (q.slots.drop (i + 1)).take (q.count - (i + 1)),
    ⟨⟨(q.slots.drop (i + 1)).drop (q.count - (i + 1)), ?_⟩, ?_, ?_⟩⟩
  · rw [List.take_append_drop, List.getElem_cons_drop, List.take_append_drop]
  · rw [List.length_take]
    omega
  · rw [List.length_take, List.length_drop]
    omega

variable {i : ℕ} {before after : List QueueSlot}

theorem SlotAt.getD_eq (h : SlotAt q i before slot after) : q.slots.getD i default = slot := by
  obtain ⟨⟨rest, hslots⟩, hbefore, -⟩ := h
  rw [hslots, ← hbefore]
  simp

theorem SlotAt.pending_eq (h : SlotAt q i before slot after) :
    q.pending = before ++ slot :: after := by
  obtain ⟨⟨rest, hslots⟩, hbefore, hcount⟩ := h
  have hlen : q.count = (before ++ slot :: after).length := by
    rw [List.length_append, List.length_cons]
    omega
  have happend : q.slots = (before ++ slot :: after) ++ rest := by
    rw [hslots, List.append_assoc, List.cons_append]
  rw [QueueState.pending, happend, hlen, List.take_left]

/-- **Removal**: the packets before it stay where they are, and those behind it stay in some
order. -/
theorem SlotAt.pending_release (h : SlotAt q i before slot after) :
    ∃ moved, (q.release i).pending = before ++ moved ∧ moved.Perm after ∧
      (q.release i).count = q.count - 1 ∧ (q.release i).slots.length = q.slots.length := by
  obtain ⟨⟨rest, hslots⟩, hbefore, hcount⟩ := h
  rcases List.eq_nil_or_concat' after with rfl | ⟨mid, last, rfl⟩
  · have hlast : ¬ i ≠ q.count - 1 := by
      rw [hcount, List.length_nil]
      omega
    have hreleased : (q.release i).slots = before ++ { slot with payload := 0 } :: rest := by
      rw [QueueState.release]
      simp only [if_neg hlast]
      simp [hslots, ← hbefore]
    refine ⟨[], ?_, .refl _, rfl, ?_⟩
    · have hlen : (q.release i).count = before.length := by
        rw [QueueState.release, hcount, hbefore, List.length_nil]
        rfl
      rw [QueueState.pending, hreleased, hlen, List.take_left, List.append_nil]
    · simp [hreleased, hslots]
  · have hlast : q.count - 1 = i + (mid.length + 1) := by
      rw [hcount, List.length_append, List.length_singleton]
      omega
    have hreleased : (q.release i).slots =
        (before ++ last :: mid) ++ { slot with payload := 0 } :: rest := by
      rw [QueueState.release]
      simp only [hlast]
      rw [if_pos (by omega)]
      simp [hslots, ← hbefore]
    have hmoved : ([last] ++ mid).Perm (mid ++ [last]) := List.perm_append_comm
    refine ⟨last :: mid, ?_, hmoved, rfl, ?_⟩
    · have hlen : (q.release i).count = (before ++ last :: mid).length := by
        rw [QueueState.release, List.length_append, List.length_cons, hbefore]
        exact hlast
      rw [QueueState.pending, hreleased, hlen, List.take_left]
    · simp [hreleased, hslots]

/-! ### The loop -/

/-- What has been done when the loop has come to `i`: the packets in `done` have been passed on, and
those before `i` cannot be. -/
structure Progress (nic : NicDevice) (q : QueueState) (i : ℕ) (q' : QueueState)
    (done : List QueueSlot) : Prop where
  passed : q'.passed = q.passed ++ done.map (QueueSlot.call q.memory)
  freed : q'.freed = q.freed ++ done.map QueueSlot.payload
  memory : q'.memory = q.memory
  arpCache : q'.ipv4.arpCache = q.ipv4.arpCache
  ticks : q'.ipv4.ticks = q.ipv4.ticks
  room : q'.count ≤ q'.slots.length
  packets : (done ++ q'.pending).Perm q.pending
  sent : ∀ slot ∈ done, CanBeSent nic q slot
  skipped : ∀ slot ∈ q'.pending.take i, ¬ CanBeSent nic q slot

variable {done : List QueueSlot}

theorem Progress.start (nic : NicDevice) (hroom : q.count ≤ q.slots.length) :
    Progress nic q 0 q [] where
  passed := (List.append_nil _).symm
  freed := (List.append_nil _).symm
  memory := rfl
  arpCache := rfl
  ticks := rfl
  room := hroom
  packets := .refl _
  sent := nofun
  skipped := nofun

theorem Progress.canBeSent_iff (h : Progress nic q i q' done) :
    CanBeSent nic q' slot ↔ CanBeSent nic q slot :=
  resolves_congr h.arpCache h.ticks slot.dstIp

/-- The state after `arp_lookup`, which can send requests. -/
def QueueState.requested (q : QueueState) (requests : List UInt32) : QueueState :=
  { q with ipv4 := { q.ipv4 with arpRequests := q.ipv4.arpRequests ++ requests } }

/-- **A packet that cannot be sent** is left where it is. -/
theorem Progress.skip (h : Progress nic q i q' done) (hslot : SlotAt q' i before slot after)
    (hno : ¬ CanBeSent nic q' slot) (requests : List UInt32) :
    Progress nic q (i + 1) (q'.requested requests) done :=
  { h with
    skipped := by
      have htake : q'.pending.take (i + 1) = q'.pending.take i ++ [slot] := by
        rw [hslot.pending_eq, ← hslot.before, List.take_left, List.append_cons]
        exact List.take_left' List.length_append
      have hskipped : ∀ other ∈ q'.pending.take i ++ [slot], ¬ CanBeSent nic q other := by
        simp only [List.forall_mem_append, List.forall_mem_singleton]
        exact ⟨h.skipped, fun hsent => hno (h.canBeSent_iff.mpr hsent)⟩
      rw [← htake] at hskipped
      exact hskipped }

/-- **A packet that can be sent** is passed on, and removed. -/
theorem Progress.release (h : Progress nic q i q' done) (hslot : SlotAt q' i before slot after)
    (hsent : CanBeSent nic q' slot) {s : Ipv4Stack} (hcache : s.arpCache = q'.ipv4.arpCache)
    (hticks : s.ticks = q'.ipv4.ticks) :
    Progress nic q i
      ({ q' with ipv4 := s, passed := q'.passed ++ [slot.call q'.memory] }.release i)
      (done ++ [slot]) := by
  have hslot' : SlotAt { q' with ipv4 := s, passed := q'.passed ++ [slot.call q'.memory] } i
      before slot after := ⟨hslot.slots, hslot.before, hslot.count⟩
  obtain ⟨moved, hpending, hmoved, hcount, hlength⟩ := hslot'.pending_release
  have hroom := h.room
  have hskipped := h.skipped
  have hpackets := h.packets
  rw [hslot.pending_eq, ← hslot.before, List.take_left] at hskipped
  refine ⟨?_, ?_, h.memory, hcache.trans h.arpCache, hticks.trans h.ticks, ?_, ?_, ?_, ?_⟩
  · rw [List.map_append, ← List.append_assoc, ← h.passed, ← h.memory]
    rfl
  · rw [List.map_append, ← List.append_assoc, ← h.freed, List.map_singleton,
      ← hslot'.getD_eq]
    rfl
  · rw [hcount, hlength]
    exact Nat.le_trans (Nat.sub_le _ _) hroom
  · rw [hpending]
    refine List.Perm.trans ?_ hpackets
    have hmiddle : (slot :: (before ++ moved)).Perm (before ++ slot :: moved) :=
      List.perm_middle.symm
    rw [hslot.pending_eq, List.append_assoc]
    exact (hmiddle.trans ((hmoved.cons slot).append_left before)).append_left done
  · simp only [List.forall_mem_append, List.forall_mem_singleton]
    exact ⟨h.sent, h.canBeSent_iff.mp hsent⟩
  · rw [hpending, ← hslot.before, List.take_left]
    exact hskipped

/-- The loop has come to its end. -/
theorem Progress.retried (h : Progress nic q i q' done) (hend : q'.count ≤ i) :
    Retried nic q q' done := by
  have hall : q'.pending.take i = q'.pending :=
    List.take_of_length_le (by rw [QueueState.pending, List.length_take]; omega)
  have hkept := h.skipped
  rw [hall] at hkept
  refine ⟨h.passed, h.freed, ?_, ?_, h.memory⟩
  · have hfilter := h.packets.filter (CanBeSent nic q)
    rwa [List.filter_append, List.filter_eq_self.mpr fun slot hs => decide_eq_true (h.sent slot hs),
      List.filter_eq_nil_iff.mpr fun slot hs => by simpa using hkept slot hs,
      List.append_nil] at hfilter
  · have hfilter := h.packets.filter (¬ CanBeSent nic q ·)
    rwa [List.filter_append,
      List.filter_eq_nil_iff.mpr fun slot hs => by simpa using h.sent slot hs,
      List.filter_eq_self.mpr fun slot hs => decide_eq_true (hkept slot hs),
      List.nil_append] at hfilter

theorem retryLoop_skip (hslot : SlotAt q i before slot after) (hno : ¬ CanBeSent nic q slot)
    (fuel : ℕ) :
    ∃ requests, retryLoop nic (fuel + 1) i q =
      retryLoop nic fuel (i + 1) (q.requested requests) := by
  have hlt : ¬ q.count ≤ i := by
    rw [hslot.count]
    omega
  rcases hlookup : arpLookup nic q.ipv4 slot.dstIp with ⟨mac, requests⟩
  cases mac with
  | none =>
      rw [retryLoop, if_neg hlt, hslot.getD_eq]
      simp only [hlookup]
      exact ⟨requests, rfl⟩
  | some mac => exact absurd (by simp [CanBeSent, Resolves, hlookup]) hno

theorem retryLoop_send (hslot : SlotAt q i before slot after) (hsent : CanBeSent nic q slot)
    (fuel : ℕ) :
    ∃ requests, retryLoop nic (fuel + 1) i q =
      match (q.requested requests).send nic (slot.call q.memory) with
      | .error fault => some (.error fault)
      | .ok q => retryLoop nic fuel i (q.release i) := by
  have hlt : ¬ q.count ≤ i := by
    rw [hslot.count]
    omega
  rcases hlookup : arpLookup nic q.ipv4 slot.dstIp with ⟨mac, requests⟩
  cases mac with
  | none => simp [CanBeSent, Resolves, hlookup] at hsent
  | some mac =>
      rw [retryLoop, if_neg hlt, hslot.getD_eq]
      simp only [hlookup]
      exact ⟨requests, rfl⟩

/-- A packet that has been passed on without a fault. -/
theorem Progress.release_of_send (h : Progress nic q i q' done)
    (hslot : SlotAt q' i before slot after) (hsent : CanBeSent nic q' slot)
    {requests : List UInt32} {r : QueueState}
    (hsend : (q'.requested requests).send nic (slot.call q'.memory) = .ok r) :
    SafeLength slot.payloadLen.toNat ∧ Progress nic q i (r.release i) (done ++ [slot]) ∧
      (r.release i).count = q'.count - 1 ∧ ((r.release i).pending.drop i).Perm after := by
  have hresolves : Resolves nic (q'.requested requests).ipv4 (slot.call q'.memory).dstIp :=
    (resolves_congr rfl rfl slot.dstIp).mpr hsent
  obtain ⟨hsafe, s, hcache, hticks, rfl⟩ := QueueState.send_eq_ok hresolves hsend
  rw [length_call] at hsafe
  refine ⟨hsafe, h.release hslot hsent hcache hticks, rfl, ?_⟩
  have hslot' : SlotAt { q'.requested requests with
      ipv4 := s, passed := (q'.requested requests).passed ++ [slot.call q'.memory] } i
      before slot after := ⟨hslot.slots, hslot.before, hslot.count⟩
  obtain ⟨moved, hpending, hmoved, -, -⟩ := hslot'.pending_release
  rw [hpending, ← hslot.before, List.drop_left]
  exact hmoved

/-- **The loop** ends without a fault, if the packets that can be sent have payloads of safe
lengths. -/
theorem exists_retryLoop (hsafe : ∀ slot ∈ q.pending, CanBeSent nic q slot →
      SafeLength slot.payloadLen.toNat) {fuel : ℕ} (h : Progress nic q i q' done)
    (hfuel : q'.count - i < fuel) :
    ∃ r done', retryLoop nic fuel i q' = some (.ok r) ∧ Retried nic q r done' := by
  induction fuel generalizing i q' done with
  | zero => omega
  | succ fuel ih =>
      by_cases hend : q'.count ≤ i
      · exact ⟨q', done, if_pos hend, h.retried hend⟩
      obtain ⟨before, slot, after, hslot⟩ := exists_slotAt h.room (Nat.not_le.mp hend)
      by_cases hsent : CanBeSent nic q' slot
      · obtain ⟨requests, hloop⟩ := retryLoop_send hslot hsent fuel
        have hmem : slot ∈ q.pending := by
          refine h.packets.subset (List.mem_append_right _ ?_)
          rw [hslot.pending_eq]
          exact List.mem_append_right _ List.mem_cons_self
        have hlength := hsafe slot hmem (h.canBeSent_iff.mp hsent)
        rw [← length_call q'.memory slot] at hlength
        have hresolves : Resolves nic (q'.requested requests).ipv4 (slot.call q'.memory).dstIp :=
          (resolves_congr rfl rfl slot.dstIp).mpr hsent
        obtain ⟨r, hsend⟩ := QueueState.exists_send hresolves hlength
        obtain ⟨-, hnext, hcount, -⟩ := h.release_of_send hslot hsent hsend
        rw [hloop, hsend]
        exact ih hnext (by omega)
      · obtain ⟨requests, hloop⟩ := retryLoop_skip hslot hsent fuel
        have hless : (q'.requested requests).count - (i + 1) < fuel := by
          have hcount : (q'.requested requests).count = q'.count := rfl
          omega
        rw [hloop]
        exact ih (h.skip hslot hsent _) hless

/-- **The other way round**: if the loop ends without a fault, the packets that can be sent from `i`
on had payloads of safe lengths. -/
theorem safeLength_of_retryLoop {fuel : ℕ} {r : QueueState} (h : Progress nic q i q' done)
    (hloop : retryLoop nic fuel i q' = some (.ok r)) :
    ∀ slot ∈ q'.pending.drop i, CanBeSent nic q slot → SafeLength slot.payloadLen.toNat := by
  induction fuel generalizing i q' done with
  | zero => cases hloop
  | succ fuel ih =>
      by_cases hend : q'.count ≤ i
      · have hnone : q'.pending.drop i = [] :=
          List.drop_of_length_le (by rw [QueueState.pending, List.length_take]; omega)
        rw [hnone]
        exact nofun
      obtain ⟨before, slot, after, hslot⟩ := exists_slotAt h.room (Nat.not_le.mp hend)
      have hdrop : q'.pending.drop i = slot :: after := by
        rw [hslot.pending_eq, ← hslot.before, List.drop_left]
      rw [hdrop, List.forall_mem_cons]
      by_cases hsent : CanBeSent nic q' slot
      · obtain ⟨requests, heq⟩ := retryLoop_send hslot hsent fuel
        rw [heq] at hloop
        cases hsend : (q'.requested requests).send nic (slot.call q'.memory) with
        | error fault =>
            rw [hsend] at hloop
            cases hloop
        | ok t =>
            rw [hsend] at hloop
            obtain ⟨hsafe, hnext, -, hrest⟩ := h.release_of_send hslot hsent hsend
            exact ⟨fun _ => hsafe, fun other hmem => ih hnext hloop other (hrest.mem_iff.mpr hmem)⟩
      · obtain ⟨requests, heq⟩ := retryLoop_skip hslot hsent fuel
        rw [heq] at hloop
        have hrest := ih (h.skip hslot hsent _) hloop
        have hdrop' : (q'.requested requests).pending.drop (i + 1) = after := by
          have hpending : (q'.requested requests).pending = q'.pending := rfl
          rw [hpending, ← List.drop_drop, hdrop]
          rfl
        rw [hdrop'] at hrest
        exact ⟨fun hyes => absurd (h.canBeSent_iff.mpr hyes) hsent, hrest⟩

/-- **Sending the packets that wait.** For every queue of at most five packets and every table of
addresses, each packet that can be sent is passed on once and its payload freed once, and the others
are kept, just if the packets that can be sent have payloads of safe lengths. -/
theorem retriesAll_iff (nic : NicDevice) (q : QueueState)
    (hslots : q.slots.length = maxPendingPackets) (hcount : q.count ≤ maxPendingPackets) :
    RetriesAll nic q ↔
      ∀ slot ∈ q.pending, CanBeSent nic q slot → SafeLength slot.payloadLen.toNat := by
  have hstart : Progress nic q 0 q [] := .start nic (by rw [hslots]; exact hcount)
  constructor
  · rintro ⟨fuel, q', done, hloop, -⟩
    exact safeLength_of_retryLoop hstart hloop
  · intro hsafe
    obtain ⟨q', done, hloop, hretried⟩ :=
      exists_retryLoop hsafe hstart (Nat.lt_succ_self (q.count - 0))
    exact ⟨_, q', done, hloop, hretried⟩

/-- A packet for the gateway, which is in the table, and one for a host that is not. -/
def waitingTwo (payloadLen : UInt16) : QueueState where
  ipv4 := arpHost [⟨5, 0x0A000202, [0x52, 0x55, 10, 0, 2, 2]⟩] 5
  memory := fun _ => 0
  slots := [⟨0x0A000202, ipProtoTcp, 0x1000, payloadLen, 5⟩,
    ⟨0x0A000209, ipProtoIcmp, 0x2000, 64, 5⟩, default, default, default]
  count := 2
  allocations := []
  passed := []
  freed := []

theorem retriesAll_iff_two : RetriesAll defaultNic (waitingTwo 21) :=
  (retriesAll_iff defaultNic (waitingTwo 21) rfl (by decide)).mpr (by decide)

/-- A packet that fits the buffer, and not the frame. -/
theorem not_retriesAll_1505 : ¬ RetriesAll defaultNic (waitingTwo 1485) := by
  rintro ⟨fuel, q', done, hloop, -⟩
  have hsafe := safeLength_of_retryLoop (.start defaultNic (by decide)) hloop
  exact absurd hsafe (by decide)

end HalOS
