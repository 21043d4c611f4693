import HalOS.Net.Ipv4Nested

/-!
# ARP

Requests are answered by the branch `ETHERTYPE_ARP` of `net_process_packet`, and replies and
answered requests go into a table of 32 slots, which `arp_lookup` searches. A slot with the address
0 is free.

## Main results

* `answersArp_iff`: which requests are answered as they should be.
* `readAfterWrite_iff`: when an address that was put into the table is found there.
-/

namespace HalOS

/-! ### Requests -/

/-- An ARP request for an IPv4 address over Ethernet, in a frame of this length. -/
structure ArpRequestFrame (m : ℕ → UInt8) (len : UInt16) : Prop where
  le_len : 42 ≤ len
  ethertype : be16 m 12 = ethertypeArp
  fixed : bytesAt m 14 8 = [0, 1, 8, 0, 6, 4, 0, 1]

/-- The reply to a request from this sender. -/
def arpReplyWanted (nicMac : List UInt8) (nicIp : UInt32) (senderMac senderIp : List UInt8) :
    List UInt8 :=
  [0, 1, 8, 0, 6, 4, 0, 2] ++ nicMac ++ be32Bytes nicIp ++ senderMac ++ senderIp

/-- The request is answered if it is for the address of the NIC. Otherwise nothing is sent, and the
table is left alone. -/
def AnswersArp (m : ℕ → UInt8) (s s' : NetStack) : Prop :=
  s'.icmpSent = s.icmpSent ∧ s'.tcp.sent = s.tcp.sent ∧
    if be32 m 38 = s.tcp.nicIp then
      s'.arpSent = s.arpSent ++
        [(bytesAt m 22 6, arpReplyWanted s.nicMac s.tcp.nicIp (bytesAt m 22 6) (bytesAt m 28 4))]
    else s'.arpSent = s.arpSent ∧ s'.arpCache = s.arpCache

variable {m : ℕ → UInt8} {len : UInt16} {s : NetStack}

theorem ArpRequestFrame.opcode (h : ArpRequestFrame m len) : be16 m 20 = arpRequest := by
  have hhigh : m 20 = 0 := congrArg (fun l : List UInt8 => l.getD 6 0) h.fixed
  have hlow : m 21 = 1 := congrArg (fun l : List UInt8 => l.getD 7 0) h.fixed
  rw [be16, hhigh, hlow]
  rfl

/-- The digits of a number of two. -/
theorem digits_of_two (base high low : ℕ) (hhigh : high < base) (hlow : low < base) :
    (high * base + low) / base % base = high ∧ (high * base + low) % base = low ∧
      high * base % (base * base) = high * base := by
  have hpos : 0 < base := Nat.zero_lt_of_lt hlow
  refine ⟨?_, ?_, Nat.mod_eq_of_lt (Nat.mul_lt_mul_of_pos_right hhigh hpos)⟩
  · rw [Nat.add_comm, Nat.add_mul_div_right _ _ hpos, Nat.div_eq_of_lt hlow, Nat.zero_add,
      Nat.mod_eq_of_lt hhigh]
  · rw [Nat.add_comm, Nat.add_mul_mod_self_right, Nat.mod_eq_of_lt hlow]

theorem be16Bytes_of_bytes (high low : UInt8) :
    be16Bytes (high.toUInt16 <<< 8 ||| low.toUInt16) = [high, low] := by
  have hhigh : high.toNat < 256 := high.toNat_lt
  have hlow : low.toNat < 256 := low.toNat_lt
  obtain ⟨hdiv, hmod, hshift⟩ := digits_of_two 256 high.toNat low.toNat hhigh hlow
  have hsum : (high.toUInt16 <<< 8 ||| low.toUInt16).toNat = high.toNat * 256 + low.toNat := by
    have hor := Nat.shiftLeft_add_eq_or_of_lt (i := 8) (by omega : low.toNat < 2 ^ 8) high.toNat
    rw [Nat.shiftLeft_eq] at hor
    simp only [UInt16.toNat_or, UInt16.toNat_shiftLeft, UInt8.toNat_toUInt16, UInt16.reduceToNat,
      Nat.shiftLeft_eq, Nat.reduceMod, Nat.reducePow]
    exact (congrArg (· ||| low.toNat) hshift).trans hor.symm
  have hfirst : ((high.toUInt16 <<< 8 ||| low.toUInt16) >>> 8).toUInt8 = high := by
    rw [← UInt8.toNat_inj, UInt16.toNat_toUInt8, UInt16.toNat_shiftRight, hsum,
      Nat.shiftRight_eq_div_pow]
    exact hdiv
  have hsecond : (high.toUInt16 <<< 8 ||| low.toUInt16).toUInt8 = low := by
    rw [← UInt8.toNat_inj, UInt16.toNat_toUInt8, hsum]
    exact hmod
  rw [be16Bytes, hfirst, hsecond]

/-- A frame of ARP that is not too short goes to its handler. -/
theorem value_netProcessPacket_arp (hlen : 42 ≤ len) (htype : be16 m 12 = ethertypeArp)
    (s : NetStack) : (netProcessPacket s len).value m = .ok ((processArp s).value m) := by
  have hlong : ¬ len < 14 := fun hlt => by
    have hle := UInt16.le_iff_toNat_le.mp hlen
    have hlt := UInt16.lt_iff_toNat_lt.mp hlt
    simp only [UInt16.reduceToNat] at hle hlt
    omega
  rw [netProcessPacket, if_neg hlong]
  simp only [value_readBe16, htype, if_true]
  rw [Access.value_bind, Access.value_pure]

/-- What is done about a request. -/
theorem value_processArp (h : ArpRequestFrame m len) (s : NetStack) :
    (netProcessPacket s len).value m = .ok
      (if ntohl (be32 m 38) = s.tcp.nicIp then
        let updated := arpCacheUpdate s (be32 m 28) (bytesAt m 22 6)
        { updated with arpSent := updated.arpSent ++
            [(bytesAt m 22 6, arpReplyTo updated (bytesAt m 14 28))] }
      else s) := by
  rw [value_netProcessPacket_arp h.le_len h.ethertype, processArp, value_readBe16, h.opcode]
  simp only [Access.value_ite, value_readBe32, Access.value_readMany, Access.value_pure]
  rw [if_neg (by decide), if_pos trivial]
  rfl

/-- The address of a request goes into the reply byte by byte. -/
theorem be32Bytes_be32 (m : ℕ → UInt8) (i : ℕ) : be32Bytes (be32 m i) = bytesAt m i 4 := by
  obtain ⟨hdiv, hmod, hshift⟩ := digits_of_two 65536 (be16 m i).toNat (be16 m (i + 2)).toNat
    (be16 m i).toNat_lt (be16 m (i + 2)).toNat_lt
  have hsum : (be32 m i).toNat = (be16 m i).toNat * 65536 + (be16 m (i + 2)).toNat := by
    have hor := Nat.shiftLeft_add_eq_or_of_lt (i := 16) (be16 m (i + 2)).toNat_lt (be16 m i).toNat
    rw [Nat.shiftLeft_eq] at hor
    simp only [be32, UInt32.toNat_or, UInt32.toNat_shiftLeft, UInt16.toNat_toUInt32,
      UInt32.reduceToNat, Nat.shiftLeft_eq, Nat.reduceMod, Nat.reducePow]
    exact (congrArg (· ||| (be16 m (i + 2)).toNat) hshift).trans hor.symm
  have hhigh : (be32 m i >>> 16).toUInt16 = be16 m i := by
    rw [← UInt16.toNat_inj, UInt32.toNat_toUInt16, UInt32.toNat_shiftRight, hsum,
      Nat.shiftRight_eq_div_pow]
    exact hdiv
  have hlow : (be32 m i).toUInt16 = be16 m (i + 2) := by
    rw [← UInt16.toNat_inj, UInt32.toNat_toUInt16, hsum]
    exact hmod
  rw [be32Bytes, hhigh, hlow, be16, be16, be16Bytes_of_bytes, be16Bytes_of_bytes]
  rfl

/-- The reply is the one that is wanted, if the address of the request is that of the NIC. -/
theorem arpReplyTo_eq (h : ArpRequestFrame m len) (s : NetStack)
    (htarget : be32 m 38 = s.tcp.nicIp) :
    arpReplyTo s (bytesAt m 14 28) =
      arpReplyWanted s.nicMac s.tcp.nicIp (bytesAt m 22 6) (bytesAt m 28 4) := by
  have hfixed : (bytesAt m 14 28).take 6 = [0, 1, 8, 0, 6, 4] :=
    congrArg (List.take 6) h.fixed
  rw [arpReplyTo, hfixed, arpReplyWanted, ← htarget, be32Bytes_be32]
  simp only [List.append_assoc]
  rfl

/-- **Answering requests.** A request is answered as it should be exactly if the bytes of its target
address spell the address of the NIC in both orders, or in neither. -/
theorem answersArp_iff (h : ArpRequestFrame m len) (s : NetStack) :
    (∃ s', (netProcessPacket s len).value m = .ok s' ∧ AnswersArp m s s') ↔
      (be32 m 38 = s.tcp.nicIp ↔ ntohl (be32 m 38) = s.tcp.nicIp) := by
  rw [value_processArp h]
  simp only [Except.ok.injEq, exists_eq_left', AnswersArp]
  by_cases hours : be32 m 38 = s.tcp.nicIp
  · by_cases hswap : ntohl (be32 m 38) = s.tcp.nicIp
    · rw [if_pos hours, if_pos hswap]
      refine iff_of_true ⟨rfl, rfl, ?_⟩ (iff_of_true hours hswap)
      exact congrArg (fun reply => s.arpSent ++ [(bytesAt m 22 6, reply)])
        (arpReplyTo_eq h (arpCacheUpdate s (be32 m 28) (bytesAt m 22 6)) hours)
    · rw [if_pos hours, if_neg hswap]
      refine iff_of_false (fun hanswer => ?_) fun hiff => hswap (hiff.mp hours)
      exact absurd hanswer.2.2.symm (by simp)
  · by_cases hswap : ntohl (be32 m 38) = s.tcp.nicIp
    · rw [if_neg hours, if_pos hswap]
      refine iff_of_false (fun hanswer => ?_) fun hiff => hours (hiff.mpr hswap)
      exact absurd hanswer.2.2.1 (by simp [arpCacheUpdate])
    · rw [if_neg hours, if_neg hswap]
      exact iff_of_true ⟨rfl, rfl, rfl, rfl⟩ (iff_of_false hours hswap)

/-- A NIC with the address 10.0.2.15, and an empty table. -/
def sampleNetStack : NetStack where
  tcp := .boot 0 0x0A00020F none []
  nicMac := [2, 0, 0, 0, 0, 15]
  arpCache := List.replicate 32 { ip := 0, mac := List.replicate 6 0, timestamp := 0 }
  prevId := 0
  arpSent := []
  icmpSent := []

/-- A request of 10.0.2.2 for the address 10.0.2.`last`. -/
def sampleRequest (last : UInt8) (i : ℕ) : UInt8 :=
  (List.replicate 6 0xFF ++ [2, 0, 0, 0, 0, 2, 8, 6, 0, 1, 8, 0, 6, 4, 0, 1, 2, 0, 0, 0, 0, 2,
    10, 0, 2, 2, 0, 0, 0, 0, 0, 0, 10, 0, 2, last]).getD i 0

theorem arpRequestFrame_sampleRequest (last : UInt8) : ArpRequestFrame (sampleRequest last) 60 where
  le_len := by decide
  ethertype := by
    have hhigh : sampleRequest last 12 = 8 := rfl
    have hlow : sampleRequest last 13 = 6 := rfl
    rw [be16, hhigh, hlow]
    rfl
  fixed := rfl

theorem answersArp_iff_other :
    ∃ s', (netProcessPacket sampleNetStack 60).value (sampleRequest 3) = .ok s' ∧
      AnswersArp (sampleRequest 3) sampleNetStack s' :=
  (answersArp_iff (arpRequestFrame_sampleRequest 3) sampleNetStack).mpr (by decide)

/-- The request for the address of the NIC is not answered. -/
theorem answersArp_violated :
    ¬ ∀ m len, ArpRequestFrame m len → ∀ s : NetStack,
      ∃ s', (netProcessPacket s len).value m = .ok s' ∧ AnswersArp m s s' := by
  intro h
  obtain ⟨s', hs', hanswer⟩ := h _ _ (arpRequestFrame_sampleRequest 15) sampleNetStack
  rw [value_processArp (arpRequestFrame_sampleRequest 15)] at hs'
  cases hs'
  exact absurd hanswer.2.2 (by decide)

/-! ### The table -/

/-- `arp_cache_update` on the table. -/
def updateArpCache (cache : List ArpCacheEntry) (ticks ip : UInt32) (mac : List UInt8) :
    List ArpCacheEntry :=
  cache.modify (cache.findIdx fun e => e.ip == ip || e.ip == 0) fun _ =>
    { ip := ip, mac := mac, timestamp := ticks }

theorem arpCache_arpCacheUpdate (s : NetStack) (ip : UInt32) (mac : List UInt8) :
    (arpCacheUpdate s ip mac).arpCache = updateArpCache s.arpCache s.tcp.ticks ip mac := rfl

/-- A call of `arp_cache_update`, and the time of it. -/
structure ArpUpdate where
  ticks : UInt32
  ip : UInt32
  mac : List UInt8
deriving DecidableEq, Repr

/-- The table at boot. -/
def bootArpCache : List ArpCacheEntry :=
  List.replicate 32 { ip := 0, mac := List.replicate 6 0, timestamp := 0 }

/-- The table after these calls. -/
def arpCacheAfter (updates : List ArpUpdate) : List ArpCacheEntry :=
  updates.foldl (fun cache u => updateArpCache cache u.ticks u.ip u.mac) bootArpCache

/-- The addresses in the table are distinct, but for 0. -/
def DistinctIps (cache : List ArpCacheEntry) : Prop :=
  cache.Pairwise fun e e' => e.ip = e'.ip → e.ip = 0

/-- The entry answers for an address. -/
def AnswersFor (ticks ip : UInt32) (e : ArpCacheEntry) : Prop :=
  e.ip = ip ∧ ticks - e.timestamp < arpCacheTimeout

instance (ticks ip : UInt32) : DecidablePred (AnswersFor ticks ip) :=
  fun e => inferInstanceAs (Decidable (e.ip = ip ∧ ticks - e.timestamp < arpCacheTimeout))

/-- The slot that answered for an address has been given to another one. -/
def EvictedFor (s s' : Ipv4Stack) (other ip : UInt32) : Prop :=
  ∃ i e, s.arpCache.findIdx? (AnswersFor s.ticks other) = some i ∧ s'.arpCache[i]? = some e ∧
    e.ip = ip

/-- An address that has been put into the table is found there, and the answers for other addresses
are the same as before. -/
def ReadAfterWrite (nic : NicDevice) (s : Ipv4Stack) (ip : UInt32) (mac : List UInt8) : Prop :=
  let s' := { s with arpCache := updateArpCache s.arpCache s.ticks ip mac }
  DistinctIps s.arpCache ∧ DistinctIps s'.arpCache ∧ (arpLookup nic s' ip).1 = some mac ∧
    ∀ other, other ≠ ip → isLocalIp nic other = true → ∀ answer,
      (arpLookup nic s other).1 = some answer →
        (arpLookup nic s' other).1 = some answer ∨ EvictedFor s s' other ip

/-- The first element that passes is changed, or nothing is. -/
theorem modify_findIdx_cases {α : Type} (p : α → Bool) (f : α → α) (l : List α) :
    (∀ x ∈ l, p x = false) ∧ l.modify (l.findIdx p) f = l ∨
    ∃ before x after, l = before ++ x :: after ∧ (∀ y ∈ before, p y = false) ∧ p x = true ∧
      l.modify (l.findIdx p) f = before ++ f x :: after := by
  induction l with
  | nil => exact Or.inl ⟨nofun, rfl⟩
  | cons x l ih =>
      rw [List.findIdx_cons]
      cases hx : p x with
      | true => exact Or.inr ⟨[], x, l, rfl, nofun, hx, rfl⟩
      | false =>
          rcases ih with ⟨hnone, hsame⟩ | ⟨before, y, after, rfl, hbefore, hy, heq⟩
          · refine Or.inl ⟨fun y hy => ?_, congrArg (x :: ·) hsame⟩
            rcases List.mem_cons.mp hy with rfl | hy
            · exact hx
            · exact hnone y hy
          · refine Or.inr ⟨x :: before, y, after, rfl, fun z hz => ?_, hy, congrArg (x :: ·) heq⟩
            rcases List.mem_cons.mp hz with rfl | hz
            · exact hx
            · exact hbefore z hz

/-- What an update does to the table. -/
theorem updateArpCache_cases (cache : List ArpCacheEntry) (ticks ip : UInt32) (mac : List UInt8) :
    (∀ e ∈ cache, e.ip ≠ ip ∧ e.ip ≠ 0) ∧ updateArpCache cache ticks ip mac = cache ∨
    ∃ before e after, cache = before ++ e :: after ∧ (∀ d ∈ before, d.ip ≠ ip ∧ d.ip ≠ 0) ∧
      (e.ip = ip ∨ e.ip = 0) ∧
      updateArpCache cache ticks ip mac = before ++ ⟨ip, mac, ticks⟩ :: after := by
  rcases modify_findIdx_cases (fun e => e.ip == ip || e.ip == 0)
    (fun _ => { ip := ip, mac := mac, timestamp := ticks }) cache with
    ⟨hnone, hsame⟩ | ⟨before, e, after, hcache, hbefore, he, heq⟩
  · exact Or.inl ⟨fun e he => by simpa using hnone e he, hsame⟩
  · exact Or.inr ⟨before, e, after, hcache, fun d hd => by simpa using hbefore d hd,
      by simpa using he, heq⟩

/-- Free slots stand behind the others. -/
def Packed (cache : List ArpCacheEntry) : Prop :=
  cache.Pairwise fun e e' => e'.ip = 0 ∨ e.ip ≠ 0 ∧ e.ip ≠ e'.ip

theorem Packed.distinctIps {cache : List ArpCacheEntry} (h : Packed cache) : DistinctIps cache := by
  refine List.Pairwise.imp (fun {e e'} hpair heq => ?_) h
  rcases hpair with hzero | ⟨-, hne⟩
  · exact heq.trans hzero
  · exact absurd heq hne

/-- **One update** keeps the free slots behind the others. -/
theorem Packed.update {cache : List ArpCacheEntry} (h : Packed cache) (ticks ip : UInt32)
    (mac : List UInt8) : Packed (updateArpCache cache ticks ip mac) := by
  rcases updateArpCache_cases cache ticks ip mac with
    ⟨-, hsame⟩ | ⟨before, e, after, rfl, hbefore, he, heq⟩
  · rw [hsame]
    exact h
  · rw [Packed, List.pairwise_append, List.pairwise_cons] at h
    obtain ⟨hfirst, ⟨hhead, hrest⟩, hacross⟩ := h
    rw [heq, Packed, List.pairwise_append, List.pairwise_cons]
    refine ⟨hfirst, ⟨fun d hd => ?_, hrest⟩, fun b hb d hd => ?_⟩
    · rcases he with hsame | hzero
      · exact (hhead d hd).imp_right fun hne => hsame ▸ hne
      · exact (hhead d hd).imp_right fun hne => absurd hzero hne.1
    · rcases List.mem_cons.mp hd with rfl | hd
      · exact Or.inr ⟨(hbefore b hb).2, (hbefore b hb).1⟩
      · exact hacross b hb d (List.mem_cons_of_mem e hd)

/-- **Runs of updates.** -/
theorem packed_arpCacheAfter (updates : List ArpUpdate) : Packed (arpCacheAfter updates) := by
  have hrun : ∀ cache, Packed cache →
      Packed (updates.foldl (fun cache u => updateArpCache cache u.ticks u.ip u.mac) cache) := by
    induction updates with
    | nil => exact fun _ h => h
    | cons u updates ih => exact fun cache h => ih _ (h.update u.ticks u.ip u.mac)
  refine hrun bootArpCache (List.pairwise_of_forall_mem_list fun e _ e' he' => Or.inl ?_)
  rw [List.eq_of_mem_replicate he']

/-! ### The lookup -/

variable {nic : NicDevice} {t : Ipv4Stack} {ip : UInt32}

theorem arpLookup_fst (hlocal : isLocalIp nic ip = true) :
    (arpLookup nic t ip).1 = (arpCacheFind t ip).map ArpCacheEntry.mac := by
  rw [arpLookup]
  simp only [hlocal, if_true]
  cases arpCacheFind t ip with
  | none => rfl
  | some e => rfl

theorem arpCacheFind_eq (t : Ipv4Stack) (ip : UInt32) :
    arpCacheFind t ip = t.arpCache.find? (AnswersFor t.ticks ip) := by
  refine congrArg (t.arpCache.find? ·) (funext fun e => ?_)
  rw [Bool.eq_iff_iff, decide_eq_true_iff]
  simp [AnswersFor]

/-- Where an entry that does not answer is replaced by another one, the answer stays. -/
theorem arpCacheFind_replace {before after : List ArpCacheEntry} {e d : ArpCacheEntry}
    {other : UInt32} (he : ¬ AnswersFor t.ticks other e) (hd : ¬ AnswersFor t.ticks other d) :
    arpCacheFind { t with arpCache := before ++ d :: after } other =
      arpCacheFind { t with arpCache := before ++ e :: after } other := by
  simp [arpCacheFind_eq, List.find?_append, he, hd]

/-- **Read after write**, for an address with a slot of its own or a free slot. -/
theorem arpCacheFind_update {before after : List ArpCacheEntry} {mac : List UInt8}
    (hbefore : ∀ d ∈ before, d.ip ≠ ip ∧ d.ip ≠ 0) :
    arpCacheFind { t with arpCache := before ++ ⟨ip, mac, t.ticks⟩ :: after } ip =
      some ⟨ip, mac, t.ticks⟩ := by
  have hanswers : AnswersFor t.ticks ip ⟨ip, mac, t.ticks⟩ := ⟨rfl, by simp; decide⟩
  have hnone : before.find? (AnswersFor t.ticks ip) = none :=
    List.find?_eq_none.mpr fun d hd => by simp [AnswersFor, (hbefore d hd).1]
  rw [arpCacheFind_eq, List.find?_append, hnone, List.find?_cons_of_pos (by simpa using hanswers)]
  rfl

/-- **The table as a map.** After any run of updates from boot, an address of the local network is
found with what has just been put in, and the rest is as it was, exactly if it was in the table or
a slot was free. -/
theorem readAfterWrite_iff (nic : NicDevice) (updates : List ArpUpdate) (s : Ipv4Stack)
    (hs : s.arpCache = arpCacheAfter updates) (ip : UInt32) (mac : List UInt8)
    (hlocal : isLocalIp nic ip = true) :
    ReadAfterWrite nic s ip mac ↔ ∃ e ∈ s.arpCache, e.ip = ip ∨ e.ip = 0 := by
  have hpacked : Packed s.arpCache := hs ▸ packed_arpCacheAfter updates
  rcases updateArpCache_cases s.arpCache s.ticks ip mac with
    ⟨hnone, hsame⟩ | ⟨before, e, after, hcache, hbefore, he, heq⟩
  · refine iff_of_false (fun h => ?_) ?_
    · have hfound := h.2.2.1
      rw [arpLookup_fst hlocal, hsame, arpCacheFind_eq] at hfound
      obtain ⟨d, hd, -⟩ := Option.map_eq_some_iff.mp hfound
      have hanswers : AnswersFor s.ticks ip d := by simpa using List.find?_some hd
      exact (hnone d (List.mem_of_find?_eq_some hd)).1 hanswers.1
    · rintro ⟨d, hd, hsame | hzero⟩
      · exact (hnone d hd).1 hsame
      · exact (hnone d hd).2 hzero
  · refine iff_of_true ⟨hpacked.distinctIps, (hpacked.update s.ticks ip mac).distinctIps, ?_, ?_⟩
      ⟨e, hcache ▸ List.mem_append_right _ List.mem_cons_self, he⟩
    · rw [arpLookup_fst hlocal, heq, arpCacheFind_update hbefore]
      rfl
    · intro other hne hother answer hanswer
      by_cases hanswers : AnswersFor s.ticks other e
      · -- a free slot can answer only for the address 0
        have hzero : other = 0 := by
          rcases he with hsame | hzero
          · exact absurd (hanswers.1.symm.trans hsame) hne
          · exact hanswers.1.symm.trans hzero
        have hskip : before.findIdx? (AnswersFor s.ticks other) = none :=
          List.findIdx?_eq_none_iff.mpr fun d hd => by
            simp [AnswersFor, hzero, (hbefore d hd).2]
        refine Or.inr ⟨before.length, ⟨ip, mac, s.ticks⟩, ?_, ?_, rfl⟩
        · simp [hcache, List.findIdx?_append, hskip, List.findIdx?_cons, hanswers]
        · simp [heq]
      · refine Or.inl ?_
        rw [arpLookup_fst hother] at hanswer ⊢
        rw [heq, arpCacheFind_replace hanswers fun h => hne h.1.symm, ← hcache]
        exact hanswer

/-- A host with this table at this time. -/
def arpHost (updates : List ArpUpdate) (ticks : UInt32) : Ipv4Stack where
  packetBuffer := fun _ => 0
  packetId := 0
  arpCache := arpCacheAfter updates
  ticks := ticks
  sent := []
  made := []
  queued := []
  arpRequests := []

/-- Entries for the addresses from 10.0.2.16 to 10.0.2.47. -/
def fullTable : List ArpUpdate :=
  (List.range 32).map fun i => ⟨0, 0x0A000210 + UInt32.ofNat i, [2, 0, 0, 0, 1, UInt8.ofNat i]⟩

theorem readAfterWrite_iff_gateway :
    ReadAfterWrite defaultNic (arpHost [] 5) 0x0A000202 [0x52, 0x55, 0x0A, 0, 2, 2] :=
  (readAfterWrite_iff defaultNic [] (arpHost [] 5) rfl 0x0A000202 [0x52, 0x55, 0x0A, 0, 2, 2]
    rfl).mpr
      ⟨⟨0, List.replicate 6 0, 0⟩, by simp [arpHost, arpCacheAfter, bootArpCache], Or.inr rfl⟩

/-- A full table takes no further address, even when all of its entries are too old. -/
theorem readAfterWrite_violated :
    ¬ ∀ nic updates (s : Ipv4Stack), s.arpCache = arpCacheAfter updates →
      (updates.map ArpUpdate.ticks ++ [s.ticks]).Pairwise (· ≤ ·) →
      ∀ ip mac, ip ≠ 0 → isLocalIp nic ip = true → ReadAfterWrite nic s ip mac := by
  intro h
  have hread := h defaultNic fullTable (arpHost fullTable 40000) rfl (by decide +kernel) 0x0A000202
    [0x52, 0x55, 0x0A, 0, 2, 2] (by decide) rfl
  exact absurd hread.2.2.1 (by decide +kernel)

end HalOS
