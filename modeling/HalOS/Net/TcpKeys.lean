import Mathlib.Data.List.Nodup
import HalOS.Net.TcpFrame

/-!
# Keys of the Connection Table

`find_connection` looks a connection up by its addresses and ports. A passive open looks
before it inserts. An active open takes the port that the tick count and a counter give it and
does not look, so two connections come to share a key if that port is taken.

## Main results

* `uniqueKeys_of_connectsFresh`: keys stay unique as long as no active open derives a port that
  is taken, and no longer.
-/

namespace HalOS

open Outcome (Steps exists_eq_ok_of_any)

/-- No two connections of the table have one key. -/
def UniqueKeys (s : TcpStack) : Prop := (s.connectionList.map (·.key)).Nodup

instance (s : TcpStack) : Decidable (UniqueKeys s) := inferInstanceAs (Decidable (List.Nodup _))

/-- The key of the connection that `tcp_connect` would open. -/
def connectKey (s : TcpStack) (remoteIp : UInt32) (remotePort : UInt16) :
    UInt32 × UInt16 × UInt32 × UInt16 :=
  (remoteIp, remotePort, s.nicIp, 50000 + ((generateSecureInitialSeq s).1 % 15536).toUInt16)

/-- The event is not an active open for a key that is taken. -/
def ConnectsFresh (s : TcpStack) : TcpEvent → Prop
  | .connect _ remoteIp remotePort => s.malloc.1 = true →
      connectKey s remoteIp remotePort ∉ s.connectionList.map (·.key)
  | _ => True

instance (s : TcpStack) : (e : TcpEvent) → Decidable (ConnectsFresh s e)
  | .connect _ _ _ => inferInstanceAs (Decidable (_ → _))
  | .segment _ _ _ _ | .listen _ | .send _ _ _ _ | .remove _ | .checkTimers | .drain _
  | .tick _ => .isTrue trivial

variable {s s' : TcpStack}

/-- A property of the immutable part of a control block is an invariant. -/
theorem blockInvariant_key (p : ℕ → UInt32 × UInt16 × UInt32 × UInt16 → Prop) :
    BlockInvariant (fun c => p c.addr c.key) fun _ => True where
  sent := fun _ _ _ => trivial
  afterSend := fun h _ _ _ _ _ => h
  retried := fun h _ _ _ _ => h
  reset := fun _ _ _ => trivial
  assign := fun h _ _ _ _ _ => h
  dropped := fun h _ _ => h
  append := fun h _ _ => h
  drained := fun h => h

/-- Every connection after an event was there before, or the event opened it. -/
theorem key_next {e : TcpEvent} (hs : e.next s = .ok s') :
    ∀ c ∈ s'.connectionList, ∃ d, (d ∈ s.connectionList ∨ e.Opens s d) ∧
      (c.addr, c.key) = (d.addr, d.key) := by
  have H := blockInvariant_key fun addr key =>
    ∃ d, (d ∈ s.connectionList ∨ e.Opens s d) ∧ (addr, key) = (d.addr, d.key)
  have hholds : Holds (fun c => ∃ d, (d ∈ s.connectionList ∨ e.Opens s d) ∧
      (c.addr, c.key) = (d.addr, d.key)) (fun _ => True) s :=
    ⟨fun c hc => ⟨c, Or.inl hc, rfl⟩, fun _ _ => trivial⟩
  exact (H.next hholds (fun c hc => ⟨c, Or.inr hc, rfl⟩) hs).blocks

/-- An event opens one block at most. -/
theorem TcpEvent.Opens.unique {e : TcpEvent} {c d : TcpConnection} (hc : e.Opens s c)
    (hd : e.Opens s d) : c = d := by
  cases hc with
  | passive => cases hd with | passive => rfl
  | active => cases hd with | active => rfl

/-- The key of a block that is opened is not taken. -/
theorem TcpEvent.Opens.key_not_mem {e : TcpEvent} {c : TcpConnection} (hc : e.Opens s c)
    (hfresh : ConnectsFresh s e) : c.key ∉ s.connectionList.map (·.key) := by
  cases hc with
  | passive hnone _ =>
      rw [findConnection_eq, List.find?_eq_none] at hnone
      intro hmem
      obtain ⟨d, hd, heq⟩ := List.mem_map.mp hmem
      exact hnone d hd (beq_iff_eq.mpr heq)
  | active hmem => exact hfresh hmem

/-- An event that opens no connection with a key that is taken keeps keys unique. -/
theorem UniqueKeys.next (haddr : Addressed s) (h : UniqueKeys s) {e : TcpEvent}
    (hfresh : ConnectsFresh s e) (hs : e.next s = .ok s') : UniqueKeys s' := by
  have haddr' := haddr.next hs
  refine List.Nodup.map_on (fun c hc c' hc' hkey => ?_) (List.Nodup.of_map _ haddr'.nodup)
  refine List.inj_on_of_nodup_map haddr'.nodup hc hc' ?_
  obtain ⟨d, hd, heq⟩ := key_next hs c hc
  obtain ⟨d', hd', heq'⟩ := key_next hs c' hc'
  have hkeys : d.key = d'.key :=
    (Prod.mk.inj heq).2.symm.trans (hkey.trans (Prod.mk.inj heq').2)
  rw [(Prod.mk.inj heq).1, (Prod.mk.inj heq').1]
  obtain hd | hd := hd
  · obtain hd' | hd' := hd'
    · rw [List.inj_on_of_nodup_map h hd hd' hkeys]
    · exact absurd (hkeys ▸ List.mem_map_of_mem hd) (hd'.key_not_mem hfresh)
  · obtain hd' | hd' := hd'
    · exact absurd (hkeys ▸ List.mem_map_of_mem hd') (hd.key_not_mem hfresh)
    · rw [hd.unique hd']

/-- An active open for a key that is taken spoils the table. -/
theorem not_uniqueKeys_next {e : TcpEvent} (hfresh : ¬ ConnectsFresh s e)
    (hs : e.next s = .ok s') : ¬ UniqueKeys s' := by
  cases e with
  | connect stale remoteIp remotePort =>
      rw [ConnectsFresh, Classical.not_imp, not_not] at hfresh
      cases hs
      obtain ⟨hno, -⟩ | ⟨-, c, t, x, rfl, rfl, rfl, heq⟩ :=
        tcpConnect_cases s stale remoteIp remotePort
      · exact absurd (hno.symm.trans hfresh.1) Bool.false_ne_true
      · rw [heq, tcpSendSegment_eq]
        exact fun hnodup => (List.nodup_cons.mp hnodup).1 hfresh.2
  | _ => exact absurd trivial hfresh

/-- With unique keys `find_connection` finds the connection that a key belongs to. -/
theorem UniqueKeys.findConnection_eq_some (h : UniqueKeys s) {c : TcpConnection}
    (hc : c ∈ s.connectionList) :
    findConnection s c.remoteIp c.remotePort c.localIp c.localPort = some c := by
  rw [findConnection_eq]
  cases hfind : s.connectionList.find? fun d =>
      d.key == (c.remoteIp, c.remotePort, c.localIp, c.localPort) with
  | none => exact absurd (beq_self_eq_true c.key) (List.find?_eq_none.mp hfind c hc)
  | some d =>
      have hkey : d.key = (c.remoteIp, c.remotePort, c.localIp, c.localPort) := by
        simpa using List.find?_some hfind
      rw [List.inj_on_of_nodup_map h (List.mem_of_find?_eq_some hfind) hc hkey]

/-- The states that runs without such opens reach. -/
theorem Steps.uniqueKeys {ticks nicIp : UInt32} {indexHtml : Option (List UInt8)}
    {mallocs : List Bool}
    (h : Steps TcpEvent.next ConnectsFresh
      (TcpStack.boot ticks nicIp indexHtml mallocs) s) : Addressed s ∧ UniqueKeys s := by
  refine h.invariant (I := fun s => Addressed s ∧ UniqueKeys s)
    ⟨addressed_boot _ _ _ _, List.nodup_nil⟩ fun s e s' hI hfresh hs => ?_
  exact ⟨hI.1.next hs, hI.2.next hI.1 hfresh hs⟩

/-- **Connection table keys.** In every run whose active opens all derive a free port, keys are
unique in every state and `find_connection` returns the one connection with the key; and the
first active open that derives a port that is taken ends this. -/
theorem uniqueKeys_of_connectsFresh (ticks nicIp : UInt32) (indexHtml : Option (List UInt8))
    (mallocs : List Bool) (s : TcpStack)
    (h : Steps TcpEvent.next ConnectsFresh
      (TcpStack.boot ticks nicIp indexHtml mallocs) s) :
    UniqueKeys s ∧
      (∀ c ∈ s.connectionList,
        findConnection s c.remoteIp c.remotePort c.localIp c.localPort = some c) ∧
      ∀ e s', TcpEvent.next s e = .ok s' → (UniqueKeys s' ↔ ConnectsFresh s e) := by
  obtain ⟨haddr, hkeys⟩ := Steps.uniqueKeys h
  refine ⟨hkeys, fun c hc => hkeys.findConnection_eq_some hc, fun e s' hs => ⟨?_, ?_⟩⟩
  · intro hnext
    by_contra hfresh
    exact not_uniqueKeys_next hfresh hs hnext
  · exact fun hfresh => hkeys.next haddr hfresh hs

/-- Two opens at one time get ports of their own. -/
theorem uniqueKeys_of_connectsFresh_two :
    ∃ s, UniqueKeys s ∧ s.connectionList.length = 2 := by
  have hopen (s) (h : ConnectsFresh s (.connect .zero 0x0A000202 80)) {s₀ : TcpStack}
      (hs : Steps TcpEvent.next ConnectsFresh s₀ s) :
      Steps TcpEvent.next ConnectsFresh s₀ (tcpConnect s .zero 0x0A000202 80) :=
    .tail _ hs h rfl
  have hrun := hopen _ (by decide +kernel) (hopen (TcpStack.boot 0 0x0A00020F none [])
    (by decide +kernel) .refl)
  exact ⟨_, (uniqueKeys_of_connectsFresh 0 0x0A00020F none [] _ hrun).1, by decide +kernel⟩

/-- Nine active opens to one server, the last one 600 ticks after the others. -/
def collidingOpens : List TcpEvent :=
  List.replicate 8 (.connect .zero 0x0A000202 80) ++ [.tick 600, .connect .zero 0x0A000202 80]

/-- The ninth open gets the port of the first one. -/
theorem uniqueKeys_violated :
    ¬ ∀ s, Steps TcpEvent.next (fun _ _ => True) (TcpStack.boot 0 0x0A00020F none []) s →
      UniqueKeys s := by
  intro hall
  obtain ⟨s, hrun, hkeys⟩ := exists_eq_ok_of_any (p := fun s => !decide (UniqueKeys s))
    (x := collidingOpens.foldlM TcpEvent.next (TcpStack.boot 0 0x0A00020F none []))
    (by decide +kernel)
  exact absurd (hall s (.of_foldlM hrun)) (by simpa using hkeys)

end HalOS
