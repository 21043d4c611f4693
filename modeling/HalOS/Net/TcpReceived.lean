import HalOS.Net.TcpBuffer

/-!
# What a Segment Adds to the Receive Buffers

Of all that `tcp_handle_packet` does, only the payload that `handle_established_state` takes
changes a receive buffer, and only the one of the connection the segment is for.

## Main results

* `recvBuffer_handleSegment`: the buffer of a connection after a segment.
-/

namespace HalOS

open Outcome (bind_eq_ok)

/-- What a segment makes `handle_established_state` append to the buffer of `conn`. -/
def appendedPayload (s : TcpStack) (conn : ℕ) (srcIp dstIp : UInt32) (tcp : TcpHeader)
    (bytes : ℕ → UInt8) (len : UInt16) : List UInt8 :=
  if tcp.dataOffset >>> 4 < 5 ∨ hasFlag tcp.flags tcpRst = true then []
  else
    match findConnection s srcIp tcp.srcPort dstIp tcp.destPort with
    | none => []
    | some c =>
        if c.addr = conn ∧ c.state = .established then copiedPayload tcp bytes len else []

/-- Every block that is left has the buffer that it had. -/
def SameBuffers (s s' : TcpStack) : Prop :=
  ∀ c' ∈ s'.connectionList, ∃ c ∈ s.connectionList, c.addr = c'.addr ∧ c.recvBuffer = c'.recvBuffer

variable {s s' t : TcpStack} {c c' d : TcpConnection}

theorem SameBuffers.trans (h : SameBuffers s s') (h' : SameBuffers s' t) : SameBuffers s t := by
  intro c'' hc''
  obtain ⟨c', hc', haddr', hbuffer'⟩ := h' c'' hc''
  obtain ⟨c, hc, haddr, hbuffer⟩ := h c' hc'
  exact ⟨c, hc, haddr.trans haddr', hbuffer.trans hbuffer'⟩

theorem sameBuffers_of_subset (h : ∀ c ∈ s'.connectionList, c ∈ s.connectionList) :
    SameBuffers s s' :=
  fun c hc => ⟨c, h c hc, rfl, rfl⟩

/-- A block that is read after another one was written is that one, or a block of another
address. -/
theorem mem_setConn_iff_ne (h : d ∈ (s.setConn c).connectionList) :
    d = c ∨ (d ∈ s.connectionList ∧ d.addr ≠ c.addr) := by
  obtain ⟨e, he, heq⟩ := List.mem_map.mp h
  split_ifs at heq with haddr
  · exact Or.inl heq.symm
  · exact Or.inr (heq ▸ ⟨he, haddr⟩)

theorem sameBuffers_setConn (hd : d ∈ s.connectionList) (haddr : d.addr = c.addr)
    (hbuffer : d.recvBuffer = c.recvBuffer) : SameBuffers s (s.setConn c) := by
  intro e he
  obtain rfl | he := mem_setConn he
  · exact ⟨d, hd, haddr, hbuffer⟩
  · exact ⟨e, he, rfl, rfl⟩

/-- A segment is sent and a block with the old buffer is written back. -/
theorem sameBuffers_sendBack {x : TcpStack × TcpConnection} {flags : UInt8} {data : List UInt8}
    {dataLen : UInt16} (hx : x = tcpSendSegment s c flags data dataLen) (hd : d ∈ s.connectionList)
    (haddr : d.addr = c'.addr) (hbuffer : d.recvBuffer = c'.recvBuffer) :
    SameBuffers s (x.1.setConn c') := by
  have hlist : x.1.connectionList = s.connectionList := by
    rw [hx, connectionList_tcpSendSegment]
  exact (sameBuffers_of_subset fun e he => hlist ▸ he).trans
    (sameBuffers_setConn (hlist ▸ hd) haddr hbuffer)

theorem sameBuffers_freeConnection (h : freeConnection s c = .ok s') : SameBuffers s s' := by
  obtain ⟨-, rfl⟩ := freeConnection_eq_ok.mp h
  exact sameBuffers_of_subset fun e he => (List.mem_filter.mp he).1

theorem sameBuffers_removeConnection {conn : ℕ} (h : removeConnection s conn = .ok s') :
    SameBuffers s s' := by
  obtain ⟨c, -, hfree⟩ := bind_eq_ok.mp h
  have hcancel : SameBuffers s (cancelRetransmissionTimer s conn) :=
    sameBuffers_of_subset fun _ he => he
  exact hcancel.trans (sameBuffers_freeConnection hfree)

theorem sameBuffers_checkTcpTimers (haddr : Addressed s) (h : checkTcpTimers s = .ok s') :
    SameBuffers s s' := by
  intro c' hc'
  have hmem := (frame_checkTcpTimers h).addrs.subset (List.mem_map_of_mem hc')
  obtain ⟨c, hc, heq⟩ := List.mem_map.mp hmem
  have hcore := core_checkTcpTimers haddr h hc hc' heq.symm
  exact ⟨c, hc, heq, (congrArg TcpConnection.recvBuffer hcore).symm⟩

/-! ### The handlers -/

/-- Outside `TCP_ESTABLISHED` no handler touches a buffer. -/
theorem sameBuffers_handleInState (haddr : Addressed s) (hc : c ∈ s.connectionList)
    (hstate : c.state ≠ .established) {tcp : TcpHeader} {bytes : ℕ → UInt8} {len : UInt16}
    (h : handleInState s c tcp bytes len = .ok s') : SameBuffers s s' := by
  rw [handleInState] at h
  cases hwhere : c.state with
  | synSent =>
      simp only [hwhere] at h
      rw [← Except.ok.inj h]
      obtain ⟨-, heq⟩ | ⟨-, -, x, hx, heq⟩ := handleSynSent_cases s c tcp
      · rw [heq]
        exact sameBuffers_of_subset fun _ he => he
      · rw [heq]
        refine (sameBuffers_sendBack hx hc ?_ ?_).trans (sameBuffers_of_subset fun _ he => he)
        · rw [hx, addr_tcpSendSegment]
        · rw [hx, recvBuffer_tcpSendSegment]
  | synReceived =>
      simp only [hwhere] at h
      rw [← Except.ok.inj h, handleSynReceived]
      split_ifs
      · have hset : SameBuffers s (s.setConn { c with state := .established }) :=
          sameBuffers_setConn hc rfl rfl
        exact hset.trans (sameBuffers_of_subset fun _ he => he)
      · exact sameBuffers_of_subset fun _ he => he
  | established => exact absurd hwhere hstate
  | waitForAck =>
      simp only [hwhere] at h
      have hc' := haddr.deref_of_mem hc
      cases hq : c.retransmitQueue with
      | nil =>
          obtain rfl := eq_of_handleWaitForAckState_nil hc' hq h
          exact sameBuffers_of_subset fun _ he => he
      | cons e es =>
          obtain ⟨-, rfl, h⟩ | ⟨-, rfl⟩ | ⟨-, -, rfl⟩ | ⟨-, -, -, x, hx, rfl⟩ | ⟨-, -, -, rfl⟩ :=
            handleWaitForAckState_eq_ok hc' hq h
          · have hset : SameBuffers s (s.setConn { c with retransmitQueue := [] }) :=
              sameBuffers_setConn hc rfl rfl
            exact hset.trans (sameBuffers_removeConnection h)
          · exact sameBuffers_setConn hc rfl rfl
          · exact sameBuffers_setConn hc rfl rfl
          · refine sameBuffers_sendBack hx hc ?_ ?_
            · rw [hx, addr_tcpSendSegment]
            · rw [hx, recvBuffer_tcpSendSegment]
          · exact sameBuffers_setConn hc rfl rfl
  | lastAck =>
      simp only [hwhere] at h
      obtain ⟨e, -, h⟩ := bind_eq_ok.mp h
      split_ifs at h
      · exact sameBuffers_removeConnection h
      · rw [← Except.ok.inj h]
        exact sameBuffers_of_subset fun _ he => he
  | _ =>
      simp only [hwhere] at h
      rw [← Except.ok.inj h]
      exact sameBuffers_of_subset fun _ he => he

theorem recvBuffer_handleHttpRequest (s : TcpStack) (c : TcpConnection) :
    (handleHttpRequest s c).2.recvBuffer = c.recvBuffer := by
  obtain ⟨-, x, rfl, heq⟩ | ⟨file, -, -, heq⟩ | ⟨file, -, -, x, y, rfl, rfl, heq⟩ :=
    handleHttpRequest_cases s c
  · rw [heq]
    exact recvBuffer_tcpSendSegment _ _ _ _ _
  · rw [heq]
  · rw [heq]
    exact (recvBuffer_tcpSendSegment _ _ _ _ _).trans (recvBuffer_tcpSendSegment _ _ _ _ _)

theorem recvBuffer_handleFin (s : TcpStack) (c : TcpConnection) (flags : UInt8) :
    (handleFin s c flags).2.recvBuffer = c.recvBuffer := by
  rw [handleFin]
  split_ifs
  · exact (recvBuffer_tcpSendSegment _ _ _ _ _).trans (recvBuffer_tcpSendSegment _ _ _ _ _)
  · rfl

/-- The payload is appended unless it is a request. -/
theorem recvBuffer_receiveData {seq : UInt32} {payload : List UInt8} {dataLen : UInt16}
    (hpayload : dataLen = 0 → payload = [])
    (h : receiveData s c seq payload dataLen = .ok (s', c')) :
    c'.recvBuffer = c.recvBuffer ++ if isHttpGetRequest payload then [] else payload := by
  obtain ⟨hlen, -, rfl⟩ | ⟨-, hget, x, rfl, -, rfl⟩ | ⟨-, hget, -, heq⟩ := receiveData_eq_ok h
  · rw [hpayload hlen, ite_self, List.append_nil]
  · rw [if_pos hget, List.append_nil]
    exact recvBuffer_handleHttpRequest _ _
  · rw [if_neg (Bool.eq_false_iff.mp hget)]
    exact (congrArg (fun x => x.2.recvBuffer) heq).trans (recvBuffer_tcpSendSegment _ _ _ _ _)

/-- **Established.** The connection of the segment gets the payload. -/
theorem recvBuffer_handleEstablishedState (haddr : Addressed s) (hc : c ∈ s.connectionList)
    {tcp : TcpHeader} {bytes : ℕ → UInt8} {len : UInt16}
    (h : handleEstablishedState s c.addr tcp bytes len = .ok s') (hc' : c' ∈ s'.connectionList) :
    ∃ d ∈ s.connectionList, d.addr = c'.addr ∧
      c'.recvBuffer = d.recvBuffer ++
        if d.addr = c.addr then copiedPayload tcp bytes len else [] := by
  obtain ⟨s₁, c₁, s₂, c₂, c₃, x, y, htimers, hc₁, hfast, hack, hx, hdata, rfl⟩ :=
    handleEstablishedState_eq_ok h
  have hfinish : finishSegment s₂ c₃ tcp bytes len = .ok (handleFin y.1 y.2 tcp.flags) :=
    bind_eq_ok.mpr ⟨y, hx ▸ hdata, rfl⟩
  have haddr₃ : c₃.addr = c.addr := by
    obtain ⟨-, rfl⟩ := processAck_eq_ok.mp hack
    exact ((addr_fastRetransmit hfast).trans (reestablish_addr c₁ _ _)).trans (deref_eq_ok hc₁).2
  obtain rfl | ⟨hmem, hne⟩ := mem_setConn_iff_ne hc'
  · rw [addr_finishSegment hfinish, haddr₃, recvBuffer_handleFin,
      @recvBuffer_receiveData _ y.1 _ y.2 _ _ _ (fun hzero => by rw [hzero]; rfl) hdata,
      recvBuffer_copied haddr hc htimers hc₁ hfast hack hx]
    exact ⟨c, hc, rfl, by rw [if_pos rfl, copiedPayload]⟩
  · rw [addr_finishSegment hfinish, haddr₃] at hne
    rw [connectionList_finishSegment hfinish, connectionList_fastRetransmit hfast] at hmem
    obtain ⟨d, hd, heq, hbuffer⟩ := sameBuffers_checkTcpTimers haddr htimers c' hmem
    refine ⟨d, hd, heq, ?_⟩
    rw [if_neg fun h => hne (heq.symm.trans h), List.append_nil, hbuffer]

/-- A passive open adds a block at a fresh address. -/
theorem recvBuffer_passiveOpen {srcIp dstIp : UInt32} {tcp : TcpHeader} {bytes : ℕ → UInt8}
    (hc' : c' ∈ (passiveOpen s srcIp dstIp tcp bytes).connectionList)
    (hold : c'.addr < s.nextAddr) :
    ∃ d ∈ s.connectionList, d.addr = c'.addr ∧ d.recvBuffer = c'.recvBuffer := by
  obtain ⟨-, heq⟩ | ⟨-, d, u, x, rfl, rfl, hx, heq⟩ := passiveOpen_cases s srcIp dstIp tcp bytes
  · rw [heq] at hc'
    exact ⟨c', hc', rfl, rfl⟩
  · rw [heq, connectionList_startRetransmissionTimer] at hc'
    obtain rfl | hmem := mem_setConn hc'
    · rw [hx, addr_tcpSendSegment] at hold
      exact absurd hold (Nat.lt_irrefl _)
    · rw [hx, connectionList_tcpSendSegment] at hmem
      obtain rfl | hmem := List.mem_cons.mp hmem
      · exact absurd hold (Nat.lt_irrefl _)
      · exact ⟨c', hmem, rfl, rfl⟩

/-- **The receive buffer of a connection after a segment.** -/
theorem recvBuffer_handleSegment (haddr : Addressed s) {srcIp dstIp : UInt32} {tcp : TcpHeader}
    {bytes : ℕ → UInt8} {len : UInt16} (hs : handleSegment s srcIp dstIp tcp bytes len = .ok s')
    (hc : c ∈ s.connectionList) (hc' : c' ∈ s'.connectionList) (heq : c.addr = c'.addr) :
    c'.recvBuffer = c.recvBuffer ++ appendedPayload s c.addr srcIp dstIp tcp bytes len := by
  have hold (h : ∃ d ∈ s.connectionList, d.addr = c'.addr ∧ d.recvBuffer = c'.recvBuffer) :
      c'.recvBuffer = c.recvBuffer ++ [] := by
    obtain ⟨d, hd, hdaddr, hbuffer⟩ := h
    obtain rfl := List.inj_on_of_nodup_map haddr.nodup hd hc (hdaddr.trans heq.symm)
    rw [hbuffer, List.append_nil]
  have hsame (h : SameBuffers s s') : c'.recvBuffer = c.recvBuffer ++ [] := hold (h c' hc')
  have hlist (h : s'.connectionList = s.connectionList) : SameBuffers s s' :=
    sameBuffers_of_subset fun e he => h ▸ he
  rw [handleSegment] at hs
  rw [appendedPayload]
  by_cases hoff : tcp.dataOffset >>> 4 < 5
  · rw [if_pos (Or.inl hoff)]
    rw [if_pos hoff] at hs
    refine hsame (hlist ?_)
    rw [← Except.ok.inj hs, tcpSendReset, connectionList_tcpSendSegment]
  rw [if_neg hoff] at hs
  cases hfind : findConnection s srcIp tcp.srcPort dstIp tcp.destPort with
  | none =>
      simp only [hfind] at hs
      rw [ite_self]
      split_ifs at hs
      all_goals rw [Except.ok.injEq] at hs; subst hs
      · exact hsame (hlist rfl)
      · exact hold (recvBuffer_passiveOpen hc' (heq ▸ (haddr.bound c hc).2))
      · exact hsame (hlist (by rw [tcpSendReset, connectionList_tcpSendSegment]))
  | some d =>
      have hd : d ∈ s.connectionList := List.mem_of_find?_eq_some hfind
      simp only [hfind] at hs
      by_cases hrst : hasFlag tcp.flags tcpRst = true
      · rw [if_pos (Or.inr hrst)]
        rw [if_pos hrst] at hs
        exact hsame (sameBuffers_removeConnection hs)
      rw [if_neg hrst] at hs
      rw [if_neg (not_or.mpr ⟨hoff, hrst⟩)]
      by_cases hstate : d.state = .established
      · rw [handleInState, hstate] at hs
        obtain ⟨e, he, headdr, hbuffer⟩ := recvBuffer_handleEstablishedState haddr hd hs hc'
        obtain rfl := List.inj_on_of_nodup_map haddr.nodup he hc (headdr.trans heq.symm)
        rw [hbuffer]
        by_cases hown : e.addr = d.addr
        · simp only [if_pos hown, if_pos (And.intro hown.symm hstate)]
        · simp only [if_neg hown, if_neg fun h : d.addr = e.addr ∧ _ => hown h.1.symm]
      · simp only [if_neg fun h : d.addr = c.addr ∧ _ => hstate h.2]
        exact hsame (sameBuffers_handleInState haddr hd hstate hs)

end HalOS
