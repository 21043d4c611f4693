import HalOS.Net.TcpWire

/-!
# Serving the File

`handle_http_request` sends the header block in one segment and the whole file in another, whose
length is cut to 16 bits. The file gets to the wire as long as it fits one frame.

## Main results

* `deliversFile_iff`: the sizes for which one request delivers the file.
-/

namespace HalOS

/-- The file less one trailing newline. -/
def withoutNewline (file : List UInt8) : List UInt8 :=
  if file.getLast? = some 0x0A then file.dropLast else file

/-- What the segments put on the wire, in the order in which they are sent. -/
def onWire (segs : List TcpSegment) : Except Fault (List (UInt32 × List UInt8)) :=
  (segs.mapM TcpSegment.onWire).map List.flatten

/-- The payloads are numbered from `next` on without gaps. -/
def Numbered : UInt32 → List (UInt32 × List UInt8) → Prop
  | _, [] => True
  | next, frame :: frames =>
      frame.1 = next ∧ Numbered (next + UInt32.ofNat frame.2.length) frames

/-- A request makes the server put the header block and the file on the wire: in segments of at
most `mss` bytes, numbered without gaps from `next_seq` on, the length in the header block that of
the file. -/
def DeliversFile (s : TcpStack) (c : TcpConnection) (file : List UInt8) : Prop :=
  ∃ segs frames, (handleHttpRequest s c).1.sent = s.sent ++ segs ∧ onWire segs = .ok frames ∧
    Numbered c.nextSeq frames ∧ (∀ frame ∈ frames, frame.2.length ≤ c.mss.toNat) ∧
    (frames.map (·.2)).flatten =
      httpHeaders (UInt32.ofNat (withoutNewline file).length) ++ withoutNewline file

variable {s : TcpStack} {c : TcpConnection} {file : List UInt8}

/-- `file.size` after trimming is the length of what is to be sent. -/
theorem httpBodySize_eq (hfile : file.length < 2 ^ 32) :
    httpBodySize file = UInt32.ofNat (withoutNewline file).length := by
  rw [httpBodySize, withoutNewline]
  by_cases hlast : file.getLast? = some 0x0A
  · have hpos : 0 < file.length := by
      cases file with
      | nil => cases hlast
      | cons b bs => exact Nat.succ_pos _
    have hnat : (UInt32.ofNat file.length).toNat = file.length := UInt32.toNat_ofNat_of_lt' hfile
    have hsize : 0 < UInt32.ofNat file.length := by
      rw [UInt32.lt_iff_toNat_lt, hnat]
      exact hpos
    rw [if_pos ⟨hsize, hlast⟩, if_pos hlast, List.length_dropLast]
    refine UInt32.toNat_inj.mp ?_
    rw [UInt32.toNat_sub_of_le _ _ (UInt32.le_iff_toNat_le.mpr (by rw [hnat]; exact hpos)), hnat,
      UInt32.toNat_ofNat_of_lt' (Nat.lt_of_le_of_lt (Nat.sub_le _ _) hfile)]
    rfl
  · rw [if_neg fun h => hlast h.2, if_neg hlast]

/-- What is sent of the file, when its length is cut to 16 bits. -/
theorem take_bodySize (hfile : file.length < 2 ^ 32)
    (hbody : (withoutNewline file).length < 2 ^ 16) :
    file.take (httpBodySize file).toUInt16.toNat = withoutNewline file := by
  have hsize : (httpBodySize file).toUInt16.toNat = (withoutNewline file).length := by
    rw [httpBodySize_eq hfile, UInt32.toNat_toUInt16,
      UInt32.toNat_ofNat_of_lt' (Nat.lt_trans hbody (by decide)), Nat.mod_eq_of_lt hbody]
  rw [hsize, withoutNewline]
  split_ifs
  · rw [List.length_dropLast, List.dropLast_eq_take]
  · rw [List.take_length]

/-- The header block is short. -/
theorem length_httpHeaders_le (size : UInt32) : (httpHeaders size).length ≤ 200 := by
  have hdigits : (Nat.toDigits 10 size.toNat).length ≤ 10 :=
    (Nat.length_toDigits_le_iff (by decide) (by decide)).mpr
      (Nat.lt_trans size.toNat_lt (by decide))
  have hstart : (asciiBytes
      "HTTP/1.1 200 OK\r\nContent-Type: text/html\r\nContent-Length: ").length ≤ 100 := by
    decide
  have hend : (asciiBytes "\r\nConnection: close\r\n\r\n").length ≤ 50 := by decide
  rw [httpHeaders, List.length_append, List.length_append, List.length_map]
  omega

/-! ### The segments -/

/-- The packet of a segment without options: 20 bytes of header and the payload. -/
theorem wire_eq {seg : TcpSegment} (hopt : seg.options = []) :
    ∃ header : List UInt8, header.length = 20 ∧ seg.wire = header ++ seg.data := by
  refine ⟨_, ?_, by rw [TcpSegment.wire, hopt, List.append_nil]⟩
  rfl

theorem onWire_of_le {seg : TcpSegment} (hopt : seg.options = []) (h : seg.data.length ≤ 1464) :
    seg.onWire = .ok [(seg.seq, seg.data)] := by
  obtain ⟨header, hheader, hwire⟩ := wire_eq hopt
  have hlength : seg.wire.length = 20 + seg.data.length := by
    rw [hwire, List.length_append, hheader]
  have hlen : seg.len.toNat = 20 + seg.data.length := by
    have hlt : 20 + seg.data.length < 2 ^ 16 := by omega
    rw [TcpSegment.len, hlength, UInt16.toNat_ofNat_of_lt' hlt]
  rw [TcpSegment.onWire, netSendIpv4Packet_of_le (by omega), hlen, ← hlength, List.take_length,
    hopt, hwire]
  simp [Except.map, ← hheader]

/-- A segment that is not dropped shows the start of its payload, as much as fits a frame. -/
theorem onWire_eq_ok {seg : TcpSegment} (hopt : seg.options = [])
    {frames : List (UInt32 × List UInt8)} (h : seg.onWire = .ok frames) :
    frames = [] ∨ ∃ payload, frames = [(seg.seq, payload)] ∧ payload.length ≤ 1464 := by
  rw [TcpSegment.onWire] at h
  cases hsend : netSendIpv4Packet seg.dstIp ipProtoTcp seg.wire seg.len with
  | error e =>
      rw [hsend] at h
      cases h
  | ok packet =>
      rw [hsend] at h
      cases packet with
      | none => exact Or.inl (Except.ok.inj h).symm
      | some packet =>
          obtain ⟨hpayload, hle⟩ := le_of_netSendIpv4Packet hsend
          refine Or.inr ⟨_, (Except.ok.inj h).symm, ?_⟩
          rw [List.length_drop, hpayload, List.length_take, hopt, List.length_nil]
          omega

theorem sent_startRetransmissionTimer (s : TcpStack) (conn : ℕ) (timeoutMs : UInt32) :
    (startRetransmissionTimer s conn timeoutMs).sent = s.sent := by
  rw [startRetransmissionTimer, TcpStack.malloc]
  cases s.mallocs.headD true with
  | false => rfl
  | true => rfl

/-- A request is answered by two segments. -/
theorem sent_handleHttpRequest (hindex : s.indexHtml = some file) (hmem : s.malloc.1 = true) :
    ∃ header body : TcpSegment, (handleHttpRequest s c).1.sent = s.sent ++ [header, body] ∧
      header.options = [] ∧ header.seq = c.nextSeq ∧ header.data = httpHeaders (httpBodySize file) ∧
      body.options = [] ∧ body.data = file.take (httpBodySize file).toUInt16.toNat ∧
      body.seq = c.nextSeq + UInt32.ofNat (httpHeaders (httpBodySize file)).length := by
  obtain ⟨hno, -⟩ | ⟨-, -, hno, -⟩ | ⟨file', hindex', -, x, y, rfl, rfl, heq⟩ :=
    handleHttpRequest_cases s c
  · cases hindex.symm.trans hno
  · exact absurd (hno.symm.trans hmem) Bool.false_ne_true
  obtain rfl : file = file' := Option.some.inj (hindex.symm.trans hindex')
  have hlt : (httpHeaders (httpBodySize file)).length < 2 ^ 16 :=
    Nat.lt_of_le_of_lt (length_httpHeaders_le _) (by decide)
  have hlen : (UInt16.ofNat (httpHeaders (httpBodySize file)).length).toNat =
      (httpHeaders (httpBodySize file)).length := UInt16.toNat_ofNat_of_lt' hlt
  have hnumber : sequenceLen (tcpPsh ||| tcpAck)
      (UInt16.ofNat (httpHeaders (httpBodySize file)).length) =
      UInt32.ofNat (httpHeaders (httpBodySize file)).length := by
    rw [sequenceLen, if_neg (by decide), UInt32.add_zero]
    refine UInt32.toNat_inj.mp ?_
    rw [UInt16.toNat_toUInt32, hlen, UInt32.toNat_ofNat_of_lt' (Nat.lt_trans hlt (by decide))]
  rw [heq, sent_startRetransmissionTimer, sent_tcpSendSegment, sent_tcpSendSegment,
    List.append_assoc]
  refine ⟨_, _, rfl, rfl, rfl, ?_, rfl, rfl, ?_⟩
  · rw [hlen]
    exact List.take_length
  · rw [buildSegment, nextSeq_tcpSendSegment, hnumber]

theorem onWire_pair {header body : TcpSegment} {frame : UInt32 × List UInt8}
    (h : header.onWire = .ok [frame]) :
    onWire [header, body] = body.onWire.map fun frames => frame :: frames := by
  rw [onWire, List.mapM_cons, h]
  simp only [List.mapM_cons, List.mapM_nil]
  cases body.onWire with
  | error e => rfl
  | ok frames => exact congrArg Except.ok (by simp)

/-! ### Delivery -/

/-- The sizes for which the answer gets to the wire. -/
structure PageFits (c : TcpConnection) (file : List UInt8) : Prop where
  header : (httpHeaders (UInt32.ofNat (withoutNewline file).length)).length ≤ c.mss.toNat
  mss : (withoutNewline file).length ≤ c.mss.toNat
  frame : (withoutNewline file).length ≤ 1464

/-- A file that is delivered came in one frame. -/
theorem fits_of_deliversFile (hindex : s.indexHtml = some file) (hfile : file.length < 2 ^ 32)
    (hmem : s.malloc.1 = true) (h : DeliversFile s c file) : PageFits c file := by
  obtain ⟨header, body, hsent, hopt, -, hheader, hopt', -⟩ :=
    sent_handleHttpRequest (c := c) hindex hmem
  rw [httpBodySize_eq hfile] at hheader
  obtain ⟨segs, frames, hsegs, hframes, -, hmss, hconcat⟩ := h
  obtain rfl : [header, body] = segs := List.append_cancel_left (hsent.symm.trans hsegs)
  have hwire : header.onWire = .ok [(header.seq, header.data)] :=
    onWire_of_le hopt (by rw [hheader]; exact Nat.le_trans (length_httpHeaders_le _) (by decide))
  rw [onWire_pair hwire] at hframes
  cases hsend : body.onWire with
  | error e =>
      rw [hsend] at hframes
      cases hframes
  | ok sentBody =>
      rw [hsend] at hframes
      obtain rfl : (header.seq, header.data) :: sentBody = frames := Except.ok.inj hframes
      rw [List.map_cons, List.flatten_cons, hheader] at hconcat
      have hrest := List.append_cancel_left hconcat
      have hfirst := hmss _ List.mem_cons_self
      rw [hheader] at hfirst
      obtain rfl | ⟨payload, rfl, hle⟩ := onWire_eq_ok hopt' hsend
      · refine ⟨hfirst, ?_, ?_⟩
        · rw [← hrest]
          exact Nat.zero_le _
        · rw [← hrest]
          exact Nat.zero_le _
      · have hpayload : payload = withoutNewline file := by
          rw [← hrest, List.map_singleton, List.flatten_singleton]
        have hlast := hmss _ (List.mem_cons_of_mem _ List.mem_cons_self)
        exact ⟨hfirst, hpayload ▸ hlast, hpayload ▸ hle⟩

/-- A file that fits is delivered. -/
theorem deliversFile_of_fits (hindex : s.indexHtml = some file) (hfile : file.length < 2 ^ 32)
    (hmem : s.malloc.1 = true) (h : PageFits c file) : DeliversFile s c file := by
  obtain ⟨header, body, hsent, hopt, hseq, hheader, hopt', hbody, hseq'⟩ :=
    sent_handleHttpRequest (c := c) hindex hmem
  rw [httpBodySize_eq hfile] at hheader hseq'
  rw [take_bodySize hfile (Nat.lt_of_le_of_lt h.frame (by decide))] at hbody
  have hwire : header.onWire = .ok [(header.seq, header.data)] :=
    onWire_of_le hopt (by rw [hheader]; exact Nat.le_trans (length_httpHeaders_le _) (by decide))
  have hwire' : body.onWire = .ok [(body.seq, body.data)] :=
    onWire_of_le hopt' (by rw [hbody]; exact h.frame)
  refine ⟨_, [(header.seq, header.data), (body.seq, body.data)], hsent,
    by rw [onWire_pair hwire, hwire']; rfl, ?_, ?_, ?_⟩
  · rw [Numbered, Numbered, Numbered, hheader]
    exact ⟨hseq, hseq', trivial⟩
  · intro frame hmem
    obtain rfl | hmem := List.mem_cons.mp hmem
    · rw [hheader]
      exact h.header
    · rw [List.mem_singleton.mp hmem, hbody]
      exact h.mss
  · rw [List.map_cons, List.map_singleton, List.flatten_cons, List.flatten_singleton, hheader,
      hbody]

/-- **Serving the file.** One request delivers the file if and only if the header block and the
file each fit a segment of the connection, and the file fits a frame. -/
theorem deliversFile_iff (hindex : s.indexHtml = some file) (hfile : file.length < 2 ^ 32)
    (hmem : s.malloc.1 = true) : DeliversFile s c file ↔ PageFits c file :=
  ⟨fits_of_deliversFile hindex hfile hmem, deliversFile_of_fits hindex hfile hmem⟩

/-- A host with a page of so many bytes. -/
def hostWithPage (size : ℕ) : TcpStack :=
  .boot 0 0x0A00020F (some (List.replicate size 0x61)) []

/-- A connection to the host. -/
def pageConn : TcpConnection :=
  { passiveBlock 1 0x0A000202 0x0A00020F (peerSegment 0 0 tcpSyn []).header (fun _ => 0) 0 with
    state := .established
    nextSeq := 1 }

/-- A page of a thousand bytes is delivered. -/
theorem deliversFile_iff_thousand :
    DeliversFile (hostWithPage 1000) pageConn (List.replicate 1000 0x61) :=
  (deliversFile_iff rfl (by decide +kernel) rfl).mpr
    ⟨by decide +kernel, by decide +kernel, by decide +kernel⟩

/-- A page of two thousand bytes is not: the segment is dropped. -/
theorem deliversFile_violated :
    ¬ ∀ (s : TcpStack) (c : TcpConnection) (file : List UInt8), s.indexHtml = some file →
      file.length < 2 ^ 32 → s.mallocs = [] → c.state = .established → DeliversFile s c file := by
  intro hall
  have hfits := fits_of_deliversFile rfl (by decide +kernel) rfl
    (hall (hostWithPage 2000) pageConn _ rfl (by decide +kernel) rfl rfl)
  exact absurd hfits.frame (by decide +kernel)

end HalOS
