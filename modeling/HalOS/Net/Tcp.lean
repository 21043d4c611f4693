import Mathlib.Algebra.Group.Nat.Defs
import Mathlib.Data.List.Basic

/-!
# The TCP Stack

The connection table, the retransmission timers and the segment handlers of
`drivers/net/tcp.c`. Sequence numbers, ports, flags and lengths are machine words of the
source's widths, so every sum and comparison is the one the target computes.

A pointer to a control block is its address `addr`; a block is allocated while it is in
`connectionList`. What C leaves undefined ends the run with a `Fault`: the use of a freed
block, a null or uninitialised pointer followed, a copy past the end of `recv_buffer`.

`net_send_ipv4_packet` is a log: `sent` holds the segments handed to it, oldest first. The
outcomes of the coming calls of `malloc` are the list `mallocs`; past its end they succeed.
The time does not advance inside a call. The received checksum is read, cleared, recomputed
and put back, and no branch depends on it, so it is left out, and so are the fields of the
control block that nothing reads (`send_buffer`, `send_buffer_len`, `window_size`).
-/

namespace HalOS

/-- `tcp_state_t`. -/
inductive TcpState
  | closed | listen | synSent | synReceived | established | waitForAck | finWait1 | finWait2
  | closeWait | closing | lastAck | timeWait
deriving DecidableEq, Repr

/-- Undefined behaviour that a call can run into. -/
inductive Fault
  | useAfterFree | nullDereference | wildPointer | bufferOverrun
deriving DecidableEq, Repr

/-! ### Constants -/

abbrev tcpFin : UInt8 := 0x01
abbrev tcpSyn : UInt8 := 0x02
abbrev tcpRst : UInt8 := 0x04
abbrev tcpPsh : UInt8 := 0x08
abbrev tcpAck : UInt8 := 0x10

/-- `TCP_SYN_RETRANSMIT_TIMEOUT` and `TCP_DATA_RETRANSMIT_TIMEOUT`. -/
abbrev retransmitTimeout : UInt32 := 3000

/-- `MAX_SYN_RETRIES`. -/
abbrev maxSynRetries : UInt8 := 5

/-- `DEFAULT_MSS`. -/
abbrev defaultMss : UInt16 := 1460

/-- `sizeof(conn->recv_buffer)`. -/
abbrev recvBufferSize : ℕ := 4096

/-- `flags & mask`, read as a truth value. -/
def hasFlag (flags mask : UInt8) : Bool := flags &&& mask != 0

/-! ### Data -/

/-- `retransmit_entry_t`. -/
structure RetransmitEntry where
  seq : UInt32
  length : UInt16
  data : List UInt8
  flags : UInt8
  retries : UInt8
deriving DecidableEq, Repr

/-- `tcp_connection_t`. The bytes of `recv_buffer` below `recv_buffer_len` are the list
`recvBuffer`. The queue is the list of its entries; `queueWild` says that the link after the
last one was never written. -/
structure TcpConnection where
  addr : ℕ
  localIp : UInt32
  remoteIp : UInt32
  localPort : UInt16
  remotePort : UInt16
  mss : UInt16
  nextSeq : UInt32
  expectedAck : UInt32
  dupAckCount : UInt8
  state : TcpState
  retransmitQueue : List RetransmitEntry
  queueWild : Bool
  recvBuffer : List UInt8
  lastAck : UInt32
deriving DecidableEq, Repr

/-- `tcp_timer_t`. -/
structure TcpTimer where
  conn : ℕ
  timeoutMs : UInt32
  startTime : UInt32
  retries : UInt8
deriving DecidableEq, Repr

/-- A segment handed to the IPv4 layer, in host byte order. Two fields are not on the wire:
the address of the control block it was sent for (0 for the one on the stack of
`tcp_send_reset`) and the bytes that waited in its receive buffer then. -/
structure TcpSegment where
  owner : ℕ
  buffered : ℕ
  srcIp : UInt32
  dstIp : UInt32
  srcPort : UInt16
  destPort : UInt16
  seq : UInt32
  ack : UInt32
  dataOffset : UInt8
  flags : UInt8
  window : UInt16
  options : List UInt8
  data : List UInt8
deriving DecidableEq, Repr

/-- The static variables of `tcp.c` and what the code sees of its surroundings: the clock,
the NIC's address, the contents of `/index.html` (if the volume has it), the outcomes of
coming allocations, the next fresh address, and the segments sent. -/
structure TcpStack where
  connectionList : List TcpConnection
  listenPorts : List UInt16
  activeTimers : List TcpTimer
  counter : UInt32
  ticks : UInt32
  nicIp : UInt32
  indexHtml : Option (List UInt8)
  mallocs : List Bool
  nextAddr : ℕ
  sent : List TcpSegment
deriving DecidableEq, Repr

/-- The part of `tcp_header_t` that the handlers read, in host byte order. -/
structure TcpHeader where
  srcPort : UInt16
  destPort : UInt16
  seq : UInt32
  ack : UInt32
  dataOffset : UInt8
  flags : UInt8
deriving DecidableEq, Repr

/-- What `malloc` returned to `tcp_connect`: the fields that it does not write. -/
structure StaleBlock where
  mss : UInt16
  dupAckCount : UInt8
  /-- `retransmit_queue` is not null. -/
  queueWild : Bool
  /-- The bytes below `recv_buffer_len`. -/
  recvBuffer : List UInt8
  lastAck : UInt32
  /-- `recv_buffer_len` has 16 bits. -/
  length_lt : recvBuffer.length < 2 ^ 16

/-- A block of zeros. -/
def StaleBlock.zero : StaleBlock where
  mss := 0
  dupAckCount := 0
  queueWild := false
  recvBuffer := []
  lastAck := 0
  length_lt := Nat.two_pow_pos 16

/-! ### Memory and time -/

namespace TcpStack

/-- The next outcome of `malloc`. -/
def malloc (s : TcpStack) : Bool × TcpStack :=
  (s.mallocs.headD true, { s with mallocs := s.mallocs.tail })

/-- Follow a pointer to a control block. -/
def deref (s : TcpStack) (addr : ℕ) : Except Fault TcpConnection :=
  (s.connectionList.find? fun c => c.addr == addr).elim (.error .useAfterFree) .ok

/-- Write a control block back. -/
def setConn (s : TcpStack) (c : TcpConnection) : TcpStack :=
  { s with connectionList := s.connectionList.map fun d => if d.addr = c.addr then c else d }

end TcpStack

/-- `recv_buffer_len`. -/
def TcpConnection.recvBufferLen (c : TcpConnection) : UInt16 := UInt16.ofNat c.recvBuffer.length

/-- `generate_secure_initial_seq`. -/
def generateSecureInitialSeq (s : TcpStack) : UInt32 × TcpStack :=
  ((s.ticks <<< 16) ||| (s.counter &&& 0xFFFF), { s with counter := s.counter + 1 })

/-- `find_connection`. -/
def findConnection (s : TcpStack) (remoteIp : UInt32) (remotePort : UInt16) (localIp : UInt32)
    (localPort : UInt16) : Option TcpConnection :=
  s.connectionList.find? fun c =>
    c.remoteIp == remoteIp && c.remotePort == remotePort && c.localIp == localIp &&
      c.localPort == localPort

/-- `add_connection`. -/
def addConnection (s : TcpStack) (c : TcpConnection) : TcpStack :=
  { s with connectionList := c :: s.connectionList }

/-- `cancel_retransmission_timer`: the first timer of the connection goes. -/
def cancelRetransmissionTimer (s : TcpStack) (conn : ℕ) : TcpStack :=
  { s with activeTimers := s.activeTimers.eraseP fun t => t.conn == conn }

/-- The rest of `remove_connection`: the queue is walked and freed, and the block is taken
off the list. -/
def freeConnection (s : TcpStack) (conn : TcpConnection) : Except Fault TcpStack :=
  if conn.queueWild then .error .wildPointer
  else .ok { s with connectionList := s.connectionList.filter fun c => c.addr != conn.addr }

def removeConnection (s : TcpStack) (conn : ℕ) : Except Fault TcpStack := do
  let c ← s.deref conn
  freeConnection (cancelRetransmissionTimer s conn) c

def tcpListen (s : TcpStack) (port : UInt16) : TcpStack :=
  match s.malloc with
  | (false, s) => s
  | (true, s) => { s with listenPorts := port :: s.listenPorts }

def isListeningPort (s : TcpStack) (port : UInt16) : Bool := s.listenPorts.contains port

/-- The loop of `process_tcp_options` with its pointer as an index into the segment. Each turn
takes at least one byte off `remaining`, which is the bound of the recursion. -/
def processTcpOptions (bytes : ℕ → UInt8) : ℕ → ℕ → ℕ → UInt16 → UInt16
  | 0, _, _, mss => mss
  | fuel + 1, ptr, remaining, mss =>
      if remaining = 0 then mss
      else
        let kind := bytes ptr
        let remaining := remaining - 1
        if kind = 0 then mss
        else if kind = 1 then processTcpOptions bytes fuel (ptr + 1) remaining mss
        else if remaining = 0 then mss
        else
          let length := (bytes (ptr + 1)).toNat
          let remaining := remaining - 1
          if length < 2 then mss
          else if kind = 2 ∧ length = 4 ∧ 2 ≤ remaining then
            let value := (bytes (ptr + 2)).toUInt16 <<< 8 ||| (bytes (ptr + 3)).toUInt16
            processTcpOptions bytes fuel (ptr + 4) (remaining - 2)
              (if value < defaultMss then value else defaultMss)
          else if remaining < length - 2 then mss
          else processTcpOptions bytes fuel (ptr + length) (remaining - (length - 2)) mss

def startRetransmissionTimer (s : TcpStack) (conn : ℕ) (timeoutMs : UInt32) : TcpStack :=
  match s.malloc with
  | (false, s) => s
  | (true, s) =>
      { s with
        activeTimers :=
          { conn := conn, timeoutMs := timeoutMs, startTime := s.ticks, retries := 0 } ::
            s.activeTimers }

/-! ### Sending -/

/-- The segment that `tcp_send_segment` builds. -/
def buildSegment (c : TcpConnection) (flags : UInt8) (data : List UInt8) : TcpSegment where
  owner := c.addr
  buffered := c.recvBuffer.length
  srcIp := c.localIp
  dstIp := c.remoteIp
  srcPort := c.localPort
  destPort := c.remotePort
  seq := c.nextSeq
  ack := c.expectedAck
  dataOffset := if hasFlag flags tcpSyn then 0x60 else 0x50
  flags := flags
  window := UInt16.ofNat recvBufferSize - c.recvBufferLen
  options := if hasFlag flags tcpSyn then [2, 4, 0x05, 0xB4] else []
  data := data

/-- The end of `tcp_send_segment`: a copy of the segment goes to the front of the queue, if
both allocations succeed. -/
def queueSegment (s : TcpStack) (c : TcpConnection) (seq : UInt32) (flags : UInt8)
    (data : List UInt8) (dataLen : UInt16) : TcpStack × TcpConnection :=
  let entry : RetransmitEntry :=
    { seq := seq, length := dataLen, data := data, flags := flags, retries := 0 }
  match s.malloc with
  | (false, s) => (s, c)
  | (true, s) =>
      if dataLen = 0 then (s, { c with retransmitQueue := entry :: c.retransmitQueue })
      else
        match s.malloc with
        | (false, s) => (s, c)
        | (true, s) => (s, { c with retransmitQueue := entry :: c.retransmitQueue })

/-- `tcp_send_segment`, on a control block that the caller holds. -/
def tcpSendSegment (s : TcpStack) (c : TcpConnection) (flags : UInt8) (data : List UInt8)
    (dataLen : UInt16) : TcpStack × TcpConnection :=
  let data := data.take dataLen.toNat
  let seq := c.nextSeq
  let s := { s with sent := s.sent ++ [buildSegment c flags data] }
  let c := { c with nextSeq := c.nextSeq + dataLen.toUInt32 }
  let c := if hasFlag flags (tcpSyn ||| tcpFin) then { c with nextSeq := c.nextSeq + 1 } else c
  if flags = tcpAck ∧ dataLen = 0 then (s, c)
  else if hasFlag flags (tcpSyn ||| tcpFin) ∨ 0 < dataLen then
    queueSegment s c seq flags data dataLen
  else (s, c)

/-- The control block on the stack of `tcp_send_reset`. -/
def resetBlock (srcIp dstIp : UInt32) (tcp : TcpHeader) : TcpConnection where
  addr := 0
  localIp := dstIp
  remoteIp := srcIp
  localPort := tcp.destPort
  remotePort := tcp.srcPort
  mss := 0
  nextSeq := tcp.ack
  expectedAck := 0
  dupAckCount := 0
  state := .closed
  retransmitQueue := []
  queueWild := false
  recvBuffer := []
  lastAck := 0

def tcpSendReset (s : TcpStack) (srcIp dstIp : UInt32) (tcp : TcpHeader) : TcpStack :=
  (tcpSendSegment s (resetBlock srcIp dstIp tcp) tcpRst [] 0).1

/-! ### Timers -/

/-- What `check_tcp_timers` does about an expired timer short of giving up; `none` when the
retries are used up. In `TCP_WAIT_FOR_ACK` the entry's counter is raised here before the
segment is sent; sending reads only its data. -/
def retransmitOnTimer (s : TcpStack) (timer : TcpTimer) (conn : TcpConnection) :
    Except Fault (Option (TcpStack × TcpTimer)) :=
  if conn.state = .waitForAck then
    match conn.retransmitQueue with
    | [] => if conn.queueWild then .error .wildPointer else .ok none
    | entry :: rest =>
        if entry.retries < maxSynRetries then
          let conn :=
            { conn with retransmitQueue := { entry with retries := entry.retries + 1 } :: rest }
          let (s, conn) := tcpSendSegment s conn tcpAck entry.data entry.length
          .ok (some (s.setConn conn, { timer with startTime := s.ticks }))
        else .ok none
  else if timer.retries < maxSynRetries then
    let (s, conn) :=
      tcpSendSegment s conn (if conn.state = .synSent then tcpSyn else tcpFin) [] 0
    .ok (some (s.setConn conn,
      { timer with retries := timer.retries + 1, startTime := s.ticks }))
  else .ok none

/-- The loop of `check_tcp_timers`: `kept` are the timers before `pp`. On giving up,
`remove_connection` takes the first timer of the connection off the list. If that is the one
at `pp`, the lines after the call take off the *next* one as well. If it is the one that
holds `pp`, they write into freed memory. -/
def checkTimersLoop : List TcpTimer → List TcpTimer → TcpStack → Except Fault TcpStack
  | kept, [], s => .ok { s with activeTimers := kept }
  | kept, timer :: rest, s => do
      let conn ← s.deref timer.conn
      if s.ticks - timer.startTime < timer.timeoutMs then
        checkTimersLoop (kept ++ [timer]) rest s
      else
        match ← retransmitOnTimer s timer conn with
        | some (s, timer) => checkTimersLoop (kept ++ [timer]) rest s
        | none =>
            let s ← freeConnection s conn
            match kept.findIdx? fun t => t.conn == conn.addr with
            | some i =>
                if i + 1 = kept.length then .error .useAfterFree
                else checkTimersLoop (kept.eraseIdx i) rest s
            | none =>
                match rest with
                | [] => .error .nullDereference
                | _ :: rest => checkTimersLoop kept rest s

def checkTcpTimers (s : TcpStack) : Except Fault TcpStack :=
  checkTimersLoop [] s.activeTimers s

/-! ### The HTTP server -/

/-- The bytes of a C string. -/
def asciiBytes (text : String) : List UInt8 := text.toList.map fun ch => UInt8.ofNat ch.toNat

/-- The header block that `snprintf` renders. -/
def httpHeaders (size : UInt32) : List UInt8 :=
  asciiBytes "HTTP/1.1 200 OK\r\nContent-Type: text/html\r\nContent-Length: " ++
    (Nat.toDigits 10 size.toNat).map (fun ch => UInt8.ofNat ch.toNat) ++
    asciiBytes "\r\nConnection: close\r\n\r\n"

/-- The response when `/index.html` is not found. -/
def httpNotFound : List UInt8 := asciiBytes "HTTP/1.1 404 Not Found\r\n..."

/-- `file.size` after the trailing newline has been trimmed. -/
def httpBodySize (file : List UInt8) : UInt32 :=
  if 0 < UInt32.ofNat file.length ∧ file.getLast? = some 0x0A then UInt32.ofNat file.length - 1
  else UInt32.ofNat file.length

def handleHttpRequest (s : TcpStack) (c : TcpConnection) : TcpStack × TcpConnection :=
  match s.indexHtml with
  | none =>
      let (s, c) := tcpSendSegment s c (tcpPsh ||| tcpAck) httpNotFound
        (UInt16.ofNat httpNotFound.length)
      (s, { c with state := .closeWait })
  | some file =>
      match s.malloc with
      | (false, s) => (s, { c with state := .closeWait })
      | (true, s) =>
          let size := httpBodySize file
          let headers := httpHeaders size
          let (s, c) := tcpSendSegment s c (tcpPsh ||| tcpAck) headers
            (UInt16.ofNat headers.length)
          -- the 32-bit size is passed as a 16-bit length
          let (s, c) := tcpSendSegment s c (tcpPsh ||| tcpAck) file size.toUInt16
          (startRetransmissionTimer s c.addr retransmitTimeout, { c with state := .waitForAck })

/-! ### The segment handlers -/

/-- The start of the segment's data, in bytes: `(data_offset >> 4) * 4`. -/
def TcpHeader.headerLen (tcp : TcpHeader) : UInt16 := (tcp.dataOffset >>> 4).toUInt16 * 4

/-- The `len` bytes at index `start`. -/
def bytesAt (bytes : ℕ → UInt8) (start len : ℕ) : List UInt8 :=
  (List.range len).map fun i => bytes (start + i)

/-- `is_http_get_request`. -/
def isHttpGetRequest (payload : List UInt8) : Bool :=
  payload.take 4 == [0x47, 0x45, 0x54, 0x20]

/-- The first lines of `handle_established_state`, for a connection that the timer check left
in `TCP_SYN_SENT` or `TCP_CLOSE_WAIT`. -/
def reestablish (c : TcpConnection) (seq ack : UInt32) : TcpConnection :=
  if c.state = .synSent ∨ c.state = .closeWait then
    { c with
      state := .established
      nextSeq := seq + 1
      expectedAck := ack + 1
      dupAckCount := 0 }
  else c

/-- Fast retransmission in `handle_established_state`: the entry at the front of the queue is
sent again. -/
def repeatFront (s : TcpStack) (c : TcpConnection) : Except Fault (TcpStack × TcpConnection) :=
  match c.retransmitQueue with
  | [] => if c.queueWild then .error .wildPointer else .ok (s, c)
  | entry :: _ => .ok (tcpSendSegment s c tcpAck entry.data entry.length)

/-- Duplicate acknowledgements in `handle_established_state`. -/
def fastRetransmit (s : TcpStack) (c : TcpConnection) (ack : UInt32) :
    Except Fault (TcpStack × TcpConnection) :=
  if ack = c.lastAck then
    let c := { c with dupAckCount := c.dupAckCount + 1 }
    if c.dupAckCount = 3 then repeatFront s c else .ok (s, c)
  else .ok (s, c)

/-- The walk over the queue in `handle_established_state`. -/
def dropAcknowledged (c : TcpConnection) (ack : UInt32) : Except Fault TcpConnection :=
  if c.queueWild then .error .wildPointer
  else
    .ok { c with
      retransmitQueue := c.retransmitQueue.filter fun e => !(e.seq + e.length.toUInt32 ≤ ack) }

/-- The sequence numbers and the queue in `handle_established_state`. -/
def processAck (c : TcpConnection) (seq ack : UInt32) (dataLen : UInt16) :
    Except Fault TcpConnection :=
  let c := { c with expectedAck := seq + dataLen.toUInt32 }
  let c := if c.nextSeq < ack then { c with nextSeq := ack } else c
  dropAcknowledged c ack

/-- The payload in `handle_established_state`. -/
def receiveData (s : TcpStack) (c : TcpConnection) (seq : UInt32) (payload : List UInt8)
    (dataLen : UInt16) : Except Fault (TcpStack × TcpConnection) :=
  if dataLen = 0 then .ok (s, c)
  else
    let c := { c with expectedAck := seq + dataLen.toUInt32 }
    if isHttpGetRequest payload then
      let (s, c) := handleHttpRequest s c
      .ok (s, { c with state := .waitForAck })
    else if recvBufferSize < c.recvBuffer.length + payload.length then .error .bufferOverrun
    else
      let c := { c with recvBuffer := c.recvBuffer ++ payload }
      .ok (tcpSendSegment s c tcpAck [] 0)

/-- The end of `handle_established_state`. -/
def handleFin (s : TcpStack) (c : TcpConnection) (flags : UInt8) : TcpStack × TcpConnection :=
  if hasFlag flags tcpFin then
    let c := { c with expectedAck := c.expectedAck + 1, state := .closeWait }
    let (s, c) := tcpSendSegment s c tcpAck [] 0
    let (s, c) := tcpSendSegment s c (tcpFin ||| tcpAck) [] 0
    (s, { c with state := .lastAck })
  else (s, c)

def handleEstablishedState (s : TcpStack) (conn : ℕ) (tcp : TcpHeader) (bytes : ℕ → UInt8)
    (len : UInt16) : Except Fault TcpStack := do
  let dataLen := len - tcp.headerLen
  let s ← checkTcpTimers s
  let c ← s.deref conn
  let c := reestablish c tcp.seq tcp.ack
  let (s, c) ← fastRetransmit s c tcp.ack
  let c ← processAck c tcp.seq tcp.ack dataLen
  let (s, c) := if tcp.seq ≠ c.expectedAck then tcpSendSegment s c tcpAck [] 0 else (s, c)
  let payload := bytesAt bytes tcp.headerLen.toNat dataLen.toNat
  let (s, c) ← receiveData s c tcp.seq payload dataLen
  let (s, c) := handleFin s c tcp.flags
  .ok (s.setConn c)

/-- The acknowledgement that covers an entry, its control flags included. -/
def RetransmitEntry.expectedAck (entry : RetransmitEntry) : UInt32 :=
  entry.seq + entry.length.toUInt32 +
    if hasFlag entry.flags (tcpSyn ||| tcpFin) then 1 else 0

def handleWaitForAckState (s : TcpStack) (conn : ℕ) (tcp : TcpHeader) :
    Except Fault TcpStack := do
  let c ← s.deref conn
  match c.retransmitQueue with
  | [] => if c.queueWild then .error .wildPointer else .ok s
  | entry :: rest =>
      if entry.expectedAck ≤ tcp.ack then
        let c := { c with retransmitQueue := rest }
        let s := s.setConn c
        if rest = [] ∧ c.queueWild = false then removeConnection s conn else .ok s
      else if c.lastAck < tcp.ack then
        let entry := { entry with retries := 0 }
        .ok (s.setConn { c with lastAck := tcp.ack, retransmitQueue := entry :: rest })
      else
        let c := { c with dupAckCount := c.dupAckCount + 1 }
        if 3 ≤ c.dupAckCount then
          let (s, c) := tcpSendSegment s c entry.flags entry.data entry.length
          .ok (s.setConn { c with dupAckCount := 0 })
        else .ok (s.setConn c)

def handleLastAckState (s : TcpStack) (conn : ℕ) (tcp : TcpHeader) : Except Fault TcpStack := do
  let c ← s.deref conn
  if hasFlag tcp.flags tcpAck ∧ tcp.ack = c.nextSeq then removeConnection s conn else .ok s

/-- The case `TCP_SYN_SENT` of `tcp_handle_packet`. -/
def handleSynSent (s : TcpStack) (c : TcpConnection) (tcp : TcpHeader) : TcpStack :=
  if tcp.flags &&& (tcpSyn ||| tcpAck) = tcpSyn ||| tcpAck ∧ tcp.ack = c.nextSeq then
    let c := { c with expectedAck := tcp.seq + 1, state := .established }
    let (s, c) := tcpSendSegment s c tcpAck [] 0
    cancelRetransmissionTimer (s.setConn c) c.addr
  else s

/-- The case `TCP_SYN_RECEIVED` of `tcp_handle_packet`. -/
def handleSynReceived (s : TcpStack) (c : TcpConnection) (tcp : TcpHeader) : TcpStack :=
  if hasFlag tcp.flags tcpAck ∧ tcp.ack = c.nextSeq then
    cancelRetransmissionTimer (s.setConn { c with state := .established }) c.addr
  else s

/-- The control block of a passive open. -/
def passiveBlock (addr : ℕ) (srcIp dstIp : UInt32) (tcp : TcpHeader) (bytes : ℕ → UInt8)
    (seq : UInt32) : TcpConnection where
  addr := addr
  localIp := dstIp
  remoteIp := srcIp
  localPort := tcp.destPort
  remotePort := tcp.srcPort
  mss := processTcpOptions bytes (tcp.headerLen.toNat - 20) 20 (tcp.headerLen.toNat - 20) defaultMss
  nextSeq := seq
  expectedAck := tcp.seq + 1
  dupAckCount := 0
  state := .synReceived
  retransmitQueue := []
  queueWild := false
  recvBuffer := []
  lastAck := 0

/-- A passive open: the lines of `tcp_handle_packet` for a SYN to a listening port. -/
def passiveOpen (s : TcpStack) (srcIp dstIp : UInt32) (tcp : TcpHeader) (bytes : ℕ → UInt8) :
    TcpStack :=
  match s.malloc with
  | (false, s) => s
  | (true, s) =>
      let (seq, s) := generateSecureInitialSeq s
      let c := passiveBlock s.nextAddr srcIp dstIp tcp bytes seq
      let s := addConnection { s with nextAddr := s.nextAddr + 1 } c
      let (s, c) := tcpSendSegment s c (tcpSyn ||| tcpAck) [] 0
      startRetransmissionTimer (s.setConn c) c.addr retransmitTimeout

/-- Big-endian reads. -/
def be16 (bytes : ℕ → UInt8) (i : ℕ) : UInt16 :=
  (bytes i).toUInt16 <<< 8 ||| (bytes (i + 1)).toUInt16

def be32 (bytes : ℕ → UInt8) (i : ℕ) : UInt32 :=
  (be16 bytes i).toUInt32 <<< 16 ||| (be16 bytes (i + 2)).toUInt32

/-- The header at the start of `bytes`. -/
def TcpHeader.parse (bytes : ℕ → UInt8) : TcpHeader where
  srcPort := be16 bytes 0
  destPort := be16 bytes 2
  seq := be32 bytes 4
  ack := be32 bytes 8
  dataOffset := bytes 12
  flags := bytes 13

/-- The `switch` of `tcp_handle_packet`. -/
def handleInState (s : TcpStack) (c : TcpConnection) (tcp : TcpHeader) (bytes : ℕ → UInt8)
    (len : UInt16) : Except Fault TcpStack :=
  match c.state with
  | .synSent => .ok (handleSynSent s c tcp)
  | .synReceived => .ok (handleSynReceived s c tcp)
  | .established => handleEstablishedState s c.addr tcp bytes len
  | .waitForAck => handleWaitForAckState s c.addr tcp
  | .lastAck => handleLastAckState s c.addr tcp
  | _ => .ok s

/-- `tcp_handle_packet` after the header has been read. -/
def handleSegment (s : TcpStack) (srcIp dstIp : UInt32) (tcp : TcpHeader) (bytes : ℕ → UInt8)
    (len : UInt16) : Except Fault TcpStack :=
  if tcp.dataOffset >>> 4 < 5 then .ok (tcpSendReset s srcIp dstIp tcp)
  else
    match findConnection s srcIp tcp.srcPort dstIp tcp.destPort with
    | none =>
        if hasFlag tcp.flags tcpRst then .ok s
        else if hasFlag tcp.flags tcpSyn ∧ isListeningPort s tcp.destPort = true then
          .ok (passiveOpen s srcIp dstIp tcp bytes)
        else .ok (tcpSendReset s srcIp dstIp tcp)
    | some c =>
        if hasFlag tcp.flags tcpRst then removeConnection s c.addr
        else handleInState s c tcp bytes len

/-- `tcp_handle_packet`, on the memory from the TCP header on. -/
def tcpHandlePacket (s : TcpStack) (srcIp dstIp : UInt32) (bytes : ℕ → UInt8) (len : UInt16) :
    Except Fault TcpStack :=
  handleSegment s srcIp dstIp (TcpHeader.parse bytes) bytes len

/-- The control block of an active open: what `tcp_connect` does not write is stale. -/
def activeBlock (addr : ℕ) (nicIp : UInt32) (stale : StaleBlock) (remoteIp : UInt32)
    (remotePort : UInt16) (port seq : UInt32) : TcpConnection where
  addr := addr
  localIp := nicIp
  remoteIp := remoteIp
  localPort := 50000 + (port % 15536).toUInt16
  remotePort := remotePort
  mss := stale.mss
  nextSeq := seq
  expectedAck := 0
  dupAckCount := stale.dupAckCount
  state := .synSent
  retransmitQueue := []
  queueWild := stale.queueWild
  recvBuffer := stale.recvBuffer
  lastAck := stale.lastAck

def tcpConnect (s : TcpStack) (stale : StaleBlock) (remoteIp : UInt32) (remotePort : UInt16) :
    TcpStack :=
  match s.malloc with
  | (false, s) => s
  | (true, s) =>
      let (port, s) := generateSecureInitialSeq s
      let (seq, s) := generateSecureInitialSeq s
      let c := activeBlock s.nextAddr s.nicIp stale remoteIp remotePort port seq
      let (s, c) := tcpSendSegment { s with nextAddr := s.nextAddr + 1 } c tcpSyn [] 0
      addConnection s c

/-! ### Calls and runs -/

/-- What can happen to the stack: an incoming segment, the public calls of `tcp.h`, a drain of
the receive buffer by `telnet_command`, and time passing. -/
inductive TcpEvent
  | segment (srcIp dstIp : UInt32) (bytes : ℕ → UInt8) (len : UInt16)
  | connect (stale : StaleBlock) (remoteIp : UInt32) (remotePort : UInt16)
  | listen (port : UInt16)
  | send (conn : ℕ) (flags : UInt8) (data : List UInt8) (dataLen : UInt16)
  | remove (conn : ℕ)
  | checkTimers
  | drain (conn : ℕ)
  | tick (ticks : UInt32)

/-- `tcp_send_segment` on a connection of the list. -/
def sendOn (s : TcpStack) (conn : ℕ) (flags : UInt8) (data : List UInt8) (dataLen : UInt16) :
    Except Fault TcpStack := do
  let c ← s.deref conn
  let (s, c) := tcpSendSegment s c flags data dataLen
  .ok (s.setConn c)

/-- `telnet_command` empties the receive buffer. -/
def drainOn (s : TcpStack) (conn : ℕ) : Except Fault TcpStack := do
  let c ← s.deref conn
  .ok (s.setConn { c with recvBuffer := [] })

/-- The state after an event. -/
def TcpEvent.next (s : TcpStack) : TcpEvent → Except Fault TcpStack
  | segment srcIp dstIp bytes len => tcpHandlePacket s srcIp dstIp bytes len
  | connect stale remoteIp remotePort => .ok (tcpConnect s stale remoteIp remotePort)
  | listen port => .ok (tcpListen s port)
  | send conn flags data dataLen => sendOn s conn flags data dataLen
  | remove conn => removeConnection s conn
  | checkTimers => checkTcpTimers s
  | drain conn => drainOn s conn
  | tick ticks => .ok { s with ticks := ticks }

/-- The stack before the first event, with the surroundings free. -/
def TcpStack.boot (ticks nicIp : UInt32) (indexHtml : Option (List UInt8))
    (mallocs : List Bool) : TcpStack where
  connectionList := []
  listenPorts := []
  activeTimers := []
  counter := 0
  ticks := ticks
  nicIp := nicIp
  indexHtml := indexHtml
  mallocs := mallocs
  nextAddr := 1
  sent := []

end HalOS
