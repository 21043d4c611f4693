import HalOS.Net.TcpReceived

/-!
# The Telnet Client

`telnet_command` of `shell/shell.c`, one statement a step, from the return of `tcp_connect` on.
Between two statements the NIC may interrupt, which handles a segment from its arrival to the end
of `tcp_handle_packet`, and the clock may advance. The key that `kbhit` and `kb_getchar` report is
an input.

A session keeps three logs that the code does not have: what `telnet_filter` was given, what
`handle_established_state` appended to the buffer of the connection, and the connections that were
taken off the list. Parsing the arguments and writing to the console touch no connection and are
left out, and so is what `telnet_filter` makes of the bytes.
-/

namespace HalOS

abbrev telnetIac : UInt8 := 0xFF
abbrev telnetWill : UInt8 := 0xFB
abbrev teloptSga : UInt8 := 0x03

/-- The statement of `telnet_command` that is executed next. -/
inductive TelnetPc
  /-- `start = get_ticks()` -/
  | readClock
  /-- the condition of the first loop -/
  | waitTest
  /-- `check_tcp_timers()` in the first loop -/
  | waitTimers
  /-- `if (conn->state != TCP_ESTABLISHED)` -/
  | connectedTest
  /-- `remove_connection(conn)` after the time-out -/
  | timedOut
  /-- `tcp_send_segment(conn, TCP_PSH | TCP_ACK, will_sga, 3)` -/
  | negotiate
  /-- `while (conn->state == TCP_ESTABLISHED)` -/
  | loopTest
  /-- `check_tcp_timers()` in the second loop -/
  | loopTimers
  /-- `if (conn->recv_buffer_len > 0)` -/
  | drainTest
  /-- the call of `telnet_filter` -/
  | filter
  /-- `conn->recv_buffer_len = 0` -/
  | drainReset
  /-- `kbhit()` and `kb_getchar()` -/
  | keyTest
  /-- the `tcp_send_segment` for a key -/
  | sendKey (key : UInt8)
  /-- the test of the state at the end of the loop -/
  | closedTest
  /-- `remove_connection(conn)` behind the loop -/
  | finish
  | done
deriving DecidableEq, Repr

/-- The statement goes through `conn`. -/
def TelnetPc.usesConn : TelnetPc → Bool
  | readClock | waitTimers | loopTimers | keyTest | done => false
  | _ => true

/-- The statement is `remove_connection(conn)`. -/
def TelnetPc.removesConn : TelnetPc → Bool
  | timedOut | finish => true
  | _ => false

/-- The statement is `check_tcp_timers()`. -/
def TelnetPc.checksTimers : TelnetPc → Bool
  | waitTimers | loopTimers => true
  | _ => false

/-- A session: the stack, the local variables of `telnet_command`, and the logs. -/
structure TelnetSession where
  stack : TcpStack
  conn : ℕ
  start : UInt32
  pc : TelnetPc
  handed : List UInt8
  appended : List UInt8
  removed : List ℕ
deriving DecidableEq, Repr

/-- The connections that are on the list of `s` and not on that of `s'`. -/
def takenOff (s s' : TcpStack) : List ℕ :=
  (s.connectionList.map (·.addr)).filter fun a => a ∉ s'.connectionList.map (·.addr)

/-- What is sent for a key. -/
def keyBytes (key : UInt8) : List UInt8 :=
  if key = 0x0D ∨ key = 0x0A then [0x0D, 0x0A]
  else if key = telnetIac then [telnetIac, telnetIac]
  else [key]

/-- Where a key leads: Ctrl-C leaves the loop. -/
def afterKey : Option UInt8 → TelnetPc
  | none => .closedTest
  | some key => if key = 0x03 then .finish else .sendKey key

namespace TelnetSession

/-- The session when `tcp_connect` has returned; a null pointer ends the command. -/
def begin (s : TcpStack) (stale : StaleBlock) (remoteIp : UInt32) (port : UInt16) :
    TelnetSession where
  stack := tcpConnect s stale remoteIp port
  conn := if s.malloc.1 then s.nextAddr else 0
  start := 0
  pc := if s.malloc.1 then .readClock else .done
  handed := []
  appended := []
  removed := []

/-- The stack has become `s`, and the statement at `pc` comes next. -/
def goto (t : TelnetSession) (s : TcpStack) (pc : TelnetPc) : TelnetSession :=
  { t with stack := s, pc := pc, removed := t.removed ++ takenOff t.stack s }

/-- The next statement. `key` is what the keyboard reports if it is asked. -/
def statement (t : TelnetSession) (key : Option UInt8) : Except Fault TelnetSession :=
  match t.pc with
  | .readClock => .ok { t with start := t.stack.ticks, pc := .waitTest }
  | .waitTest => do
      let c ← t.stack.deref t.conn
      .ok { t with
        pc :=
          if c.state ≠ .established ∧ t.stack.ticks - t.start < 500 then .waitTimers
          else .connectedTest }
  | .waitTimers => do
      let s ← checkTcpTimers t.stack
      .ok (t.goto s .waitTest)
  | .connectedTest => do
      let c ← t.stack.deref t.conn
      .ok { t with pc := if c.state ≠ .established then .timedOut else .negotiate }
  | .timedOut => do
      let s ← removeConnection t.stack t.conn
      .ok (t.goto s .done)
  | .negotiate => do
      let s ← sendOn t.stack t.conn (tcpPsh ||| tcpAck) [telnetIac, telnetWill, teloptSga] 3
      .ok (t.goto s .loopTest)
  | .loopTest => do
      let c ← t.stack.deref t.conn
      .ok { t with pc := if c.state = .established then .loopTimers else .finish }
  | .loopTimers => do
      let s ← checkTcpTimers t.stack
      .ok (t.goto s .drainTest)
  | .drainTest => do
      let c ← t.stack.deref t.conn
      .ok { t with pc := if 0 < c.recvBuffer.length then .filter else .keyTest }
  | .filter => do
      let c ← t.stack.deref t.conn
      .ok { t with handed := t.handed ++ c.recvBuffer, pc := .drainReset }
  | .drainReset => do
      let s ← drainOn t.stack t.conn
      .ok (t.goto s .keyTest)
  | .keyTest => .ok { t with pc := afterKey key }
  | .sendKey key => do
      let s ← sendOn t.stack t.conn (tcpPsh ||| tcpAck) (keyBytes key)
        (UInt16.ofNat (keyBytes key).length)
      .ok (t.goto s .closedTest)
  | .closedTest => do
      let c ← t.stack.deref t.conn
      .ok { t with
        pc :=
          if c.state = .closeWait ∨ c.state = .lastAck ∨ c.state = .closed then .finish
          else .loopTest }
  | .finish => do
      let s ← removeConnection t.stack t.conn
      .ok (t.goto s .done)
  | .done => .ok t

end TelnetSession

/-- What happens next: the shell goes on, a segment comes in, or the clock advances. -/
inductive TelnetInput
  | statement (key : Option UInt8)
  | segment (srcIp dstIp : UInt32) (bytes : ℕ → UInt8) (len : UInt16)
  | tick (ticks : UInt32)

/-- The session after it. -/
def TelnetSession.step (t : TelnetSession) : TelnetInput → Except Fault TelnetSession
  | .statement key => t.statement key
  | .segment srcIp dstIp bytes len => do
      let s ← tcpHandlePacket t.stack srcIp dstIp bytes len
      .ok { t.goto s t.pc with
        appended := t.appended ++
          appendedPayload t.stack t.conn srcIp dstIp (.parse bytes) bytes len }
  | .tick ticks => .ok { t with stack := { t.stack with ticks := ticks } }

/-! ### What a step does to the stack -/

/-- A statement leaves the stack alone or makes one of the calls of `tcp.h`. -/
def TelnetSession.event (t : TelnetSession) : TelnetInput → Option TcpEvent
  | .statement _ =>
      match t.pc with
      | .waitTimers | .loopTimers => some .checkTimers
      | .timedOut | .finish => some (.remove t.conn)
      | .negotiate =>
          some (.send t.conn (tcpPsh ||| tcpAck) [telnetIac, telnetWill, teloptSga] 3)
      | .sendKey key =>
          some (.send t.conn (tcpPsh ||| tcpAck) (keyBytes key)
            (UInt16.ofNat (keyBytes key).length))
      | .drainReset => some (.drain t.conn)
      | _ => none
  | .segment srcIp dstIp bytes len => some (.segment srcIp dstIp bytes len)
  | .tick ticks => some (.tick ticks)

/-! ### A server -/

/-- A segment from the Telnet port of the machine at 10.0.2.2 to the first port that the one at
10.0.2.15 takes for itself. -/
def serverSegment (seq ack : UInt32) (flags : UInt8) (data : List UInt8) : TelnetInput :=
  let seg := { peerSegment seq ack flags data with srcPort := 23, destPort := 50000 }
  .segment seg.srcIp seg.dstIp seg.bytes seg.len

/-- The session with this server, on a machine that has just started. -/
def firstSession : TelnetSession :=
  .begin (.boot 0 0x0A00020F none []) .zero 0x0A000202 23

/-- The server accepts, and the command comes to the second loop. -/
def connected : List TelnetInput :=
  .statement none :: serverSegment 100 2 (tcpSyn ||| tcpAck) [] ::
    List.replicate 5 (.statement none)

/-- The server sends one byte, and Ctrl-C ends the session. -/
def byteReceived : List TelnetInput :=
  connected ++ serverSegment 101 5 tcpAck [0x41] :: List.replicate 3 (.statement none) ++
    [.statement (some 0x03)]

end HalOS
