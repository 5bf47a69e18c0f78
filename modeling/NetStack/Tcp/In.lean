import NetStack.Tcp.Congestion
import NetStack.Tcp.Recv

/-! The TCP state machine (`tcp_process` in `tcp_in.c`, `tcp_sock_close` in `tcp_sock.c`).

A call works on one socket. What it does beyond it, to the host's tables, to the parent's
queues and on the wire, is returned with the socket as its outcome. -/
namespace NetStack.Tcp

/-- What a call leaves behind: the socket, the packets it sent, a child socket to enter
in the tables, whether the socket joins its parent's accept queue, whether it leaves the
lookup table, and what the application read during the call. -/
structure Outcome where
  tsk : TcpSock
  sent : List Packet
  child : Option TcpSock
  acceptEnqueue : Bool
  unhash : Bool
  taken : List U8

namespace TcpSock

/-- The socket and what it sent, nothing else. -/
def only (result : TcpSock × List Packet) : Outcome := ⟨result.1, result.2, none, false, false, []⟩

/-- The socket after one control packet, and that packet. -/
def control (tsk : TcpSock) (flags : U8) : TcpSock × List Packet :=
  ((tsk.sendControlPacket flags).1, [(tsk.sendControlPacket flags).2])

/-- `tcp_sock_accept_queue_full`. -/
def acceptQueueFull (tsk : TcpSock) : Bool := tsk.acceptBacklog ≥ tsk.backlog

/-- `is_tcp_seq_valid`. -/
def isTcpSeqValid (tsk : TcpSock) (cb : TcpCb) : Bool :=
  let rcvEnd := tsk.rcvNxt + if tsk.rcvWnd = 0 then 1 else tsk.rcvWnd.setWidth 32
  lessThan32b cb.seq rcvEnd && lessOrEqual32b tsk.rcvNxt cb.seqEnd

/-- `alloc_child_tcp_sock`, less its entry in the tables: a copy of the listener, which
is socket `self`, with the connection's own fields. -/
def allocChildTcpSock (tsk : TcpSock) (self : Nat) (iss : U32) (cb : TcpCb) : TcpSock :=
  { tsk with
    parent := some self
    skSip := cb.daddr
    skSport := cb.dport
    skDip := cb.saddr
    skDport := cb.sport
    iss
    sndNxt := iss
    rcvNxt := cb.seq + 1
    sendBuf := []
    rcvOfoBuf := [] }

/-- `tcp_sock_close`. -/
def sockClose (tsk : TcpSock) : Outcome :=
  match tsk.state with
  | .closeWait =>
    let (tsk, sent) := tsk.setRetransTimer.control (tcpFin ||| tcpAck)
    only ({ tsk with state := .lastAck }, sent)
  | .established =>
    only ((setRetransTimer { tsk with state := .finWait1 }).control (tcpFin ||| tcpAck))
  | .closed => only (tsk, [])
  | _ => { only ({ tsk with state := .closed }, []) with unhash := true }

/-- The `TCP_LISTEN` branch. The socket itself leaves the state `TCP_LISTEN`. -/
def processListen (self : Nat) (iss : U32) (tsk : TcpSock) (cb : TcpCb) : Outcome :=
  if hasFlag cb.flags tcpSyn then
    let tsk := { tsk with state := .synRecv }
    let (child, sent) := (tsk.allocChildTcpSock self iss cb).setRetransTimer.control (tcpAck ||| tcpSyn)
    { only (tsk, sent) with child := some child }
  else only (tsk, [])

/-- The `TCP_SYN_SENT` branch. -/
def processSynSent (tsk : TcpSock) (cb : TcpCb) : Outcome :=
  if cb.flags &&& (tcpSyn ||| tcpAck) = tcpSyn ||| tcpAck then
    let tsk := { tsk with rcvNxt := cb.seq + 1, sndUna := cb.ack }
    let tsk := (tsk.deleteSendBufferEntry cb.ack).2
    only (control { tsk with state := .established } tcpAck)
  else only (tsk, [])

/-- The `TCP_SYN_RECV` branch; a socket without a parent would follow a null pointer. -/
def processSynRecv (parent : Option TcpSock) (tsk : TcpSock) (cb : TcpCb) : Option Outcome :=
  if hasFlag cb.flags tcpAck then
    match parent with
    | none => none
    | some parent =>
      if parent.acceptQueueFull || !tsk.isTcpSeqValid cb then some (only (tsk, []))
      else
        let tsk := { tsk with rcvNxt := cb.seq, sndUna := cb.ack }
        some { only ((tsk.deleteSendBufferEntry cb.ack).2, []) with acceptEnqueue := true }
  else some (only (tsk, []))

/-- A bare acknowledgement in state `TCP_ESTABLISHED`. -/
def processPureAck (tsk : TcpSock) (cb : TcpCb) : TcpSock × List Packet :=
  let tsk := { tsk with rcvNxt := cb.seq, sndUna := cb.ack }
  (tsk.updateWindowSafe cb).updateRetransTimer.newRenoProcess cb

/-- A segment with data in state `TCP_ESTABLISHED`. -/
def processData (tsk : TcpSock) (sleeps : List (List Nat)) (cb : TcpCb) : Option Outcome :=
  match Rx.handleRecvData ⟨tsk, sleeps, [], []⟩ cb with
  | none => none
  | some rx => some { only (rx.tsk, rx.sent) with taken := rx.taken }

/-- The `TCP_ESTABLISHED` branch. -/
def processEstablished (sleeps : List (List Nat)) (tsk : TcpSock) (cb : TcpCb) : Option Outcome :=
  if hasFlag cb.flags tcpFin then
    if tsk.isTcpSeqValid cb then
      some (only (control { tsk with state := .closeWait, rcvNxt := cb.seq + 1 } tcpAck))
    else some (only (tsk, []))
  else if hasFlag cb.flags tcpAck then
    if cb.payload.length = 0 then some (only (tsk.processPureAck cb))
    else tsk.processData sleeps cb
  else some (only (tsk, []))

/-- The `TCP_LAST_ACK` branch. -/
def processLastAck (tsk : TcpSock) (cb : TcpCb) : Outcome :=
  if hasFlag cb.flags tcpAck && tsk.isTcpSeqValid cb then
    let tsk := (tsk.deleteSendBufferEntry cb.ack).2
    { only ({ tsk with state := .closed }, []) with unhash := true }
  else only (tsk, [])

/-- The `TCP_FIN_WAIT_2` branch. -/
def processFinWait2 (now : Int) (tsk : TcpSock) (cb : TcpCb) : Outcome :=
  if hasFlag cb.flags tcpFin then
    let (tsk, sent) := control { tsk with rcvNxt := cb.seq + 1 } tcpAck
    only (setTimewaitTimer now { tsk with state := .timeWait }, sent)
  else only (tsk, [])

/-- The `TCP_FIN_WAIT_1` branch, which runs on into that of `TCP_FIN_WAIT_2`. -/
def processFinWait1 (now : Int) (tsk : TcpSock) (cb : TcpCb) : Outcome :=
  if hasFlag cb.flags tcpAck && tsk.isTcpSeqValid cb then
    let tsk := (tsk.deleteSendBufferEntry cb.ack).2
    processFinWait2 now { tsk with state := .finWait2 } cb
  else only (tsk, [])

end TcpSock

open TcpSock in
/-- `tcp_process` on socket `self` at time `now`; `iss` is what `tcp_new_iss` would draw. -/
def tcpProcess (now : Int) (self : Nat) (iss : U32) (parent : Option TcpSock)
    (sleeps : List (List Nat)) (tsk : TcpSock) (cb : TcpCb) : Option Outcome :=
  if hasFlag cb.flags tcpRst then some tsk.sockClose
  else match tsk.state with
    | .listen => some (processListen self iss tsk cb)
    | .synSent => some (processSynSent tsk cb)
    | .synRecv => processSynRecv parent tsk cb
    | .established => processEstablished sleeps tsk cb
    | .lastAck => some (processLastAck tsk cb)
    | .finWait1 => some (processFinWait1 now tsk cb)
    | .finWait2 => some (processFinWait2 now tsk cb)
    | .closed | .closeWait | .closing | .timeWait => some (only (tsk, []))

end NetStack.Tcp
