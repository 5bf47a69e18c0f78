import NetStack.Tcp.Sock

/-! The receive path (`tcp_in.c`, `tcp_sock.c`).

A segment that is not old goes to the out-of-order list; the front of the list is then
written to the ring buffer as far as it joins on. Where the source sleeps until the
application has made room, the model takes from `sleeps` what the application reads
meanwhile: one list of read sizes for each sleep. A call still asleep when `sleeps` runs
out has not returned. -/
namespace NetStack.Tcp

namespace TcpSock

/-- `tcp_sock_read`: what it returns. On an empty buffer it has not returned. -/
def sockRead (tsk : TcpSock) (len : Nat) : Option (List U8 × TcpSock) :=
  if tsk.rcvBuf.empty then none
  else some ((tsk.rcvBuf.read len).1, { tsk with rcvBuf := (tsk.rcvBuf.read len).2 })

end TcpSock

/-- A receive call under way: the socket, the sleeps to come, what the application has
read and what has been sent meanwhile. -/
structure Rx where
  tsk : TcpSock
  sleeps : List (List Nat)
  taken : List U8
  sent : List Packet

namespace Rx

/-- The application reads, once for each size. -/
def reads (rx : Rx) : List Nat → Option Rx
  | [] => some rx
  | len :: lens =>
    match rx.tsk.sockRead len with
    | none => none
    | some (out, tsk) => reads { rx with tsk, taken := rx.taken ++ out } lens

/-- `while (blocked) sleep_on(wait_recv)`. -/
def sleepWhile (blocked : RingBuffer → Bool) (rx : Rx) : List (List Nat) → Option Rx
  | [] => if blocked rx.tsk.rcvBuf then none else some { rx with sleeps := [] }
  | lens :: sleeps =>
    if blocked rx.tsk.rcvBuf then
      match rx.reads lens with
      | none => none
      | some rx => sleepWhile blocked rx sleeps
    else some { rx with sleeps := lens :: sleeps }

/-- `tcp_send_control_packet` during the call. -/
def control (rx : Rx) (flags : U8) : Rx :=
  { rx with tsk := (rx.tsk.sendControlPacket flags).1
            sent := rx.sent ++ [(rx.tsk.sendControlPacket flags).2] }

/-- Take `len` bytes as received: `rcv_nxt` over them, the window short of them, and the
acknowledgement out. -/
def acknowledge (rx : Rx) (len : Nat) : Rx :=
  control { rx with tsk := { rx.tsk with
    rcvNxt := rx.tsk.rcvNxt + BitVec.ofNat 32 len
    rcvWnd := BitVec.ofNat 16 (rx.tsk.rcvBuf.free - len) } } tcpAck

/-- The body of `put_recv_ofo_buf_entry_to_ring_buf` for an entry that joins on: the
acknowledgement goes out before the wait for room and the write. -/
def putEntry (rx : Rx) (entry : RcvOfoEntry) (rest : List RcvOfoEntry) : Option Rx :=
  let len := entry.data.length
  match (rx.acknowledge len).sleepWhile (fun rbuf => rbuf.free < len) rx.sleeps with
  | none => none
  | some rx =>
    match rx.tsk.rcvBuf.write entry.data with
    | none => none
    | some rcvBuf => some { rx with tsk := { rx.tsk with rcvBuf, rcvOfoBuf := rest } }

/-- `put_recv_ofo_buf_entry_to_ring_buf`, from the entry it has come to, with the value
it returns. -/
def putRecvOfoBuf (rx : Rx) : List RcvOfoEntry → Option (Int × Rx)
  | [] => some (0, rx)
  | entry :: rest =>
    if rx.tsk.rcvNxt = entry.seq then
      match rx.putEntry entry rest with
      | none => none
      | some rx => putRecvOfoBuf rx rest
    else if lessThan32b rx.tsk.rcvNxt entry.seq then some (0, rx)
    else some (-1, rx)

/-- The part of `handle_recv_data` after its first wait. -/
def accept (rx : Rx) (cb : TcpCb) : Option Rx :=
  if lessThan32b cb.seq rx.tsk.rcvNxt then some (rx.control tcpAck)
  else
    let rx := { rx with tsk := rx.tsk.addRecvOfoBufEntry cb }
    match rx.putRecvOfoBuf rx.tsk.rcvOfoBuf with
    | none => none
    | some (_, rx) =>
      some { rx with tsk := TcpSock.updateRetransTimer { rx.tsk with
        sndUna := if greaterThan32b cb.ack rx.tsk.sndUna then cb.ack else rx.tsk.sndUna } }

/-- `handle_recv_data`. -/
def handleRecvData (rx : Rx) (cb : TcpCb) : Option Rx :=
  match rx.sleepWhile RingBuffer.full rx.sleeps with
  | none => none
  | some rx => rx.accept cb

end Rx

end NetStack.Tcp
