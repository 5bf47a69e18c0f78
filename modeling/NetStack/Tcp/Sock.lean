import NetStack.Lib.Serial
import NetStack.Lib.StableInsert
import NetStack.Tcp.RingBuffer
import Mathlib.Data.Rat.Floor

/-! A TCP socket (`include/tcp_sock.h`, `include/tcp.h`, `tcp_sock.c` of
`EXP18-TCP_Stack_4/code/18-tcp_stack`).

A packet is the header fields the stack reads and the payload; header bytes, their byte
order and the checksums are left to the codec. Lists of the source (`send_buf`,
`rcv_ofo_buf`, the queues) are lists here, in list order, and a socket is named by its
index on its host. -/
namespace NetStack.Tcp

/-- `TCP_FIN`, `TCP_SYN`, `TCP_RST`, `TCP_PSH`, `TCP_ACK`. -/
def tcpFin : U8 := 0x01#8
def tcpSyn : U8 := 0x02#8
def tcpRst : U8 := 0x04#8
def tcpPsh : U8 := 0x08#8
def tcpAck : U8 := 0x10#8

/-- `MSS`: 1514 less the Ethernet, IP and TCP headers. -/
def mss : Nat := 1460

/-- `TCP_DEFAULT_WINDOW`. -/
def tcpDefaultWindow : Nat := 65535

/-- `TCP_RETRANS_INTERVAL_INITIAL`, `TCP_RETRANS_SCAN_INTERVAL`, in microseconds. -/
def tcpRetransIntervalInitial : Int := 200000
def tcpRetransScanInterval : Int := 10000

/-- `TCP_MSL`, `TCP_TIMEWAIT_TIMEOUT`. -/
def tcpMsl : Int := 1000000
def tcpTimewaitTimeout : Int := 2 * tcpMsl

/-- `less_than_32b` and its siblings: the sign of a wrapping difference. -/
def lessThan32b (a b : U32) : Bool := Serial.lt a b
def lessOrEqual32b (a b : U32) : Bool := Serial.le a b
def greaterThan32b (a b : U32) : Bool := Serial.lt b a

/-- `enum tcp_state`. -/
inductive TcpState
  | closed | listen | synRecv | synSent | established | closeWait | lastAck | finWait1 | finWait2
  | closing | timeWait
deriving DecidableEq, Repr

/-- `enum tcp_nr_state`. -/
inductive TcpNrState
  | open | loss | disorder | recovery | cwr
deriving DecidableEq, Repr

/-- A TCP packet, with the header fields as the host reads them. -/
structure Packet where
  saddr : U32
  daddr : U32
  sport : U16
  dport : U16
  seq : U32
  ack : U32
  flags : U8
  rwnd : U16
  payload : List U8
deriving DecidableEq, Repr

/-- `struct tcp_cb`; its pointers into the packet are the payload itself. -/
structure TcpCb where
  saddr : U32
  daddr : U32
  sport : U16
  dport : U16
  seq : U32
  seqEnd : U32
  ack : U32
  rwnd : U32
  flags : U8
  payload : List U8
deriving DecidableEq, Repr

/-- `flags & flag`. -/
def hasFlag (flags flag : U8) : Bool := flags &&& flag != 0

/-- `tcp_cb_init`. -/
def tcpCbInit (packet : Packet) : TcpCb where
  saddr := packet.saddr
  daddr := packet.daddr
  sport := packet.sport
  dport := packet.dport
  seq := packet.seq
  seqEnd := packet.seq + BitVec.ofNat 32 packet.payload.length +
    if hasFlag packet.flags (tcpSyn ||| tcpFin) then 1 else 0
  ack := packet.ack
  rwnd := packet.rwnd.setWidth 32
  flags := packet.flags
  payload := packet.payload

/-- `struct tcp_timer`, less its list node and the type tag. -/
structure TcpTimer where
  timeout : Int
  retransTime : Int
  enable : Bool
deriving DecidableEq, Repr

/-- `rcv_ofo_buf_entry_t`. -/
structure RcvOfoEntry where
  seq : U32
  data : List U8
deriving DecidableEq, Repr

/-- `struct tcp_sock`, less the wait structures and the list nodes. `cwnd` is a C
float, kept as the rational it stands for. -/
structure TcpSock where
  skSip : U32
  skSport : U16
  skDip : U32
  skDport : U16
  parent : Option Nat
  refCnt : Int
  listenQueue : List Nat
  acceptQueue : List Nat
  acceptBacklog : Int
  backlog : Int
  timewait : TcpTimer
  retransTimer : TcpTimer
  rcvBuf : RingBuffer
  sendBuf : List Packet
  rcvOfoBuf : List RcvOfoEntry
  state : TcpState
  nrState : TcpNrState
  iss : U32
  sndUna : U32
  sndNxt : U32
  rcvNxt : U32
  recoveryPoint : U32
  sndWnd : U32
  advWnd : U16
  rcvWnd : U16
  cwnd : ℚ
  lossPoint : U32
  dupacks : U32
  cwndFlag : Bool
  ssthresh : U32

/-- `alloc_tcp_sock`. -/
def allocTcpSock : TcpSock where
  skSip := 0
  skSport := 0
  skDip := 0
  skDport := 0
  parent := none
  refCnt := 0
  listenQueue := []
  acceptQueue := []
  acceptBacklog := 0
  backlog := 0
  timewait := ⟨0, 0, false⟩
  retransTimer := ⟨0, 0, false⟩
  rcvBuf := RingBuffer.alloc tcpDefaultWindow
  sendBuf := []
  rcvOfoBuf := []
  state := .closed
  nrState := .open
  iss := 0
  sndUna := 0
  sndNxt := 0
  rcvNxt := 0
  recoveryPoint := 0
  sndWnd := BitVec.ofNat 32 tcpDefaultWindow
  advWnd := BitVec.ofNat 16 tcpDefaultWindow
  rcvWnd := BitVec.ofNat 16 tcpDefaultWindow
  cwnd := 1
  lossPoint := 0
  dupacks := 0
  cwndFlag := false
  ssthresh := 16

/-- The test of `tcp_scan_timer_list`. The clock's product is a 64-bit `time_t`; the
timer's is one of two `int`s. -/
def TcpTimer.due (now : Int) (timer : TcpTimer) : Bool :=
  timer.enable && now * tcpMsl - toCInt (timer.timeout * tcpMsl) > tcpTimewaitTimeout

namespace TcpSock

/-! ### Timers -/

/-- `tcp_set_retrans_timer`. Nothing in the source ever sets `enable`. -/
def setRetransTimer (tsk : TcpSock) : TcpSock :=
  if tsk.retransTimer.enable then tsk
  else { tsk with
    retransTimer := { tsk.retransTimer with timeout := tcpRetransIntervalInitial, retransTime := 0 } }

/-- `tcp_update_retrans_timer`. -/
def updateRetransTimer (tsk : TcpSock) : TcpSock :=
  let tsk := if tsk.retransTimer.enable then tsk else tsk.setRetransTimer
  { tsk with
    retransTimer := { tsk.retransTimer with timeout := tcpRetransIntervalInitial, retransTime := 0 } }

theorem setRetransTimer_eq (tsk : TcpSock) :
    tsk.setRetransTimer = { tsk with retransTimer := tsk.setRetransTimer.retransTimer } := by
  unfold setRetransTimer
  split <;> rfl

theorem updateRetransTimer_eq (tsk : TcpSock) :
    tsk.updateRetransTimer = { tsk with retransTimer := tsk.updateRetransTimer.retransTimer } := by
  unfold updateRetransTimer
  split
  · rfl
  · rw [setRetransTimer_eq]

/-- `tcp_set_timewait_timer`, at time `now`. -/
def setTimewaitTimer (now : Int) (tsk : TcpSock) : TcpSock :=
  { tsk with timewait := { tsk.timewait with timeout := toCInt now, enable := true } }

/-! ### The buffers -/

/-- `delete_send_buffer_entry`: whether it deleted anything, and the socket after it. -/
def deleteSendBufferEntry (tsk : TcpSock) (ack : U32) : Bool × TcpSock :=
  (tsk.sendBuf.any fun entry => lessThan32b entry.seq ack,
    { tsk with sendBuf := tsk.sendBuf.filter fun entry => !lessThan32b entry.seq ack })

/-- The walk of `add_recv_ofo_buf_entry`: before the first entry that starts later. -/
def insertOfo (latest : RcvOfoEntry) : List RcvOfoEntry → List RcvOfoEntry
  | [] => [latest]
  | entry :: rest =>
    if lessThan32b latest.seq entry.seq then latest :: entry :: rest
    else entry :: insertOfo latest rest

theorem insertOfo_eq (latest : RcvOfoEntry) (l : List RcvOfoEntry) :
    insertOfo latest l = StableInsert.insert (fun x y => lessThan32b x.seq y.seq) latest l := by
  induction l with
  | nil => rfl
  | cons entry rest ih => rw [insertOfo, StableInsert.insert, ih]

theorem mem_insertOfo {latest entry : RcvOfoEntry} {l : List RcvOfoEntry}
    (h : entry ∈ insertOfo latest l) : entry = latest ∨ entry ∈ l := by
  rw [insertOfo_eq] at h
  exact List.mem_cons.mp ((StableInsert.insert_perm _ latest l).mem_iff.mp h)

/-- `add_recv_ofo_buf_entry`. -/
def addRecvOfoBufEntry (tsk : TcpSock) (cb : TcpCb) : TcpSock :=
  { tsk with rcvOfoBuf := insertOfo ⟨cb.seq, cb.payload⟩ tsk.rcvOfoBuf }

/-! ### Sending -/

/-- The packet a socket puts together from its own fields. -/
def packet (tsk : TcpSock) (flags : U8) (payload : List U8) : Packet where
  saddr := tsk.skSip
  daddr := tsk.skDip
  sport := tsk.skSport
  dport := tsk.skDport
  seq := tsk.sndNxt
  ack := tsk.rcvNxt
  flags := flags
  rwnd := tsk.rcvWnd
  payload := payload

/-- `tcp_send_packet`: the packet sent, and the socket after it. -/
def sendPacket (tsk : TcpSock) (payload : List U8) : TcpSock × Packet :=
  let packet := tsk.packet (tcpPsh ||| tcpAck) payload
  let len := BitVec.ofNat 32 payload.length
  (updateRetransTimer { tsk with
    sndNxt := tsk.sndNxt + len
    sndWnd := tsk.sndWnd - len
    sendBuf := tsk.sendBuf ++ [packet] }, packet)

/-- `tcp_send_control_packet`: all but bare ACKs and resets are kept for retransmission. -/
def sendControlPacket (tsk : TcpSock) (flags : U8) : TcpSock × Packet :=
  let packet := tsk.packet flags []
  let tsk := if hasFlag flags (tcpSyn ||| tcpFin) then { tsk with sndNxt := tsk.sndNxt + 1 } else tsk
  let tsk :=
    if flags != tcpAck && !hasFlag flags tcpRst then
      updateRetransTimer { tsk with sendBuf := tsk.sendBuf ++ [packet] }
    else tsk
  (tsk, packet)

/-- `retrans_send_buffer_packet`: the first entry again, with a fresh acknowledgement. -/
def retransSendBufferPacket (tsk : TcpSock) : TcpSock × List Packet :=
  match tsk.sendBuf with
  | [] => (tsk, [])
  | first :: _ =>
    ({ tsk with sndWnd := tsk.sndWnd - BitVec.ofNat 32 first.payload.length },
      [{ first with ack := tsk.rcvNxt }])

/-- `is_allow_to_send`, with its conversions: `MSS` is a 64-bit `size_t`, `inflight` and
the result are 32-bit integers. -/
def isAllowToSend (tsk : TcpSock) : U32 :=
  let size : U64 := BitVec.ofNat 64 mss
  let inflight : U32 :=
    ((tsk.sndNxt - tsk.sndUna).setWidth 64 / size - tsk.dupacks.setWidth 64).setWidth 32
  (tsk.sndWnd.setWidth 64 / size - inflight.signExtend 64).setWidth 32

end TcpSock

end NetStack.Tcp
