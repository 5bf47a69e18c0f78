import NetStack.Tcp.Sock

/-! The send path (`tcp_sock_write`, `send_data` in `tcp_sock.c`).

A write cuts its buffer into segments of at most `mss` bytes. It sleeps after each until
the window gate opens, and at the end until everything sent has been acknowledged, so it
is a small machine: `sockWrite` runs to the first sleep and `writeResume` from one sleep
to the next. -/
namespace NetStack.Tcp

/-- Where a thread is in `tcp_sock_write`: not in it, asleep at the window gate with the
rest of the buffer to send, or asleep until the send buffer is empty. -/
inductive WriteState
  | idle
  | gate (rest : List U8)
  | drain
deriving DecidableEq, Repr

/-- The bytes passed to the call under way that it has not sent yet. -/
def WriteState.pending : WriteState → List U8
  | .gate rest => rest
  | .idle | .drain => []

namespace TcpSock

/-- `while (len > 0)`, from its test to the next sleep. -/
def writeLoop (tsk : TcpSock) (buf : List U8) : TcpSock × WriteState × List Packet :=
  if buf = [] then (tsk, .drain, [])
  else
    let (tsk, packet) := tsk.sendPacket (buf.take mss)
    (tsk, .gate (buf.drop mss), [packet])

/-- `tcp_sock_write`, up to its first sleep. -/
def sockWrite (tsk : TcpSock) (buf : List U8) : TcpSock × WriteState × List Packet :=
  tsk.setRetransTimer.writeLoop buf

/-- `tcp_sock_write`, from one sleep to the next or to its end; `none` while the test it
sleeps on still fails. -/
def writeResume (tsk : TcpSock) : WriteState → Option (TcpSock × WriteState × List Packet)
  | .idle => none
  | .gate rest => if tsk.isAllowToSend = 0 then none else some (tsk.writeLoop rest)
  | .drain => if tsk.sendBuf = [] then some (tsk, .idle, []) else none

/-! ### What the calls do to the send buffer -/

@[simp] theorem setRetransTimer_sendBuf (tsk : TcpSock) :
    tsk.setRetransTimer.sendBuf = tsk.sendBuf := by
  rw [setRetransTimer_eq]

@[simp] theorem setRetransTimer_sndNxt (tsk : TcpSock) : tsk.setRetransTimer.sndNxt = tsk.sndNxt := by
  rw [setRetransTimer_eq]

@[simp] theorem updateRetransTimer_sendBuf (tsk : TcpSock) :
    tsk.updateRetransTimer.sendBuf = tsk.sendBuf := by
  rw [updateRetransTimer_eq]

@[simp] theorem updateRetransTimer_sndNxt (tsk : TcpSock) :
    tsk.updateRetransTimer.sndNxt = tsk.sndNxt := by
  rw [updateRetransTimer_eq]

/-- A data segment goes out and behind the send buffer, and moves `snd_nxt` over its bytes. -/
theorem sendPacket_send (tsk : TcpSock) (payload : List U8) :
    (tsk.sendPacket payload).1.sendBuf = tsk.sendBuf ++ [(tsk.sendPacket payload).2] ∧
      (tsk.sendPacket payload).1.sndNxt = tsk.sndNxt + BitVec.ofNat 32 payload.length := by
  simp [sendPacket]

theorem sendPacket_behind (tsk : TcpSock) (payload : List U8) :
    (tsk.sendPacket payload).1.sndUna = tsk.sndUna ∧ (tsk.sendPacket payload).1.state = tsk.state := by
  unfold sendPacket
  dsimp only
  rw [updateRetransTimer_eq]
  exact ⟨rfl, rfl⟩

/-- A control packet moves `snd_nxt` over its SYN or FIN, and goes behind the send buffer
unless it is a bare ACK or a reset. -/
theorem sendControlPacket_send (tsk : TcpSock) (flags : U8) :
    (tsk.sendControlPacket flags).1.sendBuf =
        (if flags != tcpAck && !hasFlag flags tcpRst then
          tsk.sendBuf ++ [(tsk.sendControlPacket flags).2] else tsk.sendBuf) ∧
      (tsk.sendControlPacket flags).1.sndNxt =
        (if hasFlag flags (tcpSyn ||| tcpFin) then tsk.sndNxt + 1 else tsk.sndNxt) := by
  unfold sendControlPacket
  constructor <;> dsimp only <;> split <;> split <;> simp

end TcpSock

end NetStack.Tcp
