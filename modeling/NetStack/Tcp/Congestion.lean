import NetStack.Tcp.Sock
import Mathlib.Data.Int.Log
import Mathlib.Algebra.Order.Field.Rat

/-! Congestion control (`tcp_in.c`, `tcp_timer.c`).

`cwnd` is a C `float`. Its arithmetic is done as the source's types ask, each operation
exactly and then rounded to nearest, ties to even: to 24 significant bits for `float`,
to 53 where a `double` constant takes part. -/
namespace NetStack.Tcp

/-- Nearest integer, ties to even. -/
def roundEven (q : ℚ) : ℤ :=
  let f := ⌊q⌋
  if q - f < 1 / 2 ∨ (q - f = 1 / 2 ∧ f % 2 = 0) then f else f + 1

/-- Nearest number with `bits` significant bits. -/
def roundTo (bits : Nat) (q : ℚ) : ℚ :=
  if q = 0 then 0
  else
    let ulp : ℚ := (2 : ℚ) ^ (Int.log 2 |q| + 1 - (bits : ℤ))
    roundEven (q / ulp) * ulp

def toFloat (q : ℚ) : ℚ := roundTo 24 q
def toDouble (q : ℚ) : ℚ := roundTo 53 q

/-- Conversion of a non-negative floating-point value to `u32`. -/
def truncU32 (q : ℚ) : U32 := BitVec.ofInt 32 ⌊q⌋

namespace TcpSock

/-- `tcp_update_window`. -/
def updateWindow (tsk : TcpSock) (cb : TcpCb) : TcpSock :=
  let rwnd := toFloat cb.rwnd.toNat
  let window := toFloat (tsk.cwnd * mss)
  { tsk with sndWnd := truncU32 (if rwnd < window then rwnd else window) }

/-- `tcp_update_window_safe`. -/
def updateWindowSafe (tsk : TcpSock) (cb : TcpCb) : TcpSock :=
  if lessOrEqual32b tsk.sndUna cb.ack && lessOrEqual32b cb.ack tsk.sndNxt then tsk.updateWindow cb
  else tsk

/-- `update_cwnd`: slow start below the threshold, then a step of `1.0 / cwnd`. -/
def updateCwnd (tsk : TcpSock) : TcpSock :=
  if truncU32 tsk.cwnd < tsk.ssthresh then { tsk with cwnd := toFloat (tsk.cwnd + 1) }
  else { tsk with cwnd := toFloat (toDouble (tsk.cwnd + toDouble (1 / tsk.cwnd))) }

/-- `cwnd -= 0.5`. -/
def shrinkCwnd (tsk : TcpSock) : TcpSock :=
  { tsk with cwnd := toFloat (toDouble (tsk.cwnd - 1 / 2)) }

/-- `max((u32)(cwnd / 2), 1)`. -/
def halfCwnd (tsk : TcpSock) : U32 :=
  let half := truncU32 (toFloat (tsk.cwnd / 2))
  if half > 1 then half else 1

/-- One step down towards `ssthresh`, unless recovery has already reached it. -/
def recoverCwnd (tsk : TcpSock) : TcpSock :=
  if tsk.cwnd > toFloat tsk.ssthresh.toNat ∧ tsk.cwndFlag = false then tsk.shrinkCwnd
  else { tsk with cwndFlag := true }

/-- `tcp_new_reno_process`, and what it retransmits. -/
def newRenoProcess (tsk : TcpSock) (cb : TcpCb) : TcpSock × List Packet :=
  let (isNewAck, tsk) := tsk.deleteSendBufferEntry cb.ack
  match tsk.nrState with
  | .open =>
    if isNewAck then (tsk.updateCwnd, [])
    else (updateCwnd { tsk with dupacks := tsk.dupacks + 1, nrState := .disorder }, [])
  | .disorder =>
    if isNewAck then ({ tsk.updateCwnd with nrState := .open, dupacks := 0 }, [])
    else
      let tsk := updateCwnd { tsk with dupacks := tsk.dupacks + 1 }
      if tsk.dupacks = 3 then
        let tsk := shrinkCwnd { tsk with ssthresh := tsk.halfCwnd }
        let (tsk, sent) :=
          retransSendBufferPacket { tsk with cwndFlag := false, recoveryPoint := tsk.sndNxt }
        ({ tsk with nrState := .recovery }, sent)
      else (tsk, [])
  | .loss =>
    if isNewAck then
      let tsk := tsk.updateCwnd
      if cb.ack ≥ tsk.lossPoint then ({ tsk with nrState := .open, dupacks := 0 }, []) else (tsk, [])
    else (updateCwnd { tsk with dupacks := tsk.dupacks + 1 }, [])
  | .recovery =>
    if isNewAck then
      let tsk := tsk.recoverCwnd
      if cb.ack < tsk.recoveryPoint then tsk.retransSendBufferPacket
      else ({ tsk with nrState := .open, dupacks := 0 }, [])
    else (recoverCwnd { tsk with dupacks := tsk.dupacks + 1 }, [])
  | .cwr => (tsk, [])

/-- `tcp_scan_retrans_timer_list` at one socket's timer: eight timeouts in a row give
the connection up, an earlier one retransmits. Unlinking the bind entry is the table's. -/
def scanRetransTimer (tsk : TcpSock) : TcpSock × List Packet :=
  let timer := tsk.retransTimer
  let tsk : TcpSock :=
    { tsk with retransTimer := { timer with timeout := timer.timeout - tcpRetransScanInterval } }
  if tsk.retransTimer.timeout ≤ 0 ∧ tsk.state ≠ .closed then
    if tsk.retransTimer.retransTime ≥ 8 then
      let (tsk, packet) := sendControlPacket { tsk with state := .closed } tcpRst
      (tsk, [packet])
    else
      let time := tsk.retransTimer.retransTime + 1
      retransSendBufferPacket { tsk with
        ssthresh := tsk.halfCwnd
        cwnd := 1
        nrState := .loss
        lossPoint := tsk.sndNxt
        retransTimer := { tsk.retransTimer with
          retransTime := time
          timeout := tcpRetransIntervalInitial * (2 * 2 ^ time.toNat) } }
  else (tsk, [])

end TcpSock

end NetStack.Tcp
