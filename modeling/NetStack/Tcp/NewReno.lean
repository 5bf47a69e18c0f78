import NetStack.Tcp.Acking
import NetStack.Tcp.Receiver
import NetStack.Tcp.Write
import NetStack.Lib.Run

/-! Loss recovery (`tcp_new_reno_process`, and the timeouts of `tcp_scan_retrans_timer_list`).

Four fields carry it: the state, the count of duplicate ACKs, and the two points recorded
where recovery and loss begin. What an ACK and a timeout make of them depends on nothing
else of the socket but `snd_nxt` and whether the ACK removed anything from the send buffer
(`newRenoProcess_recovers`, `scanRetransTimer_newReno`), and whatever else happens on a
connection leaves them alone (`tcpProcess_run`, `writeResume_run`). -/
namespace NetStack.Tcp

/-- The fields of `struct tcp_sock` that loss recovery keeps. -/
structure NewReno where
  state : TcpNrState
  dupacks : U32
  recoveryPoint : U32
  lossPoint : U32
deriving DecidableEq, Repr

namespace NewReno

/-- An ACK with this number, new if it removed something from the send buffer. -/
def ack (r : NewReno) (isNewAck : Bool) (number sndNxt : U32) : NewReno :=
  match r.state, isNewAck with
  | .open, true => r
  | .open, false => { r with state := .disorder, dupacks := r.dupacks + 1 }
  | .disorder, true => { r with state := .open, dupacks := 0 }
  | .disorder, false =>
    if r.dupacks + 1 = 3 then
      { r with state := .recovery, dupacks := r.dupacks + 1, recoveryPoint := sndNxt }
    else { r with dupacks := r.dupacks + 1 }
  | .loss, true => if number ≥ r.lossPoint then { r with state := .open, dupacks := 0 } else r
  | .recovery, true => if number < r.recoveryPoint then r else { r with state := .open, dupacks := 0 }
  | .loss, false | .recovery, false => { r with dupacks := r.dupacks + 1 }
  | .cwr, _ => r

/-- Whether the ACK has the first entry of the send buffer sent again. -/
def resends (r : NewReno) (isNewAck : Bool) (number : U32) : Bool :=
  match r.state, isNewAck with
  | .disorder, false => r.dupacks + 1 = 3
  | .recovery, true => number < r.recoveryPoint
  | _, _ => false

/-- A retransmission timeout. -/
def timeout (r : NewReno) (sndNxt : U32) : NewReno := { r with state := .loss, lossPoint := sndNxt }

end NewReno

namespace TcpSock

/-- What loss recovery keeps of a socket. -/
def newReno (tsk : TcpSock) : NewReno := ⟨tsk.nrState, tsk.dupacks, tsk.recoveryPoint, tsk.lossPoint⟩

/-- An ACK with this number removes something from the send buffer. -/
def advances (tsk : TcpSock) (ack : U32) : Bool := (tsk.deleteSendBufferEntry ack).1

/-- The timer scan finds the socket's retransmission timer run out, and does not give up. -/
def timesOut (tsk : TcpSock) : Bool :=
  tsk.retransTimer.timeout - tcpRetransScanInterval ≤ 0 ∧ tsk.state ≠ .closed ∧
    tsk.retransTimer.retransTime < 8

/-! ### What the functions do to it -/

/-- What ACK processing goes by, loss recovery apart, is the same. -/
structure SameSend (a b : TcpSock) : Prop where
  sendBuf : b.sendBuf = a.sendBuf
  rcvNxt : b.rcvNxt = a.rcvNxt
  sndWnd : b.sndWnd = a.sndWnd
  sndNxt : b.sndNxt = a.sndNxt

theorem SameSend.trans {a b c : TcpSock} (hab : SameSend a b) (hbc : SameSend b c) : SameSend a c :=
  ⟨hbc.1.trans hab.1, hbc.2.trans hab.2, hbc.3.trans hab.3, hbc.4.trans hab.4⟩

theorem updateCwnd_same (tsk : TcpSock) :
    SameSend tsk tsk.updateCwnd ∧ tsk.updateCwnd.newReno = tsk.newReno := by
  unfold updateCwnd
  split <;> exact ⟨⟨rfl, rfl, rfl, rfl⟩, rfl⟩

theorem recoverCwnd_same (tsk : TcpSock) :
    SameSend tsk tsk.recoverCwnd ∧ tsk.recoverCwnd.newReno = tsk.newReno := by
  unfold recoverCwnd shrinkCwnd
  split <;> exact ⟨⟨rfl, rfl, rfl, rfl⟩, rfl⟩

/-- What is sent again, and the window left for it, depend on these only. -/
theorem SameSend.retrans {a b : TcpSock} (h : SameSend a b) :
    b.retransSendBufferPacket.2 = a.retransSendBufferPacket.2 ∧
      b.retransSendBufferPacket.1.sndWnd = a.retransSendBufferPacket.1.sndWnd := by
  unfold retransSendBufferPacket
  rw [h.sendBuf]
  cases a.sendBuf with
  | nil => exact ⟨rfl, h.sndWnd⟩
  | cons first rest =>
    dsimp only
    rw [h.rcvNxt, h.sndWnd]
    exact ⟨rfl, rfl⟩

@[simp] theorem updateWindowSafe_newReno (tsk : TcpSock) (cb : TcpCb) :
    (tsk.updateWindowSafe cb).newReno = tsk.newReno := by
  unfold updateWindowSafe updateWindow
  split <;> rfl

@[simp] theorem retransSendBufferPacket_newReno (tsk : TcpSock) :
    tsk.retransSendBufferPacket.1.newReno = tsk.newReno := by
  unfold retransSendBufferPacket
  split <;> rfl

@[simp] theorem setRetransTimer_newReno (tsk : TcpSock) : tsk.setRetransTimer.newReno = tsk.newReno := by
  rw [setRetransTimer_eq]
  rfl

@[simp] theorem updateRetransTimer_newReno (tsk : TcpSock) : tsk.updateRetransTimer.newReno = tsk.newReno := by
  rw [updateRetransTimer_eq]
  rfl

/-- The first entry left in the send buffer is sent again, once, or nothing is. -/
structure SendsAgain (tsk : TcpSock) (again : Bool) (result : TcpSock × List Packet) : Prop where
  sent : result.2 = if again then tsk.retransSendBufferPacket.2 else []
  sndWnd : result.1.sndWnd = if again then tsk.retransSendBufferPacket.1.sndWnd else tsk.sndWnd

theorem SendsAgain.retrans {a b : TcpSock} (h : SameSend a b) : SendsAgain a true b.retransSendBufferPacket :=
  ⟨h.retrans.1, h.retrans.2⟩

theorem SendsAgain.none {a b : TcpSock} (h : SameSend a b) : SendsAgain a false (b, []) := ⟨rfl, h.sndWnd⟩

/-- Loss recovery goes to `r`, and the first entry is sent again if it asks for that. -/
structure Recovers (tsk : TcpSock) (r : NewReno) (again : Bool) (result : TcpSock × List Packet) : Prop where
  newReno : result.1.newReno = r
  again : SendsAgain tsk again result

theorem Recovers.silent {a b : TcpSock} {r : NewReno} (h : SameSend a b) (hreno : b.newReno = r) :
    Recovers a r false (b, []) := ⟨hreno, .none h⟩

theorem Recovers.after {a b : TcpSock} {r : NewReno} {again : Bool} {result : TcpSock × List Packet}
    (hab : SameSend a b) (h : Recovers b r again result) : Recovers a r again result := by
  refine ⟨h.newReno, ?_, ?_⟩
  · rw [h.again.sent, hab.retrans.1]
  · rw [h.again.sndWnd, hab.retrans.2, hab.sndWnd]

/-- A socket that has counted one more duplicate ACK. -/
def countDup (tsk : TcpSock) : TcpSock := { tsk with dupacks := tsk.dupacks + 1 }

theorem countDup_same (tsk : TcpSock) : SameSend tsk tsk.countDup := ⟨rfl, rfl, rfl, rfl⟩

/-- The third duplicate ACK. -/
theorem thirdDuplicate_recovers {tsk : TcpSock} {r : NewReno}
    (hr : { tsk.newReno with state := .recovery, recoveryPoint := tsk.sndNxt } = r) :
    Recovers tsk r true
      (let tsk := shrinkCwnd { tsk with ssthresh := tsk.halfCwnd }
      let (tsk, sent) :=
        retransSendBufferPacket { tsk with cwndFlag := false, recoveryPoint := tsk.sndNxt }
      ({ tsk with nrState := .recovery }, sent)) := by
  dsimp only
  generalize hready : ({ shrinkCwnd { tsk with ssthresh := tsk.halfCwnd } with
    cwndFlag := false
    recoveryPoint := (shrinkCwnd { tsk with ssthresh := tsk.halfCwnd }).sndNxt } : TcpSock) = ready
  have hsame : SameSend tsk ready := by
    subst hready
    exact ⟨rfl, rfl, rfl, rfl⟩
  have hreno : ready.newReno = { tsk.newReno with recoveryPoint := tsk.sndNxt } := by
    subst hready
    rfl
  refine ⟨?_, (SendsAgain.retrans hsame).1, (SendsAgain.retrans hsame).2⟩
  have hafter := ready.retransSendBufferPacket_newReno.trans hreno
  show { ready.retransSendBufferPacket.1.newReno with state := .recovery } = r
  rw [hafter]
  exact hr

/-- The ACK that ends disorder, loss or recovery. -/
theorem Recovers.reopened {a b : TcpSock} (h : SameSend a b) (hreno : b.newReno = a.newReno) :
    Recovers a { a.newReno with state := .open, dupacks := 0 } false
      ({ b with nrState := .open, dupacks := 0 }, []) := by
  have hsame : SameSend a { b with nrState := .open, dupacks := 0 } := h.trans ⟨rfl, rfl, rfl, rfl⟩
  exact .silent hsame (congrArg (fun r => { r with state := .open, dupacks := 0 }) hreno)

/-- A duplicate ACK that is counted and does nothing else. -/
theorem Recovers.counted {a b : TcpSock} (h : SameSend a.countDup b) (hreno : b.newReno = a.countDup.newReno) :
    Recovers a { a.newReno with dupacks := a.newReno.dupacks + 1 } false (b, []) :=
  .silent (a.countDup_same.trans h) hreno

section States

/-! ### ACK processing in each state, from the socket `delete_send_buffer_entry` leaves -/

variable {tsk d : TcpSock} {cb : TcpCb} {isNewAck : Bool}
  (hd : tsk.deleteSendBufferEntry cb.ack = (isNewAck, d))
include hd

theorem newRenoProcess_open (hstate : d.newReno.state = .open) :
    Recovers d (d.newReno.ack isNewAck cb.ack d.sndNxt) (d.newReno.resends isNewAck cb.ack)
      (tsk.newRenoProcess cb) := by
  unfold newRenoProcess
  rw [hd]
  dsimp only
  rw [show d.nrState = .open from hstate]
  cases isNewAck with
  | true =>
    simp only [NewReno.ack, NewReno.resends, hstate, if_true]
    obtain ⟨hgrow, hgrown⟩ := d.updateCwnd_same
    exact .silent hgrow hgrown
  | false =>
    simp only [NewReno.ack, NewReno.resends, hstate, Bool.false_eq_true, if_false]
    obtain ⟨hstep, hstepped⟩ := updateCwnd_same { d.countDup with nrState := .disorder }
    have hmid : SameSend d { d.countDup with nrState := .disorder } := ⟨rfl, rfl, rfl, rfl⟩
    exact .silent (hmid.trans hstep) hstepped

theorem newRenoProcess_disorder (hstate : d.newReno.state = .disorder) :
    Recovers d (d.newReno.ack isNewAck cb.ack d.sndNxt) (d.newReno.resends isNewAck cb.ack)
      (tsk.newRenoProcess cb) := by
  unfold newRenoProcess
  rw [hd]
  dsimp only
  nth_rewrite 1 [show d.nrState = .disorder from hstate]
  cases isNewAck with
  | true =>
    simp only [NewReno.ack, NewReno.resends, hstate, if_true]
    obtain ⟨hgrow, hgrown⟩ := d.updateCwnd_same
    exact .reopened hgrow hgrown
  | false =>
    simp only [NewReno.ack, NewReno.resends, hstate, Bool.false_eq_true, if_false]
    obtain ⟨hdup, hdupped⟩ := d.countDup.updateCwnd_same
    have hdups : (updateCwnd { d with dupacks := d.dupacks + 1 }).dupacks = d.newReno.dupacks + 1 :=
      congrArg NewReno.dupacks hdupped
    by_cases hthird : d.newReno.dupacks + 1 = 3
    · rw [if_pos hthird, if_pos (hdups.trans hthird), decide_eq_true hthird]
      refine Recovers.after (d.countDup_same.trans hdup) (thirdDuplicate_recovers ?_)
      rw [hdupped, hdup.sndNxt]
      rfl
    · rw [if_neg hthird, if_neg (fun h => hthird (hdups.symm.trans h)), decide_eq_false hthird, ← hstate]
      exact .counted hdup hdupped

theorem newRenoProcess_loss (hstate : d.newReno.state = .loss) :
    Recovers d (d.newReno.ack isNewAck cb.ack d.sndNxt) (d.newReno.resends isNewAck cb.ack)
      (tsk.newRenoProcess cb) := by
  unfold newRenoProcess
  rw [hd]
  dsimp only
  rw [show d.nrState = .loss from hstate]
  cases isNewAck with
  | true =>
    simp only [NewReno.ack, NewReno.resends, hstate, if_true]
    obtain ⟨hgrow, hgrown⟩ := d.updateCwnd_same
    have hpoint : d.updateCwnd.lossPoint = d.newReno.lossPoint := congrArg NewReno.lossPoint hgrown
    by_cases hcovers : cb.ack ≥ d.newReno.lossPoint
    · rw [if_pos hcovers, if_pos (hpoint ▸ hcovers : cb.ack ≥ d.updateCwnd.lossPoint)]
      exact .reopened hgrow hgrown
    · rw [if_neg hcovers, if_neg (hpoint ▸ hcovers : ¬ cb.ack ≥ d.updateCwnd.lossPoint)]
      exact .silent hgrow hgrown
  | false =>
    simp only [NewReno.ack, NewReno.resends, hstate, Bool.false_eq_true, if_false]
    obtain ⟨hdup, hdupped⟩ := d.countDup.updateCwnd_same
    rw [← hstate]
    exact .counted hdup hdupped

theorem newRenoProcess_recovery (hstate : d.newReno.state = .recovery) :
    Recovers d (d.newReno.ack isNewAck cb.ack d.sndNxt) (d.newReno.resends isNewAck cb.ack)
      (tsk.newRenoProcess cb) := by
  unfold newRenoProcess
  rw [hd]
  dsimp only
  rw [show d.nrState = .recovery from hstate]
  cases isNewAck with
  | true =>
    simp only [NewReno.ack, NewReno.resends, hstate, if_true]
    obtain ⟨hcut, hcutted⟩ := d.recoverCwnd_same
    have hpoint : d.recoverCwnd.recoveryPoint = d.newReno.recoveryPoint :=
      congrArg NewReno.recoveryPoint hcutted
    by_cases hpart : cb.ack < d.newReno.recoveryPoint
    · rw [if_pos hpart, if_pos (hpoint ▸ hpart : cb.ack < d.recoverCwnd.recoveryPoint),
        decide_eq_true hpart]
      exact ⟨(retransSendBufferPacket_newReno _).trans hcutted, .retrans hcut⟩
    · rw [if_neg hpart, if_neg (hpoint ▸ hpart : ¬ cb.ack < d.recoverCwnd.recoveryPoint),
        decide_eq_false hpart]
      exact .reopened hcut hcutted
  | false =>
    simp only [NewReno.ack, NewReno.resends, hstate, Bool.false_eq_true, if_false]
    obtain ⟨hdup, hdupped⟩ := d.countDup.recoverCwnd_same
    rw [← hstate]
    exact .counted hdup hdupped

theorem newRenoProcess_of :
    Recovers d (d.newReno.ack isNewAck cb.ack d.sndNxt) (d.newReno.resends isNewAck cb.ack)
      (tsk.newRenoProcess cb) := by
  cases hstate : d.newReno.state with
  | «open» => exact newRenoProcess_open hd hstate
  | disorder => exact newRenoProcess_disorder hd hstate
  | loss => exact newRenoProcess_loss hd hstate
  | recovery => exact newRenoProcess_recovery hd hstate
  | cwr =>
    unfold newRenoProcess
    rw [hd]
    dsimp only
    rw [show d.nrState = .cwr from hstate]
    simp only [NewReno.ack, NewReno.resends, hstate]
    exact .silent ⟨rfl, rfl, rfl, rfl⟩ rfl

end States

/-- An ACK is one step of loss recovery, and sends again what that asks for. -/
theorem newRenoProcess_recovers (tsk : TcpSock) (cb : TcpCb) :
    Recovers (tsk.deleteSendBufferEntry cb.ack).2
      (tsk.newReno.ack (tsk.advances cb.ack) cb.ack tsk.sndNxt)
      (tsk.newReno.resends (tsk.advances cb.ack) cb.ack) (tsk.newRenoProcess cb) :=
  newRenoProcess_of (d := (tsk.deleteSendBufferEntry cb.ack).2) rfl

/-- A scan that finds the timer run out is a timeout of loss recovery and sends the first
entry again; any other leaves both alone. -/
theorem scanRetransTimer_newReno (tsk : TcpSock) :
    tsk.scanRetransTimer.1.newReno =
        (if tsk.timesOut then tsk.newReno.timeout tsk.sndNxt else tsk.newReno) ∧
      tsk.scanRetransTimer.1.sndWnd =
        (if tsk.timesOut then tsk.retransSendBufferPacket.1.sndWnd else tsk.sndWnd) := by
  unfold scanRetransTimer timesOut
  dsimp only
  split
  · rename_i hdue
    split
    · rename_i hlast
      rw [decide_eq_false (fun h => absurd h.2.2 (not_lt.mpr hlast))]
      refine ⟨?_, ?_⟩ <;> simp [sendControlPacket, tcpRst, hasFlag, tcpSyn, tcpFin, newReno]
    · rename_i hlast
      rw [decide_eq_true ⟨hdue.1, hdue.2, not_le.mp hlast⟩, if_pos rfl, if_pos rfl]
      refine ⟨retransSendBufferPacket_newReno _, (SameSend.retrans ?_).2⟩
      exact ⟨rfl, rfl, rfl, rfl⟩
  · rename_i hdue
    rw [decide_eq_false (fun h => hdue ⟨h.1, h.2.1⟩)]
    exact ⟨rfl, rfl⟩

end TcpSock

/-! ### Runs of a connection -/

open TcpSock

/-- What happens to a connection: an ACK is processed, the timer list is scanned, or
anything else leaves the socket given. -/
inductive NrEvent where
  | ack (cb : TcpCb)
  | tick
  | other (tsk : TcpSock)

namespace NrEvent

/-- Whatever else happens leaves what loss recovery keeps. -/
def Step (s : TcpSock) : NrEvent → TcpSock → Prop
  | .ack cb, t => t = (s.newRenoProcess cb).1
  | .tick, t => t = s.scanRetransTimer.1
  | .other tsk, t => t = tsk ∧ tsk.newReno = s.newReno

def isAck : NrEvent → Bool
  | .ack _ => true
  | .tick | .other _ => false

/-- The ACK events among these. -/
def acks (es : List NrEvent) : Nat := es.countP isAck

/-- No timeout and no new ACK. -/
def Undisturbed (s : TcpSock) : NrEvent → Prop
  | .ack cb => s.advances cb.ack = false
  | .tick => s.timesOut = false
  | .other _ => True

@[simp] theorem acks_append (es fs : List NrEvent) : acks (es ++ fs) = acks es + acks fs := List.countP_append

end NrEvent

open NrEvent

variable {s t : TcpSock} {e : NrEvent}

/-- What a step does to loss recovery. -/
theorem step_newReno (h : Step s e t) :
    (∃ cb, e = .ack cb ∧ t.newReno = s.newReno.ack (s.advances cb.ack) cb.ack s.sndNxt) ∨
    (e = .tick ∧ s.timesOut = true ∧ t.newReno = s.newReno.timeout s.sndNxt) ∨
    (isAck e = false ∧ Undisturbed s e ∧ t.newReno = s.newReno) := by
  cases e with
  | ack cb =>
    subst h
    exact .inl ⟨cb, rfl, (s.newRenoProcess_recovers cb).newReno⟩
  | tick =>
    subst h
    have hscan := s.scanRetransTimer_newReno.1
    cases hout : s.timesOut with
    | true =>
      rw [hout, if_pos rfl] at hscan
      exact .inr (.inl ⟨rfl, rfl, hscan⟩)
    | false =>
      rw [hout, if_neg Bool.false_ne_true] at hscan
      exact .inr (.inr ⟨rfl, hout, hscan⟩)
  | other tsk =>
    obtain ⟨rfl, hreno⟩ := h
    exact .inr (.inr ⟨rfl, trivial, hreno⟩)

theorem run_other {s t : TcpSock} (h : t.newReno = s.newReno) : Run Step s [.other t] t :=
  .cons ⟨rfl, h⟩ (.nil t)

/-! ### What the stack does to a connection -/

namespace TcpSock

theorem control_newReno (tsk : TcpSock) (flags : U8) : (tsk.control flags).1.newReno = tsk.newReno := by
  simp only [control, sendControlPacket]
  split
  · split <;> exact updateRetransTimer_newReno _
  · split <;> rfl

theorem sockClose_newReno (tsk : TcpSock) : tsk.sockClose.tsk.newReno = tsk.newReno := by
  unfold sockClose
  split
  · exact (control_newReno _ _).trans tsk.setRetransTimer_newReno
  · exact (control_newReno _ _).trans (setRetransTimer_newReno _)
  · rfl
  · rfl

theorem newReno_of_recvOnly {tsk tsk' : TcpSock} (h : RecvOnly tsk tsk') : tsk'.newReno = tsk.newReno := by
  unfold RecvOnly at h
  rw [h]
  rfl

theorem processEstablished_newReno {sleeps : List (List Nat)} {tsk : TcpSock} {cb : TcpCb} {outcome : Outcome}
    (h : tsk.processEstablished sleeps cb = some outcome) :
    outcome.tsk.newReno = tsk.newReno ∨ outcome.tsk = (tsk.processPureAck cb).1 := by
  unfold processEstablished at h
  split at h
  · split at h
    · cases h
      exact .inl (control_newReno _ _)
    · cases h
      exact .inl rfl
  · split at h
    · split at h
      · cases h
        exact .inr rfl
      · simp only [processData] at h
        split at h
        · cases h
        · rename_i rx hrx
          cases h
          exact .inl (newReno_of_recvOnly (Rx.handleRecvData_frame hrx).tsk)
    · cases h
      exact .inl rfl

theorem processFinWait2_newReno (now : Int) (tsk : TcpSock) (cb : TcpCb) :
    (tsk.processFinWait2 now cb).tsk.newReno = tsk.newReno := by
  unfold processFinWait2
  split
  · exact control_newReno { tsk with rcvNxt := cb.seq + 1 } tcpAck
  · rfl

/-- A packet leaves loss recovery alone, unless it is a bare ACK on an established
connection. -/
theorem tcpProcess_newReno {now : Int} {self : Nat} {iss : U32} {parent : Option TcpSock}
    {sleeps : List (List Nat)} {tsk : TcpSock} {cb : TcpCb} {outcome : Outcome}
    (h : tcpProcess now self iss parent sleeps tsk cb = some outcome) :
    outcome.tsk.newReno = tsk.newReno ∨ outcome.tsk = (tsk.processPureAck cb).1 := by
  unfold tcpProcess at h
  split at h
  · cases h
    exact .inl tsk.sockClose_newReno
  · split at h
    · cases h
      refine .inl ?_
      unfold processListen
      split <;> rfl
    · cases h
      refine .inl ?_
      unfold processSynSent
      split
      · exact control_newReno _ _
      · rfl
    · refine .inl ?_
      unfold processSynRecv at h
      split at h
      · split at h
        · cases h
        · split at h <;> cases h <;> rfl
      · cases h
        rfl
    · exact processEstablished_newReno h
    · cases h
      refine .inl ?_
      unfold processLastAck
      split <;> rfl
    · cases h
      refine .inl ?_
      unfold processFinWait1
      split
      · exact processFinWait2_newReno now _ cb
      · rfl
    · cases h
      exact .inl (processFinWait2_newReno now tsk cb)
    all_goals
      cases h
      exact .inl rfl

/-- Whatever packet is processed, the socket takes steps of this machine. -/
theorem tcpProcess_run {now : Int} {self : Nat} {iss : U32} {parent : Option TcpSock}
    {sleeps : List (List Nat)} {tsk : TcpSock} {cb : TcpCb} {outcome : Outcome}
    (h : tcpProcess now self iss parent sleeps tsk cb = some outcome) :
    ∃ es, Run Step tsk es outcome.tsk := by
  rcases tcpProcess_newReno h with hsame | hack
  · exact ⟨_, run_other hsame⟩
  · let acked : TcpSock := { tsk with rcvNxt := cb.seq, sndUna := cb.ack }
    have hready : (acked.updateWindowSafe cb).updateRetransTimer.newReno = tsk.newReno :=
      (updateRetransTimer_newReno _).trans (acked.updateWindowSafe_newReno cb)
    have hstep : Step (acked.updateWindowSafe cb).updateRetransTimer (.ack cb) (tsk.processPureAck cb).1 := rfl
    rw [hack]
    exact ⟨_, (run_other hready).snoc hstep⟩

theorem sendPacket_newReno (tsk : TcpSock) (payload : List U8) :
    (tsk.sendPacket payload).1.newReno = tsk.newReno :=
  updateRetransTimer_newReno _

theorem writeLoop_newReno (tsk : TcpSock) (buf : List U8) : (tsk.writeLoop buf).1.newReno = tsk.newReno := by
  unfold writeLoop
  split
  · rfl
  · exact tsk.sendPacket_newReno _

/-- So does a write, from one sleep to the next. -/
theorem sockWrite_run (tsk : TcpSock) (buf : List U8) :
    Run Step tsk [.other (tsk.sockWrite buf).1] (tsk.sockWrite buf).1 :=
  run_other ((writeLoop_newReno _ _).trans tsk.setRetransTimer_newReno)

theorem writeResume_run {tsk : TcpSock} {state : WriteState} {result : TcpSock × WriteState × List Packet}
    (h : tsk.writeResume state = some result) : Run Step tsk [.other result.1] result.1 := by
  apply run_other
  unfold writeResume at h
  split at h
  · cases h
  · split at h
    · cases h
    · cases h
      exact tsk.writeLoop_newReno _
  · split at h
    · cases h
      rfl
    · cases h

end TcpSock

end NetStack.Tcp
