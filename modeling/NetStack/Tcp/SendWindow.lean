import NetStack.Tcp.NewReno

/-! The send window over a run.

Every byte sent, and every byte sent again, is taken off `snd_wnd`, which only an ACK
within what has been sent sets anew. The gate of `tcp_sock_write` stands between two
segments of one call: neither the first segment of a call nor a retransmission passes it,
and it counts whole segments, so nothing keeps the window from running below zero.

What does is an account over the run: the window granted last must cover the bytes sent
and sent again since. -/
namespace NetStack.Tcp
open TcpSock

/-- A connection and its writing thread. The last two fields only watch: the window granted
last, and the bytes sent and sent again since. -/
structure Windowed where
  tsk : TcpSock
  write : WriteState
  granted : Nat
  charged : Nat

/-- A call of `tcp_sock_write`, the end of one of its sleeps, a bare ACK, or a scan of the
retransmission timers. -/
inductive WindowEvent where
  | write (buf : List U8)
  | resume
  | ack (cb : TcpCb)
  | tick

namespace Windowed

/-- A connection that has not been watched yet. -/
def start (tsk : TcpSock) : Windowed := ⟨tsk, .idle, tsk.sndWnd.toNat, 0⟩

/-- What an event does to the socket and the writing thread, and what it sends. -/
def act (tsk : TcpSock) (write : WriteState) : WindowEvent → Option (TcpSock × WriteState × List Packet)
  | .write buf => if write = .idle then some (tsk.sockWrite buf) else none
  | .resume => tsk.writeResume write
  | .ack cb => some ((tsk.processPureAck cb).1, write, (tsk.processPureAck cb).2)
  | .tick => some (tsk.scanRetransTimer.1, write, tsk.scanRetransTimer.2)

/-- `snd_wnd` as the event's `snd_wnd -= tcp_data_len` finds it. -/
def window (tsk : TcpSock) : WindowEvent → U32
  | .ack cb => (updateWindowSafe { tsk with rcvNxt := cb.seq, sndUna := cb.ack } cb).sndWnd
  | .write _ | .resume | .tick => tsk.sndWnd

/-- The payload of the first entry of a send buffer. -/
def firstLen : List Packet → Nat
  | [] => 0
  | first :: _ => first.payload.length

/-- The bytes the event is due to send or to send again. -/
def due (tsk : TcpSock) (write : WriteState) : WindowEvent → Nat
  | .write buf => min mss buf.length
  | .resume =>
    match write with
    | .gate rest => if tsk.isAllowToSend = 0 then 0 else min mss rest.length
    | .idle | .drain => 0
  | .ack cb =>
    if tsk.newReno.resends (tsk.advances cb.ack) cb.ack then
      firstLen (tsk.sendBuf.filter fun entry => !lessThan32b entry.seq cb.ack)
    else 0
  | .tick => if tsk.timesOut then firstLen tsk.sendBuf else 0

/-- The event is an ACK whose window is taken. -/
def grants (tsk : TcpSock) : WindowEvent → Bool
  | .ack cb => lessOrEqual32b cb.ack tsk.sndNxt
  | .write _ | .resume | .tick => false

/-- The window granted last: by the event itself, where it is such an ACK, the smaller of the
window it advertises and `cwnd` segments. -/
def grantedBy (s : Windowed) : WindowEvent → Nat
  | .ack cb =>
    if grants s.tsk (.ack cb) then (truncU32 (min (toFloat cb.rwnd.toNat) (toFloat (s.tsk.cwnd * mss)))).toNat
    else s.granted
  | .write _ | .resume | .tick => s.granted

/-- The bytes sent and sent again since, those of the event included. -/
def chargedBy (s : Windowed) (e : WindowEvent) : Nat :=
  (if grants s.tsk e then 0 else s.charged) + due s.tsk s.write e

def Step (s : Windowed) (e : WindowEvent) (t : Windowed) : Prop :=
  (∃ sent, act s.tsk s.write e = some (t.tsk, t.write, sent)) ∧
    t.granted = s.grantedBy e ∧ t.charged = s.chargedBy e

/-- Whatever the event sends or sends again is within `snd_wnd` as it is taken off it. -/
def Fits (s : Windowed) (e : WindowEvent) : Prop :=
  ∀ tsk write sent, act s.tsk s.write e = some (tsk, write, sent) →
    ∀ packet ∈ sent, packet.payload.length ≤ (window s.tsk e).toNat

/-- The window granted last covers what has been sent and sent again since, what the event
is due to send included. -/
def Covered (s : Windowed) (e : WindowEvent) : Prop :=
  (act s.tsk s.write e).isSome → s.chargedBy e ≤ s.grantedBy e

/-! ### What an event takes off the window -/

/-- `sent` takes `len` bytes off `window`, in packets of at most that many. -/
structure Spends (window : U32) (len : Nat) (tsk : TcpSock) (sent : List Packet) : Prop where
  sndWnd : tsk.sndWnd = window - BitVec.ofNat 32 len
  fits : ∀ n, (∀ packet ∈ sent, packet.payload.length ≤ n) ↔ len ≤ n

variable {tsk tsk' : TcpSock} {write write' : WriteState} {sent : List Packet} {e : WindowEvent}

theorem setRetransTimer_sndWnd (tsk : TcpSock) : tsk.setRetransTimer.sndWnd = tsk.sndWnd := by
  rw [setRetransTimer_eq]

theorem updateRetransTimer_sndWnd (tsk : TcpSock) : tsk.updateRetransTimer.sndWnd = tsk.sndWnd := by
  rw [updateRetransTimer_eq]

theorem Spends.nothing {window : U32} (hwnd : tsk.sndWnd = window)
    (hbare : ∀ packet ∈ sent, packet.payload = []) : Spends window 0 tsk sent := by
  refine ⟨?_, fun n => iff_of_true ?_ (Nat.zero_le n)⟩
  · rw [hwnd]
    exact (BitVec.sub_zero window).symm
  · intro packet hp
    rw [hbare packet hp]
    exact Nat.zero_le n

theorem retrans_spends (tsk : TcpSock) :
    Spends tsk.sndWnd (firstLen tsk.sendBuf) tsk.retransSendBufferPacket.1 tsk.retransSendBufferPacket.2 := by
  unfold retransSendBufferPacket
  cases hbuf : tsk.sendBuf with
  | nil => exact .nothing rfl (by simp)
  | cons first rest => exact ⟨rfl, fun n => by simp [firstLen]⟩

theorem spends_again {result : TcpSock × List Packet} {again : Bool} (h : SendsAgain tsk again result) :
    Spends tsk.sndWnd (if again then firstLen tsk.sendBuf else 0) result.1 result.2 := by
  have hretrans := retrans_spends tsk
  cases again with
  | true => exact ⟨h.sndWnd.trans hretrans.sndWnd, fun n => by rw [h.sent]; exact hretrans.fits n⟩
  | false => exact .nothing h.sndWnd (fun packet hp => by rw [h.sent] at hp; cases hp)

theorem writeLoop_spends (tsk : TcpSock) (buf : List U8) :
    Spends tsk.sndWnd (min mss buf.length) (tsk.writeLoop buf).1 (tsk.writeLoop buf).2.2 := by
  unfold writeLoop
  split
  · rename_i hbuf
    rw [hbuf]
    exact .nothing rfl (by simp)
  · refine ⟨?_, fun n => ?_⟩
    · show (sendPacket tsk (buf.take mss)).1.sndWnd = _
      rw [sendPacket, updateRetransTimer_sndWnd, List.length_take]
    · simp [sendPacket, packet]

/-- A scan sends the first entry again where it times out, and else at most a reset. -/
theorem scanRetransTimer_sent (tsk : TcpSock) :
    (tsk.timesOut = true → tsk.scanRetransTimer.2 = tsk.retransSendBufferPacket.2) ∧
      (tsk.timesOut = false → ∀ packet ∈ tsk.scanRetransTimer.2, packet.payload = []) := by
  unfold scanRetransTimer timesOut
  dsimp only
  split
  · rename_i hdue
    split
    · rename_i hlast
      refine ⟨fun h => absurd (of_decide_eq_true h).2.2 (not_lt.mpr hlast), fun _ packet hp => ?_⟩
      rw [List.mem_singleton.mp hp]
      rfl
    · rename_i hlast
      rw [decide_eq_true ⟨hdue.1, hdue.2, not_le.mp hlast⟩]
      refine ⟨fun _ => (SameSend.retrans ?_).1, fun h => Bool.noConfusion h⟩
      exact ⟨rfl, rfl, rfl, rfl⟩
  · rename_i hdue
    exact ⟨fun h => absurd ⟨(of_decide_eq_true h).1, (of_decide_eq_true h).2.1⟩ hdue, by simp⟩

/-- The socket `tcp_new_reno_process` is given. -/
def ready (tsk : TcpSock) (cb : TcpCb) : TcpSock :=
  (updateWindowSafe { tsk with rcvNxt := cb.seq, sndUna := cb.ack } cb).updateRetransTimer

theorem ready_sendBuf (tsk : TcpSock) (cb : TcpCb) : (ready tsk cb).sendBuf = tsk.sendBuf :=
  (updateRetransTimer_sendBuf _).trans (updateWindowSafe_resends _ cb).stays.1

theorem ready_newReno (tsk : TcpSock) (cb : TcpCb) : (ready tsk cb).newReno = tsk.newReno :=
  (updateRetransTimer_newReno _).trans (updateWindowSafe_newReno _ cb)

theorem processPureAck_spends (tsk : TcpSock) (cb : TcpCb) :
    Spends (window tsk (.ack cb)) (due tsk write (.ack cb)) (tsk.processPureAck cb).1
      (tsk.processPureAck cb).2 := by
  have hspends := spends_again (newRenoProcess_recovers (ready tsk cb) cb).again
  have hadvances : (ready tsk cb).advances cb.ack = tsk.advances cb.ack := by
    simp only [advances, deleteSendBufferEntry, ready_sendBuf]
  have hleft : ((ready tsk cb).deleteSendBufferEntry cb.ack).2.sendBuf =
      tsk.sendBuf.filter fun entry => !lessThan32b entry.seq cb.ack := by
    rw [← ready_sendBuf tsk cb]
    rfl
  have hopened : ((ready tsk cb).deleteSendBufferEntry cb.ack).2.sndWnd = window tsk (.ack cb) :=
    updateRetransTimer_sndWnd _
  rw [ready_newReno, hadvances, hleft, hopened] at hspends
  exact hspends

theorem scanRetransTimer_spends (tsk : TcpSock) :
    Spends tsk.sndWnd (due tsk write .tick) tsk.scanRetransTimer.1 tsk.scanRetransTimer.2 := by
  have hwnd := tsk.scanRetransTimer_newReno.2
  have hsent := scanRetransTimer_sent tsk
  simp only [due]
  cases hout : tsk.timesOut with
  | true =>
    rw [hout] at hwnd
    exact spends_again ⟨hsent.1 hout, hwnd⟩
  | false =>
    rw [hout] at hwnd
    exact .nothing hwnd (hsent.2 hout)

/-- Every event takes off the window what it is due to send. -/
theorem act_spends (h : act tsk write e = some (tsk', write', sent)) :
    Spends (window tsk e) (due tsk write e) tsk' sent := by
  cases e with
  | write buf =>
    simp only [act] at h
    split at h
    · have hloop := writeLoop_spends tsk.setRetransTimer buf
      rwa [setRetransTimer_sndWnd, show tsk.setRetransTimer.writeLoop buf = _ from Option.some.inj h] at hloop
    · cases h
  | resume =>
    cases write with
    | idle => cases h
    | drain =>
      simp only [act, writeResume] at h
      split at h
      · cases h
        exact .nothing rfl (by simp)
      · cases h
    | gate rest =>
      simp only [act, writeResume] at h
      split at h
      · cases h
      · rename_i hopen
        have hloop := writeLoop_spends tsk rest
        rw [Option.some.inj h] at hloop
        simp only [due, if_neg hopen]
        exact hloop
  | ack cb =>
    cases h
    exact processPureAck_spends tsk cb
  | tick =>
    cases h
    exact scanRetransTimer_spends tsk

/-! ### The account -/

/-- `snd_wnd` is what is left of the window granted last. -/
def Balanced (s : Windowed) : Prop := s.tsk.sndWnd.toNat + s.charged = s.granted

variable {s t : Windowed}

theorem updateWindow_sndWnd (tsk : TcpSock) (cb : TcpCb) :
    (tsk.updateWindow cb).sndWnd = truncU32 (min (toFloat cb.rwnd.toNat) (toFloat (tsk.cwnd * mss))) := by
  rw [min_def_lt]
  rfl

/-- `snd_una` is `cb->ack` by the time the ACK is checked against it, so only `snd_nxt` keeps
a window from being taken. -/
theorem window_ack (tsk : TcpSock) (cb : TcpCb) :
    window tsk (.ack cb) =
      if grants tsk (.ack cb) then (tsk.updateWindow cb).sndWnd else tsk.sndWnd := by
  have hself : lessOrEqual32b cb.ack cb.ack = true := by simp [lessOrEqual32b, Serial.le]
  rw [window, updateWindowSafe, hself, Bool.true_and, grants]
  cases lessOrEqual32b cb.ack tsk.sndNxt <;> rfl

theorem Balanced.opened (h : Balanced s) (e : WindowEvent) :
    (window s.tsk e).toNat + (if grants s.tsk e then 0 else s.charged) = s.grantedBy e := by
  cases e with
  | write buf => exact h
  | resume => exact h
  | tick => exact h
  | ack cb =>
    rw [window_ack, grantedBy, ← updateWindow_sndWnd]
    cases grants s.tsk (.ack cb) with
    | true => rfl
    | false => exact h

theorem fits_iff (h : Balanced s) (e : WindowEvent) : Fits s e ↔ Covered s e := by
  have hwindow := h.opened e
  cases hact : act s.tsk s.write e with
  | none => exact iff_of_true (by simp [Fits, hact]) (by simp [Covered, hact])
  | some result =>
    obtain ⟨tsk', write', sent⟩ := result
    have hspends := (act_spends hact).fits (window s.tsk e).toNat
    have hdue : due s.tsk s.write e ≤ (window s.tsk e).toNat ↔ s.chargedBy e ≤ s.grantedBy e := by
      rw [chargedBy]
      omega
    have hsent : Fits s e ↔ ∀ packet ∈ sent, packet.payload.length ≤ (window s.tsk e).toNat := by
      constructor
      · exact fun hfits => hfits _ _ _ hact
      · intro hsent tsk write sent' heq
        cases hact.symm.trans heq
        exact hsent
    rw [hsent, hspends, hdue, Covered, hact]
    exact ⟨fun h _ => h, fun h => h rfl⟩

theorem Balanced.step (h : Balanced s) (hfits : Fits s e) (hstep : Step s e t) : Balanced t := by
  obtain ⟨⟨sent, hact⟩, hgranted, hcharged⟩ := hstep
  have hwindow := h.opened e
  have hspends := act_spends hact
  have hdue := (hspends.fits _).mp (hfits _ _ _ hact)
  have hleft : t.tsk.sndWnd.toNat = (window s.tsk e).toNat - due s.tsk s.write e := by
    have hsmall : due s.tsk s.write e < 2 ^ 32 := lt_of_le_of_lt hdue (window s.tsk e).isLt
    have hlen : (BitVec.ofNat 32 (due s.tsk s.write e)).toNat = due s.tsk s.write e := by
      rw [BitVec.toNat_ofNat, Nat.mod_eq_of_lt hsmall]
    rw [hspends.sndWnd, BitVec.toNat_sub_of_le, hlen]
    rw [BitVec.le_def, hlen]
    exact hdue
  rw [Balanced, hgranted, hcharged, hleft, chargedBy]
  omega

/-- **The window never runs below zero** exactly along the runs in which, at every event, the
window granted last covers the bytes sent and sent again since. -/
theorem window_fits_iff (tsk : TcpSock) (es : List WindowEvent) :
    Along Step Fits (start tsk) es ↔ Along Step Covered (start tsk) es := by
  have hstart : Balanced (start tsk) := Nat.add_zero _
  have hkeep : ∀ s e t, Balanced s → Covered s e → Step s e t → Balanced t :=
    fun s e t h hcovered hstep => h.step ((fits_iff h e).mpr hcovered) hstep
  exact along_iff hkeep (fun s e h => fits_iff h e) hstart es

/-! ### A window of nothing -/

theorem roundEven_nonneg {q : ℚ} (h : 0 ≤ q) : 0 ≤ roundEven q := by
  have hfloor : 0 ≤ ⌊q⌋ := Int.floor_nonneg.mpr h
  unfold roundEven
  dsimp only
  split <;> omega

theorem toFloat_nonneg {q : ℚ} (h : 0 ≤ q) : 0 ≤ toFloat q := by
  unfold toFloat roundTo
  split
  · exact le_rfl
  · dsimp only
    have hulp : (0 : ℚ) ≤ 2 ^ (Int.log 2 |q| + 1 - ((24 : ℕ) : ℤ)) := zpow_nonneg (by norm_num) _
    have hround := roundEven_nonneg (div_nonneg h hulp)
    exact mul_nonneg (by exact_mod_cast hround) hulp

/-- An ACK that advertises nothing leaves nothing. -/
theorem updateWindow_zero {cb : TcpCb} (hcwnd : 0 ≤ tsk.cwnd) (hrwnd : cb.rwnd = 0) :
    (tsk.updateWindow cb).sndWnd = 0 := by
  have hwindow : 0 ≤ toFloat (tsk.cwnd * mss) := toFloat_nonneg (mul_nonneg hcwnd (Nat.cast_nonneg _))
  have hzero : toFloat cb.rwnd.toNat = 0 := by simp [hrwnd, toFloat, roundTo]
  rw [updateWindow_sndWnd, hzero, min_eq_left hwindow]
  rfl

/-- An established connection, and an ACK that advertises nothing. -/
def fresh : TcpSock := { allocTcpSock with state := .established }
def closing : TcpCb := ⟨0, 0, 0, 0, 0, 0, 0, 0, tcpAck, []⟩

/-- The first byte written after that ACK is sent into a window of nothing. -/
theorem window_overrun : ¬ Along Step Fits (start fresh) [.ack closing, .write [7]] := by
  intro h
  have hclosed : (fresh.processPureAck closing).1.sndWnd = 0 := by
    have hspends : Spends _ (due fresh .idle (.ack closing)) _ _ := processPureAck_spends fresh closing
    rw [hspends.sndWnd, window_ack,
      if_pos (show grants fresh (.ack closing) = true by decide),
      updateWindow_zero (show (0 : ℚ) ≤ 1 by norm_num) rfl]
    decide
  have hack : Step (start fresh) (.ack closing) ⟨(fresh.processPureAck closing).1, .idle,
      (start fresh).grantedBy (.ack closing), (start fresh).chargedBy (.ack closing)⟩ :=
    ⟨⟨_, rfl⟩, rfl, rfl⟩
  obtain ⟨hfits, -⟩ := h.2 _ hack
  have hsent := hfits _ _ _ rfl _ (List.mem_singleton_self _)
  rw [window, hclosed] at hsent
  exact absurd hsent (by decide)

end Windowed

end NetStack.Tcp
