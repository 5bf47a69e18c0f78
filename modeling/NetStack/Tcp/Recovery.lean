import NetStack.Tcp.Duplicates

/-! When recovery ends.

`recovery_point` and `loss_point` are the `snd_nxt` of the step that began recovery or
loss. A new ACK ends either one if it is not below that point, compared as plain numbers:
that is the serial order exactly while the two are less than half the range apart as
numbers, too, which a transfer of more than 2^32 bytes does not keep. -/
namespace NetStack.Tcp
open TcpSock NrEvent

/-- In serial order the ACK covers everything before `point`. -/
def Covers (number point : U32) : Prop := lessThan32b number point = false

instance (number point : U32) : Decidable (Covers number point) := by
  unfold Covers
  infer_instance

/-- The numbers are in their serial order, on one side of the wrap-around. -/
def Unwrapped (number point : U32) : Prop :=
  -2 ^ 31 ≤ (number.toNat : Int) - point.toNat ∧ (number.toNat : Int) - point.toNat < 2 ^ 31

instance (number point : U32) : Decidable (Unwrapped number point) := by
  unfold Unwrapped
  infer_instance

theorem le_iff_covers (number point : U32) :
    (point ≤ number ↔ Covers number point) ↔ Unwrapped number point := by
  have hdiff : (number - point).toInt = ((number.toNat : Int) - point.toNat).bmod (2 ^ 32) := by
    rw [BitVec.toInt_sub, BitVec.toInt_eq_toNat_bmod, BitVec.toInt_eq_toNat_bmod]
    simp only [Int.sub_bmod_bmod, Int.bmod_sub_bmod]
  have hnumber := number.isLt
  have hpoint := point.isLt
  have hcovers : Covers number point ↔ 0 ≤ ((number.toNat : Int) - point.toNat).bmod (2 ^ 32) := by
    rw [Covers, lessThan32b, Serial.lt, decide_eq_false_iff_not, not_lt, hdiff]
  rw [hcovers, Unwrapped, BitVec.le_def, Int.bmod_def]
  split <;> omega

namespace NewReno

/-- The point that ends recovery or loss. -/
def point (r : NewReno) : U32 := if r.state = .recovery then r.recoveryPoint else r.lossPoint

/-- Recovery or loss is under way. -/
def UnderWay (r : NewReno) : Prop := r.state = .recovery ∨ r.state = .loss

variable {r : NewReno} {isNewAck : Bool} {number sndNxt : U32}

/-- A new ACK not below the point ends it, and no other ACK. -/
theorem ack_open_iff (h : r.UnderWay) :
    (r.ack isNewAck number sndNxt).state = .open ↔ isNewAck = true ∧ r.point ≤ number := by
  unfold ack point
  rcases h with h | h
  · cases isNewAck with
    | true =>
      simp only [h, if_true, true_and]
      split
      · rename_i hbelow
        simp [h, BitVec.not_le.mpr hbelow]
      · rename_i hnot
        simp [BitVec.not_lt.mp hnot]
    | false => simp [h]
  · cases isNewAck with
    | true =>
      simp only [h, if_neg (show TcpNrState.loss ≠ .recovery by decide), true_and]
      split
      · rename_i hcovers
        exact iff_of_true rfl hcovers
      · rename_i hnot
        exact iff_of_false (by rw [h]; decide) hnot
    | false => simp [h]

/-- A new ACK below the point has recovery send again. -/
theorem resends_of_lt (h : r.state = .recovery) (hlt : number < r.point) : r.resends true number = true := by
  rw [point, if_pos h] at hlt
  simp only [resends, h, hlt, decide_true]

/-- An ACK sets the point only where it enters recovery. -/
theorem ack_point (h : (r.ack isNewAck number sndNxt).UnderWay) :
    r.UnderWay ∧ (r.ack isNewAck number sndNxt).state = r.state ∧
        (r.ack isNewAck number sndNxt).point = r.point ∨
      r.state ≠ .recovery ∧ (r.ack isNewAck number sndNxt).state = .recovery ∧
        (r.ack isNewAck number sndNxt).point = sndNxt := by
  revert h
  unfold ack UnderWay point
  split
  case h_4 => split <;> simp_all
  case h_5 => split <;> simp_all
  case h_6 => split <;> simp_all
  all_goals simp_all

end NewReno

/-- A connection, and `snd_nxt` as it was when recovery or loss last began. -/
structure Recovering where
  sock : TcpSock
  entered : U32

namespace Recovering

/-- A timeout. -/
def BeginsLoss (s : TcpSock) : NrEvent → Prop
  | .tick => s.timesOut = true
  | .ack _ | .other _ => False

/-- The step enters `TCP_RECOVERY`, or is a timeout, which enters `TCP_LOSS`. -/
def Begins (s : TcpSock) (e : NrEvent) (t : TcpSock) : Prop := EntersRecovery s t ∨ BeginsLoss s e

def Step (w : Recovering) (e : NrEvent) (w' : Recovering) : Prop :=
  NrEvent.Step w.sock e w'.sock ∧ (Begins w.sock e w'.sock → w'.entered = w.sock.sndNxt) ∧
    (¬ Begins w.sock e w'.sock → w'.entered = w.entered)

/-- Recovery and loss end at a new ACK that covers what had been sent when they began, and
at no other event; a new ACK short of that has recovery send the first entry left again. -/
def EndsRight (w : Recovering) (e : NrEvent) : Prop :=
  w.sock.newReno.UnderWay → ∀ w', Step w e w' →
    (w'.sock.nrState = .open ↔
      ∃ cb, e = .ack cb ∧ w.sock.advances cb.ack = true ∧ Covers cb.ack w.entered) ∧
    ∀ cb, e = .ack cb → w.sock.nrState = .recovery → w.sock.advances cb.ack = true →
      ¬ Covers cb.ack w.entered →
      SendsAgain (w.sock.deleteSendBufferEntry cb.ack).2 true (w.sock.newRenoProcess cb)

/-- No new ACK during recovery or loss is across the wrap-around from where they began. -/
def Near (w : Recovering) (e : NrEvent) : Prop :=
  w.sock.newReno.UnderWay → ∀ cb, e = .ack cb → w.sock.advances cb.ack = true → Unwrapped cb.ack w.entered

/-- The point that ends recovery or loss is where it began. -/
def Recorded (w : Recovering) : Prop := w.sock.newReno.UnderWay → w.sock.newReno.point = w.entered

variable {w w' : Recovering} {e : NrEvent}

theorem Recorded.step (h : Recorded w) (hstep : Step w e w') : Recorded w' := by
  intro hway
  obtain ⟨hsock, hbegun, hon⟩ := hstep
  rcases step_newReno hsock with ⟨cb, rfl, hreno⟩ | ⟨rfl, hout, hreno⟩ | ⟨hquiet, hundisturbed, hreno⟩
  · rw [hreno] at hway ⊢
    rcases NewReno.ack_point hway with ⟨hbefore, hsame, hpoint⟩ | ⟨hnot, hentered, hpoint⟩
    · have hstate : w'.sock.nrState = w.sock.nrState := (congrArg NewReno.state hreno).trans hsame
      have hgoes : ¬ Begins w.sock (.ack cb) w'.sock := by
        intro hyp
        rcases hyp with ⟨hout, hin⟩ | hloss
        · exact hout (hstate.symm.trans hin)
        · exact hloss
      rw [hpoint, hon hgoes]
      exact h hbefore
    · have hbegins : Begins w.sock (.ack cb) w'.sock :=
        .inl ⟨hnot, (congrArg NewReno.state hreno).trans hentered⟩
      rw [hpoint, hbegun hbegins]
  · rw [hbegun (.inr hout), hreno]
    rfl
  · have hgoes : ¬ Begins w.sock e w'.sock := by
      intro hyp
      rcases hyp with ⟨hout, hin⟩ | hloss
      · exact hout ((congrArg NewReno.state hreno).symm.trans hin)
      · cases e with
        | tick => exact absurd (hundisturbed.symm.trans hloss) (by decide)
        | ack cb => exact hloss
        | other tsk => exact hloss
    rw [hreno] at hway ⊢
    rw [hon hgoes]
    exact h hway

/-- While recovery or loss is under way an ACK does not begin it. -/
theorem not_begins_ack {cb : TcpCb} {t : TcpSock} (h : w.sock.newReno.UnderWay)
    (ht : NrEvent.Step w.sock (.ack cb) t) : ¬ Begins w.sock (.ack cb) t := by
  intro hyp
  rcases hyp with ⟨hout, hin⟩ | hloss
  · have hreno : t.newReno = _ := (congrArg TcpSock.newReno ht).trans (w.sock.newRenoProcess_recovers cb).newReno
    have hdis := ((NewReno.ack_recovery_iff hout).mp ((congrArg NewReno.state hreno).symm.trans hin)).1
    rcases h with h | h
    · exact hout h
    · exact absurd (h.symm.trans hdis) (by decide)
  · exact hloss

/-- Under way, an ACK opens if it is new and not below, as a number, where that began. -/
theorem ack_opens_iff (h : Recorded w) (hway : w.sock.newReno.UnderWay) {cb : TcpCb} {t : TcpSock}
    (hreno : t.newReno = w.sock.newReno.ack (w.sock.advances cb.ack) cb.ack w.sock.sndNxt) :
    t.nrState = .open ↔ w.sock.advances cb.ack = true ∧ w.entered ≤ cb.ack := by
  rw [show t.nrState = _ from congrArg NewReno.state hreno, NewReno.ack_open_iff hway, h hway]

theorem near_of_endsRight (h : Recorded w) {e : NrEvent} (hends : EndsRight w e) : Near w e := by
  intro hway cb hsame hnew
  obtain rfl := hsame
  have hstep : Step w (.ack cb) ⟨(w.sock.newRenoProcess cb).1, w.entered⟩ :=
    ⟨rfl, fun hbegins => absurd hbegins (not_begins_ack hway rfl), fun _ => rfl⟩
  obtain ⟨hopen, -⟩ := hends hway _ hstep
  have hcode := ack_opens_iff h hway (w.sock.newRenoProcess_recovers cb).newReno
  rw [and_iff_right hnew] at hcode
  apply (le_iff_covers _ _).mp
  refine hcode.symm.trans (hopen.trans ⟨?_, fun hcovers => ⟨cb, rfl, hnew, hcovers⟩⟩)
  intro hyp
  obtain ⟨cb', heq, -, hcovers⟩ := hyp
  cases heq
  exact hcovers

theorem endsRight_ack (h : Recorded w) {cb : TcpCb} (hnear : Near w (.ack cb)) : EndsRight w (.ack cb) := by
  intro hway w' hstep
  have hrecovers := w.sock.newRenoProcess_recovers cb
  have hplain : w.sock.advances cb.ack = true → (w.entered ≤ cb.ack ↔ Covers cb.ack w.entered) :=
    fun hnew => (le_iff_covers _ _).mpr (hnear hway cb rfl hnew)
  have hcode := ack_opens_iff h hway ((congrArg TcpSock.newReno hstep.1).trans hrecovers.newReno)
  refine ⟨?_, ?_⟩
  · rw [hcode]
    constructor
    · intro hyp
      obtain ⟨hnew, hle⟩ := hyp
      exact ⟨cb, rfl, hnew, (hplain hnew).mp hle⟩
    · intro hyp
      obtain ⟨cb', heq, hnew, hcovers⟩ := hyp
      cases heq
      exact ⟨hnew, (hplain hnew).mpr hcovers⟩
  · intro cb' heq hrecovery hnew hshort
    cases heq
    have hagain := hrecovers.again
    have hlt : cb.ack < w.sock.newReno.point := by
      rw [h hway]
      exact BitVec.not_le.mp fun hle => hshort ((hplain hnew).mp hle)
    rw [hnew, NewReno.resends_of_lt hrecovery hlt] at hagain
    exact hagain

/-- Only an ACK opens a connection in recovery or loss. -/
theorem endsRight_quiet {e : NrEvent} (hquiet : isAck e = false) : EndsRight w e := by
  have hnoack : ∀ cb, e ≠ .ack cb := by
    intro cb hsame
    obtain rfl := hsame
    cases hquiet
  intro hway w' hstep
  have hclosed : w'.sock.nrState ≠ .open := by
    rcases step_newReno hstep.1 with ⟨cb, rfl, -⟩ | ⟨-, -, hreno⟩ | ⟨-, -, hreno⟩
    · exact absurd rfl (hnoack cb)
    · rw [show w'.sock.nrState = .loss from congrArg NewReno.state hreno]
      decide
    · rw [show w'.sock.nrState = w.sock.nrState from congrArg NewReno.state hreno]
      rcases hway with hway | hway
      · exact fun hopen => absurd (hopen.symm.trans hway) (by decide)
      · exact fun hopen => absurd (hopen.symm.trans hway) (by decide)
  refine ⟨iff_of_false hclosed ?_, fun cb heq => absurd heq (hnoack cb)⟩
  intro h
  obtain ⟨cb, heq, -⟩ := h
  exact hnoack cb heq

/-- One step ends recovery or loss as it should exactly if it is not across the
wrap-around. -/
theorem endsRight_iff (h : Recorded w) (e : NrEvent) : EndsRight w e ↔ Near w e := by
  refine ⟨near_of_endsRight h, fun hnear => ?_⟩
  cases e with
  | ack cb => exact endsRight_ack h hnear
  | tick => exact endsRight_quiet rfl
  | other tsk => exact endsRight_quiet rfl

/-- **Recovery and loss end at the right ACK**, over any run of a connection, exactly where
no new ACK meanwhile is across the wrap-around from where they began. -/
theorem recovery_ends_iff {sock : TcpSock} (hopen : sock.nrState = .open) (entered : U32)
    (es : List NrEvent) :
    Along Step EndsRight ⟨sock, entered⟩ es ↔ Along Step Near ⟨sock, entered⟩ es := by
  have hkeep : ∀ w e w', Recorded w → Near w e → Step w e w' → Recorded w' :=
    fun w e w' h _ hstep => h.step hstep
  have hstart : Recorded ⟨sock, entered⟩ := by
    intro hyp
    rcases hyp with hway | hway
    · exact absurd (hopen.symm.trans hway) (by decide)
    · exact absurd (hopen.symm.trans hway) (by decide)
  exact along_iff hkeep (fun w e h => endsRight_iff h e) hstart es

/-- Three segments of eight bytes. -/
def threeSent : TcpSock :=
  { allocTcpSock with
    state := .established
    sndNxt := 24
    sendBuf := [⟨0, 0, 0, 0, 0, 0, tcpAck, 0, List.replicate 8 0⟩, ⟨0, 0, 0, 0, 8, 0, tcpAck, 0, List.replicate 8 0⟩,
      ⟨0, 0, 0, 0, 16, 0, tcpAck, 0, List.replicate 8 0⟩] }

def ackOf (number : U32) : TcpCb := ⟨0, 0, 0, 0, 0, 0, number, 0, tcpAck, []⟩

/-- A timeout, an ACK of the first segment, and one of all three, which ends the loss. -/
theorem recovery_ends_threeSent : threeSent.timesOut = true ∧
    Along Step EndsRight ⟨threeSent, 0⟩ [.tick, .ack (ackOf 8), .ack (ackOf 24)] := by
  have hout : threeSent.timesOut = true := by decide
  refine ⟨hout, (recovery_ends_iff rfl 0 _).mpr ⟨fun _ cb hcb => (by cases hcb), fun w hw => ?_⟩⟩
  have hentered : w.entered = 24 := hw.2.1 (.inr hout)
  have hsent : w.sock.sndNxt = 24 := by
    rw [show w.sock = threeSent.scanRetransTimer.1 from hw.1]
    decide
  refine ⟨fun _ cb hcb _ => ?_, fun w' hw' => ⟨fun _ cb hcb _ => ?_, fun _ _ => trivial⟩⟩
  · cases hcb
    rw [hentered]
    decide
  · cases hcb
    have hentered' : w'.entered = 24 := by
      by_cases hbegins : Begins w.sock (.ack (ackOf 8)) w'.sock
      · exact (hw'.2.1 hbegins).trans hsent
      · exact (hw'.2.2 hbegins).trans hentered
    rw [hentered']
    decide

/-- Two segments, the second across the wrap-around. -/
def acrossWrap : TcpSock :=
  { allocTcpSock with
    state := .established
    sndUna := 0xfffffff0
    sndNxt := 0x00000010
    sendBuf := [⟨0, 0, 0, 0, 0xfffffff0, 0, tcpAck, 0, List.replicate 8 0⟩,
      ⟨0, 0, 0, 0, 0xfffffff8, 0, tcpAck, 0, List.replicate 24 0⟩] }

/-- An ACK of the first of them. -/
def firstAcked : TcpCb := ackOf 0xfffffff8

/-- After a timeout, the ACK of the first segment ends the loss. -/
theorem loss_ends_early : ¬ Along Step EndsRight ⟨acrossWrap, 0⟩ [.tick, .ack firstAcked] := by
  intro h
  have hloss := acrossWrap.scanRetransTimer_newReno.1
  have hout : acrossWrap.timesOut = true := by decide
  have htick : Step ⟨acrossWrap, 0⟩ .tick ⟨acrossWrap.scanRetransTimer.1, 16⟩ :=
    ⟨rfl, fun _ => rfl, fun hnot => absurd (.inr hout) hnot⟩
  have hway : acrossWrap.scanRetransTimer.1.newReno.UnderWay := by
    rw [hloss]
    exact .inr rfl
  have hack : Step ⟨acrossWrap.scanRetransTimer.1, 16⟩ (.ack firstAcked)
      ⟨(acrossWrap.scanRetransTimer.1.newRenoProcess firstAcked).1, 16⟩ :=
    ⟨rfl, fun hbegins => absurd hbegins (not_begins_ack hway rfl), fun _ => rfl⟩
  have hreno := (acrossWrap.scanRetransTimer.1.newRenoProcess_recovers firstAcked).newReno
  have hopen : (acrossWrap.scanRetransTimer.1.newRenoProcess firstAcked).1.nrState = .open := by
    refine (congrArg NewReno.state hreno).trans ((NewReno.ack_open_iff hway).mpr ⟨by decide, ?_⟩)
    rw [hloss]
    decide
  obtain ⟨cb, heq, -, hcovers⟩ := ((h.2 _ htick).1 hway _ hack).1.mp hopen
  cases heq
  revert hcovers
  decide

end Recovering

end NetStack.Tcp
