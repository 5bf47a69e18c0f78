import NetStack.Tcp.Process
import NetStack.Tcp.Stack

/-! Moves on an acknowledgement (`tcp_process`).

Four moves of a connection wait for the peer to acknowledge a SYN or FIN. What
`tcp_process` tests before each of them is the segment's flags, for three of them
`is_tcp_seq_valid`, and for a child the room in its parent's queue: `Accepts`. It never
compares the acknowledgement number with `snd_nxt`, as `tcp_update_window_safe` does, so a
move is earned just where the segments that pass those tests happen to carry it
(`moves_earned_iff`). -/
namespace NetStack.Tcp

/-- The segment took the socket from `TCP_SYN_SENT` to `TCP_ESTABLISHED`, a child in
`TCP_SYN_RECV` to the accept queue, the socket from `TCP_FIN_WAIT_1` to `TCP_FIN_WAIT_2`,
from which the same call may go on to `TCP_TIME_WAIT`, or from `TCP_LAST_ACK` to
`TCP_CLOSED`. -/
def Moves (tsk : TcpSock) (outcome : Outcome) : Prop :=
  match tsk.state with
  | .synSent => outcome.tsk.state = .established
  | .synRecv => outcome.acceptEnqueue = true
  | .finWait1 => outcome.tsk.state = .finWait2 ∨ outcome.tsk.state = .timeWait
  | .lastAck => outcome.tsk.state = .closed
  | _ => False

/-- What `tcp_process` tests before these moves. A reset closes a socket in
`TCP_LAST_ACK` too. -/
def Accepts (parent : Option TcpSock) (tsk : TcpSock) (cb : TcpCb) : Prop :=
  match tsk.state with
  | .synSent => hasFlag cb.flags tcpRst = false ∧
      cb.flags &&& (tcpSyn ||| tcpAck) = tcpSyn ||| tcpAck
  | .synRecv => hasFlag cb.flags tcpRst = false ∧ hasFlag cb.flags tcpAck = true ∧
      tsk.isTcpSeqValid cb = true ∧ ∃ p ∈ parent, p.acceptQueueFull = false
  | .finWait1 => hasFlag cb.flags tcpRst = false ∧ hasFlag cb.flags tcpAck = true ∧
      tsk.isTcpSeqValid cb = true
  | .lastAck => hasFlag cb.flags tcpRst = true ∨
      hasFlag cb.flags tcpAck = true ∧ tsk.isTcpSeqValid cb = true
  | _ => False

section
variable {now : Int} {self : Nat} {iss : U32} {parent : Option TcpSock} {sleeps : List (List Nat)}
  {tsk : TcpSock} {cb : TcpCb} {outcome : Outcome}

theorem processSynSent_moves (hstate : tsk.state = .synSent) :
    (tsk.processSynSent cb).tsk.state = .established ↔
      cb.flags &&& (tcpSyn ||| tcpAck) = tcpSyn ||| tcpAck := by
  unfold TcpSock.processSynSent
  split
  · rename_i hflags
    refine iff_of_true ?_ hflags
    exact (TcpSock.sendControlPacket_fields _ tcpAck).1
  · rename_i hflags
    refine iff_of_false ?_ hflags
    simp [TcpSock.only, hstate]

theorem processSynRecv_moves (h : tsk.processSynRecv parent cb = some outcome) :
    outcome.acceptEnqueue = true ↔
      hasFlag cb.flags tcpAck = true ∧ tsk.isTcpSeqValid cb = true ∧ ∃ p ∈ parent, p.acceptQueueFull = false := by
  unfold TcpSock.processSynRecv at h
  split at h
  · rename_i hack
    cases parent with
    | none => cases h
    | some p =>
      simp only [Bool.or_eq_true, Bool.not_eq_true'] at h
      split at h
      · rename_i hrefused
        cases h
        apply iff_of_false (by simp [TcpSock.only])
        intro hyp
        obtain ⟨-, hvalid, q, hq, hfull⟩ := hyp
        cases hq
        cases hrefused with
        | inl hrefused => simp [hrefused] at hfull
        | inr hrefused => simp [hrefused] at hvalid
      · rename_i hopen
        cases h
        simp only [not_or, Bool.not_eq_true, Bool.not_eq_false] at hopen
        exact iff_of_true rfl ⟨hack, hopen.2, p, rfl, hopen.1⟩
  · rename_i hack
    cases h
    exact iff_of_false (by simp [TcpSock.only]) fun hyp => hack hyp.1

theorem processFinWait2_state (hstate : tsk.state = .finWait2) :
    (tsk.processFinWait2 now cb).tsk.state = .finWait2 ∨
      (tsk.processFinWait2 now cb).tsk.state = .timeWait := by
  unfold TcpSock.processFinWait2
  split
  · exact .inr rfl
  · exact .inl hstate

theorem processFinWait1_moves (hstate : tsk.state = .finWait1) :
    ((tsk.processFinWait1 now cb).tsk.state = .finWait2 ∨
        (tsk.processFinWait1 now cb).tsk.state = .timeWait) ↔
      hasFlag cb.flags tcpAck = true ∧ tsk.isTcpSeqValid cb = true := by
  unfold TcpSock.processFinWait1
  simp only [Bool.and_eq_true]
  split
  · rename_i hpass
    exact iff_of_true (processFinWait2_state rfl) hpass
  · rename_i hpass
    refine iff_of_false ?_ hpass
    simp [TcpSock.only, hstate]

theorem processLastAck_moves (hstate : tsk.state = .lastAck) :
    (tsk.processLastAck cb).tsk.state = .closed ↔
      hasFlag cb.flags tcpAck = true ∧ tsk.isTcpSeqValid cb = true := by
  unfold TcpSock.processLastAck
  simp only [Bool.and_eq_true]
  split
  · rename_i hpass
    exact iff_of_true rfl hpass
  · rename_i hpass
    refine iff_of_false ?_ hpass
    simp [TcpSock.only, hstate]

/-- A reset leaves no move but the one to `TCP_CLOSED`. -/
theorem sockClose_moves : Moves tsk tsk.sockClose ↔ tsk.state = .lastAck := by
  unfold Moves TcpSock.sockClose
  cases hstate : tsk.state <;> simp [TcpSock.only]

/-- The moves are made on exactly what the tests accept. -/
theorem tcpProcess_moves (h : tcpProcess now self iss parent sleeps tsk cb = some outcome) :
    Moves tsk outcome ↔ Accepts parent tsk cb := by
  unfold tcpProcess at h
  split at h
  · rename_i hrst
    cases h
    rw [sockClose_moves]
    unfold Accepts
    cases tsk.state <;> simp [hrst]
  · rename_i hrst
    have hrst : hasFlag cb.flags tcpRst = false := Bool.eq_false_of_not_eq_true hrst
    unfold Moves Accepts
    split at h <;> rename_i hstate <;> simp only [hstate, hrst]
    · cases h
      simpa using processSynSent_moves hstate
    · simpa using processSynRecv_moves h
    · cases h
      simpa using processLastAck_moves hstate
    · cases h
      simpa using processFinWait1_moves hstate

/-- What the tests accept, `tcp_process` returns from. -/
theorem tcpProcess_of_accepts (h : Accepts parent tsk cb) :
    ∃ outcome, tcpProcess now self iss parent sleeps tsk cb = some outcome := by
  unfold tcpProcess
  split
  · exact ⟨_, rfl⟩
  · unfold Accepts at h
    cases hstate : tsk.state <;> simp only [hstate] at h ⊢ <;> try exact ⟨_, rfl⟩
    · obtain ⟨-, hack, hvalid, p, hp, hfull⟩ := h
      cases hp
      simp [TcpSock.processSynRecv, hack, hvalid, hfull]

end

namespace Stack

/-- Each of the moves a packet makes comes with the number that acknowledges all the
socket has sent, its SYN or FIN included. -/
def Earned (s : Stack) : Event → Prop
  | .packet now iss sleeps packet =>
    ∀ id tsk parent outcome, s.handler packet = some (id, tsk, parent) →
      tcpProcess now id iss parent sleeps tsk (tcpCbInit packet) = some outcome →
      Moves tsk outcome → (tcpCbInit packet).ack = tsk.sndNxt
  | _ => True

/-- A packet that passes the tests carries that number. -/
def Acknowledges (s : Stack) : Event → Prop
  | .packet _ _ _ packet =>
    ∀ id tsk parent, s.handler packet = some (id, tsk, parent) →
      Accepts parent tsk (tcpCbInit packet) → (tcpCbInit packet).ack = tsk.sndNxt
  | _ => True

theorem earned_iff (s : Stack) (e : Event) : Earned s e ↔ Acknowledges s e := by
  cases e with
  | packet now iss sleeps packet =>
    constructor
    · intro hyp id tsk parent hhandler haccepts
      obtain ⟨outcome, hout⟩ := tcpProcess_of_accepts haccepts
      exact hyp id tsk parent outcome hhandler hout ((tcpProcess_moves hout).mpr haccepts)
    · intro hyp id tsk parent outcome hhandler hout hmoves
      exact hyp id tsk parent hhandler ((tcpProcess_moves hout).mp hmoves)
  | _ => exact Iff.rfl

/-- **Moves on an acknowledgement are earned** along a run of a host exactly when every
packet that passes the tests in front of them acknowledges `snd_nxt`. -/
theorem moves_earned_iff (events : List Event) :
    Along Step Earned empty events ↔ Along Step Acknowledges empty events :=
  along_iff (fun (_ : Stack) _ _ (_ : True) _ _ => trivial) (fun s e _ => earned_iff s e) trivial events

/-- A client whose SYN is answered by a SYN and ACK for some other connection attempt. -/
theorem wrong_ack_establishes : ¬ Along Step Earned empty
    [.alloc, .connect 0 ⟨1, 12345, 2, 80⟩,
      .packet 0 0 [] ⟨2, 1, 80, 12345, 500, 7, tcpSyn ||| tcpAck, 65535, []⟩] := by
  intro h
  have hack := ((h.2 _ rfl).2 _ rfl).1 0 _ _ _ rfl rfl rfl
  exact absurd hack (by decide)

end Stack

end NetStack.Tcp
