import NetStack.Tcp.Host
import NetStack.Tcp.Process

/-! What a call leaves of a socket's bookkeeping.

Its addresses, reference count, parent and accept queue are no call's own business: they
change only where the host links the socket somewhere or takes it off (`Placed`). A call
that ends in `TCP_CLOSED` takes the socket off its table, and no other call does
(`Settled`). -/
namespace NetStack.Tcp

/-- The fields by which the host keeps the socket are unchanged. -/
structure Placed (tsk tsk' : TcpSock) : Prop where
  addr : tsk'.addr = tsk.addr
  refCnt : tsk'.refCnt = tsk.refCnt
  parent : tsk'.parent = tsk.parent
  acceptQueue : tsk'.acceptQueue = tsk.acceptQueue

theorem Placed.rfl {tsk : TcpSock} : Placed tsk tsk := ⟨.refl _, .refl _, .refl _, .refl _⟩

theorem Placed.trans {a b c : TcpSock} (hab : Placed a b) (hbc : Placed b c) : Placed a c where
  addr := hbc.addr.trans hab.addr
  refCnt := hbc.refCnt.trans hab.refCnt
  parent := hbc.parent.trans hab.parent
  acceptQueue := hbc.acceptQueue.trans hab.acceptQueue

/-- `Placed.trans`, the last step first. -/
theorem Placed.after {a b c : TcpSock} (hbc : Placed b c) (hab : Placed a b) : Placed a c := hab.trans hbc

theorem SendOnly.placed {tsk tsk' : TcpSock} (h : SendOnly tsk tsk') : Placed tsk tsk' := by
  unfold SendOnly at h
  rw [h]
  exact ⟨rfl, rfl, rfl, rfl⟩

theorem RecvOnly.placed {tsk tsk' : TcpSock} (h : RecvOnly tsk tsk') : Placed tsk tsk' := by
  unfold RecvOnly at h
  rw [h]
  exact ⟨rfl, rfl, rfl, rfl⟩

/-- The socket's place is kept, and it leaves its table when it closes. -/
structure Settled (tsk : TcpSock) (outcome : Outcome) : Prop where
  placed : Placed tsk outcome.tsk
  closed : outcome.unhash = true → outcome.tsk.state = .closed ∧ tsk.state ≠ .closed
  kept : outcome.unhash = false → (outcome.tsk.state = .closed ↔ tsk.state = .closed)

namespace TcpSock

variable {now : Int} {self : Nat} {iss : U32} {parent : Option TcpSock} {sleeps : List (List Nat)}
  {tsk tsk' : TcpSock} {cb : TcpCb} {outcome : Outcome}

theorem setRetransTimer_placed (tsk : TcpSock) : Placed tsk tsk.setRetransTimer := by
  rw [setRetransTimer_eq]
  exact ⟨rfl, rfl, rfl, rfl⟩

theorem control_placed (tsk : TcpSock) (flags : U8) : Placed tsk (tsk.control flags).1 := by
  unfold control sendControlPacket
  dsimp only
  split <;> split <;> (try rw [updateRetransTimer_eq]) <;> exact ⟨rfl, rfl, rfl, rfl⟩

theorem control_state (tsk : TcpSock) (flags : U8) : (tsk.control flags).1.state = tsk.state :=
  (tsk.sendControlPacket_fields flags).1

/-- A call that only moves the socket between open states. -/
theorem settled_only {result : TcpSock × List Packet} (hplaced : Placed tsk result.1)
    (hstate : result.1.state = .closed ↔ tsk.state = .closed) : Settled tsk (only result) :=
  ⟨hplaced, fun h => (nomatch h), fun _ => hstate⟩

theorem settled_same : Settled tsk (only (tsk, [])) := settled_only .rfl .rfl

theorem sockClose_settled (tsk : TcpSock) : Settled tsk tsk.sockClose := by
  have hfin := fun tsk : TcpSock => (tsk.setRetransTimer_placed).trans
    (tsk.setRetransTimer.control_placed (tcpFin ||| tcpAck))
  unfold sockClose
  split
  · rename_i hstate
    refine settled_only ((hfin tsk).trans ⟨rfl, rfl, rfl, rfl⟩) ?_
    rw [hstate]
    simp
  · rename_i hstate
    refine settled_only ((hfin { tsk with state := .finWait1 }).after ⟨rfl, rfl, rfl, rfl⟩) ?_
    rw [control_state, setRetransTimer_eq, hstate]
    simp
  · exact settled_same
  · rename_i hopen
    exact ⟨⟨rfl, rfl, rfl, rfl⟩, fun _ => ⟨rfl, hopen⟩, fun h => (nomatch h)⟩

theorem processListen_settled (hstate : tsk.state = .listen) :
    Settled tsk (tsk.processListen self iss cb) := by
  unfold processListen
  split
  · exact ⟨⟨rfl, rfl, rfl, rfl⟩, fun h => (nomatch h), fun _ => by simp [only, hstate]⟩
  · exact settled_same

theorem processSynSent_settled (hstate : tsk.state = .synSent) : Settled tsk (tsk.processSynSent cb) := by
  unfold processSynSent
  split
  · refine settled_only ((control_placed _ tcpAck).after ⟨rfl, rfl, rfl, rfl⟩) ?_
    rw [control_state, hstate]
    simp
  · exact settled_same

theorem processSynRecv_settled (h : tsk.processSynRecv parent cb = some outcome) :
    Settled tsk outcome := by
  unfold processSynRecv at h
  split at h
  · split at h
    · cases h
    · split at h <;> cases h
      · exact settled_same
      · exact ⟨⟨rfl, rfl, rfl, rfl⟩, fun h => (nomatch h), fun _ => .rfl⟩
  · cases h
    exact settled_same

theorem processEstablished_settled (hstate : tsk.state = .established)
    (h : tsk.processEstablished sleeps cb = some outcome) : Settled tsk outcome := by
  unfold processEstablished at h
  split at h
  · split at h <;> cases h
    · refine settled_only ((control_placed _ tcpAck).after ⟨rfl, rfl, rfl, rfl⟩) ?_
      rw [control_state, hstate]
      simp
    · exact settled_same
  · split at h
    · split at h
      · cases h
        have honly := (tsk.processPureAck_acked cb).only
        refine settled_only (honly.placed.after ⟨rfl, rfl, rfl, rfl⟩) ?_
        rw [honly.fields.2.2.2.1]
      · unfold processData at h
        split at h
        · cases h
        · rename_i rx hrx
          cases h
          have honly : RecvOnly tsk rx.tsk := (Rx.handleRecvData_frame hrx).tsk
          refine ⟨honly.placed, fun h => (nomatch h), fun _ => ?_⟩
          show rx.tsk.state = .closed ↔ _
          unfold RecvOnly at honly
          rw [honly]
    · cases h
      exact settled_same

theorem processLastAck_settled (hstate : tsk.state = .lastAck) : Settled tsk (tsk.processLastAck cb) := by
  unfold processLastAck
  split
  · exact ⟨⟨rfl, rfl, rfl, rfl⟩, fun _ => ⟨rfl, by simp [hstate]⟩, fun h => (nomatch h)⟩
  · exact settled_same

theorem processFinWait2_settled (hstate : tsk.state = .finWait2) :
    Settled tsk (tsk.processFinWait2 now cb) := by
  unfold processFinWait2
  split
  · refine settled_only (Placed.trans ((control_placed _ tcpAck).after ⟨rfl, rfl, rfl, rfl⟩)
      ⟨rfl, rfl, rfl, rfl⟩) ?_
    simp [setTimewaitTimer, hstate]
  · exact settled_same

theorem processFinWait1_settled (hstate : tsk.state = .finWait1) :
    Settled tsk (tsk.processFinWait1 now cb) := by
  unfold processFinWait1
  split
  · have hsettled : Settled _ (processFinWait2 now
        { (tsk.deleteSendBufferEntry cb.ack).2 with state := .finWait2 } cb) :=
      processFinWait2_settled rfl
    refine ⟨hsettled.placed.after ⟨rfl, rfl, rfl, rfl⟩, ?_, ?_⟩
    · exact fun hunhash => ⟨(hsettled.closed hunhash).1, by simp [hstate]⟩
    · intro hkept
      rw [hsettled.kept hkept, hstate]
      simp
  · exact settled_same

end TcpSock

open TcpSock in
theorem tcpProcess_settled {now : Int} {self : Nat} {iss : U32} {parent : Option TcpSock}
    {sleeps : List (List Nat)} {tsk : TcpSock} {cb : TcpCb} {outcome : Outcome}
    (h : tcpProcess now self iss parent sleeps tsk cb = some outcome) : Settled tsk outcome := by
  unfold tcpProcess at h
  split at h
  · cases h
    exact tsk.sockClose_settled
  · split at h <;> rename_i hstate
    · cases h
      exact processListen_settled hstate
    · cases h
      exact processSynSent_settled hstate
    · exact processSynRecv_settled h
    · exact processEstablished_settled hstate h
    · cases h
      exact processLastAck_settled hstate
    · cases h
      exact processFinWait1_settled hstate
    · cases h
      exact processFinWait2_settled hstate
    all_goals
      cases h
      exact settled_same

/-! ### Calls that touch neither place nor state -/

/-- The socket's place and its state are kept. -/
structure Steady (tsk tsk' : TcpSock) : Prop where
  placed : Placed tsk tsk'
  state : tsk'.state = tsk.state

theorem Steady.trans {a b c : TcpSock} (hab : Steady a b) (hbc : Steady b c) : Steady a c :=
  ⟨hab.placed.trans hbc.placed, hbc.state.trans hab.state⟩

namespace TcpSock

theorem setRetransTimer_steady (tsk : TcpSock) : Steady tsk tsk.setRetransTimer :=
  ⟨tsk.setRetransTimer_placed, by rw [setRetransTimer_eq]⟩

theorem sendPacket_steady (tsk : TcpSock) (payload : List U8) : Steady tsk (tsk.sendPacket payload).1 := by
  unfold sendPacket
  dsimp only
  rw [updateRetransTimer_eq]
  exact ⟨⟨rfl, rfl, rfl, rfl⟩, rfl⟩

theorem writeLoop_steady (tsk : TcpSock) (buf : List U8) : Steady tsk (tsk.writeLoop buf).1 := by
  unfold writeLoop
  split
  · exact ⟨.rfl, rfl⟩
  · exact tsk.sendPacket_steady _

theorem sockWrite_steady (tsk : TcpSock) (buf : List U8) : Steady tsk (tsk.sockWrite buf).1 :=
  tsk.setRetransTimer_steady.trans (tsk.setRetransTimer.writeLoop_steady buf)

theorem writeResume_steady {tsk : TcpSock} {state : WriteState}
    {result : TcpSock × WriteState × List Packet} (h : tsk.writeResume state = some result) :
    Steady tsk result.1 := by
  unfold writeResume at h
  split at h
  · cases h
  · split at h <;> cases h
    exact tsk.writeLoop_steady _
  · split at h <;> cases h
    exact ⟨.rfl, rfl⟩

theorem sockRead_steady {tsk tsk' : TcpSock} {len : Nat} {out : List U8}
    (h : tsk.sockRead len = some (out, tsk')) : Steady tsk tsk' := by
  unfold sockRead at h
  split at h <;> cases h
  exact ⟨⟨rfl, rfl, rfl, rfl⟩, rfl⟩

/-- The eighth timeout in a row is over, and the socket is not closed yet. -/
def GivesUp (tsk : TcpSock) : Prop :=
  tsk.retransTimer.timeout - tcpRetransScanInterval ≤ 0 ∧ tsk.state ≠ .closed ∧
    tsk.retransTimer.retransTime ≥ 8

/-- A retransmission timeout keeps the place, and the state unless it gives up. -/
theorem scanRetransTimer_placed (tsk : TcpSock) :
    Placed tsk tsk.scanRetransTimer.1 ∧ (tsk.GivesUp → tsk.scanRetransTimer.1.state = .closed) ∧
      (¬ tsk.GivesUp → tsk.scanRetransTimer.1.state = tsk.state) := by
  unfold scanRetransTimer GivesUp
  dsimp only
  split
  · rename_i hdue
    split
    · rename_i htime
      refine ⟨(control_placed _ tcpRst).after ⟨rfl, rfl, rfl, rfl⟩, fun _ => ?_, fun hyp => ?_⟩
      · exact control_state _ tcpRst
      · exact absurd ⟨hdue.1, hdue.2, htime⟩ hyp
    · rename_i htime
      have honly := (retransSendBufferPacket_acked { tsk with
        ssthresh := halfCwnd { tsk with retransTimer := { tsk.retransTimer with
          timeout := tsk.retransTimer.timeout - tcpRetransScanInterval } }
        cwnd := 1
        nrState := .loss
        lossPoint := tsk.sndNxt
        retransTimer := { tsk.retransTimer with
          retransTime := tsk.retransTimer.retransTime + 1
          timeout := tcpRetransIntervalInitial * (2 * 2 ^ (tsk.retransTimer.retransTime + 1).toNat) } }).only
      refine ⟨honly.placed.after ⟨rfl, rfl, rfl, rfl⟩, fun hyp => absurd hyp.2.2 htime, fun _ => ?_⟩
      exact honly.fields.2.2.2.1
  · rename_i hdue
    exact ⟨⟨rfl, rfl, rfl, rfl⟩, fun hyp => absurd ⟨hyp.1, hyp.2.1⟩ hdue, fun _ => rfl⟩

end TcpSock

end NetStack.Tcp
