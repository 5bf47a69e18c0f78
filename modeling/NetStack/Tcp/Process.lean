import NetStack.Tcp.Acking
import NetStack.Tcp.Receiver
import NetStack.Tcp.Write

/-! What a received packet can do to a socket.

Two accounts of `tcp_process`, one for each direction of a connection. To the send side
it adds no data: what it sends is bare, or a copy of a buffered packet (`tcpProcess_quiet`).
The receive side is left alone, or `rcv_nxt` is set to the packet's number, or data is
handled, or the socket leaves the states that receive (`tcpProcess_received`). -/
namespace NetStack.Tcp

/-! ### The send side -/

/-- A packet without payload and without SYN. -/
def Bare (packet : Packet) : Prop := packet.payload = [] ∧ hasFlag packet.flags tcpSyn = false

/-- From one socket state to the next, which is no listener: nothing but bare packets has
joined the send buffer, and only bare packets and copies of buffered ones were sent. -/
structure Quiet (tsk tsk' : TcpSock) (sent : List Packet) : Prop where
  state : tsk'.state ≠ .listen
  buf : ∀ packet ∈ tsk'.sendBuf, packet ∈ tsk.sendBuf ∨ Bare packet
  sent : ∀ packet ∈ sent, Bare packet ∨ ∃ entry ∈ tsk.sendBuf, packet = { entry with ack := packet.ack }

theorem Quiet.trans {a b c : TcpSock} {sent : List Packet} (hab : Quiet a b []) (hbc : Quiet b c sent) :
    Quiet a c sent := by
  refine ⟨hbc.state, ?_, ?_⟩
  · intro packet hp
    rcases hbc.buf packet hp with hp | hp
    · exact hab.buf packet hp
    · exact .inr hp
  · intro packet hp
    rcases hbc.sent packet hp with hp | ⟨entry, he, heq⟩
    · exact .inl hp
    · rcases hab.buf entry he with he | he
      · exact .inr ⟨entry, he, heq⟩
      · left
        rw [heq]
        exact he

/-- A change that leaves the send buffer alone and does not make a listener. -/
theorem Quiet.of_sendBuf {tsk tsk' : TcpSock} (hstate : tsk'.state ≠ .listen)
    (hbuf : tsk'.sendBuf = tsk.sendBuf) : Quiet tsk tsk' [] :=
  ⟨hstate, fun _ hp => .inl (hbuf ▸ hp), by simp⟩

/-- Such a change may also come last. -/
theorem Quiet.then {a b c : TcpSock} {sent : List Packet} (hab : Quiet a b sent)
    (hstate : c.state ≠ .listen) (hbuf : c.sendBuf = b.sendBuf) : Quiet a c sent :=
  ⟨hstate, fun packet hp => hab.buf packet (hbuf ▸ hp), hab.sent⟩

theorem Acked.quiet {tsk : TcpSock} {result : TcpSock × List Packet} (h : Acked tsk result)
    (hstate : tsk.state ≠ .listen) : Quiet tsk result.1 result.2 := by
  obtain ⟨-, -, -, hst, -⟩ := h.only.fields
  exact ⟨hst ▸ hstate, fun packet hp => .inl (h.kept.subset hp), fun packet hp => .inr (h.resent packet hp)⟩

/-- Setting fields and then processing an acknowledgement. -/
theorem Acked.quiet_of {tsk tsk' : TcpSock} {result : TcpSock × List Packet} (h : Acked tsk' result)
    (hstate : tsk'.state ≠ .listen) (hbuf : tsk'.sendBuf = tsk.sendBuf) :
    Quiet tsk result.1 result.2 :=
  (Quiet.of_sendBuf hstate hbuf).trans (h.quiet hstate)

/-- The socket's place among the others is unchanged: its parent, and its accept queue. -/
def Linked (tsk tsk' : TcpSock) : Prop :=
  tsk'.parent = tsk.parent ∧ tsk'.acceptQueue = tsk.acceptQueue

namespace TcpSock

/-- What a control packet leaves unchanged. -/
theorem sendControlPacket_fields (tsk : TcpSock) (flags : U8) :
    (tsk.sendControlPacket flags).1.state = tsk.state ∧
      (tsk.sendControlPacket flags).1.rcvNxt = tsk.rcvNxt ∧
      (tsk.sendControlPacket flags).1.rcvOfoBuf = tsk.rcvOfoBuf ∧
      (tsk.sendControlPacket flags).1.rcvBuf = tsk.rcvBuf ∧
      Linked tsk (tsk.sendControlPacket flags).1 := by
  unfold sendControlPacket
  dsimp only
  split <;> split <;> (try rw [updateRetransTimer_eq]) <;> exact ⟨rfl, rfl, rfl, rfl, rfl, rfl⟩

theorem control_quiet (tsk : TcpSock) {flags : U8} (hstate : tsk.state ≠ .listen)
    (hflags : hasFlag flags tcpSyn = false) :
    Quiet tsk (tsk.control flags).1 (tsk.control flags).2 := by
  have hbare : Bare (tsk.sendControlPacket flags).2 := ⟨rfl, hflags⟩
  obtain ⟨hst, -⟩ := tsk.sendControlPacket_fields flags
  refine ⟨?_, ?_, ?_⟩
  · show (tsk.sendControlPacket flags).1.state ≠ .listen
    rwa [hst]
  · intro packet hp
    have hp : packet ∈ (tsk.sendControlPacket flags).1.sendBuf := hp
    rw [(tsk.sendControlPacket_send flags).1] at hp
    split at hp
    · rcases List.mem_append.mp hp with hp | hp
      · exact .inl hp
      · exact .inr (List.mem_singleton.mp hp ▸ hbare)
    · exact .inl hp
  · intro packet hp
    exact .inl (List.mem_singleton.mp hp ▸ hbare)

/-- Setting fields and then sending a control packet without SYN. -/
theorem control_quiet_of {tsk tsk' : TcpSock} {flags : U8} (hstate : tsk'.state ≠ .listen)
    (hbuf : tsk'.sendBuf = tsk.sendBuf) (hflags : hasFlag flags tcpSyn = false) :
    Quiet tsk (tsk'.control flags).1 (tsk'.control flags).2 :=
  (Quiet.of_sendBuf hstate hbuf).trans (tsk'.control_quiet hstate hflags)

theorem deleteSendBufferEntry_quiet {tsk tsk' : TcpSock} (ack : U32) (hstate : tsk'.state ≠ .listen)
    (hbuf : tsk'.sendBuf = tsk.sendBuf) : Quiet tsk (tsk'.deleteSendBufferEntry ack).2 [] :=
  (tsk'.deleteSendBufferEntry_acked ack).quiet_of hstate hbuf

theorem sockClose_quiet (tsk : TcpSock) : Quiet tsk tsk.sockClose.tsk tsk.sockClose.sent := by
  have hack : hasFlag (tcpFin ||| tcpAck) tcpSyn = false := by decide
  unfold sockClose
  split
  · rename_i hst
    refine Quiet.then (control_quiet_of ?_ (setRetransTimer_sendBuf tsk) hack) TcpState.noConfusion rfl
    rw [setRetransTimer_eq, hst]
    exact TcpState.noConfusion
  · refine control_quiet_of ?_ ?_ hack
    · rw [setRetransTimer_eq]
      exact TcpState.noConfusion
    · rw [setRetransTimer_eq]
  · rename_i hst
    exact .of_sendBuf (by rw [only, hst]; exact TcpState.noConfusion) rfl
  · exact .of_sendBuf TcpState.noConfusion rfl

theorem scanRetransTimer_quiet {tsk : TcpSock} (hstate : tsk.state ≠ .listen) :
    Quiet tsk tsk.scanRetransTimer.1 tsk.scanRetransTimer.2 := by
  unfold scanRetransTimer
  dsimp only
  split
  · split
    · exact control_quiet_of TcpState.noConfusion rfl (by decide)
    · refine (retransSendBufferPacket_acked _).quiet_of ?_ ?_
      · exact hstate
      · rfl
  · exact .of_sendBuf hstate rfl

theorem processFinWait2_quiet {now : Int} {tsk : TcpSock} {cb : TcpCb} (hstate : tsk.state ≠ .listen) :
    Quiet tsk (tsk.processFinWait2 now cb).tsk (tsk.processFinWait2 now cb).sent := by
  unfold processFinWait2
  split
  · exact Quiet.then (control_quiet_of hstate rfl (by decide)) TcpState.noConfusion rfl
  · exact .of_sendBuf hstate rfl

theorem processEstablished_quiet {sleeps : List (List Nat)} {tsk : TcpSock} {cb : TcpCb}
    {outcome : Outcome} (hstate : tsk.state ≠ .listen)
    (h : tsk.processEstablished sleeps cb = some outcome) : Quiet tsk outcome.tsk outcome.sent := by
  have hack : hasFlag tcpAck tcpSyn = false := by decide
  unfold processEstablished at h
  split at h
  · split at h <;> cases h
    · have hset : Quiet tsk { tsk with state := .closeWait, rcvNxt := cb.seq + 1 } [] :=
        .of_sendBuf TcpState.noConfusion rfl
      exact hset.trans (control_quiet _ TcpState.noConfusion hack)
    · exact .of_sendBuf hstate rfl
  · split at h
    · split at h
      · cases h
        exact (tsk.processPureAck_acked cb).quiet_of hstate rfl
      · unfold processData at h
        split at h
        · cases h
        · rename_i rx hrx
          cases h
          have hframe := Rx.handleRecvData_frame hrx
          obtain ⟨acks, hsent, hacks⟩ := hframe.sent
          have honly : RecvOnly tsk rx.tsk := hframe.tsk
          unfold RecvOnly at honly
          refine ⟨?_, ?_, ?_⟩
          · show rx.tsk.state ≠ .listen
            rw [honly]
            exact hstate
          · intro packet hp
            have hp : packet ∈ rx.tsk.sendBuf := hp
            rw [honly] at hp
            exact .inl hp
          · intro packet hp
            have hp : packet ∈ rx.sent := hp
            rw [hsent] at hp
            obtain ⟨hflags, hpay, -⟩ := hacks packet hp
            exact .inl ⟨hpay, by rw [hflags]; decide⟩
    · cases h
      exact .of_sendBuf hstate rfl

end TcpSock

open TcpSock in
/-- **The send side.** A packet handled by a socket that is no listener makes it no
listener, gives it no child, and adds no data to what it sends. -/
theorem tcpProcess_quiet {now : Int} {self : Nat} {iss : U32} {parent : Option TcpSock}
    {sleeps : List (List Nat)} {tsk : TcpSock} {cb : TcpCb} {outcome : Outcome}
    (hstate : tsk.state ≠ .listen)
    (h : tcpProcess now self iss parent sleeps tsk cb = some outcome) :
    Quiet tsk outcome.tsk outcome.sent := by
  have hsame : Quiet tsk tsk [] := .of_sendBuf hstate rfl
  have hack : hasFlag tcpAck tcpSyn = false := by decide
  unfold tcpProcess at h
  split at h
  · cases h
    exact tsk.sockClose_quiet
  · split at h
    · contradiction
    · cases h
      unfold processSynSent
      split
      · have hdelete : Quiet tsk
            (deleteSendBufferEntry { tsk with rcvNxt := cb.seq + 1, sndUna := cb.ack } cb.ack).2 [] :=
          deleteSendBufferEntry_quiet cb.ack hstate rfl
        have hset : Quiet tsk { (deleteSendBufferEntry { tsk with
            rcvNxt := cb.seq + 1, sndUna := cb.ack } cb.ack).2 with state := .established } [] :=
          hdelete.then TcpState.noConfusion rfl
        exact hset.trans (control_quiet _ TcpState.noConfusion hack)
      · exact hsame
    · unfold processSynRecv at h
      split at h
      · split at h
        · cases h
        · split at h <;> cases h
          · exact hsame
          · exact deleteSendBufferEntry_quiet cb.ack hstate rfl
      · cases h
        exact hsame
    · exact processEstablished_quiet hstate h
    · cases h
      unfold processLastAck
      split
      · exact (deleteSendBufferEntry_quiet cb.ack hstate rfl).then TcpState.noConfusion rfl
      · exact hsame
    · cases h
      unfold processFinWait1
      split
      · have hdelete : Quiet tsk { (tsk.deleteSendBufferEntry cb.ack).2 with state := .finWait2 } [] :=
          (deleteSendBufferEntry_quiet cb.ack hstate rfl).then TcpState.noConfusion rfl
        exact hdelete.trans (processFinWait2_quiet TcpState.noConfusion)
      · exact hsame
    · cases h
      exact processFinWait2_quiet hstate
    all_goals
      cases h
      exact hsame

/-! ### The receive side -/

/-- A state whose socket receives, or will once `tcp_sock_accept` has returned it. -/
def Receptive (state : TcpState) : Prop := state = .synRecv ∨ state = .established

/-- A state that comes after those. -/
def Ended (state : TcpState) : Prop := state ≠ .listen ∧ state ≠ .synSent ∧ ¬Receptive state

/-- The packet is taken by one of the two places that run `rcv_nxt = cb->seq`: an
acknowledgement accepted in `TCP_SYN_RECV`, or a bare one in `TCP_ESTABLISHED`. -/
def TakesSeq (parent : Option TcpSock) (tsk : TcpSock) (cb : TcpCb) : Prop :=
  hasFlag cb.flags tcpRst = false ∧ hasFlag cb.flags tcpAck = true ∧
    match tsk.state with
    | .synRecv => tsk.isTcpSeqValid cb = true ∧ ∃ p ∈ parent, p.acceptQueueFull = false
    | .established => hasFlag cb.flags tcpFin = false ∧ cb.payload = []
    | _ => False

instance (parent : Option TcpSock) (tsk : TcpSock) (cb : TcpCb) : Decidable (TakesSeq parent tsk cb) := by
  unfold TakesSeq
  split <;> infer_instance

/-- The packet goes to `handle_recv_data`. -/
def HandlesData (tsk : TcpSock) (cb : TcpCb) : Prop :=
  tsk.state = .established ∧ hasFlag cb.flags tcpRst = false ∧ hasFlag cb.flags tcpFin = false ∧
    hasFlag cb.flags tcpAck = true ∧ cb.payload ≠ []

instance (tsk : TcpSock) (cb : TcpCb) : Decidable (HandlesData tsk cb) := by
  unfold HandlesData
  infer_instance

/-- What a packet can do to the receive side of a socket that is no listener. -/
inductive Received (parent : Option TcpSock) (sleeps : List (List Nat)) (tsk : TcpSock) (cb : TcpCb) :
    Outcome → Prop
  | idle {outcome : Outcome} (nxt : outcome.tsk.rcvNxt = tsk.rcvNxt)
      (ofo : outcome.tsk.rcvOfoBuf = tsk.rcvOfoBuf) (buf : outcome.tsk.rcvBuf = tsk.rcvBuf)
      (state : outcome.tsk.state = tsk.state ∨
        Ended outcome.tsk.state ∧
          (tsk.state = .synRecv ∨ tsk.state = .closed → outcome.tsk.state = .closed))
      (taken : outcome.taken = []) (queue : outcome.acceptEnqueue = false)
      (linked : Linked tsk outcome.tsk) :
      Received parent sleeps tsk cb outcome
  | takes {outcome : Outcome} (when : TakesSeq parent tsk cb) (nxt : outcome.tsk.rcvNxt = cb.seq)
      (ofo : outcome.tsk.rcvOfoBuf = tsk.rcvOfoBuf) (buf : outcome.tsk.rcvBuf = tsk.rcvBuf)
      (state : outcome.tsk.state = tsk.state) (taken : outcome.taken = [])
      (queue : outcome.acceptEnqueue = true → tsk.state = .synRecv) (linked : Linked tsk outcome.tsk) :
      Received parent sleeps tsk cb outcome
  | data {rx : Rx} (when : HandlesData tsk cb)
      (run : Rx.handleRecvData ⟨tsk, sleeps, [], []⟩ cb = some rx) :
      Received parent sleeps tsk cb { TcpSock.only (rx.tsk, rx.sent) with taken := rx.taken }
  | leaves {outcome : Outcome} (buf : outcome.tsk.rcvBuf = tsk.rcvBuf)
      (source : tsk.state ≠ .synRecv ∧ tsk.state ≠ .closed) (state : Ended outcome.tsk.state)
      (taken : outcome.taken = []) (queue : outcome.acceptEnqueue = false)
      (linked : Linked tsk outcome.tsk) :
      Received parent sleeps tsk cb outcome

/-- Nothing happened to the socket. -/
theorem Received.same {parent : Option TcpSock} {sleeps : List (List Nat)} {tsk : TcpSock}
    {cb : TcpCb} : Received parent sleeps tsk cb (TcpSock.only (tsk, [])) :=
  .idle rfl rfl rfl (.inl rfl) rfl rfl ⟨rfl, rfl⟩

theorem Received.linked {parent : Option TcpSock} {sleeps : List (List Nat)} {tsk : TcpSock}
    {cb : TcpCb} {outcome : Outcome} (h : Received parent sleeps tsk cb outcome) :
    Linked tsk outcome.tsk := by
  cases h with
  | idle _ _ _ _ _ _ linked => exact linked
  | takes _ _ _ _ _ _ _ linked => exact linked
  | leaves _ _ _ _ _ linked => exact linked
  | data _ run =>
    have honly := (Rx.handleRecvData_frame run).tsk
    unfold RecvOnly at honly
    show Linked tsk _
    rw [honly]
    exact ⟨rfl, rfl⟩

namespace TcpSock

variable {parent : Option TcpSock} {sleeps : List (List Nat)} {tsk : TcpSock} {cb : TcpCb}

/-- A control packet after setting the timer leaves as much unchanged. -/
theorem setRetransTimer_control_fields (tsk : TcpSock) (flags : U8) :
    (tsk.setRetransTimer.control flags).1.state = tsk.state ∧
      (tsk.setRetransTimer.control flags).1.rcvNxt = tsk.rcvNxt ∧
      (tsk.setRetransTimer.control flags).1.rcvOfoBuf = tsk.rcvOfoBuf ∧
      (tsk.setRetransTimer.control flags).1.rcvBuf = tsk.rcvBuf ∧
      Linked tsk (tsk.setRetransTimer.control flags).1 := by
  obtain ⟨hst, hnxt, hofo, hbuf, hparent, hqueue⟩ := tsk.setRetransTimer.sendControlPacket_fields flags
  refine ⟨hst.trans ?_, hnxt.trans ?_, hofo.trans ?_, hbuf.trans ?_, hparent.trans ?_, hqueue.trans ?_⟩
  all_goals rw [setRetransTimer_eq]

theorem sockClose_received (tsk : TcpSock) : Received parent sleeps tsk cb tsk.sockClose := by
  unfold sockClose
  split
  · rename_i hclosing
    obtain ⟨-, hnxt, hofo, hbuf, hlinked⟩ := tsk.setRetransTimer_control_fields (tcpFin ||| tcpAck)
    refine .idle hnxt hofo hbuf (.inr ⟨?_, ?_⟩) rfl rfl hlinked
    · simp [Ended, Receptive, only]
    · simp [hclosing]
  · rename_i hopen
    obtain ⟨hst, hnxt, hofo, hbuf, hlinked⟩ := setRetransTimer_control_fields
      { tsk with state := .finWait1 } (tcpFin ||| tcpAck)
    refine .idle hnxt hofo hbuf (.inr ⟨?_, ?_⟩) rfl rfl hlinked
    · simp [Ended, Receptive, only, hst]
    · simp [hopen]
  · exact .same
  · exact .idle rfl rfl rfl (.inr ⟨by simp [Ended, Receptive, only], fun _ => rfl⟩) rfl rfl ⟨rfl, rfl⟩

theorem processSynRecv_received {outcome : Outcome} (hrst : hasFlag cb.flags tcpRst = false)
    (hstate : tsk.state = .synRecv) (h : processSynRecv parent tsk cb = some outcome) :
    Received parent sleeps tsk cb outcome := by
  unfold processSynRecv at h
  split at h
  · rename_i hack
    split at h
    · cases h
    · rename_i p
      split at h <;> cases h
      · exact .same
      · rename_i hopen
        simp only [Bool.or_eq_true, Bool.not_eq_true', not_or, Bool.not_eq_true, Bool.not_eq_false] at hopen
        refine .takes ⟨hrst, hack, ?_⟩ rfl rfl rfl rfl rfl (fun _ => hstate) ⟨rfl, rfl⟩
        rw [hstate]
        exact ⟨hopen.2, p, rfl, hopen.1⟩
  · cases h
    exact .same

theorem processEstablished_received {outcome : Outcome} (hrst : hasFlag cb.flags tcpRst = false)
    (hstate : tsk.state = .established) (h : processEstablished sleeps tsk cb = some outcome) :
    Received parent sleeps tsk cb outcome := by
  unfold processEstablished at h
  split at h
  · split at h <;> cases h
    · obtain ⟨hst, -, -, hbuf, hlinked⟩ := TcpSock.sendControlPacket_fields { tsk with
        state := .closeWait, rcvNxt := cb.seq + 1 } tcpAck
      refine .leaves hbuf ?_ ?_ rfl rfl hlinked
      · rw [hstate]
        exact ⟨TcpState.noConfusion, TcpState.noConfusion⟩
      · simp [Ended, Receptive, only, control]
    · exact .same
  · rename_i hfin
    have hfin : hasFlag cb.flags tcpFin = false := Bool.eq_false_of_not_eq_true hfin
    split at h
    · rename_i hack
      split at h
      · rename_i hnil
        cases h
        obtain ⟨hnxt, hofo, hbuf, hst, -, hlinked⟩ := (tsk.processPureAck_acked cb).only.fields
        refine .takes ⟨hrst, hack, ?_⟩ hnxt hofo hbuf hst rfl (fun h => Bool.noConfusion h) hlinked
        rw [hstate]
        exact ⟨hfin, List.length_eq_zero_iff.mp hnil⟩
      · rename_i hne
        unfold processData at h
        split at h
        · cases h
        · rename_i rx hrx
          cases h
          exact .data ⟨hstate, hrst, hfin, hack, fun hnil => hne (by rw [hnil]; rfl)⟩ hrx
    · cases h
      exact .same

theorem processLastAck_received (hstate : tsk.state = .lastAck) :
    Received parent sleeps tsk cb (tsk.processLastAck cb) := by
  unfold processLastAck
  split
  · refine .idle rfl rfl rfl (.inr ⟨by simp [Ended, Receptive, only], ?_⟩) rfl rfl ⟨rfl, rfl⟩
    simp [hstate]
  · exact .same

/-- The branch of `TCP_FIN_WAIT_2`, also where that of `TCP_FIN_WAIT_1` runs on into it. -/
theorem processFinWait2_received {now : Int} {tsk' : TcpSock} (hbuf : tsk'.rcvBuf = tsk.rcvBuf)
    (hlinked : Linked tsk tsk') (hsource : tsk.state ≠ .synRecv ∧ tsk.state ≠ .closed) (hstate : tsk'.state = .finWait2) :
    Received parent sleeps tsk cb (tsk'.processFinWait2 now cb) := by
  obtain ⟨-, -, -, hkeep, hparent, hqueue⟩ :=
    TcpSock.sendControlPacket_fields { tsk' with rcvNxt := cb.seq + 1 } tcpAck
  unfold processFinWait2
  split
  · exact .leaves (hkeep.trans hbuf) hsource (by simp [Ended, Receptive, only, setTimewaitTimer]) rfl rfl
      ⟨hparent.trans hlinked.1, hqueue.trans hlinked.2⟩
  · exact .leaves hbuf hsource (by simp [Ended, Receptive, only, hstate]) rfl rfl hlinked

theorem processFinWait1_received {now : Int} (hstate : tsk.state = .finWait1) :
    Received parent sleeps tsk cb (tsk.processFinWait1 now cb) := by
  unfold processFinWait1
  split
  · refine processFinWait2_received rfl ⟨rfl, rfl⟩ ?_ rfl
    rw [hstate]
    exact ⟨TcpState.noConfusion, TcpState.noConfusion⟩
  · exact .same

end TcpSock

/-- Only a listener gets a child, and only a socket in `TCP_SYN_RECV` joins a queue. -/
theorem tcpProcess_child {now : Int} {self : Nat} {iss : U32} {parent : Option TcpSock}
    {sleeps : List (List Nat)} {tsk : TcpSock} {cb : TcpCb} {outcome : Outcome}
    (hstate : tsk.state ≠ .listen)
    (h : tcpProcess now self iss parent sleeps tsk cb = some outcome) : outcome.child = none := by
  unfold tcpProcess TcpSock.processSynRecv TcpSock.processEstablished TcpSock.processData at h
  split at h
  · cases h
    unfold TcpSock.sockClose
    split <;> rfl
  · split at h
    · contradiction
    · cases h
      unfold TcpSock.processSynSent
      split <;> rfl
    · split at h
      · split at h
        · cases h
        · split at h <;> cases h <;> rfl
      · cases h
        rfl
    · split at h
      · split at h <;> cases h <;> rfl
      · split at h
        · split at h
          · cases h
            rfl
          · split at h <;> cases h
            rfl
        · cases h
          rfl
    · cases h
      unfold TcpSock.processLastAck
      split <;> rfl
    · cases h
      unfold TcpSock.processFinWait1 TcpSock.processFinWait2
      split
      · split <;> rfl
      · rfl
    · cases h
      unfold TcpSock.processFinWait2
      split <;> rfl
    all_goals
      cases h
      rfl

/-- A packet handled by a socket without a parent that listens, or has listened: it is left
alone or closed, or a SYN gives it its child. -/
theorem tcpProcess_listener {now : Int} {self : Nat} {iss : U32} {sleeps : List (List Nat)}
    {tsk : TcpSock} {cb : TcpCb} {outcome : Outcome}
    (hstate : tsk.state = .listen ∨ tsk.state = .synRecv ∨ tsk.state = .closed)
    (h : tcpProcess now self iss none sleeps tsk cb = some outcome) :
    (outcome.child = none ∧ outcome.taken = [] ∧ outcome.acceptEnqueue = false ∧
        (outcome.tsk = tsk ∨ outcome.tsk = { tsk with state := .closed })) ∨
      tsk.state = .listen ∧ hasFlag cb.flags tcpSyn = true ∧ ∃ child sent,
        outcome = { TcpSock.only ({ tsk with state := .synRecv }, sent) with child := some child } ∧
        child.state = .synRecv ∧ child.parent = some self ∧ child.rcvNxt = cb.seq + 1 ∧
        child.rcvOfoBuf = [] ∧ child.rcvBuf = tsk.rcvBuf := by
  unfold tcpProcess at h
  split at h
  · cases h
    left
    unfold TcpSock.sockClose
    rcases hstate with hstate | hstate | hstate
    all_goals simp only [hstate]
    · exact ⟨rfl, rfl, rfl, .inr rfl⟩
    · exact ⟨rfl, rfl, rfl, .inr rfl⟩
    · exact ⟨rfl, rfl, rfl, .inl rfl⟩
  · rcases hstate with hstate | hstate | hstate
    all_goals simp only [hstate] at h
    · cases h
      unfold TcpSock.processListen
      split
      · rename_i hsyn
        obtain ⟨hst, hnxt, hofo, hbuf, hparent, -⟩ := TcpSock.setRetransTimer_control_fields
          (TcpSock.allocChildTcpSock { tsk with state := .synRecv } self iss cb) (tcpAck ||| tcpSyn)
        exact .inr ⟨hstate, hsyn, _, _, rfl, hst, hparent, hnxt, hofo, hbuf⟩
      · exact .inl ⟨rfl, rfl, rfl, .inl rfl⟩
    · left
      unfold TcpSock.processSynRecv at h
      split at h
      · cases h
      · cases h
        exact ⟨rfl, rfl, rfl, .inl rfl⟩
    · cases h
      exact .inl ⟨rfl, rfl, rfl, .inl rfl⟩

/-- A timeout leaves the receive side alone, and closes the socket or leaves its state. -/
theorem scanRetransTimer_received (tsk : TcpSock) :
    tsk.scanRetransTimer.1.rcvNxt = tsk.rcvNxt ∧ tsk.scanRetransTimer.1.rcvOfoBuf = tsk.rcvOfoBuf ∧
      tsk.scanRetransTimer.1.rcvBuf = tsk.rcvBuf ∧ Linked tsk tsk.scanRetransTimer.1 ∧
      (tsk.scanRetransTimer.1.state = tsk.state ∨ tsk.scanRetransTimer.1.state = .closed) := by
  unfold TcpSock.scanRetransTimer
  dsimp only
  split
  · split
    · obtain ⟨hst, hnxt, hofo, hbuf, hlinked⟩ := TcpSock.sendControlPacket_fields
        { tsk with
          retransTimer := { tsk.retransTimer with
            timeout := tsk.retransTimer.timeout - tcpRetransScanInterval }
          state := .closed } tcpRst
      exact ⟨hnxt, hofo, hbuf, hlinked, .inr hst⟩
    · obtain ⟨hnxt, hofo, hbuf, hst, -, hlinked⟩ := (TcpSock.retransSendBufferPacket_acked _).only.fields
      exact ⟨hnxt, hofo, hbuf, hlinked, .inl hst⟩
  · exact ⟨rfl, rfl, rfl, ⟨rfl, rfl⟩, .inl rfl⟩

open TcpSock in
/-- **The receive side.** A packet handled by a socket that is no listener and does not
connect leaves the receive side alone, sets `rcv_nxt` to its own number, goes to
`handle_recv_data`, or takes the socket out of the states that receive. -/
theorem tcpProcess_received {now : Int} {self : Nat} {iss : U32} {parent : Option TcpSock}
    {sleeps : List (List Nat)} {tsk : TcpSock} {cb : TcpCb} {outcome : Outcome}
    (hlisten : tsk.state ≠ .listen) (hconnect : tsk.state ≠ .synSent)
    (h : tcpProcess now self iss parent sleeps tsk cb = some outcome) :
    Received parent sleeps tsk cb outcome := by
  unfold tcpProcess at h
  split at h
  · cases h
    exact tsk.sockClose_received
  · rename_i hrst
    have hrst : hasFlag cb.flags tcpRst = false := Bool.eq_false_of_not_eq_true hrst
    split at h
    · contradiction
    · contradiction
    · exact processSynRecv_received hrst ‹_› h
    · exact processEstablished_received hrst ‹_› h
    · cases h
      exact processLastAck_received ‹_›
    · cases h
      exact processFinWait1_received ‹_›
    · rename_i hstate
      cases h
      refine processFinWait2_received rfl ⟨rfl, rfl⟩ ?_ hstate
      rw [hstate]
      exact ⟨TcpState.noConfusion, TcpState.noConfusion⟩
    all_goals
      cases h
      exact .same

end NetStack.Tcp
