import NetStack.Tcp.In

/-! What an acknowledgement touches.

Window updates, congestion control and timeouts move the socket's send-side variables,
drop entries of the send buffer and resend its first one. They leave `snd_nxt` and
everything of the receive path alone. -/
namespace NetStack.Tcp

/-- Nothing but these send-side fields differs. -/
def SendOnly (tsk tsk' : TcpSock) : Prop :=
  tsk' = { tsk with
    sendBuf := tsk'.sendBuf, nrState := tsk'.nrState, sndUna := tsk'.sndUna
    recoveryPoint := tsk'.recoveryPoint, sndWnd := tsk'.sndWnd, cwnd := tsk'.cwnd
    lossPoint := tsk'.lossPoint, dupacks := tsk'.dupacks, cwndFlag := tsk'.cwndFlag
    ssthresh := tsk'.ssthresh, retransTimer := tsk'.retransTimer }

/-- The result of acknowledgement processing: send-side fields moved, entries dropped, and
only copies of entries sent, with their own acknowledgement number. -/
structure Acked (tsk : TcpSock) (result : TcpSock × List Packet) : Prop where
  only : SendOnly tsk result.1
  kept : result.1.sendBuf.Sublist tsk.sendBuf
  resent : ∀ packet ∈ result.2, ∃ entry ∈ tsk.sendBuf, packet = { entry with ack := packet.ack }

theorem SendOnly.trans {a b c : TcpSock} (hab : SendOnly a b) (hbc : SendOnly b c) : SendOnly a c := by
  unfold SendOnly at *
  rw [hab] at hbc
  exact hbc

/-- The receive path and the connection are left alone. -/
theorem SendOnly.fields {tsk tsk' : TcpSock} (h : SendOnly tsk tsk') :
    tsk'.rcvNxt = tsk.rcvNxt ∧ tsk'.rcvOfoBuf = tsk.rcvOfoBuf ∧ tsk'.rcvBuf = tsk.rcvBuf ∧
      tsk'.state = tsk.state ∧ tsk'.sndNxt = tsk.sndNxt ∧ tsk'.parent = tsk.parent ∧
      tsk'.acceptQueue = tsk.acceptQueue := by
  unfold SendOnly at h
  rw [h]
  exact ⟨rfl, rfl, rfl, rfl, rfl, rfl, rfl⟩

theorem Acked.of_sendBuf {tsk tsk' : TcpSock} (honly : SendOnly tsk tsk')
    (hbuf : tsk'.sendBuf = tsk.sendBuf) : Acked tsk (tsk', []) :=
  ⟨honly, hbuf ▸ List.Sublist.refl _, by simp⟩

theorem Acked.trans {a b c : TcpSock} {sent : List Packet} (hab : Acked a (b, []))
    (hbc : Acked b (c, sent)) : Acked a (c, sent) := by
  refine ⟨hab.only.trans hbc.only, hbc.kept.trans hab.kept, ?_⟩
  intro packet hp
  obtain ⟨entry, he, heq⟩ := hbc.resent packet hp
  exact ⟨entry, hab.kept.subset he, heq⟩

/-- Setting send-side fields afterwards changes none of it. -/
theorem Acked.then {a b c : TcpSock} {sent : List Packet} (hab : Acked a (b, sent))
    (honly : SendOnly b c) (hbuf : c.sendBuf = b.sendBuf) : Acked a (c, sent) :=
  ⟨hab.only.trans honly, hbuf ▸ hab.kept, hab.resent⟩

namespace TcpSock

theorem deleteSendBufferEntry_acked (tsk : TcpSock) (ack : U32) :
    Acked tsk ((tsk.deleteSendBufferEntry ack).2, []) :=
  ⟨rfl, List.filter_sublist, by simp⟩

/-- The send buffer and `snd_una` are the same. -/
def Stays (tsk tsk' : TcpSock) : Prop := tsk'.sendBuf = tsk.sendBuf ∧ tsk'.sndUna = tsk.sndUna

/-- Acknowledgement processing that drops nothing. -/
structure Resends (tsk : TcpSock) (result : TcpSock × List Packet) : Prop where
  acked : Acked tsk result
  stays : Stays tsk result.1

theorem Stays.trans {a b c : TcpSock} (hab : Stays a b) (hbc : Stays b c) : Stays a c :=
  ⟨hbc.1.trans hab.1, hbc.2.trans hab.2⟩

theorem Resends.of_stays {tsk tsk' : TcpSock} (honly : SendOnly tsk tsk') (h : Stays tsk tsk') :
    Resends tsk (tsk', []) := ⟨.of_sendBuf honly h.1, h⟩

theorem Resends.trans {a b c : TcpSock} {sent : List Packet} (hab : Resends a (b, []))
    (hbc : Resends b (c, sent)) : Resends a (c, sent) :=
  ⟨hab.acked.trans hbc.acked, hab.stays.trans hbc.stays⟩

theorem Resends.then {a b c : TcpSock} {sent : List Packet} (hab : Resends a (b, sent))
    (honly : SendOnly b c) (h : Stays b c) : Resends a (c, sent) :=
  ⟨hab.acked.then honly h.1, hab.stays.trans h⟩

/-! ### The parts of it -/

theorem retransSendBufferPacket_resends (tsk : TcpSock) : Resends tsk tsk.retransSendBufferPacket := by
  unfold retransSendBufferPacket
  split
  · exact .of_stays rfl ⟨rfl, rfl⟩
  · rename_i first rest hbuf
    refine ⟨⟨rfl, by rw [hbuf], ?_⟩, rfl, rfl⟩
    intro packet hp
    rw [List.mem_singleton.mp hp]
    exact ⟨first, by rw [hbuf]; exact List.mem_cons_self .., rfl⟩

theorem retransSendBufferPacket_acked (tsk : TcpSock) : Acked tsk tsk.retransSendBufferPacket :=
  tsk.retransSendBufferPacket_resends.acked

theorem updateCwnd_resends (tsk : TcpSock) : Resends tsk (tsk.updateCwnd, []) := by
  unfold updateCwnd
  split <;> exact .of_stays rfl ⟨rfl, rfl⟩

theorem recoverCwnd_resends (tsk : TcpSock) : Resends tsk (tsk.recoverCwnd, []) := by
  unfold recoverCwnd shrinkCwnd
  split <;> exact .of_stays rfl ⟨rfl, rfl⟩

theorem updateWindowSafe_resends (tsk : TcpSock) (cb : TcpCb) :
    Resends tsk (tsk.updateWindowSafe cb, []) := by
  unfold updateWindowSafe updateWindow
  split <;> exact .of_stays rfl ⟨rfl, rfl⟩

theorem updateRetransTimer_resends (tsk : TcpSock) : Resends tsk (tsk.updateRetransTimer, []) := by
  rw [updateRetransTimer_eq]
  exact .of_stays rfl ⟨rfl, rfl⟩

/-- Congestion control takes from the send buffer what the acknowledgement covers, and no
more, and leaves `snd_una` alone. -/
theorem newRenoProcess_resends (tsk : TcpSock) (cb : TcpCb) :
    Resends (tsk.deleteSendBufferEntry cb.ack).2 (tsk.newRenoProcess cb) := by
  unfold newRenoProcess
  cases tsk.deleteSendBufferEntry cb.ack with
  | mk isNewAck b =>
    have hdup : Resends b ({ b with dupacks := b.dupacks + 1 }, []) := .of_stays rfl ⟨rfl, rfl⟩
    dsimp only
    split
    · -- open
      split
      · exact b.updateCwnd_resends
      · refine Resends.trans ?_ (updateCwnd_resends _)
        exact .of_stays rfl ⟨rfl, rfl⟩
    · -- disorder
      split
      · exact b.updateCwnd_resends.then rfl ⟨rfl, rfl⟩
      · split
        · apply (hdup.trans (updateCwnd_resends _)).trans
          generalize updateCwnd { b with dupacks := b.dupacks + 1 } = d
          have hcut : Resends d ({ shrinkCwnd { d with ssthresh := d.halfCwnd } with
              cwndFlag := false
              recoveryPoint := (shrinkCwnd { d with ssthresh := d.halfCwnd }).sndNxt }, []) :=
            .of_stays rfl ⟨rfl, rfl⟩
          exact hcut.trans ((retransSendBufferPacket_resends _).then rfl ⟨rfl, rfl⟩)
        · exact hdup.trans (updateCwnd_resends _)
    · -- loss
      split
      · split
        · exact b.updateCwnd_resends.then rfl ⟨rfl, rfl⟩
        · exact b.updateCwnd_resends
      · exact hdup.trans (updateCwnd_resends _)
    · -- recovery
      split
      · split
        · exact b.recoverCwnd_resends.trans (retransSendBufferPacket_resends _)
        · exact b.recoverCwnd_resends.then rfl ⟨rfl, rfl⟩
      · exact hdup.trans (recoverCwnd_resends _)
    · exact .of_stays rfl ⟨rfl, rfl⟩

/-- A bare acknowledgement sets `snd_una` and drops from the send buffer what starts
before it. -/
theorem processPureAck_send (tsk : TcpSock) (cb : TcpCb) :
    (tsk.processPureAck cb).1.sndUna = cb.ack ∧
      (tsk.processPureAck cb).1.sendBuf =
        tsk.sendBuf.filter fun entry => !lessThan32b entry.seq cb.ack := by
  let acked : TcpSock := { tsk with rcvNxt := cb.seq, sndUna := cb.ack }
  have hwindow : Stays acked (acked.updateWindowSafe cb).updateRetransTimer :=
    (updateWindowSafe_resends acked cb).stays.trans (updateRetransTimer_resends _).stays
  have hreno := (newRenoProcess_resends (acked.updateWindowSafe cb).updateRetransTimer cb).stays
  refine ⟨hreno.2.trans hwindow.2, hreno.1.trans ?_⟩
  show List.filter _ (acked.updateWindowSafe cb).updateRetransTimer.sendBuf = _
  rw [hwindow.1]

/-- Apart from the two fields it sets itself, a bare acknowledgement only does that. -/
theorem processPureAck_acked (tsk : TcpSock) (cb : TcpCb) :
    Acked { tsk with rcvNxt := cb.seq, sndUna := cb.ack } (tsk.processPureAck cb) := by
  have hwindow := (updateWindowSafe_resends { tsk with rcvNxt := cb.seq, sndUna := cb.ack } cb).trans
    (updateRetransTimer_resends _)
  exact hwindow.acked.trans ((deleteSendBufferEntry_acked _ cb.ack).trans (newRenoProcess_resends _ cb).acked)

end TcpSock

end NetStack.Tcp
