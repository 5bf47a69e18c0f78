import NetStack.Tcp.Delivery

/-! What acknowledgements say.

A receiver acknowledges no position beyond the one it has come to
(`handleRecvData_acks`, `tcpProcess_acks`). A client that stays connected takes from its
send buffer only what starts before a number it was sent (`tcpProcess_retains`). -/
namespace NetStack.Tcp
open Reassembly (Fits Window)

/-- Every packet acknowledges a position up to `n`, counted from `isn`. -/
def AcksUpto (isn : U32) (n : Nat) (sent : List Packet) : Prop :=
  ∀ packet ∈ sent, ∃ q ≤ n, packet.ack = Serial.nth isn q

theorem AcksUpto.nil (isn : U32) (n : Nat) : AcksUpto isn n [] := fun _ h => absurd h List.not_mem_nil

theorem AcksUpto.mono {isn : U32} {m n : Nat} {sent : List Packet} (h : AcksUpto isn m sent) (hle : m ≤ n) :
    AcksUpto isn n sent := by
  intro packet hp
  obtain ⟨q, hq, hack⟩ := h packet hp
  exact ⟨q, hq.trans hle, hack⟩

theorem AcksUpto.append {isn : U32} {n : Nat} {sent more : List Packet} (h : AcksUpto isn n sent)
    (h' : AcksUpto isn n more) : AcksUpto isn n (sent ++ more) := by
  intro packet hp
  rcases List.mem_append.mp hp with hp | hp
  · exact h packet hp
  · exact h' packet hp

/-- Packets that all acknowledge `rcv_nxt`. -/
theorem AcksUpto.of_forall {isn ack : U32} {n : Nat} {sent : List Packet} (hack : ack = Serial.nth isn n)
    (h : ∀ packet ∈ sent, packet.ack = ack) : AcksUpto isn n sent :=
  fun packet hp => ⟨n, le_rfl, (h packet hp).trans hack⟩

/-- The 4-tuple of the packet's sender. -/
def Packet.addr (packet : Packet) : SockAddr := ⟨packet.saddr, packet.sport, packet.daddr, packet.dport⟩

theorem SendOnly.addr {tsk tsk' : TcpSock} (h : SendOnly tsk tsk') : tsk'.addr = tsk.addr := by
  unfold SendOnly at h
  rw [h]
  rfl

theorem RecvOnly.addr {tsk tsk' : TcpSock} (h : RecvOnly tsk tsk') : tsk'.addr = tsk.addr := by
  unfold RecvOnly at h
  rw [h]
  rfl

/-! ### The receiver -/

/-- The first of the held entries is not the one wanted next. -/
def CaughtUp (tsk : TcpSock) : Prop := ∀ entry ∈ tsk.rcvOfoBuf.head?, entry.seq ≠ tsk.rcvNxt

namespace Rx

variable {isn : U32} {r : Reassembly U8} {rx rx' : Rx}

/-- The acknowledgement of an entry goes out with `rcv_nxt` behind it. -/
theorem putEntry_sent {entry : RcvOfoEntry} {rest : List RcvOfoEntry}
    (h : rx.putEntry entry rest = some rx') :
    ∃ packet, rx'.sent = rx.sent ++ [packet] ∧ packet.ack = rx'.tsk.rcvNxt ∧ packet.addr = rx.tsk.addr := by
  simp only [putEntry, acknowledge, control, sendControlPacket_ack] at h
  split at h
  · cases h
  · rename_i rx₁ hsleep
    obtain ⟨⟨buf, sleeps, taken, rfl, -, -⟩, -⟩ := sleepWhile_waited hsleep
    split at h
    · cases h
    · cases h
      exact ⟨_, rfl, rfl, rfl⟩

theorem putRecvOfoBuf_acks {l : List (Nat × List U8)} {value : Int}
    (hr : Receives isn rx.tsk rx.taken { r with held := l }) (ho : Reassembly.Ordered l)
    (hshort : ∀ x ∈ l, 2 * x.2.length < 2 ^ 32) (hnear : ∀ x ∈ l, Serial.Near 32 x.1 r.next)
    (hacks : AcksUpto isn r.next rx.sent) (h : rx.putRecvOfoBuf (l.map (ofoEntry isn)) = some (value, rx')) :
    AcksUpto isn (r.drain l).next rx'.sent := by
  induction l generalizing rx r with
  | nil =>
    cases h
    exact hacks
  | cons x rest ih =>
    obtain ⟨hx, hrest⟩ := List.pairwise_cons.mp ho
    have hxnear := hnear x (List.mem_cons_self ..)
    simp only [List.map_cons, putRecvOfoBuf] at h
    have hiff : rx.tsk.rcvNxt = (ofoEntry isn x).seq ↔ x.1 = r.next := by
      rw [hr.next]
      constructor
      · intro heq
        exact Serial.nth_inj hxnear heq.symm
      · intro heq
        show Serial.nth isn r.next = Serial.nth isn x.1
        rw [heq]
    rw [Reassembly.drain]
    by_cases heq : x.1 = r.next
    · rw [if_pos heq]
      rw [if_pos (hiff.mpr heq)] at h
      split at h
      · cases h
      · rename_i rx₁ hput
        obtain ⟨-, hnxt, hofo, -, hout⟩ := putEntry_spec hput
        obtain ⟨packet, hsent, hack, -⟩ := putEntry_sent hput
        have hnxt' : rx₁.tsk.rcvNxt = Serial.nth isn (r.next + x.2.length) := by
          rw [hnxt, hr.next]
          exact Serial.nth_add isn _ _
        refine ih ⟨hnxt', hofo, ?_⟩ hrest (fun y hy => hshort y (List.mem_cons_of_mem x hy)) ?_ ?_ h
        · rw [hout, hr.out]
          rfl
        · intro y hy
          exact Reassembly.near_advance (heq ▸ hx y hy) (hnear y (List.mem_cons_of_mem x hy))
            (hshort x (List.mem_cons_self ..))
        · rw [hsent]
          refine (hacks.mono (Nat.le_add_right _ _)).append (.of_forall hnxt' ?_)
          intro q hq
          rw [List.mem_singleton.mp hq]
          exact hack
    · rw [if_neg heq]
      rw [if_neg (mt hiff.mp heq)] at h
      split at h <;> cases h <;> exact hacks

/-- A receive call acknowledges nothing beyond where it comes to. -/
theorem handleRecvData_acks {tsk : TcpSock} {taken : List U8} {sleeps : List (List Nat)} {cb : TcpCb}
    {p : Nat} (hr : Receives isn tsk taken r) (hw : Window 32 r) (hseq : cb.seq = Serial.nth isn p)
    (hfits : Fits 32 r (p, cb.payload)) (h : handleRecvData ⟨tsk, sleeps, [], []⟩ cb = some rx') :
    AcksUpto isn (r.arrive (p, cb.payload)).next rx'.sent := by
  simp only [handleRecvData] at h
  split at h
  · cases h
  · rename_i rx₁ hsleep
    obtain ⟨⟨buf, sleeps₁, taken₁, rfl, -, -⟩, -⟩ := sleepWhile_waited hsleep
    have hold : lessThan32b cb.seq tsk.rcvNxt = decide (p < r.next) := by
      rw [hseq, hr.next]
      exact Serial.lt_nth isn hfits.next
    simp only [accept, hold, decide_eq_true_eq] at h
    rw [Reassembly.arrive]
    split at h
    · rename_i hlt
      rw [if_pos hlt]
      cases h
      refine .of_forall hr.next ?_
      intro packet hp
      simp only [control, sendControlPacket_ack, List.nil_append, List.mem_singleton] at hp
      rw [hp]
      rfl
    · rename_i hge
      rw [if_neg hge]
      split at h
      · cases h
      · rename_i value rx₂ hput
        cases h
        have hofo : TcpSock.insertOfo ⟨cb.seq, cb.payload⟩ tsk.rcvOfoBuf =
            (Reassembly.insert (p, cb.payload) r.held).map (ofoEntry isn) := by
          rw [← insertOfo_map hfits.held, hseq, hr.held]
          rfl
        rw [show (TcpSock.addRecvOfoBufEntry { tsk with rcvBuf := buf } cb).rcvOfoBuf = _ from hofo] at hput
        let r₁ : Reassembly U8 := { r with out := taken₁ ++ buf.contents }
        have hsame : (r₁.drain (Reassembly.insert (p, cb.payload) r.held)).next =
            (r.drain (Reassembly.insert (p, cb.payload) r.held)).next :=
          Reassembly.drain_next_congr (show r₁.next = r.next from rfl) _
        rw [← hsame]
        show AcksUpto isn _ rx₂.sent
        refine putRecvOfoBuf_acks (r := r₁) ⟨hr.next, hofo, rfl⟩ hw.ordered.insert ?_ ?_ (.nil isn r.next) hput
        · intro x hx
          rcases Reassembly.mem_insert.mp hx with rfl | hx
          · exact hfits.short
          · exact hw.short x hx
        · intro x hx
          rcases Reassembly.mem_insert.mp hx with rfl | hx
          · exact hfits.next
          · exact hw.near x hx

/-- What a call sends is from its socket's own address. -/
def SentFrom (addr : SockAddr) (sent : List Packet) : Prop := ∀ packet ∈ sent, packet.addr = addr

theorem putRecvOfoBuf_addr {l : List RcvOfoEntry} {addr : SockAddr} {value : Int}
    (haddr : rx.tsk.addr = addr) (hsent : SentFrom addr rx.sent)
    (h : rx.putRecvOfoBuf l = some (value, rx')) : SentFrom addr rx'.sent := by
  induction l generalizing rx with
  | nil =>
    cases h
    exact hsent
  | cons entry rest ih =>
    simp only [putRecvOfoBuf] at h
    split at h
    · split at h
      · cases h
      · rename_i rx₁ hput
        obtain ⟨packet, heq, -, hpacket⟩ := putEntry_sent hput
        refine ih ((putEntry_spec hput).1.tsk.addr.trans haddr) ?_ h
        intro q hq
        rw [heq] at hq
        rcases List.mem_append.mp hq with hq | hq
        · exact hsent q hq
        · rw [List.mem_singleton.mp hq]
          exact hpacket.trans haddr
    · split at h <;> cases h <;> exact hsent

theorem handleRecvData_addr {tsk : TcpSock} {sleeps : List (List Nat)} {cb : TcpCb}
    (h : handleRecvData ⟨tsk, sleeps, [], []⟩ cb = some rx') : SentFrom tsk.addr rx'.sent := by
  simp only [handleRecvData] at h
  split at h
  · cases h
  · rename_i rx₁ hsleep
    obtain ⟨⟨buf, sleeps₁, taken₁, rfl, -, -⟩, -⟩ := sleepWhile_waited hsleep
    simp only [accept] at h
    split at h
    · cases h
      intro packet hp
      simp only [control, sendControlPacket_ack, List.nil_append, List.mem_singleton] at hp
      rw [hp]
      rfl
    · split at h
      · cases h
      · rename_i value rx₂ hput
        cases h
        show SentFrom _ rx₂.sent
        refine putRecvOfoBuf_addr ?_ ?_ hput
        · rfl
        · exact fun _ hp => absurd hp List.not_mem_nil

theorem putRecvOfoBuf_caughtUp {l : List RcvOfoEntry} {value : Int} (hofo : rx.tsk.rcvOfoBuf = l)
    (h : rx.putRecvOfoBuf l = some (value, rx')) : CaughtUp rx'.tsk := by
  induction l generalizing rx with
  | nil =>
    cases h
    unfold CaughtUp
    rw [hofo]
    exact fun _ he => nomatch he
  | cons entry rest ih =>
    simp only [putRecvOfoBuf] at h
    split at h
    · split at h
      · cases h
      · rename_i rx₁ hput
        exact ih (putEntry_spec hput).2.2.1 h
    · rename_i hne
      have hcaught : CaughtUp rx.tsk := by
        unfold CaughtUp
        rw [hofo]
        intro e he heq
        obtain rfl := Option.some.inj he
        exact hne heq.symm
      split at h <;> cases h <;> exact hcaught

theorem handleRecvData_caughtUp {cb : TcpCb} (hcaught : CaughtUp rx.tsk)
    (h : rx.handleRecvData cb = some rx') : CaughtUp rx'.tsk := by
  simp only [handleRecvData] at h
  split at h
  · cases h
  · rename_i rx₁ hsleep
    obtain ⟨⟨buf, sleeps₁, taken₁, rfl, -, -⟩, -⟩ := sleepWhile_waited hsleep
    simp only [accept] at h
    split at h
    · cases h
      simpa [control, CaughtUp] using hcaught
    · split at h
      · cases h
      · rename_i value rx₂ hput
        cases h
        have hdrained := putRecvOfoBuf_caughtUp rfl hput
        dsimp only
        rw [TcpSock.updateRetransTimer_eq]
        exact hdrained

end Rx

/-! ### What else a socket sends -/

/-- Neither FIN nor RST. -/
def Plain (packet : Packet) : Prop :=
  hasFlag packet.flags tcpFin = false ∧ hasFlag packet.flags tcpRst = false

namespace TcpSock

theorem retransSendBufferPacket_ack (tsk : TcpSock) :
    ∀ packet ∈ tsk.retransSendBufferPacket.2, packet.ack = tsk.rcvNxt := by
  unfold retransSendBufferPacket
  split
  · simp
  · intro packet hp
    rw [List.mem_singleton.mp hp]

theorem newRenoProcess_ack (tsk : TcpSock) (cb : TcpCb) :
    ∀ packet ∈ (tsk.newRenoProcess cb).2, packet.ack = tsk.rcvNxt := by
  have hcwnd : ∀ t : TcpSock, t.updateCwnd.rcvNxt = t.rcvNxt := fun t =>
    t.updateCwnd_resends.acked.only.fields.1
  have hrecover : ∀ t : TcpSock, t.recoverCwnd.rcvNxt = t.rcvNxt := fun t =>
    t.recoverCwnd_resends.acked.only.fields.1
  unfold newRenoProcess
  have hdelete : (tsk.deleteSendBufferEntry cb.ack).2.rcvNxt = tsk.rcvNxt := rfl
  generalize tsk.deleteSendBufferEntry cb.ack = result at hdelete
  obtain ⟨isNewAck, b⟩ := result
  dsimp only at hdelete ⊢
  intro packet hp
  split at hp
  · split at hp <;> cases hp
  · split at hp
    · cases hp
    · split at hp
      · -- the third duplicate
        rw [retransSendBufferPacket_ack _ packet hp, ← hdelete]
        exact hcwnd _
      · cases hp
  · split at hp
    · split at hp <;> cases hp
    · cases hp
  · split at hp
    · split at hp
      · rw [retransSendBufferPacket_ack _ packet hp, ← hdelete]
        exact hrecover b
      · cases hp
    · cases hp
  · cases hp

theorem sendControlPacket_addr (tsk : TcpSock) (flags : U8) :
    (tsk.sendControlPacket flags).1.addr = tsk.addr := by
  unfold sendControlPacket
  dsimp only
  split <;> split <;> (try rw [updateRetransTimer_eq]) <;> rfl

theorem scanRetransTimer_addr (tsk : TcpSock) : tsk.scanRetransTimer.1.addr = tsk.addr := by
  unfold scanRetransTimer
  dsimp only
  split
  · split
    · exact sendControlPacket_addr _ _
    · exact (retransSendBufferPacket_acked _).only.addr
  · rfl

theorem scanRetransTimer_ack (tsk : TcpSock) :
    ∀ packet ∈ tsk.scanRetransTimer.2, packet.ack = tsk.rcvNxt := by
  unfold scanRetransTimer
  dsimp only
  split
  · split
    · intro packet hp
      rw [List.mem_singleton.mp hp]
      rfl
    · exact retransSendBufferPacket_ack _
  · simp

end TcpSock

/-- The states of a child that neither it nor its peer has finished. -/
def Serving (state : TcpState) : Prop := Receptive state ∨ state = .closed

open TcpSock in
/-- A packet without FIN or RST leaves a serving socket in its state, and what the socket
sends about it, data apart, acknowledges `rcv_nxt`. -/
theorem tcpProcess_serving {now : Int} {self : Nat} {iss : U32} {parent : Option TcpSock}
    {sleeps : List (List Nat)} {tsk : TcpSock} {packet : Packet} {outcome : Outcome}
    (hserving : Serving tsk.state) (hplain : Plain packet)
    (h : tcpProcess now self iss parent sleeps tsk (tcpCbInit packet) = some outcome) :
    outcome.tsk.state = tsk.state ∧ outcome.tsk.addr = tsk.addr ∧ outcome.unhash = false ∧
      (¬HandlesData tsk (tcpCbInit packet) → ∀ q ∈ outcome.sent, q.ack = outcome.tsk.rcvNxt) := by
  obtain ⟨hfin, hrst⟩ := hplain
  have hfin : hasFlag (tcpCbInit packet).flags tcpFin = false := hfin
  have hrst : hasFlag (tcpCbInit packet).flags tcpRst = false := hrst
  generalize tcpCbInit packet = cb at h hfin hrst ⊢
  unfold tcpProcess at h
  rw [hrst] at h
  simp only [Bool.false_eq_true, if_false] at h
  rcases hserving with (hst | hst) | hst
  all_goals simp only [hst] at h ⊢
  · unfold processSynRecv at h
    split at h
    · split at h
      · cases h
      · split at h <;> cases h
        · exact ⟨hst, rfl, rfl, fun _ q hq => nomatch hq⟩
        · exact ⟨hst, rfl, rfl, fun _ q hq => nomatch hq⟩
    · cases h
      exact ⟨hst, rfl, rfl, fun _ q hq => nomatch hq⟩
  · unfold processEstablished at h
    rw [hfin] at h
    simp only [Bool.false_eq_true, if_false] at h
    split at h
    · rename_i hack
      split at h
      · cases h
        have hacked := tsk.processPureAck_acked cb
        obtain ⟨hnxt, -, -, hstate, -⟩ := hacked.only.fields
        refine ⟨hstate.trans hst, hacked.only.addr, rfl, fun _ q hq => ?_⟩
        rw [show (only (tsk.processPureAck cb)).tsk.rcvNxt = cb.seq from hnxt]
        have hq : q ∈ (newRenoProcess _ cb).2 := hq
        rw [newRenoProcess_ack _ cb q hq, updateRetransTimer_eq]
        exact (updateWindowSafe_resends _ cb).acked.only.fields.1
      · rename_i hne
        have hdata : HandlesData tsk cb := ⟨hst, hrst, hfin, hack, fun hnil => hne (by rw [hnil]; rfl)⟩
        unfold processData at h
        split at h
        · cases h
        · rename_i rx hrx
          cases h
          have honly : RecvOnly tsk rx.tsk := (Rx.handleRecvData_frame hrx).tsk
          refine ⟨?_, honly.addr, rfl, fun hnot => absurd hdata hnot⟩
          unfold RecvOnly at honly
          show rx.tsk.state = _
          rw [honly]
          exact hst
    · cases h
      exact ⟨hst, rfl, rfl, fun _ q hq => nomatch hq⟩
  · cases h
    exact ⟨hst, rfl, rfl, fun _ q hq => nomatch hq⟩

/-- Data is handled by `handle_recv_data`. -/
theorem tcpProcess_data {now : Int} {self : Nat} {iss : U32} {parent : Option TcpSock}
    {sleeps : List (List Nat)} {tsk : TcpSock} {cb : TcpCb} (hdata : HandlesData tsk cb) :
    tcpProcess now self iss parent sleeps tsk cb = tsk.processData sleeps cb := by
  obtain ⟨hst, hrst, hfin, hack, hne⟩ := hdata
  have hlength : cb.payload.length ≠ 0 := fun h => hne (List.length_eq_zero_iff.mp h)
  simp [tcpProcess, hst, hrst, TcpSock.processEstablished, hfin, hack, hlength]

/-! ### The client -/

/-- The states of a client that connects, or is connected and has not been closed. -/
def Attached (state : TcpState) : Prop := state = .synSent ∨ state = .established

theorem Ended.not_attached {state : TcpState} (h : Ended state) : ¬Attached state := by
  intro hattached
  rcases hattached with hst | hst
  · exact h.2.1 hst
  · exact h.2.2 (.inr hst)

/-- From one state of a socket to the next: entries have left the send buffer only if they
start before `ack`, and only bare ACKs and copies of entries were sent. -/
structure Retains (ack : U32) (tsk tsk' : TcpSock) (sent : List Packet) : Prop where
  nxt : tsk'.sndNxt = tsk.sndNxt
  addr : tsk'.addr = tsk.addr
  kept : ∀ entry ∈ tsk.sendBuf, entry ∈ tsk'.sendBuf ∨ lessThan32b entry.seq ack = true
  buf : ∀ entry ∈ tsk'.sendBuf, entry ∈ tsk.sendBuf
  sent : ∀ packet ∈ sent, packet.flags = tcpAck ∧ packet.addr = tsk.addr ∨
    ∃ entry ∈ tsk.sendBuf, packet = { entry with ack := packet.ack }

namespace Retains

variable {ack : U32} {tsk tsk' : TcpSock} {sent : List Packet}

/-- The send buffer is left alone. -/
theorem of_sendBuf (hnxt : tsk'.sndNxt = tsk.sndNxt) (haddr : tsk'.addr = tsk.addr)
    (hbuf : tsk'.sendBuf = tsk.sendBuf)
    (hsent : ∀ packet ∈ sent, packet.flags = tcpAck ∧ packet.addr = tsk.addr ∨
      ∃ entry ∈ tsk.sendBuf, packet = { entry with ack := packet.ack }) : Retains ack tsk tsk' sent :=
  ⟨hnxt, haddr, fun _ he => .inl (hbuf ▸ he), fun _ he => hbuf ▸ he, hsent⟩

theorem same (ack : U32) (tsk : TcpSock) : Retains ack tsk tsk [] :=
  of_sendBuf rfl rfl rfl fun _ hp => nomatch hp

/-- What starts before `ack` is taken out. -/
theorem of_filter (hnxt : tsk'.sndNxt = tsk.sndNxt) (haddr : tsk'.addr = tsk.addr)
    (hbuf : tsk'.sendBuf = tsk.sendBuf.filter fun entry => !lessThan32b entry.seq ack)
    (hsent : ∀ packet ∈ sent, packet.flags = tcpAck ∧ packet.addr = tsk.addr ∨
      ∃ entry ∈ tsk.sendBuf, packet = { entry with ack := packet.ack }) : Retains ack tsk tsk' sent := by
  refine ⟨hnxt, haddr, fun entry he => ?_, fun entry he => ?_, hsent⟩
  · by_cases hlt : lessThan32b entry.seq ack = true
    · exact .inr hlt
    · left
      rw [hbuf]
      exact List.mem_filter.mpr ⟨he, by simpa using hlt⟩
  · rw [hbuf] at he
    exact List.mem_of_mem_filter he

end Retains

namespace TcpSock

variable {cb : TcpCb} {tsk : TcpSock}

theorem sockClose_not_attached (hattached : Attached tsk.state) : ¬Attached tsk.sockClose.tsk.state := by
  unfold sockClose
  rcases hattached with hst | hst
  all_goals simp only [hst]
  · simp [only, Attached]
  · have hstate := (setRetransTimer_control_fields { tsk with state := .finWait1 } (tcpFin ||| tcpAck)).1
    show ¬Attached ((setRetransTimer { tsk with state := .finWait1 }).control (tcpFin ||| tcpAck)).1.state
    rw [hstate]
    simp [Attached]

theorem processSynSent_retains : Retains cb.ack tsk (tsk.processSynSent cb).tsk (tsk.processSynSent cb).sent := by
  unfold processSynSent
  split
  · simp only [only, control, sendControlPacket_ack]
    refine .of_filter rfl rfl rfl fun packet hp => .inl ?_
    rw [List.mem_singleton.mp hp]
    exact ⟨rfl, rfl⟩
  · exact .same _ _

theorem processEstablished_retains {sleeps : List (List Nat)} {outcome : Outcome}
    (hattached : Attached outcome.tsk.state) (h : tsk.processEstablished sleeps cb = some outcome) :
    Retains cb.ack tsk outcome.tsk outcome.sent := by
  unfold processEstablished at h
  split at h
  · split at h <;> cases h
    · -- a FIN ends it
      simp [only, control, Attached] at hattached
    · exact .same _ _
  · split at h
    · split at h
      · cases h
        have hacked := tsk.processPureAck_acked cb
        exact .of_filter hacked.only.fields.2.2.2.2.1 hacked.only.addr (tsk.processPureAck_send cb).2
          fun packet hp => .inr (hacked.resent packet hp)
      · unfold processData at h
        split at h
        · cases h
        · rename_i rx hrx
          cases h
          have hframe := Rx.handleRecvData_frame hrx
          obtain ⟨acks, hsent, hacks⟩ := hframe.sent
          have honly : RecvOnly tsk rx.tsk := hframe.tsk
          refine .of_sendBuf honly.sndNxt honly.addr ?_ fun packet hp => .inl ⟨?_, ?_⟩
          · unfold RecvOnly at honly
            show rx.tsk.sendBuf = _
            rw [honly]
          · have hp : packet ∈ rx.sent := hp
            rw [hsent] at hp
            exact (hacks packet hp).1
          · exact Rx.handleRecvData_addr hrx packet hp
    · cases h
      exact .same _ _

end TcpSock

open TcpSock in
/-- **The client.** A packet handled by a client that stays attached takes from its send
buffer only what starts before the packet's acknowledgement number. -/
theorem tcpProcess_retains {now : Int} {self : Nat} {iss : U32} {parent : Option TcpSock}
    {sleeps : List (List Nat)} {tsk : TcpSock} {cb : TcpCb} {outcome : Outcome}
    (hattached : Attached tsk.state) (hattached' : Attached outcome.tsk.state)
    (h : tcpProcess now self iss parent sleeps tsk cb = some outcome) :
    Retains cb.ack tsk outcome.tsk outcome.sent := by
  unfold tcpProcess at h
  split at h
  · cases h
    exact absurd hattached' (sockClose_not_attached hattached)
  · rcases hattached with hst | hst
    all_goals simp only [hst] at h
    · cases h
      exact processSynSent_retains
    · exact processEstablished_retains hattached' h

open TcpSock in
/-- A packet leaves an attached client attached, or ends its connection. -/
theorem tcpProcess_attached {now : Int} {self : Nat} {iss : U32} {parent : Option TcpSock}
    {sleeps : List (List Nat)} {tsk : TcpSock} {cb : TcpCb} {outcome : Outcome}
    (hstate : Attached tsk.state ∨ Ended tsk.state)
    (h : tcpProcess now self iss parent sleeps tsk cb = some outcome) :
    Attached outcome.tsk.state ∧ Attached tsk.state ∨ Ended outcome.tsk.state := by
  by_cases hconnect : tsk.state = .synSent
  · unfold tcpProcess at h
    split at h
    · cases h
      right
      simp [sockClose, hconnect, only, Ended, Receptive]
    · simp only [hconnect] at h
      cases h
      left
      refine ⟨?_, .inl hconnect⟩
      unfold processSynSent
      split
      · exact .inr (sendControlPacket_fields _ _).1
      · exact .inl hconnect
  · have hlisten : tsk.state ≠ .listen := by
      rcases hstate with (hst | hst) | hst
      · exact absurd hst hconnect
      · rw [hst]
        exact TcpState.noConfusion
      · exact hst.1
    have hreceived := tcpProcess_received hlisten hconnect h
    have hkept : outcome.tsk.state = tsk.state ∨ Ended outcome.tsk.state := by
      cases hreceived with
      | idle nxt ofo buf state taken queue linked => exact state.imp_right And.left
      | takes when nxt ofo buf state taken queue linked => exact .inl state
      | data when run =>
        have honly := (Rx.handleRecvData_frame run).tsk
        unfold RecvOnly at honly
        left
        show _ = tsk.state
        rw [only, honly]
      | leaves buf source state taken queue linked => exact .inr state
    rcases hkept with hsame | hended
    · rw [hsame]
      exact hstate.imp_left fun hattached => ⟨hattached, hattached⟩
    · exact .inr hended

namespace TcpSock

/-- A timeout leaves the send buffer alone, or closes the socket. -/
theorem scanRetransTimer_retains (ack : U32) (tsk : TcpSock) :
    Retains ack tsk tsk.scanRetransTimer.1 tsk.scanRetransTimer.2 ∧ tsk.scanRetransTimer.1.state = tsk.state ∨
      tsk.scanRetransTimer.1.state = .closed := by
  unfold scanRetransTimer
  dsimp only
  split
  · split
    · right
      exact (sendControlPacket_fields _ tcpRst).1
    · left
      generalize htsk : ({ tsk with
        ssthresh := _, cwnd := _, nrState := _, lossPoint := _, retransTimer := _ } : TcpSock) = t
      have hresent := t.retransSendBufferPacket_resends
      obtain ⟨-, -, -, hstate, hnxt, -⟩ := hresent.acked.only.fields
      subst htsk
      exact ⟨.of_sendBuf hnxt hresent.acked.only.addr hresent.stays.1
        fun packet hp => .inr (hresent.acked.resent packet hp), hstate⟩
  · exact .inl ⟨.of_sendBuf rfl rfl rfl fun _ hp => (nomatch hp), rfl⟩

end TcpSock

/-- A timer scan enters no socket in the table of connections, and takes none out. -/
theorem Host.scanRetransTimer_established {h h' : Host} {i : Nat} {sent : List Packet}
    (hrun : h.scanRetransTimer i = some (sent, h')) : h'.established = h.established := by
  have hunhash : (h.bindUnhash i).established = h.established := by
    unfold Host.bindUnhash
    split
    · unfold Host.freeTcpSock
      dsimp only
      split
      · rfl
      · split <;> rfl
    · rfl
  unfold Host.scanRetransTimer at hrun
  split at hrun
  · cases hrun
  · rename_i tsk _
    generalize tsk.scanRetransTimer = result at hrun
    obtain ⟨tsk', sent'⟩ := result
    simp only [Option.some.injEq, Prod.mk.injEq] at hrun
    obtain ⟨rfl, rfl⟩ := hrun
    show Host.established (if _ then h.bindUnhash i else h) = _
    split
    · exact hunhash
    · rfl

theorem setRetransTimer_control_addr (tsk : TcpSock) (flags : U8) :
    (tsk.setRetransTimer.control flags).1.addr = tsk.addr := by
  refine (tsk.setRetransTimer.sendControlPacket_addr flags).trans ?_
  rw [TcpSock.setRetransTimer_eq]
  rfl

open TcpSock in
/-- A listener, or a socket that has been one, answers only a SYN, with an acknowledgement of it
from the child it makes for its sender. -/
theorem tcpProcess_greets {now : Int} {self : Nat} {iss : U32} {sleeps : List (List Nat)} {tsk : TcpSock}
    {packet : Packet} {outcome : Outcome}
    (hstate : tsk.state = .listen ∨ tsk.state = .synRecv ∨ tsk.state = .closed) (hplain : Plain packet)
    (h : tcpProcess now self iss none sleeps tsk (tcpCbInit packet) = some outcome) :
    outcome.unhash = false ∧ outcome.tsk.rcvNxt = tsk.rcvNxt ∧ (outcome.child = none → outcome.sent = []) ∧
      ∀ child ∈ outcome.child, (∀ q ∈ outcome.sent, q.ack = child.rcvNxt) ∧
        child.addr = ⟨packet.daddr, packet.dport, packet.saddr, packet.sport⟩ := by
  have hrst : hasFlag (tcpCbInit packet).flags tcpRst = false := hplain.2
  unfold tcpProcess at h
  rw [hrst] at h
  simp only [Bool.false_eq_true, if_false] at h
  rcases hstate with hst | hst | hst
  all_goals simp only [hst] at h
  · cases h
    unfold processListen
    split
    · let child := allocChildTcpSock { tsk with state := .synRecv } self iss (tcpCbInit packet)
      have hnxt : (child.setRetransTimer.control (tcpAck ||| tcpSyn)).1.rcvNxt = child.rcvNxt :=
        (child.setRetransTimer_control_fields _).2.1
      refine ⟨rfl, rfl, fun hnone => (nomatch hnone), fun made hmade => ?_⟩
      obtain rfl : (child.setRetransTimer.control (tcpAck ||| tcpSyn)).1 = made := Option.some.inj hmade
      refine ⟨fun q hq => ?_, ?_⟩
      · obtain rfl : q = _ := List.mem_singleton.mp hq
        rw [hnxt]
        show child.setRetransTimer.rcvNxt = _
        rw [setRetransTimer_eq]
      · exact setRetransTimer_control_addr child (tcpAck ||| tcpSyn)
    · exact ⟨rfl, rfl, fun _ => rfl, fun _ hmade => (nomatch hmade)⟩
  · unfold processSynRecv at h
    split at h
    · cases h
    · cases h
      exact ⟨rfl, rfl, fun _ => rfl, fun _ hmade => (nomatch hmade)⟩
  · cases h
    exact ⟨rfl, rfl, fun _ => rfl, fun _ hmade => (nomatch hmade)⟩

end NetStack.Tcp
