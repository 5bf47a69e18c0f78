import NetStack.Tcp.Acknowledged

/-! Writes are synchronous.

`tcp_sock_write` returns when its send buffer is empty. As long as the client stays
connected, a segment leaves the send buffer only once the server has taken it
(`Flowing`), since no acknowledgement goes beyond what the server has taken (`Acking`). So
when no write is under way, what has been read and what the server's ring buffer holds is
all that has been written (`write_returned_delivered`). -/
namespace NetStack.Tcp.Conn
open Reassembly (Faithful Fits Sits Window)

variable {c c' : Conn} {tsk tsk' : TcpSock} {addr : SockAddr}

/-- What the server's child holds for its reader. -/
def buffered (c : Conn) : List U8 :=
  match c.server.socks[1]? with
  | none => []
  | some ch => ch.rcvBuf.contents

/-- The position of the first byte the server has not taken. -/
def reached (c : Conn) : Nat := 1 + (c.read.length + c.buffered.length)

/-- The start of a segment, or the end of the stream. -/
def Boundary (c : Conn) (q : Nat) : Prop := q = c.space.length ∨ ∃ x ∈ c.emitted, x.1 = q

/-- No call of `tcp_sock_write` is under way. -/
def Returned (thread : ClientThread) : Prop := thread = .connecting ∨ thread = .writing .idle

/-- A packet of the connection's client, with neither FIN nor RST. -/
def Own (addr : SockAddr) (packet : Packet) : Prop := Plain packet ∧ packet.addr = addr

/-- The client's side: every segment has gone out, and one the server has not come to is
in the send buffer. -/
structure Flowing (c : Conn) (addr : SockAddr) (tsk : TcpSock) : Prop where
  state : Attached tsk.state
  own : tsk.addr = addr
  buffered : ∀ packet ∈ tsk.sendBuf, Own addr packet
  wire : ∀ packet ∈ c.toServer, Own addr packet
  logged : ∀ x ∈ c.emitted, ∃ packet ∈ c.toServer,
    packet.flags = tcpPsh ||| tcpAck ∧ packet.seq = Serial.nth 0 x.1 ∧ packet.payload = x.2
  apart : c.emitted.Pairwise fun x y => x.1 + x.2.length ≤ y.1
  within : ∀ x ∈ c.emitted, x.1 < c.space.length
  ends : ∀ x ∈ c.emitted, c.Boundary (x.1 + x.2.length)
  kept : ∀ x ∈ c.emitted, x.1 < c.reached ∨ ∃ packet ∈ tsk.sendBuf, packet.seq = Serial.nth 0 x.1
  returned : Returned c.thread → ∀ x ∈ c.emitted, x.1 < c.reached

/-- The same 4-tuple, seen from the other side. -/
def flip (addr : SockAddr) : SockAddr := ⟨addr.dip, addr.dport, addr.sip, addr.sport⟩

/-- The server's side: it acknowledges what it has taken, and its child, the one socket of
the table, wants the next segment. -/
structure Acking (c : Conn) (addr : SockAddr) : Prop where
  acks : AcksUpto 0 c.reached c.toClient
  boundary : c.thread ≠ .start → c.Boundary c.reached
  listener : ∀ lis ∈ c.server.socks[0]?, lis.rcvNxt = 0
  alone : c.server.socks[1]? = none → c.server.established = []
  child : ∀ ch ∈ c.server.socks[1]?, Serving ch.state ∧ ch.rcvNxt = Serial.nth 0 c.reached ∧ CaughtUp ch ∧
    ch.addr = flip addr ∧ c.server.established = [1]

theorem reached_of_child {lis ch : TcpSock} (hsocks : c.server.socks = [lis, ch]) :
    c.reached = c.position ch := by
  simp [reached, position, buffered, hsocks]

theorem Boundary.le (h : ∀ x ∈ c.emitted, x.1 < c.space.length) {q : Nat} (hq : c.Boundary q) :
    q ≤ c.space.length := by
  rcases hq with rfl | ⟨x, hx, rfl⟩
  · exact le_rfl
  · exact (h x hx).le

theorem Boundary.congr (hspace : c'.space = c.space) (hemitted : c'.emitted = c.emitted) {q : Nat}
    (h : c.Boundary q) : c'.Boundary q := by
  unfold Boundary
  rw [hspace, hemitted]
  exact h

/-! ### The client -/

theorem sendPacket_addr (tsk : TcpSock) (payload : List U8) : (tsk.sendPacket payload).1.addr = tsk.addr := by
  unfold TcpSock.sendPacket
  dsimp only
  rw [TcpSock.updateRetransTimer_eq]
  rfl

/-- Nothing the client's account speaks of has changed. -/
theorem Flowing.congr (h : c.Flowing addr tsk) (hwire : c'.toServer = c.toServer)
    (hspace : c'.space = c.space) (hemitted : c'.emitted = c.emitted)
    (hthread : Returned c'.thread → Returned c.thread) (hreached : c.reached ≤ c'.reached) :
    c'.Flowing addr tsk := by
  refine ⟨h.state, h.own, h.buffered, hwire ▸ h.wire, ?_, hemitted ▸ h.apart, ?_, ?_, ?_, ?_⟩
  all_goals rw [hemitted]
  · rw [hwire]
    exact h.logged
  · rw [hspace]
    exact h.within
  · exact fun x hx => (h.ends x hx).congr hspace hemitted
  · exact fun x hx => (h.kept x hx).imp_left fun hlt => hlt.trans_le hreached
  · exact fun hret x hx => (h.returned (hthread hret) x hx).trans_le hreached

/-- A call that sends nothing with a number of its own. -/
theorem clientCall_space {client : Host} (sent : List Packet) (hsocks : c.client.socks = [tsk])
    (hsocks' : client.socks = [tsk']) (hnxt : tsk'.sndNxt = tsk.sndNxt) :
    (c.clientCall client sent).space = c.space := by
  have hsame : sndNxt client - sndNxt c.client = 0 := by
    simp [sndNxt, hsocks, hsocks', hnxt]
  show c.space ++ List.replicate (sndNxt client - sndNxt c.client).toNat none = c.space
  rw [hsame]
  exact List.append_nil _

/-- A call on the client that takes from the send buffer what starts before an
acknowledgement number the server has reached. -/
theorem Flowing.call {client : Host} {sent : List Packet} {q : Nat} (h : c.Flowing addr tsk)
    (hsocks : c.client.socks = [tsk]) (hsocks' : client.socks = [tsk'])
    (hretains : Retains (Serial.nth 0 q) tsk tsk' sent) (hstate : Attached tsk'.state) (hq : q ≤ c.reached)
    (hboundary : c.Boundary c.reached) (hsize : c.space.length < 2 ^ 31) :
    (c.clientCall client sent).Flowing addr tsk' := by
  have hspace : (c.clientCall client sent).space = c.space :=
    clientCall_space sent hsocks hsocks' hretains.nxt
  refine ⟨hstate, hretains.addr.trans h.own, fun entry he => h.buffered entry (hretains.buf entry he), ?_, ?_,
    h.apart, ?_, ?_, ?_, h.returned⟩
  · intro packet hp
    rcases List.mem_append.mp hp with hp | hp
    · exact h.wire packet hp
    · rcases hretains.sent packet hp with ⟨hflags, haddr⟩ | ⟨entry, he, heq⟩
      · refine ⟨?_, haddr.trans h.own⟩
        unfold Plain
        rw [hflags]
        decide
      · rw [heq]
        exact h.buffered entry he
  · intro x hx
    obtain ⟨packet, hp, hpacket⟩ := h.logged x hx
    exact ⟨packet, List.mem_append_left _ hp, hpacket⟩
  · rw [hspace]
    exact h.within
  · exact fun x hx => (h.ends x hx).congr hspace rfl
  · intro x hx
    rcases h.kept x hx with hlt | ⟨packet, hp, hseq⟩
    · exact .inl hlt
    · rcases hretains.kept packet hp with hp | hbefore
      · exact .inr ⟨packet, hp, hseq⟩
      · left
        have hle : c.reached ≤ c.space.length := hboundary.le h.within
        have hx1 : x.1 < c.space.length := h.within x hx
        rw [hseq] at hbefore
        have hnear : Serial.Near 32 x.1 q := Serial.Near.of_le (n := c.space.length) (by omega) hx1.le (by omega)
        have hlt : decide (x.1 < q) = true := (Serial.lt_nth 0 hnear).symm.trans hbefore
        exact (of_decide_eq_true hlt).trans_le hq

/-- A new segment goes behind the send buffer. -/
theorem Flowing.segment {chunk : List U8} (h : c.Flowing addr tsk) (hsending : c.Sending tsk) (hne : chunk ≠ [])
    {rest : List U8} :
    (c.writeCall (tsk.sendPacket chunk).1 (.gate rest) [(tsk.sendPacket chunk).2]).Flowing addr
      (tsk.sendPacket chunk).1 := by
  obtain ⟨hbuf, -⟩ := tsk.sendPacket_send chunk
  have hstate := (tsk.sendPacket_behind chunk).2
  have hpay : [(tsk.sendPacket chunk).2].flatMap Packet.payload = chunk := List.append_nil chunk
  let c' := c.writeCall (tsk.sendPacket chunk).1 (.gate rest) [(tsk.sendPacket chunk).2]
  have hspace : c'.space = c.space ++ chunk.map some := by
    show c.space ++ List.map some _ = _
    rw [hpay]
  have hemitted : c'.emitted = c.emitted ++ [(c.space.length, chunk)] := by
    show (if [(tsk.sendPacket chunk).2].flatMap Packet.payload = [] then _ else _) = _
    rw [hpay, if_neg hne]
  have hlength : c'.space.length = c.space.length + chunk.length := by
    rw [hspace, List.length_append, List.length_map]
  have hpos := List.length_pos_iff.mpr hne
  have hplain : Own addr (tsk.sendPacket chunk).2 := by
    have hflags : hasFlag (tcpPsh ||| tcpAck) tcpFin = false ∧ hasFlag (tcpPsh ||| tcpAck) tcpRst = false := by
      decide
    exact ⟨hflags, h.own⟩
  have hgrown : ∀ {q}, c.Boundary q → c'.Boundary q := by
    intro q hq
    right
    rw [hemitted]
    rcases hq with rfl | ⟨x, hx, rfl⟩
    · exact ⟨_, List.mem_append_right _ (List.mem_singleton_self _), rfl⟩
    · exact ⟨x, List.mem_append_left _ hx, rfl⟩
  have hle : ∀ x ∈ c.emitted, x.1 + x.2.length ≤ c.space.length := fun x hx => (h.ends x hx).le h.within
  refine ⟨hstate ▸ h.state, ?_, ?_, ?_, ?_, ?_, ?_, ?_, ?_, ?_⟩
  · rw [sendPacket_addr]
    exact h.own
  · rw [hbuf]
    exact List.forall_mem_append.mpr ⟨h.buffered, by simpa using hplain⟩
  · exact List.forall_mem_append.mpr ⟨h.wire, by simpa using hplain⟩
  · show ∀ x ∈ c'.emitted, _
    rw [hemitted]
    refine List.forall_mem_append.mpr ⟨fun x hx => ?_, fun x hx => ?_⟩
    · obtain ⟨packet, hp, hpacket⟩ := h.logged x hx
      exact ⟨packet, List.mem_append_left _ hp, hpacket⟩
    · rw [List.mem_singleton.mp hx]
      exact ⟨_, List.mem_append_right _ (List.mem_singleton_self _), rfl, hsending.nxt, rfl⟩
  · show c'.emitted.Pairwise _
    rw [hemitted]
    refine List.pairwise_append.mpr ⟨h.apart, List.pairwise_singleton _ _, fun x hx y hy => ?_⟩
    rw [List.mem_singleton.mp hy]
    exact hle x hx
  · show ∀ x ∈ c'.emitted, x.1 < c'.space.length
    rw [hemitted, hlength]
    refine List.forall_mem_append.mpr ⟨fun x hx => (h.within x hx).trans_le (Nat.le_add_right _ _), ?_⟩
    simpa using hpos
  · show ∀ x ∈ c'.emitted, c'.Boundary (x.1 + x.2.length)
    rw [hemitted]
    refine List.forall_mem_append.mpr ⟨fun x hx => hgrown (h.ends x hx), fun x hx => ?_⟩
    rw [List.mem_singleton.mp hx]
    exact .inl hlength.symm
  · show ∀ x ∈ c'.emitted, x.1 < c.reached ∨ _
    rw [hemitted, hbuf]
    refine List.forall_mem_append.mpr ⟨fun x hx => ?_, fun x hx => .inr ?_⟩
    · exact (h.kept x hx).imp_right fun ⟨packet, hp, hseq⟩ => ⟨packet, List.mem_append_left _ hp, hseq⟩
    · refine ⟨_, List.mem_append_right _ (List.mem_singleton_self _), ?_⟩
      rw [List.mem_singleton.mp hx]
      exact hsending.nxt
  · intro hret
    rcases hret with hret | hret <;> cases hret

/-- A stretch of `tcp_sock_write` that has `buf` left to send. -/
theorem Flowing.writeLoop (h : c.Flowing addr tsk) (hsending : c.Sending tsk) (buf : List U8) :
    (c.writeCall (tsk.writeLoop buf).1 (tsk.writeLoop buf).2.1 (tsk.writeLoop buf).2.2).Flowing addr
      (tsk.writeLoop buf).1 := by
  unfold TcpSock.writeLoop
  by_cases hnil : buf = []
  · rw [if_pos hnil]
    refine h.congr (List.append_nil _) (List.append_nil _) rfl (fun hret => ?_) le_rfl
    rcases hret with hret | hret <;> cases hret
  · rw [if_neg hnil]
    refine h.segment hsending ?_
    have hmss : mss ≠ 0 := by decide
    simp [hnil, hmss]

theorem writeLoop_boundary (c : Conn) (tsk : TcpSock) (buf : List U8) :
    (c.writeCall (tsk.writeLoop buf).1 (tsk.writeLoop buf).2.1 (tsk.writeLoop buf).2.2).Boundary
      c.space.length := by
  unfold TcpSock.writeLoop
  by_cases hnil : buf = []
  · rw [if_pos hnil]
    exact .inl (congrArg List.length (List.append_nil _)).symm
  · rw [if_neg hnil]
    have hmss : mss ≠ 0 := by decide
    have hne : buf.take mss ≠ [] := by simp [hnil, hmss]
    have hpay : [(tsk.sendPacket (buf.take mss)).2].flatMap Packet.payload = buf.take mss :=
      List.append_nil _
    refine .inr ⟨(c.space.length, buf.take mss), ?_, rfl⟩
    show _ ∈ (if [(tsk.sendPacket (buf.take mss)).2].flatMap Packet.payload = [] then _ else _)
    rw [hpay, if_neg hne]
    exact List.mem_append_right _ (List.mem_singleton_self _)

/-- With nothing left in the send buffer the server has come to every segment. -/
theorem Flowing.drained (h : c.Flowing addr tsk) (hnil : tsk.sendBuf = []) :
    (c.writeCall tsk .idle []).Flowing addr tsk := by
  have hspace : (c.writeCall tsk .idle []).space = c.space := List.append_nil _
  have hwire : (c.writeCall tsk .idle []).toServer = c.toServer := List.append_nil _
  refine ⟨h.state, h.own, h.buffered, ?_, ?_, h.apart, ?_, ?_, h.kept, fun _ x hx => ?_⟩
  · rw [hwire]
    exact h.wire
  · rw [hwire]
    exact h.logged
  · rw [hspace]
    exact h.within
  · exact fun x hx => (h.ends x hx).congr hspace rfl
  · rcases h.kept x hx with hlt | ⟨packet, hp, -⟩
    · exact hlt
    · rw [hnil] at hp
      cases hp

/-- Setting other fields of the socket changes nothing. -/
theorem Flowing.of_fields (h : c.Flowing addr tsk) (hstate : tsk'.state = tsk.state)
    (haddr : tsk'.addr = tsk.addr) (hbuf : tsk'.sendBuf = tsk.sendBuf) : c.Flowing addr tsk' :=
  ⟨hstate ▸ h.state, haddr.trans h.own, hbuf ▸ h.buffered, h.wire, h.logged, h.apart, h.within, h.ends,
    hbuf ▸ h.kept, h.returned⟩

/-- The client's connection has come to its end. -/
def Parted (c : Conn) : Prop := c.thread ≠ .start ∧ ∃ tsk, c.client.socks = [tsk] ∧ Ended tsk.state

/-- What a step of a client that has called `tcp_sock_connect` can do. -/
inductive ClientStep (c : Conn) (tsk : TcpSock) : Conn → Prop
  | connected (thread : c.thread = .connecting) : ClientStep c tsk { c with thread := .writing .idle }
  /-- A stretch of `tcp_sock_write`, its first, which sets the timer, or a later one. -/
  | writes {t : TcpSock} (rest written : List U8) (timer : t = tsk ∨ t = tsk.setRetransTimer) :
    ClientStep c tsk
      { c.writeCall (t.writeLoop rest).1 (t.writeLoop rest).2.1 (t.writeLoop rest).2.2 with written }
  | returns (drained : tsk.sendBuf = []) : ClientStep c tsk (c.writeCall tsk .idle [])
  | packet {packet : Packet} {now : Int} {iss : U32} {parent : Option TcpSock} {outcome : Outcome}
    {tsk' : TcpSock} {client : Host} (arrived : packet ∈ c.toClient)
    (process : tcpProcess now 0 iss parent [] tsk (tcpCbInit packet) = some outcome)
    (socks : client.socks = [tsk']) (kept : Host.Bookkept outcome.tsk tsk') :
    ClientStep c tsk (c.clientCall client outcome.sent)
  | timer {f : Int → Int} {client : Host} (socks : client.socks = [Host.recount f tsk.scanRetransTimer.1]) :
    ClientStep c tsk (c.clientCall client tsk.scanRetransTimer.2)

/-- One step of the client. -/
theorem clientStep {e : ConnEvent} (hside : onClient e = true) (hthread : c.thread ≠ .start)
    (hsocks : c.client.socks = [tsk]) (hstate : tsk.state ≠ .listen) (hstep : c.Step e c') :
    ClientStep c tsk c' := by
  unfold Step Conn.step at hstep
  cases e with
  | connect addr => simp only at hstep; cases hstep
  | connected =>
    simp only at hstep
    split at hstep <;> cases hstep
    rename_i hconnecting
    exact .connected hconnecting
  | write buf =>
    simp only [hsocks, List.getElem?_cons_zero] at hstep
    split at hstep
    · rename_i heq
      cases heq
      cases hstep
      exact .writes buf (c.written ++ buf) (.inr rfl)
    · cases hstep
  | resume =>
    simp only [hsocks, List.getElem?_cons_zero] at hstep
    split at hstep
    · rename_i state _ _ heq
      cases heq
      split at hstep
      · cases hstep
      · rename_i hresume
        cases hstep
        unfold TcpSock.writeResume at hresume
        split at hresume
        · cases hresume
        · rename_i rest _
          split at hresume
          · cases hresume
          · have hloop := Option.some.inj hresume
            have hwrites := ClientStep.writes (c := c) rest c.written (.inl (rfl : tsk = tsk))
            rw [hloop] at hwrites
            exact hwrites
        · split at hresume
          · rename_i hnil
            cases hresume
            exact .returns hnil
          · cases hresume
    · cases hstep
  | toClient i now iss =>
    simp only at hstep
    split at hstep
    · cases hstep
    · rename_i packet hpacket
      split at hstep
      · cases hstep
      · rename_i hrun
        cases hstep
        obtain ⟨i, tsk₁, outcome, -, htsk, hprocess, rfl, -, rfl⟩ := Host.handlePacket_cases hrun
        rw [hsocks] at htsk
        cases i with
        | succ i => simp at htsk
        | zero =>
          obtain rfl : tsk = tsk₁ := Option.some.inj htsk
          obtain ⟨tsk', hsocks', hkept⟩ := Host.commit_single hsocks (tcpProcess_child hstate hprocess)
          exact .packet (List.mem_of_getElem? hpacket) hprocess hsocks' hkept
  | clientTimer =>
    simp only at hstep
    split at hstep
    · cases hstep
    · cases hstep
    · rename_i hrun _
      cases hstep
      obtain ⟨tsk₁, f, htsk, rfl, hsocks'⟩ := Host.scanRetransTimer_socks hrun
      rw [hsocks] at htsk hsocks'
      obtain rfl : tsk = tsk₁ := Option.some.inj htsk
      exact .timer hsocks'
  | toServer | serverTimer | accept | read => cases hside

theorem writeCall_socks (hsocks : c.client.socks = [tsk]) (t : TcpSock) (state : WriteState) (sent : List Packet) :
    (c.writeCall t state sent).client.socks = [t] := by
  simp [writeCall, Host.modify, hsocks]

/-- A call on an attached client keeps its account, or ends its connection. -/
theorem Flowing.step (h : c.Flowing addr tsk) (hthread : c.thread ≠ .start) (hsocks : c.client.socks = [tsk])
    (hsending : c.Sending tsk) (hacking : c.Acking addr) (hsize : c.space.length < 2 ^ 31)
    (hstep : ClientStep c tsk c') :
    c'.thread ≠ .start ∧ (Parted c' ∨
      ∃ tsk', c'.client.socks = [tsk'] ∧ c'.Flowing addr tsk' ∧ c'.Boundary c.space.length) := by
  cases hstep with
  | connected hconnecting =>
    exact ⟨ClientThread.noConfusion, .inr ⟨tsk, hsocks, h.congr rfl rfl rfl (fun _ => .inl hconnecting) le_rfl,
      .inl rfl⟩⟩
  | @writes t rest written timer =>
    obtain ⟨hflowing, hsends⟩ : c.Flowing addr t ∧ c.Sending t := by
      rcases timer with rfl | rfl
      · exact ⟨h, hsending⟩
      · rw [TcpSock.setRetransTimer_eq]
        exact ⟨h.of_fields rfl rfl rfl, hsending.of_fields rfl rfl rfl⟩
    refine ⟨ClientThread.noConfusion, .inr ⟨_, writeCall_socks hsocks _ (t.writeLoop rest).2.1 (t.writeLoop rest).2.2,
      ?_, ?_⟩⟩
    · exact (hflowing.writeLoop hsends rest).congr rfl rfl rfl (fun hret => hret) le_rfl
    · exact (writeLoop_boundary c t rest).congr rfl rfl
  | returns hnil =>
    exact ⟨ClientThread.noConfusion, .inr ⟨tsk, writeCall_socks hsocks _ _ _, h.drained hnil,
      .inl (congrArg List.length (List.append_nil _)).symm⟩⟩
  | @packet packet now iss parent outcome tsk' client harrived hprocess hsocks' hkept =>
    unfold Host.Bookkept at hkept
    rcases tcpProcess_attached (.inl h.state) hprocess with ⟨hattached, -⟩ | hended
    · obtain ⟨q, hq, hack⟩ := hacking.acks packet harrived
      have hretains := tcpProcess_retains h.state hattached hprocess
      rw [show (tcpCbInit packet).ack = _ from hack] at hretains
      have hretains' : Retains (Serial.nth 0 q) tsk tsk' outcome.sent := by
        rw [hkept]
        exact ⟨hretains.nxt, hretains.addr, hretains.kept, hretains.buf, hretains.sent⟩
      have hspace := clientCall_space outcome.sent hsocks hsocks' hretains'.nxt
      refine ⟨hthread, .inr ⟨tsk', hsocks',
        h.call hsocks hsocks' hretains' ?_ hq (hacking.boundary hthread) hsize,
        .inl (congrArg List.length hspace).symm⟩⟩
      rw [hkept]
      exact hattached
    · refine ⟨hthread, .inl ⟨hthread, tsk', hsocks', ?_⟩⟩
      rw [hkept]
      exact hended
  | timer hsocks' =>
    rcases tsk.scanRetransTimer_retains (Serial.nth 0 0) with ⟨hretains, hstate⟩ | hclosed
    · have hspace := clientCall_space tsk.scanRetransTimer.2 hsocks hsocks' hretains.nxt
      refine ⟨hthread, .inr ⟨_, hsocks',
        h.call hsocks hsocks' ?_ ?_ (Nat.zero_le _) (hacking.boundary hthread) hsize,
        .inl (congrArg List.length hspace).symm⟩⟩
      · exact ⟨hretains.nxt, hretains.addr, hretains.kept, hretains.buf, hretains.sent⟩
      · exact hstate ▸ h.state
    · refine ⟨hthread, .inl ⟨hthread, _, hsocks', ?_⟩⟩
      show Ended tsk.scanRetransTimer.1.state
      rw [hclosed]
      simp [Ended, Receptive]

/-! ### The server -/

/-- A segment in range fits the reassembler the child implements. -/
theorem fits_of_inRange {ch : TcpSock} {cb : TcpCb} {r : Reassembly U8} {p : Nat}
    (hr : Receives 0 ch c.read r) (hf : Faithful c.stream 1 r) (hh : ∀ x ∈ r.held, x ∈ c.emitted)
    (hsending : c.Sending tsk) (hx : (p, cb.payload) ∈ c.emitted) (hseq : cb.seq = Serial.nth 0 p)
    (hrange : c.InRange ch cb) : Fits 32 r (p, cb.payload) := by
  obtain ⟨hnear, hheld⟩ := hrange (p, cb.payload) hx hseq.symm rfl
  have hpos : c.position ch = r.next := by
    rw [hf.next, ← hr.out, List.length_append]
    rfl
  refine ⟨?_, hpos ▸ hnear, ?_⟩
  · have hshort : cb.payload.length ≤ mss := hsending.short _ hx
    have hmss : mss < 2 ^ 16 := by decide
    show 2 * cb.payload.length < 2 ^ 32
    omega
  · intro y hy
    refine hheld (ofoEntry 0 y) ?_ y (hh y hy) rfl rfl
    rw [hr.held]
    exact List.mem_map_of_mem hy

/-- What a call of the server leaves: the server has gone no step back. -/
structure Goes (c c' : Conn) (addr : SockAddr) : Prop where
  acking : c'.Acking addr
  le : c.reached ≤ c'.reached

theorem commit_established (h : Host) {i : Nat} {outcome : Outcome} (hchild : outcome.child = none)
    (hunhash : outcome.unhash = false) : (h.commit i outcome).established = h.established := by
  unfold Host.commit
  rw [hchild, hunhash]
  simp only [Bool.false_eq_true, if_false]
  split
  · unfold Host.acceptEnqueue
    split <;> rfl
  · rfl

/-- The server with its child after a call, which sent `sent`. -/
theorem Acking.goes {lis ch : TcpSock} {sent : List Packet} (h : c.Acking addr)
    (hsocks : c'.server.socks = [lis, ch]) (hlog : c'.toClient = c.toClient ++ sent) (hle : c.reached ≤ c'.reached)
    (hsent : AcksUpto 0 c'.reached sent) (hboundary : c'.thread ≠ .start → c'.Boundary c'.reached)
    (hlis : lis.rcvNxt = 0) (hserving : Serving ch.state) (hnxt : ch.rcvNxt = Serial.nth 0 c'.reached)
    (hcaught : CaughtUp ch) (haddr : ch.addr = flip addr) (hlisted : c'.server.established = [1]) :
    Goes c c' addr := by
  refine ⟨⟨?_, hboundary, ?_, ?_, ?_⟩, hle⟩
  · rw [hlog]
    exact (h.acks.mono hle).append hsent
  · rw [hsocks]
    intro l hl
    obtain rfl := Option.some.inj hl
    exact hlis
  · rw [hsocks]
    exact fun hnone => nomatch hnone
  · rw [hsocks]
    intro k hk
    obtain rfl := Option.some.inj hk
    exact ⟨hserving, hnxt, hcaught, haddr, hlisted⟩

/-- The server while its listener is alone, after a call that sent `sent`. -/
theorem Acking.goes_alone {lis : TcpSock} {sent : List Packet} (h : c.Acking addr)
    (hsocks : c'.server.socks = [lis]) (hlog : c'.toClient = c.toClient ++ sent)
    (hreached : c'.reached = c.reached) (hsent : ∀ packet ∈ sent, packet.ack = 0)
    (hboundary : c'.thread ≠ .start → c'.Boundary c.reached) (hlis : lis.rcvNxt = 0)
    (hlisted : c'.server.established = []) : Goes c c' addr := by
  refine ⟨⟨?_, hreached.symm ▸ hboundary, ?_, fun _ => hlisted, ?_⟩, hreached.ge⟩
  · rw [hlog, hreached]
    exact h.acks.append fun packet hp => ⟨0, Nat.zero_le _, hsent packet hp⟩
  · rw [hsocks]
    intro l hl
    obtain rfl := Option.some.inj hl
    exact hlis
  · rw [hsocks]
    exact fun ch hch => nomatch hch

/-- What a call of the server can do, apart from `read`, `thread` and the stream. -/
inductive ServerStep (addr : SockAddr) (c c' : Conn) : Prop
  /-- The listener is alone and stays so. -/
  | alone {lis lis' : TcpSock} {sent : List Packet} (socks : c.server.socks = [lis])
    (socks' : c'.server.socks = [lis']) (log : c'.toClient = c.toClient ++ sent) (read : c'.read = c.read)
    (acks : ∀ packet ∈ sent, packet.ack = lis.rcvNxt) (nxt : lis'.rcvNxt = lis.rcvNxt)
    (buf : lis'.rcvBuf = lis.rcvBuf) (listed : c'.server.established = c.server.established)
  /-- It makes its child. -/
  | greets {lis lis' child : TcpSock} {sent : List Packet} (socks : c.server.socks = [lis])
    (socks' : c'.server.socks = [lis', child]) (log : c'.toClient = c.toClient ++ sent) (read : c'.read = c.read)
    (acks : ∀ packet ∈ sent, packet.ack = child.rcvNxt) (nxt : lis'.rcvNxt = lis.rcvNxt)
    (empty : c.read = [] ∧ child.rcvBuf.contents = []) (state : child.state = .synRecv)
    (first : child.rcvNxt = Serial.nth 0 1) (ofo : child.rcvOfoBuf = []) (buf : child.rcvBuf = lis.rcvBuf)
    (own : child.addr = flip addr) (listed : c'.server.established = [1])
  /-- The child stays where it is. -/
  | still {lis lis' ch ch' : TcpSock} {sent : List Packet} (socks : c.server.socks = [lis, ch])
    (socks' : c'.server.socks = [lis', ch']) (log : c'.toClient = c.toClient ++ sent)
    (read : c'.read ++ ch'.rcvBuf.contents = c.read ++ ch.rcvBuf.contents)
    (acks : AcksUpto 0 c.reached sent) (nxt : lis'.rcvNxt = lis.rcvNxt) (state : Serving ch'.state)
    (stays : ch'.rcvNxt = ch.rcvNxt) (ofo : ch'.rcvOfoBuf = ch.rcvOfoBuf)
    (size : ch'.rcvBuf.size = ch.rcvBuf.size) (own : ch'.addr = ch.addr)
    (listed : c'.server.established = c.server.established)
  /-- The child takes data. -/
  | data {lis lis' ch ch' : TcpSock} {packet : Packet} {sleeps : List (List Nat)} {rx : Rx}
    (socks : c.server.socks = [lis, ch]) (socks' : c'.server.socks = [lis', ch'])
    (log : c'.toClient = c.toClient ++ rx.sent) (read : c'.read = c.read ++ rx.taken)
    (nxt : lis'.rcvNxt = lis.rcvNxt) (arrived : packet ∈ c.toServer)
    (data : HandlesData ch (tcpCbInit packet)) (range : c.InRange ch (tcpCbInit packet))
    (run : Rx.handleRecvData ⟨ch, sleeps, [], []⟩ (tcpCbInit packet) = some rx)
    (kept : ∃ f, ch' = Host.recount f rx.tsk) (listed : c'.server.established = c.server.established)

/-- The child handles a packet. -/
theorem Acking.serve {lis ch : TcpSock} {packet : Packet} {now : Int} {iss : U32}
    {sleeps : List (List Nat)} {outcome : Outcome} (h : c.Acking addr) (hsocks : c.server.socks = [lis, ch])
    (haccepting : c.Accepting lis ch) (hown : Own addr packet) (hpacket : packet ∈ c.toServer)
    (hharmless : c.Harmless ch (tcpCbInit packet))
    (hrun : tcpProcess now 1 iss (some lis) sleeps ch (tcpCbInit packet) = some outcome) :
    ServerStep addr c (c.served (c.server.commit 1 outcome) outcome.sent outcome.taken) := by
  obtain ⟨hserving, hnxt, -⟩ := h.child ch (by rw [hsocks]; rfl)
  obtain ⟨hstate, haddr', hunhash, hacks⟩ := tcpProcess_serving hserving hown.1 hrun
  have hlisten : ch.state ≠ .listen ∧ ch.state ≠ .synSent := by
    rcases hserving with (hst | hst) | hst <;> rw [hst] <;> exact ⟨TcpState.noConfusion, TcpState.noConfusion⟩
  have hreceived := tcpProcess_received hlisten.1 hlisten.2 hrun
  have hchild := tcpProcess_child hlisten.1 hrun
  obtain ⟨f, hf⟩ := Host.commit_socks c.server hchild
  have hsocks' : (c.server.commit 1 outcome).socks =
      [joined outcome.acceptEnqueue lis, Host.recount f outcome.tsk] := by
    have hout : outcome.tsk.parent = some 0 := hreceived.linked.1.trans haccepting.parent
    rw [hf]
    cases outcome.acceptEnqueue with
    | false => simp [Host.modify, hsocks, joined]
    | true => simp [Host.acceptEnqueue, Host.modify, hsocks, joined, hout]
  have hlis : (joined outcome.acceptEnqueue lis).rcvNxt = lis.rcvNxt := by
    cases outcome.acceptEnqueue <;> rfl
  have hlisted := commit_established (i := 1) c.server hchild hunhash
  by_cases hdata : HandlesData ch (tcpCbInit packet)
  · rw [tcpProcess_data hdata] at hrun
    unfold TcpSock.processData at hrun
    split at hrun
    · cases hrun
    · rename_i rx hrx
      cases hrun
      exact .data hsocks hsocks' rfl rfl hlis hpacket hdata (hharmless.2 hdata) hrx ⟨f, rfl⟩ hlisted
  · -- nothing is taken, and `rcv_nxt` stays
    have hparent : (ch.parent.bind fun p => c.server.socks[p]?) = some lis := by
      rw [haccepting.parent, hsocks]
      rfl
    have hstays : outcome.tsk.rcvNxt = ch.rcvNxt ∧ outcome.tsk.rcvOfoBuf = ch.rcvOfoBuf ∧
        outcome.tsk.rcvBuf = ch.rcvBuf ∧ outcome.taken = [] := by
      cases hreceived with
      | idle nxt ofo buf state taken queue linked => exact ⟨nxt, ofo, buf, taken⟩
      | takes when nxt ofo buf state taken queue linked =>
        exact ⟨nxt.trans (hharmless.1 (hparent.symm ▸ when)), ofo, buf, taken⟩
      | data when run => exact absurd when hdata
      | leaves buf source state taken queue linked =>
        rw [hstate] at state
        rcases hserving with (hst | hst) | hst
        · exact absurd hst source.1
        · exact absurd (.inr hst) state.2.2
        · exact absurd hst source.2
    obtain ⟨hnxt', hofo, hbuf, htaken⟩ := hstays
    refine .still hsocks hsocks' rfl ?_ (.of_forall (hnxt'.trans hnxt) (hacks hdata)) hlis ?_ hnxt' hofo ?_ haddr'
      hlisted
    · simp [served, Host.recount, htaken, hbuf]
    · exact hstate.symm ▸ hserving
    · exact congrArg RingBuffer.size hbuf

/-- The listener's first child becomes the second socket, and the one connection. -/
theorem commit_greeting {server : Host} {lis child : TcpSock} (hsocks : server.socks = [lis])
    (hlisted : server.established = []) (hst : child.state = .synRecv) (sent : List Packet) :
    server.commit 0 { TcpSock.only ({ lis with state := .synRecv }, sent) with child := some child } =
      Host.modify
        { server with
          socks := [{ lis with state := .synRecv, listenQueue := lis.listenQueue ++ [1] }, child]
          established := [1] }
        1 (Host.recount (· + 1)) := by
  have hadd : server.commit 0 { TcpSock.only ({ lis with state := .synRecv }, sent) with child := some child } =
      Host.hash
        { server with socks := [{ lis with state := .synRecv, listenQueue := lis.listenQueue ++ [1] }, child] }
        1 := by
    simp [Host.commit, Host.addChild, Host.modify, hsocks, TcpSock.only]
  rw [hadd]
  simp [Host.hash, hst, Host.lookupEstablished, hlisted]
  rfl

/-- A packet reaches the listener while it is alone. -/
theorem Acking.greet {lis : TcpSock} {packet : Packet} {now : Int} {iss : U32} {sleeps : List (List Nat)}
    {outcome : Outcome} (h : c.Acking addr) (hsocks : c.server.socks = [lis])
    (hstate : lis.state = .listen ∨ lis.state = .closed) (hempty : lis.rcvBuf.contents = [])
    (hread : c.read = []) (hsending : c.Sending tsk) (hown : Own addr packet) (hpacket : packet ∈ c.toServer)
    (hrun : tcpProcess now 0 iss none sleeps lis (tcpCbInit packet) = some outcome) :
    ServerStep addr c (c.served (c.server.commit 0 outcome) outcome.sent outcome.taken) := by
  have hlisten : lis.state = .listen ∨ lis.state = .synRecv ∨ lis.state = .closed := by
    rcases hstate with hstate | hstate
    · exact .inl hstate
    · exact .inr (.inr hstate)
  have hlisted : c.server.established = [] := h.alone (by rw [hsocks]; rfl)
  obtain ⟨hunhash, hnxt, hquiet, hgreet⟩ := tcpProcess_greets hlisten hown.1 hrun
  rcases tcpProcess_listener hlisten hrun with
    ⟨hchild, htaken, henqueue, hsame⟩ | ⟨-, hsyn, child, sent, rfl, hst, hparent, hnxt', hofo, hbuf⟩
  · obtain ⟨f, hf⟩ := Host.commit_socks c.server hchild
    have hsocks' : (c.server.commit 0 outcome).socks = [Host.recount f outcome.tsk] := by
      rw [hf, henqueue]
      simp [Host.modify, hsocks]
    refine .alone hsocks hsocks' rfl ?_ ?_ hnxt ?_ (commit_established c.server hchild hunhash)
    · simp [served, htaken]
    · rw [hquiet hchild]
      exact fun _ hp => absurd hp List.not_mem_nil
    · rcases hsame with hsame | hsame <;> simp [Host.recount, hsame]
  · have hzero : packet.seq = 0 := (hsending.wire packet hpacket).1 hsyn
    obtain ⟨hacks, haddr⟩ := hgreet child rfl
    have hchildNxt : child.rcvNxt = Serial.nth 0 1 := by
      rw [hnxt']
      show packet.seq + 1 = _
      rw [hzero]
      rfl
    let outcome : Outcome :=
      { TcpSock.only ({ lis with state := .synRecv }, sent) with child := some child }
    have hcommit : c.server.commit 0 outcome = _ := commit_greeting hsocks hlisted hst sent
    have hsocks' : (c.server.commit 0 outcome).socks =
        [{ lis with state := .synRecv, listenQueue := lis.listenQueue ++ [1] }, Host.recount (· + 1) child] := by
      rw [hcommit]
      rfl
    refine .greets hsocks hsocks' rfl (List.append_nil _) hacks rfl ⟨hread, ?_⟩ hst hchildNxt hofo hbuf ?_ ?_
    · exact (congrArg RingBuffer.contents hbuf).trans hempty
    · rw [← hown.2]
      exact haddr
    · show (c.server.commit 0 outcome).established = [1]
      rw [hcommit]
      rfl

/-- A packet reaches the listener when it has its child. -/
theorem Acking.ignore {lis ch : TcpSock} {packet : Packet} {now : Int} {iss : U32} {sleeps : List (List Nat)}
    {outcome : Outcome} (h : c.Acking addr) (hsocks : c.server.socks = [lis, ch])
    (hstate : lis.state = .synRecv ∨ lis.state = .closed) (hown : Own addr packet)
    (hrun : tcpProcess now 0 iss none sleeps lis (tcpCbInit packet) = some outcome) :
    ServerStep addr c (c.served (c.server.commit 0 outcome) outcome.sent outcome.taken) := by
  have hserving := (h.child ch (by rw [hsocks]; rfl)).1
  obtain ⟨hunhash, hnxt, hquiet, -⟩ := tcpProcess_greets (.inr hstate) hown.1 hrun
  rcases tcpProcess_listener (.inr hstate) hrun with ⟨hchild, htaken, henqueue, -⟩ | ⟨hlisten, -⟩
  · obtain ⟨f, hf⟩ := Host.commit_socks c.server hchild
    have hsocks' : (c.server.commit 0 outcome).socks = [Host.recount f outcome.tsk, ch] := by
      rw [hf, henqueue]
      simp [Host.modify, hsocks]
    refine .still hsocks hsocks' rfl ?_ ?_ hnxt hserving rfl rfl rfl rfl (commit_established c.server hchild hunhash)
    · simp [served, htaken]
    · rw [hquiet hchild]
      exact .nil _ _
  · rcases hstate with hst | hst <;> rw [hst] at hlisten <;> contradiction

/-- A timer scan on the server. -/
theorem Acking.timer {i : Nat} {sent : List Packet} {server : Host} (h : c.Acking addr)
    (hinv : ServerInv c) (hrun : c.server.scanRetransTimer i = some (sent, server)) :
    ServerStep addr c { c with server, toClient := c.toClient ++ sent } := by
  obtain ⟨tsk, f, htsk, rfl, hsocks'⟩ := Host.scanRetransTimer_socks hrun
  obtain ⟨hnxt, hofo, hbuf, -, hstate⟩ := scanRetransTimer_received tsk
  have hack := tsk.scanRetransTimer_ack
  have haddr := tsk.scanRetransTimer_addr
  have hlisted := Host.scanRetransTimer_established hrun
  cases hinv with
  | alone socks state root queue empty accepted read =>
    rename_i lis
    rw [socks] at htsk hsocks'
    cases i with
    | zero =>
      obtain rfl := Option.some.inj htsk
      exact .alone socks hsocks' rfl rfl hack hnxt hbuf hlisted
    | succ i => simp at htsk
  | child socks accepting =>
    rename_i lis ch
    obtain ⟨hserving, hchNxt, -⟩ := h.child ch (by rw [socks]; rfl)
    have hlis : lis.rcvNxt = 0 := h.listener lis (by rw [socks]; rfl)
    rw [socks] at htsk hsocks'
    cases i with
    | zero =>
      obtain rfl := Option.some.inj htsk
      refine .still socks hsocks' rfl rfl ?_ hnxt hserving rfl rfl rfl rfl hlisted
      exact fun packet hp => ⟨0, Nat.zero_le _, (hack packet hp).trans hlis⟩
    | succ i =>
      cases i with
      | zero =>
        obtain rfl := Option.some.inj htsk
        refine .still socks hsocks' rfl ?_ (.of_forall hchNxt hack) rfl ?_ hnxt hofo ?_ haddr
          hlisted
        · simp [Host.recount, hbuf]
        · show Serving ch.scanRetransTimer.1.state
          rcases hstate with hsame | hclosed
          · exact hsame ▸ hserving
          · exact .inr hclosed
        · exact congrArg RingBuffer.size hbuf
      | succ i => simp at htsk

/-- `tcp_sock_accept`. -/
theorem Acking.accept {i : Nat} {server : Host} (hinv : ServerInv c)
    (hrun : c.server.sockAccept 0 = some (i, server)) :
    ServerStep addr c { c with server, accepted := some i } := by
  cases hinv with
  | alone socks state root queue empty accepted read =>
    simp only [Host.sockAccept, socks, List.getElem?_cons_zero, queue] at hrun
    cases hrun
  | child socks accepting =>
    rename_i lis ch
    rcases accepting.queue with hq | hq
    · simp only [Host.sockAccept, socks, List.getElem?_cons_zero, hq] at hrun
      cases hrun
    · simp only [Host.sockAccept, socks, List.getElem?_cons_zero, hq] at hrun
      cases hrun
      have hsocks' : ((c.server.modify 0 fun tsk => { tsk with
            acceptQueue := [], acceptBacklog := tsk.acceptBacklog - 1 }).modify 1 fun tsk => { tsk with
            state := .established, nrState := .open, cwnd := 1, ssthresh := 16 }).socks =
          [{ lis with acceptQueue := [], acceptBacklog := lis.acceptBacklog - 1 },
            { ch with state := .established, nrState := .open, cwnd := 1, ssthresh := 16 }] := by
        simp [Host.modify, socks]
      exact .still socks hsocks' (List.append_nil _).symm rfl (.nil _ _) rfl (.inl (.inr rfl)) rfl rfl rfl rfl rfl

/-- `tcp_sock_read`. -/
theorem Acking.read {len : Nat} {out : List U8} {server : Host} (h : c.Acking addr) (hinv : ServerInv c)
    (hrun : (c.accepted.bind fun i => c.server.sockRead i len) = some (out, server)) :
    ServerStep addr c { c with server, read := c.read ++ out } := by
  cases hinv with
  | alone socks state root queue empty accepted read =>
    rw [accepted] at hrun
    cases hrun
  | child socks accepting =>
    rename_i lis ch
    have hserving := (h.child ch (by rw [socks]; rfl)).1
    obtain ⟨i, hi, hrun⟩ := Option.bind_eq_some_iff.mp hrun
    obtain rfl := accepting.accepted i hi
    simp only [Host.sockRead, socks, List.getElem?_cons_succ, List.getElem?_cons_zero,
      Option.bind_some] at hrun
    split at hrun
    · cases hrun
    · rename_i out' ch' hread
      cases hrun
      unfold TcpSock.sockRead at hread
      split at hread <;> cases hread
      have hsocks' : (c.server.modify 1 fun _ => { ch with rcvBuf := (ch.rcvBuf.read len).2 }).socks =
          [lis, { ch with rcvBuf := (ch.rcvBuf.read len).2 }] := by simp [Host.modify, socks]
      refine .still socks hsocks' (List.append_nil _).symm ?_ (.nil _ _) rfl hserving rfl rfl ?_ rfl rfl
      · show c.read ++ (ch.rcvBuf.read len).1 ++ (ch.rcvBuf.read len).2.contents = _
        rw [List.append_assoc, RingBuffer.read_out, RingBuffer.read_contents, List.take_append_drop]
      · exact RingBuffer.read_size ch.rcvBuf len

/-- One step of the server, whose packet is harmless. -/
theorem Acking.serverStep {e : ConnEvent} (h : c.Acking addr) (hclient : ClientInv c) (hserver : ServerInv c)
    (hwire : ∀ packet ∈ c.toServer, Own addr packet) (hside : onClient e = false) (hsafe : InOrder c e)
    (hstep : c.Step e c') : ServerStep addr c c' := by
  unfold Step Conn.step at hstep
  cases e with
  | toServer j now iss sleeps =>
    simp only at hstep
    split at hstep
    · cases hstep
    · rename_i packet hpacket
      split at hstep
      · cases hstep
      · rename_i sent taken server hrun
        cases hstep
        obtain ⟨i, tsk₁, outcome, hlookup, htsk, hprocess, rfl, rfl, rfl⟩ := Host.handlePacket_cases hrun
        have hmem : packet ∈ c.toServer := List.mem_of_getElem? hpacket
        have hharmless := hsafe packet hpacket i hlookup tsk₁ htsk
        cases hclient with
        | start thread client space emitted wire written =>
          rw [wire] at hmem
          cases hmem
        | running thread socks sending written =>
          cases hserver with
          | alone hsocks state root queue empty accepted read =>
            rw [hsocks] at htsk
            cases i with
            | zero =>
              obtain rfl := Option.some.inj htsk
              rw [root] at hprocess
              exact h.greet hsocks state empty read sending (hwire packet hmem) hmem hprocess
            | succ i => simp at htsk
          | child hsocks accepting =>
            rename_i lis ch
            rw [hsocks] at htsk
            cases i with
            | zero =>
              obtain rfl := Option.some.inj htsk
              rw [accepting.root] at hprocess
              exact h.ignore hsocks accepting.state (hwire packet hmem) hprocess
            | succ i =>
              cases i with
              | zero =>
                obtain rfl := Option.some.inj htsk
                rw [accepting.parent, hsocks] at hprocess
                exact h.serve hsocks accepting (hwire packet hmem) hmem hharmless hprocess
              | succ i => simp at htsk
  | serverTimer i =>
    simp only at hstep
    split at hstep <;> cases hstep
    exact h.timer hserver ‹_›
  | accept =>
    simp only at hstep
    split at hstep <;> cases hstep
    exact Acking.accept hserver ‹_›
  | read len =>
    simp only at hstep
    split at hstep <;> cases hstep
    exact h.read hserver ‹_›
  | connect | connected | write | resume | toClient | clientTimer => cases hside

/-- The child takes data. -/
theorem Acking.data {lis lis' ch ch' : TcpSock} {packet : Packet} {sleeps : List (List Nat)} {rx : Rx}
    (h : c.Acking addr) (hsocks : c.server.socks = [lis, ch]) (hready : c.Ready ch) (hsending : c.Sending tsk)
    (hends : ∀ x ∈ c.emitted, c.Boundary (x.1 + x.2.length)) (hsocks' : c'.server.socks = [lis', ch'])
    (hlog : c'.toClient = c.toClient ++ rx.sent) (hread : c'.read = c.read ++ rx.taken)
    (hthread : c'.thread = c.thread) (hspace : c'.space = c.space) (hemitted : c'.emitted = c.emitted)
    (hlis : lis'.rcvNxt = 0) (hpacket : packet ∈ c.toServer) (hdata : HandlesData ch (tcpCbInit packet))
    (hrange : c.InRange ch (tcpCbInit packet))
    (hrun : Rx.handleRecvData ⟨ch, sleeps, [], []⟩ (tcpCbInit packet) = some rx)
    (hkept : ∃ f, ch' = Host.recount f rx.tsk) (hlisted : c'.server.established = [1]) : Goes c c' addr := by
  obtain ⟨f, rfl⟩ := hkept
  obtain ⟨r, hr, hw, hf, hh⟩ := hready
  obtain ⟨⟨p, data⟩, hx, hpay, hseq⟩ := (hsending.wire packet hpacket).2 hdata.2.2.2.2
  obtain rfl : packet.payload = data := hpay
  have hfits := fits_of_inRange hr hf hh hsending hx hseq hrange
  have hr' : Receives 0 rx.tsk (c.read ++ rx.taken) (r.arrive (p, packet.payload)) :=
    Rx.handleRecvData_receives_from hr hw hseq hfits hrun
  have hf' : Faithful c.stream 1 (r.arrive (p, packet.payload)) := hf.arrive (hsending.sits _ hx)
  have hreached : c.reached = r.next := by
    rw [reached_of_child hsocks, hf.next, ← hr.out, List.length_append]
    rfl
  have hreached' : c'.reached = (r.arrive (p, packet.payload)).next := by
    rw [reached_of_child hsocks', hf'.next, ← hr'.out, List.length_append, position, hread]
    rfl
  obtain ⟨-, -, hcaught, haddr, -⟩ := h.child ch (by rw [hsocks]; rfl)
  have honly : RecvOnly ch rx.tsk := (Rx.handleRecvData_frame hrun).tsk
  refine h.goes hsocks' hlog ?_ ?_ (fun hstarted => ?_) hlis ?_ ?_ ?_ ?_ hlisted
  · rw [hreached, hreached']
    exact Reassembly.next_le_arrive r _
  · rw [hreached']
    exact Rx.handleRecvData_acks hr hw hseq hfits hrun
  · rw [hreached']
    refine Boundary.congr hspace hemitted ?_
    rcases Reassembly.arrive_next r (p, packet.payload) with hnext | ⟨x, hx', hnext⟩
    · rw [hnext, ← hreached]
      exact h.boundary (hthread ▸ hstarted)
    · rw [hnext]
      rcases hx' with rfl | hx'
      · exact hends _ hx
      · exact hends x (hh x hx')
  · unfold RecvOnly at honly
    show Serving rx.tsk.state
    rw [honly]
    exact .inl (.inr hdata.1)
  · rw [hreached']
    exact hr'.next
  · exact Rx.handleRecvData_caughtUp hcaught hrun
  · exact honly.addr.trans haddr

/-- A call on the server, whose packet is harmless, keeps the server's account. -/
theorem Acking.step {e : ConnEvent} (h : c.Acking addr) (hclient : ClientInv c) (hserver : ServerInv c)
    (hends : ∀ x ∈ c.emitted, c.Boundary (x.1 + x.2.length)) (hwire : ∀ packet ∈ c.toServer, Own addr packet)
    (hside : onClient e = false) (hsafe : InOrder c e) (hstep : c.Step e c') : Goes c c' addr := by
  obtain ⟨-, hthread, hspace, hemitted, -⟩ := server_step hside hstep
  have hstays : c'.reached = c.reached → c'.thread ≠ .start → c'.Boundary c'.reached := by
    intro hreached hstarted
    rw [hreached]
    exact (h.boundary (hthread ▸ hstarted)).congr hspace hemitted
  cases h.serverStep hclient hserver hwire hside hsafe hstep with
  | alone socks socks' log read acks nxt buf listed =>
    have hlis := h.listener _ (by rw [socks]; rfl)
    have hreached : c'.reached = c.reached := by simp [reached, buffered, socks, socks', read]
    refine h.goes_alone socks' log hreached (fun packet hp => (acks packet hp).trans hlis) ?_ (nxt.trans hlis)
      (listed.trans (h.alone (by rw [socks]; rfl)))
    exact hreached ▸ hstays hreached
  | greets socks socks' log read acks nxt empty state first ofo buf own listed =>
    have hlis := h.listener _ (by rw [socks]; rfl)
    have hone : c.reached = 1 := by simp [reached, buffered, socks, empty.1]
    have hone' : c'.reached = 1 := by simp [reached, buffered, socks', read, empty.1, empty.2]
    refine h.goes socks' log (hone.trans hone'.symm).le ?_ (hstays (hone'.trans hone.symm)) (nxt.trans hlis)
      (.inl (.inl state)) (hone' ▸ first) ?_ own listed
    · rw [hone']
      exact .of_forall first acks
    · unfold CaughtUp
      rw [ofo]
      intro _ he
      cases he
  | still socks socks' log read acks nxt state stays ofo size own listed =>
    have hlis := h.listener _ (by rw [socks]; rfl)
    obtain ⟨-, hchild, hcaught, haddr, hlisted⟩ := h.child _ (by rw [socks]; rfl)
    have hreached : c'.reached = c.reached := by
      have hlength := congrArg List.length read
      rw [List.length_append, List.length_append] at hlength
      rw [reached_of_child socks, reached_of_child socks', position, position, hlength]
    refine h.goes socks' log hreached.ge ?_ (hstays hreached) (nxt.trans hlis) state ?_ ?_ (own.trans haddr)
      (listed.trans hlisted)
    · rw [hreached]
      exact acks
    · rw [hreached]
      exact stays.trans hchild
    · unfold CaughtUp at hcaught ⊢
      rw [ofo, stays]
      exact hcaught
  | data socks socks' log read nxt arrived data range run kept listed =>
    have hlis := h.listener _ (by rw [socks]; rfl)
    obtain ⟨-, -, -, -, hlisted⟩ := h.child _ (by rw [socks]; rfl)
    cases hclient with
    | start _ _ _ _ wire _ =>
      rw [wire] at arrived
      cases arrived
    | running _ _ sending _ =>
      cases hserver with
      | alone hsocks =>
        rw [hsocks] at socks
        cases socks
      | child hsocks accepting =>
        obtain ⟨rfl, hrest⟩ := List.cons.inj (hsocks.symm.trans socks)
        obtain ⟨rfl, -⟩ := List.cons.inj hrest
        exact h.data socks (accepting.ready (.inl (.inr data.1))) sending hends socks' log read hthread hspace
          hemitted (nxt.trans hlis) arrived data range run kept (listed.trans hlisted)

/-! ### Whole runs -/

/-- Nothing that the server's account speaks of has changed but the stream, which has grown. -/
theorem Acking.congr (h : c.Acking addr) (hserver : c'.server = c.server) (hread : c'.read = c.read)
    (hlog : c'.toClient = c.toClient) (hboundary : c'.thread ≠ .start → c'.Boundary c.reached) :
    c'.Acking addr := by
  have hreached : c'.reached = c.reached := by
    unfold reached buffered
    rw [hserver, hread]
  refine ⟨?_, ?_, hserver ▸ h.listener, hserver ▸ h.alone, ?_⟩
  · rw [hlog, hreached]
    exact h.acks
  · rw [hreached]
    exact hboundary
  · rw [hserver, hreached]
    exact h.child

/-- A run of the connection so far: the client's connection has ended, the client has not
connected, or both sides keep their account. -/
inductive Synced (c : Conn) : Prop
  | parted (h : Parted c)
  | start (thread : c.thread = .start) (acking : ∀ addr, c.Acking addr)
  | running {addr : SockAddr} {tsk : TcpSock} (thread : c.thread ≠ .start) (socks : c.client.socks = [tsk])
      (flowing : c.Flowing addr tsk) (acking : c.Acking addr)

/-- A call on the client leaves what the server sent alone. -/
theorem client_toClient {e : ConnEvent} (hside : onClient e = true) (hstep : c.Step e c') :
    c'.toClient = c.toClient := by
  unfold Step Conn.step at hstep
  cases e with
  | connect | connected | write | resume | toClient | clientTimer =>
    simp only at hstep
    repeat' split at hstep
    all_goals cases hstep
    all_goals rfl
  | toServer | serverTimer | accept | read => cases hside

theorem writeLoop_state (tsk : TcpSock) (buf : List U8) : (tsk.writeLoop buf).1.state = tsk.state := by
  unfold TcpSock.writeLoop
  split
  · rfl
  · exact (tsk.sendPacket_behind _).2

/-- Once the client's connection has ended it stays so. -/
theorem Parted.step {e : ConnEvent} (h : Parted c) (hstep : c.Step e c') :
    Parted c' := by
  obtain ⟨hthread, tsk, hsocks, hended⟩ := h
  cases hside : onClient e with
  | false =>
    obtain ⟨hsame, hthread', -⟩ := server_step hside hstep
    exact ⟨hthread' ▸ hthread, tsk, hsame ▸ hsocks, hended⟩
  | true =>
    cases clientStep hside hthread hsocks hended.1 hstep with
    | connected => exact ⟨ClientThread.noConfusion, tsk, hsocks, hended⟩
    | @writes t rest written timer =>
      refine ⟨ClientThread.noConfusion, _,
        writeCall_socks hsocks _ (t.writeLoop rest).2.1 (t.writeLoop rest).2.2, ?_⟩
      rw [writeLoop_state]
      rcases timer with rfl | rfl
      · exact hended
      · rw [TcpSock.setRetransTimer_eq]
        exact hended
    | returns => exact ⟨ClientThread.noConfusion, tsk, writeCall_socks hsocks _ _ _, hended⟩
    | packet _ process socks kept =>
      unfold Host.Bookkept at kept
      refine ⟨hthread, _, socks, ?_⟩
      rw [kept]
      rcases tcpProcess_attached (.inr hended) process with ⟨-, hattached⟩ | hended'
      · exact absurd hattached hended.not_attached
      · exact hended'
    | timer socks =>
      refine ⟨hthread, _, socks, ?_⟩
      show Ended tsk.scanRetransTimer.1.state
      rcases (scanRetransTimer_received tsk).2.2.2.2 with hsame | hclosed
      · exact hsame ▸ hended
      · rw [hclosed]
        simp [Ended, Receptive]

/-- The client that has just sent its SYN. -/
theorem connect_flowing {sent : List Packet} {client : Host} (hclient : c.client = freshClient)
    (hspace : c.space = []) (hemitted : c.emitted = []) (hwire : c.toServer = [])
    (hrun : c.client.sockConnect 0 addr = some (sent, client)) :
    ∃ tsk, client.socks = [tsk] ∧
      ({ c.clientCall client sent with thread := .connecting } : Conn).space = [none] ∧
      ({ c.clientCall client sent with thread := .connecting } : Conn).Flowing addr tsk := by
  rw [hclient] at hrun
  obtain ⟨tsk, packet, hsocks, rfl, hstate, hnxt, hbuf, -⟩ := connect_sent hrun
  have hfields : (freshClient.sockConnect 0 addr).map (fun result =>
      (result.1.map fun p => (p.flags, p.addr), result.2.socks.map TcpSock.addr)) =
      some ([(tcpSyn, addr)], [addr]) := rfl
  rw [hrun] at hfields
  simp only [Option.map_some, hsocks, List.map_cons, List.map_nil, Option.some.injEq, Prod.mk.injEq,
    List.cons.injEq, and_true] at hfields
  obtain ⟨⟨hflags, haddr⟩, hown⟩ := hfields
  have hplain : Own addr packet := by
    refine ⟨?_, haddr⟩
    unfold Plain
    rw [hflags]
    decide
  have hgrown : c.space ++ List.replicate (sndNxt client - sndNxt c.client).toNat none = [none] := by
    have h0 : sndNxt client = 1 := by simp [sndNxt, hsocks, hnxt]
    have h1 : sndNxt c.client = 0 := by rw [hclient]; rfl
    rw [h0, h1, hspace]
    rfl
  have hnone : ∀ x ∈ c.emitted, False := by simp [hemitted]
  refine ⟨tsk, hsocks, hgrown, .inl hstate, hown, ?_, ?_, fun x hx => (hnone x hx).elim, ?_,
    fun x hx => (hnone x hx).elim, fun x hx => (hnone x hx).elim, fun x hx => (hnone x hx).elim,
    fun _ x hx => (hnone x hx).elim⟩
  · rw [hbuf]
    simpa using hplain
  · show ∀ p ∈ c.toServer ++ [packet], _
    rw [hwire]
    simpa using hplain
  · show c.emitted.Pairwise _
    rw [hemitted]
    exact List.Pairwise.nil

theorem reached_of_start (hserver : ServerInv c) (hspace : c.space = []) : c.reached = 1 := by
  cases hserver with
  | alone socks state root queue empty accepted read => simp [reached, buffered, socks, read]
  | child socks accepting =>
    rename_i lis ch
    have hnil : c.read ++ ch.rcvBuf.contents = [] := by
      by_contra hne
      have hbyte := accepting.out 0 (List.length_pos_iff.mpr hne)
      simp [stream, hspace] at hbyte
    obtain ⟨hread, hbuf⟩ := List.append_eq_nil_iff.mp hnil
    simp only [reached, buffered, socks, List.getElem?_cons_succ, List.getElem?_cons_zero, hread, hbuf]
    rfl

/-- No number is ever taken back. -/
theorem space_le {e : ConnEvent} (hstep : c.Step e c') : c.space.length ≤ c'.space.length := by
  cases hside : onClient e with
  | true => exact (client_step hside hstep).space.length_le
  | false => exact (congrArg List.length (server_step hside hstep).2.2.1).ge

/-- One step keeps both accounts. -/
theorem Synced.step {e : ConnEvent} (h : Synced c) (hclient : ClientInv c) (hserver : ServerInv c)
    (hsize : c.space.length < 2 ^ 31) (hsafe : InOrder c e) (hstep : c.Step e c') : Synced c' := by
  cases h with
  | parted h => exact .parted (h.step hstep)
  | start thread acking =>
    cases hclient with
    | running hthread => exact absurd thread hthread
    | start _ client space emitted wire written =>
      cases hside : onClient e with
      | false =>
        obtain ⟨-, hthread, -⟩ := server_step hside hstep
        refine .start (hthread.trans thread) fun addr => ?_
        have hgoes : Goes c c' addr := (acking addr).step (.start thread client space emitted wire written) hserver
          (by simp [emitted]) (by simp [wire]) hside hsafe hstep
        exact hgoes.acking
      | true =>
        have hone := reached_of_start hserver space
        have hlog := client_toClient hside hstep
        obtain ⟨hhost, -, hread, -, -⟩ := client_step hside hstep
        cases e with
        | connect addr =>
          simp only [Step, Conn.step, thread] at hstep
          split at hstep
          · cases hstep
          · rename_i sent host hrun
            cases hstep
            obtain ⟨tsk, hsocks, hspace, hflowing⟩ := connect_flowing client space emitted wire hrun
            refine .running ClientThread.noConfusion hsocks hflowing
              ((acking addr).congr hhost hread hlog fun _ => .inl ?_)
            rw [hone, hspace]
            rfl
        | toClient i now iss =>
          -- the fresh socket is in no table
          have hnone : ∀ packet, c.client.handlePacket now iss [] packet = none := by
            rw [client]
            exact fun _ => rfl
          simp only [Step, Conn.step, hnone] at hstep
          split at hstep <;> cases hstep
        | connected => simp only [Step, Conn.step, thread] at hstep; cases hstep
        | write buf => simp only [Step, Conn.step, thread] at hstep; cases hstep
        | resume => simp only [Step, Conn.step, thread] at hstep; cases hstep
        | clientTimer => simp only [Step, Conn.step, thread] at hstep; cases hstep
        | toServer | serverTimer | accept | read => cases hside
  | running thread socks flowing acking =>
    rename_i addr tsk
    cases hside : onClient e with
    | false =>
      obtain ⟨hhost, hthread, hspace, hemitted, hwire, -⟩ := server_step hside hstep
      have hgoes := acking.step hclient hserver flowing.ends flowing.wire hside hsafe hstep
      exact .running (hthread ▸ thread) (hhost ▸ socks)
        (flowing.congr hwire hspace hemitted (fun hret => hthread ▸ hret) hgoes.le) hgoes.acking
    | true =>
      cases hclient with
      | start hstart => exact absurd hstart thread
      | running _ hsocks sending written =>
        obtain rfl := (List.cons.inj (hsocks.symm.trans socks)).1
        have hlog := client_toClient hside hstep
        have hextends := client_step hside hstep
        obtain ⟨hthread', hparted | ⟨tsk', hsocks', hflowing', hend⟩⟩ :=
          flowing.step thread socks sending acking hsize (clientStep hside thread socks sending.state hstep)
        · exact .parted hparted
        · refine .running hthread' hsocks' hflowing'
            (acking.congr hextends.server hextends.read hlog fun _ => ?_)
          rcases acking.boundary thread with hlast | ⟨x, hx, hfirst⟩
          · exact hlast ▸ hend
          · exact .inr ⟨x, hextends.emitted hx, hfirst⟩

/-- What holds of every state of a run of at most `2^31 - 1` sequence numbers, all of its
packets to the server harmless, one step on. -/
theorem synced_step {e : ConnEvent} (h : ClientInv c ∧ ServerInv c ∧ (c.space.length < 2 ^ 31 → Synced c))
    (hsafe : InOrder c e) (hstep : c.Step e c') :
    ClientInv c' ∧ ServerInv c' ∧ (c'.space.length < 2 ^ 31 → Synced c') := by
  obtain ⟨hclient, hserver, hsynced⟩ := h
  refine ⟨hclient.step hstep, hserver.step hclient hsafe hstep, fun hsize => ?_⟩
  have hsize' : c.space.length < 2 ^ 31 := lt_of_le_of_lt (space_le hstep) hsize
  exact (hsynced hsize').step hclient hserver hsize' hsafe hstep

/-- Every run keeps both accounts. -/
theorem synced_run {sport : U16} {backlog : Int} {es : List ConnEvent} (hrun : Run Step (start sport backlog) es c)
    (horder : Along Step InOrder (start sport backlog) es) :
    ClientInv c ∧ ServerInv c ∧ (c.space.length < 2 ^ 31 → Synced c) := by
  refine hrun.invariant (fun _ _ _ hs hsafe hstep => synced_step hs hsafe hstep) horder ?_
  refine ⟨.start rfl rfl rfl rfl rfl rfl, ?_, fun _ => .start rfl fun addr => ?_⟩
  · refine @ServerInv.alone _
      { allocTcpSock with skSport := sport, backlog, state := .listen, refCnt := 2 }
      rfl (.inl rfl) rfl rfl ?_ rfl rfl
    exact RingBuffer.contents_alloc _
  · refine ⟨.nil _ _, fun hne => absurd rfl hne, ?_, fun _ => rfl, fun ch hch => nomatch hch⟩
    intro lis hlis
    obtain rfl := Option.some.inj hlis
    rfl

/-- The handshake, a byte written and delivered, its acknowledgement, and the return of the write. -/
def returning : List ConnEvent := transfer ++ [.toClient 1 0 0, .resume, .resume]

end NetStack.Tcp.Conn
