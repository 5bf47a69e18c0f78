import NetStack.Tcp.ClientSide

/-! The server's half of a connection.

The listener makes one child. As long as the child receives, or waits to be accepted, it
reassembles the client's stream from position 1 on (`Ready`); whatever happens later, what
has been read and what its ring buffer holds is the stream from there. A step keeps this
(`ServerInv.step`) unless it makes the child take a number that is not its `rcv_nxt`, or
data from outside the range of serial numbers. -/
namespace NetStack.Tcp.Conn
open Reassembly (Faithful Fits Sits Window)

variable {c c' : Conn}

/-- The position of the next byte a socket wants, when it has taken all bytes up to there. -/
def position (c : Conn) (tsk : TcpSock) : Nat := 1 + (c.read.length + tsk.rcvBuf.contents.length)

/-- A data segment is near the position, and near every segment held, whichever places
those that look like them have in the stream. -/
def InRange (c : Conn) (tsk : TcpSock) (cb : TcpCb) : Prop :=
  ∀ x ∈ c.emitted, Serial.nth 0 x.1 = cb.seq → x.2 = cb.payload →
    Serial.Near 32 x.1 (c.position tsk) ∧
      ∀ entry ∈ tsk.rcvOfoBuf, ∀ y ∈ c.emitted, Serial.nth 0 y.1 = entry.seq → y.2 = entry.data →
        Serial.Near 32 x.1 y.1

/-- A packet for the server's socket `tsk`: where it runs `rcv_nxt = cb->seq`, that changes
nothing; where it is data, it is in range. -/
def Harmless (c : Conn) (tsk : TcpSock) (cb : TcpCb) : Prop :=
  (TakesSeq (tsk.parent.bind fun p => c.server.socks[p]?) tsk cb → cb.seq = tsk.rcvNxt) ∧
    (HandlesData tsk cb → c.InRange tsk cb)

/-- The packet a step delivers to the server is harmless. -/
def InOrder (c : Conn) : ConnEvent → Prop
  | .toServer i _ _ _ =>
    ∀ packet ∈ c.toServer[i]?, ∀ id ∈ c.server.sockLookup (tcpCbInit packet),
      ∀ tsk ∈ c.server.socks[id]?, c.Harmless tsk (tcpCbInit packet)
  | _ => True

instance (c : Conn) (tsk : TcpSock) (cb : TcpCb) : Decidable (c.InRange tsk cb) := by
  unfold InRange
  infer_instance

instance (c : Conn) (tsk : TcpSock) (cb : TcpCb) : Decidable (c.Harmless tsk cb) := by
  unfold Harmless
  infer_instance

instance (c : Conn) (e : ConnEvent) : Decidable (c.InOrder e) := by
  unfold InOrder
  split <;> infer_instance

/-- The child implements a reassembler of the client's stream. -/
def Ready (c : Conn) (ch : TcpSock) : Prop :=
  ∃ r, Receives 0 ch c.read r ∧ Window 32 r ∧ Faithful c.stream 1 r ∧ ∀ x ∈ r.held, x ∈ c.emitted

/-- The server once its listener has a child. -/
structure Accepting (c : Conn) (lis ch : TcpSock) : Prop where
  state : lis.state = .synRecv ∨ lis.state = .closed
  root : lis.parent = none
  queue : lis.acceptQueue = [] ∨ lis.acceptQueue = [1]
  accepted : ∀ id ∈ c.accepted, id = 1
  parent : ch.parent = some 0
  child : Receptive ch.state ∨ Ended ch.state
  queued : lis.acceptQueue = [1] → ch.state = .synRecv ∨ ch.state = .closed
  out : Sits c.stream 1 (c.read ++ ch.rcvBuf.contents)
  ready : Receptive ch.state ∨ lis.acceptQueue = [1] → c.Ready ch

/-- The server with its listener alone, and with the listener's child. -/
inductive ServerInv (c : Conn) : Prop
  | alone {lis : TcpSock} (socks : c.server.socks = [lis])
      (state : lis.state = .listen ∨ lis.state = .closed) (root : lis.parent = none)
      (queue : lis.acceptQueue = []) (empty : lis.rcvBuf.contents = []) (accepted : c.accepted = none)
      (read : c.read = [])
  | child {lis ch : TcpSock} (socks : c.server.socks = [lis, ch]) (accepting : c.Accepting lis ch)

theorem Ready.out {ch : TcpSock} (h : c.Ready ch) : Sits c.stream 1 (c.read ++ ch.rcvBuf.contents) := by
  obtain ⟨r, hr, -, hf, -⟩ := h
  rw [hr.out]
  exact hf.out

/-- The receive fields alone matter. -/
theorem Ready.of_fields {ch ch' : TcpSock} (h : c.Ready ch) (hread : c'.read = c.read)
    (hspace : c'.space = c.space) (hemitted : c'.emitted = c.emitted) (hnxt : ch'.rcvNxt = ch.rcvNxt)
    (hofo : ch'.rcvOfoBuf = ch.rcvOfoBuf) (hbuf : ch'.rcvBuf = ch.rcvBuf) : c'.Ready ch' := by
  obtain ⟨r, hr, hw, hf, hh⟩ := h
  have hstream : c'.stream = c.stream := by
    unfold Conn.stream
    rw [hspace]
  refine ⟨r, ⟨hnxt.trans hr.next, hofo.trans hr.held, ?_⟩, hw, hstream ▸ hf, hemitted ▸ hh⟩
  rw [hread, hbuf]
  exact hr.out

/-- More of the stream and more segments do no harm. -/
theorem Extends.ready {ch : TcpSock} (hx : Extends c c') (h : c.Ready ch) : c'.Ready ch := by
  obtain ⟨r, hr, hw, hf, hh⟩ := h
  refine ⟨r, ⟨hr.next, hr.held, hx.read ▸ hr.out⟩, hw, ⟨hf.next, sits_mono hx.space hf.out, ?_⟩, ?_⟩
  · exact fun x hx' => sits_mono hx.space (hf.held x hx')
  · exact fun x hx' => hx.emitted (hh x hx')

theorem Extends.serverInv (hx : Extends c c') (h : ServerInv c) : ServerInv c' := by
  cases h with
  | alone socks state root queue empty accepted read =>
    exact .alone (hx.server ▸ socks) state root queue empty (hx.accepted.trans accepted)
      (hx.read.trans read)
  | child socks accepting =>
    refine .child (hx.server ▸ socks) ⟨accepting.state, accepting.root, accepting.queue,
      hx.accepted ▸ accepting.accepted, accepting.parent, accepting.child, accepting.queued, ?_,
      fun h => hx.ready (accepting.ready h)⟩
    rw [hx.read]
    exact sits_mono hx.space accepting.out

/-! ### The child -/

/-- Data in range moves the child as its arrival moves the reassembler. -/
theorem Ready.data {ch : TcpSock} {cb : TcpCb} {sleeps : List (List Nat)} {rx : Rx}
    {tsk : TcpSock} (h : c.Ready ch) (hsending : c.Sending tsk)
    (hgenuine : ∃ x ∈ c.emitted, cb.payload = x.2 ∧ cb.seq = Serial.nth 0 x.1)
    (hrange : c.InRange ch cb) (hrun : Rx.handleRecvData ⟨ch, sleeps, [], []⟩ cb = some rx) :
    ({ c with read := c.read ++ rx.taken } : Conn).Ready rx.tsk := by
  obtain ⟨r, hr, hw, hf, hh⟩ := h
  obtain ⟨⟨p, data⟩, hx, hpay, hseq⟩ := hgenuine
  obtain ⟨hnear, hheld⟩ := hrange (p, data) hx hseq.symm hpay.symm
  have hpos : c.position ch = r.next := by
    rw [hf.next, ← hr.out, List.length_append]
    rfl
  have hfits : Fits 32 r (p, cb.payload) := by
    refine ⟨?_, hpos ▸ hnear, ?_⟩
    · have hshort := hsending.short (p, data) hx
      rw [← hpay] at hshort
      have hmss : mss < 2 ^ 16 := by decide
      show 2 * cb.payload.length < 2 ^ 32
      omega
    · intro y hy
      refine hheld (ofoEntry 0 y) ?_ y (hh y hy) rfl rfl
      rw [hr.held]
      exact List.mem_map_of_mem hy
  refine ⟨_, Rx.handleRecvData_receives_from hr hw hseq hfits hrun, hw.arrive hfits, ?_, ?_⟩
  · apply hf.arrive
    rw [hpay]
    exact hsending.sits (p, data) hx
  · intro y hy
    rcases Reassembly.mem_arrive_held hy with rfl | hy
    · rw [hpay]
      exact hx
    · exact hh y hy

/-- A read takes from the front of the ring buffer. -/
theorem Ready.read {ch tsk : TcpSock} {len : Nat} {out : List U8} (h : c.Ready ch)
    (hrun : ch.sockRead len = some (out, tsk)) :
    ({ c with read := c.read ++ out } : Conn).Ready tsk := by
  obtain ⟨r, hr, hw, hf, hh⟩ := h
  unfold TcpSock.sockRead at hrun
  split at hrun <;> cases hrun
  refine ⟨r, ⟨hr.next, hr.held, ?_⟩, hw, hf, hh⟩
  rw [← hr.out]
  show (c.read ++ _) ++ _ = _
  rw [RingBuffer.read_out, RingBuffer.read_contents, List.append_assoc, List.take_append_drop]

/-- What has been read and is buffered stays the stream. -/
theorem out_of_fields {ch ch' : TcpSock} (h : Sits c.stream 1 (c.read ++ ch.rcvBuf.contents))
    (hread : c'.read = c.read) (hspace : c'.space = c.space) (hbuf : ch'.rcvBuf = ch.rcvBuf) :
    Sits c'.stream 1 (c'.read ++ ch'.rcvBuf.contents) := by
  rw [hread, hbuf]
  exact sits_mono (hspace ▸ List.prefix_refl _) h

/-- The server's side of the connection after a call that read `taken`. -/
def served (c : Conn) (server : Host) (sent : List Packet) (taken : List U8) : Conn :=
  { c with server, toClient := c.toClient ++ sent, read := c.read ++ taken }

/-- The queue of the listener after its child's packet: the child may have joined. -/
def joined (enqueue : Bool) (lis : TcpSock) : TcpSock := if enqueue then Host.enqueue 1 lis else lis

theorem joined_eq (enqueue : Bool) (lis : TcpSock) :
    (joined enqueue lis).state = lis.state ∧ (joined enqueue lis).parent = lis.parent := by
  cases enqueue <;> exact ⟨rfl, rfl⟩

theorem joined_queue {lis : TcpSock} (enqueue : Bool)
    (h : lis.acceptQueue = [] ∨ lis.acceptQueue = [1]) :
    (joined enqueue lis).acceptQueue = [] ∨ (joined enqueue lis).acceptQueue = [1] := by
  cases enqueue with
  | false => exact h
  | true =>
    right
    show lis.acceptQueue.erase 1 ++ [1] = [1]
    rcases h with h | h <;> rw [h] <;> rfl

theorem served_read (c : Conn) (server : Host) (sent : List Packet) {taken : List U8} (htaken : taken = []) :
    (c.served server sent taken).read = c.read := by
  show c.read ++ taken = c.read
  rw [htaken, List.append_nil]

section Kept

variable {lis lis' ch ch' : TcpSock} {server : Host} {sent : List Packet} {taken : List U8}

/-- A listener that stays where it is in the handshake, or closes. -/
theorem Accepting.listens (h : c.Accepting lis ch) (htaken : taken = [])
    (hstate : lis'.state = .synRecv ∨ lis'.state = .closed) (hlinked : Linked lis lis') :
    (c.served server sent taken).Accepting lis' ch := by
  obtain ⟨hparent, hqueue⟩ := hlinked
  have hread := served_read c server sent htaken
  refine ⟨hstate, hparent.trans h.root, hqueue ▸ h.queue, h.accepted, h.parent, h.child,
    fun hq => h.queued (hqueue ▸ hq), out_of_fields h.out hread rfl rfl, fun hready => ?_⟩
  refine (h.ready ?_).of_fields hread rfl rfl rfl rfl rfl
  exact hready.imp_right fun hq => hqueue ▸ hq

/-- A child that receives nothing and stays in its state, or comes to the end of it. -/
theorem Accepting.idles (h : c.Accepting lis ch) (htaken : taken = []) (hnxt : ch'.rcvNxt = ch.rcvNxt)
    (hofo : ch'.rcvOfoBuf = ch.rcvOfoBuf) (hbuf : ch'.rcvBuf = ch.rcvBuf) (hparent : ch'.parent = ch.parent)
    (hstate : ch'.state = ch.state ∨
      Ended ch'.state ∧ (ch.state = .synRecv ∨ ch.state = .closed → ch'.state = .closed)) :
    (c.served server sent taken).Accepting lis ch' := by
  have hread := served_read c server sent htaken
  refine ⟨h.state, h.root, h.queue, h.accepted, hparent.trans h.parent, ?_, fun hq => ?_,
    out_of_fields h.out hread rfl hbuf, fun hready => ?_⟩
  · rcases hstate with hsame | ⟨hended, -⟩
    · exact hsame ▸ h.child
    · exact .inr hended
  · rcases hstate with hsame | ⟨-, hclosed⟩
    · exact hsame ▸ h.queued hq
    · exact .inr (hclosed (h.queued hq))
  · refine (h.ready ?_).of_fields hread rfl rfl hnxt hofo hbuf
    rcases hready with hready | hq
    · rcases hstate with hsame | ⟨hended, -⟩
      · exact .inl (hsame ▸ hready)
      · exact absurd hready hended.2.2
    · exact .inr hq

end Kept

/-- A child that takes its sequence number from an acknowledgement, and may join the queue. -/
theorem Accepting.takes {lis ch ch' : TcpSock} {cb : TcpCb} {server : Host} {sent : List Packet}
    {taken : List U8} {enqueue : Bool} (h : c.Accepting lis ch) (htaken : taken = [])
    (when : TakesSeq (some lis) ch cb) (hseq : cb.seq = ch.rcvNxt) (hnxt : ch'.rcvNxt = cb.seq)
    (hofo : ch'.rcvOfoBuf = ch.rcvOfoBuf) (hbuf : ch'.rcvBuf = ch.rcvBuf) (hparent : ch'.parent = ch.parent)
    (hstate : ch'.state = ch.state) (hqueue : enqueue = true → ch.state = .synRecv) :
    (c.served server sent taken).Accepting (joined enqueue lis) ch' := by
  have hread := served_read c server sent htaken
  have hreceptive : Receptive ch.state := by
    obtain ⟨-, -, hwhen⟩ := when
    split at hwhen
    · exact .inl ‹_›
    · exact .inr ‹_›
    · contradiction
  refine ⟨?_, (joined_eq _ lis).2.trans h.root, joined_queue enqueue h.queue, h.accepted,
    hparent.trans h.parent, .inl (hstate ▸ hreceptive), fun hq => ?_, out_of_fields h.out hread rfl hbuf,
    fun _ => (h.ready (.inl hreceptive)).of_fields hread rfl rfl (hnxt.trans hseq) hofo hbuf⟩
  · rw [(joined_eq _ lis).1]
    exact h.state
  · rw [hstate]
    cases enqueue with
    | true => exact .inl (hqueue rfl)
    | false => exact h.queued hq

/-- A harmless packet handled by the child. -/
theorem Accepting.process {lis ch tsk : TcpSock} {cb : TcpCb} {sleeps : List (List Nat)}
    {outcome : Outcome} {server : Host} {f : Int → Int} (h : c.Accepting lis ch)
    (hsending : c.Sending tsk) (hgenuine : cb.payload ≠ [] →
      ∃ x ∈ c.emitted, cb.payload = x.2 ∧ cb.seq = Serial.nth 0 x.1)
    (hseq : TakesSeq (some lis) ch cb → cb.seq = ch.rcvNxt) (hrange : HandlesData ch cb → c.InRange ch cb)
    (hr : Received (some lis) sleeps ch cb outcome) :
    (c.served server outcome.sent outcome.taken).Accepting (joined outcome.acceptEnqueue lis)
      (Host.recount f outcome.tsk) := by
  have hlinked := hr.linked.1
  cases hr with
  | idle nxt ofo buf state taken queue linked =>
    rw [queue]
    exact h.idles taken nxt ofo buf hlinked state
  | takes when nxt ofo buf state taken queue linked =>
    exact h.takes taken when (hseq when) nxt ofo buf hlinked state queue
  | data when run =>
    rename_i rx
    have hready := (h.ready (.inl (.inr when.1))).data hsending (hgenuine when.2.2.2.2) (hrange when) run
    have hopen : rx.tsk.state = .established := by
      have honly := (Rx.handleRecvData_frame run).tsk
      unfold RecvOnly at honly
      rw [honly]
      exact when.1
    have hready' : (c.served server rx.sent rx.taken).Ready (Host.recount f rx.tsk) :=
      hready.of_fields rfl rfl rfl rfl rfl rfl
    refine ⟨h.state, h.root, h.queue, h.accepted, hlinked.trans h.parent, .inl (.inr hopen), ?_,
      hready'.out, fun _ => hready'⟩
    intro hq
    rcases h.queued hq with hch | hch
    all_goals
      rw [when.1] at hch
      contradiction
  | leaves buf source state taken queue linked =>
    have hempty : lis.acceptQueue ≠ [1] := by
      intro hq
      rcases h.queued hq with hch | hch
      · exact source.1 hch
      · exact source.2 hch
    rw [queue]
    refine ⟨h.state, h.root, h.queue, h.accepted, hlinked.trans h.parent, .inr state,
      fun hq => absurd hq hempty, out_of_fields h.out (served_read c server _ taken) rfl buf, fun hready => ?_⟩
    rcases hready with hready | hq
    · exact absurd hready state.2.2
    · exact absurd hq hempty

/-! ### The steps of the server -/

/-- A packet that reaches the listener while it is alone. -/
theorem ServerInv.listener {lis tsk : TcpSock} {packet : Packet} {now : Int} {iss : U32}
    {sleeps : List (List Nat)} {outcome : Outcome} (hsocks : c.server.socks = [lis])
    (hstate : lis.state = .listen ∨ lis.state = .closed) (hroot : lis.parent = none)
    (hqueue : lis.acceptQueue = []) (hempty : lis.rcvBuf.contents = []) (haccepted : c.accepted = none)
    (hread : c.read = []) (hsending : c.Sending tsk) (hpacket : packet ∈ c.toServer)
    (hrun : tcpProcess now 0 iss none sleeps lis (tcpCbInit packet) = some outcome) :
    ServerInv (c.served (c.server.commit 0 outcome) outcome.sent outcome.taken) := by
  have hlisten : lis.state = .listen ∨ lis.state = .synRecv ∨ lis.state = .closed := by
    rcases hstate with hstate | hstate
    · exact .inl hstate
    · exact .inr (.inr hstate)
  rcases tcpProcess_listener hlisten hrun with
    ⟨hchild, htaken, henqueue, htsk⟩ | ⟨-, hsyn, child, sent, rfl, hst, hparent, hnxt, hofo, hbuf⟩
  · obtain ⟨f, hf⟩ := Host.commit_socks c.server hchild
    have hsocks' : (c.server.commit 0 outcome).socks = [Host.recount f outcome.tsk] := by
      rw [hf, henqueue]
      simp [Host.modify, hsocks]
    have hread' : (c.served (c.server.commit 0 outcome) outcome.sent outcome.taken).read = [] := by
      show c.read ++ outcome.taken = []
      rw [hread, htaken]
      rfl
    rcases htsk with htsk | htsk
    · rw [htsk] at hsocks'
      exact .alone hsocks' hstate hroot hqueue hempty haccepted hread'
    · rw [htsk] at hsocks'
      exact .alone hsocks' (.inr rfl) hroot hqueue hempty haccepted hread'
  · have hzero : packet.seq = 0 := (hsending.wire packet hpacket).1 hsyn
    let outcome : Outcome :=
      { TcpSock.only ({ lis with state := .synRecv }, sent) with child := some child }
    have hsocks' : ∃ f, (c.server.commit 0 outcome).socks =
        [{ lis with state := .synRecv, listenQueue := lis.listenQueue ++ [1] }, Host.recount f child] := by
      obtain ⟨f, hf⟩ := Host.hash_socks { c.server with
        socks := [{ lis with state := .synRecv, listenQueue := lis.listenQueue ++ [1] }, child] } 1
      refine ⟨f, ?_⟩
      have hcommit : c.server.commit 0 outcome = Host.hash { c.server with
          socks := [{ lis with state := .synRecv, listenQueue := lis.listenQueue ++ [1] }, child] } 1 := by
        simp [outcome, Host.commit, Host.addChild, Host.modify, hsocks, TcpSock.only]
      rw [hcommit, hf]
      rfl
    obtain ⟨f, hsocks'⟩ := hsocks'
    have hready : (c.served (c.server.commit 0 outcome) sent []).Ready (Host.recount f child) := by
      refine ⟨⟨1, [], []⟩, ⟨?_, hofo, ?_⟩, ⟨List.Pairwise.nil, by simp, by simp⟩,
        ⟨rfl, Sits.nil _ _, by simp⟩, by simp⟩
      · show child.rcvNxt = _
        rw [hnxt]
        show packet.seq + 1 = _
        rw [hzero]
        rfl
      · show (c.read ++ []) ++ child.rcvBuf.contents = []
        rw [hread, hbuf, hempty]
        rfl
    refine .child hsocks' ⟨.inl rfl, hroot, .inl hqueue, ?_, hparent, .inl (.inl hst), ?_, hready.out,
      fun _ => hready⟩
    · show ∀ id ∈ c.accepted, id = 1
      rw [haccepted]
      simp
    · intro _
      exact .inl hst

/-- A harmless packet that reaches the server once its listener has a child. -/
theorem Accepting.deliver {lis ch tsk tsk₁ : TcpSock} {packet : Packet} {now : Int} {iss : U32} {i : Nat}
    {sleeps : List (List Nat)} {outcome : Outcome} (h : c.Accepting lis ch)
    (hsocks : c.server.socks = [lis, ch]) (hsending : c.Sending tsk) (hpacket : packet ∈ c.toServer)
    (htsk : c.server.socks[i]? = some tsk₁) (hharmless : c.Harmless tsk₁ (tcpCbInit packet))
    (hrun : tcpProcess now i iss (tsk₁.parent.bind fun p => c.server.socks[p]?) sleeps tsk₁
      (tcpCbInit packet) = some outcome) :
    ServerInv (c.served (c.server.commit i outcome) outcome.sent outcome.taken) := by
  have hcases : i = 0 ∧ tsk₁ = lis ∨ i = 1 ∧ tsk₁ = ch := by
    rw [hsocks] at htsk
    match i with
    | 0 => exact .inl ⟨rfl, (Option.some.inj htsk).symm⟩
    | 1 => exact .inr ⟨rfl, (Option.some.inj htsk).symm⟩
    | _ + 2 => simp at htsk
  rcases hcases with ⟨rfl, rfl⟩ | ⟨rfl, rfl⟩
  · rw [h.root] at hrun
    rcases tcpProcess_listener (.inr h.state) hrun with
      ⟨hchild, htaken, henqueue, htsk'⟩ | ⟨hlisten, -⟩
    · obtain ⟨f, hf⟩ := Host.commit_socks c.server hchild
      have hsocks' : (c.server.commit 0 outcome).socks = [Host.recount f outcome.tsk, ch] := by
        rw [hf, henqueue]
        simp [Host.modify, hsocks]
      have hlis : (outcome.tsk.state = .synRecv ∨ outcome.tsk.state = .closed) ∧
          Linked tsk₁ outcome.tsk := by
        rcases htsk' with htsk' | htsk' <;> rw [htsk']
        · exact ⟨h.state, rfl, rfl⟩
        · exact ⟨.inr rfl, rfl, rfl⟩
      exact .child hsocks' (h.listens htaken hlis.1 hlis.2)
    · rcases h.state with hst | hst <;> rw [hst] at hlisten <;> contradiction
  · have hlisten : tsk₁.state ≠ .listen ∧ tsk₁.state ≠ .synSent := by
      rcases h.child with hst | hst
      · rcases hst with hst | hst <;> rw [hst] <;> exact ⟨TcpState.noConfusion, TcpState.noConfusion⟩
      · exact ⟨hst.1, hst.2.1⟩
    have hparent : (tsk₁.parent.bind fun p => c.server.socks[p]?) = some lis := by
      rw [h.parent, hsocks]
      rfl
    rw [hparent] at hrun
    unfold Harmless at hharmless
    rw [hparent] at hharmless
    have hreceived := tcpProcess_received hlisten.1 hlisten.2 hrun
    obtain ⟨f, hf⟩ := Host.commit_socks c.server (tcpProcess_child hlisten.1 hrun)
    have hsocks' : (c.server.commit 1 outcome).socks =
        [joined outcome.acceptEnqueue lis, Host.recount f outcome.tsk] := by
      have hout : outcome.tsk.parent = some 0 := hreceived.linked.1.trans h.parent
      rw [hf]
      cases outcome.acceptEnqueue with
      | false => simp [Host.modify, hsocks, joined]
      | true => simp [Host.acceptEnqueue, Host.modify, hsocks, joined, hout]
    exact .child hsocks' (h.process hsending (hsending.wire packet hpacket).2 hharmless.1 hharmless.2
      hreceived)

/-- A timer scan on the server. -/
theorem ServerInv.timer {i : Nat} {sent : List Packet} {server : Host} (h : ServerInv c)
    (hrun : c.server.scanRetransTimer i = some (sent, server)) : ServerInv (c.served server sent []) := by
  obtain ⟨tsk, f, htsk, -, hsocks'⟩ := Host.scanRetransTimer_socks hrun
  obtain ⟨hnxt, hofo, hbuf, ⟨hparent, hqueue⟩, hstate⟩ := scanRetransTimer_received tsk
  have hread : (c.served server sent []).read = c.read := List.append_nil _
  cases h with
  | alone socks state root queue empty accepted read =>
    rename_i lis
    rw [socks] at htsk hsocks'
    match i with
    | 0 =>
      obtain rfl := Option.some.inj htsk
      refine .alone hsocks' ?_ (hparent.trans root) (hqueue.trans queue) ?_ accepted (hread.trans read)
      · rcases hstate with hstate | hstate
        · exact hstate ▸ state
        · exact .inr hstate
      · show lis.scanRetransTimer.1.rcvBuf.contents = []
        rw [hbuf]
        exact empty
    | _ + 1 => simp at htsk
  | child socks accepting =>
    rename_i lis ch
    rw [socks] at htsk hsocks'
    match i with
    | 0 =>
      obtain rfl := Option.some.inj htsk
      refine .child hsocks' (accepting.listens rfl ?_ ⟨hparent, hqueue⟩)
      rcases hstate with hstate | hstate
      · exact hstate ▸ accepting.state
      · exact .inr hstate
    | 1 =>
      obtain rfl := Option.some.inj htsk
      have hclosed : Ended .closed := by simp [Ended, Receptive]
      refine .child hsocks' (accepting.idles rfl hnxt hofo hbuf hparent ?_)
      rcases hstate with hstate | hstate
      · exact .inl hstate
      · exact .inr ⟨hstate ▸ hclosed, fun _ => hstate⟩
    | _ + 2 => simp at htsk

/-- `tcp_sock_accept` returns the child. -/
theorem ServerInv.accept {i : Nat} {server : Host} (h : ServerInv c)
    (hrun : c.server.sockAccept 0 = some (i, server)) :
    ServerInv { c with server, accepted := some i } := by
  cases h with
  | alone socks state root queue empty accepted read =>
    simp only [Host.sockAccept, socks, List.getElem?_cons_zero, queue] at hrun
    cases hrun
  | child socks accepting =>
    rename_i lis ch
    rcases accepting.queue with hq | hq
    · simp only [Host.sockAccept, socks, List.getElem?_cons_zero, hq] at hrun
      cases hrun
    · simp only [Host.sockAccept, socks, List.getElem?_cons_zero, hq] at hrun
      cases hrun
      have hready := accepting.ready (.inr hq)
      refine @ServerInv.child _ { lis with acceptQueue := [], acceptBacklog := lis.acceptBacklog - 1 }
        { ch with state := .established, nrState := .open, cwnd := 1, ssthresh := 16 }
        (by simp [Host.modify, socks]) ⟨accepting.state, accepting.root, .inl rfl, ?_,
        accepting.parent, .inl (.inr rfl), by simp, accepting.out, fun _ => ?_⟩
      · simp
      · exact hready.of_fields rfl rfl rfl rfl rfl rfl

/-- `tcp_sock_read` on the accepted socket. -/
theorem ServerInv.read {len : Nat} {out : List U8} {server : Host} (h : ServerInv c)
    (hrun : (c.accepted.bind fun i => c.server.sockRead i len) = some (out, server)) :
    ServerInv { c with server, read := c.read ++ out } := by
  cases h with
  | alone socks state root queue empty accepted read =>
    rw [accepted] at hrun
    cases hrun
  | child socks accepting =>
    rename_i lis ch
    obtain ⟨i, hi, hrun⟩ := Option.bind_eq_some_iff.mp hrun
    obtain rfl := accepting.accepted i hi
    simp only [Host.sockRead, socks, List.getElem?_cons_succ, List.getElem?_cons_zero,
      Option.bind_some] at hrun
    split at hrun
    · cases hrun
    · rename_i out' ch' hread
      cases hrun
      have hsocks' : (c.server.modify 1 fun _ => ch').socks = [lis, ch'] := by simp [Host.modify, socks]
      have hkeep : ch'.state = ch.state ∧ ch'.parent = ch.parent ∧
          out ++ ch'.rcvBuf.contents = ch.rcvBuf.contents := by
        unfold TcpSock.sockRead at hread
        split at hread <;> cases hread
        refine ⟨rfl, rfl, ?_⟩
        rw [RingBuffer.read_out, RingBuffer.read_contents, List.take_append_drop]
      refine .child hsocks' ⟨accepting.state, accepting.root, accepting.queue, accepting.accepted,
        hkeep.2.1.trans accepting.parent, hkeep.1 ▸ accepting.child,
        fun hq => hkeep.1 ▸ accepting.queued hq, ?_, fun hready => ?_⟩
      · show Sits _ 1 ((c.read ++ out) ++ ch'.rcvBuf.contents)
        rw [List.append_assoc, hkeep.2.2]
        exact accepting.out
      · exact (accepting.ready (hkeep.1 ▸ hready)).read hread

/-- **The server's half.** A step whose packet is harmless keeps the server's account. -/
theorem ServerInv.step {e : ConnEvent} (h : ServerInv c) (hclient : ClientInv c) (hsafe : InOrder c e)
    (hstep : c.Step e c') : ServerInv c' := by
  cases hside : onClient e with
  | true => exact (client_step hside hstep).serverInv h
  | false =>
    unfold Step Conn.step at hstep
    cases e with
    | toServer j now iss sleeps =>
      simp only at hstep
      split at hstep
      · cases hstep
      · rename_i packet hpacket
        split at hstep
        · cases hstep
        · rename_i sent taken server hrun
          cases hstep
          obtain ⟨i, tsk₁, outcome, hlookup, htsk, hprocess, rfl, rfl, rfl⟩ := Host.handlePacket_cases hrun
          have hmem : packet ∈ c.toServer := List.mem_of_getElem? hpacket
          cases hclient with
          | start thread client space emitted wire written =>
            rw [wire] at hmem
            cases hmem
          | running thread socks sending written =>
            cases h with
            | alone hsocks state root queue empty accepted read =>
              rw [hsocks] at htsk
              match i with
              | 0 =>
                obtain rfl := Option.some.inj htsk
                rw [root] at hprocess
                exact .listener hsocks state root queue empty accepted read sending hmem hprocess
              | _ + 1 => simp at htsk
            | child hsocks accepting =>
              exact accepting.deliver hsocks sending hmem htsk (hsafe packet hpacket i hlookup tsk₁ htsk)
                hprocess
    | serverTimer i =>
      simp only at hstep
      split at hstep <;> cases hstep
      rename_i sent server hrun
      have hserved := h.timer hrun
      have heq : c.served server sent [] =
          { c with server, toClient := c.toClient ++ sent } := by simp [served]
      rw [heq] at hserved
      exact hserved
    | accept =>
      simp only at hstep
      split at hstep <;> cases hstep
      exact h.accept ‹_›
    | read len =>
      simp only at hstep
      split at hstep <;> cases hstep
      exact h.read ‹_›
    | connect | connected | write | resume | toClient | clientTimer => cases hside

end NetStack.Tcp.Conn
