import NetStack.Tcp.Connection

/-! The client's half of a connection.

What the client has sent is one stream. Every data segment in its send buffer or on the
wire is a piece of it, numbered by its place (`ClientInv`), whatever packets reach the
client and whenever its timer runs out (`ClientInv.step`). -/
namespace NetStack.Tcp.Conn
open Reassembly (Sits)

variable {c c' : Conn}

/-- What the client's sequence numbers stand for. -/
def stream (c : Conn) : Nat → Option U8 := fun p => (c.space[p]?).join

/-- A SYN is numbered 0, and a data segment is one the client put together, numbered by
its place. -/
def Genuine (c : Conn) (packet : Packet) : Prop :=
  (hasFlag packet.flags tcpSyn = true → packet.seq = 0) ∧
    (packet.payload ≠ [] → ∃ x ∈ c.emitted, packet.payload = x.2 ∧ packet.seq = Serial.nth 0 x.1)

/-- The client's socket once it has sent its SYN. -/
structure Sending (c : Conn) (tsk : TcpSock) : Prop where
  state : tsk.state ≠ .listen
  nxt : tsk.sndNxt = Serial.nth 0 c.space.length
  buffered : ∀ packet ∈ tsk.sendBuf, c.Genuine packet
  wire : ∀ packet ∈ c.toServer, c.Genuine packet
  sits : ∀ x ∈ c.emitted, Sits c.stream x.1 x.2
  short : ∀ x ∈ c.emitted, x.2.length ≤ mss
  first : c.space.head? = some none

/-- The client before its `tcp_sock_connect` and after; what was passed to its writes is
what has a number, and what the write under way still has to send. -/
inductive ClientInv (c : Conn) : Prop
  | start (thread : c.thread = .start) (client : c.client = freshClient) (space : c.space = [])
      (emitted : c.emitted = []) (wire : c.toServer = []) (written : c.written = [])
  | running {tsk : TcpSock} (thread : c.thread ≠ .start) (socks : c.client.socks = [tsk])
      (sending : c.Sending tsk) (written : c.space.filterMap id ++ c.thread.pending = c.written)

/-- From one state of the connection to the next, the server unmoved: the stream and the
segments only grow. -/
structure Extends (c c' : Conn) : Prop where
  server : c'.server = c.server
  accepted : c'.accepted = c.accepted
  read : c'.read = c.read
  space : c.space <+: c'.space
  emitted : c.emitted ⊆ c'.emitted

theorem stream_mono (h : c.space <+: c'.space) {p : Nat} {b : U8} (hb : c.stream p = some b) :
    c'.stream p = some b := by
  obtain ⟨ext, hext⟩ := h
  unfold stream at hb ⊢
  rw [← hext]
  cases hp : c.space[p]? with
  | none => simp [hp] at hb
  | some x =>
    rw [List.getElem?_append_left (List.getElem?_eq_some_iff.mp hp).1, hp]
    simpa [hp] using hb

theorem sits_mono (h : c.space <+: c'.space) {p : Nat} {data : List U8} (hs : Sits c.stream p data) :
    Sits c'.stream p data := fun i hi => stream_mono h (hs i hi)

theorem Genuine.mono (h : c.emitted ⊆ c'.emitted) {packet : Packet} (hg : c.Genuine packet) :
    c'.Genuine packet := by
  refine ⟨hg.1, fun hne => ?_⟩
  obtain ⟨x, hx, heq⟩ := hg.2 hne
  exact ⟨x, h hx, heq⟩

/-- What takes no data is genuine. -/
theorem Bare.genuine {packet : Packet} (h : Bare packet) : c.Genuine packet := by
  refine ⟨fun hsyn => ?_, fun hne => absurd h.1 hne⟩
  rw [h.2] at hsyn
  contradiction

/-- A copy with a fresh acknowledgement number is as genuine. -/
theorem Genuine.resent {packet : Packet} {ack : U32} (h : c.Genuine packet) :
    c.Genuine { packet with ack } := h

/-- What is on the wire and in the buffer of a socket stays genuine as segments are added. -/
theorem Sending.mono {tsk : TcpSock} (h : c.Sending tsk) (hemitted : c.emitted ⊆ c'.emitted) :
    (∀ packet ∈ tsk.sendBuf, c'.Genuine packet) ∧ ∀ packet ∈ c.toServer, c'.Genuine packet :=
  ⟨fun packet hp => (h.buffered packet hp).mono hemitted, fun packet hp => (h.wire packet hp).mono hemitted⟩

theorem head?_append {α : Type} {l ext : List α} {x : α} (h : l.head? = some x) :
    (l ++ ext).head? = some x := by
  cases l with
  | nil => cases h
  | cons => exact h

theorem nth_toNat_sub (base b : U32) (n : Nat) :
    Serial.nth base (n + (b - Serial.nth base n).toNat) = b := by
  rw [← Serial.nth_add, BitVec.ofNat_toNat, BitVec.setWidth_eq]
  ring

/-- A call on the client that adds no data keeps the invariant. -/
theorem Sending.call {tsk tsk' : TcpSock} {client : Host} {sent : List Packet} (h : c.Sending tsk)
    (hsocks : c.client.socks = [tsk]) (hsocks' : client.socks = [tsk']) (hquiet : Quiet tsk tsk' sent) :
    (c.clientCall client sent).Sending tsk' := by
  have hspace : c.space <+: (c.clientCall client sent).space := List.prefix_append _ _
  refine ⟨hquiet.state, ?_, ?_, ?_, ?_, h.short, head?_append h.first⟩
  · show tsk'.sndNxt = Serial.nth 0 (c.space ++ _).length
    simp only [sndNxt, hsocks, hsocks', List.getElem?_cons_zero, List.length_append, List.length_replicate]
    rw [h.nxt, nth_toNat_sub]
  · intro packet hp
    rcases hquiet.buf packet hp with hp | hp
    · exact h.buffered packet hp
    · exact Bare.genuine hp
  · intro packet hp
    rcases List.mem_append.mp hp with hp | hp
    · exact h.wire packet hp
    · rcases hquiet.sent packet hp with hp | ⟨entry, he, heq⟩
      · exact Bare.genuine hp
      · rw [heq]
        exact (h.buffered entry he).resent
  · intro x hx
    exact sits_mono hspace (h.sits x hx)

theorem ClientInv.call {tsk tsk' : TcpSock} {client : Host} {sent : List Packet}
    (hthread : c.thread ≠ .start) (hsocks : c.client.socks = [tsk]) (h : c.Sending tsk)
    (hwritten : c.space.filterMap id ++ c.thread.pending = c.written) (hsocks' : client.socks = [tsk'])
    (hquiet : Quiet tsk tsk' sent) : ClientInv (c.clientCall client sent) := by
  refine .running hthread hsocks' (h.call hsocks hsocks' hquiet) ?_
  show (c.space ++ List.replicate _ none).filterMap id ++ c.thread.pending = c.written
  rw [← hwritten, List.filterMap_append]
  simp

theorem clientCall_extends (c : Conn) (client : Host) (sent : List Packet) : Extends c (c.clientCall client sent) :=
  ⟨rfl, rfl, rfl, List.prefix_append _ _, fun _ h => h⟩

/-- Setting other fields keeps the socket's account. -/
theorem Sending.of_fields {tsk tsk' : TcpSock} (h : c.Sending tsk) (hstate : tsk'.state = tsk.state)
    (hnxt : tsk'.sndNxt = tsk.sndNxt) (hbuf : tsk'.sendBuf = tsk.sendBuf) : c.Sending tsk' :=
  ⟨hstate ▸ h.state, hnxt.trans h.nxt, hbuf ▸ h.buffered, h.wire, h.sits, h.short, h.first⟩

theorem sits_append_chunk (space : List (Option U8)) (chunk : List U8) :
    Sits (fun p => ((space ++ chunk.map some)[p]?).join) space.length chunk := by
  intro i hi
  show ((space ++ chunk.map some)[space.length + i]?).join = some chunk[i]
  rw [List.getElem?_append_right (Nat.le_add_right _ i)]
  simp [hi]

/-- The data segment of a write: the bytes get their numbers, and the segment its place. -/
theorem Sending.segment {tsk : TcpSock} {chunk : List U8} (h : c.Sending tsk) (hne : chunk ≠ [])
    (hshort : chunk.length ≤ mss) (state : WriteState) :
    (c.writeCall (tsk.sendPacket chunk).1 state [(tsk.sendPacket chunk).2]).Sending
      (tsk.sendPacket chunk).1 := by
  obtain ⟨hbuf, hnxt⟩ := tsk.sendPacket_send chunk
  have hstate := (tsk.sendPacket_behind chunk).2
  have hpay : [(tsk.sendPacket chunk).2].flatMap Packet.payload = chunk := List.append_nil chunk
  let c' := c.writeCall (tsk.sendPacket chunk).1 state [(tsk.sendPacket chunk).2]
  have hspace : c'.space = c.space ++ chunk.map some := by
    show c.space ++ List.map some _ = _
    rw [hpay]
  have hemitted : c'.emitted = c.emitted ++ [(c.space.length, chunk)] := by
    show (if [(tsk.sendPacket chunk).2].flatMap Packet.payload = [] then _ else _) = _
    rw [hpay, if_neg hne]
  have hsub : c.emitted ⊆ c'.emitted := hemitted ▸ List.subset_append_left _ _
  have hnew : c'.Genuine (tsk.sendPacket chunk).2 := by
    refine ⟨fun hsyn => ?_, fun _ => ⟨(c.space.length, chunk), ?_, rfl, h.nxt⟩⟩
    · have hflags : hasFlag (tcpPsh ||| tcpAck) tcpSyn = false := by decide
      exact absurd hsyn (by rw [show (tsk.sendPacket chunk).2.flags = tcpPsh ||| tcpAck from rfl, hflags]
                            exact Bool.false_ne_true)
    · rw [hemitted]
      exact List.mem_append_right _ (List.mem_singleton_self _)
  obtain ⟨hbuffered, hwire⟩ := h.mono hsub
  refine ⟨?_, ?_, ?_, ?_, ?_, ?_, ?_⟩
  · rw [hstate]
    exact h.state
  · rw [hnxt, h.nxt, Serial.nth_add]
    congr 1
    show _ = c'.space.length
    rw [hspace, List.length_append, List.length_map]
  · intro packet hp
    rw [hbuf] at hp
    rcases List.mem_append.mp hp with hp | hp
    · exact hbuffered packet hp
    · rw [List.mem_singleton.mp hp]
      exact hnew
  · intro packet hp
    rcases List.mem_append.mp hp with hp | hp
    · exact hwire packet hp
    · rw [List.mem_singleton.mp hp]
      exact hnew
  · intro x hx
    have hx : x ∈ c'.emitted := hx
    rw [hemitted] at hx
    rcases List.mem_append.mp hx with hx | hx
    · exact sits_mono (hspace ▸ List.prefix_append _ _) (h.sits x hx)
    · rw [List.mem_singleton.mp hx]
      have := sits_append_chunk c.space chunk
      rw [← hspace] at this
      exact this
  · intro x hx
    have hx : x ∈ c'.emitted := hx
    rw [hemitted] at hx
    rcases List.mem_append.mp hx with hx | hx
    · exact h.short x hx
    · exact List.mem_singleton.mp hx ▸ hshort
  · show c'.space.head? = some none
    rw [hspace]
    exact head?_append h.first

/-- A stretch of `tcp_sock_write` that has `buf` left to send. -/
theorem Sending.writeLoop {tsk : TcpSock} (h : c.Sending tsk) (buf : List U8) :
    (c.writeCall (tsk.writeLoop buf).1 (tsk.writeLoop buf).2.1 (tsk.writeLoop buf).2.2).Sending
        (tsk.writeLoop buf).1 ∧
      (c.writeCall (tsk.writeLoop buf).1 (tsk.writeLoop buf).2.1
          (tsk.writeLoop buf).2.2).space.filterMap id ++ (tsk.writeLoop buf).2.1.pending =
        c.space.filterMap id ++ buf := by
  unfold TcpSock.writeLoop
  by_cases hnil : buf = []
  · rw [if_pos hnil, hnil]
    obtain ⟨hbuffered, hwire⟩ := h.mono (show c.emitted ⊆ (c.writeCall tsk .drain []).emitted from fun _ hx => hx)
    refine ⟨⟨h.state, ?_, hbuffered, ?_, ?_, h.short, head?_append h.first⟩, ?_⟩
    · simpa [writeCall] using h.nxt
    · simpa [writeCall] using hwire
    · intro x hx
      exact sits_mono (List.prefix_append _ _) (h.sits x hx)
    · simp [writeCall, WriteState.pending]
  · rw [if_neg hnil]
    have hne : buf.take mss ≠ [] := by
      have hmss : mss ≠ 0 := by decide
      simp [hnil, hmss]
    refine ⟨h.segment hne (List.length_take_le mss buf) _, ?_⟩
    show (c.space ++ List.map some (List.flatMap Packet.payload [_])).filterMap id ++ buf.drop mss = _
    have hpay : [(tsk.sendPacket (buf.take mss)).2].flatMap Packet.payload = buf.take mss :=
      List.append_nil _
    rw [hpay, List.filterMap_append, List.append_assoc]
    congr 1
    simp [List.filterMap_map]

/-- The socket that has just sent its SYN, and the SYN. -/
theorem connect_sent {addr : SockAddr} {sent : List Packet} {client : Host}
    (h : freshClient.sockConnect 0 addr = some (sent, client)) :
    ∃ tsk packet, client.socks = [tsk] ∧ sent = [packet] ∧ tsk.state = .synSent ∧ tsk.sndNxt = 1 ∧
      tsk.sendBuf = [packet] ∧ packet.seq = 0 ∧ packet.payload = [] := by
  let tsk₀ : TcpSock := { allocTcpSock with
    skSip := addr.sip, skSport := addr.sport, skDip := addr.dip, skDport := addr.dport, refCnt := 0 + 1 }
  obtain ⟨hbuf, hnxt⟩ := tsk₀.setRetransTimer.sendControlPacket_send tcpSyn
  have hkept : (tcpSyn != tcpAck && !hasFlag tcpSyn tcpRst) = true := by decide
  have hnumber : hasFlag tcpSyn (tcpSyn ||| tcpFin) = true := by decide
  rw [hkept, if_pos rfl, TcpSock.setRetransTimer_sendBuf] at hbuf
  rw [hnumber, if_pos rfl, TcpSock.setRetransTimer_sndNxt] at hnxt
  have hseq : (tsk₀.setRetransTimer.sendControlPacket tcpSyn).2.seq = 0 :=
    TcpSock.setRetransTimer_sndNxt tsk₀
  have hpay : (tsk₀.setRetransTimer.sendControlPacket tcpSyn).2.payload = [] := rfl
  have hrun : freshClient.sockConnect 0 addr = some ([(tsk₀.setRetransTimer.sendControlPacket tcpSyn).2],
      Host.hash ⟨[{ (tsk₀.setRetransTimer.sendControlPacket tcpSyn).1 with state := .synSent }],
        [], [], [0], []⟩ 0) := rfl
  obtain ⟨rfl, rfl⟩ := Prod.mk.inj (Option.some.inj (hrun.symm.trans h))
  obtain ⟨f, hf⟩ := Host.hash_socks ⟨[{ (tsk₀.setRetransTimer.sendControlPacket tcpSyn).1 with
    state := .synSent }], [], [], [0], []⟩ 0
  exact ⟨_, _, hf, rfl, rfl, hnxt, hbuf, hseq, hpay⟩

theorem ClientInv.connect {addr : SockAddr} {sent : List Packet} {client : Host}
    (hclient : c.client = freshClient) (hspace : c.space = []) (hemitted : c.emitted = [])
    (hwire : c.toServer = []) (hwritten : c.written = [])
    (h : c.client.sockConnect 0 addr = some (sent, client)) :
    ClientInv { c.clientCall client sent with thread := .connecting } := by
  rw [hclient] at h
  obtain ⟨tsk, packet, hsocks, rfl, hstate, hnxt, hbuf, hseq, hpay⟩ := connect_sent h
  have hgenuine : ∀ q ∈ [packet], ({ c.clientCall client [packet] with thread := .connecting } :
      Conn).Genuine q := by
    intro q hq
    rw [List.mem_singleton.mp hq]
    exact ⟨fun _ => hseq, fun hne => absurd hpay hne⟩
  have hgrown : c.space ++ List.replicate (sndNxt client - sndNxt c.client).toNat none = [none] := by
    have h0 : sndNxt client = 1 := by simp [sndNxt, hsocks, hnxt]
    have h1 : sndNxt c.client = 0 := by rw [hclient]; rfl
    rw [h0, h1, hspace]
    rfl
  refine .running ClientThread.noConfusion hsocks ⟨?_, ?_, ?_, ?_, ?_, ?_, ?_⟩ ?_
  · rw [hstate]
    exact TcpState.noConfusion
  · show tsk.sndNxt = Serial.nth 0 (c.space ++ _).length
    rw [hgrown, hnxt]
    rfl
  · rw [hbuf]
    exact hgenuine
  · show ∀ q ∈ c.toServer ++ [packet], _
    rw [hwire]
    exact hgenuine
  · show ∀ x ∈ c.emitted, _
    simp [hemitted]
  · show ∀ x ∈ c.emitted, _
    simp [hemitted]
  · show (c.space ++ _).head? = _
    rw [hgrown]
    rfl
  · show (c.space ++ _).filterMap id ++ [] = c.written
    rw [hgrown, hwritten]
    rfl

/-- Only what the account speaks of matters. -/
theorem Sending.of_conn {tsk : TcpSock} (h : c.Sending tsk) (hspace : c'.space = c.space)
    (hemitted : c'.emitted = c.emitted) (hwire : c'.toServer = c.toServer) : c'.Sending tsk := by
  obtain ⟨hbuffered, hwire'⟩ := h.mono (show c.emitted ⊆ c'.emitted from hemitted ▸ fun _ h => h)
  refine ⟨h.state, hspace ▸ h.nxt, hbuffered, hwire ▸ hwire', ?_, hemitted ▸ h.short, hspace ▸ h.first⟩
  rw [hemitted]
  exact fun x hx => sits_mono (hspace ▸ List.prefix_refl _) (h.sits x hx)

/-- The calls on the client. -/
def onClient : ConnEvent → Bool
  | .connect _ | .connected | .write _ | .resume | .toClient .. | .clientTimer => true
  | .toServer .. | .serverTimer _ | .accept | .read _ => false

/-- A packet that reaches a client that has sent its SYN. -/
theorem handlePacket_quiet {tsk : TcpSock} {now : Int} {iss : U32} {packet : Packet}
    {sent : List Packet} {taken : List U8} {client : Host} (hsocks : c.client.socks = [tsk])
    (hstate : tsk.state ≠ .listen)
    (hrun : c.client.handlePacket now iss [] packet = some (sent, taken, client)) :
    ∃ tsk', client.socks = [tsk'] ∧ Quiet tsk tsk' sent := by
  obtain ⟨i, tsk₁, outcome, -, htsk, hprocess, rfl, -, rfl⟩ := Host.handlePacket_cases hrun
  rw [hsocks] at htsk
  cases i with
  | succ i => simp at htsk
  | zero =>
    obtain rfl : tsk = tsk₁ := Option.some.inj htsk
    obtain ⟨tsk', hsocks', hkept⟩ := Host.commit_single hsocks (tcpProcess_child hstate hprocess)
    have hquiet := tcpProcess_quiet hstate hprocess
    unfold Host.Bookkept at hkept
    refine ⟨tsk', hsocks', hquiet.then ?_ ?_⟩
    · rw [hkept]
      exact hquiet.state
    · rw [hkept]

/-- A timeout of a client that has sent its SYN. -/
theorem clientTimer_quiet {tsk : TcpSock} {sent : List Packet} {client : Host}
    (hsocks : c.client.socks = [tsk]) (hstate : tsk.state ≠ .listen)
    (hrun : c.client.scanRetransTimer 0 = some (sent, client)) :
    ∃ tsk', client.socks = [tsk'] ∧ Quiet tsk tsk' sent := by
  obtain ⟨tsk₁, f, htsk, rfl, hsocks'⟩ := Host.scanRetransTimer_socks hrun
  rw [hsocks] at htsk hsocks'
  obtain rfl : tsk = tsk₁ := Option.some.inj htsk
  have hquiet := TcpSock.scanRetransTimer_quiet hstate
  exact ⟨_, hsocks', hquiet.then hquiet.state rfl⟩

/-- A call on the server leaves the client's side alone. -/
theorem server_step {e : ConnEvent} (hside : onClient e = false) (hstep : c.Step e c') :
    c'.client = c.client ∧ c'.thread = c.thread ∧ c'.space = c.space ∧ c'.emitted = c.emitted ∧
      c'.toServer = c.toServer ∧ c'.written = c.written := by
  unfold Step Conn.step at hstep
  cases e with
  | toServer i now iss sleeps =>
    simp only at hstep
    split at hstep
    · cases hstep
    · split at hstep <;> cases hstep
      exact ⟨rfl, rfl, rfl, rfl, rfl, rfl⟩
  | serverTimer id =>
    simp only at hstep
    split at hstep <;> cases hstep
    exact ⟨rfl, rfl, rfl, rfl, rfl, rfl⟩
  | accept =>
    simp only at hstep
    split at hstep <;> cases hstep
    exact ⟨rfl, rfl, rfl, rfl, rfl, rfl⟩
  | read len =>
    simp only at hstep
    split at hstep <;> cases hstep
    exact ⟨rfl, rfl, rfl, rfl, rfl, rfl⟩
  | connect | connected | write | resume | toClient | clientTimer => cases hside

/-- A call on the client leaves the server alone, and the stream only grows. -/
theorem client_step {e : ConnEvent} (hside : onClient e = true) (hstep : c.Step e c') :
    Extends c c' := by
  have hwrite : ∀ tsk state sent, Extends c (c.writeCall tsk state sent) := by
    intro tsk state sent
    refine ⟨rfl, rfl, rfl, List.prefix_append _ _, ?_⟩
    simp only [writeCall]
    split
    · exact fun _ h => h
    · exact List.subset_append_left _ _
  unfold Step Conn.step at hstep
  cases e with
  | connect addr =>
    simp only at hstep
    split at hstep
    · split at hstep <;> cases hstep
      rename_i sent client _
      obtain ⟨h1, h2, h3, h4, h5⟩ := c.clientCall_extends client sent
      exact ⟨h1, h2, h3, h4, h5⟩
    · cases hstep
  | connected =>
    simp only at hstep
    split at hstep <;> cases hstep
    exact ⟨rfl, rfl, rfl, List.prefix_refl _, fun _ h => h⟩
  | write buf =>
    simp only at hstep
    split at hstep <;> cases hstep
    rename_i tsk _ _
    obtain ⟨h1, h2, h3, h4, h5⟩ := hwrite (tsk.sockWrite buf).1 (tsk.sockWrite buf).2.1
      (tsk.sockWrite buf).2.2
    exact ⟨h1, h2, h3, h4, h5⟩
  | resume =>
    simp only at hstep
    split at hstep
    · split at hstep <;> cases hstep
      exact hwrite _ _ _
    · cases hstep
  | toClient i now iss =>
    simp only at hstep
    split at hstep
    · cases hstep
    · split at hstep <;> cases hstep
      exact c.clientCall_extends _ _
  | clientTimer =>
    simp only at hstep
    split at hstep
    · cases hstep
    · cases hstep
    · cases hstep
      exact c.clientCall_extends _ _
  | toServer | serverTimer | accept | read => cases hside

/-- A step before the SYN is sent. -/
theorem start_step {e : ConnEvent} (hside : onClient e = true) (hthread : c.thread = .start)
    (hclient : c.client = freshClient) (hspace : c.space = []) (hemitted : c.emitted = [])
    (hwire : c.toServer = []) (hwritten : c.written = []) (hstep : c.Step e c') : ClientInv c' := by
  unfold Step Conn.step at hstep
  cases e with
  | connect addr =>
    simp only [hthread] at hstep
    split at hstep
    · cases hstep
    · rename_i sent client hrun
      cases hstep
      exact .connect hclient hspace hemitted hwire hwritten hrun
  | toClient i now iss =>
    -- the fresh socket is in no table
    have hnone : ∀ packet, c.client.handlePacket now iss [] packet = none := by
      rw [hclient]
      exact fun _ => rfl
    simp only [hnone] at hstep
    split at hstep <;> cases hstep
  | connected => simp only [hthread] at hstep; cases hstep
  | write buf => simp only [hthread] at hstep; cases hstep
  | resume => simp only [hthread] at hstep; cases hstep
  | clientTimer => simp only [hthread] at hstep; cases hstep
  | toServer | serverTimer | accept | read => cases hside

/-- The application writes. -/
theorem running_write {buf : List U8} {tsk : TcpSock} (hsocks : c.client.socks = [tsk]) (h : c.Sending tsk)
    (hwritten : c.space.filterMap id ++ c.thread.pending = c.written) (hstep : c.Step (.write buf) c') :
    ClientInv c' := by
  unfold Step Conn.step at hstep
  simp only [hsocks, List.getElem?_cons_zero] at hstep
  split at hstep
  · rename_i tsk₁ hidle heq
    cases heq
    cases hstep
    rw [hidle] at hwritten
    have hstate : tsk.setRetransTimer.state = tsk.state := by rw [TcpSock.setRetransTimer_eq]
    obtain ⟨hsending, hpending⟩ := (h.of_fields hstate tsk.setRetransTimer_sndNxt
      tsk.setRetransTimer_sendBuf).writeLoop buf
    refine .running ClientThread.noConfusion ?_ (hsending.of_conn rfl rfl rfl) ?_
    · simp [writeCall, Host.modify, hsocks, TcpSock.sockWrite]
    · apply hpending.trans
      show _ = c.written ++ buf
      rw [← hwritten]
      simp [ClientThread.pending, WriteState.pending]
  · cases hstep

/-- A write goes on. -/
theorem running_resume {tsk : TcpSock} (hsocks : c.client.socks = [tsk]) (h : c.Sending tsk)
    (hwritten : c.space.filterMap id ++ c.thread.pending = c.written) (hstep : c.Step .resume c') :
    ClientInv c' := by
  unfold Step Conn.step at hstep
  simp only [hsocks, List.getElem?_cons_zero] at hstep
  split at hstep
  · rename_i state tsk₁ hwriting heq
    cases heq
    rw [hwriting] at hwritten
    cases state with
    | idle => simp only [TcpSock.writeResume] at hstep; cases hstep
    | gate rest =>
      simp only [TcpSock.writeResume] at hstep
      split at hstep
      · cases hstep
      · rename_i hopen
        split at hopen
        · cases hopen
        · have heq := Option.some.inj hopen
          cases hstep
          obtain ⟨hsending, hpending⟩ := h.writeLoop rest
          rw [heq] at hsending hpending
          refine .running ClientThread.noConfusion ?_ hsending (hpending.trans hwritten)
          simp [writeCall, Host.modify, hsocks]
    | drain =>
      simp only [TcpSock.writeResume] at hstep
      split at hstep
      · cases hstep
      · rename_i hempty
        split at hempty
        · cases hempty
          cases hstep
          refine .running ClientThread.noConfusion ?_ (h.of_conn ?_ rfl ?_) ?_
          · simp [writeCall, Host.modify, hsocks]
          · simp [writeCall]
          · simp [writeCall]
          · simpa [writeCall, ClientThread.pending, WriteState.pending] using hwritten
        · cases hempty
  · cases hstep

/-- A step after it. -/
theorem running_step {e : ConnEvent} {tsk : TcpSock} (hside : onClient e = true)
    (hthread : c.thread ≠ .start) (hsocks : c.client.socks = [tsk]) (h : c.Sending tsk)
    (hwritten : c.space.filterMap id ++ c.thread.pending = c.written) (hstep : c.Step e c') :
    ClientInv c' := by
  cases e with
  | connect addr =>
    simp only [Step, Conn.step] at hstep
    cases hstep
  | connected =>
    simp only [Step, Conn.step] at hstep
    split at hstep
    · rename_i hconnecting
      cases hstep
      rw [hconnecting] at hwritten
      exact .running ClientThread.noConfusion hsocks (h.of_conn rfl rfl rfl) hwritten
    · cases hstep
  | write buf => exact running_write hsocks h hwritten hstep
  | resume => exact running_resume hsocks h hwritten hstep
  | toClient i now iss =>
    simp only [Step, Conn.step] at hstep
    split at hstep
    · cases hstep
    · split at hstep
      · cases hstep
      · rename_i hrun
        cases hstep
        obtain ⟨tsk', hsocks', hquiet⟩ := handlePacket_quiet hsocks h.state hrun
        exact .call hthread hsocks h hwritten hsocks' hquiet
  | clientTimer =>
    simp only [Step, Conn.step] at hstep
    split at hstep
    · cases hstep
    · cases hstep
    · rename_i hrun _
      cases hstep
      obtain ⟨tsk', hsocks', hquiet⟩ := clientTimer_quiet hsocks h.state hrun
      exact .call hthread hsocks h hwritten hsocks' hquiet
  | toServer | serverTimer | accept | read => cases hside

/-- **The client's half.** Every step of the connection keeps the client's account. -/
theorem ClientInv.step {e : ConnEvent} (h : ClientInv c) (hstep : c.Step e c') : ClientInv c' := by
  cases hside : onClient e with
  | true =>
    cases h with
    | start thread client space emitted wire written =>
      exact start_step hside thread client space emitted wire written hstep
    | running thread socks sending written => exact running_step hside thread socks sending written hstep
  | false =>
    obtain ⟨hclient, hthread, hspace, hemitted, hwire, hwritten⟩ := server_step hside hstep
    cases h with
    | start thread client space emitted wire written =>
      exact .start (hthread.trans thread) (hclient.trans client) (hspace.trans space)
        (hemitted.trans emitted) (hwire.trans wire) (hwritten.trans written)
    | running thread socks sending written =>
      exact .running (hthread ▸ thread) (hclient ▸ socks) (sending.of_conn hspace hemitted hwire)
        (by rw [hspace, hthread, hwritten]; exact written)

end NetStack.Tcp.Conn
