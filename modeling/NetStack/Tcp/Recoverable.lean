import NetStack.Lib.Jam
import NetStack.Tcp.Completeness
import NetStack.Tcp.Synchrony

/-! What a connection can still deliver.

A segment that comes out of order is entered into `rcv_ofo_buf` once more each time it comes
again, and its second copy jams the list once the first has been taken. Nothing else puts
data out of reach: however packets were delayed, repeated or reordered so far, the server can
still be brought to the end of what has been sent, unless a jammed entry is in the way
(`completable_iff`). -/
namespace NetStack.Tcp.Conn
open Reassembly (ClearUpto Disjoint Faithful Fits Rested Stuck Window)

variable {c c' : Conn} {tsk lis ch : TcpSock} {addr : SockAddr} {P : Reassembly U8 → Prop}

/-! ### The segments -/

/-- Every segment carries data. -/
def Laden (c : Conn) : Prop := ∀ x ∈ c.emitted, x.2 ≠ []

theorem Laden.writeCall (h : c.Laden) (tsk : TcpSock) (state : WriteState) (sent : List Packet) :
    (c.writeCall tsk state sent).Laden := by
  intro x hx
  simp only [Conn.writeCall] at hx
  split at hx
  · exact h x hx
  · rename_i hne
    rcases List.mem_append.mp hx with hx | hx
    · exact h x hx
    · rw [List.mem_singleton.mp hx]
      exact hne

theorem Laden.step {e : ConnEvent} (h : c.Laden) (hstep : c.Step e c') : c'.Laden := by
  cases hside : onClient e with
  | false =>
    unfold Laden
    rw [(server_step hside hstep).2.2.2.1]
    exact h
  | true =>
    unfold Step Conn.step at hstep
    cases e with
    | write buf =>
      simp only at hstep
      split at hstep
      · rename_i tsk _ _
        cases hstep
        exact h.writeCall (tsk.sockWrite buf).1 (tsk.sockWrite buf).2.1 (tsk.sockWrite buf).2.2
      · cases hstep
    | resume =>
      simp only at hstep
      repeat' split at hstep
      all_goals cases hstep
      exact h.writeCall _ _ _
    | connect | connected | toClient | clientTimer =>
      simp only at hstep
      repeat' split at hstep
      all_goals cases hstep
      all_goals exact h
    | toServer | serverTimer | accept | read => cases hside

/-- The segments overlap nowhere. -/
theorem Flowing.disjoint (h : c.Flowing addr tsk) (hladen : c.Laden) : Disjoint c.emitted := by
  refine ⟨hladen, fun x hx y hy => ?_⟩
  by_cases heq : x = y
  · exact .inl heq
  · right
    obtain ⟨i, hi, rfl⟩ := List.mem_iff_getElem.mp hx
    obtain ⟨j, hj, rfl⟩ := List.mem_iff_getElem.mp hy
    have happart := List.pairwise_iff_getElem.mp h.apart
    rcases Nat.lt_trichotomy i j with hlt | rfl | hlt
    · exact .inl (happart i j hi hj hlt)
    · exact absurd rfl heq
    · exact .inr (happart j i hj hi hlt)

/-! ### The child's reassembler -/

/-- The child reassembles the stream from segments, has room for any of them, and `P` holds of
its reassembler. -/
def Reassembles (c : Conn) (ch : TcpSock) (P : Reassembly U8 → Prop) : Prop :=
  mss < ch.rcvBuf.size ∧ ∃ r, Receives 0 ch c.read r ∧ Window 32 r ∧ Faithful c.stream 1 r ∧
    (∀ x ∈ r.held, x ∈ c.emitted) ∧ P r

/-- Whatever arrives, `P` stays. -/
def Lasting (P : Reassembly U8 → Prop) : Prop :=
  ∀ r piece, Reassembly.Ordered r.held → Disjoint (piece :: r.held) → P r → P (r.arrive piece)

theorem Reassembles.of_client (h : c.Reassembles ch P) (hx : Extends c c') : c'.Reassembles ch P := by
  obtain ⟨hroom, r, hr, hw, hf, hh, hP⟩ := h
  refine ⟨hroom, r, ⟨hr.next, hr.held, hx.read ▸ hr.out⟩, hw, ⟨hf.next, sits_mono hx.space hf.out, ?_⟩, ?_, hP⟩
  · exact fun x hx' => sits_mono hx.space (hf.held x hx')
  · exact fun x hx' => hx.emitted (hh x hx')

/-- What has come in up to here is what the child wants next. -/
theorem reached_eq {r : Reassembly U8} (hsocks : c.server.socks = [lis, ch]) (hr : Receives 0 ch c.read r)
    (hf : Faithful c.stream 1 r) : c.reached = r.next := by
  rw [reached_of_child hsocks, hf.next, ← hr.out, List.length_append]
  rfl

theorem stream_congr (hspace : c'.space = c.space) : c'.stream = c.stream := by
  unfold stream
  rw [hspace]

/-- Data in range moves the child's reassembler as its arrival does. -/
theorem Reassembles.data {packet : Packet} {sleeps : List (List Nat)} {rx : Rx} {f : Int → Int}
    (h : c.Reassembles ch P) (hsending : c.Sending tsk) (hpacket : packet ∈ c.toServer)
    (hdata : HandlesData ch (tcpCbInit packet)) (hrange : c.InRange ch (tcpCbInit packet))
    (hrun : Rx.handleRecvData ⟨ch, sleeps, [], []⟩ (tcpCbInit packet) = some rx)
    (hread : c'.read = c.read ++ rx.taken) (hspace : c'.space = c.space) (hemitted : c'.emitted = c.emitted)
    {Q : Reassembly U8 → Prop}
    (hQ : ∀ r x, Receives 0 ch c.read r → Window 32 r → Faithful c.stream 1 r → (∀ y ∈ r.held, y ∈ c.emitted) → P r →
      x ∈ c.emitted → Serial.nth 0 x.1 = packet.seq → x.2 = packet.payload → Q (r.arrive x)) :
    c'.Reassembles (Host.recount f rx.tsk) Q := by
  obtain ⟨hroom, r, hr, hw, hf, hh, hP⟩ := h
  obtain ⟨⟨p, data⟩, hx, hpay, hseq⟩ := (hsending.wire packet hpacket).2 hdata.2.2.2.2
  obtain rfl : packet.payload = data := hpay
  have hfits := fits_of_inRange hr hf hh hsending hx hseq hrange
  have hr' : Receives 0 rx.tsk (c.read ++ rx.taken) (r.arrive (p, packet.payload)) :=
    Rx.handleRecvData_receives_from hr hw hseq hfits hrun
  refine ⟨?_, _, ?_, hw.arrive hfits, ?_, ?_, hQ r _ hr hw hf hh hP hx hseq.symm rfl⟩
  · exact (Rx.handleRecvData_size hrun).symm ▸ hroom
  · rw [hread]
    exact ⟨hr'.next, hr'.held, hr'.out⟩
  · rw [stream_congr hspace]
    exact hf.arrive (hsending.sits _ hx)
  · rw [hemitted]
    intro y hy
    rcases Reassembly.mem_arrive_held hy with rfl | hy
    · exact hx
    · exact hh y hy

/-- What a step of the server starts from and leaves alone: the packets carry segments of the
client that overlap nowhere. -/
structure ServerMove (c c' : Conn) : Prop where
  step : ∃ addr, ServerStep addr c c'
  disjoint : Disjoint c.emitted
  wire : c.toServer = [] ∨ ∃ tsk, c.Sending tsk
  space : c'.space = c.space
  emitted : c'.emitted = c.emitted

/-- A step of the server keeps what lasts. -/
theorem ServerMove.reassembles (hmove : ServerMove c c') (hsocks : c.server.socks = [lis, ch])
    (h : c.Reassembles ch P) (hlasting : Lasting P) :
    ∃ lis' ch', c'.server.socks = [lis', ch'] ∧ c'.Reassembles ch' P := by
  obtain ⟨⟨addr, hstep⟩, hd, hsending, hspace, hemitted⟩ := hmove
  cases hstep with
  | alone socks => simp [hsocks] at socks
  | greets socks => simp [hsocks] at socks
  | still socks socks' log read acks nxt state stays ofo size own listed =>
    obtain ⟨-, rfl⟩ : _ ∧ ch = _ := by simpa [hsocks] using socks
    obtain ⟨hroom, r, hr, hw, hf, hh, hP⟩ := h
    refine ⟨_, _, socks', size ▸ hroom, r, ⟨stays.trans hr.next, ofo.trans hr.held, read.trans hr.out⟩, hw, ?_,
      hemitted ▸ hh, hP⟩
    rw [stream_congr hspace]
    exact hf
  | data socks socks' log read nxt arrived data range run kept listed =>
    obtain ⟨-, rfl⟩ : _ ∧ ch = _ := by simpa [hsocks] using socks
    obtain ⟨f, rfl⟩ := kept
    rcases hsending with hnil | ⟨tsk, hsending⟩
    · rw [hnil] at arrived
      cases arrived
    · refine ⟨_, _, socks', h.data hsending arrived data range run read hspace hemitted ?_⟩
      intro r x _ hw _ hh hP hx _ _
      exact hlasting r x hw.ordered (hd.subset (List.cons_subset.mpr ⟨hx, hh⟩)) hP

/-- The listener, or its child when it has one, has room for a segment, and the child has come
to a stop. -/
def Resting (c : Conn) : Prop :=
  (∀ lis, c.server.socks = [lis] → mss < lis.rcvBuf.size) ∧
    ∀ lis ch, c.server.socks = [lis, ch] → c.Reassembles ch Rested

theorem Resting.of_client (h : c.Resting) (hx : Extends c c') : c'.Resting := by
  refine ⟨fun lis hsocks => ?_, fun lis ch hsocks => ?_⟩
  · exact h.1 lis (hx.server ▸ hsocks)
  · exact (h.2 lis ch (hx.server ▸ hsocks)).of_client hx

theorem rested_lasting : Lasting (@Rested U8) := fun _ _ ho hd h => h.arrive ho hd

theorem ServerMove.resting (hmove : ServerMove c c') (h : c.Resting) : c'.Resting := by
  have hkeep : ∀ {lis ch}, c.server.socks = [lis, ch] → c'.Resting := by
    intro lis ch hsocks
    obtain ⟨lis', ch', hsocks', hch⟩ := hmove.reassembles hsocks (h.2 lis ch hsocks) rested_lasting
    refine ⟨fun l hl => by simp [hsocks'] at hl, fun l k hl => ?_⟩
    obtain ⟨-, rfl⟩ : _ ∧ ch' = k := by simpa [hsocks'] using hl
    exact hch
  obtain ⟨addr, hstep⟩ := hmove.step
  cases hstep with
  | alone socks socks' log read acks nxt buf listed =>
    refine ⟨fun l hl => ?_, fun l k hl => by simp [socks'] at hl⟩
    obtain rfl : _ = l := by simpa [socks'] using hl
    exact buf ▸ h.1 _ socks
  | @greets lis lis' child sent socks socks' log read acks nxt empty state first ofo buf own listed =>
    refine ⟨fun l hl => by simp [socks'] at hl, fun l k hl => ?_⟩
    obtain ⟨-, rfl⟩ : _ ∧ child = k := by simpa [socks'] using hl
    have hout : c'.read ++ child.rcvBuf.contents = [] := by
      rw [read, empty.1, empty.2]
      rfl
    refine ⟨buf ▸ h.1 _ socks, ⟨1, [], []⟩, ⟨first, ofo, hout⟩, ⟨.nil, ?_, ?_⟩, ⟨rfl, .nil _ _, ?_⟩, ?_, ⟨?_, ?_⟩⟩
    -- nothing is held yet
    all_goals
      intro x hx
      cases hx
  | still socks => exact hkeep socks
  | data socks => exact hkeep socks

/-! ### Runs -/

/-- What every state of a run is known to be. -/
def Known (c : Conn) : Prop :=
  (ClientInv c ∧ ServerInv c ∧ (c.space.length < 2 ^ 31 → Synced c)) ∧ c.Laden

theorem Known.step {e : ConnEvent} (h : c.Known) (hsafe : InOrder c e) (hstep : c.Step e c') : c'.Known :=
  ⟨synced_step h.1 hsafe hstep, h.2.step hstep⟩

/-- What a step is, as long as the client's connection has not ended. -/
theorem Known.moves {e : ConnEvent} (h : c.Known) (hsize : c.space.length < 2 ^ 31) (hsafe : InOrder c e)
    (hstep : c.Step e c') : Parted c ∨ Extends c c' ∨ ServerMove c c' := by
  cases hside : onClient e with
  | true => exact .inr (.inl (client_step hside hstep))
  | false =>
    obtain ⟨-, -, hspace, hemitted, -⟩ := server_step hside hstep
    obtain ⟨⟨hclient, hserver, hsynced⟩, hladen⟩ := h
    cases hsynced hsize with
    | parted h => exact .inl h
    | start thread acking =>
      right; right
      cases hclient with
      | running hthread => exact absurd thread hthread
      | start _ client space emitted wire written =>
        have hserverStep := (acking ⟨0, 0, 0, 0⟩).serverStep (.start thread client space emitted wire written) hserver
          (by simp [wire]) hside hsafe hstep
        exact ⟨⟨_, hserverStep⟩, ⟨hladen, by simp [emitted]⟩, .inl wire, hspace, hemitted⟩
    | running thread socks flowing acking =>
      right; right
      have hserverStep := acking.serverStep hclient hserver flowing.wire hside hsafe hstep
      cases hclient with
      | start hstart => exact absurd hstart thread
      | running _ _ sending _ =>
        exact ⟨⟨_, hserverStep⟩, flowing.disjoint hladen, .inr ⟨_, sending⟩, hspace, hemitted⟩

/-- What lasts stays with the child as long as the client's connection has not ended. -/
theorem Known.reassembles {e : ConnEvent} (h : c.Known) (hsize : c.space.length < 2 ^ 31) (hsafe : InOrder c e)
    (hstep : c.Step e c') (hlasting : Lasting P)
    (hchild : Parted c ∨ ∃ lis ch, c.server.socks = [lis, ch] ∧ c.Reassembles ch P) :
    Parted c' ∨ ∃ lis ch, c'.server.socks = [lis, ch] ∧ c'.Reassembles ch P := by
  rcases hchild with hparted | ⟨lis, ch, hsocks, hch⟩
  · exact .inl (hparted.step hstep)
  · rcases h.moves hsize hsafe hstep with hparted | hextends | hmove
    · exact .inl (hparted.step hstep)
    · exact .inr ⟨lis, ch, hextends.server ▸ hsocks, hch.of_client hextends⟩
    · exact .inr (hmove.reassembles hsocks hch hlasting)

theorem Known.resting {e : ConnEvent} (h : c.Known) (hsize : c.space.length < 2 ^ 31) (hsafe : InOrder c e)
    (hstep : c.Step e c') (hrest : Parted c ∨ c.Resting) : Parted c' ∨ c'.Resting := by
  rcases hrest with hparted | hrest
  · exact .inl (hparted.step hstep)
  · rcases h.moves hsize hsafe hstep with hparted | hextends | hmove
    · exact .inl (hparted.step hstep)
    · exact .inr (hrest.of_client hextends)
    · exact .inr (hmove.resting hrest)

/-- Every run. -/
theorem known_run {sport : U16} {backlog : Int} {es : List ConnEvent} (hrun : Run Step (start sport backlog) es c)
    (horder : Along Step InOrder (start sport backlog) es) :
    c.Known ∧ (c.space.length < 2 ^ 31 → Parted c ∨ c.Resting) := by
  have hstart : (start sport backlog).Known ∧
      ((start sport backlog).space.length < 2 ^ 31 →
        Parted (start sport backlog) ∨ (start sport backlog).Resting) := by
    refine ⟨⟨synced_run (.nil _) trivial, fun x hx => absurd hx List.not_mem_nil⟩, fun _ => .inr ⟨?_, ?_⟩⟩
    · intro lis hsocks
      obtain rfl := (List.cons.inj hsocks).1
      show mss < tcpDefaultWindow + 1
      decide
    · intro lis ch hsocks
      cases congrArg List.length hsocks
  have hkeep : ∀ s e t, s.Known ∧ (s.space.length < 2 ^ 31 → Parted s ∨ s.Resting) → InOrder s e → Step s e t →
      t.Known ∧ (t.space.length < 2 ^ 31 → Parted t ∨ t.Resting) := by
    intro s e t hs hsafe hstep
    refine ⟨hs.1.step hsafe hstep, fun hsize => ?_⟩
    have hsize' := lt_of_le_of_lt (space_le hstep) hsize
    exact hs.1.resting hsize' hsafe hstep (hs.2 hsize')
  exact hrun.invariant hkeep horder hstart

/-- While the client is connected both sides keep their accounts. -/
theorem Known.running (h : c.Known) (hsize : c.space.length < 2 ^ 31) (hthread : c.thread ≠ .start)
    (hsocks : c.client.socks = [tsk]) (hopen : tsk.state = .established) :
    ∃ addr, c.Flowing addr tsk ∧ c.Acking addr ∧ c.Sending tsk := by
  obtain ⟨⟨hclient, -, hsynced⟩, -⟩ := h
  cases hclient with
  | start hstart => exact absurd hstart hthread
  | running _ socks sending written =>
    obtain rfl := (List.cons.inj (hsocks.symm.trans socks)).1
    cases hsynced hsize with
    | parted h =>
      obtain ⟨-, tsk', hsocks', hended⟩ := h
      obtain rfl := (List.cons.inj (hsocks.symm.trans hsocks')).1
      exact absurd (.inr hopen) hended.not_attached
    | start hstart => exact absurd hstart hthread
    | running _ socks' flowing acking =>
      obtain rfl := (List.cons.inj (hsocks.symm.trans socks')).1
      exact ⟨_, flowing, acking, sending⟩

/-! ### Jammed entries -/

/-- The entry jams `rcv_ofo_buf`, or will: it lies behind `rcv_nxt`, or is held twice. -/
def Jams (ch : TcpSock) (entry : RcvOfoEntry) : Prop :=
  lessThan32b entry.seq ch.rcvNxt = true ∨ List.Duplicate entry ch.rcvOfoBuf

theorem duplicate_map {α β : Type} {f : α → β} {l : List α} {x : α} (hinj : ∀ y ∈ l, f y = f x → y = x) :
    List.Duplicate (f x) (l.map f) ↔ List.Duplicate x l := by
  rw [List.duplicate_iff_sublist, List.duplicate_iff_sublist]
  constructor
  · intro h
    obtain ⟨l', hsub, heq⟩ := List.sublist_map_iff.mp h
    obtain ⟨y, rest, rfl, hy, hrest⟩ := List.map_eq_cons_iff.mp heq.symm
    obtain ⟨z, rest, rfl, hz, hnil⟩ := List.map_eq_cons_iff.mp hrest
    obtain rfl := List.map_eq_nil_iff.mp hnil
    obtain rfl := hinj y (hsub.subset (by simp)) hy
    obtain rfl := hinj z (hsub.subset (by simp)) hz
    exact hsub
  · exact fun h => h.map f

/-- The entries that jam are the pieces of the reassembler that do. -/
theorem jams_iff {r : Reassembly U8} (hr : Receives 0 ch c.read r) (hw : Window 32 r)
    (hend : ∀ x ∈ r.held, x.1 + x.2.length ≤ c.space.length) (hsize : c.space.length < 2 ^ 31)
    (hnxt : tsk.sndNxt = Serial.nth 0 c.space.length) :
    (∀ entry ∈ ch.rcvOfoBuf, Jams ch entry →
      entry.seq + BitVec.ofNat 32 entry.data.length = tsk.sndNxt) ↔ ClearUpto c.space.length r := by
  have hstart : ∀ x ∈ r.held, x.1 ≤ c.space.length := fun x hx => (Nat.le_add_right _ _).trans (hend x hx)
  have hjams : ∀ x ∈ r.held, (Jams ch (ofoEntry 0 x) ↔ x.1 < r.next ∨ List.Duplicate x r.held) := by
    intro x hx
    have hbehind : lessThan32b (ofoEntry 0 x).seq ch.rcvNxt = decide (x.1 < r.next) := by
      rw [hr.next]
      exact Serial.lt_nth 0 (hw.near x hx)
    have hinj : ∀ y ∈ r.held, ofoEntry 0 y = ofoEntry 0 x → y = x := by
      intro y hy heq
      obtain ⟨hseq, hdata⟩ := RcvOfoEntry.mk.inj heq
      exact Prod.ext (Serial.nth_inj (Serial.Near.of_le (by omega) (hstart y hy) (hstart x hx)) hseq) hdata
    rw [Jams, hbehind, decide_eq_true_eq, hr.held, duplicate_map hinj]
  have hends : ∀ x ∈ r.held, ((ofoEntry 0 x).seq + BitVec.ofNat 32 (ofoEntry 0 x).data.length = tsk.sndNxt ↔
      x.1 + x.2.length = c.space.length) := by
    intro x hx
    rw [hnxt, show (ofoEntry 0 x).seq + BitVec.ofNat 32 (ofoEntry 0 x).data.length = _ from
      Serial.nth_add 0 x.1 x.2.length]
    constructor
    · exact Serial.nth_inj (Serial.Near.of_le (by omega) (hend x hx) le_rfl)
    · exact congrArg (Serial.nth 0)
  constructor
  · intro h x hx hbad
    refine (hends x hx).mp (h _ ?_ ((hjams x hx).mpr hbad))
    rw [hr.held]
    exact List.mem_map_of_mem hx
  · intro h entry he hbad
    rw [hr.held] at he
    obtain ⟨x, hx, rfl⟩ := List.mem_map.mp he
    exact (hends x hx).mpr (h x hx ((hjams x hx).mp hbad))

/-- A jammed segment is never passed while the client is connected. -/
theorem stuck_reached {x : Nat × List U8} {es : List ConnEvent} (h : c.Known) (hrun : Run Step c es c')
    (horder : Along Step InOrder c es) (hsize : c'.space.length < 2 ^ 31) (hsocks : c.server.socks = [lis, ch])
    (hch : c.Reassembles ch (Stuck x)) : Parted c' ∨ c'.reached ≤ x.1 + x.2.length := by
  have hlasting : Lasting (Stuck x) := fun _ _ ho hd hr => hr.arrive ho hd
  have hkeep : ∀ s e t,
      s.Known ∧ (s.space.length < 2 ^ 31 →
        Parted s ∨ ∃ lis ch, s.server.socks = [lis, ch] ∧ s.Reassembles ch (Stuck x)) →
      InOrder s e → Step s e t →
      t.Known ∧ (t.space.length < 2 ^ 31 →
        Parted t ∨ ∃ lis ch, t.server.socks = [lis, ch] ∧ t.Reassembles ch (Stuck x)) := by
    intro s e t hs hsafe hstep
    refine ⟨hs.1.step hsafe hstep, fun hsize => ?_⟩
    have hsize' := lt_of_le_of_lt (space_le hstep) hsize
    exact hs.1.reassembles hsize' hsafe hstep hlasting (hs.2 hsize')
  obtain ⟨-, hend⟩ := hrun.invariant hkeep horder ⟨h, fun _ => .inr ⟨lis, ch, hsocks, hch⟩⟩
  rcases hend hsize with hparted | ⟨lis', ch', hsocks', -, r, hr, -, hf, -, hstuck⟩
  · exact .inl hparted
  · right
    rw [reached_eq hsocks' hr hf]
    exact hstuck.next_le

/-! ### Going on -/

/-- A segment that was sent can be delivered to a child that is open: the network has a packet
with it, the packet finds the child, and the call on it returns. -/
theorem Flowing.delivers {x : Nat × List U8} (h : c.Flowing addr tsk) (hacking : c.Acking addr)
    (hshort : ∀ y ∈ c.emitted, y.2.length ≤ mss) (hladen : c.Laden) (hsocks : c.server.socks = [lis, ch])
    (hopen : ch.state = .established) (hch : c.Reassembles ch P) (hx : x ∈ c.emitted) :
    ∃ packet ∈ c.toServer, packet.seq = Serial.nth 0 x.1 ∧ packet.payload = x.2 ∧
      HandlesData ch (tcpCbInit packet) ∧ c.server.sockLookup (tcpCbInit packet) = some 1 ∧
      ∃ sleeps rx, Rx.handleRecvData ⟨ch, sleeps, [], []⟩ (tcpCbInit packet) = some rx := by
  obtain ⟨packet, hp, hflags, hseq, hpay⟩ := h.logged x hx
  obtain ⟨-, -, -, haddr, hlisted⟩ := hacking.child ch (by rw [hsocks]; rfl)
  obtain ⟨hroom, r, hr, -, -, hh, -⟩ := hch
  have hown : flip addr = ⟨packet.daddr, packet.dport, packet.saddr, packet.sport⟩ := by
    rw [← (h.wire packet hp).2]
    rfl
  have hne : (tcpCbInit packet).payload ≠ [] := by
    show packet.payload ≠ []
    rw [hpay]
    exact hladen x hx
  have hfound : c.server.sockLookup (tcpCbInit packet) = some 1 := by
    unfold Host.sockLookup Host.lookupEstablished
    rw [hlisted]
    simp [hsocks, haddr, hown, tcpCbInit]
  have hdata : HandlesData ch (tcpCbInit packet) := by
    unfold HandlesData
    rw [show (tcpCbInit packet).flags = packet.flags from rfl, hflags]
    exact ⟨hopen, by decide, by decide, by decide, hne⟩
  have hwritable : Rx.Writable ch.rcvBuf.size ch.rcvOfoBuf := by
    intro entry he
    rw [hr.held] at he
    obtain ⟨y, hy, rfl⟩ := List.mem_map.mp he
    exact ⟨hladen y (hh y hy), (hshort y (hh y hy)).trans_lt hroom⟩
  have hlen : (tcpCbInit packet).payload.length < ch.rcvBuf.size := by
    show packet.payload.length < _
    rw [hpay]
    exact (hshort x hx).trans_lt hroom
  exact ⟨packet, hp, hseq, hpay, hdata, hfound,
    @Rx.handleRecvData_returns ⟨ch, [], [], []⟩ _ hne hlen hwritable⟩

/-- The step that delivers it. -/
theorem step_delivers {packet : Packet} {sleeps : List (List Nat)} {rx : Rx} (hp : packet ∈ c.toServer)
    (hsocks : c.server.socks = [lis, ch]) (hfound : c.server.sockLookup (tcpCbInit packet) = some 1)
    (hdata : HandlesData ch (tcpCbInit packet))
    (hrun : Rx.handleRecvData ⟨ch, sleeps, [], []⟩ (tcpCbInit packet) = some rx) :
    ∃ j c₁ f, c.toServer[j]? = some packet ∧ c.Step (.toServer j 0 0 sleeps) c₁ ∧
      c₁.server.socks = [lis, Host.recount f rx.tsk] ∧ c₁.read = c.read ++ rx.taken ∧ c₁.client = c.client := by
  obtain ⟨j, hj⟩ := List.mem_iff_getElem?.mp hp
  let outcome : Outcome := { TcpSock.only (rx.tsk, rx.sent) with taken := rx.taken }
  have hprocess : tcpProcess 0 1 0 (ch.parent.bind fun p => c.server.socks[p]?) sleeps ch (tcpCbInit packet) =
      some outcome := by
    rw [tcpProcess_data hdata, TcpSock.processData, hrun]
  have hchild : c.server.socks[1]? = some ch := by rw [hsocks]; rfl
  have hhost : c.server.handlePacket 0 0 sleeps packet = some (rx.sent, rx.taken, c.server.commit 1 outcome) := by
    simp only [Host.handlePacket, hfound, hchild, hprocess]
    rfl
  obtain ⟨f, hf⟩ := @Host.commit_socks c.server 1 outcome rfl
  refine ⟨j, c.served (c.server.commit 1 outcome) rx.sent rx.taken, f, hj, ?_, ?_, rfl, rfl⟩
  · simp only [Step, Conn.step, hj, hhost]
    rfl
  · show (c.server.commit 1 outcome).socks = _
    rw [hf]
    simp [outcome, TcpSock.only, Host.modify, hsocks]

/-- Data of a short stream is harmless. -/
theorem inOrder_data {packet : Packet} {j : Nat} {sleeps : List (List Nat)}
    (hwithin : ∀ x ∈ c.emitted, x.1 < c.space.length) (hle : c.reached ≤ c.space.length)
    (hsize : c.space.length < 2 ^ 31) (hj : c.toServer[j]? = some packet) (hsocks : c.server.socks = [lis, ch])
    (hfound : c.server.sockLookup (tcpCbInit packet) = some 1) (hdata : HandlesData ch (tcpCbInit packet)) :
    c.InOrder (.toServer j 0 0 sleeps) := by
  intro packet' hp' id hid tsk' htsk'
  obtain rfl : packet = packet' := Option.some.inj (hj.symm.trans hp')
  obtain rfl : 1 = id := Option.some.inj (hfound.symm.trans hid)
  obtain rfl : ch = tsk' := by
    rw [hsocks] at htsk'
    exact Option.some.inj htsk'
  refine ⟨fun htakes => ?_, fun _ x hx _ _ => ⟨?_, fun _ _ y hy _ _ => ?_⟩⟩
  · obtain ⟨-, -, hcase⟩ := htakes
    rw [hdata.1] at hcase
    exact absurd hcase.2 hdata.2.2.2.2
  · rw [← reached_of_child hsocks]
    exact Serial.Near.of_le (by omega) (hwithin x hx).le hle
  · exact Serial.Near.of_le (by omega) (hwithin x hx).le (hwithin y hy).le

/-- Delivering segment after segment completes the stream. -/
theorem completes {n : Nat} (h : c.Known) (hsize : c.space.length < 2 ^ 31) (hthread : c.thread ≠ .start)
    (hclient : c.client.socks = [tsk]) (hopen : tsk.state = .established) (hsocks : c.server.socks = [lis, ch])
    (hchild : ch.state = .established)
    (hch : c.Reassembles ch fun r => Rested r ∧ ClearUpto c.space.length r)
    (hn : c.space.length - c.reached ≤ n) :
    ∃ es c', Run Step c es c' ∧ Along Step InOrder c es ∧ c'.space = c.space ∧ c'.client = c.client ∧
      c.space.length ≤ c'.reached := by
  induction n generalizing c ch with
  | zero => exact ⟨[], c, .nil c, trivial, rfl, rfl, by omega⟩
  | succ n ih =>
    by_cases hdone : c.space.length ≤ c.reached
    · exact ⟨[], c, .nil c, trivial, rfl, rfl, hdone⟩
    obtain ⟨addr, hflowing, hacking, hsending⟩ := h.running hsize hthread hclient hopen
    have hd := hflowing.disjoint h.2
    -- the segment wanted next
    obtain ⟨x, hx, hnext⟩ : ∃ x ∈ c.emitted, x.1 = c.reached := by
      rcases hacking.boundary hthread with hlast | hfirst
      · exact absurd hlast.ge hdone
      · exact hfirst
    obtain ⟨packet, hp, hseq, hpay, hdata, hfound, sleeps, rx, hrx⟩ :=
      hflowing.delivers hacking hsending.short h.2 hsocks hchild hch hx
    obtain ⟨j, c₁, f, hj, hstep, hsocks₁, hread₁, hclient₁⟩ := step_delivers hp hsocks hfound hdata hrx
    have hsafe : c.InOrder (.toServer j 0 0 sleeps) :=
      inOrder_data hflowing.within (not_le.mp hdone).le hsize hj hsocks hfound hdata
    obtain ⟨-, hthread₁, hspace₁, hemitted₁, -⟩ := server_step (e := .toServer j 0 0 sleeps) rfl hstep
    have hrange : c.InRange ch (tcpCbInit packet) := (hsafe packet hj 1 hfound ch (by rw [hsocks]; rfl)).2 hdata
    have hch₁ : c₁.Reassembles (Host.recount f rx.tsk) fun r =>
        (Rested r ∧ ClearUpto c.space.length r) ∧ c.reached < r.next := by
      refine hch.data hsending hp hdata hrange hrx hread₁ hspace₁ hemitted₁ ?_
      intro r y hr hw hf hh hclear hy hyseq hypay
      have hnear : Serial.Near 32 y.1 x.1 :=
        Serial.Near.of_le (by omega) (hflowing.within y hy).le (hflowing.within x hx).le
      have hsame : y.1 = x.1 := Serial.nth_inj hnear (hyseq.trans hseq)
      have hpieces := hd.subset (List.cons_subset.mpr ⟨hy, hh⟩)
      have hreached := reached_eq hsocks hr hf
      obtain ⟨hmoved, hstill⟩ := hclear.2.arrive hclear.1 hw.ordered hpieces (hsame.trans (hnext.trans hreached))
        ((hflowing.ends y hy).le hflowing.within)
      exact ⟨⟨hclear.1.arrive hw.ordered hpieces, hstill⟩, hreached ▸ hmoved⟩
    have hgone : c.reached < c₁.reached := by
      obtain ⟨-, r, hr, -, hf, -, hlt⟩ := hch₁
      rw [reached_eq hsocks₁ hr hf]
      exact hlt.2
    have hstill₁ : c₁.Reassembles (Host.recount f rx.tsk) fun r => Rested r ∧ ClearUpto c₁.space.length r := by
      obtain ⟨hroom, r, hr, hw, hf, hh, hP⟩ := hch₁
      exact ⟨hroom, r, hr, hw, hf, hh, hspace₁ ▸ hP.1⟩
    have hchild₁ : (Host.recount f rx.tsk).state = .established := by
      have honly := (Rx.handleRecvData_frame hrx).tsk
      unfold RecvOnly at honly
      show rx.tsk.state = _
      rw [honly]
      exact hchild
    obtain ⟨es, c', hrun, horder, hspace, hclient', hend⟩ := ih (h.step hsafe hstep) (hspace₁ ▸ hsize)
      (hthread₁ ▸ hthread) (hclient₁ ▸ hclient) hsocks₁ hchild₁ hstill₁ (by rw [hspace₁]; omega)
    refine ⟨_ :: es, c', .cons hstep hrun, ⟨hsafe, fun t ht => ?_⟩, hspace.trans hspace₁, hclient'.trans hclient₁,
      hspace₁ ▸ hend⟩
    obtain rfl : c₁ = t := Option.some.inj (hstep.symm.trans ht)
    exact horder

/-- The network can bring the server to the end of all that has been sent, with the client
still connected. -/
def Completable (c : Conn) : Prop :=
  ∃ es c' tsk, Run Step c es c' ∧ Along Step InOrder c es ∧ c'.space.length < 2 ^ 31 ∧
    c'.client.socks = [tsk] ∧ tsk.state = .established ∧ c.space.length ≤ c'.reached

/-- **What can still be delivered.** In a run as before, with both sides connected, all that has
been sent can still come in exactly when every entry that jams `rcv_ofo_buf` is the end of what
has been sent. -/
theorem completable_iff {sport : U16} {backlog : Int} {es : List ConnEvent}
    (hrun : Run Step (start sport backlog) es c) (horder : Along Step InOrder (start sport backlog) es)
    (hsize : c.space.length < 2 ^ 31) (hclient : c.client.socks = [tsk]) (hopen : tsk.state = .established)
    (hsocks : c.server.socks = [lis, ch]) (hchild : ch.state = .established) :
    c.Completable ↔ ∀ entry ∈ ch.rcvOfoBuf, Jams ch entry →
      entry.seq + BitVec.ofNat 32 entry.data.length = tsk.sndNxt := by
  obtain ⟨hknown, hrest⟩ := known_run hrun horder
  have hthread : c.thread ≠ .start := by
    intro hstart
    cases hknown.1.1 with
    | start _ client =>
      rw [client] at hclient
      obtain rfl := (List.cons.inj hclient).1
      cases hopen
    | running thread => exact thread hstart
  obtain ⟨addr, hflowing, hacking, hsending⟩ := hknown.running hsize hthread hclient hopen
  obtain ⟨hroom, r, hr, hw, hf, hh, hrested⟩ : c.Reassembles ch Rested := by
    rcases hrest hsize with ⟨-, tsk', hsocks', hended⟩ | hresting
    · obtain rfl := (List.cons.inj (hclient.symm.trans hsocks')).1
      exact absurd (.inr hopen) hended.not_attached
    · exact hresting.2 lis ch hsocks
  have hend : ∀ x ∈ r.held, x.1 + x.2.length ≤ c.space.length :=
    fun x hx => (hflowing.ends x (hh x hx)).le hflowing.within
  rw [jams_iff hr hw hend hsize hsending.nxt]
  constructor
  · intro hcompleted x hx hbad
    obtain ⟨es', c', tsk', hrun', horder', hsize', hclient', hopen', hreached⟩ := hcompleted
    have hstuck : Stuck x r := by
      by_cases hbehind : x.1 < r.next
      · exact .inl ⟨hx, hbehind, (hrested.stale x hx hbehind).ge⟩
      · exact .inr ⟨not_lt.mp hbehind, hbad.resolve_left hbehind⟩
    rcases stuck_reached hknown hrun' horder' hsize' hsocks ⟨hroom, r, hr, hw, hf, hh, hstuck⟩ with
      ⟨-, tsk₁, hsocks₁, hended⟩ | hle
    · obtain rfl := (List.cons.inj (hclient'.symm.trans hsocks₁)).1
      exact absurd (.inr hopen') hended.not_attached
    · have := hend x hx
      omega
  · intro hclear
    obtain ⟨es', c', hrun', horder', hspace', hsame, hreached⟩ :=
      completes hknown hsize hthread hclient hopen hsocks hchild ⟨hroom, r, hr, hw, hf, hh, hrested, hclear⟩ le_rfl
    exact ⟨es', c', tsk, hrun', horder', hspace' ▸ hsize, hsame ▸ hclient, hopen, hreached⟩

/-- The handshake, and a byte written that the network still holds. -/
def pending : List ConnEvent := transfer.dropLast

/-- A second call sends two segments. The second of them comes in twice before the first, the
acknowledgement of both returns, and the last byte is sent. -/
def jammed : List ConnEvent :=
  returning ++ [.write (List.replicate (2 * mss + 1) 7), .resume, .toServer 4 0 0 [], .toServer 4 0 0 [],
    .toServer 3 0 0 [], .toClient 3 0 0, .resume]

/-- The byte that the network holds can still come in; the byte past the segment received twice
never can. -/
theorem completable_iff_held :
    (∃ c, Run Step (start 80 10) pending c ∧ c.reached < c.space.length ∧ c.Completable) ∧
      ∃ c, Run Step (start 80 10) jammed c ∧ ¬ c.Completable := by
  constructor
  · obtain ⟨c, hc, hspace, hreached, hclient, hserver⟩ : ∃ c ∈ runAll step (start 80 10) pending,
        c.space.length = 2 ∧ c.reached = 1 ∧ c.client.socks.map TcpSock.state = [.established] ∧
        c.server.socks.map (fun tsk => (tsk.state, tsk.rcvOfoBuf.length)) = [(.synRecv, 0), (.established, 0)] := by
      decide +kernel
    have hrun : Run Step (start 80 10) pending c := Run.of_runAll hc
    have hcheck : checkAll step InOrder (start 80 10) pending = true := by decide +kernel
    obtain ⟨tsk, hsocks, hopen⟩ := List.map_eq_singleton_iff.mp hclient
    obtain ⟨lis, rest, hlis, -, hrest⟩ := List.map_eq_cons_iff.mp hserver
    obtain ⟨ch, rfl, hch⟩ := List.map_eq_singleton_iff.mp hrest
    obtain ⟨hchild, hheld⟩ := Prod.mk.inj hch
    refine ⟨c, hrun, by omega, ?_⟩
    refine (completable_iff hrun (Along.of_checkAll hcheck) (by omega) hsocks hopen hlis hchild).mpr ?_
    intro entry he _
    rw [List.length_eq_zero_iff.mp hheld] at he
    exact absurd he List.not_mem_nil
  · obtain ⟨c, hc, hspace, hclient, hserver⟩ : ∃ c ∈ runAll step (start 80 10) jammed,
        c.space.length = 2923 ∧ c.client.socks.map (fun tsk => (tsk.state, tsk.sndNxt)) = [(.established, 2923)] ∧
        c.server.socks.map (fun tsk => (tsk.state, tsk.rcvOfoBuf.map fun entry =>
          (lessThan32b entry.seq tsk.rcvNxt, entry.seq + BitVec.ofNat 32 entry.data.length))) =
          [(.synRecv, []), (.established, [(true, 2922)])] := by
      decide +kernel
    have hrun : Run Step (start 80 10) jammed c := Run.of_runAll hc
    have hcheck : checkAll step InOrder (start 80 10) jammed = true := by decide +kernel
    obtain ⟨tsk, hsocks, htsk⟩ := List.map_eq_singleton_iff.mp hclient
    obtain ⟨hopen, hnxt⟩ := Prod.mk.inj htsk
    obtain ⟨lis, rest, hlis, -, hrest⟩ := List.map_eq_cons_iff.mp hserver
    obtain ⟨ch, rfl, hch⟩ := List.map_eq_singleton_iff.mp hrest
    obtain ⟨hchild, hheld⟩ := Prod.mk.inj hch
    obtain ⟨entry, hentry, hdata⟩ := List.map_eq_singleton_iff.mp hheld
    obtain ⟨hbehind, hlast⟩ := Prod.mk.inj hdata
    have hmem : entry ∈ ch.rcvOfoBuf := by
      rw [hentry]
      exact List.mem_singleton_self entry
    refine ⟨c, hrun, fun hcompletable => ?_⟩
    have hnever := (completable_iff hrun (Along.of_checkAll hcheck) (by omega) hsocks hopen hlis
      hchild).mp hcompletable entry hmem (.inl hbehind)
    rw [hlast, hnxt] at hnever
    exact absurd hnever (by decide)

end NetStack.Tcp.Conn
