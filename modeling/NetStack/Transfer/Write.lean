import NetStack.Lib.Run
import NetStack.Tcp.Segment
import NetStack.Tcp.SynchWait

/-! Writing a buffer (`tcp_sock_write`, `send_data` in `tcp_sock.c`, `tcp_send_packet` in `tcp_out.c`
and `tcp_process` in `tcp_in.c` of `EXP16-TCP_Stack_2/code/16-tcp_stack-2`).

A segment is numbered by what has been sent, but its bytes are read as far into the buffer as
the peer has acknowledged since the call began. So what is sent is the buffer exactly if each
segment is read where the buffer goes on the same, and whatever the buffer holds only if all
that was sent before had been acknowledged (`write_sends_iff`). -/
namespace NetStack.Transfer
open Tcp (SynchWait TcpCb lessOrEqual32b tcpBaseHdrSize)

/-! ### The code -/

/-- `struct tcp_sock`, as far as a write needs it. -/
structure Sock where
  sndUna : U32
  sndNxt : U32
  sndWnd : U32
  rcvNxt : U32
  rcvWnd : U16
  waitSend : SynchWait
deriving DecidableEq, Repr

/-- What `tcp_send_packet` sends: the numbers of the header, and where the payload was copied from. -/
structure Segment where
  seq : U32
  ack : U32
  rwnd : U16
  start : Nat
  len : Nat
deriving DecidableEq, Repr

/-- Where a call is: about to send a segment, asleep on `wait_send`, or back. -/
inductive Place
  | sending | asleep | returned
deriving DecidableEq, Repr

/-- A call of `tcp_sock_write` under way, with what it has sent, oldest first. -/
structure Write where
  tsk : Sock
  initSeq : U32
  len : Nat
  place : Place
  segments : List Segment
deriving DecidableEq, Repr

/-- The most a segment carries. -/
def mss : Nat := 1514 - etherHdrSize - ipBaseHdrSize - tcpBaseHdrSize

/-- `send_data`, with what `tcp_send_packet` does to the socket. -/
def sendData (tsk : Sock) (start len : Nat) : Sock × Segment :=
  ({ tsk with sndNxt := tsk.sndNxt + BitVec.ofNat 32 len, sndWnd := tsk.sndWnd - BitVec.ofNat 32 len },
    ⟨tsk.sndNxt, tsk.rcvNxt, tsk.rcvWnd, start, len⟩)

/-- `tcp_sock_write`, up to its loop. -/
def tcpSockWrite (tsk : Sock) (len : Nat) : Write := ⟨tsk, tsk.sndUna, len, .sending, []⟩

/-- `sleep_on(tsk->wait_send)`. -/
def Write.sleepOnSend (w : Write) : Write :=
  let (stand, waitSend) := w.tsk.waitSend.sleepOn
  { w with tsk := { w.tsk with waitSend }, place := if stand = .waiting then .asleep else w.place }

/-- One round of the loop, or what comes after it. -/
def Write.sendNext (buf : Nat) (w : Write) : Write :=
  let start := buf + (w.tsk.sndUna - w.initSeq).toNat
  if w.len > mss then
    let singleLen := min w.len mss
    let (tsk, segment) := sendData w.tsk start singleLen
    let w : Write := { w with tsk, segments := w.segments ++ [segment], len := w.len - singleLen }
    if tsk.sndWnd = 0 then w.sleepOnSend else w
  else
    let (tsk, segment) := sendData w.tsk start w.len
    { w with tsk, segments := w.segments ++ [segment], place := .returned }

/-- `tcp_update_window`. -/
def Sock.updateWindow (tsk : Sock) (cb : TcpCb) : Sock :=
  let oldSndWnd : U16 := tsk.sndWnd.setWidth 16
  { tsk with
    sndWnd := cb.rwnd
    waitSend := if oldSndWnd = 0 then (tsk.waitSend.wakeUp .waiting).1 else tsk.waitSend }

/-- `tcp_update_window_safe`. -/
def Sock.updateWindowSafe (tsk : Sock) (cb : TcpCb) : Sock :=
  if lessOrEqual32b tsk.sndUna cb.ack && lessOrEqual32b cb.ack tsk.sndNxt then tsk.updateWindow cb else tsk

/-- What `tcp_process` does on the sending side with a segment that it accepts: an ACK without
data, or one that `handle_recv_data` takes. -/
def Sock.processAck (tsk : Sock) (cb : TcpCb) : Sock :=
  if cb.payload = [] then
    ({ tsk with sndUna := cb.ack, rcvNxt := cb.seq + 1 } : Sock).updateWindowSafe cb
  else { tsk with rcvNxt := cb.seq + BitVec.ofNat 32 cb.payload.length, sndUna := cb.ack }

/-- The writer sends a segment or wakes up, or an ACK is processed. -/
inductive Event
  | segment
  | wake
  | ack (cb : TcpCb)

def step (buf : Nat) (w : Write) : Event → Option Write
  | .segment =>
    match w.place with
    | .sending => some (w.sendNext buf)
    | _ => none
  | .wake =>
    match w.place with
    | .asleep =>
      if w.tsk.waitSend.notified then
        some { w with tsk := { w.tsk with waitSend := SynchWait.awake }, place := .sending }
      else none
    | _ => none
  | .ack cb => some { w with tsk := w.tsk.processAck cb }

abbrev Steps (buf : Nat) (w : Write) (e : Event) (w' : Write) : Prop := step buf w e = some w'

/-! ### What is sent -/

/-- The payload of a segment, where memory holds `m` during the call. -/
def Segment.payload (m : Mem) (segment : Segment) : List U8 := m.read segment.start segment.len

/-- Segments in the order of their sequence numbers, which start from `base`. -/
def inOrder (base : U32) (segments : List Segment) : List Segment :=
  segments.mergeSort fun s s' => (s.seq - base).toNat ≤ (s'.seq - base).toNat

/-- The bytes sent so far. -/
def Write.bytesSent (w : Write) : Nat := (w.segments.map Segment.len).sum

/-- The payloads make up the front of the buffer, and all of it when the call is back. -/
def Faithful (m : Mem) (buf len : Nat) (base : U32) (w : Write) : Prop :=
  (inOrder base w.segments).flatMap (Segment.payload m) = m.read buf w.bytesSent ∧
    (w.place = .returned → w.bytesSent = len)

/-- Where a segment is read, the buffer holds what comes next. -/
def SameBytes (m : Mem) (buf : Nat) (w : Write) : Event → Prop
  | .segment => w.place = .sending →
      m.read (buf + (w.tsk.sndUna - w.initSeq).toNat) (min w.len mss) = m.read (buf + w.bytesSent) (min w.len mss)
  | _ => True

/-- When a segment with data is sent, as much has been acknowledged as was sent before it. -/
def Acked (w : Write) : Event → Prop
  | .segment => w.place = .sending → 0 < w.len → (w.tsk.sndUna - w.initSeq).toNat = w.bytesSent
  | _ => True

instance (w : Write) (e : Event) : Decidable (Acked w e) := by
  cases e <;> unfold Acked <;> infer_instance

variable {m : Mem} {buf len k : Nat} {base : U32} {w w' : Write} {segments : List Segment} {segment : Segment}

/-! ### Sequence numbers -/

/-- Segments numbered one after the other, from the `k`-th byte on. -/
def Numbered (base : U32) : Nat → List Segment → Prop
  | _, [] => True
  | k, s :: rest => s.seq = Serial.nth base k ∧ Numbered base (k + s.len) rest

theorem Numbered.snoc (h : Numbered base k segments)
    (hseq : segment.seq = Serial.nth base (k + (segments.map Segment.len).sum)) :
    Numbered base k (segments ++ [segment]) := by
  induction segments generalizing k with
  | nil => exact ⟨hseq, trivial⟩
  | cons s rest ih =>
    refine ⟨h.1, ih h.2 ?_⟩
    rw [hseq, List.map_cons, List.sum_cons, Nat.add_assoc]

theorem toNat_nth_sub {k : Nat} (hk : k < 2 ^ 32) : (Serial.nth base k - base).toNat = k := by
  rw [Serial.nth, BitVec.add_comm, BitVec.add_sub_cancel, BitVec.toNat_ofNat, Nat.mod_eq_of_lt hk]

theorem Numbered.after (h : Numbered base k segments) (hlt : k + (segments.map Segment.len).sum < 2 ^ 32) :
    ∀ s ∈ segments, k ≤ (s.seq - base).toNat := by
  induction segments generalizing k with
  | nil => exact fun s hs => absurd hs List.not_mem_nil
  | cons s rest ih =>
    rw [List.map_cons, List.sum_cons] at hlt
    intro s' hs'
    rcases List.mem_cons.mp hs' with rfl | hs'
    · rw [h.1, toNat_nth_sub (by omega)]
    · exact (Nat.le_add_right k s.len).trans (ih h.2 (by omega) s' hs')

/-- They are in order already. -/
theorem Numbered.inOrder (h : Numbered base k segments) (hlt : k + (segments.map Segment.len).sum < 2 ^ 32) :
    inOrder base segments = segments := by
  refine List.mergeSort_of_pairwise ?_
  induction segments generalizing k with
  | nil => exact List.Pairwise.nil
  | cons s rest ih =>
    rw [List.map_cons, List.sum_cons] at hlt
    refine List.Pairwise.cons (fun s' hs' => decide_eq_true ?_) (ih h.2 (by omega))
    rw [h.1, toNat_nth_sub (by omega)]
    exact (Nat.le_add_right k s.len).trans (h.2.after (by omega) s' hs')

/-! ### One event -/

/-- How far a call of `len` bytes is. -/
structure Inv (base : U32) (len : Nat) (w : Write) : Prop where
  numbered : Numbered base 0 w.segments
  next : w.tsk.sndNxt = Serial.nth base w.bytesSent
  left : w.bytesSent + (if w.place = .returned then 0 else w.len) = len

/-- What a segment that has been sent leaves behind. -/
structure Sent (buf : Nat) (w w' : Write) : Prop where
  segments : ∃ ack rwnd, w'.segments = w.segments ++
    [⟨w.tsk.sndNxt, ack, rwnd, buf + (w.tsk.sndUna - w.initSeq).toNat, min w.len mss⟩]
  next : w'.tsk.sndNxt = w.tsk.sndNxt + BitVec.ofNat 32 (min w.len mss)
  left : w.len = min w.len mss + if w'.place = .returned then 0 else w'.len

theorem sleepOnSend_place (hplace : w.place = .sending) : w.sleepOnSend.place ≠ .returned := by
  show (if _ then Place.asleep else w.place) ≠ .returned
  rw [hplace]
  split <;> decide

theorem sendNext_sent (buf : Nat) (hplace : w.place = .sending) : Sent buf w (w.sendNext buf) := by
  unfold Write.sendNext
  dsimp only [sendData]
  split
  · next hmore =>
    have hleft : w.len = min w.len mss + (w.len - min w.len mss) := by omega
    split
    · refine ⟨⟨_, _, rfl⟩, rfl, hleft.trans (congrArg _ (if_neg (sleepOnSend_place ?_)).symm)⟩
      exact hplace
    · refine ⟨⟨_, _, rfl⟩, rfl, ?_⟩
      rw [hplace]
      exact hleft
  · next hlast =>
    have hmin : min w.len mss = w.len := Nat.min_eq_left (not_lt.mp hlast)
    exact ⟨⟨_, _, by rw [hmin]⟩, by rw [hmin], by rw [hmin]; rfl⟩

theorem Sent.bytesSent (h : Sent buf w w') : w'.bytesSent = w.bytesSent + min w.len mss := by
  obtain ⟨ack, rwnd, hsegments⟩ := h.segments
  rw [Write.bytesSent, hsegments, List.map_append, List.sum_append]
  rfl

theorem Inv.sent (h : Inv base len w) (hplace : w.place = .sending) (hsent : Sent buf w w') : Inv base len w' := by
  have hbytes := hsent.bytesSent
  have hleft := hsent.left
  have hbefore := h.left
  rw [hplace, if_neg (by decide)] at hbefore
  obtain ⟨ack, rwnd, hsegments⟩ := hsent.segments
  constructor
  · rw [hsegments]
    refine h.numbered.snoc ?_
    rw [Nat.zero_add]
    exact h.next
  · rw [hsent.next, h.next, Serial.nth_add, hbytes]
  · omega

/-- The payloads are the front of the buffer still exactly if the next bytes are. -/
theorem Inv.faithful_iff (h : Inv base len w) (hlen : len < 2 ^ 31) (hfaithful : Faithful m buf len base w)
    (hplace : w.place = .sending) (hsent : Sent buf w w') :
    Faithful m buf len base w' ↔ SameBytes m buf w .segment := by
  have hinv := h.sent hplace hsent
  have hbytes := hsent.bytesSent
  have hleft := h.left
  have hleft' := hinv.left
  have hfront := hfaithful.1
  obtain ⟨ack, rwnd, hsegments⟩ := hsent.segments
  have hbelow : 0 + w.bytesSent < 2 ^ 32 := by omega
  have hbelow' : 0 + w'.bytesSent < 2 ^ 32 := by omega
  rw [h.numbered.inOrder hbelow] at hfront
  have hwhole : w'.place = .returned → w'.bytesSent = len := by
    intro hreturned
    rw [if_pos hreturned] at hleft'
    exact hleft'
  rw [Faithful, and_iff_left hwhole, hinv.numbered.inOrder hbelow',
    hsegments, List.flatMap_append, hfront, hbytes, Mem.read_add, List.append_right_inj, SameBytes]
  simp only [List.flatMap_cons, List.flatMap_nil, List.append_nil, Segment.payload, hplace, true_imp_iff]

/-- A wakeup or an ACK changes nothing of what is sent. -/
theorem Inv.other (h : Inv base len w) (hsegments : w'.segments = w.segments) (hnext : w'.tsk.sndNxt = w.tsk.sndNxt)
    (hlen : w'.len = w.len) (hplace : w'.place = .returned ↔ w.place = .returned) : Inv base len w' := by
  have hbytes : w'.bytesSent = w.bytesSent := by rw [Write.bytesSent, Write.bytesSent, hsegments]
  constructor
  · rw [hsegments]
    exact h.numbered
  · rw [hnext, hbytes]
    exact h.next
  · rw [hbytes, hlen, if_congr hplace rfl rfl]
    exact h.left

theorem Faithful.other (h : Faithful m buf len base w) (hsegments : w'.segments = w.segments)
    (hplace : w'.place = .returned ↔ w.place = .returned) : Faithful m buf len base w' := by
  rwa [Faithful, Write.bytesSent, hsegments, hplace]

theorem processAck_sndNxt (tsk : Sock) (cb : TcpCb) : (tsk.processAck cb).sndNxt = tsk.sndNxt := by
  unfold Sock.processAck Sock.updateWindowSafe
  split
  · split <;> rfl
  · rfl

theorem inv_step (hlen : len < 2 ^ 31) {e : Event} (h : Inv base len w ∧ Faithful m buf len base w)
    (hsame : SameBytes m buf w e) (hstep : Steps buf w e w') : Inv base len w' ∧ Faithful m buf len base w' := by
  obtain ⟨hinv, hfaithful⟩ := h
  cases e with
  | segment =>
    simp only [Steps, step] at hstep
    split at hstep
    · next hplace =>
      cases hstep
      have hsent := sendNext_sent buf hplace
      exact ⟨hinv.sent hplace hsent, (hinv.faithful_iff hlen hfaithful hplace hsent).mpr hsame⟩
    · cases hstep
  | wake =>
    simp only [Steps, step] at hstep
    split at hstep
    · next hplace =>
      split at hstep
      · cases hstep
        have hsame : Place.sending = .returned ↔ w.place = .returned := by rw [hplace]; decide
        exact ⟨hinv.other rfl rfl rfl hsame, hfaithful.other rfl hsame⟩
      · cases hstep
    · cases hstep
  | ack cb =>
    cases hstep
    exact ⟨hinv.other rfl (processAck_sndNxt ..) rfl Iff.rfl, hfaithful.other rfl Iff.rfl⟩

theorem breaks_step (hlen : len < 2 ^ 31) {e : Event} (h : Inv base len w ∧ Faithful m buf len base w)
    (hnot : ¬SameBytes m buf w e) : ∃ w', Steps buf w e w' ∧ ¬Faithful m buf len base w' := by
  cases e with
  | segment =>
    have hplace : w.place = .sending := by
      by_contra hother
      exact hnot fun hplace => absurd hplace hother
    have hsent := sendNext_sent buf hplace
    refine ⟨w.sendNext buf, by simp only [Steps, step, hplace], ?_⟩
    exact fun hfaithful => hnot ((h.1.faithful_iff hlen h.2 hplace hsent).mp hfaithful)
  | wake | ack => exact absurd trivial hnot

/-- It does not depend on what the buffer holds only if the bytes are read where they should be. -/
theorem sameBytes_forall (buf : Nat) (w : Write) (e : Event) : (∀ m, SameBytes m buf w e) ↔ Acked w e := by
  cases e with
  | segment =>
    constructor
    · intro h hplace hpos
      have hsame := h (fun i => if i = buf + w.bytesSent then 1 else 0) hplace
      have hmin : 0 < min w.len mss := lt_min hpos (by decide)
      obtain ⟨n, hn⟩ := Nat.exists_eq_add_of_lt hmin
      rw [hn, Nat.zero_add, Nat.add_comm n 1, Mem.read_add, Mem.read_add] at hsame
      have hfirst := (List.append_inj hsame (by rw [Mem.length_read, Mem.length_read])).1
      simp only [Mem.read, List.range_one, List.map_cons, List.map_nil, List.cons.injEq, and_true, Nat.add_zero,
        if_true] at hfirst
      split at hfirst
      · omega
      · cases hfirst
    · intro h m hplace
      rcases Nat.eq_zero_or_pos w.len with hzero | hpos
      · rw [hzero, Nat.zero_min]
        rfl
      · rw [h hplace hpos]
  | wake | ack => exact iff_of_true (fun _ => trivial) trivial

/-- What a memory decides of a run. -/
theorem throughout_faithful_iff (tsk : Sock) (buf : Nat) (hlen : len < 2 ^ 31) (events : List Event) (m : Mem) :
    Throughout (Steps buf) (Faithful m buf len tsk.sndNxt) (tcpSockWrite tsk len) events ↔
      Along (Steps buf) (SameBytes m buf) (tcpSockWrite tsk len) events := by
  have hstart : Inv tsk.sndNxt len (tcpSockWrite tsk len) := ⟨trivial, (Serial.nth_zero _).symm, Nat.zero_add len⟩
  have hfaithful : Faithful m buf len tsk.sndNxt (tcpSockWrite tsk len) := by
    refine ⟨?_, fun hreturned => by cases hreturned⟩
    rw [hstart.numbered.inOrder (show 0 + 0 < 2 ^ 32 by decide)]
    rfl
  exact throughout_iff_along (fun _ h => h.2) (fun _ _ _ h hsame hstep => inv_step hlen h hsame hstep)
    (fun _ _ h hnot => breaks_step hlen h hnot) ⟨hstart, hfaithful⟩ events

/-- **Writing.** In a run of a call, with ACKs whenever they come, the payloads are the buffer in the
order of their sequence numbers exactly if each segment is read where the buffer holds what
comes next; for every buffer, exactly if each is sent when as much has been acknowledged since
the call began as it has sent. -/
theorem write_sends_iff (tsk : Sock) (buf len : Nat) (hlen : len < 2 ^ 31) (events : List Event) :
    (∀ m, Throughout (Steps buf) (Faithful m buf len tsk.sndNxt) (tcpSockWrite tsk len) events ↔
        Along (Steps buf) (SameBytes m buf) (tcpSockWrite tsk len) events) ∧
      ((∀ m, Throughout (Steps buf) (Faithful m buf len tsk.sndNxt) (tcpSockWrite tsk len) events) ↔
        Along (Steps buf) Acked (tcpSockWrite tsk len) events) := by
  refine ⟨throughout_faithful_iff tsk buf hlen events, ?_⟩
  rw [forall_congr' (throughout_faithful_iff tsk buf hlen events), along_forall]
  exact Iff.of_eq (congrArg (fun C => Along (Steps buf) C _ events)
    (funext fun w => funext fun e => propext (sameBytes_forall buf w e)))

/-- A socket that has nothing in flight. -/
def quietSock : Sock := ⟨1000, 1000, 65535, 500, 65535, SynchWait.init⟩

/-- 2000 bytes of a memory that counts up, with the first segment acknowledged before the second. -/
theorem write_sends_iff_two :
    Throughout (Steps 0) (Faithful (BitVec.ofNat 8) 0 2000 1000) (tcpSockWrite quietSock 2000)
      [.segment, .ack ⟨0, 0, 0, 0, 500, 500, 2460, 65535, 16, []⟩, .segment] :=
  (write_sends_iff quietSock 0 2000 (by decide)
    [.segment, .ack ⟨0, 0, 0, 0, 500, 500, 2460, 65535, 16, []⟩, .segment]).2.mpr
    (Along.of_checkAll (by decide)) (BitVec.ofNat 8)

/-- The same with no ACK. -/
theorem write_unacked :
    ¬∀ tsk buf len events m, len < 2 ^ 31 →
      Throughout (Steps buf) (Faithful m buf len tsk.sndNxt) (tcpSockWrite tsk len) events := by
  intro h
  have hsame := (along_forall _ _).mp fun m =>
    (throughout_faithful_iff quietSock 0 (by decide) [.segment, .segment] m).mp (h quietSock 0 2000 _ m (by decide))
  have hsecond := (hsame.2 _ rfl).1
  exact absurd ((sameBytes_forall ..).mp hsecond) (by decide)

end NetStack.Transfer
