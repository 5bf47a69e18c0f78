import NetStack.Lib.Run
import NetStack.Tcp.Acking
import NetStack.Tcp.Receiver

/-! The receiver's position in the stream.

An established socket handles the segments of a peer whose bytes are one fixed stream:
data segments that are pieces of it, and bare acknowledgements numbered by where the peer
was. `rcv_nxt` should be the position after the last byte written. Data keeps it there. A
bare acknowledgement sets it to its own number, whatever that is, so `position_iff`: it
stays there exactly as long as every bare acknowledgement is numbered `rcv_nxt`. -/
namespace NetStack.Tcp
open Reassembly (Faithful Fits Sits Window)

/-- An established socket, and what has been read from it. -/
structure Receiving where
  tsk : TcpSock
  taken : List U8

/-- A segment, with the position in the stream it is numbered by and what the application
reads while the call sleeps; or a read. -/
inductive ReceiveEvent
  | segment (pos : Nat) (cb : TcpCb) (sleeps : List (List Nat))
  | read (len : Nat)

namespace Receiving

/-- Every byte written to the ring buffer, in order. -/
def written (s : Receiving) : List U8 := s.taken ++ s.tsk.rcvBuf.contents

/-- One step. -/
def step (s : Receiving) : ReceiveEvent → Option Receiving
  | .segment _ cb sleeps =>
    match tcpProcess 0 0 0 none sleeps s.tsk cb with
    | none => none
    | some outcome => some ⟨outcome.tsk, s.taken ++ outcome.taken⟩
  | .read len =>
    match s.tsk.sockRead len with
    | none => none
    | some (out, tsk) => some ⟨tsk, s.taken ++ out⟩

/-- The step as a relation. -/
def Step (s : Receiving) (e : ReceiveEvent) (t : Receiving) : Prop := s.step e = some t

/-- The position a sequence number stands for, seen from `rcv_nxt`. -/
def position (s : Receiving) (seq : U32) : Int := s.written.length + (seq - s.tsk.rcvNxt).toInt

/-- What the peer sends: acknowledging segments without SYN, FIN and RST, numbered from
`isn` by their position, with the stream's bytes; and a data segment, of what fits in a
packet, lies within `2^31` of the receiver and of every segment it holds. -/
def Genuine (isn : U32) (stream : Nat → U8) (s : Receiving) : ReceiveEvent → Prop
  | .segment pos cb _ =>
    hasFlag cb.flags tcpAck = true ∧ hasFlag cb.flags (tcpSyn ||| tcpFin ||| tcpRst) = false ∧
      cb.seq = Serial.nth isn pos ∧
      cb.payload = (List.range cb.payload.length).map (fun i => stream (pos + i)) ∧
      (cb.payload ≠ [] → cb.payload.length < 2 ^ 16 ∧ Serial.Near 32 pos s.written.length ∧
        ∀ entry ∈ s.tsk.rcvOfoBuf,
          (pos : Int) < s.position entry.seq + 2 ^ 31 ∧ s.position entry.seq < pos + 2 ^ 31)
  | .read _ => True

/-- A bare acknowledgement is numbered `rcv_nxt`. -/
def AckInOrder (s : Receiving) : ReceiveEvent → Prop
  | .segment _ cb _ => cb.payload = [] → cb.seq = s.tsk.rcvNxt
  | .read _ => True

/-- `rcv_nxt` is the position after the last byte written, and what has been written is
the stream up to there. -/
def AtPosition (isn : U32) (stream : Nat → U8) (s : Receiving) : Prop :=
  s.tsk.rcvNxt = Serial.nth isn s.written.length ∧
    s.written = (List.range s.written.length).map stream

/-- After the step `rcv_nxt` is where it belongs. -/
def StaysAtPosition (isn : U32) (stream : Nat → U8) (s : Receiving) (e : ReceiveEvent) : Prop :=
  ∀ t, Step s e t → t.AtPosition isn stream

/-- The socket implements a reassembler that has delivered the stream from its start. -/
def Inv (isn : U32) (stream : Nat → U8) (s : Receiving) : Prop :=
  s.tsk.state = .established ∧ ∃ r, Receives isn s.tsk s.taken r ∧ Window 32 r ∧
    Faithful (fun p => some (stream p)) 0 r

variable {isn : U32} {stream : Nat → U8} {s t : Receiving}

theorem sits_iff {p : Nat} {data : List U8} :
    Sits (fun p => some (stream p)) p data ↔
      data = (List.range data.length).map fun i => stream (p + i) := by
  constructor
  · intro h
    apply List.ext_getElem
    · simp
    · intro i h1 h2
      have := h i h1
      simp only [Option.some.injEq] at this
      simp [← this]
  · intro h i hi
    have hbyte : data[i]? = some (stream (p + i)) := by
      rw [h, List.getElem?_map, List.getElem?_range hi]
      rfl
    rw [List.getElem?_eq_getElem hi] at hbyte
    exact hbyte.symm

theorem Inv.atPosition (h : Inv isn stream s) : s.AtPosition isn stream := by
  obtain ⟨-, r, hr, -, hf⟩ := h
  have hlen : r.next = s.written.length := by
    rw [hf.next, ← hr.out, Nat.zero_add]
    rfl
  refine ⟨by rw [hr.next, hlen], ?_⟩
  have hsits : Sits (fun p => some (stream p)) 0 s.written := by
    rw [written, hr.out]
    exact hf.out
  simpa using sits_iff.mp hsits

/-- The flags of a genuine segment lead to the branch of an established socket that
handles data and bare acknowledgements. -/
theorem process_genuine {cb : TcpCb} {sleeps : List (List Nat)} (hstate : s.tsk.state = .established)
    (hack : hasFlag cb.flags tcpAck = true)
    (hquiet : hasFlag cb.flags (tcpSyn ||| tcpFin ||| tcpRst) = false) :
    tcpProcess 0 0 0 none sleeps s.tsk cb =
      if cb.payload.length = 0 then some (TcpSock.only (s.tsk.processPureAck cb))
      else s.tsk.processData sleeps cb := by
  have hbits : ∀ flag : U8, flag &&& (tcpSyn ||| tcpFin ||| tcpRst) = flag →
      hasFlag cb.flags flag = false := by
    intro flag hflag
    simp only [hasFlag, bne_eq_false_iff_eq] at hquiet ⊢
    rw [← hflag, BitVec.and_comm flag, ← BitVec.and_assoc, hquiet]
    exact BitVec.zero_and
  have hrst := hbits tcpRst (by decide)
  have hfin := hbits tcpFin (by decide)
  simp only [tcpProcess, hrst, hstate, TcpSock.processEstablished, hfin, hack, if_true,
    Bool.false_eq_true, if_false]

/-- A data segment moves the socket as its arrival moves the reassembler. -/
theorem Inv.data (h : Inv isn stream s) {pos : Nat} {cb : TcpCb} {sleeps : List (List Nat)}
    (hg : Genuine isn stream s (.segment pos cb sleeps)) (hne : cb.payload ≠ []) {rx : Rx}
    (hrun : Rx.handleRecvData ⟨s.tsk, sleeps, [], []⟩ cb = some rx) :
    Inv isn stream ⟨rx.tsk, s.taken ++ rx.taken⟩ := by
  obtain ⟨hstate, r, hr, hw, hf⟩ := h
  obtain ⟨-, -, hseq, hpayload, hrange⟩ := hg
  obtain ⟨hshort, hnear, hheld⟩ := hrange hne
  have hlen : r.next = s.written.length := by
    rw [hf.next, ← hr.out, Nat.zero_add]
    rfl
  have hfits : Fits 32 r (pos, cb.payload) := by
    refine ⟨?_, by rw [hlen]; exact hnear, ?_⟩
    · show 2 * cb.payload.length < 2 ^ 32
      omega
    · intro x hx
      have hentry : ofoEntry isn x ∈ s.tsk.rcvOfoBuf := by
        rw [hr.held]
        exact List.mem_map_of_mem hx
      have hpos : s.position (ofoEntry isn x).seq = x.1 := by
        show (s.written.length : Int) + (Serial.nth isn x.1 - s.tsk.rcvNxt).toInt = x.1
        rw [hr.next, Serial.toInt_nth_sub_near isn (hw.near x hx), hlen]
        omega
      have := hheld _ hentry
      rw [hpos] at this
      constructor <;> omega
  refine ⟨?_, _, Rx.handleRecvData_receives_from hr hw hseq hfits hrun, hw.arrive hfits,
    hf.arrive (sits_iff.mpr hpayload)⟩
  have honly := (Rx.handleRecvData_frame hrun).tsk
  unfold RecvOnly at honly
  rw [honly]
  exact hstate

/-- A bare acknowledgement numbered `rcv_nxt` leaves the receive path alone. -/
theorem Inv.ack (h : Inv isn stream s) {cb : TcpCb} (hseq : cb.seq = s.tsk.rcvNxt) :
    Inv isn stream ⟨(s.tsk.processPureAck cb).1, s.taken⟩ := by
  obtain ⟨hstate, r, hr, hw, hf⟩ := h
  obtain ⟨hnxt, hofo, hbuf, hst, -⟩ := (s.tsk.processPureAck_acked cb).only.fields
  exact ⟨hst.trans hstate, r, ⟨hnxt.trans (hseq.trans hr.next), hofo.trans hr.held, by
    rw [hbuf]; exact hr.out⟩, hw, hf⟩

/-- A read takes from the front of what has been written. -/
theorem Inv.read (h : Inv isn stream s) {len : Nat} {out : List U8} {tsk : TcpSock}
    (hread : s.tsk.sockRead len = some (out, tsk)) : Inv isn stream ⟨tsk, s.taken ++ out⟩ := by
  obtain ⟨hstate, r, hr, hw, hf⟩ := h
  unfold TcpSock.sockRead at hread
  split at hread <;> cases hread
  refine ⟨hstate, r, ⟨hr.next, hr.held, ?_⟩, hw, hf⟩
  rw [← hr.out, RingBuffer.read_out, RingBuffer.read_contents, List.append_assoc,
    List.take_append_drop]

/-- Every genuine step with its acknowledgement in order keeps the invariant. -/
theorem Inv.step {e : ReceiveEvent} (h : Inv isn stream s) (hg : Genuine isn stream s e)
    (hack : AckInOrder s e) (hstep : Step s e t) : Inv isn stream t := by
  cases e with
  | segment pos cb sleeps =>
    simp only [Step, Receiving.step] at hstep
    rw [process_genuine h.1 hg.1 hg.2.1] at hstep
    by_cases hnil : cb.payload.length = 0
    · simp only [hnil, if_true] at hstep
      cases hstep
      rw [TcpSock.only, List.append_nil]
      exact h.ack (hack (List.length_eq_zero_iff.mp hnil))
    · simp only [hnil, if_false] at hstep
      split at hstep
      · cases hstep
      · rename_i outcome hrun
        simp only [TcpSock.processData] at hrun
        split at hrun
        · cases hrun
        · rename_i rx hrx
          cases hrun
          cases hstep
          exact h.data hg (fun hp => hnil (by rw [hp]; rfl)) hrx
  | read len =>
    simp only [Step, Receiving.step] at hstep
    split at hstep
    · cases hstep
    · cases hstep
      exact h.read ‹_›

/-- Under the invariant a genuine step leaves `rcv_nxt` in place exactly if a bare
acknowledgement in it is numbered `rcv_nxt`. -/
theorem Inv.stays_iff {e : ReceiveEvent} (h : Inv isn stream s) (hg : Genuine isn stream s e) :
    StaysAtPosition isn stream s e ↔ AckInOrder s e := by
  constructor
  · intro hstays
    cases e with
    | segment pos cb sleeps =>
      intro hnil
      obtain ⟨hrcv, -, hbuf, -, -⟩ := (s.tsk.processPureAck_acked cb).only.fields
      have hrun : s.step (.segment pos cb sleeps) =
          some ⟨(s.tsk.processPureAck cb).1, s.taken ++ []⟩ := by
        simp only [Receiving.step, process_genuine h.1 hg.1 hg.2.1, hnil, List.length_nil, if_true,
          TcpSock.only]
      obtain ⟨hnxt, -⟩ := hstays _ hrun
      have hend : (s.tsk.processPureAck cb).1.rcvNxt = Serial.nth isn
          (s.taken ++ [] ++ (s.tsk.processPureAck cb).1.rcvBuf.contents).length := hnxt
      rw [hrcv, hbuf, List.append_nil] at hend
      exact hend.trans h.atPosition.1.symm
    | read len => trivial
  · intro hack t hstep
    exact (h.step hg hack hstep).atPosition

/-- **The receiver's position.** On an established socket that has received nothing yet,
for genuine segments in any order and with any repetitions, `rcv_nxt` is after every
step the position after the last byte written, exactly if every bare acknowledgement
handled is numbered `rcv_nxt` when it is handled. -/
theorem position_iff (stream : Nat → U8) {tsk : TcpSock} (hstate : tsk.state = .established)
    (hofo : tsk.rcvOfoBuf = []) (hempty : tsk.rcvBuf.contents = []) {es : List ReceiveEvent}
    (hgenuine : Along Step (Genuine tsk.rcvNxt stream) ⟨tsk, []⟩ es) :
    Along Step (StaysAtPosition tsk.rcvNxt stream) ⟨tsk, []⟩ es ↔ Along Step AckInOrder ⟨tsk, []⟩ es := by
  have hinit : Inv tsk.rcvNxt stream ⟨tsk, []⟩ := by
    refine ⟨hstate, ⟨0, [], []⟩, ⟨(Serial.nth_zero _).symm, hofo, hempty⟩, ?_, ?_⟩
    · exact ⟨List.Pairwise.nil, by simp, by simp⟩
    · exact ⟨rfl, Reassembly.Sits.nil _ _, by simp⟩
  exact along_iff_of (fun _ _ _ hi hg hc hs => hi.step hg hc hs) (fun _ _ hi hg => hi.stays_iff hg)
    hinit hgenuine

/-- A data segment with byte 7, at position 0. -/
def byteSeven : TcpCb := ⟨0, 0, 0, 0, 0, 1, 0, 0, tcpPsh ||| tcpAck, [7]⟩

/-- A bare acknowledgement numbered `seq`. -/
def bareAck (seq : U32) : TcpCb := ⟨0, 0, 0, 0, seq, seq, 0, 0, tcpAck, []⟩

/-- A fresh socket put in state `TCP_ESTABLISHED`. -/
def fresh : TcpSock := { allocTcpSock with state := .established }

theorem genuine_byteSeven (pos : Nat) :
    Along Step (Genuine 0 fun _ => 7) ⟨fresh, []⟩
      [.segment 0 byteSeven [], .segment pos (bareAck (Serial.nth 0 pos)) []] := by
  have hack : hasFlag tcpAck tcpAck = true := by decide
  have hquiet : hasFlag tcpAck (tcpSyn ||| tcpFin ||| tcpRst) = false := by decide
  refine ⟨⟨by decide, by decide, by decide, rfl, fun _ => ⟨by decide, by decide, ?_⟩⟩,
    fun t _ => ⟨⟨hack, hquiet, rfl, rfl, fun h => absurd rfl h⟩, fun _ _ => trivial⟩⟩
  simp [fresh, allocTcpSock]

/-- The byte, then an acknowledgement sent after it. -/
theorem position_iff_in_order :
    Along Step (StaysAtPosition 0 fun _ => 7) ⟨fresh, []⟩
        [.segment 0 byteSeven [], .segment 1 (bareAck (Serial.nth 0 1)) []] ↔
      Along Step AckInOrder ⟨fresh, []⟩
        [.segment 0 byteSeven [], .segment 1 (bareAck (Serial.nth 0 1)) []] :=
  position_iff (fun _ => 7) (show fresh.state = .established from rfl) rfl
    (RingBuffer.contents_alloc _) (genuine_byteSeven 1)

/-- The byte, then an acknowledgement sent before it: `rcv_nxt` goes back to 0 with one
byte written. -/
theorem stale_ack_moves_back :
    Along Step (Genuine 0 fun _ => 7) ⟨fresh, []⟩
        [.segment 0 byteSeven [], .segment 0 (bareAck (Serial.nth 0 0)) []] ∧
      ¬Along Step (StaysAtPosition 0 fun _ => 7) ⟨fresh, []⟩
        [.segment 0 byteSeven [], .segment 0 (bareAck (Serial.nth 0 0)) []] := by
  refine ⟨genuine_byteSeven 0, fun hstays => ?_⟩
  have hrun : ((step ⟨fresh, []⟩ (.segment 0 byteSeven [])).bind fun t =>
      (t.step (.segment 0 (bareAck (Serial.nth 0 0)) [])).map fun u =>
        (u.tsk.rcvNxt, u.written.length)) = some (0, 1) := by decide
  obtain ⟨t, ht, hu⟩ := Option.bind_eq_some_iff.mp hrun
  obtain ⟨u, hu, hend⟩ := Option.map_eq_some_iff.mp hu
  obtain ⟨hnxt, hlen⟩ := Prod.mk.inj hend
  have := ((hstays.2 t ht).1 u hu).1
  rw [hnxt, hlen] at this
  exact absurd this (by decide)

end Receiving

end NetStack.Tcp
