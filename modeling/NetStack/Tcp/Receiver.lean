import NetStack.Lib.Reassembly
import NetStack.Tcp.Recv

/-! The receive path reassembles.

`Receives` relates a socket to the reassembler it implements: `rcv_nxt` and the sequence
numbers of `rcv_ofo_buf` are the serial numbers of its positions, and what the application
has read together with the ring buffer is what it has delivered. `handleRecvData_receives`:
a call of `handle_recv_data` is one arrival, however the application reads meanwhile, as
long as the piece lies within serial range. -/
namespace NetStack.Tcp
open Reassembly (Fits Window)

/-- The entry of `rcv_ofo_buf` that stands for a piece. -/
def ofoEntry (isn : U32) (piece : Nat × List U8) : RcvOfoEntry := ⟨Serial.nth isn piece.1, piece.2⟩

/-- The socket, with what has been read from it, implements the reassembler; positions
are counted from `isn`. -/
structure Receives (isn : U32) (tsk : TcpSock) (taken : List U8) (r : Reassembly U8) : Prop where
  next : tsk.rcvNxt = Serial.nth isn r.next
  held : tsk.rcvOfoBuf = r.held.map (ofoEntry isn)
  out : taken ++ tsk.rcvBuf.contents = r.out

/-- Nothing but the receive path's own fields differs. -/
def RecvOnly (tsk tsk' : TcpSock) : Prop :=
  tsk' = { tsk with
    rcvBuf := tsk'.rcvBuf, rcvOfoBuf := tsk'.rcvOfoBuf, rcvNxt := tsk'.rcvNxt, rcvWnd := tsk'.rcvWnd
    sndUna := tsk'.sndUna, retransTimer := tsk'.retransTimer }

theorem RecvOnly.refl (tsk : TcpSock) : RecvOnly tsk tsk := rfl

theorem RecvOnly.trans {a b c : TcpSock} (hab : RecvOnly a b) (hbc : RecvOnly b c) : RecvOnly a c := by
  unfold RecvOnly at *
  rw [hab] at hbc
  exact hbc

theorem RecvOnly.sndNxt {tsk tsk' : TcpSock} (h : RecvOnly tsk tsk') : tsk'.sndNxt = tsk.sndNxt := by
  unfold RecvOnly at h
  rw [h]

/-- A bare acknowledgement changes nothing in the socket. -/
@[simp] theorem sendControlPacket_ack (tsk : TcpSock) :
    tsk.sendControlPacket tcpAck = (tsk, tsk.packet tcpAck []) := by
  have hsyn : hasFlag tcpAck (tcpSyn ||| tcpFin) = false := by decide
  simp [TcpSock.sendControlPacket, hsyn]

namespace Rx

/-! ### Waiting -/

/-- Between the two the application has only read. -/
def Waited (rx rx' : Rx) : Prop :=
  ∃ rcvBuf sleeps taken, rx' = { rx with tsk := { rx.tsk with rcvBuf }, sleeps, taken } ∧
    taken ++ rcvBuf.contents = rx.taken ++ rx.tsk.rcvBuf.contents ∧ rcvBuf.size = rx.tsk.rcvBuf.size

theorem Waited.refl (rx : Rx) : Waited rx rx := ⟨_, _, _, rfl, rfl, rfl⟩

theorem Waited.trans {a b c : Rx} (hab : Waited a b) (hbc : Waited b c) : Waited a c := by
  obtain ⟨buf, sleeps, taken, rfl, hab, hsize⟩ := hab
  obtain ⟨buf', sleeps', taken', rfl, hbc, hsize'⟩ := hbc
  exact ⟨buf', sleeps', taken', rfl, hbc.trans hab, hsize'.trans hsize⟩

theorem reads_waited {rx rx' : Rx} {lens : List Nat} (h : rx.reads lens = some rx') :
    Waited rx rx' := by
  induction lens generalizing rx with
  | nil =>
    cases h
    exact .refl _
  | cons len lens ih =>
    simp only [reads, TcpSock.sockRead] at h
    by_cases hempty : rx.tsk.rcvBuf.empty = true
    · simp [hempty] at h
    · simp only [hempty] at h
      refine Waited.trans ⟨_, _, _, rfl, ?_, RingBuffer.read_size _ len⟩ (ih h)
      rw [RingBuffer.read_out, RingBuffer.read_contents, List.append_assoc, List.take_append_drop]

theorem sleepWhile_waited {blocked : RingBuffer → Bool} {sleeps : List (List Nat)} {rx rx' : Rx}
    (h : rx.sleepWhile blocked sleeps = some rx') :
    Waited rx rx' ∧ blocked rx'.tsk.rcvBuf = false := by
  induction sleeps generalizing rx with
  | nil =>
    simp only [sleepWhile] at h
    split at h
    · cases h
    · rename_i hfree
      cases h
      exact ⟨⟨_, _, _, rfl, rfl, rfl⟩, Bool.eq_false_of_not_eq_true hfree⟩
  | cons lens sleeps ih =>
    simp only [sleepWhile] at h
    split at h
    · split at h
      · cases h
      · rename_i rx₁ hreads
        obtain ⟨hwait, hfree⟩ := ih h
        exact ⟨(reads_waited hreads).trans hwait, hfree⟩
    · rename_i hfree
      cases h
      exact ⟨⟨_, _, _, rfl, rfl, rfl⟩, Bool.eq_false_of_not_eq_true hfree⟩

/-! ### One call -/

/-- What a call adds to the wire: bare acknowledgements, numbered `snd_nxt`. -/
def Acks (tsk : TcpSock) (sent : List Packet) : Prop :=
  ∀ packet ∈ sent, packet.flags = tcpAck ∧ packet.payload = [] ∧ packet.seq = tsk.sndNxt

/-- What any part of a call leaves: only receive fields changed, only ACKs sent. -/
structure Frame (rx rx' : Rx) : Prop where
  tsk : RecvOnly rx.tsk rx'.tsk
  sent : ∃ acks, rx'.sent = rx.sent ++ acks ∧ Acks rx.tsk acks

theorem Frame.refl (rx : Rx) : Frame rx rx := ⟨.refl _, [], by simp, by simp [Acks]⟩

theorem Frame.trans {a b c : Rx} (hab : Frame a b) (hbc : Frame b c) : Frame a c := by
  obtain ⟨acks, hsent, hacks⟩ := hab.sent
  obtain ⟨acks', hsent', hacks'⟩ := hbc.sent
  refine ⟨hab.tsk.trans hbc.tsk, acks ++ acks', by rw [hsent', hsent, List.append_assoc], ?_⟩
  intro packet hp
  rcases List.mem_append.mp hp with hp | hp
  · exact hacks packet hp
  · rw [← RecvOnly.sndNxt hab.tsk]
    exact hacks' packet hp

theorem Waited.frame {rx rx' : Rx} (h : Waited rx rx') : Frame rx rx' := by
  obtain ⟨buf, sleeps, taken, rfl, -, -⟩ := h
  exact ⟨rfl, [], by simp, by simp [Acks]⟩

theorem control_frame (rx : Rx) : Frame rx (rx.control tcpAck) := by
  refine ⟨?_, [rx.tsk.packet tcpAck []], ?_, ?_⟩
  · simp [control, RecvOnly]
  · simp [control]
  · simp [Acks, TcpSock.packet]

/-- What one delivered entry does: the entry's bytes behind the ring buffer and `rcv_nxt`
over them, and nothing else to the receive fields but the advertised window. -/
theorem putEntry_spec {rx rx' : Rx} {entry : RcvOfoEntry} {rest : List RcvOfoEntry}
    (h : rx.putEntry entry rest = some rx') :
    Frame rx rx' ∧ rx'.tsk.rcvNxt = rx.tsk.rcvNxt + BitVec.ofNat 32 entry.data.length ∧
      rx'.tsk.rcvOfoBuf = rest ∧ rx'.tsk.rcvBuf.size = rx.tsk.rcvBuf.size ∧
      rx'.taken ++ rx'.tsk.rcvBuf.contents = rx.taken ++ rx.tsk.rcvBuf.contents ++ entry.data := by
  simp only [putEntry, acknowledge, control, sendControlPacket_ack] at h
  split at h
  · cases h
  · rename_i rx₁ hsleep
    obtain ⟨⟨buf, sleeps, taken, rfl, hcontents, hsize⟩, -⟩ := sleepWhile_waited hsleep
    split at h
    · cases h
    · rename_i rcvBuf hwrite
      cases h
      have hw := RingBuffer.write_contents hwrite
      refine ⟨⟨rfl, [_], rfl, ?_⟩, rfl, rfl, (RingBuffer.write_used hwrite).2.trans hsize, ?_⟩
      · simp [Acks, TcpSock.packet]
      · show taken ++ rcvBuf.contents = _
        rw [hw, ← List.append_assoc, hcontents]

theorem putRecvOfoBuf_frame {l : List RcvOfoEntry} {rx rx' : Rx} {value : Int}
    (h : rx.putRecvOfoBuf l = some (value, rx')) : Frame rx rx' := by
  induction l generalizing rx with
  | nil =>
    cases h
    exact .refl _
  | cons entry rest ih =>
    simp only [putRecvOfoBuf] at h
    split at h
    · split at h
      · cases h
      · rename_i rx₁ hput
        exact (putEntry_spec hput).1.trans (ih h)
    · split at h <;> cases h <;> exact .refl _

/-- A receive call changes receive fields only and sends bare acknowledgements only. -/
theorem handleRecvData_frame {rx rx' : Rx} {cb : TcpCb} (h : rx.handleRecvData cb = some rx') :
    Frame rx rx' := by
  simp only [handleRecvData] at h
  split at h
  · cases h
  · rename_i rx₁ hsleep
    apply (sleepWhile_waited hsleep).1.frame.trans
    simp only [accept] at h
    split at h
    · cases h
      exact control_frame _
    · split at h
      · cases h
      · rename_i value rx₂ hput
        cases h
        refine Frame.trans (b := { rx₁ with tsk := rx₁.tsk.addRecvOfoBufEntry cb }) ?_ ?_
        · exact ⟨rfl, [], by simp, by simp [Acks]⟩
        · refine (putRecvOfoBuf_frame hput).trans ⟨?_, [], by simp, by simp [Acks]⟩
          unfold RecvOnly
          rw [TcpSock.updateRetransTimer_eq]

theorem putEntry_sndUna {rx rx' : Rx} {entry : RcvOfoEntry} {rest : List RcvOfoEntry}
    (h : rx.putEntry entry rest = some rx') : rx'.tsk.sndUna = rx.tsk.sndUna := by
  simp only [putEntry, acknowledge, control, sendControlPacket_ack] at h
  split at h
  · cases h
  · rename_i rx₁ hsleep
    obtain ⟨⟨buf, sleeps, taken, rfl, -, -⟩, -⟩ := sleepWhile_waited hsleep
    split at h
    · cases h
    · cases h
      rfl

theorem putRecvOfoBuf_sndUna {l : List RcvOfoEntry} {rx rx' : Rx} {value : Int}
    (h : rx.putRecvOfoBuf l = some (value, rx')) : rx'.tsk.sndUna = rx.tsk.sndUna := by
  induction l generalizing rx with
  | nil =>
    cases h
    rfl
  | cons entry rest ih =>
    simp only [putRecvOfoBuf] at h
    split at h
    · split at h
      · cases h
      · exact (ih h).trans (putEntry_sndUna ‹_›)
    · split at h <;> cases h <;> rfl

/-- A segment that is not old moves `snd_una` up to its acknowledgement; an old one does
not. -/
theorem handleRecvData_sndUna {rx rx' : Rx} {cb : TcpCb} (h : rx.handleRecvData cb = some rx') :
    rx'.tsk.sndUna = if !lessThan32b cb.seq rx.tsk.rcvNxt && greaterThan32b cb.ack rx.tsk.sndUna
      then cb.ack else rx.tsk.sndUna := by
  simp only [handleRecvData] at h
  split at h
  · cases h
  · rename_i rx₁ hsleep
    obtain ⟨⟨buf, sleeps, taken, rfl, -, -⟩, -⟩ := sleepWhile_waited hsleep
    simp only [accept] at h
    split at h
    · rename_i hold
      cases h
      simp [control, hold]
    · rename_i hnew
      split at h
      · cases h
      · rename_i value rx₂ hput
        cases h
        have huna := putRecvOfoBuf_sndUna hput
        have hkeep : (rx.tsk.addRecvOfoBufEntry cb).sndUna = rx.tsk.sndUna := rfl
        rw [TcpSock.updateRetransTimer_eq]
        simp only [hnew, huna, Bool.not_false, Bool.true_and]
        rfl

/-! ### Refinement -/

variable {isn : U32} {r : Reassembly U8}

theorem Waited.receives {rx rx' : Rx} (hw : Waited rx rx') (h : Receives isn rx.tsk rx.taken r) :
    Receives isn rx'.tsk rx'.taken r := by
  obtain ⟨buf, sleeps, taken, rfl, hcontents, -⟩ := hw
  exact ⟨h.next, h.held, hcontents.trans h.out⟩

/-- Within serial range the sorted insertion of the source is that of the reassembler. -/
theorem insertOfo_map {piece : Nat × List U8} {l : List (Nat × List U8)}
    (hnear : ∀ x ∈ l, Serial.Near 32 piece.1 x.1) :
    TcpSock.insertOfo (ofoEntry isn piece) (l.map (ofoEntry isn)) =
      (Reassembly.insert piece l).map (ofoEntry isn) := by
  induction l with
  | nil => rfl
  | cons x rest ih =>
    have hx := hnear x (List.mem_cons_self ..)
    simp only [List.map_cons, TcpSock.insertOfo, Reassembly.insert]
    have hlt : lessThan32b (ofoEntry isn piece).seq (ofoEntry isn x).seq = decide (piece.1 < x.1) :=
      Serial.lt_nth isn hx
    rw [hlt]
    by_cases h : piece.1 < x.1
    · simp [h]
    · simp only [h, decide_false, if_false, List.map_cons, Bool.false_eq_true]
      rw [ih fun y hy => hnear y (List.mem_cons_of_mem x hy)]

/-- The drain of the source is that of the reassembler. -/
theorem putRecvOfoBuf_receives {l : List (Nat × List U8)} {rx rx' : Rx} {value : Int}
    (hr : Receives isn rx.tsk rx.taken { r with held := l }) (ho : Reassembly.Ordered l)
    (hshort : ∀ x ∈ l, 2 * x.2.length < 2 ^ 32) (hnear : ∀ x ∈ l, Serial.Near 32 x.1 r.next)
    (h : rx.putRecvOfoBuf (l.map (ofoEntry isn)) = some (value, rx')) :
    Receives isn rx'.tsk rx'.taken (r.drain l) := by
  induction l generalizing rx r with
  | nil =>
    cases h
    exact hr
  | cons x rest ih =>
    obtain ⟨hx, hrest⟩ := List.pairwise_cons.mp ho
    have hxnear := hnear x (List.mem_cons_self ..)
    simp only [List.map_cons, putRecvOfoBuf] at h
    have hiff : rx.tsk.rcvNxt = (ofoEntry isn x).seq ↔ x.1 = r.next := by
      rw [hr.next]
      constructor
      · intro heq
        exact Serial.nth_inj hxnear heq.symm
      · intro heq
        show Serial.nth isn r.next = Serial.nth isn x.1
        rw [heq]
    rw [Reassembly.drain]
    by_cases heq : x.1 = r.next
    · rw [if_pos heq]
      rw [if_pos (hiff.mpr heq)] at h
      split at h
      · cases h
      · rename_i rx₁ hput
        obtain ⟨-, hnxt, hofo, -, hout⟩ := putEntry_spec hput
        refine ih ⟨?_, hofo, ?_⟩ hrest (fun y hy => hshort y (List.mem_cons_of_mem x hy)) ?_ h
        · rw [hnxt, hr.next]
          exact Serial.nth_add isn _ _
        · rw [hout, hr.out]
          rfl
        · intro y hy
          exact Reassembly.near_advance (heq ▸ hx y hy) (hnear y (List.mem_cons_of_mem x hy))
            (hshort x (List.mem_cons_self ..))
    · rw [if_neg heq]
      rw [if_neg (mt hiff.mp heq)] at h
      split at h <;> cases h <;> exact hr

/-- **One arrival.** A call of `handle_recv_data` that returns has done what the arrival
of its piece does, whatever the application read meanwhile. -/
theorem handleRecvData_receives {rx rx' : Rx} {cb : TcpCb} {p : Nat}
    (hr : Receives isn rx.tsk rx.taken r) (hw : Window 32 r) (hseq : cb.seq = Serial.nth isn p)
    (hfits : Fits 32 r (p, cb.payload)) (h : rx.handleRecvData cb = some rx') :
    Receives isn rx'.tsk rx'.taken (r.arrive (p, cb.payload)) := by
  simp only [handleRecvData] at h
  split at h
  · cases h
  · rename_i rx₁ hsleep
    have hr₁ := (sleepWhile_waited hsleep).1.receives hr
    have hold : lessThan32b cb.seq rx₁.tsk.rcvNxt = decide (p < r.next) := by
      rw [hseq, hr₁.next]
      exact Serial.lt_nth isn hfits.next
    simp only [accept, hold, decide_eq_true_eq] at h
    rw [Reassembly.arrive]
    split at h
    · rename_i hlt
      rw [if_pos hlt]
      cases h
      simpa [control] using hr₁
    · rename_i hge
      rw [if_neg hge]
      split at h
      · cases h
      · rename_i value rx₂ hput
        cases h
        have hofo : (rx₁.tsk.addRecvOfoBufEntry cb).rcvOfoBuf =
            (Reassembly.insert (p, cb.payload) r.held).map (ofoEntry isn) := by
          rw [← insertOfo_map hfits.held]
          show TcpSock.insertOfo ⟨cb.seq, cb.payload⟩ rx₁.tsk.rcvOfoBuf = _
          rw [hseq, hr₁.held]
          rfl
        have hdrain : Receives isn rx₂.tsk rx₂.taken
            (r.drain (Reassembly.insert (p, cb.payload) r.held)) := by
          rw [hofo] at hput
          refine putRecvOfoBuf_receives ?_ hw.ordered.insert ?_ ?_ hput
          · exact ⟨hr₁.next, hofo, hr₁.out⟩
          · intro x hx
            rcases Reassembly.mem_insert.mp hx with rfl | hx
            · exact hfits.short
            · exact hw.short x hx
          · intro x hx
            rcases Reassembly.mem_insert.mp hx with rfl | hx
            · exact hfits.next
            · exact hw.near x hx
        dsimp only
        rw [TcpSock.updateRetransTimer_eq]
        exact ⟨hdrain.next, hdrain.held, hdrain.out⟩

/-- The same, where `taken` was read before the call. -/
theorem handleRecvData_receives_from {tsk : TcpSock} {taken : List U8} {sleeps : List (List Nat)}
    {rx' : Rx} {cb : TcpCb} {p : Nat} (hr : Receives isn tsk taken r) (hw : Window 32 r)
    (hseq : cb.seq = Serial.nth isn p) (hfits : Fits 32 r (p, cb.payload))
    (h : handleRecvData ⟨tsk, sleeps, [], []⟩ cb = some rx') :
    Receives isn rx'.tsk (taken ++ rx'.taken) (r.arrive (p, cb.payload)) := by
  have hr₀ : Receives isn tsk [] { r with out := tsk.rcvBuf.contents } := ⟨hr.next, hr.held, rfl⟩
  have hw₀ : Window 32 { r with out := tsk.rcvBuf.contents } := ⟨hw.ordered, hw.short, hw.near⟩
  have hfits₀ : Fits 32 { r with out := tsk.rcvBuf.contents } (p, cb.payload) :=
    ⟨hfits.short, hfits.next, hfits.held⟩
  obtain ⟨hnext, hheld, hout⟩ := handleRecvData_receives hr₀ hw₀ hseq hfits₀ h
  have harrive : r.arrive (p, cb.payload) = _ :=
    hr.out ▸ Reassembly.arrive_append_out { r with out := tsk.rcvBuf.contents } taken (p, cb.payload)
  rw [harrive]
  exact ⟨hnext, hheld, by rw [List.append_assoc, hout]⟩

end Rx

end NetStack.Tcp
