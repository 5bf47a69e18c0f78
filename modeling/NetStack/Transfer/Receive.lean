import NetStack.Transfer.Write

/-! Receiving (`is_tcp_seq_valid`, `handle_recv_data` and `tcp_process` in `tcp_in.c`, `tcp_sock_read` in
`tcp_sock.c` of `EXP16-TCP_Stack_2/code/16-tcp_stack-2`).

A segment waits only as long as the receive buffer is full, and the window that it is checked
against is never reduced. A buffer with any room is therefore written the whole segment, and
`write_ring_buffer` asserts that it fits. The assertion holds throughout exactly if no segment
comes when the bytes not yet read leave some room but too little (`receive_holds_iff`). -/
namespace NetStack.Transfer
open Tcp (SynchWait RingBuffer TcpState TcpCb Packet tcpCbInit tcpDefaultWindow tcpFin tcpSyn tcpRst tcpAck hasFlag
  lessThan32b lessOrEqual32b)

/-! ### The code -/

/-- A socket with its receive buffer. `waiting` is the segment over which `handle_recv_data` is
asleep, `aborted` that an assertion has failed; `received` and `taken` count the bytes that
segments brought into the buffer and that reads took out of it. -/
structure Receiver where
  tsk : Sock
  state : TcpState
  rcvBuf : RingBuffer
  waiting : Option TcpCb
  aborted : Bool
  received : Nat
  taken : Nat

/-- `is_tcp_seq_valid`. -/
def Sock.isTcpSeqValid (tsk : Sock) (cb : TcpCb) : Bool :=
  let rcvEnd := tsk.rcvNxt + if tsk.rcvWnd = 0 then 1 else tsk.rcvWnd.setWidth 32
  lessThan32b cb.seq rcvEnd && lessOrEqual32b tsk.rcvNxt cb.seqEnd

namespace Receiver

/-- A socket just established, with the buffer that `alloc_tcp_sock` made it. -/
def established (tsk : Sock) : Receiver := ⟨tsk, .established, .alloc tcpDefaultWindow, none, false, 0, 0⟩

/-- `handle_recv_data`, up to where it sleeps or returns. -/
def handleRecvData (r : Receiver) (cb : TcpCb) : Receiver :=
  if r.rcvBuf.full then { r with waiting := some cb }
  else
    match r.rcvBuf.write cb.payload with
    | none => { r with aborted := true }
    | some rcvBuf =>
      { r with
        rcvBuf
        waiting := none
        tsk := { r.tsk with rcvNxt := cb.seq + BitVec.ofNat 32 cb.payload.length, sndUna := cb.ack }
        received := r.received + cb.payload.length }

/-- `tcp_process` of an established socket. -/
def tcpProcess (r : Receiver) (cb : TcpCb) : Receiver :=
  if hasFlag cb.flags tcpRst then { r with state := .finWait1 }  -- `tcp_sock_close`
  else if !r.tsk.isTcpSeqValid cb then r
  else if hasFlag cb.flags tcpFin then { r with state := .closeWait, tsk := { r.tsk with rcvNxt := cb.seq + 1 } }
  else if hasFlag cb.flags tcpAck then
    if cb.payload = [] then
      { r with tsk := ({ r.tsk with sndUna := cb.ack, rcvNxt := cb.seq + 1 } : Sock).updateWindowSafe cb }
    else r.handleRecvData cb
  else r

/-- A packet comes in, `handle_recv_data` wakes up, or the application reads. -/
inductive Event
  | receive (packet : Packet)
  | wake
  | read (len : Nat)

/-- One event. A packet is processed when the one before it is done with, and a read returns when
there is something to read. A wakeup finds the buffer full still, or goes on. -/
def step (r : Receiver) (e : Event) : Option Receiver :=
  if r.aborted then none
  else
    match e with
    | .receive packet =>
      if r.state = .established ∧ r.waiting = none then some (r.tcpProcess (tcpCbInit packet)) else none
    | .wake =>
      match r.waiting with
      | none => none
      | some cb => some (r.handleRecvData cb)
    | .read len =>
      if r.rcvBuf.empty then none
      else
        let (data, rcvBuf) := r.rcvBuf.read len
        some { r with rcvBuf, taken := r.taken + data.length }

abbrev Steps (r : Receiver) (e : Event) (r' : Receiver) : Prop := r.step e = some r'

/-! ### What is written -/

/-- The packet is one with data that `tcp_process` accepts. -/
def Accepts (r : Receiver) (cb : TcpCb) : Prop :=
  hasFlag cb.flags tcpRst = false ∧ r.tsk.isTcpSeqValid cb = true ∧ hasFlag cb.flags tcpFin = false ∧
    hasFlag cb.flags tcpAck = true ∧ cb.payload ≠ []

instance (r : Receiver) (cb : TcpCb) : Decidable (r.Accepts cb) := by unfold Accepts; infer_instance

/-- The segment that an event has `handle_recv_data` look at the buffer for. -/
def segment (r : Receiver) : Event → Option TcpCb
  | .receive packet =>
    if r.state = .established ∧ r.waiting = none ∧ r.Accepts (tcpCbInit packet) then some (tcpCbInit packet) else none
  | .wake => r.waiting
  | .read _ => none

/-- When a segment is looked at, the bytes not yet read are a whole window, or few enough for the
segment to fit into the window with them. -/
def Fits (r : Receiver) (e : Event) : Prop := ∀ cb ∈ r.segment e,
  r.received = r.taken + tcpDefaultWindow ∨ r.received + cb.payload.length ≤ r.taken + tcpDefaultWindow

variable {r r' : Receiver} {cb : TcpCb} {e : Event}

theorem tcpProcess_accepts (h : r.Accepts cb) : r.tcpProcess cb = r.handleRecvData cb := by
  obtain ⟨hrst, hvalid, hfin, hack, hdata⟩ := h
  simp only [tcpProcess, hrst, hvalid, hfin, hack, hdata, Bool.not_true, if_true, if_false, Bool.false_eq_true]

/-- Any other packet leaves the buffer as it is. -/
theorem tcpProcess_other (h : ¬r.Accepts cb) : ∃ tsk state, r.tcpProcess cb = { r with tsk, state } := by
  unfold tcpProcess
  split
  · exact ⟨_, _, rfl⟩
  · next hrst =>
    split
    · exact ⟨_, _, rfl⟩
    · next hvalid =>
      split
      · exact ⟨_, _, rfl⟩
      · next hfin =>
        split
        · next hack =>
          split
          · exact ⟨_, _, rfl⟩
          · next hdata =>
            refine absurd ⟨?_, ?_, ?_, hack, hdata⟩ h
            · exact Bool.eq_false_of_not_eq_true hrst
            · simpa using hvalid
            · exact Bool.eq_false_of_not_eq_true hfin
        · exact ⟨_, _, rfl⟩

/-- A segment that is accepted, and neither left waiting nor too long, does to the socket what a
write sees of it. -/
theorem tcpProcess_processAck (hrst : hasFlag cb.flags tcpRst = false) (hvalid : r.tsk.isTcpSeqValid cb = true)
    (hfin : hasFlag cb.flags tcpFin = false) (hack : hasFlag cb.flags tcpAck = true)
    (hidle : (r.tcpProcess cb).waiting = none) (hrunning : (r.tcpProcess cb).aborted = false) :
    (r.tcpProcess cb).tsk = r.tsk.processAck cb := by
  simp only [tcpProcess, hrst, hvalid, hfin, hack, Bool.not_true, if_true, Bool.false_eq_true, if_false] at *
  unfold Sock.processAck
  split
  · rfl
  · next hdata =>
    rw [if_neg hdata] at hidle hrunning
    unfold handleRecvData at *
    split at hidle
    · cases hidle
    · next hroom =>
      rw [if_neg hroom] at hrunning ⊢
      split at hrunning
      · cases hrunning
      · rfl

/-- What an event can do. -/
theorem step_cases (h : Steps r e r') :
    (∃ cb, r.segment e = some cb ∧ r' = r.handleRecvData cb) ∨
      (r.segment e = none ∧ ∃ tsk state, r' = { r with tsk, state }) ∨
      ∃ len, e = .read len ∧
        r' = { r with rcvBuf := (r.rcvBuf.read len).2, taken := r.taken + (r.rcvBuf.read len).1.length } := by
  simp only [Steps, step] at h
  split at h
  · cases h
  · cases e with
    | receive packet =>
      dsimp only at h
      split at h
      · next hready =>
        cases h
        by_cases haccepts : r.Accepts (tcpCbInit packet)
        · exact .inl ⟨_, if_pos ⟨hready.1, hready.2, haccepts⟩, tcpProcess_accepts haccepts⟩
        · exact .inr (.inl ⟨if_neg fun hall => haccepts hall.2.2, tcpProcess_other haccepts⟩)
      · cases h
    | wake =>
      dsimp only at h
      split at h
      · cases h
      · next cb hwaiting =>
        cases h
        exact .inl ⟨cb, hwaiting, rfl⟩
    | read len =>
      dsimp only at h
      split at h
      · cases h
      · cases h
        exact .inr (.inr ⟨len, rfl, rfl⟩)

/-- An event that has a segment looked at is possible. -/
theorem step_segment (hrun : r.aborted = false) (h : r.segment e = some cb) :
    Steps r e (r.handleRecvData cb) := by
  cases e with
  | receive packet =>
    simp only [segment] at h
    split at h
    · next hall =>
      cases h
      rw [Steps, step, if_neg (by rw [hrun]; decide)]
      exact (if_pos ⟨hall.1, hall.2.1⟩).trans (congrArg some (tcpProcess_accepts hall.2.2))
    · cases h
  | wake =>
    have hwaiting : r.waiting = some cb := h
    rw [Steps, step, if_neg (by rw [hrun]; decide)]
    simp only [hwaiting]
  | read len => cases h

/-! ### Runs -/

/-- The buffer has the bytes received and not taken, in a window; what waits for room has data. -/
structure Inv (r : Receiver) : Prop where
  running : r.aborted = false
  size : r.rcvBuf.size = tcpDefaultWindow + 1
  count : r.received = r.taken + r.rcvBuf.used
  waiting : ∀ cb ∈ r.waiting, cb.payload ≠ []

theorem inv_established (tsk : Sock) : Inv (established tsk) where
  running := rfl
  size := rfl
  count := by
    show 0 = 0 + (RingBuffer.alloc tcpDefaultWindow).used
    rw [← RingBuffer.length_contents, RingBuffer.contents_alloc]
    rfl
  waiting := fun _ h => by cases h

theorem Inv.segment (h : Inv r) (hsegment : r.segment e = some cb) : cb.payload ≠ [] := by
  cases e with
  | receive packet =>
    simp only [Receiver.segment] at hsegment
    split at hsegment
    · next hall =>
      cases hsegment
      exact hall.2.2.2.2.2.2
    · cases hsegment
  | wake => exact h.waiting cb hsegment
  | read len => cases hsegment

/-- A buffer is full when a whole window has not been read. -/
theorem Inv.full_iff (h : Inv r) : r.rcvBuf.full = true ↔ r.received = r.taken + tcpDefaultWindow := by
  have hfree := r.rcvBuf.used_add_free
  have hsize := h.size
  have hcount := h.count
  rw [RingBuffer.full, beq_iff_eq]
  omega

theorem Inv.free_iff (h : Inv r) (n : Nat) : n ≤ r.rcvBuf.free ↔ r.received + n ≤ r.taken + tcpDefaultWindow := by
  have hfree := r.rcvBuf.used_add_free
  have hsize := h.size
  have hcount := h.count
  omega

/-- A segment that fits is written. -/
theorem Inv.handleRecvData_writes (h : Inv r) (hdata : cb.payload ≠ [])
    (hfits : r.received + cb.payload.length ≤ r.taken + tcpDefaultWindow) :
    ∃ rcvBuf, r.rcvBuf.write cb.payload = some rcvBuf ∧ r.handleRecvData cb =
      { r with
        rcvBuf
        waiting := none
        tsk := { r.tsk with rcvNxt := cb.seq + BitVec.ofNat 32 cb.payload.length, sndUna := cb.ack }
        received := r.received + cb.payload.length } := by
  have hpos := List.length_pos_of_ne_nil hdata
  have hroom : ¬r.rcvBuf.full = true := fun hfull => absurd (h.full_iff.mp hfull) (by omega)
  obtain ⟨rcvBuf, hwrite⟩ := (r.rcvBuf.write_eq_some_iff cb.payload).mpr ⟨hdata, (h.free_iff _).mpr hfits⟩
  refine ⟨rcvBuf, hwrite, ?_⟩
  rw [Receiver.handleRecvData, if_neg hroom, hwrite]

/-- One for which there is no room at all waits. -/
theorem Inv.handleRecvData (h : Inv r) (hdata : cb.payload ≠ [])
    (hfits : r.received = r.taken + tcpDefaultWindow ∨
      r.received + cb.payload.length ≤ r.taken + tcpDefaultWindow) : Inv (r.handleRecvData cb) := by
  rcases hfits with hfull | hfits
  · rw [Receiver.handleRecvData, if_pos (h.full_iff.mpr hfull)]
    exact ⟨h.running, h.size, h.count, fun _ hcb => by cases hcb; exact hdata⟩
  · obtain ⟨rcvBuf, hwrite, heq⟩ := h.handleRecvData_writes hdata hfits
    obtain ⟨hused, hsize⟩ := RingBuffer.write_used hwrite
    rw [heq]
    refine ⟨h.running, hsize.trans h.size, ?_, fun _ hcb => by cases hcb⟩
    show r.received + _ = r.taken + rcvBuf.used
    rw [hused, h.count, Nat.add_assoc]

/-- Any other segment fails the assertion. -/
theorem Inv.handleRecvData_aborts (h : Inv r)
    (hfits : ¬(r.received = r.taken + tcpDefaultWindow ∨
      r.received + cb.payload.length ≤ r.taken + tcpDefaultWindow)) :
    (r.handleRecvData cb).aborted = true := by
  rw [not_or, ← h.full_iff, ← h.free_iff] at hfits
  have hwrite : r.rcvBuf.write cb.payload = none := by
    rw [← Option.not_isSome_iff_eq_none, Option.isSome_iff_exists, RingBuffer.write_eq_some_iff]
    exact fun hall => hfits.2 hall.2
  rw [Receiver.handleRecvData, if_neg hfits.1, hwrite]

theorem Inv.read (h : Inv r) (len : Nat) :
    Inv { r with rcvBuf := (r.rcvBuf.read len).2, taken := r.taken + (r.rcvBuf.read len).1.length } := by
  refine ⟨h.running, (RingBuffer.read_size ..).trans h.size, ?_, h.waiting⟩
  have hcount := h.count
  show r.received = r.taken + (r.rcvBuf.read len).1.length + (r.rcvBuf.read len).2.used
  rw [RingBuffer.read_out, RingBuffer.read_used, List.length_take, RingBuffer.length_contents]
  omega

theorem inv_step (h : Inv r) (hfits : r.Fits e) (hstep : Steps r e r') : Inv r' := by
  rcases step_cases hstep with ⟨cb, hsegment, rfl⟩ | ⟨-, tsk, state, rfl⟩ | ⟨len, -, rfl⟩
  · exact h.handleRecvData (h.segment hsegment) (hfits cb hsegment)
  · exact ⟨h.running, h.size, h.count, h.waiting⟩
  · exact h.read len

theorem breaks_step (h : Inv r) (hnot : ¬r.Fits e) : ∃ r', Steps r e r' ∧ ¬r'.aborted = false := by
  obtain ⟨cb, hrest⟩ := not_forall.mp hnot
  obtain ⟨hsegment, hfits⟩ := Classical.not_imp.mp hrest
  refine ⟨_, step_segment h.running hsegment, ?_⟩
  rw [h.handleRecvData_aborts hfits]
  decide

/-- **Receiving.** In a run of an established socket, packets, wakeups and reads in any order, no
assertion fails exactly if, whenever a segment with data is looked at, the bytes received and
not yet read are a whole window of 65535, or with the segment still at most that. -/
theorem receive_holds_iff (tsk : Sock) (events : List Event) :
    Throughout Steps (fun r => r.aborted = false) (established tsk) events ↔
      Along Steps Fits (established tsk) events :=
  throughout_iff_along (fun _ h => h.running) (fun _ _ _ h hfits hstep => inv_step h hfits hstep)
    (fun _ _ h hnot => breaks_step h hnot) (inv_established tsk) events

/-! ### A buffer that is nearly full -/

/-- A socket as `alloc_tcp_sock` leaves its windows, just connected. -/
def freshSock : Sock := ⟨0, 0, 65535, 0, 65535, SynchWait.init⟩

/-- Full segments, in order. -/
def fullSegment (n : Nat) : Packet :=
  ⟨0, 0, 0, 0, BitVec.ofNat 32 (n * 1460), 0, tcpAck, 65535, List.replicate 1460 0⟩

/-- What `n` of them bring a fresh socket to. -/
structure Filled (n : Nat) (r : Receiver) : Prop extends Inv r where
  state : r.state = .established
  idle : r.waiting = none
  next : r.tsk.rcvNxt = BitVec.ofNat 32 (n * 1460)
  received : r.received = n * 1460
  taken : r.taken = 0

/-- A segment in order is valid. -/
theorem isTcpSeqValid_next {tsk : Sock} {cb : TcpCb} (hseq : cb.seq = tsk.rcvNxt)
    (hend : cb.seqEnd = cb.seq + BitVec.ofNat 32 cb.payload.length) (hlen : cb.payload.length < 2 ^ 31) :
    tsk.isTcpSeqValid cb = true := by
  have hwindow : ∃ k, 0 < k ∧ k < 2 ^ 16 ∧
      (if tsk.rcvWnd = 0 then 1 else tsk.rcvWnd.setWidth 32 : U32) = BitVec.ofNat 32 k := by
    split
    · exact ⟨1, by decide, by decide, rfl⟩
    · next hne =>
      have hpos : tsk.rcvWnd.toNat ≠ 0 := fun hzero => hne (BitVec.eq_of_toNat_eq hzero)
      exact ⟨tsk.rcvWnd.toNat, Nat.pos_of_ne_zero hpos, tsk.rcvWnd.isLt, (BitVec.ofNat_toNat ..).symm⟩
  obtain ⟨k, hpos, hk, hwindow⟩ := hwindow
  rw [Sock.isTcpSeqValid, hwindow, hend, hseq, Bool.and_eq_true]
  exact ⟨Serial.lt_add _ hpos (by omega), Serial.le_add _ (by omega)⟩

theorem length_fullSegment (n : Nat) : (tcpCbInit (fullSegment n)).payload.length = 1460 := List.length_replicate

theorem accepts_fullSegment {n : Nat} (h : r.tsk.rcvNxt = BitVec.ofNat 32 (n * 1460)) :
    r.Accepts (tcpCbInit (fullSegment n)) := by
  have hlen := length_fullSegment n
  have hend : (tcpCbInit (fullSegment n)).seqEnd =
      (tcpCbInit (fullSegment n)).seq + BitVec.ofNat 32 (tcpCbInit (fullSegment n)).payload.length := by
    show _ + (if hasFlag tcpAck (tcpSyn ||| tcpFin) then 1 else 0) = _
    rw [if_neg (by decide)]
    exact BitVec.add_zero _
  have hdata : (tcpCbInit (fullSegment n)).payload ≠ [] := List.ne_nil_of_length_pos (by rw [hlen]; decide)
  refine ⟨?_, isTcpSeqValid_next h.symm hend (by rw [hlen]; decide), ?_, ?_, hdata⟩
  · show hasFlag tcpAck tcpRst = false
    decide
  · show hasFlag tcpAck tcpFin = false
    decide
  · show hasFlag tcpAck tcpAck = true
    decide

theorem filled (n : Nat) (hn : n ≤ 44) :
    ∃ r, Run Steps (established freshSock) ((List.range n).map fun n => .receive (fullSegment n)) r ∧ Filled n r := by
  induction n with
  | zero => exact ⟨_, .nil _, inv_established freshSock, rfl, rfl, rfl, rfl, rfl⟩
  | succ n ih =>
    obtain ⟨r, hrun, h⟩ := ih (by omega)
    have haccepts := accepts_fullSegment h.next
    have hsegment : r.segment (.receive (fullSegment n)) = some (tcpCbInit (fullSegment n)) :=
      if_pos ⟨h.state, h.idle, haccepts⟩
    have hlen := length_fullSegment n
    have hfits : r.received + (tcpCbInit (fullSegment n)).payload.length ≤ r.taken + tcpDefaultWindow := by
      rw [h.received, h.taken, hlen, tcpDefaultWindow]
      omega
    have hinv := h.toInv.handleRecvData haccepts.2.2.2.2 (.inr hfits)
    obtain ⟨rcvBuf, -, heq⟩ := h.handleRecvData_writes haccepts.2.2.2.2 hfits
    refine ⟨r.handleRecvData (tcpCbInit (fullSegment n)), ?_, hinv, ?_, ?_, ?_, ?_, ?_⟩
    · rw [List.range_succ, List.map_append]
      exact hrun.snoc (step_segment h.running hsegment)
    all_goals rw [heq]
    · exact h.state
    · show BitVec.ofNat 32 (n * 1460) + BitVec.ofNat 32 (tcpCbInit (fullSegment n)).payload.length = _
      rw [hlen, ← BitVec.ofNat_add, Nat.succ_mul]
    · show r.received + _ = _
      rw [h.received, hlen, Nat.succ_mul]
    · exact h.taken

/-- 44 segments leave 1295 bytes of the window, and one more is written all the same. -/
theorem full_segments_abort :
    ¬∀ tsk events,
      (∀ packet, Event.receive packet ∈ events → 1 ≤ packet.payload.length ∧ packet.payload.length ≤ 1460) →
        Throughout Steps (fun r => r.aborted = false) (established tsk) events := by
  intro hall
  obtain ⟨r, hrun, h⟩ := filled 44 (Nat.le_refl _)
  have hsegment : r.segment (.receive (fullSegment 44)) = some (tcpCbInit (fullSegment 44)) :=
    if_pos ⟨h.state, h.idle, accepts_fullSegment h.next⟩
  have haborts : (r.handleRecvData (tcpCbInit (fullSegment 44))).aborted = true := by
    apply h.handleRecvData_aborts
    rw [h.received, h.taken, length_fullSegment, tcpDefaultWindow]
    omega
  have hholds := hall freshSock ((List.range (44 + 1)).map fun n => .receive (fullSegment n)) (by
    intro packet hpacket
    obtain ⟨n, -, heq⟩ := List.mem_map.mp hpacket
    cases heq
    have hlen : (fullSegment n).payload.length = 1460 := length_fullSegment n
    omega)
  rw [List.range_succ, List.map_append] at hholds
  rw [hholds.last (hrun.snoc (step_segment h.running hsegment))] at haborts
  cases haborts

end Receiver

end NetStack.Transfer
