import NetStack.Lib.Run
import NetStack.Lib.Tiling
import NetStack.Tcp.Write

/-! The retransmission buffer.

A sender is a socket with its writing thread, watched over a whole run: `emitted` lists
every segment it ever sent for the first time, `written` every byte passed to
`tcp_sock_write`, `acked` is the highest acknowledgement so far, as a position counted
from the socket's first sequence number.

`send_buffer_tiles`: `send_buf` is what was emitted from the highest acknowledgement on,
and tiles the sequence numbers from there to `snd_nxt`. -/
namespace NetStack.Tcp

/-- The sequence numbers a packet takes: its payload and its SYN or FIN. -/
def seqLen (packet : Packet) : Nat :=
  packet.payload.length + if hasFlag packet.flags (tcpSyn ||| tcpFin) then 1 else 0

theorem seqLen_sendPacket (tsk : TcpSock) (payload : List U8) :
    seqLen (tsk.sendPacket payload).2 = payload.length := by
  have hdata : hasFlag (tcpPsh ||| tcpAck) (tcpSyn ||| tcpFin) = false := by decide
  simp [seqLen, TcpSock.sendPacket, TcpSock.packet, hdata]

/-- A sender over its run; the last three fields only watch. -/
structure Sender where
  tsk : TcpSock
  write : WriteState
  emitted : List Packet
  written : List U8
  acked : Nat

/-- What can happen to a sender. `other` is anything else the stack does to the socket:
it leaves `send_buf` and `snd_nxt` alone, as bare ACKs, resets, window updates and the
receive path do. -/
inductive SendEvent
  | write (buf : List U8)
  | resume
  | control (flags : U8)
  | retrans
  | ack (pos : Nat)
  | other (tsk : TcpSock)

namespace Sender

/-- A socket that has nothing to retransmit, before its first write. -/
def start (tsk : TcpSock) : Sender := ⟨tsk, .idle, [], [], 0⟩

/-- One step. Positions are counted from `iss`, the first sequence number used. -/
def step (iss : U32) (s : Sender) : SendEvent → Option Sender
  | .write buf =>
    if s.write = .idle then
      let (tsk, write, sent) := s.tsk.sockWrite buf
      some { s with tsk, write, emitted := s.emitted ++ sent, written := s.written ++ buf }
    else none
  | .resume =>
    match s.tsk.writeResume s.write with
    | none => none
    | some (tsk, write, sent) => some { s with tsk, write, emitted := s.emitted ++ sent }
  | .control flags =>
    if hasFlag flags (tcpSyn ||| tcpFin) && !hasFlag flags tcpRst then
      let (tsk, packet) := s.tsk.sendControlPacket flags
      some { s with tsk, emitted := s.emitted ++ [packet] }
    else none
  | .retrans => some { s with tsk := s.tsk.retransSendBufferPacket.1 }
  | .ack pos =>
    some { s with tsk := (s.tsk.deleteSendBufferEntry (Serial.nth iss pos)).2
                  acked := max s.acked pos }
  | .other tsk =>
    if tsk.sendBuf = s.tsk.sendBuf ∧ tsk.sndNxt = s.tsk.sndNxt then some { s with tsk } else none

/-- The step as a relation. -/
def Step (iss : U32) (s : Sender) (e : SendEvent) (t : Sender) : Prop := s.step iss e = some t

/-- An acknowledgement is a segment boundary already sent, within `2^31` of every
outstanding segment. -/
def Legal (s : Sender) : SendEvent → Prop
  | .ack pos => pos ∈ Tiling.bounds seqLen 0 s.emitted ∧
      ∀ p ∈ Tiling.starts seqLen s.acked s.tsk.sendBuf, Serial.Near 32 p pos
  | _ => True

instance (s : Sender) (e : SendEvent) : Decidable (s.Legal e) := by
  unfold Legal
  split <;> infer_instance

/-- How the buffer stands to the run: `done` is what has been acknowledged. -/
structure Tiled (iss : U32) (s : Sender) (done : List Packet) : Prop where
  suffix : s.emitted = done ++ s.tsk.sendBuf
  acked : Tiling.extent seqLen done = s.acked
  tiles : Tiling.Tiles seqLen Packet.seq iss 0 s.emitted
  next : s.tsk.sndNxt = Serial.nth iss (Tiling.extent seqLen s.emitted)
  bytes : s.written = s.emitted.flatMap Packet.payload ++ s.write.pending
  small : ∀ packet ∈ s.emitted, packet.payload.length ≤ mss

variable {iss : U32} {s : Sender} {done : List Packet}

theorem tiled_start {tsk : TcpSock} (hempty : tsk.sendBuf = []) :
    Tiled tsk.sndNxt (start tsk) [] where
  suffix := hempty.symm
  acked := rfl
  tiles := trivial
  next := (Serial.nth_zero _).symm
  bytes := rfl
  small := by simp [start]

/-- What leaves the send buffer, `snd_nxt` and the unsent bytes alone keeps the tiling. -/
theorem Tiled.same (h : Tiled iss s done) {tsk : TcpSock} {write : WriteState}
    (hbuf : tsk.sendBuf = s.tsk.sendBuf) (hnxt : tsk.sndNxt = s.tsk.sndNxt)
    (hpending : write.pending = s.write.pending) : Tiled iss { s with tsk, write } done where
  suffix := by rw [hbuf]; exact h.suffix
  acked := h.acked
  tiles := h.tiles
  next := hnxt.trans h.next
  bytes := by rw [hpending]; exact h.bytes
  small := h.small

/-- A new segment numbered `snd_nxt` goes behind the tiling. -/
theorem Tiled.emit (h : Tiled iss s done) {tsk : TcpSock} {packet : Packet} {write : WriteState}
    {written : List U8} (hseq : packet.seq = s.tsk.sndNxt) (hpos : 0 < seqLen packet)
    (hsmall : packet.payload.length ≤ mss) (hbuf : tsk.sendBuf = s.tsk.sendBuf ++ [packet])
    (hnxt : tsk.sndNxt = s.tsk.sndNxt + BitVec.ofNat 32 (seqLen packet))
    (hbytes : written = s.emitted.flatMap Packet.payload ++ (packet.payload ++ write.pending)) :
    Tiled iss { s with tsk, write, written, emitted := s.emitted ++ [packet] } done where
  suffix := by rw [hbuf, ← List.append_assoc, ← h.suffix]
  acked := h.acked
  tiles := by
    refine Tiling.tiles_append.mpr ⟨h.tiles, ?_, hpos, trivial⟩
    rw [hseq, h.next, Nat.zero_add]
  next := by
    show tsk.sndNxt = _
    rw [hnxt, h.next, Serial.nth_add, Tiling.extent_append]
    simp
  bytes := by simp [hbytes]
  small := by
    intro p hp
    rcases List.mem_append.mp hp with hp | hp
    · exact h.small p hp
    · rw [List.mem_singleton.mp hp]
      exact hsmall

/-- One turn of the write loop emits the next segment of the buffer, or nothing. -/
theorem Tiled.writeLoop (h : Tiled iss s done) {tsk : TcpSock} {buf written : List U8}
    (hbuf : tsk.sendBuf = s.tsk.sendBuf) (hnxt : tsk.sndNxt = s.tsk.sndNxt)
    (hwritten : written = s.emitted.flatMap Packet.payload ++ buf) :
    Tiled iss
      { s with tsk := (tsk.writeLoop buf).1, write := (tsk.writeLoop buf).2.1, written
               emitted := s.emitted ++ (tsk.writeLoop buf).2.2 } done := by
  unfold TcpSock.writeLoop
  split
  · rename_i hnil
    subst hnil
    simp only [List.append_nil] at hwritten ⊢
    exact {
      suffix := by rw [hbuf]; exact h.suffix
      acked := h.acked
      tiles := h.tiles
      next := hnxt.trans h.next
      bytes := by simpa [WriteState.pending] using hwritten
      small := h.small }
  · rename_i hne
    obtain ⟨hsend, hmove⟩ := tsk.sendPacket_send (buf.take mss)
    have hlen := seqLen_sendPacket tsk (buf.take mss)
    refine h.emit hnxt ?_ ?_ ?_ ?_ ?_
    · rw [hlen, List.length_take]
      have := List.length_pos_iff.mpr hne
      have : 0 < mss := by decide
      omega
    · show (buf.take mss).length ≤ mss
      rw [List.length_take]
      omega
    · rw [hsend, hbuf]
    · rw [hmove, hnxt, hlen]
    · show written = _ ++ (buf.take mss ++ buf.drop mss)
      rw [List.take_append_drop, hwritten]

/-- A legal acknowledgement moves the front of the buffer to the highest one so far. -/
theorem Tiled.ack (h : Tiled iss s done) {pos : Nat} (hlegal : s.Legal (.ack pos)) :
    ∃ done', Tiled iss
      { s with tsk := (s.tsk.deleteSendBufferEntry (Serial.nth iss pos)).2
               acked := max s.acked pos } done' := by
  obtain ⟨hbound, hnear⟩ := hlegal
  have htiles := Tiling.tiles_append.mp (h.suffix ▸ h.tiles)
  rw [Nat.zero_add, h.acked] at htiles
  -- what is kept is a suffix of the buffer that starts at the higher of the two positions
  have hcut : ∃ pre post, s.tsk.sendBuf = pre ++ post ∧
      s.acked + Tiling.extent seqLen pre = max s.acked pos ∧
      (s.tsk.sendBuf.filter fun entry => !lessThan32b entry.seq (Serial.nth iss pos)) = post := by
    rcases Tiling.bounds_append seqLen (h.suffix ▸ hbound) with hle | ⟨pre, post, hbuf, hpos⟩
    · rw [Nat.zero_add, h.acked] at hle
      exact ⟨[], _, rfl, by simp [hle], Tiling.filter_after htiles.2 hle hnear⟩
    · rw [Nat.zero_add, h.acked] at hpos
      refine ⟨pre, post, hbuf, by omega, ?_⟩
      rw [hbuf] at htiles hnear ⊢
      exact Tiling.filter_cut htiles.2 hpos hnear
  obtain ⟨pre, post, hbuf, hacked, hfilter⟩ := hcut
  exact ⟨done ++ pre, {
    suffix := by
      show s.emitted = done ++ pre ++ List.filter _ _
      rw [hfilter, List.append_assoc, ← hbuf, h.suffix]
    acked := by rw [Tiling.extent_append, h.acked, hacked]
    tiles := h.tiles
    next := h.next
    bytes := h.bytes
    small := h.small }⟩

theorem retrans_send (tsk : TcpSock) :
    tsk.retransSendBufferPacket.1.sendBuf = tsk.sendBuf ∧
      tsk.retransSendBufferPacket.1.sndNxt = tsk.sndNxt := by
  unfold TcpSock.retransSendBufferPacket
  split <;> exact ⟨rfl, rfl⟩

/-- A write that was held up goes on. -/
theorem Tiled.resume {t : Sender} (h : Tiled iss s done) (hstep : Step iss s .resume t) :
    ∃ done, Tiled iss t done := by
  simp only [Step, Sender.step] at hstep
  split at hstep
  · cases hstep
  · rename_i tsk write sent hresume
    cases hstep
    cases hw : s.write with
    | idle => simp [hw, TcpSock.writeResume] at hresume
    | gate rest =>
      simp only [hw, TcpSock.writeResume] at hresume
      split at hresume
      · cases hresume
      obtain ⟨rfl, rfl, rfl⟩ : (s.tsk.writeLoop rest).1 = tsk ∧ (s.tsk.writeLoop rest).2.1 = write ∧
          (s.tsk.writeLoop rest).2.2 = sent := by
        rw [Option.some.inj hresume]
        exact ⟨rfl, rfl, rfl⟩
      refine ⟨done, h.writeLoop rfl rfl ?_⟩
      rw [h.bytes, hw]
      rfl
    | drain =>
      simp only [hw, TcpSock.writeResume] at hresume
      split at hresume <;> cases hresume
      refine ⟨done, ?_⟩
      rw [List.append_nil]
      exact h.same rfl rfl (by rw [hw]; rfl)

/-- A SYN or a FIN goes behind what is outstanding. -/
theorem Tiled.control {t : Sender} {flags : U8} (h : Tiled iss s done) (hstep : Step iss s (.control flags) t) :
    ∃ done, Tiled iss t done := by
  simp only [Step, Sender.step] at hstep
  split at hstep
  · rename_i hflags
    cases hstep
    obtain ⟨hsyn, hrst⟩ := (Bool.and_eq_true _ _).mp hflags
    obtain ⟨hbuf, hnxt⟩ := s.tsk.sendControlPacket_send flags
    have hack : (flags != tcpAck && !hasFlag flags tcpRst) = true := by
      rw [hrst, Bool.and_true, bne_iff_ne]
      intro heq
      subst heq
      exact absurd hsyn (by decide)
    have hlen : seqLen (s.tsk.sendControlPacket flags).2 = 1 := by
      simp [seqLen, TcpSock.sendControlPacket, TcpSock.packet, hsyn]
    refine ⟨done, h.emit rfl (by omega) (Nat.zero_le _) ?_ ?_ ?_⟩
    · rw [hbuf, if_pos hack]
    · rw [hnxt, if_pos hsyn, hlen]
      rfl
    · exact h.bytes
  · cases hstep

/-- Every step keeps the tiling, with a legal acknowledgement moving its front. -/
theorem step_tiled {t : Sender} {e : SendEvent} (h : ∃ done, Tiled iss s done) (hlegal : s.Legal e)
    (hstep : Step iss s e t) : ∃ done, Tiled iss t done := by
  obtain ⟨done, h⟩ := h
  cases e with
  | write buf =>
    simp only [Step, Sender.step] at hstep
    split at hstep
    · rename_i hidle
      cases hstep
      refine ⟨done, h.writeLoop (by simp) (by simp) ?_⟩
      rw [h.bytes, hidle]
      simp [WriteState.pending]
    · cases hstep
  | resume => exact h.resume hstep
  | control flags => exact h.control hstep
  | retrans =>
    cases hstep
    obtain ⟨hbuf, hnxt⟩ := retrans_send s.tsk
    exact ⟨done, h.same hbuf hnxt rfl⟩
  | ack pos =>
    cases hstep
    exact h.ack hlegal
  | other tsk =>
    simp only [Step, Sender.step] at hstep
    split at hstep
    · rename_i hsame
      cases hstep
      exact ⟨done, h.same hsame.1 hsame.2 rfl⟩
    · cases hstep

/-- **The send buffer tiles what is outstanding.** Along a run with legal
acknowledgements, what was emitted is what has been acknowledged (`done`, up to the
highest acknowledgement) followed by `send_buf`; `send_buf` tiles the sequence numbers
from the highest acknowledgement to `snd_nxt`, its payloads are the written bytes sent
and not acknowledged, none longer than `mss`; and a retransmission resends the segment
that starts at the highest acknowledgement, if there is one. -/
theorem send_buffer_tiles {tsk : TcpSock} (hempty : tsk.sendBuf = []) {es : List SendEvent}
    (hrun : Run (Step tsk.sndNxt) (start tsk) es s)
    (hlegal : Along (Step tsk.sndNxt) Legal (start tsk) es) :
    ∃ done, s.emitted = done ++ s.tsk.sendBuf ∧
      Tiling.extent seqLen done = s.acked ∧
      Tiling.Tiles seqLen Packet.seq tsk.sndNxt s.acked s.tsk.sendBuf ∧
      s.tsk.sndNxt = Serial.nth tsk.sndNxt (s.acked + Tiling.extent seqLen s.tsk.sendBuf) ∧
      s.written = done.flatMap Packet.payload ++ s.tsk.sendBuf.flatMap Packet.payload ++
        s.write.pending ∧
      (∀ packet ∈ s.tsk.sendBuf, packet.payload.length ≤ mss) ∧
      (s.tsk.sendBuf = [] → s.tsk.retransSendBufferPacket.2 = []) ∧
      ∀ first rest, s.tsk.sendBuf = first :: rest →
        first.seq = Serial.nth tsk.sndNxt s.acked ∧
          s.tsk.retransSendBufferPacket.2 = [{ first with ack := s.tsk.rcvNxt }] := by
  have hkeep : ∀ (s : Sender) e t, (∃ done, Tiled tsk.sndNxt s done) → s.Legal e →
      Step tsk.sndNxt s e t → ∃ done, Tiled tsk.sndNxt t done := fun _ _ _ => step_tiled
  obtain ⟨done, h⟩ := hrun.invariant hkeep hlegal ⟨[], tiled_start hempty⟩
  have htiles := (Tiling.tiles_append.mp (h.suffix ▸ h.tiles)).2
  rw [Nat.zero_add, h.acked] at htiles
  refine ⟨done, h.suffix, h.acked, htiles, ?_, ?_, ?_, ?_, ?_⟩
  · rw [h.next, h.suffix, Tiling.extent_append, h.acked]
  · rw [h.bytes, h.suffix, List.flatMap_append]
  · intro packet hp
    exact h.small packet (h.suffix ▸ List.mem_append_right done hp)
  · intro hnil
    simp [TcpSock.retransSendBufferPacket, hnil]
  · intro first rest hbuf
    rw [hbuf] at htiles
    exact ⟨htiles.1, by simp [TcpSock.retransSendBufferPacket, hbuf]⟩

/-- A SYN, its acknowledgement, a write of three bytes and a stale acknowledgement. -/
theorem send_buffer_tiles_write : ∃ s, runAll (step 0) (start allocTcpSock)
      [.control tcpSyn, .ack 1, .write [1, 2, 3], .ack 1, .retrans] = some s ∧
    ∃ done, s.emitted = done ++ s.tsk.sendBuf ∧ Tiling.extent seqLen done = s.acked := by
  have hruns : (runAll (step 0) (start allocTcpSock)
      [.control tcpSyn, .ack 1, .write [1, 2, 3], .ack 1, .retrans]).isSome = true := by decide
  have hlegal : checkAll (step 0) Legal (start allocTcpSock)
      [.control tcpSyn, .ack 1, .write [1, 2, 3], .ack 1, .retrans] = true := by decide
  obtain ⟨s, hs⟩ := Option.isSome_iff_exists.mp hruns
  have hempty : allocTcpSock.sendBuf = [] := rfl
  obtain ⟨done, hsuffix, hacked, -⟩ :=
    send_buffer_tiles hempty (Run.of_runAll hs) (Along.of_checkAll hlegal)
  exact ⟨s, hs, done, hsuffix, hacked⟩

end Sender

end NetStack.Tcp
