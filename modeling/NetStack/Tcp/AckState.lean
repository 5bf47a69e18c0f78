import NetStack.Tcp.Acking
import NetStack.Tcp.Receiver
import NetStack.Tcp.SendBuffer

/-! The sender's acknowledgement state.

An open socket sends segments and handles acknowledging ones: bare ACKs, data, a FIN.
`snd_una` should only move forward and never past `snd_nxt`, and `send_buf` should hold
the segments that end after it (`Keeps`). A bare ACK sets `snd_una` whatever it
acknowledges and drops from the buffer what starts before that; data moves `snd_una`
forward and drops nothing. So `acks_kept_iff`: the state is kept exactly as long as bare
ACKs acknowledge within what is outstanding and no part of a segment, and data
acknowledges nothing that would let a segment go. -/
namespace NetStack.Tcp

/-- A socket, and every segment sent on it so far that takes sequence numbers. -/
structure Acknowledging where
  tsk : TcpSock
  emitted : List Packet

/-- A segment sent, as `tcp_sock_write` cuts them, or an acknowledging segment received,
with what the application reads while the call sleeps. -/
inductive AckEvent
  | send (payload : List U8)
  | segment (cb : TcpCb) (sleeps : List (List Nat))

namespace Acknowledging

/-- One step. -/
def step (s : Acknowledging) : AckEvent → Option Acknowledging
  | .send payload =>
    if 0 < payload.length ∧ payload.length ≤ mss then
      some ⟨(s.tsk.sendPacket payload).1, s.emitted ++ [(s.tsk.sendPacket payload).2]⟩
    else none
  | .segment cb sleeps =>
    if hasFlag cb.flags tcpAck && !hasFlag cb.flags tcpRst then
      match tcpProcess 0 0 0 none sleeps s.tsk cb with
      | none => none
      | some outcome => some { s with tsk := outcome.tsk }
    else none

/-- The step as a relation. -/
def Step (s : Acknowledging) (e : AckEvent) (t : Acknowledging) : Prop := s.step e = some t

/-- How far `snd_una` is behind `snd_nxt`. -/
def inflight (s : Acknowledging) : Nat := (s.tsk.sndNxt - s.tsk.sndUna).toNat

/-- Where `snd_una` is, counted from the first segment's start. -/
def una (s : Acknowledging) : Nat := Tiling.extent seqLen s.emitted - s.inflight

/-- The emitted segments that end after `snd_una`. -/
def outstanding (s : Acknowledging) : List Packet := Tiling.endsAfter seqLen s.una 0 s.emitted

/-- The number lies in `[snd_una, snd_nxt]`. -/
def Within (s : Acknowledging) (ack : U32) : Prop := (ack - s.tsk.sndUna).toNat ≤ s.inflight

/-- What a step from `s` to `t` keeps. -/
structure Keeps (s : Acknowledging) (e : AckEvent) (t : Acknowledging) : Prop where
  forward : Serial.Upto s.tsk.sndUna t.tsk.sndUna
  behind : Serial.Upto t.tsk.sndUna t.tsk.sndNxt
  buffer : t.tsk.sendBuf = t.outstanding
  outside : ∀ cb sleeps, e = .segment cb sleeps → ¬ s.Within cb.ack →
    t.tsk.sndUna = s.tsk.sndUna ∧ t.tsk.sendBuf = s.tsk.sendBuf ∧ t.tsk.sndWnd = s.tsk.sndWnd

def Kept (s : Acknowledging) (e : AckEvent) : Prop := ∀ t, Step s e t → Keeps s e t

/-- The segment takes the branch for bare acknowledgements. -/
def PureAck (s : Acknowledging) (cb : TcpCb) : Prop :=
  s.tsk.state = .established ∧ hasFlag cb.flags tcpFin = false ∧ cb.payload = []

/-- The segment carries data that is not old, and a later acknowledgement. -/
def Advances (s : Acknowledging) (cb : TcpCb) : Prop :=
  s.tsk.state = .established ∧ hasFlag cb.flags tcpFin = false ∧ cb.payload ≠ [] ∧
    lessThan32b cb.seq s.tsk.rcvNxt = false ∧ greaterThan32b cb.ack s.tsk.sndUna = true

/-- The number after a segment. -/
abbrev endSeq (packet : Packet) : U32 := Tiling.endNum seqLen Packet.seq packet

/-- A bare ACK acknowledges something between `snd_una` and `snd_nxt` and no segment of
the buffer in part; data that moves `snd_una` acknowledges no more than the start of what
is left in the buffer. -/
def Sound (s : Acknowledging) : AckEvent → Prop
  | .send _ => True
  | .segment cb _ =>
    (PureAck s cb → s.Within cb.ack ∧ ∀ packet ∈ s.tsk.sendBuf,
      lessThan32b packet.seq cb.ack = true → lessThan32b cb.ack (endSeq packet) = false) ∧
    (Advances s cb → s.Within cb.ack ∧ ∀ packet ∈ s.tsk.sendBuf,
      lessThan32b cb.ack (endSeq packet) = true)

instance (s : Acknowledging) (ack : U32) : Decidable (s.Within ack) := by
  unfold Within
  infer_instance

instance (s : Acknowledging) (cb : TcpCb) : Decidable (PureAck s cb) := by
  unfold PureAck
  infer_instance

instance (s : Acknowledging) (cb : TcpCb) : Decidable (Advances s cb) := by
  unfold Advances
  infer_instance

instance (s : Acknowledging) (e : AckEvent) : Decidable (Sound s e) := by
  cases e <;> unfold Sound <;> infer_instance

/-- The call returns, and a segment sent leaves less than `2^31` bytes in the buffer. -/
def Possible (s : Acknowledging) (e : AckEvent) : Prop :=
  (s.step e).isSome = true ∧
    match e with
    | .send payload => Tiling.extent seqLen s.tsk.sendBuf + payload.length < 2 ^ 31
    | .segment _ _ => True

instance (s : Acknowledging) (e : AckEvent) : Decidable (Possible s e) := by
  cases e <;> unfold Possible <;> infer_instance

/-- An open socket whose segments, numbered from `base` on, are accounted for. -/
structure Tracked (base : U32) (s : Acknowledging) : Prop where
  state : s.tsk.state = .established ∨ s.tsk.state = .closeWait
  tiles : Tiling.Tiles seqLen Packet.seq base 0 s.emitted
  next : s.tsk.sndNxt = Serial.nth base (Tiling.extent seqLen s.emitted)
  inflight : s.inflight ≤ Tiling.extent seqLen s.emitted
  buffer : s.tsk.sendBuf = s.outstanding
  room : Tiling.extent seqLen s.tsk.sendBuf < 2 ^ 31

/-! ### Positions -/

variable {base : U32} {s t : Acknowledging}

theorem una_add_inflight (h : Tracked base s) :
    s.una + s.inflight = Tiling.extent seqLen s.emitted := by
  have := h.inflight
  unfold una
  omega

theorem sub_sub_toNat (a b : U32) : a = b - BitVec.ofNat 32 (b - a).toNat := by
  rw [BitVec.ofNat_toNat, BitVec.setWidth_eq]
  ring

/-- `snd_una` is the number of its position. -/
theorem sndUna_eq (h : Tracked base s) : s.tsk.sndUna = Serial.nth base s.una := by
  have hnext := h.next
  rw [← una_add_inflight h, ← Serial.nth_add] at hnext
  rw [sub_sub_toNat s.tsk.sndUna s.tsk.sndNxt]
  show s.tsk.sndNxt - BitVec.ofNat 32 s.inflight = _
  rw [hnext]
  ring

/-- The buffer is the tail of what was emitted, from a segment that starts by `snd_una`. -/
theorem buffer_suffix (h : Tracked base s) :
    ∃ done, s.emitted = done ++ s.tsk.sendBuf ∧ Tiling.extent seqLen done ≤ s.una ∧
      Tiling.Tiles seqLen Packet.seq base (Tiling.extent seqLen done) s.tsk.sendBuf := by
  obtain ⟨done, hsplit, hle⟩ := Tiling.endsAfter_suffix h.tiles (Nat.zero_le s.una)
  have hbuffer : Tiling.endsAfter seqLen s.una 0 s.emitted = s.tsk.sendBuf := h.buffer.symm
  rw [hbuffer] at hsplit
  have htiles := (Tiling.tiles_append.mp (hsplit ▸ h.tiles)).2
  rw [Nat.zero_add] at hle htiles
  exact ⟨done, hsplit, hle, htiles⟩

theorem inflight_lt (h : Tracked base s) : s.inflight < 2 ^ 31 := by
  obtain ⟨done, hsplit, hle, -⟩ := buffer_suffix h
  have hroom := h.room
  have hextent := una_add_inflight h
  rw [hsplit, Tiling.extent_append] at hextent
  omega

/-- The position an acknowledgement within the outstanding range stands for. -/
theorem within_position (h : Tracked base s) {ack : U32} (hin : s.Within ack) :
    ∃ pos, ack = Serial.nth base pos ∧ s.una ≤ pos ∧ pos ≤ Tiling.extent seqLen s.emitted ∧
      (ack - s.tsk.sndUna).toNat = pos - s.una ∧
      (s.tsk.sndNxt - ack).toNat = Tiling.extent seqLen s.emitted - pos := by
  have hextent := una_add_inflight h
  have hlt := inflight_lt h
  have hin' : (ack - s.tsk.sndUna).toNat ≤ s.inflight := hin
  refine ⟨s.una + (ack - s.tsk.sndUna).toNat, ?_, by omega, by omega, by omega, ?_⟩
  · rw [← Serial.nth_add, ← sndUna_eq h, BitVec.ofNat_toNat, BitVec.setWidth_eq]
    ring
  · have hdiff : s.tsk.sndNxt - ack =
        (s.tsk.sndNxt - s.tsk.sndUna) - (ack - s.tsk.sndUna) := by ring
    rw [hdiff, BitVec.toNat_sub_of_le (by rw [BitVec.le_def]; exact hin')]
    show s.inflight - _ = _
    omega

/-- What is left of the account when `snd_una` moves within the outstanding range: what
is outstanding then is cut out of the buffer at a position near all its boundaries. -/
structure Moved (base : U32) (s t : Acknowledging) (start pos : Nat) : Prop where
  tiles : Tiling.Tiles seqLen Packet.seq base start s.tsk.sendBuf
  una : t.tsk.sndUna = Serial.nth base pos
  outstanding : t.outstanding = Tiling.endsAfter seqLen pos start s.tsk.sendBuf
  near : ∀ q ∈ Tiling.bounds seqLen start s.tsk.sendBuf, Serial.Near 32 q pos
  forward : Serial.Upto s.tsk.sndUna t.tsk.sndUna
  behind : Serial.Upto t.tsk.sndUna t.tsk.sndNxt
  inflight : t.inflight ≤ Tiling.extent seqLen t.emitted

theorem moved (h : Tracked base s) (hemitted : t.emitted = s.emitted)
    (hnext : t.tsk.sndNxt = s.tsk.sndNxt) (hin : s.Within t.tsk.sndUna) :
    ∃ start pos, Moved base s t start pos := by
  obtain ⟨done, hsplit, hle, htiles⟩ := buffer_suffix h
  obtain ⟨pos, hpos, hfrom, hto, hforward, hbehind⟩ := within_position h hin
  have hextent := una_add_inflight h
  have hlt := inflight_lt h
  have hroom := h.room
  have hinflight : t.inflight = Tiling.extent seqLen s.emitted - pos := by
    rw [Acknowledging.inflight, hnext, hbehind]
  have hsum : Tiling.extent seqLen s.emitted =
      Tiling.extent seqLen done + Tiling.extent seqLen s.tsk.sendBuf := by
    rw [← Tiling.extent_append, ← hsplit]
  refine ⟨Tiling.extent seqLen done, pos, htiles, hpos, ?_, ?_, ?_, ?_, ?_⟩
  · have huna : t.una = pos := by
      rw [Acknowledging.una, hemitted, hinflight]
      omega
    rw [Acknowledging.outstanding, huna, hemitted, hsplit, Tiling.endsAfter_append, Nat.zero_add,
      Tiling.endsAfter_eq_nil (by omega), List.nil_append]
  · intro q hq
    have := Tiling.bounds_between hq
    unfold Serial.Near
    omega
  · rw [Serial.Upto, hforward]
    omega
  · rw [Serial.Upto, hnext, hbehind]
    omega
  · rw [hemitted, hinflight]
    omega

/-! ### One step -/

/-- What handling a segment does to the send side. -/
structure Handled (s : Acknowledging) (cb : TcpCb) (t : Acknowledging) : Prop where
  state : t.tsk.state = .established ∨ t.tsk.state = .closeWait
  emitted : t.emitted = s.emitted
  next : t.tsk.sndNxt = s.tsk.sndNxt
  pure : PureAck s cb → t.tsk.sndUna = cb.ack ∧
    t.tsk.sendBuf = s.tsk.sendBuf.filter fun entry => !lessThan32b entry.seq cb.ack
  advances : Advances s cb → t.tsk.sndUna = cb.ack ∧ t.tsk.sendBuf = s.tsk.sendBuf
  other : ¬ PureAck s cb → ¬ Advances s cb →
    t.tsk.sndUna = s.tsk.sndUna ∧ t.tsk.sendBuf = s.tsk.sendBuf ∧ t.tsk.sndWnd = s.tsk.sndWnd

/-- A segment that leaves the send side alone. -/
theorem Handled.same {cb : TcpCb} {tsk : TcpSock}
    (hstate : tsk.state = .established ∨ tsk.state = .closeWait) (hnext : tsk.sndNxt = s.tsk.sndNxt)
    (huna : tsk.sndUna = s.tsk.sndUna) (hbuf : tsk.sendBuf = s.tsk.sendBuf)
    (hwnd : tsk.sndWnd = s.tsk.sndWnd) (hpure : ¬ PureAck s cb) (hadvances : ¬ Advances s cb) :
    Handled s cb { s with tsk } :=
  ⟨hstate, rfl, hnext, fun h => absurd h hpure, fun h => absurd h hadvances,
    fun _ _ => ⟨huna, hbuf, hwnd⟩⟩

theorem handled_data {cb : TcpCb} {sleeps : List (List Nat)} {rx : Rx}
    (hstate : s.tsk.state = .established) (hfin : hasFlag cb.flags tcpFin = false)
    (hne : cb.payload ≠ []) (h : Rx.handleRecvData ⟨s.tsk, sleeps, [], []⟩ cb = some rx) :
    Handled s cb { s with tsk := rx.tsk } := by
  have hframe := (Rx.handleRecvData_frame h).tsk
  have huna := Rx.handleRecvData_sndUna h
  unfold RecvOnly at hframe
  simp only at hframe huna
  have hpure : ¬ PureAck s cb := fun hp => hne hp.2.2
  refine ⟨?_, rfl, ?_, fun hp => absurd hp hpure, fun hadv => ?_, fun _ hadv => ?_⟩
  · left
    show rx.tsk.state = _
    rw [hframe]
    exact hstate
  · show rx.tsk.sndNxt = _
    rw [hframe]
  · obtain ⟨-, -, -, hold, hgreater⟩ := hadv
    refine ⟨?_, by rw [hframe]⟩
    rw [huna, hold, hgreater]
    rfl
  · refine ⟨?_, by rw [hframe], by rw [hframe]⟩
    rw [huna, if_neg]
    intro hboth
    simp only [Bool.and_eq_true, Bool.not_eq_true'] at hboth
    exact hadv ⟨hstate, hfin, hne, hboth.1, hboth.2⟩

theorem handled (hstate : s.tsk.state = .established ∨ s.tsk.state = .closeWait) {cb : TcpCb}
    {sleeps : List (List Nat)} (h : Step s (.segment cb sleeps) t) : Handled s cb t := by
  simp only [Step, step, Bool.and_eq_true, Bool.not_eq_true'] at h
  split at h
  · rename_i hflags
    obtain ⟨hack, hrst⟩ := hflags
    split at h
    · cases h
    · rename_i outcome hout
      cases h
      simp only [tcpProcess, hrst, Bool.false_eq_true, if_false] at hout
      cases hstate with
      | inl hopen =>
        simp only [hopen, TcpSock.processEstablished, hack, if_true] at hout
        split at hout
        · -- A FIN; its acknowledgement takes no sequence number.
          rename_i hfin
          have hpure : ¬ PureAck s cb := fun hp => by simp [hp.2.1] at hfin
          have hadvances : ¬ Advances s cb := fun hp => by simp [hp.2.1] at hfin
          split at hout
          · cases hout
            simp only [TcpSock.only, TcpSock.control, sendControlPacket_ack]
            exact .same (.inr rfl) rfl rfl rfl rfl hpure hadvances
          · cases hout
            exact .same (.inl hopen) rfl rfl rfl rfl hpure hadvances
        · rename_i hfin
          have hfin : hasFlag cb.flags tcpFin = false := Bool.eq_false_of_not_eq_true hfin
          split at hout
          · rename_i hnil
            cases hout
            have hnil := List.length_eq_zero_iff.mp hnil
            obtain ⟨huna, hbuf⟩ := s.tsk.processPureAck_send cb
            obtain ⟨-, -, -, hst, hnxt, -⟩ := (s.tsk.processPureAck_acked cb).only.fields
            exact ⟨.inl (hst.trans hopen), rfl, hnxt, fun _ => ⟨huna, hbuf⟩,
              fun hadv => absurd hnil hadv.2.2.1, fun hp => absurd ⟨hopen, hfin, hnil⟩ hp⟩
          · rename_i hne
            simp only [TcpSock.processData] at hout
            split at hout
            · cases hout
            · rename_i rx hrx
              cases hout
              exact handled_data hopen hfin (fun hnil => hne (by rw [hnil]; rfl)) hrx
      | inr hclose =>
        simp only [hclose] at hout
        cases hout
        refine .same (.inr hclose) rfl rfl rfl rfl (fun hp => ?_) (fun hp => ?_)
        · rw [hp.1] at hclose
          cases hclose
        · rw [hp.1] at hclose
          cases hclose
  · cases h

theorem outstanding_congr (hemitted : t.emitted = s.emitted) (hnext : t.tsk.sndNxt = s.tsk.sndNxt)
    (huna : t.tsk.sndUna = s.tsk.sndUna) : t.outstanding = s.outstanding := by
  unfold outstanding una inflight
  rw [hemitted, hnext, huna]

theorem upto_self (a : U32) : Serial.Upto a a := by
  simp [Serial.Upto]

/-- Where `snd_una` moves within what is outstanding, all that can go wrong is the buffer. -/
theorem Moved.keeps_iff {start pos : Nat} (h : Moved base s t start pos) {cb : TcpCb}
    {sleeps : List (List Nat)} (hin : s.Within cb.ack) :
    Keeps s (.segment cb sleeps) t ↔
      t.tsk.sendBuf = Tiling.endsAfter seqLen pos start s.tsk.sendBuf := by
  constructor
  · intro hkeeps
    exact hkeeps.buffer.trans h.outstanding
  · intro hbuffer
    refine ⟨h.forward, h.behind, hbuffer.trans h.outstanding.symm, ?_⟩
    intro cb' sleeps' heq hout
    cases heq
    exact absurd hin hout

/-- An acknowledgement outside the range must not be taken for `snd_una`. -/
theorem not_keeps_outside {cb : TcpCb} {sleeps : List (List Nat)} (huna : t.tsk.sndUna = cb.ack)
    (hout : ¬ s.Within cb.ack) : ¬ Keeps s (.segment cb sleeps) t := by
  intro hkeeps
  have hsame := (hkeeps.outside cb sleeps rfl hout).1
  apply hout
  rw [Within, ← huna, hsame, BitVec.sub_self]
  exact Nat.zero_le _

theorem keeps_pure_iff (h : Tracked base s) {cb : TcpCb} {sleeps : List (List Nat)}
    (ht : Handled s cb t) (hpure : PureAck s cb) :
    Keeps s (.segment cb sleeps) t ↔ s.Within cb.ack ∧ ∀ packet ∈ s.tsk.sendBuf,
      lessThan32b packet.seq cb.ack = true → lessThan32b cb.ack (endSeq packet) = false := by
  obtain ⟨huna, hbuf⟩ := ht.pure hpure
  by_cases hin : s.Within cb.ack
  · obtain ⟨start, pos, hmoved⟩ := moved h ht.emitted ht.next (by rw [huna]; exact hin)
    have hack : cb.ack = Serial.nth base pos := huna ▸ hmoved.una
    rw [hmoved.keeps_iff hin, hbuf, and_iff_right hin, hack]
    exact Tiling.filter_eq_endsAfter_iff hmoved.tiles hmoved.near
  · exact iff_of_false (not_keeps_outside huna hin) fun hyp => hin hyp.1

theorem keeps_advances_iff (h : Tracked base s) {cb : TcpCb} {sleeps : List (List Nat)}
    (ht : Handled s cb t) (hadvances : Advances s cb) :
    Keeps s (.segment cb sleeps) t ↔ s.Within cb.ack ∧ ∀ packet ∈ s.tsk.sendBuf,
      lessThan32b cb.ack (endSeq packet) = true := by
  obtain ⟨huna, hbuf⟩ := ht.advances hadvances
  by_cases hin : s.Within cb.ack
  · obtain ⟨start, pos, hmoved⟩ := moved h ht.emitted ht.next (by rw [huna]; exact hin)
    have hack : cb.ack = Serial.nth base pos := huna ▸ hmoved.una
    rw [hmoved.keeps_iff hin, hbuf, and_iff_right hin, hack]
    exact Tiling.endsAfter_eq_self_iff hmoved.tiles hmoved.near
  · exact iff_of_false (not_keeps_outside huna hin) fun hyp => hin hyp.1

theorem keeps_other (h : Tracked base s) {cb : TcpCb} {sleeps : List (List Nat)}
    (ht : Handled s cb t) (hpure : ¬ PureAck s cb) (hadvances : ¬ Advances s cb) :
    Keeps s (.segment cb sleeps) t := by
  obtain ⟨huna, hbuf, hwnd⟩ := ht.other hpure hadvances
  have hlt := inflight_lt h
  refine ⟨?_, ?_, ?_, fun _ _ _ _ => ⟨huna, hbuf, hwnd⟩⟩
  · rw [huna]
    exact upto_self _
  · rw [Serial.Upto, ht.next, huna]
    show 2 * s.inflight < _
    omega
  · rw [hbuf, h.buffer, outstanding_congr ht.emitted ht.next huna]

theorem keeps_segment_iff (h : Tracked base s) {cb : TcpCb} {sleeps : List (List Nat)}
    (ht : Handled s cb t) : Keeps s (.segment cb sleeps) t ↔ Sound s (.segment cb sleeps) := by
  by_cases hpure : PureAck s cb
  · have hadvances : ¬ Advances s cb := fun hadv => hadv.2.2.1 hpure.2.2
    rw [keeps_pure_iff h ht hpure]
    exact ⟨fun hyp => ⟨fun _ => hyp, fun hadv => absurd hadv hadvances⟩, fun hyp => hyp.1 hpure⟩
  · by_cases hadvances : Advances s cb
    · rw [keeps_advances_iff h ht hadvances]
      exact ⟨fun hyp => ⟨fun hp => absurd hp hpure, fun _ => hyp⟩, fun hyp => hyp.2 hadvances⟩
    · exact iff_of_true (keeps_other h ht hpure hadvances)
        ⟨fun hp => absurd hp hpure, fun hadv => absurd hadv hadvances⟩

theorem tracked_segment (h : Tracked base s) {cb : TcpCb} {sleeps : List (List Nat)}
    (ht : Handled s cb t) (hkeeps : Keeps s (.segment cb sleeps) t) : Tracked base t := by
  have hinflight : t.inflight ≤ Tiling.extent seqLen t.emitted := by
    by_cases hin : s.Within t.tsk.sndUna
    · obtain ⟨_, _, hmoved⟩ := moved h ht.emitted ht.next hin
      exact hmoved.inflight
    · have hsame : t.tsk.sndUna = s.tsk.sndUna := by
        by_cases hpure : PureAck s cb
        · exact absurd (((keeps_pure_iff h ht hpure).mp hkeeps).1) ((ht.pure hpure).1 ▸ hin)
        · by_cases hadvances : Advances s cb
          · exact absurd (((keeps_advances_iff h ht hadvances).mp hkeeps).1)
              ((ht.advances hadvances).1 ▸ hin)
          · exact (ht.other hpure hadvances).1
      rw [ht.emitted, Acknowledging.inflight, ht.next, hsame]
      exact h.inflight
  have hsublist : t.tsk.sendBuf.Sublist s.tsk.sendBuf := by
    by_cases hpure : PureAck s cb
    · rw [(ht.pure hpure).2]
      exact List.filter_sublist
    · by_cases hadvances : Advances s cb
      · rw [(ht.advances hadvances).2]
      · rw [(ht.other hpure hadvances).2.1]
  exact {
    state := ht.state
    tiles := by rw [ht.emitted]; exact h.tiles
    next := by rw [ht.next, ht.emitted]; exact h.next
    inflight := hinflight
    buffer := hkeeps.buffer
    room := Nat.lt_of_le_of_lt (Tiling.extent_sublist seqLen hsublist) h.room }

/-- What is sent is in flight with what was. -/
theorem inflight_add {una nxt una' nxt' : U32} {len : Nat} (huna : una' = una)
    (hnxt : nxt' = nxt + BitVec.ofNat 32 len) (hroom : (nxt - una).toNat + len < 2 ^ 32) :
    (nxt' - una').toNat = (nxt - una).toNat + len := by
  have hdiff : nxt' - una' = (nxt - una) + BitVec.ofNat 32 len := by
    rw [hnxt, huna]
    ring
  rw [hdiff, BitVec.toNat_add, BitVec.toNat_ofNat]
  omega

/-- What a send makes of the socket and the segments emitted. -/
structure Sends (s t : Acknowledging) (payload : List U8) (packet : Packet) : Prop where
  short : 0 < payload.length ∧ payload.length ≤ mss
  length : seqLen packet = payload.length
  seq : packet.seq = s.tsk.sndNxt
  emitted : t.emitted = s.emitted ++ [packet]
  buffer : t.tsk.sendBuf = s.tsk.sendBuf ++ [packet]
  next : t.tsk.sndNxt = s.tsk.sndNxt + BitVec.ofNat 32 payload.length
  una : t.tsk.sndUna = s.tsk.sndUna
  state : t.tsk.state = s.tsk.state

theorem exists_sends {payload : List U8} (hstep : Step s (.send payload) t) :
    ∃ packet, Sends s t payload packet := by
  simp only [Step, step] at hstep
  split at hstep
  · rename_i hsize
    obtain rfl := Option.some.inj hstep
    obtain ⟨hbuffer, hnext⟩ := s.tsk.sendPacket_send payload
    obtain ⟨huna, hstate⟩ := s.tsk.sendPacket_behind payload
    exact ⟨_, hsize, seqLen_sendPacket s.tsk payload, rfl, rfl, hbuffer, hnext, huna, hstate⟩
  · cases hstep

section Sends

variable {payload : List U8} {packet : Packet}

theorem extent_snoc (hsends : Sends s t payload packet) (l : List Packet) :
    Tiling.extent seqLen (l ++ [packet]) = Tiling.extent seqLen l + payload.length := by
  rw [Tiling.extent_append, Tiling.extent_cons, hsends.length, Tiling.extent_nil, Nat.add_zero]

theorem Sends.inflight (hsends : Sends s t payload packet) (h : Tracked base s) :
    t.inflight = s.inflight + payload.length := by
  have hlt := inflight_lt h
  have hshort := hsends.short.2
  have hmss : mss < 2 ^ 31 := by decide
  exact inflight_add hsends.una hsends.next (show s.inflight + payload.length < _ by omega)

/-- The segment is outstanding, behind all others. -/
theorem Sends.outstanding (hsends : Sends s t payload packet) (h : Tracked base s) :
    t.tsk.sendBuf = t.outstanding := by
  have hsum := una_add_inflight h
  have hpos : t.una = s.una := by
    rw [Acknowledging.una, hsends.emitted, extent_snoc hsends, hsends.inflight h]
    omega
  have hlength := hsends.length
  have hshort := hsends.short.1
  rw [Acknowledging.outstanding, hpos, hsends.emitted, Tiling.endsAfter_append, Nat.zero_add, Tiling.endsAfter,
    Tiling.endsAfter, if_pos (by omega), hsends.buffer, h.buffer]
  rfl

theorem Sends.tracked (hsends : Sends s t payload packet) (h : Tracked base s)
    (hroom : Tiling.extent seqLen s.tsk.sendBuf + payload.length < 2 ^ 31) : Tracked base t where
  state := by
    rw [hsends.state]
    exact h.state
  tiles := by
    have hlength := hsends.length
    have hshort := hsends.short.1
    rw [hsends.emitted]
    refine Tiling.tiles_append.mpr ⟨h.tiles, ?_, by omega, trivial⟩
    rw [hsends.seq, h.next, Nat.zero_add]
  next := by rw [hsends.next, hsends.emitted, extent_snoc hsends, h.next, Serial.nth_add]
  inflight := by
    have := h.inflight
    rw [hsends.inflight h, hsends.emitted, extent_snoc hsends]
    omega
  buffer := hsends.outstanding h
  room := by rwa [hsends.buffer, extent_snoc hsends]

end Sends

/-- A send keeps what it should. -/
theorem sent (h : Tracked base s) {payload : List U8} (hpossible : Possible s (.send payload))
    (hstep : Step s (.send payload) t) : Keeps s (.send payload) t ∧ Tracked base t := by
  obtain ⟨packet, hsends⟩ := exists_sends hstep
  have htracked := hsends.tracked h hpossible.2
  refine ⟨⟨?_, ?_, htracked.buffer, fun _ _ heq => AckEvent.noConfusion heq⟩, htracked⟩
  · rw [hsends.una]
    exact upto_self _
  · have := inflight_lt htracked
    show 2 * t.inflight < _
    omega

/-! ### Whole runs -/

theorem kept_iff (s : Acknowledging) (e : AckEvent) (h : Tracked base s) (hpossible : Possible s e) :
    Kept s e ↔ Sound s e := by
  obtain ⟨t, hstep⟩ := Option.isSome_iff_exists.mp hpossible.1
  have hkept : Kept s e ↔ Keeps s e t := by
    constructor
    · exact fun hall => hall t hstep
    · intro hkeeps t' hstep'
      obtain rfl := Option.some.inj (hstep.symm.trans hstep')
      exact hkeeps
  rw [hkept]
  cases e with
  | send payload => exact iff_of_true (sent h hpossible hstep).1 trivial
  | segment cb sleeps => exact keeps_segment_iff h (handled h.state hstep)

theorem tracked_step (s : Acknowledging) (e : AckEvent) (t : Acknowledging) (h : Tracked base s)
    (hpossible : Possible s e) (hsound : Sound s e) (hstep : Step s e t) : Tracked base t := by
  cases e with
  | send payload => exact (sent h hpossible hstep).2
  | segment cb sleeps =>
    have ht := handled h.state hstep
    exact tracked_segment h ht ((keeps_segment_iff h ht).mpr hsound)

/-- **The acknowledgement state is kept.** Along every run of an open socket whose calls
return and whose buffer stays below `2^31` bytes, `snd_una` never moves backwards or past
`snd_nxt`, `send_buf` is what ends after it, and acknowledgements from outside
`[snd_una, snd_nxt]` change nothing, exactly when every segment handled is sound. -/
theorem acks_kept_iff (h : Tracked base s) {events : List AckEvent}
    (hpossible : Along Step Possible s events) : Along Step Kept s events ↔ Along Step Sound s events :=
  along_iff_of (fun s e t hi hd hc => tracked_step s e t hi hd hc) kept_iff h hpossible

/-- A fresh connection, with nothing sent on it yet. -/
def opened : Acknowledging := ⟨{ allocTcpSock with state := .established }, []⟩

theorem tracked_opened : Tracked 0 opened where
  state := .inl rfl
  tiles := trivial
  next := rfl
  inflight := by decide
  buffer := rfl
  room := by decide

/-- An acknowledging segment. -/
def acking (seq ack : U32) (payload : List U8) : TcpCb where
  saddr := 0
  daddr := 0
  sport := 0
  dport := 0
  seq
  seqEnd := seq + BitVec.ofNat 32 payload.length
  ack
  rwnd := 65535
  flags := tcpAck
  payload

/-- Two bytes sent, data with no news, and a bare ACK of both. -/
theorem acks_kept_in_order : Along Step Kept opened
    [.send [7], .send [8], .segment (acking 0 0 [9]) [], .segment (acking 1 2 []) []] := by
  have hpossible : checkAll step Possible opened
      [.send [7], .send [8], .segment (acking 0 0 [9]) [], .segment (acking 1 2 []) []] = true := by
    decide
  have hsound : checkAll step Sound opened
      [.send [7], .send [8], .segment (acking 0 0 [9]) [], .segment (acking 1 2 []) []] = true := by
    decide
  exact (acks_kept_iff tracked_opened (.of_checkAll hpossible)).mpr (.of_checkAll hsound)

/-- A byte is sent and acknowledged by a segment that carries data: `snd_una` moves over
it, and the send buffer still holds it. -/
theorem piggybacked_ack_keeps_buffer :
    ¬ Along Step Kept opened [.send [7], .segment (acking 0 1 [9]) []] := by
  intro h
  have hbuffer := ((h.2 _ rfl).1 _ rfl).buffer
  exact absurd hbuffer (by decide)

end Acknowledging

end NetStack.Tcp
