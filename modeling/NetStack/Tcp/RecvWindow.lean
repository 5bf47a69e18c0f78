import NetStack.Tcp.Receiver
import NetStack.Lib.Run
import Mathlib.Data.List.Chain
import Mathlib.Tactic.LinearCombination

/-! The receive window while the application reads (`handle_recv_data`,
`put_recv_ofo_buf_entry_to_ring_buf`, `tcp_sock_read`).

The receiving thread goes through a call step by step, and the application may read
between any two of them: between the test and the value of
`max(ring_buffer_free - len, 0)`, before the acknowledgement goes out, or while the thread
waits for room. Reads only make room. So the window is never more than the room left once
the bytes it was computed for are in, its right edge moves by what was free beyond it, and
the write finds the room the wait has tested for. `handleRecvData_run`: a call in one piece,
with reads where it sleeps, is such a run. -/
namespace NetStack.Tcp.RecvWindow

/-- Where the receiving thread is in `handle_recv_data` for a segment: at the wait while the
buffer is full, past it, at what is left of the out-of-order list, and with its first entry
at the test and at the value of the new window, at the acknowledgement, at the wait for
room, at the write. -/
inductive Phase
  | idle
  | wait (cb : TcpCb)
  | accept (cb : TcpCb)
  | scan (cb : TcpCb) (rest : List RcvOfoEntry)
  | compare (cb : TcpCb) (entry : RcvOfoEntry) (rest : List RcvOfoEntry)
  | subtract (cb : TcpCb) (entry : RcvOfoEntry) (rest : List RcvOfoEntry)
  | announce (cb : TcpCb) (entry : RcvOfoEntry) (rest : List RcvOfoEntry)
  | room (cb : TcpCb) (entry : RcvOfoEntry) (rest : List RcvOfoEntry)
  | write (cb : TcpCb) (entry : RcvOfoEntry) (rest : List RcvOfoEntry)

/-- The socket, the receiving thread, and what it has sent. -/
structure State where
  tsk : TcpSock
  phase : Phase
  sent : List Packet

/-- `ring_buffer_free(rcv_buf) - len`, as an `int`. -/
def roomFor (tsk : TcpSock) (len : Nat) : Int := (tsk.rcvBuf.free : Int) - len

namespace State

/-- `tcp_send_control_packet` for an acknowledgement. -/
def ack (s : State) : State :=
  { s with tsk := (s.tsk.sendControlPacket tcpAck).1
           sent := s.sent ++ [(s.tsk.sendControlPacket tcpAck).2] }

/-- The end of `handle_recv_data`. -/
def finish (s : State) (cb : TcpCb) : State :=
  { s with
    tsk := TcpSock.updateRetransTimer { s.tsk with
      sndUna := if greaterThan32b cb.ack s.tsk.sndUna then cb.ack else s.tsk.sndUna }
    phase := .idle }

/-- One step of the receiving thread; `none` while it sleeps, and at an assertion that
fails. -/
def advance (s : State) : Option State :=
  match s.phase with
  | .idle => none
  | .wait cb => if s.tsk.rcvBuf.full then none else some { s with phase := .accept cb }
  | .accept cb =>
    if lessThan32b cb.seq s.tsk.rcvNxt then some { s.ack with phase := .idle }
    else
      let tsk := s.tsk.addRecvOfoBufEntry cb
      some { s with tsk, phase := .scan cb tsk.rcvOfoBuf }
  | .scan cb [] => some (s.finish cb)
  | .scan cb (entry :: rest) =>
    if s.tsk.rcvNxt = entry.seq then
      some { s with
        tsk := { s.tsk with rcvNxt := s.tsk.rcvNxt + BitVec.ofNat 32 entry.data.length }
        phase := .compare cb entry rest }
    else some (s.finish cb)
  | .compare cb entry rest =>
    if roomFor s.tsk entry.data.length > 0 then some { s with phase := .subtract cb entry rest }
    else some { s with tsk := { s.tsk with rcvWnd := 0 }, phase := .announce cb entry rest }
  | .subtract cb entry rest =>
    some { s with
      tsk := { s.tsk with rcvWnd := BitVec.ofInt 16 (roomFor s.tsk entry.data.length) }
      phase := .announce cb entry rest }
  | .announce cb entry rest => some { s.ack with phase := .room cb entry rest }
  | .room cb entry rest =>
    if entry.data.length > s.tsk.rcvBuf.free then none else some { s with phase := .write cb entry rest }
  | .write cb entry rest =>
    match s.tsk.rcvBuf.write entry.data with
    | none => none
    | some rcvBuf =>
      some { s with tsk := { s.tsk with rcvBuf, rcvOfoBuf := rest }, phase := .scan cb rest }

end State

inductive Event where
  | arrive (cb : TcpCb)
  | advance
  | read (len : Nat)

/-- A segment with data arrives when the last call is over, the receiving thread takes a
step, or a read returns. -/
def Step (s : State) : Event → State → Prop
  | .arrive cb, t => s.phase = .idle ∧ 0 < cb.payload.length ∧ cb.payload.length ≤ 65535 ∧
      t = { s with phase := .wait cb }
  | .advance, t => s.advance = some t
  | .read len, t => ∃ out tsk, s.tsk.sockRead len = some (out, tsk) ∧ t = { s with tsk }

/-- A socket with an empty buffer and a window as large. -/
def start (tsk : TcpSock) : State where
  tsk := { tsk with
    rcvBuf := .alloc tcpDefaultWindow
    rcvWnd := BitVec.ofNat 16 tcpDefaultWindow
    rcvOfoBuf := [] }
  phase := .idle
  sent := []

/-- The right edge of the window a packet advertises. -/
def edge (packet : Packet) : U32 := packet.ack + packet.rwnd.setWidth 32

/-- The right edge of the window of a socket. -/
def rightEdge (tsk : TcpSock) : U32 := tsk.rcvNxt + tsk.rcvWnd.setWidth 32

/-- Between calls the window is no more than what is free; the right edge, at first
`first`, does not move left from one acknowledgement to the next; what the window is set to
fits it; and the write finds what its assertion asks for. -/
structure Accounted (first : U32) (s : State) : Prop where
  free : s.phase = .idle → s.tsk.rcvWnd.toNat ≤ s.tsk.rcvBuf.free
  edges : (first :: s.sent.map edge).IsChain fun a b => lessOrEqual32b a b = true
  fits : ∀ cb entry rest, s.phase = .subtract cb entry rest →
    0 ≤ roomFor s.tsk entry.data.length ∧ roomFor s.tsk entry.data.length < 2 ^ 16
  writes : ∀ cb entry rest, s.phase = .write cb entry rest →
    (s.tsk.rcvBuf.write entry.data).isSome = true

/-! ### Edges -/

/-- The right edge advertised last. -/
def lastEdge (first : U32) (sent : List Packet) : U32 := (sent.map edge).getLast?.getD first

@[simp] theorem lastEdge_snoc (first : U32) (sent : List Packet) (packet : Packet) :
    lastEdge first (sent ++ [packet]) = edge packet := by
  simp [lastEdge]

theorem chain_snoc {first : U32} {sent : List Packet} {packet : Packet}
    (h : (first :: sent.map edge).IsChain fun a b => lessOrEqual32b a b = true)
    (hnext : lessOrEqual32b (lastEdge first sent) (edge packet) = true) :
    (first :: (sent ++ [packet]).map edge).IsChain fun a b => lessOrEqual32b a b = true := by
  rw [List.map_append, ← List.cons_append, List.isChain_append]
  refine ⟨h, List.isChain_singleton _, ?_⟩
  intro a ha b hb
  rw [List.getLast?_cons, Option.mem_some_iff] at ha
  rw [List.map_singleton, List.head?_singleton, Option.mem_some_iff] at hb
  rw [← ha, ← hb]
  exact hnext

theorem le_refl (a : U32) : lessOrEqual32b a a = true := by
  simp [lessOrEqual32b, Serial.le]

/-- Taking `len` bytes, a window of all that is free beyond them moves the right edge of one
of no more than what is free to the right. -/
theorem edge_advance {last nxt : U32} {old new : U16} {len free : Nat}
    (hedge : last + BitVec.ofNat 32 len = nxt + old.setWidth 32) (hold : old.toNat ≤ free)
    (hfree : free ≤ 65535) (hlen : len ≤ 65535) (hnew : new.toNat = free - len) :
    lessOrEqual32b last (nxt + new.setWidth 32) = true := by
  have hcast : ∀ w : U16, w.setWidth 32 = BitVec.ofNat 32 w.toNat := fun w => by
    apply BitVec.eq_of_toNat_eq
    simp
  have hsum : BitVec.ofNat 32 len + BitVec.ofNat 32 new.toNat =
      BitVec.ofNat 32 (max free len - old.toNat) + BitVec.ofNat 32 old.toNat := by
    rw [← BitVec.ofNat_add, ← BitVec.ofNat_add]
    congr 1
    omega
  have hmoved : nxt + new.setWidth 32 = last + BitVec.ofNat 32 (max free len - old.toNat) := by
    rw [hcast] at hedge ⊢
    linear_combination hsum - hedge
  rw [hmoved]
  exact Serial.le_add _ (by omega)

/-! ### Reads -/

/-- A read makes room and leaves everything else. -/
theorem sockRead_room {tsk tsk' : TcpSock} {len : Nat} {out : List U8}
    (h : tsk.sockRead len = some (out, tsk')) :
    ∃ rcvBuf, tsk' = { tsk with rcvBuf } ∧ rcvBuf.size = tsk.rcvBuf.size ∧
      tsk.rcvBuf.free ≤ rcvBuf.free := by
  unfold TcpSock.sockRead at h
  split at h
  · cases h
  · cases h
    refine ⟨_, rfl, tsk.rcvBuf.read_size len, ?_⟩
    have hused := tsk.rcvBuf.read_used len
    have hsize := tsk.rcvBuf.read_size len
    have hbefore := tsk.rcvBuf.used_add_free
    have hafter := (tsk.rcvBuf.read len).2.used_add_free
    omega

/-! ### The invariant -/

/-- Entries with data, and no more than the buffer can hold. -/
def Filled (entries : List RcvOfoEntry) : Prop :=
  ∀ entry ∈ entries, 0 < entry.data.length ∧ entry.data.length ≤ 65535

/-- What the window and the edges are at each step of a call, `last` being the edge
advertised last. -/
def Held (last : U32) (tsk : TcpSock) : Phase → Prop
  | .idle => tsk.rcvWnd.toNat ≤ tsk.rcvBuf.free ∧ last = rightEdge tsk
  | .wait cb | .accept cb =>
    (0 < cb.payload.length ∧ cb.payload.length ≤ 65535) ∧
      tsk.rcvWnd.toNat ≤ tsk.rcvBuf.free ∧ last = rightEdge tsk
  | .scan _ rest => Filled rest ∧ tsk.rcvWnd.toNat ≤ tsk.rcvBuf.free ∧ last = rightEdge tsk
  | .compare _ entry rest =>
    Filled (entry :: rest) ∧ tsk.rcvWnd.toNat ≤ tsk.rcvBuf.free ∧
      last + BitVec.ofNat 32 entry.data.length = rightEdge tsk
  | .subtract _ entry rest =>
    Filled (entry :: rest) ∧ entry.data.length < tsk.rcvBuf.free ∧ tsk.rcvWnd.toNat ≤ tsk.rcvBuf.free ∧
      last + BitVec.ofNat 32 entry.data.length = rightEdge tsk
  | .announce _ entry rest =>
    Filled (entry :: rest) ∧ tsk.rcvWnd.toNat ≤ tsk.rcvBuf.free - entry.data.length ∧
      lessOrEqual32b last (rightEdge tsk) = true
  | .room _ entry rest =>
    Filled (entry :: rest) ∧ tsk.rcvWnd.toNat ≤ tsk.rcvBuf.free - entry.data.length ∧ last = rightEdge tsk
  | .write _ entry rest =>
    Filled (entry :: rest) ∧ entry.data.length ≤ tsk.rcvBuf.free ∧
      tsk.rcvWnd.toNat ≤ tsk.rcvBuf.free - entry.data.length ∧ last = rightEdge tsk

structure Inv (first : U32) (s : State) : Prop where
  size : s.tsk.rcvBuf.size = 65536
  filled : Filled s.tsk.rcvOfoBuf
  edges : (first :: s.sent.map edge).IsChain fun a b => lessOrEqual32b a b = true
  held : Held (lastEdge first s.sent) s.tsk s.phase

variable {first last : U32} {s t : State} {e : Event} {phase : Phase}

/-- Room made does not spoil it. -/
theorem Held.more {tsk : TcpSock} {rcvBuf : RingBuffer} (h : Held last tsk phase)
    (hfree : tsk.rcvBuf.free ≤ rcvBuf.free) : Held last { tsk with rcvBuf } phase := by
  cases phase with
  | idle => exact ⟨h.1.trans hfree, h.2⟩
  | wait cb => exact ⟨h.1, h.2.1.trans hfree, h.2.2⟩
  | accept cb => exact ⟨h.1, h.2.1.trans hfree, h.2.2⟩
  | scan cb rest => exact ⟨h.1, h.2.1.trans hfree, h.2.2⟩
  | compare cb entry rest => exact ⟨h.1, h.2.1.trans hfree, h.2.2⟩
  | subtract cb entry rest => exact ⟨h.1, h.2.1.trans_le hfree, h.2.2.1.trans hfree, h.2.2.2⟩
  | announce cb entry rest => exact ⟨h.1, h.2.1.trans (Nat.sub_le_sub_right hfree _), h.2.2⟩
  | room cb entry rest => exact ⟨h.1, h.2.1.trans (Nat.sub_le_sub_right hfree _), h.2.2⟩
  | write cb entry rest =>
    exact ⟨h.1, h.2.1.trans hfree, h.2.2.1.trans (Nat.sub_le_sub_right hfree _), h.2.2.2⟩

theorem Inv.read (h : Inv first s) {len : Nat} {out : List U8} {tsk : TcpSock}
    (hread : s.tsk.sockRead len = some (out, tsk)) : Inv first { s with tsk } := by
  obtain ⟨rcvBuf, rfl, hsize, hfree⟩ := sockRead_room hread
  exact ⟨hsize.trans h.size, h.filled, h.edges, h.held.more hfree⟩

theorem Inv.free_le (h : Inv first s) : s.tsk.rcvBuf.free ≤ 65535 := by
  have := s.tsk.rcvBuf.used_add_free
  have := h.size
  omega

/-! ### Steps of the receiving thread -/

/-- An acknowledgement of a window whose edge is not left of the last. -/
theorem Inv.ack (h : Inv first s) (hle : lessOrEqual32b (lastEdge first s.sent) (rightEdge s.tsk) = true)
    (hheld : Held (rightEdge s.tsk) s.tsk phase) : Inv first { s.ack with phase } := by
  have hedge : edge (s.tsk.packet tcpAck []) = rightEdge s.tsk := rfl
  refine ⟨?_, ?_, ?_, ?_⟩
  · simpa [State.ack] using h.size
  · simpa [State.ack] using h.filled
  · simp only [State.ack, sendControlPacket_ack]
    exact chain_snoc h.edges (hedge ▸ hle)
  · simp only [State.ack, sendControlPacket_ack, lastEdge_snoc, hedge]
    exact hheld

theorem Inv.finish (h : Inv first s) {cb : TcpCb} {rest : List RcvOfoEntry}
    (hphase : s.phase = .scan cb rest) : Inv first (s.finish cb) := by
  have hheld := h.held
  rw [hphase] at hheld
  unfold State.finish
  rw [TcpSock.updateRetransTimer_eq]
  exact ⟨h.size, h.filled, h.edges, hheld.2⟩

theorem Inv.accept (h : Inv first s) {cb : TcpCb} (hphase : s.phase = .accept cb)
    (hstep : s.advance = some t) : Inv first t := by
  have hheld := h.held
  rw [hphase] at hheld
  obtain ⟨hdata, hwnd, hlast⟩ := hheld
  simp only [State.advance, hphase] at hstep
  split at hstep
  · cases hstep
    exact h.ack (hlast ▸ le_refl _) ⟨hwnd, rfl⟩
  · cases hstep
    have hfilled : Filled (s.tsk.addRecvOfoBufEntry cb).rcvOfoBuf := by
      intro entry hmem
      rcases TcpSock.mem_insertOfo hmem with rfl | hmem
      · exact hdata
      · exact h.filled entry hmem
    exact ⟨h.size, hfilled, h.edges, hfilled, hwnd, hlast⟩

theorem Inv.scan (h : Inv first s) {cb : TcpCb} {rest : List RcvOfoEntry} (hphase : s.phase = .scan cb rest)
    (hstep : s.advance = some t) : Inv first t := by
  have hheld := h.held
  rw [hphase] at hheld
  obtain ⟨hfilled, hwnd, hlast⟩ := hheld
  cases rest with
  | nil =>
    simp only [State.advance, hphase] at hstep
    cases hstep
    exact h.finish hphase
  | cons entry rest =>
    simp only [State.advance, hphase] at hstep
    split at hstep
    · cases hstep
      refine ⟨h.size, h.filled, h.edges, hfilled, hwnd, ?_⟩
      rw [hlast, rightEdge, rightEdge]
      ring
    · cases hstep
      exact h.finish hphase

/-- The new window is what is free beyond the entry, or nothing. -/
theorem Inv.window (h : Inv first s) {cb : TcpCb} {entry : RcvOfoEntry} {rest : List RcvOfoEntry} {rcvWnd : U16}
    (hfilled : Filled (entry :: rest)) (hwnd : s.tsk.rcvWnd.toNat ≤ s.tsk.rcvBuf.free)
    (hlast : lastEdge first s.sent + BitVec.ofNat 32 entry.data.length = rightEdge s.tsk)
    (hnew : rcvWnd.toNat = s.tsk.rcvBuf.free - entry.data.length) :
    Inv first { s with tsk := { s.tsk with rcvWnd }, phase := .announce cb entry rest } :=
  ⟨h.size, h.filled, h.edges, hfilled, hnew.le,
    edge_advance hlast hwnd h.free_le (hfilled entry List.mem_cons_self).2 hnew⟩

theorem Inv.compare (h : Inv first s) {cb : TcpCb} {entry : RcvOfoEntry} {rest : List RcvOfoEntry}
    (hphase : s.phase = .compare cb entry rest) (hstep : s.advance = some t) : Inv first t := by
  have hheld := h.held
  rw [hphase] at hheld
  obtain ⟨hfilled, hwnd, hlast⟩ := hheld
  simp only [State.advance, hphase] at hstep
  split at hstep
  · rename_i hroom
    cases hstep
    refine ⟨h.size, h.filled, h.edges, hfilled, ?_, hwnd, hlast⟩
    show entry.data.length < s.tsk.rcvBuf.free
    simp only [roomFor] at hroom
    omega
  · rename_i hroom
    cases hstep
    refine h.window hfilled hwnd hlast ?_
    simp only [roomFor] at hroom
    show 0 = _
    omega

theorem Inv.subtract (h : Inv first s) {cb : TcpCb} {entry : RcvOfoEntry} {rest : List RcvOfoEntry}
    (hphase : s.phase = .subtract cb entry rest) (hstep : s.advance = some t) : Inv first t := by
  have hheld := h.held
  rw [hphase] at hheld
  obtain ⟨hfilled, hroom, hwnd, hlast⟩ := hheld
  simp only [State.advance, hphase] at hstep
  cases hstep
  refine h.window hfilled hwnd hlast ?_
  have hfree := h.free_le
  rw [BitVec.toNat_ofInt, roomFor]
  omega

theorem Inv.write (h : Inv first s) {cb : TcpCb} {entry : RcvOfoEntry} {rest : List RcvOfoEntry}
    (hphase : s.phase = .write cb entry rest) (hstep : s.advance = some t) : Inv first t := by
  have hheld := h.held
  rw [hphase] at hheld
  obtain ⟨hfilled, hroom, hwnd, hlast⟩ := hheld
  have hrest : Filled rest := fun other hmem => hfilled other (List.mem_cons_of_mem entry hmem)
  simp only [State.advance, hphase] at hstep
  split at hstep
  · cases hstep
  · rename_i rcvBuf hwrite
    cases hstep
    obtain ⟨hused, hsize⟩ := RingBuffer.write_used hwrite
    have hbefore := s.tsk.rcvBuf.used_add_free
    have hafter := rcvBuf.used_add_free
    refine ⟨hsize.trans h.size, hrest, h.edges, hrest, ?_, hlast⟩
    show s.tsk.rcvWnd.toNat ≤ rcvBuf.free
    omega

theorem Inv.advance (h : Inv first s) (hstep : s.advance = some t) : Inv first t := by
  have hheld := h.held
  cases hphase : s.phase with
  | idle => simp [State.advance, hphase] at hstep
  | wait cb =>
    rw [hphase] at hheld
    simp only [State.advance, hphase] at hstep
    split at hstep
    · cases hstep
    · cases hstep
      exact ⟨h.size, h.filled, h.edges, hheld⟩
  | accept cb => exact h.accept hphase hstep
  | scan cb rest => exact h.scan hphase hstep
  | compare cb entry rest => exact h.compare hphase hstep
  | subtract cb entry rest => exact h.subtract hphase hstep
  | announce cb entry rest =>
    rw [hphase] at hheld
    simp only [State.advance, hphase] at hstep
    cases hstep
    exact h.ack hheld.2.2 ⟨hheld.1, hheld.2.1, rfl⟩
  | room cb entry rest =>
    rw [hphase] at hheld
    simp only [State.advance, hphase] at hstep
    split at hstep
    · cases hstep
    · rename_i hroom
      cases hstep
      exact ⟨h.size, h.filled, h.edges, hheld.1, not_lt.mp hroom, hheld.2⟩
  | write cb entry rest => exact h.write hphase hstep

theorem Inv.step (h : Inv first s) (hstep : Step s e t) : Inv first t := by
  cases e with
  | arrive cb =>
    obtain ⟨hphase, hpos, hle, rfl⟩ := hstep
    have hheld := h.held
    rw [hphase] at hheld
    exact ⟨h.size, h.filled, h.edges, ⟨hpos, hle⟩, hheld⟩
  | advance => exact h.advance hstep
  | read len =>
    obtain ⟨out, tsk, hread, rfl⟩ := hstep
    exact h.read hread

theorem Inv.accounted (h : Inv first s) : Accounted first s := by
  have hheld := h.held
  refine ⟨?_, h.edges, ?_, ?_⟩
  · intro hphase
    rw [hphase] at hheld
    exact hheld.1
  · intro cb entry rest hphase
    rw [hphase] at hheld
    have hfree := h.free_le
    have hroom := hheld.2.1
    simp only [roomFor]
    omega
  · intro cb entry rest hphase
    rw [hphase] at hheld
    obtain ⟨hfilled, hroom, -⟩ := hheld
    apply Option.isSome_iff_exists.mpr
    exact (RingBuffer.write_eq_some_iff _ _).mpr
      ⟨List.ne_nil_of_length_pos (hfilled entry List.mem_cons_self).1, hroom⟩

theorem inv_start (tsk : TcpSock) : Inv (rightEdge (start tsk).tsk) (start tsk) where
  size := rfl
  filled := fun _ hmem => absurd hmem List.not_mem_nil
  edges := List.isChain_singleton _
  held :=
    have hwnd : (BitVec.ofNat 16 tcpDefaultWindow).toNat ≤ (RingBuffer.alloc tcpDefaultWindow).free := by decide
    ⟨hwnd, rfl⟩

/-- **The receive window is accounted for** in every state of every run of calls and reads,
from an empty buffer and a window as large. -/
theorem window_accounted (tsk : TcpSock) (es : List Event) :
    Throughout Step (Accounted (rightEdge (start tsk).tsk)) (start tsk) es := by
  have hkeep : ∀ s e t, Inv (rightEdge (start tsk).tsk) s → Step s e t → Inv (rightEdge (start tsk).tsk) t :=
    fun _ _ _ h hstep => h.step hstep
  exact (Throughout.of_invariant hkeep (inv_start tsk) es).mono fun _ h => h.accounted

/-! ### A call in one piece -/

variable {rx rx' : Rx} {cb : TcpCb} {entry : RcvOfoEntry} {rest l : List RcvOfoEntry}

/-- A receive call under way, with its thread in this phase. -/
def during (rx : Rx) (phase : Phase) : State := ⟨rx.tsk, phase, rx.sent⟩

theorem reads_run {lens : List Nat} (h : rx.reads lens = some rx') (phase : Phase) :
    Run Step (during rx phase) (lens.map .read) (during rx' phase) := by
  induction lens generalizing rx with
  | nil =>
    cases h
    exact .nil _
  | cons len lens ih =>
    rw [Rx.reads] at h
    split at h
    · cases h
    · rename_i out tsk hread
      exact .cons ⟨out, tsk, hread, rfl⟩ (ih h)

theorem sleepWhile_run {blocked : RingBuffer → Bool} {sleeps : List (List Nat)}
    (h : rx.sleepWhile blocked sleeps = some rx') (phase : Phase) :
    ∃ es, Run Step (during rx phase) es (during rx' phase) := by
  induction sleeps generalizing rx with
  | nil =>
    rw [Rx.sleepWhile] at h
    split at h
    · cases h
    · cases h
      exact ⟨[], .nil _⟩
  | cons lens sleeps ih =>
    rw [Rx.sleepWhile] at h
    split at h
    · split at h
      · cases h
      · rename_i rx₁ hreads
        obtain ⟨es, hrest⟩ := ih h
        exact ⟨_, (reads_run hreads phase).append hrest⟩
    · cases h
      exact ⟨[], .nil _⟩

/-- The window and the acknowledgement of an entry, without a read in between. -/
theorem acknowledge_run (cb : TcpCb) (rest : List RcvOfoEntry) (hseq : rx.tsk.rcvNxt = entry.seq) :
    ∃ es, Run Step (during rx (.scan cb (entry :: rest))) es
      (during (rx.acknowledge entry.data.length) (.room cb entry rest)) := by
  let taken : TcpSock := { rx.tsk with rcvNxt := rx.tsk.rcvNxt + BitVec.ofNat 32 entry.data.length }
  let rcvWnd : U16 := BitVec.ofNat 16 (rx.tsk.rcvBuf.free - entry.data.length)
  have hscan : Step (during rx (.scan cb (entry :: rest))) .advance ⟨taken, .compare cb entry rest, rx.sent⟩ :=
    if_pos hseq
  have hack : Step ⟨{ taken with rcvWnd }, .announce cb entry rest, rx.sent⟩ .advance
      (during (rx.acknowledge entry.data.length) (.room cb entry rest)) := rfl
  by_cases hroom : roomFor rx.tsk entry.data.length > 0
  · have hcompare : Step ⟨taken, .compare cb entry rest, rx.sent⟩ .advance
        ⟨taken, .subtract cb entry rest, rx.sent⟩ := if_pos hroom
    have hwnd : BitVec.ofInt 16 (roomFor rx.tsk entry.data.length) = rcvWnd := by
      rw [roomFor] at hroom ⊢
      rw [show (rx.tsk.rcvBuf.free : Int) - entry.data.length =
        ((rx.tsk.rcvBuf.free - entry.data.length : Nat) : Int) by omega, BitVec.ofInt_natCast]
    have hsubtract : Step ⟨taken, .subtract cb entry rest, rx.sent⟩ .advance
        ⟨{ taken with rcvWnd }, .announce cb entry rest, rx.sent⟩ := by
      rw [← hwnd]
      rfl
    exact ⟨_, .cons hscan (.cons hcompare (.cons hsubtract (.cons hack (.nil _))))⟩
  · have hwnd : 0 = rcvWnd := by
      rw [roomFor] at hroom
      rw [show rcvWnd = BitVec.ofNat 16 (rx.tsk.rcvBuf.free - entry.data.length) from rfl,
        show rx.tsk.rcvBuf.free - entry.data.length = 0 by omega]
      rfl
    have hcompare : Step ⟨taken, .compare cb entry rest, rx.sent⟩ .advance
        ⟨{ taken with rcvWnd }, .announce cb entry rest, rx.sent⟩ := by
      rw [← hwnd]
      exact if_neg hroom
    exact ⟨_, .cons hscan (.cons hcompare (.cons hack (.nil _)))⟩

theorem putEntry_run (cb : TcpCb) (hseq : rx.tsk.rcvNxt = entry.seq) (h : rx.putEntry entry rest = some rx') :
    ∃ es, Run Step (during rx (.scan cb (entry :: rest))) es (during rx' (.scan cb rest)) := by
  obtain ⟨es, hack⟩ := acknowledge_run cb rest hseq
  simp only [Rx.putEntry] at h
  split at h
  · cases h
  · rename_i rx₁ hsleep
    obtain ⟨fs, hwait⟩ := sleepWhile_run hsleep (.room cb entry rest)
    have hroom := (Rx.sleepWhile_waited hsleep).2
    rw [decide_eq_false_iff_not] at hroom
    split at h
    · cases h
    · rename_i rcvBuf hwrite
      cases h
      have htest : Step (during rx₁ (.room cb entry rest)) .advance (during rx₁ (.write cb entry rest)) :=
        if_neg hroom
      have hput : Step (during rx₁ (.write cb entry rest)) .advance
          ⟨{ rx₁.tsk with rcvBuf, rcvOfoBuf := rest }, .scan cb rest, rx₁.sent⟩ := by
        show State.advance _ = _
        simp only [State.advance, during, hwrite]
      exact ⟨_, (hack.append hwait).append (.cons htest (.cons hput (.nil _)))⟩

theorem putRecvOfoBuf_run (cb : TcpCb) {value : Int} (h : rx.putRecvOfoBuf l = some (value, rx')) :
    ∃ es rest, Run Step (during rx (.scan cb l)) es ((during rx' (.scan cb rest)).finish cb) := by
  induction l generalizing rx with
  | nil =>
    cases h
    exact ⟨[.advance], [], .cons rfl (.nil _)⟩
  | cons entry rest ih =>
    simp only [Rx.putRecvOfoBuf] at h
    split at h
    · rename_i hseq
      split at h
      · cases h
      · rename_i rx₁ hput
        obtain ⟨es, hentry⟩ := putEntry_run cb hseq hput
        obtain ⟨fs, rest', hrest⟩ := ih h
        exact ⟨es ++ fs, rest', hentry.append hrest⟩
    · rename_i hseq
      have hend : Step (during rx (.scan cb (entry :: rest))) .advance
          ((during rx (.scan cb rest)).finish cb) := if_neg hseq
      split at h <;> cases h <;> exact ⟨[.advance], rest, .cons hend (.nil _)⟩

/-- A call, with whatever is read while it sleeps, is a run. -/
theorem handleRecvData_run (hpos : 0 < cb.payload.length) (hle : cb.payload.length ≤ 65535)
    (h : rx.handleRecvData cb = some rx') : ∃ es, Run Step (during rx .idle) es (during rx' .idle) := by
  have harrive : Step (during rx .idle) (.arrive cb) (during rx (.wait cb)) := ⟨rfl, hpos, hle, rfl⟩
  simp only [Rx.handleRecvData] at h
  split at h
  · cases h
  · rename_i rx₁ hsleep
    obtain ⟨es, hwait⟩ := sleepWhile_run hsleep (.wait cb)
    have hroom := (Rx.sleepWhile_waited hsleep).2
    have htest : Step (during rx₁ (.wait cb)) .advance (during rx₁ (.accept cb)) :=
      if_neg (Bool.eq_false_iff.mp hroom)
    simp only [Rx.accept] at h
    split at h
    · rename_i hold
      cases h
      have hack : Step (during rx₁ (.accept cb)) .advance (during (rx₁.control tcpAck) .idle) := if_pos hold
      exact ⟨_, .cons harrive (hwait.append (.cons htest (.cons hack (.nil _))))⟩
    · rename_i hnew
      split at h
      · cases h
      · rename_i value rx₂ hput
        cases h
        obtain ⟨fs, rest, hdrain⟩ := putRecvOfoBuf_run cb hput
        have hadd : Step (during rx₁ (.accept cb)) .advance
            (during { rx₁ with tsk := rx₁.tsk.addRecvOfoBufEntry cb }
              (.scan cb (rx₁.tsk.addRecvOfoBufEntry cb).rcvOfoBuf)) := if_neg hnew
        exact ⟨_, .cons harrive (hwait.append (.cons htest (.cons hadd hdrain)))⟩

end NetStack.Tcp.RecvWindow
