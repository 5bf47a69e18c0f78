import NetStack.Tcp.Sock

/-! The out-of-order list (`add_recv_ofo_buf_entry` in `tcp_sock.c`, `less_than_32b` in `include/tcp.h`
of `EXP18-TCP_Stack_4/code/18-tcp_stack`).

An entry goes before the first one that `less_than_32b` finds later. Among sequence numbers in
half the range from a common base that is the order of their distances from it, so the list
stays in that order, with equal numbers as they arrived. -/
namespace NetStack.Tcp

/-- The entry that `add_recv_ofo_buf_entry` makes: the payload is copied. -/
def TcpCb.ofoEntry (cb : TcpCb) : RcvOfoEntry := ⟨cb.seq, cb.payload⟩

/-- How far a sequence number is after `base`. -/
def RcvOfoEntry.offset (base : U32) (entry : RcvOfoEntry) : Nat := (entry.seq - base).toNat

/-- Nothing else of the socket is read. -/
theorem foldl_addRecvOfoBufEntry (cbs : List TcpCb) (tsk : TcpSock) :
    (cbs.foldl TcpSock.addRecvOfoBufEntry tsk).rcvOfoBuf =
      (cbs.map TcpCb.ofoEntry).foldl (fun l x => StableInsert.insert (fun x y => lessThan32b x.seq y.seq) x l)
        tsk.rcvOfoBuf := by
  induction cbs generalizing tsk with
  | nil => rfl
  | cons cb cbs ih =>
    rw [List.foldl_cons, ih, List.map_cons, List.foldl_cons, ← TcpSock.insertOfo_eq]
    rfl

/-- Distances from `base` decide which of two such numbers is later. -/
theorem arranged_rcvOfoBuf {base : U32} {cbs : List TcpCb} (hnear : ∀ cb ∈ cbs, (cb.seq - base).toNat < 2 ^ 31)
    (tsk : TcpSock) (hempty : tsk.rcvOfoBuf = []) :
    StableInsert.Arranged (RcvOfoEntry.offset base) (cbs.map TcpCb.ofoEntry)
      (cbs.foldl TcpSock.addRecvOfoBufEntry tsk).rcvOfoBuf := by
  have hupto : ∀ x ∈ cbs.map TcpCb.ofoEntry, Serial.Upto base x.seq := by
    intro x hx
    obtain ⟨cb, hcb, rfl⟩ := List.mem_map.mp hx
    have hlt := hnear cb hcb
    show 2 * (cb.seq - base).toNat < 2 ^ 32
    omega
  rw [foldl_addRecvOfoBufEntry, hempty]
  exact (StableInsert.arranged_nil _).foldl _ fun x hx y hy => Serial.lt_of_upto (hupto x hx) (hupto y hy)

/-- Equal distances are equal numbers. -/
theorem offset_eq_iff (base seq : U32) (x : RcvOfoEntry) : x.offset base = (seq - base).toNat ↔ x.seq = seq := by
  rw [RcvOfoEntry.offset, ← BitVec.toNat_eq]
  constructor
  · intro h
    rw [← Serial.nth_toNat_sub base x.seq, h, Serial.nth_toNat_sub]
  · intro h
    rw [h]

/-- **The out-of-order list.** After any calls with sequence numbers in half the range from
`base`, in any order and with repetitions, the list is the entries made, in order of distance
from `base` and, where numbers are equal, in order of arrival. -/
theorem rcvOfoBuf_sorted (base : U32) (tsk : TcpSock) (cbs : List TcpCb)
    (hnear : ∀ cb ∈ cbs, (cb.seq - base).toNat < 2 ^ 31) :
    let l := (cbs.foldl TcpSock.addRecvOfoBufEntry { tsk with rcvOfoBuf := [] }).rcvOfoBuf
    l.Perm (cbs.map TcpCb.ofoEntry) ∧
      (l.Pairwise fun x y => (x.seq - base).toNat ≤ (y.seq - base).toNat) ∧
      ∀ seq, (l.filter fun x => x.seq = seq) = (cbs.map TcpCb.ofoEntry).filter fun x => x.seq = seq := by
  have harranged := arranged_rcvOfoBuf hnear { tsk with rcvOfoBuf := [] } rfl
  refine ⟨harranged.perm, harranged.ascending, fun seq => ?_⟩
  have hstable := harranged.stable (seq - base).toNat
  simp only [offset_eq_iff] at hstable
  exact hstable

/-- Three segments, the second before the wrap and the third numbered as the first. -/
def wrapping : List TcpCb :=
  [⟨0, 0, 0, 0, 0x10, 0x11, 0, 0, tcpAck, [1]⟩, ⟨0, 0, 0, 0, 0xFFFFFF80, 0xFFFFFF81, 0, 0, tcpAck, [2]⟩,
    ⟨0, 0, 0, 0, 0x10, 0x11, 0, 0, tcpAck, [3]⟩]

theorem rcvOfoBuf_sorted_wrapping :
    let l := (wrapping.foldl TcpSock.addRecvOfoBufEntry { allocTcpSock with rcvOfoBuf := [] }).rcvOfoBuf
    l.Perm (wrapping.map TcpCb.ofoEntry) ∧
      (l.Pairwise fun x y => (x.seq - 0xFFFFFF00#32).toNat ≤ (y.seq - 0xFFFFFF00#32).toNat) ∧
      ∀ seq, (l.filter fun x => x.seq = seq) = (wrapping.map TcpCb.ofoEntry).filter fun x => x.seq = seq :=
  rcvOfoBuf_sorted 0xFFFFFF00#32 allocTcpSock wrapping (by decide)

end NetStack.Tcp
