import NetStack.Tcp.Receiver

/-! When a transfer completes.

A stream is cut into segments, and `handle_recv_data` gets every segment at least once, in
any order and with any repetitions. `reassembly_complete_iff`: it ends with the whole
stream written, `rcv_nxt` at its end and `rcv_ofo_buf` empty exactly if each segment that
arrived again did so after everything before it had arrived. Otherwise the second copy of
an out-of-order segment is left at the head of the list when the first is written, and
`put_recv_ofo_buf_entry_to_ring_buf` returns `-1` there ever after. -/
namespace NetStack.Tcp
open Reassembly (Cut RepeatsLate Window)

namespace Rx

/-- `handle_recv_data` on one segment after the other, each call with its own sleeps. -/
def receiveAll (rx : Rx) : List (TcpCb × List (List Nat)) → Option Rx
  | [] => some rx
  | (cb, sleeps) :: calls =>
    match handleRecvData { rx with sleeps } cb with
    | none => none
    | some rx => receiveAll rx calls

/-- The segment carries piece `i` of the cut. -/
def Carries (isn : U32) (cut : Cut U8) (i : Nat) (cb : TcpCb) : Prop :=
  cb.seq = Serial.nth isn (cut.start i) ∧ cb.payload = cut.data i

/-- The whole stream has been written, `rcv_nxt` is its end and nothing is held. -/
def Complete (isn : U32) (cut : Cut U8) (n : Nat) (rx : Rx) : Prop :=
  rx.taken ++ rx.tsk.rcvBuf.contents = cut.bytes n ∧
    rx.tsk.rcvNxt = Serial.nth isn (cut.start n) ∧ rx.tsk.rcvOfoBuf = []

variable {isn : U32} {cut : Cut U8} {n : Nat}

/-- The calls do what the arrivals of their pieces do. -/
theorem receiveAll_receives (hspan : 2 * cut.start n < 2 * cut.start 0 + 2 ^ 32)
    {arrivals : List Nat} {calls : List (TcpCb × List (List Nat))}
    (hcalls : List.Forall₂ (fun i call => Carries isn cut i call.1) arrivals calls)
    (hlt : ∀ i ∈ arrivals, i < n) {rx rx' : Rx} {r : Reassembly U8} {k : Nat}
    (hr : Receives isn rx.tsk rx.taken r) (hw : Window 32 r) (hd : cut.Delivering n k r)
    (h : rx.receiveAll calls = some rx') :
    Receives isn rx'.tsk rx'.taken (cut.arriveAll r arrivals) ∧
      ∃ k', cut.Delivering n k' (cut.arriveAll r arrivals) := by
  induction hcalls generalizing rx r k with
  | nil =>
    cases h
    exact ⟨hr, k, hd⟩
  | @cons i call arrivals calls hcall _ ih =>
    obtain ⟨cb, sleeps⟩ := call
    obtain ⟨hseq, hpayload⟩ := hcall
    have hi := hlt i (List.mem_cons_self ..)
    have hfits := hd.fits hi hspan
    simp only [receiveAll] at h
    split at h
    · cases h
    · rename_i rx₁ hcall
      have hr₀ : Receives isn { rx with sleeps }.tsk { rx with sleeps }.taken r := hr
      have hr₁ : Receives isn rx₁.tsk rx₁.taken (r.arrive (cut.piece i)) := by
        have := handleRecvData_receives hr₀ hw hseq (by rw [hpayload]; exact hfits) hcall
        rwa [hpayload] at this
      obtain ⟨k₁, hd₁⟩ := hd.arrive hi
      exact ih (fun j hj => hlt j (List.mem_cons_of_mem i hj)) hr₁ (hw.arrive hfits) hd₁ h

/-! ### A reader that drains

While the receiver sleeps, a reader takes all there is. Then every wait is over after
one sleep, and a call returns as long as each segment fits in the ring buffer. -/

/-- The application reads everything. -/
def drained (rx : Rx) : Rx :=
  { rx with tsk := { rx.tsk with rcvBuf := (rx.tsk.rcvBuf.read rx.tsk.rcvBuf.size).2 }
            taken := rx.taken ++ (rx.tsk.rcvBuf.read rx.tsk.rcvBuf.size).1 }

theorem drained_contents (rx : Rx) : rx.drained.tsk.rcvBuf.contents = [] := by
  show (rx.tsk.rcvBuf.read rx.tsk.rcvBuf.size).2.contents = []
  rw [RingBuffer.read_contents]
  apply List.drop_eq_nil_of_le
  rw [RingBuffer.length_contents]
  exact rx.tsk.rcvBuf.used_lt.le

/-- What a wait needs to end: when it blocks there is something to read, and when all is
read it does not block. -/
structure Drains (blocked : RingBuffer → Bool) (size : Nat) : Prop where
  nonempty : ∀ rbuf : RingBuffer, rbuf.size = size → blocked rbuf = true → rbuf.empty = false
  room : ∀ rbuf : RingBuffer, rbuf.size = size → rbuf.contents = [] → blocked rbuf = false

theorem free_of_contents_nil {rbuf : RingBuffer} (h : rbuf.contents = []) :
    rbuf.free + 1 = rbuf.size := by
  have := rbuf.used_add_free
  rw [← RingBuffer.length_contents, h] at this
  simpa using this

theorem drains_free {size len : Nat} (hlen : len < size) :
    Drains (fun rbuf => rbuf.free < len) size where
  nonempty rbuf hsize hb := by
    have := rbuf.used_add_free
    simp only [decide_eq_true_eq] at hb
    simp only [RingBuffer.empty, beq_eq_false_iff_ne]
    omega
  room rbuf hsize hnil := by
    have := free_of_contents_nil hnil
    simp only [decide_eq_false_iff_not]
    omega

theorem drains_full {size : Nat} (hsize : 1 < size) : Drains RingBuffer.full size where
  nonempty rbuf hs hb := by
    have := rbuf.used_add_free
    simp only [RingBuffer.full, beq_iff_eq] at hb
    simp only [RingBuffer.empty, beq_eq_false_iff_ne]
    omega
  room rbuf hs hnil := by
    have := free_of_contents_nil hnil
    simp only [RingBuffer.full, beq_eq_false_iff_ne]
    omega

/-- The wait is over after at most one sleep of the draining reader; later sleeps are kept. -/
theorem sleepWhile_returns {blocked : RingBuffer → Bool} {rx : Rx}
    (hd : Drains blocked rx.tsk.rcvBuf.size) : ∃ pre rx₁, Waited rx rx₁ ∧
      blocked rx₁.tsk.rcvBuf = false ∧ ∀ rest,
        sleepWhile blocked { rx with sleeps := pre ++ rest } (pre ++ rest) =
          some { rx₁ with sleeps := rest } := by
  have hstop : ∀ (rx : Rx) rest, blocked rx.tsk.rcvBuf = false →
      sleepWhile blocked rx rest = some { rx with sleeps := rest } := by
    intro rx rest hfree
    cases rest <;> simp [sleepWhile, hfree]
  by_cases hb : blocked rx.tsk.rcvBuf = true
  · have hne := hd.nonempty _ rfl hb
    have hfree : blocked rx.drained.tsk.rcvBuf = false :=
      hd.room _ (RingBuffer.read_size _ _) rx.drained_contents
    have hreads : ∀ (rx : Rx), rx.tsk.rcvBuf.empty = false →
        rx.reads [rx.tsk.rcvBuf.size] = some rx.drained := by
      intro rx hne
      simp [reads, TcpSock.sockRead, hne, drained]
    refine ⟨[[rx.tsk.rcvBuf.size]], rx.drained, reads_waited (hreads rx hne), hfree, fun rest => ?_⟩
    rw [List.singleton_append, sleepWhile]
    simp only [hb, if_true]
    rw [hreads { rx with sleeps := [rx.tsk.rcvBuf.size] :: rest } hne]
    exact hstop _ rest hfree
  · have hfree := Bool.eq_false_of_not_eq_true hb
    exact ⟨[], rx, .refl rx, hfree, fun rest => hstop _ rest hfree⟩

/-- Entries that can be written to a buffer of this size. -/
def Writable (size : Nat) (l : List RcvOfoEntry) : Prop :=
  ∀ entry ∈ l, entry.data ≠ [] ∧ entry.data.length < size

theorem putEntry_returns {rx : Rx} {entry : RcvOfoEntry} (rest : List RcvOfoEntry)
    (hne : entry.data ≠ []) (hlen : entry.data.length < rx.tsk.rcvBuf.size) :
    ∃ pre, ∃ rx₁ : Rx, ∀ sleeps,
      putEntry { rx with sleeps := pre ++ sleeps } entry rest = some { rx₁ with sleeps } := by
  have hd : Drains (fun rbuf => rbuf.free < entry.data.length)
      (rx.acknowledge entry.data.length).tsk.rcvBuf.size := by
    apply drains_free
    simpa [acknowledge, control] using hlen
  obtain ⟨pre, rx₁, -, hfree, hsleep⟩ := sleepWhile_returns hd
  have hroom : entry.data.length ≤ rx₁.tsk.rcvBuf.free := by simpa using hfree
  obtain ⟨rcvBuf, hwrite⟩ := (RingBuffer.write_eq_some_iff rx₁.tsk.rcvBuf entry.data).mpr ⟨hne, hroom⟩
  refine ⟨pre, { rx₁ with tsk := { rx₁.tsk with rcvBuf, rcvOfoBuf := rest } }, fun sleeps => ?_⟩
  have hsleep' := hsleep sleeps
  simp only [putEntry]
  rw [show acknowledge { rx with sleeps := pre ++ sleeps } entry.data.length =
    { rx.acknowledge entry.data.length with sleeps := pre ++ sleeps } from rfl, hsleep']
  simp only [hwrite]

theorem putRecvOfoBuf_returns {l : List RcvOfoEntry} (rx : Rx)
    (hl : Writable rx.tsk.rcvBuf.size l) : ∃ pre value, ∃ rx₁ : Rx, ∀ sleeps,
      putRecvOfoBuf { rx with sleeps := pre ++ sleeps } l = some (value, { rx₁ with sleeps }) := by
  induction l generalizing rx with
  | nil => exact ⟨[], 0, rx, fun sleeps => rfl⟩
  | cons entry rest ih =>
    obtain ⟨hne, hlen⟩ := hl entry (List.mem_cons_self ..)
    by_cases heq : rx.tsk.rcvNxt = entry.seq
    · obtain ⟨pre, rx₁, hput⟩ := putEntry_returns rest hne hlen
      have hsize : rx₁.tsk.rcvBuf.size = rx.tsk.rcvBuf.size := (putEntry_spec (hput [])).2.2.2.1
      obtain ⟨pre', value, rx₂, hrest⟩ :=
        ih rx₁ (show Writable rx₁.tsk.rcvBuf.size rest from fun e he => by
          rw [hsize]
          exact hl e (List.mem_cons_of_mem entry he))
      refine ⟨pre ++ pre', value, rx₂, fun sleeps => ?_⟩
      rw [List.append_assoc, putRecvOfoBuf, hput (pre' ++ sleeps)]
      simp only [heq, if_true]
      exact hrest sleeps
    · refine ⟨[], if lessThan32b rx.tsk.rcvNxt entry.seq then 0 else -1, rx, fun sleeps => ?_⟩
      simp only [putRecvOfoBuf, heq, if_false, List.nil_append]
      split <;> rfl

/-- A call on a non-empty segment that fits in the buffer returns. -/
theorem handleRecvData_returns {rx : Rx} {cb : TcpCb} (hne : cb.payload ≠ [])
    (hlen : cb.payload.length < rx.tsk.rcvBuf.size)
    (hl : Writable rx.tsk.rcvBuf.size rx.tsk.rcvOfoBuf) :
    ∃ sleeps rx', handleRecvData { rx with sleeps } cb = some rx' := by
  have hpos := List.length_pos_iff.mpr hne
  obtain ⟨pre, rx₁, ⟨buf, sleeps₁, taken, rfl, -, hsize⟩, -, hsleep⟩ :=
    sleepWhile_returns (drains_full (show 1 < rx.tsk.rcvBuf.size by omega))
  by_cases hold : lessThan32b cb.seq rx.tsk.rcvNxt = true
  · refine ⟨pre ++ [], ?_⟩
    simp only [handleRecvData, hsleep, accept, hold, if_true]
    exact ⟨_, rfl⟩
  · have hl₁ : Writable buf.size (TcpSock.insertOfo ⟨cb.seq, cb.payload⟩ rx.tsk.rcvOfoBuf) := by
      intro entry he
      rw [hsize]
      rcases TcpSock.mem_insertOfo he with rfl | he
      · exact ⟨hne, hlen⟩
      · exact hl entry he
    obtain ⟨pre', value, rx₂, hput⟩ := putRecvOfoBuf_returns
      { rx with tsk := TcpSock.addRecvOfoBufEntry { rx.tsk with rcvBuf := buf } cb, taken } hl₁
    refine ⟨pre ++ (pre' ++ []), ?_⟩
    simp only [handleRecvData, hsleep, accept, hold, Bool.false_eq_true, if_false]
    rw [show (TcpSock.addRecvOfoBufEntry { rx.tsk with rcvBuf := buf } cb).rcvOfoBuf =
      TcpSock.insertOfo ⟨cb.seq, cb.payload⟩ rx.tsk.rcvOfoBuf from rfl, hput []]
    exact ⟨_, rfl⟩

theorem putRecvOfoBuf_size {l : List RcvOfoEntry} {rx rx' : Rx} {value : Int}
    (h : rx.putRecvOfoBuf l = some (value, rx')) :
    rx'.tsk.rcvBuf.size = rx.tsk.rcvBuf.size := by
  induction l generalizing rx with
  | nil =>
    cases h
    rfl
  | cons entry rest ih =>
    simp only [putRecvOfoBuf] at h
    split at h
    · split at h
      · cases h
      · rename_i rx₁ hput
        exact (ih h).trans (putEntry_spec hput).2.2.2.1
    · split at h <;> cases h <;> rfl

theorem handleRecvData_size {rx rx' : Rx} {cb : TcpCb} (h : rx.handleRecvData cb = some rx') :
    rx'.tsk.rcvBuf.size = rx.tsk.rcvBuf.size := by
  simp only [handleRecvData] at h
  split at h
  · cases h
  · rename_i rx₁ hsleep
    obtain ⟨⟨buf, sleeps, taken, rfl, -, hsize⟩, -⟩ := sleepWhile_waited hsleep
    simp only [accept] at h
    split at h
    · cases h
      simpa [control] using hsize
    · split at h
      · cases h
      · rename_i value rx₂ hput
        cases h
        dsimp only
        rw [TcpSock.updateRetransTimer_eq]
        exact (putRecvOfoBuf_size hput).trans hsize

/-- With a reader that drains, and segments that fit in the buffer, every call returns. -/
theorem receiveAll_returns (hspan : 2 * cut.start n < 2 * cut.start 0 + 2 ^ 32)
    {arrivals : List Nat} {cbs : List TcpCb} (hcbs : List.Forall₂ (Carries isn cut) arrivals cbs)
    (hlt : ∀ i ∈ arrivals, i < n) {rx : Rx} {r : Reassembly U8} {k : Nat}
    (hfit : ∀ i < n, (cut.data i).length < rx.tsk.rcvBuf.size)
    (hr : Receives isn rx.tsk rx.taken r) (hw : Window 32 r) (hd : cut.Delivering n k r) :
    ∃ calls rx', calls.map Prod.fst = cbs ∧ rx.receiveAll calls = some rx' := by
  induction hcbs generalizing rx r k with
  | nil => exact ⟨[], rx, rfl, rfl⟩
  | @cons i cb arrivals cbs hcb _ ih =>
    obtain ⟨hseq, hpayload⟩ := hcb
    have hi := hlt i (List.mem_cons_self ..)
    have hfits := hd.fits hi hspan
    have hl : Writable rx.tsk.rcvBuf.size rx.tsk.rcvOfoBuf := by
      intro entry he
      rw [hr.held] at he
      obtain ⟨x, hx, rfl⟩ := List.mem_map.mp he
      obtain ⟨j, hj, rfl⟩ := hd.held x hx
      exact ⟨cut.data_ne j, hfit j hj⟩
    obtain ⟨sleeps, rx₁, hcall⟩ :=
      handleRecvData_returns (hpayload ▸ cut.data_ne i) (by rw [hpayload]; exact hfit i hi) hl
    have hr₀ : Receives isn { rx with sleeps }.tsk { rx with sleeps }.taken r := hr
    have hr₁ : Receives isn rx₁.tsk rx₁.taken (r.arrive (cut.piece i)) := by
      have := handleRecvData_receives hr₀ hw hseq (by rw [hpayload]; exact hfits) hcall
      rwa [hpayload] at this
    obtain ⟨k₁, hd₁⟩ := hd.arrive hi
    have hsize := handleRecvData_size hcall
    obtain ⟨calls, rx', hmap, hall⟩ := ih (fun j hj => hlt j (List.mem_cons_of_mem i hj))
      (fun j hj => by rw [hsize]; exact hfit j hj) hr₁ (hw.arrive hfits) hd₁
    refine ⟨(cb, sleeps) :: calls, rx', by rw [List.map_cons, hmap], ?_⟩
    rw [receiveAll, hcall]
    exact hall

/-! ### The result -/

/-- **When a transfer completes.** A socket that waits for the first of `n` segments,
which span less than `2^31` bytes, gets each of them at least once. However its reader
reads, once every call has returned the transfer is complete exactly if every repeated
segment came after all the segments before it; and when each segment fits in the ring
buffer, a reader that drains lets every call return. -/
theorem reassembly_complete_iff (isn : U32) (cut : Cut U8) (n : Nat)
    (hspan : cut.start n < cut.start 0 + 2 ^ 31) {tsk : TcpSock}
    (hnext : tsk.rcvNxt = Serial.nth isn (cut.start 0)) (hofo : tsk.rcvOfoBuf = [])
    (hempty : tsk.rcvBuf.contents = []) {arrivals : List Nat} (hall : ∀ i, i ∈ arrivals ↔ i < n)
    {cbs : List TcpCb} (hcbs : List.Forall₂ (Carries isn cut) arrivals cbs) :
    (∀ calls rx, calls.map Prod.fst = cbs → receiveAll ⟨tsk, [], [], []⟩ calls = some rx →
      (Complete isn cut n rx ↔ RepeatsLate arrivals)) ∧
    ((∀ i < n, (cut.data i).length < tsk.rcvBuf.size) →
      ∃ calls rx, calls.map Prod.fst = cbs ∧ receiveAll ⟨tsk, [], [], []⟩ calls = some rx) := by
  have hspan' : 2 * cut.start n < 2 * cut.start 0 + 2 ^ 32 := by omega
  have hr : Receives isn tsk [] ⟨cut.start 0, [], []⟩ := ⟨hnext, hofo, hempty⟩
  have hw : Window 32 (⟨cut.start 0, [], []⟩ : Reassembly U8) :=
    ⟨List.Pairwise.nil, by simp, by simp⟩
  have hd : cut.Delivering n 0 ⟨cut.start 0, [], []⟩ := ⟨Nat.zero_le n, rfl, rfl, by simp⟩
  have hlt : ∀ i ∈ arrivals, i < n := fun i hi => (hall i).mp hi
  constructor
  · intro calls rx heq hrun
    subst heq
    obtain ⟨hr', k, hd'⟩ :=
      receiveAll_receives hspan' (List.forall₂_map_right_iff.mp hcbs) hlt hr hw hd hrun
    have hmono := cut.start_strictMono.monotone
    have hk0 : cut.start 0 ≤ cut.start k := hmono (Nat.zero_le k)
    have hkn : cut.start k ≤ cut.start n := hmono hd'.le
    rw [← Cut.complete_iff (r := ⟨cut.start 0, [], []⟩) rfl rfl hall]
    constructor
    · intro hyp
      obtain ⟨-, hrcv, hnil⟩ := hyp
      refine ⟨?_, List.map_eq_nil_iff.mp (hr'.held.symm.trans hnil)⟩
      have hsame := hr'.next.symm.trans hrcv
      refine Serial.nth_inj ?_ hsame
      rw [hd'.next]
      constructor <;> omega
    · intro hyp
      obtain ⟨hend, hnil⟩ := hyp
      obtain rfl : k = n := cut.start_inj.mp (hd'.next.symm.trans hend)
      exact ⟨hr'.out.trans hd'.out, by rw [hr'.next, hend], by rw [hr'.held, hnil]; rfl⟩
  · intro hfit
    exact receiveAll_returns hspan' hcbs hlt hfit hr hw hd

/-- A stream of single-byte segments, byte `i` being `i`. -/
def singleBytes : Cut U8 where
  start i := i
  data i := [BitVec.ofNat 8 i]
  start_succ _ := rfl
  data_ne _ := List.cons_ne_nil _ _

/-- The data packet that carries byte `i` of it, numbered from 0. -/
def singleByte (i : Nat) : TcpCb :=
  ⟨0, 0, 0, 0, BitVec.ofNat 32 i, BitVec.ofNat 32 (i + 1), 0, 0, tcpPsh ||| tcpAck, [BitVec.ofNat 8 i]⟩

theorem singleByte_carries (i : Nat) : Carries 0 singleBytes i (singleByte i) :=
  ⟨(BitVec.zero_add _).symm, rfl⟩

/-- Bytes 1, 0, 2 in this order: nothing is repeated, and the transfer completes. -/
theorem reassembly_complete_three : ∃ calls rx,
    calls.map Prod.fst = [singleByte 1, singleByte 0, singleByte 2] ∧
      receiveAll ⟨allocTcpSock, [], [], []⟩ calls = some rx ∧
      (Complete 0 singleBytes 3 rx ↔ RepeatsLate [1, 0, 2]) := by
  have hall : ∀ i, i ∈ [1, 0, 2] ↔ i < 3 := by
    intro i
    simp only [List.mem_cons, List.not_mem_nil, or_false]
    omega
  have hcbs : List.Forall₂ (Carries 0 singleBytes) [1, 0, 2]
      [singleByte 1, singleByte 0, singleByte 2] :=
    .cons (singleByte_carries 1) (.cons (singleByte_carries 0) (.cons (singleByte_carries 2) .nil))
  have hnext : allocTcpSock.rcvNxt = Serial.nth 0 (singleBytes.start 0) := by decide
  obtain ⟨hiff, hreturns⟩ :=
    reassembly_complete_iff 0 singleBytes 3 (by decide) hnext rfl (RingBuffer.contents_alloc _)
      hall hcbs
  obtain ⟨calls, rx, hmap, hrun⟩ := hreturns (fun i _ => by show 1 < 65536; decide)
  exact ⟨calls, rx, hmap, hrun, hiff calls rx hmap hrun⟩

/-- Bytes 1, 1, 0, 2 in this order: the second copy of byte 1 stays at the head of the
list, and byte 2 is never written. -/
theorem duplicate_blocks : ∃ calls rx,
    calls.map Prod.fst = [singleByte 1, singleByte 1, singleByte 0, singleByte 2] ∧
      receiveAll ⟨allocTcpSock, [], [], []⟩ calls = some rx ∧
      rx.taken ++ rx.tsk.rcvBuf.contents = [0, 1] ∧ ¬Complete 0 singleBytes 3 rx := by
  have hrun : (receiveAll ⟨allocTcpSock, [], [], []⟩
      ([1, 1, 0, 2].map fun i => (singleByte i, []))).map
        (fun rx => (rx.taken ++ rx.tsk.rcvBuf.contents, rx.tsk.rcvNxt)) = some ([0, 1], 2) := by
    decide
  obtain ⟨rx, hrx, hend⟩ := Option.map_eq_some_iff.mp hrun
  obtain ⟨hout, hnxt⟩ := Prod.mk.inj hend
  refine ⟨_, rx, rfl, hrx, hout, ?_⟩
  intro hyp
  obtain ⟨-, hfull, -⟩ := hyp
  rw [hnxt] at hfull
  exact absurd hfull (by decide)

end Rx

end NetStack.Tcp
