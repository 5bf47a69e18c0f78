import NetStack.Lib.Run
import NetStack.Tcp.Sock
import NetStack.Tcp.SynchWait

/-! The reader and the receiver on `wait_recv` (`tcp_sock_read`, `handle_recv_data`,
`put_recv_ofo_buf_entry_to_ring_buf`).

One thread reads the ring buffer again and again and sleeps while it is empty; the
other takes segment after segment and sleeps while the buffer is full or too full for
the entry at hand. Every test, every read or write of the buffer and every locked part
of `sleep_on` and `wake_up` is one step. The reader tests an empty buffer, a whole
buffer of segments comes in, the receiver takes the notification it left for the reader,
and both sleep: `both_blocked`. Without such a step they never do, and every such step
ends that way: `never_both_blocked`. The acknowledgements and windows of the receive
path, which touch neither the buffer nor `wait_recv`, are left out. -/
namespace NetStack.Tcp.ReadWait

/-- What the receiver is about: between segments, at `while (ring_buffer_full)` for a
segment, or putting the entry at the front of the out-of-order list. -/
inductive Job where
  | idle
  | recv (cb : TcpCb)
  | put (entry : RcvOfoEntry) (rest : List RcvOfoEntry)
deriving DecidableEq, Repr

/-- The condition of the loop the receiver sleeps in. -/
def Job.blocked (job : Job) (rbuf : RingBuffer) : Bool :=
  match job with
  | .idle => false
  | .recv _ => rbuf.full
  | .put entry _ => entry.data.length > rbuf.free

/-- The two threads, what they share, and the segments still to come. -/
structure State where
  rbuf : RingBuffer
  wait : SynchWait
  reader : Stand
  receiver : Stand
  job : Job
  rcvNxt : U32
  rcvOfoBuf : List RcvOfoEntry
  segments : List TcpCb

/-- A fresh socket's buffer of `n` bytes, with both threads at their first test. -/
def start (n : Nat) (rcvNxt : U32) (segments : List TcpCb) : State where
  rbuf := .alloc n
  wait := .init
  reader := .test
  receiver := .test
  job := .idle
  rcvNxt
  rcvOfoBuf := []
  segments

/-- `put_recv_ofo_buf_entry_to_ring_buf` at the front of what is left of the list: on to
an entry that joins on, otherwise back for the next segment. -/
def State.scan (s : State) : List RcvOfoEntry → State
  | [] => { s with job := .idle }
  | entry :: rest =>
    if s.rcvNxt = entry.seq then
      { s with
        rcvNxt := s.rcvNxt + BitVec.ofNat 32 entry.data.length
        job := .put entry rest }
    else { s with job := .idle }

/-- `handle_recv_data` after its first loop. -/
def State.accept (s : State) (cb : TcpCb) : State :=
  if lessThan32b cb.seq s.rcvNxt then { s with job := .idle }
  else
    let rcvOfoBuf := TcpSock.insertOfo ⟨cb.seq, cb.payload⟩ s.rcvOfoBuf
    { s with rcvOfoBuf }.scan rcvOfoBuf

inductive Action where
  -- the reader, with the length the application asks for
  | readTest | readSleep | readAwake | read (len : Nat) | readWake
  -- the receiver
  | next | recvTest | recvSleep | recvAwake | write | recvWake
deriving DecidableEq, Repr

/-- One step, where the thread stands before it. A wait may end without a signal. -/
def step (s : State) : Action → Option State
  | .readTest =>
    if s.reader = .test then
      some { s with reader := if s.rbuf.empty then .enter else .copy }
    else none
  | .readSleep =>
    if s.reader = .enter then
      some { s with reader := s.wait.sleepOn.1, wait := s.wait.sleepOn.2 }
    else none
  | .readAwake =>
    if s.reader = .waiting ∨ s.reader = .woken then
      some { s with reader := .test, wait := .awake }
    else none
  | .read len =>
    if s.reader = .copy then
      some { s with reader := .announce, rbuf := (s.rbuf.read len).2 }
    else none
  | .readWake =>
    if s.reader = .announce then
      some { s with
        reader := .test
        wait := (s.wait.wakeUp s.receiver).1
        receiver := (s.wait.wakeUp s.receiver).2 }
    else none
  | .next =>
    match s.job, s.segments with
    | .idle, cb :: segments =>
      if s.receiver = .test then some { s with job := .recv cb, segments } else none
    | _, _ => none
  | .recvTest =>
    if s.receiver = .test then
      if s.job.blocked s.rbuf then some { s with receiver := .enter }
      else
        match s.job with
        | .idle => none
        | .recv cb => some (s.accept cb)
        | .put _ _ => some { s with receiver := .copy }
    else none
  | .recvSleep =>
    if s.receiver = .enter then
      some { s with receiver := s.wait.sleepOn.1, wait := s.wait.sleepOn.2 }
    else none
  | .recvAwake =>
    if s.receiver = .waiting ∨ s.receiver = .woken then
      some { s with receiver := .test, wait := .awake }
    else none
  | .write =>
    match s.job with
    | .put entry _ =>
      if s.receiver = .copy then
        match s.rbuf.write entry.data with
        | none => none
        | some rbuf => some { s with receiver := .announce, rbuf }
      else none
    | _ => none
  | .recvWake =>
    match s.job with
    | .put _ rest =>
      if s.receiver = .announce then
        -- the entry is deleted and the walk goes on behind it
        some ({ s with
          receiver := .test
          wait := (s.wait.wakeUp s.reader).1
          reader := (s.wait.wakeUp s.reader).2
          rcvOfoBuf := rest }.scan rest)
      else none
    | _ => none

/-- Both threads are blocked on `wait_recv`. -/
def State.Blocked (s : State) : Prop := s.reader = .waiting ∧ s.receiver = .waiting

/-- A `sleep_on` that takes a notification while the other thread is about to sleep, or
asleep, finds that thread's reason still there: the notification is not the one it
needs. -/
def Timely (s : State) : Action → Prop
  | .readSleep =>
    s.wait.notified = true → s.receiver.Sleepy → s.job.blocked s.rbuf = true
  | .recvSleep => s.wait.notified = true → s.reader.Sleepy → s.rbuf.empty = true
  | _ => True

instance (s : State) (a : Action) : Decidable (Timely s a) := by
  cases a <;> unfold Timely <;> infer_instance

abbrev Step (s : State) (a : Action) (t : State) : Prop := step s a = some t

/-! ### Every segment fits the buffer -/

def Job.Fits (n : Nat) : Job → Prop
  | .idle => True
  | .recv cb => cb.payload.length ≤ n
  | .put entry rest => entry.data.length ≤ n ∧ ∀ e ∈ rest, e.data.length ≤ n

/-- The buffer has its size, and what there is to put into it is no longer than that. -/
structure Fits (n : Nat) (s : State) : Prop where
  size : s.rbuf.size = n + 1
  segments : ∀ cb ∈ s.segments, cb.payload.length ≤ n
  rcvOfoBuf : ∀ entry ∈ s.rcvOfoBuf, entry.data.length ≤ n
  job : s.job.Fits n

/-- An empty buffer blocks no receiver. -/
theorem Fits.exclusive {n : Nat} {s : State} (h : Fits n s) (hn : 0 < n)
    (hempty : s.rbuf.empty = true) : s.job.blocked s.rbuf = false := by
  have hfree : s.rbuf.free = n := by
    have hsize := s.rbuf.used_add_free
    rw [RingBuffer.empty, beq_iff_eq] at hempty
    have := h.size
    omega
  have hjob := h.job
  unfold Job.blocked
  cases hj : s.job with
  | idle => rfl
  | recv cb =>
    rw [RingBuffer.full, hfree]
    simp only [beq_eq_false_iff_ne]
    omega
  | put entry rest =>
    rw [hj] at hjob
    have := hjob.1
    simp only [hfree, decide_eq_false_iff_not]
    omega

theorem scan_fits {n : Nat} {s : State} (h : Fits n s) {l : List RcvOfoEntry}
    (hl : ∀ entry ∈ l, entry.data.length ≤ n) : Fits n (s.scan l) := by
  unfold State.scan
  split
  · exact { h with job := trivial }
  · split
    · exact { h with job := ⟨hl _ List.mem_cons_self, fun e he => hl e (List.mem_cons_of_mem _ he)⟩ }
    · exact { h with job := trivial }

theorem accept_fits {n : Nat} {s : State} (h : Fits n s) {cb : TcpCb} (hcb : cb.payload.length ≤ n) :
    Fits n (s.accept cb) := by
  unfold State.accept
  split
  · exact { h with job := trivial }
  · have hl : ∀ entry ∈ TcpSock.insertOfo ⟨cb.seq, cb.payload⟩ s.rcvOfoBuf, entry.data.length ≤ n := by
      intro entry hentry
      cases TcpSock.mem_insertOfo hentry with
      | inl heq => rw [heq]; exact hcb
      | inr hold => exact h.rcvOfoBuf entry hold
    refine scan_fits ?_ hl
    exact ⟨h.size, h.segments, hl, h.job⟩

/-! ### What a step keeps -/

structure Inv (n : Nat) (s : State) : Prop where
  fits : Fits n s
  paired : Paired s.wait s.reader s.receiver (s.rbuf.empty = true) (s.job.blocked s.rbuf = true)

theorem inv_start (n : Nat) (rcvNxt : U32) {segments : List TcpCb}
    (hlen : ∀ cb ∈ segments, cb.payload.length ≤ n) : Inv n (start n rcvNxt segments) where
  fits := ⟨rfl, hlen, fun _ h => (nomatch h), trivial⟩
  paired := ⟨.of_awake Paired.not_sleepy_test, .of_awake Paired.not_sleepy_test,
    fun h => absurd h Paired.not_sleepy_test⟩

/-- Only the job changes when the receiver goes on from its test or its write. -/
theorem scan_eq (s : State) (l : List RcvOfoEntry) :
    s.scan l = { s with job := (s.scan l).job, rcvNxt := (s.scan l).rcvNxt } := by
  unfold State.scan
  split
  · rfl
  · split <;> rfl

theorem accept_eq (s : State) (cb : TcpCb) :
    s.accept cb = { s with
      job := (s.accept cb).job
      rcvNxt := (s.accept cb).rcvNxt
      rcvOfoBuf := (s.accept cb).rcvOfoBuf } := by
  unfold State.accept
  split
  · rfl
  · simp only
    rw [scan_eq]

/-- The receiver takes the next segment. -/
theorem Inv.next {n : Nat} {s s' : State} (h : Inv n s) (hstep : Step s .next s') : Inv n s' := by
  obtain ⟨hfits, hpaired⟩ := h
  simp only [Step, step] at hstep
  split at hstep
  · rename_i cb segments hjob hsegments
    split at hstep
    · rename_i htest
      obtain rfl := Option.some.inj hstep
      have hlen := hfits.segments
      rw [hsegments] at hlen
      rw [htest] at hpaired
      refine ⟨⟨hfits.size, fun c hc => hlen c (List.mem_cons_of_mem cb hc), hfits.rcvOfoBuf,
        hlen cb List.mem_cons_self⟩, ?_⟩
      simp only [htest]
      exact hpaired.symm.move.symm
    · cases hstep
  · cases hstep

/-- It finds no room, or goes on to what it has tested for. -/
theorem Inv.recvTest {n : Nat} {s s' : State} (h : Inv n s) (hstep : Step s .recvTest s') : Inv n s' := by
  obtain ⟨hfits, hpaired⟩ := h
  simp only [Step, step] at hstep
  split at hstep
  · rename_i htest
    rw [htest] at hpaired
    split at hstep
    · rename_i hblocked
      obtain rfl := Option.some.inj hstep
      exact ⟨{ hfits with }, (hpaired.symm.enter hblocked).symm⟩
    · split at hstep
      · cases hstep
      · rename_i cb hjob
        obtain rfl := Option.some.inj hstep
        have hcb := hfits.job
        rw [hjob] at hcb
        refine ⟨accept_fits hfits hcb, ?_⟩
        rw [accept_eq]
        simp only [htest]
        exact hpaired.symm.move.symm
      · obtain rfl := Option.some.inj hstep
        exact ⟨{ hfits with }, hpaired.symm.copy.symm⟩
  · cases hstep

/-- It puts an entry into the buffer, -/
theorem Inv.write {n : Nat} {s s' : State} (h : Inv n s) (hstep : Step s .write s') : Inv n s' := by
  obtain ⟨hfits, hpaired⟩ := h
  simp only [Step, step] at hstep
  split at hstep
  · split at hstep
    · split at hstep
      · cases hstep
      · rename_i rbuf hwrite
        obtain rfl := Option.some.inj hstep
        exact ⟨{ hfits with size := (RingBuffer.write_used hwrite).2.trans hfits.size },
          Paired.announce.symm⟩
    · cases hstep
  · cases hstep

/-- and tells the reader. -/
theorem Inv.recvWake {n : Nat} {s s' : State} (h : Inv n s) (hstep : Step s .recvWake s') : Inv n s' := by
  obtain ⟨hfits, hpaired⟩ := h
  simp only [Step, step] at hstep
  split at hstep
  · rename_i entry rest hjob
    split at hstep
    · obtain rfl := Option.some.inj hstep
      have hrest := hfits.job
      rw [hjob] at hrest
      refine ⟨scan_fits ?_ hrest.2, ?_⟩
      · exact ⟨hfits.size, hfits.segments, hrest.2, hfits.job⟩
      · rw [scan_eq]
        exact Paired.wakeUp.symm
    · cases hstep
  · cases hstep

theorem inv_step {n : Nat} (s : State) (a : Action) (s' : State) (h : Inv n s) (ha : Timely s a)
    (hstep : Step s a s') : Inv n s' := by
  have hfits := h.fits
  have hpaired := h.paired
  cases a with
  | readTest =>
    simp only [Step, step] at hstep
    split at hstep
    · rename_i htest
      obtain rfl := Option.some.inj hstep
      rw [htest] at hpaired
      refine ⟨{ hfits with }, ?_⟩
      simp only
      split
      · exact hpaired.enter ‹_›
      · exact hpaired.copy
    · cases hstep
  | readSleep =>
    simp only [Step, step] at hstep
    split at hstep
    · rename_i henter
      obtain rfl := Option.some.inj hstep
      rw [henter] at hpaired
      exact ⟨{ hfits with }, hpaired.sleepOn ha⟩
    · cases hstep
  | readAwake =>
    simp only [Step, step] at hstep
    split at hstep
    · obtain rfl := Option.some.inj hstep
      exact ⟨{ hfits with }, hpaired.awake ‹_›⟩
    · cases hstep
  | read len =>
    simp only [Step, step] at hstep
    split at hstep
    · obtain rfl := Option.some.inj hstep
      exact ⟨{ hfits with size := (s.rbuf.read_size len).trans hfits.size }, .announce⟩
    · cases hstep
  | readWake =>
    simp only [Step, step] at hstep
    split at hstep
    · obtain rfl := Option.some.inj hstep
      exact ⟨{ hfits with }, .wakeUp⟩
    · cases hstep
  | next => exact Inv.next h hstep
  | recvTest => exact Inv.recvTest h hstep
  | recvSleep =>
    simp only [Step, step] at hstep
    split at hstep
    · rename_i henter
      obtain rfl := Option.some.inj hstep
      rw [henter] at hpaired
      exact ⟨{ hfits with }, (hpaired.symm.sleepOn ha).symm⟩
    · cases hstep
  | recvAwake =>
    simp only [Step, step] at hstep
    split at hstep
    · obtain rfl := Option.some.inj hstep
      exact ⟨{ hfits with }, (hpaired.symm.awake ‹_›).symm⟩
    · cases hstep
  | write => exact Inv.write h hstep
  | recvWake => exact Inv.recvWake h hstep

/-- Both threads waiting would wait for opposite things. -/
theorem Inv.not_blocked {n : Nat} {s : State} (h : Inv n s) (hn : 0 < n) : ¬ s.Blocked := by
  intro hyp
  obtain ⟨hreader, hreceiver⟩ := hyp
  have hpaired := h.paired
  rw [hreader, hreceiver] at hpaired
  obtain ⟨hempty, hblocked⟩ := hpaired.both_waiting
  rw [h.fits.exclusive hn hempty] at hblocked
  cases hblocked

/-! ### Whole schedules -/

/-- With nothing to read and no notification the reader sleeps. -/
theorem reader_sleeps {s : State} (htest : s.reader = .test) (hempty : s.rbuf.empty = true)
    (hwait : s.wait.notified = false) :
    Run Step s [.readTest, .readSleep]
      { s with reader := .waiting, wait := { s.wait with sleep := true } } :=
  .cons (t := { s with reader := .enter }) (by simp [Step, step, htest, hempty])
    (.cons (by simp [Step, step, SynchWait.sleepOn, hwait]) (.nil _))

/-- With no room and no notification the receiver sleeps. -/
theorem receiver_sleeps {s : State} (htest : s.receiver = .test)
    (hblocked : s.job.blocked s.rbuf = true) (hwait : s.wait.notified = false) :
    Run Step s [.recvTest, .recvSleep]
      { s with receiver := .waiting, wait := { s.wait with sleep := true } } :=
  .cons (t := { s with receiver := .enter }) (by simp [Step, step, htest, hblocked])
    (.cons (by simp [Step, step, SynchWait.sleepOn, hwait]) (.nil _))

/-- After an untimely `sleep_on` the thread tests in vain and sleeps, and so does the
other, whose notification is gone. -/
theorem untimely_blocks {n : Nat} {s t : State} (h : Inv n s) {a : Action} (hstep : Step s a t)
    (ha : ¬ Timely s a) : ∃ more u, Run Step t more u ∧ u.Blocked := by
  have hpaired := h.paired
  cases a with
  | readSleep =>
    simp only [Timely, not_forall] at ha
    obtain ⟨hnotified, hsleepy, hother⟩ := ha
    simp only [Step, step, SynchWait.sleepOn, hnotified] at hstep
    split at hstep
    · rename_i henter
      obtain rfl := Option.some.inj hstep
      rw [henter] at hpaired
      have hrun := reader_sleeps (s := { s with reader := .test, wait := ⟨false, false⟩ }) rfl
        (hpaired.untimely hsleepy hother) rfl
      cases hsleepy with
      | inl hreceiver =>
        refine ⟨_, _, hrun.snoc (e := .recvSleep) (u := { s with
          reader := .waiting, receiver := .waiting, wait := ⟨false, true⟩ }) ?_, rfl, rfl⟩
        simp [Step, step, SynchWait.sleepOn, hreceiver]
      | inr hreceiver => exact ⟨_, _, hrun, rfl, hreceiver⟩
    · cases hstep
  | recvSleep =>
    simp only [Timely, not_forall] at ha
    obtain ⟨hnotified, hsleepy, hother⟩ := ha
    simp only [Step, step, SynchWait.sleepOn, hnotified] at hstep
    split at hstep
    · rename_i henter
      obtain rfl := Option.some.inj hstep
      rw [henter] at hpaired
      have hrun := receiver_sleeps (s := { s with receiver := .test, wait := ⟨false, false⟩ }) rfl
        (hpaired.symm.untimely hsleepy hother) rfl
      cases hsleepy with
      | inl hreader =>
        refine ⟨_, _, hrun.snoc (e := .readSleep) (u := { s with
          reader := .waiting, receiver := .waiting, wait := ⟨false, true⟩ }) ?_, rfl, rfl⟩
        simp [Step, step, SynchWait.sleepOn, hreader]
      | inr hreader => exact ⟨_, _, hrun, hreader, rfl⟩
    · cases hstep
  | _ => exact absurd trivial ha

/-- **Reader and receiver never sleep together.** For every capacity, every sequence of
segments no longer than it and every schedule, as long as no `sleep_on` takes the
notification the other thread needs, no state has both threads blocked; and after a
first `sleep_on` that does, a few steps block both. -/
theorem never_both_blocked (n : Nat) (hn : 0 < n) (rcvNxt : U32) (segments : List TcpCb)
    (hlen : ∀ cb ∈ segments, cb.payload.length ≤ n) (actions : List Action)
    (htimely : Along Step Timely (start n rcvNxt segments) actions) :
    Throughout Step (fun s => ¬ s.Blocked) (start n rcvNxt segments) actions ∧
      ∀ s a t, Run Step (start n rcvNxt segments) actions s → Step s a t → ¬ Timely s a →
        ∃ more u, Run Step t more u ∧ u.Blocked := by
  have hstart := inv_start n rcvNxt hlen
  refine ⟨(htimely.throughout inv_step hstart).mono fun s hs => hs.not_blocked hn, ?_⟩
  intro s a t hrun hstep ha
  exact untimely_blocks (hrun.invariant inv_step htimely hstart) hstep ha

/-- A segment of `data` at `seq`. -/
def segment (seq : U32) (data : List U8) : TcpCb where
  saddr := 0
  daddr := 0
  sport := 0
  dport := 0
  seq
  seqEnd := seq + BitVec.ofNat 32 data.length
  ack := 0
  rwnd := 0
  flags := tcpAck
  payload := data

/-- Two segments through a buffer of one byte: the receiver sleeps once, is woken by the
read, and the reader sleeps at the end. -/
def inTurn : List Action :=
  [.next, .recvTest, .recvTest, .write, .recvWake, .next, .recvTest, .recvSleep,
    .recvTest, .recvSleep, .readTest, .read 1, .readWake, .recvAwake, .recvTest, .recvTest,
    .write, .recvWake, .readTest, .read 1, .readWake, .readTest, .readSleep, .readTest, .readSleep]

theorem inTurn_never_blocked :
    Throughout Step (fun s => ¬ s.Blocked) (start 1 0 [segment 0 [1], segment 1 [2]]) inTurn :=
  (never_both_blocked 1 (by decide) 0 [segment 0 [1], segment 1 [2]] (by decide) inTurn
    (.of_checkAll (by decide))).1

/-- The reader finds the buffer of one byte empty and is about to sleep. Two segments
come in: the receiver puts the first, finds no room for the second, takes the
notification it left and sleeps. The reader sleeps too. -/
theorem both_blocked :
    ¬ Throughout Step (fun s => ¬ s.Blocked) (start 1 0 [segment 0 [1], segment 1 [2]])
      [.readTest, .next, .recvTest, .recvTest, .write, .recvWake, .next, .recvTest, .recvSleep,
        .recvTest, .recvSleep, .readSleep] := by
  intro h
  have hsome : (runAll step (start 1 0 [segment 0 [1], segment 1 [2]])
      [.readTest, .next, .recvTest, .recvTest, .write, .recvWake, .next, .recvTest, .recvSleep,
        .recvTest, .recvSleep, .readSleep]).isSome = true := by decide
  exact h.last (Run.of_isSome hsome) ⟨rfl, rfl⟩

end NetStack.Tcp.ReadWait
