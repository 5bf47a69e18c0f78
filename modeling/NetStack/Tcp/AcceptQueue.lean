import NetStack.Lib.LinkedList
import NetStack.Lib.Run
import NetStack.Tcp.In

/-! The queues of a listening socket (`tcp_sock_listen_enqueue`, `tcp_sock_accept_enqueue`,
`tcp_sock_accept` in `tcp_sock.c` of `EXP18-TCP_Stack_4/code/18-tcp_stack`).

A child stays in `TCP_SYN_RECV` until the application accepts it, and the segment that ended
its handshake can come again. Its node then only moves to the tail of the queue it is in,
but `accept_backlog` counts it once more. The queues and the counter agree as long as no
child is counted again (`accounted_iff`). -/
namespace NetStack.Tcp
open LinkedList (Heap Node Links Represents)

/-- The two queues of the listener. -/
inductive Queue
  | listen | accept
deriving DecidableEq, Repr

/-- The listener, socket 0, and the children allocated so far, with the heads of its queues
and the node `list` of each socket; and for the record the children whose handshake was
completed while the queue was not full, and those `tcp_sock_accept` returned. -/
structure AcceptQueues where
  socks : Nat → TcpSock
  allocated : Nat
  nodes : Heap Queue Nat
  completed : List Nat
  accepted : List Nat

namespace AcceptQueues

/-- A fresh socket that `tcp_sock_listen` has made a listener. -/
def start (backlog : Int) : AcceptQueues where
  socks _ := { allocTcpSock with backlog, state := .listen }
  allocated := 1
  nodes node := ⟨some node, some node⟩
  completed := []
  accepted := []

/-- The body of `tcp_sock_listen_enqueue` and of `tcp_sock_accept_enqueue`. -/
def enqueue (nodes : Heap Queue Nat) (id : Nat) (queue : Queue) : Option (Heap Queue Nat) :=
  (if nodes.isEmpty (.entry id) then some nodes else nodes.deleteEntry (.entry id)).bind fun nodes =>
    nodes.addTail (.entry id) (.head queue)

/-- `tcp_sock_listen_enqueue`. -/
def listenEnqueue (s : AcceptQueues) (id : Nat) : Option AcceptQueues :=
  (enqueue s.nodes id .listen).map fun nodes => { s with nodes }

/-- Change `accept_backlog`. -/
def recount (change : Int) (tsk : TcpSock) : TcpSock :=
  { tsk with acceptBacklog := tsk.acceptBacklog + change }

/-- `tcp_sock_accept_enqueue`; the parent of every child is the listener. -/
def acceptEnqueue (s : AcceptQueues) (id : Nat) : Option AcceptQueues :=
  (enqueue s.nodes id .accept).map fun nodes =>
    { s with nodes, socks := Function.update s.socks 0 (recount 1 (s.socks 0)) }

/-- `tcp_sock_accept_dequeue`. -/
def acceptDequeue (s : AcceptQueues) : Option (Nat × AcceptQueues) :=
  match (s.nodes (.head .accept)).next with
  | some (.entry id) =>
    (s.nodes.deleteEntry (.entry id)).map fun nodes =>
      (id, { s with
        nodes := nodes.init (.entry id)
        socks := Function.update s.socks 0 (recount (-1) (s.socks 0)) })
  | _ => none

/-- A SYN, served by the listener: the child starts as a copy of it, its node included. The
listener may be in any state, so that there can be any number of children. -/
def syn (s : AcceptQueues) (iss : U32) (cb : TcpCb) : Option AcceptQueues :=
  let outcome := (s.socks 0).processListen 0 iss cb
  match outcome.child with
  | none => none
  | some child =>
    let id := s.allocated
    let s := { s with
      socks := Function.update (Function.update s.socks 0 outcome.tsk) id child
      nodes := Function.update s.nodes (.entry id) (s.nodes (.entry 0))
      allocated := s.allocated + 1 }
    s.listenEnqueue id

/-- The socket is a child that waits for its handshake to end, or to be accepted. -/
def Pending (s : AcceptQueues) (id : Nat) : Prop :=
  0 < id ∧ id < s.allocated ∧ (s.socks id).state = .synRecv

instance (s : AcceptQueues) (id : Nat) : Decidable (s.Pending id) := inferInstanceAs (Decidable (_ ∧ _ ∧ _))

/-- A segment received by a child in `TCP_SYN_RECV`. -/
def segment (s : AcceptQueues) (now : Int) (iss : U32) (sleeps : List (List Nat)) (id : Nat) (cb : TcpCb) :
    Option AcceptQueues :=
  if s.Pending id then
    match tcpProcess now id iss (some (s.socks 0)) sleeps (s.socks id) cb with
    | none => none
    | some outcome =>
      let s := { s with socks := Function.update s.socks id outcome.tsk }
      if outcome.acceptEnqueue then { s with completed := s.completed ++ [id] }.acceptEnqueue id else some s
  else none

/-- `tcp_sock_accept`, once there is something in the queue. -/
def accept (s : AcceptQueues) : Option AcceptQueues :=
  if s.nodes.isEmpty (.head .accept) then none
  else
    match s.acceptDequeue with
    | none => none
    | some (id, s) => some { s with
        socks := Function.update s.socks id
          { s.socks id with state := .established, nrState := .open, cwnd := 1, ssthresh := 16 }
        accepted := s.accepted ++ [id] }

/-- What happens to the listener and its children, with what a packet needs from outside. -/
inductive Event
  | syn (iss : U32) (cb : TcpCb)
  | segment (now : Int) (iss : U32) (sleeps : List (List Nat)) (id : Nat) (cb : TcpCb)
  | accept

def step (s : AcceptQueues) : Event → Option AcceptQueues
  | .syn iss cb => s.syn iss cb
  | .segment now iss sleeps id cb => s.segment now iss sleeps id cb
  | .accept => s.accept

abbrev Step (s : AcceptQueues) (e : Event) (t : AcceptQueues) : Prop := s.step e = some t

/-- The queues and the counter agree: `accept_backlog` is the length of the accept queue and
within `backlog`, no child is in two places, and the accepts that empty the queue end with
every child that completed its handshake returned once, and no other. -/
structure Accounted (s : AcceptQueues) (queues : Queue → List Nat) : Prop where
  represents : Represents s.nodes queues
  backlog : (s.socks 0).acceptBacklog = (queues .accept).length
  room : (s.socks 0).acceptBacklog ≤ (s.socks 0).backlog
  apart : (queues .listen ++ queues .accept).Nodup
  once : ∃ t, runAll step s (List.replicate (queues .accept).length .accept) = some t ∧
    ∀ id, t.accepted.count id = if id ∈ s.completed then 1 else 0

def Kept (s : AcceptQueues) : Prop := ∃ queues, s.Accounted queues

/-- A segment that `tcp_process` counts as the end of a child's handshake. -/
def Counts (s : AcceptQueues) (id : Nat) (cb : TcpCb) : Prop :=
  s.Pending id ∧ hasFlag cb.flags tcpRst = false ∧ hasFlag cb.flags tcpAck = true ∧
    (s.socks 0).acceptQueueFull = false ∧ (s.socks id).isTcpSeqValid cb = true

/-- No segment that counts reaches a child whose handshake is completed. -/
def Once (s : AcceptQueues) : Event → Prop
  | .syn _ _ | .accept => True
  | .segment _ _ _ id cb => s.Counts id cb → id ∉ s.completed

variable {s t : AcceptQueues} {queues : Queue → List Nat} {nodes nodes' : Heap Queue Nat} {id : Nat}

/-! ### The queues -/

/-- What becomes of the queues when a child joins the accept queue. -/
def joined (queues : Queue → List Nat) (id : Nat) : Queue → List Nat
  | .listen => (queues .listen).erase id
  | .accept => (queues .accept).erase id ++ [id]

/-- **A child of either queue** joins the accept queue at its tail, and leaves where it was. -/
theorem enqueue_queued (hrep : Represents nodes queues) {q : Queue} (hmem : id ∈ queues q) :
    ∃ nodes', enqueue nodes id .accept = some nodes' ∧ Represents nodes' (joined queues id) ∧
      ∀ f, (∀ u, f ∉ queues u) → nodes' (.entry f) = nodes (.entry f) := by
  have hlinked : LinkedList.Linked nodes q id := hrep.linked_iff.mpr hmem
  obtain ⟨unlinked, hdelete, hrep', hframe⟩ := hrep.deleteEntry hmem
  have hgone : ∀ u, id ∉ Function.update queues q ((queues q).erase id) u := by
    intro u
    by_cases hu : u = q
    · subst hu
      rw [Function.update_self]
      exact (hrep u).nodup.not_mem_erase
    · rw [Function.update_of_ne hu]
      exact fun hmem' => hu (hrep.disjoint hmem' hmem)
  obtain ⟨nodes', hadd, hrep'', hframe'⟩ := hrep'.addTail hgone .accept
  refine ⟨nodes', ?_, ?_, fun f hf => ?_⟩
  · simp only [enqueue, hlinked.isEmpty, Bool.false_eq_true, if_false, hdelete, Option.bind_some, hadd]
  · have herase : ∀ u, Function.update queues q ((queues q).erase id) u = (queues u).erase id := by
      intro u
      by_cases hu : u = q
      · subst hu
        rw [Function.update_self]
      · rw [Function.update_of_ne hu, List.erase_of_not_mem fun hmem' => hu (hrep.disjoint hmem' hmem)]
    have hqueues : Function.update (Function.update queues q ((queues q).erase id)) .accept
        (Function.update queues q ((queues q).erase id) .accept ++ [id]) = joined queues id := by
      funext u
      cases u with
      | listen => rw [Function.update_of_ne (by decide), herase, joined]
      | accept => rw [Function.update_self, herase, joined]
    rwa [hqueues] at hrep''
  · have hne : f ≠ id := by
      intro heq
      obtain rfl := heq
      exact hf q hmem
    rw [hframe' f hne, hframe f fun hmem' => hf q (List.mem_of_mem_erase hmem')]
    intro u
    by_cases hu : u = q
    · subst hu
      rw [Function.update_self]
      exact fun hmem' => hf u (List.mem_of_mem_erase hmem')
    · rw [Function.update_of_ne hu]
      exact hf u

/-- A new child's node, a copy of the listener's, unlinks the listener's from itself, which
changes nothing, and joins the listen queue. -/
theorem enqueue_copied (hrep : Represents nodes queues)
    (hself : nodes (.entry 0) = ⟨some (.entry 0), some (.entry 0)⟩) (hzero : id ≠ 0)
    (hnew : ∀ u, id ∉ queues u) :
    ∃ nodes', enqueue (Function.update nodes (.entry id) (nodes (.entry 0))) id .listen = some nodes' ∧
      Represents nodes' (Function.update queues .listen (queues .listen ++ [id])) ∧
      ∀ f, f ≠ id → (∀ u, f ∉ queues u) → nodes' (.entry f) = nodes (.entry f) := by
  let copied : Heap Queue Nat := Function.update nodes (.entry id) (nodes (.entry 0))
  have hother : ∀ n, n ≠ .entry id → copied n = nodes n := fun n hn => Function.update_of_ne hn ..
  have hcopy : copied (.entry id) = ⟨some (.entry 0), some (.entry 0)⟩ := by
    rw [← hself]
    exact Function.update_self ..
  have hzero' : (Node.entry 0 : Node Queue Nat) ≠ .entry id := fun heq => hzero (Node.entry.inj heq).symm
  have hempty : copied.isEmpty (.entry id) = false := by
    simp [Heap.isEmpty, hcopy, hzero']
  have hdelete : copied.deleteEntry (.entry id) = some copied := by
    rw [Heap.deleteEntry_eq (p := .entry 0) (q := .entry 0) (by rw [hcopy]) (by rw [hcopy])]
    congr 1
    funext n
    refine Links.ext ?_ ?_
    · rw [copied.unlink_next]
      split
      · rename_i hn
        rw [hn, hother _ hzero', hself]
      · rfl
    · rw [copied.unlink_prev]
      split
      · rename_i hn
        rw [hn, hother _ hzero', hself]
      · rfl
  have hrep' : Represents copied queues := by
    refine fun u => (hrep u).congr fun n hn => hother n ?_
    intro hsame
    obtain rfl := hsame
    simp at hn
    exact hnew u hn
  obtain ⟨nodes', hadd, hrep'', hframe⟩ := hrep'.addTail hnew .listen
  refine ⟨nodes', ?_, hrep'', fun f hf hun => ?_⟩
  · simp only [enqueue]
    rw [hempty, hdelete]
    exact hadd
  · rw [hframe f hf hun]
    exact hother _ fun heq => hf (Node.entry.inj heq)

/-- What the events keep. -/
structure Sound (s : AcceptQueues) (queues : Queue → List Nat) : Prop where
  represents : Represents s.nodes queues
  own : s.nodes (.entry 0) = ⟨some (.entry 0), some (.entry 0)⟩
  listener : 0 < s.allocated
  member : ∀ q, ∀ id ∈ queues q, 0 < id ∧ id < s.allocated
  accepted : ∀ id ∈ s.accepted, 0 < id ∧ id < s.allocated ∧ (s.socks id).state ≠ .synRecv
  pending : ∀ id, s.Pending id → ∃ q, id ∈ queues q
  backlog : (s.socks 0).acceptBacklog = (queues .accept).length
  room : (s.socks 0).acceptBacklog ≤ (s.socks 0).backlog
  nodup : (s.accepted ++ queues .accept).Nodup
  completed : ∀ id, id ∈ s.accepted ++ queues .accept ↔ id ∈ s.completed

theorem Sound.notMem_zero (h : s.Sound queues) (q : Queue) : 0 ∉ queues q :=
  fun hmem => absurd (h.member q 0 hmem).1 (lt_irrefl 0)

theorem Sound.notMem_fresh (h : s.Sound queues) (q : Queue) : s.allocated ∉ queues q :=
  fun hmem => absurd (h.member q _ hmem).2 (lt_irrefl _)

/-! ### A SYN -/

theorem processListen_recount {self : Nat} {iss : U32} {tsk child : TcpSock} {cb : TcpCb}
    (h : (tsk.processListen self iss cb).child = some child) :
    (tsk.processListen self iss cb).tsk.acceptBacklog = tsk.acceptBacklog ∧
      (tsk.processListen self iss cb).tsk.backlog = tsk.backlog := by
  unfold TcpSock.processListen at h ⊢
  split
  · exact ⟨rfl, rfl⟩
  · rename_i hsyn
    rw [if_neg hsyn] at h
    cases h

/-- A SYN gives the listener one more child, last in the listen queue. -/
theorem Sound.syn_cases (h : s.Sound queues) {iss : U32} {cb : TcpCb} (hstep : s.syn iss cb = some t) :
    (t.socks 0).acceptBacklog = (s.socks 0).acceptBacklog ∧ (t.socks 0).backlog = (s.socks 0).backlog ∧
      (∀ id, 0 < id → id < s.allocated → t.socks id = s.socks id) ∧ t.allocated = s.allocated + 1 ∧
      Represents t.nodes (Function.update queues .listen (queues .listen ++ [s.allocated])) ∧
      t.nodes (.entry 0) = s.nodes (.entry 0) ∧ t.completed = s.completed ∧ t.accepted = s.accepted := by
  unfold AcceptQueues.syn at hstep
  dsimp only at hstep
  split at hstep
  · cases hstep
  rename_i child hchild
  obtain ⟨hcount, hroom⟩ := processListen_recount hchild
  have hfresh : s.allocated ≠ 0 := h.listener.ne'
  obtain ⟨nodes, henqueue, hrep, hframe⟩ := enqueue_copied h.represents h.own hfresh h.notMem_fresh
  simp only [listenEnqueue, henqueue, Option.map_some, Option.some.injEq] at hstep
  subst hstep
  refine ⟨?_, ?_, fun id hpos hlt => ?_, rfl, hrep, hframe 0 hfresh.symm h.notMem_zero, rfl, rfl⟩
  · dsimp only
    rw [Function.update_of_ne hfresh.symm, Function.update_self, hcount]
  · dsimp only
    rw [Function.update_of_ne hfresh.symm, Function.update_self, hroom]
  · dsimp only
    rw [Function.update_of_ne hlt.ne, Function.update_of_ne hpos.ne']

theorem Sound.syn (h : s.Sound queues) {iss : U32} {cb : TcpCb} (hstep : s.syn iss cb = some t) :
    t.Sound (Function.update queues .listen (queues .listen ++ [s.allocated])) := by
  obtain ⟨hcount, hroom, hsocks, halloc, hrep, hown, hcompleted, haccepted⟩ := h.syn_cases hstep
  have haccept : Function.update queues .listen (queues .listen ++ [s.allocated]) .accept =
      queues .accept := Function.update_of_ne (by decide) ..
  have hlisten : Function.update queues .listen (queues .listen ++ [s.allocated]) .listen =
      queues .listen ++ [s.allocated] := Function.update_self ..
  refine ⟨hrep, hown.trans h.own, by omega, fun q id hid => ?_, fun id hid => ?_, fun id hid => ?_,
    ?_, ?_, ?_, fun id => ?_⟩
  · rw [halloc]
    cases q with
    | listen =>
      rw [hlisten] at hid
      rcases List.mem_append.mp hid with hold | hnew
      · exact ⟨(h.member _ _ hold).1, (h.member _ _ hold).2.trans (Nat.lt_succ_self _)⟩
      · rw [List.mem_singleton.mp hnew]
        exact ⟨h.listener, Nat.lt_succ_self _⟩
    | accept =>
      rw [haccept] at hid
      exact ⟨(h.member _ _ hid).1, (h.member _ _ hid).2.trans (Nat.lt_succ_self _)⟩
  · rw [haccepted] at hid
    obtain ⟨hpos, hlt, hstate⟩ := h.accepted id hid
    exact ⟨hpos, by omega, by rwa [hsocks id hpos hlt]⟩
  · obtain ⟨hpos, hlt, hstate⟩ := hid
    by_cases hnew : id = s.allocated
    · exact ⟨.listen, by rw [hlisten, hnew]; simp⟩
    · have hold : id < s.allocated := by omega
      rw [hsocks id hpos hold] at hstate
      obtain ⟨q, hmem⟩ := h.pending id ⟨hpos, hold, hstate⟩
      refine ⟨q, ?_⟩
      cases q with
      | listen =>
        rw [hlisten]
        exact List.mem_append_left _ hmem
      | accept => rwa [haccept]
  · rw [hcount, haccept]
    exact h.backlog
  · rw [hcount, hroom]
    exact h.room
  · rw [haccepted, haccept]
    exact h.nodup
  · rw [haccepted, haccept, hcompleted]
    exact h.completed id

/-! ### A segment -/

/-- What `tcp_process` makes of a segment in state `TCP_SYN_RECV`: the socket stays there
unless it is reset, and it joins the accept queue if the segment counts. -/
theorem tcpProcess_pending {now : Int} {iss : U32} {sleeps : List (List Nat)} {cb : TcpCb} {outcome : Outcome}
    (hpending : s.Pending id)
    (h : tcpProcess now id iss (some (s.socks 0)) sleeps (s.socks id) cb = some outcome) :
    outcome.acceptEnqueue = true ∧ s.Counts id cb ∧ outcome.tsk.state = .synRecv ∨
      outcome.acceptEnqueue = false ∧ ¬ s.Counts id cb := by
  have hstate := hpending.2.2
  unfold tcpProcess at h
  split at h
  · rename_i hrst
    cases h
    refine .inr ⟨?_, fun hcounts => ?_⟩
    · simp [TcpSock.sockClose, hstate, TcpSock.only]
    · obtain ⟨-, hnot, -⟩ := hcounts
      simp [hrst] at hnot
  · rename_i hrst
    simp only [hstate] at h
    unfold TcpSock.processSynRecv at h
    split at h
    · rename_i hack
      dsimp only at h
      split at h
      · rename_i hdrop
        cases h
        refine .inr ⟨rfl, fun hcounts => ?_⟩
        obtain ⟨-, -, -, hfull, hvalid⟩ := hcounts
        simp [hfull, hvalid] at hdrop
      · rename_i hkeep
        cases h
        simp only [Bool.or_eq_true, Bool.not_eq_true', not_or, Bool.not_eq_true, Bool.not_eq_false] at hkeep
        exact .inl ⟨rfl, ⟨hpending, by simpa using hrst, hack, hkeep.1, hkeep.2⟩, hstate⟩
    · rename_i hack
      cases h
      exact .inr ⟨rfl, fun hcounts => hack hcounts.2.2.1⟩

/-- A segment changes its child; one that counts moves it to the accept queue's tail and
is counted, any other leaves the queues alone. -/
theorem Sound.segment_cases (h : s.Sound queues) {now : Int} {iss : U32} {sleeps : List (List Nat)}
    {cb : TcpCb} (hstep : s.segment now iss sleeps id cb = some t) :
    s.Pending id ∧ (∀ other, 0 < other → other ≠ id → t.socks other = s.socks other) ∧
      t.allocated = s.allocated ∧ t.accepted = s.accepted ∧ (t.socks 0).backlog = (s.socks 0).backlog ∧
      (s.Counts id cb ∧ (t.socks 0).acceptBacklog = (s.socks 0).acceptBacklog + 1 ∧
          Represents t.nodes (joined queues id) ∧ t.nodes (.entry 0) = s.nodes (.entry 0) ∧
          t.completed = s.completed ++ [id] ∨
        ¬ s.Counts id cb ∧ (t.socks 0).acceptBacklog = (s.socks 0).acceptBacklog ∧ t.nodes = s.nodes ∧
          t.completed = s.completed) := by
  unfold AcceptQueues.segment at hstep
  split at hstep
  swap
  · cases hstep
  rename_i hpending
  split at hstep
  · cases hstep
  rename_i outcome hout
  have hzero : (0 : Nat) ≠ id := hpending.1.ne
  obtain ⟨q, hmem⟩ := h.pending id hpending
  dsimp only at hstep
  rcases tcpProcess_pending hpending hout with ⟨hjoin, hcounts, -⟩ | ⟨hstay, hnot⟩
  · obtain ⟨nodes, henqueue, hrep, hframe⟩ := enqueue_queued h.represents hmem
    rw [if_pos hjoin] at hstep
    simp only [acceptEnqueue, henqueue, Option.map_some, Option.some.injEq] at hstep
    subst hstep
    refine ⟨hpending, fun other hpos hne => ?_, rfl, rfl, ?_, .inl ⟨hcounts, ?_, hrep, ?_, rfl⟩⟩
    · dsimp only
      rw [Function.update_of_ne hpos.ne', Function.update_of_ne hne]
    · dsimp only
      rw [Function.update_self, Function.update_of_ne hzero]
      rfl
    · dsimp only
      rw [Function.update_self, Function.update_of_ne hzero]
      rfl
    · exact hframe 0 h.notMem_zero
  · rw [if_neg (by simp [hstay])] at hstep
    cases hstep
    refine ⟨hpending, fun other _ hne => Function.update_of_ne hne .., rfl, rfl, ?_, .inr ⟨hnot, ?_, rfl, rfl⟩⟩
    · dsimp only
      rw [Function.update_of_ne hzero]
    · dsimp only
      rw [Function.update_of_ne hzero]

/-- A child that waits in `TCP_SYN_RECV` has not been returned. -/
theorem Sound.not_accepted (h : s.Sound queues) (hpending : s.Pending id) : id ∉ s.accepted :=
  fun hmem => (h.accepted id hmem).2.2 hpending.2.2

theorem mem_joined {q : Queue} {other : Nat} (hmem : other ∈ queues q) :
    ∃ q, other ∈ joined queues id q := by
  by_cases hid : other = id
  · exact ⟨.accept, List.mem_append_right _ (List.mem_singleton.mpr hid)⟩
  · refine ⟨q, ?_⟩
    cases q with
    | listen => exact (List.mem_erase_of_ne hid).mpr hmem
    | accept => exact List.mem_append_left _ ((List.mem_erase_of_ne hid).mpr hmem)

theorem mem_of_mem_joined {q : Queue} {other : Nat} (hmem : other ∈ joined queues id q) :
    other = id ∨ ∃ q, other ∈ queues q := by
  cases q with
  | listen => exact .inr ⟨.listen, List.mem_of_mem_erase hmem⟩
  | accept =>
    rcases List.mem_append.mp hmem with hold | hnew
    · exact .inr ⟨.accept, List.mem_of_mem_erase hold⟩
    · exact .inl (List.mem_singleton.mp hnew)

/-- A segment for a child whose handshake is not completed, or that does not count. -/
theorem Sound.segment (h : s.Sound queues) {now : Int} {iss : U32} {sleeps : List (List Nat)} {cb : TcpCb}
    (honce : s.Once (.segment now iss sleeps id cb)) (hstep : s.segment now iss sleeps id cb = some t) :
    ∃ queues', t.Sound queues' := by
  obtain ⟨hpending, hsocks, halloc, haccepted, hbacklog, hcases⟩ := h.segment_cases hstep
  have hlistener : 0 < t.allocated := halloc ▸ h.listener
  have hreturned : ∀ other ∈ t.accepted, 0 < other ∧ other < t.allocated ∧
      (t.socks other).state ≠ .synRecv := by
    intro other hmem
    rw [haccepted] at hmem
    obtain ⟨hpos, hlt, hstate⟩ := h.accepted other hmem
    have hne : other ≠ id := by
      intro hsame
      obtain rfl := hsame
      exact hstate hpending.2.2
    rw [halloc, hsocks other hpos hne]
    exact ⟨hpos, hlt, hstate⟩
  have hwaiting : ∀ other, t.Pending other → s.Pending other := by
    intro other hother
    by_cases hid : other = id
    · exact hid ▸ hpending
    · obtain ⟨hpos, hlt, hstate⟩ := hother
      exact ⟨hpos, halloc ▸ hlt, by rwa [hsocks other hpos hid] at hstate⟩
  rcases hcases with ⟨hcounts, hcount, hrep, hown, hcompleted⟩ | ⟨-, hcount, hnodes, hcompleted⟩
  · have hfresh := honce hcounts
    have hout : id ∉ s.accepted ++ queues .accept := fun hmem => hfresh ((h.completed id).mp hmem)
    have hjoined : joined queues id .accept = queues .accept ++ [id] := by
      rw [joined, List.erase_of_not_mem fun hmem => hout (List.mem_append_right _ hmem)]
    have hroom : (s.socks 0).acceptBacklog < (s.socks 0).backlog := by
      simpa [TcpSock.acceptQueueFull] using hcounts.2.2.2.1
    refine ⟨joined queues id, hrep, hown.trans h.own, hlistener, fun q other hmem => ?_, hreturned,
      fun other hother => ?_, ?_, ?_, ?_, fun other => ?_⟩
    · rw [halloc]
      rcases mem_of_mem_joined hmem with heq | ⟨q, hold⟩
      · exact heq ▸ ⟨hpending.1, hpending.2.1⟩
      · exact h.member q other hold
    · obtain ⟨q, hmem⟩ := h.pending other (hwaiting other hother)
      exact mem_joined hmem
    · rw [hcount, h.backlog, hjoined, List.length_append, List.length_singleton]
      rfl
    · rw [hcount, hbacklog]
      exact hroom
    · rw [haccepted, hjoined, ← List.append_assoc]
      exact List.nodup_append.mpr ⟨h.nodup, List.nodup_singleton id, fun a ha b hb hab =>
        hout (List.mem_singleton.mp hb ▸ hab ▸ ha)⟩
    · rw [haccepted, hjoined, ← List.append_assoc, List.mem_append, h.completed, hcompleted, List.mem_append]
  · refine ⟨queues, hnodes ▸ h.represents, hnodes ▸ h.own, hlistener, fun q other hmem => ?_, hreturned,
      fun other hother => h.pending other (hwaiting other hother), hcount.trans h.backlog, ?_, ?_, fun other => ?_⟩
    · rw [halloc]
      exact h.member q other hmem
    · rw [hcount, hbacklog]
      exact h.room
    · rw [haccepted]
      exact h.nodup
    · rw [haccepted, hcompleted]
      exact h.completed other

/-- A child counted again leaves the counter above the length of the queue. -/
theorem Sound.segment_breaks (h : s.Sound queues) {now : Int} {iss : U32} {sleeps : List (List Nat)}
    {cb : TcpCb} (hcounts : s.Counts id cb) (hagain : id ∈ s.completed) :
    ∃ t, s.segment now iss sleeps id cb = some t ∧ ¬ t.Kept := by
  have hpending := hcounts.1
  have hmem : id ∈ queues .accept := by
    rcases List.mem_append.mp ((h.completed id).mpr hagain) with hmem | hmem
    · exact absurd hmem (h.not_accepted hpending)
    · exact hmem
  obtain ⟨t, hstep⟩ : ∃ t, s.segment now iss sleeps id cb = some t := by
    obtain ⟨-, hrst, hack, hfull, hvalid⟩ := hcounts
    obtain ⟨nodes, henqueue, -⟩ := enqueue_queued h.represents hmem
    simp [AcceptQueues.segment, hpending, tcpProcess, hrst, hpending.2.2, TcpSock.processSynRecv, hack,
      hfull, hvalid, acceptEnqueue, henqueue]
  refine ⟨t, hstep, ?_⟩
  intro hyp
  obtain ⟨queues', haccounted⟩ := hyp
  obtain ⟨-, -, -, -, -, hcases⟩ := h.segment_cases hstep
  rcases hcases with ⟨-, hcount, hrep, -⟩ | ⟨hnot, -⟩
  swap
  · exact hnot hcounts
  have hsame := (haccounted.represents .accept).unique (hrep .accept)
  have hlength : (joined queues id .accept).length = (queues .accept).length := by
    have hpos := List.length_pos_of_mem hmem
    rw [joined, List.length_append, List.length_erase_of_mem hmem, List.length_singleton]
    omega
  have hbacklog := haccounted.backlog
  rw [hcount, h.backlog, hsame, hlength] at hbacklog
  omega

/-! ### An accept -/

/-- An accept takes the first child off the accept queue, establishes it and counts it out. -/
theorem Sound.accept_cases (h : s.Sound queues) {rest : List Nat} (hqueue : queues .accept = id :: rest) :
    ∃ t, s.accept = some t ∧ (∀ other, 0 < other → other ≠ id → t.socks other = s.socks other) ∧
      (t.socks 0).acceptBacklog = (s.socks 0).acceptBacklog - 1 ∧ (t.socks 0).backlog = (s.socks 0).backlog ∧
      (t.socks id).state = .established ∧ Represents t.nodes (Function.update queues .accept rest) ∧
      t.nodes (.entry 0) = s.nodes (.entry 0) ∧ t.allocated = s.allocated ∧ t.completed = s.completed ∧
      t.accepted = s.accepted ++ [id] := by
  have hmem : id ∈ queues .accept := hqueue ▸ List.mem_cons_self
  have hfirst : (s.nodes (.head .accept)).next = some (.entry id) := by
    have hchain := (h.represents .accept).chain
    rw [hqueue] at hchain
    exact hchain.1
  have hempty : s.nodes.isEmpty (.head .accept) = false := by
    simp [Heap.isEmpty, hfirst]
  have hpos := (h.member .accept id hmem).1
  have hrest : id ∉ rest := (List.nodup_cons.mp (hqueue ▸ (h.represents .accept).nodup)).1
  obtain ⟨nodes, hdelete, hrep, hframe⟩ := h.represents.deleteEntry hmem
  rw [hqueue, List.erase_cons_head] at hrep hframe
  have hinit : ∀ n, n ≠ .entry id → nodes.init (.entry id) n = nodes n := fun n hn => Function.update_of_ne hn ..
  -- the node is initialised once it is off both queues
  have hgone : ∀ q, id ∉ Function.update queues .accept rest q := by
    intro q
    cases q with
    | listen => exact fun hmem' => absurd (h.represents.disjoint hmem' hmem) (by decide)
    | accept => exact hrest
  have hrep' : Represents (nodes.init (.entry id)) (Function.update queues .accept rest) := by
    refine fun q => (hrep q).congr fun n hn => hinit n ?_
    intro hsame
    obtain rfl := hsame
    simp at hn
    exact hgone q hn
  simp only [AcceptQueues.accept, hempty, acceptDequeue, hfirst, hdelete, Option.map_some, Bool.false_eq_true,
    if_false]
  refine ⟨_, rfl, fun other hother hne => ?_, ?_, ?_, ?_, hrep', ?_, rfl, rfl, rfl⟩
  · dsimp only
    rw [Function.update_of_ne hne, Function.update_of_ne hother.ne']
  · dsimp only
    rw [Function.update_of_ne hpos.ne, Function.update_self]
    rfl
  · dsimp only
    rw [Function.update_of_ne hpos.ne, Function.update_self]
    rfl
  · dsimp only
    rw [Function.update_self]
  · exact (hinit _ fun heq => hpos.ne (Node.entry.inj heq)).trans
      (hframe 0 fun hmem' => h.notMem_zero .accept (hqueue ▸ List.mem_cons_of_mem id hmem'))

/-- **An accept returns the first child of the queue.** -/
theorem Sound.accept (h : s.Sound queues) {rest : List Nat} (hqueue : queues .accept = id :: rest) :
    ∃ t, s.accept = some t ∧ t.Sound (Function.update queues .accept rest) ∧
      t.accepted = s.accepted ++ [id] ∧ t.completed = s.completed := by
  obtain ⟨t, hstep, hsocks, hcount, hroom, hstate, hrep, hown, halloc, hcompleted, haccepted⟩ :=
    h.accept_cases hqueue
  have hmem : id ∈ queues .accept := hqueue ▸ List.mem_cons_self
  obtain ⟨hpos, hlt⟩ := h.member .accept id hmem
  have haccept : Function.update queues .accept rest .accept = rest := Function.update_self ..
  have hlisten : Function.update queues .accept rest .listen = queues .listen :=
    Function.update_of_ne (by decide) ..
  have hsub : ∀ q, ∀ other ∈ Function.update queues .accept rest q, other ∈ queues q := by
    intro q other hother
    cases q with
    | listen => rwa [hlisten] at hother
    | accept =>
      rw [haccept] at hother
      exact hqueue ▸ List.mem_cons_of_mem id hother
  have hsame : t.accepted ++ Function.update queues .accept rest .accept = s.accepted ++ queues .accept := by
    rw [haccepted, haccept, hqueue, List.append_assoc, List.singleton_append]
  suffices hsound : t.Sound (Function.update queues .accept rest) from ⟨t, hstep, hsound, haccepted, hcompleted⟩
  refine ⟨hrep, hown.trans h.own, halloc ▸ h.listener, fun q other hmem' => ?_, fun other hmem' => ?_,
    fun other hother => ?_, ?_, ?_, hsame ▸ h.nodup, fun other => ?_⟩
  · rw [halloc]
    exact h.member q other (hsub q other hmem')
  · rw [haccepted] at hmem'
    rw [halloc]
    rcases List.mem_append.mp hmem' with hold | hnew
    · have hne : other ≠ id := by
        intro heq
        obtain rfl := heq
        exact (List.nodup_append.mp h.nodup).2.2 other hold other hmem rfl
      obtain ⟨hother, hlt, hwas⟩ := h.accepted other hold
      exact ⟨hother, hlt, by rwa [hsocks other hother hne]⟩
    · rw [List.mem_singleton.mp hnew, hstate]
      exact ⟨hpos, hlt, by decide⟩
  · obtain ⟨hother, hlt', hwas⟩ := hother
    have hne : other ≠ id := by
      intro heq
      obtain rfl := heq
      rw [hstate] at hwas
      cases hwas
    rw [hsocks other hother hne] at hwas
    obtain ⟨q, hmem'⟩ := h.pending other ⟨hother, halloc ▸ hlt', hwas⟩
    refine ⟨q, ?_⟩
    cases q with
    | listen => rwa [hlisten]
    | accept =>
      rw [haccept]
      exact (List.mem_cons.mp (hqueue ▸ hmem')).resolve_left hne
  · rw [hcount, h.backlog, haccept, hqueue, List.length_cons]
    omega
  · rw [hcount, hroom]
    have hroom := h.room
    omega
  · rw [hsame, hcompleted]
    exact h.completed other

/-! ### Runs -/

/-- As many accepts as there are children in the queue return them. -/
theorem Sound.drain (h : s.Sound queues) {n : Nat} (hn : (queues .accept).length = n) :
    ∃ t, runAll step s (List.replicate n .accept) = some t ∧ t.accepted = s.accepted ++ queues .accept ∧
      t.completed = s.completed := by
  induction n generalizing s queues with
  | zero =>
    refine ⟨s, rfl, ?_, rfl⟩
    rw [List.eq_nil_of_length_eq_zero hn, List.append_nil]
  | succ n ih =>
    obtain ⟨id, rest, hqueue⟩ := List.exists_cons_of_length_eq_add_one hn
    obtain ⟨t, hstep, ht, haccepted, hcompleted⟩ := h.accept hqueue
    have hrest : (Function.update queues .accept rest .accept).length = n := by
      rw [Function.update_self]
      rw [hqueue, List.length_cons] at hn
      omega
    obtain ⟨u, hrun, huaccepted, hucompleted⟩ := ih ht hrest
    refine ⟨u, ?_, ?_, hucompleted.trans hcompleted⟩
    · simp only [List.replicate_succ, runAll, step, hstep]
      exact hrun
    · rw [huaccepted, haccepted, Function.update_self, hqueue, List.append_assoc, List.singleton_append]

theorem Sound.accounted (h : s.Sound queues) : s.Accounted queues where
  represents := h.represents
  backlog := h.backlog
  room := h.room
  apart := List.nodup_append.mpr ⟨(h.represents .listen).nodup, (h.represents .accept).nodup,
    fun a ha b hb hab => absurd (h.represents.disjoint ha (hab ▸ hb)) (by decide)⟩
  once := by
    obtain ⟨t, hrun, haccepted, -⟩ := h.drain rfl
    refine ⟨t, hrun, fun id => ?_⟩
    rw [haccepted, h.nodup.count]
    exact if_congr (h.completed id) rfl rfl

theorem Sound.step (h : s.Sound queues) {e : Event} (honce : s.Once e) (hstep : Step s e t) :
    ∃ queues', t.Sound queues' := by
  cases e with
  | syn iss cb => exact ⟨_, h.syn hstep⟩
  | segment now iss sleeps id cb => exact h.segment honce hstep
  | accept =>
    cases hqueue : queues .accept with
    | nil =>
      have hempty : s.nodes.isEmpty (.head .accept) = true := by
        have hchain := (h.represents .accept).chain
        rw [hqueue] at hchain
        simpa [Heap.isEmpty] using hchain.1
      have hnone : s.accept = none := if_pos hempty
      exact absurd (hnone.symm.trans hstep) (by simp)
    | cons id rest =>
      obtain ⟨t', hrun, ht', -⟩ := h.accept hqueue
      obtain rfl := Option.some.inj (hrun.symm.trans hstep)
      exact ⟨_, ht'⟩

theorem sound_start {backlog : Int} (hbacklog : 0 ≤ backlog) : (start backlog).Sound fun _ => [] where
  represents _ := ⟨⟨rfl, rfl⟩, List.nodup_nil⟩
  own := rfl
  listener := Nat.one_pos
  member _ _ hmem := absurd hmem List.not_mem_nil
  accepted _ hmem := absurd hmem List.not_mem_nil
  pending _ hpending := absurd hpending.2.1 (by have := hpending.1; simp [start]; omega)
  backlog := rfl
  room := hbacklog
  nodup := List.nodup_nil
  completed _ := Iff.rfl

/-- **The queues and the counter agree** throughout a run exactly if `backlog` is not negative
and no segment that counts reaches a child whose handshake is completed. -/
theorem accounted_iff (backlog : Int) (events : List Event) :
    Throughout Step Kept (start backlog) events ↔
      0 ≤ backlog ∧ Along Step Once (start backlog) events := by
  have hkeep : ∀ s e t, (∃ queues, Sound s queues) → Once s e → Step s e t → ∃ queues, Sound t queues := by
    intro s e t hs honce hstep
    obtain ⟨queues, h⟩ := hs
    exact h.step honce hstep
  have hbreak : ∀ s e, (∃ queues, Sound s queues) → ¬ Once s e → ∃ t, Step s e t ∧ ¬ t.Kept := by
    intro s e hs hnot
    obtain ⟨queues, h⟩ := hs
    cases e with
    | syn iss cb => exact absurd trivial hnot
    | accept => exact absurd trivial hnot
    | segment now iss sleeps id cb =>
      obtain ⟨hcounts, hagain⟩ := Classical.not_imp.mp hnot
      exact h.segment_breaks hcounts (Classical.not_not.mp hagain)
  have hiff : 0 ≤ backlog → (Throughout Step Kept (start backlog) events ↔
      Along Step Once (start backlog) events) := fun hbacklog =>
    throughout_iff_along (fun s hs => ⟨_, hs.choose_spec.accounted⟩) hkeep hbreak
      ⟨_, sound_start hbacklog⟩ events
  constructor
  · intro h
    have hbacklog : 0 ≤ backlog := by
      obtain ⟨queues, haccounted⟩ := h.run (.nil _)
      exact haccounted.room
    exact ⟨hbacklog, (hiff hbacklog).mp h⟩
  · exact fun h => (hiff h.1).mpr h.2

/-- A SYN for port 80 and the ACK that ends the handshake. -/
def synCb : TcpCb := ⟨1, 2, 40000, 80, 7, 8, 0, 65535, tcpSyn, []⟩
def ackCb : TcpCb := ⟨1, 2, 40000, 80, 8, 8, 1001, 65535, tcpAck, []⟩

/-- The ACK comes twice before the accept: one child in the queue is counted as two. -/
theorem ack_counted_twice : ¬ Throughout Step Kept (start 5)
    [.syn 1000 synCb, .segment 0 0 [] 1 ackCb, .segment 0 0 [] 1 ackCb] := by
  intro h
  obtain ⟨t, hrun, hone, htwo⟩ : ∃ t, Run Step (start 5)
      [.syn 1000 synCb, .segment 0 0 [] 1 ackCb, .segment 0 0 [] 1 ackCb] t ∧
        LinkedList.OnList t.nodes .accept [1] ∧ (t.socks 0).acceptBacklog = 2 :=
    ⟨_, Run.of_isSome (by decide), ⟨⟨rfl, rfl, rfl, rfl⟩, List.nodup_singleton 1⟩, rfl⟩
  obtain ⟨queues, haccounted⟩ := h.last hrun
  have hbacklog := haccounted.backlog
  rw [htwo, (haccounted.represents .accept).unique hone] at hbacklog
  exact absurd hbacklog (by decide)

end AcceptQueues

end NetStack.Tcp
