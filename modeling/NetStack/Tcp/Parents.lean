import NetStack.Tcp.Counting

/-! The sockets `handle_tcp_packet` follows.

It follows two pointers to sockets: what `tcp_sock_lookup` returns, which is null where no
socket of the tables fits the packet, and in `TCP_SYN_RECV` the socket's `parent`. A socket
keeps the parent it was made with (`step_parents`), and only those made for a SYN have one:
not the listener, which goes to `TCP_SYN_RECV` itself on the first SYN and is still found by
its port. -/
namespace NetStack.Tcp
open TcpSock

/-- The packet has `tcp_process` look at the parent's queue. -/
def AsksParent (tsk : TcpSock) (cb : TcpCb) : Prop :=
  tsk.state = .synRecv ∧ hasFlag cb.flags tcpRst = false ∧ hasFlag cb.flags tcpAck = true

instance (tsk : TcpSock) (cb : TcpCb) : Decidable (AsksParent tsk cb) := by
  unfold AsksParent
  infer_instance

/-- The packet has a listener make a child. -/
def MakesChild (tsk : TcpSock) (cb : TcpCb) : Prop :=
  tsk.state = .listen ∧ hasFlag cb.flags tcpRst = false ∧ hasFlag cb.flags tcpSyn = true

instance (tsk : TcpSock) (cb : TcpCb) : Decidable (MakesChild tsk cb) := by
  unfold MakesChild
  infer_instance

section
variable {now : Int} {self : Nat} {iss : U32} {parent : Option TcpSock} {sleeps : List (List Nat)}
  {tsk : TcpSock} {cb : TcpCb} {outcome : Outcome}

/-- In `TCP_SYN_RECV` nothing else keeps `tcp_process` from returning. -/
theorem tcpProcess_synRecv (hstate : tsk.state = .synRecv) :
    tcpProcess now self iss parent sleeps tsk cb ≠ none ↔ (AsksParent tsk cb → parent.isSome = true) := by
  unfold tcpProcess AsksParent
  cases hrst : hasFlag cb.flags tcpRst with
  | true => simp
  | false =>
    simp only [hstate, processSynRecv, Bool.false_eq_true, if_false, true_and]
    cases hack : hasFlag cb.flags tcpAck with
    | false => simp
    | true =>
      cases parent with
      | none => simp
      | some p =>
        simp only [if_true, Option.isSome_some, implies_true, iff_true]
        split <;> exact Option.some_ne_none _

/-- A listener's child has it for its parent, and nothing else makes one. -/
theorem tcpProcess_makes (h : tcpProcess now self iss parent sleeps tsk cb = some outcome) :
    outcome.child.map TcpSock.parent = if MakesChild tsk cb then some (some self) else none := by
  by_cases hmakes : MakesChild tsk cb
  · obtain ⟨hstate, hrst, hsyn⟩ := hmakes
    rw [if_pos ⟨hstate, hrst, hsyn⟩]
    simp only [tcpProcess, hrst, hstate, processListen, hsyn, Bool.false_eq_true, if_false, if_true] at h
    cases h
    have hplaced := (setRetransTimer_placed _).trans
      (control_placed (setRetransTimer (allocChildTcpSock { tsk with state := .synRecv } self iss cb))
        (tcpAck ||| tcpSyn))
    exact congrArg some hplaced.parent
  · rw [if_neg hmakes, Stack.tcpProcess_no_child ?_ h]
    · rfl
    · intro hstate hsyn
      by_contra hrst
      exact hmakes ⟨hstate, Bool.eq_false_of_not_eq_true hrst, hsyn⟩

end

namespace Stack

/-- The parents of the sockets allocated so far. -/
def parents (s : Stack) : List (Option Nat) := s.socks.map TcpSock.parent

section
variable {s s' : Stack} {id : Nat}

/-! ### Parts of a call -/

theorem parents_modify {f : TcpSock → TcpSock}
    (hf : ∀ tsk, s.socks[id]? = some tsk → (f tsk).parent = tsk.parent) : (s.modify id f).parents = s.parents := by
  apply List.ext_getElem?
  intro j
  simp only [parents, modify, List.getElem?_map, List.getElem?_modify]
  by_cases hj : id = j
  · subst hj
    cases hsock : s.socks[id]? with
    | none => rfl
    | some tsk => simp [hf tsk hsock]
  · simp [hj]

theorem parents_set (f : TcpSock → TcpSock) (hf : ∀ tsk, (f tsk).parent = tsk.parent) :
    (s.modify id f).parents = s.parents := parents_modify fun tsk _ => hf tsk

theorem parents_put {tsk tsk' : TcpSock} (hsock : s.sock id = some tsk) (hplaced : Placed tsk tsk') :
    (s.modify id fun _ => tsk').parents = s.parents := by
  apply parents_modify
  intro old hold
  cases (sock_cases hsock).2.1.symm.trans hold
  exact hplaced.parent

theorem parents_freeTcpSock : (s.freeTcpSock id).parents = s.parents := by
  have hcount : (s.modify id (Host.recount (· - 1))).parents = s.parents := parents_modify fun _ _ => rfl
  unfold freeTcpSock
  dsimp only
  split
  · exact hcount
  · split <;> exact hcount

theorem parents_linkHash {t : HashHead} (h : s.linkHash id t = some s') : s'.parents = s.parents := by
  unfold linkHash at h
  split at h
  · cases h
  · cases h
    exact parents_set _ fun _ => by rfl

theorem parents_bindHash {port : U16} (h : s.bindHash id port = some s') : s'.parents = s.parents := by
  unfold bindHash at h
  split at h
  · cases h
  · cases h
    exact parents_set _ fun _ => by rfl

theorem parents_bindUnhash (h : s.bindUnhash id = some s') : s'.parents = s.parents := by
  unfold bindUnhash at h
  split at h
  · cases h
    rfl
  · split at h
    · cases h
    · cases h
      exact parents_freeTcpSock

theorem parents_unhash (h : s.unhash id = some s') : s'.parents = s.parents := by
  unfold unhash at h
  split at h
  · cases h
    rfl
  · split at h
    · cases h
    · cases h
      exact parents_freeTcpSock

theorem parents_hash (h : s.hash id = some s') : s'.parents = s.parents := by
  unfold hash at h
  split at h
  · cases h
  · split at h
    · cases h
      rfl
    · exact parents_linkHash h
    · split at h
      · cases h
      · cases h
        rfl
      · exact parents_linkHash h

theorem parents_addChild {parent : Nat} {child : TcpSock} (h : s.addChild parent child = some s') :
    s'.parents = s.parents ++ [child.parent] := by
  unfold addChild at h
  refine (parents_hash h).trans ((parents_set _ fun _ => by rfl).trans ?_)
  simp [parents]

theorem parents_commit {tsk : TcpSock} {outcome : Outcome} (hsock : s.sock id = some tsk)
    (hsettled : Settled tsk outcome) (h : s.commit id outcome = some s') :
    s'.parents = s.parents ++ (outcome.child.map TcpSock.parent).toList := by
  have hset := parents_put hsock hsettled.placed
  have hqueued : (if outcome.acceptEnqueue then (s.modify id fun _ => outcome.tsk).acceptEnqueue id
      else s.modify id fun _ => outcome.tsk).parents = s.parents := by
    split
    · unfold acceptEnqueue
      split
      · exact hset
      · exact (parents_set _ fun _ => by rfl).trans hset
    · exact hset
  unfold commit at h
  dsimp only at h
  split at h
  · rename_i hchild
    rw [hchild, Option.map_none, Option.toList_none, List.append_nil]
    split at h
    · exact (parents_unhash h).trans hqueued
    · cases h
      exact hqueued
  · rename_i child hchild
    rw [hchild, parents_addChild h, hqueued]
    rfl

/-! ### Calls on a socket -/

theorem parents_sockBind {port : U16} (h : s.sockBind id port = some s') : s'.parents = s.parents := by
  unfold sockBind at h
  split at h
  · cases h
  · exact (parents_bindHash h).trans (parents_set _ fun _ => by rfl)

theorem parents_sockListen {backlog : Int} (h : s.sockListen id backlog = some s') : s'.parents = s.parents := by
  unfold sockListen at h
  split at h
  · cases h
  · exact (parents_hash h).trans (parents_set _ fun _ => by rfl)

theorem parents_sockConnect {addr : SockAddr} (h : s.sockConnect id addr = some s') : s'.parents = s.parents := by
  unfold sockConnect at h
  split at h
  · cases h
  · split at h
    · cases h
    · rename_i hbind
      have hbound := (parents_bindHash hbind).trans (parents_set _ fun _ => by rfl)
      exact (parents_hash h).trans ((parents_set _ fun tsk => (connecting_placed tsk).parent).trans hbound)

theorem parents_sockAccept (h : s.sockAccept id = some s') : s'.parents = s.parents := by
  unfold sockAccept at h
  split at h
  · cases h
  · cases h
  · unfold call at h
    split at h
    · cases h
    · cases h
      exact (parents_set _ fun _ => by rfl).trans (parents_set _ fun _ => by rfl)

theorem parents_sockClose (h : s.sockClose id = some s') : s'.parents = s.parents := by
  unfold Stack.sockClose at h
  split at h
  · cases h
  · rename_i tsk hsock
    rw [parents_commit hsock (sockClose_settled tsk) h, sockClose_child]
    exact List.append_nil _

theorem parents_sockRead {len : Nat} (h : s.sockRead id len = some s') : s'.parents = s.parents := by
  unfold Stack.sockRead at h
  split at h
  · cases h
  · rename_i out tsk' hread
    obtain ⟨tsk, hsock, hread⟩ := Option.bind_eq_some_iff.mp hread
    cases h
    exact parents_put hsock (sockRead_steady hread).placed

theorem parents_sockWrite {buf : List U8} (h : s.sockWrite id buf = some s') : s'.parents = s.parents := by
  unfold Stack.sockWrite at h
  split at h
  · rename_i tsk hsock hidle
    cases h
    exact parents_put hsock (sockWrite_steady tsk buf).placed
  · cases h

theorem parents_resume (h : s.resume id = some s') : s'.parents = s.parents := by
  unfold resume at h
  split at h
  · cases h
  · rename_i result hresume
    obtain ⟨tsk, hsock, hresume⟩ := Option.bind_eq_some_iff.mp hresume
    cases h
    exact parents_put hsock (writeResume_steady hresume).placed

theorem parents_scanRetransTimer (h : s.scanRetransTimer id = some s') : s'.parents = s.parents := by
  unfold Stack.scanRetransTimer at h
  split at h
  · cases h
  · rename_i tsk hsock
    have hput := parents_put hsock tsk.scanRetransTimer_placed.1
    dsimp only at h
    split at h
    · exact (parents_bindUnhash h).trans hput
    · cases h
      exact hput

theorem parents_scanTimer {now : Int} (h : s.scanTimer id now = some s') : s'.parents = s.parents := by
  unfold scanTimer at h
  split at h
  · cases h
  · split at h
    · exact (parents_bindUnhash h).trans (parents_set _ fun _ => by rfl)
    · cases h
      rfl

/-- The parents of the sockets an event makes. -/
def born (s : Stack) : Event → List (Option Nat)
  | .alloc => [none]
  | .packet _ _ _ packet =>
    match s.handler packet with
    | none => []
    | some (id, tsk, _) => if MakesChild tsk (tcpCbInit packet) then [some id] else []
  | _ => []

/-- A socket keeps the parent it was made with: an event adds the parents of those it makes
and changes none. -/
theorem step_parents {e : Event} (h : Step s e s') : s'.parents = s.parents ++ s.born e := by
  have hnone : ∀ {l : List (Option Nat)}, l = s.parents → l = s.parents ++ [] := by simp
  cases e with
  | alloc =>
    cases h
    simp [alloc, born, parents, allocTcpSock]
  | bind id port => exact hnone (parents_sockBind h)
  | listen id backlog => exact hnone (parents_sockListen h)
  | connect id addr => exact hnone (parents_sockConnect h)
  | accept id => exact hnone (parents_sockAccept h)
  | close id => exact hnone (parents_sockClose h)
  | read id len => exact hnone (parents_sockRead h)
  | write id buf => exact hnone (parents_sockWrite h)
  | resume id => exact hnone (parents_resume h)
  | packet now iss sleeps packet =>
    obtain ⟨id, tsk, parent, outcome, hhandler, hout, hcommit⟩ := handlePacket_cases h
    obtain ⟨hsock, -, -⟩ := handler_sock hhandler
    rw [parents_commit hsock (tcpProcess_settled hout) hcommit, tcpProcess_makes hout, born, hhandler]
    dsimp only
    split <;> rfl
  | retransTimer id => exact hnone (parents_scanRetransTimer h)
  | timewaitTimer id now => exact hnone (parents_scanTimer h)

end

/-! ### Packets over a run -/

/-- A bucket's links lead to the socket, which satisfies `p`, through sockets that do not.
Those are no more than there are: a walk past more has come round to one it has passed. -/
def First (s : Stack) (t : HashHead) (p : TcpSock → Prop) (id : Nat) : Prop :=
  ∃ passed, passed.length ≤ s.socks.length ∧ s.hashList.Leads (.head t) passed (.entry id) ∧
    (∀ x ∈ passed, ∀ tsk, s.socks[x]? = some tsk → ¬ p tsk) ∧ ∃ tsk, s.socks[id]? = some tsk ∧ p tsk

/-- A bucket's links lead back to it through sockets that do not satisfy `p`. -/
def Lacks (s : Stack) (t : HashHead) (p : TcpSock → Prop) : Prop :=
  ∃ passed, passed.length ≤ s.socks.length ∧ s.hashList.Leads (.head t) passed (.head t) ∧
    ∀ x ∈ passed, ∀ tsk, s.socks[x]? = some tsk → ¬ p tsk

/-- The socket the tables have for a packet: the first of its established bucket with its
4-tuple; where there is none, the first of its listen bucket with its destination port. -/
def Names (s : Stack) (cb : TcpCb) (id : Nat) : Prop :=
  let addr : SockAddr := ⟨cb.daddr, cb.dport, cb.saddr, cb.sport⟩
  s.First addr.bucket (fun tsk => tsk.addr = addr) id ∨
    s.Lacks addr.bucket (fun tsk => tsk.addr = addr) ∧
      s.First (.listen (portBucket cb.dport)) (fun tsk => tsk.skSport = cb.dport) id

section
variable {s : Stack} {t : HashHead} {p : TcpSock → Prop} [DecidablePred p] {id : Nat}

theorem first_iff : s.First t p id ↔ s.findSock t (fun tsk => p tsk) = some (some id) := by
  unfold findSock First
  rw [LinkedList.Heap.find_eq_some_iff]
  simp [Nat.lt_succ_iff, Option.any_eq_true, Option.any_eq_false]

theorem lacks_iff : s.Lacks t p ↔ s.findSock t (fun tsk => p tsk) = some none := by
  unfold findSock Lacks
  rw [LinkedList.Heap.find_eq_some_iff]
  simp [Nat.lt_succ_iff, Option.any_eq_false]

end

theorem names_iff {s : Stack} {cb : TcpCb} {id : Nat} : s.Names cb id ↔ s.sockLookup cb = some (some id) := by
  simp only [Names, first_iff, lacks_iff]
  unfold sockLookup lookupEstablished lookupListen
  split <;> rename_i hlookup <;> rw [hlookup]
  · simp
  · simp
  · simp

/-- `handle_tcp_packet` gives the packet to a socket that exists, and `tcp_process` returns
where it may look at the socket's parent. -/
def Followed (s : Stack) : Event → Prop
  | .packet now iss sleeps packet => ∃ id tsk parent, s.handler packet = some (id, tsk, parent) ∧
      (tsk.state = .synRecv → tcpProcess now id iss parent sleeps tsk (tcpCbInit packet) ≠ none)
  | _ => True

end Stack

/-- A host, and for each of its sockets the listener it was made for, where a SYN made it. -/
structure Family where
  stack : Stack
  origins : List (Option Nat)

namespace Family
open Stack

def empty : Family := ⟨Stack.empty, []⟩

def Step (w : Family) (e : Event) (w' : Family) : Prop :=
  Stack.Step w.stack e w'.stack ∧ w'.origins = w.origins ++ w.stack.born e

/-- Every packet names a live socket, and no ACK names a socket in `TCP_SYN_RECV` but those
made for a SYN, while their listener is live. -/
def Expected (w : Family) : Event → Prop
  | .packet _ _ _ packet => ∃ id tsk, w.stack.Names (tcpCbInit packet) id ∧ w.stack.sock id = some tsk ∧
      (AsksParent tsk (tcpCbInit packet) →
        ∃ listener, w.origins[id]? = some (some listener) ∧ (w.stack.sock listener).isSome = true)
  | _ => True

/-- The parents are the listeners the sockets were made for. -/
def Kept (w : Family) : Prop := w.stack.parents = w.origins

variable {w w' : Family} {e : Event}

theorem step_of {s : Stack} (h : w.stack.step e = some s) : Step w e ⟨s, w.origins ++ w.stack.born e⟩ := ⟨h, rfl⟩

theorem Kept.step (h : Kept w) (hstep : Step w e w') : Kept w' := by
  rw [Kept, step_parents hstep.1, hstep.2, h]

theorem Kept.parent (h : Kept w) {id : Nat} {tsk : TcpSock} (hsock : w.stack.sock id = some tsk) :
    w.origins[id]? = some tsk.parent := by
  rw [← h, parents, List.getElem?_map, (sock_cases hsock).2.1]
  rfl

theorem followed_iff (h : Kept w) (e : Event) : Followed w.stack e ↔ Expected w e := by
  cases e with
  | packet now iss sleeps packet =>
    have hasks : ∀ {id : Nat} {tsk : TcpSock}, w.stack.sock id = some tsk →
        ((tsk.state = .synRecv → tcpProcess now id iss (tsk.parent.bind w.stack.sock) sleeps tsk
            (tcpCbInit packet) ≠ none) ↔
          (AsksParent tsk (tcpCbInit packet) →
            ∃ listener, w.origins[id]? = some (some listener) ∧ (w.stack.sock listener).isSome = true)) := by
      intro id tsk hsock
      have hlive : (tsk.parent.bind w.stack.sock).isSome = true ↔
          ∃ listener, w.origins[id]? = some (some listener) ∧ (w.stack.sock listener).isSome = true := by
        rw [h.parent hsock]
        cases tsk.parent with
        | none => simp
        | some listener => simp
      rw [← hlive]
      constructor
      · exact fun hreturns hasks => (tcpProcess_synRecv hasks.1).mp (hreturns hasks.1) hasks
      · exact fun hparent hstate => (tcpProcess_synRecv hstate).mpr hparent
    constructor
    · intro hyp
      obtain ⟨id, tsk, parent, hhandler, hreturns⟩ := hyp
      obtain ⟨hsock, hlookup, rfl⟩ := handler_sock hhandler
      exact ⟨id, tsk, names_iff.mpr hlookup, hsock, (hasks hsock).mp hreturns⟩
    · intro hyp
      obtain ⟨id, tsk, hnames, hsock, hlistener⟩ := hyp
      have hhandler : w.stack.handler packet = some (id, tsk, tsk.parent.bind w.stack.sock) := by
        simp only [handler, names_iff.mp hnames, hsock]
      exact ⟨id, tsk, _, hhandler, (hasks hsock).mpr hlistener⟩
  | _ => exact Iff.rfl

/-- **No null socket is followed** along a run of a host exactly when every packet is
expected. -/
theorem sockets_followed_iff (events : List Event) :
    Along Step (fun w e => Followed w.stack e) empty events ↔ Along Step Expected empty events := by
  have hkeep : ∀ w e w', Kept w → Expected w e → Step w e w' → Kept w' := fun w e w' h _ hstep => h.step hstep
  have hstart : Kept empty := rfl
  exact along_iff hkeep (fun w e h => followed_iff h e) hstart events

/-- A packet to a host without sockets; and a listener that takes a SYN, and then an ACK
from a peer it does not know. -/
theorem sockets_missing :
    ¬ Along Step (fun w e => Followed w.stack e) empty [.packet 0 0 [] ⟨2, 1, 80, 12345, 0, 0, tcpAck, 0, []⟩] ∧
    ¬ Along Step (fun w e => Followed w.stack e) empty
      [.alloc, .bind 0 80, .listen 0 5, .packet 0 0 [] ⟨2, 1, 4000, 80, 0, 0, tcpSyn, 65535, []⟩,
        .packet 0 0 [] ⟨3, 1, 4000, 80, 0, 0, tcpAck, 65535, []⟩] := by
  constructor
  · intro h
    obtain ⟨id, tsk, parent, hhandler, -⟩ := h.1
    exact Option.some_ne_none _ (hhandler.symm.trans rfl)
  · intro h
    obtain ⟨id, tsk, parent, hhandler, hreturns⟩ :=
      ((((h.2 _ (step_of rfl)).2 _ (step_of rfl)).2 _ (step_of rfl)).2 _ (step_of rfl)).1
    cases hhandler.symm.trans (show _ = some (0, _, none) from rfl)
    exact hreturns rfl rfl

end Family

end NetStack.Tcp
