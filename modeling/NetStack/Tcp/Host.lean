import NetStack.Tcp.In
import NetStack.Tcp.Write

/-! A host's sockets and tables (`tcp_sock.c`, `handle_tcp_packet` in `tcp.c`).

Sockets are named by their index. The hash tables keep, for each key, the sockets in list
order; since a lookup compares the whole key, one list for each table stands for all its
buckets. -/
namespace NetStack.Tcp

/-- The sockets allocated so far, the three tables, and the sockets `free_tcp_sock` has
released. -/
structure Host where
  socks : List TcpSock
  established : List Nat
  listening : List Nat
  bound : List Nat
  freed : List Nat

/-- The 4-tuple a socket and its packets are known by, seen from the socket. -/
structure SockAddr where
  sip : U32
  sport : U16
  dip : U32
  dport : U16
deriving DecidableEq, Repr

def TcpSock.addr (tsk : TcpSock) : SockAddr := ⟨tsk.skSip, tsk.skSport, tsk.skDip, tsk.skDport⟩

namespace Host

def empty : Host := ⟨[], [], [], [], []⟩

/-- Change one socket. -/
def modify (h : Host) (id : Nat) (f : TcpSock → TcpSock) : Host :=
  { h with socks := h.socks.modify id f }

/-- `free_tcp_sock`. -/
def freeTcpSock (h : Host) (id : Nat) : Host :=
  let h := h.modify id fun tsk => { tsk with refCnt := tsk.refCnt - 1 }
  match h.socks[id]? with
  | none => h
  | some tsk => if tsk.refCnt ≤ 0 then { h with freed := id :: h.freed } else h

/-- A socket of the table with this 4-tuple, the first one. -/
def lookupEstablished (h : Host) (addr : SockAddr) : Option Nat :=
  h.established.find? fun id =>
    match h.socks[id]? with
    | none => false
    | some tsk => tsk.addr = addr

/-- `tcp_sock_lookup_listen`: by the port only. -/
def lookupListen (h : Host) (sport : U16) : Option Nat :=
  h.listening.find? fun id =>
    match h.socks[id]? with
    | none => false
    | some tsk => tsk.skSport = sport

/-- `tcp_sock_lookup`. -/
def sockLookup (h : Host) (cb : TcpCb) : Option Nat :=
  match h.lookupEstablished ⟨cb.daddr, cb.dport, cb.saddr, cb.sport⟩ with
  | some id => some id
  | none => h.lookupListen cb.dport

/-- `tcp_bind_hash`. -/
def bindHash (h : Host) (id : Nat) : Host :=
  modify { h with bound := id :: h.bound } id fun tsk => { tsk with refCnt := tsk.refCnt + 1 }

/-- `tcp_bind_unhash`. -/
def bindUnhash (h : Host) (id : Nat) : Host :=
  if id ∈ h.bound then freeTcpSock { h with bound := h.bound.erase id } id else h

/-- `tcp_hash`: a closed socket, or one whose 4-tuple is taken, is not entered. -/
def hash (h : Host) (id : Nat) : Host :=
  let enter := fun tsk : TcpSock => { tsk with refCnt := tsk.refCnt + 1 }
  match h.socks[id]? with
  | none => h
  | some tsk =>
    match tsk.state with
    | .closed => h
    | .listen => modify { h with listening := id :: h.listening } id enter
    | _ =>
      match h.lookupEstablished tsk.addr with
      | some _ => h
      | none => modify { h with established := id :: h.established } id enter

/-- `tcp_unhash`. -/
def unhash (h : Host) (id : Nat) : Host :=
  if id ∈ h.established ∨ id ∈ h.listening then
    freeTcpSock { h with established := h.established.erase id, listening := h.listening.erase id } id
  else h

/-- Child `id` out of the queue it is in and to the end of the accept queue. -/
def enqueue (id : Nat) (tsk : TcpSock) : TcpSock :=
  { tsk with
    listenQueue := tsk.listenQueue.erase id
    acceptQueue := tsk.acceptQueue.erase id ++ [id]
    acceptBacklog := tsk.acceptBacklog + 1 }

/-- `tcp_sock_accept_enqueue`. -/
def acceptEnqueue (h : Host) (id : Nat) : Host :=
  match (h.socks[id]?).bind TcpSock.parent with
  | none => h
  | some parent => h.modify parent (enqueue id)

/-- A new child of socket `parent`: into the listen queue and the table. -/
def addChild (h : Host) (parent : Nat) (child : TcpSock) : Host :=
  let id := h.socks.length
  let h := { h with socks := h.socks ++ [child] }
  (h.modify parent fun tsk => { tsk with listenQueue := tsk.listenQueue ++ [id] }).hash id

/-- What a call on socket `id` does to the host. -/
def commit (h : Host) (id : Nat) (outcome : Outcome) : Host :=
  let h := h.modify id fun _ => outcome.tsk
  let h :=
    match outcome.child with
    | none => h
    | some child => h.addChild id child
  let h := if outcome.acceptEnqueue then h.acceptEnqueue id else h
  if outcome.unhash then h.unhash id else h

/-- `handle_tcp_packet` on a packet whose checksum is right: what it sends, what the
application reads meanwhile, and the host after it. Without a socket `tcp_process`
follows a null pointer. -/
def handlePacket (h : Host) (now : Int) (iss : U32) (sleeps : List (List Nat)) (packet : Packet) :
    Option (List Packet × List U8 × Host) :=
  let cb := tcpCbInit packet
  match h.sockLookup cb with
  | none => none
  | some id =>
    match h.socks[id]? with
    | none => none
    | some tsk =>
      match tcpProcess now id iss (tsk.parent.bind fun p => h.socks[p]?) sleeps tsk cb with
      | none => none
      | some outcome => some (outcome.sent, outcome.taken, h.commit id outcome)

/-- `tcp_scan_retrans_timer_list` at the timer of socket `id`; one that gives up leaves
the bind table, unless it has a parent. -/
def scanRetransTimer (h : Host) (id : Nat) : Option (List Packet × Host) :=
  match h.socks[id]? with
  | none => none
  | some tsk =>
    let (tsk', sent) := tsk.scanRetransTimer
    let h := if tsk.state ≠ .closed ∧ tsk'.state = .closed ∧ tsk.parent = none then h.bindUnhash id else h
    some (sent, h.modify id fun t => { tsk' with refCnt := t.refCnt })

/-- `tcp_sock_listen`. -/
def sockListen (h : Host) (id : Nat) (backlog : Int) : Host :=
  (h.modify id fun tsk => { tsk with backlog, state := .listen }).hash id

/-- `tcp_sock_connect` up to its sleep, with the port `tcp_get_port` found and the route's
interface address in `addr`. -/
def sockConnect (h : Host) (id : Nat) (addr : SockAddr) : Option (List Packet × Host) :=
  let h := (h.modify id fun tsk => { tsk with
    skSip := addr.sip, skSport := addr.sport, skDip := addr.dip, skDport := addr.dport }).bindHash id
  match h.socks[id]? with
  | none => none
  | some tsk =>
    let (tsk, sent) := tsk.setRetransTimer.control tcpSyn
    some (sent, (h.modify id fun _ => { tsk with state := .synSent }).hash id)

/-- `tcp_sock_accept`: the socket it returns; `none` while the accept queue is empty. -/
def sockAccept (h : Host) (id : Nat) : Option (Nat × Host) :=
  match h.socks[id]? with
  | none => none
  | some tsk =>
    match tsk.acceptQueue with
    | [] => none
    | child :: rest =>
      let h := h.modify id fun tsk =>
        { tsk with acceptQueue := rest, acceptBacklog := tsk.acceptBacklog - 1 }
      some (child, h.modify child fun tsk =>
        { tsk with state := .established, nrState := .open, cwnd := 1, ssthresh := 16 })

/-- `tcp_sock_read`. -/
def sockRead (h : Host) (id : Nat) (len : Nat) : Option (List U8 × Host) :=
  match (h.socks[id]?).bind fun tsk => tsk.sockRead len with
  | none => none
  | some (out, tsk) => some (out, h.modify id fun _ => tsk)

/-! ### What the calls do to the sockets

The tables only count references in a socket. -/

/-- A socket with its reference count changed. -/
def recount (f : Int → Int) (tsk : TcpSock) : TcpSock := { tsk with refCnt := f tsk.refCnt }

theorem modify_recount_id (socks : List TcpSock) (id : Nat) :
    socks = socks.modify id (recount fun n => n) := by
  have : (recount fun n => n) = fun tsk => tsk := rfl
  rw [this]
  exact (List.modify_id id socks).symm

theorem freeTcpSock_socks (h : Host) (id : Nat) :
    (h.freeTcpSock id).socks = h.socks.modify id (recount (· - 1)) := by
  unfold freeTcpSock modify
  dsimp only
  split
  · rfl
  · split <;> rfl

theorem unhash_socks (h : Host) (id : Nat) : ∃ f, (h.unhash id).socks = h.socks.modify id (recount f) := by
  unfold unhash
  split
  · exact ⟨_, freeTcpSock_socks _ id⟩
  · exact ⟨_, modify_recount_id h.socks id⟩

theorem bindUnhash_socks (h : Host) (id : Nat) :
    ∃ f, (h.bindUnhash id).socks = h.socks.modify id (recount f) := by
  unfold bindUnhash
  split
  · exact ⟨_, freeTcpSock_socks _ id⟩
  · exact ⟨_, modify_recount_id h.socks id⟩

theorem hash_socks (h : Host) (id : Nat) : ∃ f, (h.hash id).socks = h.socks.modify id (recount f) := by
  have hsame : ∃ f, h.socks = h.socks.modify id (recount f) := ⟨_, modify_recount_id h.socks id⟩
  unfold hash
  dsimp only
  split
  · exact hsame
  · split
    · exact hsame
    · exact ⟨(· + 1), rfl⟩
    · split
      · exact hsame
      · exact ⟨(· + 1), rfl⟩

/-- A packet is handled by the socket the lookup finds. -/
theorem handlePacket_cases {h h' : Host} {now : Int} {iss : U32} {sleeps : List (List Nat)}
    {packet : Packet} {sent : List Packet} {taken : List U8}
    (hrun : h.handlePacket now iss sleeps packet = some (sent, taken, h')) :
    ∃ id tsk outcome, h.sockLookup (tcpCbInit packet) = some id ∧ h.socks[id]? = some tsk ∧
      tcpProcess now id iss (tsk.parent.bind fun p => h.socks[p]?) sleeps tsk (tcpCbInit packet) =
        some outcome ∧
      sent = outcome.sent ∧ taken = outcome.taken ∧ h' = h.commit id outcome := by
  unfold handlePacket at hrun
  dsimp only at hrun
  split at hrun
  · cases hrun
  · rename_i id hid
    split at hrun
    · cases hrun
    · rename_i tsk htsk
      split at hrun
      · cases hrun
      · rename_i outcome hout
        cases hrun
        exact ⟨id, tsk, outcome, hid, htsk, hout, rfl, rfl, rfl⟩

/-- Without a child, a call changes its own socket, and maybe its parent's accept queue. -/
theorem commit_socks (h : Host) {id : Nat} {outcome : Outcome} (hchild : outcome.child = none) :
    ∃ f, (h.commit id outcome).socks =
      ((if outcome.acceptEnqueue then (h.modify id fun _ => outcome.tsk).acceptEnqueue id
        else h.modify id fun _ => outcome.tsk).socks).modify id (recount f) := by
  unfold commit
  rw [hchild]
  dsimp only
  split
  · exact unhash_socks _ id
  · exact ⟨_, modify_recount_id _ id⟩

/-- Nothing but the reference count and the queues differs. -/
def Bookkept (tsk tsk' : TcpSock) : Prop :=
  tsk' = { tsk with
    refCnt := tsk'.refCnt, listenQueue := tsk'.listenQueue, acceptQueue := tsk'.acceptQueue
    acceptBacklog := tsk'.acceptBacklog }

theorem acceptEnqueue_single {h : Host} {tsk : TcpSock} (id : Nat) (hsocks : h.socks = [tsk]) :
    ∃ tsk', (h.acceptEnqueue id).socks = [tsk'] ∧ Bookkept tsk tsk' := by
  unfold acceptEnqueue
  split
  · exact ⟨tsk, hsocks, rfl⟩
  · rename_i p _
    cases p with
    | zero => exact ⟨enqueue id tsk, by simp [modify, hsocks], rfl⟩
    | succ p => exact ⟨tsk, by simp [modify, hsocks], rfl⟩

/-- On a host with one socket a call leaves that socket as it made it. -/
theorem commit_single {h : Host} {tsk : TcpSock} {outcome : Outcome} (hsocks : h.socks = [tsk])
    (hchild : outcome.child = none) :
    ∃ tsk', (h.commit 0 outcome).socks = [tsk'] ∧ Bookkept outcome.tsk tsk' := by
  have hset : (h.modify 0 fun _ => outcome.tsk).socks = [outcome.tsk] := by simp [modify, hsocks]
  obtain ⟨f, hf⟩ := commit_socks h hchild
  rw [hf]
  split
  · obtain ⟨tsk', htsk', hkept⟩ := acceptEnqueue_single 0 hset
    refine ⟨recount f tsk', by simp [htsk'], ?_⟩
    unfold Bookkept at hkept ⊢
    rw [hkept]
    rfl
  · exact ⟨recount f outcome.tsk, by simp [hset], rfl⟩

/-- The timer scan changes its own socket. -/
theorem scanRetransTimer_socks {h h' : Host} {id : Nat} {sent : List Packet}
    (hrun : h.scanRetransTimer id = some (sent, h')) :
    ∃ (tsk : TcpSock) (f : Int → Int), h.socks[id]? = some tsk ∧ sent = tsk.scanRetransTimer.2 ∧
      h'.socks = h.socks.modify id fun t => recount (fun _ => f t.refCnt) tsk.scanRetransTimer.1 := by
  unfold scanRetransTimer at hrun
  split at hrun
  · cases hrun
  · rename_i tsk htsk
    generalize hresult : tsk.scanRetransTimer = result at hrun
    obtain ⟨tsk', sent'⟩ := result
    simp only [Option.some.injEq, Prod.mk.injEq] at hrun
    obtain ⟨rfl, rfl⟩ := hrun
    have hbind : ∃ f, (if tsk.state ≠ .closed ∧ tsk'.state = .closed ∧ tsk.parent = none then
        h.bindUnhash id else h).socks = h.socks.modify id (recount f) := by
      split
      · exact bindUnhash_socks h id
      · exact ⟨_, modify_recount_id h.socks id⟩
    obtain ⟨f, hf⟩ := hbind
    refine ⟨tsk, f, htsk, by rw [hresult], ?_⟩
    rw [hresult]
    show List.modify _ id _ = _
    rw [hf, List.modify_modify_eq]
    rfl

end Host

end NetStack.Tcp
