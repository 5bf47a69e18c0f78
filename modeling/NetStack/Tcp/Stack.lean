import NetStack.ByteOrder
import NetStack.Lib.LinkedList
import NetStack.Lib.Run
import NetStack.Tcp.Host

/-! A host's sockets with the tables as they lie in memory (`tcp_sock.c`, `tcp_hash.h`,
`alloc_child_tcp_sock` in `tcp_in.c`, `tcp_timer.c`).

`Host` keeps a table as the list of the sockets in it. Here the tables are what the
source has, bucket heads and the two list nodes each socket carries, so that a node that
was never linked, one that still points where it was once linked, and the copies a child
takes of its listener's nodes are told apart. Whatever follows a null pointer, a walk that
does not come back to its head or a released socket has no next state.

Two things are left to the events: which port `tcp_get_port` finds and whether
`tcp_sock_bind` is refused one (`tcp_port_in_use` walks the bind table through the wrong
member, so it reads half of some other field for the port), and when a timer is on its
list. -/
namespace NetStack.Tcp
open LinkedList (Heap Links)

/-- `hash8`. -/
def hash8 (bytes : List U8) : U8 := bytes.foldl (· ^^^ ·) 0

/-- `tcp_hash_function`; the mask of `TCP_HASH_SIZE` keeps all eight bits. -/
def tcpHashFunction (saddr daddr : U32) (sport dport : U16) : U8 :=
  hash8 (bytes32 saddr) ^^^ hash8 (bytes32 daddr) ^^^ hash8 (bytes16 sport) ^^^ hash8 (bytes16 dport)

/-- The buckets `hash_list` can be linked into. -/
inductive HashHead
  | established (bucket : U8)
  | listen (bucket : U8)
deriving DecidableEq

/-- The bucket of the established table for a 4-tuple, and that of the listen table for a
port. -/
def SockAddr.bucket (addr : SockAddr) : HashHead :=
  .established (tcpHashFunction addr.sip addr.dip addr.sport addr.dport)

def portBucket (sport : U16) : U8 := tcpHashFunction 0 0 sport 0

/-- The sockets allocated so far and the ones released; the nodes `hash_list` and
`bind_hash_list` of each of them with the buckets; and where each socket's
`tcp_sock_write` stands. -/
structure Stack where
  socks : List TcpSock
  hashList : Heap HashHead Nat
  bindHashList : Heap U8 Nat
  freed : List Nat
  writes : Nat → WriteState

def TcpSock.setAddr (tsk : TcpSock) (addr : SockAddr) : TcpSock :=
  { tsk with skSip := addr.sip, skSport := addr.sport, skDip := addr.dip, skDport := addr.dport }

namespace Stack

/-- Every head alone in its list, every other node zero. -/
def emptyTables (T : Type) : Heap T Nat
  | .head t => ⟨some (.head t), some (.head t)⟩
  | .entry _ => ⟨none, none⟩

/-- `init_tcp_stack`. -/
def empty : Stack := ⟨[], emptyTables HashHead, emptyTables U8, [], fun _ => .idle⟩

/-- A socket that has not been released. -/
def sock (s : Stack) (id : Nat) : Option TcpSock := if id ∈ s.freed then none else s.socks[id]?

def modify (s : Stack) (id : Nat) (f : TcpSock → TcpSock) : Stack :=
  { s with socks := s.socks.modify id f }

/-! ### The tables -/

/-- `free_tcp_sock`. -/
def freeTcpSock (s : Stack) (id : Nat) : Stack :=
  let s := s.modify id (Host.recount (· - 1))
  match s.socks[id]? with
  | none => s
  | some tsk => if tsk.refCnt ≤ 0 then { s with freed := id :: s.freed } else s

/-- `list_for_each_entry` over a bucket of the established or the listen table, to the
first socket that satisfies `p`. -/
def findSock (s : Stack) (t : HashHead) (p : TcpSock → Bool) : Option (Option Nat) :=
  s.hashList.find t (fun id => (s.socks[id]?).any p) (s.socks.length + 1) (.head t)

/-- `tcp_sock_lookup_established`. -/
def lookupEstablished (s : Stack) (addr : SockAddr) : Option (Option Nat) :=
  s.findSock addr.bucket fun tsk => tsk.addr = addr

/-- `tcp_sock_lookup_listen`. -/
def lookupListen (s : Stack) (sport : U16) : Option (Option Nat) :=
  s.findSock (.listen (portBucket sport)) fun tsk => tsk.skSport = sport

/-- `tcp_sock_lookup`. -/
def sockLookup (s : Stack) (cb : TcpCb) : Option (Option Nat) :=
  match s.lookupEstablished ⟨cb.daddr, cb.dport, cb.saddr, cb.sport⟩ with
  | none => none
  | some (some id) => some (some id)
  | some none => s.lookupListen cb.dport

/-- Link `hash_list` into a bucket and count the reference. -/
def linkHash (s : Stack) (id : Nat) (t : HashHead) : Option Stack :=
  match s.hashList.addHead (.entry id) (.head t) with
  | none => none
  | some hashList => some (modify { s with hashList } id (Host.recount (· + 1)))

/-- `tcp_bind_hash`, for a socket whose source port is `sport`. -/
def bindHash (s : Stack) (id : Nat) (sport : U16) : Option Stack :=
  match s.bindHashList.addHead (.entry id) (.head (portBucket sport)) with
  | none => none
  | some bindHashList => some (modify { s with bindHashList } id (Host.recount (· + 1)))

/-- `tcp_bind_unhash`. -/
def bindUnhash (s : Stack) (id : Nat) : Option Stack :=
  if s.bindHashList.isEmpty (.entry id) then some s
  else
    match s.bindHashList.deleteEntry (.entry id) with
    | none => none
    | some bindHashList => some (freeTcpSock { s with bindHashList } id)

/-- `tcp_hash`. -/
def hash (s : Stack) (id : Nat) : Option Stack :=
  match s.socks[id]? with
  | none => none
  | some tsk =>
    match tsk.state with
    | .closed => some s
    | .listen => s.linkHash id (.listen (portBucket tsk.skSport))
    | _ =>
      match s.lookupEstablished tsk.addr with
      | none => none
      | some (some _) => some s
      | some none => s.linkHash id tsk.addr.bucket

/-- `tcp_unhash`. -/
def unhash (s : Stack) (id : Nat) : Option Stack :=
  if s.hashList.isEmpty (.entry id) then some s
  else
    match s.hashList.deleteEntry (.entry id) with
    | none => none
    | some hashList => some (freeTcpSock { s with hashList } id)

/-! ### Calls on a socket -/

/-- `alloc_tcp_sock`. Neither `hash_list` nor `bind_hash_list` is initialised. -/
def alloc (s : Stack) : Stack :=
  let id := s.socks.length
  { s with
    socks := s.socks ++ [allocTcpSock]
    hashList := Function.update s.hashList (.entry id) ⟨none, none⟩
    bindHashList := Function.update s.bindHashList (.entry id) ⟨none, none⟩ }

/-- The rest of `alloc_child_tcp_sock`: the child's nodes are copies too, until it is
entered in the listen queue and the table. -/
def addChild (s : Stack) (parent : Nat) (child : TcpSock) : Option Stack :=
  let id := s.socks.length
  let s : Stack :=
    { s with
      socks := s.socks ++ [child]
      hashList := Function.update s.hashList (.entry id) (s.hashList (.entry parent))
      bindHashList := Function.update s.bindHashList (.entry id) (s.bindHashList (.entry parent)) }
  (s.modify parent fun tsk => { tsk with listenQueue := tsk.listenQueue ++ [id] }).hash id

/-- `tcp_sock_accept_enqueue`. -/
def acceptEnqueue (s : Stack) (id : Nat) : Stack :=
  match (s.socks[id]?).bind TcpSock.parent with
  | none => s
  | some parent => s.modify parent (Host.enqueue id)

/-- What a call on socket `id` does to the host. -/
def commit (s : Stack) (id : Nat) (outcome : Outcome) : Option Stack :=
  let s := s.modify id fun _ => outcome.tsk
  let s := if outcome.acceptEnqueue then s.acceptEnqueue id else s
  match outcome.child with
  | none => if outcome.unhash then s.unhash id else some s
  | some child => s.addChild id child

/-- A call on a socket that changes nothing else. -/
def call (s : Stack) (id : Nat) (f : TcpSock → TcpSock) : Option Stack :=
  match s.sock id with
  | none => none
  | some _ => some (s.modify id f)

/-- `tcp_sock_bind`, where the port is free. -/
def sockBind (s : Stack) (id : Nat) (port : U16) : Option Stack :=
  match s.sock id with
  | none => none
  | some _ => (s.modify id fun tsk => { tsk with skSport := port }).bindHash id port

/-- `tcp_sock_listen`. -/
def sockListen (s : Stack) (id : Nat) (backlog : Int) : Option Stack :=
  match s.sock id with
  | none => none
  | some _ => (s.modify id fun tsk => { tsk with backlog, state := .listen }).hash id

/-- `tcp_sock_connect` up to its sleep, with the port `tcp_get_port` found and the route's
interface address in `addr`. -/
def sockConnect (s : Stack) (id : Nat) (addr : SockAddr) : Option Stack :=
  match s.sock id with
  | none => none
  | some _ =>
    match (s.modify id fun tsk => tsk.setAddr addr).bindHash id addr.sport with
    | none => none
    | some s => (s.modify id fun tsk =>
        { (tsk.setRetransTimer.control tcpSyn).1 with state := .synSent }).hash id

/-- `tcp_sock_accept`, once the accept queue is not empty. -/
def sockAccept (s : Stack) (id : Nat) : Option Stack :=
  match (s.sock id).map TcpSock.acceptQueue with
  | none | some [] => none
  | some (child :: rest) =>
    (s.modify id fun tsk =>
      { tsk with acceptQueue := rest, acceptBacklog := tsk.acceptBacklog - 1 }).call child fun tsk =>
        { tsk with state := .established, nrState := .open, cwnd := 1, ssthresh := 16 }

/-- `tcp_sock_close`. -/
def sockClose (s : Stack) (id : Nat) : Option Stack :=
  match s.sock id with
  | none => none
  | some tsk => s.commit id tsk.sockClose

/-- `tcp_sock_read`, once there is something to read. -/
def sockRead (s : Stack) (id : Nat) (len : Nat) : Option Stack :=
  match (s.sock id).bind fun tsk => tsk.sockRead len with
  | none => none
  | some (_, tsk) => some (s.modify id fun _ => tsk)

/-- A stretch of `tcp_sock_write`. -/
def writeCall (s : Stack) (id : Nat) (result : TcpSock × WriteState × List Packet) : Stack :=
  { s.modify id fun _ => result.1 with writes := Function.update s.writes id result.2.1 }

/-- `tcp_sock_write`, up to its first sleep. -/
def sockWrite (s : Stack) (id : Nat) (buf : List U8) : Option Stack :=
  match s.sock id, s.writes id with
  | some tsk, .idle => some (s.writeCall id (tsk.sockWrite buf))
  | _, _ => none

/-- `tcp_sock_write`, from one sleep to the next. -/
def resume (s : Stack) (id : Nat) : Option Stack :=
  match (s.sock id).bind fun tsk => tsk.writeResume (s.writes id) with
  | none => none
  | some result => some (s.writeCall id result)

/-- The socket `handle_tcp_packet` gives a packet to, and its parent. -/
def handler (s : Stack) (packet : Packet) : Option (Nat × TcpSock × Option TcpSock) :=
  match s.sockLookup (tcpCbInit packet) with
  | none | some none => none
  | some (some id) =>
    match s.sock id with
    | none => none
    | some tsk => some (id, tsk, tsk.parent.bind s.sock)

/-- `handle_tcp_packet` on a packet whose checksum is right. -/
def handlePacket (s : Stack) (now : Int) (iss : U32) (sleeps : List (List Nat)) (packet : Packet) :
    Option Stack :=
  match s.handler packet with
  | none => none
  | some (id, tsk, parent) =>
    match tcpProcess now id iss parent sleeps tsk (tcpCbInit packet) with
    | none => none
    | some outcome => s.commit id outcome

/-- `tcp_scan_retrans_timer_list` at the timer of socket `id`. -/
def scanRetransTimer (s : Stack) (id : Nat) : Option Stack :=
  match s.sock id with
  | none => none
  | some tsk =>
    let tsk' := tsk.scanRetransTimer.1
    let s := s.modify id fun _ => tsk'
    if tsk.state ≠ .closed ∧ tsk'.state = .closed ∧ tsk.parent = none then s.bindUnhash id else some s

/-- `tcp_scan_timer_list` at the timer of socket `id`. -/
def scanTimer (s : Stack) (id : Nat) (now : Int) : Option Stack :=
  match s.sock id with
  | none => none
  | some tsk =>
    if tsk.timewait.due now then
      (s.modify id fun tsk => { tsk with state := .closed }).bindUnhash id
    else some s

/-! ### Runs -/

/-- One call: of the application, of `handle_tcp_packet`, or of a timer scan at one timer. -/
inductive Event
  | alloc
  | bind (id : Nat) (port : U16)
  | listen (id : Nat) (backlog : Int)
  | connect (id : Nat) (addr : SockAddr)
  | accept (id : Nat)
  | close (id : Nat)
  | read (id : Nat) (len : Nat)
  | write (id : Nat) (buf : List U8)
  | resume (id : Nat)
  | packet (now : Int) (iss : U32) (sleeps : List (List Nat)) (packet : Packet)
  | retransTimer (id : Nat)
  | timewaitTimer (id : Nat) (now : Int)

def step (s : Stack) : Event → Option Stack
  | .alloc => some s.alloc
  | .bind id port => s.sockBind id port
  | .listen id backlog => s.sockListen id backlog
  | .connect id addr => s.sockConnect id addr
  | .accept id => s.sockAccept id
  | .close id => s.sockClose id
  | .read id len => s.sockRead id len
  | .write id buf => s.sockWrite id buf
  | .resume id => s.resume id
  | .packet now iss sleeps packet => s.handlePacket now iss sleeps packet
  | .retransTimer id => s.scanRetransTimer id
  | .timewaitTimer id now => s.scanTimer id now

def Step (s : Stack) (e : Event) (t : Stack) : Prop := s.step e = some t

end Stack

end NetStack.Tcp
