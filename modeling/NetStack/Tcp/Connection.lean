import NetStack.Lib.Run
import NetStack.Tcp.Host
import NetStack.Tcp.Process

/-! One connection, end to end.

A client that connects and then only writes, a server that listens, accepts and then only
reads, and a network that may lose, delay, repeat and reorder what is sent. Every packet
sent stays in the network's log: delivering an entry of it again repeats the packet,
never delivering it loses it. `space` and `emitted` are kept for the proofs only. -/
namespace NetStack.Tcp
open Reassembly (Faithful Fits Sits Window)

/-- The client's thread: before `tcp_sock_connect`, asleep in it, or in or between calls
of `tcp_sock_write`. -/
inductive ClientThread
  | start
  | connecting
  | writing (state : WriteState)
deriving DecidableEq, Repr

/-- The bytes passed to a write under way that it has not sent yet. -/
def ClientThread.pending : ClientThread → List U8
  | .writing state => state.pending
  | .start | .connecting => []

/-- Both hosts, their threads, and the network's log in each direction; the bytes passed
to the writes and returned by the reads. -/
structure Conn where
  client : Host
  thread : ClientThread
  server : Host
  accepted : Option Nat
  toServer : List Packet
  toClient : List Packet
  written : List U8
  read : List U8
  /-- What the client's sequence numbers from 0 on were given out to: bytes, or `none`
  for a SYN or FIN. -/
  space : List (Option U8)
  /-- The data segments the client put together, by their place in `space`. -/
  emitted : List (Nat × List U8)

/-- One call: of the client's thread, of either host's `handle_tcp_packet` on a packet of
the log, of either host's timer scan, or of the server's thread. -/
inductive ConnEvent
  | connect (addr : SockAddr)
  | connected
  | write (buf : List U8)
  | resume
  | toClient (i : Nat) (now : Int) (iss : U32)
  | clientTimer
  | toServer (i : Nat) (now : Int) (iss : U32) (sleeps : List (List Nat))
  | serverTimer (id : Nat)
  | accept
  | read (len : Nat)

namespace Conn

/-- A host with one fresh socket. -/
def freshClient : Host := { Host.empty with socks := [allocTcpSock] }

/-- A client with a fresh socket; a server whose socket is bound to a port and listens. -/
def start (sport : U16) (backlog : Int) : Conn where
  client := freshClient
  thread := .start
  server := (Host.bindHash { Host.empty with
    socks := [{ allocTcpSock with skSport := sport }] } 0).sockListen 0 backlog
  accepted := none
  toServer := []
  toClient := []
  written := []
  read := []
  space := []
  emitted := []

/-- `snd_nxt` of the host's first socket. -/
def sndNxt (host : Host) : U32 :=
  match host.socks[0]? with
  | none => 0
  | some tsk => tsk.sndNxt

/-- A call on the client that sends no new data; a SYN or FIN it sends takes a number. -/
def clientCall (c : Conn) (client : Host) (sent : List Packet) : Conn :=
  { c with
    client
    toServer := c.toServer ++ sent
    space := c.space ++ List.replicate (sndNxt client - sndNxt c.client).toNat none }

/-- A stretch of `tcp_sock_write`. -/
def writeCall (c : Conn) (tsk : TcpSock) (state : WriteState) (sent : List Packet) : Conn :=
  let chunk := sent.flatMap Packet.payload
  { c with
    client := c.client.modify 0 fun _ => tsk
    thread := .writing state
    toServer := c.toServer ++ sent
    space := c.space ++ chunk.map some
    emitted := if chunk = [] then c.emitted else c.emitted ++ [(c.space.length, chunk)] }

/-- One step. -/
def step (c : Conn) : ConnEvent → Option Conn
  | .connect addr =>
    match c.thread with
    | .start =>
      match c.client.sockConnect 0 addr with
      | none => none
      | some (sent, client) => some { c.clientCall client sent with thread := .connecting }
    | _ => none
  | .connected =>
    match c.thread with
    | .connecting => some { c with thread := .writing .idle }
    | _ => none
  | .write buf =>
    match c.thread, c.client.socks[0]? with
    | .writing .idle, some tsk =>
      let (tsk, state, sent) := tsk.sockWrite buf
      some { c.writeCall tsk state sent with written := c.written ++ buf }
    | _, _ => none
  | .resume =>
    match c.thread, c.client.socks[0]? with
    | .writing state, some tsk =>
      match tsk.writeResume state with
      | none => none
      | some (tsk, state, sent) => some (c.writeCall tsk state sent)
    | _, _ => none
  | .toClient i now iss =>
    match c.toClient[i]? with
    | none => none
    | some packet =>
      match c.client.handlePacket now iss [] packet with
      | none => none
      | some (sent, _, client) => some (c.clientCall client sent)
  | .clientTimer =>
    -- no scan visits the socket before `tcp_sock_connect` has set its timer
    match c.thread, c.client.scanRetransTimer 0 with
    | .start, _ | _, none => none
    | _, some (sent, client) => some (c.clientCall client sent)
  | .toServer i now iss sleeps =>
    match c.toServer[i]? with
    | none => none
    | some packet =>
      match c.server.handlePacket now iss sleeps packet with
      | none => none
      | some (sent, taken, server) =>
        some { c with server, toClient := c.toClient ++ sent, read := c.read ++ taken }
  | .serverTimer id =>
    match c.server.scanRetransTimer id with
    | none => none
    | some (sent, server) => some { c with server, toClient := c.toClient ++ sent }
  | .accept =>
    match c.accepted, c.server.sockAccept 0 with
    | none, some (id, server) => some { c with server, accepted := some id }
    | _, _ => none
  | .read len =>
    match c.accepted.bind fun id => c.server.sockRead id len with
    | none => none
    | some (out, server) => some { c with server, read := c.read ++ out }

/-- The step as a relation. -/
def Step (c : Conn) (e : ConnEvent) (c' : Conn) : Prop := c.step e = some c'

end Conn

end NetStack.Tcp
