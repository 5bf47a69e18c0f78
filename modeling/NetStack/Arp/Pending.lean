import NetStack.Ethernet

/-! Packets waiting for address resolution (`arpcache.c`, `iface_send_packet_by_arp` in
`arp.c` of `EXP18-TCP_Stack_4/code/18-tcp_stack`).

A packet whose next hop is not in the cache joins the queue of its interface and next hop,
which is made with it if need be and sends an ARP request every second until it is answered
or given up. The entries of the cache are left out: what `arpcache_lookup` answers comes
with the call. A packet and a queue are known by their numbers, in the order they are
submitted and made, where the source has their addresses. -/
namespace NetStack.Arp

/-- `ETH_P_IP`, `ARP_REQUEST_MAX_RETRIES`, `ICMP_DEST_UNREACH`, `ICMP_HOST_UNREACH`. -/
def ethPIp : U16 := 0x0800#16
def arpRequestMaxRetries : Nat := 5
def icmpDestUnreach : U8 := 3#8
def icmpHostUnreach : U8 := 1#8

/-- `iface_info_t`, as far as this file reads it. -/
structure IfaceInfo where
  index : Int
  mac : Mac
deriving DecidableEq, Repr

/-- `struct cached_pkt`; `len` is the length of the frame. -/
structure CachedPkt where
  packet : EtherFrame
  id : Nat
deriving DecidableEq, Repr

/-- `struct arp_req`. -/
structure ArpReq where
  iface : IfaceInfo
  ip4 : U32
  sent : Int
  retries : Nat
  cachedPackets : List CachedPkt
  id : Nat
deriving DecidableEq, Repr

/-- What goes out of an interface: a packet, or an ARP request for a queue. -/
inductive Sent
  | packet (iface : IfaceInfo) (pkt : CachedPkt)
  | request (iface : IfaceInfo) (dstIp : U32) (req : Nat)
deriving DecidableEq, Repr

/-- A call of `icmp_send_packet`. -/
structure IcmpCall where
  pkt : CachedPkt
  type : U8
  code : U8
deriving DecidableEq, Repr

/-- A call of `iface_send_packet_by_arp`, with the time and what `arpcache_lookup` answers. -/
structure Submission where
  now : Int
  iface : IfaceInfo
  dstIp : U32
  packet : EtherFrame
  found : Option Mac
deriving DecidableEq, Repr

/-- The queues of `arpcache_t`, with how many packets were submitted and queues made so far,
what was sent and handed to ICMP, and the queues given up, all oldest first. -/
structure ArpCache where
  reqList : List ArpReq
  submitted : Nat
  made : Nat
  wire : List Sent
  icmp : List IcmpCall
  givenUp : List ArpReq

/-- `arpcache_init`. -/
def arpcacheInit : ArpCache := ⟨[], 0, 0, [], [], []⟩

/-- The queue is the one for this interface and next hop. -/
def ArpReq.isFor (iface : IfaceInfo) (ip4 : U32) (req : ArpReq) : Bool :=
  req.iface.index = iface.index ∧ req.ip4 = ip4

/-- The packet at the tail of the first queue that is for it; `none` if there is none. -/
def joinQueue (iface : IfaceInfo) (ip4 : U32) (pkt : CachedPkt) : List ArpReq → Option (List ArpReq)
  | [] => none
  | req :: rest =>
    if req.isFor iface ip4 then some ({ req with cachedPackets := req.cachedPackets ++ [pkt] } :: rest)
    else (joinQueue iface ip4 pkt rest).map (req :: ·)

namespace ArpCache

/-- `arpcache_append_packet`. -/
def appendPacket (s : ArpCache) (now : Int) (iface : IfaceInfo) (ip4 : U32) (pkt : CachedPkt) : ArpCache :=
  match joinQueue iface ip4 pkt s.reqList with
  | some reqList => { s with reqList }
  | none =>
    { s with
      reqList := ⟨iface, ip4, now, 1, [pkt], s.made⟩ :: s.reqList
      made := s.made + 1
      wire := s.wire ++ [.request iface ip4 s.made] }

/-- `iface_send_packet_by_arp`. -/
def sendPacketByArp (s : ArpCache) (call : Submission) : ArpCache :=
  let packet : EtherFrame := { call.packet with etherShost := call.iface.mac, etherType := ethPIp }
  let id := s.submitted
  let s : ArpCache := { s with submitted := id + 1 }
  match call.found with
  | some mac => { s with wire := s.wire ++ [.packet call.iface ⟨{ packet with etherDhost := mac }, id⟩] }
  | none => s.appendPacket call.now call.iface call.dstIp ⟨packet, id⟩


/-- What `arpcache_insert` sends of a queue. -/
def release (mac : Mac) (req : ArpReq) : List Sent :=
  req.cachedPackets.map fun pkt =>
    .packet req.iface
      { pkt with packet := { pkt.packet with etherDhost := mac, etherShost := req.iface.mac } }

/-- `arpcache_insert`, its scan of the queues: the first one for the address is sent and
deleted, and the scan ends there. -/
def insert (s : ArpCache) (ip4 : U32) (mac : Mac) : ArpCache :=
  match s.reqList.find? fun req => req.ip4 = ip4 with
  | none => s
  | some req =>
    { s with
      reqList := s.reqList.eraseP fun req => req.ip4 = ip4
      wire := s.wire ++ release mac req }

/-- The scan of `arpcache_sweep`: the queues that are left, the ARP requests sent, and the
queues deleted. -/
def sweepReqs (now : Int) : List ArpReq → List ArpReq × List Sent × List ArpReq
  | [] => ([], [], [])
  | req :: rest =>
    let (left, sent, deleted) := sweepReqs now rest
    if now - req.sent < 1 then (req :: left, sent, deleted)
    else if req.retries < arpRequestMaxRetries then
      ({ req with retries := req.retries + 1 } :: left, .request req.iface req.ip4 req.id :: sent, deleted)
    else (left, sent, req :: deleted)

/-- The end of `arpcache_sweep`: each packet of `pkt_list` is handed to `icmp_send_packet`,
which finds no route or sends a packet of its own, and is freed. -/
def sendUnreach (s : ArpCache) : List CachedPkt → List (Option Submission) → ArpCache
  | [], _ => s
  | pkt :: rest, calls =>
    let s : ArpCache := { s with icmp := s.icmp ++ [⟨pkt, icmpDestUnreach, icmpHostUnreach⟩] }
    match calls with
    | some call :: calls => (s.sendPacketByArp call).sendUnreach rest calls
    | none :: calls => s.sendUnreach rest calls
    | [] => s.sendUnreach rest []

/-- One pass of `arpcache_sweep`, with what `icmp_send_packet` sends for each packet of
`pkt_list`. -/
def sweep (s : ArpCache) (now : Int) (calls : List (Option Submission)) : ArpCache :=
  let (left, sent, deleted) := sweepReqs now s.reqList
  let s : ArpCache :=
    { s with reqList := left, wire := s.wire ++ sent, givenUp := s.givenUp ++ deleted }
  s.sendUnreach (deleted.flatMap ArpReq.cachedPackets) calls

/-- A call of `iface_send_packet_by_arp` or `arpcache_insert`, or a pass of the sweep. -/
inductive Event
  | send (call : Submission)
  | insert (ip4 : U32) (mac : Mac)
  | sweep (now : Int) (calls : List (Option Submission))

def step (s : ArpCache) : Event → ArpCache
  | .send call => s.sendPacketByArp call
  | .insert ip4 mac => s.insert ip4 mac
  | .sweep now calls => s.sweep now calls

/-- The cache after these events. -/
def run (events : List Event) : ArpCache := events.foldl step arpcacheInit

end ArpCache

end NetStack.Arp
