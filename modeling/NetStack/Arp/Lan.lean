import NetStack.Arp.Cache
import NetStack.Arp.Pending
import NetStack.ByteOrder
import NetStack.Lib.Run

/-! Boxes that resolve each other's addresses (`arp.c`, `arpcache.c`, `include/arp.h` and `handle_packet`
in `main.c` of `EXP18-TCP_Stack_4/code/18-tcp_stack`).

The interfaces of the boxes are on LANs. What one sends comes to any interface on its LAN, itself
not excepted, late, again or never. A box asks for the hardware address of a next hop it has none for, and takes it
from every request and every reply that is for one of its own addresses. -/
namespace NetStack.Arp.Lan

/-- `ETH_P_ARP`, `ARPHRD_ETHER`, `ARPOP_REQUEST`, `ARPOP_REPLY`, `ARP_ENTRY_TIMEOUT`. -/
def ethPArp : U16 := 0x0806
def arphrdEther : U16 := 1
def arpopRequest : U16 := 1
def arpopReply : U16 := 2
def arpEntryTimeout : Int := 15

/-! ### Messages -/

/-- `struct ether_arp`, its fields as the host reads them in the packet. -/
structure EtherArp where
  arpHrd : U16
  arpPro : U16
  arpHln : U8
  arpPln : U8
  arpOp : U16
  arpSha : Mac
  arpSpa : U32
  arpTha : Mac
  arpTpa : U32
deriving DecidableEq, Repr

/-- The bytes of a message. -/
def EtherArp.bytes (arp : EtherArp) : List U8 :=
  bytes16 arp.arpHrd ++ (bytes16 arp.arpPro ++ (arp.arpHln :: arp.arpPln :: (bytes16 arp.arpOp ++
    (arp.arpSha.toList ++ (bytes32 arp.arpSpa ++ (arp.arpTha.toList ++ bytes32 arp.arpTpa))))))

/-- The byte, half word, word and hardware address at an offset. What is behind the end of a
frame is left open in the source, and zero here. -/
def byteAt (body : List U8) (i : Nat) : U8 := body[i]?.getD 0
def u16At (body : List U8) (i : Nat) : U16 := byteAt body (i + 1) ++ byteAt body i
def u32At (body : List U8) (i : Nat) : U32 :=
  byteAt body (i + 3) ++ byteAt body (i + 2) ++ byteAt body (i + 1) ++ byteAt body i
def macAt (body : List U8) (i : Nat) : Mac := Vector.ofFn fun k => byteAt body (i + k)

/-- `packet_to_ether_arp`. -/
def etherArp (body : List U8) : EtherArp where
  arpHrd := u16At body 0
  arpPro := u16At body 2
  arpHln := byteAt body 4
  arpPln := byteAt body 5
  arpOp := u16At body 6
  arpSha := macAt body 8
  arpSpa := u32At body 14
  arpTha := macAt body 18
  arpTpa := u32At body 24

theorem join16 (x : U16) : x.extractLsb' 8 8 ++ x.extractLsb' 0 8 = x := by
  apply BitVec.eq_of_getLsbD_eq
  intro i hi
  simp only [BitVec.getLsbD_append, BitVec.getLsbD_extractLsb']
  interval_cases i <;> rfl

theorem join32 (x : U32) :
    x.extractLsb' 24 8 ++ x.extractLsb' 16 8 ++ x.extractLsb' 8 8 ++ x.extractLsb' 0 8 = x := by
  apply BitVec.eq_of_getLsbD_eq
  intro i hi
  simp only [BitVec.getLsbD_append, BitVec.getLsbD_extractLsb']
  interval_cases i <;> rfl

/-- A message is read as it was written. -/
theorem etherArp_bytes (arp : EtherArp) : etherArp arp.bytes = arp := by
  obtain ⟨hrd, pro, hln, pln, op, ⟨⟨sha⟩, hsha⟩, spa, ⟨⟨tha⟩, htha⟩, tpa⟩ := arp
  match sha, hsha, tha, htha with
  | [a, b, c, d, e, f], _, [a', b', c', d', e', f'], _ =>
    simp only [etherArp, EtherArp.bytes, u16At, u32At, byteAt, macAt, EtherArp.mk.injEq]
    refine ⟨join16 hrd, join16 pro, rfl, rfl, join16 op, ?_, join32 spa, ?_, join32 tpa⟩
    · rfl
    · rfl

/-! ### One box -/

/-- `iface_info_t`, as far as ARP reads it. -/
structure Iface extends IfaceInfo where
  ip : U32
deriving DecidableEq, Repr

/-- The message of `arp_send_request`. -/
def request (iface : Iface) (dstIp : U32) : EtherArp :=
  ⟨htons arphrdEther, htons ethPIp, 6, 4, htons arpopRequest, iface.mac, htonl iface.ip, .replicate 6 0, htonl dstIp⟩

/-- The message of `arp_send_reply`. -/
def reply (iface : Iface) (reqHdr : EtherArp) : EtherArp :=
  ⟨htons arphrdEther, htons ethPIp, 6, 4, htons arpopReply, iface.mac, htonl iface.ip, reqHdr.arpSha, reqHdr.arpSpa⟩

/-- `arp_send_request`. -/
def arpSendRequest (iface : Iface) (dstIp : U32) : EtherFrame :=
  ⟨.replicate 6 255, iface.mac, ethPArp, (request iface dstIp).bytes⟩

/-- `arp_send_reply`. -/
def arpSendReply (iface : Iface) (reqHdr : EtherArp) : EtherFrame :=
  ⟨reqHdr.arpSha, iface.mac, ethPArp, (reply iface reqHdr).bytes⟩

/-- `arpcache_sweep`, the part about the entries. -/
def arpcacheSweep (now : Int) (entries : Entries) : Entries := fun i =>
  if (entries i).valid ∧ arpEntryTimeout ≤ now - (entries i).added then { entries i with valid := false }
  else entries i

/-- `arpcache_t`: the entries and the queues; with the indices of entries written to so far, and
the next hops that packets were submitted for, oldest first. -/
structure Box where
  entries : Entries
  cache : ArpCache
  written : List Int
  hops : List U32

/-- `arpcache_init`. -/
def Box.init : Box := ⟨emptyCache, arpcacheInit, [], []⟩

namespace Box

/-- `iface_send_packet_by_arp`. -/
def sendPacketByArp (b : Box) (iface : Iface) (now : Int) (dstIp : U32) (packet : EtherFrame) : Box :=
  { b with
    cache := b.cache.sendPacketByArp ⟨now, iface.toIfaceInfo, dstIp, packet, arpcacheLookup b.entries dstIp⟩
    hops := b.hops ++ [dstIp] }

/-- `arpcache_insert`, where `rand()` gives `rand`. -/
def insert (b : Box) (rand : Nat) (now : Int) (ip4 : U32) (mac : Mac) : Box :=
  { b with
    entries := (arpcacheInsert rand now b.entries ip4 mac).1
    cache := b.cache.insert ip4 mac
    written := b.written ++ (arpcacheInsert rand now b.entries ip4 mac).2 }

/-- A pass of `arpcache_sweep`; what `icmp_send_packet` makes of the packets it drops is
submitted like any other. -/
def sweep (b : Box) (now : Int) : Box :=
  { b with entries := arpcacheSweep now b.entries, cache := b.cache.sweep now [] }

/-- `handle_arp_packet`, with what it sends on the interface. -/
def handleArpPacket (b : Box) (iface : Iface) (rand : Nat) (now : Int) (packet : EtherFrame) :
    Box × List EtherFrame :=
  let arp := etherArp packet.body
  let srcIp := ntohl arp.arpSpa
  let dstIp := ntohl arp.arpTpa
  if ntohs arp.arpOp = arpopRequest then
    if iface.ip = dstIp then (b.insert rand now srcIp arp.arpSha, [arpSendReply iface arp]) else (b, [])
  else if ntohs arp.arpOp = arpopReply then
    if iface.ip = dstIp then (b.insert rand now srcIp arp.arpSha, []) else (b, [])
  else (b, [])

/-- `handle_packet`, less the packets for `handle_ip_packet`: what that leads to is submitted. -/
def handlePacket (b : Box) (iface : Iface) (rand : Nat) (now : Int) (packet : EtherFrame) : Box × List EtherFrame :=
  if packet.etherType = ethPArp then b.handleArpPacket iface rand now packet else (b, [])

end Box

/-! ### The network -/

/-- Boxes with their interfaces, each on a LAN. -/
structure Network (V L : Type) where
  ifaces : V → List (Iface × L)

/-- All boxes, and the frames on the LANs. -/
structure NetState (V L : Type) where
  box : V → Box
  flight : List (L × EtherFrame)

/-- No box has done anything. -/
def NetState.init {V L : Type} : NetState V L := ⟨fun _ => .init, []⟩

/-- A packet is submitted on an interface, by its place in the list; a frame comes to an
interface on its LAN, and stays there for others; a frame is gone; a box sweeps. -/
inductive Event (V : Type)
  | send (v : V) (i : Nat) (now : Int) (dstIp : U32) (packet : EtherFrame)
  | deliver (k : Nat) (v : V) (i : Nat) (rand : Nat) (now : Int)
  | lose (k : Nat)
  | sweep (v : V) (now : Int)

namespace Network

variable {V L : Type} [DecidableEq V] [DecidableEq L] (net : Network V L)

/-- The interface that `iface_info_t *` points to. -/
def iface? (v : V) (info : IfaceInfo) : Option (Iface × L) :=
  (net.ifaces v).find? fun x => x.1.toIfaceInfo = info

/-- What goes out, as frames on the LAN of the interface it leaves by. -/
def frames (v : V) (sent : List Sent) : List (L × EtherFrame) :=
  sent.filterMap fun
    | .packet info pkt => (net.iface? v info).map fun x => (x.2, pkt.packet)
    | .request info dstIp _ => (net.iface? v info).map fun x => (x.2, arpSendRequest x.1 dstIp)

/-- A box comes to a new state; what its queues have sent since goes out. -/
def update (s : NetState V L) (v : V) (b : Box) : NetState V L where
  box := Function.update s.box v b
  flight := s.flight ++ net.frames v (b.cache.wire.drop (s.box v).cache.wire.length)

def step (s : NetState V L) : Event V → Option (NetState V L)
  | .send v i now dstIp packet =>
    match (net.ifaces v)[i]? with
    | none => none
    | some x => some (net.update s v ((s.box v).sendPacketByArp x.1 now dstIp packet))
  | .deliver k v i rand now =>
    match s.flight[k]?, (net.ifaces v)[i]? with
    | some (lan, packet), some x =>
      if x.2 = lan then
        let (b, sent) := (s.box v).handlePacket x.1 rand now packet
        let s := net.update s v b
        some { s with flight := s.flight ++ sent.map fun packet => (lan, packet) }
      else none
    | _, _ => none
  | .lose k => if k < s.flight.length then some { s with flight := s.flight.eraseIdx k } else none
  | .sweep v now => some (net.update s v ((s.box v).sweep now))

def Step (s : NetState V L) (e : Event V) (t : NetState V L) : Prop := net.step s e = some t

end Network

end NetStack.Arp.Lan
