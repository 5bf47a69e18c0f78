import NetStack.Icmp.Bounds
import NetStack.Icmp.Reply
import NetStack.Ip.Hops

/-! Packets between routers (`ip.c`, `ip_base.c` of `EXP07-Router/07-router`).

A router answers an echo request for the interface it came in on, and forwards everything else.
Which router a packet comes to by the interface and the next hop it is sent to is the network's
affair. However the tables are filled in, a packet goes from router to router as often as it has
hops left and no more, and what arrives is what was sent (`packet_intact`). Where the tables lead
closer with each hop it arrives (`packet_arrives`). -/
namespace NetStack.Router
open Mospf (RtEntry)

/-- What becomes of a packet: `icmp_send_packet` is called with it, it is freed, or it is sent on. -/
inductive Outcome
  | echoReply
  | timeExceeded (packet : Frame)
  | netUnreach (packet : Frame)
  | freed
  | sent (iface : Nat) (nextHop : U32) (packet : Frame)

section Code
variable (rtable : List RtEntry) (ifaces : Nat → IfaceInfo)

/-- `ip_forward_package`. -/
def ipForwardPackage (packet : Frame) : Outcome :=
  let ip := etherHdrSize
  let m := packet.mem.store8 (ip + 8) (packet.mem.load8 (ip + 8) - 1)
  if m.load8 (ip + 8) ≤ 0 then .timeExceeded { packet with mem := m }
  else
    let dstAddr := ntohl (iphdr m ip).daddr
    let m := m.store16 (ip + 10) (ipChecksum checksum m ip)
    match longestPrefixMatch rtable dstAddr with
    | none => .netUnreach { packet with mem := m }
    | some _ =>
      match ipSendPacket rtable ifaces { packet with mem := m } with
      | none => .freed
      | some (iface, nextHop, out) => .sent iface nextHop out

/-- `handle_ip_packet` at an interface with address `ifaceIp`, down to what it leads to. -/
def receive (ifaceIp : U32) (packet : Frame) : Outcome :=
  match handleIpPacket ifaceIp packet.mem with
  | .echoReply => .echoReply
  | .forward => ipForwardPackage rtable ifaces packet

end Code

/-! ### One router -/

section One
variable {f : Frame}

/-- The packet `ip_send_packet` is given. -/
def aged (f : Frame) : Mem :=
  let m := f.mem.store8 (etherHdrSize + 8) (f.mem.load8 (etherHdrSize + 8) - 1)
  m.store16 (etherHdrSize + 10) (ipChecksum checksum m etherHdrSize)

theorem aged_iphdr (f : Frame) : iphdr (aged f) etherHdrSize = iphdr f.mem etherHdrSize :=
  Intact.iphdr fun i _ h8 h10 h11 => by rw [aged, store16_other _ _ h10 h11, store8_other _ _ h8]

/-- The destination of a packet. -/
def dstAddr (f : Frame) : U32 := ntohl (iphdr f.mem etherHdrSize).daddr

/-- What it hands on, with its Ethernet header filled in. -/
def handed (ifaces : Nat → IfaceInfo) (entry : RtEntry) (f : Frame) : Frame where
  mem := ((aged f).store16 12 (ntohs Arp.ethPIp)).write 6 6 fun i => (ifaces entry.iface).mac[i]?.getD 0
  len := f.len

theorem ipForwardPackage_eq (rtable : List RtEntry) (ifaces : Nat → IfaceInfo) (f : Frame) :
    ipForwardPackage rtable ifaces f =
      if f.ttl - 1 = 0 then .timeExceeded ⟨f.mem.store8 (etherHdrSize + 8) (f.ttl - 1), f.len⟩
      else
        match longestPrefixMatch rtable (dstAddr f) with
        | none => .netUnreach ⟨aged f, f.len⟩
        | some entry =>
          .sent entry.iface (if entry.gw = 0 then dstAddr f else entry.gw) (handed ifaces entry f) := by
  have hdst : ntohl (iphdr (aged f) etherHdrSize).daddr = dstAddr f := by rw [aged_iphdr, dstAddr]
  have hdst' : ntohl (iphdr (f.mem.store8 (etherHdrSize + 8) (f.ttl - 1)) etherHdrSize).daddr = dstAddr f := by
    rw [Intact.iphdr fun i _ h8 _ _ => store8_other f.mem _ h8, dstAddr]
  have hle : f.ttl - 1 ≤ 0 ↔ f.ttl - 1 = 0 := BitVec.le_zero_iff
  have hload : f.mem.load8 (etherHdrSize + 8) = f.ttl := rfl
  unfold ipForwardPackage
  simp only [hload, Mem.load8_store8, hle, hdst']
  split
  · rfl
  · cases hroute : longestPrefixMatch rtable (dstAddr f) with
    | none => rfl
    | some entry =>
      have hsend : ipSendPacket rtable ifaces ⟨aged f, f.len⟩ =
          some (entry.iface, if entry.gw = 0 then dstAddr f else entry.gw, handed ifaces entry f) := by
        rw [ipSendPacket, hdst, hroute]
        rfl
      simp only [aged, hload] at hsend
      simp only [hsend]

/-- `ether_dhost` filled in, as `iface_send_packet_by_arp` does with what it has resolved. -/
def addressed (mac : Mac) (f : Frame) : Frame := { f with mem := f.mem.write 0 6 fun i => mac[i]?.getD 0 }

/-- Nothing else changes by it. -/
theorem addressed_mem (mac : Mac) (f : Frame) {i : Nat} (h : 6 ≤ i) : (addressed mac f).mem i = f.mem i := by
  simp only [addressed]
  exact Mem.write_apply (by omega)

theorem forwarded_handed (h : f.ttl - 1 ≠ 0) (ifaces : Nat → IfaceInfo) (entry : RtEntry) (mac : Mac) :
    Forwarded f (addressed mac (handed ifaces entry f)) := by
  refine .of_stores checksum_eq rfl rfl h fun i hi => ?_
  have hbehind : 14 ≤ i := hi
  have hshost : (handed ifaces entry f).mem i = ((aged f).store16 12 (ntohs Arp.ethPIp)) i := by
    simp only [handed]
    exact Mem.write_apply (by omega)
  rw [addressed_mem _ _ (by omega), hshost, store16_other _ _ (by omega) (by omega)]
  rfl

end One

/-! ### A network of them -/

/-- Routers with their tables and interfaces, and the router and the interface that a packet comes
to which leaves on an interface for a next hop. -/
structure Network (V : Type) where
  rtable : V → List RtEntry
  ifaces : V → Nat → IfaceInfo
  link : V → Nat → U32 → Option (V × Nat)

/-- A packet at a router, with the interface it came in on. -/
structure Arrival (V : Type) where
  router : V
  iface : Nat
  packet : Frame

namespace Network

variable {V : Type} (net : Network V)

/-- Where it is next, if it goes on to a router. -/
def next (a : Arrival V) : Option (Arrival V) :=
  match receive (net.rtable a.router) (net.ifaces a.router) (net.ifaces a.router a.iface).ip a.packet with
  | .sent iface nextHop out =>
    (net.link a.router iface nextHop).map fun x => ⟨x.1, x.2, addressed (net.ifaces x.1 x.2).mac out⟩
  | _ => none

/-- Where it is after so many hops. -/
def after : Nat → Arrival V → Option (Arrival V)
  | 0, a => some a
  | n + 1, a => (net.next a).bind (after n)

/-- The packet is for the router itself, which answers. -/
def Answers (a : Arrival V) : Prop :=
  handleIpPacket (net.ifaces a.router a.iface).ip a.packet.mem = .echoReply

variable {net : Network V} {a b : Arrival V} {n : Nat}

/-- A packet goes on exactly if it is not answered, has a hop left, a route, and somewhere to come to. -/
theorem next_eq_some_iff : net.next a = some b ↔
    ¬net.Answers a ∧ a.packet.ttl - 1 ≠ 0 ∧ ∃ entry,
      longestPrefixMatch (net.rtable a.router) (dstAddr a.packet) = some entry ∧
      net.link a.router entry.iface (if entry.gw = 0 then dstAddr a.packet else entry.gw) =
        some (b.router, b.iface) ∧
      b.packet = addressed (net.ifaces b.router b.iface).mac (handed (net.ifaces a.router) entry a.packet) := by
  unfold next receive Answers
  cases handleIpPacket (net.ifaces a.router a.iface).ip a.packet.mem with
  | echoReply => exact iff_of_false nofun fun h => h.1 rfl
  | forward =>
    rw [ipForwardPackage_eq]
    by_cases hhops : a.packet.ttl - 1 = 0
    · rw [if_pos hhops]
      exact iff_of_false nofun fun h => h.2.1 hhops
    · rw [if_neg hhops]
      cases longestPrefixMatch (net.rtable a.router) (dstAddr a.packet) with
      | none => exact iff_of_false nofun fun h => by obtain ⟨_, _, _, hroute, _⟩ := h; cases hroute
      | some entry =>
        constructor
        · intro h
          obtain ⟨x, hlink, rfl⟩ := Option.map_eq_some_iff.mp h
          exact ⟨nofun, hhops, entry, rfl, hlink, rfl⟩
        · intro h
          obtain ⟨_, _, entry', hroute, hlink, hb⟩ := h
          obtain rfl := Option.some.inj hroute
          refine Option.map_eq_some_iff.mpr ⟨_, hlink, ?_⟩
          rw [← hb]

theorem next_forwarded (h : net.next a = some b) : Forwarded a.packet b.packet := by
  obtain ⟨_, hhops, entry, _, _, hb⟩ := next_eq_some_iff.mp h
  rw [hb]
  exact forwarded_handed hhops _ entry _

theorem after_travels (h : net.after n a = some b) : Travels n a.packet b.packet := by
  induction n generalizing a with
  | zero =>
    obtain rfl := Option.some.inj h
    exact .nil _
  | succ n ih =>
    obtain ⟨c, hc, hrest⟩ := Option.bind_eq_some_iff.mp h
    exact .cons (next_forwarded hc) (ih hrest)

/-- A packet comes to where it does not go on. -/
theorem exists_last (net : Network V) (a : Arrival V) : ∃ n b, net.after n a = some b ∧ net.next b = none := by
  induction hhops : a.packet.hopsLeft using Nat.strongRecOn generalizing a with
  | ind d ih =>
    subst hhops
    cases hnext : net.next a with
    | none => exact ⟨0, a, rfl, hnext⟩
    | some b =>
      have hleft := (next_forwarded hnext).hopsLeft
      obtain ⟨n, c, hc, hlast⟩ := ih b.packet.hopsLeft (by omega) b rfl
      exact ⟨n + 1, c, by rw [after, hnext, Option.bind_some, hc], hlast⟩

/-- **Forwarding ends, and leaves a packet as it is.** In every network of routers, whatever their
tables, a packet makes as many hops as it has left, at most 255, and no more. After each of them it
is as long as it was, has all bytes behind the Ethernet header as they were but `ttl`, which says
how many hops it has made, and the checksum, which is right. -/
theorem packet_intact (net : Network V) (a : Arrival V) :
    (∀ n b, net.after n a = some b → Travelled n a.packet b.packet) ∧
      ∃ n ≤ a.packet.hopsLeft, a.packet.hopsLeft ≤ 255 ∧ ∃ b, net.after n a = some b ∧ net.next b = none := by
  refine ⟨fun n b h => (after_travels h).travelled, ?_⟩
  obtain ⟨n, b, hafter, hlast⟩ := exists_last net a
  exact ⟨n, (after_travels hafter).le, Nat.le_of_lt_succ (a.packet.ttl - 1).isLt, b, hafter, hlast⟩

/-- Where the tables lead closer, a packet comes closer until it is there or answered. -/
theorem comes_there {dst : U32} (m : V → Nat)
    (hcloser : ∀ v, 0 < m v → ∃ entry w i, longestPrefixMatch (net.rtable v) dst = some entry ∧
      net.link v entry.iface (if entry.gw = 0 then dst else entry.gw) = some (w, i) ∧ m w < m v)
    (hdst : dstAddr a.packet = dst) (hhops : m a.router ≤ a.packet.hopsLeft) :
    ∃ n ≤ m a.router, ∃ b, net.after n a = some b ∧ Travelled n a.packet b.packet ∧
      (m b.router = 0 ∨ net.Answers b) := by
  induction hm : m a.router using Nat.strongRecOn generalizing a with
  | ind d ih =>
    subst hm
    by_cases hthere : m a.router = 0 ∨ net.Answers a
    · exact ⟨0, Nat.zero_le _, a, rfl, (Travels.nil _).travelled, hthere⟩
    · obtain ⟨hfar, hforward⟩ := not_or.mp hthere
      obtain ⟨entry, w, i, hroute, hlink, hless⟩ := hcloser a.router (Nat.pos_of_ne_zero hfar)
      have halive : a.packet.ttl - 1 ≠ 0 := fun h0 => by
        rw [Frame.hopsLeft, h0] at hhops
        exact hfar (Nat.le_zero.mp hhops)
      rw [← hdst] at hroute hlink
      obtain ⟨b, hb, hw⟩ : ∃ b, net.next a = some b ∧ b.router = w :=
        ⟨⟨w, i, addressed (net.ifaces w i).mac (handed (net.ifaces a.router) entry a.packet)⟩,
          next_eq_some_iff.mpr ⟨hforward, halive, entry, hroute, hlink, rfl⟩, rfl⟩
      obtain rfl := hw
      have hforwarded := next_forwarded hb
      have hdst' : dstAddr b.packet = dst := by rw [dstAddr, hforwarded.intact.iphdr, ← hdst, dstAddr]
      have hleft := hforwarded.hopsLeft
      obtain ⟨n, hn, c, hc, _, hthere⟩ := ih (m b.router) hless hdst' (by omega) rfl
      have hafter : net.after (n + 1) a = some c := by rw [after, hb, Option.bind_some, hc]
      exact ⟨n + 1, by omega, c, hafter, (after_travels hafter).travelled, hthere⟩

/-- **Forwarding arrives.** Where each router's route for a destination leads closer by some
measure, up to where the measure is zero, a packet for it with hops enough left comes there, unless
a router on the way answers it, an echo request for the interface it came in on. -/
theorem packet_arrives {dst : U32} (m : V → Nat)
    (hcloser : ∀ v, 0 < m v → ∃ entry w i, longestPrefixMatch (net.rtable v) dst = some entry ∧
      net.link v entry.iface (if entry.gw = 0 then dst else entry.gw) = some (w, i) ∧ m w < m v)
    (hdst : dstAddr a.packet = dst) (hhops : m a.router ≤ a.packet.hopsLeft) :
    ∃ n ≤ m a.router, ∃ b, net.after n a = some b ∧ Travelled n a.packet b.packet ∧
      (m b.router = 0 ∨ net.Answers b) :=
  comes_there m hcloser hdst hhops

/-! ### Two routers -/

/-- r1 and r2 with a host behind each, and a network between them. -/
def twoRouters : Network Bool where
  rtable v :=
    if v then
      [⟨0x0a000100, 0xffffff00, 0, 0⟩, ⟨0x0a000300, 0xffffff00, 0, 1⟩, ⟨0x0a000200, 0xffffff00, 0x0a000302, 1⟩]
    else
      [⟨0x0a000200, 0xffffff00, 0, 0⟩, ⟨0x0a000300, 0xffffff00, 0, 1⟩, ⟨0x0a000100, 0xffffff00, 0x0a000301, 1⟩]
  ifaces v i :=
    match v, i with
    | true, 0 => ⟨.replicate 6 1, 0x0a000101⟩
    | true, _ => ⟨.replicate 6 2, 0x0a000301⟩
    | false, 0 => ⟨.replicate 6 3, 0x0a000201⟩
    | false, _ => ⟨.replicate 6 4, 0x0a000302⟩
  link v i hop := if i = 1 ∧ hop = (if v then 0x0a000302 else 0x0a000301) then some (!v, 1) else none

/-- A packet from h1 to h2 at r1, with two hops left. -/
def fromH1 : Arrival Bool where
  router := true
  iface := 0
  packet.mem a := [1, 1, 1, 1, 1, 1, 9, 9, 9, 9, 9, 9, 8, 0, 0x45, 0, 0, 22, 0, 1, 0x40, 0, 3, 17, 0x60, 0xba,
    10, 0, 1, 11, 10, 0, 2, 22, 0x68, 0x69].getD a 0
  packet.len := 36

theorem packet_arrives_twoRouters : ∃ n ≤ 1, ∃ b, twoRouters.after n fromH1 = some b ∧
    Travelled n fromH1.packet b.packet ∧ ((if b.router then 1 else 0) = 0 ∨ twoRouters.Answers b) := by
  have hcloser : ∀ v, 0 < (if v then 1 else 0) → ∃ entry w i,
      longestPrefixMatch (twoRouters.rtable v) 0x0a000216 = some entry ∧
        twoRouters.link v entry.iface (if entry.gw = 0 then 0x0a000216 else entry.gw) = some (w, i) ∧
          (if w then 1 else 0) < if v then 1 else 0 := by
    intro v hv
    obtain rfl : v = true := by
      cases v with
      | true => rfl
      | false => exact absurd hv (by decide)
    exact ⟨⟨0x0a000200, 0xffffff00, 0x0a000302, 1⟩, false, 1, by decide, by decide, by decide⟩
  exact @packet_arrives Bool twoRouters fromH1 0x0a000216 (fun v => if v then 1 else 0) hcloser (by decide)
    (by decide)

end Network

end NetStack.Router
