import NetStack.Ethernet
import NetStack.InternetChecksum
import NetStack.RoutingTable
import NetStack.Arp.Pending
import NetStack.Tcp.InFrame

/-! Echo replies (`icmp.c`, `include/icmp.h`, `handle_ip_packet` in `ip.c` and `ip_send_packet` in
`ip_base.c` of `EXP07-Router/07-router`).

A reply is as long as the frame of the request, and its ICMP header is put where that of the
request was. The header it is given has no options, so what the reply says is what it should
exactly if the request's had none, and its frame ended with the datagram (`echoReply_iff`). -/
namespace NetStack

/-! ### Messages -/

/-- `ICMP_HDR_SIZE`. -/
def icmpHdrSize : Nat := 8

/-- `ICMP_ECHOREPLY`, `ICMP_ECHOREQUEST`. -/
def icmpEchoReply : U8 := 0
def icmpEchoRequest : U8 := 8

/-- `icmp_checksum`: the field itself counts as zero, and is put back afterwards. -/
def icmpChecksum (sumOf : Mem → Nat → Nat → U32 → U16) (m : Mem) (icmp len : Nat) : U16 :=
  let m := m.store16 (icmp + 2) 0
  sumOf m icmp len 0

/-- `IP_DATA(packet_to_ip_hdr(packet))`. -/
def ipData (m : Mem) : Nat := etherHdrSize + (iphdr m etherHdrSize).size

/-- What the IP header leaves of the datagram. -/
def ipDataLen (m : Mem) : Nat := (ntohs (iphdr m etherHdrSize).totLen).toNat - (iphdr m etherHdrSize).size

namespace Router
open Mospf (RtEntry)
open Arp (ethPIp)
open Tcp.Wire (ipprotoIcmp ethFrameLen)

/-! ### The code -/

/-- `iface_info_t`, as far as it is read here. -/
structure IfaceInfo where
  mac : Mac
  ip : U32
deriving DecidableEq, Repr

variable (rtable : List RtEntry) (ifaces : Nat → IfaceInfo)

/-- `ip_send_packet`: the interface, the next hop and the packet that `iface_send_packet_by_arp` is
given, if there is a route. -/
def ipSendPacket (packet : Frame) : Option (Nat × U32 × Frame) :=
  let dst := ntohl (iphdr packet.mem etherHdrSize).daddr
  (longestPrefixMatch rtable dst).map fun rtEntry =>
    let m := packet.mem.store16 12 (ntohs ethPIp)
    let m := m.write 6 6 fun i => (ifaces rtEntry.iface).mac[i]?.getD 0
    (rtEntry.iface, if rtEntry.gw = 0 then dst else rtEntry.gw, { packet with mem := m })

/-- `icmp_send_packet`, where `malloc` gave memory that holds `fresh` and `rand()` gave `id`. The
route back is not checked for: without one the source follows a null pointer. -/
def icmpSendPacket (fresh : Mem) (id : U16) (inPkt : Frame) (type code : U8) : Option (Nat × U32 × Frame) :=
  let inIpHdr := iphdr inPkt.mem etherHdrSize
  let packetLen :=
    if type = icmpEchoReply then inPkt.len else etherHdrSize + icmpHdrSize + ipBaseHdrSize + inIpHdr.size + 8
  (longestPrefixMatch rtable (ntohl inIpHdr.saddr)).bind fun rtEntry =>
    let m := fresh.store16 12 (htons ethPIp)
    let m := ipInitHdr checksum id m etherHdrSize (ifaces rtEntry.iface).ip (ntohl inIpHdr.saddr)
      (BitVec.ofNat 16 (packetLen - etherHdrSize)) ipprotoIcmp
    let icmp := etherHdrSize + inIpHdr.size
    let m := m.store8 icmp type
    let m := m.store8 (icmp + 1) code
    let m :=
      if type ≠ icmpEchoReply then
        let m := m.zero (icmp + icmpHdrSize - 4) 4
        m.copy (icmp + icmpHdrSize) inPkt.mem etherHdrSize (inIpHdr.size + 8)
      else
        m.copy (icmp + icmpHdrSize - 4) inPkt.mem (etherHdrSize + inIpHdr.size + 4)
          (inPkt.len - etherHdrSize - inIpHdr.size - 4)
    let m := m.store16 (icmp + 2) (icmpChecksum checksum m icmp (packetLen - etherHdrSize - inIpHdr.size))
    ipSendPacket rtable ifaces ⟨m, packetLen⟩

/-- Where `handle_ip_packet` gives a packet. -/
inductive Handler
  | echoReply | forward
deriving DecidableEq

/-- `handle_ip_packet`, at an interface with address `ifaceIp`. -/
def handleIpPacket (ifaceIp : U32) (m : Mem) : Handler :=
  if m.load8 (ipData m) = icmpEchoRequest ∧ ifaceIp = ntohl (iphdr m etherHdrSize).daddr then .echoReply else .forward

/-! ### Requests and replies -/

/-- A well-formed echo request for an address. -/
structure EchoRequest (ifaceIp : U32) (f : Frame) : Prop where
  version : (iphdr f.mem etherHdrSize).version = 4
  ihl : 5 ≤ (iphdr f.mem etherHdrSize).ihl
  totLen : (iphdr f.mem etherHdrSize).size + icmpHdrSize ≤ (ntohs (iphdr f.mem etherHdrSize).totLen).toNat
  inside : etherHdrSize + (ntohs (iphdr f.mem etherHdrSize).totLen).toNat ≤ f.len
  bound : f.len ≤ ethFrameLen
  header : onesSum f.mem etherHdrSize (iphdr f.mem etherHdrSize).size 0 = 0xffff
  protocol : (iphdr f.mem etherHdrSize).protocol = ipprotoIcmp
  daddr : ntohl (iphdr f.mem etherHdrSize).daddr = ifaceIp
  type : f.mem.load8 (ipData f.mem) = icmpEchoRequest
  code : f.mem.load8 (ipData f.mem + 1) = 0
  checksum : onesSum f.mem (ipData f.mem) (ipDataLen f.mem) 0 = 0xffff

/-- A packet is a well-formed reply to a request, as its own IP header has it. -/
structure EchoReply (f out : Frame) : Prop where
  version : (iphdr out.mem etherHdrSize).version = 4
  protocol : (iphdr out.mem etherHdrSize).protocol = ipprotoIcmp
  daddr : (iphdr out.mem etherHdrSize).daddr = (iphdr f.mem etherHdrSize).saddr
  totLen : etherHdrSize + (ntohs (iphdr out.mem etherHdrSize).totLen).toNat = out.len
  type : out.mem.load8 (ipData out.mem) = icmpEchoReply
  code : out.mem.load8 (ipData out.mem + 1) = 0
  identifier : out.mem.load16 (ipData out.mem + 4) = f.mem.load16 (ipData f.mem + 4)
  sequence : out.mem.load16 (ipData out.mem + 6) = f.mem.load16 (ipData f.mem + 6)
  data : out.mem.read (ipData out.mem + icmpHdrSize) (ipDataLen out.mem - icmpHdrSize) =
    f.mem.read (ipData f.mem + icmpHdrSize) (ipDataLen f.mem - icmpHdrSize)
  checksum : onesSum out.mem (ipData out.mem) (ipDataLen out.mem) 0 = 0xffff

/-- What is made of a request: the ICMP message is where that of the request was, and the rest of
the frame is taken over. -/
structure Built (f out : Frame) : Prop where
  len : out.len = f.len
  version : (iphdr out.mem etherHdrSize).version = 4
  ihl : (iphdr out.mem etherHdrSize).ihl = 5
  totLen : (iphdr out.mem etherHdrSize).totLen = htons (BitVec.ofNat 16 (f.len - etherHdrSize))
  protocol : (iphdr out.mem etherHdrSize).protocol = ipprotoIcmp
  daddr : (iphdr out.mem etherHdrSize).daddr = (iphdr f.mem etherHdrSize).saddr
  type : out.mem.load8 (ipData f.mem) = icmpEchoReply
  code : out.mem.load8 (ipData f.mem + 1) = 0
  rest : out.mem.Agree f.mem (ipData f.mem + 4) (f.len - ipData f.mem - 4)
  checksum : onesSum out.mem (ipData f.mem) (f.len - ipData f.mem) 0 = 0xffff

variable {rtable ifaces} {ifaceIp : U32} {f out : Frame} {fresh m : Mem} {id : U16}

/-- A message with its checksum in place sums to all ones. -/
theorem onesSum_icmpChecksum (m : Mem) {icmp len : Nat} (hlen : 4 ≤ len) (hbound : len < 2 ^ 16) :
    onesSum (m.store16 (icmp + 2) (icmpChecksum checksum m icmp len)) icmp len 0 = 0xffff := by
  have hstore : m.store16 (icmp + 2) (icmpChecksum checksum m icmp len) =
      (m.store16 (icmp + 2 * 1) 0).store16 (icmp + 2 * 1) (~~~onesSum (m.store16 (icmp + 2 * 1) 0) icmp len 0) := by
    rw [Mem.store16, Mem.store16, Mem.store16, Mem.write_write, icmpChecksum, checksum_eq_tcp,
      Tcp.checksum_eq (room_of_length hbound)]
  rw [hstore]
  exact onesSum_store (by omega) (Mem.load16_store16 ..)

/-- What a message sums to depends on its bytes. -/
theorem onesSum_congr {m' : Mem} {icmp len : Nat} (h : m.Agree m' icmp len) :
    onesSum m icmp len 0 = onesSum m' icmp len 0 := by
  rw [onesSum, onesSum, h.read]

/-- The lengths of a request. -/
theorem EchoRequest.lengths (h : EchoRequest ifaceIp f) :
    34 ≤ ipData f.mem ∧ ipData f.mem + ipDataLen f.mem ≤ f.len ∧ 8 ≤ ipDataLen f.mem ∧ f.len ≤ 1514 := by
  have hihl := h.ihl
  have htotLen := h.totLen
  have hinside := h.inside
  have hbound := h.bound
  simp only [ipData, ipDataLen, Iphdr.size, etherHdrSize, icmpHdrSize, ethFrameLen] at *
  omega

/-! ### What is sent -/

/-- Sending a packet that has a route changes its Ethernet header only. -/
theorem ipSendPacket_route (ifaces : Nat → IfaceInfo) (f : Frame) {rtEntry : RtEntry}
    (hroute : longestPrefixMatch rtable (ntohl (iphdr f.mem etherHdrSize).daddr) = some rtEntry) :
    ∃ iface hop out, ipSendPacket rtable ifaces f = some (iface, hop, out) ∧ out.len = f.len ∧
      ∀ a n, etherHdrSize ≤ a → out.mem.Agree f.mem a n := by
  rw [ipSendPacket, hroute]
  refine ⟨_, _, _, rfl, rfl, fun a n ha i hi _ => ?_⟩
  have hsize : etherHdrSize = 14 := rfl
  simp (disch := omega) only [Mem.write_apply]

/-- The packet of a reply before its checksum. -/
def replyBody (fresh : Mem) (id : U16) (saddr : U32) (f : Frame) : Mem :=
  let m := ipInitHdr checksum id (fresh.store16 12 (htons ethPIp)) etherHdrSize saddr
    (ntohl (iphdr f.mem etherHdrSize).saddr) (BitVec.ofNat 16 (f.len - etherHdrSize)) ipprotoIcmp
  ((m.store8 (ipData f.mem) icmpEchoReply).store8 (ipData f.mem + 1) 0).copy (ipData f.mem + 4) f.mem
    (ipData f.mem + 4) (f.len - ipData f.mem - 4)

theorem icmpSendPacket_reply {rtEntry : RtEntry}
    (hroute : longestPrefixMatch rtable (ntohl (iphdr f.mem etherHdrSize).saddr) = some rtEntry) :
    icmpSendPacket rtable ifaces fresh id f icmpEchoReply 0 =
      ipSendPacket rtable ifaces
        ⟨(replyBody fresh id (ifaces rtEntry.iface).ip f).store16 (ipData f.mem + 2)
          (icmpChecksum checksum (replyBody fresh id (ifaces rtEntry.iface).ip f) (ipData f.mem)
            (f.len - ipData f.mem)), f.len⟩ := by
  have hdata : etherHdrSize + (iphdr f.mem etherHdrSize).size = ipData f.mem := rfl
  have hsum : f.len - etherHdrSize - (iphdr f.mem etherHdrSize).size = f.len - ipData f.mem := by
    rw [Nat.sub_sub, hdata]
  simp only [icmpSendPacket, if_pos, ne_eq, not_true_eq_false, if_false, hroute, Option.bind_some, hdata, hsum]
  rfl

/-- The body has the header that `ip_init_hdr` makes, the new type, and the rest of the frame. -/
theorem replyBody_header (fresh : Mem) (id : U16) (hdata : 34 ≤ ipData f.mem) (saddr : U32) :
    iphdr (replyBody fresh id saddr f) etherHdrSize =
      ⟨4, 5, htons (BitVec.ofNat 16 (f.len - etherHdrSize)), ipprotoIcmp, htonl saddr,
        (iphdr f.mem etherHdrSize).saddr⟩ := by
  have hsize : etherHdrSize = 14 := rfl
  have hinit := (ipInitHdr_initialises checksum id (fresh.store16 12 (htons ethPIp)) etherHdrSize saddr
    (ntohl (iphdr f.mem etherHdrSize).saddr) (BitVec.ofNat 16 (f.len - etherHdrSize)) ipprotoIcmp).header
  rw [show htonl (ntohl (iphdr f.mem etherHdrSize).saddr) = _ from ntohl_ntohl _] at hinit
  rw [← hinit]
  have hagree : ∀ n, n ≤ 20 → ∀ a, 14 ≤ a → a + n ≤ 34 → (replyBody fresh id saddr f).Agree
      (ipInitHdr checksum id (fresh.store16 12 (htons ethPIp)) etherHdrSize saddr
        (ntohl (iphdr f.mem etherHdrSize).saddr) (BitVec.ofNat 16 (f.len - etherHdrSize)) ipprotoIcmp) a n := by
    intro n hn a ha hend i hi hlt
    simp (disch := omega) only [replyBody, Mem.write_apply]
  exact iphdr_congr (hagree 10 (by omega) 14 (by omega) (by omega)) (hagree 8 (by omega) 26 (by omega) (by omega))

theorem replyBody_rest (fresh : Mem) (id : U16) (f : Frame) (saddr : U32) :
    (replyBody fresh id saddr f).load8 (ipData f.mem) = icmpEchoReply ∧
      (replyBody fresh id saddr f).load8 (ipData f.mem + 1) = 0 ∧
      (replyBody fresh id saddr f).Agree f.mem (ipData f.mem + 4) (f.len - ipData f.mem - 4) := by
  refine ⟨?_, ?_, Mem.copy_agree _ _ _ _⟩
  · simp (disch := omega) only [replyBody, Mem.load8_write, Mem.load8_store8]
  · simp (disch := omega) only [replyBody, Mem.load8_write, Mem.load8_store8]

theorem icmpSendPacket_built (ifaces : Nat → IfaceInfo) (fresh : Mem) (id : U16) (h : EchoRequest ifaceIp f)
    {rtEntry : RtEntry}
    (hroute : longestPrefixMatch rtable (ntohl (iphdr f.mem etherHdrSize).saddr) = some rtEntry) :
    ∃ iface hop out, icmpSendPacket rtable ifaces fresh id f icmpEchoReply 0 = some (iface, hop, out) ∧
      Built f out := by
  obtain ⟨hdata, hinside, hlen, hbound⟩ := h.lengths
  have hsize : etherHdrSize = 14 := rfl
  rw [icmpSendPacket_reply hroute]
  have hbody := replyBody_header fresh id hdata (ifaces rtEntry.iface).ip
  obtain ⟨htype, hcode, hrest⟩ := replyBody_rest fresh id f (ifaces rtEntry.iface).ip
  generalize replyBody fresh id (ifaces rtEntry.iface).ip f = m at hbody htype hcode hrest ⊢
  have hchecksum : onesSum (m.store16 (ipData f.mem + 2) _) (ipData f.mem) (f.len - ipData f.mem) 0 = 0xffff :=
    onesSum_icmpChecksum m (by omega) (by omega)
  generalize icmpChecksum checksum m (ipData f.mem) (f.len - ipData f.mem) = x at hchecksum ⊢
  have hkeep : ∀ a n, a + n ≤ ipData f.mem + 2 ∨ ipData f.mem + 4 ≤ a →
      (m.store16 (ipData f.mem + 2) x).Agree m a n :=
    fun a n hout => Mem.agree_write hout
  have hdest : longestPrefixMatch rtable (ntohl (iphdr (m.store16 (ipData f.mem + 2) x) etherHdrSize).daddr) =
      some rtEntry := by
    rw [iphdr_congr (hkeep _ _ (by omega)) (hkeep _ _ (by omega)), hbody]
    exact hroute
  obtain ⟨iface, hop, out, hsend, houtLen, hether⟩ :=
    ipSendPacket_route ifaces ⟨m.store16 (ipData f.mem + 2) x, f.len⟩ hdest
  refine ⟨iface, hop, out, hsend, ?_⟩
  have hheader : iphdr out.mem etherHdrSize = _ := (iphdr_congr (hether _ _ (by omega)) (hether _ _ (by omega))).trans
    ((iphdr_congr (hkeep _ _ (by omega)) (hkeep _ _ (by omega))).trans hbody)
  constructor
  · exact houtLen
  · rw [hheader]
  · rw [hheader]
  · rw [hheader]
  · rw [hheader]
  · rw [hheader]
  · rw [(hether _ 1 (by omega)).load8, (hkeep _ 1 (by omega)).load8, htype]
  · rw [(hether _ 1 (by omega)).load8, (hkeep _ 1 (by omega)).load8, hcode]
  · intro i hi hlt
    exact (hether _ _ (by omega) i hi hlt).trans ((hkeep _ _ (by omega) i hi hlt).trans (hrest i hi hlt))
  · rw [onesSum_congr (hether _ _ (by omega)), hchecksum]

/-- A message starts behind a header without options, and all of the frame counts as its bytes. -/
theorem Built.lengths (hbuilt : Built f out) (h : EchoRequest ifaceIp f) :
    (ntohs (iphdr out.mem etherHdrSize).totLen).toNat = f.len - 14 ∧ ipData out.mem = 34 ∧
      ipDataLen out.mem = f.len - 34 := by
  obtain ⟨-, -, -, hbound⟩ := h.lengths
  have htotLen : (ntohs (iphdr out.mem etherHdrSize).totLen).toNat = f.len - 14 := by
    rw [hbuilt.totLen, show ntohs (htons _) = _ from ntohs_ntohs _, BitVec.toNat_ofNat, Nat.mod_eq_of_lt (by omega)]
    rfl
  refine ⟨htotLen, ?_, ?_⟩
  · rw [ipData, Iphdr.size, hbuilt.ihl]
    rfl
  · rw [ipDataLen, htotLen, Iphdr.size, hbuilt.ihl]
    omega

/-- What is built is a reply as it should be if its message is where its own header has it. -/
theorem Built.reply_iff (hbuilt : Built f out) (h : EchoRequest ifaceIp f) :
    EchoReply f out ↔ (iphdr f.mem etherHdrSize).ihl = 5 ∧
      f.len = etherHdrSize + (ntohs (iphdr f.mem etherHdrSize).totLen).toNat := by
  obtain ⟨hdata, hinside, hlen, hbound⟩ := h.lengths
  obtain ⟨htotLen, hdataOut, hlenOut⟩ := hbuilt.lengths h
  have hsize : etherHdrSize = 14 := rfl
  have hicmp : icmpHdrSize = 8 := rfl
  have hdataEq : ipData f.mem = etherHdrSize + (iphdr f.mem etherHdrSize).ihl * 4 := rfl
  have hlenEq : ipDataLen f.mem =
      (ntohs (iphdr f.mem etherHdrSize).totLen).toNat - (iphdr f.mem etherHdrSize).ihl * 4 := rfl
  constructor
  · intro hreply
    have hlengths := congrArg List.length hreply.data
    rw [Mem.length_read, Mem.length_read, hlenOut] at hlengths
    omega
  · intro hplain
    obtain ⟨hihl, hwhole⟩ := hplain
    have hplace : ipData out.mem = ipData f.mem := by omega
    have hsame : ipDataLen out.mem = ipDataLen f.mem := by omega
    have hrest : ∀ a n, ipData f.mem + 4 ≤ a → a + n ≤ f.len → out.mem.Agree f.mem a n := fun a n ha hn =>
      hbuilt.rest.mono ha (by omega)
    constructor
    · exact hbuilt.version
    · exact hbuilt.protocol
    · exact hbuilt.daddr
    · rw [htotLen, hbuilt.len]
      omega
    · rw [hplace]
      exact hbuilt.type
    · rw [hplace]
      exact hbuilt.code
    · rw [hplace]
      exact (hrest _ _ (by omega) (by omega)).load16
    · rw [hplace]
      exact (hrest _ _ (by omega) (by omega)).load16
    · rw [hplace, hsame]
      exact (hrest _ _ (by omega) (by omega)).read
    · rw [hplace, hlenOut, show f.len - 34 = f.len - ipData f.mem by omega]
      exact hbuilt.checksum

/-- **Echo replies.** A reply to a well-formed request is well formed itself exactly if the
request's header had no options and nothing came after its datagram. -/
theorem echoReply_iff (rtable : List RtEntry) (ifaces : Nat → IfaceInfo) (fresh : Mem) (id : U16) (ifaceIp : U32)
    (f : Frame) (rtEntry : RtEntry) (h : EchoRequest ifaceIp f)
    (hroute : longestPrefixMatch rtable (ntohl (iphdr f.mem etherHdrSize).saddr) = some rtEntry) :
    handleIpPacket ifaceIp f.mem = .echoReply ∧
      ∃ iface hop out, icmpSendPacket rtable ifaces fresh id f icmpEchoReply 0 = some (iface, hop, out) ∧
        (EchoReply f out ↔ (iphdr f.mem etherHdrSize).ihl = 5 ∧
          f.len = etherHdrSize + (ntohs (iphdr f.mem etherHdrSize).totLen).toNat) := by
  refine ⟨if_pos ⟨h.type, h.daddr.symm⟩, ?_⟩
  obtain ⟨iface, hop, out, hsend, hbuilt⟩ := icmpSendPacket_built ifaces fresh id h hroute
  exact ⟨iface, hop, out, hsend, hbuilt.reply_iff h⟩

/-- A request for 10.0.1.1, from 10.0.1.11, with two bytes of data. -/
def plainRequest : Frame where
  mem a := [2, 0, 0, 0, 0, 1, 2, 0, 0, 0, 0, 2, 8, 0, 0x45, 0, 0, 30, 0, 1, 0x40, 0, 64, 1, 0x24, 0xd3, 10, 0, 1, 11,
    10, 0, 1, 1, 8, 0, 0x7d, 0x61, 0x12, 0x34, 0, 1, 0x68, 0x69].getD a 0
  len := 44

/-- The same with four bytes of options, three times nothing and the end. -/
def optionsRequest : Frame where
  mem a := [2, 0, 0, 0, 0, 1, 2, 0, 0, 0, 0, 2, 8, 0, 0x46, 0, 0, 34, 0, 1, 0x40, 0, 64, 1, 0x21, 0xce, 10, 0, 1, 11,
    10, 0, 1, 1, 1, 1, 1, 0, 8, 0, 0x7d, 0x61, 0x12, 0x34, 0, 1, 0x68, 0x69].getD a 0
  len := 48

theorem echoReply_iff_plain :
    ∃ iface hop out, icmpSendPacket [⟨0x0a000100, 0xffffff00, 0, 0⟩] (fun _ => ⟨Vector.replicate 6 2, 0x0a000101⟩)
      (fun _ => 0xaa) 1 plainRequest icmpEchoReply 0 = some (iface, hop, out) ∧ EchoReply plainRequest out := by
  have h : EchoRequest 0x0a000101 plainRequest := by
    constructor <;> decide
  obtain ⟨-, iface, hop, out, hsend, hiff⟩ := echoReply_iff [⟨0x0a000100, 0xffffff00, 0, 0⟩]
    (fun _ => ⟨Vector.replicate 6 2, 0x0a000101⟩) (fun _ => 0xaa) 1 0x0a000101 plainRequest
    ⟨0x0a000100, 0xffffff00, 0, 0⟩ h (by decide)
  exact ⟨iface, hop, out, hsend, hiff.mpr (by decide)⟩

theorem echoReply_options :
    ¬∀ rtable ifaces fresh id ifaceIp f rtEntry, EchoRequest ifaceIp f →
      longestPrefixMatch rtable (ntohl (iphdr f.mem etherHdrSize).saddr) = some rtEntry →
        ∃ iface hop out, icmpSendPacket rtable ifaces fresh id f icmpEchoReply 0 = some (iface, hop, out) ∧
          EchoReply f out := by
  intro hall
  have h : EchoRequest 0x0a000101 optionsRequest := by
    constructor <;> decide
  have hroute : longestPrefixMatch [⟨0x0a000100, 0xffffff00, 0, 0⟩]
      (ntohl (iphdr optionsRequest.mem etherHdrSize).saddr) = some ⟨0x0a000100, 0xffffff00, 0, 0⟩ := by decide
  obtain ⟨iface, hop, out, hsend, hreply⟩ :=
    hall _ (fun _ => ⟨Vector.replicate 6 2, 0x0a000101⟩) (fun _ => 0xaa) 1 _ _ _ h hroute
  obtain ⟨iface', hop', out', hsend', hbuilt⟩ := icmpSendPacket_built
    (fun _ => ⟨Vector.replicate 6 2, 0x0a000101⟩) (fun _ => 0xaa) 1 h hroute
  rw [hsend'] at hsend
  cases hsend
  exact absurd ((hbuilt.reply_iff h).mp hreply).1 (by decide)

end Router

end NetStack
