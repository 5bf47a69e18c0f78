import NetStack.Icmp.Bounds
import NetStack.Icmp.Reply
import NetStack.Ip.Hops

/-! Messages about errors (`icmp.c` of `EXP07-Router/07-router`).

A message is made with a header without options, but put where that of the packet it is about has
its data. So what goes back is a message as it should be, whatever was in memory before, exactly if
that packet's header had no options and there are eight bytes behind it (`errorMessage_iff`). -/
namespace NetStack

namespace Mem

theorem store16_load16 (m : Mem) (a : Nat) : m.store16 a (m.load16 a) = m := by
  funext i
  by_cases hi : a ≤ i ∧ i < a + 2
  · obtain ⟨k, rfl⟩ := Nat.exists_eq_add_of_le hi.1
    have hk : k < 2 := by omega
    rw [store16, write_at hk, load16]
    apply BitVec.eq_of_getLsbD_eq
    intro j hj
    simp only [BitVec.getLsbD_extractLsb', BitVec.getLsbD_append]
    interval_cases k <;> simp [hj]
  · exact if_neg hi

end Mem

namespace Router
open Mospf (RtEntry)
open Arp (ethPIp)
open Tcp.Wire (ipprotoIcmp ihl_lt)

/-- A packet tells the sender of another of an error with it, and quotes its header and what
follows it. -/
structure ErrorMessage (f : Frame) (type code : U8) (out : Frame) : Prop where
  version : (iphdr out.mem etherHdrSize).version = 4
  protocol : (iphdr out.mem etherHdrSize).protocol = ipprotoIcmp
  daddr : (iphdr out.mem etherHdrSize).daddr = (iphdr f.mem etherHdrSize).saddr
  totLen : etherHdrSize + (ntohs (iphdr out.mem etherHdrSize).totLen).toNat = out.len
  ttl : out.ttl = 64
  header : onesSum out.mem etherHdrSize (iphdr out.mem etherHdrSize).size 0 = 0xffff
  type : out.mem.load8 (ipData out.mem) = type
  code : out.mem.load8 (ipData out.mem + 1) = code
  unused : out.mem.load32 (ipData out.mem + 4) = 0
  quotedLen : etherHdrSize + (iphdr f.mem etherHdrSize).size + 8 ≤ f.len
  quoted : out.mem.read (ipData out.mem + icmpHdrSize) (ipDataLen out.mem - icmpHdrSize) =
    f.mem.read etherHdrSize ((iphdr f.mem etherHdrSize).size + 8)
  checksum : onesSum out.mem (ipData out.mem) (ipDataLen out.mem) 0 = 0xffff

/-- What is made about a packet. -/
structure ErrorBuilt (fresh : Mem) (f : Frame) (type code : U8) (out : Frame) : Prop where
  len : out.len = etherHdrSize + 36 + (iphdr f.mem etherHdrSize).size
  version : (iphdr out.mem etherHdrSize).version = 4
  ihl : (iphdr out.mem etherHdrSize).ihl = 5
  totLen : (iphdr out.mem etherHdrSize).totLen = htons (BitVec.ofNat 16 (36 + (iphdr f.mem etherHdrSize).size))
  protocol : (iphdr out.mem etherHdrSize).protocol = ipprotoIcmp
  daddr : (iphdr out.mem etherHdrSize).daddr = (iphdr f.mem etherHdrSize).saddr
  ttl : out.ttl = 64
  header : onesSum out.mem etherHdrSize (iphdr out.mem etherHdrSize).size 0 = 0xffff
  fresh : out.mem.Agree fresh 34 (ipData f.mem - 34)
  type : out.mem.load8 (ipData f.mem) = type
  code : out.mem.load8 (ipData f.mem + 1) = code
  unused : out.mem.load32 (ipData f.mem + 4) = 0
  quoted : out.mem.read (ipData f.mem + 8) ((iphdr f.mem etherHdrSize).size + 8) =
    f.mem.read etherHdrSize ((iphdr f.mem etherHdrSize).size + 8)
  checksum : onesSum out.mem (ipData f.mem) 36 0 = 0xffff

variable {rtable : List RtEntry} {fresh m : Mem} {f out : Frame} {type code : U8} {saddr : U32}

/-! ### What is sent -/

/-- The packet of a message before its checksum. -/
def errorBody (fresh : Mem) (id : U16) (saddr : U32) (type code : U8) (f : Frame) : Mem :=
  let m := ipInitHdr Router.checksum id (fresh.store16 12 (htons ethPIp)) etherHdrSize saddr
    (ntohl (iphdr f.mem etherHdrSize).saddr) (BitVec.ofNat 16 (36 + (iphdr f.mem etherHdrSize).size)) ipprotoIcmp
  (((m.store8 (ipData f.mem) type).store8 (ipData f.mem + 1) code).zero (ipData f.mem + 4) 4).copy (ipData f.mem + 8)
    f.mem etherHdrSize ((iphdr f.mem etherHdrSize).size + 8)

theorem icmpSendPacket_error (ifaces : Nat → IfaceInfo) (fresh : Mem) (id : U16) (htype : type ≠ icmpEchoReply)
    {rtEntry : RtEntry}
    (hroute : longestPrefixMatch rtable (ntohl (iphdr f.mem etherHdrSize).saddr) = some rtEntry) :
    icmpSendPacket rtable ifaces fresh id f type code =
      ipSendPacket rtable ifaces
        ⟨(errorBody fresh id (ifaces rtEntry.iface).ip type code f).store16 (ipData f.mem + 2)
          (icmpChecksum Router.checksum (errorBody fresh id (ifaces rtEntry.iface).ip type code f) (ipData f.mem) 36),
          etherHdrSize + 36 + (iphdr f.mem etherHdrSize).size⟩ := by
  have hdata : etherHdrSize + (iphdr f.mem etherHdrSize).size = ipData f.mem := rfl
  have hlen : etherHdrSize + icmpHdrSize + ipBaseHdrSize + (iphdr f.mem etherHdrSize).size + 8 =
      etherHdrSize + 36 + (iphdr f.mem etherHdrSize).size := by
    rw [icmpHdrSize, ipBaseHdrSize]
    omega
  have hbehind : etherHdrSize + 36 + (iphdr f.mem etherHdrSize).size - etherHdrSize =
      36 + (iphdr f.mem etherHdrSize).size := by omega
  have hsum : 36 + (iphdr f.mem etherHdrSize).size - (iphdr f.mem etherHdrSize).size = 36 := by omega
  have hunused : ipData f.mem + icmpHdrSize - 4 = ipData f.mem + 4 := rfl
  simp only [icmpSendPacket, ne_eq, htype, not_false_eq_true, if_true, if_false, hroute, Option.bind_some, hdata,
    hlen, hbehind, hsum, hunused]
  rfl

/-- The first twenty bytes of the body are the header that `ip_init_hdr` makes. -/
theorem errorBody_agree (fresh : Mem) (id : U16) (hdata : 34 ≤ ipData f.mem) (saddr : U32) (type code : U8) :
    (errorBody fresh id saddr type code f).Agree
      (ipInitHdr Router.checksum id (fresh.store16 12 (htons ethPIp)) etherHdrSize saddr
        (ntohl (iphdr f.mem etherHdrSize).saddr) (BitVec.ofNat 16 (36 + (iphdr f.mem etherHdrSize).size)) ipprotoIcmp)
      14 (ipData f.mem - 14) := by
  intro i hi hlt
  simp (disch := omega) only [errorBody, Mem.write_apply]

theorem errorBody_fresh (fresh : Mem) (id : U16) (saddr : U32) (type code : U8) (f : Frame) :
    (errorBody fresh id saddr type code f).Agree fresh 34 (ipData f.mem - 34) := by
  intro i hi hlt
  have hsize : etherHdrSize = 14 := rfl
  simp (disch := omega) only [errorBody, ipInitHdr, Mem.write_apply]

theorem errorBody_message (fresh : Mem) (id : U16) (saddr : U32) (type code : U8) (f : Frame) :
    (errorBody fresh id saddr type code f).load8 (ipData f.mem) = type ∧
      (errorBody fresh id saddr type code f).load8 (ipData f.mem + 1) = code ∧
      (errorBody fresh id saddr type code f).load32 (ipData f.mem + 4) = 0 ∧
      (errorBody fresh id saddr type code f).read (ipData f.mem + 8) ((iphdr f.mem etherHdrSize).size + 8) =
        f.mem.read etherHdrSize ((iphdr f.mem etherHdrSize).size + 8) := by
  refine ⟨?_, ?_, ?_, ?_⟩
  · simp (disch := omega) only [errorBody, Mem.load8_write, Mem.load8_store8]
  · simp (disch := omega) only [errorBody, Mem.load8_write, Mem.load8_store8]
  · rw [errorBody, Mem.load32_write (by omega), Mem.load32]
    simp (disch := omega) only [Mem.write_at, Mem.write_first]
    rfl
  · rw [errorBody, Mem.read, Mem.read]
    refine List.map_congr_left fun i hi => ?_
    exact Mem.write_at (List.mem_range.mp hi)

/-- A header as it was made sums to all ones. -/
theorem onesSum_header {m : Mem} {ip : Nat} (h : m.load16 (ip + 10) = ipChecksum Router.checksum m ip)
    (hihl : (iphdr m ip).ihl = 5) : onesSum m ip (iphdr m ip).size 0 = 0xffff := by
  have hsum := onesSum_ipChecksum checksum_eq m ip (by omega)
  rwa [← h, Mem.store16_load16] at hsum

/-- The header of a message. -/
theorem ipInitHdr_message (id : U16) (m : Mem) (saddr daddr : U32) (len : U16) :
    iphdr (ipInitHdr Router.checksum id m etherHdrSize saddr daddr len ipprotoIcmp) etherHdrSize =
        ⟨4, 5, htons len, ipprotoIcmp, htonl saddr, htonl daddr⟩ ∧
      (ipInitHdr Router.checksum id m etherHdrSize saddr daddr len ipprotoIcmp).load8 (etherHdrSize + 8) = 64 ∧
      onesSum (ipInitHdr Router.checksum id m etherHdrSize saddr daddr len ipprotoIcmp) etherHdrSize 20 0 =
        0xffff := by
  have hinit := ipInitHdr_initialises Router.checksum id m etherHdrSize saddr daddr len ipprotoIcmp
  refine ⟨hinit.header, ?_, ?_⟩
  · simp (disch := omega) only [ipInitHdr, Mem.load8_write, Mem.load8_store8]
  · have hsum := onesSum_header hinit.checksum (by rw [hinit.header])
    rwa [hinit.header] at hsum

theorem icmpSendPacket_errorBuilt (ifaces : Nat → IfaceInfo) (fresh : Mem) (id : U16) (code : U8)
    (hihl : 5 ≤ (iphdr f.mem etherHdrSize).ihl) (htype : type ≠ icmpEchoReply) {rtEntry : RtEntry}
    (hroute : longestPrefixMatch rtable (ntohl (iphdr f.mem etherHdrSize).saddr) = some rtEntry) :
    ∃ iface hop out, icmpSendPacket rtable ifaces fresh id f type code = some (iface, hop, out) ∧
      ErrorBuilt fresh f type code out := by
  have hsize : etherHdrSize = 14 := rfl
  have hdata : ipData f.mem = 14 + (iphdr f.mem etherHdrSize).ihl * 4 := rfl
  have hbytes : (iphdr f.mem etherHdrSize).size = (iphdr f.mem etherHdrSize).ihl * 4 := rfl
  rw [icmpSendPacket_error ifaces fresh id htype hroute]
  have hagree := errorBody_agree (f := f) fresh id (by omega) (ifaces rtEntry.iface).ip type code
  have hfresh := errorBody_fresh fresh id (ifaces rtEntry.iface).ip type code f
  obtain ⟨htype', hcode, hunused, hquoted⟩ := errorBody_message fresh id (ifaces rtEntry.iface).ip type code f
  generalize errorBody fresh id (ifaces rtEntry.iface).ip type code f = m at *
  obtain ⟨hhdr, httl, hheader⟩ := ipInitHdr_message id (fresh.store16 12 (htons ethPIp)) (ifaces rtEntry.iface).ip
    (ntohl (iphdr f.mem etherHdrSize).saddr) (BitVec.ofNat 16 (36 + (iphdr f.mem etherHdrSize).size))
  rw [show htonl (ntohl (iphdr f.mem etherHdrSize).saddr) = _ from ntohl_ntohl _] at hhdr
  generalize ipInitHdr Router.checksum id _ etherHdrSize _ _ _ ipprotoIcmp = made at *
  have hchecksum : onesSum (m.store16 (ipData f.mem + 2) _) (ipData f.mem) 36 0 = 0xffff :=
    onesSum_icmpChecksum m (by omega) (by omega)
  generalize icmpChecksum checksum m (ipData f.mem) 36 = x at *
  -- what is sent is the body with its checksum, behind the Ethernet header
  have hkeep : ∀ a n, a + n ≤ ipData f.mem + 2 ∨ ipData f.mem + 4 ≤ a →
      (m.store16 (ipData f.mem + 2) x).Agree m a n :=
    fun a n hout => Mem.agree_write hout
  have hhdr' : iphdr (m.store16 (ipData f.mem + 2) x) etherHdrSize = iphdr made etherHdrSize :=
    (iphdr_congr (hkeep _ _ (by omega)) (hkeep _ _ (by omega))).trans
      (iphdr_congr (hagree.mono (by omega) (by omega)) (hagree.mono (by omega) (by omega)))
  obtain ⟨iface, hop, out, hsend, houtLen, hether⟩ :=
    ipSendPacket_route ifaces ⟨m.store16 (ipData f.mem + 2) x, etherHdrSize + 36 + (iphdr f.mem etherHdrSize).size⟩
      (by rw [hhdr', hhdr]; exact hroute)
  have hsame : ∀ a n, 14 ≤ a → a + n ≤ ipData f.mem + 2 ∨ ipData f.mem + 4 ≤ a → out.mem.Agree m a n :=
    fun a n ha hout i hi hlt => (hether _ _ ha i hi hlt).trans (hkeep _ _ hout i hi hlt)
  have hmade : ∀ a n, 14 ≤ a → a + n ≤ ipData f.mem → out.mem.Agree made a n :=
    fun a n ha hn i hi hlt => (hsame a n ha (by omega) i hi hlt).trans (hagree i (by omega) (by omega))
  have houtHdr : iphdr out.mem etherHdrSize = _ :=
    (iphdr_congr (hmade _ _ (by omega) (by omega)) (hmade _ _ (by omega) (by omega))).trans hhdr
  refine ⟨iface, hop, out, hsend, ?_⟩
  constructor
  · exact houtLen
  · rw [houtHdr]
  · rw [houtHdr]
  · rw [houtHdr]
  · rw [houtHdr]
  · rw [houtHdr]
  · exact (hmade _ 1 (by omega) (by omega)).load8.trans httl
  · rw [houtHdr]
    exact (onesSum_congr (hmade 14 20 (by omega) (by omega))).trans hheader
  · exact fun i hi hlt => (hsame 34 _ (by omega) (by omega) i hi hlt).trans (hfresh i hi hlt)
  · rw [(hsame _ 1 (by omega) (by omega)).load8, htype']
  · rw [(hsame _ 1 (by omega) (by omega)).load8, hcode]
  · rw [(hsame _ 4 (by omega) (by omega)).load32, hunused]
  · rw [(hsame _ _ (by omega) (by omega)).read, hquoted]
  · rw [onesSum_congr (hether _ _ (by omega)), hchecksum]

/-! ### What it says -/

theorem ErrorBuilt.message (h : ErrorBuilt fresh f type code out) (hihl : (iphdr f.mem etherHdrSize).ihl = 5)
    (hlen : etherHdrSize + 28 ≤ f.len) : ErrorMessage f type code out := by
  have hbytes : (iphdr f.mem etherHdrSize).size = 20 := by rw [Iphdr.size, hihl]
  have hdata : ipData out.mem = ipData f.mem := by
    rw [ipData, ipData, Iphdr.size, Iphdr.size, h.ihl, hihl]
  have htotLen : (ntohs (iphdr out.mem etherHdrSize).totLen).toNat = 56 := by
    rw [h.totLen, show ntohs (htons _) = _ from ntohs_ntohs _, hbytes]
    rfl
  have hdataLen : ipDataLen out.mem = 36 := by
    rw [ipDataLen, htotLen, Iphdr.size, h.ihl]
  have hquoted := h.quoted
  rw [hbytes] at hquoted
  constructor
  · exact h.version
  · exact h.protocol
  · exact h.daddr
  · rw [htotLen, h.len, hbytes]
  · exact h.ttl
  · exact h.header
  · rw [hdata, h.type]
  · rw [hdata, h.code]
  · rw [hdata, h.unused]
  · rw [hbytes]
    exact hlen
  · rw [hdata, hdataLen, hbytes]
    exact hquoted
  · rw [hdata, hdataLen, h.checksum]

/-- With options, the type that is read is what memory held before. -/
theorem ErrorBuilt.type_fresh (h : ErrorBuilt fresh f type code out) (hihl : 5 < (iphdr f.mem etherHdrSize).ihl) :
    out.mem.load8 (ipData out.mem) = fresh.load8 34 := by
  have hout : ipData out.mem = 34 := by
    rw [ipData, Iphdr.size, h.ihl]
    rfl
  have hdata : ipData f.mem = 14 + (iphdr f.mem etherHdrSize).ihl * 4 := rfl
  rw [hout]
  exact (h.fresh.mono (Nat.le_refl 34) (by omega)).load8

/-- **Messages about errors.** What is sent to a packet's sender about an error with it is a message
as it should be, whatever `malloc` and `rand` give, exactly if the packet's header has no options
and the eight bytes that are quoted behind it are there. -/
theorem errorMessage_iff (rtable : List RtEntry) (ifaces : Nat → IfaceInfo) (f : Frame) (type code : U8)
    (rtEntry : RtEntry) (hihl : 5 ≤ (iphdr f.mem etherHdrSize).ihl) (htype : type ≠ icmpEchoReply)
    (hroute : longestPrefixMatch rtable (ntohl (iphdr f.mem etherHdrSize).saddr) = some rtEntry) :
    (∀ fresh id, ∃ iface hop out, icmpSendPacket rtable ifaces fresh id f type code = some (iface, hop, out) ∧
        ErrorMessage f type code out) ↔
      (iphdr f.mem etherHdrSize).ihl = 5 ∧ etherHdrSize + 28 ≤ f.len := by
  constructor
  · intro h
    obtain ⟨iface, hop, out, hsend, hmessage⟩ := h (fun _ => type + 1) 0
    obtain ⟨iface', hop', out', hsend', hbuilt⟩ :=
      icmpSendPacket_errorBuilt ifaces (fun _ => type + 1) 0 code hihl htype hroute
    obtain ⟨-, -, rfl⟩ : iface' = iface ∧ hop' = hop ∧ out' = out := by
      rw [hsend] at hsend'
      cases hsend'
      exact ⟨rfl, rfl, rfl⟩
    have hplain : (iphdr f.mem etherHdrSize).ihl = 5 := by
      by_contra hne
      have hread := hmessage.type.symm.trans (hbuilt.type_fresh (by omega))
      have hread : type = type + 1 := hread
      bv_omega
    have hlen := hmessage.quotedLen
    rw [Iphdr.size, hplain] at hlen
    exact ⟨hplain, hlen⟩
  · intro h fresh id
    obtain ⟨iface, hop, out, hsend, hbuilt⟩ :=
      icmpSendPacket_errorBuilt ifaces fresh id code hihl htype hroute
    exact ⟨iface, hop, out, hsend, hbuilt.message h.1 h.2⟩

theorem errorMessage_iff_plain :
    ∃ iface hop out, icmpSendPacket [⟨0x0a000100, 0xffffff00, 0, 0⟩] (fun _ => ⟨Vector.replicate 6 2, 0x0a000101⟩)
      (fun _ => 0xaa) 1 plainRequest Icmp.icmpTimeExceeded Icmp.icmpExcTtl = some (iface, hop, out) ∧
        ErrorMessage plainRequest Icmp.icmpTimeExceeded Icmp.icmpExcTtl out :=
  (errorMessage_iff [⟨0x0a000100, 0xffffff00, 0, 0⟩] (fun _ => ⟨Vector.replicate 6 2, 0x0a000101⟩) plainRequest
    Icmp.icmpTimeExceeded Icmp.icmpExcTtl ⟨0x0a000100, 0xffffff00, 0, 0⟩ (by decide) (by decide) (by decide)).mpr
    (by decide) (fun _ => 0xaa) 1

end Router

end NetStack
