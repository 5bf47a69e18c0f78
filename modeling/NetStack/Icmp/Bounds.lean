import NetStack.Icmp.Reply

/-! What `icmp_send_packet` reads of a received frame and touches of the packet it makes (`icmp.c`,
`include/icmp.h`, `handle_ip_packet` and `ip_forward_packet` in `ip.c` of
`EXP18-TCP_Stack_4/code/18-tcp_stack`).

A reply's packet is as long as the frame, and what is copied and summed is as long as the IP
header says; a message about an error copies eight bytes after the header, and nobody has made
sure that they are there. All of it stays inside exactly if the lengths agree (`accesses_inBounds_iff`). -/
namespace NetStack.Icmp
open Mospf (RtEntry longestPrefixMatch)
open Tcp.Wire (Received ipprotoIcmp ethFrameLen ihl_lt)
open Arp (icmpDestUnreach)

/-- `ICMP_TIME_EXCEEDED`, `ICMP_EXC_TTL`, `ICMP_NET_UNREACH`, `ICMP_COPIED_DATA_LEN`. -/
def icmpTimeExceeded : U8 := 11
def icmpExcTtl : U8 := 0
def icmpNetUnreach : U8 := 0
def icmpCopiedDataLen : Nat := 8

/-! ### Who calls it -/

/-- A call of `icmp_send_packet`. -/
structure Call where
  inPkt : Frame
  type : U8
  code : U8

/-- `ip_forward_packet`, up to where it calls `icmp_send_packet`; `none` if it does not. -/
def ipForwardPacket (rtable : List RtEntry) (ipDst : U32) (packet : Frame) : Option Call :=
  let hdr := etherHdrSize
  if packet.mem.load8 (hdr + 8) ≤ 1 then some ⟨packet, icmpTimeExceeded, icmpExcTtl⟩
  else
    let m := packet.mem.store8 (hdr + 8) (packet.mem.load8 (hdr + 8) - 1)
    let m := m.store16 (hdr + 10) (ipChecksum Tcp.checksum m hdr)
    match longestPrefixMatch rtable ipDst with
    | none => some ⟨{ packet with mem := m }, icmpDestUnreach, icmpNetUnreach⟩
    | some _ => none

/-- `handle_ip_packet`, at an interface with address `ifaceIp`. -/
def handleIpPacket (rtable : List RtEntry) (ifaceIp : U32) (packet : Frame) : Option Call :=
  let ip := iphdr packet.mem etherHdrSize
  if ntohl ip.daddr = ifaceIp then
    if ip.protocol = ipprotoIcmp ∧ packet.mem.load8 (ipData packet.mem) = icmpEchoRequest then
      some ⟨packet, icmpEchoReply, 0⟩
    else none
  else ipForwardPacket rtable (ntohl ip.daddr) packet

/-! ### Accesses -/

/-- Some bytes, from an offset on. -/
structure Span where
  start : Int
  size : Nat
deriving DecidableEq, Repr

/-- The bytes are among the first `len`. -/
def Span.Inside (s : Span) (len : Nat) : Prop := ∀ i, s.start ≤ i → i < s.start + s.size → 0 ≤ i ∧ i < len

/-- An `int` as the `size_t` that `memcpy` takes. -/
def toSizeT (n : Int) : Nat := (n % 2 ^ 64).toNat

/-- What `checksum` reads. -/
def checksumSpans (buf : Nat) (nbytes : Int) : List Span :=
  ⟨buf, 2 * (nbytes.tdiv 2).toNat⟩ :: if nbytes % 2 = 0 then [] else [⟨buf + nbytes - 1, 1⟩]

/-- `icmp_len`. -/
def icmpLen (m : Mem) (type : U8) : Int :=
  if type = icmpEchoReply then ((ntohs (iphdr m etherHdrSize).totLen).toNat : Int) - (iphdr m etherHdrSize).size
  else icmpHdrSize + (iphdr m etherHdrSize).size + icmpCopiedDataLen

/-- `out_len`. -/
def outLen (call : Call) : Nat :=
  if call.type = icmpEchoReply then call.inPkt.len
  else etherHdrSize + ipBaseHdrSize + (icmpHdrSize + (iphdr call.inPkt.mem etherHdrSize).size + icmpCopiedDataLen)

/-- What `ip_forward_packet` reads and writes of a packet up to its call, in order: `ttl`, and
where it goes on both fields it sets, with what `ip_checksum` needs. -/
def forwardSpans (m : Mem) : List Span :=
  let ip := etherHdrSize
  ⟨ip + 8, 1⟩ ::
    if m.load8 (ip + 8) ≤ 1 then []
    else ⟨ip + 10, 2⟩ :: ⟨ip, 1⟩ :: checksumSpans ip (iphdr m ip).size

/-- What `handle_ip_packet` reads and writes of a packet up to the call, in order. -/
def handlerSpans (ifaceIp : U32) (m : Mem) : List Span :=
  let ip := etherHdrSize
  ⟨ip + 16, 4⟩ ::
    if ntohl (iphdr m ip).daddr = ifaceIp then [⟨ip + 9, 1⟩, ⟨ip, 1⟩, ⟨ipData m, 1⟩] else forwardSpans m

/-- What `icmp_send_packet` reads of the packet it is given, in order. -/
def inSpans (call : Call) : List Span :=
  let m := call.inPkt.mem
  let ip := etherHdrSize
  if call.type = icmpEchoReply then
    [⟨ip + 2, 2⟩, ⟨ip, 1⟩, ⟨ipData m + 4, 2⟩, ⟨ipData m + 6, 2⟩,
      ⟨ipData m + icmpHdrSize, toSizeT (icmpLen m call.type - icmpHdrSize)⟩, ⟨ip + 12, 4⟩, ⟨ip + 16, 4⟩]
  else [⟨ip, 1⟩, ⟨ip, toSizeT (icmpLen m call.type - icmpHdrSize)⟩, ⟨ip + 12, 4⟩]

/-- What it writes of the packet it makes, and reads of it for the two checksums, in order. An
error message has no IP header made if there is no route for it. -/
def outSpans (rtable : List RtEntry) (call : Call) : List Span :=
  let m := call.inPkt.mem
  let ip := etherHdrSize
  let icmp := ip + ipBaseHdrSize
  let made : List Span := [⟨ip, ipBaseHdrSize⟩]
  ⟨0, outLen call⟩ :: ⟨icmp, 1⟩ :: ⟨icmp + 1, 1⟩ ::
    ((if call.type = icmpEchoReply then [⟨icmp + 4, 2⟩, ⟨icmp + 6, 2⟩] else []) ++
    ⟨icmp + icmpHdrSize, toSizeT (icmpLen m call.type - icmpHdrSize)⟩ ::
    ⟨icmp + 2, 2⟩ :: checksumSpans icmp (icmpLen m call.type) ++
    if call.type = icmpEchoReply then made
    else
      match longestPrefixMatch rtable (ntohl (iphdr m etherHdrSize).saddr) with
      | none => []
      | some _ => made)

/-- On the way to the call and in it, every byte of the frame lies in the frame, and every byte
of the packet made in that. -/
def InBounds (rtable : List RtEntry) (ifaceIp : U32) (f : Received) : Prop :=
  ∀ call, handleIpPacket rtable ifaceIp f.toFrame = some call →
    (∀ s ∈ handlerSpans ifaceIp f.mem ++ inSpans call, s.Inside f.len) ∧
      ∀ s ∈ outSpans rtable call, s.Inside (outLen call)

/-- For a request, that its headers fit `tot_len`, and `tot_len` the frame, also behind a header
without options; otherwise that the header and eight bytes after it are there, and all of a
header without options. -/
def Fits (rtable : List RtEntry) (ifaceIp : U32) (f : Received) : Prop :=
  let hdr := (iphdr f.mem etherHdrSize).size
  let totLen := (ntohs (iphdr f.mem etherHdrSize).totLen).toNat
  ∀ call, handleIpPacket rtable ifaceIp f.toFrame = some call →
    if call.type = icmpEchoReply then
      hdr + icmpHdrSize ≤ totLen ∧ etherHdrSize + totLen ≤ f.len ∧
        etherHdrSize + ipBaseHdrSize + (totLen - hdr) ≤ f.len
    else etherHdrSize + hdr + icmpCopiedDataLen ≤ f.len ∧ etherHdrSize + ipBaseHdrSize ≤ f.len

/-! ### Spans -/

variable {rtable : List RtEntry} {ifaceIp : U32} {f : Received} {call : Call} {len : Nat}

/-- Bytes lie inside if there are none, or if the first and the last do. -/
theorem Span.inside_iff (a : Int) (n : Nat) : Span.Inside ⟨a, n⟩ len ↔ n = 0 ∨ 0 ≤ a ∧ a + n ≤ len := by
  constructor
  · intro h
    rcases Nat.eq_zero_or_pos n with hzero | hpos
    · exact Or.inl hzero
    · have hfirst := h a (le_refl a) (by simp only; omega)
      have hlast := h (a + n - 1) (by simp only; omega) (by simp only; omega)
      exact Or.inr (by omega)
  · intro h i hi hlt
    simp only at hi hlt
    omega

/-- A checksum reads as many bytes as it is told. -/
theorem checksumSpans_inside (buf : Nat) {nbytes : Int} (hpos : 0 ≤ nbytes) (hle : buf + nbytes ≤ len) :
    ∀ s ∈ checksumSpans buf nbytes, s.Inside len := by
  rw [checksumSpans, Int.tdiv_eq_ediv_of_nonneg hpos]
  split
  · rw [List.forall_mem_singleton, Span.inside_iff]
    omega
  · rw [List.forall_mem_cons, List.forall_mem_singleton, Span.inside_iff, Span.inside_iff]
    omega

/-- A length that would be negative is larger than any frame. -/
theorem toSizeT_cases {n : Int} (hlow : -2 ^ 32 ≤ n) (hhigh : n < 2 ^ 32) :
    0 ≤ n ∧ (toSizeT n : Int) = n ∨ n < 0 ∧ 2 ^ 32 ≤ toSizeT n := by
  rw [toSizeT]
  omega

/-- Up to the call nothing lies behind the first byte after the header. -/
theorem handlerSpans_inside {m : Mem} (hbase : etherHdrSize + ipBaseHdrSize ≤ len) (hdata : ipData m < len) :
    ∀ s ∈ handlerSpans ifaceIp m, s.Inside len := by
  have hheader : (etherHdrSize : Int) + (iphdr m etherHdrSize).size ≤ len := by exact_mod_cast hdata.le
  have hsum := checksumSpans_inside etherHdrSize (Int.natCast_nonneg _) hheader
  simp only [etherHdrSize, ipBaseHdrSize] at hbase hsum
  rw [handlerSpans, List.forall_mem_cons, Span.inside_iff]
  refine ⟨by simp only [etherHdrSize]; omega, ?_⟩
  split
  · simp only [List.forall_mem_cons, Span.inside_iff, etherHdrSize]
    refine ⟨by omega, by omega, by omega, List.forall_mem_nil _⟩
  · rw [forwardSpans, List.forall_mem_cons, Span.inside_iff]
    refine ⟨by simp only [etherHdrSize]; omega, ?_⟩
    split
    · exact List.forall_mem_nil _
    · simp only [List.forall_mem_cons, Span.inside_iff, etherHdrSize]
      exact ⟨by omega, by omega, hsum⟩

/-- The destination address is read first. -/
theorem base_of_handlerSpans {m : Mem} (h : ∀ s ∈ handlerSpans ifaceIp m, s.Inside len) :
    etherHdrSize + ipBaseHdrSize ≤ len := by
  have hdaddr := (Span.inside_iff _ _).mp (List.forall_mem_cons.mp h).1
  simp only [etherHdrSize] at hdaddr
  simp only [etherHdrSize, ipBaseHdrSize]
  omega

/-! ### The two kinds of message -/

/-- The packet given is the frame, but for what forwarding changes of the header. -/
theorem handleIpPacket_packet (h : handleIpPacket rtable ifaceIp f.toFrame = some call) :
    call.inPkt.len = f.len ∧ (iphdr call.inPkt.mem etherHdrSize).size = (iphdr f.mem etherHdrSize).size ∧
      (iphdr call.inPkt.mem etherHdrSize).totLen = (iphdr f.mem etherHdrSize).totLen := by
  unfold handleIpPacket at h
  dsimp only at h
  split at h
  · split at h
    · cases h
      exact ⟨rfl, rfl, rfl⟩
    · cases h
  · unfold ipForwardPacket at h
    dsimp only at h
    split at h
    · cases h
      exact ⟨rfl, rfl, rfl⟩
    · split at h
      · cases h
        refine ⟨rfl, ?_, ?_⟩
        · simp (disch := omega) only [iphdr, Iphdr.size, Mem.load8_write]
        · simp (disch := omega) only [iphdr, Mem.load16_write]
      · cases h

theorem size_lt (m : Mem) : (iphdr m etherHdrSize).size < 64 := by
  have hihl := ihl_lt m etherHdrSize
  rw [Iphdr.size]
  omega

/-- A reply: the copies and the checksum need what `tot_len` says. -/
theorem reply_inside (htype : call.type = icmpEchoReply) (hbound : call.inPkt.len ≤ ethFrameLen) :
    ((∀ s ∈ inSpans call, s.Inside call.inPkt.len) ∧ ∀ s ∈ outSpans rtable call, s.Inside (outLen call)) ↔
      (iphdr call.inPkt.mem etherHdrSize).size + icmpHdrSize ≤
          (ntohs (iphdr call.inPkt.mem etherHdrSize).totLen).toNat ∧
        etherHdrSize + (ntohs (iphdr call.inPkt.mem etherHdrSize).totLen).toNat ≤ call.inPkt.len ∧
        etherHdrSize + ipBaseHdrSize + ((ntohs (iphdr call.inPkt.mem etherHdrSize).totLen).toNat -
          (iphdr call.inPkt.mem etherHdrSize).size) ≤ call.inPkt.len := by
  have hsize := size_lt call.inPkt.mem
  have htot := (ntohs (iphdr call.inPkt.mem etherHdrSize).totLen).isLt
  have hdata : ipData call.inPkt.mem = etherHdrSize + (iphdr call.inPkt.mem etherHdrSize).size := rfl
  have hout : outLen call = call.inPkt.len := if_pos htype
  have hicmpLen : icmpLen call.inPkt.mem call.type =
      ((ntohs (iphdr call.inPkt.mem etherHdrSize).totLen).toNat : Int) - (iphdr call.inPkt.mem etherHdrSize).size :=
    if_pos htype
  have hcopy := toSizeT_cases (n := icmpLen call.inPkt.mem call.type - icmpHdrSize)
    (by rw [hicmpLen, icmpHdrSize]; omega) (by rw [hicmpLen, icmpHdrSize]; omega)
  have hsum : 0 ≤ icmpLen call.inPkt.mem call.type → _ → ∀ s ∈ checksumSpans _ _, s.Inside call.inPkt.len :=
    checksumSpans_inside (etherHdrSize + ipBaseHdrSize)
  simp only [inSpans, outSpans, if_pos htype, hout, List.forall_mem_cons, List.forall_mem_append, Span.inside_iff]
  simp only [etherHdrSize, ipBaseHdrSize, icmpHdrSize, ethFrameLen] at *
  constructor
  · intro h
    obtain ⟨⟨-, -, -, hseq, hcopied, -⟩, -, -, -, ⟨⟨-, hseq', -⟩, hcopied', -⟩, -⟩ := h
    omega
  · intro h
    refine ⟨⟨?_, ?_, ?_, ?_, ?_, ?_, ?_, List.forall_mem_nil _⟩, ?_, ?_, ?_,
      ⟨⟨?_, ?_, List.forall_mem_nil _⟩, ?_, ?_, hsum (by omega) (by omega)⟩, ?_, List.forall_mem_nil _⟩ <;> omega

/-- A message about an error: the packet made is as large as it has to be. -/
theorem error_inside (htype : call.type ≠ icmpEchoReply) :
    ((∀ s ∈ inSpans call, s.Inside call.inPkt.len) ∧ ∀ s ∈ outSpans rtable call, s.Inside (outLen call)) ↔
      etherHdrSize + (iphdr call.inPkt.mem etherHdrSize).size + icmpCopiedDataLen ≤ call.inPkt.len ∧
        etherHdrSize + 16 ≤ call.inPkt.len := by
  have hsize := size_lt call.inPkt.mem
  have hicmpLen : icmpLen call.inPkt.mem call.type =
      icmpHdrSize + (iphdr call.inPkt.mem etherHdrSize).size + icmpCopiedDataLen := if_neg htype
  have hout : outLen call = etherHdrSize + ipBaseHdrSize +
      (icmpHdrSize + (iphdr call.inPkt.mem etherHdrSize).size + icmpCopiedDataLen) := if_neg htype
  have hcopy := toSizeT_cases (n := icmpLen call.inPkt.mem call.type - icmpHdrSize)
    (by rw [hicmpLen, icmpHdrSize, icmpCopiedDataLen]; omega)
    (by rw [hicmpLen, icmpHdrSize, icmpCopiedDataLen]; omega)
  have hsum : 0 ≤ icmpLen call.inPkt.mem call.type → _ → ∀ s ∈ checksumSpans _ _, s.Inside (outLen call) :=
    checksumSpans_inside (etherHdrSize + ipBaseHdrSize)
  simp only [inSpans, outSpans, if_neg htype, List.forall_mem_cons, List.forall_mem_append, Span.inside_iff]
  simp only [etherHdrSize, ipBaseHdrSize, icmpHdrSize, icmpCopiedDataLen] at *
  constructor
  · intro h
    obtain ⟨⟨-, hcopied, hsaddr, -⟩, -⟩ := h
    omega
  · intro h
    refine ⟨⟨?_, ?_, ?_, List.forall_mem_nil _⟩, ?_, ?_, ?_,
      ⟨List.forall_mem_nil _, ?_, ?_, hsum (by omega) (by omega)⟩, ?_⟩
    case refine_9 =>
      split
      · exact List.forall_mem_nil _
      · rw [List.forall_mem_singleton, Span.inside_iff]
        omega
    all_goals omega

/-- **ICMP messages.** What is read and touched lies inside exactly if the lengths agree. -/
theorem accesses_inBounds_iff (rtable : List RtEntry) (ifaceIp : U32) (f : Received) :
    InBounds rtable ifaceIp f ↔ Fits rtable ifaceIp f := by
  refine forall₂_congr fun call hcall => ?_
  obtain ⟨hlen, hsize, htotLen⟩ := handleIpPacket_packet hcall
  have hbound := f.bound
  have hdata : ipData f.mem = etherHdrSize + (iphdr f.mem etherHdrSize).size := rfl
  have hhandler : ipData f.mem < f.len → etherHdrSize + ipBaseHdrSize ≤ f.len →
      ∀ s ∈ handlerSpans ifaceIp f.mem, s.Inside f.len := fun hdata hbase => handlerSpans_inside hbase hdata
  have hbase : (∀ s ∈ handlerSpans ifaceIp f.mem, s.Inside f.len) → etherHdrSize + ipBaseHdrSize ≤ f.len :=
    base_of_handlerSpans
  rw [← hlen] at hbound
  rw [List.forall_mem_append, and_assoc]
  split
  · next htype =>
    have hreply := @reply_inside rtable call htype hbound
    rw [hlen, hsize, htotLen] at hreply
    rw [hreply]
    simp only [icmpHdrSize]
    refine and_iff_right_of_imp fun h => hhandler ?_ ?_ <;> omega
  · next htype =>
    have herror := @error_inside rtable call htype
    rw [hlen, hsize] at herror
    rw [herror]
    simp only [icmpCopiedDataLen]
    constructor
    · exact fun h => ⟨h.2.1, hbase h.1⟩
    · exact fun h => ⟨hhandler (by omega) h.2, h.1, by simp only [ipBaseHdrSize] at h; omega⟩

/-- A datagram of 20 bytes with no hop left, for another address. -/
def bareHeader : Received where
  mem a := if a = 14 then 0x45 else if a = 17 then 20 else if a = 22 then 1 else if a = 30 then 10 else 0
  len := 34
  bound := by decide

theorem bareHeader_outside : ¬∀ rtable ifaceIp f, InBounds rtable ifaceIp f := by
  intro h
  have hcall : handleIpPacket [] 0x0a000101 bareHeader.toFrame =
      some ⟨bareHeader.toFrame, icmpTimeExceeded, icmpExcTtl⟩ := rfl
  have hcopied := (h [] 0x0a000101 bareHeader _ hcall).1 ⟨14, 28⟩ (List.mem_append_right _ (by decide))
  exact absurd ((Span.inside_iff 14 28).mp hcopied) (by decide)

end NetStack.Icmp
