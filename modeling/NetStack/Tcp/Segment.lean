import NetStack.Ip
import NetStack.Tcp.Sock

/-! Segments as bytes (`include/tcp.h`, `tcp.c`, `tcp_out.c` of `EXP18-TCP_Stack_4/code/18-tcp_stack`).

`Holds` says that a frame is the encoding of a packet: what is read of it, field by
field and with both header lengths, and that its checksum is right. It depends only on the
bytes it names (`Holds.of_agree`), and the receiver makes of such a frame what `tcp_cb_init`
makes of the packet (`Holds.receive`). -/
namespace NetStack.Tcp

/-- `TCP_BASE_HDR_SIZE`. -/
def tcpBaseHdrSize : Nat := 20

/-- `IPPROTO_TCP`. -/
def ipprotoTcp : U8 := 6

/-- `struct tcphdr`: the fields that are read, less the checksum. -/
structure Tcphdr where
  sport : U16
  dport : U16
  seq : U32
  ack : U32
  off : Nat
  flags : U8
  rwnd : U16
deriving DecidableEq, Repr

/-- The header at `tcp`. -/
def tcphdr (m : Mem) (tcp : Nat) : Tcphdr where
  sport := m.load16 tcp
  dport := m.load16 (tcp + 2)
  seq := m.load32 (tcp + 4)
  ack := m.load32 (tcp + 8)
  off := (m.load8 (tcp + 12) >>> 4).toNat
  flags := m.load8 (tcp + 13)
  rwnd := m.load16 (tcp + 14)

/-- `TCP_HDR_SIZE`. -/
def Tcphdr.size (hdr : Tcphdr) : Nat := hdr.off * 4

namespace Wire

/-! ### The code -/

/-- `tcp_init_hdr`. -/
def tcpInitHdr (m : Mem) (tcp : Nat) (sport dport : U16) (seq ack : U32) (flags : U8) (rwnd : U16) : Mem :=
  let m := m.zero tcp tcpBaseHdrSize
  let m := m.store16 tcp (htons sport)
  let m := m.store16 (tcp + 2) (htons dport)
  let m := m.store32 (tcp + 4) (htonl seq)
  let m := m.store32 (tcp + 8) (htonl ack)
  let m := m.store8 (tcp + 12) ((m.load8 (tcp + 12) &&& 0x0f) ||| 0x50)
  let m := m.store8 (tcp + 13) flags
  m.store16 (tcp + 14) (htons rwnd)

/-- The length `tcp_checksum` covers: what the IP header leaves of the datagram. -/
def tcpLen (ip : Iphdr) : U16 := ntohs ip.totLen - BitVec.ofNat 16 ip.size

/-- What `tcp_checksum` starts from: the pseudo header. -/
def pseudoSum (ip : Iphdr) : U32 :=
  ip.saddr + ip.daddr + (htons (ip.protocol.setWidth 16)).setWidth 32 + (htons (tcpLen ip)).setWidth 32

/-- `tcp_checksum`: the field itself counts as zero, and is put back afterwards. -/
def tcpChecksum (m : Mem) (ip tcp : Nat) : U16 :=
  let m := m.store16 (tcp + 16) 0
  checksum m tcp (tcpLen (iphdr m ip)).toNat (pseudoSum (iphdr m ip))

/-- `pl_len`, an `int`. -/
def plLen (ip : Iphdr) (tcp : Tcphdr) : Int := ((ntohs ip.totLen).toNat : Int) - ip.size - tcp.size

/-- `tcp_cb_init`, with the bytes that `payload` and `pl_len` delimit. -/
def tcpCbInit (m : Mem) (ip tcp : Nat) : TcpCb where
  saddr := ntohl (iphdr m ip).saddr
  daddr := ntohl (iphdr m ip).daddr
  sport := ntohs (tcphdr m tcp).sport
  dport := ntohs (tcphdr m tcp).dport
  seq := ntohl (tcphdr m tcp).seq
  seqEnd := ntohl (tcphdr m tcp).seq + BitVec.ofInt 32 (plLen (iphdr m ip) (tcphdr m tcp)) +
    if hasFlag (tcphdr m tcp).flags (tcpSyn ||| tcpFin) then 1 else 0
  ack := ntohl (tcphdr m tcp).ack
  rwnd := (ntohs (tcphdr m tcp).rwnd).setWidth 32
  flags := (tcphdr m tcp).flags
  payload := m.read (tcp + (tcphdr m tcp).off * 4) (plLen (iphdr m ip) (tcphdr m tcp)).toNat

/-- `packet_to_tcp_hdr`; `handle_ip_packet` finds the header at the same place, `IP_DATA`. -/
def packetToTcpHdr (m : Mem) : Nat := etherHdrSize + (iphdr m etherHdrSize).size

/-- `handle_tcp_packet` up to the lookup of a socket: nothing comes of a wrong checksum. -/
def handleTcpPacket (m : Mem) (ip tcp : Nat) : Option TcpCb :=
  if tcpChecksum m ip tcp = m.load16 (tcp + 16) then some (tcpCbInit m ip tcp) else none

/-! ### The parts of a datagram -/

variable {m m' : Mem} {ip tcp : Nat} {p : Packet}

/-- A TCP header made for these values out of memory `m`. -/
structure TcpInitialised (m : Mem) (tcp : Nat) (sport dport : U16) (seq ack : U32) (flags : U8) (rwnd : U16)
    (m' : Mem) : Prop where
  header : tcphdr m' tcp = ⟨htons sport, htons dport, htonl seq, htonl ack, 5, flags, htons rwnd⟩
  frame : ∀ a n, a + n ≤ tcp ∨ tcp + 20 ≤ a → m'.Agree m a n

theorem tcpInitHdr_initialises (m : Mem) (tcp : Nat) (sport dport : U16) (seq ack : U32) (flags : U8)
    (rwnd : U16) :
    TcpInitialised m tcp sport dport seq ack flags rwnd
      (tcpInitHdr m tcp sport dport seq ack flags rwnd) where
  header := by
    -- the low half of the byte is the zero of the memset
    have hzero : (m.zero tcp tcpBaseHdrSize).load8 (tcp + 12) = 0 := Mem.write_at (f := fun _ => 0) (by decide)
    simp (disch := omega) only [tcphdr, tcpInitHdr, Mem.load8_write, Mem.load8_store8, Mem.load16_write,
      Mem.load16_store16, Mem.load32_write, Mem.load32_store32, hzero]
    rfl
  frame a n h := by
    have hsize : tcpBaseHdrSize = 20 := rfl
    intro i ha hn
    simp (disch := omega) only [tcpInitHdr, Mem.write_apply]

/-- The header is its first sixteen bytes. -/
theorem tcphdr_congr (h : m.Agree m' tcp 16) : tcphdr m tcp = tcphdr m' tcp := by
  have hsport : m.Agree m' tcp 2 := h.mono (by omega) (by omega)
  have hdport : m.Agree m' (tcp + 2) 2 := h.mono (by omega) (by omega)
  have hseq : m.Agree m' (tcp + 4) 4 := h.mono (by omega) (by omega)
  have hack : m.Agree m' (tcp + 8) 4 := h.mono (by omega) (by omega)
  have hoff : m.Agree m' (tcp + 12) 1 := h.mono (by omega) (by omega)
  have hflags : m.Agree m' (tcp + 13) 1 := h.mono (by omega) (by omega)
  have hrwnd : m.Agree m' (tcp + 14) 2 := h.mono (by omega) (by omega)
  rw [tcphdr, tcphdr, hsport.load16, hdport.load16, hseq.load32, hack.load32, hoff.load8, hflags.load8,
    hrwnd.load16]

/-- What is in the checksum field makes no difference to the checksum. -/
theorem tcpChecksum_store (m : Mem) (ip tcp : Nat) (x : U16) :
    tcpChecksum (m.store16 (tcp + 16) x) ip tcp = tcpChecksum m ip tcp := by
  rw [tcpChecksum, tcpChecksum, Mem.store16, Mem.store16, Mem.store16, Mem.write_write]

/-- The checksum depends on the IP header and on the bytes of the segment. -/
theorem tcpChecksum_congr (hip : m.Agree m' ip 10) (haddr : m.Agree m' (ip + 12) 8)
    (hseg : m.Agree m' tcp (tcpLen (iphdr (m.store16 (tcp + 16) 0) ip)).toNat) :
    tcpChecksum m ip tcp = tcpChecksum m' ip tcp := by
  have hheader : iphdr (m.store16 (tcp + 16) 0) ip = iphdr (m'.store16 (tcp + 16) 0) ip :=
    iphdr_congr hip.write haddr.write
  rw [tcpChecksum, tcpChecksum, ← hheader]
  exact checksum_congr hseg.write

/-! ### Frames that hold a packet -/

/-- The fields of the datagram at `ip`, and the data behind them, are those of a packet. -/
structure Fields (m : Mem) (ip : Nat) (p : Packet) : Prop where
  ipHeader : iphdr m ip =
    ⟨4, 5, htons (BitVec.ofNat 16 (40 + p.payload.length)), ipprotoTcp, htonl p.saddr, htonl p.daddr⟩
  tcpHeader : tcphdr m (ip + 20) =
    ⟨htons p.sport, htons p.dport, htonl p.seq, htonl p.ack, 5, p.flags, htons p.rwnd⟩
  payload : m.read (ip + 40) p.payload.length = p.payload

/-- The TCP header and then the IP header, before data that is in place. -/
theorem Fields.of_tcp_ip (id : U16) (hdata : m.read (ip + 40) p.payload.length = p.payload) :
    Fields (ipInitHdr checksum id (tcpInitHdr m (ip + 20) p.sport p.dport p.seq p.ack p.flags p.rwnd) ip
      p.saddr p.daddr (BitVec.ofNat 16 (40 + p.payload.length)) ipprotoTcp) ip p where
  ipHeader := (ipInitHdr_initialises ..).header
  tcpHeader := by
    rw [tcphdr_congr ((ipInitHdr_initialises ..).frame _ _ (by omega)), (tcpInitHdr_initialises ..).header]
  payload := by
    rw [((ipInitHdr_initialises ..).frame _ _ (by omega)).read,
      ((tcpInitHdr_initialises ..).frame _ _ (by omega)).read, hdata]

/-- The IP header and then the TCP header. -/
theorem Fields.of_ip_tcp (id : U16) (hdata : m.read (ip + 40) p.payload.length = p.payload) :
    Fields (tcpInitHdr (ipInitHdr checksum id m ip p.saddr p.daddr (BitVec.ofNat 16 (40 + p.payload.length))
      ipprotoTcp) (ip + 20) p.sport p.dport p.seq p.ack p.flags p.rwnd) ip p where
  ipHeader := by
    rw [iphdr_congr ((tcpInitHdr_initialises ..).frame _ _ (by omega))
      ((tcpInitHdr_initialises ..).frame _ _ (by omega)), (ipInitHdr_initialises ..).header]
  tcpHeader := (tcpInitHdr_initialises ..).header
  payload := by
    rw [((tcpInitHdr_initialises ..).frame _ _ (by omega)).read,
      ((ipInitHdr_initialises ..).frame _ _ (by omega)).read, hdata]

/-- Nothing but the two checksums is left out of the fields. -/
theorem Fields.of_agree (h : Fields m ip p) (hip : m'.Agree m ip 10) (haddr : m'.Agree m (ip + 12) 24)
    (hdata : m'.Agree m (ip + 40) p.payload.length) : Fields m' ip p where
  ipHeader := by rw [iphdr_congr hip (haddr.mono (by omega) (by omega)), h.ipHeader]
  tcpHeader := by rw [tcphdr_congr (haddr.mono (by omega) (by omega)), h.tcpHeader]
  payload := by rw [hdata.read, h.payload]

/-- The length that the checksum covers. -/
theorem Fields.tcpLen_eq (h : Fields m ip p) (hfits : 40 + p.payload.length < 65536) :
    (tcpLen (iphdr m ip)).toNat = 20 + p.payload.length := by
  rw [h.ipHeader, tcpLen]
  simp only [Iphdr.size, ntohs_ntohs]
  bv_omega

/-- `pl_len` is the length of the data. -/
theorem Fields.plLen_eq (h : Fields m ip p) (hfits : 40 + p.payload.length < 65536) :
    plLen (iphdr m ip) (tcphdr m (ip + 20)) = p.payload.length := by
  have htot : (BitVec.ofNat 16 (40 + p.payload.length)).toNat = 40 + p.payload.length := by
    rw [BitVec.toNat_ofNat]
    omega
  rw [h.ipHeader, h.tcpHeader, plLen]
  simp only [Iphdr.size, Tcphdr.size, ntohs_ntohs, htot]
  omega

/-- `tcp_cb_init` reads off the packet. -/
theorem Fields.tcpCbInit_eq (h : Fields m ip p) (hfits : 40 + p.payload.length < 65536) :
    tcpCbInit m ip (ip + 20) = Tcp.tcpCbInit p := by
  rw [tcpCbInit, h.plLen_eq hfits, h.ipHeader, h.tcpHeader]
  simp only [ntohl_ntohl, ntohs_ntohs, Int.toNat_natCast, BitVec.ofInt_natCast, Nat.add_assoc,
    Nat.reduceAdd, Nat.reduceMul, h.payload]
  rfl

/-- The checksum field is none of the fields. -/
theorem Fields.store_checksum (h : Fields m ip p) (x : U16) : Fields (m.store16 (ip + 20 + 16) x) ip p :=
  h.of_agree (Mem.agree_write (by omega)) (Mem.agree_write (by omega)) (Mem.agree_write (by omega))

/-- The acknowledgement is a field of its own. -/
theorem Fields.store_ack (h : Fields m ip p) (ack : U32) :
    Fields (m.store32 (ip + 20 + 8) (htonl ack)) ip { p with ack } where
  ipHeader := by rw [iphdr_congr (Mem.agree_write (by omega)) (Mem.agree_write (by omega)), h.ipHeader]
  tcpHeader := by
    have hheader : tcphdr (m.store32 (ip + 20 + 8) (htonl ack)) (ip + 20) =
        { tcphdr m (ip + 20) with ack := htonl ack } := by
      simp (disch := omega) only [tcphdr, Mem.load8_write, Mem.load16_write, Mem.load32_write,
        Mem.load32_store32]
    rw [hheader, h.tcpHeader]
  payload := by rw [Mem.read_write (by omega), h.payload]

/-- The IP checksum does not count in that of the segment, nor does what is outside the datagram. -/
theorem Fields.checksum_congr (h : Fields m ip p) (hfits : 40 + p.payload.length < 65536)
    (hip : m.Agree m' ip 10) (hrest : m.Agree m' (ip + 12) (28 + p.payload.length)) :
    tcpChecksum m ip (ip + 20) = tcpChecksum m' ip (ip + 20) := by
  have hlen := (h.store_checksum 0).tcpLen_eq hfits
  apply tcpChecksum_congr hip (hrest.mono (by omega) (by omega))
  rw [hlen]
  exact hrest.mono (by omega) (by omega)

/-- A datagram with these fields that the checksum test lets through. -/
structure Datagram (m : Mem) (ip : Nat) (p : Packet) : Prop where
  fits : 40 + p.payload.length < 65536
  fields : Fields m ip p
  checksum : tcpChecksum m ip (ip + 20) = m.load16 (ip + 20 + 16)

/-- The fields and then the checksum over them make a datagram. -/
theorem Fields.checksummed (h : Fields m ip p) (hfits : 40 + p.payload.length < 65536) :
    Datagram (m.store16 (ip + 20 + 16) (tcpChecksum m ip (ip + 20))) ip p where
  fits := hfits
  fields := h.store_checksum _
  checksum := by rw [Mem.load16_store16, tcpChecksum_store]

theorem Datagram.of_agree (h : Datagram m ip p) (hip : m'.Agree m ip 10)
    (hrest : m'.Agree m (ip + 12) (28 + p.payload.length)) : Datagram m' ip p where
  fits := h.fits
  fields := h.fields.of_agree hip (hrest.mono (by omega) (by omega)) (hrest.mono (by omega) (by omega))
  checksum := by
    have hfield : m'.Agree m (ip + 20 + 16) 2 := hrest.mono (by omega) (by omega)
    rw [hfield.load16, ← h.checksum]
    exact (h.fields.checksum_congr h.fits hip.symm hrest.symm).symm

/-- The IP checksum can be set afterwards. -/
theorem Datagram.store_ipChecksum (h : Datagram m ip p) (x : U16) : Datagram (m.store16 (ip + 10) x) ip p :=
  h.of_agree (Mem.agree_write (by omega)) (Mem.agree_write (by omega))

/-- The frame is the encoding of a packet. -/
structure Holds (f : Frame) (p : Packet) : Prop where
  len : f.len = etherHdrSize + 40 + p.payload.length
  datagram : Datagram f.mem etherHdrSize p

/-- A host that receives the frame, with whatever Ethernet header the link put before it,
passes `cb` on, the payload of the length `pl_len`. -/
def Delivers (f : Frame) (cb : TcpCb) : Prop :=
  ∀ m : Mem, m.Agree f.mem etherHdrSize (f.len - etherHdrSize) →
    handleTcpPacket m etherHdrSize (packetToTcpHdr m) = some cb ∧
      plLen (iphdr m etherHdrSize) (tcphdr m (packetToTcpHdr m)) = cb.payload.length

theorem Holds.of_agree {f : Frame} (h : Holds f p)
    (hagree : m.Agree f.mem etherHdrSize (f.len - etherHdrSize)) : Datagram m etherHdrSize p := by
  have hlen := h.len
  exact h.datagram.of_agree (hagree.mono (by omega) (by omega)) (hagree.mono (by omega) (by omega))

/-- Without options, the TCP header is where the sender put it. -/
theorem Datagram.packetToTcpHdr_eq (h : Datagram m etherHdrSize p) : packetToTcpHdr m = etherHdrSize + 20 := by
  rw [packetToTcpHdr, h.fields.ipHeader]
  rfl

/-- What holds the packet is taken, and read as the packet. -/
theorem Holds.delivers {f : Frame} (h : Holds f p) : Delivers f (Tcp.tcpCbInit p) := by
  intro m hagree
  have hm := h.of_agree hagree
  rw [hm.packetToTcpHdr_eq, handleTcpPacket, if_pos hm.checksum, hm.fields.tcpCbInit_eq hm.fits]
  exact ⟨rfl, hm.fields.plLen_eq hm.fits⟩

end Wire

end NetStack.Tcp
