import NetStack.Lib.Run
import NetStack.Tcp.Segment
import Mathlib.Data.List.Forall2

/-! What a socket puts on the wire (`tcp_out.c`; `send_data` and the send buffer in `tcp_sock.c` of
`EXP18-TCP_Stack_4/code/18-tcp_stack`).

A socket here keeps frames in its send buffer. It stands for the socket that keeps the packets
they hold (`Sock.Represents`), and each of the three ways to send makes a frame that holds
what the socket over packets sends. -/
namespace NetStack.Tcp.Wire

/-- A socket whose send buffer holds frames; `tsk` is the rest of it, and its `sendBuf` is not used. -/
structure Sock where
  tsk : TcpSock
  sendBuf : List Frame

/-! ### The frames -/

/-- What `tcp_send_packet` makes of a packet with the payload in place. -/
def dataFrame (id : U16) (tsk : TcpSock) (packet : Frame) : Frame :=
  let ip := etherHdrSize
  let tcp := ip + ipBaseHdrSize
  let ipTotLen : Int := packet.len - etherHdrSize
  let m := tcpInitHdr packet.mem tcp tsk.skSport tsk.skDport tsk.sndNxt tsk.rcvNxt (tcpPsh ||| tcpAck)
    tsk.rcvWnd
  let m := ipInitHdr checksum id m ip tsk.skSip tsk.skDip (BitVec.ofInt 16 ipTotLen) ipprotoTcp
  let m := m.store16 (tcp + 16) (tcpChecksum m ip tcp)
  ⟨m.store16 (ip + 10) (ipChecksum checksum m ip), packet.len⟩

/-- What `tcp_send_control_packet` makes in memory that held `buf`. -/
def controlFrame (id : U16) (buf : Mem) (tsk : TcpSock) (flags : U8) : Frame :=
  let ip := etherHdrSize
  let tcp := ip + ipBaseHdrSize
  let totLen := ipBaseHdrSize + tcpBaseHdrSize
  let m := ipInitHdr checksum id buf ip tsk.skSip tsk.skDip (BitVec.ofNat 16 totLen) ipprotoTcp
  let m := tcpInitHdr m tcp tsk.skSport tsk.skDport tsk.sndNxt tsk.rcvNxt flags tsk.rcvWnd
  ⟨m.store16 (tcp + 16) (tcpChecksum m ip tcp), etherHdrSize + totLen⟩

/-- What `retrans_send_buffer_packet` makes of an entry, in memory that held `buf`. -/
def retransFrame (buf : Mem) (tsk : TcpSock) (first : Frame) : Frame :=
  let m := buf.copy 0 first.mem 0 first.len
  let ip := etherHdrSize
  let tcp := packetToTcpHdr m
  let m := m.store32 (tcp + 8) (htonl tsk.rcvNxt)
  let m := m.store16 (tcp + 16) (tcpChecksum m ip tcp)
  ⟨m.store16 (ip + 10) (ipChecksum checksum m ip), first.len⟩

/-- `alloc_send_buffer_entry`: a copy, in memory that held `spare`. -/
def allocSendBufferEntry (spare : Mem) (packet : Frame) : Frame :=
  ⟨spare.copy 0 packet.mem 0 packet.len, packet.len⟩

/-- The sequence number `delete_send_buffer_entry` reads off an entry. -/
def entrySeq (entry : Frame) : U32 := ntohl (tcphdr entry.mem (packetToTcpHdr entry.mem)).seq

/-! ### The socket -/

namespace Sock

/-- A socket as `alloc_tcp_sock` leaves it. -/
def fresh : Sock := ⟨allocTcpSock, []⟩

/-- `add_send_buffer_entry`. -/
def addSendBufferEntry (spare : Mem) (s : Sock) (packet : Frame) : Sock :=
  { s with sendBuf := s.sendBuf ++ [allocSendBufferEntry spare packet] }

/-- `tcp_update_retrans_timer`. -/
def updateRetransTimer (s : Sock) : Sock := { s with tsk := s.tsk.updateRetransTimer }

/-- `tcp_send_packet`: the socket after it, and the frame it emits. -/
def tcpSendPacket (id : U16) (spare : Mem) (s : Sock) (packet : Frame) : Sock × Frame :=
  let ipTotLen : Int := packet.len - etherHdrSize
  let tcpDataLen : Int := ipTotLen - ipBaseHdrSize - tcpBaseHdrSize
  let packet := dataFrame id s.tsk packet
  let len := BitVec.ofInt 32 tcpDataLen
  let s := { s with tsk := { s.tsk with sndNxt := s.tsk.sndNxt + len, sndWnd := s.tsk.sndWnd - len } }
  ((s.addSendBufferEntry spare packet).updateRetransTimer, packet)

/-- `send_data`, whose packet is allocated where memory held `buf`. -/
def sendData (id : U16) (spare buf : Mem) (s : Sock) (data : List U8) : Sock × Frame :=
  let hdrs := etherHdrSize + ipBaseHdrSize + tcpBaseHdrSize
  s.tcpSendPacket id spare ⟨buf.write hdrs data.length fun i => data.getD i 0, hdrs + data.length⟩

/-- The sequence number that a control packet with these flags takes up. -/
def controlLen (flags : U8) : U32 := if hasFlag flags (tcpSyn ||| tcpFin) then 1 else 0

/-- `tcp_send_control_packet`. -/
def tcpSendControlPacket (id : U16) (spare buf : Mem) (s : Sock) (flags : U8) : Sock × Frame :=
  let packet := controlFrame id buf s.tsk flags
  let s := { s with tsk := { s.tsk with sndNxt := s.tsk.sndNxt + controlLen flags } }
  (if flags != tcpAck && !hasFlag flags tcpRst then (s.addSendBufferEntry spare packet).updateRetransTimer
    else s, packet)

/-- `retrans_send_buffer_packet`. -/
def retransSendBufferPacket (buf : Mem) (s : Sock) : Sock × Option Frame :=
  match s.sendBuf with
  | [] => (s, none)
  | first :: _ =>
    let packet := retransFrame buf s.tsk first
    let tcpDataLen : Int :=
      (ntohs (iphdr packet.mem etherHdrSize).totLen).toNat - ipBaseHdrSize - tcpBaseHdrSize
    ({ s with tsk := { s.tsk with sndWnd := s.tsk.sndWnd - BitVec.ofInt 32 tcpDataLen } }, some packet)

/-- `delete_send_buffer_entry`. -/
def deleteSendBufferEntry (s : Sock) (ack : U32) : Bool × Sock :=
  (s.sendBuf.any fun entry => lessThan32b (entrySeq entry) ack,
    { s with sendBuf := s.sendBuf.filter fun entry => !lessThan32b (entrySeq entry) ack })

end Sock

/-! ### The frames hold the packets -/

variable {s : Sock} {tsk : TcpSock} {packet first f : Frame} {p : Packet} {n : Nat}

/-- The frame of a data packet holds the socket's fields and the payload. -/
theorem dataFrame_holds (id : U16) (tsk : TcpSock) (hlen : packet.len = etherHdrSize + 40 + n)
    (hfits : 40 + n < 65536) :
    Holds (dataFrame id tsk packet)
      (tsk.packet (tcpPsh ||| tcpAck) (packet.mem.read (etherHdrSize + 40) n)) := by
  have hpayload : (packet.mem.read (etherHdrSize + 40) n).length = n := Mem.length_read ..
  have htot : BitVec.ofInt 16 ((packet.len : Int) - etherHdrSize) =
      BitVec.ofNat 16 (40 + (packet.mem.read (etherHdrSize + 40) n).length) := by
    rw [hpayload, hlen, ← BitVec.ofInt_natCast]
    congr 1
    omega
  have hdata : packet.mem.read (etherHdrSize + 40) (tsk.packet (tcpPsh ||| tcpAck)
        (packet.mem.read (etherHdrSize + 40) n)).payload.length =
      (tsk.packet (tcpPsh ||| tcpAck) (packet.mem.read (etherHdrSize + 40) n)).payload := by
    rw [TcpSock.packet, hpayload]
  have hfields := Fields.of_tcp_ip id hdata
  have hdatagram := (hfields.checksummed (by rw [TcpSock.packet, hpayload]; exact hfits)).store_ipChecksum
  constructor
  · rw [TcpSock.packet, hpayload, ← hlen]
    rfl
  · simp only [dataFrame, htot]
    exact hdatagram _

/-- The frame of a control packet holds the socket's fields and no payload. -/
theorem controlFrame_holds (id : U16) (buf : Mem) (tsk : TcpSock) (flags : U8) :
    Holds (controlFrame id buf tsk flags) (tsk.packet flags []) where
  len := rfl
  datagram := (Fields.of_ip_tcp (p := tsk.packet flags []) id rfl).checksummed (by
    show 40 < 65536
    decide)

/-- A copy of a frame holds what the frame holds. -/
theorem Holds.copy (h : Holds first p) (spare : Mem) :
    Datagram (spare.copy 0 first.mem 0 first.len) etherHdrSize p := by
  have hcopy := Mem.copy_agree spare first.mem 0 first.len
  have hlen := h.len
  exact h.of_agree (hcopy.mono (by omega) (by omega))

theorem allocSendBufferEntry_holds (h : Holds packet p) (spare : Mem) :
    Holds (allocSendBufferEntry spare packet) p := ⟨h.len, h.copy spare⟩

/-- The frame sent again holds the packet with the acknowledgement of the socket as it is. -/
theorem retransFrame_holds (h : Holds first p) (buf : Mem) (tsk : TcpSock) :
    Holds (retransFrame buf tsk first) { p with ack := tsk.rcvNxt } where
  len := h.len
  datagram := by
    have hcopy := h.copy buf
    have hfields := hcopy.fields.store_ack tsk.rcvNxt
    have hdatagram := (hfields.checksummed h.datagram.fits).store_ipChecksum
    simp only [retransFrame, hcopy.packetToTcpHdr_eq]
    exact hdatagram _

/-- The entry's sequence number is that of the packet. -/
theorem entrySeq_eq (h : Holds first p) : entrySeq first = p.seq := by
  rw [entrySeq, h.datagram.packetToTcpHdr_eq, h.datagram.fields.tcpHeader]
  exact ntohl_ntohl p.seq

theorem any_entrySeq {sendBuf : List Frame} {ps : List Packet} (h : List.Forall₂ Holds sendBuf ps)
    (older : U32 → Bool) : (sendBuf.any fun entry => older (entrySeq entry)) = ps.any fun p => older p.seq := by
  induction h with
  | nil => rfl
  | cons hfirst _ ih => rw [List.any_cons, List.any_cons, ih, entrySeq_eq hfirst]

/-- The `int` that a retransmission takes for the length of the data. -/
theorem ofInt_totLen (h : Holds f p) :
    BitVec.ofInt 32 ((ntohs (iphdr f.mem etherHdrSize).totLen).toNat - ipBaseHdrSize - tcpBaseHdrSize : Int) =
      BitVec.ofNat 32 p.payload.length := by
  have hdata : ((ntohs (iphdr f.mem etherHdrSize).totLen).toNat - ipBaseHdrSize - tcpBaseHdrSize : Int) =
      (p.payload.length : Int) := by
    have hfits := h.datagram.fits
    have htot : (BitVec.ofNat 16 (40 + p.payload.length)).toNat = 40 + p.payload.length := by
      rw [BitVec.toNat_ofNat]
      omega
    rw [h.datagram.fields.ipHeader]
    simp only [ntohs_ntohs, htot, ipBaseHdrSize, tcpBaseHdrSize]
    omega
  rw [hdata, BitVec.ofInt_natCast]

/-- `send_data` puts the data where the payload is. -/
theorem sendData_payload (buf : Mem) (a : Nat) (data : List U8) :
    (buf.write a data.length fun i => data.getD i 0).read a data.length = data := by
  apply List.ext_getElem
  · rw [Mem.length_read]
  · intro i hi hi'
    simp only [Mem.read, List.getElem_map, List.getElem_range]
    rw [Mem.write_at hi', List.getD_eq_getElem?_getD, List.getElem?_eq_getElem hi']
    rfl

/-! ### The socket over packets -/

namespace Sock

/-- The frames in the send buffer hold the packets in that of `tsk`, and the rest is the same. -/
structure Represents (s : Sock) (tsk : TcpSock) : Prop where
  rest : { s.tsk with sendBuf := tsk.sendBuf } = tsk
  sendBuf : List.Forall₂ Holds s.sendBuf tsk.sendBuf

/-- What does not look at the send buffer is done alike. -/
theorem Represents.map {f : TcpSock → TcpSock}
    (hf : ∀ (tsk : TcpSock) (sendBuf : List Packet), f { tsk with sendBuf } = { f tsk with sendBuf })
    (h : s.Represents tsk) : ({ s with tsk := f s.tsk } : Sock).Represents (f tsk) := by
  have hrest : f tsk = { f s.tsk with sendBuf := tsk.sendBuf } := by rw [← hf, h.rest]
  constructor
  · rw [hrest]
  · rw [hrest]
    exact h.sendBuf

theorem updateRetransTimer_sendBuf (tsk : TcpSock) (sendBuf : List Packet) :
    ({ tsk with sendBuf } : TcpSock).updateRetransTimer = { tsk.updateRetransTimer with sendBuf } := by
  by_cases h : tsk.retransTimer.enable = true <;>
    simp [TcpSock.updateRetransTimer, TcpSock.setRetransTimer, h]

/-- A frame kept is the packet kept. -/
theorem Represents.addSendBufferEntry (h : s.Represents tsk) (hpacket : Holds packet p) (spare : Mem) :
    (s.addSendBufferEntry spare packet).Represents { tsk with sendBuf := tsk.sendBuf ++ [p] } where
  rest := by
    show ({ s.tsk with sendBuf := tsk.sendBuf ++ [p] } : TcpSock) = _
    rw [← h.rest]
  sendBuf := List.rel_append h.sendBuf (.cons (allocSendBufferEntry_holds hpacket spare) .nil)

/-- Both make the same packet of their fields. -/
theorem Represents.packet_eq (h : s.Represents tsk) (flags : U8) (payload : List U8) :
    s.tsk.packet flags payload = tsk.packet flags payload := by
  rw [← h.rest]
  rfl

/-- The `int` that the sender takes for the length of the data. -/
theorem ofInt_dataLen (hlen : packet.len = etherHdrSize + 40 + n) :
    BitVec.ofInt 32 ((packet.len : Int) - etherHdrSize - ipBaseHdrSize - tcpBaseHdrSize) = BitVec.ofNat 32 n := by
  have hdata : (packet.len : Int) - etherHdrSize - ipBaseHdrSize - tcpBaseHdrSize = (n : Int) := by
    simp only [hlen, ipBaseHdrSize, tcpBaseHdrSize]
    omega
  rw [hdata, BitVec.ofInt_natCast]

/-- `tcp_send_packet` is `TcpSock.sendPacket` on the payload. -/
theorem Represents.tcpSendPacket (h : s.Represents tsk) (id : U16) (spare : Mem)
    (hlen : packet.len = etherHdrSize + 40 + n) (hfits : 40 + n < 65536) :
    (s.tcpSendPacket id spare packet).1.Represents
        (tsk.sendPacket (packet.mem.read (etherHdrSize + 40) n)).1 ∧
      Holds (s.tcpSendPacket id spare packet).2
        (tsk.sendPacket (packet.mem.read (etherHdrSize + 40) n)).2 := by
  have hpacket := dataFrame_holds id s.tsk hlen hfits
  rw [h.packet_eq] at hpacket
  refine ⟨?_, hpacket⟩
  let advance (len : U32) (tsk : TcpSock) : TcpSock :=
    { tsk with sndNxt := tsk.sndNxt + len, sndWnd := tsk.sndWnd - len }
  have hadvance := h.map (f := advance (BitVec.ofNat 32 n)) fun _ _ => rfl
  simp only [Sock.tcpSendPacket, TcpSock.sendPacket, ofInt_dataLen hlen, Mem.length_read]
  exact (hadvance.addSendBufferEntry hpacket spare).map updateRetransTimer_sendBuf

/-- `tcp_send_control_packet` is `TcpSock.sendControlPacket`. -/
theorem Represents.tcpSendControlPacket (h : s.Represents tsk) (id : U16) (spare buf : Mem) (flags : U8) :
    (s.tcpSendControlPacket id spare buf flags).1.Represents (tsk.sendControlPacket flags).1 ∧
      Holds (s.tcpSendControlPacket id spare buf flags).2 (tsk.sendControlPacket flags).2 := by
  have hpacket := controlFrame_holds id buf s.tsk flags
  rw [h.packet_eq] at hpacket
  have hadvance := h.map (f := fun tsk => { tsk with sndNxt := tsk.sndNxt + controlLen flags }) fun _ _ => rfl
  have hlong : (if hasFlag flags (tcpSyn ||| tcpFin) then { tsk with sndNxt := tsk.sndNxt + 1 } else tsk) =
      { tsk with sndNxt := tsk.sndNxt + controlLen flags } := by
    unfold controlLen
    split
    · rfl
    · have hzero : tsk.sndNxt + 0 = tsk.sndNxt := BitVec.add_zero _
      rw [hzero]
  simp only [TcpSock.sendControlPacket, Sock.tcpSendControlPacket, hlong]
  split
  · exact ⟨(hadvance.addSendBufferEntry hpacket spare).map updateRetransTimer_sendBuf, hpacket⟩
  · exact ⟨hadvance, hpacket⟩

/-- `retrans_send_buffer_packet` is `TcpSock.retransSendBufferPacket`. -/
theorem Represents.retransSendBufferPacket (h : s.Represents tsk) (buf : Mem) :
    (s.retransSendBufferPacket buf).1.Represents tsk.retransSendBufferPacket.1 ∧
      List.Forall₂ Holds (s.retransSendBufferPacket buf).2.toList tsk.retransSendBufferPacket.2 := by
  have hbuf := h.sendBuf
  unfold Sock.retransSendBufferPacket TcpSock.retransSendBufferPacket
  cases hs : s.sendBuf with
  | nil =>
    rw [hs, List.forall₂_nil_left_iff] at hbuf
    rw [hbuf]
    exact ⟨h, .nil⟩
  | cons first rest =>
    rw [hs, List.forall₂_cons_left_iff] at hbuf
    obtain ⟨p, ps, hfirst, -, hps⟩ := hbuf
    have hframe := retransFrame_holds hfirst buf s.tsk
    have hadvance := h.map (f := fun tsk => { tsk with
      sndWnd := tsk.sndWnd - BitVec.ofNat 32 p.payload.length }) fun _ _ => rfl
    have hack : s.tsk.rcvNxt = tsk.rcvNxt := by rw [← h.rest]
    simp only [hs, hps] at hadvance
    simp only [hps, ofInt_totLen hframe]
    rw [hack] at hframe
    exact ⟨hadvance, .cons hframe .nil⟩

/-- `delete_send_buffer_entry` is `TcpSock.deleteSendBufferEntry`. -/
theorem Represents.deleteSendBufferEntry (h : s.Represents tsk) (ack : U32) :
    (s.deleteSendBufferEntry ack).1 = (tsk.deleteSendBufferEntry ack).1 ∧
      (s.deleteSendBufferEntry ack).2.Represents (tsk.deleteSendBufferEntry ack).2 := by
  refine ⟨?_, ?_, ?_⟩
  · exact any_entrySeq h.sendBuf fun seq => lessThan32b seq ack
  · show ({ s.tsk with sendBuf := _ } : TcpSock) = { tsk with sendBuf := _ }
    rw [← h.rest]
    rfl
  · refine List.rel_filter (fun entry p hentry => ?_) h.sendBuf
    show (!lessThan32b (entrySeq entry) ack) = true ↔ (!lessThan32b p.seq ack) = true
    rw [entrySeq_eq hentry]

/-! ### Runs -/

/-- The control block a segment is to give its receiver: the fields of the socket `s` that sent
it, and the end of the segment where sending it took `snd_nxt` to, in `t`. -/
def cb (s t : Sock) (flags : U8) (payload : List U8) : TcpCb where
  saddr := s.tsk.skSip
  daddr := s.tsk.skDip
  sport := s.tsk.skSport
  dport := s.tsk.skDport
  seq := s.tsk.sndNxt
  seqEnd := t.tsk.sndNxt
  ack := s.tsk.rcvNxt
  rwnd := s.tsk.rcvWnd.setWidth 32
  flags := flags
  payload := payload

/-- What happens to a socket: `tcp_send_packet`, `tcp_send_control_packet` and
`retrans_send_buffer_packet`, with the memory they allocate and the identification they draw,
`delete_send_buffer_entry`, and anything that leaves the send buffer alone. -/
inductive Event
  | send (id : U16) (spare : Mem) (packet : Frame)
  | control (id : U16) (spare buf : Mem) (flags : U8)
  | retrans (buf : Mem)
  | delete (ack : U32)
  | other (tsk : TcpSock)

/-- One event; a packet to be sent has 0 to `MSS` bytes of payload. -/
inductive Step : Sock → Event → Sock → Prop
  | send (s : Sock) (id : U16) (spare : Mem) {packet : Frame} {n : Nat} (hn : n ≤ mss)
      (hlen : packet.len = etherHdrSize + 40 + n) :
      Step s (.send id spare packet) (s.tcpSendPacket id spare packet).1
  | control (s : Sock) (id : U16) (spare buf : Mem) (flags : U8) :
      Step s (.control id spare buf flags) (s.tcpSendControlPacket id spare buf flags).1
  | retrans (s : Sock) (buf : Mem) : Step s (.retrans buf) (s.retransSendBufferPacket buf).1
  | delete (s : Sock) (ack : U32) : Step s (.delete ack) (s.deleteSendBufferEntry ack).2
  | other (s : Sock) (tsk : TcpSock) : Step s (.other tsk) { s with tsk }

/-- The control block of the segment that an event sends for the first time. -/
def Originates (s : Sock) (e : Event) (t : Sock) (b : TcpCb) : Prop :=
  match e with
  | .send _ _ packet =>
    b = s.cb t (tcpPsh ||| tcpAck) (packet.mem.read (etherHdrSize + 40) (packet.len - (etherHdrSize + 40)))
  | .control _ _ _ flags => b = s.cb t flags []
  | _ => False

/-- A segment with this control block was sent in the course of a run. -/
def SentIn (s₀ : Sock) (es : List Event) (b : TcpCb) : Prop :=
  ∃ before e after s t, es = before ++ e :: after ∧ Run Step s₀ before s ∧ Step s e t ∧ Originates s e t b

theorem SentIn.snoc {s₀ : Sock} {es : List Event} {b : TcpCb} (h : SentIn s₀ es b) (e : Event) :
    SentIn s₀ (es ++ [e]) b := by
  obtain ⟨before, e', after, s, t, rfl, hrun, hstep, hb⟩ := h
  exact ⟨before, e', after ++ [e], s, t, by rw [List.append_assoc, List.cons_append], hrun, hstep, hb⟩

/-- `seq_end`, which the receiver computes from the segment, is where the sender's `snd_nxt` got to. -/
theorem tcpCbInit_packet {s t : Sock} {flags : U8} {payload : List U8}
    (hnxt : t.tsk.sndNxt = s.tsk.sndNxt + BitVec.ofNat 32 payload.length +
      if hasFlag flags (tcpSyn ||| tcpFin) then 1 else 0) :
    Tcp.tcpCbInit (s.tsk.packet flags payload) = s.cb t flags payload := by
  rw [cb, hnxt]
  rfl

theorem sndNxt_tcpSendPacket (s : Sock) (id : U16) (spare : Mem) (hlen : packet.len = etherHdrSize + 40 + n) :
    (s.tcpSendPacket id spare packet).1.tsk.sndNxt = s.tsk.sndNxt + BitVec.ofNat 32 n := by
  simp only [tcpSendPacket, updateRetransTimer, addSendBufferEntry, ofInt_dataLen hlen]
  rw [TcpSock.updateRetransTimer_eq]

theorem sndNxt_tcpSendControlPacket (s : Sock) (id : U16) (spare buf : Mem) (flags : U8) :
    (s.tcpSendControlPacket id spare buf flags).1.tsk.sndNxt = s.tsk.sndNxt + controlLen flags := by
  unfold tcpSendControlPacket
  split
  · simp only [updateRetransTimer, addSendBufferEntry]
    rw [TcpSock.updateRetransTimer_eq]
  · rfl

/-- What `tcp_send_packet` emits delivers its control block. -/
theorem tcpSendPacket_holds (s : Sock) (id : U16) (spare : Mem) (hlen : packet.len = etherHdrSize + 40 + n)
    (hn : n ≤ mss) :
    ∃ p, Holds (s.tcpSendPacket id spare packet).2 p ∧ Tcp.tcpCbInit p =
      s.cb (s.tcpSendPacket id spare packet).1 (tcpPsh ||| tcpAck)
        (packet.mem.read (etherHdrSize + 40) n) := by
  have hmss : mss = 1460 := rfl
  have hflags : hasFlag (tcpPsh ||| tcpAck) (tcpSyn ||| tcpFin) = false := by decide
  refine ⟨_, dataFrame_holds id s.tsk hlen (by omega), tcpCbInit_packet ?_⟩
  rw [sndNxt_tcpSendPacket s id spare hlen, Mem.length_read, hflags]
  exact (BitVec.add_zero _).symm

/-- The data given to `send_data` is the payload delivered. -/
theorem sendData_delivers (s : Sock) (id : U16) (spare buf : Mem) (data : List U8) (hdata : data.length ≤ mss) :
    Delivers (s.sendData id spare buf data).2
      (s.cb (s.sendData id spare buf data).1 (tcpPsh ||| tcpAck) data) := by
  have hlen : (Frame.mk (buf.write (etherHdrSize + 40) data.length fun i => data.getD i 0)
      (etherHdrSize + 40 + data.length)).len = etherHdrSize + 40 + data.length := rfl
  obtain ⟨p, hp, hcb⟩ := tcpSendPacket_holds s id spare hlen hdata
  rw [sendData_payload] at hcb
  have hdelivers := hp.delivers
  rw [hcb] at hdelivers
  exact hdelivers

/-- What `tcp_send_control_packet` emits delivers its control block. -/
theorem tcpSendControlPacket_holds (s : Sock) (id : U16) (spare buf : Mem) (flags : U8) :
    ∃ p, Holds (s.tcpSendControlPacket id spare buf flags).2 p ∧ Tcp.tcpCbInit p =
      s.cb (s.tcpSendControlPacket id spare buf flags).1 flags [] := by
  refine ⟨_, controlFrame_holds id buf s.tsk flags, tcpCbInit_packet ?_⟩
  rw [sndNxt_tcpSendControlPacket, List.length_nil, BitVec.ofNat_eq_ofNat, BitVec.add_zero]
  rfl

/-- The entries of the send buffer are copies of segments sent in the run. -/
def Kept (s₀ : Sock) (es : List Event) (s : Sock) : Prop :=
  ∀ f ∈ s.sendBuf, ∃ p, Holds f p ∧ SentIn s₀ es (Tcp.tcpCbInit p)

theorem Kept.snoc {s₀ : Sock} {es : List Event} (h : Kept s₀ es s) (e : Event) : Kept s₀ (es ++ [e]) s := by
  intro f hf
  obtain ⟨p, hp, hsent⟩ := h f hf
  exact ⟨p, hp, hsent.snoc e⟩

/-- An entry that joins them is a copy of the segment being sent. -/
theorem Kept.add {s₀ t : Sock} {es : List Event} {e : Event} (h : Kept s₀ es s) (hrun : Run Step s₀ es s)
    (hstep : Step s e t) {spare : Mem} (hbuf : t.sendBuf = s.sendBuf ++ [allocSendBufferEntry spare packet])
    (hp : Holds packet p) (horig : Originates s e t (Tcp.tcpCbInit p)) : Kept s₀ (es ++ [e]) t := by
  intro f hf
  rw [hbuf] at hf
  rcases List.mem_append.mp hf with hf | hf
  · exact h.snoc e f hf
  · rw [List.mem_singleton.mp hf]
    exact ⟨p, allocSendBufferEntry_holds hp spare, es, e, [], s, t, rfl, hrun, hstep, horig⟩

theorem Kept.step {s₀ t : Sock} {es : List Event} {e : Event} (hrun : Run Step s₀ es s) (h : Kept s₀ es s)
    (hstep : Step s e t) : Kept s₀ (es ++ [e]) t := by
  cases hstep with
  | @send id spare packet n hn hlen =>
    obtain ⟨p, hp, hcb⟩ := tcpSendPacket_holds s id spare hlen hn
    apply h.add hrun (.send s id spare hn hlen) rfl hp
    show Tcp.tcpCbInit p = _
    rw [hcb, hlen, Nat.add_sub_cancel_left]
  | control id spare buf flags =>
    obtain ⟨p, hp, hcb⟩ := tcpSendControlPacket_holds s id spare buf flags
    have hstep : Step s (.control id spare buf flags) _ := .control s id spare buf flags
    by_cases hkept : (flags != tcpAck && !hasFlag flags tcpRst) = true
    · have hbuf : (s.tcpSendControlPacket id spare buf flags).1.sendBuf =
          s.sendBuf ++ [allocSendBufferEntry spare (s.tcpSendControlPacket id spare buf flags).2] := by
        simp only [tcpSendControlPacket, hkept, if_true]
        rfl
      exact h.add hrun hstep hbuf hp hcb
    · have hsame : (s.tcpSendControlPacket id spare buf flags).1.sendBuf = s.sendBuf := by
        simp only [tcpSendControlPacket, hkept]
        rfl
      rw [Kept, hsame]
      exact h.snoc _
  | retrans buf =>
    have hsame : (s.retransSendBufferPacket buf).1.sendBuf = s.sendBuf := by
      unfold retransSendBufferPacket
      split <;> rfl
    rw [Kept, hsame]
    exact h.snoc _
  | delete ack =>
    intro f hf
    exact h.snoc _ f (List.mem_of_mem_filter hf)
  | other tsk => exact h.snoc _

/-- **The segment codec.** What `tcp_send_packet` and `tcp_send_control_packet` emit passes the
checksum test, and `tcp_cb_init` makes of it the sender's addresses and ports, the sequence
space between `snd_nxt` before and after the call, its `rcv_nxt` and `rcv_wnd`, and the
payload; and what `retrans_send_buffer_packet` emits in any run is taken as a segment that was
sent in the run, with the acknowledgement of the moment. -/
theorem segment_codec :
    (∀ (s : Sock) (id : U16) (spare : Mem) (packet : Frame) (n : Nat), n ≤ mss →
      packet.len = etherHdrSize + 40 + n →
      Delivers (s.tcpSendPacket id spare packet).2 (s.cb (s.tcpSendPacket id spare packet).1
        (tcpPsh ||| tcpAck) (packet.mem.read (etherHdrSize + 40) n))) ∧
    (∀ (s : Sock) (id : U16) (spare buf : Mem) (flags : U8),
      Delivers (s.tcpSendControlPacket id spare buf flags).2
        (s.cb (s.tcpSendControlPacket id spare buf flags).1 flags [])) ∧
    ∀ (s₀ s : Sock) (es : List Event) (buf : Mem) (f : Frame), s₀.sendBuf = [] → Run Step s₀ es s →
      (s.retransSendBufferPacket buf).2 = some f →
      ∃ b, SentIn s₀ es b ∧ Delivers f { b with ack := s.tsk.rcvNxt } := by
  refine ⟨?_, ?_, ?_⟩
  · intro s id spare packet n hn hlen
    obtain ⟨p, hp, hcb⟩ := tcpSendPacket_holds s id spare hlen hn
    rw [← hcb]
    exact hp.delivers
  · intro s id spare buf flags
    obtain ⟨p, hp, hcb⟩ := tcpSendControlPacket_holds s id spare buf flags
    rw [← hcb]
    exact hp.delivers
  · intro s₀ s es buf f hempty hrun hf
    have hkept : Kept s₀ es s := by
      refine hrun.history ?_ fun es s e t => Kept.step
      intro f hf
      rw [hempty] at hf
      cases hf
    unfold retransSendBufferPacket at hf
    cases hs : s.sendBuf with
    | nil =>
      rw [hs] at hf
      cases hf
    | cons first rest =>
      rw [hs] at hf
      cases hf
      obtain ⟨p, hp, hsent⟩ := hkept first (by rw [hs]; exact List.mem_cons_self)
      exact ⟨_, hsent, (retransFrame_holds hp buf s.tsk).delivers⟩

/-- A fresh socket with three bytes to send, and with a SYN that it sends twice. -/
theorem fresh_codec :
    Delivers (fresh.tcpSendPacket 7 (fun _ => 0) ⟨fun _ => 1, 57⟩).2
      (fresh.cb (fresh.tcpSendPacket 7 (fun _ => 0) ⟨fun _ => 1, 57⟩).1 (tcpPsh ||| tcpAck) [1, 1, 1]) ∧
    Delivers (fresh.tcpSendControlPacket 7 (fun _ => 0) (fun _ => 0) tcpSyn).2
      (fresh.cb (fresh.tcpSendControlPacket 7 (fun _ => 0) (fun _ => 0) tcpSyn).1 tcpSyn []) ∧
    ∃ f, ((fresh.tcpSendControlPacket 7 (fun _ => 0) (fun _ => 0) tcpSyn).1.retransSendBufferPacket
        (fun _ => 1)).2 = some f ∧
      ∃ b, SentIn fresh [.control 7 (fun _ => 0) (fun _ => 0) tcpSyn] b ∧ Delivers f { b with ack := 0 } :=
  ⟨segment_codec.1 fresh 7 (fun _ => 0) ⟨fun _ => 1, 57⟩ 3 (by decide) rfl,
    segment_codec.2.1 fresh 7 (fun _ => 0) (fun _ => 0) tcpSyn,
    _, rfl, segment_codec.2.2 fresh _ [.control 7 (fun _ => 0) (fun _ => 0) tcpSyn] (fun _ => 1) _ rfl
      (.cons (.control ..) (.nil _)) rfl⟩

end Sock

end NetStack.Tcp.Wire
