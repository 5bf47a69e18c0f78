import NetStack.Tcp.Segment

/-! Where the lengths of a received segment lead (`handle_ip_packet` in `ip.c`, `tcp_checksum`
in `include/tcp.h`, `tcp_cb_init` in `tcp.c`).

The checksum covers what `tot_len` says, and the payload is what the two header lengths leave
of it; none of the three is compared with the length of the frame. What is read lies in
the frame exactly when the headers fit `tot_len` and `tot_len` the frame (`inFrame_iff`). -/
namespace NetStack.Tcp.Wire

/-- `ETH_FRAME_LEN`. -/
def ethFrameLen : Nat := 1514

/-- A frame as `recvfrom` leaves it. -/
structure Received extends Frame where
  bound : len ≤ ethFrameLen

/-- `IPPROTO_ICMP`. -/
def ipprotoIcmp : U8 := 1

/-- Where `handle_ip_packet` gives a packet, with the two headers it gives to TCP. -/
inductive Handler
  | icmp | tcp (ip tcp : Nat) | unsupported | forward
deriving DecidableEq

/-- `handle_ip_packet`, at an interface with address `ifaceIp`. -/
def handleIpPacket (ifaceIp : U32) (m : Mem) : Handler :=
  let ip := iphdr m etherHdrSize
  if ntohl ip.daddr = ifaceIp then
    if ip.protocol = ipprotoIcmp then .icmp
    else if ip.protocol = ipprotoTcp then .tcp etherHdrSize (etherHdrSize + ip.size)
    else .unsupported
  else .forward

/-- The bytes lie in the frame. -/
def Inside (f : Frame) (a : Nat) (n : Int) : Prop := 0 ≤ n ∧ a + n ≤ f.len

instance (f : Frame) (a : Nat) (n : Int) : Decidable (Inside f a n) := inferInstanceAs (Decidable (_ ∧ _))

/-- The number of bytes `tcp_checksum` sums, once it has cleared the field. -/
def summedLen (m : Mem) (ip tcp : Nat) : Nat := (tcpLen (iphdr (m.store16 (tcp + 16) 0) ip)).toNat

/-- The bytes that a segment is summed from lie in the frame, and if the sum is right those
that `add_recv_ofo_buf_entry` copies. -/
def InFrame (ifaceIp : U32) (f : Received) : Prop :=
  ∀ ip tcp, handleIpPacket ifaceIp f.mem = .tcp ip tcp →
    Inside f.toFrame tcp (summedLen f.mem ip tcp) ∧
      ((handleTcpPacket f.mem ip tcp).isSome → Inside f.toFrame (tcp + (tcphdr f.mem tcp).off * 4)
        (plLen (iphdr f.mem ip) (tcphdr f.mem tcp)))

/-- A segment's IP header fits `tot_len`, `tot_len` fits the frame, and if the sum is right
both headers fit `tot_len`. -/
def Fits (ifaceIp : U32) (f : Received) : Prop :=
  ∀ ip tcp, handleIpPacket ifaceIp f.mem = .tcp ip tcp →
    (iphdr f.mem ip).size ≤ (ntohs (iphdr f.mem ip).totLen).toNat ∧
      ip + (ntohs (iphdr f.mem ip).totLen).toNat ≤ f.len ∧
      ((handleTcpPacket f.mem ip tcp).isSome →
        (iphdr f.mem ip).size + (tcphdr f.mem tcp).size ≤ (ntohs (iphdr f.mem ip).totLen).toNat)

variable {m : Mem} {ip tcp : Nat}

/-- What goes to TCP lies where the IP header says. -/
theorem handleIpPacket_tcp {ifaceIp : U32} (h : handleIpPacket ifaceIp m = .tcp ip tcp) :
    ip = etherHdrSize ∧ tcp = ip + (iphdr m ip).size := by
  unfold handleIpPacket at h
  dsimp only at h
  split at h
  · split at h
    · cases h
    · split at h
      · cases h
        exact ⟨rfl, rfl⟩
      · cases h
  · cases h

theorem ihl_lt (m : Mem) (ip : Nat) : (iphdr m ip).ihl < 16 := by
  have hmask : (m.load8 ip &&& 0x0f).toNat = (m.load8 ip).toNat % 16 := by
    rw [BitVec.toNat_and]
    exact Nat.and_two_pow_sub_one_eq_mod _ 4
  show (m.load8 ip &&& 0x0f).toNat < 16
  omega

/-- Clearing the checksum leaves the lengths alone, even if there is no IP header between. -/
theorem summedLen_eq (h : ip ≤ tcp) : summedLen m ip tcp = (tcpLen (iphdr m ip)).toNat := by
  have hlow : (m.store16 (tcp + 16) 0).Agree m ip 4 := Mem.agree_write (by omega)
  have hfirst : (m.store16 (tcp + 16) 0).Agree m ip 1 := hlow.mono (by omega) (by omega)
  have htot : (m.store16 (tcp + 16) 0).Agree m (ip + 2) 2 := hlow.mono (by omega) (by omega)
  simp only [summedLen, tcpLen, iphdr, Iphdr.size, hfirst.load8, htot.load16]

/-- The length summed is what the IP header leaves of `tot_len`, or wraps around. -/
theorem tcpLen_toNat (m : Mem) (ip : Nat) :
    (tcpLen (iphdr m ip)).toNat =
      if (iphdr m ip).size ≤ (ntohs (iphdr m ip).totLen).toNat then
        (ntohs (iphdr m ip).totLen).toNat - (iphdr m ip).size
      else 2 ^ 16 + (ntohs (iphdr m ip).totLen).toNat - (iphdr m ip).size := by
  have hlt := (ntohs (iphdr m ip).totLen).isLt
  have hsize : (iphdr m ip).size < 64 := by
    have hihl := ihl_lt m ip
    unfold Iphdr.size
    omega
  rw [tcpLen, BitVec.toNat_sub, BitVec.toNat_ofNat]
  split <;> omega

/-- **What is read of a segment lies in its frame** exactly if its headers fit `tot_len`, and
`tot_len` the frame. -/
theorem inFrame_iff (ifaceIp : U32) (f : Received) : InFrame ifaceIp f ↔ Fits ifaceIp f := by
  refine forall_congr' fun ip => forall_congr' fun tcp => forall_congr' fun hhandler => ?_
  obtain ⟨rfl, rfl⟩ := handleIpPacket_tcp hhandler
  have hbound := f.bound
  have hframe : ethFrameLen = 1514 := rfl
  have hsize : (iphdr f.mem etherHdrSize).size < 64 := by
    have hihl := ihl_lt f.mem etherHdrSize
    unfold Iphdr.size
    omega
  have hoff : (tcphdr f.mem (etherHdrSize + (iphdr f.mem etherHdrSize).size)).off * 4 =
      (tcphdr f.mem (etherHdrSize + (iphdr f.mem etherHdrSize).size)).size := rfl
  rw [summedLen_eq (by omega), tcpLen_toNat, hoff]
  unfold Inside plLen
  by_cases hfits : (iphdr f.mem etherHdrSize).size ≤ (ntohs (iphdr f.mem etherHdrSize).totLen).toNat
  · rw [if_pos hfits]
    constructor
    · intro h
      obtain ⟨⟨-, hsum⟩, hpayload⟩ := h
      exact ⟨hfits, by omega, fun hpass => by have := (hpayload hpass).1; omega⟩
    · intro h
      obtain ⟨-, hin, hpass⟩ := h
      exact ⟨⟨by omega, by omega⟩, fun hsome => by have := hpass hsome; omega⟩
  · rw [if_neg hfits]
    constructor
    · intro h
      obtain ⟨⟨-, hsum⟩, -⟩ := h
      omega
    · exact fun hyp => absurd hyp.1 hfits

/-- A frame of 54 bytes that says the datagram in it has 1000. -/
def shortFrame : Received where
  mem a := if a = 14 then 0x45 else if a = 16 then 0x03 else if a = 17 then 0xe8 else if a = 23 then 6 else 0
  len := 54
  bound := by decide

theorem shortFrame_outside : ¬ InFrame 0 shortFrame := by
  intro h
  have hhandler : handleIpPacket 0 shortFrame.mem = .tcp 14 34 := by decide
  exact absurd (h 14 34 hhandler).1 (by decide)

end NetStack.Tcp.Wire
