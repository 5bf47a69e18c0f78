import NetStack.ByteOrder
import NetStack.Checksum

/-! The IP header (`include/ip.h`, `ip.c` of `EXP18-TCP_Stack_4/code/18-tcp_stack`).

A header is where it is in a frame: `iphdr` reads the one at an address, its fields as the
host sees them there. The experiments share the header and differ in the checksum routine,
which is a parameter here. -/
namespace NetStack

/-- `ETHER_HDR_SIZE`, where the IP header of a frame starts. -/
def etherHdrSize : Nat := 14

/-- `IP_BASE_HDR_SIZE`. -/
def ipBaseHdrSize : Nat := 20

/-- A packet in memory, `char *packet` and its length; it starts at address 0. -/
structure Frame where
  mem : Mem
  len : Nat

/-- `struct iphdr`: the fields that are read, less the checksum. -/
structure Iphdr where
  version : U8
  ihl : Nat
  totLen : U16
  protocol : U8
  saddr : U32
  daddr : U32
deriving DecidableEq, Repr

/-- The header at `ip`. -/
def iphdr (m : Mem) (ip : Nat) : Iphdr where
  version := m.load8 ip >>> 4
  ihl := (m.load8 ip &&& 0x0f).toNat
  totLen := m.load16 (ip + 2)
  protocol := m.load8 (ip + 9)
  saddr := m.load32 (ip + 12)
  daddr := m.load32 (ip + 16)

/-- `IP_HDR_SIZE`. -/
def Iphdr.size (hdr : Iphdr) : Nat := hdr.ihl * 4

section Header

variable (sumOf : Mem → Nat → Nat → U32 → U16)

/-- `ip_checksum`: the field itself counts as zero, and is put back afterwards. -/
def ipChecksum (m : Mem) (ip : Nat) : U16 :=
  let m := m.store16 (ip + 10) 0
  sumOf m ip (iphdr m ip).size 0

/-- `ip_init_hdr`, where `rand()` gave `id`: version 4, five words, no type of service, do
not fragment, 64 hops. -/
def ipInitHdr (id : U16) (m : Mem) (ip : Nat) (saddr daddr : U32) (len : U16) (proto : U8) : Mem :=
  let m := m.store8 ip ((m.load8 ip &&& 0x0f) ||| 0x40)
  let m := m.store8 ip ((m.load8 ip &&& 0xf0) ||| 0x05)
  let m := m.store8 (ip + 1) 0
  let m := m.store16 (ip + 2) (htons len)
  let m := m.store16 (ip + 4) id
  let m := m.store16 (ip + 6) (htons 0x4000)
  let m := m.store8 (ip + 8) 64
  let m := m.store8 (ip + 9) proto
  let m := m.store32 (ip + 12) (htonl saddr)
  let m := m.store32 (ip + 16) (htonl daddr)
  m.store16 (ip + 10) (ipChecksum sumOf m ip)

/-- A header made for these values out of memory `m`. -/
structure IpInitialised (m : Mem) (ip : Nat) (saddr daddr : U32) (len : U16) (proto : U8) (m' : Mem) :
    Prop where
  header : iphdr m' ip = ⟨4, 5, htons len, proto, htonl saddr, htonl daddr⟩
  checksum : m'.load16 (ip + 10) = ipChecksum sumOf m' ip
  frame : ∀ a n, a + n ≤ ip ∨ ip + 20 ≤ a → m'.Agree m a n

/-- What is in the checksum field makes no difference to the checksum. -/
theorem ipChecksum_store (m : Mem) (ip : Nat) (x : U16) :
    ipChecksum sumOf (m.store16 (ip + 10) x) ip = ipChecksum sumOf m ip := by
  rw [ipChecksum, ipChecksum, Mem.store16, Mem.store16, Mem.store16, Mem.write_write]

/-- The two bit fields of the first byte. -/
theorem version_ihl (x : U8) : ((x &&& 0x0f) ||| 0x40) &&& 0xf0 ||| 0x05 = (0x45 : U8) := by
  apply BitVec.eq_of_getLsbD_eq
  intro i hi
  simp only [BitVec.getLsbD_or, BitVec.getLsbD_and]
  interval_cases i <;> simp

theorem ipInitHdr_initialises (id : U16) (m : Mem) (ip : Nat) (saddr daddr : U32) (len : U16) (proto : U8) :
    IpInitialised sumOf m ip saddr daddr len proto (ipInitHdr sumOf id m ip saddr daddr len proto) where
  header := by
    simp (disch := omega) only [iphdr, ipInitHdr, Mem.load8_write, Mem.load8_store8, Mem.load16_write,
      Mem.load16_store16, Mem.load32_write, Mem.load32_store32, version_ihl]
    rfl
  checksum := by
    rw [ipInitHdr, Mem.load16_store16, ipChecksum_store]
  frame a n h := by
    intro i ha hn
    simp (disch := omega) only [ipInitHdr, Mem.write_apply]

end Header

/-- The header is its bytes but those of the checksum. -/
theorem iphdr_congr {m m' : Mem} {ip : Nat} (h : m.Agree m' ip 10) (haddr : m.Agree m' (ip + 12) 8) :
    iphdr m ip = iphdr m' ip := by
  have hfirst : m.Agree m' ip 1 := h.mono (by omega) (by omega)
  have htotLen : m.Agree m' (ip + 2) 2 := h.mono (by omega) (by omega)
  have hprotocol : m.Agree m' (ip + 9) 1 := h.mono (by omega) (by omega)
  have hsaddr : m.Agree m' (ip + 12) 4 := haddr.mono (by omega) (by omega)
  have hdaddr : m.Agree m' (ip + 16) 4 := haddr.mono (by omega) (by omega)
  rw [iphdr, iphdr, hfirst.load8, htotLen.load16, hprotocol.load8, hsaddr.load32, hdaddr.load32]

end NetStack
