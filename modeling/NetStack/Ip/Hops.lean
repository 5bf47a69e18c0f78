import NetStack.InternetChecksum
import NetStack.Ip

/-! What forwarding leaves of a packet.

A hop takes one off `ttl` and writes the header's checksum anew; of the rest only the Ethernet
header changes (`Forwarded`). `ttl` is a byte that wraps around, so of a packet with `t` in it
there are `t - 1` hops, and 255 of one with none. -/
namespace NetStack

/-- `ttl` of the IP header. -/
def Frame.ttl (f : Frame) : U8 := f.mem.load8 (etherHdrSize + 8)

/-- The hops a packet has left. -/
def Frame.hopsLeft (f : Frame) : Nat := (f.ttl - 1).toNat

/-- The bytes behind the Ethernet header are the same, but for `ttl` and the checksum. -/
def Intact (m m' : Mem) : Prop :=
  ∀ i, etherHdrSize ≤ i → i ≠ etherHdrSize + 8 → i ≠ etherHdrSize + 10 → i ≠ etherHdrSize + 11 → m' i = m i

/-- A packet and what goes on of it. -/
structure Forwarded (f out : Frame) : Prop where
  len : out.len = f.len
  ttl : out.ttl = f.ttl - 1
  alive : out.ttl ≠ 0
  intact : Intact f.mem out.mem
  checksum : 3 ≤ (iphdr f.mem etherHdrSize).ihl →
    onesSum out.mem etherHdrSize (iphdr out.mem etherHdrSize).size 0 = 0xffff

variable {f g out : Frame} {m m' m'' : Mem} {n : Nat}

/-! ### One hop -/

theorem Router.checksum_eq (m : Mem) (buf n : Nat) (h : n < 2 ^ 16) :
    checksum m buf n 0 = ~~~onesSum m buf n 0 := by
  rw [checksum_eq_tcp, Tcp.checksum_eq (room_of_length h)]

theorem store8_other {a i : Nat} (m : Mem) (x : U8) (h : i ≠ a) : (m.store8 a x) i = m i :=
  Mem.write_apply (by omega)

theorem store16_other {a i : Nat} (m : Mem) (x : U16) (h : i ≠ a) (h' : i ≠ a + 1) : (m.store16 a x) i = m i :=
  Mem.write_apply (by omega)

theorem Intact.refl (m : Mem) : Intact m m := fun _ _ _ _ _ => rfl

theorem Intact.trans (h : Intact m m') (h' : Intact m' m'') : Intact m m'' := fun i hi h8 h10 h11 =>
  (h' i hi h8 h10 h11).trans (h i hi h8 h10 h11)

/-- The header is the same then, as `iphdr` has it. -/
theorem Intact.iphdr (h : Intact m m') : iphdr m' etherHdrSize = iphdr m etherHdrSize := by
  have hsize : etherHdrSize = 14 := rfl
  have hbyte : ∀ i, 14 ≤ i → i ≠ 22 → i ≠ 24 → i ≠ 25 → m' i = m i := h
  simp only [NetStack.iphdr, Mem.load8, Mem.load16, Mem.load32, hsize]
  rw [hbyte 14, hbyte 16, hbyte 17, hbyte 23, hbyte 26, hbyte 27, hbyte 28, hbyte 29, hbyte 30, hbyte 31, hbyte 32,
    hbyte 33] <;> decide

/-- A header whose checksum was written sums to all ones. -/
theorem onesSum_ipChecksum {sumOf : Mem → Nat → Nat → U32 → U16}
    (hsum : ∀ m buf n, n < 2 ^ 16 → sumOf m buf n 0 = ~~~onesSum m buf n 0) (m : Mem) (ip : Nat)
    (hihl : 3 ≤ (iphdr m ip).ihl) :
    onesSum (m.store16 (ip + 10) (ipChecksum sumOf m ip)) ip (iphdr m ip).size 0 = 0xffff := by
  have hlt : (iphdr m ip).ihl < 256 := (m.load8 ip &&& 0x0f).isLt
  have hfirst : (iphdr (m.store16 (ip + 10) 0) ip).size = (iphdr m ip).size := by
    simp (disch := omega) only [iphdr, Iphdr.size, Mem.load8_write]
  have hstore : m.store16 (ip + 10) (ipChecksum sumOf m ip) = (m.store16 (ip + 2 * 5) 0).store16 (ip + 2 * 5)
      (~~~onesSum (m.store16 (ip + 2 * 5) 0) ip (iphdr m ip).size 0) := by
    have hbound : (iphdr m ip).size < 2 ^ 16 := by
      rw [Iphdr.size]
      omega
    rw [Mem.store16, Mem.store16, Mem.store16, Mem.write_write, ipChecksum]
    rw [hfirst, hsum _ _ _ hbound]
  rw [hstore]
  refine onesSum_store ?_ (Mem.load16_store16 ..)
  rw [Iphdr.size]
  omega

/-- `ttl` one less, the checksum anew, and what happens to the Ethernet header. -/
theorem Forwarded.of_stores {sumOf : Mem → Nat → Nat → U32 → U16}
    (hsum : ∀ m buf n, n < 2 ^ 16 → sumOf m buf n 0 = ~~~onesSum m buf n 0) (hlen : out.len = f.len)
    (hmem : m = f.mem.store8 (etherHdrSize + 8) (f.mem.load8 (etherHdrSize + 8) - 1))
    (halive : f.ttl - 1 ≠ 0)
    (hout : ∀ i, etherHdrSize ≤ i → out.mem i = m.store16 (etherHdrSize + 10) (ipChecksum sumOf m etherHdrSize) i) :
    Forwarded f out := by
  have hintact : Intact f.mem out.mem := by
    intro i hi h8 h10 h11
    rw [hout i hi, store16_other m _ h10 h11, hmem, store8_other f.mem _ h8]
  have httl : out.ttl = f.ttl - 1 := by
    rw [Frame.ttl, Mem.load8, hout _ (by decide), store16_other m _ (by decide) (by decide), hmem]
    exact Mem.load8_store8 ..
  refine ⟨hlen, httl, httl ▸ halive, hintact, fun hihl => ?_⟩
  have hsame : iphdr m etherHdrSize = iphdr f.mem etherHdrSize :=
    Intact.iphdr fun i _ h8 _ _ => by rw [hmem, store8_other f.mem _ h8]
  have hagree : ∀ n, out.mem.Agree (m.store16 (etherHdrSize + 10) (ipChecksum sumOf m etherHdrSize)) etherHdrSize n :=
    fun n i hi _ => hout i hi
  rw [hintact.iphdr, ← hsame, onesSum, (hagree _).read, ← onesSum]
  exact onesSum_ipChecksum hsum m etherHdrSize (hsame ▸ hihl)

theorem Forwarded.hopsLeft (h : Forwarded f out) : out.hopsLeft + 1 = f.hopsLeft := by
  have halive := h.alive
  rw [h.ttl] at halive
  rw [Frame.hopsLeft, Frame.hopsLeft, h.ttl]
  bv_omega

/-! ### Several hops -/

/-- What goes on of a packet after so many hops. -/
inductive Travels : Nat → Frame → Frame → Prop
  | nil (f : Frame) : Travels 0 f f
  | cons {n : Nat} {f g out : Frame} : Forwarded f g → Travels n g out → Travels (n + 1) f out

/-- A packet after so many hops, of those it had. -/
structure Travelled (n : Nat) (f out : Frame) : Prop where
  len : out.len = f.len
  hops : out.hopsLeft + n = f.hopsLeft
  intact : Intact f.mem out.mem
  checksum : 0 < n → 3 ≤ (iphdr f.mem etherHdrSize).ihl →
    onesSum out.mem etherHdrSize (iphdr out.mem etherHdrSize).size 0 = 0xffff

theorem Travels.travelled (h : Travels n f out) : Travelled n f out := by
  induction h with
  | nil f => exact ⟨rfl, rfl, .refl _, fun h0 => absurd h0 (Nat.lt_irrefl 0)⟩
  | @cons n f g out hstep hrest ih =>
    have hleft := hstep.hopsLeft
    have hhops := ih.hops
    refine ⟨ih.len.trans hstep.len, by omega, hstep.intact.trans ih.intact, fun _ hihl => ?_⟩
    cases n with
    | zero =>
      cases hrest
      exact hstep.checksum hihl
    | succ n => exact ih.checksum (Nat.succ_pos n) (hstep.intact.iphdr ▸ hihl)

theorem Travels.le (h : Travels n f out) : n ≤ f.hopsLeft := by
  have := h.travelled.hops
  omega

end NetStack
