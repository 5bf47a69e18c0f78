import NetStack.InternetChecksum
import NetStack.Tcp.Segment

/-! What `tcp_checksum` computes (`include/tcp.h` of `EXP18-TCP_Stack_4/code/18-tcp_stack`; that of
`EXP13-NAT/13-nat` is the same).

It is meant to be the complement of the one's-complement sum of pseudo header and segment
(`segmentChecksum`). The routine starts from the two addresses added as 32-bit numbers, and a
carry out of the accumulator is gone: it is right if and only if there is none
(`tcpChecksum_eq_iff`). -/
namespace NetStack.Tcp.Wire
open OnesComplement

/-- The bytes of the pseudo header, in network order. -/
def pseudoHeader (m : Mem) (ip : Nat) : List U8 :=
  m.read (ip + 12) 8 ++ [0, m.load8 (ip + 9)] ++ bytes16 (htons (tcpLen (iphdr m ip)))

/-- The checksum of a segment, its own field zero. -/
def segmentChecksum (m : Mem) (ip tcp : Nat) : U16 :=
  let m := m.store16 (tcp + 16) 0
  ~~~OnesComplement.sum (words (pseudoHeader m ip ++ m.read tcp (tcpLen (iphdr m ip)).toNat))

/-- What the accumulator is to hold: the addresses as whole words, and the rest. -/
def accumulated (m : Mem) (ip tcp : Nat) : Nat :=
  let m := m.store16 (tcp + 16) 0
  let hdr := iphdr m ip
  hdr.saddr.toNat + hdr.daddr.toNat + (htons (hdr.protocol.setWidth 16)).toNat + (htons (tcpLen hdr)).toNat +
    total (words (m.read tcp (tcpLen hdr).toNat))

variable {m : Mem} {ip tcp : Nat}

/-! ### The words of the pseudo header -/

/-- The bytes of a 32-bit word are those of its halves. -/
theorem words_read_load32 (m : Mem) (a : Nat) : words (m.read a 4) = halves (m.load32 a) := by
  have hlow : (m.load32 a).setWidth 16 = m (a + 1) ++ m a := by
    apply BitVec.eq_of_getLsbD_eq
    intro i hi
    simp only [Mem.load32, BitVec.getLsbD_setWidth, BitVec.getLsbD_append]
    interval_cases i <;> rfl
  have hhigh : (m.load32 a >>> 16).setWidth 16 = m (a + 3) ++ m (a + 2) := by
    apply BitVec.eq_of_getLsbD_eq
    intro i hi
    simp only [Mem.load32, BitVec.getLsbD_setWidth, BitVec.getLsbD_ushiftRight, BitVec.getLsbD_append]
    interval_cases i <;> rfl
  rw [halves, hlow, hhigh]
  rfl

theorem words_pseudoHeader (m : Mem) (ip : Nat) :
    words (pseudoHeader m ip) = halves (iphdr m ip).saddr ++ halves (iphdr m ip).daddr ++
      [htons ((iphdr m ip).protocol.setWidth 16), htons (tcpLen (iphdr m ip))] := by
  have hprotocol (b : U8) : b ++ (0 : U8) = htons (b.setWidth 16) := by
    apply BitVec.eq_of_getLsbD_eq
    intro i hi
    rw [getLsbD_ntohs _ i hi, BitVec.getLsbD_append, BitVec.getLsbD_setWidth]
    interval_cases i <;> simp
  have hlen (x : U16) : words (bytes16 x) = [x] := by
    refine congrArg (fun x => [x]) (BitVec.eq_of_getLsbD_eq fun i hi => ?_)
    simp only [BitVec.getLsbD_append, BitVec.getLsbD_extractLsb']
    interval_cases i <;> rfl
  have haddrs : m.read (ip + 12) 8 = m.read (ip + 12) 4 ++ m.read (ip + 16) 4 := Mem.read_add m (ip + 12) 4 4
  rw [pseudoHeader, haddrs, List.append_assoc, List.append_assoc, words_append (by rw [Mem.length_read]),
    words_append (by rw [Mem.length_read]), words_append (by simp), words_read_load32, words_read_load32, hlen, words,
    words, hprotocol, List.append_assoc]
  rfl

/-! ### The sum -/

/-- Adding the addresses as whole words makes no difference to what is left. -/
theorem segmentChecksum_eq (m : Mem) (ip tcp : Nat) :
    segmentChecksum m ip tcp = ~~~BitVec.ofNat 16 (reduce 16 (accumulated m ip tcp)) := by
  rw [segmentChecksum, accumulated]
  generalize m.store16 (tcp + 16) 0 = m'
  have heven : (pseudoHeader m' ip).length % 2 = 0 := by
    simp [pseudoHeader, bytes16]
  refine congrArg _ (BitVec.eq_of_toNat_eq ?_)
  rw [toNat_sum (by decide), BitVec.toNat_ofNat, Nat.mod_eq_of_lt (reduce_lt _ (by decide)), words_append heven,
    words_pseudoHeader, List.append_assoc, List.append_assoc, total_append, reduce_halves, total_append,
    Nat.add_left_comm, reduce_halves, total_append, total_cons, total_cons, total_nil]
  congr 1
  omega

/-- The accumulator wraps. -/
theorem tcpChecksum_accumulated (m : Mem) (ip tcp : Nat) :
    tcpChecksum m ip tcp = ~~~BitVec.ofNat 16 (reduce 16 (accumulated m ip tcp % 2 ^ 32)) := by
  rw [tcpChecksum, accumulated, checksum_accumulated, pseudoSum, BitVec.toNat_add, BitVec.toNat_add, BitVec.toNat_add,
    toNat_load16, toNat_load16]
  congr 3
  omega

/-- It wraps a few times at most. -/
theorem accumulated_lt (m : Mem) (ip tcp : Nat) : accumulated m ip tcp < 4 * 2 ^ 32 := by
  rw [accumulated]
  generalize m.store16 (tcp + 16) 0 = m'
  have hwords := total_words_le (m'.read tcp (tcpLen (iphdr m' ip)).toNat)
  have hsaddr := (iphdr m' ip).saddr.isLt
  have hdaddr := (iphdr m' ip).daddr.isLt
  have hprotocol := (htons ((iphdr m' ip).protocol.setWidth 16)).isLt
  have hlen := (htons (tcpLen (iphdr m' ip))).isLt
  have hcovered := (tcpLen (iphdr m' ip)).isLt
  rw [Mem.length_read] at hwords
  omega

/-- **The TCP checksum** is that of pseudo header and segment if and only if no carry is lost. -/
theorem tcpChecksum_eq_iff (m : Mem) (ip tcp : Nat) :
    tcpChecksum m ip tcp = segmentChecksum m ip tcp ↔ accumulated m ip tcp < 2 ^ 32 := by
  have hbound := accumulated_lt m ip tcp
  rw [tcpChecksum_accumulated, segmentChecksum_eq]
  constructor
  · intro heq
    have hreduce := congrArg (fun s : U16 => (~~~s).toNat) heq
    simp only [BitVec.not_not, BitVec.toNat_ofNat, Nat.mod_eq_of_lt (reduce_lt _ (show 0 < 16 by decide))] at hreduce
    obtain ⟨-, hmod⟩ := (reduce_eq_iff _ _).mp hreduce
    rw [Nat.ModEq] at hmod
    omega
  · intro hlt
    rw [Nat.mod_eq_of_lt hlt]

/-- A bare header from 10.0.0.200 to 10.0.0.100. -/
def bareSegment : Mem := fun a =>
  [0x45, 0, 0, 40, 0, 0, 0, 0, 64, 6, 0, 0, 10, 0, 0, 200, 10, 0, 0, 100,
    0x30, 0x39, 0, 80, 0, 0, 0, 1, 0, 0, 0, 0, 0x50, 2, 0xff, 0xff, 0, 0, 0, 0].getD a 0

theorem tcpChecksum_ne :
    ¬∀ m ip tcp, ip + 20 ≤ tcp → 20 ≤ (tcpLen (iphdr m ip)).toNat → (tcpLen (iphdr m ip)).toNat ≤ 65515 →
      tcpChecksum m ip tcp = segmentChecksum m ip tcp := by
  intro h
  have heq := h bareSegment 0 20 (by decide) (by decide) (by decide)
  rw [tcpChecksum_accumulated] at heq
  exact absurd heq (by decide)

end NetStack.Tcp.Wire
