import NetStack.Checksum
import NetStack.Lib.OnesComplement

/-! What the checksum routines compute (`include/checksum.h` of `EXP07-Router/07-router`, of
`EXP12-mOSPF/code/12-mopsf` and of `EXP18-TCP_Stack_4/code/18-tcp_stack`).

As long as the accumulator has room for the sum, what it holds at the end is the sum of the
words as numbers (`toNat_accumulated`), and the folds bring its carries in: the checksum is the
complement of the one's-complement sum (`checksum_eq`). The daemon's routine adds an odd byte
after the folds and loses the carry this may have (`checksums_agree_iff`). -/
namespace NetStack
open OnesComplement

/-- The 16-bit words of some bytes, as a little-endian host reads them, the last one padded. -/
def words : List U8 → List U16
  | [] => []
  | [b] => [b.setWidth 16]
  | b :: b' :: bytes => (b' ++ b) :: words bytes

/-- The words of an initial sum. -/
def halves (sum : U32) : List U16 := [sum.setWidth 16, (sum >>> 16).setWidth 16]

/-- The one's-complement sum of a buffer, over an initial sum. -/
def onesSum (m : Mem) (buf nbytes : Nat) (sum : U32) : U16 :=
  OnesComplement.sum (halves sum ++ words (m.read buf nbytes))

/-- The accumulator has room for the sum. -/
def Room (m : Mem) (buf nbytes : Nat) (sum : U32) : Prop := sum.toNat + total (words (m.read buf nbytes)) < 2 ^ 32

instance (m : Mem) (buf nbytes : Nat) (sum : U32) : Decidable (Room m buf nbytes sum) :=
  inferInstanceAs (Decidable (_ < _))

variable {m m' : Mem} {buf nbytes k n : Nat} {sum : U32}

/-! ### Words of bytes -/

theorem words_append {xs : List U8} (h : xs.length % 2 = 0) (ys : List U8) :
    words (xs ++ ys) = words xs ++ words ys := by
  induction xs using words.induct with
  | case1 => rfl
  | case2 => cases h
  | case3 b b' bytes ih =>
    rw [List.length_cons, List.length_cons] at h
    rw [List.cons_append, List.cons_append, words, words, ih (by omega), List.cons_append]

/-- One more word of a buffer. -/
theorem words_read_word (m : Mem) (buf n : Nat) :
    words (m.read buf (2 * (n + 1))) = words (m.read buf (2 * n)) ++ [m.load16 (buf + 2 * n)] := by
  rw [Nat.mul_add, Mem.read_add, words_append (by rw [Mem.length_read]; omega)]
  rfl

/-- An odd byte at its end. -/
theorem words_read_byte (m : Mem) (buf n : Nat) :
    words (m.read buf (2 * n + 1)) = words (m.read buf (2 * n)) ++ [(m.load8 (buf + 2 * n)).setWidth 16] := by
  rw [Mem.read_add, words_append (by rw [Mem.length_read]; omega)]
  rfl

theorem total_words_le (bytes : List U8) : total (words bytes) ≤ 2 ^ 16 * bytes.length := by
  induction bytes using words.induct with
  | case1 => exact Nat.le_refl _
  | case2 b =>
    have hlt := (b.setWidth 16).isLt
    rw [words, total_cons, total_nil, List.length_singleton]
    omega
  | case3 b b' bytes ih =>
    have hlt := (b' ++ b).isLt
    rw [words, total_cons, List.length_cons, List.length_cons]
    omega

theorem total_halves (sum : U32) : total (halves sum) = carryIn 16 sum.toNat := by
  have hlow : (sum.setWidth 16).toNat = sum.toNat % 2 ^ 16 := BitVec.toNat_setWidth ..
  have hhigh : ((sum >>> 16).setWidth 16).toNat = sum.toNat / 2 ^ 16 := by
    have hlt := sum.isLt
    rw [BitVec.toNat_setWidth, BitVec.toNat_ushiftRight, Nat.shiftRight_eq_div_pow, Nat.mod_eq_of_lt (by omega)]
  rw [halves, total_cons, total_cons, total_nil, hlow, hhigh, carryIn]
  omega

/-- A 32-bit word counts as its halves do. -/
theorem reduce_halves (sum : U32) (n : Nat) : reduce 16 (total (halves sum) + n) = reduce 16 (sum.toNat + n) := by
  rw [total_halves, ← reduce_reduce_add, reduce_carryIn _ (by decide), reduce_reduce_add]

/-- The one's-complement sum is the sum of the numbers with its carries brought in. -/
theorem toNat_onesSum (m : Mem) (buf nbytes : Nat) (sum : U32) :
    (onesSum m buf nbytes sum).toNat = reduce 16 (sum.toNat + total (words (m.read buf nbytes))) := by
  rw [onesSum, toNat_sum (by decide), total_append, reduce_halves]

/-- There is room for as much as an `int` of bytes from a packet. -/
theorem room_of_length (h : nbytes < 2 ^ 16) : Room m buf nbytes 0 := by
  have hle := total_words_le (m.read buf nbytes)
  rw [Mem.length_read] at hle
  show 0 + total (words (m.read buf nbytes)) < 2 ^ 32
  omega

/-! ### The accumulator -/

theorem toNat_load16 (x : U16) : (x.setWidth 32).toNat = x.toNat := by
  have hlt := x.isLt
  rw [BitVec.toNat_setWidth, Nat.mod_eq_of_lt (by omega)]

theorem toNat_sumWords (m : Mem) (buf n : Nat) (sum : U32) :
    (sumWords m buf n sum).toNat = (sum.toNat + total (words (m.read buf (2 * n)))) % 2 ^ 32 := by
  induction n with
  | zero => exact (Nat.mod_eq_of_lt sum.isLt).symm
  | succ n ih =>
    rw [sumWords, BitVec.toNat_add, ih, toNat_load16, words_read_word, total_append, total_cons, total_nil]
    omega

/-- After an odd byte too, it holds the sum of the numbers. -/
theorem toNat_accumulated (m : Mem) (buf nbytes : Nat) (sum : U32) :
    (sumWords m buf (nbytes / 2) sum + lastByte m buf nbytes).toNat =
      (sum.toNat + total (words (m.read buf nbytes))) % 2 ^ 32 := by
  rw [BitVec.toNat_add, toNat_sumWords, lastByte]
  obtain ⟨n, hn | hn⟩ : ∃ n, nbytes = 2 * n ∨ nbytes = 2 * n + 1 := ⟨nbytes / 2, by omega⟩
  · rw [if_pos (by omega), show nbytes / 2 = n by omega, hn]
    exact Nat.mod_mod _ _
  · have hlast : buf + nbytes - 1 = buf + 2 * n := by omega
    have hbyte : ((m.load8 (buf + 2 * n)).setWidth 32).toNat = ((m.load8 (buf + 2 * n)).setWidth 16).toNat := by
      have hlt := (m.load8 (buf + 2 * n)).isLt
      rw [BitVec.toNat_setWidth, BitVec.toNat_setWidth, Nat.mod_eq_of_lt (by omega), Nat.mod_eq_of_lt (by omega)]
    rw [if_neg (by omega), show nbytes / 2 = n by omega, hlast, hbyte, hn, words_read_byte, total_append, total_cons,
      total_nil]
    omega

/-! ### The folds -/

theorem toNat_low (sum : U32) : (sum &&& 0xffff).toNat = sum.toNat % 2 ^ 16 := by
  rw [BitVec.toNat_and]
  exact Nat.and_two_pow_sub_one_eq_mod sum.toNat 16

theorem toNat_high (sum : U32) : (sum >>> 16).toNat = sum.toNat / 2 ^ 16 := by
  rw [BitVec.toNat_ushiftRight, Nat.shiftRight_eq_div_pow]

/-- One fold. -/
theorem toNat_fold (sum : U32) : ((sum >>> 16) + (sum &&& 0xffff)).toNat = carryIn 16 sum.toNat := by
  have hlt := sum.isLt
  rw [BitVec.toNat_add, toNat_high, toNat_low, carryIn, Nat.mod_eq_of_lt (by omega)]

theorem shiftRight_eq_zero (sum : U32) : sum >>> 16 = 0 ↔ sum.toNat < 2 ^ 16 := by
  rw [← BitVec.toNat_inj, toNat_high]
  show sum.toNat / 2 ^ 16 = 0 ↔ _
  omega

/-- The loop brings all carries in. -/
theorem toNat_foldCarry (sum : U32) : (Tcp.foldCarry sum).toNat = reduce 16 sum.toNat := by
  induction sum using Tcp.foldCarry.induct with
  | case1 sum h => rw [Tcp.foldCarry, if_pos h, reduce_of_lt _ ((shiftRight_eq_zero sum).mp h)]
  | case2 sum h ih => rw [Tcp.foldCarry, if_neg h, ih, toNat_fold, reduce_carryIn _ (by decide)]

/-- It ends after two rounds. -/
theorem foldCarry_rounds (sum : U32) :
    ∃ k ≤ 2, Tcp.foldCarry sum = (fun s : U32 => (s >>> 16) + (s &&& 0xffff))^[k] sum := by
  by_cases h0 : sum >>> 16 = 0
  · exact ⟨0, by omega, by rw [Tcp.foldCarry, if_pos h0, Function.iterate_zero_apply]⟩
  · by_cases h1 : ((sum >>> 16) + (sum &&& 0xffff)) >>> 16 = 0
    · exact ⟨1, by omega, by rw [Tcp.foldCarry, if_neg h0, Tcp.foldCarry, if_pos h1, Function.iterate_one]⟩
    · refine ⟨2, le_refl 2, ?_⟩
      have hlt := sum.isLt
      have honce := toNat_fold sum
      have htwice := toNat_fold ((sum >>> 16) + (sum &&& 0xffff))
      rw [carryIn] at honce htwice
      rw [Tcp.foldCarry, if_neg h0, Tcp.foldCarry, if_neg h1, Tcp.foldCarry,
        if_pos ((shiftRight_eq_zero _).mpr (by omega))]
      rfl

/-- A second fold, kept to the low bits, brings in what the first has left. -/
theorem toNat_twoFolds {once : U32} (honce : once.toNat = carryIn 16 sum.toNat) :
    (once + (once >>> 16)).toNat % 2 ^ 16 = reduce 16 sum.toNat := by
  have hlt := sum.isLt
  have hle : once.toNat ≤ 2 * (2 ^ 16 - 1) := by
    rw [honce, carryIn]
    omega
  rw [BitVec.toNat_add, toNat_high, ← reduce_carryIn _ (by decide), ← honce, ← reduce_carryIn _ (by decide),
    reduce_of_lt _ (by rw [carryIn]; omega), carryIn]
  omega

/-! ### What is returned -/

theorem setWidth_compl (sum : U32) : (~~~sum).setWidth 16 = ~~~BitVec.ofNat 16 (sum.toNat % 2 ^ 16) := by
  rw [BitVec.setWidth_not (by decide)]
  exact congrArg _ (BitVec.eq_of_toNat_eq (by simp))

namespace Tcp

/-- Whatever room there is, the complement of what the accumulator holds with its carries brought in. -/
theorem checksum_accumulated (m : Mem) (buf nbytes : Nat) (sum : U32) :
    checksum m buf nbytes sum =
      ~~~BitVec.ofNat 16 (reduce 16 ((sum.toNat + total (words (m.read buf nbytes))) % 2 ^ 32)) := by
  rw [checksum, setWidth_compl, toNat_foldCarry, toNat_accumulated, Nat.mod_eq_of_lt (reduce_lt _ (by decide))]

/-- Where there is room, the complement of the one's-complement sum. -/
theorem checksum_eq (hroom : Room m buf nbytes sum) : checksum m buf nbytes sum = ~~~onesSum m buf nbytes sum := by
  rw [checksum_accumulated, Nat.mod_eq_of_lt hroom, ← toNat_onesSum, BitVec.ofNat_toNat, BitVec.setWidth_eq]

end Tcp

namespace Mospf

/-- The daemon's adds the odd byte to what the folds have left. -/
theorem checksum_accumulated (m : Mem) (buf nbytes : Nat) (sum : U32) :
    checksum m buf nbytes sum =
      ~~~BitVec.ofNat 16 (reduce 16 ((sum.toNat + total (words (m.read buf (2 * (nbytes / 2))))) % 2 ^ 32) +
        (lastByte m buf nbytes).toNat) := by
  rw [checksum, setWidth_compl, BitVec.toNat_add, ← toNat_sumWords, ← toNat_twoFolds (toNat_fold _)]
  refine congrArg _ (BitVec.eq_of_toNat_eq ?_)
  rw [BitVec.toNat_ofNat, BitVec.toNat_ofNat]
  omega

end Mospf

namespace Router

theorem toNat_addWords (m : Mem) (buf n : Nat) (sum : U32) :
    (addWords m buf (2 * n) sum).toNat = (sum.toNat + total (words (m.read buf (2 * n)))) % 2 ^ 32 := by
  induction n generalizing buf sum with
  | zero => exact (Nat.mod_eq_of_lt sum.isLt).symm
  | succ n ih =>
    have hread : words (m.read buf (2 * (n + 1))) = m.load16 buf :: words (m.read (buf + 2) (2 * n)) := by
      rw [show 2 * (n + 1) = 2 + 2 * n by omega, Mem.read_add]
      rfl
    rw [show 2 * (n + 1) = 2 * n + 2 by omega, addWords, ih, BitVec.toNat_add, toNat_load16]
    rw [show 2 * n + 2 = 2 * (n + 1) by omega, hread, total_cons]
    omega

/-- The router's holds the same sum, though it adds the odd byte first. -/
theorem checksum_eq_tcp (m : Mem) (buf nbytes : Nat) (sum : U32) :
    checksum m buf nbytes sum = Tcp.checksum m buf nbytes sum := by
  have hheld : (if nbytes % 2 = 0 then addWords m buf nbytes sum
      else addWords m buf (nbytes - 1) (sum + (m.load8 (buf + (nbytes - 1))).setWidth 32)).toNat =
        (sum.toNat + total (words (m.read buf nbytes))) % 2 ^ 32 := by
    rw [← toNat_accumulated, lastByte]
    obtain ⟨n, rfl | rfl⟩ : ∃ n, nbytes = 2 * n ∨ nbytes = 2 * n + 1 := ⟨nbytes / 2, by omega⟩
    · rw [if_pos (by omega), if_pos (by omega), toNat_addWords, BitVec.toNat_add, toNat_sumWords,
        show 2 * n / 2 = n by omega]
      exact (Nat.mod_mod _ _).symm
    · rw [if_neg (by omega), if_neg (by omega), show 2 * n + 1 - 1 = 2 * n by omega, toNat_addWords,
        BitVec.toNat_add, BitVec.toNat_add, toNat_sumWords, show (2 * n + 1) / 2 = n by omega,
        show buf + (2 * n + 1) - 1 = buf + 2 * n by omega]
      omega
  rw [Tcp.checksum_accumulated, checksum, setWidth_compl, toNat_twoFolds (toNat_fold _), hheld]

end Router

/-! ### Storing the result, and changing a word -/

/-- A word stored in a buffer takes the place of the one that was there. -/
theorem total_store16 {x : U16} (hk : 2 * k + 2 ≤ nbytes) :
    total (words ((m.store16 (buf + 2 * k) x).read buf nbytes)) + (m.load16 (buf + 2 * k)).toNat =
      total (words (m.read buf nbytes)) + x.toNat := by
  have heven : ∀ n, k < n → total (words ((m.store16 (buf + 2 * k) x).read buf (2 * n))) +
      (m.load16 (buf + 2 * k)).toNat = total (words (m.read buf (2 * n))) + x.toNat := by
    intro n hn
    induction n with
    | zero => exact absurd hn (Nat.not_lt_zero k)
    | succ n ih =>
      rw [words_read_word, words_read_word, total_append, total_append, total_cons, total_cons, total_nil]
      rcases Nat.lt_or_eq_of_le (Nat.lt_succ_iff.mp hn) with hlt | rfl
      · have hword : (m.store16 (buf + 2 * k) x).load16 (buf + 2 * n) = m.load16 (buf + 2 * n) :=
          Mem.load16_write (by omega)
        have hbefore := ih hlt
        rw [hword]
        omega
      · have hbefore : (m.store16 (buf + 2 * k) x).read buf (2 * k) = m.read buf (2 * k) := Mem.read_write (by omega)
        rw [hbefore, Mem.load16_store16]
        omega
  obtain ⟨n, rfl | rfl⟩ : ∃ n, nbytes = 2 * n ∨ nbytes = 2 * n + 1 := ⟨nbytes / 2, by omega⟩
  · exact heven n (by omega)
  · have hbyte : (m.store16 (buf + 2 * k) x).load8 (buf + 2 * n) = m.load8 (buf + 2 * n) := Mem.load8_write (by omega)
    have hwords := heven n (by omega)
    rw [words_read_byte, words_read_byte, total_append, total_append, hbyte]
    omega

/-- With its complement in a field that was zero, a buffer sums to all ones. -/
theorem onesSum_store (hk : 2 * k + 2 ≤ nbytes) (hzero : m.load16 (buf + 2 * k) = 0) :
    onesSum (m.store16 (buf + 2 * k) (~~~onesSum m buf nbytes sum)) buf nbytes sum = 0xffff := by
  have htotal : total (words ((m.store16 (buf + 2 * k) (~~~onesSum m buf nbytes sum)).read buf nbytes)) +
      (m.load16 (buf + 2 * k)).toNat = total (words (m.read buf nbytes)) + (~~~onesSum m buf nbytes sum).toNat :=
    total_store16 hk
  rw [hzero, BitVec.toNat_not, toNat_onesSum] at htotal
  refine BitVec.eq_of_toNat_eq ?_
  rw [toNat_onesSum]
  refine Eq.trans (congrArg _ ?_)
    (reduce_add_compl (w := 16) (sum.toNat + total (words (m.read buf nbytes))) (by decide))
  rw [Nat.add_assoc, ← htotal]
  rfl

namespace Tcp

/-- Another word in the place of one leaves the checksum only if the two are congruent. -/
theorem checksum_store_ne {x : U16} (hk : 2 * k + 2 ≤ nbytes)
    (hne : ¬x.toNat ≡ (m.load16 (buf + 2 * k)).toNat [MOD 2 ^ 16 - 1]) (hroom : Room m buf nbytes sum)
    (hroom' : Room (m.store16 (buf + 2 * k) x) buf nbytes sum) :
    checksum (m.store16 (buf + 2 * k) x) buf nbytes sum ≠ checksum m buf nbytes sum := by
  intro heq
  rw [checksum_eq hroom, checksum_eq hroom'] at heq
  have hreduce := congrArg (fun s : U16 => (~~~s).toNat) heq
  simp only [BitVec.not_not] at hreduce
  rw [toNat_onesSum, toNat_onesSum, reduce_eq_iff] at hreduce
  have hmod := hreduce.2.add_right (m.load16 (buf + 2 * k)).toNat
  rw [Nat.add_assoc, total_store16 hk, ← Nat.add_assoc] at hmod
  exact hne (Nat.ModEq.add_left_cancel' _ hmod)

/-- **The checksum.** Where the accumulator has room, the loop of folds ends and the complement of
the one's-complement sum is returned; stored in a field that was zero it makes the sum all ones;
and another word in the place of one changes it, but for the two forms of zero. -/
theorem checksum_internet (m : Mem) (buf nbytes : Nat) (sum : U32) (hroom : Room m buf nbytes sum) :
    (∃ rounds ≤ 2, foldCarry (sumWords m buf (nbytes / 2) sum + lastByte m buf nbytes) =
        (fun s : U32 => (s >>> 16) + (s &&& 0xffff))^[rounds]
          (sumWords m buf (nbytes / 2) sum + lastByte m buf nbytes)) ∧
      checksum m buf nbytes sum = ~~~onesSum m buf nbytes sum ∧
      (nbytes % 2 = 0 → ∀ k, 2 * k + 2 ≤ nbytes → m.load16 (buf + 2 * k) = 0 →
        onesSum (m.store16 (buf + 2 * k) (checksum m buf nbytes sum)) buf nbytes sum = 0xffff) ∧
      ∀ k x, 2 * k + 2 ≤ nbytes → ¬x.toNat ≡ (m.load16 (buf + 2 * k)).toNat [MOD 65535] →
        Room (m.store16 (buf + 2 * k) x) buf nbytes sum →
          checksum (m.store16 (buf + 2 * k) x) buf nbytes sum ≠ checksum m buf nbytes sum := by
  refine ⟨foldCarry_rounds _, checksum_eq hroom, fun _ k hk hzero => ?_, fun k x hk hne hroom' => ?_⟩
  · rw [checksum_eq hroom]
    exact onesSum_store hk hzero
  · exact checksum_store_ne hk hne hroom hroom'

/-- Three bytes, over an initial sum whose carries count. -/
theorem checksum_internet_three :
    Room (fun a => BitVec.ofNat 8 (a + 254)) 0 3 0x1ffff ∧
      checksum (fun a => BitVec.ofNat 8 (a + 254)) 0 3 0x1ffff =
        ~~~onesSum (fun a => BitVec.ofNat 8 (a + 254)) 0 3 0x1ffff :=
  have hroom : Room (fun a => BitVec.ofNat 8 (a + 254)) 0 3 0x1ffff := by decide
  ⟨hroom, (checksum_internet (fun a => BitVec.ofNat 8 (a + 254)) 0 3 0x1ffff hroom).2.1⟩

end Tcp

/-! ### The three routines -/

/-- Adding a byte after the last fold loses its carry, if it has one. -/
theorem Mospf.checksum_eq_tcp_iff (hroom : Room m buf (2 * n + 1) sum) :
    Mospf.checksum m buf (2 * n + 1) sum = Tcp.checksum m buf (2 * n + 1) sum ↔
      (onesSum m buf (2 * n) sum).toNat + (m.load8 (buf + 2 * n)).toNat < 2 ^ 16 := by
  have hsum : total (words (m.read buf (2 * n + 1))) =
      total (words (m.read buf (2 * n))) + (m.load8 (buf + 2 * n)).toNat := by
    have hlt := (m.load8 (buf + 2 * n)).isLt
    rw [words_read_byte, total_append, total_cons, total_nil, BitVec.toNat_setWidth, Nat.mod_eq_of_lt (by omega)]
    rfl
  have hlast : (lastByte m buf (2 * n + 1)).toNat = (m.load8 (buf + 2 * n)).toNat := by
    have hlt := (m.load8 (buf + 2 * n)).isLt
    rw [lastByte, if_neg (by omega), show buf + (2 * n + 1) - 1 = buf + 2 * n by omega, BitVec.toNat_setWidth,
      Nat.mod_eq_of_lt (by omega)]
  have hroom' : sum.toNat + (total (words (m.read buf (2 * n))) + (m.load8 (buf + 2 * n)).toNat) < 2 ^ 32 :=
    hsum ▸ hroom
  have hbyte := (m.load8 (buf + 2 * n)).isLt
  have hrest := (onesSum m buf (2 * n) sum).isLt
  have hreduce : reduce 16 (sum.toNat + (total (words (m.read buf (2 * n))) + (m.load8 (buf + 2 * n)).toNat)) =
      reduce 16 ((onesSum m buf (2 * n) sum).toNat + (m.load8 (buf + 2 * n)).toNat) := by
    rw [toNat_onesSum, reduce_reduce_add, Nat.add_assoc]
  rw [Mospf.checksum_accumulated, Tcp.checksum_accumulated, hsum, hlast, show 2 * ((2 * n + 1) / 2) = 2 * n by omega,
    Nat.mod_eq_of_lt hroom', Nat.mod_eq_of_lt (by omega), hreduce, ← toNat_onesSum,
    ← reduce_eq_mod_iff _ (by decide) (by omega)]
  constructor
  · intro heq
    have hmod := congrArg (fun s : U16 => (~~~s).toNat) heq
    simp only [BitVec.not_not, BitVec.toNat_ofNat] at hmod
    rw [hmod, Nat.mod_eq_of_lt (reduce_lt _ (by decide))]
  · intro hmod
    rw [hmod]
    exact congrArg _ (BitVec.eq_of_toNat_eq (by simp))

/-- **Three routines.** The router's and the TCP stack's return the same, and the daemon's does too
if there is no odd byte or it leaves no carry over what the other bytes sum to. -/
theorem checksums_agree_iff (m : Mem) (buf nbytes : Nat) (sum : U32) (hroom : Room m buf nbytes sum) :
    (Router.checksum m buf nbytes sum = Tcp.checksum m buf nbytes sum ∧
      Mospf.checksum m buf nbytes sum = Tcp.checksum m buf nbytes sum) ↔
        nbytes % 2 = 0 ∨
          (onesSum m buf (nbytes - 1) sum).toNat + (m.load8 (buf + (nbytes - 1))).toNat < 2 ^ 16 := by
  rw [and_iff_right (Router.checksum_eq_tcp m buf nbytes sum)]
  obtain ⟨n, rfl | rfl⟩ : ∃ n, nbytes = 2 * n ∨ nbytes = 2 * n + 1 := ⟨nbytes / 2, by omega⟩
  · refine iff_of_true ?_ (Or.inl (by omega))
    have heven : lastByte m buf (2 * n) = 0 := if_pos (by omega)
    rw [Mospf.checksum_accumulated, Tcp.checksum_accumulated, heven, show 2 * (2 * n / 2) = 2 * n by omega]
    rfl
  · rw [Mospf.checksum_eq_tcp_iff hroom, or_iff_right (show ¬(2 * n + 1) % 2 = 0 by omega), Nat.add_sub_cancel]

/-- The bytes `ff ff 01 ff fe`: the words carry, and with the odd byte they come to the bound. -/
theorem checksums_agree_iff_odd :
    let m : Mem := fun a => if a = 2 then 0x01 else if a = 4 then 0xfe else 0xff
    Router.checksum m 0 5 0 = Tcp.checksum m 0 5 0 ∧ Mospf.checksum m 0 5 0 = Tcp.checksum m 0 5 0 :=
  (checksums_agree_iff _ 0 5 0 (by decide)).mpr (Or.inr (by decide))

/-- The bytes `ff ff 01`. -/
theorem checksums_differ :
    ¬∀ m buf nbytes sum, nbytes ≤ 65535 → Room m buf nbytes sum →
      Router.checksum m buf nbytes sum = Tcp.checksum m buf nbytes sum ∧
        Mospf.checksum m buf nbytes sum = Tcp.checksum m buf nbytes sum := by
  intro h
  have hagree := (h (fun a => if a = 2 then 1 else 0xff) 0 3 0 (by decide) (by decide)).2
  rw [Tcp.checksum_accumulated] at hagree
  exact absurd hagree (by decide)

end NetStack
