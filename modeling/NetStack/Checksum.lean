import NetStack.Types
import NetStack.Lib.Memory

/-! The checksum of a buffer (`include/checksum.h` of `EXP07-Router/07-router`, of
`EXP12-mOSPF/code/12-mopsf` and of `EXP18-TCP_Stack_4/code/18-tcp_stack`).

The routines add up the same words and differ in when they fold the carries in, and when they
take an odd byte. None looks at anything but the bytes it is to sum. -/
namespace NetStack

variable {m m' : Mem} {buf nbytes n : Nat} {sum : U32}

/-- The loop over `buf[0]` to `buf[n - 1]`, as 16-bit words. -/
def sumWords (m : Mem) (buf : Nat) : Nat → U32 → U32
  | 0, sum => sum
  | n + 1, sum => sumWords m buf n sum + (m.load16 (buf + 2 * n)).setWidth 32

theorem sumWords_congr (h : m.Agree m' buf (2 * n)) : sumWords m buf n sum = sumWords m' buf n sum := by
  induction n with
  | zero => rfl
  | succ n ih =>
    have hword : m.Agree m' (buf + 2 * n) 2 := h.mono (by omega) (by omega)
    rw [sumWords, sumWords, ih (h.mono (Nat.le_refl _) (by omega)), hword.load16]

/-- The odd byte at the end of a buffer. -/
def lastByte (m : Mem) (buf nbytes : Nat) : U32 :=
  if nbytes % 2 = 0 then 0 else (m.load8 (buf + nbytes - 1)).setWidth 32

theorem lastByte_congr (h : m.Agree m' buf nbytes) : lastByte m buf nbytes = lastByte m' buf nbytes := by
  unfold lastByte
  split
  · rfl
  · have hbyte : m.Agree m' (buf + nbytes - 1) 1 := h.mono (by omega) (by omega)
    rw [hbyte.load8]

namespace Tcp

/-- The `while` loop that folds the carries in. -/
def foldCarry (sum : U32) : U32 :=
  if sum >>> 16 = 0 then sum else foldCarry ((sum >>> 16) + (sum &&& 0xffff))
termination_by sum.toNat
decreasing_by
  rename_i hcarry
  have hhigh : 0 < sum.toNat / 65536 := by
    apply Nat.pos_of_ne_zero
    intro hzero
    apply hcarry
    apply BitVec.eq_of_toNat_eq
    rw [BitVec.toNat_ushiftRight, Nat.shiftRight_eq_div_pow]
    exact hzero
  have hlow : (sum &&& 0xffff).toNat = sum.toNat % 65536 := by
    rw [BitVec.toNat_and]
    exact Nat.and_two_pow_sub_one_eq_mod sum.toNat 16
  have hless : sum.toNat / 65536 + sum.toNat % 65536 < sum.toNat := by omega
  rw [BitVec.toNat_add, BitVec.toNat_ushiftRight, Nat.shiftRight_eq_div_pow, hlow,
    Nat.mod_eq_of_lt (hless.trans sum.isLt)]
  exact hless

/-- `checksum` of the TCP stack. -/
def checksum (m : Mem) (buf nbytes : Nat) (sum : U32) : U16 :=
  (~~~foldCarry (sumWords m buf (nbytes / 2) sum + lastByte m buf nbytes)).setWidth 16

theorem checksum_congr (h : m.Agree m' buf nbytes) : checksum m buf nbytes sum = checksum m' buf nbytes sum := by
  rw [checksum, checksum, sumWords_congr (h.mono (Nat.le_refl _) (by omega)), lastByte_congr h]

end Tcp

namespace Mospf

/-- `checksum` of the mOSPF daemon: two folds, and the odd byte after them. -/
def checksum (m : Mem) (buf nbytes : Nat) (sum : U32) : U16 :=
  let sum := sumWords m buf (nbytes / 2) sum
  let sum := (sum >>> 16) + (sum &&& 0xffff)
  let sum := sum + (sum >>> 16)
  (~~~(sum + lastByte m buf nbytes)).setWidth 16

theorem checksum_congr (h : m.Agree m' buf nbytes) : checksum m buf nbytes sum = checksum m' buf nbytes sum := by
  rw [checksum, checksum, sumWords_congr (h.mono (Nat.le_refl _) (by omega)), lastByte_congr h]

end Mospf

namespace Router

/-- The `while` loop over the words from `ptr` on. -/
def addWords (m : Mem) (ptr : Nat) : Nat → U32 → U32
  | 0, sum => sum
  | 1, sum => sum + (m.load16 ptr).setWidth 32
  | nbytes + 2, sum => addWords m (ptr + 2) nbytes (sum + (m.load16 ptr).setWidth 32)

/-- `checksum` of the router: the odd byte first, and two folds. -/
def checksum (m : Mem) (ptr nbytes : Nat) (sum : U32) : U16 :=
  let sum :=
    if nbytes % 2 = 0 then addWords m ptr nbytes sum
    else addWords m ptr (nbytes - 1) (sum + (m.load8 (ptr + (nbytes - 1))).setWidth 32)
  let sum := (sum >>> 16) + (sum &&& 0xffff)
  let sum := sum + (sum >>> 16)
  (~~~sum).setWidth 16

end Router

end NetStack
