import Mathlib.Data.BitVec
import Mathlib.Algebra.BigOperators.Group.List.Basic
import Mathlib.Data.Nat.ModEq

/-! One's-complement sums.

Numbers of `w` bits are added with the carry brought back in at the low end. A sum of many is
what is left of their sum as numbers when its carries are brought in (`toNat_sum`), in whatever
steps that is done (`reduce_carryIn`, `reduce_reduce_add`), and two numbers leave the same if
they are congruent modulo `2 ^ w - 1` and both or neither are zero (`reduce_eq_iff`). With its
complement a sum makes all ones (`reduce_add_compl`). -/
namespace NetStack.OnesComplement

variable {w : Nat}

/-- The carries beyond `w` bits brought in at the low end, once. -/
def carryIn (w n : Nat) : Nat := n / 2 ^ w + n % 2 ^ w

/-- What is left when no carry is left. -/
def reduce (w n : Nat) : Nat := if n = 0 then 0 else (n - 1) % (2 ^ w - 1) + 1

def add (x y : BitVec w) : BitVec w := BitVec.ofNat w (carryIn w (x.toNat + y.toNat))

def sum (xs : List (BitVec w)) : BitVec w := xs.foldl add 0

/-- The sum of some words as numbers. -/
def total (xs : List (BitVec w)) : Nat := (xs.map BitVec.toNat).sum

@[simp] theorem total_nil : total ([] : List (BitVec w)) = 0 := rfl

@[simp] theorem total_cons (x : BitVec w) (xs : List (BitVec w)) : total (x :: xs) = x.toNat + total xs := rfl

@[simp] theorem total_append (xs ys : List (BitVec w)) : total (xs ++ ys) = total xs + total ys := by
  rw [total, List.map_append, List.sum_append]
  rfl

/-! ### Reducing -/

section Reduce
variable (a b n : Nat)

theorem reduce_of_lt (h : n < 2 ^ w) : reduce w n = n := by
  unfold reduce
  split
  · omega
  · rw [Nat.mod_eq_of_lt (by omega)]
    omega

theorem reduce_modEq : reduce w n ≡ n [MOD 2 ^ w - 1] := by
  unfold reduce
  split
  · next hzero => rw [hzero]
  · next hne =>
    have hmod : (n - 1) % (2 ^ w - 1) + 1 ≡ n - 1 + 1 [MOD 2 ^ w - 1] := (Nat.mod_modEq _ _).add_right 1
    rwa [Nat.sub_add_cancel (Nat.pos_iff_ne_zero.mpr hne)] at hmod

theorem reduce_eq_zero : reduce w n = 0 ↔ n = 0 := by
  unfold reduce
  split
  · next hzero => exact iff_of_true rfl hzero
  · next hne => exact iff_of_false (Nat.succ_ne_zero _) hne

/-- What is left tells zero apart, and otherwise the class modulo `2 ^ w - 1`. -/
theorem reduce_eq_iff : reduce w a = reduce w b ↔ (a = 0 ↔ b = 0) ∧ a ≡ b [MOD 2 ^ w - 1] := by
  constructor
  · intro h
    refine ⟨?_, (reduce_modEq a).symm.trans (h ▸ reduce_modEq b)⟩
    rw [← reduce_eq_zero a, h, reduce_eq_zero b]
  · intro h
    obtain ⟨hzero, hmod⟩ := h
    by_cases ha : a = 0
    · rw [ha, hzero.mp ha]
    · have hb : b ≠ 0 := mt hzero.mpr ha
      have hpred : a - 1 ≡ b - 1 [MOD 2 ^ w - 1] := by
        refine Nat.ModEq.add_right_cancel' 1 ?_
        rwa [Nat.sub_add_cancel (Nat.pos_iff_ne_zero.mpr ha), Nat.sub_add_cancel (Nat.pos_iff_ne_zero.mpr hb)]
      rw [reduce, reduce, if_neg ha, if_neg hb, hpred]

/-- Reducing before adding changes nothing. -/
theorem reduce_reduce_add : reduce w (reduce w a + b) = reduce w (a + b) := by
  refine (reduce_eq_iff _ _).mpr ⟨?_, (reduce_modEq a).add_right b⟩
  rw [Nat.add_eq_zero_iff, Nat.add_eq_zero_iff, reduce_eq_zero]

variable (hw : 0 < w)
include hw

theorem one_lt_two_pow : 1 < 2 ^ w := Nat.one_lt_two_pow (Nat.pos_iff_ne_zero.mp hw)

theorem reduce_lt : reduce w n < 2 ^ w := by
  have hpow := one_lt_two_pow hw
  unfold reduce
  split
  · omega
  · have hmod := Nat.mod_lt (n - 1) (show 0 < 2 ^ w - 1 by omega)
    omega

theorem carryIn_modEq : carryIn w n ≡ n [MOD 2 ^ w - 1] := by
  have hpow := one_lt_two_pow hw
  have hone : 2 ^ w ≡ 1 [MOD 2 ^ w - 1] := by
    have h : 2 ^ w - 1 + 1 ≡ 0 + 1 [MOD 2 ^ w - 1] := (Nat.modEq_zero_iff_dvd.mpr (dvd_refl _)).add_right 1
    rwa [Nat.sub_add_cancel hpow.le] at h
  calc n / 2 ^ w + n % 2 ^ w = 1 * (n / 2 ^ w) + n % 2 ^ w := by rw [one_mul]
    _ ≡ 2 ^ w * (n / 2 ^ w) + n % 2 ^ w [MOD 2 ^ w - 1] := (hone.symm.mul_right _).add_right _
    _ = n := Nat.div_add_mod n (2 ^ w)

/-- Neither does bringing carries in. -/
theorem reduce_carryIn : reduce w (carryIn w n) = reduce w n := by
  refine (reduce_eq_iff _ _).mpr ⟨?_, carryIn_modEq n hw⟩
  constructor
  · intro h
    obtain ⟨hdiv, hmod⟩ := Nat.add_eq_zero_iff.mp h
    rw [← Nat.div_add_mod n (2 ^ w), hdiv, hmod, mul_zero]
  · intro h
    rw [h, carryIn, Nat.zero_div, Nat.zero_mod]

/-- Where there is one carry at most, dropping it instead leaves the same only if there is none. -/
theorem reduce_eq_mod_iff (h : n < 2 * 2 ^ w - 1) : reduce w n = n % 2 ^ w ↔ n < 2 ^ w := by
  have hpow := one_lt_two_pow hw
  rcases Nat.lt_or_ge n (2 ^ w) with hlt | hge
  · rw [reduce_of_lt _ hlt, Nat.mod_eq_of_lt hlt]
    exact iff_of_true rfl hlt
  · refine iff_of_false ?_ (by omega)
    have hone : n / 2 ^ w = 1 := Nat.div_eq_of_lt_le (by omega) (by omega)
    have hmod : n % 2 ^ w = n - 2 ^ w := by
      rw [Nat.mod_eq_sub_mod hge, Nat.mod_eq_of_lt (by omega)]
    rw [← reduce_carryIn _ hw, carryIn, hone, hmod, reduce_of_lt _ (by omega)]
    omega

/-- A sum and its complement. -/
theorem reduce_add_compl : reduce w (n + (2 ^ w - 1 - reduce w n)) = 2 ^ w - 1 := by
  have hpow := one_lt_two_pow hw
  have hlt := reduce_lt n hw
  rw [← reduce_reduce_add, Nat.add_sub_cancel' (by omega), reduce_of_lt _ (by omega)]

end Reduce

/-! ### Sums -/

theorem toNat_add (hw : 0 < w) (x y : BitVec w) : (add x y).toNat = reduce w (x.toNat + y.toNat) := by
  have hpow := one_lt_two_pow hw
  have hx := x.isLt
  have hy := y.isLt
  have hlt : carryIn w (x.toNat + y.toNat) < 2 ^ w := by
    unfold carryIn
    rcases Nat.lt_or_ge (x.toNat + y.toNat) (2 ^ w) with h | h
    · rw [Nat.div_eq_of_lt h, Nat.mod_eq_of_lt h]
      omega
    · rw [Nat.div_eq_of_lt_le (by omega) (by omega) (k := 1), Nat.mod_eq_sub_mod h, Nat.mod_eq_of_lt (by omega)]
      omega
  rw [add, BitVec.toNat_ofNat, Nat.mod_eq_of_lt hlt, ← reduce_carryIn _ hw, reduce_of_lt _ hlt]

theorem toNat_foldl_add (hw : 0 < w) (xs : List (BitVec w)) (x : BitVec w) :
    (xs.foldl add x).toNat = reduce w (x.toNat + total xs) := by
  induction xs generalizing x with
  | nil => exact (reduce_of_lt _ x.isLt).symm
  | cons y xs ih => rw [List.foldl_cons, ih, toNat_add hw, reduce_reduce_add, total_cons, Nat.add_assoc]

/-- A sum is the sum of the numbers with its carries brought in. -/
theorem toNat_sum (hw : 0 < w) (xs : List (BitVec w)) : (sum xs).toNat = reduce w (total xs) := by
  rw [sum, toNat_foldl_add hw]
  exact congrArg _ (Nat.zero_add _)

end NetStack.OnesComplement
