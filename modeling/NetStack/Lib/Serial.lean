import Mathlib.Data.BitVec
import Mathlib.Tactic.Ring

/-! Serial numbers.

A counter that only grows is carried as its low `w` bits. Two numbers are compared by
the sign of their difference, wrapping at `w` bits. Counter values less than half the
range apart are ordered by that sign as the counters themselves are, and counter values
less than the whole range apart that look equal are equal. -/
namespace NetStack.Serial

variable {w : Nat}

/-- The serial number of counter value `p`, for a counter that starts at `base`. -/
def nth (base : BitVec w) (p : Nat) : BitVec w := base + BitVec.ofNat w p

/-- `a` comes before `b`. -/
def lt (a b : BitVec w) : Bool := (a - b).toInt < 0

/-- `a` does not come after `b`. -/
def le (a b : BitVec w) : Bool := (a - b).toInt ≤ 0

/-- `b` is `a`, or less than half the range after it. -/
def Upto (a b : BitVec w) : Prop := 2 * (b - a).toNat < 2 ^ w

/-- Counter values less than half the range apart. -/
def Near (w p q : Nat) : Prop := 2 * p < 2 * q + 2 ^ w ∧ 2 * q < 2 * p + 2 ^ w

instance (w p q : Nat) : Decidable (Near w p q) := by unfold Near; infer_instance

theorem Near.of_le {n p q : Nat} (hn : 2 * n < 2 ^ w) (hp : p ≤ n) (hq : q ≤ n) : Near w p q := by
  unfold Near
  omega

theorem Near.symm {p q : Nat} (h : Near w p q) : Near w q p := ⟨h.2, h.1⟩

@[simp] theorem nth_zero (base : BitVec w) : nth base 0 = base := by
  simp [nth]

theorem nth_add (base : BitVec w) (p n : Nat) : nth base p + BitVec.ofNat w n = nth base (p + n) := by
  rw [nth, nth, BitVec.add_assoc, BitVec.ofNat_add]

/-- The difference of two serial numbers is that of their counter values, wrapped. -/
theorem toInt_nth_sub (base : BitVec w) (p q : Nat) :
    (nth base p - nth base q).toInt = ((p : Int) - q).bmod (2 ^ w) := by
  have hsub : nth base p - nth base q = BitVec.ofNat w p - BitVec.ofNat w q := by
    unfold nth
    ring
  rw [hsub, BitVec.toInt_sub, BitVec.toInt_ofNat', BitVec.toInt_ofNat']
  simp

theorem toInt_nth_sub_near {p q : Nat} (base : BitVec w) (h : Near w p q) :
    (nth base p - nth base q).toInt = (p : Int) - q := by
  obtain ⟨h1, h2⟩ := h
  rw [toInt_nth_sub]
  have hcast : ((2 ^ w : Nat) : Int) = 2 ^ w := by norm_cast
  apply Int.bmod_eq_of_le_mul_two <;> omega

theorem lt_nth {p q : Nat} (base : BitVec w) (h : Near w p q) :
    lt (nth base p) (nth base q) = decide (p < q) := by
  rw [lt, toInt_nth_sub_near base h]
  apply decide_eq_decide.mpr
  omega

/-- A step forward of less than half the range is one. -/
theorem lt_add {n : Nat} (a : BitVec w) (hpos : 0 < n) (h : 2 * n < 2 ^ w) : lt a (a + BitVec.ofNat w n) = true := by
  have hlt := lt_nth a (show Near w 0 n from ⟨by omega, by omega⟩)
  rwa [nth_zero, nth, decide_eq_true hpos] at hlt

theorem le_add {n : Nat} (a : BitVec w) (h : 2 * n < 2 ^ w) : le a (a + BitVec.ofNat w n) = true := by
  have hdiff := toInt_nth_sub_near a (show Near w 0 n from ⟨by omega, by omega⟩)
  rw [nth_zero, nth] at hdiff
  rw [le, hdiff, decide_eq_true_eq]
  omega

theorem nth_toNat_sub (base a : BitVec w) : nth base (a - base).toNat = a := by
  rw [nth, BitVec.ofNat_toNat, BitVec.setWidth_eq, BitVec.add_comm, BitVec.sub_add_cancel]

/-- In the half of the range from `base` on, serial numbers are ordered as their distances from it. -/
theorem lt_of_upto {base a b : BitVec w} (ha : Upto base a) (hb : Upto base b) :
    lt a b = decide ((a - base).toNat < (b - base).toNat) := by
  have hlt := lt_nth base (show Near w (a - base).toNat (b - base).toNat by
    unfold Upto at ha hb
    unfold Near
    omega)
  rwa [nth_toNat_sub, nth_toNat_sub] at hlt

/-- Near counter values with the same serial number are the same. -/
theorem nth_inj {p q : Nat} {base : BitVec w} (h : Near w p q)
    (heq : nth base p = nth base q) : p = q := by
  have := toInt_nth_sub_near base h
  rw [heq, BitVec.sub_self] at this
  simp at this
  omega

end NetStack.Serial
