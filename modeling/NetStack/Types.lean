import Mathlib.Data.BitVec

/-! The C integer types of `types.h`, at their own widths.

Where a field is declared `u32` and the code compares, masks or wraps it, the
model keeps it at that width; where a C `int` only counts something small, the
model uses `Nat` or `Int`. Where such an `int` wraps around, `toCInt` says so. -/
namespace NetStack

abbrev U8 := BitVec 8
abbrev U16 := BitVec 16
abbrev U32 := BitVec 32
abbrev U64 := BitVec 64

/-- The value an `int` takes for a number, wrapping around. -/
def toCInt (n : Int) : Int := n.bmod (2 ^ 32)

theorem toCInt_eq {n : Int} (hlow : -2 ^ 31 ≤ n) (hhigh : n < 2 ^ 31) : toCInt n = n := by
  rw [toCInt, Int.bmod_eq_of_le_mul_two] <;> omega

end NetStack
