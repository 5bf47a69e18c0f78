import NetStack.Types
import Mathlib.Tactic.IntervalCases

/-! Network byte order on a little-endian host.

Header fields are kept as the host reads them from the packet; the conversions swap
the bytes, and each is its own inverse. -/
namespace NetStack

def ntohl (x : U32) : U32 :=
  x.extractLsb' 0 8 ++ x.extractLsb' 8 8 ++ x.extractLsb' 16 8 ++ x.extractLsb' 24 8

def ntohs (x : U16) : U16 := x.extractLsb' 0 8 ++ x.extractLsb' 8 8

abbrev htonl := ntohl
abbrev htons := ntohs

/-- The bytes of a word in memory order. -/
def bytes32 (x : U32) : List U8 :=
  [x.extractLsb' 0 8, x.extractLsb' 8 8, x.extractLsb' 16 8, x.extractLsb' 24 8]

def bytes16 (x : U16) : List U8 := [x.extractLsb' 0 8, x.extractLsb' 8 8]

theorem getLsbD_ntohl (x : U32) (i : Nat) (hi : i < 32) :
    (ntohl x).getLsbD i = x.getLsbD (8 * (3 - i / 8) + i % 8) := by
  simp only [ntohl, BitVec.getLsbD_append, BitVec.getLsbD_extractLsb']
  interval_cases i <;> rfl

theorem getLsbD_ntohs (x : U16) (i : Nat) (hi : i < 16) :
    (ntohs x).getLsbD i = x.getLsbD (8 * (1 - i / 8) + i % 8) := by
  simp only [ntohs, BitVec.getLsbD_append, BitVec.getLsbD_extractLsb']
  interval_cases i <;> rfl

@[simp] theorem ntohl_ntohl (x : U32) : ntohl (ntohl x) = x := by
  apply BitVec.eq_of_getLsbD_eq
  intro i hi
  rw [getLsbD_ntohl _ i hi, getLsbD_ntohl x _ (by omega)]
  congr 1
  omega

@[simp] theorem ntohs_ntohs (x : U16) : ntohs (ntohs x) = x := by
  apply BitVec.eq_of_getLsbD_eq
  intro i hi
  rw [getLsbD_ntohs _ i hi, getLsbD_ntohs x _ (by omega)]
  congr 1
  omega

end NetStack
