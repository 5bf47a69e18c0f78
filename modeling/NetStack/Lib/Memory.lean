import Mathlib.Data.BitVec
import Mathlib.Tactic.IntervalCases

/-! Byte-addressed memory with little-endian words.

Everything that changes memory is a `write` of a block of bytes, and everything that looks
at it depends on a block of bytes. So one rule takes a load past a store, `agree_write`:
blocks that do not meet do not disturb each other. The loads of a block just written are
the other half (`load16_store16`, `load32_store32`, `load32_copy`). -/
namespace NetStack

/-- A byte at every address. -/
abbrev Mem := Nat → BitVec 8

namespace Mem

/-- `n` bytes written from `a` on. -/
def write (m : Mem) (a n : Nat) (f : Nat → BitVec 8) : Mem :=
  fun i => if a ≤ i ∧ i < a + n then f (i - a) else m i

abbrev store8 (m : Mem) (a : Nat) (x : BitVec 8) : Mem := m.write a 1 fun _ => x

abbrev store16 (m : Mem) (a : Nat) (x : BitVec 16) : Mem := m.write a 2 fun i => x.extractLsb' (8 * i) 8

abbrev store32 (m : Mem) (a : Nat) (x : BitVec 32) : Mem := m.write a 4 fun i => x.extractLsb' (8 * i) 8

/-- `n` bytes copied to `a` from `b` in another memory. -/
abbrev copy (m : Mem) (a : Nat) (src : Mem) (b n : Nat) : Mem := m.write a n fun i => src (b + i)

/-- `n` bytes zeroed. -/
abbrev zero (m : Mem) (a n : Nat) : Mem := m.write a n fun _ => 0

def load8 (m : Mem) (a : Nat) : BitVec 8 := m a

def load16 (m : Mem) (a : Nat) : BitVec 16 := m (a + 1) ++ m a

def load32 (m : Mem) (a : Nat) : BitVec 32 := m (a + 3) ++ m (a + 2) ++ m (a + 1) ++ m a

/-- The `n` bytes from `a` on. -/
def read (m : Mem) (a n : Nat) : List (BitVec 8) := (List.range n).map fun i => m (a + i)

/-- Two memories hold the same `n` bytes from `a` on. -/
def Agree (m m' : Mem) (a n : Nat) : Prop := ∀ i, a ≤ i → i < a + n → m i = m' i

variable {m m' src : Mem} {a b n k : Nat} {f : Nat → BitVec 8}

@[simp] theorem length_read (m : Mem) (a n : Nat) : (m.read a n).length = n := by
  rw [read, List.length_map, List.length_range]

/-- A block read in two parts. -/
theorem read_add (m : Mem) (a n k : Nat) : m.read a (n + k) = m.read a n ++ m.read (a + n) k := by
  rw [read, read, read, List.range_add, List.map_append, List.map_map]
  congr 2
  funext i
  exact congrArg m (Nat.add_assoc a n i).symm

/-! ### Agreement -/

theorem Agree.symm (h : Agree m m' a n) : Agree m' m a n := fun i ha hn => (h i ha hn).symm

theorem Agree.mono (h : Agree m m' a n) (ha : a ≤ b) (hb : b + k ≤ a + n) : Agree m m' b k :=
  fun i hi hk => h i (by omega) (by omega)

theorem write_apply {i : Nat} (h : i < b ∨ b + k ≤ i) : (m.write b k f) i = m i := if_neg (by omega)

/-- A write disturbs no block that it does not meet. -/
theorem agree_write (h : a + n ≤ b ∨ b + k ≤ a) : Agree (m.write b k f) m a n := by
  intro i ha hn
  exact write_apply (by omega)

/-- Writes keep agreement. -/
theorem Agree.write (h : Agree m m' a n) : Agree (m.write b k f) (m'.write b k f) a n := by
  intro i ha hn
  unfold Mem.write
  rw [h i ha hn]

theorem agree_iff_read : Agree m m' a n ↔ m.read a n = m'.read a n := by
  constructor
  · intro h
    refine List.map_congr_left fun i hi => ?_
    have := List.mem_range.mp hi
    exact h (a + i) (by omega) (by omega)
  · intro h i ha hn
    have hi : i - a ∈ List.range n := List.mem_range.mpr (by omega)
    have := List.map_inj_left.mp h (i - a) hi
    rwa [Nat.add_sub_cancel' ha] at this

theorem Agree.load8 (h : Agree m m' a 1) : m.load8 a = m'.load8 a := h a (by omega) (by omega)

theorem Agree.load16 (h : Agree m m' a 2) : m.load16 a = m'.load16 a := by
  rw [Mem.load16, Mem.load16, h a (by omega) (by omega), h (a + 1) (by omega) (by omega)]

theorem Agree.load32 (h : Agree m m' a 4) : m.load32 a = m'.load32 a := by
  rw [Mem.load32, Mem.load32, h a (by omega) (by omega), h (a + 1) (by omega) (by omega),
    h (a + 2) (by omega) (by omega), h (a + 3) (by omega) (by omega)]

theorem Agree.read (h : Agree m m' a n) : m.read a n = m'.read a n := agree_iff_read.mp h

/-! ### Loads past a write -/

theorem load8_write (h : a + 1 ≤ b ∨ b + n ≤ a) : (m.write b n f).load8 a = m.load8 a :=
  (agree_write h).load8

theorem load16_write (h : a + 2 ≤ b ∨ b + n ≤ a) : (m.write b n f).load16 a = m.load16 a :=
  (agree_write h).load16

theorem load32_write (h : a + 4 ≤ b ∨ b + n ≤ a) : (m.write b n f).load32 a = m.load32 a :=
  (agree_write h).load32

theorem read_write (h : a + k ≤ b ∨ b + n ≤ a) : (m.write b n f).read a k = m.read a k :=
  (agree_write h).read

/-! ### Loads of what was written -/

/-- A block written over is the last one written. -/
@[simp] theorem write_write (m : Mem) (a n : Nat) (f g : Nat → BitVec 8) :
    (m.write a n f).write a n g = m.write a n g := by
  funext i
  unfold write
  split <;> rfl

theorem write_at (h : k < n) : (m.write a n f) (a + k) = f k := by
  rw [write, if_pos (by omega), Nat.add_sub_cancel_left]

theorem write_first (h : 0 < n) : (m.write a n f) a = f 0 := write_at (k := 0) h

@[simp] theorem load8_store8 (m : Mem) (a : Nat) (x : BitVec 8) : (m.store8 a x).load8 a = x :=
  write_first (f := fun _ => x) Nat.one_pos

@[simp] theorem load16_store16 (m : Mem) (a : Nat) (x : BitVec 16) : (m.store16 a x).load16 a = x := by
  apply BitVec.eq_of_getLsbD_eq
  intro i hi
  rw [load16, store16, write_at (by omega), write_first (by omega)]
  simp only [BitVec.getLsbD_append, BitVec.getLsbD_extractLsb']
  interval_cases i <;> rfl

@[simp] theorem load32_store32 (m : Mem) (a : Nat) (x : BitVec 32) : (m.store32 a x).load32 a = x := by
  apply BitVec.eq_of_getLsbD_eq
  intro i hi
  rw [load32, store32, write_at (by omega), write_at (by omega), write_at (by omega), write_first (by omega)]
  simp only [BitVec.getLsbD_append, BitVec.getLsbD_extractLsb']
  interval_cases i <;> rfl

/-- A word inside a block that was copied is the word it was copied from. -/
theorem load32_copy (h : k + 4 ≤ n) : (m.copy a src b n).load32 (a + k) = src.load32 (b + k) := by
  simp only [load32, copy, Nat.add_assoc]
  rw [write_at (by omega), write_at (by omega), write_at (by omega), write_at (by omega)]

/-- A copy of a block to the same place agrees with it there. -/
theorem copy_agree (m src : Mem) (a n : Nat) : Agree (m.copy a src a n) src a n := by
  intro i ha hn
  rw [copy, write, if_pos ⟨ha, hn⟩, Nat.add_sub_cancel' ha]

end Mem

end NetStack
