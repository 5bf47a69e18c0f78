import NetStack.Types
import NetStack.Lib.Run
import Mathlib.Tactic.Common

/-! The receive buffer (`include/ring_buffer.h`).

A byte array with a read position and a write position, both kept inside the array.
One byte always stays unused, so that equal positions mean empty. `contents` is what a
reader would get; a read takes a piece off its front and a write, which the source
guards with an assertion, puts its bytes behind it. Over whole histories that makes
the buffer a bounded queue (`bounded_fifo`). Sizes and positions are `Nat`; no sum of
them reaches twice the size. -/
namespace NetStack.Tcp

/-- `struct ring_buffer`. -/
structure RingBuffer where
  size : Nat
  head : Nat
  tail : Nat
  buf : Nat → U8
  head_lt : head < size
  tail_lt : tail < size

namespace RingBuffer

/-- `alloc_ring_buffer`. -/
def alloc (size : Nat) : RingBuffer where
  size := size + 1
  head := 0
  tail := 0
  buf := fun _ => 0
  head_lt := Nat.succ_pos size
  tail_lt := Nat.succ_pos size

/-- `ring_buffer_used`. -/
def used (rbuf : RingBuffer) : Nat := (rbuf.tail + rbuf.size - rbuf.head) % rbuf.size

/-- `ring_buffer_free`; one byte tells an empty buffer from a full one. -/
def free (rbuf : RingBuffer) : Nat := rbuf.size - rbuf.used - 1

/-- `ring_buffer_empty`, `ring_buffer_full`. -/
def empty (rbuf : RingBuffer) : Bool := rbuf.used == 0
def full (rbuf : RingBuffer) : Bool := rbuf.free == 0

/-- `memcpy` out of the array: the bytes from `off` on. -/
def copyOut (buf : Nat → U8) (off len : Nat) : List U8 := (List.range len).map fun i => buf (off + i)

/-- `memcpy` into the array: `data` from `off` on. -/
def copyIn (buf : Nat → U8) (off : Nat) (data : List U8) : Nat → U8 := fun j =>
  if off ≤ j ∧ j < off + data.length then data.getD (j - off) 0 else buf j

/-- The copies of `read_ring_buffer`: two where the range runs over the end. -/
def copyFrom (rbuf : RingBuffer) (len : Nat) : List U8 :=
  if rbuf.size < rbuf.head + len then
    copyOut rbuf.buf rbuf.head (rbuf.size - rbuf.head) ++
      copyOut rbuf.buf 0 (len - (rbuf.size - rbuf.head))
  else copyOut rbuf.buf rbuf.head len

/-- The copies of `write_ring_buffer`. -/
def copyTo (rbuf : RingBuffer) (data : List U8) : Nat → U8 :=
  if rbuf.size < rbuf.tail + data.length then
    copyIn (copyIn rbuf.buf rbuf.tail (data.take (rbuf.size - rbuf.tail))) 0
      (data.drop (rbuf.size - rbuf.tail))
  else copyIn rbuf.buf rbuf.tail data

/-- `read_ring_buffer`: what it copies out, and the buffer after it. -/
def read (rbuf : RingBuffer) (size : Nat) : List U8 × RingBuffer :=
  if 0 < min rbuf.used size then
    (rbuf.copyFrom (min rbuf.used size), { rbuf with
      head := (rbuf.head + min rbuf.used size) % rbuf.size
      head_lt := Nat.mod_lt _ (Nat.zero_lt_of_lt rbuf.head_lt) })
  else ([], rbuf)

/-- `write_ring_buffer`; `none` when its assertion fails. -/
def write (rbuf : RingBuffer) (data : List U8) : Option RingBuffer :=
  if 0 < data.length ∧ data.length ≤ rbuf.free then
    some { rbuf with
      buf := rbuf.copyTo data
      tail := (rbuf.tail + data.length) % rbuf.size
      tail_lt := Nat.mod_lt _ (Nat.zero_lt_of_lt rbuf.head_lt) }
  else none

/-- The bytes written and not yet read, oldest first. -/
def contents (rbuf : RingBuffer) : List U8 :=
  (List.range rbuf.used).map fun i => rbuf.buf ((rbuf.head + i) % rbuf.size)

/-! ### Positions -/

theorem size_pos (rbuf : RingBuffer) : 0 < rbuf.size := Nat.zero_lt_of_lt rbuf.head_lt

theorem used_lt (rbuf : RingBuffer) : rbuf.used < rbuf.size := Nat.mod_lt _ rbuf.size_pos

theorem used_add_free (rbuf : RingBuffer) : rbuf.used + rbuf.free + 1 = rbuf.size := by
  have := rbuf.used_lt
  unfold free
  omega

/-- A position at most one turn ahead wraps at most once. -/
theorem mod_size {x size : Nat} (h : x < 2 * size) :
    x % size = if x < size then x else x - size := by
  split
  · exact Nat.mod_eq_of_lt ‹_›
  · rw [Nat.mod_eq_sub_mod (by omega), Nat.mod_eq_of_lt (by omega)]

theorem used_cases (rbuf : RingBuffer) :
    rbuf.head ≤ rbuf.tail ∧ rbuf.used + rbuf.head = rbuf.tail ∨
      rbuf.tail < rbuf.head ∧ rbuf.used + rbuf.head = rbuf.tail + rbuf.size := by
  have hh := rbuf.head_lt
  have ht := rbuf.tail_lt
  have hmod := mod_size (show rbuf.tail + rbuf.size - rbuf.head < 2 * rbuf.size by omega)
  unfold used
  split at hmod <;> omega

@[simp] theorem length_contents (rbuf : RingBuffer) : rbuf.contents.length = rbuf.used := by
  simp [contents]

@[simp] theorem length_copyOut (buf : Nat → U8) (off len : Nat) : (copyOut buf off len).length = len := by
  simp [copyOut]

@[simp] theorem contents_alloc (size : Nat) : (alloc size).contents = [] := by
  simp [contents, alloc, used]

theorem empty_iff (rbuf : RingBuffer) : rbuf.empty = true ↔ rbuf.contents = [] := by
  rw [empty, beq_iff_eq, ← length_contents, List.length_eq_zero_iff]

/-! ### Reading -/

/-- The two copies of a read that wraps are one walk round the array. -/
theorem copyFrom_eq (rbuf : RingBuffer) {len : Nat} (hlen : len ≤ rbuf.used) :
    rbuf.copyFrom len = (List.range len).map fun i => rbuf.buf ((rbuf.head + i) % rbuf.size) := by
  have hh := rbuf.head_lt
  have hu := rbuf.used_lt
  unfold copyFrom
  split
  · apply List.ext_getElem
    · simp only [List.length_append, length_copyOut, List.length_map, List.length_range]
      omega
    · intro i h1 h2
      simp only [List.length_map, List.length_range] at h2
      rw [List.getElem_append]
      simp only [copyOut, List.length_map, List.length_range, List.getElem_map, List.getElem_range]
      rw [mod_size (show rbuf.head + i < 2 * rbuf.size by omega)]
      split <;> split <;> first | rfl | omega | (congr 1; omega)
  · apply List.ext_getElem
    · simp
    · intro i h1 h2
      simp only [List.length_map, List.length_range] at h2
      simp only [copyOut, List.getElem_map, List.getElem_range]
      rw [Nat.mod_eq_of_lt (by omega)]

/-- A read returns the front of the contents, as much as was asked for. -/
theorem read_out (rbuf : RingBuffer) (size : Nat) : (rbuf.read size).1 = rbuf.contents.take size := by
  have hlen : min rbuf.used size ≤ rbuf.used := Nat.min_le_left _ _
  unfold read
  split
  · show rbuf.copyFrom _ = _
    rw [copyFrom_eq rbuf hlen, contents, ← List.map_take, List.take_range, Nat.min_comm]
  · rename_i h
    have : rbuf.contents.take size = [] := by
      apply List.eq_nil_of_length_eq_zero
      rw [List.length_take, length_contents]
      omega
    rw [this]

theorem read_used (rbuf : RingBuffer) (size : Nat) :
    (rbuf.read size).2.used = rbuf.used - size := by
  have hh := rbuf.head_lt
  have hu := rbuf.used_lt
  have hc := rbuf.used_cases
  have hc' := (rbuf.read size).2.used_cases
  have hl := (rbuf.read size).2.used_lt
  revert hc' hl
  unfold read
  split
  · rename_i hlen
    have hmod := mod_size (show rbuf.head + min rbuf.used size < 2 * rbuf.size by omega)
    intro hc' hl
    simp only at hc' hl ⊢
    split at hmod <;> omega
  · simp only
    omega

@[simp] theorem read_size (rbuf : RingBuffer) (size : Nat) : (rbuf.read size).2.size = rbuf.size := by
  unfold read
  split <;> rfl

/-- A read leaves the rest of the contents. -/
theorem read_contents (rbuf : RingBuffer) (size : Nat) :
    (rbuf.read size).2.contents = rbuf.contents.drop size := by
  have hu := rbuf.used_lt
  have hh := rbuf.head_lt
  apply List.ext_getElem
  · rw [length_contents, read_used, List.length_drop, length_contents]
  · intro i h1 h2
    rw [length_contents, read_used] at h1
    rw [List.getElem_drop]
    simp only [contents, List.getElem_map, List.getElem_range]
    have hlen : min rbuf.used size = size := by omega
    unfold read
    split
    · simp only [hlen]
      congr 1
      rw [Nat.mod_add_mod, Nat.add_assoc]
    · have : size = 0 := by omega
      simp [this]

/-! ### Writing -/

theorem write_eq_some_iff (rbuf : RingBuffer) (data : List U8) :
    (∃ rbuf', rbuf.write data = some rbuf') ↔ data ≠ [] ∧ data.length ≤ rbuf.free := by
  unfold write
  have hpos : 0 < data.length ↔ data ≠ [] := List.length_pos_iff
  split
  · exact iff_of_true ⟨_, rfl⟩ (by rwa [← hpos])
  · rw [← hpos]
    exact iff_of_false (fun ⟨_, h⟩ => nomatch h) (by assumption)

/-- The two copies of a write that wraps are one walk round the array. -/
theorem copyTo_apply (rbuf : RingBuffer) {data : List U8} (hlen : data.length ≤ rbuf.free) (j : Nat)
    (hj : j < rbuf.size) :
    rbuf.copyTo data j =
      if rbuf.tail ≤ j ∧ j < rbuf.tail + data.length then data.getD (j - rbuf.tail) 0
      else if j + rbuf.size < rbuf.tail + data.length then data.getD (j + rbuf.size - rbuf.tail) 0
      else rbuf.buf j := by
  have ht := rbuf.tail_lt
  have hf := rbuf.used_add_free
  unfold copyTo
  split
  · simp only [copyIn, List.length_take, List.length_drop, List.getD_eq_getElem?_getD,
      List.getElem?_drop, List.getElem?_take]
    split <;> split <;> (try split) <;> (try split) <;> first | omega | rfl | (congr 2; omega)
  · simp only [copyIn]
    split <;> (try split) <;> first | rfl | omega

theorem write_used {rbuf rbuf' : RingBuffer} {data : List U8} (h : rbuf.write data = some rbuf') :
    rbuf'.used = rbuf.used + data.length ∧ rbuf'.size = rbuf.size := by
  have ht := rbuf.tail_lt
  have hf := rbuf.used_add_free
  have hc := rbuf.used_cases
  have hc' := rbuf'.used_cases
  have hl := rbuf'.used_lt
  unfold write at h
  split at h
  · rename_i hlen
    have hmod := mod_size (show rbuf.tail + data.length < 2 * rbuf.size by omega)
    cases h
    refine ⟨?_, rfl⟩
    simp only at hc' hl
    split at hmod <;> omega
  · cases h

/-- A write that passes its assertion puts the data behind the contents. -/
theorem write_contents {rbuf rbuf' : RingBuffer} {data : List U8} (h : rbuf.write data = some rbuf') :
    rbuf'.contents = rbuf.contents ++ data := by
  obtain ⟨hused, hsize⟩ := write_used h
  obtain ⟨-, hlen⟩ := (write_eq_some_iff rbuf data).mp ⟨_, h⟩
  have hh := rbuf.head_lt
  have ht := rbuf.tail_lt
  have hc := rbuf.used_cases
  have hf := rbuf.used_add_free
  have hhead : rbuf'.head = rbuf.head := by
    unfold write at h
    split at h <;> cases h
    rfl
  have hbuf : rbuf'.buf = rbuf.copyTo data := by
    unfold write at h
    split at h <;> cases h
    rfl
  apply List.ext_getElem
  · rw [length_contents, List.length_append, length_contents, hused]
  · intro i h1 h2
    rw [length_contents, hused] at h1
    rw [List.getElem_append]
    simp only [contents, List.length_map, List.length_range, List.getElem_map, List.getElem_range,
      hhead, hsize]
    rw [hbuf, copyTo_apply rbuf hlen _ (Nat.mod_lt _ rbuf.size_pos),
      mod_size (show rbuf.head + i < 2 * rbuf.size by omega)]
    by_cases hi : i < rbuf.used
    · simp only [hi, dite_true]
      split <;> split <;> (try split) <;> first | omega | rfl
    · simp only [hi, dite_false]
      have hget : ∀ k, k = i - rbuf.used → data.getD k 0 = data[i - rbuf.used] := by
        intro k heq
        subst heq
        rw [List.getD_eq_getElem?_getD, List.getElem?_eq_getElem (by omega), Option.getD_some]
      split <;> split <;> (try split) <;> first | omega | (apply hget; omega)

/-! ### What is copied -/

/-- The pieces of the array, by offset and length, that `len` bytes from `off` on are
copied in: two where they run over the end. -/
def pieces (rbuf : RingBuffer) (off len : Nat) : List (Nat × Nat) :=
  if rbuf.size < off + len then [(off, rbuf.size - off), (0, len - (rbuf.size - off))]
  else [(off, len)]

/-- `data` into the pieces, one after the other. -/
def copyPieces : List (Nat × Nat) → List U8 → (Nat → U8) → Nat → U8
  | [], _, buf => buf
  | piece :: rest, data, buf =>
    copyPieces rest (data.drop piece.2) (copyIn buf piece.1 (data.take piece.2))

theorem copyFrom_pieces (rbuf : RingBuffer) (len : Nat) :
    rbuf.copyFrom len =
      (rbuf.pieces rbuf.head len).flatMap fun piece => copyOut rbuf.buf piece.1 piece.2 := by
  unfold copyFrom pieces
  split <;> simp

theorem copyTo_pieces (rbuf : RingBuffer) (data : List U8) :
    rbuf.copyTo data = copyPieces (rbuf.pieces rbuf.tail data.length) data rbuf.buf := by
  unfold copyTo pieces
  split
  · have hrest : (data.drop (rbuf.size - rbuf.tail)).take (data.length - (rbuf.size - rbuf.tail)) =
        data.drop (rbuf.size - rbuf.tail) := by
      rw [List.take_of_length_le (by rw [List.length_drop])]
    simp only [copyPieces, hrest]
  · simp only [copyPieces, List.take_length]

/-- No piece leaves the array, as long as no more is copied than it holds. -/
theorem pieces_inside (rbuf : RingBuffer) {off len : Nat} (hoff : off < rbuf.size)
    (hlen : len ≤ rbuf.size) : ∀ piece ∈ rbuf.pieces off len, piece.1 + piece.2 ≤ rbuf.size := by
  intro piece hpiece
  unfold pieces at hpiece
  split at hpiece
  · cases List.mem_cons.mp hpiece with
    | inl heq => subst heq; show off + (rbuf.size - off) ≤ rbuf.size; omega
    | inr hrest =>
      obtain rfl := List.mem_singleton.mp hrest
      show 0 + (len - (rbuf.size - off)) ≤ rbuf.size
      omega
  · obtain rfl := List.mem_singleton.mp hpiece
    show off + len ≤ rbuf.size
    omega

/-! ### Whole histories -/

/-- A buffer, with the bytes of all writes to it and of all reads from it so far. -/
structure History where
  rbuf : RingBuffer
  written : List U8
  returned : List U8

inductive Call where
  | write (data : List U8)
  | read (size : Nat)

/-- A call; a write that fails the assertion is none. -/
def History.step (s : History) : Call → Option History
  | .write data =>
    (s.rbuf.write data).map fun rbuf => { s with rbuf, written := s.written ++ data }
  | .read size =>
    some { s with
      rbuf := (s.rbuf.read size).2
      returned := s.returned ++ (s.rbuf.read size).1 }

/-- A fresh buffer of `n` bytes. -/
def History.start (n : Nat) : History := ⟨alloc n, [], []⟩

/-- What holds of a buffer of `n` bytes and the calls on it. -/
structure Fifo (n : Nat) (s : History) : Prop where
  size : s.rbuf.size = n + 1
  head_le : s.rbuf.head ≤ n
  tail_le : s.rbuf.tail ≤ n
  used_free : s.rbuf.used + s.rbuf.free = n
  queue : s.returned ++ s.rbuf.contents = s.written
  -- A read copies what it returns from inside the array.
  read_length : ∀ size, (s.rbuf.read size).1.length = min s.rbuf.used size
  read_copies : ∀ size, (s.rbuf.read size).1 =
    (s.rbuf.pieces s.rbuf.head (min s.rbuf.used size)).flatMap fun piece =>
      copyOut s.rbuf.buf piece.1 piece.2
  read_inside : ∀ size, ∀ piece ∈ s.rbuf.pieces s.rbuf.head (min s.rbuf.used size),
    piece.1 + piece.2 ≤ n + 1
  -- A write that may be made is made, and copies its data to inside the array.
  write_copies : ∀ data, 0 < data.length → data.length ≤ s.rbuf.free →
    ∃ rbuf', s.rbuf.write data = some rbuf' ∧
      rbuf'.buf = copyPieces (s.rbuf.pieces s.rbuf.tail data.length) data s.rbuf.buf
  write_inside : ∀ data : List U8, data.length ≤ s.rbuf.free →
    ∀ piece ∈ s.rbuf.pieces s.rbuf.tail data.length, piece.1 + piece.2 ≤ n + 1

theorem read_copied (rbuf : RingBuffer) (size : Nat) :
    (rbuf.read size).1 = rbuf.copyFrom (min rbuf.used size) := by
  unfold read
  split
  · rfl
  · rename_i hlen
    have hzero : min rbuf.used size = 0 := by omega
    rw [hzero, copyFrom_eq rbuf (Nat.zero_le _), List.range_zero, List.map_nil]

/-- Everything but the queue is a matter of the buffer alone. -/
theorem Fifo.of_queue {n : Nat} {s : History} (hsize : s.rbuf.size = n + 1)
    (hqueue : s.returned ++ s.rbuf.contents = s.written) : Fifo n s where
  size := hsize
  head_le := by
    have := s.rbuf.head_lt
    omega
  tail_le := by
    have := s.rbuf.tail_lt
    omega
  used_free := by
    have := s.rbuf.used_add_free
    omega
  queue := hqueue
  read_length size := by rw [read_out, List.length_take, length_contents, Nat.min_comm]
  read_copies size := by rw [read_copied, copyFrom_pieces]
  read_inside size := by
    have := s.rbuf.used_lt
    rw [← hsize]
    exact s.rbuf.pieces_inside s.rbuf.head_lt (by omega)
  write_copies data hpos hfree := by
    refine ⟨_, if_pos ⟨hpos, hfree⟩, ?_⟩
    exact copyTo_pieces s.rbuf data
  write_inside data hfree := by
    have := s.rbuf.used_add_free
    rw [← hsize]
    exact s.rbuf.pieces_inside s.rbuf.tail_lt (by omega)

theorem fifo_start (n : Nat) : Fifo n (.start n) :=
  .of_queue rfl (contents_alloc n)

theorem Fifo.step {n : Nat} (s : History) (call : Call) (s' : History) (h : Fifo n s)
    (hstep : s.step call = some s') : Fifo n s' := by
  cases call with
  | write data =>
    obtain ⟨rbuf', hwrite, rfl⟩ := Option.map_eq_some_iff.mp hstep
    refine .of_queue ((write_used hwrite).2.trans h.size) ?_
    show s.returned ++ rbuf'.contents = s.written ++ data
    rw [write_contents hwrite, ← List.append_assoc, h.queue]
  | read size =>
    obtain rfl := Option.some.inj hstep
    refine .of_queue ((read_size s.rbuf size).trans h.size) ?_
    show s.returned ++ (s.rbuf.read size).1 ++ (s.rbuf.read size).2.contents = s.written
    rw [read_out, read_contents, List.append_assoc, List.take_append_drop, h.queue]

/-- **A bounded queue.** In every state of every history of a buffer of `n` bytes, both
positions are inside the array and so is every range a call copies, used and free bytes
add up to `n`, a read returns as many bytes as there are up to what it asks for, and the
bytes read so far followed by the contents are the bytes written so far. -/
theorem bounded_fifo (n : Nat) (calls : List Call) :
    Throughout (fun s call s' => History.step s call = some s') (Fifo n) (.start n) calls :=
  Throughout.of_invariant Fifo.step (fifo_start n) calls

end RingBuffer

end NetStack.Tcp
