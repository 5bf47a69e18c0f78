import NetStack.Lib.Serial
import NetStack.Lib.StableInsert
import Mathlib.Data.List.Basic
import Mathlib.Data.List.Count

/-! Reassembly of a stream from pieces.

Pieces of a stream arrive in any order and with repetitions. A piece is its position and
its data. A reassembler delivers what joins on to what it has delivered, drops what
starts before that, and holds the rest sorted by position, equal positions in order of
arrival. After each arrival the held pieces are delivered from the front as long as they
join on; a piece at the front that does not is left there. -/
namespace NetStack

variable {α : Type}

/-- The state: the next position wanted, the pieces held, all that has been delivered. -/
structure Reassembly (α : Type) where
  next : Nat
  held : List (Nat × List α)
  out : List α

namespace Reassembly

/-- Into the held pieces, before the first that starts later. -/
def insert (piece : Nat × List α) : List (Nat × List α) → List (Nat × List α)
  | [] => [piece]
  | x :: rest => if piece.1 < x.1 then piece :: x :: rest else x :: insert piece rest

/-- Deliver from the front of the given pieces and hold the rest. -/
def drain (r : Reassembly α) : List (Nat × List α) → Reassembly α
  | [] => { r with held := [] }
  | x :: rest =>
    if x.1 = r.next then drain { r with next := r.next + x.2.length, out := r.out ++ x.2 } rest
    else { r with held := x :: rest }

/-- A piece arrives. -/
def arrive (r : Reassembly α) (piece : Nat × List α) : Reassembly α :=
  if piece.1 < r.next then r else r.drain (insert piece r.held)

theorem insert_eq (piece : Nat × List α) (l : List (Nat × List α)) :
    insert piece l = StableInsert.insert (fun x y => decide (x.1 < y.1)) piece l := by
  induction l with
  | nil => rfl
  | cons x rest ih => simp only [insert, StableInsert.insert, ih, decide_eq_true_eq]

theorem mem_insert {piece x : Nat × List α} {l : List (Nat × List α)} :
    x ∈ insert piece l ↔ x = piece ∨ x ∈ l := by
  rw [insert_eq, (StableInsert.insert_perm _ piece l).mem_iff, List.mem_cons]

/-- What is held after draining was there before. -/
theorem mem_drain_held {r : Reassembly α} {l : List (Nat × List α)} {x : Nat × List α}
    (h : x ∈ (r.drain l).held) : x ∈ l := by
  induction l generalizing r with
  | nil => exact h
  | cons y rest ih =>
    unfold drain at h
    split at h
    · exact List.mem_cons_of_mem y (ih h)
    · exact h

theorem mem_arrive_held {r : Reassembly α} {piece x : Nat × List α} (h : x ∈ (r.arrive piece).held) :
    x = piece ∨ x ∈ r.held := by
  unfold arrive at h
  split at h
  · exact .inr h
  · exact mem_insert.mp (mem_drain_held h)

/-- Draining moves the next position to the end of a piece it was given, if anywhere. -/
theorem drain_next (r : Reassembly α) (l : List (Nat × List α)) :
    (r.drain l).next = r.next ∨ ∃ x ∈ l, (r.drain l).next = x.1 + x.2.length := by
  induction l generalizing r with
  | nil => exact .inl rfl
  | cons y rest ih =>
    rw [drain]
    split
    · rename_i hy
      right
      rcases ih { r with next := r.next + y.2.length, out := r.out ++ y.2 } with hnext | ⟨x, hx, hnext⟩
      · exact ⟨y, List.mem_cons_self .., hnext.trans (by rw [hy])⟩
      · exact ⟨x, List.mem_cons_of_mem y hx, hnext⟩
    · exact .inl rfl

theorem arrive_next (r : Reassembly α) (piece : Nat × List α) :
    (r.arrive piece).next = r.next ∨
      ∃ x, (x = piece ∨ x ∈ r.held) ∧ (r.arrive piece).next = x.1 + x.2.length := by
  unfold arrive
  split
  · exact .inl rfl
  · rcases drain_next r (insert piece r.held) with hnext | ⟨x, hx, hnext⟩
    · exact .inl hnext
    · exact .inr ⟨x, mem_insert.mp hx, hnext⟩

theorem next_le_drain (r : Reassembly α) (l : List (Nat × List α)) : r.next ≤ (r.drain l).next := by
  induction l generalizing r with
  | nil => exact le_rfl
  | cons y rest ih =>
    rw [drain]
    split
    · exact (Nat.le_add_right r.next y.2.length).trans
        (ih { r with next := r.next + y.2.length, out := r.out ++ y.2 })
    · exact le_rfl

/-- How far draining comes depends on where it starts alone. -/
theorem drain_next_congr {r r' : Reassembly α} (h : r'.next = r.next) (l : List (Nat × List α)) :
    (r'.drain l).next = (r.drain l).next := by
  induction l generalizing r r' with
  | nil => exact h
  | cons y rest ih =>
    rw [drain, drain, h]
    split
    · exact ih rfl
    · rfl

theorem next_le_arrive (r : Reassembly α) (piece : Nat × List α) : r.next ≤ (r.arrive piece).next := by
  unfold arrive
  split
  · exact le_rfl
  · exact next_le_drain r _

/-- Sorted by position. -/
def Ordered (l : List (Nat × List α)) : Prop := l.Pairwise fun x y => x.1 ≤ y.1

theorem Ordered.insert {piece : Nat × List α} {l : List (Nat × List α)} (h : Ordered l) :
    Ordered (insert piece l) := by
  rw [insert_eq]
  exact StableInsert.Ascending.insert h fun _ _ => rfl

/-- What has been delivered before plays no part in what follows. -/
theorem drain_append_out (r : Reassembly α) (o : List α) (l : List (Nat × List α)) :
    drain { r with out := o ++ r.out } l = { r.drain l with out := o ++ (r.drain l).out } := by
  induction l generalizing r with
  | nil => rfl
  | cons x rest ih =>
    simp only [drain]
    split
    · rw [← ih, List.append_assoc]
    · rfl

theorem arrive_append_out (r : Reassembly α) (o : List α) (piece : Nat × List α) :
    arrive { r with out := o ++ r.out } piece =
      { r.arrive piece with out := o ++ (r.arrive piece).out } := by
  unfold arrive
  split
  · rfl
  · exact drain_append_out r o _

/-! ### What is delivered -/

/-- The data lies in the stream at position `p`. -/
def Sits (stream : Nat → Option α) (p : Nat) (data : List α) : Prop :=
  ∀ i (h : i < data.length), stream (p + i) = some data[i]

theorem Sits.append {stream : Nat → Option α} {p : Nat} {d e : List α} (hd : Sits stream p d)
    (he : Sits stream (p + d.length) e) : Sits stream p (d ++ e) := by
  intro i hi
  rw [List.getElem_append]
  split
  · exact hd i _
  · rename_i hge
    rw [List.length_append] at hi
    rw [← he (i - d.length) (by omega)]
    congr 1
    omega

theorem Sits.nil (stream : Nat → Option α) (p : Nat) : Sits stream p [] := fun i h => by simp at h

/-- All that has been delivered is the stream from `start` to the next position, and the
pieces held are pieces of the stream. -/
structure Faithful (stream : Nat → Option α) (start : Nat) (r : Reassembly α) : Prop where
  next : r.next = start + r.out.length
  out : Sits stream start r.out
  held : ∀ x ∈ r.held, Sits stream x.1 x.2

theorem Faithful.drain {stream : Nat → Option α} {start : Nat} {r : Reassembly α}
    {l : List (Nat × List α)} (h : Faithful stream start r) (hl : ∀ x ∈ l, Sits stream x.1 x.2) :
    Faithful stream start (r.drain l) := by
  induction l generalizing r with
  | nil => exact ⟨h.next, h.out, by simp [Reassembly.drain]⟩
  | cons x rest ih =>
    unfold Reassembly.drain
    split
    · rename_i hx
      have hsits := hl x (List.mem_cons_self ..)
      refine ih ⟨?_, ?_, h.held⟩ fun y hy => hl y (List.mem_cons_of_mem x hy)
      · show r.next + x.2.length = start + (r.out ++ x.2).length
        rw [h.next, List.length_append, Nat.add_assoc]
      · apply h.out.append
        rw [← h.next, ← hx]
        exact hsits
    · exact ⟨h.next, h.out, hl⟩

/-- The arrival of a piece of the stream keeps the delivery faithful. -/
theorem Faithful.arrive {stream : Nat → Option α} {start : Nat} {r : Reassembly α}
    {piece : Nat × List α} (h : Faithful stream start r) (hp : Sits stream piece.1 piece.2) :
    Faithful stream start (r.arrive piece) := by
  unfold Reassembly.arrive
  split
  · exact h
  · apply h.drain
    intro x hx
    rcases mem_insert.mp hx with rfl | hx
    · exact hp
    · exact h.held x hx

/-! ### Pieces within the range of serial numbers -/

/-- The pieces held are sorted, short, and near the next position. -/
structure Window (w : Nat) (r : Reassembly α) : Prop where
  ordered : Ordered r.held
  short : ∀ x ∈ r.held, 2 * x.2.length < 2 ^ w
  near : ∀ x ∈ r.held, Serial.Near w x.1 r.next

/-- A piece fits: it spans less than half the range, and lies near the next position and
near every piece held. -/
structure Fits (w : Nat) (r : Reassembly α) (piece : Nat × List α) : Prop where
  short : 2 * piece.2.length < 2 ^ w
  next : Serial.Near w piece.1 r.next
  held : ∀ x ∈ r.held, Serial.Near w piece.1 x.1

/-- Delivering a short piece from the front keeps the later ones near. -/
theorem near_advance {w n p len : Nat} (hn : n ≤ p) (hnear : Serial.Near w p n)
    (hlen : 2 * len < 2 ^ w) : Serial.Near w p (n + len) := by
  obtain ⟨h1, h2⟩ := hnear
  constructor <;> omega

theorem Window.drain {w : Nat} {r : Reassembly α} {l : List (Nat × List α)} (ho : Ordered l)
    (hshort : ∀ x ∈ l, 2 * x.2.length < 2 ^ w) (hnear : ∀ x ∈ l, Serial.Near w x.1 r.next) :
    Window w (r.drain l) := by
  induction l generalizing r with
  | nil => exact ⟨List.Pairwise.nil, by simp [Reassembly.drain], by simp [Reassembly.drain]⟩
  | cons x rest ih =>
    obtain ⟨hx, hrest⟩ := List.pairwise_cons.mp ho
    unfold Reassembly.drain
    split
    · rename_i heq
      refine ih hrest (fun y hy => hshort y (List.mem_cons_of_mem x hy)) ?_
      intro y hy
      exact near_advance (heq ▸ hx y hy) (hnear y (List.mem_cons_of_mem x hy))
        (hshort x (List.mem_cons_self ..))
    · exact ⟨ho, hshort, hnear⟩

/-- The arrival of a piece that fits keeps the pieces held sorted, short and near. -/
theorem Window.arrive {w : Nat} {r : Reassembly α} {piece : Nat × List α} (h : Window w r)
    (hfits : Fits w r piece) : Window w (r.arrive piece) := by
  unfold Reassembly.arrive
  split
  · exact h
  · apply Window.drain h.ordered.insert
    · intro x hx
      rcases mem_insert.mp hx with rfl | hx
      · exact hfits.short
      · exact h.short x hx
    · intro x hx
      rcases mem_insert.mp hx with rfl | hx
      · exact hfits.next
      · exact h.near x hx

/-! ### Completeness

The stream is cut into pieces `0, 1, 2, …`, and the arrivals are given by their numbers.
While a repeated piece only arrives when all before it have arrived, nothing is ever held
twice, and what is held is what has arrived beyond the first missing piece. Otherwise a
piece is held twice, its second copy is overtaken by the first, and it stays at the front
for good. -/

/-- A cut of a stream into non-empty pieces, each starting where the one before ends. -/
structure Cut (α : Type) where
  start : Nat → Nat
  data : Nat → List α
  start_succ : ∀ i, start (i + 1) = start i + (data i).length
  data_ne : ∀ i, data i ≠ []

/-- Each piece that repeats comes only after everything before it. -/
def RepeatsLate (arrivals : List Nat) : Prop :=
  ∀ pre i post, arrivals = pre ++ i :: post → i ∈ pre → ∀ j < i, j ∈ pre

theorem repeatsLate_snoc {l : List Nat} {i : Nat} :
    RepeatsLate (l ++ [i]) ↔ RepeatsLate l ∧ (i ∈ l → ∀ j < i, j ∈ l) := by
  constructor
  · intro h
    refine ⟨fun pre k post hl => h pre k (post ++ [i]) (by simp [hl]), h l i [] rfl⟩
  · intro hyp pre k post heq
    obtain ⟨hl, hi⟩ := hyp
    rcases List.eq_nil_or_concat post with rfl | ⟨post', z, rfl⟩
    · obtain ⟨rfl, hk⟩ := List.append_inj' heq rfl
      cases hk
      exact hi
    · have hcons : l ++ [i] = (pre ++ k :: post') ++ [z] := by simpa using heq
      obtain ⟨rfl, -⟩ := List.append_inj' hcons rfl
      exact hl pre k post' rfl

namespace Cut

variable (cut : Cut α)

/-- The piece with number `i`. -/
def piece (i : Nat) : Nat × List α := (cut.start i, cut.data i)

theorem start_lt_succ (i : Nat) : cut.start i < cut.start (i + 1) := by
  rw [cut.start_succ]
  have := List.length_pos_iff.mpr (cut.data_ne i)
  omega

theorem start_strictMono : StrictMono cut.start := strictMono_nat_of_lt_succ cut.start_lt_succ

theorem start_lt_iff {i j : Nat} : cut.start i < cut.start j ↔ i < j := cut.start_strictMono.lt_iff_lt

theorem start_inj {i j : Nat} : cut.start i = cut.start j ↔ i = j :=
  cut.start_strictMono.injective.eq_iff

/-- `insert` on the numbers of the pieces. -/
def insertNum (i : Nat) : List Nat → List Nat
  | [] => [i]
  | j :: rest => if i < j then i :: j :: rest else j :: insertNum i rest

theorem insert_piece (i : Nat) (l : List Nat) :
    Reassembly.insert (cut.piece i) (l.map cut.piece) = (insertNum i l).map cut.piece := by
  induction l with
  | nil => rfl
  | cons j rest ih =>
    simp only [List.map_cons, Reassembly.insert, insertNum, piece, start_lt_iff]
    split
    · rfl
    · rw [List.map_cons, ← ih]
      rfl

theorem insertNum_eq (i : Nat) (l : List Nat) :
    insertNum i l = StableInsert.insert (fun j k => decide (j < k)) i l := by
  induction l with
  | nil => rfl
  | cons j rest ih => simp only [insertNum, StableInsert.insert, ih, decide_eq_true_eq]

theorem insertNum_perm (i : Nat) (l : List Nat) : (insertNum i l).Perm (i :: l) := by
  rw [insertNum_eq]
  exact StableInsert.insert_perm _ i l

theorem insertNum_sorted {i : Nat} {l : List Nat} (h : l.Pairwise (· ≤ ·)) :
    (insertNum i l).Pairwise (· ≤ ·) := by
  rw [insertNum_eq]
  have hlist : StableInsert.Ascending id l := h
  exact hlist.insert fun _ _ => rfl

/-- The reassembler wants piece `k` and holds the pieces `l`. -/
structure At (r : Reassembly α) (k : Nat) (l : List Nat) : Prop where
  next : r.next = cut.start k
  held : r.held = l.map cut.piece
  sorted : l.Pairwise (· ≤ ·)

/-- Nothing is held twice, and what is held is what was seen beyond the first missing
piece. -/
def Tidy (r : Reassembly α) (seen : List Nat) : Prop :=
  ∃ k l, cut.At r k l ∧ l.Nodup ∧ (∀ i, i ∈ l ↔ i ∈ seen ∧ k < i) ∧ (∀ i < k, i ∈ seen) ∧ k ∉ seen

/-- A piece still to come is held twice, or one already delivered is held. -/
def Blocked (r : Reassembly α) : Prop :=
  ∃ k l, cut.At r k l ∧ ((∃ i, k ≤ i ∧ 2 ≤ l.count i) ∨ ∃ i ∈ l, i < k)

variable {cut}

/-- Draining from piece `k` on: without repetitions it stops at a missing piece. -/
theorem At.drain_tidy {r : Reassembly α} {k : Nat} {l : List Nat} (hn : r.next = cut.start k)
    (hs : l.Pairwise (· ≤ ·)) (hd : l.Nodup) (hk : ∀ i ∈ l, k ≤ i) :
    ∃ k' l', cut.At (r.drain (l.map cut.piece)) k' l' ∧ l'.Nodup ∧ k ≤ k' ∧ k' ∉ l ∧
      (∀ i, k ≤ i → i < k' → i ∈ l) ∧ ∀ i, i ∈ l' ↔ i ∈ l ∧ k' < i := by
  induction l generalizing r k with
  | nil =>
    exact ⟨k, [], ⟨hn, rfl, List.Pairwise.nil⟩, List.nodup_nil, le_refl k, by simp,
      fun i h1 h2 => absurd h1 (by omega), by simp⟩
  | cons j rest ih =>
    obtain ⟨hj, hrest⟩ := List.pairwise_cons.mp hs
    obtain ⟨hnot, hdrest⟩ := List.nodup_cons.mp hd
    have hkj := hk j (List.mem_cons_self ..)
    rw [List.map_cons, Reassembly.drain]
    split
    · rename_i heq
      have hjk : j = k := cut.start_inj.mp (heq.trans hn)
      subst hjk
      have hgt : ∀ i ∈ rest, j + 1 ≤ i := fun i hi =>
        Nat.lt_of_le_of_ne (hj i hi) fun h => hnot (h ▸ hi)
      have hnext : r.next + (cut.data j).length = cut.start (j + 1) := by rw [hn, cut.start_succ]
      obtain ⟨k', l', hat, hd', hle, hk', hrange, hmem⟩ :=
        ih (r := { r with next := r.next + (cut.data j).length, out := r.out ++ cut.data j })
          hnext hrest hdrest hgt
      refine ⟨k', l', hat, hd', by omega, ?_, ?_, ?_⟩
      · simp only [List.mem_cons, not_or]
        exact ⟨by omega, hk'⟩
      · intro i h1 h2
        rcases Nat.eq_or_lt_of_le h1 with rfl | h1
        · exact List.mem_cons_self ..
        · exact List.mem_cons_of_mem j (hrange i h1 h2)
      · intro i
        rw [hmem i, List.mem_cons]
        constructor
        · intro hyp
          obtain ⟨hi, hlt⟩ := hyp
          exact ⟨.inr hi, hlt⟩
        · intro hyp
          rcases hyp with ⟨rfl | hi, hlt⟩
          · omega
          · exact ⟨hi, hlt⟩
    · rename_i hne
      have hlt : k < j := Nat.lt_of_le_of_ne hkj fun h => hne (by rw [hn, h]; rfl)
      have hall : ∀ i ∈ j :: rest, k < i := by
        intro i hi
        rcases List.mem_cons.mp hi with rfl | hi
        · exact hlt
        · exact hlt.trans_le (hj i hi)
      refine ⟨k, j :: rest, ⟨hn, rfl, hs⟩, hd, le_refl k, fun h => ?_, ?_, ?_⟩
      · exact absurd (hall k h) (lt_irrefl k)
      · intro i h1 h2
        omega
      · intro i
        exact ⟨fun hi => ⟨hi, hall i hi⟩, fun h => h.1⟩

/-- A blocked list stays blocked when it is drained. -/
theorem At.drain_blocked {r : Reassembly α} {k : Nat} {l : List Nat} (hn : r.next = cut.start k)
    (hs : l.Pairwise (· ≤ ·)) (hb : (∃ i, k ≤ i ∧ 2 ≤ l.count i) ∨ ∃ i ∈ l, i < k) :
    cut.Blocked (r.drain (l.map cut.piece)) := by
  induction l generalizing r k with
  | nil => simp at hb
  | cons j rest ih =>
    obtain ⟨hj, hrest⟩ := List.pairwise_cons.mp hs
    rw [List.map_cons, Reassembly.drain]
    split
    · rename_i heq
      have hjk : j = k := cut.start_inj.mp (heq.trans hn)
      subst hjk
      have hnext : r.next + (cut.data j).length = cut.start (j + 1) := by rw [hn, cut.start_succ]
      apply ih (r := { r with next := r.next + (cut.data j).length, out := r.out ++ cut.data j })
        hnext hrest
      rcases hb with ⟨i, hi, hcount⟩ | ⟨i, hi, hlt⟩
      · rcases Nat.eq_or_lt_of_le hi with rfl | hi
        · -- the second copy of the piece just delivered is overtaken
          right
          rw [List.count_cons_self] at hcount
          exact ⟨j, List.count_pos_iff.mp (by omega), Nat.lt_succ_self j⟩
        · left
          rw [List.count_cons_of_ne (by omega)] at hcount
          exact ⟨i, hi, hcount⟩
      · rcases List.mem_cons.mp hi with rfl | hi
        · omega
        · exact absurd (hj i hi) (by omega)
    · exact ⟨k, j :: rest, ⟨hn, rfl, hs⟩, hb⟩

/-- It is which pieces have been seen that matters. -/
theorem Tidy.congr {r : Reassembly α} {seen seen' : List Nat} (h : cut.Tidy r seen)
    (hsame : ∀ i, i ∈ seen' ↔ i ∈ seen) : cut.Tidy r seen' := by
  obtain ⟨k, l, hat, hd, hmem, hbelow, hk⟩ := h
  have hk' : k ∉ seen' := fun hseen => hk ((hsame k).mp hseen)
  refine ⟨k, l, hat, hd, fun i => ?_, fun i hi => (hsame i).mpr (hbelow i hi), hk'⟩
  rw [hmem i, hsame i]

/-- An arrival of a piece that is new, or old with all before it seen, keeps things tidy. -/
theorem Tidy.arrive {r : Reassembly α} {seen : List Nat} {i : Nat} (h : cut.Tidy r seen)
    (hi : i ∈ seen → ∀ j < i, j ∈ seen) : cut.Tidy (r.arrive (cut.piece i)) (seen ++ [i]) := by
  have htidy := h
  obtain ⟨k, l, hat, hd, hmem, hbelow, hk⟩ := h
  unfold Reassembly.arrive
  split
  · rename_i hlt
    have hseen : i ∈ seen := hbelow i (cut.start_lt_iff.mp (hat.next ▸ hlt))
    apply htidy.congr
    intro j
    rw [List.mem_append, List.mem_singleton]
    exact ⟨fun hj => hj.elim id fun heq => heq ▸ hseen, .inl⟩
  · rename_i hge
    have hki : k ≤ i := Nat.le_of_not_lt fun h => hge (hat.next ▸ cut.start_lt_iff.mpr h)
    have hnew : i ∉ seen := by
      intro hseen
      rcases Nat.eq_or_lt_of_le hki with rfl | hlt
      · exact hk hseen
      · exact hk (hi hseen k hlt)
    have hperm := insertNum_perm i l
    have hnl : i ∉ l := fun h => hnew ((hmem i).mp h).1
    rw [hat.held, insert_piece]
    obtain ⟨k', l', hat', hd', hle, hk', hrange, hmem'⟩ :=
      At.drain_tidy hat.next (insertNum_sorted (i := i) hat.sorted)
        (hperm.nodup_iff.mpr (List.nodup_cons.mpr ⟨hnl, hd⟩))
        (fun j hj => by
          rcases List.mem_cons.mp (hperm.mem_iff.mp hj) with rfl | hj
          · exact hki
          · exact ((hmem j).mp hj).2.le)
    have hins : ∀ j, j ∈ insertNum i l ↔ (j = i ∨ (j ∈ seen ∧ k < j)) := fun j => by
      rw [hperm.mem_iff, List.mem_cons, hmem j]
    refine ⟨k', l', hat', hd', ?_, ?_, ?_⟩
    · intro j
      rw [hmem' j, hins j, List.mem_append, List.mem_singleton]
      constructor
      · intro hyp
        rcases hyp with ⟨rfl | ⟨hj, -⟩, hlt⟩
        · exact ⟨.inr rfl, hlt⟩
        · exact ⟨.inl hj, hlt⟩
      · intro hyp
        rcases hyp with ⟨hj | rfl, hlt⟩
        · exact ⟨.inr ⟨hj, by omega⟩, hlt⟩
        · exact ⟨.inl rfl, hlt⟩
    · intro j hj
      by_cases hjk : j < k
      · exact List.mem_append_left _ (hbelow j hjk)
      · rcases (hins j).mp (hrange j (by omega) hj) with rfl | ⟨hj, -⟩
        · simp
        · exact List.mem_append_left _ hj
    · rw [List.mem_append, List.mem_singleton]
      intro hyp
      rcases hyp with hseen | rfl
      · rcases Nat.eq_or_lt_of_le hle with rfl | hlt
        · exact hk hseen
        · exact hk' ((hins k').mpr (.inr ⟨hseen, hlt⟩))
      · exact hk' ((hins k').mpr (.inl rfl))

/-- Once blocked, always blocked. -/
theorem Blocked.arrive {r : Reassembly α} (h : cut.Blocked r) (i : Nat) :
    cut.Blocked (r.arrive (cut.piece i)) := by
  obtain ⟨k, l, hat, hb⟩ := h
  unfold Reassembly.arrive
  split
  · exact ⟨k, l, hat, hb⟩
  · have hperm := insertNum_perm i l
    rw [hat.held, insert_piece]
    apply At.drain_blocked hat.next (insertNum_sorted hat.sorted)
    rcases hb with ⟨j, hj, hcount⟩ | ⟨j, hj, hlt⟩
    · left
      refine ⟨j, hj, ?_⟩
      rw [hperm.count_eq, List.count_cons]
      omega
    · right
      exact ⟨j, hperm.mem_iff.mpr (List.mem_cons_of_mem i hj), hlt⟩

/-- A repeated piece that comes before something missing blocks the reassembler. -/
theorem Tidy.block {r : Reassembly α} {seen : List Nat} {i j : Nat} (h : cut.Tidy r seen)
    (hi : i ∈ seen) (hji : j < i) (hj : j ∉ seen) : cut.Blocked (r.arrive (cut.piece i)) := by
  obtain ⟨k, l, hat, -, hmem, hbelow, -⟩ := h
  have hki : k < i := by
    have : ¬j < k := fun hjk => hj (hbelow j hjk)
    omega
  have hil : i ∈ l := (hmem i).mpr ⟨hi, hki⟩
  unfold Reassembly.arrive
  split
  · rename_i hlt
    exact absurd (cut.start_lt_iff.mp (hat.next ▸ hlt)) (by omega)
  · rw [hat.held, insert_piece]
    apply At.drain_blocked hat.next (insertNum_sorted hat.sorted)
    left
    refine ⟨i, hki.le, ?_⟩
    rw [(insertNum_perm i l).count_eq, List.count_cons_self]
    have := List.count_pos_iff.mpr hil
    omega

/-- All the arrivals, one after the other. -/
def arriveAll (cut : Cut α) (r : Reassembly α) (arrivals : List Nat) : Reassembly α :=
  arrivals.foldl (fun r i => r.arrive (cut.piece i)) r

theorem arriveAll_snoc (r : Reassembly α) (l : List Nat) (i : Nat) :
    cut.arriveAll r (l ++ [i]) = (cut.arriveAll r l).arrive (cut.piece i) := by
  simp [arriveAll]

/-- From the start, arrivals leave things tidy exactly as long as repeats come late. -/
theorem arriveAll_cases {r : Reassembly α} (hnext : r.next = cut.start 0) (hheld : r.held = [])
    (arrivals : List Nat) :
    (RepeatsLate arrivals → cut.Tidy (cut.arriveAll r arrivals) arrivals) ∧
      (¬RepeatsLate arrivals → cut.Blocked (cut.arriveAll r arrivals)) := by
  induction arrivals using List.reverseRecOn with
  | nil =>
    refine ⟨fun _ => ⟨0, [], ⟨hnext, hheld, List.Pairwise.nil⟩, List.nodup_nil, by simp, by simp, by simp⟩,
      fun h => absurd ?_ h⟩
    intro pre i post hl
    simp at hl
  | append_singleton l i ih =>
    rw [arriveAll_snoc, repeatsLate_snoc]
    constructor
    · intro hyp
      obtain ⟨hl, hi⟩ := hyp
      exact (ih.1 hl).arrive hi
    · intro hnot
      by_cases hl : RepeatsLate l
      · have hex : ¬(i ∈ l → ∀ j < i, j ∈ l) := fun h => hnot ⟨hl, h⟩
        push Not at hex
        obtain ⟨hi, j, hji, hj⟩ := hex
        exact (ih.1 hl).block hi hji hj
      · exact (ih.2 hl).arrive i

/-- **Completeness.** When all of the first `n` pieces and no others have arrived, the
reassembler wants piece `n` and holds nothing, exactly if every repeat came late. -/
theorem complete_iff {r : Reassembly α} (hnext : r.next = cut.start 0) (hheld : r.held = []) {n : Nat}
    {arrivals : List Nat} (hall : ∀ i, i ∈ arrivals ↔ i < n) :
    ((cut.arriveAll r arrivals).next = cut.start n ∧ (cut.arriveAll r arrivals).held = []) ↔
      RepeatsLate arrivals := by
  obtain ⟨htidy, hblocked⟩ := arriveAll_cases hnext hheld arrivals
  constructor
  · intro hyp
    obtain ⟨hn, hh⟩ := hyp
    by_contra hnot
    obtain ⟨k, l, hat, hb⟩ := hblocked hnot
    have hnil : l = [] := List.map_eq_nil_iff.mp (hat.held ▸ hh)
    simp [hnil] at hb
  · intro hlate
    obtain ⟨k, l, hat, -, hmem, hbelow, hk⟩ := htidy hlate
    have hkn : k = n := by
      have h1 : ¬k < n := fun h => hk ((hall k).mpr h)
      have h2 : ¬n < k := fun h => absurd ((hall n).mp (hbelow n h)) (lt_irrefl n)
      omega
    have hnil : l = [] := by
      apply List.eq_nil_iff_forall_not_mem.mpr
      intro i hi
      obtain ⟨hseen, hlt⟩ := (hmem i).mp hi
      have := (hall i).mp hseen
      omega
    exact ⟨hat.next.trans (by rw [hkn]), by rw [hat.held, hnil, List.map_nil]⟩

/-! ### What the pieces amount to -/

/-- The stream up to piece `k`. -/
def bytes (cut : Cut α) (k : Nat) : List α := (List.range k).flatMap cut.data

theorem bytes_succ (k : Nat) : cut.bytes (k + 1) = cut.bytes k ++ cut.data k := by
  simp [bytes, List.range_succ]

/-- Of the first `n` pieces, the first `k` have been delivered and some are held. -/
structure Delivering (cut : Cut α) (n k : Nat) (r : Reassembly α) : Prop where
  le : k ≤ n
  next : r.next = cut.start k
  out : r.out = cut.bytes k
  held : ∀ x ∈ r.held, ∃ i < n, x = cut.piece i

theorem Delivering.drain {n k : Nat} {r : Reassembly α} {l : List (Nat × List α)}
    (h : cut.Delivering n k r) (hl : ∀ x ∈ l, ∃ i < n, x = cut.piece i) :
    ∃ k', cut.Delivering n k' (r.drain l) := by
  induction l generalizing r k with
  | nil => exact ⟨k, h.le, h.next, h.out, by simp [Reassembly.drain]⟩
  | cons x rest ih =>
    unfold Reassembly.drain
    split
    · rename_i hx
      obtain ⟨i, hi, rfl⟩ := hl x (List.mem_cons_self ..)
      obtain rfl : i = k := cut.start_inj.mp (hx.trans h.next)
      have hstep : cut.Delivering n (i + 1) { r with
          next := r.next + (cut.piece i).2.length, out := r.out ++ (cut.piece i).2 } := by
        refine ⟨hi, ?_, ?_, h.held⟩
        · rw [cut.start_succ, ← h.next]
          rfl
        · rw [bytes_succ, ← h.out]
          rfl
      exact ih hstep fun y hy => hl y (List.mem_cons_of_mem _ hy)
    · exact ⟨k, h.le, h.next, h.out, hl⟩

theorem Delivering.arrive {n k i : Nat} {r : Reassembly α} (h : cut.Delivering n k r) (hi : i < n) :
    ∃ k', cut.Delivering n k' (r.arrive (cut.piece i)) := by
  unfold Reassembly.arrive
  split
  · exact ⟨k, h⟩
  · apply h.drain
    intro x hx
    rcases mem_insert.mp hx with rfl | hx
    · exact ⟨i, hi, rfl⟩
    · exact h.held x hx

/-- Where the pieces span less than half the range of serial numbers, each of them fits. -/
theorem Delivering.fits {n k i w : Nat} {r : Reassembly α} (h : cut.Delivering n k r) (hi : i < n)
    (hspan : 2 * cut.start n < 2 * cut.start 0 + 2 ^ w) : Fits w r (cut.piece i) := by
  have hmono := cut.start_strictMono.monotone
  have hlast : cut.start (i + 1) ≤ cut.start n := hmono hi
  have hlen := cut.start_succ i
  have hi0 : cut.start 0 ≤ cut.start i := hmono (Nat.zero_le i)
  have hk0 : cut.start 0 ≤ cut.start k := hmono (Nat.zero_le k)
  have hkn : cut.start k ≤ cut.start n := hmono h.le
  refine ⟨?_, ?_, ?_⟩
  · show 2 * (cut.data i).length < 2 ^ w
    omega
  · show Serial.Near w (cut.start i) r.next
    rw [h.next]
    constructor <;> omega
  · intro x hx
    obtain ⟨j, hj, rfl⟩ := h.held x hx
    show Serial.Near w (cut.start i) (cut.start j)
    have hj0 : cut.start 0 ≤ cut.start j := hmono (Nat.zero_le j)
    have hjn : cut.start j ≤ cut.start n := hmono hj.le
    constructor <;> omega

end Cut

end Reassembly

end NetStack
