import NetStack.Lib.Reassembly
import Mathlib.Data.List.Duplicate

/-! When a reassembler jams.

The pieces that arrive overlap nowhere, but may be repeated. A piece held twice is
overtaken by its second copy: the first is delivered, and the second stays in front,
behind the next position, for good (`Stuck.arrive`). Nothing else stops a reassembler: as
long as whatever lies behind the next position, or is held twice, ends at `e`, a wanted
piece moves it on, up to `e` (`ClearUpto.arrive`). -/
namespace NetStack.Reassembly

variable {α : Type}

/-- Non-empty pieces, any two of them the same or one behind the other. -/
structure Disjoint (l : List (Nat × List α)) : Prop where
  nonempty : ∀ x ∈ l, x.2 ≠ []
  apart : ∀ x ∈ l, ∀ y ∈ l, x = y ∨ x.1 + x.2.length ≤ y.1 ∨ y.1 + y.2.length ≤ x.1

theorem Disjoint.subset {l l' : List (Nat × List α)} (h : Disjoint l) (hsub : l' ⊆ l) : Disjoint l' :=
  ⟨fun x hx => h.nonempty x (hsub hx), fun x hx y hy => h.apart x (hsub hx) y (hsub hy)⟩

theorem Disjoint.pos {l : List (Nat × List α)} (h : Disjoint l) {x : Nat × List α} (hx : x ∈ l) :
    0 < x.2.length := List.length_pos_iff.mpr (h.nonempty x hx)

/-- Of two pieces one starts where the other does or behind its end. -/
theorem Disjoint.eq_or_behind {l : List (Nat × List α)} (h : Disjoint l) {x y : Nat × List α} (hx : x ∈ l)
    (hy : y ∈ l) (hle : x.1 ≤ y.1) : y = x ∨ x.1 + x.2.length ≤ y.1 := by
  rcases h.apart x hx y hy with heq | hxy | hyx
  · exact .inl heq.symm
  · exact .inr hxy
  · have := h.pos hy
    omega

/-- The front piece starts first. -/
theorem Ordered.head_le {l : List (Nat × List α)} (h : Ordered l) {y x : Nat × List α} (hy : y ∈ l.head?)
    (hx : x ∈ l) : y.1 ≤ x.1 := by
  obtain ⟨rest, rfl⟩ := List.head?_eq_some_iff.mp hy
  rcases List.mem_cons.mp hx with rfl | hx
  · exact le_rfl
  · exact (List.pairwise_cons.mp h).1 x hx

/-- A piece behind the next position keeps everything behind it held. -/
theorem drain_of_stale {r : Reassembly α} {l : List (Nat × List α)} (ho : Ordered l) {x : Nat × List α}
    (hx : x ∈ l) (hlt : x.1 < r.next) : r.drain l = { r with held := l } := by
  cases l with
  | nil => rfl
  | cons y rest =>
    have hle : y.1 ≤ x.1 := ho.head_le rfl hx
    rw [drain, if_neg (by omega)]

/-- A second copy stands next to the first. -/
theorem Disjoint.second_eq {z w : Nat × List α} {rest : List (Nat × List α)} (h : Disjoint (z :: w :: rest))
    (ho : Ordered (z :: w :: rest)) (hagain : z ∈ w :: rest) : w = z := by
  obtain ⟨hz, hrest⟩ := List.pairwise_cons.mp ho
  have hzmem : z ∈ z :: w :: rest := List.mem_cons_self ..
  have hwmem : w ∈ z :: w :: rest := List.mem_cons_of_mem z (List.mem_cons_self ..)
  rcases h.eq_or_behind hzmem hwmem (hz w (List.mem_cons_self ..)) with heq | hbehind
  · exact heq
  · have hpos := h.pos hzmem
    have hle : w.1 ≤ z.1 := Ordered.head_le hrest rfl hagain
    omega

/-- What draining leaves behind the next position had a second copy, and ends there. -/
theorem drain_stale {r : Reassembly α} {l : List (Nat × List α)} (ho : Ordered l) (hd : Disjoint l)
    (hl : ∀ x ∈ l, r.next ≤ x.1) {y : Nat × List α} (hy : y ∈ (r.drain l).held)
    (hlt : y.1 < (r.drain l).next) : List.Duplicate y l ∧ y.1 + y.2.length = (r.drain l).next := by
  induction l generalizing r with
  | nil => cases hy
  | cons z rest ih =>
    obtain ⟨hz, hrest⟩ := List.pairwise_cons.mp ho
    have hzmem : z ∈ z :: rest := List.mem_cons_self ..
    rw [drain] at hy hlt ⊢
    split at hy
    · rename_i hnext
      rw [if_pos hnext] at hlt ⊢
      by_cases hagain : z ∈ rest
      · -- the second copy comes to the front, and draining stops
        cases rest with
        | nil => cases hagain
        | cons w rest =>
          obtain rfl : w = z := hd.second_eq ho hagain
          have hpos := hd.pos hzmem
          have hstop : w.1 ≠ r.next + w.2.length := by omega
          rw [drain, if_neg hstop] at hy hlt ⊢
          have hyend : y = w := by
            rcases hd.eq_or_behind hzmem (List.mem_cons_of_mem _ hy) (hz y hy) with heq | hbehind
            · exact heq
            · rw [hnext] at hbehind
              exact absurd hlt (not_lt.mpr hbehind)
          subst hyend
          refine ⟨List.Mem.duplicate_cons_self hy, ?_⟩
          show _ = r.next + _
          rw [hnext]
      · have hbehind : ∀ x ∈ rest, r.next + z.2.length ≤ x.1 := by
          intro x hx
          rcases hd.eq_or_behind hzmem (List.mem_cons_of_mem z hx) (hz x hx) with heq | hbehind
          · exact absurd (heq ▸ hx) hagain
          · rw [← hnext]
            exact hbehind
        obtain ⟨hdup, hend⟩ := ih hrest (hd.subset (List.subset_cons_self z rest)) hbehind hy hlt
        exact ⟨hdup.duplicate_cons z, hend⟩
    · rename_i hnext
      rw [if_neg hnext] at hlt
      exact absurd (hl y hy) (not_le.mpr hlt)

/-- Draining stops at a piece that is not wanted. -/
theorem drain_head (r : Reassembly α) (l : List (Nat × List α)) :
    ∀ x ∈ (r.drain l).held.head?, x.1 ≠ (r.drain l).next := by
  induction l generalizing r with
  | nil =>
    intro x hx
    cases hx
  | cons y rest ih =>
    rw [drain]
    split
    · exact ih _
    · rename_i hne
      intro x hx
      obtain rfl := Option.some.inj hx
      exact hne

/-- The reassembler has come to a stop: the front piece is not wanted, and what lies behind
the next position ends there. -/
structure Rested (r : Reassembly α) : Prop where
  head : ∀ x ∈ r.held.head?, x.1 ≠ r.next
  stale : ∀ x ∈ r.held, x.1 < r.next → x.1 + x.2.length = r.next

theorem insert_sublist (piece : Nat × List α) (l : List (Nat × List α)) : l.Sublist (insert piece l) := by
  induction l with
  | nil => exact List.nil_sublist _
  | cons x rest ih =>
    rw [insert]
    split
    · exact List.sublist_cons_self _ _
    · exact ih.cons_cons x

theorem insert_of_front {piece : Nat × List α} {l : List (Nat × List α)} (h : ∀ y ∈ l, piece.1 < y.1) :
    insert piece l = piece :: l := by
  cases l with
  | nil => rfl
  | cons y rest => rw [insert, if_pos (h y (List.mem_cons_self ..))]

theorem drain_held_sublist (r : Reassembly α) (l : List (Nat × List α)) : (r.drain l).held.Sublist l := by
  induction l generalizing r with
  | nil => exact List.Sublist.refl _
  | cons x rest ih =>
    rw [drain]
    split
    · exact (ih _).cons x
    · exact List.Sublist.refl _

/-- While a piece lies behind the next position, arrivals are only held. -/
theorem arrive_of_stale {r : Reassembly α} {x : Nat × List α} (ho : Ordered r.held) (hx : x ∈ r.held)
    (hlt : x.1 < r.next) (piece : Nat × List α) : r.arrive piece = r ∨
      r.next ≤ piece.1 ∧ r.arrive piece = { r with held := insert piece r.held } := by
  unfold arrive
  split
  · exact .inl rfl
  · rename_i hge
    exact .inr ⟨not_lt.mp hge, drain_of_stale ho.insert (mem_insert.mpr (.inr hx)) hlt⟩

theorem Disjoint.insert {r : Reassembly α} {piece : Nat × List α} (h : Disjoint (piece :: r.held)) :
    Disjoint (insert piece r.held) :=
  h.subset fun _ hy => List.mem_cons.mpr (mem_insert.mp hy)

theorem Rested.arrive {r : Reassembly α} {piece : Nat × List α} (h : Rested r) (ho : Ordered r.held)
    (hd : Disjoint (piece :: r.held)) : Rested (r.arrive piece) := by
  by_cases hstale : ∃ x ∈ r.held, x.1 < r.next
  · obtain ⟨x, hx, hlt⟩ := hstale
    rcases arrive_of_stale ho hx hlt piece with heq | ⟨hge, heq⟩
    all_goals rw [heq]
    · exact h
    · refine ⟨fun y hy => ?_, fun y hy hbehind => ?_⟩
      · have hle : y.1 ≤ x.1 := ho.insert.head_le hy (mem_insert.mpr (.inr hx))
        exact (hle.trans_lt hlt).ne
      · rcases mem_insert.mp hy with rfl | hy
        · exact absurd hbehind (not_lt.mpr hge)
        · exact h.stale y hy hbehind
  · push Not at hstale
    unfold Reassembly.arrive
    split
    · exact h
    · rename_i hge
      have hins : ∀ y ∈ Reassembly.insert piece r.held, r.next ≤ y.1 := by
        intro y hy
        rcases mem_insert.mp hy with rfl | hy
        · exact not_lt.mp hge
        · exact hstale y hy
      exact ⟨drain_head r _, fun y hy hlt => (drain_stale ho.insert hd.insert hins hy hlt).2⟩

/-- The piece has stopped the reassembler at its end, or will when it is come to. -/
def Stuck (x : Nat × List α) (r : Reassembly α) : Prop :=
  x ∈ r.held ∧ x.1 < r.next ∧ r.next ≤ x.1 + x.2.length ∨ r.next ≤ x.1 ∧ List.Duplicate x r.held

theorem Stuck.next_le {x : Nat × List α} {r : Reassembly α} (h : Stuck x r) : r.next ≤ x.1 + x.2.length := by
  rcases h with ⟨-, -, hle⟩ | ⟨hle, -⟩
  · exact hle
  · exact hle.trans (Nat.le_add_right _ _)

theorem drain_stuck {r : Reassembly α} {l : List (Nat × List α)} {x : Nat × List α} (ho : Ordered l)
    (hd : Disjoint l) (hle : r.next ≤ x.1) (hdup : List.Duplicate x l) : Stuck x (r.drain l) := by
  induction l generalizing r with
  | nil => exact absurd hdup (List.not_duplicate_nil x)
  | cons y rest ih =>
    obtain ⟨hy, hrest⟩ := List.pairwise_cons.mp ho
    rw [drain]
    split
    · rename_i hnext
      by_cases heq : y = x
      · subst heq
        have hagain := hdup.mem_cons_self
        have hpos := hd.pos (List.mem_cons_self ..)
        have hbehind : y.1 < r.next + y.2.length := by omega
        rw [drain_of_stale (r := { r with next := r.next + y.2.length, out := r.out ++ y.2 }) hrest hagain hbehind]
        exact .inl ⟨hagain, hbehind, (congrArg (· + y.2.length) hnext).ge⟩
      · have hdup' := hdup.of_duplicate_cons (Ne.symm heq)
        have hbehind : y.1 + y.2.length ≤ x.1 := by
          rcases hd.eq_or_behind (List.mem_cons_self ..) (List.mem_cons_of_mem y hdup'.mem) (hnext ▸ hle) with
            hsame | h
          · exact absurd hsame.symm heq
          · exact h
        exact ih hrest (hd.subset (List.subset_cons_self y rest)) (hnext ▸ hbehind) hdup'
    · exact .inr ⟨hle, hdup⟩

/-- Once stuck, always stuck. -/
theorem Stuck.arrive {x piece : Nat × List α} {r : Reassembly α} (h : Stuck x r) (ho : Ordered r.held)
    (hd : Disjoint (piece :: r.held)) : Stuck x (r.arrive piece) := by
  rcases h with ⟨hx, hlt, hle⟩ | ⟨hle, hdup⟩
  · rcases arrive_of_stale ho hx hlt piece with heq | ⟨-, heq⟩
    all_goals rw [heq]
    · exact .inl ⟨hx, hlt, hle⟩
    · exact .inl ⟨mem_insert.mpr (.inr hx), hlt, hle⟩
  · unfold Reassembly.arrive
    split
    · exact .inr ⟨hle, hdup⟩
    · exact drain_stuck ho.insert hd.insert hle (hdup.mono_sublist (insert_sublist piece r.held))

/-- Whatever lies behind the next position or is held twice ends at `e`. -/
def ClearUpto (e : Nat) (r : Reassembly α) : Prop :=
  ∀ y ∈ r.held, y.1 < r.next ∨ List.Duplicate y r.held → y.1 + y.2.length = e

/-- A wanted piece moves a reassembler that is clear up to the piece's end or beyond, and
leaves it clear. -/
theorem ClearUpto.arrive {e : Nat} {x : Nat × List α} {r : Reassembly α} (h : ClearUpto e r) (hrested : Rested r)
    (ho : Ordered r.held) (hd : Disjoint (x :: r.held)) (hx : x.1 = r.next) (hend : x.1 + x.2.length ≤ e) :
    r.next < (r.arrive x).next ∧ ClearUpto e (r.arrive x) := by
  have hpos := hd.pos (List.mem_cons_self ..)
  have hge : ∀ y ∈ r.held, r.next ≤ y.1 := by
    intro y hy
    by_contra hbehind
    have hlt : y.1 < r.next := not_le.mp hbehind
    have hlast := h y hy (.inl hlt)
    have hstop := hrested.stale y hy hlt
    omega
  have hgt : ∀ y ∈ r.held, x.1 < y.1 := by
    intro y hy
    refine hx ▸ lt_of_le_of_ne (hge y hy) fun heq => ?_
    obtain ⟨z, hz⟩ := Option.isSome_iff_exists.mp (List.isSome_head?.mpr (List.ne_nil_of_mem hy))
    have hle : z.1 ≤ y.1 := ho.head_le hz hy
    exact hrested.head z hz (le_antisymm (heq ▸ hle) (hge z (List.mem_of_mem_head? hz)))
  have hbehind : ∀ y ∈ r.held, r.next + x.2.length ≤ y.1 := by
    intro y hy
    rcases hd.eq_or_behind (List.mem_cons_self ..) (List.mem_cons_of_mem x hy) (hgt y hy).le with heq | hle
    · exact absurd (hgt y hy) (heq ▸ lt_irrefl _)
    · exact hx ▸ hle
  have harrive : r.arrive x = drain { r with next := r.next + x.2.length, out := r.out ++ x.2 } r.held := by
    rw [Reassembly.arrive, if_neg (by omega), insert_of_front hgt, drain, if_pos hx]
  rw [harrive]
  have hon : r.next < (drain { r with next := r.next + x.2.length, out := r.out ++ x.2 } r.held).next :=
    lt_of_lt_of_le (Nat.lt_add_of_pos_right hpos)
      (next_le_drain { r with next := r.next + x.2.length, out := r.out ++ x.2 } r.held)
  refine ⟨hon, fun y hy hbad => ?_⟩
  have hd' : Disjoint r.held := hd.subset (List.subset_cons_self x r.held)
  have hdup : List.Duplicate y r.held := by
    rcases hbad with hlt | hdup
    · exact (drain_stale ho hd' hbehind hy hlt).1
    · exact hdup.mono_sublist (drain_held_sublist _ _)
  exact h y hdup.mem (.inr hdup)

end NetStack.Reassembly
