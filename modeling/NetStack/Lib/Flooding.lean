import NetStack.Lib.Wiring
import Mathlib.Data.Fintype.Card
import Mathlib.Data.List.Perm.Basic
import Mathlib.Data.List.Nodup

/-! What boxes pass on to each other.

Copies of one thing are under way over a wiring. A box that gets one passes it on out of
some of its other ports, out of each at most once; a copy may also be lost. Without a loop
no box gets two copies and the sender gets none (`Spread.Once`). Where every box passes on
out of all its other ports and nothing is lost, every box gets one (`Spread.Whole`); and
where there is a loop, there is no end to it (`Spread.Alive`). -/
namespace NetStack

variable {V P : Type*}

/-- The copies that were received, that were lost, and that are under way. -/
structure Spread (V P : Type*) where
  received : List (V × P)
  lost : List (V × P)
  flight : List (V × P)

namespace Spread

/-- All copies there have been. -/
def copies (s : Spread V P) : List (V × P) := s.received ++ s.lost ++ s.flight

/-- A copy is received, and `out` is what the box passes on. -/
inductive Deliver : Spread V P → V × P → List (V × P) → Spread V P → Prop
  | mk (received lost before after : List (V × P)) (a : V × P) (out : List (V × P)) :
    Deliver ⟨received, lost, before ++ a :: after⟩ a out ⟨received ++ [a], lost, before ++ after ++ out⟩

inductive Lose : Spread V P → V × P → Spread V P → Prop
  | mk (received lost before after : List (V × P)) (a : V × P) :
    Lose ⟨received, lost, before ++ a :: after⟩ a ⟨received, lost ++ [a], before ++ after⟩

variable {W : Wiring V P} {v w : V} {s t : Spread V P} {a b : V × P} {out : List (V × P)}

theorem Deliver.copies_perm (h : Deliver s a out t) : t.copies.Perm (s.copies ++ out) := by
  cases h with
  | mk received lost before after a out =>
    simp only [copies, List.append_assoc, List.cons_append, List.nil_append]
    refine List.Perm.append_left received ?_
    have hmiddle : (lost ++ (before ++ a :: (after ++ out))).Perm (a :: (lost ++ (before ++ (after ++ out)))) := by
      rw [← List.append_assoc, ← List.append_assoc]
      exact List.perm_middle
    exact hmiddle.symm

theorem Lose.copies_perm (h : Lose s a t) : t.copies.Perm s.copies := by
  cases h with
  | mk received lost before after a =>
    simp only [copies, List.append_assoc, List.cons_append, List.nil_append]
    refine (List.Perm.append_left lost ?_).append_left received
    exact List.perm_middle.symm

theorem Deliver.received_eq (h : Deliver s a out t) : t.received = s.received ++ [a] := by
  cases h; rfl

theorem Deliver.mem_flight (h : Deliver s a out t) : a ∈ s.flight := by
  cases h
  exact List.mem_append_right _ List.mem_cons_self

theorem Lose.received_eq (h : Lose s a t) : t.received = s.received := by
  cases h; rfl

theorem Deliver.mem_copies (h : Deliver s a out t) : a ∈ s.copies :=
  List.mem_append_right _ h.mem_flight

/-! ### No box twice -/

/-- No place twice, each one that what `v` has sent comes to, and each because it was sent
there or was passed on from a place where it was received. -/
structure Once (W : Wiring V P) (v : V) (s : Spread V P) : Prop where
  nodup : s.copies.Nodup
  away : ∀ a ∈ s.copies, W.Away v a
  source : ∀ a ∈ s.copies, W.Starts v a ∨ ∃ b ∈ s.received, W.Onward b a

theorem Once.init {out : List (V × P)} (hout : out.Nodup) (hstart : ∀ a ∈ out, W.Starts v a) :
    Once W v ⟨[], [], out⟩ where
  nodup := hout
  away a ha := .head (hstart a ha)
  source a ha := .inl (hstart a ha)

/-- What is passed on is passed on for the first time. -/
theorem Once.fresh (hloop : W.Loopless) (hs : Once W v s) (h : Deliver s a out t)
    (hb : W.Onward a b) : b ∉ s.copies := by
  intro hmem
  have ha := hs.away a h.mem_copies
  obtain ⟨p, hp, hback⟩ := hb.peer
  obtain hstart | ⟨c, hc, hstep⟩ := hs.source b hmem
  · -- it would have been sent by the box `a` arrives at
    obtain ⟨q, hq⟩ := hstart.peer
    rw [hback] at hq
    exact ha.ne hloop (Prod.ext_iff.mp (Option.some.inj hq)).1
  · -- it would have been passed on after an earlier arrival at the box of `a`
    obtain ⟨q, _, hq⟩ := hstep.peer
    rw [hback] at hq
    have hbox : a.1 = c.1 := (Prod.ext_iff.mp (Option.some.inj hq)).1
    have heq : a = c := ha.unique hloop (hs.away c (List.mem_append_left _ (List.mem_append_left _ hc))) hbox
    have hnodup := hs.nodup
    rw [copies, List.append_assoc] at hnodup
    exact List.disjoint_of_nodup_append hnodup hc
      (List.mem_append_right _ (heq ▸ h.mem_flight))

theorem Once.deliver (hloop : W.Loopless) (hs : Once W v s) (h : Deliver s a out t) (hout : out.Nodup)
    (hnext : ∀ b ∈ out, W.Onward a b) : Once W v t := by
  have hmem : ∀ b ∈ t.copies, b ∈ s.copies ∨ b ∈ out :=
    fun b hb => List.mem_append.mp (h.copies_perm.mem_iff.mp hb)
  refine ⟨h.copies_perm.nodup_iff.mpr ?_, fun b hb => ?_, fun b hb => ?_⟩
  · exact hs.nodup.append hout fun b hb hout => hs.fresh hloop h (hnext b hout) hb
  · obtain hb | hb := hmem b hb
    · exact hs.away b hb
    · exact (hs.away a h.mem_copies).onward (hnext b hb)
  · rw [h.received_eq]
    obtain hb | hb := hmem b hb
    · obtain hstart | ⟨c, hc, hstep⟩ := hs.source b hb
      · exact .inl hstart
      · exact .inr ⟨c, List.mem_append_left _ hc, hstep⟩
    · exact .inr ⟨a, List.mem_append_right _ (List.mem_singleton_self a), hnext b hb⟩

theorem Once.lose (hs : Once W v s) (h : Lose s a t) : Once W v t where
  nodup := h.copies_perm.nodup_iff.mpr hs.nodup
  away b hb := hs.away b (h.copies_perm.mem_iff.mp hb)
  source b hb := h.received_eq ▸ hs.source b (h.copies_perm.mem_iff.mp hb)

/-- At each box at most one copy ever arrives. -/
theorem Once.boxes_nodup (hloop : W.Loopless) (hs : Once W v s) : (s.copies.map Prod.fst).Nodup :=
  hs.nodup.map_on fun a ha b hb hbox => (hs.away a ha).unique hloop (hs.away b hb) hbox

theorem Once.not_mem (hloop : W.Loopless) (hs : Once W v s) : v ∉ s.copies.map Prod.fst := by
  intro hmem
  obtain ⟨a, ha, hbox⟩ := List.mem_map.mp hmem
  exact (hs.away a ha).ne hloop hbox

/-- There are fewer copies than boxes. -/
theorem Once.length_lt [Fintype V] (hloop : W.Loopless) (hs : Once W v s) :
    s.copies.length < Fintype.card V := by
  have hcons : (v :: s.copies.map Prod.fst).Nodup := List.nodup_cons.mpr ⟨hs.not_mem hloop, hs.boxes_nodup hloop⟩
  have hcard := hcons.length_le_card
  rw [List.length_cons, List.length_map] at hcard
  exact hcard

/-! ### Every box -/

/-- A copy for each place it is sent to, and, once received, for each place after it. -/
structure Whole (W : Wiring V P) (v : V) (s : Spread V P) : Prop where
  start : ∀ a, W.Starts v a → a ∈ s.copies
  next : ∀ a ∈ s.received, ∀ b, W.Onward a b → b ∈ s.copies

theorem Whole.init (hstart : ∀ a, W.Starts v a → a ∈ out) : Whole W v ⟨[], [], out⟩ where
  start := hstart
  next _ ha := absurd ha List.not_mem_nil

theorem Whole.deliver (hs : Whole W v s) (h : Deliver s a out t) (hall : ∀ b, W.Onward a b → b ∈ out) :
    Whole W v t := by
  have hmem : ∀ b, b ∈ s.copies ∨ b ∈ out → b ∈ t.copies :=
    fun b hb => h.copies_perm.mem_iff.mpr (List.mem_append.mpr hb)
  refine ⟨fun b hb => hmem b (.inl (hs.start b hb)), fun c hc b hb => ?_⟩
  rw [h.received_eq] at hc
  obtain hc | hc := List.mem_append.mp hc
  · exact hmem b (.inl (hs.next c hc b hb))
  · obtain rfl := List.mem_singleton.mp hc
    exact hmem b (.inr (hall b hb))

theorem Whole.lose (hs : Whole W v s) (h : Lose s a t) : Whole W v t where
  start b hb := h.copies_perm.mem_iff.mpr (hs.start b hb)
  next c hc b hb := h.copies_perm.mem_iff.mpr (hs.next c (h.received_eq ▸ hc) b hb)

/-- When none is under way and none was lost, every place has been come to. -/
theorem Whole.mem_received (hs : Whole W v s) (hlost : s.lost = []) (hflight : s.flight = [])
    (ha : W.Away v a) : a ∈ s.received := by
  have hcopies : s.copies = s.received := by rw [copies, hlost, hflight, List.append_nil, List.append_nil]
  obtain ⟨start, hstart, hpath⟩ := ha
  induction hpath with
  | refl => exact hcopies ▸ hs.start start hstart
  | tail _ hstep ih => exact hcopies ▸ hs.next _ ih _ hstep

/-! ### Without end -/

/-- A copy is under way to a loop. -/
def Alive (W : Wiring V P) (s : Spread V P) : Prop :=
  ∃ a ∈ s.flight, ∃ c, W.Reaches a c ∧ Relation.TransGen W.Onward c c

theorem Alive.deliver (hs : Alive W s) (h : Deliver s a out t) (hall : ∀ b, W.Onward a b → b ∈ out) :
    Alive W t := by
  obtain ⟨d, hd, c, hpath, hround⟩ := hs
  cases h with
  | mk received lost before after a out =>
    obtain hd | hd := List.mem_append.mp hd
    · exact ⟨d, List.mem_append_left _ (List.mem_append_left _ hd), c, hpath, hround⟩
    obtain rfl | hd := List.mem_cons.mp hd
    · -- one step further on the way, or around the loop
      obtain ⟨e, hfirst, hrest⟩ := Relation.TransGen.head'_iff.mp (Relation.TransGen.trans_right hpath hround)
      exact ⟨e, List.mem_append_right _ (hall e hfirst), c, hrest, hround⟩
    · exact ⟨d, List.mem_append_left _ (List.mem_append_right _ hd), c, hpath, hround⟩

theorem Alive.flight_ne_nil (hs : Alive W s) : s.flight ≠ [] := by
  obtain ⟨a, ha, _⟩ := hs
  exact List.ne_nil_of_mem ha

end Spread

end NetStack
