import Mathlib.Data.List.Perm.Basic
import Mathlib.Order.Lattice

/-! Stable insertion.

Each element that arrives goes into a list before the first one that comes strictly after it.
Where coming after is decided by a key, the list is what has arrived in order of key, with equal
keys in order of arrival. -/
namespace NetStack.StableInsert

variable {α κ : Type}

/-- Into a list, before the first element that comes after. -/
def insert (lt : α → α → Bool) (x : α) : List α → List α
  | [] => [x]
  | y :: rest => if lt x y then x :: y :: rest else y :: insert lt x rest

/-- Where an element goes. -/
theorem insert_cases (lt : α → α → Bool) (x : α) (l : List α) :
    ∃ before after, l = before ++ after ∧ insert lt x l = before ++ x :: after ∧
      (∀ y ∈ before, lt x y = false) ∧ ∀ y ∈ after.head?, lt x y = true := by
  induction l with
  | nil => exact ⟨[], [], rfl, rfl, fun y hy => absurd hy List.not_mem_nil, fun y hy => by cases hy⟩
  | cons z rest ih =>
    cases hlt : lt x z with
    | true =>
      refine ⟨[], z :: rest, rfl, if_pos hlt, fun y hy => absurd hy List.not_mem_nil, ?_⟩
      intro y hy
      cases hy
      exact hlt
    | false =>
      obtain ⟨before, after, hrest, hinsert, hbefore, hafter⟩ := ih
      refine ⟨z :: before, after, by rw [hrest]; rfl, ?_, ?_, hafter⟩
      · rw [insert, hlt, hinsert]
        rfl
      · intro y hy
        rcases List.mem_cons.mp hy with rfl | hy
        · exact hlt
        · exact hbefore y hy

theorem insert_perm (lt : α → α → Bool) (x : α) (l : List α) : (insert lt x l).Perm (x :: l) := by
  obtain ⟨before, after, rfl, hinsert, -, -⟩ := insert_cases lt x l
  rw [hinsert]
  exact List.perm_middle

variable [LinearOrder κ]

/-- In order of key. -/
def Ascending (key : α → κ) (l : List α) : Prop := l.Pairwise fun x y => key x ≤ key y

/-- What has arrived, in order of key, with equal keys in order of arrival. -/
structure Arranged (key : α → κ) (arrived l : List α) : Prop where
  perm : l.Perm arrived
  ascending : Ascending key l
  stable : ∀ k, (l.filter fun x => key x = k) = arrived.filter fun x => key x = k

variable {lt : α → α → Bool} {key : α → κ} {x : α} {l arrived : List α}

/-- In an ascending list nothing before the place has a greater key, and nothing after it one
as small. -/
theorem Ascending.insert_cases (h : Ascending key l) (hlt : ∀ y ∈ l, lt x y = decide (key x < key y)) :
    ∃ before after, l = before ++ after ∧ insert lt x l = before ++ x :: after ∧
      (∀ y ∈ before, key y ≤ key x) ∧ ∀ y ∈ after, key x < key y := by
  obtain ⟨before, after, hl, hinsert, hbefore, hafter⟩ := StableInsert.insert_cases lt x l
  have hlt' : ∀ y ∈ before ++ after, lt x y = decide (key x < key y) := hl ▸ hlt
  refine ⟨before, after, hl, hinsert, ?_, ?_⟩
  · intro y hy
    have hnot := hbefore y hy
    rw [hlt' y (List.mem_append_left after hy), decide_eq_false_iff_not] at hnot
    exact le_of_not_gt hnot
  · cases after with
    | nil => exact fun y hy => absurd hy List.not_mem_nil
    | cons z rest =>
      have hfirst : key x < key z :=
        of_decide_eq_true ((hlt' z (List.mem_append_right before List.mem_cons_self)).symm.trans (hafter z rfl))
      have hrest := (List.pairwise_append.mp (hl ▸ h)).2.1
      intro y hy
      rcases List.mem_cons.mp hy with rfl | hy
      · exact hfirst
      · exact lt_of_lt_of_le hfirst (List.rel_of_pairwise_cons hrest hy)

theorem Ascending.insert (h : Ascending key l) (hlt : ∀ y ∈ l, lt x y = decide (key x < key y)) :
    Ascending key (insert lt x l) := by
  obtain ⟨before, after, rfl, hinsert, hbefore, hafter⟩ := h.insert_cases hlt
  obtain ⟨hfront, hback, hcross⟩ := List.pairwise_append.mp h
  rw [hinsert, Ascending, List.pairwise_append]
  refine ⟨hfront, List.pairwise_cons.mpr ⟨fun y hy => (hafter y hy).le, hback⟩, ?_⟩
  intro y hy z hz
  rcases List.mem_cons.mp hz with rfl | hz
  · exact hbefore y hy
  · exact hcross y hy z hz

/-- One arrival. -/
theorem Arranged.insert (h : Arranged key arrived l) (hlt : ∀ y ∈ arrived, lt x y = decide (key x < key y)) :
    Arranged key (arrived ++ [x]) (insert lt x l) := by
  have hltl : ∀ y ∈ l, lt x y = decide (key x < key y) := fun y hy => hlt y (h.perm.mem_iff.mp hy)
  refine ⟨?_, h.ascending.insert hltl, ?_⟩
  · calc
      List.Perm (StableInsert.insert lt x l) (x :: l) := insert_perm lt x l
      List.Perm _ (x :: arrived) := h.perm.cons x
      List.Perm _ (arrived ++ [x]) := (List.perm_append_singleton x arrived).symm
  · intro k
    have hstable := h.stable k
    obtain ⟨before, after, rfl, hinsert, -, hafter⟩ := h.ascending.insert_cases hltl
    rw [hinsert, List.filter_append, List.filter_append, ← hstable, List.filter_append, List.append_assoc]
    by_cases hk : key x = k
    · -- Nothing that `x` goes before has its key.
      have hnone : (after.filter fun y => key y = k) = [] := by
        refine List.filter_eq_nil_iff.mpr fun y hy => ?_
        rw [decide_eq_true_eq]
        exact fun hy' => absurd (hafter y hy) (by rw [hy', hk]; exact lt_irrefl k)
      simp only [List.filter_cons, hk, decide_true, if_true, hnone, List.filter_nil, List.nil_append]
    · simp only [List.filter_cons, hk, decide_false, Bool.false_eq_true, if_false, List.filter_nil, List.append_nil]

/-- Any number of arrivals. -/
theorem Arranged.foldl (h : Arranged key arrived l) (xs : List α)
    (hlt : ∀ x ∈ arrived ++ xs, ∀ y ∈ arrived ++ xs, lt x y = decide (key x < key y)) :
    Arranged key (arrived ++ xs) (xs.foldl (fun l x => StableInsert.insert lt x l) l) := by
  induction xs generalizing arrived l with
  | nil => rwa [List.append_nil]
  | cons x xs ih =>
    have hx := hlt x (List.mem_append_right arrived List.mem_cons_self)
    rw [List.append_cons] at hlt ⊢
    exact ih (h.insert fun y hy => hx y (List.mem_append_left _ hy)) hlt

theorem arranged_nil (key : α → κ) : Arranged key [] [] := ⟨.refl _, .nil, fun _ => rfl⟩

end NetStack.StableInsert
