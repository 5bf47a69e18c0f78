import Mathlib.Logic.Relation

/-! Following steps along which a measure goes down.

They come to where no further step has to be taken, and never back. -/
namespace NetStack.Descent

variable {α : Type*} {step : α → α → Prop} {m : α → Nat} {Goal : α → Prop}

/-- Where every place short of the goal has a step down, the goal is reached. -/
theorem reaches (h : ∀ x, ¬Goal x → ∃ y, step x y ∧ m y < m x) (x : α) :
    ∃ y, Goal y ∧ Relation.ReflTransGen step x y := by
  induction hm : m x using Nat.strongRecOn generalizing x with
  | ind k ih =>
    by_cases hx : Goal x
    · exact ⟨x, hx, .refl⟩
    · obtain ⟨y, hstep, hless⟩ := h x hx
      obtain ⟨z, hz, hpath⟩ := ih (m y) (hm ▸ hless) y rfl
      exact ⟨z, hz, .head hstep hpath⟩

theorem lt_of_transGen (h : ∀ x y, step x y → m y < m x) {x y : α}
    (hpath : Relation.TransGen step x y) : m y < m x := by
  induction hpath with
  | single hstep => exact h _ _ hstep
  | tail _ hstep ih => exact Nat.lt_trans (h _ _ hstep) ih

/-- Where every step is down, there is no way around. -/
theorem acyclic (h : ∀ x y, step x y → m y < m x) (x : α) : ¬Relation.TransGen step x x :=
  fun hpath => Nat.lt_irrefl _ (lt_of_transGen h hpath)

end NetStack.Descent
