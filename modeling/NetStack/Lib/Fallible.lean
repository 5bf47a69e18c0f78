import Mathlib.Logic.Function.Iterate

/-! Programs that can fail.

A run of a program in `Except` is taken apart bind by bind (`bind_eq_ok`). A loop in which no
step goes wrong, under an invariant that the steps keep, computes what the loop without
failure does (`foldlM_ok`, and `foldlM_range_ok` where the rounds are only counted); and
whatever a loop that went right has passed through, it has kept what its steps keep
(`foldlM_keeps`). -/
namespace NetStack.Fallible

variable {ε α β σ τ : Type}

theorem bind_eq_ok {x : Except ε α} {f : α → Except ε β} {b : β} :
    x >>= f = .ok b ↔ ∃ a, x = .ok a ∧ f a = .ok b := by
  cases x with
  | error e =>
    constructor
    · intro h
      cases h
    · intro hyp
      obtain ⟨a, ha, -⟩ := hyp
      cases ha
  | ok a => exact ⟨fun h => ⟨a, rfl, h⟩, fun ⟨_, ha, h⟩ => by cases ha; exact h⟩

theorem ok_bind (a : α) (f : α → Except ε β) : (Except.ok a >>= f) = f a := rfl

/-- A loop in which nothing goes wrong, as long as something holds that it keeps. -/
theorem foldlM_ok {f : σ → α → Except ε σ} {g : τ → α → τ} (of : τ → σ) (Inv : τ → Prop)
    {l : List α} (hstep : ∀ t, Inv t → ∀ a ∈ l, f (of t) a = .ok (of (g t a)) ∧ Inv (g t a)) {t : τ}
    (ht : Inv t) : l.foldlM f (of t) = .ok (of (l.foldl g t)) ∧ Inv (l.foldl g t) := by
  induction l generalizing t with
  | nil => exact ⟨rfl, ht⟩
  | cons a l ih =>
    obtain ⟨hok, hkept⟩ := hstep t ht a List.mem_cons_self
    rw [List.foldlM_cons, hok, List.foldl_cons]
    exact ih (fun t ht b hb => hstep t ht b (List.mem_cons_of_mem a hb)) hkept

/-- The same of a loop that only counts its rounds. -/
theorem foldlM_range_ok {f : σ → Except ε σ} {g : τ → τ} (of : τ → σ) {Inv : Nat → τ → Prop}
    {num : Nat} (hstep : ∀ k < num, ∀ t, Inv k t → f (of t) = .ok (of (g t)) ∧ Inv (k + 1) (g t)) {t : τ}
    (ht : Inv 0 t) :
    (List.range num).foldlM (fun s _ => f s) (of t) = .ok (of (g^[num] t)) ∧ Inv num (g^[num] t) := by
  induction num with
  | zero => exact ⟨rfl, ht⟩
  | succ num ih =>
    obtain ⟨hbefore, hkept⟩ := ih fun k hk => hstep k (Nat.lt_succ_of_lt hk)
    obtain ⟨hok, hkept⟩ := hstep num (Nat.lt_succ_self num) _ hkept
    rw [List.range_succ, List.foldlM_append, hbefore, ok_bind, List.foldlM_cons, hok, Function.iterate_succ_apply']
    exact ⟨rfl, hkept⟩

/-- What each step of a loop keeps when it goes right. -/
theorem foldlM_keeps {f : σ → α → Except ε σ} {P : σ → Prop}
    (hstep : ∀ s a s', f s a = .ok s' → P s → P s') {l : List α} {s s' : σ} (h : l.foldlM f s = .ok s')
    (hs : P s) : P s' := by
  induction l generalizing s with
  | nil =>
    cases h
    exact hs
  | cons a l ih =>
    rw [List.foldlM_cons] at h
    obtain ⟨next, hnext, h⟩ := bind_eq_ok.mp h
    exact ih h (hstep s a next hnext hs)

end NetStack.Fallible
