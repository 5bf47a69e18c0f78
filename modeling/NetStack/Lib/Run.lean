import Mathlib.Logic.Basic

/-! Runs of a labelled transition relation.

A system is a relation `Step s e t`: in state `s` the event `e` can lead to `t`. A
run is a list of events with the states it passes. Two rules carry what follows:
an invariant kept by every step that meets a condition holds along every run whose
steps all meet it (`Run.invariant`), and where the condition decides a property of
the step under that invariant, a run has the property at every step exactly when it
meets the condition at every step (`along_iff`). -/
namespace NetStack

variable {σ ε : Type} {Step : σ → ε → σ → Prop}

/-- The events lead from one state to another. -/
inductive Run (Step : σ → ε → σ → Prop) : σ → List ε → σ → Prop
  | nil (s : σ) : Run Step s [] s
  | cons {s t u : σ} {e : ε} {es : List ε} : Step s e t → Run Step t es u → Run Step s (e :: es) u

/-- Wherever the events lead, each of them meets `C` in the state it is taken in. -/
def Along (Step : σ → ε → σ → Prop) (C : σ → ε → Prop) : σ → List ε → Prop
  | _, [] => True
  | s, e :: es => C s e ∧ ∀ t, Step s e t → Along Step C t es

theorem Run.snoc {s t u : σ} {es : List ε} {e : ε} (h : Run Step s es t) (he : Step t e u) :
    Run Step s (es ++ [e]) u := by
  induction h with
  | nil s => exact .cons he (.nil u)
  | cons hstep _ ih => exact .cons hstep (ih he)

theorem Run.append {s t u : σ} {es fs : List ε} (h : Run Step s es t) (h' : Run Step t fs u) :
    Run Step s (es ++ fs) u := by
  induction h with
  | nil s => exact h'
  | cons hstep _ ih => exact .cons hstep (ih h')

/-- What every step that meets `C` keeps, a run whose steps all meet it keeps. -/
theorem Run.invariant {C : σ → ε → Prop} {Inv : σ → Prop}
    (hkeep : ∀ s e t, Inv s → C s e → Step s e t → Inv t) {s t : σ} {es : List ε}
    (h : Run Step s es t) (hC : Along Step C s es) (hs : Inv s) : Inv t := by
  induction h with
  | nil s => exact hs
  | cons hstep _ ih => exact ih (hC.2 _ hstep) (hkeep _ _ _ hs hC.1 hstep)

/-- What every step hands on, of the events so far and the state they led to, holds at the
end of every run. -/
theorem Run.history {Inv : List ε → σ → Prop} {s₀ : σ} (hnil : Inv [] s₀)
    (hkeep : ∀ es s e t, Run Step s₀ es s → Inv es s → Step s e t → Inv (es ++ [e]) t) {t : σ} {es : List ε}
    (h : Run Step s₀ es t) : Inv es t := by
  have hfrom : ∀ (before : List ε) {s t : σ} {es : List ε}, Run Step s₀ before s → Inv before s →
      Run Step s es t → Inv (before ++ es) t := by
    intro before s t es hbefore hs h
    induction h generalizing before with
    | nil s => rwa [List.append_nil]
    | cons hstep _ ih =>
      have hrest := ih (before ++ [_]) (hbefore.snoc hstep) (hkeep _ _ _ _ hbefore hs hstep)
      rwa [List.append_assoc] at hrest
  exact hfrom [] (.nil s₀) hnil h

/-- What is met along a run is met by the event that ends it, in the state that comes to. -/
theorem Along.last {C : σ → ε → Prop} {s t : σ} {es : List ε} {e : ε} (hC : Along Step C s (es ++ [e]))
    (h : Run Step s es t) : C t e := by
  induction h with
  | nil s => exact hC.1
  | cons hstep _ ih => exact ih (hC.2 _ hstep)

/-- A condition that always holds is met along every run. -/
theorem Along.of_forall {C : σ → ε → Prop} (h : ∀ s e, C s e) (s : σ) (es : List ε) :
    Along Step C s es := by
  induction es generalizing s with
  | nil => trivial
  | cons e es ih => exact ⟨h s e, fun t _ => ih t⟩

/-- A condition on the events alone. -/
theorem Along.of_events {C : ε → Prop} {es : List ε} (h : ∀ e ∈ es, C e) (s : σ) :
    Along Step (fun _ e => C e) s es := by
  induction es generalizing s with
  | nil => trivial
  | cons e es ih =>
    exact ⟨h e List.mem_cons_self, fun t _ => ih (fun x hx => h x (List.mem_cons_of_mem _ hx)) t⟩

/-- A condition that holds under an invariant of the system is met along every run. -/
theorem Along.of_invariant {C : σ → ε → Prop} {Inv : σ → Prop}
    (hkeep : ∀ s e t, Inv s → Step s e t → Inv t) (hC : ∀ s e, Inv s → C s e) {s : σ} (hs : Inv s)
    (es : List ε) : Along Step C s es := by
  induction es generalizing s with
  | nil => trivial
  | cons e es ih => exact ⟨hC s e hs, fun t ht => ih (hkeep s e t hs ht)⟩

theorem Along.mono {C D : σ → ε → Prop} (hCD : ∀ s e, C s e → D s e) {s : σ} {es : List ε}
    (h : Along Step C s es) : Along Step D s es := by
  induction es generalizing s with
  | nil => trivial
  | cons e es ih => exact ⟨hCD s e h.1, fun t ht => ih (h.2 t ht)⟩

theorem Along.and {C D : σ → ε → Prop} {s : σ} {es : List ε} (h : Along Step C s es)
    (h' : Along Step D s es) : Along Step (fun s e => C s e ∧ D s e) s es := by
  induction es generalizing s with
  | nil => trivial
  | cons e es ih => exact ⟨⟨h.1, h'.1⟩, fun t ht => ih (h.2 t ht) (h'.2 t ht)⟩

/-- Several conditions are met along a run if each of them is. -/
theorem along_forall {ι : Type} {C : ι → σ → ε → Prop} (s : σ) (es : List ε) :
    (∀ i, Along Step (C i) s es) ↔ Along Step (fun s e => ∀ i, C i s e) s es := by
  induction es generalizing s with
  | nil => exact iff_of_true (fun _ => trivial) trivial
  | cons e es ih =>
    constructor
    · intro h
      exact ⟨fun i => (h i).1, fun t ht => (ih t).mp fun i => (h i).2 t ht⟩
    · intro h i
      exact ⟨h.1 i, fun t ht => (ih t).mpr (h.2 t ht) i⟩

/-- Under an invariant that steps meeting `C` keep, where a condition `D` is known to be
met along the run, a property of steps that `C` decides holds along it exactly when `C`
does. -/
theorem along_iff_of {C D Q : σ → ε → Prop} {Inv : σ → Prop}
    (hkeep : ∀ s e t, Inv s → D s e → C s e → Step s e t → Inv t)
    (hiff : ∀ s e, Inv s → D s e → (Q s e ↔ C s e)) {s : σ} (hs : Inv s) {es : List ε}
    (hD : Along Step D s es) : Along Step Q s es ↔ Along Step C s es := by
  induction es generalizing s with
  | nil => exact Iff.rfl
  | cons e es ih =>
    obtain ⟨hd, hrest⟩ := hD
    constructor
    · intro hyp
      obtain ⟨hQ, h⟩ := hyp
      have hC := (hiff s e hs hd).mp hQ
      exact ⟨hC, fun t ht => (ih (hkeep s e t hs hd hC ht) (hrest t ht)).mp (h t ht)⟩
    · intro hyp
      obtain ⟨hC, h⟩ := hyp
      exact ⟨(hiff s e hs hd).mpr hC,
        fun t ht => (ih (hkeep s e t hs hd hC ht) (hrest t ht)).mpr (h t ht)⟩

/-- `along_iff_of` with nothing further known. -/
theorem along_iff {C Q : σ → ε → Prop} {Inv : σ → Prop}
    (hkeep : ∀ s e t, Inv s → C s e → Step s e t → Inv t)
    (hiff : ∀ s e, Inv s → (Q s e ↔ C s e)) {s : σ} (hs : Inv s) (es : List ε) :
    Along Step Q s es ↔ Along Step C s es :=
  along_iff_of (fun s e t hi _ => hkeep s e t hi) (fun s e hi _ => hiff s e hi) hs
    (Along.of_forall (fun _ _ => trivial) s es)

/-- Every state the events pass has `P`, the first and the last included. -/
def Throughout (Step : σ → ε → σ → Prop) (P : σ → Prop) : σ → List ε → Prop
  | s, [] => P s
  | s, e :: es => P s ∧ ∀ t, Step s e t → Throughout Step P t es

theorem Throughout.run {P : σ → Prop} {s t : σ} {es fs : List ε} (h : Throughout Step P s (es ++ fs))
    (hrun : Run Step s es t) : P t := by
  induction hrun with
  | nil s =>
    cases fs with
    | nil => exact h
    | cons e fs => exact h.1
  | cons hstep _ ih => exact ih (h.2 _ hstep)

/-- What holds throughout a run holds where it ends. -/
theorem Throughout.last {P : σ → Prop} {s t : σ} {es : List ε} (h : Throughout Step P s es)
    (hrun : Run Step s es t) : P t := by
  rw [← List.append_nil es] at h
  exact h.run hrun

theorem Throughout.mono {P Q : σ → Prop} (hPQ : ∀ s, P s → Q s) {s : σ} {es : List ε}
    (h : Throughout Step P s es) : Throughout Step Q s es := by
  induction es generalizing s with
  | nil => exact hPQ s h
  | cons e es ih => exact ⟨hPQ s h.1, fun t ht => ih (h.2 t ht)⟩

/-- What every step that meets `C` keeps holds throughout a run whose steps all meet it. -/
theorem Along.throughout {C : σ → ε → Prop} {Inv : σ → Prop}
    (hkeep : ∀ s e t, Inv s → C s e → Step s e t → Inv t) {s : σ} {es : List ε}
    (hC : Along Step C s es) (hs : Inv s) : Throughout Step Inv s es := by
  induction es generalizing s with
  | nil => exact hs
  | cons e es ih => exact ⟨hs, fun t ht => ih (hC.2 t ht) (hkeep s e t hs hC.1 ht)⟩

/-- What every step keeps holds throughout. -/
theorem Throughout.of_invariant {Inv : σ → Prop} (hkeep : ∀ s e t, Inv s → Step s e t → Inv t) {s : σ}
    (hs : Inv s) (es : List ε) : Throughout Step Inv s es :=
  (Along.of_forall (fun _ _ => trivial) s es).throughout (fun s e t hi _ => hkeep s e t hi) hs

/-- Where a condition decides whether a step keeps an invariant, the invariant holds
throughout a run exactly when every step meets the condition. -/
theorem throughout_iff {C : σ → ε → Prop} {Inv : σ → Prop}
    (hiff : ∀ s e, Inv s → ((∀ t, Step s e t → Inv t) ↔ C s e)) {s : σ} (hs : Inv s) (es : List ε) :
    Throughout Step Inv s es ↔ Along Step C s es := by
  induction es generalizing s with
  | nil => exact iff_of_true hs trivial
  | cons e es ih =>
    constructor
    · intro h
      have hkeep : ∀ t, Step s e t → Inv t := fun t ht => (h.2 t ht).run (.nil t)
      exact ⟨(hiff s e hs).mp hkeep, fun t ht => (ih (hkeep t ht)).mp (h.2 t ht)⟩
    · intro h
      exact ⟨hs, fun t ht => (ih ((hiff s e hs).mpr h.1 t ht)).mpr (h.2 t ht)⟩

/-- A property that an invariant implies holds throughout a run exactly when every step
meets a condition, where steps that meet it keep the invariant and any other lead out of
the property; a condition `D` is known to be met along the run. -/
theorem throughout_iff_along_of {C D : σ → ε → Prop} {P Inv : σ → Prop} (hP : ∀ s, Inv s → P s)
    (hkeep : ∀ s e t, Inv s → D s e → C s e → Step s e t → Inv t)
    (hbreak : ∀ s e, Inv s → D s e → ¬ C s e → ∃ t, Step s e t ∧ ¬ P t) {s : σ} (hs : Inv s)
    {es : List ε} (hD : Along Step D s es) : Throughout Step P s es ↔ Along Step C s es := by
  induction es generalizing s with
  | nil => exact iff_of_true (hP s hs) trivial
  | cons e es ih =>
    obtain ⟨hd, hrest⟩ := hD
    constructor
    · intro h
      have hC : C s e := by
        refine Classical.byContradiction fun hnot => ?_
        obtain ⟨t, ht, hout⟩ := hbreak s e hs hd hnot
        exact hout ((h.2 t ht).run (.nil t))
      exact ⟨hC, fun t ht => (ih (hkeep s e t hs hd hC ht) (hrest t ht)).mp (h.2 t ht)⟩
    · intro hC
      exact ⟨hP s hs, fun t ht => (ih (hkeep s e t hs hd hC.1 ht) (hrest t ht)).mpr (hC.2 t ht)⟩

/-- `throughout_iff_along_of` with nothing further known. -/
theorem throughout_iff_along {C : σ → ε → Prop} {P Inv : σ → Prop} (hP : ∀ s, Inv s → P s)
    (hkeep : ∀ s e t, Inv s → C s e → Step s e t → Inv t)
    (hbreak : ∀ s e, Inv s → ¬ C s e → ∃ t, Step s e t ∧ ¬ P t) {s : σ} (hs : Inv s) (es : List ε) :
    Throughout Step P s es ↔ Along Step C s es :=
  throughout_iff_along_of hP (fun s e t hi _ => hkeep s e t hi) (fun s e hi _ => hbreak s e hi) hs
    (Along.of_forall (fun _ _ => trivial) s es)

/-! ### Systems that step by a function -/

/-- The state the events lead to, if each of them is possible. -/
def runAll (step : σ → ε → Option σ) : σ → List ε → Option σ
  | s, [] => some s
  | s, e :: es =>
    match step s e with
    | none => none
    | some t => runAll step t es

/-- `Along`, evaluated. -/
def checkAll (step : σ → ε → Option σ) (C : σ → ε → Prop) [∀ s e, Decidable (C s e)] :
    σ → List ε → Bool
  | _, [] => true
  | s, e :: es =>
    decide (C s e) &&
      match step s e with
      | none => true
      | some t => checkAll step C t es

variable {step : σ → ε → Option σ}

theorem Run.of_runAll {s t : σ} {es : List ε} (h : runAll step s es = some t) :
    Run (fun s e t => step s e = some t) s es t := by
  induction es generalizing s with
  | nil =>
    cases h
    exact .nil _
  | cons e es ih =>
    simp only [runAll] at h
    split at h
    · cases h
    · exact .cons ‹_› (ih h)

/-- The events lead to the state they evaluate to. -/
theorem Run.of_isSome {s : σ} {es : List ε} (h : (runAll step s es).isSome = true) :
    Run (fun s e t => step s e = some t) s es ((runAll step s es).get h) :=
  Run.of_runAll (Option.some_get h).symm

theorem Along.of_checkAll {C : σ → ε → Prop} [∀ s e, Decidable (C s e)] {s : σ} {es : List ε}
    (h : checkAll step C s es = true) :
    Along (fun s e t => step s e = some t) C s es := by
  induction es generalizing s with
  | nil => trivial
  | cons e es ih =>
    simp only [checkAll, Bool.and_eq_true, decide_eq_true_eq] at h
    refine ⟨h.1, fun t ht => ih ?_⟩
    have hrest := h.2
    rw [ht] at hrest
    exact hrest

end NetStack
