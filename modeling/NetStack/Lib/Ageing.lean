import Mathlib.Data.Int.Order.Basic

/-! Forgetting what is not used.

Something is started by some events, used by some and swept at some: a sweep forgets it
unless it was used within a limit before. A history keeps it when it was started at an
event such that every sweep since then found a use, at that event or after it, within
the limit. Histories are in order of time, and then it is the last use alone that a sweep
has to know (`kept_snoc_of_sweeps`): a time stamp stands for the history. -/
namespace NetStack.Ageing

variable {ε : Type}

/-- What events are to the thing kept. -/
structure Role (ε : Type) where
  time : ε → Int
  starts : ε → Prop
  uses : ε → Prop
  sweeps : ε → Prop
  uses_of_starts : ∀ e, starts e → uses e
  not_sweeps_of_uses : ∀ e, uses e → ¬ sweeps e

variable (r : Role ε)

/-- Started, and used within `limit` before every sweep since. -/
def Kept (limit : Int) (es : List ε) : Prop :=
  ∃ before e after, es = before ++ e :: after ∧ r.starts e ∧
    ∀ mid s rest, after = mid ++ s :: rest → r.sweeps s →
      ∃ u ∈ e :: mid, r.uses u ∧ r.time s - r.time u ≤ limit

/-- The last use was at time `t`. -/
def LastUse (es : List ε) (t : Int) : Prop :=
  ∃ before u after, es = before ++ u :: after ∧ r.uses u ∧ r.time u = t ∧ ∀ v ∈ after, ¬ r.uses v

/-- The events are in order of time. -/
def InOrder (es : List ε) : Prop := es.Pairwise fun e f => r.time e ≤ r.time f

variable {r} {limit t : Int} {es : List ε} {e : ε}

/-! ### The last use -/

theorem lastUse_snoc_of_uses (he : r.uses e) : LastUse r (es ++ [e]) (r.time e) :=
  ⟨es, e, [], rfl, he, rfl, fun _ hv => absurd hv List.not_mem_nil⟩

theorem LastUse.snoc (h : LastUse r es t) (he : ¬ r.uses e) : LastUse r (es ++ [e]) t := by
  obtain ⟨before, u, after, rfl, hu, ht, hrest⟩ := h
  refine ⟨before, u, after ++ [e], by simp, hu, ht, ?_⟩
  intro v hv
  rcases List.mem_append.mp hv with hv | hv
  · exact hrest v hv
  · rw [List.mem_singleton.mp hv]
    exact he

theorem LastUse.exists_mem (h : LastUse r es t) : ∃ u ∈ es, r.time u = t := by
  obtain ⟨before, u, after, rfl, -, ht, -⟩ := h
  exact ⟨u, List.mem_append_right _ List.mem_cons_self, ht⟩

/-- No use is later than the last. -/
theorem LastUse.time_le (h : LastUse r es t) (horder : InOrder r es) {u : ε} (hmem : u ∈ es)
    (hu : r.uses u) : r.time u ≤ t := by
  obtain ⟨before, l, after, rfl, -, rfl, hrest⟩ := h
  rcases List.mem_append.mp hmem with hin | hin
  · exact (List.pairwise_append.mp horder).2.2 u hin l List.mem_cons_self
  · rcases List.mem_cons.mp hin with rfl | hin
    · exact le_refl _
    · exact absurd hu (hrest u hin)

/-- The last use is not before a use. -/
theorem LastUse.mem_from {before after : List ε} (h : LastUse r (before ++ e :: after) t)
    (he : r.uses e) : ∃ u ∈ e :: after, r.uses u ∧ r.time u = t := by
  obtain ⟨before', l, after', heq, hl, ht, hrest⟩ := h
  refine ⟨l, ?_, hl, ht⟩
  rcases List.append_eq_append_iff.mp heq with ⟨mid, -, hmid⟩ | ⟨mid, -, hmid⟩
  · rw [hmid]
    exact List.mem_append_right _ List.mem_cons_self
  · cases mid with
    | nil =>
      rw [List.nil_append] at hmid
      rw [← hmid]
      exact List.mem_cons_self
    | cons m mid =>
      -- then `e` would be a use after the last one
      rw [List.cons_append, List.cons.injEq] at hmid
      refine absurd he (hrest e ?_)
      rw [hmid.2]
      exact List.mem_append_right _ List.mem_cons_self

/-! ### What one more event does -/

theorem not_kept_nil : ¬ Kept r limit [] := by
  intro hyp
  obtain ⟨before, e, after, h, -⟩ := hyp
  simp at h

theorem kept_snoc_of_starts (he : r.starts e) : Kept r limit (es ++ [e]) :=
  ⟨es, e, [], rfl, he, fun mid s rest h => by simp at h⟩

/-- A history that goes on for one event was started at that event or before. -/
theorem Kept.of_snoc (h : Kept r limit (es ++ [e])) (he : ¬ r.starts e) :
    Kept r limit es ∧ (r.sweeps e → ∃ u ∈ es, r.uses u ∧ r.time e - r.time u ≤ limit) := by
  obtain ⟨before, b, after, heq, hb, hall⟩ := h
  rcases List.eq_nil_or_concat after with rfl | ⟨after, l, rfl⟩
  · obtain ⟨-, hlast⟩ := List.append_inj' heq rfl
    rw [List.cons.injEq] at hlast
    exact absurd (hlast.1 ▸ hb) he
  · have hsplit : es ++ [e] = (before ++ b :: after) ++ [l] := by simpa using heq
    obtain ⟨rfl, hlast⟩ := List.append_inj' hsplit rfl
    rw [List.cons.injEq] at hlast
    obtain ⟨rfl, -⟩ := hlast
    refine ⟨⟨before, b, after, rfl, hb, ?_⟩, ?_⟩
    · intro mid s rest hafter hs
      exact hall mid s (rest ++ [e]) (by simp [hafter]) hs
    · intro hs
      obtain ⟨u, hu, huse, hle⟩ := hall after e [] (by simp) hs
      exact ⟨u, List.mem_append_right _ hu, huse, hle⟩

/-- An event that neither starts nor sweeps leaves the question where it was. -/
theorem kept_snoc_of_not (he : ¬ r.starts e) (hs : ¬ r.sweeps e) :
    Kept r limit (es ++ [e]) ↔ Kept r limit es := by
  constructor
  · exact fun h => (h.of_snoc he).1
  · intro hyp
    obtain ⟨before, b, after, rfl, hb, hall⟩ := hyp
    refine ⟨before, b, after ++ [e], by simp, hb, ?_⟩
    intro mid s rest hsplit hsweep
    rcases List.eq_nil_or_concat rest with rfl | ⟨rest, l, rfl⟩
    · obtain ⟨-, hlast⟩ := List.append_inj' hsplit rfl
      rw [List.cons.injEq] at hlast
      exact absurd (hlast.1 ▸ hsweep) hs
    · have hcut : after ++ [e] = (mid ++ s :: rest) ++ [l] := by simpa using hsplit
      exact hall mid s rest (List.append_inj' hcut rfl).1 hsweep

/-- A sweep keeps what was used last within the limit. -/
theorem kept_snoc_of_sweeps (hs : r.sweeps e) (horder : InOrder r es) (hlast : LastUse r es t) :
    Kept r limit (es ++ [e]) ↔ Kept r limit es ∧ r.time e - t ≤ limit := by
  have he : ¬ r.starts e := fun h => r.not_sweeps_of_uses e (r.uses_of_starts e h) hs
  constructor
  · intro h
    obtain ⟨hkept, hfound⟩ := h.of_snoc he
    obtain ⟨u, hmem, hu, hle⟩ := hfound hs
    have := hlast.time_le horder hmem hu
    exact ⟨hkept, by omega⟩
  · intro hyp
    obtain ⟨⟨before, b, after, rfl, hb, hall⟩, hle⟩ := hyp
    refine ⟨before, b, after ++ [e], by simp, hb, ?_⟩
    intro mid s rest hsplit hsweep
    rcases List.eq_nil_or_concat rest with rfl | ⟨rest, l, rfl⟩
    · obtain ⟨rfl, hend⟩ := List.append_inj' hsplit rfl
      rw [List.cons.injEq] at hend
      obtain ⟨rfl, -⟩ := hend
      obtain ⟨u, hmem, hu, rfl⟩ := hlast.mem_from (r.uses_of_starts b hb)
      exact ⟨u, hmem, hu, hle⟩
    · have hcut : after ++ [e] = (mid ++ s :: rest) ++ [l] := by simpa using hsplit
      exact hall mid s rest (List.append_inj' hcut rfl).1 hsweep

end NetStack.Ageing
