import Mathlib.Data.List.Infix

/-! Longest prefix match over any keyed entries.

An entry with key `k` matches a word that starts with `k`. The match of a word is
the longest matching entry of the sequence, and among entries with one key the one
that came last: a later entry replaces an earlier one. -/
namespace NetStack.LongestPrefix

variable {α ε : Type} [DecidableEq α] (key : ε → List α)

/-- Whether `e` is at least as long as the best match so far. -/
def Beats (e : ε) : Option ε → Prop
  | none => True
  | some b => (key b).length ≤ (key e).length

instance (e : ε) (best : Option ε) : Decidable (Beats key e best) := by
  cases best <;> unfold Beats <;> infer_instance

/-- One entry offered to the best match so far. -/
def offer (w : List α) (best : Option ε) (e : ε) : Option ε :=
  if key e <+: w ∧ Beats key e best then some e else best

/-- The match of `w` in a sequence of entries. -/
def longestMatch (es : List ε) (w : List α) : Option ε := es.foldl (offer key w) none

/-- What a match is: it matches, nothing that matches is longer, and nothing after it
has its length. -/
structure IsMatch (es : List ε) (w : List α) (e : ε) : Prop where
  matches_ : key e <+: w
  split : ∃ before after, es = before ++ e :: after ∧
    (∀ b ∈ before, key b <+: w → (key b).length ≤ (key e).length) ∧
    ∀ a ∈ after, key a <+: w → (key a).length < (key e).length

theorem longestMatch_append (es : List ε) (e : ε) (w : List α) :
    longestMatch key (es ++ [e]) w = offer key w (longestMatch key es w) e := by
  simp [longestMatch]

/-- A sequence has no match exactly when none of its entries matches. -/
theorem longestMatch_eq_none (es : List ε) (w : List α) :
    longestMatch key es w = none ↔ ∀ e ∈ es, ¬ key e <+: w := by
  induction es using List.reverseRecOn with
  | nil => simp [longestMatch]
  | append_singleton es e ih =>
    rw [longestMatch_append, offer]
    by_cases hm : key e <+: w
    · cases hbest : longestMatch key es w with
      | none => simp [hm, Beats]
      | some b =>
        by_cases hb : Beats key e (some b) <;> simp [hm, hb]
    · simp only [hm, false_and, if_false, ih, List.mem_append, List.mem_singleton]
      constructor
      · intro h e' hyp
        rcases hyp with he' | rfl
        · exact h e' he'
        · exact hm
      · exact fun h e' he' => h e' (Or.inl he')

/-- The fold computes a match. -/
theorem longestMatch_isMatch (es : List ε) (w : List α) (e : ε) (h : longestMatch key es w = some e) :
    IsMatch key es w e := by
  induction es using List.reverseRecOn generalizing e with
  | nil => simp [longestMatch] at h
  | append_singleton es x ih =>
    rw [longestMatch_append, offer] at h
    split at h
    · rename_i hx
      cases h
      refine ⟨hx.1, es, [], rfl, ?_, fun a ha => absurd ha List.not_mem_nil⟩
      intro b hb hbw
      cases hbest : longestMatch key es w with
      | none => exact absurd hbw ((longestMatch_eq_none key es w).mp hbest b hb)
      | some m =>
        have hm := ih m hbest
        have hle : (key m).length ≤ (key x).length := by
          have := hx.2
          rwa [hbest] at this
        obtain ⟨before, after, rfl, hbefore, hafter⟩ := hm.split
        rcases List.mem_append.mp hb with hb | hb
        · exact le_trans (hbefore b hb hbw) hle
        · rcases List.mem_cons.mp hb with rfl | hb
          · exact hle
          · exact le_trans (le_of_lt (hafter b hb hbw)) hle
    · rename_i hx
      have he := ih e h
      obtain ⟨before, after, rfl, hbefore, hafter⟩ := he.split
      refine ⟨he.matches_, before, after ++ [x], by simp, hbefore, ?_⟩
      intro a ha haw
      rcases List.mem_append.mp ha with ha | ha
      · exact hafter a ha haw
      · have hax : a = x := List.mem_singleton.mp ha
        subst hax
        by_contra hlt
        exact hx ⟨haw, by rw [h]; exact not_lt.mp hlt⟩

end NetStack.LongestPrefix
