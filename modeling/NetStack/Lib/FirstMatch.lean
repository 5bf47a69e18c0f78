import Mathlib.Data.List.Nodup

/-! Lists searched for their first match.

Elements carry numbers, given out in order and never again, that tell them apart while their
contents change. A list is searched by a test, and what is found is updated in place; where
nothing is found an element is appended. Updates leave the tests alone. Then an element that
is the first match of a test stays the first match, however the list is searched and grows
(`First.touch`), and whatever else is removed from it (`First.filter`). -/
namespace NetStack.FirstMatch

variable {α : Type} {test test' : α → Bool} {update : α → α} {fresh x : α} {k n : Nat} {l : List (Nat × α)}

/-- The first match updated, or an element with the number `n` appended. -/
def touch (test : α → Bool) (n : Nat) (fresh : α) (update : α → α) : List (Nat × α) → List (Nat × α)
  | [] => [(n, update fresh)]
  | y :: rest => if test y.2 then (y.1, update y.2) :: rest else y :: touch test n fresh update rest

/-- The number of the first match, or of the element that is appended. -/
def found (test : α → Bool) (n : Nat) (l : List (Nat × α)) : Nat :=
  ((l.find? fun y => test y.2).map Prod.fst).getD n

/-- The element numbered `k` is `x`, and the first match. -/
def First (test : α → Bool) (k : Nat) (x : α) (l : List (Nat × α)) : Prop :=
  ∃ before after, l = before ++ (k, x) :: after ∧ (∀ y ∈ before, test y.2 = false) ∧ test x = true

theorem First.mem (h : First test k x l) : (k, x) ∈ l := by
  obtain ⟨before, after, rfl, -⟩ := h
  exact List.mem_append_right _ (List.mem_cons_self ..)

/-! ### One search -/

theorem touch_missing (h : ∀ y ∈ l, test y.2 = false) :
    touch test n fresh update l = l ++ [(n, update fresh)] := by
  induction l with
  | nil => rfl
  | cons y rest ih =>
    have hy := h y (List.mem_cons_self ..)
    rw [touch, hy, if_neg Bool.false_ne_true, List.cons_append, ih fun z hz => h z (List.mem_cons_of_mem y hz)]

/-- There is a first match, or none. -/
theorem first_or_none (test : α → Bool) (l : List (Nat × α)) :
    (∃ k x, First test k x l) ∨ ∀ y ∈ l, test y.2 = false := by
  induction l with
  | nil => exact .inr nofun
  | cons y rest ih =>
    cases hy : test y.2 with
    | true => exact .inl ⟨y.1, y.2, [], rest, rfl, nofun, hy⟩
    | false =>
      rcases ih with ⟨k, x, before, after, rfl, hbefore, hx⟩ | hnone
      · exact .inl ⟨k, x, y :: before, after, rfl, List.forall_mem_cons.mpr ⟨hy, hbefore⟩, hx⟩
      · exact .inr (List.forall_mem_cons.mpr ⟨hy, hnone⟩)

theorem First.find? (h : First test k x l) : l.find? (fun y => test y.2) = some (k, x) := by
  obtain ⟨before, after, rfl, hbefore, hx⟩ := h
  rw [List.find?_append, List.find?_eq_none.mpr fun y hy => by simp [hbefore y hy], Option.none_or, List.find?_cons]
  simp only [hx]

/-- What a search finds, an element that is appended included. -/
def chosen (test : α → Bool) (fresh : α) (l : List (Nat × α)) : α :=
  ((l.find? fun y => test y.2).map Prod.snd).getD fresh

theorem First.found (h : First test k x l) : found test n l = k := by
  rw [FirstMatch.found, h.find?]
  rfl

theorem First.chosen (h : First test k x l) : chosen test fresh l = x := by
  rw [FirstMatch.chosen, h.find?]
  rfl

theorem find?_missing (h : ∀ y ∈ l, test y.2 = false) : l.find? (fun y => test y.2) = none :=
  List.find?_eq_none.mpr fun y hy => by simp [h y hy]

/-- What a search finds is the first match after it. -/
theorem first_touch_self (hupdate : ∀ y, test (update y) = test y) (hfresh : test fresh = true) (n : Nat)
    (l : List (Nat × α)) :
    First test (found test n l) (update (chosen test fresh l)) (touch test n fresh update l) := by
  rcases first_or_none test l with ⟨k, x, h⟩ | hnone
  · rw [h.found, h.chosen]
    obtain ⟨before, after, rfl, hbefore, hx⟩ := h
    refine ⟨before, after, ?_, hbefore, (hupdate x).trans hx⟩
    induction before with
    | nil => rw [List.nil_append, List.nil_append, touch, if_pos hx]
    | cons y before ih =>
      obtain ⟨hy, hbefore⟩ := List.forall_mem_cons.mp hbefore
      rw [List.cons_append, List.cons_append, touch, hy, if_neg Bool.false_ne_true, ih hbefore]
  · rw [touch_missing hnone, found, chosen, find?_missing hnone]
    exact ⟨l, [], rfl, hnone, (hupdate fresh).trans hfresh⟩

/-! ### Further searches -/

/-- A first match of one test stays so under searches by any other. -/
theorem First.touch (h : First test k x l) (hupdate : ∀ y, test (update y) = test y) (test' : α → Bool) (n : Nat)
    (fresh : α) :
    ∃ x', First test k x' (touch test' n fresh update l) ∧ (x' = x ∨ x' = update x) := by
  obtain ⟨before, after, rfl, hbefore, hx⟩ := h
  induction before with
  | nil =>
    rw [List.nil_append, FirstMatch.touch]
    cases hx' : test' x with
    | true => exact ⟨update x, ⟨[], after, if_pos rfl, nofun, (hupdate x).trans hx⟩, .inr rfl⟩
    | false => exact ⟨x, ⟨[], _, if_neg Bool.false_ne_true, nofun, hx⟩, .inl rfl⟩
  | cons y before ih =>
    obtain ⟨hy, hbefore⟩ := List.forall_mem_cons.mp hbefore
    rw [List.cons_append, FirstMatch.touch]
    cases hy' : test' y.2 with
    | true =>
      refine ⟨x, ⟨(y.1, update y.2) :: before, after, if_pos rfl, ?_, hx⟩, .inl rfl⟩
      exact List.forall_mem_cons.mpr ⟨(hupdate y.2).trans hy, hbefore⟩
    | false =>
      obtain ⟨x', ⟨before', after', heq, hbefore', hx'⟩, hsame⟩ := ih hbefore
      rw [if_neg Bool.false_ne_true, heq]
      exact ⟨x', ⟨y :: before', after', rfl, List.forall_mem_cons.mpr ⟨hy, hbefore'⟩, hx'⟩, hsame⟩

/-- It stays so when others are removed. -/
theorem First.filter (h : First test k x l) {keep : Nat × α → Bool} (hkeep : keep (k, x) = true) :
    First test k x (l.filter keep) := by
  obtain ⟨before, after, rfl, hbefore, hx⟩ := h
  refine ⟨before.filter keep, after.filter keep, ?_, fun y hy => hbefore y (List.mem_of_mem_filter hy), hx⟩
  rw [List.filter_append, List.filter_cons_of_pos hkeep]

/-! ### Numbers -/

/-- The numbers stay, or the new one joins them. -/
theorem map_fst_touch (test : α → Bool) (n : Nat) (fresh : α) (update : α → α) (l : List (Nat × α)) :
    (touch test n fresh update l).map Prod.fst = l.map Prod.fst ∨
      (touch test n fresh update l).map Prod.fst = l.map Prod.fst ++ [n] := by
  induction l with
  | nil => exact .inr rfl
  | cons y rest ih =>
    rw [touch]
    split
    · exact .inl rfl
    · rcases ih with h | h
      · exact .inl (by rw [List.map_cons, h, List.map_cons])
      · exact .inr (by rw [List.map_cons, h, List.map_cons, List.cons_append])

/-- An element comes from one with its number, or is the new one. -/
theorem mem_touch {y : Nat × α} (h : y ∈ touch test n fresh update l) :
    y = (n, update fresh) ∨ ∃ z ∈ l, z.1 = y.1 ∧ (y.2 = z.2 ∨ y.2 = update z.2) := by
  induction l with
  | nil => exact .inl (List.mem_singleton.mp h)
  | cons z rest ih =>
    rw [touch] at h
    split at h
    · rcases List.mem_cons.mp h with rfl | h
      · exact .inr ⟨z, List.mem_cons_self .., rfl, .inr rfl⟩
      · exact .inr ⟨y, List.mem_cons_of_mem z h, rfl, .inl rfl⟩
    · rcases List.mem_cons.mp h with rfl | h
      · exact .inr ⟨y, List.mem_cons_self .., rfl, .inl rfl⟩
      · rcases ih h with hnew | ⟨w, hw, hfrom⟩
        · exact .inl hnew
        · exact .inr ⟨w, List.mem_cons_of_mem z hw, hfrom⟩

/-- Lists whose elements have different numbers, all below `n`. -/
structure Numbered {β : Type} (n : Nat) (lists : β → List (Nat × α)) : Prop where
  nodup : ∀ b, ((lists b).map Prod.fst).Nodup
  below : ∀ b, ∀ y ∈ lists b, y.1 < n
  apart : ∀ b c, ∀ y ∈ lists b, ∀ z ∈ lists c, y.1 = z.1 → b = c

section Numbered

variable {β : Type} {lists : β → List (Nat × α)} {b c : β}

/-- A number stands for one element. -/
theorem Numbered.unique (h : Numbered n lists) {y z : Nat × α} (hy : y ∈ lists b) (hz : z ∈ lists c)
    (hyz : y.1 = z.1) : b = c ∧ y = z := by
  obtain rfl := h.apart b c y hy z hz hyz
  exact ⟨rfl, List.inj_on_of_nodup_map (h.nodup b) hy hz hyz⟩

theorem Numbered.touch [DecidableEq β] (h : Numbered n lists) (b : β) (test : α → Bool) (fresh : α) (update : α → α) :
    Numbered (n + 1) (Function.update lists b (touch test n fresh update (lists b))) := by
  have hfrom : ∀ c, ∀ y ∈ Function.update lists b (FirstMatch.touch test n fresh update (lists b)) c,
      y.1 = n ∧ c = b ∨ ∃ z ∈ lists c, z.1 = y.1 := by
    intro c y hy
    by_cases hc : c = b
    · subst hc
      rw [Function.update_self] at hy
      rcases mem_touch hy with rfl | ⟨z, hz, hzy, -⟩
      · exact .inl ⟨rfl, rfl⟩
      · exact .inr ⟨z, hz, hzy⟩
    · rw [Function.update_of_ne hc] at hy
      exact .inr ⟨y, hy, rfl⟩
  refine ⟨fun c => ?_, fun c y hy => ?_, fun c d y hy z hz hyz => ?_⟩
  · by_cases hc : c = b
    · subst hc
      rw [Function.update_self]
      rcases map_fst_touch test n fresh update (lists c) with heq | heq
      · rw [heq]
        exact h.nodup c
      · rw [heq]
        refine List.nodup_append.mpr ⟨h.nodup c, List.nodup_singleton n, fun k hk m hm hkm => ?_⟩
        obtain ⟨y, hy, rfl⟩ := List.mem_map.mp hk
        have hlt := h.below c y hy
        rw [hkm, List.mem_singleton.mp hm] at hlt
        exact Nat.lt_irrefl n hlt
    · rw [Function.update_of_ne hc]
      exact h.nodup c
  · rcases hfrom c y hy with ⟨hn, -⟩ | ⟨z, hz, hzy⟩
    · omega
    · have hlt := h.below c z hz
      omega
  · rcases hfrom c y hy with ⟨hn, rfl⟩ | ⟨y', hy', hyy'⟩
    · rcases hfrom d z hz with ⟨-, rfl⟩ | ⟨z', hz', hzz'⟩
      · rfl
      · have hlt := h.below d z' hz'
        omega
    · rcases hfrom d z hz with ⟨hn, -⟩ | ⟨z', hz', hzz'⟩
      · have hlt := h.below c y' hy'
        omega
      · exact h.apart c d y' hy' z' hz' (by omega)

theorem Numbered.filter (h : Numbered n lists) (keep : Nat × α → Bool) :
    Numbered n fun b => (lists b).filter keep :=
  ⟨fun b => (h.nodup b).sublist (List.Sublist.map _ List.filter_sublist),
    fun b y hy => h.below b y (List.mem_of_mem_filter hy),
    fun b c y hy z hz => h.apart b c y (List.mem_of_mem_filter hy) z (List.mem_of_mem_filter hz)⟩

end Numbered

end NetStack.FirstMatch
