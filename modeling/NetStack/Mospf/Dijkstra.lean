import NetStack.Lib.Distance
import NetStack.Mospf.Route
import Mathlib.Data.Finset.Range

/-! `Dijkstra` and `find_next_hop`.

The numbered routers are vertices of a graph, and the matrix has 1 for its edges and
`noLink` elsewhere. Whatever a visited router's distance is, it is its distance in the
graph; an unvisited one's is at most one more than that of any neighbour that has been
visited; and each comes with the neighbour it was found over. -/
namespace NetStack.Mospf

variable {V : Type} {G : SimpleGraph V}

/-- The numbers below `idx` name the vertices of a graph, of which `graph` is the matrix. -/
structure Numbered (graph : Nat → Nat → Int) (idx : Nat) (G : SimpleGraph V) (name : Nat → V) : Prop where
  pos : 0 < idx
  inj : ∀ i < idx, ∀ j < idx, name i = name j → i = j
  surj : ∀ v, ∃ i < idx, name i = v
  link : ∀ i < idx, ∀ j < idx, G.Adj (name i) (name j) → graph i j = 1
  apart : ∀ i < idx, ∀ j < idx, i ≠ j → ¬G.Adj (name i) (name j) → graph i j = noLink

theorem Numbered.card_le [Fintype V] {graph : Nat → Nat → Int} {idx : Nat} {name : Nat → V}
    (h : Numbered graph idx G name) : Fintype.card V ≤ idx := by
  have hsurj : Function.Surjective fun i : Fin idx => name i := by
    intro v
    obtain ⟨i, hi, rfl⟩ := h.surj v
    exact ⟨⟨i, hi⟩, rfl⟩
  have hcard := Fintype.card_le_of_surjective _ hsurj
  rwa [Fintype.card_fin] at hcard

/-! ### The graph of a matrix -/

section Matrix

variable {graph : Nat → Nat → Int} {n : Nat}

/-- The links of a matrix. -/
def links (graph : Nat → Nat → Int) (n : Nat) : SimpleGraph (Fin n) :=
  SimpleGraph.fromRel fun u v => graph u v = 1

/-- The vertex with a number. -/
def vertex (hpos : 0 < n) (i : Nat) : Fin n := ⟨i % n, Nat.mod_lt i hpos⟩

@[simp] theorem vertex_fin (hpos : 0 < n) (v : Fin n) : vertex hpos v = v :=
  Fin.ext (Nat.mod_eq_of_lt v.isLt)

theorem vertex_of_lt (hpos : 0 < n) {i : Nat} (hi : i < n) : vertex hpos i = ⟨i, hi⟩ :=
  Fin.ext (Nat.mod_eq_of_lt hi)

/-- A matrix that is the same both ways, with 1 and `noLink` in it, is that of its links. -/
theorem numbered_links (hpos : 0 < n) (hsym : ∀ i < n, ∀ j < n, graph i j = graph j i)
    (hentry : ∀ i < n, ∀ j < n, graph i j = 1 ∨ graph i j = noLink) :
    Numbered graph n (links graph n) (vertex hpos) where
  pos := hpos
  inj i hi j hj h := by
    rw [vertex_of_lt hpos hi, vertex_of_lt hpos hj] at h
    exact congrArg Fin.val h
  surj v := ⟨v, v.isLt, vertex_fin hpos v⟩
  link i hi j hj hadj := by
    rw [vertex_of_lt hpos hi, vertex_of_lt hpos hj, links, SimpleGraph.fromRel_adj] at hadj
    rcases hadj.2 with hone | hone
    · exact hone
    · exact (hsym i hi j hj).trans hone
  apart i hi j hj hne hadj := by
    refine (hentry i hi j hj).resolve_left fun hone => hadj ?_
    rw [vertex_of_lt hpos hi, vertex_of_lt hpos hj, links, SimpleGraph.fromRel_adj]
    exact ⟨fun h => hne (congrArg Fin.val h), .inl hone⟩

end Matrix

/-! ### The nearest unvisited router -/

section MinDist

variable {dist : Nat → Int} {visited : Nat → Bool} {num u : Nat}

theorem minDist_succ : minDist dist visited (num + 1) =
    if visited num then minDist dist visited num
    else
      match minDist dist visited num with
      | none => some num
      | some least => if dist num < dist least then some num else minDist dist visited num := by
  rw [minDist, List.range_succ, List.foldl_append]
  rfl

/-- `min_dist` finds no router when all have been visited. -/
theorem minDist_none (h : minDist dist visited num = none) : ∀ w < num, visited w = true := by
  induction num with
  | zero => exact fun w hw => absurd hw (Nat.not_lt_zero w)
  | succ num ih =>
    rw [minDist_succ] at h
    split at h
    · rename_i hvisited
      intro w hw
      rcases Nat.lt_succ_iff_lt_or_eq.mp hw with hw | rfl
      · exact ih h w hw
      · exact hvisited
    · split at h
      · cases h
      · split at h <;> simp_all

/-- Otherwise it finds one that has not, and none of those is nearer. -/
theorem minDist_some (h : minDist dist visited num = some u) :
    u < num ∧ visited u = false ∧ ∀ w < num, visited w = false → dist u ≤ dist w := by
  induction num generalizing u with
  | zero => cases h
  | succ num ih =>
    rw [minDist_succ] at h
    split at h
    · rename_i hvisited
      obtain ⟨hlt, hu, hleast⟩ := ih h
      refine ⟨Nat.lt_succ_of_lt hlt, hu, fun w hw hw' => ?_⟩
      rcases Nat.lt_succ_iff_lt_or_eq.mp hw with hw | rfl
      · exact hleast w hw hw'
      · exact absurd hvisited (by rw [hw']; exact Bool.false_ne_true)
    · rename_i hnum
      have hnum : visited num = false := Bool.eq_false_iff.mpr hnum
      split at h
      · rename_i hnone
        cases h
        refine ⟨Nat.lt_succ_self _, hnum, fun w hw hw' => ?_⟩
        rcases Nat.lt_succ_iff_lt_or_eq.mp hw with hw | rfl
        · exact absurd (minDist_none hnone w hw) (by rw [hw']; exact Bool.false_ne_true)
        · exact le_refl _
      · rename_i least hsome
        obtain ⟨hlt, hu, hleast⟩ := ih hsome
        split at h
        · rename_i hless
          cases h
          refine ⟨Nat.lt_succ_self _, hnum, fun w hw hw' => ?_⟩
          rcases Nat.lt_succ_iff_lt_or_eq.mp hw with hw | rfl
          · exact (le_of_lt hless).trans (hleast w hw hw')
          · exact le_refl _
        · rename_i hless
          rw [hsome] at h
          cases h
          refine ⟨Nat.lt_succ_of_lt hlt, hu, fun w hw hw' => ?_⟩
          rcases Nat.lt_succ_iff_lt_or_eq.mp hw with hw | rfl
          · exact hleast w hw hw'
          · exact not_lt.mp hless

/-- How many routers are left to visit. -/
def unvisited (idx : Nat) (visited : Nat → Bool) : Nat :=
  ((Finset.range idx).filter fun v => visited v = false).card

theorem unvisited_update (hlt : u < num) (hu : visited u = false) :
    unvisited num (Function.update visited u true) + 1 = unvisited num visited := by
  have hmem : u ∈ (Finset.range num).filter fun v => visited v = false :=
    Finset.mem_filter.mpr ⟨Finset.mem_range.mpr hlt, hu⟩
  have herase : ((Finset.range num).filter fun v => Function.update visited u true v = false) =
      ((Finset.range num).filter fun v => visited v = false).erase u := by
    ext v
    by_cases hvu : v = u
    · simp [hvu]
    · simp [hvu]
  rw [unvisited, herase, Finset.card_erase_add_one hmem, unvisited]

theorem unvisited_zero (h : unvisited num visited = 0) : ∀ w < num, visited w = true := by
  intro w hw
  have hnot := Finset.filter_eq_empty_iff.mp (Finset.card_eq_zero.mp h) (Finset.mem_range.mpr hw)
  exact Bool.not_eq_false _ ▸ hnot

theorem unvisited_all : unvisited num (fun _ => false) = num := by
  rw [unvisited, Finset.filter_true_of_mem fun _ _ => rfl, Finset.card_range]

/-- `min_dist` finds a router as long as one is left to visit. -/
theorem exists_minDist (dist : Nat → Int) (h : 0 < unvisited num visited) :
    ∃ u, minDist dist visited num = some u := by
  cases hu : minDist dist visited num with
  | some u => exact ⟨u, rfl⟩
  | none =>
    have hall := minDist_none hu
    have hzero : unvisited num visited = 0 := by
      refine Finset.card_eq_zero.mpr (Finset.filter_eq_empty_iff.mpr fun w hw => ?_)
      rw [hall w (Finset.mem_range.mp hw)]
      exact Bool.noConfusion
    omega

theorem minDist_of_all (h : unvisited num visited = 0) : minDist dist visited num = none := by
  cases hu : minDist dist visited num with
  | none => rfl
  | some u =>
    obtain ⟨hlt, hunvisited, -⟩ := minDist_some hu
    rw [unvisited_zero h u hlt] at hunvisited
    cases hunvisited

/-- A loop that visits one router each time, as long as there is one, comes to them all;
what it keeps holds at the end. -/
theorem visit_all {σ : Type} {step : σ → σ} {seen : σ → Nat → Bool} {Inv : σ → Prop}
    (hkeep : ∀ s, Inv s → Inv (step s))
    (hvisit : ∀ s, Inv s → (∀ w < num, seen (step s) w = true) ∨
      ∃ u < num, seen s u = false ∧ seen (step s) = Function.update (seen s) u true)
    {s : σ} (hs : Inv s) {k : Nat} (hk : unvisited num (seen s) ≤ k) :
    Inv (step^[k] s) ∧ ∀ w < num, seen (step^[k] s) w = true := by
  induction k generalizing s with
  | zero => exact ⟨hs, unvisited_zero (Nat.le_zero.mp hk)⟩
  | succ k ih =>
    rw [Function.iterate_succ_apply]
    apply ih (hkeep s hs)
    rcases hvisit s hs with hall | ⟨u, hlt, hu, hstep⟩
    · have : unvisited num (seen (step s)) = 0 := by
        refine Finset.card_eq_zero.mpr (Finset.filter_eq_empty_iff.mpr fun w hw => ?_)
        rw [hall w (Finset.mem_range.mp hw)]
        exact Bool.noConfusion
      omega
    · have := unvisited_update hlt hu
      rw [hstep]
      omega

theorem unvisited_le : unvisited num visited ≤ num := by
  have := Finset.card_filter_le (Finset.range num) fun v => visited v = false
  rwa [Finset.card_range] at this

end MinDist

/-! ### One visit -/

section Relax

variable {graph : Nat → Nat → Int} {paths : Paths} {u : Nat}

/-- What the loop over some routers leaves in the arrays. -/
structure Paths.Relaxed (graph : Nat → Nat → Int) (u : Nat) (vs : List Nat) (paths paths' : Paths) :
    Prop where
  visited : paths'.visited = paths.visited
  dist : ∀ v, paths'.dist v =
    if v ∈ vs ∧ paths.Improves graph u v then paths.dist u + graph u v else paths.dist v
  prev : ∀ v, paths'.prev v = if v ∈ vs ∧ paths.Improves graph u v then some u else paths.prev v

/-- The loop's body. -/
theorem Paths.relaxed_one (w : Nat) : paths.Relaxed graph u [w] (Paths.relax graph u paths w) := by
  unfold Paths.relax
  by_cases h : paths.Improves graph u w
  · rw [if_pos h]
    refine ⟨rfl, fun v => ?_, fun v => ?_⟩ <;> by_cases hvw : v = w
    · rw [hvw, if_pos ⟨List.mem_singleton_self w, h⟩]
      exact Function.update_self ..
    · rw [if_neg fun hv => hvw (List.mem_singleton.mp hv.1)]
      exact Function.update_of_ne hvw ..
    · rw [hvw, if_pos ⟨List.mem_singleton_self w, h⟩]
      exact Function.update_self ..
    · rw [if_neg fun hv => hvw (List.mem_singleton.mp hv.1)]
      exact Function.update_of_ne hvw ..
  · have hno : ∀ v, ¬(v ∈ [w] ∧ paths.Improves graph u v) := fun v hv =>
      h (List.mem_singleton.mp hv.1 ▸ hv.2)
    rw [if_neg h]
    exact ⟨rfl, fun v => by rw [if_neg (hno v)], fun v => by rw [if_neg (hno v)]⟩

/-- The distance of a visited router does not change, so each router is judged by the
same one. -/
theorem Paths.relaxed (hu : paths.visited u = true) {vs : List Nat} (hvs : vs.Nodup) :
    paths.Relaxed graph u vs (vs.foldl (Paths.relax graph u) paths) := by
  induction vs generalizing paths with
  | nil => exact ⟨rfl, fun v => by simp, fun v => by simp⟩
  | cons w vs ih =>
    obtain ⟨hnotin, hvs⟩ := List.nodup_cons.mp hvs
    have hone : paths.Relaxed graph u [w] (Paths.relax graph u paths w) := Paths.relaxed_one w
    have hself : (Paths.relax graph u paths w).dist u = paths.dist u := by
      rw [hone.dist, if_neg]
      intro hyp
      obtain ⟨-, hunvisited, -⟩ := hyp
      rw [hu] at hunvisited
      cases hunvisited
    have hstill : (Paths.relax graph u paths w).visited u = true := by rw [hone.visited, hu]
    have hrest := ih hstill hvs
    -- a router of the rest has not been judged yet
    have hbefore : ∀ v ∈ vs, (Paths.relax graph u paths w).dist v = paths.dist v ∧
        ((Paths.relax graph u paths w).Improves graph u v ↔ paths.Improves graph u v) := by
      intro v hv
      have hsame : (Paths.relax graph u paths w).dist v = paths.dist v := by
        rw [hone.dist, if_neg]
        intro hyp
        obtain ⟨hvw, -⟩ := hyp
        exact hnotin (List.mem_singleton.mp hvw ▸ hv)
      refine ⟨hsame, ?_⟩
      unfold Paths.Improves
      rw [hone.visited, hself, hsame]
    refine ⟨hrest.visited.trans hone.visited, fun v => ?_, fun v => ?_⟩
    · rw [List.foldl_cons, hrest.dist, hself]
      by_cases hv : v ∈ vs
      · simp only [hbefore v hv, hv, List.mem_cons_of_mem w hv]
      · rw [if_neg fun h => hv h.1, hone.dist]
        simp only [List.mem_cons, hv, or_false, List.not_mem_nil]
    · rw [List.foldl_cons, hrest.prev]
      by_cases hv : v ∈ vs
      · have hprev : (Paths.relax graph u paths w).prev v = paths.prev v := by
          rw [hone.prev, if_neg]
          intro hyp
          obtain ⟨hvw, -⟩ := hyp
          exact hnotin (List.mem_singleton.mp hvw ▸ hv)
        simp only [hbefore v hv, hv, List.mem_cons_of_mem w hv, hprev]
      · rw [if_neg fun h => hv h.1, hone.prev]
        simp only [List.mem_cons, hv, or_false, List.not_mem_nil]

end Relax

/-! ### The invariant -/

/-- What holds of the arrays between visits. -/
structure Paths.Sound (idx : Nat) (G : SimpleGraph V) (name : Nat → V) (paths : Paths) : Prop where
  source : paths.dist 0 = 0
  source_prev : paths.prev 0 = none
  dist_le : ∀ v < idx, paths.dist v ≤ int8Max
  found : ∀ v < idx, paths.dist v < int8Max → v ≠ 0 → ∃ u < idx, paths.prev v = some u ∧
    paths.visited u = true ∧ G.Adj (name u) (name v) ∧ paths.dist v = paths.dist u + 1
  reach : ∀ v < idx, paths.dist v < int8Max →
    G.Reachable (name 0) (name v) ∧ (G.dist (name 0) (name v) : Int) ≤ paths.dist v
  settled : ∀ u < idx, paths.visited u = true → G.Reachable (name 0) (name u) →
    paths.dist u = G.dist (name 0) (name u)
  near : ∀ u < idx, ∀ v < idx, paths.visited u = true → G.Adj (name u) (name v) →
    paths.dist v ≤ paths.dist u + 1

section Visits

variable {idx : Nat} {name : Nat → V} {paths paths' : Paths} {u v w : Nat}

/-- What a visit to the nearest unvisited router comes to: each router keeps what it has, or
was further away than over the one visited. -/
structure Paths.Visits (idx : Nat) (G : SimpleGraph V) (name : Nat → V) (u : Nat) (paths paths' : Paths) :
    Prop where
  visited : paths'.visited = Function.update paths.visited u true
  routes : ∀ v < idx,
    ((paths'.dist v = paths.dist v ∧ paths'.prev v = paths.prev v) ∧
      (paths.visited v = false → v ≠ u → G.Adj (name u) (name v) → paths.dist v ≤ paths.dist u + 1)) ∨
    ((paths'.dist v = paths.dist u + 1 ∧ paths'.prev v = some u) ∧
      paths.visited v = false ∧ v ≠ u ∧ G.Adj (name u) (name v) ∧ paths.dist u + 1 < paths.dist v)

namespace Paths.Visits

theorem now (hvisits : Paths.Visits idx G name u paths paths') : paths'.visited u = true := by
  rw [hvisits.visited, Function.update_self]

theorem before (hvisits : Paths.Visits idx G name u paths paths') (hw : paths'.visited w = true)
    (hwu : w ≠ u) : paths.visited w = true := by
  rwa [hvisits.visited, Function.update_of_ne hwu] at hw

theorem more (hvisits : Paths.Visits idx G name u paths paths') (hw : paths.visited w = true) :
    paths'.visited w = true := by
  rw [hvisits.visited]
  by_cases hwu : w = u
  · rw [hwu, Function.update_self]
  · rwa [Function.update_of_ne hwu]

/-- A router visited, now or before, keeps its distance. -/
theorem kept (hvisits : Paths.Visits idx G name u paths paths') (hw : w < idx)
    (hw' : paths'.visited w = true) : paths'.dist w = paths.dist w := by
  rcases hvisits.routes w hw with ⟨⟨hsame, -⟩, -⟩ | ⟨-, hno, hne, -⟩
  · exact hsame
  · rw [hvisits.before hw' hne] at hno
    cases hno

theorem down (hvisits : Paths.Visits idx G name u paths paths') (hw : w < idx) :
    paths'.dist w ≤ paths.dist w := by
  rcases hvisits.routes w hw with ⟨⟨hsame, -⟩, -⟩ | ⟨⟨hnew, -⟩, -, -, -, hless⟩ <;> omega

variable (h : paths.Sound idx G name)
include h

theorem found (hvisits : Paths.Visits idx G name u paths paths') (hu : u < idx) (hv : v < idx)
    (hfar : paths'.dist v < int8Max) (hne : v ≠ 0) : ∃ w < idx, paths'.prev v = some w ∧
      paths'.visited w = true ∧ G.Adj (name w) (name v) ∧ paths'.dist v = paths'.dist w + 1 := by
  rcases hvisits.routes v hv with ⟨⟨hdist, hprev⟩, -⟩ | ⟨⟨hdist, hprev⟩, -, -, hadj, -⟩
  · rw [hdist] at hfar
    obtain ⟨w, hw, hwprev, hw', hadj, hstep⟩ := h.found v hv hfar hne
    have hmore := hvisits.more hw'
    exact ⟨w, hw, hprev.trans hwprev, hmore, hadj, by rw [hdist, hvisits.kept hw hmore, hstep]⟩
  · exact ⟨u, hu, hprev, hvisits.now, hadj, by rw [hdist, hvisits.kept hu hvisits.now]⟩

theorem reach (hvisits : Paths.Visits idx G name u paths paths') (hu : u < idx) (hv : v < idx)
    (hfar : paths'.dist v < int8Max) :
    G.Reachable (name 0) (name v) ∧ (G.dist (name 0) (name v) : Int) ≤ paths'.dist v := by
  rcases hvisits.routes v hv with ⟨⟨hdist, -⟩, -⟩ | ⟨⟨hdist, -⟩, -, -, hadj, hless⟩
  · rw [hdist] at hfar ⊢
    exact h.reach v hv hfar
  · have hle := h.dist_le v hv
    obtain ⟨hreach, hge⟩ := h.reach u hu (by omega)
    have hone := Distance.dist_le_succ hreach hadj
    exact ⟨hreach.trans hadj.reachable, by omega⟩

/-- The links of the router visited have been looked at, those to routers visited before
when these were. -/
theorem near (hvisits : Paths.Visits idx G name u paths paths') (hu : u < idx) (hv : v < idx)
    (hleast : G.Reachable (name 0) (name u) → paths.dist u = G.dist (name 0) (name u))
    (hadj : G.Adj (name u) (name v)) : paths'.dist v ≤ paths.dist u + 1 := by
  rcases hvisits.routes v hv with ⟨⟨hdist, -⟩, hnear⟩ | ⟨⟨hdist, -⟩, -⟩
  · rw [hdist]
    cases hv' : paths.visited v with
    | false => exact hnear hv' (fun hvu => hadj.ne (by rw [hvu])) hadj
    | true =>
      by_cases hreach : G.Reachable (name 0) (name u)
      · rw [h.settled v hv hv' (hreach.trans hadj.reachable), hleast hreach]
        have := Distance.dist_le_succ hreach hadj
        omega
      · have hfar : ¬paths.dist u < int8Max := fun hnear => hreach (h.reach u hu hnear).1
        have := h.dist_le v hv
        omega
  · omega

end Paths.Visits

end Visits

section Visit

variable {graph : Nat → Nat → Int} {idx : Nat} {name : Nat → V} {paths : Paths} {u v : Nat}
  (hnum : Numbered graph idx G name)
include hnum

/-- Every vertex within reach has been visited, or one no further away is still to be. -/
theorem Paths.Sound.frontier (h : paths.Sound idx G name) (x : V) (hx : G.Reachable (name 0) x) :
    (∃ i < idx, name i = x ∧ paths.visited i = true) ∨
      ∃ i < idx, paths.visited i = false ∧ paths.dist i ≤ G.dist (name 0) x := by
  refine Distance.outwards (P := fun x => (∃ i < idx, name i = x ∧ paths.visited i = true) ∨
    ∃ i < idx, paths.visited i = false ∧ paths.dist i ≤ G.dist (name 0) x) ?_ ?_ x hx
  · cases h0 : paths.visited 0 with
    | true => exact .inl ⟨0, hnum.pos, rfl, h0⟩
    | false =>
      refine .inr ⟨0, hnum.pos, h0, ?_⟩
      rw [h.source]
      exact Int.natCast_nonneg _
  · intro x y hadj hreach hdist hyp
    rcases hyp with ⟨i, hi, rfl, hvisited⟩ | ⟨i, hi, hunvisited, hle⟩
    · obtain ⟨j, hj, rfl⟩ := hnum.surj y
      cases hvj : paths.visited j with
      | true => exact .inl ⟨j, hj, rfl, hvj⟩
      | false =>
        have hnear := h.near i hi j hj hvisited hadj
        have hset := h.settled i hi hvisited hreach
        exact .inr ⟨j, hj, hvj, by omega⟩
    · exact .inr ⟨i, hi, hunvisited, by omega⟩

/-- The nearest unvisited router is as far as it seems. -/
theorem Paths.Sound.least [Fintype V] (h : paths.Sound idx G name) (hcard : Fintype.card V ≤ 127)
    (hu : minDist paths.dist paths.visited idx = some u) (hreach : G.Reachable (name 0) (name u)) :
    paths.dist u = G.dist (name 0) (name u) := by
  obtain ⟨hlt, hunvisited, hleast⟩ := minDist_some hu
  have hle : paths.dist u ≤ G.dist (name 0) (name u) := by
    rcases h.frontier hnum (name u) hreach with ⟨i, hi, hname, hvisited⟩ | ⟨i, hi, hi', hle⟩
    · rw [hnum.inj i hi u hlt hname, hunvisited] at hvisited
      cases hvisited
    · exact (hleast i hi hi').trans hle
  have hshort := Distance.dist_lt_card hreach
  have hmax : int8Max = 127 := rfl
  exact le_antisymm hle (h.reach u hlt (by omega)).2

omit hnum in
theorem Paths.Sound.nonneg (h : paths.Sound idx G name) (hv : v < idx) : 0 ≤ paths.dist v := by
  by_cases hfar : paths.dist v < int8Max
  · have := (h.reach v hv hfar).2
    omega
  · have hmax : int8Max = 127 := rfl
    omega

/-- Only a link is an improvement. -/
theorem Paths.Sound.improves (h : paths.Sound idx G name) (hu : u < idx) (hv : v < idx) (hne : u ≠ v)
    (hless : paths.dist u + graph u v < paths.dist v) : G.Adj (name u) (name v) ∧ graph u v = 1 := by
  have hadj : G.Adj (name u) (name v) := by
    by_contra hadj
    have hno := hnum.apart u hu v hv hne hadj
    have hle := h.dist_le v hv
    have hpos := h.nonneg hu
    have hmax : int8Max = 127 := rfl
    have hlink : noLink = 0x7E7E7E7E := rfl
    omega
  exact ⟨hadj, hnum.link u hu v hv hadj⟩

/-- A visit is to the nearest unvisited router. -/
theorem Paths.Sound.visit (h : paths.Sound idx G name)
    (hu : minDist paths.dist paths.visited idx = some u) :
    Paths.Visits idx G name u paths (paths.visit graph idx) := by
  obtain ⟨hlt, -, -⟩ := minDist_some hu
  have hvisit : paths.visit graph idx = (List.range idx).foldl (Paths.relax graph u)
      { paths with visited := Function.update paths.visited u true } := by
    unfold Paths.visit
    rw [hu]
  have hrel : Paths.Relaxed graph u (List.range idx)
      { paths with visited := Function.update paths.visited u true } (paths.visit graph idx) := by
    rw [hvisit]
    exact Paths.relaxed (Function.update_self ..) List.nodup_range
  refine ⟨hrel.visited, fun v hv => ?_⟩
  rw [hrel.dist, hrel.prev]
  by_cases himp : Paths.Improves graph u { paths with visited := Function.update paths.visited u true } v
  · rw [if_pos ⟨List.mem_range.mpr hv, himp⟩, if_pos ⟨List.mem_range.mpr hv, himp⟩]
    obtain ⟨hunvisited, hless⟩ := himp
    have hvu : v ≠ u := by
      intro heq
      subst heq
      change Function.update paths.visited v true v = false at hunvisited
      rw [Function.update_self] at hunvisited
      cases hunvisited
    obtain ⟨hadj, hone⟩ := h.improves hnum hlt hv hvu.symm hless
    rw [hone] at hless ⊢
    exact .inr ⟨⟨rfl, rfl⟩, (Function.update_of_ne hvu ..).symm.trans hunvisited, hvu, hadj, hless⟩
  · rw [if_neg fun hand => himp hand.2, if_neg fun hand => himp hand.2]
    refine .inl ⟨⟨rfl, rfl⟩, fun hunvisited hvu hadj => ?_⟩
    by_contra hless
    refine himp ⟨(Function.update_of_ne hvu ..).trans hunvisited, ?_⟩
    show paths.dist u + graph u v < paths.dist v
    rw [hnum.link u hlt v hv hadj]
    omega

/-- A visit keeps the invariant. -/
theorem Paths.Sound.step [Fintype V] (h : paths.Sound idx G name) (hcard : Fintype.card V ≤ 127) :
    (paths.visit graph idx).Sound idx G name := by
  cases hu : minDist paths.dist paths.visited idx with
  | none =>
    have hvisit : paths.visit graph idx = paths := by
      unfold Paths.visit
      rw [hu]
    rw [hvisit]
    exact h
  | some u =>
    obtain ⟨hlt, -, -⟩ := minDist_some hu
    have hvisits := h.visit hnum hu
    have hleast := h.least hnum hcard hu
    generalize paths.visit graph idx = paths' at hvisits ⊢
    -- the router itself is never improved
    have hsource : paths'.dist 0 = paths.dist 0 ∧ paths'.prev 0 = paths.prev 0 := by
      rcases hvisits.routes 0 hnum.pos with ⟨hsame, -⟩ | ⟨-, -, -, -, hless⟩
      · exact hsame
      · have hpos := h.nonneg hlt
        rw [h.source] at hless
        omega
    refine ⟨hsource.1.trans h.source, hsource.2.trans h.source_prev,
      fun v hv => (hvisits.down hv).trans (h.dist_le v hv), fun v hv => hvisits.found h hlt hv,
      fun v hv => hvisits.reach h hlt hv, fun w hw hw' hreach => ?_, fun w hw v hv hw' hadj => ?_⟩
    · -- settled
      rw [hvisits.kept hw hw']
      by_cases hwu : w = u
      · rw [hwu] at hreach ⊢
        exact hleast hreach
      · exact h.settled w hw (hvisits.before hw' hwu) hreach
    · -- near
      rw [hvisits.kept hw hw']
      by_cases hwu : w = u
      · subst hwu
        exact hvisits.near h hw hv hleast hadj
      · exact (hvisits.down hv).trans (h.near w hw v hv (hvisits.before hw' hwu) hadj)

/-- A visit is to a router not visited, while there is one. -/
theorem Paths.visited_step (h : paths.Sound idx G name) :
    (∀ w < idx, (paths.visit graph idx).visited w = true) ∨
      ∃ u < idx, paths.visited u = false ∧
        (paths.visit graph idx).visited = Function.update paths.visited u true := by
  cases hu : minDist paths.dist paths.visited idx with
  | none =>
    refine .inl fun w hw => ?_
    unfold Paths.visit
    rw [hu]
    exact minDist_none hu w hw
  | some u =>
    obtain ⟨hlt, hunvisited, -⟩ := minDist_some hu
    exact .inr ⟨u, hlt, hunvisited, (h.visit hnum hu).visited⟩

end Visit

/-! ### The result -/

/-- Distances and predecessors in the graph. -/
structure Paths.Shortest (idx : Nat) (G : SimpleGraph V) (name : Nat → V) (paths : Paths) : Prop where
  dist : ∀ v < idx, G.Reachable (name 0) (name v) → paths.dist v = G.dist (name 0) (name v)
  far : ∀ v < idx, ¬G.Reachable (name 0) (name v) → paths.dist v = int8Max
  source : paths.prev 0 = none
  prev : ∀ v < idx, v ≠ 0 → G.Reachable (name 0) (name v) → ∃ u < idx, paths.prev v = some u ∧
    G.Adj (name u) (name v) ∧ G.Reachable (name 0) (name u) ∧
      G.dist (name 0) (name v) = G.dist (name 0) (name u) + 1

section Result

variable {graph : Nat → Nat → Int} {idx : Nat} {name : Nat → V} [Fintype V]

theorem Paths.init_dist (v : Nat) : Paths.init.dist v = if v = 0 then 0 else int8Max := by
  simp [Paths.init, Function.update_apply]

omit [Fintype V] in
/-- Nothing but the router itself has been found at first. -/
theorem Paths.sound_init : Paths.init.Sound idx G name where
  source := Paths.init_dist 0
  source_prev := rfl
  dist_le v _ := by
    rw [Paths.init_dist]
    split <;> decide
  found v _ hfar hv := by
    rw [Paths.init_dist, if_neg hv] at hfar
    exact absurd hfar (lt_irrefl _)
  reach v _ hfar := by
    rw [Paths.init_dist] at hfar ⊢
    split at hfar
    · rename_i hv
      rw [hv, if_pos rfl, SimpleGraph.dist_self]
      exact ⟨.refl _, le_refl _⟩
    · exact absurd hfar (lt_irrefl _)
  settled _ _ h := nomatch h
  near _ _ _ _ h := nomatch h

/-- `Dijkstra` finds the distances in the graph. -/
theorem dijkstra_shortest (hnum : Numbered graph idx G name) (hcard : Fintype.card V ≤ 127) :
    (dijkstra graph idx).Shortest idx G name := by
  have hstart : Paths.init.Sound idx G name := Paths.sound_init
  have hleft : unvisited idx Paths.init.visited ≤ idx := unvisited_le
  obtain ⟨h, hall⟩ := visit_all (fun _ hs => hs.step hnum hcard) (fun _ hs => Paths.visited_step hnum hs)
    hstart hleft
  change (dijkstra graph idx).Sound idx G name at h
  have hdist : ∀ v < idx, G.Reachable (name 0) (name v) →
      (dijkstra graph idx).dist v = G.dist (name 0) (name v) := fun v hv =>
    h.settled v hv (hall v hv)
  refine ⟨hdist, fun v hv hfar => ?_, h.source_prev, fun v hv hne hreach => ?_⟩
  · refine le_antisymm (h.dist_le v hv) (not_lt.mp fun hnear => hfar (h.reach v hv hnear).1)
  · have hshort := Distance.dist_lt_card hreach
    have hmax : int8Max = 127 := rfl
    obtain ⟨u, hu, hprev, -, hadj, hstep⟩ := h.found v hv (by rw [hdist v hv hreach]; omega) hne
    have hreach' := hreach.trans hadj.symm.reachable
    refine ⟨u, hu, hprev, hadj, hreach', ?_⟩
    rw [hdist v hv hreach, hdist u hu hreach'] at hstep
    omega

omit [Fintype V] in
/-- `find_next_hop` ends at a neighbour of the router, on a shortest path. -/
theorem Paths.Shortest.nextHop {paths : Paths} (h : paths.Shortest idx G name)
    (hinj : ∀ i < idx, ∀ j < idx, name i = name j → i = j) (hpos : 0 < idx) {v : Nat} (hv : v < idx)
    (hne : v ≠ 0) (hreach : G.Reachable (name 0) (name v)) {fuel : Nat}
    (hfuel : G.dist (name 0) (name v) ≤ fuel) :
    ∃ j < idx, findNextHop paths.prev fuel v = some j ∧ G.Adj (name 0) (name j) ∧
      G.dist (name j) (name v) + 1 = G.dist (name 0) (name v) := by
  induction fuel generalizing v with
  | zero =>
    have hzero := hreach.dist_eq_zero_iff.mp (Nat.le_zero.mp hfuel)
    exact absurd (hinj 0 hpos v hv hzero).symm hne
  | succ fuel ih =>
    obtain ⟨u, hu, hprev, hadj, hreach', hstep⟩ := h.prev v hv hne hreach
    simp only [findNextHop, hprev]
    by_cases hu0 : u = 0
    · subst hu0
      rw [SimpleGraph.dist_self] at hstep
      exact ⟨v, hv, if_pos rfl, hadj, by rw [SimpleGraph.dist_self, hstep]⟩
    · rw [if_neg hu0]
      obtain ⟨j, hj, hfound, hadj', hdist⟩ := ih hu hu0 hreach' (by omega)
      have hreachj : G.Reachable (name j) (name u) := hadj'.symm.reachable.trans hreach'
      refine ⟨j, hj, hfound, hadj', ?_⟩
      have hle := Distance.dist_le_succ hreachj hadj
      -- no shorter path to `v` leads over `j`
      obtain ⟨walk, hlen⟩ := (hreachj.trans hadj.reachable).exists_walk_length_eq_dist
      have hge := SimpleGraph.dist_le (SimpleGraph.Walk.cons hadj' walk)
      rw [SimpleGraph.Walk.length_cons, hlen] at hge
      omega

end Result

end NetStack.Mospf
