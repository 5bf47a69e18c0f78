import Mathlib.Combinatorics.SimpleGraph.Metric

/-! Distance in a graph.

A vertex that can be reached and is not the source has a neighbour one closer to it, so
what holds at the source and passes from each vertex to its neighbours one further out
holds wherever the source reaches. -/
namespace NetStack.Distance

variable {V : Type*} {G : SimpleGraph V} {u v w : V}

/-- Neighbours are at most one apart. -/
theorem dist_le_succ (hreach : G.Reachable u w) (hadj : G.Adj w v) : G.dist u v ≤ G.dist u w + 1 := by
  obtain ⟨walk, hlen⟩ := hreach.exists_walk_length_eq_dist
  have hstep := SimpleGraph.dist_le (walk.concat hadj)
  rwa [SimpleGraph.Walk.length_concat, hlen] at hstep

/-- A neighbour one closer. -/
theorem exists_closer (hreach : G.Reachable u v) {d : Nat} (h : G.dist u v = d + 1) :
    ∃ w, G.Adj w v ∧ G.Reachable u w ∧ G.dist u w = d := by
  obtain ⟨walk, hlen⟩ := hreach.exists_walk_length_eq_dist
  rw [h] at hlen
  cases hrev : walk.reverse with
  | nil =>
    have := congrArg SimpleGraph.Walk.length hrev
    simp only [SimpleGraph.Walk.length_reverse, SimpleGraph.Walk.length_nil] at this
    omega
  | cons hadj rest =>
    rename_i w
    have hrest : rest.length = d := by
      have := congrArg SimpleGraph.Walk.length hrev
      simp only [SimpleGraph.Walk.length_reverse, SimpleGraph.Walk.length_cons] at this
      omega
    have hle : G.dist u w ≤ d := by
      have := SimpleGraph.dist_le rest.reverse
      rwa [SimpleGraph.Walk.length_reverse, hrest] at this
    have hreach' : G.Reachable u w := ⟨rest.reverse⟩
    have hge := dist_le_succ hreach' hadj.symm
    exact ⟨w, hadj.symm, hreach', by omega⟩

/-- From the source outwards. -/
theorem outwards {P : V → Prop} (source : P u)
    (further : ∀ v w, G.Adj v w → G.Reachable u v → G.dist u w = G.dist u v + 1 → P v → P w) (v : V)
    (hreach : G.Reachable u v) : P v := by
  induction hd : G.dist u v generalizing v with
  | zero =>
    obtain rfl := hreach.dist_eq_zero_iff.mp hd
    exact source
  | succ d ih =>
    obtain ⟨w, hadj, hreach', hw⟩ := exists_closer hreach hd
    exact further w v hadj hreach' (by rw [hd, hw]) (ih w hreach' hw)

/-- A graph has more vertices than steps to any of them. -/
theorem dist_lt_card [Fintype V] (hreach : G.Reachable u v) : G.dist u v < Fintype.card V := by
  obtain ⟨walk, hpath, hlen⟩ := hreach.exists_path_of_dist
  rw [← hlen]
  exact hpath.length_lt

end NetStack.Distance
