import NetStack.Mospf.Dijkstra

/-! `update_router`.

The gateway-less entries stay in front. Routers are taken in order of distance, each adds
what it advertises and the table does not have, so what a route leads to is a nearest
router of those that advertise it. -/
namespace NetStack.Mospf

/-- The table has an entry for a network and mask. -/
def Holds (rtable : List RtEntry) (a : U32 × U32) : Prop := ∃ entry ∈ rtable, (entry.dest, entry.mask) = a

/-- Some of the LSAs are of a network and mask. -/
def Names (lsas : List MospfLsa) (a : U32 × U32) : Prop := ∃ lsa ∈ lsas, (lsa.network, lsa.mask) = a

theorem checkRtable_iff {rtable : List RtEntry} {network mask : U32} :
    checkRtable rtable network mask = true ↔ Holds rtable (network, mask) := by
  simp only [checkRtable, List.any_eq_true, decide_eq_true_eq, Holds, Prod.mk.injEq]

theorem Holds.append {rtable : List RtEntry} {a : U32 × U32} (h : Holds rtable a) (new : List RtEntry) :
    Holds (rtable ++ new) a := by
  obtain ⟨entry, hentry, ha⟩ := h
  exact ⟨entry, List.mem_append_left _ hentry, ha⟩

/-! ### Longest prefix match -/

/-- An address is in the network with this number and mask. -/
def Covers (a : U32 × U32) (dst : U32) : Prop := dst &&& a.2 = a.1 &&& a.2

theorem longestPrefixMatch_snoc (rtable : List RtEntry) (entry : RtEntry) (dst : U32) :
    longestPrefixMatch (rtable ++ [entry]) dst =
      if dst &&& entry.mask = entry.dest &&& entry.mask then
        match longestPrefixMatch rtable dst with
        | none => some entry
        | some best => if best.mask < entry.mask then some entry else longestPrefixMatch rtable dst
      else longestPrefixMatch rtable dst := by
  rw [longestPrefixMatch, List.foldl_append]
  rfl

/-- What is selected is in the table, and applies. -/
theorem longestPrefixMatch_some {rtable : List RtEntry} {dst : U32} {entry : RtEntry}
    (h : longestPrefixMatch rtable dst = some entry) : entry ∈ rtable ∧ Covers (entry.dest, entry.mask) dst := by
  induction rtable using List.reverseRecOn with
  | nil => cases h
  | append_singleton rtable last ih =>
    have hrest : longestPrefixMatch rtable dst = some entry →
        entry ∈ rtable ++ [last] ∧ Covers (entry.dest, entry.mask) dst := fun h =>
      ⟨List.mem_append_left _ (ih h).1, (ih h).2⟩
    rw [longestPrefixMatch_snoc] at h
    split at h
    · rename_i hmatch
      have hlast : last ∈ rtable ++ [last] := List.mem_append_right _ (List.mem_singleton_self last)
      split at h
      · cases h
        exact ⟨hlast, hmatch⟩
      · split at h
        · cases h
          exact ⟨hlast, hmatch⟩
        · exact hrest h
    · exact hrest h

/-- Where an entry applies, one is selected. -/
theorem longestPrefixMatch_isSome {rtable : List RtEntry} {dst : U32} {entry : RtEntry}
    (hentry : entry ∈ rtable) (hmatch : Covers (entry.dest, entry.mask) dst) :
    ∃ best, longestPrefixMatch rtable dst = some best := by
  induction rtable using List.reverseRecOn with
  | nil => cases hentry
  | append_singleton rtable last ih =>
    rw [longestPrefixMatch_snoc]
    rcases List.mem_append.mp hentry with hin | hlast
    · obtain ⟨best, hbest⟩ := ih hin
      rw [hbest]
      split
      · dsimp only
        split <;> exact ⟨_, rfl⟩
      · exact ⟨best, rfl⟩
    · rw [← List.mem_singleton.mp hlast, if_pos (show dst &&& entry.mask = _ from hmatch)]
      split
      · exact ⟨entry, rfl⟩
      · split
        · exact ⟨entry, rfl⟩
        · exact ⟨_, ‹_›⟩

/-! ### What one router adds -/

/-- Entries that lead over a gateway are added to a table, for networks it does not have,
and then it has all of them. -/
structure Grown (gw : U32) (iface : Nat) (A : U32 × U32 → Prop) (rtable rtable' : List RtEntry) : Prop where
  added : ∃ new, rtable' = rtable ++ new ∧ ∀ entry ∈ new, entry.gw = gw ∧ entry.iface = iface ∧
    A (entry.dest, entry.mask) ∧ ¬Holds rtable (entry.dest, entry.mask)
  covered : ∀ a, A a → Holds rtable' a

theorem Grown.trans {gw : U32} {iface : Nat} {A B : U32 × U32 → Prop} {r s t : List RtEntry}
    (h : Grown gw iface A r s) (h' : Grown gw iface B s t) : Grown gw iface (fun a => A a ∨ B a) r t := by
  obtain ⟨⟨new, rfl, hnew⟩, hcov⟩ := h
  obtain ⟨⟨new', rfl, hnew'⟩, hcov'⟩ := h'
  refine ⟨⟨new ++ new', List.append_assoc .., fun entry hentry => ?_⟩, fun a ha => ?_⟩
  · rcases List.mem_append.mp hentry with hin | hin
    · obtain ⟨hgw, hiface, hA, hno⟩ := hnew entry hin
      exact ⟨hgw, hiface, .inl hA, hno⟩
    · obtain ⟨hgw, hiface, hB, hno⟩ := hnew' entry hin
      exact ⟨hgw, hiface, .inr hB, fun h => hno (h.append new)⟩
  · rcases ha with hA | hB
    · exact (hcov a hA).append new'
    · exact hcov' a hB

theorem Grown.congr {gw : U32} {iface : Nat} {A B : U32 × U32 → Prop} {r s : List RtEntry}
    (h : Grown gw iface A r s) (hAB : ∀ a, A a ↔ B a) : Grown gw iface B r s := by
  obtain rfl : A = B := funext fun a => propext (hAB a)
  exact h

theorem addRoutes_grown (gw : U32) (iface : Nat) (lsas : List MospfLsa) (rtable : List RtEntry) :
    Grown gw iface (Names lsas) rtable (addRoutes gw iface rtable lsas) := by
  induction lsas generalizing rtable with
  | nil => exact ⟨⟨[], (List.append_nil _).symm, nofun⟩, fun a ⟨_, hin, _⟩ => nomatch hin⟩
  | cons lsa lsas ih =>
    have hone : Grown gw iface (fun a => (lsa.network, lsa.mask) = a) rtable
        (if checkRtable rtable lsa.network lsa.mask then rtable
          else rtable ++ [⟨lsa.network, lsa.mask, gw, iface⟩]) := by
      split
      · rename_i hin
        refine ⟨⟨[], (List.append_nil _).symm, nofun⟩, ?_⟩
        intro a heq
        subst heq
        exact checkRtable_iff.mp hin
      · rename_i hno
        refine ⟨⟨_, rfl, fun entry hentry => ?_⟩, ?_⟩
        · obtain rfl := List.mem_singleton.mp hentry
          exact ⟨rfl, rfl, rfl, fun h => hno (checkRtable_iff.mpr h)⟩
        · intro a heq
          subst heq
          exact ⟨_, List.mem_append_right _ (List.mem_singleton_self _), rfl⟩
    refine (hone.trans (ih _)).congr fun a => ?_
    simp only [Names, List.mem_cons, exists_eq_or_imp]

section Router

variable {inst : Instance} {rids : List U32} {prev : Nat → Option Nat} {t : Nat}
  {db : List MospfDbEntry} {rtable : List RtEntry}

/-- The listed router advertises a network and mask. -/
def Advertised (rids : List U32) (db : List MospfDbEntry) (t : Nat) (a : U32 × U32) : Prop :=
  ∃ entry ∈ db, rids[t]? = some entry.rid ∧ Names entry.lsas a

/-- Without a gateway nothing is added. -/
theorem addRouter_none (hgw : gateway inst rids prev t = none) :
    addRouter inst rids prev t db rtable = rtable := by
  induction db with
  | nil => rfl
  | cons entry rest ih =>
    simp only [addRouter, hgw, ih]
    split <;> rfl

theorem addRouter_grown {gw : U32} {iface : Nat} (hgw : gateway inst rids prev t = some (gw, iface)) :
    Grown gw iface (Advertised rids db t) rtable (addRouter inst rids prev t db rtable) := by
  induction db generalizing rtable with
  | nil => exact ⟨⟨[], (List.append_nil _).symm, nofun⟩, fun a ⟨_, hin, _⟩ => nomatch hin⟩
  | cons entry rest ih =>
    simp only [addRouter, hgw]
    split
    · rename_i hrid
      refine ((addRoutes_grown gw iface entry.lsas rtable).trans ih).congr fun a => ?_
      simp only [Advertised, List.mem_cons, exists_eq_or_imp, hrid, true_and]
    · rename_i hrid
      refine ih.congr fun a => ?_
      simp only [Advertised, List.mem_cons, exists_eq_or_imp, hrid, false_and, false_or]

end Router

/-! ### The loop -/

section Loop

variable {inst : Instance} {db : List MospfDbEntry} {paths : Paths} {direct : List RtEntry}

/-- The gateway, if one is found, towards the listed router. -/
def gatewayTo (inst : Instance) (db : List MospfDbEntry) (paths : Paths) (t : Nat) : Option (U32 × Nat) :=
  gateway inst (routerList inst db) paths.prev t

/-- An entry leads to a router that advertises it, none of which is nearer, and is for a
network that is not attached. -/
def Earned (inst : Instance) (db : List MospfDbEntry) (paths : Paths) (direct : List RtEntry)
    (entry : RtEntry) : Prop :=
  ∃ t < (routerList inst db).length, t ≠ 0 ∧ gatewayTo inst db paths t = some (entry.gw, entry.iface) ∧
    Advertised (routerList inst db) db t (entry.dest, entry.mask) ∧
    ¬Holds direct (entry.dest, entry.mask) ∧
    ∀ t' < (routerList inst db).length, t' ≠ 0 → gatewayTo inst db paths t' ≠ none →
      Advertised (routerList inst db) db t' (entry.dest, entry.mask) → paths.dist t ≤ paths.dist t'

/-- What holds between two iterations. -/
structure Filled (inst : Instance) (db : List MospfDbEntry) (paths : Paths) (direct : List RtEntry)
    (s : (Nat → Bool) × List RtEntry) : Prop where
  self : s.1 0 = true
  table : ∃ new, s.2 = direct ++ new ∧ ∀ entry ∈ new, Earned inst db paths direct entry
  covered : ∀ t < (routerList inst db).length, t ≠ 0 → s.1 t = true → gatewayTo inst db paths t ≠ none →
    ∀ a, Advertised (routerList inst db) db t a → Holds s.2 a

theorem addNearest_none {s : (Nat → Bool) × List RtEntry}
    (h : minDist paths.dist s.1 (routerList inst db).length = none) : addNearest inst db paths s = s := by
  simp only [addNearest, h]

theorem addNearest_some {s : (Nat → Bool) × List RtEntry} {t : Nat}
    (h : minDist paths.dist s.1 (routerList inst db).length = some t) :
    addNearest inst db paths s =
      (Function.update s.1 t true, addRouter inst (routerList inst db) paths.prev t db s.2) := by
  simp only [addNearest, h]

theorem Filled.step {s : (Nat → Bool) × List RtEntry} (h : Filled inst db paths direct s) :
    Filled inst db paths direct (addNearest inst db paths s) := by
  cases ht : minDist paths.dist s.1 (routerList inst db).length with
  | none => rwa [addNearest_none ht]
  | some t =>
    rw [addNearest_some ht]
    obtain ⟨hlt, hunvisited, hleast⟩ := minDist_some ht
    have ht0 : t ≠ 0 := by
      intro heq
      subst heq
      rw [h.self] at hunvisited
      cases hunvisited
    obtain ⟨new, hnew, hearned⟩ := h.table
    have hself : Function.update s.1 t true 0 = true := (Function.update_of_ne ht0.symm ..).trans h.self
    -- of the routers visited before, and of the one visited now
    have hcovered : ∀ rtable', (∀ a, Holds s.2 a → Holds rtable' a) →
        (gatewayTo inst db paths t ≠ none → ∀ a, Advertised (routerList inst db) db t a → Holds rtable' a) →
        ∀ u < (routerList inst db).length, u ≠ 0 → Function.update s.1 t true u = true →
          gatewayTo inst db paths u ≠ none → ∀ a, Advertised (routerList inst db) db u a → Holds rtable' a := by
      intro rtable' hkept hnow u hu hu0 hvisited hgw a ha
      by_cases hut : u = t
      · subst hut
        exact hnow hgw a ha
      · rw [Function.update_of_ne hut] at hvisited
        exact hkept a (h.covered u hu hu0 hvisited hgw a ha)
    cases hgw : gatewayTo inst db paths t with
    | none =>
      rw [addRouter_none hgw]
      exact ⟨hself, ⟨new, hnew, hearned⟩, hcovered _ (fun _ ha => ha) fun hno => absurd hgw hno⟩
    | some gw =>
      have hgrown : Grown gw.1 gw.2 (Advertised (routerList inst db) db t) s.2
          (addRouter inst (routerList inst db) paths.prev t db s.2) := addRouter_grown hgw
      obtain ⟨new', hnew', hadded⟩ := hgrown.added
      refine ⟨hself, ⟨new ++ new', ?_, fun entry hentry => ?_⟩, hcovered _ (fun a ha => ?_)
        fun _ a ha => hgrown.covered a ha⟩
      · rw [hnew', hnew, List.append_assoc]
      · rcases List.mem_append.mp hentry with hold | hin
        · exact hearned entry hold
        · obtain ⟨hgate, hiface, hadv, hno⟩ := hadded entry hin
          refine ⟨t, hlt, ht0, by rw [hgw, hgate, hiface], hadv, fun hdirect => hno ?_,
            fun t' ht' ht0' hgw' hadv' => ?_⟩
          · rw [hnew]
            exact hdirect.append new
          · -- a router visited before would have the network in the table already
            cases hv : s.1 t' with
            | true => exact absurd (h.covered t' ht' ht0' hv hgw' _ hadv') hno
            | false => exact hleast t' ht' hv
      · rw [hnew']
        exact ha.append new'

/-- Each iteration takes one router, until none is left. -/
theorem addNearest_visits (s : (Nat → Bool) × List RtEntry) :
    (∀ t < (routerList inst db).length, (addNearest inst db paths s).1 t = true) ∨
      ∃ t < (routerList inst db).length, s.1 t = false ∧
        (addNearest inst db paths s).1 = Function.update s.1 t true := by
  cases ht : minDist paths.dist s.1 (routerList inst db).length with
  | none =>
    rw [addNearest_none ht]
    exact .inl (minDist_none ht)
  | some t =>
    obtain ⟨hlt, hunvisited, -⟩ := minDist_some ht
    rw [addNearest_some ht]
    exact .inr ⟨t, hlt, hunvisited, rfl⟩

/-- `update_router` keeps the gateway-less entries in front, adds none that is not earned,
and has a route for whatever is advertised by a router it has a gateway to. -/
theorem updateRouter_filled (rtable : List RtEntry) :
    (∃ new, updateRouter inst db paths rtable = (rtable.filter fun entry => entry.gw = 0) ++ new ∧
      ∀ entry ∈ new, Earned inst db paths (rtable.filter fun entry => entry.gw = 0) entry) ∧
    ∀ t < (routerList inst db).length, t ≠ 0 → gatewayTo inst db paths t ≠ none →
      ∀ a, Advertised (routerList inst db) db t a → Holds (updateRouter inst db paths rtable) a := by
  have hself : Function.update (fun _ : Nat => false) 0 true 0 = true := Function.update_self ..
  have hstart : Filled inst db paths (rtable.filter fun entry => entry.gw = 0)
      (Function.update (fun _ => false) 0 true, rtable.filter fun entry => entry.gw = 0) := by
    refine ⟨hself, ⟨[], (List.append_nil _).symm, nofun⟩, fun t _ ht0 hvisited => ?_⟩
    change Function.update (fun _ => false) 0 true t = true at hvisited
    rw [Function.update_of_ne ht0] at hvisited
    cases hvisited
  have hleft : unvisited (routerList inst db).length (Function.update (fun _ => false) 0 true) ≤ _ := unvisited_le
  obtain ⟨h, hall⟩ := visit_all (fun _ hs => Filled.step hs) (fun s _ => addNearest_visits s) hstart hleft
  exact ⟨h.table, fun t ht ht0 => h.covered t ht ht0 (hall t ht)⟩

end Loop

end NetStack.Mospf
