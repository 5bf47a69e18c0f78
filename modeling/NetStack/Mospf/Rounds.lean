import NetStack.Mospf.Arrays
import NetStack.Mospf.Table

/-! `update_rtable` round by round.

With the routers few enough, every LSA of a listed router and every router within reach,
each round but the last of `update_router` stays inside the arrays and does what it does in
`Table.lean`. The last has no router left, and writes to `visited[-1]`. -/
namespace NetStack.Mospf.Arrays
open Fallible

/-! ### `init_graph` -/

section InitGraph

variable {n : Nat} {globals : Globals} {list : List U32} {inst : Instance} {db : List MospfDbEntry}

/-- The elements of `router_list` in use. -/
structure Lists (globals : Globals) (list : List U32) : Prop where
  idx : globals.idx = list.length
  elem : ∀ i (h : i < list.length), globals.routerList i = list[i]

theorem listRouter_ok (h : Lists globals list) (hroom : list.length < n) (entry : MospfDbEntry) :
    ∃ globals', listRouter n globals entry = .ok globals' ∧ globals'.graph = globals.graph ∧
      Lists globals' (list ++ [entry.rid]) := by
  have hwrite : write n .routerList globals.routerList globals.idx entry.rid =
      .ok (Function.update globals.routerList globals.idx entry.rid) := write_ok (by rw [h.idx]; exact hroom)
  let next : Globals := { globals with
    routerList := Function.update globals.routerList globals.idx entry.rid
    idx := globals.idx + 1 }
  refine ⟨next, by rw [listRouter, hwrite]; rfl, rfl, ?_, fun i hi => ?_⟩
  · rw [List.length_append, List.length_singleton, ← h.idx]
  · rw [List.length_append, List.length_singleton] at hi
    show Function.update globals.routerList globals.idx entry.rid i = _
    by_cases heq : i = globals.idx
    · subst heq
      rw [Function.update_self]
      simp [h.idx]
    · have hlt : i < list.length := by
        have := h.idx
        omega
      rw [Function.update_of_ne heq, h.elem i hlt, List.getElem_append_left hlt]

theorem listRouters_ok (h : Lists globals list) (hroom : list.length + db.length ≤ n) :
    ∃ globals', db.foldlM (listRouter n) globals = .ok globals' ∧ globals'.graph = globals.graph ∧
      Lists globals' (list ++ db.map (·.rid)) := by
  induction db generalizing globals list with
  | nil => exact ⟨globals, rfl, rfl, by rwa [List.map_nil, List.append_nil]⟩
  | cons entry rest ih =>
    rw [List.length_cons] at hroom
    obtain ⟨next, hok, hgraph, hnext⟩ := listRouter_ok h (n := n) (by omega) entry
    have hroom' : (list ++ [entry.rid]).length + rest.length ≤ n := by
      rw [List.length_append, List.length_singleton]
      omega
    obtain ⟨globals', hrest, hgraph', hlists⟩ := ih hnext hroom'
    refine ⟨globals', by rw [List.foldlM_cons, hok, ok_bind, hrest], hgraph'.trans hgraph, ?_⟩
    rwa [List.append_assoc] at hlists

theorem getRouterListIndexFrom_ok (h : Lists globals list) (hn : list.length ≤ n) (rid : U32) {k i : Nat}
    (hk : i + k = list.length) : getRouterListIndexFrom n globals.routerList rid k i =
      .ok (place (((list.drop i).findIdx? fun listed => listed = rid).map (i + ·))) := by
  induction k generalizing i with
  | zero =>
    rw [List.drop_eq_nil_of_le (by omega)]
    rfl
  | succ k ih =>
    have hi : i < list.length := by omega
    have hread : read n .routerList globals.routerList i = .ok list[i] := by
      rw [read_ok (by omega), h.elem i hi]
    rw [getRouterListIndexFrom, hread, ok_bind, List.drop_eq_getElem_cons hi, List.findIdx?_cons]
    by_cases hrid : list[i] = rid
    · rw [if_pos hrid, if_pos (decide_eq_true hrid)]
      rfl
    · rw [if_neg hrid, if_neg (by simpa using hrid), ih (by omega)]
      refine congrArg (fun found => Except.ok (place found)) ?_
      rw [Option.map_map]
      exact congrArg (fun f => Option.map f _) (funext fun _ => by simp only [Function.comp]; omega)

/-- A listed router is found. -/
theorem getRouterListIndex_ok (h : Lists globals list) (hn : list.length ≤ n) {rid : U32} (hrid : rid ∈ list) :
    ∃ u < list.length, Mospf.getRouterListIndex list rid = some u ∧
      getRouterListIndex n globals rid = .ok (u : Int) := by
  obtain ⟨u, hu⟩ : ∃ u, Mospf.getRouterListIndex list rid = some u := by
    refine Option.isSome_iff_exists.mp ?_
    rw [Mospf.getRouterListIndex, List.findIdx?_isSome, List.any_eq_true]
    exact ⟨rid, hrid, decide_eq_true rfl⟩
  have hlt : u < list.length := (List.findIdx?_eq_some_iff_getElem.mp hu).1
  refine ⟨u, hlt, hu, ?_⟩
  have hfrom := getRouterListIndexFrom_ok h hn rid (k := list.length) (i := 0) (Nat.zero_add _)
  rw [Mospf.getRouterListIndex] at hu
  rw [getRouterListIndex, h.idx, hfrom, List.drop_zero, hu]
  show Except.ok (((0 + u : Nat) : Int)) = _
  rw [Nat.zero_add]

/-- LSAs name listed routers, or none. -/
def NamesListed (inst : Instance) (db : List MospfDbEntry) : Prop :=
  ∀ entry ∈ db, ∀ lsa ∈ entry.lsas, lsa.rid = 0 ∨ lsa.rid ∈ routerList inst db

theorem addLinks_ok (h : Lists globals list) (hn : list.length ≤ n) {entry : MospfDbEntry} (hentry : entry.rid ∈ list)
    (hlsas : ∀ lsa ∈ entry.lsas, lsa.rid = 0 ∨ lsa.rid ∈ list) (graph : Nat → Nat → Int) :
    addLinks n { globals with graph } entry =
      .ok { globals with graph := entry.lsas.foldl (Mospf.addLsaLink list entry.rid) graph } := by
  have hlists : ∀ graph, Lists { globals with graph } list := fun _ => ⟨h.idx, h.elem⟩
  obtain ⟨u, hu, hfound, hok⟩ := getRouterListIndex_ok (hlists graph) hn hentry
  rw [addLinks, hok, ok_bind]
  refine (foldlM_ok (fun graph => { globals with graph }) (fun _ => True) ?_ trivial).1
  intro graph _ lsa hlsa
  refine ⟨?_, trivial⟩
  rw [addLsaLink, Mospf.addLsaLink]
  by_cases hzero : lsa.rid = 0
  · rw [if_pos hzero, if_pos hzero]
    rfl
  · obtain ⟨v, hv, hfound', hok'⟩ := getRouterListIndex_ok (hlists graph) hn ((hlsas lsa hlsa).resolve_left hzero)
    have hwrite : writeLink n graph u v = .ok (setLink graph u v) := writeLink_ok (by omega) (by omega)
    rw [if_neg hzero, if_neg hzero, hok', ok_bind, hwrite, hfound, hfound']
    rfl

/-- `init_graph` stays inside its arrays. -/
theorem initGraph_ok (hn : (routerList inst db).length ≤ n) (hnames : NamesListed inst db) (globals : Globals) :
    ∃ globals', initGraph n inst db globals = .ok globals' ∧ globals'.graph = Mospf.initGraph inst db ∧
      Lists globals' (routerList inst db) := by
  have hlen : (routerList inst db).length = db.length + 1 := by
    rw [routerList, List.length_cons, List.length_map]
  have hwrite : write n .routerList globals.routerList 0 inst.routerId =
      .ok (Function.update globals.routerList 0 inst.routerId) := write_ok (i := 0) (by omega)
  have hfirst : Lists ⟨Function.update globals.routerList 0 inst.routerId, fun _ _ => noLink, 1⟩ [inst.routerId] := by
    refine ⟨rfl, fun i hi => ?_⟩
    obtain rfl : i = 0 := Nat.lt_one_iff.mp hi
    show Function.update globals.routerList 0 inst.routerId 0 = inst.routerId
    rw [Function.update_self]
  have hroom : [inst.routerId].length + db.length ≤ n := by
    rw [List.length_singleton]
    omega
  obtain ⟨listed, hok, hgraph, hlists⟩ := listRouters_ok hfirst hroom
  have hloop := (foldlM_ok (fun graph => { listed with graph }) (fun _ => True) (l := db)
    (g := fun graph entry => entry.lsas.foldl (Mospf.addLsaLink (routerList inst db) entry.rid) graph)
    (f := addLinks n) (t := listed.graph) (fun graph _ entry hentry =>
      ⟨addLinks_ok hlists hn (List.mem_cons_of_mem _ (List.mem_map_of_mem hentry)) (hnames entry hentry) graph,
        trivial⟩) trivial).1
  let drawn := db.foldl (fun graph entry =>
    entry.lsas.foldl (Mospf.addLsaLink (routerList inst db) entry.rid) graph) listed.graph
  refine ⟨{ listed with graph := drawn }, ?_, ?_, ⟨hlists.idx, hlists.elem⟩⟩
  · rw [initGraph, hwrite, ok_bind, hok, ok_bind]
    exact hloop
  · show drawn = Mospf.initGraph inst db
    dsimp only [drawn]
    rw [hgraph]
    rfl

end InitGraph

/-! ### The map -/

/-- The routers are few enough, the LSAs name listed routers, and every listed router can be
reached. -/
structure Mapped (n : Nat) (inst : Instance) (db : List MospfDbEntry) : Prop where
  room : (routerList inst db).length ≤ n
  names : NamesListed inst db
  reach : ∀ v, (links (Mospf.initGraph inst db) (routerList inst db).length).Reachable ⟨0, Nat.succ_pos _⟩ v

section Map

variable {n : Nat} {inst : Instance} {db : List MospfDbEntry}

/-- What linking two routers keeps holds of the graph. -/
theorem initGraph_keeps {P : (Nat → Nat → Int) → Prop} (hstart : P fun _ _ => noLink)
    (hlink : ∀ graph u v, P graph → P (setLink graph u v)) : P (Mospf.initGraph inst db) := by
  have hlsa : ∀ list rid graph lsa, P graph → P (Mospf.addLsaLink list rid graph lsa) := by
    intro list rid graph lsa h
    unfold Mospf.addLsaLink
    split
    · exact h
    · split
      · exact hlink _ _ _ h
      · exact h
  refine List.foldlRecOn db _ hstart fun graph h entry _ => ?_
  exact List.foldlRecOn entry.lsas _ h fun graph h lsa _ => hlsa _ _ graph lsa h

theorem initGraph_symm (i j : Nat) : Mospf.initGraph inst db i j = Mospf.initGraph inst db j i := by
  refine initGraph_keeps (P := fun graph => graph i j = graph j i) rfl fun graph u v h => ?_
  unfold setLink
  rw [h]
  refine if_congr ?_ rfl rfl
  tauto

theorem initGraph_entry (i j : Nat) : Mospf.initGraph inst db i j = 1 ∨ Mospf.initGraph inst db i j = noLink := by
  refine initGraph_keeps (P := fun graph => graph i j = 1 ∨ graph i j = noLink) (.inr rfl) fun graph u v h => ?_
  unfold setLink
  split
  · exact .inl rfl
  · exact h

theorem routerList_pos : 0 < (routerList inst db).length := Nat.succ_pos _

theorem initGraph_numbered : Numbered (Mospf.initGraph inst db) (routerList inst db).length
    (links (Mospf.initGraph inst db) (routerList inst db).length) (vertex routerList_pos) :=
  numbered_links routerList_pos (fun i _ j _ => initGraph_symm i j) fun i _ j _ => initGraph_entry i j

/-- The distances and predecessors that `update_router` is given. -/
theorem Mapped.shortest (h : Mapped n inst db) (hmax : n ≤ 127) :
    (Mospf.dijkstra (Mospf.initGraph inst db) (routerList inst db).length).Shortest (routerList inst db).length
      (links (Mospf.initGraph inst db) (routerList inst db).length) (vertex routerList_pos) := by
  refine dijkstra_shortest initGraph_numbered ?_
  rw [Fintype.card_fin]
  exact h.room.trans hmax

theorem Mapped.reach_vertex (h : Mapped n inst db) (v : Nat) :
    (links (Mospf.initGraph inst db) (routerList inst db).length).Reachable (vertex routerList_pos 0)
      (vertex routerList_pos v) := by
  rw [vertex_of_lt routerList_pos routerList_pos]
  exact h.reach _

end Map

/-! ### `update_router` -/

theorem findNextHop_mono {prev : Nat → Option Nat} {fuel fuel' i j : Nat} (h : Mospf.findNextHop prev fuel i = some j)
    (hfuel : fuel ≤ fuel') : Mospf.findNextHop prev fuel' i = some j := by
  induction fuel generalizing i fuel' with
  | zero => cases h
  | succ fuel ih =>
    obtain ⟨fuel', rfl⟩ := Nat.exists_eq_add_of_lt (Nat.lt_of_succ_le hfuel)
    simp only [Mospf.findNextHop] at h ⊢
    split at h
    · cases h
    · rename_i k hk
      split at h
      · rename_i hzero
        cases h
        simp only [if_pos hzero]
      · rename_i hzero
        simp only [if_neg hzero]
        exact ih h (by omega)

section UpdateRouter

variable {n fuel t : Nat} {inst : Instance} {db : List MospfDbEntry} {globals : Globals}

/-- `update_router`'s arrays as `Dijkstra` leaves them. -/
def pathsOf (inst : Instance) (db : List MospfDbEntry) : Mospf.Paths :=
  Mospf.dijkstra (Mospf.initGraph inst db) (routerList inst db).length

variable (h : Mapped n inst db) (hmax : n ≤ 127) (hlists : Lists globals (routerList inst db))
  (hfuel : (routerList inst db).length ≤ fuel)
include h hmax

/-- The next hop towards a listed router. -/
theorem Mapped.nextHop (ht : t < (routerList inst db).length) (ht0 : t ≠ 0) :
    ∃ j < (routerList inst db).length,
      Mospf.findNextHop (pathsOf inst db).prev (routerList inst db).length t = some j := by
  have hnear := Distance.dist_lt_card (h.reach_vertex t)
  rw [Fintype.card_fin] at hnear
  obtain ⟨j, hj, hfound, -, -⟩ := (h.shortest hmax).nextHop initGraph_numbered.inj routerList_pos ht ht0
    (h.reach_vertex t) (le_of_lt hnear)
  exact ⟨j, hj, hfound⟩

include hlists hfuel

/-- What the round of a listed router adds. -/
theorem addRouter_ok (ht : t < (routerList inst db).length) (ht0 : t ≠ 0) (entries : List MospfDbEntry)
    (rtable : List RtEntry) :
    addRouter n inst globals (Paths.of (pathsOf inst db)).prev fuel t entries rtable =
      .ok (Mospf.addRouter inst (routerList inst db) (pathsOf inst db).prev t entries rtable) := by
  obtain ⟨j, hj, hfound⟩ := h.nextHop hmax ht ht0
  have hroom := h.room
  have hread : read n .routerList globals.routerList t = .ok ((routerList inst db)[t]) := by
    rw [read_ok (by omega), hlists.elem t ht]
  have hread' : read n .routerList globals.routerList j = .ok ((routerList inst db)[j]) := by
    rw [read_ok (by omega), hlists.elem j hj]
  have hnext : findNextHop n (Paths.of (pathsOf inst db)).prev fuel t = .ok (j : Int) :=
    findNextHop_ok (h.shortest hmax) h.room ht ht0 (h.reach_vertex t) (findNextHop_mono hfound hfuel)
  have hgateway : gateway inst (routerList inst db) (pathsOf inst db).prev t =
      findNbr inst.ifaceList (routerList inst db)[j] := by
    rw [gateway, hfound, Option.bind_eq_bind, Option.bind_some, List.getElem?_eq_getElem hj]
    rfl
  induction entries generalizing rtable with
  | nil => rfl
  | cons entry rest ih =>
    rw [addRouter, Mospf.addRouter, hread, ok_bind, List.getElem?_eq_getElem ht, hgateway]
    by_cases hrid : entry.rid = (routerList inst db)[t]
    · rw [if_pos hrid, if_pos (congrArg some hrid.symm), hnext, ok_bind, hread', ok_bind]
      cases findNbr inst.ifaceList (routerList inst db)[j] with
      | none => rfl
      | some gw => exact ih _
    · rw [if_neg hrid, if_neg fun heq => hrid (Option.some.inj heq).symm]
      exact ih rtable

/-- A round with a router left. -/
theorem addNearest_ok {s : (Nat → Bool) × List RtEntry} (hself : s.1 0 = true)
    (hleft : 0 < unvisited (routerList inst db).length s.1) :
    addNearest n inst db globals (.of (pathsOf inst db)) fuel s =
        .ok (Mospf.addNearest inst db (pathsOf inst db) s) ∧
      (Mospf.addNearest inst db (pathsOf inst db) s).1 0 = true ∧
      unvisited (routerList inst db).length (Mospf.addNearest inst db (pathsOf inst db) s).1 + 1 =
        unvisited (routerList inst db).length s.1 := by
  obtain ⟨t, ht⟩ := exists_minDist (pathsOf inst db).dist hleft
  obtain ⟨hlt, hunvisited, -⟩ := minDist_some ht
  have ht0 : t ≠ 0 := by
    intro heq
    subst heq
    rw [hself] at hunvisited
    cases hunvisited
  have hroom := h.room
  have hmin : minDist n (pathsOf inst db).dist s.1 globals.idx = .ok (t : Int) := by
    rw [hlists.idx, minDist_ok h.room, ht]
    rfl
  have hwrite : write n .visited s.1 t true = .ok (Function.update s.1 t true) := write_ok (by omega)
  rw [addNearest_some ht]
  refine ⟨?_, ?_, unvisited_update hlt hunvisited⟩
  · rw [addNearest, show (Paths.of (pathsOf inst db)).dist = (pathsOf inst db).dist from rfl, hmin, ok_bind,
      hwrite, ok_bind, addRouter_ok h hmax hlists hfuel hlt ht0]
    rfl
  · exact (Function.update_of_ne ht0.symm ..).trans hself

/-- All rounds of `update_router` but the last. -/
theorem rounds_ok (rtable : List RtEntry) :
    ∃ visited, unvisited (routerList inst db).length visited = 0 ∧
      (List.range (globals.idx - 1)).foldlM
          (fun s _ => addNearest n inst db globals (.of (pathsOf inst db)) fuel s)
          (Function.update (fun _ => false) 0 true, rtable.filter fun entry => entry.gw = 0) =
        .ok (visited, Mospf.updateRouter inst db (pathsOf inst db) rtable) := by
  have hpos : 0 < (routerList inst db).length := routerList_pos
  have hself : Function.update (fun _ : Nat => false) 0 true 0 = true := Function.update_self ..
  have hfirst : unvisited (routerList inst db).length (Function.update (fun _ => false) 0 true) + 1 =
      (routerList inst db).length := (unvisited_update hpos rfl).trans unvisited_all
  have hstep : ∀ k < globals.idx - 1, ∀ s : (Nat → Bool) × List RtEntry,
      s.1 0 = true ∧ unvisited (routerList inst db).length s.1 + k + 1 = (routerList inst db).length →
      addNearest n inst db globals (.of (pathsOf inst db)) fuel s =
          .ok (Mospf.addNearest inst db (pathsOf inst db) s) ∧
        (Mospf.addNearest inst db (pathsOf inst db) s).1 0 = true ∧
        unvisited (routerList inst db).length (Mospf.addNearest inst db (pathsOf inst db) s).1 + (k + 1) + 1 =
          (routerList inst db).length := by
    intro k hk s hyp
    obtain ⟨hself, hleft⟩ := hyp
    have hidx := hlists.idx
    obtain ⟨hok, hself', hone⟩ := addNearest_ok h hmax hlists hfuel hself (by omega)
    exact ⟨hok, hself', by omega⟩
  have hlast : (routerList inst db).length = globals.idx - 1 + 1 := by
    have hidx := hlists.idx
    omega
  have hrouter : Mospf.updateRouter inst db (pathsOf inst db) rtable =
      (Mospf.addNearest inst db (pathsOf inst db) ((Mospf.addNearest inst db (pathsOf inst db))^[globals.idx - 1]
        (Function.update (fun _ => false) 0 true, rtable.filter fun entry => entry.gw = 0))).2 := by
    rw [Mospf.updateRouter, hlast, Function.iterate_succ_apply']
  obtain ⟨hloop, -, hleft⟩ := foldlM_range_ok (g := Mospf.addNearest inst db (pathsOf inst db)) id hstep
    (t := (Function.update (fun _ => false) 0 true, rtable.filter fun entry => entry.gw = 0)) ⟨hself, hfirst⟩
  generalize (Mospf.addNearest inst db (pathsOf inst db))^[globals.idx - 1] _ = s at hrouter hloop hleft
  have hzero : unvisited (routerList inst db).length s.1 = 0 := by omega
  -- the last round of the model does nothing
  rw [addNearest_none (minDist_of_all hzero)] at hrouter
  exact ⟨s.1, hzero, by rw [hrouter]; exact hloop⟩

omit h hmax hlists hfuel in
/-- The router itself is visited from the start. -/
theorem visitSelf_ok (hroom : (routerList inst db).length ≤ n) :
    write n .visited (fun _ => false) 0 true = .ok (Function.update (fun _ => false) 0 true) :=
  write_ok (i := 0) (routerList_pos.trans_le hroom)

/-- `update_router` with its last round left out. -/
theorem updateRouter_ok (rtable : List RtEntry) :
    updateRouter n inst db globals (.of (pathsOf inst db)) fuel (globals.idx - 1) rtable =
      .ok (Mospf.updateRouter inst db (pathsOf inst db) rtable) := by
  obtain ⟨visited, -, hloop⟩ := rounds_ok h hmax hlists hfuel rtable
  rw [updateRouter, visitSelf_ok h.room, ok_bind, hloop]
  rfl

/-- `update_router` with its last round. -/
theorem updateRouter_last (rtable : List RtEntry) :
    updateRouter n inst db globals (.of (pathsOf inst db)) fuel globals.idx rtable =
      .error (.outside .visited (-1)) := by
  have hpos : 0 < (routerList inst db).length := routerList_pos
  obtain ⟨visited, hzero, hloop⟩ := rounds_ok h hmax hlists hfuel rtable
  obtain ⟨k, hk⟩ : ∃ k, globals.idx = k + 1 := ⟨(routerList inst db).length - 1, by rw [hlists.idx]; omega⟩
  have hmin : minDist n (Paths.of (pathsOf inst db)).dist visited globals.idx = .ok (-1) := by
    rw [hlists.idx, minDist_ok h.room, minDist_of_all hzero]
    rfl
  have hout : write n .visited visited (-1) true = .error (.outside .visited (-1)) := rfl
  have hround : ∀ rtable, addNearest n inst db globals (.of (pathsOf inst db)) fuel (visited, rtable) =
      .error (.outside .visited (-1)) := by
    intro rtable
    rw [addNearest, hmin, ok_bind, hout]
    rfl
  rw [hk, Nat.add_sub_cancel] at hloop
  rw [updateRouter, visitSelf_ok h.room, ok_bind, hk, List.range_succ, List.foldlM_append, hloop, ok_bind,
    List.foldlM_cons, hround]
  rfl

end UpdateRouter

section UpdateRtable

variable {n fuel : Nat} {inst : Instance} {db : List MospfDbEntry}

/-- The arrays that `update_router` works on. -/
theorem Mapped.ready (h : Mapped n inst db) (globals : Globals) :
    ∃ globals', initGraph n inst db globals = .ok globals' ∧
      dijkstra n globals'.graph globals'.idx = .ok (.of (pathsOf inst db)) ∧
      Lists globals' (routerList inst db) := by
  obtain ⟨globals', hok, hgraph, hlists⟩ := initGraph_ok h.room h.names globals
  refine ⟨globals', hok, ?_, hlists⟩
  rw [hgraph, hlists.idx]
  refine dijkstra_ok h.room (fun i _ j _ => ?_) routerList_pos
  have hentry : Mospf.initGraph inst db i j = 1 ∨ Mospf.initGraph inst db i j = noLink := initGraph_entry i j
  rcases hentry with hone | hno
  · rw [hone]
    decide
  · rw [hno]
    decide

/-- Without the last round of `update_router` it is the table of the model that is left, -/
theorem updateRtableLess_ok (h : Mapped n inst db) (hmax : n ≤ 127) (hfuel : (routerList inst db).length ≤ fuel)
    (globals : Globals) (rtable : List RtEntry) :
    updateRtableLess n 1 inst db globals fuel rtable = .ok (Mospf.updateRtable inst db rtable) := by
  obtain ⟨globals', hinit, hpaths, hlists⟩ := h.ready globals
  rw [updateRtableLess, hinit, ok_bind, hpaths, ok_bind, updateRouter_ok h hmax hlists hfuel]
  rfl

/-- and with it the code ends outside of `visited`. -/
theorem updateRtable_last (h : Mapped n inst db) (hmax : n ≤ 127) (hfuel : (routerList inst db).length ≤ fuel)
    (globals : Globals) (rtable : List RtEntry) :
    updateRtable n inst db globals fuel rtable = .error (.outside .visited (-1)) := by
  obtain ⟨globals', hinit, hpaths, hlists⟩ := h.ready globals
  rw [updateRtable, updateRtableLess, hinit, ok_bind, hpaths, ok_bind, Nat.sub_zero,
    updateRouter_last h hmax hlists hfuel]

end UpdateRtable

/-! ### Any database -/

section Any

variable {n fuel : Nat} {inst : Instance} {db : List MospfDbEntry} {globals globals' : Globals}

theorem idx_addLinks {entry : MospfDbEntry} (h : addLinks n globals entry = .ok globals') :
    globals'.idx = globals.idx := by
  obtain ⟨u, -, h⟩ := bind_eq_ok.mp h
  refine foldlM_keeps (P := fun s : Globals => s.idx = globals.idx) (fun s lsa s' hs hidx => ?_) h rfl
  unfold addLsaLink at hs
  split at hs
  · cases hs
    exact hidx
  · obtain ⟨v, -, hs⟩ := bind_eq_ok.mp hs
    obtain ⟨graph, -, hs⟩ := bind_eq_ok.mp hs
    cases hs
    exact hidx

/-- The router itself is always listed. -/
theorem idx_initGraph (h : initGraph n inst db globals = .ok globals') : 0 < globals'.idx := by
  obtain ⟨routerList, -, h⟩ := bind_eq_ok.mp h
  obtain ⟨listed, hlisted, h⟩ := bind_eq_ok.mp h
  have hpos : 0 < listed.idx := by
    refine foldlM_keeps (P := fun s : Globals => 0 < s.idx) (fun s entry s' hs _ => ?_) hlisted Nat.one_pos
    obtain ⟨list, -, hs⟩ := bind_eq_ok.mp hs
    cases hs
    exact Nat.succ_pos _
  refine foldlM_keeps (P := fun s : Globals => 0 < s.idx) (fun s entry s' hs hpos => ?_) h hpos
  rwa [idx_addLinks hs]

/-- A round that goes right visits a router. -/
theorem unvisited_addNearest {paths : Paths} {s s' : (Nat → Bool) × List RtEntry}
    (h : addNearest n inst db globals paths fuel s = .ok s') :
    unvisited globals.idx s'.1 + 1 = unvisited globals.idx s.1 := by
  obtain ⟨t, ht, h⟩ := bind_eq_ok.mp h
  obtain ⟨visited, hvisited, h⟩ := bind_eq_ok.mp h
  obtain ⟨rtable, -, h⟩ := bind_eq_ok.mp h
  cases h
  obtain ⟨i, hi, hvisited⟩ := bind_eq_ok.mp hvisited
  cases hvisited
  obtain ⟨hti, -⟩ := of_index hi
  rcases of_minDist ht with hnone | ⟨j, hj, htj, hunvisited⟩
  · omega
  · obtain rfl : i = j := Int.ofNat_inj.mp (hti.symm.trans htj)
    exact unvisited_update hj hunvisited

theorem unvisited_rounds {paths : Paths} {k : Nat} {s s' : (Nat → Bool) × List RtEntry}
    (h : (List.range k).foldlM (fun s _ => addNearest n inst db globals paths fuel s) s = .ok s') :
    unvisited globals.idx s'.1 + k = unvisited globals.idx s.1 := by
  induction k generalizing s' with
  | zero =>
    cases h
    rfl
  | succ k ih =>
    rw [List.range_succ, List.foldlM_append] at h
    obtain ⟨next, hnext, h⟩ := bind_eq_ok.mp h
    obtain ⟨last, hlast, h⟩ := bind_eq_ok.mp h
    cases h
    have hbefore := ih hnext
    have hone := unvisited_addNearest hlast
    omega

/-- The rounds are one more than the routers left to visit. -/
theorem updateRouter_ne_ok {paths : Paths} {rtable rtable' : List RtEntry} (hpos : 0 < globals.idx) :
    updateRouter n inst db globals paths fuel globals.idx rtable ≠ .ok rtable' := by
  intro h
  obtain ⟨visited, hvisited, h⟩ := bind_eq_ok.mp h
  obtain ⟨s, hs, -⟩ := bind_eq_ok.mp h
  obtain ⟨i, hi, hvisited⟩ := bind_eq_ok.mp hvisited
  cases hvisited
  obtain ⟨hzero, -⟩ := of_index hi
  obtain rfl : i = 0 := Int.natCast_eq_zero.mp hzero.symm
  have hrounds := unvisited_rounds hs
  have hself : unvisited globals.idx (Function.update (fun _ => false) 0 true) + 1 =
      unvisited globals.idx fun _ => false := unvisited_update hpos rfl
  rw [unvisited_all] at hself
  dsimp only at hrounds
  omega

theorem updateRtable_ne_ok {rtable rtable' : List RtEntry} :
    updateRtable n inst db globals fuel rtable ≠ .ok rtable' := by
  intro h
  obtain ⟨globals', hinit, h⟩ := bind_eq_ok.mp h
  obtain ⟨paths, -, h⟩ := bind_eq_ok.mp h
  exact updateRouter_ne_ok (idx_initGraph hinit) h

end Any

/-! ### The databases that come up -/

/-- An LSU arrives, or a second passes. -/
inductive DbEvent
  | lsu (packet : LsuPacket)
  | pass
deriving DecidableEq, Repr

def dbStep (mospfDb : List MospfDbEntry) : DbEvent → List MospfDbEntry
  | .lsu packet => (updateDb mospfDb packet).getD mospfDb
  | .pass => checkingDatabase mospfDb

/-- The database after some events, from none on. -/
def dbAfter (events : List DbEvent) : List MospfDbEntry := events.foldl dbStep []

/-- `update_rtable` stays inside its arrays, and comes to an end. -/
def Safe (n : Nat) (inst : Instance) (mospfDb : List MospfDbEntry) (globals : Globals) (rtable : List RtEntry) :
    Prop := ∃ fuel rtable', updateRtable n inst mospfDb globals fuel rtable = .ok rtable'

/-- It never does. -/
theorem updateRtable_never (n : Nat) (inst : Instance) (events : List DbEvent) (globals : Globals)
    (rtable : List RtEntry) : ¬Safe n inst (dbAfter events) globals rtable := by
  intro hyp
  obtain ⟨fuel, rtable', h⟩ := hyp
  exact updateRtable_ne_ok h

/-- Two routers, each of which has the other for a neighbour, and the LSU of the other. -/
def pairInst : Instance := ⟨0x0a000001, 1, [⟨0x0a000001, 0xffffff00, 1, [⟨0x0a000002, 0x0a000002, 0xffffff00⟩]⟩]⟩

def pairLsu : LsuPacket where
  saddr := 0x0a000002
  daddr := 0x0a000001
  rid := 0x0a000002
  seq := 1
  ttl := 255
  nadv := 1
  lsas := [⟨0x0a000000, 0xffffff00, 0x0a000001⟩]

/-- With both routers visited, the last round writes to `visited[-1]`. -/
theorem updateRtable_outside :
    updateRtable routerNum pairInst (dbAfter [.lsu pairLsu]) ⟨fun _ => 0, fun _ _ => 0, 0⟩ 1 [] =
      .error (.outside .visited (-1)) ∧
    ¬Safe routerNum pairInst (dbAfter [.lsu pairLsu]) ⟨fun _ => 0, fun _ _ => 0, 0⟩ [] := by
  refine ⟨rfl, ?_⟩
  intro hyp
  obtain ⟨fuel, rtable', h⟩ := hyp
  cases fuel with
  | zero => cases h
  | succ fuel => cases h

end NetStack.Mospf.Arrays
