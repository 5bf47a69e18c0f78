import NetStack.Lib.Fallible
import NetStack.Mospf.Dijkstra

/-! Route computation over its arrays (`mospf_daemon.c` of `EXP12-mOSPF/code/12-mopsf`).

`router_list`, `graph`, `visited`, `prev` and `dist` have `ROUTER_NUM` elements, here `n`.
An index outside of them is where the code goes wrong, and so is a sum that no `int` holds
and a walk that does not end. Where nothing does, the loops compute what those of
`Route.lean` do, in which there are no bounds. -/
namespace NetStack.Mospf.Arrays
open Fallible

/-- `ROUTER_NUM`. -/
def routerNum : Nat := 4

/-- The arrays of `ROUTER_NUM` elements. -/
inductive Name
  | routerList | graph | visited | prev | dist
deriving DecidableEq, Repr

/-- What can go wrong. -/
inductive Fault
  | outside (array : Name) (index : Int)
  | overflow
  | unending
deriving DecidableEq, Repr

/-! ### Accesses -/

section Access

variable {α : Type} (n : Nat)

/-- An index as it is used on an array of `n` elements. -/
def index (array : Name) (i : Int) : Except Fault Nat :=
  if 0 ≤ i ∧ i < n then .ok i.toNat else .error (.outside array i)

def read (array : Name) (a : Nat → α) (i : Int) : Except Fault α := do
  return a (← index n array i)

def write (array : Name) (a : Nat → α) (i : Int) (x : α) : Except Fault (Nat → α) := do
  return Function.update a (← index n array i) x

/-- `graph[u][v]`. -/
def readLink (graph : Nat → Nat → Int) (u v : Int) : Except Fault Int := do
  return graph (← index n .graph u) (← index n .graph v)

/-- `graph[u][v] = graph[v][u] = 1`. -/
def writeLink (graph : Nat → Nat → Int) (u v : Int) : Except Fault (Nat → Nat → Int) := do
  return setLink graph (← index n .graph u) (← index n .graph v)

/-- A sum of two `int`s. -/
def sum (a b : Int) : Except Fault Int :=
  if -2 ^ 31 ≤ a + b ∧ a + b < 2 ^ 31 then .ok (a + b) else .error .overflow

end Access

/-! ### The code -/

section Code

variable (n : Nat)

/-- `router_list`, `graph` and `idx`. -/
structure Globals where
  routerList : Nat → U32
  graph : Nat → Nat → Int
  idx : Nat

/-- `get_router_list_index`, from `i` on with `k` of the `idx` elements to go. -/
def getRouterListIndexFrom (routerList : Nat → U32) (rid : U32) : (k i : Nat) → Except Fault Int
  | 0, _ => .ok (-1)
  | k + 1, i => do
    if (← read n .routerList routerList i) = rid then return i
    else getRouterListIndexFrom routerList rid k (i + 1)

/-- `get_router_list_index`. -/
def getRouterListIndex (globals : Globals) (rid : U32) : Except Fault Int :=
  getRouterListIndexFrom n globals.routerList rid globals.idx 0

/-- One entry in the first loop of `init_graph`. -/
def listRouter (globals : Globals) (entry : MospfDbEntry) : Except Fault Globals := do
  return { globals with
    routerList := ← write n .routerList globals.routerList globals.idx entry.rid
    idx := globals.idx + 1 }

/-- One LSA in the second loop, of an entry that was found to be router `u`. -/
def addLsaLink (u : Int) (globals : Globals) (lsa : MospfLsa) : Except Fault Globals := do
  if lsa.rid = 0 then return globals
  else
    let v ← getRouterListIndex n globals lsa.rid
    return { globals with graph := ← writeLink n globals.graph u v }

/-- One entry in the second loop. -/
def addLinks (globals : Globals) (entry : MospfDbEntry) : Except Fault Globals := do
  let u ← getRouterListIndex n globals entry.rid
  entry.lsas.foldlM (addLsaLink n u) globals

/-- `init_graph`. -/
def initGraph (inst : Instance) (mospfDb : List MospfDbEntry) (globals : Globals) : Except Fault Globals := do
  let routerList ← write n .routerList globals.routerList 0 inst.routerId
  let globals ← mospfDb.foldlM (listRouter n) ⟨routerList, fun _ _ => noLink, 1⟩
  mospfDb.foldlM (addLinks n) globals

/-- `find_next_hop`, for at most `fuel` iterations. -/
def findNextHop (prev : Nat → Int) : (fuel : Nat) → Int → Except Fault Int
  | 0, _ => .error .unending
  | fuel + 1, i => do
    let j ← read n .prev prev i
    if j = 0 then return i else findNextHop prev fuel j

/-- The body of `min_dist`, and of the search in `update_router`. -/
def nearer (dist : Nat → Int) (visited : Nat → Bool) (t : Int) (j : Nat) : Except Fault Int := do
  if ← read n .visited visited j then return t
  else if t = -1 then return j
  else if (← read n .dist dist j) < (← read n .dist dist t) then return j
  else return t

/-- `min_dist`, and the search in `update_router`. -/
def minDist (dist : Nat → Int) (visited : Nat → Bool) (num : Nat) : Except Fault Int :=
  (List.range num).foldlM (nearer n dist visited) (-1)

/-- The arrays of `Dijkstra`. -/
structure Paths where
  prev : Nat → Int
  dist : Nat → Int
  visited : Nat → Bool

/-- The inner loop's body in `Dijkstra`. -/
def Paths.relax (graph : Nat → Nat → Int) (u : Int) (paths : Paths) (v : Nat) : Except Fault Paths := do
  if ← read n .visited paths.visited v then return paths
  else
    let far ← sum (← read n .dist paths.dist u) (← readLink n graph u v)
    if far < (← read n .dist paths.dist v) then
      return { paths with dist := ← write n .dist paths.dist v far, prev := ← write n .prev paths.prev v u }
    else return paths

/-- The outer loop's body. -/
def Paths.visit (graph : Nat → Nat → Int) (idx : Nat) (paths : Paths) : Except Fault Paths := do
  let u ← minDist n paths.dist paths.visited idx
  let visited ← write n .visited paths.visited u true
  (List.range idx).foldlM (Paths.relax n graph u) { paths with visited }

/-- `Dijkstra`. -/
def dijkstra (graph : Nat → Nat → Int) (idx : Nat) : Except Fault Paths := do
  let dist ← write n .dist (fun _ => int8Max) 0 0
  (List.range idx).foldlM (fun paths _ => paths.visit n graph idx) ⟨fun _ => -1, dist, fun _ => false⟩

/-- The loop over the database in `update_router`, for router `t`. The walk of
`find_next_hop` ends at an index that it has used, so the next hop's id is read once. -/
def addRouter (inst : Instance) (globals : Globals) (prev : Nat → Int) (fuel : Nat) (t : Int) :
    List MospfDbEntry → List RtEntry → Except Fault (List RtEntry)
  | [], rtable => .ok rtable
  | entry :: rest, rtable => do
    if entry.rid = (← read n .routerList globals.routerList t) then
      let nextHop ← findNextHop n prev fuel t
      match findNbr inst.ifaceList (← read n .routerList globals.routerList nextHop) with
      | none => return rtable
      | some (gw, iface) => addRouter inst globals prev fuel t rest (addRoutes gw iface rtable entry.lsas)
    else addRouter inst globals prev fuel t rest rtable

/-- The outer loop's body in `update_router`. -/
def addNearest (inst : Instance) (mospfDb : List MospfDbEntry) (globals : Globals) (paths : Paths) (fuel : Nat)
    (s : (Nat → Bool) × List RtEntry) : Except Fault ((Nat → Bool) × List RtEntry) := do
  let t ← minDist n paths.dist s.1 globals.idx
  let visited ← write n .visited s.1 t true
  return (visited, ← addRouter n inst globals paths.prev fuel t mospfDb s.2)

/-- `update_router`, for so many rounds of its outer loop; the source has `idx`. -/
def updateRouter (inst : Instance) (mospfDb : List MospfDbEntry) (globals : Globals) (paths : Paths)
    (fuel rounds : Nat) (rtable : List RtEntry) : Except Fault (List RtEntry) := do
  let visited ← write n .visited (fun _ => false) 0 true
  let s ← (List.range rounds).foldlM (fun s _ => addNearest n inst mospfDb globals paths fuel s)
    (visited, rtable.filter fun entry => entry.gw = 0)
  return s.2

/-- `update_rtable`, with the last `less` rounds of `update_router` left out, and the table it leaves. -/
def updateRtableLess (less : Nat) (inst : Instance) (mospfDb : List MospfDbEntry) (globals : Globals)
    (fuel : Nat) (rtable : List RtEntry) : Except Fault (List RtEntry) := do
  let globals ← initGraph n inst mospfDb globals
  let paths ← dijkstra n globals.graph globals.idx
  updateRouter n inst mospfDb globals paths fuel (globals.idx - less) rtable

/-- `update_rtable`. -/
def updateRtable (inst : Instance) (mospfDb : List MospfDbEntry) (globals : Globals) (fuel : Nat)
    (rtable : List RtEntry) : Except Fault (List RtEntry) :=
  updateRtableLess n 0 inst mospfDb globals fuel rtable

end Code

/-! ### Accesses that are right -/

section Access

variable {α : Type} {n i j : Nat} {array : Name}

theorem index_ok (h : i < n) : index n array i = .ok i := by
  rw [index, if_pos ⟨Int.natCast_nonneg i, Int.ofNat_lt.mpr h⟩, Int.toNat_natCast]

theorem of_index {i : Int} (h : index n array i = .ok j) : i = j ∧ j < n := by
  unfold index at h
  split at h
  · cases h
    omega
  · cases h

theorem read_ok {a : Nat → α} (h : i < n) : read n array a i = .ok (a i) := by
  rw [read, index_ok h]
  rfl

theorem write_ok {a : Nat → α} {x : α} (h : i < n) : write n array a i x = .ok (Function.update a i x) := by
  rw [write, index_ok h]
  rfl

theorem readLink_ok {graph : Nat → Nat → Int} (hi : i < n) (hj : j < n) :
    readLink n graph i j = .ok (graph i j) := by
  rw [readLink, index_ok hi, index_ok hj]
  rfl

theorem writeLink_ok {graph : Nat → Nat → Int} (hi : i < n) (hj : j < n) :
    writeLink n graph i j = .ok (setLink graph i j) := by
  rw [writeLink, index_ok hi, index_ok hj]
  rfl

theorem sum_ok {a b : Int} (hlow : -2 ^ 31 ≤ a + b) (hhigh : a + b < 2 ^ 31) : sum a b = .ok (a + b) :=
  if_pos ⟨hlow, hhigh⟩

end Access

/-! ### The search -/

/-- An index, −1 for none. -/
def place : Option Nat → Int
  | none => -1
  | some u => u

section Search

variable {n num : Nat} {dist : Nat → Int} {visited : Nat → Bool}

theorem nearer_ok {t : Option Nat} {j : Nat} (hj : j < n) : (∀ least, t = some least → least < n) →
    nearer n dist visited (place t) j = .ok (place
      (if visited j then t
      else
        match t with
        | none => some j
        | some least => if dist j < dist least then some j else t)) := by
  intro ht
  have hvisited : read n .visited visited j = .ok (visited j) := read_ok hj
  have hdist : read n .dist dist j = .ok (dist j) := read_ok hj
  rw [nearer, hvisited, ok_bind]
  cases visited j with
  | true => rfl
  | false =>
    cases t with
    | none => rfl
    | some least =>
      have hleast : read n .dist dist least = .ok (dist least) := read_ok (ht least rfl)
      have hsome : ¬(least : Int) = -1 := by omega
      simp only [place, hsome, hdist, hleast, ok_bind, Bool.false_eq_true, if_false]
      split <;> rfl

/-- `min_dist` stays inside its arrays. -/
theorem minDist_ok (h : num ≤ n) :
    minDist n dist visited num = .ok (place (Mospf.minDist dist visited num)) := by
  induction num with
  | zero => rfl
  | succ num ih =>
    have hbefore := ih (Nat.le_of_succ_le h)
    have hin : ∀ least, Mospf.minDist dist visited num = some least → least < n := by
      intro least hleast
      have := (minDist_some hleast).1
      omega
    rw [minDist] at hbefore
    rw [minDist, List.range_succ, List.foldlM_append, hbefore, ok_bind, List.foldlM_cons, nearer_ok h hin,
      Mospf.minDist_succ]
    rfl

/-- Wherever it reads, it comes to an unvisited router or to none. -/
theorem of_minDist {t : Int} (h : minDist n dist visited num = .ok t) :
    t = -1 ∨ ∃ j < num, t = j ∧ visited j = false := by
  induction num generalizing t with
  | zero =>
    cases h
    exact .inl rfl
  | succ num ih =>
    rw [minDist, List.range_succ, List.foldlM_append] at h
    obtain ⟨least, hleast, h⟩ := bind_eq_ok.mp h
    obtain ⟨t', hnearer, h⟩ := bind_eq_ok.mp h
    cases h
    have hold : least = -1 ∨ ∃ j < num + 1, least = j ∧ visited j = false :=
      (ih hleast).imp id fun ⟨j, hj, hyp⟩ => ⟨j, Nat.lt_succ_of_lt hj, hyp⟩
    unfold nearer at hnearer
    obtain ⟨seen, hseen, hnearer⟩ := bind_eq_ok.mp hnearer
    obtain ⟨k, hk, hseen⟩ := bind_eq_ok.mp hseen
    cases hseen
    obtain ⟨hnum, -⟩ := of_index hk
    obtain rfl : num = k := Int.ofNat_inj.mp hnum
    split at hnearer
    · cases hnearer
      exact hold
    · rename_i hunvisited
      have hnew : ∃ j < num + 1, (num : Int) = j ∧ visited j = false :=
        ⟨num, Nat.lt_succ_self num, rfl, Bool.eq_false_iff.mpr hunvisited⟩
      split at hnearer
      · cases hnearer
        exact .inr hnew
      · obtain ⟨a, -, hnearer⟩ := bind_eq_ok.mp hnearer
        obtain ⟨b, -, hnearer⟩ := bind_eq_ok.mp hnearer
        split at hnearer
        · cases hnearer
          exact .inr hnew
        · cases hnearer
          exact hold

end Search

/-! ### `Dijkstra` -/

/-- The arrays, with an index for each predecessor. -/
def Paths.of (paths : Mospf.Paths) : Paths where
  prev v := place (paths.prev v)
  dist := paths.dist
  visited := paths.visited

/-- Distances are no more than that of a router not found. -/
def Bounded (idx : Nat) (paths : Mospf.Paths) : Prop :=
  ∀ v < idx, 0 ≤ paths.dist v ∧ paths.dist v ≤ int8Max

section Dijkstra

variable {n idx u v : Nat} {graph : Nat → Nat → Int} {paths : Mospf.Paths}
  (hidx : idx ≤ n) (hgraph : ∀ i < idx, ∀ j < idx, 0 ≤ graph i j ∧ graph i j ≤ noLink)
include hidx hgraph

/-- One router looked at, over another. -/
theorem relax_ok (h : Bounded idx paths) (hu : u < idx) (hv : v < idx) :
    (Paths.of paths).relax n graph u v = .ok (.of (Mospf.Paths.relax graph u paths v)) ∧
      Bounded idx (Mospf.Paths.relax graph u paths v) := by
  have hmax : int8Max = 127 := rfl
  have hlink : noLink = 0x7E7E7E7E := rfl
  have hdistu := h u hu
  have hentry := hgraph u hu v hv
  have hsum : sum (paths.dist u) (graph u v) = .ok (paths.dist u + graph u v) := sum_ok (by omega) (by omega)
  have hvisited : read n .visited paths.visited v = .ok (paths.visited v) := read_ok (by omega)
  have hreadu : read n .dist paths.dist u = .ok (paths.dist u) := read_ok (by omega)
  have hreadv : read n .dist paths.dist v = .ok (paths.dist v) := read_ok (by omega)
  have hread : readLink n graph u v = .ok (graph u v) := readLink_ok (by omega) (by omega)
  have hdist : write n .dist paths.dist v (paths.dist u + graph u v) =
      .ok (Function.update paths.dist v (paths.dist u + graph u v)) := write_ok (by omega)
  have hprev : write n .prev (fun v => place (paths.prev v)) v (u : Int) =
      .ok (Function.update (fun v => place (paths.prev v)) v u) := write_ok (by omega)
  simp only [Paths.relax, Paths.of, hvisited, hreadu, hreadv, hread, hsum, hdist, hprev, ok_bind]
  rw [Mospf.Paths.relax]
  by_cases himp : paths.Improves graph u v
  · obtain ⟨hunvisited, hless⟩ := id himp
    rw [if_pos himp, if_neg (by rw [hunvisited]; exact Bool.false_ne_true), if_pos hless]
    refine ⟨?_, fun w hw => ?_⟩
    · have hplace : (fun w => place (Function.update paths.prev v (some u) w)) =
          Function.update (fun w => place (paths.prev w)) v u := Function.comp_update place paths.prev v (some u)
      rw [hplace]
      rfl
    · show 0 ≤ Function.update paths.dist v _ w ∧ Function.update paths.dist v _ w ≤ int8Max
      by_cases hwv : w = v
      · subst hwv
        rw [Function.update_self]
        have := h w hw
        omega
      · rw [Function.update_of_ne hwv]
        exact h w hw
  · rw [if_neg himp]
    refine ⟨?_, h⟩
    by_cases hunvisited : paths.visited v = true
    · rw [if_pos hunvisited]
      rfl
    · have hless : ¬paths.dist u + graph u v < paths.dist v := fun hless =>
        himp ⟨Bool.eq_false_iff.mpr hunvisited, hless⟩
      rw [if_neg hunvisited, if_neg hless]
      rfl

/-- One visit, while there is a router to visit. -/
theorem visit_ok (h : Bounded idx paths) (hleft : 0 < unvisited idx paths.visited) :
    (Paths.of paths).visit n graph idx = .ok (.of (paths.visit graph idx)) ∧
      Bounded idx (paths.visit graph idx) ∧
      unvisited idx (paths.visit graph idx).visited + 1 = unvisited idx paths.visited := by
  obtain ⟨u, hu⟩ := exists_minDist paths.dist hleft
  obtain ⟨hlt, hunvisited, -⟩ := minDist_some hu
  have hmin : minDist n paths.dist paths.visited idx = .ok (place (some u)) := by rw [minDist_ok hidx, hu]
  have hwrite : write n .visited paths.visited (place (some u)) true =
      .ok (Function.update paths.visited u true) := write_ok (by omega)
  let start : Mospf.Paths := { paths with visited := Function.update paths.visited u true }
  have hvisit : paths.visit graph idx = (List.range idx).foldl (Mospf.Paths.relax graph u) start := by
    rw [Mospf.Paths.visit, hu]
  have hstep : ∀ paths', Bounded idx paths' → ∀ v ∈ List.range idx,
      Paths.relax n graph u (.of paths') v = .ok (.of (Mospf.Paths.relax graph u paths' v)) ∧
        Bounded idx (Mospf.Paths.relax graph u paths' v) := fun paths' h' v hv =>
    relax_ok hidx hgraph h' hlt (List.mem_range.mp hv)
  obtain ⟨hloop, hbounded⟩ := foldlM_ok Paths.of (Bounded idx) hstep (t := start) h
  have hvisited : ((List.range idx).foldl (Mospf.Paths.relax graph u) start).visited = start.visited :=
    (Mospf.Paths.relaxed (Function.update_self ..) List.nodup_range).visited
  refine ⟨?_, by rwa [hvisit], ?_⟩
  · rw [Paths.visit]
    show (minDist n paths.dist paths.visited idx >>= _) = _
    rw [hmin, ok_bind, show (Paths.of paths).visited = paths.visited from rfl, hwrite, ok_bind, hvisit]
    exact hloop
  · rw [hvisit, hvisited]
    exact unvisited_update hlt hunvisited

/-- `Dijkstra` stays inside its arrays, and its sums inside `int`. -/
theorem dijkstra_ok (hpos : 0 < idx) : dijkstra n graph idx = .ok (.of (Mospf.dijkstra graph idx)) := by
  have hstart : write n .dist (fun _ => int8Max) 0 0 = .ok (Function.update (fun _ => int8Max) 0 0) :=
    write_ok (i := 0) (by omega)
  have hbounded : Bounded idx Mospf.Paths.init := by
    intro v _
    rw [Paths.init_dist]
    split <;> decide
  have hstep : ∀ k < idx, ∀ paths : Mospf.Paths,
      Bounded idx paths ∧ unvisited idx paths.visited + k = idx →
      Paths.visit n graph idx (.of paths) = .ok (.of (paths.visit graph idx)) ∧
        Bounded idx (paths.visit graph idx) ∧ unvisited idx (paths.visit graph idx).visited + (k + 1) = idx := by
    intro k hk paths hyp
    obtain ⟨h, hleft⟩ := hyp
    obtain ⟨hok, hkept, hone⟩ := visit_ok hidx hgraph h (by omega)
    exact ⟨hok, hkept, by omega⟩
  have hloop := (foldlM_range_ok Paths.of hstep (t := Mospf.Paths.init) ⟨hbounded, unvisited_all⟩).1
  rw [dijkstra, hstart, ok_bind]
  exact hloop

end Dijkstra

/-! ### `find_next_hop` -/

section NextHop

variable {n idx v j fuel : Nat} {V : Type} {G : SimpleGraph V} {name : Nat → V} {paths : Mospf.Paths}

/-- The walk goes over routers that can be reached, which have a predecessor. -/
theorem findNextHop_ok (h : paths.Shortest idx G name) (hidx : idx ≤ n) (hv : v < idx) (hne : v ≠ 0)
    (hreach : G.Reachable (name 0) (name v)) (hj : Mospf.findNextHop paths.prev fuel v = some j) :
    findNextHop n (Paths.of paths).prev fuel v = .ok j := by
  induction fuel generalizing v with
  | zero => cases hj
  | succ fuel ih =>
    obtain ⟨u, hu, hprev, -, hreach', -⟩ := h.prev v hv hne hreach
    have hread : read n .prev (Paths.of paths).prev v = .ok (place (some u)) := by
      rw [read_ok (by omega), ← hprev]
      rfl
    simp only [Mospf.findNextHop, hprev] at hj
    simp only [findNextHop, hread, ok_bind, place, Int.natCast_eq_zero]
    by_cases hu0 : u = 0
    · rw [if_pos hu0] at hj ⊢
      cases hj
      rfl
    · rw [if_neg hu0] at hj ⊢
      exact ih hu hu0 hreach' hj

end NextHop

/-- `Dijkstra` and `find_next_hop` on a matrix of all `ROUTER_NUM` routers: no sum overflows,
the distances are those of the graph, and the next hop is on a shortest path. -/
theorem dijkstra_shortestPaths {n : Nat} (hpos : 1 ≤ n) (hmax : n ≤ 127) {graph : Nat → Nat → Int}
    (hsym : ∀ i < n, ∀ j < n, graph i j = graph j i)
    (hentry : ∀ i < n, ∀ j < n, graph i j = 1 ∨ graph i j = noLink) :
    ∃ paths, dijkstra n graph n = .ok paths ∧ ∀ v : Fin n,
      ((links graph n).Reachable ⟨0, hpos⟩ v → paths.dist v = (links graph n).dist ⟨0, hpos⟩ v ∧
        ((v : Nat) ≠ 0 → (∃ u : Fin n, paths.prev v = u ∧ (links graph n).Adj u v ∧
            paths.dist u = paths.dist v - 1) ∧
          ∃ fuel, ∃ j : Fin n, findNextHop n paths.prev fuel v = .ok (j : Nat) ∧
            (links graph n).Adj ⟨0, hpos⟩ j ∧
            ∃ walk : (links graph n).Walk ⟨0, hpos⟩ v,
              walk.length = (links graph n).dist ⟨0, hpos⟩ v ∧ j ∈ walk.support)) ∧
      (¬(links graph n).Reachable ⟨0, hpos⟩ v → paths.dist v = 127) := by
  have hnum : Numbered graph n (links graph n) (vertex hpos) := numbered_links hpos hsym hentry
  have hcard : Fintype.card (Fin n) ≤ 127 := by rwa [Fintype.card_fin]
  have h := dijkstra_shortest hnum hcard
  have hbound : ∀ i < n, ∀ j < n, 0 ≤ graph i j ∧ graph i j ≤ noLink := by
    intro i hi j hj
    rcases hentry i hi j hj with hone | hno
    · rw [hone]
      decide
    · rw [hno]
      decide
  have hsource : vertex hpos 0 = ⟨0, hpos⟩ := vertex_of_lt hpos hpos
  refine ⟨_, dijkstra_ok (le_refl n) hbound hpos, fun v => ⟨fun hreach => ?_, fun hfar => ?_⟩⟩
  · rw [← hsource] at hreach ⊢
    have hreach' : (links graph n).Reachable (vertex hpos 0) (vertex hpos v) := by rwa [vertex_fin]
    have hdist := h.dist v v.isLt hreach'
    rw [vertex_fin] at hdist
    refine ⟨hdist, fun hne => ⟨?_, ?_⟩⟩
    · obtain ⟨u, hu, hprev, hadj, hreachu, hstep⟩ := h.prev v v.isLt hne hreach'
      have hdistu := h.dist u hu hreachu
      rw [vertex_fin, vertex_of_lt hpos hu] at hadj
      rw [vertex_fin] at hstep
      refine ⟨⟨u, hu⟩, ?_, hadj, ?_⟩
      · show place _ = _
        rw [hprev]
        rfl
      · show (Mospf.dijkstra graph n).dist u = (Mospf.dijkstra graph n).dist v - 1
        omega
    · obtain ⟨j, hj, hfound, hadj, hstep⟩ := h.nextHop hnum.inj hpos v.isLt hne hreach' (le_refl _)
      have hok := findNextHop_ok h (le_refl n) v.isLt hne hreach' hfound
      rw [vertex_of_lt hpos hj] at hadj hstep
      rw [vertex_fin] at hstep
      obtain ⟨walk, hlen⟩ := (hadj.symm.reachable.trans hreach).exists_walk_length_eq_dist
      refine ⟨_, ⟨j, hj⟩, hok, hadj, .cons hadj walk, ?_, ?_⟩
      · rw [SimpleGraph.Walk.length_cons, hlen, hstep]
      · rw [SimpleGraph.Walk.support_cons]
        exact List.mem_cons_of_mem _ walk.start_mem_support
  · have hfar' := h.far v v.isLt
    rw [vertex_fin, hsource] at hfar'
    exact hfar' hfar

/-- Two linked routers. -/
theorem dijkstra_shortestPaths_two : ∃ paths, dijkstra 2 (fun _ _ => 1) 2 = .ok paths ∧
    paths.dist 1 = (links (fun _ _ => 1) 2).dist 0 1 := by
  have hadj : (links (fun _ _ => 1) 2).Adj 0 1 := by
    rw [links, SimpleGraph.fromRel_adj]
    decide
  obtain ⟨paths, hok, h⟩ := @dijkstra_shortestPaths 2 (by decide) (by decide) (fun _ _ => 1)
    (fun _ _ _ _ => rfl) (fun _ _ _ _ => .inl rfl)
  exact ⟨paths, hok, ((h 1).1 hadj.reachable).1⟩

end NetStack.Mospf.Arrays
