import NetStack.Mospf.Lsu
import Mathlib.Logic.Function.Iterate

/-! Route computation (`mospf_daemon.c` of `EXP12-mOSPF/code/12-mopsf`, with `rtable.c`
and `longest_prefix_match` of `EXP18-TCP_Stack_4/code/18-tcp_stack`).

EXP12 takes the latter from `libipstack.a`; the code of EXP18 stands for it. Routers are
numbered by their place in `router_list`, 0 being the router itself. The arrays are
functions of that number, and an index that the source returns as −1 is `none`.
`ROUTER_NUM` only bounds the arrays. -/
namespace NetStack.Mospf

/-- What `memset` with `INT8_MAX - 1` makes of an `int`. -/
def noLink : Int := 0x7E7E7E7E

/-- `INT8_MAX`. -/
def int8Max : Int := 127

/-- `rt_entry_t`, less its flags and name; its interface by the place in `iface_list`. -/
structure RtEntry where
  dest : U32
  mask : U32
  gw : U32
  iface : Nat
deriving DecidableEq, Repr

/-- `longest_prefix_match`. -/
def longestPrefixMatch (rtable : List RtEntry) (dst : U32) : Option RtEntry :=
  rtable.foldl (fun selected entry =>
    if dst &&& entry.mask = entry.dest &&& entry.mask then
      match selected with
      | none => some entry
      | some best => if best.mask < entry.mask then some entry else selected
    else selected) none

/-! ### The graph -/

/-- `get_router_list_index`. -/
def getRouterListIndex (routerList : List U32) (rid : U32) : Option Nat :=
  routerList.findIdx? fun listed => listed = rid

/-- The LSAs an entry counts. -/
def MospfDbEntry.lsas (entry : MospfDbEntry) : List MospfLsa := entry.array.take entry.nadv.toNat

/-- `router_list` as `init_graph` fills it; `idx` is its length. -/
def routerList (inst : Instance) (mospfDb : List MospfDbEntry) : List U32 :=
  inst.routerId :: mospfDb.map (·.rid)

/-- `graph[u][v] = graph[v][u] = 1`. -/
def setLink (graph : Nat → Nat → Int) (u v : Nat) : Nat → Nat → Int := fun i j =>
  if i = u ∧ j = v ∨ i = v ∧ j = u then 1 else graph i j

/-- One LSA in `init_graph`. One that names a router not listed is left out: there the
source writes outside the array. -/
def addLsaLink (routerList : List U32) (rid : U32) (graph : Nat → Nat → Int) (lsa : MospfLsa) :
    Nat → Nat → Int :=
  if lsa.rid = 0 then graph
  else
    match getRouterListIndex routerList rid, getRouterListIndex routerList lsa.rid with
    | some u, some v => setLink graph u v
    | _, _ => graph

/-- `graph` as `init_graph` fills it. -/
def initGraph (inst : Instance) (mospfDb : List MospfDbEntry) : Nat → Nat → Int :=
  mospfDb.foldl (fun graph entry =>
    entry.lsas.foldl (addLsaLink (routerList inst mospfDb) entry.rid) graph) fun _ _ => noLink

/-! ### Paths -/

/-- `min_dist`. -/
def minDist (dist : Nat → Int) (visited : Nat → Bool) (num : Nat) : Option Nat :=
  (List.range num).foldl (fun index u =>
    if visited u then index
    else
      match index with
      | none => some u
      | some least => if dist u < dist least then some u else index) none

/-- The arrays of `Dijkstra`. -/
structure Paths where
  prev : Nat → Option Nat
  dist : Nat → Int
  visited : Nat → Bool

/-- The inner loop's condition. -/
def Paths.Improves (graph : Nat → Nat → Int) (u : Nat) (paths : Paths) (v : Nat) : Prop :=
  paths.visited v = false ∧ paths.dist u + graph u v < paths.dist v

instance (graph : Nat → Nat → Int) (u : Nat) (paths : Paths) (v : Nat) :
    Decidable (paths.Improves graph u v) := inferInstanceAs (Decidable (_ ∧ _))

/-- The inner loop's body. -/
def Paths.relax (graph : Nat → Nat → Int) (u : Nat) (paths : Paths) (v : Nat) : Paths :=
  if paths.Improves graph u v then
    { paths with
      dist := Function.update paths.dist v (paths.dist u + graph u v)
      prev := Function.update paths.prev v (some u) }
  else paths

/-- The outer loop's body. -/
def Paths.visit (graph : Nat → Nat → Int) (idx : Nat) (paths : Paths) : Paths :=
  match minDist paths.dist paths.visited idx with
  | none => paths
  | some u =>
    (List.range idx).foldl (Paths.relax graph u) { paths with visited := Function.update paths.visited u true }

/-- The arrays before the outer loop. -/
def Paths.init : Paths := ⟨fun _ => none, Function.update (fun _ => int8Max) 0 0, fun _ => false⟩

/-- `Dijkstra`. -/
def dijkstra (graph : Nat → Nat → Int) (idx : Nat) : Paths := (Paths.visit graph idx)^[idx] Paths.init

/-- `find_next_hop`, for at most `fuel` iterations. A walk that comes to a router without
predecessor has no result: there the source reads outside the array. -/
def findNextHop (prev : Nat → Option Nat) : (fuel : Nat) → Nat → Option Nat
  | 0, _ => none
  | fuel + 1, i =>
    match prev i with
    | none => none
    | some j => if j = 0 then some i else findNextHop prev fuel j

/-! ### The table -/

/-- `check_rtable`. -/
def checkRtable (rtable : List RtEntry) (network mask : U32) : Bool :=
  rtable.any fun entry => entry.dest = network ∧ entry.mask = mask

/-- The first neighbour with this id: its address, and its interface. -/
def findNbr (ifaceList : List Iface) (rid : U32) : Option (U32 × Nat) :=
  ifaceList.zipIdx.findSome? fun (iface, k) =>
    (iface.nbrList.find? fun nbr => nbr.nbrId = rid).map fun nbr => (nbr.nbrIp, k)

/-- The gateway towards a listed router. -/
def gateway (inst : Instance) (routerList : List U32) (prev : Nat → Option Nat) (t : Nat) :
    Option (U32 × Nat) := do
  let nextHop ← findNextHop prev routerList.length t
  let rid ← routerList[nextHop]?
  findNbr inst.ifaceList rid

/-- The loop over an entry's LSAs in `update_router`. -/
def addRoutes (gw : U32) (iface : Nat) (rtable : List RtEntry) (lsas : List MospfLsa) : List RtEntry :=
  lsas.foldl (fun rtable lsa =>
    if checkRtable rtable lsa.network lsa.mask then rtable
    else rtable ++ [⟨lsa.network, lsa.mask, gw, iface⟩]) rtable

/-- The loop over the database in `update_router`, for the listed router `t`. -/
def addRouter (inst : Instance) (routerList : List U32) (prev : Nat → Option Nat) (t : Nat) :
    List MospfDbEntry → List RtEntry → List RtEntry
  | [], rtable => rtable
  | entry :: rest, rtable =>
    if routerList[t]? = some entry.rid then
      match gateway inst routerList prev t with
      | none => rtable
      | some (gw, iface) =>
        addRouter inst routerList prev t rest (addRoutes gw iface rtable entry.lsas)
    else addRouter inst routerList prev t rest rtable

/-- The outer loop's body in `update_router`; its search is that of `min_dist`. When no
router is left the source goes on with index −1, and nothing is modelled of that. -/
def addNearest (inst : Instance) (mospfDb : List MospfDbEntry) (paths : Paths)
    (s : (Nat → Bool) × List RtEntry) : (Nat → Bool) × List RtEntry :=
  match minDist paths.dist s.1 (routerList inst mospfDb).length with
  | none => s
  | some t =>
    (Function.update s.1 t true,
      addRouter inst (routerList inst mospfDb) paths.prev t mospfDb s.2)

/-- `update_router`. -/
def updateRouter (inst : Instance) (mospfDb : List MospfDbEntry) (paths : Paths) (rtable : List RtEntry) :
    List RtEntry :=
  ((addNearest inst mospfDb paths)^[(routerList inst mospfDb).length]
    (Function.update (fun _ => false) 0 true, rtable.filter fun entry => entry.gw = 0)).2

/-- `update_rtable`. -/
def updateRtable (inst : Instance) (mospfDb : List MospfDbEntry) (rtable : List RtEntry) : List RtEntry :=
  updateRouter inst mospfDb
    (dijkstra (initGraph inst mospfDb) (routerList inst mospfDb).length) rtable

end NetStack.Mospf
