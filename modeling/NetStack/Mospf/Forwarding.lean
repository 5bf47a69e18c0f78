import NetStack.Lib.Descent
import NetStack.Mospf.Topology
import Mathlib.Order.Lattice.Nat

/-! Forwarding over the tables.

A route of a router leads to a neighbour that is nearer to a nearest router of those
attached to the network. Following the tables from router to router the distance to the
network goes down, so the packet arrives, whatever numbers each router gave the others
and however it broke ties. -/
namespace NetStack.Mospf

/-! ### Neighbours by their id -/

section FindNbr

variable {ifaceList : List Iface} {rid : U32}

theorem findNbr_some {gw : U32} {k : Nat} (h : findNbr ifaceList rid = some (gw, k)) :
    ∃ iface ∈ ifaceList, ∃ nbr ∈ iface.nbrList, nbr.nbrId = rid ∧ nbr.nbrIp = gw := by
  obtain ⟨⟨iface, i⟩, hin, hfound⟩ := List.exists_of_findSome?_eq_some h
  obtain ⟨nbr, hnbr, heq⟩ := Option.map_eq_some_iff.mp hfound
  cases heq
  exact ⟨iface, List.fst_mem_of_mem_zipIdx hin, nbr, List.mem_of_find?_eq_some hnbr,
    by simpa using List.find?_some hnbr, rfl⟩

theorem findNbr_isSome {iface : Iface} {nbr : MospfNbr} (hiface : iface ∈ ifaceList)
    (hnbr : nbr ∈ iface.nbrList) (hid : nbr.nbrId = rid) : ∃ gw k, findNbr ifaceList rid = some (gw, k) := by
  cases h : findNbr ifaceList rid with
  | some found => exact ⟨found.1, found.2, rfl⟩
  | none =>
    obtain ⟨k, hk⟩ := List.getElem?_of_mem hiface
    have hno := List.findSome?_eq_none_iff.mp h (iface, k) (List.mk_mem_zipIdx_iff_getElem?.mpr hk)
    have hno := List.find?_eq_none.mp (Option.map_eq_none_iff.mp hno) nbr hnbr
    exact absurd (decide_eq_true hid) hno

end FindNbr

namespace Network

variable {n : Nat} {net : Network n} {v w r : Fin n} {a : U32 × U32}

/-! ### One router's table -/

section Table

variable {inst : Instance} {db : List MospfDbEntry} {rtable : List RtEntry}

/-- An entry that leads to a neighbour nearer to a nearest router of those that advertise
its network. -/
def Leads (net : Network n) (v : Fin n) (entry : RtEntry) : Prop :=
  ∃ w r, net.locate entry.gw = some w ∧ net.graph.Adj v w ∧
    net.Advertises r (entry.dest, entry.mask) ∧ net.graph.dist w r < net.graph.dist v r ∧
    ∀ r', net.Advertises r' (entry.dest, entry.mask) → net.graph.dist v r ≤ net.graph.dist v r'

/-- A router's table serves all networks, those it is attached to directly. -/
structure Serves (net : Network n) (v : Fin n) (rtable : List RtEntry) : Prop where
  direct : ∀ entry ∈ rtable, net.Attached v (entry.dest, entry.mask) → entry.gw = 0
  advertised : ∀ entry ∈ rtable, ∃ r, net.Advertises r (entry.dest, entry.mask)
  leads : ∀ entry ∈ rtable, ¬net.Attached v (entry.dest, entry.mask) → entry.gw ≠ 0 ∧ net.Leads v entry
  covered : ∀ r a, net.Advertises r a → Holds rtable a

variable (haddr : net.Addressed) (hconn : net.graph.Connected) (hdb : net.TrueDb v db)
  (hid : inst.routerId = net.routerId v) (hifaces : inst.ifaceList = net.ifaces v) {name : Nat → Fin n}
  (hself : name 0 = v)
  (hname : ∀ k < (routerList inst db).length, (routerList inst db)[k]? = some (net.routerId (name k)))
  {paths : Paths} (hpaths : paths.Shortest (routerList inst db).length net.graph name)
include haddr hconn hdb hid hifaces hself hname hpaths

/-- The gateway towards another router is a neighbour on a shortest path to it. -/
theorem gatewayTo_leads {t : Nat} (ht : t < (routerList inst db).length) (ht0 : t ≠ 0) :
    ∃ gw k w, gatewayTo inst db paths t = some (gw, k) ∧ gw ≠ 0 ∧ net.locate gw = some w ∧
      net.graph.Adj v w ∧ net.graph.dist w (name t) < net.graph.dist v (name t) := by
  have hnum := hdb.numbered haddr hid hname
  have hreach := hconn.preconnected (name 0) (name t)
  have hfuel := (Distance.dist_lt_card hreach).le.trans hnum.card_le
  obtain ⟨j, hj, hnext, hadj, hdist⟩ := hpaths.nextHop hnum.inj hnum.pos ht ht0 hreach hfuel
  rw [hself] at hadj hdist
  obtain ⟨i, hi, nbr, hnbr, hnbrId, hloc⟩ := adj_nbr hadj
  obtain ⟨gw, k, hfound⟩ := findNbr_isSome (hifaces ▸ hi) hnbr hnbrId
  obtain ⟨i', hi', nbr', hnbr', hnbrId', rfl⟩ := findNbr_some hfound
  rw [hifaces] at hi'
  obtain ⟨w, -, hid', hloc'⟩ := nbr_locate hi' hnbr'
  obtain rfl := net.id_injective (hnbrId'.symm.trans hid')
  obtain ⟨x, -, far, hfar, hof, -⟩ := net.nbr_symm hi' hnbr'
  refine ⟨nbr'.nbrIp, k, name j, ?_, ?_, hloc', hadj, by omega⟩
  · simp only [gatewayTo, gateway, hnext, hname j hj, Option.bind_eq_bind, Option.bind_some, hfound]
  · rw [hof.nbrIp]
    exact haddr.ip_ne hfar

/-- `update_rtable` leaves a table that serves all networks, where the gateway-less
entries were those of the networks attached. -/
theorem serves_updateRouter
    (hdirect : ∀ a, Holds (rtable.filter fun entry => entry.gw = 0) a ↔ net.Attached v a) :
    net.Serves v (updateRouter inst db paths rtable) := by
  have hnum := hdb.numbered haddr hid hname
  have hother : ∀ {t}, t < (routerList inst db).length → t ≠ 0 → name t ≠ v := fun ht ht0 htv =>
    ht0 (hnum.inj _ ht 0 hnum.pos (htv.trans hself.symm))
  have hdist : ∀ {t}, t < (routerList inst db).length → paths.dist t = net.graph.dist v (name t) := fun ht => by
    rw [hpaths.dist _ ht (hconn.preconnected _ _), hself]
  have hgate := fun {t : Nat} => gatewayTo_leads (t := t) haddr hconn hdb hid hifaces hself hname hpaths
  obtain ⟨⟨new, htable, hearned⟩, hcovered⟩ := @updateRouter_filled inst db paths rtable
  have hnew : ∀ entry ∈ new, ¬net.Attached v (entry.dest, entry.mask) ∧ entry.gw ≠ 0 ∧ net.Leads v entry := by
    intro entry hentry
    obtain ⟨t, ht, ht0, hgw, hadv, hno, hnearest⟩ := hearned entry hentry
    obtain ⟨gw, k, w, hgw', hgw0, hloc, hadj, hcloser⟩ := hgate ht ht0
    cases hgw.symm.trans hgw'
    rw [hdirect] at hno
    refine ⟨hno, hgw0, w, name t, hloc, hadj, (hdb.advertised_iff hname ht (hother ht ht0)).mp hadv,
      hcloser, fun r' hr' => ?_⟩
    obtain ⟨t', ht', rfl⟩ := hnum.surj r'
    have ht0' : t' ≠ 0 := by
      intro heq
      subst heq
      rw [hself] at hr'
      exact hno ((advertises_iff haddr).mp hr')
    obtain ⟨gw', k', -, hgw', -⟩ := hgate ht' ht0'
    have hle := hnearest t' ht' ht0' (by rw [hgw']; exact Option.some_ne_none _)
      ((hdb.advertised_iff hname ht' (hother ht' ht0')).mpr hr')
    rw [hdist ht, hdist ht'] at hle
    omega
  have hold : ∀ entry ∈ rtable.filter fun entry => entry.gw = 0,
      entry.gw = 0 ∧ net.Attached v (entry.dest, entry.mask) := fun entry hentry =>
    ⟨of_decide_eq_true (List.mem_filter.mp hentry).2, (hdirect _).mp ⟨entry, hentry, rfl⟩⟩
  rw [htable] at hcovered ⊢
  refine ⟨fun entry hentry hatt => ?_, fun entry hentry => ?_, fun entry hentry hatt => ?_, fun r a hadv => ?_⟩
  · rcases List.mem_append.mp hentry with hin | hin
    · exact (hold entry hin).1
    · exact absurd hatt (hnew entry hin).1
  · rcases List.mem_append.mp hentry with hin | hin
    · exact ⟨v, (advertises_iff haddr).mpr (hold entry hin).2⟩
    · obtain ⟨-, -, -, r, -, -, hadv, -⟩ := hnew entry hin
      exact ⟨r, hadv⟩
  · rcases List.mem_append.mp hentry with hin | hin
    · exact absurd (hold entry hin).2 hatt
    · exact (hnew entry hin).2
  · by_cases hrv : r = v
    · exact ((hdirect a).mpr ((advertises_iff haddr).mp (hrv ▸ hadv))).append new
    · obtain ⟨t, ht, rfl⟩ := hnum.surj r
      have ht0 : t ≠ 0 := by
        intro heq
        subst heq
        exact hrv hself
      obtain ⟨gw, k, -, hgw, -⟩ := hgate ht ht0
      exact hcovered t ht ht0 (by rw [hgw]; exact Option.some_ne_none _) a
        ((hdb.advertised_iff hname ht hrv).mpr hadv)

end Table

/-! ### The network -/

/-- Networks that are advertised are the same or have no address in common. -/
def NetworksApart (net : Network n) : Prop :=
  ∀ r a r' b, net.Advertises r a → net.Advertises r' b → a = b ∨ ∀ dst, Covers a dst → ¬Covers b dst

/-- Every router's table after `update_rtable`. -/
def tables (net : Network n) (sequenceNum : Fin n → U16) (mospfDb : Fin n → List MospfDbEntry)
    (rtable : Fin n → List RtEntry) (v : Fin n) : List RtEntry :=
  updateRtable ⟨net.routerId v, sequenceNum v, net.ifaces v⟩ (mospfDb v) (rtable v)

/-- The router a packet goes on to; none where there is no route or no gateway. -/
def nextRouter (net : Network n) (rtable : Fin n → List RtEntry) (dst : U32) (v : Fin n) : Option (Fin n) :=
  (longestPrefixMatch (rtable v) dst).bind fun entry => if entry.gw = 0 then none else net.locate entry.gw

/-- Hops to the nearest router attached to a network. -/
noncomputable def hops (net : Network n) (a : U32 × U32) (v : Fin n) : Nat :=
  sInf {d | ∃ w, net.Attached w a ∧ net.graph.dist v w = d}

theorem hops_le (hatt : net.Attached w a) : net.hops a v ≤ net.graph.dist v w :=
  Nat.sInf_le ⟨w, hatt, rfl⟩

theorem le_hops {d : Nat} (hatt : net.Attached w a) (h : ∀ u, net.Attached u a → d ≤ net.graph.dist v u) :
    d ≤ net.hops a v := by
  obtain ⟨u, hu, hdist⟩ := Nat.sInf_mem (s := {d | ∃ w, net.Attached w a ∧ net.graph.dist v w = d}) ⟨_, w, hatt, rfl⟩
  rw [hops, ← hdist]
  exact h u hu

section Follow

variable {rtable : List RtEntry} {dst : U32}

/-- Only entries for the network itself apply to its addresses. -/
theorem Serves.selects (hserves : net.Serves v rtable) (hapart : net.NetworksApart)
    (hadv : net.Advertises r a) (hdst : Covers a dst) :
    ∃ entry ∈ rtable, longestPrefixMatch rtable dst = some entry ∧ (entry.dest, entry.mask) = a := by
  obtain ⟨held, hheld, hpair⟩ := hserves.covered r a hadv
  have happlies : Covers (held.dest, held.mask) dst := hpair ▸ hdst
  obtain ⟨entry, hselected⟩ := longestPrefixMatch_isSome hheld happlies
  obtain ⟨hentry, hcovers⟩ := longestPrefixMatch_some hselected
  obtain ⟨r', hadv'⟩ := hserves.advertised entry hentry
  refine ⟨entry, hentry, hselected, ?_⟩
  rcases hapart r' _ r a hadv' hadv with heq | hno
  · exact heq
  · exact absurd hdst (hno dst hcovers)

/-- A router that is not attached sends the packet to a neighbour nearer to the network. -/
theorem Serves.closer (hserves : net.Serves v rtable) (haddr : net.Addressed) (hapart : net.NetworksApart)
    (hadv : net.Advertises r a) (hdst : Covers a dst) (hatt : ¬net.Attached v a) :
    ∃ entry w, longestPrefixMatch rtable dst = some entry ∧ entry.gw ≠ 0 ∧ net.locate entry.gw = some w ∧
      net.graph.Adj v w ∧ net.hops a w < net.hops a v := by
  obtain ⟨entry, hentry, hselected, rfl⟩ := hserves.selects hapart hadv hdst
  obtain ⟨hgw, w, q, hloc, hadj, hq, hcloser, hnearest⟩ := hserves.leads entry hentry hatt
  have hq' := (advertises_iff haddr).mp hq
  refine ⟨entry, w, hselected, hgw, hloc, hadj, ?_⟩
  calc net.hops _ w ≤ net.graph.dist w q := hops_le hq'
    _ < net.graph.dist v q := hcloser
    _ ≤ net.hops _ v := le_hops hq' fun u hu => hnearest u ((advertises_iff haddr).mpr hu)

end Follow

/-- **Forwarding reaches.** In every connected network of at most 127 routers with true
databases, whose tables before held no gateway-less entries but those of the networks
attached, and where advertised networks are apart: after `update_rtable` everywhere a
packet for an address in an advertised network is sent, by a router that is not attached
to it, to a neighbour nearer to the network, and by one that is, directly. So it arrives,
and there is no loop. -/
theorem forwarding_reaches (net : Network n) (haddr : net.Addressed) (hconn : net.graph.Connected)
    (hn : n ≤ 127) (hapart : net.NetworksApart) (sequenceNum : Fin n → U16)
    {mospfDb : Fin n → List MospfDbEntry} (hdb : ∀ v, net.TrueDb v (mospfDb v))
    {rtable : Fin n → List RtEntry}
    (hdirect : ∀ v a, Holds ((rtable v).filter fun entry => entry.gw = 0) a ↔ net.Attached v a)
    {r : Fin n} {a : U32 × U32} (hadv : net.Advertises r a) {dst : U32} (hdst : Covers a dst) :
    let tables := net.tables sequenceNum mospfDb rtable
    let next := net.nextRouter tables dst
    (∀ v, net.Attached v a → ∃ entry, longestPrefixMatch (tables v) dst = some entry ∧ entry.gw = 0) ∧
      (∀ v, ¬net.Attached v a → ∃ w, next v = some w ∧ net.graph.Adj v w ∧ net.hops a w < net.hops a v) ∧
      (∀ v, ∃ w, net.Attached w a ∧ Relation.ReflTransGen (fun x y => next x = some y) v w) ∧
      ∀ v, ¬Relation.TransGen (fun x y => next x = some y) v v := by
  intro tables next
  have hserves : ∀ v, net.Serves v (tables v) := by
    intro v
    have hid : (Instance.mk (net.routerId v) (sequenceNum v) (net.ifaces v)).routerId = net.routerId v := rfl
    obtain ⟨name, hself, hname⟩ := (hdb v).exists_name hid
    have hpaths := dijkstra_shortest ((hdb v).numbered haddr hid hname) (by rwa [Fintype.card_fin])
    exact serves_updateRouter haddr hconn (hdb v) hid rfl hself hname hpaths (hdirect v)
  have hattached : ∀ v, net.Attached v a →
      ∃ entry, longestPrefixMatch (tables v) dst = some entry ∧ entry.gw = 0 := by
    intro v hatt
    obtain ⟨entry, hentry, hselected, hpair⟩ := (hserves v).selects hapart hadv hdst
    exact ⟨entry, hselected, (hserves v).direct entry hentry (hpair ▸ hatt)⟩
  have hcloser : ∀ v, ¬net.Attached v a →
      ∃ w, next v = some w ∧ net.graph.Adj v w ∧ net.hops a w < net.hops a v := by
    intro v hatt
    obtain ⟨entry, w, hselected, hgw, hloc, hadj, hless⟩ := (hserves v).closer haddr hapart hadv hdst hatt
    refine ⟨w, ?_, hadj, hless⟩
    show (longestPrefixMatch (tables v) dst).bind _ = _
    rw [hselected, Option.bind_some, if_neg hgw, hloc]
  refine ⟨hattached, hcloser, Descent.reaches (m := net.hops a) fun v hatt => ?_,
    Descent.acyclic (m := net.hops a) fun v w hnext => ?_⟩
  · obtain ⟨w, hnext, -, hless⟩ := hcloser v hatt
    exact ⟨w, hnext, hless⟩
  · by_cases hatt : net.Attached v a
    · -- a router that is attached sends it nowhere else
      obtain ⟨entry, hselected, hgw⟩ := hattached v hatt
      change (longestPrefixMatch (tables v) dst).bind _ = _ at hnext
      rw [hselected, Option.bind_some, if_pos hgw] at hnext
      cases hnext
    · obtain ⟨w', hnext', -, hless⟩ := hcloser v hatt
      cases hnext.symm.trans hnext'
      exact hless

/-! ### The lab -/

/-- The database of a router of the lab. -/
def labDb (v : Fin 4) : List MospfDbEntry :=
  ((List.finRange 4).filter fun w => w ≠ v).map fun w =>
    { rid := labRouterId w
      seq := 1
      nadv := nbrNum (labIfaces w)
      alive := 0
      allocated := nbrNum (labIfaces w)
      array := lsaArray (labIfaces w) }

/-- Its table, with an entry for each interface. -/
def labTable (v : Fin 4) : List RtEntry :=
  (labIfaces v).zipIdx.map fun (iface, k) => ⟨iface.ip &&& iface.mask, iface.mask, 0, k⟩

theorem lab_addressed : lab.Addressed where
  id_ne := by decide
  ip_ne {v i} := by
    have h : ∀ v, ∀ i ∈ labIfaces v, i.ip ≠ 0 := by decide
    exact h v i
  subnet {v i nbr} := by
    have h : ∀ v, ∀ i ∈ labIfaces v, ∀ nbr ∈ i.nbrList,
        nbr.nbrMask = i.mask ∧ nbr.nbrIp &&& i.mask = i.ip &&& i.mask := by decide
    exact fun hi => h v i hi nbr

theorem labDb_true (v : Fin 4) : lab.TrueDb v (labDb v) where
  nodup := by
    revert v
    decide
  others := by
    have h : ∀ v, ∀ entry ∈ labDb v, ∃ w, w ≠ v ∧ entry.rid = labRouterId w ∧
        entry.lsas = lsaArray (labIfaces w) := by decide
    exact h v
  all := by
    have h : ∀ v w, w ≠ v → ∃ entry ∈ labDb v, entry.rid = labRouterId w := by decide
    exact h v

theorem labTable_direct (v : Fin 4) (a : U32 × U32) :
    Holds ((labTable v).filter fun entry => entry.gw = 0) a ↔ lab.Attached v a := by
  have hpairs : ∀ v, ((labTable v).filter fun entry => entry.gw = 0).map (fun entry => (entry.dest, entry.mask)) =
      (labIfaces v).map fun iface => (iface.ip &&& iface.mask, iface.mask) := by decide
  show (∃ entry ∈ _, _) ↔ ∃ iface ∈ labIfaces v, _
  rw [← List.mem_map, ← List.mem_map, hpairs]

theorem lab_apart : lab.NetworksApart := by
  have h : ∀ v, ∀ lsa ∈ lsaArray (labIfaces v),
      lsa.mask = 0xffffff00 ∧ lsa.network &&& 0xffffff00 = lsa.network := by decide
  intro r _ r' _ hyp hyp'
  obtain ⟨lsa, hlsa, rfl⟩ := hyp
  obtain ⟨lsa', hlsa', rfl⟩ := hyp'
  obtain ⟨hmask, hnet⟩ := h r lsa hlsa
  obtain ⟨hmask', hnet'⟩ := h r' lsa' hlsa'
  by_cases heq : lsa.network = lsa'.network
  · exact .inl (by rw [heq, hmask, hmask'])
  · refine .inr fun dst hcovers hcovers' => heq ?_
    simp only [Covers, hmask, hmask', hnet, hnet'] at hcovers hcovers'
    exact hcovers.symm.trans hcovers'

/-- From r1, h2 is reached. -/
theorem forwarding_reaches_lab : ∃ w, lab.Attached w (0x0a000600, 0xffffff00) ∧
    Relation.ReflTransGen
      (fun x y => lab.nextRouter (lab.tables (fun _ => 1) labDb labTable) 0x0a000616 x = some y) 0 w := by
  have hadv : lab.Advertises 3 (0x0a000600, 0xffffff00) := ⟨⟨0x0a000600, 0xffffff00, 0⟩, by decide, rfl⟩
  have hdst : Covers (0x0a000600, 0xffffff00) 0x0a000616 := by
    show _ &&& _ = _
    decide
  exact (forwarding_reaches lab lab_addressed lab_connected (by decide) lab_apart (fun _ => 1) labDb_true
    labTable_direct hadv hdst).2.2.1 0

end Network

end NetStack.Mospf
