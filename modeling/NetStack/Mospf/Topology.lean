import NetStack.Mospf.Network
import NetStack.Mospf.Table

/-! What a router makes of a true database.

With the LSAs of all other routers in its database, the router list numbers the routers of
the network and `init_graph` fills in the matrix of its graph; and what a router
advertises are the networks it is attached to. -/
namespace NetStack.Mospf

/-! ### The graph of a database -/

section InitGraph

variable {α : Type} {rids : List U32} {i j : Nat}

/-- Setting an element to 1 for some members of a list sets it if there is one. -/
theorem foldl_set {f : (Nat → Nat → Int) → α → Nat → Nat → Int} {P : α → Prop}
    (hset : ∀ graph x, P x → f graph x i j = 1) (hkeep : ∀ graph x, ¬P x → f graph x i j = graph i j)
    (xs : List α) (graph : Nat → Nat → Int) :
    ((∃ x ∈ xs, P x) → xs.foldl f graph i j = 1) ∧ ((∀ x ∈ xs, ¬P x) → xs.foldl f graph i j = graph i j) := by
  induction xs generalizing graph with
  | nil => exact ⟨fun ⟨_, hin, _⟩ => (nomatch hin), fun _ => rfl⟩
  | cons x xs ih =>
    obtain ⟨hone, hsame⟩ := ih (f graph x)
    rw [List.foldl_cons]
    constructor
    · intro hyp
      obtain ⟨y, hy, hP⟩ := hyp
      by_cases hrest : ∃ y ∈ xs, P y
      · exact hone hrest
      · rw [hsame fun y hy hP => hrest ⟨y, hy, hP⟩]
        rcases List.mem_cons.mp hy with rfl | hy
        · exact hset graph y hP
        · exact absurd ⟨y, hy, hP⟩ hrest
    · intro hno
      rw [hsame fun y hy => hno y (List.mem_cons_of_mem _ hy)]
      exact hkeep graph x (hno x (List.mem_cons_self ..))

/-- An LSA of a router links two numbers of the list. -/
def LsaLinks (rids : List U32) (rid : U32) (i j : Nat) (lsa : MospfLsa) : Prop :=
  lsa.rid ≠ 0 ∧ (getRouterListIndex rids rid = some i ∧ getRouterListIndex rids lsa.rid = some j ∨
    getRouterListIndex rids rid = some j ∧ getRouterListIndex rids lsa.rid = some i)

theorem addLsaLink_set {rid : U32} {graph : Nat → Nat → Int} {lsa : MospfLsa}
    (h : LsaLinks rids rid i j lsa) : addLsaLink rids rid graph lsa i j = 1 := by
  obtain ⟨hne, hends⟩ := h
  unfold addLsaLink
  rw [if_neg hne]
  rcases hends with ⟨hi, hj⟩ | ⟨hi, hj⟩
  · rw [hi, hj]
    exact if_pos (.inl ⟨rfl, rfl⟩)
  · rw [hi, hj]
    exact if_pos (.inr ⟨rfl, rfl⟩)

theorem addLsaLink_keep {rid : U32} {graph : Nat → Nat → Int} {lsa : MospfLsa}
    (h : ¬LsaLinks rids rid i j lsa) : addLsaLink rids rid graph lsa i j = graph i j := by
  unfold addLsaLink
  by_cases hzero : lsa.rid = 0
  · rw [if_pos hzero]
  · rw [if_neg hzero]
    cases hu : getRouterListIndex rids rid with
    | none => rfl
    | some u =>
      cases hv : getRouterListIndex rids lsa.rid with
      | none => rfl
      | some v =>
        refine if_neg fun huv => h ⟨hzero, ?_⟩
        rcases huv with ⟨rfl, rfl⟩ | ⟨rfl, rfl⟩
        · exact .inl ⟨hu, hv⟩
        · exact .inr ⟨hu, hv⟩

/-- `init_graph` links what some LSA in the database links, and nothing else. -/
theorem initGraph_link {inst : Instance} {db : List MospfDbEntry} :
    ((∃ entry ∈ db, ∃ lsa ∈ entry.lsas, LsaLinks (routerList inst db) entry.rid i j lsa) →
      initGraph inst db i j = 1) ∧
    ((∀ entry ∈ db, ∀ lsa ∈ entry.lsas, ¬LsaLinks (routerList inst db) entry.rid i j lsa) →
      initGraph inst db i j = noLink) := by
  have hentry := fun (entry : MospfDbEntry) => foldl_set (i := i) (j := j)
    (f := addLsaLink (routerList inst db) entry.rid) (P := LsaLinks (routerList inst db) entry.rid i j)
    (fun _ _ => addLsaLink_set) (fun _ _ => addLsaLink_keep) entry.lsas
  have hdb := foldl_set (i := i) (j := j)
    (f := fun graph (entry : MospfDbEntry) =>
      entry.lsas.foldl (addLsaLink (routerList inst db) entry.rid) graph)
    (P := fun entry => ∃ lsa ∈ entry.lsas, LsaLinks (routerList inst db) entry.rid i j lsa)
    (fun graph entry => (hentry entry graph).1)
    (fun graph entry hno => (hentry entry graph).2 fun lsa hlsa h => hno ⟨lsa, hlsa, h⟩)
    db (fun _ _ => noLink)
  exact ⟨hdb.1, fun hno => hdb.2 fun entry hin ⟨lsa, hlsa, h⟩ => hno entry hin lsa hlsa h⟩

/-- In a list without repetition a router is found at its place. -/
theorem getRouterListIndex_iff (hrids : rids.Nodup) {rid : U32} :
    getRouterListIndex rids rid = some i ↔ rids[i]? = some rid := by
  unfold getRouterListIndex
  rw [List.findIdx?_eq_some_iff_getElem]
  constructor
  · intro hyp
    obtain ⟨hlt, hrid, -⟩ := hyp
    rw [List.getElem?_eq_getElem hlt]
    exact congrArg some (of_decide_eq_true hrid)
  · intro h
    obtain ⟨hlt, hrid⟩ := List.getElem?_eq_some_iff.mp h
    refine ⟨hlt, decide_eq_true hrid, fun k hk hk' => ?_⟩
    have hsame := of_decide_eq_true hk'
    have heq : rids[i]? = rids[k]? := by rw [h, List.getElem?_eq_getElem (hk.trans hlt), hsame]
    have := (List.getElem?_inj hlt hrids).mp heq
    omega

end InitGraph

/-! ### What is advertised -/

/-- With neighbours counted right, the array is filled just to its end. -/
theorem lsaArray_eq {ifaceList : List Iface} (h : ∀ iface ∈ ifaceList, iface.numNbr = iface.nbrList.length) :
    lsaArray ifaceList = ifaceList.flatMap Iface.lsas := by
  have hlen : (ifaceList.flatMap Iface.lsas).length = nbrNum ifaceList := by
    rw [List.length_flatMap, nbrNum]
    congr 1
    refine List.map_congr_left fun iface hiface => ?_
    unfold Iface.lsas
    split
    · rfl
    · rw [List.length_map, h iface hiface]
  rw [lsaArray, ← hlen, List.take_left]

namespace Network

variable {n : Nat} (net : Network n)

/-- Addresses as they are given out: none is zero, a router's id is not zero, and the
routers on a link are in one network. -/
structure Addressed : Prop where
  id_ne : ∀ v, net.routerId v ≠ 0
  ip_ne : ∀ {v i}, i ∈ net.ifaces v → i.ip ≠ 0
  subnet : ∀ {v i nbr}, i ∈ net.ifaces v → nbr ∈ i.nbrList →
    nbr.nbrMask = i.mask ∧ nbr.nbrIp &&& i.mask = i.ip &&& i.mask

/-- A router is attached to a network. -/
def Attached (v : Fin n) (a : U32 × U32) : Prop :=
  ∃ iface ∈ net.ifaces v, (iface.ip &&& iface.mask, iface.mask) = a

/-- A router advertises a network. -/
def Advertises (v : Fin n) (a : U32 × U32) : Prop := Names (lsaArray (net.ifaces v)) a

/-- A database that has the LSAs of all other routers, and nothing else. -/
structure TrueDb (v : Fin n) (db : List MospfDbEntry) : Prop where
  nodup : (db.map (·.rid)).Nodup
  others : ∀ entry ∈ db, ∃ w, w ≠ v ∧ entry.rid = net.routerId w ∧ entry.lsas = lsaArray (net.ifaces w)
  all : ∀ w, w ≠ v → ∃ entry ∈ db, entry.rid = net.routerId w

variable {net} {v w : Fin n} {a : U32 × U32} {lsa : MospfLsa}

theorem mem_lsaArray : lsa ∈ lsaArray (net.ifaces v) ↔ ∃ iface ∈ net.ifaces v, lsa ∈ iface.lsas := by
  rw [lsaArray_eq fun _ => net.numNbr_eq, List.mem_flatMap]

/-- A router advertises what it is attached to. -/
theorem advertises_iff (haddr : net.Addressed) : net.Advertises v a ↔ net.Attached v a := by
  have hiface : ∀ iface ∈ net.ifaces v, Names iface.lsas a ↔ (iface.ip &&& iface.mask, iface.mask) = a := by
    intro iface hiface
    unfold Iface.lsas
    split
    · simp [Names]
    · rename_i hnbrs
      rw [net.numNbr_eq hiface] at hnbrs
      have hsame : ∀ nbr ∈ iface.nbrList,
          (nbr.nbrIp &&& nbr.nbrMask, nbr.nbrMask) = (iface.ip &&& iface.mask, iface.mask) := by
        intro nbr hnbr
        obtain ⟨hmask, hnet⟩ := haddr.subnet hiface hnbr
        rw [hmask, hnet]
      constructor
      · intro hyp
        obtain ⟨lsa, hlsa, rfl⟩ := hyp
        obtain ⟨nbr, hnbr, rfl⟩ := List.mem_map.mp hlsa
        exact (hsame nbr hnbr).symm
      · intro heq
        subst heq
        obtain ⟨nbr, hnbr⟩ := List.exists_mem_of_length_pos (Nat.pos_of_ne_zero hnbrs)
        exact ⟨_, List.mem_map_of_mem hnbr, hsame nbr hnbr⟩
  constructor
  · intro hyp
    obtain ⟨lsa, hlsa, ha⟩ := hyp
    obtain ⟨iface, hin, hlsa⟩ := mem_lsaArray.mp hlsa
    exact ⟨iface, hin, (hiface iface hin).mp ⟨lsa, hlsa, ha⟩⟩
  · intro hyp
    obtain ⟨iface, hin, ha⟩ := hyp
    obtain ⟨lsa, hlsa, ha⟩ := (hiface iface hin).mpr ha
    exact ⟨lsa, mem_lsaArray.mpr ⟨iface, hin, hlsa⟩, ha⟩

/-- The LSAs with a router id are those of neighbours. -/
theorem adj_iff_lsa (haddr : net.Addressed) :
    net.graph.Adj v w ↔ ∃ lsa ∈ lsaArray (net.ifaces v), lsa.rid ≠ 0 ∧ lsa.rid = net.routerId w := by
  constructor
  · intro hyp
    obtain ⟨hne, iface, hiface, nbr, hnbr, hid⟩ := hyp
    refine ⟨⟨nbr.nbrIp &&& nbr.nbrMask, nbr.nbrMask, nbr.nbrId⟩, mem_lsaArray.mpr ⟨iface, hiface, ?_⟩,
      hid ▸ haddr.id_ne w, hid⟩
    have hpos : iface.numNbr ≠ 0 := by
      rw [net.numNbr_eq hiface]
      exact (List.length_pos_of_mem hnbr).ne'
    rw [Iface.lsas, if_neg hpos]
    exact List.mem_map_of_mem hnbr
  · intro hyp
    obtain ⟨lsa, hlsa, hne, hid⟩ := hyp
    obtain ⟨iface, hiface, hlsa⟩ := mem_lsaArray.mp hlsa
    unfold Iface.lsas at hlsa
    split at hlsa
    · rw [List.mem_singleton.mp hlsa] at hne
      exact absurd rfl hne
    · obtain ⟨nbr, hnbr, rfl⟩ := List.mem_map.mp hlsa
      obtain ⟨w', hadj, hid', -⟩ := nbr_locate hiface hnbr
      obtain rfl := net.id_injective (hid.symm.trans hid')
      exact hadj

/-! ### The numbers of the routers -/

section Numbers

variable {inst : Instance} {db : List MospfDbEntry}

theorem TrueDb.routerList_nodup (h : net.TrueDb v db) (hinst : inst.routerId = net.routerId v) :
    (routerList inst db).Nodup := by
  refine List.nodup_cons.mpr ⟨fun hin => ?_, h.nodup⟩
  obtain ⟨entry, hentry, hrid⟩ := List.mem_map.mp hin
  obtain ⟨w, hwv, hid, -⟩ := h.others entry hentry
  exact hwv (net.id_injective (hid.symm.trans (hrid.trans hinst)))

/-- The router list names every router, the router itself first. -/
theorem TrueDb.exists_name (h : net.TrueDb v db) (hinst : inst.routerId = net.routerId v) :
    ∃ name : Nat → Fin n, name 0 = v ∧
      ∀ k < (routerList inst db).length, (routerList inst db)[k]? = some (net.routerId (name k)) := by
  have hname : ∀ k, ∃ w, k < (routerList inst db).length →
      (routerList inst db)[k]? = some (net.routerId w) := by
    intro k
    cases hk : (routerList inst db)[k]? with
    | none => exact ⟨v, fun hlt => absurd hlt (not_lt.mpr (List.getElem?_eq_none_iff.mp hk))⟩
    | some rid =>
      rcases List.mem_cons.mp (List.mem_of_getElem? hk) with hrid | hin
      · exact ⟨v, fun _ => by rw [hrid, hinst]⟩
      · obtain ⟨entry, hentry, hrid⟩ := List.mem_map.mp hin
        obtain ⟨w, -, hid, -⟩ := h.others entry hentry
        exact ⟨w, fun _ => by rw [← hrid, hid]⟩
  choose name hname using hname
  refine ⟨name, ?_, hname⟩
  have h0 := hname 0 (Nat.zero_lt_succ _)
  exact net.id_injective (Option.some.inj (h0.symm.trans (congrArg some hinst)))

theorem TrueDb.listed (h : net.TrueDb v db) (hinst : inst.routerId = net.routerId v) (w : Fin n) :
    net.routerId w ∈ routerList inst db := by
  by_cases hwv : w = v
  · rw [hwv, ← hinst]
    exact List.mem_cons_self ..
  · obtain ⟨entry, hentry, hrid⟩ := h.all w hwv
    exact List.mem_cons_of_mem _ (List.mem_map.mpr ⟨entry, hentry, hrid⟩)

/-- A link of another router is in the database, from its side. -/
theorem TrueDb.exists_link {x y : Fin n} (h : net.TrueDb v db) (haddr : net.Addressed) (hx : x ≠ v)
    (hadj : net.graph.Adj x y) : ∃ entry ∈ db, entry.rid = net.routerId x ∧
      ∃ lsa ∈ entry.lsas, lsa.rid ≠ 0 ∧ lsa.rid = net.routerId y := by
  obtain ⟨entry, hentry, hrid⟩ := h.all x hx
  obtain ⟨w, -, hid, hlsas⟩ := h.others entry hentry
  obtain rfl := net.id_injective (hid.symm.trans hrid)
  exact ⟨entry, hentry, hrid, hlsas ▸ (adj_iff_lsa haddr).mp hadj⟩

section Names

variable {name : Nat → Fin n}
  (hname : ∀ k < (routerList inst db).length, (routerList inst db)[k]? = some (net.routerId (name k)))
include hname

theorem index_name (hnodup : (routerList inst db).Nodup) {i : Nat} (hi : i < (routerList inst db).length) :
    getRouterListIndex (routerList inst db) (net.routerId (name i)) = some i :=
  (getRouterListIndex_iff hnodup).mpr (hname i hi)

theorem name_index (hnodup : (routerList inst db).Nodup) {w : Fin n} {i : Nat}
    (hw : getRouterListIndex (routerList inst db) (net.routerId w) = some i) :
    i < (routerList inst db).length ∧ name i = w := by
  have hi := (getRouterListIndex_iff hnodup).mp hw
  obtain ⟨hlt, -⟩ := List.getElem?_eq_some_iff.mp hi
  exact ⟨hlt, net.id_injective (Option.some.inj ((hname i hlt).symm.trans hi))⟩

/-- An LSA in the database is of a link between the routers it names. -/
theorem TrueDb.adj_of_lsa (h : net.TrueDb v db) (haddr : net.Addressed) (hnodup : (routerList inst db).Nodup)
    {entry : MospfDbEntry} (hentry : entry ∈ db) {lsa : MospfLsa} (hlsa : lsa ∈ entry.lsas) (hnz : lsa.rid ≠ 0)
    {i j : Nat} (hi : getRouterListIndex (routerList inst db) entry.rid = some i)
    (hj : getRouterListIndex (routerList inst db) lsa.rid = some j) : net.graph.Adj (name i) (name j) := by
  obtain ⟨w, -, hrid, hlsas⟩ := h.others entry hentry
  rw [hrid] at hi
  obtain ⟨-, rfl⟩ := name_index hname hnodup hi
  have hlisted := (getRouterListIndex_iff hnodup).mp hj
  obtain ⟨hlt, -⟩ := List.getElem?_eq_some_iff.mp hlisted
  have hid := Option.some.inj (hlisted.symm.trans (hname j hlt))
  exact (adj_iff_lsa haddr).mpr ⟨lsa, hlsas ▸ hlsa, hnz, hid⟩

end Names

/-- The matrix `init_graph` fills in is that of the network's graph. -/
theorem TrueDb.numbered (h : net.TrueDb v db) (haddr : net.Addressed)
    (hinst : inst.routerId = net.routerId v) {name : Nat → Fin n}
    (hname : ∀ k < (routerList inst db).length, (routerList inst db)[k]? = some (net.routerId (name k))) :
    Numbered (initGraph inst db) (routerList inst db).length net.graph name := by
  have hnodup := h.routerList_nodup hinst
  refine ⟨Nat.zero_lt_succ _, fun i hi j hj heq => ?_, fun w => ?_, fun i hi j hj hadj => ?_,
    fun i hi j hj hne hadj => ?_⟩
  · exact (List.getElem?_inj hi hnodup).mp (by rw [hname i hi, hname j hj, heq])
  · obtain ⟨k, hk⟩ := List.getElem?_of_mem (h.listed hinst w)
    exact ⟨k, name_index hname hnodup ((getRouterListIndex_iff hnodup).mpr hk)⟩
  · -- of two neighbours, one is in the database
    apply initGraph_link.1
    by_cases hiv : name i = v
    · obtain ⟨entry, hentry, hrid, lsa, hlsa, hne, hid⟩ := h.exists_link haddr (hiv ▸ hadj.ne') hadj.symm
      refine ⟨entry, hentry, lsa, hlsa, hne, .inr ?_⟩
      rw [hrid, hid]
      exact ⟨index_name hname hnodup hj, index_name hname hnodup hi⟩
    · obtain ⟨entry, hentry, hrid, lsa, hlsa, hne, hid⟩ := h.exists_link haddr hiv hadj
      refine ⟨entry, hentry, lsa, hlsa, hne, .inl ?_⟩
      rw [hrid, hid]
      exact ⟨index_name hname hnodup hi, index_name hname hnodup hj⟩
  · apply initGraph_link.2
    intro entry hentry lsa hlsa hlinks
    obtain ⟨hnz, ⟨hu, hv⟩ | ⟨hu, hv⟩⟩ := hlinks
    · exact hadj (h.adj_of_lsa hname haddr hnodup hentry hlsa hnz hu hv)
    · exact hadj (h.adj_of_lsa hname haddr hnodup hentry hlsa hnz hu hv).symm

/-- A listed router's LSAs are those it has in the database. -/
theorem TrueDb.advertised_iff (h : net.TrueDb v db) {name : Nat → Fin n}
    (hname : ∀ k < (routerList inst db).length, (routerList inst db)[k]? = some (net.routerId (name k)))
    {t : Nat} (ht : t < (routerList inst db).length) (htv : name t ≠ v) :
    Advertised (routerList inst db) db t a ↔ net.Advertises (name t) a := by
  constructor
  · intro hyp
    obtain ⟨entry, hentry, hrid, hnames⟩ := hyp
    obtain ⟨w, -, hid, hlsas⟩ := h.others entry hentry
    rw [hname t ht, hid] at hrid
    rw [net.id_injective (Option.some.inj hrid), Network.Advertises, ← hlsas]
    exact hnames
  · intro hadv
    obtain ⟨entry, hentry, hrid⟩ := h.all (name t) htv
    obtain ⟨w, -, hid, hlsas⟩ := h.others entry hentry
    obtain rfl := net.id_injective (hid.symm.trans hrid)
    exact ⟨entry, hentry, by rw [hname t ht, hrid], by rw [hlsas]; exact hadv⟩

end Numbers

end Network

end NetStack.Mospf
