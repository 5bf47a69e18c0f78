import NetStack.Mospf.Rounds

/-! The table that `update_rtable` leaves.

The gateway-less entries stay, and behind them there is one entry for each network that some
router advertises to which there is a gateway: that of a nearest such router. Nothing of the
routes found before is left, so that the next update finds the same ones again. -/
namespace NetStack.Mospf.Arrays

variable {inst : Instance} {db : List MospfDbEntry} {direct rtable : List RtEntry} {a : U32 × U32}

/-- The network and mask of an entry. -/
def pairOf (entry : RtEntry) : U32 × U32 := (entry.dest, entry.mask)

/-! ### One entry for each network -/

/-- Behind the gateway-less entries no network comes twice, and none that has one of them. -/
def Tidy (direct rtable : List RtEntry) : Prop :=
  ∃ new, rtable = direct ++ new ∧ (new.map pairOf).Nodup ∧ ∀ entry ∈ new, ¬Holds direct (pairOf entry)

theorem Tidy.snoc (h : Tidy direct rtable) {entry : RtEntry} (hno : ¬Holds rtable (pairOf entry)) :
    Tidy direct (rtable ++ [entry]) := by
  obtain ⟨new, rfl, hnodup, hnew⟩ := h
  refine ⟨new ++ [entry], List.append_assoc .., ?_, fun other hother => ?_⟩
  · rw [List.map_append, List.map_singleton, List.nodup_append]
    refine ⟨hnodup, List.nodup_singleton _, fun b hb c hc hbc => hno ?_⟩
    obtain rfl := List.mem_singleton.mp hc
    obtain ⟨old, hold, hpair⟩ := List.mem_map.mp hb
    exact ⟨old, List.mem_append_right _ hold, hpair.trans hbc⟩
  · rcases List.mem_append.mp hother with hold | hlast
    · exact hnew other hold
    · obtain rfl := List.mem_singleton.mp hlast
      exact fun hdirect => hno (hdirect.append new)

theorem Tidy.addRoutes (h : Tidy direct rtable) (gw : U32) (iface : Nat) (lsas : List MospfLsa) :
    Tidy direct (addRoutes gw iface rtable lsas) := by
  refine List.foldlRecOn lsas _ h fun rtable h lsa _ => ?_
  split
  · exact h
  · rename_i hno
    exact h.snoc fun hin => hno (checkRtable_iff.mpr hin)

theorem Tidy.addRouter (h : Tidy direct rtable) (rids : List U32) (prev : Nat → Option Nat) (t : Nat)
    (entries : List MospfDbEntry) : Tidy direct (Mospf.addRouter inst rids prev t entries rtable) := by
  induction entries generalizing rtable with
  | nil => exact h
  | cons entry rest ih =>
    unfold Mospf.addRouter
    split
    · split
      · exact h
      · exact ih (h.addRoutes _ _ _)
    · exact ih h

/-- `update_router` adds each network once. -/
theorem updateRouter_tidy (paths : Mospf.Paths) (rtable : List RtEntry) :
    Tidy (rtable.filter fun entry => entry.gw = 0) (Mospf.updateRouter inst db paths rtable) := by
  unfold Mospf.updateRouter
  generalize (routerList inst db).length = rounds
  induction rounds with
  | zero => exact ⟨[], (List.append_nil _).symm, List.nodup_nil, nofun⟩
  | succ rounds ih =>
    rw [Function.iterate_succ_apply']
    generalize (Mospf.addNearest inst db paths)^[rounds] _ = s at ih ⊢
    cases ht : Mospf.minDist paths.dist s.1 (routerList inst db).length with
    | none => rwa [addNearest_none ht]
    | some t =>
      rw [addNearest_some ht]
      exact ih.addRouter _ _ _ _

/-! ### The entries there are -/

/-- How far a listed router is. -/
noncomputable def hops (inst : Instance) (db : List MospfDbEntry) (t : Nat) : Nat :=
  (links (Mospf.initGraph inst db) (routerList inst db).length).dist (vertex routerList_pos 0)
    (vertex routerList_pos t)

/-- Listed router `t` advertises a network, and the next hop found towards it is a neighbour:
the first with its id gives the gateway. -/
def Offers (inst : Instance) (db : List MospfDbEntry) (a : U32 × U32) (t : Nat) (gw : U32) (iface : Nat) : Prop :=
  t < (routerList inst db).length ∧ Advertised (routerList inst db) db t a ∧
    gatewayTo inst db (pathsOf inst db) t = some (gw, iface)

/-- A network that is to have an entry. -/
def Due (inst : Instance) (db : List MospfDbEntry) (direct : List RtEntry) (a : U32 × U32) : Prop :=
  (∃ t gw iface, Offers inst db a t gw iface) ∧ ¬Holds direct a

/-- The gateway is the one towards a nearest router that offers a network. -/
def Nearest (inst : Instance) (db : List MospfDbEntry) (a : U32 × U32) (gw : U32) (iface : Nat) : Prop :=
  ∃ t, Offers inst db a t gw iface ∧
    ∀ t' gw' iface', Offers inst db a t' gw' iface' → hops inst db t ≤ hops inst db t'

section Entries

variable {n : Nat} (h : Mapped n inst db) (hmax : n ≤ 127)
include h hmax

theorem Mapped.dist_eq {t : Nat} (ht : t < (routerList inst db).length) :
    (pathsOf inst db).dist t = hops inst db t :=
  (h.shortest hmax).dist t ht (h.reach_vertex t)

/-- There is no gateway to the router itself. -/
theorem Mapped.gatewayTo_self : gatewayTo inst db (pathsOf inst db) 0 = none := by
  have hsource : (pathsOf inst db).prev 0 = none := (h.shortest hmax).source
  have hhop : ∀ fuel, Mospf.findNextHop (pathsOf inst db).prev fuel 0 = none := by
    intro fuel
    cases fuel with
    | zero => rfl
    | succ fuel => simp only [Mospf.findNextHop, hsource]
  rw [gatewayTo, gateway, hhop]
  rfl

theorem Mapped.ne_zero {t : Nat} {gw : U32} {iface : Nat} (ht : Offers inst db a t gw iface) : t ≠ 0 := by
  intro heq
  have hgw := ht.2.2
  rw [heq, h.gatewayTo_self hmax] at hgw
  cases hgw

/-- What is earned is due, and leads to a nearest router. -/
theorem Mapped.due_of_earned {entry : RtEntry} (hentry : Earned inst db (pathsOf inst db) direct entry) :
    Due inst db direct (pairOf entry) ∧ Nearest inst db (pairOf entry) entry.gw entry.iface := by
  obtain ⟨t, ht, ht0, hgw, hadv, hno, hleast⟩ := hentry
  have hoffers : Offers inst db (pairOf entry) t entry.gw entry.iface := ⟨ht, hadv, hgw⟩
  refine ⟨⟨⟨t, _, _, hoffers⟩, hno⟩, t, hoffers, fun t' gw' iface' ht' => ?_⟩
  have hle := hleast t' ht'.1 (h.ne_zero hmax ht') (by rw [ht'.2.2]; exact Option.some_ne_none _) ht'.2.1
  rw [h.dist_eq hmax ht, h.dist_eq hmax ht'.1] at hle
  exact Int.ofNat_le.mp hle

/-- The entries that `update_router` adds. -/
theorem Mapped.added (rtable : List RtEntry) :
    ∃ new, Mospf.updateRtable inst db rtable = (rtable.filter fun entry => entry.gw = 0) ++ new ∧
      (∀ entry ∈ new, Due inst db (rtable.filter fun entry => entry.gw = 0) (pairOf entry) ∧
        Nearest inst db (pairOf entry) entry.gw entry.iface) ∧
      ∀ a, Due inst db (rtable.filter fun entry => entry.gw = 0) a →
        ∃ entry, new.filter (fun entry => pairOf entry = a) = [entry] ∧ Nearest inst db a entry.gw entry.iface := by
  obtain ⟨⟨new, hnew, hearned⟩, hcovered⟩ := @updateRouter_filled inst db
    (pathsOf inst db) rtable
  obtain ⟨new', hnew', hnodup, -⟩ := @updateRouter_tidy inst db (pathsOf inst db) rtable
  obtain rfl : new = new' := List.append_cancel_left (hnew.symm.trans hnew')
  refine ⟨new, hnew, fun entry hentry => h.due_of_earned hmax (hearned entry hentry), fun a ha => ?_⟩
  obtain ⟨⟨t, gw, iface, hoffers⟩, hno⟩ := ha
  have hholds := hcovered t hoffers.1 (h.ne_zero hmax hoffers) (by rw [hoffers.2.2]; exact Option.some_ne_none _)
    a hoffers.2.1
  rw [hnew] at hholds
  obtain ⟨entry, hentry, rfl⟩ := hholds
  have hin : entry ∈ new := by
    rcases List.mem_append.mp hentry with hold | hin
    · exact absurd ⟨entry, hold, rfl⟩ hno
    · exact hin
  exact ⟨entry, filter_of_nodup hnodup hin, (h.due_of_earned hmax (hearned entry hin)).2⟩

end Entries

/-! ### The next update -/

/-- The address `findNbr` gives is a neighbour's. -/
theorem findNbr_mem {ifaceList : List Iface} {rid gw : U32} {k : Nat} (h : findNbr ifaceList rid = some (gw, k)) :
    ∃ iface ∈ ifaceList, ∃ nbr ∈ iface.nbrList, nbr.nbrIp = gw := by
  obtain ⟨⟨iface, i⟩, hiface, h⟩ := List.exists_of_findSome?_eq_some h
  obtain ⟨nbr, hnbr, h⟩ := Option.map_eq_some_iff.mp h
  cases h
  have hmem := List.mem_zipIdx hiface
  exact ⟨iface, by rw [hmem.2.2]; exact List.getElem_mem _, nbr, List.mem_of_find?_eq_some hnbr, rfl⟩

theorem Offers.gw_ne (hnbr : ∀ iface ∈ inst.ifaceList, ∀ nbr ∈ iface.nbrList, nbr.nbrIp ≠ 0) {t : Nat} {gw : U32}
    {iface : Nat} (h : Offers inst db a t gw iface) : gw ≠ 0 := by
  obtain ⟨j, -, h⟩ := Option.bind_eq_some_iff.mp h.2.2
  obtain ⟨rid, -, h⟩ := Option.bind_eq_some_iff.mp h
  obtain ⟨iface, hiface, nbr, hmem, rfl⟩ := findNbr_mem h
  exact hnbr iface hiface nbr hmem

/-- Only the gateway-less entries count for an update. -/
theorem updateRtable_filter (rtable : List RtEntry) :
    Mospf.updateRtable inst db (rtable.filter fun entry => entry.gw = 0) = Mospf.updateRtable inst db rtable := by
  unfold Mospf.updateRtable Mospf.updateRouter
  rw [List.filter_filter]
  simp only [Bool.and_self]

/-- Once more changes nothing. -/
theorem updateRtable_again {n : Nat} (h : Mapped n inst db) (hmax : n ≤ 127)
    (hnbr : ∀ iface ∈ inst.ifaceList, ∀ nbr ∈ iface.nbrList, nbr.nbrIp ≠ 0) (rtable : List RtEntry) :
    Mospf.updateRtable inst db (Mospf.updateRtable inst db rtable) = Mospf.updateRtable inst db rtable := by
  obtain ⟨new, hnew, hdue, -⟩ := h.added hmax rtable
  have hkept : (Mospf.updateRtable inst db rtable).filter (fun entry => entry.gw = 0) =
      rtable.filter fun entry => entry.gw = 0 := by
    have hall : new.filter (fun entry => entry.gw = 0) = [] := by
      refine List.filter_eq_nil_iff.mpr fun entry hentry hzero => ?_
      obtain ⟨t, hoffers, -⟩ := (hdue entry hentry).2
      exact hoffers.gw_ne hnbr (of_decide_eq_true hzero)
    rw [hnew, List.filter_append, hall, List.append_nil, List.filter_filter]
    simp only [Bool.and_self]
  rw [← updateRtable_filter, hkept, updateRtable_filter]

/-- The table after `update_rtable`, of which the last round of `update_router` is left out:
the gateway-less entries in front, and behind them one entry for each network that is due,
over the gateway to a nearest router that offers it. Whatever else was in the table before
makes no difference, and the next update leaves it as it is. -/
theorem updateRtable_table {n : Nat} (hmax : n ≤ 127) (h : Mapped n inst db)
    (hnbr : ∀ iface ∈ inst.ifaceList, ∀ nbr ∈ iface.nbrList, nbr.nbrIp ≠ 0) {fuel : Nat}
    (hfuel : (routerList inst db).length ≤ fuel) (globals : Globals) (rtable : List RtEntry) :
    ∃ new, updateRtableLess n 1 inst db globals fuel rtable =
        .ok ((rtable.filter fun entry => entry.gw = 0) ++ new) ∧
      (∀ entry ∈ new, entry.gw ≠ 0 ∧ Due inst db (rtable.filter fun entry => entry.gw = 0) (pairOf entry)) ∧
      (∀ a, Due inst db (rtable.filter fun entry => entry.gw = 0) a →
        ∃ entry, new.filter (fun entry => pairOf entry = a) = [entry] ∧ Nearest inst db a entry.gw entry.iface) ∧
      (∀ globals' rtable', (rtable'.filter fun entry => entry.gw = 0) = (rtable.filter fun entry => entry.gw = 0) →
        updateRtableLess n 1 inst db globals' fuel rtable' =
          .ok ((rtable.filter fun entry => entry.gw = 0) ++ new)) ∧
      ∀ globals', updateRtableLess n 1 inst db globals' fuel ((rtable.filter fun entry => entry.gw = 0) ++ new) =
        .ok ((rtable.filter fun entry => entry.gw = 0) ++ new) := by
  obtain ⟨new, hnew, hdue, honly⟩ := h.added hmax rtable
  have hrun : ∀ globals' rtable',
      updateRtableLess n 1 inst db globals' fuel rtable' = .ok (Mospf.updateRtable inst db rtable') := fun globals' =>
    updateRtableLess_ok h hmax hfuel globals'
  refine ⟨new, by rw [hrun, hnew], fun entry hentry => ?_, honly, fun globals' rtable' hsame => ?_,
    fun globals' => ?_⟩
  · obtain ⟨hin, t, hoffers, -⟩ := hdue entry hentry
    exact ⟨hoffers.gw_ne hnbr, hin⟩
  · rw [hrun, ← updateRtable_filter, hsame, updateRtable_filter, hnew]
  · rw [hrun, ← hnew, updateRtable_again h hmax hnbr]

theorem pair_mapped : Mapped routerNum pairInst (dbAfter [.lsu pairLsu]) where
  room := by decide
  names := by
    unfold NamesListed
    decide
  reach := by
    have hadj : (links (Mospf.initGraph pairInst (dbAfter [.lsu pairLsu])) 2).Adj 0 1 := by
      rw [links, SimpleGraph.fromRel_adj]
      decide
    exact Fin.forall_fin_two.mpr ⟨.refl _, hadj.reachable⟩

/-- Two routers: the network that the other advertises is routed over it. -/
theorem updateRtable_table_pair : ∃ new,
    updateRtableLess routerNum 1 pairInst (dbAfter [.lsu pairLsu]) ⟨fun _ => 0, fun _ _ => 0, 0⟩ 2
        [⟨0x0a000000, 0xffffff00, 0x0a000009, 0⟩] = .ok new ∧
      new = [⟨0x0a000000, 0xffffff00, 0x0a000002, 0⟩] ∧
      ∃ entry ∈ new, Nearest pairInst (dbAfter [.lsu pairLsu]) (0x0a000000, 0xffffff00) entry.gw entry.iface := by
  obtain ⟨new, hnew, -, honly, -⟩ := updateRtable_table (n := routerNum) (by decide) pair_mapped (by decide)
    (show (routerList pairInst (dbAfter [.lsu pairLsu])).length ≤ 2 by decide) ⟨fun _ => 0, fun _ _ => 0, 0⟩
    [⟨0x0a000000, 0xffffff00, 0x0a000009, 0⟩]
  refine ⟨new, hnew, Except.ok.inj (hnew.symm.trans rfl), ?_⟩
  obtain ⟨entry, hone, hnearest⟩ := honly (0x0a000000, 0xffffff00) (by
    refine ⟨⟨1, 0x0a000002, 0, by decide, ?_, by decide⟩, ?_⟩
    · exact ⟨_, List.mem_cons_self, rfl, _, List.mem_cons_self, rfl⟩
    · intro hyp
      obtain ⟨entry, hentry, -⟩ := hyp
      cases hentry)
  have hin : entry ∈ new := List.mem_of_mem_filter (hone ▸ List.mem_singleton_self entry)
  exact ⟨entry, hin, hnearest⟩

end NetStack.Mospf.Arrays
