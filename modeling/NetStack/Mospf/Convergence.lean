import NetStack.Mospf.Flooding
import NetStack.Mospf.Forwarding
import Mathlib.Algebra.BigOperators.Fin
import Mathlib.Algebra.Order.BigOperators.Group.Finset

/-! From flooding to forwarding.

Each delivery takes a packet out of flight, and puts copies in only if a router hears of
something newer than all it knew, so without further emissions the network falls quiet
(`flooding_ends`). Then every database is true of the network, whatever the order was, and
the tables lead every packet the shortest way (`routing_converges`). -/
namespace NetStack.Mospf.Network

variable {n : Nat} (net : Network n)

/-! ### What is left to deliver -/

/-- The versions of LSUs that routers have yet to hear of. -/
def unheard (s : NetState n) : Nat := ∑ x : Fin n × Fin n, ((s.sequenceNum x.2).toNat - net.known s x.1 x.2)

/-- The neighbour records of all routers. -/
def nbrCount : Nat := ∑ v, ((net.ifaces v).map fun iface => iface.nbrList.length).sum

/-- No more deliveries than this can follow before the next emission. -/
def pending (s : NetState n) : Nat := s.flight.length + net.nbrCount * net.unheard s

variable {net} {s t : NetState n} {v r : Fin n} {packet : LsuPacket} {db' : List MospfDbEntry}

theorem length_copies_le (v : Fin n) (packet : LsuPacket) : (net.copies v packet).length ≤ net.nbrCount := by
  have hone : (net.copies v packet).length ≤ ((net.ifaces v).map fun iface => iface.nbrList.length).sum := by
    rw [copies, forward, List.length_flatMap]
    refine List.sum_le_sum fun iface _ => ?_
    rw [List.length_map]
    exact List.length_filter_le ..
  exact hone.trans (Finset.single_le_sum (f := fun v => ((net.ifaces v).map fun iface => iface.nbrList.length).sum)
    (fun _ _ => Nat.zero_le _) (Finset.mem_univ v))

/-- News leave less to hear of. -/
theorem unheard_news {flight : List LsuPacket} (hof : net.OfRouter s r packet) (hvr : v ≠ r)
    (hnews : updateDb (s.mospfDb v) packet = some db') :
    net.unheard (net.stored s v packet flight db') < net.unheard s := by
  have hknown : ∀ w q, net.known s w q ≤ net.known (net.stored s v packet flight db') w q := by
    intro w q
    rw [known_news hof hnews hvr]
    split
    · next heq =>
      rw [heq.1, heq.2, known_ne hvr, ← hof.rid]
      exact (heldSeq_lt hnews hof.pos).le
    · exact le_rfl
  refine Finset.sum_lt_sum (fun x _ => Nat.sub_le_sub_left (hknown x.1 x.2) _) ⟨(v, r), Finset.mem_univ _, ?_⟩
  have hbefore : net.known s v r < packet.seq.toNat := by
    rw [known_ne hvr, ← hof.rid]
    exact heldSeq_lt hnews hof.pos
  have hafter : net.known (net.stored s v packet flight db') v r = packet.seq.toNat := by
    rw [known_news hof hnews hvr, if_pos ⟨rfl, rfl⟩]
  have hseq := hof.seq
  show (s.sequenceNum r).toNat - net.known (net.stored s v packet flight db') v r <
    (s.sequenceNum r).toNat - net.known s v r
  omega

/-- A delivery leaves fewer to follow. -/
theorem Flooded.deliver (h : net.Flooded s) (hn : n ≤ 254) {k : Nat} (hstep : net.Step s (.deliver k) t) :
    net.pending t < net.pending s := by
  simp only [Step, Network.step] at hstep
  split at hstep
  · cases hstep
  rename_i packet hk
  split at hstep
  · cases hstep
  rename_i v hloc
  cases hstep
  have hlt : k < s.flight.length := (List.getElem?_eq_some_iff.mp hk).1
  have hrest : (s.flight.eraseIdx k).length + 1 = s.flight.length := by
    rw [List.length_eraseIdx_of_lt hlt]
    omega
  cases hdb : updateDb (s.mospfDb v) packet with
  | none =>
    rw [receive_stale hdb]
    show (s.flight.eraseIdx k).length + net.nbrCount * net.unheard s < s.flight.length + _
    omega
  | some db' =>
    have hpacket := h.packets packet (List.mem_of_getElem? hk)
    rw [receive_news hdb (h.ttl_pos hn hpacket hloc hdb)]
    obtain ⟨r, w, hof, hloc', hvr, -⟩ := hpacket
    obtain rfl := Option.some.inj (hloc.symm.trans hloc')
    have hless : net.unheard (net.stored s v packet (s.flight.eraseIdx k) db') < net.unheard s :=
      unheard_news hof hvr hdb
    have hcopies : (net.copies v packet).length ≤ net.nbrCount := length_copies_le v packet
    have hlength : (net.stored s v packet (s.flight.eraseIdx k) db').flight.length =
        (s.flight.eraseIdx k).length + (net.copies v packet).length := List.length_append
    have hmul : net.nbrCount * (net.unheard (net.stored s v packet (s.flight.eraseIdx k) db') + 1) ≤
        net.nbrCount * net.unheard s := Nat.mul_le_mul_left _ hless
    rw [Nat.mul_add, Nat.mul_one] at hmul
    rw [pending, pending, hlength]
    omega

/-! ### Deliveries only -/

theorem noWrap_deliver (k : Nat) : NoWrap s (.deliver k) := by
  intro v hv
  cases hv

/-- An event that is a delivery. -/
def IsDeliver : NetEvent n → Prop
  | .emit _ => False
  | .deliver _ => True

/-- Deliveries keep what holds in every state, and are no more than were pending. -/
theorem Flooded.deliveries (h : net.Flooded s) (hn : n ≤ 254) {fs : List (NetEvent n)} (hrun : Run net.Step s fs t)
    (hfs : ∀ e ∈ fs, IsDeliver e) : net.Flooded t ∧ fs.length + net.pending t ≤ net.pending s := by
  induction hrun with
  | nil s => exact ⟨h, by rw [List.length_nil, Nat.zero_add]⟩
  | @cons s m t e es hstep hrest ih =>
    have hdeliver := hfs e List.mem_cons_self
    cases e with
    | emit v => exact hdeliver.elim
    | deliver k =>
      have hnext : net.Flooded m := h.step hn (noWrap_deliver _) hstep
      have hless := h.deliver hn hstep
      obtain ⟨hend, hle⟩ := ih hnext fun e he => hfs e (List.mem_cons_of_mem _ he)
      refine ⟨hend, ?_⟩
      rw [List.length_cons]
      omega

/-- As long as something is in flight, it can be delivered. -/
theorem Flooded.exists_deliver (h : net.Flooded s) (hflight : s.flight ≠ []) : ∃ t, net.Step s (.deliver 0) t := by
  obtain ⟨packet, rest, heq⟩ := List.exists_cons_of_ne_nil hflight
  obtain ⟨r, v, -, hloc, -⟩ := h.packets packet (heq ▸ List.mem_cons_self)
  refine ⟨net.receive s v packet (s.flight.eraseIdx 0), ?_⟩
  simp only [Step, Network.step, heq, List.getElem?_cons_zero, hloc]

theorem Flooded.exists_quiet (h : net.Flooded s) (hn : n ≤ 254) :
    ∃ fs t, Run net.Step s fs t ∧ (∀ e ∈ fs, IsDeliver e) ∧ t.flight = [] := by
  induction hleft : net.pending s using Nat.strongRecOn generalizing s with
  | ind d ih =>
    by_cases hflight : s.flight = []
    · exact ⟨[], s, .nil s, List.forall_mem_nil _, hflight⟩
    · obtain ⟨m, hstep⟩ := h.exists_deliver hflight
      have hnext : net.Flooded m := h.step hn (noWrap_deliver _) hstep
      obtain ⟨fs, t, hrun, hfs, hquiet⟩ := ih (net.pending m) (hleft ▸ h.deliver hn hstep) hnext rfl
      exact ⟨.deliver 0 :: fs, t, .cons hstep hrun, List.forall_mem_cons.mpr ⟨trivial, hfs⟩, hquiet⟩

/-! ### Quiet -/

/-- What is stored of a router are the LSAs it sends. -/
theorem EntrySound.lsas {entry : MospfDbEntry} (h : net.EntrySound s v entry)
    (hfits : ∀ v, nbrNum (net.ifaces v) < 2 ^ 31) :
    ∃ w, w ≠ v ∧ entry.rid = net.routerId w ∧ entry.lsas = lsaArray (net.ifaces w) := by
  obtain ⟨w, packet, hvw, hof, hstores⟩ := h
  have hcount : packet.nadv.toNat = nbrNum (net.ifaces w) := by
    have hlt := hfits w
    rw [hof.nadv, BitVec.toNat_ofNat]
    omega
  have hnadv : entry.nadv.toNat = nbrNum (net.ifaces w) := by
    have hlt := hfits w
    rw [hstores.nadv, BitVec.toInt_eq_toNat_of_lt (by omega), Int.toNat_natCast, hcount]
  have hwhole : (lsaArray (net.ifaces w)).take (nbrNum (net.ifaces w)) = lsaArray (net.ifaces w) :=
    List.take_of_length_le (length_lsaArray _).le
  refine ⟨w, hvw.symm, hstores.rid.trans hof.rid, ?_⟩
  rw [MospfDbEntry.lsas, hnadv, hstores.array, LsuPacket.adverts, hof.lsas, hcount, hwhole, hwhole]

/-- With nothing in flight, the databases are true of the network. -/
theorem Flooded.trueDb (h : net.Flooded s) (hconn : net.graph.Connected)
    (hfits : ∀ v, nbrNum (net.ifaces v) < 2 ^ 31) (hflight : s.flight = [])
    (hemitted : ∀ r, 0 < (s.sequenceNum r).toNat) (v : Fin n) : net.TrueDb v (s.mospfDb v) where
  nodup := h.nodup v
  others entry hentry := (h.entries v entry hentry).lsas hfits
  all r hrv := by
    have hknown := h.known_eq hconn hflight v r
    rw [known_ne hrv.symm, heldSeq] at hknown
    cases hfound : entryOf (s.mospfDb v) (net.routerId r) with
    | none =>
      rw [hfound] at hknown
      exact absurd hknown (hemitted r).ne
    | some entry => exact ⟨entry, entryOf_mem hfound⟩

/-! ### The shortest way -/

/-- The router a packet is at after so many hops. -/
def afterHops (next : Fin n → Option (Fin n)) : Nat → Fin n → Option (Fin n)
  | 0, v => some v
  | k + 1, v => (next v).bind (afterHops next k)

section Hops

variable {a : U32 × U32} {w : Fin n}

theorem exists_nearest (hatt : net.Attached w a) (v : Fin n) :
    ∃ u, net.Attached u a ∧ net.graph.dist v u = net.hops a v :=
  Nat.sInf_mem (s := {d | ∃ w, net.Attached w a ∧ net.graph.dist v w = d}) ⟨_, w, hatt, rfl⟩

theorem hops_le_succ (hconn : net.graph.Connected) (hatt : net.Attached w a) {v u : Fin n}
    (hadj : net.graph.Adj v u) : net.hops a v ≤ net.hops a u + 1 := by
  obtain ⟨x, hx, hdist⟩ := exists_nearest hatt u
  have hstep := Distance.dist_le_succ (hconn.preconnected x u) hadj.symm
  rw [SimpleGraph.dist_comm, SimpleGraph.dist_comm (u := x) (v := u)] at hstep
  have hle := hops_le (v := v) hx
  omega

/-- Where every router that is not attached sends a packet closer, it takes as few hops as there are. -/
theorem afterHops_arrives (hconn : net.graph.Connected) (hatt : net.Attached w a)
    (next : Fin n → Option (Fin n))
    (hcloser : ∀ v, ¬net.Attached v a → ∃ u, next v = some u ∧ net.graph.Adj v u ∧ net.hops a u < net.hops a v)
    (v : Fin n) : ∃ u, afterHops next (net.hops a v) v = some u ∧ net.Attached u a := by
  induction hd : net.hops a v generalizing v with
  | zero =>
    obtain ⟨u, hu, hdist⟩ := exists_nearest hatt v
    obtain rfl := (hconn.preconnected v u).dist_eq_zero_iff.mp (hdist.trans hd)
    exact ⟨v, rfl, hu⟩
  | succ d ih =>
    have hfar : ¬net.Attached v a := by
      intro hv
      have hle := hops_le (v := v) hv
      rw [SimpleGraph.dist_self] at hle
      omega
    obtain ⟨u, hnext, hadj, hless⟩ := hcloser v hfar
    have hstep := hops_le_succ hconn hatt hadj
    obtain ⟨x, hx, hthere⟩ := ih u (by omega)
    exact ⟨x, by rw [afterHops, hnext, Option.bind_some, hx], hthere⟩

end Hops

/-! ### The two together -/

theorem Flooded.of_run (hn : n ≤ 254) {es : List (NetEvent n)} (hrun : Run net.Step NetState.init es s)
    (hemit : ∀ v, es.count (.emit v) < 65536) : net.Flooded s :=
  hrun.invariant (fun _ _ _ hs hwrap hstep => hs.step hn hwrap hstep)
    (noWrap_of_count fun v => (Nat.zero_add _).trans_lt (hemit v)) flooded_init

/-- **Flooding ends.** From every reachable state of a network of at most 254 routers, in which no
router has emitted 65536 LSUs, at most `pending` deliveries can follow without an emission, in any
order; and some lead to where nothing is in flight. -/
theorem flooding_ends (net : Network n) (hn : n ≤ 254) {es : List (NetEvent n)} {s : NetState n}
    (hrun : Run net.Step NetState.init es s) (hemit : ∀ v, es.count (.emit v) < 65536) :
    (∀ fs t, Run net.Step s fs t → (∀ e ∈ fs, IsDeliver e) → fs.length ≤ net.pending s) ∧
      ∃ fs t, Run net.Step s fs t ∧ (∀ e ∈ fs, IsDeliver e) ∧ t.flight = [] := by
  have h := Flooded.of_run hn hrun hemit
  refine ⟨fun fs t hfs hdeliver => ?_, h.exists_quiet hn⟩
  have hle := (h.deliveries hn hfs hdeliver).2
  omega

/-- **Routing converges.** In every connected network of at most 127 routers, whatever LSUs were
emitted, by no router so many that its number wrapped, and in whatever order they came: once
every router has emitted and nothing is in flight, all databases are true, and the tables that
`update_rtable` makes of them lead a packet for any advertised network to a router attached to
it, in as few hops as there are, which delivers it. -/
theorem routing_converges (net : Network n) (haddr : net.Addressed) (hconn : net.graph.Connected) (hn : n ≤ 127)
    (hapart : net.NetworksApart) (hfits : ∀ v, nbrNum (net.ifaces v) < 2 ^ 31) {es : List (NetEvent n)}
    {s : NetState n} (hrun : Run net.Step NetState.init es s) (hemit : ∀ v, es.count (.emit v) < 65536)
    (hall : ∀ v, .emit v ∈ es) (hflight : s.flight = []) {rtable : Fin n → List RtEntry}
    (hdirect : ∀ v a, Holds ((rtable v).filter fun entry => entry.gw = 0) a ↔ net.Attached v a) :
    (∀ v, net.TrueDb v (s.mospfDb v)) ∧
      ∀ r a dst, net.Advertises r a → Covers a dst → ∀ v, ∃ w,
        afterHops (net.nextRouter (net.tables s.sequenceNum s.mospfDb rtable) dst) (net.hops a v) v = some w ∧
          net.Attached w a ∧
          ∃ entry, longestPrefixMatch (net.tables s.sequenceNum s.mospfDb rtable w) dst = some entry ∧
            entry.gw = 0 := by
  have h := Flooded.of_run (by omega) hrun hemit
  have hemitted : ∀ r, 0 < (s.sequenceNum r).toNat := by
    intro r
    have hzero : ((NetState.init (n := n)).sequenceNum r).toNat = 0 := rfl
    rw [seq_run hrun (by rw [hzero, Nat.zero_add]; exact hemit r), hzero, Nat.zero_add]
    exact List.count_pos_iff.mpr (hall r)
  have hdb := h.trueDb hconn hfits hflight hemitted
  have hserves : ∀ v, net.Serves v (net.tables s.sequenceNum s.mospfDb rtable v) := by
    intro v
    have hid : (Instance.mk (net.routerId v) (s.sequenceNum v) (net.ifaces v)).routerId = net.routerId v := rfl
    obtain ⟨name, hself, hname⟩ := (hdb v).exists_name hid
    have hpaths := dijkstra_shortest ((hdb v).numbered haddr hid hname) (by rwa [Fintype.card_fin])
    exact serves_updateRouter haddr hconn (hdb v) hid rfl hself hname hpaths (hdirect v)
  refine ⟨hdb, fun r a dst hadv hdst v => ?_⟩
  have hcloser : ∀ v, ¬net.Attached v a → ∃ u,
      net.nextRouter (net.tables s.sequenceNum s.mospfDb rtable) dst v = some u ∧ net.graph.Adj v u ∧
        net.hops a u < net.hops a v := by
    intro v hfar
    obtain ⟨entry, u, hselected, hgw, hloc, hadj, hless⟩ := (hserves v).closer haddr hapart hadv hdst hfar
    exact ⟨u, by rw [nextRouter, hselected, Option.bind_some, if_neg hgw, hloc], hadj, hless⟩
  obtain ⟨w, hafter, hatt⟩ := afterHops_arrives hconn ((advertises_iff haddr).mp hadv) _ hcloser v
  obtain ⟨entry, hentry, hselected, hpair⟩ := (hserves w).selects hapart hadv hdst
  exact ⟨w, hafter, hatt, entry, hselected, (hserves w).direct entry hentry (hpair ▸ hatt)⟩

/-! ### The lab -/

def labEmits : List (NetEvent 4) := (List.finRange 4).map .emit

theorem labEmits_some : (runAll lab.step NetState.init labEmits).isSome = true := by decide +kernel

theorem flooding_ends_lab : ∃ fs t, Run lab.Step ((runAll lab.step NetState.init labEmits).get labEmits_some) fs t ∧
    (∀ e ∈ fs, IsDeliver e) ∧ t.flight = [] :=
  (flooding_ends lab (by decide) (Run.of_isSome labEmits_some) (by decide)).2

/-- Every router emits, and each time all is delivered. -/
def labRun : List (NetEvent 4) := (List.finRange 4).flatMap fun v => .emit v :: .replicate 6 (.deliver 0)

theorem labRun_some : (runAll lab.step NetState.init labRun).isSome = true := by decide +kernel

/-- From each router to h2. -/
theorem routing_converges_lab : ∃ s, Run lab.Step NetState.init labRun s ∧ ∀ v, ∃ w,
    afterHops (lab.nextRouter (lab.tables s.sequenceNum s.mospfDb labTable) 0x0a000616)
        (lab.hops (0x0a000600, 0xffffff00) v) v = some w ∧
      lab.Attached w (0x0a000600, 0xffffff00) ∧
      ∃ entry, longestPrefixMatch (lab.tables s.sequenceNum s.mospfDb labTable w) 0x0a000616 = some entry ∧
        entry.gw = 0 := by
  have hadv : lab.Advertises 3 (0x0a000600, 0xffffff00) := ⟨⟨0x0a000600, 0xffffff00, 0⟩, by decide, rfl⟩
  have hdst : Covers (0x0a000600, 0xffffff00) 0x0a000616 := by
    show _ &&& _ = _
    decide
  exact ⟨_, Run.of_isSome labRun_some, (routing_converges lab lab_addressed lab_connected (by decide) lab_apart
    (by decide) (Run.of_isSome labRun_some) (by decide) (by decide) (by decide +kernel) labTable_direct).2 3 _ _
    hadv hdst⟩

end NetStack.Mospf.Network
