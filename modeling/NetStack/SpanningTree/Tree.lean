import NetStack.Lib.Wiring
import NetStack.Lib.Descent
import NetStack.SpanningTree.Agreement
import NetStack.SpanningTree.Consistency

/-! What agreement is for: the ports that are left.

A port is `ROOT`, `DESIGNATED` or `ALTERNATE` (`stp_port_state`). Once the switches agree,
the links neither of whose ports is `ALTERNATE` are those between a switch's root port and
a switch one closer to the root: they reach every switch, and there is no way around on
them. -/
namespace NetStack.SpanningTree

/-- The values of `stp_port_state`. -/
inductive PortState
  | root | designated | alternate
deriving DecidableEq, Repr

namespace Stp

/-- `stp_port_state`. -/
def portState (stp : Stp) (p : StpPort) : PortState :=
  match stp.rootPort.bind fun i => stp.ports[i]? with
  | some q => if p.portId = q.portId then .root else if stp.portIsDesignated p then .designated else .alternate
  | none => if stp.portIsDesignated p then .designated else .alternate

theorem portState_ne_alternate {stp : Stp} {p : StpPort} : stp.portState p ≠ .alternate ↔
    (∃ q, (stp.rootPort.bind fun i => stp.ports[i]?) = some q ∧ p.portId = q.portId) ∨
      stp.portIsDesignated p = true := by
  unfold portState
  split
  · rename_i q hq
    by_cases hid : p.portId = q.portId
    · simp [hq, hid]
    · cases hown : stp.portIsDesignated p <;> simp [hq, hid]
  · rename_i hnone
    cases hown : stp.portIsDesignated p <;> simp [hnone]

end Stp

namespace Network

variable {n : Nat} (net : Network n)

/-- The port takes part in forwarding. -/
def forwards (s : NetState n) (v : Fin n) (i : Nat) : Bool :=
  match (s.switch v).ports[i]? with
  | none => false
  | some p => (s.switch v).portState p ≠ .alternate

/-- The links both of whose ports take part. -/
def active (s : NetState n) : Wiring (Fin n) Nat where
  ports v := (List.range (net.nports v)).filter (forwards s v)
  peer v i := if forwards s v i then (net.peer v i).filter fun x => forwards s x.1 x.2 else none
  ports_nodup v := List.nodup_range.filter _
  mem_ports {v i x} h := by
    obtain ⟨hforwards, h⟩ := Option.ite_none_right_eq_some.mp h
    obtain ⟨hpeer, _⟩ := Option.filter_eq_some_iff.mp h
    exact List.mem_filter.mpr ⟨List.mem_range.mpr (net.peer_lt hpeer), hforwards⟩
  peer_symm {v i w j} h := by
    obtain ⟨hforwards, h⟩ := Option.ite_none_right_eq_some.mp h
    obtain ⟨hpeer, hother⟩ := Option.filter_eq_some_iff.mp h
    rw [if_pos hother]
    exact Option.filter_eq_some_iff.mpr ⟨net.peer_symm hpeer, hforwards⟩
  peer_ne {v i} h := by
    obtain ⟨_, h⟩ := Option.ite_none_right_eq_some.mp h
    exact net.peer_ne (Option.filter_eq_some_iff.mp h).1 rfl

variable {net : Network n} {s t : NetState n} {root v w : Fin n} {i j k : Nat}

theorem active_peer {x : Fin n × Nat} : (net.active s).peer v i = some x ↔
    net.peer v i = some x ∧ forwards s v i = true ∧ forwards s x.1 x.2 = true := by
  simp only [active, Option.ite_none_right_eq_some, Option.filter_eq_some_iff]
  exact ⟨fun h => ⟨h.2.1, h.1, h.2.2⟩, fun h => ⟨h.2.1, h.1, h.2.2⟩⟩

/-! ### One switch -/

/-- Ports have different ids. -/
theorem portId_inj {switchId : U64} (hi : i < maxPorts) (hj : j < maxPorts)
    (h : (portInit switchId i).portId = (portInit switchId j).portId) : i = j := by
  have hor : ∀ m, m < maxPorts → portPriority <<< 8 ||| (m + 1) = portPriority <<< 8 + (m + 1) := by
    intro m hm
    have hlt : m + 1 < 2 ^ 8 := by
      have : maxPorts = 32 := rfl
      omega
    exact (Nat.shiftLeft_add_eq_or_of_lt hlt portPriority).symm
  simp only [portInit] at h
  rw [hor i hi, hor j hj] at h
  omega

theorem SwitchSound.port {stp : Stp} (h : SwitchSound net v stp) (hi : i < net.nports v) :
    ∃ p, stp.ports[i]? = some p := ⟨_, List.getElem?_eq_getElem (h.length ▸ hi)⟩

/-- A port takes part if it is the root port or designated. -/
theorem SwitchSound.forwards_iff (h : SwitchSound net v (s.switch v)) (hi : i < net.nports v) :
    forwards s v i = true ↔ (s.switch v).rootPort = some i ∨
      ∃ p, (s.switch v).ports[i]? = some p ∧ (s.switch v).portIsDesignated p = true := by
  obtain ⟨p, hp⟩ := h.port hi
  have hforwards : forwards s v i = true ↔ (s.switch v).portState p ≠ .alternate := by
    rw [forwards, hp]
    exact decide_eq_true_iff
  rw [hforwards, Stp.portState_ne_alternate]
  refine or_congr ⟨fun hyp => ?_, fun hroot => ?_⟩ (by simp [hp])
  · obtain ⟨q, hbind, hid⟩ := hyp
    obtain ⟨k, hk, hq⟩ := Option.bind_eq_some_iff.mp hbind
    have hlt : k < net.nports v := h.length ▸ (List.getElem?_eq_some_iff.mp hq).1
    rw [(h.ports hp).portId, (h.ports hq).portId] at hid
    rw [hk, portId_inj (Nat.lt_of_lt_of_le hi (net.nports_le v)) (Nat.lt_of_lt_of_le hlt (net.nports_le v)) hid]
  · exact ⟨p, Option.bind_eq_some_iff.mpr ⟨i, hroot, hp⟩, rfl⟩

/-! ### Agreement -/

/-- What a quiescent state is like: every switch is settled and follows its root port. -/
structure Tree (net : Network n) (s : NetState n) (root : Fin n) : Prop where
  sound : ∀ v, SwitchSound net v (s.switch v)
  settled : ∀ v, Settled net s root v
  consistent : ∀ v, (s.switch v).Consistent
  least : ∀ v, net.id root ≤ net.id v
  connected : net.graph.Connected

/-- A root port leads one closer to the root. -/
theorem Tree.parent (h : Tree net s root) (hroot : (s.switch v).rootPort = some k) :
    ∃ w j, net.peer v k = some (w, j) ∧ net.graph.dist root v = net.graph.dist root w + 1 := by
  obtain ⟨p, hp, hheld, hbelieves, hcost⟩ := (h.consistent v).rooted k hroot
  obtain ⟨_, _, w, j, hfrom, _, hclaim⟩ := ((h.sound v).ports hp).held hheld
  have hpath := ((h.sound v).ports hp).pathCost
  rw [← hbelieves, (h.settled v).believes] at hclaim
  have hnear := hclaim.dist_le
  have hadj : net.graph.Adj w v := ⟨j, k, net.peer_symm hfrom.peer⟩
  have hstep := Distance.dist_le_succ (h.connected.preconnected root w) hadj
  rw [(h.settled v).cost, hpath] at hcost
  exact ⟨w, j, hfrom.peer, by omega⟩

/-- The port at the other end of it is designated. -/
theorem Tree.parent_designated (h : Tree net s root) (hpeer : net.peer v k = some (w, j))
    (hfar : net.graph.dist root v = net.graph.dist root w + 1) {q : StpPort}
    (hq : (s.switch w).ports[j]? = some q) : (s.switch w).portIsDesignated q = true := by
  cases hown : (s.switch w).portIsDesignated q with
  | true => rfl
  | false =>
    obtain ⟨hroot, hcost⟩ := (h.settled w).held hq hown
    obtain ⟨_, _, u, i, hfrom, _, hclaim⟩ := ((h.sound w).ports hq).held hown
    obtain ⟨rfl, rfl⟩ := Prod.mk.inj (Option.some.inj (hfrom.peer.symm.trans (net.peer_symm hpeer)))
    rw [hroot] at hclaim
    have hnear := hclaim.dist_le
    omega

/-- Every switch but the root has a root port. -/
theorem Tree.exists_rootPort (h : Tree net s root) (hne : v ≠ root) :
    ∃ k, (s.switch v).rootPort = some k := by
  obtain hisroot | hsome := (h.settled v).speaks
  · have hid : net.id root = net.id v := by
      rw [← (h.settled v).believes, ← (h.sound v).id]
      exact of_decide_eq_true hisroot
    exact absurd (net.id_injective hid) hne.symm
  · exact Option.isSome_iff_exists.mp hsome

/-- The link of a root port is active. -/
theorem Tree.active_parent (h : Tree net s root) (hroot : (s.switch v).rootPort = some k) :
    ∃ w j, (net.active s).peer v k = some (w, j) ∧ net.graph.dist root v = net.graph.dist root w + 1 := by
  obtain ⟨w, j, hpeer, hfar⟩ := h.parent hroot
  obtain ⟨q, hq⟩ := (h.sound w).port (net.peer_lt (net.peer_symm hpeer))
  refine ⟨w, j, active_peer.mpr ⟨hpeer, ?_, ?_⟩, hfar⟩
  · exact ((h.sound v).forwards_iff (net.peer_lt hpeer)).mpr (.inl hroot)
  · exact ((h.sound w).forwards_iff (net.peer_lt (net.peer_symm hpeer))).mpr
      (.inr ⟨q, hq, h.parent_designated hpeer hfar hq⟩)

/-- A config of the better switch of two takes the place of the other's record where that is
its own. -/
theorem Tree.outranks (h : Tree net s root) {p q : StpPort} (hq : (s.switch w).ports[j]? = some q)
    (hother : (s.switch w).portIsDesignated q = true)
    (hbetter : net.graph.dist root v < net.graph.dist root w ∨
      net.graph.dist root v = net.graph.dist root w ∧ net.id v < net.id w) :
    recvHasHigherPirority q ((s.switch v).offer p) = true := by
  obtain ⟨hroot, hcost⟩ := ((h.sound w).ports hq).own hother
  have hswitch : q.designatedSwitch = net.id w := by
    rw [← (h.sound w).id]
    exact (of_decide_eq_true hother).1
  rw [(h.settled w).believes] at hroot
  rw [(h.settled w).cost] at hcost
  have hlow := (h.sound v).cost
  have hhigh := (h.sound w).cost
  rw [(h.settled v).cost] at hlow
  rw [(h.settled w).cost] at hhigh
  have hv := ofInt_toNat (Int.natCast_nonneg (net.graph.dist root v)) hlow
  have hw := ofInt_toNat (Int.natCast_nonneg (net.graph.dist root w)) hhigh
  simp only [recvHasHigherPirority, Stp.offer, hroot, hcost, hswitch, (h.settled v).believes,
    (h.settled v).cost, (h.sound v).id, ne_eq, not_true_eq_false, if_false]
  obtain hnear | ⟨heq, hid⟩ := hbetter
  · have hne : BitVec.ofInt 32 (net.graph.dist root w : Int) ≠
        BitVec.ofInt 32 (net.graph.dist root v : Int) := by
      intro heq
      rw [heq] at hw
      omega
    have hnlt : ¬BitVec.ofInt 32 (net.graph.dist root w : Int) <
        BitVec.ofInt 32 (net.graph.dist root v : Int) := by
      rw [BitVec.lt_def]
      omega
    simp only [hne, hnlt, not_false_eq_true, if_true, decide_false, Bool.not_false]
  · have hne : net.id w ≠ net.id v := (BitVec.ne_of_lt hid).symm
    have hnlt : ¬net.id w < net.id v := by
      rw [BitVec.lt_def] at hid ⊢
      omega
    simp only [heq, hne, hnlt, not_true_eq_false, not_false_eq_true, if_true, if_false, decide_false,
      Bool.not_false]

/-- Of two designated ports on one link the better one silences the other in the hello round. -/
theorem Tree.silences (h : Tree net s root) (hquiet : net.Quiescent s)
    (hclear : ∀ ks, Along net.Deliver Untroubled (net.helloRound s) ks) {p q : StpPort}
    (hpeer : net.peer v i = some (w, j)) (hp : (s.switch v).ports[i]? = some p)
    (hown : (s.switch v).portIsDesignated p = true) (hq : (s.switch w).ports[j]? = some q)
    (hbetter : net.graph.dist root v < net.graph.dist root w ∨
      net.graph.dist root v = net.graph.dist root w ∧ net.id v < net.id w) :
    (s.switch w).portIsDesignated q = false := by
  cases hother : (s.switch w).portIsDesignated q with
  | false => rfl
  | true =>
    have htakes := h.outranks (p := p) hq hother hbetter
    have hne : ((s.switch v).offer p).switchId ≠ (s.switch w).switchId := by
      show (s.switch v).switchId ≠ (s.switch w).switchId
      rw [(h.sound v).id, (h.sound w).id]
      exact fun heq => net.peer_ne hpeer (net.id_injective heq)
    have hunder := (h.settled v).sent _ (mem_route hpeer hp hown (h.settled v).speaks)
    obtain ⟨hunmoved, _⟩ := taken_quiet hquiet hclear hunder hq htakes hne
    have hheld := Stp.updatePortConfig_held (p := q) hne
    rw [hunmoved.recorded, hother] at hheld
    cases hheld

/-- An active link is that of the root port of one of its ends. -/
theorem Tree.active_cases (h : Tree net s root) (hquiet : net.Quiescent s)
    (hclear : ∀ ks, Along net.Deliver Untroubled (net.helloRound s) ks)
    (hactive : (net.active s).peer v i = some (w, j)) :
    (s.switch v).rootPort = some i ∨ (s.switch w).rootPort = some j := by
  obtain ⟨hpeer, hv, hw⟩ := active_peer.mp hactive
  have hback := net.peer_symm hpeer
  refine (((h.sound v).forwards_iff (net.peer_lt hpeer)).mp hv).imp_right fun hyp => ?_
  refine (((h.sound w).forwards_iff (net.peer_lt hback)).mp hw).resolve_right fun hyp' => ?_
  obtain ⟨p, hp, hown⟩ := hyp
  obtain ⟨q, hq, hother⟩ := hyp'
  have hne : (net.id v).toNat ≠ (net.id w).toNat := fun heq =>
    net.peer_ne hpeer (net.id_injective (BitVec.toNat_inj.mp heq))
  have hcases : (net.graph.dist root v < net.graph.dist root w ∨
      net.graph.dist root v = net.graph.dist root w ∧ net.id v < net.id w) ∨
      net.graph.dist root w < net.graph.dist root v ∨
        net.graph.dist root w = net.graph.dist root v ∧ net.id w < net.id v := by
    simp only [BitVec.lt_def]
    omega
  obtain hbetter | hbetter := hcases
  · exact Bool.false_ne_true ((h.silences hquiet hclear hpeer hp hown hq hbetter).symm.trans hother)
  · exact Bool.false_ne_true ((h.silences hquiet hclear hback hq hother hp hbetter).symm.trans hown)

/-! ### The tree -/

theorem Tree.active_connected (h : Tree net s root) : (net.active s).Connected := by
  refine .of_center root fun v => ?_
  induction hd : net.graph.dist root v using Nat.strongRecOn generalizing v with
  | ind d ih =>
    by_cases hv : v = root
    · subst hv
      exact .refl
    · obtain ⟨k, hk⟩ := h.exists_rootPort hv
      obtain ⟨w, j, hpeer, hfar⟩ := h.active_parent hk
      exact .head ⟨k, j, hpeer⟩ (ih (net.graph.dist root w) (by omega) w rfl)

/-- How far there is to go from an arrival: towards the root while it is not on a root port,
and then away from it. -/
noncomputable def toGo (net : Network n) (s : NetState n) (root : Fin n) (a : Fin n × Nat) : Nat :=
  if (s.switch a.1).rootPort = some a.2 then n - net.graph.dist root a.1
  else n + net.graph.dist root a.1 + 1

theorem Tree.toGo_lt (h : Tree net s root) (hquiet : net.Quiescent s)
    (hclear : ∀ ks, Along net.Deliver Untroubled (net.helloRound s) ks) (a b : Fin n × Nat)
    (hstep : (net.active s).Onward a b) : toGo net s root b < toGo net s root a := by
  obtain ⟨w, j⟩ := b
  obtain ⟨p, hp, hpeer⟩ := hstep
  have hlt := Distance.dist_lt_card (h.connected.preconnected root w)
  rw [Fintype.card_fin] at hlt
  unfold toGo
  dsimp only
  obtain hroot | hroot := h.active_cases hquiet hclear hpeer
  · -- on towards the root
    have hnot : (s.switch a.1).rootPort ≠ some a.2 := fun heq =>
      hp (Option.some.inj (hroot.symm.trans heq))
    obtain ⟨w', j', hparent, hfar⟩ := h.active_parent hroot
    obtain ⟨rfl, rfl⟩ := Prod.mk.inj (Option.some.inj (hpeer.symm.trans hparent))
    rw [if_neg hnot]
    split <;> omega
  · -- away from the root
    obtain ⟨v', j', hparent, hfar⟩ := h.active_parent hroot
    obtain ⟨rfl, _⟩ := Prod.mk.inj (Option.some.inj (hparent.symm.trans ((net.active s).peer_symm hpeer)))
    rw [if_pos hroot]
    split <;> omega

theorem Tree.active_loopless (h : Tree net s root) (hquiet : net.Quiescent s)
    (hclear : ∀ ks, Along net.Deliver Untroubled (net.helloRound s) ks) : (net.active s).Loopless :=
  Descent.acyclic (h.toGo_lt hquiet hclear)

/-! ### Runs -/

/-- What a sound config carries, if there is room for one more link. -/
theorem ConfigSound.foreign {config : StpConfig} (h : ConfigSound net v i config)
    (hfits : config.rootPathCost.toInt + 1 < 2 ^ 31) : Stp.Foreign (net.id v) config := by
  obtain ⟨w, j, hfrom, hclaim⟩ := h
  refine ⟨?_, ?_⟩
  · rw [hfrom.switchId]
    exact fun heq => net.peer_ne hfrom.peer (net.id_injective heq.symm)
  · have hpos := hclaim.nonneg
    rw [BitVec.toInt_eq_toNat_cond] at hpos hfits
    split at hpos <;> omega

/-- Every switch stays consistent. -/
theorem steady_step {e : NetEvent n} (hsound : Sound net s)
    (h : ∀ v, Stp.Steady (net.id v) (s.switch v)) (hfits : CostFits s e) (hstep : net.Step s e t) (v : Fin n) :
    Stp.Steady (net.id v) (t.switch v) := by
  obtain hsame | hhello | ⟨k, frame, rfl, hframe, rfl, hhandled⟩ := step_switch hstep v
  · rw [hsame]
    exact h v
  · rw [hhello]
    exact ⟨(h v).id, (h v).heard.timer true, (h v).consistent.timer true⟩
  · rw [hhandled]
    have hconfig := hsound.flight frame (List.mem_of_getElem? hframe)
    exact (h frame.dest).handleConfigPacket _ (hconfig.foreign (hfits frame hframe))

/-- What runs keep. -/
structure Kept (net : Network n) (root : Fin n) (s : NetState n) : Prop where
  sound : Sound net s
  roomy : ∀ v, Roomy (s.switch v)
  root : RootHolds net root (s.switch root)
  steady : ∀ v, Stp.Steady (net.id v) (s.switch v)

theorem Kept.init : Kept net root net.init := by
  have hown : ∀ v, ∀ p ∈ (net.init.switch v).ports, (net.init.switch v).portIsDesignated p = true := by
    intro v p hp
    obtain ⟨i, _, rfl⟩ := List.mem_map.mp hp
    simp [Stp.portIsDesignated, portInit, Network.init, stpInit]
  refine ⟨sound_init, fun v p hp hheld => ?_, ⟨rfl, rfl, hown root⟩, fun v => Stp.stpInit_steady _ _⟩
  rw [hown v p hp] at hheld
  cases hheld

theorem Kept.step {e : NetEvent n} (hmin : ∀ v, net.id root ≤ net.id v) (h : Kept net root s)
    (hfits : CostFits s e) (hstep : net.Step s e t) : Kept net root t where
  sound := h.sound.step (Roomy.sumFits h.roomy h.sound hfits) hstep
  roomy := Roomy.step h.roomy hfits hstep
  root := h.root.step hmin h.sound hstep
  steady := steady_step h.sound h.steady hfits hstep

/-- A quiescent state a run has come to. -/
theorem Kept.tree (hconn : net.graph.Connected) (hmin : ∀ v, net.id root ≤ net.id v) (h : Kept net root s)
    (hquiet : net.Quiescent s) (hclear : ∀ ks, Along net.Deliver Untroubled (net.helloRound s) ks) :
    Tree net s root where
  sound := h.sound.switch
  settled v := Distance.outwards (h.root.settled (h.sound.switch root))
    (fun _ _ hadj _ hfar hsettled => hsettled.further hmin h.sound hquiet hclear hadj hfar) v
    (hconn.preconnected root v)
  consistent v := (h.steady v).consistent
  least := hmin
  connected := hconn

/-- **The spanning tree.** In every connected network of switches and every run, with costs
that fit an `int`: if the state reached is quiescent, and in its hello round every delivery
leaves the ports of its switch with nothing to see to, then there is no way round on the
links without an `ALTERNATE` port, they reach from every switch to every other, and every
switch but the one of least id has a root port, its link among them, one closer to that. -/
theorem active_spanning_tree (hconn : net.graph.Connected) {es : List (NetEvent n)}
    (hrun : Run net.Step net.init es s) (hcost : Along net.Step CostFits net.init es)
    (hquiet : net.Quiescent s) (hclear : ∀ ks, Along net.Deliver Untroubled (net.helloRound s) ks) :
    (net.active s).Loopless ∧ (net.active s).Connected ∧
      ∀ root, (∀ v, net.id root ≤ net.id v) → ∀ v ≠ root, ∃ k w j, (s.switch v).rootPort = some k ∧
        (net.active s).peer v k = some (w, j) ∧ net.graph.dist root v = net.graph.dist root w + 1 := by
  have htree : ∀ root, (∀ v, net.id root ≤ net.id v) → Tree net s root := by
    intro root hmin
    have hkeep : ∀ a e b, Kept net root a → CostFits a e → net.Step a e b → Kept net root b :=
      fun _ _ _ h hfits hstep => h.step hmin hfits hstep
    have hkept : Kept net root s := hrun.invariant hkeep hcost .init
    exact hkept.tree hconn hmin hquiet hclear
  obtain ⟨root, hmin⟩ : ∃ root, ∀ v, net.id root ≤ net.id v := by
    obtain ⟨v⟩ := hconn.nonempty
    obtain ⟨root, _, hmin⟩ :=
      Finset.exists_min_image Finset.univ (fun v => (net.id v).toNat) ⟨v, Finset.mem_univ v⟩
    exact ⟨root, fun u => BitVec.le_def.mpr (hmin u (Finset.mem_univ u))⟩
  refine ⟨(htree root hmin).active_loopless hquiet hclear, (htree root hmin).active_connected, ?_⟩
  intro root hmin v hv
  obtain ⟨k, hk⟩ := (htree root hmin).exists_rootPort hv
  obtain ⟨w, j, hpeer, hfar⟩ := (htree root hmin).active_parent hk
  exact ⟨k, w, j, hk, hpeer, hfar⟩

theorem ring_spanning_tree : (ring.active ringAfter).Loopless ∧ (ring.active ringAfter).Connected := by
  have hrun : Run ring.Step ring.init ringRun ringAfter := Run.of_isSome (by decide)
  have hclosed : Closed ring ringAfter (ring.roundFrames ringAfter) := by decide +kernel
  have hstart : ∀ f ∈ (ring.helloRound ringAfter).flight, f ∈ ring.roundFrames ringAfter :=
    fun f hf => List.mem_append_left _ hf
  have htree := active_spanning_tree ring_connected hrun (Along.of_checkAll (by decide))
    (hclosed.quiescent hstart (by decide)) (hclosed.untroubled hstart (by decide +kernel))
  exact ⟨htree.1, htree.2.1⟩

end Network
end NetStack.SpanningTree
