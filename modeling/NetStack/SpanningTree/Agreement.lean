import NetStack.Lib.Distance
import NetStack.SpanningTree.Witness

/-! Agreement on the root.

In a quiescent state a hello round delivers what every switch already holds, along every
link whose near port is served, so by distance from the root every switch is reached, and
its best non-designated port gives it its distance. That takes two things of
`update_root`, which it does not always do (`Clear`): to take a best port, and to leave no
port unserved that the switch has something better for. -/
namespace NetStack.SpanningTree

/-- A record's path to its root is no worse than another's. -/
def NoWorse (p q : StpPort) : Prop :=
  p.designatedRoot < q.designatedRoot ∨
    p.designatedRoot = q.designatedRoot ∧ p.designatedCost ≤ q.designatedCost

theorem NoWorse.trans {a b c : StpPort} (hab : NoWorse a b) (hbc : NoWorse b c) : NoWorse a c := by
  rcases hab with hab | ⟨hab, hcost⟩ <;> rcases hbc with hbc | ⟨hbc, hcost'⟩
  · exact .inl (BitVec.lt_trans hab hbc)
  · exact .inl (hbc ▸ hab)
  · exact .inl (hab ▸ hbc)
  · exact .inr ⟨hab.trans hbc, hcost.trans hcost'⟩

theorem NoWorse.of_priority {p q : StpPort} (h : priority p ≤ priority q) : NoWorse p q := by
  have hroot : p.designatedRoot = q.designatedRoot ↔
      p.designatedRoot.toNat = q.designatedRoot.toNat := BitVec.toNat_inj.symm
  simp only [priority, Prod.Lex.toLex_le_toLex] at h
  simp only [NoWorse, BitVec.lt_def, hroot]
  omega

namespace Stp

/-- With its ports as they are, `update_root` sees to everything: no non-designated port
holds a record that one more than another's is better than; where one comes before its
successor, the last is no better than all before it; and where none does, the root port
there was is a best one. -/
structure Clear (stp : Stp) : Prop where
  served : ∀ x ∈ stp.nonDesignatedPorts, ∀ y ∈ stp.nonDesignatedPorts,
    x.1.designatedRoot < y.1.designatedRoot ∨
      x.1.designatedRoot = y.1.designatedRoot ∧ x.1.designatedCost ≤ y.1.designatedCost + 1
  last : ¬Descending stp.nonDesignatedPorts → ∀ x ∈ stp.nonDesignatedPorts.getLast?,
    ∃ y ∈ stp.nonDesignatedPorts.dropLast, NoWorse y.1 x.1
  kept : 2 ≤ stp.nonDesignatedPorts.length → Descending stp.nonDesignatedPorts →
    ∃ i p, stp.rootPort = some i ∧ stp.ports[i]? = some p ∧ ∀ y ∈ stp.nonDesignatedPorts, NoWorse p y.1

/-- Then the port chosen is a best one. -/
theorem Clear.chooses {stp : Stp} (h : stp.Clear) {x : StpPort × Nat} (hx : x ∈ stp.nonDesignatedPorts) :
    ∃ i p, stp.chooseRootPort = some i ∧ stp.ports[i]? = some p ∧ NoWorse p x.1 := by
  have hkept : stp.nonDesignatedPorts.length ≠ 1 → Descending stp.nonDesignatedPorts →
      ∃ i p, stp.rootPort = some i ∧ stp.ports[i]? = some p ∧ NoWorse p x.1 := by
    intro hone hdesc
    have hpos := List.length_pos_of_mem hx
    obtain ⟨i, p, hi, hp, hbest⟩ := h.kept (by omega) hdesc
    exact ⟨i, p, hi, hp, hbest x hx⟩
  unfold chooseRootPort
  split
  · rename_i y hy
    rw [hy] at hx
    obtain rfl := List.mem_singleton.mp hx
    exact ⟨x.2, x.1, rfl, (mem_nonDesignatedPorts.mp (hy ▸ hx)).1, .inr ⟨rfl, le_refl _⟩⟩
  · rename_i hone
    split
    · rename_i z hz
      obtain ⟨hmem, hleast⟩ := judgePorts_least hz
      refine ⟨z.2, z.1, rfl, (mem_nonDesignatedPorts.mp (List.dropLast_subset _ hmem)).1, ?_⟩
      have hbefore : ∀ y ∈ stp.nonDesignatedPorts.dropLast, NoWorse z.1 y.1 := fun y hy =>
        .of_priority (hleast y hy)
      -- the last port is left to the condition
      have hne : stp.nonDesignatedPorts ≠ [] := List.ne_nil_of_mem hx
      have hsplit := List.dropLast_concat_getLast hne
      rw [← hsplit] at hx
      rcases List.mem_append.mp hx with hx | hx
      · exact hbefore x hx
      · obtain rfl := List.mem_singleton.mp hx
        have hdesc : ¬Descending stp.nonDesignatedPorts := by
          rw [← judgePorts_none, hz]
          exact Option.some_ne_none z
        obtain ⟨y, hy, hyx⟩ := h.last hdesc _ (List.getLast?_eq_getLast_of_ne_nil hne)
        exact (hbefore y hy).trans hyx
    · rename_i hnone
      refine hkept (fun hlen => ?_) (judgePorts_none.mp hnone)
      obtain ⟨y, hy⟩ := List.length_eq_one_iff.mp hlen
      exact hone y hy

end Stp

namespace Network

variable {n : Nat} {net : Network n} {root v : Fin n} {s t : NetState n}

/-- A delivery after which the ports of its switch leave nothing to see to. -/
def Untroubled (s : NetState n) (k : Nat) : Prop :=
  ∀ frame ∈ s.flight[k]?, ∀ p ∈ (s.switch frame.dest).ports[frame.port]?,
    recvHasHigherPirority p frame.config = true →
      ((s.switch frame.dest).record frame.port p frame.config).Clear

/-! ### The root -/

/-- The switch with the least id, as it was at the start. -/
structure RootHolds (net : Network n) (root : Fin n) (stp : Stp) : Prop where
  root : stp.designatedRoot = net.id root
  cost : stp.rootPathCost = 0
  own : ∀ p ∈ stp.ports, stp.portIsDesignated p = true

/-- No claim is better than the least id at its distance. -/
theorem Claims.root_le (hmin : ∀ v, net.id root ≤ net.id v) {rootId : U64} {cost : Int}
    (h : Claims net rootId cost v) : net.id root ≤ rootId := by
  obtain ⟨u, rfl, -⟩ := h
  exact hmin u

/-- The switch with the least id ignores every config. -/
theorem RootHolds.ignores {stp : Stp} {i : Nat} {p : StpPort} {config : StpConfig}
    (hmin : ∀ v, net.id root ≤ net.id v) (hsound : SwitchSound net root stp)
    (h : RootHolds net root stp) (hp : stp.ports[i]? = some p) (hconfig : ConfigSound net root i config) :
    recvHasHigherPirority p config = false := by
  obtain ⟨w, j, hfrom, hclaim⟩ := hconfig
  obtain ⟨hroot, hcost⟩ := (hsound.ports hp).own (h.own p (List.mem_of_getElem? hp))
  rw [h.root] at hroot
  rw [h.cost] at hcost
  have hle := hclaim.root_le hmin
  unfold recvHasHigherPirority
  rw [hroot, hcost]
  by_cases heq : net.id root = config.rootId
  · rw [← heq] at hclaim
    have hpos : 0 < config.rootPathCost.toInt := by
      obtain ⟨u, hu, walk, hlen⟩ := hclaim
      obtain rfl := net.id_injective hu
      have hne : walk.length ≠ 0 := fun hzero =>
        net.peer_ne hfrom.peer (SimpleGraph.Walk.eq_of_length_eq_zero hzero)
      omega
    have hlt : 0#32 < config.rootPathCost := by
      rw [BitVec.lt_def]
      rw [BitVec.toInt_eq_toNat_cond] at hpos
      show 0 < config.rootPathCost.toNat
      split at hpos <;> omega
    have hne : 0#32 ≠ config.rootPathCost := BitVec.ne_of_lt hlt
    simp only [heq, ne_eq, not_true_eq_false, if_false]
    simp [hne, hlt]
  · have hlt : net.id root < config.rootId := BitVec.lt_of_le_ne hle heq
    simp [heq, hlt]

theorem RootHolds.step {e : NetEvent n} (hmin : ∀ v, net.id root ≤ net.id v) (hsound : Sound net s)
    (h : RootHolds net root (s.switch root)) (hstep : net.Step s e t) :
    RootHolds net root (t.switch root) := by
  rcases step_switch hstep root with hsame | hhello | ⟨k, frame, -, hframe, hdest, hhandled⟩
  · rwa [hsame]
  · rw [hhello]
    exact ⟨h.root, h.cost, h.own⟩
  · have hconfig := hsound.flight frame (List.mem_of_getElem? hframe)
    rw [hdest] at hconfig
    rcases (s.switch root).handleConfigPacket_cases frame.port frame.config with
      hsame | ⟨p, stp', hp, hrecv, -⟩
    · rw [hhandled, hsame]
      exact h
    · rw [h.ignores hmin (hsound.switch root) hp hconfig] at hrecv
      cases hrecv

/-! ### A config that changes nothing -/

theorem ofInt_toNat {cost : Int} (h0 : 0 ≤ cost) (h1 : cost < 2 ^ 31) :
    ((BitVec.ofInt 32 cost).toNat : Int) = cost := by
  rw [BitVec.toNat_ofInt]
  have : (cost % 2 ^ 32 : Int) = cost := Int.emod_eq_of_lt h0 (by omega)
  omega

/-- What the record of a port to a neighbour claims: no less than the least id, and with that
no less than the neighbour's distance; if just that, it is of the neighbour's own config. -/
theorem SwitchSound.record {stp : Stp} {w : Fin n} {i j : Nat} {p : StpPort} {config : StpConfig}
    (h : SwitchSound net w stp) (hmin : ∀ v, net.id root ≤ net.id v) (hp : stp.ports[j]? = some p)
    (hfrom : FromPeer net w j config.switchId config.portId v i)
    (hfar : net.graph.dist root w = net.graph.dist root v + 1) :
    net.id root ≤ p.designatedRoot ∧ 0 ≤ p.designatedCost ∧ p.designatedCost < 2 ^ 31 ∧
      (p.designatedRoot = net.id root → (net.graph.dist root v : Int) ≤ p.designatedCost) ∧
      (p.designatedRoot = net.id root → p.designatedCost = net.graph.dist root v →
        p.designatedSwitch = config.switchId ∧ p.designatedPort = config.portId.toNat) := by
  cases hown : stp.portIsDesignated p with
  | true =>
    obtain ⟨hr, hc⟩ := (h.ports hp).own hown
    have hfar' : stp.designatedRoot = net.id root → (net.graph.dist root w : Int) ≤ stp.rootPathCost :=
      fun heq => Claims.dist_le (heq ▸ h.claim)
    rw [hr, hc]
    refine ⟨h.claim.root_le hmin, h.claim.nonneg, h.cost, fun heq => ?_, fun heq hd => ?_⟩
    · have := hfar' heq
      omega
    · have := hfar' heq
      omega
  | false =>
    obtain ⟨hbound, portId, v', i', hfrom', hport, hclaim⟩ := (h.ports hp).held hown
    obtain ⟨rfl, rfl⟩ := Prod.mk.inj (Option.some.inj (hfrom'.peer.symm.trans hfrom.peer))
    refine ⟨hclaim.root_le hmin, hclaim.nonneg, by omega, fun heq => Claims.dist_le (heq ▸ hclaim),
      fun _ _ => ⟨hfrom'.switchId.trans hfrom.switchId.symm, ?_⟩⟩
    rw [hport, hfrom'.portId, hfrom.portId]

/-- A config with the least id, from a neighbour one closer to that switch, is taken. -/
theorem SwitchSound.takes {stp : Stp} {w : Fin n} {i j : Nat} {p : StpPort} {config : StpConfig}
    (h : SwitchSound net w stp) (hmin : ∀ v, net.id root ≤ net.id v) (hp : stp.ports[j]? = some p)
    (hfrom : FromPeer net w j config.switchId config.portId v i) (hroot : config.rootId = net.id root)
    (hcost : config.rootPathCost.toInt = net.graph.dist root v)
    (hfar : net.graph.dist root w = net.graph.dist root v + 1) :
    recvHasHigherPirority p config = true := by
  have hcost' : (config.rootPathCost.toNat : Int) = net.graph.dist root v := by
    rw [BitVec.toInt_eq_toNat_cond] at hcost
    split at hcost <;> omega
  obtain ⟨hle, h0, h1, hdist, htie⟩ := h.record hmin hp hfrom hfar
  have hnat := ofInt_toNat h0 h1
  unfold recvHasHigherPirority
  rw [hroot]
  by_cases hr : p.designatedRoot = net.id root
  · have hd := hdist hr
    simp only [hr, ne_eq, not_true_eq_false, if_false]
    by_cases hc : BitVec.ofInt 32 p.designatedCost = config.rootPathCost
    · have hequal : p.designatedCost = net.graph.dist root v := by
        rw [← hnat, hc, hcost']
      obtain ⟨hswitch, hport⟩ := htie hr hequal
      simp [hc, hswitch, hport]
    · have hnlt : ¬BitVec.ofInt 32 p.designatedCost < config.rootPathCost := by
        rw [BitVec.lt_def]
        omega
      simp [hc, hnlt]
  · have hnlt : ¬p.designatedRoot < net.id root := by
      rw [BitVec.lt_def]
      rw [BitVec.le_def] at hle
      omega
    simp [hr, hnlt]

end Network

namespace Stp

/-- What is so of a switch that a config it takes changes nothing of: the port has the
config's record, and everything is what `update_root` makes of the ports. -/
structure Unmoved (stp : Stp) (j : Nat) (p : StpPort) (config : StpConfig) : Prop where
  recorded : updatePortConfig p config = p
  rootPort : stp.rootPort = stp.chooseRootPort
  root : stp.designatedRoot = stp.updateRoot.designatedRoot
  cost : stp.rootPathCost = stp.updateRoot.rootPathCost
  sent : stp.isRootSwitch = false → (stp.handleConfigPacket j config).2 = stp.sendConfig

/-- Recording what the port holds. -/
theorem record_self {stp : Stp} {j : Nat} {p : StpPort} {config : StpConfig} (hp : stp.ports[j]? = some p)
    (hrecord : updatePortConfig p config = p) : stp.record j p config = stp := by
  unfold record
  rw [hrecord]
  have hset : stp.ports.set j p = stp.ports := by
    rw [← (List.getElem?_eq_some_iff.mp hp).2, List.set_getElem_self]
  rw [hset]

/-- Whichever way the handler ends, the switch is what was computed but for the timer, if it
is what it was. -/
theorem eq_computed {stp : Stp} {j : Nat} {p : StpPort} {config : StpConfig}
    (hp : stp.ports[j]? = some p) (htakes : recvHasHigherPirority p config = true)
    (hsame : (stp.handleConfigPacket j config).1 = stp) :
    (stp.isRootSwitch = false → (stp.handleConfigPacket j config).2 = stp.sendConfig) ∧
      ∃ timer, stp = { (stp.record j p config).updateRoot.updateOtherPorts with helloTimer := timer } := by
  simp only [handleConfigPacket, hp, htakes, if_true] at hsame ⊢
  split at hsame
  · rename_i hroot
    rw [if_pos hroot]
    have hstill : stp.isRootSwitch = true := (congrArg isRootSwitch hsame).symm.trans hroot
    refine ⟨fun hnot => ?_, _, hsame.symm⟩
    rw [hstill] at hnot
    contradiction
  · rename_i hroot
    rw [if_neg hroot]
    exact ⟨fun _ => congrArg Stp.sendConfig hsame, false, hsame.symm⟩

theorem unmoved {stp : Stp} {j : Nat} {p : StpPort} {config : StpConfig}
    (hp : stp.ports[j]? = some p) (htakes : recvHasHigherPirority p config = true)
    (hne : config.switchId ≠ stp.switchId) (hsame : (stp.handleConfigPacket j config).1 = stp) :
    stp.Unmoved j p config := by
  have hlt : j < stp.ports.length := (List.getElem?_eq_some_iff.mp hp).1
  obtain ⟨hsent, timer, hcomputed⟩ := eq_computed hp htakes hsame
  have hrecord : updatePortConfig p config = p := by
    have hheld : (stp.record j p config).updateRoot.portIsDesignated (updatePortConfig p config) = false := by
      apply updatePortConfig_held
      rw [updateRoot_switchId]
      exact hne
    have hset : (stp.record j p config).ports[j]? = some (updatePortConfig p config) := by simp [record, hlt]
    have hat : stp.ports[j]? = some (updatePortConfig p config) := by
      rw [hcomputed]
      simp [updateOtherPorts, hset, hheld]
    exact Option.some.inj (hat.symm.trans hp)
  rw [record_self hp hrecord] at hcomputed
  exact ⟨hrecord, (congrArg Stp.rootPort hcomputed).trans (updateRoot_rootPort stp),
    (congrArg Stp.designatedRoot hcomputed).trans rfl, (congrArg Stp.rootPathCost hcomputed).trans rfl, hsent⟩

/-- What the switch takes from its root port. -/
theorem updateRoot_of_choice {stp : Stp} {k : Nat} {q : StpPort} (hk : stp.chooseRootPort = some k)
    (hq : stp.ports[k]? = some q) : stp.updateRoot.designatedRoot = q.designatedRoot ∧
      stp.updateRoot.rootPathCost = (q.designatedCost + q.pathCost).bmod (2 ^ 32) := by
  have hbind : (stp.chooseRootPort.bind fun i => stp.ports[i]?) = some q := by
    rw [hk]
    exact hq
  unfold updateRoot
  dsimp only
  rw [hbind]
  exact ⟨rfl, rfl⟩

end Stp

namespace Network

variable {n : Nat} {net : Network n} {root v : Fin n} {s t : NetState n}

/-! ### Outwards from the root -/

/-- The switch has the root and its distance, its non-designated ports hold nothing worse
than that, and in the hello round what it sends is sent. -/
structure Settled (net : Network n) (s : NetState n) (root v : Fin n) : Prop where
  believes : (s.switch v).designatedRoot = net.id root
  cost : (s.switch v).rootPathCost = net.graph.dist root v
  held : ∀ {i : Nat} {p : StpPort}, (s.switch v).ports[i]? = some p → (s.switch v).portIsDesignated p = false →
    p.designatedRoot = net.id root ∧ p.designatedCost ≤ net.graph.dist root v
  speaks : (s.switch v).isRootSwitch = true ∨ (s.switch v).rootPort.isSome = true
  sent : ∀ frame ∈ net.route v (s.switch v).sendConfig,
    ∃ ks t, Run net.Deliver (net.helloRound s) ks t ∧ frame ∈ t.flight

/-- The root itself: its hello configs are what the round starts with. -/
theorem RootHolds.settled (hsound : SwitchSound net root (s.switch root))
    (h : RootHolds net root (s.switch root)) : Settled net s root root := by
  have hisroot : (s.switch root).isRootSwitch = true := by
    simp [Stp.isRootSwitch, h.root, hsound.id]
  refine ⟨h.root, by simp [h.cost], fun hp hheld => ?_, .inl hisroot, fun frame hframe => ?_⟩
  · rw [h.own _ (List.mem_of_getElem? hp)] at hheld
    contradiction
  · refine ⟨[], net.helloRound s, .nil _, List.mem_append_right _ ?_⟩
    refine List.mem_flatMap.mpr ⟨root, List.mem_finRange root, ?_⟩
    rw [if_pos hisroot]
    exact hframe

/-- What a designated port of a switch that speaks sends over its link. -/
theorem mem_route {stp : Stp} {w : Fin n} {i j : Nat} {p : StpPort} (hpeer : net.peer v i = some (w, j))
    (hp : stp.ports[i]? = some p) (hown : stp.portIsDesignated p = true)
    (hspeaks : stp.isRootSwitch = true ∨ stp.rootPort.isSome = true) :
    ⟨w, j, stp.offer p⟩ ∈ net.route v stp.sendConfig := by
  have hsend : stp.portSendConfig p = some (stp.offer p) := by
    have hsilent : (!stp.isRootSwitch && stp.rootPort.isNone) = false := by
      rcases hspeaks with hspeaks | hspeaks
      · simp [hspeaks]
      · simp [Option.isNone_eq_false_iff.mpr hspeaks]
    rw [Stp.portSendConfig, hsilent]
    rfl
  have hmem : (i, stp.offer p) ∈ stp.sendConfig := by
    refine List.mem_filterMap.mpr ⟨(p, i), List.mem_zipIdx_iff_getElem?.mpr hp, ?_⟩
    simp only [hown, if_true, hsend, Option.map_some]
  refine List.mem_filterMap.mpr ⟨_, hmem, ?_⟩
  simp only [hpeer, Option.map_some]

/-- A frame that is under way in the hello round is delivered next; nothing changes, and
what its switch sends is under way. -/
theorem deliver_quiet (hquiet : net.Quiescent s) {ks : List Nat} {frame : Frame n}
    (hrun : Run net.Deliver (net.helloRound s) ks t) (hframe : frame ∈ t.flight) :
    (handle s frame).1 = s.switch frame.dest ∧
      ∀ f ∈ net.route frame.dest (handle s frame).2,
        ∃ ks t, Run net.Deliver (net.helloRound s) ks t ∧ f ∈ t.flight := by
  obtain ⟨k, hk⟩ := List.mem_iff_getElem?.mp hframe
  have hsame : t.switch = s.switch := hquiet.2 ks t hrun
  have hhandle : handle t frame = handle s frame := by simp only [handle, hsame]
  let t' : NetState n := ⟨Function.update t.switch frame.dest (handle s frame).1,
    t.flight.eraseIdx k ++ net.route frame.dest (handle s frame).2⟩
  have hstep : net.Deliver t k t' := by
    show net.step t (.deliver k) = some t'
    simp only [step, hk, hhandle, t']
  have hrun' := hrun.snoc hstep
  refine ⟨?_, fun f hf => ⟨_, t', hrun', List.mem_append_right _ hf⟩⟩
  have hupdate : t'.switch frame.dest = s.switch frame.dest := by
    rw [hquiet.2 _ t' hrun']
  rwa [show t'.switch frame.dest = (handle s frame).1 from Function.update_self ..] at hupdate

/-- One more link wraps only to something negative. -/
theorem bmod_succ {cost : Int} (h0 : 0 ≤ cost) (h1 : cost < 2 ^ 31) (hnonneg : 0 ≤ (cost + 1).bmod (2 ^ 32)) :
    (cost + 1).bmod (2 ^ 32) = cost + 1 := by
  rcases Int.lt_or_le (cost + 1) (2 ^ 31) with hfits | hover
  · apply Int.bmod_eq_of_le_mul_two <;> omega
  · obtain hmax : cost + 1 = 2 ^ 31 := by omega
    rw [hmax] at hnonneg
    exact absurd hnonneg (by decide)

/-- A switch that holds a record from a neighbour one closer to the root, and has what `update_root`
makes of its ports with nothing left to see to, has the root and its distance. -/
theorem SwitchSound.settles {stp : Stp} {w : Fin n} {j : Nat} {q : StpPort} (hw : SwitchSound net w stp)
    (hmin : ∀ v, net.id root ≤ net.id v) (hclear : stp.Clear) (hport : stp.rootPort = stp.chooseRootPort)
    (hroot : stp.designatedRoot = stp.updateRoot.designatedRoot)
    (hpath : stp.rootPathCost = stp.updateRoot.rootPathCost) (hqmem : (q, j) ∈ stp.nonDesignatedPorts)
    (hqroot : q.designatedRoot = net.id root) (hqcost : q.designatedCost = net.graph.dist root v)
    (hfar : net.graph.dist root w = net.graph.dist root v + 1) :
    stp.designatedRoot = net.id root ∧ stp.rootPathCost = net.graph.dist root w ∧
      (∀ y ∈ stp.nonDesignatedPorts,
        y.1.designatedRoot = net.id root ∧ y.1.designatedCost ≤ net.graph.dist root w) ∧
      stp.rootPort.isSome = true := by
  obtain ⟨k, b, hk, hb, hbest⟩ := hclear.chooses hqmem
  have hbmem : (b, k) ∈ stp.nonDesignatedPorts := by
    refine Stp.mem_nonDesignatedPorts.mpr ⟨hb, ?_⟩
    obtain ⟨b', hb', hbheld⟩ := hw.root (hport.trans hk)
    obtain rfl : b' = b := Option.some.inj (hb'.symm.trans hb)
    exact hbheld
  -- every record names the root, at most one further than this one
  have hnear : ∀ y ∈ stp.nonDesignatedPorts,
      y.1.designatedRoot = net.id root ∧ y.1.designatedCost ≤ net.graph.dist root w := by
    intro y hy
    obtain ⟨hyport, hyheld⟩ := Stp.mem_nonDesignatedPorts.mp hy
    obtain ⟨-, -, u, -, -, -, hclaim⟩ := (hw.ports hyport).held hyheld
    have hle := hclaim.root_le hmin
    rcases hclear.served y hy (q, j) hqmem with hlt | ⟨heq, hle'⟩
    · rw [hqroot, BitVec.lt_def] at hlt
      rw [BitVec.le_def] at hle
      omega
    · rw [hqcost] at hle'
      exact ⟨heq.trans hqroot, by omega⟩
  obtain ⟨hbroot, -⟩ := hnear (b, k) hbmem
  have hbcost : b.designatedCost ≤ net.graph.dist root v := by
    rcases hbest with hlt | ⟨-, hle⟩
    · rw [hbroot, hqroot, BitVec.lt_def] at hlt
      omega
    · rw [← hqcost]
      exact hle
  obtain ⟨hbr, hbc⟩ := Stp.updateRoot_of_choice hk hb
  have hbelieves : stp.designatedRoot = net.id root := hroot.trans (hbr.trans hbroot)
  have hwcost : stp.rootPathCost = net.graph.dist root w := by
    obtain ⟨hbound, -, u, -, -, -, hclaim⟩ :=
      (hw.ports hb).held (Stp.mem_nonDesignatedPorts.mp hbmem).2
    have h0 := hclaim.nonneg
    have hclaim' := Claims.dist_le (hbelieves ▸ hw.claim)
    rw [hpath, hbc, (hw.ports hb).pathCost] at hclaim' ⊢
    have hwrap := bmod_succ h0 (by omega) ((Int.natCast_nonneg _).trans hclaim')
    rw [hwrap] at hclaim' ⊢
    omega
  refine ⟨hbelieves, hwcost, hnear, ?_⟩
  rw [hport, hk]
  rfl

/-- What a settled switch has under way in the hello round to a neighbour one further from the
root: the record on the port between them would bring the neighbour nearer, if it were not
the switch's own. -/
theorem Settled.offers {w : Fin n} {i j : Nat} (hsound : Sound net s) (h : Settled net s root v)
    (hpeer : net.peer v i = some (w, j)) (hfar : net.graph.dist root w = net.graph.dist root v + 1) :
    ∃ config : StpConfig,
      (∃ ks t, Run net.Deliver (net.helloRound s) ks t ∧ ⟨w, j, config⟩ ∈ t.flight) ∧
      FromPeer net w j config.switchId config.portId v i ∧ config.rootId = net.id root ∧
      config.rootPathCost.toInt = net.graph.dist root v := by
  have hv := hsound.switch v
  have hi : i < (s.switch v).ports.length := hv.length ▸ net.peer_lt hpeer
  obtain ⟨p, hp⟩ : ∃ p, (s.switch v).ports[i]? = some p := ⟨_, List.getElem?_eq_getElem hi⟩
  cases hown : (s.switch v).portIsDesignated p with
  | false =>
    obtain ⟨-, portId, w', j', hfrom, -, hclaim⟩ := (hv.ports hp).held hown
    obtain ⟨rfl, rfl⟩ := Prod.mk.inj (Option.some.inj (hfrom.peer.symm.trans hpeer))
    obtain ⟨hr, hc⟩ := h.held hp hown
    have := Claims.dist_le (hr ▸ hclaim)
    exfalso
    omega
  | true =>
    refine ⟨(s.switch v).offer p, h.sent _ (mem_route hpeer hp hown h.speaks),
      ⟨net.peer_symm hpeer, hv.id, ?_⟩, h.believes, (toInt_ofInt_cost hv.claim.nonneg hv.cost).trans h.cost⟩
    show BitVec.ofInt 16 p.portId = _
    rw [(hv.ports hp).portId]

/-- A config a switch takes in a hello round that changes nothing leaves nothing to trouble the
switch, and what the switch answers is under way. -/
theorem taken_quiet {w : Fin n} {j : Nat} {q : StpPort} {config : StpConfig} (hquiet : net.Quiescent s)
    (hclear : ∀ ks, Along net.Deliver Untroubled (net.helloRound s) ks)
    (hunder : ∃ ks t, Run net.Deliver (net.helloRound s) ks t ∧ ⟨w, j, config⟩ ∈ t.flight)
    (hq : (s.switch w).ports[j]? = some q) (htakes : recvHasHigherPirority q config = true)
    (hne : config.switchId ≠ (s.switch w).switchId) :
    (s.switch w).Unmoved j q config ∧ (s.switch w).Clear ∧
      ((s.switch w).isRootSwitch = false → ∀ f ∈ net.route w (s.switch w).sendConfig,
        ∃ ks t, Run net.Deliver (net.helloRound s) ks t ∧ f ∈ t.flight) := by
  obtain ⟨ks, t, hrun, hmem⟩ := hunder
  obtain ⟨hsame, hsent⟩ := deliver_quiet hquiet hrun hmem
  simp only [handle] at hsame hsent
  have hunmoved := Stp.unmoved hq htakes hne hsame
  refine ⟨hunmoved, ?_, fun hnotroot => ?_⟩
  · obtain ⟨k, hk⟩ := List.mem_iff_getElem?.mp hmem
    have hat := (hclear (ks ++ [k])).last hrun _ hk q
    rw [hquiet.2 ks t hrun] at hat
    have := hat hq htakes
    rwa [Stp.record_self hq hunmoved.recorded] at this
  · rwa [hunmoved.sent hnotroot] at hsent

/-- A neighbour one further from the root. -/
theorem Settled.further {w : Fin n} (hmin : ∀ v, net.id root ≤ net.id v) (hsound : Sound net s)
    (hquiet : net.Quiescent s)
    (hclear : ∀ ks, Along net.Deliver Untroubled (net.helloRound s) ks)
    (h : Settled net s root v) (hadj : net.graph.Adj v w)
    (hfar : net.graph.dist root w = net.graph.dist root v + 1) : Settled net s root w := by
  obtain ⟨i, j, hpeer⟩ := hadj
  have hw := hsound.switch w
  have hj : j < (s.switch w).ports.length := hw.length ▸ net.peer_lt (net.peer_symm hpeer)
  obtain ⟨q, hq⟩ : ∃ q, (s.switch w).ports[j]? = some q := ⟨_, List.getElem?_eq_getElem hj⟩
  obtain ⟨config, hunder, hfrom, hroot, hcost⟩ := h.offers hsound hpeer hfar
  have htakes := hw.takes hmin hq hfrom hroot hcost hfar
  have hne : config.switchId ≠ (s.switch w).switchId := by
    rw [hfrom.switchId, hw.id]
    exact fun heq => net.peer_ne hpeer (net.id_injective heq)
  obtain ⟨hunmoved, hwclear, hsent⟩ := taken_quiet hquiet hclear hunder hq htakes hne
  have hrecorded := hunmoved.recorded
  have hqroot : q.designatedRoot = net.id root := by
    rw [← hrecorded]
    exact hroot
  have hqcost : q.designatedCost = net.graph.dist root v := by
    rw [← hrecorded]
    exact hcost
  have hheld : (s.switch w).portIsDesignated q = false := by
    rw [← hrecorded]
    exact Stp.updatePortConfig_held hne
  have hqmem : (q, j) ∈ (s.switch w).nonDesignatedPorts := Stp.mem_nonDesignatedPorts.mpr ⟨hq, hheld⟩
  obtain ⟨hbelieves, hwcost, hnear, hsome⟩ :=
    hw.settles hmin hwclear hunmoved.rootPort hunmoved.root hunmoved.cost hqmem hqroot hqcost hfar
  have hnotroot : (s.switch w).isRootSwitch = false := by
    have hdist : w ≠ root := by
      intro heq
      subst heq
      rw [SimpleGraph.dist_self] at hfar
      omega
    simp only [Stp.isRootSwitch, hbelieves, hw.id, decide_eq_false_iff_not]
    exact fun heq => hdist (net.id_injective heq.symm)
  refine ⟨hbelieves, hwcost, fun hp' hheld' => ?_, .inr hsome, hsent hnotroot⟩
  exact hnear (_, _) (Stp.mem_nonDesignatedPorts.mpr ⟨hp', hheld'⟩)

/-! ### Costs -/

/-- The cost a delivered config carries leaves room for one more link in an `int`. -/
def CostFits (s : NetState n) : NetEvent n → Prop
  | .deliver k => ∀ frame ∈ s.flight[k]?, frame.config.rootPathCost.toInt + 1 < 2 ^ 31
  | _ => True

instance (s : NetState n) : (e : NetEvent n) → Decidable (CostFits s e)
  | .deliver k => inferInstanceAs (Decidable (∀ frame ∈ s.flight[k]?, _ < _))
  | .hello _ | .lose _ | .repeated _ => inferInstanceAs (Decidable True)

/-- No record of another switch's config is at the end of the range. -/
def Roomy (stp : Stp) : Prop :=
  ∀ p ∈ stp.ports, stp.portIsDesignated p = false → p.designatedCost + 1 < 2 ^ 31

theorem Roomy.record {stp : Stp} {i : Nat} {p : StpPort} {config : StpConfig} (h : Roomy stp)
    (hcost : config.rootPathCost.toInt + 1 < 2 ^ 31) : Roomy (stp.record i p config) := by
  intro q hq hheld
  rcases List.mem_or_eq_of_mem_set hq with hold | hnew
  · exact h q hold hheld
  · rw [hnew]
    exact hcost

/-- `update_root` and `update_other_ports` leave the records of others' configs alone. -/
theorem Roomy.recomputed {stp : Stp} (h : Roomy stp) : Roomy stp.updateRoot.updateOtherPorts := by
  have hsame : stp.updateRoot.updateOtherPorts.switchId = stp.switchId := Stp.updateRoot_switchId stp
  intro q hq hheld
  rw [Stp.portIsDesignated_congr hsame] at hheld
  obtain ⟨p, hp, rfl⟩ := List.mem_map.mp hq
  rw [Stp.updateRoot_ports] at hp
  rw [Stp.portIsDesignated_congr (Stp.updateRoot_switchId stp)] at hheld ⊢
  split at hheld
  · rename_i hown
    have hown' : stp.portIsDesignated p = false := hheld
    rw [hown] at hown'
    cases hown'
  · rename_i hown
    rw [if_neg hown]
    exact h p hp hheld

theorem Roomy.handle {stp : Stp} {i : Nat} {config : StpConfig} (h : Roomy stp)
    (hcost : config.rootPathCost.toInt + 1 < 2 ^ 31) : Roomy (stp.handleConfigPacket i config).1 := by
  rcases stp.handleConfigPacket_cases i config with hsame | ⟨p, stp', -, -, heq, ⟨-, hrest⟩ | ⟨-, hrest⟩⟩
  · rwa [hsame]
  · rw [hrest, heq]
    exact (h.record hcost).recomputed
  · rw [hrest, heq]
    exact (h.record hcost).recomputed

theorem Roomy.step {e : NetEvent n} (h : ∀ v, Roomy (s.switch v)) (hcost : CostFits s e)
    (hstep : net.Step s e t) (v : Fin n) : Roomy (t.switch v) := by
  rcases step_switch hstep v with hsame | hhello | ⟨k, frame, rfl, hframe, -, hhandled⟩
  · exact hsame ▸ h v
  · rw [hhello]
    exact h v
  · rw [hhandled]
    exact (h v).handle (hcost frame hframe)

/-- With room in every record and in the config delivered, the sum fits. -/
theorem Roomy.sumFits {e : NetEvent n} (h : ∀ v, Roomy (s.switch v)) (hsound : Sound net s)
    (hcost : CostFits s e) : SumFits s e := by
  cases e with
  | deliver k =>
    intro frame hframe p hp _ i hi q hq
    obtain ⟨q', hq', hheld⟩ := (hsound.switch frame.dest).recorded_root hp
      (hsound.flight frame (List.mem_of_getElem? hframe)) hi
    obtain rfl : q' = q := Option.some.inj (hq'.symm.trans hq)
    have hport := (hsound.switch frame.dest).recorded_ports hp
      (hsound.flight frame (List.mem_of_getElem? hframe)) hq
    rw [hport.pathCost]
    exact (h frame.dest).record (hcost frame hframe) q' (List.mem_of_getElem? hq') hheld
  | _ => trivial

/-- **Agreement.** In every network of switches and every run, with costs that fit an
`int`: if the state reached is quiescent, and in its hello round every delivery leaves the
ports of its switch with nothing to see to, then every switch has the least id as its
root, and its distance from there as its cost. -/
theorem quiescent_agreement (hconn : net.graph.Connected) {es : List (NetEvent n)}
    (hrun : Run net.Step net.init es s) (hcost : Along net.Step CostFits net.init es)
    (hquiet : net.Quiescent s) (hclear : ∀ ks, Along net.Deliver Untroubled (net.helloRound s) ks) :
    net.Agreement s := by
  intro root hmin v
  have hown : ∀ v, ∀ p ∈ (net.init.switch v).ports, (net.init.switch v).portIsDesignated p = true := by
    intro v p hp
    obtain ⟨i, -, rfl⟩ := List.mem_map.mp hp
    simp [Stp.portIsDesignated, portInit, init, stpInit]
  have hinit : Sound net net.init ∧ (∀ v, Roomy (net.init.switch v)) ∧
      RootHolds net root (net.init.switch root) := by
    refine ⟨sound_init, fun v p hp hheld => ?_, rfl, rfl, hown root⟩
    rw [hown v p hp] at hheld
    cases hheld
  have hkeep : ∀ a e b, Sound net a ∧ (∀ v, Roomy (a.switch v)) ∧ RootHolds net root (a.switch root) →
      CostFits a e → net.Step a e b →
      Sound net b ∧ (∀ v, Roomy (b.switch v)) ∧ RootHolds net root (b.switch root) :=
    fun a e b h hfits hstep => ⟨h.1.step (Roomy.sumFits h.2.1 h.1 hfits) hstep,
      Roomy.step h.2.1 hfits hstep, h.2.2.step hmin h.1 hstep⟩
  obtain ⟨hsound, -, hroot⟩ := hrun.invariant hkeep hcost hinit
  have hsettled : Settled net s root v :=
    Distance.outwards (hroot.settled (hsound.switch root))
      (fun a b hadj _ hfar h => h.further hmin hsound hquiet hclear hadj hfar) v (hconn.preconnected _ v)
  exact ⟨hsettled.believes, hsettled.cost⟩

/-! ### Rounds that change nothing -/

/-- Configs each of which changes nothing and leads to none but them. -/
def Closed (net : Network n) (s : NetState n) (frames : List (Frame n)) : Prop :=
  ∀ f ∈ frames, (handle s f).1 = s.switch f.dest ∧ ∀ g ∈ net.route f.dest (handle s f).2, g ∈ frames

instance (s : NetState n) (frames : List (Frame n)) : Decidable (Closed net s frames) := by
  unfold Closed
  infer_instance

/-- The switches as in `s`, and only these configs in flight. -/
def Idle (s : NetState n) (frames : List (Frame n)) (t : NetState n) : Prop :=
  t.switch = s.switch ∧ ∀ f ∈ t.flight, f ∈ frames

theorem Closed.idle {frames : List (Frame n)} (h : Closed net s frames) {a b : NetState n} {k : Nat}
    (ha : Idle s frames a) (hstep : net.Deliver a k b) : Idle s frames b := by
  obtain ⟨hsame, hin⟩ := ha
  simp only [Deliver, step] at hstep
  split at hstep
  · cases hstep
  · rename_i frame hframe
    cases hstep
    have hhandle : handle a frame = handle s frame := by simp only [handle, hsame]
    obtain ⟨hquiet, hsent⟩ := h frame (hin frame (List.mem_of_getElem? hframe))
    refine ⟨?_, fun f hf => ?_⟩
    · show Function.update a.switch frame.dest (handle a frame).1 = s.switch
      rw [hhandle, hquiet, hsame, Function.update_eq_self]
    · rcases List.mem_append.mp hf with hf | hf
      · exact hin f (List.mem_of_mem_eraseIdx hf)
      · rw [hhandle] at hf
        exact hsent f hf

/-- A hello round of such configs changes nothing. -/
theorem Closed.quiescent {frames : List (Frame n)} (h : Closed net s frames)
    (hstart : ∀ f ∈ (net.helloRound s).flight, f ∈ frames) (hflight : s.flight = []) :
    net.Quiescent s := by
  have hkeep : ∀ a k b, Idle s frames a → True → net.Deliver a k b → Idle s frames b :=
    fun a k b ha _ hstep => h.idle ha hstep
  exact ⟨hflight, fun ks t hrun =>
    (hrun.invariant hkeep (Along.of_forall (fun _ _ => trivial) _ _) ⟨rfl, hstart⟩).1⟩

instance (p q : StpPort) : Decidable (NoWorse p q) := by
  unfold NoWorse
  infer_instance

/-- `Clear`, evaluated. -/
instance (stp : Stp) : Decidable stp.Clear :=
  decidable_of_iff
    ((∀ x ∈ stp.nonDesignatedPorts, ∀ y ∈ stp.nonDesignatedPorts, x.1.designatedRoot < y.1.designatedRoot ∨
        x.1.designatedRoot = y.1.designatedRoot ∧ x.1.designatedCost ≤ y.1.designatedCost + 1) ∧
      (¬Stp.Descending stp.nonDesignatedPorts → ∀ x ∈ stp.nonDesignatedPorts.getLast?,
        ∃ y ∈ stp.nonDesignatedPorts.dropLast, NoWorse y.1 x.1) ∧
      (2 ≤ stp.nonDesignatedPorts.length → Stp.Descending stp.nonDesignatedPorts →
        ∃ i ∈ stp.rootPort, ∃ p ∈ stp.ports[i]?, ∀ y ∈ stp.nonDesignatedPorts, NoWorse p y.1))
    ⟨fun h => ⟨h.1, h.2.1, fun hlen hdesc => by
      obtain ⟨i, hi, p, hp, hall⟩ := h.2.2 hlen hdesc
      exact ⟨i, p, hi, hp, hall⟩⟩,
    fun h => ⟨h.served, h.last, fun hlen hdesc => by
      obtain ⟨i, p, hi, hp, hall⟩ := h.kept hlen hdesc
      exact ⟨i, hi, p, hp, hall⟩⟩⟩

/-- A hello round of configs that change nothing troubles no switch they leave clear. -/
theorem Closed.untroubled {frames : List (Frame n)} (h : Closed net s frames)
    (hstart : ∀ f ∈ (net.helloRound s).flight, f ∈ frames)
    (hclear : ∀ f ∈ frames, ∀ p ∈ (s.switch f.dest).ports[f.port]?,
      ((s.switch f.dest).record f.port p f.config).Clear) (ks : List Nat) :
    Along net.Deliver Untroubled (net.helloRound s) ks := by
  have hkeep : ∀ a k b, Idle s frames a → net.Deliver a k b → Idle s frames b :=
    fun a k b ha hstep => h.idle ha hstep
  have hidle : Idle s frames (net.helloRound s) := ⟨rfl, hstart⟩
  refine Along.of_invariant hkeep ?_ hidle ks
  intro a k ha frame hframe p hp _
  rw [ha.1] at hp ⊢
  exact hclear frame (ha.2 frame (List.mem_of_getElem? hframe)) p hp

/-- What the switches that believe they are root send, and what follows directly. -/
def roundFrames (net : Network n) (s : NetState n) : List (Frame n) :=
  (net.helloRound s).flight ++ (net.helloRound s).flight.flatMap fun f => net.route f.dest (handle s f).2

/-! ### A ring of three -/

local instance threeSwitches : NeZero 3 := ⟨by decide⟩

/-- Each switch has its first port towards the one before it. -/
def ringPeer : Fin 3 → Nat → Option (Fin 3 × Nat)
  | 1, 0 => some (0, 1)
  | 0, 1 => some (1, 0)
  | 2, 0 => some (0, 0)
  | 0, 0 => some (2, 0)
  | 2, 1 => some (1, 1)
  | 1, 1 => some (2, 1)
  | _, _ => none

def ring : Network 3 where
  mac v := [0, 0, 0, 0, 1, BitVec.ofNat 8 (v + 1)]
  nports _ := 2
  peer := ringPeer
  nports_le := by decide
  peer_lt := by
    intro v i x h
    unfold ringPeer at h
    split at h <;> first | (cases h; decide) | contradiction
  peer_symm := by
    intro v i w j h
    unfold ringPeer at h
    split at h <;> cases h <;> rfl
  peer_ne := by
    intro v i w j h
    unfold ringPeer at h
    split at h <;> cases h <;> decide
  id_injective := by decide

theorem ring_connected : ring.graph.Connected := by
  have h01 : ring.graph.Adj 0 1 := ⟨1, 0, rfl⟩
  have h02 : ring.graph.Adj 0 2 := ⟨0, 0, rfl⟩
  refine SimpleGraph.connected_iff_exists_forall_reachable _ |>.mpr ⟨0, fun v => ?_⟩
  match v with
  | 0 => exact .refl 0
  | 1 => exact h01.reachable
  | 2 => exact h02.reachable

/-- The root's hello reaches the two others, and then what they send. -/
def ringRun : List (NetEvent 3) := [.hello 0, .deliver 0, .deliver 0, .deliver 0, .deliver 0]

/-- The state they lead to. -/
def ringAfter : NetState 3 := (runAll ring.step ring.init ringRun).get (by decide)

/-- The switches that are not the root hear it and each other. -/
theorem quiescent_agreement_ring :
    ∃ s, Run ring.Step ring.init ringRun s ∧ ring.Quiescent s ∧
      (∃ v, 2 ≤ (s.switch v).nonDesignatedPorts.length) ∧ ring.Agreement s := by
  have hrun : Run ring.Step ring.init ringRun ringAfter := Run.of_isSome (by decide)
  have hclosed : Closed ring ringAfter (ring.roundFrames ringAfter) := by decide +kernel
  have hstart : ∀ f ∈ (ring.helloRound ringAfter).flight, f ∈ ring.roundFrames ringAfter :=
    fun f hf => List.mem_append_left _ hf
  have hquiet : ring.Quiescent ringAfter := hclosed.quiescent hstart (by decide)
  exact ⟨ringAfter, hrun, hquiet, by decide +kernel, quiescent_agreement ring_connected hrun
    (Along.of_checkAll (by decide)) hquiet (hclosed.untroubled hstart (by decide +kernel))⟩

/-! ### The line -/

/-- The state the events lead to from the start. -/
def lineAfter (es : List (NetEvent 3)) (h : (runAll line.step line.init es).isSome = true) : NetState 3 :=
  (runAll line.step line.init es).get h

/-- The switch in the middle keeps its second port non-designated for the record of the
far end, which it never tells of the root. -/
theorem quiescent_disagreement :
    line.graph.Connected ∧
      ∃ s, Run line.Step line.init farFirst s ∧ line.Quiescent s ∧ ¬line.Agreement s := by
  let s := lineAfter farFirst (by decide)
  have hrun : Run line.Step line.init farFirst s := Run.of_isSome (by decide)
  have hclosed : Closed line s (line.roundFrames s) := by decide +kernel
  refine ⟨line_connected, s, hrun, hclosed.quiescent (fun f hf => List.mem_append_left _ hf) (by decide), ?_⟩
  intro hagree
  have hroot := (hagree 0 (by decide) 1).1
  have hother : (s.switch 1).designatedRoot = line.id 1 := by decide
  rw [hother] at hroot
  exact absurd hroot (by decide)

end Network
end NetStack.SpanningTree
