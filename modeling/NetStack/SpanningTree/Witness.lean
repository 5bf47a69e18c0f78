import NetStack.SpanningTree.Network
import NetStack.SpanningTree.RootPort

/-! Every belief has a witness.

Whatever a switch, a port record or a config in flight claims about a root and the cost of
a path to it, a switch with that id exists and a walk of that many links leads from it
(`Sound`). A step keeps this while the costs fit an `int` (`Sound.step`). -/
namespace NetStack.SpanningTree
namespace Network

variable {n : Nat} {net : Network n} {v : Fin n}

/-- Some switch has the id, and a walk of `cost` links leads from it to `v`. -/
def Claims (net : Network n) (rootId : U64) (cost : Int) (v : Fin n) : Prop :=
  ∃ u, net.id u = rootId ∧ ∃ walk : net.graph.Walk u v, (walk.length : Int) = cost

theorem Claims.self (v : Fin n) : Claims net (net.id v) 0 v := ⟨v, rfl, .nil, rfl⟩

/-- Over one more link. -/
theorem Claims.extend {rootId : U64} {cost : Int} {w : Fin n} (h : Claims net rootId cost w)
    (hadj : net.graph.Adj w v) : Claims net rootId (cost + 1) v := by
  obtain ⟨u, hid, walk, hlen⟩ := h
  refine ⟨u, hid, walk.concat hadj, ?_⟩
  rw [SimpleGraph.Walk.length_concat, ← hlen]
  rfl

theorem Claims.nonneg {rootId : U64} {cost : Int} (h : Claims net rootId cost v) : 0 ≤ cost := by
  obtain ⟨u, -, walk, hlen⟩ := h
  omega

/-- A claim about the switch's own id or better names no switch's id below the least, and
no cost below the distance. -/
theorem Claims.dist_le {root : Fin n} {cost : Int} (h : Claims net (net.id root) cost v) :
    (net.graph.dist root v : Int) ≤ cost := by
  obtain ⟨u, hid, walk, hlen⟩ := h
  obtain rfl := net.id_injective hid
  have := SimpleGraph.dist_le walk
  omega

/-- The other end of a port, as a config from there names it. -/
structure FromPeer (net : Network n) (v : Fin n) (i : Nat) (switchId : U64) (portId : U16)
    (w : Fin n) (j : Nat) : Prop where
  peer : net.peer v i = some (w, j)
  switchId : switchId = net.id w
  portId : portId = BitVec.ofInt 16 (portInit (net.id w) j).portId

/-- A port record: the port serves its link itself and has what its switch has, or holds
what the other end of the link sent. -/
structure PortSound (net : Network n) (v : Fin n) (stp : Stp) (i : Nat) (p : StpPort) : Prop where
  portId : p.portId = (portInit (net.id v) i).portId
  pathCost : p.pathCost = 1
  own : stp.portIsDesignated p = true →
    p.designatedRoot = stp.designatedRoot ∧ p.designatedCost = stp.rootPathCost
  held : stp.portIsDesignated p = false →
    p.designatedCost < 2 ^ 31 ∧ ∃ portId w j, FromPeer net v i p.designatedSwitch portId w j ∧
      p.designatedPort = (portId.toNat : Int) ∧ Claims net p.designatedRoot p.designatedCost w

/-- A switch. -/
structure SwitchSound (net : Network n) (v : Fin n) (stp : Stp) : Prop where
  id : stp.switchId = net.id v
  length : stp.ports.length = net.nports v
  cost : stp.rootPathCost < 2 ^ 31
  claim : Claims net stp.designatedRoot stp.rootPathCost v
  ports : ∀ {i p}, stp.ports[i]? = some p → PortSound net v stp i p
  root : ∀ {i}, stp.rootPort = some i → ∃ p, stp.ports[i]? = some p ∧ stp.portIsDesignated p = false

/-- A config on its way to port `i` of switch `v`. -/
def ConfigSound (net : Network n) (v : Fin n) (i : Nat) (config : StpConfig) : Prop :=
  ∃ w j, FromPeer net v i config.switchId config.portId w j ∧
    Claims net config.rootId config.rootPathCost.toInt w

/-- All switches, and all configs in flight. -/
structure Sound (net : Network n) (s : NetState n) : Prop where
  switch : ∀ v, SwitchSound net v (s.switch v)
  flight : ∀ frame ∈ s.flight, ConfigSound net frame.dest frame.port frame.config

end Network

namespace Stp

/-- Whether a port is designated depends on the switch's id only. -/
theorem portIsDesignated_congr {stp stp' : Stp} (h : stp'.switchId = stp.switchId) (p : StpPort) :
    stp'.portIsDesignated p = stp.portIsDesignated p := by
  simp [portIsDesignated, h]

/-- Another switch's config makes the port it is recorded at non-designated. -/
theorem updatePortConfig_held {stp : Stp} {p : StpPort} {config : StpConfig}
    (h : config.switchId ≠ stp.switchId) : stp.portIsDesignated (updatePortConfig p config) = false := by
  simp [portIsDesignated, updatePortConfig, h]

theorem mem_nonDesignatedPorts {stp : Stp} {x : StpPort × Nat} :
    x ∈ stp.nonDesignatedPorts ↔ stp.ports[x.2]? = some x.1 ∧ stp.portIsDesignated x.1 = false := by
  simp [nonDesignatedPorts, List.mem_zipIdx_iff_getElem?]

/-- The port chosen is a non-designated one, or the root port there was. -/
theorem chooseRootPort_cases {stp : Stp} {i : Nat} (h : stp.chooseRootPort = some i) :
    (∃ p, stp.ports[i]? = some p ∧ stp.portIsDesignated p = false) ∨ stp.rootPort = some i := by
  unfold chooseRootPort at h
  split at h
  · rename_i x hx
    left
    obtain rfl := Option.some.inj h
    exact ⟨x.1, mem_nonDesignatedPorts.mp (hx ▸ List.mem_singleton_self x)⟩
  · split at h
    · rename_i x hx
      left
      obtain rfl := Option.some.inj h
      exact ⟨x.1, mem_nonDesignatedPorts.mp (List.dropLast_subset _ (judgePorts_least hx).1)⟩
    · exact .inr h

/-- The switch once it has recorded a config at port `i`. -/
def record (stp : Stp) (i : Nat) (p : StpPort) (config : StpConfig) : Stp :=
  { stp with ports := stp.ports.set i (updatePortConfig p config) }

/-- The sum `update_root` takes as the switch's cost fits an `int`. -/
def SumFits (stp : Stp) : Prop :=
  ∀ i ∈ stp.chooseRootPort, ∀ p ∈ stp.ports[i]?, p.designatedCost + p.pathCost < 2 ^ 31

/-- A config is ignored, or recorded and everything recomputed. -/
theorem handleConfigPacket_cases (stp : Stp) (i : Nat) (config : StpConfig) :
    stp.handleConfigPacket i config = (stp, []) ∨
      ∃ p stp', stp.ports[i]? = some p ∧ recvHasHigherPirority p config = true ∧
        stp' = (stp.record i p config).updateRoot.updateOtherPorts ∧
        (stp'.isRootSwitch = true ∧ stp.handleConfigPacket i config = (stp', []) ∨
          stp'.isRootSwitch = false ∧ stp.handleConfigPacket i config =
            ({ stp' with helloTimer := false }, ({ stp' with helloTimer := false } : Stp).sendConfig)) := by
  unfold handleConfigPacket
  split
  · exact .inl rfl
  · rename_i p hp
    by_cases hrecv : recvHasHigherPirority p config = true
    · right
      refine ⟨p, _, hp, hrecv, rfl, ?_⟩
      simp only [hrecv, if_true]
      split
      · exact .inl ⟨‹_›, rfl⟩
      · exact .inr ⟨Bool.eq_false_of_not_eq_true ‹_›, rfl⟩
    · left
      simp [hrecv]

/-- What a switch that speaks sends from a port. -/
def offer (stp : Stp) (p : StpPort) : StpConfig where
  rootId := stp.designatedRoot
  rootPathCost := BitVec.ofInt 32 stp.rootPathCost
  switchId := stp.switchId
  portId := BitVec.ofInt 16 p.portId

/-- A switch sends what it has, on its designated ports. -/
theorem mem_sendConfig {stp : Stp} {i : Nat} {config : StpConfig} (h : (i, config) ∈ stp.sendConfig) :
    ∃ p, stp.ports[i]? = some p ∧ stp.portIsDesignated p = true ∧ config = stp.offer p := by
  obtain ⟨⟨p, k⟩, hmem, hsend⟩ := List.mem_filterMap.mp h
  simp only at hsend
  split at hsend
  · rename_i hdes
    obtain ⟨c, hc, heq⟩ := Option.map_eq_some_iff.mp hsend
    obtain ⟨rfl, rfl⟩ := Prod.mk.inj heq
    refine ⟨p, List.mem_zipIdx_iff_getElem?.mp hmem, hdes, ?_⟩
    unfold portSendConfig at hc
    split at hc <;> cases hc
    rfl
  · cases hsend

end Stp

namespace Network

variable {n : Nat} {net : Network n} {v : Fin n} {stp : Stp}

/-- If the config delivered is taken, the cost the switch comes to fits an `int`. -/
def SumFits (s : NetState n) : NetEvent n → Prop
  | .deliver k => ∀ frame ∈ s.flight[k]?, ∀ p ∈ (s.switch frame.dest).ports[frame.port]?,
      recvHasHigherPirority p frame.config = true →
        ((s.switch frame.dest).record frame.port p frame.config).SumFits
  | _ => True

theorem toInt_ofInt_cost {cost : Int} (h0 : 0 ≤ cost) (h1 : cost < 2 ^ 31) :
    (BitVec.ofInt 32 cost).toInt = cost := by
  rw [BitVec.toInt_ofInt]
  apply Int.bmod_eq_of_le_mul_two <;> omega

/-- What a sound switch sends is sound where it arrives. -/
theorem SwitchSound.send (h : SwitchSound net v stp) :
    ∀ frame ∈ net.route v stp.sendConfig, ConfigSound net frame.dest frame.port frame.config := by
  intro frame hframe
  obtain ⟨⟨i, config⟩, hsent, hroute⟩ := List.mem_filterMap.mp hframe
  obtain ⟨⟨w, j⟩, hpeer, rfl⟩ := Option.map_eq_some_iff.mp hroute
  obtain ⟨p, hp, -, rfl⟩ := Stp.mem_sendConfig hsent
  refine ⟨v, i, ⟨net.peer_symm hpeer, h.id, ?_⟩, ?_⟩
  · show BitVec.ofInt 16 p.portId = _
    rw [(h.ports hp).portId]
  · show Claims net stp.designatedRoot (BitVec.ofInt 32 stp.rootPathCost).toInt v
    rw [toInt_ofInt_cost h.claim.nonneg h.cost]
    exact h.claim

/-- A port that is left alone, by a switch that may have changed otherwise. -/
theorem PortSound.of_held {stp' : Stp} {i : Nat} {p : StpPort} (h : PortSound net v stp i p)
    (hid : stp'.switchId = stp.switchId) (hheld : stp.portIsDesignated p = false) :
    PortSound net v stp' i p := by
  refine ⟨h.portId, h.pathCost, fun hown => ?_, fun _ => h.held hheld⟩
  rw [Stp.portIsDesignated_congr hid, hheld] at hown
  contradiction

/-- A sound config that is recorded. -/
theorem SwitchSound.recorded {i : Nat} {p : StpPort} {config : StpConfig} (h : SwitchSound net v stp)
    (hp : stp.ports[i]? = some p) (hconfig : ConfigSound net v i config) :
    PortSound net v (stp.record i p config) i (updatePortConfig p config) := by
  obtain ⟨w, j, hfrom, hclaim⟩ := hconfig
  have hne : config.switchId ≠ stp.switchId := by
    rw [hfrom.switchId, h.id]
    exact fun heq => net.peer_ne hfrom.peer (net.id_injective heq.symm)
  have hheld : (stp.record i p config).portIsDesignated (updatePortConfig p config) = false :=
    Stp.updatePortConfig_held hne
  refine ⟨(h.ports hp).portId, (h.ports hp).pathCost, fun hown => ?_, fun _ => ?_⟩
  · rw [hheld] at hown
    contradiction
  · exact ⟨BitVec.toInt_lt, config.portId, w, j, hfrom, rfl, hclaim⟩

/-- Every port of the switch, once a sound config is recorded at one. -/
theorem SwitchSound.recorded_ports {i : Nat} {p : StpPort} {config : StpConfig}
    (h : SwitchSound net v stp) (hp : stp.ports[i]? = some p) (hconfig : ConfigSound net v i config)
    {k : Nat} {q : StpPort}
    (hq : (stp.record i p config).ports[k]? = some q) : PortSound net v (stp.record i p config) k q := by
  by_cases hk : i = k
  · subst hk
    obtain rfl : updatePortConfig p config = q := by
      have hlt : i < stp.ports.length := (List.getElem?_eq_some_iff.mp hp).1
      have : (stp.record i p config).ports[i]? = some (updatePortConfig p config) := by
        simp [Stp.record, hlt]
      exact Option.some.inj (this.symm.trans hq)
    exact h.recorded hp hconfig
  · have hq : stp.ports[k]? = some q := by
      rw [← hq]
      simp [Stp.record, hk]
    have hsound := h.ports hq
    exact ⟨hsound.portId, hsound.pathCost, hsound.own, hsound.held⟩

/-- A root port stays non-designated when a sound config is recorded. -/
theorem SwitchSound.recorded_root {i k : Nat} {p : StpPort} {config : StpConfig}
    (h : SwitchSound net v stp) (hp : stp.ports[i]? = some p) (hconfig : ConfigSound net v i config)
    (hk : (stp.record i p config).chooseRootPort = some k) :
    ∃ q, (stp.record i p config).ports[k]? = some q ∧ stp.portIsDesignated q = false := by
  rcases Stp.chooseRootPort_cases hk with hnew | hold
  · exact hnew
  · obtain ⟨q, hq, hheld⟩ := h.root hold
    by_cases hik : i = k
    · subst hik
      obtain ⟨w, j, hfrom, -⟩ := hconfig
      have hlt : i < stp.ports.length := (List.getElem?_eq_some_iff.mp hp).1
      refine ⟨updatePortConfig p config, by simp [Stp.record, hlt], Stp.updatePortConfig_held ?_⟩
      rw [hfrom.switchId, h.id]
      exact fun heq => net.peer_ne hfrom.peer (net.id_injective heq.symm)
    · exact ⟨q, by simpa [Stp.record, hik] using hq, hheld⟩

/-- What `update_root` makes of sound ports: a sound belief. -/
theorem updateRoot_claim (hid : stp.switchId = net.id v)
    (hports : ∀ {i p}, stp.ports[i]? = some p → PortSound net v stp i p)
    (hroot : ∀ {i}, stp.chooseRootPort = some i → ∃ p, stp.ports[i]? = some p ∧ stp.portIsDesignated p = false)
    (hfits : stp.SumFits) :
    stp.updateRoot.rootPathCost < 2 ^ 31 ∧
      Claims net stp.updateRoot.designatedRoot stp.updateRoot.rootPathCost v := by
  unfold Stp.updateRoot
  dsimp only
  split
  · rw [hid]
    exact ⟨show (0 : Int) < 2 ^ 31 by decide, .self v⟩
  · rename_i q hq
    obtain ⟨k, hk, hq⟩ := Option.bind_eq_some_iff.mp hq
    obtain ⟨q', hq', hheld⟩ := hroot hk
    obtain rfl : q' = q := Option.some.inj (hq'.symm.trans hq)
    obtain ⟨-, portId, w, j, hfrom, -, hclaim⟩ := (hports hq').held hheld
    have hcost : q'.designatedCost + 1 < 2 ^ 31 := (hports hq').pathCost ▸ hfits k hk q' hq'
    have hwrap : (q'.designatedCost + q'.pathCost).bmod (2 ^ 32) = q'.designatedCost + 1 := by
      have := hclaim.nonneg
      rw [(hports hq').pathCost]
      apply Int.bmod_eq_of_le_mul_two <;> omega
    rw [hwrap]
    exact ⟨hcost, hclaim.extend ⟨j, k, net.peer_symm hfrom.peer⟩⟩

/-- `update_other_ports` makes the designated ports agree with the switch. -/
theorem updateOtherPorts_ports {i : Nat} {q : StpPort}
    (h : ∀ {i p}, stp.ports[i]? = some p → stp.portIsDesignated p = false → PortSound net v stp i p)
    (hfix : ∀ {i p}, stp.ports[i]? = some p →
      p.portId = (portInit (net.id v) i).portId ∧ p.pathCost = 1)
    (hq : stp.updateOtherPorts.ports[i]? = some q) : PortSound net v stp.updateOtherPorts i q := by
  have hsame : stp.updateOtherPorts.switchId = stp.switchId := rfl
  simp only [Stp.updateOtherPorts, List.getElem?_map] at hq
  obtain ⟨p, hp, rfl⟩ := Option.map_eq_some_iff.mp hq
  by_cases hown : stp.portIsDesignated p = true
  · simp only [hown, if_true]
    refine ⟨(hfix hp).1, (hfix hp).2, fun _ => ⟨rfl, rfl⟩, fun hheld => ?_⟩
    have : stp.portIsDesignated p = false := hheld
    rw [hown] at this
    contradiction
  · simp only [hown]
    have hheld := Bool.eq_false_of_not_eq_true hown
    exact (h hp hheld).of_held hsame hheld

/-- A sound switch that handles a sound config is sound, and so is what it sends. -/
theorem SwitchSound.handle {i : Nat} {config : StpConfig} (h : SwitchSound net v stp)
    (hconfig : ConfigSound net v i config)
    (hfits : ∀ p ∈ stp.ports[i]?, recvHasHigherPirority p config = true → (stp.record i p config).SumFits) :
    SwitchSound net v (stp.handleConfigPacket i config).1 ∧
      ∀ frame ∈ net.route v (stp.handleConfigPacket i config).2,
        ConfigSound net frame.dest frame.port frame.config := by
  rcases stp.handleConfigPacket_cases i config with hsame | ⟨p, stp', hp, htaken, heq, hrest⟩
  · rw [hsame]
    exact ⟨h, by simp [route]⟩
  · have hid : (stp.record i p config).updateRoot.switchId = stp.switchId := Stp.updateRoot_switchId _
    have hports : ∀ {k q}, (stp.record i p config).ports[k]? = some q →
        PortSound net v (stp.record i p config) k q := h.recorded_ports hp hconfig
    have hrecord : (stp.record i p config).switchId = net.id v := h.id
    obtain ⟨hbound, hclaim⟩ := updateRoot_claim hrecord hports
      (h.recorded_root hp hconfig) (hfits p hp htaken)
    have hsound : SwitchSound net v stp' := by
      rw [heq]
      refine ⟨hid.trans h.id, ?_, hbound, hclaim, fun hq => ?_, fun {k} hk => ?_⟩
      · simp [Stp.updateOtherPorts, Stp.record, h.length]
      · refine updateOtherPorts_ports (fun hq hheld => ?_) (fun hq => ?_) hq
        · rw [Stp.updateRoot_ports] at hq
          have hid' : (stp.record i p config).updateRoot.switchId = (stp.record i p config).switchId := hid
          rw [Stp.portIsDesignated_congr hid'] at hheld
          exact (hports hq).of_held hid' hheld
        · rw [Stp.updateRoot_ports] at hq
          exact ⟨(hports hq).portId, (hports hq).pathCost⟩
      · have hk : (stp.record i p config).chooseRootPort = some k := by
          rw [← Stp.updateRoot_rootPort]
          exact hk
        obtain ⟨q, hq, hheld⟩ := h.recorded_root hp hconfig hk
        have hheld' : (stp.record i p config).updateRoot.portIsDesignated q = false := by
          rw [Stp.portIsDesignated_congr hid, hheld]
        exact ⟨q, by simp [Stp.updateOtherPorts, hq, hheld'], hheld'⟩
    rcases hrest with ⟨-, hrest⟩ | ⟨-, hrest⟩
    · rw [hrest]
      exact ⟨hsound, by simp [route]⟩
    · rw [hrest]
      have hstopped : SwitchSound net v { stp' with helloTimer := false } := by
        refine ⟨hsound.id, hsound.length, hsound.cost, hsound.claim, fun hq => ?_, hsound.root⟩
        have hport := hsound.ports hq
        exact ⟨hport.portId, hport.pathCost, hport.own, hport.held⟩
      exact ⟨hstopped, hstopped.send⟩

theorem sound_init : Sound net net.init := by
  refine ⟨fun v => ?_, by simp [init]⟩
  have hports : ∀ {i p}, (net.init.switch v).ports[i]? = some p → p = portInit (net.id v) i := by
    intro i p hp
    simp only [init, stpInit, List.getElem?_map] at hp
    obtain ⟨k, hk, rfl⟩ := Option.map_eq_some_iff.mp hp
    obtain ⟨hlt, hk⟩ := List.getElem?_eq_some_iff.mp hk
    rw [List.getElem_range] at hk
    rw [hk]
    rfl
  refine ⟨rfl, by simp [init, stpInit], by show (0 : Int) < 2 ^ 31; decide, .self v, fun hp => ?_, ?_⟩
  · obtain rfl := hports hp
    refine ⟨rfl, rfl, fun _ => ⟨rfl, rfl⟩, fun hheld => ?_⟩
    simp [Stp.portIsDesignated, portInit, init, stpInit, id] at hheld
  · intro i hi
    cases hi

/-- A step keeps the account of every switch and every config in flight, while the costs
fit an `int`. -/
theorem Sound.step {s t : NetState n} {e : NetEvent n} (h : Sound net s) (hfits : SumFits s e)
    (hstep : net.Step s e t) : Sound net t := by
  have hupdate : ∀ v stp, SwitchSound net v stp → ∀ u, SwitchSound net u (Function.update s.switch v stp u) := by
    intro v stp hstp u
    by_cases huv : u = v
    · subst huv
      rw [Function.update_self]
      exact hstp
    · rw [Function.update_of_ne huv]
      exact h.switch u
  unfold Step Network.step at hstep
  cases e with
  | hello v =>
    simp only at hstep
    split at hstep <;> cases hstep
    have hv := h.switch v
    have hstarted : SwitchSound net v ((s.switch v).handleHelloTimeout).1 := by
      refine ⟨hv.id, hv.length, hv.cost, hv.claim, fun hq => ?_, hv.root⟩
      have hport := hv.ports hq
      exact ⟨hport.portId, hport.pathCost, hport.own, hport.held⟩
    refine ⟨hupdate v _ hstarted, fun frame hframe => ?_⟩
    rcases List.mem_append.mp hframe with hframe | hframe
    · exact h.flight frame hframe
    · exact hv.send frame hframe
  | deliver k =>
    simp only at hstep
    split at hstep
    · cases hstep
    · rename_i frame hframe
      cases hstep
      have hmem := List.mem_of_getElem? hframe
      obtain ⟨hstp, hsent⟩ := (h.switch frame.dest).handle (h.flight frame hmem) (hfits frame hframe)
      refine ⟨hupdate _ _ hstp, fun f hf => ?_⟩
      rcases List.mem_append.mp hf with hf | hf
      · exact h.flight f (List.mem_of_mem_eraseIdx hf)
      · exact hsent f hf
  | lose k =>
    simp only at hstep
    split at hstep <;> cases hstep
    exact ⟨h.switch, fun f hf => h.flight f (List.mem_of_mem_eraseIdx hf)⟩
  | repeated k =>
    simp only at hstep
    split at hstep <;> cases hstep
    rename_i frame hframe
    refine ⟨h.switch, fun f hf => ?_⟩
    rcases List.mem_append.mp hf with hf | hf
    · exact h.flight f hf
    · obtain rfl := List.mem_singleton.mp hf
      exact h.flight f (List.mem_of_getElem? hframe)

instance (stp : Stp) : Decidable stp.SumFits := by
  unfold Stp.SumFits
  infer_instance

instance (s : NetState n) (e : NetEvent n) : Decidable (SumFits s e) := by
  unfold SumFits
  split <;> infer_instance

/-- **Beliefs are witnessed.** In every run in which the costs fit an `int`, whatever a
switch, a port record or a config in flight claims of a root at a cost, for the switch it
names, there is a switch with that id and a walk of so many links from it. So nobody
believes in a root with an id below all real ones. -/
theorem beliefs_witnessed (net : Network n) {es : List (NetEvent n)} {s : NetState n}
    (hrun : Run net.Step net.init es s) (hfits : Along net.Step SumFits net.init es) :
    (∀ v, Claims net (s.switch v).designatedRoot (s.switch v).rootPathCost v) ∧
      (∀ v, ∀ p ∈ (s.switch v).ports, ∃ w, net.id w = p.designatedSwitch ∧
        Claims net p.designatedRoot p.designatedCost w) ∧
      (∀ frame ∈ s.flight, ∃ w, net.id w = frame.config.switchId ∧
        Claims net frame.config.rootId frame.config.rootPathCost.toNat w) ∧
      ∀ least, (∀ w, net.id least ≤ net.id w) → ∀ v, net.id least ≤ (s.switch v).designatedRoot := by
  have h : Sound net s := hrun.invariant (fun _ _ _ hs hC hstep => hs.step hC hstep) hfits sound_init
  refine ⟨fun v => (h.switch v).claim, fun v p hp => ?_, fun frame hframe => ?_, fun least hmin v => ?_⟩
  · obtain ⟨i, hi⟩ := List.getElem?_of_mem hp
    have hport := (h.switch v).ports hi
    cases hown : (s.switch v).portIsDesignated p with
    | true =>
      obtain ⟨hroot, hcost⟩ := hport.own hown
      have hswitch : p.designatedSwitch = (s.switch v).switchId := (of_decide_eq_true hown).1
      refine ⟨v, (hswitch.trans (h.switch v).id).symm, ?_⟩
      rw [hroot, hcost]
      exact (h.switch v).claim
    | false =>
      obtain ⟨-, portId, w, j, hfrom, -, hclaim⟩ := hport.held hown
      exact ⟨w, hfrom.switchId.symm, hclaim⟩
  · obtain ⟨w, j, hfrom, hclaim⟩ := h.flight frame hframe
    have hnat : (frame.config.rootPathCost.toNat : Int) = frame.config.rootPathCost.toInt := by
      have := hclaim.nonneg
      rw [BitVec.toInt_eq_toNat_cond] at this ⊢
      split <;> omega
    exact ⟨w, hfrom.switchId.symm, hnat ▸ hclaim⟩
  · obtain ⟨w, hw, -⟩ := (h.switch v).claim
    exact hw ▸ hmin w

/-- When the root's hello has reached both others, all beliefs are witnessed. -/
theorem beliefs_witnessed_line : ∃ s, Run line.Step line.init rootFirst s ∧
    ∀ v, Claims line (s.switch v).designatedRoot (s.switch v).rootPathCost v := by
  have hsome : (runAll line.step line.init rootFirst).isSome = true := by decide
  have hrun := Run.of_isSome hsome
  exact ⟨_, hrun, (beliefs_witnessed line hrun (Along.of_checkAll (by decide))).1⟩

end Network
end NetStack.SpanningTree
