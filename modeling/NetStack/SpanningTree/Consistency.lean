import NetStack.SpanningTree.Selection
import NetStack.SpanningTree.Witness

/-! One switch, whatever it is sent (`stp.c` of `EXP06-STP/code/06-stp`).

A switch believes what its root port has heard, and its designated ports offer what it
believes (`Consistent`). Configs of other switches keep it so (`receiveAll_consistent`): the
port one is recorded at is no longer designated when the root port is chosen, and neither is
the root port that may be left from before. -/
namespace NetStack.SpanningTree
namespace Stp

/-- `stp_handle_config_packet` of one config after the other, each on its port. -/
def receiveAll (stp : Stp) (packets : List (Nat × StpConfig)) : Stp :=
  packets.foldl (fun stp x => (stp.handleConfigPacket x.1 x.2).1) stp

/-- Another switch's config, of a cost that leaves room for one more link in an `int`. -/
def Foreign (switchId : U64) (config : StpConfig) : Prop :=
  config.switchId ≠ switchId ∧ config.rootPathCost.toNat < 2 ^ 31 - 1

instance (switchId : U64) (config : StpConfig) : Decidable (Foreign switchId config) :=
  inferInstanceAs (Decidable (_ ∧ _))

/-- The switch follows its root port, and its designated ports follow the switch. -/
structure Consistent (stp : Stp) : Prop where
  unset : stp.rootPort = none → stp.designatedRoot = stp.switchId ∧ stp.rootPathCost = 0
  rooted : ∀ i, stp.rootPort = some i → ∃ p, stp.ports[i]? = some p ∧ stp.portIsDesignated p = false ∧
    stp.designatedRoot = p.designatedRoot ∧ stp.rootPathCost = p.designatedCost + p.pathCost
  designated : ∀ p ∈ stp.ports, stp.portIsDesignated p = true →
    p.designatedRoot = stp.designatedRoot ∧ p.designatedCost = stp.rootPathCost

/-- What `update_root` starts from: the root port has heard from another switch, and what
ports have heard leaves room in an `int`. -/
structure Heard (stp : Stp) : Prop where
  root : ∀ i, stp.rootPort = some i → ∃ p, stp.ports[i]? = some p ∧ stp.portIsDesignated p = false
  pathCost : ∀ p ∈ stp.ports, p.pathCost = 1
  cost : ∀ p ∈ stp.ports, stp.portIsDesignated p = false → 0 ≤ p.designatedCost ∧ p.designatedCost < 2 ^ 31 - 1

variable {stp : Stp} {i : Nat} {p : StpPort} {config : StpConfig}

theorem Foreign.toInt_cost (h : Foreign stp.switchId config) :
    0 ≤ config.rootPathCost.toInt ∧ config.rootPathCost.toInt < 2 ^ 31 - 1 := by
  have hcost := h.2
  rw [BitVec.toInt_eq_toNat_of_lt (by omega)]
  omega

/-- The config is recorded at a port that is not designated from then on. -/
theorem Heard.record (h : Heard stp) (hp : stp.ports[i]? = some p) (hconfig : Foreign stp.switchId config) :
    Heard (stp.record i p config) := by
  have hlt : i < stp.ports.length := (List.getElem?_eq_some_iff.mp hp).1
  have hheld : (stp.record i p config).portIsDesignated (updatePortConfig p config) = false :=
    updatePortConfig_held hconfig.1
  refine ⟨fun k hk => ?_, fun q hq => ?_, fun q hq hother => ?_⟩
  · obtain ⟨q, hq, hother⟩ := h.root k hk
    by_cases hik : i = k
    · subst hik
      exact ⟨_, by simp [Stp.record, hlt], hheld⟩
    · exact ⟨q, by simpa [Stp.record, hik] using hq, hother⟩
  · rcases List.mem_or_eq_of_mem_set hq with hold | rfl
    · exact h.pathCost q hold
    · exact h.pathCost p (List.mem_of_getElem? hp)
  · rcases List.mem_or_eq_of_mem_set hq with hold | rfl
    · exact h.cost q hold hother
    · exact hconfig.toInt_cost

/-- The root port is chosen among the ports that have heard something. -/
theorem Heard.updateRoot (h : Heard stp) : Heard stp.updateRoot := by
  have hsame := updateRoot_switchId stp
  refine ⟨fun k hk => ?_, fun q hq => ?_, fun q hq hother => ?_⟩
  · rw [updateRoot_rootPort] at hk
    simp only [updateRoot_ports, portIsDesignated_congr hsame]
    rcases chooseRootPort_cases hk with hnew | hold
    · exact hnew
    · exact h.root k hold
  · rw [updateRoot_ports] at hq
    exact h.pathCost q hq
  · rw [updateRoot_ports] at hq
    rw [portIsDesignated_congr hsame] at hother
    exact h.cost q hq hother

/-- `update_other_ports` leaves the ports that are not designated alone, -/
theorem updateOtherPorts_held (hp : stp.ports[i]? = some p) (hother : stp.portIsDesignated p = false) :
    stp.updateOtherPorts.ports[i]? = some p := by
  simp [updateOtherPorts, hp, hother]

/-- and gives the others what the switch has. -/
theorem mem_updateOtherPorts (h : p ∈ stp.updateOtherPorts.ports) :
    p ∈ stp.ports ∧ stp.portIsDesignated p = false ∨
      stp.portIsDesignated p = true ∧ p.designatedRoot = stp.designatedRoot ∧
        p.designatedCost = stp.rootPathCost ∧ ∃ q ∈ stp.ports, p.pathCost = q.pathCost := by
  obtain ⟨q, hq, rfl⟩ := List.mem_map.mp h
  cases hown : stp.portIsDesignated q with
  | false =>
    left
    rw [if_neg Bool.false_ne_true]
    exact ⟨hq, hown⟩
  | true =>
    right
    rw [if_pos rfl]
    exact ⟨hown, rfl, rfl, q, hq, rfl⟩

theorem Heard.updateOtherPorts (h : Heard stp) : Heard stp.updateOtherPorts := by
  refine ⟨fun k hk => ?_, fun q hq => ?_, fun q hq hother => ?_⟩
  · obtain ⟨q, hq, hother⟩ := h.root k hk
    exact ⟨q, updateOtherPorts_held hq hother, hother⟩
  · rcases mem_updateOtherPorts hq with ⟨hq, -⟩ | ⟨-, -, -, r, hr, hsame⟩
    · exact h.pathCost q hq
    · exact hsame.trans (h.pathCost r hr)
  · rcases mem_updateOtherPorts hq with ⟨hq, -⟩ | ⟨hown, -⟩
    · exact h.cost q hq hother
    · exact nomatch hother.symm.trans hown

/-- The sum that becomes the switch's cost does not wrap around. -/
theorem Heard.sum (h : Heard stp) (hp : stp.ports[i]? = some p) (hother : stp.portIsDesignated p = false) :
    (p.designatedCost + p.pathCost).bmod (2 ^ 32) = p.designatedCost + p.pathCost := by
  have hpath := h.pathCost p (List.mem_of_getElem? hp)
  obtain ⟨hlow, hhigh⟩ := h.cost p (List.mem_of_getElem? hp) hother
  apply Int.bmod_eq_of_le_mul_two <;> omega

/-- From there the two updates make the switch consistent. -/
theorem Heard.consistent (h : Heard stp) : Consistent stp.updateRoot.updateOtherPorts := by
  obtain ⟨hunset, hrooted⟩ := updateRoot_derived stp
  refine ⟨hunset, fun k hk => ?_, fun q hq hown => ?_⟩
  · obtain ⟨q, hq, hother⟩ := h.updateRoot.root k hk
    obtain ⟨hroot, hcost⟩ := hrooted k q hk hq
    exact ⟨q, updateOtherPorts_held hq hother, hother, hroot, hcost.trans (h.updateRoot.sum hq hother)⟩
  · rcases mem_updateOtherPorts hq with ⟨-, hother⟩ | ⟨-, hroot, hcost, -⟩
    · exact nomatch hown.symm.trans hother
    · exact ⟨hroot, hcost⟩

/-! ### Runs -/

/-- What a run keeps. -/
structure Steady (switchId : U64) (stp : Stp) : Prop where
  id : stp.switchId = switchId
  heard : Heard stp
  consistent : Consistent stp

theorem Consistent.timer (h : Consistent stp) (running : Bool) : Consistent { stp with helloTimer := running } :=
  ⟨h.unset, h.rooted, h.designated⟩

theorem Heard.timer (h : Heard stp) (running : Bool) : Heard { stp with helloTimer := running } :=
  ⟨h.root, h.pathCost, h.cost⟩

theorem Steady.handleConfigPacket {switchId : U64} (h : Steady switchId stp) (i : Nat)
    (hconfig : Foreign switchId config) : Steady switchId (stp.handleConfigPacket i config).1 := by
  obtain rfl := h.id
  rcases stp.handleConfigPacket_cases i config with hsame | ⟨p, stp', hp, -, heq, hrest⟩
  · rw [hsame]
    exact h
  · have hrecord := h.heard.record hp hconfig
    have hid : stp'.switchId = stp.switchId := heq ▸ updateRoot_switchId (stp.record i p config)
    have hheard : Heard stp' := heq ▸ hrecord.updateRoot.updateOtherPorts
    have hconsistent : Consistent stp' := heq ▸ hrecord.consistent
    rcases hrest with ⟨-, hrest⟩ | ⟨-, hrest⟩
    · rw [hrest]
      exact ⟨hid, hheard, hconsistent⟩
    · rw [hrest]
      exact ⟨hid, hheard.timer false, hconsistent.timer false⟩

/-- A root port is replaced, but not given up. -/
theorem rootPort_handleConfigPacket (stp : Stp) (i : Nat) (config : StpConfig) (h : stp.rootPort ≠ none) :
    (stp.handleConfigPacket i config).1.rootPort ≠ none := by
  rcases stp.handleConfigPacket_cases i config with hsame | ⟨p, stp', -, -, heq, hrest⟩
  · rwa [hsame]
  · have hroot : stp'.rootPort ≠ none := by
      rw [heq]
      show (stp.record i p config).updateRoot.rootPort ≠ none
      rw [updateRoot_rootPort, chooseRootPort]
      split
      · exact Option.some_ne_none _
      · split
        · exact Option.some_ne_none _
        · exact h
    rcases hrest with ⟨-, hrest⟩ | ⟨-, hrest⟩
    · rwa [hrest]
    · rwa [hrest]

theorem rootPort_receiveAll (stp : Stp) (packets : List (Nat × StpConfig)) (h : stp.rootPort ≠ none) :
    (stp.receiveAll packets).rootPort ≠ none := by
  induction packets generalizing stp with
  | nil => exact h
  | cons x packets ih => exact ih _ (rootPort_handleConfigPacket stp x.1 x.2 h)

theorem Steady.receiveAll {switchId : U64} (h : Steady switchId stp) {packets : List (Nat × StpConfig)}
    (hpackets : ∀ x ∈ packets, Foreign switchId x.2) : Steady switchId (stp.receiveAll packets) := by
  induction packets generalizing stp with
  | nil => exact h
  | cons x packets ih =>
    have hrest : ∀ y ∈ packets, Foreign switchId y.2 := fun y hy => hpackets y (List.mem_cons_of_mem _ hy)
    exact ih (h.handleConfigPacket x.1 (hpackets x (List.mem_cons_self ..))) hrest

/-- All ports are designated, and nothing has been heard. -/
theorem stpInit_steady (mac : List U8) (nports : Nat) : Steady (switchIdOf mac) (stpInit mac nports) := by
  have hown : ∀ p ∈ (stpInit mac nports).ports, (stpInit mac nports).portIsDesignated p = true ∧
      p.pathCost = 1 ∧ p.designatedRoot = switchIdOf mac ∧ p.designatedCost = 0 := by
    intro p hp
    obtain ⟨i, -, rfl⟩ := List.mem_map.mp hp
    exact ⟨by simp [portIsDesignated, stpInit, portInit], rfl, rfl, rfl⟩
  have hroot : ∀ i, (stpInit mac nports).rootPort ≠ some i := fun i h => Option.some_ne_none i h.symm
  refine ⟨rfl, ⟨fun i h => absurd h (hroot i), fun p hp => (hown p hp).2.1, fun p hp hother => ?_⟩,
    fun _ => ⟨rfl, rfl⟩, fun i h => absurd h (hroot i), fun p hp _ => (hown p hp).2.2⟩
  exact absurd (hother.symm.trans (hown p hp).1) Bool.false_ne_true

/-- **Consistency.** Whatever configs of other switches come in on whatever ports, the switch
is consistent after each of them, and once it has a root port it has one from then on. -/
theorem receiveAll_consistent (mac : List U8) (nports : Nat) {packets : List (Nat × StpConfig)}
    (h : ∀ x ∈ packets, Foreign (switchIdOf mac) x.2) :
    Consistent ((stpInit mac nports).receiveAll packets) ∧
      ∀ more, ((stpInit mac nports).receiveAll packets).rootPort ≠ none →
        ((stpInit mac nports).receiveAll (packets ++ more)).rootPort ≠ none := by
  refine ⟨((stpInit_steady mac nports).receiveAll h).consistent, fun more hroot => ?_⟩
  rw [Stp.receiveAll, List.foldl_append]
  exact rootPort_receiveAll _ more hroot

/-- Two better roots in turn, the second on another port. -/
theorem receiveAll_consistent_two :
    Consistent ((stpInit [0, 0, 0, 0, 0, 3] 2).receiveAll [(0, ⟨2, 1, 2, 0x8001⟩), (1, ⟨1, 0, 1, 0x8001⟩)]) ∧
      ∀ more, ((stpInit [0, 0, 0, 0, 0, 3] 2).receiveAll
          [(0, ⟨2, 1, 2, 0x8001⟩), (1, ⟨1, 0, 1, 0x8001⟩)]).rootPort ≠ none →
        ((stpInit [0, 0, 0, 0, 0, 3] 2).receiveAll
          ([(0, ⟨2, 1, 2, 0x8001⟩), (1, ⟨1, 0, 1, 0x8001⟩)] ++ more)).rootPort ≠ none :=
  receiveAll_consistent [0, 0, 0, 0, 0, 3] 2 (by decide)

end Stp
end NetStack.SpanningTree
