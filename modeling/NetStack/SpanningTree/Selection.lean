import NetStack.SpanningTree.RootPort
import Mathlib.Data.List.Basic

/-! When `update_root` chooses right.

Whatever the port records hold, the loop of `update_root` ends with a least port of all but
the last, or leaves `root_port` as it was. Both are what is asked for under a condition on
the records and on the previous root port, and the rest of the switch then follows from
the port chosen, right or wrong. -/
namespace NetStack.SpanningTree.Stp

/-- The port of this index is a non-designated port that none comes before; no port is, if
there is no non-designated port. -/
def Elected (ports : List (StpPort × Nat)) : Option Nat → Prop
  | none => ports = []
  | some i => ∃ p, (p, i) ∈ ports ∧ ∀ q ∈ ports, priority p ≤ priority q.1

/-- The root and the cost of the switch are those of its root port. -/
def Derived (stp : Stp) : Prop :=
  (stp.rootPort = none → stp.designatedRoot = stp.switchId ∧ stp.rootPathCost = 0) ∧
  ∀ i p, stp.rootPort = some i → stp.ports[i]? = some p →
    stp.designatedRoot = p.designatedRoot ∧ stp.rootPathCost = (p.designatedCost + p.pathCost).bmod (2 ^ 32)

/-- There is one non-designated port; or a port comes before its successor and one that is
not the last comes no later than the last; or neither, and the root port the switch has is
the right one already. -/
def Electable (stp : Stp) : Prop :=
  stp.nonDesignatedPorts.length = 1 ∨
  ¬ Descending stp.nonDesignatedPorts ∧ (∃ y ∈ stp.nonDesignatedPorts.dropLast,
    ∀ z ∈ stp.nonDesignatedPorts.getLast?, priority y.1 ≤ priority z.1) ∨
  Descending stp.nonDesignatedPorts ∧ Elected stp.nonDesignatedPorts stp.rootPort

variable {stp : Stp} {p q : StpPort} {i : Nat} {x : StpPort × Nat}

theorem getElem_of_mem_nonDesignatedPorts (h : x ∈ stp.nonDesignatedPorts) : stp.ports[x.2]? = some x.1 :=
  List.mem_zipIdx_iff_getElem?.mp (List.mem_of_mem_filter h)

/-- An index stands for one port. -/
theorem nonDesignatedPorts_unique (hp : (p, i) ∈ stp.nonDesignatedPorts) (hq : (q, i) ∈ stp.nonDesignatedPorts) :
    p = q :=
  Option.some.inj ((getElem_of_mem_nonDesignatedPorts hp).symm.trans (getElem_of_mem_nonDesignatedPorts hq))

/-- What the loop finds is right exactly if some port it may take comes no later than the
last. -/
theorem elected_found (h : judgePorts none stp.nonDesignatedPorts = some x) :
    Elected stp.nonDesignatedPorts (some x.2) ↔
      ∃ y ∈ stp.nonDesignatedPorts.dropLast,
        ∀ z ∈ stp.nonDesignatedPorts.getLast?, priority y.1 ≤ priority z.1 := by
  obtain ⟨hmem, hleast⟩ := judgePorts_least h
  have hin := List.mem_of_mem_dropLast hmem
  constructor
  · intro hyp
    obtain ⟨p, hp, hall⟩ := hyp
    obtain rfl : p = x.1 := nonDesignatedPorts_unique hp hin
    exact ⟨x, hmem, fun z hz => hall z (List.mem_of_mem_getLast? hz)⟩
  · intro hyp
    obtain ⟨y, hy, hlast⟩ := hyp
    refine ⟨x.1, hin, fun q hq => ?_⟩
    have hne : stp.nonDesignatedPorts ≠ [] := List.ne_nil_of_mem hin
    rw [← List.dropLast_append_getLast hne] at hq
    rcases List.mem_append.mp hq with hq | hq
    · exact hleast q hq
    · rw [List.mem_singleton.mp hq]
      exact (hleast y hy).trans (hlast _ (List.getLast?_eq_some_getLast hne))

theorem elected_single (h : stp.nonDesignatedPorts = [x]) : Elected stp.nonDesignatedPorts (some x.2) := by
  rw [h]
  refine ⟨x.1, List.mem_cons_self, fun q hq => ?_⟩
  rw [List.mem_singleton.mp hq]

/-- The choice, where there is not just one port to choose. -/
theorem chooseRootPort_of_length (h : stp.nonDesignatedPorts.length ≠ 1) :
    stp.chooseRootPort = ((judgePorts none stp.nonDesignatedPorts).map (·.2)).or stp.rootPort := by
  rw [chooseRootPort]
  split
  · rename_i x heq
    simp [heq] at h
  · split
    · rename_i x heq
      rw [heq, Option.map_some, Option.some_or]
    · rename_i heq
      rw [heq, Option.map_none, Option.none_or]

theorem elected_iff (stp : Stp) :
    Elected stp.nonDesignatedPorts stp.chooseRootPort ↔ stp.Electable := by
  by_cases hone : stp.nonDesignatedPorts.length = 1
  · obtain ⟨x, hx⟩ := List.length_eq_one_iff.mp hone
    have hchoice : stp.chooseRootPort = some x.2 := by
      rw [chooseRootPort, hx]
    rw [hchoice]
    exact iff_of_true (elected_single hx) (Or.inl hone)
  · rw [chooseRootPort_of_length hone, Electable, or_iff_right hone]
    cases hjudge : judgePorts none stp.nonDesignatedPorts with
    | none =>
      have hdesc := judgePorts_none.mp hjudge
      rw [Option.map_none, Option.none_or, or_iff_right (fun h => h.1 hdesc), and_iff_right hdesc]
    | some x =>
      have hdesc : ¬ Descending stp.nonDesignatedPorts := by
        rw [← judgePorts_none, hjudge]
        exact Option.some_ne_none x
      rw [Option.map_some, Option.some_or, elected_found hjudge, or_iff_left (fun h => hdesc h.1),
        and_iff_right hdesc]

@[simp] theorem updateRoot_nonDesignatedPorts (stp : Stp) :
    stp.updateRoot.nonDesignatedPorts = stp.nonDesignatedPorts := by
  simp only [nonDesignatedPorts, portIsDesignated, updateRoot_ports, updateRoot_switchId]

/-- The switch follows its root port, whichever that is. -/
theorem updateRoot_derived (stp : Stp) : Derived stp.updateRoot := by
  constructor
  · intro hnone
    rw [updateRoot_rootPort] at hnone
    simp [updateRoot, hnone]
  · intro i p hroot hp
    rw [updateRoot_rootPort] at hroot
    rw [updateRoot_ports] at hp
    simp [updateRoot, hroot, hp]

/-- **`update_root` chooses a least non-designated port**, none if there is none, and takes
root and cost from it, exactly where the records are electable. -/
theorem updateRoot_elects_iff (stp : Stp) :
    Elected stp.updateRoot.nonDesignatedPorts stp.updateRoot.rootPort ∧ Derived stp.updateRoot ↔
      stp.Electable := by
  rw [and_iff_left (updateRoot_derived stp), updateRoot_rootPort, updateRoot_nonDesignatedPorts]
  exact elected_iff stp

/-- A switch with the root behind its last port, and no root port yet. -/
theorem updateRoot_misses_last :
    let stp : Stp := ⟨3, 3, 0, none, true, [⟨0x8001, 1, 1, 2, 0x8001, 1⟩, ⟨0x8002, 1, 1, 1, 0x8001, 0⟩]⟩
    ¬ (Elected stp.updateRoot.nonDesignatedPorts stp.updateRoot.rootPort ∧ Derived stp.updateRoot) := by
  intro stp h
  have hnone : stp.updateRoot.rootPort = none := by decide
  have hports : stp.updateRoot.nonDesignatedPorts ≠ [] := by decide
  rw [hnone] at h
  exact hports h.1

end NetStack.SpanningTree.Stp
