import NetStack.SpanningTree.Switch
import Mathlib.Data.Prod.Lex
import Mathlib.Data.List.Chain

/-! The choice of the root port.

`update_root` orders port records by root, cost, switch and port (`priority`). Its loop
takes the first port that comes before its successor, and from there on any port that
comes before the one it has. So it ends with a least one of all ports but the last
(`judgePorts_least`), or, where no port comes before its successor, with none
(`judgePorts_none`). -/
namespace NetStack.SpanningTree

/-- What ports are compared by. -/
def priority (p : StpPort) : ℕ ×ₗ ℤ ×ₗ ℕ ×ₗ ℤ :=
  toLex (p.designatedRoot.toNat, toLex (p.designatedCost, toLex (p.designatedSwitch.toNat,
    p.designatedPort)))

/-- The source's comparison is that of the priorities. -/
theorem comparePortsPirority_eq (p1 p2 : StpPort) :
    comparePortsPirority p1 p2 = !decide (priority p1 < priority p2) := by
  have hroot : p1.designatedRoot = p2.designatedRoot ↔
      p1.designatedRoot.toNat = p2.designatedRoot.toNat := BitVec.toNat_inj.symm
  have hswitch : p1.designatedSwitch = p2.designatedSwitch ↔
      p1.designatedSwitch.toNat = p2.designatedSwitch.toNat := BitVec.toNat_inj.symm
  simp only [comparePortsPirority, priority, Prod.Lex.toLex_lt_toLex, BitVec.lt_def, ne_eq, hroot, hswitch]
  split_ifs with h1 h2 h3 h4
  all_goals first
    | refine congrArg (!·) (decide_eq_decide.mpr ?_)
    | refine (Bool.not_eq_true' _ ▸ decide_eq_false ?_ : (!decide _) = true).symm
  all_goals omega

namespace Stp

theorem judgePorts_some (root : StpPort × Nat) (ports : List (StpPort × Nat)) :
    ∃ x, judgePorts (some root) ports = some x ∧ x ∈ root :: ports.dropLast ∧
      ∀ y ∈ root :: ports.dropLast, priority x.1 ≤ priority y.1 := by
  induction ports generalizing root with
  | nil => exact ⟨root, by simp [judgePorts]⟩
  | cons x rest ih =>
    cases rest with
    | nil => exact ⟨root, by simp [judgePorts]⟩
    | cons y rest =>
      rw [judgePorts, comparePortsPirority_eq]
      by_cases hlt : priority x.1 < priority root.1
      · obtain ⟨z, hz, hmem, hleast⟩ := ih x
        refine ⟨z, by simp [hlt, hz], ?_, ?_⟩
        · exact List.mem_cons_of_mem root hmem
        · intro u hu
          rcases List.mem_cons.mp hu with rfl | hu
          · exact (hleast x (List.mem_cons_self ..)).trans hlt.le
          · exact hleast u hu
      · obtain ⟨z, hz, hmem, hleast⟩ := ih root
        refine ⟨z, by simp [hlt, hz], ?_, ?_⟩
        · rcases List.mem_cons.mp hmem with rfl | hmem
          · exact List.mem_cons_self ..
          · exact List.mem_cons_of_mem root (List.mem_cons_of_mem x hmem)
        · intro u hu
          have hroot := hleast root (List.mem_cons_self ..)
          rcases List.mem_cons.mp hu with rfl | hu
          · exact hroot
          · rcases List.mem_cons.mp hu with rfl | hu
            · exact hroot.trans (not_lt.mp hlt)
            · exact hleast u (List.mem_cons_of_mem root hu)

/-- No port comes before its successor. -/
def Descending (ports : List (StpPort × Nat)) : Prop :=
  ports.IsChain fun x y => comparePortsPirority x.1 y.1 = true

instance (ports : List (StpPort × Nat)) : Decidable (Descending ports) := by
  unfold Descending
  infer_instance

/-- The loop finds nothing exactly if no port comes before its successor. -/
theorem judgePorts_none {ports : List (StpPort × Nat)} : judgePorts none ports = none ↔ Descending ports := by
  induction ports with
  | nil => simp [judgePorts, Descending]
  | cons x rest ih =>
    cases rest with
    | nil => simp [judgePorts, Descending]
    | cons y rest =>
      rw [judgePorts, Descending, List.isChain_cons_cons]
      split
      · rename_i hxy
        rw [ih]
        simp [hxy, Descending]
      · rename_i hxy
        obtain ⟨z, hz, -⟩ := judgePorts_some x (y :: rest)
        simp [hz, hxy]

/-- What the loop finds is a least one of all ports but the last. -/
theorem judgePorts_least {ports : List (StpPort × Nat)} {x : StpPort × Nat}
    (h : judgePorts none ports = some x) :
    x ∈ ports.dropLast ∧ ∀ y ∈ ports.dropLast, priority x.1 ≤ priority y.1 := by
  induction ports generalizing x with
  | nil => simp [judgePorts] at h
  | cons y rest ih =>
    cases rest with
    | nil => simp [judgePorts] at h
    | cons z rest =>
      rw [judgePorts, comparePortsPirority_eq] at h
      by_cases hlt : priority y.1 < priority z.1
      · simp only [hlt, decide_true, Bool.not_true, Bool.false_eq_true, if_false] at h
        obtain ⟨x', hx', hmem, hleast⟩ := judgePorts_some y (z :: rest)
        obtain rfl : x' = x := Option.some.inj (hx'.symm.trans h)
        exact ⟨hmem, hleast⟩
      · simp only [hlt, decide_false, Bool.not_false, if_true] at h
        obtain ⟨hmem, hleast⟩ := ih h
        refine ⟨List.mem_cons_of_mem y hmem, ?_⟩
        intro u hu
        rcases List.mem_cons.mp hu with rfl | hu
        · have hz : z ∈ (z :: rest).dropLast := by
            cases rest with
            | nil => simp [judgePorts] at h
            | cons => exact List.mem_cons_self ..
          exact (hleast z hz).trans (not_lt.mp hlt)
        · exact hleast u hu

end Stp

end NetStack.SpanningTree
