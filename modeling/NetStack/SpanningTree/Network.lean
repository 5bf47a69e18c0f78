import NetStack.Lib.Run
import NetStack.SpanningTree.Switch
import Mathlib.Combinatorics.SimpleGraph.Metric
import Mathlib.Data.List.FinRange

/-! A network of switches.

Links join ports of different switches, two by two. The network carries every config
that was sent until it is delivered, in any order, and may lose or repeat it. -/
namespace NetStack.SpanningTree

/-- Switches with their first interface's address, their ports, and the port at the other
end of each linked port. -/
structure Network (n : Nat) where
  mac : Fin n → List U8
  nports : Fin n → Nat
  peer : Fin n → Nat → Option (Fin n × Nat)
  nports_le : ∀ v, nports v ≤ maxPorts
  peer_lt : ∀ {v i x}, peer v i = some x → i < nports v
  peer_symm : ∀ {v i w j}, peer v i = some (w, j) → peer w j = some (v, i)
  peer_ne : ∀ {v i w j}, peer v i = some (w, j) → v ≠ w
  id_injective : Function.Injective fun v => switchIdOf (mac v)

/-- A config on its way to a port. -/
structure Frame (n : Nat) where
  dest : Fin n
  port : Nat
  config : StpConfig
deriving DecidableEq

/-- All switches, and the configs in flight. -/
structure NetState (n : Nat) where
  switch : Fin n → Stp
  flight : List (Frame n)

/-- A hello timer expires, or a config in flight is delivered, lost or repeated. -/
inductive NetEvent (n : Nat)
  | hello (v : Fin n)
  | deliver (k : Nat)
  | lose (k : Nat)
  | repeated (k : Nat)

namespace Network

variable {n : Nat} (net : Network n)

/-- The id of a switch. -/
def id (v : Fin n) : U64 := switchIdOf (net.mac v)

/-- The links as a graph. -/
def graph : SimpleGraph (Fin n) where
  Adj v w := ∃ i j, net.peer v i = some (w, j)
  symm := ⟨fun _ _ ⟨i, j, h⟩ => ⟨j, i, net.peer_symm h⟩⟩
  loopless := ⟨fun _ ⟨_, _, h⟩ => net.peer_ne h rfl⟩

/-- What a switch sends, on its way over the links of the ports it leaves from. -/
def route (v : Fin n) (sent : List (Nat × StpConfig)) : List (Frame n) :=
  sent.filterMap fun (i, config) => (net.peer v i).map fun (w, j) => ⟨w, j, config⟩

/-- Every switch after `stp_init`. -/
def init : NetState n := ⟨fun v => stpInit (net.mac v) (net.nports v), []⟩

/-- A frame is handled by its switch. -/
def handle (s : NetState n) (frame : Frame n) : Stp × List (Nat × StpConfig) :=
  (s.switch frame.dest).handleConfigPacket frame.port frame.config

/-- One step; a hello timer that is stopped does not expire. -/
def step (s : NetState n) : NetEvent n → Option (NetState n)
  | .hello v =>
    if (s.switch v).helloTimer then
      let (stp, sent) := (s.switch v).handleHelloTimeout
      some ⟨Function.update s.switch v stp, s.flight ++ net.route v sent⟩
    else none
  | .deliver k =>
    match s.flight[k]? with
    | none => none
    | some frame =>
      let (stp, sent) := handle s frame
      some ⟨Function.update s.switch frame.dest stp, s.flight.eraseIdx k ++ net.route frame.dest sent⟩
  | .lose k => if k < s.flight.length then some { s with flight := s.flight.eraseIdx k } else none
  | .repeated k =>
    match s.flight[k]? with
    | none => none
    | some frame => some { s with flight := s.flight ++ [frame] }

/-- The step as a relation. -/
def Step (s : NetState n) (e : NetEvent n) (t : NetState n) : Prop := net.step s e = some t

/-- A step leaves a switch alone, or its hello timer expires, or it handles a config. -/
theorem step_switch {net : Network n} {s t : NetState n} {e : NetEvent n} (h : net.Step s e t) (v : Fin n) :
    t.switch v = s.switch v ∨ t.switch v = (s.switch v).handleHelloTimeout.1 ∨
      ∃ k frame, e = .deliver k ∧ s.flight[k]? = some frame ∧ frame.dest = v ∧
        t.switch v = ((s.switch v).handleConfigPacket frame.port frame.config).1 := by
  unfold Step step at h
  cases e with
  | hello w =>
    simp only at h
    split at h <;> cases h
    by_cases hvw : v = w
    · subst hvw
      exact .inr (.inl (Function.update_self ..))
    · exact .inl (Function.update_of_ne hvw ..)
  | deliver k =>
    simp only at h
    split at h
    · cases h
    · rename_i frame hframe
      cases h
      by_cases hv : v = frame.dest
      · subst hv
        exact .inr (.inr ⟨k, frame, rfl, hframe, rfl, Function.update_self ..⟩)
      · exact .inl (Function.update_of_ne hv ..)
  | lose k =>
    simp only at h
    split at h <;> cases h
    exact .inl rfl
  | repeated k =>
    simp only at h
    split at h <;> cases h
    exact .inl rfl

/-- The delivery of one of the configs in flight, and nothing else. -/
def Deliver (s : NetState n) (k : Nat) (t : NetState n) : Prop := net.step s (.deliver k) = some t

/-- The hello configs of all switches that believe they are root, sent again. -/
def helloRound (s : NetState n) : NetState n :=
  { s with flight := s.flight ++ (List.finRange n).flatMap fun v =>
      if (s.switch v).isRootSwitch then net.route v (s.switch v).sendConfig else [] }

/-- No config is in flight, and a hello round, with all that follows from it, changes no
switch. -/
def Quiescent (s : NetState n) : Prop :=
  s.flight = [] ∧ ∀ ks t, Run net.Deliver (net.helloRound s) ks t → t.switch = s.switch

/-- Every switch has the root's id, and its distance from it. -/
def Agreement (s : NetState n) : Prop :=
  ∀ root, (∀ v, net.id root ≤ net.id v) → ∀ v,
    (s.switch v).designatedRoot = net.id root ∧ (s.switch v).rootPathCost = net.graph.dist root v

/-! ### A line of three

The least id at one end; the switch in the middle has its first port towards it. -/

/-- The other ends: switch 0 – port 0 of switch 2, port 1 of switch 2 – switch 1. -/
def linePeer : Fin 3 → Nat → Option (Fin 3 × Nat)
  | 0, 0 => some (2, 0)
  | 2, 0 => some (0, 0)
  | 1, 0 => some (2, 1)
  | 2, 1 => some (1, 0)
  | _, _ => none

def line : Network 3 where
  mac v := [0, 0, 0, 0, 0, BitVec.ofNat 8 (v + 1)]
  nports v := if v = 2 then 2 else 1
  peer := linePeer
  nports_le := by decide
  peer_lt := by
    intro v i x h
    unfold linePeer at h
    split at h <;> first | (cases h; decide) | contradiction
  peer_symm := by
    intro v i w j h
    unfold linePeer at h
    split at h <;> cases h <;> rfl
  peer_ne := by
    intro v i w j h
    unfold linePeer at h
    split at h <;> cases h <;> decide
  id_injective := by decide

theorem line_connected : line.graph.Connected := by
  have h02 : line.graph.Adj 0 2 := ⟨0, 0, rfl⟩
  have h12 : line.graph.Adj 1 2 := ⟨0, 1, rfl⟩
  refine SimpleGraph.connected_iff_exists_forall_reachable _ |>.mpr ⟨2, fun v => ?_⟩
  match v with
  | 0 => exact h02.symm.reachable
  | 1 => exact h12.symm.reachable
  | 2 => exact .refl 2

/-- The root's hello comes first. -/
def rootFirst : List (NetEvent 3) := [.hello 0, .deliver 0, .deliver 0]

/-- The hello of the switch at the far end comes first. -/
def farFirst : List (NetEvent 3) := [.hello 1, .deliver 0, .deliver 0, .hello 0, .deliver 0]

end Network

end NetStack.SpanningTree
