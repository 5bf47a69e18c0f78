import NetStack.Lib.Run
import NetStack.Switching.Lan
import Mathlib.Tactic.FinCases

/-! The hub (`EXP04-Boardcast_Net`), and networks of hubs.

A hub remembers nothing, so what a network of hubs does to a frame is decided by its
cables. Without a loop every frame comes to every other box once, whatever the order; with
one, no frame ever comes to its end. -/
namespace NetStack.Hub

open Switching

/-- `handle_packet`: the interfaces the packet is sent from. -/
def handlePacket (ifaceList : List IfaceInfo) (iface : IfaceInfo) : List IfaceInfo :=
  broadcastPacket ifaceList iface

/-- The body of the loop of `ustack_run`, for a packet read from a descriptor. -/
def ustackRun (ifaceList : List IfaceInfo) (fd : Int) : List IfaceInfo :=
  match fdToIface ifaceList fd with
  | none => []
  | some iface => handlePacket ifaceList iface

variable {n : Nat} {F : Type} (lan : Lan n)

/-- A hub in a network. -/
def hub (v : Fin n) (_ : Unit) (iface : IfaceInfo) (_ : F) : List IfaceInfo × Unit :=
  (ustackRun (lan.wiring.ports v) iface.fd, ())

inductive Event (n : Nat) (F : Type)
  | send (v : Fin n) (packet : F)
  | deliver (i : Nat)
  | lose (i : Nat)

/-- A network of hubs. -/
abbrev State (n : Nat) (F : Type) := LanState n Unit F

/-- A host sends a packet, a hub or a host gets a copy, or a copy is lost. -/
def step (s : State n F) : Event n F → Option (State n F)
  | .send v packet => if lan.host v then some (lan.send s v packet) else none
  | .deliver i => lan.deliver (hub lan) s i
  | .lose i => s.lose i

def Step (s : State n F) (e : Event n F) (t : State n F) : Prop := step lan s e = some t

/-- Nothing but the delivery of a copy. -/
def Delivery (s : State n F) (i : Nat) (t : State n F) : Prop := lan.deliver (hub lan) s i = some t

def init : State n F := Lan.init fun _ => ()

/-- Nothing is lost. -/
def Event.Keeps : Event n F → Prop
  | .lose _ => False
  | _ => True

variable {lan : Lan n} {s t : State n F} {e : Event n F} {i k : Nat} {v w : Fin n} {packet : F}

/-! ### One step -/

/-- A hub passes on out of all its other interfaces, and so does a host, which has none. -/
theorem mem_route_handled {copy : Copy n F} (hcabled : copy.place.2 ∈ lan.wiring.ports copy.place.1)
    (b : Fin n × IfaceInfo) :
    b ∈ lan.route copy.place.1 (lan.handled (hub lan) s copy).1 ↔ lan.wiring.Onward copy.place b := by
  unfold Lan.handled
  split
  · rename_i hhost
    exact iff_of_false List.not_mem_nil (Lan.not_onward_of_host hhost hcabled)
  · simp only [hub, ustackRun, Lan.fdToIface_fd hcabled, handlePacket]
    exact Lan.mem_route_broadcast hcabled

theorem route_handled_nodup {copy : Copy n F} (hcabled : copy.place.2 ∈ lan.wiring.ports copy.place.1) :
    (lan.route copy.place.1 (lan.handled (hub lan) s copy).1).Nodup := by
  apply Lan.route_nodup
  unfold Lan.handled
  split
  · exact List.nodup_nil
  · simp only [hub, ustackRun, Lan.fdToIface_fd hcabled, handlePacket]
    exact Lan.broadcastPacket_nodup _

theorem sound_step (hs : Lan.Sound lan s) (h : Step lan s e t) : Lan.Sound lan t := by
  cases e with
  | send v packet =>
    simp only [Step, step] at h
    split at h <;> cases h
    exact hs.send v packet
  | deliver i => exact hs.deliver h
  | lose i => exact hs.lose h

/-- What `I` says of the copies of every frame, where a host's own sending, a hub's passing
on out of all its other interfaces, and losses where there are any, keep it. -/
theorem each_step {I : Fin n → Spread (Fin n) IfaceInfo → Prop}
    (hinit : ∀ v, I v ⟨[], [], lan.route v (lan.wiring.ports v)⟩)
    (hdeliver : ∀ v x a out y, I v x → Spread.Deliver x a out y → out.Nodup →
      (∀ b, b ∈ out ↔ lan.wiring.Onward a b) → I v y)
    (hlose : ¬e.Keeps → ∀ a v x y, I v x → Spread.Lose x a y → I v y)
    (hs : Lan.Sound lan s ∧ Lan.Each I s) (h : Step lan s e t) : Lan.Sound lan t ∧ Lan.Each I t := by
  obtain ⟨hsound, hI⟩ := hs
  refine ⟨sound_step hsound h, ?_⟩
  cases e with
  | send v packet =>
    simp only [Step, step] at h
    split at h <;> cases h
    exact hI.send hsound v packet (hinit v)
  | deliver i =>
    refine hI.deliver h fun copy hcopy v x y hx hd => ?_
    have hcabled := hsound.mem_ports hcopy
    exact hdeliver v x _ _ y hx hd (route_handled_nodup hcabled) (mem_route_handled hcabled)
  | lose i => exact hI.lose h (hlose not_false)

/-- The copies of one frame: none comes to a box twice, and hubs leave none out. -/
def Flooded (W : Wiring (Fin n) IfaceInfo) (v : Fin n) (x : Spread (Fin n) IfaceInfo) : Prop :=
  x.Once W v ∧ x.Whole W v

theorem flooded_step (hloop : lan.wiring.Loopless)
    (hs : Lan.Sound lan s ∧ Lan.Each (Flooded lan.wiring) s) (h : Step lan s e t) :
    Lan.Sound lan t ∧ Lan.Each (Flooded lan.wiring) t := by
  refine each_step ?_ ?_ ?_ hs h
  · intro v
    exact ⟨.init (Lan.route_nodup (lan.wiring.ports_nodup v)) fun a ha => Lan.mem_route_ports.mp ha,
      .init fun a ha => Lan.mem_route_ports.mpr ha⟩
  · intro v x a out y hx hd hnodup hall
    exact ⟨hx.1.deliver hloop hd hnodup fun b hb => (hall b).mp hb,
      hx.2.deliver hd fun b hb => (hall b).mpr hb⟩
  · intro _ a v x y hx hl
    exact ⟨hx.1.lose hl, hx.2.lose hl⟩

/-! ### Runs -/

theorem flooded (hloop : lan.wiring.Loopless) {es : List (Event n F)} (h : Run (Step lan) init es s) :
    Lan.Sound lan s ∧ Lan.Each (Flooded lan.wiring) s :=
  h.invariant (C := fun _ _ => True) (fun _ _ _ hs _ hstep => flooded_step hloop hs hstep)
    (Along.of_forall (fun _ _ => trivial) _ _) ⟨Lan.sound_init lan _, Lan.each_init _⟩

/-- Without a loop no box ever gets a frame twice, its sender does not get it, and once no
copy of it is under way, and none was lost, every other box has it exactly as it was sent. -/
theorem frame_received_once (hloop : lan.wiring.Loopless) {es : List (Event n F)}
    (h : Run (Step lan) init es s) (hk : s.sent[k]? = some (v, packet)) :
    (∀ w, (s.receipts k w).length ≤ if w = v then 0 else 1) ∧
      (lan.wiring.Connected → (∀ copy ∈ s.lost ++ s.flight, copy.number ≠ k) →
        ∀ w, w ≠ v → s.receipts k w = [packet]) := by
  obtain ⟨hsound, heach⟩ := flooded hloop h
  obtain ⟨honce, hwhole⟩ := heach k v packet hk
  have hle := Lan.length_receipts_le hloop honce
  refine ⟨hle, fun hconn hnone w hw => ?_⟩
  obtain ⟨iface, haway⟩ := hconn.exists_away hw
  have hlost : (s.spread k).lost = [] :=
    Lan.places_eq_nil fun copy hcopy => hnone copy (List.mem_append_left _ hcopy)
  have hflight : (s.spread k).flight = [] :=
    Lan.places_eq_nil fun copy hcopy => hnone copy (List.mem_append_right _ hcopy)
  have hone := hle w
  rw [if_neg hw] at hone
  exact hsound.receipts_eq hk hone (hwhole.mem_received hlost hflight haway) rfl

/-! Three hosts at one hub, as in `three_nodes_bw.py`. -/

local instance fourBoxes : NeZero 4 := ⟨by decide⟩

def threeNodes : Lan 4 where
  wiring := .ofLinks [((0, eth 0), (3, eth 0)), ((1, eth 0), (3, eth 1)), ((2, eth 0), (3, eth 2))] (by decide)
  fd_nodup := by decide
  host v := v ≠ 3
  host_one := by decide

theorem threeNodes_loopless : threeNodes.wiring.Loopless :=
  Wiring.loopless_ofLinks (h := by decide) (fun a => if a.1 = 3 then 1 else 0) (by decide)

theorem threeNodes_connected : threeNodes.wiring.Connected := by
  have h0 : threeNodes.wiring.Linked 0 3 := ⟨eth 0, eth 0, rfl⟩
  have h1 : threeNodes.wiring.Linked 1 3 := ⟨eth 0, eth 1, rfl⟩
  have h2 : threeNodes.wiring.Linked 2 3 := ⟨eth 0, eth 2, rfl⟩
  refine .of_center 3 fun v => ?_
  fin_cases v
  · exact .single h0
  · exact .single h1
  · exact .single h2
  · exact .refl

/-- A frame of the first host, and its copies at the hub and the other hosts. -/
def threeNodesRun : List (Event 4 Nat) := [.send 0 7, .deliver 0, .deliver 0, .deliver 0]

def threeNodesEnd : State 4 Nat := (runAll (step threeNodes) init threeNodesRun).get rfl

theorem threeNodes_received_once :
    (∀ w, (threeNodesEnd.receipts 0 w).length ≤ if w = 0 then 0 else 1) ∧
      ∀ w, w ≠ 0 → threeNodesEnd.receipts 0 w = [7] := by
  have hrun : Run (Step threeNodes) init threeNodesRun threeNodesEnd :=
    Run.of_isSome (rfl : (runAll (step threeNodes) init threeNodesRun).isSome = true)
  have hsent : threeNodesEnd.sent[0]? = some (0, 7) := rfl
  obtain ⟨honce, hwhole⟩ := frame_received_once threeNodes_loopless hrun hsent
  exact ⟨honce, hwhole threeNodes_connected (by decide)⟩

/-! ### How it ends -/

theorem Delivery.step (h : Delivery lan s i t) : Step lan s (.deliver i) t := h

/-- Without a loop a frame comes to its end, by delivering its copies. -/
theorem exists_end (hloop : lan.wiring.Loopless) (hs : Lan.Sound lan s ∧ Lan.Each (Flooded lan.wiring) s)
    (hk : s.sent[k]? = some (v, packet)) :
    ∃ is t, Run (Delivery lan) s is t ∧ ∀ copy ∈ t.flight, copy.number ≠ k := by
  induction hm : n - (s.spread k).received.length using Nat.strongRecOn generalizing s with
  | ind m ih =>
    by_cases hnone : ∀ copy ∈ s.flight, copy.number ≠ k
    · exact ⟨[], s, .nil s, hnone⟩
    · obtain ⟨copy, hcopy⟩ := Classical.not_forall.mp hnone
      obtain ⟨hmem, hnumber⟩ := Classical.not_imp.mp hcopy
      obtain ⟨i, hi, hget⟩ := List.getElem_of_mem hmem
      have hnumber := Classical.not_not.mp hnumber
      have hdelivery : ∃ u, Delivery lan s i u := by
        simp [Delivery, Lan.deliver, hi]
      obtain ⟨u, hu⟩ := hdelivery
      have hnext := flooded_step hloop hs hu.step
      obtain ⟨copy', hcopy', hsent, hreceived, _⟩ := Lan.deliver_eq hu
      rw [List.getElem?_eq_getElem hi, hget] at hcopy'
      obtain rfl := Option.some.inj hcopy'
      have hmore : (u.spread k).received.length = (s.spread k).received.length + 1 := by
        simp [LanState.spread, hreceived, hnumber]
      have hbound : (u.spread k).received.length < n := by
        have honce := (hnext.2 k v packet (hsent ▸ hk)).1
        have hlt := honce.length_lt hloop
        simp only [Spread.copies, List.length_append, Fintype.card_fin] at hlt
        omega
      obtain ⟨is, t, hrun, ht⟩ := ih _ (by omega) hnext (hsent ▸ hk) rfl
      exact ⟨i :: is, t, .cons hu hrun, ht⟩

/-- With a loop every frame has a copy on its way to it. -/
theorem alive_step (hconn : lan.wiring.Connected) (hloop : ¬lan.wiring.Loopless) (he : e.Keeps)
    (hs : Lan.Sound lan s ∧ Lan.Each (fun _ => Spread.Alive lan.wiring) s) (h : Step lan s e t) :
    Lan.Sound lan t ∧ Lan.Each (fun _ => Spread.Alive lan.wiring) t := by
  refine each_step ?_ ?_ ?_ hs h
  · intro v
    obtain ⟨c, ⟨a, hstart, hpath⟩, hround⟩ := hconn.exists_loop hloop v
    exact ⟨a, Lan.mem_route_ports.mpr hstart, c, hpath, hround⟩
  · intro _ x a out y hx hd _ hall
    exact hx.deliver hd fun b hb => (hall b).mpr hb
  · intro hlose
    exact absurd he hlose

theorem alive (hconn : lan.wiring.Connected) (hloop : ¬lan.wiring.Loopless) {es : List (Event n F)}
    (h : Run (Step lan) init es s) (hkeep : ∀ e ∈ es, e.Keeps) :
    Lan.Sound lan s ∧ Lan.Each (fun _ => Spread.Alive lan.wiring) s :=
  h.invariant (C := fun _ e => e.Keeps) (fun _ _ _ hs he hstep => alive_step hconn hloop he hs hstep)
    (Along.of_events hkeep _) ⟨Lan.sound_init lan _, Lan.each_init _⟩

/-- Among connected hubs that lose nothing, the copies of a frame can come to an end, in
some order, exactly where there is no loop. -/
theorem frame_ends_iff_loopless (hconn : lan.wiring.Connected) {es : List (Event n F)}
    (h : Run (Step lan) init es s) (hkeep : ∀ e ∈ es, e.Keeps) (hk : s.sent[k]? = some (v, packet)) :
    (∃ is t, Run (Delivery lan) s is t ∧ ∀ copy ∈ t.flight, copy.number ≠ k) ↔ lan.wiring.Loopless := by
  constructor
  · intro hyp
    obtain ⟨is, t, hrun, hnone⟩ := hyp
    refine Classical.byContradiction fun hloop => ?_
    have hkept : ∀ s i t, (Lan.Sound lan s ∧ Lan.Each (fun _ => Spread.Alive lan.wiring) s) ∧
        s.sent[k]? = some (v, packet) → True → Delivery lan s i t →
        (Lan.Sound lan t ∧ Lan.Each (fun _ => Spread.Alive lan.wiring) t) ∧
          t.sent[k]? = some (v, packet) := by
      intro s i t hs _ hd
      obtain ⟨_, _, hsent, _⟩ := Lan.deliver_eq hd
      exact ⟨alive_step (e := .deliver i) hconn hloop trivial hs.1 hd.step, hsent ▸ hs.2⟩
    have halive := hrun.invariant (C := fun _ _ => True) hkept (Along.of_forall (fun _ _ => trivial) _ _)
      ⟨alive hconn hloop h hkeep, hk⟩
    have hflight := (halive.1.2 k v packet halive.2).flight_ne_nil
    exact hflight (Lan.places_eq_nil hnone)
  · intro hloop
    exact exists_end hloop (flooded hloop h) hk

/-! The ring of three hubs with two hosts of `circle_topo.py`. -/

def circle : Lan 5 where
  wiring := .ofLinks [((0, eth 0), (2, eth 0)), ((1, eth 0), (3, eth 0)), ((2, eth 1), (3, eth 1)),
    ((2, eth 2), (4, eth 0)), ((3, eth 2), (4, eth 1))] (by decide)
  fd_nodup := by decide
  host v := v.val < 2
  host_one := by decide

theorem circle_connected : circle.wiring.Connected := by
  have h0 : circle.wiring.Linked 0 2 := ⟨eth 0, eth 0, rfl⟩
  have h1 : circle.wiring.Linked 1 3 := ⟨eth 0, eth 0, rfl⟩
  have h3 : circle.wiring.Linked 3 2 := ⟨eth 1, eth 1, rfl⟩
  have h4 : circle.wiring.Linked 4 2 := ⟨eth 0, eth 2, rfl⟩
  refine .of_center 2 fun v => ?_
  fin_cases v
  · exact .single h0
  · exact .head h1 (.single h3)
  · exact .refl
  · exact .single h3
  · exact .single h4

/-- A copy goes around, by each of the hubs in turn. -/
theorem circle_not_loopless : ¬circle.wiring.Loopless := by
  intro hloop
  have h2 : circle.wiring.Onward (2, eth 1) (4, eth 0) := ⟨eth 2, by decide, rfl⟩
  have h4 : circle.wiring.Onward (4, eth 0) (3, eth 2) := ⟨eth 1, by decide, rfl⟩
  have h3 : circle.wiring.Onward (3, eth 2) (2, eth 1) := ⟨eth 1, by decide, rfl⟩
  exact hloop (2, eth 1) (.head h2 (.head h4 (.single h3)))

/-- A frame of the first host. -/
def circleSent : State 5 Nat := circle.send init 0 7

theorem circle_sent : Run (Step circle) init [.send 0 7] circleSent := .cons rfl (.nil _)

theorem circle_never_ends :
    ¬∃ is t, Run (Delivery circle) circleSent is t ∧ ∀ copy ∈ t.flight, copy.number ≠ 0 := fun hends =>
  circle_not_loopless
    ((frame_ends_iff_loopless circle_connected circle_sent (List.forall_mem_singleton.mpr trivial) rfl).mp hends)

end NetStack.Hub
