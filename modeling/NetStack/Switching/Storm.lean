import NetStack.Switching.Delivery

/-! Broadcast storms without a loop.

`handle_packet` sends a frame for a known address out of the interface of its entry, also
where that is the interface it came in on. Between two switches that know an address beyond
a third, which does not know it, a frame for the address goes back and forth without end:
the third passes on to each what comes from the other, and each sends it back
(`storm_never_ends`). It takes no more than a sweep at the third a second before the others
would have theirs. -/
namespace NetStack.Switching.Network

variable {n : Nat} {net : Network n} {s t : NetState n} {u : Fin n} {p₁ p₂ : IfaceInfo}
  {a₁ a₂ : Fin n × IfaceInfo} {m : Mac} {i : Nat}

/-- Two cables from a switch to others. -/
structure Fork (net : Network n) (u : Fin n) (p₁ p₂ : IfaceInfo) (a₁ a₂ : Fin n × IfaceInfo) : Prop where
  peer₁ : net.wiring.peer u p₁ = some a₁
  peer₂ : net.wiring.peer u p₂ = some a₂
  ne : p₁ ≠ p₂
  middle : net.host u = false
  side₁ : net.host a₁.1 = false
  side₂ : net.host a₂.1 = false

/-- The places on the two cables. -/
def Fork.places (u : Fin n) (p₁ p₂ : IfaceInfo) (a₁ a₂ : Fin n × IfaceInfo) : List (Fin n × IfaceInfo) :=
  [(u, p₁), (u, p₂), a₁, a₂]

/-- The address is not known in the middle and known on both sides, towards the middle, no
frame from it is under way, and one for it is on one of the cables. -/
structure Storm (m : Mac) (u : Fin n) (p₁ p₂ : IfaceInfo) (a₁ a₂ : Fin n × IfaceInfo) (s : NetState n) :
    Prop where
  blind : table s u m = none
  back₁ : table s a₁.1 m = some a₁.2
  back₂ : table s a₂.1 m = some a₂.2
  silent : ∀ copy ∈ s.lan.flight, copy.frame.frame.etherShost ≠ m
  caught : ∃ copy ∈ s.lan.flight, copy.frame.frame.etherDhost = m ∧ copy.place ∈ Fork.places u p₁ p₂ a₁ a₂

/-- The host with the address sends nothing, nothing is lost, and on the two sides no sweep
takes an entry for it. -/
def Undisturbed (m : Mac) (v₁ v₂ : Fin n) (s : NetState n) : NetEvent n → Prop
  | .send _ packet => packet.etherShost ≠ m
  | .lose _ => False
  | .sweep v => v = v₁ ∨ v = v₂ →
    ∀ entry ∈ (s.lan.box v).map.entries, entry.mac = m → entry.aged s.clock = false
  | _ => True

/-- A switch with an entry for an address sends frames for it there. -/
theorem Wired.route_of_table (hs : net.Wired s) {copy : Copy n Timed} (hmem : copy ∈ s.lan.flight)
    (hv : net.host copy.place.1 = false) {p : IfaceInfo}
    (htable : table s copy.place.1 copy.frame.frame.etherDhost = some p) {b : Fin n × IfaceInfo}
    (hpeer : net.wiring.peer copy.place.1 p = some b) :
    b ∈ net.route copy.place.1 (net.handled (switch s.clock) s.lan copy).1 := by
  rw [hs.handled_eq hmem, hv, if_neg Bool.false_ne_true, handlePacket_fst]
  unfold table at htable
  rw [htable]
  exact Lan.mem_route.mpr ⟨p, List.mem_singleton_self p, hpeer⟩

/-- A switch without one sends them out of every other interface. -/
theorem Wired.route_of_blind (hs : net.Wired s) {copy : Copy n Timed} (hmem : copy ∈ s.lan.flight)
    (hv : net.host copy.place.1 = false) {p : IfaceInfo}
    (htable : table s copy.place.1 copy.frame.frame.etherDhost = none) {b : Fin n × IfaceInfo}
    (hne : p ≠ copy.place.2) (hpeer : net.wiring.peer copy.place.1 p = some b) :
    b ∈ net.route copy.place.1 (net.handled (switch s.clock) s.lan copy).1 := by
  rw [hs.handled_eq hmem, hv, if_neg Bool.false_ne_true, handlePacket_fst]
  unfold table at htable
  rw [htable, (hs.kept _).ifaces]
  exact (Lan.mem_route_broadcast (hs.sound.mem_ports hmem)).mpr ⟨p, hne, hpeer⟩

/-- Wherever the frame is caught, it is sent on to where it stays caught. -/
theorem Storm.sent_on (hfork : net.Fork u p₁ p₂ a₁ a₂) (hw : net.Wired s) (hs : Storm m u p₁ p₂ a₁ a₂ s)
    {copy : Copy n Timed} (hmem : copy ∈ s.lan.flight) (hdest : copy.frame.frame.etherDhost = m)
    (hplace : copy.place ∈ Fork.places u p₁ p₂ a₁ a₂) :
    ∃ b ∈ net.route copy.place.1 (net.handled (switch s.clock) s.lan copy).1,
      b ∈ Fork.places u p₁ p₂ a₁ a₂ := by
  subst hdest
  simp only [Fork.places, List.mem_cons, List.not_mem_nil, or_false] at hplace ⊢
  obtain hplace | hplace | hplace | hplace := hplace
  · refine ⟨a₂, hw.route_of_blind (p := p₂) hmem ?_ ?_ ?_ ?_, by simp⟩ <;> rw [hplace]
    · exact hfork.middle
    · exact hs.blind
    · exact hfork.ne.symm
    · exact hfork.peer₂
  · refine ⟨a₁, hw.route_of_blind (p := p₁) hmem ?_ ?_ ?_ ?_, by simp⟩ <;> rw [hplace]
    · exact hfork.middle
    · exact hs.blind
    · exact hfork.ne
    · exact hfork.peer₁
  · refine ⟨(u, p₁), hw.route_of_table (p := a₁.2) hmem ?_ ?_ ?_, by simp⟩ <;> rw [hplace]
    · exact hfork.side₁
    · exact hs.back₁
    · exact net.wiring.peer_symm hfork.peer₁
  · refine ⟨(u, p₂), hw.route_of_table (p := a₂.2) hmem ?_ ?_ ?_, by simp⟩ <;> rw [hplace]
    · exact hfork.side₂
    · exact hs.back₂
    · exact net.wiring.peer_symm hfork.peer₂

theorem Storm.deliver (hfork : net.Fork u p₁ p₂ a₁ a₂) (hw : net.Wired s) (hs : Storm m u p₁ p₂ a₁ a₂ s)
    (h : net.Step s (.deliver i) t) : Storm m u p₁ p₂ a₁ a₂ t := by
  obtain ⟨lan, hlan, rfl⟩ := Option.map_eq_some_iff.mp h
  obtain ⟨copy, hcopy, _, _, _, hflight, hbox⟩ := Lan.deliver_eq hlan
  have hmem := List.mem_of_getElem? hcopy
  have hh := hw.handled (t := { s with lan := lan }) hmem hbox
  refine ⟨?_, hh.keep hs.back₁, hh.keep hs.back₂, ?_, ?_⟩
  · rw [Option.eq_none_iff_forall_ne_some]
    intro iface htable
    obtain hold | ⟨_, _, hsource, _⟩ := hh.cases htable
    · rw [hs.blind] at hold
      cases hold
    · exact hs.silent copy hmem hsource.symm
  · intro c hc
    simp only [hflight] at hc
    obtain hc | hc := List.mem_append.mp hc
    · exact hs.silent c (List.mem_of_mem_eraseIdx hc)
    · obtain ⟨b, _, rfl⟩ := List.mem_map.mp hc
      exact hs.silent copy hmem
  · obtain ⟨x, hx, hdest, hplace⟩ := hs.caught
    obtain ⟨before, after, hsplit, herase⟩ := Lan.split_flight hcopy
    simp only [hflight, herase]
    rw [hsplit] at hx
    obtain hx | hx := List.mem_append.mp hx
    · exact ⟨x, List.mem_append_left _ (List.mem_append_left _ hx), hdest, hplace⟩
    obtain rfl | hx := List.mem_cons.mp hx
    · obtain ⟨b, hb, hcaught⟩ := hs.sent_on hfork hw hmem hdest hplace
      exact ⟨_, List.mem_append_right _ (List.mem_map_of_mem hb), hdest, hcaught⟩
    · exact ⟨x, List.mem_append_left _ (List.mem_append_right _ hx), hdest, hplace⟩

/-- A lookup after a sweep. -/
theorem table_sweep (hw : net.Wired s) {v w : Fin n} (h : net.Step s (.sweep v) t) :
    (∀ iface, table t w m = some iface → table s w m = some iface) ∧
      ((w = v → ∀ entry ∈ (s.lan.box v).map.entries, entry.mac = m → entry.aged s.clock = false) →
        ∀ iface, table s w m = some iface → table t w m = some iface) := by
  have hkept := hw.kept w
  have hkept' := (hw.step h).kept w
  simp only [Step, step] at h
  split at h <;> cases h
  by_cases hv : w = v
  · subst hv
    simp only [table, Function.update_self] at hkept' ⊢
    constructor
    · intro iface hfound
      obtain ⟨entry, hentry, hmac, hiface⟩ := hkept'.placed.lookup_iff.mp hfound
      exact hkept.placed.lookup_iff.mpr ⟨entry, (mem_sweep.mp hentry).1, hmac, hiface⟩
    · intro hyoung iface hfound
      obtain ⟨entry, hentry, hmac, hiface⟩ := hkept.placed.lookup_iff.mp hfound
      exact hkept'.placed.lookup_iff.mpr
        ⟨entry, mem_sweep.mpr ⟨hentry, hyoung trivial entry hentry hmac⟩, hmac, hiface⟩
  · simp only [table, Function.update_of_ne hv]
    exact ⟨fun _ h => h, fun _ _ h => h⟩

theorem storm_step (hfork : net.Fork u p₁ p₂ a₁ a₂) (s : NetState n) (e : NetEvent n) (t : NetState n)
    (hs : net.Wired s ∧ Storm m u p₁ p₂ a₁ a₂ s) (he : Undisturbed m a₁.1 a₂.1 s e) (h : net.Step s e t) :
    net.Wired t ∧ Storm m u p₁ p₂ a₁ a₂ t := by
  obtain ⟨hw, hs⟩ := hs
  refine ⟨hw.step h, ?_⟩
  cases e with
  | tick now =>
    simp only [Step, step] at h
    split at h <;> cases h
    exact ⟨hs.blind, hs.back₁, hs.back₂, hs.silent, hs.caught⟩
  | send v packet =>
    simp only [Step, step] at h
    split at h <;> cases h
    refine ⟨hs.blind, hs.back₁, hs.back₂, fun c hc => ?_, ?_⟩
    · obtain hc | hc := List.mem_append.mp hc
      · exact hs.silent c hc
      · obtain ⟨b, _, rfl⟩ := List.mem_map.mp hc
        exact he
    · obtain ⟨x, hx, hdest, hplace⟩ := hs.caught
      exact ⟨x, List.mem_append_left _ hx, hdest, hplace⟩
  | deliver i => exact hs.deliver hfork hw h
  | lose i => exact he.elim
  | sweep v =>
    have hsame : t.lan.flight = s.lan.flight := by
      simp only [Step, step] at h
      split at h <;> cases h
      rfl
    refine ⟨?_, ?_, ?_, hsame ▸ hs.silent, hsame ▸ hs.caught⟩
    · rw [Option.eq_none_iff_forall_ne_some]
      intro iface htable
      have hold := (table_sweep hw h).1 iface htable
      rw [hs.blind] at hold
      cases hold
    · exact (table_sweep hw h).2 (fun hv => he (.inl hv.symm)) _ hs.back₁
    · exact (table_sweep hw h).2 (fun hv => he (.inr hv.symm)) _ hs.back₂

/-- A frame for an address that a switch does not know, and two switches beside it have at
the interfaces towards it, is under way between them for ever, if no frame from the address
was under way: whatever else is sent and in whatever order copies come, until the host with the
address is heard, a frame is lost or one of the two forgets it. -/
theorem storm_never_ends (hfork : net.Fork u p₁ p₂ a₁ a₂) {clock : Int} {es fs : List (NetEvent n)}
    (h : Run net.Step (net.init clock) es s) (hs : Storm m u p₁ p₂ a₁ a₂ s) (h' : Run net.Step s fs t)
    (hfs : Along net.Step (Undisturbed m a₁.1 a₂.1) s fs) :
    ∃ copy ∈ t.lan.flight, copy.frame.frame.etherDhost = m ∧ copy.place ∈ Fork.places u p₁ p₂ a₁ a₂ := by
  have hwired : net.Wired s :=
    h.invariant (C := fun _ _ => True) (fun _ _ _ hs _ hstep => hs.step hstep)
      (Along.of_forall (fun _ _ => trivial) _ _) (wired_init clock)
  exact (h'.invariant (storm_step hfork) hfs ⟨hwired, hs⟩).2.caught

instance (m : Mac) (v₁ v₂ : Fin n) (s : NetState n) : (e : NetEvent n) → Decidable (Undisturbed m v₁ v₂ s e)
  | .tick _ => isTrue trivial
  | .send _ _ => inferInstanceAs (Decidable (_ ≠ _))
  | .deliver _ => isTrue trivial
  | .lose _ => isFalse not_false
  | .sweep v =>
    inferInstanceAs (Decidable (v = v₁ ∨ v = v₂ →
      ∀ entry ∈ (s.lan.box v).map.entries, entry.mac = m → entry.aged s.clock = false))

attribute [local instance] sixBoxes

/-- The first host of the tree is heard, a second later at the outer switches; when its entry
in the middle has been swept, another host sends it a frame. -/
def stormRun : List (NetEvent 6) :=
  [.send 0 (between 0 1), .deliver 0, .tick 1, .deliver 0, .deliver 0, .deliver 0, .deliver 0, .tick 31,
    .sweep 3, .sweep 4, .sweep 5, .send 1 (between 1 0), .deliver 0]

def stormStart : NetState 6 := (runAll tree.step (tree.init 0) stormRun).get rfl

theorem tree_fork : tree.Fork 3 (eth 1) (eth 2) (4, eth 0) (5, eth 0) := ⟨rfl, rfl, by decide, rfl, rfl, rfl⟩

theorem tree_storm : Storm (tree.mac 0) 3 (eth 1) (eth 2) (4, eth 0) (5, eth 0) stormStart where
  blind := rfl
  back₁ := rfl
  back₂ := rfl
  silent := by decide
  caught := by decide

/-- The frame to the other side and back. -/
def stormRound : List (NetEvent 6) := [.deliver 0, .deliver 1, .tick 40, .sweep 5]

set_option maxRecDepth 2000 in
def stormEnd : NetState 6 := (runAll tree.step stormStart stormRound).get rfl

set_option maxRecDepth 2000 in
theorem tree_storm_goes_on : ∃ copy ∈ stormEnd.lan.flight, copy.frame.frame.etherDhost = tree.mac 0 ∧
    copy.place ∈ Fork.places 3 (eth 1) (eth 2) (4, eth 0) (5, eth 0) :=
  storm_never_ends tree_fork
    (Run.of_isSome (rfl : (runAll tree.step (tree.init 0) stormRun).isSome = true)) tree_storm
    (Run.of_isSome (rfl : (runAll tree.step stormStart stormRound).isSome = true))
    (Along.of_checkAll
      (rfl : checkAll tree.step (Undisturbed (tree.mac 0) 4 5) stormStart stormRound = true))

end NetStack.Switching.Network
