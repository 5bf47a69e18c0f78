import NetStack.Switching.Network

/-! What a network of learning switches delivers.

Where entries are right, a frame that is not lost gets to the host it is addressed to,
sweeps or not (`frame_reaches_addressee`). That it gets there once takes more: that cables
keep the order of frames, and that no entry is swept. Then a switch never has an entry for
an address at the interface towards a switch that has none (`Orderly.learnt`), so a copy
never comes in on the interface that the entry for it is for (`Orderly.clear`), and no copy
is ever sent back. -/
namespace NetStack.Switching.Network

variable {n : Nat} {net : Network n} {s t : NetState n} {v w : Fin n} {i k : Nat} {f : Timed}

/-- What a lookup finds at a box. -/
def table (s : NetState n) (v : Fin n) (m : Mac) : Option IfaceInfo := (lookupPort (s.lan.box v).map m 0).1

theorem Informed.towards_table (hs : net.Informed s) {m : Mac} {iface : IfaceInfo}
    (h : table s v m = some iface) :
    ∃ host, net.host host = true ∧ net.mac host = m ∧ net.wiring.Away host (v, iface) := by
  obtain ⟨entry, hentry, rfl, rfl⟩ := (hs.wired.kept v).placed.lookup_iff.mp h
  exact hs.towards v entry hentry

/-- The interfaces a frame leaves a switch from: that of the entry for its destination, or
all others. -/
theorem handlePacket_fst (box : Switch) (iface : IfaceInfo) (packet : EtherFrame) (now : Int) :
    (handlePacket box iface packet now).1 =
      match (lookupPort box.map packet.etherDhost 0).1 with
      | some entry => [entry]
      | none => broadcastPacket box.ifaceList iface := by
  rw [lookupPort_fst_time _ _ 0 now]
  rfl

/-- A copy goes out of the interface of the entry for its destination if there is one, and
else out of no interface twice and not of the one it came in on. -/
theorem Wired.out (hs : net.Wired s) {copy : Copy n Timed} (hmem : copy ∈ s.lan.flight) :
    (net.route copy.place.1 (net.handled (switch s.clock) s.lan copy).1).Nodup ∧
      ∀ b ∈ net.route copy.place.1 (net.handled (switch s.clock) s.lan copy).1,
        net.host copy.place.1 = false ∧ ∃ p, net.wiring.peer copy.place.1 p = some b ∧
          (table s copy.place.1 copy.frame.frame.etherDhost = some p ∨
            table s copy.place.1 copy.frame.frame.etherDhost = none ∧ p ≠ copy.place.2) := by
  rw [hs.handled_eq hmem]
  cases hv : net.host copy.place.1 with
  | true => exact ⟨List.nodup_nil, fun b hb => absurd hb List.not_mem_nil⟩
  | false =>
    rw [if_neg Bool.false_ne_true, handlePacket_fst]
    refine ⟨Lan.route_nodup ?_, fun b hb => ⟨rfl, ?_⟩⟩
    · split
      · exact List.nodup_singleton _
      · rw [(hs.kept _).ifaces]
        exact Lan.broadcastPacket_nodup _
    · obtain ⟨p, hp, hpeer⟩ := Lan.mem_route.mp hb
      refine ⟨p, hpeer, ?_⟩
      unfold table
      split at hp
      · rename_i entry hfound
        obtain rfl := List.mem_singleton.mp hp
        exact .inl hfound
      · rename_i hfound
        rw [(hs.kept _).ifaces, Lan.mem_broadcastPacket (hs.sound.mem_ports hmem)] at hp
        exact .inr ⟨hfound, hp.2⟩

/-- What the delivery of a copy does to the tables: one learns its source at most. -/
structure Handled (net : Network n) (s t : NetState n) (copy : Copy n Timed) : Prop where
  keep : ∀ {w m iface}, table s w m = some iface → table t w m = some iface
  cases : ∀ {w m iface}, table t w m = some iface → table s w m = some iface ∨
    (w = copy.place.1 ∧ net.host w = false ∧ m = copy.frame.frame.etherShost ∧ iface = copy.place.2)
  learn : net.host copy.place.1 = false → table t copy.place.1 copy.frame.frame.etherShost ≠ none

theorem Wired.handled (hs : net.Wired s) {copy : Copy n Timed} (hmem : copy ∈ s.lan.flight)
    (hbox : t.lan.box = Function.update s.lan.box copy.place.1 (net.handled (switch s.clock) s.lan copy).2) :
    net.Handled s t copy := by
  have heq := hs.handled_eq hmem
  cases hv : net.host copy.place.1 with
  | true =>
    rw [hv, if_pos rfl] at heq
    rw [heq, Function.update_eq_self] at hbox
    have htable : ∀ w m, table t w m = table s w m := by
      intro w m
      rw [table, hbox, table]
    refine ⟨fun h => htable _ _ ▸ h, fun h => .inl (htable _ _ ▸ h), fun h => ?_⟩
    cases hv.symm.trans h
  | false =>
    rw [hv, if_neg Bool.false_ne_true] at heq
    rw [heq] at hbox
    have hhere : ∀ m, table t copy.place.1 m = (table s copy.place.1 m).or
        (if m = copy.frame.frame.etherShost then some copy.place.2 else none) := by
      intro m
      rw [table, hbox, Function.update_self, lookup_handlePacket, table]
    have helse : ∀ w m, w ≠ copy.place.1 → table t w m = table s w m := by
      intro w m hw
      rw [table, hbox, Function.update_of_ne hw, table]
    refine ⟨fun {w m iface} h => ?_, fun {w m iface} h => ?_, fun _ => ?_⟩
    · by_cases hw : w = copy.place.1
      · subst hw
        rw [hhere, h, Option.some_or]
      · rw [helse w m hw, h]
    · by_cases hw : w = copy.place.1
      · subst hw
        rw [hhere, Option.or_eq_some_iff] at h
        obtain h | ⟨_, h⟩ := h
        · exact .inl h
        · obtain ⟨hm, hiface⟩ := Option.ite_none_right_eq_some.mp h
          exact .inr ⟨rfl, hv, hm, (Option.some.inj hiface).symm⟩
      · rw [helse w m hw] at h
        exact .inl h
    · rw [hhere, if_pos rfl]
      cases table s copy.place.1 copy.frame.frame.etherShost <;> exact Option.some_ne_none _

/-! ### A frame gets there -/

/-- A frame is at its addressee, or a copy of it is on its way there. -/
def OnTrack (net : Network n) (s : NetState n) : Prop :=
  ∀ (k : Nat) v (f : Timed), s.lan.sent[k]? = some (v, f) →
    ∀ b, net.host b = true → net.mac b = f.frame.etherDhost → b ≠ v →
      (∃ copy ∈ s.lan.received, copy.number = k ∧ copy.place.1 = b) ∨
        ∃ copy ∈ s.lan.flight, copy.number = k ∧ ∃ q, net.wiring.Reaches copy.place (b, q)

/-- A box on the way passes the copy on in that direction. -/
theorem Informed.passes_on (hloop : net.wiring.Loopless) (hs : net.Informed s) {copy : Copy n Timed}
    (hmem : copy ∈ s.lan.flight) {b : Fin n} (hb : net.host b = true)
    (hmac : net.mac b = copy.frame.frame.etherDhost) {q : IfaceInfo}
    (hpath : net.wiring.Reaches copy.place (b, q)) (hne : copy.place.1 ≠ b) :
    ∃ next ∈ net.route copy.place.1 (net.handled (switch s.clock) s.lan copy).1,
      net.wiring.Reaches next (b, q) := by
  obtain heq | ⟨next, hfirst, hrest⟩ := Relation.ReflTransGen.cases_head hpath
  · exact absurd (by rw [heq]) hne
  refine ⟨next, ?_, hrest⟩
  have hport := hs.wired.sound.mem_ports hmem
  have hv : net.host copy.place.1 = false := by
    cases hhost : net.host copy.place.1 with
    | false => rfl
    | true => exact absurd hfirst (Lan.not_onward_of_host hhost hport)
  rw [hs.wired.handled_eq hmem, hv, if_neg Bool.false_ne_true, handlePacket_fst]
  obtain ⟨p, hp, hpeer⟩ := hfirst
  have haway : net.wiring.Away b (copy.place.1, p) :=
    Wiring.away_of_reaches (net.wiring.peer_symm hpeer) hrest
  split
  · rename_i iface hfound
    obtain ⟨host, hhost, hhostmac, htowards⟩ := hs.towards_table hfound
    obtain rfl := net.mac_inj host b hhost hb (hhostmac.trans hmac.symm)
    obtain rfl : iface = p := (Prod.ext_iff.mp (htowards.unique hloop haway rfl)).2
    exact Lan.mem_route.mpr ⟨iface, List.mem_singleton_self _, hpeer⟩
  · rw [(hs.wired.kept _).ifaces, Lan.mem_route_broadcast hport]
    exact ⟨p, hp, hpeer⟩

theorem OnTrack.deliver (hloop : net.wiring.Loopless) (hs : net.Informed s) (hs' : net.OnTrack s)
    (h : net.Step s (.deliver i) t) : net.OnTrack t := by
  obtain ⟨lan, hlan, rfl⟩ := Option.map_eq_some_iff.mp h
  obtain ⟨copy, hcopy, hsent, hreceived, _, hflight, _⟩ := Lan.deliver_eq hlan
  have hmem := List.mem_of_getElem? hcopy
  intro k v f hk b hb hmac hne
  simp only [hsent] at hk
  simp only [hreceived, hflight]
  obtain ⟨x, hx, hnumber, hplace⟩ | ⟨x, hx, hnumber, q, hpath⟩ := hs' k v f hk b hb hmac hne
  · exact .inl ⟨x, List.mem_append_left _ hx, hnumber, hplace⟩
  obtain ⟨before, after, hsplit, herase⟩ := Lan.split_flight hcopy
  rw [hsplit] at hx
  have hstays : ∀ y, y ∈ before ∨ y ∈ after → y ∈ s.lan.flight.eraseIdx i := by
    intro y hy
    rw [herase]
    exact List.mem_append.mpr hy
  obtain hx | hx := List.mem_append.mp hx
  · exact .inr ⟨x, List.mem_append_left _ (hstays x (.inl hx)), hnumber, q, hpath⟩
  obtain rfl | hx := List.mem_cons.mp hx
  · by_cases hplace : x.place.1 = b
    · exact .inl ⟨x, List.mem_append_right _ (List.mem_singleton_self x), hnumber, hplace⟩
    · obtain ⟨u, hu⟩ := hs.wired.sound.known x (List.mem_append_right _ hmem)
      rw [hnumber, hk] at hu
      obtain ⟨_, rfl⟩ := Prod.ext_iff.mp (Option.some.inj hu)
      obtain ⟨next, hnext, hrest⟩ := hs.passes_on hloop hmem hb hmac hpath hplace
      exact .inr ⟨_, List.mem_append_right _ (List.mem_map_of_mem hnext), hnumber, q, hrest⟩
  · exact .inr ⟨x, List.mem_append_left _ (hstays x (.inr hx)), hnumber, q, hpath⟩

theorem OnTrack.send (hconn : net.wiring.Connected) (hs : net.OnTrack s) {packet : EtherFrame}
    (h : net.Step s (.send v packet) t) : net.OnTrack t := by
  simp only [Step, step] at h
  split at h <;> cases h
  intro k w f hk b hb hmac hne
  simp only [Lan.send] at hk ⊢
  rw [List.getElem?_append] at hk
  split at hk
  · obtain hold | ⟨x, hx, hrest⟩ := hs k w f hk b hb hmac hne
    · exact .inl hold
    · exact .inr ⟨x, List.mem_append_left _ hx, hrest⟩
  · rename_i hlt
    have hlast := (List.getElem?_eq_some_iff.mp hk).1
    rw [List.length_singleton] at hlast
    cases List.mem_singleton.mp (List.mem_of_getElem? hk)
    obtain ⟨q, a, hstart, hpath⟩ := hconn.exists_away hne
    have hnumber : s.lan.sent.length = k := by omega
    exact .inr ⟨_, List.mem_append_right _ (List.mem_map_of_mem (Lan.mem_route_ports.mpr hstart)), hnumber,
      q, hpath⟩

/-- Nothing is lost. -/
def Keeps : NetEvent n → Prop
  | .lose _ => False
  | _ => True

theorem onTrack_step (hloop : net.wiring.Loopless) (hconn : net.wiring.Connected) (s : NetState n)
    (e : NetEvent n) (t : NetState n) (hs : net.Informed s ∧ net.OnTrack s)
    (he : Prompt s e ∧ Keeps e) (h : net.Step s e t) : net.Informed t ∧ net.OnTrack t := by
  refine ⟨informed_step hloop hconn s e t hs.1 he.1 h, ?_⟩
  cases e with
  | tick now =>
    simp only [Step, step] at h
    split at h <;> cases h
    exact hs.2
  | send v packet => exact hs.2.send hconn h
  | deliver i => exact hs.2.deliver hloop hs.1 h
  | lose i => exact he.2.elim
  | sweep v =>
    simp only [Step, step] at h
    split at h <;> cases h
    exact hs.2

theorem onTrack (hloop : net.wiring.Loopless) (hconn : net.wiring.Connected) {clock : Int}
    {es : List (NetEvent n)} (h : Run net.Step (net.init clock) es s)
    (hprompt : Along net.Step Prompt (net.init clock) es) (hkeep : ∀ e ∈ es, Keeps e) :
    net.Informed s ∧ net.OnTrack s :=
  h.invariant (onTrack_step hloop hconn) (hprompt.and (Along.of_events hkeep _))
    ⟨informed_init clock, fun k v f hk => by simp [init, Lan.init] at hk⟩

/-- What is on track and not under way any more has arrived. -/
theorem OnTrack.mem_receipts (hs : net.Informed s) (htrack : net.OnTrack s)
    (hk : s.lan.sent[k]? = some (v, f)) (hb : net.host w = true) (hmac : net.mac w = f.frame.etherDhost)
    (hne : w ≠ v) (hdone : ∀ copy ∈ s.lan.flight, copy.number ≠ k) : f ∈ s.lan.receipts k w := by
  obtain ⟨x, hx, hnumber, hplace⟩ | ⟨x, hx, hnumber, _⟩ := htrack k v f hk w hb hmac hne
  · obtain ⟨u, hu⟩ := hs.wired.sound.known x (List.mem_append_left _ (List.mem_append_left _ hx))
    rw [hnumber, hk] at hu
    obtain ⟨_, rfl⟩ := Prod.ext_iff.mp (Option.some.inj hu)
    exact List.mem_map_of_mem (List.mem_filter.mpr ⟨hx, decide_eq_true ⟨hnumber, hplace⟩⟩)
  · exact absurd hnumber (hdone x hx)

/-- Where nothing is lost and no sweep comes while an older copy is under way than an entry
can get, a frame with no copy under way any more has come to the host it is addressed to,
as it was sent. -/
theorem frame_reaches_addressee (hloop : net.wiring.Loopless) (hconn : net.wiring.Connected) {clock : Int}
    {es : List (NetEvent n)} (h : Run net.Step (net.init clock) es s)
    (hprompt : Along net.Step Prompt (net.init clock) es) (hkeep : ∀ e ∈ es, Keeps e)
    (hk : s.lan.sent[k]? = some (v, f)) (hb : net.host w = true) (hmac : net.mac w = f.frame.etherDhost)
    (hne : w ≠ v) (hdone : ∀ copy ∈ s.lan.flight, copy.number ≠ k) : f ∈ s.lan.receipts k w := by
  obtain ⟨hs, htrack⟩ := onTrack hloop hconn h hprompt hkeep
  exact htrack.mem_receipts hs hk hb hmac hne hdone

instance : (e : NetEvent n) → Decidable (Keeps e)
  | .tick _ => isTrue trivial
  | .send _ _ => isTrue trivial
  | .deliver _ => isTrue trivial
  | .lose _ => isFalse not_false
  | .sweep _ => isTrue trivial

attribute [local instance] sixBoxes

/-- A frame from one host of the tree to another, delivered wherever it goes. -/
def deliveredRun : List (NetEvent 6) :=
  [.send 0 (between 0 1), .deliver 0, .tick 1, .deliver 0, .sweep 3, .deliver 0, .deliver 0, .deliver 0]

def deliveredEnd : NetState 6 := (runAll tree.step (tree.init 0) deliveredRun).get rfl

theorem tree_reaches_addressee : ⟨between 0 1, 0⟩ ∈ deliveredEnd.lan.receipts 0 1 :=
  frame_reaches_addressee tree_loopless tree_connected
    (Run.of_isSome (rfl : (runAll tree.step (tree.init 0) deliveredRun).isSome = true))
    (Along.of_checkAll (rfl : checkAll tree.step Prompt (tree.init 0) deliveredRun = true))
    (by decide) rfl rfl rfl (by decide) (by decide)

/-! ### Once -/

/-- No sweep, frames to others only, and of two copies on one cable the earlier comes first. -/
def Calm (s : NetState n) : NetEvent n → Prop
  | .sweep _ => False
  | .send _ packet => packet.etherDhost ≠ packet.etherShost
  | .deliver i => ∀ x ∈ s.lan.flight.take i, ∀ y, s.lan.flight[i]? = some y → x.place ≠ y.place
  | _ => True

instance (s : NetState n) : (e : NetEvent n) → Decidable (Calm s e)
  | .tick _ => isTrue trivial
  | .send _ _ => inferInstanceAs (Decidable (_ ≠ _))
  | .deliver i =>
    inferInstanceAs (Decidable (∀ x ∈ s.lan.flight.take i, ∀ y, s.lan.flight[i]? = some y → x.place ≠ y.place))
  | .lose _ => isTrue trivial
  | .sweep _ => isFalse not_false

theorem Calm.prompt {e : NetEvent n} (h : Calm s e) : Prompt s e := by
  cases e with
  | sweep v => exact h.elim
  | _ => trivial

/-- What keeps copies from coming back. -/
structure Orderly (net : Network n) (s : NetState n) : Prop where
  polite : ∀ (k : Nat) v (f : Timed), s.lan.sent[k]? = some (v, f) → f.frame.etherDhost ≠ f.frame.etherShost
  away : ∀ copy ∈ s.lan.flight, ∀ v, s.lan.sent[copy.number]? = some (v, copy.frame) →
    net.wiring.Away v copy.place
  known : ∀ copy ∈ s.lan.flight, ∀ u, net.wiring.peer copy.place.1 copy.place.2 = some u →
    net.host u.1 = false → table s u.1 copy.frame.frame.etherShost ≠ none
  learnt : ∀ v m iface, table s v m = some iface → ∀ u, net.wiring.peer v iface = some u →
    net.host u.1 = false → table s u.1 m ≠ none
  clear : ∀ copy ∈ s.lan.flight, table s copy.place.1 copy.frame.frame.etherDhost ≠ some copy.place.2
  order : s.lan.flight.Pairwise fun x y =>
    x.place = y.place → x.frame.frame.etherShost ≠ y.frame.frame.etherDhost
  once : Lan.Each (fun v x => x.Once net.wiring v) s.lan

/-- Out of a host's interface comes only what it has sent itself. -/
theorem eq_of_away_host {a : Fin n × IfaceInfo} {iface : IfaceInfo}
    (hpeer : net.wiring.peer v iface = some a) (hv : net.host v = true) (h : net.wiring.Away w a) : w = v := by
  obtain ⟨p, hs⟩ | ⟨e, he, hstep⟩ := h.cases_last
  · exact (Prod.ext_iff.mp (Wiring.peer_inj hs hpeer)).1
  · have hport : e.2 ∈ net.wiring.ports e.1 := net.wiring.mem_ports he.peer.choose_spec
    obtain ⟨q, _, hback⟩ := hstep.peer
    rw [net.wiring.peer_symm hpeer] at hback
    have hhost : net.host e.1 = true := by
      rw [← (Prod.ext_iff.mp (Option.some.inj hback)).1]
      exact hv
    exact absurd hstep (Lan.not_onward_of_host hhost hport)

/-- The sender of a copy under way. -/
theorem Orderly.sender (hs : net.Informed s) (ho : net.Orderly s) {copy : Copy n Timed}
    (hmem : copy ∈ s.lan.flight) : ∃ a, s.lan.sent[copy.number]? = some (a, copy.frame) ∧
      net.host a = true ∧ copy.frame.frame.etherShost = net.mac a ∧ net.wiring.Away a copy.place := by
  obtain ⟨a, ha, hhost, hsource, _⟩ := hs.sender hmem
  exact ⟨a, ha, hhost, hsource, ho.away copy hmem a ha⟩

/-- What comes in goes out of other interfaces. -/
theorem Orderly.onward (hs : net.Informed s) (ho : net.Orderly s) {copy : Copy n Timed}
    (hmem : copy ∈ s.lan.flight) :
    ∀ b ∈ net.route copy.place.1 (net.handled (switch s.clock) s.lan copy).1,
      net.wiring.Onward copy.place b := by
  intro b hb
  obtain ⟨_, p, hpeer, htable | ⟨_, hp⟩⟩ := (hs.wired.out hmem).2 b hb
  · exact ⟨p, fun hp => ho.clear copy hmem (hp ▸ htable), hpeer⟩
  · exact ⟨p, hp, hpeer⟩

/-- Beyond an interface a switch sends frames for an address from, there is no entry for the
address that is for this cable, and no copy on it from the address. -/
theorem Orderly.ahead (hloop : net.wiring.Loopless) (hs : net.Informed s) (ho : net.Orderly s) {p : IfaceInfo}
    {b : Fin n × IfaceInfo} {m : Mac} (hv : net.host v = false) (hpeer : net.wiring.peer v p = some b)
    (htable : table s v m = none ∨ table s v m = some p) :
    table s b.1 m ≠ some b.2 ∧
      ∀ x ∈ s.lan.flight, x.place = b → x.frame.frame.etherShost ≠ m := by
  have hback := net.wiring.peer_symm hpeer
  have htowards : table s v m ≠ none → ∃ host, net.host host = true ∧ net.mac host = m ∧
      net.wiring.Away host (v, p) := fun hne => hs.towards_table (htable.resolve_left hne)
  constructor
  · intro hentry
    obtain ⟨host, hhost, hmac, haway⟩ := htowards (ho.learnt b.1 m b.2 hentry (v, p) hback hv)
    obtain ⟨host', hhost', hmac', haway'⟩ := hs.towards_table hentry
    obtain rfl := net.mac_inj host host' hhost hhost' (hmac.trans hmac'.symm)
    exact haway'.not_reverse hloop hback haway
  · intro x hx hplace hsource
    subst hplace
    obtain ⟨a, _, hhosta, hmaca, hawaya⟩ := ho.sender hs hx
    have hknown := ho.known x hx (v, p) hback hv
    rw [hsource] at hknown
    obtain ⟨host, hhost, hmac, haway⟩ := htowards hknown
    obtain rfl := net.mac_inj host a hhost hhosta (hmac.trans (hsource.symm.trans hmaca))
    exact hawaya.not_reverse hloop hback haway

/-- Where a copy goes on to, there is no entry for its addressee that is for this cable, and
no copy on it from the addressee. -/
theorem Orderly.ahead_out (hloop : net.wiring.Loopless) (hs : net.Informed s) (ho : net.Orderly s)
    {copy : Copy n Timed} (hmem : copy ∈ s.lan.flight) {b : Fin n × IfaceInfo}
    (hb : b ∈ net.route copy.place.1 (net.handled (switch s.clock) s.lan copy).1) :
    table s b.1 copy.frame.frame.etherDhost ≠ some b.2 ∧
      ∀ x ∈ s.lan.flight, x.place = b → x.frame.frame.etherShost ≠ copy.frame.frame.etherDhost := by
  obtain ⟨hv, p, hpeer, htable⟩ := (hs.wired.out hmem).2 b hb
  exact ho.ahead hloop hs hv hpeer (htable.symm.imp_left And.left)

/-- No copy behind another on a cable is addressed to the sender of the first. -/
theorem Orderly.behind (ho : net.Orderly s) (hcalm : Calm s (.deliver i)) {copy x : Copy n Timed}
    (hcopy : s.lan.flight[i]? = some copy) (hx : x ∈ s.lan.flight.eraseIdx i) (hplace : x.place = copy.place) :
    copy.frame.frame.etherShost ≠ x.frame.frame.etherDhost := by
  rw [List.eraseIdx_eq_take_drop_succ] at hx
  obtain hx | hx := List.mem_append.mp hx
  · exact absurd hplace (hcalm x hx copy hcopy)
  · have horder := ho.order
    obtain ⟨hi, hget⟩ := List.getElem?_eq_some_iff.mp hcopy
    rw [← List.take_append_drop i s.lan.flight, ← List.getElem_cons_drop hi, hget] at horder
    exact List.rel_of_pairwise_cons (List.pairwise_append.mp horder).2.1 hx hplace.symm

theorem Orderly.deliver (hloop : net.wiring.Loopless) (hs : net.Informed s) (ho : net.Orderly s)
    (hcalm : Calm s (.deliver i)) (h : net.Step s (.deliver i) t) : net.Orderly t := by
  obtain ⟨lan, hlan, rfl⟩ := Option.map_eq_some_iff.mp h
  obtain ⟨copy, hcopy, hsent, hreceived, hlost, hflight, hbox⟩ := Lan.deliver_eq hlan
  have hmem := List.mem_of_getElem? hcopy
  have hh := hs.wired.handled (t := { s with lan := lan }) hmem hbox
  obtain ⟨a, ha, _, _, haway⟩ := ho.sender hs hmem
  have herase : ∀ c ∈ s.lan.flight.eraseIdx i, c ∈ s.lan.flight := fun c hc => List.mem_of_mem_eraseIdx hc
  have hout := ho.onward hs hmem
  refine ⟨hsent ▸ ho.polite, ?_, ?_, ?_, ?_, ?_, ?_⟩
  · intro c hc v hk
    simp only [hflight, hsent] at hc hk
    obtain hc | hc := List.mem_append.mp hc
    · exact ho.away c (herase c hc) v hk
    · obtain ⟨b, hb, rfl⟩ := List.mem_map.mp hc
      rw [ha] at hk
      obtain rfl := (Prod.ext_iff.mp (Option.some.inj hk)).1
      exact haway.onward (hout b hb)
  · intro c hc u hu hhostu
    simp only [hflight] at hc
    obtain hc | hc := List.mem_append.mp hc
    · obtain ⟨iface, htable⟩ := Option.ne_none_iff_exists'.mp (ho.known c (herase c hc) u hu hhostu)
      exact hh.keep htable ▸ Option.some_ne_none _
    · obtain ⟨b, hb, rfl⟩ := List.mem_map.mp hc
      obtain ⟨hv, p, hpeer, _⟩ := (hs.wired.out hmem).2 b hb
      rw [net.wiring.peer_symm hpeer] at hu
      obtain rfl := Option.some.inj hu
      exact hh.learn hv
  · intro w m iface htable u hu hhostu
    have hknown : table s u.1 m ≠ none → table { s with lan := lan } u.1 m ≠ none := by
      intro hne
      obtain ⟨found, hfound⟩ := Option.ne_none_iff_exists'.mp hne
      exact hh.keep hfound ▸ Option.some_ne_none _
    obtain hold | ⟨rfl, _, rfl, rfl⟩ := hh.cases htable
    · exact hknown (ho.learnt w m iface hold u hu hhostu)
    · exact hknown (ho.known copy hmem u hu hhostu)
  · intro c hc hentry
    simp only [hflight] at hc
    obtain hc | hc := List.mem_append.mp hc
    · obtain hold | ⟨hbox, _, hdest, hiface⟩ := hh.cases hentry
      · exact ho.clear c (herase c hc) hold
      · exact ho.behind hcalm hcopy hc (Prod.ext hbox hiface) hdest.symm
    · obtain ⟨b, hb, rfl⟩ := List.mem_map.mp hc
      obtain hold | ⟨hbox, _⟩ := hh.cases hentry
      · exact (ho.ahead_out hloop hs hmem hb).1 hold
      · have hsame := haway.unique hloop (haway.onward (hout b hb)) hbox.symm
        exact hloop copy.place (.single (hsame ▸ hout b hb))
  · simp only [hflight]
    refine List.pairwise_append.mpr ⟨ho.order.sublist (List.eraseIdx_sublist ..), ?_, ?_⟩
    · refine List.pairwise_map.mpr ((hs.wired.out hmem).1.imp ?_)
      intro b b' hne heq
      exact absurd heq hne
    · intro x hx y hy hplace hsource
      obtain ⟨b, hb, rfl⟩ := List.mem_map.mp hy
      exact (ho.ahead_out hloop hs hmem hb).2 x (herase x hx) hplace hsource
  · refine ho.once.deliver hlan fun c hc v x y hx hd => ?_
    exact hx.deliver hloop hd (hs.wired.out hc).1 (ho.onward hs hc)

theorem Orderly.send (hs : net.Informed s) (ho : net.Orderly s)
    {packet : EtherFrame} (hcalm : Calm s (.send v packet)) (h : net.Step s (.send v packet) t) :
    net.Orderly t := by
  simp only [Step, step] at h
  split at h <;> cases h
  rename_i hsend
  obtain ⟨hv, hmac⟩ := hsend
  have hnew : ∀ {a : Fin n × IfaceInfo}, a ∈ net.route v (net.wiring.ports v) →
      ∃ p, net.wiring.peer v p = some a := fun ha => Lan.mem_route_ports.mp ha
  have hold : ∀ {c}, c ∈ s.lan.flight → (s.lan.sent ++ [(v, ⟨packet, s.clock⟩)])[c.number]? =
      s.lan.sent[c.number]? := by
    intro c hc
    obtain ⟨_, hx⟩ := hs.wired.sound.known c (List.mem_append_right _ hc)
    exact List.getElem?_append_left (List.getElem?_eq_some_iff.mp hx).1
  refine ⟨?_, ?_, ?_, ho.learnt, ?_, ?_, ?_⟩
  · intro k w f hk
    simp only [Lan.send] at hk
    rw [List.getElem?_append] at hk
    split at hk
    · exact ho.polite k w f hk
    · cases List.mem_singleton.mp (List.mem_of_getElem? hk)
      exact hcalm
  · intro c hc w hk
    simp only [Lan.send] at hc hk
    obtain hc | hc := List.mem_append.mp hc
    · rw [hold hc] at hk
      exact ho.away c hc w hk
    · obtain ⟨a, ha, rfl⟩ := List.mem_map.mp hc
      rw [List.getElem?_concat_length] at hk
      obtain rfl := (Prod.ext_iff.mp (Option.some.inj hk)).1
      exact .head (Lan.mem_route_ports.mp ha)
  · intro c hc u hu hhostu
    obtain hc | hc := List.mem_append.mp hc
    · exact ho.known c hc u hu hhostu
    · obtain ⟨a, ha, rfl⟩ := List.mem_map.mp hc
      obtain ⟨p, hpeer⟩ := hnew ha
      rw [net.wiring.peer_symm hpeer] at hu
      obtain rfl := Option.some.inj hu
      cases hhostu.symm.trans hv
  · intro c hc hentry
    obtain hc | hc := List.mem_append.mp hc
    · exact ho.clear c hc hentry
    · obtain ⟨a, ha, rfl⟩ := List.mem_map.mp hc
      obtain ⟨p, hpeer⟩ := hnew ha
      obtain ⟨host, _, hhostmac, haway⟩ := hs.towards_table hentry
      obtain rfl := eq_of_away_host hpeer hv haway
      exact hcalm (hhostmac.symm.trans hmac.symm)
  · refine List.pairwise_append.mpr ⟨ho.order, ?_, ?_⟩
    · refine List.pairwise_map.mpr ((Lan.route_nodup (net.wiring.ports_nodup v)).imp ?_)
      intro b b' hne heq
      exact absurd heq hne
    · intro x hx y hy hplace hsource
      obtain ⟨a, ha, rfl⟩ := List.mem_map.mp hy
      obtain ⟨p, hpeer⟩ := hnew ha
      obtain ⟨b, _, _, hmacb, hawayb⟩ := ho.sender hs hx
      obtain rfl := eq_of_away_host hpeer hv (hplace ▸ hawayb)
      exact hcalm (hsource.symm.trans (hmacb.trans hmac.symm))
  · refine ho.once.send hs.wired.sound v _ ?_
    exact .init (Lan.route_nodup (net.wiring.ports_nodup v)) fun a ha => Lan.mem_route_ports.mp ha

theorem Orderly.lose (ho : net.Orderly s) (h : net.Step s (.lose i) t) : net.Orderly t := by
  obtain ⟨lan, hlan, rfl⟩ := Option.map_eq_some_iff.mp h
  have honce := ho.once.lose hlan fun a v x y hx hl => hx.lose hl
  obtain ⟨copy, _, rfl⟩ := Lan.lose_eq hlan
  have herase : ∀ c ∈ s.lan.flight.eraseIdx i, c ∈ s.lan.flight := fun c hc => List.mem_of_mem_eraseIdx hc
  exact ⟨ho.polite, fun c hc => ho.away c (herase c hc), fun c hc => ho.known c (herase c hc), ho.learnt,
    fun c hc => ho.clear c (herase c hc), ho.order.sublist (List.eraseIdx_sublist ..), honce⟩

theorem orderly_step (hloop : net.wiring.Loopless) (hconn : net.wiring.Connected) (s : NetState n)
    (e : NetEvent n) (t : NetState n) (hs : net.Informed s ∧ net.Orderly s) (hcalm : Calm s e)
    (h : net.Step s e t) : net.Informed t ∧ net.Orderly t := by
  refine ⟨informed_step hloop hconn s e t hs.1 hcalm.prompt h, ?_⟩
  cases e with
  | tick now =>
    simp only [Step, step] at h
    split at h <;> cases h
    exact ⟨hs.2.polite, hs.2.away, hs.2.known, hs.2.learnt, hs.2.clear, hs.2.order, hs.2.once⟩
  | send v packet => exact hs.2.send hs.1 hcalm h
  | deliver i => exact hs.2.deliver hloop hs.1 hcalm h
  | lose i => exact hs.2.lose h
  | sweep v => exact hcalm.elim

theorem orderly_init (clock : Int) : net.Orderly (net.init clock) where
  polite k v f hk := by simp [init, Lan.init] at hk
  away copy hmem := absurd hmem List.not_mem_nil
  known copy hmem := absurd hmem List.not_mem_nil
  learnt v m iface h := by cases h
  clear copy hmem := absurd hmem List.not_mem_nil
  order := List.Pairwise.nil
  once := Lan.each_init _

/-- Over cables that keep the order of frames, and before any sweep, no box gets a frame
twice, the sender does not get it, and if nothing is lost the host it is addressed to gets
it exactly once. -/
theorem frame_delivered_once (hloop : net.wiring.Loopless) (hconn : net.wiring.Connected) {clock : Int}
    {es : List (NetEvent n)} (h : Run net.Step (net.init clock) es s)
    (hcalm : Along net.Step Calm (net.init clock) es) (hk : s.lan.sent[k]? = some (v, f)) :
    (∀ w, (s.lan.receipts k w).length ≤ if w = v then 0 else 1) ∧
      ((∀ e ∈ es, Keeps e) → (∀ copy ∈ s.lan.flight, copy.number ≠ k) →
        ∀ w, net.host w = true → net.mac w = f.frame.etherDhost → w ≠ v → s.lan.receipts k w = [f]) := by
  obtain ⟨hs, ho⟩ := h.invariant (orderly_step hloop hconn) hcalm ⟨informed_init clock, orderly_init clock⟩
  have hle := Lan.length_receipts_le hloop (ho.once k v f hk)
  refine ⟨hle, fun hkeep hdone w hw hmac hne => ?_⟩
  obtain ⟨_, htrack⟩ := onTrack hloop hconn h (hcalm.mono fun _ _ => Calm.prompt) hkeep
  have hmem := htrack.mem_receipts hs hk hw hmac hne hdone
  have hpos := List.length_pos_of_mem hmem
  have hone := hle w
  rw [if_neg hne] at hone
  obtain ⟨g, hg⟩ := List.length_eq_one_iff.mp (by omega : (s.lan.receipts k w).length = 1)
  rw [hg] at hmem ⊢
  rw [List.mem_singleton.mp hmem]

/-- The same frame, in order and without the sweep. -/
def calmRun : List (NetEvent 6) :=
  [.send 0 (between 0 1), .deliver 0, .deliver 0, .deliver 0, .deliver 0, .deliver 0]

def calmEnd : NetState 6 := (runAll tree.step (tree.init 0) calmRun).get rfl

theorem tree_delivered_once :
    (∀ w, (calmEnd.lan.receipts 0 w).length ≤ if w = 0 then 0 else 1) ∧
      calmEnd.lan.receipts 0 1 = [⟨between 0 1, 0⟩] := by
  have hrun : Run tree.Step (tree.init 0) calmRun calmEnd :=
    Run.of_isSome (rfl : (runAll tree.step (tree.init 0) calmRun).isSome = true)
  obtain ⟨honce, hwhole⟩ :=
    frame_delivered_once (k := 0) (v := 0) (f := ⟨between 0 1, 0⟩) tree_loopless tree_connected
      hrun (Along.of_checkAll (rfl : checkAll tree.step Calm (tree.init 0) calmRun = true)) rfl
  exact ⟨honce, hwhole (by decide) (by decide) 1 rfl rfl (by decide)⟩

end NetStack.Switching.Network
