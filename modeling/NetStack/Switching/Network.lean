import NetStack.Switching.Ageing
import NetStack.Switching.Lan
import Mathlib.Tactic.FinCases

/-! Networks of learning switches (`EXP05-Switch_Net`).

Hosts send under their own addresses, copies come in any order or are lost, and the tables
are swept. `handle_packet` does not ask whether the entry it finds is for the interface the
frame came in on, so a copy can be sent back to where it came from, and so towards its
source. It finds its source known there all the same, unless it has been under way for
longer than an entry lasts (`Informed`): with that excluded, every entry of every switch is
for the interface towards its host. -/
namespace NetStack.Switching

/-- A frame, and when it was sent. -/
structure Timed where
  frame : EtherFrame
  sentAt : Int
deriving DecidableEq

/-- A LAN whose hosts have addresses of their own. -/
structure Network (n : Nat) extends Lan n where
  mac : Fin n → Mac
  mac_inj : ∀ v w, host v = true → host w = true → mac v = mac w → v = w

structure NetState (n : Nat) where
  lan : LanState n Switch Timed
  clock : Int

inductive NetEvent (n : Nat)
  | tick (now : Int)
  | send (v : Fin n) (packet : EtherFrame)
  | deliver (i : Nat)
  | lose (i : Nat)
  | sweep (v : Fin n)

/-- The body of the loop of `ustack_run`, for a frame read from a descriptor. -/
def ustackRun (s : Switch) (fd : Int) (packet : EtherFrame) (now : Int) : List IfaceInfo × Switch :=
  match fdToIface s.ifaceList fd with
  | none => ([], s)
  | some iface => handlePacket s iface packet now

namespace Network

variable {n : Nat} (net : Network n)

/-- A switch in a network. -/
def switch (now : Int) (_ : Fin n) (s : Switch) (iface : IfaceInfo) (f : Timed) : List IfaceInfo × Switch :=
  ustackRun s iface.fd f.frame now

def init (clock : Int) : NetState n := ⟨Lan.init fun v => start (net.wiring.ports v), clock⟩

/-- The clock goes on; a host sends a frame with its own address as the source; a box gets
a copy; a copy is lost; or a switch sweeps its table. -/
def step (s : NetState n) : NetEvent n → Option (NetState n)
  | .tick now => if s.clock ≤ now then some { s with clock := now } else none
  | .send v packet =>
    if net.host v ∧ packet.etherShost = net.mac v then
      some { s with lan := net.toLan.send s.lan v ⟨packet, s.clock⟩ }
    else none
  | .deliver i => (net.deliver (switch s.clock) s.lan i).map ({ s with lan := · })
  | .lose i => (s.lan.lose i).map ({ s with lan := · })
  | .sweep v =>
    if net.host v then none
    else
      let box := s.lan.box v
      let box := { box with map := (sweepAgedMacPortEntry box.map s.clock).2 }
      some { s with lan := { s.lan with box := Function.update s.lan.box v box } }

def Step (s : NetState n) (e : NetEvent n) (t : NetState n) : Prop := net.step s e = some t

/-- No sweep comes while a copy is under way that was sent longer ago than an entry lasts. -/
def Prompt (s : NetState n) : NetEvent n → Prop
  | .sweep _ => ∀ copy ∈ s.lan.flight, s.clock - copy.frame.sentAt ≤ macPortTimeout
  | _ => True

/-- An entry is for the interface on which what its host sends arrives. -/
def Towards (v : Fin n) (entry : MacPortEntry) : Prop :=
  ∃ h, net.host h = true ∧ net.mac h = entry.mac ∧ net.wiring.Away h (v, entry.iface)

/-! ### The way a copy has come -/

/-- The arrival `e` is on the way from `v` to the box from which `d` is an arrival. -/
def Behind (v : Fin n) (d e : Fin n × IfaceInfo) : Prop :=
  net.wiring.Away v e ∧
    (Relation.TransGen net.wiring.Onward e d ∨
      ∃ back, net.wiring.peer d.1 d.2 = some back ∧ net.wiring.Reaches e back)

variable {net : Network n} {v w : Fin n} {a b d e : Fin n × IfaceInfo} {iface : IfaceInfo}

/-- Behind what a host itself has sent there is nothing. -/
theorem not_behind_start (hloop : net.wiring.Loopless) (hd : net.wiring.Starts v d) :
    ¬net.Behind v d e := by
  intro hyp
  obtain ⟨p, hp⟩ := hd
  obtain ⟨haway, hpath | ⟨back, hback, hpath⟩⟩ := hyp
  · obtain ⟨c, hc, q, _, hlast⟩ := Relation.TransGen.tail'_iff.mp hpath
    have hbox := (Prod.ext_iff.mp (Wiring.peer_inj hlast hp)).1
    exact (haway.reaches hc).ne hloop hbox
  · rw [net.wiring.peer_symm hp] at hback
    obtain rfl := Option.some.inj hback
    exact (haway.reaches hpath).ne hloop rfl

/-- What is on the way to the box that `d` comes to is behind `d`, or is the box itself. -/
theorem behind_of_reaches {back : Fin n × IfaceInfo} (hback : net.wiring.peer d.1 d.2 = some back)
    (haway : net.wiring.Away v e) (hpath : net.wiring.Reaches e a) (hbox : a.1 = d.1) :
    e.1 = d.1 ∨ net.Behind v d e := by
  by_cases hport : a.2 = d.2
  · obtain rfl : a = d := Prod.ext hbox hport
    obtain rfl | htrans := Relation.reflTransGen_iff_eq_or_transGen.mp hpath
    · exact .inl rfl
    · exact .inr ⟨haway, .inl htrans⟩
  · have hstep : net.wiring.Onward a back := ⟨d.2, Ne.symm hport, by rw [hbox]; exact hback⟩
    exact .inr ⟨haway, .inr ⟨back, hback, .tail hpath hstep⟩⟩

/-- Passing a copy on, out of whichever interface, puts no more than the box behind it. -/
theorem behind_next {back : Fin n × IfaceInfo} (hback : net.wiring.peer d.1 d.2 = some back)
    (hpeer : net.wiring.peer d.1 iface = some b) (h : net.Behind v b e) :
    e.1 = d.1 ∨ net.Behind v d e := by
  obtain ⟨haway, hpath | ⟨back', hback', hpath⟩⟩ := h
  · obtain ⟨c, hc, q, _, hlast⟩ := Relation.TransGen.tail'_iff.mp hpath
    exact behind_of_reaches hback haway hc (Prod.ext_iff.mp (Wiring.peer_inj hlast hpeer)).1
  · rw [net.wiring.peer_symm hpeer] at hback'
    obtain rfl := Option.some.inj hback'
    exact behind_of_reaches hback haway hpath rfl

/-- A copy comes to a box on the interface towards its sender, or comes back to a box that
is behind it. -/
theorem away_or_behind (hconn : net.wiring.Connected) {back : Fin n × IfaceInfo}
    (hback : net.wiring.peer d.1 d.2 = some back) (hne : d.1 ≠ v) :
    net.wiring.Away v d ∨ ∃ e, e.1 = d.1 ∧ net.Behind v d e := by
  obtain ⟨q, hq⟩ := hconn.exists_away hne
  by_cases hport : q = d.2
  · subst hport
    exact .inl hq
  · have hstep : net.wiring.Onward (d.1, q) back := ⟨d.2, Ne.symm hport, hback⟩
    exact .inr ⟨(d.1, q), rfl, hq, .inr ⟨back, hback, .single hstep⟩⟩

/-! ### What a frame does to a table -/

/-- The switch has an entry for the address, visited since a time. -/
def Knows (box : Switch) (m : Mac) (since : Int) : Prop :=
  ∃ entry ∈ box.map.entries, entry.mac = m ∧ since ≤ entry.visited

variable {box : Switch} {packet : EtherFrame} {now : Int}

theorem Knows.handlePacket {m : Mac} {since : Int} (hplaced : Placed box.map)
    (hpast : ∀ entry ∈ box.map.entries, entry.visited ≤ now) (h : Knows box m since) :
    Knows (handlePacket box iface packet now).2 m since := by
  obtain ⟨old, hold, rfl, hsince⟩ := h
  refine ⟨_, (mem_handlePacket hplaced iface packet now).mpr (.inl ⟨old, hold, rfl⟩), ?_⟩
  split
  · exact ⟨rfl, Int.le_trans hsince (hpast old hold)⟩
  · exact ⟨rfl, hsince⟩

/-- After its frame the source is known. -/
theorem knows_source (hplaced : Placed box.map) :
    Knows (handlePacket box iface packet now).2 packet.etherShost now := by
  by_cases hknown : ∃ old ∈ box.map.entries, old.mac = packet.etherShost
  · obtain ⟨old, hold, hmac⟩ := hknown
    refine ⟨_, (mem_handlePacket hplaced iface packet now).mpr (.inl ⟨old, hold, rfl⟩), ?_⟩
    rw [if_pos (.inl hmac.symm)]
    exact ⟨hmac, Int.le_refl _⟩
  · have hnew : ∀ old ∈ box.map.entries, old.mac ≠ packet.etherShost :=
      fun old hold hmac => hknown ⟨old, hold, hmac⟩
    exact ⟨_, (mem_handlePacket hplaced iface packet now).mpr (.inr ⟨hnew, rfl⟩), rfl, Int.le_refl _⟩

/-- What a sweep leaves: what was visited within the timeout. -/
theorem Knows.sweep {m : Mac} {since : Int} (hpast : ∀ entry ∈ box.map.entries, entry.visited ≤ now)
    (hsince : now - since ≤ macPortTimeout) (h : Knows box m since) :
    Knows { box with map := (sweepAgedMacPortEntry box.map now).2 } m since := by
  obtain ⟨entry, hmem, hmac, hle⟩ := h
  refine ⟨entry, mem_sweep.mpr ⟨hmem, ?_⟩, hmac, hle⟩
  have hlimit : macPortTimeout = 30 := rfl
  have hvisited := hpast entry hmem
  have hsame : toCInt (now - entry.visited) = now - entry.visited := toCInt_eq (by omega) (by omega)
  rw [MacPortEntry.aged, decide_eq_false_iff_not]
  omega

/-! ### Every state -/

/-- A box whose table is in order. -/
structure Kept (net : Network n) (clock : Int) (v : Fin n) (box : Switch) : Prop where
  ifaces : box.ifaceList = net.wiring.ports v
  placed : Placed box.map
  past : ∀ entry ∈ box.map.entries, entry.visited ≤ clock

theorem kept_start (clock : Int) (v : Fin n) : net.Kept clock v (start (net.wiring.ports v)) where
  ifaces := rfl
  placed := placed_init
  past entry hmem := by
    obtain ⟨j, hj⟩ := MacPortMap.mem_entries.mp hmem
    exact absurd hj List.not_mem_nil

theorem Kept.handlePacket (h : net.Kept now v box) :
    net.Kept now v (handlePacket box iface packet now).2 where
  ifaces := h.ifaces
  placed := h.placed.handlePacket _ _ _
  past entry hentry := by
    obtain ⟨old, hold, rfl⟩ | ⟨_, rfl⟩ := (mem_handlePacket h.placed _ _ _).mp hentry
    · have hpast := h.past old hold
      split
      · exact Int.le_refl _
      · exact hpast
    · exact Int.le_refl _

theorem Kept.sweep (h : net.Kept now v box) :
    net.Kept now v { box with map := (sweepAgedMacPortEntry box.map now).2 } where
  ifaces := h.ifaces
  placed := h.placed.sweep _
  past entry hentry := h.past entry (mem_sweep.mp hentry).1

theorem Kept.tick {later : Int} (hle : now ≤ later) (h : net.Kept now v box) : net.Kept later v box :=
  ⟨h.ifaces, h.placed, fun entry hentry => Int.le_trans (h.past entry hentry) hle⟩

structure Wired (net : Network n) (s : NetState n) : Prop where
  sound : Lan.Sound net.toLan s.lan
  kept : ∀ v, net.Kept s.clock v (s.lan.box v)

variable {s t : NetState n} {i : Nat}

/-- A host keeps what it gets; a switch handles it. -/
theorem Wired.handled_eq (hs : net.Wired s) {copy : Copy n Timed} (hmem : copy ∈ s.lan.flight) :
    net.handled (switch s.clock) s.lan copy =
      if net.host copy.place.1 then ([], s.lan.box copy.place.1)
      else Switching.handlePacket (s.lan.box copy.place.1) copy.place.2 copy.frame.frame s.clock := by
  rw [Lan.handled]
  split
  · rfl
  · rw [switch, ustackRun, (hs.kept _).ifaces, Lan.fdToIface_fd (hs.sound.mem_ports hmem)]

theorem wired_init (clock : Int) : net.Wired (net.init clock) := ⟨Lan.sound_init _ _, kept_start clock⟩

theorem Wired.step (hs : net.Wired s) {e : NetEvent n} (h : net.Step s e t) : net.Wired t := by
  cases e with
  | tick now =>
    simp only [Step, Network.step] at h
    split at h <;> cases h
    exact ⟨hs.sound, fun v => (hs.kept v).tick ‹_›⟩
  | send v packet =>
    simp only [Step, Network.step] at h
    split at h <;> cases h
    exact ⟨hs.sound.send v _, hs.kept⟩
  | deliver i =>
    obtain ⟨lan, hlan, rfl⟩ := Option.map_eq_some_iff.mp h
    obtain ⟨copy, hcopy, _, _, _, _, hbox⟩ := Lan.deliver_eq hlan
    refine ⟨hs.sound.deliver hlan, ?_⟩
    simp only [hbox, hs.handled_eq (List.mem_of_getElem? hcopy)]
    refine (Function.forall_update_iff _ fun v (box : Switch) => net.Kept s.clock v box).mpr
      ⟨?_, fun v _ => hs.kept v⟩
    split
    · exact hs.kept _
    · exact (hs.kept _).handlePacket
  | lose i =>
    obtain ⟨lan, hlan, rfl⟩ := Option.map_eq_some_iff.mp h
    have hsound := hs.sound.lose hlan
    obtain ⟨_, _, rfl⟩ := Lan.lose_eq hlan
    exact ⟨hsound, hs.kept⟩
  | sweep v =>
    simp only [Step, Network.step] at h
    split at h <;> cases h
    exact ⟨⟨hs.sound.known, hs.sound.linked⟩,
      (Function.forall_update_iff _ fun w (box : Switch) => net.Kept s.clock w box).mpr
        ⟨(hs.kept v).sweep, fun w _ => hs.kept w⟩⟩

/-- Entries are right, and what a copy has passed knows where it came from. -/
structure Informed (net : Network n) (s : NetState n) : Prop where
  wired : net.Wired s
  honest : ∀ (k : Nat) v (f : Timed), s.lan.sent[k]? = some (v, f) →
    net.host v = true ∧ f.frame.etherShost = net.mac v ∧ f.sentAt ≤ s.clock
  towards : ∀ v, ∀ entry ∈ (s.lan.box v).map.entries, net.Towards v entry
  behind : ∀ copy ∈ s.lan.flight, ∀ v, s.lan.sent[copy.number]? = some (v, copy.frame) →
    ∀ e, net.Behind v copy.place e → Knows (s.lan.box e.1) (net.mac v) copy.frame.sentAt

theorem informed_init (clock : Int) : net.Informed (net.init clock) where
  wired := wired_init clock
  honest k v f h := by simp [init, Lan.init] at h
  towards v entry hmem := by
    obtain ⟨j, hj⟩ := MacPortMap.mem_entries.mp hmem
    exact absurd hj List.not_mem_nil
  behind copy hmem := absurd hmem List.not_mem_nil

/-- The sender of a copy under way. -/
theorem Informed.sender (hs : net.Informed s) {copy : Copy n Timed} (hmem : copy ∈ s.lan.flight) :
    ∃ a, s.lan.sent[copy.number]? = some (a, copy.frame) ∧ net.host a = true ∧
      copy.frame.frame.etherShost = net.mac a ∧ copy.frame.sentAt ≤ s.clock := by
  obtain ⟨a, ha⟩ := hs.wired.sound.known copy (List.mem_append_right _ hmem)
  exact ⟨a, ha, hs.honest _ _ _ ha⟩

/-- What a switch learns from a copy is right: either the copy is on its way from its sender,
or the switch has handled one before. -/
theorem Informed.towards_handlePacket (hconn : net.wiring.Connected) (hs : net.Informed s)
    {copy : Copy n Timed} (hmem : copy ∈ s.lan.flight) (hv : net.host copy.place.1 = false)
    (entry : MacPortEntry)
    (hentry : entry ∈ (Switching.handlePacket (s.lan.box copy.place.1) copy.place.2 copy.frame.frame
      s.clock).2.map.entries) : net.Towards copy.place.1 entry := by
  obtain ⟨a, ha, hhost, hsource, _⟩ := hs.sender hmem
  obtain ⟨back, hback⟩ := hs.wired.sound.linked copy hmem
  obtain ⟨old, hold, rfl⟩ | ⟨hnew, rfl⟩ := (mem_handlePacket (hs.wired.kept _).placed _ _ _).mp hentry
  · have hright := hs.towards _ old hold
    split <;> exact hright
  · have hne : copy.place.1 ≠ a := fun heq => by rw [heq, hhost] at hv; cases hv
    obtain haway | ⟨e, he, hbehind⟩ := away_or_behind hconn hback hne
    · exact ⟨a, hhost, hsource.symm, haway⟩
    · obtain ⟨old, hold, hmac, _⟩ := hs.behind copy hmem a ha e hbehind
      rw [he] at hold
      exact absurd (hmac.trans hsource.symm) (hnew old hold)

/-- A delivery keeps what is known, and after it the box knows the source. -/
theorem Informed.knows_deliver (hs : net.Informed s) {copy : Copy n Timed} {m : Mac} {since : Int}
    (h : Knows (s.lan.box w) m since ∨
      w = copy.place.1 ∧ m = copy.frame.frame.etherShost ∧ since ≤ s.clock) :
    Knows (Function.update s.lan.box copy.place.1
      (Switching.handlePacket (s.lan.box copy.place.1) copy.place.2 copy.frame.frame s.clock).2 w) m since := by
  have hkept := hs.wired.kept copy.place.1
  by_cases hw : w = copy.place.1
  · subst hw
    rw [Function.update_self]
    obtain hknows | ⟨_, rfl, hsince⟩ := h
    · exact hknows.handlePacket hkept.placed hkept.past
    · obtain ⟨entry, hentry, hmac, hnow⟩ := knows_source hkept.placed
      exact ⟨entry, hentry, hmac, Int.le_trans hsince hnow⟩
  · rw [Function.update_of_ne hw]
    exact h.resolve_right fun h => hw h.1

theorem Informed.deliver (hconn : net.wiring.Connected) (hs : net.Informed s)
    (h : net.Step s (.deliver i) t) : net.Informed t := by
  have hwired := hs.wired.step h
  obtain ⟨lan, hlan, rfl⟩ := Option.map_eq_some_iff.mp h
  obtain ⟨copy, hcopy, hsent, _, _, hflight, hbox⟩ := Lan.deliver_eq hlan
  have hmem := List.mem_of_getElem? hcopy
  obtain ⟨a, ha, hhost, hsource, hsentAt⟩ := hs.sender hmem
  obtain ⟨back, hback⟩ := hs.wired.sound.linked copy hmem
  rw [hs.wired.handled_eq hmem] at hflight hbox
  have herase : ∀ c ∈ s.lan.flight.eraseIdx i, c ∈ s.lan.flight := fun c hc => List.mem_of_mem_eraseIdx hc
  cases hv : net.host copy.place.1 with
  | true =>
    rw [hv, if_pos rfl, Function.update_eq_self] at hbox
    rw [hv, if_pos rfl] at hflight
    refine ⟨hwired, ?_, ?_, ?_⟩ <;> simp only [hbox, hsent]
    · exact hs.honest
    · exact hs.towards
    · intro c hc
      rw [hflight] at hc
      exact hs.behind c (herase c (by simpa [Lan.route] using hc))
  | false =>
    rw [hv, if_neg Bool.false_ne_true] at hbox hflight
    refine ⟨hwired, ?_, ?_, ?_⟩ <;> simp only [hbox, hsent]
    · exact hs.honest
    · exact (Function.forall_update_iff _ fun w (box : Switch) =>
        ∀ entry ∈ box.map.entries, net.Towards w entry).mpr
        ⟨hs.towards_handlePacket hconn hmem hv, fun w _ => hs.towards w⟩
    · intro c hc v hk e hbehind
      apply hs.knows_deliver
      rw [hflight] at hc
      obtain hc | hc := List.mem_append.mp hc
      · exact .inl (hs.behind c (herase c hc) v hk e hbehind)
      · obtain ⟨b, hb, rfl⟩ := List.mem_map.mp hc
        rw [ha] at hk
        obtain rfl := (Prod.ext_iff.mp (Option.some.inj hk)).1
        obtain ⟨iface, _, hpeer⟩ := Lan.mem_route.mp hb
        obtain he | hbefore := behind_next hback hpeer hbehind
        · exact .inr ⟨he, hsource.symm, hsentAt⟩
        · exact .inl (hs.behind copy hmem _ ha e hbefore)

theorem Informed.send (hloop : net.wiring.Loopless) (hs : net.Informed s)
    (h : net.Step s (.send v packet) t) : net.Informed t := by
  have hwired := hs.wired.step h
  simp only [Step, step] at h
  split at h <;> cases h
  rename_i hsend
  refine ⟨hwired, ?_, hs.towards, ?_⟩
  · intro k w f hk
    simp only [Lan.send] at hk
    rw [List.getElem?_append] at hk
    split at hk
    · exact hs.honest k w f hk
    · cases List.mem_singleton.mp (List.mem_of_getElem? hk)
      exact ⟨hsend.1, hsend.2, Int.le_refl _⟩
  · intro c hc w hk e hbehind
    simp only [Lan.send] at hk hc ⊢
    obtain hc | hc := List.mem_append.mp hc
    · obtain ⟨x, hx⟩ := hs.wired.sound.known c (List.mem_append_right _ hc)
      rw [List.getElem?_append_left (List.getElem?_eq_some_iff.mp hx).1] at hk
      exact hs.behind c hc w hk e hbehind
    · obtain ⟨b, hb, rfl⟩ := List.mem_map.mp hc
      rw [List.getElem?_concat_length] at hk
      obtain rfl := (Prod.ext_iff.mp (Option.some.inj hk)).1
      exact absurd hbehind (not_behind_start hloop (Lan.mem_route_ports.mp hb))

theorem Informed.lose (hs : net.Informed s) (h : net.Step s (.lose i) t) : net.Informed t := by
  have hwired := hs.wired.step h
  obtain ⟨lan, hlan, rfl⟩ := Option.map_eq_some_iff.mp h
  obtain ⟨copy, _, rfl⟩ := Lan.lose_eq hlan
  exact ⟨hwired, hs.honest, hs.towards, fun c hc => hs.behind c (List.mem_of_mem_eraseIdx hc)⟩

theorem Informed.sweep (hs : net.Informed s) (hprompt : Prompt s (.sweep v))
    (h : net.Step s (.sweep v) t) : net.Informed t := by
  have hwired := hs.wired.step h
  simp only [Step, step] at h
  split at h <;> cases h
  refine ⟨hwired, hs.honest, ?_, ?_⟩
  · exact (Function.forall_update_iff _ fun w (box : Switch) =>
        ∀ entry ∈ box.map.entries, net.Towards w entry).mpr
      ⟨fun entry hentry => hs.towards v entry (mem_sweep.mp hentry).1, fun w _ => hs.towards w⟩
  · intro c hc w hk e hbehind
    have hknows := hs.behind c hc w hk e hbehind
    by_cases he : e.1 = v
    · rw [he] at hknows
      simp only [he, Function.update_self]
      exact hknows.sweep (hs.wired.kept v).past (hprompt c hc)
    · simp only [Function.update_of_ne he]
      exact hknows

theorem Informed.tick (hs : net.Informed s) (h : net.Step s (.tick now) t) : net.Informed t := by
  have hwired := hs.wired.step h
  simp only [Step, step] at h
  split at h <;> cases h
  rename_i hnow
  refine ⟨hwired, fun k w f hk => ?_, hs.towards, hs.behind⟩
  obtain ⟨hhost, hsource, hsentAt⟩ := hs.honest k w f hk
  exact ⟨hhost, hsource, Int.le_trans hsentAt hnow⟩

theorem informed_step (hloop : net.wiring.Loopless) (hconn : net.wiring.Connected) (s : NetState n)
    (e : NetEvent n) (t : NetState n) (hs : net.Informed s) (hprompt : Prompt s e)
    (h : net.Step s e t) : net.Informed t := by
  cases e with
  | tick now => exact hs.tick h
  | send v packet => exact hs.send hloop h
  | deliver i => exact hs.deliver hconn h
  | lose i => exact hs.lose h
  | sweep v => exact hs.sweep hprompt h

theorem informed (hloop : net.wiring.Loopless) (hconn : net.wiring.Connected) {clock : Int}
    {es : List (NetEvent n)} (h : Run net.Step (net.init clock) es s)
    (hprompt : Along net.Step Prompt (net.init clock) es) : net.Informed s :=
  h.invariant (informed_step hloop hconn) hprompt (informed_init clock)

/-- Among switches without a loop every entry is for the interface towards the host with its
address, whatever was sent, in whatever order copies came, were lost and sent back, as long
as no sweep comes while a copy is under way that is older than an entry can get. -/
theorem entries_towards_hosts (hloop : net.wiring.Loopless) (hconn : net.wiring.Connected) {clock : Int}
    {es : List (NetEvent n)} (h : Run net.Step (net.init clock) es s)
    (hprompt : Along net.Step Prompt (net.init clock) es) (v : Fin n) (entry : MacPortEntry)
    (hentry : entry ∈ (s.lan.box v).map.entries) : net.Towards v entry :=
  (informed hloop hconn h hprompt).towards v entry hentry

/-! Three hosts, each at a switch of its own; the first switch is in the middle. -/

local instance sixBoxes : NeZero 6 := ⟨by decide⟩

def tree : Network 6 where
  wiring := .ofLinks [((0, eth 0), (3, eth 0)), ((1, eth 0), (4, eth 1)), ((2, eth 0), (5, eth 1)),
    ((3, eth 1), (4, eth 0)), ((3, eth 2), (5, eth 0))] (by decide)
  fd_nodup := by decide
  host v := v.val < 3
  host_one := by decide
  mac v := #v[2, 0, 0, 0, 0, BitVec.ofNat 8 v.val]
  mac_inj := by decide

theorem tree_loopless : tree.wiring.Loopless :=
  Wiring.loopless_ofLinks (h := by decide)
    (fun a => if a.1.val < 3 then 0 else if a.1 = 3 then 2 else if a.2 = eth 0 then 1 else 3) (by decide)

theorem tree_connected : tree.wiring.Connected := by
  have h0 : tree.wiring.Linked 0 3 := ⟨eth 0, eth 0, rfl⟩
  have h1 : tree.wiring.Linked 1 4 := ⟨eth 0, eth 1, rfl⟩
  have h2 : tree.wiring.Linked 2 5 := ⟨eth 0, eth 1, rfl⟩
  have h4 : tree.wiring.Linked 4 3 := ⟨eth 0, eth 1, rfl⟩
  have h5 : tree.wiring.Linked 5 3 := ⟨eth 0, eth 2, rfl⟩
  refine .of_center 3 fun v => ?_
  fin_cases v
  · exact .single h0
  · exact .head h1 (.single h4)
  · exact .head h2 (.single h5)
  · exact .refl
  · exact .single h4
  · exact .single h5

/-- A frame from a host of the tree to another. -/
def between (v w : Fin 6) : EtherFrame := ⟨tree.mac w, tree.mac v, 0x0800, []⟩

instance (s : NetState n) : (e : NetEvent n) → Decidable (Prompt s e)
  | .tick _ => isTrue trivial
  | .send _ _ => isTrue trivial
  | .deliver _ => isTrue trivial
  | .lose _ => isTrue trivial
  | .sweep _ =>
    inferInstanceAs (Decidable (∀ copy ∈ s.lan.flight, s.clock - copy.frame.sentAt ≤ macPortTimeout))

/-- A frame goes through two switches, and one of them sweeps. -/
def treeRun : List (NetEvent 6) := [.send 0 (between 0 1), .deliver 0, .tick 1, .deliver 0, .sweep 3]

theorem tree_entry_towards : tree.Towards 4 ⟨tree.mac 0, eth 0, 1⟩ :=
  entries_towards_hosts tree_loopless tree_connected
    (Run.of_isSome (rfl : (runAll tree.step (tree.init 0) treeRun).isSome = true))
    (Along.of_checkAll (rfl : checkAll tree.step Prompt (tree.init 0) treeRun = true)) 4 _
    (MacPortMap.mem_entries.mpr ⟨hash8 (tree.mac 0), List.mem_singleton.mpr rfl⟩)

end Network

end NetStack.Switching
