import NetStack.Lib.Flooding
import NetStack.Switching.Table

/-! Boxes on cables: what the networks of `EXP04-Boardcast_Net` and `EXP05-Switch_Net` have in
common.

A box is a host, with one interface, or runs one of the two programs. What is sent is
numbered, and every copy of it carries the number: the copies with one number are a
`Spread`. -/
namespace NetStack.Switching

/-- Boxes with their interfaces, each interface with a socket of its own. -/
structure Lan (n : Nat) where
  wiring : Wiring (Fin n) IfaceInfo
  fd_nodup : ∀ v, ((wiring.ports v).map (·.fd)).Nodup
  host : Fin n → Bool
  host_one : ∀ v, host v = true → (wiring.ports v).length ≤ 1

/-- A copy of the frame with a number, on its way to a box or arrived there. -/
structure Copy (n : Nat) (F : Type) where
  number : Nat
  place : Fin n × IfaceInfo
  frame : F
deriving DecidableEq

/-- What every box holds, what was sent and by whom, and the copies. -/
structure LanState (n : Nat) (σ F : Type) where
  box : Fin n → σ
  sent : List (Fin n × F)
  received : List (Copy n F)
  lost : List (Copy n F)
  flight : List (Copy n F)

/-- The interface with a number, in examples. -/
def eth (i : Nat) : IfaceInfo := ⟨3 + i, 2 + i⟩

/-- `fd_to_iface`. -/
def fdToIface (ifaceList : List IfaceInfo) (fd : Int) : Option IfaceInfo :=
  ifaceList.find? fun iface => iface.fd = fd

/-- The places in a list of copies of the frame with a number. -/
def places {n : Nat} {F : Type} (k : Nat) (copies : List (Copy n F)) : List (Fin n × IfaceInfo) :=
  (copies.filter fun copy => copy.number = k).map (·.place)

namespace LanState

variable {n : Nat} {σ F : Type}

/-- The copies of the frame with a number. -/
def spread (s : LanState n σ F) (k : Nat) : Spread (Fin n) IfaceInfo :=
  ⟨places k s.received, places k s.lost, places k s.flight⟩

/-- Every copy there has been. -/
def copies (s : LanState n σ F) : List (Copy n F) := s.received ++ s.lost ++ s.flight

/-- The frames with a number that a box has received. -/
def receipts (s : LanState n σ F) (k : Nat) (w : Fin n) : List F :=
  (s.received.filter fun copy => copy.number = k ∧ copy.place.1 = w).map (·.frame)

/-- A copy is lost. -/
def lose (s : LanState n σ F) (i : Nat) : Option (LanState n σ F) :=
  match s.flight[i]? with
  | none => none
  | some copy => some { s with lost := s.lost ++ [copy], flight := s.flight.eraseIdx i }

end LanState

namespace Lan

variable {n : Nat} {σ F : Type} (lan : Lan n)

/-- Where what leaves a box from some of its interfaces arrives. -/
def route (v : Fin n) (ifaces : List IfaceInfo) : List (Fin n × IfaceInfo) :=
  ifaces.filterMap (lan.wiring.peer v)

/-- A host sends a frame. -/
def send (s : LanState n σ F) (v : Fin n) (frame : F) : LanState n σ F :=
  { s with
    sent := s.sent ++ [(v, frame)]
    flight := s.flight ++ (lan.route v (lan.wiring.ports v)).map (⟨s.sent.length, ·, frame⟩) }

/-- What a box does with a copy: a host keeps it, any other box handles it. -/
def handled (handle : Fin n → σ → IfaceInfo → F → List IfaceInfo × σ) (s : LanState n σ F)
    (copy : Copy n F) : List IfaceInfo × σ :=
  if lan.host copy.place.1 then ([], s.box copy.place.1)
  else handle copy.place.1 (s.box copy.place.1) copy.place.2 copy.frame

/-- A copy arrives. -/
def deliver (handle : Fin n → σ → IfaceInfo → F → List IfaceInfo × σ) (s : LanState n σ F) (i : Nat) :
    Option (LanState n σ F) :=
  match s.flight[i]? with
  | none => none
  | some copy =>
    let (out, box) := lan.handled handle s copy
    some
      { s with
        box := Function.update s.box copy.place.1 box
        received := s.received ++ [copy]
        flight := s.flight.eraseIdx i ++
          (lan.route copy.place.1 out).map (⟨copy.number, ·, copy.frame⟩) }

/-- Nothing was sent yet. -/
def init (box : Fin n → σ) : LanState n σ F := ⟨box, [], [], [], []⟩

variable {lan : Lan n} {s t : LanState n σ F} {v w : Fin n} {frame : F} {i k : Nat}
  {handle : Fin n → σ → IfaceInfo → F → List IfaceInfo × σ}

/-! ### Interfaces -/

theorem fd_inj {a b : IfaceInfo} (ha : a ∈ lan.wiring.ports v) (hb : b ∈ lan.wiring.ports v)
    (h : a.fd = b.fd) : a = b :=
  List.inj_on_of_nodup_map (lan.fd_nodup v) ha hb h

/-- The descriptor finds its interface. -/
theorem fdToIface_fd {a : IfaceInfo} (ha : a ∈ lan.wiring.ports v) :
    fdToIface (lan.wiring.ports v) a.fd = some a := by
  cases hfind : fdToIface (lan.wiring.ports v) a.fd with
  | none =>
    have := List.find?_eq_none.mp hfind a ha
    simp at this
  | some b =>
    have hfd : b.fd = a.fd := by simpa using List.find?_some hfind
    rw [lan.fd_inj (List.mem_of_find?_eq_some hfind) ha hfd]

/-- A broadcast leaves from every other interface. -/
theorem mem_broadcastPacket {a b : IfaceInfo} (ha : a ∈ lan.wiring.ports v) :
    b ∈ broadcastPacket (lan.wiring.ports v) a ↔ b ∈ lan.wiring.ports v ∧ b ≠ a := by
  simp only [broadcastPacket, List.mem_filter, decide_eq_true_eq]
  refine and_congr_right fun hb => not_congr ⟨lan.fd_inj hb ha, fun h => h ▸ rfl⟩

theorem broadcastPacket_nodup (a : IfaceInfo) : (broadcastPacket (lan.wiring.ports v) a).Nodup :=
  (lan.wiring.ports_nodup v).filter _

theorem mem_route {ifaces : List IfaceInfo} {a : Fin n × IfaceInfo} :
    a ∈ lan.route v ifaces ↔ ∃ iface ∈ ifaces, lan.wiring.peer v iface = some a := List.mem_filterMap

theorem route_nodup {ifaces : List IfaceInfo} (h : ifaces.Nodup) : (lan.route v ifaces).Nodup :=
  h.filterMap fun _ _ _ hp hq => (Prod.ext_iff.mp (Wiring.peer_inj hp hq)).2

/-- What a box sends of itself is sent over all its links. -/
theorem mem_route_ports {a : Fin n × IfaceInfo} :
    a ∈ lan.route v (lan.wiring.ports v) ↔ lan.wiring.Starts v a := by
  rw [mem_route]
  constructor
  · intro hyp
    obtain ⟨iface, _, hpeer⟩ := hyp
    exact ⟨iface, hpeer⟩
  · intro hyp
    obtain ⟨iface, hpeer⟩ := hyp
    exact ⟨iface, lan.wiring.mem_ports hpeer, hpeer⟩

/-- Broadcasting is going on everywhere. -/
theorem mem_route_broadcast {a b : Fin n × IfaceInfo} (ha : a.2 ∈ lan.wiring.ports a.1) :
    b ∈ lan.route a.1 (broadcastPacket (lan.wiring.ports a.1) a.2) ↔ lan.wiring.Onward a b := by
  rw [mem_route]
  constructor
  · intro hyp
    obtain ⟨iface, hmem, hpeer⟩ := hyp
    exact ⟨iface, ((lan.mem_broadcastPacket ha).mp hmem).2, hpeer⟩
  · intro hyp
    obtain ⟨iface, hne, hpeer⟩ := hyp
    exact ⟨iface, (lan.mem_broadcastPacket ha).mpr ⟨lan.wiring.mem_ports hpeer, hne⟩, hpeer⟩

/-- From a host nothing goes on. -/
theorem not_onward_of_host {a b : Fin n × IfaceInfo} (hhost : lan.host a.1 = true)
    (ha : a.2 ∈ lan.wiring.ports a.1) : ¬lan.wiring.Onward a b := by
  intro hyp
  obtain ⟨p, hp, hpeer⟩ := hyp
  have hone := lan.host_one a.1 hhost
  obtain ⟨i, hi, rfl⟩ := List.getElem_of_mem (lan.wiring.mem_ports hpeer)
  obtain ⟨j, hj, heq⟩ := List.getElem_of_mem ha
  obtain rfl : i = j := by omega
  exact hp heq

/-! ### The copies of one frame -/

@[simp] theorem places_append (k : Nat) (l l' : List (Copy n F)) :
    places k (l ++ l') = places k l ++ places k l' := by
  rw [places, List.filter_append, List.map_append]
  rfl

@[simp] theorem places_nil (k : Nat) : places k ([] : List (Copy n F)) = [] := rfl

@[simp] theorem places_cons (k : Nat) (copy : Copy n F) (l : List (Copy n F)) :
    places k (copy :: l) = if copy.number = k then copy.place :: places k l else places k l := by
  by_cases h : copy.number = k <;> simp [places, h]

@[simp] theorem places_map_mk (k j : Nat) (frame : F) (l : List (Fin n × IfaceInfo)) :
    places k (l.map (⟨j, ·, frame⟩ : Fin n × IfaceInfo → Copy n F)) = if j = k then l else [] := by
  induction l with
  | nil => simp
  | cons a l ih =>
    rw [List.map_cons, places_cons, ih]
    split <;> rfl

theorem mem_places {l : List (Copy n F)} {a : Fin n × IfaceInfo} :
    a ∈ places k l ↔ ∃ copy ∈ l, copy.number = k ∧ copy.place = a := by
  simp [places, and_assoc]

/-- The copies with a number that has not been used. -/
theorem places_eq_nil {l : List (Copy n F)} (h : ∀ copy ∈ l, copy.number ≠ k) : places k l = [] := by
  rw [List.eq_nil_iff_forall_not_mem]
  intro a ha
  obtain ⟨copy, hmem, hnumber, _⟩ := mem_places.mp ha
  exact h copy hmem hnumber

/-- Taking a copy out of those under way. -/
theorem split_flight {copy : Copy n F} (h : s.flight[i]? = some copy) :
    ∃ before after, s.flight = before ++ copy :: after ∧ s.flight.eraseIdx i = before ++ after := by
  obtain ⟨hi, rfl⟩ := List.getElem?_eq_some_iff.mp h
  refine ⟨s.flight.take i, s.flight.drop (i + 1), ?_, List.eraseIdx_eq_take_drop_succ ..⟩
  rw [List.getElem_cons_drop, List.take_append_drop]

/-- A delivery: the copy it is of, and what becomes of everything. -/
theorem deliver_eq (h : lan.deliver handle s i = some t) :
    ∃ copy, s.flight[i]? = some copy ∧ t.sent = s.sent ∧ t.received = s.received ++ [copy] ∧
      t.lost = s.lost ∧
      t.flight = s.flight.eraseIdx i ++
        (lan.route copy.place.1 (lan.handled handle s copy).1).map (⟨copy.number, ·, copy.frame⟩) ∧
      t.box = Function.update s.box copy.place.1 (lan.handled handle s copy).2 := by
  unfold deliver at h
  split at h
  · cases h
  · rename_i copy hcopy
    cases h
    exact ⟨copy, hcopy, rfl, rfl, rfl, rfl, rfl⟩

theorem lose_eq (h : s.lose i = some t) :
    ∃ copy, s.flight[i]? = some copy ∧
      t = { s with lost := s.lost ++ [copy], flight := s.flight.eraseIdx i } := by
  unfold LanState.lose at h
  split at h
  · cases h
  · rename_i copy hcopy
    exact ⟨copy, hcopy, (Option.some.inj h).symm⟩

/-- To the copies of one frame a delivery is the delivery of one of them, or nothing. -/
theorem spread_deliver (h : lan.deliver handle s i = some t) (k : Nat) :
    ∃ copy ∈ s.flight, (copy.number ≠ k ∧ t.spread k = s.spread k) ∨
      (copy.number = k ∧
        (s.spread k).Deliver copy.place (lan.route copy.place.1 (lan.handled handle s copy).1) (t.spread k)) := by
  obtain ⟨copy, hcopy, _, hreceived, hlost, hflight, _⟩ := deliver_eq h
  obtain ⟨before, after, hsplit, herase⟩ := split_flight hcopy
  refine ⟨copy, List.mem_of_getElem? hcopy, ?_⟩
  rw [herase] at hflight
  simp only [LanState.spread, hreceived, hlost, hflight, hsplit]
  by_cases hk : copy.number = k
  · refine .inr ⟨hk, ?_⟩
    simp only [places_append, places_cons, places_map_mk, hk, if_true, places_nil]
    exact .mk _ _ _ _ _ _
  · refine .inl ⟨hk, ?_⟩
    simp [hk]

theorem spread_lose (h : s.lose i = some t) (k : Nat) :
    ∃ copy ∈ s.flight, (copy.number ≠ k ∧ t.spread k = s.spread k) ∨
      (copy.number = k ∧ (s.spread k).Lose copy.place (t.spread k)) := by
  obtain ⟨copy, hcopy, rfl⟩ := lose_eq h
  obtain ⟨before, after, hsplit, herase⟩ := split_flight hcopy
  refine ⟨copy, List.mem_of_getElem? hcopy, ?_⟩
  simp only [LanState.spread, herase]
  rw [hsplit]
  by_cases hk : copy.number = k
  · refine .inr ⟨hk, ?_⟩
    simp only [places_append, places_cons, hk, if_true, places_nil]
    exact .mk _ _ _ _ _
  · refine .inl ⟨hk, ?_⟩
    simp [hk]

/-! ### Every state -/

/-- A copy is of what was sent under its number, and one under way is on a cable. -/
structure Sound (lan : Lan n) (s : LanState n σ F) : Prop where
  known : ∀ copy ∈ s.copies, ∃ v, s.sent[copy.number]? = some (v, copy.frame)
  linked : ∀ copy ∈ s.flight, ∃ a, lan.wiring.peer copy.place.1 copy.place.2 = some a

theorem sound_init (lan : Lan n) (box : Fin n → σ) : Sound (F := F) lan (init box) where
  known _ h := absurd h List.not_mem_nil
  linked _ h := absurd h List.not_mem_nil

theorem Sound.mem_ports {copy : Copy n F} (hs : Sound lan s) (h : copy ∈ s.flight) :
    copy.place.2 ∈ lan.wiring.ports copy.place.1 := by
  obtain ⟨_, hpeer⟩ := hs.linked copy h
  exact lan.wiring.mem_ports hpeer

theorem peer_of_mem_route {ifaces : List IfaceInfo} {a : Fin n × IfaceInfo} (h : a ∈ lan.route v ifaces) :
    ∃ b, lan.wiring.peer a.1 a.2 = some b := by
  obtain ⟨iface, _, hpeer⟩ := mem_route.mp h
  exact ⟨_, lan.wiring.peer_symm hpeer⟩

theorem Sound.send (hs : Sound lan s) (v : Fin n) (frame : F) : Sound lan (lan.send s v frame) where
  known copy hcopy := by
    simp only [LanState.copies, Lan.send, List.append_assoc, List.mem_append, List.mem_map] at hcopy
    have hold : copy ∈ s.copies → ∃ w, (s.sent ++ [(v, frame)])[copy.number]? = some (w, copy.frame) := by
      intro hmem
      obtain ⟨w, hw⟩ := hs.known copy hmem
      exact ⟨w, by rw [List.getElem?_append_left (List.getElem?_eq_some_iff.mp hw).1, hw]⟩
    obtain hmem | hmem | hmem | ⟨a, _, rfl⟩ := hcopy
    · exact hold (by simp [LanState.copies, hmem])
    · exact hold (by simp [LanState.copies, hmem])
    · exact hold (by simp [LanState.copies, hmem])
    · exact ⟨v, List.getElem?_concat_length⟩
  linked copy hcopy := by
    obtain hmem | hmem := List.mem_append.mp hcopy
    · exact hs.linked copy hmem
    · obtain ⟨a, ha, rfl⟩ := List.mem_map.mp hmem
      exact peer_of_mem_route ha

theorem Sound.deliver (hs : Sound lan s) (h : lan.deliver handle s i = some t) : Sound lan t := by
  obtain ⟨copy, hcopy, hsent, hreceived, hlost, hflight, _⟩ := deliver_eq h
  have hcopy := List.mem_of_getElem? hcopy
  have hmem : copy ∈ s.copies := List.mem_append_right _ hcopy
  have herase : ∀ c ∈ s.flight.eraseIdx i, c ∈ s.flight := fun c hc => List.mem_of_mem_eraseIdx hc
  refine ⟨fun c hc => ?_, fun c hc => ?_⟩
  · rw [hsent]
    simp only [LanState.copies, hreceived, hlost, hflight, List.append_assoc, List.mem_append,
      List.mem_singleton, List.mem_map] at hc
    obtain hc | rfl | hc | hc | ⟨a, _, rfl⟩ := hc
    · exact hs.known c (by simp [LanState.copies, hc])
    · exact hs.known c hmem
    · exact hs.known c (by simp [LanState.copies, hc])
    · exact hs.known c (by simp [LanState.copies, herase c hc])
    · exact hs.known copy hmem
  · rw [hflight] at hc
    obtain hc | hc := List.mem_append.mp hc
    · exact hs.linked c (herase c hc)
    · obtain ⟨a, ha, rfl⟩ := List.mem_map.mp hc
      exact peer_of_mem_route ha

theorem Sound.lose (hs : Sound lan s) (h : s.lose i = some t) : Sound lan t := by
  obtain ⟨copy, hcopy, rfl⟩ := lose_eq h
  have herase : ∀ c ∈ s.flight.eraseIdx i, c ∈ s.flight := fun c hc => List.mem_of_mem_eraseIdx hc
  refine ⟨fun c hc => hs.known c ?_, fun c hc => hs.linked c (herase c hc)⟩
  have hcopy := List.mem_of_getElem? hcopy
  simp only [LanState.copies, List.append_assoc, List.mem_append, List.mem_singleton] at hc ⊢
  obtain hc | hc | rfl | hc := hc
  · exact .inl hc
  · exact .inr (.inl hc)
  · exact .inr (.inr hcopy)
  · exact .inr (.inr (herase c hc))

/-- Sending adds the copies with the next number. -/
theorem Sound.spread_send (hs : Sound lan s) (v : Fin n) (frame : F) (k : Nat) :
    (lan.send s v frame).spread k =
      if k = s.sent.length then ⟨[], [], lan.route v (lan.wiring.ports v)⟩ else s.spread k := by
  have hnew : ∀ copy ∈ s.copies, copy.number ≠ s.sent.length := by
    intro copy hcopy heq
    obtain ⟨w, hw⟩ := hs.known copy hcopy
    have := (List.getElem?_eq_some_iff.mp hw).1
    omega
  by_cases hk : k = s.sent.length
  · subst hk
    have hreceived : places s.sent.length s.received = [] :=
      places_eq_nil fun copy hcopy => hnew copy (by simp [LanState.copies, hcopy])
    have hlost : places s.sent.length s.lost = [] :=
      places_eq_nil fun copy hcopy => hnew copy (by simp [LanState.copies, hcopy])
    have hflight : places s.sent.length s.flight = [] :=
      places_eq_nil fun copy hcopy => hnew copy (by simp [LanState.copies, hcopy])
    simp [LanState.spread, Lan.send, hreceived, hlost, hflight]
  · simp [LanState.spread, Lan.send, hk, Ne.symm hk]

/-! ### Each frame by itself -/

/-- The copies of every frame that was sent have a property, which may speak of its sender. -/
def Each (I : Fin n → Spread (Fin n) IfaceInfo → Prop) (s : LanState n σ F) : Prop :=
  ∀ k v frame, s.sent[k]? = some (v, frame) → I v (s.spread k)

variable {I : Fin n → Spread (Fin n) IfaceInfo → Prop}

theorem each_init (box : Fin n → σ) : Each (F := F) I (init box) := fun _ _ _ h => by
  simp [init] at h

theorem Each.send (h : Each I s) (hs : Sound lan s) (v : Fin n) (frame : F)
    (hI : I v ⟨[], [], lan.route v (lan.wiring.ports v)⟩) : Each I (lan.send s v frame) := by
  intro k w f hk
  rw [hs.spread_send]
  simp only [Lan.send] at hk
  split
  · rename_i hlast
    subst hlast
    rw [List.getElem?_concat_length] at hk
    obtain ⟨rfl, _⟩ := Prod.ext_iff.mp (Option.some.inj hk)
    exact hI
  · rename_i hne
    have hlt := (List.getElem?_eq_some_iff.mp hk).1
    rw [List.length_append, List.length_singleton] at hlt
    rw [List.getElem?_append_left (by omega)] at hk
    exact h k w f hk

/-- What every delivery keeps of the copies of the frame it is of. -/
theorem Each.deliver (h : Each I s) (hd : lan.deliver handle s i = some t)
    (hI : ∀ copy ∈ s.flight, ∀ v x y, I v x →
      Spread.Deliver x copy.place (lan.route copy.place.1 (lan.handled handle s copy).1) y → I v y) :
    Each I t := by
  intro k v frame hk
  obtain ⟨_, _, hsent, _⟩ := deliver_eq hd
  rw [hsent] at hk
  obtain ⟨copy, hmem, ⟨_, hsame⟩ | ⟨_, hstep⟩⟩ := spread_deliver hd k
  · rw [hsame]
    exact h k v frame hk
  · exact hI copy hmem v _ _ (h k v frame hk) hstep

theorem Each.lose (h : Each I s) (hl : s.lose i = some t)
    (hI : ∀ a v x y, I v x → Spread.Lose x a y → I v y) : Each I t := by
  intro k v frame hk
  have hsent : t.sent = s.sent := by
    obtain ⟨_, _, rfl⟩ := lose_eq hl
    rfl
  rw [hsent] at hk
  obtain ⟨copy, _, ⟨_, hsame⟩ | ⟨_, hstep⟩⟩ := spread_lose hl k
  · rw [hsame]
    exact h k v frame hk
  · exact hI copy.place v _ _ (h k v frame hk) hstep

/-! ### Receipts -/

theorem length_receipts (s : LanState n σ F) (k : Nat) (w : Fin n) :
    (s.receipts k w).length = ((s.spread k).received.map Prod.fst).count w := by
  simp only [LanState.receipts, LanState.spread, List.length_map]
  induction s.received with
  | nil => rfl
  | cons copy l ih =>
    by_cases hk : copy.number = k
    · by_cases hw : copy.place.1 = w <;> simpa [hk, hw] using ih
    · simpa [hk] using ih

/-- What a box has received is what was sent. -/
theorem Sound.mem_receipts (hs : Sound lan s) {f : F} (hk : s.sent[k]? = some (v, frame))
    (hf : f ∈ s.receipts k w) : f = frame := by
  obtain ⟨copy, hcopy, rfl⟩ := List.mem_map.mp hf
  obtain ⟨hmem, hkeep⟩ := List.mem_filter.mp hcopy
  obtain ⟨u, hu⟩ := hs.known copy (List.mem_append_left _ (List.mem_append_left _ hmem))
  rw [(of_decide_eq_true hkeep).1, hk] at hu
  exact (Prod.ext_iff.mp (Option.some.inj hu)).2.symm

/-- No box gets a frame twice where its copies never come to a box twice, and the sender
does not get it. -/
theorem length_receipts_le (hloop : lan.wiring.Loopless) (h : (s.spread k).Once lan.wiring v) (w : Fin n) :
    (s.receipts k w).length ≤ if w = v then 0 else 1 := by
  have hsub : ((s.spread k).received.map Prod.fst).Sublist ((s.spread k).copies.map Prod.fst) :=
    (((List.sublist_append_left _ _).trans (List.sublist_append_left _ _)).map _)
  rw [length_receipts]
  split
  · rename_i hw
    have hnot : w ∉ (s.spread k).received.map Prod.fst := fun hmem => h.not_mem hloop (hw ▸ hsub.subset hmem)
    rw [List.count_eq_zero_of_not_mem hnot]
  · exact List.nodup_iff_count_le_one.mp ((h.boxes_nodup hloop).sublist hsub) w

/-- A box that a copy came to has the frame, once. -/
theorem Sound.receipts_eq (hs : Sound lan s) (hk : s.sent[k]? = some (v, frame))
    (hle : (s.receipts k w).length ≤ 1) {a : Fin n × IfaceInfo} (ha : a ∈ (s.spread k).received)
    (hw : a.1 = w) : s.receipts k w = [frame] := by
  have hpos : 0 < (s.receipts k w).length := by
    rw [length_receipts]
    exact List.count_pos_iff.mpr (hw ▸ List.mem_map_of_mem ha)
  obtain ⟨f, hf⟩ := List.length_eq_one_iff.mp (by omega : (s.receipts k w).length = 1)
  have hmem : f ∈ s.receipts k w := by
    rw [hf]
    exact List.mem_singleton_self f
  rw [hf, hs.mem_receipts hk hmem]

end Lan

end NetStack.Switching
