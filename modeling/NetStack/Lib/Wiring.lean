import Mathlib.Data.List.Nodup
import Mathlib.Logic.Relation

/-! Boxes joined by their ports.

What goes over a link arrives at a place: a box, at one of its ports. From there it can go
on out of any other port. A wiring has no loop if going on like that never comes round.
Then nothing that goes on so ever turns back (`Loopless.not_reverse`), so from one box there
is at most one place of arrival at any other (`Away.unique`), and none at itself. -/
namespace NetStack

/-- Boxes with their ports, and the other end of each linked port. -/
structure Wiring (V P : Type*) where
  ports : V → List P
  peer : V → P → Option (V × P)
  ports_nodup : ∀ v, (ports v).Nodup
  mem_ports : ∀ {v p x}, peer v p = some x → p ∈ ports v
  peer_symm : ∀ {v p w q}, peer v p = some (w, q) → peer w q = some (v, p)
  peer_ne : ∀ {v p}, peer v p ≠ some (v, p)

namespace Wiring

variable {V P : Type*} (W : Wiring V P)

/-- From an arrival on to the next, out of another port of the box. -/
def Onward (a b : V × P) : Prop := ∃ p, p ≠ a.2 ∧ W.peer a.1 p = some b

def Reaches (a b : V × P) : Prop := Relation.ReflTransGen W.Onward a b

/-- Where what a box sends of itself arrives. -/
def Starts (v : V) (a : V × P) : Prop := ∃ p, W.peer v p = some a

/-- Where what a box has sent of itself can come to. -/
def Away (v : V) (a : V × P) : Prop := ∃ s, W.Starts v s ∧ W.Reaches s a

def Loopless : Prop := ∀ a, ¬Relation.TransGen W.Onward a a

def Linked (v w : V) : Prop := ∃ p q, W.peer v p = some (w, q)

def Connected : Prop := ∀ v w, Relation.ReflTransGen W.Linked v w

variable {W}
variable {v w : V} {p q : P} {a a' b c s : V × P}

/-! ### One link -/

theorem peer_inj (h : W.peer v p = some a) (h' : W.peer w q = some a) : (v, p) = (w, q) := by
  have hsymm := W.peer_symm h
  rw [W.peer_symm h'] at hsymm
  exact (Option.some.inj hsymm).symm

theorem Starts.peer (h : W.Starts v a) : ∃ p, W.peer a.1 a.2 = some (v, p) := by
  obtain ⟨p, hp⟩ := h
  exact ⟨p, W.peer_symm hp⟩

/-- Where it came from, it did not arrive on the port it left by. -/
theorem Onward.peer (h : W.Onward a b) : ∃ p, p ≠ a.2 ∧ W.peer b.1 b.2 = some (a.1, p) := by
  obtain ⟨p, hp, hpeer⟩ := h
  exact ⟨p, hp, W.peer_symm hpeer⟩

/-- The way back goes on in the same manner. -/
theorem Onward.reverse (h : W.Onward a b) (ha : W.peer a.1 a.2 = some a') :
    ∃ b', W.peer b.1 b.2 = some b' ∧ W.Onward b' a' := by
  obtain ⟨p, hp, hpeer⟩ := h.peer
  exact ⟨_, hpeer, a.2, Ne.symm hp, ha⟩

theorem Reaches.reverse (h : W.Reaches a b) (ha : W.peer a.1 a.2 = some a') :
    ∃ b', W.peer b.1 b.2 = some b' ∧ W.Reaches b' a' := by
  induction h with
  | refl => exact ⟨a', ha, .refl⟩
  | tail _ hstep ih =>
    obtain ⟨b', hb', hpath⟩ := ih
    obtain ⟨c', hc', hback⟩ := hstep.reverse hb'
    exact ⟨c', hc', .head hback hpath⟩

theorem Away.head (h : W.Starts v s) : W.Away v s := ⟨s, h, .refl⟩

theorem Away.onward (h : W.Away v a) (hb : W.Onward a b) : W.Away v b := by
  obtain ⟨s, hs, hpath⟩ := h
  exact ⟨s, hs, .tail hpath hb⟩

theorem Away.reaches (h : W.Away v a) (hb : W.Reaches a b) : W.Away v b := by
  obtain ⟨s, hs, hpath⟩ := h
  exact ⟨s, hs, hpath.trans hb⟩

/-- What has come to a place was sent there first or came from a place before. -/
theorem Away.cases_last (h : W.Away v b) : W.Starts v b ∨ ∃ a, W.Away v a ∧ W.Onward a b := by
  obtain ⟨s, hs, hpath⟩ := h
  cases hpath with
  | refl => exact .inl hs
  | tail hpath hstep => exact .inr ⟨_, ⟨s, hs, hpath⟩, hstep⟩

/-- A place that is come to is the end of a link. -/
theorem Away.peer (h : W.Away v a) : ∃ a', W.peer a.1 a.2 = some a' := by
  obtain hs | ⟨_, _, hstep⟩ := h.cases_last
  · exact ⟨_, hs.peer.choose_spec⟩
  · exact ⟨_, hstep.peer.choose_spec.2⟩

/-! ### No loops -/

/-- A way of so many steps. -/
inductive Way (W : Wiring V P) : Nat → V × P → V × P → Prop
  | nil (a : V × P) : Way W 0 a a
  | snoc {n : Nat} {a b c : V × P} : Way W n a b → W.Onward b c → Way W (n + 1) a c

theorem Way.reaches {n : Nat} (h : Way W n a b) : W.Reaches a b := by
  induction h with
  | nil a => exact .refl
  | snoc _ hstep ih => exact .tail ih hstep

theorem Reaches.way (h : W.Reaches a b) : ∃ n, Way W n a b := by
  induction h with
  | refl => exact ⟨0, .nil a⟩
  | tail _ hstep ih =>
    obtain ⟨n, hway⟩ := ih
    exact ⟨n + 1, .snoc hway hstep⟩

theorem Way.cases_first {n : Nat} (h : Way W (n + 1) a c) : ∃ b, W.Onward a b ∧ Way W n b c := by
  induction n generalizing c with
  | zero =>
    obtain _ | ⟨hway, hstep⟩ := h
    cases hway
    exact ⟨c, hstep, .nil c⟩
  | succ n ih =>
    obtain _ | ⟨hway, hstep⟩ := h
    obtain ⟨b, hfirst, hrest⟩ := ih hway
    exact ⟨b, hfirst, .snoc hrest hstep⟩

/-- Nothing that goes on ever turns back: a shortest way to the reverse of its first place
has another such way inside it. -/
theorem Loopless.not_way_reverse (hloop : W.Loopless) {n : Nat} (h : Way W n a a')
    (ha : W.peer a.1 a.2 = some a') : False := by
  induction n using Nat.strongRecOn generalizing a a' with
  | ind n ih =>
    match n, h with
    | 0, .nil _ => exact W.peer_ne ha
    | n + 1, h =>
      obtain ⟨d, ⟨p, hp, hd⟩, hrest⟩ := h.cases_first
      match n, hrest with
      | 0, .nil _ => exact hp (Prod.ext_iff.mp (peer_inj hd ha)).2
      | n + 1, .snoc (b := e) hway hlast =>
        obtain ⟨q, hq, hback⟩ := hlast
        have he : (e.1, q) = (a.1, a.2) := peer_inj hback ha
        obtain ⟨hbox, rfl⟩ := Prod.ext_iff.mp he
        by_cases hport : e.2 = p
        · have hrev : W.peer d.1 d.2 = some e := by
            rw [W.peer_symm hd, ← hport, ← hbox]
          exact ih n (by omega) hway hrev
        · have hround : W.Onward e d := ⟨p, Ne.symm hport, hbox ▸ hd⟩
          exact hloop d (.tail' hway.reaches hround)

theorem Loopless.not_reverse (hloop : W.Loopless) (ha : W.peer a.1 a.2 = some a') :
    ¬W.Reaches a a' := by
  intro h
  obtain ⟨n, hway⟩ := h.way
  exact hloop.not_way_reverse hway ha

/-- What a box has sent never comes to it. -/
theorem Away.ne (hloop : W.Loopless) (h : W.Away v a) : a.1 ≠ v := by
  obtain ⟨s, ⟨p, hp⟩, hpath⟩ := h
  intro hv
  by_cases hport : p = a.2
  · have hrev : W.peer s.1 s.2 = some a := by
      rw [W.peer_symm hp, hport, ← hv]
    exact hloop.not_reverse hrev hpath
  · have hround : W.Onward a s := ⟨p, hport, hv ▸ hp⟩
    exact hloop s (.tail' hpath hround)

/-- What a box has sent comes to another on one port only. -/
theorem Away.unique (hloop : W.Loopless) (ha : W.Away v a) (hb : W.Away v b) (hbox : a.1 = b.1) :
    a = b := by
  refine Classical.byContradiction fun hne => ?_
  have hport : b.2 ≠ a.2 := fun h => hne (Prod.ext hbox h.symm)
  obtain ⟨t, ht, hpath⟩ := hb
  obtain ⟨q, hq⟩ := ht.peer
  obtain ⟨b', hb', hback⟩ := hpath.reverse hq
  have hround : W.Onward a b' := ⟨b.2, hport, by rw [hbox]; exact hb'⟩
  have haround : W.Away v (v, q) := (ha.onward hround).reaches hback
  exact haround.ne hloop rfl

/-- What a box has sent goes over a link in one direction only. -/
theorem Away.not_reverse (hloop : W.Loopless) (ha : W.Away v a) (hback : W.peer a.1 a.2 = some a') :
    ¬W.Away v a' := by
  intro ha'
  obtain ⟨p, hs⟩ | ⟨e, he, hstep⟩ := ha.cases_last
  · rw [W.peer_symm hs] at hback
    obtain rfl := Option.some.inj hback
    exact ha'.ne hloop rfl
  · obtain ⟨p, hp, hpeer⟩ := hstep.peer
    rw [hpeer] at hback
    obtain rfl := Option.some.inj hback
    exact hp (Prod.ext_iff.mp (ha'.unique hloop he rfl)).2

/-- The way to a box, turned round, is the way from it. -/
theorem away_of_reaches (ha : W.peer a.1 a.2 = some a') (h : W.Reaches a (w, q)) : W.Away w a' := by
  obtain ⟨b', hb', hback⟩ := h.reverse ha
  exact ⟨b', ⟨q, hb'⟩, hback⟩

/-! ### Everywhere -/

/-- A box that links lead to is come to. -/
theorem exists_away_of_linked (h : Relation.ReflTransGen W.Linked v w) : w = v ∨ ∃ q, W.Away v (w, q) := by
  induction h with
  | refl => exact .inl rfl
  | @tail u x _ hlink ih =>
    obtain ⟨p, q, hpeer⟩ := hlink
    obtain rfl | ⟨r, hr⟩ := ih
    · exact .inr ⟨q, .head ⟨p, hpeer⟩⟩
    · by_cases hp : p = r
      · -- back over the link it came by: to the place before
        subst hp
        obtain ⟨p', hs⟩ | ⟨a, ha, hstep⟩ := hr.cases_last
        · rw [W.peer_symm hs] at hpeer
          exact .inl (Prod.ext_iff.mp (Option.some.inj hpeer)).1.symm
        · obtain ⟨p', _, hback⟩ := hstep.peer
          rw [hback] at hpeer
          obtain ⟨rfl, _⟩ := Prod.ext_iff.mp (Option.some.inj hpeer)
          exact .inr ⟨a.2, ha⟩
      · exact .inr ⟨q, hr.onward ⟨p, hp, hpeer⟩⟩

theorem Connected.exists_away (hconn : W.Connected) (h : w ≠ v) : ∃ q, W.Away v (w, q) :=
  (exists_away_of_linked (hconn v w)).resolve_left h

/-- From every box a loop is come to, if there is one. -/
theorem Connected.exists_loop (hconn : W.Connected) (hloop : ¬W.Loopless) (v : V) :
    ∃ a, W.Away v a ∧ Relation.TransGen W.Onward a a := by
  obtain ⟨c, hc⟩ := Classical.not_forall.mp hloop
  have hround := Classical.not_not.mp hc
  obtain ⟨d, hfirst, hrest⟩ := Relation.TransGen.head'_iff.mp hround
  obtain ⟨p, hp, hd⟩ := hfirst
  have hloopd : Relation.TransGen W.Onward d d := .tail' hrest ⟨p, hp, hd⟩
  by_cases hbox : c.1 = v
  · exact ⟨d, .head ⟨p, hbox ▸ hd⟩, hloopd⟩
  · obtain ⟨q, hq⟩ := hconn.exists_away hbox
    by_cases hport : p = q
    · -- it comes to the loop against its direction, and goes round it backwards
      subst hport
      obtain ⟨c', hc', hback⟩ := Reaches.reverse hrest (W.peer_symm hd)
      have hstep : W.Onward (c.1, p) c' := ⟨c.2, Ne.symm hp, hc'⟩
      exact ⟨(c.1, p), hq, .head' hstep hback⟩
    · exact ⟨d, hq.onward ⟨p, hport, hd⟩, hloopd⟩

theorem Linked.symm (h : W.Linked v w) : W.Linked w v := by
  obtain ⟨p, q, hpeer⟩ := h
  exact ⟨q, p, W.peer_symm hpeer⟩

/-- Boxes that are all linked to one. -/
theorem Connected.of_center (c : V) (h : ∀ v, Relation.ReflTransGen W.Linked v c) : W.Connected := by
  intro v w
  refine (h v).trans ?_
  have hback : ∀ {x y}, Relation.ReflTransGen W.Linked x y → Relation.ReflTransGen W.Linked y x := by
    intro x y hxy
    induction hxy with
    | refl => exact .refl
    | tail _ hlink ih => exact .head hlink.symm ih
  exact hback (h w)

/-! ### A wiring from its links -/

/-- The ends of the links in a list. -/
def ends (links : List ((V × P) × (V × P))) : List (V × P) := links.flatMap fun link => [link.1, link.2]

theorem mem_ends {links : List ((V × P) × (V × P))} :
    a ∈ ends links ↔ ∃ b, (a, b) ∈ links ∨ (b, a) ∈ links := by
  simp only [ends, List.mem_flatMap, List.mem_cons, List.not_mem_nil, or_false]
  constructor
  · intro hyp
    obtain ⟨link, hmem, rfl | rfl⟩ := hyp
    · exact ⟨link.2, .inl hmem⟩
    · exact ⟨link.1, .inr hmem⟩
  · intro hyp
    obtain ⟨b, hmem | hmem⟩ := hyp
    · exact ⟨_, hmem, .inl rfl⟩
    · exact ⟨_, hmem, .inr rfl⟩

section OfLinks
variable [DecidableEq V] [DecidableEq P]

/-- The other end of the link that ends at a place. -/
def otherEnd (links : List ((V × P) × (V × P))) (a : V × P) : Option (V × P) :=
  links.findSome? fun link =>
    if link.1 = a then some link.2 else if link.2 = a then some link.1 else none

theorem otherEnd_eq_some {links : List ((V × P) × (V × P))} (h : (ends links).Nodup) :
    otherEnd links a = some b ↔ (a, b) ∈ links ∨ (b, a) ∈ links := by
  induction links with
  | nil => simp [otherEnd]
  | cons link links ih =>
    obtain ⟨x, y⟩ := link
    have hends : x ≠ y ∧ x ∉ ends links ∧ y ∉ ends links ∧ (ends links).Nodup := by
      simpa [ends, not_or, and_assoc] using h
    obtain ⟨hxy, hx, hy, hrest⟩ := hends
    have hother : otherEnd ((x, y) :: links) a =
        if x = a then some y else if y = a then some x else otherEnd links a := by
      rw [otherEnd, List.findSome?_cons]
      split_ifs <;> rfl
    have houtside : ∀ {c d}, c ∉ ends links → ¬((c, d) ∈ links ∨ (d, c) ∈ links) :=
      fun hc hmem => hc (mem_ends.mpr ⟨_, hmem⟩)
    rw [hother]
    by_cases hxa : x = a
    · subst hxa
      have hout := houtside (d := b) hx
      grind
    · by_cases hya : y = a
      · subst hya
        have hout := houtside (d := b) hy
        grind
      · rw [if_neg hxa, if_neg hya, ih hrest]
        grind

/-- Links whose ends are all different. -/
def ofLinks (links : List ((V × P) × (V × P))) (h : (ends links).Nodup) : Wiring V P where
  ports v := ((ends links).filter fun a => a.1 = v).map Prod.snd
  peer v p := otherEnd links (v, p)
  ports_nodup v := (h.filter _).map_on fun a ha b hb hport => by
    have hv : ∀ c ∈ (ends links).filter fun a => a.1 = v, c.1 = v := fun c hc => by
      simpa using (List.mem_filter.mp hc).2
    exact Prod.ext ((hv a ha).trans (hv b hb).symm) hport
  mem_ports {v p x} hpeer := by
    have hmem : (v, p) ∈ ends links := mem_ends.mpr ⟨x, (otherEnd_eq_some h).mp hpeer⟩
    exact List.mem_map.mpr ⟨(v, p), List.mem_filter.mpr ⟨hmem, decide_eq_true rfl⟩, rfl⟩
  peer_symm hpeer := (otherEnd_eq_some h).mpr ((otherEnd_eq_some h).mp hpeer).symm
  peer_ne {v p} hpeer := by
    have hmem : ((v, p), (v, p)) ∈ links := or_self_iff.mp ((otherEnd_eq_some h).mp hpeer)
    have hpair := (List.nodup_flatMap.mp h).1 _ hmem
    simp at hpair

variable {links : List ((V × P) × (V × P))} {h : (ends links).Nodup}

/-- Where a measure goes down with every step there is no loop. -/
theorem loopless_ofLinks (m : V × P → Nat)
    (hm : ∀ a ∈ ends links, ∀ c ∈ ends links, c.1 = a.1 → c.2 ≠ a.2 → ∀ b ∈ otherEnd links c, m b < m a) :
    (ofLinks links h).Loopless := by
  have hend : ∀ {a b}, (ofLinks links h).peer a.1 a.2 = some b → a ∈ ends links :=
    fun hpeer => mem_ends.mpr ⟨_, (otherEnd_eq_some h).mp hpeer⟩
  have hstep : ∀ {a b}, a ∈ ends links → (ofLinks links h).Onward a b → m b < m a := by
    intro a b ha hyp
    obtain ⟨p, hp, hpeer⟩ := hyp
    exact hm a ha (a.1, p) (hend (a := (a.1, p)) hpeer) rfl hp b hpeer
  have hdown : ∀ {a b}, a ∈ ends links → Relation.TransGen (ofLinks links h).Onward a b →
      b ∈ ends links ∧ m b < m a := by
    intro a b ha hpath
    induction hpath with
    | single hfirst => exact ⟨hend hfirst.peer.choose_spec.2, hstep ha hfirst⟩
    | tail _ hnext ih => exact ⟨hend hnext.peer.choose_spec.2, Nat.lt_trans (hstep ih.1 hnext) ih.2⟩
  intro a hround
  have ha : a ∈ ends links := by
    obtain ⟨_, _, hlast⟩ := Relation.TransGen.tail'_iff.mp hround
    exact hend hlast.peer.choose_spec.2
  exact Nat.lt_irrefl _ (hdown ha hround).2

end OfLinks

end Wiring

end NetStack
