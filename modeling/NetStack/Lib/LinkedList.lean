import NetStack.Lib.Circular
import Mathlib.Data.List.Nodup
import Mathlib.Data.List.Perm.Subperm
import Mathlib.Logic.Function.Basic

/-! Circular doubly linked lists whose nodes are fields of their entries.

A heap gives the two links of every node, with `none` for the null pointer. A node is
the head of a list or belongs to an entry, which it can link into one list at a time.
The operations only follow and redirect links, as they come: nothing tells a node that is
linked from one that once was. `OnList` says which entries a head's links really go
through, and `Represents` does it for all heads at once; under it adding and deleting are
what they are on lists (`Represents.addHead`, `Represents.addTail`, `Represents.deleteEntry`).
A list read backwards is the list of the heap's mirror image (`OnList.mirror`). -/
namespace NetStack.LinkedList

inductive Node (T E : Type)
  | head (t : T)
  | entry (e : E)
deriving DecidableEq

@[ext] structure Links (T E : Type) where
  next : Option (Node T E)
  prev : Option (Node T E)

abbrev Heap (T E : Type) := Node T E → Links T E

variable {T E : Type} [DecidableEq T] [DecidableEq E]

namespace Heap

def setNext (h : Heap T E) (n : Node T E) (next : Option (Node T E)) : Heap T E :=
  Function.update h n { h n with next }

def setPrev (h : Heap T E) (n : Node T E) (prev : Option (Node T E)) : Heap T E :=
  Function.update h n { h n with prev }

/-- Whether a node's list is empty, or a node is in no list but its own. -/
def isEmpty (h : Heap T E) (n : Node T E) : Bool := (h n).next = some n

/-- Link a node in between two others. -/
def insert (h : Heap T E) (new prev next : Node T E) : Heap T E :=
  Function.update ((h.setPrev next (some new)).setNext prev (some new)) new ⟨some next, some prev⟩

/-- Link a node in behind a head; `none` where that follows a null pointer. -/
def addHead (h : Heap T E) (new head : Node T E) : Option (Heap T E) :=
  match (h head).next with
  | none => none
  | some next => some (h.insert new head next)

/-- Link a node in before a head; `none` where that follows a null pointer. -/
def addTail (h : Heap T E) (new head : Node T E) : Option (Heap T E) :=
  match (h head).prev with
  | none => none
  | some prev => some (h.insert new prev head)

/-- Link a node to itself. -/
def init (h : Heap T E) (n : Node T E) : Heap T E := Function.update h n ⟨some n, some n⟩

/-- Link a node's neighbours past it. Its own links stay. -/
def deleteEntry (h : Heap T E) (n : Node T E) : Option (Heap T E) :=
  match (h n).next with
  | none => none
  | some next =>
    let h := h.setPrev next (h n).prev
    match (h n).prev with
    | none => none
    | some prev => some (h.setNext prev (h n).next)

/-- The first entry the walk from `node` to the head of `t` finds to satisfy `p`; `none`
where it follows a null pointer, comes to another head or does not end. -/
def find (h : Heap T E) (t : T) (p : E → Bool) : Nat → Node T E → Option (Option E)
  | 0, _ => none
  | fuel + 1, node =>
    match (h node).next with
    | none => none
    | some (.head u) => if u = t then some none else none
    | some (.entry e) => if p e then some (some e) else h.find t p fuel (.entry e)

/-- The forward links lead from a node through these entries to another. -/
def Leads (h : Heap T E) : Node T E → List E → Node T E → Prop
  | a, [], b => (h a).next = some b
  | a, e :: es, b => (h a).next = some (.entry e) ∧ h.Leads (.entry e) es b

omit [DecidableEq E] in
/-- What a walk finds: the links lead there through entries that do not satisfy `p`, to one
that does or round to the head. -/
theorem find_eq_some_iff {h : Heap T E} {t : T} {p : E → Bool} {found : Option E} {fuel : Nat} {a : Node T E} :
    h.find t p fuel a = some found ↔
      ∃ es, es.length < fuel ∧ h.Leads a es (found.elim (.head t) .entry) ∧ (∀ x ∈ es, p x = false) ∧
        ∀ e ∈ found, p e = true := by
  constructor
  · intro hfind
    induction fuel generalizing a with
    | zero => cases hfind
    | succ fuel ih =>
      simp only [find] at hfind
      split at hfind
      · cases hfind
      · rename_i u hnext
        split at hfind
        · rename_i hu
          subst hu
          cases hfind
          exact ⟨[], Nat.succ_pos fuel, hnext, by simp, by simp⟩
        · cases hfind
      · rename_i f hnext
        split at hfind
        · rename_i hp
          cases hfind
          exact ⟨[], Nat.succ_pos fuel, hnext, by simp, by simpa using hp⟩
        · rename_i hp
          obtain ⟨es, hlt, hleads, hes, hfound⟩ := ih hfind
          have hf : p f = false := by simpa using hp
          exact ⟨f :: es, Nat.succ_lt_succ hlt, ⟨hnext, hleads⟩, List.forall_mem_cons.mpr ⟨hf, hes⟩, hfound⟩
  · intro hwalk
    obtain ⟨es, hlt, hleads, hes, hfound⟩ := hwalk
    induction es generalizing a fuel with
    | nil =>
      obtain ⟨fuel, rfl⟩ := Nat.exists_eq_add_one_of_ne_zero (Nat.ne_of_gt hlt)
      cases found with
      | none => simp only [find, show (h a).next = some (.head t) from hleads, if_true]
      | some e => simp only [find, show (h a).next = some (.entry e) from hleads, hfound e rfl, if_true]
    | cons f es ih =>
      obtain ⟨fuel, rfl⟩ := Nat.exists_eq_add_one_of_ne_zero (Nat.ne_of_gt (Nat.zero_lt_of_lt hlt))
      obtain ⟨hf, hrest⟩ := List.forall_mem_cons.mp hes
      simp only [find, hleads.1, hf, Bool.false_eq_true, if_false]
      exact ih (Nat.lt_of_succ_lt_succ hlt) hleads.2 hrest

theorem insert_next (h : Heap T E) {new prev : Node T E} (next n : Node T E) (hprev : prev ≠ new) :
    (h.insert new prev next n).next =
      if n = new then some next else if n = prev then some new else (h n).next := by
  unfold insert setNext setPrev
  by_cases hnew : n = new
  · simp [hnew]
  · by_cases hp : n = prev
    · simp [hp, hprev]
    · by_cases hn : n = next <;> simp_all [Function.update_apply]

theorem insert_prev (h : Heap T E) {new next : Node T E} (prev n : Node T E) (hnext : next ≠ new) :
    (h.insert new prev next n).prev =
      if n = new then some prev else if n = next then some new else (h n).prev := by
  unfold insert setNext setPrev
  by_cases hnew : n = new
  · simp [hnew]
  · by_cases hn : n = next
    · by_cases hp : n = prev <;> simp_all [Function.update_apply]
    · by_cases hp : n = prev <;> simp_all [Function.update_apply]

/-- The two links of every node exchanged. -/
def mirror (h : Heap T E) : Heap T E := fun n => ⟨(h n).prev, (h n).next⟩

theorem insert_of_ne (h : Heap T E) {new prev next n : Node T E} (hnew : n ≠ new) (hprev : n ≠ prev)
    (hnext : n ≠ next) : h.insert new prev next n = h n := by
  simp [insert, setNext, setPrev, hnew, hprev, hnext]

/-- The link that is read again is what it was, even in a node that links to itself. -/
theorem deleteEntry_eq {h : Heap T E} {n p q : Node T E} (hnext : (h n).next = some q)
    (hprev : (h n).prev = some p) :
    h.deleteEntry n = some ((h.setPrev q (some p)).setNext p (some q)) := by
  have hsame : h.setPrev q (some p) n = ⟨some q, some p⟩ := by
    unfold setPrev
    by_cases hq : n = q
    · subst hq
      rw [Function.update_self, ← hnext]
    · rw [Function.update_of_ne hq, ← hnext, ← hprev]
  unfold deleteEntry
  simp only [hnext, hprev, hsame]

/-- What a deletion that meets no null pointer does. -/
theorem deleteEntry_cases {h h' : Heap T E} {n : Node T E} (hdelete : h.deleteEntry n = some h') :
    ∃ p q, (h n).prev = some p ∧ (h n).next = some q ∧ h' = (h.setPrev q (some p)).setNext p (some q) := by
  cases hnext : (h n).next with
  | none =>
    unfold deleteEntry at hdelete
    rw [hnext] at hdelete
    cases hdelete
  | some q =>
    cases hprev : (h n).prev with
    | none =>
      have hsame : (h.setPrev q none n).prev = none := by
        unfold setPrev
        by_cases hq : n = q
        · simp [hq]
        · rw [Function.update_of_ne hq, hprev]
      unfold deleteEntry at hdelete
      rw [hnext] at hdelete
      simp only [hprev, hsame] at hdelete
      cases hdelete
    | some p => exact ⟨p, q, rfl, rfl, Option.some.inj (hdelete.symm.trans (deleteEntry_eq hnext hprev))⟩

theorem unlink_next (h : Heap T E) (p q n : Node T E) :
    ((h.setPrev q (some p)).setNext p (some q) n).next = if n = p then some q else (h n).next := by
  unfold setNext setPrev
  by_cases hp : n = p
  · simp [hp]
  · by_cases hq : n = q <;> simp_all [Function.update_apply]

theorem unlink_prev (h : Heap T E) (p q n : Node T E) :
    ((h.setPrev q (some p)).setNext p (some q) n).prev = if n = q then some p else (h n).prev := by
  unfold setNext setPrev
  by_cases hp : n = p <;> by_cases hq : n = q <;> simp_all [Function.update_apply]

/-- No link is a null pointer. -/
def Total (h : Heap T E) : Prop := ∀ n, (∃ next, (h n).next = some next) ∧ ∃ prev, (h n).prev = some prev

theorem Total.init {h : Heap T E} (htotal : h.Total) (n : Node T E) : (h.init n).Total := by
  intro x
  unfold Heap.init
  by_cases hx : x = n
  · simp [hx]
  · simpa [hx] using htotal x

theorem Total.insert {h : Heap T E} (htotal : h.Total) (new prev next : Node T E) :
    (h.insert new prev next).Total := by
  intro x
  unfold Heap.insert setNext setPrev
  obtain ⟨hn, hp⟩ := htotal x
  by_cases hnew : x = new
  · simp [hnew]
  · by_cases hprev : x = prev <;> by_cases hnext : x = next <;> simp_all [Function.update_apply]

theorem Total.unlink {h : Heap T E} (htotal : h.Total) (p q : Node T E) :
    ((h.setPrev q (some p)).setNext p (some q)).Total := by
  intro x
  obtain ⟨hn, hp⟩ := htotal x
  rw [unlink_next, unlink_prev]
  constructor
  · split
    · exact ⟨q, rfl⟩
    · exact hn
  · split
    · exact ⟨p, rfl⟩
    · exact hp

theorem unlink_of_ne (h : Heap T E) {p q n : Node T E} (hp : n ≠ p) (hq : n ≠ q) :
    (h.setPrev q (some p)).setNext p (some q) n = h n := by
  simp [setNext, setPrev, hp, hq]

end Heap

/-! ### Chains of links -/

/-- The links lead from `a` through the nodes to `b`, and back. -/
def Chain (h : Heap T E) : Node T E → List (Node T E) → Node T E → Prop
  | a, [], b => (h a).next = some b ∧ (h b).prev = some a
  | a, x :: xs, b => (h a).next = some x ∧ (h x).prev = some a ∧ Chain h x xs b

omit [DecidableEq T] [DecidableEq E]

variable {h h' : Heap T E} {a b x : Node T E} {xs ys : List (Node T E)}

theorem chain_append : Chain h a (xs ++ x :: ys) b ↔ Chain h a xs x ∧ Chain h x ys b := by
  induction xs generalizing a with
  | nil => exact ⟨fun hyp => ⟨⟨hyp.1, hyp.2.1⟩, hyp.2.2⟩, fun hyp => ⟨hyp.1.1, hyp.1.2, hyp.2⟩⟩
  | cons y xs ih =>
    simp only [List.cons_append, Chain, ih]
    exact ⟨fun hyp => ⟨⟨hyp.1, hyp.2.1, hyp.2.2.1⟩, hyp.2.2.2⟩,
      fun hyp => ⟨hyp.1.1, hyp.1.2.1, hyp.1.2.2, hyp.2⟩⟩

theorem Chain.mirror (hchain : Chain h a xs b) : Chain h.mirror b xs.reverse a := by
  induction xs generalizing a with
  | nil => exact ⟨hchain.2, hchain.1⟩
  | cons x xs ih =>
    obtain ⟨hn, hp, hrest⟩ := hchain
    rw [List.reverse_cons]
    exact chain_append.mpr ⟨ih hrest, hp, hn⟩

/-- The links from a node lead to one end only. -/
theorem Chain.unique {c : Node T E} (hxs : Chain h a xs b) (hys : Chain h a ys c) (hb : b ∉ ys)
    (hc : c ∉ xs) : xs = ys ∧ b = c := by
  induction xs generalizing a ys with
  | nil =>
    cases ys with
    | nil => exact ⟨rfl, Option.some.inj (hxs.1.symm.trans hys.1)⟩
    | cons y ys =>
      obtain rfl := Option.some.inj (hxs.1.symm.trans hys.1)
      exact absurd List.mem_cons_self hb
  | cons x xs ih =>
    cases ys with
    | nil =>
      obtain rfl := Option.some.inj (hxs.1.symm.trans hys.1)
      exact absurd List.mem_cons_self hc
    | cons y ys =>
      obtain rfl := Option.some.inj (hxs.1.symm.trans hys.1)
      simp only [List.mem_cons, not_or] at hb hc
      obtain ⟨rfl, heq⟩ := ih hxs.2.2 hys.2.2 hb.2 hc.2
      exact ⟨rfl, heq⟩

theorem chain_iff : Chain h a xs b ↔ Stretch (fun n => (h n).next) (fun n => (h n).prev) a xs b := by
  induction xs generalizing a with
  | nil => rw [stretch_nil, Chain]
  | cons x xs ih => rw [stretch_cons, and_assoc, Chain, ih]

/-! ### The lists of a heap -/

/-- The head's links go through these entries, each of them once. -/
structure OnList (h : Heap T E) (t : T) (es : List E) : Prop where
  chain : Chain h (.head t) (es.map .entry) (.head t)
  nodup : es.Nodup

/-- The entry is on the list of this head. -/
def Linked (h : Heap T E) (t : T) (e : E) : Prop := ∃ es, OnList h t es ∧ e ∈ es

theorem head_notMem (t : T) (es : List E) : (Node.head t : Node T E) ∉ es.map .entry := by
  simp

theorem OnList.nodup_nodes {t : T} {es : List E} (hes : OnList h t es) :
    (Node.head t :: es.map .entry : List (Node T E)).Nodup :=
  List.nodup_cons.mpr ⟨head_notMem t es, hes.nodup.map fun _ _ heq => Node.entry.inj heq⟩

theorem onList_iff {t : T} {es : List E} :
    OnList h t es ↔ Circular (fun n => (h n).next) (fun n => (h n).prev) (.head t) (es.map .entry) := by
  constructor
  · exact fun hes => ⟨chain_iff.mp hes.chain, hes.nodup_nodes⟩
  · exact fun hlist => ⟨chain_iff.mpr hlist.links, (List.nodup_cons.mp hlist.nodup).2.of_map⟩

theorem OnList.congr {t : T} {es : List E} (hes : OnList h t es)
    (hsame : ∀ n ∈ Node.head t :: es.map .entry, h' n = h n) : OnList h' t es := by
  rw [onList_iff] at hes ⊢
  exact hes.congr (fun n hn => by rw [hsame n hn]) fun n hn => by rw [hsame n hn]

theorem OnList.mirror {t : T} {es : List E} (hes : OnList h t es) : OnList h.mirror t es.reverse where
  chain := by
    rw [List.map_reverse]
    exact hes.chain.mirror
  nodup := List.nodup_reverse.mpr hes.nodup

theorem OnList.unique {t : T} {es fs : List E} (hes : OnList h t es) (hfs : OnList h t fs) :
    es = fs := by
  have hsame := (hes.chain.unique hfs.chain (head_notMem t fs) (head_notMem t es)).1
  exact List.map_injective_iff.mpr (fun _ _ heq => Node.entry.inj heq) hsame

/-- An entry is on one list only. -/
theorem Linked.head_unique {t u : T} {e : E} (ht : Linked h t e) (hu : Linked h u e) : t = u := by
  obtain ⟨es, hes, hmem⟩ := ht
  obtain ⟨fs, hfs, hmem'⟩ := hu
  obtain ⟨as, bs, rfl⟩ := List.append_of_mem hmem
  obtain ⟨cs, ds, rfl⟩ := List.append_of_mem hmem'
  have hleft := hes.chain
  have hright := hfs.chain
  rw [List.map_append, List.map_cons, chain_append] at hleft hright
  have hends := (hleft.2.unique hright.2 (head_notMem t ds) (head_notMem u bs)).2
  exact Node.head.inj hends

/-- What a node of a list links to is on it and links back. -/
theorem OnList.next_mem {t : T} {es : List E} (hes : OnList h t es)
    (hx : x ∈ (.head t :: es.map .entry : List (Node T E))) :
    ∃ y ∈ (.head t :: es.map .entry : List (Node T E)), (h x).next = some y ∧ (h y).prev = some x :=
  (onList_iff.mp hes).next_mem hx

theorem OnList.prev_mem {t : T} {es : List E} (hes : OnList h t es)
    (hx : x ∈ (.head t :: es.map .entry : List (Node T E))) :
    ∃ y ∈ (.head t :: es.map .entry : List (Node T E)), (h x).prev = some y ∧ (h y).next = some x := by
  have hmirror : ∀ n : Node T E, n ∈ (.head t :: es.reverse.map .entry : List (Node T E)) ↔
      n ∈ (.head t :: es.map .entry : List (Node T E)) := by
    simp
  obtain ⟨y, hy, hlinks⟩ := hes.mirror.next_mem ((hmirror x).mpr hx)
  exact ⟨y, (hmirror y).mp hy, hlinks⟩

theorem Linked.next_ne_none {t : T} {e : E} (hlinked : Linked h t e) : (h (.entry e)).next ≠ none := by
  obtain ⟨es, hes, hmem⟩ := hlinked
  obtain ⟨q, -, hq, -⟩ := hes.next_mem (List.mem_cons_of_mem _ (List.mem_map_of_mem hmem))
  rw [hq]
  exact Option.some_ne_none q

/-- The node of an entry on a list does not link to itself. -/
theorem Linked.isEmpty [DecidableEq T] [DecidableEq E] {t : T} {e : E} (hlinked : Linked h t e) :
    h.isEmpty (.entry e) = false := by
  obtain ⟨es, hes, hmem⟩ := hlinked
  have hself := (onList_iff.mp hes).next_ne_self (List.mem_map_of_mem hmem)
  simpa [Heap.isEmpty] using hself

/-- What a walk along a list finds is on it. -/
theorem Chain.find [DecidableEq T] {t : T} {e : E} {es : List E}
    (hchain : Chain h a (es.map .entry) (.head t)) {p : E → Bool} {fuel : Nat}
    (hfind : h.find t p fuel a = some (some e)) : e ∈ es ∧ p e = true := by
  induction es generalizing a fuel with
  | nil =>
    cases fuel with
    | zero => cases hfind
    | succ fuel => simp [Heap.find, hchain.1] at hfind
  | cons f es ih =>
    cases fuel with
    | zero => cases hfind
    | succ fuel =>
      obtain ⟨hn, -, hrest⟩ := hchain
      simp only [Heap.find, hn] at hfind
      split at hfind
      · rename_i hp
        cases hfind
        exact ⟨List.mem_cons_self, hp⟩
      · obtain ⟨hmem, hp⟩ := ih hrest hfind
        exact ⟨List.mem_cons_of_mem f hmem, hp⟩

/-- A walk along the whole of a list finds the first that satisfies `p`. -/
theorem Chain.find_eq [DecidableEq T] {t : T} {es : List E} (hchain : Chain h a (es.map .entry) (.head t))
    (p : E → Bool) {fuel : Nat} (hfuel : es.length < fuel) : h.find t p fuel a = some (es.find? p) := by
  induction es generalizing a fuel with
  | nil =>
    obtain ⟨fuel, rfl⟩ := Nat.exists_eq_add_one_of_ne_zero (Nat.ne_of_gt hfuel)
    simp [Heap.find, hchain.1]
  | cons f es ih =>
    obtain ⟨fuel, rfl⟩ := Nat.exists_eq_add_one_of_ne_zero (Nat.ne_of_gt (Nat.zero_lt_of_lt hfuel))
    obtain ⟨hn, -, hrest⟩ := hchain
    simp only [Heap.find, hn]
    cases hp : p f with
    | true => simp [hp]
    | false =>
      rw [List.find?_cons_of_neg (by simp [hp])]
      exact ih hrest (Nat.lt_of_succ_lt_succ hfuel)

/-- Every head's list. -/
def Represents (h : Heap T E) (lists : T → List E) : Prop := ∀ t, OnList h t (lists t)

namespace Represents
variable {lists : T → List E}

theorem linked_iff (hrep : Represents h lists) {t : T} {e : E} : Linked h t e ↔ e ∈ lists t := by
  constructor
  · intro hlinked
    obtain ⟨es, hes, hmem⟩ := hlinked
    exact hes.unique (hrep t) ▸ hmem
  · exact fun hmem => ⟨lists t, hrep t, hmem⟩

theorem disjoint (hrep : Represents h lists) {t u : T} {e : E} (ht : e ∈ lists t) (hu : e ∈ lists u) :
    t = u :=
  (hrep.linked_iff.mpr ht).head_unique (hrep.linked_iff.mpr hu)

/-- A node, be it a head or an entry's, is on one list only. -/
theorem node_unique (hrep : Represents h lists) {t u : T} {n : Node T E}
    (ht : n ∈ Node.head t :: (lists t).map .entry) (hu : n ∈ Node.head u :: (lists u).map .entry) :
    t = u := by
  cases n with
  | head v =>
    simp at ht hu
    exact ht.symm.trans hu
  | entry e =>
    simp at ht hu
    exact hrep.disjoint ht hu

variable [DecidableEq T] [DecidableEq E]

/-- An entry that is on no list comes in between two nodes of a list that follow each other;
the nodes of the other entries that are on none stay as they are. -/
theorem insert (hrep : Represents h lists) {e : E} (hnew : ∀ t, e ∉ lists t) {t : T} {as bs : List E}
    (hsplit : lists t = as ++ bs) {prev next : Node T E}
    (hprev : (Node.head t :: as.map Node.entry).getLast? = some prev)
    (hnext : (bs.map Node.entry ++ [Node.head t]).head? = some next) :
    Represents (h.insert (.entry e) prev next) (Function.update lists t (as ++ e :: bs)) ∧
      ∀ f, f ≠ e → (∀ u, f ∉ lists u) → h.insert (.entry e) prev next (.entry f) = h (.entry f) := by
  have hlist := onList_iff.mp (hrep t)
  have hpmem := Circular.last_mem (bs.map .entry) hprev
  have hqmem := Circular.first_mem (as.map .entry) hnext
  have hoff : Node.entry e ∉ Node.head t :: ((lists t).map .entry : List (Node T E)) := by simp [hnew t]
  rw [hsplit, List.map_append] at hlist hoff
  have hother : ∀ n, n ≠ .entry e → n ∉ Node.head t :: (lists t).map .entry →
      h.insert (.entry e) prev next n = h n := by
    intro n hn hout
    rw [hsplit, List.map_append] at hout
    exact h.insert_of_ne hn (fun heq => hout (heq ▸ hpmem)) fun heq => hout (heq ▸ hqmem)
  refine ⟨fun u => ?_, fun f hf hun => hother _ (by simpa using hf) (by simp [hun t])⟩
  by_cases hu : u = t
  · subst hu
    rw [Function.update_self, onList_iff, List.map_append, List.map_cons]
    exact hlist.insert hoff hprev hnext (fun n => h.insert_next next n fun heq => hoff (heq ▸ hpmem))
      fun n => h.insert_prev prev n fun heq => hoff (heq ▸ hqmem)
  · rw [Function.update_of_ne hu]
    refine (hrep u).congr fun n hn => hother n ?_ fun hon => hu (hrep.node_unique hn hon)
    intro heq
    obtain rfl := heq
    simp at hn
    exact hnew u hn

/-- **Adding** an entry that is on no list puts it first on its list; the nodes of the
entries that are on none stay as they are. -/
theorem addHead (hrep : Represents h lists) {e : E} (hnew : ∀ t, e ∉ lists t) (t : T) :
    ∃ h', h.addHead (.entry e) (.head t) = some h' ∧
      Represents h' (Function.update lists t (e :: lists t)) ∧
      ∀ f, f ≠ e → (∀ u, f ∉ lists u) → h' (.entry f) = h (.entry f) := by
  have hlist : Circular _ _ (Node.head t) ([] ++ (lists t).map Node.entry) := onList_iff.mp (hrep t)
  obtain ⟨p, next, hp, hnext, hlink, -⟩ := hlist.links.crossing
  obtain rfl : Node.head t = p := Option.some.inj hp
  refine ⟨_, ?_, hrep.insert hnew (List.nil_append (lists t)).symm hp hnext⟩
  simp [Heap.addHead, hlink]

/-- **Adding at the tail** an entry that is on no list puts it last on its list. -/
theorem addTail (hrep : Represents h lists) {e : E} (hnew : ∀ t, e ∉ lists t) (t : T) :
    ∃ h', h.addTail (.entry e) (.head t) = some h' ∧
      Represents h' (Function.update lists t (lists t ++ [e])) ∧
      ∀ f, f ≠ e → (∀ u, f ∉ lists u) → h' (.entry f) = h (.entry f) := by
  have hlist := onList_iff.mp (hrep t)
  rw [← List.append_nil ((lists t).map Node.entry)] at hlist
  obtain ⟨prev, q, hprev, hq, -, hlink⟩ := hlist.links.crossing
  obtain rfl : Node.head t = q := Option.some.inj hq
  refine ⟨_, ?_, hrep.insert hnew (List.append_nil (lists t)).symm hprev hq⟩
  simp [Heap.addTail, hlink]

/-- **Deleting** an entry that is on a list takes it off; its own node, and those of
the entries that are not on it, stay as they are. -/
theorem deleteEntry (hrep : Represents h lists) {e : E} {t : T} (hmem : e ∈ lists t) :
    ∃ h', h.deleteEntry (.entry e) = some h' ∧
      Represents h' (Function.update lists t ((lists t).erase e)) ∧
      ∀ f, f ∉ (lists t).erase e → h' (.entry f) = h (.entry f) := by
  obtain ⟨as, bs, -, hsplit, herase⟩ := List.exists_erase_eq hmem
  have hlist := onList_iff.mp (hrep t)
  rw [hsplit, List.map_append, List.map_cons] at hlist
  obtain ⟨p, q, hpas, hqbs, hp, hq⟩ := hlist.neighbours
  have hpon : p ∈ Node.head t :: ((lists t).erase e).map .entry := by
    rw [herase, List.map_append]
    exact Circular.last_mem _ hpas
  have hqon : q ∈ Node.head t :: ((lists t).erase e).map .entry := by
    rw [herase, List.map_append]
    exact Circular.first_mem _ hqbs
  have hother : ∀ n, n ∉ Node.head t :: ((lists t).erase e).map .entry →
      (h.setPrev q (some p)).setNext p (some q) n = h n := by
    intro n hn
    apply h.unlink_of_ne
    · intro heq
      obtain rfl := heq
      exact hn hpon
    · intro heq
      obtain rfl := heq
      exact hn hqon
  refine ⟨_, Heap.deleteEntry_eq hq hp, fun u => ?_, fun f hf => hother _ (by simpa using hf)⟩
  by_cases hu : u = t
  · subst hu
    rw [Function.update_self, onList_iff, herase, List.map_append]
    exact hlist.remove hpas hqbs (h.unlink_next p q) (h.unlink_prev p q)
  · rw [Function.update_of_ne hu]
    refine (hrep u).congr fun n hn => hother n fun hon => hu (hrep.node_unique hn ?_)
    refine List.mem_cons.mpr ((List.mem_cons.mp hon).imp_right fun hn => ?_)
    exact List.map_subset _ List.erase_subset hn

end Represents

/-! ### Operations on an entry that is where they do not expect it -/

/-- Nodes linked past what was between them once are still, or again, each other's
neighbours, as far as they are on the list. -/
def Adjacent (h : Heap T E) (ring : Node T E → Prop) (p q : Node T E) : Prop :=
  (ring p → (h p).next = some q) ∧ (ring q → (h q).prev = some p)

section Misplaced

variable [DecidableEq T] [DecidableEq E] {t : T} {e : E} {es fs : List E} {p q : Node T E}

/-- An entry linked in at the tail of the list it is on is on no list with the same others:
the node before it still leads to it, and it leads back to the tail. -/
theorem OnList.not_addTail (hes : OnList h t es) (hmem : e ∈ es)
    (hadd : (h.init (.entry e)).addTail (.entry e) (.head t) = some h') (hfs : OnList h' t fs) :
    ¬ es ⊆ fs := by
  intro hsub
  have hself : (Node.entry e : Node T E) ∈ (.head t :: es.map .entry : List (Node T E)) := by simp [hmem]
  have hself' : (Node.entry e : Node T E) ∈ (.head t :: fs.map .entry : List (Node T E)) := by
    simp [hsub hmem]
  obtain ⟨before, hbefore, -, hnext⟩ := hes.prev_mem hself
  obtain ⟨tail, -, htail, hback⟩ := hes.prev_mem List.mem_cons_self
  have hinit : ∀ n, n ≠ .entry e → h.init (.entry e) n = h n := fun n hn => Function.update_of_ne hn ..
  have hheap : h' = (h.init (.entry e)).insert (.entry e) tail (.head t) := by
    unfold Heap.addTail at hadd
    rw [hinit _ (by simp), htail] at hadd
    exact (Option.some.inj hadd).symm
  have hprev' : (h' (.entry e)).prev = some tail := by
    rw [hheap, Heap.insert_prev _ _ _ (by simp), if_pos rfl]
  obtain ⟨back, -, hback', hforth⟩ := hfs.prev_mem hself'
  obtain rfl : back = tail := Option.some.inj (hback'.symm.trans hprev')
  by_cases hlast : back = .entry e
  · have hnext' : (h' (.entry e)).next = some (.head t) := by
      rw [hheap, Heap.insert, Function.update_self]
    rw [hlast, hnext'] at hforth
    simp at hforth
  · have hne : before ≠ .entry e := by
      intro heq
      obtain rfl := heq
      have hempty := Linked.isEmpty ⟨es, hes, hmem⟩
      simp [Heap.isEmpty, hnext] at hempty
    have hapart : before ≠ back := by
      intro heq
      obtain rfl := heq
      rw [hnext] at hback
      simp at hback
    have hstill : (h' before).next = some (.entry e) := by
      rw [hheap, Heap.insert_next _ _ _ hlast, if_neg hne, if_neg hapart, hinit before hne, hnext]
    have hon : before ∈ (.head t :: fs.map .entry : List (Node T E)) := by
      rcases List.mem_cons.mp hbefore with hhead | hentry
      · rw [hhead]
        exact List.mem_cons_self
      · exact List.mem_cons_of_mem _ (List.map_subset _ hsub hentry)
    obtain ⟨y, -, hy, hyprev⟩ := hfs.next_mem hon
    obtain rfl := Option.some.inj (hy.symm.trans hstill)
    exact hapart (Option.some.inj (hyprev.symm.trans hprev'))

/-- Neighbours that are neighbours already can be linked again, -/
theorem OnList.unlink (hes : OnList h t es)
    (hadj : Adjacent h (· ∈ (.head t :: es.map .entry : List (Node T E))) p q) :
    OnList ((h.setPrev q (some p)).setNext p (some q)) t es := by
  refine hes.congr fun n hn => ?_
  have hnext : ((h.setPrev q (some p)).setNext p (some q) n).next = (h n).next := by
    rw [h.unlink_next]
    split
    · rename_i heq
      subst heq
      exact (hadj.1 hn).symm
    · rfl
  have hprev : ((h.setPrev q (some p)).setNext p (some q) n).prev = (h n).prev := by
    rw [h.unlink_prev]
    split
    · rename_i heq
      subst heq
      exact (hadj.2 hn).symm
    · rfl
  exact Links.ext hnext hprev

/-- and if a list with the same entries comes of it they were. -/
theorem OnList.adjacent_of_unlink (hes : OnList h t es)
    (hfs : OnList ((h.setPrev q (some p)).setNext p (some q)) t fs) (hsame : ∀ f, f ∈ fs ↔ f ∈ es) :
    Adjacent h (· ∈ (.head t :: es.map .entry : List (Node T E))) p q := by
  have hring : ∀ n : Node T E, n ∈ (.head t :: fs.map .entry : List (Node T E)) ↔
      n ∈ (.head t :: es.map .entry : List (Node T E)) := by
    intro n
    simp [hsame]
  constructor
  · intro hp
    obtain ⟨q', hq', hnext, hprev⟩ := hes.next_mem hp
    by_contra hne
    have hqq : q' ≠ q := by
      intro heq
      obtain rfl := heq
      exact hne hnext
    obtain ⟨y, -, hy, hyprev⟩ := hfs.next_mem ((hring p).mpr hp)
    obtain ⟨z, -, hz, hznext⟩ := hfs.prev_mem ((hring q').mpr hq')
    rw [h.unlink_next, if_pos rfl] at hy
    rw [h.unlink_prev, if_neg hqq, hprev] at hz
    obtain rfl := Option.some.inj hz
    rw [h.unlink_next, if_pos rfl] at hznext
    exact hqq (Option.some.inj hznext).symm
  · intro hq
    obtain ⟨p', hp', hprev, hnext⟩ := hes.prev_mem hq
    by_contra hne
    have hpp : p' ≠ p := by
      intro heq
      obtain rfl := heq
      exact hne hprev
    obtain ⟨z, -, hz, hzprev⟩ := hfs.next_mem ((hring p').mpr hp')
    rw [h.unlink_next, if_neg hpp, hnext] at hz
    obtain rfl := Option.some.inj hz
    rw [h.unlink_prev, if_pos rfl] at hzprev
    exact hpp (Option.some.inj hzprev).symm

end Misplaced

/-! ### Heaps whose heads all have their lists -/

/-- Every head's links lead through a list and back. -/
def WellFormed (h : Heap T E) : Prop := ∃ lists, Represents h lists

namespace WellFormed

/-- A node that is on no list may hold anything. -/
theorem congr (hwf : WellFormed h) (h' : Heap T E)
    (hsame : ∀ n, (∀ e, n = .entry e → ∃ t, Linked h t e) → h' n = h n) :
    WellFormed h' ∧ ∀ t e, Linked h' t e ↔ Linked h t e := by
  obtain ⟨lists, hrep⟩ := hwf
  have hrep' : Represents h' lists := by
    refine fun t => (hrep t).congr fun n hn => hsame n fun e he => ⟨t, ?_⟩
    subst he
    exact hrep.linked_iff.mpr (by simpa using hn)
  exact ⟨⟨lists, hrep'⟩, fun t e => hrep'.linked_iff.trans hrep.linked_iff.symm⟩

theorem find [DecidableEq T] (hwf : WellFormed h) {t : T} {e : E} {p : E → Bool} {fuel : Nat}
    (hfind : h.find t p fuel (.head t) = some (some e)) : Linked h t e ∧ p e = true := by
  obtain ⟨lists, hrep⟩ := hwf
  obtain ⟨hmem, hp⟩ := (hrep t).chain.find hfind
  exact ⟨hrep.linked_iff.mpr hmem, hp⟩

/-- Enough fuel for a walk along entries that are numbers less than `n`. -/
theorem exists_find {h : Heap T Nat} [DecidableEq T] (hwf : WellFormed h) {t : T} {n : Nat}
    (hlt : ∀ e, Linked h t e → e < n) (p : Nat → Bool) :
    ∃ found, h.find t p (n + 1) (.head t) = some found := by
  obtain ⟨lists, hrep⟩ := hwf
  have hsub : lists t ⊆ List.range n := fun e hmem => List.mem_range.mpr (hlt e (hrep.linked_iff.mpr hmem))
  have hlength := (List.subperm_of_subset (hrep t).nodup hsub).length_le
  rw [List.length_range] at hlength
  exact ⟨_, (hrep t).chain.find_eq p (Nat.lt_succ_of_le hlength)⟩

variable [DecidableEq T] [DecidableEq E]

theorem exists_addHead (hwf : WellFormed h) {e : E} (hnew : ∀ t, ¬ Linked h t e) (t : T) :
    ∃ h', h.addHead (.entry e) (.head t) = some h' := by
  obtain ⟨lists, hrep⟩ := hwf
  obtain ⟨h', hadd, -⟩ := hrep.addHead (fun u hmem => hnew u (hrep.linked_iff.mpr hmem)) t
  exact ⟨h', hadd⟩

/-- Adding an entry that is on no list. -/
theorem addHead (hwf : WellFormed h) {e : E} (hnew : ∀ t, ¬ Linked h t e) {t : T}
    (hadd : h.addHead (.entry e) (.head t) = some h') :
    WellFormed h' ∧ (∀ u f, Linked h' u f ↔ Linked h u f ∨ u = t ∧ f = e) ∧
      ∀ f, f ≠ e → (∀ u, ¬ Linked h u f) → h' (.entry f) = h (.entry f) := by
  obtain ⟨lists, hrep⟩ := hwf
  have hoff : ∀ f, (∀ u, ¬ Linked h u f) → ∀ u, f ∉ lists u :=
    fun f hf u hmem => hf u (hrep.linked_iff.mpr hmem)
  obtain ⟨h'', hrun, hrep', hframe⟩ := hrep.addHead (hoff e hnew) t
  obtain rfl := Option.some.inj (hadd.symm.trans hrun)
  refine ⟨⟨_, hrep'⟩, fun u f => ?_, fun f hf hun => hframe f hf (hoff f hun)⟩
  rw [hrep'.linked_iff, hrep.linked_iff]
  by_cases hu : u = t
  · subst hu
    simp [Function.update_self, or_comm]
  · simp [hu]

/-- Deleting an entry that is on a list. -/
theorem deleteEntry (hwf : WellFormed h) {e : E} {t : T} (hlinked : Linked h t e)
    (hdelete : h.deleteEntry (.entry e) = some h') :
    WellFormed h' ∧ (∀ u f, Linked h' u f ↔ Linked h u f ∧ f ≠ e) ∧
      ∀ f, (∀ u, ¬ Linked h u f) → h' (.entry f) = h (.entry f) := by
  obtain ⟨lists, hrep⟩ := hwf
  obtain ⟨h'', hrun, hrep', hframe⟩ := hrep.deleteEntry (hrep.linked_iff.mp hlinked)
  obtain rfl := Option.some.inj (hdelete.symm.trans hrun)
  refine ⟨⟨_, hrep'⟩, fun u f => ?_, fun f hun => hframe f fun hmem => ?_⟩
  · rw [hrep'.linked_iff, hrep.linked_iff]
    by_cases hu : u = t
    · subst hu
      rw [Function.update_self, (hrep u).nodup.mem_erase_iff, and_comm]
    · rw [Function.update_of_ne hu]
      refine (and_iff_left_of_imp fun hf => ?_).symm
      intro heq
      obtain rfl := heq
      exact hu (hrep.disjoint hf (hrep.linked_iff.mp hlinked))
  · exact hun t (hrep.linked_iff.mpr (List.mem_of_mem_erase hmem))

/-- Linking neighbours that are neighbours on every list changes no list. -/
theorem unlink (hwf : WellFormed h) {p q : Node T E}
    (hadj : ∀ t es, OnList h t es → Adjacent h (· ∈ (.head t :: es.map .entry : List (Node T E))) p q) :
    WellFormed ((h.setPrev q (some p)).setNext p (some q)) ∧
      ∀ t e, Linked ((h.setPrev q (some p)).setNext p (some q)) t e ↔ Linked h t e := by
  obtain ⟨lists, hrep⟩ := hwf
  have hrep' : Represents ((h.setPrev q (some p)).setNext p (some q)) lists :=
    fun t => (hrep t).unlink (hadj t _ (hrep t))
  exact ⟨⟨lists, hrep'⟩, fun t e => hrep'.linked_iff.trans hrep.linked_iff.symm⟩

end WellFormed

end NetStack.LinkedList
