import NetStack.Lib.Circular
import NetStack.Lib.LinkedList
import Mathlib.Logic.Function.Basic

/-! The intrusive lists of `list.h`.

The two fields of all nodes in memory are two maps, `none` being the null pointer. Nothing
ties a node to a list but the links that lead to it, so that a list is `Represents`, a
sequence the links from its head go through, and each operation is what it does to that
sequence and which links elsewhere it leaves (`Spares`). A node stands for the structure it
is a field of: `list_entry` is the same address with an offset.

The heap that the tables, queues and timers of the stack are kept in is such a memory, and
its operations are these (`ofHeap_insert`, `ofHeap_addHead`, `ofHeap_addTail`,
`ofHeap_deleteEntry`). -/
namespace NetStack.ListHead

/-- The fields of every `struct list_head`. -/
@[ext] structure Links (N : Type) where
  next : N → Option N
  prev : N → Option N

variable {N : Type}

section Operations

variable [DecidableEq N]

namespace Links

def setNext (h : Links N) (n : N) (next : Option N) : Links N :=
  { h with next := Function.update h.next n next }

def setPrev (h : Links N) (n : N) (prev : Option N) : Links N :=
  { h with prev := Function.update h.prev n prev }

end Links

def initListHead (h : Links N) (list : N) : Links N := (h.setPrev list (some list)).setNext list (some list)

def listEmpty (h : Links N) (list : N) : Bool := h.next list = some list

def listInsert (h : Links N) (new prev next : N) : Links N :=
  let h := h.setPrev next (some new)
  let h := h.setNext prev (some new)
  let h := h.setNext new (some next)
  h.setPrev new (some prev)

/-- `none` where the list's own link is null: `list_insert` writes through it. -/
def listAddHead (h : Links N) (new head : N) : Option (Links N) := do
  let next ← h.next head
  some (listInsert h new head next)

def listAddTail (h : Links N) (new head : N) : Option (Links N) := do
  let prev ← h.prev head
  some (listInsert h new prev head)

/-- The entry's links are read again after the first write. -/
def listDeleteEntry (h : Links N) (entry : N) : Option (Links N) := do
  let next ← h.next entry
  let h := h.setPrev next (h.prev entry)
  let prev ← h.prev entry
  some (h.setNext prev (h.next entry))

section Loops

variable {S : Type} (links : S → Links N) (body : N → S → Option S) (head : N)

/-- `list_for_each_entry` from `pos` on: the nodes the body was run on, and what it left. -/
def listForEachEntryFrom : Nat → N → S → Option (List N × S)
  | 0, _, _ => none
  | fuel + 1, pos, s =>
    if pos = head then some ([], s)
    else do
      let s ← body pos s
      let pos' ← (links s).next pos
      let (visited, s) ← listForEachEntryFrom fuel pos' s
      some (pos :: visited, s)

def listForEachEntry (fuel : Nat) (s : S) : Option (List N × S) := do
  let pos ← (links s).next head
  listForEachEntryFrom links body head fuel pos s

/-- `list_for_each_entry_safe` from `pos` on, the pointer to go on with already read. It is
followed only after the body, to read the one after it. -/
def listForEachEntrySafeFrom : Nat → N → Option N → S → Option (List N × S)
  | 0, _, _, _ => none
  | fuel + 1, pos, q, s =>
    if pos = head then some ([], s)
    else do
      let s ← body pos s
      let pos' ← q
      let (visited, s) ← listForEachEntrySafeFrom fuel pos' ((links s).next pos') s
      some (pos :: visited, s)

def listForEachEntrySafe (fuel : Nat) (s : S) : Option (List N × S) := do
  let pos ← (links s).next head
  listForEachEntrySafeFrom links body head fuel pos ((links s).next pos) s

end Loops

/-! ### What the writes come to -/

@[simp] theorem listInsert_next (h : Links N) (new prev next n : N) :
    (listInsert h new prev next).next n =
      if n = new then some next else if n = prev then some new else h.next n := by
  simp [listInsert, Links.setNext, Links.setPrev, Function.update_apply]

@[simp] theorem listInsert_prev (h : Links N) (new prev next n : N) :
    (listInsert h new prev next).prev n =
      if n = new then some prev else if n = next then some new else h.prev n := by
  simp [listInsert, Links.setNext, Links.setPrev, Function.update_apply]

/-- A deletion links the neighbours past the entry. -/
def bypass (h : Links N) (prev next : N) : Links N := (h.setPrev next (some prev)).setNext prev (some next)

@[simp] theorem bypass_next (h : Links N) (prev next n : N) :
    (bypass h prev next).next n = if n = prev then some next else h.next n := by
  simp [bypass, Links.setNext, Links.setPrev, Function.update_apply]

@[simp] theorem bypass_prev (h : Links N) (prev next n : N) :
    (bypass h prev next).prev n = if n = next then some prev else h.prev n := by
  simp [bypass, Links.setNext, Links.setPrev, Function.update_apply]

theorem listDeleteEntry_eq {h : Links N} {entry prev next : N} (hprev : h.prev entry = some prev)
    (hnext : h.next entry = some next) : listDeleteEntry h entry = some (bypass h prev next) := by
  have hagain : (h.setPrev next (some prev)).prev entry = some prev := by
    simp [Links.setPrev, Function.update_apply, hprev]
  have hkept : (h.setPrev next (some prev)).next entry = some next := hnext
  simp [listDeleteEntry, bypass, hnext, hprev, hagain, hkept]

end Operations

/-! ### The sequences in memory -/

variable {h h' : Links N} {head x new prev next : N} {as bs xs : List N}

/-- The head's links go round through these nodes, and back through them. -/
abbrev Represents (h : Links N) (head : N) (xs : List N) : Prop := Circular h.next h.prev head xs

/-- Nodes in a place keep their links. -/
def Agree (h h' : Links N) (place : N → Prop) : Prop :=
  ∀ n, place n → h'.next n = h.next n ∧ h'.prev n = h.prev n

/-- Every list in a place is the list it was, in the links it was. -/
def Spares (h h' : Links N) (place : N → Prop) : Prop :=
  ∀ head xs, Represents h head xs → (∀ n ∈ head :: xs, place n) →
    Represents h' head xs ∧ Agree h h' (· ∈ head :: xs)

theorem Agree.represents (hagree : Agree h h' (· ∈ head :: xs)) (hlist : Represents h head xs) :
    Represents h' head xs :=
  hlist.congr (fun n hn => (hagree n hn).1) fun n hn => (hagree n hn).2

theorem Agree.spares {place : N → Prop} (hagree : Agree h h' place) : Spares h h' place := by
  intro head xs hlist hin
  have hkeep : Agree h h' (· ∈ head :: xs) := fun n hn => hagree n (hin n hn)
  exact ⟨hkeep.represents hlist, hkeep⟩

/-- Nodes that follow each other in memory do so in the sequence. -/
theorem Represents.exists_split (hlist : Represents h head xs) (hmem : prev ∈ head :: xs)
    (hlink : h.next prev = some next) :
    ∃ as bs, xs = as ++ bs ∧ (head :: as).getLast? = some prev ∧ (bs ++ [head]).head? = some next := by
  obtain ⟨as, bs, rfl, hprev⟩ := Circular.exists_split hmem
  obtain ⟨p, q, hp, hq, hforth, -⟩ := hlist.links.crossing
  obtain rfl := Option.some.inj (hprev.symm.trans hp)
  obtain rfl := Option.some.inj (hlink.symm.trans hforth)
  exact ⟨as, bs, rfl, hprev, hq⟩

variable [DecidableEq N]

namespace Represents

theorem init (h : Links N) (list : N) : Represents (initListHead h list) list [] where
  links := by simp [stretch_nil, initListHead, Links.setNext, Links.setPrev]
  nodup := List.nodup_singleton list

theorem listEmpty_eq (hlist : Represents h head xs) : listEmpty h head = xs.isEmpty := by
  have hfirst := hlist.links
  cases xs with
  | nil => simpa [listEmpty] using (stretch_nil.mp hfirst).1
  | cons x xs =>
    have hne : x ≠ head := fun heq => hlist.head_notMem (heq ▸ List.mem_cons_self)
    simp [listEmpty, (stretch_cons.mp hfirst).1.1, hne]

/-- Between nodes that follow each other a new node is inserted there. -/
theorem insert (hlist : Represents h head (as ++ bs)) (hnew : new ∉ head :: (as ++ bs))
    (hprev : (head :: as).getLast? = some prev) (hnext : (bs ++ [head]).head? = some next) :
    Represents (listInsert h new prev next) head (as ++ new :: bs) ∧
      Agree h (listInsert h new prev next) (· ∉ new :: head :: (as ++ bs)) := by
  refine ⟨Circular.insert hlist hnew hprev hnext (listInsert_next h new prev next)
    (listInsert_prev h new prev next), fun n hn => ?_⟩
  have hnn : n ≠ new := fun heq => hn (heq ▸ List.mem_cons_self)
  have hold : ∀ m ∈ head :: (as ++ bs), n ≠ m := fun m hm heq => hn (heq ▸ List.mem_cons_of_mem new hm)
  rw [listInsert_next, listInsert_prev, if_neg hnn, if_neg hnn,
    if_neg (hold prev (Circular.last_mem bs hprev)), if_neg (hold next (Circular.first_mem as hnext))]
  exact ⟨rfl, rfl⟩

theorem addHead (hlist : Represents h head xs) (hnew : new ∉ head :: xs) :
    ∃ h', listAddHead h new head = some h' ∧ Represents h' head (new :: xs) ∧
      Agree h h' (· ∉ new :: head :: xs) := by
  have hlist : Represents h head ([] ++ xs) := hlist
  obtain ⟨prev, next, hprev, hnext, hlink, -⟩ := hlist.links.crossing
  obtain rfl : head = prev := Option.some.inj hprev
  exact ⟨listInsert h new head next, by simp [listAddHead, hlink], hlist.insert hnew hprev hnext⟩

theorem addTail (hlist : Represents h head xs) (hnew : new ∉ head :: xs) :
    ∃ h', listAddTail h new head = some h' ∧ Represents h' head (xs ++ [new]) ∧
      Agree h h' (· ∉ new :: head :: xs) := by
  rw [← List.append_nil xs] at hlist hnew
  obtain ⟨prev, next, hprev, hnext, -, hlink⟩ := hlist.links.crossing
  obtain rfl : head = next := Option.some.inj hnext
  refine ⟨listInsert h new prev head, by simp [listAddTail, hlink], ?_⟩
  simpa using hlist.insert hnew hprev hnext

/-- A list that had the node on it is no list any more: the node leads away from it. -/
theorem insert_taken {other : N} {ys : List N} (hmem : new ∈ other :: ys) (hnext : next ∉ other :: ys) :
    ¬ Represents (listInsert h new prev next) other ys := by
  intro hlist
  obtain ⟨y, hy, hlink, -⟩ := hlist.next_mem hmem
  rw [listInsert_next, if_pos rfl] at hlink
  exact hnext (Option.some.inj hlink ▸ hy)

/-- Deleting a node takes it out from between those that were before and after it. -/
theorem deleteEntry (hlist : Represents h head (as ++ x :: bs)) :
    ∃ h', listDeleteEntry h x = some h' ∧ Represents h' head (as ++ bs) ∧
      Agree h h' (· ∉ head :: (as ++ bs)) := by
  obtain ⟨prev, next, hprev, hnext, hback, hforth⟩ := hlist.neighbours
  refine ⟨bypass h prev next, listDeleteEntry_eq hback hforth,
    hlist.remove hprev hnext (bypass_next h prev next) (bypass_prev h prev next), fun n hn => ?_⟩
  have hold : ∀ m ∈ head :: (as ++ bs), n ≠ m := fun m hm heq => hn (heq ▸ hm)
  rw [bypass_next, bypass_prev, if_neg (hold prev (Circular.last_mem bs hprev)),
    if_neg (hold next (Circular.first_mem as hnext))]
  exact ⟨rfl, rfl⟩

end Represents

/-! ### Loops over a list -/

section Loops

variable {S : Type} {links : S → Links N} {body : N → S → Option S} {s : S} {visited kept rest : List N}

/-- On its turn a node of `xs`, and what is `kept` of those before it, may be exchanged for
anything, as long as the rest follow on that. `Inv` is of the nodes visited, those kept
and the state. -/
def TurnKeeps (links : S → Links N) (body : N → S → Option S) (head : N) (xs : List N)
    (Inv : List N → List N → S → Prop) : Prop :=
  ∀ visited kept x rest s, visited ++ x :: rest = xs → Represents (links s) head (kept ++ x :: rest) →
    Inv visited kept s → ∃ s' kept', body x s = some s' ∧ Represents (links s') head (kept' ++ rest) ∧
      Inv (visited ++ [x]) kept' s'

theorem listForEachEntrySafeFrom_rule {Inv : List N → List N → S → Prop}
    (hbody : TurnKeeps links body head xs Inv) (hxs : visited ++ rest = xs)
    (hlist : Represents (links s) head (kept ++ rest)) (hinv : Inv visited kept s) {pos : N}
    (hpos : (rest ++ [head]).head? = some pos) {fuel : Nat} (hfuel : rest.length < fuel) :
    ∃ s' kept', listForEachEntrySafeFrom links body head fuel pos ((links s).next pos) s = some (rest, s') ∧
      Represents (links s') head kept' ∧ Inv xs kept' s' := by
  induction rest generalizing visited kept s pos fuel with
  | nil =>
    obtain ⟨fuel, rfl⟩ := Nat.exists_eq_add_one_of_ne_zero (Nat.ne_of_gt hfuel)
    obtain rfl : head = pos := Option.some.inj hpos
    rw [List.append_nil] at hlist hxs
    subst hxs
    exact ⟨s, kept, by simp [listForEachEntrySafeFrom], hlist, hinv⟩
  | cons x rest ih =>
    obtain ⟨fuel, rfl⟩ := Nat.exists_eq_add_one_of_ne_zero (Nat.ne_of_gt (Nat.zero_lt_of_lt hfuel))
    obtain rfl : x = pos := Option.some.inj hpos
    have hne : x ≠ head := fun heq => hlist.head_notMem (heq ▸ List.mem_append_right kept List.mem_cons_self)
    -- the pointer read before the body is to the node that is first after it, too
    obtain ⟨p, q, -, hq, -, hnext⟩ := hlist.neighbours
    obtain ⟨s', kept', hrun, hlist', hinv'⟩ := hbody visited kept x rest s hxs hlist hinv
    have hxs' : visited ++ [x] ++ rest = xs := by rw [← List.append_cons, hxs]
    obtain ⟨s'', kept'', hloop, hend⟩ := ih hxs' hlist' hinv' hq (Nat.lt_of_succ_lt_succ hfuel)
    exact ⟨s'', kept'', by simp [listForEachEntrySafeFrom, hne, hrun, hnext, hloop], hend⟩

/-- **The rule of `list_for_each_entry_safe`**: it is the nodes the list had before the loop
that are visited, in their order, whatever becomes of the list behind it. -/
theorem listForEachEntrySafe_rule {Inv : List N → List N → S → Prop}
    (hbody : TurnKeeps links body head xs Inv) (hlist : Represents (links s) head xs)
    (hinv : Inv [] [] s) {fuel : Nat} (hfuel : xs.length < fuel) :
    ∃ s' kept, listForEachEntrySafe links body head fuel s = some (xs, s') ∧
      Represents (links s') head kept ∧ Inv xs kept s' := by
  have hlist : Represents (links s) head ([] ++ xs) := hlist
  obtain ⟨p, pos, hp, hpos, hnext, -⟩ := hlist.links.crossing
  obtain rfl : head = p := Option.some.inj hp
  obtain ⟨s', kept, hloop, hend⟩ := listForEachEntrySafeFrom_rule hbody rfl hlist hinv hpos hfuel
  exact ⟨s', kept, by simp [listForEachEntrySafe, hnext, hloop], hend⟩

/-- Run on a node of the list, the body does no more to the list than delete that node, and
no more than that to the links of the `others`. A node it has deleted it may use as it
likes, and the rest of memory too. -/
def DeletesAtMost (links : S → Links N) (body : N → S → Option S) (head : N) (others : N → Prop) : Prop :=
  ∀ s xs pos, Represents (links s) head xs → pos ∈ xs → ∃ s', body pos s = some s' ∧
    (Agree (links s) (links s') (fun n => n ∈ head :: xs ∨ others n) ∨
      ∃ h', listDeleteEntry (links s) pos = some h' ∧
        Agree h' (links s') fun n => n ∈ head :: xs.erase pos ∨ others n)

/-- What a node's turn leaves of the list is the list with or without it. -/
theorem DeletesAtMost.step {others : N → Prop} (hbody : DeletesAtMost links body head others)
    (hlist : Represents (links s) head (kept ++ x :: rest)) :
    ∃ s' turn, body x s = some s' ∧ turn.Sublist [x] ∧ Represents (links s') head (kept ++ turn ++ rest) ∧
      Agree (links s) (links s') fun n => others n ∧ n ∉ head :: (kept ++ x :: rest) := by
  obtain ⟨s', hrun, hstays | ⟨h', hdelete, hagree⟩⟩ := hbody s _ x hlist (by simp)
  · refine ⟨s', [x], hrun, .refl _, ?_, fun n hn => hstays n (.inr hn.1)⟩
    rw [← List.append_cons]
    exact Agree.represents (fun n hn => hstays n (.inl hn)) hlist
  · obtain ⟨h'', hdelete', hlist', hoff⟩ := hlist.deleteEntry
    obtain rfl := Option.some.inj (hdelete.symm.trans hdelete')
    have hx : x ∉ kept := fun hmem => List.disjoint_of_nodup_append (List.nodup_cons.mp hlist.nodup).2
      hmem List.mem_cons_self
    rw [List.erase_append_right _ hx, List.erase_cons_head] at hagree
    refine ⟨s', [], hrun, List.nil_sublist _, ?_, fun n hn => ?_⟩
    · rw [List.append_nil]
      exact Agree.represents (fun n hn => hagree n (.inl hn)) hlist'
    · have hkeep := hagree n (.inr hn.1)
      have hsame := hoff n fun hmem => hn.2 (Circular.sublist_remove.subset hmem)
      exact ⟨hkeep.1.trans hsame.1, hkeep.2.trans hsame.2⟩

/-- Midway through a loop from `s` over `xs`, the nodes visited and those of them still on the list. -/
structure Swept (links : S → Links N) (body : N → S → Option S) (head : N) (others : N → Prop) (xs : List N)
    (s : S) (visited kept : List N) (s' : S) : Prop where
  run : visited.foldlM (fun s pos => body pos s) s = some s'
  sub : kept.Sublist visited
  off : Agree (links s) (links s') fun n => others n ∧ n ∉ head :: xs

theorem Swept.step {others : N → Prop} {s' : S} (hbody : DeletesAtMost links body head others)
    (hxs : visited ++ x :: rest = xs) (hlist : Represents (links s') head (kept ++ x :: rest))
    (hswept : Swept links body head others xs s visited kept s') :
    ∃ s'' kept', body x s' = some s'' ∧ Represents (links s'') head (kept' ++ rest) ∧
      Swept links body head others xs s (visited ++ [x]) kept' s'' := by
  obtain ⟨s'', turn, hrun, hturn, hlist', hoff⟩ := hbody.step hlist
  refine ⟨s'', kept ++ turn, hrun, hlist', ?_, hswept.sub.append hturn, fun n hn => ?_⟩
  · simp [List.foldlM_append, hswept.run, hrun]
  · have hon : (head :: (kept ++ x :: rest)).Sublist (head :: xs) := by
      rw [← hxs]
      exact (hswept.sub.append_right _).cons_cons head
    have hsame := hoff n ⟨hn.1, fun hmem => hn.2 (hon.subset hmem)⟩
    exact ⟨hsame.1.trans (hswept.off n hn).1, hsame.2.trans (hswept.off n hn).2⟩

/-- **A loop whose body deletes at most the node it is run on** runs it on every node the
list had, once and in order, and ends. -/
theorem listForEachEntrySafe_deletes {others : N → Prop} (hbody : DeletesAtMost links body head others)
    (hlist : Represents (links s) head xs) :
    ∃ s' kept, Swept links body head others xs s xs kept s' ∧ Represents (links s') head kept ∧
      ∀ fuel, xs.length < fuel → listForEachEntrySafe links body head fuel s = some (xs, s') := by
  have hturn : TurnKeeps links body head xs (Swept links body head others xs s) :=
    fun visited kept x rest s' hxs hlist hswept => hswept.step hbody hxs hlist
  have hstart : Swept links body head others xs s [] [] s := ⟨rfl, .slnil, fun _ _ => ⟨rfl, rfl⟩⟩
  obtain ⟨s', kept, -, hlist', hswept⟩ := listForEachEntrySafe_rule hturn hlist hstart (Nat.lt_succ_self _)
  refine ⟨s', kept, hswept, hlist', fun fuel hfuel => ?_⟩
  obtain ⟨t, kept', hrun, -, hswept'⟩ := listForEachEntrySafe_rule hturn hlist hstart hfuel
  obtain rfl := Option.some.inj (hswept.run.symm.trans hswept'.run)
  exact hrun

/-- A body that deletes the nodes of a kind and does nothing else. -/
def deleteIf (p : N → Bool) (pos : N) (h : Links N) : Option (Links N) :=
  if p pos then listDeleteEntry h pos else some h

theorem deletesAtMost_deleteIf (p : N → Bool) (head : N) :
    DeletesAtMost id (deleteIf p) head fun _ => True := by
  intro h xs pos hlist hmem
  unfold deleteIf
  cases p pos with
  | false => exact ⟨h, rfl, .inl fun _ _ => ⟨rfl, rfl⟩⟩
  | true =>
    obtain ⟨as, bs, rfl⟩ := List.append_of_mem hmem
    obtain ⟨h', hdelete, -⟩ := Represents.deleteEntry hlist
    exact ⟨h', hdelete, .inr ⟨h', hdelete, fun _ _ => ⟨rfl, rfl⟩⟩⟩

/-- The nodes of the kind are the ones that go. -/
theorem listForEachEntrySafe_deleteIf (p : N → Bool) (hlist : Represents h head xs) {fuel : Nat}
    (hfuel : xs.length < fuel) :
    ∃ h', listForEachEntrySafe id (deleteIf p) head fuel h = some (xs, h') ∧
      Represents h' head (xs.filter fun x => !p x) := by
  have hturn : TurnKeeps id (deleteIf p) head xs fun visited kept _ => kept = visited.filter fun x => !p x := by
    intro visited kept x rest h hxs hlist hkept
    unfold deleteIf
    cases hp : p x with
    | false =>
      refine ⟨h, kept ++ [x], rfl, ?_, by simp [hkept, hp]⟩
      rw [← List.append_cons]
      exact hlist
    | true =>
      obtain ⟨h', hdelete, hlist', -⟩ := Represents.deleteEntry hlist
      exact ⟨h', kept, hdelete, hlist', by simp [hkept, hp]⟩
  have hlist : Represents (id h) head xs := hlist
  obtain ⟨h', kept, hloop, hlist', hkept⟩ := listForEachEntrySafe_rule hturn hlist rfl hfuel
  exact ⟨h', hloop, hkept ▸ hlist'⟩

/-- Where the body leaves the link of its node, there is no difference in when that is read. -/
theorem listForEachEntryFrom_eq_safe
    (hbody : ∀ s s' pos, body pos s = some s' → (links s').next pos = (links s).next pos) (fuel : Nat) (pos : N)
    (s : S) : listForEachEntryFrom links body head fuel pos s =
      listForEachEntrySafeFrom links body head fuel pos ((links s).next pos) s := by
  induction fuel generalizing pos s with
  | zero => rfl
  | succ fuel ih =>
    unfold listForEachEntryFrom listForEachEntrySafeFrom
    cases hrun : body pos s with
    | none => rfl
    | some s' => simp [hbody s s' pos hrun, ih]

theorem listForEachEntry_eq_safe
    (hbody : ∀ s s' pos, body pos s = some s' → (links s').next pos = (links s).next pos) (fuel : Nat) (s : S) :
    listForEachEntry links body head fuel s = listForEachEntrySafe links body head fuel s := by
  simp [listForEachEntry, listForEachEntrySafe, listForEachEntryFrom_eq_safe hbody]

end Loops

/-- **A list is the sequence of its nodes.** Adding, inserting and deleting are what they are on
sequences, and a loop that may delete the node it is at goes through the sequence. No list
without any of the nodes concerned is changed; through a loop, none that its body keeps off. -/
theorem lists_refine_sequences (hlist : Represents h head xs) :
    (∀ new, new ∉ head :: xs → ∃ h', listAddHead h new head = some h' ∧ Represents h' head (new :: xs) ∧
      Spares h h' (· ∉ new :: head :: xs)) ∧
    (∀ new, new ∉ head :: xs → ∃ h', listAddTail h new head = some h' ∧ Represents h' head (xs ++ [new]) ∧
      Spares h h' (· ∉ new :: head :: xs)) ∧
    (∀ new prev next, new ∉ head :: xs → prev ∈ head :: xs → h.next prev = some next →
      ∃ as bs, xs = as ++ bs ∧ (head :: as).getLast? = some prev ∧ (bs ++ [head]).head? = some next ∧
        Represents (listInsert h new prev next) head (as ++ new :: bs) ∧
        Spares h (listInsert h new prev next) (· ∉ new :: head :: xs)) ∧
    (∀ x ∈ xs, ∃ h', listDeleteEntry h x = some h' ∧ Represents h' head (xs.erase x) ∧
      Spares h h' (· ∉ head :: xs)) ∧
    (∀ (S : Type) (links : S → Links N) (body : N → S → Option S) (others : N → Prop) (s : S),
      links s = h → DeletesAtMost links body head others →
      ∃ s' kept, xs.foldlM (fun s pos => body pos s) s = some s' ∧
        (∀ fuel, xs.length < fuel → listForEachEntrySafe links body head fuel s = some (xs, s')) ∧
        kept.Sublist xs ∧ Represents (links s') head kept ∧
        Spares h (links s') fun n => others n ∧ n ∉ head :: xs) := by
  refine ⟨fun new hnew => ?_, fun new hnew => ?_, fun new prev next hnew hmem hlink => ?_, fun x hmem => ?_, ?_⟩
  · obtain ⟨h', hadd, hlist', hoff⟩ := hlist.addHead hnew
    exact ⟨h', hadd, hlist', hoff.spares⟩
  · obtain ⟨h', hadd, hlist', hoff⟩ := hlist.addTail hnew
    exact ⟨h', hadd, hlist', hoff.spares⟩
  · obtain ⟨as, bs, rfl, hprev, hnext⟩ := hlist.exists_split hmem hlink
    obtain ⟨hlist', hoff⟩ := hlist.insert hnew hprev hnext
    exact ⟨as, bs, rfl, hprev, hnext, hlist', hoff.spares⟩
  · obtain ⟨as, bs, -, rfl, herase⟩ := List.exists_erase_eq hmem
    obtain ⟨h', hdelete, hlist', hoff⟩ := hlist.deleteEntry
    refine ⟨h', hdelete, herase ▸ hlist', Agree.spares fun n hn => hoff n fun hon => hn ?_⟩
    exact Circular.sublist_remove.subset hon
  · intro S links body others s hs hbody
    subst hs
    obtain ⟨s', kept, hswept, hlist', hrun⟩ := listForEachEntrySafe_deletes hbody hlist
    exact ⟨s', kept, hswept.run, hrun, hswept.sub, hlist', hswept.off.spares⟩

/-- Nodes 1, 2 and 3 on the list of node 0. -/
def three : Links Nat where
  next n := some ((n + 1) % 4)
  prev n := some ((n + 3) % 4)

theorem three_represents : Represents three 0 [1, 2, 3] where
  links := by simp [Stretch, Neighbours, three]
  nodup := by decide

theorem lists_refine_sequences_three :
    (∃ h', listAddHead three 9 0 = some h' ∧ Represents h' 0 [9, 1, 2, 3]) ∧
      (∃ h', listDeleteEntry three 2 = some h' ∧ Represents h' 0 [1, 3]) ∧
      ∃ h', listForEachEntrySafe id (deleteIf (· == 2)) 0 4 three = some ([1, 2, 3], h') := by
  obtain ⟨hadd, -, -, hdelete, hloop⟩ := lists_refine_sequences three_represents
  obtain ⟨h', hadd, hlist, -⟩ := hadd 9 (by decide)
  obtain ⟨h'', hdelete, hlist', -⟩ := hdelete 2 (by decide)
  obtain ⟨s', kept, -, hrun, -⟩ := hloop _ id _ _ three rfl (deletesAtMost_deleteIf (· == 2) 0)
  exact ⟨⟨h', hadd, hlist⟩, ⟨h'', hdelete, hlist'⟩, s', hrun 4 (by decide)⟩

/-! ### The heap of the stack -/

section Heap

variable {T E : Type}

/-- The links of a heap whose nodes are the heads of tables and the fields of entries. -/
def ofHeap (h : LinkedList.Heap T E) : Links (LinkedList.Node T E) where
  next n := (h n).next
  prev n := (h n).prev

theorem onList_iff_represents {h : LinkedList.Heap T E} {t : T} {es : List E} :
    LinkedList.OnList h t es ↔ Represents (ofHeap h) (.head t) (es.map .entry) :=
  LinkedList.onList_iff

variable [DecidableEq T] [DecidableEq E] (h : LinkedList.Heap T E) (n new head : LinkedList.Node T E)

theorem ofHeap_update (links : LinkedList.Links T E) :
    ofHeap (Function.update h n links) = ((ofHeap h).setNext n links.next).setPrev n links.prev :=
  Links.ext (Function.comp_update LinkedList.Links.next h n links)
    (Function.comp_update LinkedList.Links.prev h n links)

theorem ofHeap_setNext (next : Option (LinkedList.Node T E)) :
    ofHeap (h.setNext n next) = (ofHeap h).setNext n next := by
  have hkept : (ofHeap h).prev = Function.update (ofHeap h).prev n (h n).prev :=
    (Function.update_eq_self n (ofHeap h).prev).symm
  rw [LinkedList.Heap.setNext, ofHeap_update]
  exact Links.ext rfl hkept.symm

theorem ofHeap_setPrev (prev : Option (LinkedList.Node T E)) :
    ofHeap (h.setPrev n prev) = (ofHeap h).setPrev n prev := by
  have hkept : (ofHeap h).next = Function.update (ofHeap h).next n (h n).next :=
    (Function.update_eq_self n (ofHeap h).next).symm
  rw [LinkedList.Heap.setPrev, ofHeap_update]
  exact Links.ext hkept.symm rfl

theorem ofHeap_init : ofHeap (h.init n) = initListHead (ofHeap h) n := ofHeap_update h n ⟨some n, some n⟩

theorem isEmpty_eq : h.isEmpty n = listEmpty (ofHeap h) n := rfl

theorem ofHeap_insert (prev next : LinkedList.Node T E) :
    ofHeap (h.insert new prev next) = listInsert (ofHeap h) new prev next := by
  rw [LinkedList.Heap.insert, ofHeap_update, ofHeap_setNext, ofHeap_setPrev, listInsert]

theorem ofHeap_addHead : (h.addHead new head).map ofHeap = listAddHead (ofHeap h) new head := by
  unfold LinkedList.Heap.addHead listAddHead
  show _ = (h head).next.bind _
  cases (h head).next with
  | none => rfl
  | some next => exact congrArg some (ofHeap_insert h new head next)

theorem ofHeap_addTail : (h.addTail new head).map ofHeap = listAddTail (ofHeap h) new head := by
  unfold LinkedList.Heap.addTail listAddTail
  show _ = (h head).prev.bind _
  cases (h head).prev with
  | none => rfl
  | some prev => exact congrArg some (ofHeap_insert h new prev head)

theorem ofHeap_deleteEntry : (h.deleteEntry n).map ofHeap = listDeleteEntry (ofHeap h) n := by
  unfold LinkedList.Heap.deleteEntry listDeleteEntry
  show _ = (h n).next.bind _
  cases (h n).next with
  | none => rfl
  | some next =>
    -- both sides go on from the memory the first write leaves
    have hfirst : (ofHeap h).setPrev next ((ofHeap h).prev n) = ofHeap (h.setPrev next (h n).prev) :=
      (ofHeap_setPrev h next (h n).prev).symm
    simp only [Option.bind_some, Option.bind_eq_bind, hfirst]
    generalize h.setPrev next (h n).prev = g
    show _ = (g n).prev.bind _
    cases (g n).prev with
    | none => rfl
    | some prev => exact congrArg some (ofHeap_setNext g prev (g n).next)

end Heap

end NetStack.ListHead
