import Mathlib.Data.List.Chain
import Mathlib.Data.List.Nodup

/-! Circular doubly linked lists as sequences without repetition.

Two maps give every node the node it leads to and the node it leads back to, with `none`
for the null pointer. `Stretch` says which nodes the links pass from one end to another;
a list is `Circular` where they come round to the head they left. Part of a list is
exchanged by linking in the new part between the same two ends (`Stretch.splice`): to put
a node in is to exchange nothing for it, to take it off is to exchange it for nothing.

The ends may be the head, and may be the same node. -/
namespace NetStack

variable {N : Type} {next prev next' prev' : N → Option N} {a b head p q x y : N}
  {as bs old new xs ys : List N}

/-- A node leads to another, which leads back to it. -/
def Neighbours (next prev : N → Option N) (x y : N) : Prop := next x = some y ∧ prev y = some x

/-- The links lead from `a` through the nodes to `b`, and back. -/
def Stretch (next prev : N → Option N) (a : N) (xs : List N) (b : N) : Prop :=
  (a :: xs ++ [b]).IsChain (Neighbours next prev)

theorem stretch_nil : Stretch next prev a [] b ↔ next a = some b ∧ prev b = some a := by
  simp [Stretch, Neighbours]

theorem stretch_cons :
    Stretch next prev a (x :: xs) b ↔ (next a = some x ∧ prev x = some a) ∧ Stretch next prev x xs b := by
  simp [Stretch, Neighbours]

/-- A relation that holds of the neighbours in a list follows from another there. -/
theorem isChain_imp {R S : N → N → Prop} (hchain : xs.IsChain R)
    (himp : ∀ x ∈ xs.dropLast, ∀ y ∈ xs.tail, R x y → S x y) : xs.IsChain S := by
  induction xs with
  | nil => exact .nil
  | cons x xs ih =>
    cases xs with
    | nil => exact .singleton x
    | cons y ys =>
      obtain ⟨hxy, hrest⟩ := List.isChain_cons_cons.mp hchain
      apply List.isChain_cons_cons.mpr
      refine ⟨himp x (by simp) y (by simp) hxy, ih hrest fun u hu v hv => himp u ?_ v ?_⟩
      · exact List.mem_cons_of_mem x hu
      · exact List.mem_cons_of_mem y hv

namespace Stretch

theorem congr (hlinks : Stretch next prev a xs b) (hnext : ∀ n ∈ a :: xs, next' n = next n)
    (hprev : ∀ n ∈ xs ++ [b], prev' n = prev n) : Stretch next' prev' a xs b := by
  apply isChain_imp hlinks
  intro x hx y hy hxy
  rw [List.dropLast_concat] at hx
  exact ⟨(hnext x hx).trans hxy.1, (hprev y hy).trans hxy.2⟩

/-- The links cross from every first part of the nodes to the rest. -/
theorem crossing (hlinks : Stretch next prev a (as ++ bs) b) :
    ∃ p q, (a :: as).getLast? = some p ∧ (bs ++ [b]).head? = some q ∧ next p = some q ∧ prev q = some p := by
  have hlast : (a :: as).getLast? = some ((a :: as).getLast (by simp)) := List.getLast?_eq_some_getLast _
  have hfirst : (bs ++ [b]).head? = some ((bs ++ [b]).head (by simp)) := List.head?_eq_some_head _
  unfold Stretch at hlinks
  rw [← List.cons_append, List.append_assoc, List.isChain_append] at hlinks
  exact ⟨_, _, hlast, hfirst, hlinks.2.2 _ hlast _ hfirst⟩

/-- The links up to the end `p` of a chain stay when no node before it leads elsewhere. -/
theorem before (hchain : (a :: as).IsChain (Neighbours next prev)) (hnodup : (a :: as).Nodup)
    (hp : (a :: as).getLast? = some p) (hnext : ∀ n ∈ a :: as, n ≠ p → next' n = next n)
    (hprev : ∀ n ∈ as, prev' n = prev n) : (a :: as).IsChain (Neighbours next' prev') := by
  obtain ⟨front, hfront⟩ := List.getLast?_eq_some_iff.mp hp
  apply isChain_imp hchain
  intro x hx y hy hxy
  have hxp : x ≠ p := by
    intro heq
    rw [hfront, List.dropLast_concat] at hx
    rw [hfront] at hnodup
    exact List.disjoint_of_nodup_append hnodup hx (heq ▸ List.mem_singleton_self p)
  exact ⟨(hnext x (List.dropLast_subset _ hx) hxp).trans hxy.1, (hprev y hy).trans hxy.2⟩

/-- The links from the start `q` of a chain on stay when no node after it leads back elsewhere. -/
theorem after (hchain : (bs ++ [b]).IsChain (Neighbours next prev)) (hnodup : (bs ++ [b]).Nodup)
    (hq : (bs ++ [b]).head? = some q) (hnext : ∀ n ∈ bs, next' n = next n)
    (hprev : ∀ n ∈ bs ++ [b], n ≠ q → prev' n = prev n) :
    (bs ++ [b]).IsChain (Neighbours next' prev') := by
  obtain ⟨back, hback⟩ := List.head?_eq_some_iff.mp hq
  apply isChain_imp hchain
  intro x hx y hy hxy
  rw [List.dropLast_concat] at hx
  have hyq : y ≠ q := by
    intro heq
    rw [hback] at hy hnodup
    exact (List.nodup_cons.mp hnodup).1 (heq ▸ hy)
  exact ⟨(hnext x hx).trans hxy.1, (hprev y (List.mem_of_mem_tail hy) hyq).trans hxy.2⟩

/-- **Exchanging** a part of the nodes: the new part is linked in between the nodes the
old one was between, and no other link on the way is another. -/
theorem splice (hlinks : Stretch next prev a (as ++ old ++ bs) b) (hnodup : (a :: (as ++ bs)).Nodup)
    (hb : b ∉ as ++ bs) (hp : (a :: as).getLast? = some p) (hq : (bs ++ [b]).head? = some q)
    (hnext : ∀ n ∈ a :: (as ++ bs), n ≠ p → next' n = next n)
    (hprev : ∀ n ∈ as ++ bs ++ [b], n ≠ q → prev' n = prev n)
    (hnew : Stretch next' prev' p new q) : Stretch next' prev' a (as ++ new ++ bs) b := by
  obtain ⟨front, hfront⟩ := List.getLast?_eq_some_iff.mp hp
  obtain ⟨back, hback⟩ := List.head?_eq_some_iff.mp hq
  have hpmem : p ∈ a :: as := hfront ▸ List.mem_append_right front List.mem_cons_self
  have hqmem : q ∈ bs ++ [b] := hback ▸ List.mem_cons_self
  rw [← List.cons_append] at hnodup
  obtain ⟨hleft, hright, hapart⟩ := List.nodup_append'.mp hnodup
  rw [List.mem_append, not_or] at hb
  have hsplit : (a :: as ++ (old ++ (bs ++ [b]))).IsChain (Neighbours next prev) := by
    simpa [Stretch] using hlinks
  have hbefore : (front ++ [p]).IsChain (Neighbours next' prev') := by
    rw [← hfront]
    refine before hsplit.left_of_append hleft hp (fun n hn => hnext n ?_) fun n hn => hprev n ?_ ?_
    · exact List.mem_append_left bs hn
    · exact List.mem_append_left [b] (List.mem_append_left bs hn)
    · intro heq
      obtain rfl := heq
      rcases List.mem_append.mp hqmem with hmem | hmem
      · exact hapart (List.mem_cons_of_mem a hn) hmem
      · exact hb.1 (List.mem_singleton.mp hmem ▸ hn)
  have hafter : ([q] ++ back).IsChain (Neighbours next' prev') := by
    rw [List.singleton_append, ← hback]
    refine after hsplit.right_of_append.right_of_append ?_ hq (fun n hn => hnext n ?_ ?_) fun n hn => hprev n ?_
    · exact List.nodup_append'.mpr ⟨hright, List.nodup_singleton b, List.disjoint_singleton.mpr hb.2⟩
    · exact List.mem_cons_of_mem a (List.mem_append_right as hn)
    · exact fun heq => hapart hpmem (heq ▸ hn)
    · rw [List.append_assoc]
      exact List.mem_append_right as hn
  have hmiddle : ([p] ++ (new ++ [q])).IsChain (Neighbours next' prev') := hnew
  have hfirst : (front ++ [p] ++ new ++ [q]).IsChain (Neighbours next' prev') := by
    simpa using hbefore.append_overlap hmiddle (by simp)
  have hjoined : (front ++ [p] ++ new ++ [q] ++ back).IsChain (Neighbours next' prev') :=
    hfirst.append_overlap hafter (by simp)
  rw [← hfront] at hjoined
  simpa [Stretch, hback] using hjoined

end Stretch

/-- The nodes come in this order between the head and the head, each of them once. -/
structure Circular (next prev : N → Option N) (head : N) (xs : List N) : Prop where
  links : Stretch next prev head xs head
  nodup : (head :: xs).Nodup

namespace Circular

theorem head_notMem (hlist : Circular next prev head xs) : head ∉ xs := (List.nodup_cons.mp hlist.nodup).1

theorem sublist_remove : (head :: (as ++ bs)).Sublist (head :: (as ++ x :: bs)) :=
  ((List.sublist_cons_self x bs).append_left as).cons_cons head

/-- A list whose nodes keep their links is what it was. -/
theorem congr (hlist : Circular next prev head xs) (hnext : ∀ n ∈ head :: xs, next' n = next n)
    (hprev : ∀ n ∈ head :: xs, prev' n = prev n) : Circular next' prev' head xs := by
  refine ⟨hlist.links.congr hnext fun n hn => hprev n ?_, hlist.nodup⟩
  exact (List.perm_append_singleton head xs).subset hn

theorem splice (hlist : Circular next prev head (as ++ old ++ bs)) (hnodup : (head :: (as ++ new ++ bs)).Nodup)
    (hp : (head :: as).getLast? = some p) (hq : (bs ++ [head]).head? = some q)
    (hnext : ∀ n ∈ head :: (as ++ bs), n ≠ p → next' n = next n)
    (hprev : ∀ n ∈ head :: (as ++ bs), n ≠ q → prev' n = prev n)
    (hnew : Stretch next' prev' p new q) : Circular next' prev' head (as ++ new ++ bs) := by
  have hrest : (head :: (as ++ bs)).Nodup := by
    refine List.Nodup.sublist (List.Sublist.cons_cons head ?_) hnodup
    rw [List.append_assoc]
    exact (List.sublist_append_right new bs).append_left as
  refine ⟨hlist.links.splice hrest (List.nodup_cons.mp hrest).1 hp hq hnext (fun n hn => hprev n ?_) hnew, hnodup⟩
  exact (List.perm_append_singleton head (as ++ bs)).subset hn

theorem last_mem (bs : List N) (hp : (head :: as).getLast? = some p) : p ∈ head :: (as ++ bs) :=
  List.mem_append_left bs (List.mem_of_getLast? hp)

theorem first_mem (as : List N) (hq : (bs ++ [head]).head? = some q) : q ∈ head :: (as ++ bs) := by
  have hmem := (List.perm_append_singleton head bs).subset (List.mem_of_head? hq)
  exact ((List.sublist_append_right as bs).cons_cons head).subset hmem

/-- Where a node of the list, or its head, parts it. -/
theorem exists_split (hmem : p ∈ head :: xs) :
    ∃ as bs, xs = as ++ bs ∧ (head :: as).getLast? = some p := by
  rcases List.mem_cons.mp hmem with heq | hmem
  · exact ⟨[], xs, rfl, by rw [heq]; rfl⟩
  · obtain ⟨as, bs, rfl⟩ := List.append_of_mem hmem
    exact ⟨as ++ [p], bs, by simp, by rw [← List.cons_append, List.getLast?_concat]⟩

/-- The neighbours of a node on the list. -/
theorem neighbours (hlist : Circular next prev head (as ++ x :: bs)) :
    ∃ p q, (head :: as).getLast? = some p ∧ (bs ++ [head]).head? = some q ∧
      prev x = some p ∧ next x = some q := by
  obtain ⟨p, y, hp, hy, -, hback⟩ := hlist.links.crossing
  obtain rfl : x = y := Option.some.inj hy
  rw [List.append_cons] at hlist
  obtain ⟨z, q, hz, hq, hforth, -⟩ := hlist.links.crossing
  rw [← List.cons_append, List.getLast?_concat] at hz
  obtain rfl := Option.some.inj hz
  exact ⟨p, q, hp, hq, hback, hforth⟩

/-- What a node of the list leads to is on it and leads back. -/
theorem next_mem (hlist : Circular next prev head xs) (hx : x ∈ head :: xs) :
    ∃ y ∈ head :: xs, next x = some y ∧ prev y = some x := by
  obtain ⟨as, bs, rfl, hlast⟩ := exists_split hx
  obtain ⟨p, y, hp, hy, hlinks⟩ := hlist.links.crossing
  obtain rfl := Option.some.inj (hlast.symm.trans hp)
  exact ⟨y, first_mem as hy, hlinks⟩

/-- Only a head can lead to itself. -/
theorem next_ne_self (hlist : Circular next prev head xs) (hx : x ∈ xs) : next x ≠ some x := by
  obtain ⟨as, bs, rfl⟩ := List.append_of_mem hx
  obtain ⟨p, q, -, hq, -, hnext⟩ := hlist.neighbours
  intro hself
  obtain rfl := Option.some.inj (hnext.symm.trans hself)
  rcases List.mem_append.mp (List.mem_of_head? hq) with hmem | hmem
  · exact (List.nodup_cons.mp (List.nodup_append'.mp (List.nodup_cons.mp hlist.nodup).2).2.1).1 hmem
  · exact hlist.head_notMem (List.mem_singleton.mp hmem ▸ hx)

variable [DecidableEq N]

/-- **Putting in** a node that is not on the list, between two that follow each other. -/
theorem insert (hlist : Circular next prev head (as ++ bs)) (hx : x ∉ head :: (as ++ bs))
    (hp : (head :: as).getLast? = some p) (hq : (bs ++ [head]).head? = some q)
    (hnext : ∀ n, next' n = if n = x then some q else if n = p then some x else next n)
    (hprev : ∀ n, prev' n = if n = x then some p else if n = q then some x else prev n) :
    Circular next' prev' head (as ++ x :: bs) := by
  have hold : ∀ n ∈ head :: (as ++ bs), n ≠ x := fun n hn heq => hx (heq ▸ hn)
  have hxp := hold p (last_mem bs hp)
  have hxq := hold q (first_mem as hq)
  have hnodup : (head :: (as ++ [x] ++ bs)).Nodup := by
    rw [← List.append_cons, ← List.cons_append, List.nodup_middle]
    exact List.nodup_cons.mpr ⟨hx, hlist.nodup⟩
  have hlist : Circular next prev head (as ++ [] ++ bs) := by rwa [List.append_nil]
  rw [List.append_cons]
  apply hlist.splice hnodup hp hq
  · intro n hn hnp
    rw [hnext, if_neg (hold n hn), if_neg hnp]
  · intro n hn hnq
    rw [hprev, if_neg (hold n hn), if_neg hnq]
  · rw [stretch_cons, stretch_nil]
    refine ⟨⟨?_, ?_⟩, ?_, ?_⟩
    · rw [hnext, if_neg hxp, if_pos rfl]
    · rw [hprev, if_pos rfl]
    · rw [hnext, if_pos rfl]
    · rw [hprev, if_neg hxq, if_pos rfl]

/-- **Taking off** a node. -/
theorem remove (hlist : Circular next prev head (as ++ x :: bs)) (hp : (head :: as).getLast? = some p)
    (hq : (bs ++ [head]).head? = some q) (hnext : ∀ n, next' n = if n = p then some q else next n)
    (hprev : ∀ n, prev' n = if n = q then some p else prev n) : Circular next' prev' head (as ++ bs) := by
  have hnodup : (head :: (as ++ [] ++ bs)).Nodup := by
    rw [List.append_nil]
    exact List.Nodup.sublist sublist_remove hlist.nodup
  rw [List.append_cons] at hlist
  rw [← List.append_nil as]
  apply hlist.splice hnodup hp hq
  · exact fun n _ hnp => by rw [hnext, if_neg hnp]
  · exact fun n _ hnq => by rw [hprev, if_neg hnq]
  · rw [stretch_nil, hnext, if_pos rfl, hprev, if_pos rfl]
    exact ⟨rfl, rfl⟩

end Circular

end NetStack
