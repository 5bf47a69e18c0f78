import NetStack.Lib.LongestPrefix
import NetStack.Lookup.Simple

/-! What the basic trie answers, and when that is the longest prefix match.

`add_node` never writes a node that exists, so a node keeps what the first entry
that ran through it left there: its port if it ended there, -1 if it went on. The
answer of a lookup is therefore the port of the longest prefix of the address whose
first entry ended at it (`firstPort`); a later entry for the prefix, or a shorter one
that comes after a longer one on its path, is never seen. The loop of `lookup` stops
at level 31, so 32-bit entries are never seen either, and an address that reaches a
node of that level with its last bit clear is answered from the uninitialized
variable. `lookup_iff` says that these are all the ways to miss the longest match. -/
namespace NetStack.Lookup

open LongestPrefix (longestMatch IsMatch)

/-! ### The longest match of a table -/

/-- The port of the longest entry that matches, the last one inserted among entries
for one prefix; the default port 0 when none matches. -/
def bestPort (entries : List RouterEntry) (netID : U32) : Int :=
  match longestMatch RouterEntry.path entries (bits netID) with
  | some e => e.port
  | none => 0

theorem bestPort_nonneg (entries : List RouterEntry) (hport : ∀ e ∈ entries, 0 ≤ e.port) (netID : U32) :
    0 ≤ bestPort entries netID := by
  unfold bestPort
  split
  · rename_i e he
    obtain ⟨before, after, rfl, _⟩ := (LongestPrefix.longestMatch_isMatch _ _ _ _ he).split
    exact hport e (by simp)
  · exact le_refl 0

namespace Simple

/-! ### The nodes of a trie -/

/-- The network and port of the node at the end of a path. -/
def TreeNode.at? : TreeNode → List Bool → Option (U32 × Int)
  | .null, _ => none
  | .node net _ port _ _, [] => some (net, port)
  | .node _ _ _ left right, b :: w => (if b then right else left).at? w

@[simp] theorem at?_null (w : List Bool) : TreeNode.null.at? w = none := by
  cases w <;> rfl

@[simp] theorem at?_nil (net : U32) (len : Nat) (port : Int) (l r : TreeNode) :
    (TreeNode.node net len port l r).at? [] = some (net, port) := rfl

@[simp] theorem at?_cons (net : U32) (len : Nat) (port : Int) (l r : TreeNode) (b : Bool)
    (w : List Bool) : (TreeNode.node net len port l r).at? (b :: w) = (if b then r else l).at? w := rfl

/-- What `insert_tree` writes into the node at path `w` of an entry's prefix. -/
def fresh (entry : RouterEntry) (w : List Bool) : U32 × Int :=
  (entry.net &&& getMask w.length, if entry.path = w then entry.port else -1)

theorem at?_insertTree (entry : RouterEntry) (hlen : entry.prefixLen ≤ 32) (k : Nat)
    (hk : k < entry.prefixLen) (w : List Bool) :
    (insertTree entry (k + 1)).at? w =
      if w = [] then some (fresh entry (entry.path.take (k + 1))) else none := by
  cases w with
  | cons b w => simp [insertTree]
  | nil =>
    have hpath := length_path entry hlen
    have htake : (entry.path.take (k + 1)).length = k + 1 := by
      rw [List.length_take]
      omega
    have hends : entry.path = entry.path.take (k + 1) ↔ ¬ entry.prefixLen ≠ k + 1 := by
      constructor
      · intro h
        have := congrArg List.length h
        omega
      · intro h
        exact (List.take_of_length_le (by omega)).symm
    simp only [insertTree, fresh, at?_nil, htake, if_true]
    by_cases h : entry.prefixLen = k + 1
    · rw [if_neg (not_not.mpr h), if_pos (hends.mpr (not_not.mpr h))]
    · rw [if_pos h, if_neg (fun he => hends.mp he h)]

theorem fresh_child (entry : RouterEntry) (hlen : entry.prefixLen ≤ 32) (k : Nat)
    (hk : k < entry.prefixLen) (child : TreeNode) (w : List Bool) :
    ((if child.isNull then insertTree entry (k + 1) else child).at? w).or
        (if w <+: entry.path.drop (k + 1) then some (fresh entry (entry.path.take (k + 1) ++ w)) else none) =
      (child.at? w).or
        (if w <+: entry.path.drop (k + 1) then some (fresh entry (entry.path.take (k + 1) ++ w)) else none) := by
  cases child with
  | node => rfl
  | null =>
    simp only [TreeNode.isNull, if_true, at?_insertTree entry hlen k hk, at?_null, Option.none_or]
    cases w with
    | nil => simp
    | cons b w => simp

/-- Below level `k` an insertion adds the missing nodes of the entry's path and
nothing else. -/
theorem at?_addNodeLoop (entry : RouterEntry) (hlen : entry.prefixLen ≤ 32) (n k : Nat)
    (hn : k + n = entry.prefixLen) (mask : U32) (t : TreeNode) (ht : t.isNull = false) (w : List Bool) :
    (addNodeLoop entry n (k + 1) mask (topBit >>> k) t).1.at? w =
      (t.at? w).or
        (if w <+: entry.path.drop k then some (fresh entry (entry.path.take k ++ w)) else none) := by
  induction n generalizing k mask t w with
  | zero =>
    have hdrop : entry.path.drop k = [] := List.drop_of_length_le (by rw [length_path entry hlen]; omega)
    cases t with
    | null => exact absurd ht (by decide)
    | node net len port l r =>
      cases w with
      | nil => simp [addNodeLoop]
      | cons b w => simp [addNodeLoop, hdrop]
  | succ n ih =>
    cases t with
    | null => exact absurd ht (by decide)
    | node net len port l r =>
      have hk : k < entry.prefixLen := by omega
      have hshift : (topBit >>> k) >>> 1 = topBit >>> (k + 1) := by
        rw [BitVec.shiftRight_add]
      have hchild : ∀ c : TreeNode,
          (if c.isNull = true then insertTree entry (k + 1) else c).isNull = false := by
        intro c
        cases c <;> rfl
      have hstep : ∀ (c : TreeNode) (v : List Bool), (addNodeLoop entry n (k + 1 + 1) (mask.sshiftRight 1)
            (topBit >>> k >>> 1) (if c.isNull = true then insertTree entry (k + 1) else c)).1.at? v =
          (c.at? v).or (if v <+: entry.path.drop (k + 1)
            then some (fresh entry (entry.path.take (k + 1) ++ v)) else none) := by
        intro c v
        rw [hshift, ih (k + 1) (by omega) _ _ (hchild c), fresh_child entry hlen k hk]
      simp only [addNodeLoop, bitClear_eq entry.net k (by omega), drop_path entry hlen k hk]
      rw [take_path entry hlen k hk] at hstep
      cases w with
      | nil => cases entry.net.getMsbD k <;> simp
      | cons b w =>
        cases hbit : entry.net.getMsbD k <;> rw [hbit] at hstep <;> cases b <;> simp [hstep]

theorem isNull_addNode (t : TreeNode) (ht : t.isNull = false) (entry : RouterEntry) :
    (addNode t entry).1.isNull = false := by
  unfold addNode
  cases t with
  | null => exact absurd ht (by decide)
  | node net len port l r =>
    cases entry.prefixLen with
    | zero => rfl
    | succ n =>
      simp only [addNodeLoop]
      split <;> rfl

/-- **What a table holds at a path**: what the first entry that ran through it wrote. -/
theorem at?_build (entries : List RouterEntry) (hlen : ∀ e ∈ entries, e.prefixLen ≤ 32) (w : List Bool) :
    (build entries).at? w = (initTree.at? w).or
      ((entries.find? fun e => decide (w <+: e.path)).map (fresh · w)) := by
  suffices ∀ t : TreeNode, t.isNull = false →
      (entries.foldl (fun root e => (addNode root e).1) t).at? w =
        (t.at? w).or ((entries.find? fun e => decide (w <+: e.path)).map (fresh · w)) from
    this initTree rfl
  induction entries with
  | nil => exact fun t _ => by simp
  | cons e rest ih =>
    intro t ht
    have he := hlen e List.mem_cons_self
    have hadd : (addNode t e).1.at? w =
        (t.at? w).or (if w <+: e.path then some (fresh e w) else none) := by
      have := at?_addNodeLoop e he e.prefixLen 0 (by omega) topBit t ht w
      simpa [addNode] using this
    rw [List.foldl_cons, ih (fun e' he' => hlen e' (List.mem_cons_of_mem _ he')) _
      (isNull_addNode t ht e), hadd, List.find?_cons]
    by_cases hw : w <+: e.path
    · simp [hw]
    · simp [hw]

/-! ### The walk of a lookup -/

/-- The ports on the way along `w`, the root's first. -/
def TreeNode.ports (t : TreeNode) (w : List Bool) : List Int :=
  w.inits.filterMap fun v => (t.at? v).map Prod.snd

theorem ports_nil (net : U32) (len : Nat) (port : Int) (l r : TreeNode) :
    (TreeNode.node net len port l r).ports [] = [port] := by
  simp [TreeNode.ports]

theorem ports_cons (net : U32) (len : Nat) (port : Int) (l r : TreeNode) (b : Bool) (w : List Bool) :
    (TreeNode.node net len port l r).ports (b :: w) = port :: (if b then r else l).ports w := by
  simp [TreeNode.ports, List.filterMap_map, Function.comp_def]

theorem ports_null (w : List Bool) : TreeNode.null.ports w = [] := by
  simp [TreeNode.ports]

/-- From level `k` on, a lookup walks back from where the address leaves the trie;
an address that is still in the trie at level 31 gets there with `port` unwritten. -/
theorem lookupLoop_eq (netID : U32) (junk : Int) (n k : Nat) (hn : k + n = 31) (t : TreeNode)
    (ht : t.isNull = false) (up : List Int) :
    lookupLoop netID junk t up (k + 1) (topBit >>> k) =
      match t.at? (((bits netID).drop k).take n) with
      | none => lookBack ((t.ports (((bits netID).drop k).take n)).reverse ++ up)
      | some (net, _) =>
        finish netID 32 net junk ((t.ports (((bits netID).drop k).take n)).reverse ++ up) := by
  induction n generalizing k t up with
  | zero =>
    obtain rfl : k = 31 := by omega
    cases t with
    | null => exact absurd ht (by decide)
    | node net len port l r => simp [lookupLoop, ports_nil]
  | succ n ih =>
    cases t with
    | null => exact absurd ht (by decide)
    | node net len port l r =>
      have hk : k + 1 < 32 := by omega
      have hshift : (topBit >>> k) >>> 1 = topBit >>> (k + 1) := by
        rw [BitVec.shiftRight_add]
      have hchild : ∀ c : TreeNode,
          (if c.isNull = true then lookBack (port :: up)
            else lookupLoop netID junk c (port :: up) (k + 1 + 1) (topBit >>> k >>> 1)) =
          match c.at? (((bits netID).drop (k + 1)).take n) with
          | none => lookBack ((c.ports (((bits netID).drop (k + 1)).take n)).reverse ++ port :: up)
          | some (net, _) => finish netID 32 net junk
              ((c.ports (((bits netID).drop (k + 1)).take n)).reverse ++ port :: up) := by
        intro c
        cases hc : c.isNull with
        | true =>
          obtain rfl : c = .null := by
            cases c
            · rfl
            · exact absurd hc (by simp [TreeNode.isNull])
          simp [ports_null]
        | false =>
          rw [hshift]
          simpa using ih (k + 1) (by omega) c hc (port :: up)
      rw [drop_bits netID k (by omega), List.take_succ_cons, at?_cons, ports_cons]
      simp only [lookupLoop, if_pos hk, bitClear_eq netID k (by omega), finish_lookBack]
      cases netID.getMsbD k <;> simp [hchild]

/-! ### The answer of a table -/

/-- The port the first entry through `w` left at it; `none` when that entry went on,
or no entry came by. -/
def settled (entries : List RouterEntry) (w : List Bool) : Option Int :=
  match entries.find? fun e => decide (w <+: e.path) with
  | some e => if e.path = w then some e.port else none
  | none => none

/-- The port at the longest prefix of the address, of 1 to 31 bits, whose first entry
ended there; the default port 0 without one. -/
def firstPort (entries : List RouterEntry) (netID : U32) : Int :=
  ((((bits netID).take 31).inits.tail.reverse).findSome? (settled entries)).getD 0

/-- The address reaches a node of level 31 with its last bit clear: the loop ends
without a `break` and the mask test after it passes. -/
def ReadsJunk (entries : List RouterEntry) (netID : U32) : Prop :=
  netID.getMsbD 31 = false ∧ ∃ e ∈ entries, (bits netID).take 31 <+: e.path

instance (entries : List RouterEntry) (netID : U32) : Decidable (ReadsJunk entries netID) := by
  unfold ReadsJunk
  infer_instance

theorem lookBack_eq (ports : List Int) : lookBack ports = ports.find? (· ≠ -1) := by
  induction ports with
  | nil => rfl
  | cons port up ih =>
    rw [lookBack, ih, List.find?_cons]
    by_cases h : port = -1 <;> simp [h]

theorem find?_reverse_filterMap {α : Type} (f : α → Option Int) (l : List α) :
    (l.filterMap f).reverse.find? (· ≠ -1) = l.reverse.findSome? fun a => (f a).filter (· ≠ -1) := by
  induction l with
  | nil => rfl
  | cons a l ih =>
    rw [List.reverse_cons, List.findSome?_append, ← ih, List.filterMap_cons]
    cases hf : f a with
    | none => simp [hf]
    | some port =>
      by_cases hport : port = -1 <;> simp [hf, hport, Option.filter]

theorem findSome?_congr {α β : Type} {f g : α → Option β} {l : List α} (h : ∀ a ∈ l, f a = g a) :
    l.findSome? f = l.findSome? g := by
  induction l with
  | nil => rfl
  | cons a l ih =>
    rw [List.findSome?_cons, List.findSome?_cons, h a List.mem_cons_self,
      ih fun b hb => h b (List.mem_cons_of_mem _ hb)]

/-- The look-back walk of a table answers with what the first entries left. -/
theorem lookBack_build (entries : List RouterEntry) (hlen : ∀ e ∈ entries, e.prefixLen ≤ 32)
    (hport : ∀ e ∈ entries, 0 ≤ e.port) (netID : U32) :
    lookBack ((build entries).ports ((bits netID).take 31)).reverse = some (firstPort entries netID) := by
  have hnode : ∀ w ≠ [], ((((build entries).at? w).map Prod.snd).filter (· ≠ -1)) = settled entries w := by
    intro w hw
    have hroot : initTree.at? w = none := by
      cases w with
      | nil => exact absurd rfl hw
      | cons b w => cases b <;> simp [initTree]
    rw [at?_build entries hlen, hroot, Option.none_or, settled]
    cases hfind : entries.find? fun e => decide (w <+: e.path) with
    | none => rfl
    | some e =>
      have hne : e.port ≠ -1 := by
        have := hport e (List.mem_of_find?_eq_some hfind)
        omega
      by_cases hends : e.path = w <;> simp [fresh, hends, hne, Option.filter]
  have hroot : (((build entries).at? []).map Prod.snd).filter (· ≠ -1) = some 0 := by
    rw [at?_build entries hlen]
    rfl
  obtain ⟨rest, hinits, hrest⟩ : ∃ rest, ((bits netID).take 31).inits = [] :: rest ∧ ∀ w ∈ rest, w ≠ [] := by
    obtain ⟨b, w, hbits⟩ : ∃ b w, (bits netID).take 31 = b :: w :=
      ⟨_, _, by rw [bits]; rfl⟩
    rw [hbits, List.inits_cons]
    exact ⟨_, rfl, fun v hv => by
      obtain ⟨u, _, rfl⟩ := List.mem_map.mp hv
      simp⟩
  have hfound : rest.reverse.findSome? (fun w => (((build entries).at? w).map Prod.snd).filter (· ≠ -1)) =
      rest.reverse.findSome? (settled entries) := by
    exact findSome?_congr fun w hw => hnode w (hrest w (List.mem_reverse.mp hw))
  rw [lookBack_eq, TreeNode.ports, find?_reverse_filterMap, firstPort, hinits, List.tail_cons,
    List.reverse_cons, List.findSome?_append, hfound]
  simp only [List.findSome?_cons, hroot]
  cases rest.reverse.findSome? (settled entries) <;> rfl

/-- At level 31 the last mask test compares the last bit of the address with the
clear last bit of the node's network. -/
theorem lastMask (e : RouterEntry) (netID : U32) (h : (bits netID).take 31 <+: e.path) :
    netID &&& getMask 32 = (e.net &&& getMask 31) &&& getMask 32 ↔ netID.getMsbD 31 = false := by
  have hones : getMask 32 = BitVec.allOnes 32 := by decide
  have hmask : ∀ j < 32, (getMask 31).getMsbD j = decide (j < 31) := by decide
  have hbits : ∀ j < 31, netID.getMsbD j = e.net.getMsbD j := by
    intro j hj
    have hget : ((bits netID).take 31)[j]? = e.path[j]? := by
      obtain ⟨t, ht⟩ := h
      rw [← ht, List.getElem?_append_left (by simp; omega)]
    have hlt : j < e.prefixLen := by
      by_contra hge
      have : e.path[j]? = none := by
        simp [RouterEntry.path]
        omega
      rw [this, List.getElem?_take_of_lt hj, getElem?_bits netID j (by omega)] at hget
      cases hget
    rw [RouterEntry.path, List.getElem?_take_of_lt hj, List.getElem?_take_of_lt hlt,
      getElem?_bits netID j (by omega), getElem?_bits e.net j (by omega)] at hget
    exact Option.some.inj hget
  rw [hones, BitVec.and_allOnes, BitVec.and_allOnes]
  constructor
  · intro heq
    rw [heq, BitVec.getMsbD_and, hmask 31 (by decide)]
    simp
  · intro hlast
    apply BitVec.eq_of_getMsbD_eq
    intro j hj
    rw [BitVec.getMsbD_and, hmask j hj]
    by_cases h31 : j = 31
    · subst h31
      simp [hlast]
    · have hj31 : j < 31 := by omega
      simp [hj31, hbits j hj31]

/-- **What a lookup answers**: the port of the first entries, except that an address
that reads the uninitialized variable gets that, unless it happens to be -1. -/
theorem lookup_build (entries : List RouterEntry) (hlen : ∀ e ∈ entries, e.prefixLen ≤ 32)
    (hport : ∀ e ∈ entries, 0 ≤ e.port) (junk : Int) (netID : U32) :
    lookup junk (build entries) netID = some
      (if ReadsJunk entries netID ∧ junk ≠ -1 then junk else firstPort entries netID) := by
  have hback := lookBack_build entries hlen hport netID
  have hroot : (build entries).isNull = false := by
    suffices ∀ t : TreeNode, t.isNull = false →
        (entries.foldl (fun root e => (addNode root e).1) t).isNull = false from this initTree rfl
    clear hlen hport hback
    induction entries with
    | nil => exact fun t ht => ht
    | cons e rest ih => exact fun t ht => ih _ (isNull_addNode t ht e)
  have hwalk := lookupLoop_eq netID junk 31 0 (by decide) (build entries) hroot []
  have hpath : (bits netID).take 31 ≠ [] := by
    intro h
    have := congrArg List.length h
    simp at this
  have hinit : initTree.at? ((bits netID).take 31) = none := by
    cases hw : (bits netID).take 31 with
    | nil => exact absurd hw hpath
    | cons b w => cases b <;> simp [initTree]
  have hat := at?_build entries hlen ((bits netID).take 31)
  rw [hinit, Option.none_or] at hat
  simp only [List.drop_zero, List.append_nil, hback] at hwalk
  rw [show lookup junk (build entries) netID =
    lookupLoop netID junk (build entries) [] (0 + 1) (topBit >>> 0) from rfl, hwalk, hat]
  cases hfind : entries.find? fun e => decide ((bits netID).take 31 <+: e.path) with
  | none =>
    have hno : ¬ ReadsJunk entries netID := by
      intro hyp
      obtain ⟨_, e, he, hpre⟩ := hyp
      have := List.find?_eq_none.mp hfind e he
      exact this (by simpa using hpre)
    simp [hno]
  | some e =>
    have he := List.mem_of_find?_eq_some hfind
    have hpre : (bits netID).take 31 <+: e.path := by
      simpa using List.find?_some hfind
    have hmask := lastMask e netID hpre
    have hlength : ((bits netID).take 31).length = 31 := by simp
    have hjunk : ReadsJunk entries netID ↔ netID.getMsbD 31 = false :=
      ⟨fun h => h.1, fun h => ⟨h, e, he, hpre⟩⟩
    simp only [Option.map_some, fresh, hlength, finish, hback]
    by_cases hlast : netID.getMsbD 31 = false
    · by_cases hj : junk = -1
      · simp [hmask.mpr hlast, hj]
      · simp [hmask.mpr hlast, hjunk.mpr hlast, hj]
    · have hne : ¬ netID &&& getMask 32 = e.net &&& getMask 31 &&& getMask 32 := fun h => hlast (hmask.mp h)
      simp [hne, hjunk, hlast]

end Simple

/-- **When a lookup is the longest prefix match.** For every table of prefixes of at
most 32 bits with non-negative ports and every address, whatever the uninitialized
variable holds: exactly when the address does not read that variable and the entry
that came first at the longest settled prefix has the port of the longest match. -/
theorem lookup_longestMatch_iff (entries : List RouterEntry) (hlen : ∀ e ∈ entries, e.prefixLen ≤ 32)
    (hport : ∀ e ∈ entries, 0 ≤ e.port) (netID : U32) :
    (∀ junk, Simple.lookup junk (Simple.build entries) netID = some (bestPort entries netID)) ↔
      ¬ Simple.ReadsJunk entries netID ∧ Simple.firstPort entries netID = bestPort entries netID := by
  constructor
  · intro h
    have hno : ¬ Simple.ReadsJunk entries netID := by
      intro hreads
      have hjunk := h (-2)
      rw [Simple.lookup_build entries hlen hport, if_pos ⟨hreads, by decide⟩] at hjunk
      have := bestPort_nonneg entries hport netID
      rw [← Option.some.inj hjunk] at this
      omega
    refine ⟨hno, ?_⟩
    have h0 := h 0
    rw [Simple.lookup_build entries hlen hport, if_neg (fun hr => hno hr.1)] at h0
    exact Option.some.inj h0
  · intro hyp junk
    obtain ⟨hno, hfirst⟩ := hyp
    rw [Simple.lookup_build entries hlen hport, if_neg (fun hr => hno hr.1), hfirst]

/-- A table inserted shorter prefixes first, as a sorted file gives it. -/
theorem lookup_longestMatch_sorted :
    bestPort [⟨0x0A000000#32, 8, 2⟩, ⟨0x0A010000#32, 16, 1⟩] 0x0A010203#32 = 1 ∧
      ∀ junk, Simple.lookup junk (Simple.build [⟨0x0A000000#32, 8, 2⟩, ⟨0x0A010000#32, 16, 1⟩])
        0x0A010203#32 = some (bestPort [⟨0x0A000000#32, 8, 2⟩, ⟨0x0A010000#32, 16, 1⟩] 0x0A010203#32) :=
  ⟨by decide, (lookup_longestMatch_iff _ (by decide) (by decide) _).mpr (by decide)⟩

/-- The other way round 10.0.0.0/8 lands on the inner node 10.1.0.0/16 made, and
10.2.0.0 gets the default port. -/
theorem lookup_misses_shorter :
    ¬ ∀ junk, Simple.lookup junk (Simple.build [⟨0x0A010000#32, 16, 1⟩, ⟨0x0A000000#32, 8, 2⟩])
      0x0A020000#32 = some (bestPort [⟨0x0A010000#32, 16, 1⟩, ⟨0x0A000000#32, 8, 2⟩] 0x0A020000#32) :=
  fun h => absurd (h 0) (by decide)

end NetStack.Lookup
