import NetStack.Lookup.Simple
import NetStack.Lookup.LeafPushing

/-! The leaf-pushing trie answers as the basic trie.

The README takes the basic trie as the reference for the other one. The two hold
different things: a leaf-pushing node has the port it inherited when it was made, a
basic node -1 and a parent to ask. Neither program writes a node again once it is
made, so the inherited port and the look-back walk agree for good: `Inherits` says
so node by node, every insertion keeps it, and a lookup that stops at matching nodes
answers the same. Prefixes of at most 30 bits keep the trees low enough for the loop
of `lookup` to end in a `break`, with its port variable written. -/
namespace NetStack.Lookup

/-- Below a node whose look-back answer is `inherited`, each leaf-pushing node holds
the look-back answer of the basic node in its place. -/
def Inherits : Int → Simple.TreeNode → LeafPushing.TreeNode → Prop
  | _, .null, .null => True
  | inherited, .node _ _ port left right, .node port' left' right' =>
    port' = (if port = -1 then inherited else port) ∧
      Inherits port' left left' ∧ Inherits port' right right'
  | _, _, _ => False

namespace Simple

/-- Levels of nodes. -/
def TreeNode.height : TreeNode → Nat
  | .null => 0
  | .node _ _ _ left right => max left.height right.height + 1

/-- An insertion reaches one level per prefix bit. -/
theorem height_addNodeLoop (entry : RouterEntry) (n i : Nat) (mask prefixBit : U32) (t : TreeNode) :
    (addNodeLoop entry n i mask prefixBit t).1.height ≤ max t.height (n + 1) := by
  induction n generalizing i mask prefixBit t with
  | zero =>
    cases t <;> simp [addNodeLoop]
  | succ n ih =>
    cases t with
    | null => simp [addNodeLoop, TreeNode.height]
    | node net len port left right =>
      have hfresh : (insertTree entry i).height = 1 := rfl
      have hchild : ∀ c : TreeNode,
          (if c.isNull = true then insertTree entry i else c).height ≤ max c.height 1 := by
        intro c
        split
        · omega
        · omega
      simp only [addNodeLoop]
      split
      · have h := ih (i + 1) (mask.sshiftRight 1) (prefixBit >>> 1)
          (if left.isNull = true then insertTree entry i else left)
        have hc := hchild left
        simp only [TreeNode.height]
        omega
      · have h := ih (i + 1) (mask.sshiftRight 1) (prefixBit >>> 1)
          (if right.isNull = true then insertTree entry i else right)
        have hc := hchild right
        simp only [TreeNode.height]
        omega

end Simple

/-! ### Insertions keep the two tries together -/

theorem Inherits.isNull {p : Int} {t : Simple.TreeNode} {u : LeafPushing.TreeNode}
    (h : Inherits p t u) : t.isNull = u.isNull := by
  cases t <;> cases u
  · rfl
  · exact absurd h (by simp [Inherits])
  · exact absurd h (by simp [Inherits])
  · rfl

theorem inherits_insertTree (entry : RouterEntry) (hport : 0 ≤ entry.port) (i : Nat) (p : Int) :
    Inherits p (Simple.insertTree entry i) (LeafPushing.insertTree entry i p) := by
  refine ⟨?_, trivial, trivial⟩
  by_cases hlen : entry.prefixLen = i
  · have hne : entry.port ≠ -1 := by omega
    simp [hlen, hne]
  · simp [hlen]

theorem inherits_child (entry : RouterEntry) (hport : 0 ≤ entry.port) (i : Nat) (p : Int)
    {t : Simple.TreeNode} {u : LeafPushing.TreeNode} (h : Inherits p t u) :
    Inherits p (if t.isNull then Simple.insertTree entry i else t)
      (if u.isNull then LeafPushing.insertTree entry i p else u) := by
  rw [← h.isNull]
  cases t.isNull
  · exact h
  · exact inherits_insertTree entry hport i p

theorem inherits_addNodeLoop (entry : RouterEntry) (hport : 0 ≤ entry.port) (n i : Nat)
    (mask prefixBit : U32) (p : Int) (t : Simple.TreeNode) (u : LeafPushing.TreeNode)
    (h : Inherits p t u) :
    Inherits p (Simple.addNodeLoop entry n i mask prefixBit t).1
      (LeafPushing.addNodeLoop entry n i prefixBit u).1 := by
  induction n generalizing i mask prefixBit p t u with
  | zero =>
    cases t <;> cases u <;> exact h
  | succ n ih =>
    cases t with
    | null =>
      cases u with
      | null => exact h
      | node => exact absurd h (by simp [Inherits])
    | node net len port left right =>
      cases u with
      | null => exact absurd h (by simp [Inherits])
      | node port' left' right' =>
        obtain ⟨hp, hl, hr⟩ := h
        simp only [Simple.addNodeLoop, LeafPushing.addNodeLoop]
        split
        · exact ⟨hp, ih _ _ _ _ _ _ (inherits_child entry hport i port' hl), hr⟩
        · exact ⟨hp, hl, ih _ _ _ _ _ _ (inherits_child entry hport i port' hr)⟩

/-- What the two tables keep in common while entries of at most 30 bits go in. -/
structure Aligned (t : Simple.TreeNode) (u : LeafPushing.TreeNode) : Prop where
  inherits : Inherits 0 t u
  height : t.height ≤ 31

theorem aligned_addNode (entry : RouterEntry) (hlen : entry.prefixLen ≤ 30) (hport : 0 ≤ entry.port)
    {t : Simple.TreeNode} {u : LeafPushing.TreeNode} (h : Aligned t u) :
    Aligned (Simple.addNode t entry).1 (LeafPushing.addNode u entry).1 := by
  have hheight := Simple.height_addNodeLoop entry entry.prefixLen 1 topBit topBit t
  exact ⟨inherits_addNodeLoop entry hport _ _ _ _ _ _ _ h.inherits,
    le_trans hheight (by have := h.height; omega)⟩

theorem aligned_build (entries : List RouterEntry) (hlen : ∀ e ∈ entries, e.prefixLen ≤ 30)
    (hport : ∀ e ∈ entries, 0 ≤ e.port) :
    Aligned (Simple.build entries) (LeafPushing.build entries) := by
  suffices ∀ t u, Aligned t u → Aligned (entries.foldl (fun root e => (Simple.addNode root e).1) t)
      (entries.foldl (fun root e => (LeafPushing.addNode root e).1) u) from
    this _ _ ⟨⟨rfl, trivial, trivial⟩, by decide⟩
  induction entries with
  | nil => exact fun t u h => h
  | cons e rest ih =>
    intro t u h
    exact ih (fun e' he => hlen e' (List.mem_cons_of_mem _ he))
      (fun e' he => hport e' (List.mem_cons_of_mem _ he)) _ _
      (aligned_addNode e (hlen e List.mem_cons_self) (hport e List.mem_cons_self) h)

/-! ### Lookups -/

/-- The look-back walk from the root of `t`, whose ancestors have the ports `up`, ends
at the port of `u`. -/
def Owns (up : List Int) : Simple.TreeNode → LeafPushing.TreeNode → Prop
  | .node _ _ port _ _, .node p' _ _ => Simple.lookBack (port :: up) = some p'
  | _, _ => False

theorem owns_child {p : Int} {up : List Int} {t : Simple.TreeNode} {u : LeafPushing.TreeNode}
    (h : Inherits p t u) (hnull : t.isNull = false) (hup : Simple.lookBack up = some p) :
    Owns up t u := by
  cases t with
  | null => exact absurd hnull (by decide)
  | node net len port l r =>
    cases u with
    | null => exact absurd h (by simp [Inherits])
    | node p' l' r' =>
      obtain ⟨hp, _, _⟩ := h
      show Simple.lookBack (port :: up) = some p'
      rw [Simple.lookBack, hup, hp]
      split <;> rfl

/-- From matching nodes above level 32 both walks stop together, on the answer of
the look-back walk. -/
theorem lookupLoop_agree (netID : U32) (junk junk' : Int) (t : Simple.TreeNode)
    (u : LeafPushing.TreeNode) (p : Int) (up : List Int) (i : Nat) (prefixBit : U32)
    (h : Inherits p t u) (hown : Owns up t u) (hheight : t.height + i ≤ 32) :
    ∃ answer, Simple.lookupLoop netID junk t up i prefixBit = some answer ∧
      LeafPushing.lookupLoop netID junk' u i prefixBit = some answer := by
  induction t generalizing u p up i prefixBit with
  | null => exact absurd hown (by simp [Owns])
  | node net len port left right ihl ihr =>
    cases u with
    | null => exact absurd hown (by simp [Owns])
    | node p' left' right' =>
      obtain ⟨_, hleft, hright⟩ := h
      have hanswer : Simple.lookBack (port :: up) = some p' := hown
      simp only [Simple.TreeNode.height] at hheight
      have hi : i < 32 := by omega
      simp only [Simple.lookupLoop, LeafPushing.lookupLoop, if_pos hi, Simple.finish_lookBack, hanswer,
        ← hleft.isNull, ← hright.isNull]
      split
      · cases hnull : left.isNull
        · exact ihl left' p' (port :: up) (i + 1) _ hleft (owns_child hleft hnull hanswer) (by omega)
        · exact ⟨p', rfl, rfl⟩
      · cases hnull : right.isNull
        · exact ihr right' p' (port :: up) (i + 1) _ hright (owns_child hright hnull hanswer) (by omega)
        · exact ⟨p', rfl, rfl⟩

/-- The roots of aligned tries answer alike. -/
theorem Aligned.lookup_agree {t : Simple.TreeNode} {u : LeafPushing.TreeNode} (h : Aligned t u)
    (hroot : ∃ l r, t = .node 0 0 0 l r) (junk junk' : Int) (netID : U32) :
    ∃ port, Simple.lookup junk t netID = some port ∧ LeafPushing.lookup junk' u netID = some port := by
  obtain ⟨l, r, rfl⟩ := hroot
  cases u with
  | null => exact absurd h.inherits (by simp [Inherits])
  | node p' l' r' =>
    have hp : p' = 0 := h.inherits.1
    have hown : Owns [] (.node 0 0 0 l r) (.node p' l' r') := by
      rw [hp]
      rfl
    have hheight := h.height
    exact lookupLoop_agree netID junk junk' _ _ 0 [] 1 topBit h.inherits hown (by omega)

/-- Insertions leave the root's own fields alone. -/
theorem root_addNode (entry : RouterEntry) {t : Simple.TreeNode} (h : ∃ l r, t = .node 0 0 0 l r) :
    ∃ l r, (Simple.addNode t entry).1 = .node 0 0 0 l r := by
  obtain ⟨l, r, rfl⟩ := h
  unfold Simple.addNode
  cases entry.prefixLen with
  | zero => exact ⟨l, r, rfl⟩
  | succ n =>
    simp only [Simple.addNodeLoop]
    split
    · exact ⟨_, r, rfl⟩
    · exact ⟨l, _, rfl⟩

theorem root_build (entries : List RouterEntry) : ∃ l r, Simple.build entries = .node 0 0 0 l r := by
  suffices ∀ t, (∃ l r, t = Simple.TreeNode.node 0 0 0 l r) →
      ∃ l r, entries.foldl (fun root e => (Simple.addNode root e).1) t = .node 0 0 0 l r from
    this _ ⟨.null, .null, rfl⟩
  induction entries with
  | nil => exact fun t h => h
  | cons e rest ih => exact fun t h => ih _ (root_addNode e h)

/-- **The leaf-pushing trie answers as the basic trie**: for any table of prefixes of
at most 30 bits with non-negative ports, inserted in the same order, and any address. -/
theorem leafPushing_lookup (entries : List RouterEntry) (hlen : ∀ e ∈ entries, e.prefixLen ≤ 30)
    (hport : ∀ e ∈ entries, 0 ≤ e.port) (junk junk' : Int) (netID : U32) :
    ∃ port, Simple.lookup junk (Simple.build entries) netID = some port ∧
      LeafPushing.lookup junk' (LeafPushing.build entries) netID = some port :=
  (aligned_build entries hlen hport).lookup_agree (root_build entries) junk junk' netID

/-- A longer prefix, then a shorter one on its path with stray host bits, then the
longer one again. -/
theorem leafPushing_lookup_overlap :
    ∃ port, Simple.lookup 7 (Simple.build [⟨0x0A010000#32, 16, 1⟩, ⟨0x0A0000FF#32, 8, 2⟩,
        ⟨0x0A010000#32, 16, 3⟩]) 0x0A020000#32 = some port ∧
      LeafPushing.lookup 9 (LeafPushing.build [⟨0x0A010000#32, 16, 1⟩, ⟨0x0A0000FF#32, 8, 2⟩,
        ⟨0x0A010000#32, 16, 3⟩]) 0x0A020000#32 = some port :=
  leafPushing_lookup [⟨0x0A010000#32, 16, 1⟩, ⟨0x0A0000FF#32, 8, 2⟩, ⟨0x0A010000#32, 16, 3⟩]
    (by decide) (by decide) 7 9 0x0A020000#32

end NetStack.Lookup
