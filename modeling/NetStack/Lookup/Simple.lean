import NetStack.Lookup.Entry

/-! The basic prefix trie (`code/simple/lookup.c`).

A node keeps the network and length it stands for and a port, -1 when no entry
ends there. `lookup` walks down while there is a child and, when the node it
stops at has no port, walks back up the parent pointers (`look_back`). A parent
pointer is always the node a child was hung from, so the model carries the
ancestors of the current node instead: nearest first, their ports. -/
namespace NetStack.Lookup.Simple

inductive TreeNode where
  | null
  | node (net : U32) (prefixLen : Nat) (port : Int) (left right : TreeNode)
deriving DecidableEq, Repr

def TreeNode.isNull : TreeNode → Bool
  | .null => true
  | .node .. => false

/-- `init_tree`: the root stands for the empty prefix and holds the default port. -/
def initTree : TreeNode := .node 0 0 0 .null .null

/-- `insert_tree`: a fresh node at level `pLen` of the entry's path. -/
def insertTree (entry : RouterEntry) (pLen : Nat) : TreeNode :=
  .node (entry.net &&& getMask pLen) pLen
    (if entry.prefixLen ≠ pLen then -1 else entry.port) .null .null

/-- The loop of `add_node` with `n` iterations left, at level `i`; the result
is the subtree and the value `add_node` returns. -/
def addNodeLoop (entry : RouterEntry) : Nat → Nat → U32 → U32 → TreeNode → TreeNode × Int
  | _, _, _, _, .null => (.null, -1)
  | 0, _, mask, _, .node net len port left right =>
    (.node net len port left right,
      if entry.net &&& mask ≠ net &&& mask then -1 else port)
  | n + 1, i, mask, prefixBit, .node net len port left right =>
    if bitClear entry.net prefixBit then
      let child := if left.isNull then insertTree entry i else left
      let (left', ret) := addNodeLoop entry n (i + 1) (mask.sshiftRight 1) (prefixBit >>> 1) child
      (.node net len port left' right, ret)
    else
      let child := if right.isNull then insertTree entry i else right
      let (right', ret) := addNodeLoop entry n (i + 1) (mask.sshiftRight 1) (prefixBit >>> 1) child
      (.node net len port left right', ret)

/-- `add_node`. An existing node is never written again. -/
def addNode (root : TreeNode) (entry : RouterEntry) : TreeNode × Int :=
  addNodeLoop entry entry.prefixLen 1 topBit topBit root

/-- The table `main` builds: one `add_node` per line. -/
def build (entries : List RouterEntry) : TreeNode :=
  entries.foldl (fun root e => (addNode root e).1) initTree

/-- `look_back`, on the ports of a node and its ancestors; `none` is the null
parent of a root without a port. -/
def lookBack : List Int → Option Int
  | [] => none
  | port :: up => if port = -1 then lookBack up else some port

/-- What `lookup` does after its loop stopped at iteration `i` on a node with
network `net`, `port` being the local variable. -/
def finish (netID : U32) (i : Nat) (net : U32) (port : Int) (ports : List Int) : Option Int :=
  let port := if netID &&& getMask i ≠ net &&& getMask i then -1 else port
  if port = -1 then lookBack ports else some port

/-- The loop of `lookup` from iteration `i`, at a node whose ancestors have the
ports `up`. `port` is not initialized in the source, so its first value `junk` is
whatever the stack holds; it is what is left when the loop ends without a break. -/
def lookupLoop (netID : U32) (junk : Int) : TreeNode → List Int → Nat → U32 → Option Int
  | .null, _, _, _ => none
  | .node net len port left right, up, i, prefixBit =>
    -- The `break` of either branch: the child on the address's side is missing.
    let stop := finish netID i net
      (if netID &&& getMask len ≠ net &&& getMask len then -1 else port) (port :: up)
    if i < 32 then
      if bitClear netID prefixBit then
        if left.isNull then stop
        else lookupLoop netID junk left (port :: up) (i + 1) (prefixBit >>> 1)
      else
        if right.isNull then stop
        else lookupLoop netID junk right (port :: up) (i + 1) (prefixBit >>> 1)
    else finish netID i net junk (port :: up)

/-- `lookup`. -/
def lookup (junk : Int) (root : TreeNode) (netID : U32) : Option Int :=
  lookupLoop netID junk root [] 1 topBit

/-- At a `break` the two mask tests do not matter: a port they discard is the one
the look-back walk finds again. -/
theorem finish_lookBack (netID : U32) (i : Nat) (net : U32) (c : Prop) [Decidable c] (port : Int)
    (up : List Int) :
    finish netID i net (if c then -1 else port) (port :: up) = lookBack (port :: up) := by
  unfold finish
  by_cases hport : port = -1
  · simp [hport]
  · by_cases hc : c
    · simp [hc]
    · by_cases hm : netID &&& getMask i = net &&& getMask i
      · simp [hc, hm, hport, lookBack]
      · simp [hm]

end NetStack.Lookup.Simple
