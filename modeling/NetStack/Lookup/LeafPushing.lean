import NetStack.Lookup.Entry

/-! The leaf-pushing trie (`code/leaf_pushing/lookup.c`).

A node is only a port: a fresh inner node takes its parent's port when it is
made, so that `lookup` never has to walk back. -/
namespace NetStack.Lookup.LeafPushing

inductive TreeNode where
  | null
  | node (port : Int) (left right : TreeNode)
deriving DecidableEq, Repr

def TreeNode.isNull : TreeNode → Bool
  | .null => true
  | .node .. => false

/-- `init_tree`: the root holds the default port. -/
def initTree : TreeNode := .node 0 .null .null

/-- `insert_tree`, below a parent with port `parentPort`. -/
def insertTree (entry : RouterEntry) (pLen : Nat) (parentPort : Int) : TreeNode :=
  .node (if entry.prefixLen ≠ pLen then parentPort else entry.port) .null .null

/-- The loop of `add_node` with `n` iterations left, at level `i`; the result
is the subtree and the port `add_node` returns. -/
def addNodeLoop (entry : RouterEntry) : Nat → Nat → U32 → TreeNode → TreeNode × Int
  | _, _, _, .null => (.null, -1)
  | 0, _, _, .node port left right => (.node port left right, port)
  | n + 1, i, prefixBit, .node port left right =>
    if bitClear entry.net prefixBit then
      let child := if left.isNull then insertTree entry i port else left
      let (left', ret) := addNodeLoop entry n (i + 1) (prefixBit >>> 1) child
      (.node port left' right, ret)
    else
      let child := if right.isNull then insertTree entry i port else right
      let (right', ret) := addNodeLoop entry n (i + 1) (prefixBit >>> 1) child
      (.node port left right', ret)

/-- `add_node`. -/
def addNode (root : TreeNode) (entry : RouterEntry) : TreeNode × Int :=
  addNodeLoop entry entry.prefixLen 1 topBit root

/-- The table `main` builds: one `add_node` per line. -/
def build (entries : List RouterEntry) : TreeNode :=
  entries.foldl (fun root e => (addNode root e).1) initTree

/-- The loop of `lookup` from iteration `i`; as in the basic program `port` starts
uninitialized, and `junk` is what is left when the loop ends without a break. -/
def lookupLoop (netID : U32) (junk : Int) : TreeNode → Nat → U32 → Option Int
  | .null, _, _ => none
  | .node port left right, i, prefixBit =>
    if i < 32 then
      if bitClear netID prefixBit then
        if left.isNull then some port else lookupLoop netID junk left (i + 1) (prefixBit >>> 1)
      else
        if right.isNull then some port else lookupLoop netID junk right (i + 1) (prefixBit >>> 1)
    else some junk

/-- `lookup`. -/
def lookup (junk : Int) (root : TreeNode) (netID : U32) : Option Int :=
  lookupLoop netID junk root 1 topBit

end NetStack.Lookup.LeafPushing
