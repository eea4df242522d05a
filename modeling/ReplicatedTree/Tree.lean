import ReplicatedTree.Entry
import ReplicatedTree.Lib.Cells
import ReplicatedTree.Lib.TreePath

/-!
# The tree (`tree.c`)

A `struct tree_node_t*` is a `BinaryTree EntryT`: `nil` is NULL and `node` holds the entry
and the two child fields. A `struct tree_node_t**`, the address of such a field, is a
`Path` from `tree->root`; `subtree` reads through it and `replace` stores through it.

Functions that change the tree take it and return it, next to their own result. The tree
pointer itself is never NULL here (the functions return an error at once when it is).
-/

namespace ReplicatedTree

open SearchTree

/-- `struct tree_t`. -/
structure TreeT where
  root : BinaryTree EntryT
  size : ℤ
  height : ℤ
deriving DecidableEq

def treeCreate : TreeT := ⟨.nil, 0, -1⟩

def nodeCreate (key : Option CString) (value : Option DataT) : BinaryTree EntryT :=
  .node (entryCreate key value) .nil .nil

/-- `_int_max`. -/
def intMax (n1 n2 : ℤ) : ℤ := if n1 > n2 then n1 else n2

/-! ## Insertion -/

/-- The loop of `_tree_put`: `p` is the field that holds the current node, and `depth` the
depth of that node. The source tests the next field for NULL before it steps into it; here
the step comes first and the test is the `nil` case. -/
def treePutCore (tree : TreeT) (copiedKey : Option CString) (copiedValue : Option DataT) :
    BinaryTree EntryT → Path → ℤ → TreeT
  | .nil, p, depth =>
    { root := replace tree.root p (nodeCreate copiedKey copiedValue)
      size := tree.size + 1
      height := intMax depth tree.height }
  | .node entry left right, p, depth =>
    let comparison := keyCompare copiedKey entry.key
    if comparison = 0 then
      { tree with
        root := replace tree.root p (.node (entryCreate copiedKey copiedValue) left right) }
    else if comparison < 0 then
      treePutCore tree copiedKey copiedValue left (p ++ [.left]) (depth + 1)
    else treePutCore tree copiedKey copiedValue right (p ++ [.right]) (depth + 1)

def treePut (tree : TreeT) (key : Option CString) (value : Option DataT) : TreeT × ℤ :=
  if key = none ∨ value = none then (tree, -1)
  else
    let copiedKey := key
    let copiedValue := dataDup value
    match tree.root with
    | .nil => (⟨nodeCreate copiedKey copiedValue, 1, 0⟩, 0)
    | .node _ _ _ => (treePutCore tree copiedKey copiedValue tree.root [] 0, 0)

/-! ## Lookup -/

/-- `_tree_node_pointer_get`, from the field `p` that holds the given node. -/
def treeNodePointerGet (key : Option CString) : BinaryTree EntryT → Path → Option Path
  | .nil, _ => none
  | .node entry left right, p =>
    let comparison := keyCompare key entry.key
    if comparison = 0 then some p
    else if comparison < 0 then treeNodePointerGet key left (p ++ [.left])
    else treeNodePointerGet key right (p ++ [.right])

def treeGet (tree : TreeT) (key : Option CString) : Option DataT :=
  match treeNodePointerGet key tree.root [] with
  | none => dataCreate (fun _ => 0) 0
  | some p =>
    match subtree tree.root p with
    | .nil => none
    | .node entry _ _ => dataDup entry.value

/-! ## Deletion -/

/-- The loop of `_tree_node_del` that looks for the successor with the lowest key, from the
field `p` that holds the given node. -/
def successorPointer : BinaryTree EntryT → Path → Path
  | .nil, p => p
  | .node _ .nil _, p => p
  | .node _ (.node entry left right) _, p =>
    successorPointer (.node entry left right) (p ++ [.left])

/-- `_tree_node_del`: unhook the node that the field `p` holds. -/
def treeNodeDel (root : BinaryTree EntryT) (p : Path) : BinaryTree EntryT :=
  match subtree root p with
  | .nil => root
  | .node _ .nil .nil => replace root p .nil
  | .node _ .nil right => replace root p right
  | .node _ left .nil => replace root p left
  | .node _ (.node _ _ _) (.node rEntry rLeft rRight) =>
    let ps := successorPointer (.node rEntry rLeft rRight) (p ++ [.right])
    match subtree root ps with
    | .nil => root
    | .node successorEntry _ successorRight =>
      -- the successor leaves its place to its right child, then takes over the children
      let root := replace root ps successorRight
      match subtree root p with
      | .nil => root
      | .node _ left right => replace root p (.node successorEntry left right)

/-- `_tree_compute_height`. -/
def treeComputeHeight : BinaryTree EntryT → ℤ
  | .nil => -1
  | .node _ left right => 1 + intMax (treeComputeHeight left) (treeComputeHeight right)

def treeDel (tree : TreeT) (key : Option CString) : TreeT × ℤ :=
  match tree.root with
  | .nil => (tree, -1)
  | .node _ _ _ =>
    match treeNodePointerGet key tree.root [] with
    | none => (tree, 0)
    | some p =>
      let root := treeNodeDel tree.root p
      (⟨root, tree.size - 1, treeComputeHeight root⟩, 0)

/-! ## Queries -/

def treeSize (tree : TreeT) : ℤ := tree.size

def treeHeight (tree : TreeT) : ℤ := tree.height

/-- `_collect_keys`: copy the keys in order into the array, from `nextIndex` on. -/
def collectKeys : BinaryTree EntryT → Cells (Option CString) → ℕ →
    Option (Cells (Option CString) × ℕ)
  | .nil, keys, nextIndex => some (keys, nextIndex)
  | .node entry left right, keys, nextIndex => do
    let (keys, nextIndex) ← collectKeys left keys nextIndex
    let key ← entry.key -- `strdup` does not take NULL
    let keys ← keys.write nextIndex (some key)
    collectKeys right keys (nextIndex + 1)

/-- The array of keys with its closing NULL; no result if a write misses the array or a
cell is left out. -/
def treeGetKeys (tree : TreeT) : Option (List (Option CString)) := do
  let keys := Cells.alloc (tree.size + 1).toNat
  let (keys, lastIndex) ← collectKeys tree.root keys 0
  let keys ← keys.write lastIndex none
  keys.contents

/-! ## Histories -/

/-- A call that changes the tree. `put` takes NULL or a valid value. -/
inductive TreeOp
  | put (key : Option CString) (value : Option { d : DataT // d.Valid })
  | del (key : Option CString)

def TreeOp.exec (tree : TreeT) : TreeOp → TreeT × ℤ
  | .put key value => treePut tree key (value.map Subtype.val)
  | .del key => treeDel tree key

/-- The tree after a sequence of calls on a new tree. -/
def treeAfter (ops : List TreeOp) : TreeT :=
  ops.foldl (fun tree op => (op.exec tree).1) treeCreate

end ReplicatedTree
