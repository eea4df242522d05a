import ReplicatedTree.DataMemory
import ReplicatedTree.Tree

/-!
# The tree in memory (`tree.c`)

The functions of `Tree` once more, on nodes that live in blocks of memory: a
`struct tree_node_t*` is a pointer, and a `struct tree_node_t**` is the `Field` of the block it
points into. The loops and recursions are those of the code, each with a `fuel` that is one less
at each turn; where it runs out there is no result.
-/

namespace ReplicatedTree
namespace InMemory

open Heap

/-- A `struct tree_node_t**`, the address of a field that holds a node. -/
inductive Field
  | root (tree : Ptr)
  | left (node : Ptr)
  | right (node : Ptr)
deriving DecidableEq

namespace Field

/-- The block of the field. -/
def block : Field → Ptr
  | root p | left p | right p => p

def get : Field → Block → Option Ptr
  | root _, .tree t => some t.root
  | left _, .node n => some n.left
  | right _, .node n => some n.right
  | _, _ => none

def set : Field → Ptr → Block → Block
  | root _, p, .tree t => .tree { t with root := p }
  | left _, p, .node n => .node { n with left := p }
  | right _, p, .node n => .node { n with right := p }
  | _, _, b => b

end Field

def loadField (f : Field) : HeapM Block Ptr := load f.get f.block

def storeField (f : Field) (p : Ptr) : HeapM Block Unit := do
  let b ← load some f.block
  store f.block (f.set p b)

/-! ## Creating and destroying -/

def treeCreate : HeapM Block Ptr := malloc (.tree ⟨none, 0, -1⟩)

/-- `_tree_node_destroy`. -/
def treeNodeDestroy : ℕ → Ptr → HeapM Block Unit
  | 0, _ => failure
  | _ + 1, none => pure ()
  | fuel + 1, some a => do
    let n ← load Block.asNode (some a)
    entryDestroy n.entry
    treeNodeDestroy fuel n.left
    treeNodeDestroy fuel n.right
    free (some a)

def treeDestroy (fuel : ℕ) (tree : Ptr) : HeapM Block Unit :=
  match tree with
  | none => pure ()
  | some _ => do
    let t ← load Block.asTree tree
    treeNodeDestroy fuel t.root
    free tree

/-- `_node_create`. -/
def nodeCreate (key value : Ptr) : HeapM Block Ptr := do
  let entry ← entryCreate key value
  malloc (.node ⟨entry, none, none⟩)

/-! ## Insertion -/

/-- The loop of `_tree_put`. -/
def treePutLoop (tree copiedKey copiedValue : Ptr) : ℕ → Ptr → ℤ → HeapM Block Unit
  | 0, _, _ => failure
  | fuel + 1, currentTreeNode, currentDepth => do
    let node ← load Block.asNode currentTreeNode
    let entry ← load Block.asEntry node.entry
    let comparison ← keyCompare copiedKey entry.key
    if comparison = 0 then do
      entryDestroy node.entry
      let newEntry ← entryCreate copiedKey copiedValue
      store currentTreeNode (.node { node with entry := newEntry })
    else do
      let pointerToNextNode :=
        if comparison < 0 then Field.left currentTreeNode else Field.right currentTreeNode
      let nextNode ← loadField pointerToNextNode
      if nextNode = none then do
        let newNode ← nodeCreate copiedKey copiedValue
        storeField pointerToNextNode newNode
        let t ← load Block.asTree tree
        store tree (.tree
          { t with size := t.size + 1, height := intMax (currentDepth + 1) t.height })
      else treePutLoop tree copiedKey copiedValue fuel nextNode (currentDepth + 1)

def treePut (fuel : ℕ) (tree key value : Ptr) : HeapM Block ℤ :=
  if tree = none ∨ key = none ∨ value = none then pure (-1)
  else do
    let copiedKey ← strdup key
    let copiedValue ← dataDup value
    let t ← load Block.asTree tree
    if t.root = none then do
      let root ← nodeCreate copiedKey copiedValue
      store tree (.tree ⟨root, 1, 0⟩)
      pure 0
    else do
      treePutLoop tree copiedKey copiedValue fuel t.root 0
      pure 0

/-! ## Lookup -/

/-- `_tree_node_pointer_get`, which is a loop. -/
def treeNodePointerGet : ℕ → Field → Ptr → HeapM Block (Option Field)
  | 0, _, _ => failure
  | fuel + 1, pointerToCurrentNode, key => do
    let currentNode ← loadField pointerToCurrentNode
    if currentNode = none then pure none
    else do
      let node ← load Block.asNode currentNode
      let entry ← load Block.asEntry node.entry
      let comparison ← keyCompare key entry.key
      if comparison = 0 then pure (some pointerToCurrentNode)
      else do
        let next := if comparison < 0 then Field.left currentNode else Field.right currentNode
        treeNodePointerGet fuel next key

/-- The value behind a pointer that was found, copied. -/
def copyFound (pointerToNode : Field) : HeapM Block Ptr := do
  let node ← loadField pointerToNode
  let n ← load Block.asNode node
  let e ← load Block.asEntry n.entry
  dataDup e.value

def treeGet (fuel : ℕ) (tree key : Ptr) : HeapM Block Ptr :=
  if tree = none then pure none
  else do
    let t ← load Block.asTree tree
    if t.root = none then dataCreate (fun _ => 0) 0
    else do
      let pointerToNode ← treeNodePointerGet fuel (.root tree) key
      match pointerToNode with
      | none => dataCreate (fun _ => 0) 0
      | some pointerToNode => copyFound pointerToNode

/-! ## Deletion -/

/-- The loop of `_tree_node_del` that looks for the successor with the lowest key. -/
def successorPointer : ℕ → Field → HeapM Block Field
  | 0, _ => failure
  | fuel + 1, pointerToSuccessor => do
    let successor ← loadField pointerToSuccessor
    let s ← load Block.asNode successor
    if s.left = none then pure pointerToSuccessor
    else successorPointer fuel (.left successor)

/-- The branch of `_tree_node_del` for a node with two children: the successor leaves its place to
its right child, and takes over the children of the node. -/
def takeSuccessor (fuel : ℕ) (node : Ptr) : HeapM Block Ptr := do
  let pointerToSuccessor ← successorPointer fuel (.right node)
  let successor ← loadField pointerToSuccessor
  let s ← load Block.asNode successor
  storeField pointerToSuccessor s.right
  let n ← load Block.asNode node
  storeField (.left successor) n.left
  storeField (.right successor) n.right
  pure successor

/-- The branches of `_tree_node_del`. -/
def replacementOf (fuel : ℕ) (node : Ptr) : HeapM Block Ptr := do
  let n ← load Block.asNode node
  if n.left = none ∧ n.right = none then pure none
  else if n.left = none then pure n.right
  else if n.right = none then pure n.left
  else takeSuccessor fuel node

/-- `_tree_node_del`. -/
def treeNodeDel (fuel : ℕ) (pointerToNode : Field) : HeapM Block Unit := do
  let node ← loadField pointerToNode
  let replacement ← replacementOf fuel node
  storeField pointerToNode replacement
  let n ← load Block.asNode node
  entryDestroy n.entry
  free node

/-- `_tree_compute_height`. -/
def treeComputeHeight : ℕ → Ptr → HeapM Block ℤ
  | 0, _ => failure
  | _ + 1, none => pure (-1)
  | fuel + 1, some a => do
    let n ← load Block.asNode (some a)
    let heightOfLeftTree ← treeComputeHeight fuel n.left
    let heightOfRightTree ← treeComputeHeight fuel n.right
    pure (1 + intMax heightOfLeftTree heightOfRightTree)

/-- The end of `tree_del`, where the key was found. -/
def deleteFound (fuel : ℕ) (tree : Ptr) (pointerToNode : Field) : HeapM Block ℤ := do
  treeNodeDel fuel pointerToNode
  let t ← load Block.asTree tree
  let height ← treeComputeHeight fuel t.root
  store tree (.tree { t with size := t.size - 1, height := height })
  pure 0

def treeDel (fuel : ℕ) (tree key : Ptr) : HeapM Block ℤ :=
  if tree = none then pure (-1)
  else do
    let t ← load Block.asTree tree
    if t.root = none then pure (-1)
    else do
      let pointerToNode ← treeNodePointerGet fuel (.root tree) key
      match pointerToNode with
      | none => pure 0
      | some pointerToNode => deleteFound fuel tree pointerToNode

/-! ## Queries -/

def treeSize (tree : Ptr) : HeapM Block ℤ :=
  if tree = none then pure (-1)
  else do
    let t ← load Block.asTree tree
    pure t.size

def treeHeight (tree : Ptr) : HeapM Block ℤ :=
  if tree = none then pure (-1)
  else do
    let t ← load Block.asTree tree
    pure t.height

/-- Write a cell of an array. -/
def storeCell (array : Ptr) (i : ℕ) (p : Ptr) : HeapM Block Unit := do
  let cells ← load (Block.writeCell i p) array
  store array (.pointers cells)

/-- `_collect_keys`. -/
def collectKeys : ℕ → Ptr → Ptr → ℕ → HeapM Block ℕ
  | 0, _, _, _ => failure
  | _ + 1, none, _, nextIndex => pure nextIndex
  | fuel + 1, some a, keys, nextIndex => do
    let n ← load Block.asNode (some a)
    let nextIndex ← collectKeys fuel n.left keys nextIndex
    let e ← load Block.asEntry n.entry
    let key ← strdup e.key
    storeCell keys nextIndex key
    collectKeys fuel n.right keys (nextIndex + 1)

def treeGetKeys (fuel : ℕ) (tree : Ptr) : HeapM Block Ptr :=
  if tree = none then pure none
  else do
    let t ← load Block.asTree tree
    let keys ← malloc (.pointers (Cells.alloc (t.size + 1).toNat))
    let lastIndex ← collectKeys fuel t.root keys 0
    storeCell keys lastIndex none
    pure keys

/-- The loop of `tree_free_keys`. -/
def freeKeysLoop (keys : Ptr) : ℕ → ℕ → HeapM Block Unit
  | 0, _ => failure
  | fuel + 1, i => do
    let key ← load (Block.readCell i) keys
    if key = none then pure ()
    else do
      free key
      freeKeysLoop keys fuel (i + 1)

def treeFreeKeys (fuel : ℕ) (keys : Ptr) : HeapM Block Unit :=
  match keys with
  | none => pure ()
  | some _ => do
    freeKeysLoop keys fuel 0
    free keys

end InMemory
end ReplicatedTree
