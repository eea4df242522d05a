import Mathlib.Data.List.Induction
import ReplicatedTree.Tree

/-!
# What the tree functions do — theorems about `Tree`

Every pointer walk of `tree.c` is first turned into the structural operation of
`SearchTree` it performs (`treePutCore_eq`, `treeNodePointerGet_eq`, `treeNodeDel_eq`).
From these follow, for trees of any shape,

* the representation invariant `TreeT.Inv`, kept by every call (`treeAfter_inv`);
* the refinement of a map from keys to values (`treeGet_treeAfter`).
-/

namespace ReplicatedTree

open SearchTree

/-! ## Comparisons -/

theorem keyCompare_eq_zero_iff (k : Option CString) (e : EntryT) :
    keyCompare k e.key = 0 ↔ keyOrder k = e.orderKey := keyCompare_threeWay.zero_iff k e.key

theorem keyCompare_neg_iff (k : Option CString) (e : EntryT) :
    keyCompare k e.key < 0 ↔ keyOrder k < e.orderKey := keyCompare_threeWay.neg_iff k e.key

theorem keyCompare_pos_iff (k : Option CString) (e : EntryT) :
    0 < keyCompare k e.key ↔ e.orderKey < keyOrder k := keyCompare_threeWay.pos_iff k e.key

theorem intMax_eq (a b : ℤ) : intMax a b = max a b := by
  unfold intMax
  split_ifs with h
  · rw [max_eq_left h.le]
  · rw [max_eq_right (not_lt.1 h)]

/-! ## The walks as structural operations -/

/-- The walk of `_tree_put` inserts below the field `p` and keeps the two counters. -/
theorem treePutCore_eq (tree : TreeT) (k : Option CString) (v : Option DataT)
    (node : BinaryTree EntryT) (p : Path) (depth : ℤ) (hp : subtree tree.root p = node) :
    treePutCore tree k v node p depth =
      { root := replace tree.root p (insertNode EntryT.orderKey (entryCreate k v) node)
        size := tree.size
          + if (insertDepth EntryT.orderKey (entryCreate k v) node).isSome then 1 else 0
        height := (insertDepth EntryT.orderKey (entryCreate k v) node).elim tree.height
          fun d => max (depth + d) tree.height } := by
  induction node generalizing p depth with
  | nil => simp [treePutCore, insertNode, insertDepth, nodeCreate, intMax_eq]
  | node e l r ihl ihr =>
    have hkey : (entryCreate k v).orderKey = keyOrder k := rfl
    have hstep : ∀ (q : Path) (s : BinaryTree EntryT),
        replace tree.root (p ++ q) s = replace tree.root p (replace (.node e l r) q s) := by
      intro q s
      rw [replace_append, hp]
    unfold treePutCore insertNode insertDepth
    simp only [keyCompare_eq_zero_iff, keyCompare_neg_iff, hkey]
    by_cases heq : keyOrder k = e.orderKey
    · simp [heq]
    by_cases hlt : keyOrder k < e.orderKey
    · have hsub : subtree tree.root (p ++ [.left]) = l := by
        rw [subtree_append, hp]
        simp [subtree]
      simp only [if_neg heq, if_pos hlt]
      rw [ihl _ _ hsub, hstep]
      cases hd : insertDepth EntryT.orderKey (entryCreate k v) l with
      | none => simp [replace]
      | some d =>
        simp [replace]
        omega
    · have hsub : subtree tree.root (p ++ [.right]) = r := by
        rw [subtree_append, hp]
        simp [subtree]
      simp only [if_neg heq, if_neg hlt]
      rw [ihr _ _ hsub, hstep]
      cases hd : insertDepth EntryT.orderKey (entryCreate k v) r with
      | none => simp [replace]
      | some d =>
        simp [replace]
        omega

theorem treeNodePointerGet_eq (k : Option CString) (node : BinaryTree EntryT) (p : Path) :
    treeNodePointerGet k node p
      = (pathTo EntryT.orderKey (keyOrder k) node).map (p ++ ·) := by
  induction node generalizing p with
  | nil => rfl
  | node e l r ihl ihr =>
    unfold treeNodePointerGet pathTo
    simp only [keyCompare_eq_zero_iff, keyCompare_neg_iff]
    split_ifs with heq hlt
    · simp
    · rw [ihl, Option.map_map]
      simp [Function.comp_def]
    · rw [ihr, Option.map_map]
      simp [Function.comp_def]

theorem treeNodePointerGet_root (k : Option CString) (node : BinaryTree EntryT) :
    treeNodePointerGet k node [] = pathTo EntryT.orderKey (keyOrder k) node := by
  rw [treeNodePointerGet_eq]
  simp

theorem successorPointer_eq (e : EntryT) (l r : BinaryTree EntryT) (p : Path) :
    successorPointer (.node e l r) p = p ++ minPath (.node e l r) := by
  induction l generalizing e r p with
  | nil => simp [successorPointer, minPath]
  | node e' ll lr ihl _ => simp [successorPointer, minPath, ihl]

/-- Unhooking a node puts its joined subtrees in its place. -/
theorem treeNodeDel_eq {root : BinaryTree EntryT} {p : Path} {e : EntryT}
    {l r : BinaryTree EntryT} (hp : subtree root p = .node e l r) :
    treeNodeDel root p = replace root p (glue l r) := by
  unfold treeNodeDel
  rw [hp]
  cases l with
  | nil => cases r <;> rfl
  | node le ll lr =>
    cases r with
    | nil => rfl
    | node re rl rr =>
      -- two children: the successor is the lowest node of the right subtree
      obtain ⟨mr, hs, hr⟩ := minPath_spec re rl rr
      have hne : subtree root p ≠ .nil := by rw [hp]; simp
      have hsucc : subtree root (successorPointer (.node re rl rr) (p ++ [.right]))
          = .node (popMin re rl rr).1 .nil mr := by
        rw [successorPointer_eq, List.append_assoc, subtree_append, hp]
        exact hs
      have hunhook : replace root (successorPointer (.node re rl rr) (p ++ [.right])) mr
          = replace root p (.node e (.node le ll lr) (popMin re rl rr).2) := by
        rw [successorPointer_eq, List.append_assoc, replace_append, hp, List.singleton_append,
          replace, hr]
      simp only [hsucc, hunhook, subtree_replace hne, replace_replace, glue]

theorem treeComputeHeight_eq (node : BinaryTree EntryT) :
    treeComputeHeight node = (node.height : ℤ) - 1 := by
  induction node with
  | nil => rfl
  | node e l r ihl ihr =>
    unfold treeComputeHeight
    rw [ihl, ihr, intMax_eq, BinaryTree.height]
    push_cast
    omega

/-! ## The representation invariant -/

/-- The order a node of `tree_t` promises, under `key_compare`. -/
def KeysOrdered : BinaryTree EntryT → Prop
  | .nil => True
  | .node e l r =>
    (∀ b ∈ inorder l, keyCompare b.key e.key < 0) ∧
      (∀ b ∈ inorder r, 0 < keyCompare b.key e.key) ∧ KeysOrdered l ∧ KeysOrdered r

theorem keysOrdered_iff (node : BinaryTree EntryT) :
    KeysOrdered node ↔ Ordered EntryT.orderKey node := by
  induction node with
  | nil => exact Iff.rfl
  | node e l r ihl ihr =>
    unfold KeysOrdered Ordered
    simp only [keyCompare_neg_iff, keyCompare_pos_iff, ihl, ihr]
    exact Iff.rfl

/-- An entry that carries a key and a value the library accepts. -/
structure EntryT.Stored (e : EntryT) : Prop where
  key_ne_null : e.key ≠ none
  value_valid : ∃ d, e.value = some d ∧ d.Valid

/-- The representation invariant of `tree_t`. The height counts edges, so it is one less
than the number of nodes on the longest path, and -1 for the empty tree. -/
structure TreeT.Inv (tree : TreeT) : Prop where
  ordered : KeysOrdered tree.root
  stored : ∀ e ∈ inorder tree.root, e.Stored
  size_eq : tree.size = tree.root.numNodes
  height_eq : tree.height = (tree.root.height : ℤ) - 1

/-- The part of the invariant that does not look at the values. -/
structure TreeT.Shape (tree : TreeT) : Prop where
  ordered : KeysOrdered tree.root
  size_eq : tree.size = tree.root.numNodes
  height_eq : tree.height = (tree.root.height : ℤ) - 1

theorem TreeT.Inv.shape {tree : TreeT} (h : tree.Inv) : tree.Shape :=
  ⟨h.ordered, h.size_eq, h.height_eq⟩

theorem TreeT.Shape.orderKey {tree : TreeT} (h : tree.Shape) :
    Ordered EntryT.orderKey tree.root := (keysOrdered_iff _).1 h.ordered

theorem TreeT.Inv.orderKey {tree : TreeT} (h : tree.Inv) :
    Ordered EntryT.orderKey tree.root := h.shape.orderKey

theorem treeCreate_inv : treeCreate.Inv where
  ordered := trivial
  stored := by
    intro e he
    simp [treeCreate] at he
  size_eq := rfl
  height_eq := rfl

/-! ## Effect of the calls -/

theorem treePut_eq {tree : TreeT} (h : tree.Shape) (k : CString) (v : DataT) :
    treePut tree (some k) (some v) =
      ({ root := insertNode EntryT.orderKey (entryCreate (some k) (dataDup (some v))) tree.root
         size := tree.size + if (insertDepth EntryT.orderKey
            (entryCreate (some k) (dataDup (some v))) tree.root).isSome then 1 else 0
         height := (insertDepth EntryT.orderKey (entryCreate (some k) (dataDup (some v)))
            tree.root).elim tree.height fun d => max (d : ℤ) tree.height }, 0) := by
  unfold treePut
  rw [if_neg (by simp)]
  cases hroot : tree.root with
  | nil =>
    have hs := h.size_eq
    have hh := h.height_eq
    rw [hroot] at hs hh
    simp [insertNode, insertDepth, nodeCreate, hs, hh]
  | node e l r =>
    have hwalk := treePutCore_eq tree (some k) (dataDup (some v)) (.node e l r) [] 0
      (by rw [subtree_root, hroot])
    simp only [hwalk, hroot, replace_root, Int.zero_add]

theorem treePut_null (tree : TreeT) {key : Option CString} {value : Option DataT}
    (h : key = none ∨ value = none) : treePut tree key value = (tree, -1) := by
  unfold treePut
  rw [if_pos h]

theorem TreeOp.exec_put_null (tree : TreeT) {key : Option CString}
    {value : Option { d : DataT // d.Valid }} (h : key = none ∨ value = none) :
    (TreeOp.put key value).exec tree = (tree, -1) := by
  refine treePut_null tree (h.imp_right ?_)
  rintro rfl
  rfl

/-- Deleting a key that is not bound leaves the tree alone. -/
theorem treeDel_absent {tree : TreeT} {k : Option CString}
    (h : lookup EntryT.orderKey (keyOrder k) tree.root = none) :
    (treeDel tree k).1 = tree := by
  unfold treeDel
  cases hroot : tree.root with
  | nil => rfl
  | node e l r =>
    rw [hroot] at h
    simp only [treeNodePointerGet_root, pathTo_eq_none_iff.2 h]

theorem treeDel_present {tree : TreeT} {k : Option CString} {e : EntryT}
    (h : lookup EntryT.orderKey (keyOrder k) tree.root = some e) :
    treeDel tree k =
      (⟨erase EntryT.orderKey (keyOrder k) tree.root, tree.size - 1,
        ((erase EntryT.orderKey (keyOrder k) tree.root).height : ℤ) - 1⟩, 0) := by
  unfold treeDel
  cases hp : pathTo EntryT.orderKey (keyOrder k) tree.root with
  | none =>
    rw [pathTo_eq_none_iff.1 hp] at h
    simp at h
  | some p =>
    obtain ⟨a, l, r, hs, -⟩ := subtree_pathTo hp
    have hdel : treeNodeDel tree.root p = erase EntryT.orderKey (keyOrder k) tree.root := by
      rw [treeNodeDel_eq hs, replace_pathTo hp hs]
    cases hroot : tree.root with
    | nil => simp [hroot, lookup] at h
    | node e' l' r' =>
      rw [hroot] at hp hdel
      simp only [treeNodePointerGet_root, hp, hdel, treeComputeHeight_eq]

/-- Whether or not the key is bound, the nodes left are those with another key. -/
theorem treeDel_root (tree : TreeT) (k : Option CString) :
    (treeDel tree k).1.root = erase EntryT.orderKey (keyOrder k) tree.root := by
  cases h : lookup EntryT.orderKey (keyOrder k) tree.root with
  | none => rw [treeDel_absent h, erase_eq_self h]
  | some e => rw [treeDel_present h]

/-- A lookup copies the value found, and answers the empty value when there is none. -/
theorem treeGet_eq {tree : TreeT} (h : tree.Inv) (k : Option CString) :
    treeGet tree k
      = some (((lookup EntryT.orderKey (keyOrder k) tree.root).bind EntryT.value).getD
          emptyData) := by
  unfold treeGet
  rw [treeNodePointerGet_root]
  cases hp : pathTo EntryT.orderKey (keyOrder k) tree.root with
  | none => rw [pathTo_eq_none_iff.1 hp]; rfl
  | some p =>
    obtain ⟨e, l, r, hs, hl⟩ := subtree_pathTo hp
    have hmem : e ∈ inorder tree.root := ((lookup_eq_some_iff h.orderKey).1 hl).1
    obtain ⟨d, hd, hv⟩ := (h.stored e hmem).value_valid
    simp [hs, hl, hd, dataDup_of_valid hv]

/-! ## The invariant over every history -/

/-- Whatever becomes of the value, a `put` keeps the shape. -/
theorem TreeT.Shape.put {tree : TreeT} (h : tree.Shape) (k : CString) (v : DataT) :
    (treePut tree (some k) (some v)).1.Shape := by
  rw [treePut_eq h]
  have hnum := @numNodes_insert _ _ _ EntryT.orderKey
    (entryCreate (some k) (dataDup (some v))) tree.root
  have hhgt := @height_insert _ _ _ EntryT.orderKey
    (entryCreate (some k) (dataDup (some v))) tree.root
  refine ⟨?_, ?_, ?_⟩
  · exact (keysOrdered_iff _).2 (ordered_insert h.orderKey)
  · show tree.size + _ = _
    rw [hnum, h.size_eq]
    split_ifs <;> simp
  · show Option.elim _ _ _ = _
    rw [hhgt, h.height_eq]
    cases insertDepth EntryT.orderKey (entryCreate (some k) (dataDup (some v))) tree.root with
    | none => rfl
    | some d =>
      simp only [Option.elim]
      omega

theorem TreeT.Shape.del {tree : TreeT} (h : tree.Shape) (k : Option CString) :
    (treeDel tree k).1.Shape := by
  cases hl : lookup EntryT.orderKey (keyOrder k) tree.root with
  | none => rwa [treeDel_absent hl]
  | some e =>
    have hnum := numNodes_erase h.orderKey hl
    rw [treeDel_present hl]
    refine ⟨?_, ?_, rfl⟩
    · exact (keysOrdered_iff _).2 (ordered_erase h.orderKey)
    · show tree.size - 1 = ((erase EntryT.orderKey (keyOrder k) tree.root).numNodes : ℤ)
      rw [h.size_eq]
      omega

theorem TreeT.Inv.put {tree : TreeT} (h : tree.Inv) (k : CString) {v : DataT} (hv : v.Valid) :
    (treePut tree (some k) (some v)).1.Inv := by
  obtain ⟨hordered, hsize, hheight⟩ := h.shape.put k v
  refine ⟨hordered, ?_, hsize, hheight⟩
  rw [treePut_eq h.shape]
  intro e he
  rcases (mem_inorder_insert h.orderKey e).1 he with rfl | ⟨he, -⟩
  · exact ⟨by simp [entryCreate], v, dataDup_of_valid hv, hv⟩
  · exact h.stored e he

theorem TreeT.Inv.del {tree : TreeT} (h : tree.Inv) (k : Option CString) :
    (treeDel tree k).1.Inv := by
  obtain ⟨hordered, hsize, hheight⟩ := h.shape.del k
  refine ⟨hordered, ?_, hsize, hheight⟩
  rw [treeDel_root]
  intro e he
  rw [inorder_erase h.orderKey] at he
  exact h.stored e (List.mem_of_mem_filter he)

theorem TreeT.Inv.exec {tree : TreeT} (h : tree.Inv) (op : TreeOp) : (op.exec tree).1.Inv := by
  cases op with
  | put key value =>
    cases key with
    | none => rwa [TreeOp.exec_put_null tree (Or.inl rfl)]
    | some k =>
      cases value with
      | none => rwa [TreeOp.exec_put_null tree (Or.inr rfl)]
      | some v => exact h.put k v.2
  | del key => exact h.del key

theorem TreeT.Inv.foldl {tree : TreeT} (h : tree.Inv) (ops : List TreeOp) :
    (ops.foldl (fun tree op => (op.exec tree).1) tree).Inv := by
  induction ops generalizing tree with
  | nil => exact h
  | cons op ops ih => exact ih (h.exec op)

theorem inv_treeAfter (ops : List TreeOp) : (treeAfter ops).Inv := treeCreate_inv.foldl ops

/-- No key occurs at two nodes. -/
theorem TreeT.Inv.nodup_keys {tree : TreeT} (h : tree.Inv) :
    ((inorder tree.root).map EntryT.key).Nodup := by
  unfold List.Nodup
  rw [List.pairwise_map]
  refine ((ordered_iff_pairwise _ _).1 h.orderKey).imp fun hlt heq => ?_
  exact hlt.ne (congrArg keyOrder heq)

/-- **Representation invariant.** After any sequence of calls the tree is a search tree
under `key_compare` without repeated keys, stores neither NULL keys nor NULL values, and
its two counters are right. -/
theorem treeAfter_inv (ops : List TreeOp) :
    (treeAfter ops).Inv ∧ ((inorder (treeAfter ops).root).map EntryT.key).Nodup :=
  ⟨inv_treeAfter ops, (inv_treeAfter ops).nodup_keys⟩

/-! ## The array of keys -/

/-- The writes of `_collect_keys` in the order it makes them, and the index it returns. -/
def collectKeysWrites : BinaryTree EntryT → ℕ → Option (List (ℕ × Option CString) × ℕ)
  | .nil, nextIndex => some ([], nextIndex)
  | .node entry left right, nextIndex => do
    let (leftWrites, nextIndex) ← collectKeysWrites left nextIndex
    let key ← entry.key
    let (rightWrites, lastIndex) ← collectKeysWrites right (nextIndex + 1)
    return (leftWrites ++ (nextIndex, some key) :: rightWrites, lastIndex)

/-- `_collect_keys` changes the array by these writes only. -/
theorem collectKeys_eq_writes (node : BinaryTree EntryT) (keys : Cells (Option CString))
    (i : ℕ) : collectKeys node keys i
      = (collectKeysWrites node i).bind fun w => (keys.writes w.1).map (·, w.2) := by
  induction node generalizing keys i with
  | nil => rfl
  | node e l r ihl ihr =>
    unfold collectKeys collectKeysWrites
    rw [ihl]
    cases collectKeysWrites l i with
    | none => rfl
    | some wl =>
      obtain ⟨leftWrites, j⟩ := wl
      cases hkeys : keys.writes leftWrites with
      | none =>
        -- a write on the left misses the array, and no later write mends that
        cases e.key with
        | none => simp [hkeys]
        | some key =>
          cases hr : collectKeysWrites r (j + 1) <;> simp [hkeys, hr, Cells.writes_append]
      | some keys' =>
        cases e.key with
        | none => simp [hkeys]
        | some key =>
          cases hr : collectKeysWrites r (j + 1) with
          | none => simp [hkeys, ihr, hr]
          | some wr =>
            simp only [hkeys, ihr, hr, Cells.writes_append, Cells.writes, Option.bind_eq_bind,
              Option.bind_some, Option.map_some, Option.pure_def, Option.map_bind]
            rfl

/-- The keys go into consecutive cells, in order. -/
theorem collectKeysWrites_eq (node : BinaryTree EntryT) (i : ℕ)
    (h : ∀ e ∈ inorder node, e.key ≠ none) :
    collectKeysWrites node i = some (Cells.writesFrom i ((inorder node).map EntryT.key),
      i + (inorder node).length) := by
  induction node generalizing i with
  | nil => rfl
  | node e l r ihl ihr =>
    simp only [inorder_node, List.mem_append, List.mem_cons] at h
    obtain ⟨key, hkey⟩ := Option.ne_none_iff_exists'.1 (h e (Or.inr (Or.inl rfl)))
    have hl := ihl i fun a ha => h a (Or.inl ha)
    have hr := ihr (i + (inorder l).length + 1) fun a ha => h a (Or.inr (Or.inr ha))
    unfold collectKeysWrites
    simp only [hl, hkey, hr, Option.bind_eq_bind, Option.bind_some, Option.pure_def]
    rw [inorder_node, List.map_append, Cells.writesFrom_append, List.length_map, List.map_cons,
      Cells.writesFrom, hkey, List.length_append, List.length_cons]
    congr 2
    omega

/-- `_collect_keys` writes the keys in order, one cell after another. -/
theorem collectKeys_filled (node : BinaryTree EntryT) (xs : List (Option CString)) (n : ℕ)
    (h : ∀ e ∈ inorder node, e.key ≠ none) :
    collectKeys node (Cells.filled xs ((inorder node).length + n)) xs.length
      = some (Cells.filled (xs ++ (inorder node).map EntryT.key) n,
          xs.length + (inorder node).length) := by
  have hwrites := Cells.writes_filled xs ((inorder node).map EntryT.key) n
  rw [List.length_map] at hwrites
  rw [collectKeys_eq_writes, collectKeysWrites_eq node xs.length h, Option.bind_some, hwrites,
    Option.map_some]

/-- Keys that are not NULL are the keys of a list of strings. -/
theorem exists_keys {es : List EntryT} (h : ∀ e ∈ es, e.key ≠ none) :
    ∃ keys : List CString, es.map EntryT.key = keys.map some := by
  induction es with
  | nil => exact ⟨[], rfl⟩
  | cons e es ih =>
    obtain ⟨k, hk⟩ := Option.ne_none_iff_exists'.1 (h e List.mem_cons_self)
    obtain ⟨keys, hkeys⟩ := ih fun e' he' => h e' (List.mem_cons_of_mem e he')
    refine ⟨k :: keys, ?_⟩
    rw [List.map_cons, List.map_cons, hk, hkeys]

/-- The keys in order, closed by NULL; every cell of the array is written. -/
theorem treeGetKeys_of_shape {tree : TreeT} (h : tree.Shape)
    (hkeys : ∀ e ∈ inorder tree.root, e.key ≠ none) :
    treeGetKeys tree = some ((inorder tree.root).map EntryT.key ++ [none]) := by
  have hsize : (tree.size + 1).toNat = (inorder tree.root).length + 1 := by
    rw [h.size_eq, length_inorder]
    omega
  have hcollect := collectKeys_filled tree.root [] 1 hkeys
  have hwrite := Cells.write_filled ((inorder tree.root).map EntryT.key) 0 none
  rw [List.length_map] at hwrite
  simp only [List.length_nil, Nat.zero_add, List.nil_append] at hcollect
  unfold treeGetKeys
  simp only [hsize, Cells.alloc_eq, hcollect, hwrite, Option.bind_eq_bind, Option.bind_some,
    Cells.contents_filled]

theorem treeGetKeys_eq {tree : TreeT} (h : tree.Inv) :
    treeGetKeys tree = some ((inorder tree.root).map EntryT.key ++ [none]) :=
  treeGetKeys_of_shape h.shape fun e he => (h.stored e he).key_ne_null

/-! ## The map a tree stands for -/

/-- What a key is bound to. -/
abbrev Bindings := Option CString → Option DataT

/-- The calls as updates of the map: a `put` of NULL is not accepted. -/
def Bindings.exec (m : Bindings) : TreeOp → Bindings
  | .put (some k) (some v) => Function.update m (some k) (some v.1)
  | .put _ _ => m
  | .del k => Function.update m k none

/-- The value of the last accepted `put` of a key that no later `del` removed. -/
def bindingsAfter (ops : List TreeOp) : Bindings := ops.foldl Bindings.exec fun _ => none

/-- The nodes of a tree hold exactly the bindings of a map. -/
def TreeT.Represents (tree : TreeT) (m : Bindings) : Prop :=
  ∀ k, (lookup EntryT.orderKey (keyOrder k) tree.root).bind EntryT.value = m k

theorem TreeT.Represents.exec {tree : TreeT} {m : Bindings} (h : tree.Inv)
    (hm : tree.Represents m) (op : TreeOp) : (op.exec tree).1.Represents (m.exec op) := by
  intro k'
  cases op with
  | put key value =>
    cases key with
    | none =>
      rw [TreeOp.exec_put_null tree (Or.inl rfl)]
      exact hm k'
    | some k =>
      cases value with
      | none =>
        rw [TreeOp.exec_put_null tree (Or.inr rfl)]
        exact hm k'
      | some v =>
        have hkey : (entryCreate (some k) (dataDup (some v.1))).orderKey = keyOrder (some k) :=
          rfl
        simp only [TreeOp.exec, Option.map_some, treePut_eq h.shape, lookup_insert, hkey,
          keyOrder_injective.eq_iff, Bindings.exec, Function.update_apply]
        split_ifs
        · exact dataDup_of_valid v.2
        · exact hm k'
  | del k =>
    simp only [TreeOp.exec, treeDel_root, lookup_erase h.orderKey, keyOrder_injective.eq_iff,
      Bindings.exec, Function.update_apply]
    split_ifs
    · rfl
    · exact hm k'

theorem represents_treeAfter (ops : List TreeOp) :
    (treeAfter ops).Represents (bindingsAfter ops) := by
  induction ops using List.reverseRecOn with
  | nil => exact fun _ => rfl
  | append_singleton ops op ih =>
    unfold treeAfter bindingsAfter
    rw [List.foldl_append, List.foldl_append]
    exact ih.exec (inv_treeAfter ops) op

theorem treeGet_of_represents {tree : TreeT} {m : Bindings} (h : tree.Inv)
    (hm : tree.Represents m) (k : Option CString) :
    treeGet tree k = some ((m k).getD emptyData) := by
  rw [treeGet_eq h, hm k]

/-- The key a call is about. -/
def TreeOp.key : TreeOp → Option CString
  | .put key _ => key
  | .del key => key

theorem Bindings.exec_ne (m : Bindings) {op : TreeOp} {k : Option CString} (h : k ≠ op.key) :
    m.exec op k = m k := by
  cases op with
  | put key value =>
    cases key with
    | none => rfl
    | some k' =>
      cases value with
      | none => rfl
      | some v => exact Function.update_of_ne h _ _
  | del key => exact Function.update_of_ne h _ _

/-- **Refinement of a map.** After any sequence of calls a lookup answers the value of the
last accepted `tree_put` of the key that no later `tree_del` removed, and the empty value
when there is none; and a call changes the answer for no other key. -/
theorem treeGet_treeAfter (ops : List TreeOp) :
    (∀ k, treeGet (treeAfter ops) k = some ((bindingsAfter ops k).getD emptyData)) ∧
      ∀ (op : TreeOp) (k : Option CString), k ≠ op.key →
        treeGet (op.exec (treeAfter ops)).1 k = treeGet (treeAfter ops) k := by
  have hinv := inv_treeAfter ops
  have hrep := represents_treeAfter ops
  refine ⟨treeGet_of_represents hinv hrep, fun op k hk => ?_⟩
  rw [treeGet_of_represents (hinv.exec op) (hrep.exec hinv op), treeGet_of_represents hinv hrep,
    Bindings.exec_ne _ hk]

/-! ## Values that cannot be copied -/

/-- The trees that calls with any arguments lead to. -/
inductive TreeT.Reachable : TreeT → Prop
  | create : Reachable treeCreate
  | put {tree : TreeT} (h : tree.Reachable) (key : Option CString) (value : Option DataT) :
    Reachable (treePut tree key value).1
  | del {tree : TreeT} (h : tree.Reachable) (key : Option CString) :
    Reachable (treeDel tree key).1

theorem TreeT.Reachable.shape {tree : TreeT} (h : tree.Reachable) : tree.Shape := by
  induction h with
  | create => exact treeCreate_inv.shape
  | @put tree _ key value ih =>
    cases key with
    | none => rwa [treePut_null tree (Or.inl rfl)]
    | some k =>
      cases value with
      | none => rwa [treePut_null tree (Or.inr rfl)]
      | some v => exact ih.put k v
  | del _ key ih => exact ih.del key

theorem reachable_treeAfter (ops : List TreeOp) : (treeAfter ops).Reachable := by
  induction ops using List.reverseRecOn with
  | nil => exact .create
  | append_singleton ops op ih =>
    rw [treeAfter, List.foldl_append]
    cases op with
    | put key value => exact .put ih key (value.map Subtype.val)
    | del key => exact .del ih key

/-- What is asked of `tree_put`: it stores the value, or it fails and changes nothing. -/
def PutAllOrNothing (tree : TreeT) (key : Option CString) (value : Option DataT) : Prop :=
  (treePut tree key value).2 = 0 ∧
      (∃ d, value = some d ∧ treeGet (treePut tree key value).1 key = some d) ∨
    (treePut tree key value).2 = -1 ∧ (treePut tree key value).1 = tree

/-- After a `put` a lookup of the key copies the copy. -/
theorem treeGet_treePut {tree : TreeT} (h : tree.Shape) (k : CString) (v : DataT) :
    treeGet (treePut tree (some k) (some v)).1 (some k) = dataDup (dataDup (some v)) := by
  have hlookup : lookup EntryT.orderKey (keyOrder (some k)) (treePut tree (some k) (some v)).1.root
      = some (entryCreate (some k) (dataDup (some v))) := by
    rw [treePut_eq h]
    exact (lookup_insert _ _ _).trans (if_pos rfl)
  unfold treeGet
  rw [treeNodePointerGet_root]
  cases hp : pathTo EntryT.orderKey (keyOrder (some k)) (treePut tree (some k) (some v)).1.root with
  | none =>
    rw [pathTo_eq_none_iff.1 hp] at hlookup
    exact absurd hlookup (by simp)
  | some p =>
    obtain ⟨e, l, r, hs, hl⟩ := subtree_pathTo hp
    obtain rfl := Option.some.inj (hl.symm.trans hlookup)
    simp only [hs, entryCreate]

/-- **When `tree_put` is all or nothing.** On every reachable tree `tree_put` stores the value
or fails without a trace if and only if the key is NULL, the value is NULL, or the value is
one that `data_dup` copies. -/
theorem treePut_allOrNothing_iff {tree : TreeT} (h : tree.Reachable) (key : Option CString)
    (value : Option DataT) : PutAllOrNothing tree key value ↔
      key = none ∨ value = none ∨ ∃ d, value = some d ∧ d.Valid := by
  cases key with
  | none =>
    refine iff_of_true (Or.inr ?_) (Or.inl rfl)
    rw [treePut_null tree (Or.inl rfl)]
    exact ⟨rfl, rfl⟩
  | some k =>
    cases value with
    | none =>
      refine iff_of_true (Or.inr ?_) (Or.inr (Or.inl rfl))
      rw [treePut_null tree (Or.inr rfl)]
      exact ⟨rfl, rfl⟩
    | some v =>
      have hzero : (treePut tree (some k) (some v)).2 = 0 := by rw [treePut_eq h.shape]
      have hget := treeGet_treePut h.shape k v
      constructor
      · rintro (⟨-, d, hd, hfound⟩ | ⟨hneg, -⟩)
        · obtain rfl := Option.some.inj hd
          refine Or.inr (Or.inr ⟨v, rfl, ?_⟩)
          by_contra hv
          -- the stored pointer is NULL, and so is what a lookup copies
          rw [hget, dataDup_some, if_neg hv] at hfound
          exact absurd hfound (by simp [dataDup])
        · rw [hzero] at hneg
          exact absurd hneg (by decide)
      · rintro (hk | hn | ⟨d, hd, hv⟩)
        · exact absurd hk (by simp)
        · exact absurd hn (by simp)
        · obtain rfl := Option.some.inj hd
          refine Or.inl ⟨hzero, v, rfl, ?_⟩
          rw [hget, dataDup_of_valid hv, dataDup_of_valid hv]

/-- Three puts, the last of an empty value. -/
def threePuts : List TreeOp :=
  [.put (some ⟨[109], by decide⟩) (some ⟨⟨2, some [118, 0], by simp⟩, rfl⟩),
    .put (some ⟨[98], by decide⟩) (some ⟨⟨1, some [118], by simp⟩, rfl⟩),
    .put (some ⟨[120, 121], by decide⟩) (some ⟨emptyData, rfl⟩)]

/-- A leaf gets another value. -/
theorem treePut_allOrNothing_leaf : (treeAfter threePuts).size = 3 ∧
    (treePut (treeAfter threePuts) (some ⟨[98], by decide⟩) (some ⟨1, some [119], by simp⟩)).1.size
      = 3 ∧
    PutAllOrNothing (treeAfter threePuts) (some ⟨[98], by decide⟩)
      (some ⟨1, some [119], by simp⟩) :=
  ⟨rfl, rfl, (treePut_allOrNothing_iff (reachable_treeAfter threePuts) _ _).2
    (Or.inr (Or.inr ⟨_, rfl, by decide⟩))⟩

/-- A value of size 5 without bytes: the call reports success, and leaves a node whose value
is NULL. -/
theorem treePut_stores_null : ∃ (k : CString) (d : DataT),
    (treePut treeCreate (some k) (some d)).2 = 0 ∧
      (treePut treeCreate (some k) (some d)).1 ≠ treeCreate ∧
      treeGet (treePut treeCreate (some k) (some d)).1 (some k) = none ∧
      ¬ PutAllOrNothing treeCreate (some k) (some d) := by
  have hget : treeGet (treePut treeCreate (some ⟨[107], by decide⟩)
      (some ⟨5, none, by simp⟩)).1 (some ⟨[107], by decide⟩) = none := rfl
  refine ⟨⟨[107], by decide⟩, ⟨5, none, by simp⟩, rfl, by decide, hget, ?_⟩
  rintro (⟨-, d, -, hfound⟩ | ⟨hneg, -⟩)
  · exact absurd (hget.symm.trans hfound) (by simp)
  · exact absurd hneg (by decide)

end ReplicatedTree
