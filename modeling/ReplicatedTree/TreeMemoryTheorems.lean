import ReplicatedTree.TreeAnswers
import ReplicatedTree.TreeMemory

/-!
# The tree in memory is the tree — theorems about `TreeMemory`

Each function takes the blocks of a tree to those of the tree that the function of the same name in
`Tree` leaves, and returns the same. The loops are followed down the tree: the node at hand is the
root of a subtree, and the blocks around it are not touched. More fuel than nodes is enough for each
of them.
-/

namespace ReplicatedTree
namespace InMemory

open Heap SearchTree
open scoped Pointwise

/-! ## The blocks of a tree -/

/-- The nodes of a tree behind the pointer to its root. -/
def nodesAt : BinaryTree EntryT → Ptr → Assertion Block
  | .nil, p => fact (p = none)
  | .node e l r, p => ⋃ n : NodeBlock,
    cell p (.node n) + (entryAt (some e) n.entry + (nodesAt l n.left + nodesAt r n.right))

def treeAt (tree : TreeT) (p : Ptr) : Assertion Block :=
  ⋃ root, cell p (.tree ⟨root, tree.size, tree.height⟩) + nodesAt tree.root root

theorem nodesAt_mk (e : EntryT) (l r : BinaryTree EntryT) (p : Ptr) (n : NodeBlock) :
    cell p (.node n) + (entryAt (some e) n.entry + (nodesAt l n.left + nodesAt r n.right))
      ⊆ nodesAt (.node e l r) p :=
  Set.subset_iUnion (fun n : NodeBlock =>
    cell p (.node n) + (entryAt (some e) n.entry + (nodesAt l n.left + nodesAt r n.right))) n

theorem treeAt_mk (tree : TreeT) (p root : Ptr) :
    cell p (.tree ⟨root, tree.size, tree.height⟩) + nodesAt tree.root root ⊆ treeAt tree p :=
  Set.subset_iUnion
    (fun root => cell p (.tree ⟨root, tree.size, tree.height⟩) + nodesAt tree.root root) root

section Open

variable {α : Type} {P : Assertion Block} {c : HeapM Block α} {Q : α → Assertion Block} {p : Ptr}

theorem of_entry {e : EntryT} (h : ∀ b : EntryBlock,
    Triple (cell p (.entry b) + (stringAt e.key b.key + (dataAt e.value b.value + P))) c Q) :
    Triple (entryAt (some e) p + P) c Q := by
  have hp : entryAt (some e) p = ⋃ b : EntryBlock,
      cell p (.entry b) + (stringAt e.key b.key + dataAt e.value b.value) := rfl
  rw [hp, Set.iUnion_add]
  exact Triple.iUnion.2 fun b => (h b).of_eq (by ac_rfl)

theorem of_node {e : EntryT} {l r : BinaryTree EntryT} (h : ∀ n : NodeBlock,
    Triple (cell p (.node n) + (entryAt (some e) n.entry
      + (nodesAt l n.left + (nodesAt r n.right + P)))) c Q) :
    Triple (nodesAt (.node e l r) p + P) c Q := by
  rw [nodesAt, Set.iUnion_add]
  exact Triple.iUnion.2 fun n => (h n).of_eq (by ac_rfl)

theorem of_tree {tree : TreeT} (h : ∀ root,
    Triple (cell p (.tree ⟨root, tree.size, tree.height⟩) + (nodesAt tree.root root + P)) c Q) :
    Triple (treeAt tree p + P) c Q := by
  rw [treeAt, Set.iUnion_add]
  exact Triple.iUnion.2 fun root => (h root).of_eq (add_assoc _ _ _)

/-- The pointer to the root is NULL for the empty tree only. -/
theorem of_nodesAt {t : BinaryTree EntryT}
    (h : (p = none ↔ t = .nil) → Triple (nodesAt t p + P) c Q) :
    Triple (nodesAt t p + P) c Q := by
  cases t with
  | nil =>
    intro s hs
    obtain ⟨_, ⟨hp, -⟩, -⟩ := id hs
    exact h (iff_of_true hp rfl) s hs
  | node e l r =>
    refine of_node fun n => Triple.of_cell ?_
    rintro a rfl
    have hopen := h (by simp)
    exact hopen.pre (subset_frame (nodesAt_mk e l r (some a) n) P (by ac_rfl) rfl)

end Open

/-! ## Creating and destroying -/

/-- Fuel for a tree is fuel for its subtrees. -/
theorem fuel_of_node {e : EntryT} {l r : BinaryTree EntryT} {fuel : ℕ}
    (h : (BinaryTree.node e l r).numNodes < fuel) :
    ∃ n, fuel = n + 1 ∧ l.numNodes < n ∧ r.numNodes < n := by
  rw [BinaryTree.numNodes] at h
  exact ⟨fuel - 1, by omega, by omega, by omega⟩

theorem fuel_of_nil {fuel : ℕ} (h : (.nil : BinaryTree EntryT).numNodes < fuel) :
    ∃ n, fuel = n + 1 := Nat.exists_eq_add_one.2 h

theorem treeCreate_spec : Triple 0 treeCreate fun p => treeAt ReplicatedTree.treeCreate p := by
  refine (Triple.malloc _).post fun p => ?_
  refine subset_trans ?_ (treeAt_mk ReplicatedTree.treeCreate p none)
  rw [ReplicatedTree.treeCreate, nodesAt, fact_of rfl, add_zero]

theorem treeNodeDestroy_spec (t : BinaryTree EntryT) {fuel : ℕ} (h : t.numNodes < fuel)
    (p : Ptr) : Triple (nodesAt t p) (treeNodeDestroy fuel p) fun _ => 0 := by
  induction t generalizing p fuel with
  | nil =>
    obtain ⟨fuel, rfl⟩ := fuel_of_nil h
    refine Triple.of_fact fun hp => ?_
    rw [hp, treeNodeDestroy]
    exact Triple.pure Set.Subset.rfl
  | node e l r ihl ihr =>
    obtain ⟨fuel, rfl, hl, hr⟩ := fuel_of_node h
    rw [← add_zero (nodesAt _ p)]
    refine of_node fun n => Triple.of_cell ?_
    rintro a rfl
    rw [treeNodeDestroy]
    refine Triple.load rfl _ rfl ?_
    refine (entryDestroy_spec (some e) n.entry).seq
      (cell (some a) (.node n) + (nodesAt l n.left + nodesAt r n.right)) (by simp; ac_rfl)
      fun _ => ?_
    refine (ihl hl n.left).seq (cell (some a) (.node n) + nodesAt r n.right) (by simp; ac_rfl)
      fun _ => ?_
    refine (ihr hr n.right).seq (cell (some a) (.node n)) (by simp; ac_rfl) fun _ => ?_
    exact Triple.free.last 0 (add_comm _ _) fun _ => (add_zero _).le

theorem treeDestroy_spec (tree : TreeT) {fuel : ℕ} (h : tree.root.numNodes < fuel) (p : Ptr) :
    Triple (treeAt tree p) (treeDestroy fuel p) fun _ => 0 := by
  rw [← add_zero (treeAt tree p)]
  refine of_tree fun root => Triple.of_cell ?_
  rintro a rfl
  refine Triple.load rfl _ rfl ?_
  refine (treeNodeDestroy_spec tree.root h root).seq (cell (some a) (.tree ⟨root, _, _⟩))
    (by rw [add_zero, add_comm]) fun _ => ?_
  exact Triple.free.last 0 (add_comm _ _) fun _ => (add_zero _).le

/-- A new node takes over the key and the value. -/
theorem nodeCreate_spec (e : EntryT) (k v : Ptr) :
    Triple (stringAt e.key k + dataAt e.value v) (nodeCreate k v) fun p =>
      nodesAt (.node e .nil .nil) p := by
  refine (entryCreate_spec e k v).seq 0 (add_zero _).symm fun entry => ?_
  refine (Triple.malloc _).last (entryAt (some e) entry + 0) (zero_add _).symm fun p => ?_
  refine subset_trans ?_ (nodesAt_mk e .nil .nil p ⟨entry, none, none⟩)
  simp [nodesAt]

theorem treeComputeHeight_spec (t : BinaryTree EntryT) {fuel : ℕ} (h : t.numNodes < fuel)
    (p : Ptr) : Triple (nodesAt t p) (treeComputeHeight fuel p) fun n =>
      fact (n = ReplicatedTree.treeComputeHeight t) + nodesAt t p := by
  induction t generalizing p fuel with
  | nil =>
    obtain ⟨fuel, rfl⟩ := fuel_of_nil h
    refine Triple.of_fact fun hp => ?_
    rw [hp, treeComputeHeight]
    have hnil : -1 = ReplicatedTree.treeComputeHeight .nil := rfl
    refine Triple.pure ?_
    rw [nodesAt, fact_of rfl, fact_of hnil, zero_add]
  | node e l r ihl ihr =>
    obtain ⟨fuel, rfl, hl, hr⟩ := fuel_of_node h
    refine Triple.of_eq (add_zero _).symm (of_node fun n => Triple.of_cell ?_)
    rintro a rfl
    rw [treeComputeHeight]
    refine Triple.load rfl _ rfl ?_
    refine (ihl hl n.left).read (cell (some a) (.node n)
      + (entryAt (some e) n.entry + nodesAt r n.right)) (by simp; ac_rfl) ?_
    refine (ihr hr n.right).read (cell (some a) (.node n)
      + (entryAt (some e) n.entry + nodesAt l n.left)) (by simp; ac_rfl) ?_
    refine Triple.pure ?_
    rw [ReplicatedTree.treeComputeHeight, fact_of rfl, zero_add, add_zero]
    exact nodesAt_mk e l r (some a) n

/-! ## The key of a node -/

/-- The steps of both walks up to the comparison. -/
theorem compare_step {α : Type} {e : EntryT} {l r : BinaryTree EntryT} {p k : Ptr}
    {key : Option CString} {P : Assertion Block} {next : NodeBlock → ℤ → HeapM Block α}
    {Q : α → Assertion Block}
    (h : ∀ n : NodeBlock, Triple (cell p (.node n) + (entryAt (some e) n.entry
      + (nodesAt l n.left + (nodesAt r n.right + (stringAt key k + P)))))
      (next n (ReplicatedTree.keyCompare key e.key)) Q) :
    Triple (nodesAt (.node e l r) p + (stringAt key k + P))
      (do let node ← load Block.asNode p
          let entry ← load Block.asEntry node.entry
          let comparison ← keyCompare k entry.key
          next node comparison) Q := by
  refine of_node fun n => Triple.load rfl _ rfl ?_
  refine Triple.of_eq (P := entryAt (some e) n.entry + (cell p (.node n)
    + (nodesAt l n.left + (nodesAt r n.right + (stringAt key k + P))))) (by ac_rfl) ?_
  refine of_entry fun b => Triple.load rfl _ rfl ?_
  refine (keyCompare_spec key e.key k b.key).read (cell n.entry (.entry b)
    + (dataAt e.value b.value + (cell p (.node n) + (nodesAt l n.left + (nodesAt r n.right + P)))))
    (by ac_rfl) ?_
  refine (h n).pre (subset_frame (entryAt_mk e n.entry b.key b.value) (cell p (.node n)
    + (nodesAt l n.left + (nodesAt r n.right + (stringAt key k + P)))) ?_ ?_)
  · ac_rfl
  · ac_rfl

/-! ## Insertion -/

/-- The counters of a tree after an insertion that hangs a leaf at a depth, or overwrites. -/
def TreeBlock.inserted (t : TreeBlock) (depth : ℤ) (d : Option ℕ) : TreeBlock where
  root := t.root
  size := t.size + if d.isSome then 1 else 0
  height := d.elim t.height fun d => max (depth + d) t.height

theorem TreeBlock.inserted_succ (t : TreeBlock) (depth : ℤ) (d : Option ℕ) :
    t.inserted depth (d.map (· + 1)) = t.inserted (depth + 1) d := by
  cases d with
  | none => rfl
  | some d =>
    simp only [inserted, Option.map_some, Option.isSome_some, Option.elim, TreeBlock.mk.injEq,
      true_and]
    push_cast
    omega

theorem storeField_spec (f : Field) (b : Block) (p : Ptr) :
    Triple (cell f.block b) (storeField f p) fun _ => cell f.block (f.set p b) :=
  Triple.load rfl 0 (add_zero _).symm (Triple.store _)

theorem Field.set_get {f : Field} {b : Block} {p : Ptr} (h : f.get b = some p) :
    f.set p b = b := by
  cases f <;> cases b <;> simp only [get, Option.some.injEq, reduceCtorEq] at h <;> subst h <;> rfl

/-- A node with another left subtree. -/
theorem nodesAt_of_left (e : EntryT) (l r : BinaryTree EntryT) (p : Ptr) (n : NodeBlock) :
    (⋃ q, cell p ((Field.left p).set q (.node n)) + nodesAt l q)
      + (entryAt (some e) n.entry + nodesAt r n.right) ⊆ nodesAt (.node e l r) p := by
  rw [Set.iUnion_add]
  refine Set.iUnion_subset fun q => ?_
  refine subset_trans (Eq.le ?_) (nodesAt_mk e l r p { n with left := q })
  show cell p (.node { n with left := q }) + nodesAt l q + _ = _
  ac_rfl

/-- A node with another right subtree. -/
theorem nodesAt_of_right (e : EntryT) (l r : BinaryTree EntryT) (p : Ptr) (n : NodeBlock) :
    (⋃ q, cell p ((Field.right p).set q (.node n)) + nodesAt r q)
      + (entryAt (some e) n.entry + nodesAt l n.left) ⊆ nodesAt (.node e l r) p := by
  rw [Set.iUnion_add]
  refine Set.iUnion_subset fun q => ?_
  refine subset_trans (Eq.le ?_) (nodesAt_mk e l r p { n with right := q })
  show cell p (.node { n with right := q }) + nodesAt r q + _ = _
  ac_rfl

/-- What an insertion does below a field: it goes on from the node there, or hangs a new one. -/
theorem insert_below {f : Field} {b : Block} {q : Ptr} (hget : f.get b = some q) {e : EntryT}
    {c : BinaryTree EntryT} {fuel : ℕ} {tree k v : Ptr} {t : TreeBlock} {depth : ℤ}
    (ih : c ≠ .nil → Triple (cell tree (.tree t)
      + (stringAt e.key k + (dataAt e.value v + nodesAt c q)))
      (treePutLoop tree k v fuel q (depth + 1)) fun _ =>
        cell tree (.tree (t.inserted (depth + 1) (insertDepth EntryT.orderKey e c)))
          + nodesAt (insertNode EntryT.orderKey e c) q) :
    Triple (cell f.block b
      + (cell tree (.tree t) + (stringAt e.key k + (dataAt e.value v + nodesAt c q))))
      (do let nextNode ← loadField f
          if nextNode = none then do
            let newNode ← nodeCreate k v
            storeField f newNode
            let t ← load Block.asTree tree
            store tree (.tree { t with size := t.size + 1, height := intMax (depth + 1) t.height })
          else treePutLoop tree k v fuel nextNode (depth + 1)) fun _ =>
      cell tree (.tree (t.inserted (depth + 1) (insertDepth EntryT.orderKey e c)))
        + ⋃ q, cell f.block (f.set q b) + nodesAt (insertNode EntryT.orderKey e c) q := by
  refine Triple.load hget _ rfl ?_
  refine Triple.of_eq (P := nodesAt c q + (cell f.block b + (cell tree (.tree t)
    + (stringAt e.key k + dataAt e.value v)))) (by ac_rfl) (of_nodesAt fun hq => ?_)
  by_cases hc : c = .nil
  · subst hc
    rw [if_pos (hq.2 rfl), hq.2 rfl]
    refine Triple.fact.2 fun _ => ?_
    refine (nodeCreate_spec e k v).seq (cell f.block b + cell tree (.tree t)) (by ac_rfl)
      fun new => ?_
    refine (storeField_spec f b new).seq (nodesAt (.node e .nil .nil) new + cell tree (.tree t))
      (by ac_rfl) fun _ => ?_
    refine Triple.load rfl (cell f.block (f.set new b) + nodesAt (.node e .nil .nil) new)
      (by ac_rfl) ?_
    refine (Triple.store _).last (cell f.block (f.set new b) + nodesAt (.node e .nil .nil) new)
      (by ac_rfl) fun _ => ?_
    have hins : TreeBlock.inserted t (depth + 1) (insertDepth EntryT.orderKey e .nil)
        = { t with size := t.size + 1, height := intMax (depth + 1) t.height } := by
      simp [TreeBlock.inserted, insertDepth, intMax_eq]
    rw [hins]
    exact Set.add_subset_add_left (Set.subset_iUnion
      (fun q => cell f.block (f.set q b) + nodesAt (insertNode EntryT.orderKey e .nil) q) new)
  · rw [if_neg fun h => hc (hq.1 h)]
    refine (ih hc).last (cell f.block b) (by ac_rfl) fun _ => ?_
    rw [add_assoc, add_comm (nodesAt _ q)]
    have hset : f.set q b = b := f.set_get hget
    have hsub := Set.subset_iUnion
      (fun q => cell f.block (f.set q b) + nodesAt (insertNode EntryT.orderKey e c) q) q
    rw [hset] at hsub
    exact Set.add_subset_add_left hsub

theorem treePutLoop_spec (e : EntryT) (t : BinaryTree EntryT) (ht : t ≠ .nil) {fuel : ℕ}
    (h : t.numNodes < fuel) (tree k v p : Ptr) (block : TreeBlock) (depth : ℤ) :
    Triple (cell tree (.tree block) + (stringAt e.key k + (dataAt e.value v + nodesAt t p)))
      (treePutLoop tree k v fuel p depth) fun _ =>
      cell tree (.tree (block.inserted depth (insertDepth EntryT.orderKey e t)))
        + nodesAt (insertNode EntryT.orderKey e t) p := by
  induction t generalizing p depth fuel with
  | nil => exact absurd rfl ht
  | node e' l r ihl ihr =>
    obtain ⟨fuel, rfl, hleft, hright⟩ := fuel_of_node h
    rw [treePutLoop]
    refine Triple.of_eq (P := nodesAt (.node e' l r) p + (stringAt e.key k
      + (cell tree (.tree block) + dataAt e.value v))) (by ac_rfl) (compare_step fun n => ?_)
    have hkey : e.orderKey = keyOrder e.key := rfl
    rw [insertNode, insertDepth]
    simp only [keyCompare_eq_zero_iff, keyCompare_neg_iff, hkey]
    by_cases heq : keyOrder e.key = e'.orderKey
    · -- the entry of the node is replaced
      simp only [if_pos heq]
      refine (entryDestroy_spec (some e') n.entry).seq (cell p (.node n) + (nodesAt l n.left
        + (nodesAt r n.right + (stringAt e.key k + (cell tree (.tree block) + dataAt e.value v)))))
        (by ac_rfl) fun _ => ?_
      refine (entryCreate_spec e k v).seq (cell p (.node n) + (nodesAt l n.left
        + (nodesAt r n.right + cell tree (.tree block)))) (by rw [zero_add]; ac_rfl) fun entry => ?_
      refine (Triple.store _).last (entryAt (some e) entry + (nodesAt l n.left
        + (nodesAt r n.right + cell tree (.tree block)))) (by ac_rfl) fun _ => ?_
      refine subset_frame (nodesAt_mk e l r p { n with entry := entry }) (cell tree (.tree block))
        (by ac_rfl) ?_
      have hblock : block.inserted depth none = block := by simp [TreeBlock.inserted]
      rw [hblock, add_comm]
    · simp only [if_neg heq]
      by_cases hlt : keyOrder e.key < e'.orderKey
      · simp only [if_pos hlt, TreeBlock.inserted_succ]
        refine (insert_below (f := .left p) (b := .node n) rfl
          (fun hl => ihl hl hleft n.left _)).last
          (entryAt (some e') n.entry + nodesAt r n.right) (by ac_rfl) fun _ => ?_
        exact subset_frame (nodesAt_of_left e' (insertNode EntryT.orderKey e l) r p n) _
          ((add_assoc _ _ _).trans (add_comm _ _)) (add_comm _ _)
      · simp only [if_neg hlt, TreeBlock.inserted_succ]
        refine (insert_below (f := .right p) (b := .node n) rfl
          (fun hr => ihr hr hright n.right _)).last
          (entryAt (some e') n.entry + nodesAt l n.left) (by ac_rfl) fun _ => ?_
        exact subset_frame (nodesAt_of_right e' l (insertNode EntryT.orderKey e r) p n) _
          ((add_assoc _ _ _).trans (add_comm _ _)) (add_comm _ _)

/-- `tree_put` leaves the caller its key and its value, and stores copies. -/
theorem treePut_spec (tree : TreeT) {fuel : ℕ} (h : tree.root.numNodes < fuel)
    (key : Option CString) (value : Option DataT) (p k v : Ptr) :
    Triple (treeAt tree p + (stringAt key k + dataAt value v)) (treePut fuel p k v) fun r =>
      fact (r = (ReplicatedTree.treePut tree key value).2)
        + (treeAt (ReplicatedTree.treePut tree key value).1 p
          + (stringAt key k + dataAt value v)) := by
  refine Triple.of_eq (P := stringAt key k + (dataAt value v + treeAt tree p)) (by ac_rfl)
    (of_stringAt fun hk => Triple.of_eq (P := dataAt value v + (stringAt key k + treeAt tree p))
      (by ac_rfl) (of_dataAt fun hv => ?_))
  by_cases hnull : key = none ∨ value = none
  · unfold treePut
    rw [if_pos (Or.inr (hnull.imp hk.2 hv.2)), treePut_null tree hnull]
    refine Triple.pure ?_
    rw [fact_of rfl, zero_add]
    exact Eq.le (by ac_rfl)
  obtain ⟨hkey, hvalue⟩ := not_or.1 hnull
  obtain ⟨s, rfl⟩ := Option.ne_none_iff_exists'.1 hkey
  obtain ⟨d, rfl⟩ := Option.ne_none_iff_exists'.1 hvalue
  refine Triple.of_eq (P := treeAt tree p + (stringAt (some s) k + dataAt (some d) v))
    (by ac_rfl) (of_tree fun root => Triple.of_cell ?_)
  rintro a rfl
  unfold treePut
  rw [if_neg (by simp_all)]
  let block : TreeBlock := ⟨root, tree.size, tree.height⟩
  -- the caller's own blocks
  let own : Assertion Block := stringAt (some s) k + dataAt (some d) v
  refine (strdup_spec s k).seq (cell (some a) (.tree block) + (nodesAt tree.root root
    + dataAt (some d) v)) (by ac_rfl) fun k' => ?_
  refine (dataDup_spec (some d) v).seq (cell (some a) (.tree block) + (nodesAt tree.root root
    + (stringAt (some s) k' + stringAt (some s) k))) (by ac_rfl) fun v' => ?_
  obtain ⟨e, he, hkey', hvalue'⟩ : ∃ e : EntryT,
      e = ReplicatedTree.entryCreate (some s) (ReplicatedTree.dataDup (some d)) ∧
      stringAt (some s) k' = stringAt e.key k' ∧
      dataAt (ReplicatedTree.dataDup (some d)) v' = dataAt e.value v' := ⟨_, rfl, rfl, rfl⟩
  rw [hkey', hvalue']
  refine Triple.of_eq (P := cell (some a) (.tree block) + (nodesAt tree.root root
    + (stringAt e.key k' + (dataAt e.value v' + own)))) (by simp only [own]; ac_rfl)
    (Triple.load rfl _ rfl ?_)
  refine Triple.of_eq (P := nodesAt tree.root root + (cell (some a) (.tree block)
    + (stringAt e.key k' + (dataAt e.value v' + own)))) (by ac_rfl) (of_nodesAt fun hroot => ?_)
  cases ht : tree.root with
  | nil =>
    have hput : ReplicatedTree.treePut tree (some s) (some d) = (⟨.node e .nil .nil, 1, 0⟩, 0) := by
      simp [ReplicatedTree.treePut, ht, he, ReplicatedTree.nodeCreate]
    rw [if_pos (hroot.2 ht), hput]
    refine Triple.fact.2 fun _ => ?_
    refine (nodeCreate_spec e k' v').seq (cell (some a) (.tree block) + own) (by ac_rfl)
      fun new => ?_
    refine (Triple.store (Block.tree ⟨new, 1, 0⟩)).seq (nodesAt (.node e .nil .nil) new + own)
      (by ac_rfl) fun _ => Triple.pure ?_
    rw [fact_of rfl, zero_add]
    exact subset_frame (treeAt_mk ⟨.node e .nil .nil, 1, 0⟩ (some a) new) own (by ac_rfl) rfl
  | node e' l r =>
    have hput : ReplicatedTree.treePut tree (some s) (some d)
        = (⟨insertNode EntryT.orderKey e tree.root,
          (block.inserted 0 (insertDepth EntryT.orderKey e tree.root)).size,
          (block.inserted 0 (insertDepth EntryT.orderKey e tree.root)).height⟩, 0) := by
      unfold ReplicatedTree.treePut
      rw [if_neg (by simp)]
      simp only [treePutCore_eq tree _ _ tree.root [] 0 (subtree_root _), replace_root, ← he]
      simp only [ht]
      rfl
    rw [if_neg (by rw [hroot, ht]; simp), hput, ← ht]
    refine (treePutLoop_spec e tree.root (by rw [ht]; simp) h (some a) k' v' root block 0).seq own
      (by ac_rfl) fun _ => Triple.pure ?_
    rw [fact_of rfl, zero_add]
    exact subset_frame (treeAt_mk ⟨insertNode EntryT.orderKey e tree.root, _, _⟩ (some a) root) own
      rfl rfl

/-! ## A subtree and the rest -/

/-- The rest of the tree behind a field `f` when the subtree behind a field `f'` is taken out: with
any tree in its place there is the tree that `put` makes of it. -/
def restAt (f : Field) (b : Block) (put : BinaryTree EntryT → BinaryTree EntryT) (f' : Field)
    (b' : Block) : Assertion Block :=
  ⋂ (q : Ptr) (s : BinaryTree EntryT), wand (cell f'.block (f'.set q b') + nodesAt s q)
    (⋃ q', cell f.block (f.set q' b) + nodesAt (put s) q')

section Rest

variable {f f₁ f₂ : Field} {b b₁ b₂ : Block} {put put₁ : BinaryTree EntryT → BinaryTree EntryT}

theorem restAt_refl (f : Field) (b : Block) : 0 ⊆ restAt f b id f b := by
  refine Set.subset_iInter fun q => Set.subset_iInter fun s => subset_wand ?_
  rw [zero_add]
  exact Set.subset_iUnion (fun q => cell f.block (f.set q b) + nodesAt s q) q

theorem restAt_elim (q : Ptr) (s : BinaryTree EntryT) :
    restAt f b put f₁ b₁ + (cell f₁.block (f₁.set q b₁) + nodesAt s q)
      ⊆ ⋃ q', cell f.block (f.set q' b) + nodesAt (put s) q' :=
  (Set.add_subset_add_right ((Set.iInter_subset _ q).trans (Set.iInter_subset _ s))).trans wand_elim

theorem restAt_trans : restAt f b put f₁ b₁ + restAt f₁ b₁ put₁ f₂ b₂
    ⊆ restAt f b (put ∘ put₁) f₂ b₂ := by
  refine Set.subset_iInter fun q => Set.subset_iInter fun s => subset_wand ?_
  refine (Eq.le (add_assoc _ _ _)).trans ((Set.add_subset_add_left (restAt_elim q s)).trans ?_)
  rw [Set.add_iUnion]
  exact Set.iUnion_subset fun q' => restAt_elim q' (put₁ s)

variable {q : Ptr} (hget : f.get b = some q) (e : EntryT) (l r : BinaryTree EntryT) (n : NodeBlock)
include hget

theorem restAt_left : cell f.block b + (entryAt (some e) n.entry + nodesAt r n.right)
    ⊆ restAt f b (fun s => .node e s r) (.left q) (.node n) := by
  refine Set.subset_iInter fun q' => Set.subset_iInter fun s => subset_wand ?_
  refine Set.subset_iUnion_of_subset q ?_
  rw [f.set_get hget]
  refine subset_frame (nodesAt_mk e s r q { n with left := q' }) (cell f.block b) ?_ (add_comm _ _)
  show _ + (cell q (.node { n with left := q' }) + nodesAt s q') = _
  ac_rfl

theorem restAt_right : cell f.block b + (entryAt (some e) n.entry + nodesAt l n.left)
    ⊆ restAt f b (fun s => .node e l s) (.right q) (.node n) := by
  refine Set.subset_iInter fun q' => Set.subset_iInter fun s => subset_wand ?_
  refine Set.subset_iUnion_of_subset q ?_
  rw [f.set_get hget]
  refine subset_frame (nodesAt_mk e l s q { n with right := q' }) (cell f.block b) ?_ (add_comm _ _)
  show _ + (cell q (.node { n with right := q' }) + nodesAt s q') = _
  ac_rfl

end Rest

/-- A field was found that holds the subtree `s`. -/
def focusAt (f : Field) (b : Block) (put : BinaryTree EntryT → BinaryTree EntryT)
    (s : BinaryTree EntryT) (f' : Field) : Assertion Block :=
  ⋃ (b' : Block) (q : Ptr), fact (f'.get b' = some q)
    + (cell f'.block b' + (nodesAt s q + restAt f b put f' b'))

theorem focusAt_refl {f : Field} {b : Block} {q : Ptr} (hget : f.get b = some q)
    (s : BinaryTree EntryT) : cell f.block b + nodesAt s q ⊆ focusAt f b id s f := by
  refine Set.subset_iUnion_of_subset b (Set.subset_iUnion_of_subset q ?_)
  rw [fact_of hget, zero_add]
  refine subset_frame (restAt_refl f b) (cell f.block b + nodesAt s q) (zero_add _).symm ?_
  ac_rfl

/-- A field that was found below another one. -/
theorem focusAt_trans {f f₁ f' : Field} {b b₁ : Block}
    {put put₁ : BinaryTree EntryT → BinaryTree EntryT} {s : BinaryTree EntryT} :
    restAt f b put f₁ b₁ + focusAt f₁ b₁ put₁ s f' ⊆ focusAt f b (put ∘ put₁) s f' := by
  simp only [focusAt, Set.add_iUnion]
  refine Set.iUnion_mono fun b' => Set.iUnion_mono fun q => ?_
  have htrans : restAt f b put f₁ b₁ + restAt f₁ b₁ put₁ f' b' ⊆ restAt f b (put ∘ put₁) f' b' :=
    restAt_trans
  refine subset_frame htrans (fact (f'.get b' = some q) + (cell f'.block b' + nodesAt s q)) ?_ ?_
  · ac_rfl
  · ac_rfl

/-! ## Lookup -/

/-- What a lookup leaves: the tree as it was, and the field that holds the node. -/
def foundAt (f : Field) (b : Block) (t : BinaryTree EntryT) (q : Ptr) :
    Option Path → Option Field → Assertion Block
  | none, r => fact (r = none) + (cell f.block b + nodesAt t q)
  | some path, r => ⋃ f', fact (r = some f') + focusAt f b (replace t path) (subtree t path) f'

section Found

variable {f : Field} {b : Block} {q : Ptr} (hget : f.get b = some q)
include hget

theorem focusAt_here (t : BinaryTree EntryT) :
    cell f.block b + nodesAt t q ⊆ focusAt f b (replace t []) (subtree t []) f := by
  have hid : replace t [] = id := funext fun s => replace_root t s
  rw [hid, subtree_root]
  exact focusAt_refl hget t

theorem focusAt_left (e : EntryT) (l r : BinaryTree EntryT) (n : NodeBlock) (path : Path)
    (f' : Field) : cell f.block b + (entryAt (some e) n.entry + nodesAt r n.right)
      + focusAt (.left q) (.node n) (replace l path) (subtree l path) f'
    ⊆ focusAt f b (replace (.node e l r) (.left :: path))
      (subtree (.node e l r) (.left :: path)) f' :=
  (Set.add_subset_add_right (restAt_left hget e r n)).trans focusAt_trans

theorem focusAt_right (e : EntryT) (l r : BinaryTree EntryT) (n : NodeBlock) (path : Path)
    (f' : Field) : cell f.block b + (entryAt (some e) n.entry + nodesAt l n.left)
      + focusAt (.right q) (.node n) (replace r path) (subtree r path) f'
    ⊆ focusAt f b (replace (.node e l r) (.right :: path))
      (subtree (.node e l r) (.right :: path)) f' :=
  (Set.add_subset_add_right (restAt_right hget e l n)).trans focusAt_trans

theorem foundAt_here (t : BinaryTree EntryT) :
    cell f.block b + nodesAt t q ⊆ foundAt f b t q (some []) (some f) := by
  refine Set.subset_iUnion_of_subset f ?_
  rw [fact_of rfl, zero_add]
  exact focusAt_here hget t

theorem foundAt_left (e : EntryT) (l r : BinaryTree EntryT) (n : NodeBlock) (path : Option Path)
    (found : Option Field) : cell f.block b + (entryAt (some e) n.entry + nodesAt r n.right)
      + foundAt (.left q) (.node n) l n.left path found
    ⊆ foundAt f b (.node e l r) q (path.map (Side.left :: ·)) found := by
  cases path with
  | none =>
    refine subset_frame (nodesAt_mk e l r q n) (fact (found = none) + cell f.block b) ?_ ?_
    · show _ + (_ + (cell q (Block.node n) + _)) = _
      ac_rfl
    · show fact _ + (_ + _) = _
      ac_rfl
  | some path =>
    simp only [foundAt, Set.add_iUnion, Option.map_some]
    refine Set.iUnion_mono fun f' => ?_
    exact subset_frame (focusAt_left hget e l r n path f') (fact (found = some f')) (by ac_rfl)
      (add_comm _ _)

theorem foundAt_right (e : EntryT) (l r : BinaryTree EntryT) (n : NodeBlock) (path : Option Path)
    (found : Option Field) : cell f.block b + (entryAt (some e) n.entry + nodesAt l n.left)
      + foundAt (.right q) (.node n) r n.right path found
    ⊆ foundAt f b (.node e l r) q (path.map (Side.right :: ·)) found := by
  cases path with
  | none =>
    refine subset_frame (nodesAt_mk e l r q n) (fact (found = none) + cell f.block b) ?_ ?_
    · show _ + (_ + (cell q (Block.node n) + _)) = _
      ac_rfl
    · show fact _ + (_ + _) = _
      ac_rfl
  | some path =>
    simp only [foundAt, Set.add_iUnion, Option.map_some]
    refine Set.iUnion_mono fun f' => ?_
    exact subset_frame (focusAt_right hget e l r n path f') (fact (found = some f')) (by ac_rfl)
      (add_comm _ _)

end Found

theorem treeNodePointerGet_spec (key : Option CString) (k : Ptr) (t : BinaryTree EntryT) {fuel : ℕ}
    (h : t.numNodes < fuel) (f : Field) (b : Block) (q : Ptr) (hget : f.get b = some q) :
    Triple (stringAt key k + (cell f.block b + nodesAt t q)) (treeNodePointerGet fuel f k) fun r =>
      stringAt key k + foundAt f b t q (pathTo EntryT.orderKey (keyOrder key) t) r := by
  induction t generalizing f b q fuel with
  | nil =>
    obtain ⟨fuel, rfl⟩ := fuel_of_nil h
    rw [treeNodePointerGet]
    refine Triple.load hget (stringAt key k + nodesAt .nil q) (by ac_rfl) ?_
    refine Triple.of_eq (P := nodesAt .nil q + (stringAt key k + cell f.block b)) (by ac_rfl)
      (of_nodesAt fun hq => ?_)
    rw [if_pos (hq.2 rfl)]
    simp only [pathTo, foundAt]
    refine Triple.pure ?_
    rw [fact_of rfl]
    exact Eq.le (by rw [zero_add]; ac_rfl)
  | node e l r ihl ihr =>
    obtain ⟨fuel, rfl, hl, hr⟩ := fuel_of_node h
    rw [treeNodePointerGet]
    refine Triple.load hget (stringAt key k + nodesAt (.node e l r) q) (by ac_rfl) ?_
    refine Triple.of_eq (P := nodesAt (.node e l r) q + (stringAt key k + cell f.block b))
      (by ac_rfl) (of_nodesAt fun hq => ?_)
    rw [if_neg (by rw [hq]; simp)]
    refine compare_step fun n => ?_
    simp only [keyCompare_eq_zero_iff, keyCompare_neg_iff]
    by_cases heq : keyOrder key = e.orderKey
    · have hpath : pathTo EntryT.orderKey (keyOrder key) (.node e l r) = some [] := if_pos heq
      rw [if_pos heq, hpath]
      refine Triple.pure (subset_trans ?_ (Set.add_subset_add_left (foundAt_here hget _)))
      exact subset_frame (nodesAt_mk e l r q n) (stringAt key k + cell f.block b) (by ac_rfl)
        (by ac_rfl)
    rw [if_neg heq]
    by_cases hlt : keyOrder key < e.orderKey
    · have hpath : pathTo EntryT.orderKey (keyOrder key) (.node e l r)
          = (pathTo EntryT.orderKey (keyOrder key) l).map (Side.left :: ·) := by
        rw [pathTo, if_neg heq, if_pos hlt]
      rw [if_pos hlt, hpath]
      refine (ihl hl (.left q) (.node n) n.left rfl).last (cell f.block b
        + (entryAt (some e) n.entry + nodesAt r n.right))
        (by rw [Field.block]; ac_rfl) fun found => ?_
      exact subset_frame (foundAt_left hget e l r n _ found) (stringAt key k) (by ac_rfl)
        (add_comm _ _)
    · have hpath : pathTo EntryT.orderKey (keyOrder key) (.node e l r)
          = (pathTo EntryT.orderKey (keyOrder key) r).map (Side.right :: ·) := by
        rw [pathTo, if_neg heq, if_neg hlt]
      rw [if_neg hlt, hpath]
      refine (ihr hr (.right q) (.node n) n.right rfl).last (cell f.block b
        + (entryAt (some e) n.entry + nodesAt l n.left))
        (by rw [Field.block]; ac_rfl) fun found => ?_
      exact subset_frame (foundAt_right hget e l r n _ found) (stringAt key k) (by ac_rfl)
        (add_comm _ _)

/-- Opening what was found. -/
theorem of_focus {α : Type} {f f' : Field} {b : Block}
    {put : BinaryTree EntryT → BinaryTree EntryT} {s : BinaryTree EntryT} {P : Assertion Block}
    {c : HeapM Block α} {Q : α → Assertion Block}
    (h : ∀ b' q, f'.get b' = some q →
      Triple (cell f'.block b' + (nodesAt s q + (restAt f b put f' b' + P))) c Q) :
    Triple (focusAt f b put s f' + P) c Q := by
  simp only [focusAt, Set.iUnion_add]
  refine Triple.iUnion.2 fun b' => Triple.iUnion.2 fun q => ?_
  rw [add_assoc]
  exact Triple.fact.2 fun hget => (h b' q hget).of_eq (by ac_rfl)

/-- The subtree that was found is put back as it is. -/
theorem restAt_back {f f' : Field} {b b' : Block} {put : BinaryTree EntryT → BinaryTree EntryT}
    {q : Ptr} (hget : f'.get b' = some q) (s : BinaryTree EntryT) :
    restAt f b put f' b' + (cell f'.block b' + nodesAt s q)
      ⊆ ⋃ q, cell f.block (f.set q b) + nodesAt (put s) q := by
  have h : restAt f b put f' b' + (cell f'.block (f'.set q b') + nodesAt s q)
      ⊆ ⋃ q, cell f.block (f.set q b) + nodesAt (put s) q := restAt_elim q s
  rwa [f'.set_get hget] at h

/-- The value of a node, copied. -/
theorem copyValue_spec (e : EntryT) (l r : BinaryTree EntryT) (q : Ptr) :
    Triple (nodesAt (.node e l r) q)
      (do let n ← load Block.asNode q
          let e ← load Block.asEntry n.entry
          dataDup e.value) fun found =>
      dataAt (ReplicatedTree.dataDup e.value) found + nodesAt (.node e l r) q := by
  refine Triple.of_eq (add_zero _).symm (of_node fun n => Triple.load rfl _ rfl ?_)
  refine Triple.of_eq (P := entryAt (some e) n.entry + (cell q (.node n) + (nodesAt l n.left
    + nodesAt r n.right))) (by rw [add_zero]; ac_rfl) (of_entry fun b => Triple.load rfl _ rfl ?_)
  refine (dataDup_spec e.value b.value).last (cell n.entry (.entry b) + (stringAt e.key b.key
    + (cell q (.node n) + (nodesAt l n.left + nodesAt r n.right)))) (by ac_rfl) fun found => ?_
  refine subset_trans ?_ (Set.add_subset_add_left (nodesAt_mk e l r q n))
  exact subset_frame (entryAt_mk e n.entry b.key b.value)
    (dataAt (ReplicatedTree.dataDup e.value) found
      + (cell q (.node n) + (nodesAt l n.left + nodesAt r n.right))) (by ac_rfl) (by ac_rfl)

theorem copyFound_spec {f f' : Field} {b : Block} {put : BinaryTree EntryT → BinaryTree EntryT}
    {e : EntryT} {l r : BinaryTree EntryT} :
    Triple (focusAt f b put (.node e l r) f') (copyFound f') fun found =>
      dataAt (ReplicatedTree.dataDup e.value) found
        + ⋃ q, cell f.block (f.set q b) + nodesAt (put (.node e l r)) q := by
  refine Triple.of_eq (add_zero _).symm (of_focus fun b' q hget => ?_)
  refine Triple.load hget _ rfl ?_
  refine (copyValue_spec e l r q).last (cell f'.block b' + restAt f b put f' b')
    (by rw [add_zero]; ac_rfl) fun found => ?_
  exact subset_frame (restAt_back hget (.node e l r))
    (dataAt (ReplicatedTree.dataDup e.value) found) (by ac_rfl) (add_comm _ _)

/-- A field of a tree struct and what is behind it, for any root. -/
theorem treeAt_of_field (tree : TreeT) (p root : Ptr) :
    (⋃ q, cell p ((Field.root p).set q (.tree ⟨root, tree.size, tree.height⟩))
      + nodesAt tree.root q) ⊆ treeAt tree p :=
  Set.iUnion_subset fun q => treeAt_mk tree p q

theorem treeGet_of_none {tree : TreeT} {key : Option CString}
    (h : pathTo EntryT.orderKey (keyOrder key) tree.root = none) :
    ReplicatedTree.treeGet tree key = ReplicatedTree.dataCreate (fun _ => 0) 0 := by
  rw [ReplicatedTree.treeGet, treeNodePointerGet_root, h]

theorem treeGet_of_some {tree : TreeT} {key : Option CString} {path : Path} {e : EntryT}
    {l r : BinaryTree EntryT} (h : pathTo EntryT.orderKey (keyOrder key) tree.root = some path)
    (hs : subtree tree.root path = .node e l r) :
    ReplicatedTree.treeGet tree key = ReplicatedTree.dataDup e.value := by
  rw [ReplicatedTree.treeGet, treeNodePointerGet_root, h]
  simp only [hs]

/-- `tree_get` copies the value of the key, and leaves the tree and the key as they are. -/
theorem treeGet_spec (tree : TreeT) {fuel : ℕ} (h : tree.root.numNodes < fuel)
    (key : Option CString) (p k : Ptr) :
    Triple (treeAt tree p + stringAt key k) (treeGet fuel p k) fun r =>
      dataAt (ReplicatedTree.treeGet tree key) r + (treeAt tree p + stringAt key k) := by
  refine of_tree fun root => Triple.of_cell ?_
  rintro a rfl
  let block : TreeBlock := ⟨root, tree.size, tree.height⟩
  unfold treeGet
  rw [if_neg (by simp)]
  refine Triple.load rfl _ rfl ?_
  refine Triple.of_eq (P := nodesAt tree.root root + (cell (some a) (.tree block) + stringAt key k))
    (by ac_rfl) (of_nodesAt fun hroot => ?_)
  have habsent (h : pathTo EntryT.orderKey (keyOrder key) tree.root = none) :
      Triple (nodesAt tree.root root + (cell (some a) (.tree block) + stringAt key k))
        (dataCreate (fun _ => 0) 0) fun r =>
        dataAt (ReplicatedTree.treeGet tree key) r + (treeAt tree (some a) + stringAt key k) := by
    rw [treeGet_of_none h]
    refine (dataCreate_spec (fun _ => 0) 0).last _ (zero_add _).symm fun r => ?_
    refine Set.add_subset_add_left ?_
    exact subset_frame (treeAt_mk tree (some a) root) (stringAt key k) (by ac_rfl) rfl
  by_cases hnil : tree.root = .nil
  · rw [if_pos (hroot.2 hnil)]
    exact habsent (by rw [hnil]; rfl)
  rw [if_neg fun h => hnil (hroot.1 h)]
  have hfound := treeNodePointerGet_spec key k tree.root h (.root (some a)) (.tree block) root rfl
  refine Triple.of_eq ?_ (hfound.bind fun found => ?_)
  · rw [Field.block]
    ac_rfl
  cases hpath : pathTo EntryT.orderKey (keyOrder key) tree.root with
  | none =>
    refine Triple.of_eq (P := fact (found = none) + (nodesAt tree.root root
      + (cell (some a) (.tree block) + stringAt key k))) ?_ (Triple.fact.2 fun hnone => ?_)
    · show _ + (_ + (cell (some a) _ + _)) = _
      ac_rfl
    · rw [hnone]
      exact habsent hpath
  | some path =>
    obtain ⟨e, l, r, hs, -⟩ := subtree_pathTo hpath
    have hback := replace_subtree tree.root path
    rw [hs] at hback
    rw [treeGet_of_some hpath hs, foundAt, hs, Set.add_iUnion]
    refine Triple.iUnion.2 fun f' => ?_
    rw [add_left_comm]
    refine Triple.fact.2 fun hf' => ?_
    rw [hf']
    refine copyFound_spec.last (stringAt key k) (add_comm _ _) fun r => ?_
    rw [hback, add_assoc]
    refine Set.add_subset_add_left (Set.add_subset_add_right ?_)
    exact treeAt_of_field tree (some a) root

/-! ## Deletion -/

theorem successorPointer_spec (e : EntryT) (l r : BinaryTree EntryT) {fuel : ℕ}
    (h : (BinaryTree.node e l r).numNodes < fuel) {f : Field} {b : Block} {q : Ptr}
    (hget : f.get b = some q) :
    Triple (cell f.block b + nodesAt (.node e l r) q) (successorPointer fuel f) fun f' =>
      focusAt f b (replace (.node e l r) (minPath (.node e l r)))
        (subtree (.node e l r) (minPath (.node e l r))) f' := by
  induction l generalizing e r f b q fuel with
  | nil =>
    obtain ⟨fuel, rfl, -⟩ := fuel_of_node h
    rw [successorPointer]
    refine Triple.load hget _ rfl ?_
    refine Triple.of_eq (add_comm _ _) (of_node fun n => Triple.load rfl _ rfl ?_)
    refine Triple.of_eq (P := nodesAt .nil n.left + (cell q (.node n) + (entryAt (some e) n.entry
      + (nodesAt r n.right + cell f.block b)))) (by ac_rfl) (of_nodesAt fun hleft => ?_)
    rw [if_pos (hleft.2 rfl)]
    refine Triple.pure (subset_trans ?_ (focusAt_here hget (.node e .nil r)))
    exact subset_frame (nodesAt_mk e .nil r q n) (cell f.block b) (by ac_rfl) (add_comm _ _)
  | node e' ll lr ih _ =>
    obtain ⟨fuel, rfl, hl, -⟩ := fuel_of_node h
    rw [successorPointer]
    refine Triple.load hget _ rfl ?_
    refine Triple.of_eq (add_comm _ _) (of_node fun n => Triple.load rfl _ rfl ?_)
    refine Triple.of_eq (P := nodesAt (.node e' ll lr) n.left + (cell q (.node n)
      + (entryAt (some e) n.entry + (nodesAt r n.right + cell f.block b)))) (by ac_rfl)
      (of_nodesAt fun hleft => ?_)
    rw [if_neg (by rw [hleft]; simp)]
    refine (ih e' lr hl (f := .left q) (b := .node n) (q := n.left) rfl).last
      (cell f.block b + (entryAt (some e) n.entry + nodesAt r n.right)) ?_ fun f' => ?_
    · rw [Field.block]
      ac_rfl
    · rw [add_comm]
      exact focusAt_left hget e (.node e' ll lr) r n (minPath (.node e' ll lr)) f'

/-- The successor is unhooked, and gets the children of the node. -/
theorem takeSuccessor_spec (l : BinaryTree EntryT) (re : EntryT) (rl rr : BinaryTree EntryT)
    {fuel : ℕ} (h : (BinaryTree.node re rl rr).numNodes < fuel) (p : Ptr) (n : NodeBlock) :
    Triple (cell p (.node n) + (nodesAt l n.left + nodesAt (.node re rl rr) n.right))
      (takeSuccessor fuel p) fun successor =>
        (⋃ right, cell p (Block.node { n with right := right }))
          + nodesAt (.node (popMin re rl rr).1 l (popMin re rl rr).2) successor := by
  obtain ⟨mr, hs, hr⟩ := minPath_spec re rl rr
  have hfind := successorPointer_spec re rl rr h (f := .right p) (b := .node n) rfl
  rw [hs] at hfind
  refine hfind.seq (nodesAt l n.left) ?_ fun f' => ?_
  · rw [Field.block]
    ac_rfl
  refine of_focus fun b' q hget => Triple.load hget _ rfl ?_
  refine Triple.of_eq (P := nodesAt (.node (popMin re rl rr).1 .nil mr) q + (cell f'.block b'
    + (restAt (.right p) (.node n) (replace (.node re rl rr) (minPath (.node re rl rr))) f' b'
    + nodesAt l n.left))) (by ac_rfl) (of_node fun s => Triple.load rfl _ rfl ?_)
  refine (storeField_spec f' b' s.right).seq (cell q (.node s)
    + (entryAt (some (popMin re rl rr).1) s.entry + (nodesAt .nil s.left + (nodesAt mr s.right
    + (restAt (.right p) (.node n) (replace (.node re rl rr) (minPath (.node re rl rr))) f' b'
    + nodesAt l n.left))))) (by ac_rfl) fun _ => ?_
  have hunhook : restAt (.right p) (.node n) (replace (.node re rl rr) (minPath (.node re rl rr)))
      f' b' + (cell f'.block (f'.set s.right b') + nodesAt mr s.right)
      ⊆ ⋃ q', cell p ((Field.right p).set q' (.node n)) + nodesAt (popMin re rl rr).2 q' :=
    hr ▸ restAt_elim s.right mr
  refine Triple.pre ?_ (subset_frame hunhook (nodesAt .nil s.left + (cell q (.node s)
    + (entryAt (some (popMin re rl rr).1) s.entry + nodesAt l n.left))) (by ac_rfl) rfl)
  rw [Set.iUnion_add]
  refine Triple.iUnion.2 fun q' => ?_
  rw [add_left_comm]
  refine Triple.fact.2 fun _ => ?_
  refine Triple.of_eq (add_assoc _ _ _) (Triple.load rfl _ rfl ?_)
  refine (storeField_spec (.left q) (.node s) n.left).seq
    (cell p ((Field.right p).set q' (.node n)) + (nodesAt (popMin re rl rr).2 q'
    + (entryAt (some (popMin re rl rr).1) s.entry + nodesAt l n.left)))
    (by rw [Field.block]; ac_rfl) fun _ => ?_
  refine (storeField_spec (.right q) ((Field.left q).set n.left (.node s)) q').seq
    (cell p ((Field.right p).set q' (.node n)) + (nodesAt (popMin re rl rr).2 q'
    + (entryAt (some (popMin re rl rr).1) s.entry + nodesAt l n.left))) rfl
    fun _ => Triple.pure ?_
  refine subset_trans (Eq.le ?_) (Set.add_subset_add (Set.subset_iUnion _ q')
    (nodesAt_mk (popMin re rl rr).1 l (popMin re rl rr).2 q
      { s with left := n.left, right := q' }))
  show cell q (Block.node { s with left := n.left, right := q' })
    + (cell p (Block.node { n with right := q' }) + _) = _
  ac_rfl

/-- The node keeps its entry; what it was the root of goes on without it. -/
theorem replacementOf_spec (l r : BinaryTree EntryT) {fuel : ℕ} (h : r.numNodes < fuel) (p : Ptr)
    (n : NodeBlock) :
    Triple (cell p (.node n) + (nodesAt l n.left + nodesAt r n.right)) (replacementOf fuel p)
      fun q => (⋃ right, cell p (Block.node { n with right := right })) + nodesAt (glue l r) q := by
  have hkept : cell p (.node n) ⊆ ⋃ right, cell p (Block.node { n with right := right }) :=
    Set.subset_iUnion (fun right => cell p (Block.node { n with right := right })) n.right
  unfold replacementOf
  refine Triple.load rfl _ rfl ?_
  refine Triple.of_eq (P := nodesAt l n.left + (cell p (.node n) + nodesAt r n.right)) (by ac_rfl)
    (of_nodesAt fun hl => ?_)
  refine Triple.of_eq (P := nodesAt r n.right + (cell p (.node n) + nodesAt l n.left)) (by ac_rfl)
    (of_nodesAt fun hr => ?_)
  cases l with
  | nil =>
    refine Triple.of_eq (P := nodesAt .nil n.left + (cell p (.node n) + nodesAt r n.right))
      (by ac_rfl) (Triple.fact.2 fun hleft => ?_)
    have hright : Triple (cell p (.node n) + nodesAt r n.right) (pure n.right) fun q =>
        (⋃ right, cell p (Block.node { n with right := right })) + nodesAt (glue .nil r) q :=
      Triple.pure (Set.add_subset_add_right hkept)
    by_cases hright' : n.right = none
    · rw [if_pos ⟨hleft, hright'⟩, ← hright']
      exact hright
    · rw [if_neg fun h => hright' h.2, if_pos hleft]
      exact hright
  | node le ll lr =>
    have hleft : n.left ≠ none := by rw [ne_eq, hl]; simp
    rw [if_neg fun h => hleft h.1, if_neg hleft]
    cases r with
    | nil =>
      rw [if_pos (hr.2 rfl)]
      refine Triple.fact.2 fun _ => Triple.pure (Set.add_subset_add_right hkept)
    | node re rl rr =>
      rw [if_neg (by rw [hr]; simp)]
      refine Triple.of_eq ?_ (takeSuccessor_spec (.node le ll lr) re rl rr h p n)
      ac_rfl

/-- The node is unhooked and freed with its entry. -/
theorem treeNodeDel_spec {f f' : Field} {b : Block} {put : BinaryTree EntryT → BinaryTree EntryT}
    (e : EntryT) (l r : BinaryTree EntryT) {fuel : ℕ} (h : r.numNodes < fuel) :
    Triple (focusAt f b put (.node e l r) f') (treeNodeDel fuel f') fun _ =>
      ⋃ q, cell f.block (f.set q b) + nodesAt (put (glue l r)) q := by
  refine Triple.of_eq (add_zero _).symm (of_focus fun b' q hget => ?_)
  refine Triple.load hget _ rfl ?_
  refine Triple.of_eq (P := nodesAt (.node e l r) q + (cell f'.block b' + restAt f b put f' b'))
    (by rw [add_zero]; ac_rfl) (of_node fun n => ?_)
  refine (replacementOf_spec l r h q n).seq (entryAt (some e) n.entry + (cell f'.block b'
    + restAt f b put f' b')) (by ac_rfl) fun q' => ?_
  refine (storeField_spec f' b' q').seq ((⋃ right, cell q (Block.node { n with right := right }))
    + (nodesAt (glue l r) q' + (entryAt (some e) n.entry + restAt f b put f' b'))) (by ac_rfl)
    fun _ => ?_
  rw [Set.iUnion_add, Set.add_iUnion]
  refine Triple.iUnion.2 fun right => ?_
  refine Triple.of_eq (add_left_comm _ _ _) (Triple.load rfl _ rfl ?_)
  refine (entryDestroy_spec (some e) n.entry).seq (cell q (.node { n with right := right })
    + (restAt f b put f' b' + (cell f'.block (f'.set q' b') + nodesAt (glue l r) q')))
    (by ac_rfl) fun _ => ?_
  refine Triple.free.last _ (zero_add _) fun _ => ?_
  rw [zero_add]
  exact restAt_elim q' (glue l r)

theorem treeDel_of_none {tree : TreeT} {key : Option CString} (hroot : tree.root ≠ .nil)
    (h : pathTo EntryT.orderKey (keyOrder key) tree.root = none) :
    ReplicatedTree.treeDel tree key = (tree, 0) := by
  unfold ReplicatedTree.treeDel
  cases ht : tree.root with
  | nil => exact absurd ht hroot
  | node e l r =>
    rw [ht] at h
    simp only [treeNodePointerGet_root, h]

theorem treeDel_of_some {tree : TreeT} {key : Option CString} {path : Path} {e : EntryT}
    {l r : BinaryTree EntryT} (h : pathTo EntryT.orderKey (keyOrder key) tree.root = some path)
    (hs : subtree tree.root path = .node e l r) :
    ReplicatedTree.treeDel tree key = (⟨replace tree.root path (glue l r), tree.size - 1,
      ReplicatedTree.treeComputeHeight (replace tree.root path (glue l r))⟩, 0) := by
  unfold ReplicatedTree.treeDel
  rw [← treeNodeDel_eq hs]
  cases ht : tree.root with
  | nil => rw [ht] at h; exact absurd h (by simp [pathTo])
  | node e' l' r' =>
    rw [ht] at h
    simp only [treeNodePointerGet_root, h]

theorem deleteFound_spec (tree : TreeT) {path : Path} {e : EntryT} {l r : BinaryTree EntryT}
    (hs : subtree tree.root path = .node e l r) {fuel : ℕ} (h : tree.root.numNodes < fuel)
    (p root : Ptr) (f : Field) :
    Triple (focusAt (.root p) (.tree ⟨root, tree.size, tree.height⟩) (replace tree.root path)
      (.node e l r) f) (deleteFound fuel p f) fun n =>
      fact (n = 0) + treeAt ⟨replace tree.root path (glue l r), tree.size - 1,
        ReplicatedTree.treeComputeHeight (replace tree.root path (glue l r))⟩ p := by
  have hnum := numNodes_replace (t := tree.root) (p := path) (by rw [hs]; simp) (glue l r)
  have hle := numNodes_subtree_le tree.root path
  rw [hs, BinaryTree.numNodes] at hnum hle
  rw [numNodes_glue] at hnum
  have hright : r.numNodes < fuel := by omega
  have hrest : (replace tree.root path (glue l r)).numNodes < fuel := by omega
  refine (treeNodeDel_spec e l r hright).bind fun _ => Triple.iUnion.2 fun q => ?_
  refine Triple.load rfl _ rfl ?_
  refine (treeComputeHeight_spec _ hrest q).read _ (add_comm _ _) ?_
  refine (Triple.store _).seq _ rfl fun _ => Triple.pure ?_
  rw [fact_of rfl, zero_add]
  exact treeAt_mk ⟨replace tree.root path (glue l r), _, _⟩ p q

/-- `tree_del` leaves the caller its key. -/
theorem treeDel_spec (tree : TreeT) {fuel : ℕ} (h : tree.root.numNodes < fuel)
    (key : Option CString) (p k : Ptr) :
    Triple (treeAt tree p + stringAt key k) (treeDel fuel p k) fun r =>
      fact (r = (ReplicatedTree.treeDel tree key).2)
        + (treeAt (ReplicatedTree.treeDel tree key).1 p + stringAt key k) := by
  refine of_tree fun root => Triple.of_cell ?_
  rintro a rfl
  let block : TreeBlock := ⟨root, tree.size, tree.height⟩
  have hsame {n : ℤ} (h : ReplicatedTree.treeDel tree key = (tree, n)) :
      Triple (nodesAt tree.root root + (cell (some a) (.tree block) + stringAt key k)) (pure n)
        fun r => fact (r = (ReplicatedTree.treeDel tree key).2)
          + (treeAt (ReplicatedTree.treeDel tree key).1 (some a) + stringAt key k) := by
    rw [h]
    refine Triple.pure ?_
    rw [fact_of rfl, zero_add]
    exact subset_frame (treeAt_mk tree (some a) root) (stringAt key k) (by ac_rfl) rfl
  unfold treeDel
  rw [if_neg (by simp)]
  refine Triple.load rfl _ rfl ?_
  refine Triple.of_eq (P := nodesAt tree.root root + (cell (some a) (.tree block) + stringAt key k))
    (by ac_rfl) (of_nodesAt fun hroot => ?_)
  by_cases hnil : tree.root = .nil
  · rw [if_pos (hroot.2 hnil)]
    exact hsame (treeDel_empty hnil key)
  rw [if_neg fun h => hnil (hroot.1 h)]
  have hfound := treeNodePointerGet_spec key k tree.root h (.root (some a)) (.tree block) root rfl
  refine Triple.of_eq ?_ (hfound.bind fun found => ?_)
  · rw [Field.block]
    ac_rfl
  cases hpath : pathTo EntryT.orderKey (keyOrder key) tree.root with
  | none =>
    refine Triple.of_eq (P := fact (found = none) + (nodesAt tree.root root
      + (cell (some a) (.tree block) + stringAt key k))) ?_ (Triple.fact.2 fun hnone => ?_)
    · show _ + (_ + (cell (some a) _ + _)) = _
      ac_rfl
    · rw [hnone]
      exact hsame (treeDel_of_none hnil hpath)
  | some path =>
    obtain ⟨e, l, r, hs, -⟩ := subtree_pathTo hpath
    rw [treeDel_of_some hpath hs, foundAt, hs, Set.add_iUnion]
    refine Triple.iUnion.2 fun f' => ?_
    rw [add_left_comm]
    refine Triple.fact.2 fun hf' => ?_
    rw [hf']
    exact (deleteFound_spec tree hs h (some a) root f').last (stringAt key k) (add_comm _ _)
      fun n => (add_assoc _ _ _).le

/-! ## The array of keys -/

/-- An array of strings; one that is NULL closes it. -/
def keysAt : Option (List (Option CString)) → Ptr → Assertion Block :=
  nullable fun keys p => ⋃ ptrs : List Ptr,
    cell p (.pointers (Cells.filled ptrs 0)) + each stringAt keys ptrs

theorem storeCell_spec {cells cells' : Cells Ptr} {i : ℕ} {q : Ptr}
    (h : cells.write i q = some cells') (p : Ptr) :
    Triple (cell p (.pointers cells)) (storeCell p i q) fun _ => cell p (.pointers cells') := by
  have hview : Block.writeCell i q (.pointers cells) = some cells' := h
  exact Triple.load hview 0 (add_zero _).symm (Triple.store _)

/-- The steps of `_collect_keys` at a node: its key is copied into the next cell. -/
theorem copyKey_step {α : Type} {e : EntryT} (hkey : e.key ≠ none) {entry array : Ptr}
    {ptrs : List Ptr} {m n : ℕ} (hm : m = n + 1) {P : Assertion Block} {next : HeapM Block α}
    {Q : α → Assertion Block} (h : ∀ new, Triple (entryAt (some e) entry
      + (cell array (.pointers (Cells.filled (ptrs ++ [new]) n)) + (stringAt e.key new + P)))
      next Q) :
    Triple (entryAt (some e) entry + (cell array (.pointers (Cells.filled ptrs m)) + P))
      (do let e ← load Block.asEntry entry
          let key ← strdup e.key
          storeCell array ptrs.length key
          next) Q := by
  obtain ⟨s, hs⟩ := Option.ne_none_iff_exists'.1 hkey
  have hwrite : (Cells.filled ptrs m).write ptrs.length = fun new =>
      some (Cells.filled (ptrs ++ [new]) n) := by
    rw [hm]
    exact funext fun new => Cells.write_filled ptrs n new
  refine of_entry fun b => Triple.load rfl _ rfl ?_
  rw [hs]
  refine (strdup_spec s b.key).seq (cell entry (.entry b) + (dataAt e.value b.value
    + (cell array (.pointers (Cells.filled ptrs m)) + P))) (by ac_rfl) fun new => ?_
  refine (storeCell_spec (congrFun hwrite new) array).seq (stringAt (some s) new
    + (stringAt (some s) b.key + (cell entry (.entry b) + (dataAt e.value b.value + P))))
    (by ac_rfl) fun _ => ?_
  refine (h new).pre (subset_frame (entryAt_mk e entry b.key b.value) (stringAt e.key new
    + (cell array (.pointers (Cells.filled (ptrs ++ [new]) n)) + P)) ?_ (by ac_rfl))
  rw [hs]
  ac_rfl

/-- The keys in order, one cell after the other. -/
theorem collectKeys_spec (t : BinaryTree EntryT) {fuel : ℕ} (h : t.numNodes < fuel)
    (hkeys : ∀ e ∈ inorder t, e.key ≠ none) (p array : Ptr) (ptrs : List Ptr) {m n : ℕ}
    (hm : m = (inorder t).length + n) :
    Triple (nodesAt t p + cell array (.pointers (Cells.filled ptrs m)))
      (collectKeys fuel p array ptrs.length) fun i => ⋃ new : List Ptr,
        fact (i = (ptrs ++ new).length ∧ new.length = (inorder t).length)
          + (nodesAt t p + (cell array (.pointers (Cells.filled (ptrs ++ new) n))
          + each stringAt ((inorder t).map EntryT.key) new)) := by
  induction t generalizing p ptrs m n fuel with
  | nil =>
    obtain ⟨fuel, rfl⟩ := fuel_of_nil h
    refine of_nodesAt fun hp => ?_
    rw [hp.2 rfl, collectKeys]
    refine Triple.pure (Set.subset_iUnion_of_subset [] ?_)
    rw [fact_of (by simp), zero_add, hm]
    simp [each]
  | node e l r ihl ihr =>
    obtain ⟨fuel, rfl, hleft, hright⟩ := fuel_of_node h
    refine of_node fun node => Triple.of_cell ?_
    rintro a rfl
    rw [inorder_node] at hkeys hm ⊢
    have hl : ∀ e ∈ inorder l, e.key ≠ none := fun e' he' => hkeys e' (by simp [he'])
    have hr : ∀ e ∈ inorder r, e.key ≠ none := fun e' he' => hkeys e' (by simp [he'])
    -- the cells that are free before and after the key of the node
    obtain ⟨afterKey, hafter⟩ : ∃ m, m = (inorder r).length + n := ⟨_, rfl⟩
    obtain ⟨beforeKey, hbefore⟩ : ∃ m, m = afterKey + 1 := ⟨_, rfl⟩
    have hlength : m = (inorder l).length + beforeKey := by
      rw [hm, List.length_append, List.length_cons]
      omega
    rw [collectKeys]
    refine Triple.load rfl _ rfl ?_
    refine (ihl hleft hl node.left ptrs hlength).seq (cell (some a) (.node node)
      + (entryAt (some e) node.entry + nodesAt r node.right)) (by ac_rfl) fun i => ?_
    rw [Set.iUnion_add]
    refine Triple.iUnion.2 fun lefts => ?_
    rw [add_assoc]
    refine Triple.fact.2 ?_
    rintro ⟨rfl, hlefts⟩
    refine Triple.of_eq ?_ (copyKey_step (P := cell (some a) (.node node) + (nodesAt l node.left
      + (nodesAt r node.right + each stringAt ((inorder l).map EntryT.key) lefts)))
      (hkeys e (by simp)) hbefore fun new => ?_)
    · ac_rfl
    have hrest := ihr hright hr node.right (ptrs ++ lefts ++ [new]) hafter
    rw [List.length_append, List.length_singleton] at hrest
    refine hrest.last (entryAt (some e) node.entry + (stringAt e.key new
      + (cell (some a) (.node node) + (nodesAt l node.left
      + each stringAt ((inorder l).map EntryT.key) lefts)))) (by ac_rfl) fun i => ?_
    rw [Set.iUnion_add]
    refine Set.iUnion_subset fun rights => Set.subset_iUnion_of_subset (lefts ++ new :: rights) ?_
    rw [List.map_append, List.map_cons, each_append _ (by rw [List.length_map, hlefts]),
      each, List.append_assoc, List.append_assoc, List.singleton_append]
    have hcount : (lefts ++ new :: rights).length = (inorder l ++ e :: inorder r).length
        ↔ rights.length = (inorder r).length := by
      rw [List.length_append, List.length_append, List.length_cons, List.length_cons, hlefts]
      omega
    rw [hcount]
    exact subset_frame (nodesAt_mk e l r (some a) node) (fact (i = (ptrs ++ (lefts
      ++ new :: rights)).length ∧ rights.length = (inorder r).length) + (cell array (.pointers
      (Cells.filled (ptrs ++ (lefts ++ new :: rights)) n)) + (stringAt e.key new
      + (each stringAt ((inorder l).map EntryT.key) lefts
      + each stringAt ((inorder r).map EntryT.key) rights)))) (by ac_rfl) (by ac_rfl)

/-- The answer of `tree_get_keys`: NULL, or an array that ends in NULL. -/
theorem treeGetKeys_spec {tree : TreeT} (h : tree.Shape)
    (hkeys : ∀ e ∈ inorder tree.root, e.key ≠ none) {fuel : ℕ} (hfuel : tree.root.numNodes < fuel)
    (p : Ptr) : Triple (treeAt tree p) (treeGetKeys fuel p) fun keys =>
      keysAt (ReplicatedTree.treeGetKeys tree) keys + treeAt tree p := by
  refine Triple.of_eq (add_zero _).symm (of_tree fun root => Triple.of_cell ?_)
  rintro a rfl
  unfold treeGetKeys
  rw [if_neg (by simp)]
  obtain ⟨cells, hcells⟩ : ∃ n, n = (inorder tree.root).length + 1 := ⟨_, rfl⟩
  have hsize : (tree.size + 1).toNat = cells := by
    rw [h.size_eq, ← length_inorder, hcells]
    omega
  refine Triple.load rfl _ rfl ?_
  refine (Triple.malloc (Block.pointers (Cells.alloc (tree.size + 1).toNat))).seq
    (cell (some a) (.tree ⟨root, tree.size, tree.height⟩) + nodesAt tree.root root)
    (by rw [zero_add, add_zero]) fun array => ?_
  rw [hsize, Cells.alloc_eq]
  refine (collectKeys_spec tree.root hfuel hkeys root array [] hcells).seq
    (cell (some a) (.tree ⟨root, tree.size, tree.height⟩)) (by ac_rfl) fun i => ?_
  rw [Set.iUnion_add]
  refine Triple.iUnion.2 fun ptrs => ?_
  rw [add_assoc, List.nil_append]
  refine Triple.fact.2 ?_
  rintro ⟨rfl, hptrs⟩
  have hclose : (Cells.filled ptrs 1).write ptrs.length none
      = some (Cells.filled (ptrs ++ [none]) 0) := Cells.write_filled ptrs 0 none
  refine (storeCell_spec hclose array).seq
    (nodesAt tree.root root + (each stringAt ((inorder tree.root).map EntryT.key) ptrs
    + cell (some a) (.tree ⟨root, tree.size, tree.height⟩))) (by ac_rfl) fun _ => Triple.pure ?_
  refine subset_trans ?_ (Set.add_subset_add_left (treeAt_mk tree (some a) root))
  rw [treeGetKeys_of_shape h hkeys]
  have hclosed : cell array (Block.pointers (Cells.filled (ptrs ++ [none]) 0))
      + each stringAt ((inorder tree.root).map EntryT.key) ptrs
      ⊆ keysAt (some ((inorder tree.root).map EntryT.key ++ [none])) array := by
    refine Set.subset_iUnion_of_subset (ptrs ++ [none]) ?_
    rw [each_append _ (by rw [List.length_map, hptrs])]
    simp [each, stringAt_none]
  exact subset_frame hclosed (cell (some a) (.tree ⟨root, tree.size, tree.height⟩)
    + nodesAt tree.root root) (by ac_rfl) rfl

/-! ## Freeing the answers -/

theorem readCell_filled (read ptrs : List Ptr) (q : Ptr) :
    Block.readCell read.length (.pointers (Cells.filled (read ++ q :: ptrs) 0)) = some q := by
  simp [Block.readCell, Cells.filled]

/-- The strings from a cell on are freed, up to the NULL that closes the array. -/
theorem freeKeysLoop_spec (keys : List CString) {fuel : ℕ} (h : keys.length < fuel) (array : Ptr)
    (read ptrs : List Ptr) :
    Triple (each stringAt (keys.map some ++ [none]) ptrs
      + cell array (.pointers (Cells.filled (read ++ ptrs) 0)))
      (freeKeysLoop array fuel read.length) fun _ =>
        cell array (.pointers (Cells.filled (read ++ ptrs) 0)) := by
  induction keys generalizing read ptrs fuel with
  | nil =>
    obtain ⟨fuel, rfl⟩ := Nat.exists_eq_add_one.2 h
    refine Triple.of_each_cons fun q ps hptrs => ?_
    subst hptrs
    rw [freeKeysLoop]
    refine Triple.load (readCell_filled read ps q) (stringAt none q + each stringAt [] ps)
      (by ac_rfl) ?_
    refine Triple.fact.2 fun hq => ?_
    rw [if_pos hq]
    refine Triple.pure ?_
    cases ps with
    | nil => rw [each, zero_add]
    | cons => simp [each]
  | cons key keys ih =>
    obtain ⟨fuel, rfl⟩ := Nat.exists_eq_add_one.2 (Nat.zero_lt_of_lt h)
    rw [List.map_cons, List.cons_append]
    refine Triple.of_each_cons fun q ps hptrs => Triple.of_cell ?_
    rintro a rfl
    subst hptrs
    rw [freeKeysLoop]
    refine Triple.load (readCell_filled read ps (some a)) (stringAt (some key) (some a)
      + each stringAt (keys.map some ++ [none]) ps) (by rw [stringAt_some]; ac_rfl) ?_
    rw [if_neg (by simp)]
    refine (free_stringAt (some key) (some a)).seq _ rfl fun _ => ?_
    have hnext := ih (Nat.lt_of_succ_lt_succ h) (read ++ [some a]) ps
    rw [List.append_assoc, List.length_append, List.singleton_append] at hnext
    exact Triple.of_eq (zero_add _) hnext

theorem treeFreeKeys_spec (keys : Option (List (Option CString))) {fuel : ℕ}
    (hkeys : ∀ ks ∈ keys, ∃ strings : List CString,
      ks = strings.map some ++ [none] ∧ strings.length < fuel) (p : Ptr) :
    Triple (keysAt keys p) (treeFreeKeys fuel p) fun _ => 0 := by
  cases keys with
  | none =>
    refine Triple.of_fact fun hp => ?_
    rw [hp]
    exact Triple.pure Set.Subset.rfl
  | some ks =>
    obtain ⟨strings, rfl, hfuel⟩ := hkeys ks rfl
    refine Triple.iUnion.2 fun ptrs => Triple.of_cell ?_
    rintro a rfl
    unfold treeFreeKeys
    refine (freeKeysLoop_spec strings hfuel (some a) [] ptrs).seq 0 ?_ fun _ => ?_
    · rw [add_zero, add_comm]
      rfl
    · exact Triple.free.last 0 rfl fun _ => (add_zero _).le

theorem treeSize_spec (tree : TreeT) (p : Ptr) :
    Triple (treeAt tree p) (treeSize p) fun n =>
      fact (n = ReplicatedTree.treeSize tree) + treeAt tree p := by
  refine Triple.of_eq (add_zero _).symm (of_tree fun root => Triple.of_cell ?_)
  rintro a rfl
  unfold treeSize
  rw [if_neg (by simp)]
  have hsize : tree.size = ReplicatedTree.treeSize tree := rfl
  refine Triple.load rfl _ rfl (Triple.pure ?_)
  dsimp only
  rw [fact_of hsize, zero_add, add_zero]
  exact treeAt_mk tree (some a) root

theorem treeHeight_spec (tree : TreeT) (p : Ptr) :
    Triple (treeAt tree p) (treeHeight p) fun n =>
      fact (n = ReplicatedTree.treeHeight tree) + treeAt tree p := by
  refine Triple.of_eq (add_zero _).symm (of_tree fun root => Triple.of_cell ?_)
  rintro a rfl
  unfold treeHeight
  rw [if_neg (by simp)]
  have hheight : tree.height = ReplicatedTree.treeHeight tree := rfl
  refine Triple.load rfl _ rfl (Triple.pure ?_)
  dsimp only
  rw [fact_of hheight, zero_add, add_zero]
  exact treeAt_mk tree (some a) root

end InMemory
end ReplicatedTree
