import Mathlib.Data.Tree.Basic
import Mathlib.Data.List.Pairwise
import Mathlib.Order.Lattice
import Mathlib.Tactic.Common

/-!
# Unbalanced search trees over Mathlib's `BinaryTree`

Elements of a type `α` are ordered by a key `key : α → κ` in a linear order. The file is
about the two operations an unbalanced tree needs, and about the listing a tree can be
rebuilt from:

* `insertNode` overwrites the element with an equal key, or hangs a new leaf;
* `erase` removes a key; a node with two children is replaced by the lowest element of its
  right subtree (`glue`);
* `preorder` lists a tree so that inserting the listing again rebuilds the same shape.

Order facts are all read off the in-order listing: a tree is `Ordered` exactly when its
listing is strictly increasing (`ordered_iff_pairwise`), and `erase` filters the listing.
-/

namespace ReplicatedTree
namespace SearchTree

variable {α κ : Type*}

/-! ## Listings -/

/-- The elements from left to right. -/
def inorder : BinaryTree α → List α
  | .nil => []
  | .node a l r => inorder l ++ a :: inorder r

/-- The elements, every node before its subtrees. -/
def preorder : BinaryTree α → List α
  | .nil => []
  | .node a l r => a :: (preorder l ++ preorder r)

@[simp] theorem inorder_nil : inorder (.nil : BinaryTree α) = [] := rfl

@[simp] theorem inorder_node (a : α) (l r : BinaryTree α) :
    inorder (.node a l r) = inorder l ++ a :: inorder r := rfl

@[simp] theorem preorder_nil : preorder (.nil : BinaryTree α) = [] := rfl

@[simp] theorem preorder_node (a : α) (l r : BinaryTree α) :
    preorder (.node a l r) = a :: (preorder l ++ preorder r) := rfl

theorem length_inorder (t : BinaryTree α) : (inorder t).length = t.numNodes := by
  induction t with
  | nil => rfl
  | node a l r ihl ihr =>
    simp only [inorder_node, List.length_append, List.length_cons, ihl, ihr,
      BinaryTree.numNodes]
    omega

theorem preorder_perm_inorder (t : BinaryTree α) : (preorder t).Perm (inorder t) := by
  induction t with
  | nil => exact List.Perm.refl _
  | node a l r ihl ihr =>
    rw [preorder_node, inorder_node]
    exact ((ihl.append ihr).cons a).trans List.perm_middle.symm

theorem mem_preorder {a : α} {t : BinaryTree α} : a ∈ preorder t ↔ a ∈ inorder t :=
  (preorder_perm_inorder t).mem_iff

theorem length_preorder (t : BinaryTree α) : (preorder t).length = t.numNodes := by
  rw [(preorder_perm_inorder t).length_eq, length_inorder]

theorem inorder_map {β : Type*} (f : α → β) (t : BinaryTree α) :
    inorder (t.map f) = (inorder t).map f := by
  induction t with
  | nil => rfl
  | node a l r ihl ihr => simp only [BinaryTree.map, inorder_node, ihl, ihr, List.map_append,
      List.map_cons]

theorem preorder_map {β : Type*} (f : α → β) (t : BinaryTree α) :
    preorder (t.map f) = (preorder t).map f := by
  induction t with
  | nil => rfl
  | node a l r ihl ihr => simp only [BinaryTree.map, preorder_node, ihl, ihr, List.map_append,
      List.map_cons]

theorem height_map {β : Type*} (f : α → β) (t : BinaryTree α) :
    (t.map f).height = t.height := by
  induction t with
  | nil => rfl
  | node a l r ihl ihr => simp only [BinaryTree.map, BinaryTree.height, ihl, ihr]

theorem numNodes_map {β : Type*} (f : α → β) (t : BinaryTree α) :
    (t.map f).numNodes = t.numNodes := by
  rw [← length_inorder, inorder_map, List.length_map, length_inorder]

variable [LinearOrder κ] (key : α → κ)

/-! ## The search-tree order -/

/-- At every node the keys on the left are smaller and the keys on the right greater. -/
def Ordered : BinaryTree α → Prop
  | .nil => True
  | .node a l r =>
    (∀ b ∈ inorder l, key b < key a) ∧ (∀ b ∈ inorder r, key a < key b) ∧
      Ordered l ∧ Ordered r

/-- A tree is ordered exactly when its in-order listing is strictly increasing. -/
theorem ordered_iff_pairwise (t : BinaryTree α) :
    Ordered key t ↔ (inorder t).Pairwise (fun a b => key a < key b) := by
  induction t with
  | nil => simp [Ordered]
  | node a l r ihl ihr =>
    simp only [Ordered, ihl, ihr, inorder_node, List.pairwise_append, List.pairwise_cons,
      List.mem_cons, forall_eq_or_imp]
    constructor
    · rintro ⟨hl, hr, hpl, hpr⟩
      exact ⟨hpl, ⟨hr, hpr⟩, fun b hb => ⟨hl b hb, fun c hc => (hl b hb).trans (hr c hc)⟩⟩
    · rintro ⟨hpl, ⟨hr, hpr⟩, hlr⟩
      exact ⟨fun b hb => (hlr b hb).1, hr, hpl, hpr⟩

variable {key}

theorem Ordered.map {t : BinaryTree α} (h : Ordered key t) {f : α → α}
    (hf : ∀ a ∈ inorder t, key (f a) = key a) : Ordered key (t.map f) := by
  rw [ordered_iff_pairwise, inorder_map, List.pairwise_map]
  refine List.Pairwise.imp_of_mem ?_ ((ordered_iff_pairwise key t).1 h)
  intro a b ha hb hab
  rwa [hf a ha, hf b hb]

/-! ## Lookup and insertion -/

variable (key)

/-- The element with key `k`, following one path. -/
def lookup (k : κ) : BinaryTree α → Option α
  | .nil => none
  | .node a l r => if k = key a then some a else if k < key a then lookup k l else lookup k r

/-- Overwrite the element with the key of `x`, or hang `x` as a new leaf. -/
def insertNode (x : α) : BinaryTree α → BinaryTree α
  | .nil => .node x .nil .nil
  | .node a l r =>
    if key x = key a then .node x l r
    else if key x < key a then .node a (insertNode x l) r
    else .node a l (insertNode x r)

/-- The depth at which `insertNode` hangs its new leaf, `none` when it overwrites. -/
def insertDepth (x : α) : BinaryTree α → Option ℕ
  | .nil => some 0
  | .node a l r =>
    if key x = key a then none
    else if key x < key a then (insertDepth x l).map (· + 1)
    else (insertDepth x r).map (· + 1)

variable {key}

theorem lookup_insert (x : α) (k : κ) (t : BinaryTree α) :
    lookup key k (insertNode key x t) = if k = key x then some x else lookup key k t := by
  induction t with
  | nil => simp [insertNode, lookup]
  | node a l r ihl ihr =>
    rw [insertNode]
    by_cases hk : k = key x
    · rw [if_pos hk] at ihl ihr ⊢
      split_ifs with hxa hlt
      · simp [lookup, hk]
      · simp [lookup, hk ▸ hxa, hk ▸ hlt, ihl]
      · simp [lookup, hk ▸ hxa, hk ▸ hlt, ihr]
    · rw [if_neg hk] at ihl ihr ⊢
      split_ifs with hxa hlt
      · simp [lookup, ← hxa, hk]
      · simp only [lookup, ihl]
      · simp only [lookup, ihr]

/-- In an ordered tree, insertion replaces exactly the element with the same key. -/
theorem mem_inorder_insert {x : α} {t : BinaryTree α} (h : Ordered key t) (b : α) :
    b ∈ inorder (insertNode key x t) ↔ b = x ∨ (b ∈ inorder t ∧ key b ≠ key x) := by
  induction t with
  | nil => simp [insertNode]
  | node a l r ihl ihr =>
    obtain ⟨hl, hr, hol, hor⟩ := h
    rw [insertNode]
    split_ifs with hxa hlt
    · -- the subtrees keep their elements, whose keys differ from the root's
      have hl' : b ∈ inorder l → key b ≠ key x := fun hb => hxa ▸ (hl b hb).ne
      have hr' : b ∈ inorder r → key b ≠ key x := fun hb => hxa ▸ (hr b hb).ne'
      have ha : b = a → key b = key x := fun hb => by rw [hb, hxa]
      grind [inorder_node]
    · have hr' : b ∈ inorder r → key b ≠ key x := fun hb => (hlt.trans (hr b hb)).ne'
      have ha : b = a → key b ≠ key x := fun hb => by rw [hb]; exact hlt.ne'
      have ih := ihl hol
      grind [inorder_node]
    · have hgt : key a < key x := lt_of_le_of_ne (not_lt.1 hlt) (Ne.symm hxa)
      have hl' : b ∈ inorder l → key b ≠ key x := fun hb => ((hl b hb).trans hgt).ne
      have ha : b = a → key b ≠ key x := fun hb => by rw [hb]; exact hgt.ne
      have ih := ihr hor
      grind [inorder_node]

theorem ordered_insert {x : α} {t : BinaryTree α} (h : Ordered key t) :
    Ordered key (insertNode key x t) := by
  induction t with
  | nil => simp [insertNode, Ordered]
  | node a l r ihl ihr =>
    obtain ⟨hl, hr, hol, hor⟩ := h
    rw [insertNode]
    split_ifs with hxa hlt
    · exact ⟨fun b hb => hxa ▸ hl b hb, fun b hb => hxa ▸ hr b hb, hol, hor⟩
    · refine ⟨fun b hb => ?_, hr, ihl hol, hor⟩
      rcases (mem_inorder_insert hol b).1 hb with rfl | ⟨hb, -⟩
      · exact hlt
      · exact hl b hb
    · refine ⟨hl, fun b hb => ?_, hol, ihr hor⟩
      rcases (mem_inorder_insert hor b).1 hb with rfl | ⟨hb, -⟩
      · exact lt_of_le_of_ne (not_lt.1 hlt) (Ne.symm hxa)
      · exact hr b hb

theorem numNodes_insert (x : α) (t : BinaryTree α) :
    (insertNode key x t).numNodes
      = t.numNodes + if (insertDepth key x t).isSome then 1 else 0 := by
  induction t with
  | nil => simp [insertNode, insertDepth]
  | node a l r ihl ihr =>
    rw [insertNode, insertDepth]
    split_ifs with hxa hlt <;> simp_all <;> omega

theorem height_insert (x : α) (t : BinaryTree α) :
    (insertNode key x t).height
      = ((insertDepth key x t).elim t.height fun d => max (d + 1) t.height) := by
  induction t with
  | nil => simp [insertNode, insertDepth]
  | node a l r ihl ihr =>
    rw [insertNode, insertDepth]
    split_ifs with hxa hlt
    · rfl
    · cases hd : insertDepth key x l <;> simp [hd] at ihl ⊢ <;> omega
    · cases hd : insertDepth key x r <;> simp [hd] at ihr ⊢ <;> omega

/-! ## Deletion -/

/-- Take the lowest element off a tree with root `a` and subtrees `l`, `r`. -/
def popMin (a : α) : BinaryTree α → BinaryTree α → α × BinaryTree α
  | .nil, r => (a, r)
  | .node b ll lr, r => ((popMin b ll lr).1, .node a (popMin b ll lr).2 r)

/-- Join the two subtrees of a removed node. -/
def glue : BinaryTree α → BinaryTree α → BinaryTree α
  | .nil, r => r
  | .node a l r, .nil => .node a l r
  | .node a l r, .node b rl rr =>
    .node (popMin b rl rr).1 (.node a l r) (popMin b rl rr).2

theorem inorder_popMin (a : α) (l r : BinaryTree α) :
    (popMin a l r).1 :: inorder (popMin a l r).2 = inorder (.node a l r) := by
  induction l generalizing a r with
  | nil => rfl
  | node b ll lr ihl _ =>
    rw [popMin, inorder_node, ← List.cons_append, ihl, inorder_node _ (.node b ll lr)]

theorem inorder_glue (l r : BinaryTree α) : inorder (glue l r) = inorder l ++ inorder r := by
  cases l with
  | nil => rfl
  | node a ll lr =>
    cases r with
    | nil => simp [glue]
    | node b rl rr => rw [glue, inorder_node, inorder_popMin]

theorem numNodes_glue (l r : BinaryTree α) : (glue l r).numNodes = l.numNodes + r.numNodes := by
  rw [← length_inorder, inorder_glue, List.length_append, length_inorder, length_inorder]

variable (key) in
/-- Remove the element with key `k`. -/
def erase (k : κ) : BinaryTree α → BinaryTree α
  | .nil => .nil
  | .node a l r =>
    if k = key a then glue l r
    else if k < key a then .node a (erase k l) r
    else .node a l (erase k r)

/-- Deletion filters the listing of an ordered tree. -/
theorem inorder_erase {k : κ} {t : BinaryTree α} (h : Ordered key t) :
    inorder (erase key k t) = (inorder t).filter (fun a => key a ≠ k) := by
  induction t with
  | nil => rfl
  | node a l r ihl ihr =>
    obtain ⟨hl, hr, hol, hor⟩ := h
    have keep : ∀ s : BinaryTree α, (∀ b ∈ inorder s, key b ≠ k) →
        (inorder s).filter (fun a => key a ≠ k) = inorder s := fun s hs =>
      List.filter_eq_self.2 fun b hb => by simpa using hs b hb
    rw [erase, inorder_node, List.filter_append]
    split_ifs with hka hlt
    · rw [List.filter_cons_of_neg (by simp [hka]), inorder_glue,
        keep l fun b hb => hka ▸ (hl b hb).ne, keep r fun b hb => hka ▸ (hr b hb).ne']
    · rw [List.filter_cons_of_pos (by simp [hlt.ne']), inorder_node, ihl hol,
        keep r fun b hb => (hlt.trans (hr b hb)).ne']
    · have hgt : key a < k := lt_of_le_of_ne (not_lt.1 hlt) (Ne.symm hka)
      rw [List.filter_cons_of_pos (by simp [hgt.ne]), inorder_node, ihr hor,
        keep l fun b hb => ((hl b hb).trans hgt).ne]

theorem ordered_erase {k : κ} {t : BinaryTree α} (h : Ordered key t) :
    Ordered key (erase key k t) := by
  rw [ordered_iff_pairwise, inorder_erase h]
  exact ((ordered_iff_pairwise key t).1 h).filter _

/-- In an ordered tree one path finds the element, wherever it is. -/
theorem lookup_eq_some_iff {k : κ} {a : α} {t : BinaryTree α} (h : Ordered key t) :
    lookup key k t = some a ↔ a ∈ inorder t ∧ key a = k := by
  induction t with
  | nil => simp [lookup]
  | node b l r ihl ihr =>
    obtain ⟨hl, hr, hol, hor⟩ := h
    simp only [lookup, inorder_node, List.mem_append, List.mem_cons]
    have hl' : a ∈ inorder l → key a < key b := hl a
    have hr' : a ∈ inorder r → key b < key a := hr a
    split_ifs with hkb hlt
    · subst hkb
      constructor
      · rintro ⟨⟩
        exact ⟨Or.inr (Or.inl rfl), rfl⟩
      · rintro ⟨ha | rfl | ha, hk⟩
        · exact absurd hk (hl' ha).ne
        · rfl
        · exact absurd hk (hr' ha).ne'
    · rw [ihl hol]
      constructor
      · rintro ⟨ha, hk⟩
        exact ⟨Or.inl ha, hk⟩
      · rintro ⟨ha | rfl | ha, hk⟩
        · exact ⟨ha, hk⟩
        · exact absurd hk.symm hkb
        · exact absurd (hk ▸ hlt) (hr' ha).not_gt
    · rw [ihr hor]
      constructor
      · rintro ⟨ha, hk⟩
        exact ⟨Or.inr (Or.inr ha), hk⟩
      · rintro ⟨ha | rfl | ha, hk⟩
        · exact absurd (hk ▸ hl' ha) hlt
        · exact absurd hk.symm hkb
        · exact ⟨ha, hk⟩

theorem lookup_erase {k k' : κ} {t : BinaryTree α} (h : Ordered key t) :
    lookup key k' (erase key k t) = if k' = k then none else lookup key k' t := by
  refine Option.ext fun a => ?_
  rw [lookup_eq_some_iff (ordered_erase h), inorder_erase h]
  split_ifs with hk
  · simp [hk]
  · rw [lookup_eq_some_iff h]
    simp only [List.mem_filter, decide_eq_true_eq]
    constructor
    · rintro ⟨⟨ha, -⟩, hka⟩
      exact ⟨ha, hka⟩
    · rintro ⟨ha, rfl⟩
      exact ⟨⟨ha, hk⟩, rfl⟩

/-- Removing a key that occurs removes one node. -/
theorem numNodes_erase {k : κ} {a : α} {t : BinaryTree α} (h : Ordered key t)
    (ha : lookup key k t = some a) : (erase key k t).numNodes + 1 = t.numNodes := by
  induction t with
  | nil => simp [lookup] at ha
  | node b l r ihl ihr =>
    obtain ⟨-, -, hol, hor⟩ := h
    rw [lookup] at ha
    rw [erase]
    split_ifs at ha ⊢ with hkb hlt
    · have hlen := congrArg List.length (inorder_glue l r)
      simp only [length_inorder, List.length_append] at hlen
      simp [hlen]
    · have := ihl hol ha
      simp only [BinaryTree.numNodes]
      omega
    · have := ihr hor ha
      simp only [BinaryTree.numNodes]
      omega

/-! ## Rebuilding a tree from its pre-order listing -/

theorem foldl_insert_left {a : α} {xs : List α} (hxs : ∀ x ∈ xs, key x < key a)
    (l r : BinaryTree α) :
    xs.foldl (fun t x => insertNode key x t) (.node a l r)
      = .node a (xs.foldl (fun t x => insertNode key x t) l) r := by
  induction xs generalizing l with
  | nil => rfl
  | cons x xs ih =>
    have hx : key x < key a := hxs x List.mem_cons_self
    rw [List.foldl_cons, List.foldl_cons, insertNode, if_neg hx.ne, if_pos hx,
      ih fun y hy => hxs y (List.mem_cons_of_mem _ hy)]

theorem foldl_insert_right {a : α} {xs : List α} (hxs : ∀ x ∈ xs, key a < key x)
    (l r : BinaryTree α) :
    xs.foldl (fun t x => insertNode key x t) (.node a l r)
      = .node a l (xs.foldl (fun t x => insertNode key x t) r) := by
  induction xs generalizing r with
  | nil => rfl
  | cons x xs ih =>
    have hx : key a < key x := hxs x List.mem_cons_self
    rw [List.foldl_cons, List.foldl_cons, insertNode, if_neg hx.ne', if_neg hx.not_gt,
      ih fun y hy => hxs y (List.mem_cons_of_mem _ hy)]

/-- **Rebuilding.** Inserting the pre-order listing of an ordered tree into the empty tree
gives back the tree, shape included. -/
theorem foldl_insert_preorder {t : BinaryTree α} (h : Ordered key t) :
    (preorder t).foldl (fun t x => insertNode key x t) .nil = t := by
  induction t with
  | nil => rfl
  | node a l r ihl ihr =>
    obtain ⟨hl, hr, hol, hor⟩ := h
    rw [preorder_node, List.foldl_cons, insertNode, List.foldl_append,
      foldl_insert_left fun x hx => hl x (mem_preorder.1 hx), ihl hol,
      foldl_insert_right fun x hx => hr x (mem_preorder.1 hx), ihr hor]

end SearchTree
end ReplicatedTree
