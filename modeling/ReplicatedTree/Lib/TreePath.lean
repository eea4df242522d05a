import ReplicatedTree.Lib.SearchTree

/-!
# Places in a binary tree

Imperative tree code keeps a pointer to the *field* that holds a subtree, so that it can
overwrite the subtree in place. Here such a pointer is a `Path` from the root; reading it
is `subtree` and writing through it is `replace`. The laws say that places compose
(`subtree_append`, `replace_append`) and that the last write counts (`replace_replace`).

`pathTo` and `minPath` are the places the search and the deletion of `SearchTree` act on.
-/

namespace ReplicatedTree
namespace SearchTree

variable {α κ : Type*}

/-- Which child of a node. -/
inductive Side
  | left
  | right
deriving DecidableEq, Repr

/-- A place in a tree: the fields to follow from the root. -/
abbrev Path := List Side

/-- What a place holds. -/
def subtree : BinaryTree α → Path → BinaryTree α
  | t, [] => t
  | .nil, _ :: _ => .nil
  | .node _ l _, .left :: p => subtree l p
  | .node _ _ r, .right :: p => subtree r p

/-- Overwrite what a place holds. A path that leaves the tree changes nothing. -/
def replace : BinaryTree α → Path → BinaryTree α → BinaryTree α
  | _, [], s => s
  | .nil, _ :: _, _ => .nil
  | .node a l r, .left :: p, s => .node a (replace l p s) r
  | .node a l r, .right :: p, s => .node a l (replace r p s)

@[simp] theorem subtree_root (t : BinaryTree α) : subtree t [] = t := by
  cases t <;> rfl

@[simp] theorem replace_root (t s : BinaryTree α) : replace t [] s = s := by
  cases t <;> rfl

theorem subtree_append (t : BinaryTree α) (p q : Path) :
    subtree t (p ++ q) = subtree (subtree t p) q := by
  induction p generalizing t with
  | nil => simp
  | cons d p ih =>
    cases t with
    | nil => cases q <;> rfl
    | node a l r => cases d <;> exact ih _

theorem replace_append (t : BinaryTree α) (p q : Path) (s : BinaryTree α) :
    replace t (p ++ q) s = replace t p (replace (subtree t p) q s) := by
  induction p generalizing t with
  | nil => simp
  | cons d p ih =>
    cases t with
    | nil => rfl
    | node a l r => cases d <;> simp only [List.cons_append, replace, subtree, ih]

/-- The last write to a place counts. -/
theorem replace_replace (t : BinaryTree α) (p : Path) (s s' : BinaryTree α) :
    replace (replace t p s) p s' = replace t p s' := by
  induction p generalizing t with
  | nil => simp
  | cons d p ih =>
    cases t with
    | nil => rfl
    | node a l r => cases d <;> simp only [replace, ih]

/-- A place that held a node reads back what was written. -/
theorem subtree_replace {t : BinaryTree α} {p : Path} (h : subtree t p ≠ .nil)
    (s : BinaryTree α) : subtree (replace t p s) p = s := by
  induction p generalizing t with
  | nil => simp
  | cons d p ih =>
    cases t with
    | nil => exact absurd rfl h
    | node a l r => cases d <;> exact ih h

/-- Writing back what a place holds. -/
theorem replace_subtree (t : BinaryTree α) (p : Path) : replace t p (subtree t p) = t := by
  induction p generalizing t with
  | nil => simp
  | cons d p ih =>
    cases t with
    | nil => rfl
    | node a l r => cases d <;> simp only [replace, subtree, ih]

/-- A node replaced by a tree changes the number of nodes by theirs. -/
theorem numNodes_replace {t : BinaryTree α} {p : Path} (h : subtree t p ≠ .nil)
    (s : BinaryTree α) :
    (replace t p s).numNodes + (subtree t p).numNodes = t.numNodes + s.numNodes := by
  induction p generalizing t with
  | nil => simp [Nat.add_comm]
  | cons d p ih =>
    cases t with
    | nil => exact absurd rfl h
    | node a l r =>
      cases d with
      | left =>
        have hl := ih h
        simp only [replace, subtree, BinaryTree.numNodes]
        omega
      | right =>
        have hr := ih h
        simp only [replace, subtree, BinaryTree.numNodes]
        omega

theorem numNodes_subtree_le (t : BinaryTree α) (p : Path) :
    (subtree t p).numNodes ≤ t.numNodes := by
  by_cases h : subtree t p = .nil
  · rw [h]
    exact Nat.zero_le _
  · have hnum := numNodes_replace h .nil
    rw [BinaryTree.numNodes] at hnum
    omega

/-! ## The place of a key -/

section
variable [LinearOrder κ] (key : α → κ)

/-- The place of the node with key `k`, following one path. -/
def pathTo (k : κ) : BinaryTree α → Option Path
  | .nil => none
  | .node a l r =>
    if k = key a then some []
    else if k < key a then (pathTo k l).map (Side.left :: ·)
    else (pathTo k r).map (Side.right :: ·)

variable {key}

/-- The place found holds the element that `lookup` finds. -/
theorem subtree_pathTo {k : κ} {t : BinaryTree α} {p : Path} (h : pathTo key k t = some p) :
    ∃ a l r, subtree t p = .node a l r ∧ lookup key k t = some a := by
  induction t generalizing p with
  | nil => simp [pathTo] at h
  | node b l r ihl ihr =>
    rw [pathTo] at h
    rw [lookup]
    split_ifs at h ⊢ with hkb hlt
    · obtain rfl := Option.some.inj h
      exact ⟨b, l, r, rfl, rfl⟩
    · obtain ⟨q, hq, rfl⟩ := Option.map_eq_some_iff.1 h
      exact ihl hq
    · obtain ⟨q, hq, rfl⟩ := Option.map_eq_some_iff.1 h
      exact ihr hq

theorem pathTo_eq_none_iff {k : κ} {t : BinaryTree α} :
    pathTo key k t = none ↔ lookup key k t = none := by
  induction t with
  | nil => simp [pathTo, lookup]
  | node b l r ihl ihr =>
    rw [pathTo, lookup]
    split_ifs <;> simp [ihl, ihr]

/-- Joining the subtrees of the node at the place of `k` removes `k`. -/
theorem replace_pathTo {k : κ} {t : BinaryTree α} {p : Path} (h : pathTo key k t = some p)
    {a : α} {l r : BinaryTree α} (hs : subtree t p = .node a l r) :
    replace t p (glue l r) = erase key k t := by
  induction t generalizing p with
  | nil => simp [pathTo] at h
  | node b tl tr ihl ihr =>
    rw [pathTo] at h
    rw [erase]
    split_ifs at h ⊢ with hkb hlt
    · obtain rfl := Option.some.inj h
      obtain ⟨rfl, rfl, rfl⟩ := BinaryTree.node.inj hs
      rw [replace_root]
    · obtain ⟨q, hq, rfl⟩ := Option.map_eq_some_iff.1 h
      rw [replace, ihl hq hs]
    · obtain ⟨q, hq, rfl⟩ := Option.map_eq_some_iff.1 h
      rw [replace, ihr hq hs]

theorem erase_eq_self {k : κ} {t : BinaryTree α} (h : lookup key k t = none) :
    erase key k t = t := by
  induction t with
  | nil => rfl
  | node b l r ihl ihr =>
    rw [lookup] at h
    rw [erase]
    split_ifs at h ⊢
    · rw [ihl h]
    · rw [ihr h]

end

/-! ## The place of the lowest element -/

/-- The place of the leftmost node. -/
def minPath : BinaryTree α → Path
  | .nil => []
  | .node _ .nil _ => []
  | .node _ (.node b l r) _ => .left :: minPath (.node b l r)

/-- The leftmost node has no left child; taking it off is `popMin`. -/
theorem minPath_spec (a : α) (l r : BinaryTree α) :
    ∃ mr, subtree (.node a l r) (minPath (.node a l r)) = .node (popMin a l r).1 .nil mr ∧
      replace (.node a l r) (minPath (.node a l r)) mr = (popMin a l r).2 := by
  induction l generalizing a r with
  | nil => exact ⟨r, rfl, rfl⟩
  | node b ll lr ihl _ =>
    obtain ⟨mr, hs, hr⟩ := ihl b lr
    refine ⟨mr, ?_, ?_⟩
    · rw [minPath, subtree, hs, popMin]
    · rw [minPath, replace, hr, popMin]

end SearchTree
end ReplicatedTree
