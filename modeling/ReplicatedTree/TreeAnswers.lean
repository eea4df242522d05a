import ReplicatedTree.TreeTheorems

/-!
# What `tree_del` and `tree_get_keys` answer

Both are settled on every tree that calls with any arguments lead to: no key is NULL there,
but a value may be.

* `tree_del` answers 0 for an absent key too, unless the tree is empty (`treeDel_reports_iff`).
* `tree_get_keys` answers every key once, in order, and its array is exactly as long as what
  is written into it (`treeGetKeys_exact`).
-/

namespace ReplicatedTree

open SearchTree

/-- A node of the tree holds this key. -/
def TreeT.Binds (tree : TreeT) (key : Option CString) : Prop :=
  ∃ e ∈ inorder tree.root, e.key = key

theorem TreeT.Reachable.key_ne_null {tree : TreeT} (h : tree.Reachable) :
    ∀ e ∈ inorder tree.root, e.key ≠ none := by
  induction h with
  | create =>
    intro e he
    simp [treeCreate] at he
  | @put tree hreach key value ih =>
    cases key with
    | none => rwa [treePut_null tree (Or.inl rfl)]
    | some k =>
      cases value with
      | none => rwa [treePut_null tree (Or.inr rfl)]
      | some v =>
        intro e he
        rw [treePut_eq hreach.shape] at he
        rcases (mem_inorder_insert hreach.shape.orderKey e).1 he with hnew | hold
        · rw [hnew]
          simp [entryCreate]
        · exact ih e hold.1
  | @del tree hreach key ih =>
    intro e he
    rw [treeDel_root, inorder_erase hreach.shape.orderKey] at he
    exact ih e (List.mem_of_mem_filter he)

/-! ## Deletion -/

/-- What is asked of `tree_del`: it answers 0 for a bound key, whose entry is then the only
one gone, and -1 for any other key, with the tree as it was. -/
structure DelReports (tree : TreeT) (key : Option CString) : Prop where
  zero_iff : (treeDel tree key).2 = 0 ↔ tree.Binds key
  deleted : tree.Binds key →
    inorder (treeDel tree key).1.root = (inorder tree.root).filter fun e => e.key ≠ key
  not_found : ¬ tree.Binds key → treeDel tree key = (tree, -1)

theorem treeDel_empty {tree : TreeT} (h : tree.root = .nil) (key : Option CString) :
    treeDel tree key = (tree, -1) := by
  unfold treeDel
  rw [h]

/-- The search does not enter into the answer. -/
theorem treeDel_snd {tree : TreeT} (h : tree.root ≠ .nil) (key : Option CString) :
    (treeDel tree key).2 = 0 := by
  unfold treeDel
  cases hroot : tree.root with
  | nil => exact absurd hroot h
  | node e l r => cases treeNodePointerGet key (.node e l r) [] <;> rfl

theorem inorder_treeDel {tree : TreeT} (h : tree.Shape) (key : Option CString) :
    inorder (treeDel tree key).1.root = (inorder tree.root).filter fun e => e.key ≠ key := by
  rw [treeDel_root, inorder_erase h.orderKey]
  apply List.filter_congr
  intro e _
  exact decide_eq_decide.2 (not_congr keyOrder_injective.eq_iff)

/-- **When `tree_del` reports what it did.** On every reachable tree `tree_del` answers 0 for
a bound key, removing its entry and no other, and -1 for any other key, changing nothing, if
and only if the tree is empty or the key is bound in it. -/
theorem treeDel_reports_iff {tree : TreeT} (h : tree.Reachable) (key : Option CString) :
    DelReports tree key ↔ tree.root = .nil ∨ tree.Binds key := by
  constructor
  · intro hdel
    by_cases hroot : tree.root = .nil
    · exact Or.inl hroot
    · exact Or.inr (hdel.zero_iff.1 (treeDel_snd hroot key))
  · intro hcond
    by_cases hbound : tree.Binds key
    · have hroot : tree.root ≠ .nil := by
        intro hnil
        obtain ⟨e, he, -⟩ := hbound
        rw [hnil] at he
        simp at he
      exact ⟨iff_of_true (treeDel_snd hroot key) hbound,
        fun _ => inorder_treeDel h.shape key, absurd hbound⟩
    · have hempty := treeDel_empty (hcond.resolve_right hbound) key
      have hneg : (treeDel tree key).2 ≠ 0 := by
        rw [hempty]
        show (-1 : ℤ) ≠ 0
        omega
      exact ⟨iff_of_false hneg hbound, fun hb => absurd hb hbound, fun _ => hempty⟩

/-- The root, with two subtrees, is deleted. -/
theorem treeDel_reports_root : (treeAfter threePuts).size = 3 ∧
    (treeDel (treeAfter threePuts) (some ⟨[109], by decide⟩)).1.size = 2 ∧
    DelReports (treeAfter threePuts) (some ⟨[109], by decide⟩) := by
  have hbinds : (treeAfter threePuts).Binds (some ⟨[109], by decide⟩) := by
    unfold TreeT.Binds
    decide +kernel
  exact ⟨rfl, rfl, (treeDel_reports_iff (reachable_treeAfter threePuts) _).2 (Or.inr hbinds)⟩

/-- A tree with the one key `k`. -/
def treeWithOneKey : TreeT :=
  (treePut treeCreate (some ⟨[107], nul_notMem_k⟩) (some ⟨1, some [118], length_v⟩)).1

/-- The tree holds `k` only; deleting `j` answers 0. -/
theorem treeDel_absent_zero : ∃ (tree : TreeT) (key : Option CString), tree.Reachable ∧
    ¬ tree.Binds key ∧ treeDel tree key = (tree, 0) ∧ ¬ DelReports tree key := by
  have hnot : ¬ treeWithOneKey.Binds (some ⟨[106], by decide⟩) := by
    intro ⟨e, he, hkey⟩
    rw [List.mem_singleton.1 he] at hkey
    exact absurd hkey (by decide)
  have hdel : treeDel treeWithOneKey (some ⟨[106], by decide⟩) = (treeWithOneKey, 0) := by
    decide
  refine ⟨treeWithOneKey, some ⟨[106], by decide⟩, .put .create _ _, hnot, hdel, ?_⟩
  intro hreports
  exact hnot (hreports.zero_iff.1 (congrArg Prod.snd hdel))

/-! ## The array of keys -/

/-- The writes of `tree_get_keys` into its array: those of `_collect_keys` and the NULL that
closes it. -/
def treeGetKeysWrites (tree : TreeT) : Option (List (ℕ × Option CString)) :=
  (collectKeysWrites tree.root 0).map fun w => w.1 ++ [(w.2, none)]

/-- `tree_get_keys` allocates its array, makes these writes, and returns it. -/
theorem treeGetKeys_eq_writes (tree : TreeT) :
    treeGetKeys tree = (treeGetKeysWrites tree).bind fun ws =>
      ((Cells.alloc (tree.size + 1).toNat).writes ws).bind Cells.contents := by
  unfold treeGetKeys treeGetKeysWrites
  simp only [collectKeys_eq_writes]
  cases collectKeysWrites tree.root 0 with
  | none => rfl
  | some w =>
    simp only [Option.bind_eq_bind, Option.bind_some, Option.map_some, Cells.writes_append]
    cases (Cells.alloc (tree.size + 1).toNat).writes w.1 <;> simp [Cells.writes]

theorem treeGetKeysWrites_eq {tree : TreeT} (hkeys : ∀ e ∈ inorder tree.root, e.key ≠ none) :
    treeGetKeysWrites tree
      = some (Cells.writesFrom 0 ((inorder tree.root).map EntryT.key ++ [none])) := by
  unfold treeGetKeysWrites
  rw [collectKeysWrites_eq _ _ hkeys, Cells.writesFrom_append, List.length_map]
  rfl

/-- What is asked of `tree_get_keys`: before the closing NULL stand exactly the keys bound in
the tree, strictly increasing under `key_compare` and as many as `tree_size` says, and the
array is what the writes `ws` make of it, which hit each of its cells once and nothing
else. -/
structure GetKeysExact (tree : TreeT) (keys : List CString)
    (ws : List (ℕ × Option CString)) : Prop where
  array : treeGetKeys tree = some (keys.map some ++ [none])
  bound : ∀ k, k ∈ keys ↔ tree.Binds (some k)
  increasing : keys.Pairwise fun k k' => keyCompare (some k) (some k') < 0
  length_eq : (keys.length : ℤ) = treeSize tree
  writes : treeGetKeysWrites tree = some ws
  filled : treeGetKeys tree
    = ((Cells.alloc (tree.size + 1).toNat).writes ws).bind Cells.contents
  once : Cells.OnceEach (tree.size + 1).toNat ws

/-- **The array of keys is exact.** On every reachable tree `tree_get_keys` answers the bound
keys, each once and in increasing order, in an array whose cells are each written once. -/
theorem treeGetKeys_exact {tree : TreeT} (h : tree.Reachable) :
    ∃ keys ws, GetKeysExact tree keys ws := by
  have hkeys := h.key_ne_null
  obtain ⟨keys, hsome⟩ := exists_keys hkeys
  have hmem : ∀ k, k ∈ keys ↔ tree.Binds (some k) := by
    intro k
    rw [← List.mem_map_of_injective (Option.some_injective _), ← hsome, List.mem_map]
    exact Iff.rfl
  have hlen : keys.length = (inorder tree.root).length := by
    rw [← List.length_map some, ← hsome, List.length_map]
  have hsize : (tree.size + 1).toNat = (keys.map some ++ [none]).length := by
    rw [h.shape.size_eq, ← length_inorder, List.length_append, List.length_map, hlen,
      List.length_singleton]
    omega
  have hwrites : treeGetKeysWrites tree
      = some (Cells.writesFrom 0 (keys.map some ++ [none])) := by
    rw [treeGetKeysWrites_eq hkeys, hsome]
  refine ⟨keys, Cells.writesFrom 0 (keys.map some ++ [none]), ?_, hmem, ?_, ?_, hwrites, ?_, ?_⟩
  · rw [treeGetKeys_of_shape h.shape hkeys, hsome]
  · have hsorted := (ordered_iff_pairwise _ _).1 h.shape.orderKey
    have hpair : (keys.map some).Pairwise fun k k' => keyCompare k k' < 0 := by
      rw [← hsome, List.pairwise_map]
      exact hsorted.imp fun hlt => (keyCompare_neg_iff _ _).2 hlt
    rw [List.pairwise_map] at hpair
    exact hpair
  · rw [treeSize, h.shape.size_eq, ← length_inorder, hlen]
  · rw [treeGetKeys_eq_writes, hwrites, Option.bind_some]
  · rw [hsize]
    exact Cells.onceEach_writesFrom _

theorem treeGetKeys_exact_three : treeSize (treeAfter threePuts) = 3 ∧
    ∃ keys ws, GetKeysExact (treeAfter threePuts) keys ws :=
  ⟨rfl, treeGetKeys_exact (reachable_treeAfter threePuts)⟩

end ReplicatedTree
