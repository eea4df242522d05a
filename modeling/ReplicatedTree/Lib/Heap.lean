import Mathlib.Algebra.Group.Pointwise.Set.Lattice
import Mathlib.Algebra.Order.Group.Multiset
import Mathlib.Data.Multiset.UnionInter
import Mathlib.Tactic.Common

/-!
# Programs that own memory

A memory holds blocks under names, and a pointer is such a name or NULL. `malloc` gives out a new
name each time. A program `HeapM β α` allocates, reads, overwrites and frees blocks; it has no
result if it touches a block that is not allocated.

An `Assertion` says which blocks there are: it is a set of multisets of named blocks. Two
assertions about different blocks are joined by the pointwise sum of sets, with `0` for no block
at all, so that the laws of separating conjunction are those of a commutative monoid.

`Triple P c Q` says that `c` has a result where a part of the memory meets `P`, that this part then
meets `Q`, and that the other blocks are what they were. So a program that takes no block to no
block (`Triple.run_empty`) has freed each block it allocated, and none of them twice.
-/

namespace ReplicatedTree

open scoped Pointwise

/-- The blocks that are allocated, and the next new name. -/
structure Heap (β : Type) where
  blocks : ℕ → Option β
  next : ℕ
  fresh : ∀ a, next ≤ a → blocks a = none

/-- A pointer to a block; `none` is NULL. -/
abbrev Ptr := Option ℕ

abbrev HeapM (β : Type) := StateT (Heap β) Option

namespace Heap

variable {α β γ ι : Type}

def empty : Heap β := ⟨fun _ => none, 0, fun _ _ => rfl⟩

theorem fresh_update {m : Heap β} {a n : ℕ} (b : Option β) (ha : a < n) (hn : m.next ≤ n) :
    ∀ x, n ≤ x → Function.update m.blocks a b x = none := by
  intro x hx
  rw [Function.update_of_ne (by omega)]
  exact m.fresh x (by omega)

theorem lt_next {m : Heap β} {a : ℕ} (h : (m.blocks a).isSome) : a < m.next := by
  by_contra hlt
  rw [m.fresh a (by omega)] at h
  exact absurd h (by simp)

/-! ## Programs -/

def malloc (b : β) : HeapM β Ptr := fun m =>
  some (some m.next, ⟨Function.update m.blocks m.next (some b), m.next + 1,
    fresh_update _ (Nat.lt_succ_self _) (Nat.le_succ _)⟩)

/-- Read a block as one of the kind that `view` takes. -/
def load (view : β → Option γ) (p : Ptr) : HeapM β γ := fun m =>
  p.bind fun a => (m.blocks a).bind fun b => (view b).map fun c => (c, m)

/-- The memory with other contents of a block that is allocated. -/
def write (m : Heap β) (a : ℕ) (b : Option β) : Option (Heap β) :=
  if h : (m.blocks a).isSome then
    some ⟨Function.update m.blocks a b, m.next, fresh_update b (lt_next h) (Nat.le_refl _)⟩
  else none

def store (p : Ptr) (b : β) : HeapM β Unit := fun m =>
  p.bind fun a => (m.write a (some b)).map fun m => ((), m)

/-- Freeing NULL does nothing. -/
def free : Ptr → HeapM β Unit
  | none => pure ()
  | some a => fun m => (m.write a none).map fun m => ((), m)

/-! ## Assertions -/

/-- The memory consists of these blocks. -/
def Holds (m : Heap β) (s : Multiset (ℕ × β)) : Prop :=
  (s.map Prod.fst).Nodup ∧ ∀ a b, m.blocks a = some b ↔ (a, b) ∈ s

abbrev Assertion (β : Type) := Set (Multiset (ℕ × β))

/-- One block. -/
def cell : Ptr → β → Assertion β
  | none, _ => ∅
  | some a, b => {{(a, b)}}

/-- No block, and a fact. -/
def fact (p : Prop) : Assertion β := {s | p ∧ s = 0}

/-- A pointer that is NULL for no value. -/
def nullable (P : α → Ptr → Assertion β) : Option α → Ptr → Assertion β
  | none, p => fact (p = none)
  | some x, p => P x p

/-- Values behind pointers, one behind each. -/
def each (P : α → Ptr → Assertion β) : List α → List Ptr → Assertion β
  | [], [] => 0
  | x :: xs, p :: ps => P x p + each P xs ps
  | _, _ => ∅

/-- The blocks that are left of `Q` without those of `P`. -/
def wand (P Q : Assertion β) : Assertion β := {s | ∀ s' ∈ P, s + s' ∈ Q}

section Assertions

variable {P Q R : Assertion β}

@[simp] theorem fact_true : (fact True : Assertion β) = 0 := by
  ext s
  simp [fact]

@[simp] theorem fact_false : (fact False : Assertion β) = ∅ := by
  ext s
  simp [fact]

theorem fact_of {p : Prop} (h : p) : (fact p : Assertion β) = 0 := by
  rw [← fact_true, eq_true h]

/-- An inclusion about a part of the blocks. -/
theorem subset_frame {P' Q' : Assertion β} (h : P ⊆ Q) (R : Assertion β) (hP : P' = P + R)
    (hQ : Q' = Q + R) : P' ⊆ Q' := by
  rw [hP, hQ]
  exact Set.add_subset_add_right h

theorem each_append (A : α → Ptr → Assertion β) {xs xs' : List α} {ps ps' : List Ptr}
    (h : xs.length = ps.length) :
    each A (xs ++ xs') (ps ++ ps') = each A xs ps + each A xs' ps' := by
  induction xs generalizing ps with
  | nil =>
    obtain rfl := List.length_eq_zero_iff.1 h.symm
    exact (zero_add _).symm
  | cons x xs ih =>
    cases ps with
    | nil => simp at h
    | cons p ps =>
      rw [List.cons_append, List.cons_append, each, each, ih (by simpa using h), add_assoc]

theorem wand_elim : wand P Q + P ⊆ Q := by
  rintro - ⟨s, hs, s', hs', rfl⟩
  exact hs s' hs'

theorem subset_wand (h : R + P ⊆ Q) : R ⊆ wand P Q :=
  fun _ hs _ hs' => h (Set.add_mem_add hs hs')

end Assertions

/-! ## Triples -/

/-- From any memory with a part that meets `P`, the program ends with that part changed to one
that meets `Q`. -/
def Triple (P : Assertion β) (c : HeapM β α) (Q : α → Assertion β) : Prop :=
  ∀ s ∈ P, ∀ (frame : Multiset (ℕ × β)) (m : Heap β), m.Holds (s + frame) →
    ∃ r m', c m = some (r, m') ∧ ∃ s' ∈ Q r, m'.Holds (s' + frame)

namespace Triple

variable {P P' R : Assertion β} {Q Q' : α → Assertion β} {c : HeapM β α}

theorem pure {r : α} (h : P ⊆ Q r) : Triple P (Pure.pure r) Q :=
  fun s hs _ m hm => ⟨r, m, rfl, s, h hs, hm⟩

theorem pre (h : Triple P c Q) (hP : P' ⊆ P) : Triple P' c Q := fun s hs => h s (hP hs)

theorem post (h : Triple P c Q) (hQ : ∀ r, Q r ⊆ Q' r) : Triple P c Q' := by
  intro s hs frame m hm
  obtain ⟨r, m', hrun, s', hs', hm'⟩ := h s hs frame m hm
  exact ⟨r, m', hrun, s', hQ r hs', hm'⟩

theorem bind {Q' : γ → Assertion β} {k : α → HeapM β γ} (h : Triple P c Q)
    (hk : ∀ r, Triple (Q r) (k r) Q') : Triple P (c >>= k) Q' := by
  intro s hs frame m hm
  obtain ⟨r, m', hrun, s', hs', hm'⟩ := h s hs frame m hm
  obtain ⟨r', m'', hrun', hend⟩ := hk r s' hs' frame m' hm'
  refine ⟨r', m'', ?_, hend⟩
  show (c m).bind _ = _
  rw [hrun]
  exact hrun'

theorem frame (h : Triple P c Q) (R : Assertion β) : Triple (P + R) c fun r => Q r + R := by
  rintro - ⟨s, hs, t, ht, rfl⟩ frame m hm
  obtain ⟨r, m', hrun, s', hs', hm'⟩ := h s hs (t + frame) m (by rwa [← add_assoc])
  exact ⟨r, m', hrun, s' + t, Set.add_mem_add hs' ht, by rwa [add_assoc]⟩

/-- One step of a program, on a part of the blocks. -/
theorem seq {Q' : γ → Assertion β} {k : α → HeapM β γ} (h : Triple P c Q) (R : Assertion β)
    (hP : P' = P + R) (hk : ∀ r, Triple (Q r + R) (k r) Q') : Triple P' (c >>= k) Q' := by
  rw [hP]
  exact (h.frame R).bind hk

/-- The last step of a program. -/
theorem last (h : Triple P c Q) (R : Assertion β) (hP : P' = P + R)
    (hQ : ∀ r, Q r + R ⊆ Q' r) : Triple P' c Q' := by
  rw [hP]
  exact (h.frame R).post hQ

/-- The blocks in another order. -/
theorem of_eq (hP : P' = P) (h : Triple P c Q) : Triple P' c Q := hP ▸ h

theorem iUnion {P : ι → Assertion β} : Triple (⋃ i, P i) c Q ↔ ∀ i, Triple (P i) c Q := by
  constructor
  · exact fun h i => h.pre (Set.subset_iUnion P i)
  · intro h s hs
    obtain ⟨i, hi⟩ := Set.mem_iUnion.1 hs
    exact h i s hi

theorem of_empty : Triple ∅ c Q := fun _ hs => absurd hs (Set.notMem_empty _)

/-- The first of some values with its pointer. -/
theorem of_each_cons {A : ι → Ptr → Assertion β} {x : ι} {xs : List ι} {ps : List Ptr}
    (h : ∀ p ps', ps = p :: ps' → Triple (A x p + (each A xs ps' + P)) c Q) :
    Triple (each A (x :: xs) ps + P) c Q := by
  cases ps with
  | nil =>
    rw [each, Set.empty_add]
    · exact of_empty
    · simp
    · simp
  | cons p ps =>
    rw [each, add_assoc]
    exact h p ps rfl

theorem fact {p : Prop} : Triple (Heap.fact p + P) c Q ↔ (p → Triple P c Q) := by
  by_cases hp : p
  · rw [fact_of hp, zero_add]
    exact ⟨fun h _ => h, fun h => h hp⟩
  · simp [hp, of_empty]

theorem of_fact {p : Prop} (h : p → Triple 0 c Q) : Triple (Heap.fact p) c Q := by
  rw [← add_zero (Heap.fact p)]
  exact fact.2 h

/-- A pointer to a block is not NULL. -/
theorem of_cell {p : Ptr} {b : β} (h : ∀ a, p = some a → Triple (cell p b + P) c Q) :
    Triple (cell p b + P) c Q := by
  cases p with
  | none =>
    rw [cell, Set.empty_add]
    exact of_empty
  | some a => exact h a rfl

/-- A pointer to one block or NULL is NULL for no value only. -/
theorem of_nullable (f : ι → β) {x : Option ι} {p : Ptr}
    (h : (p = none ↔ x = none) → Triple (nullable (fun i p => cell p (f i)) x p + P) c Q) :
    Triple (nullable (fun i p => cell p (f i)) x p + P) c Q := by
  cases x with
  | none =>
    intro s hs
    obtain ⟨_, ⟨hp, -⟩, -⟩ := id hs
    exact h (iff_of_true hp rfl) s hs
  | some i =>
    refine of_cell ?_
    rintro a rfl
    exact h (by simp)

/-- A step that changes nothing and returns a value known beforehand. -/
theorem read {x : α} {k : α → HeapM β γ} {Q : γ → Assertion β}
    (h : Triple P c fun r => Heap.fact (r = x) + P) (R : Assertion β) (hP : P' = P + R)
    (hk : Triple P' (k x) Q) : Triple P' (c >>= k) Q := by
  refine h.seq R hP fun r => ?_
  rw [add_assoc]
  refine fact.2 fun hr => ?_
  rwa [hr, ← hP]

/-- Two blocks have two names. -/
theorem of_cells {p q : Ptr} {b b' : β} (h : p ≠ q → Triple (cell p b + (cell q b' + P)) c Q) :
    Triple (cell p b + (cell q b' + P)) c Q := by
  by_cases hpq : p = q
  · subst hpq
    refine of_cell ?_
    rintro a rfl
    rintro - ⟨-, rfl, -, ⟨-, rfl, t, -, rfl⟩, rfl⟩ frame m ⟨hnodup, -⟩
    simp at hnodup
  · exact h hpq

/-! ## The primitives -/

theorem malloc (b : β) : Triple 0 (malloc b) fun p => cell p b := by
  rintro s rfl frame m ⟨hnodup, hblocks⟩
  rw [zero_add] at hnodup hblocks
  refine ⟨_, _, rfl, {(m.next, b)}, rfl, ?_, ?_⟩
  · rw [Multiset.singleton_add, Multiset.map_cons, Multiset.nodup_cons]
    refine ⟨fun hmem => ?_, hnodup⟩
    obtain ⟨⟨a, b'⟩, hmem, rfl⟩ := Multiset.mem_map.1 hmem
    have hblock := (hblocks _ _).2 hmem
    exact absurd (lt_next (Option.isSome_iff_exists.2 ⟨_, hblock⟩)) (Nat.lt_irrefl _)
  · intro a b'
    rw [Multiset.singleton_add, Multiset.mem_cons, ← hblocks]
    show Function.update m.blocks m.next (some b) a = some b' ↔ _
    by_cases ha : a = m.next
    · subst ha
      rw [Function.update_self, m.fresh _ (Nat.le_refl _)]
      simp [eq_comm]
    · rw [Function.update_of_ne ha]
      simp [ha]

/-- What a block in the memory holds. -/
theorem blocks_of_holds {m : Heap β} {a : ℕ} {b : β} {frame : Multiset (ℕ × β)}
    (h : m.Holds ({(a, b)} + frame)) : m.blocks a = some b := by
  rw [h.2, Multiset.singleton_add]
  exact Multiset.mem_cons_self _ _

/-- A block is overwritten, or taken away. -/
theorem holds_write {m : Heap β} {a : ℕ} {b : β} {frame : Multiset (ℕ × β)}
    (h : m.Holds ({(a, b)} + frame)) (b' : Option β) : ∃ m', m.write a b' = some m' ∧
      ∀ x y, m'.blocks x = some y ↔ (x = a ∧ b' = some y) ∨ (x, y) ∈ frame := by
  have hblock := blocks_of_holds h
  obtain ⟨hnodup, hblocks⟩ := h
  rw [Multiset.singleton_add, Multiset.map_cons, Multiset.nodup_cons] at hnodup
  refine ⟨_, dif_pos (Option.isSome_iff_exists.2 ⟨b, hblock⟩), fun x y => ?_⟩
  show Function.update m.blocks a b' x = some y ↔ _
  by_cases hx : x = a
  · subst hx
    have hframe : (x, y) ∉ frame := fun hmem =>
      hnodup.1 (Multiset.mem_map.2 ⟨(x, y), hmem, rfl⟩)
    rw [Function.update_self]
    simp [hframe]
  · rw [Function.update_of_ne hx, hblocks, Multiset.singleton_add, Multiset.mem_cons]
    simp [hx]

theorem store {p : Ptr} {b : β} (b' : β) :
    Triple (cell p b) (store p b') fun _ => cell p b' := by
  cases p with
  | none => exact of_empty
  | some a =>
    rintro s rfl frame m hm
    obtain ⟨m', hwrite, hblocks⟩ := holds_write hm (some b')
    refine ⟨(), m', ?_, {(a, b')}, rfl, ?_, ?_⟩
    · simp [Heap.store, hwrite]
    · have hnodup := hm.1
      rwa [Multiset.singleton_add, Multiset.map_cons] at hnodup ⊢
    · intro x y
      rw [hblocks, Multiset.singleton_add, Multiset.mem_cons]
      simp [eq_comm]

theorem free {p : Ptr} {b : β} : Triple (cell p b) (free p) fun _ => 0 := by
  cases p with
  | none => exact of_empty
  | some a =>
    rintro s rfl frame m hm
    obtain ⟨m', hwrite, hblocks⟩ := holds_write hm none
    refine ⟨(), m', ?_, 0, rfl, ?_, ?_⟩
    · simp [Heap.free, hwrite]
    · have hnodup := hm.1
      rw [Multiset.singleton_add, Multiset.map_cons, Multiset.nodup_cons] at hnodup
      rw [zero_add]
      exact hnodup.2
    · intro x y
      rw [hblocks, zero_add]
      simp

theorem free_null : Triple 0 (Heap.free none : HeapM β Unit) fun _ => 0 :=
  Triple.pure Set.Subset.rfl

/-- Freeing a pointer to one block or NULL. -/
theorem free_nullable (f : ι → β) (x : Option ι) (p : Ptr) :
    Triple (nullable (fun i p => cell p (f i)) x p) (Heap.free p) fun _ => 0 := by
  cases x with
  | none =>
    refine of_fact fun hp => ?_
    rw [hp]
    exact free_null
  | some i => exact free

/-- A read, which changes nothing. -/
theorem load {view : β → Option γ} {p : Ptr} {b : β} {x : γ} {k : γ → HeapM β α}
    (hview : view b = some x) (R : Assertion β) (hP : P = cell p b + R)
    (hk : Triple P (k x) Q) : Triple P (load view p >>= k) Q := by
  intro s hs frame m hm
  have hload : Heap.load view p m = some (x, m) := by
    rw [hP] at hs
    cases p with
    | none =>
      obtain ⟨_, hs, -⟩ := hs
      exact absurd hs (Set.notMem_empty _)
    | some a =>
      obtain ⟨s₁, rfl, t, -, rfl⟩ := hs
      rw [add_assoc] at hm
      simp [Heap.load, blocks_of_holds hm, hview]
  obtain ⟨r, m', hrun, hend⟩ := hk s hs frame m hm
  refine ⟨r, m', ?_, hend⟩
  show (Heap.load view p m).bind _ = _
  rw [hload]
  exact hrun

/-! ## Whole programs -/

/-- A program that starts without a block, and the blocks it leaves. -/
theorem run (h : Triple 0 c Q) : ∃ r m, c empty = some (r, m) ∧ ∃ s ∈ Q r, m.Holds s := by
  have hempty : (empty : Heap β).Holds (0 + 0) := by
    refine ⟨by simp, fun a b => ?_⟩
    simp [empty]
  obtain ⟨r, m, hrun, s, hs, hholds⟩ := h 0 rfl 0 empty hempty
  exact ⟨r, m, hrun, s, hs, by rwa [add_zero] at hholds⟩

/-- A program that starts without a block, and leaves none. -/
theorem run_empty {x : α} (h : Triple 0 c fun r => Heap.fact (r = x)) :
    ∃ m, c empty = some (x, m) ∧ ∀ a, m.blocks a = none := by
  obtain ⟨r, m, hrun, s, ⟨rfl, rfl⟩, -, hblocks⟩ := h.run
  refine ⟨m, hrun, fun a => ?_⟩
  cases hb : m.blocks a with
  | none => rfl
  | some b => exact absurd ((hblocks a b).1 hb) (by simp)

end Triple
end Heap
end ReplicatedTree
