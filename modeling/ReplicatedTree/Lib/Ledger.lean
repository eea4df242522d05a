import Mathlib.Data.List.Count
import Mathlib.Tactic.Common

/-!
# Resources and how often they are released

A ledger counts the resources that were handed out, the k-th of which has the name `name k`, and
lists the names that were released, in any order and as often as it happens. The question is
whether each resource is released exactly once by the end.

It is answered backwards, by the releases that are still due: `Due` says of every resource that
those made and those due are one together. A release moves one from due to made (`due_release`),
and a new resource must be due exactly once (`due_issue`). So what is due before a program is
computed from what is due after it, instruction by instruction.
-/

namespace ReplicatedTree

variable {α : Type*}

structure Ledger (α : Type*) where
  /-- how many were handed out -/
  issued : ℕ
  /-- what was released, oldest first -/
  released : List α
deriving DecidableEq

namespace Ledger

def empty : Ledger α := ⟨0, []⟩

def issue (l : Ledger α) : Ledger α := { l with issued := l.issued + 1 }

def release (l : Ledger α) (x : α) : Ledger α := { l with released := l.released ++ [x] }

@[simp] theorem issued_issue (l : Ledger α) : l.issue.issued = l.issued + 1 := rfl

@[simp] theorem released_issue (l : Ledger α) : l.issue.released = l.released := rfl

@[simp] theorem issued_release (l : Ledger α) (x : α) : (l.release x).issued = l.issued := rfl

@[simp] theorem released_release (l : Ledger α) (x : α) :
    (l.release x).released = l.released ++ [x] := rfl

section Names

variable (name : ℕ → α) {l : Ledger α} {x : α}

/-- Not the name of a resource to come. -/
def Past (l : Ledger α) (x : α) : Prop := ∀ k, l.issued ≤ k → name k ≠ x

/-- Nothing was released in advance. -/
def Wf (l : Ledger α) : Prop := ∀ x ∈ l.released, l.Past name x

variable {name}

theorem Past.issue (h : l.Past name x) : l.issue.Past name x := by
  intro k hk
  apply h k
  rw [issued_issue] at hk
  omega

theorem past_of_lt (hinj : Function.Injective name) {k : ℕ} (h : k < l.issued) :
    l.Past name (name k) := by
  intro k' hk' heq
  have := hinj heq
  omega

theorem wf_empty : (empty : Ledger α).Wf name := by
  intro x hx
  exact absurd hx (by simp [empty])

theorem Wf.issue (h : l.Wf name) : l.issue.Wf name := fun x hx => (h x hx).issue

theorem Wf.release (h : l.Wf name) (hx : l.Past name x) : (l.release x).Wf name := by
  intro y hy
  rw [released_release, List.mem_append, List.mem_singleton] at hy
  rcases hy with hy | rfl
  · exact h y hy
  · exact hx

end Names

/-! ## Releases made and due -/

variable [DecidableEq α] (name : ℕ → α) {l : Ledger α} {due due' : α → ℕ}

/-- Every resource was released exactly once. -/
def AllOnce (l : Ledger α) : Prop := ∀ k < l.issued, l.released.count (name k) = 1

instance instDecidableAllOnce (l : Ledger α) : Decidable (l.AllOnce name) :=
  inferInstanceAs (Decidable (∀ k < l.issued, _))

/-- With the releases that are due, every resource is released exactly once. -/
def Due (l : Ledger α) (due : α → ℕ) : Prop :=
  ∀ k < l.issued, l.released.count (name k) + due (name k) = 1

variable {name}

theorem due_zero : (l.Due name fun _ => 0) ↔ l.AllOnce name := Iff.rfl

theorem due_congr (h : ∀ k < l.issued, due (name k) = due' (name k)) :
    l.Due name due ↔ l.Due name due' := by
  unfold Due
  refine forall_congr' fun k => forall_congr' fun hk => ?_
  rw [h k hk]

theorem due_release (y : α) : (l.release y).Due name due ↔
    l.Due name fun x => due x + if x = y then 1 else 0 := by
  unfold Due
  simp only [issued_release, released_release]
  refine forall_congr' fun k => forall_congr' fun _ => ?_
  rw [List.count_append, List.count_singleton]
  by_cases hy : name k = y
  · rw [if_pos hy, if_pos (beq_iff_eq.2 hy.symm)]
    omega
  · rw [if_neg hy, if_neg fun h => hy (beq_iff_eq.1 h).symm]
    omega

theorem due_issue (h : l.Wf name) :
    l.issue.Due name due ↔ l.Due name due ∧ due (name l.issued) = 1 := by
  have hnew : l.released.count (name l.issued) = 0 := by
    rw [List.count_eq_zero]
    exact fun hmem => h _ hmem l.issued (Nat.le_refl _) rfl
  constructor
  · intro hdue
    refine ⟨fun k hk => hdue k (Nat.lt_succ_of_lt hk), ?_⟩
    have hlast := hdue l.issued (Nat.lt_succ_self _)
    rw [released_issue, hnew] at hlast
    omega
  · rintro ⟨hold, hlast⟩ k hk
    rw [issued_issue] at hk
    rw [released_issue]
    by_cases hk' : k < l.issued
    · exact hold k hk'
    · obtain rfl : k = l.issued := by omega
      omega

end Ledger
end ReplicatedTree
