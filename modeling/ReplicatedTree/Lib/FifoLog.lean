import Mathlib.Data.List.Basic
import Mathlib.Tactic.Common

/-!
# First-in first-out logs

A log of items that are accepted one after another and settled in the same order. An item
is named by its position. `pending` and `settled` list the positions with their items and
outcomes: the pending ones oldest first, the settled ones newest first.
-/

namespace ReplicatedTree

/-- Accepted items and the outcomes of the first of them. -/
structure FifoLog (α ρ : Type*) where
  accepted : List α
  outcomes : List ρ
  outcomes_le : outcomes.length ≤ accepted.length

namespace FifoLog

variable {α ρ : Type*}

def empty : FifoLog α ρ := ⟨[], [], Nat.le_refl 0⟩

def push (log : FifoLog α ρ) (a : α) : FifoLog α ρ where
  accepted := log.accepted ++ [a]
  outcomes := log.outcomes
  outcomes_le := by
    have := log.outcomes_le
    simp only [List.length_append, List.length_singleton]
    omega

def settle (log : FifoLog α ρ) (r : ρ) (h : log.outcomes.length < log.accepted.length) :
    FifoLog α ρ where
  accepted := log.accepted
  outcomes := log.outcomes ++ [r]
  outcomes_le := by
    simp only [List.length_append, List.length_singleton]
    omega

/-- The items not settled yet, oldest first, each with its position. -/
def pending (log : FifoLog α ρ) : List (α × ℕ) := log.accepted.zipIdx.drop log.outcomes.length

/-- The outcomes so far, newest first, each with its position. -/
def settled (log : FifoLog α ρ) : List (ρ × ℕ) := log.outcomes.zipIdx.reverse

@[simp] theorem pending_empty : (empty : FifoLog α ρ).pending = [] := rfl

@[simp] theorem settled_empty : (empty : FifoLog α ρ).settled = [] := rfl

theorem length_pending (log : FifoLog α ρ) :
    log.pending.length = log.accepted.length - log.outcomes.length := by
  rw [pending, List.length_drop, List.length_zipIdx]

theorem pending_eq_nil (log : FifoLog α ρ) :
    log.pending = [] ↔ log.outcomes.length = log.accepted.length := by
  have hle := log.outcomes_le
  rw [← List.length_eq_zero_iff, length_pending]
  omega

theorem pending_push (log : FifoLog α ρ) (a : α) :
    (log.push a).pending = log.pending ++ [(a, log.accepted.length)] := by
  have hle := log.outcomes_le
  unfold pending push
  rw [List.zipIdx_append, List.drop_append_of_le_length (by rwa [List.length_zipIdx])]
  simp

@[simp] theorem settled_push (log : FifoLog α ρ) (a : α) :
    (log.push a).settled = log.settled := rfl

/-- The oldest pending item is the one at the position of the next outcome. -/
theorem pending_eq_cons (log : FifoLog α ρ) (h : log.outcomes.length < log.accepted.length)
    (r : ρ) : log.pending
      = (log.accepted.get ⟨log.outcomes.length, h⟩, log.outcomes.length)
        :: (log.settle r h).pending := by
  have hlen : log.outcomes.length < log.accepted.zipIdx.length := by rwa [List.length_zipIdx]
  unfold pending settle
  rw [List.drop_eq_getElem_cons hlen]
  simp

theorem settled_settle (log : FifoLog α ρ) (h : log.outcomes.length < log.accepted.length)
    (r : ρ) : (log.settle r h).settled = (r, log.outcomes.length) :: log.settled := by
  unfold settled settle
  rw [List.zipIdx_append, List.reverse_append]
  simp

theorem mem_settled (log : FifoLog α ρ) (r : ρ) (i : ℕ) :
    (r, i) ∈ log.settled ↔ log.outcomes[i]? = some r := by
  unfold settled
  rw [List.mem_reverse, List.mem_zipIdx_iff_getElem?]

/-- Every position occurs exactly once, either as pending or as settled. -/
theorem positions_perm (log : FifoLog α ρ) :
    (log.pending.map Prod.snd ++ log.settled.map Prod.snd).Perm
      (List.range log.accepted.length) := by
  have hle := log.outcomes_le
  have hpending : log.pending.map Prod.snd
      = (List.range log.accepted.length).drop log.outcomes.length := by
    unfold pending
    rw [List.map_drop, List.zipIdx_map_snd, List.range_eq_range']
  have hsettled : (log.settled.map Prod.snd).reverse
      = (List.range log.accepted.length).take log.outcomes.length := by
    unfold settled
    rw [List.map_reverse, List.reverse_reverse, List.zipIdx_map_snd, List.take_range,
      Nat.min_eq_left hle, List.range_eq_range']
  refine (List.Perm.append_left _ (List.reverse_perm _).symm).trans ?_
  rw [hpending, hsettled]
  refine List.perm_append_comm.trans ?_
  rw [List.take_append_drop]

end FifoLog
end ReplicatedTree
