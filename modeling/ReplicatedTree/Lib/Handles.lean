import Mathlib.Data.List.Nodup
import ReplicatedTree.Lib.Transition

/-!
# Histories of handles

A program that opens, uses and closes handles (file descriptors, connections, pointers) has a
history of such events. `Event.apply` replays a history on the handles that are held: opening
one that is held, or using or closing one that is not, has no successor. So a history that
can be replayed closes each handle once at most, and uses none that is closed.
-/

namespace ReplicatedTree
namespace Handles

open Transition

inductive Event (α : Type*) where
  | acquire (a : α)
  | use (a : α)
  | release (a : α)
deriving DecidableEq

variable {α : Type*} [DecidableEq α]

/-- The handles that are held after an event; none if the event is not allowed. -/
def Event.apply (held : List α) : Event α → Option (List α)
  | .acquire a => if a ∈ held then none else some (held ++ [a])
  | .use a => if a ∈ held then some held else none
  | .release a => if a ∈ held then some (held.filter fun b => b ≠ a) else none

/-- A history. -/
abbrev replay (held : List α) (events : List (Event α)) : Option (List α) :=
  run Event.apply held events

theorem apply_acquire {held : List α} {a : α} (h : a ∉ held) :
    Event.apply held (.acquire a) = some (held ++ [a]) := if_neg h

theorem apply_use {held : List α} {a : α} (h : a ∈ held) :
    Event.apply held (.use a) = some held := if_pos h

theorem apply_release {held : List α} {a : α} (h : a ∈ held) :
    Event.apply held (.release a) = some (held.filter fun b => b ≠ a) := if_pos h

/-- Two histories, one after the other. -/
theorem replay_append {held held₁ held₂ : List α} {es es' : List (Event α)}
    (h : replay held es = some held₁) (h' : replay held₁ es' = some held₂) :
    replay held (es ++ es') = some held₂ := by
  unfold replay at h h' ⊢
  rw [run_append, h]
  exact h'

/-- Each of several handles is used, and some are then closed. -/
def visit (closes : α → Bool) (as : List α) : List (Event α) :=
  as.flatMap fun a => .use a :: if closes a then [.release a] else []

theorem replay_visit (closes : α → Bool) {held as : List α} (hnd : as.Nodup)
    (hsub : ∀ a ∈ as, a ∈ held) :
    replay held (visit closes as) = some (held.filter fun a => a ∉ as.filter closes) := by
  induction as generalizing held with
  | nil => simp [visit]
  | cons a as ih =>
    obtain ⟨hnew, hnd⟩ := List.nodup_cons.1 hnd
    have ha : a ∈ held := hsub a List.mem_cons_self
    have hrest : ∀ b ∈ as, b ∈ held := fun b hb => hsub b (List.mem_cons_of_mem a hb)
    have hcons : visit closes (a :: as)
        = (.use a :: if closes a then [.release a] else []) ++ visit closes as := List.flatMap_cons
    rw [hcons]
    by_cases hc : closes a
    · -- the handles that come later are still held
      have hkept : ∀ b ∈ as, b ∈ held.filter fun b => b ≠ a := by
        intro b hb
        refine List.mem_filter.2 ⟨hrest b hb, decide_eq_true ?_⟩
        rintro rfl
        exact hnew hb
      have hone : replay held (.use a :: if closes a then [.release a] else [])
          = some (held.filter fun b => b ≠ a) := by
        rw [if_pos hc, replay, run_cons, apply_use ha, Option.bind_some, run_cons,
          apply_release ha]
        rfl
      refine replay_append hone ?_
      rw [ih hnd hkept, List.filter_filter, List.filter_cons_of_pos hc]
      congr 1
      apply List.filter_congr
      intro b _
      simp only [List.mem_cons, not_or, Bool.decide_and, ne_eq, Bool.and_comm]
    · have hone : replay held (.use a :: if closes a then [.release a] else []) = some held := by
        rw [if_neg hc, replay, run_cons, apply_use ha]
        rfl
      refine replay_append hone ?_
      rw [ih hnd hrest, List.filter_cons_of_neg hc]

/-- Closing handles that are held, each once. -/
theorem replay_release {held as : List α} (hnd : as.Nodup) (hsub : ∀ a ∈ as, a ∈ held) :
    replay held (as.map .release) = some (held.filter fun a => a ∉ as) := by
  induction as generalizing held with
  | nil => simp
  | cons a as ih =>
    obtain ⟨hnew, hnd⟩ := List.nodup_cons.1 hnd
    have hkept : ∀ b ∈ as, b ∈ held.filter fun b => b ≠ a := by
      intro b hb
      refine List.mem_filter.2 ⟨hsub b (List.mem_cons_of_mem a hb), decide_eq_true ?_⟩
      rintro rfl
      exact hnew hb
    rw [List.map_cons, replay, run_cons, apply_release (hsub a List.mem_cons_self),
      Option.bind_some]
    refine (ih hnd hkept).trans ?_
    rw [List.filter_filter]
    congr 1
    apply List.filter_congr
    intro b _
    simp only [List.mem_cons, not_or, Bool.decide_and, ne_eq, Bool.and_comm]

theorem mem_of_apply {held held' : List α} {e : Event α} (h : e.apply held = some held') {a : α}
    (ha : a ∈ held') : a ∈ held ∨ e = .acquire a := by
  cases e with
  | acquire b =>
    obtain ⟨-, ⟨⟩⟩ := Option.ite_none_left_eq_some.1 h
    rcases List.mem_append.1 ha with ha | ha
    · exact Or.inl ha
    · exact Or.inr (List.mem_singleton.1 ha ▸ rfl)
  | use b =>
    obtain ⟨-, ⟨⟩⟩ := Option.ite_none_right_eq_some.1 h
    exact Or.inl ha
  | release b =>
    obtain ⟨-, ⟨⟩⟩ := Option.ite_none_right_eq_some.1 h
    exact Or.inl (List.mem_of_mem_filter ha)

/-- What is held at the end was held at the start, or was opened. -/
theorem mem_of_replay {held held' : List α} {es : List (Event α)}
    (h : replay held es = some held') {a : α} (ha : a ∈ held') : a ∈ held ∨ .acquire a ∈ es := by
  induction es generalizing held with
  | nil =>
    rw [replay, run_nil, Option.some.injEq] at h
    exact Or.inl (h ▸ ha)
  | cons e es ih =>
    obtain ⟨held₁, h1, h2⟩ := Option.bind_eq_some_iff.1 h
    rcases ih h2 with hmem | hmem
    · rcases mem_of_apply h1 hmem with hmem | rfl
      · exact Or.inl hmem
      · exact Or.inr List.mem_cons_self
    · exact Or.inr (List.mem_cons_of_mem e hmem)

end Handles
end ReplicatedTree
