import Mathlib.Data.List.Basic
import Mathlib.Tactic.Common

/-!
# Arrays as functions, read segment by segment

For loops that rewrite an array in place it is easiest to have the array as a function from
indices, with `Function.update` for a write, and to speak of what it holds through the lists
`segment s a n`: the `n` entries from index `a` on.
-/

namespace ReplicatedTree
namespace Slots

variable {α β : Type*}

/-- The `n` entries from index `a` on. -/
def segment (s : ℕ → α) (a n : ℕ) : List α := (List.range' a n).map s

@[simp] theorem segment_zero (s : ℕ → α) (a : ℕ) : segment s a 0 = [] := rfl

theorem segment_succ (s : ℕ → α) (a n : ℕ) :
    segment s a (n + 1) = s a :: segment s (a + 1) n := by
  unfold segment
  rw [List.range'_succ, List.map_cons]

theorem segment_concat (s : ℕ → α) (a n : ℕ) :
    segment s a (n + 1) = segment s a n ++ [s (a + n)] := by
  unfold segment
  rw [List.range'_concat, List.map_append, List.map_singleton, Nat.one_mul]

theorem segment_append (s : ℕ → α) (a m n : ℕ) :
    segment s a (m + n) = segment s a m ++ segment s (a + m) n := by
  induction n with
  | zero => simp
  | succ n ih => rw [← Nat.add_assoc, segment_concat, ih, segment_concat, List.append_assoc,
      Nat.add_assoc]

@[simp] theorem length_segment (s : ℕ → α) (a n : ℕ) : (segment s a n).length = n := by
  simp [segment]

theorem segment_congr {s s' : ℕ → α} {a n : ℕ} (h : ∀ k, a ≤ k → k < a + n → s k = s' k) :
    segment s a n = segment s' a n := by
  apply List.map_congr_left
  intro k hk
  rw [List.mem_range'_1] at hk
  exact h k hk.1 hk.2

/-- Every entry moved down by one index. -/
theorem segment_shift {s s' : ℕ → α} {a n : ℕ} (h : ∀ k, a ≤ k → k < a + n → s' k = s (k + 1)) :
    segment s' a n = segment s (a + 1) n := by
  induction n generalizing a with
  | zero => rfl
  | succ n ih =>
    rw [segment_succ, segment_succ, h a (Nat.le_refl a) (by omega)]
    rw [ih fun k hk hk' => h k (by omega) (by omega)]

theorem segment_map (f : α → β) (s : ℕ → α) (a n : ℕ) :
    segment (fun k => f (s k)) a n = (segment s a n).map f := by
  unfold segment
  rw [List.map_map]
  rfl

theorem mem_segment {s : ℕ → α} {a n : ℕ} {x : α} :
    x ∈ segment s a n ↔ ∃ k, a ≤ k ∧ k < a + n ∧ s k = x := by
  simp only [segment, List.mem_map, List.mem_range'_1, and_assoc]

theorem getElem?_segment (s : ℕ → α) (a : ℕ) {n i : ℕ} (h : i < n) :
    (segment s a n)[i]? = some (s (a + i)) := by
  simp [segment, h]

theorem segment_eq_iff {s : ℕ → α} {a : ℕ} {l : List α} :
    segment s a l.length = l ↔ ∀ i (h : i < l.length), s (a + i) = l.get ⟨i, h⟩ := by
  constructor
  · intro hl i hi
    have hi' := getElem?_segment s a hi
    rw [hl, List.getElem?_eq_getElem hi, Option.some.injEq] at hi'
    exact hi'.symm
  · intro h
    apply List.ext_getElem?
    intro i
    by_cases hi : i < l.length
    · rw [getElem?_segment s a hi, List.getElem?_eq_getElem hi, h i hi]
      rfl
    · rw [List.getElem?_eq_none (by rw [length_segment]; omega),
        List.getElem?_eq_none (by omega)]

theorem pairwise_segment {R : α → α → Prop} {s : ℕ → α} {a n : ℕ} :
    (segment s a n).Pairwise R ↔ ∀ i j, a ≤ i → i < j → j < a + n → R (s i) (s j) := by
  unfold segment
  rw [List.pairwise_map, List.pairwise_iff_getElem]
  simp only [List.getElem_range', List.length_range', Nat.one_mul]
  constructor
  · intro h i j hi hij hj
    have hR := h (i - a) (j - a) (by omega) (by omega) (by omega)
    rwa [Nat.add_sub_cancel' hi, Nat.add_sub_cancel' (by omega)] at hR
  · intro h i j hi hj hij
    exact h (a + i) (a + j) (by omega) (by omega) (by omega)

/-- A write outside of a segment. -/
theorem segment_update {s : ℕ → α} {a n i : ℕ} (h : i < a ∨ a + n ≤ i) (x : α) :
    segment (Function.update s i x) a n = segment s a n := by
  apply segment_congr
  intro k hk hk'
  exact Function.update_of_ne (by omega) _ _

end Slots
end ReplicatedTree
