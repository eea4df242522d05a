import Mathlib.Data.List.Basic
import Mathlib.Tactic.Common

/-!
# Freshly allocated arrays

`Cells α` is an allocated array whose cells are not initialised until they are written.
A write outside the array, or a read of a cell nobody wrote, has no result (`none`).

Code that fills an array front to back only ever sees states of the form `filled xs n`:
the cells of `xs` written, `n` cells still to go.
-/

namespace ReplicatedTree

/-- An array of cells, `none` while a cell is not initialised. -/
abbrev Cells (α : Type*) := List (Option α)

namespace Cells

variable {α : Type*}

/-- A new array of `n` cells. -/
def alloc (n : ℕ) : Cells α := List.replicate n none

/-- Write one cell. -/
def write (c : Cells α) (i : ℕ) (a : α) : Option (Cells α) :=
  if i < c.length then some (c.set i (some a)) else none

/-- Write a block of consecutive cells (`memcpy`). -/
def writeBlock (c : Cells α) (i : ℕ) (as : List α) : Option (Cells α) :=
  if i + as.length ≤ c.length then
    some (c.take i ++ as.map some ++ c.drop (i + as.length))
  else none

/-- The contents, once every cell is written. -/
def contents (c : Cells α) : Option (List α) := c.mapM id

/-- The first cells hold `xs`, the next `n` are not written. -/
def filled (xs : List α) (n : ℕ) : Cells α := xs.map some ++ List.replicate n none

theorem alloc_eq (n : ℕ) : (alloc n : Cells α) = filled [] n := rfl

@[simp] theorem length_filled (xs : List α) (n : ℕ) :
    (filled xs n).length = xs.length + n := by
  simp [filled]

theorem write_filled (xs : List α) (n : ℕ) (a : α) :
    write (filled xs (n + 1)) xs.length a = some (filled (xs ++ [a]) n) := by
  unfold write
  rw [if_pos (by rw [length_filled]; omega)]
  simp [filled, List.replicate_succ]

@[simp] theorem contents_filled (xs : List α) : contents (filled xs 0) = some xs := by
  rw [contents, filled, List.replicate_zero, List.append_nil]
  induction xs with
  | nil => rfl
  | cons x xs ih => simp only [List.map_cons, List.mapM_cons, ih]; rfl

/-! ## Runs of writes

A function that fills an array is also the list of the writes it makes, index and value, in
their order. The list says what the final contents cannot: whether a cell was written twice. -/

/-- A run of writes, one after the other. -/
def writes (c : Cells α) : List (ℕ × α) → Option (Cells α)
  | [] => some c
  | (i, a) :: ws => (c.write i a).bind fun c => c.writes ws

/-- The writes that put `xs` into the cells from `i` on, front to back. -/
def writesFrom : ℕ → List α → List (ℕ × α)
  | _, [] => []
  | i, x :: xs => (i, x) :: writesFrom (i + 1) xs

/-- Each of the first `n` cells is written exactly once, and no other cell is written. -/
def OnceEach (n : ℕ) (ws : List (ℕ × α)) : Prop :=
  ∀ i, (ws.map Prod.fst).count i = if i < n then 1 else 0

theorem writes_append (c : Cells α) (ws ws' : List (ℕ × α)) :
    c.writes (ws ++ ws') = (c.writes ws).bind fun c => c.writes ws' := by
  induction ws generalizing c with
  | nil => rfl
  | cons w ws ih =>
    obtain ⟨i, a⟩ := w
    show (c.write i a).bind _ = ((c.write i a).bind _).bind _
    rw [Option.bind_assoc]
    exact congrArg _ (funext ih)

theorem writesFrom_append (i : ℕ) (xs ys : List α) :
    writesFrom i (xs ++ ys) = writesFrom i xs ++ writesFrom (i + xs.length) ys := by
  induction xs generalizing i with
  | nil => rfl
  | cons x xs ih =>
    have hlen : i + (x :: xs).length = i + 1 + xs.length := by
      rw [List.length_cons]
      omega
    rw [List.cons_append, writesFrom, writesFrom, ih, hlen, List.cons_append]

theorem fst_writesFrom (i : ℕ) (xs : List α) :
    (writesFrom i xs).map Prod.fst = List.range' i xs.length := by
  induction xs generalizing i with
  | nil => rfl
  | cons x xs ih => rw [writesFrom, List.map_cons, ih, List.length_cons, List.range'_succ]

theorem snd_writesFrom (i : ℕ) (xs : List α) : (writesFrom i xs).map Prod.snd = xs := by
  induction xs generalizing i with
  | nil => rfl
  | cons x xs ih => rw [writesFrom, List.map_cons, ih]

theorem onceEach_writesFrom (xs : List α) : OnceEach xs.length (writesFrom 0 xs) := by
  intro i
  rw [fst_writesFrom, ← List.range_eq_range', List.count_range]

theorem writeBlock_cons {c : Cells α} {i : ℕ} (hi : i < c.length) (a : α) (as : List α) :
    c.writeBlock i (a :: as) = (writeBlock (c.set i (some a)) (i + 1) as) := by
  have hlen : i + (a :: as).length = i + 1 + as.length := by
    rw [List.length_cons]
    omega
  have hcell : i < (c.set i (some a)).length := by
    rw [List.length_set]
    exact hi
  have htake : (c.set i (some a)).take (i + 1) = c.take i ++ [some a] := by
    rw [List.take_succ_eq_append_getElem hcell, List.take_set_of_le (Nat.le_refl i),
      List.getElem_set_self]
  have hdrop : (c.set i (some a)).drop (i + 1 + as.length) = c.drop (i + 1 + as.length) := by
    rw [List.drop_set_of_lt (by omega)]
  unfold writeBlock
  rw [hlen, List.length_set, htake, hdrop, List.map_cons, List.append_assoc, List.append_assoc,
    List.append_assoc, List.singleton_append, List.cons_append]

/-- A block is written cell by cell, unless it is empty and starts outside the array. -/
theorem writeBlock_eq_writes {c : Cells α} {i : ℕ} {as : List α} (h : as ≠ [] ∨ i ≤ c.length) :
    c.writeBlock i as = c.writes (writesFrom i as) := by
  induction as generalizing c i with
  | nil =>
    have hi : i ≤ c.length := h.resolve_left fun hne => hne rfl
    unfold writeBlock
    rw [List.length_nil, Nat.add_zero, if_pos hi]
    simp [writes, writesFrom]
  | cons a as ih =>
    by_cases hi : i < c.length
    · have hwrite : c.write i a = some (c.set i (some a)) := if_pos hi
      rw [writeBlock_cons hi, writesFrom, writes, hwrite, Option.bind_some]
      apply ih
      rw [List.length_set]
      exact Or.inr hi
    · have hwrite : c.write i a = none := if_neg hi
      unfold writeBlock
      rw [if_neg (by rw [List.length_cons]; omega), writesFrom, writes, hwrite, Option.bind_none]

theorem writes_filled (xs ys : List α) (n : ℕ) :
    (filled xs (ys.length + n)).writes (writesFrom xs.length ys)
      = some (filled (xs ++ ys) n) := by
  induction ys generalizing xs with
  | nil => simp [writesFrom, writes]
  | cons y ys ih =>
    have hcells : (y :: ys).length + n = ys.length + n + 1 := by
      rw [List.length_cons]
      omega
    have hrest := ih (xs ++ [y])
    rw [List.length_append, List.length_singleton, List.append_assoc,
      List.singleton_append] at hrest
    rw [hcells, writesFrom, writes, write_filled, Option.bind_some, hrest]

end Cells
end ReplicatedTree
