import Mathlib.Algebra.Order.Ring.Int
import Mathlib.Order.Defs.Unbundled
import Mathlib.Order.WithBot
import Mathlib.Tactic.Common

/-!
# Comparison functions with a sign

A comparison function answers a negative number, zero or a positive number. `ComparesBy` says
that this sign is the order of some keys in a linear order, and `ThreeWay` that no other answers
than -1, 0 and 1 are given. What is usually asked of such functions follows from the order: they
are transitive, and an exchange of the arguments changes the sign (`ThreeWay.swap`).

The usual ways of making one comparison function from another keep the two: taking the sign,
comparing a field, a NULL that is below everything, a shortcut for arguments that are the same.
-/

namespace ReplicatedTree
namespace Comparator

variable {α β γ : Type*} [LinearOrder β]

/-- The sign of an answer is the order of the keys. -/
structure ComparesBy (cmp : α → α → ℤ) (key : α → β) : Prop where
  neg_iff : ∀ a b, cmp a b < 0 ↔ key a < key b
  zero_iff : ∀ a b, cmp a b = 0 ↔ key a = key b

/-- Moreover the answer is -1, 0 or 1. -/
structure ThreeWay (cmp : α → α → ℤ) (key : α → β) : Prop extends ComparesBy cmp key where
  unit : ∀ a b, (cmp a b).sign = cmp a b

/-! ## What the order says -/

namespace ComparesBy

variable {cmp : α → α → ℤ} {key : α → β}

theorem pos_iff (h : ComparesBy cmp key) (a b : α) : 0 < cmp a b ↔ key b < key a := by
  have hneg := h.neg_iff a b
  have hzero := h.zero_iff a b
  rw [← not_le, ← not_le, le_iff_lt_or_eq, le_iff_lt_or_eq, hneg, hzero]

theorem nonpos_iff (h : ComparesBy cmp key) (a b : α) : cmp a b ≤ 0 ↔ key a ≤ key b := by
  rw [← not_lt, ← not_lt, h.pos_iff]

theorem trans (h : ComparesBy cmp key) {a b c : α} (hab : cmp a b ≤ 0) (hbc : cmp b c ≤ 0) :
    cmp a c ≤ 0 := by
  rw [h.nonpos_iff] at hab hbc ⊢
  exact hab.trans hbc

theorem total (h : ComparesBy cmp key) (a b : α) : cmp a b ≤ 0 ∨ cmp b a ≤ 0 := by
  rw [h.nonpos_iff, h.nonpos_iff]
  exact le_total _ _

theorem irrefl (h : ComparesBy cmp key) (a : α) : ¬cmp a a < 0 := by
  rw [h.neg_iff]
  exact lt_irrefl _

theorem trans_neg (h : ComparesBy cmp key) {a b c : α} (hab : cmp a b < 0) (hbc : cmp b c < 0) :
    cmp a c < 0 := by
  rw [h.neg_iff] at hab hbc ⊢
  exact hab.trans hbc

theorem trichotomy (h : ComparesBy cmp key) (a b : α) :
    cmp a b < 0 ∨ cmp a b = 0 ∨ cmp b a < 0 := by
  rw [h.neg_iff, h.zero_iff, h.neg_iff]
  exact lt_trichotomy _ _

/-- With a key of its own for every argument the order is strict and total. -/
theorem strictTotalOrder (h : ComparesBy cmp key) (hinj : Function.Injective key) :
    IsStrictTotalOrder α fun a b => cmp a b < 0 where
  irrefl := h.irrefl
  trans := fun _ _ _ => h.trans_neg
  trichotomous := by
    intro a b hab hba
    have hzero := ((h.trichotomy a b).resolve_left hab).resolve_right hba
    exact hinj ((h.zero_iff a b).1 hzero)

end ComparesBy

/-- The other way round, the other answer. -/
theorem ThreeWay.swap {cmp : α → α → ℤ} {key : α → β} (h : ThreeWay cmp key) (a b : α) :
    cmp b a = -cmp a b := by
  rw [← h.unit a b, ← h.unit b a]
  rcases lt_trichotomy (key a) (key b) with hlt | heq | hgt
  · rw [Int.sign_eq_neg_one_of_neg ((h.neg_iff a b).2 hlt),
      Int.sign_eq_one_of_pos ((h.pos_iff b a).2 hlt), neg_neg]
  · rw [(h.zero_iff a b).2 heq, (h.zero_iff b a).2 heq.symm, Int.sign_zero, neg_zero]
  · rw [Int.sign_eq_one_of_pos ((h.pos_iff a b).2 hgt),
      Int.sign_eq_neg_one_of_neg ((h.neg_iff b a).2 hgt)]

/-! ## New comparison functions from old -/

theorem ComparesBy.sign {cmp : α → α → ℤ} {key : α → β} (h : ComparesBy cmp key) :
    ThreeWay (fun a b => (cmp a b).sign) key where
  neg_iff := fun a b => Int.sign_neg_iff.trans (h.neg_iff a b)
  zero_iff := fun a b => Int.sign_eq_zero_iff_zero.trans (h.zero_iff a b)
  unit := fun _ _ => Int.sign_sign

/-- The comparison of a field. -/
theorem ThreeWay.comap {cmp : α → α → ℤ} {key : α → β} (h : ThreeWay cmp key) (f : γ → α) :
    ThreeWay (fun a b => cmp (f a) (f b)) fun a => key (f a) where
  neg_iff := fun a b => h.neg_iff (f a) (f b)
  zero_iff := fun a b => h.zero_iff (f a) (f b)
  unit := fun a b => h.unit (f a) (f b)

/-- NULL is below everything else. -/
def liftNull (cmp : α → α → ℤ) : Option α → Option α → ℤ
  | none, none => 0
  | none, some _ => -1
  | some _, none => 1
  | some a, some b => cmp a b

/-- The key of something that may be NULL. -/
def nullKey (key : α → β) (a : Option α) : WithBot β := a.map key

theorem ThreeWay.liftNull {cmp : α → α → ℤ} {key : α → β} (h : ThreeWay cmp key) :
    ThreeWay (liftNull cmp) (nullKey key) where
  neg_iff := by
    intro a b
    cases a with
    | none =>
      cases b with
      | none => exact iff_of_false (lt_irrefl 0) (lt_irrefl ⊥)
      | some b => exact iff_of_true (by decide : (-1 : ℤ) < 0) (WithBot.bot_lt_coe (key b))
    | some a =>
      cases b with
      | none => exact iff_of_false (by decide : ¬(1 : ℤ) < 0) not_lt_bot
      | some b => exact (h.neg_iff a b).trans WithBot.coe_lt_coe.symm
  zero_iff := by
    intro a b
    cases a with
    | none =>
      cases b with
      | none => exact iff_of_true rfl rfl
      | some b => exact iff_of_false (by decide : (-1 : ℤ) ≠ 0) (WithBot.bot_ne_coe)
    | some a =>
      cases b with
      | none => exact iff_of_false (by decide : (1 : ℤ) ≠ 0) (WithBot.coe_ne_bot)
      | some b => exact (h.zero_iff a b).trans WithBot.coe_inj.symm
  unit := by
    intro a b
    cases a with
    | none => cases b <;> rfl
    | some a =>
      cases b with
      | none => rfl
      | some b => exact h.unit a b

/-- Arguments that are the same are not looked into. -/
def shortcut [DecidableEq α] (cmp : α → α → ℤ) (a b : α) : ℤ := if a = b then 0 else cmp a b

/-- The shortcut changes no answer. -/
theorem ComparesBy.shortcut_eq [DecidableEq α] {cmp : α → α → ℤ} {key : α → β}
    (h : ComparesBy cmp key) (a b : α) : shortcut cmp a b = cmp a b := by
  unfold shortcut
  split_ifs with hab
  · exact ((h.zero_iff a b).2 (congrArg key hab)).symm
  · rfl

end Comparator
end ReplicatedTree
