import Mathlib.Data.List.Induction
import Mathlib.Tactic.Common

/-!
# Runs of a partial step function

A system is a function `step : σ → α → Option σ` that says what the action `a` does in the
state `s`, and `none` where the action is not enabled. A run is a list of actions; since the
list is arbitrary, a fact about every run is a fact about every schedule.

The induction over runs is made once, in `run_invariant` (and `runCalls_invariant` for
systems whose steps also answer); a property of all runs is then what one step preserves.
-/

namespace ReplicatedTree
namespace Transition

variable {σ τ α β : Type*}

/-! ## Runs -/

/-- The state after the actions of a run; none if one of them is not enabled. -/
def run (step : σ → α → Option σ) : σ → List α → Option σ
  | s, [] => some s
  | s, a :: as => (step s a).bind fun s' => run step s' as

variable {step : σ → α → Option σ}

@[simp] theorem run_nil (s : σ) : run step s [] = some s := rfl

@[simp] theorem run_cons (s : σ) (a : α) (as : List α) :
    run step s (a :: as) = (step s a).bind fun s' => run step s' as := rfl

theorem run_append (s : σ) (as bs : List α) :
    run step s (as ++ bs) = (run step s as).bind fun s' => run step s' bs := by
  induction as generalizing s with
  | nil => rfl
  | cons a as ih =>
    rw [List.cons_append, run_cons, run_cons, Option.bind_assoc]
    congr 1
    funext s'
    exact ih s'

/-- A run is a fold. -/
theorem run_eq_foldlM (s : σ) (as : List α) : run step s as = as.foldlM step s := by
  induction as generalizing s with
  | nil => rfl
  | cons a as ih =>
    rw [run_cons, List.foldlM_cons]
    exact congrArg _ (funext ih)

/-! ## Invariants -/

/-- What holds at the start and is kept by every step holds at the end of every run. -/
theorem run_invariant {P : σ → Prop}
    (hstep : ∀ s a s', P s → step s a = some s' → P s') {s s' : σ} {as : List α}
    (h0 : P s) (h : run step s as = some s') : P s' := by
  induction as generalizing s with
  | nil =>
    rw [run_nil, Option.some.injEq] at h
    exact h ▸ h0
  | cons a as ih =>
    obtain ⟨s₁, h1, h2⟩ := Option.bind_eq_some_iff.1 h
    exact ih (hstep s a s₁ h0 h1) h2

/-- Every step of the run meets the condition, at the state in which it is made. -/
def StepsMeet (step : σ → α → Option σ) (C : σ → α → Prop) : σ → List α → Prop
  | _, [] => True
  | s, a :: as => C s a ∧ ∀ s' ∈ step s a, StepsMeet step C s' as

/-- A run in two parts. -/
theorem StepsMeet.append {C : σ → α → Prop} {s : σ} {as bs : List α}
    (ha : StepsMeet step C s as) (hb : ∀ s' ∈ run step s as, StepsMeet step C s' bs) :
    StepsMeet step C s (as ++ bs) := by
  induction as generalizing s with
  | nil => exact hb s rfl
  | cons a as ih =>
    refine ⟨ha.1, fun s₁ hs₁ => ih (ha.2 s₁ hs₁) fun s' hs' => hb s' ?_⟩
    rw [Option.mem_def] at hs₁ hs' ⊢
    rw [run_cons, hs₁]
    exact hs'

instance instDecidableStepsMeet {C : σ → α → Prop} [∀ s a, Decidable (C s a)] :
    (s : σ) → (as : List α) → Decidable (StepsMeet step C s as)
  | _, [] => isTrue trivial
  | s, a :: as =>
    have : DecidablePred fun s' => StepsMeet step C s' as := fun s' => instDecidableStepsMeet s' as
    inferInstanceAs (Decidable (C s a ∧ ∀ s' ∈ step s a, StepsMeet step C s' as))

/-- The invariant rule for a property that only steps meeting a condition keep. -/
theorem run_invariant_of_meet {C : σ → α → Prop} {P : σ → Prop}
    (hstep : ∀ s a s', C s a → P s → step s a = some s' → P s') {s s' : σ} {as : List α}
    (h0 : P s) (hC : StepsMeet step C s as) (h : run step s as = some s') : P s' := by
  induction as generalizing s with
  | nil =>
    rw [run_nil, Option.some.injEq] at h
    exact h ▸ h0
  | cons a as ih =>
    obtain ⟨s₁, h1, h2⟩ := Option.bind_eq_some_iff.1 h
    exact ih (hstep s a s₁ hC.1 h0 h1) (hC.2 s₁ h1) h2

/-- Actions that meet the condition in every state. -/
theorem StepsMeet.of_forall {C : σ → α → Prop} {s : σ} {as : List α}
    (h : ∀ a ∈ as, ∀ s, C s a) : StepsMeet step C s as := by
  induction as generalizing s with
  | nil => trivial
  | cons a as ih =>
    exact ⟨h a List.mem_cons_self s, fun s' _ => ih fun b hb => h b (List.mem_cons_of_mem a hb)⟩

/-- Some step of the run meets the condition, at the state in which it is made. -/
def StepOccurs (step : σ → α → Option σ) (C : σ → α → Prop) : σ → List α → Prop
  | _, [] => False
  | s, a :: as => C s a ∨ ∃ s' ∈ step s a, StepOccurs step C s' as

instance instDecidableStepOccurs {C : σ → α → Prop} [∀ s a, Decidable (C s a)] :
    (s : σ) → (as : List α) → Decidable (StepOccurs step C s as)
  | _, [] => isFalse id
  | s, a :: as =>
    have : DecidablePred fun s' => StepOccurs step C s' as :=
      fun s' => instDecidableStepOccurs s' as
    inferInstanceAs (Decidable (C s a ∨ ∃ s' ∈ step s a, StepOccurs step C s' as))

/-- The invariant rule for systems with two phases, where the steps that meet a condition lead
from the first to the second. -/
theorem run_phases {C : σ → α → Prop} {P Q : σ → Prop}
    (hstay : ∀ s a s', P s → ¬ C s a → step s a = some s' → P s')
    (hturn : ∀ s a s', P s → C s a → step s a = some s' → Q s')
    (hlate : ∀ s a s', Q s → step s a = some s' → Q s') {s s' : σ} {as : List α}
    (h0 : P s) (h : run step s as = some s') :
    (StepOccurs step C s as → Q s') ∧ (¬ StepOccurs step C s as → P s') := by
  induction as generalizing s with
  | nil =>
    rw [run_nil, Option.some.injEq] at h
    exact ⟨False.elim, fun _ => h ▸ h0⟩
  | cons a as ih =>
    obtain ⟨s₁, h1, h2⟩ := Option.bind_eq_some_iff.1 h
    by_cases hC : C s a
    · have hQ := run_invariant hlate (hturn s a s₁ h0 hC h1) h2
      exact ⟨fun _ => hQ, fun hno => absurd (Or.inl hC) hno⟩
    · obtain ⟨hyes, hno⟩ := ih (hstay s a s₁ h0 hC h1) h2
      constructor
      · rintro (hC' | ⟨s₂, hs₂, hrest⟩)
        · exact absurd hC' hC
        · obtain rfl := Option.some.inj (h1.symm.trans hs₂)
          exact hyes hrest
      · exact fun hnone => hno fun hrest => hnone (Or.inr ⟨s₁, h1, hrest⟩)

/-! ## Steps that answer -/

/-- The state after a list of calls, with each call and its answer in order. -/
def runCalls (call : σ → α → Option (σ × β)) : σ → List α → Option (σ × List (α × β))
  | s, [] => some (s, [])
  | s, a :: as => (call s a).bind fun (s', b) =>
    (runCalls call s' as).map fun (s'', trace) => (s'', (a, b) :: trace)

variable {call : σ → α → Option (σ × β)}

/-- What relates the state to the calls answered so far, and is kept by every call, relates
the last state to the whole trace. -/
theorem runCalls_invariant {P : σ → List (α × β) → Prop}
    (hcall : ∀ s trace a s' b, P s trace → call s a = some (s', b) →
      P s' (trace ++ [(a, b)])) {s s' : σ} {as : List α} {past trace : List (α × β)}
    (h0 : P s past) (h : runCalls call s as = some (s', trace)) : P s' (past ++ trace) := by
  induction as generalizing s past trace with
  | nil =>
    simp only [runCalls, Option.some.injEq, Prod.mk.injEq] at h
    obtain ⟨rfl, rfl⟩ := h
    rwa [List.append_nil]
  | cons a as ih =>
    obtain ⟨⟨s₁, b⟩, h1, hrest⟩ := Option.bind_eq_some_iff.1 h
    obtain ⟨⟨s₂, rest⟩, h2, heq⟩ := Option.map_eq_some_iff.1 hrest
    simp only [Prod.mk.injEq] at heq
    obtain ⟨rfl, rfl⟩ := heq
    have htail := ih (hcall s past a s₁ b h0 h1) h2
    rwa [List.append_assoc, List.singleton_append] at htail

end Transition
end ReplicatedTree
