import ReplicatedTree.Lib.Transition

/-!
# Forward simulation

Two systems with partial step functions, of which each step shows some events. A simulation
answers a step of the first by some steps, maybe none, of the second that show the same events
and lead to related states; a run of the first then has a run of the second that shows the same
history (`Simulates.run`).
-/

namespace ReplicatedTree
namespace Transition

variable {σ τ α β ε : Type*}

/-- The events that a run shows. -/
def history (step : σ → α → Option σ) (shows : σ → α → List ε) : σ → List α → List ε
  | _, [] => []
  | s, a :: as =>
    match step s a with
    | none => []
    | some s' => shows s a ++ history step shows s' as

variable {step : σ → α → Option σ} {shows : σ → α → List ε} {step' : τ → β → Option τ}
  {shows' : τ → β → List ε}

theorem history_cons {s s' : σ} {a : α} (h : step s a = some s') (as : List α) :
    history step shows s (a :: as) = shows s a ++ history step shows s' as := by
  rw [history, h]

theorem history_append {s s' : σ} {as : List α} (h : run step s as = some s') (bs : List α) :
    history step shows s (as ++ bs) = history step shows s as ++ history step shows s' bs := by
  induction as generalizing s with
  | nil =>
    rw [run_nil, Option.some.injEq] at h
    rw [h]
    rfl
  | cons a as ih =>
    obtain ⟨s₁, h1, h2⟩ := Option.bind_eq_some_iff.1 h
    rw [List.cons_append, history_cons h1, history_cons h1, ih h2, List.append_assoc]

/-- Steps of the second system that show some events and lead to a state. -/
def Answers (step' : τ → β → Option τ) (shows' : τ → β → List ε) (t : τ) (events : List ε)
    (R : τ → Prop) : Prop :=
  ∃ bs t', run step' t bs = some t' ∧ history step' shows' t bs = events ∧ R t'

/-- No step at all. -/
theorem Answers.stay {t : τ} {R : τ → Prop} (h : R t) : Answers step' shows' t [] R :=
  ⟨[], t, rfl, rfl, h⟩

/-- One step. -/
theorem Answers.one {t t' : τ} {b : β} {events : List ε} {R : τ → Prop}
    (h : step' t b = some t') (hshows : shows' t b = events) (hR : R t') :
    Answers step' shows' t events R := by
  refine ⟨[b], t', ?_, ?_, hR⟩
  · rw [run_cons, h]
    rfl
  · rw [history_cons h, hshows]
    exact List.append_nil _

/-- The steps of the first system that meet `C` are answered. -/
def Simulates (step : σ → α → Option σ) (shows : σ → α → List ε) (step' : τ → β → Option τ)
    (shows' : τ → β → List ε) (C : σ → α → Prop) (R : σ → τ → Prop) : Prop :=
  ∀ s a s' t, C s a → R s t → step s a = some s' → Answers step' shows' t (shows s a) (R s')

/-- A run whose steps all meet `C` is answered. -/
theorem Simulates.run {C : σ → α → Prop} {R : σ → τ → Prop}
    (h : Simulates step shows step' shows' C R) {s s' : σ} {t : τ} {as : List α} (hR : R s t)
    (hC : StepsMeet step C s as) (hrun : run step s as = some s') :
    Answers step' shows' t (history step shows s as) (R s') := by
  induction as generalizing s t with
  | nil =>
    rw [run_nil, Option.some.injEq] at hrun
    exact Answers.stay (hrun ▸ hR)
  | cons a as ih =>
    obtain ⟨s₁, h1, h2⟩ := Option.bind_eq_some_iff.1 hrun
    obtain ⟨bs, t₁, hbs, hshows, hR₁⟩ := h s a s₁ t hC.1 hR h1
    obtain ⟨bs', t', hbs', hshows', hR'⟩ := ih hR₁ (hC.2 s₁ h1) h2
    refine ⟨bs ++ bs', t', ?_, ?_, hR'⟩
    · rw [run_append, hbs]
      exact hbs'
    · rw [history_append hbs, history_cons h1, hshows, hshows']

end Transition
end ReplicatedTree
