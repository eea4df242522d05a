import ReplicatedTree.Lib.Locks

/-!
# Threads that wait for a condition

Two ways for threads to be stuck that a lock order does not rule out.

A thread that sleeps may have missed the broadcast it sleeps for. A `Signalled` system records
which threads were signalled since they fell asleep; if threads fall asleep only in data on which
there is nothing to do, and data on which there is something is only made by a broadcast, then a
thread that sleeps without a signal has nothing to do (`asleep_of_run`).

A thread that asks for a mutex may wait for one that sleeps, or that has stopped. If it does not,
the chain of waiting threads ends with one that can go on (`exists_unblocked`).
-/

namespace ReplicatedTree
namespace Locks

open Transition

variable {ι μ σ π ρ χ : Type*} [DecidableEq ι] [DecidableEq μ] {program : Program μ σ π ρ χ}
  {s s' : System ι μ σ π ρ} {t u : ι} {i : Instr μ σ π ρ}

/-! ## What an instruction changes -/

theorem exec_other (h : exec s t i = some s') (hu : u ≠ t) : s'.threads u = s.threads u := by
  cases i with
  | lock m next =>
    obtain ⟨-, ⟨⟩⟩ := Option.ite_none_right_eq_some.1 h
    exact Function.update_of_ne hu _ _
  | ret result =>
    unfold exec at h
    dsimp only at h
    split at h
    · exact absurd h (by simp)
    · obtain rfl := Option.some.inj h
      exact Function.update_of_ne hu _ _
  | unlock m next => exact Option.some.inj h ▸ Function.update_of_ne hu _ _
  | wait m next => exact Option.some.inj h ▸ Function.update_of_ne hu _ _
  | compute data next => exact Option.some.inj h ▸ Function.update_of_ne hu _ _
  | call callee resume => exact Option.some.inj h ▸ Function.update_of_ne hu _ _

/-- Only a computation changes the data. -/
theorem exec_data (h : exec s t i = some s') :
    s'.data = s.data ∨ ∃ next, i = .compute s'.data next := by
  cases i with
  | lock m next =>
    obtain ⟨-, ⟨⟩⟩ := Option.ite_none_right_eq_some.1 h
    exact Or.inl rfl
  | ret result =>
    unfold exec at h
    dsimp only at h
    split at h
    · exact absurd h (by simp)
    · exact Or.inl (Option.some.inj h ▸ rfl)
  | compute data next => exact Or.inr ⟨next, Option.some.inj h ▸ rfl⟩
  | unlock m next => exact Or.inl (Option.some.inj h ▸ rfl)
  | wait m next => exact Or.inl (Option.some.inj h ▸ rfl)
  | call callee resume => exact Or.inl (Option.some.inj h ▸ rfl)

/-- Only a wait makes a running thread stop running. -/
theorem exec_status (h : exec s t i = some s') (hrunning : (s.threads t).status = .running)
    (hstatus : (s'.threads t).status ≠ .running) :
    ∃ m next, i = .wait m next ∧ (s'.threads t).pc = next ∧ s'.data = s.data := by
  cases i with
  | lock m next =>
    obtain ⟨-, ⟨⟩⟩ := Option.ite_none_right_eq_some.1 h
    simp [hrunning] at hstatus
  | ret result =>
    unfold exec at h
    dsimp only at h
    split at h
    · exact absurd h (by simp)
    · obtain rfl := Option.some.inj h
      simp at hstatus
  | wait m next =>
    obtain rfl := Option.some.inj h
    exact ⟨m, next, rfl, by simp, rfl⟩
  | unlock m next =>
    obtain rfl := Option.some.inj h
    simp [hrunning] at hstatus
  | compute data next =>
    obtain rfl := Option.some.inj h
    simp [hrunning] at hstatus
  | call callee resume =>
    obtain rfl := Option.some.inj h
    simp at hstatus

/-- The thread of an action. -/
def Action.thread : Action ι χ → ι
  | .step t _ => t
  | .wake t => t

/-- The steps of a system: an instruction, or a change of one thread's status, which takes no
sleep and no mutex but the one that the thread lacks. -/
theorem step_cases {a : Action ι χ} (h : step program s a = some s') :
    (∃ choice i, a = .step a.thread choice ∧ (s.threads a.thread).status = .running ∧
      program (s.threads a.thread).pc s.data choice = some i ∧ exec s a.thread i = some s') ∨
    ∃ status, (s.threads a.thread).status ≠ .running ∧ (∀ m, status ≠ .asleep m) ∧
      (∀ m, status.missing = some m → (s.threads a.thread).status.missing = some m) ∧
      (∀ m, (s.threads a.thread).status.missing ≠ some m → s'.owner m = s.owner m) ∧
      s'.data = s.data ∧ s'.threads
        = Function.update s.threads a.thread { s.threads a.thread with status := status } := by
  cases a with
  | step t choice =>
    unfold step at h
    dsimp only at h
    split at h
    · rename_i hrunning
      obtain ⟨i, hcode, hexec⟩ := Option.bind_eq_some_iff.1 h
      exact Or.inl ⟨choice, i, rfl, hrunning, hcode, hexec⟩
    · exact absurd h (by simp)
    · rename_i m hwoken
      obtain ⟨-, ⟨⟩⟩ := Option.ite_none_right_eq_some.1 h
      refine Or.inr ⟨.running, ?_, by simp, by simp [Status.missing], fun m' hm' => ?_, rfl, rfl⟩
      · simp [Action.thread, hwoken]
      · exact Function.update_of_ne (fun heq => hm' (by simp [Action.thread, hwoken, heq,
          Status.missing])) _ _
  | wake t =>
    unfold step at h
    dsimp only at h
    split at h
    · rename_i m hasleep
      obtain rfl := Option.some.inj h
      refine Or.inr ⟨.woken m, ?_, by simp, fun m' hm' => ?_, fun _ _ => rfl, rfl, rfl⟩
      · simp [Action.thread, hasleep]
      · rw [← hm']
        simp [Action.thread, hasleep, Status.missing]
    · exact absurd h (by simp)

/-! ## Signals -/

section Signals

/-- A system, and which threads were signalled since they last fell asleep. -/
structure Signalled (ι μ σ π ρ : Type*) where
  system : System ι μ σ π ρ
  signalled : ι → Bool

variable (program) (broadcasts : π → Bool)

/-- Who is signalled after a thread has carried out the instruction at a position: everybody if
it is a broadcast, and not the thread itself if it fell asleep. -/
def signalledAfter (signalled : ι → Bool) (t : ι) (p : π) : Status μ → ι → Bool
  | .asleep _ => Function.update signalled t false
  | _ => if broadcasts p then fun _ => true else signalled

def signalStep (s : Signalled ι μ σ π ρ) (a : Action ι χ) : Option (Signalled ι μ σ π ρ) :=
  (step program s.system a).map fun system => ⟨system,
    match (s.system.threads a.thread).status with
    | .running => signalledAfter broadcasts s.signalled a.thread
        (s.system.threads a.thread).pc (system.threads a.thread).status
    | _ => s.signalled⟩

/-- A thread that sleeps without a signal has nothing to do. -/
def SleepsIdle (idle : σ → Prop) (s : Signalled ι μ σ π ρ) : Prop :=
  ∀ t m, (s.system.threads t).status = .asleep m → s.signalled t = false → idle s.system.data

variable {program broadcasts} {idle : σ → Prop}

omit [DecidableEq μ] in
/-- Another thread that is not signalled was not before, and there was no broadcast. -/
theorem of_signalledAfter {signalled : ι → Bool} {p : π} {status : Status μ} (hu : u ≠ t)
    (h : signalledAfter broadcasts signalled t p status u = false) :
    signalled u = false ∧ ((∃ m, status = .asleep m) ∨ broadcasts p = false) := by
  cases status with
  | asleep m => exact ⟨(Function.update_of_ne hu _ _).symm.trans h, Or.inl ⟨m, rfl⟩⟩
  | running | woken m =>
    unfold signalledAfter at h
    cases hb : broadcasts p with
    | true => simp [hb] at h
    | false => exact ⟨by simpa [hb] using h, Or.inr rfl⟩

/-- One instruction. -/
theorem SleepsIdle.exec {s : Signalled ι μ σ π ρ} {system : System ι μ σ π ρ}
    (h : SleepsIdle idle s) (hrunning : (s.system.threads t).status = .running)
    (hwait : ∀ m next, i = .wait m next → idle s.system.data)
    (hcompute : ∀ data next, i = .compute data next → broadcasts (s.system.threads t).pc = false →
      idle s.system.data → idle data)
    (hexec : exec s.system t i = some system) :
    SleepsIdle idle ⟨system, signalledAfter broadcasts s.signalled t
      (s.system.threads t).pc (system.threads t).status⟩ := by
  intro u m (hasleep : (system.threads u).status = .asleep m) hsignal
  show idle system.data
  by_cases hu : u = t
  · -- the thread itself falls asleep
    subst hu
    obtain ⟨m', next, hi, -, hdata⟩ := exec_status hexec hrunning (by simp [hasleep])
    exact hdata ▸ hwait m' next hi
  · rw [exec_other hexec hu] at hasleep
    obtain ⟨hsignal, hno⟩ := of_signalledAfter hu hsignal
    have hidle := h u m hasleep hsignal
    rcases hno with ⟨m', hst⟩ | hno
    · obtain ⟨-, -, -, -, hdata⟩ := exec_status hexec hrunning (by simp [hst])
      exact hdata ▸ hidle
    · rcases exec_data hexec with hdata | ⟨next, hi⟩
      · exact hdata ▸ hidle
      · exact hcompute _ next hi hno hidle

/-- **No wake-up is lost.** If threads fall asleep only where there is nothing to do, and only a
broadcast makes something to do, then in every run a thread that sleeps and was not signalled has
nothing to do. -/
theorem sleepsIdle_of_run (idle : σ → Prop)
    (hwait : ∀ p data choice m next, program p data choice = some (.wait m next) → idle data)
    (hcompute : ∀ p data choice data' next, program p data choice = some (.compute data' next) →
      broadcasts p = false → idle data → idle data')
    {s s' : Signalled ι μ σ π ρ} {actions : List (Action ι χ)} (h0 : SleepsIdle idle s)
    (hrun : run (signalStep program broadcasts) s actions = some s') : SleepsIdle idle s' := by
  refine run_invariant (fun s a s' h hstep => ?_) h0 hrun
  obtain ⟨system, hsystem, rfl⟩ := Option.map_eq_some_iff.1 hstep
  rcases step_cases hsystem with ⟨choice, i, -, hrunning, hcode, hexec⟩ |
    ⟨status, hne, hnot, -, -, hdata, hthreads⟩
  · rw [hrunning]
    exact h.exec hrunning (fun m next hi => hwait _ _ _ m next (hi ▸ hcode))
      (fun data next hi => hcompute _ _ _ data next (hi ▸ hcode)) hexec
  · -- a thread is woken up, or takes its mutex again
    have hsame : (match (s.system.threads a.thread).status with
        | .running => signalledAfter broadcasts s.signalled a.thread
            (s.system.threads a.thread).pc (system.threads a.thread).status
        | _ => s.signalled) = s.signalled := by
      split
      · exact absurd ‹_› hne
      · rfl
    rw [hsame]
    intro u m (hasleep : (system.threads u).status = .asleep m) hsignal
    show idle system.data
    rw [hthreads] at hasleep
    rw [hdata]
    by_cases hu : u = a.thread
    · subst hu
      rw [Function.update_self] at hasleep
      exact absurd hasleep (hnot m)
    · rw [Function.update_of_ne hu] at hasleep
      exact h u m hasleep hsignal

end Signals

/-! ## Progress -/

section Progress

/-- Whatever the choice, the thread cannot go on. -/
def Stuck (program : Program μ σ π ρ χ) (s : System ι μ σ π ρ) (t : ι) : Prop :=
  ∀ choice, step program s (.step t choice) = none

/-- A function that is called at `start` returns there, and nothing else happens at `start`. -/
def Bottom (start : π) (th : Thread μ π ρ) : Prop :=
  (th.callers = [] → th.pc = start) ∧
    ∀ f ∈ th.callers.getLast?, ∀ result, f.resume result = start

theorem Bottom.exec {start : π}
    (hstart : ∀ data choice i, program start data choice = some i →
      ∃ callee, i = .call callee fun _ => start)
    (h : Bottom start (s.threads t)) {choice : χ}
    (hcode : program (s.threads t).pc s.data choice = some i) (hexec : exec s t i = some s') :
    Bottom start (s'.threads t) := by
  obtain ⟨hpc, hlast⟩ := h
  -- at `start` there is only a call
  have hcalls : (s.threads t).callers = [] → ∃ callee, i = .call callee fun _ => start := by
    intro hnil
    rw [hpc hnil] at hcode
    exact hstart _ _ _ hcode
  have hinner : (∀ callee, i ≠ .call callee fun _ => start) →
      ∀ {pc : π} {status : Status μ} {entry : μ → Bool},
        Bottom start ⟨pc, status, entry, (s.threads t).callers⟩ := by
    intro hno pc status entry
    refine ⟨fun hnil => ?_, hlast⟩
    obtain ⟨callee, hi⟩ := hcalls hnil
    exact absurd hi (hno callee)
  cases i with
  | lock m next =>
    obtain ⟨-, ⟨⟩⟩ := Option.ite_none_right_eq_some.1 hexec
    simpa using hinner (by simp)
  | unlock m next =>
    obtain rfl := Option.some.inj hexec
    simpa using hinner (by simp)
  | wait m next =>
    obtain rfl := Option.some.inj hexec
    simpa using hinner (by simp)
  | compute data next =>
    obtain rfl := Option.some.inj hexec
    simpa using hinner (by simp)
  | call callee resume =>
    obtain rfl := Option.some.inj hexec
    simp only [Function.update_self]
    refine ⟨fun hnil => absurd hnil (by simp), ?_⟩
    intro f hf
    cases hcallers : (s.threads t).callers with
    | nil =>
      obtain ⟨callee', hi⟩ := hcalls hcallers
      simp only [Instr.call.injEq] at hi
      rw [hcallers] at hf
      obtain rfl := Option.some.inj hf
      rw [hi.2]
      exact fun _ => rfl
    | cons f' fs =>
      rw [hcallers, List.getLast?_cons_cons, ← hcallers] at hf
      exact hlast f hf
  | ret result =>
    unfold Locks.exec at hexec
    dsimp only at hexec
    cases hcallers : (s.threads t).callers with
    | nil => simp [hcallers] at hexec
    | cons f fs =>
      simp only [hcallers, Option.some.injEq] at hexec
      subst hexec
      simp only [Function.update_self]
      rw [hcallers] at hlast
      constructor
      · rintro rfl
        exact hlast f rfl result
      · intro f' hf'
        cases fs with
        | nil => exact absurd hf' (by simp)
        | cons f'' fs => exact hlast f' (by rwa [List.getLast?_cons_cons])

/-- Functions return where they were called, and threads wait at one position only. -/
structure Shape (start waiting : π) (th : Thread μ π ρ) : Prop where
  bottom : Bottom start th
  waits : th.status ≠ .running → th.pc = waiting

theorem shape_of_run {start waiting : π}
    (hstart : ∀ data choice i, program start data choice = some i →
      ∃ callee, i = .call callee fun _ => start)
    (hwaiting : ∀ p data choice m next, program p data choice = some (.wait m next) →
      next = waiting)
    {actions : List (Action ι χ)} (h0 : ∀ t, Shape start waiting (s.threads t))
    (hrun : run (step program) s actions = some s') : ∀ t, Shape start waiting (s'.threads t) := by
  refine run_invariant (P := fun s => ∀ t, Shape start waiting (s.threads t))
    (fun s a s' h hstep u => ?_) h0 hrun
  rcases step_cases hstep with ⟨choice, i, -, hrunning, hcode, hexec⟩ |
    ⟨status, hne, -, -, -, -, hthreads⟩
  · by_cases hu : u = a.thread
    · subst hu
      refine ⟨(h a.thread).bottom.exec hstart hcode hexec, fun hstatus => ?_⟩
      obtain ⟨m, next, hi, hpc, -⟩ := exec_status hexec hrunning hstatus
      exact hpc.trans (hwaiting _ _ _ m next (hi ▸ hcode))
    · rw [exec_other hexec hu]
      exact h u
  · rw [hthreads]
    by_cases hu : u = a.thread
    · subst hu
      rw [Function.update_self]
      exact ⟨(h a.thread).bottom, fun _ => (h a.thread).waits hne⟩
    · rw [Function.update_of_ne hu]
      exact h u

/-- A thread in a function that does not sleep is stuck only if another has the mutex it asks
for. -/
theorem exists_owner_of_stuck (hstuck : Stuck program s t)
    (hawake : ∀ m, (s.threads t).status ≠ .asleep m) (hcallers : (s.threads t).callers ≠ [])
    {choice : χ} (hcode : program (s.threads t).pc s.data choice = some i) :
    ∃ m u, Requests program s t m ∧ s.owner m = some u := by
  have hstep := hstuck choice
  unfold step at hstep
  dsimp only at hstep
  split at hstep
  · rename_i hrunning
    rw [hcode, Option.bind_some] at hstep
    cases i with
    | lock m next =>
      have howned : s.owner m ≠ none := by simpa [exec] using hstep
      obtain ⟨u, hu⟩ := Option.ne_none_iff_exists'.1 howned
      exact ⟨m, u, Or.inl ⟨hrunning, choice, next, hcode⟩, hu⟩
    | ret result =>
      obtain ⟨f, fs, heq⟩ := List.exists_cons_of_ne_nil hcallers
      simp [exec, heq] at hstep
    | unlock m next => exact absurd hstep (by simp [exec])
    | wait m next => exact absurd hstep (by simp [exec])
    | compute data next => exact absurd hstep (by simp [exec])
    | call callee resume => exact absurd hstep (by simp [exec])
  · rename_i m hasleep
    exact absurd hasleep (hawake m)
  · rename_i m hwoken
    have howned : s.owner m ≠ none := by simpa using hstep
    obtain ⟨u, hu⟩ := Option.ne_none_iff_exists'.1 howned
    exact ⟨m, u, Or.inr hwoken, hu⟩

section Chain

variable {rank : μ → ℕ} (bound : ℕ) (Active : ι → Prop)

theorem exists_unblocked_of_rank
    (hordered : ∀ t m m', Requests program s t m → s.owner m' = some t → rank m' < rank m)
    (hbound : ∀ m, rank m < bound) (howner : ∀ m u, s.owner m = some u → Active u)
    (hnext : ∀ t, Active t → Stuck program s t →
      ∃ m u, Requests program s t m ∧ s.owner m = some u)
    (n : ℕ) (t : ι) (ht : Active t) (hn : ∀ m, Requests program s t m → bound ≤ rank m + n) :
    ∃ u, Relation.ReflTransGen (Waits program s) t u ∧ Active u ∧ ¬ Stuck program s u := by
  -- each thread of the chain asks for a mutex of higher rank than the one before
  induction n generalizing t with
  | zero =>
    refine ⟨t, .refl, ht, fun hstuck => ?_⟩
    obtain ⟨m, u, hrequests, -⟩ := hnext t ht hstuck
    have h1 := hn m hrequests
    have h2 := hbound m
    omega
  | succ n ih =>
    by_cases hstuck : Stuck program s t
    · obtain ⟨m, u, hrequests, howned⟩ := hnext t ht hstuck
      obtain ⟨v, hpath, hv⟩ := ih u (howner m u howned) fun m' hm' => by
        have h1 := hordered u m' m hm' howned
        have h2 := hn m hrequests
        omega
      exact ⟨v, hpath.head ⟨m, hrequests, howned⟩, hv⟩
    · exact ⟨t, .refl, ht, hstuck⟩

/-- **A chain of waiting threads ends with one that can go on**, if mutexes are asked for by
increasing rank, and a thread that has one can only be stuck because it asks for another. -/
theorem exists_unblocked
    (hordered : ∀ t m m', Requests program s t m → s.owner m' = some t → rank m' < rank m)
    (hbound : ∀ m, rank m < bound) (howner : ∀ m u, s.owner m = some u → Active u)
    (hnext : ∀ t, Active t → Stuck program s t →
      ∃ m u, Requests program s t m ∧ s.owner m = some u) {t : ι} (ht : Active t) :
    ∃ u, Relation.ReflTransGen (Waits program s) t u ∧ Active u ∧ ¬ Stuck program s u :=
  exists_unblocked_of_rank bound Active hordered hbound howner hnext bound t ht
    fun _ _ => Nat.le_add_left _ _

end Chain

end Progress

end Locks
end ReplicatedTree
