import Mathlib.Logic.Function.Basic
import Mathlib.Logic.Relation
import Mathlib.Data.List.Nodup
import ReplicatedTree.Lib.Transition

/-!
# Threads with mutexes and calls

A system of any number of threads, which run one program on shared data. At a position the
program says what a thread does next: it takes or gives back a mutex, waits on a condition
variable, computes, calls a function, or returns. A wait gives the mutex back and asks for it
again after the thread was woken, which may happen at any time.

The library is a type system for lock orders. A `Typing` says for each position which mutexes the
running function has taken there, the last one first, and which its callers may hold besides. The
rules ask that a mutex comes after all those in rank, that mutexes are given back in the reverse
order, and that a function returns with none. They are checked instruction by instruction, and
give the discipline for every run: a function returns with the mutexes its caller held when it
called, no thread asks for a mutex it holds, mutexes are taken by increasing rank, and no threads
wait for each other in a cycle (`discipline_of_run`).

The rule for computations may be limited to positions and data that are `allowed`; the discipline
then holds in runs whose computations all start so.
-/

namespace ReplicatedTree
namespace Locks

open Transition

variable {ι μ σ π ρ χ : Type*}

/-! ## Threads -/

/-- What a thread does next: `μ` are the mutexes, `σ` the data, `π` the positions and `ρ` what
functions return. -/
inductive Instr (μ σ π ρ : Type*)
  | lock (m : μ) (next : π)
  | unlock (m : μ) (next : π)
  /-- waits on a condition variable -/
  | wait (m : μ) (next : π)
  | compute (data : σ) (next : π)
  | call (callee : π) (resume : ρ → π)
  | ret (result : ρ)

/-- The next instruction at a position; `χ` are choices that are not the program's. -/
abbrev Program (μ σ π ρ χ : Type*) := π → σ → χ → Option (Instr μ σ π ρ)

inductive Status (μ : Type*)
  | running
  | asleep (m : μ)
  /-- was woken, and asks for the mutex -/
  | woken (m : μ)

/-- The mutex that a thread in a wait has given back. -/
def Status.missing : Status μ → Option μ
  | .running => none
  | .asleep m | .woken m => some m

/-- A function that has called another: where it goes on, and what the thread held when the
function itself was called. -/
structure Frame (μ π ρ : Type*) where
  resume : ρ → π
  entry : μ → Bool

structure Thread (μ π ρ : Type*) where
  pc : π
  status : Status μ
  /-- what the thread held when the running function was called -/
  entry : μ → Bool
  callers : List (Frame μ π ρ)

structure System (ι μ σ π ρ : Type*) where
  data : σ
  owner : μ → Option ι
  threads : ι → Thread μ π ρ

inductive Action (ι χ : Type*)
  | step (t : ι) (choice : χ)
  | wake (t : ι)

section Step

variable [DecidableEq ι] [DecidableEq μ] (program : Program μ σ π ρ χ) (s : System ι μ σ π ρ)

/-- A thread carries out an instruction. -/
def exec (t : ι) : Instr μ σ π ρ → Option (System ι μ σ π ρ)
  | .lock m next =>
    if s.owner m = none then some { s with
      owner := Function.update s.owner m (some t)
      threads := Function.update s.threads t { s.threads t with pc := next } }
    else none
  | .unlock m next => some { s with
      owner := Function.update s.owner m none
      threads := Function.update s.threads t { s.threads t with pc := next } }
  | .wait m next => some { s with
      owner := Function.update s.owner m none
      threads := Function.update s.threads t
        { s.threads t with pc := next, status := .asleep m } }
  | .compute data next => some { s with
      data := data
      threads := Function.update s.threads t { s.threads t with pc := next } }
  | .call callee resume => some { s with
      threads := Function.update s.threads t
        ⟨callee, .running, fun m => s.owner m = some t,
          ⟨resume, (s.threads t).entry⟩ :: (s.threads t).callers⟩ }
  | .ret result =>
    match (s.threads t).callers with
    | [] => none
    | f :: fs => some { s with
        threads := Function.update s.threads t ⟨f.resume result, .running, f.entry, fs⟩ }

def step : Action ι χ → Option (System ι μ σ π ρ)
  | .step t choice =>
    match (s.threads t).status with
    | .running => (program (s.threads t).pc s.data choice).bind (exec s t)
    | .asleep _ => none
    | .woken m =>
      if s.owner m = none then some { s with
        owner := Function.update s.owner m (some t)
        threads := Function.update s.threads t { s.threads t with status := .running } }
      else none
  | .wake t =>
    match (s.threads t).status with
    | .asleep m => some { s with
        threads := Function.update s.threads t { s.threads t with status := .woken m } }
    | _ => none

end Step

/-! ## The discipline -/

section Discipline

variable (program : Program μ σ π ρ χ) (rank : μ → ℕ) (s : System ι μ σ π ρ)

/-- The next thing a thread does is to ask for a mutex. -/
def Requests (t : ι) (m : μ) : Prop :=
  ((s.threads t).status = .running ∧
      ∃ choice next, program (s.threads t).pc s.data choice = some (.lock m next)) ∨
    (s.threads t).status = .woken m

/-- A function is about to return. -/
def Returns (t : ι) : Prop :=
  (s.threads t).status = .running ∧
    ∃ choice result, program (s.threads t).pc s.data choice = some (.ret result)

/-- A thread asks for a mutex that another has. -/
def Waits (t t' : ι) : Prop := ∃ m, Requests program s t m ∧ s.owner m = some t'

structure Discipline : Prop where
  /-- a function returns with what its caller held -/
  balanced : ∀ t, Returns program s t → ∀ m, s.owner m = some t ↔ (s.threads t).entry m = true
  /-- no thread asks for a mutex it holds -/
  not_held : ∀ t m, Requests program s t m → s.owner m ≠ some t
  /-- a thread asks for mutexes by increasing rank -/
  ordered : ∀ t m m', Requests program s t m → s.owner m' = some t → rank m' < rank m
  /-- no threads wait for each other in a cycle -/
  acyclic : ∀ t, ¬ Relation.TransGen (Waits program s) t t

variable {program rank s}

/-- Along a chain of waiting threads the mutexes they ask for increase in rank. -/
theorem exists_rank_of_waits
    (h : ∀ t m m', Requests program s t m → s.owner m' = some t → rank m' < rank m) {t t' : ι}
    (hwaits : Relation.TransGen (Waits program s) t t') :
    ∃ m m', Requests program s t m ∧ s.owner m' = some t' ∧ rank m ≤ rank m' := by
  induction hwaits with
  | single hlast =>
    obtain ⟨m, hrequests, howner⟩ := hlast
    exact ⟨m, m, hrequests, howner, Nat.le_refl _⟩
  | tail _ hlast ih =>
    obtain ⟨m, m', hrequests, howner, hle⟩ := ih
    obtain ⟨m'', hrequests', howner'⟩ := hlast
    have hlt := h _ m'' m' hrequests' howner
    exact ⟨m, m'', hrequests, howner', by omega⟩

theorem not_waits_cycle
    (h : ∀ t m m', Requests program s t m → s.owner m' = some t → rank m' < rank m) (t : ι) :
    ¬ Relation.TransGen (Waits program s) t t := by
  intro hcycle
  obtain ⟨m, m', hrequests, howner, hle⟩ := exists_rank_of_waits h hcycle
  have hlt := h t m m' hrequests howner
  omega

end Discipline

/-! ## Typings -/

/-- The rules: `held` is what the running function has taken, the last first, and `context` what
its callers may hold. -/
def InstrOk (rank : μ → ℕ) (held context : π → List μ) (allowed : Prop) (p : π) :
    Instr μ σ π ρ → Prop
  | .lock m next => (∀ m' ∈ held p ++ context p, rank m' < rank m) ∧
      held next = m :: held p ∧ context p ⊆ context next
  | .unlock m next => held p = m :: held next ∧ context p ⊆ context next
  | .wait m next => (∃ rest, held p = m :: rest ∧ ∀ m' ∈ rest ++ context p, rank m' < rank m) ∧
      held next = held p ∧ context p ⊆ context next
  | .compute _ next => allowed → held next = held p ∧ context p ⊆ context next
  | .call callee resume => held callee = [] ∧ held p ++ context p ⊆ context callee ∧
      ∀ result, held (resume result) = held p ∧ context p ⊆ context (resume result)
  | .ret _ => held p = []

structure Typing (program : Program μ σ π ρ χ) (rank : μ → ℕ) (allowed : π → σ → Prop) where
  held : π → List μ
  context : π → List μ
  nodup : ∀ p, (held p ++ context p).Nodup
  ok : ∀ p data choice i, program p data choice = some i →
    InstrOk rank held context (allowed p data) p i

namespace Typing

variable {program : Program μ σ π ρ χ} {rank : μ → ℕ} {allowed : π → σ → Prop}
  (T : Typing program rank allowed)

/-- What a thread holds: what it held at the call and what it has taken since, but for the mutex
that a wait has given back. -/
def Holds (th : Thread μ π ρ) (m : μ) : Prop :=
  (th.entry m = true ∨ m ∈ T.held th.pc) ∧ th.status.missing ≠ some m

/-- Each function was called with what its caller held. -/
def CallersOk : (μ → Bool) → List (Frame μ π ρ) → Prop
  | _, [] => True
  | entry, f :: fs => (∀ result m, entry m = true ↔ f.entry m = true ∨
        m ∈ T.held (f.resume result)) ∧
      (∀ result m, f.entry m = true → m ∈ T.context (f.resume result)) ∧ CallersOk f.entry fs

structure ThreadOk (th : Thread μ π ρ) : Prop where
  entry : ∀ m, th.entry m = true → m ∈ T.context th.pc
  /-- the mutex of a wait was the last one taken -/
  missing : ∀ m, th.status.missing = some m → m ∈ T.held th.pc ∧
    ∀ m', (th.entry m' = true ∨ m' ∈ T.held th.pc) → m' ≠ m → rank m' < rank m
  callers : T.CallersOk th.entry th.callers

/-- The invariant. -/
structure Inv (s : System ι μ σ π ρ) : Prop where
  owner : ∀ t m, s.owner m = some t ↔ T.Holds (s.threads t) m
  threads : ∀ t, T.ThreadOk (s.threads t)

variable {T} {s s' : System ι μ σ π ρ}

theorem holds_running {th : Thread μ π ρ} (h : th.status = .running) (m : μ) :
    T.Holds th m ↔ th.entry m = true ∨ m ∈ T.held th.pc := by
  unfold Holds
  rw [h]
  simp [Status.missing]

/-- What a function took, its callers do not hold. -/
theorem ThreadOk.entry_eq_false {th : Thread μ π ρ} (h : T.ThreadOk th) {m : μ}
    (hm : m ∈ T.held th.pc) : ¬ th.entry m = true := by
  intro hentry
  exact (List.nodup_append.1 (T.nodup th.pc)).2.2 m hm m (h.entry m hentry) rfl

/-- The discipline is what the invariant says of one state. -/
theorem Inv.discipline (h : T.Inv s) : Discipline program rank s := by
  have hordered : ∀ t m m', Requests program s t m → s.owner m' = some t → rank m' < rank m := by
    intro t m m' hrequests howner
    have hholds := (h.owner t m').1 howner
    rcases hrequests with ⟨hrunning, choice, next, hcode⟩ | hwoken
    · have hok : InstrOk rank T.held T.context _ _ (.lock m next) := T.ok _ _ _ _ hcode
      apply hok.1
      rw [List.mem_append]
      rcases (holds_running hrunning m').1 hholds with hentry | hheld
      · exact Or.inr ((h.threads t).entry m' hentry)
      · exact Or.inl hheld
    · have hmissing : (s.threads t).status.missing = some m := by rw [hwoken]; rfl
      refine ((h.threads t).missing m hmissing).2 m' hholds.1 ?_
      rintro rfl
      exact hholds.2 hmissing
  refine ⟨?_, ?_, hordered, not_waits_cycle hordered⟩
  · rintro t ⟨hrunning, choice, result, hcode⟩ m
    have hempty : T.held (s.threads t).pc = [] := T.ok _ _ _ _ hcode
    rw [h.owner t m, holds_running hrunning, hempty]
    simp
  · intro t m hrequests howner
    have := hordered t m m hrequests howner
    omega

/-! ## Steps keep the invariant -/

section Step

variable [DecidableEq ι] [DecidableEq μ]

omit [DecidableEq μ] in
/-- One thread changes, and the owners change as it says. -/
theorem Inv.update (h : T.Inv s) {t : ι} {data : σ} {owner : μ → Option ι} {th : Thread μ π ρ}
    (hthread : T.ThreadOk th) (hself : ∀ m, owner m = some t ↔ T.Holds th m)
    (hothers : ∀ u, u ≠ t → ∀ m, owner m = some u ↔ s.owner m = some u) :
    T.Inv ⟨data, owner, Function.update s.threads t th⟩ := by
  constructor
  · intro u m
    by_cases hu : u = t
    · subst hu
      simp only [Function.update_self]
      exact hself m
    · simp only [Function.update_of_ne hu]
      rw [hothers u hu m, h.owner u m]
  · intro u
    by_cases hu : u = t
    · subst hu
      simp only [Function.update_self]
      exact hthread
    · simp only [Function.update_of_ne hu]
      exact h.threads u

/-- A thread takes a free mutex. -/
theorem Inv.acquire (h : T.Inv s) {t : ι} {m : μ} {th : Thread μ π ρ} (hfree : s.owner m = none)
    (hthread : T.ThreadOk th) (hholds : ∀ m', T.Holds th m' ↔ T.Holds (s.threads t) m' ∨ m' = m) :
    T.Inv { s with
      owner := Function.update s.owner m (some t)
      threads := Function.update s.threads t th } := by
  apply h.update hthread
  · intro m'
    rw [hholds m', ← h.owner t m']
    by_cases hm : m' = m
    · subst hm
      simp
    · simp [hm]
  · intro u hu m'
    by_cases hm : m' = m
    · subst hm
      simp [hfree, Ne.symm hu]
    · rw [Function.update_of_ne hm]

/-- A thread gives back a mutex it holds. -/
theorem Inv.release (h : T.Inv s) {t : ι} {m : μ} {th : Thread μ π ρ}
    (hheld : T.Holds (s.threads t) m) (hthread : T.ThreadOk th)
    (hholds : ∀ m', T.Holds th m' ↔ T.Holds (s.threads t) m' ∧ m' ≠ m) :
    T.Inv { s with
      owner := Function.update s.owner m none
      threads := Function.update s.threads t th } := by
  have howner := (h.owner t m).2 hheld
  apply h.update hthread
  · intro m'
    rw [hholds m', ← h.owner t m']
    by_cases hm : m' = m
    · subst hm
      simp
    · simp [hm]
  · intro u hu m'
    by_cases hm : m' = m
    · subst hm
      simp [howner, Ne.symm hu]
    · rw [Function.update_of_ne hm]

omit [DecidableEq μ] in
/-- A thread goes on with the mutexes it holds. -/
theorem Inv.keep (h : T.Inv s) {t : ι} {data : σ} {th : Thread μ π ρ} (hthread : T.ThreadOk th)
    (hholds : ∀ m, T.Holds th m ↔ T.Holds (s.threads t) m) :
    T.Inv { s with data := data, threads := Function.update s.threads t th } :=
  h.update hthread (fun m => (h.owner t m).trans (hholds m).symm) fun _ _ _ => Iff.rfl

omit [DecidableEq μ] in
/-- A thread that is not in a wait. -/
theorem ThreadOk.running {pc : π} {entry : μ → Bool} {callers : List (Frame μ π ρ)}
    (hentry : ∀ m, entry m = true → m ∈ T.context pc) (hcallers : T.CallersOk entry callers) :
    T.ThreadOk ⟨pc, .running, entry, callers⟩ :=
  ⟨hentry, fun m hm => absurd hm (by simp [Status.missing]), hcallers⟩

/-! One lemma for each instruction of a running thread. -/

section Instructions

variable {t : ι} {pc : π} {entry : μ → Bool} {callers : List (Frame μ π ρ)} {ok : Prop}

omit [DecidableEq ι] [DecidableEq μ] in
theorem holds_of_thread (hth : s.threads t = ⟨pc, .running, entry, callers⟩) (m : μ) :
    T.Holds (s.threads t) m ↔ entry m = true ∨ m ∈ T.held pc := by
  rw [hth]
  exact holds_running rfl m

omit [DecidableEq ι] [DecidableEq μ] in
theorem Inv.threadOk (h : T.Inv s) (hth : s.threads t = ⟨pc, .running, entry, callers⟩) :
    T.ThreadOk ⟨pc, .running, entry, callers⟩ := hth ▸ h.threads t

theorem Inv.lock (h : T.Inv s) (hth : s.threads t = ⟨pc, .running, entry, callers⟩) {m : μ}
    {next : π} (hok : InstrOk (σ := σ) (ρ := ρ) rank T.held T.context ok pc (.lock m next))
    (hstep : exec s t (.lock m next) = some s') : T.Inv s' := by
  obtain ⟨-, hheld, hcontext⟩ := hok
  have hthread := h.threadOk hth
  simp only [Locks.exec, hth] at hstep
  split_ifs at hstep with hfree
  obtain rfl := Option.some.inj hstep
  apply h.acquire hfree
  · exact ThreadOk.running (fun m' hm' => hcontext (hthread.entry m' hm')) hthread.callers
  · intro m'
    rw [holds_of_thread hth, holds_running rfl, hheld, List.mem_cons]
    tauto

theorem Inv.unlock (h : T.Inv s) (hth : s.threads t = ⟨pc, .running, entry, callers⟩) {m : μ}
    {next : π} (hok : InstrOk (σ := σ) (ρ := ρ) rank T.held T.context ok pc (.unlock m next))
    (hstep : exec s t (.unlock m next) = some s') : T.Inv s' := by
  obtain ⟨hheld, hcontext⟩ := hok
  have hthread := h.threadOk hth
  have hmem : m ∈ T.held pc := by
    rw [hheld]
    exact List.mem_cons_self
  simp only [Locks.exec, hth] at hstep
  obtain rfl := Option.some.inj hstep
  apply h.release (m := m)
  · rw [holds_of_thread hth]
    exact Or.inr hmem
  · exact ThreadOk.running (fun m' hm' => hcontext (hthread.entry m' hm')) hthread.callers
  · -- neither the callers nor the rest of the function hold the mutex
    intro m'
    have hentry := hthread.entry_eq_false hmem
    have hnodup := (List.nodup_append.1 (T.nodup pc)).1
    rw [hheld, List.nodup_cons] at hnodup
    rw [holds_of_thread hth, holds_running rfl, hheld, List.mem_cons]
    by_cases hm : m' = m
    · subst hm
      simp only [ne_eq, not_true_eq_false, and_false, iff_false]
      exact not_or.2 ⟨hentry, hnodup.1⟩
    · simp [hm]

theorem Inv.wait (h : T.Inv s) (hth : s.threads t = ⟨pc, .running, entry, callers⟩) {m : μ}
    {next : π} (hok : InstrOk (σ := σ) (ρ := ρ) rank T.held T.context ok pc (.wait m next))
    (hstep : exec s t (.wait m next) = some s') : T.Inv s' := by
  obtain ⟨⟨rest, hheld, hrank⟩, hnext, hcontext⟩ := hok
  have hthread := h.threadOk hth
  have hmem : m ∈ T.held pc := by
    rw [hheld]
    exact List.mem_cons_self
  simp only [Locks.exec, hth] at hstep
  obtain rfl := Option.some.inj hstep
  apply h.release (m := m)
  · rw [holds_of_thread hth]
    exact Or.inr hmem
  · refine ⟨fun m' hm' => hcontext (hthread.entry m' hm'), ?_, hthread.callers⟩
    -- when it wakes up, the thread will ask for a mutex above all that it still holds
    intro m' hm'
    obtain rfl := Option.some.inj hm'
    dsimp only
    rw [hnext]
    refine ⟨hmem, fun m' hm' hne => hrank m' ?_⟩
    rw [List.mem_append]
    rcases hm' with hentry | hm'
    · exact Or.inr (hthread.entry m' hentry)
    · rw [hheld, List.mem_cons] at hm'
      exact Or.inl (hm'.resolve_left hne)
  · intro m'
    rw [holds_of_thread hth]
    show (_ ∨ m' ∈ T.held next) ∧ some m ≠ some m' ↔ _
    rw [hnext, ne_eq, Option.some.injEq, @eq_comm _ m m']

theorem Inv.compute (h : T.Inv s) (hth : s.threads t = ⟨pc, .running, entry, callers⟩) {data : σ}
    {next : π} (hok : T.held next = T.held pc ∧ T.context pc ⊆ T.context next)
    (hstep : exec s t (.compute data next) = some s') : T.Inv s' := by
  obtain ⟨hnext, hcontext⟩ := hok
  have hthread := h.threadOk hth
  simp only [Locks.exec, hth] at hstep
  obtain rfl := Option.some.inj hstep
  apply h.keep
  · exact ThreadOk.running (fun m' hm' => hcontext (hthread.entry m' hm')) hthread.callers
  · intro m'
    rw [holds_of_thread hth, holds_running rfl, hnext]

theorem Inv.call (h : T.Inv s) (hth : s.threads t = ⟨pc, .running, entry, callers⟩) {callee : π}
    {resume : ρ → π}
    (hok : InstrOk (σ := σ) rank T.held T.context ok pc (.call callee resume))
    (hstep : exec s t (.call callee resume) = some s') : T.Inv s' := by
  obtain ⟨hcallee, hcontext, hresume⟩ := hok
  have hthread := h.threadOk hth
  simp only [Locks.exec, hth] at hstep
  obtain rfl := Option.some.inj hstep
  -- what the thread holds now is what the callee is entered with
  have hentry : ∀ m, decide (s.owner m = some t) = true ↔ entry m = true ∨ m ∈ T.held pc := by
    intro m
    rw [decide_eq_true_iff, h.owner t m, holds_of_thread hth]
  apply h.keep
  · apply ThreadOk.running
    · intro m hm
      apply hcontext
      rw [List.mem_append]
      rcases (hentry m).1 hm with hm | hm
      · exact Or.inr (hthread.entry m hm)
      · exact Or.inl hm
    · refine ⟨fun result m => ?_, fun result m hm => ?_, hthread.callers⟩
      · rw [(hresume result).1]
        exact hentry m
      · exact (hresume result).2 (hthread.entry m hm)
  · intro m
    rw [holds_of_thread hth, holds_running rfl, hcallee]
    simpa using hentry m

theorem Inv.ret (h : T.Inv s) (hth : s.threads t = ⟨pc, .running, entry, callers⟩) {result : ρ}
    (hempty : T.held pc = []) (hstep : exec s t (.ret result) = some s') : T.Inv s' := by
  have hthread := h.threadOk hth
  simp only [Locks.exec, hth] at hstep
  cases callers with
  | nil => exact absurd hstep (by simp)
  | cons f fs =>
    obtain rfl := Option.some.inj hstep
    obtain ⟨hentry, hcontext, hcallers⟩ := hthread.callers
    apply h.keep
    · exact ThreadOk.running (hcontext result) hcallers
    · -- the callee gave back all it took, so that the caller goes on with what it held
      intro m
      rw [holds_of_thread hth, holds_running rfl, hempty]
      simpa using (hentry result m).symm

end Instructions

theorem Inv.exec (h : T.Inv s) {t : ι} (hrunning : (s.threads t).status = .running)
    {choice : χ} {i : Instr μ σ π ρ} (hcode : program (s.threads t).pc s.data choice = some i)
    (hallowed : allowed (s.threads t).pc s.data) (hstep : exec s t i = some s') : T.Inv s' := by
  have hok := T.ok _ _ _ _ hcode
  generalize hth : s.threads t = th at *
  obtain ⟨pc, status, entry, callers⟩ := th
  obtain rfl : status = .running := hrunning
  cases i with
  | lock m next => exact h.lock hth hok hstep
  | unlock m next => exact h.unlock hth hok hstep
  | wait m next => exact h.wait hth hok hstep
  | compute data next => exact h.compute hth (hok hallowed) hstep
  | call callee resume => exact h.call hth hok hstep
  | ret result => exact h.ret hth hok hstep

/-- A thread that was woken up takes its mutex again. -/
theorem Inv.retake (h : T.Inv s) {t : ι} {m : μ} (hwoken : (s.threads t).status.missing = some m)
    (hfree : s.owner m = none) : T.Inv { s with
      owner := Function.update s.owner m (some t)
      threads := Function.update s.threads t { s.threads t with status := .running } } := by
  have hthread := h.threads t
  apply h.acquire hfree
  · exact ThreadOk.running hthread.entry hthread.callers
  · intro m'
    have hmem := (hthread.missing m hwoken).1
    rw [holds_running rfl]
    unfold Holds
    rw [hwoken, ne_eq, Option.some.injEq]
    by_cases hm : m' = m
    · subst hm
      simp [hmem]
    · simp [hm, Ne.symm hm]

/-- A step in which no computation starts where it is not allowed. -/
def StepAllowed (allowed : π → σ → Prop) (s : System ι μ σ π ρ) : Action ι χ → Prop
  | .step t _ => allowed (s.threads t).pc s.data
  | .wake _ => True

instance instDecidableStepAllowed [∀ p data, Decidable (allowed p data)] :
    (s : System ι μ σ π ρ) → (a : Action ι χ) → Decidable (StepAllowed allowed s a)
  | _, .step _ _ => inferInstanceAs (Decidable (allowed _ _))
  | _, .wake _ => isTrue trivial

theorem Inv.step (h : T.Inv s) {a : Action ι χ} (hallowed : StepAllowed allowed s a)
    (hstep : step program s a = some s') : T.Inv s' := by
  cases a with
  | step t choice =>
    unfold Locks.step at hstep
    dsimp only at hstep
    split at hstep
    · rename_i hrunning
      obtain ⟨i, hcode, hexec⟩ := Option.bind_eq_some_iff.1 hstep
      exact h.exec hrunning hcode hallowed hexec
    · exact absurd hstep (by simp)
    · rename_i m hwoken
      split_ifs at hstep with hfree
      obtain rfl := Option.some.inj hstep
      exact h.retake (by rw [hwoken]; rfl) hfree
  | wake t =>
    -- being woken up changes nothing in what the thread holds and lacks
    unfold Locks.step at hstep
    dsimp only at hstep
    split at hstep
    · rename_i m hasleep
      obtain rfl := Option.some.inj hstep
      have hthread := h.threads t
      have hmissing : (s.threads t).status.missing = some m := by rw [hasleep]; rfl
      apply h.keep
      · refine ⟨hthread.entry, fun m' hm' => ?_, hthread.callers⟩
        exact hthread.missing m' (hmissing.trans hm')
      · intro m'
        unfold Holds
        rw [hmissing]
        rfl
    · exact absurd hstep (by simp)

/-- **Lock discipline of typed programs**, in every run whose computations are allowed. -/
theorem discipline_of_run {actions : List (Action ι χ)} (h0 : T.Inv s)
    (hallowed : StepsMeet (Locks.step program) (StepAllowed allowed) s actions)
    (hrun : run (Locks.step program) s actions = some s') : Discipline program rank s' := by
  have hinv : T.Inv s' := run_invariant_of_meet
    (fun _ _ _ ha hinv hstep => hinv.step ha hstep) h0 hallowed hrun
  exact hinv.discipline

end Step

end Typing

end Locks
end ReplicatedTree
