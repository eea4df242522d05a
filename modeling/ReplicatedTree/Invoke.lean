import ReplicatedTree.ServerRuns

/-!
# `invoke` as one call

The request thread handles a request in several actions, between which the worker may act. While
it has `tree_lock`, all the worker can do is look at the head of the queue; so every run of
`invoke` has the effect of one function of the tree, the task module and the request
(`invoke_atomic`), and where the lock is free there is such a run (`exists_invokeRun`).
-/

namespace ReplicatedTree

open Transition

/-- The task module after `invoke2`, and the response; none if a read makes a faulty access. -/
def invoke2 (tree : TreeT) (tasks : TasksState) (request : Message) :
    Option (TasksState × Message) :=
  if request.IsWrite then
    let (tasks, taskId) := tasksAddTask tasks (some request)
    some (tasks, writeResponse request taskId)
  else (invokeRead tree tasks request).map fun response => (tasks, response)

def invoke (tree : TreeT) (tasks : TasksState) (request : Message) :
    Option (TasksState × Message) :=
  (invoke2 tree tasks request).map fun (tasks, response) => (tasks, finishResponse response)

/-- A run from one state to another in which the request thread calls `invoke` for a request,
with actions of the worker in between. -/
def InvokeRun (s : ServerState) (request : Request) (s' : ServerState) : Prop :=
  ∃ actions, (∀ a ∈ actions, a ≠ .unlockRequest) ∧
    run serverStep s (.lockRequest request :: (actions ++ [.unlockRequest])) = some s'

/-- Where `invoke` stands in a run that began in the state `s`. -/
inductive InvokePhase (s : ServerState) (request : Message) (c : ServerState) : Prop
  | locked (hpc : c.request = .locked request) (htasks : c.tasks = s.tasks)
  | created {task : TaskT} (hpc : c.request = .created request task) (hw : request.IsWrite)
    (hcreate : taskCreate s.tasks request = some (c.tasks, task))
  | answered {response : Message} (hpc : c.request = .answered request response)
    (hresponse : invoke2 s.tree s.tasks request = some (c.tasks, response))

/-- A state in which `invoke` has the lock: nothing but its own effects has happened. -/
structure Invoking (s : ServerState) (request : Message) (c : ServerState) : Prop where
  tree_eq : c.tree = s.tree
  answers_eq : c.answers = s.answers
  lock_eq : c.treeLock = some .request
  phase : InvokePhase s request c

/-! ## Runs are atomic -/

section Runs

variable {s s' c c' : ServerState} {request : Message} {log : TaskLog} {ks : List ℕ}

/-- A task in the making, once it is queued. -/
theorem invoke2_created {tree : TreeT} {tasks tasks' : TasksState} {task : TaskT}
    (hw : request.IsWrite) (hcreate : taskCreate tasks request = some (tasks', task)) :
    invoke2 tree tasks request
      = some (tasksEnqueue tasks' task, writeResponse request task.taskId) := by
  simp only [invoke2, if_pos hw, tasksAddTask, hcreate]

/-- The actions of `invoke`, and `tasks_get_next`, keep the phases; the worker's other actions
need the lock. -/
theorem Invoking.step {a : ServerAction} (h : Invoking s request c) (hinv : ServerInv c log ks)
    (ha : a ≠ .unlockRequest) (hstep : ServerStep c a c') : Invoking s request c' := by
  obtain ⟨htree, hanswers, hlock, hphase⟩ := h
  have hno : ¬ c.worker.holdsLock := by
    intro hw
    rw [hinv.workerLock.2 hw] at hlock
    exact absurd hlock (by decide)
  cases hstep with
  | lockRequest r hr hl => exact absurd (hl.symm.trans hlock) (by simp)
  | create hr hw hc =>
    refine ⟨htree, hanswers, hlock, ?_⟩
    cases hphase with
    | locked hpc htasks =>
      obtain rfl := RequestPc.locked.inj (hr.symm.trans hpc)
      rw [htasks] at hc
      exact .created rfl hw hc
    | created hpc => exact absurd (hr.symm.trans hpc) (by simp)
    | answered hpc => exact absurd (hr.symm.trans hpc) (by simp)
  | createFails hr hc =>
    -- a request that was decoded can be copied
    have hok := hinv.request
    rw [hr] at hok
    exact absurd hc (TasksState.Refines.taskCreate_isSome hok.1 hok.2)
  | read hr hw hresponse =>
    refine ⟨htree, hanswers, hlock, ?_⟩
    cases hphase with
    | locked hpc htasks =>
      obtain rfl := RequestPc.locked.inj (hr.symm.trans hpc)
      apply InvokePhase.answered rfl
      rw [invoke2, if_neg hw, ← htree, ← htasks, hresponse]
      rfl
    | created hpc => exact absurd (hr.symm.trans hpc) (by simp)
    | answered hpc => exact absurd (hr.symm.trans hpc) (by simp)
  | readFaults hr hresponse => exact absurd hresponse (hinv.invokeRead_isSome _)
  | enqueue hr =>
    refine ⟨htree, hanswers, hlock, ?_⟩
    cases hphase with
    | locked hpc => exact absurd (hr.symm.trans hpc) (by simp)
    | created hpc hw hcreate =>
      obtain ⟨rfl, rfl⟩ := RequestPc.created.inj (hr.symm.trans hpc)
      exact .answered rfl (invoke2_created hw hcreate)
    | answered hpc => exact absurd (hr.symm.trans hpc) (by simp)
  | unlockRequest hr => exact absurd rfl ha
  | getNext hw hn | stop hw hn =>
    refine ⟨htree, hanswers, hlock, ?_⟩
    cases hphase with
    | locked hpc htasks => exact .locked hpc htasks
    | created hpc hw hcreate => exact .created hpc hw hcreate
    | answered hpc hresponse => exact .answered hpc hresponse
  | lockTask hw hl => exact absurd (hl.symm.trans hlock) (by simp)
  | execute hw | refuse hw | cannotHandle hw | replicate hw | replicateFails hw | setSuccessful hw
  | setFailed hw | unlockTask hw =>
    rw [hw] at hno
    exact absurd trivial hno

/-- `invoke` begins between two requests. -/
theorem InvokeRun.idle {request : Request} (h : InvokeRun s request s') : s.request = .idle := by
  obtain ⟨actions, -, hrun⟩ := h
  rw [run_cons] at hrun
  rcases Option.bind_eq_some_iff.1 hrun with ⟨c, hlock, -⟩
  cases serverStep_cases hlock with
  | lockRequest _ hr hl => exact hr

/-- Whatever the worker does meanwhile, `invoke` has the effect of one call. -/
theorem invoke_atomic {request : Request} (hinv : ∃ log ks, ServerInv s log ks)
    (h : InvokeRun s request s') :
    s'.tree = s.tree ∧ ∃ response, invoke s.tree s.tasks request.1 = some (s'.tasks, response) ∧
      s'.answers = s.answers ++ [(request.1, response)] := by
  obtain ⟨actions, hactions, hrun⟩ := h
  rw [run_cons] at hrun
  rcases Option.bind_eq_some_iff.1 hrun with ⟨c₀, hlock, hrun⟩
  rw [run_append] at hrun
  rcases Option.bind_eq_some_iff.1 hrun with ⟨c, hmid, hunlock⟩
  rw [run_cons] at hunlock
  rcases Option.bind_eq_some_iff.1 hunlock with ⟨c', hlast, hend⟩
  obtain rfl := Option.some.inj hend
  have hinv₀ : ∃ log ks, ServerInv c₀ log ks := by
    obtain ⟨log, ks, hs⟩ := hinv
    exact hs.step (serverStep_cases hlock)
  have hstart : Invoking s request.1 c₀ := by
    cases serverStep_cases hlock with
    | lockRequest _ hr hl => exact ⟨rfl, rfl, rfl, .locked rfl rfl⟩
  have hsteps : ∀ d a d', a ≠ .unlockRequest →
      Invoking s request.1 d ∧ (∃ log ks, ServerInv d log ks) → serverStep d a = some d' →
      Invoking s request.1 d' ∧ ∃ log ks, ServerInv d' log ks := by
    rintro d a d' ha ⟨hd, log, ks, hdinv⟩ hstep
    have hcases := serverStep_cases hstep
    exact ⟨hd.step hdinv ha hcases, hdinv.step hcases⟩
  have hreached := run_invariant_of_meet hsteps ⟨hstart, hinv₀⟩
    (StepsMeet.of_forall fun a ha _ => hactions a ha) hmid
  obtain ⟨htree, hanswers, -, hphase⟩ := hreached.1
  cases serverStep_cases hlast with
  | @unlockRequest request' response hr =>
    cases hphase with
    | locked hpc => exact absurd (hr.symm.trans hpc) (by simp)
    | created hpc => exact absurd (hr.symm.trans hpc) (by simp)
    | answered hpc hresponse =>
      obtain ⟨rfl, rfl⟩ := RequestPc.answered.inj (hr.symm.trans hpc)
      refine ⟨htree, finishResponse response, ?_, ?_⟩
      · rw [invoke, hresponse]
        rfl
      · rw [← hanswers]

/-! ## Runs exist -/

/-- A server that can take a request at once. -/
structure ServerState.Ready (s : ServerState) : Prop where
  alive : s.exited = false
  idle : s.request = .idle
  unlocked : s.treeLock = none

theorem exists_invokeRun (hinv : ServerInv s log ks) (h : s.Ready) (request : Request) :
    ∃ s', InvokeRun s request s' := by
  obtain ⟨tree, tasks, treeLock, pc, worker, exited, answers⟩ := s
  obtain ⟨halive, hidle, hunlocked⟩ := h
  dsimp only at halive hidle hunlocked
  subst halive hidle hunlocked
  by_cases hw : request.1.IsWrite
  · have hcreate : taskCreate tasks request.1 ≠ none :=
      TasksState.Refines.taskCreate_isSome request.2.1 request.2.2
    obtain ⟨⟨tasks', task⟩, hcreate⟩ := Option.ne_none_iff_exists'.1 hcreate
    have hhandle : serverStep
        ⟨tree, tasks, some .request, .locked request.1, worker, false, answers⟩ .handle
          = some ⟨tree, tasks', some .request, .created request.1 task, worker, false,
            answers⟩ := by
      have hw' : request.1.handler = .writeOperation := hw
      simp only [serverStep, Bool.false_eq_true, if_false, ServerState.handle, if_pos hw',
        hcreate]
    have hrun : run serverStep ⟨tree, tasks, none, .idle, worker, false, answers⟩
        (.lockRequest request :: ([.handle, .enqueue] ++ [.unlockRequest]))
          = some ⟨tree, tasksEnqueue tasks' task, none, .idle, worker, false, answers ++
            [(request.1, finishResponse (writeResponse request.1 task.taskId))]⟩ := by
      show (serverStep ⟨tree, tasks, some .request, .locked request.1, worker, false, answers⟩
        .handle).bind _ = _
      rw [hhandle]
      rfl
    exact ⟨_, _, by simp, hrun⟩
  · obtain ⟨response, hresponse⟩ := Option.ne_none_iff_exists'.1 (hinv.invokeRead_isSome request.1)
    have hhandle : serverStep
        ⟨tree, tasks, some .request, .locked request.1, worker, false, answers⟩ .handle
          = some ⟨tree, tasks, some .request, .answered request.1 response, worker, false,
            answers⟩ := by
      have hw' : ¬ request.1.handler = .writeOperation := hw
      have hresponse' : invokeRead tree tasks request.1 = some response := hresponse
      simp only [serverStep, Bool.false_eq_true, if_false, ServerState.handle, if_neg hw',
        hresponse']
    have hrun : run serverStep ⟨tree, tasks, none, .idle, worker, false, answers⟩
        (.lockRequest request :: ([.handle] ++ [.unlockRequest]))
          = some ⟨tree, tasks, none, .idle, worker, false, answers ++
            [(request.1, finishResponse response)]⟩ := by
      show (serverStep ⟨tree, tasks, some .request, .locked request.1, worker, false, answers⟩
        .handle).bind _ = _
      rw [hhandle]
      rfl
    exact ⟨_, _, by simp, hrun⟩

end Runs

end ReplicatedTree
