import ReplicatedTree.Lib.Signals
import ReplicatedTree.LockDiscipline

/-!
# The server's threads go on

No broadcast of `tasks_queue_change` is missed: a thread that sleeps in `tasks_get_next` was
signalled, or the queue is empty (`tasks_get_next_signalled`). And no thread is stuck for good:
while the tasks are not destroyed, a thread inside a function sleeps for a task, or the threads it
waits for lead to one that can go on (`server_threads_progress`).

The second rests on a typing that is sharper than `serverTyping`: `tasks_get_next`, the only
function that waits, is called without mutexes, so a thread that sleeps has none.
-/

namespace ReplicatedTree

open Locks Transition

/-! ## Waits and broadcasts -/

/-- The positions whose instruction ends with `pthread_cond_broadcast`. -/
def broadcastsAt : ThreadPc → Bool
  | .addTaskQueue _ | .destroyQueue => true
  | _ => false

/-- What an instruction of the server does to the flag and to the queue; and where one waits. -/
def Effect (pc : ThreadPc) (d : Shared) : ServerInstr → Prop
  | .wait _ next => pc = .getNextTest ∧ next = .getNextTest ∧ d.tasks.tasksQueueHead = []
  | .compute d' _ => (d.tasks.destroyed = true → d'.tasks.destroyed = true) ∧
      (broadcastsAt pc = false → d.tasks.tasksQueueHead = [] → d'.tasks.tasksQueueHead = [])
  | _ => True

theorem Effect.same (pc : ThreadPc) {d d' : Shared} (h : d'.tasks = d.tasks) (next : ThreadPc) :
    Effect pc d (.compute d' next) := by
  show (_ → d'.tasks.destroyed = true) ∧ (_ → _ → d'.tasks.tasksQueueHead = [])
  rw [h]
  exact ⟨id, fun _ => id⟩

theorem addTaskCode_effect (d : Shared) (ok : Bool) (opCodeAndArgs : Option Message) :
    Effect (.addTask opCodeAndArgs) d (addTaskCode d ok opCodeAndArgs) := by
  unfold addTaskCode
  split
  · exact Effect.same _ rfl _
  · split
    · exact Effect.same _ rfl _
    · rename_i heq
      obtain ⟨-, hcreate⟩ := Option.ite_none_right_eq_some.1 heq
      obtain ⟨copied, -, ⟨⟩⟩ := Option.map_eq_some_iff.1 hcreate
      exact ⟨id, fun _ => id⟩

theorem tasksSetResult_destroyed (st : TasksState) (taskId : ℤ) (taskResult : TaskResult) :
    (tasksSetResult st taskId taskResult).1.destroyed = st.destroyed := by
  unfold tasksSetResult
  split
  · rfl
  · split_ifs <;> rfl

theorem setResultStoreCode_effect (d : Shared) (ok : Bool) (taskId : ℤ)
    (taskResult : TaskResult) :
    Effect (.setResultStore taskId taskResult) d (setResultStoreCode d ok taskId taskResult) := by
  unfold setResultStoreCode
  dsimp only
  split_ifs
  · exact Effect.same _ rfl _
  · refine ⟨(tasksSetResult_destroyed _ _ _).trans, fun _ hempty => ?_⟩
    simp [tasksSetResult, hempty]

theorem serverCode_effect (pc : ThreadPc) (d : Shared) (choice : ThreadChoice) :
    Effect pc d (serverCode pc d choice) := by
  cases pc
  case addTask opCodeAndArgs => exact addTaskCode_effect d choice.ok opCodeAndArgs
  case addTaskQueue task => exact ⟨id, fun h => nomatch h⟩
  case getNextTest =>
    unfold serverCode getNextTestCode
    dsimp only
    split_ifs with hempty
    · exact ⟨rfl, rfl, hempty.2⟩
    · exact Effect.same _ rfl _
  case getNextTake =>
    unfold serverCode getNextTakeCode
    dsimp only
    split_ifs
    · exact Effect.same _ rfl _
    · split
      · exact Effect.same _ rfl .getNextTake
      · exact Effect.same _ rfl _
  case setResultStore taskId taskResult =>
    exact setResultStoreCode_effect d choice.ok taskId taskResult
  case destroy => exact ⟨fun _ => rfl, fun _ => id⟩
  case destroyQueue => exact ⟨id, fun _ _ => rfl⟩
  case destroyResults => exact ⟨id, fun _ => id⟩
  case invoke message =>
    cases message with
    | none => exact Effect.same _ rfl _
    | some request => trivial
  case invokeLocked request =>
    unfold serverCode invokeLockedCode
    dsimp only
    split
    · trivial
    · trivial
    · split
      · exact Effect.same _ rfl _
      · exact Effect.same _ rfl (.invokeUnlock messageCreate)
  case workerGot answer =>
    unfold serverCode
    split <;> first | trivial | exact Effect.same _ rfl _
  case workerLocked task =>
    unfold serverCode workerLockedCode
    dsimp only
    split
    · split_ifs
      · exact Effect.same _ rfl .workerUnlock
      · exact Effect.same _ rfl (.workerApplied task)
    · trivial
  case workerApplied task =>
    unfold serverCode
    split_ifs
    · trivial
    · exact Effect.same _ rfl .workerUnlock
  -- one instruction, which leaves the tasks alone
  all_goals first | trivial | exact Effect.same _ rfl _

theorem effect_of_program {pc : ThreadPc} {d : Shared} {choice : ThreadChoice} {i : ServerInstr}
    (h : serverProgram pc d choice = some i) : Effect pc d i := by
  obtain ⟨-, ⟨⟩⟩ := Option.ite_none_left_eq_some.1 h
  exact serverCode_effect pc d choice

/-! ## The sharper typing -/

/-- The mutexes that the callers of the running function may hold. -/
def calledWith : ThreadPc → List Mutex
  | .getNext | .getNextTest | .getNextTake | .getNextUnlock _ => []
  | pc => contextAt pc

attribute [simp] calledWith

theorem serverCode_ok_calledWith (pc : ThreadPc) (d : Shared) (choice : ThreadChoice) :
    InstrOk Mutex.rank heldAt calledWith (KeepsLocks pc d) pc (serverCode pc d choice) := by
  cases pc
  case outside => exact ⟨start_ok _, List.nil_subset _, fun _ => ⟨rfl, List.nil_subset _⟩⟩
  case addTask opCodeAndArgs =>
    unfold serverCode addTaskCode
    dsimp only
    split
    · simp [InstrOk]
    · split <;> simp [InstrOk]
  case addTaskNode =>
    unfold serverCode
    split_ifs <;> simp [InstrOk]
  case getNextTest =>
    unfold serverCode getNextTestCode
    dsimp only
    split_ifs <;> simp [InstrOk]
  case getNextTake =>
    unfold serverCode getNextTakeCode
    dsimp only
    split_ifs with hdestroyed
    · intro hkeeps
      exact absurd (hdestroyed.symm.trans hkeeps) (by decide)
    · split <;> simp [InstrOk]
  case setResultStore =>
    unfold serverCode setResultStoreCode
    dsimp only
    split_ifs <;> simp [InstrOk]
  case invoke message => cases message <;> simp [serverCode, InstrOk]
  case invokeLocked =>
    unfold serverCode invokeLockedCode
    dsimp only
    split
    · simp [InstrOk]
    · simp [InstrOk]
    · split <;> simp [InstrOk]
  case workerGot answer =>
    unfold serverCode
    split <;> simp_all [InstrOk]
  case workerLocked =>
    unfold serverCode workerLockedCode
    dsimp only
    split
    · split_ifs <;> simp [InstrOk]
    · simp [InstrOk]
  case workerApplied =>
    unfold serverCode
    split_ifs <;> simp [InstrOk]
  -- one instruction, with one next position
  all_goals simp [serverCode, InstrOk, Mutex.rank]

def progressTyping : Typing serverProgram Mutex.rank KeepsLocks where
  held := heldAt
  context := calledWith
  nodup := by
    intro pc
    cases pc <;> simp
  ok := by
    intro pc d choice i hcode
    obtain ⟨-, ⟨⟩⟩ := Option.ite_none_left_eq_some.1 hcode
    exact serverCode_ok_calledWith pc d choice

/-! ## Runs -/

section Runs

variable {ι : Type} [DecidableEq ι] {s s' : System ι Mutex Shared ThreadPc ThreadAnswer}

/-- Tasks that were destroyed stay so. -/
theorem destroyed_step {a : Action ι ThreadChoice} (hstep : Locks.step serverProgram s a = some s')
    (h : s.data.tasks.destroyed = true) : s'.data.tasks.destroyed = true := by
  rcases step_cases hstep with ⟨choice, i, -, -, hcode, hexec⟩ | ⟨-, -, -, -, -, hdata, -⟩
  · rcases exec_data hexec with hdata | ⟨next, rfl⟩
    · rw [hdata]
      exact h
    · exact (effect_of_program hcode).1 h
  · rw [hdata]
    exact h

theorem progressTyping_init (ι : Type) : progressTyping.Inv (threadsInit ι) := by
  constructor
  · intro t m
    rw [Typing.holds_running rfl]
    simp [threadsInit, progressTyping]
  · intro t
    apply Typing.ThreadOk.running
    · intro m hm
      exact absurd hm (by simp)
    · trivial

/-- While the tasks are not destroyed, no instruction breaks the rules. -/
theorem progressTyping_of_run {actions : List (Action ι ThreadChoice)}
    (hrun : run (Locks.step serverProgram) (threadsInit ι) actions = some s)
    (hdestroyed : s.data.tasks.destroyed = false) : progressTyping.Inv s := by
  refine run_invariant (P := fun s => s.data.tasks.destroyed = false → progressTyping.Inv s)
    (fun s a s' h hstep hd => ?_) (fun _ => progressTyping_init ι) hrun hdestroyed
  have hbefore : s.data.tasks.destroyed = false := by
    by_contra hno
    rw [Bool.not_eq_false] at hno
    exact absurd (hd.symm.trans (destroyed_step hstep hno)) (by decide)
  refine (h hbefore).step ?_ hstep
  cases a with
  | wake t => trivial
  | step t choice =>
    show KeepsLocks (s.threads t).pc s.data
    unfold KeepsLocks
    split
    · exact hbefore
    · trivial

theorem threads_shape {actions : List (Action ι ThreadChoice)}
    (hrun : run (Locks.step serverProgram) (threadsInit ι) actions = some s) :
    ∀ t, Shape .outside .getNextTest (s.threads t) := by
  have hinit : ∀ t, Shape .outside .getNextTest ((threadsInit ι).threads t) := fun t =>
    ⟨⟨fun _ => rfl, fun f hf => by simp [threadsInit] at hf⟩, fun h => absurd rfl h⟩
  refine shape_of_run ?_ ?_ hinit hrun
  · intro d choice i hcode
    obtain ⟨-, ⟨⟩⟩ := Option.ite_none_left_eq_some.1 hcode
    exact ⟨_, rfl⟩
  · exact fun p d choice m next hcode => (effect_of_program hcode).2.1

/-- **No wake-up is lost.** In every run of any number of threads, a thread that sleeps in
`tasks_get_next` was signalled since it fell asleep, or the queue is empty. -/
theorem tasks_get_next_signalled {actions : List (Action ι ThreadChoice)}
    {s : Signalled ι Mutex Shared ThreadPc ThreadAnswer}
    (hrun : run (signalStep serverProgram broadcastsAt) ⟨threadsInit ι, fun _ => false⟩ actions
      = some s) {t : ι} {m : Mutex} (hasleep : (s.system.threads t).status = .asleep m)
    (hsignal : s.signalled t = false) : s.system.data.tasks.tasksQueueHead = [] := by
  refine sleepsIdle_of_run (fun d : Shared => d.tasks.tasksQueueHead = []) ?_ ?_ ?_ hrun t m
    hasleep hsignal
  · exact fun p d choice m next hcode => (effect_of_program hcode).2.2
  · exact fun p d choice d' next hcode => (effect_of_program hcode).2
  · exact fun t m h => absurd h (by simp [threadsInit])

omit [DecidableEq ι] in
/-- A thread that has a mutex is in a function, and does not sleep. -/
theorem active_of_owner (hinv : progressTyping.Inv s)
    (hshape : ∀ t, Shape .outside .getNextTest (s.threads t)) {m : Mutex} {t : ι}
    (howner : s.owner m = some t) :
    (s.threads t).pc ≠ .outside ∧ ∀ m', (s.threads t).status ≠ .asleep m' := by
  obtain ⟨hholds, hmissing⟩ := (hinv.owner t m).1 howner
  have hentry := (hinv.threads t).entry m
  constructor
  · intro hpc
    rw [hpc] at hholds hentry
    rcases hholds with hm | hm
    · exact absurd (hentry hm) (by simp [progressTyping])
    · exact absurd hm (by simp [progressTyping])
  · intro m' hasleep
    have hpc := (hshape t).waits (by simp [hasleep])
    have hlast := ((hinv.threads t).missing m' (by rw [hasleep]; rfl)).1
    rw [hpc] at hholds hentry hlast
    -- the mutex of the wait is the only one there is, and the thread has given it back
    obtain rfl : m' = .tasksQueueLock := List.mem_singleton.1 hlast
    rcases hholds with hm | hm
    · exact absurd (hentry hm) (by simp [progressTyping])
    · rw [List.mem_singleton.1 hm, hasleep] at hmissing
      exact hmissing rfl

/-- **The threads go on.** In every run in which the tasks are not destroyed and the process has
not exited, a thread inside a function sleeps for a task, or the chain of threads it waits for
ends, maybe at once, with one inside a function that can go on. -/
theorem server_threads_progress {actions : List (Action ι ThreadChoice)}
    (hrun : run (Locks.step serverProgram) (threadsInit ι) actions = some s)
    (hdestroyed : s.data.tasks.destroyed = false) (hexited : s.data.exited = false) {t : ι}
    (hinside : (s.threads t).pc ≠ .outside) :
    (∃ m, (s.threads t).status = .asleep m) ∨
      ∃ u choice s', Relation.ReflTransGen (Waits serverProgram s) t u ∧
        (s.threads u).pc ≠ .outside ∧
        Locks.step serverProgram s (.step u choice) = some s' := by
  have hinv := progressTyping_of_run hrun hdestroyed
  have hshape := threads_shape hrun
  by_cases hasleep : ∃ m, (s.threads t).status = .asleep m
  · exact Or.inl hasleep
  · have hcode (u : ι) : serverProgram (s.threads u).pc s.data ⟨.processTasks, true⟩
        = some (serverCode (s.threads u).pc s.data ⟨.processTasks, true⟩) :=
      if_neg (by simp [hexited])
    obtain ⟨u, hpath, hactive, hgoes⟩ := exists_unblocked 3
      (fun u => (s.threads u).pc ≠ .outside ∧ ∀ m, (s.threads u).status ≠ .asleep m)
      hinv.discipline.ordered (fun m => by cases m <;> decide)
      (fun m u => active_of_owner hinv hshape)
      (fun u hu hstuck => exists_owner_of_stuck hstuck hu.2
        (fun hnil => hu.1 ((hshape u).bottom.1 hnil)) (hcode u))
      ⟨hinside, not_exists.1 hasleep⟩
    refine Or.inr ⟨u, ?_⟩
    obtain ⟨choice, hchoice⟩ := not_forall.1 hgoes
    obtain ⟨s', hs'⟩ := Option.ne_none_iff_exists'.1 hchoice
    exact ⟨choice, s', hpath, hactive.1, hs'⟩

end Runs

/-- A put that threads add, or are asked for. -/
private def addedPut : Message :=
  ⟨opPut, .entry (some ⟨some ⟨⟨[107], nul_notMem_k⟩⟩, some ⟨1, some [118], length_v⟩⟩)⟩

private def steps (t n : ℕ) (call : ThreadCall) : List (Action ℕ ThreadChoice) :=
  List.replicate n (.step t ⟨call, true⟩)

/-- Threads `1` and `2` sleep, thread `0` adds a task, and thread `1` wakes up, executes it and
sleeps again. -/
def oneTaskDone : List (Action ℕ ThreadChoice) :=
  steps 1 4 .processTasks ++ steps 2 4 .processTasks ++
    steps 0 6 (.tasksAddTask (some addedPut)) ++ .wake 1 :: steps 1 18 .processTasks

/-- Thread `2` is still to wake up for a task that is gone; thread `1` has nothing to do. -/
theorem tasks_get_next_signalled_done : ∃ s, s ∈ run (signalStep serverProgram broadcastsAt)
      ⟨threadsInit ℕ, fun _ => false⟩ oneTaskDone ∧
    s.signalled 2 = true ∧ s.system.data.tasks.tasksResultsListHead = [⟨0, .successful⟩] ∧
    (s.system.threads 1).status = .asleep .tasksQueueLock ∧
    s.system.data.tasks.tasksQueueHead = [] := by
  refine ⟨_, rfl, rfl, rfl, rfl, ?_⟩
  exact @tasks_get_next_signalled ℕ _ oneTaskDone _ rfl 1 _ rfl rfl

/-- Thread `1` is in `tasks_get_next`, thread `2` is about to queue a write, and thread `0` is
about to lock the tree for another. -/
def threeRequests : List (Action ℕ ThreadChoice) :=
  steps 1 3 .processTasks ++ steps 2 5 (.invoke (some addedPut)) ++
    steps 0 1 (.invoke (some addedPut))

/-- Thread `0` waits for thread `2`, which waits for thread `1`. -/
theorem server_threads_progress_chain : ∃ s,
    s ∈ run (Locks.step serverProgram) (threadsInit ℕ) threeRequests ∧
    Waits serverProgram s 0 2 ∧ Waits serverProgram s 2 1 ∧
    ((∃ m, (s.threads 0).status = .asleep m) ∨
      ∃ u choice s', Relation.ReflTransGen (Waits serverProgram s) 0 u ∧
        (s.threads u).pc ≠ .outside ∧
        Locks.step serverProgram s (.step u choice) = some s') := by
  refine ⟨_, rfl, ⟨.treeLock, Or.inl ⟨rfl, ⟨.processTasks, true⟩, _, rfl⟩, rfl⟩,
    ⟨.tasksQueueLock, Or.inl ⟨rfl, ⟨.processTasks, true⟩, _, rfl⟩, rfl⟩, ?_⟩
  exact @server_threads_progress ℕ _ _ threeRequests rfl rfl rfl 0 (by simp [ThreadCall.start])

end ReplicatedTree
