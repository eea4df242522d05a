import ReplicatedTree.ServerThreads

/-!
# The lock discipline of the server

A typing of the server's program: at each position the mutexes that the function has taken, and
those its callers may hold. The functions of `tasks-private.c` are called with the tree's lock or
without it, those of `tree_skel.c` without any mutex.

One instruction breaks the rules. `tasks_get_next` returns with the lock of the queue when it finds
the flag set that `tasks_destroy` sets; the typing allows that instruction only while the flag is
not set, and the discipline holds in the runs where it is carried out only then.
-/

namespace ReplicatedTree

open Locks Transition

/-! ## The typing -/

/-- The mutexes that the running function has taken, the last one first. -/
def heldAt : ThreadPc → List Mutex
  | .addTaskQueue _ | .addTaskUnlock _ => [.tasksQueueLock]
  | .getNextTest | .getNextTake | .getNextUnlock _ => [.tasksQueueLock]
  | .setResultLock _ _ | .setResultUnlockQueue _ => [.tasksQueueLock]
  | .setResultStore _ _ | .setResultUnlockResults _ => [.tasksResultsListLock, .tasksQueueLock]
  | .getResultScan _ | .getResultUnlock _ => [.tasksResultsListLock]
  | .invokeLocked _ | .invokeUnlock _ => [.treeLock]
  | .workerLocked _ | .workerApplied _ | .workerUnlock => [.treeLock]
  | _ => []

/-- The mutexes that the callers of the running function may hold. -/
def contextAt : ThreadPc → List Mutex
  | .returning _ => [.treeLock, .tasksQueueLock, .tasksResultsListLock]
  | .outside | .destroy | .destroyQueue | .destroyResults => []
  | .invoke _ | .invokeLocked _ | .invokeUnlock _ => []
  | .worker | .workerGot _ | .workerLocked _ | .workerApplied _ | .workerUnlock => []
  -- the functions on tasks
  | _ => [.treeLock]

attribute [simp] heldAt contextAt

/-- Whether a computation keeps to the rules: after its loop, `tasks_get_next` must not find that
the tasks were destroyed. -/
def KeepsLocks : ThreadPc → Shared → Prop
  | .getNextTake, d => d.tasks.destroyed = false
  | _, _ => True

instance instDecidableKeepsLocks : (pc : ThreadPc) → (d : Shared) →
    Decidable (KeepsLocks pc d) := by
  intro pc d
  unfold KeepsLocks
  split <;> infer_instance

/-- The rules at a position of the server's program. -/
abbrev CodeOk (pc : ThreadPc) (d : Shared) : ServerInstr → Prop :=
  InstrOk Mutex.rank heldAt contextAt (KeepsLocks pc d) pc

variable (d : Shared) (ok : Bool)

theorem addTaskCode_ok (opCodeAndArgs : Option Message) :
    CodeOk (.addTask opCodeAndArgs) d (addTaskCode d ok opCodeAndArgs) := by
  unfold addTaskCode
  split
  · simp [InstrOk]
  · split <;> simp [InstrOk]

theorem getNextTestCode_ok : CodeOk .getNextTest d (getNextTestCode d) := by
  unfold getNextTestCode
  split_ifs
  · simp [InstrOk, Mutex.rank]
  · simp [InstrOk]

/-- Where the flag is not set, `tasks_get_next` goes on to its unlock. -/
theorem getNextTakeCode_ok : CodeOk .getNextTake d (getNextTakeCode d) := by
  unfold getNextTakeCode
  split_ifs with hdestroyed
  · intro hkeeps
    exact absurd (hdestroyed.symm.trans hkeeps) (by decide)
  · split <;> simp [InstrOk]

theorem setResultStoreCode_ok (taskId : ℤ) (taskResult : TaskResult) :
    CodeOk (.setResultStore taskId taskResult) d (setResultStoreCode d ok taskId taskResult) := by
  unfold setResultStoreCode
  dsimp only
  split_ifs <;> simp [InstrOk]

theorem invokeLockedCode_ok (request : Message) :
    CodeOk (.invokeLocked request) d (invokeLockedCode d request) := by
  unfold invokeLockedCode
  split
  · simp [InstrOk]
  · simp [InstrOk]
  · split <;> simp [InstrOk]

theorem workerLockedCode_ok (task : TaskT) :
    CodeOk (.workerLocked task) d (workerLockedCode d task) := by
  unfold workerLockedCode
  split
  · split_ifs <;> simp [InstrOk]
  · simp [InstrOk]

theorem start_ok (call : ThreadCall) : heldAt call.start = [] := by
  cases call <;> rfl

/-- Every instruction of the server keeps to the rules, apart from the return in `tasks_get_next`
that `KeepsLocks` leaves out. -/
theorem serverCode_ok (pc : ThreadPc) (choice : ThreadChoice) :
    CodeOk pc d (serverCode pc d choice) := by
  cases pc
  case outside => exact ⟨start_ok _, List.nil_subset _, fun _ => ⟨rfl, List.nil_subset _⟩⟩
  case addTask opCodeAndArgs => exact addTaskCode_ok d choice.ok opCodeAndArgs
  case addTaskNode =>
    unfold serverCode
    split_ifs <;> simp [InstrOk]
  case getNextTest => exact getNextTestCode_ok d
  case getNextTake => exact getNextTakeCode_ok d
  case setResultStore taskId taskResult =>
    exact setResultStoreCode_ok d choice.ok taskId taskResult
  case invoke message => cases message <;> simp [serverCode, InstrOk]
  case invokeLocked request => exact invokeLockedCode_ok d request
  case workerGot answer =>
    unfold serverCode
    split <;> simp_all [InstrOk]
  case workerLocked task => exact workerLockedCode_ok d task
  case workerApplied task =>
    unfold serverCode
    split_ifs <;> simp [InstrOk]
  -- one instruction, with one next position
  all_goals simp [serverCode, InstrOk, Mutex.rank]

theorem nodup_held (pc : ThreadPc) : (heldAt pc ++ contextAt pc).Nodup := by
  cases pc <;> simp

/-- The typing of the server's program. -/
def serverTyping : Typing serverProgram Mutex.rank KeepsLocks where
  held := heldAt
  context := contextAt
  nodup := nodup_held
  ok := by
    intro pc d choice i hcode
    unfold serverProgram at hcode
    split_ifs at hcode
    obtain rfl := Option.some.inj hcode
    exact serverCode_ok d pc choice

theorem threadsInit_inv (ι : Type) : serverTyping.Inv (threadsInit ι) := by
  constructor
  · intro t m
    rw [Typing.holds_running rfl]
    simp [threadsInit, serverTyping]
  · intro t
    apply Typing.ThreadOk.running
    · intro m hm
      exact absurd hm (by simp)
    · trivial

/-! ## Runs -/

section Runs

variable {ι : Type} [DecidableEq ι]

/-- **Lock discipline**: in every run in which no thread leaves the loop of `tasks_get_next` with
the tasks destroyed, each function returns with the mutexes its caller held, no thread asks for a
mutex it holds, mutexes are taken in the order of `Mutex.rank`, and no threads wait for each other
in a cycle. The mutexes are taken to stay usable after `tasks_destroy`. -/
theorem lock_discipline {actions : List (Action ι ThreadChoice)}
    {s : System ι Mutex Shared ThreadPc ThreadAnswer}
    (hkeeps : StepsMeet (Locks.step serverProgram) (Typing.StepAllowed KeepsLocks)
      (threadsInit ι) actions)
    (hrun : run (Locks.step serverProgram) (threadsInit ι) actions = some s) :
    Discipline serverProgram Mutex.rank s :=
  Typing.discipline_of_run (threadsInit_inv ι) hkeeps hrun

/-- The condition leaves out no more than it must: a thread that finds the tasks destroyed after
its loop is about to return with the lock of the queue, which its caller did not hold. -/
theorem getNextTake_breaks_discipline {s s' : System ι Mutex Shared ThreadPc ThreadAnswer} {t : ι}
    {choice : ThreadChoice} (hinv : serverTyping.Inv s) (hrunning : (s.threads t).status = .running)
    (hpc : (s.threads t).pc = .getNextTake) (hdestroyed : s.data.tasks.destroyed = true)
    (hstep : Locks.step serverProgram s (.step t choice) = some s') :
    ¬ Discipline serverProgram Mutex.rank s' := by
  have hheld : Mutex.tasksQueueLock ∈ serverTyping.held (s.threads t).pc := by
    rw [hpc]
    exact List.mem_singleton_self _
  have howner : s.owner .tasksQueueLock = some t := by
    rw [hinv.owner, Typing.holds_running hrunning]
    exact Or.inr hheld
  have hentry := (hinv.threads t).entry_eq_false hheld
  have hexited : s.data.exited = false := by
    by_contra hexited
    rw [Bool.not_eq_false] at hexited
    simp [Locks.step, hrunning, serverProgram, hexited] at hstep
  have hcode : serverCode .getNextTake s.data choice
      = .compute s.data (.returning (.task none)) := by
    simp [serverCode, getNextTakeCode, hdestroyed]
  simp only [Locks.step, hrunning, hpc, serverProgram, hexited, Bool.false_eq_true, if_false, hcode,
    Option.bind_some, exec, Option.some.injEq] at hstep
  subst hstep
  intro hdiscipline
  apply hentry
  have hbalanced := hdiscipline.balanced t ⟨?_, choice, .task none, ?_⟩ .tasksQueueLock
  · simpa using hbalanced.1 howner
  · simp
  · simp [serverProgram, hexited, serverCode]

end Runs

/-- The next instruction of a thread. -/
private def next (t : ℕ) : Action ℕ ThreadChoice := .step t ⟨.processTasks, true⟩

/-- Thread `1` processes tasks, and sleeps since there are none. -/
def workerSleeps : List (Action ℕ ThreadChoice) := List.replicate 4 (next 1)

/-- Thread `0` adds a task and thread `1` takes it. -/
def handOverTask : List (Action ℕ ThreadChoice) :=
  let request : Message := ⟨opDel, .key ⟨[100], by decide⟩⟩
  .step 0 ⟨.tasksAddTask (some request), true⟩ :: List.replicate 5 (next 0) ++ .wake 1 ::
    List.replicate 5 (next 1)

theorem lock_discipline_task : ∃ s,
    run (Locks.step serverProgram) (threadsInit ℕ) (workerSleeps ++ handOverTask) = some s ∧
    Discipline serverProgram Mutex.rank s := by
  have hkeeps : StepsMeet (Locks.step serverProgram) (Typing.StepAllowed KeepsLocks)
      (threadsInit ℕ) (workerSleeps ++ handOverTask) := by decide +kernel
  exact ⟨_, rfl, lock_discipline hkeeps rfl⟩

/-- Thread `0` destroys the tasks, and thread `1` finds that when it wakes up. -/
def destroyTasks : List (Action ℕ ThreadChoice) :=
  .step 0 ⟨.tasksDestroy, true⟩ :: List.replicate 3 (next 0) ++ .wake 1 ::
    List.replicate 3 (next 1)

/-- Woken after the tasks were destroyed, `tasks_get_next` is about to return with the lock of the
queue. -/
theorem lock_discipline_destroyed : ∃ s,
    run (Locks.step serverProgram) (threadsInit ℕ) (workerSleeps ++ destroyTasks) = some s ∧
    Returns serverProgram s 1 ∧ s.owner .tasksQueueLock = some 1 ∧
    (s.threads 1).entry .tasksQueueLock = false ∧ ¬ Discipline serverProgram Mutex.rank s := by
  have hreach : ∃ s,
      run (Locks.step serverProgram) (threadsInit ℕ) (workerSleeps ++ destroyTasks) = some s ∧
      Returns serverProgram s 1 ∧ s.owner .tasksQueueLock = some 1 ∧
      (s.threads 1).entry .tasksQueueLock = false := by
    refine ⟨_, rfl, ⟨rfl, ⟨.processTasks, true⟩, .task none, rfl⟩, rfl, rfl⟩
  obtain ⟨s, hrun, hreturns, howner, hentry⟩ := hreach
  refine ⟨s, hrun, hreturns, howner, hentry, fun hdiscipline => ?_⟩
  have := (hdiscipline.balanced 1 hreturns _).1 howner
  rw [hentry] at this
  exact Bool.false_ne_true this

end ReplicatedTree
