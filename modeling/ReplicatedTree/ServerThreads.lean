import ReplicatedTree.Lib.Locks
import ReplicatedTree.TreeSkel

/-!
# The server's threads and their mutexes (`tasks-private.c`, `tree_skel.c`)

The functions that use the three mutexes, as one program: a position is a place in a function
with its local variables, and an instruction takes or gives back one mutex, or does what lies
between two of them. Any number of threads call these functions, each one as often as it likes.

A choice picks the function a thread calls next, and says whether `malloc`, or the replication of
a task, succeeds. `tasks_destroy` runs in three steps, without a mutex as in the code; what it
does to the mutexes and condition variables is left out, so that they can be used afterwards.
-/

namespace ReplicatedTree

open Locks

inductive Mutex
  | treeLock
  | tasksQueueLock
  | tasksResultsListLock
deriving DecidableEq

/-- The order in which the mutexes are to be taken. -/
def Mutex.rank : Mutex → ℕ
  | .treeLock => 0
  | .tasksQueueLock => 1
  | .tasksResultsListLock => 2

/-- What the threads share. -/
structure Shared where
  tree : TreeT
  tasks : TasksState
  /-- whether `exit` was called, or the process was killed by a faulty access -/
  exited : Bool

/-- What the functions return, and for `invoke` the response it stores. -/
inductive ThreadAnswer
  | none
  | int (result : ℤ)
  | task (task : Option TaskT)
  | result (taskResult : TaskResult)
  | response (response : Message)

inductive ThreadCall
  | tasksAddTask (opCodeAndArgs : Option Message)
  | tasksGetNext
  | tasksSetResult (taskId : ℤ) (taskResult : TaskResult)
  | tasksGetResult (taskId : ℤ)
  | tasksDestroy
  | invoke (message : Option Message)
  | processTasks

structure ThreadChoice where
  call : ThreadCall
  ok : Bool

/-- Where a thread stands. -/
inductive ThreadPc
  /-- between two calls -/
  | outside
  | returning (answer : ThreadAnswer)
  /-- `tasks_add_task` -/
  | addTask (opCodeAndArgs : Option Message)
  | addTaskNode (task : TaskT)
  | addTaskLock (task : TaskT)
  | addTaskQueue (task : TaskT)
  | addTaskUnlock (task : TaskT)
  /-- `tasks_get_next` -/
  | getNext
  | getNextTest
  | getNextTake
  | getNextUnlock (task : TaskT)
  /-- `tasks_set_result` -/
  | setResult (taskId : ℤ) (taskResult : TaskResult)
  | setResultLock (taskId : ℤ) (taskResult : TaskResult)
  | setResultStore (taskId : ℤ) (taskResult : TaskResult)
  | setResultUnlockResults (result : ℤ)
  | setResultUnlockQueue (result : ℤ)
  /-- `tasks_get_result` -/
  | getResult (taskId : ℤ)
  | getResultScan (taskId : ℤ)
  | getResultUnlock (taskResult : TaskResult)
  /-- `tasks_destroy` -/
  | destroy
  | destroyQueue
  | destroyResults
  /-- `invoke` -/
  | invoke (message : Option Message)
  | invokeLocked (request : Message)
  | invokeUnlock (response : Message)
  /-- `process_tasks` -/
  | worker
  | workerGot (answer : ThreadAnswer)
  | workerLocked (task : TaskT)
  | workerApplied (task : TaskT)
  | workerUnlock

/-- The function that a thread calls. -/
def ThreadCall.start : ThreadCall → ThreadPc
  | .tasksAddTask opCodeAndArgs => .addTask opCodeAndArgs
  | .tasksGetNext => .getNext
  | .tasksSetResult taskId taskResult => .setResult taskId taskResult
  | .tasksGetResult taskId => .getResult taskId
  | .tasksDestroy => .destroy
  | .invoke message => .invoke message
  | .processTasks => .worker

abbrev ServerInstr := Instr Mutex Shared ThreadPc ThreadAnswer

/-! ## The functions -/

/-- `tasks_add_task`, up to the lock: `_task_create` takes the id without it. -/
def addTaskCode (d : Shared) (ok : Bool) (opCodeAndArgs : Option Message) : ServerInstr :=
  match opCodeAndArgs with
  | none => .compute d (.returning (.int (-1)))
  | some msg =>
    match if ok then taskCreate d.tasks msg else none with
    | none => .compute d (.returning (.int (-1)))
    | some (tasks, task) => .compute { d with tasks := tasks } (.addTaskNode task)

/-- The loop in `tasks_get_next`. -/
def getNextTestCode (d : Shared) : ServerInstr :=
  if d.tasks.destroyed = false ∧ d.tasks.tasksQueueHead = [] then
    .wait .tasksQueueLock .getNextTest
  else .compute d .getNextTake

/-- After the loop. -/
def getNextTakeCode (d : Shared) : ServerInstr :=
  -- the return path without `_tasks_queue_unlock`
  if d.tasks.destroyed then .compute d (.returning (.task none))
  else
    match d.tasks.tasksQueueHead with
    | [] => .compute { d with exited := true } .getNextTake
    | task :: _ => .compute d (.getNextUnlock task)

/-- The part of `tasks_set_result` under both locks; its three failures return the same way. -/
def setResultStoreCode (d : Shared) (ok : Bool) (taskId : ℤ) (taskResult : TaskResult) :
    ServerInstr :=
  let (tasks, result) := tasksSetResult d.tasks taskId taskResult
  if result = 0 ∧ ok = false then .compute d (.setResultUnlockResults (-1))
  else .compute { d with tasks := tasks } (.setResultUnlockResults result)

/-- The response of `invoke_write_operation`. -/
def writeAnswer (request : Message) : ThreadAnswer → Message
  | .int taskId => writeResponse request taskId
  | _ => messageCreate

/-- The response of `invoke_verify`. -/
def verifyAnswer (request : Message) : ThreadAnswer → Message
  | .result taskResult => ⟨request.opCode + 1, .intResult taskResult.toInt⟩
  | _ => messageCreate

/-- `invoke2`, under the lock. -/
def invokeLockedCode (d : Shared) (request : Message) : ServerInstr :=
  match request.handler with
  | .writeOperation =>
    .call (.addTask (some request)) fun answer => .invokeUnlock (writeAnswer request answer)
  | .verify opId =>
    .call (.getResult opId) fun answer => .invokeUnlock (verifyAnswer request answer)
  | _ =>
    match invokeQuery d.tree request with
    | some response => .compute d (.invokeUnlock response)
    | none => .compute { d with exited := true } (.invokeUnlock messageCreate)

/-- The branches of `process_tasks`. -/
def workerLockedCode (d : Shared) (task : TaskT) : ServerInstr :=
  match executeWrite d.tree task.opCodeAndArgs with
  | some (tree, result) =>
    if result < 0 then .compute { d with tree := tree, exited := true } .workerUnlock
    else .compute { d with tree := tree } (.workerApplied task)
  | none => .call (.setResult task.taskId .failed) fun _ => .workerUnlock

def serverCode (pc : ThreadPc) (d : Shared) (choice : ThreadChoice) : ServerInstr :=
  match pc with
  | .outside => .call choice.call.start fun _ => .outside
  | .returning answer => .ret answer
  | .addTask opCodeAndArgs => addTaskCode d choice.ok opCodeAndArgs
  | .addTaskNode task =>
    .compute d (if choice.ok then .addTaskLock task else .returning (.int (-1)))
  | .addTaskLock task => .lock .tasksQueueLock (.addTaskQueue task)
  | .addTaskQueue task =>
    .compute { d with tasks := tasksEnqueue d.tasks task } (.addTaskUnlock task)
  | .addTaskUnlock task => .unlock .tasksQueueLock (.returning (.int task.taskId))
  | .getNext => .lock .tasksQueueLock .getNextTest
  | .getNextTest => getNextTestCode d
  | .getNextTake => getNextTakeCode d
  | .getNextUnlock task => .unlock .tasksQueueLock (.returning (.task (some task)))
  | .setResult taskId taskResult => .lock .tasksQueueLock (.setResultLock taskId taskResult)
  | .setResultLock taskId taskResult =>
    .lock .tasksResultsListLock (.setResultStore taskId taskResult)
  | .setResultStore taskId taskResult => setResultStoreCode d choice.ok taskId taskResult
  | .setResultUnlockResults result => .unlock .tasksResultsListLock (.setResultUnlockQueue result)
  | .setResultUnlockQueue result => .unlock .tasksQueueLock (.returning (.int result))
  | .getResult taskId => .lock .tasksResultsListLock (.getResultScan taskId)
  | .getResultScan taskId => .compute d (.getResultUnlock (tasksGetResult d.tasks taskId))
  | .getResultUnlock taskResult => .unlock .tasksResultsListLock (.returning (.result taskResult))
  | .destroy =>
    .compute { d with tasks := { d.tasks with lastTaskIdAssigned := -1, destroyed := true } }
      .destroyQueue
  | .destroyQueue =>
    .compute { d with tasks := { d.tasks with tasksQueueHead := [] } } .destroyResults
  | .destroyResults =>
    .compute { d with tasks := { d.tasks with tasksResultsListHead := [] } } (.returning .none)
  | .invoke none => .compute d (.returning (.int (-1)))
  | .invoke (some request) => .lock .treeLock (.invokeLocked request)
  | .invokeLocked request => invokeLockedCode d request
  | .invokeUnlock response => .unlock .treeLock (.returning (.response (finishResponse response)))
  | .worker => .call .getNext .workerGot
  | .workerGot (.task (some task)) => .lock .treeLock (.workerLocked task)
  | .workerGot _ => .compute d (.returning .none)
  | .workerLocked task => workerLockedCode d task
  | .workerApplied task =>
    if choice.ok then .call (.setResult task.taskId .successful) fun _ => .workerUnlock
    else .compute { d with exited := true } .workerUnlock
  | .workerUnlock => .unlock .treeLock .worker

/-- Nothing runs after the process has exited. -/
def serverProgram : Program Mutex Shared ThreadPc ThreadAnswer ThreadChoice :=
  fun pc d choice => if d.exited then none else some (serverCode pc d choice)

/-- The threads `ι` of a server after `tree_skel_init`. -/
def threadsInit (ι : Type) : System ι Mutex Shared ThreadPc ThreadAnswer where
  data := ⟨treeCreate, tasksInit, false⟩
  owner := fun _ => none
  threads := fun _ => ⟨.outside, .running, fun _ => false, []⟩

end ReplicatedTree
