import ReplicatedTree.Message

/-!
# The queue of tasks (`tasks-private.c`)

The module's variables are the fields of `TasksState`. Both linked lists start at their
head: the queue with the oldest task, the results with the newest. A task id is an `int`
that counts up; the model has no largest `int`, which the code does not check for either.

Mutexes make each function one atomic call, so a call is a function from the state to the
state and the value returned.
-/

namespace ReplicatedTree

/-- `struct task_t`. -/
structure TaskT where
  taskId : ℤ
  opCodeAndArgs : Message
deriving DecidableEq

/-- `enum TaskResult`. -/
inductive TaskResult
  | successful
  | notExecuted
  | failed
deriving DecidableEq

def TaskResult.toInt : TaskResult → ℤ
  | .successful => 1
  | .notExecuted => 0
  | .failed => -1

/-- `struct task_result_list_node_t`, without its link. -/
structure TaskResultNode where
  taskId : ℤ
  taskResult : TaskResult
deriving DecidableEq

structure TasksState where
  lastTaskIdAssigned : ℤ
  tasksQueueHead : List TaskT
  tasksResultsListHead : List TaskResultNode
  destroyed : Bool
deriving DecidableEq

def tasksInit : TasksState := ⟨-1, [], [], false⟩

/-- `_task_create`. The id is taken only once the message is copied. -/
def taskCreate (st : TasksState) (opCodeAndArgs : Message) : Option (TasksState × TaskT) :=
  (messageDup opCodeAndArgs).map fun copied =>
    ({ st with lastTaskIdAssigned := st.lastTaskIdAssigned + 1 },
      ⟨st.lastTaskIdAssigned + 1, copied⟩)

/-- The part of `tasks_add_task` under the lock of the queue. -/
def tasksEnqueue (st : TasksState) (task : TaskT) : TasksState :=
  { st with tasksQueueHead := st.tasksQueueHead ++ [task] }

def tasksAddTask (st : TasksState) (opCodeAndArgs : Option Message) : TasksState × ℤ :=
  match opCodeAndArgs with
  | none => (st, -1)
  | some msg =>
    match taskCreate st msg with
    | none => (st, -1)
    | some (st, task) => (tasksEnqueue st task, task.taskId)

/-- No result while the call blocks. -/
def tasksGetNext (st : TasksState) : Option (Option TaskT) :=
  if st.destroyed then some none
  else
    match st.tasksQueueHead with
    | [] => none
    | task :: _ => some (some task)

def tasksSetResult (st : TasksState) (taskId : ℤ) (taskResult : TaskResult) : TasksState × ℤ :=
  match st.tasksQueueHead with
  | [] => (st, -1)
  | task :: next =>
    if task.taskId ≠ taskId then (st, -1)
    else if taskResult = .notExecuted then (st, -1)
    else
      ({ st with
          tasksResultsListHead := ⟨taskId, taskResult⟩ :: st.tasksResultsListHead
          tasksQueueHead := next }, 0)

/-- The loop of `tasks_get_result`, which stops at the first smaller id. -/
def tasksResultsScan (taskId : ℤ) : List TaskResultNode → TaskResult
  | [] => .notExecuted
  | node :: previous =>
    if node.taskId ≥ taskId then
      if node.taskId = taskId then node.taskResult else tasksResultsScan taskId previous
    else .notExecuted

def tasksGetResult (st : TasksState) (taskId : ℤ) : TaskResult :=
  tasksResultsScan taskId st.tasksResultsListHead

/-- `tasks_destroy`, which does not ask what state the module is in. -/
def tasksDestroy : TasksState := ⟨-1, [], [], true⟩

/-! ## Calls -/

inductive TasksCall
  | addTask (opCodeAndArgs : Option { m : Message // m.Wf })
  | getNext
  | setResult (taskId : ℤ) (taskResult : TaskResult)
  | getResult (taskId : ℤ)

/-- What a call returns. -/
inductive TasksAnswer
  | int (result : ℤ)
  | task (task : Option TaskT)
  | result (taskResult : TaskResult)
deriving DecidableEq

/-- A call with its answer; none for a `tasks_get_next` that blocks. -/
def tasksCall (st : TasksState) : TasksCall → Option (TasksState × TasksAnswer)
  | .addTask msg =>
    let (st, id) := tasksAddTask st (msg.map Subtype.val)
    some (st, .int id)
  | .getNext => (tasksGetNext st).map fun task => (st, .task task)
  | .setResult taskId taskResult =>
    let (st, r) := tasksSetResult st taskId taskResult
    some (st, .int r)
  | .getResult taskId => some (st, .result (tasksGetResult st taskId))

end ReplicatedTree
