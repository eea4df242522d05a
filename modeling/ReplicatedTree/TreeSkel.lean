import ReplicatedTree.Tasks
import ReplicatedTree.Tree

/-!
# The server's skeleton (`tree_skel.c`)

A server runs two threads on one state: the request thread, which calls `invoke` for one
request after another, and the worker, which runs `process_tasks`. `ServerState` holds the
tree, the task module, the owner of `tree_lock` and where each thread stands; an action is
one access of one thread to the shared state, so every list of actions that `serverStep`
admits is one interleaving.

`replicate_to_backup_server` does not touch this state. The action `replicate` carries what
it answered.
-/

namespace ReplicatedTree

/-! ## Read operations -/

/-- The handlers of `invoke2`. -/
inductive Handler
  | treeSize
  | treeHeight
  | treeGet (key : CString)
  | treeGetKeys
  | writeOperation
  | verify (opId : ℤ)
  | none
deriving DecidableEq

/-- The handler `invoke2` picks. The operation codes differ from each other, so the order
of the tests is free. -/
def Message.handler (request : Message) : Handler :=
  if request.opCode = opSize then .treeSize
  else if request.opCode = opHeight then .treeHeight
  else if request.opCode = opGetKeys then .treeGetKeys
  else
    match request.content with
    | .key key =>
      if request.opCode = opDel then .writeOperation
      else if request.opCode = opGet then .treeGet key
      else .none
    | .entry _ => if request.opCode = opPut then .writeOperation else .none
    | .opId opId => if request.opCode = opVerify then .verify opId else .none
    | _ => .none

def invokeTreeSize (tree : TreeT) (request : Message) : Message :=
  ⟨request.opCode + 1, .intResult (treeSize tree)⟩

def invokeTreeHeight (tree : TreeT) (request : Message) : Message :=
  ⟨request.opCode + 1, .intResult (treeHeight tree)⟩

def invokeTreeGet (tree : TreeT) (request : Message) (key : CString) : Message :=
  match treeGet tree (some key) with
  | some value => ⟨request.opCode + 1, .value (dataToMsg (some value))⟩
  | none => ⟨opError, .notSet⟩

/-- No response if `tree_get_keys` makes a faulty access. -/
def invokeTreeGetKeys (tree : TreeT) (request : Message) : Option Message :=
  (treeGetKeys tree).map fun keys => ⟨request.opCode + 1, .keys (keysToMsg (some keys))⟩

def invokeVerify (tasks : TasksState) (request : Message) (opId : ℤ) : Message :=
  ⟨request.opCode + 1, .intResult (tasksGetResult tasks opId).toInt⟩

/-- The end of `invoke_write_operation`. -/
def writeResponse (request : Message) (taskId : ℤ) : Message :=
  ⟨request.opCode + 1, .opId taskId⟩

/-- The handlers that read the tree; `OP_BAD` stays in the response when no handler fills
it. -/
def invokeQuery (tree : TreeT) (request : Message) : Option Message :=
  match request.handler with
  | .treeSize => some (invokeTreeSize tree request)
  | .treeHeight => some (invokeTreeHeight tree request)
  | .treeGet key => some (invokeTreeGet tree request key)
  | .treeGetKeys => invokeTreeGetKeys tree request
  | _ => some messageCreate

/-- The handlers that do not write. -/
def invokeRead (tree : TreeT) (tasks : TasksState) (request : Message) : Option Message :=
  match request.handler with
  | .verify opId => some (invokeVerify tasks request opId)
  | _ => invokeQuery tree request

/-- What `invoke` does with the response of `invoke2`. -/
def finishResponse (response : Message) : Message :=
  if response.opCode = opBad then ⟨opError, .intResult (-1)⟩ else response

/-! ## Write operations -/

def processTreeDel (tree : TreeT) (key : CString) : TreeT × ℤ := treeDel tree (some key)

def processTreePut (tree : TreeT) (entry : Option EntryMessage) : TreeT × ℤ :=
  match msgToEntry entry with
  | none => (tree, -1)
  | some entry => treePut tree entry.key entry.value

/-- The branches of `process_tasks`; none for the one that cannot handle the task. -/
def executeWrite (tree : TreeT) (msg : Message) : Option (TreeT × ℤ) :=
  match msg.content with
  | .key key => if msg.opCode = opDel then some (processTreeDel tree key) else none
  | .entry entry => if msg.opCode = opPut then some (processTreePut tree entry) else none
  | _ => none

/-! ## The two threads -/

inductive Thread
  | request
  | worker
deriving DecidableEq

/-- Where the request thread stands. -/
inductive RequestPc
  /-- between two requests -/
  | idle
  /-- in `invoke2`, with the lock -/
  | locked (request : Message)
  /-- in `tasks_add_task`, with a new task that is not queued yet -/
  | created (request : Message) (task : TaskT)
  /-- at the end of `invoke2`, with a response -/
  | answered (request response : Message)
deriving DecidableEq

/-- Where the worker stands. -/
inductive WorkerPc
  /-- at `tasks_get_next` -/
  | waiting
  /-- has the head of the queue, but not the lock -/
  | peeked (task : TaskT)
  /-- has the lock -/
  | locked (task : TaskT)
  /-- has changed the tree -/
  | applied (task : TaskT)
  /-- has replicated the task -/
  | replicated (task : TaskT)
  /-- in the branch for tasks of another kind -/
  | cannotHandle (task : TaskT)
  /-- has set the result -/
  | recorded
  /-- has returned -/
  | stopped
deriving DecidableEq

structure ServerState where
  tree : TreeT
  tasks : TasksState
  /-- the owner of `tree_lock` -/
  treeLock : Option Thread
  request : RequestPc
  worker : WorkerPc
  /-- whether `exit` was called, or the process was killed by a faulty access -/
  exited : Bool
  /-- the requests answered so far, oldest first, with their responses -/
  answers : List (Message × Message)
deriving DecidableEq

def treeSkelInit : ServerState where
  tree := treeCreate
  tasks := tasksInit
  treeLock := none
  request := .idle
  worker := .waiting
  exited := false
  answers := []

/-- A request that was decoded. -/
abbrev Request := { m : Message // m.Wf ∧ m.content.Known }

inductive ServerAction
  /-- `invoke` takes the lock for a request -/
  | lockRequest (request : Request)
  /-- the handler reads, or creates a task -/
  | handle
  /-- the new task is queued -/
  | enqueue
  /-- `invoke` releases the lock and answers -/
  | unlockRequest
  /-- `tasks_get_next` returns -/
  | getNext
  /-- the worker takes the lock -/
  | lockTask
  /-- `tree_del` or `tree_put` -/
  | execute
  /-- `replicate_to_backup_server` returns 0, or -1 -/
  | replicate (ok : Bool)
  /-- `tasks_set_result` -/
  | setResult
  /-- the worker releases the lock -/
  | unlockTask

namespace ServerState

def lockRequest (s : ServerState) (request : Request) : Option ServerState :=
  match s.request, s.treeLock with
  | .idle, none => some { s with treeLock := some .request, request := .locked request.1 }
  | _, _ => none

def handle (s : ServerState) : Option ServerState :=
  match s.request with
  | .locked request =>
    if request.handler = .writeOperation then
      match taskCreate s.tasks request with
      | some (tasks, task) => some { s with tasks := tasks, request := .created request task }
      | none => some { s with request := .answered request (writeResponse request (-1)) }
    else
      match invokeRead s.tree s.tasks request with
      | some response => some { s with request := .answered request response }
      | none => some { s with exited := true }
  | _ => none

def enqueue (s : ServerState) : Option ServerState :=
  match s.request with
  | .created request task => some { s with
      tasks := tasksEnqueue s.tasks task
      request := .answered request (writeResponse request task.taskId) }
  | _ => none

def unlockRequest (s : ServerState) : Option ServerState :=
  match s.request with
  | .answered request response => some { s with
      treeLock := none
      request := .idle
      answers := s.answers ++ [(request, finishResponse response)] }
  | _ => none

def getNext (s : ServerState) : Option ServerState :=
  match s.worker with
  | .waiting =>
    match tasksGetNext s.tasks with
    | none => none -- blocked
    | some none => some { s with worker := .stopped }
    | some (some task) => some { s with worker := .peeked task }
  | _ => none

def lockTask (s : ServerState) : Option ServerState :=
  match s.worker, s.treeLock with
  | .peeked task, none => some { s with treeLock := some .worker, worker := .locked task }
  | _, _ => none

def execute (s : ServerState) : Option ServerState :=
  match s.worker with
  | .locked task =>
    match executeWrite s.tree task.opCodeAndArgs with
    | some (tree, result) =>
      if result < 0 then some { s with tree := tree, exited := true }
      else some { s with tree := tree, worker := .applied task }
    | none => some { s with worker := .cannotHandle task }
  | _ => none

def replicate (s : ServerState) (ok : Bool) : Option ServerState :=
  match s.worker with
  | .applied task =>
    if ok then some { s with worker := .replicated task } else some { s with exited := true }
  | _ => none

def setResult (s : ServerState) : Option ServerState :=
  match s.worker with
  | .replicated task => some { s with
      tasks := (tasksSetResult s.tasks task.taskId .successful).1
      worker := .recorded }
  | .cannotHandle task => some { s with
      tasks := (tasksSetResult s.tasks task.taskId .failed).1
      worker := .recorded }
  | _ => none

def unlockTask (s : ServerState) : Option ServerState :=
  match s.worker with
  | .recorded => some { s with treeLock := none, worker := .waiting }
  | _ => none

end ServerState

/-- What an action does; nothing runs after the process has exited. -/
def serverStep (s : ServerState) (action : ServerAction) : Option ServerState :=
  if s.exited then none
  else
    match action with
    | .lockRequest request => s.lockRequest request
    | .handle => s.handle
    | .enqueue => s.enqueue
    | .unlockRequest => s.unlockRequest
    | .getNext => s.getNext
    | .lockTask => s.lockTask
    | .execute => s.execute
    | .replicate ok => s.replicate ok
    | .setResult => s.setResult
    | .unlockTask => s.unlockTask

/-! ## What was asked and answered -/

/-- The writes a server accepted, each with the id it answered. -/
def acceptedWrites (answers : List (Message × Message)) : List (Message × ℤ) :=
  answers.filterMap fun (request, response) =>
    match response.content with
    | .opId id => if id = -1 then none else some (request, id)
    | _ => none

/-- The answer `invoke` is about to give. -/
def RequestPc.openAnswer : RequestPc → List (Message × Message)
  | .answered request response => [(request, finishResponse response)]
  | _ => []

/-- The writes queued so far, in the order of their ids. -/
def ServerState.writes (s : ServerState) : List Message :=
  (acceptedWrites (s.answers ++ s.request.openAnswer)).map Prod.fst

/-- A tree after a write. -/
def applyWrite (tree : TreeT) (msg : Message) : TreeT :=
  match executeWrite tree msg with
  | some (tree, _) => tree
  | none => tree

/-- The tree after writes in order, from the empty tree. -/
def treeOfWrites (writes : List Message) : TreeT := writes.foldl applyWrite treeCreate

end ReplicatedTree
