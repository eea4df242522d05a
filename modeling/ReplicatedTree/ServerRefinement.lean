import ReplicatedTree.Lib.Simulation
import ReplicatedTree.ServerProgress
import ReplicatedTree.ServerRuns
import ReplicatedTree.ServerWrites

/-!
# The threads of the server refine its two-thread machine

`TreeSkel` gives the server two threads whose steps are whole accesses to the shared state, with
`tree_lock` as the only mutex. `ServerThreads` has every position of the code, all three mutexes,
the condition variable, and calls with a stack. This file shows that the second does nothing that
the first does not: for threads that do what the server has them do (`Deployed`), every run has a
run of `serverStep` with the same requests, responses and replicated writes in the same order,
and the same tree and tasks at the end (`threads_refine_server`). What is proved of `serverStep`
then holds of the code with its mutexes.

Most instructions are not seen by `serverStep`: `RequestAt` and `WorkerAt` say which positions,
with which stack, belong to one of its positions.
-/

namespace ReplicatedTree

open Locks Transition

abbrev ServerSystem := System Thread Mutex Shared ThreadPc ThreadAnswer

/-- What the threads of a server are told to do: one calls `invoke` for requests that were
decoded, the other `process_tasks`; and no `malloc` fails. -/
def Deployed (s : ServerSystem) : Action Thread ThreadChoice → Prop
  | .step .request choice => choice.ok = true ∧ ((s.threads .request).pc = .outside →
      ∃ request : Request, choice.call = .invoke (some request.1))
  | .step .worker choice => ((s.threads .worker).pc = .outside → choice.call = .processTasks) ∧
      ∀ taskId taskResult, (s.threads .worker).pc = .setResultStore taskId taskResult →
        choice.ok = true
  | .wake _ => True

/-! ## What can be seen -/

/-- What a server takes and gives. -/
inductive ServerEvent
  | request (message : Message)
  | response (message : Message)
  | replicated (message : Message)

/-- In the machine of `TreeSkel`. -/
def serverShows (s : ServerState) : ServerAction → List ServerEvent
  | .lockRequest request => [.request request.1]
  | .unlockRequest =>
    match s.request with
    | .answered _ response => [.response (finishResponse response)]
    | _ => []
  | .replicate true =>
    match s.worker with
    | .applied task => [.replicated task.opCodeAndArgs]
    | _ => []
  | _ => []

/-- In the threads. -/
def threadsShow (s : ServerSystem) : Action Thread ThreadChoice → List ServerEvent
  | .step t choice =>
    match (s.threads t).pc with
    | .invoke (some message) => [.request message]
    | .invokeUnlock response => [.response (finishResponse response)]
    | .workerApplied task => if choice.ok then [.replicated task.opCodeAndArgs] else []
    | _ => []
  | .wake _ => []

/-! ## The positions -/

/-- The stack of a function that was called from outside, or by one that was. -/
abbrev Stack := List (Frame Mutex ThreadPc ThreadAnswer)

def outsideFrame (entry : Mutex → Bool) : Frame Mutex ThreadPc ThreadAnswer :=
  ⟨fun _ => .outside, entry⟩

/-- The call of `tasks_add_task` in `invoke_write_operation`. -/
def writeFrame (request : Message) (entry : Mutex → Bool) : Frame Mutex ThreadPc ThreadAnswer :=
  ⟨fun answer => .invokeUnlock (writeAnswer request answer), entry⟩

/-- The call of `tasks_get_result` in `invoke_verify`. -/
def verifyFrame (request : Message) (entry : Mutex → Bool) : Frame Mutex ThreadPc ThreadAnswer :=
  ⟨fun answer => .invokeUnlock (verifyAnswer request answer), entry⟩

/-- The call of `tasks_get_next` in `process_tasks`. -/
def getNextFrame (entry : Mutex → Bool) : Frame Mutex ThreadPc ThreadAnswer :=
  ⟨.workerGot, entry⟩

/-- The calls of `tasks_set_result` in `process_tasks`. -/
def setResultFrame (entry : Mutex → Bool) : Frame Mutex ThreadPc ThreadAnswer :=
  ⟨fun _ => .workerUnlock, entry⟩

inductive RequestAt : ThreadPc → Stack → RequestPc → Prop
  | outside : RequestAt .outside [] .idle
  | invoke (request : Request) (e : Mutex → Bool) :
    RequestAt (.invoke (some request.1)) [outsideFrame e] .idle
  | invokeLocked (request : Message) (e : Mutex → Bool) :
    RequestAt (.invokeLocked request) [outsideFrame e] (.locked request)
  | addTask (request : Message) (hwrite : request.IsWrite) (e e' : Mutex → Bool) :
    RequestAt (.addTask (some request)) [writeFrame request e', outsideFrame e]
      (.locked request)
  | addTaskNode (request : Message) (task : TaskT) (e e' : Mutex → Bool) :
    RequestAt (.addTaskNode task) [writeFrame request e', outsideFrame e] (.created request task)
  | addTaskLock (request : Message) (task : TaskT) (e e' : Mutex → Bool) :
    RequestAt (.addTaskLock task) [writeFrame request e', outsideFrame e] (.created request task)
  | addTaskQueue (request : Message) (task : TaskT) (e e' : Mutex → Bool) :
    RequestAt (.addTaskQueue task) [writeFrame request e', outsideFrame e]
      (.created request task)
  | addTaskUnlock (request : Message) (task : TaskT) (e e' : Mutex → Bool) :
    RequestAt (.addTaskUnlock task) [writeFrame request e', outsideFrame e]
      (.answered request (writeResponse request task.taskId))
  | addTaskReturning (request : Message) (taskId : ℤ) (e e' : Mutex → Bool) :
    RequestAt (.returning (.int taskId)) [writeFrame request e', outsideFrame e]
      (.answered request (writeResponse request taskId))
  | getResult (request : Message) (opId : ℤ) (hverify : request.handler = .verify opId)
      (e e' : Mutex → Bool) :
    RequestAt (.getResult opId) [verifyFrame request e', outsideFrame e] (.locked request)
  | getResultScan (request : Message) (opId : ℤ) (hverify : request.handler = .verify opId)
      (e e' : Mutex → Bool) :
    RequestAt (.getResultScan opId) [verifyFrame request e', outsideFrame e] (.locked request)
  | getResultUnlock (request : Message) (taskResult : TaskResult) (e e' : Mutex → Bool) :
    RequestAt (.getResultUnlock taskResult) [verifyFrame request e', outsideFrame e]
      (.answered request (verifyAnswer request (.result taskResult)))
  | getResultReturning (request : Message) (taskResult : TaskResult) (e e' : Mutex → Bool) :
    RequestAt (.returning (.result taskResult)) [verifyFrame request e', outsideFrame e]
      (.answered request (verifyAnswer request (.result taskResult)))
  | invokeUnlock (request response : Message) (e : Mutex → Bool) :
    RequestAt (.invokeUnlock response) [outsideFrame e] (.answered request response)
  | returning (response : Message) (e : Mutex → Bool) :
    RequestAt (.returning (.response response)) [outsideFrame e] .idle

/-- The positions in which the worker sets a result. -/
inductive Sets : ℤ → TaskResult → WorkerPc → Prop
  | successful (task : TaskT) : Sets task.taskId .successful (.replicated task)
  | failed (task : TaskT) : Sets task.taskId .failed (.cannotHandle task)

inductive WorkerAt : ThreadPc → Stack → WorkerPc → Prop
  | outside : WorkerAt .outside [] .waiting
  | worker (e : Mutex → Bool) : WorkerAt .worker [outsideFrame e] .waiting
  | getNext (e e' : Mutex → Bool) :
    WorkerAt .getNext [getNextFrame e', outsideFrame e] .waiting
  | getNextTest (e e' : Mutex → Bool) :
    WorkerAt .getNextTest [getNextFrame e', outsideFrame e] .waiting
  | getNextTake (e e' : Mutex → Bool) :
    WorkerAt .getNextTake [getNextFrame e', outsideFrame e] .waiting
  | getNextUnlock (task : TaskT) (e e' : Mutex → Bool) :
    WorkerAt (.getNextUnlock task) [getNextFrame e', outsideFrame e] (.peeked task)
  | getNextReturning (task : TaskT) (e e' : Mutex → Bool) :
    WorkerAt (.returning (.task (some task))) [getNextFrame e', outsideFrame e] (.peeked task)
  | workerGot (task : TaskT) (e : Mutex → Bool) :
    WorkerAt (.workerGot (.task (some task))) [outsideFrame e] (.peeked task)
  | workerLocked (task : TaskT) (e : Mutex → Bool) :
    WorkerAt (.workerLocked task) [outsideFrame e] (.locked task)
  | workerApplied (task : TaskT) (e : Mutex → Bool) :
    WorkerAt (.workerApplied task) [outsideFrame e] (.applied task)
  | setResult {taskId : ℤ} {taskResult : TaskResult} {worker : WorkerPc}
      (hsets : Sets taskId taskResult worker) (e e' : Mutex → Bool) :
    WorkerAt (.setResult taskId taskResult) [setResultFrame e', outsideFrame e] worker
  | setResultLock {taskId : ℤ} {taskResult : TaskResult} {worker : WorkerPc}
      (hsets : Sets taskId taskResult worker) (e e' : Mutex → Bool) :
    WorkerAt (.setResultLock taskId taskResult) [setResultFrame e', outsideFrame e] worker
  | setResultStore {taskId : ℤ} {taskResult : TaskResult} {worker : WorkerPc}
      (hsets : Sets taskId taskResult worker) (e e' : Mutex → Bool) :
    WorkerAt (.setResultStore taskId taskResult) [setResultFrame e', outsideFrame e] worker
  | setResultUnlockResults (result : ℤ) (e e' : Mutex → Bool) :
    WorkerAt (.setResultUnlockResults result) [setResultFrame e', outsideFrame e] .recorded
  | setResultUnlockQueue (result : ℤ) (e e' : Mutex → Bool) :
    WorkerAt (.setResultUnlockQueue result) [setResultFrame e', outsideFrame e] .recorded
  | setResultReturning (result : ℤ) (e e' : Mutex → Bool) :
    WorkerAt (.returning (.int result)) [setResultFrame e', outsideFrame e] .recorded
  | workerUnlock (e : Mutex → Bool) : WorkerAt .workerUnlock [outsideFrame e] .recorded

/-! ## The relation -/

/-- The threads stand for a state of the machine. -/
structure StandsFor (s : ServerSystem) (a : ServerState) : Prop where
  tree : a.tree = s.data.tree
  tasks : a.tasks = s.data.tasks
  exited : a.exited = s.data.exited
  treeLock : a.treeLock = s.owner .treeLock
  destroyed : s.data.tasks.destroyed = false
  request : s.data.exited = false →
    RequestAt (s.threads .request).pc (s.threads .request).callers a.request
  worker : s.data.exited = false →
    WorkerAt (s.threads .worker).pc (s.threads .worker).callers a.worker
  /-- past its loop, `tasks_get_next` finds a task -/
  taking : (s.threads .worker).pc = .getNextTake → s.data.tasks.tasksQueueHead ≠ []
  /-- the only wait -/
  missing : ∀ t m, (s.threads t).status.missing = some m →
    m = .tasksQueueLock ∧ (s.threads t).pc = .getNextTest

section Step

variable {s s' : ServerSystem} {a a' : ServerState} {pc : ThreadPc} {entry : Mutex → Bool}
  {callers : Stack} {choice : ThreadChoice}

/-- The request thread moves, and the machine with it. -/
theorem StandsFor.request_moves (h : StandsFor s a) (hx : s.data.exited = false) {data : Shared}
    {owner : Mutex → Option Thread} (htree : a'.tree = data.tree) (htasks : a'.tasks = data.tasks)
    (hexited : a'.exited = data.exited) (hlock : a'.treeLock = owner .treeLock)
    (hdestroyed : data.tasks.destroyed = false) (hworker : a'.worker = a.worker)
    (hqueue : s.data.tasks.tasksQueueHead ≠ [] → data.tasks.tasksQueueHead ≠ [])
    (hat : data.exited = false → RequestAt pc callers a'.request) :
    StandsFor ⟨data, owner,
      Function.update s.threads .request ⟨pc, .running, entry, callers⟩⟩ a' where
  tree := htree
  tasks := htasks
  exited := hexited
  treeLock := hlock
  destroyed := hdestroyed
  request := fun hno => by
    simp only [Function.update_self]
    exact hat hno
  worker := fun _ => by
    simp only [Function.update_of_ne (show Thread.worker ≠ .request by decide)]
    exact hworker ▸ h.worker hx
  taking := by
    simp only [Function.update_of_ne (show Thread.worker ≠ .request by decide)]
    exact fun htake => hqueue (h.taking htake)
  missing := by
    intro t m hm
    cases t with
    | request => simp [Status.missing] at hm
    | worker => exact h.missing .worker m hm

/-- The request thread moves, and the machine stays. -/
theorem StandsFor.request_stays (h : StandsFor s a) (hx : s.data.exited = false)
    {owner : Mutex → Option Thread} (hlock : owner .treeLock = s.owner .treeLock)
    (hat : RequestAt pc callers a.request) :
    StandsFor ⟨s.data, owner,
      Function.update s.threads .request ⟨pc, .running, entry, callers⟩⟩ a :=
  h.request_moves hx h.tree h.tasks h.exited (h.treeLock.trans hlock.symm) h.destroyed rfl id
    fun _ => hat

/-- A step of the request thread. -/
theorem request_step (h : StandsFor s a) (hx : s.data.exited = false)
    (hth : s.threads .request = ⟨pc, .running, entry, callers⟩) {at' : RequestPc}
    (hat : RequestAt pc callers at') (hreq : a.request = at') (hok : choice.ok = true)
    (hcall : pc = .outside → ∃ request : Request, choice.call = .invoke (some request.1))
    (hexec : exec s .request (serverCode pc s.data choice) = some s') :
    Answers serverStep serverShows a (threadsShow s (.step .request choice)) (StandsFor s') := by
  have hax : a.exited = false := h.exited.trans hx
  unfold threadsShow
  simp only [hth]
  cases hat with
  | outside =>
    obtain ⟨request, hinvoke⟩ := hcall rfl
    simp only [serverCode, hinvoke, ThreadCall.start, exec, hth, Option.some.injEq] at hexec
    subst hexec
    exact .stay (h.request_stays hx rfl (hreq ▸ .invoke request entry))
  | invoke request e =>
    simp only [serverCode, exec, hth] at hexec
    obtain ⟨hfree, ⟨⟩⟩ := Option.ite_none_right_eq_some.1 hexec
    have hlock : a.treeLock = none := h.treeLock.trans hfree
    have hstep : serverStep a (.lockRequest request)
        = some { a with treeLock := some .request, request := .locked request.1 } := by
      simp [serverStep, hax, ServerState.lockRequest, hreq, hlock]
    exact .one hstep rfl (h.request_moves hx h.tree h.tasks h.exited (by simp) h.destroyed rfl id
      fun _ => .invokeLocked request.1 e)
  | invokeLocked request e =>
    simp only [serverCode, invokeLockedCode] at hexec
    split at hexec
    · rename_i hwrite
      simp only [exec, hth, Option.some.injEq] at hexec
      subst hexec
      exact .stay (h.request_stays hx rfl (hreq ▸ .addTask request hwrite e entry))
    · rename_i opId hverify
      simp only [exec, hth, Option.some.injEq] at hexec
      subst hexec
      exact .stay (h.request_stays hx rfl (hreq ▸ .getResult request opId hverify e entry))
    · rename_i hwrite hverify
      have hno : request.handler ≠ .writeOperation := hwrite
      have hread : invokeRead a.tree a.tasks request = invokeQuery s.data.tree request := by
        unfold invokeRead
        rw [h.tree]
        split
        · exact absurd ‹_› (hverify _)
        · rfl
      split at hexec
      · rename_i response hquery
        simp only [exec, hth, Option.some.injEq] at hexec
        subst hexec
        have hstep : serverStep a .handle
            = some { a with request := .answered request response } := by
          simp [serverStep, hax, ServerState.handle, hreq, hno, hread, hquery]
        exact .one hstep rfl (h.request_moves hx h.tree h.tasks h.exited h.treeLock h.destroyed
          rfl id fun _ => .invokeUnlock request response e)
      · -- the process is killed
        rename_i hquery
        simp only [exec, hth, Option.some.injEq] at hexec
        subst hexec
        have hstep : serverStep a .handle = some { a with exited := true } := by
          simp [serverStep, hax, ServerState.handle, hreq, hno, hread, hquery]
        exact .one hstep rfl (h.request_moves hx h.tree h.tasks rfl h.treeLock h.destroyed rfl id
          (by simp))
  | addTask request hwrite e e' =>
    have hwrite : request.handler = .writeOperation := hwrite
    simp only [serverCode, addTaskCode, hok, if_true] at hexec
    split at hexec
    · rename_i hnone
      simp only [exec, hth, Option.some.injEq] at hexec
      subst hexec
      have hstep : serverStep a .handle
          = some { a with request := .answered request (writeResponse request (-1)) } := by
        simp [serverStep, hax, ServerState.handle, hreq, hwrite, h.tasks, hnone]
      exact .one hstep rfl (h.request_moves hx h.tree h.tasks h.exited h.treeLock h.destroyed
        rfl id fun _ => .addTaskReturning request (-1) e e')
    · rename_i tasks task hcreate
      simp only [exec, hth, Option.some.injEq] at hexec
      subst hexec
      have hstep : serverStep a .handle
          = some { a with tasks := tasks, request := .created request task } := by
        simp [serverStep, hax, ServerState.handle, hreq, hwrite, h.tasks, hcreate]
      obtain ⟨copied, -, ⟨⟩⟩ := Option.map_eq_some_iff.1 hcreate
      exact .one hstep rfl (h.request_moves hx h.tree rfl h.exited h.treeLock h.destroyed rfl id
        fun _ => .addTaskNode request _ e e')
  | addTaskNode request task e e' =>
    simp only [serverCode, hok, if_true, exec, hth, Option.some.injEq] at hexec
    subst hexec
    exact .stay (h.request_stays hx rfl (hreq ▸ .addTaskLock request task e e'))
  | addTaskLock request task e e' =>
    simp only [serverCode, exec, hth] at hexec
    obtain ⟨-, ⟨⟩⟩ := Option.ite_none_right_eq_some.1 hexec
    exact .stay (h.request_stays hx (by simp) (hreq ▸ .addTaskQueue request task e e'))
  | addTaskQueue request task e e' =>
    simp only [serverCode, exec, hth, Option.some.injEq] at hexec
    subst hexec
    have hstep : serverStep a .enqueue = some { a with
        tasks := tasksEnqueue s.data.tasks task
        request := .answered request (writeResponse request task.taskId) } := by
      simp [serverStep, hax, ServerState.enqueue, hreq, h.tasks]
    exact .one hstep rfl (h.request_moves hx h.tree rfl h.exited h.treeLock h.destroyed rfl
      (fun _ => by simp [tasksEnqueue]) fun _ => .addTaskUnlock request task e e')
  | addTaskUnlock request task e e' =>
    simp only [serverCode, exec, hth, Option.some.injEq] at hexec
    subst hexec
    exact .stay (h.request_stays hx (by simp) (hreq ▸ .addTaskReturning request _ e e'))
  | addTaskReturning request taskId e e' =>
    simp only [serverCode, exec, hth, Option.some.injEq] at hexec
    subst hexec
    exact .stay (h.request_stays hx rfl (hreq ▸ .invokeUnlock request _ e))
  | getResult request opId hverify e e' =>
    simp only [serverCode, exec, hth] at hexec
    obtain ⟨-, ⟨⟩⟩ := Option.ite_none_right_eq_some.1 hexec
    exact .stay (h.request_stays hx (by simp) (hreq ▸ .getResultScan request opId hverify e e'))
  | getResultScan request opId hverify e e' =>
    simp only [serverCode, exec, hth, Option.some.injEq] at hexec
    subst hexec
    have hstep : serverStep a .handle = some { a with
        request := .answered request
          (verifyAnswer request (.result (tasksGetResult s.data.tasks opId))) } := by
      simp [serverStep, hax, ServerState.handle, hreq, hverify, invokeRead, invokeVerify, h.tasks,
        verifyAnswer]
    exact .one hstep rfl (h.request_moves hx h.tree h.tasks h.exited h.treeLock h.destroyed
      rfl id fun _ => .getResultUnlock request _ e e')
  | getResultUnlock request taskResult e e' =>
    simp only [serverCode, exec, hth, Option.some.injEq] at hexec
    subst hexec
    exact .stay (h.request_stays hx (by simp) (hreq ▸ .getResultReturning request _ e e'))
  | getResultReturning request taskResult e e' =>
    simp only [serverCode, exec, hth, Option.some.injEq] at hexec
    subst hexec
    exact .stay (h.request_stays hx rfl (hreq ▸ .invokeUnlock request _ e))
  | invokeUnlock request response e =>
    simp only [serverCode, exec, hth, Option.some.injEq] at hexec
    subst hexec
    have hstep : serverStep a .unlockRequest = some { a with
        treeLock := none
        request := .idle
        answers := a.answers ++ [(request, finishResponse response)] } := by
      simp [serverStep, hax, ServerState.unlockRequest, hreq]
    refine .one hstep ?_ (h.request_moves hx h.tree h.tasks h.exited (by simp) h.destroyed
      rfl id fun _ => .returning _ e)
    simp [serverShows, hreq]
  | returning response e =>
    simp only [serverCode, exec, hth, Option.some.injEq] at hexec
    subst hexec
    exact .stay (h.request_stays hx rfl (hreq ▸ .outside))

/-- The worker moves, maybe to sleep, and the machine with it. -/
theorem StandsFor.worker_update (h : StandsFor s a) (hx : s.data.exited = false) {data : Shared}
    {owner : Mutex → Option Thread} (htree : a'.tree = data.tree) (htasks : a'.tasks = data.tasks)
    (hexited : a'.exited = data.exited) (hlock : a'.treeLock = owner .treeLock)
    (hdestroyed : data.tasks.destroyed = false) (hrequest : a'.request = a.request)
    (hat : data.exited = false → WorkerAt pc callers a'.worker)
    (htaking : pc = .getNextTake → data.tasks.tasksQueueHead ≠ []) {status : Status Mutex}
    (hstatus : ∀ m, status.missing = some m → m = .tasksQueueLock ∧ pc = .getNextTest) :
    StandsFor ⟨data, owner,
      Function.update s.threads .worker ⟨pc, status, entry, callers⟩⟩ a' where
  tree := htree
  tasks := htasks
  exited := hexited
  treeLock := hlock
  destroyed := hdestroyed
  request := fun _ => by
    simp only [Function.update_of_ne (show Thread.request ≠ .worker by decide)]
    exact hrequest ▸ h.request hx
  worker := fun hno => by
    simp only [Function.update_self]
    exact hat hno
  taking := by
    simp only [Function.update_self]
    exact htaking
  missing := by
    intro t m hm
    cases t with
    | request => exact h.missing .request m hm
    | worker => simpa using hstatus m (by simpa using hm)

theorem StandsFor.worker_moves (h : StandsFor s a) (hx : s.data.exited = false) {data : Shared}
    {owner : Mutex → Option Thread} (htree : a'.tree = data.tree) (htasks : a'.tasks = data.tasks)
    (hexited : a'.exited = data.exited) (hlock : a'.treeLock = owner .treeLock)
    (hdestroyed : data.tasks.destroyed = false) (hrequest : a'.request = a.request)
    (hat : data.exited = false → WorkerAt pc callers a'.worker) (hpc : pc ≠ .getNextTake) :
    StandsFor ⟨data, owner,
      Function.update s.threads .worker ⟨pc, .running, entry, callers⟩⟩ a' :=
  h.worker_update hx htree htasks hexited hlock hdestroyed hrequest hat
    (fun heq => absurd heq hpc) fun _ hm => absurd hm (by simp [Status.missing])

/-- The worker moves, and the machine stays. -/
theorem StandsFor.worker_stays (h : StandsFor s a) (hx : s.data.exited = false)
    {owner : Mutex → Option Thread} (hlock : owner .treeLock = s.owner .treeLock)
    (hat : WorkerAt pc callers a.worker) (hpc : pc ≠ .getNextTake) :
    StandsFor ⟨s.data, owner,
      Function.update s.threads .worker ⟨pc, .running, entry, callers⟩⟩ a :=
  h.worker_moves hx h.tree h.tasks h.exited (h.treeLock.trans hlock.symm) h.destroyed rfl
    (fun _ => hat) hpc

/-- A step of the worker. -/
theorem worker_step (h : StandsFor s a) (hx : s.data.exited = false)
    (hth : s.threads .worker = ⟨pc, .running, entry, callers⟩) {at' : WorkerPc}
    (hat : WorkerAt pc callers at') (hwork : a.worker = at')
    (hcall : pc = .outside → choice.call = .processTasks)
    (hok : ∀ taskId taskResult, pc = .setResultStore taskId taskResult → choice.ok = true)
    (hexec : exec s .worker (serverCode pc s.data choice) = some s') :
    Answers serverStep serverShows a (threadsShow s (.step .worker choice)) (StandsFor s') := by
  have hax : a.exited = false := h.exited.trans hx
  unfold threadsShow
  simp only [hth]
  cases hat with
  | outside =>
    simp only [serverCode, hcall rfl, ThreadCall.start, exec, hth, Option.some.injEq] at hexec
    subst hexec
    exact .stay (h.worker_stays hx rfl (hwork ▸ .worker entry) (by simp))
  | worker e =>
    simp only [serverCode, exec, hth, Option.some.injEq] at hexec
    subst hexec
    exact .stay (h.worker_stays hx rfl (hwork ▸ .getNext e entry) (by simp))
  | getNext e e' =>
    simp only [serverCode, exec, hth] at hexec
    obtain ⟨-, ⟨⟩⟩ := Option.ite_none_right_eq_some.1 hexec
    exact .stay (h.worker_stays hx (by simp) (hwork ▸ .getNextTest e e') (by simp))
  | getNextTest e e' =>
    simp only [serverCode, getNextTestCode] at hexec
    split_ifs at hexec with hempty
    · simp only [exec, hth, Option.some.injEq] at hexec
      subst hexec
      have hlock : a.treeLock = Function.update s.owner .tasksQueueLock none .treeLock := by
        simpa using h.treeLock
      exact .stay (h.worker_update hx h.tree h.tasks h.exited hlock h.destroyed rfl
        (fun _ => hwork ▸ .getNextTest e e') (by simp) (by simp [Status.missing]))
    · simp only [exec, hth, Option.some.injEq] at hexec
      subst hexec
      exact .stay (h.worker_update hx h.tree h.tasks h.exited h.treeLock h.destroyed rfl
        (fun _ => hwork ▸ .getNextTake e e') (fun _ hnil => hempty ⟨h.destroyed, hnil⟩)
        (by simp [Status.missing]))
  | getNextTake e e' =>
    have hqueue := h.taking (by rw [hth])
    simp only [serverCode, getNextTakeCode, h.destroyed, Bool.false_eq_true, if_false] at hexec
    split at hexec
    · exact absurd ‹_› hqueue
    · rename_i task next hhead
      simp only [exec, hth, Option.some.injEq] at hexec
      subst hexec
      have hstep : serverStep a .getNext = some { a with worker := .peeked task } := by
        simp [serverStep, hax, ServerState.getNext, hwork, tasksGetNext, h.tasks, h.destroyed,
          hhead]
      exact .one hstep rfl (h.worker_moves hx h.tree h.tasks h.exited h.treeLock h.destroyed rfl
        (fun _ => .getNextUnlock task e e') (by simp))
  | getNextUnlock task e e' =>
    simp only [serverCode, exec, hth, Option.some.injEq] at hexec
    subst hexec
    exact .stay (h.worker_stays hx (by simp) (hwork ▸ .getNextReturning task e e') (by simp))
  | getNextReturning task e e' =>
    simp only [serverCode, exec, hth, Option.some.injEq] at hexec
    subst hexec
    exact .stay (h.worker_stays hx rfl (hwork ▸ .workerGot task e) (by simp [getNextFrame]))
  | workerGot task e =>
    simp only [serverCode, exec, hth] at hexec
    obtain ⟨hfree, ⟨⟩⟩ := Option.ite_none_right_eq_some.1 hexec
    have hlock : a.treeLock = none := h.treeLock.trans hfree
    have hstep : serverStep a .lockTask
        = some { a with treeLock := some .worker, worker := .locked task } := by
      simp [serverStep, hax, ServerState.lockTask, hwork, hlock]
    exact .one hstep rfl (h.worker_moves hx h.tree h.tasks h.exited (by simp) h.destroyed rfl
      (fun _ => .workerLocked task e) (by simp))
  | workerLocked task e =>
    simp only [serverCode, workerLockedCode] at hexec
    split at hexec
    · rename_i tree result hexecute
      split_ifs at hexec with hneg
      · -- the tree refuses the write, and the worker calls `exit`
        simp only [exec, hth, Option.some.injEq] at hexec
        subst hexec
        have hstep : serverStep a .execute
            = some { a with tree := tree, exited := true } := by
          simp [serverStep, hax, ServerState.execute, hwork, h.tree, hexecute, hneg]
        exact .one hstep rfl (h.worker_moves hx rfl h.tasks rfl h.treeLock h.destroyed rfl
          (by simp) (by simp))
      · simp only [exec, hth, Option.some.injEq] at hexec
        subst hexec
        have hstep : serverStep a .execute
            = some { a with tree := tree, worker := .applied task } := by
          simp [serverStep, hax, ServerState.execute, hwork, h.tree, hexecute, hneg]
        exact .one hstep rfl (h.worker_moves hx rfl h.tasks h.exited h.treeLock h.destroyed rfl
          (fun _ => .workerApplied task e) (by simp))
    · rename_i hexecute
      simp only [exec, hth, Option.some.injEq] at hexec
      subst hexec
      have hstep : serverStep a .execute = some { a with worker := .cannotHandle task } := by
        simp [serverStep, hax, ServerState.execute, hwork, h.tree, hexecute]
      exact .one hstep rfl (h.worker_moves hx h.tree h.tasks h.exited h.treeLock h.destroyed rfl
        (fun _ => .setResult (.failed task) e entry) (by simp))
  | workerApplied task e =>
    simp only [serverCode] at hexec
    split_ifs at hexec with hreplicated
    · simp only [exec, hth, Option.some.injEq] at hexec
      subst hexec
      have hstep : serverStep a (.replicate true)
          = some { a with worker := .replicated task } := by
        simp [serverStep, hax, ServerState.replicate, hwork]
      refine .one hstep ?_ (h.worker_moves hx h.tree h.tasks h.exited h.treeLock h.destroyed rfl
        (fun _ => .setResult (.successful task) e entry) (by simp))
      simp [serverShows, hwork, hreplicated]
    · simp only [exec, hth, Option.some.injEq] at hexec
      subst hexec
      have hstep : serverStep a (.replicate false) = some { a with exited := true } := by
        simp [serverStep, hax, ServerState.replicate, hwork]
      refine .one hstep ?_ (h.worker_moves hx h.tree h.tasks rfl h.treeLock h.destroyed rfl
        (by simp) (by simp))
      simp [serverShows, hreplicated]
  | setResult hsets e e' =>
    simp only [serverCode, exec, hth] at hexec
    obtain ⟨-, ⟨⟩⟩ := Option.ite_none_right_eq_some.1 hexec
    exact .stay (h.worker_stays hx (by simp) (hwork ▸ .setResultLock hsets e e') (by simp))
  | setResultLock hsets e e' =>
    simp only [serverCode, exec, hth] at hexec
    obtain ⟨-, ⟨⟩⟩ := Option.ite_none_right_eq_some.1 hexec
    exact .stay (h.worker_stays hx (by simp) (hwork ▸ .setResultStore hsets e e') (by simp))
  | @setResultStore taskId taskResult worker hsets e e' =>
    simp only [serverCode, setResultStoreCode, hok taskId taskResult rfl, Bool.true_eq_false,
      and_false, if_false, exec, hth, Option.some.injEq] at hexec
    subst hexec
    have hstep : serverStep a .setResult = some { a with
        tasks := (tasksSetResult s.data.tasks taskId taskResult).1
        worker := .recorded } := by
      cases hsets <;> simp [serverStep, hax, ServerState.setResult, hwork, h.tasks]
    exact .one hstep rfl (h.worker_moves hx h.tree rfl h.exited h.treeLock
      ((tasksSetResult_destroyed _ _ _).trans h.destroyed) rfl
      (fun _ => .setResultUnlockResults _ e e') (by simp))
  | setResultUnlockResults result e e' =>
    simp only [serverCode, exec, hth, Option.some.injEq] at hexec
    subst hexec
    exact .stay (h.worker_stays hx (by simp) (hwork ▸ .setResultUnlockQueue result e e') (by simp))
  | setResultUnlockQueue result e e' =>
    simp only [serverCode, exec, hth, Option.some.injEq] at hexec
    subst hexec
    exact .stay (h.worker_stays hx (by simp) (hwork ▸ .setResultReturning result e e') (by simp))
  | setResultReturning result e e' =>
    simp only [serverCode, exec, hth, Option.some.injEq] at hexec
    subst hexec
    exact .stay (h.worker_stays hx rfl (hwork ▸ .workerUnlock e) (by simp [setResultFrame]))
  | workerUnlock e =>
    simp only [serverCode, exec, hth, Option.some.injEq] at hexec
    subst hexec
    have hstep : serverStep a .unlockTask
        = some { a with treeLock := none, worker := .waiting } := by
      simp [serverStep, hax, ServerState.unlockTask, hwork]
    exact .one hstep rfl (h.worker_moves hx h.tree h.tasks h.exited (by simp) h.destroyed rfl
      (fun _ => .worker e) (by simp))

/-- A thread is woken up, or takes its mutex again: the machine stays. -/
theorem StandsFor.status_changes (h : StandsFor s a) {t : Thread} {status : Status Mutex}
    (hmissing : ∀ m, status.missing = some m → (s.threads t).status.missing = some m)
    (howner : s'.owner .treeLock = s.owner .treeLock) (hdata : s'.data = s.data)
    (hthreads : s'.threads = Function.update s.threads t { s.threads t with status := status }) :
    StandsFor s' a := by
  have hpc (u : Thread) : (s'.threads u).pc = (s.threads u).pc := by
    rw [hthreads]
    by_cases hu : u = t
    · subst hu
      rw [Function.update_self]
    · rw [Function.update_of_ne hu]
  have hcallers (u : Thread) : (s'.threads u).callers = (s.threads u).callers := by
    rw [hthreads]
    by_cases hu : u = t
    · subst hu
      rw [Function.update_self]
    · rw [Function.update_of_ne hu]
  refine ⟨?_, ?_, ?_, ?_, ?_, ?_, ?_, ?_, ?_⟩
  · rw [hdata]
    exact h.tree
  · rw [hdata]
    exact h.tasks
  · rw [hdata]
    exact h.exited
  · rw [howner]
    exact h.treeLock
  · rw [hdata]
    exact h.destroyed
  · rw [hdata, hpc, hcallers]
    exact h.request
  · rw [hdata, hpc, hcallers]
    exact h.worker
  · rw [hdata, hpc]
    exact h.taking
  · intro u m hm
    rw [hpc]
    by_cases hu : u = t
    · subst hu
      rw [hthreads, Function.update_self] at hm
      exact h.missing u m (hmissing m hm)
    · rw [hthreads, Function.update_of_ne hu] at hm
      exact h.missing u m hm

/-- Every step of the threads is answered by the machine. -/
theorem threads_simulate :
    Simulates (Locks.step serverProgram) threadsShow serverStep serverShows Deployed StandsFor := by
  intro s action s' a hdeployed h hstep
  rcases step_cases hstep with ⟨choice, i, haction, hrunning, hcode, hexec⟩ |
    ⟨status, hne, -, hmissing, howner, hdata, hthreads⟩
  · obtain ⟨hx, ⟨⟩⟩ := Option.ite_none_left_eq_some.1 hcode
    rw [Bool.not_eq_true] at hx
    rw [haction] at hdeployed ⊢
    generalize action.thread = t at *
    rcases hth : s.threads t with ⟨pc, status, entry, callers⟩
    rw [hth] at hrunning hexec
    obtain rfl : status = .running := hrunning
    cases t with
    | request =>
      have hat := h.request hx
      obtain ⟨hok, hcall⟩ := hdeployed
      rw [hth] at hat hcall
      exact request_step h hx hth hat rfl hok hcall hexec
    | worker =>
      have hat := h.worker hx
      obtain ⟨hcall, hok⟩ := hdeployed
      rw [hth] at hat hcall hok
      exact worker_step h hx hth hat rfl hcall hok hexec
  · -- the thread is in its wait, where nothing is seen
    obtain ⟨m, hm⟩ : ∃ m, (s.threads action.thread).status.missing = some m := by
      cases hst : (s.threads action.thread).status with
      | running => exact absurd hst hne
      | asleep m => exact ⟨m, rfl⟩
      | woken m => exact ⟨m, rfl⟩
    obtain ⟨rfl, hpc⟩ := h.missing _ m hm
    have hshows : threadsShow s action = [] := by
      cases action with
      | step t choice =>
        rw [threadsShow, show (s.threads t).pc = .getNextTest from hpc]
      | wake t => rfl
    rw [hshows]
    exact .stay (h.status_changes hmissing (howner _ (by simp [hm])) hdata hthreads)

theorem standsFor_init : StandsFor (threadsInit Thread) treeSkelInit where
  tree := rfl
  tasks := rfl
  exited := rfl
  treeLock := rfl
  destroyed := rfl
  request := fun _ => .outside
  worker := fun _ => .outside
  taking := fun h => absurd h (by simp [threadsInit])
  missing := fun t m hm => absurd hm (by simp [threadsInit, Status.missing])

end Step

/-- **The threads refine the machine.** Whatever the schedule, what a server with its mutexes,
condition variable and calls does, while no `malloc` fails and its requests are decoded messages,
is a run of `serverStep`: the same requests are taken, the same responses given and the same
writes replicated, in the same order, and the tree, the tasks and the owner of `tree_lock` are
the same at the end. Ids and sizes are those of the code below 2^31. -/
theorem threads_refine_server {actions : List (Action Thread ThreadChoice)} {s : ServerSystem}
    (hdeployed : StepsMeet (Locks.step serverProgram) Deployed (threadsInit Thread) actions)
    (hrun : run (Locks.step serverProgram) (threadsInit Thread) actions = some s) :
    ∃ serverActions a, run serverStep treeSkelInit serverActions = some a ∧
      history serverStep serverShows treeSkelInit serverActions
        = history (Locks.step serverProgram) threadsShow (threadsInit Thread) actions ∧
      a.tree = s.data.tree ∧ a.tasks = s.data.tasks ∧ a.exited = s.data.exited ∧
      a.treeLock = s.owner .treeLock := by
  obtain ⟨serverActions, a, hrun', hshows, h⟩ :=
    threads_simulate.run standsFor_init hdeployed hrun
  exact ⟨serverActions, a, hrun', hshows, h.tree, h.tasks, h.exited, h.treeLock⟩

/-! ## What follows for the threads -/

/-- The writes among the requests that a server took. -/
def requestedWrites (events : List ServerEvent) : List Message :=
  events.filterMap fun
    | .request message => if message.IsWrite then some message else none
    | _ => none

def replicatedWrites (events : List ServerEvent) : List Message :=
  events.filterMap fun
    | .replicated message => some message
    | _ => none

theorem requestedWrites_shows (a : ServerState) (action : ServerAction) :
    requestedWrites (serverShows a action) = action.newWrite := by
  cases action with
  | lockRequest request =>
    by_cases hw : request.1.IsWrite <;>
      simp [requestedWrites, serverShows, ServerAction.newWrite, hw]
  | unlockRequest =>
    unfold serverShows
    cases a.request <;> rfl
  | replicate ok =>
    unfold serverShows
    cases ok <;> cases a.worker <;> rfl
  | _ => rfl

theorem replicatedWrites_shows (a : ServerState) (action : ServerAction) :
    replicatedWrites (serverShows a action) = a.handedOver action := by
  cases action with
  | unlockRequest =>
    unfold serverShows
    cases a.request <;> rfl
  | replicate ok =>
    unfold serverShows ServerState.handedOver
    cases ok <;> cases a.worker <;> rfl
  | _ => rfl

/-- What a run of the machine shows is what it takes and hands over. -/
theorem shown_of_run {a a' : ServerState} {actions : List ServerAction}
    (h0 : ∃ log ks, ServerInv a log ks) (hrun : run serverStep a actions = some a') :
    a'.taken = a.taken ++ requestedWrites (history serverStep serverShows a actions) ∧
      a'.replicated
        = a.replicated ++ replicatedWrites (history serverStep serverShows a actions) := by
  induction actions generalizing a with
  | nil =>
    rw [run_nil, Option.some.injEq] at hrun
    rw [hrun]
    exact ⟨(List.append_nil _).symm, (List.append_nil _).symm⟩
  | cons action actions ih =>
    obtain ⟨a₁, h1, h2⟩ := Option.bind_eq_some_iff.1 hrun
    obtain ⟨log, ks, hinv⟩ := h0
    have hstep := serverStep_cases h1
    obtain ⟨htaken, hreplicated⟩ := ih (hinv.step hstep) h2
    rw [history_cons h1]
    constructor
    · rw [htaken, hinv.taken_step hstep, ← requestedWrites_shows a action, List.append_assoc]
      simp [requestedWrites]
    · rw [hreplicated, hinv.replicated_step hstep, ← replicatedWrites_shows a action,
        List.append_assoc]
      simp [replicatedWrites]

/-- **The threads execute the writes in order.** While no `malloc` fails and the requests are
decoded messages: whenever `tree_lock` is free, for some `k` the first `k` writes that were
requested are in the tree, were replicated, and have their results, and the others are in the
queue, all in the order of the requests. Ids and sizes are those of the code below 2^31. -/
theorem threads_execute_in_order {actions : List (Action Thread ThreadChoice)} {s : ServerSystem}
    (hdeployed : StepsMeet (Locks.step serverProgram) Deployed (threadsInit Thread) actions)
    (hrun : run (Locks.step serverProgram) (threadsInit Thread) actions = some s)
    (hfree : s.owner .treeLock = none) : ∃ (writes : List Message) (k : ℕ),
      writes = requestedWrites
        (history (Locks.step serverProgram) threadsShow (threadsInit Thread) actions) ∧
      k ≤ writes.length ∧ s.data.tree = treeAfter ((writes.take k).map Message.treeOp) ∧
      replicatedWrites
          (history (Locks.step serverProgram) threadsShow (threadsInit Thread) actions)
        = writes.take k ∧
      s.data.tasks.tasksResultsListHead
        = (List.range k).reverse.map (fun i => ⟨(i : ℤ), .successful⟩) ∧
      s.data.tasks.tasksQueueHead
        = (writes.zipIdx.drop k).map fun (m, i) => ⟨(i : ℤ), m⟩ := by
  obtain ⟨serverActions, a, hrun', hshows, h⟩ :=
    threads_simulate.run standsFor_init hdeployed hrun
  obtain ⟨log, ks, hinv⟩ := serverInv_of_run hrun'
  obtain ⟨htaken, hreplicated⟩ := shown_of_run ⟨_, _, treeSkelInit_inv⟩ hrun'
  have hlock : a.treeLock = none := h.treeLock.trans hfree
  have hdone := hinv.done hlock
  rw [hshows] at htaken hreplicated
  -- nothing is half done while the lock is free
  have hopen : a.request.openWrite = [] := by
    have hno : ¬ a.request.holdsLock := fun hr => absurd (hinv.requestLock.2 hr) (by simp [hlock])
    cases hr : a.request <;> simp [hr, RequestPc.holdsLock, RequestPc.openWrite] at hno ⊢
  have hsent : a.worker.sent = 0 := by
    have hno : ¬ a.worker.holdsLock := fun hw => absurd (hinv.workerLock.2 hw) (by simp [hlock])
    cases hw : a.worker <;> simp [hw, WorkerPc.holdsLock, WorkerPc.sent] at hno ⊢
  refine ⟨a.writes, log.outcomes.length, ?_, hdone.le, h.tree ▸ hdone.tree, ?_,
    h.tasks ▸ hdone.results, h.tasks ▸ hdone.queue⟩
  · rw [ServerState.taken, hopen, List.append_nil] at htaken
    exact htaken
  · rw [ServerState.replicated, hsent, Nat.add_zero, hinv.recorded_eq] at hreplicated
    exact hreplicated.symm

/-! A server that is asked to put two entries, from the requests to the replication. -/

private def requestSteps (request : Request) (n : ℕ) : List (Action Thread ThreadChoice) :=
  List.replicate n (.step .request ⟨.invoke (some request.1), true⟩)

private def workerSteps (n : ℕ) : List (Action Thread ThreadChoice) :=
  List.replicate n (.step .worker ⟨.processTasks, true⟩)

/-- The worker sleeps, is woken up by the first request, and executes both writes. -/
def putsSchedule : List (Action Thread ThreadChoice) :=
  workerSteps 4 ++ requestSteps putRequest 11 ++ requestSteps otherRequest 11 ++
    .wake .worker :: workerSteps 31

theorem putsSchedule_deployed :
    StepsMeet (Locks.step serverProgram) Deployed (threadsInit Thread) putsSchedule := by
  apply StepsMeet.of_forall
  intro action haction s
  simp only [putsSchedule, workerSteps, requestSteps, List.mem_append, List.mem_cons,
    List.mem_replicate] at haction
  rcases haction with (((⟨-, rfl⟩ | ⟨-, rfl⟩) | ⟨-, rfl⟩) | rfl | ⟨-, rfl⟩)
  · exact ⟨fun _ => rfl, fun _ _ _ => rfl⟩
  · exact ⟨rfl, fun _ => ⟨putRequest, rfl⟩⟩
  · exact ⟨rfl, fun _ => ⟨otherRequest, rfl⟩⟩
  · trivial
  · exact ⟨fun _ => rfl, fun _ _ _ => rfl⟩

/-- In the end the tree is unlocked, and both writes have their results. -/
theorem putsSchedule_run : ∃ s,
    run (Locks.step serverProgram) (threadsInit Thread) putsSchedule = some s ∧
      s.owner .treeLock = none ∧
      s.data.tasks.tasksResultsListHead = [⟨1, .successful⟩, ⟨0, .successful⟩] := by
  have hrun : ∃ s ∈ run (Locks.step serverProgram) (threadsInit Thread) putsSchedule,
      s.owner .treeLock = none ∧
        s.data.tasks.tasksResultsListHead = [⟨1, .successful⟩, ⟨0, .successful⟩] := by
    decide +kernel
  exact hrun

theorem threads_refine_server_puts : ∃ s,
    run (Locks.step serverProgram) (threadsInit Thread) putsSchedule = some s ∧
    s.data.tasks.tasksResultsListHead = [⟨1, .successful⟩, ⟨0, .successful⟩] ∧
    ∃ serverActions a, run serverStep treeSkelInit serverActions = some a ∧
      history serverStep serverShows treeSkelInit serverActions
        = history (Locks.step serverProgram) threadsShow (threadsInit Thread) putsSchedule ∧
      a.tree = s.data.tree ∧ a.tasks = s.data.tasks ∧ a.exited = s.data.exited ∧
      a.treeLock = s.owner .treeLock := by
  obtain ⟨s, hrun, -, hresults⟩ := putsSchedule_run
  exact ⟨s, hrun, hresults, threads_refine_server putsSchedule_deployed hrun⟩

theorem threads_execute_in_order_puts : ∃ s,
    run (Locks.step serverProgram) (threadsInit Thread) putsSchedule = some s ∧
    s.data.tasks.tasksResultsListHead = [⟨1, .successful⟩, ⟨0, .successful⟩] ∧
    ∃ (writes : List Message) (k : ℕ),
      writes = requestedWrites
        (history (Locks.step serverProgram) threadsShow (threadsInit Thread) putsSchedule) ∧
      k ≤ writes.length ∧ s.data.tree = treeAfter ((writes.take k).map Message.treeOp) ∧
      replicatedWrites
          (history (Locks.step serverProgram) threadsShow (threadsInit Thread) putsSchedule)
        = writes.take k ∧
      s.data.tasks.tasksResultsListHead
        = (List.range k).reverse.map (fun i => ⟨(i : ℤ), .successful⟩) ∧
      s.data.tasks.tasksQueueHead
        = (writes.zipIdx.drop k).map fun (m, i) => ⟨(i : ℤ), m⟩ := by
  obtain ⟨s, hrun, hfree, hresults⟩ := putsSchedule_run
  exact ⟨s, hrun, hresults, threads_execute_in_order putsSchedule_deployed hrun hfree⟩

end ReplicatedTree
