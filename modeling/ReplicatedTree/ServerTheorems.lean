import Mathlib.Data.List.Forall2
import ReplicatedTree.TreeSkelTheorems

/-!
# The server's invariant

`ServerInv s log ks` says what the state `s` of a server stands for: `log` is its log of
writes and `ks` tells, for each request answered, how many writes the tree had taken when the
answer was made. Between the execution of a write and its result the tree is one write ahead
of the results (`WorkerPc.ahead`). Every action keeps the invariant (`ServerInv.step`).
-/

namespace ReplicatedTree

open Transition

/-! ## What the program counters say -/

def RequestPc.holdsLock : RequestPc → Prop
  | .idle => False
  | _ => True

/-- What is known of the request in hand. -/
def RequestPc.Ok : RequestPc → Prop
  | .locked request => request.Wf ∧ request.content.Known
  | .created request _ => request.Wf ∧ request.content.Known ∧ request.IsWrite
  | _ => True

def WorkerPc.holdsLock : WorkerPc → Prop
  | .waiting | .peeked _ | .stopped => False
  | _ => True

/-- By how many writes the tree is ahead of the results. -/
def WorkerPc.ahead : WorkerPc → ℕ
  | .applied _ | .replicated _ => 1
  | _ => 0

/-- The task in hand is the oldest pending one; the branch that cannot handle it is never
taken, and the worker never returns. -/
def WorkerPc.Ok (log : TaskLog) : WorkerPc → Prop
  | .peeked task | .locked task | .applied task | .replicated task =>
    ∃ h : log.outcomes.length < log.accepted.length,
      task = ⟨log.outcomes.length, log.accepted.get ⟨log.outcomes.length, h⟩⟩
  | .waiting | .recorded => True
  | .cannotHandle _ | .stopped => False

/-- The task module stands for the log; a task in the making already took its id. -/
def TasksState.RefinesDuring (tasks : TasksState) (log : TaskLog) : RequestPc → Prop
  | .created request task =>
    ∃ tasks₀ : TasksState, tasks₀.Refines log ∧ taskCreate tasks₀ request = some (tasks, task)
  | _ => tasks.Refines log

/-! ## What the answers say -/

/-- The requests that read the tree. -/
def Message.IsQuery (m : Message) : Prop :=
  m.handler ≠ .writeOperation ∧ ∀ id, m.handler ≠ .verify id

/-- An answer made when `k` of the accepted writes were in the tree. -/
structure AnswerOk (accepted : List Message) (k : ℕ) (request response : Message) : Prop where
  query : request.IsQuery → (invokeQuery (treeOfWrites (accepted.take k)) request).map
    finishResponse = some response
  verified : ∀ id, request.handler = .verify id →
    response.content = .intResult TaskResult.successful.toInt → 0 ≤ id ∧ id < k

/-- The answers in order, each made at one of the moments `ks`. -/
structure AnswersOk (log : TaskLog) (ks : List ℕ) (answers : List (Message × Message)) :
    Prop where
  each : List.Forall₂ (fun k (q : Message × Message) => AnswerOk log.accepted k q.1 q.2)
    ks answers
  sorted : ks.Pairwise (· ≤ ·)
  le : ∀ k ∈ ks, k ≤ log.outcomes.length

/-- The invariant. -/
structure ServerInv (s : ServerState) (log : TaskLog) (ks : List ℕ) : Prop where
  tasks : s.tasks.RefinesDuring log s.request
  request : s.request.Ok
  writes : ∀ m ∈ log.accepted, m.Wf ∧ m.IsWrite
  outcomes : ∀ r ∈ log.outcomes, r = .successful
  accepted : acceptedWrites (s.answers ++ s.request.openAnswer)
    = log.accepted.zipIdx.map fun (m, i) => (m, (i : ℤ))
  answers : AnswersOk log ks (s.answers ++ s.request.openAnswer)
  worker : s.worker.Ok log
  tree : s.tree = treeOfWrites (log.accepted.take (log.outcomes.length + s.worker.ahead))
  executed : ∀ i m, i < log.outcomes.length + s.worker.ahead → log.accepted[i]? = some m →
    ¬ m.treeOp.Refused (treeOfWrites (log.accepted.take i))
  requestLock : s.treeLock = some .request ↔ s.request.holdsLock
  workerLock : s.treeLock = some .worker ↔ s.worker.holdsLock

theorem WorkerPc.Ok.push {pc : WorkerPc} {log : TaskLog} (h : pc.Ok log) (m : Message) :
    pc.Ok (log.push m) := by
  cases pc with
  | waiting | recorded => trivial
  | cannotHandle task | stopped => exact h.elim
  | peeked task | locked task | applied task | replicated task =>
    obtain ⟨hk, rfl⟩ := h
    refine ⟨?_, ?_⟩
    · show log.outcomes.length < (log.accepted ++ [m]).length
      rw [List.length_append]
      omega
    · simp [FifoLog.push, List.getElem_append_left hk]

theorem treeSkelInit_inv : ServerInv treeSkelInit FifoLog.empty [] where
  tasks := tasksInit_refines
  request := trivial
  writes := by
    intro m hm
    exact absurd hm List.not_mem_nil
  outcomes := by
    intro r hr
    exact absurd hr List.not_mem_nil
  accepted := rfl
  answers := ⟨.nil, .nil, by simp⟩
  worker := trivial
  tree := rfl
  executed := by
    intro i m hi
    exact absurd hi (Nat.not_lt_zero i)
  requestLock := by simp [treeSkelInit, RequestPc.holdsLock]
  workerLock := by simp [treeSkelInit, WorkerPc.holdsLock]

/-! ## Accepted writes and answers, one more at a time -/

theorem acceptedWrites_append (as bs : List (Message × Message)) :
    acceptedWrites (as ++ bs) = acceptedWrites as ++ acceptedWrites bs := List.filterMap_append

theorem opCode_ne_of_isWrite {m : Message} (h : m.IsWrite) : m.opCode + 1 ≠ opBad := by
  rcases (isWrite_iff m).1 h with ⟨hop, -⟩ | ⟨hop, -⟩ <;> rw [hop] <;> decide

theorem acceptedWrites_write {request : Message} (h : request.IsWrite) (n : ℕ) :
    acceptedWrites [(request, finishResponse (writeResponse request n))]
      = [(request, (n : ℤ))] := by
  have hne : (n : ℤ) ≠ -1 := by omega
  have hbad := opCode_ne_of_isWrite h
  simp [acceptedWrites, finishResponse, writeResponse, hbad, hne]

/-- Only writes are answered with an id. -/
theorem invokeRead_content {tree : TreeT} {tasks : TasksState} {request response : Message}
    (h : invokeRead tree tasks request = some response) (id : ℤ) :
    (finishResponse response).content ≠ .opId id := by
  have hread : response.content ≠ .opId id := by
    unfold invokeRead invokeQuery at h
    split at h
    · rw [Option.some.injEq] at h
      subst h
      simp [invokeVerify]
    · split at h
      · rw [Option.some.injEq] at h
        subst h
        simp [invokeTreeSize]
      · rw [Option.some.injEq] at h
        subst h
        simp [invokeTreeHeight]
      · rw [Option.some.injEq] at h
        subst h
        unfold invokeTreeGet
        split <;> simp
      · obtain ⟨keys, -, rfl⟩ := Option.map_eq_some_iff.1 h
        simp
      · rw [Option.some.injEq] at h
        subst h
        simp [messageCreate]
  unfold finishResponse
  split_ifs
  · simp
  · exact hread

theorem acceptedWrites_read {tree : TreeT} {tasks : TasksState} {request response : Message}
    (h : invokeRead tree tasks request = some response) :
    acceptedWrites [(request, finishResponse response)] = [] := by
  have hcontent := invokeRead_content h
  unfold acceptedWrites
  rw [filterMap_singleton]
  cases hc : (finishResponse response).content with
  | opId id => exact absurd hc (hcontent id)
  | _ => simp [hc]

/-- Later writes do not touch what an answer was made from. -/
theorem AnswerOk.push {accepted : List Message} {k : ℕ} {request response : Message}
    (h : AnswerOk accepted k request response) (hk : k ≤ accepted.length) (m : Message) :
    AnswerOk (accepted ++ [m]) k request response where
  query := by
    rw [List.take_append_of_le_length hk]
    exact h.query
  verified := h.verified

theorem AnswersOk.push {log : TaskLog} {ks : List ℕ} {answers : List (Message × Message)}
    (h : AnswersOk log ks answers) (m : Message) : AnswersOk (log.push m) ks answers where
  each := by
    have hmem := (List.forall₂_and_left ks answers).2 ⟨h.le, h.each⟩
    exact hmem.imp fun k q hq => hq.2.push (hq.1.trans log.outcomes_le) m
  sorted := h.sorted
  le := h.le

theorem AnswersOk.settle {log : TaskLog} {ks : List ℕ} {answers : List (Message × Message)}
    (h : AnswersOk log ks answers) (r : TaskResult)
    (hk : log.outcomes.length < log.accepted.length) :
    AnswersOk (log.settle r hk) ks answers where
  each := h.each
  sorted := h.sorted
  le := by
    intro k hmem
    have := h.le k hmem
    show k ≤ (log.outcomes ++ [r]).length
    rw [List.length_append]
    omega

/-- One more answer, made at the present moment. -/
theorem AnswersOk.concat {log : TaskLog} {ks : List ℕ} {answers : List (Message × Message)}
    (h : AnswersOk log ks answers) {request response : Message}
    (hq : AnswerOk log.accepted log.outcomes.length request response) :
    AnswersOk log (ks ++ [log.outcomes.length]) (answers ++ [(request, response)]) where
  each := List.rel_append h.each (.cons hq .nil)
  sorted := by
    rw [List.pairwise_append]
    refine ⟨h.sorted, List.pairwise_singleton _ _, fun k hk k' hk' => ?_⟩
    rw [List.mem_singleton.1 hk']
    exact h.le k hk
  le := by
    intro k hk
    rcases List.mem_append.1 hk with hk | hk
    · exact h.le k hk
    · rw [List.mem_singleton.1 hk]

/-! ## The task module while a task is being made -/

theorem TasksState.Refines.taskCreate_isSome {tasks : TasksState} {request : Message}
    (hwf : request.Wf) (hk : request.content.Known) : taskCreate tasks request ≠ none := by
  simp [taskCreate, messageDup_of_known hwf hk]

/-- Queueing the new task is the end of `tasks_add_task`. -/
theorem TasksState.Refines.enqueue {tasks₀ tasks : TasksState} {log : TaskLog}
    {request : Message} {task : TaskT} (h : tasks₀.Refines log) (hwf : request.Wf)
    (hk : request.content.Known) (hc : taskCreate tasks₀ request = some (tasks, task)) :
    (tasksEnqueue tasks task).Refines (log.push request) ∧
      task.taskId = log.accepted.length := by
  obtain ⟨hid, href⟩ := h.tasksAddTask_known hwf hk
  simp only [tasksAddTask, hc] at hid href
  exact ⟨href, hid⟩

/-- What the worker gets next does not depend on a task in the making. -/
theorem TasksState.RefinesDuring.tasksGetNext_eq {tasks : TasksState} {log : TaskLog}
    {pc : RequestPc} (h : tasks.RefinesDuring log pc) :
    tasksGetNext tasks = if hk : log.outcomes.length < log.accepted.length then
      some (some ⟨log.outcomes.length, log.accepted.get ⟨log.outcomes.length, hk⟩⟩)
    else none := by
  cases pc with
  | created request task =>
    obtain ⟨tasks₀, href, hc⟩ := h
    rw [← href.tasksGetNext_eq]
    obtain ⟨copied, -, heq⟩ := Option.map_eq_some_iff.1 hc
    simp only [Prod.mk.injEq] at heq
    rw [← heq.1]
    rfl
  | _ => exact TasksState.Refines.tasksGetNext_eq h

theorem TasksState.RefinesDuring.results_eq {tasks : TasksState} {log : TaskLog}
    {pc : RequestPc} (h : tasks.RefinesDuring log pc) :
    tasks.tasksResultsListHead = log.settled.map fun (r, i) => ⟨i, r⟩ := by
  cases pc with
  | created request task =>
    obtain ⟨tasks₀, href, hc⟩ := h
    obtain ⟨copied, -, heq⟩ := Option.map_eq_some_iff.1 hc
    simp only [Prod.mk.injEq] at heq
    rw [← href.results_eq, ← heq.1]
  | _ => exact TasksState.Refines.results_eq h

/-! ## The answers of `handle` -/

theorem toInt_eq_successful {r : TaskResult} (h : r.toInt = TaskResult.successful.toInt) :
    r = .successful := by
  cases r <;> simp [TaskResult.toInt] at h ⊢

/-- A response made with the tree and the results at the same point of the log. -/
theorem answerOk_of_read {tasks : TasksState} {log : TaskLog} {request response : Message}
    (h : tasks.Refines log)
    (hresp : invokeRead (treeOfWrites (log.accepted.take log.outcomes.length)) tasks request
      = some response) :
    AnswerOk log.accepted log.outcomes.length request (finishResponse response) where
  query := by
    intro hq
    have hread : invokeRead (treeOfWrites (log.accepted.take log.outcomes.length)) tasks request
        = invokeQuery (treeOfWrites (log.accepted.take log.outcomes.length)) request := by
      unfold invokeRead
      split
      · exact absurd ‹_› (hq.2 _)
      · rfl
    rw [← hread, hresp]
    rfl
  verified := by
    intro id hid hcontent
    unfold invokeRead at hresp
    rw [hid, Option.some.injEq] at hresp
    subst hresp
    unfold finishResponse at hcontent
    split_ifs at hcontent
    · simp [TaskResult.toInt] at hcontent
    · have hres := toInt_eq_successful (Content.intResult.inj hcontent)
      rw [h.tasksGetResult_eq] at hres
      by_cases hneg : 0 ≤ id
      · rw [if_pos hneg] at hres
        have hlt : id.toNat < log.outcomes.length := by
          by_contra hge
          rw [List.getElem?_eq_none (by omega)] at hres
          exact absurd hres (by decide)
        omega
      · rw [if_neg hneg] at hres
        exact absurd hres (by decide)

/-- A write's response says nothing about the tree. -/
theorem answerOk_of_write (accepted : List Message) (k : ℕ) {request : Message}
    (hw : request.IsWrite) (response : Message) : AnswerOk accepted k request response where
  query := fun hq => absurd hw hq.1
  verified := by
    intro id hid
    rw [Message.IsWrite, hid] at hw
    exact absurd hw (by simp)

/-! ## Every action keeps the invariant -/

namespace ServerInv

variable {s s' : ServerState} {log : TaskLog} {ks : List ℕ}

theorem request_idle (h : ServerInv s log ks) (hw : s.worker.holdsLock) :
    s.request = .idle := by
  have hlock := h.workerLock.2 hw
  have hno : ¬ s.request.holdsLock := by
    intro hr
    rw [h.requestLock.2 hr] at hlock
    exact absurd hlock (by simp)
  cases hr : s.request <;> simp [hr, RequestPc.holdsLock] at hno ⊢

/-- Without the lock, the worker has no write half done. -/
theorem ahead_of_lock (h : ServerInv s log ks) (hl : s.treeLock ≠ some .worker) :
    s.worker.ahead = 0 := by
  have hno : ¬ s.worker.holdsLock := fun hw => hl (h.workerLock.2 hw)
  cases hw : s.worker <;> simp [hw, WorkerPc.holdsLock, WorkerPc.ahead] at hno ⊢

theorem ahead_of_request (h : ServerInv s log ks) (hr : s.request.holdsLock) :
    s.worker.ahead = 0 := by
  apply h.ahead_of_lock
  rw [h.requestLock.2 hr]
  simp

/-- While the request thread has the lock, the tree is not ahead of the results. -/
theorem tree_of_request (h : ServerInv s log ks) (hr : s.request.holdsLock) :
    s.tree = treeOfWrites (log.accepted.take log.outcomes.length) := by
  rw [h.tree, h.ahead_of_request hr, Nat.add_zero]

/-- The writes queued so far are those of the log. -/
theorem writes_eq (h : ServerInv s log ks) : s.writes = log.accepted := by
  unfold ServerState.writes
  rw [h.accepted, List.map_map]
  exact List.zipIdx_map_fst 0 log.accepted

/-- The tree of the first writes is the one after their calls. -/
theorem treeOfWrites_take (h : ServerInv s log ks) (k : ℕ) :
    treeOfWrites (log.accepted.take k) = treeAfter ((s.writes.take k).map Message.treeOp) := by
  rw [h.writes_eq]
  exact treeOfWrites_eq fun m hm => (h.writes m (List.mem_of_mem_take hm)).2

theorem refines_of_worker (h : ServerInv s log ks) (hw : s.worker.holdsLock) :
    s.tasks.Refines log := by
  have htasks := h.tasks
  rw [h.request_idle hw] at htasks
  exact htasks

/-- The write the worker is about to execute is the next one of the log. -/
theorem worker_write (h : ServerInv s log ks) {task : TaskT} (hw : s.worker = .locked task) :
    ∃ hk : log.outcomes.length < log.accepted.length,
      task = ⟨log.outcomes.length, log.accepted.get ⟨log.outcomes.length, hk⟩⟩ ∧
      task.opCodeAndArgs.IsWrite := by
  have hok := h.worker
  rw [hw] at hok
  obtain ⟨hk, rfl⟩ := hok
  exact ⟨hk, rfl, (h.writes _ (List.get_mem _ _)).2⟩

/-- Whether the process has exited does not matter to the invariant. -/
theorem exit (h : ServerInv s log ks) (b : Bool) : ServerInv { s with exited := b } log ks :=
  ⟨h.tasks, h.request, h.writes, h.outcomes, h.accepted, h.answers, h.worker, h.tree, h.executed,
    h.requestLock, h.workerLock⟩

/-- A request is answered from the tree as it is. -/
theorem read (h : ServerInv s log ks) {request response : Message}
    (hr : s.request = .locked request)
    (hresp : invokeRead s.tree s.tasks request = some response) :
    ServerInv { s with request := .answered request response } log
      (ks ++ [log.outcomes.length]) := by
  obtain ⟨tree, tasks, treeLock, _, worker, exited, answers⟩ := s
  dsimp only at hr hresp
  subst hr
  have htree : tree = treeOfWrites (log.accepted.take log.outcomes.length) :=
    h.tree_of_request trivial
  have hanswers := h.answers
  have haccepted := h.accepted
  simp only [RequestPc.openAnswer, List.append_nil] at hanswers haccepted
  refine ⟨h.tasks, trivial, h.writes, h.outcomes, ?_, ?_,
    h.worker, h.tree, h.executed, h.requestLock, h.workerLock⟩
  · show acceptedWrites (answers ++ _) = _
    rw [acceptedWrites_append, haccepted, RequestPc.openAnswer, acceptedWrites_read hresp,
      List.append_nil]
  · rw [htree] at hresp
    exact hanswers.concat (answerOk_of_read h.tasks hresp)

/-- A write is queued. -/
theorem enqueue (h : ServerInv s log ks) {request : Message} {task : TaskT}
    (hr : s.request = .created request task) :
    ServerInv { s with
      tasks := tasksEnqueue s.tasks task
      request := .answered request (writeResponse request task.taskId) } (log.push request)
      (ks ++ [log.outcomes.length]) := by
  obtain ⟨tree, tasks, treeLock, _, worker, exited, answers⟩ := s
  dsimp only at hr
  subst hr
  obtain ⟨tasks₀, href, hc⟩ := h.tasks
  obtain ⟨hwf, hknown, hw⟩ := h.request
  obtain ⟨henq, hid⟩ := href.enqueue hwf hknown hc
  have hle := log.outcomes_le
  have hanswers := h.answers
  have haccepted := h.accepted
  simp only [RequestPc.openAnswer, List.append_nil] at hanswers haccepted
  have htree : tree = treeOfWrites (log.accepted.take log.outcomes.length) :=
    h.tree_of_request trivial
  have hahead : worker.ahead = 0 := h.ahead_of_request trivial
  refine ⟨henq, trivial, ?_, h.outcomes, ?_, ?_,
    ?_, ?_, ?_, h.requestLock, h.workerLock⟩
  · intro m hm
    rcases List.mem_append.1 hm with hm | hm
    · exact h.writes m hm
    · rw [List.mem_singleton.1 hm]
      exact ⟨hwf, hw⟩
  · show acceptedWrites (answers ++ _) = (log.accepted ++ [request]).zipIdx.map _
    rw [acceptedWrites_append, haccepted, RequestPc.openAnswer, hid, acceptedWrites_write hw,
      List.zipIdx_append, List.map_append]
    simp
  · exact (hanswers.push request).concat (answerOk_of_write _ _ hw _)
  · exact h.worker.push request
  · show tree = treeOfWrites ((log.accepted ++ [request]).take
      (log.outcomes.length + worker.ahead))
    rw [hahead, Nat.add_zero, List.take_append_of_le_length hle, htree]
  · intro i m hi hm
    have hlt : i < log.accepted.length := by
      have hi' : i < log.outcomes.length + worker.ahead := hi
      omega
    have hm' : (log.accepted ++ [request])[i]? = some m := hm
    rw [List.getElem?_append_left hlt] at hm'
    show ¬ m.treeOp.Refused (treeOfWrites ((log.accepted ++ [request]).take i))
    rw [List.take_append_of_le_length hlt.le]
    exact h.executed i m hi hm'

/-- An answer is given. -/
theorem unlockRequest (h : ServerInv s log ks) {request response : Message}
    (hr : s.request = .answered request response) :
    ServerInv { s with
      treeLock := none
      request := .idle
      answers := s.answers ++ [(request, finishResponse response)] } log ks := by
  obtain ⟨tree, tasks, treeLock, _, worker, exited, answers⟩ := s
  dsimp only at hr
  subst hr
  have hlock : treeLock = some .request := h.requestLock.2 trivial
  refine ⟨h.tasks, trivial, h.writes, h.outcomes, ?_, ?_, h.worker, h.tree,
    h.executed, ?_, ?_⟩
  · have haccepted := h.accepted
    simpa [RequestPc.openAnswer] using haccepted
  · have hanswers := h.answers
    simpa [RequestPc.openAnswer] using hanswers
  · exact iff_of_false (by simp) id
  · refine iff_of_false (by simp) fun hw => ?_
    have hlock' : treeLock = some .worker := h.workerLock.2 hw
    rw [hlock] at hlock'
    exact absurd hlock' (by simp)

/-- The next write of the queue is carried out. -/
theorem execute (h : ServerInv s log ks) {task : TaskT} {tree' : TreeT} {result : ℤ}
    (hw : s.worker = .locked task)
    (he : executeWrite s.tree task.opCodeAndArgs = some (tree', result)) (hres : 0 ≤ result) :
    ServerInv { s with tree := tree', worker := .applied task } log ks := by
  obtain ⟨tree, tasks, treeLock, request, _, exited, answers⟩ := s
  dsimp only at hw he
  subst hw
  obtain ⟨hk, htask, hwrite⟩ := h.worker_write rfl
  have htree : tree = treeOfWrites (log.accepted.take log.outcomes.length) := h.tree
  have hmsg : task.opCodeAndArgs = log.accepted[log.outcomes.length] := by rw [htask]; rfl
  refine ⟨h.tasks, h.request, h.writes, h.outcomes, h.accepted, h.answers,
    ⟨hk, htask⟩, ?_, ?_, h.requestLock, h.workerLock⟩
  · show tree' = treeOfWrites (log.accepted.take (log.outcomes.length + 1))
    rw [List.take_add_one, List.getElem?_eq_getElem hk, Option.toList_some,
      treeOfWrites_concat, ← htree, ← hmsg]
    unfold applyWrite
    rw [he]
  · intro i m hi hm
    have hi' : i < log.outcomes.length + 1 := hi
    by_cases hlt : i < log.outcomes.length
    · exact h.executed i m hlt hm
    · have heq : i = log.outcomes.length := by omega
      rw [heq, List.getElem?_eq_getElem hk, Option.some.injEq, ← hmsg] at hm
      rw [heq, ← htree, ← hm, ← TreeOp.exec_neg_iff]
      rw [executeWrite_eq tree hwrite, Option.some.injEq] at he
      rw [he]
      exact not_lt.2 hres

/-- The result of a write that was carried out is stored. -/
theorem setSuccessful (h : ServerInv s log ks) {task : TaskT} (hw : s.worker = .replicated task) :
    ∃ log, ServerInv { s with
      tasks := (tasksSetResult s.tasks task.taskId .successful).1
      worker := .recorded } log ks := by
  obtain ⟨tree, tasks, treeLock, request, _, exited, answers⟩ := s
  dsimp only at hw
  subst hw
  obtain ⟨hk, rfl⟩ := h.worker
  have hidle : request = .idle := h.request_idle trivial
  subst hidle
  have href : tasks.Refines log := h.tasks
  refine ⟨log.settle .successful hk, ?_, trivial, h.writes, ?_, h.accepted,
    h.answers.settle _ hk, trivial, ?_, ?_, h.requestLock, ?_⟩
  · exact (href.tasksSetResult_next hk (by simp)).2
  · intro r hr
    rcases List.mem_append.1 hr with hr | hr
    · exact h.outcomes r hr
    · exact List.mem_singleton.1 hr
  · show tree = treeOfWrites (log.accepted.take ((log.outcomes ++ [_]).length + 0))
    rw [List.length_append]
    exact h.tree
  · intro i m hi hm
    have hi' : i < (log.outcomes ++ [TaskResult.successful]).length + 0 := hi
    rw [List.length_append, List.length_singleton] at hi'
    exact h.executed i m hi' hm
  · exact iff_of_true (h.workerLock.2 trivial) trivial

/-- Every step keeps the invariant. -/
theorem step (h : ServerInv s log ks) {a : ServerAction} (hstep : ServerStep s a s') :
    ∃ log' ks', ServerInv s' log' ks' := by
  obtain ⟨tree, tasks, treeLock, request, worker, exited, answers⟩ := s
  cases hstep with
  | lockRequest r hr hl =>
    dsimp only at hr hl
    subst hr hl
    refine ⟨log, ks, h.tasks, r.2, h.writes, h.outcomes, h.accepted, h.answers, h.worker,
      h.tree, h.executed, ?_, ?_⟩
    · exact iff_of_true rfl trivial
    · exact iff_of_false (by simp) fun hw => absurd (h.workerLock.2 hw) (by simp)
  | create hr hw hc =>
    dsimp only at hr hc
    subst hr
    exact ⟨log, ks, ⟨tasks, h.tasks, hc⟩, ⟨h.request.1, h.request.2, hw⟩, h.writes, h.outcomes,
      h.accepted, h.answers, h.worker, h.tree, h.executed, h.requestLock, h.workerLock⟩
  | createFails hr hc =>
    -- a request can always be copied into a task
    dsimp only at hr hc
    subst hr
    exact absurd hc (TasksState.Refines.taskCreate_isSome h.request.1 h.request.2)
  | read hr hw hresp => exact ⟨log, _, h.read hr hresp⟩
  | readFaults hr hresp => exact ⟨log, ks, h.exit true⟩
  | enqueue hr => exact ⟨_, _, h.enqueue hr⟩
  | unlockRequest hr => exact ⟨log, ks, h.unlockRequest hr⟩
  | getNext hw hn =>
    dsimp only at hw hn
    subst hw
    rw [h.tasks.tasksGetNext_eq] at hn
    split_ifs at hn with hk
    rw [Option.some.injEq, Option.some.injEq] at hn
    exact ⟨log, ks, h.tasks, h.request, h.writes, h.outcomes, h.accepted, h.answers,
      ⟨hk, hn.symm⟩, h.tree, h.executed, h.requestLock, h.workerLock⟩
  | stop hw hn =>
    -- the tasks are not destroyed while the server runs
    dsimp only at hn
    rw [h.tasks.tasksGetNext_eq] at hn
    split_ifs at hn
    simp at hn
  | lockTask hw hl =>
    dsimp only at hw hl
    subst hw hl
    refine ⟨log, ks, h.tasks, h.request, h.writes, h.outcomes, h.accepted, h.answers, h.worker,
      h.tree, h.executed, ?_, ?_⟩
    · exact iff_of_false (by simp) fun hr => absurd (h.requestLock.2 hr) (by simp)
    · exact iff_of_true rfl trivial
  | execute hw he hres => exact ⟨log, ks, h.execute hw he hres⟩
  | refuse hw he hres =>
    dsimp only at hw he
    subst hw
    obtain ⟨hk, htask, hwrite⟩ := h.worker_write rfl
    rw [executeWrite_eq tree hwrite, Option.some.injEq] at he
    -- the tree is the same after an operation that is refused
    have hsame := TreeOp.exec_refused (TreeOp.exec_neg_iff.1 (by rw [he]; exact hres))
    rw [he] at hsame
    obtain ⟨rfl, -⟩ := Prod.mk.inj hsame
    exact ⟨log, ks, h.exit true⟩
  | cannotHandle hw he =>
    -- only writes are made tasks
    dsimp only at hw he
    subst hw
    obtain ⟨hk, htask, hwrite⟩ := h.worker_write rfl
    rw [executeWrite_eq tree hwrite] at he
    exact absurd he (by simp)
  | replicate hw =>
    dsimp only at hw
    subst hw
    exact ⟨log, ks, h.tasks, h.request, h.writes, h.outcomes, h.accepted, h.answers, h.worker,
      h.tree, h.executed, h.requestLock, h.workerLock⟩
  | replicateFails hw => exact ⟨log, ks, h.exit true⟩
  | setSuccessful hw =>
    obtain ⟨log', hinv⟩ := h.setSuccessful hw
    exact ⟨log', ks, hinv⟩
  | setFailed hw =>
    dsimp only at hw
    subst hw
    exact h.worker.elim
  | unlockTask hw =>
    dsimp only at hw
    subst hw
    have hidle : request = .idle := h.request_idle trivial
    subst hidle
    refine ⟨log, ks, h.tasks, trivial, h.writes, h.outcomes, h.accepted, h.answers, trivial,
      h.tree, h.executed, ?_, ?_⟩
    · exact iff_of_false (by simp) id
    · exact iff_of_false (by simp) id

end ServerInv

theorem serverInv_of_run_from {as : List ServerAction} {s s' : ServerState}
    (h0 : ∃ log ks, ServerInv s log ks) (h : run serverStep s as = some s') :
    ∃ log ks, ServerInv s' log ks :=
  run_invariant (P := fun s => ∃ log ks, ServerInv s log ks)
    (fun _ _ _ ⟨_, _, hinv⟩ hstep => hinv.step (serverStep_cases hstep)) h0 h

theorem serverInv_of_run {as : List ServerAction} {s : ServerState}
    (h : run serverStep treeSkelInit as = some s) : ∃ log ks, ServerInv s log ks :=
  serverInv_of_run_from ⟨FifoLog.empty, [], treeSkelInit_inv⟩ h

end ReplicatedTree
