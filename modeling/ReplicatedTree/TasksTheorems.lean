import ReplicatedTree.Lib.FifoLog
import ReplicatedTree.Lib.Transition
import ReplicatedTree.Tasks

/-!
# The task module is a first-in first-out log — theorems about `Tasks`

`TasksState.Refines` relates the two lists and the counter to a `FifoLog` whose items are
the accepted messages and whose outcomes are the recorded results. Each function has one
lemma that says what it does in terms of the log (`tasksAddTask_eq`, `tasksGetNext_eq`,
`tasksSetResult_eq`, `tasksGetResult_eq`); callers in other modules use these only.
-/

namespace ReplicatedTree

open Transition

theorem filterMap_singleton {α β : Type*} (f : α → Option β) (a : α) :
    [a].filterMap f = (f a).toList := by
  cases h : f a <;> simp [h]

/-- The log of a server's writes. -/
abbrev TaskLog := FifoLog Message TaskResult

/-- The module state that stands for a log. -/
structure TasksState.Refines (st : TasksState) (log : TaskLog) : Prop where
  queue_eq : st.tasksQueueHead = log.pending.map fun (msg, i) => ⟨i, msg⟩
  results_eq : st.tasksResultsListHead = log.settled.map fun (r, i) => ⟨i, r⟩
  last_eq : st.lastTaskIdAssigned = log.accepted.length - 1
  not_destroyed : st.destroyed = false

theorem tasksInit_refines : tasksInit.Refines FifoLog.empty where
  queue_eq := rfl
  results_eq := rfl
  last_eq := rfl
  not_destroyed := rfl

/-! ## What each function does to the log -/

/-- NULL and messages that cannot be copied are refused. -/
theorem tasksAddTask_refused (st : TasksState) {msg : Option Message} (hwf : ∀ m ∈ msg, m.Wf)
    (h : ∀ m ∈ msg, ¬ m.content.Known) : tasksAddTask st msg = (st, -1) := by
  cases msg with
  | none => rfl
  | some m =>
    have hdup : messageDup m = none := by rw [messageDup_eq (hwf m rfl), if_neg (h m rfl)]
    simp [tasksAddTask, taskCreate, hdup]

theorem wf_of_mem_map {msg : Option { m : Message // m.Wf }} :
    ∀ m ∈ msg.map Subtype.val, m.Wf := by
  intro m hm
  obtain ⟨m', -, rfl⟩ := Option.map_eq_some_iff.1 hm
  exact m'.2

namespace TasksState.Refines

variable {st : TasksState} {log : TaskLog}

/-- A message that can be copied gets the next position as its id. -/
theorem tasksAddTask_known (h : st.Refines log) {msg : Message} (hwf : msg.Wf)
    (hk : msg.content.Known) :
    (tasksAddTask st (some msg)).2 = log.accepted.length ∧
      (tasksAddTask st (some msg)).1.Refines (log.push msg) := by
  have hid : st.lastTaskIdAssigned + 1 = log.accepted.length := by
    rw [h.last_eq]
    omega
  simp only [tasksAddTask, taskCreate, messageDup_of_known hwf hk, Option.map_some, hid,
    tasksEnqueue]
  refine ⟨trivial, ?_, ?_, ?_, h.not_destroyed⟩
  · show st.tasksQueueHead ++ _ = _
    rw [h.queue_eq, FifoLog.pending_push, List.map_append]
    rfl
  · show st.tasksResultsListHead = _
    rw [h.results_eq, FifoLog.settled_push]
  · show (log.accepted.length : ℤ) = ((log.accepted ++ [msg]).length : ℤ) - 1
    rw [List.length_append, List.length_singleton]
    omega

/-- The head of the queue is the oldest pending message. -/
theorem queue_eq_cons (h : st.Refines log) (hk : log.outcomes.length < log.accepted.length)
    (r : TaskResult) : st.tasksQueueHead
      = ⟨log.outcomes.length, log.accepted.get ⟨log.outcomes.length, hk⟩⟩
        :: (log.settle r hk).pending.map fun (msg, i) => ⟨i, msg⟩ := by
  rw [h.queue_eq, log.pending_eq_cons hk r, List.map_cons]

theorem queue_eq_nil (h : st.Refines log) :
    st.tasksQueueHead = [] ↔ log.outcomes.length = log.accepted.length := by
  rw [h.queue_eq, List.map_eq_nil_iff, FifoLog.pending_eq_nil]

/-- `tasks_get_next` answers the oldest pending task, and blocks when there is none. -/
theorem tasksGetNext_eq (h : st.Refines log) :
    tasksGetNext st = if hk : log.outcomes.length < log.accepted.length then
      some (some ⟨log.outcomes.length, log.accepted.get ⟨log.outcomes.length, hk⟩⟩)
    else none := by
  have hle := log.outcomes_le
  unfold tasksGetNext
  rw [h.not_destroyed]
  by_cases hk : log.outcomes.length < log.accepted.length
  · simp [h.queue_eq_cons hk .successful, hk]
  · simp [h.queue_eq_nil.2 (by omega), hk]

/-- The result of the oldest pending task is recorded, when it says anything at all. -/
theorem tasksSetResult_next (h : st.Refines log)
    (hk : log.outcomes.length < log.accepted.length) {r : TaskResult} (hr : r ≠ .notExecuted) :
    (tasksSetResult st log.outcomes.length r).2 = 0 ∧
      (tasksSetResult st log.outcomes.length r).1.Refines (log.settle r hk) := by
  unfold tasksSetResult
  simp only [h.queue_eq_cons hk r, ne_eq, not_true_eq_false, if_false, if_neg hr]
  refine ⟨trivial, rfl, ?_, h.last_eq, h.not_destroyed⟩
  show _ :: st.tasksResultsListHead = _
  rw [h.results_eq, FifoLog.settled_settle, List.map_cons]

/-- Every other result is refused. -/
theorem tasksSetResult_refused (h : st.Refines log) {taskId : ℤ} {r : TaskResult}
    (hno : ¬ (log.outcomes.length < log.accepted.length ∧ taskId = log.outcomes.length ∧
      r ≠ .notExecuted)) : tasksSetResult st taskId r = (st, -1) := by
  have hle := log.outcomes_le
  unfold tasksSetResult
  by_cases hk : log.outcomes.length < log.accepted.length
  · rw [h.queue_eq_cons hk r]
    by_cases hid : (log.outcomes.length : ℤ) = taskId
    · have hr : r = .notExecuted := by
        by_contra hr
        exact hno ⟨hk, hid.symm, hr⟩
      simp [hid, hr]
    · simp [hid]
  · rw [h.queue_eq_nil.2 (by omega)]

theorem tasksSetResult_eq_zero (h : st.Refines log) (taskId : ℤ) (r : TaskResult) :
    (tasksSetResult st taskId r).2 = 0 ↔
      log.outcomes.length < log.accepted.length ∧ taskId = log.outcomes.length ∧
        r ≠ .notExecuted := by
  by_cases hyes : log.outcomes.length < log.accepted.length ∧ taskId = log.outcomes.length ∧
      r ≠ .notExecuted
  · obtain ⟨hk, rfl, hr⟩ := hyes
    exact iff_of_true (h.tasksSetResult_next hk hr).1 ⟨hk, rfl, hr⟩
  · rw [h.tasksSetResult_refused hyes]
    exact iff_of_false (show ¬ (-1 : ℤ) = 0 by decide) hyes

/-- A result that is taken moves the head of the queue to the results. -/
theorem tasksSetResult_of_zero {st : TasksState} {taskId : ℤ} {r : TaskResult}
    (h : (tasksSetResult st taskId r).2 = 0) : (tasksSetResult st taskId r).1 = { st with
      tasksQueueHead := st.tasksQueueHead.tail
      tasksResultsListHead := ⟨taskId, r⟩ :: st.tasksResultsListHead } := by
  unfold tasksSetResult at h ⊢
  cases hq : st.tasksQueueHead with
  | nil => simp [hq] at h
  | cons task next =>
    rw [hq] at h
    by_cases hid : task.taskId ≠ taskId
    · simp [hid] at h
    · by_cases hr : r = .notExecuted
      · simp [hr] at h
      · simp only [if_neg hid, if_neg hr, List.tail_cons]

/-- A call that answers -1 accepted nothing. -/
theorem tasksAddTask_of_neg (h : st.Refines log) {msg : Option Message}
    (hwf : ∀ m ∈ msg, m.Wf) (hneg : (tasksAddTask st msg).2 = -1) :
    (tasksAddTask st msg).1 = st := by
  by_cases hk : ∀ m ∈ msg, ¬ m.content.Known
  · rw [tasksAddTask_refused st hwf hk]
  · push Not at hk
    obtain ⟨m, rfl, hm⟩ := hk
    have hid := (h.tasksAddTask_known (hwf m rfl) hm).1
    omega

/-- Every id given out is in one of the two lists, once. -/
theorem ids_perm (h : st.Refines log) :
    (st.tasksQueueHead.map TaskT.taskId
      ++ st.tasksResultsListHead.map TaskResultNode.taskId).Perm
        ((List.range log.accepted.length).map Int.ofNat) := by
  have hids : st.tasksQueueHead.map TaskT.taskId
        ++ st.tasksResultsListHead.map TaskResultNode.taskId
      = (log.pending.map Prod.snd ++ log.settled.map Prod.snd).map Int.ofNat := by
    rw [h.queue_eq, h.results_eq, List.map_append]
    simp only [List.map_map]
    rfl
  rw [hids]
  exact log.positions_perm.map _

/-- Results are listed with falling ids, so the scan may stop early. -/
theorem tasksResultsScan_settled (outcomes : List TaskResult) (taskId : ℤ) :
    tasksResultsScan taskId (outcomes.zipIdx.reverse.map fun (r, i) => ⟨i, r⟩)
      = if 0 ≤ taskId then outcomes[taskId.toNat]?.getD .notExecuted else .notExecuted := by
  -- from the newest outcome backwards, as the scan goes
  induction outcomes using List.reverseRecOn with
  | nil => simp [tasksResultsScan]
  | append_singleton outcomes r ih =>
    have hscan : (outcomes ++ [r]).zipIdx.reverse.map
          (fun (r, i) => (⟨i, r⟩ : TaskResultNode))
        = ⟨outcomes.length, r⟩ :: outcomes.zipIdx.reverse.map fun (r, i) => ⟨i, r⟩ := by
      simp [List.zipIdx_append]
    rw [hscan, tasksResultsScan, ih]
    show (if (outcomes.length : ℤ) ≥ taskId then
      if (outcomes.length : ℤ) = taskId then r else _ else _) = _
    by_cases hge : (outcomes.length : ℤ) ≥ taskId
    · rw [if_pos hge]
      by_cases heq : (outcomes.length : ℤ) = taskId
      · have hnat : taskId.toNat = outcomes.length := by omega
        have hnonneg : 0 ≤ taskId := by omega
        simp [heq, hnat, hnonneg]
      · rw [if_neg heq]
        by_cases hneg : 0 ≤ taskId
        · rw [if_pos hneg, if_pos hneg, List.getElem?_append_left (by omega)]
        · rw [if_neg hneg, if_neg hneg]
    · have hlen : (outcomes ++ [r]).length ≤ taskId.toNat := by
        rw [List.length_append, List.length_singleton]
        omega
      rw [if_neg hge, List.getElem?_eq_none hlen]
      simp

/-- `tasks_get_result` answers the recorded outcome of the id. -/
theorem tasksGetResult_eq (h : st.Refines log) (taskId : ℤ) :
    tasksGetResult st taskId
      = if 0 ≤ taskId then log.outcomes[taskId.toNat]?.getD .notExecuted else .notExecuted := by
  unfold tasksGetResult
  rw [h.results_eq]
  exact tasksResultsScan_settled log.outcomes taskId

end TasksState.Refines

/-! ## Every run of calls -/

/-- The message a call got accepted. -/
def TasksCall.accepted : TasksCall × TasksAnswer → Option Message
  | (.addTask (some msg), .int id) => if id = -1 then none else some msg.1
  | _ => none

/-- The result a call got recorded. -/
def TasksCall.recorded : TasksCall × TasksAnswer → Option TaskResult
  | (.setResult _ r, .int 0) => some r
  | _ => none

/-- What one call does to the log. -/
theorem TasksState.Refines.call {st st' : TasksState} {log : TaskLog} {call : TasksCall}
    {answer : TasksAnswer} (h : st.Refines log) (hcall : tasksCall st call = some (st', answer)) :
    ∃ log' : TaskLog, st'.Refines log' ∧
      log'.accepted = log.accepted ++ (TasksCall.accepted (call, answer)).toList ∧
      log'.outcomes = log.outcomes ++ (TasksCall.recorded (call, answer)).toList := by
  -- a call that is refused, or only reads, leaves the log alone
  have hsame : TasksCall.accepted (call, answer) = none →
      TasksCall.recorded (call, answer) = none → ∃ log' : TaskLog, st.Refines log' ∧
        log'.accepted = log.accepted ++ (TasksCall.accepted (call, answer)).toList ∧
        log'.outcomes = log.outcomes ++ (TasksCall.recorded (call, answer)).toList := by
    intro ha hr
    rw [ha, hr]
    exact ⟨log, h, (List.append_nil _).symm, (List.append_nil _).symm⟩
  cases call with
  | addTask msg =>
    simp only [tasksCall, Option.some.injEq, Prod.mk.injEq] at hcall
    obtain ⟨rfl, rfl⟩ := hcall
    by_cases hk : ∃ m ∈ msg, m.1.content.Known
    · obtain ⟨m, rfl, hk⟩ := hk
      obtain ⟨hid, href⟩ := h.tasksAddTask_known m.2 hk
      have hne : (log.accepted.length : ℤ) ≠ -1 := by omega
      refine ⟨log.push m.1, href, ?_, (List.append_nil _).symm⟩
      show log.accepted ++ [m.1] = _
      simp only [Option.map_some, TasksCall.accepted, hid, if_neg hne, Option.toList_some]
    · have href : tasksAddTask st (msg.map Subtype.val) = (st, -1) := by
        apply tasksAddTask_refused st wf_of_mem_map
        intro m hm hm'
        obtain ⟨m', hmem, rfl⟩ := Option.map_eq_some_iff.1 hm
        exact hk ⟨m', hmem, hm'⟩
      rw [href] at hsame ⊢
      cases msg <;> exact hsame rfl rfl
  | getNext =>
    obtain ⟨task, -, heq⟩ := Option.map_eq_some_iff.1 hcall
    simp only [Prod.mk.injEq] at heq
    obtain ⟨rfl, rfl⟩ := heq
    exact hsame rfl rfl
  | setResult taskId r =>
    simp only [tasksCall, Option.some.injEq, Prod.mk.injEq] at hcall
    obtain ⟨rfl, rfl⟩ := hcall
    by_cases hyes : log.outcomes.length < log.accepted.length ∧
        taskId = log.outcomes.length ∧ r ≠ .notExecuted
    · obtain ⟨hk, rfl, hr⟩ := hyes
      obtain ⟨hzero, href⟩ := h.tasksSetResult_next hk hr
      refine ⟨log.settle r hk, href, (List.append_nil _).symm, ?_⟩
      show log.outcomes ++ [r] = _
      simp only [TasksCall.recorded, hzero, Option.toList_some]
    · rw [h.tasksSetResult_refused hyes] at hsame ⊢
      exact hsame rfl rfl
  | getResult taskId =>
    simp only [tasksCall, Option.some.injEq, Prod.mk.injEq] at hcall
    obtain ⟨rfl, rfl⟩ := hcall
    exact hsame rfl rfl

/-- The state stands for the log of the messages accepted and the results recorded in a
trace of calls, in the order of the calls. -/
def TasksState.RefinesTrace (st : TasksState) (trace : List (TasksCall × TasksAnswer)) : Prop :=
  ∃ log : TaskLog, st.Refines log ∧
    log.accepted = trace.filterMap TasksCall.accepted ∧
    log.outcomes = trace.filterMap TasksCall.recorded

theorem TasksState.RefinesTrace.call {st st' : TasksState}
    {trace : List (TasksCall × TasksAnswer)} {call : TasksCall} {answer : TasksAnswer}
    (h : st.RefinesTrace trace) (hcall : tasksCall st call = some (st', answer)) :
    st'.RefinesTrace (trace ++ [(call, answer)]) := by
  obtain ⟨log, hst, hacc, hout⟩ := h
  obtain ⟨log', hst', hacc', hout'⟩ := hst.call hcall
  refine ⟨log', hst', ?_, ?_⟩
  · rw [hacc', hacc, List.filterMap_append, filterMap_singleton]
  · rw [hout', hout, List.filterMap_append, filterMap_singleton]

theorem refinesTrace_of_run {calls : List TasksCall} {st : TasksState}
    {trace : List (TasksCall × TasksAnswer)}
    (h : runCalls tasksCall tasksInit calls = some (st, trace)) : st.RefinesTrace trace := by
  have hinit : tasksInit.RefinesTrace [] := ⟨FifoLog.empty, tasksInit_refines, rfl, rfl⟩
  have hrun := runCalls_invariant (P := TasksState.RefinesTrace)
    (fun _ _ _ _ _ hst hcall => hst.call hcall) hinit h
  rwa [List.nil_append] at hrun

/-- **The module is a FIFO log.** After any run of calls, with `n` messages accepted and
`k` results recorded: the queue holds the tasks `k` to `n - 1`, oldest first and each with
its message; the results are those of `k - 1` down to `0`; every id is in exactly one of
the lists, once. The next task is the one with id `k`; its result is the only one that is
taken, and a refused call leaves no trace. -/
theorem tasks_refine_fifo_log {calls : List TasksCall} {st : TasksState}
    {trace : List (TasksCall × TasksAnswer)}
    (h : runCalls tasksCall tasksInit calls = some (st, trace)) :
    ∃ log : TaskLog, log.accepted = trace.filterMap TasksCall.accepted ∧
      log.outcomes = trace.filterMap TasksCall.recorded ∧ st.Refines log ∧
      (st.tasksQueueHead.map TaskT.taskId
        ++ st.tasksResultsListHead.map TaskResultNode.taskId).Perm
          ((List.range log.accepted.length).map Int.ofNat) ∧
      (∀ hk : log.outcomes.length < log.accepted.length,
        tasksCall st .getNext = some (st, .task (some ⟨log.outcomes.length,
          log.accepted.get ⟨log.outcomes.length, hk⟩⟩))) ∧
      (∀ taskId r, (tasksSetResult st taskId r).2 = 0 ↔
        log.outcomes.length < log.accepted.length ∧ taskId = log.outcomes.length ∧
          r ≠ .notExecuted) ∧
      (∀ taskId r, (tasksSetResult st taskId r).2 = 0 →
        (tasksSetResult st taskId r).1 = { st with
          tasksQueueHead := st.tasksQueueHead.tail
          tasksResultsListHead := ⟨taskId, r⟩ :: st.tasksResultsListHead }) ∧
      (∀ taskId r, (tasksSetResult st taskId r).2 ≠ 0 →
        tasksSetResult st taskId r = (st, -1)) ∧
      ∀ msg : Option { m : Message // m.Wf },
        (tasksAddTask st (msg.map Subtype.val)).2 = -1 →
          (tasksAddTask st (msg.map Subtype.val)).1 = st := by
  obtain ⟨log, hst, hacc, hout⟩ := refinesTrace_of_run h
  refine ⟨log, hacc, hout, hst, hst.ids_perm, ?_, hst.tasksSetResult_eq_zero, ?_, ?_, ?_⟩
  · intro hk
    rw [tasksCall, hst.tasksGetNext_eq, dif_pos hk]
    rfl
  · intro taskId r hzero
    exact TasksState.Refines.tasksSetResult_of_zero hzero
  · intro taskId r hne
    exact hst.tasksSetResult_refused (mt (hst.tasksSetResult_eq_zero taskId r).2 hne)
  · intro msg hneg
    exact hst.tasksAddTask_of_neg wf_of_mem_map hneg

/-- The first and the second of three tasks get results, after one was tried out of turn. -/
def threeTasks : List TasksCall :=
  let write : Option { m : Message // m.Wf } :=
    some ⟨⟨opDel, .key ⟨[107], nul_notMem_k⟩⟩, trivial⟩
  [.addTask write, .addTask write, .setResult 1 .successful, .getNext, .setResult 0 .successful,
    .addTask write, .setResult 1 .failed]

theorem tasks_refine_fifo_log_three : ∃ st trace,
    runCalls tasksCall tasksInit threeTasks = some (st, trace) ∧
      st.tasksResultsListHead = [⟨1, .failed⟩, ⟨0, .successful⟩] ∧ ∃ log : TaskLog,
      log.accepted = trace.filterMap TasksCall.accepted ∧
      log.outcomes = trace.filterMap TasksCall.recorded ∧ st.Refines log ∧
      (st.tasksQueueHead.map TaskT.taskId
        ++ st.tasksResultsListHead.map TaskResultNode.taskId).Perm
          ((List.range log.accepted.length).map Int.ofNat) := by
  refine ⟨_, _, rfl, rfl, ?_⟩
  obtain ⟨log, hacc, hout, hst, hids, -⟩ := @tasks_refine_fifo_log threeTasks _ _ rfl
  exact ⟨log, hacc, hout, hst, hids⟩

end ReplicatedTree
