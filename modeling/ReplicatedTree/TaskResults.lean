import ReplicatedTree.Lib.Transition
import ReplicatedTree.Tasks

/-!
# Results do not change

A run starts with `tasks_init` and may go on after a `tasks_destroy`, which forgets every task
and result and starts the ids again; what was recorded since then is `currentLife`.

The scan of `tasks_get_result` stops at the first smaller id. It finds what a search of the
whole list would find because ids only grow: `RecordsLife` keeps the ids of both lists, results
first, in increasing order (`recordsLife_of_run`).
-/

namespace ReplicatedTree

open Transition

/-! ## Runs with `tasks_destroy` -/

inductive TasksOp
  | call (call : TasksCall)
  | destroy

/-- An operation with its answer; `tasks_destroy` has none. -/
def tasksOp (st : TasksState) : TasksOp → Option (TasksState × Option TasksAnswer)
  | .call call => (tasksCall st call).map fun (st, answer) => (st, some answer)
  | .destroy => some (tasksDestroy, none)

/-- The calls since the last `tasks_destroy`, with one more operation. -/
def extendLife (life : List (TasksCall × TasksAnswer)) :
    TasksOp × Option TasksAnswer → List (TasksCall × TasksAnswer)
  | (.call call, some answer) => life ++ [(call, answer)]
  | _ => []

/-- The calls since the last `tasks_destroy`, or since `tasks_init`. -/
def currentLife (trace : List (TasksOp × Option TasksAnswer)) : List (TasksCall × TasksAnswer) :=
  trace.foldl extendLife []

/-- The result a call got recorded, with its id. -/
def TasksCall.recordedNode : TasksCall × TasksAnswer → Option TaskResultNode
  | (.setResult taskId r, .int 0) => some ⟨taskId, r⟩
  | _ => none

theorem TasksCall.recordedNode_eq_some {event : TasksCall × TasksAnswer} {node : TaskResultNode} :
    TasksCall.recordedNode event = some node ↔
      event = (.setResult node.taskId node.taskResult, .int 0) := by
  constructor
  · intro h
    unfold TasksCall.recordedNode at h
    split at h
    · obtain rfl := Option.some.inj h
      rfl
    · exact absurd h (by simp)
  · rintro rfl
    rfl

/-! ## The invariant -/

/-- The ids given out: those with a result, oldest first, then those in the queue. -/
def TasksState.ids (st : TasksState) : List ℤ :=
  (st.tasksResultsListHead.map TaskResultNode.taskId).reverse ++ st.tasksQueueHead.map TaskT.taskId

/-- The list of results is what was recorded in this life, newest first, and ids have been given
out in increasing order. -/
structure TasksState.RecordsLife (st : TasksState) (life : List (TasksCall × TasksAnswer)) :
    Prop where
  results_eq : st.tasksResultsListHead = (life.filterMap TasksCall.recordedNode).reverse
  increasing : st.ids.Pairwise (· < ·)
  le_last : ∀ id ∈ st.ids, id ≤ st.lastTaskIdAssigned

namespace TasksState.RecordsLife

variable {st st' : TasksState} {life : List (TasksCall × TasksAnswer)}

theorem init : tasksInit.RecordsLife [] where
  results_eq := rfl
  increasing := List.Pairwise.nil
  le_last := by simp [tasksInit, TasksState.ids]

theorem destroy : tasksDestroy.RecordsLife [] where
  results_eq := rfl
  increasing := List.Pairwise.nil
  le_last := by simp [tasksDestroy, TasksState.ids]

/-- A call that records nothing and leaves the state alone. -/
theorem keep (h : st.RecordsLife life) {event : TasksCall × TasksAnswer}
    (hnone : TasksCall.recordedNode event = none) : st.RecordsLife (life ++ [event]) := by
  refine ⟨?_, h.increasing, h.le_last⟩
  rw [List.filterMap_append, List.filterMap_cons_none hnone, List.filterMap_nil, List.append_nil]
  exact h.results_eq

/-- A new task takes an id above all others. -/
theorem addTask (h : st.RecordsLife life) (msg : Option { m : Message // m.Wf }) :
    (tasksAddTask st (msg.map Subtype.val)).1.RecordsLife
      (life ++ [(.addTask msg, .int (tasksAddTask st (msg.map Subtype.val)).2)]) := by
  have hnone : ∀ id, TasksCall.recordedNode (.addTask msg, .int id) = none := fun _ => rfl
  cases msg with
  | none => exact h.keep (hnone _)
  | some m =>
    cases hdup : messageDup m.1 with
    | none =>
      have hsame : tasksAddTask st (some m.1) = (st, -1) := by
        simp [tasksAddTask, taskCreate, hdup]
      rw [Option.map_some, hsame]
      exact h.keep (hnone _)
    | some copied =>
      have hadd : tasksAddTask st (some m.1)
          = ({ st with
                lastTaskIdAssigned := st.lastTaskIdAssigned + 1
                tasksQueueHead := st.tasksQueueHead ++ [⟨st.lastTaskIdAssigned + 1, copied⟩] },
              st.lastTaskIdAssigned + 1) := by
        simp [tasksAddTask, taskCreate, hdup, tasksEnqueue]
      have hids : (tasksAddTask st (some m.1)).1.ids
          = st.ids ++ [st.lastTaskIdAssigned + 1] := by
        rw [hadd]
        simp [TasksState.ids]
      have hkeep := h.keep (hnone (tasksAddTask st (some m.1)).2)
      refine ⟨?_, ?_, ?_⟩
      · rw [Option.map_some, hadd]
        rw [hadd] at hkeep
        exact hkeep.results_eq
      · rw [Option.map_some, hids, List.pairwise_append]
        refine ⟨h.increasing, List.pairwise_singleton _ _, ?_⟩
        intro id hid id' hid'
        have hle := h.le_last id hid
        rw [List.mem_singleton.1 hid']
        omega
      · intro id hid
        rw [Option.map_some, hids, List.mem_append, List.mem_singleton] at hid
        rw [Option.map_some, hadd]
        show id ≤ st.lastTaskIdAssigned + 1
        rcases hid with hold | hnew
        · have hle := h.le_last id hold
          omega
        · omega

/-- A recorded result moves its id from the head of the queue to the end of the results. -/
theorem setResult (h : st.RecordsLife life) (taskId : ℤ) (r : TaskResult) :
    (tasksSetResult st taskId r).1.RecordsLife
      (life ++ [(.setResult taskId r, .int (tasksSetResult st taskId r).2)]) := by
  have hrefused : tasksSetResult st taskId r = (st, -1) →
      (tasksSetResult st taskId r).1.RecordsLife
        (life ++ [(.setResult taskId r, .int (tasksSetResult st taskId r).2)]) := by
    intro hsame
    rw [hsame]
    exact h.keep rfl
  cases hq : st.tasksQueueHead with
  | nil => exact hrefused (by simp [tasksSetResult, hq])
  | cons task next =>
    by_cases hid : task.taskId = taskId
    · by_cases hr : r = .notExecuted
      · exact hrefused (by simp [tasksSetResult, hq, hr])
      · have hset : tasksSetResult st taskId r
            = ({ st with
                  tasksResultsListHead := ⟨taskId, r⟩ :: st.tasksResultsListHead
                  tasksQueueHead := next }, 0) := by
          simp [tasksSetResult, hq, hid, hr]
        have hids : (tasksSetResult st taskId r).1.ids = st.ids := by
          rw [hset]
          simp [TasksState.ids, hq, hid]
        refine ⟨?_, by rw [hids]; exact h.increasing, ?_⟩
        · rw [hset, List.filterMap_append, List.reverse_append, ← h.results_eq]
          rfl
        · rw [hids, hset]
          exact h.le_last
    · exact hrefused (by simp [tasksSetResult, hq, hid])

theorem call (h : st.RecordsLife life) {call : TasksCall} {answer : TasksAnswer}
    (hcall : tasksCall st call = some (st', answer)) :
    st'.RecordsLife (life ++ [(call, answer)]) := by
  cases call with
  | addTask msg =>
    obtain ⟨rfl, rfl⟩ := Prod.mk.inj (Option.some.inj hcall)
    exact h.addTask msg
  | getNext =>
    obtain ⟨task, -, heq⟩ := Option.map_eq_some_iff.1 hcall
    obtain ⟨rfl, rfl⟩ := Prod.mk.inj heq
    exact h.keep rfl
  | setResult taskId r =>
    obtain ⟨rfl, rfl⟩ := Prod.mk.inj (Option.some.inj hcall)
    exact h.setResult taskId r
  | getResult taskId =>
    obtain ⟨rfl, rfl⟩ := Prod.mk.inj (Option.some.inj hcall)
    exact h.keep rfl

theorem op (h : st.RecordsLife life) {op : TasksOp} {answer : Option TasksAnswer}
    (hop : tasksOp st op = some (st', answer)) :
    st'.RecordsLife (extendLife life (op, answer)) := by
  cases op with
  | call call =>
    obtain ⟨⟨st₁, a⟩, hcall, heq⟩ := Option.map_eq_some_iff.1 hop
    obtain ⟨rfl, rfl⟩ := Prod.mk.inj heq
    exact h.call hcall
  | destroy =>
    obtain ⟨rfl, rfl⟩ := Prod.mk.inj (Option.some.inj hop)
    exact destroy

end TasksState.RecordsLife

theorem recordsLife_of_run {ops : List TasksOp} {st st' : TasksState}
    {past trace : List (TasksOp × Option TasksAnswer)} (h0 : st.RecordsLife (currentLife past))
    (h : runCalls tasksOp st ops = some (st', trace)) :
    st'.RecordsLife (currentLife (past ++ trace)) := by
  refine runCalls_invariant (P := fun st trace => st.RecordsLife (currentLife trace))
    (fun s trace op s' answer hs hop => ?_) h0 h
  unfold currentLife
  rw [List.foldl_append]
  exact hs.op hop

/-! ## What the scan finds -/

/-- On a list with falling ids the scan finds every result, although it stops early. -/
theorem tasksResultsScan_of_mem {nodes : List TaskResultNode} {node : TaskResultNode}
    (h : (nodes.map TaskResultNode.taskId).Pairwise (· > ·)) (hmem : node ∈ nodes) :
    tasksResultsScan node.taskId nodes = node.taskResult := by
  induction nodes with
  | nil => simp at hmem
  | cons first rest ih =>
    rw [List.map_cons, List.pairwise_cons] at h
    unfold tasksResultsScan
    rcases List.mem_cons.1 hmem with rfl | hrest
    · simp
    · have hgt : first.taskId > node.taskId := h.1 _ (List.mem_map_of_mem hrest)
      rw [if_pos (by omega), if_neg (by omega), ih h.2 hrest]

theorem tasksResultsScan_of_notMem {nodes : List TaskResultNode} {taskId : ℤ}
    (h : ∀ node ∈ nodes, node.taskId ≠ taskId) :
    tasksResultsScan taskId nodes = .notExecuted := by
  induction nodes with
  | nil => rfl
  | cons first rest ih =>
    have hrest := ih fun node hnode => h node (List.mem_cons_of_mem first hnode)
    unfold tasksResultsScan
    rw [if_neg (h first List.mem_cons_self), hrest]
    simp

namespace TasksState.RecordsLife

variable {st : TasksState} {life : List (TasksCall × TasksAnswer)}

theorem mem_results (h : st.RecordsLife life) (taskId : ℤ) (r : TaskResult) :
    ⟨taskId, r⟩ ∈ st.tasksResultsListHead ↔
      (TasksCall.setResult taskId r, TasksAnswer.int 0) ∈ life := by
  rw [h.results_eq, List.mem_reverse, List.mem_filterMap]
  constructor
  · rintro ⟨event, hmem, hnode⟩
    rwa [TasksCall.recordedNode_eq_some.1 hnode] at hmem
  · intro hmem
    exact ⟨_, hmem, rfl⟩

theorem falling (h : st.RecordsLife life) :
    (st.tasksResultsListHead.map TaskResultNode.taskId).Pairwise (· > ·) := by
  have hleft := (List.pairwise_append.1 h.increasing).1
  rwa [List.pairwise_reverse] at hleft

theorem getResult_of_recorded (h : st.RecordsLife life) {taskId : ℤ} {r : TaskResult}
    (hmem : (TasksCall.setResult taskId r, TasksAnswer.int 0) ∈ life) :
    tasksGetResult st taskId = r :=
  tasksResultsScan_of_mem h.falling ((h.mem_results taskId r).2 hmem)

theorem getResult_of_not_recorded (h : st.RecordsLife life) {taskId : ℤ}
    (hno : ∀ r, (TasksCall.setResult taskId r, TasksAnswer.int 0) ∉ life) :
    tasksGetResult st taskId = .notExecuted := by
  apply tasksResultsScan_of_notMem
  intro node hnode hid
  apply hno node.taskResult
  rw [← hid]
  exact (h.mem_results _ _).1 hnode

/-- No id is recorded twice. -/
theorem nodup_recorded (h : st.RecordsLife life) :
    ((life.filterMap TasksCall.recordedNode).map TaskResultNode.taskId).Nodup := by
  have hfalling := h.falling
  rw [h.results_eq, List.map_reverse, List.pairwise_reverse] at hfalling
  exact hfalling.imp fun hlt heq => hlt.ne' heq.symm

theorem calls (h : st.RecordsLife life) {st' : TasksState} {calls : List TasksCall}
    {trace : List (TasksCall × TasksAnswer)}
    (hrun : runCalls tasksCall st calls = some (st', trace)) : st'.RecordsLife (life ++ trace) := by
  refine runCalls_invariant (P := TasksState.RecordsLife)
    (fun s past call s' answer hs hcall => ?_) h hrun
  exact hs.call hcall

/-- A result stays: what recorded it remains in the history. -/
theorem getResult_calls (h : st.RecordsLife life) {st' : TasksState} {calls : List TasksCall}
    {trace : List (TasksCall × TasksAnswer)}
    (hrun : runCalls tasksCall st calls = some (st', trace)) {taskId : ℤ}
    (hne : tasksGetResult st taskId ≠ .notExecuted) :
    tasksGetResult st' taskId = tasksGetResult st taskId := by
  by_cases hrec : ∃ r, (TasksCall.setResult taskId r, TasksAnswer.int 0) ∈ life
  · obtain ⟨r, hr⟩ := hrec
    have hnow := h.getResult_of_recorded hr
    have hlater := (h.calls hrun).getResult_of_recorded (List.mem_append_left trace hr)
    rw [hnow, hlater]
  · push Not at hrec
    exact absurd (h.getResult_of_not_recorded hrec) hne

end TasksState.RecordsLife

/-- **Results are right and permanent.** In every state a run leads to, and for every id,
`tasks_get_result` answers the result of the one call that recorded one for it since the last
`tasks_destroy`, and `NOT_EXECUTED` if there was none; and as long as the tasks are not
destroyed, an answer other than `NOT_EXECUTED` never changes again. -/
theorem tasksGetResult_permanent {ops : List TasksOp} {st : TasksState}
    {trace : List (TasksOp × Option TasksAnswer)}
    (h : runCalls tasksOp tasksInit ops = some (st, trace)) (taskId : ℤ) :
    (∀ r, (TasksCall.setResult taskId r, TasksAnswer.int 0) ∈ currentLife trace →
        tasksGetResult st taskId = r) ∧
      ((∀ r, (TasksCall.setResult taskId r, TasksAnswer.int 0) ∉ currentLife trace) →
        tasksGetResult st taskId = .notExecuted) ∧
      (((currentLife trace).filterMap TasksCall.recordedNode).map TaskResultNode.taskId).Nodup ∧
      ∀ (calls : List TasksCall) (st' : TasksState) (trace' : List (TasksCall × TasksAnswer)),
        runCalls tasksCall st calls = some (st', trace') →
          tasksGetResult st taskId ≠ .notExecuted →
            tasksGetResult st' taskId = tasksGetResult st taskId := by
  have hlife : st.RecordsLife (currentLife ([] ++ trace)) :=
    recordsLife_of_run TasksState.RecordsLife.init h
  rw [List.nil_append] at hlife
  refine ⟨fun r hr => hlife.getResult_of_recorded hr, hlife.getResult_of_not_recorded,
    hlife.nodup_recorded, ?_⟩
  intro calls st' trace' hrun hne
  exact hlife.getResult_calls hrun hne

/-- A task is done, the tasks are destroyed, and the next task, which gets the same id, fails. -/
def twoLives : List TasksOp :=
  [.call (.addTask (some ⟨⟨opDel, .key ⟨[107], nul_notMem_k⟩⟩, trivial⟩)),
    .call (.setResult 0 .successful), .destroy,
    .call (.addTask (some ⟨⟨opDel, .key ⟨[107], nul_notMem_k⟩⟩, trivial⟩)),
    .call (.setResult 0 .failed)]

theorem tasksGetResult_permanent_twoLives : ∃ st trace,
    runCalls tasksOp tasksInit twoLives = some (st, trace) ∧ tasksGetResult st 0 = .failed := by
  refine ⟨_, _, rfl, ?_⟩
  apply (@tasksGetResult_permanent twoLives _ _ rfl 0).1
  exact List.mem_cons_of_mem _ List.mem_cons_self

end ReplicatedTree
