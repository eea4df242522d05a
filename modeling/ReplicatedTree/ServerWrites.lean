import ReplicatedTree.ServerTheorems

/-!
# Where the writes of a server are

A write is taken from a connection, queued, executed, and handed over to the backup server,
in this order. For each of these stages there is the list of the writes that have reached it;
`taken_step` and `replicated_step` say what one action adds to the first and the last.
-/

namespace ReplicatedTree

/-! ## The stages -/

/-- The write the request thread has taken and not queued yet. -/
def RequestPc.openWrite : RequestPc → List Message
  | .locked request => if request.IsWrite then [request] else []
  | .created request _ => [request]
  | _ => []

/-- 1 between the replication of a write and its result. -/
def WorkerPc.sent : WorkerPc → ℕ
  | .replicated _ => 1
  | _ => 0

namespace ServerState

/-- The writes taken from connections. -/
def taken (s : ServerState) : List Message := s.writes ++ s.request.openWrite

/-- How many writes have a result. -/
def recorded (s : ServerState) : ℕ := s.tasks.tasksResultsListHead.length

/-- The writes that changed the tree. -/
def executed (s : ServerState) : List Message := s.writes.take (s.recorded + s.worker.ahead)

/-- The writes for which `replicate_to_backup_server` has returned 0. -/
def replicated (s : ServerState) : List Message := s.writes.take (s.recorded + s.worker.sent)

end ServerState

/-- The write an action takes from a connection. -/
def ServerAction.newWrite : ServerAction → List Message
  | .lockRequest request => if request.1.IsWrite then [request.1] else []
  | _ => []

/-- The write an action hands over. -/
def ServerState.handedOver (s : ServerState) : ServerAction → List Message
  | .replicate true =>
    match s.worker with
    | .applied task => [task.opCodeAndArgs]
    | _ => []
  | _ => []

theorem WorkerPc.sent_le_ahead (pc : WorkerPc) : pc.sent ≤ pc.ahead := by
  cases pc <;> simp [WorkerPc.sent, WorkerPc.ahead]

theorem ServerState.replicated_isPrefix (s : ServerState) : s.replicated <+: s.executed := by
  have hle := s.worker.sent_le_ahead
  exact List.take_prefix_take_left (by omega)

theorem ServerState.executed_isPrefix (s : ServerState) : s.executed <+: s.writes :=
  List.take_prefix _ _

/-! ## One step -/

namespace ServerInv

variable {s s' : ServerState} {log : TaskLog} {ks : List ℕ} {a : ServerAction}

theorem recorded_eq (h : ServerInv s log ks) : s.recorded = log.outcomes.length := by
  unfold ServerState.recorded
  rw [h.tasks.results_eq, List.length_map, FifoLog.settled, List.length_reverse,
    List.length_zipIdx]

/-- The tree is that of the executed writes. -/
theorem tree_eq (h : ServerInv s log ks) :
    s.tree = treeAfter (s.executed.map Message.treeOp) := by
  rw [h.tree, h.treeOfWrites_take, ServerState.executed, h.recorded_eq]

theorem recorded_le (h : ServerInv s log ks) : s.recorded ≤ s.writes.length := by
  rw [h.recorded_eq, h.writes_eq]
  exact log.outcomes_le

/-- No action takes back a write that was queued; a write is queued by `enqueue` only. -/
theorem writes_step (h : ServerInv s log ks) (hstep : ServerStep s a s') :
    s'.writes = s.writes ∧ s'.request.openWrite = s.request.openWrite ++ a.newWrite ∨
      ∃ m, s.request.openWrite = [m] ∧ s'.writes = s.writes ++ [m] ∧
        s'.request.openWrite = [] ∧ a.newWrite = [] := by
  cases hstep with
  | lockRequest request hr hl =>
    refine Or.inl ⟨?_, ?_⟩
    · simp [ServerState.writes, hr, RequestPc.openAnswer]
    · simp [hr, RequestPc.openWrite, ServerAction.newWrite]
  | create hr hw hc =>
    refine Or.inl ⟨?_, ?_⟩
    · simp [ServerState.writes, hr, RequestPc.openAnswer]
    · simp [hr, RequestPc.openWrite, ServerAction.newWrite, hw]
  | createFails hr hc =>
    have hok := h.request
    rw [hr] at hok
    exact absurd hc (TasksState.Refines.taskCreate_isSome hok.1 hok.2)
  | read hr hw hresp =>
    refine Or.inl ⟨?_, ?_⟩
    · simp only [ServerState.writes, hr, RequestPc.openAnswer, acceptedWrites_append,
        acceptedWrites_read hresp]
      rfl
    · simp [hr, RequestPc.openWrite, ServerAction.newWrite, hw]
  | enqueue hr =>
    rename_i request task
    have htasks := h.tasks
    have hok := h.request
    rw [hr] at htasks hok
    obtain ⟨tasks₀, href, hc⟩ := htasks
    have hid := (href.enqueue hok.1 hok.2.1 hc).2
    refine Or.inr ⟨request, ?_, ?_, rfl, rfl⟩
    · rw [hr]
      rfl
    · simp only [ServerState.writes, hr, RequestPc.openAnswer, acceptedWrites_append, hid,
        acceptedWrites_write hok.2.2]
      simp [acceptedWrites]
  | unlockRequest hr =>
    refine Or.inl ⟨?_, ?_⟩
    · simp [ServerState.writes, hr, RequestPc.openAnswer]
    · simp [hr, RequestPc.openWrite, ServerAction.newWrite]
  | _ => exact Or.inl ⟨rfl, (List.append_nil _).symm⟩

theorem taken_step (h : ServerInv s log ks) (hstep : ServerStep s a s') :
    s'.taken = s.taken ++ a.newWrite := by
  unfold ServerState.taken
  rcases h.writes_step hstep with ⟨hw, ho⟩ | ⟨m, ho, hw, ho', hn⟩
  · rw [hw, ho, List.append_assoc]
  · rw [hw, ho, ho', hn, List.append_nil]

theorem writes_isPrefix (h : ServerInv s log ks) (hstep : ServerStep s a s') :
    s.writes <+: s'.writes := by
  rcases h.writes_step hstep with ⟨hw, -⟩ | ⟨m, -, hw, -⟩
  · exact hw ▸ List.prefix_refl _
  · exact hw ▸ List.prefix_append _ _

/-- The write in the worker's hands is the next one after those that have a result. -/
theorem writes_get (h : ServerInv s log ks) {task : TaskT} (hw : s.worker = .applied task) :
    s.writes[s.recorded]? = some task.opCodeAndArgs := by
  have hok := h.worker
  rw [hw] at hok
  obtain ⟨hk, rfl⟩ := hok
  rw [h.writes_eq, h.recorded_eq, List.getElem?_eq_getElem hk]
  rfl

/-- Setting the result of a replicated write makes it a recorded one. -/
theorem recorded_setResult (h : ServerInv s log ks) {task : TaskT}
    (hw : s.worker = .replicated task) :
    (tasksSetResult s.tasks task.taskId .successful).1.tasksResultsListHead.length
      = s.recorded + 1 := by
  have hok := h.worker
  have href := h.refines_of_worker (by rw [hw]; trivial)
  rw [hw] at hok
  obtain ⟨hk, rfl⟩ := hok
  rw [TasksState.Refines.tasksSetResult_of_zero (href.tasksSetResult_next hk (by simp)).1,
    List.length_cons]
  rfl

theorem replicated_step (h : ServerInv s log ks) (hstep : ServerStep s a s') :
    s'.replicated = s.replicated ++ s.handedOver a := by
  have hrec := h.recorded_le
  -- an action that moves neither thread past a replication
  have hsame : s'.recorded + s'.worker.sent = s.recorded + s.worker.sent →
      s.handedOver a = [] → s.recorded + s.worker.sent ≤ s.writes.length →
      s'.replicated = s.replicated ++ s.handedOver a := by
    intro hcount hnone hle
    obtain ⟨rest, hrest⟩ := h.writes_isPrefix hstep
    rw [ServerState.replicated, hcount, hnone, List.append_nil, ← hrest,
      List.take_append_of_le_length hle]
    rfl
  have hle : s.recorded + s.worker.sent ≤ s.writes.length := by
    have hok := h.worker
    rw [h.recorded_eq, h.writes_eq]
    rw [h.recorded_eq, h.writes_eq] at hrec
    cases hw : s.worker with
    | replicated task =>
      rw [hw] at hok
      obtain ⟨hk, -⟩ := hok
      exact hk
    | _ => simpa [WorkerPc.sent] using hrec
  cases hstep with
  | replicate hw =>
    have hget := h.writes_get hw
    simp only [ServerState.handedOver, hw, ServerState.replicated, WorkerPc.sent]
    show s.writes.take (s.recorded + 1) = _
    rw [List.take_add_one, hget]
    rfl
  | setSuccessful hw =>
    refine hsame ?_ rfl hle
    rw [hw]
    exact h.recorded_setResult hw
  | setFailed hw =>
    have hok := h.worker
    rw [hw] at hok
    exact hok.elim
  | getNext hw hn | stop hw hn | lockTask hw hn =>
    refine hsame ?_ rfl hle
    rw [hw]
    rfl
  | execute hw he hres | cannotHandle hw he | unlockTask hw =>
    refine hsame ?_ rfl hle
    rw [hw]
    rfl
  | create hr hw hc =>
    obtain ⟨copied, -, heq⟩ := Option.map_eq_some_iff.1 hc
    obtain ⟨rfl, -⟩ := Prod.mk.inj heq
    exact hsame rfl rfl hle
  | _ => exact hsame rfl rfl hle

end ServerInv
end ReplicatedTree
