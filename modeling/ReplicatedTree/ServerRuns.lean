import ReplicatedTree.ServerTheorems

/-!
# Runs of one server

The two main results on a single server, for every schedule of its request thread and its
worker:

* `server_executes_in_order`: the accepted writes are executed in the order of their ids,
  each once, and reads see what a verification announced;
* `server_serves_iff`: the server goes on serving exactly as long as no write is executed
  that the tree refuses.
-/

namespace ReplicatedTree

open Transition

/-! ## What shows while the lock is free -/

/-- The first `k` writes are done: their results are recorded, and the tree is the one after
their calls. -/
structure ServerState.Done (s : ServerState) (k : ℕ) : Prop where
  le : k ≤ s.writes.length
  ids : acceptedWrites s.answers = s.writes.zipIdx.map fun (m, i) => (m, (i : ℤ))
  results : s.tasks.tasksResultsListHead
    = (List.range k).reverse.map fun i => ⟨(i : ℤ), .successful⟩
  queue : s.tasks.tasksQueueHead = (s.writes.zipIdx.drop k).map fun (m, i) => ⟨(i : ℤ), m⟩
  tree : s.tree = treeAfter ((s.writes.take k).map Message.treeOp)

/-- A log whose outcomes are all successes, as a list of results. -/
theorem settled_of_successful {log : TaskLog} (h : ∀ r ∈ log.outcomes, r = .successful) :
    log.settled.map (fun (r, i) => (⟨(i : ℤ), r⟩ : TaskResultNode))
      = (List.range log.outcomes.length).reverse.map fun i => ⟨(i : ℤ), .successful⟩ := by
  unfold FifoLog.settled
  rw [List.map_reverse, List.map_reverse]
  congr 1
  apply List.ext_getElem
  · simp
  · intro i h1 h2
    have hi : i < log.outcomes.length := by simpa using h1
    simp [h _ (List.getElem_mem hi)]

namespace ServerInv

variable {s : ServerState} {log : TaskLog} {ks : List ℕ}

theorem refines_of_free (h : ServerInv s log ks) (hl : s.treeLock = none) :
    s.tasks.Refines log := by
  have htasks := h.tasks
  have hno : ¬ s.request.holdsLock := fun hr => absurd (h.requestLock.2 hr) (by simp [hl])
  have hidle : s.request = .idle := by
    cases hr : s.request <;> simp [hr, RequestPc.holdsLock] at hno ⊢
  rw [hidle] at htasks
  exact htasks

theorem openAnswer_of_free (h : ServerInv s log ks) (hl : s.treeLock = none) :
    s.request.openAnswer = [] := by
  have hno : ¬ s.request.holdsLock := fun hr => absurd (h.requestLock.2 hr) (by simp [hl])
  cases hr : s.request <;> simp [hr, RequestPc.holdsLock, RequestPc.openAnswer] at hno ⊢

theorem done (h : ServerInv s log ks) (hl : s.treeLock = none) :
    s.Done log.outcomes.length where
  le := by
    rw [h.writes_eq]
    exact log.outcomes_le
  ids := by
    have haccepted := h.accepted
    rwa [h.openAnswer_of_free hl, List.append_nil, ← h.writes_eq] at haccepted
  results := by rw [(h.refines_of_free hl).results_eq, settled_of_successful h.outcomes]
  queue := by
    rw [(h.refines_of_free hl).queue_eq, h.writes_eq]
    rfl
  tree := by
    rw [h.tree, h.ahead_of_lock (by simp [hl]), Nat.add_zero, h.treeOfWrites_take]

end ServerInv

/-- Of two answers, the later one was made with at least as many writes in the tree. -/
theorem AnswersOk.two {log : TaskLog} {ks : List ℕ} {q r : Message × Message}
    {before between after : List (Message × Message)}
    (h : AnswersOk log ks (before ++ q :: (between ++ r :: after))) :
    ∃ k k', k ≤ k' ∧ k' ≤ log.outcomes.length ∧ AnswerOk log.accepted k q.1 q.2 ∧
      AnswerOk log.accepted k' r.1 r.2 := by
  obtain ⟨heach, hsorted, hle⟩ := h
  have hq := List.forall₂_drop_append _ _ _ heach
  obtain ⟨k, ks₁, hkq, htail, hks⟩ := List.forall₂_cons_right_iff.1 hq
  have hr := List.forall₂_drop_append _ _ _ htail
  obtain ⟨k', ks₂, hkr, -, hks'⟩ := List.forall₂_cons_right_iff.1 hr
  have hmem' : k' ∈ ks₁ := List.mem_of_mem_drop (hks' ▸ List.mem_cons_self)
  have hsorted' : (k :: ks₁).Pairwise (· ≤ ·) := hks ▸ hsorted.drop
  refine ⟨k, k', List.rel_of_pairwise_cons hsorted' hmem', ?_, hkq, hkr⟩
  exact hle k' (List.mem_of_mem_drop (hks ▸ List.mem_cons_of_mem k hmem'))

/-- **The server executes the writes in order.** In every run the worker meets only the two
kinds of write it can handle. Whenever the lock is free, the first `k` accepted writes are
done and the others queued, for some `k`. A read answered after a verification that reported
success for an id sees the writes up to that id. Ids and sizes, here without bound, are those of
the code below 2^31. -/
theorem server_executes_in_order {as : List ServerAction} {s : ServerState}
    (h : run serverStep treeSkelInit as = some s) :
    (∀ task, s.worker ≠ .cannotHandle task) ∧
    (∀ m ∈ s.writes, (m.opCode = opDel ∧ ∃ key, m.content = .key key) ∨
      (m.opCode = opPut ∧ ∃ entry, m.content = .entry entry)) ∧
    (s.treeLock = none → ∃ k, s.Done k) ∧
    ∀ (before between after : List (Message × Message))
      (verify verified read answer : Message) (id : ℤ),
      s.answers = before ++ (verify, verified) :: (between ++ (read, answer) :: after) →
      verify.handler = .verify id →
      verified.content = .intResult TaskResult.successful.toInt → read.IsQuery →
      ∃ k : ℕ, 0 ≤ id ∧ id < k ∧ k ≤ s.writes.length ∧
        (invokeQuery (treeAfter ((s.writes.take k).map Message.treeOp)) read).map finishResponse
          = some answer := by
  obtain ⟨log, ks, hinv⟩ := serverInv_of_run h
  refine ⟨?_, ?_, fun hl => ⟨_, hinv.done hl⟩, ?_⟩
  · intro task hw
    have hok := hinv.worker
    rw [hw] at hok
    exact hok
  · intro m hm
    rw [hinv.writes_eq] at hm
    exact (isWrite_iff m).1 (hinv.writes m hm).2
  · intro before between after verify verified read answer id heq hid hres hread
    have hanswers := hinv.answers
    rw [heq, List.append_assoc, List.cons_append, List.append_assoc, List.cons_append]
      at hanswers
    obtain ⟨k, k', hle, hle', hv, hr⟩ := hanswers.two
    obtain ⟨hpos, hlt⟩ := hv.verified id hid hres
    refine ⟨k', hpos, by omega, ?_, ?_⟩
    · rw [hinv.writes_eq]
      exact hle'.trans log.outcomes_le
    · rw [← hinv.treeOfWrites_take]
      exact hr.query hread

/-- A put of a key and a value that are there. -/
theorem put_wf {key : NullableString} {value : DataMessage} (h : 0 ≤ value.len) :
    (⟨opPut, .entry (some ⟨some key, some value⟩)⟩ : Message).Wf ∧
      (Content.entry (some ⟨some key, some value⟩)).Known := by
  refine ⟨?_, trivial⟩
  intro em hem v hv
  obtain rfl := Option.some.inj hem
  obtain rfl := Option.some.inj hv
  exact h

/-- Two puts and a delete, as clients send them. -/
def putRequest : Request :=
  ⟨⟨opPut, .entry (some ⟨some ⟨⟨[107], nul_notMem_k⟩⟩, some ⟨1, some [118], length_v⟩⟩)⟩,
    put_wf (by decide)⟩

def otherRequest : Request :=
  ⟨⟨opPut, .entry (some ⟨some ⟨⟨[108], by decide⟩⟩, some ⟨1, some [119], by simp⟩⟩)⟩,
    put_wf (by decide)⟩

def delRequest : Request := ⟨⟨opDel, .key ⟨[107], nul_notMem_k⟩⟩, trivial, trivial⟩

/-- A verification of the first write, and a lookup. -/
def verifyRequest : Request := ⟨⟨opVerify, .opId 0⟩, trivial, trivial⟩

def getRequest : Request := ⟨⟨opGet, .key ⟨[107], nul_notMem_k⟩⟩, trivial, trivial⟩

/-- The request thread takes a write from its arrival to its answer. -/
def acceptWrite (request : Request) : List ServerAction :=
  [.lockRequest request, .handle, .enqueue, .unlockRequest]

/-- The request thread takes a read. -/
def answerRead (request : Request) : List ServerAction :=
  [.lockRequest request, .handle, .unlockRequest]

/-- The worker takes a write from the queue to the results. -/
def runTask : List ServerAction :=
  [.getNext, .lockTask, .execute, .replicate true, .setResult, .unlockTask]

/-- Two writes are queued, and executed one after the other. -/
def twoWrites : List ServerAction :=
  acceptWrite putRequest ++ acceptWrite otherRequest ++ runTask ++ runTask

/-- Two writes are queued before the first is executed; then a client verifies it and looks its
key up; the second write is executed, and a delete. -/
def threeWrites : List ServerAction :=
  acceptWrite putRequest ++ .getNext :: acceptWrite otherRequest ++ runTask.tail ++
    answerRead verifyRequest ++ answerRead getRequest ++ runTask ++
    acceptWrite delRequest ++ runTask

theorem threeWrites_run : ∃ s ∈ run serverStep treeSkelInit threeWrites,
    s.treeLock = none ∧ s.exited = false ∧
      s.answers = [(putRequest.1, ⟨opPut + 1, .opId 0⟩), (otherRequest.1, ⟨opPut + 1, .opId 1⟩),
        (verifyRequest.1, ⟨opVerify + 1, .intResult 1⟩),
        (getRequest.1, ⟨opGet + 1, .value (some ⟨1, some [118], length_v⟩)⟩),
        (delRequest.1, ⟨opDel + 1, .opId 2⟩)] := by
  decide +kernel

/-- What was verified is looked up. -/
theorem server_executes_in_order_three : ∃ s,
    run serverStep treeSkelInit threeWrites = some s ∧ (∀ task, s.worker ≠ .cannotHandle task) ∧
      (∀ m ∈ s.writes, (m.opCode = opDel ∧ ∃ key, m.content = .key key) ∨
        (m.opCode = opPut ∧ ∃ entry, m.content = .entry entry)) ∧
      (∃ k, s.Done k) ∧
      ∃ k : ℕ, (0 : ℤ) ≤ 0 ∧ (0 : ℤ) < k ∧ k ≤ s.writes.length ∧
        (invokeQuery (treeAfter ((s.writes.take k).map Message.treeOp)) getRequest.1).map
          finishResponse = some ⟨opGet + 1, .value (some ⟨1, some [118], length_v⟩)⟩ := by
  obtain ⟨s, hrun, hfree, -, hanswers⟩ := threeWrites_run
  obtain ⟨hhandles, hwrites, hdone, hreads⟩ := server_executes_in_order hrun
  have hget : getRequest.1.handler = .treeGet ⟨[107], nul_notMem_k⟩ := rfl
  have hquery : getRequest.1.IsQuery := ⟨by simp [hget], fun _ => by simp [hget]⟩
  refine ⟨s, hrun, hhandles, hwrites, hdone hfree, ?_⟩
  exact hreads [(putRequest.1, ⟨opPut + 1, .opId 0⟩), (otherRequest.1, ⟨opPut + 1, .opId 1⟩)] []
    [(delRequest.1, ⟨opDel + 1, .opId 2⟩)] _ _ _ _ 0 hanswers rfl rfl hquery

/-! ## When a server stops serving -/

/-- What is asked of a server that no request can bring down: it has not exited; each
recorded result says whether the tree took the write; a write that was not taken left the
tree alone; and the oldest queued write is executed next. -/
structure ServerState.Serves (s : ServerState) : Prop where
  alive : s.exited = false
  results : ∀ node ∈ s.tasks.tasksResultsListHead, ∃ m,
    s.writes[node.taskId.toNat]? = some m ∧ node.taskResult =
      if (m.treeOp.exec (treeAfter ((s.writes.take node.taskId.toNat).map Message.treeOp))).2 < 0
        then .failed
      else .successful
  tree : s.treeLock = none → s.tree
    = treeAfter ((s.writes.take s.tasks.tasksResultsListHead.length).map Message.treeOp)
  continues : s.treeLock = none → ∀ task rest, s.tasks.tasksQueueHead = task :: rest →
    ¬ task.opCodeAndArgs.treeOp.Refused s.tree →
    ∃ as s', run serverStep s as = some s' ∧
      s'.tasks.tasksResultsListHead = ⟨task.taskId, .successful⟩ :: s.tasks.tasksResultsListHead

/-- A step that executes no write the tree refuses: no `tree_del` on an empty tree, and no
`tree_put` without a key or a value. -/
def ExecutesAccepted (s : ServerState) : ServerAction → Prop
  | .execute => ∀ task, s.worker = .locked task → ¬ task.opCodeAndArgs.treeOp.Refused s.tree
  | _ => True

instance (s : ServerState) : (a : ServerAction) → Decidable (ExecutesAccepted s a)
  | .execute =>
    match hw : s.worker with
    | .locked task => decidable_of_iff (¬ task.opCodeAndArgs.treeOp.Refused s.tree)
        (by simp [ExecutesAccepted, hw])
    | .waiting | .peeked _ | .applied _ | .replicated _ | .cannotHandle _ | .recorded
    | .stopped => isTrue (by simp [ExecutesAccepted, hw])
  | .lockRequest _ | .handle | .enqueue | .unlockRequest | .getNext | .lockTask | .replicate _
  | .setResult | .unlockTask => isTrue trivial

namespace ServerInv

variable {s s' : ServerState} {log : TaskLog} {ks : List ℕ}

theorem tree_inv (h : ServerInv s log ks) : s.tree.Inv := by
  rw [h.tree, h.treeOfWrites_take]
  exact inv_treeAfter _

/-- On the trees of a server no read makes a faulty access. -/
theorem invokeRead_isSome (h : ServerInv s log ks) (request : Message) :
    invokeRead s.tree s.tasks request ≠ none := by
  unfold invokeRead invokeQuery invokeTreeGetKeys
  rw [treeGetKeys_eq h.tree_inv]
  split
  · simp
  · split <;> simp

/-- One step, with replication succeeding: the server exits exactly when it executes a write
that the tree refuses. -/
theorem exited_iff (h : ServerInv s log ks) {a : ServerAction} (ha : a ≠ .replicate false)
    (hx : s.exited = false) (hstep : ServerStep s a s') :
    s'.exited = false ↔ ExecutesAccepted s a := by
  cases hstep with
  | readFaults hr hresp => exact absurd hresp (h.invokeRead_isSome _)
  | replicateFails hw => exact absurd rfl ha
  | execute hw he hres =>
    rename_i task tree result
    obtain ⟨-, -, hwrite⟩ := h.worker_write hw
    rw [executeWrite_eq s.tree hwrite, Option.some.injEq] at he
    refine iff_of_true hx ?_
    intro task' hw'
    rw [hw, WorkerPc.locked.injEq] at hw'
    rw [← hw', ← TreeOp.exec_neg_iff, he]
    exact not_lt.2 hres
  | refuse hw he hres =>
    obtain ⟨-, -, hwrite⟩ := h.worker_write hw
    rw [executeWrite_eq s.tree hwrite, Option.some.injEq] at he
    refine iff_of_false (by simp) ?_
    intro hacc
    apply hacc _ hw
    rw [← TreeOp.exec_neg_iff, he]
    exact hres
  | cannotHandle hw he =>
    obtain ⟨-, -, hwrite⟩ := h.worker_write hw
    rw [executeWrite_eq s.tree hwrite] at he
    exact absurd he (by simp)
  | _ => exact iff_of_true hx trivial

/-- With the lock free and a write queued that the tree takes, the worker's next steps
execute it. -/
theorem runs_to_applied (h : ServerInv s log ks) (hx : s.exited = false)
    (hl : s.treeLock = none) {task : TaskT} {rest : List TaskT}
    (hq : s.tasks.tasksQueueHead = task :: rest)
    (hacc : ¬ task.opCodeAndArgs.treeOp.Refused s.tree) :
    ∃ as s₁, (∀ a ∈ as, a = .getNext ∨ a = .lockTask ∨ a = .execute) ∧
      run serverStep s as = some s₁ ∧ s₁.worker = .applied task ∧ s₁.exited = false ∧
      s₁.tasks = s.tasks := by
  have href := h.refines_of_free hl
  have hk : log.outcomes.length < log.accepted.length := by
    have hle := log.outcomes_le
    have hne : log.outcomes.length ≠ log.accepted.length := fun heq => by
      rw [href.queue_eq_nil.2 heq] at hq
      exact absurd hq (by simp)
    omega
  have hhead : task = ⟨log.outcomes.length, log.accepted.get ⟨log.outcomes.length, hk⟩⟩ := by
    rw [href.queue_eq_cons hk .successful] at hq
    exact (List.cons.inj hq).1.symm
  have hnext : tasksGetNext s.tasks = some (some task) := by
    rw [href.tasksGetNext_eq, dif_pos hk, hhead]
  have hwrite : task.opCodeAndArgs.IsWrite := by
    rw [hhead]
    exact (h.writes _ (List.get_mem _ _)).2
  have hexec := executeWrite_eq s.tree hwrite
  have hnonneg : ¬ (task.opCodeAndArgs.treeOp.exec s.tree).2 < 0 := by
    rwa [TreeOp.exec_neg_iff]
  -- the worker is either about to ask for the task or about to take the lock
  have hworker : s.worker = .waiting ∨ s.worker = .peeked task := by
    have hok := h.worker
    have hno : ¬ s.worker.holdsLock := fun hw => absurd (h.workerLock.2 hw) (by simp [hl])
    cases hw : s.worker with
    | waiting => exact Or.inl rfl
    | peeked task' =>
      rw [hw] at hok
      obtain ⟨hk', rfl⟩ := hok
      rw [hhead]
      exact Or.inr rfl
    | stopped =>
      rw [hw] at hok
      exact hok.elim
    | _ => simp [hw, WorkerPc.holdsLock] at hno
  rcases hworker with hw | hw
  · refine ⟨[.getNext, .lockTask, .execute], ?_⟩
    simp only [run_cons, run_nil, serverStep, ServerState.getNext, ServerState.lockTask,
      ServerState.execute, hx, hl, hw, hnext, hexec, hnonneg, Bool.false_eq_true, if_false,
      Option.bind_some]
    exact ⟨_, by simp, rfl, rfl, rfl, rfl⟩
  · refine ⟨[.lockTask, .execute], ?_⟩
    simp only [run_cons, run_nil, serverStep, ServerState.lockTask, ServerState.execute, hx, hl,
      hw, hexec, hnonneg, Bool.false_eq_true, if_false, Option.bind_some]
    exact ⟨_, by simp, rfl, rfl, rfl, rfl⟩

/-- Once a write is replicated, its result can be recorded. -/
theorem setResult_eq (h : ServerInv s log ks) (hx : s.exited = false) {task : TaskT}
    (hw : s.worker = .replicated task) : ∃ s', serverStep s .setResult = some s' ∧
      s'.tasks.tasksResultsListHead
        = ⟨task.taskId, .successful⟩ :: s.tasks.tasksResultsListHead := by
  have hok := h.worker
  have href := h.refines_of_worker (by rw [hw]; trivial)
  rw [hw] at hok
  obtain ⟨hk, rfl⟩ := hok
  refine ⟨_, by simp only [serverStep, ServerState.setResult, hx, hw]; rfl, ?_⟩
  show (tasksSetResult s.tasks _ .successful).1.tasksResultsListHead = _
  rw [TasksState.Refines.tasksSetResult_of_zero (href.tasksSetResult_next hk (by simp)).1]

/-- A queued write that the tree takes can be executed and recorded next. -/
theorem runs_next (h : ServerInv s log ks) (hx : s.exited = false) (hl : s.treeLock = none)
    {task : TaskT} {rest : List TaskT} (hq : s.tasks.tasksQueueHead = task :: rest)
    (hacc : ¬ task.opCodeAndArgs.treeOp.Refused s.tree) :
    ∃ as s', run serverStep s as = some s' ∧ s'.tasks.tasksResultsListHead
      = ⟨task.taskId, .successful⟩ :: s.tasks.tasksResultsListHead := by
  obtain ⟨as, s₁, -, hrun, hw, hx₁, htasks⟩ := h.runs_to_applied hx hl hq hacc
  set s₂ : ServerState := { s₁ with worker := .replicated task, exited := false } with hs₂
  have hrep : serverStep s₁ (.replicate true) = some s₂ := by
    simp only [serverStep, ServerState.replicate, hx₁, hw, Bool.false_eq_true, if_false, if_true]
    rfl
  have hinv : ∃ log ks, ServerInv s₂ log ks := by
    have hall : run serverStep s (as ++ [.replicate true]) = some s₂ := by
      rw [run_append, hrun]
      simp [hrep]
    exact serverInv_of_run_from ⟨log, ks, h⟩ hall
  obtain ⟨log₂, ks₂, hinv⟩ := hinv
  obtain ⟨s', hset, hres⟩ := hinv.setResult_eq rfl rfl
  refine ⟨as ++ [.replicate true, .setResult], s', ?_, ?_⟩
  · rw [run_append, hrun]
    simp [hrep, hset]
  · rw [hres]
    show _ :: s₁.tasks.tasksResultsListHead = _
    rw [htasks]

/-- A server that has not exited serves. -/
theorem serves (h : ServerInv s log ks) (hx : s.exited = false) : s.Serves where
  alive := hx
  results := by
    intro node hnode
    rw [h.tasks.results_eq] at hnode
    obtain ⟨⟨r, i⟩, hmem, rfl⟩ := List.mem_map.1 hnode
    rw [FifoLog.mem_settled] at hmem
    have hi : i < log.outcomes.length := (List.getElem?_eq_some_iff.1 hmem).1
    have hlt : i < log.accepted.length := hi.trans_le log.outcomes_le
    have hsome := List.getElem?_eq_getElem hlt
    have hexec := h.executed i _ (Nat.lt_add_right _ hi) hsome
    refine ⟨log.accepted[i], by rw [h.writes_eq]; exact hsome, ?_⟩
    show r = if (TreeOp.exec (treeAfter ((s.writes.take i).map Message.treeOp)) _).2 < 0
      then _ else _
    rw [← h.treeOfWrites_take, if_neg (by rwa [TreeOp.exec_neg_iff])]
    exact h.outcomes r (List.mem_of_getElem? hmem)
  tree := by
    intro hl
    rw [(h.done hl).tree, (h.done hl).results, List.length_map, List.length_reverse,
      List.length_range]
  continues := fun hl _ _ hq hacc => h.runs_next hx hl hq hacc

end ServerInv

/-- The same over a run. -/
theorem exited_iff_of_run {s s' : ServerState} {as : List ServerAction}
    (hinv : ∃ log ks, ServerInv s log ks) (hx : s.exited = false)
    (h : run serverStep s as = some s') (hrep : .replicate false ∉ as) :
    s'.exited = false ↔ StepsMeet serverStep ExecutesAccepted s as := by
  induction as generalizing s with
  | nil =>
    rw [run_nil, Option.some.injEq] at h
    exact iff_of_true (h ▸ hx) trivial
  | cons a as ih =>
    obtain ⟨s₁, h1, h2⟩ := Option.bind_eq_some_iff.1 h
    obtain ⟨log, ks, hinv⟩ := hinv
    have hcases := serverStep_cases h1
    have hone := hinv.exited_iff (fun ha => hrep (ha ▸ List.mem_cons_self)) hx hcases
    have hrep' : ServerAction.replicate false ∉ as := fun hm => hrep (List.mem_cons_of_mem _ hm)
    show s'.exited = false ↔ ExecutesAccepted s a ∧ _
    by_cases hx1 : s₁.exited = false
    · rw [ih (hinv.step hcases) hx1 h2 hrep']
      constructor
      · intro hmeet
        refine ⟨hone.1 hx1, ?_⟩
        intro s₂ hs₂
        rw [Option.mem_def, h1, Option.some.injEq] at hs₂
        exact hs₂ ▸ hmeet
      · intro hmeet
        exact hmeet.2 s₁ h1
    · -- a process that has exited makes no more steps
      have hlast : s' = s₁ := by
        cases as with
        | nil =>
          rw [run_nil, Option.some.injEq] at h2
          exact h2.symm
        | cons a' as =>
          obtain ⟨s₂, h3, -⟩ := Option.bind_eq_some_iff.1 h2
          exact absurd (not_exited_of_step h3) hx1
      rw [hlast]
      exact iff_of_false hx1 fun hmeet => hx1 (hone.2 hmeet.1)

/-- **When a server keeps serving.** In a run in which replication succeeds, the server
serves in the state reached if and only if no step of the run executed a write that the tree
refuses: a `tree_del` on an empty tree, or a `tree_put` without a key or a value. -/
theorem server_serves_iff {as : List ServerAction} {s : ServerState}
    (h : run serverStep treeSkelInit as = some s) (hrep : .replicate false ∉ as) :
    s.Serves ↔ StepsMeet serverStep ExecutesAccepted treeSkelInit as := by
  rw [← exited_iff_of_run ⟨_, _, treeSkelInit_inv⟩ rfl h hrep]
  obtain ⟨log, ks, hinv⟩ := serverInv_of_run h
  exact ⟨fun hs => hs.alive, fun hx => hinv.serves hx⟩

theorem server_serves_three : ∃ s,
    run serverStep treeSkelInit threeWrites = some s ∧ s.Serves := by
  obtain ⟨s, hrun, -, halive, -⟩ := threeWrites_run
  have hrep : .replicate false ∉ threeWrites := by
    simp [threeWrites, acceptWrite, answerRead, runTask]
  have hmeet := (exited_iff_of_run ⟨_, _, treeSkelInit_inv⟩ rfl hrun hrep).1 halive
  exact ⟨s, hrun, (server_serves_iff hrun hrep).2 hmeet⟩

/-- A delete that reaches an empty tree ends the process, before the write has a result. -/
theorem server_exits_on_del : ∃ s,
    run serverStep treeSkelInit (acceptWrite delRequest ++ [.getNext, .lockTask, .execute])
      = some s ∧ .replicate false ∉ acceptWrite delRequest ++ [.getNext, .lockTask, .execute] ∧
      s.exited = true ∧ tasksGetResult s.tasks 0 = .notExecuted :=
  ⟨_, rfl, by simp [acceptWrite], rfl, rfl⟩

end ReplicatedTree
