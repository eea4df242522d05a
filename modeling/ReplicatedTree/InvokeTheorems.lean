import ReplicatedTree.Invoke

/-!
# What `invoke` answers, and what it leaves alone

`Message.responseCase` is the table of the protocol: for the pairs of operation and content that
are served, the content of the response. `invoke` follows it in every state a server can be in
(`invoke_serves`): a served request is never answered with `OP_ERROR`, since no value that a
lookup would fail to copy is ever stored, and the one effect a request can have is one more task.
-/

namespace ReplicatedTree

open Transition

/-! ## The protocol -/

/-- `Message__ContentCase`. -/
inductive ContentCase
  | none
  | key
  | value
  | entry
  | keys
  | intResult
  | opId
  | unknown (contentCase : ℤ)
deriving DecidableEq

def Content.case : Content → ContentCase
  | .notSet => .none
  | .key _ => .key
  | .value _ => .value
  | .entry _ => .entry
  | .keys _ => .keys
  | .intResult _ => .intResult
  | .opId _ => .opId
  | .unknown contentCase => .unknown contentCase

/-- What a supported request is to be answered with; none for every other pair. -/
def Message.responseCase (request : Message) : Option ContentCase :=
  if request.opCode = opSize ∨ request.opCode = opHeight then some .intResult
  else if request.opCode = opGetKeys then some .keys
  else if request.opCode = opGet ∧ request.content.case = .key then some .value
  else if request.opCode = opDel ∧ request.content.case = .key
    ∨ request.opCode = opPut ∧ request.content.case = .entry then some .opId
  else if request.opCode = opVerify ∧ request.content.case = .opId then some .intResult
  else none

/-- `invoke` with its return value. The tree is NULL before `tree_skel_init`; the message, and
what it holds, may be NULL. Afterwards the message holds the response. -/
def invokeMessage (tree : Option TreeT) (tasks : TasksState) (message : Option (Option Message)) :
    Option (TasksState × Option (Option Message) × ℤ) :=
  match tree, message with
  | some tree, some (some request) =>
    (invoke tree tasks request).map fun (tasks, response) => (tasks, some (some response), 0)
  | _, _ => some (tasks, message, -1)

/-! ## The handlers follow the table -/

/-- The content a handler answers with. -/
def Handler.responseCase : Handler → Option ContentCase
  | .treeSize | .treeHeight | .verify _ => some .intResult
  | .treeGet _ => some .value
  | .treeGetKeys => some .keys
  | .writeOperation => some .opId
  | .none => Option.none

theorem responseCase_eq_handler (request : Message) :
    request.responseCase = request.handler.responseCase := by
  obtain ⟨opCode, content⟩ := request
  unfold Message.responseCase Message.handler
  by_cases h1 : opCode = opSize
  · simp [h1, Handler.responseCase]
  by_cases h2 : opCode = opHeight
  · simp [h2, opSize, opHeight, Handler.responseCase]
  by_cases h3 : opCode = opGetKeys
  · simp [h3, opSize, opHeight, opGetKeys, Handler.responseCase]
  -- the other operations need the right content
  simp only [h1, h2, h3, or_self, if_false]
  cases content with
  | key k =>
    by_cases hd : opCode = opDel
    · simp [hd, Content.case, opDel, opGet, Handler.responseCase]
    · by_cases hg : opCode = opGet
      · simp [hg, Content.case, opDel, opGet, Handler.responseCase]
      · simp [hd, hg, Content.case, Handler.responseCase]
  | entry e =>
    by_cases hp : opCode = opPut <;> simp [hp, Content.case, Handler.responseCase]
  | opId id =>
    by_cases hv : opCode = opVerify <;> simp [hv, Content.case, Handler.responseCase]
  | _ => simp [Content.case, Handler.responseCase]

theorem responseCase_opId_iff (request : Message) :
    request.responseCase = some .opId ↔ request.IsWrite := by
  rw [responseCase_eq_handler]
  unfold Message.IsWrite
  cases request.handler <;> simp [Handler.responseCase]

/-- The code of a response to a supported request is neither of the two that mean failure. -/
theorem opCode_of_responseCase {request : Message} {c : ContentCase}
    (h : request.responseCase = some c) :
    request.opCode + 1 ≠ opBad ∧ request.opCode + 1 ≠ opError := by
  have hop : request.opCode = opSize ∨ request.opCode = opHeight ∨ request.opCode = opGetKeys ∨
      request.opCode = opGet ∨ request.opCode = opDel ∨ request.opCode = opPut ∨
      request.opCode = opVerify := by
    unfold Message.responseCase at h
    grind
  rcases hop with hop | hop | hop | hop | hop | hop | hop <;> rw [hop] <;> decide

/-! ## Ids -/

/-- An id that the server has given out. -/
def ServerState.UsesId (s : ServerState) (id : ℤ) : Prop :=
  (∃ task ∈ s.tasks.tasksQueueHead, task.taskId = id) ∨
    (∃ node ∈ s.tasks.tasksResultsListHead, node.taskId = id) ∨
    ∃ w ∈ acceptedWrites (s.answers ++ s.request.openAnswer), w.2 = id

section

variable {s s' : ServerState} {log : TaskLog} {ks : List ℕ}

/-- A task in the making is in neither list, but has its id. -/
theorem TasksState.RefinesDuring.before {tasks : TasksState} {pc : RequestPc}
    (h : tasks.RefinesDuring log pc) : ∃ tasks₀ : TasksState, tasks₀.Refines log ∧
      tasks.tasksQueueHead = tasks₀.tasksQueueHead ∧
      tasks.tasksResultsListHead = tasks₀.tasksResultsListHead ∧
      tasks₀.lastTaskIdAssigned ≤ tasks.lastTaskIdAssigned := by
  cases pc with
  | created request task =>
    obtain ⟨tasks₀, href, hc⟩ := h
    obtain ⟨copied, -, heq⟩ := Option.map_eq_some_iff.1 hc
    obtain ⟨rfl, rfl⟩ := Prod.mk.inj heq
    refine ⟨tasks₀, href, rfl, rfl, ?_⟩
    show tasks₀.lastTaskIdAssigned ≤ tasks₀.lastTaskIdAssigned + 1
    omega
  | _ => exact ⟨tasks, h, rfl, rfl, le_refl _⟩

theorem ServerInv.le_last (h : ServerInv s log ks) :
    -1 ≤ s.tasks.lastTaskIdAssigned ∧ ∀ id, s.UsesId id → id ≤ s.tasks.lastTaskIdAssigned := by
  obtain ⟨tasks₀, href, hqueue, hresults, hlast⟩ := h.tasks.before
  have hlen := href.last_eq
  -- the ids in the two lists are the positions of the log
  have hpos : ∀ id, id ∈ tasks₀.tasksQueueHead.map TaskT.taskId
      ++ tasks₀.tasksResultsListHead.map TaskResultNode.taskId →
      id ≤ s.tasks.lastTaskIdAssigned := by
    intro id hid
    obtain ⟨i, hi, rfl⟩ := List.mem_map.1 (href.ids_perm.mem_iff.1 hid)
    have hlt := List.mem_range.1 hi
    show (i : ℤ) ≤ _
    omega
  refine ⟨by omega, ?_⟩
  intro id huses
  rcases huses with hq | hr | ha
  · obtain ⟨task, hmem, rfl⟩ := hq
    rw [hqueue] at hmem
    exact hpos _ (List.mem_append_left _ (List.mem_map_of_mem hmem))
  · obtain ⟨node, hmem, rfl⟩ := hr
    rw [hresults] at hmem
    exact hpos _ (List.mem_append_right _ (List.mem_map_of_mem hmem))
  · obtain ⟨w, hmem, rfl⟩ := ha
    rw [h.accepted] at hmem
    obtain ⟨⟨m, i⟩, hi, rfl⟩ := List.mem_map.1 hmem
    have hlt := (List.mem_zipIdx' hi).1
    show (i : ℤ) ≤ _
    omega

/-! ## Responses -/

/-- What is asked of `invoke`. -/
structure InvokeServes (s : ServerState) (request : Message) (tasks : TasksState)
    (response : Message) : Prop where
  supported : ∀ c, request.responseCase = some c → response.opCode = request.opCode + 1 ∧
    response.content.case = c ∧ response.opCode ≠ opError
  unsupported : request.responseCase = none → response = ⟨opError, .intResult (-1)⟩
  read : request.responseCase ≠ some .opId → tasks = s.tasks
  write : request.responseCase = some .opId → ∃ id, 0 ≤ id ∧ ¬ s.UsesId id ∧
    response.content = .opId id ∧ tasks = { s.tasks with
      lastTaskIdAssigned := id
      tasksQueueHead := s.tasks.tasksQueueHead ++ [⟨id, request⟩] }

/-- The handlers that read. -/
theorem ServerInv.invokeRead_case (h : ServerInv s log ks) {request response : Message}
    (hread : invokeRead s.tree s.tasks request = some response) (hw : ¬ request.IsWrite) :
    request.responseCase = none ∧ response = messageCreate ∨
      ∃ c, request.responseCase = some c ∧ response.opCode = request.opCode + 1 ∧
        response.content.case = c := by
  rw [responseCase_eq_handler]
  unfold Message.IsWrite at hw
  unfold invokeRead invokeQuery at hread
  cases hhandler : request.handler with
  | treeSize | treeHeight | verify =>
    rw [hhandler] at hread
    obtain rfl := Option.some.inj hread
    exact Or.inr ⟨_, rfl, rfl, rfl⟩
  | treeGet key =>
    -- a lookup on the tree of a server finds nothing it cannot copy
    simp only [hhandler, invokeTreeGet, treeGet_eq h.tree_inv, Option.some.injEq] at hread
    rw [← hread]
    exact Or.inr ⟨_, rfl, rfl, rfl⟩
  | treeGetKeys =>
    simp only [hhandler, invokeTreeGetKeys] at hread
    obtain ⟨keys, -, rfl⟩ := Option.map_eq_some_iff.1 hread
    exact Or.inr ⟨_, rfl, rfl, rfl⟩
  | writeOperation => exact absurd hhandler hw
  | none =>
    rw [hhandler] at hread
    exact Or.inl ⟨rfl, (Option.some.inj hread).symm⟩

theorem ServerInv.invoke_read (h : ServerInv s log ks) {request : Message}
    (hw : ¬ request.IsWrite) : ∃ response,
      invoke s.tree s.tasks request = some (s.tasks, response) ∧
        InvokeServes s request s.tasks response := by
  obtain ⟨response, hread⟩ := Option.ne_none_iff_exists'.1 (h.invokeRead_isSome request)
  have hopId : request.responseCase ≠ some .opId := mt (responseCase_opId_iff request).1 hw
  refine ⟨finishResponse response, ?_, ?_, ?_, fun _ => rfl, fun hc => absurd hc hopId⟩
  · rw [invoke, invoke2, if_neg hw, hread]
    rfl
  · intro c hc
    rcases h.invokeRead_case hread hw with ⟨hnone, -⟩ | ⟨c', hc', hop, hcase⟩
    · rw [hnone] at hc
      exact absurd hc (by simp)
    · have hcodes := opCode_of_responseCase hc
      have hfinish : finishResponse response = response := by
        rw [finishResponse, if_neg (by rw [hop]; exact hcodes.1)]
      rw [hfinish, hop]
      rw [hc'] at hc
      exact ⟨rfl, hcase.trans (Option.some.inj hc), hcodes.2⟩
  · intro hnone
    rcases h.invokeRead_case hread hw with ⟨-, rfl⟩ | ⟨c, hc, -⟩
    · rfl
    · rw [hnone] at hc
      exact absurd hc (by simp)

theorem ServerInv.invoke_write (h : ServerInv s log ks) {request : Message} (hwf : request.Wf)
    (hw : request.IsWrite) : ∃ tasks response,
      invoke s.tree s.tasks request = some (tasks, response) ∧
        InvokeServes s request tasks response := by
  have hopId := (responseCase_opId_iff request).2 hw
  have hcodes := opCode_of_responseCase hopId
  obtain ⟨hlast, huses⟩ := h.le_last
  have hadd : tasksAddTask s.tasks (some request) = ({ s.tasks with
      lastTaskIdAssigned := s.tasks.lastTaskIdAssigned + 1
      tasksQueueHead := s.tasks.tasksQueueHead ++ [⟨s.tasks.lastTaskIdAssigned + 1, request⟩] },
      s.tasks.lastTaskIdAssigned + 1) := by
    simp only [tasksAddTask, taskCreate, messageDup_of_known hwf hw.known, Option.map_some,
      tasksEnqueue]
  have hfinish : finishResponse (writeResponse request (s.tasks.lastTaskIdAssigned + 1))
      = writeResponse request (s.tasks.lastTaskIdAssigned + 1) := by
    rw [finishResponse, if_neg]
    exact hcodes.1
  refine ⟨(tasksAddTask s.tasks (some request)).1,
    writeResponse request (s.tasks.lastTaskIdAssigned + 1), ?_, ?_, ?_, ?_, ?_⟩
  · rw [invoke, invoke2, if_pos hw, hadd, ← hfinish]
    rfl
  · intro c hc
    rw [hopId] at hc
    exact ⟨rfl, Option.some.inj hc, hcodes.2⟩
  · intro hnone
    rw [hopId] at hnone
    exact absurd hnone (by simp)
  · intro hno
    exact absurd hopId hno
  · intro _
    refine ⟨s.tasks.lastTaskIdAssigned + 1, by omega, ?_, rfl, by rw [hadd]⟩
    intro hused
    have hle := huses _ hused
    omega

end

/-- **What `invoke` does with any request.** In every state of a server, whatever the operation
and the content of a request, `invoke` returns 0. A supported request is answered with its code
plus one and the content its operation defines, every other one with `OP_ERROR` and -1. The tree
and the task module stay as they are, except that a write appends one task, a copy of the request
under a new id that is not negative (ids are unbounded here, in the code below 2^31). Every run
of `invoke`, whatever the worker does meanwhile, has just this effect. -/
theorem invoke_serves {as : List ServerAction} {s : ServerState}
    (h : run serverStep treeSkelInit as = some s) (request : { m : Message // m.Wf }) :
    ∃ tasks response,
      invokeMessage (some s.tree) s.tasks (some (some request.1))
        = some (tasks, some (some response), 0) ∧
      InvokeServes s request.1 tasks response ∧
      ∀ (hk : request.1.content.Known) (s' : ServerState),
        InvokeRun s ⟨request.1, request.2, hk⟩ s' →
          s'.tree = s.tree ∧ s'.tasks = tasks ∧
            s'.answers = s.answers ++ [(request.1, response)] := by
  obtain ⟨log, ks, hinv⟩ := serverInv_of_run h
  have hinvoke : ∃ tasks response, invoke s.tree s.tasks request.1 = some (tasks, response) ∧
      InvokeServes s request.1 tasks response := by
    by_cases hw : request.1.IsWrite
    · exact hinv.invoke_write request.2 hw
    · exact ⟨s.tasks, hinv.invoke_read hw⟩
  obtain ⟨tasks, response, heq, hserves⟩ := hinvoke
  refine ⟨tasks, response, ?_, hserves, ?_⟩
  · rw [invokeMessage, heq]
    rfl
  · intro hk s' hrun
    obtain ⟨htree, response', heq', hanswers⟩ := invoke_atomic ⟨log, ks, hinv⟩ hrun
    obtain ⟨htasks, hresponse⟩ := Prod.mk.inj (Option.some.inj (heq'.symm.trans heq))
    refine ⟨htree, htasks, ?_⟩
    rw [hanswers, hresponse]

theorem invoke_serves_get : ∃ s,
    run serverStep treeSkelInit (acceptWrite putRequest ++ runTask) = some s ∧
      ∃ tasks response, InvokeServes s ⟨opGet, .key ⟨[107], nul_notMem_k⟩⟩ tasks response := by
  have hrun : ∃ s, run serverStep treeSkelInit (acceptWrite putRequest ++ runTask) = some s :=
    ⟨_, rfl⟩
  obtain ⟨s, hs⟩ := hrun
  obtain ⟨tasks, response, -, hserves, -⟩ :=
    invoke_serves hs ⟨⟨opGet, .key ⟨[107], nul_notMem_k⟩⟩, trivial⟩
  exact ⟨s, hs, tasks, response, hserves⟩

end ReplicatedTree
