import ReplicatedTree.TasksTheorems
import ReplicatedTree.TreeSkel
import ReplicatedTree.TreeTheorems

/-!
# What the server does under every schedule — theorems about `TreeSkel`

A write is a call on the tree (`Message.treeOp`), so the trees of a server are those of
`treeAfter` (`treeOfWrites_eq`). `ServerInv` ties the tree, the task module and the answers
given so far to one log of writes, also for the time between the moment the worker reads the
head of the queue and the moment it records the result. Every action keeps it
(`ServerInv.step`), whichever thread makes it.
-/

namespace ReplicatedTree

open Transition

/-! ## Writes as calls on the tree -/

/-- A request that `invoke2` queues. -/
def Message.IsWrite (m : Message) : Prop := m.handler = .writeOperation

instance (m : Message) : Decidable m.IsWrite := inferInstanceAs (Decidable (_ = _))

/-- Only the two pairs of operation and content that `process_tasks` handles are queued. -/
theorem isWrite_iff (m : Message) : m.IsWrite ↔
    (m.opCode = opDel ∧ ∃ key, m.content = .key key) ∨
      (m.opCode = opPut ∧ ∃ entry, m.content = .entry entry) := by
  obtain ⟨opCode, content⟩ := m
  unfold Message.IsWrite Message.handler
  by_cases h1 : opCode = opSize
  · subst h1
    simp [opSize, opDel, opPut]
  by_cases h2 : opCode = opHeight
  · subst h2
    simp [opSize, opHeight, opDel, opPut]
  by_cases h3 : opCode = opGetKeys
  · subst h3
    simp [opSize, opHeight, opGetKeys, opDel, opPut]
  simp only [h1, h2, h3, if_false]
  cases content with
  | key k =>
    by_cases hd : opCode = opDel
    · simp [hd]
    · by_cases hg : opCode = opGet <;> simp [hd, hg]
  | entry e => simp
  | opId id =>
    by_cases hv : opCode = opVerify <;> simp [hv]
  | _ => simp

theorem Message.IsWrite.known {m : Message} (h : m.IsWrite) : m.content.Known := by
  rcases (isWrite_iff m).1 h with ⟨-, key, hc⟩ | ⟨-, entry, hc⟩ <;> rw [hc] <;> trivial

theorem msgToData_valid {v : Option DataMessage} : ∀ d ∈ msgToData v, d.Valid := by
  intro d hd
  obtain ⟨m, -, hm⟩ := Option.bind_eq_some_iff.1 hd
  unfold dataCreate2 at hm
  split_ifs at hm with hp
  rw [Option.some.injEq] at hm
  subst hm
  simpa [DataT.Valid] using hp

/-- The call on the tree that a write asks for. An entry that cannot be decoded counts as
one without key and value: neither changes the tree. -/
def Message.treeOp (m : Message) : TreeOp :=
  match m.content with
  | .key key => .del (some key)
  | .entry (some e) =>
    .put (msgToString e.key) ((msgToData e.value).pmap Subtype.mk msgToData_valid)
  | _ => .put none none

theorem executeWrite_eq (tree : TreeT) {m : Message} (h : m.IsWrite) :
    executeWrite tree m = some (m.treeOp.exec tree) := by
  obtain ⟨opCode, content⟩ := m
  rcases (isWrite_iff _).1 h with ⟨hop, key, hc⟩ | ⟨hop, entry, hc⟩
  · subst hop hc
    rfl
  · subst hop hc
    cases entry with
    | none => rfl
    | some e =>
      simp only [executeWrite, if_true, processTreePut, msgToEntry, Option.map_some,
        Message.treeOp, TreeOp.exec, entryCreate, Option.map_pmap, Option.pmap_eq_map,
        Option.map_id_fun', id]

theorem applyWrite_eq (tree : TreeT) {m : Message} (h : m.IsWrite) :
    applyWrite tree m = (m.treeOp.exec tree).1 := by
  unfold applyWrite
  rw [executeWrite_eq tree h]

theorem treeOfWrites_concat (writes : List Message) (m : Message) :
    treeOfWrites (writes ++ [m]) = applyWrite (treeOfWrites writes) m := by
  unfold treeOfWrites
  rw [List.foldl_append]
  rfl

theorem treeOfWrites_eq {writes : List Message} (h : ∀ m ∈ writes, m.IsWrite) :
    treeOfWrites writes = treeAfter (writes.map Message.treeOp) := by
  induction writes using List.reverseRecOn with
  | nil => rfl
  | append_singleton writes m ih =>
    have hm : m.IsWrite := h m (by simp)
    rw [treeOfWrites_concat, ih fun m' hm' => h m' (by simp [hm']), applyWrite_eq _ hm,
      treeAfter, treeAfter, List.map_append, List.foldl_append]
    rfl

/-- The calls a tree refuses: a `put` without key or value, and a `del` on an empty tree. -/
def TreeOp.Refused (tree : TreeT) : TreeOp → Prop
  | .put key value => key = none ∨ value = none
  | .del _ => tree.root = .nil

instance (tree : TreeT) : (op : TreeOp) → Decidable (op.Refused tree)
  | .put key value => inferInstanceAs (Decidable (key = none ∨ value = none))
  | .del _ => inferInstanceAs (Decidable (tree.root = .nil))

theorem TreeOp.exec_refused {tree : TreeT} {op : TreeOp} (h : op.Refused tree) :
    op.exec tree = (tree, -1) := by
  cases op with
  | put key value => exact exec_put_null tree h
  | del key =>
    show treeDel tree key = _
    unfold treeDel
    rw [show tree.root = .nil from h]

theorem TreeOp.exec_accepted {tree : TreeT} {op : TreeOp} (h : ¬ op.Refused tree) :
    (op.exec tree).2 = 0 := by
  cases op with
  | put key value =>
    have hnull : ¬ (key = none ∨ value.map Subtype.val = none) := by
      rwa [Option.map_eq_none_iff]
    show (treePut tree key (value.map Subtype.val)).2 = 0
    unfold treePut
    rw [if_neg hnull]
    cases tree.root <;> rfl
  | del key =>
    show (treeDel tree key).2 = 0
    unfold treeDel
    cases hroot : tree.root with
    | nil => exact absurd hroot h
    | node e l r => cases treeNodePointerGet key (.node e l r) [] <;> rfl

theorem TreeOp.exec_neg_iff {tree : TreeT} {op : TreeOp} :
    (op.exec tree).2 < 0 ↔ op.Refused tree := by
  constructor
  · intro h
    by_contra hacc
    rw [exec_accepted hacc] at h
    exact absurd h (by decide)
  · intro h
    rw [exec_refused h]
    show (-1 : ℤ) < 0
    decide

/-! ## Case analysis of a step -/

/-- What the actions do, one constructor for each way an action can go. -/
inductive ServerStep (s : ServerState) : ServerAction → ServerState → Prop
  | lockRequest (request : Request) (hr : s.request = .idle) (hl : s.treeLock = none) :
    ServerStep s (.lockRequest request)
      { s with treeLock := some .request, request := .locked request.1 }
  | create {request : Message} {tasks : TasksState} {task : TaskT}
      (hr : s.request = .locked request) (hw : request.IsWrite)
      (hc : taskCreate s.tasks request = some (tasks, task)) :
    ServerStep s .handle { s with tasks := tasks, request := .created request task }
  | createFails {request : Message} (hr : s.request = .locked request)
      (hc : taskCreate s.tasks request = none) :
    ServerStep s .handle
      { s with request := .answered request (writeResponse request (-1)) }
  | read {request response : Message} (hr : s.request = .locked request)
      (hw : ¬ request.IsWrite) (hresp : invokeRead s.tree s.tasks request = some response) :
    ServerStep s .handle { s with request := .answered request response }
  | readFaults {request : Message} (hr : s.request = .locked request)
      (hresp : invokeRead s.tree s.tasks request = none) :
    ServerStep s .handle { s with exited := true }
  | enqueue {request : Message} {task : TaskT} (hr : s.request = .created request task) :
    ServerStep s .enqueue
      { s with
        tasks := tasksEnqueue s.tasks task
        request := .answered request (writeResponse request task.taskId) }
  | unlockRequest {request response : Message} (hr : s.request = .answered request response) :
    ServerStep s .unlockRequest
      { s with
        treeLock := none
        request := .idle
        answers := s.answers ++ [(request, finishResponse response)] }
  | getNext {task : TaskT} (hw : s.worker = .waiting)
      (hn : tasksGetNext s.tasks = some (some task)) :
    ServerStep s .getNext { s with worker := .peeked task }
  | stop (hw : s.worker = .waiting) (hn : tasksGetNext s.tasks = some none) :
    ServerStep s .getNext { s with worker := .stopped }
  | lockTask {task : TaskT} (hw : s.worker = .peeked task) (hl : s.treeLock = none) :
    ServerStep s .lockTask { s with treeLock := some .worker, worker := .locked task }
  | execute {task : TaskT} {tree : TreeT} {result : ℤ} (hw : s.worker = .locked task)
      (he : executeWrite s.tree task.opCodeAndArgs = some (tree, result)) (hres : 0 ≤ result) :
    ServerStep s .execute { s with tree := tree, worker := .applied task }
  | refuse {task : TaskT} {tree : TreeT} {result : ℤ} (hw : s.worker = .locked task)
      (he : executeWrite s.tree task.opCodeAndArgs = some (tree, result)) (hres : result < 0) :
    ServerStep s .execute { s with tree := tree, exited := true }
  | cannotHandle {task : TaskT} (hw : s.worker = .locked task)
      (he : executeWrite s.tree task.opCodeAndArgs = none) :
    ServerStep s .execute { s with worker := .cannotHandle task }
  | replicate {task : TaskT} (hw : s.worker = .applied task) :
    ServerStep s (.replicate true) { s with worker := .replicated task }
  | replicateFails {task : TaskT} (hw : s.worker = .applied task) :
    ServerStep s (.replicate false) { s with exited := true }
  | setSuccessful {task : TaskT} (hw : s.worker = .replicated task) :
    ServerStep s .setResult
      { s with
        tasks := (tasksSetResult s.tasks task.taskId .successful).1
        worker := .recorded }
  | setFailed {task : TaskT} (hw : s.worker = .cannotHandle task) :
    ServerStep s .setResult
      { s with
        tasks := (tasksSetResult s.tasks task.taskId .failed).1
        worker := .recorded }
  | unlockTask (hw : s.worker = .recorded) :
    ServerStep s .unlockTask { s with treeLock := none, worker := .waiting }

theorem not_exited_of_step {s s' : ServerState} {a : ServerAction}
    (h : serverStep s a = some s') : s.exited = false := by
  unfold serverStep at h
  by_cases hx : s.exited = true
  · rw [if_pos hx] at h
    exact absurd h (by simp)
  · simpa using hx

theorem serverStep_cases {s s' : ServerState} {a : ServerAction}
    (h : serverStep s a = some s') : ServerStep s a s' := by
  have hx := not_exited_of_step h
  unfold serverStep at h
  rw [hx, if_neg (by decide)] at h
  cases a with
  | lockRequest request =>
    simp only [ServerState.lockRequest] at h
    split at h
    · rw [Option.some.injEq] at h
      subst h
      exact .lockRequest request ‹_› ‹_›
    · simp at h
  | handle =>
    simp only [ServerState.handle] at h
    split at h
    · -- a write becomes a task, anything else is answered from the tree
      split_ifs at h with hw
      · split at h <;> rw [Option.some.injEq] at h <;> subst h
        · exact .create ‹_› hw ‹_›
        · exact .createFails ‹_› ‹_›
      · split at h <;> rw [Option.some.injEq] at h <;> subst h
        · exact .read ‹_› hw ‹_›
        · exact .readFaults ‹_› ‹_›
    · simp at h
  | enqueue =>
    simp only [ServerState.enqueue] at h
    split at h
    · rw [Option.some.injEq] at h
      subst h
      exact .enqueue ‹_›
    · simp at h
  | unlockRequest =>
    simp only [ServerState.unlockRequest] at h
    split at h
    · rw [Option.some.injEq] at h
      subst h
      exact .unlockRequest ‹_›
    · simp at h
  | getNext =>
    simp only [ServerState.getNext] at h
    split at h
    · -- no task yet, the end of the tasks, or a task
      split at h
      · simp at h
      · rw [Option.some.injEq] at h
        subst h
        exact .stop ‹_› ‹_›
      · rw [Option.some.injEq] at h
        subst h
        exact .getNext ‹_› ‹_›
    · simp at h
  | lockTask =>
    simp only [ServerState.lockTask] at h
    split at h
    · rw [Option.some.injEq] at h
      subst h
      exact .lockTask ‹_› ‹_›
    · simp at h
  | execute =>
    simp only [ServerState.execute] at h
    split at h
    · split at h
      · -- the result of `tree_put` or `tree_del` decides whether the server goes on
        split_ifs at h with hres <;> rw [Option.some.injEq] at h <;> subst h
        · exact .refuse ‹_› ‹_› hres
        · exact .execute ‹_› ‹_› (by omega)
      · rw [Option.some.injEq] at h
        subst h
        exact .cannotHandle ‹_› ‹_›
    · simp at h
  | replicate ok =>
    simp only [ServerState.replicate] at h
    split at h
    · cases ok <;> simp only [Bool.false_eq_true, if_false, if_true, Option.some.injEq] at h <;>
        subst h
      · exact .replicateFails ‹_›
      · exact .replicate ‹_›
    · simp at h
  | setResult =>
    simp only [ServerState.setResult] at h
    split at h
    · rw [Option.some.injEq] at h
      subst h
      exact .setSuccessful ‹_›
    · rw [Option.some.injEq] at h
      subst h
      exact .setFailed ‹_›
    · simp at h
  | unlockTask =>
    simp only [ServerState.unlockTask] at h
    split at h
    · rw [Option.some.injEq] at h
      subst h
      exact .unlockTask ‹_›
    · simp at h

end ReplicatedTree
