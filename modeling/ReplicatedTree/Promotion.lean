import ReplicatedTree.ClusterTheorems
import ReplicatedTree.ServerWrites

/-!
# What promotion does to the queued writes

A backup is promoted in three steps (primary znode, role, backup znode) while its worker goes
through the queue. The queue itself is safe: `promotion_keeps_queue` says that each write is
executed once and in order, whatever the steps of the promotion are interleaved with. The
server's life is not: as a primary it has to find another server to replicate to.
-/

namespace ReplicatedTree

open Transition

/-! ## The condition -/

/-- What server `i` does in this step leaves it a server to replicate to: it is not killed,
executes no write that the tree refuses, and finds the address of another server, which can be
reached. -/
def ReplicatesElsewhere (i : ℕ) (s : Cluster) : ClusterAction → Prop
  | .crash j => j ≠ i
  | .server j action => j = i → ExecutesAccepted (s.server i) action
  | .replicate j ok => j = i →
    match (s.nodes i).replicating with
    | .idle => True
    | .notBackup => ∃ address ∈ zooGet s.registry .backup, address ≠ s.address i
    | .found address => ok = true ∧ s.listening address ≠ none
  | _ => True

instance (i : ℕ) (s : Cluster) : (a : ClusterAction) → Decidable (ReplicatesElsewhere i s a)
  | .crash j => inferInstanceAs (Decidable (j ≠ i))
  | .server j action => inferInstanceAs (Decidable (j = i → ExecutesAccepted (s.server i) action))
  | .replicate j ok =>
    match hr : (s.nodes i).replicating with
    | .idle => isTrue fun _ => by rw [hr]; trivial
    | .notBackup =>
      decidable_of_iff (j = i → ∃ address ∈ zooGet s.registry .backup, address ≠ s.address i)
        (by simp only [ReplicatesElsewhere, hr])
    | .found address =>
      decidable_of_iff (j = i → ok = true ∧ s.listening address ≠ none)
        (by simp only [ReplicatesElsewhere, hr])
  | .member _ _ | .listen _ | .receiveFlight _ _ | .receiveCall _ _ | .answer _ | .getPrimary _
  | .getBackup _ | .connectPrimary _ _ | .connectBackup _ _ | .retryFails _ | .close _
  | .callFails _ | .call _ _ => isTrue trivial

/-- A server in this state has somewhere to send a write, or does not have to. -/
def Cluster.CanReplicate (s : Cluster) (i : ℕ) : Prop :=
  s.role i = .backup ∨
    ∃ address, zooGet s.registry .backup = some address ∧ address ≠ s.address i ∧
      s.listening address ≠ none

/-- What is asked of a server that keeps its queue. -/
structure Cluster.KeepsQueue (s : Cluster) (i : ℕ) : Prop where
  alive : (s.server i).exited = false
  elsewhere : ∀ f ∈ s.flights, f.source = i → f.target ≠ i
  continues : (s.server i).treeLock = none → s.CanReplicate i → ∀ task rest,
    (s.server i).tasks.tasksQueueHead = task :: rest →
    ¬ task.opCodeAndArgs.treeOp.Refused (s.server i).tree →
    ∃ as s', run clusterStep s as = some s' ∧ (s'.server i).tasks.tasksResultsListHead
      = ⟨task.taskId, .successful⟩ :: (s.server i).tasks.tasksResultsListHead

/-! ## Staying alive -/

/-- The part of `Cluster.KeepsQueue` that is an invariant. -/
structure Cluster.Lives (s : Cluster) (i : ℕ) : Prop where
  alive : (s.server i).exited = false
  found : ∀ address, (s.nodes i).replicating = .found address → address ≠ s.address i
  elsewhere : ∀ f ∈ s.flights, f.source = i → f.target ≠ i

theorem clusterInit_lives (address : ℕ → ℕ) (i : ℕ) : (clusterInit address).Lives i where
  alive := rfl
  found := by
    intro found h
    exact absurd h (by simp [clusterInit, nodeInit])
  elsewhere := by
    intro f hf
    exact absurd hf List.not_mem_nil

namespace Cluster.Lives

variable {s s' : Cluster} {i j : ℕ}

/-- One process changes. -/
theorem setNode (h : s.Lives i) {node : Node} (hx : j = i → node.server.exited = false)
    (hf : j = i → ∀ address, node.replicating = .found address → address ≠ s.address i) :
    (s.setNode j node).Lives i where
  alive := by
    rw [ClusterInv.setNode_server]
    split_ifs with hij
    · exact hx hij.symm
    · exact h.alive
  found := by
    rw [ClusterInv.setNode_nodes]
    split_ifs with hij
    · exact hf hij.symm
    · exact h.found
  elsewhere := h.elsewhere

theorem congr (h : s.Lives i) (hn : s'.nodes = s.nodes) (ha : s'.address i = s.address i)
    (hf : ∀ f ∈ s'.flights, f.source = i → f.target ≠ i) : s'.Lives i := by
  refine ⟨?_, ?_, hf⟩
  · rw [Cluster.server, hn]
    exact h.alive
  · rw [hn, ha]
    exact h.found

/-- A step of one process that does not make it look for a backup. -/
theorem serverStep (h : s.Lives i) (hinv : ClusterInv s) {a : ServerAction}
    {server : ServerState} {node : Node} (hs : ServerStep (s.server j) a server)
    (hn : node.server = server) (ha : j = i → a ≠ .replicate false)
    (hacc : j = i → ExecutesAccepted (s.server i) a)
    (hrep : node.replicating = .idle ∨ node.replicating = (s.nodes j).replicating) :
    (s.setNode j node).Lives i := by
  obtain ⟨log, ks, hserver⟩ := hinv.servers j
  apply h.setNode
  · rintro rfl
    rw [hn, hserver.exited_iff (ha rfl) h.alive hs]
    exact hacc rfl
  · rintro rfl address hf
    rcases hrep with hidle | hsame
    · exact absurd (hidle.symm.trans hf) (by simp)
    · exact h.found address (hsame.symm.trans hf)

theorem step (h : s.Lives i) (hinv : ClusterInv s) {a : ClusterAction}
    (hmeet : ReplicatesElsewhere i s a) (hstep : ClusterStep s a s') : s'.Lives i := by
  cases hstep with
  | crash hx =>
    apply h.setNode
    · exact fun hji => absurd hji hmeet
    · exact fun hji => absurd hji hmeet
  | server ha hs =>
    exact h.serverStep hinv hs rfl (fun _ => ha.ne_replicate false) hmeet (Or.inr rfl)
  | isBackup hr hb hs =>
    exact h.serverStep hinv hs rfl (by simp) (fun _ => trivial) (Or.inl rfl)
  | notBackup hx hw hr hb =>
    apply h.setNode
    · rintro rfl
      exact h.alive
    · intro _ address hf
      exact absurd hf (by simp)
  | lookUp hx hw hr hg =>
    apply h.setNode
    · rintro rfl
      exact h.alive
    · rintro rfl address hf
      have hlook := hmeet rfl
      rw [hr] at hlook
      obtain ⟨found, hfound, hne⟩ := hlook
      rw [hg, Option.mem_some] at hfound
      rw [← ReplicatePc.found.inj hf, hfound]
      exact hne
  | @fails j ok server hr hs =>
    -- server `i` finds a backup and reaches it, so the one that fails is another server
    have hji : j ≠ i := by
      rintro rfl
      have hlook := hmeet rfl
      rcases hr with ⟨hpc, hnone⟩ | ⟨address, hpc, hno⟩
      · rw [hpc] at hlook
        obtain ⟨found, hfound, -⟩ := hlook
        exact absurd (hnone.symm.trans hfound) (by simp)
      · rw [hpc] at hlook
        obtain ⟨⟨task, hw⟩, -⟩ := hinv.replicating j (by simp [hpc])
        exact hno task hw (by simp [hinv.messageDup_of_applied hw]) hlook
    exact h.setNode (fun heq => absurd heq hji) fun heq => absurd heq hji
  | @send j address target task msg server hw hr hl hd hs =>
    have hnode : (s.setNode j { s.nodes j with server := server, replicating := .idle }).Lives i :=
      h.serverStep hinv hs rfl (by simp) (fun _ => trivial) (Or.inl rfl)
    refine hnode.congr rfl rfl ?_
    intro f hf
    rcases List.mem_append.1 hf with hf | hf
    · exact h.elsewhere f hf
    · -- the new flight goes to the address found, which is not the server's own
      rw [List.mem_singleton.1 hf]
      rintro rfl htarget
      dsimp only at htarget
      subst htarget
      exact h.found address hr (hinv.address_of_listening hl).symm
  | @receiveFlight k f request server hf hm hp hs =>
    -- a flight leaves, and no new one comes
    have hnode : (s.setNode f.target
        { s.nodes f.target with server := server, serving := none }).Lives i :=
      h.serverStep hinv hs rfl (by simp) (fun _ => trivial) (Or.inr rfl)
    refine hnode.congr rfl rfl ?_
    intro f' hf'
    exact h.elsewhere f' (List.mem_of_mem_eraseIdx hf')
  | @receiveCall k call request server hf hm hp hs =>
    have hnode : (s.setNode call.server
        { s.nodes call.server with server := server, serving := some call }).Lives i :=
      h.serverStep hinv hs rfl (by simp) (fun _ => trivial) (Or.inr rfl)
    exact hnode.congr rfl rfl h.elsewhere
  | @answer j request response server clients hr hs hc =>
    have hnode : (s.setNode j { s.nodes j with server := server, serving := none }).Lives i :=
      h.serverStep hinv hs rfl (by simp) (fun _ => trivial) (Or.inr rfl)
    exact hnode.congr rfl rfl h.elsewhere
  | member hx hl hm => exact h.congr rfl (membershipStep_address hm i) h.elsewhere
  | _ => exact h.congr rfl rfl h.elsewhere

theorem of_run {address : ℕ → ℕ} {as : List ClusterAction}
    (hmeet : StepsMeet clusterStep (ReplicatesElsewhere i) (clusterInit address) as)
    (h : run clusterStep (clusterInit address) as = some s) : s.Lives i := by
  refine (run_invariant_of_meet (P := fun s => ClusterInv s ∧ s.Lives i) ?_
    ⟨clusterInit_inv address, clusterInit_lives address i⟩ hmeet h).2
  rintro s a s' hC ⟨hinv, hlives⟩ hstep
  have hcases := clusterStep_cases hstep
  exact ⟨hinv.step hcases, hlives.step hinv hC hcases⟩

end Cluster.Lives

/-! ## Going on -/

namespace Cluster

variable {s : Cluster} {i : ℕ}

theorem setNode_setNode (node node' : Node) :
    (s.setNode i node).setNode i node' = s.setNode i node' := by
  unfold Cluster.setNode
  simp

/-- The worker's own steps, seen in the cluster. -/
theorem run_server {as : List ServerAction}
    (has : ∀ a ∈ as, a = .getNext ∨ a = .lockTask ∨ a = .execute) {t : ServerState}
    (h : run serverStep (s.server i) as = some t) :
    run clusterStep s (as.map (.server i))
      = some (s.setNode i { s.nodes i with server := t }) := by
  induction as generalizing s with
  | nil =>
    rw [run_nil, Option.some.injEq] at h
    subst h
    simp [Cluster.setNode, Cluster.server]
  | cons a as ih =>
    obtain ⟨t₁, h₁, h₂⟩ := Option.bind_eq_some_iff.1 h
    have hone : clusterStep s (.server i a)
        = some (s.setNode i { s.nodes i with server := t₁ }) := by
      rcases has a List.mem_cons_self with rfl | rfl | rfl <;>
        simp [clusterStep, Cluster.serverAction, h₁]
    rw [List.map_cons, run_cons, hone, Option.bind_some, ih, setNode_setNode]
    · simp [Cluster.setNode]
    · exact fun b hb => has b (List.mem_cons_of_mem a hb)
    · rw [ClusterInv.setNode_server, if_pos rfl]
      exact h₂

theorem replicated_eq {task : TaskT} (hx : (s.server i).exited = false)
    (hw : (s.server i).worker = .applied task) : s.replicated i true
      = some (s.setNode i
          ⟨{ s.server i with worker := .replicated task }, .idle, (s.nodes i).serving⟩) := by
  simp [Cluster.replicated, serverStep, ServerState.replicate, hx, hw]

/-- A step of `replicate_to_backup_server` that only goes on to its next part. -/
theorem setReplicating_server (pc : ReplicatePc) (j : ℕ) :
    (s.setNode i { s.nodes i with replicating := pc }).server j = s.server j := by
  rw [ClusterInv.setNode_server]
  split_ifs with hji
  · rw [hji]
    rfl
  · rfl

/-- As a backup the function returns at once. -/
theorem replicate_isBackup {task : TaskT} (hx : (s.server i).exited = false)
    (hw : (s.server i).worker = .applied task) (hr : (s.nodes i).replicating = .idle)
    (hb : s.role i = .backup) : s.replicate i true = s.replicated i true := by
  simp only [Cluster.replicate, hx, hw, hr, hb, if_true]

/-- As a primary it looks up the backup. -/
theorem replicate_lookUp {task : TaskT} (hx : (s.server i).exited = false)
    (hw : (s.server i).worker = .applied task) (hr : (s.nodes i).replicating = .idle)
    (hb : s.role i ≠ .backup) {address : ℕ} (hg : zooGet s.registry .backup = some address) :
    run clusterStep s [.replicate i true, .replicate i true]
      = some (s.setNode i { s.nodes i with replicating := .found address }) := by
  set s₁ := s.setNode i { s.nodes i with replicating := .notBackup } with hs₁
  have h₁ : clusterStep s (.replicate i true) = some s₁ := by
    simp only [clusterStep, Cluster.replicate, hx, hw, hr, hb, if_false, hs₁]
  have hserver : s₁.server i = s.server i := setReplicating_server _ _
  have hnode : s₁.nodes i = { s.nodes i with replicating := .notBackup } := by
    rw [hs₁, ClusterInv.setNode_nodes, if_pos rfl]
  have hg₁ : zooGet s₁.registry .backup = some address := hg
  rw [run_cons, h₁, Option.bind_some, run_cons]
  simp only [clusterStep, Cluster.replicate, hserver, hx, hw, hnode, hg₁, Option.bind_some,
    run_nil]
  rw [hs₁, setNode_setNode]

/-- It connects to the backup and sends the write. -/
theorem replicate_send {task : TaskT} (hx : (s.server i).exited = false)
    (hw : (s.server i).worker = .applied task) {address target : ℕ}
    (hr : (s.nodes i).replicating = .found address) (hl : s.listening address = some target)
    {msg : Message} (hd : messageDup task.opCodeAndArgs = some msg) :
    s.replicate i true = (s.replicated i true).map fun s =>
      { s with flights := s.flights ++ [⟨i, target, msg⟩] } := by
  simp only [Cluster.replicate, hx, hw, hr, hd, hl, if_true]

/-- A backup goes on after one step of `replicate_to_backup_server`, a primary that can reach
another server after three. -/
theorem run_replicate (hinv : ClusterInv s) {task : TaskT}
    (hx : (s.server i).exited = false) (hw : (s.server i).worker = .applied task)
    (hr : (s.nodes i).replicating = .idle) (hcan : s.CanReplicate i) :
    ∃ as s', run clusterStep s as = some s' ∧
      s'.server i = { s.server i with worker := .replicated task } := by
  by_cases hb : s.role i = .backup
  · refine ⟨[.replicate i true], s.setNode i
      ⟨{ s.server i with worker := .replicated task }, .idle, (s.nodes i).serving⟩, ?_, ?_⟩
    · rw [run_cons, clusterStep, replicate_isBackup hx hw hr hb, replicated_eq hx hw]
      rfl
    · rw [ClusterInv.setNode_server, if_pos rfl]
  · rcases hcan with hb' | ⟨address, hg, -, hreach⟩
    · exact absurd hb' hb
    obtain ⟨target, hl⟩ := Option.ne_none_iff_exists'.1 hreach
    have hd := hinv.messageDup_of_applied hw
    have hlook := replicate_lookUp hx hw hr hb hg
    set s₁ := s.setNode i { s.nodes i with replicating := .found address } with hs₁
    have hserver : ∀ j, s₁.server j = s.server j := setReplicating_server _
    have hnode : (s₁.nodes i).replicating = .found address := by
      rw [hs₁, ClusterInv.setNode_nodes, if_pos rfl]
    have hx₁ : (s₁.server i).exited = false := hserver i ▸ hx
    have hw₁ : (s₁.server i).worker = .applied task := hserver i ▸ hw
    have hl₁ : s₁.listening address = some target := by
      rw [ClusterInv.listening_some] at hl ⊢
      rw [hserver]
      exact hl
    set s₂ := s₁.setNode i
      ⟨{ s₁.server i with worker := .replicated task }, .idle, (s₁.nodes i).serving⟩ with hs₂
    refine ⟨[.replicate i true, .replicate i true] ++ [.replicate i true],
      { s₂ with flights := s₂.flights ++ [⟨i, target, task.opCodeAndArgs⟩] }, ?_, ?_⟩
    · rw [run_append, hlook, Option.bind_some, run_cons, clusterStep,
        replicate_send hx₁ hw₁ hnode hl₁ hd, replicated_eq hx₁ hw₁]
      rfl
    · show s₂.server i = _
      rw [hs₂, ClusterInv.setNode_server, if_pos rfl, hserver i]

/-- A server that is alive and has somewhere to send its writes can execute the oldest one. -/
theorem runs_next (hinv : ClusterInv s) (hx : (s.server i).exited = false)
    (hl : (s.server i).treeLock = none) (hcan : s.CanReplicate i) {task : TaskT}
    {rest : List TaskT} (hq : (s.server i).tasks.tasksQueueHead = task :: rest)
    (hacc : ¬ task.opCodeAndArgs.treeOp.Refused (s.server i).tree) :
    ∃ as s', run clusterStep s as = some s' ∧ (s'.server i).tasks.tasksResultsListHead
      = ⟨task.taskId, .successful⟩ :: (s.server i).tasks.tasksResultsListHead := by
  obtain ⟨log, ks, hserver⟩ := hinv.servers i
  -- first the worker executes the write
  obtain ⟨as, t, has, hrun, hw, hxt, htasks⟩ := hserver.runs_to_applied hx hl hq hacc
  have hrun₁ := run_server has hrun
  set s₁ := s.setNode i { s.nodes i with server := t } with hs₁
  have ht : s₁.server i = t := by rw [hs₁, ClusterInv.setNode_server, if_pos rfl]
  have hinv₁ := clusterInv_of_run_from hinv hrun₁
  have hidle : (s₁.nodes i).replicating = .idle := by
    rw [hs₁, ClusterInv.setNode_nodes, if_pos rfl]
    by_contra hne
    -- a worker that replicates holds the lock
    obtain ⟨⟨task', hw'⟩, -⟩ := hinv.replicating i hne
    have hlock := hserver.workerLock.2 (by rw [hw']; trivial)
    rw [hl] at hlock
    exact absurd hlock (by simp)
  have hcan₁ : s₁.CanReplicate i := by
    rcases hcan with hb | ⟨address, hg, hne, hreach⟩
    · exact Or.inl hb
    · -- who listens there is another process, and that one has made no step
      obtain ⟨target, hlisten⟩ := Option.ne_none_iff_exists'.1 hreach
      have hother : target ≠ i := by
        rintro rfl
        exact hne (hinv.address_of_listening hlisten).symm
      refine Or.inr ⟨address, hg, hne, Option.ne_none_iff_exists'.2 ⟨target, ?_⟩⟩
      rw [ClusterInv.listening_some] at hlisten ⊢
      rw [hs₁, ClusterInv.setNode_server, if_neg hother]
      exact hlisten
  -- then it replicates the write, and last it records the result
  obtain ⟨bs, s₂, hrun₂, hserver₂⟩ :=
    run_replicate hinv₁ (ht ▸ hxt) (ht ▸ hw) hidle hcan₁
  obtain ⟨log₂, ks₂, hinv₂⟩ := (clusterInv_of_run_from hinv₁ hrun₂).servers i
  have hx₂ : (s₂.server i).exited = false := by
    rw [hserver₂, ht]
    exact hxt
  have hw₂ : (s₂.server i).worker = .replicated task := by rw [hserver₂]
  obtain ⟨t', hset, hres⟩ := hinv₂.setResult_eq hx₂ hw₂
  have hset₂ : clusterStep s₂ (.server i .setResult)
      = some (s₂.setNode i { s₂.nodes i with server := t' }) := by
    simp [clusterStep, Cluster.serverAction, hset]
  refine ⟨as.map (.server i) ++ (bs ++ [.server i .setResult]),
    s₂.setNode i { s₂.nodes i with server := t' }, ?_, ?_⟩
  · rw [run_append, hrun₁, Option.bind_some, run_append, hrun₂, Option.bind_some, run_cons, hset₂]
    rfl
  · rw [ClusterInv.setNode_server, if_pos rfl, hres, hserver₂, ht]
    show _ :: t.tasks.tasksResultsListHead = _
    rw [htasks]

/-! ## The window of a promotion -/

/-- A primary finds its own address while it has not deleted its old znode; outside of this
window it is the address of a process that was there before it and is gone. -/
theorem promoted_of_own_address (hinv : ClusterInv s) (hr : s.role i = .primary) {owner : ℕ}
    (hz : s.registry .backup = some ⟨s.address i, owner⟩) :
    owner = i ∧ (s.membership.members i).watcher = .promoted ∨
      owner ≠ i ∧ ((s.server i).exited = false → (s.server owner).exited = true) := by
  obtain ⟨hdata, -, hwhy⟩ := (hinv.membership owner).backupZnode _ hz
  have hrole : (s.membership.members i).role = .primary := hr
  by_cases hown : owner = i
  · left
    subst hown
    refine ⟨rfl, ?_⟩
    rcases hwhy with hb | hsu | hw
    · rw [hrole] at hb
      exact absurd hb (by decide)
    · have hok := (hinv.membership owner).startUp
      rw [hsu] at hok
      exact absurd (hrole.symm.trans hok.1) (by decide)
    · exact hw
  · right
    refine ⟨hown, fun hx => ?_⟩
    by_contra hxo
    -- two live processes would listen at one address
    have hi := hinv.bound i hx (hinv.registers_of_role (by simp [hrole]))
    have ho := hinv.bound owner (by simpa using hxo) (hinv.registers_of_backupZnode hz)
    rw [show s.address owner = s.address i from hdata.symm, hi] at ho
    exact hown (Option.some.inj ho).symm

end Cluster

/-! ## The result -/

/-- **Promotion keeps the queue.** In every run, crashes and promotions included:

* whenever the lock of a server is free, the first `k` of its writes are done, each once and in
  order, and the others are queued, for some `k`;
* only a primary looks for a backup, and if its own address is in the znode, then this is its
  own znode, between the assignment of its role and the deletion of that znode, or the znode of
  a process that was at this address before and is gone;
* if no step left it without another server to replicate to, it has not exited, has sent no
  write to itself, and can execute the oldest queued write as long as that is so. -/
theorem promotion_keeps_queue {address : ℕ → ℕ} {as : List ClusterAction} {s : Cluster}
    (h : run clusterStep (clusterInit address) as = some s) (i : ℕ) :
    ((s.server i).treeLock = none → ∃ k, (s.server i).Done k) ∧
    ((s.nodes i).replicating ≠ .idle → s.role i = .primary) ∧
    (s.role i = .primary → ∀ owner, s.registry .backup = some ⟨s.address i, owner⟩ →
      owner = i ∧ (s.membership.members i).watcher = .promoted ∨
        owner ≠ i ∧ ((s.server i).exited = false → (s.server owner).exited = true)) ∧
    (StepsMeet clusterStep (ReplicatesElsewhere i) (clusterInit address) as →
      s.KeepsQueue i) := by
  have hinv := clusterInv_of_run h
  obtain ⟨log, ks, hserver⟩ := hinv.servers i
  refine ⟨fun hl => ⟨_, hserver.done hl⟩, fun hr => (hinv.replicating i hr).2,
    fun hr owner => Cluster.promoted_of_own_address hinv hr, ?_⟩
  intro hmeet
  have hlives := Cluster.Lives.of_run hmeet h
  refine ⟨hlives.alive, hlives.elsewhere, ?_⟩
  intro hl hcan task rest hq hacc
  exact Cluster.runs_next hinv hlives.alive hl hcan hq hacc

/-- Server 0 replicates a write to server 1, which queues it; then server 0 crashes. -/
def crashRun : List ClusterAction :=
  startPrimary 0 ++ startBackup 1 ++ connectClient 0 ++ queueWrite 0 putRequest 0 ++
    executeNext 0 ++ List.replicate 3 (.replicate 0 true) ++ queueFlight putRequest 1 ++
    [.crash 0, .member 0 .endSession]

/-- Server 1 is promoted, server 2 becomes the backup, and the queued write is executed. -/
def promotionRun : List ClusterAction :=
  crashRun ++ List.replicate 9 (.member 1 .childrenWatcher) ++ startBackup 2 ++ executeNext 1 ++
    List.replicate 3 (.replicate 1 true)

theorem promotion_keeps_queue_two : ∃ s, run clusterStep (clusterInit id) promotionRun = some s ∧
    s.role 1 = .primary ∧ s.KeepsQueue 1 := by
  have hrun : ∃ s ∈ run clusterStep (clusterInit id) promotionRun, s.role 1 = .primary := by
    decide +kernel
  obtain ⟨s, hs, hrole⟩ := hrun
  refine ⟨s, hs, hrole, ?_⟩
  apply (promotion_keeps_queue hs 1).2.2.2
  decide +kernel

/-- Two promotions that lose the queue. In the first run the promotion is over when the worker
looks for a backup; there is none, the server exits, and the queued write has no result. In the
second run the old znode is not deleted yet, and the server sends the write to itself. -/
theorem promotion_loses_queue :
    (∃ s ∈ run clusterStep (clusterInit id) (crashRun ++
        List.replicate 9 (.member 1 .childrenWatcher) ++ executeNext 1 ++
        List.replicate 2 (.replicate 1 true)),
      (s.server 1).exited = true ∧ (s.server 1).tasks.tasksQueueHead = [⟨0, putRequest.1⟩] ∧
        tasksGetResult (s.server 1).tasks 0 = .notExecuted) ∧
    ∃ s ∈ run clusterStep (clusterInit id) (crashRun ++
        List.replicate 8 (.member 1 .childrenWatcher) ++ executeNext 1 ++
        List.replicate 3 (.replicate 1 true)),
      (s.server 1).exited = false ∧ s.flights = [⟨1, 1, putRequest.1⟩] := by
  constructor <;> decide +kernel

end ReplicatedTree
