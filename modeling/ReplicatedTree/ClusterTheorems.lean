import ReplicatedTree.Cluster
import ReplicatedTree.RegistryTheorems
import ReplicatedTree.ServerRuns

/-!
# What holds in every cluster — theorems about `Cluster`

`clusterStep_cases` says once what the actions do. `ClusterInv` holds whatever crashes and
however the steps interleave: every process keeps the invariant of a server, a role goes with
the znode of its owner, a server that has taken a request is in its main loop, hence has a
role, and a live process that registers is the one that listens at its address.
-/

namespace ReplicatedTree

open Transition

/-! ## Case analysis of a step -/

/-- The actions of a server that concern no other process. -/
def ServerAction.IsLocal : ServerAction → Prop
  | .lockRequest _ | .unlockRequest | .replicate _ => False
  | _ => True

theorem ServerAction.IsLocal.newWrite {a : ServerAction} (h : a.IsLocal) : a.newWrite = [] := by
  cases a with
  | lockRequest request => exact h.elim
  | _ => rfl

theorem ServerAction.IsLocal.ne_replicate {a : ServerAction} (h : a.IsLocal) (ok : Bool) :
    a ≠ .replicate ok := by
  rintro rfl
  exact h

/-- What an action does to the servers, one constructor for each way it can go. -/
inductive ClusterStep (s : Cluster) : ClusterAction → Cluster → Prop
  | member {i : ℕ} {a : MemberAction} {membership : Membership}
      (hx : (s.server i).exited = decide (a = .endSession))
      (hl : a = .startUp → (s.membership.members i).startUp = .connected →
        s.listening (s.address i) = some i)
      (hm : membershipStep s.membership i a = some membership) :
    ClusterStep s (.member i a) { s with membership := membership }
  | listen {i : ℕ} (hx : (s.server i).exited = false)
      (hpc : (s.membership.members i).startUp = .connected)
      (hfree : s.listening (s.address i) = none) :
    ClusterStep s (.listen i)
      { s with listeners := Function.update s.listeners (s.address i) (some i) }
  | crash {i : ℕ} (hx : (s.server i).exited = false) :
    ClusterStep s (.crash i)
      (s.setNode i { s.nodes i with server := { s.server i with exited := true } })
  | server {i : ℕ} {a : ServerAction} {server : ServerState}
      (ha : a.IsLocal) (hs : ServerStep (s.server i) a server) :
    ClusterStep s (.server i a) (s.setNode i { s.nodes i with server := server })
  | isBackup {i : ℕ} {ok : Bool} {server : ServerState} (hr : (s.nodes i).replicating = .idle)
      (hb : s.role i = .backup) (hs : ServerStep (s.server i) (.replicate true) server) :
    ClusterStep s (.replicate i ok)
      (s.setNode i { s.nodes i with server := server, replicating := .idle })
  | notBackup {i : ℕ} {ok : Bool} {task : TaskT} (hx : (s.server i).exited = false)
      (hw : (s.server i).worker = .applied task) (hr : (s.nodes i).replicating = .idle)
      (hb : s.role i ≠ .backup) :
    ClusterStep s (.replicate i ok) (s.setNode i { s.nodes i with replicating := .notBackup })
  | lookUp {i address : ℕ} {ok : Bool} {task : TaskT} (hx : (s.server i).exited = false)
      (hw : (s.server i).worker = .applied task) (hr : (s.nodes i).replicating = .notBackup)
      (hg : zooGet s.registry .backup = some address) :
    ClusterStep s (.replicate i ok)
      (s.setNode i { s.nodes i with replicating := .found address })
  | fails {i : ℕ} {ok : Bool} {server : ServerState}
      (hr : (s.nodes i).replicating = .notBackup ∧ zooGet s.registry .backup = none ∨
        ∃ address, (s.nodes i).replicating = .found address ∧
          ∀ task, (s.server i).worker = .applied task → messageDup task.opCodeAndArgs ≠ none →
            ¬ (ok = true ∧ s.listening address ≠ none))
      (hs : ServerStep (s.server i) (.replicate false) server) :
    ClusterStep s (.replicate i ok)
      (s.setNode i { s.nodes i with server := server, replicating := .idle })
  | send {i address target : ℕ} {task : TaskT} {msg : Message} {server : ServerState}
      (hw : (s.server i).worker = .applied task)
      (hr : (s.nodes i).replicating = .found address)
      (hl : s.listening address = some target)
      (hd : messageDup task.opCodeAndArgs = some msg)
      (hs : ServerStep (s.server i) (.replicate true) server) :
    ClusterStep s (.replicate i true)
      { s.setNode i { s.nodes i with server := server, replicating := .idle } with
        flights := s.flights ++ [⟨i, target, msg⟩] }
  | receiveFlight {k : ℕ} {f : Flight} {request : Request} {server : ServerState}
      (hf : s.flights[k]? = some f) (hm : request.1 = f.write)
      (hp : (s.membership.members f.target).startUp = .serving)
      (hs : ServerStep (s.server f.target) (.lockRequest request) server) :
    ClusterStep s (.receiveFlight k request)
      { s.setNode f.target { s.nodes f.target with server := server, serving := none } with
        flights := s.flights.eraseIdx k }
  | receiveCall {k : ℕ} {call : Call} {request : Request} {server : ServerState}
      (hf : s.calls[k]? = some call) (hm : request.1 = call.request)
      (hp : (s.membership.members call.server).startUp = .serving)
      (hs : ServerStep (s.server call.server) (.lockRequest request) server) :
    ClusterStep s (.receiveCall k request)
      { s.setNode call.server
          { s.nodes call.server with server := server, serving := some call } with
        calls := s.calls.eraseIdx k }
  | answer {i : ℕ} {request response : Message} {server : ServerState} {clients : ℕ → Client}
      (hr : (s.server i).request = .answered request response)
      (hs : ServerStep (s.server i) .unlockRequest server)
      (hc : clients = match (s.nodes i).serving with
        | some call => (s.deliver call (finishResponse response)).clients
        | none => s.clients) :
    ClusterStep s (.answer i)
      { s.setNode i { s.nodes i with server := server, serving := none } with
        clients := clients }
  | getPrimary {c : ℕ} : ClusterStep s (.getPrimary c)
      (s.setClient c { s.clients c with primaryServerAddress := zooGet s.registry .primary })
  | getBackup {c : ℕ} : ClusterStep s (.getBackup c)
      (s.setClient c { s.clients c with backupServerAddress := zooGet s.registry .backup })
  | connectPrimary {c fd primary : ℕ}
      (hp : (s.clients c).primaryServerAddress.bind s.listening = some primary)
      (hfd : (s.clients c).sockets fd = none) :
    ClusterStep s (.connectPrimary c fd) (s.setClient c { s.clients c with
      primarySockfd := some fd
      backupSockfd := none
      sockets := Function.update (s.clients c).sockets fd (some primary) })
  | connectBackup {c fd backup : ℕ}
      (hb : (s.clients c).backupServerAddress.bind s.listening = some backup)
      (hfd : (s.clients c).sockets fd = none) :
    ClusterStep s (.connectBackup c fd) (s.setClient c { s.clients c with
      backupSockfd := some fd
      sockets := Function.update (s.clients c).sockets fd (some backup) })
  | retryFails {c : ℕ} : ClusterStep s (.retryFails c)
      (s.setClient c { s.clients c with primarySockfd := none, backupSockfd := none })
  | close {c : ℕ} : ClusterStep s (.close c)
      (s.setClient c (((s.clients c).closeSocket (s.clients c).primarySockfd).closeSocket
        (s.clients c).backupSockfd))
  | callFails {c : ℕ} : ClusterStep s (.callFails c) (s.setClient c { s.clients c with
      epoch := (s.clients c).epoch + 1
      waiting := false })
  | call {c server : ℕ} {request : Request}
      (hs : (s.clients c).peer request.1 = some server) :
    ClusterStep s (.call c request)
      { s.setClient c { s.clients c with waiting := true } with
        calls := s.calls ++ [⟨c, (s.clients c).epoch, request.1, server⟩] }

theorem replicated_cases {s s' : Cluster} {i : ℕ} {ok : Bool} (h : s.replicated i ok = some s') :
    ∃ server, ServerStep (s.server i) (.replicate ok) server ∧
      s' = s.setNode i { s.nodes i with server := server, replicating := .idle } := by
  obtain ⟨server, hs, rfl⟩ := Option.map_eq_some_iff.1 h
  exact ⟨server, serverStep_cases hs, rfl⟩

theorem receive_cases {s s' : Cluster} {i : ℕ} {request : Request} {call : Option Call}
    (h : s.receive i request call = some s') :
    (s.membership.members i).startUp = .serving ∧ ∃ server,
      ServerStep (s.server i) (.lockRequest request) server ∧
      s' = s.setNode i { s.nodes i with server := server, serving := call } := by
  unfold Cluster.receive at h
  split_ifs at h with hp
  obtain ⟨server, hs, rfl⟩ := Option.map_eq_some_iff.1 h
  exact ⟨hp, server, serverStep_cases hs, rfl⟩

theorem replicate_cases {s s' : Cluster} {i : ℕ} {ok : Bool} (h : s.replicate i ok = some s') :
    ClusterStep s (.replicate i ok) s' := by
  unfold Cluster.replicate at h
  split at h
  case h_2 => exact absurd h (by simp)
  rename_i task hx hw
  split at h
  · rename_i hr
    split_ifs at h with hb
    · obtain ⟨server, hs, rfl⟩ := replicated_cases h
      exact .isBackup hr hb hs
    · rw [Option.some.injEq] at h
      subst h
      exact .notBackup hx hw hr hb
  · rename_i hr
    split at h
    · rename_i hg
      obtain ⟨server, hs, rfl⟩ := replicated_cases h
      exact .fails (Or.inl ⟨hr, hg⟩) hs
    · rename_i address hg
      rw [Option.some.injEq] at h
      subst h
      exact .lookUp hx hw hr hg
  · rename_i address hr
    split at h
    · rename_i msg target hd hl
      split_ifs at h with hok
      · obtain ⟨s₁, hs₁, rfl⟩ := Option.map_eq_some_iff.1 h
        obtain ⟨server, hs, rfl⟩ := replicated_cases hs₁
        rw [hok]
        exact .send hw hr hl hd hs
      · obtain ⟨server, hs, rfl⟩ := replicated_cases h
        exact .fails (Or.inr ⟨address, hr, fun _ _ _ hsend => hok hsend.1⟩) hs
    · -- no copy was made, or nobody listens at the address
      rename_i hno
      obtain ⟨server, hs, rfl⟩ := replicated_cases h
      refine .fails (Or.inr ⟨address, hr, ?_⟩) hs
      intro task' hw' hne hsend
      rw [hw, WorkerPc.applied.injEq] at hw'
      subst hw'
      obtain ⟨msg, hd⟩ := Option.ne_none_iff_exists'.1 hne
      obtain ⟨target, hl⟩ := Option.ne_none_iff_exists'.1 hsend.2
      exact hno msg target hd hl

theorem deliver_setNode (s : Cluster) (i : ℕ) (node : Node) (call : Call) (response : Message) :
    (s.setNode i node).deliver call response
      = { s.setNode i node with clients := (s.deliver call response).clients } := by
  unfold Cluster.deliver Cluster.setClient Cluster.setNode
  dsimp only
  split_ifs <;> rfl

theorem clusterStep_cases {s s' : Cluster} {a : ClusterAction} (h : clusterStep s a = some s') :
    ClusterStep s a s' := by
  unfold clusterStep at h
  cases a with
  | member i action =>
    dsimp only [Cluster.member] at h
    split_ifs at h with hx
    obtain ⟨membership, hm, rfl⟩ := Option.map_eq_some_iff.1 h
    exact .member hx.1 hx.2 hm
  | listen i =>
    dsimp only [Cluster.listen] at h
    split_ifs at h with hx
    obtain rfl := Option.some.inj h
    exact .listen hx.1 hx.2.1 hx.2.2
  | crash i =>
    dsimp only [Cluster.crash] at h
    split_ifs at h with hx
    rw [Option.some.injEq] at h
    subst h
    exact .crash (by simpa using hx)
  | server i action =>
    dsimp only [Cluster.serverAction] at h
    split at h
    -- requests, responses and replication are actions of the cluster, not of a server alone
    case h_4 =>
      rename_i hlock hunlock hrep
      obtain ⟨server, hs, rfl⟩ := Option.map_eq_some_iff.1 h
      refine .server ?_ (serverStep_cases hs)
      cases action with
      | lockRequest request => exact (hlock _ rfl).elim
      | unlockRequest => exact (hunlock rfl).elim
      | replicate ok => exact (hrep _ rfl).elim
      | _ => trivial
    all_goals exact absurd h (by simp)
  | replicate i ok => exact replicate_cases h
  | receiveFlight k request =>
    dsimp only [Cluster.receiveFlight] at h
    split at h
    · rename_i f hf
      split_ifs at h with hm
      obtain ⟨s₁, hs₁, rfl⟩ := Option.map_eq_some_iff.1 h
      obtain ⟨hp, server, hs, rfl⟩ := receive_cases hs₁
      exact .receiveFlight hf hm hp hs
    · exact absurd h (by simp)
  | receiveCall k request =>
    dsimp only [Cluster.receiveCall] at h
    split at h
    · rename_i call hf
      split_ifs at h with hm
      obtain ⟨s₁, hs₁, rfl⟩ := Option.map_eq_some_iff.1 h
      obtain ⟨hp, server, hs, rfl⟩ := receive_cases hs₁
      exact .receiveCall hf hm hp hs
    · exact absurd h (by simp)
  | answer i =>
    dsimp only [Cluster.answer] at h
    split at h
    · rename_i request response hr
      obtain ⟨server, hs, heq⟩ := Option.map_eq_some_iff.1 h
      have hanswer := ClusterStep.answer hr (serverStep_cases hs) rfl
      -- a write from the primary is answered to nobody
      split at heq
      · rename_i call hcall
        rw [hcall] at hanswer
        rw [deliver_setNode] at heq
        exact heq ▸ hanswer
      · rename_i hcall
        rw [hcall] at hanswer
        exact heq ▸ hanswer
    · exact absurd h (by simp)
  | getPrimary c =>
    obtain rfl := Option.some.inj h
    exact .getPrimary
  | getBackup c =>
    obtain rfl := Option.some.inj h
    exact .getBackup
  | connectPrimary c fd =>
    dsimp only [Cluster.connectPrimary] at h
    split at h
    · rename_i primary hp
      split_ifs at h with hfree
      obtain rfl := Option.some.inj h
      exact .connectPrimary hp hfree.2
    · exact absurd h (by simp)
  | connectBackup c fd =>
    dsimp only [Cluster.connectBackup] at h
    split at h
    · rename_i backup hb
      split_ifs at h with hfree
      obtain rfl := Option.some.inj h
      exact .connectBackup hb hfree.2.2
    · exact absurd h (by simp)
  | retryFails c =>
    dsimp only [Cluster.retryFails] at h
    split_ifs at h
    obtain rfl := Option.some.inj h
    exact .retryFails
  | close c =>
    obtain rfl := Option.some.inj h
    exact .close
  | callFails c =>
    dsimp only [Cluster.callFails] at h
    split_ifs at h
    obtain rfl := Option.some.inj h
    exact .callFails
  | call c request =>
    dsimp only [Cluster.call] at h
    split_ifs at h
    split at h
    · rename_i server hs
      obtain rfl := Option.some.inj h
      exact .call hs
    · exact absurd h (by simp)

/-! ## The invariant -/

structure ClusterInv (s : Cluster) : Prop where
  membership : MembershipInv s.membership
  closed : ∀ i, (s.membership.members i).closed = true → (s.server i).exited = true
  servers : ∀ i, ∃ log ks, ServerInv (s.server i) log ks
  /-- no request is taken outside of the main loop -/
  fresh : ∀ i, (s.membership.members i).startUp ≠ .serving → (s.server i).taken = []
  /-- only a primary looks for a backup -/
  replicating : ∀ i, (s.nodes i).replicating ≠ .idle →
    (∃ task, (s.server i).worker = .applied task) ∧ s.role i = .primary
  /-- a process listens at its own address -/
  listeners : ∀ address j, s.listeners address = some j → s.address j = address
  /-- a live process that registers has bound its address -/
  bound : ∀ i, (s.server i).exited = false → (s.membership.members i).startUp.Registers →
    s.listeners (s.address i) = some i

theorem clusterInit_inv (address : ℕ → ℕ) : ClusterInv (clusterInit address) where
  membership := membershipInit_inv address
  closed := by
    intro i hc
    exact absurd hc (by simp [clusterInit, membershipInit, memberInit])
  servers := fun _ => ⟨_, _, treeSkelInit_inv⟩
  fresh := fun _ _ => rfl
  replicating := fun _ hr => absurd rfl hr
  listeners := by
    intro a j hj
    exact absurd hj (by simp [clusterInit])
  bound := fun _ _ hr => absurd rfl hr.1

namespace ClusterInv

variable {s s' : Cluster} {i : ℕ}

@[simp] theorem setNode_server (node : Node) (j : ℕ) :
    (s.setNode i node).server j = if j = i then node.server else s.server j := by
  unfold Cluster.server Cluster.setNode
  by_cases hji : j = i
  · subst hji
    simp
  · simp [hji]

theorem setNode_nodes (node : Node) (j : ℕ) :
    (s.setNode i node).nodes j = if j = i then node else s.nodes j := by
  unfold Cluster.setNode
  by_cases hji : j = i
  · subst hji
    simp
  · simp [hji]

/-- Clients and messages do not matter. -/
theorem congr (h : ClusterInv s) (hm : s'.membership = s.membership)
    (hl : s'.listeners = s.listeners) (hn : s'.nodes = s.nodes) : ClusterInv s' := by
  obtain ⟨membership, listeners, nodes, flights, calls, clients⟩ := s
  obtain ⟨membership', listeners', nodes', flights', calls', clients'⟩ := s'
  dsimp only at hm hl hn
  subst hm hl hn
  exact ⟨h.membership, h.closed, h.servers, h.fresh, h.replicating, h.listeners, h.bound⟩

/-- One process changes. -/
theorem setNode (h : ClusterInv s) {node : Node}
    (hexit : (s.server i).exited = true → node.server.exited = true)
    (hinv : ∃ log ks, ServerInv node.server log ks)
    (hfresh : (s.membership.members i).startUp ≠ .serving → node.server.taken = [])
    (hrep : node.replicating ≠ .idle →
      (∃ task, node.server.worker = .applied task) ∧ s.role i = .primary) :
    ClusterInv (s.setNode i node) where
  membership := h.membership
  closed := by
    intro j hc
    rw [setNode_server]
    split_ifs with hji
    · exact hexit (hji ▸ h.closed j hc)
    · exact h.closed j hc
  servers := by
    intro j
    rw [setNode_server]
    split_ifs
    · exact hinv
    · exact h.servers j
  fresh := by
    intro j hs
    rw [setNode_server]
    split_ifs with hji
    · exact hfresh (hji ▸ hs)
    · exact h.fresh j hs
  replicating := by
    intro j hr
    rw [setNode_nodes] at hr
    rw [setNode_server]
    split_ifs at hr ⊢ with hji
    · exact hji ▸ hrep hr
    · exact h.replicating j hr
  listeners := h.listeners
  bound := by
    intro j hx hr
    apply h.bound j _ hr
    rw [setNode_server] at hx
    split_ifs at hx with hji
    · -- who is not gone now was not gone before
      by_contra hgone
      rw [hexit (by simpa [hji] using hgone)] at hx
      exact absurd hx (by decide)
    · exact hx

/-- A server that has something to do has a role. -/
theorem serving_of_applied (h : ClusterInv s) {task : TaskT}
    (hw : (s.server i).worker = .applied task) :
    (s.membership.members i).startUp = .serving := by
  by_contra hs
  have htaken := h.fresh i hs
  obtain ⟨log, ks, hinv⟩ := h.servers i
  have hget := hinv.writes_get hw
  unfold ServerState.taken at htaken
  rw [(List.append_eq_nil_iff.1 htaken).1] at hget
  exact absurd hget (by simp)

theorem role_of_applied (h : ClusterInv s) {task : TaskT}
    (hw : (s.server i).worker = .applied task) (hb : s.role i ≠ .backup) :
    s.role i = .primary := by
  have hok := (h.membership i).startUp
  rw [h.serving_of_applied hw] at hok
  unfold Cluster.role at hb ⊢
  cases hr : (s.membership.members i).role with
  | none => exact absurd hr hok
  | primary => rfl
  | backup => exact absurd hr hb

/-- A server with a role has registered. -/
theorem registers_of_role (h : ClusterInv s) (hr : (s.membership.members i).role ≠ .none) :
    (s.membership.members i).startUp.Registers := by
  have hok := (h.membership i).startUp
  constructor
  · intro hpc
    rw [hpc] at hok
    exact hr hok
  · intro hpc
    rw [hpc] at hok
    exact hr hok

/-- The owner of the backup znode has created it. -/
theorem registers_of_backupZnode (h : ClusterInv s) {data : ℕ}
    (hz : s.registry .backup = some ⟨data, i⟩) :
    (s.membership.members i).startUp.Registers := by
  rcases ((h.membership i).backupZnode data hz).2.2 with hb | hpc | hw
  · exact h.registers_of_role (by simp [hb])
  · simp [StartUpPc.Registers, hpc]
  · have hok := (h.membership i).watcher
    rw [hw] at hok
    exact h.registers_of_role (by simp [hok.2.1])

/-- The write in the worker's hands can be copied. -/
theorem messageDup_of_applied (h : ClusterInv s) {task : TaskT}
    (hw : (s.server i).worker = .applied task) :
    messageDup task.opCodeAndArgs = some task.opCodeAndArgs := by
  obtain ⟨log, ks, hserver⟩ := h.servers i
  have hget := hserver.writes_get hw
  rw [hserver.writes_eq] at hget
  obtain ⟨hwf, hwrite⟩ := hserver.writes _ (List.mem_of_getElem? hget)
  exact messageDup_of_known hwf hwrite.known

/-- A step of one process, outside of a replication. -/
theorem serverStep (h : ClusterInv s) {a : ServerAction} {server : ServerState} {node : Node}
    (hs : ServerStep (s.server i) a server) (hn : node.server = server)
    (hnew : (s.membership.members i).startUp = .serving ∨ a.newWrite = [])
    (hrep : node.replicating = .idle ∨
      node.replicating = (s.nodes i).replicating ∧ ∀ ok, a ≠ .replicate ok) :
    ClusterInv (s.setNode i node) := by
  obtain ⟨log, ks, hinv⟩ := h.servers i
  have hnext := hinv.step hs
  have htaken := hinv.taken_step hs
  refine h.setNode ?_ (hn ▸ hnext) ?_ ?_
  · intro hx
    rw [hn]
    cases hs <;> first | exact hx | rfl
  · intro hserving
    rw [hn, htaken, h.fresh i hserving]
    rcases hnew with hp | hnil
    · exact absurd hp hserving
    · exact hnil
  · intro hne
    rcases hrep with hidle | ⟨hsame, hno⟩
    · exact absurd hidle hne
    · obtain ⟨⟨task, hw⟩, hrole⟩ := h.replicating i (hsame ▸ hne)
      refine ⟨⟨task, ?_⟩, hrole⟩
      rw [hn]
      -- with a write in hand the worker waits for the replication
      cases hs with
      | replicate hw' => exact absurd rfl (hno true)
      | replicateFails hw' => exact absurd rfl (hno false)
      | getNext hw' hn' | stop hw' hn' | lockTask hw' hn' | execute hw' he hres
        | cannotHandle hw' he | setSuccessful hw' | setFailed hw' | unlockTask hw' =>
        rw [hw] at hw'
        exact absurd hw' (by simp)
      | _ => exact hw

/-- A process that listens at an address is not gone. -/
theorem listening_some {address j : ℕ} :
    s.listening address = some j ↔ s.listeners address = some j ∧ (s.server j).exited = false := by
  rw [Cluster.listening, Option.filter_eq_some_iff, decide_eq_true_iff]

/-- A live process that registers is reached at its address. -/
theorem listening_address (h : ClusterInv s) (hx : (s.server i).exited = false)
    (hr : (s.membership.members i).startUp.Registers) : s.listening (s.address i) = some i :=
  listening_some.2 ⟨h.bound i hx hr, hx⟩

theorem address_of_listening (h : ClusterInv s) {address j : ℕ}
    (hl : s.listening address = some j) : s.address j = address :=
  h.listeners address j (listening_some.1 hl).1

theorem member (h : ClusterInv s) {a : MemberAction} {membership : Membership}
    (hx : (s.server i).exited = decide (a = .endSession))
    (hl : a = .startUp → (s.membership.members i).startUp = .connected →
      s.listening (s.address i) = some i)
    (hm : membershipStep s.membership i a = some membership) :
    ClusterInv { s with membership := membership } := by
  have hleads := membershipStep_leads h.membership hm
  have haddress := membershipStep_address hm
  refine ⟨membershipStep_inv h.membership hm, ?_, h.servers, ?_, ?_, ?_, ?_⟩
  · intro j hc
    rcases (hleads j).closed hc with hold | ⟨rfl, rfl⟩
    · exact h.closed j hold
    · exact hx.trans (by simp)
  · intro j hs
    exact h.fresh j fun hold => hs ((hleads j).serving hold)
  · intro j hr
    obtain ⟨htask, hrole⟩ := h.replicating j hr
    exact ⟨htask, (hleads j).role hrole⟩
  · intro address j hj
    exact (haddress j).trans (h.listeners address j hj)
  · intro j hxj hr
    show s.listeners (membership.members j).address = some j
    rw [haddress j]
    rcases (hleads j).registers hr with hold | ⟨rfl, ha, hpc⟩
    · exact h.bound j hxj hold
    · exact (listening_some.1 (hl ha hpc)).1

/-- A process binds its address: no live process that registers has it. -/
theorem listen (h : ClusterInv s) (hfree : s.listening (s.address i) = none) :
    ClusterInv { s with listeners := Function.update s.listeners (s.address i) (some i) } where
  membership := h.membership
  closed := h.closed
  servers := h.servers
  fresh := h.fresh
  replicating := h.replicating
  listeners := by
    intro address j hj
    dsimp only at hj
    by_cases ha : address = s.address i
    · subst ha
      rw [Function.update_self] at hj
      rw [← Option.some.inj hj]
      rfl
    · rw [Function.update_of_ne ha] at hj
      exact h.listeners address j hj
  bound := by
    intro j hx hr
    show Function.update s.listeners _ _ (s.address j) = _
    by_cases ha : s.address j = s.address i
    · have hl := h.listening_address hx hr
      rw [ha, hfree] at hl
      exact absurd hl (by simp)
    · rw [Function.update_of_ne ha]
      exact h.bound j hx hr

theorem step (h : ClusterInv s) {a : ClusterAction} (hstep : ClusterStep s a s') :
    ClusterInv s' := by
  cases hstep with
  | member hx hl hm => exact h.member hx hl hm
  | listen hx hpc hfree => exact h.listen hfree
  | @crash i hx =>
    obtain ⟨log, ks, hinv⟩ := h.servers i
    exact h.setNode (fun _ => rfl) ⟨log, ks, hinv.exit true⟩ (h.fresh i) (h.replicating i)
  | server ha hs => exact h.serverStep hs rfl (Or.inr ha.newWrite) (Or.inr ⟨rfl, ha.ne_replicate⟩)
  | isBackup hr hb hs => exact h.serverStep hs rfl (Or.inr rfl) (Or.inl rfl)
  | @notBackup i _ task hx hw hr hb =>
    exact h.setNode id (h.servers i) (h.fresh i) fun _ => ⟨⟨task, hw⟩, h.role_of_applied hw hb⟩
  | @lookUp i _ _ task hx hw hr hg =>
    exact h.setNode id (h.servers i) (h.fresh i) fun _ =>
      ⟨⟨task, hw⟩, (h.replicating i (by simp [hr])).2⟩
  | fails hr hs => exact h.serverStep hs rfl (Or.inr rfl) (Or.inl rfl)
  | @send i address target task msg server hw hr hl hd hs =>
    have hnode : ClusterInv
        (s.setNode i { s.nodes i with server := server, replicating := .idle }) :=
      h.serverStep hs rfl (Or.inr rfl) (Or.inl rfl)
    exact hnode.congr rfl rfl rfl
  | @receiveFlight k f request server hf hm hp hs =>
    have hnode : ClusterInv
        (s.setNode f.target { s.nodes f.target with server := server, serving := none }) :=
      h.serverStep hs rfl (Or.inl hp) (Or.inr ⟨rfl, by simp⟩)
    exact hnode.congr rfl rfl rfl
  | @receiveCall k call request server hf hm hp hs =>
    have hnode : ClusterInv
        (s.setNode call.server
          { s.nodes call.server with server := server, serving := some call }) :=
      h.serverStep hs rfl (Or.inl hp) (Or.inr ⟨rfl, by simp⟩)
    exact hnode.congr rfl rfl rfl
  | @answer i request response server clients hr hs hc =>
    have hnode : ClusterInv (s.setNode i { s.nodes i with server := server, serving := none }) :=
      h.serverStep hs rfl (Or.inr rfl) (Or.inr ⟨rfl, by simp⟩)
    exact hnode.congr rfl rfl rfl
  | _ => exact h.congr rfl rfl rfl

end ClusterInv

theorem clusterInv_of_run_from {as : List ClusterAction} {s s' : Cluster} (h0 : ClusterInv s)
    (h : run clusterStep s as = some s') : ClusterInv s' :=
  run_invariant (fun _ _ _ hinv hstep => hinv.step (clusterStep_cases hstep)) h0 h

theorem clusterInv_of_run {address : ℕ → ℕ} {as : List ClusterAction} {s : Cluster}
    (h : run clusterStep (clusterInit address) as = some s) : ClusterInv s :=
  clusterInv_of_run_from (clusterInit_inv address) h

/-! ## Parts of runs -/

/-- `main` of server `i` up to the main loop, with `n` steps after `network_server_init`. -/
def startServer (i n : ℕ) : List ClusterAction :=
  .member i .startUp :: .listen i :: List.replicate n (.member i .startUp)

/-- Server `i` becomes the primary. -/
def startPrimary (i : ℕ) : List ClusterAction := startServer i 4

/-- Server `i` becomes the backup. -/
def startBackup (i : ℕ) : List ClusterAction := startServer i 5

/-- Client `c` connects to the two servers that are registered. -/
def connectClient (c : ℕ) : List ClusterAction :=
  [.getPrimary c, .getBackup c, .connectPrimary c 3, .connectBackup c 4]

/-- Client `c` sends a request, and server `i` queues it. -/
def queueWrite (c : ℕ) (request : Request) (i : ℕ) : List ClusterAction :=
  [.call c request, .receiveCall 0 request, .server i .handle, .server i .enqueue, .answer i]

/-- The worker of server `i` goes up to the replication of a write. -/
def executeNext (i : ℕ) : List ClusterAction :=
  [.server i .getNext, .server i .lockTask, .server i .execute]

/-- A write that is on its way to server `i` is queued there. -/
def queueFlight (request : Request) (i : ℕ) : List ClusterAction :=
  [.receiveFlight 0 request, .server i .handle, .server i .enqueue, .answer i]

/-- The worker of server `i` records the result of a write. -/
def recordNext (i : ℕ) : List ClusterAction := [.server i .setResult, .server i .unlockTask]

end ReplicatedTree
