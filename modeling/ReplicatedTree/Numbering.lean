import ReplicatedTree.ClusterTraffic

/-!
# The numbers of the servers' writes

A write gets its id from the primary, which counts the writes it queues; `rtree_verify` asks
the backup, which counts the writes it queues. Both count the same writes only if the servers'
queues are parts of one sequence. `Numbering` says that they are; `KeepsNumbering` is the
condition on a step under which this stays so.

Connections may lead to a process that has the address of one that is gone. A write of the
primary that went to such a process is never read: while a primary has executed writes, no
server can become its backup, and so nothing else can happen in that process
(`Cluster.Orphaned`).
-/

namespace ReplicatedTree

open Transition

/-! ## The condition -/

namespace Cluster

/-- No server has taken a write from a connection. -/
def Unused (s : Cluster) : Prop := ∀ j, (s.server j).taken = []

/-- The server that clients send their writes to, or will when the promotion is over. -/
def head (s : Cluster) : Option ℕ := s.primary.or s.backup

/-- A primary and a backup are registered, and they are not the same process. -/
structure Pair (s : Cluster) (p b : ℕ) : Prop where
  primary : s.primary = some p
  backup : s.backup = some b
  ne : p ≠ b

/-- The writes on their way to a server, in the order of sending. -/
def flightsTo (s : Cluster) (j : ℕ) : List Message :=
  (s.flights.filter fun f => f.target = j).map Flight.write

end Cluster

/-- A step that leaves the servers' ids alone: a primary registers while no write was taken
yet, and a backup while the primary has executed none; when the session of the primary ends,
its backup has queued all of the primary's writes; the writes sent to a server are read in the
order of sending; and a client's write is not read by the backup of a registered primary, as it
may be when the client has read the address before the backup had it. -/
def KeepsNumbering (s : Cluster) : ClusterAction → Prop
  | .member i .startUp =>
    match (s.membership.members i).startUp with
    | .noPrimary => s.primary = none → s.Unused
    | .noBackup => s.backup = none →
      match s.primary with
      | some p => (s.server p).executed = []
      | none => s.Unused
    | _ => True
  | .member i .endSession => s.primary = some i →
    ∀ b ∈ s.backup, b ≠ i → (s.server i).writes <+: (s.server b).writes
  | .receiveFlight k _ => ∀ f ∈ s.flights[k]?, ∀ f' ∈ s.flights.take k, f'.target ≠ f.target
  | .receiveCall k request => request.1.IsWrite → ∀ call ∈ s.calls[k]?,
    s.backup = some call.server → ∀ p ∈ s.primary, p = call.server
  | _ => True

/-- Decidable once it is known whether a write was taken. -/
instance (s : Cluster) [Decidable s.Unused] : (a : ClusterAction) → Decidable (KeepsNumbering s a)
  | .member i .startUp =>
    match hpc : (s.membership.members i).startUp with
    | .noPrimary => decidable_of_iff (s.primary = none → s.Unused)
        (by simp only [KeepsNumbering, hpc])
    | .noBackup =>
      match hp : s.primary with
      | some p => decidable_of_iff (s.backup = none → (s.server p).executed = [])
          (by simp only [KeepsNumbering, hpc, hp])
      | none => decidable_of_iff (s.backup = none → s.Unused)
          (by simp only [KeepsNumbering, hpc, hp])
    | .connecting | .connected | .primaryCreated | .hasPrimary | .backupCreated | .registered
    | .serving | .failed => isTrue (by simp only [KeepsNumbering, hpc])
  | .member i .endSession => inferInstanceAs (Decidable (s.primary = some i →
      ∀ b ∈ s.backup, b ≠ i → (s.server i).writes <+: (s.server b).writes))
  | .receiveFlight k _ => inferInstanceAs (Decidable
      (∀ f ∈ s.flights[k]?, ∀ f' ∈ s.flights.take k, f'.target ≠ f.target))
  | .receiveCall k request => inferInstanceAs (Decidable
      (request.1.IsWrite → ∀ call ∈ s.calls[k]?,
        s.backup = some call.server → ∀ p ∈ s.primary, p = call.server))
  | .member _ .childrenWatcher | .listen _ | .crash _ | .server _ _ | .replicate _ _ | .answer _
  | .getPrimary _ | .getBackup _ | .connectPrimary _ _ | .connectBackup _ _ | .retryFails _
  | .close _ | .callFails _ | .call _ _ => isTrue trivial

/-! ## Who acts -/

/-- The server that makes the step, if one of its threads does. -/
def ClusterAction.actor (s : Cluster) : ClusterAction → Option ℕ
  | .server i _ | .replicate i _ | .answer i => some i
  | .receiveFlight k _ => s.flights[k]?.map Flight.target
  | .receiveCall k _ => s.calls[k]?.map Call.server
  | _ => none

theorem alive_of_receive {s s' : Cluster} {i : ℕ} {request : Request} {call : Option Call}
    (h : s.receive i request call = some s') : (s.server i).exited = false := by
  unfold Cluster.receive at h
  split_ifs at h
  obtain ⟨server, hs, -⟩ := Option.map_eq_some_iff.1 h
  exact not_exited_of_step hs

theorem alive_of_step {s s' : Cluster} {a : ClusterAction} {i : ℕ}
    (h : clusterStep s a = some s') (ha : a.actor s = some i) :
    (s.server i).exited = false := by
  unfold clusterStep at h
  cases a with
  | server j action =>
    obtain rfl := Option.some.inj ha
    dsimp only [Cluster.serverAction] at h
    split at h
    case h_4 =>
      obtain ⟨server, hs, -⟩ := Option.map_eq_some_iff.1 h
      exact not_exited_of_step hs
    all_goals exact absurd h (by simp)
  | replicate j ok =>
    obtain rfl := Option.some.inj ha
    dsimp only [Cluster.replicate] at h
    split at h
    · assumption
    · exact absurd h (by simp)
  | receiveFlight k request =>
    obtain ⟨f, hf, rfl⟩ := Option.map_eq_some_iff.1 ha
    dsimp only [Cluster.receiveFlight] at h
    rw [hf] at h
    dsimp only at h
    split_ifs at h
    obtain ⟨s₁, hs₁, -⟩ := Option.map_eq_some_iff.1 h
    exact alive_of_receive hs₁
  | receiveCall k request =>
    obtain ⟨call, hf, rfl⟩ := Option.map_eq_some_iff.1 ha
    dsimp only [Cluster.receiveCall] at h
    rw [hf] at h
    dsimp only at h
    split_ifs at h
    obtain ⟨s₁, hs₁, -⟩ := Option.map_eq_some_iff.1 h
    exact alive_of_receive hs₁
  | answer j =>
    obtain rfl := Option.some.inj ha
    dsimp only [Cluster.answer] at h
    split at h
    · obtain ⟨server, hs, -⟩ := Option.map_eq_some_iff.1 h
      exact not_exited_of_step hs
    · exact absurd h (by simp)
  | _ => exact absurd ha (by simp [ClusterAction.actor])

theorem ServerAction.IsLocal.handedOver {a : ServerAction} (h : a.IsLocal) (s : ServerState) :
    s.handedOver a = [] := by
  cases a with
  | replicate ok => exact h.elim
  | _ => rfl

namespace ClusterInv

variable {s : Cluster} {i p b : ℕ}

theorem closed_of_alive (h : ClusterInv s) (hx : (s.server i).exited = false) :
    (s.membership.members i).closed = false := by
  by_contra hc
  have hgone := h.closed i (by simpa using hc)
  rw [hx] at hgone
  exact absurd hgone (by decide)

/-- A server that is there and in its main loop is registered. -/
theorem registered_of_serving (h : ClusterInv s) (hx : (s.server i).exited = false)
    (hs : (s.membership.members i).startUp = .serving) :
    s.role i = .primary ∧ s.primary = some i ∨ s.role i = .backup ∧ s.backup = some i := by
  have hclosed := h.closed_of_alive hx
  have hok := (h.membership i).startUp
  rw [hs] at hok
  unfold Cluster.role
  cases hr : (s.membership.members i).role with
  | none => exact absurd hr hok
  | primary => exact Or.inl ⟨rfl, h.primary_iff.2 ((h.membership i).primary hr hclosed)⟩
  | backup => exact Or.inr ⟨rfl, h.backup_iff.2 ((h.membership i).backup hr hclosed)⟩

theorem registered_of_taken (h : ClusterInv s) (hx : (s.server i).exited = false)
    (ht : (s.server i).taken ≠ []) : s.primary = some i ∨ s.backup = some i := by
  have hs : (s.membership.members i).startUp = .serving := by
    by_contra hne
    exact ht (h.fresh i hne)
  exact (h.registered_of_serving hx hs).imp And.right And.right

/-- A primary with another server as its backup does not take itself for a backup. -/
theorem role_ne_backup (h : ClusterInv s) (hx : (s.server p).exited = false)
    (hs : (s.membership.members p).startUp = .serving) (hpair : s.Pair p b) :
    s.role p ≠ .backup := by
  intro hr
  rcases h.registered_of_serving hx hs with ⟨hr', -⟩ | ⟨-, hb⟩
  · rw [hr] at hr'
    exact absurd hr' (by decide)
  · exact hpair.ne (Option.some.inj (hb.symm.trans hpair.backup))

/-- A live server that looks for a backup is the registered primary. -/
theorem primary_of_replicating (h : ClusterInv s) (hx : (s.server i).exited = false)
    (hr : (s.nodes i).replicating ≠ .idle) : s.primary = some i := by
  obtain ⟨⟨task, hw⟩, hrole⟩ := h.replicating i hr
  rcases h.registered_of_serving hx (h.serving_of_applied hw) with ⟨-, hp⟩ | ⟨hb, -⟩
  · exact hp
  · rw [hrole] at hb
    exact absurd hb (by decide)

/-- The backup that is registered is reached at its address, if it is there. -/
theorem listening_of_backup (h : ClusterInv s) (hb : s.backup = some b)
    (hx : (s.server b).exited = false) : s.listening (s.address b) = some b :=
  h.listening_address hx (h.registers_of_backupZnode (h.backup_iff.1 hb))

/-- What a lookup of the backup finds is the address of its owner. -/
theorem address_of_backup (h : ClusterInv s) {address : ℕ}
    (hg : zooGet s.registry .backup = some address) (hb : s.backup = some b) :
    address = s.address b := by
  rw [zooGet, h.backup_iff.1 hb] at hg
  exact (Option.some.inj hg).symm

end ClusterInv

/-! ## The invariant -/

/-- No server can take a role any more: the registered backup is gone, and the registered
primary has replicated a write. -/
structure Cluster.Orphaned (s : Cluster) : Prop where
  backup : ∀ b, s.backup = some b → (s.server b).exited = true
  primary : ∀ p, s.primary = some p → (s.server p).replicated ≠ []
  used : ∃ j, (s.server j).taken ≠ []

/-- Writes on their way were taken by their source, and they go to registered servers, or to
processes that will never read them. -/
structure Traffic (s : Cluster) : Prop where
  sources : ∀ f ∈ s.flights, (s.server f.source).taken ≠ []
  targets : ∀ f ∈ s.flights, s.Listed f.target ∨ s.Orphaned

theorem clusterInit_traffic (address : ℕ → ℕ) : Traffic (clusterInit address) where
  sources := by simp [clusterInit]
  targets := by simp [clusterInit]

/-- All queues are parts of one sequence: that of the head, if there is one. What a live backup
has taken, or will take, is what its primary has replicated. -/
structure Numbering (s : Cluster) : Prop where
  comparable : ∀ i j, (s.server i).writes <+: (s.server j).writes ∨
    (s.server j).writes <+: (s.server i).writes
  head : ∀ h, s.head = some h → ∀ j, (s.server j).writes <+: (s.server h).writes
  replicated : ∀ p b, s.Pair p b → (s.server b).exited = false →
    (s.server b).taken ++ s.flightsTo b = (s.server p).replicated
  /-- the address a primary has found is still the one in the backup znode, if there is one -/
  found : ∀ p b, s.primary = some p → s.backup = some b → ∀ address,
    (s.nodes p).replicating = .found address → address = s.address b

theorem clusterInit_numbering (address : ℕ → ℕ) : Numbering (clusterInit address) where
  comparable := fun _ _ => Or.inl (List.prefix_refl _)
  head := fun _ _ _ => List.prefix_refl _
  replicated := by
    intro p b hpair
    exact absurd hpair.primary (by simp [Cluster.primary, clusterInit, Cluster.registry,
      membershipInit])
  found := by
    intro p b hp
    exact absurd hp (by simp [Cluster.primary, clusterInit, Cluster.registry, membershipInit])

theorem ServerState.writes_isPrefix_taken (s : ServerState) : s.writes <+: s.taken :=
  List.prefix_append _ _

/-- An action queues nothing that was not taken before. -/
theorem ServerInv.writes_isPrefix_taken {s s' : ServerState} {log : TaskLog} {ks : List ℕ}
    {a : ServerAction} (h : ServerInv s log ks) (hstep : ServerStep s a s') :
    s'.writes <+: s.taken := by
  unfold ServerState.taken
  rcases h.writes_step hstep with ⟨hw, -⟩ | ⟨m, ho, hw, -, -⟩
  · exact hw ▸ List.prefix_append _ _
  · rw [hw, ho]

theorem ServerState.replicated_isPrefix_writes (s : ServerState) : s.replicated <+: s.writes :=
  List.take_prefix _ _

/-- Who has replicated a write has taken it. -/
theorem ServerState.taken_ne_nil {s : ServerState} (h : s.replicated ≠ []) : s.taken ≠ [] :=
  (s.replicated_isPrefix_writes.trans s.writes_isPrefix_taken).ne_nil h

namespace Cluster

variable {s : Cluster}

theorem Unused.writes (h : s.Unused) (j : ℕ) : (s.server j).writes = [] :=
  (List.append_eq_nil_iff.1 (h j)).1

theorem Unused.replicated (h : s.Unused) (j : ℕ) : (s.server j).replicated = [] := by
  have hprefix := (s.server j).replicated_isPrefix_writes
  rwa [h.writes j, List.prefix_nil] at hprefix

theorem Unused.executed (h : s.Unused) (j : ℕ) : (s.server j).executed = [] := by
  have hprefix := (s.server j).executed_isPrefix
  rwa [h.writes j, List.prefix_nil] at hprefix

theorem Unused.flights (h : s.Unused) (ht : Traffic s) : s.flights = [] := by
  apply List.eq_nil_iff_forall_not_mem.2
  intro f hf
  exact ht.sources f hf (h f.source)

/-- A server that has executed nothing is not replicating. -/
theorem idle_of_executed (hinv : ClusterInv s) {p : ℕ} (he : (s.server p).executed = []) :
    (s.nodes p).replicating = .idle ∧ (s.server p).replicated = [] := by
  constructor
  · by_contra hne
    obtain ⟨⟨task, hw⟩, -⟩ := hinv.replicating p hne
    obtain ⟨log, ks, hserver⟩ := hinv.servers p
    have hget := hserver.writes_get hw
    have hlt : (s.server p).recorded < (s.server p).writes.length :=
      (List.getElem?_eq_some_iff.1 hget).1
    unfold ServerState.executed at he
    rw [hw, List.take_eq_nil_iff] at he
    rcases he with hzero | hnil
    · simp [WorkerPc.ahead] at hzero
    · rw [hnil] at hlt
      exact absurd hlt (by simp)
  · have hprefix := (s.server p).replicated_isPrefix
    rwa [he, List.prefix_nil] at hprefix

theorem flightsTo_congr {s' : Cluster} (h : s'.flights = s.flights) (j : ℕ) :
    s'.flightsTo j = s.flightsTo j := by
  unfold Cluster.flightsTo
  rw [h]

/-- No write is on its way to a process that is not registered, but may be. -/
theorem flightsTo_of_not_listed (ht : Traffic s) {j : ℕ} (hj : ¬ s.Listed j)
    (ho : ¬ s.Orphaned) : s.flightsTo j = [] := by
  unfold Cluster.flightsTo
  rw [List.map_eq_nil_iff, List.filter_eq_nil_iff]
  intro f hf htarget
  rcases ht.targets f hf with hlisted | horphaned
  · exact hj (of_decide_eq_true htarget ▸ hlisted)
  · exact ho horphaned

/-- A server registers as the backup of a primary that has executed nothing, or before the
first write. -/
theorem not_orphaned (hcond : ∀ p, s.primary = some p → (s.server p).executed = [])
    (hunused : s.primary = none → s.Unused) : ¬ s.Orphaned := by
  intro ho
  cases hp : s.primary with
  | some p =>
    have hprefix := (s.server p).replicated_isPrefix
    rw [hcond p hp, List.prefix_nil] at hprefix
    exact ho.primary p hp hprefix
  | none =>
    obtain ⟨j, hj⟩ := ho.used
    exact hj (hunused hp j)

end Cluster

/-! ## Writes that nobody will read -/

section Orphaned

variable {s s' : Cluster} {a : ClusterAction}

theorem ClusterInv.replicated_isPrefix (hinv : ClusterInv s) (hstep : ClusterStep s a s')
    (j : ℕ) : (s.server j).replicated <+: (s'.server j).replicated := by
  rcases hstep.server_cases j with heq | heq | ⟨b, hs⟩
  · exact heq ▸ List.prefix_refl _
  · rw [heq]
    exact List.prefix_refl _
  · obtain ⟨log, ks, hserver⟩ := hinv.servers j
    rw [hserver.replicated_step hs]
    exact List.prefix_append _ _

/-- Where the znodes stay as they are, a server that is gone stays so, and what was replicated
too. -/
theorem Cluster.Orphaned.of_owners (h : s.Orphaned) (hinv : ClusterInv s)
    (hstep : ClusterStep s a s') (hp : ∀ p, s'.primary = some p → s.primary = some p)
    (hb : ∀ b, s'.backup = some b → s.backup = some b) : s'.Orphaned where
  backup := fun b hb' => ClusterInv.exited_step hstep (h.backup b (hb b hb'))
  primary := fun p hp' => (hinv.replicated_isPrefix hstep p).ne_nil (h.primary p (hp p hp'))
  used := by
    obtain ⟨j, hj⟩ := h.used
    exact ⟨j, (hinv.taken_step hstep).ne_nil hj⟩

/-- No server takes a role: not as a primary, for a write was taken; not as a backup, for the
primary has executed writes; and not by a promotion, for the backup is gone. -/
theorem Cluster.Orphaned.step (h : s.Orphaned) (hinv : ClusterInv s) (hC : KeepsNumbering s a)
    (hstep : ClusterStep s a s') : s'.Orphaned := by
  rcases ClusterInv.registry_step hstep with ⟨i, b, membership, rfl, rfl, hx, hm⟩ | heq
  · have howner := hinv.ownerStep hm
    have hall := h.of_owners hinv hstep
    generalize hp' : Cluster.primary { s with membership := membership } = p',
      hb' : Cluster.backup { s with membership := membership } = b' at howner hall
    cases howner with
    | same => exact hall (fun _ => id) fun _ => id
    | registerPrimary hpc hnone =>
      simp only [KeepsNumbering, hpc] at hC
      obtain ⟨j, hj⟩ := h.used
      exact absurd (hC hnone j) hj
    | registerBackup hpc hnone =>
      simp only [KeepsNumbering, hpc] at hC
      have hcond := hC hnone
      refine absurd h (Cluster.not_orphaned (fun p hp => ?_) fun hp => ?_)
      · rw [hp] at hcond
        exact hcond
      · rw [hp] at hcond
        exact hcond
    | promote hb hnone | resign hp hb =>
      rw [h.backup i hb] at hx
      exact absurd hx (by decide)
    | endSession =>
      exact hall (fun p hp => (Option.filter_eq_some_iff.1 hp).1)
        fun b hb => (Option.filter_eq_some_iff.1 hb).1
  · apply h.of_owners hinv hstep
    · intro p hp
      unfold Cluster.primary Cluster.registry at hp ⊢
      rwa [← heq]
    · intro b hb
      unfold Cluster.backup Cluster.registry at hb ⊢
      rwa [← heq]

end Orphaned

namespace Traffic

variable {s s' : Cluster} {a : ClusterAction}

/-- A step after which nothing new is on its way. -/
theorem keep (h : Traffic s) (hinv : ClusterInv s) (hC : KeepsNumbering s a)
    (hstep : ClusterStep s a s') (hflights : ∀ f ∈ s'.flights, f ∈ s.flights) : Traffic s' where
  sources := fun f hf => (hinv.taken_step hstep).ne_nil (h.sources f (hflights f hf))
  targets := by
    intro f hf
    rcases h.targets f (hflights f hf) with hlisted | horphaned
    · exact Or.inl (hinv.listed_step hstep hlisted)
    · exact Or.inr (horphaned.step hinv hC hstep)

/-- Where a write goes: to the registered backup, or nowhere from where it could be read. -/
theorem send_target (hinv : ClusterInv s) (h : Numbering s) {i address target : ℕ}
    {ok : Bool} (hx : (s.server i).exited = false)
    (hr : (s.nodes i).replicating = .found address) (hl : s.listening address = some target)
    (hstep : ClusterStep s (.replicate i ok) s')
    (hsent : (s'.server i).replicated ≠ []) : s'.Listed target ∨ s'.Orphaned := by
  have hprimary := hinv.primary_of_replicating hx (by simp [hr])
  have hmembership : s'.membership = s.membership := by
    cases hstep <;> rfl
  have hp' : s'.primary = some i := by
    unfold Cluster.primary Cluster.registry at hprimary ⊢
    rwa [hmembership]
  have hb' : s'.backup = s.backup := by
    unfold Cluster.backup Cluster.registry
    rw [hmembership]
  -- unless there is a backup that is alive, nobody can become one
  have horphaned : (∀ b, s.backup = some b → (s.server b).exited = true) → s'.Orphaned := by
    intro hgone
    refine ⟨fun b hb => ClusterInv.exited_step hstep (hgone b (hb' ▸ hb)), fun p hp => ?_, i, ?_⟩
    · rw [← Option.some.inj (hp'.symm.trans hp)]
      exact hsent
    · exact ServerState.taken_ne_nil hsent
  cases hb : s.backup with
  | none => exact Or.inr (horphaned (by simp [hb]))
  | some b =>
    cases hgone : (s.server b).exited with
    | true =>
      right
      apply horphaned
      intro b' hb₁
      rw [← Option.some.inj (hb.symm.trans hb₁)]
      exact hgone
    | false =>
      left
      rw [h.found i b hprimary hb address hr, hinv.listening_of_backup hb hgone] at hl
      rw [← Option.some.inj hl]
      exact hinv.listed_step hstep (Or.inr (Or.inr hb))

theorem step (h : Traffic s) (hinv : ClusterInv s) (hnumbering : Numbering s)
    (hC : KeepsNumbering s a) (hrun : clusterStep s a = some s') : Traffic s' := by
  have hcases := clusterStep_cases hrun
  have halive := fun i => alive_of_step (i := i) hrun
  have hcopy := hcases
  cases hcases with
  | @send i address target task msg server hw hr hl hd hs =>
    obtain ⟨log, ks, hserver⟩ := hinv.servers i
    -- the source has taken the write, and now it is replicated
    have hsent : ((s.setNode i { s.nodes i with
        server := server, replicating := .idle }).server i).replicated ≠ [] := by
      rw [ClusterInv.setNode_server, if_pos rfl]
      show server.replicated ≠ []
      rw [hserver.replicated_step hs, ServerState.handedOver, hw]
      simp
    constructor
    · intro f hf
      rcases List.mem_append.1 hf with hf | hf
      · exact (hinv.taken_step hcopy).ne_nil (h.sources f hf)
      · rw [List.mem_singleton.1 hf]
        exact ServerState.taken_ne_nil hsent
    · intro f hf
      rcases List.mem_append.1 hf with hf | hf
      · rcases h.targets f hf with hlisted | horphaned
        · exact Or.inl (hinv.listed_step hcopy hlisted)
        · exact Or.inr (horphaned.step hinv hC hcopy)
      · rw [List.mem_singleton.1 hf]
        exact send_target hinv hnumbering (halive i rfl) hr hl hcopy hsent
  | receiveFlight hf hm hp hs => exact h.keep hinv hC hcopy fun f => List.mem_of_mem_eraseIdx
  | _ => exact h.keep hinv hC hcopy fun f => id

end Traffic

/-! ## One step -/

namespace Numbering

variable {s s' : Cluster}

/-- Clients and listening sockets do not matter. -/
theorem congr (h : Numbering s) (hm : s'.membership = s.membership) (hn : s'.nodes = s.nodes)
    (hf : s'.flights = s.flights) : Numbering s' := by
  obtain ⟨membership, listeners, nodes, flights, calls, clients⟩ := s
  obtain ⟨membership', listeners', nodes', flights', calls', clients'⟩ := s'
  dsimp only at hm hn hf
  subst hm hn hf
  refine ⟨h.comparable, h.head, ?_, h.found⟩
  exact fun p b hpair => h.replicated p b ⟨hpair.primary, hpair.backup, hpair.ne⟩

/-- The queues of a pair. -/
theorem pair_writes (h : Numbering s) {p b : ℕ} (hpair : s.Pair p b)
    (hx : (s.server b).exited = false) : (s.server b).taken <+: (s.server p).writes := by
  have hrep := h.replicated p b hpair hx
  have hprefix := (s.server p).replicated_isPrefix_writes
  rw [← hrep] at hprefix
  exact (List.prefix_append _ _).trans hprefix

/-- Where a server that is there stands in the sequence. -/
theorem place (hinv : ClusterInv s) {i : ℕ} (hx : (s.server i).exited = false) :
    s.head = some i ∨ (∃ p, s.Pair p i) ∨ (s.server i).taken = [] := by
  by_cases ht : (s.server i).taken = []
  · exact Or.inr (Or.inr ht)
  rcases hinv.registered_of_taken hx ht with hp | hb
  · left
    rw [Cluster.head, hp]
    rfl
  · cases hp : s.primary with
    | none =>
      left
      rw [Cluster.head, hp]
      exact hb
    | some p =>
      by_cases hne : p = i
      · left
        rw [Cluster.head, hp, hne]
        rfl
      · exact Or.inr (Or.inl ⟨p, hp, hb, hne⟩)

/-- One server queues at most what it has taken: the queues stay parts of one sequence. -/
theorem writes_process (h : Numbering s) (hinv : ClusterInv s) {i : ℕ}
    (hx : (s.server i).exited = false) (hother : ∀ j ≠ i, s'.server j = s.server j)
    (hgrow : (s.server i).writes <+: (s'.server i).writes)
    (hle : (s'.server i).writes <+: (s.server i).taken) :
    (∃ h, s.head = some h ∧ ∀ j, (s'.server j).writes <+: (s'.server h).writes) ∨
      ∀ j, (s'.server j).writes = (s.server j).writes := by
  rcases place hinv hx with hhead | ⟨p, hpair⟩ | hnil
  · -- the head's own queue may grow
    left
    refine ⟨i, hhead, fun j => ?_⟩
    by_cases hji : j = i
    · rw [hji]
    · rw [hother j hji]
      exact (h.head i hhead j).trans hgrow
  · -- a backup queues what its primary has in its queue already
    left
    have hhead : s.head = some p := by
      rw [Cluster.head, hpair.primary]
      rfl
    refine ⟨p, hhead, fun j => ?_⟩
    rw [hother p hpair.ne]
    by_cases hji : j = i
    · rw [hji]
      exact hle.trans (h.pair_writes hpair hx)
    · rw [hother j hji]
      exact h.head p hhead j
  · right
    intro j
    by_cases hji : j = i
    · rw [hji]
      rw [hnil, List.prefix_nil] at hle
      rw [hle, List.prefix_nil] at hgrow
      rw [hle, hgrow]
    · rw [hother j hji]

/-- A step of one server that is there. -/
theorem process (h : Numbering s) (hinv : ClusterInv s) {i : ℕ} {node : Node}
    (new handed : List Message) (hx : (s.server i).exited = false)
    (hm : s'.membership = s.membership) (hn : s'.nodes = (s.setNode i node).nodes)
    (hgrow : (s.server i).writes <+: node.server.writes)
    (hle : node.server.writes <+: (s.server i).taken)
    (htaken : node.server.taken = (s.server i).taken ++ new)
    (hrep : node.server.replicated = (s.server i).replicated ++ handed)
    (hflights : ∀ p b, s.Pair p b → (s.server b).exited = false →
      (if b = i then new else []) ++ s'.flightsTo b
        = s.flightsTo b ++ (if p = i then handed else []))
    (hfound : ∀ b, s.primary = some i → s.backup = some b → ∀ address,
      node.replicating = .found address → address = s.address b) :
    Numbering s' := by
  have hserver : ∀ j, s'.server j = if j = i then node.server else s.server j := by
    intro j
    rw [← ClusterInv.setNode_server]
    unfold Cluster.server
    rw [hn]
  have hother : ∀ j ≠ i, s'.server j = s.server j := by
    intro j hji
    rw [hserver, if_neg hji]
  have hself : s'.server i = node.server := by rw [hserver, if_pos rfl]
  have hprimary : s'.primary = s.primary := by
    unfold Cluster.primary Cluster.registry
    rw [hm]
  have hbackup : s'.backup = s.backup := by
    unfold Cluster.backup Cluster.registry
    rw [hm]
  have hhead : s'.head = s.head := by rw [Cluster.head, Cluster.head, hprimary, hbackup]
  have hpair : ∀ p b, s'.Pair p b → s.Pair p b := by
    rintro p b ⟨hp, hb, hne⟩
    exact ⟨hprimary ▸ hp, hbackup ▸ hb, hne⟩
  have hwrites := h.writes_process hinv hx hother (hself ▸ hgrow) (hself ▸ hle)
  refine ⟨?_, ?_, ?_, ?_⟩
  · -- prefixes of one queue are comparable
    intro j k
    rcases hwrites with ⟨m, -, hall⟩ | hsame
    · exact List.prefix_or_prefix_of_prefix (hall j) (hall k)
    · rw [hsame j, hsame k]
      exact h.comparable j k
  · intro m hmhead j
    rw [hhead] at hmhead
    rcases hwrites with ⟨m', hm', hall⟩ | hsame
    · obtain rfl := Option.some.inj (hm'.symm.trans hmhead)
      exact hall j
    · rw [hsame j, hsame m]
      exact h.head m hmhead j
  · intro p b hpb hxb
    have hold := hpair p b hpb
    have hxb : (s.server b).exited = false := by
      by_cases hbi : b = i
      · rw [hbi]
        exact hx
      · rw [← hother b hbi]
        exact hxb
    have htaken' : (s'.server b).taken = (s.server b).taken ++ if b = i then new else [] := by
      by_cases hbi : b = i
      · rw [hbi, hself, if_pos rfl]
        exact htaken
      · rw [hother b hbi, if_neg hbi, List.append_nil]
    have hrep' : (s'.server p).replicated
        = (s.server p).replicated ++ if p = i then handed else [] := by
      by_cases hpi : p = i
      · rw [hpi, hself, if_pos rfl]
        exact hrep
      · rw [hother p hpi, if_neg hpi, List.append_nil]
    calc (s'.server b).taken ++ s'.flightsTo b
        = (s.server b).taken ++ ((if b = i then new else []) ++ s'.flightsTo b) := by
          rw [htaken', List.append_assoc]
      _ = (s.server b).taken ++ s.flightsTo b ++ if p = i then handed else [] := by
          rw [hflights p b hold hxb, List.append_assoc]
      _ = (s'.server p).replicated := by rw [h.replicated p b hold hxb, hrep']
  · intro p b hp hb address hf
    rw [hprimary] at hp
    rw [hbackup] at hb
    rw [Cluster.address, hm]
    rw [hn, ClusterInv.setNode_nodes] at hf
    split_ifs at hf with hpi
    · exact hfound b (hpi ▸ hp) hb address hf
    · exact h.found p b hp hb address hf

/-- A server's own step. -/
theorem serverStep (h : Numbering s) (hinv : ClusterInv s) {i : ℕ} {node : Node}
    {a : ServerAction} {server : ServerState} (hx : (s.server i).exited = false)
    (hs : ServerStep (s.server i) a server) (hserver : node.server = server)
    (hm : s'.membership = s.membership) (hn : s'.nodes = (s.setNode i node).nodes)
    (hflights : ∀ p b, s.Pair p b → (s.server b).exited = false →
      (if b = i then a.newWrite else []) ++ s'.flightsTo b
        = s.flightsTo b ++ (if p = i then (s.server i).handedOver a else []))
    (hfound : node.replicating = .idle ∨ node.replicating = (s.nodes i).replicating) :
    Numbering s' := by
  obtain ⟨log, ks, hlog⟩ := hinv.servers i
  subst hserver
  apply h.process hinv a.newWrite ((s.server i).handedOver a) hx hm hn (hlog.writes_isPrefix hs)
    (hlog.writes_isPrefix_taken hs) (hlog.taken_step hs) (hlog.replicated_step hs) hflights
  intro b hp hb address hf
  rcases hfound with hidle | hsame
  · exact absurd (hidle.symm.trans hf) (by simp)
  · exact h.found i b hp hb address (hsame.symm.trans hf)

/-- A step that changes the znodes only. -/
theorem of_owners (h : Numbering s) (hn : s'.nodes = s.nodes)
    (hhead : ∀ m, s'.head = some m → ∀ j, (s.server j).writes <+: (s.server m).writes)
    (hreplicated : ∀ p b, s'.Pair p b → (s.server b).exited = false →
      (s.server b).taken ++ s'.flightsTo b = (s.server p).replicated)
    (hfound : ∀ p b, s'.primary = some p → s'.backup = some b → ∀ address,
      (s.nodes p).replicating = .found address → address = s'.address b) : Numbering s' := by
  obtain ⟨membership, listeners, nodes, flights, calls, clients⟩ := s'
  dsimp only at hn
  subst hn
  exact ⟨h.comparable, hhead, hreplicated, hfound⟩

/-- Where nobody has taken a write, the znodes may be anyone's. -/
theorem of_unused (h : Numbering s) (hinv : ClusterInv s) (ht : Traffic s) (hunused : s.Unused)
    (hn : s'.nodes = s.nodes) (hf : s'.flights = s.flights) : Numbering s' := by
  apply h.of_owners hn
  · intro m _ j
    rw [hunused.writes j]
    exact List.nil_prefix
  · intro p b _ _
    rw [hunused b, hunused.replicated p, Cluster.flightsTo, hf, hunused.flights ht]
    rfl
  · intro p b _ _ address hr
    rw [(Cluster.idle_of_executed hinv (hunused.executed p)).1] at hr
    exact absurd hr (by simp)

/-- A server without writes becomes the backup of a primary that has not executed any. -/
theorem registerBackup (h : Numbering s) (hinv : ClusterInv s) (ht : Traffic s) {i : ℕ}
    (htaken : (s.server i).taken = []) (hnotListed : ¬ s.Listed i)
    (hcond : ∀ p, s.primary = some p → (s.server p).executed = [])
    (hunused : s.primary = none → s.Unused) (hn : s'.nodes = s.nodes)
    (hf : s'.flights = s.flights) (hp' : s'.primary = s.primary) (hb' : s'.backup = some i) :
    Numbering s' := by
  apply h.of_owners hn
  · intro m hhead j
    cases hp : s.primary with
    | some p =>
      apply h.head m _ j
      rw [Cluster.head, hp', hp] at hhead
      rw [Cluster.head, hp]
      exact hhead
    | none =>
      rw [(hunused hp).writes j]
      exact List.nil_prefix
  · intro p b hpair _
    obtain rfl := Option.some.inj (hb'.symm.trans hpair.backup)
    have hexecuted := hcond p (hp' ▸ hpair.primary)
    rw [Cluster.flightsTo_congr hf, htaken, Cluster.flightsTo_of_not_listed ht hnotListed
      (Cluster.not_orphaned hcond hunused), (Cluster.idle_of_executed hinv hexecuted).2]
    rfl
  · intro p b hp _ address hr
    have hexecuted := hcond p (hp' ▸ hp)
    rw [(Cluster.idle_of_executed hinv hexecuted).1] at hr
    exact absurd hr (by simp)

/-- The znodes of a server go; if it was the primary, the backup has queued its writes. -/
theorem endSession (h : Numbering s) {i : ℕ}
    (hcond : s.primary = some i → ∀ b, s.backup = some b → b ≠ i →
      (s.server i).writes <+: (s.server b).writes)
    (hn : s'.nodes = s.nodes) (hf : s'.flights = s.flights)
    (haddress : ∀ j, s'.address j = s.address j)
    (hp' : s'.primary = s.primary.filter (· ≠ i)) (hb' : s'.backup = s.backup.filter (· ≠ i)) :
    Numbering s' := by
  have hold : ∀ p b, s'.Pair p b → s.Pair p b := by
    rintro p b ⟨hp, hb, hne⟩
    rw [hp'] at hp
    rw [hb'] at hb
    exact ⟨(Option.filter_eq_some_iff.1 hp).1, (Option.filter_eq_some_iff.1 hb).1, hne⟩
  apply h.of_owners hn
  · intro m hhead j
    rw [Cluster.head, hp', hb'] at hhead
    by_cases hpi : s.primary = some i
    · -- the backup takes over, if there is one
      rw [hpi] at hhead
      have hb : s.backup.filter (· ≠ i) = some m := by simpa [Option.filter] using hhead
      obtain ⟨hb, hne⟩ := Option.filter_eq_some_iff.1 hb
      have hhead' : s.head = some i := by
        rw [Cluster.head, hpi]
        rfl
      exact (h.head i hhead' j).trans (hcond hpi m hb (by simpa using hne))
    · apply h.head m _ j
      cases hp : s.primary with
      | none =>
        rw [hp] at hhead
        rw [Cluster.head, hp]
        exact (Option.filter_eq_some_iff.1 hhead).1
      | some p =>
        have hne : p ≠ i := fun heq => hpi (heq ▸ hp)
        rw [hp] at hhead
        rw [Cluster.head, hp]
        simpa [Option.filter, hne] using hhead
  · intro p b hpair
    rw [Cluster.flightsTo_congr hf]
    exact h.replicated p b (hold p b hpair)
  · intro p b hp hb
    rw [hp'] at hp
    rw [hb'] at hb
    rw [haddress b]
    exact h.found p b (Option.filter_eq_some_iff.1 hp).1 (Option.filter_eq_some_iff.1 hb).1

theorem member (h : Numbering s) (hinv : ClusterInv s) (ht : Traffic s) {i : ℕ}
    {a : MemberAction} {membership : Membership} (hC : KeepsNumbering s (.member i a))
    (hx : (s.server i).exited = decide (a = .endSession))
    (hm : membershipStep s.membership i a = some membership) :
    Numbering { s with membership := membership } := by
  have howner := hinv.ownerStep hm
  set s' : Cluster := { s with membership := membership } with hs'
  have hnodes : s'.nodes = s.nodes := rfl
  have hflights : s'.flights = s.flights := rfl
  have haddress : ∀ j, s'.address j = s.address j := membershipStep_address hm
  generalize hp' : s'.primary = p', hb' : s'.backup = b' at howner
  cases howner with
  | same =>
    apply h.of_owners hnodes
    · intro m hhead
      rw [Cluster.head, hp', hb'] at hhead
      exact h.head m hhead
    · intro p b hpair
      exact h.replicated p b ⟨hp' ▸ hpair.primary, hb' ▸ hpair.backup, hpair.ne⟩
    · intro p b hp hb
      rw [haddress b]
      exact h.found p b (hp'.symm.trans hp) (hb'.symm.trans hb)
  | registerPrimary hpc hnone =>
    -- nothing was taken yet, by anyone
    simp only [KeepsNumbering, hpc] at hC
    exact h.of_unused hinv ht (hC hnone) hnodes hflights
  | registerBackup hpc hnone hpi =>
    simp only [KeepsNumbering, hpc] at hC
    have hcond := hC hnone
    -- the new backup was neither role before
    have hnotListed : ¬ s.Listed i := by
      rintro (hgone | hp | hb)
      · rw [hx] at hgone
        exact absurd hgone (by decide)
      · exact hpi hp
      · rw [hnone] at hb
        exact absurd hb (by simp)
    have htaken : (s.server i).taken = [] := hinv.fresh i (by simp [hpc])
    refine h.registerBackup hinv ht htaken hnotListed ?_ ?_ hnodes hflights hp' hb'
    · intro p hp
      rw [hp] at hcond
      exact hcond
    · intro hp
      rw [hp] at hcond
      exact hcond
  | promote hb hnone =>
    -- no pair is left, the head stays, and it has looked for no backup yet
    have hnoPair : ∀ p b, ¬ s'.Pair p b := by
      rintro p b ⟨hp, hb₁, hne⟩
      rw [hp'] at hp
      rw [hb', hb] at hb₁
      exact hne (Option.some.inj (hp.symm.trans hb₁))
    apply h.of_owners hnodes
    · intro m hhead
      rw [Cluster.head, hp'] at hhead
      apply h.head m
      rw [Cluster.head, hnone, hb]
      exact hhead
    · exact fun p b hpair => absurd hpair (hnoPair p b)
    · intro p b hp _ address hr
      rw [hp', Option.some.injEq] at hp
      subst hp
      have hprimary := hinv.primary_of_replicating (hx.trans (by decide)) (by simp [hr])
      exact absurd (hnone.symm.trans hprimary) (by simp)
  | resign hp hb =>
    -- without a backup there is no pair
    have hnoPair : ∀ p b, ¬ s'.Pair p b := by
      rintro p b ⟨-, hb₁, -⟩
      exact absurd (hb'.symm.trans hb₁) (by simp)
    apply h.of_owners hnodes
    · intro m hhead
      rw [Cluster.head, hp', hp] at hhead
      apply h.head m
      rw [Cluster.head, hp]
      exact hhead
    · exact fun p b hpair => absurd hpair (hnoPair p b)
    · intro p b _ hb₁
      exact absurd (hb'.symm.trans hb₁) (by simp)
  | endSession => exact h.endSession hC hnodes hflights haddress hp' hb'

/-- A server's step with nothing read and nothing handed over. -/
theorem quiet (h : Numbering s) (hinv : ClusterInv s) {i : ℕ} {node : Node}
    (hx : (s.server i).exited = false) (hm : s'.membership = s.membership)
    (hn : s'.nodes = (s.setNode i node).nodes) (hf : s'.flights = s.flights)
    (hw : node.server.writes = (s.server i).writes) (ht : node.server.taken = (s.server i).taken)
    (hr : node.server.replicated = (s.server i).replicated)
    (hfound : ∀ b, s.primary = some i → s.backup = some b → ∀ address,
      node.replicating = .found address → address = s.address b) :
    Numbering s' := by
  apply h.process hinv [] [] hx hm hn
  · rw [hw]
  · rw [hw]
    exact (s.server i).writes_isPrefix_taken
  · rw [ht, List.append_nil]
  · rw [hr, List.append_nil]
  · intro p b _ _
    rw [Cluster.flightsTo_congr hf]
    simp
  · exact hfound

theorem flightsTo_append (s : Cluster) (f : Flight) (j : ℕ) :
    Cluster.flightsTo { s with flights := s.flights ++ [f] } j
      = s.flightsTo j ++ if f.target = j then [f.write] else [] := by
  unfold Cluster.flightsTo
  rw [List.filter_append, List.map_append]
  by_cases hj : f.target = j <;> simp [hj]

/-- The oldest write on its way to a server is read: it was the first of them. -/
theorem flightsTo_eraseIdx {k j : ℕ} {f : Flight} (hf : s.flights[k]? = some f)
    (hfirst : ∀ f' ∈ s.flights.take k, f'.target ≠ f.target) :
    (if f.target = j then [f.write] else []) ++
        Cluster.flightsTo { s with flights := s.flights.eraseIdx k } j = s.flightsTo j := by
  obtain ⟨hk, hget⟩ := List.getElem?_eq_some_iff.1 hf
  unfold Cluster.flightsTo
  dsimp only
  have hsplit : s.flights = s.flights.take k ++ f :: s.flights.drop (k + 1) := by
    rw [← hget, List.getElem_cons_drop, List.take_append_drop]
  have hrest : s.flights.eraseIdx k = s.flights.take k ++ s.flights.drop (k + 1) :=
    List.eraseIdx_eq_take_drop_succ _ _
  rw [hrest]
  conv_rhs => rw [hsplit]
  rw [List.filter_append, List.map_append, List.filter_append, List.map_append]
  by_cases hj : f.target = j
  · have hnil : (s.flights.take k).filter (fun f' => f'.target = j) = [] := by
      rw [List.filter_eq_nil_iff]
      intro f' hf' htarget
      exact hfirst f' hf' ((of_decide_eq_true htarget).trans hj.symm)
    rw [hnil]
    simp [hj]
  · simp [hj]

/-- What a backup will take is a write. -/
theorem isWrite_of_flight (h : Numbering s) (hinv : ClusterInv s) {p b : ℕ}
    (hpair : s.Pair p b) (hx : (s.server b).exited = false) {f : Flight} (hf : f ∈ s.flights)
    (ht : f.target = b) : f.write.IsWrite := by
  obtain ⟨log, ks, hserver⟩ := hinv.servers p
  have hmem : f.write ∈ s.flightsTo b := by
    apply List.mem_map_of_mem
    exact List.mem_filter.2 ⟨hf, by simpa using ht⟩
  have hrep : f.write ∈ (s.server p).replicated := by
    rw [← h.replicated p b hpair hx]
    exact List.mem_append_right _ hmem
  have hwrites := (s.server p).replicated_isPrefix_writes.subset hrep
  rw [hserver.writes_eq] at hwrites
  exact (hserver.writes _ hwrites).2

/-! ### The steps of a server -/

/-- A server's step that takes no write and hands none over. -/
theorem serverStep_quiet (h : Numbering s) (hinv : ClusterInv s) {i : ℕ} {node : Node}
    {a : ServerAction} {server : ServerState} (hx : (s.server i).exited = false)
    (hs : ServerStep (s.server i) a server) (hserver : node.server = server)
    (hm : s'.membership = s.membership) (hn : s'.nodes = (s.setNode i node).nodes)
    (hf : s'.flights = s.flights) (hnew : a.newWrite = [])
    (hhand : (s.server i).handedOver a = [])
    (hfound : node.replicating = .idle ∨ node.replicating = (s.nodes i).replicating) :
    Numbering s' := by
  refine h.serverStep hinv hx hs hserver hm hn ?_ hfound
  intro p b _ _
  rw [hnew, hhand, ite_self, ite_self, List.append_nil, List.nil_append,
    Cluster.flightsTo_congr hf]

/-- A server that takes itself for a backup is not the primary of a pair. -/
theorem isBackup (h : Numbering s) (hinv : ClusterInv s) {i : ℕ} {server : ServerState}
    (hx : (s.server i).exited = false) (hb : s.role i = .backup)
    (hs : ServerStep (s.server i) (.replicate true) server) :
    Numbering (s.setNode i { s.nodes i with server := server, replicating := .idle }) := by
  refine h.serverStep hinv hx hs rfl rfl rfl ?_ (Or.inl rfl)
  intro p b hpair _
  have hpi : p ≠ i := by
    rintro rfl
    cases hs with
    | replicate hw => exact hinv.role_ne_backup hx (hinv.serving_of_applied hw) hpair hb
  rw [if_neg hpi, List.append_nil]
  show (if b = i then [] else []) ++ s.flightsTo b = _
  rw [ite_self, List.nil_append]

/-- The primary hands a write over to the backup it has found. -/
theorem send (h : Numbering s) (hinv : ClusterInv s) {i address target : ℕ} {task : TaskT}
    {msg : Message} {server : ServerState} (hx : (s.server i).exited = false)
    (hw : (s.server i).worker = .applied task) (hr : (s.nodes i).replicating = .found address)
    (hl : s.listening address = some target) (hd : messageDup task.opCodeAndArgs = some msg)
    (hs : ServerStep (s.server i) (.replicate true) server) :
    Numbering { s.setNode i { s.nodes i with server := server, replicating := .idle } with
      flights := s.flights ++ [⟨i, target, msg⟩] } := by
  refine h.serverStep hinv hx hs rfl rfl rfl ?_ (Or.inl rfl)
  intro p b hpair hxb
  have hprimary := hinv.primary_of_replicating hx (by simp [hr])
  obtain rfl := Option.some.inj (hpair.primary.symm.trans hprimary)
  -- the live backup is the process that listens at the address found
  rw [h.found p b hpair.primary hpair.backup address hr,
    hinv.listening_of_backup hpair.backup hxb] at hl
  obtain rfl := Option.some.inj hl
  obtain rfl := Option.some.inj ((hinv.messageDup_of_applied hw).symm.trans hd)
  have hflight := flightsTo_append s ⟨p, b, task.opCodeAndArgs⟩ b
  rw [if_pos rfl] at hflight
  have hhand : (s.server p).handedOver (.replicate true) = [task.opCodeAndArgs] := by
    simp only [ServerState.handedOver, hw]
  rw [if_pos rfl, if_neg hpair.ne.symm, List.nil_append, hhand]
  exact hflight

/-- A server takes the oldest write that is on its way to it. -/
theorem receiveFlight (h : Numbering s) (hinv : ClusterInv s) {k : ℕ} {f : Flight}
    {request : Request} {server : ServerState} (hx : (s.server f.target).exited = false)
    (hf : s.flights[k]? = some f) (hfirst : ∀ f' ∈ s.flights.take k, f'.target ≠ f.target)
    (hm : request.1 = f.write) (hs : ServerStep (s.server f.target) (.lockRequest request) server) :
    Numbering
      { s.setNode f.target { s.nodes f.target with server := server, serving := none } with
        flights := s.flights.eraseIdx k } := by
  refine h.serverStep hinv hx hs rfl rfl rfl ?_ (Or.inr rfl)
  intro p b hpair hxb
  have herase := flightsTo_eraseIdx (j := b) hf hfirst
  have hnew : (if b = f.target then (ServerAction.lockRequest request).newWrite else [])
      = if f.target = b then [f.write] else [] := by
    by_cases hb : f.target = b
    · have hwrite := h.isWrite_of_flight hinv hpair hxb (List.mem_of_getElem? hf) hb
      rw [if_pos hb.symm, if_pos hb, ServerAction.newWrite, hm, if_pos hwrite]
    · rw [if_neg fun heq => hb heq.symm, if_neg hb]
  have hhand : (if p = f.target then (s.server f.target).handedOver (.lockRequest request)
      else []) = [] := ite_self _
  rw [hnew, hhand, List.append_nil]
  exact herase

/-- A client's request is read; if it is a write, then not by the backup of a primary. -/
theorem receiveCall (h : Numbering s) (hinv : ClusterInv s) {k : ℕ} {call : Call}
    {request : Request} {server : ServerState} (hx : (s.server call.server).exited = false)
    (hcond : request.1.IsWrite → s.backup = some call.server →
      ∀ p ∈ s.primary, p = call.server)
    (hs : ServerStep (s.server call.server) (.lockRequest request) server) :
    Numbering
      { s.setNode call.server
          { s.nodes call.server with server := server, serving := some call } with
        calls := s.calls.eraseIdx k } := by
  refine h.serverStep hinv hx hs rfl rfl rfl ?_ (Or.inr rfl)
  intro p b hpair _
  have hnew : (if b = call.server then (ServerAction.lockRequest request).newWrite else [])
      = [] := by
    by_cases hb : b = call.server
    · rw [if_pos hb, ServerAction.newWrite, if_neg]
      intro hwrite
      have hp := hcond hwrite (hb ▸ hpair.backup) p hpair.primary
      exact hpair.ne (hp.trans hb.symm)
    · rw [if_neg hb]
  have hhand : (if p = call.server then
      (s.server call.server).handedOver (.lockRequest request) else []) = [] := ite_self _
  rw [hnew, hhand, List.append_nil]
  rfl

/-! ### All steps -/

theorem step (h : Numbering s) (hinv : ClusterInv s) (ht : Traffic s) {a : ClusterAction}
    (hC : KeepsNumbering s a) (hrun : clusterStep s a = some s') : Numbering s' := by
  have hcases := clusterStep_cases hrun
  have halive := fun i => alive_of_step (i := i) hrun
  cases hcases with
  | member hx hl hm => exact h.member hinv ht hC hx hm
  | @crash i hx => exact h.quiet hinv hx rfl rfl rfl rfl rfl rfl (h.found i)
  | @server i a server ha hs =>
    exact h.serverStep_quiet hinv (halive i rfl) hs rfl rfl rfl rfl ha.newWrite (ha.handedOver _)
      (Or.inr rfl)
  | @isBackup i ok server hr hb hs => exact h.isBackup hinv (halive i rfl) hb hs
  | notBackup hx hw hr hb =>
    exact h.quiet hinv hx rfl rfl rfl rfl rfl rfl fun b _ _ address hf => absurd hf (by simp)
  | @lookUp i address ok task hx hw hr hg =>
    -- the address found is that of the backup
    refine h.quiet hinv hx rfl rfl rfl rfl rfl rfl ?_
    intro b _ hb found hf
    rw [← ReplicatePc.found.inj hf]
    exact hinv.address_of_backup hg hb
  | @fails i ok server hr hs =>
    exact h.serverStep_quiet hinv (halive i rfl) hs rfl rfl rfl rfl rfl rfl (Or.inl rfl)
  | @send i address target task msg server hw hr hl hd hs =>
    exact h.send hinv (halive i rfl) hw hr hl hd hs
  | @receiveFlight k f request server hf hm hp hs =>
    have hx := halive f.target (by simp [ClusterAction.actor, hf])
    exact h.receiveFlight hinv hx hf (hC f hf) hm hs
  | @receiveCall k call request server hf hm hp hs =>
    have hx := halive call.server (by simp [ClusterAction.actor, hf])
    exact h.receiveCall hinv hx (fun hw => hC hw call hf) hs
  | @answer i request response server clients hr hs hc =>
    exact h.serverStep_quiet hinv (halive i rfl) hs rfl rfl rfl rfl rfl rfl (Or.inr rfl)
  | _ => exact h.congr rfl rfl rfl

end Numbering

end ReplicatedTree
