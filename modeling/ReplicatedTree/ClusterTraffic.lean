import Mathlib.Data.List.Infix
import ReplicatedTree.ClusterTheorems

/-!
# Who is registered, and where replies come from

The znodes hold addresses, and an address says little about a process: another one may listen
there by now. So a znode is followed here by the process that owns it (`Cluster.primary`,
`Cluster.backup`); `ClusterInv.ownerStep` says what a step does to the two owners. A reply is
what the process it names has answered (`RepliesInv`).
-/

namespace ReplicatedTree

open Transition

namespace Cluster

/-- The process that owns the primary znode. -/
def primary (s : Cluster) : Option ℕ := (s.registry .primary).map Znode.owner

/-- The process that owns the backup znode. -/
def backup (s : Cluster) : Option ℕ := (s.registry .backup).map Znode.owner

/-- Process `j` is registered, or it is gone. -/
def Listed (s : Cluster) (j : ℕ) : Prop :=
  (s.server j).exited = true ∨ s.primary = some j ∨ s.backup = some j

end Cluster

/-! ## The owners of the znodes -/

namespace ClusterInv

variable {s s' : Cluster} {i j : ℕ} {a : ClusterAction}

/-- A process registers under its own address. -/
theorem primary_iff (h : ClusterInv s) :
    s.primary = some j ↔ s.registry .primary = some ⟨s.address j, j⟩ := by
  unfold Cluster.primary
  constructor
  · intro hj
    obtain ⟨⟨data, owner⟩, hz, rfl⟩ := Option.map_eq_some_iff.1 hj
    obtain ⟨rfl, -, -⟩ := (h.membership owner).primaryZnode data hz
    exact hz
  · intro hz
    rw [hz]
    rfl

theorem backup_iff (h : ClusterInv s) :
    s.backup = some j ↔ s.registry .backup = some ⟨s.address j, j⟩ := by
  unfold Cluster.backup
  constructor
  · intro hj
    obtain ⟨⟨data, owner⟩, hz, rfl⟩ := Option.map_eq_some_iff.1 hj
    obtain ⟨rfl, -, -⟩ := (h.membership owner).backupZnode data hz
    exact hz
  · intro hz
    rw [hz]
    rfl

/-- What a step of a registration, of a promotion or of the end of a session does to the
owners. -/
inductive OwnerStep (s : Cluster) (i : ℕ) : MemberAction → Option ℕ → Option ℕ → Prop
  | same (a : MemberAction) : OwnerStep s i a s.primary s.backup
  | registerPrimary (hpc : (s.membership.members i).startUp = .noPrimary)
      (hnone : s.primary = none) : OwnerStep s i .startUp (some i) s.backup
  | registerBackup (hpc : (s.membership.members i).startUp = .noBackup)
      (hnone : s.backup = none) (hp : s.primary ≠ some i) :
    OwnerStep s i .startUp s.primary (some i)
  | promote (hb : s.backup = some i) (hnone : s.primary = none) :
    OwnerStep s i .childrenWatcher (some i) s.backup
  | resign (hp : s.primary = some i) (hb : s.backup = some i) :
    OwnerStep s i .childrenWatcher s.primary none
  | endSession : OwnerStep s i .endSession (s.primary.filter (· ≠ i)) (s.backup.filter (· ≠ i))

theorem filter_znode (z : Option Znode) (i : ℕ) :
    (z.filter fun x => x.owner ≠ i).map Znode.owner = (z.map Znode.owner).filter (· ≠ i) := by
  cases z with
  | none => rfl
  | some x => by_cases howner : x.owner = i <;> simp [Option.filter, howner]

theorem ownerStep (h : ClusterInv s) {a : MemberAction} {membership : Membership}
    (hm : membershipStep s.membership i a = some membership) :
    OwnerStep s i a (Cluster.primary { s with membership := membership })
      (Cluster.backup { s with membership := membership }) := by
  obtain ⟨m, hclosed, hmember, -⟩ := membershipStep_cases hm
  have hregistry := memberStep_registry (h.membership i).holds hclosed hmember
  unfold Cluster.primary Cluster.backup Cluster.registry
  dsimp only
  generalize membership.registry = r at hregistry
  cases hregistry with
  | same => exact .same a
  | registerPrimary hpc hnone =>
    have hp : s.primary = none := by simp [Cluster.primary, Cluster.registry, hnone]
    exact .registerPrimary hpc hp
  | registerBackup hpc hnone =>
    have hb : s.backup = none := by simp [Cluster.backup, Cluster.registry, hnone]
    refine .registerBackup hpc hb ?_
    rw [Ne, h.primary_iff]
    have hrole := (h.membership i).startUp
    rw [hpc] at hrole
    exact ((h.membership i).no_znode hrole (by simp [hpc]) _).1 (by simp [hpc])
  | promote hb hnone =>
    have hp : s.primary = none := by simp [Cluster.primary, Cluster.registry, hnone]
    exact .promote (h.backup_iff.2 hb) hp
  | resign hp hb => exact .resign (h.primary_iff.2 hp) (h.backup_iff.2 hb)
  | endSession =>
    show OwnerStep s i .endSession ((Option.filter _ _).map _) ((Option.filter _ _).map _)
    rw [filter_znode, filter_znode]
    exact .endSession

end ClusterInv

/-! ## What stays -/

theorem ServerStep.exited_mono {s s' : ServerState} {a : ServerAction} (h : ServerStep s a s')
    (hx : s.exited = true) : s'.exited = true := by
  cases h <;> first | exact hx | rfl

theorem ServerStep.answers_isPrefix {s s' : ServerState} {a : ServerAction}
    (h : ServerStep s a s') : s.answers <+: s'.answers := by
  cases h with
  | unlockRequest hr => exact List.prefix_append _ _
  | _ => exact List.prefix_refl _

/-- In one step, a server stays as it is, is killed, or makes one of its own steps. -/
theorem ClusterStep.server_cases {s s' : Cluster} {a : ClusterAction} (h : ClusterStep s a s')
    (j : ℕ) : s'.server j = s.server j ∨ s'.server j = { s.server j with exited := true } ∨
      ∃ b, ServerStep (s.server j) b (s'.server j) := by
  -- the process that changes may be another one
  have hmove : ∀ (i : ℕ) (node : Node),
      (node.server = s.server i ∨ node.server = { s.server i with exited := true } ∨
        ∃ b, ServerStep (s.server i) b node.server) →
      (s.setNode i node).server j = s.server j ∨
        (s.setNode i node).server j = { s.server j with exited := true } ∨
        ∃ b, ServerStep (s.server j) b ((s.setNode i node).server j) := by
    intro i node hnode
    rw [ClusterInv.setNode_server]
    split_ifs with hji
    · exact hji ▸ hnode
    · exact Or.inl rfl
  cases h with
  | crash hx => exact hmove _ _ (Or.inr (Or.inl rfl))
  | notBackup hx hw hr hb => exact hmove _ _ (Or.inl rfl)
  | lookUp hx hw hr hg => exact hmove _ _ (Or.inl rfl)
  | server ha hs => exact hmove _ _ (Or.inr (Or.inr ⟨_, hs⟩))
  | isBackup hr hb hs => exact hmove _ _ (Or.inr (Or.inr ⟨_, hs⟩))
  | fails hr hs => exact hmove _ _ (Or.inr (Or.inr ⟨_, hs⟩))
  | send hw hr hl hd hs => exact hmove _ _ (Or.inr (Or.inr ⟨_, hs⟩))
  | receiveFlight hf hm hp hs => exact hmove _ _ (Or.inr (Or.inr ⟨_, hs⟩))
  | receiveCall hf hm hp hs => exact hmove _ _ (Or.inr (Or.inr ⟨_, hs⟩))
  | answer hr hs hc => exact hmove _ _ (Or.inr (Or.inr ⟨_, hs⟩))
  | _ => exact Or.inl rfl

namespace ClusterInv

variable {s s' : Cluster} {i j : ℕ} {a : ClusterAction}

theorem exited_step (hstep : ClusterStep s a s') (hx : (s.server j).exited = true) :
    (s'.server j).exited = true := by
  rcases hstep.server_cases j with heq | heq | ⟨b, hs⟩
  · exact heq ▸ hx
  · rw [heq]
  · exact hs.exited_mono hx

theorem answers_step (hstep : ClusterStep s a s') :
    (s.server j).answers <+: (s'.server j).answers := by
  rcases hstep.server_cases j with heq | heq | ⟨b, hs⟩
  · exact heq ▸ List.prefix_refl _
  · rw [heq]
  · exact hs.answers_isPrefix

theorem taken_step (h : ClusterInv s) (hstep : ClusterStep s a s') :
    (s.server j).taken <+: (s'.server j).taken := by
  rcases hstep.server_cases j with heq | heq | ⟨b, hs⟩
  · exact heq ▸ List.prefix_refl _
  · rw [heq]
    exact List.prefix_refl _
  · obtain ⟨log, ks, hinv⟩ := h.servers j
    rw [hinv.taken_step hs]
    exact List.prefix_append _ _

/-- Only the steps of members touch the znodes. -/
theorem registry_step (hstep : ClusterStep s a s') :
    (∃ i b membership, a = .member i b ∧ s' = { s with membership := membership } ∧
      (s.server i).exited = decide (b = .endSession) ∧
      membershipStep s.membership i b = some membership) ∨ s'.membership = s.membership := by
  cases hstep with
  | member hx hl hm => exact Or.inl ⟨_, _, _, rfl, rfl, hx, hm⟩
  | _ => exact Or.inr rfl

/-- Who is registered stays so until it is gone. -/
theorem listed_step (h : ClusterInv s) (hstep : ClusterStep s a s') (hj : s.Listed j) :
    s'.Listed j := by
  rcases hj with hgone | hregistered
  · exact Or.inl (exited_step hstep hgone)
  rcases registry_step hstep with ⟨i, b, membership, rfl, rfl, hx, hm⟩ | heq
  · have howner := h.ownerStep hm
    unfold Cluster.Listed
    generalize Cluster.primary { s with membership := membership } = p,
      Cluster.backup { s with membership := membership } = q at howner
    cases howner with
    | same => exact Or.inr hregistered
    | registerPrimary hpc hnone | promote hb hnone =>
      rcases hregistered with hp | hq
      · exact absurd (hnone.symm.trans hp) (by simp)
      · exact Or.inr (Or.inr hq)
    | registerBackup hpc hnone =>
      rcases hregistered with hp | hq
      · exact Or.inr (Or.inl hp)
      · exact absurd (hnone.symm.trans hq) (by simp)
    | resign hp hb =>
      -- a backup resigns after its promotion
      rcases hregistered with hp' | hq
      · exact Or.inr (Or.inl hp')
      · obtain rfl := Option.some.inj (hb.symm.trans hq)
        exact Or.inr (Or.inl hp)
    | endSession =>
      -- only the end of its own session takes a server's znode away, and then its process is gone
      by_cases hji : j = i
      · subst hji
        exact Or.inl (hx.trans (by simp))
      · right
        rcases hregistered with hp | hq
        · left
          rw [hp]
          simp [Option.filter, hji]
        · right
          rw [hq]
          simp [Option.filter, hji]
  · right
    unfold Cluster.primary Cluster.backup Cluster.registry at hregistered ⊢
    rwa [heq]

end ClusterInv

/-! ## What a response changes -/

theorem setClient_clients (s : Cluster) (c d : ℕ) (client : Client) :
    (s.setClient c client).clients d = if d = c then client else s.clients d := by
  unfold Cluster.setClient
  by_cases hdc : d = c
  · subst hdc
    simp
  · simp [hdc]

/-- A response changes what a client waits for, and the responses it got. -/
theorem deliver_clients (s : Cluster) (call : Call) (response : Message) (c : ℕ) :
    ∃ waiting replies, (s.deliver call response).clients c
        = { s.clients c with waiting := waiting, replies := replies } ∧
      ∀ r ∈ replies, r ∈ (s.clients c).replies ∨ r = ⟨call.server, call.request, response⟩ := by
  unfold Cluster.deliver
  dsimp only
  split_ifs with hwait
  · rw [setClient_clients]
    split_ifs with hc
    · subst hc
      refine ⟨_, _, rfl, ?_⟩
      intro r hr
      rcases List.mem_append.1 hr with hr | hr
      · exact Or.inl hr
      · exact Or.inr (List.mem_singleton.1 hr)
    · exact ⟨_, _, rfl, fun r hr => Or.inl hr⟩
  · exact ⟨_, _, rfl, fun r hr => Or.inl hr⟩

theorem answer_clients {s : Cluster} {i : ℕ} {response : Message} {clients : ℕ → Client}
    (h : clients = match (s.nodes i).serving with
      | some call => (s.deliver call (finishResponse response)).clients
      | none => s.clients) (c : ℕ) :
    ∃ waiting replies, clients c = { s.clients c with waiting := waiting, replies := replies } ∧
      ∀ r ∈ replies, r ∈ (s.clients c).replies ∨ ∃ call, (s.nodes i).serving = some call ∧
        r = ⟨call.server, call.request, finishResponse response⟩ := by
  subst h
  cases hs : (s.nodes i).serving with
  | none => exact ⟨_, _, rfl, fun r hr => Or.inl hr⟩
  | some call =>
    obtain ⟨waiting, replies, heq, hmem⟩ := deliver_clients s call (finishResponse response) c
    refine ⟨waiting, replies, heq, fun r hr => ?_⟩
    exact (hmem r hr).imp_right fun hr => ⟨call, rfl, hr⟩

/-! ## Where replies come from -/

/-- The request in hand. -/
def RequestPc.current : RequestPc → Option Message
  | .idle => none
  | .locked request | .created request _ | .answered request _ => some request

/-- A server handles the request it was called with, and a client's replies are answers of the
servers they name. -/
structure RepliesInv (s : Cluster) : Prop where
  serving : ∀ i call, (s.nodes i).serving = some call →
    call.server = i ∧ (s.server i).request.current = some call.request
  replies : ∀ c, ∀ r ∈ (s.clients c).replies,
    (r.request, r.response) ∈ (s.server r.server).answers

theorem clusterInit_replies (address : ℕ → ℕ) : RepliesInv (clusterInit address) where
  serving := by simp [clusterInit, nodeInit]
  replies := by simp [clusterInit, clientInit]

/-- Only the two ends of `invoke` change which request is in hand. -/
theorem ServerStep.current_eq {s s' : ServerState} {a : ServerAction} (h : ServerStep s a s')
    (hlock : ∀ request, a ≠ .lockRequest request) (hunlock : a ≠ .unlockRequest) :
    s'.request.current = s.request.current := by
  cases h with
  | lockRequest request hr hl => exact absurd rfl (hlock request)
  | unlockRequest hr => exact absurd rfl hunlock
  | create hr hw hc | createFails hr hc | read hr hw hresp | enqueue hr =>
    rw [hr]
    rfl
  | _ => rfl

namespace RepliesInv

variable {s s' : Cluster} {a : ClusterAction}

/-- A step that hands no response to a client. -/
theorem extend (h : RepliesInv s) (hstep : ClusterStep s a s')
    (hserving : ∀ i call, (s'.nodes i).serving = some call →
      call.server = i ∧ (s'.server i).request.current = some call.request)
    (hreplies : ∀ c, (s'.clients c).replies = (s.clients c).replies) : RepliesInv s' where
  serving := hserving
  replies := by
    intro c r hr
    rw [hreplies c] at hr
    exact (ClusterInv.answers_step hstep).subset (h.replies c r hr)

/-- A step of one process. -/
theorem setNode_serving (h : RepliesInv s) {i j : ℕ} {node : Node} {call : Call}
    (hs : ((s.setNode i node).nodes j).serving = some call)
    (hi : node.serving = some call →
      call.server = i ∧ node.server.request.current = some call.request) :
    call.server = j ∧ ((s.setNode i node).server j).request.current = some call.request := by
  rw [ClusterInv.setNode_nodes] at hs
  rw [ClusterInv.setNode_server]
  split_ifs at hs ⊢ with hji
  · exact hji ▸ hi hs
  · exact h.serving j call hs

/-- A step of one process that goes on with the request in hand. -/
theorem setNode_same (h : RepliesInv s) {i j : ℕ} {node : Node} {call : Call}
    (hs : ((s.setNode i node).nodes j).serving = some call)
    (hsame : node.serving = (s.nodes i).serving)
    (hcurrent : node.server.request.current = (s.server i).request.current) :
    call.server = j ∧ ((s.setNode i node).server j).request.current = some call.request := by
  apply h.setNode_serving hs
  rw [hsame, hcurrent]
  exact h.serving i call

theorem step (h : RepliesInv s) (hstep : ClusterStep s a s') : RepliesInv s' := by
  have hcopy := hstep
  cases hstep with
  | member hx hl hm => exact h.extend hcopy h.serving fun c => rfl
  | listen hx hpc hfree => exact h.extend hcopy h.serving fun c => rfl
  | crash hx | notBackup hx hw hr hb | lookUp hx hw hr hg =>
    exact h.extend hcopy (fun j call hs => h.setNode_same hs rfl rfl) fun c => rfl
  | server ha hs =>
    apply h.extend hcopy
    · intro j call hcall
      apply h.setNode_same hcall rfl
      apply hs.current_eq
      · rintro request rfl
        exact ha
      · rintro rfl
        exact ha
    · exact fun c => rfl
  | isBackup hr hb hs | fails hr hs | send hw hr hl hd hs =>
    apply h.extend hcopy
    · intro j call hcall
      exact h.setNode_same hcall rfl (hs.current_eq (by simp) (by simp))
    · exact fun c => rfl
  | receiveFlight hf hm hp hs =>
    -- a write from another server is nobody's call
    apply h.extend hcopy
    · intro j call hcall
      exact h.setNode_serving hcall fun hnone => absurd hnone (by simp)
    · exact fun c => rfl
  | @receiveCall k call request server hf hm hp hs =>
    apply h.extend hcopy
    · -- the request that is locked is the one of the call
      intro j call' hcall
      apply h.setNode_serving hcall
      intro heq
      obtain rfl := Option.some.inj heq
      cases hs with
      | lockRequest _ hr hl => exact ⟨rfl, congrArg some hm⟩
    · exact fun c => rfl
  | @answer i request response server clients hr hs hc =>
    have hclients := answer_clients hc
    constructor
    · intro j call hcall
      exact h.setNode_serving hcall fun hnone => absurd hnone (by simp)
    · intro c r hreply
      obtain ⟨waiting, replies, heq, hmem⟩ := hclients c
      dsimp only at hreply
      rw [heq] at hreply
      rcases hmem r hreply with hold | ⟨call, hcall, rfl⟩
      · exact (ClusterInv.answers_step hcopy).subset (h.replies c r hold)
      · -- the response is the one that was just added to the answers
        obtain ⟨rfl, hcurrent⟩ := h.serving i call hcall
        rw [hr] at hcurrent
        show (call.request, finishResponse response) ∈
          (Cluster.server (s.setNode call.server _) call.server).answers
        rw [ClusterInv.setNode_server, if_pos rfl]
        cases hs with
        | unlockRequest hr' =>
          obtain ⟨rfl, rfl⟩ := RequestPc.answered.inj (hr.symm.trans hr')
          rw [← Option.some.inj hcurrent]
          exact List.mem_append_right _ (List.mem_singleton.2 rfl)
  | getPrimary | getBackup | connectPrimary | connectBackup | retryFails | callFails =>
    apply h.extend hcopy h.serving
    intro c
    rw [setClient_clients]
    split_ifs with hc
    · rw [hc]
    · rfl
  | close =>
    apply h.extend hcopy h.serving
    intro c
    rw [setClient_clients]
    split_ifs with hc
    · rw [Client.closeSocket_replies, Client.closeSocket_replies, hc]
    · rfl
  | call hs =>
    apply h.extend hcopy h.serving
    intro c
    dsimp only
    rw [setClient_clients]
    split_ifs with hc
    · rw [hc]
    · rfl

end RepliesInv

end ReplicatedTree
