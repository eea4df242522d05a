import ReplicatedTree.RegistryTheorems
import ReplicatedTree.Lib.Transition

/-!
# Promotions that are missed (`zk_children_watcher`, `main` of `tree_server.c`)

A watch goes off once. `zk_children_watcher` first sets it again and then calls the listener,
so that from the end of `zk_connect` on a server is either watching or has an event to handle
(`Member.Alert`). A backup without a primary would then always be about to promote itself, but
for one thing: before `main` has installed the listener, events are thrown away. If the primary
ends in between, nobody tells the server which is the backup already (`MissesEvent`).
-/

namespace ReplicatedTree

open Transition

/-- The thread of the library comes to the promotion of its server. -/
def WatcherPc.Pending : WatcherPc → Prop
  | .notified | .rearmed | .updating | .primaryGone | .backupFound | .addressRead _ => True
  | .idle | .created | .promoted => False

/-- The server has ended, or no event is on its way to it and it neither starts nor updates
the roles. -/
def Member.Quiescent (m : Member) : Prop :=
  m.closed = false → m.event = false ∧ m.watcher = .idle ∧
    (m.startUp = .connecting ∨ m.startUp = .serving ∨ m.startUp = .failed)

instance (m : Member) : Decidable m.Quiescent := inferInstanceAs (Decidable (_ → _))

def Membership.Quiescent (s : Membership) : Prop := ∀ i, (s.members i).Quiescent

/-- The last event of a server is thrown away, for its listener is missing, while it holds the
backup znode and nobody is the primary. -/
def MissesEvent (s : Membership) (x : ℕ × MemberAction) : Prop :=
  x.2 = .childrenWatcher ∧ (s.members x.1).watcher = .rearmed ∧
    (s.members x.1).startUp ≠ .serving ∧ (s.members x.1).event = false ∧
    s.registry .primary = none ∧
    s.registry .backup = some ⟨(s.members x.1).address, x.1⟩

instance (s : Membership) (x : ℕ × MemberAction) : Decidable (MissesEvent s x) :=
  inferInstanceAs (Decidable (_ ∧ _))

/-! ## Events are not missed -/

/-- The server will hear of the next change of the znodes. -/
def Member.Watched (m : Member) : Prop :=
  m.startUp ≠ .connecting → m.watching = true ∨ m.event = true ∨ m.watcher = .notified

/-- The backup without a primary will hear of that. -/
def Member.Informed (i : ℕ) (r : Registry) (m : Member) : Prop :=
  r .primary = none → r .backup = some ⟨m.address, i⟩ → m.event = true ∨ m.watcher.Pending

structure Member.Alert (i : ℕ) (r : Registry) (m : Member) : Prop where
  watched : m.Watched
  informed : m.Informed i r

/-- The owner of the backup znode has looked at the znodes, and so has set its watch. -/
theorem Member.Inv.started {i : ℕ} {r : Registry} {m : Member} (h : m.Inv i r)
    (hb : r .backup = some ⟨m.address, i⟩) : m.startUp ≠ .connecting := by
  intro hpc
  have hs := h.startUp
  rw [hpc] at hs
  rcases (h.backupZnode _ hb).2.2 with hr | hpc' | hw
  · exact absurd (hs.symm.trans hr) (by decide)
  · exact absurd (hpc.symm.trans hpc') (by decide)
  · have hok := h.watcher
    rw [hw] at hok
    exact absurd (hpc.symm.trans hok.1) (by decide)

/-- A watch that goes off is an event. -/
theorem Member.Watched.notify {i : ℕ} {r : Registry} {m : Member} (h : m.Watched)
    (hinv : m.Inv i r) : m.notify.Alert i r := by
  have hnotify : m.notify.startUp ≠ .connecting →
      m.notify.event = true ∨ m.notify.watcher = .notified := by
    intro hpc
    unfold Member.notify at hpc ⊢
    by_cases hwatching : m.watching = true
    · rw [if_pos hwatching]
      exact Or.inl rfl
    · rw [if_neg hwatching] at hpc ⊢
      exact (h hpc).resolve_left hwatching
  constructor
  · intro hpc
    exact Or.inr (hnotify hpc)
  · intro _ hb
    rcases hnotify (hinv.notify.started hb) with he | hw
    · exact Or.inl he
    · right
      rw [hw]
      trivial

/-! ## Steps of the server itself -/

theorem startUp_watched {i : ℕ} {r r' : Registry} {m m' : Member} (h : m.Watched)
    (hstep : startUp i r m = some (r', m')) : m'.Watched ∧ m'.event = m.event ∧
      m'.watcher = m.watcher := by
  cases startUp_cases hstep with
  | connect => exact ⟨fun _ => Or.inl rfl, rfl, rfl⟩
  | fail hpc =>
    refine ⟨fun _ => h ?_, rfl, rfl⟩
    rcases hpc with ⟨hpc, -⟩ | ⟨hpc | hpc, -⟩ <;> simp [hpc]
  | findPrimary hpc | missPrimary hpc | createPrimary hpc | becomePrimary hpc | missBackup hpc
  | createBackup hpc | becomeBackup hpc | serve hpc =>
    exact ⟨fun _ => h (by simp [hpc]), rfl, rfl⟩

theorem childrenWatcher_watched {i : ℕ} {r r' : Registry} {m m' : Member} (h : m.Watched)
    (hstep : childrenWatcher i r m = some (r', m')) : m'.Watched := by
  -- the thread is elsewhere, so that the watch is set or an event waits
  have hkeep : m.watcher ≠ .notified → m.startUp ≠ .connecting →
      m.watching = true ∨ m.event = true := by
    intro hw hpc
    exact (h hpc).imp_right fun he => he.resolve_right hw
  cases childrenWatcher_cases hstep with
  | deliver => exact fun _ => Or.inr (Or.inr rfl)
  | rearm => exact fun _ => Or.inl rfl
  | leave hpc =>
    have hw : m.watcher ≠ .notified := by
      rcases hpc with ⟨hpc | ⟨_, hpc⟩, -⟩ | ⟨hpc | hpc | hpc, -⟩ <;> simp [hpc]
    exact fun hpc => (hkeep hw hpc).imp_right Or.inl
  | ignore hw | listen hw | missPrimary hw | findBackup hw | readAddress hw | create hw
  | promote hw | resign hw =>
    exact fun hpc => (hkeep (by simp [hw]) hpc).imp_right Or.inl

/-- A backup without a primary goes on to its promotion, unless it misses the event. -/
theorem childrenWatcher_informed {i : ℕ} {r : Registry} {m m' : Member} (hinv : m.Inv i r)
    (hmiss : ¬ (m.watcher = .rearmed ∧ m.startUp ≠ .serving ∧ m.event = false ∧
      r .primary = none ∧ r .backup = some ⟨m.address, i⟩))
    (hstep : childrenWatcher i r m = some (r, m')) : m'.Informed i r := by
  intro hp hb
  have hok := hinv.watcher
  obtain ⟨-, hclosed, hwhy⟩ := hinv.backupZnode _ hb
  obtain ⟨r', hr, hstep'⟩ : ∃ r', r' = r ∧ childrenWatcher i r m = some (r', m') :=
    ⟨r, rfl, hstep⟩
  cases childrenWatcher_cases hstep' with
  | deliver | rearm | listen | missPrimary | findBackup | readAddress => exact Or.inr trivial
  | ignore hpc hl =>
    left
    by_contra hevent
    refine hmiss ⟨hpc, fun hserving => hl ⟨hserving, ?_⟩, by simpa using hevent, hp, hb⟩
    -- in the main loop the owner of the backup znode is the backup
    rcases hwhy with hrole | hpc' | hpc'
    · exact hrole
    · exact absurd (hserving.symm.trans hpc') (by decide)
    · exact absurd (hpc.symm.trans hpc') (by decide)
  | create =>
    rw [← hr, Function.update_self] at hp
    exact absurd hp (by simp)
  | promote hpc =>
    rw [hpc] at hok
    exact absurd ((hok.2.2 hclosed).symm.trans hp) (by simp)
  | resign hpc =>
    rw [hpc] at hok
    exact absurd ((hinv.primary hok.2.1 hclosed).symm.trans hp) (by simp)
  | leave hpc =>
    rcases hpc with ⟨-, hprimary⟩ | ⟨-, hbackup⟩
    · exact absurd hp hprimary
    · exact absurd (hb.symm.trans hbackup) (by simp)

theorem memberStep_watched {i : ℕ} {r r' : Registry} {m m' : Member} {a : MemberAction}
    (h : m.Watched) (hstep : memberStep i r m a = some (r', m')) : m'.Watched := by
  cases a with
  | startUp => exact (startUp_watched h hstep).1
  | childrenWatcher => exact childrenWatcher_watched h hstep
  | endSession =>
    obtain ⟨-, rfl⟩ := Prod.mk.inj (Option.some.inj hstep)
    exact h

/-- Steps after which the same znodes exist leave them as they were, or end the session. -/
theorem RegistryStep.eq_of_not_changed {i : ℕ} {r r' : Registry} {m : Member} {a : MemberAction}
    (h : RegistryStep i r m a r') (hsame : ¬ ChildrenChanged r r') :
    r' = r ∨ a = .endSession := by
  unfold ChildrenChanged zkExists at hsame
  cases h with
  | same => exact Or.inl rfl
  | registerPrimary _ hnone => simp [hnone] at hsame
  | registerBackup _ hnone => simp [hnone] at hsame
  | promote _ hnone => simp [hnone] at hsame
  | resign _ hb => simp [hb] at hsame
  | endSession => exact Or.inr rfl

/-- While the same znodes exist, a server that was informed stays so. -/
theorem memberStep_informed {i : ℕ} {r r' : Registry} {m m' : Member} {a : MemberAction}
    (hinv : m.Inv i r) (hclosed : m.closed = false) (h : m.Alert i r)
    (hmiss : ¬ (a = .childrenWatcher ∧ m.watcher = .rearmed ∧ m.startUp ≠ .serving ∧
      m.event = false ∧ r .primary = none ∧ r .backup = some ⟨m.address, i⟩))
    (hstep : memberStep i r m a = some (r', m')) (hsame : ¬ ChildrenChanged r r') :
    m'.Informed i r' := by
  have hregistry := (memberStep_registry hinv.holds hclosed hstep).eq_of_not_changed hsame
  cases a with
  | startUp =>
    obtain rfl := hregistry.resolve_right (by decide)
    obtain ⟨-, he, hw⟩ := startUp_watched h.watched hstep
    intro hp hb
    rw [memberStep_address hstep] at hb
    rw [he, hw]
    exact h.informed hp hb
  | childrenWatcher =>
    obtain rfl := hregistry.resolve_right (by decide)
    exact childrenWatcher_informed hinv (fun hm => hmiss ⟨rfl, hm⟩) hstep
  | endSession =>
    obtain ⟨rfl, -⟩ := Prod.mk.inj (Option.some.inj hstep)
    intro _ hb
    have howner := (Option.filter_eq_some_iff.1 hb).2
    simp at howner

/-! ## All servers -/

structure MembershipAlert (s : Membership) : Prop where
  inv : MembershipInv s
  alert : ∀ i, (s.members i).Alert i s.registry

theorem membershipInit_alert (address : ℕ → ℕ) : MembershipAlert (membershipInit address) where
  inv := membershipInit_inv address
  alert := fun _ => ⟨fun hpc => absurd rfl hpc, fun _ hb => absurd hb (by simp [membershipInit])⟩

theorem MembershipAlert.step {s s' : Membership} {x : ℕ × MemberAction}
    (hmiss : ¬ MissesEvent s x) (h : MembershipAlert s) (hstep : memberActionStep s x = some s') :
    MembershipAlert s' := by
  have hinv := membershipStep_inv h.inv hstep
  rcases membershipStep_some hstep with ⟨m, hclosed, hmember, hall⟩
  refine ⟨hinv, fun j => ?_⟩
  have hinvj := hinv j
  rw [hall j] at hinvj ⊢
  have hwatched : (Function.update s.members x.1 m j).Watched := by
    by_cases hji : j = x.1
    · rw [hji, Function.update_self]
      exact memberStep_watched (h.alert x.1).watched hmember
    · rw [Function.update_of_ne hji]
      exact (h.alert j).watched
  obtain ⟨hinvm, htouched⟩ := memberStep_inv (h.inv x.1) hclosed hmember
  have hinvm' : (Function.update s.members x.1 m j).Inv j s'.registry := by
    by_cases hji : j = x.1
    · subst hji
      rw [Function.update_self]
      exact hinvm
    · rw [Function.update_of_ne hji]
      exact (h.inv j).frame hji htouched
  split_ifs with hchanged
  · exact hwatched.notify hinvm'
  · refine ⟨hwatched, ?_⟩
    by_cases hji : j = x.1
    · subst hji
      rw [Function.update_self]
      exact memberStep_informed (h.inv _) hclosed (h.alert _) hmiss hmember hchanged
    · rw [Function.update_of_ne hji]
      intro hp hb
      -- the same znodes exist, and this server's are untouched
      apply (h.alert j).informed
      · by_contra hp'
        apply hchanged
        left
        rw [zkExists, zkExists, hp, Option.isSome_iff_ne_none.2 hp']
        decide
      · exact ((htouched .backup).eq_of_owner hji _).1 hb

/-- **No lost promotion.** However start-ups, ends of sessions and deliveries of events are
interleaved: if no server misses an event, then in every state of the run where no event is
under way and no live server is starting or updating the roles, a backup implies a primary. -/
theorem promotion_not_lost {address : ℕ → ℕ} {actions : List (ℕ × MemberAction)}
    {s : Membership} (h : run memberActionStep (membershipInit address) actions = some s)
    (hmeet : StepsMeet memberActionStep (fun s x => ¬ MissesEvent s x) (membershipInit address)
      actions)
    (hquiescent : s.Quiescent) (hbackup : zkExists s.registry .backup = true) :
    zkExists s.registry .primary = true := by
  have halert : MembershipAlert s :=
    run_invariant_of_meet (fun _ _ _ => MembershipAlert.step) (membershipInit_alert address) hmeet h
  obtain ⟨⟨d, i⟩, hb⟩ := Option.isSome_iff_exists.1 hbackup
  obtain ⟨rfl, hclosed, -⟩ := (halert.inv i).backupZnode d hb
  obtain ⟨hevent, hidle, -⟩ := hquiescent _ hclosed
  by_contra hprimary
  have hp : s.registry .primary = none := by
    rw [zkExists, Option.isSome_iff_ne_none, not_not] at hprimary
    exact hprimary
  rcases (halert.alert _).informed hp hb with he | hw
  · rw [hevent] at he
    exact absurd he (by decide)
  · rw [hidle] at hw
    exact hw

/-- Servers that do nothing are as they were. -/
theorem members_of_no_action {address : ℕ → ℕ} {actions : List (ℕ × MemberAction)}
    {s : Membership} {i : ℕ} (h : run memberActionStep (membershipInit address) actions = some s)
    (hi : ∀ x ∈ actions, x.1 ≠ i) : s.members i = memberInit (address i) := by
  have hstep : ∀ s x s', x.1 ≠ i → s.members i = memberInit (address i) →
      memberActionStep s x = some s' → s'.members i = memberInit (address i) := by
    intro s x s' hx hs hstep
    rcases membershipStep_some hstep with ⟨m, -, -, hall⟩
    rw [hall i, Function.update_of_ne hx.symm, hs]
    split_ifs <;> rfl
  exact run_invariant_of_meet (P := fun s => s.members i = memberInit (address i)) hstep rfl
    (StepsMeet.of_forall fun x hx _ => hi x hx) h

theorem quiescent_of_below {address : ℕ → ℕ} {n : ℕ} {actions : List (ℕ × MemberAction)}
    {s : Membership} (h : run memberActionStep (membershipInit address) actions = some s)
    (hn : ∀ x ∈ actions, x.1 < n)
    (hbelow : ∀ i < n, (s.members i).Quiescent) : s.Quiescent := by
  intro i
  rcases Nat.lt_or_ge i n with hi | hi
  · exact hbelow i hi
  · rw [members_of_no_action h fun x hx => by have := hn x hx; omega]
    exact fun _ => ⟨rfl, rfl, Or.inl rfl⟩

/-- Server 0 is the primary and server 1 the backup. Server 0 ends, server 1 is promoted, and
server 2 becomes the backup. -/
def promotionThenBackup : List (ℕ × MemberAction) :=
  List.replicate 5 (0, .startUp) ++ List.replicate 6 (1, .startUp) ++ [(0, .endSession)] ++
    List.replicate 12 (1, .childrenWatcher) ++ List.replicate 6 (2, .startUp) ++
    List.replicate 3 (1, .childrenWatcher) ++ List.replicate 4 (2, .childrenWatcher)

theorem promotion_not_lost_replaced :
    ∃ s ∈ run memberActionStep (membershipInit id) promotionThenBackup,
      s.Quiescent ∧ zkExists s.registry .backup = true ∧ zkExists s.registry .primary = true := by
  have hrun : ∃ s ∈ run memberActionStep (membershipInit id) promotionThenBackup,
      zkExists s.registry .backup = true ∧
      ∀ i < 3, (s.members i).Quiescent := by
    decide +kernel
  have hmeet : StepsMeet memberActionStep (fun s x => ¬ MissesEvent s x) (membershipInit id)
      promotionThenBackup := by
    decide +kernel
  rcases hrun with ⟨s, hs, hbackup, hbelow⟩
  have hquiescent := quiescent_of_below hs (by decide) hbelow
  exact ⟨s, hs, hquiescent, hbackup, promotion_not_lost hs hmeet hquiescent hbackup⟩

/-- Server 1 has created the backup znode when server 0, the primary, ends; it hears of that
before it has installed its listener. -/
def missedPromotion : List (ℕ × MemberAction) :=
  List.replicate 5 (0, .startUp) ++ List.replicate 4 (1, .startUp) ++ [(0, .endSession)] ++
    List.replicate 3 (1, .childrenWatcher) ++ List.replicate 2 (1, .startUp)

theorem promotion_lost : ∃ s ∈ run memberActionStep (membershipInit id) missedPromotion,
    s.Quiescent ∧ zkExists s.registry .backup = true ∧ zkExists s.registry .primary = false := by
  have hrun : ∃ s ∈ run memberActionStep (membershipInit id) missedPromotion,
      (zkExists s.registry .backup = true ∧ zkExists s.registry .primary = false) ∧
      ∀ i < 2, (s.members i).Quiescent := by
    decide +kernel
  rcases hrun with ⟨s, hs, hznodes, hbelow⟩
  exact ⟨s, hs, quiescent_of_below hs (by decide) hbelow, hznodes⟩

end ReplicatedTree
