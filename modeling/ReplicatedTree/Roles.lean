import ReplicatedTree.RegistryTheorems
import ReplicatedTree.Lib.Transition

/-!
# One server in each role (`zk-private.c`)

The steps of `Registry`, and besides them calls to ZooKeeper that fail for a reason of their
own, with or without effect. Calls that fail leave znodes behind which no server answers for,
so `Member.Inv` is too much here; what remains is `Member.Holds`: a server with a role, or on
its way to one, owns the znode of that role.
-/

namespace ReplicatedTree

open Transition

/-! ## Calls that fail -/

/-- What is in the store after a call that failed: `done` says whether it took effect. -/
def Registry.afterFailure (r : Registry) (done : Bool) (call : Option Registry) : Registry :=
  if done then call.getD r else r

/-- The call that `main` makes next fails. -/
def startUpFails (done : Bool) (i : ℕ) (r : Registry) (m : Member) :
    Option (Registry × Member) :=
  match m.startUp with
  | .connecting => some (r, { m with watching := m.watching || done, startUp := .connected })
  | .connected => some (r, { m with startUp := .hasPrimary })
  | .noPrimary =>
    some (r.afterFailure done (zkCreate r .primary ⟨m.address, i⟩), { m with startUp := .failed })
  | .hasPrimary => some (r, { m with startUp := .failed })
  | .noBackup =>
    some (r.afterFailure done (zkCreate r .backup ⟨m.address, i⟩), { m with startUp := .failed })
  | .primaryCreated | .backupCreated | .registered | .serving | .failed => none

/-- The call that `zk_children_watcher` makes next fails. -/
def childrenWatcherFails (done : Bool) (i : ℕ) (r : Registry) (m : Member) :
    Option (Registry × Member) :=
  match m.watcher with
  | .notified => some (r, { m with watching := m.watching || done, watcher := .rearmed })
  | .updating | .primaryGone | .backupFound => some (r, { m with watcher := .idle })
  | .addressRead newPrimary =>
    some (r.afterFailure done (zkCreate r .primary ⟨newPrimary, i⟩), { m with watcher := .idle })
  | .promoted =>
    some (r.afterFailure done (zooDelete r .backup), { m with watcher := .idle })
  | .idle | .rearmed | .created => none

inductive RoleAction
  | step (a : MemberAction)
  | startUpFails (done : Bool)
  | childrenWatcherFails (done : Bool)
deriving DecidableEq

def RoleAction.exec (i : ℕ) (r : Registry) (m : Member) :
    RoleAction → Option (Registry × Member)
  | .step a => memberStep i r m a
  | .startUpFails done => ReplicatedTree.startUpFails done i r m
  | .childrenWatcherFails done => ReplicatedTree.childrenWatcherFails done i r m

/-- An action of a server; all watches go off when the znodes have changed. -/
def roleStep (s : Membership) (x : ℕ × RoleAction) : Option Membership :=
  if (s.members x.1).closed then none
  else
    (x.2.exec x.1 s.registry (s.members x.1)).map fun (r, m) =>
      let members := Function.update s.members x.1 m
      ⟨r, if ChildrenChanged s.registry r then fun j => (members j).notify else members⟩

/-- Where no call fails, these are the steps of `Registry`. -/
theorem roleStep_step (s : Membership) (i : ℕ) (a : MemberAction) :
    roleStep s (i, .step a) = membershipStep s i a := rfl

/-! ## What a server with a role owns -/

def RolesInv (s : Membership) : Prop := ∀ i, (s.members i).Holds i s.registry

theorem membershipInit_roles (address : ℕ → ℕ) : RolesInv (membershipInit address) :=
  fun i => (memberInit_inv (address i) i).holds

/-! ## One step -/

theorem zkCreate_some {r r' : Registry} {path : ZnodePath} {z : Znode}
    (h : zkCreate r path z = some r') :
    r path = none ∧ r' = Function.update r path (some z) := by
  unfold zkCreate at h
  split_ifs at h with hx
  exact ⟨by simpa [zkExists] using hx, (Option.some.inj h).symm⟩

theorem zooDelete_some {r r' : Registry} {path : ZnodePath} (h : zooDelete r path = some r') :
    r' = Function.update r path none := by
  unfold zooDelete at h
  split_ifs at h
  exact (Option.some.inj h).symm

theorem Registry.afterFailure_eq (r : Registry) (done : Bool) (call : Option Registry) :
    r.afterFailure done call = r ∨ call = some (r.afterFailure done call) := by
  unfold Registry.afterFailure
  cases done with
  | false => exact Or.inl rfl
  | true =>
    cases call with
    | none => exact Or.inl rfl
    | some r' => exact Or.inr rfl

theorem afterFailure_keepsOwn (r : Registry) (done : Bool) (path : ZnodePath) (z : Znode)
    (i : ℕ) : KeepsOwn i r (r.afterFailure done (zkCreate r path z)) := by
  rcases r.afterFailure_eq done (zkCreate r path z) with heq | heq
  · rw [heq]
    exact KeepsOwn.refl i r
  · obtain ⟨hnone, hr⟩ := zkCreate_some heq
    rw [hr]
    exact KeepsOwn.create hnone z i

theorem startUpFails_holds {done : Bool} {i : ℕ} {r r' : Registry} {m m' : Member}
    (h : m.Holds i r) (hstep : startUpFails done i r m = some (r', m')) : m'.Holds i r' := by
  have hok := h.startUp
  unfold startUpFails at hstep
  cases hs : m.startUp with
  | connecting | connected | hasPrimary =>
    rw [hs] at hstep hok
    obtain ⟨rfl, rfl⟩ := Prod.mk.inj (Option.some.inj hstep)
    exact h.goOn _ (by simp [hs]) hok
  | noPrimary | noBackup =>
    rw [hs] at hstep hok
    obtain ⟨rfl, rfl⟩ := Prod.mk.inj (Option.some.inj hstep)
    exact (h.keepsOwn (afterFailure_keepsOwn r done _ _ i)).goOn m.watching (by simp [hs]) hok
  | primaryCreated | backupCreated | registered | serving | failed =>
    rw [hs] at hstep
    exact absurd hstep (by simp)

theorem childrenWatcherFails_holds {done : Bool} {i : ℕ} {r r' : Registry} {m m' : Member}
    (h : m.Holds i r) (hstep : childrenWatcherFails done i r m = some (r', m')) :
    m'.Holds i r' := by
  unfold childrenWatcherFails at hstep
  cases hw : m.watcher with
  | notified | updating | primaryGone | backupFound =>
    rw [hw] at hstep
    obtain ⟨rfl, rfl⟩ := Prod.mk.inj (Option.some.inj hstep)
    exact h.watch _ m.event trivial
  | addressRead newPrimary =>
    rw [hw] at hstep
    obtain ⟨rfl, rfl⟩ := Prod.mk.inj (Option.some.inj hstep)
    exact (h.keepsOwn (afterFailure_keepsOwn r done _ _ i)).watch m.watching m.event trivial
  | promoted =>
    rw [hw] at hstep
    obtain ⟨rfl, rfl⟩ := Prod.mk.inj (Option.some.inj hstep)
    apply h.resign hw
    exact (r.afterFailure_eq done _).imp_right zooDelete_some
  | idle | rearmed | created =>
    rw [hw] at hstep
    exact absurd hstep (by simp)

theorem RoleAction.exec_holds {i : ℕ} {r r' : Registry} {m m' : Member} {a : RoleAction}
    (h : m.Holds i r) (hclosed : m.closed = false) (hstep : a.exec i r m = some (r', m')) :
    m'.Holds i r' := by
  cases a with
  | step a => exact memberStep_holds h hclosed hstep
  | startUpFails done => exact startUpFails_holds h hstep
  | childrenWatcherFails done => exact childrenWatcherFails_holds h hstep

/-! ## What happens to the znodes of the others -/

theorem afterFailure_touched (r : Registry) (done : Bool) (path : ZnodePath) (d i : ℕ)
    (p : ZnodePath) : Touched i (r p) (r.afterFailure done (zkCreate r path ⟨d, i⟩) p) := by
  rcases r.afterFailure_eq done (zkCreate r path ⟨d, i⟩) with heq | heq
  · rw [heq]
    exact Touched.refl i _
  · obtain ⟨hnone, hr⟩ := zkCreate_some heq
    rw [hr]
    exact Touched.update (by simp [hnone]) (by simp) p

theorem startUpFails_touched {done : Bool} {i : ℕ} {r r' : Registry} {m m' : Member}
    (hstep : startUpFails done i r m = some (r', m')) (p : ZnodePath) :
    Touched i (r p) (r' p) := by
  unfold startUpFails at hstep
  split at hstep
  case h_3 | h_5 =>
    obtain ⟨rfl, -⟩ := Prod.mk.inj (Option.some.inj hstep)
    exact afterFailure_touched r done _ m.address i p
  case h_6 | h_7 | h_8 | h_9 | h_10 => exact absurd hstep (by simp)
  all_goals
    obtain ⟨rfl, -⟩ := Prod.mk.inj (Option.some.inj hstep)
    exact Touched.refl i _

/-- A server that was promoted finds its own backup znode. -/
theorem childrenWatcherFails_touched {done : Bool} {i : ℕ} {r r' : Registry} {m m' : Member}
    (h : m.Holds i r) (hclosed : m.closed = false)
    (hstep : childrenWatcherFails done i r m = some (r', m')) (p : ZnodePath) :
    Touched i (r p) (r' p) := by
  have hok := h.watcher
  unfold childrenWatcherFails at hstep
  split at hstep
  case h_5 newPrimary hpc =>
    obtain ⟨rfl, -⟩ := Prod.mk.inj (Option.some.inj hstep)
    exact afterFailure_touched r done _ newPrimary i p
  case h_6 hpc =>
    rw [hpc] at hok
    obtain ⟨rfl, -⟩ := Prod.mk.inj (Option.some.inj hstep)
    rcases r.afterFailure_eq done (zooDelete r .backup) with heq | heq
    · rw [heq]
      exact Touched.refl i _
    · rw [zooDelete_some heq]
      have hstep : RegistryStep i r m _ _ :=
        .resign (h.primary hok.2.1 hclosed) (hok.2.2 hclosed)
      exact hstep.touched p
  case h_7 | h_8 | h_9 => exact absurd hstep (by simp)
  all_goals
    obtain ⟨rfl, -⟩ := Prod.mk.inj (Option.some.inj hstep)
    exact Touched.refl i _

theorem RoleAction.exec_touched {i : ℕ} {r r' : Registry} {m m' : Member} {a : RoleAction}
    (h : m.Holds i r) (hclosed : m.closed = false) (hstep : a.exec i r m = some (r', m'))
    (p : ZnodePath) : Touched i (r p) (r' p) := by
  cases a with
  | step a => exact (memberStep_registry h hclosed hstep).touched p
  | startUpFails done => exact startUpFails_touched hstep p
  | childrenWatcherFails done => exact childrenWatcherFails_touched h hclosed hstep p

theorem Member.Holds.frame {i j : ℕ} {r r' : Registry} {m : Member} (h : m.Holds j r)
    (hij : j ≠ i) (ht : ∀ p, Touched i (r p) (r' p)) : m.Holds j r' :=
  h.keepsOwn (KeepsOwn.of_touched hij ht)

theorem roleStep_cases {s s' : Membership} {x : ℕ × RoleAction} (hstep : roleStep s x = some s') :
    ∃ m, (s.members x.1).closed = false ∧
      x.2.exec x.1 s.registry (s.members x.1) = some (s'.registry, m) ∧
      ∀ j, s'.members j = Function.update s.members x.1 m j ∨
        s'.members j = (Function.update s.members x.1 m j).notify := by
  unfold roleStep at hstep
  split_ifs at hstep with hclosed
  obtain ⟨⟨r, m⟩, hmember, rfl⟩ := Option.map_eq_some_iff.1 hstep
  refine ⟨m, by simpa using hclosed, hmember, ?_⟩
  intro j
  dsimp only
  split_ifs
  · exact Or.inr rfl
  · exact Or.inl rfl

theorem roleStep_roles {s s' : Membership} {x : ℕ × RoleAction} (h : RolesInv s)
    (hstep : roleStep s x = some s') : RolesInv s' := by
  rcases roleStep_cases hstep with ⟨m, hclosed, hexec, hall⟩
  intro j
  have hj : (Function.update s.members x.1 m j).Holds j s'.registry := by
    by_cases hji : j = x.1
    · subst hji
      rw [Function.update_self]
      exact RoleAction.exec_holds (h _) hclosed hexec
    · rw [Function.update_of_ne hji]
      exact (h j).frame hji (RoleAction.exec_touched (h _) hclosed hexec)
  rcases hall j with heq | heq
  · rw [heq]
    exact hj
  · rw [heq]
    exact hj.notify

/-- A server that is live and has the role. -/
def Membership.HasRole (s : Membership) (role : ServerRole) (i : ℕ) : Prop :=
  (s.members i).closed = false ∧ (s.members i).role = role

instance (s : Membership) (role : ServerRole) (i : ℕ) : Decidable (s.HasRole role i) :=
  inferInstanceAs (Decidable (_ ∧ _))

/-! ## Addresses -/

theorem RoleAction.exec_address {i : ℕ} {r r' : Registry} {m m' : Member} {a : RoleAction}
    (hstep : a.exec i r m = some (r', m')) : m'.address = m.address := by
  cases a with
  | step a => exact memberStep_address hstep
  | startUpFails done =>
    dsimp only [RoleAction.exec] at hstep
    unfold ReplicatedTree.startUpFails at hstep
    split at hstep
    case h_6 | h_7 | h_8 | h_9 | h_10 => exact absurd hstep (by simp)
    all_goals
      obtain ⟨-, rfl⟩ := Prod.mk.inj (Option.some.inj hstep)
      rfl
  | childrenWatcherFails done =>
    dsimp only [RoleAction.exec] at hstep
    unfold ReplicatedTree.childrenWatcherFails at hstep
    split at hstep
    case h_7 | h_8 | h_9 => exact absurd hstep (by simp)
    all_goals
      obtain ⟨-, rfl⟩ := Prod.mk.inj (Option.some.inj hstep)
      rfl

theorem Member.notify_address (m : Member) : m.notify.address = m.address :=
  m.same_notify.address_eq

/-- A server keeps the address that it started with. -/
theorem address_of_run {address : ℕ → ℕ} {actions : List (ℕ × RoleAction)} {s : Membership}
    (h : run roleStep (membershipInit address) actions = some s) (i : ℕ) :
    (s.members i).address = address i := by
  refine run_invariant (P := fun s => (s.members i).address = address i) ?_ rfl h
  intro s x s' hs hstep
  rcases roleStep_cases hstep with ⟨m, -, hexec, hall⟩
  have hi : (Function.update s.members x.1 m i).address = address i := by
    by_cases hix : i = x.1
    · subst hix
      rw [Function.update_self, RoleAction.exec_address hexec]
      exact hs
    · rw [Function.update_of_ne hix]
      exact hs
  rcases hall i with heq | heq
  · rw [heq]
    exact hi
  · rw [heq, Member.notify_address]
    exact hi

/-! ## Role exclusion -/

theorem RolesInv.unique {s : Membership} (h : RolesInv s) {i j : ℕ} {role : ServerRole}
    (hrole : role ≠ .none) (hi : s.HasRole role i) (hj : s.HasRole role j) : i = j := by
  cases role with
  | none => exact absurd rfl hrole
  | primary =>
    have heq := ((h i).primary hi.2 hi.1).symm.trans ((h j).primary hj.2 hj.1)
    exact (Znode.mk.inj (Option.some.inj heq)).2
  | backup =>
    have heq := ((h i).backup hi.2 hi.1).symm.trans ((h j).backup hj.2 hj.1)
    exact (Znode.mk.inj (Option.some.inj heq)).2

/-- **Role exclusion.** Whatever addresses the servers have, whatever the order of their calls,
whichever of them fail and whenever servers end: at most one live server is the primary and at
most one the backup, the primary znode holds the address of the primary if there is one, and no
step of a server removes the backup znode of another. -/
theorem roles_exclusive {address : ℕ → ℕ} {actions : List (ℕ × RoleAction)} {s : Membership}
    (h : run roleStep (membershipInit address) actions = some s) :
    (∀ i j, s.HasRole .primary i → s.HasRole .primary j → i = j) ∧
      (∀ i j, s.HasRole .backup i → s.HasRole .backup j → i = j) ∧
      (∀ i, s.HasRole .primary i → zooGet s.registry .primary = some (address i)) ∧
      ∀ x s' z, roleStep s x = some s' → s.registry .backup = some z → z.owner ≠ x.1 →
        s'.registry .backup = some z := by
  have hinv : RolesInv s := 
    run_invariant (fun _ _ _ => roleStep_roles) (membershipInit_roles address) h
  refine ⟨fun i j => hinv.unique (by decide), fun i j => hinv.unique (by decide), ?_, ?_⟩
  · intro i hi
    rw [zooGet, (hinv i).primary hi.2 hi.1, ← address_of_run h i]
    rfl
  · intro x s' z hstep hz howner
    rcases roleStep_cases hstep with ⟨m, hclosed, hexec, -⟩
    have ht := RoleAction.exec_touched (hinv _) hclosed hexec .backup
    exact (ht.eq_of_owner howner z.data).2 hz

/-- Two servers start, the primary ends and the other is promoted; its last call, which is to
remove the backup znode, fails. -/
def promotionWithFailure : List (ℕ × RoleAction) :=
  List.replicate 5 (0, .step .startUp) ++ List.replicate 6 (1, .step .startUp) ++
    [(0, .step .endSession)] ++ List.replicate 8 (1, .step .childrenWatcher) ++
    [(1, .childrenWatcherFails false)]

theorem roles_exclusive_promotion : ∃ s ∈ run roleStep (membershipInit id) promotionWithFailure,
    s.HasRole .primary 1 ∧ (∀ i, s.HasRole .primary i → i = 1) ∧
      zooGet s.registry .primary = some 1 := by
  have hrun : ∃ s ∈ run roleStep (membershipInit id) promotionWithFailure,
      s.HasRole .primary 1 := by
    decide +kernel
  rcases hrun with ⟨s, hs, hprimary⟩
  have hexcl := roles_exclusive hs
  exact ⟨s, hs, hprimary, fun i hi => hexcl.1 i 1 hi hprimary, hexcl.2.2.1 1 hprimary⟩

end ReplicatedTree
