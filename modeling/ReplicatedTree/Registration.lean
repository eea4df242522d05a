import ReplicatedTree.RegistryTheorems
import ReplicatedTree.Lib.Transition

/-!
# Servers that register at the same time (`zk_register_tree_server`)

A server looks for a primary before it looks for a backup, and returns -1 if the znode that it
found missing exists when it creates it. So a server that has looked for a primary too early
does not become the backup any more, and the role of backup stays free unless some server has
looked after the primary znode was created (`registration_fills_iff`).
-/

namespace ReplicatedTree

open Transition

/-- Only the first `n` servers start, and none of them ends. -/
def joinStep (n : ℕ) (s : Membership) (x : ℕ × MemberAction) : Option Membership :=
  if x.1 < n ∧ x.2 ≠ .endSession then memberActionStep s x else none

/-- `zk_register_tree_server` has returned. -/
def StartUpPc.Returned (pc : StartUpPc) : Prop :=
  pc = .registered ∨ pc = .serving ∨ pc = .failed

instance (pc : StartUpPc) : Decidable pc.Returned := inferInstanceAs (Decidable (_ ∨ _))

/-- `zk_register_tree_server` has returned 0, and the server has the role. -/
def Member.RegisteredAs (m : Member) (role : ServerRole) : Prop :=
  (m.startUp = .registered ∨ m.startUp = .serving) ∧ m.role = role

/-- One of the first `n` servers is the primary, another one the backup, and all others were
turned down. -/
def FillsRoles (n : ℕ) (s : Membership) : Prop :=
  ∃ p < n, ∃ b < n, p ≠ b ∧ (s.members p).RegisteredAs .primary ∧
    (s.members b).RegisteredAs .backup ∧
    ∀ i < n, i ≠ p → i ≠ b → (s.members i).startUp = .failed

/-- A server looks for a primary, and there is one. -/
def FindsPrimary (s : Membership) (x : ℕ × MemberAction) : Prop :=
  x.2 = .startUp ∧ (s.members x.1).startUp = .connected ∧ zkExists s.registry .primary = true

instance (s : Membership) (x : ℕ × MemberAction) : Decidable (FindsPrimary s x) :=
  inferInstanceAs (Decidable (_ ∧ _))

/-! ## While no server ends -/

/-- The server has not found a primary, and has not been turned down. -/
def StartUpPc.Early : StartUpPc → Prop
  | .connecting | .connected | .noPrimary => True
  | _ => False

/-- The server is not about to promote itself. -/
def WatcherPc.Quiet : WatcherPc → Prop
  | .idle | .notified | .rearmed | .updating => True
  | _ => False

/-- Only the first `n` servers act and none of them ends. -/
structure Joining (n : ℕ) (s : Membership) : Prop where
  inv : MembershipInv s
  live : ∀ i, (s.members i).closed = false
  absent : ∀ i, n ≤ i → (s.members i).startUp = .connecting
  early : s.registry .primary = none → s.registry .backup = none ∧
    ∀ i, (s.members i).startUp.Early
  quiet : ∀ i, (s.members i).watcher.Quiet

theorem membershipInit_joining (address : ℕ → ℕ) (n : ℕ) :
    Joining n (membershipInit address) where
  inv := membershipInit_inv address
  live := fun _ => rfl
  absent := fun _ _ => rfl
  early := fun _ => ⟨rfl, fun _ => trivial⟩
  quiet := fun _ => trivial

/-- What a step of `main` does before a primary is found, and to the rest. -/
theorem startUp_early {i : ℕ} {r r' : Registry} {m m' : Member}
    (hstep : startUp i r m = some (r', m')) :
    m'.watcher = m.watcher ∧ m'.closed = m.closed ∧
      ((r .primary = none → m.startUp.Early) → r' .primary = none → m'.startUp.Early) := by
  cases startUp_cases hstep with
  | connect | missPrimary => exact ⟨rfl, rfl, fun _ _ => trivial⟩
  | findPrimary _ hx => exact ⟨rfl, rfl, fun _ hnone => absurd hnone hx⟩
  | createPrimary => exact ⟨rfl, rfl, fun _ hnone => absurd hnone (by simp)⟩
  | fail hpc =>
    refine ⟨rfl, rfl, fun he hnone => ?_⟩
    rcases hpc with ⟨-, hx⟩ | ⟨hpc | hpc, -⟩
    · exact absurd hnone hx
    all_goals
      have hearly := he hnone
      rw [hpc] at hearly
      exact hearly.elim
  | createBackup hpc =>
    refine ⟨rfl, rfl, fun he hnone => ?_⟩
    rw [Function.update_of_ne (by decide)] at hnone
    have hearly := he hnone
    rw [hpc] at hearly
    exact hearly.elim
  | becomePrimary hpc | missBackup hpc | becomeBackup hpc | serve hpc =>
    refine ⟨rfl, rfl, fun he hnone => ?_⟩
    have hearly := he hnone
    rw [hpc] at hearly
    exact hearly.elim

/-- A backup that finds the primary in its place changes nothing. -/
theorem childrenWatcher_quiet {i : ℕ} {r r' : Registry} {m m' : Member}
    (hquiet : m.watcher.Quiet) (hprimary : m.watcher = .updating → r .primary ≠ none)
    (hstep : childrenWatcher i r m = some (r', m')) :
    r' = r ∧ m'.watcher.Quiet ∧ m'.closed = m.closed ∧ m'.startUp = m.startUp ∧
      m'.role = m.role := by
  cases childrenWatcher_cases hstep with
  | deliver | rearm | ignore | listen | leave => exact ⟨rfl, trivial, rfl, rfl, rfl⟩
  | missPrimary hpc hx => exact absurd hx (hprimary hpc)
  | findBackup hpc | readAddress hpc | create hpc | promote hpc | resign hpc =>
    rw [hpc] at hquiet
    exact hquiet.elim

/-- A server that updates the roles is in its main loop, and then there is a primary. -/
theorem Joining.primary_of_updating {n : ℕ} {s : Membership} (h : Joining n s) {i : ℕ}
    (hw : (s.members i).watcher = .updating) : s.registry .primary ≠ none := by
  intro hnone
  have hok := (h.inv i).watcher
  have hearly := (h.early hnone).2 i
  rw [hw] at hok
  rw [hok.1] at hearly
  exact hearly

/-- Either `main` of a server makes a step, or nothing changes but where a library thread is. -/
inductive JoiningStep (s s' : Membership) (i : ℕ) (a : MemberAction) (m : Member) : Prop
  | startUp (ha : a = .startUp)
    (h : startUp i s.registry (s.members i) = some (s'.registry, m))
  | watcher (hregistry : s'.registry = s.registry) (hquiet : m.watcher.Quiet)
    (hclosed : m.closed = (s.members i).closed) (hstartUp : m.startUp = (s.members i).startUp)
    (hrole : m.role = (s.members i).role)

theorem Joining.step_cases {n : ℕ} {s s' : Membership} {x : ℕ × MemberAction} (h : Joining n s)
    (hx : x.2 ≠ .endSession) (hstep : memberActionStep s x = some s') :
    ∃ m, JoiningStep s s' x.1 x.2 m ∧
      ∀ j, (s'.members j).Same (Function.update s.members x.1 m j) := by
  rcases membershipStep_cases hstep with ⟨m, -, hmember, hall⟩
  refine ⟨m, ?_, fun j => (hall j).1⟩
  obtain ⟨i, a⟩ := x
  cases a with
  | startUp => exact .startUp rfl hmember
  | childrenWatcher =>
    obtain ⟨hr, hq, hc, hs, hrole⟩ :=
      childrenWatcher_quiet (h.quiet i) h.primary_of_updating hmember
    exact .watcher hr hq hc hs hrole
  | endSession => exact absurd rfl hx

theorem startUp_backup {i : ℕ} {r r' : Registry} {m m' : Member}
    (hstep : startUp i r m = some (r', m')) (hb : r .backup ≠ none) : r' .backup ≠ none := by
  cases startUp_registry hstep with
  | same => exact hb
  | registerPrimary => rwa [Function.update_of_ne (by decide)]
  | registerBackup => simp

theorem startUp_primary {i : ℕ} {r r' : Registry} {m m' : Member}
    (hstep : startUp i r m = some (r', m')) (hp : r' .primary = none) : r .primary = none := by
  cases startUp_registry hstep with
  | same => exact hp
  | registerPrimary => exact absurd hp (by simp)
  | registerBackup => rwa [Function.update_of_ne (by decide)] at hp

/-- Who creates the backup znode has found a primary. -/
theorem startUp_no_backup {i : ℕ} {r r' : Registry} {m m' : Member}
    (hstep : startUp i r m = some (r', m')) (he : r .primary = none → m.startUp.Early)
    (hnone : r' .primary = none) : r' .backup = r .backup := by
  cases startUp_registry hstep with
  | same => rfl
  | registerPrimary => exact absurd hnone (by simp)
  | registerBackup hpc =>
    rw [Function.update_of_ne (by decide)] at hnone
    have hearly := he hnone
    rw [hpc] at hearly
    exact hearly.elim

/-- A server that has found a primary finds a backup, or goes on to register as one. -/
theorem startUp_found {i : ℕ} {r r' : Registry} {m m' : Member}
    (hpc : m.startUp = .hasPrimary ∨ m.startUp = .noBackup)
    (hstep : startUp i r m = some (r', m')) : r' .backup ≠ none ∨ m'.startUp = .noBackup := by
  cases startUp_cases hstep with
  | missBackup => exact Or.inr rfl
  | createBackup => exact Or.inl (by simp)
  | fail hfail =>
    rcases hfail with ⟨hpc', -⟩ | ⟨-, hx⟩
    · simp [hpc'] at hpc
    · exact Or.inl hx
  | connect hpc' | findPrimary hpc' | missPrimary hpc' | createPrimary hpc' | becomePrimary hpc'
  | becomeBackup hpc' | serve hpc' => simp [hpc'] at hpc

theorem Joining.step {n : ℕ} {s s' : Membership} {x : ℕ × MemberAction} (h : Joining n s)
    (hn : x.1 < n) (hx : x.2 ≠ .endSession) (hstep : memberActionStep s x = some s') :
    Joining n s' := by
  rcases h.step_cases hx hstep with ⟨m, hcase, hsame⟩
  have hm : m.closed = false ∧ m.watcher.Quiet ∧
      (s'.registry .primary = none → s'.registry .backup = none ∧ m.startUp.Early ∧
        s.registry .primary = none) := by
    cases hcase with
    | startUp _ hs =>
      obtain ⟨hw, hc, he⟩ := startUp_early hs
      refine ⟨hc.trans (h.live _), by rw [hw]; exact h.quiet _, fun hnone => ?_⟩
      have hold := startUp_primary hs hnone
      obtain ⟨hb, hall⟩ := h.early hold
      refine ⟨?_, he (fun _ => hall _) hnone, hold⟩
      rw [startUp_no_backup hs (fun _ => hall _) hnone]
      exact hb
    | watcher hr hq hc hs hrole =>
      refine ⟨hc.trans (h.live _), hq, fun hnone => ?_⟩
      rw [hr] at hnone ⊢
      obtain ⟨hb, hall⟩ := h.early hnone
      exact ⟨hb, by rw [hs]; exact hall _, hnone⟩
  obtain ⟨hlive, hquiet, hearly⟩ := hm
  refine ⟨membershipStep_inv h.inv hstep, fun j => ?_, fun j hj => ?_, fun hnone => ?_,
    fun j => ?_⟩
  · rw [(hsame j).closed_eq]
    by_cases hji : j = x.1
    · rw [hji, Function.update_self]
      exact hlive
    · rw [Function.update_of_ne hji]
      exact h.live j
  · rw [(hsame j).startUp_eq, Function.update_of_ne (by omega)]
    exact h.absent j hj
  · obtain ⟨hb, hpc, hold⟩ := hearly hnone
    refine ⟨hb, fun j => ?_⟩
    rw [(hsame j).startUp_eq]
    by_cases hji : j = x.1
    · rw [hji, Function.update_self]
      exact hpc
    · rw [Function.update_of_ne hji]
      exact (h.early hold).2 j
  · rw [(hsame j).watcher_eq]
    by_cases hji : j = x.1
    · rw [hji, Function.update_self]
      exact hquiet
    · rw [Function.update_of_ne hji]
      exact h.quiet j

/-! ## Before and after a server finds a primary -/

/-- No server is the backup or on its way. -/
def NoneFound (s : Membership) : Prop :=
  ∀ i, (s.members i).role ≠ .backup ∧ (s.members i).startUp ≠ .hasPrimary ∧
    (s.members i).startUp ≠ .noBackup ∧ (s.members i).startUp ≠ .backupCreated

/-- There is a backup, or a server is about to register as one. -/
def SomeFound (s : Membership) : Prop :=
  s.registry .backup ≠ none ∨
    ∃ i, (s.members i).startUp = .hasPrimary ∨ (s.members i).startUp = .noBackup

theorem membershipInit_noneFound (address : ℕ → ℕ) : NoneFound (membershipInit address) :=
  fun i => by simp [membershipInit, memberInit]

theorem Joining.noneFound {n : ℕ} {s s' : Membership} {x : ℕ × MemberAction} (h : Joining n s)
    (hP : NoneFound s) (hx : x.2 ≠ .endSession) (hno : ¬ FindsPrimary s x)
    (hstep : memberActionStep s x = some s') : NoneFound s' := by
  rcases h.step_cases hx hstep with ⟨m, hcase, hsame⟩
  have hm : m.role ≠ .backup ∧ m.startUp ≠ .hasPrimary ∧ m.startUp ≠ .noBackup ∧
      m.startUp ≠ .backupCreated := by
    obtain ⟨hrole, hhas, hnob, hcre⟩ := hP x.1
    cases hcase with
    | watcher _ _ _ hs hr =>
      rw [hs, hr]
      exact ⟨hrole, hhas, hnob, hcre⟩
    | startUp ha hs =>
      generalize s'.registry = r' at hs
      cases startUp_cases hs with
      | findPrimary hpc hx => exact absurd ⟨ha, hpc, (zkExists_iff _ _).2 hx⟩ hno
      | missBackup hpc => exact absurd hpc hhas
      | createBackup hpc => exact absurd hpc hnob
      | becomeBackup hpc => exact absurd hpc hcre
      | becomePrimary => exact ⟨by simp, by simp⟩
      | connect | missPrimary | createPrimary | serve | fail => exact ⟨hrole, by simp⟩
  intro j
  rw [(hsame j).role_eq, (hsame j).startUp_eq]
  by_cases hji : j = x.1
  · rw [hji, Function.update_self]
    exact hm
  · rw [Function.update_of_ne hji]
    exact hP j

theorem someFound_of_finds {s s' : Membership} {x : ℕ × MemberAction} (hfinds : FindsPrimary s x)
    (hstep : memberActionStep s x = some s') : SomeFound s' := by
  obtain ⟨i, a⟩ := x
  obtain ⟨ha, hpc, hx⟩ := hfinds
  dsimp only at ha hpc
  subst ha
  rcases membershipStep_cases hstep with ⟨m, -, hmember, hall⟩
  have hs : startUp i s.registry (s.members i) = some (s'.registry, m) := hmember
  rw [startUp, hpc] at hs
  dsimp only at hs
  rw [if_pos hx] at hs
  obtain ⟨-, rfl⟩ := Prod.mk.inj (Option.some.inj hs)
  refine Or.inr ⟨i, Or.inl ?_⟩
  rw [(hall i).1.startUp_eq, Function.update_self]

theorem Joining.someFound {n : ℕ} {s s' : Membership} {x : ℕ × MemberAction} (h : Joining n s)
    (hQ : SomeFound s) (hx : x.2 ≠ .endSession) (hstep : memberActionStep s x = some s') :
    SomeFound s' := by
  rcases h.step_cases hx hstep with ⟨m, hcase, hsame⟩
  rcases hQ with hb | ⟨j, hj⟩
  · left
    cases hcase with
    | startUp _ hs => exact startUp_backup hs hb
    | watcher hr => rwa [hr]
  · by_cases hji : j = x.1
    · subst hji
      have hupdate := (hsame x.1).startUp_eq
      rw [Function.update_self] at hupdate
      cases hcase with
      | watcher _ _ _ hs => exact Or.inr ⟨x.1, by rw [hupdate, hs]; exact hj⟩
      | startUp _ hs =>
        rcases startUp_found hj hs with hb | hpc
        · exact Or.inl hb
        · exact Or.inr ⟨x.1, Or.inr (hupdate.trans hpc)⟩
    · refine Or.inr ⟨j, ?_⟩
      rw [(hsame j).startUp_eq, Function.update_of_ne hji]
      exact hj

/-! ## When all calls have returned -/

theorem Joining.role_of_returned {n : ℕ} {s : Membership} (h : Joining n s) {i : ℕ}
    (hret : (s.members i).startUp.Returned) (hrole : (s.members i).role ≠ .none) : i < n ∧
      ((s.members i).startUp = .registered ∨ (s.members i).startUp = .serving) := by
  have hok := (h.inv i).startUp
  constructor
  · by_contra hi
    have hpc := h.absent i (by omega)
    rw [hpc] at hret
    exact absurd hret (by decide)
  · rcases hret with hpc | hpc | hpc
    · exact Or.inl hpc
    · exact Or.inr hpc
    · rw [hpc] at hok
      exact absurd hok hrole

theorem Joining.fillsRoles {n : ℕ} {s : Membership} (h : Joining n s) (hQ : SomeFound s)
    (hret : ∀ i < n, (s.members i).startUp.Returned) : FillsRoles n s := by
  have habsent : ∀ i, (s.members i).startUp.Returned ∨ (s.members i).startUp = .connecting := by
    intro i
    rcases Nat.lt_or_ge i n with hi | hi
    · exact Or.inl (hret i hi)
    · exact Or.inr (h.absent i hi)
  -- so nobody stands in between
  have hnot : ∀ i pc, ¬pc.Returned → pc ≠ .connecting → (s.members i).startUp ≠ pc := by
    intro i pc hpc hne heq
    rcases habsent i with hr | hc
    · exact hpc (heq ▸ hr)
    · exact hne (heq.symm.trans hc)
  -- both znodes exist
  have hbackup : s.registry .backup ≠ none := by
    rcases hQ with hb | ⟨j, hj⟩
    · exact hb
    · rcases hj with hpc | hpc
      all_goals exact absurd hpc (hnot j _ (by decide) (by decide))
  have hprimary : s.registry .primary ≠ none := fun hnone => hbackup (h.early hnone).1
  obtain ⟨⟨dp, p⟩, hp⟩ := Option.ne_none_iff_exists'.1 hprimary
  obtain ⟨⟨db, b⟩, hb⟩ := Option.ne_none_iff_exists'.1 hbackup
  -- and their owners have returned with the roles
  have hprole : (s.members p).role = .primary := by
    rcases ((h.inv p).primaryZnode dp hp).2.2 with hr | hpc | hw
    · exact hr
    · exact absurd hpc (hnot p _ (by decide) (by decide))
    · have hq := h.quiet p
      rw [hw] at hq
      exact hq.elim
  have hbrole : (s.members b).role = .backup := by
    rcases ((h.inv b).backupZnode db hb).2.2 with hr | hpc | hw
    · exact hr
    · exact absurd hpc (hnot b _ (by decide) (by decide))
    · have hq := h.quiet b
      rw [hw] at hq
      exact hq.elim
  have hreturned : ∀ i, (s.members i).role ≠ .none → (s.members i).startUp.Returned := by
    intro i hrole
    rcases habsent i with hr | hc
    · exact hr
    · have hok := (h.inv i).startUp
      rw [hc] at hok
      exact absurd hok hrole
  obtain ⟨hpn, hpreg⟩ := h.role_of_returned (hreturned p (by simp [hprole])) (by simp [hprole])
  obtain ⟨hbn, hbreg⟩ := h.role_of_returned (hreturned b (by simp [hbrole])) (by simp [hbrole])
  refine ⟨p, hpn, b, hbn, ?_, ⟨hpreg, hprole⟩, ⟨hbreg, hbrole⟩, ?_⟩
  · rintro rfl
    exact absurd (hprole.symm.trans hbrole) (by decide)
  · intro i hi hip hib
    have hok := (h.inv i).startUp
    by_contra hfailed
    have hrole : (s.members i).role ≠ .none := by
      rcases hret i hi with hpc | hpc | hpc
      · rw [hpc] at hok
        exact hok
      · rw [hpc] at hok
        exact hok
      · exact absurd hpc hfailed
    cases hr : (s.members i).role with
    | none => exact hrole hr
    | primary =>
      have hz := (h.inv i).primary hr (h.live i)
      rw [hp] at hz
      exact hip (Znode.mk.inj (Option.some.inj hz)).2.symm
    | backup =>
      have hz := (h.inv i).backup hr (h.live i)
      rw [hb] at hz
      exact hib (Znode.mk.inj (Option.some.inj hz)).2.symm

theorem NoneFound.not_fillsRoles {n : ℕ} {s : Membership} (h : NoneFound s) :
    ¬ FillsRoles n s := by
  rintro ⟨_, _, b, _, _, _, hb, _⟩
  exact (h b).1 hb.2

theorem joinStep_some {n : ℕ} {s s' : Membership} {x : ℕ × MemberAction}
    (h : joinStep n s x = some s') :
    x.1 < n ∧ x.2 ≠ .endSession ∧ memberActionStep s x = some s' := by
  unfold joinStep at h
  split_ifs at h with hx
  exact ⟨hx.1, hx.2, h⟩

/-- **When concurrent registration fills both roles.** However `n` servers that start without
a primary and a backup interleave their calls, once all calls have returned one server is the
primary, another one is the backup and the rest got -1, if and only if some server looked for
a primary after the primary znode had been created. -/
theorem registration_fills_iff {address : ℕ → ℕ} {n : ℕ} {actions : List (ℕ × MemberAction)}
    {s : Membership} (h : run (joinStep n) (membershipInit address) actions = some s)
    (hret : ∀ i < n, (s.members i).startUp.Returned) :
    FillsRoles n s ↔ StepOccurs (joinStep n) FindsPrimary (membershipInit address) actions := by
  have hphases := @run_phases _ _ (joinStep n) FindsPrimary
    (fun s => Joining n s ∧ NoneFound s) (fun s => Joining n s ∧ SomeFound s)
    (fun s x s' hP hno hstep => by
      obtain ⟨hn, hx, hstep⟩ := joinStep_some hstep
      exact ⟨hP.1.step hn hx hstep, hP.1.noneFound hP.2 hx hno hstep⟩)
    (fun s x s' hP hfinds hstep => by
      obtain ⟨hn, hx, hstep⟩ := joinStep_some hstep
      exact ⟨hP.1.step hn hx hstep, someFound_of_finds hfinds hstep⟩)
    (fun s x s' hQ hstep => by
      obtain ⟨hn, hx, hstep⟩ := joinStep_some hstep
      exact ⟨hQ.1.step hn hx hstep, hQ.1.someFound hQ.2 hx hstep⟩)
    (membershipInit address) s actions
    ⟨membershipInit_joining address n, membershipInit_noneFound address⟩ h
  constructor
  · intro hfills
    by_contra hno
    exact (hphases.2 hno).2.not_fillsRoles hfills
  · intro hoccurs
    obtain ⟨hjoin, hsome⟩ := hphases.1 hoccurs
    exact hjoin.fillsRoles hsome hret

/-- One server after the other. -/
def registrationInTurn : List (ℕ × MemberAction) :=
  List.replicate 5 (0, .startUp) ++ List.replicate 6 (1, .startUp) ++
    List.replicate 3 (2, .startUp)

theorem registration_fills_inTurn : ∃ s ∈ run (joinStep 3) (membershipInit id) registrationInTurn,
    FillsRoles 3 s := by
  have hrun : ∃ s ∈ run (joinStep 3) (membershipInit id) registrationInTurn,
      ∀ i < 3, (s.members i).startUp.Returned := by
    decide +kernel
  have hoccurs : StepOccurs (joinStep 3) FindsPrimary (membershipInit id)
      registrationInTurn := by
    decide +kernel
  rcases hrun with ⟨s, hs, hret⟩
  exact ⟨s, hs, (registration_fills_iff hs hret).2 hoccurs⟩

/-- Two servers look for a primary before either of them registers: the slower one is turned
down, and no server is the backup. -/
theorem registration_leaves_backup_free : ∃ s ∈ run (joinStep 2) (membershipInit id)
    [(0, .startUp), (1, .startUp), (0, .startUp), (1, .startUp), (0, .startUp), (1, .startUp),
      (0, .startUp)],
    (∀ i < 2, (s.members i).startUp.Returned) ∧ (s.members 1).startUp = .failed ∧
      s.registry .backup = none ∧ ¬ FillsRoles 2 s := by
  have hrun : ∃ s ∈ run (joinStep 2) (membershipInit id)
      [(0, .startUp), (1, .startUp), (0, .startUp), (1, .startUp), (0, .startUp), (1, .startUp),
        (0, .startUp)],
      ((∀ i < 2, (s.members i).startUp.Returned) ∧ (s.members 1).startUp = .failed ∧
        s.registry .backup = none) ∧
        ∀ b < 2, (s.members b).role ≠ .backup := by
    decide +kernel
  rcases hrun with ⟨s, hs, ⟨hret, hfailed, hnone⟩, hrole⟩
  refine ⟨s, hs, hret, hfailed, hnone, ?_⟩
  rintro ⟨_, _, b, hb, _, _, hreg, _⟩
  exact hrole b hb hreg.2

end ReplicatedTree
