import ReplicatedTree.Registry

/-!
# Who owns which znode — theorems about `Registry`

A server's role, where its two threads stand and the znodes of its session are tied together
by `Member.Inv`. A server touches only znodes that do not exist or that are its own
(`memberStep_inv`), which is why the others keep their part of the invariant.
-/

namespace ReplicatedTree

/-! ## The invariant of one server -/

/-- The primary znode is this server's. -/
def OwnsPrimary (i : ℕ) (r : Registry) (m : Member) : Prop :=
  m.closed = false → r .primary = some ⟨m.address, i⟩

/-- The backup znode is this server's. -/
def OwnsBackup (i : ℕ) (r : Registry) (m : Member) : Prop :=
  m.closed = false → r .backup = some ⟨m.address, i⟩

def StartUpPc.Ok (i : ℕ) (r : Registry) (m : Member) : StartUpPc → Prop
  | .connecting | .connected | .noPrimary | .hasPrimary | .noBackup | .failed => m.role = .none
  | .primaryCreated => m.role = .none ∧ OwnsPrimary i r m
  | .backupCreated => m.role = .none ∧ OwnsBackup i r m
  | .registered | .serving => m.role ≠ .none

def WatcherPc.Ok (i : ℕ) (r : Registry) (m : Member) : WatcherPc → Prop
  | .idle | .notified | .rearmed => True
  | .updating | .primaryGone | .backupFound => m.startUp = .serving ∧ m.role = .backup
  | .addressRead newPrimary =>
    m.startUp = .serving ∧ m.role = .backup ∧ newPrimary = m.address
  | .created => m.startUp = .serving ∧ m.role = .backup ∧ OwnsPrimary i r m
  | .promoted => m.startUp = .serving ∧ m.role = .primary ∧ OwnsBackup i r m

structure Member.Inv (i : ℕ) (r : Registry) (m : Member) : Prop where
  primary : m.role = .primary → OwnsPrimary i r m
  backup : m.role = .backup → OwnsBackup i r m
  /-- a primary znode of this server says that it is the primary, or about to be -/
  primaryZnode : ∀ d, r .primary = some ⟨d, i⟩ → d = m.address ∧ m.closed = false ∧
    (m.role = .primary ∨ m.startUp = .primaryCreated ∨ m.watcher = .created)
  /-- a backup znode of this server says that it is the backup, or was just promoted -/
  backupZnode : ∀ d, r .backup = some ⟨d, i⟩ → d = m.address ∧ m.closed = false ∧
    (m.role = .backup ∨ m.startUp = .backupCreated ∨ m.watcher = .promoted)
  startUp : m.startUp.Ok i r m
  watcher : m.watcher.Ok i r m

def MembershipInv (s : Membership) : Prop := ∀ i, (s.members i).Inv i s.registry

/-- The part of the invariant that says what a server owns. -/
structure Member.Holds (i : ℕ) (r : Registry) (m : Member) : Prop where
  primary : m.role = .primary → OwnsPrimary i r m
  backup : m.role = .backup → OwnsBackup i r m
  startUp : m.startUp.Ok i r m
  watcher : m.watcher.Ok i r m

theorem Member.Inv.holds {i : ℕ} {r : Registry} {m : Member} (h : m.Inv i r) : m.Holds i r :=
  ⟨h.primary, h.backup, h.startUp, h.watcher⟩

theorem memberInit_inv (address i : ℕ) : (memberInit address).Inv i fun _ => none where
  primary := by
    intro h
    exact absurd h (by simp [memberInit])
  backup := by
    intro h
    exact absurd h (by simp [memberInit])
  primaryZnode := by simp
  backupZnode := by simp
  startUp := rfl
  watcher := trivial

theorem membershipInit_inv (address : ℕ → ℕ) : MembershipInv (membershipInit address) :=
  fun i => memberInit_inv (address i) i

/-! ## What a step does -/

/-- What `main` does next. -/
inductive StartUpStep (i : ℕ) (r : Registry) (m : Member) : Registry → Member → Prop
  | connect (hpc : m.startUp = .connecting) :
    StartUpStep i r m r { m with watching := true, startUp := .connected }
  | findPrimary (hpc : m.startUp = .connected) (hx : r .primary ≠ none) :
    StartUpStep i r m r { m with startUp := .hasPrimary }
  | missPrimary (hpc : m.startUp = .connected) (hx : r .primary = none) :
    StartUpStep i r m r { m with startUp := .noPrimary }
  | createPrimary (hpc : m.startUp = .noPrimary) (hx : r .primary = none) :
    StartUpStep i r m (Function.update r .primary (some ⟨m.address, i⟩))
      { m with startUp := .primaryCreated }
  | becomePrimary (hpc : m.startUp = .primaryCreated) :
    StartUpStep i r m r { m with role := .primary, startUp := .registered }
  | missBackup (hpc : m.startUp = .hasPrimary) (hx : r .backup = none) :
    StartUpStep i r m r { m with startUp := .noBackup }
  | createBackup (hpc : m.startUp = .noBackup) (hx : r .backup = none) :
    StartUpStep i r m (Function.update r .backup (some ⟨m.address, i⟩))
      { m with startUp := .backupCreated }
  | becomeBackup (hpc : m.startUp = .backupCreated) :
    StartUpStep i r m r { m with role := .backup, startUp := .registered }
  | serve (hpc : m.startUp = .registered) : StartUpStep i r m r { m with startUp := .serving }
  /-- the place is taken, or another server was faster -/
  | fail (hpc : m.startUp = .noPrimary ∧ r .primary ≠ none ∨
      (m.startUp = .hasPrimary ∨ m.startUp = .noBackup) ∧ r .backup ≠ none) :
    StartUpStep i r m r { m with startUp := .failed }

/-- What the thread of the library does next. -/
inductive WatcherStep (i : ℕ) (r : Registry) (m : Member) : Registry → Member → Prop
  | deliver (hpc : m.watcher = .idle) :
    WatcherStep i r m r { m with event := false, watcher := .notified }
  | rearm (hpc : m.watcher = .notified) :
    WatcherStep i r m r { m with watching := true, watcher := .rearmed }
  | ignore (hpc : m.watcher = .rearmed) (hl : ¬ (m.startUp = .serving ∧ m.role = .backup)) :
    WatcherStep i r m r { m with watcher := .idle }
  | listen (hpc : m.watcher = .rearmed) (hl : m.startUp = .serving ∧ m.role = .backup) :
    WatcherStep i r m r { m with watcher := .updating }
  | missPrimary (hpc : m.watcher = .updating) (hx : r .primary = none) :
    WatcherStep i r m r { m with watcher := .primaryGone }
  | findBackup (hpc : m.watcher = .primaryGone) (hx : r .backup ≠ none) :
    WatcherStep i r m r { m with watcher := .backupFound }
  | readAddress {z : Znode} (hpc : m.watcher = .backupFound) (hz : r .backup = some z) :
    WatcherStep i r m r { m with watcher := .addressRead z.data }
  | create {newPrimary : ℕ} (hpc : m.watcher = .addressRead newPrimary)
    (hx : r .primary = none) :
    WatcherStep i r m (Function.update r .primary (some ⟨newPrimary, i⟩))
      { m with watcher := .created }
  | promote (hpc : m.watcher = .created) :
    WatcherStep i r m r { m with
      role := if m.role = .backup then .primary else m.role
      watcher := .promoted }
  | resign (hpc : m.watcher = .promoted) (hx : r .backup ≠ none) :
    WatcherStep i r m (Function.update r .backup none) { m with watcher := .idle }
  /-- there is a primary, or no backup -/
  | leave (hpc : (m.watcher = .updating ∨ ∃ newPrimary, m.watcher = .addressRead newPrimary) ∧
        r .primary ≠ none ∨
      (m.watcher = .primaryGone ∨ m.watcher = .backupFound ∨ m.watcher = .promoted) ∧
        r .backup = none) :
    WatcherStep i r m r { m with watcher := .idle }

theorem zkExists_iff (r : Registry) (path : ZnodePath) :
    zkExists r path = true ↔ r path ≠ none := Option.isSome_iff_ne_none

theorem startUp_cases {i : ℕ} {r r' : Registry} {m m' : Member}
    (hstep : startUp i r m = some (r', m')) : StartUpStep i r m r' m' := by
  unfold startUp zkCreate at hstep
  simp only [zkExists_iff] at hstep
  cases hs : m.startUp with
  | connecting =>
    rw [hs] at hstep
    obtain ⟨rfl, rfl⟩ := Prod.mk.inj (Option.some.inj hstep)
    exact .connect hs
  | connected =>
    rw [hs] at hstep
    dsimp only at hstep
    split_ifs at hstep with hx
    · obtain ⟨rfl, rfl⟩ := Prod.mk.inj (Option.some.inj hstep)
      exact .findPrimary hs hx
    · obtain ⟨rfl, rfl⟩ := Prod.mk.inj (Option.some.inj hstep)
      exact .missPrimary hs (not_not.1 hx)
  | noPrimary =>
    -- the znode may exist by now, and then `zk_create` is refused
    rw [hs] at hstep
    dsimp only at hstep
    by_cases hx : r .primary = none
    · rw [if_neg (not_not.2 hx)] at hstep
      obtain ⟨rfl, rfl⟩ := Prod.mk.inj (Option.some.inj hstep)
      exact .createPrimary hs hx
    · rw [if_pos hx] at hstep
      obtain ⟨rfl, rfl⟩ := Prod.mk.inj (Option.some.inj hstep)
      exact .fail (Or.inl ⟨hs, hx⟩)
  | primaryCreated =>
    rw [hs] at hstep
    obtain ⟨rfl, rfl⟩ := Prod.mk.inj (Option.some.inj hstep)
    exact .becomePrimary hs
  | hasPrimary =>
    rw [hs] at hstep
    dsimp only at hstep
    split_ifs at hstep with hx
    · obtain ⟨rfl, rfl⟩ := Prod.mk.inj (Option.some.inj hstep)
      exact .fail (Or.inr ⟨Or.inl hs, hx⟩)
    · obtain ⟨rfl, rfl⟩ := Prod.mk.inj (Option.some.inj hstep)
      exact .missBackup hs (not_not.1 hx)
  | noBackup =>
    rw [hs] at hstep
    dsimp only at hstep
    by_cases hx : r .backup = none
    · rw [if_neg (not_not.2 hx)] at hstep
      obtain ⟨rfl, rfl⟩ := Prod.mk.inj (Option.some.inj hstep)
      exact .createBackup hs hx
    · rw [if_pos hx] at hstep
      obtain ⟨rfl, rfl⟩ := Prod.mk.inj (Option.some.inj hstep)
      exact .fail (Or.inr ⟨Or.inr hs, hx⟩)
  | backupCreated =>
    rw [hs] at hstep
    obtain ⟨rfl, rfl⟩ := Prod.mk.inj (Option.some.inj hstep)
    exact .becomeBackup hs
  | registered =>
    rw [hs] at hstep
    obtain ⟨rfl, rfl⟩ := Prod.mk.inj (Option.some.inj hstep)
    exact .serve hs
  | serving | failed =>
    rw [hs] at hstep
    exact absurd hstep (by simp)

theorem childrenWatcher_cases {i : ℕ} {r r' : Registry} {m m' : Member}
    (hstep : childrenWatcher i r m = some (r', m')) : WatcherStep i r m r' m' := by
  unfold childrenWatcher zkCreate zooGet zooDelete at hstep
  simp only [zkExists_iff] at hstep
  cases hw : m.watcher with
  | idle =>
    rw [hw] at hstep
    dsimp only at hstep
    split_ifs at hstep
    obtain ⟨rfl, rfl⟩ := Prod.mk.inj (Option.some.inj hstep)
    exact .deliver hw
  | notified =>
    rw [hw] at hstep
    obtain ⟨rfl, rfl⟩ := Prod.mk.inj (Option.some.inj hstep)
    exact .rearm hw
  | rearmed =>
    rw [hw] at hstep
    dsimp only at hstep
    split_ifs at hstep with hl
    · obtain ⟨rfl, rfl⟩ := Prod.mk.inj (Option.some.inj hstep)
      exact .listen hw hl
    · obtain ⟨rfl, rfl⟩ := Prod.mk.inj (Option.some.inj hstep)
      exact .ignore hw hl
  | updating =>
    rw [hw] at hstep
    dsimp only at hstep
    split_ifs at hstep with hx
    · obtain ⟨rfl, rfl⟩ := Prod.mk.inj (Option.some.inj hstep)
      exact .leave (Or.inl ⟨Or.inl hw, hx⟩)
    · obtain ⟨rfl, rfl⟩ := Prod.mk.inj (Option.some.inj hstep)
      exact .missPrimary hw (not_not.1 hx)
  | primaryGone =>
    rw [hw] at hstep
    dsimp only at hstep
    split_ifs at hstep with hx
    · obtain ⟨rfl, rfl⟩ := Prod.mk.inj (Option.some.inj hstep)
      exact .findBackup hw hx
    · obtain ⟨rfl, rfl⟩ := Prod.mk.inj (Option.some.inj hstep)
      exact .leave (Or.inr ⟨Or.inl hw, not_not.1 hx⟩)
  | backupFound =>
    rw [hw] at hstep
    cases hz : r .backup with
    | some z =>
      rw [hz] at hstep
      obtain ⟨rfl, rfl⟩ := Prod.mk.inj (Option.some.inj hstep)
      exact .readAddress hw hz
    | none =>
      rw [hz] at hstep
      obtain ⟨rfl, rfl⟩ := Prod.mk.inj (Option.some.inj hstep)
      exact .leave (Or.inr ⟨Or.inr (Or.inl hw), hz⟩)
  | addressRead newPrimary =>
    -- another server may have created the primary znode in between
    rw [hw] at hstep
    dsimp only at hstep
    by_cases hx : r .primary = none
    · rw [if_neg (not_not.2 hx)] at hstep
      obtain ⟨rfl, rfl⟩ := Prod.mk.inj (Option.some.inj hstep)
      exact .create hw hx
    · rw [if_pos hx] at hstep
      obtain ⟨rfl, rfl⟩ := Prod.mk.inj (Option.some.inj hstep)
      exact .leave (Or.inl ⟨Or.inr ⟨newPrimary, hw⟩, hx⟩)
  | created =>
    rw [hw] at hstep
    obtain ⟨rfl, rfl⟩ := Prod.mk.inj (Option.some.inj hstep)
    exact .promote hw
  | promoted =>
    -- or deleted that of the backup
    rw [hw] at hstep
    dsimp only at hstep
    by_cases hx : r .backup = none
    · rw [if_neg (not_not.2 hx)] at hstep
      obtain ⟨rfl, rfl⟩ := Prod.mk.inj (Option.some.inj hstep)
      exact .leave (Or.inr ⟨Or.inr (Or.inr hw), hx⟩)
    · rw [if_pos hx] at hstep
      obtain ⟨rfl, rfl⟩ := Prod.mk.inj (Option.some.inj hstep)
      exact .resign hw hx

/-! ## What a server does to the znodes -/

/-- A znode that a server left alone, or that was missing or its own before and after. -/
def Touched (i : ℕ) (old new : Option Znode) : Prop :=
  new = old ∨ (∀ z ∈ old, z.owner = i) ∧ ∀ z ∈ new, z.owner = i

theorem Touched.refl (i : ℕ) (z : Option Znode) : Touched i z z := Or.inl rfl

/-- A server creates or deletes a znode of its own. -/
theorem Touched.update {i : ℕ} {r : Registry} {path : ZnodePath} {z : Option Znode}
    (hold : ∀ z ∈ r path, z.owner = i) (hnew : ∀ z' ∈ z, z'.owner = i) (p : ZnodePath) :
    Touched i (r p) (Function.update r path z p) := by
  by_cases hp : p = path
  · subst hp
    rw [Function.update_self]
    exact Or.inr ⟨hold, hnew⟩
  · rw [Function.update_of_ne hp]
    exact Touched.refl i _

/-- The znodes of other servers stay. -/
theorem Touched.eq_of_owner {i j : ℕ} {old new : Option Znode} (h : Touched i old new)
    (hij : j ≠ i) (d : ℕ) : new = some ⟨d, j⟩ ↔ old = some ⟨d, j⟩ := by
  rcases h with rfl | ⟨hold, hnew⟩
  · exact Iff.rfl
  · constructor
    · rintro rfl
      exact absurd (hnew _ rfl) hij
    · rintro rfl
      exact absurd (hold _ rfl) hij

/-! ## What a server with a role owns -/

/-- A step after which a server still has the znodes that it had. -/
def KeepsOwn (i : ℕ) (r r' : Registry) : Prop :=
  ∀ p d, r p = some ⟨d, i⟩ → r' p = some ⟨d, i⟩

theorem KeepsOwn.refl (i : ℕ) (r : Registry) : KeepsOwn i r r := fun _ _ => id

/-- A znode is created. -/
theorem KeepsOwn.create {r : Registry} {path : ZnodePath} (hnone : r path = none) (z : Znode)
    (i : ℕ) : KeepsOwn i r (Function.update r path (some z)) := by
  intro p d hp
  by_cases hpath : p = path
  · subst hpath
    exact absurd (hnone.symm.trans hp) (by simp)
  · rwa [Function.update_of_ne hpath]

/-- Other servers keep what they have. -/
theorem KeepsOwn.of_touched {i j : ℕ} {r r' : Registry} (hij : j ≠ i)
    (ht : ∀ p, Touched i (r p) (r' p)) : KeepsOwn j r r' :=
  fun p d hp => ((ht p).eq_of_owner hij d).2 hp

theorem StartUpPc.Ok.keepsOwn {i : ℕ} {r r' : Registry} {m : Member} {pc : StartUpPc}
    (h : pc.Ok i r m) (hkeep : KeepsOwn i r r') : pc.Ok i r' m := by
  revert h
  cases pc with
  | primaryCreated => exact fun h => ⟨h.1, fun hc => hkeep _ _ (h.2 hc)⟩
  | backupCreated => exact fun h => ⟨h.1, fun hc => hkeep _ _ (h.2 hc)⟩
  | _ => exact id

theorem WatcherPc.Ok.keepsOwn {i : ℕ} {r r' : Registry} {m : Member} {pc : WatcherPc}
    (h : pc.Ok i r m) (hkeep : KeepsOwn i r r') : pc.Ok i r' m := by
  revert h
  cases pc with
  | created => exact fun h => ⟨h.1, h.2.1, fun hc => hkeep _ _ (h.2.2 hc)⟩
  | promoted => exact fun h => ⟨h.1, h.2.1, fun hc => hkeep _ _ (h.2.2 hc)⟩
  | _ => exact id

theorem Member.Holds.keepsOwn {i : ℕ} {r r' : Registry} {m : Member} (h : m.Holds i r)
    (hkeep : KeepsOwn i r r') : m.Holds i r' where
  primary := fun hr hc => hkeep _ _ (h.primary hr hc)
  backup := fun hr hc => hkeep _ _ (h.backup hr hc)
  startUp := h.startUp.keepsOwn hkeep
  watcher := h.watcher.keepsOwn hkeep

theorem Member.Holds.notify {i : ℕ} {r : Registry} {m : Member} (h : m.Holds i r) :
    m.notify.Holds i r := by
  obtain ⟨address, role, startUp, watcher, watching, event, closed⟩ := m
  unfold Member.notify
  cases watching with
  | false => exact h
  | true =>
    refine ⟨h.primary, h.backup, ?_, ?_⟩
    · have hs := h.startUp
      cases startUp <;> exact hs
    · have hw := h.watcher
      cases watcher <;> exact hw

/-- Before the main loop, roles are not updated. -/
theorem WatcherPc.Ok.of_startUp {i : ℕ} {r r' : Registry} {m m' : Member} {pc : WatcherPc}
    (h : pc.Ok i r m) (hs : m.startUp ≠ .serving) : pc.Ok i r' m' := by
  cases pc with
  | idle | notified | rearmed => trivial
  | _ => exact absurd h.1 hs

/-- `main` goes on without a change of the role. -/
theorem Member.Holds.goOn {i : ℕ} {r : Registry} {m : Member} (h : m.Holds i r) {pc : StartUpPc}
    (watching : Bool) (hs : m.startUp ≠ .serving) (hok : pc.Ok i r m) :
    Member.Holds i r { m with startUp := pc, watching := watching } where
  primary := h.primary
  backup := h.backup
  startUp := by
    cases pc <;> exact hok
  watcher := h.watcher.of_startUp hs

/-- The thread of the library goes on without a change of the role. -/
theorem Member.Holds.watch {i : ℕ} {r : Registry} {m : Member} (h : m.Holds i r) {pc : WatcherPc}
    (watching event : Bool) (hok : pc.Ok i r m) :
    Member.Holds i r { m with watcher := pc, watching := watching, event := event } where
  primary := h.primary
  backup := h.backup
  startUp := by
    have hs := h.startUp
    revert hs
    cases m.startUp <;> exact id
  watcher := by
    cases pc <;> exact hok

theorem startUp_holds {i : ℕ} {r r' : Registry} {m m' : Member} (h : m.Holds i r)
    (hstep : startUp i r m = some (r', m')) : m'.Holds i r' := by
  have hok := h.startUp
  cases startUp_cases hstep with
  | connect hpc | findPrimary hpc | missPrimary hpc | missBackup hpc | serve hpc =>
    rw [hpc] at hok
    exact h.goOn _ (by simp [hpc]) hok
  | fail hpc =>
    rcases hpc with ⟨hpc, -⟩ | ⟨hpc | hpc, -⟩
    all_goals
      rw [hpc] at hok
      exact h.goOn m.watching (by simp [hpc]) hok
  | createPrimary hpc hx | createBackup hpc hx =>
    rw [hpc] at hok
    apply (h.keepsOwn (KeepsOwn.create hx _ i)).goOn m.watching (by simp [hpc])
    exact ⟨hok, fun _ => Function.update_self ..⟩
  | becomePrimary hpc =>
    rw [hpc] at hok
    refine ⟨fun _ => hok.2, fun hr => absurd hr (by simp), by simp [StartUpPc.Ok], ?_⟩
    exact h.watcher.of_startUp (by simp [hpc])
  | becomeBackup hpc =>
    rw [hpc] at hok
    refine ⟨fun hr => absurd hr (by simp), fun _ => hok.2, by simp [StartUpPc.Ok], ?_⟩
    exact h.watcher.of_startUp (by simp [hpc])

/-- A server that was promoted does without its backup znode. -/
theorem Member.Holds.resign {i : ℕ} {r r' : Registry} {m : Member} (h : m.Holds i r)
    (hw : m.watcher = .promoted) (hdel : r' = r ∨ r' = Function.update r .backup none) :
    Member.Holds i r' { m with watcher := .idle } := by
  have hok := h.watcher
  rw [hw] at hok
  obtain ⟨hserving, hrole, -⟩ := hok
  have hprimary : r' .primary = r .primary := by
    rcases hdel with rfl | rfl
    · rfl
    · exact Function.update_of_ne (by decide) ..
  refine ⟨fun hr hc => ?_, fun hr => absurd (hrole.symm.trans hr) (by decide), ?_, trivial⟩
  · rw [hprimary]
    exact h.primary hr hc
  · show StartUpPc.Ok _ _ _ m.startUp
    rw [hserving]
    simp [StartUpPc.Ok, hrole]

theorem childrenWatcher_holds {i : ℕ} {r r' : Registry} {m m' : Member} (h : m.Holds i r)
    (hclosed : m.closed = false) (hstep : childrenWatcher i r m = some (r', m')) :
    m'.Holds i r' := by
  have hok := h.watcher
  cases childrenWatcher_cases hstep with
  | deliver | rearm | ignore => exact h.watch _ _ trivial
  | listen _ hl => exact h.watch m.watching m.event hl
  | missPrimary hpc | findBackup hpc =>
    rw [hpc] at hok
    exact h.watch m.watching m.event hok
  | readAddress hpc hz =>
    rw [hpc] at hok
    -- the address is this server's, for it is the backup
    have hself := hz.symm.trans (h.backup hok.2 hclosed)
    obtain rfl := Option.some.inj hself
    exact h.watch m.watching m.event ⟨hok.1, hok.2, rfl⟩
  | create hpc hx =>
    rw [hpc] at hok
    obtain ⟨hserving, hrole, rfl⟩ := hok
    apply (h.keepsOwn (KeepsOwn.create hx _ _)).watch m.watching m.event
    exact ⟨hserving, hrole, fun _ => Function.update_self ..⟩
  | promote hpc =>
    rw [hpc] at hok
    obtain ⟨hserving, hrole, howns⟩ := hok
    rw [if_pos hrole]
    refine ⟨fun _ => howns, fun hr => absurd hr (by simp), ?_, hserving, rfl, h.backup hrole⟩
    show StartUpPc.Ok _ _ _ m.startUp
    rw [hserving]
    simp [StartUpPc.Ok]
  | resign hpc => exact h.resign hpc (Or.inr rfl)
  | leave hpc =>
    by_cases hpromoted : m.watcher = .promoted
    · exact h.resign hpromoted (Or.inl rfl)
    · exact h.watch m.watching m.event trivial

theorem endSession_holds {i : ℕ} {r : Registry} {m : Member} (h : m.Holds i r) :
    Member.Holds i (endSession r i) { m with closed := true } where
  primary := fun _ hc => absurd hc (by simp)
  backup := fun _ hc => absurd hc (by simp)
  startUp := by
    have hs := h.startUp
    revert hs
    cases m.startUp with
    | primaryCreated | backupCreated => exact fun hs => ⟨hs.1, fun hc => absurd hc (by simp)⟩
    | _ => exact id
  watcher := by
    have hw := h.watcher
    revert hw
    cases m.watcher with
    | created | promoted => exact fun hw => ⟨hw.1, hw.2.1, fun hc => absurd hc (by simp)⟩
    | _ => exact id

theorem memberStep_holds {i : ℕ} {r r' : Registry} {m m' : Member} {a : MemberAction}
    (h : m.Holds i r) (hclosed : m.closed = false) (hstep : memberStep i r m a = some (r', m')) :
    m'.Holds i r' := by
  cases a with
  | startUp => exact startUp_holds h hstep
  | childrenWatcher => exact childrenWatcher_holds h hclosed hstep
  | endSession =>
    obtain ⟨rfl, rfl⟩ := Prod.mk.inj (Option.some.inj hstep)
    exact endSession_holds h

theorem endSession_touched (r : Registry) (i : ℕ) (p : ZnodePath) :
    Touched i (r p) (endSession r i p) := by
  unfold endSession
  cases hz : r p with
  | none => exact Touched.refl i _
  | some z =>
    by_cases howner : z.owner = i
    · refine Or.inr ⟨by simp [howner], by simp [Option.filter, howner]⟩
    · exact Or.inl (by simp [Option.filter, howner])

/-- What a step of server `i` does to the znodes. -/
inductive RegistryStep (i : ℕ) (r : Registry) (m : Member) : MemberAction → Registry → Prop
  | same (a : MemberAction) : RegistryStep i r m a r
  | registerPrimary (hpc : m.startUp = .noPrimary) (hnone : r .primary = none) :
    RegistryStep i r m .startUp (Function.update r .primary (some ⟨m.address, i⟩))
  | registerBackup (hpc : m.startUp = .noBackup) (hnone : r .backup = none) :
    RegistryStep i r m .startUp (Function.update r .backup (some ⟨m.address, i⟩))
  | promote (hb : r .backup = some ⟨m.address, i⟩) (hnone : r .primary = none) :
    RegistryStep i r m .childrenWatcher (Function.update r .primary (some ⟨m.address, i⟩))
  | resign (hp : r .primary = some ⟨m.address, i⟩) (hb : r .backup = some ⟨m.address, i⟩) :
    RegistryStep i r m .childrenWatcher (Function.update r .backup none)
  | endSession : RegistryStep i r m .endSession (endSession r i)

theorem RegistryStep.touched {i : ℕ} {r r' : Registry} {m : Member} {a : MemberAction}
    (h : RegistryStep i r m a r') (p : ZnodePath) : Touched i (r p) (r' p) := by
  cases h with
  | same => exact Touched.refl i _
  | registerPrimary _ hnone => exact Touched.update (by simp [hnone]) (by simp) p
  | registerBackup _ hnone => exact Touched.update (by simp [hnone]) (by simp) p
  | promote _ hnone => exact Touched.update (by simp [hnone]) (by simp) p
  | resign _ hb => exact Touched.update (by simp [hb]) (by simp) p
  | endSession => exact endSession_touched r i p

theorem startUp_registry {i : ℕ} {r r' : Registry} {m m' : Member}
    (hstep : startUp i r m = some (r', m')) : RegistryStep i r m .startUp r' := by
  cases startUp_cases hstep with
  | createPrimary hpc hx => exact .registerPrimary hpc hx
  | createBackup hpc hx => exact .registerBackup hpc hx
  | _ => exact .same _

theorem childrenWatcher_registry {i : ℕ} {r r' : Registry} {m m' : Member} (h : m.Holds i r)
    (hclosed : m.closed = false) (hstep : childrenWatcher i r m = some (r', m')) :
    RegistryStep i r m .childrenWatcher r' := by
  have hok := h.watcher
  cases childrenWatcher_cases hstep with
  | create hpc hx =>
    rw [hpc] at hok
    obtain ⟨-, hrole, rfl⟩ := hok
    exact .promote (h.backup hrole hclosed) hx
  | resign hpc =>
    rw [hpc] at hok
    exact .resign (h.primary hok.2.1 hclosed) (hok.2.2 hclosed)
  | _ => exact .same _

theorem memberStep_registry {i : ℕ} {r r' : Registry} {m m' : Member} {a : MemberAction}
    (h : m.Holds i r) (hclosed : m.closed = false) (hstep : memberStep i r m a = some (r', m')) :
    RegistryStep i r m a r' := by
  cases a with
  | startUp => exact startUp_registry hstep
  | childrenWatcher => exact childrenWatcher_registry h hclosed hstep
  | endSession =>
    obtain ⟨rfl, -⟩ := Prod.mk.inj (Option.some.inj hstep)
    exact .endSession

/-! ## What says that a server owns a znode -/

/-- A server says that it owns a znode, or is about to say so. -/
def Member.Answers (m : Member) : ZnodePath → Prop
  | .primary => m.role = .primary ∨ m.startUp = .primaryCreated ∨ m.watcher = .created
  | .backup => m.role = .backup ∨ m.startUp = .backupCreated ∨ m.watcher = .promoted

/-- The other part of the invariant: the znodes of a server are the ones it answers for. -/
def Member.Backed (i : ℕ) (r : Registry) (m : Member) : Prop :=
  ∀ path d, r path = some ⟨d, i⟩ → d = m.address ∧ m.closed = false ∧ m.Answers path

theorem Member.Inv.backed {i : ℕ} {r : Registry} {m : Member} (h : m.Inv i r) : m.Backed i r := by
  intro path
  cases path with
  | primary => exact h.primaryZnode
  | backup => exact h.backupZnode

theorem Member.Inv.of_parts {i : ℕ} {r : Registry} {m : Member} (h : m.Holds i r)
    (hbacked : m.Backed i r) : m.Inv i r :=
  ⟨h.primary, h.backup, hbacked .primary, hbacked .backup, h.startUp, h.watcher⟩

section Backed

variable {i : ℕ} {r : Registry} {m m' : Member}

/-- A server goes on, and answers for the znodes it answered for. -/
theorem Member.Backed.goOn (h : m.Backed i r) (haddress : m'.address = m.address)
    (hclosed : m'.closed = m.closed) (hanswers : ∀ path, m.Answers path → m'.Answers path) :
    m'.Backed i r := by
  intro path d hd
  obtain ⟨hdata, hc, ha⟩ := h path d hd
  exact ⟨hdata.trans haddress.symm, hclosed.trans hc, hanswers path ha⟩

/-- A server creates or deletes a znode. -/
theorem Member.Backed.update (h : m.Backed i r) {path : ZnodePath} {z : Option Znode}
    (hz : ∀ d, z = some ⟨d, i⟩ → d = m'.address ∧ m'.closed = false ∧ m'.Answers path)
    (haddress : m'.address = m.address) (hclosed : m'.closed = m.closed)
    (hanswers : ∀ path' ≠ path, m.Answers path' → m'.Answers path') :
    m'.Backed i (Function.update r path z) := by
  intro path' d hd
  by_cases hpath : path' = path
  · subst hpath
    rw [Function.update_self] at hd
    exact hz d hd
  · rw [Function.update_of_ne hpath] at hd
    obtain ⟨hdata, hc, ha⟩ := h path' d hd
    exact ⟨hdata.trans haddress.symm, hclosed.trans hc, hanswers path' hpath ha⟩

theorem Member.Backed.create (h : m.Backed i r) {path : ZnodePath} (hc : m.closed = false)
    (haddress : m'.address = m.address) (hclosed : m'.closed = m.closed)
    (hanswer : m'.Answers path)
    (hanswers : ∀ path' ≠ path, m.Answers path' → m'.Answers path') :
    m'.Backed i (Function.update r path (some ⟨m.address, i⟩)) := by
  apply h.update ?_ haddress hclosed hanswers
  intro d hd
  rw [Option.some.injEq, Znode.mk.injEq] at hd
  exact ⟨hd.1.symm.trans haddress.symm, hclosed.trans hc, hanswer⟩

end Backed

theorem startUp_backed {i : ℕ} {r r' : Registry} {m m' : Member} (h : m.Inv i r)
    (hclosed : m.closed = false) (hstep : startUp i r m = some (r', m')) : m'.Backed i r' := by
  have hok := h.startUp
  cases startUp_cases hstep with
  | connect hpc | findPrimary hpc | missPrimary hpc | missBackup hpc | serve hpc =>
    refine h.backed.goOn rfl rfl ?_
    rintro (_ | _) <;> simp [Member.Answers, hpc]
  | fail hpc =>
    refine h.backed.goOn rfl rfl ?_
    rcases hpc with ⟨hpc, -⟩ | ⟨hpc | hpc, -⟩
    all_goals rintro (_ | _) <;> simp [Member.Answers, hpc]
  | createPrimary hpc hx | createBackup hpc hx =>
    refine h.backed.create hclosed rfl rfl (Or.inr (Or.inl rfl)) ?_
    rintro (_ | _) <;> simp [Member.Answers, hpc]
  | becomePrimary hpc | becomeBackup hpc =>
    rw [hpc] at hok
    -- before this, the server had no role
    have hrole := hok.1
    refine h.backed.goOn rfl rfl ?_
    rintro (_ | _) <;> simp [Member.Answers, hpc, hrole]

theorem childrenWatcher_backed {i : ℕ} {r r' : Registry} {m m' : Member} (h : m.Inv i r)
    (hclosed : m.closed = false) (hstep : childrenWatcher i r m = some (r', m')) :
    m'.Backed i r' := by
  have hok := h.watcher
  cases childrenWatcher_cases hstep with
  | deliver hpc | rearm hpc | ignore hpc | listen hpc | missPrimary hpc | findBackup hpc
  | readAddress hpc =>
    refine h.backed.goOn rfl rfl ?_
    rintro (_ | _) <;> simp [Member.Answers, hpc]
  | create hpc =>
    rw [hpc] at hok
    obtain ⟨-, -, rfl⟩ := hok
    refine h.backed.create hclosed rfl rfl (Or.inr (Or.inr rfl)) ?_
    rintro (_ | _) <;> simp [Member.Answers, hpc]
  | promote hpc =>
    rw [hpc] at hok
    refine h.backed.goOn rfl rfl ?_
    rintro (_ | _) <;> simp [Member.Answers, hpc, hok.2.1]
  | resign hpc =>
    rw [hpc] at hok
    refine h.backed.update (by simp) rfl rfl ?_
    rintro (_ | _) <;> simp [Member.Answers, hpc, hok.2.1]
  | leave hpc =>
    rcases hpc with ⟨hpc | ⟨_, hpc⟩, -⟩ | ⟨hpc | hpc | hpc, hx⟩
    case inr.inr.inr =>
      -- after a promotion, it is the primary znode alone that is left
      intro path d hd
      cases path with
      | primary =>
        obtain ⟨hdata, hc, ha⟩ := h.backed .primary d hd
        exact ⟨hdata, hc, by simpa [Member.Answers, hpc] using ha⟩
      | backup => exact absurd (hx.symm.trans hd) (by simp)
    all_goals
      refine h.backed.goOn rfl rfl ?_
      rintro (_ | _) <;> simp [Member.Answers, hpc]


theorem endSession_backed (i : ℕ) (r : Registry) (m : Member) : m.Backed i (endSession r i) := by
  intro path d hd
  have howner := (Option.filter_eq_some_iff.1 hd).2
  simp at howner

/-! ## One step -/

/-- A server whose watch goes off keeps its part of the invariant. -/
theorem Member.Inv.notify {i : ℕ} {r : Registry} {m : Member} (h : m.Inv i r) :
    m.notify.Inv i r := by
  apply Member.Inv.of_parts h.holds.notify
  unfold Member.notify
  split_ifs
  · exact h.backed.goOn rfl rfl fun path => by cases path <;> exact id
  · exact h.backed

/-- What other servers do to the znodes does not matter. -/
theorem Member.Inv.frame {i j : ℕ} {r r' : Registry} {m : Member} (h : m.Inv j r) (hij : j ≠ i)
    (ht : ∀ p, Touched i (r p) (r' p)) : m.Inv j r' := by
  apply Member.Inv.of_parts (h.holds.keepsOwn (KeepsOwn.of_touched hij ht))
  intro path d hd
  exact h.backed path d (((ht path).eq_of_owner hij d).1 hd)

theorem memberStep_inv {i : ℕ} {r r' : Registry} {m m' : Member} {a : MemberAction}
    (h : m.Inv i r) (hclosed : m.closed = false) (hstep : memberStep i r m a = some (r', m')) :
    m'.Inv i r' ∧ ∀ p, Touched i (r p) (r' p) := by
  refine ⟨Member.Inv.of_parts (memberStep_holds h.holds hclosed hstep) ?_,
    (memberStep_registry h.holds hclosed hstep).touched⟩
  cases a with
  | startUp => exact startUp_backed h hclosed hstep
  | childrenWatcher => exact childrenWatcher_backed h hclosed hstep
  | endSession =>
    obtain ⟨rfl, rfl⟩ := Prod.mk.inj (Option.some.inj hstep)
    exact endSession_backed i r _

/-- A server that registers has no znode yet. -/
theorem Member.Inv.no_znode {i : ℕ} {r : Registry} {m : Member} (h : m.Inv i r)
    (hr : m.role = .none) (hs : m.startUp ≠ .serving) (d : ℕ) :
    (m.startUp ≠ .primaryCreated → r .primary ≠ some ⟨d, i⟩) ∧
      (m.startUp ≠ .backupCreated → r .backup ≠ some ⟨d, i⟩) := by
  have hw := h.watcher
  constructor
  · intro hne hd
    rcases (h.primaryZnode d hd).2.2 with hr' | hsu | hpc
    · exact absurd (hr.symm.trans hr') (by decide)
    · exact hne hsu
    · rw [hpc] at hw
      exact hs hw.1
  · intro hne hd
    rcases (h.backupZnode d hd).2.2 with hr' | hsu | hpc
    · exact absurd (hr.symm.trans hr') (by decide)
    · exact hne hsu
    · rw [hpc] at hw
      exact hs hw.1

/-! ## All servers -/

/-- Two servers that differ in their watches at most. -/
structure Member.Same (m m' : Member) : Prop where
  address_eq : m.address = m'.address
  role_eq : m.role = m'.role
  startUp_eq : m.startUp = m'.startUp
  watcher_eq : m.watcher = m'.watcher
  closed_eq : m.closed = m'.closed

theorem Member.same_notify (m : Member) : m.notify.Same m := by
  unfold Member.notify
  split <;> exact ⟨rfl, rfl, rfl, rfl, rfl⟩

/-- One server makes a step; if the znodes have changed, all watches go off. -/
theorem membershipStep_some {s s' : Membership} {i : ℕ} {a : MemberAction}
    (hstep : membershipStep s i a = some s') : ∃ m, (s.members i).closed = false ∧
      memberStep i s.registry (s.members i) a = some (s'.registry, m) ∧
      ∀ j, s'.members j = if ChildrenChanged s.registry s'.registry then
        (Function.update s.members i m j).notify else Function.update s.members i m j := by
  unfold membershipStep at hstep
  split_ifs at hstep with hclosed
  obtain ⟨⟨r, m⟩, hmember, rfl⟩ := Option.map_eq_some_iff.1 hstep
  refine ⟨m, by simpa using hclosed, hmember, ?_⟩
  intro j
  dsimp only
  split_ifs <;> rfl

/-- One server makes a step; the others see at most their watches go off. -/
theorem membershipStep_cases {s s' : Membership} {i : ℕ} {a : MemberAction}
    (hstep : membershipStep s i a = some s') : ∃ m, (s.members i).closed = false ∧
      memberStep i s.registry (s.members i) a = some (s'.registry, m) ∧
      ∀ j, (s'.members j).Same (Function.update s.members i m j) ∧
        (s'.members j = Function.update s.members i m j ∨
          s'.members j = (Function.update s.members i m j).notify) := by
  rcases membershipStep_some hstep with ⟨m, hclosed, hmember, hall⟩
  refine ⟨m, hclosed, hmember, ?_⟩
  intro j
  rw [hall j]
  split_ifs
  · exact ⟨Member.same_notify _, Or.inr rfl⟩
  · exact ⟨⟨rfl, rfl, rfl, rfl, rfl⟩, Or.inl rfl⟩

theorem membershipStep_inv {s s' : Membership} {i : ℕ} {a : MemberAction} (h : MembershipInv s)
    (hstep : membershipStep s i a = some s') : MembershipInv s' := by
  obtain ⟨m, hclosed, hmember, hall⟩ := membershipStep_cases hstep
  obtain ⟨hinv, htouched⟩ := memberStep_inv (h i) hclosed hmember
  intro j
  have hj : (Function.update s.members i m j).Inv j s'.registry := by
    by_cases hji : j = i
    · subst hji
      rw [Function.update_self]
      exact hinv
    · rw [Function.update_of_ne hji]
      exact (h j).frame hji htouched
  rcases (hall j).2 with heq | heq
  · exact heq ▸ hj
  · exact heq ▸ hj.notify

/-! ## What steps cannot undo -/

theorem memberStep_address {i : ℕ} {r r' : Registry} {m m' : Member} {a : MemberAction}
    (hstep : memberStep i r m a = some (r', m')) : m'.address = m.address := by
  cases a with
  | startUp => cases startUp_cases hstep <;> rfl
  | childrenWatcher => cases childrenWatcher_cases hstep <;> rfl
  | endSession =>
    obtain ⟨-, rfl⟩ := Prod.mk.inj (Option.some.inj hstep)
    rfl

theorem membershipStep_address {s s' : Membership} {i : ℕ} {a : MemberAction}
    (hstep : membershipStep s i a = some s') (j : ℕ) :
    (s'.members j).address = (s.members j).address := by
  obtain ⟨m, -, hmember, hall⟩ := membershipStep_cases hstep
  rw [(hall j).1.address_eq]
  by_cases hji : j = i
  · subst hji
    rw [Function.update_self, memberStep_address hmember]
  · rw [Function.update_of_ne hji]

/-- `zk_register_tree_server` was called. -/
def StartUpPc.Registers (pc : StartUpPc) : Prop := pc ≠ .connecting ∧ pc ≠ .connected

/-- A primary stays one, and a server in its main loop stays there; only the end of its session
closes a server, and it registers only if it did or `begun` holds. -/
structure Member.Leads (m m' : Member) (ended begun : Prop) : Prop where
  role : m.role = .primary → m'.role = .primary
  serving : m.startUp = .serving → m'.startUp = .serving
  closed : m'.closed = true → m.closed = true ∨ ended
  registers : m'.startUp.Registers → m.startUp.Registers ∨ begun

theorem Member.Leads.refl (m : Member) (ended begun : Prop) : m.Leads m ended begun :=
  ⟨id, id, Or.inl, Or.inl⟩

theorem Member.Leads.mono {m m' : Member} {ended begun ended' begun' : Prop}
    (h : m.Leads m' ended begun) (hended : ended → ended') (hbegun : begun → begun') :
    m.Leads m' ended' begun' where
  role := h.role
  serving := h.serving
  closed := fun hc => (h.closed hc).imp_right hended
  registers := fun hr => (h.registers hr).imp_right hbegun

theorem startUp_leads {i : ℕ} {r r' : Registry} {m m' : Member} (h : m.Inv i r)
    (hstep : startUp i r m = some (r', m')) : m.Leads m' False (m.startUp = .connected) := by
  have hok := h.startUp
  cases startUp_cases hstep with
  | connect hpc =>
    exact ⟨id, fun hs => absurd (hpc.symm.trans hs) (by decide), Or.inl,
      fun hr => absurd rfl hr.2⟩
  | findPrimary hpc | missPrimary hpc =>
    exact ⟨id, fun hs => absurd (hpc.symm.trans hs) (by decide), Or.inl,
      fun _ => Or.inr hpc⟩
  | becomePrimary hpc | becomeBackup hpc =>
    rw [hpc] at hok
    refine ⟨fun hr => absurd (hok.1.symm.trans hr) (by decide),
      fun hs => absurd (hpc.symm.trans hs) (by decide), Or.inl, fun _ => Or.inl ?_⟩
    simp [StartUpPc.Registers, hpc]
  | createPrimary hpc | missBackup hpc | createBackup hpc | serve hpc =>
    refine ⟨id, fun hs => absurd (hpc.symm.trans hs) (by decide), Or.inl,
      fun _ => Or.inl ?_⟩
    simp [StartUpPc.Registers, hpc]
  | fail hpc =>
    refine ⟨id, fun hs => ?_, Or.inl, fun _ => Or.inl ?_⟩
    · rcases hpc with ⟨hpc, -⟩ | ⟨hpc | hpc, -⟩
      all_goals exact absurd (hpc.symm.trans hs) (by decide)
    · rcases hpc with ⟨hpc, -⟩ | ⟨hpc | hpc, -⟩
      all_goals simp [StartUpPc.Registers, hpc]

theorem childrenWatcher_leads {i : ℕ} {r r' : Registry} {m m' : Member}
    (hstep : childrenWatcher i r m = some (r', m')) : m.Leads m' False False := by
  cases childrenWatcher_cases hstep with
  | promote =>
    refine ⟨fun hr => ?_, id, Or.inl, Or.inl⟩
    show (if m.role = .backup then _ else m.role) = _
    rw [hr]
    rfl
  | _ => exact ⟨id, id, Or.inl, Or.inl⟩

theorem memberStep_leads {i : ℕ} {r r' : Registry} {m m' : Member} {a : MemberAction}
    (h : m.Inv i r) (hstep : memberStep i r m a = some (r', m')) :
    m.Leads m' (a = .endSession) (a = .startUp ∧ m.startUp = .connected) := by
  cases a with
  | endSession =>
    obtain ⟨rfl, rfl⟩ := Prod.mk.inj (Option.some.inj hstep)
    exact ⟨id, id, fun _ => Or.inr rfl, Or.inl⟩
  | startUp => exact (startUp_leads h hstep).mono False.elim fun hpc => ⟨rfl, hpc⟩
  | childrenWatcher => exact (childrenWatcher_leads hstep).mono False.elim False.elim

theorem membershipStep_leads {s s' : Membership} {i : ℕ} {a : MemberAction}
    (h : MembershipInv s) (hstep : membershipStep s i a = some s') (j : ℕ) :
    (s.members j).Leads (s'.members j) (j = i ∧ a = .endSession)
      (j = i ∧ a = .startUp ∧ (s.members j).startUp = .connected) := by
  obtain ⟨m, -, hmember, hall⟩ := membershipStep_cases hstep
  have hj : (s.members j).Leads (Function.update s.members i m j) (j = i ∧ a = .endSession)
      (j = i ∧ a = .startUp ∧ (s.members j).startUp = .connected) := by
    by_cases hji : j = i
    · subst hji
      rw [Function.update_self]
      exact (memberStep_leads (h j) hmember).mono (fun ha => ⟨rfl, ha⟩) fun ha => ⟨rfl, ha⟩
    · rw [Function.update_of_ne hji]
      exact Member.Leads.refl _ _ _
  have hsame := (hall j).1
  constructor
  · intro hr
    rw [hsame.role_eq]
    exact hj.role hr
  · intro hs
    rw [hsame.startUp_eq]
    exact hj.serving hs
  · intro hc
    rw [hsame.closed_eq] at hc
    exact hj.closed hc
  · intro hr
    rw [hsame.startUp_eq] at hr
    exact hj.registers hr

end ReplicatedTree
