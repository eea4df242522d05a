import Mathlib.Algebra.Order.Group.Int
import Mathlib.Algebra.Order.Group.Nat
import ReplicatedTree.RtreeConnection

/-!
# The client's resources — theorems about `RtreeConnection`

`servers_retry_connect` frees the addresses without clearing their pointers and drops the
descriptors without closing them, `network_close` closes the descriptors without clearing the
fields, and `network_connect` overwrites a descriptor before it closes it. So nearly every order
of these calls releases something twice or never. The orders that do not are those in which what
each retry acquires is released by exactly one later call (`client_releases_iff`).
-/

namespace ReplicatedTree

/-! ## Orderly use -/

def AddressAnswer.IsAddress : AddressAnswer → Prop
  | .address _ => True
  | _ => False

instance AddressAnswer.instDecidableIsAddress : (a : AddressAnswer) → Decidable a.IsAddress
  | .address _ => isTrue trivial
  | .missing | .malformed => isFalse id

namespace RetryAnswers

/-- The address of the primary server is there and is parsed. -/
def ParsesPrimary (a : RetryAnswers) : Prop := a.primary.IsAddress ∧ a.backup ≠ .missing

/-- Both addresses are. -/
def ParsesBackup (a : RetryAnswers) : Prop := a.primary.IsAddress ∧ a.backup.IsAddress

/-- Both connections are made. -/
def Connects (a : RetryAnswers) : Prop :=
  a.ParsesBackup ∧ a.primaryConnects = true ∧ a.backupConnects = true

/-- Only the connection to the primary server is made. -/
def BackupRefuses (a : RetryAnswers) : Prop :=
  a.ParsesBackup ∧ a.primaryConnects = true ∧ a.backupConnects = false

instance (a : RetryAnswers) : Decidable a.ParsesPrimary := inferInstanceAs (Decidable (_ ∧ _))

instance (a : RetryAnswers) : Decidable a.ParsesBackup := inferInstanceAs (Decidable (_ ∧ _))

instance (a : RetryAnswers) : Decidable a.Connects := inferInstanceAs (Decidable (_ ∧ _))

instance (a : RetryAnswers) : Decidable a.BackupRefuses := inferInstanceAs (Decidable (_ ∧ _))

theorem ParsesBackup.parsesPrimary {a : RetryAnswers} (h : a.ParsesBackup) : a.ParsesPrimary := by
  refine ⟨h.1, fun hmissing => ?_⟩
  have hbackup := h.2
  rw [hmissing] at hbackup
  exact hbackup

end RetryAnswers

/-- The answers of the next retry. -/
def nextRetry : List ClientOp → Option RetryAnswers
  | [] => none
  | .serversChanged :: ops => nextRetry ops
  | .retry a :: _ => some a

/-- How often the servers change before the next retry, or before the end. -/
def changesBeforeRetry : List ClientOp → ℕ
  | .serversChanged :: ops => changesBeforeRetry ops + 1
  | _ => 0

/-- An address that a retry has stored is replaced by the next retry. -/
def RetryAnswers.AddressesReplaced (a : RetryAnswers) (ops : List ClientOp) : Prop :=
  (a.ParsesPrimary → ∀ b ∈ nextRetry ops, b.ParsesPrimary) ∧
    (a.ParsesBackup → ∀ b ∈ nextRetry ops, b.ParsesBackup)

/-- No connection is left over when the backup server refuses; and once both connections are
made, the servers change exactly once before the next retry, and not at all if there is none. -/
def RetryAnswers.ConnectionsClosed (a : RetryAnswers) (ops : List ClientOp) : Prop :=
  ¬ a.BackupRefuses ∧
    (a.Connects → changesBeforeRetry ops = if (nextRetry ops).isSome then 1 else 0)

/-- Every retry, with what comes after it, meets the condition. -/
def EachRetry (P : RetryAnswers → List ClientOp → Prop) : List ClientOp → Prop
  | [] => True
  | .serversChanged :: ops => EachRetry P ops
  | .retry a :: ops => P a ops ∧ EachRetry P ops

/-- The calls after which nothing is released twice or never. -/
def Orderly (ops : List ClientOp) : Prop :=
  EachRetry RetryAnswers.AddressesReplaced ops ∧ EachRetry RetryAnswers.ConnectionsClosed ops

/-! ## What each function does -/

section Functions

variable (c : ClientState)

theorem descriptorName_pos (k : ℕ) : 0 < descriptorName k := by
  unfold descriptorName
  omega

theorem descriptorName_injective : Function.Injective descriptorName := by
  intro j k h
  unfold descriptorName at h
  omega

theorem stringName_injective : Function.Injective stringName := fun _ _ h => h

theorem networkClose_strings : c.networkClose.strings = c.strings := by
  unfold ClientState.networkClose
  dsimp only
  split_ifs <;> rfl

theorem networkClose_rtree : c.networkClose.rtree = c.rtree := by
  unfold ClientState.networkClose
  dsimp only
  split_ifs <;> rfl

theorem free_issued (string : Option ℕ) : (c.free string).strings.issued = c.strings.issued := by
  cases string <;> rfl

theorem free_rtree (string : Option ℕ) : (c.free string).rtree = c.rtree := by
  cases string <;> rfl

theorem free_descriptors (string : Option ℕ) : (c.free string).descriptors = c.descriptors := by
  cases string <;> rfl

theorem free_strings_congr {c c' : ClientState} (h : c.strings = c'.strings)
    (string : Option ℕ) : (c.free string).strings = (c'.free string).strings := by
  cases string with
  | none => exact h
  | some string =>
    show c.strings.release string = c'.strings.release string
    rw [h]

theorem forgetServers_strings : c.forgetServers.strings
    = ((c.free c.rtree.primaryServerIpAddress).free c.rtree.backupServerIpAddress).strings := by
  unfold ClientState.forgetServers
  simp only [free_rtree]
  apply free_strings_congr
  rfl

theorem rtreeDisconnect_strings : c.rtreeDisconnect.strings
    = ((c.free c.rtree.primaryServerIpAddress).free c.rtree.backupServerIpAddress).strings := by
  unfold ClientState.rtreeDisconnect ClientState.rtreeDestroy
  simp only [free_rtree, networkClose_rtree]
  apply free_strings_congr
  apply free_strings_congr
  exact networkClose_strings c

theorem forgetServers_rtree : c.forgetServers.rtree
    = { c.rtree with
        primaryServerPort := -1, primarySockfd := -1, backupServerPort := -1,
        backupSockfd := -1 } := by
  unfold ClientState.forgetServers
  simp only [free_rtree]

theorem forgetServers_descriptors : c.forgetServers.descriptors = c.descriptors := by
  unfold ClientState.forgetServers
  simp only [free_descriptors]

theorem forgetServers_issued : c.forgetServers.strings.issued = c.strings.issued := by
  rw [forgetServers_strings, free_issued, free_issued]

/-- What becomes of the two descriptors. -/
theorem networkConnect_eq (primaryConnects backupConnects : Bool) :
    c.networkConnect primaryConnects backupConnects =
      if primaryConnects then
        if backupConnects then
          ({ c with
            descriptors := c.descriptors.issue.issue
            rtree := { c.rtree with
              primarySockfd := descriptorName c.descriptors.issued
              backupSockfd := descriptorName (c.descriptors.issued + 1) } }, 0)
        else
          ({ c with
            descriptors := c.descriptors.issue.release (-1)
            rtree := { c.rtree with primarySockfd := -1, backupSockfd := -1 } }, -1)
      else ({ c with rtree := { c.rtree with primarySockfd := -1 } }, -1) := by
  have hpos := descriptorName_pos c.descriptors.issued
  have hpos' := descriptorName_pos (c.descriptors.issued + 1)
  unfold ClientState.networkConnect ClientState.serverConnect
  cases primaryConnects with
  | false => rfl
  | true =>
    simp only [if_true, if_neg (not_lt.2 hpos.le)]
    cases backupConnects with
    | false => rfl
    | true => simp only [if_true, Ledger.issued_issue, if_neg (not_lt.2 hpos'.le)]

/-- What a retry does to the addresses: those it parses are new, the others are still stored
when they are freed. -/
theorem retry_strings (a : RetryAnswers) :
    ((c.serversRetryConnect a).1.strings, (c.serversRetryConnect a).1.rtree.primaryServerIpAddress,
      (c.serversRetryConnect a).1.rtree.backupServerIpAddress)
    = if a.ParsesBackup then (c.forgetServers.strings.issue.issue,
        some (stringName c.strings.issued), some (stringName (c.strings.issued + 1)))
      else if a.ParsesPrimary then (c.forgetServers.strings.issue,
        some (stringName c.strings.issued), c.rtree.backupServerIpAddress)
      else (c.forgetServers.strings, c.rtree.primaryServerIpAddress,
        c.rtree.backupServerIpAddress) := by
  obtain ⟨primary, backup, primaryConnects, backupConnects⟩ := a
  have hissued := forgetServers_issued c
  have hrtree := forgetServers_rtree c
  cases primary with
  | missing | malformed =>
    rw [if_neg (fun h => h.1), if_neg (fun h => h.1)]
    cases backup <;> simp [ClientState.serversRetryConnect, ClientState.parsePrimary, hrtree]
  | address port =>
    cases backup with
    | missing =>
      rw [if_neg (fun h => h.2), if_neg (fun h => h.2 rfl)]
      simp [ClientState.serversRetryConnect, hrtree]
    | malformed =>
      rw [if_neg (fun h => h.2), if_pos ⟨trivial, by simp⟩]
      simp [ClientState.serversRetryConnect, ClientState.parsePrimary, ClientState.parseBackup,
        hrtree, hissued]
    | address port' =>
      rw [if_pos ⟨trivial, trivial⟩]
      cases primaryConnects <;> cases backupConnects <;>
        simp [ClientState.serversRetryConnect, ClientState.parsePrimary,
          ClientState.parseBackup, networkConnect_eq, hissued]

/-- What a retry does to the descriptors: those that were stored are forgotten. -/
theorem retry_descriptors (a : RetryAnswers) :
    ((c.serversRetryConnect a).1.descriptors, (c.serversRetryConnect a).1.rtree.primarySockfd,
      (c.serversRetryConnect a).1.rtree.backupSockfd)
    = if a.Connects then (c.descriptors.issue.issue, descriptorName c.descriptors.issued,
        descriptorName (c.descriptors.issued + 1))
      else if a.BackupRefuses then (c.descriptors.issue.release (-1), -1, -1)
      else (c.descriptors, -1, -1) := by
  obtain ⟨primary, backup, primaryConnects, backupConnects⟩ := a
  have hdescriptors := forgetServers_descriptors c
  have hrtree := forgetServers_rtree c
  cases primary with
  | missing | malformed =>
    rw [if_neg (fun h => h.1.1), if_neg (fun h => h.1.1)]
    cases backup <;>
      simp [ClientState.serversRetryConnect, ClientState.parsePrimary, hrtree, hdescriptors]
  | address port =>
    cases backup with
    | missing | malformed =>
      rw [if_neg (fun h => h.1.2), if_neg (fun h => h.1.2)]
      simp [ClientState.serversRetryConnect, ClientState.parsePrimary, ClientState.parseBackup,
        hrtree, hdescriptors]
    | address port' =>
      cases primaryConnects <;> cases backupConnects <;>
        simp [ClientState.serversRetryConnect, ClientState.parsePrimary, ClientState.parseBackup,
          networkConnect_eq, hrtree, hdescriptors, RetryAnswers.Connects,
          RetryAnswers.BackupRefuses, RetryAnswers.ParsesBackup, AddressAnswer.IsAddress]

end Functions

/-! ## Addresses -/

/-- How often the string in a field will be freed, if a retry with `parses` stores a new one. -/
def freesDue (parses : RetryAnswers → Prop) [DecidablePred parses] : List ClientOp → ℕ
  | [] => 1
  | .serversChanged :: ops => freesDue parses ops
  | .retry a :: ops => if parses a then 1 else freesDue parses ops + 1

theorem freesDue_pos (parses : RetryAnswers → Prop) [DecidablePred parses] (ops : List ClientOp) :
    0 < freesDue parses ops := by
  induction ops with
  | nil => exact Nat.one_pos
  | cons op ops ih =>
    cases op with
    | serversChanged => exact ih
    | retry a =>
      rw [freesDue]
      split_ifs <;> omega

/-- The string is freed once if the next retry replaces it. -/
theorem freesDue_eq_one (parses : RetryAnswers → Prop) [DecidablePred parses]
    (ops : List ClientOp) : freesDue parses ops = 1 ↔ ∀ b ∈ nextRetry ops, parses b := by
  induction ops with
  | nil => simp [freesDue, nextRetry]
  | cons op ops ih =>
    cases op with
    | serversChanged => exact ih
    | retry a =>
      have hpos := freesDue_pos parses ops
      by_cases ha : parses a
      · simp [freesDue, nextRetry, ha]
      · have hne : freesDue parses ops ≠ 0 := by omega
        simp [freesDue, nextRetry, ha, hne]

/-- How often each string will be freed, with these in the two fields. -/
def stringsDue (primary backup : Option ℕ) (ops : List ClientOp) (string : ℕ) : ℕ :=
  (if some string = primary then freesDue RetryAnswers.ParsesPrimary ops else 0) +
    if some string = backup then freesDue RetryAnswers.ParsesBackup ops else 0

/-- No string is in a field or freed before it was stored. -/
structure ClientState.StringsOk (c : ClientState) : Prop where
  wf : c.strings.Wf stringName
  primary : ∀ i ∈ c.rtree.primaryServerIpAddress, c.strings.Past stringName i
  backup : ∀ i ∈ c.rtree.backupServerIpAddress, c.strings.Past stringName i

section Strings

variable {c : ClientState} {due : ℕ → ℕ}

theorem due_free (string : Option ℕ) : (c.free string).strings.Due stringName due ↔
    c.strings.Due stringName fun i => due i + if some i = string then 1 else 0 := by
  cases string with
  | none => simp [ClientState.free]
  | some string =>
    simp only [Option.some.injEq]
    exact Ledger.due_release string

theorem due_forgetServers : c.forgetServers.strings.Due stringName due ↔
    c.strings.Due stringName fun i => due i
      + (if some i = c.rtree.backupServerIpAddress then 1 else 0)
      + if some i = c.rtree.primaryServerIpAddress then 1 else 0 := by
  rw [forgetServers_strings, due_free, due_free]

theorem wf_free {string : Option ℕ} (h : c.strings.Wf stringName)
    (hstring : ∀ i ∈ string, c.strings.Past stringName i) :
    (c.free string).strings.Wf stringName := by
  cases string with
  | none => exact h
  | some i => exact h.release (hstring i rfl)

theorem ClientState.StringsOk.forgetServers (h : c.StringsOk) :
    c.forgetServers.strings.Wf stringName := by
  rw [forgetServers_strings]
  apply wf_free (wf_free h.wf h.primary)
  intro i hi k hk
  rw [free_issued] at hk
  exact h.backup i hi k hk

/-- A name is past in any ledger that has handed out as many. -/
theorem past_mono {l l' : Ledger ℕ} {i : ℕ} (h : l.Past stringName i)
    (hle : l.issued ≤ l'.issued) : l'.Past stringName i := fun k hk => h k (hle.trans hk)

theorem ClientState.StringsOk.retry (h : c.StringsOk) (a : RetryAnswers) :
    (c.serversRetryConnect a).1.StringsOk := by
  have heq := retry_strings c a
  have hwf := h.forgetServers
  have hissued := forgetServers_issued c
  have hnew : ∀ {k : ℕ} {l : Ledger ℕ}, k < l.issued → ∀ i ∈ some (stringName k),
      l.Past stringName i := by
    rintro k l hk i hi
    obtain rfl := Option.some.inj hi
    exact Ledger.past_of_lt stringName_injective hk
  split_ifs at heq with hboth hprimary <;> simp only [Prod.mk.injEq] at heq <;>
    obtain ⟨hs, hp, hb⟩ := heq
  · refine ⟨hs ▸ hwf.issue.issue, ?_, ?_⟩
    · rw [hp]
      apply hnew
      rw [hs, Ledger.issued_issue, Ledger.issued_issue, hissued]
      omega
    · rw [hb]
      apply hnew
      rw [hs, Ledger.issued_issue, Ledger.issued_issue, hissued]
      omega
  · refine ⟨hs ▸ hwf.issue, ?_, ?_⟩
    · rw [hp]
      apply hnew
      rw [hs, Ledger.issued_issue, hissued]
      omega
    · rw [hb]
      refine fun i hi => past_mono (h.backup i hi) ?_
      rw [hs, Ledger.issued_issue, hissued]
      omega
  · refine ⟨hs ▸ hwf, ?_, ?_⟩
    · rw [hp]
      exact fun i hi => past_mono (h.primary i hi) (by rw [hs, hissued])
    · rw [hb]
      exact fun i hi => past_mono (h.backup i hi) (by rw [hs, hissued])

theorem ClientState.StringsOk.serversChanged (h : c.StringsOk) : c.onServersChanged.StringsOk := by
  have hstrings : c.onServersChanged.strings = c.strings := networkClose_strings c
  have hrtree : c.onServersChanged.rtree = c.rtree := networkClose_rtree c
  constructor
  · rw [hstrings]
    exact h.wf
  · rw [hstrings, hrtree]
    exact h.primary
  · rw [hstrings, hrtree]
    exact h.backup

/-- What is due of the strings before a retry: once more for those that are in a field and stay
there, and once for each new one. -/
theorem due_retry (h : c.StringsOk) (a : RetryAnswers) (ops : List ClientOp) :
    (c.serversRetryConnect a).1.strings.Due stringName
      (stringsDue (c.serversRetryConnect a).1.rtree.primaryServerIpAddress
        (c.serversRetryConnect a).1.rtree.backupServerIpAddress ops) ↔
    c.strings.Due stringName (stringsDue c.rtree.primaryServerIpAddress
        c.rtree.backupServerIpAddress (.retry a :: ops)) ∧ a.AddressesReplaced ops := by
  have heq := retry_strings c a
  have hwf := h.forgetServers
  have hissued := forgetServers_issued c
  have hne : ∀ {j k : ℕ}, j ≠ k → stringName j ≠ stringName k := stringName_injective.ne
  have hfresh : some (stringName c.strings.issued) ≠ c.rtree.backupServerIpAddress :=
    fun hmem => h.backup _ hmem.symm _ le_rfl rfl
  have hsucc := hne (Nat.succ_ne_self c.strings.issued)
  unfold RetryAnswers.AddressesReplaced
  split_ifs at heq with hboth hprimary <;> simp only [Prod.mk.injEq] at heq <;>
    obtain ⟨hs, hp, hb⟩ := heq <;> rw [hs, hp, hb]
  · -- both addresses are replaced by new strings
    have hprimary := hboth.parsesPrimary
    rw [Ledger.due_issue hwf.issue, Ledger.due_issue hwf, due_forgetServers,
      Ledger.issued_issue, hissued, and_assoc]
    refine and_congr (Ledger.due_congr fun k hk => ?_) ?_
    · have hk' : stringName k ≠ stringName c.strings.issued := hne (by omega)
      have hk'' : stringName k ≠ stringName (c.strings.issued + 1) := hne (by omega)
      simp only [stringsDue, freesDue, if_pos hboth, if_pos hprimary, Option.some.injEq,
        if_neg hk', if_neg hk'']
      omega
    · simp only [stringsDue, Option.some.injEq, if_true, if_neg hsucc, if_neg hsucc.symm,
        Nat.add_zero, Nat.zero_add, freesDue_eq_one, hprimary, hboth, forall_const]
  · -- the backup's string was freed, and stays in its field
    rw [Ledger.due_issue hwf, due_forgetServers, hissued]
    refine and_congr (Ledger.due_congr fun k hk => ?_) ?_
    · have hk' : stringName k ≠ stringName c.strings.issued := hne (by omega)
      simp only [stringsDue, freesDue, if_neg hboth, if_pos hprimary, Option.some.injEq,
        if_neg hk']
      split_ifs <;> omega
    · simp only [stringsDue, if_true, if_neg hfresh, Nat.add_zero, freesDue_eq_one, hprimary,
        hboth, forall_const, false_imp_iff, and_true]
  · -- both strings were freed, and stay
    rw [due_forgetServers]
    simp only [hprimary, hboth, false_imp_iff, and_true]
    refine Ledger.due_congr fun k hk => ?_
    simp only [stringsDue, freesDue, if_neg hboth, if_neg hprimary]
    split_ifs <;> omega

/-- Every string will be freed exactly once if that is what is due of the strings so far, and
every later retry replaces the addresses. -/
theorem strings_allOnce_iff (h : c.StringsOk) (ops : List ClientOp) :
    (c.finish ops).strings.AllOnce stringName ↔
      c.strings.Due stringName (stringsDue c.rtree.primaryServerIpAddress
        c.rtree.backupServerIpAddress ops) ∧ EachRetry RetryAnswers.AddressesReplaced ops := by
  induction ops generalizing c with
  | nil =>
    have hstrings : (c.finish []).strings = _ := rtreeDisconnect_strings c
    -- `rtree_disconnect` frees what is in the fields, and nothing is due after it
    rw [hstrings, ← Ledger.due_zero, due_free, due_free]
    simp only [EachRetry, and_true]
    refine Ledger.due_congr fun k hk => ?_
    simp only [stringsDue, freesDue]
    omega
  | cons op ops ih =>
    cases op with
    | serversChanged =>
      have hfinish := ih h.serversChanged
      have hstrings : c.onServersChanged.strings = c.strings := networkClose_strings c
      have hrtree : c.onServersChanged.rtree = c.rtree := networkClose_rtree c
      rw [hstrings, hrtree] at hfinish
      exact hfinish
    | retry a =>
      have hfinish := ih (h.retry a)
      rw [due_retry h a ops, and_assoc] at hfinish
      exact hfinish

end Strings

/-! ## Descriptors -/

/-- How often a descriptor in a field will be closed. -/
def closesDue : List ClientOp → ℕ
  | [] => 1
  | .serversChanged :: ops => closesDue ops + 1
  | .retry _ :: _ => 0

/-- Once: by a change of the servers if a retry follows, else by `rtree_disconnect`. -/
theorem closesDue_eq_one (ops : List ClientOp) : closesDue ops = 1 ↔
    changesBeforeRetry ops = if (nextRetry ops).isSome then 1 else 0 := by
  have hsum : closesDue ops = changesBeforeRetry ops + if (nextRetry ops).isSome then 0 else 1 := by
    induction ops with
    | nil => rfl
    | cons op ops ih =>
      cases op with
      | serversChanged =>
        rw [closesDue, changesBeforeRetry, nextRetry, ih]
        split_ifs <;> omega
      | retry a => rfl
  rw [hsum]
  split_ifs <;> omega

/-- How often each descriptor will be closed, with these in the two fields. -/
def descriptorsDue (primary backup : ℤ) (ops : List ClientOp) (fd : ℤ) : ℕ :=
  (if fd = primary then closesDue ops else 0) + if fd = backup then closesDue ops else 0

/-- No descriptor is in a field or closed before it was returned. -/
structure ClientState.DescriptorsOk (c : ClientState) : Prop where
  wf : c.descriptors.Wf descriptorName
  primary : c.descriptors.Past descriptorName c.rtree.primarySockfd
  backup : c.descriptors.Past descriptorName c.rtree.backupSockfd

section Descriptors

variable {c : ClientState} {due : ℤ → ℕ}

theorem past_neg_one (l : Ledger ℤ) : l.Past descriptorName (-1) := by
  intro k hk heq
  have := descriptorName_pos k
  omega

/-- A field that is not positive holds no descriptor. -/
theorem due_networkClose : c.networkClose.descriptors.Due descriptorName due ↔
    c.descriptors.Due descriptorName fun fd => due fd
      + (if fd = c.rtree.backupSockfd then 1 else 0)
      + if fd = c.rtree.primarySockfd then 1 else 0 := by
  have hpos := fun k => descriptorName_pos k
  unfold ClientState.networkClose
  dsimp only
  -- a field is closed or not, and one that is not has no name of a descriptor in it
  split_ifs with hp hb hb
  · refine Ledger.due_congr fun k hk => ?_
    have := hpos k
    have hne : ¬ descriptorName k = c.rtree.primarySockfd := by omega
    have hne' : ¬ descriptorName k = c.rtree.backupSockfd := by omega
    simp only [if_neg hne, if_neg hne', Nat.add_zero]
  · refine (Ledger.due_release _).trans (Ledger.due_congr fun k hk => ?_)
    have := hpos k
    have hne : ¬ descriptorName k = c.rtree.primarySockfd := by omega
    simp only [if_neg hne, Nat.add_zero]
  · refine (Ledger.due_release _).trans (Ledger.due_congr fun k hk => ?_)
    have hb : c.rtree.backupSockfd ≤ 0 := hb
    have := hpos k
    have hne : ¬ descriptorName k = c.rtree.backupSockfd := by omega
    simp only [if_neg hne, Nat.add_zero]
  · exact (Ledger.due_release _).trans (Ledger.due_release _)

theorem ClientState.DescriptorsOk.serversChanged (h : c.DescriptorsOk) :
    c.onServersChanged.DescriptorsOk := by
  have hrtree : c.onServersChanged.rtree = c.rtree := networkClose_rtree c
  have hissued : c.onServersChanged.descriptors.issued = c.descriptors.issued := by
    show c.networkClose.descriptors.issued = _
    unfold ClientState.networkClose
    dsimp only
    split_ifs <;> rfl
  have hpast : ∀ {fd : ℤ}, c.descriptors.Past descriptorName fd →
      c.onServersChanged.descriptors.Past descriptorName fd := by
    intro fd hfd k hk
    rw [hissued] at hk
    exact hfd k hk
  refine ⟨?_, ?_, ?_⟩
  · show c.networkClose.descriptors.Wf descriptorName
    unfold ClientState.networkClose
    dsimp only
    split_ifs
    · exact h.wf
    · exact h.wf.release h.backup
    · exact h.wf.release h.primary
    · exact (h.wf.release h.primary).release h.backup
  · rw [hrtree]
    exact hpast h.primary
  · rw [hrtree]
    exact hpast h.backup

theorem ClientState.DescriptorsOk.retry (h : c.DescriptorsOk) (a : RetryAnswers) :
    (c.serversRetryConnect a).1.DescriptorsOk := by
  have heq := retry_descriptors c a
  split_ifs at heq <;> simp only [Prod.mk.injEq] at heq <;> obtain ⟨hd, hp, hb⟩ := heq
  · refine ⟨hd ▸ h.wf.issue.issue, ?_, ?_⟩
    · rw [hd, hp]
      exact Ledger.past_of_lt descriptorName_injective (by simp only [Ledger.issued_issue]; omega)
    · rw [hd, hb]
      exact Ledger.past_of_lt descriptorName_injective (by simp only [Ledger.issued_issue]; omega)
  · refine ⟨hd ▸ h.wf.issue.release (past_neg_one _), ?_, ?_⟩
    · rw [hp]
      exact past_neg_one _
    · rw [hb]
      exact past_neg_one _
  · refine ⟨hd ▸ h.wf, ?_, ?_⟩
    · rw [hp]
      exact past_neg_one _
    · rw [hb]
      exact past_neg_one _

/-- What is due of the descriptors before a retry: those in the fields will not be closed any
more, and each new one must be closed once. -/
theorem due_retry_descriptors (h : c.DescriptorsOk) (a : RetryAnswers) (ops : List ClientOp) :
    (c.serversRetryConnect a).1.descriptors.Due descriptorName
      (descriptorsDue (c.serversRetryConnect a).1.rtree.primarySockfd
        (c.serversRetryConnect a).1.rtree.backupSockfd ops) ↔
    c.descriptors.Due descriptorName (descriptorsDue c.rtree.primarySockfd
        c.rtree.backupSockfd (.retry a :: ops)) ∧ a.ConnectionsClosed ops := by
  have heq := retry_descriptors c a
  have hnone : ∀ k, descriptorsDue (-1) (-1) ops (descriptorName k) = 0 := by
    intro k
    have := descriptorName_pos k
    have hne : descriptorName k ≠ -1 := by omega
    simp only [descriptorsDue, if_neg hne]
  have hdropped : ∀ fd, descriptorsDue c.rtree.primarySockfd c.rtree.backupSockfd
      (.retry a :: ops) fd = 0 := by
    intro fd
    simp only [descriptorsDue, closesDue, ite_self]
  have hne : ∀ {j k : ℕ}, j ≠ k → descriptorName j ≠ descriptorName k :=
    descriptorName_injective.ne
  unfold RetryAnswers.ConnectionsClosed
  split_ifs at heq with hconnects hrefuses <;> simp only [Prod.mk.injEq] at heq <;>
    obtain ⟨hd, hp, hb⟩ := heq <;> rw [hd, hp, hb]
  · have hrefuses : ¬ a.BackupRefuses := by
      intro hrefuses
      exact absurd (hconnects.2.2.symm.trans hrefuses.2.2) (by decide)
    rw [Ledger.due_issue h.wf.issue, Ledger.due_issue h.wf, Ledger.issued_issue, and_assoc]
    refine and_congr (Ledger.due_congr fun k hk => ?_) ?_
    · have hk' : descriptorName k ≠ descriptorName c.descriptors.issued := hne (by omega)
      have hk'' : descriptorName k ≠ descriptorName (c.descriptors.issued + 1) := hne (by omega)
      rw [hdropped, descriptorsDue, if_neg hk', if_neg hk'']
    · have hsucc := hne (Nat.succ_ne_self c.descriptors.issued)
      simp only [descriptorsDue, if_true, if_neg hsucc, if_neg hsucc.symm, Nat.add_zero,
        Nat.zero_add, and_self, closesDue_eq_one, hrefuses, not_false_eq_true, true_and,
        hconnects, forall_const]
  · -- the new descriptor is forgotten: what was to be closed is -1
    rw [Ledger.due_release, Ledger.due_issue h.wf]
    have hpos := descriptorName_pos c.descriptors.issued
    refine iff_of_false ?_ (fun hclosed => hclosed.2.1 hrefuses)
    rintro ⟨-, hlast⟩
    rw [hnone, if_neg (by omega)] at hlast
    exact absurd hlast (by decide)
  · simp only [hrefuses, hconnects, not_false_eq_true, false_imp_iff, and_true]
    refine Ledger.due_congr fun k hk => ?_
    rw [hnone, hdropped]

/-- Every descriptor will be closed exactly once if that is what is due of those so far, and the
connections of every later retry are closed. -/
theorem descriptors_allOnce_iff (h : c.DescriptorsOk) (ops : List ClientOp) :
    (c.finish ops).descriptors.AllOnce descriptorName ↔
      c.descriptors.Due descriptorName (descriptorsDue c.rtree.primarySockfd
        c.rtree.backupSockfd ops) ∧ EachRetry RetryAnswers.ConnectionsClosed ops := by
  induction ops generalizing c with
  | nil =>
    have hdescriptors : (c.finish []).descriptors = c.networkClose.descriptors := by
      show ((ClientState.free _ _).free _).descriptors = _
      rw [free_descriptors, free_descriptors]
      rfl
    rw [hdescriptors, ← Ledger.due_zero, due_networkClose]
    simp only [EachRetry, and_true]
    refine Ledger.due_congr fun k hk => ?_
    simp only [descriptorsDue, closesDue]
    omega
  | cons op ops ih =>
    cases op with
    | serversChanged =>
      have hfinish := ih h.serversChanged
      have hrtree : c.onServersChanged.rtree = c.rtree := networkClose_rtree c
      have hdescriptors : c.onServersChanged.descriptors = c.networkClose.descriptors := rfl
      rw [hrtree, hdescriptors, due_networkClose] at hfinish
      refine hfinish.trans (and_congr_left fun _ => Ledger.due_congr fun k hk => ?_)
      simp only [descriptorsDue, closesDue]
      split_ifs <;> omega
    | retry a =>
      have hfinish := ih (h.retry a)
      rw [due_retry_descriptors h a ops, and_assoc] at hfinish
      exact hfinish

end Descriptors

/-! ## Main result -/

/-- **Client resources.** With any answers and any calls between `rtree_connect` and
`rtree_disconnect`, every descriptor is closed and every address string freed exactly once if and
only if the calls are orderly. -/
theorem client_releases_iff (a : RetryAnswers) (ops : List ClientOp) :
    ((rtreeConnect a).finish ops).ReleasedOnce ↔ Orderly (.retry a :: ops) := by
  have hstrings : rtreeInit.StringsOk :=
    ⟨Ledger.wf_empty, fun i hi => absurd hi (by simp [rtreeInit]),
      fun i hi => absurd hi (by simp [rtreeInit])⟩
  have hdescriptors : rtreeInit.DescriptorsOk :=
    ⟨Ledger.wf_empty, past_neg_one _, past_neg_one _⟩
  have hs := strings_allOnce_iff hstrings (.retry a :: ops)
  have hd := descriptors_allOnce_iff hdescriptors (.retry a :: ops)
  have hfinish : rtreeInit.finish (.retry a :: ops) = (rtreeConnect a).finish ops := rfl
  -- nothing is due of empty ledgers
  have hempty : ∀ due, rtreeInit.strings.Due stringName due :=
    fun due k hk => absurd hk (Nat.not_lt_zero k)
  have hempty' : ∀ due, rtreeInit.descriptors.Due descriptorName due :=
    fun due k hk => absurd hk (Nat.not_lt_zero k)
  rw [hfinish] at hs hd
  simp only [hempty, true_and] at hs
  simp only [hempty', true_and] at hd
  exact (and_congr hd hs).trans and_comm

/-- A retry whose servers are all there. -/
def allConnect : RetryAnswers := ⟨.address 1, .address 2, true, true⟩

/-- A backup server that refuses the first connection, a change of the servers before
`rtree_disconnect`, a retry without a change before it, and a retry that gets no answer after one
that did: each breaks the rule. -/
theorem client_releases_wrong :
    ¬ ((rtreeConnect ⟨.address 1, .address 2, true, false⟩).finish []).ReleasedOnce ∧
    ¬ ((rtreeConnect allConnect).finish [.serversChanged]).ReleasedOnce ∧
    ¬ ((rtreeConnect allConnect).finish [.retry allConnect]).ReleasedOnce ∧
    ¬ ((rtreeConnect allConnect).finish
      [.serversChanged, .retry ⟨.missing, .missing, false, false⟩]).ReleasedOnce := by
  decide +kernel

end ReplicatedTree
