import ReplicatedTree.PollLoopTheorems
import ReplicatedTree.Replication
import ReplicatedTree.ServerRuns

/-!
# Replication in order — theorems about `Replication`

Three orders have to agree: that of opening the connections, that of the backup's array
(`SlotsInv`), and that of becoming readable. With the last one given (`DeliversInOrder`), the
connection served next is always the oldest one whose write was not read
(`RoundInv.earlier_read`), so that the backup takes the writes in the order of sending.
-/

namespace ReplicatedTree

open Slots Transition

/-! ## Connections -/

/-- A connection with a write that was not read yet. -/
def IsUnread (connections : List Connection) (k : ℕ) : Prop :=
  ∃ c, connections[k]? = some c ∧ c.Unread

theorem descriptor_injective {j k : ℕ} (h : descriptor j = descriptor k) : j = k := by
  unfold descriptor at h
  omega

theorem connectionOf_descriptor (k : ℕ) : connectionOf (descriptor k) = k := by
  unfold connectionOf descriptor
  omega

theorem descriptor_ne (k : ℕ) : descriptor k ≠ -1 := by
  unfold descriptor
  omega

theorem isUnread_append {connections : List Connection} {c : Connection} {k : ℕ}
    (hk : k < connections.length) :
    IsUnread (connections ++ [c]) k ↔ IsUnread connections k := by
  unfold IsUnread
  rw [List.getElem?_append_left hk]

/-- Marking a write as arrived leaves it unread, marking it as read does not. -/
theorem isUnread_set {connections : List Connection} {c c' : Connection} {k j : ℕ}
    (hc : connections[k]? = some c) (hcc : c'.Unread → c.Unread)
    (h : IsUnread (connections.set k c') j) : IsUnread connections j := by
  obtain ⟨d, hd, hun⟩ := h
  by_cases hjk : k = j
  · subst hjk
    have hlt := (List.getElem?_eq_some_iff.1 hc).1
    rw [List.getElem?_set_self hlt, Option.some.injEq] at hd
    exact ⟨c, hc, hcc (hd ▸ hun)⟩
  · rw [List.getElem?_set_ne hjk] at hd
    exact ⟨d, hd, hun⟩

theorem not_isUnread_set {connections : List Connection} {c : Connection} {k : ℕ}
    (hr : c.read = true) : ¬ IsUnread (connections.set k c) k := by
  rintro ⟨d, hd, hun⟩
  have hlt := (List.getElem?_eq_some_iff.1 hd).1
  rw [List.length_set] at hlt
  rw [List.getElem?_set_self hlt, Option.some.injEq] at hd
  rw [← hd, Connection.Unread, hr] at hun
  exact absurd hun.2 (by decide)

/-! ## The array of the backup -/

/-- The array holds connections in the order of opening, and all whose write is unread. -/
structure SlotsInv (connections : List Connection) (accepted : ℕ) (sockets : Sockets)
    (count : ℕ) : Prop where
  accepted_le : accepted ≤ connections.length
  count_le : count ≤ maxClientSockets
  rest : ∀ i, count < i → i ≤ maxClientSockets → (sockets i).fd = -1
  bound : ∀ i, 1 ≤ i → i ≤ maxClientSockets → (sockets i).fd ≠ -1 →
    ∃ k < accepted, (sockets i).fd = descriptor k
  sorted : ∀ i j, 1 ≤ i → i < j → j ≤ maxClientSockets → (sockets i).fd ≠ -1 →
    (sockets j).fd ≠ -1 → (sockets i).fd < (sockets j).fd
  unread : ∀ k < accepted, IsUnread connections k →
    ∃ i, 1 ≤ i ∧ i ≤ maxClientSockets ∧ (sockets i).fd = descriptor k

/-- During a round, at index `i`: the passed entries have no unread write that `poll`
reported, and with an unread write `poll` reported all earlier ones. -/
structure RoundInv (connections : List Connection) (sockets : Sockets) (i : ℕ) : Prop where
  pos : 1 ≤ i
  passed : ∀ j k, 1 ≤ j → j < i → (sockets j).fd = descriptor k → IsUnread connections k →
    (sockets j).revents = false
  reported : ∀ j k k', 1 ≤ j → j ≤ maxClientSockets → (sockets j).revents = true →
    (sockets j).fd = descriptor k → IsUnread connections k → k' < k → IsUnread connections k' →
    ∃ j', 1 ≤ j' ∧ j' ≤ maxClientSockets ∧ (sockets j').fd = descriptor k' ∧
      (sockets j').revents = true

namespace SlotsInv

variable {connections connections' : List Connection} {accepted count : ℕ} {sockets : Sockets}

/-- The connections may change as long as no write becomes unread again. -/
theorem mono (h : SlotsInv connections accepted sockets count)
    (hlen : connections.length ≤ connections'.length)
    (hun : ∀ k < accepted, IsUnread connections' k → IsUnread connections k) :
    SlotsInv connections' accepted sockets count where
  accepted_le := h.accepted_le.trans hlen
  count_le := h.count_le
  rest := h.rest
  bound := h.bound
  sorted := h.sorted
  unread := fun k hk hu => h.unread k hk (hun k hk hu)

theorem le_count (h : SlotsInv connections accepted sockets count) {i k : ℕ}
    (hi : i ≤ maxClientSockets) (hfd : (sockets i).fd = descriptor k) : i ≤ count := by
  by_contra hlt
  rw [h.rest i (by omega) hi] at hfd
  exact descriptor_ne k hfd.symm

theorem lt_accepted (h : SlotsInv connections accepted sockets count) {i k : ℕ} (hi : 1 ≤ i)
    (hi' : i ≤ maxClientSockets) (hfd : (sockets i).fd = descriptor k) : k < accepted := by
  obtain ⟨k', hk', hfd'⟩ := h.bound i hi hi' (hfd ▸ descriptor_ne k)
  rw [descriptor_injective (hfd.symm.trans hfd')]
  exact hk'

/-- The sockets in the order of the array, as a list. -/
theorem sorted_filter (s : Sockets) :
    ((segment s 1 maxClientSockets).filter (fun p => !p.isClosed)).Pairwise
        (fun p q => p.fd < q.fd) ↔
      ∀ i j, 1 ≤ i → i < j → j ≤ maxClientSockets → (s i).fd ≠ -1 → (s j).fd ≠ -1 →
        (s i).fd < (s j).fd := by
  rw [List.pairwise_filter, pairwise_segment]
  simp only [PollFd.isClosed, Bool.not_eq_eq_eq_not, Bool.not_true, decide_eq_false_iff_not]
  constructor
  · intro h i j hi hij hj
    exact h i j hi hij (by omega)
  · intro h i j hi hij hj
    exact h i j hi hij (by omega)

/-- Moving the closed sockets to the end keeps everything the array is for. -/
theorem move (h : SlotsInv connections accepted sockets count) :
    SlotsInv connections accepted (moveClosedSockets sockets).1
      (moveClosedSockets sockets).2 := by
  obtain ⟨hfilter, hle, hend⟩ := moveClosedSockets_filter sockets
  have hmem : ∀ p : PollFd, (!p.isClosed) = true →
      ((∃ i, 1 ≤ i ∧ i < 1 + maxClientSockets ∧ (moveClosedSockets sockets).1 i = p) ↔
        ∃ i, 1 ≤ i ∧ i < 1 + maxClientSockets ∧ sockets i = p) := by
    intro p hp
    rw [← mem_segment, ← mem_segment]
    have hiff := congrArg (p ∈ ·) hfilter
    simp only [List.mem_filter, hp, and_true, eq_iff_iff] at hiff
    exact hiff
  refine ⟨h.accepted_le, hle, ?_, ?_, ?_, ?_⟩
  · intro i hi hi'
    simpa [PollFd.isClosed] using hend i hi hi'
  · intro i hi hi' hopen
    obtain ⟨j, hj, hj', heq⟩ := (hmem ((moveClosedSockets sockets).1 i)
      (by simpa [PollFd.isClosed] using hopen)).1 ⟨i, hi, by omega, rfl⟩
    rw [← heq] at hopen ⊢
    exact h.bound j hj (by omega) hopen
  · rw [← sorted_filter, hfilter, sorted_filter]
    exact h.sorted
  · intro k hk hun
    obtain ⟨i, hi, hi', hfd⟩ := h.unread k hk hun
    obtain ⟨j, hj, hj', heq⟩ := (hmem (sockets i)
      (by simp [PollFd.isClosed, hfd, descriptor_ne])).2 ⟨i, hi, by omega, rfl⟩
    exact ⟨j, hj, by omega, by rw [heq, hfd]⟩

end SlotsInv

namespace RoundInv

variable {connections connections' : List Connection} {accepted count i : ℕ} {sockets : Sockets}

theorem mono (h : RoundInv connections sockets i)
    (hs : SlotsInv connections accepted sockets count) (hi : i ≤ maxClientSockets + 1)
    (hun : ∀ k < accepted, IsUnread connections' k → IsUnread connections k) :
    RoundInv connections' sockets i where
  pos := h.pos
  passed := fun j k hj hj' hfd hu =>
    h.passed j k hj hj' hfd (hun k (hs.lt_accepted hj (by omega) hfd) hu)
  reported := by
    intro j k k' hj hj' hrev hfd hu hk hu'
    have hlt := hs.lt_accepted hj hj' hfd
    exact h.reported j k k' hj hj' hrev hfd (hun k hlt hu) hk (hun k' (hk.trans hlt) hu')

/-- All writes sent before the one that is served were read. -/
theorem earlier_read (h : RoundInv connections sockets i)
    (hs : SlotsInv connections accepted sockets count) (hi : i ≤ maxClientSockets) {k k' : ℕ}
    (hrev : (sockets i).revents = true) (hfd : (sockets i).fd = descriptor k)
    (hun : IsUnread connections k) (hk : k' < k) : ¬ IsUnread connections k' := by
  intro hun'
  obtain ⟨j', hj, hj', hfd', hrev'⟩ := h.reported i k k' h.pos hi hrev hfd hun hk hun'
  by_cases hlt : j' < i
  · -- a passed entry was not reported
    rw [h.passed j' k' hj hlt hfd' hun'] at hrev'
    exact absurd hrev' (by decide)
  · by_cases heq : j' = i
    · subst heq
      have hkk := descriptor_injective (hfd.symm.trans hfd')
      omega
    · have hsorted := hs.sorted i j' h.pos (by omega) hj' (hfd ▸ descriptor_ne k)
        (hfd' ▸ descriptor_ne k')
      rw [hfd, hfd', descriptor, descriptor] at hsorted
      omega

/-- Passing an entry without an unread write that was reported. -/
theorem pass (h : RoundInv connections sockets i)
    (hi : ∀ k, (sockets i).fd = descriptor k → IsUnread connections k →
      (sockets i).revents = false) : RoundInv connections sockets (i + 1) where
  pos := by omega
  passed := by
    intro j k hj hj' hfd hun
    by_cases heq : j = i
    · subst heq
      exact hi k hfd hun
    · exact h.passed j k hj (by omega) hfd hun
  reported := h.reported

end RoundInv

/-! ## Closing an entry -/

/-- The array with an entry marked as closed. -/
def closeEntry (sockets : Sockets) (i : ℕ) : Sockets :=
  Function.update sockets i { sockets i with fd := -1 }

section CloseEntry

variable {connections : List Connection} {accepted count i : ℕ} {sockets : Sockets}

theorem closeEntry_of_ne {j : ℕ} (hj : j ≠ i) : closeEntry sockets i j = sockets j :=
  Function.update_of_ne hj _ _

/-- What is open afterwards was so before. -/
theorem closeEntry_of_open {j : ℕ} (hopen : (closeEntry sockets i j).fd ≠ -1) :
    closeEntry sockets i j = sockets j := by
  apply closeEntry_of_ne
  intro heq
  rw [heq, closeEntry, Function.update_self] at hopen
  exact hopen rfl

/-- An entry whose connection has no unread write is not one that the loop still needs. -/
theorem SlotsInv.closeEntry (h : SlotsInv connections accepted sockets count)
    (hi : 1 ≤ i → ∀ k, (sockets i).fd = descriptor k → ¬ IsUnread connections k) :
    SlotsInv connections accepted (closeEntry sockets i) count where
  accepted_le := h.accepted_le
  count_le := h.count_le
  rest := by
    intro j hj hj'
    by_contra hopen
    rw [closeEntry_of_open hopen] at hopen
    exact hopen (h.rest j hj hj')
  bound := by
    intro j hj hj' hopen
    have heq := closeEntry_of_open hopen
    rw [heq] at hopen ⊢
    exact h.bound j hj hj' hopen
  sorted := by
    intro j j' hj hjj hj' hopen hopen'
    have heq := closeEntry_of_open hopen
    have heq' := closeEntry_of_open hopen'
    rw [heq] at hopen ⊢
    rw [heq'] at hopen' ⊢
    exact h.sorted j j' hj hjj hj' hopen hopen'
  unread := by
    intro k hk hun
    obtain ⟨j, hj, hj', hfd⟩ := h.unread k hk hun
    have hne : j ≠ i := fun heq => hi (heq ▸ hj) k (heq ▸ hfd) hun
    exact ⟨j, hj, hj', by rw [closeEntry_of_ne hne, hfd]⟩

theorem RoundInv.closeEntry {n : ℕ} (h : RoundInv connections sockets n)
    (hi : 1 ≤ i → ∀ k, (sockets i).fd = descriptor k → ¬ IsUnread connections k) :
    RoundInv connections (closeEntry sockets i) n where
  pos := h.pos
  passed := by
    intro j k hj hj' hfd hun
    have heq := closeEntry_of_open (hfd ▸ descriptor_ne k)
    rw [heq] at hfd ⊢
    exact h.passed j k hj hj' hfd hun
  reported := by
    intro j k k' hj hj' hrev hfd hun hk hun'
    have heq := closeEntry_of_open (hfd ▸ descriptor_ne k)
    rw [heq] at hfd hrev
    obtain ⟨l, hl, hl', hlfd, hlrev⟩ := h.reported j k k' hj hj' hrev hfd hun hk hun'
    have hne : l ≠ i := fun heq => hi (heq ▸ hl) k' (heq ▸ hlfd) hun'
    exact ⟨l, hl, hl', by rw [closeEntry_of_ne hne, hlfd], by rw [closeEntry_of_ne hne, hlrev]⟩

/-- After the handling of an entry, which has closed it if the handler failed. -/
theorem SlotsInv.close (h : SlotsInv connections accepted sockets count)
    (hr : RoundInv connections sockets (i + 1)) (closed : List ℤ) (result : ℤ) :
    SlotsInv connections accepted
        (handleClientSocketEvents (fun _ => result) i sockets closed).1 count ∧
      RoundInv connections (handleClientSocketEvents (fun _ => result) i sockets closed).1
        (i + 1) := by
  rw [handleClientSocketEvents_eq]
  by_cases hf : (sockets i).fails (fun _ => result) = true
  · rw [if_pos hf]
    have hrev : (sockets i).revents = true := by
      simp only [PollFd.fails, PollFd.handled, Bool.and_eq_true] at hf
      exact hf.1.2
    -- the entry was reported and is passed, so its write was read
    have hread : 1 ≤ i → ∀ k, (sockets i).fd = descriptor k → ¬ IsUnread connections k := by
      intro hpos k hfd hun
      rw [hr.passed i k hpos (by omega) hfd hun] at hrev
      exact absurd hrev (by decide)
    exact ⟨h.closeEntry hread, hr.closeEntry hread⟩
  · rw [if_neg hf]
    exact ⟨h, hr⟩

end CloseEntry

/-! ## One round of `poll` -/

/-- What arrived was preceded by everything sent before it. -/
def ArrivedInOrder (connections : List Connection) : Prop :=
  ∀ (j k : ℕ) (c d : Connection), j < k → connections[j]? = some c → connections[k]? = some d →
    c.write.isSome = true → d.arrived = true → c.arrived = true

/-- Reading a connection does not touch what has arrived. -/
theorem ArrivedInOrder.setRead {connections : List Connection} (h : ArrivedInOrder connections)
    {k : ℕ} {c : Connection} (hc : connections[k]? = some c) :
    ArrivedInOrder (connections.set k { c with read := true }) := by
  have hold : ∀ (m : ℕ) (d : Connection),
      (connections.set k { c with read := true })[m]? = some d →
      ∃ d', connections[m]? = some d' ∧ d'.write = d.write ∧ d'.arrived = d.arrived := by
    intro m d hd
    by_cases hkm : k = m
    · have hlt := (List.getElem?_eq_some_iff.1 hc).1
      rw [← hkm, List.getElem?_set_self hlt, Option.some.injEq] at hd
      exact ⟨c, hkm ▸ hc, by rw [← hd], by rw [← hd]⟩
    · rw [List.getElem?_set_ne hkm] at hd
      exact ⟨d, hd, rfl, rfl⟩
  intro j l d e hjl hd he hdw harr
  obtain ⟨d', hd', hdw', hda'⟩ := hold j d hd
  obtain ⟨e', he', -, hea'⟩ := hold l e he
  rw [← hda']
  exact h j l d' e' hjl hd' he' (hdw' ▸ hdw) (hea' ▸ harr)

/-- Only the descriptors matter. -/
theorem SlotsInv.congr {connections : List Connection} {accepted count : ℕ}
    {sockets sockets' : Sockets} (h : SlotsInv connections accepted sockets count)
    (hfd : ∀ i, 1 ≤ i → i ≤ maxClientSockets → (sockets' i).fd = (sockets i).fd) :
    SlotsInv connections accepted sockets' count where
  accepted_le := h.accepted_le
  count_le := h.count_le
  rest := by
    intro i hi hi'
    rw [hfd i (by omega) hi']
    exact h.rest i hi hi'
  bound := by
    intro i hi hi'
    rw [hfd i hi hi']
    exact h.bound i hi hi'
  sorted := by
    intro i j hi hij hj
    rw [hfd i hi (by omega), hfd j (by omega) hj]
    exact h.sorted i j hi hij hj
  unread := by
    intro k hk hun
    obtain ⟨i, hi, hi', heq⟩ := h.unread k hk hun
    exact ⟨i, hi, hi', by rw [hfd i hi hi', heq]⟩

/-- The connection accepted now is the newest one in the array. -/
theorem SlotsInv.accept {connections : List Connection} {accepted count : ℕ}
    {sockets sockets' : Sockets} (h : SlotsInv connections accepted sockets count)
    (hlt : accepted < connections.length) (hroom : count < maxClientSockets)
    (hnew : (sockets' (count + 1)).fd = descriptor accepted)
    (hfd : ∀ i, i ≠ count + 1 → (sockets' i).fd = (sockets i).fd) :
    SlotsInv connections (accepted + 1) sockets' (count + 1) where
  accepted_le := hlt
  count_le := hroom
  rest := by
    intro i hi hi'
    rw [hfd i (by omega)]
    exact h.rest i (by omega) hi'
  bound := by
    intro i hi hi' hopen
    by_cases heq : i = count + 1
    · exact ⟨accepted, by omega, heq ▸ hnew⟩
    · rw [hfd i heq] at hopen ⊢
      obtain ⟨k, hk, hk'⟩ := h.bound i hi hi' hopen
      exact ⟨k, by omega, hk'⟩
  sorted := by
    intro i j hi hij hj hopen hopen'
    by_cases hjn : j = count + 1
    · rw [hfd i (by omega)] at hopen ⊢
      obtain ⟨k, hk, hk'⟩ := h.bound i hi (by omega) hopen
      rw [hjn, hnew, hk', descriptor, descriptor]
      omega
    · by_cases hin : i = count + 1
      · rw [hfd j hjn] at hopen'
        exact absurd (h.rest j (by omega) hj) hopen'
      · rw [hfd i hin] at hopen ⊢
        rw [hfd j hjn] at hopen' ⊢
        exact h.sorted i j hi hij hj hopen hopen'
  unread := by
    intro k hk hun
    by_cases heq : k = accepted
    · exact ⟨count + 1, by omega, by omega, heq ▸ hnew⟩
    · obtain ⟨i, hi, hi', hik⟩ := h.unread k (by omega) hun
      have hcount := h.le_count hi' hik
      exact ⟨i, hi, hi', by rw [hfd i (by omega), hik]⟩

variable {s s' : ReplicationState}

/-- What `poll` reports of a connection in the array. -/
theorem pollSockets_revents (listening accepts : Bool) (other : ℕ → Bool) {i k : ℕ}
    {c : Connection} (hi : 1 ≤ i) (hi' : i ≤ s.clientSocketsCount)
    (hfd : (s.sockets i).fd = descriptor k) (hc : s.connections[k]? = some c) :
    (pollSockets (s.round listening accepts other) s.clientSocketsCount s.sockets i).revents
      = c.readable (other k) := by
  have hnonneg : 0 ≤ descriptor k := by
    unfold descriptor
    omega
  unfold pollSockets
  rw [if_neg (by omega), if_pos hi', hfd]
  simp [ReplicationState.round, connectionOf_descriptor, hc, hnonneg]

/-- The connection that was accepted, if there is one, is entered without events. -/
theorem SlotsInv.listened (h : SlotsInv s.connections s.accepted s.sockets s.clientSocketsCount)
    (listening accepts : Bool) (other : ℕ → Bool) (polled : Sockets)
    (hpolled : polled = pollSockets (s.round listening accepts other) s.clientSocketsCount
      s.sockets) (listened : Sockets × ℕ)
    (hlistened : listened = handleListeningSocketEvents (s.round listening accepts other).accepted
      polled s.clientSocketsCount) :
    SlotsInv s.connections
        (if callsAccept polled s.clientSocketsCount ∧ accepts then s.accepted + 1
          else s.accepted) listened.1 listened.2 ∧
      ∀ j k, (listened.1 j).fd = descriptor k → (listened.1 j).revents = true →
        listened.1 j = polled j := by
  have hpfd : ∀ i, (polled i).fd = (s.sockets i).fd := by
    intro i
    rw [hpolled]
    exact pollSockets_fd _ _ _ i
  have hold : ∀ i, i ≠ s.clientSocketsCount + 1 → listened.1 i = polled i := by
    intro i hi
    rw [hlistened]
    exact handleListening_apply _ _ _ _ hi
  by_cases hc : callsAccept polled s.clientSocketsCount
  · have hroom : s.clientSocketsCount < maxClientSockets := hc.2
    have hcount := handleListening_count (s.round listening accepts other).accepted polled
      s.clientSocketsCount
    obtain ⟨hnew, hrev⟩ := @handleListening_new (s.round listening accepts other).accepted polled
      s.clientSocketsCount hc
    rw [← hlistened] at hcount hnew hrev
    cases accepts with
    | true =>
      -- `poll` reports the listening socket only if a connection waits
      have hacc : (s.round listening true other).accepted = descriptor s.accepted := rfl
      have hpos : 0 < descriptor s.accepted := by
        unfold descriptor
        omega
      have hlt : s.accepted < s.connections.length := by
        have hzero := hc.1
        rw [hpolled] at hzero
        simp only [pollSockets, if_true, ReplicationState.round, Bool.and_eq_true,
          decide_eq_true_eq] at hzero
        exact hzero.2
      rw [hacc] at hnew hrev hcount
      rw [if_pos ⟨hc, hpos⟩] at hcount
      rw [if_pos ⟨hc, rfl⟩, hcount]
      refine ⟨h.accept hlt hroom hnew ?_, ?_⟩
      · intro i hi
        rw [hold i hi, hpfd]
      · intro j k _ hr
        apply hold
        intro heq
        rw [heq, hrev hpos] at hr
        exact absurd hr (by decide)
    | false =>
      -- the -1 of the failed `accept` is entered, and the entry stays free
      have hacc : (s.round listening false other).accepted = -1 := rfl
      rw [hacc] at hnew hcount
      rw [if_neg fun hp => absurd hp.2 (by decide)] at hcount
      rw [if_neg fun hp => absurd hp.2 (by decide), hcount]
      refine ⟨h.congr ?_, ?_⟩
      · intro i hi hi'
        by_cases heq : i = s.clientSocketsCount + 1
        · rw [heq, hnew, h.rest _ (by omega) (by omega)]
        · rw [hold i heq, hpfd]
      · intro j k hfd _
        apply hold
        intro heq
        rw [heq, hnew] at hfd
        exact descriptor_ne k hfd.symm
  · have hskip : listened = (polled, s.clientSocketsCount) := by
      rw [hlistened]
      exact if_neg hc
    rw [if_neg fun hp => hc hp.1, hskip]
    exact ⟨h.congr fun i _ _ => hpfd i, fun _ _ _ _ => rfl⟩

/-- A round begins: what is reported unread was preceded by what is reported, too. -/
theorem poll_inv (h : SlotsInv s.connections s.accepted s.sockets s.clientSocketsCount)
    (harr : ArrivedInOrder s.connections) {listening accepts : Bool} {other : ℕ → Bool}
    (hstep : s.poll listening accepts other = some s') :
    (s'.primary = s.primary ∧ s'.backup = s.backup ∧ s'.connections = s.connections ∧
      s'.loop = .serving 1 []) ∧
      SlotsInv s.connections s'.accepted s'.sockets s'.clientSocketsCount ∧
      RoundInv s.connections s'.sockets 1 := by
  unfold ReplicationState.poll at hstep
  split at hstep
  case h_2 => exact absurd hstep (by simp)
  rw [Option.some.injEq] at hstep
  subst hstep
  obtain ⟨hslots, holdest⟩ := h.listened listening accepts other _ rfl _ rfl
  refine ⟨⟨rfl, rfl, rfl, rfl⟩, hslots, le_rfl, fun j k hj hj' => by omega, ?_⟩
  intro j k k' hj hj' hrev hfd hun hk hun'
  dsimp only at hrev hfd ⊢
  obtain ⟨c, hc, hcu⟩ := id hun
  obtain ⟨c', hc', hcu'⟩ := id hun'
  -- the reported entry is one from before, so its write has arrived
  have heq := holdest j k hfd hrev
  rw [heq, pollSockets_fd] at hfd
  rw [heq, pollSockets_revents _ _ _ hj (h.le_count hj' hfd) hfd hc, Connection.readable,
    if_pos hcu] at hrev
  have harrived := harr k' k c' c hk hc' hc hcu'.1 hrev
  obtain ⟨i, hi, hi', hfd'⟩ :=
    h.unread k' (hk.trans (h.lt_accepted hj hj' hfd)) hun'
  have hcount := h.le_count hi' hfd'
  refine ⟨i, hi, hi', ?_⟩
  rw [handleListening_apply _ _ _ _ (by omega), pollSockets_fd,
    pollSockets_revents _ _ _ hi hcount hfd' hc', Connection.readable, if_pos hcu']
  exact ⟨hfd', harrived⟩

/-! ## The writes read so far -/

theorem sentWrites_concat (connections : List Connection) (c : Connection) :
    sentWrites (connections ++ [c]) = sentWrites connections ++ c.write.toList := by
  unfold sentWrites
  rw [List.filterMap_append, filterMap_singleton]

/-- The marks on a connection do not matter. -/
theorem sentWrites_set {connections : List Connection} {c c' : Connection} {k : ℕ} (n : ℕ)
    (hc : connections[k]? = some c) (hw : c'.write = c.write) :
    sentWrites ((connections.set k c').take n) = sentWrites (connections.take n) := by
  have hmap : (connections.set k c').map Connection.write = connections.map Connection.write := by
    obtain ⟨hlt, rfl⟩ := List.getElem?_eq_some_iff.1 hc
    rw [List.map_set, hw, ← List.getElem_map Connection.write (h := by simpa using hlt),
      List.set_getElem_self]
  have hsent : ∀ l : List Connection, sentWrites l = (l.map Connection.write).filterMap id := by
    intro l
    rw [List.filterMap_map]
    rfl
  rw [hsent, hsent, List.map_take, List.map_take, hmap]

theorem sentWrites_set_all {connections : List Connection} {c c' : Connection} {k : ℕ}
    (hc : connections[k]? = some c) (hw : c'.write = c.write) :
    sentWrites (connections.set k c') = sentWrites connections := by
  have hsame := sentWrites_set connections.length hc hw
  rwa [List.take_length, List.take_of_length_le (by rw [List.length_set])] at hsame

/-- A stretch of connections of clients adds no write. -/
theorem sentWrites_take_of_none {connections : List Connection} {n k : ℕ} (hnk : n ≤ k)
    (hclients : ∀ j d, n ≤ j → j < k → connections[j]? = some d → d.write = none) :
    sentWrites (connections.take k) = sentWrites (connections.take n) := by
  have hsplit : connections.take k = connections.take n ++ (connections.take k).drop n := by
    conv_lhs => rw [← List.take_append_drop n (connections.take k), List.take_take,
      min_eq_left hnk]
  have hnone : sentWrites ((connections.take k).drop n) = [] := by
    unfold sentWrites
    rw [List.filterMap_eq_nil_iff]
    intro d hd
    obtain ⟨j, hj⟩ := List.getElem?_of_mem hd
    rw [List.getElem?_drop] at hj
    have hjk : n + j < k := by
      have hlt := (List.getElem?_eq_some_iff.1 hj).1
      rw [List.length_take] at hlt
      omega
    rw [List.getElem?_take_of_lt hjk] at hj
    exact hclients (n + j) d (Nat.le_add_right n j) hjk hj
  rw [hsplit, sentWrites, List.filterMap_append]
  show sentWrites _ ++ sentWrites _ = _
  rw [hnone, List.append_nil]

/-- The writes of the first `n` connections were read, and no others. -/
structure ReadUpTo (connections : List Connection) (n : ℕ) (writes : List Message) : Prop where
  le : n ≤ connections.length
  read_iff : ∀ (k : ℕ) (c : Connection), connections[k]? = some c → c.write.isSome = true →
    (c.read = true ↔ k < n)
  writes_eq : writes = sentWrites (connections.take n)

namespace ReadUpTo

variable {connections : List Connection} {n k : ℕ} {writes : List Message} {c c' : Connection}

theorem prefix_sent (h : ReadUpTo connections n writes) : writes <+: sentWrites connections := by
  rw [h.writes_eq]
  exact (List.take_prefix n connections).filterMap Connection.write

theorem concat (h : ReadUpTo connections n writes) (hr : c.read = false) :
    ReadUpTo (connections ++ [c]) n writes where
  le := by
    rw [List.length_append]
    exact Nat.le_add_right_of_le h.le
  read_iff := by
    intro k d hd hw
    by_cases hk : k < connections.length
    · rw [List.getElem?_append_left hk] at hd
      exact h.read_iff k d hd hw
    · rw [List.getElem?_append_right (by omega)] at hd
      have hdc : d = c := List.mem_singleton.1 (List.mem_of_getElem? hd)
      have hle := h.le
      rw [hdc, hr]
      exact iff_of_false (by decide) (by omega)
  writes_eq := by
    rw [List.take_append_of_le_length h.le]
    exact h.writes_eq

/-- A mark that says nothing new about what was read. -/
theorem set (h : ReadUpTo connections n writes) (hc : connections[k]? = some c)
    (hw : c'.write = c.write) (hr : c.write.isSome = true → c'.read = c.read) :
    ReadUpTo (connections.set k c') n writes where
  le := by
    rw [List.length_set]
    exact h.le
  read_iff := by
    intro j d hd hdw
    by_cases hjk : k = j
    · subst hjk
      have hlt := (List.getElem?_eq_some_iff.1 hc).1
      rw [List.getElem?_set_self hlt, Option.some.injEq] at hd
      subst hd
      rw [hw] at hdw
      rw [hr hdw]
      exact h.read_iff k c hc hdw
    · rw [List.getElem?_set_ne hjk] at hd
      exact h.read_iff j d hd hdw
  writes_eq := by
    rw [sentWrites_set n hc hw]
    exact h.writes_eq

/-- The next write is read. -/
theorem receive (h : ReadUpTo connections n writes) {msg : Message}
    (hc : connections[k]? = some c) (hw : c.write = some msg) (hr : c.read = false)
    (hbefore : ∀ j < k, ¬ IsUnread connections j) :
    ReadUpTo (connections.set k { c with read := true }) (k + 1) (writes ++ [msg]) := by
  have hlt := (List.getElem?_eq_some_iff.1 hc).1
  have hsome : c.write.isSome = true := by rw [hw]; rfl
  have hnk : n ≤ k := by
    by_contra hlt'
    rw [(h.read_iff k c hc hsome).2 (by omega)] at hr
    exact absurd hr (by decide)
  -- between the last write read and this one there are only clients
  have hclients : ∀ j d, n ≤ j → j < k → connections[j]? = some d → d.write = none := by
    intro j d hnj hjk hd
    by_contra hdw
    have hdw' := Option.isSome_iff_ne_none.2 hdw
    have hdr : ¬ d.read = true := by
      rw [h.read_iff j d hd hdw']
      omega
    exact hbefore j hjk ⟨d, hd, hdw', by simpa using hdr⟩
  refine ⟨?_, ?_, ?_⟩
  · rw [List.length_set]
    exact hlt
  · intro j d hd hdw
    by_cases hjk : k = j
    · subst hjk
      rw [List.getElem?_set_self hlt, Option.some.injEq] at hd
      subst hd
      exact iff_of_true rfl (Nat.lt_succ_self k)
    · rw [List.getElem?_set_ne hjk] at hd
      rw [h.read_iff j d hd hdw]
      constructor
      · intro hj
        omega
      · intro hj
        by_contra hnj
        rw [hclients j d (by omega) (by omega) hd] at hdw
        exact absurd hdw (by decide)
  · have hskip := sentWrites_take_of_none hnk hclients
    have hlast : sentWrites (connections.take (k + 1))
        = sentWrites (connections.take k) ++ [msg] := by
      rw [List.take_add_one, hc, Option.toList_some, sentWrites_concat, hw]
      rfl
    rw [@sentWrites_set connections c { c with read := true } k (k + 1) hc rfl, hlast, hskip,
      ← h.writes_eq]

end ReadUpTo

/-! ## The invariant -/

/-- What is known where the backup's loop stands. -/
def LoopPc.Ok (connections : List Connection) (sockets : Sockets) (count : ℕ) : LoopPc → Prop
  | .polling => True
  | .serving i _ => i ≤ count + 1 ∧ RoundInv connections sockets i
  | .handling i _ => i ≤ count ∧ RoundInv connections sockets (i + 1)

structure ReplicationInv (s : ReplicationState) : Prop where
  primary : ∃ log ks, ServerInv s.primary log ks
  backup : ∃ log ks, ServerInv s.backup log ks
  sent : sentWrites s.connections = s.primary.replicated
  slots : SlotsInv s.connections s.accepted s.sockets s.clientSocketsCount
  loop : s.loop.Ok s.connections s.sockets s.clientSocketsCount
  arrived : ArrivedInOrder s.connections
  read : ∃ n, ReadUpTo s.connections n s.backup.taken

theorem LoopPc.Ok.mono {connections connections' : List Connection} {accepted count : ℕ}
    {sockets : Sockets} {pc : LoopPc} (h : pc.Ok connections sockets count)
    (hs : SlotsInv connections accepted sockets count)
    (hun : ∀ k < accepted, IsUnread connections' k → IsUnread connections k) :
    pc.Ok connections' sockets count := by
  have hle := hs.count_le
  cases pc with
  | polling => trivial
  | serving i closed => exact ⟨h.1, h.2.mono hs (by have := h.1; omega) hun⟩
  | handling i closed => exact ⟨h.1, h.2.mono hs (by have := h.1; omega) hun⟩

theorem replicationInit_inv : ReplicationInv replicationInit where
  primary := ⟨_, _, treeSkelInit_inv⟩
  backup := ⟨_, _, treeSkelInit_inv⟩
  sent := rfl
  slots := by
    have hclosed : ∀ i, 1 ≤ i → (replicationInit.sockets i).fd = -1 := by
      intro i hi
      show (if i = 0 then (⟨listeningSocket, false⟩ : PollFd) else ⟨-1, false⟩).fd = -1
      rw [if_neg (by omega)]
    refine ⟨Nat.le_refl 0, Nat.zero_le _, ?_, ?_, ?_, ?_⟩
    · intro i hi _
      exact hclosed i hi
    · intro i hi _ hopen
      exact absurd (hclosed i hi) hopen
    · intro i j hi _ _ hopen
      exact absurd (hclosed i hi) hopen
    · intro k hk
      exact absurd hk (Nat.not_lt_zero k)
  loop := trivial
  arrived := by
    intro j k c d _ hc
    exact absurd hc (by simp [replicationInit])
  read := ⟨0, Nat.le_refl 0, by simp [replicationInit], rfl⟩

namespace ReplicationInv

variable {s s' : ReplicationState}

/-- A new connection waits behind the others. -/
theorem opened (h : ReplicationInv s) {c : Connection} (ha : c.arrived = false)
    (hr : c.read = false) {primary : ServerState} (hp : ∃ log ks, ServerInv primary log ks)
    (hsent : sentWrites s.connections ++ c.write.toList = primary.replicated) :
    ReplicationInv { s with primary := primary, connections := s.connections ++ [c] } := by
  have hun : ∀ k < s.accepted, IsUnread (s.connections ++ [c]) k → IsUnread s.connections k := by
    intro k hk hu
    exact (isUnread_append (hk.trans_le h.slots.accepted_le)).1 hu
  refine ⟨hp, h.backup, ?_, ?_, h.loop.mono h.slots hun, ?_, ?_⟩
  · rw [← hsent]
    exact sentWrites_concat _ _
  · exact h.slots.mono (by simp) hun
  · intro j k d e hjk hd he hw harr
    by_cases hk : k < s.connections.length
    · rw [List.getElem?_append_left (hjk.trans hk)] at hd
      rw [List.getElem?_append_left hk] at he
      exact h.arrived j k d e hjk hd he hw harr
    · rw [List.getElem?_append_right (by omega)] at he
      rw [List.mem_singleton.1 (List.mem_of_getElem? he), ha] at harr
      exact absurd harr (by decide)
  · obtain ⟨n, hn⟩ := h.read
    exact ⟨n, hn.concat hr⟩

theorem primaryStep (h : ReplicationInv s) {a : ServerAction} (hstep : s.primaryStep a = some s') :
    ReplicationInv s' := by
  obtain ⟨primary, hserver, hrest⟩ := Option.bind_eq_some_iff.1 hstep
  obtain ⟨log, ks, hinv⟩ := h.primary
  have hcases := serverStep_cases hserver
  have hnext := hinv.step hcases
  have hrep := hinv.replicated_step hcases
  rw [← h.sent] at hrep
  split at hrest
  · rename_i task hw
    obtain ⟨msg, hdup, rfl⟩ := Option.map_eq_some_iff.1 hrest
    -- the write in hand is well-formed, so its copy is equal to it
    have hmsg : msg = task.opCodeAndArgs := by
      have hmem := List.mem_of_getElem? (hinv.writes_get hw)
      rw [hinv.writes_eq] at hmem
      rw [messageDup_eq (hinv.writes _ hmem).1] at hdup
      split_ifs at hdup
      exact (Option.some.inj hdup).symm
    have hover : s.primary.handedOver (.replicate true) = [task.opCodeAndArgs] := by
      simp [ServerState.handedOver, hw]
    rw [hover, ← hmsg] at hrep
    exact h.opened rfl rfl hnext hrep.symm
  · rename_i action _ _ hno
    have hover : s.primary.handedOver action = [] := by
      unfold ServerState.handedOver
      split
      · split
        · exact (hno _ rfl ‹_›).elim
        · rfl
      · rfl
    rw [hover, List.append_nil] at hrep
    rw [Option.some.injEq] at hrest
    subst hrest
    exact ⟨hnext, h.backup, hrep.symm, h.slots, h.loop, h.arrived, h.read⟩

theorem connect (h : ReplicationInv s) (hstep : s.connect = some s') : ReplicationInv s' := by
  rw [ReplicationState.connect, Option.some.injEq] at hstep
  subst hstep
  exact h.opened rfl rfl h.primary (by rw [Option.toList_none, List.append_nil]; exact h.sent)

theorem deliver (h : ReplicationInv s) {k : ℕ} (horder : DeliversInOrder s (.deliver k))
    (hstep : s.deliver k = some s') : ReplicationInv s' := by
  unfold ReplicationState.deliver at hstep
  split at hstep
  case h_2 => exact absurd hstep (by simp)
  rename_i c hc
  split_ifs at hstep with hw
  rw [Option.some.injEq] at hstep
  subst hstep
  have hlt := (List.getElem?_eq_some_iff.1 hc).1
  have hun : ∀ j < s.accepted, IsUnread (s.connections.set k { c with arrived := true }) j →
      IsUnread s.connections j := fun j _ hu =>
    @isUnread_set s.connections c { c with arrived := true } k j hc id hu
  refine ⟨h.primary, h.backup, ?_, ?_, h.loop.mono h.slots hun, ?_, ?_⟩
  · have hsame := @sentWrites_set_all s.connections c { c with arrived := true } k hc rfl
    exact hsame.trans h.sent
  · exact h.slots.mono (by rw [List.length_set]) hun
  · intro i j d e hij hd he hdw harr
    dsimp only at hd he
    -- an earlier connection with a write has arrived, by the order of delivery
    by_cases hki : k = i
    · rw [← hki, List.getElem?_set_self hlt, Option.some.injEq] at hd
      rw [← hd]
    · rw [List.getElem?_set_ne hki] at hd
      by_cases hkj : k = j
      · exact horder i (hkj ▸ hij) d hd hdw
      · rw [List.getElem?_set_ne hkj] at he
        exact h.arrived i j d e hij hd he hdw harr
  · obtain ⟨n, hn⟩ := h.read
    exact ⟨n, hn.set hc rfl fun _ => rfl⟩

theorem poll (h : ReplicationInv s) {listening accepts : Bool} {other : ℕ → Bool}
    (hstep : s.poll listening accepts other = some s') : ReplicationInv s' := by
  obtain ⟨⟨hp, hb, hc, hl⟩, hslots, hround⟩ := poll_inv h.slots h.arrived hstep
  refine ⟨hp ▸ h.primary, hb ▸ h.backup, ?_, hc ▸ hslots, ?_, hc ▸ h.arrived, ?_⟩
  · rw [hp, hc]
    exact h.sent
  · rw [hl, hc]
    exact ⟨by omega, hround⟩
  · rw [hc, hb]
    exact h.read

theorem scan (h : ReplicationInv s) (hstep : s.scan = some s') : ReplicationInv s' := by
  unfold ReplicationState.scan at hstep
  split at hstep
  case h_2 => exact absurd hstep (by simp)
  rename_i i closed hpc
  have hok := h.loop
  rw [hpc] at hok
  split_ifs at hstep with hi hhandled hclosed
  · -- the entry has no event, or no socket
    rw [Option.some.injEq] at hstep
    subst hstep
    refine ⟨h.primary, h.backup, h.sent, h.slots, ⟨Nat.succ_le_succ hi, ?_⟩, h.arrived, h.read⟩
    apply hok.2.pass
    intro k hfd _
    by_contra hrev
    apply hhandled
    have hnonneg : (s.sockets i).fd ≥ 0 := by
      rw [hfd, descriptor]
      omega
    simpa [PollFd.handled, hnonneg] using hrev
  · rw [Option.some.injEq] at hstep
    subst hstep
    exact ⟨h.primary, h.backup, h.sent, h.slots.move, trivial, h.arrived, h.read⟩
  · rw [Option.some.injEq] at hstep
    subst hstep
    exact ⟨h.primary, h.backup, h.sent, h.slots, trivial, h.arrived, h.read⟩

/-- The connection behind an entry whose handler is called. -/
theorem served (h : ReplicationInv s) {i : ℕ} (hi : 1 ≤ i)
    (hcount : i ≤ s.clientSocketsCount) (hh : (s.sockets i).handled = true) :
    (s.sockets i).fd = descriptor (connectionOf (s.sockets i).fd) ∧
      (s.sockets i).revents = true := by
  simp only [PollFd.handled, Bool.and_eq_true, decide_eq_true_eq] at hh
  obtain ⟨k, -, hk⟩ := h.slots.bound i hi (hcount.trans h.slots.count_le) (by omega)
  rw [hk, connectionOf_descriptor]
  exact ⟨rfl, hh.2⟩

/-- What the primary sends are writes it has executed. -/
theorem isWrite_of_sent (h : ReplicationInv s) {c : Connection} {msg : Message}
    (hc : c ∈ s.connections) (hw : c.write = some msg) : msg.IsWrite := by
  obtain ⟨log, ks, hinv⟩ := h.primary
  have hsent : msg ∈ sentWrites s.connections := List.mem_filterMap.2 ⟨c, hc, hw⟩
  rw [h.sent] at hsent
  have hexecuted := s.primary.replicated_isPrefix.subset hsent
  have hwrites := s.primary.executed_isPrefix.subset hexecuted
  rw [hinv.writes_eq] at hwrites
  exact (hinv.writes _ hwrites).2

theorem receive (h : ReplicationInv s) {request : Request} (hstep : s.receive request = some s') :
    ReplicationInv s' := by
  unfold ReplicationState.receive at hstep
  split at hstep
  case h_2 => exact absurd hstep (by simp)
  rename_i i closed hpc
  have hok := h.loop
  rw [hpc] at hok
  split at hstep
  case h_2 => exact absurd hstep (by simp)
  rename_i c hc
  split_ifs at hstep with hcond
  obtain ⟨hcount, hh, hoffers⟩ := hcond
  obtain ⟨backup, hserver, rfl⟩ := Option.map_eq_some_iff.1 hstep
  obtain ⟨hround, hpass⟩ := hok
  obtain ⟨hfd, hrev⟩ := h.served hpass.pos hcount hh
  set k := connectionOf (s.sockets i).fd with hk
  obtain ⟨log, ks, hinv⟩ := h.backup
  have hcases := serverStep_cases hserver
  have htaken := hinv.taken_step hcases
  have hlt := (List.getElem?_eq_some_iff.1 hc).1
  have hun : ∀ j < s.accepted, IsUnread (s.connections.set k { c with read := true }) j →
      IsUnread s.connections j := by
    intro j _ hu
    exact isUnread_set hc (fun hr => absurd hr.2 (by simp)) hu
  have hgone : ¬ IsUnread (s.connections.set k { c with read := true }) k :=
    not_isUnread_set rfl
  refine ⟨h.primary, hinv.step hcases, ?_, ?_, ⟨hcount, ?_⟩, ?_, ?_⟩
  · have hsame := @sentWrites_set_all s.connections c { c with read := true } k hc rfl
    exact hsame.trans h.sent
  · exact h.slots.mono (by rw [List.length_set]) hun
  · have hle := h.slots.count_le
    apply (hpass.mono h.slots (by omega) hun).pass
    intro k' hfd' hu
    rw [← descriptor_injective (hfd.symm.trans hfd')] at hu
    exact absurd hu hgone
  · exact h.arrived.setRead hc
  · obtain ⟨n, hn⟩ := h.read
    rw [htaken]
    unfold Connection.Offers at hoffers
    split at hoffers
    · rename_i msg hw
      obtain ⟨hr, rfl⟩ := hoffers
      refine ⟨k + 1, ?_⟩
      have hunread : IsUnread s.connections k := ⟨c, hc, by rw [hw]; rfl, hr⟩
      have hle := h.slots.count_le
      have hnext := hn.receive hc hw hr fun j hj =>
        hpass.earlier_read h.slots (by omega) hrev hfd hunread hj
      rw [ServerAction.newWrite, if_pos (h.isWrite_of_sent (List.mem_of_getElem? hc) hw)]
      exact hnext
    · rename_i hw
      refine ⟨n, ?_⟩
      rw [ServerAction.newWrite, if_neg hoffers, List.append_nil]
      exact hn.set hc rfl fun hsome => by simp [hw] at hsome

/-- The handler ends, without an unread write left at the entry. -/
theorem handled (h : ReplicationInv s) {i : ℕ} {closed : List ℤ} (result : ℤ)
    (hi : i ≤ s.clientSocketsCount) (hround : RoundInv s.connections s.sockets (i + 1)) :
    ReplicationInv (s.handled i closed result) := by
  obtain ⟨hslots, hpass⟩ := h.slots.close hround closed result
  exact ⟨h.primary, h.backup, h.sent, hslots, ⟨Nat.succ_le_succ hi, hpass⟩, h.arrived, h.read⟩

theorem receiveFails (h : ReplicationInv s) (hstep : s.receiveFails = some s') :
    ReplicationInv s' := by
  unfold ReplicationState.receiveFails at hstep
  split at hstep
  case h_2 => exact absurd hstep (by simp)
  rename_i i closed hpc
  have hok := h.loop
  rw [hpc] at hok
  split at hstep
  case h_2 => exact absurd hstep (by simp)
  rename_i c hc
  split_ifs at hstep with hcond
  rw [Option.some.injEq] at hstep
  subst hstep
  obtain ⟨hcount, hh, hno⟩ := hcond
  obtain ⟨hfd, -⟩ := h.served hok.2.pos hcount hh
  apply h.handled _ hcount
  apply hok.2.pass
  rintro k hfd' ⟨d, hd, hu⟩
  rw [← descriptor_injective (hfd.symm.trans hfd'), hc, Option.some.injEq] at hd
  exact absurd (hd ▸ hu) hno

theorem respond (h : ReplicationInv s) {sent : Bool} (hstep : s.respond sent = some s') :
    ReplicationInv s' := by
  unfold ReplicationState.respond at hstep
  split at hstep
  case h_2 => exact absurd hstep (by simp)
  rename_i i closed hpc
  have hok := h.loop
  rw [hpc] at hok
  by_cases hidle : s.backup.request = .idle
  · rw [if_pos hidle, Option.some.injEq] at hstep
    subst hstep
    exact h.handled _ hok.1 hok.2
  · rw [if_neg hidle] at hstep
    exact absurd hstep (by simp)

theorem backupStep (h : ReplicationInv s) {a : ServerAction} (hstep : s.backupStep a = some s') :
    ReplicationInv s' := by
  obtain ⟨log, ks, hinv⟩ := h.backup
  have hserver : ∃ backup, serverStep s.backup a = some backup ∧
      s' = { s with backup := backup } ∧ a.newWrite = [] := by
    unfold ReplicationState.backupStep at hstep
    split at hstep
    · exact absurd hstep (by simp)
    · exact absurd hstep (by simp)
    · rename_i hno _
      obtain ⟨backup, hb, rfl⟩ := Option.map_eq_some_iff.1 hstep
      refine ⟨backup, hb, rfl, ?_⟩
      unfold ServerAction.newWrite
      split
      · exact (hno _ rfl).elim
      · rfl
  obtain ⟨backup, hb, rfl, hnew⟩ := hserver
  have hcases := serverStep_cases hb
  have htaken := hinv.taken_step hcases
  rw [hnew, List.append_nil] at htaken
  refine ⟨h.primary, hinv.step hcases, h.sent, h.slots, h.loop, h.arrived, ?_⟩
  rw [htaken]
  exact h.read

theorem step (h : ReplicationInv s) {a : ReplicationAction} (horder : DeliversInOrder s a)
    (hstep : replicationStep s a = some s') : ReplicationInv s' := by
  unfold replicationStep at hstep
  cases a with
  | primary action => exact h.primaryStep hstep
  | connect => exact h.connect hstep
  | deliver k => exact h.deliver horder hstep
  | backup action => exact h.backupStep hstep
  | receive request => exact h.receive hstep
  | poll listening accepts other =>
    dsimp only at hstep
    split_ifs at hstep
    exact h.poll hstep
  | scan =>
    dsimp only at hstep
    split_ifs at hstep
    exact h.scan hstep
  | receiveFails =>
    dsimp only at hstep
    split_ifs at hstep
    exact h.receiveFails hstep
  | respond sent =>
    dsimp only at hstep
    split_ifs at hstep
    exact h.respond hstep

end ReplicationInv

/-! ## Runs -/

/-- **The backup follows the primary.** In every run in which the writes sent can be read in
the order of sending, the writes queued by the backup are the first of those the primary has
executed, under the ids the primary gave them, and the backup's tree is one the primary has
had. -/
theorem backup_follows_primary {as : List ReplicationAction} {s : ReplicationState}
    (h : run replicationStep replicationInit as = some s)
    (horder : StepsMeet replicationStep DeliversInOrder replicationInit as) :
    s.backup.writes <+: s.primary.executed ∧
      (∀ q ∈ acceptedWrites s.backup.answers,
        q ∈ acceptedWrites (s.primary.answers ++ s.primary.request.openAnswer)) ∧
      s.primary.tree = treeAfter (s.primary.executed.map Message.treeOp) ∧
      ∃ k ≤ s.primary.executed.length,
        s.backup.tree = treeAfter ((s.primary.executed.take k).map Message.treeOp) := by
  have hinv : ReplicationInv s :=
    run_invariant_of_meet (fun _ _ _ hC hP hstep => hP.step hC hstep) replicationInit_inv horder h
  obtain ⟨logP, ksP, hP⟩ := hinv.primary
  obtain ⟨logB, ksB, hB⟩ := hinv.backup
  obtain ⟨n, hread⟩ := hinv.read
  have hfirst : s.backup.writes <+: s.primary.executed := by
    have htaken : s.backup.writes <+: s.backup.taken := List.prefix_append _ _
    have hsent := hread.prefix_sent
    rw [hinv.sent] at hsent
    exact (htaken.trans hsent).trans s.primary.replicated_isPrefix
  refine ⟨hfirst, ?_, hP.tree_eq, ?_⟩
  · intro q hq
    -- an id is a position
    have hpos : q ∈ acceptedWrites (s.backup.answers ++ s.backup.request.openAnswer) := by
      rw [acceptedWrites_append]
      exact List.mem_append_left _ hq
    rw [hB.accepted] at hpos
    obtain ⟨⟨m, i⟩, hmem, rfl⟩ := List.mem_map.1 hpos
    rw [List.mk_mem_zipIdx_iff_getElem?, ← hB.writes_eq] at hmem
    obtain ⟨rest, hrest⟩ := hfirst.trans s.primary.executed_isPrefix
    rw [hP.accepted]
    refine List.mem_map.2 ⟨(m, i), ?_, rfl⟩
    rw [List.mk_mem_zipIdx_iff_getElem?, ← hP.writes_eq]
    obtain ⟨hi, -⟩ := List.getElem?_eq_some_iff.1 hmem
    rw [← hrest, List.getElem?_append_left hi]
    exact hmem
  · have hle := s.backup.executed_isPrefix.trans hfirst
    refine ⟨s.backup.executed.length, hle.length_le, ?_⟩
    rw [hB.tree_eq, ← List.prefix_iff_eq_take.1 hle]

/-- The primary accepts two writes, executes them and hands them over. -/
def handOverTwo : List ReplicationAction := twoWrites.map .primary

/-- The backup accepts both connections, with nothing to read from either. -/
def acceptTwo : List ReplicationAction :=
  [.poll true true fun _ => false, .scan, .scan, .poll true true fun _ => false, .scan, .scan,
    .scan]

theorem backup_follows_primary_two : ∃ s,
    run replicationStep replicationInit (handOverTwo ++ acceptTwo ++ [.deliver 0,
      .poll false false fun _ => false, .receive putRequest, .backup .handle,
      .backup .enqueue]) = some s ∧
    s.backup.writes = [putRequest.1] ∧ s.backup.writes <+: s.primary.executed := by
  refine ⟨_, rfl, rfl, ?_⟩
  refine (@backup_follows_primary (handOverTwo ++ acceptTwo ++ [.deliver 0,
    .poll false false fun _ => false, .receive putRequest, .backup .handle,
    .backup .enqueue]) _ rfl (StepsMeet.of_forall ?_)).1
  intro a ha s
  cases a with
  | deliver k =>
    have hk : k = 0 := by simpa [handOverTwo, acceptTwo] using ha
    intro j hj
    omega
  | _ => trivial

/-- Two connections that become readable in the other order. -/
theorem backup_overtakes : ∃ s,
    run replicationStep replicationInit (handOverTwo ++ acceptTwo ++ [.deliver 1,
      .poll false false fun _ => false, .scan, .receive otherRequest, .backup .handle,
      .backup .enqueue]) = some s ∧
    s.backup.writes = [otherRequest.1] ∧ s.primary.executed = [putRequest.1, otherRequest.1] ∧
    ¬ s.backup.writes <+: s.primary.executed :=
  ⟨_, rfl, rfl, rfl, by decide⟩

end ReplicatedTree
