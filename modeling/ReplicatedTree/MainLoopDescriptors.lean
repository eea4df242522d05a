import ReplicatedTree.Lib.Handles
import ReplicatedTree.PollLoopTheorems

/-!
# The descriptors of the main loop (`network_server.c`)

What the main loop does with descriptors is a history: `accept` opens one, the handler of a
client uses one, `close` closes one. `networkMainLoop` is the history of a run that ends with
a failing `poll`. It can always be replayed, also in the runs in which the array does not stay
compact: no descriptor is used after it was closed, or closed twice, and in the end only
descriptor 0 can be left, which the loop stores but does not count.

The invariant of the loop is `Kept`. It does not say that the first entries are those in use,
but that the ones in use hold the clients in the order of acceptance, wherever they stand.
-/

namespace ReplicatedTree

open Slots Transition Handles

/-! ## What the functions do with descriptors -/

/-- The descriptors in the entries of the clients. -/
def openClientSockets (sockets : Sockets) : List ℤ :=
  (segment (fun i => (sockets i).fd) 1 maxClientSockets).filter fun fd => fd ≠ -1

/-- `_close_all_client_sockets`. -/
def closeAllClientSockets (sockets : Sockets) : List (Event ℤ) :=
  (openClientSockets sockets).map Event.release

/-- `_handle_listening_socket_events`. -/
def listeningSocketEvents (accepted : ℤ) (sockets : Sockets) (count : ℕ) : List (Event ℤ) :=
  if callsAccept sockets count ∧ 0 ≤ accepted then [.acquire accepted] else []

/-- The first loop of `_handle_client_sockets_events`. It changes an entry only when it has
come to it, so the entries it meets are those of the array it starts from. -/
def clientSocketsEvents (handlerResult : ℤ → ℤ) (sockets : Sockets) (count : ℕ) :
    List (Event ℤ) :=
  ((segment sockets 1 count).filter PollFd.handled).flatMap fun p =>
    .use p.fd :: if handlerResult p.fd < 0 then [.release p.fd] else []

/-- One iteration of the loop. -/
def roundEvents (s : LoopState) (round : Round) : List (Event ℤ) :=
  let sockets := pollSockets round s.clientSocketsCount s.sockets
  let (sockets', count) :=
    handleListeningSocketEvents round.accepted sockets s.clientSocketsCount
  listeningSocketEvents round.accepted sockets s.clientSocketsCount
    ++ clientSocketsEvents round.handlerResult sockets' count

/-- `network_main_loop`, from the head of its loop on: the given rounds, and a `poll` that
fails. -/
def networkMainLoop : LoopState → List Round → List (Event ℤ)
  | s, [] => closeAllClientSockets s.sockets
  | s, round :: rounds =>
    match loopStep s round with
    | none => []
    | some s' => roundEvents s round ++ networkMainLoop s' rounds

/-! ## The invariant -/

/-- The entries in use hold clients that are connected, in the order of acceptance; only
descriptor 0 can be connected and have no entry. -/
structure Occupied (sockets : Sockets) (connected : List ℤ) : Prop where
  sublist : (openClientSockets sockets).Sublist connected
  lost : ∀ fd ∈ connected, fd ∉ openClientSockets sockets → fd = 0
  nodup : connected.Nodup
  nonneg : ∀ fd ∈ connected, 0 ≤ fd

/-- What the head of the loop keeps in every run. -/
structure LoopState.Kept (listeningSocket : ℤ) (s : LoopState) : Prop where
  occupied : Occupied s.sockets s.connected
  count_le : s.clientSocketsCount ≤ maxClientSockets
  /-- an entry that is not counted is free, or holds descriptor 0 right behind the others -/
  behind : ∀ k, s.clientSocketsCount < k → k ≤ maxClientSockets →
    (s.sockets k).isClosed ∨ (k = s.clientSocketsCount + 1 ∧ (s.sockets k).fd = 0)
  listening : (s.sockets 0).fd = listeningSocket
  /-- nothing is written outside of the array -/
  outside : ∀ k, maxClientSockets < k → s.sockets k = ⟨-1, false⟩

theorem isClosed_iff {p : PollFd} : p.isClosed ↔ p.fd = -1 := decide_eq_true_iff

theorem mem_openClientSockets {sockets : Sockets} {fd : ℤ} :
    fd ∈ openClientSockets sockets
      ↔ ∃ k, 1 ≤ k ∧ k ≤ maxClientSockets ∧ fd ≠ -1 ∧ (sockets k).fd = fd := by
  simp only [openClientSockets, List.mem_filter, mem_segment, decide_eq_true_eq]
  constructor
  · rintro ⟨⟨k, hk, hk', heq⟩, hne⟩
    exact ⟨k, hk, by omega, hne, heq⟩
  · rintro ⟨k, hk, hk', hne, heq⟩
    exact ⟨⟨k, hk, by omega, heq⟩, hne⟩

/-- The entries themselves. -/
theorem openClientSockets_eq_map (sockets : Sockets) : openClientSockets sockets
    = ((segment sockets 1 maxClientSockets).filter fun p => !p.isClosed).map PollFd.fd := by
  unfold openClientSockets
  rw [segment_map PollFd.fd, List.filter_map]
  congr 1
  apply List.filter_congr
  intro p _
  simp [PollFd.isClosed]

theorem openClientSockets_congr {s s' : Sockets}
    (h : ∀ k, 1 ≤ k → k ≤ maxClientSockets → (s k).fd = (s' k).fd) :
    openClientSockets s = openClientSockets s' := by
  unfold openClientSockets
  rw [segment_congr fun k hk hk' => h k hk (by omega)]

/-- Two entries never hold one descriptor. -/
theorem index_eq_of_nodup {sockets : Sockets} (h : (openClientSockets sockets).Nodup) {j k : ℕ}
    (hj : 1 ≤ j) (hj' : j ≤ maxClientSockets) (hk : 1 ≤ k) (hk' : k ≤ maxClientSockets)
    (hopen : (sockets j).fd ≠ -1) (heq : (sockets j).fd = (sockets k).fd) : j = k := by
  unfold openClientSockets at h
  rw [List.Nodup, List.pairwise_filter, pairwise_segment] at h
  simp only [decide_eq_true_eq] at h
  by_contra hne
  rcases Nat.lt_or_gt_of_ne hne with hlt | hgt
  · exact h j k hj hlt (by omega) hopen (heq ▸ hopen) heq
  · exact h k j hk hgt (by omega) (heq ▸ hopen) hopen heq.symm

/-- The entries up to one behind which all are free. -/
theorem openClientSockets_split {s : Sockets} {n : ℕ} (hn : n < maxClientSockets)
    (h : ∀ k, n + 1 < k → k ≤ maxClientSockets → (s k).isClosed) :
    openClientSockets s = (segment (fun i => (s i).fd) 1 n).filter (fun fd => fd ≠ -1)
      ++ if (s (n + 1)).fd = -1 then [] else [(s (n + 1)).fd] := by
  have hsuffix : (segment (fun i => (s i).fd) (1 + n + 1) (maxClientSockets - (n + 1))).filter
      (fun fd => decide (fd ≠ -1)) = [] := by
    rw [List.filter_eq_nil_iff]
    intro fd hfd
    obtain ⟨k, hk, hk', rfl⟩ := mem_segment.1 hfd
    simp [isClosed_iff.1 (h k (by omega) (by omega))]
  have hsum : segment (fun i => (s i).fd) 1 maxClientSockets
      = segment (fun i => (s i).fd) 1 (n + (maxClientSockets - (n + 1) + 1)) := by
    congr 1
    omega
  unfold openClientSockets
  rw [hsum, segment_append, segment_succ, List.filter_append, List.filter_cons, hsuffix,
    Nat.add_comm 1 n]
  congr 1
  by_cases hc : (s (n + 1)).fd = -1 <;> simp [hc]

/-! ## One round, in two parts -/

/-- The loop after `poll` and `accept`. -/
def LoopState.listen (s : LoopState) (round : Round) : LoopState :=
  let sockets := pollSockets round s.clientSocketsCount s.sockets
  let (sockets, count) :=
    handleListeningSocketEvents round.accepted sockets s.clientSocketsCount
  { sockets := sockets, clientSocketsCount := count, connected := s.afterAccept round }

/-- The loop after the clients were handled. -/
def LoopState.handle (s : LoopState) (handlerResult : ℤ → ℤ) : LoopState :=
  let (sockets, count, closed) :=
    handleClientSocketsEvents handlerResult s.sockets s.clientSocketsCount
  { sockets := sockets
    clientSocketsCount := count
    connected := s.connected.filter fun fd => fd ∉ closed }

theorem loopStep_eq_some {s s' : LoopState} {round : Round} (h : loopStep s round = some s') :
    (s.accepts round → -1 ≤ round.accepted ∧ round.accepted ∉ s.connected) ∧
      s' = (s.listen round).handle round.handlerResult := by
  obtain ⟨hfresh, heq⟩ := Option.ite_none_left_eq_some.1 h
  refine ⟨fun hacc => ⟨?_, ?_⟩, (Option.some.inj heq).symm⟩
  · by_contra hlt
    exact hfresh ⟨hacc, Or.inl (by omega)⟩
  · exact fun hmem => hfresh ⟨hacc, Or.inr hmem⟩

section Listen

variable {listeningSocket : ℤ} {s : LoopState} {round : Round}

theorem listen_sockets_fd {k : ℕ} (hk : k ≠ s.clientSocketsCount + 1) :
    ((s.listen round).sockets k).fd = (s.sockets k).fd := by
  show ((handleListeningSocketEvents _ _ _).1 k).fd = _
  rw [handleListening_apply _ _ _ _ hk, pollSockets_fd]

theorem listen_sockets_outside {k : ℕ} (hk : s.clientSocketsCount + 1 < k) :
    (s.listen round).sockets k = s.sockets k := by
  show (handleListeningSocketEvents _ _ _).1 k = _
  rw [handleListening_apply _ _ _ _ (by omega), pollSockets, if_neg (by omega),
    if_neg (by omega)]

theorem listen_count : (s.listen round).clientSocketsCount
    = if s.accepts round ∧ 0 < round.accepted then s.clientSocketsCount + 1
      else s.clientSocketsCount :=
  handleListening_count _ _ _

/-- Without a call of `accept` the descriptors stay where they are. -/
theorem listen_of_not_accepts (hacc : ¬ s.accepts round) :
    (s.listen round).sockets = pollSockets round s.clientSocketsCount s.sockets ∧
      (s.listen round).clientSocketsCount = s.clientSocketsCount ∧
      (s.listen round).connected = s.connected := by
  have hskip : handleListeningSocketEvents round.accepted
      (pollSockets round s.clientSocketsCount s.sockets) s.clientSocketsCount
        = (pollSockets round s.clientSocketsCount s.sockets, s.clientSocketsCount) := if_neg hacc
  exact ⟨congrArg Prod.fst hskip, congrArg Prod.snd hskip, if_neg fun hc => hacc hc.1⟩

/-- A new client takes the entry behind those that are counted; if that one held descriptor
0, it is lost. -/
theorem Occupied.listen (h : s.Kept listeningSocket)
    (hfresh : s.accepts round → -1 ≤ round.accepted ∧ round.accepted ∉ s.connected) :
    Occupied (s.listen round).sockets (s.listen round).connected := by
  obtain ⟨hsub, hlost, hnd, hnonneg⟩ := h.occupied
  by_cases hacc : s.accepts round
  · obtain ⟨hge, hnew⟩ := hfresh hacc
    have hroom : s.clientSocketsCount < maxClientSockets := hacc.2
    have hfree : ∀ k, s.clientSocketsCount + 1 < k → k ≤ maxClientSockets →
        (s.sockets k).isClosed := fun k hk hk' =>
      (h.behind k (by omega) hk').resolve_right fun hc => by omega
    have hfree' : ∀ k, s.clientSocketsCount + 1 < k → k ≤ maxClientSockets →
        ((s.listen round).sockets k).isClosed := by
      intro k hk hk'
      rw [listen_sockets_outside hk]
      exact hfree k hk hk'
    have hold := openClientSockets_split hroom hfree
    have hopen := openClientSockets_split hroom hfree'
    have hfront : segment (fun i => ((s.listen round).sockets i).fd) 1 s.clientSocketsCount
        = segment (fun i => (s.sockets i).fd) 1 s.clientSocketsCount :=
      segment_congr fun k _ hk => listen_sockets_fd (by omega)
    have haccepted : ((s.listen round).sockets (s.clientSocketsCount + 1)).fd = round.accepted :=
      (handleListening_new hacc).1
    rw [hfront, haccepted] at hopen
    -- what stood in the entry before was nothing, or descriptor 0
    have hkept : ∀ fd ∈ s.connected,
        fd ∉ (segment (fun i => (s.sockets i).fd) 1 s.clientSocketsCount).filter
          (fun fd => fd ≠ -1) → fd = 0 := by
      intro fd hfd hno
      by_cases hmem : fd ∈ openClientSockets s.sockets
      · rw [hold, List.mem_append] at hmem
        have hlast := hmem.resolve_left hno
        split_ifs at hlast with hminus
        · exact absurd hlast List.not_mem_nil
        · rw [List.mem_singleton.1 hlast]
          rcases h.behind (s.clientSocketsCount + 1) (Nat.lt_succ_self _) hroom with hc | ⟨-, h0⟩
          · exact absurd (isClosed_iff.1 hc) hminus
          · exact h0
      · exact hlost fd hfd hmem
    have hfrontSub := (List.sublist_append_left _ _).trans (hold ▸ hsub)
    by_cases hpos : 0 ≤ round.accepted
    · have hconn : (s.listen round).connected = s.connected ++ [round.accepted] :=
        if_pos ⟨hacc, hpos⟩
      rw [if_neg (by omega)] at hopen
      rw [hconn]
      refine ⟨?_, ?_, ?_, ?_⟩
      · rw [hopen]
        exact hfrontSub.append_right _
      · intro fd hfd hno
        rw [hopen, List.mem_append, not_or] at hno
        rcases List.mem_append.1 hfd with hfd | hfd
        · exact hkept fd hfd hno.1
        · exact absurd hfd hno.2
      · exact List.nodup_append.2 ⟨hnd, List.nodup_singleton _, fun fd hfd fd' hfd' heq =>
          hnew (List.mem_singleton.1 hfd' ▸ heq ▸ hfd)⟩
      · intro fd hfd
        rcases List.mem_append.1 hfd with hfd | hfd
        · exact hnonneg fd hfd
        · exact List.mem_singleton.1 hfd ▸ hpos
    · have hconn : (s.listen round).connected = s.connected := if_neg fun hc => hpos hc.2
      rw [if_pos (by omega), List.append_nil] at hopen
      rw [hconn]
      exact ⟨hopen ▸ hfrontSub, hopen ▸ hkept, hnd, hnonneg⟩
  · obtain ⟨hsockets, -, hconn⟩ := listen_of_not_accepts hacc
    have hsame : openClientSockets (s.listen round).sockets = openClientSockets s.sockets :=
      openClientSockets_congr fun k _ _ => by rw [hsockets, pollSockets_fd]
    rw [hconn]
    exact ⟨hsame ▸ hsub, hsame ▸ hlost, hnd, hnonneg⟩

theorem LoopState.Kept.listen (h : s.Kept listeningSocket)
    (hfresh : s.accepts round → -1 ≤ round.accepted ∧ round.accepted ∉ s.connected) :
    (s.listen round).Kept listeningSocket where
  occupied := Occupied.listen h hfresh
  count_le := by
    rw [listen_count]
    split_ifs with hacc
    · exact hacc.1.2
    · exact h.count_le
  behind := by
    intro k hk hk'
    rw [listen_count] at hk ⊢
    by_cases hnext : k = s.clientSocketsCount + 1
    · subst hnext
      by_cases hacc : s.accepts round
      · -- the entry is not counted, so `accept` returned -1 or 0
        have hfd : ((s.listen round).sockets (s.clientSocketsCount + 1)).fd = round.accepted :=
          (handleListening_new hacc).1
        have hle : ¬ 0 < round.accepted := fun hlt => by
          rw [if_pos ⟨hacc, hlt⟩] at hk
          exact absurd hk (Nat.lt_irrefl _)
        rw [if_neg fun hc => hle hc.2, isClosed_iff, hfd]
        by_cases h0 : round.accepted = 0
        · exact Or.inr ⟨rfl, h0⟩
        · have hge := (hfresh hacc).1
          exact Or.inl (by omega)
      · obtain ⟨hsockets, -, -⟩ := listen_of_not_accepts hacc
        rw [if_neg fun hc => hacc hc.1, hsockets, isClosed_iff, pollSockets_fd,
          ← isClosed_iff]
        exact h.behind _ (Nat.lt_succ_self _) hk'
    · have hlt : s.clientSocketsCount + 1 < k := by
        split_ifs at hk <;> omega
      rw [listen_sockets_outside hlt]
      exact Or.inl ((h.behind k (by omega) hk').resolve_right fun hc => by omega)
  listening := by
    rw [listen_sockets_fd (Nat.succ_ne_zero _).symm]
    exact h.listening
  outside := by
    intro k hk
    by_cases hroom : s.clientSocketsCount < maxClientSockets
    · rw [listen_sockets_outside (by omega)]
      exact h.outside k hk
    · have hle := h.count_le
      have hacc : ¬ s.accepts round := fun hc => hroom hc.2
      rw [(listen_of_not_accepts hacc).1, pollSockets, if_neg (by omega), if_neg (by omega)]
      exact h.outside k hk

end Listen

section Handle

variable {listeningSocket : ℤ} {s : LoopState}

/-- A closed entry is marked, and every entry that holds a closed descriptor is. -/
theorem clientSocketsLoop_mark (handlerResult : ℤ → ℤ) (h : (openClientSockets s.sockets).Nodup)
    (hcount : s.clientSocketsCount ≤ maxClientSockets) {k : ℕ} (hk : 1 ≤ k)
    (hk' : k ≤ maxClientSockets) :
    ((clientSocketsLoop handlerResult 1 s.clientSocketsCount s.sockets []).1 k).fd
      = if (s.sockets k).fd ∈
            (clientSocketsLoop handlerResult 1 s.clientSocketsCount s.sockets []).2 then -1
        else (s.sockets k).fd := by
  rw [clientSocketsLoop_apply, clientSocketsLoop_closed, List.nil_append]
  have hiff : (1 ≤ k ∧ k < 1 + s.clientSocketsCount ∧
        (s.sockets k).fails handlerResult = true) ↔
      (s.sockets k).fd ∈ ((segment s.sockets 1 s.clientSocketsCount).filter
        (PollFd.fails handlerResult)).map PollFd.fd := by
    simp only [List.mem_map, List.mem_filter, mem_segment]
    constructor
    · rintro ⟨h1, h2, h3⟩
      exact ⟨s.sockets k, ⟨⟨k, h1, h2, rfl⟩, h3⟩, rfl⟩
    · rintro ⟨p, ⟨⟨j, h1, h2, rfl⟩, h3⟩, heq⟩
      have hopen : (s.sockets j).fd ≠ -1 := by
        intro hminus
        rw [PollFd.fails, PollFd.handled, hminus] at h3
        exact absurd h3 (by simp)
      obtain rfl := index_eq_of_nodup h h1 (by omega) hk hk' hopen heq
      exact ⟨h1, h2, h3⟩
  simp only [hiff]
  split_ifs <;> rfl

/-- What is open after the loop. -/
theorem openClientSockets_loop (handlerResult : ℤ → ℤ) (h : (openClientSockets s.sockets).Nodup)
    (hcount : s.clientSocketsCount ≤ maxClientSockets) :
    openClientSockets
        (clientSocketsLoop handlerResult 1 s.clientSocketsCount s.sockets []).1
      = (openClientSockets s.sockets).filter fun fd =>
          fd ∉ (clientSocketsLoop handlerResult 1 s.clientSocketsCount s.sockets []).2 := by
  have hmark := fun k hk hk' => @clientSocketsLoop_mark s handlerResult h hcount k hk hk'
  set closed := (clientSocketsLoop handlerResult 1 s.clientSocketsCount s.sockets []).2
  unfold openClientSockets
  rw [segment_congr fun k hk hk' => hmark k hk (by omega),
    segment_map (fun fd => if fd ∈ closed then -1 else fd) fun k => (s.sockets k).fd,
    List.filter_map, List.filter_filter]
  rw [List.map_congr_left (g := id), List.map_id]
  · apply List.filter_congr
    intro fd _
    by_cases hc : fd ∈ closed <;> simp [hc]
  · intro fd hfd
    have hne := (List.mem_filter.1 hfd).2
    by_cases hc : fd ∈ closed
    · simp [hc] at hne
    · simp [hc]

/-- Moving the closed sockets behind keeps what is open, in order. -/
theorem openClientSockets_move (sockets : Sockets) :
    openClientSockets (moveClosedSockets sockets).1 = openClientSockets sockets := by
  rw [openClientSockets_eq_map, openClientSockets_eq_map, (moveClosedSockets_filter sockets).1]

theorem moveLoop_zero (i : ℕ) (sockets : Sockets) (last : ℕ) (hi : i ≤ last) :
    (moveLoop i sockets last).1 0 = sockets 0 := by
  induction i generalizing sockets last with
  | zero => rfl
  | succ i ih =>
    unfold moveLoop
    split_ifs with hclosed
    · rw [ih _ _ (by omega), moveSocket_apply _ hi, if_neg (by omega), if_neg (by omega)]
    · exact ih _ _ (by omega)

/-- Nothing but the entries of the clients is moved. -/
theorem moveClosedSockets_apply (sockets : Sockets) {k : ℕ} (hk : k = 0 ∨ maxClientSockets < k) :
    (moveClosedSockets sockets).1 k = sockets k := by
  have hle : indexOfLastConnected sockets maxClientSockets ≤ maxClientSockets := by
    rcases indexOfLastConnected_spec sockets maxClientSockets with ⟨-, heq⟩ | ⟨-, hle, -⟩
    · exact Nat.le_of_eq heq
    · exact hle
  unfold moveClosedSockets
  rcases hk with rfl | hk
  · exact moveLoop_zero _ _ _ (Nat.sub_le _ 1)
  · exact (moveLoop_spec _ sockets _ (Nat.sub_le _ 1)).2.2.2 k (by omega)

theorem Occupied.filter {sockets sockets' : Sockets} {connected : List ℤ} {p : ℤ → Bool}
    (h : Occupied sockets connected)
    (hopen : openClientSockets sockets' = (openClientSockets sockets).filter p) :
    Occupied sockets' (connected.filter p) where
  sublist := hopen ▸ h.sublist.filter p
  lost := by
    intro fd hfd hno
    obtain ⟨hmem, hp⟩ := List.mem_filter.1 hfd
    rw [hopen, List.mem_filter] at hno
    exact h.lost fd hmem fun hc => hno ⟨hc, hp⟩
  nodup := h.nodup.filter p
  nonneg := fun fd hfd => h.nonneg fd (List.mem_of_mem_filter hfd)

/-- Closing some clients and moving the others together. -/
theorem LoopState.Kept.handle (h : s.Kept listeningSocket) (handlerResult : ℤ → ℤ) :
    (s.handle handlerResult).Kept listeningSocket := by
  have hloop := openClientSockets_loop handlerResult (h.occupied.nodup.sublist h.occupied.sublist)
    h.count_le
  have hsame : ∀ k, k = 0 ∨ s.clientSocketsCount < k →
      (clientSocketsLoop handlerResult 1 s.clientSocketsCount s.sockets []).1 k
        = s.sockets k := by
    intro k hk
    rw [clientSocketsLoop_apply, if_neg (by omega)]
  unfold LoopState.handle handleClientSocketsEvents
  -- `C` is the array after the loop over the clients
  rcases hC : clientSocketsLoop handlerResult 1 s.clientSocketsCount s.sockets []
    with ⟨C, closed⟩
  rw [hC] at hloop hsame
  dsimp only at hloop hsame ⊢
  have hcount := h.count_le
  by_cases hne : closed ≠ []
  · simp only [if_pos hne]
    obtain ⟨-, hle, hend⟩ := moveClosedSockets_filter C
    refine ⟨h.occupied.filter ?_, hle, fun k hk hk' => Or.inl (hend k hk hk'), ?_, ?_⟩
    · exact (openClientSockets_move C).trans hloop
    · have h0 := (moveClosedSockets_apply C (Or.inl rfl)).trans (hsame 0 (Or.inl rfl))
      exact (congrArg PollFd.fd h0).trans h.listening
    · intro k hk
      exact (moveClosedSockets_apply C (Or.inr hk)).trans
        ((hsame k (Or.inr (by omega))).trans (h.outside k hk))
  · simp only [if_neg hne]
    refine ⟨h.occupied.filter hloop, hcount, ?_, ?_, ?_⟩
    · intro k hk hk'
      have hbehind := h.behind k hk hk'
      rwa [← hsame k (Or.inr hk)] at hbehind
    · exact (congrArg PollFd.fd (hsame 0 (Or.inl rfl))).trans h.listening
    · intro k hk
      exact (hsame k (Or.inr (by omega))).trans (h.outside k hk)

end Handle

/-! ## Runs -/

theorem loopInit_kept (listeningSocket : ℤ) :
    (loopInit listeningSocket).Kept listeningSocket := by
  have hfree : ∀ k, k ≠ 0 → (loopInit listeningSocket).sockets k = ⟨-1, false⟩ :=
    fun k hk => if_neg hk
  have hnone : openClientSockets (loopInit listeningSocket).sockets = [] := by
    rw [List.eq_nil_iff_forall_not_mem]
    intro fd hfd
    obtain ⟨k, hk, -, hne, heq⟩ := mem_openClientSockets.1 hfd
    rw [hfree k (by omega)] at heq
    exact hne heq.symm
  refine ⟨⟨hnone ▸ List.Sublist.refl [], ?_, List.nodup_nil, ?_⟩, Nat.zero_le _, ?_, rfl, ?_⟩
  · exact fun fd hfd => absurd hfd List.not_mem_nil
  · exact fun fd hfd => absurd hfd List.not_mem_nil
  · intro k hk _
    rw [hfree k (by have : 0 < k := hk; omega)]
    exact Or.inl rfl
  · exact fun k hk => hfree k (by omega)

theorem kept_step {listeningSocket : ℤ} {s s' : LoopState} {round : Round}
    (h : s.Kept listeningSocket) (hstep : loopStep s round = some s') :
    s'.Kept listeningSocket := by
  obtain ⟨hfresh, rfl⟩ := loopStep_eq_some hstep
  exact (h.listen hfresh).handle round.handlerResult

theorem kept_of_run {listeningSocket : ℤ} {rounds : List Round} {s : LoopState}
    (h : run loopStep (loopInit listeningSocket) rounds = some s) : s.Kept listeningSocket :=
  run_invariant (fun _ _ _ hs hstep => kept_step hs hstep) (loopInit_kept listeningSocket) h

/-- **The array of sockets in every run.** Also in the runs in which it does not stay compact,
the entries in use hold connected clients, each once and in the order of acceptance, and only
descriptor 0 can be connected and have no entry; what is not counted is free but for an entry
with descriptor 0; the count fits the array, the entry of the listening socket stays, and
nothing is written outside. -/
theorem main_loop_kept (listeningSocket : ℤ) {rounds : List Round} {s : LoopState}
    (h : run loopStep (loopInit listeningSocket) rounds = some s) : s.Kept listeningSocket :=
  kept_of_run h

/-- The only client leaves, which breaks the array, and two others come. -/
theorem main_loop_kept_three : ∃ s : LoopState, s.Kept 3 ∧ s.connected = [4, 5] ∧
    run loopStep (loopInit 3) [connects 4, hangsUp 4, connects 4, connects 5] = some s :=
  ⟨_, @main_loop_kept 3 [connects 4, hangsUp 4, connects 4, connects 5] _ rfl, rfl, rfl⟩

theorem clientSocketsEvents_eq (handlerResult : ℤ → ℤ) (sockets : Sockets) (count : ℕ) :
    clientSocketsEvents handlerResult sockets count
      = visit (fun fd => decide (handlerResult fd < 0))
          (((segment sockets 1 count).filter PollFd.handled).map PollFd.fd) := by
  unfold clientSocketsEvents visit
  rw [List.flatMap_map]
  simp only [decide_eq_true_eq]

/-- The clients whose handler fails are those that are closed. -/
theorem clientSocketsLoop_closed_eq (handlerResult : ℤ → ℤ) (sockets : Sockets) (count : ℕ) :
    (clientSocketsLoop handlerResult 1 count sockets []).2
      = (((segment sockets 1 count).filter PollFd.handled).map PollFd.fd).filter
          fun fd => decide (handlerResult fd < 0) := by
  rw [clientSocketsLoop_closed, List.nil_append, List.filter_map, List.filter_filter]
  congr 1
  apply List.filter_congr
  intro p _
  exact Bool.and_comm _ _

/-- Handlers are called for clients with an entry, for each once. -/
theorem handled_sublist {sockets : Sockets} {count : ℕ} (hcount : count ≤ maxClientSockets) :
    (((segment sockets 1 count).filter PollFd.handled).map PollFd.fd).Sublist
      (openClientSockets sockets) := by
  have hfront : (segment sockets 1 count).Sublist (segment sockets 1 maxClientSockets) := by
    rw [← Nat.add_sub_cancel' hcount, segment_append]
    exact List.sublist_append_left _ _
  rw [openClientSockets_eq_map]
  refine List.Sublist.map _ ((hfront.filter _).trans (List.monotone_filter_right _ ?_))
  intro p hp
  have hge : 0 ≤ p.fd := of_decide_eq_true (Bool.and_eq_true_iff.1 hp).1
  have hne : p.fd ≠ -1 := by omega
  simpa [PollFd.isClosed] using hne

/-- What a round does with descriptors takes the clients from those before to those after. -/
theorem replay_roundEvents {listeningSocket : ℤ} {s s' : LoopState} {round : Round}
    (h : s.Kept listeningSocket) (hstep : loopStep s round = some s') :
    replay s.connected (roundEvents s round) = some s'.connected := by
  obtain ⟨hfresh, rfl⟩ := loopStep_eq_some hstep
  have hlisten : replay s.connected (listeningSocketEvents round.accepted
      (pollSockets round s.clientSocketsCount s.sockets) s.clientSocketsCount)
        = some (s.listen round).connected := by
    show replay _ (if s.accepts round ∧ 0 ≤ round.accepted then _ else _)
      = some (if s.accepts round ∧ 0 ≤ round.accepted then _ else _)
    split_ifs with hacc
    · rw [replay, run_cons, apply_acquire (hfresh hacc.1).2]
      rfl
    · rfl
  have hkept := h.listen hfresh
  have hsub := (handled_sublist hkept.count_le).trans hkept.occupied.sublist
  have hvisit := replay_visit (fun fd => decide (round.handlerResult fd < 0))
    (hkept.occupied.nodup.sublist hsub) fun fd hfd => hsub.subset hfd
  rw [← clientSocketsEvents_eq, ← clientSocketsLoop_closed_eq] at hvisit
  refine replay_append hlisten (hvisit.trans ?_)
  unfold LoopState.handle handleClientSocketsEvents
  rcases clientSocketsLoop round.handlerResult 1 (s.listen round).clientSocketsCount
    (s.listen round).sockets [] with ⟨C, closed⟩
  dsimp only
  split_ifs <;> rfl

/-- The whole history of a run. -/
theorem replay_networkMainLoop {listeningSocket : ℤ} {rounds : List Round} {s s' : LoopState}
    (h : s.Kept listeningSocket) (hrun : run loopStep s rounds = some s') :
    replay s.connected (networkMainLoop s rounds)
      = some (s'.connected.filter fun fd => fd ∉ openClientSockets s'.sockets) := by
  induction rounds generalizing s with
  | nil =>
    rw [run_nil, Option.some.injEq] at hrun
    subst hrun
    exact replay_release (h.occupied.nodup.sublist h.occupied.sublist)
      fun fd hfd => h.occupied.sublist.subset hfd
  | cons round rounds ih =>
    obtain ⟨s₁, h1, h2⟩ := Option.bind_eq_some_iff.1 hrun
    have hevents : networkMainLoop s (round :: rounds)
        = roundEvents s round ++ networkMainLoop s₁ rounds := by
      rw [networkMainLoop, h1]
    rw [hevents]
    exact replay_append (replay_roundEvents h h1) (ih (kept_step h h1) h2)

/-- **No descriptor is lost or misused.** From the first `poll` to the return after a failing
one, the main loop uses and closes only descriptors that `accept` gave it and that are open,
each is closed once, and none is left open: unless `accept` returned descriptor 0, and then
no other is. -/
theorem main_loop_descriptors (listeningSocket : ℤ) {rounds : List Round} {s : LoopState}
    (h : run loopStep (loopInit listeningSocket) rounds = some s) :
    ∃ left, replay [] (networkMainLoop (loopInit listeningSocket) rounds) = some left ∧
      ∀ fd ∈ left, fd = 0 ∧ .acquire fd ∈ networkMainLoop (loopInit listeningSocket) rounds := by
  have hreplay := replay_networkMainLoop (loopInit_kept listeningSocket) h
  have hkept := kept_of_run h
  refine ⟨_, hreplay, fun fd hfd => ⟨?_, ?_⟩⟩
  · obtain ⟨hmem, hno⟩ := List.mem_filter.1 hfd
    exact hkept.occupied.lost fd hmem (of_decide_eq_true hno)
  · exact (mem_of_replay hreplay hfd).resolve_left List.not_mem_nil

theorem main_loop_descriptors_three : ∃ s, s ∈ run loopStep (loopInit 3)
      [connects 4, hangsUp 4, connects 4, connects 5] ∧
    ∃ left, replay [] (networkMainLoop (loopInit 3)
        [connects 4, hangsUp 4, connects 4, connects 5]) = some left ∧
      ∀ fd ∈ left, fd = 0 ∧ .acquire fd ∈ networkMainLoop (loopInit 3)
        [connects 4, hangsUp 4, connects 4, connects 5] :=
  ⟨_, rfl, @main_loop_descriptors 3 [connects 4, hangsUp 4, connects 4, connects 5] _ rfl⟩

-- the entry of descriptor 0 is given to the next client
example : replay [] (networkMainLoop (loopInit 3) [connects 0, connects 4]) = some [0] := by
  decide

end ReplicatedTree
