import Mathlib.Data.List.Nodup
import ReplicatedTree.Lib.Transition
import ReplicatedTree.PollLoop

/-!
# The array of client sockets — theorems about `PollLoop`

The loops of `_handle_client_sockets_events` are first described entry by entry
(`clientSocketsLoop_apply`, `moveSocket_apply`) and then as a whole: closing marks the failed
clients, and moving the closed sockets keeps the others in order (`moveLoop_spec`). From
these follows when a round keeps the array compact (`compact_step_iff`), and with it a run.
-/

namespace ReplicatedTree

open Slots Transition

/-! ## Moving closed sockets to the end -/

theorem shiftLoop_apply (s : Sockets) (j n k : ℕ) (hj : 0 < j) :
    shiftLoop j n s k = if j ≤ k + 1 ∧ k + 1 < j + n then s (k + 1) else s k := by
  induction n generalizing j s with
  | zero =>
    rw [shiftLoop, if_neg (by omega)]
  | succ n ih =>
    rw [shiftLoop, ih _ _ (Nat.succ_pos j)]
    by_cases hk : k + 1 = j
    · subst hk
      rw [if_neg (by omega), if_pos (by omega)]
      simp
    · by_cases hlt : j + 1 ≤ k + 1 ∧ k + 1 < j + 1 + n
      · rw [if_pos hlt, if_pos (by omega), Function.update_of_ne (by omega)]
      · rw [if_neg hlt, if_neg (by omega), Function.update_of_ne (by omega)]

/-- Moving a socket to index `last` rotates the entries from its own index on. -/
theorem moveSocket_apply (s : Sockets) {i last : ℕ} (hi : i ≤ last) (k : ℕ) :
    moveSocket s i last k
      = if k = last then s i else if i ≤ k ∧ k < last then s (k + 1) else s k := by
  unfold moveSocket
  rw [Function.update_apply]
  by_cases hk : k = last
  · rw [if_pos hk, if_pos hk]
  · rw [if_neg hk, if_neg hk, shiftLoop_apply _ _ _ _ (Nat.succ_pos i)]
    by_cases hin : i ≤ k ∧ k < last
    · rw [if_pos (by omega), if_pos hin]
    · rw [if_neg (by omega), if_neg hin]

/-- An entry whose socket is closed. -/
def PollFd.isClosed (p : PollFd) : Bool := decide (p.fd = -1)

/-- The loop leaves the connected sockets in order in front, and closed ones behind. -/
theorem moveLoop_spec (i : ℕ) (s : Sockets) (last : ℕ) (hi : i ≤ last) :
    segment (moveLoop i s last).1 1 (moveLoop i s last).2
        = (segment s 1 i).filter (fun p => !p.isClosed) ++ segment s (i + 1) (last - i) ∧
      (moveLoop i s last).2 ≤ last ∧
      (∀ k, (moveLoop i s last).2 < k → k ≤ last → ((moveLoop i s last).1 k).isClosed) ∧
      ∀ k, last < k → (moveLoop i s last).1 k = s k := by
  -- from the last index of the loop down, as the loop goes
  induction i generalizing s last with
  | zero =>
    refine ⟨?_, Nat.le_refl last, ?_, fun k _ => rfl⟩
    · simp [moveLoop]
    · intro k hk hk'
      have hlt : last < k := hk
      omega
  | succ i ih =>
    unfold moveLoop
    have hconcat : segment s 1 (i + 1) = segment s 1 i ++ [s (i + 1)] := by
      rw [segment_concat, Nat.add_comm 1 i]
    by_cases hclosed : (s (i + 1)).fd = -1
    · rw [if_pos hclosed]
      have happly := moveSocket_apply s hi
      obtain ⟨hseg, hle, hend, hrest⟩ := ih (moveSocket s (i + 1) last) (last - 1) (by omega)
      refine ⟨?_, by omega, ?_, ?_⟩
      · have hfront : segment (moveSocket s (i + 1) last) 1 i = segment s 1 i := by
          apply segment_congr
          intro k hk hk'
          rw [happly, if_neg (by omega), if_neg (by omega)]
        have hback : segment (moveSocket s (i + 1) last) (i + 1) (last - 1 - i)
            = segment s (i + 1 + 1) (last - (i + 1)) := by
          rw [show last - 1 - i = last - (i + 1) by omega]
          apply segment_shift
          intro k hk hk'
          rw [happly, if_neg (by omega), if_pos (by omega)]
        rw [hseg, hfront, hback, hconcat, List.filter_append]
        simp [PollFd.isClosed, hclosed]
      · intro k hk hk'
        by_cases hlast : k = last
        · rw [hrest k (by omega), happly, if_pos hlast]
          simpa [PollFd.isClosed] using hclosed
        · exact hend k hk (by omega)
      · intro k hk
        rw [hrest k (by omega), happly, if_neg (by omega), if_neg (by omega)]
    · rw [if_neg hclosed]
      obtain ⟨hseg, hle, hend, hrest⟩ := ih s last (by omega)
      refine ⟨?_, hle, hend, hrest⟩
      rw [hseg, hconcat, List.filter_append, show last - i = last - (i + 1) + 1 by omega,
        segment_succ]
      simp [PollFd.isClosed, hclosed]

/-- The search finds the last connected socket, if there is one. -/
theorem indexOfLastConnected_spec (s : Sockets) (n : ℕ) :
    ((∀ k, 1 ≤ k → k ≤ n → (s k).isClosed) ∧ indexOfLastConnected s n = maxClientSockets) ∨
      (1 ≤ indexOfLastConnected s n ∧ indexOfLastConnected s n ≤ n ∧
        ¬ (s (indexOfLastConnected s n)).isClosed ∧
        ∀ k, indexOfLastConnected s n < k → k ≤ n → (s k).isClosed) := by
  induction n with
  | zero => exact Or.inl ⟨fun k hk hk' => by omega, rfl⟩
  | succ n ih =>
    unfold indexOfLastConnected
    by_cases hopen : (s (n + 1)).fd ≠ -1
    · rw [if_pos hopen]
      refine Or.inr ⟨by omega, by omega, ?_, fun k hk hk' => by omega⟩
      simpa [PollFd.isClosed] using hopen
    · rw [if_neg hopen]
      have hlast : (s (n + 1)).isClosed := by simpa [PollFd.isClosed] using hopen
      rcases ih with ⟨hall, heq⟩ | ⟨hpos, hle, hfound, hend⟩
      · refine Or.inl ⟨?_, heq⟩
        intro k hk hk'
        by_cases hkn : k = n + 1
        · rwa [hkn]
        · exact hall k hk (by omega)
      · refine Or.inr ⟨hpos, by omega, hfound, ?_⟩
        intro k hk hk'
        by_cases hkn : k = n + 1
        · rwa [hkn]
        · exact hend k hk (by omega)

theorem filter_open_eq_nil {s : Sockets} {a n : ℕ}
    (h : ∀ k, a ≤ k → k < a + n → (s k).isClosed) :
    (segment s a n).filter (fun p => !p.isClosed) = [] := by
  rw [List.filter_eq_nil_iff]
  intro p hp
  obtain ⟨k, hk, hk', rfl⟩ := mem_segment.1 hp
  simp [h k hk hk']

/-- With a socket still connected, the array ends up compact. -/
theorem moveClosedSockets_open {s : Sockets} {k : ℕ} (hk : 1 ≤ k) (hk' : k ≤ maxClientSockets)
    (hopen : ¬ (s k).isClosed) :
    segment (moveClosedSockets s).1 1 (moveClosedSockets s).2
        = (segment s 1 maxClientSockets).filter (fun p => !p.isClosed) ∧
      (moveClosedSockets s).2 ≤ maxClientSockets ∧
      ∀ i, (moveClosedSockets s).2 < i → i ≤ maxClientSockets →
        ((moveClosedSockets s).1 i).isClosed := by
  unfold moveClosedSockets
  rcases indexOfLastConnected_spec s maxClientSockets with ⟨hall, -⟩ | ⟨hpos, hle, hfound, hend⟩
  · exact absurd (hall k hk hk') hopen
  · dsimp only
    set last := indexOfLastConnected s maxClientSockets with hlast
    obtain ⟨hseg, hle', hclosed, hrest⟩ := moveLoop_spec (last - 1) s last (by omega)
    refine ⟨?_, by omega, ?_⟩
    · have hsplit : segment s 1 maxClientSockets
          = segment s 1 (last - 1)
            ++ (s last :: segment s (last + 1) (maxClientSockets - last)) := by
        have hsum : maxClientSockets = (last - 1) + (maxClientSockets - last + 1) := by omega
        rw [hsum, segment_append, segment_succ, ← hsum, show 1 + (last - 1) = last by omega]
      have hsuffix := filter_open_eq_nil (s := s) (a := last + 1) (n := maxClientSockets - last)
        fun i hi hi' => hend i (by omega) (by omega)
      have hone : segment s (last - 1 + 1) (last - (last - 1)) = [s last] := by
        rw [show last - 1 + 1 = last by omega, show last - (last - 1) = 1 by omega, segment_succ,
          segment_zero]
      rw [hseg, hone, hsplit, List.filter_append, List.filter_cons, hsuffix, if_pos]
      simpa using hfound
    · intro i hi hi'
      by_cases hil : i ≤ last
      · exact hclosed i hi hil
      · rw [hrest i (by omega)]
        exact hend i (by omega) hi'

/-- With no socket left, one entry too many is counted. -/
theorem moveClosedSockets_none {s : Sockets}
    (h : ∀ k, 1 ≤ k → k ≤ maxClientSockets → (s k).isClosed) : (moveClosedSockets s).2 = 1 := by
  unfold moveClosedSockets
  rcases indexOfLastConnected_spec s maxClientSockets with ⟨-, heq⟩ | ⟨hpos, hle, hfound, -⟩
  · dsimp only
    rw [heq]
    obtain ⟨hseg, -⟩ := moveLoop_spec (maxClientSockets - 1) s maxClientSockets (by omega)
    have hlen := congrArg List.length hseg
    rw [filter_open_eq_nil fun k hk hk' => h k hk (by omega)] at hlen
    simpa [maxClientSockets] using hlen
  · exact absurd (h _ hpos hle) hfound

/-- Whatever is closed, the connected sockets stay, in order, and the rest is closed. -/
theorem moveClosedSockets_filter (s : Sockets) :
    (segment (moveClosedSockets s).1 1 maxClientSockets).filter (fun p => !p.isClosed)
        = (segment s 1 maxClientSockets).filter (fun p => !p.isClosed) ∧
      (moveClosedSockets s).2 ≤ maxClientSockets ∧
      ∀ i, (moveClosedSockets s).2 < i → i ≤ maxClientSockets →
        ((moveClosedSockets s).1 i).isClosed := by
  by_cases hopen : ∃ k, 1 ≤ k ∧ k ≤ maxClientSockets ∧ ¬ (s k).isClosed
  · obtain ⟨k, hk, hk', hopen⟩ := hopen
    obtain ⟨hseg, hle, hend⟩ := moveClosedSockets_open hk hk' hopen
    refine ⟨?_, hle, hend⟩
    have hsplit := segment_append (moveClosedSockets s).1 1 (moveClosedSockets s).2
      (maxClientSockets - (moveClosedSockets s).2)
    rw [Nat.add_sub_cancel' hle] at hsplit
    have hsuffix := filter_open_eq_nil (s := (moveClosedSockets s).1)
      (a := 1 + (moveClosedSockets s).2) (n := maxClientSockets - (moveClosedSockets s).2)
      fun i hi hi' => hend i (by omega) (by omega)
    rw [hsplit, List.filter_append, hsuffix, List.append_nil, hseg, List.filter_filter]
    simp
  · have hall : ∀ k, 1 ≤ k → k ≤ maxClientSockets → (s k).isClosed := by
      intro k hk hk'
      by_contra hno
      exact hopen ⟨k, hk, hk', hno⟩
    have hone := moveClosedSockets_none hall
    unfold moveClosedSockets at hone ⊢
    rcases indexOfLastConnected_spec s maxClientSockets with ⟨-, heq⟩ | ⟨hpos, hle, hfound, -⟩
    · dsimp only at hone ⊢
      rw [heq] at hone ⊢
      obtain ⟨hseg, -, hend, -⟩ :=
        moveLoop_spec (maxClientSockets - 1) s maxClientSockets (by omega)
      rw [hone] at hseg hend ⊢
      have hfirst : (moveLoop (maxClientSockets - 1) s maxClientSockets).1 1
          = s maxClientSockets := by
        rw [filter_open_eq_nil fun k hk hk' => hall k hk (by omega)] at hseg
        exact (List.cons.inj hseg).1
      refine ⟨?_, by decide, hend⟩
      rw [filter_open_eq_nil fun k hk hk' => hall k hk (by omega)]
      apply filter_open_eq_nil
      intro k hk hk'
      by_cases hk1 : k = 1
      · rw [hk1, hfirst]
        exact hall _ (by decide) le_rfl
      · exact hend k (by omega) (by omega)
    · exact absurd (hall _ hpos hle) hfound

/-! ## Closing the clients that failed -/

/-- The handler is called for the entry, and fails. -/
def PollFd.fails (handlerResult : ℤ → ℤ) (p : PollFd) : Bool :=
  p.handled && decide (handlerResult p.fd < 0)

theorem handleClientSocketEvents_eq (handlerResult : ℤ → ℤ) (i : ℕ) (s : Sockets)
    (closed : List ℤ) : handleClientSocketEvents handlerResult i s closed =
      if (s i).fails handlerResult then
        (Function.update s i { s i with fd := -1 }, closed ++ [(s i).fd])
      else (s, closed) := by
  unfold handleClientSocketEvents PollFd.fails
  cases (s i).handled <;> by_cases hr : handlerResult (s i).fd < 0 <;> simp [hr]

theorem clientSocketsLoop_apply (handlerResult : ℤ → ℤ) (i n : ℕ) (s : Sockets)
    (closed : List ℤ) (k : ℕ) : (clientSocketsLoop handlerResult i n s closed).1 k =
      if i ≤ k ∧ k < i + n ∧ (s k).fails handlerResult = true then { s k with fd := -1 }
      else s k := by
  induction n generalizing i s closed with
  | zero =>
    rw [clientSocketsLoop, if_neg (by omega)]
  | succ n ih =>
    rw [clientSocketsLoop, handleClientSocketEvents_eq]
    by_cases hf : (s i).fails handlerResult = true
    · rw [if_pos hf]
      dsimp only
      rw [ih]
      by_cases hk : k = i
      · subst hk
        rw [if_neg (by omega), if_pos ⟨Nat.le_refl k, by omega, hf⟩, Function.update_self]
      · rw [Function.update_of_ne hk]
        have hiff : (i + 1 ≤ k ∧ k < i + 1 + n ∧ (s k).fails handlerResult = true) ↔
            (i ≤ k ∧ k < i + (n + 1) ∧ (s k).fails handlerResult = true) := by
          constructor <;> rintro ⟨h1, h2, h3⟩ <;> exact ⟨by omega, by omega, h3⟩
        simp only [hiff]
    · rw [if_neg hf]
      dsimp only
      rw [ih]
      by_cases hk : k = i
      · subst hk
        rw [if_neg (by omega), if_neg fun h => hf h.2.2]
      · have hiff : (i + 1 ≤ k ∧ k < i + 1 + n ∧ (s k).fails handlerResult = true) ↔
            (i ≤ k ∧ k < i + (n + 1) ∧ (s k).fails handlerResult = true) := by
          constructor <;> rintro ⟨h1, h2, h3⟩ <;> exact ⟨by omega, by omega, h3⟩
        simp only [hiff]

theorem clientSocketsLoop_closed (handlerResult : ℤ → ℤ) (i n : ℕ) (s : Sockets)
    (closed : List ℤ) : (clientSocketsLoop handlerResult i n s closed).2
      = closed ++ ((segment s i n).filter (PollFd.fails handlerResult)).map PollFd.fd := by
  induction n generalizing i s closed with
  | zero => simp [clientSocketsLoop]
  | succ n ih =>
    rw [clientSocketsLoop, handleClientSocketEvents_eq, segment_succ, List.filter_cons]
    by_cases hf : (s i).fails handlerResult = true
    · rw [if_pos hf, if_pos hf]
      dsimp only
      rw [ih, segment_update (Or.inl (Nat.lt_succ_self i)), List.map_cons, List.append_assoc,
        List.singleton_append]
    · rw [if_neg hf, if_neg hf]
      exact ih _ _ _

/-! ## The descriptors in the array -/

/-- The first entries hold the descriptors of a list, the others -1. -/
structure Holds (s : Sockets) (fds : List ℤ) : Prop where
  length_le : fds.length ≤ maxClientSockets
  front : segment (fun i => (s i).fd) 1 fds.length = fds
  rest : ∀ i, fds.length < i → i ≤ maxClientSockets → (s i).fd = -1

theorem Holds.fd_eq {s : Sockets} {fds : List ℤ} (h : Holds s fds) {i : ℕ}
    (hi : i < fds.length) : (s (i + 1)).fd = fds.get ⟨i, hi⟩ := by
  rw [← segment_eq_iff.1 h.front i hi, Nat.add_comm]

theorem holds_of_slots {s : Sockets} {fds : List ℤ} (hle : fds.length ≤ maxClientSockets)
    (hslots : ∀ i (h : i < fds.length), (s (i + 1)).fd = fds.get ⟨i, h⟩)
    (hrest : ∀ i, fds.length < i → i ≤ maxClientSockets → (s i).fd = -1) : Holds s fds where
  length_le := hle
  front := by
    rw [segment_eq_iff]
    intro i hi
    rw [Nat.add_comm]
    exact hslots i hi
  rest := hrest

theorem LoopState.Compact.holds {s : LoopState} (h : s.Compact) : Holds s.sockets s.connected :=
  holds_of_slots h.length_le h.slots h.rest

/-- The entries of the connected clients, one by one. -/
theorem Holds.mem {s : Sockets} {fds : List ℤ} (h : Holds s fds) {k : ℕ} (hk : 1 ≤ k)
    (hk' : k ≤ fds.length) : (s k).fd ∈ fds := by
  have heq := h.fd_eq (i := k - 1) (by omega)
  rw [show k - 1 + 1 = k by omega] at heq
  rw [heq]
  exact List.get_mem _ _

theorem Holds.index_eq {s : Sockets} {fds : List ℤ} (h : Holds s fds) (hnd : fds.Nodup)
    {j k : ℕ} (hj : 1 ≤ j) (hj' : j ≤ fds.length) (hk : 1 ≤ k) (hk' : k ≤ fds.length)
    (heq : (s j).fd = (s k).fd) : j = k := by
  have h1 := h.fd_eq (i := j - 1) (by omega)
  have h2 := h.fd_eq (i := k - 1) (by omega)
  rw [show j - 1 + 1 = j by omega] at h1
  rw [show k - 1 + 1 = k by omega] at h2
  rw [h1, h2] at heq
  have hidx := List.nodup_iff_injective_get.1 hnd heq
  simp only [Fin.mk.injEq] at hidx
  omega

/-- Closing marks the failed clients, and only them. -/
theorem Holds.closing {s : Sockets} {fds : List ℤ} (h : Holds s fds)
    (hnd : fds.Nodup) (handlerResult : ℤ → ℤ) {count : ℕ} (hcount : count ≤ fds.length) :
    segment (fun i => ((clientSocketsLoop handlerResult 1 count s []).1 i).fd) 1 fds.length
      = fds.map fun fd =>
          if fd ∈ (clientSocketsLoop handlerResult 1 count s []).2 then -1 else fd := by
  have hmark : ∀ k, 1 ≤ k → k < 1 + fds.length →
      ((clientSocketsLoop handlerResult 1 count s []).1 k).fd =
        if (s k).fd ∈ (clientSocketsLoop handlerResult 1 count s []).2 then -1
        else (s k).fd := by
    intro k hk hk'
    rw [clientSocketsLoop_apply, clientSocketsLoop_closed, List.nil_append]
    have hiff : (1 ≤ k ∧ k < 1 + count ∧ (s k).fails handlerResult = true) ↔
        (s k).fd ∈ ((segment s 1 count).filter (PollFd.fails handlerResult)).map PollFd.fd := by
      simp only [List.mem_map, List.mem_filter, mem_segment]
      constructor
      · rintro ⟨h1, h2, h3⟩
        exact ⟨s k, ⟨⟨k, h1, h2, rfl⟩, h3⟩, rfl⟩
      · rintro ⟨p, ⟨⟨j, h1, h2, rfl⟩, h3⟩, heq⟩
        have hjk := h.index_eq hnd h1 (by omega) hk (by omega) heq
        subst hjk
        exact ⟨h1, h2, h3⟩
    simp only [hiff]
    split_ifs <;> rfl
  rw [segment_congr hmark, segment_map (fun fd => if fd ∈ _ then -1 else fd) fun k => (s k).fd,
    h.front]

/-- What is left of the descriptors once the marked ones are dropped. -/
theorem filter_map_mark {fds closed : List ℤ} (h : ∀ fd ∈ fds, 0 ≤ fd) :
    (fds.map fun fd => if fd ∈ closed then -1 else fd).filter (fun fd => decide (fd ≠ -1))
      = fds.filter fun fd => fd ∉ closed := by
  induction fds with
  | nil => rfl
  | cons fd fds ih =>
    have hfd : fd ≠ -1 := by
      have := h fd List.mem_cons_self
      omega
    rw [List.map_cons, List.filter_cons, List.filter_cons, ih fun x hx => h x (by simp [hx])]
    by_cases hc : fd ∈ closed
    · simp [hc]
    · simp [hc, hfd]

/-- The entries that are open after the loop: the clients less the closed ones. -/
theorem Holds.open_of_closing {s : Sockets} {fds : List ℤ} (h : Holds s fds) (hnd : fds.Nodup)
    (hnonneg : ∀ fd ∈ fds, 0 ≤ fd) (handlerResult : ℤ → ℤ) {count : ℕ}
    (hcount : count ≤ fds.length) :
    ((segment (clientSocketsLoop handlerResult 1 count s []).1 1 maxClientSockets).filter
        fun p => !p.isClosed).map PollFd.fd
      = fds.filter fun fd => fd ∉ (clientSocketsLoop handlerResult 1 count s []).2 := by
  have hmark := h.closing hnd handlerResult hcount
  -- `C` is the array with the closed entries marked
  set C := (clientSocketsLoop handlerResult 1 count s []).1 with hC
  have hback : ∀ k, fds.length < k → k ≤ maxClientSockets → (C k).isClosed := by
    intro k hk hk'
    rw [hC, clientSocketsLoop_apply, if_neg (by omega)]
    simpa [PollFd.isClosed] using h.rest k hk hk'
  have hle := h.length_le
  have hsplit : segment C 1 maxClientSockets = segment C 1 fds.length
      ++ segment C (1 + fds.length) (maxClientSockets - fds.length) := by
    rw [← segment_append]
    congr 1
    omega
  have hsuffix : (segment C (1 + fds.length) (maxClientSockets - fds.length)).filter
      (fun p => !p.isClosed) = [] :=
    filter_open_eq_nil fun k hk hk' => hback k (by omega) (by omega)
  rw [hsplit, List.filter_append, hsuffix, List.append_nil, ← filter_map_mark hnonneg, ← hmark,
    segment_map PollFd.fd C, List.filter_map]
  congr 1
  apply List.filter_congr
  intro p _
  simp [PollFd.isClosed]

/-- Moving the closed sockets to the end leaves the open ones in front, if there are any. -/
theorem holds_moveClosedSockets {s : Sockets} {fds : List ℤ}
    (hopen : ((segment s 1 maxClientSockets).filter fun p => !p.isClosed).map PollFd.fd = fds)
    (hne : fds ≠ []) :
    Holds (moveClosedSockets s).1 fds ∧ (moveClosedSockets s).2 = fds.length := by
  subst hopen
  rw [ne_eq, List.map_eq_nil_iff] at hne
  obtain ⟨p, hp⟩ := List.exists_mem_of_ne_nil _ hne
  obtain ⟨hmem, hp⟩ := List.mem_filter.1 hp
  obtain ⟨k, hk, hk', rfl⟩ := mem_segment.1 hmem
  obtain ⟨hseg, hle, hend⟩ := moveClosedSockets_open hk (by omega) (by simpa using hp)
  have hlen := congrArg List.length hseg
  rw [length_segment] at hlen
  refine ⟨⟨?_, ?_, ?_⟩, ?_⟩
  · rw [List.length_map, ← hlen]
    exact hle
  · rw [List.length_map, ← hlen, segment_map, hseg]
  · intro i hi hi'
    rw [List.length_map, ← hlen] at hi
    simpa [PollFd.isClosed] using hend i hi hi'
  · rw [List.length_map, hlen]

/-- Without an open socket one is counted all the same. -/
theorem moveClosedSockets_of_nil {s : Sockets}
    (hopen : ((segment s 1 maxClientSockets).filter fun p => !p.isClosed).map PollFd.fd = []) :
    (moveClosedSockets s).2 = 1 := by
  rw [List.map_eq_nil_iff, List.filter_eq_nil_iff] at hopen
  apply moveClosedSockets_none
  intro k hk hk'
  simpa using hopen _ (mem_segment.2 ⟨k, hk, by omega, rfl⟩)

/-! ## One round -/

theorem pollSockets_fd (round : Round) (count : ℕ) (s : Sockets) (k : ℕ) :
    (pollSockets round count s k).fd = (s k).fd := by
  unfold pollSockets
  split_ifs <;> rfl

theorem pollSockets_fails {round : Round} {count k : ℕ} {s : Sockets} (hk : 1 ≤ k)
    (hk' : k ≤ count) (hfd : 0 ≤ (s k).fd) :
    (pollSockets round count s k).fails round.handlerResult
      = decide (round.Fails (s k).fd) := by
  rw [Bool.eq_iff_iff, decide_eq_true_iff]
  unfold pollSockets PollFd.fails PollFd.handled
  rw [if_neg (by omega), if_pos hk']
  simp [hfd, Round.Fails]

/-- The entries of the clients that were connected before do not change. -/
theorem handleListening_apply (accepted : ℤ) (s : Sockets) (count k : ℕ) (hk : k ≠ count + 1) :
    (handleListeningSocketEvents accepted s count).1 k = s k := by
  unfold handleListeningSocketEvents
  split_ifs
  · simp [Function.update_of_ne hk]
  · simp [Function.update_of_ne hk]
  · rfl

theorem handleListening_count (accepted : ℤ) (s : Sockets) (count : ℕ) :
    (handleListeningSocketEvents accepted s count).2
      = if callsAccept s count ∧ 0 < accepted then count + 1 else count := by
  unfold handleListeningSocketEvents
  by_cases hc : callsAccept s count
  · by_cases ha : accepted > 0 <;> simp [hc, ha]
  · simp [hc]

theorem handleListening_new {accepted : ℤ} {s : Sockets} {count : ℕ}
    (hc : callsAccept s count) :
    ((handleListeningSocketEvents accepted s count).1 (count + 1)).fd = accepted ∧
      (0 < accepted →
        ((handleListeningSocketEvents accepted s count).1 (count + 1)).revents = false) := by
  unfold handleListeningSocketEvents
  by_cases ha : accepted > 0 <;> simp [hc, ha]

namespace LoopState.Compact

variable {s : LoopState} {round : Round}

/-- The array while a round goes on, after `poll` and `accept`. -/
abbrev listened (s : LoopState) (round : Round) : Sockets × ℕ :=
  handleListeningSocketEvents round.accepted
    (pollSockets round s.clientSocketsCount s.sockets) s.clientSocketsCount

theorem afterAccept_length (s : LoopState) (round : Round) :
    (s.afterAccept round).length
      = s.connected.length + if s.accepts round ∧ 0 ≤ round.accepted then 1 else 0 := by
  unfold LoopState.afterAccept
  split_ifs <;> simp

/-- A new client is entered behind the others. -/
theorem holds_listened (h : s.Compact)
    (hfresh : ¬ (s.accepts round ∧ (round.accepted < -1 ∨ round.accepted ∈ s.connected))) :
    Holds (listened s round).1 (s.afterAccept round) := by
  have hold : ∀ k, k ≠ s.connected.length + 1 →
      ((listened s round).1 k).fd = (s.sockets k).fd := by
    intro k hk
    rw [handleListening_apply _ _ _ _ (by rw [h.count_eq]; exact hk), pollSockets_fd]
  by_cases hacc : s.accepts round
  · have hroom : s.connected.length < maxClientSockets := by
      have hlt := hacc.2
      rwa [h.count_eq] at hlt
    have hnew : ((listened s round).1 (s.connected.length + 1)).fd = round.accepted := by
      rw [← h.count_eq]
      exact (handleListening_new hacc).1
    by_cases hpos : 0 ≤ round.accepted
    · -- the new descriptor stands right behind the others
      have hafter : s.afterAccept round = s.connected ++ [round.accepted] :=
        if_pos ⟨hacc, hpos⟩
      rw [hafter]
      refine holds_of_slots ?_ ?_ ?_
      · rw [List.length_append, List.length_singleton]
        omega
      · intro i hi
        by_cases hlt : i < s.connected.length
        · rw [hold _ (by omega), h.slots i hlt]
          simp [hlt]
        · have heq : i = s.connected.length := by
            rw [List.length_append, List.length_singleton] at hi
            omega
          subst heq
          rw [hnew]
          simp
      · intro i hi hi'
        rw [List.length_append, List.length_singleton] at hi
        rw [hold _ (by omega)]
        exact h.rest i (by omega) hi'
    · -- `accept` failed: its -1 is stored in an entry that stays closed
      have hafter : s.afterAccept round = s.connected := if_neg fun hc => hpos hc.2
      have hminus : round.accepted = -1 := by
        have : ¬ round.accepted < -1 := fun hlt => hfresh ⟨hacc, Or.inl hlt⟩
        omega
      rw [hafter]
      refine holds_of_slots h.length_le ?_ ?_
      · intro i hi
        rw [hold _ (by omega)]
        exact h.slots i hi
      · intro i hi hi'
        by_cases heq : i = s.connected.length + 1
        · rw [heq, hnew, hminus]
        · rw [hold _ heq]
          exact h.rest i hi hi'
  · -- without room, or without an event, the array stays as it is
    have hafter : s.afterAccept round = s.connected := if_neg fun hc => hacc hc.1
    have hsame : ∀ k, ((listened s round).1 k).fd = (s.sockets k).fd := by
      intro k
      have hskip : listened s round
          = (pollSockets round s.clientSocketsCount s.sockets, s.clientSocketsCount) := if_neg hacc
      rw [hskip]
      exact pollSockets_fd _ _ _ _
    rw [hafter]
    refine holds_of_slots h.length_le ?_ ?_
    · intro i hi
      rw [hsame]
      exact h.slots i hi
    · intro i hi hi'
      rw [hsame]
      exact h.rest i hi hi'

theorem listened_count (h : s.Compact) : (listened s round).2
    = s.connected.length + if s.accepts round ∧ 0 < round.accepted then 1 else 0 := by
  have hcount := handleListening_count round.accepted
    (pollSockets round s.clientSocketsCount s.sockets) s.clientSocketsCount
  show (handleListeningSocketEvents _ _ _).2 = _
  rw [hcount, ← h.count_eq]
  unfold LoopState.accepts
  split_ifs <;> rfl

/-- The clients closed in a round are those that were connected and failed. -/
theorem closed_eq (h : s.Compact) :
    (clientSocketsLoop round.handlerResult 1 (listened s round).2 (listened s round).1 []).2
      = s.connected.filter fun fd => decide (round.Fails fd) := by
  have hfd : ∀ k, 1 ≤ k → k ≤ s.connected.length →
      (listened s round).1 k = pollSockets round s.clientSocketsCount s.sockets k := by
    intro k hk hk'
    exact handleListening_apply _ _ _ _ (by rw [h.count_eq]; omega)
  have hold : ((segment (listened s round).1 1 s.connected.length).filter
      (PollFd.fails round.handlerResult)).map PollFd.fd
        = s.connected.filter fun fd => decide (round.Fails fd) := by
    have hfilter : (segment (listened s round).1 1 s.connected.length).filter
          (PollFd.fails round.handlerResult)
        = (segment (listened s round).1 1 s.connected.length).filter
          fun p => decide (round.Fails p.fd) := by
      apply List.filter_congr
      intro p hp
      obtain ⟨k, hk, hk', rfl⟩ := mem_segment.1 hp
      have hmem : (s.sockets k).fd ∈ s.connected := h.holds.mem hk (by omega)
      rw [hfd k hk (by omega), pollSockets_fails hk (by rw [h.count_eq]; omega)
        (h.nonneg _ hmem), pollSockets_fd]
    have hmap : (segment (listened s round).1 1 s.connected.length).map PollFd.fd
        = s.connected := by
      rw [← segment_map]
      refine (segment_congr fun k hk hk' => ?_).trans h.holds.front
      show ((listened s round).1 k).fd = _
      rw [hfd k hk (by omega), pollSockets_fd]
    rw [hfilter]
    conv_rhs => rw [← hmap, List.filter_map]
    rfl
  rw [clientSocketsLoop_closed, List.nil_append, h.listened_count]
  split_ifs with hnew
  · -- the new client has no event yet
    have hlast : ((listened s round).1 (1 + s.connected.length)).fails round.handlerResult
        = false := by
      have hrev : ((listened s round).1 (s.clientSocketsCount + 1)).revents = false :=
        (handleListening_new hnew.1).2 hnew.2
      rw [Nat.add_comm, ← h.count_eq, PollFd.fails, PollFd.handled, hrev]
      simp
    rw [segment_concat, List.filter_append, List.map_append, hold]
    simp [hlast]
  · exact hold

/-- After a round without closings the count is right unless descriptor 0 was accepted. -/
theorem step_of_none (h : s.Compact)
    (hfresh : ¬ (s.accepts round ∧ (round.accepted < -1 ∨ round.accepted ∈ s.connected)))
    (hnone : ¬ ∃ fd ∈ s.connected, round.Fails fd) {s' : LoopState}
    (hstep : loopStep s round = some s') :
    s'.connected = s.afterAccept round ∧ Holds s'.sockets s'.connected ∧
      (s'.clientSocketsCount = s'.connected.length ↔
        ¬ (s.accepts round ∧ round.accepted = 0)) := by
  have hclosed : (clientSocketsLoop round.handlerResult 1 (listened s round).2
      (listened s round).1 []).2 = [] := by
    rw [h.closed_eq, List.filter_eq_nil_iff]
    intro fd hfd hf
    exact hnone ⟨fd, hfd, of_decide_eq_true hf⟩
  have hsame : ∀ k, (clientSocketsLoop round.handlerResult 1 (listened s round).2
      (listened s round).1 []).1 k = (listened s round).1 k := by
    intro k
    rw [clientSocketsLoop_apply]
    by_cases hk : 1 ≤ k ∧ k < 1 + (listened s round).2 ∧
        ((listened s round).1 k).fails round.handlerResult = true
    · -- a failing entry would be among the closed ones
      rw [clientSocketsLoop_closed, List.nil_append, List.map_eq_nil_iff,
        List.filter_eq_nil_iff] at hclosed
      exact absurd hk.2.2 (hclosed _ (mem_segment.2 ⟨k, hk.1, hk.2.1, rfl⟩))
    · rw [if_neg hk]
  unfold loopStep at hstep
  rw [if_neg hfresh, Option.some.injEq] at hstep
  simp only [handleClientSocketsEvents, hclosed, ne_eq, not_true_eq_false, if_false] at hstep
  subst hstep
  have hconn : ((s.afterAccept round).filter fun fd => fd ∉ ([] : List ℤ))
      = s.afterAccept round := List.filter_eq_self.2 (by simp)
  refine ⟨hconn, ?_, ?_⟩
  · show Holds _ (List.filter _ _)
    rw [hconn, funext hsame]
    exact h.holds_listened hfresh
  · show (listened s round).2 = (List.filter _ _).length ↔ _
    rw [hconn, h.listened_count, afterAccept_length]
    by_cases hzero : s.accepts round ∧ round.accepted = 0
    · rw [if_neg fun hc => by omega, if_pos ⟨hzero.1, by omega⟩]
      exact iff_of_false (by omega) (not_not_intro hzero)
    · by_cases hpos : s.accepts round ∧ 0 < round.accepted
      · rw [if_pos hpos, if_pos ⟨hpos.1, by omega⟩]
        exact iff_of_true rfl hzero
      · have hneg : ¬ (s.accepts round ∧ 0 ≤ round.accepted) := by
          rintro ⟨hacc, hge⟩
          have h1 : ¬ round.accepted = 0 := fun heq => hzero ⟨hacc, heq⟩
          have h2 : ¬ 0 < round.accepted := fun hlt => hpos ⟨hacc, hlt⟩
          omega
        rw [if_neg hpos, if_neg hneg]
        exact iff_of_true rfl hzero

theorem afterAccept_nonneg (h : s.Compact) : ∀ fd ∈ s.afterAccept round, 0 ≤ fd := by
  intro fd hfd
  unfold LoopState.afterAccept at hfd
  split_ifs at hfd with hacc
  · rcases List.mem_append.1 hfd with hfd | hfd
    · exact h.nonneg fd hfd
    · rw [List.mem_singleton.1 hfd]
      exact hacc.2
  · exact h.nonneg fd hfd

theorem afterAccept_nodup (h : s.Compact)
    (hfresh : ¬ (s.accepts round ∧ (round.accepted < -1 ∨ round.accepted ∈ s.connected))) :
    (s.afterAccept round).Nodup := by
  unfold LoopState.afterAccept
  split_ifs with hacc
  · rw [List.nodup_append]
    refine ⟨h.nodup, List.nodup_singleton _, ?_⟩
    intro fd hfd fd' hfd' heq
    rw [List.mem_singleton.1 hfd'] at heq
    exact hfresh ⟨hacc.1, Or.inr (heq ▸ hfd)⟩
  · exact h.nodup

/-- After a round with closings the count is right unless nobody is left. -/
theorem step_of_some (h : s.Compact)
    (hfresh : ¬ (s.accepts round ∧ (round.accepted < -1 ∨ round.accepted ∈ s.connected)))
    (hsome : ∃ fd ∈ s.connected, round.Fails fd) {s' : LoopState}
    (hstep : loopStep s round = some s') :
    s'.connected = (s.afterAccept round).filter
        (fun fd => fd ∉ s.connected.filter fun fd => decide (round.Fails fd)) ∧
      (s'.connected ≠ [] →
        Holds s'.sockets s'.connected ∧ s'.clientSocketsCount = s'.connected.length) ∧
      (s'.connected = [] → s'.clientSocketsCount = 1) := by
  set closed := s.connected.filter fun fd => decide (round.Fails fd) with hcl
  have hclosed : (clientSocketsLoop round.handlerResult 1 (listened s round).2
      (listened s round).1 []).2 = closed := h.closed_eq
  have hne : closed ≠ [] := by
    obtain ⟨fd, hfd, hf⟩ := hsome
    exact List.ne_nil_of_mem (List.mem_filter.2 ⟨hfd, decide_eq_true hf⟩)
  have hcount : (listened s round).2 ≤ (s.afterAccept round).length := by
    rw [h.listened_count, afterAccept_length]
    by_cases hacc : s.accepts round ∧ 0 < round.accepted
    · rw [if_pos hacc, if_pos ⟨hacc.1, by omega⟩]
    · rw [if_neg hacc]
      omega
  -- what is open after the loop are the clients there were, less the closed ones
  have hopen := (h.holds_listened hfresh).open_of_closing (h.afterAccept_nodup hfresh)
    h.afterAccept_nonneg round.handlerResult hcount
  rw [hclosed] at hopen
  unfold loopStep at hstep
  rw [if_neg hfresh, Option.some.injEq] at hstep
  simp only [handleClientSocketsEvents, hclosed, ne_eq, hne, not_false_eq_true, if_true] at hstep
  subst hstep
  refine ⟨rfl, fun hleft => holds_moveClosedSockets hopen hleft, fun hleft => ?_⟩
  exact moveClosedSockets_of_nil (hopen.trans hleft)

end LoopState.Compact

/-! ## Runs -/

theorem accepts_iff (s : LoopState) (round : Round) :
    s.accepts round ↔ round.listening = true ∧ s.clientSocketsCount < maxClientSockets :=
  Iff.rfl

theorem compact_of_holds {s : LoopState} (h : Holds s.sockets s.connected)
    (hcount : s.clientSocketsCount = s.connected.length) (hnd : s.connected.Nodup)
    (hnonneg : ∀ fd ∈ s.connected, 0 ≤ fd) : s.Compact where
  count_eq := hcount
  length_le := h.length_le
  slots := fun _ hi => h.fd_eq hi
  rest := h.rest
  nodup := hnd
  nonneg := hnonneg
  room := fun round hlisten hroom => (accepts_iff s round).2 ⟨hlisten, hcount ▸ hroom⟩

theorem loopInit_compact (listeningSocket : ℤ) : (loopInit listeningSocket).Compact := by
  refine compact_of_holds ⟨Nat.zero_le _, rfl, ?_⟩ rfl List.nodup_nil (by simp [loopInit])
  intro i hi _
  have hne : i ≠ 0 := by
    have hpos : 0 < i := hi
    omega
  simp [loopInit, hne]

/-- **One round.** A compact array stays compact exactly in the rounds that are `RoundOk`. -/
theorem compact_step_iff {s s' : LoopState} {round : Round} (h : s.Compact)
    (hstep : loopStep s round = some s') : s'.Compact ↔ s.RoundOk round := by
  have hfresh : ¬ (s.accepts round ∧ (round.accepted < -1 ∨ round.accepted ∈ s.connected)) := by
    intro hc
    unfold loopStep at hstep
    rw [if_pos hc] at hstep
    exact absurd hstep (by simp)
  have hnd := h.afterAccept_nodup hfresh
  have hnonneg : ∀ fd ∈ s.afterAccept round, 0 ≤ fd := h.afterAccept_nonneg
  unfold LoopState.RoundOk
  by_cases hsome : ∃ fd ∈ s.connected, round.Fails fd
  · obtain ⟨hconn, hopen, hnone⟩ := h.step_of_some hfresh hsome hstep
    rw [if_pos hsome]
    -- somebody is left exactly if the array is compact
    have hleft : s'.connected ≠ [] ↔
        (∃ fd ∈ s.connected, ¬ round.Fails fd) ∨ (s.accepts round ∧ 0 ≤ round.accepted) := by
      rw [hconn, ne_eq, List.filter_eq_nil_iff]
      simp only [List.mem_filter, decide_eq_true_eq, not_and, not_forall, not_not]
      constructor
      · rintro ⟨fd, hfd, hf⟩
        by_cases hacc : s.accepts round ∧ 0 ≤ round.accepted
        · exact Or.inr hacc
        · rw [LoopState.afterAccept, if_neg hacc] at hfd
          exact Or.inl ⟨fd, hfd, fun hfail => hf ⟨hfd, hfail⟩⟩
      · rintro (⟨fd, hfd, hf⟩ | hacc)
        · refine ⟨fd, ?_, fun hx => hf hx.2⟩
          unfold LoopState.afterAccept
          split_ifs
          · exact List.mem_append_left _ hfd
          · exact hfd
        · refine ⟨round.accepted, ?_, fun hx => hfresh ⟨hacc.1, Or.inr hx.1⟩⟩
          rw [LoopState.afterAccept, if_pos hacc]
          simp
    rw [← hleft]
    constructor
    · intro hc hnil
      have hcount := hc.count_eq
      rw [hnone hnil, hnil] at hcount
      exact absurd hcount (by simp)
    · intro hne
      obtain ⟨hholds, hcount⟩ := hopen hne
      refine compact_of_holds hholds hcount ?_ ?_
      · rw [hconn]
        exact hnd.filter _
      · intro fd hfd
        rw [hconn] at hfd
        exact hnonneg fd (List.mem_of_mem_filter hfd)
  · obtain ⟨hconn, hholds, hcount⟩ := h.step_of_none hfresh hsome hstep
    rw [if_neg hsome, ← hcount]
    constructor
    · exact fun hc => hc.count_eq
    · intro hc
      refine compact_of_holds hholds hc ?_ ?_
      · rwa [hconn]
      · rwa [hconn]

/-- Every round of a run ends with a compact array. -/
def CompactAfter (s : LoopState) (round : Round) : Prop :=
  ∀ s' ∈ loopStep s round, s'.Compact

theorem compactAfter_iff_of_run {s s' : LoopState} {rounds : List Round} (h0 : s.Compact)
    (h : run loopStep s rounds = some s') :
    StepsMeet loopStep CompactAfter s rounds ↔ StepsMeet loopStep LoopState.RoundOk s rounds := by
  induction rounds generalizing s with
  | nil => exact Iff.rfl
  | cons round rounds ih =>
    obtain ⟨s₁, h1, h2⟩ := Option.bind_eq_some_iff.1 h
    have hone : CompactAfter s round ↔ s.RoundOk round := by
      rw [← compact_step_iff h0 h1]
      unfold CompactAfter
      rw [h1]
      simp
    show (CompactAfter s round ∧ ∀ s' ∈ loopStep s round, _) ↔
      (s.RoundOk round ∧ ∀ s' ∈ loopStep s round, _)
    rw [h1, hone]
    refine and_congr_right fun hok => ?_
    have hcompact : s₁.Compact := (compact_step_iff h0 h1).2 hok
    constructor
    · intro hmeet s₂ hs₂
      rw [Option.mem_some_iff] at hs₂
      subst hs₂
      exact (ih hcompact h2).1 (hmeet _ rfl)
    · intro hmeet s₂ hs₂
      rw [Option.mem_some_iff] at hs₂
      subst hs₂
      exact (ih hcompact h2).2 (hmeet _ rfl)

/-- **When the array stays compact.** Every round of a run of the main loop ends with a
compact array if and only if every round is `RoundOk`: no round closes all the clients there
are, and no round without closings accepts descriptor 0. -/
theorem main_loop_compact_iff (listeningSocket : ℤ) {rounds : List Round} {s : LoopState}
    (h : run loopStep (loopInit listeningSocket) rounds = some s) :
    StepsMeet loopStep CompactAfter (loopInit listeningSocket) rounds ↔
      StepsMeet loopStep LoopState.RoundOk (loopInit listeningSocket) rounds :=
  compactAfter_iff_of_run (loopInit_compact listeningSocket) h

/-- A client connects. -/
def connects (fd : ℤ) : Round := ⟨true, fun _ => false, fd, fun _ => 0⟩

/-- A client sends something that cannot be handled, or hangs up. -/
def hangsUp (fd : ℤ) : Round := ⟨false, fun fd' => decide (fd' = fd), -1, fun _ => -1⟩

theorem main_loop_compact_two : ∃ s,
    run loopStep (loopInit 3) [connects 4, connects 5, hangsUp 4] = some s ∧
      (StepsMeet loopStep CompactAfter (loopInit 3) [connects 4, connects 5, hangsUp 4] ↔
        StepsMeet loopStep LoopState.RoundOk (loopInit 3)
          [connects 4, connects 5, hangsUp 4]) :=
  ⟨_, rfl, @main_loop_compact_iff 3 [connects 4, connects 5, hangsUp 4] _ rfl⟩

/-- Once the only client has left, one entry too many is counted; with four clients the
array then is full, and a fifth is not accepted. -/
theorem main_loop_not_compact : ∃ s s',
    run loopStep (loopInit 3) [connects 4, hangsUp 4] = some s ∧
      s.connected = [] ∧ s.clientSocketsCount = 1 ∧ ¬ s.Compact ∧
      run loopStep s [connects 4, connects 5, connects 6, connects 7] = some s' ∧
      s'.connected.length = 4 ∧ ¬ s'.accepts (connects 8) := by
  refine ⟨_, _, rfl, rfl, rfl, ?_, rfl, rfl, by decide⟩
  intro hc
  exact absurd hc.count_eq (by decide)

end ReplicatedTree
