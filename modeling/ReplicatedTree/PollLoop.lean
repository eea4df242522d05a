import ReplicatedTree.Lib.Slots
import Mathlib.Data.Int.Basic

/-!
# The server's main loop (`network_server.c`)

The array of `struct pollfd` is a function from its indices; entry 0 is the listening socket,
entries 1 to `MAX_CLIENT_SOCKETS` are for clients. Only the `POLLIN` bit of `revents` is ever
tested, and `events` never changes, so an entry is its descriptor and that bit.

What the outside does in one iteration of the loop is a `Round`: what `poll` reports, what
`accept` returns, and what the handler of each client returns. A failing `poll` ends the
loop; it is not a round.
-/

namespace ReplicatedTree

/-- `MAX_CLIENT_SOCKETS`. -/
def maxClientSockets : ℕ := 5

/-- `struct pollfd`. -/
structure PollFd where
  fd : ℤ
  revents : Bool
deriving DecidableEq

abbrev Sockets := ℕ → PollFd

/-- What the outside does in one iteration. -/
structure Round where
  /-- whether a connection waits at the listening socket -/
  listening : Bool
  /-- whether there is something to read from a descriptor -/
  readable : ℤ → Bool
  /-- what `accept` returns, if it is called -/
  accepted : ℤ
  /-- what `_handle_client_socket_pollin_event` returns for a descriptor -/
  handlerResult : ℤ → ℤ

/-- The `revents` that `poll` stores in the first `1 + count` entries; it skips entries with
a negative descriptor, and clears their bit. -/
def pollSockets (round : Round) (count : ℕ) (sockets : Sockets) : Sockets := fun i =>
  if i = 0 then { sockets i with revents := round.listening }
  else if i ≤ count then
    { sockets i with revents := decide (0 ≤ (sockets i).fd) && round.readable (sockets i).fd }
  else sockets i

/-- The test at the head of `_handle_listening_socket_events`. -/
def callsAccept (sockets : Sockets) (count : ℕ) : Prop :=
  (sockets 0).revents = true ∧ count < maxClientSockets

instance (sockets : Sockets) (count : ℕ) : Decidable (callsAccept sockets count) :=
  inferInstanceAs (Decidable (_ ∧ _))

/-- `_handle_listening_socket_events`. -/
def handleListeningSocketEvents (accepted : ℤ) (sockets : Sockets) (count : ℕ) : Sockets × ℕ :=
  if callsAccept sockets count then
    let i := count + 1
    let sockets := Function.update sockets i { sockets i with fd := accepted }
    if accepted > 0 then
      (Function.update sockets i { sockets i with revents := false }, count + 1)
    else (sockets, count)
  else (sockets, count)

/-- Whether the loop over the clients calls the handler for an entry. -/
def PollFd.handled (p : PollFd) : Bool := decide (p.fd ≥ 0) && p.revents

/-- The body of the first loop of `_handle_client_sockets_events`, with the descriptors it
has closed so far; `some_fds_closed` says whether there are any. -/
def handleClientSocketEvents (handlerResult : ℤ → ℤ) (i : ℕ) (sockets : Sockets)
    (closed : List ℤ) : Sockets × List ℤ :=
  if (sockets i).handled then
    if handlerResult (sockets i).fd < 0 then
      (Function.update sockets i { sockets i with fd := -1 }, closed ++ [(sockets i).fd])
    else (sockets, closed)
  else (sockets, closed)

/-- That loop, from index `i` on, with the given number of indices to go. -/
def clientSocketsLoop (handlerResult : ℤ → ℤ) :
    (i remaining : ℕ) → Sockets → List ℤ → Sockets × List ℤ
  | _, 0, sockets, closed => (sockets, closed)
  | i, remaining + 1, sockets, closed =>
    let (sockets, closed) := handleClientSocketEvents handlerResult i sockets closed
    clientSocketsLoop handlerResult (i + 1) remaining sockets closed

/-- The search for `index_of_last_connected`, downwards from an index. The variable keeps its
initial value when no socket is connected. -/
def indexOfLastConnected (sockets : Sockets) : ℕ → ℕ
  | 0 => maxClientSockets
  | i + 1 => if (sockets (i + 1)).fd ≠ -1 then i + 1 else indexOfLastConnected sockets i

/-- The innermost loop: `sockets[j - 1] = sockets[j]` for the given number of indices. -/
def shiftLoop : (j remaining : ℕ) → Sockets → Sockets
  | _, 0, sockets => sockets
  | j, remaining + 1, sockets =>
    shiftLoop (j + 1) remaining (Function.update sockets (j - 1) (sockets j))

/-- The body of the loop that moves a closed socket behind the last connected one. -/
def moveSocket (sockets : Sockets) (i last : ℕ) : Sockets :=
  Function.update (shiftLoop (i + 1) (last - i) sockets) last (sockets i)

/-- That loop, downwards from an index. -/
def moveLoop : ℕ → Sockets → ℕ → Sockets × ℕ
  | 0, sockets, last => (sockets, last)
  | i + 1, sockets, last =>
    if (sockets (i + 1)).fd = -1 then moveLoop i (moveSocket sockets (i + 1) last) (last - 1)
    else moveLoop i sockets last

/-- The second half of `_handle_client_sockets_events`, with the new count. -/
def moveClosedSockets (sockets : Sockets) : Sockets × ℕ :=
  let last := indexOfLastConnected sockets maxClientSockets
  moveLoop (last - 1) sockets last

/-- `_handle_client_sockets_events`; the list holds the descriptors it closed. -/
def handleClientSocketsEvents (handlerResult : ℤ → ℤ) (sockets : Sockets) (count : ℕ) :
    Sockets × ℕ × List ℤ :=
  let (sockets, closed) := clientSocketsLoop handlerResult 1 count sockets []
  if closed ≠ [] then
    let (sockets, count) := moveClosedSockets sockets
    (sockets, count, closed)
  else (sockets, count, closed)

/-! ## The loop -/

/-- The variables of `network_main_loop`, and which clients are connected: the descriptors
that `accept` returned and that were not closed since, in the order of acceptance. -/
structure LoopState where
  sockets : Sockets
  clientSocketsCount : ℕ
  connected : List ℤ

/-- The state at the head of the loop. -/
def loopInit (listeningSocket : ℤ) : LoopState where
  sockets := fun i => if i = 0 then ⟨listeningSocket, false⟩ else ⟨-1, false⟩
  clientSocketsCount := 0
  connected := []

/-- Whether a round calls `accept`. -/
def LoopState.accepts (s : LoopState) (round : Round) : Prop :=
  callsAccept (pollSockets round s.clientSocketsCount s.sockets) s.clientSocketsCount

instance (s : LoopState) (round : Round) : Decidable (s.accepts round) :=
  inferInstanceAs (Decidable (callsAccept _ _))

/-- The clients after `accept`. -/
def LoopState.afterAccept (s : LoopState) (round : Round) : List ℤ :=
  if s.accepts round ∧ 0 ≤ round.accepted then s.connected ++ [round.accepted] else s.connected

/-- One iteration. `accept` returns -1 or a descriptor that no open socket has; a round in
which it does not is not possible. -/
def loopStep (s : LoopState) (round : Round) : Option LoopState :=
  if s.accepts round ∧ (round.accepted < -1 ∨ round.accepted ∈ s.connected) then none
  else
    let sockets := pollSockets round s.clientSocketsCount s.sockets
    let (sockets, count) :=
      handleListeningSocketEvents round.accepted sockets s.clientSocketsCount
    let (sockets, count, closed) := handleClientSocketsEvents round.handlerResult sockets count
    some
      { sockets := sockets
        clientSocketsCount := count
        connected := (s.afterAccept round).filter fun fd => fd ∉ closed }

/-! ## What the loop is meant to keep -/

/-- The array is compact: the first entries hold the connected clients, each once and in the
order of acceptance, the later ones -1; so a connection is accepted whenever there is room. -/
structure LoopState.Compact (s : LoopState) : Prop where
  count_eq : s.clientSocketsCount = s.connected.length
  length_le : s.connected.length ≤ maxClientSockets
  slots : ∀ i (h : i < s.connected.length), (s.sockets (i + 1)).fd = s.connected.get ⟨i, h⟩
  rest : ∀ i, s.connected.length < i → i ≤ maxClientSockets → (s.sockets i).fd = -1
  nodup : s.connected.Nodup
  nonneg : ∀ fd ∈ s.connected, 0 ≤ fd
  room : ∀ round : Round, round.listening = true → s.connected.length < maxClientSockets →
    s.accepts round

/-- The client is closed in a round. -/
def Round.Fails (round : Round) (fd : ℤ) : Prop :=
  round.readable fd = true ∧ round.handlerResult fd < 0

instance (round : Round) (fd : ℤ) : Decidable (round.Fails fd) :=
  inferInstanceAs (Decidable (_ ∧ _))

/-- A round that closes clients does not close them all (a new one counts), and a round that
closes none does not accept descriptor 0. -/
def LoopState.RoundOk (s : LoopState) (round : Round) : Prop :=
  if ∃ fd ∈ s.connected, round.Fails fd then
    (∃ fd ∈ s.connected, ¬ round.Fails fd) ∨ (s.accepts round ∧ 0 ≤ round.accepted)
  else ¬ (s.accepts round ∧ round.accepted = 0)

end ReplicatedTree
