import ReplicatedTree.PollLoop
import ReplicatedTree.ServerWrites

/-!
# A primary and its backup (`replicate_to_backup_server`, `network_main_loop`)

The primary opens a connection to the backup for each write it has executed, sends the write
and closes the connection without waiting for a response. The backup accepts connections in
the order in which they were opened, and serves the accepted ones that `poll` reports, in the
order of its array. Clients may connect to the backup as well; they send it no writes.

A connection is named by its position in the order of opening. Its descriptor at the backup
is `descriptor`: descriptors are positive, and no two connections have the same. What is read
from a connection is what was sent on it.
-/

namespace ReplicatedTree

/-! ## Connections -/

/-- A connection to the backup. -/
structure Connection where
  /-- the write sent on it; none on a client's connection -/
  write : Option Message
  /-- whether the write can be read -/
  arrived : Bool
  /-- whether the write was read -/
  read : Bool
deriving DecidableEq

namespace Connection

/-- A write that was sent and not read yet. -/
def Unread (c : Connection) : Prop := c.write.isSome = true ∧ c.read = false

instance (c : Connection) : Decidable c.Unread := inferInstanceAs (Decidable (_ ∧ _))

/-- Whether `poll` finds something to read; apart from a write this may be a client's
request, or the end of the connection. -/
def readable (c : Connection) (other : Bool) : Bool := if c.Unread then c.arrived else other

/-- The requests that can be read from a connection: the write, once, or whatever a client
sends. -/
def Offers (c : Connection) (request : Message) : Prop :=
  match c.write with
  | some msg => c.read = false ∧ request = msg
  | none => ¬ request.IsWrite

instance (c : Connection) (request : Message) : Decidable (c.Offers request) := by
  unfold Offers
  split <;> infer_instance

end Connection

/-- The descriptor of the listening socket. -/
def listeningSocket : ℤ := 3

/-- The descriptor of a connection. -/
def descriptor (k : ℕ) : ℤ := 4 + k

def connectionOf (fd : ℤ) : ℕ := (fd - 4).toNat

/-! ## The system -/

/-- Where the backup's main loop stands. -/
inductive LoopPc
  /-- at `poll` -/
  | polling
  /-- at an index of the loop over the clients, having closed some descriptors -/
  | serving (i : ℕ) (closed : List ℤ)
  /-- in `invoke`, for the socket at that index -/
  | handling (i : ℕ) (closed : List ℤ)
deriving DecidableEq

structure ReplicationState where
  primary : ServerState
  backup : ServerState
  /-- the connections to the backup, in the order of opening -/
  connections : List Connection
  /-- how many of them the backup has accepted -/
  accepted : ℕ
  sockets : Sockets
  clientSocketsCount : ℕ
  loop : LoopPc

def replicationInit : ReplicationState where
  primary := treeSkelInit
  backup := treeSkelInit
  connections := []
  accepted := 0
  sockets := (loopInit listeningSocket).sockets
  clientSocketsCount := 0
  loop := .polling

inductive ReplicationAction
  /-- an action of the primary's threads -/
  | primary (action : ServerAction)
  /-- a client connects to the backup -/
  | connect
  /-- the write sent on a connection becomes readable -/
  | deliver (k : ℕ)
  /-- `poll` returns, and the event of the listening socket is handled -/
  | poll (listening accepts : Bool) (other : ℕ → Bool)
  /-- the loop over the clients passes an entry, or ends -/
  | scan
  /-- a request is read, and `invoke` takes the lock -/
  | receive (request : Request)
  /-- no request can be read: the connection was closed -/
  | receiveFails
  /-- `invoke` has returned, and the response is sent, or not -/
  | respond (sent : Bool)
  /-- any other action of the backup's threads -/
  | backup (action : ServerAction)

namespace ReplicationState

/-- An action of the primary. A write is handed over on a new connection; a connection on
which nothing was sent is as good as a client's. -/
def primaryStep (s : ReplicationState) (action : ServerAction) : Option ReplicationState :=
  (serverStep s.primary action).bind fun primary =>
    match action, s.primary.worker with
    | .replicate true, .applied task =>
      (messageDup task.opCodeAndArgs).map fun msg =>
        { s with primary := primary, connections := s.connections ++ [⟨some msg, false, false⟩] }
    | _, _ => some { s with primary := primary }

def connect (s : ReplicationState) : Option ReplicationState :=
  some { s with connections := s.connections ++ [⟨none, false, false⟩] }

def deliver (s : ReplicationState) (k : ℕ) : Option ReplicationState :=
  match s.connections[k]? with
  | some c =>
    if c.write.isSome then
      some { s with connections := s.connections.set k { c with arrived := true } }
    else none
  | none => none

/-- What the outside does in the round that begins: a waiting connection may be accepted. -/
def round (s : ReplicationState) (listening accepts : Bool) (other : ℕ → Bool) : Round where
  listening := listening && decide (s.accepted < s.connections.length)
  readable := fun fd =>
    match s.connections[connectionOf fd]? with
    | some c => c.readable (other (connectionOf fd))
    | none => false
  accepted := if accepts then descriptor s.accepted else -1
  handlerResult := fun _ => 0

def poll (s : ReplicationState) (listening accepts : Bool) (other : ℕ → Bool) :
    Option ReplicationState :=
  match s.loop with
  | .polling =>
    let round := s.round listening accepts other
    let sockets := pollSockets round s.clientSocketsCount s.sockets
    let listened := handleListeningSocketEvents round.accepted sockets s.clientSocketsCount
    some { s with
      accepted :=
        if callsAccept sockets s.clientSocketsCount ∧ accepts then s.accepted + 1 else s.accepted
      sockets := listened.1
      clientSocketsCount := listened.2
      loop := .serving 1 [] }
  | _ => none

def scan (s : ReplicationState) : Option ReplicationState :=
  match s.loop with
  | .serving i closed =>
    if i ≤ s.clientSocketsCount then
      if (s.sockets i).handled then none else some { s with loop := .serving (i + 1) closed }
    else if closed ≠ [] then
      let moved := moveClosedSockets s.sockets
      some { s with sockets := moved.1, clientSocketsCount := moved.2, loop := .polling }
    else some { s with loop := .polling }
  | _ => none

/-- The end of the body of the loop, with what the handler has returned. -/
def handled (s : ReplicationState) (i : ℕ) (closed : List ℤ) (result : ℤ) : ReplicationState :=
  let next := handleClientSocketEvents (fun _ => result) i s.sockets closed
  { s with sockets := next.1, loop := .serving (i + 1) next.2 }

def receive (s : ReplicationState) (request : Request) : Option ReplicationState :=
  match s.loop with
  | .serving i closed =>
    match s.connections[connectionOf (s.sockets i).fd]? with
    | some c =>
      if i ≤ s.clientSocketsCount ∧ (s.sockets i).handled ∧ c.Offers request.1 then
        (serverStep s.backup (.lockRequest request)).map fun backup => { s with
          backup := backup
          connections := s.connections.set (connectionOf (s.sockets i).fd) { c with read := true }
          loop := .handling i closed }
      else none
    | none => none
  | _ => none

def receiveFails (s : ReplicationState) : Option ReplicationState :=
  match s.loop with
  | .serving i closed =>
    match s.connections[connectionOf (s.sockets i).fd]? with
    | some c =>
      if i ≤ s.clientSocketsCount ∧ (s.sockets i).handled ∧ ¬ c.Unread then
        some (s.handled i closed (-1))
      else none
    | none => none
  | _ => none

def respond (s : ReplicationState) (sent : Bool) : Option ReplicationState :=
  match s.loop with
  | .handling i closed =>
    if s.backup.request = .idle then some (s.handled i closed (if sent then 0 else -1)) else none
  | _ => none

/-- An action of the backup's threads. It replicates to nobody, which always succeeds. -/
def backupStep (s : ReplicationState) (action : ServerAction) : Option ReplicationState :=
  match action with
  | .lockRequest _ | .replicate false => none
  | action => (serverStep s.backup action).map fun backup => { s with backup := backup }

end ReplicationState

/-- What an action does. The backup's loop ends with its process. -/
def replicationStep (s : ReplicationState) : ReplicationAction → Option ReplicationState
  | .primary action => s.primaryStep action
  | .connect => s.connect
  | .deliver k => s.deliver k
  | .backup action => s.backupStep action
  | .poll listening accepts other =>
    if s.backup.exited then none else s.poll listening accepts other
  | .scan => if s.backup.exited then none else s.scan
  | .receive request => s.receive request
  | .receiveFails => if s.backup.exited then none else s.receiveFails
  | .respond sent => if s.backup.exited then none else s.respond sent

/-- What was sent can be read in the order of sending. -/
def DeliversInOrder (s : ReplicationState) : ReplicationAction → Prop
  | .deliver k => ∀ j < k, ∀ c, s.connections[j]? = some c → c.write.isSome → c.arrived = true
  | _ => True

/-- The writes sent on some connections. -/
def sentWrites (connections : List Connection) : List Message :=
  connections.filterMap Connection.write

end ReplicatedTree
