import ReplicatedTree.Registry
import ReplicatedTree.ServerWrites

/-!
# Servers, clients and the store together

Any number of servers and clients around one ZooKeeper. Each server is a process of
`TreeSkel` that has a role (`Registry`); what its main loop adds is that requests are taken
one after another from the connections that have one, in no particular order. A client is a
`struct rtree_t` with its open descriptors; its stub functions send a request on one of the two
sockets and wait, while `on_servers_changed` may close both at any time.

Processes and addresses are apart. The znodes hold addresses, and so do clients and workers
that have read them; a connection goes to the process that listens at the address when it is
made. A process binds its address in `network_server_init`, after `zk_connect` and before
`zk_register_tree_server`; this fails while a live process listens there, and succeeds at the
address of one that is gone, which is how a server is started again on its port.

`replicate_to_backup_server` makes up to three steps: the test of the role, the lookup of the
backup's address, and the connection with its one write.
-/

namespace ReplicatedTree

/-- Where the worker stands in `replicate_to_backup_server`. -/
inductive ReplicatePc
  /-- at the test of the role, or not in the function -/
  | idle
  /-- at the lookup of the backup -/
  | notBackup
  /-- at `server_connect` -/
  | found (address : ℕ)
deriving DecidableEq

/-- A write on its way from one process to another. -/
structure Flight where
  source : ℕ
  target : ℕ
  write : Message
deriving DecidableEq

/-- A client's request that was not read yet, or is being handled. -/
structure Call where
  client : ℕ
  /-- how often the client had given up a response, see `Client.epoch` -/
  epoch : ℕ
  request : Message
  server : ℕ
deriving DecidableEq

/-- A response that a client got. -/
structure Reply where
  server : ℕ
  request : Message
  response : Message
deriving DecidableEq

/-- `struct rtree_t`, and what the client has open. -/
structure Client where
  primaryServerAddress : Option ℕ
  backupServerAddress : Option ℕ
  /-- none for -1 -/
  primarySockfd : Option ℕ
  backupSockfd : Option ℕ
  /-- the process that an open descriptor leads to -/
  sockets : ℕ → Option ℕ
  /-- how often a response was given up -/
  epoch : ℕ
  /-- whether a stub function waits for a response -/
  waiting : Bool
  /-- the responses it got, oldest first -/
  replies : List Reply

def clientInit : Client := ⟨none, none, none, none, fun _ => none, 0, false, []⟩

/-- The socket that `network_send_receive` picks. -/
def Client.sockfd (c : Client) (request : Message) : Option ℕ :=
  if request.opCode ∈ [opSize, opGet, opGetKeys, opHeight, opVerify] then c.backupSockfd
  else if request.opCode ∈ [opDel, opPut] then c.primarySockfd
  else none

/-- The process that a request goes to. -/
def Client.peer (c : Client) (request : Message) : Option ℕ := (c.sockfd request).bind c.sockets

def Client.closeSocket (c : Client) : Option ℕ → Client
  | none => c
  | some fd => { c with sockets := Function.update c.sockets fd none }

@[simp] theorem Client.closeSocket_replies (c : Client) (fd : Option ℕ) :
    (c.closeSocket fd).replies = c.replies := by
  cases fd <;> rfl

/-- A server's process. -/
structure Node where
  server : ServerState
  replicating : ReplicatePc
  /-- the client whose request is handled, if it is a client's -/
  serving : Option Call
deriving DecidableEq

def nodeInit : Node := ⟨treeSkelInit, .idle, none⟩

structure Cluster where
  membership : Membership
  /-- the process that bound an address last -/
  listeners : ℕ → Option ℕ
  nodes : ℕ → Node
  flights : List Flight
  calls : List Call
  clients : ℕ → Client

/-- Nothing has started; the addresses that the processes will have are given. -/
def clusterInit (address : ℕ → ℕ) : Cluster where
  membership := membershipInit address
  listeners := fun _ => none
  nodes := fun _ => nodeInit
  flights := []
  calls := []
  clients := fun _ => clientInit

inductive ClusterAction
  /-- a step of a server's registration or promotion, or the end of its session -/
  | member (i : ℕ) (action : MemberAction)
  /-- `network_server_init` -/
  | listen (i : ℕ)
  /-- a server's process is killed -/
  | crash (i : ℕ)
  /-- a step of a server's threads between the others -/
  | server (i : ℕ) (action : ServerAction)
  /-- the next step of `replicate_to_backup_server`; the last one may fail -/
  | replicate (i : ℕ) (ok : Bool)
  /-- the main loop of a server reads a replicated write -/
  | receiveFlight (k : ℕ) (request : Request)
  /-- the main loop of a server reads a client's request -/
  | receiveCall (k : ℕ) (request : Request)
  /-- the main loop of a server sends a response -/
  | answer (i : ℕ)
  /-- `zk_get_primary_tree_server`, in `servers_retry_connect` -/
  | getPrimary (c : ℕ)
  /-- `zk_get_backup_tree_server`, in `servers_retry_connect` -/
  | getBackup (c : ℕ)
  /-- `network_connect`, for the primary; `fd` is the descriptor that `socket` returns -/
  | connectPrimary (c fd : ℕ)
  /-- `network_connect`, for the backup -/
  | connectBackup (c fd : ℕ)
  /-- `servers_retry_connect` fails -/
  | retryFails (c : ℕ)
  /-- `on_servers_changed` -/
  | close (c : ℕ)
  /-- the connection ends before the response: the stub function returns an error -/
  | callFails (c : ℕ)
  /-- a stub function sends its request -/
  | call (c : ℕ) (request : Request)

namespace Cluster

def server (s : Cluster) (i : ℕ) : ServerState := (s.nodes i).server

def role (s : Cluster) (i : ℕ) : ServerRole := (s.membership.members i).role

def registry (s : Cluster) : Registry := s.membership.registry

def address (s : Cluster) (i : ℕ) : ℕ := (s.membership.members i).address

/-- The process that a connection to an address reaches. -/
def listening (s : Cluster) (address : ℕ) : Option ℕ :=
  (s.listeners address).filter fun j => (s.server j).exited = false

def setNode (s : Cluster) (i : ℕ) (node : Node) : Cluster :=
  { s with nodes := Function.update s.nodes i node }

def setClient (s : Cluster) (c : ℕ) (client : Client) : Cluster :=
  { s with clients := Function.update s.clients c client }

/-- `network_server_init`, between `zk_connect` and `zk_register_tree_server`; no two processes
listen at one address. -/
def listen (s : Cluster) (i : ℕ) : Option Cluster :=
  if (s.server i).exited = false ∧ (s.membership.members i).startUp = .connected ∧
      s.listening (s.address i) = none then
    some { s with listeners := Function.update s.listeners (s.address i) (some i) }
  else none

/-- A session ends when its process is gone; nothing else happens in a process that is gone,
and none registers before it listens. -/
def member (s : Cluster) (i : ℕ) (action : MemberAction) : Option Cluster :=
  if (s.server i).exited = decide (action = .endSession) ∧
      (action = .startUp → (s.membership.members i).startUp = .connected →
        s.listening (s.address i) = some i) then
    (membershipStep s.membership i action).map fun membership => { s with membership := membership }
  else none

def crash (s : Cluster) (i : ℕ) : Option Cluster :=
  if (s.server i).exited then none
  else some (s.setNode i { s.nodes i with server := { s.server i with exited := true } })

/-- The actions of a server that concern no other process. -/
def serverAction (s : Cluster) (i : ℕ) (action : ServerAction) : Option Cluster :=
  match action with
  | .lockRequest _ | .unlockRequest | .replicate _ => none
  | action => (serverStep (s.server i) action).map fun server =>
    s.setNode i { s.nodes i with server := server }

/-- `replicate_to_backup_server` returns. -/
def replicated (s : Cluster) (i : ℕ) (ok : Bool) : Option Cluster :=
  (serverStep (s.server i) (.replicate ok)).map fun server =>
    s.setNode i { s.nodes i with server := server, replicating := .idle }

def replicate (s : Cluster) (i : ℕ) (ok : Bool) : Option Cluster :=
  match (s.server i).exited, (s.server i).worker with
  | false, .applied task =>
    match (s.nodes i).replicating with
    | .idle =>
      if s.role i = .backup then s.replicated i true
      else some (s.setNode i { s.nodes i with replicating := .notBackup })
    | .notBackup =>
      match zooGet s.registry .backup with
      | none => s.replicated i false
      | some address => some (s.setNode i { s.nodes i with replicating := .found address })
    | .found address =>
      match messageDup task.opCodeAndArgs, s.listening address with
      | some msg, some target =>
        if ok then
          (s.replicated i true).map fun s =>
            { s with flights := s.flights ++ [⟨i, target, msg⟩] }
        else s.replicated i false
      | _, _ => s.replicated i false
  | _, _ => none

/-- A server in its main loop takes the lock for a request. -/
def receive (s : Cluster) (i : ℕ) (request : Request) (call : Option Call) : Option Cluster :=
  if (s.membership.members i).startUp = .serving then
    (serverStep (s.server i) (.lockRequest request)).map fun server =>
      s.setNode i { s.nodes i with server := server, serving := call }
  else none

def receiveFlight (s : Cluster) (k : ℕ) (request : Request) : Option Cluster :=
  match s.flights[k]? with
  | some f =>
    if request.1 = f.write then
      (s.receive f.target request none).map fun s => { s with flights := s.flights.eraseIdx k }
    else none
  | none => none

def receiveCall (s : Cluster) (k : ℕ) (request : Request) : Option Cluster :=
  match s.calls[k]? with
  | some call =>
    if request.1 = call.request then
      (s.receive call.server request (some call)).map fun s =>
        { s with calls := s.calls.eraseIdx k }
    else none
  | none => none

/-- A client gets a response, unless it has given it up. -/
def deliver (s : Cluster) (call : Call) (response : Message) : Cluster :=
  let client := s.clients call.client
  if client.waiting = true ∧ client.epoch = call.epoch then
    s.setClient call.client { client with
      waiting := false
      replies := client.replies ++ [⟨call.server, call.request, response⟩] }
  else s

def answer (s : Cluster) (i : ℕ) : Option Cluster :=
  match (s.server i).request with
  | .answered _ response =>
    (serverStep (s.server i) .unlockRequest).map fun server =>
      let next := s.setNode i { s.nodes i with server := server, serving := none }
      match (s.nodes i).serving with
      | some call => next.deliver call (finishResponse response)
      | none => next
  | _ => none

def getPrimary (s : Cluster) (c : ℕ) : Option Cluster :=
  some (s.setClient c { s.clients c with primaryServerAddress := zooGet s.registry .primary })

def getBackup (s : Cluster) (c : ℕ) : Option Cluster :=
  some (s.setClient c { s.clients c with backupServerAddress := zooGet s.registry .backup })

/-- The address leads to the process that listens there by now. The client has given up its
descriptors before, whether they were closed or not. -/
def connectPrimary (s : Cluster) (c fd : ℕ) : Option Cluster :=
  match (s.clients c).primaryServerAddress.bind s.listening with
  | some primary =>
    if (s.clients c).waiting = false ∧ (s.clients c).sockets fd = none then
      some (s.setClient c { s.clients c with
        primarySockfd := some fd
        backupSockfd := none
        sockets := Function.update (s.clients c).sockets fd (some primary) })
    else none
  | none => none

def connectBackup (s : Cluster) (c fd : ℕ) : Option Cluster :=
  match (s.clients c).backupServerAddress.bind s.listening with
  | some backup =>
    if (s.clients c).waiting = false ∧ (s.clients c).primarySockfd ≠ none ∧
        (s.clients c).sockets fd = none then
      some (s.setClient c { s.clients c with
        backupSockfd := some fd
        sockets := Function.update (s.clients c).sockets fd (some backup) })
    else none
  | none => none

/-- A server has no address, or does not accept the connection. -/
def retryFails (s : Cluster) (c : ℕ) : Option Cluster :=
  if (s.clients c).waiting then none
  else some (s.setClient c { s.clients c with primarySockfd := none, backupSockfd := none })

/-- The fields keep the numbers of the descriptors. -/
def close (s : Cluster) (c : ℕ) : Option Cluster :=
  some (s.setClient c (((s.clients c).closeSocket (s.clients c).primarySockfd).closeSocket
    (s.clients c).backupSockfd))

/-- `network_send_receive` returns NULL, and the sockets stay as they are. -/
def callFails (s : Cluster) (c : ℕ) : Option Cluster :=
  if (s.clients c).waiting then
    some (s.setClient c { s.clients c with
      epoch := (s.clients c).epoch + 1
      waiting := false })
  else none

def call (s : Cluster) (c : ℕ) (request : Request) : Option Cluster :=
  if (s.clients c).waiting then none
  else
    match (s.clients c).peer request.1 with
    | some server =>
      some { s.setClient c { s.clients c with waiting := true } with
        calls := s.calls ++ [⟨c, (s.clients c).epoch, request.1, server⟩] }
    | none => none

end Cluster

def clusterStep (s : Cluster) : ClusterAction → Option Cluster
  | .member i action => s.member i action
  | .listen i => s.listen i
  | .crash i => s.crash i
  | .server i action => s.serverAction i action
  | .replicate i ok => s.replicate i ok
  | .receiveFlight k request => s.receiveFlight k request
  | .receiveCall k request => s.receiveCall k request
  | .answer i => s.answer i
  | .getPrimary c => s.getPrimary c
  | .getBackup c => s.getBackup c
  | .connectPrimary c fd => s.connectPrimary c fd
  | .connectBackup c fd => s.connectBackup c fd
  | .retryFails c => s.retryFails c
  | .close c => s.close c
  | .callFails c => s.callFails c
  | .call c request => s.call c request

end ReplicatedTree
