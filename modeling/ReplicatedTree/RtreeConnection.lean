import Mathlib.Data.Int.Notation
import ReplicatedTree.Lib.Ledger

/-!
# The client's connections (`client_stub.c`, `network_client.c`)

The fields of `struct rtree_t` with two ledgers: the address strings that were stored in it, and
the descriptors that `server_connect` returned. The k-th string is the number k, the k-th
descriptor the number k + 1: a descriptor stands for one connection, also if the system uses the
same small number again, and 0 is the standard input of the client. A pointer to a string that
was freed is still that number.

The answers of ZooKeeper, of `parse_address_port` and of `server_connect` are arguments. What
`close` answers only goes into a return value that nobody reads, and is left out.
-/

namespace ReplicatedTree

/-! ## State -/

/-- The name of the k-th string. -/
def stringName (k : ℕ) : ℕ := k

/-- The k-th descriptor. -/
def descriptorName (k : ℕ) : ℤ := k + 1

/-- `struct rtree_t`. -/
structure RtreeT where
  primaryServerIpAddress : Option ℕ
  primaryServerPort : ℤ
  primarySockfd : ℤ
  backupServerIpAddress : Option ℕ
  backupServerPort : ℤ
  backupSockfd : ℤ
deriving DecidableEq

structure ClientState where
  rtree : RtreeT
  areServersConnected : Bool
  strings : Ledger ℕ
  descriptors : Ledger ℤ
deriving DecidableEq

/-- What ZooKeeper answers for the address of a server, and what `parse_address_port` makes of
it. -/
inductive AddressAnswer
  /-- NULL -/
  | missing
  /-- -1 -/
  | malformed
  | address (port : ℤ)
deriving DecidableEq

/-- The answers during a call of `servers_retry_connect`. -/
structure RetryAnswers where
  primary : AddressAnswer
  backup : AddressAnswer
  /-- whether `server_connect` succeeds -/
  primaryConnects : Bool
  backupConnects : Bool
deriving DecidableEq

/-- What `rtree_connect` allocates. -/
def rtreeInit : ClientState := ⟨⟨none, -1, -1, none, -1, -1⟩, false, .empty, .empty⟩

namespace ClientState

/-! ## `network_client.c` -/

def close (c : ClientState) (fd : ℤ) : ClientState :=
  { c with descriptors := c.descriptors.release fd }

def serverConnect (c : ClientState) (connects : Bool) : ClientState × ℤ :=
  if connects then
    ({ c with descriptors := c.descriptors.issue }, descriptorName c.descriptors.issued)
  else (c, -1)

def networkConnect (c : ClientState) (primaryConnects backupConnects : Bool) : ClientState × ℤ :=
  let (c, fd) := c.serverConnect primaryConnects
  let c := { c with rtree := { c.rtree with primarySockfd := fd } }
  if c.rtree.primarySockfd < 0 then (c, -1)
  else
    let (c, fd) := c.serverConnect backupConnects
    let c := { c with rtree := { c.rtree with backupSockfd := fd } }
    if c.rtree.backupSockfd < 0 then
      -- the descriptor is overwritten before it is closed
      let c := { c with rtree := { c.rtree with primarySockfd := -1 } }
      (c.close c.rtree.primarySockfd, -1)
    else (c, 0)

/-- `network_close`: the fields keep the descriptors. -/
def networkClose (c : ClientState) : ClientState :=
  let c := if c.rtree.primarySockfd ≤ 0 then c else c.close c.rtree.primarySockfd
  if c.rtree.backupSockfd ≤ 0 then c else c.close c.rtree.backupSockfd

/-! ## `client_stub.c` -/

def free (c : ClientState) (string : Option ℕ) : ClientState :=
  match string with
  | none => c
  | some string => { c with strings := c.strings.release string }

/-- `parse_address_port` into the fields of the primary server; none for -1. -/
def parsePrimary (c : ClientState) : AddressAnswer → Option ClientState
  | .address port => some { c with
      strings := c.strings.issue
      rtree := { c.rtree with
        primaryServerIpAddress := some (stringName c.strings.issued)
        primaryServerPort := port } }
  | _ => none

/-- `parse_address_port` into the fields of the backup server; none for -1. -/
def parseBackup (c : ClientState) : AddressAnswer → Option ClientState
  | .address port => some { c with
      strings := c.strings.issue
      rtree := { c.rtree with
        backupServerIpAddress := some (stringName c.strings.issued)
        backupServerPort := port } }
  | _ => none

/-- The beginning of `servers_retry_connect`: the addresses are freed, but their pointers are
kept; the descriptors are given up, but not closed. -/
def forgetServers (c : ClientState) : ClientState :=
  let c := c.free c.rtree.primaryServerIpAddress
  let c := { c with rtree := { c.rtree with primaryServerPort := -1, primarySockfd := -1 } }
  let c := c.free c.rtree.backupServerIpAddress
  { c with rtree := { c.rtree with backupServerPort := -1, backupSockfd := -1 } }

def serversRetryConnect (c : ClientState) (a : RetryAnswers) : ClientState × ℤ :=
  let c := c.forgetServers
  if a.primary = .missing ∨ a.backup = .missing then (c, -1)
  else
    match c.parsePrimary a.primary with
    | none => (c, -1)
    | some c =>
      match c.parseBackup a.backup with
      | none => (c, -1)
      | some c =>
        let (c, result) := c.networkConnect a.primaryConnects a.backupConnects
        if result < 0 then (c, -1) else ({ c with areServersConnected := true }, 0)

def onServersChanged (c : ClientState) : ClientState :=
  { c.networkClose with areServersConnected := false }

/-- `_rtree_destroy`, but for the struct itself. -/
def rtreeDestroy (c : ClientState) : ClientState :=
  let c := c.free c.rtree.primaryServerIpAddress
  c.free c.rtree.backupServerIpAddress

def rtreeDisconnect (c : ClientState) : ClientState :=
  let c := { c.networkClose with areServersConnected := false }
  c.rtreeDestroy

end ClientState

/-- The part of `rtree_connect` after it has connected to ZooKeeper. -/
def rtreeConnect (a : RetryAnswers) : ClientState := (rtreeInit.serversRetryConnect a).1

/-! ## Runs -/

inductive ClientOp
  | retry (answers : RetryAnswers)
  | serversChanged
deriving DecidableEq

def ClientState.exec (c : ClientState) : ClientOp → ClientState
  | .retry answers => (c.serversRetryConnect answers).1
  | .serversChanged => c.onServersChanged

/-- The client's life after `rtree_connect`, with a final `rtree_disconnect`. -/
def ClientState.finish (c : ClientState) (ops : List ClientOp) : ClientState :=
  (ops.foldl ClientState.exec c).rtreeDisconnect

/-- Every descriptor was closed exactly once, and every address string freed exactly once. -/
def ClientState.ReleasedOnce (c : ClientState) : Prop :=
  c.descriptors.AllOnce descriptorName ∧ c.strings.AllOnce stringName

instance (c : ClientState) : Decidable c.ReleasedOnce := inferInstanceAs (Decidable (_ ∧ _))

end ReplicatedTree
