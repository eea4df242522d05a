import Mathlib.Logic.Function.Basic
import Mathlib.Tactic.Common

/-!
# Servers and their roles (`zk-private.c`, `tree_server.c`)

ZooKeeper is an atomic store with two ephemeral znodes; the root znode above them is taken to
exist. A server, that is the process of one `tree_server`, is named by a number, and each
"<ip-address>:<port>" by another one: a server that is started again on its old port is a new
process with the address of one that is gone.

Two threads of a server use the store: the one of `main`, which sets the children watch,
registers the server, installs the listener and enters the main loop (`startUp`), and the one
of the ZooKeeper library, which runs `zk_children_watcher` for one event after another
(`childrenWatcher`). Each call to ZooKeeper is an action of its own, and so is each assignment
to `server_role`. A watch is one-shot: it is gone once a znode was created or deleted.
-/

namespace ReplicatedTree

/-! ## The store -/

/-- The children of the root. -/
inductive ZnodePath
  | primary
  | backup
deriving DecidableEq

structure Znode where
  /-- the address stored -/
  data : ℕ
  /-- the server whose session it ends with -/
  owner : ℕ
deriving DecidableEq

abbrev Registry := ZnodePath → Option Znode

def zkExists (r : Registry) (path : ZnodePath) : Bool := (r path).isSome

/-- Refused if the znode exists. -/
def zkCreate (r : Registry) (path : ZnodePath) (znode : Znode) : Option Registry :=
  if zkExists r path then none else some (Function.update r path (some znode))

def zooGet (r : Registry) (path : ZnodePath) : Option ℕ := (r path).map Znode.data

/-- Refused if there is no such znode. -/
def zooDelete (r : Registry) (path : ZnodePath) : Option Registry :=
  if zkExists r path then some (Function.update r path none) else none

/-- The end of a server's session. -/
def endSession (r : Registry) (owner : ℕ) : Registry := fun path =>
  (r path).filter fun znode => znode.owner ≠ owner

/-- Whether a child of the root appeared or vanished. -/
def ChildrenChanged (r r' : Registry) : Prop :=
  zkExists r .primary ≠ zkExists r' .primary ∨ zkExists r .backup ≠ zkExists r' .backup

instance (r r' : Registry) : Decidable (ChildrenChanged r r') :=
  inferInstanceAs (Decidable (_ ∨ _))

/-! ## Servers -/

/-- `enum ServerRole`. -/
inductive ServerRole
  | none
  | primary
  | backup
deriving DecidableEq

/-- Where `main` stands. -/
inductive StartUpPc
  /-- in `zk_connect`, at `zoo_wget_children` -/
  | connecting
  /-- in `zk_register_tree_server`, at the test for a primary -/
  | connected
  /-- there was none -/
  | noPrimary
  /-- the primary znode is created -/
  | primaryCreated
  /-- there was one -/
  | hasPrimary
  /-- and no backup -/
  | noBackup
  /-- the backup znode is created -/
  | backupCreated
  /-- `zk_register_tree_server` has returned 0 -/
  | registered
  /-- in `network_main_loop`, with the listener installed -/
  | serving
  /-- `zk_register_tree_server` has returned -1 -/
  | failed
deriving DecidableEq

/-- Where the thread of the ZooKeeper library stands. -/
inductive WatcherPc
  /-- waiting for an event -/
  | idle
  /-- in `zk_children_watcher`, at `zoo_wget_children` -/
  | notified
  /-- at the call of the listener -/
  | rearmed
  /-- in `zk_update_server_roles`, at the test for a primary -/
  | updating
  /-- there was none -/
  | primaryGone
  /-- and a backup -/
  | backupFound
  /-- its address was read -/
  | addressRead (newPrimary : ℕ)
  /-- the primary znode is created -/
  | created
  /-- the role is set, if it was to be -/
  | promoted
deriving DecidableEq

structure Member where
  /-- `server_address_and_port`, which a process never changes -/
  address : ℕ
  role : ServerRole
  startUp : StartUpPc
  watcher : WatcherPc
  /-- whether a children watch is set -/
  watching : Bool
  /-- whether an event is not delivered yet -/
  event : Bool
  /-- whether the session has ended -/
  closed : Bool
deriving DecidableEq

def memberInit (address : ℕ) : Member :=
  ⟨address, .none, .connecting, .idle, false, false, false⟩

/-- `main` up to the main loop, one call or assignment at a time. -/
def startUp (i : ℕ) (r : Registry) (m : Member) : Option (Registry × Member) :=
  match m.startUp with
  | .connecting => some (r, { m with watching := true, startUp := .connected })
  | .connected =>
    if zkExists r .primary then some (r, { m with startUp := .hasPrimary })
    else some (r, { m with startUp := .noPrimary })
  | .noPrimary =>
    match zkCreate r .primary ⟨m.address, i⟩ with
    | some r => some (r, { m with startUp := .primaryCreated })
    | none => some (r, { m with startUp := .failed })
  | .primaryCreated => some (r, { m with role := .primary, startUp := .registered })
  | .hasPrimary =>
    if zkExists r .backup then some (r, { m with startUp := .failed })
    else some (r, { m with startUp := .noBackup })
  | .noBackup =>
    match zkCreate r .backup ⟨m.address, i⟩ with
    | some r => some (r, { m with startUp := .backupCreated })
    | none => some (r, { m with startUp := .failed })
  | .backupCreated => some (r, { m with role := .backup, startUp := .registered })
  | .registered => some (r, { m with startUp := .serving })
  | .serving | .failed => none

/-- `zk_children_watcher` with `on_servers_change` and `zk_update_server_roles`, one call or
assignment at a time. -/
def childrenWatcher (i : ℕ) (r : Registry) (m : Member) : Option (Registry × Member) :=
  match m.watcher with
  | .idle => if m.event then some (r, { m with event := false, watcher := .notified }) else none
  | .notified => some (r, { m with watching := true, watcher := .rearmed })
  | .rearmed =>
    if m.startUp = .serving ∧ m.role = .backup then some (r, { m with watcher := .updating })
    else some (r, { m with watcher := .idle })
  | .updating =>
    if zkExists r .primary then some (r, { m with watcher := .idle })
    else some (r, { m with watcher := .primaryGone })
  | .primaryGone =>
    if zkExists r .backup then some (r, { m with watcher := .backupFound })
    else some (r, { m with watcher := .idle })
  | .backupFound =>
    match zooGet r .backup with
    | some newPrimary => some (r, { m with watcher := .addressRead newPrimary })
    | none => some (r, { m with watcher := .idle })
  | .addressRead newPrimary =>
    match zkCreate r .primary ⟨newPrimary, i⟩ with
    | some r => some (r, { m with watcher := .created })
    | none => some (r, { m with watcher := .idle })
  | .created =>
    some (r, { m with
      role := if m.role = .backup then .primary else m.role
      watcher := .promoted })
  | .promoted =>
    match zooDelete r .backup with
    | some r => some (r, { m with watcher := .idle })
    | none => some (r, { m with watcher := .idle })

inductive MemberAction
  /-- the next step of `main` -/
  | startUp
  /-- the next step of `zk_children_watcher` -/
  | childrenWatcher
  /-- the session of a server that is gone ends -/
  | endSession
deriving DecidableEq

def memberStep (i : ℕ) (r : Registry) (m : Member) : MemberAction → Option (Registry × Member)
  | .startUp => startUp i r m
  | .childrenWatcher => childrenWatcher i r m
  | .endSession => some (endSession r i, { m with closed := true })

/-! ## All servers -/

/-- A children watch goes off. -/
def Member.notify (m : Member) : Member :=
  if m.watching then { m with watching := false, event := true } else m

structure Membership where
  registry : Registry
  members : ℕ → Member

/-- No server has started yet; which address each of them will have is open. -/
def membershipInit (address : ℕ → ℕ) : Membership :=
  ⟨fun _ => none, fun i => memberInit (address i)⟩

/-- An action of a server; all watches go off when the znodes have changed. -/
def membershipStep (s : Membership) (i : ℕ) (a : MemberAction) : Option Membership :=
  if (s.members i).closed then none
  else
    (memberStep i s.registry (s.members i) a).map fun (r, m) =>
      let members := Function.update s.members i m
      ⟨r, if ChildrenChanged s.registry r then fun j => (members j).notify else members⟩

/-- An action of one of the servers. -/
def memberActionStep (s : Membership) (x : ℕ × MemberAction) : Option Membership :=
  membershipStep s x.1 x.2

end ReplicatedTree
