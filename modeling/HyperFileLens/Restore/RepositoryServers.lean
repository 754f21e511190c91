import HyperFileLens.Library.Table
import HyperFileLens.Library.Text
import HyperFileLens.Library.Transition
import HyperFileLens.Tasks.Task

/-!
# Repository servers of a restore

A restore whose items are read through other nodes starts a repository server there, one
for a repository and a user name. The sessions are recorded in the result payload of the
task (`repository_servers`), and the end of the restore stops them.

Every transaction holds the row of the task. A transaction that raises changes nothing.

*Passes.*  A dispatch pass takes the undispatched items in order, and ends at the first
one whose server is not ready. A pass that fails seals the items that have no task, and
is kept when other items still run.
-/

namespace HyperFileLens.Restore

open Tasks Transition

/-! ## Rows -/

/-- `RestoreRecordItem.Status`. -/
inductive ItemStatus where
  | pending
  | running
  | success
  | failed
  | skipped
  | cancelled
deriving DecidableEq, Repr

def ItemStatus.isOpen : ItemStatus → Bool
  | .pending | .running => true
  | _ => false

/-- `RestoreRecordItem`. -/
structure RestoreItem where
  id : Nat
  repositoryId : Nat
  nodeTaskId : Option Nat := none
  status : ItemStatus := .pending
deriving DecidableEq

abbrev NodeKey := { n : Nat // 0 < n }

/-- An entry of `repository_servers`. -/
structure ServerState where
  repositoryId : Nat
  repositoryNodeId : NodeKey
  nodeTaskId : Nat
  sessionId : String
  serverUsername : String
  publicHost : String
  publicHostSource : String
deriving DecidableEq

/-- What an agent returns for a started server. -/
structure StartResult where
  url : String
  username : String
  password : String
  sessionId : String
deriving DecidableEq

inductive StartStatus where
  | active
  | success (result : StartResult)
  | failed (error : String)
deriving DecidableEq

/-- A node task of kind `repository.server.start`. -/
structure StartCommand where
  id : Nat
  nodeId : NodeKey
  repositoryId : Nat
  sessionId : String
  username : String
  status : StartStatus := .active
deriving DecidableEq

/-- A node task of kind `repository.server.stop`. -/
structure StopCommand where
  nodeId : NodeKey
  sessionId : String
deriving DecidableEq

/-- A restore: its record, its task and the node tasks of its servers, newest first. -/
structure RestoreState where
  status : TaskStatus := .pending
  servers : List ServerState := []
  items : List RestoreItem
  starts : List StartCommand := []
  stops : List StopCommand := []
  nextNodeTask : Nat := 0
deriving DecidableEq

/-- `str.lower`, and the first 12 hexadecimal digits of the SHA-256 of a user name. -/
structure Names where
  lower : String → String
  usernameHash : String → String
  strip_lower : ∀ s, Text.strip s = s → Text.strip (lower s) = lower s
  hash_ne_nil : ∀ s, (usernameHash s).toList ≠ []
  hash_visible : ∀ s, ∀ c ∈ (usernameHash s).toList, Text.isPySpace c = false

/-- What does not change while a restore runs. -/
structure RestoreTask where
  names : Names
  taskId : Nat
  taskUuid : String
  workspace : Bool

/-- Where an item is read from (`resolve_snapshot_repository_reader`). -/
inductive Reader where
  | target
  | other (node : NodeKey)
deriving DecidableEq

structure Outside where
  /-- A check before the items raises. -/
  blocked : Bool := false
  directoryConcurrency : Nat := 4
  serverEnabled : Bool := true
  reader : RestoreItem → Except String Reader
  /-- User and host in the result of the node task of the snapshot directory. -/
  snapshotSource : RestoreItem → Option (String × String) := fun _ => none
  publicHost : Nat → String × String
  /-- A start that `run_agent_task_async` refuses, by repository. -/
  refusesStart : Nat → Option String := fun _ => none
  refusesRun : RestoreItem → Option String := fun _ => none
  refusesStop : String → Bool := fun _ => false

/-! ## Names -/

def snapshotSourceServerUsername (names : Names) (source : Option (String × String)) : String :=
  match source with
  | none => ""
  | some (user, host) =>
    let user := Text.strip user
    let host := Text.strip host
    if user = "" ∨ host = "" then "" else names.lower (user ++ "@" ++ host)

def restoreRepositoryServerUsername (r : RestoreTask) (o : Outside) (item : RestoreItem)
    (node : NodeKey) : String :=
  let username := snapshotSourceServerUsername r.names (o.snapshotSource item)
  if username ≠ "" then username
  else
    r.names.lower ("hfl-restore-" ++ toString r.taskId ++ "@hfl-proxy-" ++ toString node.val)

def restoreRepositoryServerSessionId (r : RestoreTask) (repositoryId : Nat) (username : String) :
    String :=
  "restore-" ++ r.taskUuid ++ "-repo-" ++ toString repositoryId ++ "-" ++
    r.names.usernameHash username

namespace RestoreState

variable (r : RestoreTask) (o : Outside) (s : RestoreState)

/-! ## Servers -/

/-- The recorded state of a repository and a user name. -/
def server (repositoryId : Nat) (username : String) : Option ServerState :=
  s.servers.find? fun e => e.repositoryId = repositoryId && Text.strip e.serverUsername = username

def startCommand (id : Nat) : Option StartCommand := Table.find StartCommand.id s.starts id

/-- `_repository_server_payload_from_result`, when it is complete. -/
def completePayload (result : StartResult) : Option StartResult :=
  let payload := { result with
    url := Text.strip result.url
    username := Text.strip result.username
    password := Text.strip result.password }
  if payload.url ≠ "" ∧ payload.username ≠ "" ∧ payload.password ≠ "" then some payload else none

def startedState (state : ServerState) (repositoryId : Nat) (node : NodeKey) (username : String)
    (command : StartCommand) (result : StartResult) : ServerState :=
  { state with
    repositoryId := repositoryId
    repositoryNodeId := node
    nodeTaskId := command.id
    sessionId := if result.sessionId ≠ "" then result.sessionId else state.sessionId
    serverUsername := username }

/-- A start command is sent, and its session recorded. -/
def startServer (repositoryId : Nat) (node : NodeKey) (username : String) : RestoreState :=
  let host := o.publicHost repositoryId
  let sessionId := restoreRepositoryServerSessionId r repositoryId username
  { s with
    nextNodeTask := s.nextNodeTask + 1
    starts := {
      id := s.nextNodeTask
      nodeId := node
      repositoryId := repositoryId
      sessionId := sessionId
      username := username } :: s.starts
    servers := s.servers ++ [{
      repositoryId := repositoryId
      repositoryNodeId := node
      nodeTaskId := s.nextNodeTask
      sessionId := sessionId
      serverUsername := username
      publicHost := host.1
      publicHostSource := host.2 }] }

/-- The sessions after a start of a repository has succeeded. -/
def replaceServers (repositoryId : Nat) (state : ServerState) : RestoreState :=
  { s with servers := s.servers.map fun existing =>
      if existing.repositoryId = repositoryId then state else existing }

def ensureRestoreRepositoryServerPayload (repositoryId : Nat) (node : NodeKey)
    (username : String) : Except String (Option StartResult) × RestoreState :=
  if !o.serverEnabled then
    (.error "Cross-node restore from a Proxy-bound repository requires proxy repository server mode, but PROTECTION_PROXY_REPOSITORY_SERVER_ENABLED is disabled.", s)
  else
    match s.server repositoryId username with
    | some state =>
      match s.startCommand state.nodeTaskId with
      | none => (.ok none, s)
      | some command =>
        match command.status with
        | .active => (.ok none, s)
        | .failed error => (.error error, s)
        | .success result =>
          match completePayload result with
          | none =>
            (.error "Restore repository server start returned incomplete connection info.", s)
          | some payload =>
            (.ok (some payload), s.replaceServers repositoryId
              (startedState state repositoryId node username command result))
    | none =>
      if (o.publicHost repositoryId).1 = "" then
        (.error "Proxy node has no reachable IP address for restore repository server.", s)
      else
        match o.refusesStart repositoryId with
        | some error => (.error error, s)
        | none => (.ok none, s.startServer r o repositoryId node username)

/-- `stop_restore_repository_servers`, for one session. -/
def stopServer (s : RestoreState) (state : ServerState) : RestoreState :=
  let sessionId := Text.strip state.sessionId
  if sessionId = "" || s.stops.any (fun c => c.sessionId = sessionId) || o.refusesStop sessionId then s
  else { s with stops := { nodeId := state.repositoryNodeId, sessionId := sessionId } :: s.stops }

def stopRestoreRepositoryServers : RestoreState := s.servers.foldl (stopServer o) s

/-! ## Passes -/

def updateItems (p : RestoreItem → Bool) (f : RestoreItem → RestoreItem) : RestoreState :=
  { s with items := s.items.map fun item => if p item then f item else item }

def activeItems : List RestoreItem :=
  s.items.filter fun item => item.nodeTaskId.isSome && item.status.isOpen

def selectedItems : List RestoreItem :=
  let items := s.items.filter fun item => item.nodeTaskId.isNone && item.status.isOpen
  if r.workspace then (if s.activeItems.isEmpty then items.take 1 else [])
  else items.take (o.directoryConcurrency - s.activeItems.length)

/-- How a pass goes on after an item. -/
inductive Turn where
  | next
  | wait
  | failed (error : String)
deriving DecidableEq

def runItem (item : RestoreItem) : Turn × RestoreState :=
  match o.refusesRun item with
  | some error => (.failed error, s)
  | none =>
    (.next, { s.updateItems (fun i => i.id = item.id) (fun i =>
      { i with nodeTaskId := some s.nextNodeTask, status := .running }) with
      nextNodeTask := s.nextNodeTask + 1 })

/-- One item of `_dispatch_restore_items`. -/
def dispatchItem (item : RestoreItem) : Turn × RestoreState :=
  match o.reader item with
  | .error error => (.failed error, s)
  | .ok .target => s.runItem o item
  | .ok (.other node) =>
    let ensured := s.ensureRestoreRepositoryServerPayload r o item.repositoryId node
      (restoreRepositoryServerUsername r o item node)
    match ensured.1 with
    | .error error => (.failed error, ensured.2)
    | .ok none => (.wait, ensured.2)
    | .ok (some _) => ensured.2.runItem o item

/-- The items of a pass, up to the first that is not ready. -/
def dispatchItems (s : RestoreState) : List RestoreItem → Turn × RestoreState
  | [] => (.next, s)
  | item :: items =>
    let turn := s.dispatchItem r o item
    match turn.1 with
    | .next => turn.2.dispatchItems items
    | _ => turn

def sealItems (selected : List RestoreItem) : RestoreState :=
  let s := s.updateItems (fun i => selected.any (fun j => j.id = i.id) && i.nodeTaskId.isNone &&
    i.status = .running) fun i => { i with status := .failed }
  s.updateItems (fun i => i.nodeTaskId.isNone && i.status = .pending) fun i =>
    { i with status := if r.workspace then .skipped else .failed }

/-- `_dispatch_restore_items`. A pass that fails while no item runs raises. -/
def dispatchRestoreItems : Except String RestoreState :=
  if o.blocked then .error "blocked"
  else
    let selected := s.selectedItems r o
    if selected.isEmpty then .ok s
    else
      let s := if s.status = .pending then { s with status := .running } else s
      let s := s.updateItems (fun i => selected.any fun j => j.id = i.id) fun i =>
        { i with status := .running }
      match s.dispatchItems r o selected with
      | (.failed error, s) =>
        let s := s.sealItems r selected
        if s.activeItems.isEmpty then .error error else .ok s
      | (_, s) => .ok s

/-! ## The end -/

/-- `_finalize_record_if_done`. The servers are stopped, and the payload replaced. -/
def finalizeRecordIfDone : RestoreState :=
  if s.status.isTerminal || s.items.isEmpty || s.items.any (fun item => item.status.isOpen) then s
  else
    let failed := s.items.any fun item => item.status = .failed || item.status = .cancelled
    { s.stopRestoreRepositoryServers o with
      servers := []
      status := if failed then .failed else .success }

/-- The failure of a start (`_handle_restore_repository_server_task`). -/
def failServers : RestoreState :=
  (s.updateItems (fun i => i.nodeTaskId.isNone && i.status.isOpen) fun i =>
    { i with status := .failed }).finalizeRecordIfDone o

/-- `sync_restore_record_from_node_task`, for an item that is over. The items that have
not been dispatched are given up when the node is offline, and when an item of a
workspace did not complete. -/
def syncRestoreItem (nodeTaskId : Nat) (status : ItemStatus) (offline : Bool) : RestoreState :=
  let s := s.updateItems (fun i => i.nodeTaskId = some nodeTaskId) fun i =>
    { i with status := status }
  let completed := status = .success || status = .skipped
  let s :=
    if r.workspace && !completed then
      s.updateItems (fun i => i.nodeTaskId.isNone && i.status = .pending) fun i =>
        { i with status := .skipped }
    else if !r.workspace && !completed && offline then
      s.updateItems (fun i => i.nodeTaskId.isNone && i.status = .pending) fun i =>
        { i with status := .failed }
    else s
  s.finalizeRecordIfDone o

def cancelRestore : RestoreState :=
  ({ s with status := .cancelled }.updateItems (fun i => i.status.isOpen) fun i =>
    { i with status := .cancelled }).stopRestoreRepositoryServers o

/-- The outcome of a start command. An agent that has started a server returns the
session it was asked for. -/
def startEnds (id : Nat) (outcome : Except String (String × String × String)) : RestoreState :=
  { s with starts := s.starts.map fun c =>
      if c.id = id && c.status = .active then
        { c with status := match outcome with
            | .error error => .failed error
            | .ok (url, username, password) => .success ⟨url, username, password, c.sessionId⟩ }
      else c }

end RestoreState

/-! ## Runs -/

inductive RestoreEvent where
  | dispatch (o : Outside)
  | startEnds (id : Nat) (outcome : Except String (String × String × String))
  | startFailed (o : Outside)
  | itemEnds (o : Outside) (nodeTaskId : Nat) (status : ItemStatus) (offline : Bool)
  | nodeGone (o : Outside)
  | cancel (o : Outside)

def restoreStep (r : RestoreTask) (s : RestoreState) : RestoreEvent → Option RestoreState
  | .startEnds id outcome => some (s.startEnds id outcome)
  | .dispatch o => if s.status.isTerminal then none else (s.dispatchRestoreItems r o).toOption
  | .startFailed o => if s.status.isTerminal then none else some (s.failServers o)
  | .itemEnds o nodeTaskId status offline =>
    if s.status.isTerminal || status.isOpen then none
    else some (s.syncRestoreItem r o nodeTaskId status offline)
  | .nodeGone o => if s.status.isTerminal then none else some (s.failServers o)
  | .cancel o => if s.status.isTerminal then none else some (s.cancelRestore o)

def restore (r : RestoreTask) (items : List RestoreItem) : System RestoreState RestoreEvent where
  init := fun s => s = { items := items }
  step := restoreStep r

end HyperFileLens.Restore
