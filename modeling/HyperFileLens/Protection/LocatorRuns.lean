import HyperFileLens.Library.Table
import HyperFileLens.Node.Task
import HyperFileLens.Protection.SnapshotLocator

/-!
# The backups of one directory

`_dispatch_directory_backup`, `_observe_running_directory`,
`project_backup_node_task_result`, `retry_backup_directory` and the readers of one row of
`BackupSourceSnapshotDirectory`.

*Locks.*  `advance_backup`, which dispatches and observes, and
`project_backup_node_task_result` hold the row of the backup task as long as they run, so each
call is one step. `retry_backup_directory` holds no lock: it reads the row in one step and saves
all of it in a later one. A reader of a legacy row has one step for each statement.

*Attempts.*  A `BackupAttempt` is a NodeTask that backs the directory up. It also carries the
locator that was built when it was dispatched, which no code keeps.

*Answers of other parts.*  The fence of orphan cleanup, the state of nodes, the codes of failures
and the tables a legacy locator is derived from are arguments.
-/

namespace HyperFileLens.Protection

open Transition

/-! ## Rows -/

/-- A row of `BackupSourceSnapshotDirectory` with the columns of its dispatch. -/
structure DirectoryRow extends SnapshotDirectory where
  repositoryLocator : Json := .obj []
  nodeTaskId : Option Nat := none
  retryCount : Nat := 0
deriving DecidableEq

/-- `bool(row.kopia_snapshot_id)`. -/
def DirectoryRow.hasSnapshot (row : DirectoryRow) : Bool :=
  row.kopiaSnapshotId.getD "" ≠ ""

/-- A NodeTask for the directory, and the locator of its dispatch. -/
structure BackupAttempt where
  id : Nat
  nodeId : Nat
  operationAttempt : Nat
  status : Node.Status := .pending
  accepted : Bool := false
  sealed : Bool := false
  /-- The identifier that `_extract_snapshot_metrics` finds in the result. -/
  snapshotId : String := ""
  locator : SnapshotRepositoryLocator
deriving DecidableEq

def assertNoOrphanCleanup (orphanCleanup : Bool) : Except LocatorError Unit :=
  if orphanCleanup then
    .error ⟨"repository_id",
      "Orphan snapshot reconciliation is active or awaiting execution confirmation."⟩
  else .ok ()

def DirectoryRow.registered (row : DirectoryRow) (status : DirectoryStatus)
    (snapshotId : Option String) (errorCode errorMessage : String) : DirectoryRow :=
  { row with toSnapshotDirectory := (SnapshotDirectory.registered
      ⟨row.id, row.backupConfigDirId, snapshotId, status, errorCode, errorMessage⟩) }

section Registered

variable (row : DirectoryRow) (status : DirectoryStatus) (snapshotId : Option String)
  (code message : String)

@[simp] theorem registered_repositoryLocator :
    (row.registered status snapshotId code message).repositoryLocator =
      row.repositoryLocator := by
  rw [DirectoryRow.registered]

@[simp] theorem registered_nodeTaskId :
    (row.registered status snapshotId code message).nodeTaskId = row.nodeTaskId := by
  rw [DirectoryRow.registered]

@[simp] theorem registered_status :
    (row.registered status snapshotId code message).status = status := by
  rw [DirectoryRow.registered, SnapshotDirectory.registered]

theorem registered_kopiaSnapshotId :
    (row.registered status snapshotId code message).kopiaSnapshotId =
      if normalizeKopiaSnapshotId (snapshotId.getD "") = "" then none
      else some (normalizeKopiaSnapshotId (snapshotId.getD "")) := by
  rw [DirectoryRow.registered, SnapshotDirectory.registered, SnapshotDirectory.physicalId]

end Registered

/-- `record_source_snapshot_directory_result` for the row. -/
def DirectoryRow.record (row : DirectoryRow) (orphanCleanup : Bool) (status : DirectoryStatus)
    (snapshotId : Option String) (errorCode errorMessage : String) :
    Except LocatorError DirectoryRow :=
  let result := row.registered status snapshotId errorCode errorMessage
  if status = .available ∧ result.kopiaSnapshotId = none then
    .error ⟨"kopia_snapshot_id", "Available directory results require kopia_snapshot_id."⟩
  else if status = .failed ∧ Text.strip errorCode = "" ∧ Text.strip errorMessage = "" then
    .error ⟨"error_message", "Failed directory results require an error message."⟩
  else do
    assertNoOrphanCleanup orphanCleanup
    .ok result

/-- `ensure_snapshot_repository_locator` for the row. -/
def DirectoryRow.ensure (row : DirectoryRow) (repository : Repository) (writerNodeId : Nat) :
    Except LocatorError DirectoryRow :=
  (ensureSnapshotRepositoryLocator repository (some writerNodeId) row.hasSnapshot
    row.repositoryLocator).map fun stored => { row with repositoryLocator := stored }

/-! ## Dispatching -/

/-- What a call of `_dispatch_directory_backup` did. -/
inductive Dispatched where
  /-- No task and no slot for one. -/
  | skipped
  /-- The result of a successful task was recorded. -/
  | adopted (row : DirectoryRow) (attempt : BackupAttempt)
  | bound (row : DirectoryRow) (attempt : BackupAttempt)
  | started (row : DirectoryRow) (attempt : BackupAttempt)

/-- The end of `_dispatch_directory_backup`: a new task. -/
def startBackup (repository : Repository) (newId nodeId : Nat) (allowNewTask : Bool)
    (row : DirectoryRow) : Except LocatorError Dispatched :=
  if allowNewTask then do
    let ensured ← row.ensure repository nodeId
    let locator ← buildSnapshotRepositoryLocator repository (some nodeId)
    .ok (.started { ensured with status := .dispatching, nodeTaskId := some newId }
      { id := newId, nodeId, operationAttempt := row.retryCount + 1, locator })
  else .ok .skipped

/-- `_dispatch_directory_backup`, given the task that the row names or that was found for it. -/
def dispatchDirectoryBackup (repository : Repository) (orphanCleanup : Bool)
    (existing : Option BackupAttempt) (newId nodeId : Nat) (allowNewTask : Bool)
    (row : DirectoryRow) : Except LocatorError Dispatched := do
  assertNoOrphanCleanup orphanCleanup
  match existing with
  | none => startBackup repository newId nodeId allowNewTask row
  | some attempt =>
    if attempt.status = .success then do
      let ensured ← row.ensure repository attempt.nodeId
      if attempt.snapshotId ≠ "" then do
        let recorded ← ensured.record orphanCleanup .available (some attempt.snapshotId) "" ""
        .ok (.adopted { recorded with nodeTaskId := some attempt.id } attempt)
      else
        .ok (.bound { ensured with status := .running, nodeTaskId := some attempt.id } attempt)
    else if attempt.status.isActive then do
      let ensured ← row.ensure repository attempt.nodeId
      .ok (.bound { ensured with
        status := if attempt.status = .running then .running else .dispatching
        nodeTaskId := some attempt.id } attempt)
    else startBackup repository newId nodeId allowNewTask row

/-! ## Observing -/

/-- What `_observe_running_directory` finds outside of the row and of the task. -/
structure Observation where
  reconnecting : Bool := false
  /-- `is_node_offline_stale`, and the task did not succeed meanwhile. -/
  offline : Bool := false
  nodeOnline : Bool := true
  errorCode : String := ""
  errorMessage : String := ""
  /-- The node reports `_BACKUP_OPERATION_RECONCILE_CAPABILITY`. -/
  supportsSafeRetry : Bool := false
  /-- The task ended less than the grace period ago. -/
  withinGrace : Bool := false
  /-- The deadlines of `_handle_directory_stall` have passed. -/
  stalled : Bool := false
deriving DecidableEq

/-- The row is updated, or a result of the task is recorded. -/
inductive Observed where
  | updated (row : DirectoryRow)
  | recorded (row : DirectoryRow)

def DirectoryRow.requeue (row : DirectoryRow) (errorCode errorMessage : String) : DirectoryRow :=
  { row with
    status := .pending, nodeTaskId := none, retryCount := row.retryCount + 1
    errorCode, errorMessage }

/-- The statuses that allow a retry: the task ended without success and was not cancelled. -/
def canRetry (attempt : BackupAttempt) (row : DirectoryRow) : Bool :=
  attempt.status ≠ .canceled && row.retryCount < 1

/-- The failure of a task is recorded, with the identifier that its result may have. -/
def recordFailure (orphanCleanup : Bool) (attempt : BackupAttempt) (row : DirectoryRow)
    (code message : String) : Except LocatorError Observed :=
  (row.record orphanCleanup (if code = "USER_CANCELLED" then .cancelled else .failed)
    (some attempt.snapshotId) code message).map .recorded

/-- `_observe_running_directory` for a task that ended without success. -/
def observeFailure (orphanCleanup : Bool) (o : Observation) (attempt : BackupAttempt)
    (row : DirectoryRow) : Except LocatorError Observed :=
  if o.errorCode = "AGENT_RESTARTED" ∧ canRetry attempt row = true then
    if o.supportsSafeRetry then
      .ok (.updated (row.requeue "AGENT_RESTART_RECOVERY_PENDING" o.errorMessage))
    else if o.withinGrace then
      .ok (.updated { row with
        errorCode := "AGENT_RESTART_CAPABILITY_PENDING"
        errorMessage :=
          "Waiting for the reconnected Agent to report backup retry capabilities." })
    else
      recordFailure orphanCleanup attempt row "AGENT_UPGRADE_REQUIRED"
        ("Upgrade the Agent before retrying this backup so an existing " ++
          "snapshot can be verified safely.")
  else if o.errorCode = "KOPIA_POLICY_NOT_FOUND" ∧ canRetry attempt row = true then
    .ok (.updated (row.requeue "KOPIA_POLICY_REPAIR_PENDING" o.errorMessage))
  else recordFailure orphanCleanup attempt row o.errorCode o.errorMessage

def DirectoryRow.fail (row : DirectoryRow) (orphanCleanup : Bool) (code message : String) :
    Except LocatorError Observed :=
  (row.record orphanCleanup .failed none code message).map .updated

def observeRunningDirectory (orphanCleanup : Bool) (o : Observation) (attempt : BackupAttempt)
    (row : DirectoryRow) : Except LocatorError Observed :=
  if attempt.status.isActive then
    if o.reconnecting then .ok (.updated row)
    else if o.offline then row.fail orphanCleanup "AGENT_OFFLINE" o.errorMessage
    else if !o.nodeOnline then .ok (.updated row)
    else if attempt.status = .running then
      if o.stalled then row.fail orphanCleanup "KOPIA_PROGRESS_STALL" o.errorMessage
      else .ok (.updated { row with
        status := if row.status = .dispatching then .running else row.status })
    else .ok (.updated row)
  else if attempt.status = .success then
    if attempt.snapshotId = "" then
      row.fail orphanCleanup "KOPIA_SNAPSHOT_ID_MISSING"
        "Kopia snapshot creation succeeded but no snapshot id was returned."
    else
      (row.record orphanCleanup .available (some attempt.snapshotId) "" "").map .recorded
  else observeFailure orphanCleanup o attempt row

/-! ## Late results -/

def lateSuccessAdoptErrorCodes : List String :=
  ["WATCHDOG_STALL", "RESULT_ACK_TIMEOUT", "KOPIA_PROGRESS_STALL", "AGENT_TIMEOUT",
    "AGENT_OFFLINE", "AGENT_RESTARTED"]

def lateDirectoryFailureIsTransient (row : DirectoryRow) : Bool :=
  let code := String.ofList ((Text.strip row.errorCode).toList.map Char.toUpper)
  decide (code ∈ lateSuccessAdoptErrorCodes) ||
    (code = "AGENT_BACKUP_FAILED" &&
      decide ("agent went offline".toList <:+: (Text.lower (Text.strip row.errorMessage)).toList))

def lateBackupResultMatchesCurrentAttempt (row : DirectoryRow) (attempt : BackupAttempt) : Bool :=
  row.nodeTaskId = some attempt.id && attempt.accepted && !attempt.sealed &&
    attempt.operationAttempt = row.retryCount + 1

/-- The rows for which `project_backup_node_task_result` has a use. -/
def DirectoryRow.awaitsLateResult (row : DirectoryRow) : Bool :=
  match row.status with
  | .pending | .dispatching | .running | .creating => true
  | .failed => lateDirectoryFailureIsTransient row
  | .available | .cancelled | .deleted => false

/-- `project_backup_node_task_result` of a failed backup task: the row, unless the result is
ignored. -/
def projectBackupNodeTaskResult (repository : Repository) (orphanCleanup : Bool)
    (attempt : BackupAttempt) (row : DirectoryRow) : Except LocatorError (Option DirectoryRow) :=
  if attempt.status = .success ∧ row.awaitsLateResult = true ∧
      lateBackupResultMatchesCurrentAttempt row attempt = true ∧
      normalizeKopiaSnapshotId attempt.snapshotId ≠ "" then do
    let ensured ← row.ensure repository attempt.nodeId
    let recorded ← ensured.record orphanCleanup .available (some attempt.snapshotId) "" ""
    .ok (some { recorded with nodeTaskId := some attempt.id })
  else .ok none

/-- What `retry_backup_directory` saves, all columns of it. -/
def DirectoryRow.retried (loaded : DirectoryRow) : DirectoryRow := loaded.requeue "" ""

/-! ## Readers -/

/-- A call of `resolve_snapshot_repository_locator`. -/
inductive Reader where
  | loaded (stored : Json)
  | derived (locator : SnapshotRepositoryLocator)
  | missed (locator : SnapshotRepositoryLocator)
  | done (locator : SnapshotRepositoryLocator)
  | raised (error : LocatorError)
deriving DecidableEq

/-- From the instance to a locator, stored or derived. -/
def resolveLoaded (repository : Repository) (lookups : LegacyLookups) (stored : Json) : Reader :=
  match storedLocator repository stored with
  | .error error => .raised error
  | .ok (some existing) => .done existing
  | .ok none =>
    match buildLegacySnapshotRepositoryLocator repository lookups with
    | .error error => .raised error
    | .ok locator => .derived locator

/-- The answer after `refresh_from_db`. -/
def resolveRefreshed (repository : Repository) (locator : SnapshotRepositoryLocator)
    (stored : Json) : Reader :=
  match storedLocator repository stored with
  | .error error => .raised error
  | .ok concurrent => .done (concurrent.getD locator)

/-! ## Runs -/

/-- A directory with its repository, its tasks and the callers at work. -/
structure LocatorState where
  repository : Repository
  row : DirectoryRow
  /-- The newest first. -/
  attempts : List BackupAttempt := []
  /-- The instances that calls of `retry_backup_directory` hold. -/
  retries : List DirectoryRow := []
  readers : List Reader := []
  /-- The task for which a locator was last ensured. -/
  dispatchedFor : Option Nat := none
  /-- The task whose result gave the row its identifier. -/
  source : Option Nat := none
deriving DecidableEq

section

variable (s : LocatorState)

def LocatorState.attempt (id : Nat) : Option BackupAttempt :=
  Table.find BackupAttempt.id s.attempts id

/-- `_get_node_task_for_directory`. -/
def LocatorState.nodeTask (nodeId : Nat) : Option BackupAttempt :=
  (s.row.nodeTaskId.bind s.attempt).or (s.attempts.find? fun a => a.nodeId = nodeId)

inductive LocatorEvent where
  | rebind (bindNodeType : Option BindNodeType) (bindNodeId : Option Int)
  | dispatch (orphanCleanup : Bool) (nodeId : Nat) (allowNewTask : Bool)
  /-- The NodeTask changes as its Agent and the control plane report. -/
  | report (id : Nat) (status : Node.Status) (accepted sealed : Bool) (snapshotId : String)
  | observe (orphanCleanup : Bool) (nodeId : Nat) (o : Observation)
  | project (orphanCleanup : Bool) (id : Nat)
  /-- A directory in progress is failed or cancelled without a result. -/
  | settle (orphanCleanup : Bool) (cancelled : Bool) (code message : String)
  | refreshFailure (orphanCleanup : Bool) (code message : String)
  | delete
  | retryLoad
  | retrySave (i : Nat)
  | load
  | resolve (i : Nat) (lookups : LegacyLookups)
  | fill (i : Nat)
  | refresh (i : Nat)
deriving DecidableEq

def LocatorState.dispatched : Dispatched → LocatorState
  | .skipped => s
  | .adopted row attempt =>
    { s with row, dispatchedFor := some attempt.id, source := some attempt.id }
  | .bound row attempt => { s with row, dispatchedFor := some attempt.id }
  | .started row attempt =>
    { s with row, attempts := attempt :: s.attempts, dispatchedFor := some attempt.id }

def LocatorState.observed (attempt : BackupAttempt) :
    Observed → LocatorState
  | .updated row => { s with row }
  | .recorded row => { s with row, source := some attempt.id }

def LocatorState.setReader (i : Nat) (reader : Reader) : LocatorState :=
  { s with readers := s.readers.set i reader }

/-- One step. A call that raises changes nothing and is not a step. -/
def locatorStep : LocatorEvent → Option LocatorState
  | .rebind bindNodeType bindNodeId =>
    some { s with repository := s.repository.rebind bindNodeType bindNodeId }
  | .dispatch orphanCleanup nodeId allowNewTask =>
    if s.row.status = .pending ∨ s.row.status = .creating then
      (dispatchDirectoryBackup s.repository orphanCleanup (s.nodeTask nodeId)
        s.attempts.length nodeId allowNewTask s.row).toOption.map s.dispatched
    else none
  | .report id status accepted sealed snapshotId =>
    some { s with attempts := Table.update BackupAttempt.id s.attempts id fun a =>
      { a with status, accepted, sealed, snapshotId } }
  | .observe orphanCleanup nodeId o =>
    if s.row.status.isTerminal then none
    else
      match s.nodeTask nodeId with
      | none => some { s with row := { s.row with status := .pending, nodeTaskId := none } }
      | some attempt =>
        (observeRunningDirectory orphanCleanup o attempt s.row).toOption.map
          (s.observed attempt)
  | .project orphanCleanup id =>
    match s.attempt id with
    | none => none
    | some attempt =>
      match projectBackupNodeTaskResult s.repository orphanCleanup attempt s.row with
      | .ok (some row) =>
        some { s with row, dispatchedFor := some attempt.id, source := some attempt.id }
      | _ => none
  | .settle orphanCleanup cancelled code message =>
    if s.row.status.isTerminal then none
    else
      (s.row.record orphanCleanup (if cancelled then .cancelled else .failed) none code
        message).toOption.map fun row => { s with row }
  | .refreshFailure orphanCleanup code message =>
    if s.row.status = .failed then
      (s.row.record orphanCleanup .failed none code message).toOption.map fun row =>
        { s with row }
    else none
  | .delete => some { s with row := { s.row with status := .deleted } }
  | .retryLoad =>
    if s.row.status = .failed then some { s with retries := s.retries ++ [s.row] } else none
  | .retrySave i => s.retries[i]?.map fun loaded => { s with row := loaded.retried }
  | .load =>
    if s.row.hasSnapshot then
      some { s with readers := s.readers ++ [.loaded s.row.repositoryLocator] }
    else none
  | .resolve i lookups =>
    match s.readers[i]? with
    | some (.loaded stored) => some (s.setReader i (resolveLoaded s.repository lookups stored))
    | _ => none
  | .fill i =>
    match s.readers[i]? with
    | some (.derived locator) =>
      if s.row.repositoryLocator = .obj [] then
        some { s.setReader i (.done locator) with
          row := { s.row with repositoryLocator := locator.payload } }
      else some (s.setReader i (.missed locator))
    | _ => none
  | .refresh i =>
    match s.readers[i]? with
    | some (.missed locator) =>
      some (s.setReader i (resolveRefreshed s.repository locator s.row.repositoryLocator))
    | _ => none

end

/-- A directory that was never dispatched, or a legacy one that has a snapshot and no locator. -/
structure LocatorStart (s : LocatorState) : Prop where
  stored : s.row.repositoryLocator = .obj []
  named : s.row.nodeTaskId = none
  attempts : s.attempts = []
  retries : s.retries = []
  readers : s.readers = []
  dispatchedFor : s.dispatchedFor = none
  source : s.source = none
  settled : s.row.kopiaSnapshotId ≠ none →
    s.row.hasSnapshot = true ∧ s.row.status.isTerminal = true

def locatorSystem : System LocatorState LocatorEvent := ⟨LocatorStart, locatorStep⟩

end HyperFileLens.Protection
