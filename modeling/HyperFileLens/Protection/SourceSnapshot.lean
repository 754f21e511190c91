import HyperFileLens.Library.Json
import HyperFileLens.Tasks.Task

/-!
# Snapshots of a backup source

The rows that belong to one snapshot of a source, and the transactions that change
them: registration of backup results, usage leases and delete tasks.

*Rows.*  A `SnapshotRecord` is the row of a snapshot with its directories, its usage
leases and its delete tasks, the latest task first.

*Transactions.*  Each function locks the row of the snapshot for as long as it runs.
What other subsystems decide inside it (the fence of orphan cleanup, the workloads a
repository accepts, source removal) is an argument.

*Times.*  Times are microseconds since 1970.
-/

namespace HyperFileLens.Protection

open Tasks

/-! ## Rows -/

/-- `BackupSourceSnapshot.Status`. -/
inductive SnapshotStatus where
  | creating
  | available
  | partially
  | failed
  | deleting
  | deleteFailed
  | deleted
deriving DecidableEq, Repr

def SnapshotStatus.isRestorable : SnapshotStatus → Bool
  | .available | .partially => true
  | _ => false

/-- The statuses a delete task leaves a snapshot in. -/
def SnapshotStatus.isDeletion : SnapshotStatus → Bool
  | .deleting | .deleteFailed | .deleted => true
  | _ => false

/-- `BackupSourceSnapshotDirectory.Status`. -/
inductive DirectoryStatus where
  | pending
  | dispatching
  | running
  | creating
  | available
  | failed
  | cancelled
  | deleted
deriving DecidableEq, Repr

/-- `_TERMINAL_DIRECTORY_STATUSES`. -/
def DirectoryStatus.isTerminal : DirectoryStatus → Bool
  | .available | .failed | .cancelled | .deleted => true
  | _ => false

structure BackupSourceSnapshot where
  id : Nat
  status : SnapshotStatus := .creating
  startedAt : Option Int := none
  finishedAt : Option Int := none
  createdAt : Int
  directoryCount : Nat := 0
  successfulDirectoryCount : Nat := 0
  failedDirectoryCount : Nat := 0
  errorCode : String := ""
  errorMessage : String := ""
  deletedAt : Option Int := none
deriving DecidableEq

structure SnapshotRepositoryLocator where
  version : Nat := 1
  repositoryId : Nat
  repositoryType : String
  repositorySubdir : String := ""
  writerNodeId : Option Nat := none
  accessNodeId : Option Nat := none
deriving DecidableEq

/-- `BackupSourceSnapshotDirectory`. -/
structure SnapshotDirectory where
  id : Nat
  backupConfigDirId : Nat
  kopiaSnapshotId : Option String
  status : DirectoryStatus
  errorCode : String := ""
  errorMessage : String := ""
deriving DecidableEq

/-- `SnapshotUsageLease` of a snapshot. -/
structure SnapshotUsageLease where
  consumerType : String
  consumerId : String
deriving DecidableEq

/-- `result_payload` of a delete task. -/
structure DeleteResult where
  deletedCount : Nat
  failedCount : Nat
  alreadyAbsentCount : Nat := 0
  results : List Dict := []
deriving DecidableEq

structure DeleteTask where
  id : Nat
  task : TaskRow DeleteResult := {}
deriving DecidableEq

structure SnapshotRecord where
  row : BackupSourceSnapshot
  directories : List SnapshotDirectory := []
  leases : List SnapshotUsageLease := []
  deleteTasks : List DeleteTask := []
deriving DecidableEq

/-! ## Physical identifiers -/

def normalizeKopiaSnapshotId (value : String) : String :=
  let snapshotId := Text.strip value
  if Text.lower snapshotId ∈ ["none", "null"] then "" else snapshotId

def SnapshotDirectory.physicalId (d : SnapshotDirectory) : String :=
  normalizeKopiaSnapshotId (d.kopiaSnapshotId.getD "")

/-! ## Registration of backup results -/

/-- `refresh_source_snapshot_summary` of an instance of the row that the caller
holds. -/
def refreshSourceSnapshotSummary (instance' : BackupSourceSnapshot)
    (rows : List SnapshotDirectory) (finishedAt : Option Int) (now : Int) :
    BackupSourceSnapshot :=
  let total := max instance'.directoryCount rows.length
  let success := rows.countP fun row => row.status = .available
  let failed := rows.countP fun row => row.status = .failed || row.status = .cancelled
  let completed := rows.countP fun row => row.status.isTerminal
  let summary := { instance' with
    directoryCount := total, successfulDirectoryCount := success,
    failedDirectoryCount := failed }
  if 0 < total ∧ total ≤ completed then
    let finished := { summary with
      finishedAt := some ((finishedAt.or instance'.finishedAt).getD now) }
    if success = total then
      { finished with status := .available, errorCode := "", errorMessage := "" }
    else if 0 < success then { finished with status := .partially }
    else { finished with status := .failed }
  else if instance'.status = .failed ∨ instance'.status.isDeletion then summary
  else { summary with status := .creating, finishedAt := none }

/-- The columns that `refresh_source_snapshot_summary` saves. -/
def BackupSourceSnapshot.saveSummary (row summary : BackupSourceSnapshot) :
    BackupSourceSnapshot :=
  { row with
    status := summary.status, directoryCount := summary.directoryCount,
    successfulDirectoryCount := summary.successfulDirectoryCount,
    failedDirectoryCount := summary.failedDirectoryCount,
    errorCode := summary.errorCode, errorMessage := summary.errorMessage,
    finishedAt := summary.finishedAt }

/-- `update_or_create` of the row of a configured directory. -/
def putDirectory (rows : List SnapshotDirectory) (result : SnapshotDirectory) :
    List SnapshotDirectory :=
  if rows.any fun row => row.backupConfigDirId = result.backupConfigDirId then
    rows.map fun row =>
      if row.backupConfigDirId = result.backupConfigDirId then
        { result with id := row.id }
      else row
  else rows ++ [result]

def SnapshotDirectory.registered (result : SnapshotDirectory) : SnapshotDirectory :=
  { result with
    kopiaSnapshotId := if result.physicalId = "" then none else some result.physicalId }

/-- `record_source_snapshot_directory_result` by a caller that holds an instance of the
row. -/
def recordSourceSnapshotDirectoryResult (orphanCleanup : Bool) (s : SnapshotRecord)
    (instance' : BackupSourceSnapshot) (result : SnapshotDirectory) (now : Int) :
    Except String (SnapshotRecord × BackupSourceSnapshot) :=
  if result.status = .available ∧ result.physicalId = "" then
    .error "Available directory results require kopia_snapshot_id."
  else if result.status = .failed ∧ Text.strip result.errorCode = "" ∧
      Text.strip result.errorMessage = "" then
    .error "Failed directory results require an error message."
  else if orphanCleanup then
    .error "Orphan snapshot reconciliation is active or awaiting execution confirmation."
  else
    let rows := putDirectory s.directories result.registered
    let summary := refreshSourceSnapshotSummary instance' rows none now
    .ok ({ s with row := s.row.saveSummary summary, directories := rows }, summary)

/-! ## Usage leases -/

/-- Why a transaction on a snapshot fails. -/
inductive SnapshotError where
  | usageConflict (message : String)
  | validation (message : String)
deriving DecidableEq

/-- `acquire_snapshot_usage`. The argument is the refusal of the source, of its Agent,
of the repository or of the configuration, if there is one. -/
def acquireSnapshotUsage (refusal : Option SnapshotError) (s : SnapshotRecord)
    (lease : SnapshotUsageLease) : Except SnapshotError SnapshotRecord :=
  match refusal with
  | some error => .error error
  | none =>
    if s.row.status.isRestorable then
      .ok { s with leases := if lease ∈ s.leases then s.leases else lease :: s.leases }
    else .error (.usageConflict "Snapshot is no longer available.")

def releaseSnapshotUsage (s : SnapshotRecord) (lease : SnapshotUsageLease) : SnapshotRecord :=
  { s with leases := s.leases.filter fun l => l ≠ lease }

/-- `snapshot_is_protected`. -/
def SnapshotRecord.isProtected (s : SnapshotRecord) : Bool := !s.leases.isEmpty

/-! ## Delete tasks -/

def SnapshotRecord.activeDeleteTask (s : SnapshotRecord) : Option DeleteTask :=
  s.deleteTasks.find? fun t => !t.task.status.isTerminal

def SnapshotRecord.latestDeleteTask (s : SnapshotRecord) : Option DeleteTask :=
  s.deleteTasks.head?

def inUse : SnapshotError :=
  .usageConflict "Snapshot is currently in use by a restore or Chat preparation."

/-- `create_snapshot_delete_task`. The argument says whether the repository accepts
deletions. -/
def createSnapshotDeleteTask (accepted : Bool) (s : SnapshotRecord) :
    Except SnapshotError SnapshotRecord :=
  if s.isProtected then .error inUse
  else if s.row.status = .deleted then .error (.validation "Snapshot is already deleted.")
  else
    match s.activeDeleteTask with
    | some _ => .ok s
    | none =>
      if accepted then
        .ok { s with
          row.status := .deleting
          deleteTasks := { id := s.deleteTasks.length } :: s.deleteTasks }
      else .error (.validation "Repository is no longer available for this operation.")

/-- The retry of the latest delete task, with the snapshot back in `DELETING`. -/
def retryDeleteTask (accepted : Bool) (s : SnapshotRecord) :
    Except SnapshotError SnapshotRecord :=
  if accepted then
    match s.deleteTasks with
    | [] => .error (.validation "Task does not exist.")
    | t :: tasks =>
      match t.task.retry with
      | .ok task' => .ok { s with
          row.status := .deleting, row.errorCode := "", row.errorMessage := ""
          deleteTasks := { t with task := task' } :: tasks }
      | .error message => .error (.validation message)
  else .error (.validation "Repository is no longer available for this operation.")

def createAndQueueSnapshotDeleteTask (accepted : Bool) (s : SnapshotRecord) :
    Except SnapshotError SnapshotRecord :=
  if s.isProtected then .error inUse
  else
    match s.activeDeleteTask with
    | some _ => .ok s
    | none =>
      if s.row.status = .deleteFailed ∧
          ∃ t ∈ s.latestDeleteTask,
            t.task.status.isTerminal = true ∧ t.task.status ≠ .success then
        retryDeleteTask accepted s
      else createSnapshotDeleteTask accepted s

/-! ## What a lease needs -/

variable {s s' : SnapshotRecord} {accepted : Bool}

theorem acquireSnapshotUsage_ok {refusal : Option SnapshotError} {lease : SnapshotUsageLease}
    (h : acquireSnapshotUsage refusal s lease = .ok s') : s.row.status.isRestorable = true ∧
      s'.row = s.row ∧ s'.directories = s.directories ∧ s'.deleteTasks = s.deleteTasks := by
  cases refusal with
  | some error => cases h
  | none =>
    rw [acquireSnapshotUsage] at h
    split at h
    · rename_i hrestorable
      cases h
      exact ⟨hrestorable, rfl, rfl, rfl⟩
    · cases h

/-! ## What a delete request does -/

theorem SnapshotRecord.leases_eq_nil (h : ¬s.isProtected = true) : s.leases = [] := by
  simpa [isProtected] using h

/-- A delete task was there already, or there is a pending one now and the snapshot is
`DELETING`. -/
structure Requested (s s' : SnapshotRecord) : Prop where
  unused : s.leases = []
  id : s'.row.id = s.row.id
  leases : s'.leases = s.leases
  directories : s'.directories = s.directories
  claimed : s' = s ∧ s.activeDeleteTask.isSome = true ∨
    s.activeDeleteTask = none ∧ s'.row.status = .deleting

theorem createSnapshotDeleteTask_ok (h : createSnapshotDeleteTask accepted s = .ok s') :
    Requested s s' := by
  rw [createSnapshotDeleteTask] at h
  split at h
  · cases h
  · rename_i hfree
    have hleases := SnapshotRecord.leases_eq_nil hfree
    split at h
    · cases h
    · cases hactive : s.activeDeleteTask with
      | some task =>
        rw [hactive] at h
        cases h
        exact ⟨hleases, rfl, rfl, rfl, .inl ⟨rfl, by simp [hactive]⟩⟩
      | none =>
        rw [hactive] at h
        cases accepted with
        | false => cases h
        | true =>
          cases h
          exact ⟨hleases, rfl, rfl, rfl, .inr ⟨hactive, rfl⟩⟩

/-- A retry puts the snapshot back in `DELETING`. -/
theorem retryDeleteTask_ok (h : retryDeleteTask accepted s = .ok s') : s'.row.status = .deleting ∧
      s'.row.id = s.row.id ∧ s'.leases = s.leases ∧ s'.directories = s.directories := by
  rw [retryDeleteTask] at h
  cases accepted with
  | false => cases h
  | true =>
    cases htasks : s.deleteTasks with
    | nil => simp [htasks] at h
    | cons t tasks =>
      cases hretry : t.task.retry with
      | error message => simp [htasks, hretry] at h
      | ok task' =>
        have hs : s' = { s with
            row.status := .deleting, row.errorCode := "", row.errorMessage := ""
            deleteTasks := { t with task := task' } :: tasks } := by
          simpa [htasks, hretry] using h.symm
        rw [hs]
        exact ⟨rfl, rfl, rfl, rfl⟩

theorem createAndQueueSnapshotDeleteTask_ok
    (h : createAndQueueSnapshotDeleteTask accepted s = .ok s') : Requested s s' := by
  rw [createAndQueueSnapshotDeleteTask] at h
  split at h
  · cases h
  · rename_i hfree
    have hleases := SnapshotRecord.leases_eq_nil hfree
    cases hactive : s.activeDeleteTask with
    | some task =>
      rw [hactive] at h
      cases h
      exact ⟨hleases, rfl, rfl, rfl, .inl ⟨rfl, by simp [hactive]⟩⟩
    | none =>
      rw [hactive] at h
      dsimp only at h
      split at h
      · obtain ⟨hstatus, hid, hl, hd⟩ := retryDeleteTask_ok h
        exact ⟨hleases, hid, hl, hd, .inr ⟨hactive, hstatus⟩⟩
      · exact createSnapshotDeleteTask_ok h

end HyperFileLens.Protection
