import HyperFileLens.Node.Task
import HyperFileLens.Protection.SnapshotDelete

/-!
# Orphan snapshots of a repository

The rows that reconciliation of orphan snapshots reads and writes, for one execution
target of a repository, and its checks on them: what the product still owns, which
backups may still write, and what an advance may do to a candidate.

*Rows.*  A `ReconcileTask` is a row of `RepositoryTask` together with its platform task,
their steps and their `orphan_snapshot_result` events. Tasks and delete attempts are
listed newest first.

*Leases.*  A `DeleteAttempt` carries the state of its lease file: whether the worker that
created it still has it open, and whether the runner or its CLI does.

*Times.*  Times are microseconds.
-/

namespace HyperFileLens.Storage

open Tasks Protection

/-! ## Candidates -/

/-- `RepositoryOrphanSnapshot.status`. -/
inductive CandidateStatus where
  | candidate
  | deleting
  | managed
  | absent
  | deleted
deriving DecidableEq, Repr

/-- `RepositoryOrphanSnapshot`. -/
structure OrphanSnapshot where
  snapshotId : String
  operationId : String := ""
  firstSeenAt : Int
  status : CandidateStatus := .candidate
  deletedAt : Option Int := none
  lastError : String := ""
  deleteNotBefore : Option Int := none
deriving DecidableEq

structure InventoryItem where
  snapshotId : String
  operationId : String := ""
deriving DecidableEq

/-- `operation_id[:36]`. -/
def operationUuid (operationId : String) : String := String.ofList (operationId.toList.take 36)

/-- `timedelta(hours=24)`. -/
def gracePeriod : Int := 24 * 3600 * 1000000

/-! ## Tasks -/

/-- `TaskStep.Status`. -/
inductive StepStatus where
  | pending
  | running
  | success
  | failed
  | skipped
deriving DecidableEq, Repr

structure TaskStep where
  stepName : String
  status : StepStatus := .pending
deriving DecidableEq

def operationSteps : List TaskStep :=
  [{ stepName := "prepare_repository_operation" }, { stepName := "verify_repository_owner" },
    { stepName := "run_repository_operation" }, { stepName := "finalize_repository_operation" }]

/-- The outcome of an `orphan_snapshot_result` event. -/
inductive ResultOutcome where
  | discovered
  | grace
  | deferred
  | managed
  | absent
  | deleted
  | failed
deriving DecidableEq, Repr

/-- An `orphan_snapshot_result` event. -/
structure OrphanEvent where
  snapshotId : String
  outcome : ResultOutcome
deriving DecidableEq

/-- `orphan_recovery` of a result payload. -/
structure OrphanRecovery where
  checks : Nat
  nextCheckAt : Int
  finished : Bool := false
deriving DecidableEq

/-- `RepositoryTask` of a reconciliation with its task. -/
structure ReconcileTask where
  id : Nat
  task : TaskRow OrphanRecovery := {}
  replacesTask : Option Nat := none
  recoveryAttempt : Nat := 0
  dueAt : Option Int := none
  executionToken : Option Nat := none
  currentStep : String := "prepare_repository_operation"
  progress : Nat := 0
  steps : List TaskStep := operationSteps
  events : List OrphanEvent := []
deriving DecidableEq

/-- How many snapshots of a task have an outcome. -/
def ReconcileTask.count (row : ReconcileTask) (outcome : ResultOutcome) : Nat :=
  row.events.countP fun e => e.outcome = outcome

def ReconcileTask.record (row : ReconcileTask) (snapshotId : String) (outcome : ResultOutcome) :
    ReconcileTask :=
  if row.events.any fun e => e.snapshotId = snapshotId then row
  else { row with events := ⟨snapshotId, outcome⟩ :: row.events }

def ReconcileTask.setTaskStep (row : ReconcileTask) (name : String) (status : StepStatus)
    (progress : Nat) : ReconcileTask :=
  { row with
    steps := row.steps.map fun step =>
      if step.stepName = name then { step with status := status } else step
    currentStep := name, progress := progress }

def ReconcileTask.step (row : ReconcileTask) (name : String) (status : StepStatus)
    (progress : Nat) : ReconcileTask :=
  match row.steps.find? fun step => step.stepName = name with
  | none => row
  | some step =>
    if step.status = status ∨ step.status = .success ∨ step.status = .skipped then row
    else row.setTaskStep name status progress

/-- The steps of a failed task: the running ones fail, the queued ones are skipped. -/
def ReconcileTask.failSteps (row : ReconcileTask) : ReconcileTask :=
  { row with
    steps := row.steps.map fun step =>
      if step.status = .running then { step with status := .failed }
      else if step.status = .pending then { step with status := .skipped }
      else step }

/-! ## Agent operations -/

inductive OrphanOperation where
  | inventory
  | orphanDelete (snapshotId : String)
deriving DecidableEq, Repr

structure OrphanResult where
  executionComplete : Bool := false
  inventoryComplete : Bool := false
  manifests : List InventoryItem := []
  snapshotId : String := ""
  deleted : Option Bool := none
deriving DecidableEq

/-- A `NodeTask` of a reconciliation. Its `correlation_id` is made of the parent, the
operation and the retry count. -/
structure OrphanChild where
  parentTask : Nat
  operation : OrphanOperation
  retryCount : Nat := 0
  status : Node.Status := .pending
  accepted : Bool := false
  result : OrphanResult := {}
deriving DecidableEq

/-- A failed execution whose end the Agent has confirmed. -/
def OrphanChild.confirmedFailure (child : OrphanChild) : Bool :=
  match child.operation with
  | .inventory => false
  | .orphanDelete _ => child.result.executionComplete

/-- The Agent may still execute, as far as the control plane knows. -/
def OrphanChild.unresolved (child : OrphanChild) : Bool :=
  match child.status with
  | .pending | .running | .timeout | .canceled => true
  | .success => false
  | .failed => child.accepted && !child.confirmedFailure

/-- What `_finish` takes for an execution that needs confirmation. -/
def OrphanChild.unconfirmed (child : OrphanChild) : Bool :=
  match child.status with
  | .pending | .running | .timeout | .canceled => true
  | .success => false
  | .failed => child.accepted && !child.result.executionComplete

/-! ## Controller deletions -/

/-- `OrphanSnapshotDeleteAttempt.state`. -/
inductive AttemptState where
  | prepared
  | finished
  | recovered
deriving DecidableEq, Repr

/-- A receipt of the runner with phase `finished`. -/
structure Receipt where
  exitCode : Int
  outcome : String := "completed"
deriving DecidableEq

/-- `OrphanSnapshotDeleteAttempt` with its lease and its journal. -/
structure DeleteAttempt where
  id : Nat
  candidate : String
  repositoryTask : Nat
  observationRevision : Nat
  state : AttemptState := .prepared
  worker : Bool := true
  runner : Bool := false
  receipt : Option Receipt := none
deriving DecidableEq

def DeleteAttempt.stopped (attempt : DeleteAttempt) : Bool := !attempt.worker && !attempt.runner

/-! ## Backups and managed snapshots -/

/-- A `NodeTask` of a backup, with what its result says. -/
structure BackupChild where
  status : Node.Status := .pending
  accepted : Bool := false
  reported : Bool := false
  deliveryTimeoutSealed : Bool := false
deriving DecidableEq

/-- What leaves the end of a backup execution in doubt. -/
def BackupChild.doubt (child : BackupChild) : Option String :=
  match child.status with
  | .pending | .running => some "Agent backup execution is still active."
  | .success => none
  | .failed =>
    if child.accepted && !child.reported then some "Agent backup termination is unconfirmed."
    else none
  | .timeout | .canceled =>
    if child.accepted && !child.reported then some "Agent backup termination is unconfirmed."
    else if child.deliveryTimeoutSealed then none
    else some "Agent backup result is unknown."

structure BackupTask where
  uuid : String
  status : TaskStatus := .pending
  children : List BackupChild := []
deriving DecidableEq

/-- A snapshot of the product with the backup task that made it. -/
structure ManagedSnapshot where
  taskUuid : String
  record : SnapshotRecord
deriving DecidableEq

/-- The physical identifiers that a snapshot owns. -/
def ManagedSnapshot.ids (s : ManagedSnapshot) : List String :=
  (s.record.directories.filter fun d => d.status ≠ .deleted || s.record.isProtected).filterMap
    SnapshotDirectory.kopiaSnapshotId

/-! ## Tables -/

/-- The tables of an execution target, and the clock. -/
structure OrphanTables where
  now : Int := 0
  tasks : List ReconcileTask := []
  activeTask : Option Nat := none
  candidates : List OrphanSnapshot := []
  children : List OrphanChild := []
  attempts : List DeleteAttempt := []
  backups : List BackupTask := []
  snapshots : List ManagedSnapshot := []
  revision : Nat := 0
deriving DecidableEq

namespace OrphanTables

section

variable (db : OrphanTables)

def task (id : Nat) : Option ReconcileTask :=
  Table.find ReconcileTask.id db.tasks id

def candidate (snapshotId : String) : Option OrphanSnapshot :=
  Table.find OrphanSnapshot.snapshotId db.candidates snapshotId

def attempt (id : Nat) : Option DeleteAttempt :=
  Table.find DeleteAttempt.id db.attempts id

/-- `delete_attempts.order_by("-created_at").first()`. -/
def newestAttempt (snapshotId : String) : Option DeleteAttempt :=
  db.attempts.find? fun a => a.candidate = snapshotId

def updateTask (t : Nat) (f : ReconcileTask → ReconcileTask) :
    OrphanTables :=
  { db with tasks := Table.update ReconcileTask.id db.tasks t f }

def updateCandidate (snapshotId : String)
    (f : OrphanSnapshot → OrphanSnapshot) : OrphanTables :=
  { db with candidates := Table.update OrphanSnapshot.snapshotId db.candidates snapshotId f }

def updateAttempt (id : Nat) (f : DeleteAttempt → DeleteAttempt) :
    OrphanTables :=
  { db with attempts := Table.update DeleteAttempt.id db.attempts id f }

end

def deleting (db : OrphanTables) : List OrphanSnapshot :=
  db.candidates.filter fun c => c.status = .deleting

section

variable (db : OrphanTables)

def anyDeleting : Bool := db.candidates.any fun c => c.status = .deleting

def managedIds : List String := db.snapshots.flatMap ManagedSnapshot.ids

/-- A snapshot of a backup task has a directory that is not deleted. -/
def hasOpenDirectory (uuid : String) : Bool :=
  db.snapshots.any fun s =>
    s.taskUuid = uuid && s.record.directories.any fun d => d.status ≠ .deleted

def pendingOperation (operationId : String) : Bool :=
  match db.backups.find? fun b => b.uuid = operationUuid operationId with
  | none => false
  | some b => !b.status.isTerminal || db.hasOpenDirectory b.uuid

/-- `_operation_index`: the operations of an inventory that are pending. -/
def operationIndex (inventory : List InventoryItem) : List String :=
  (inventory.map fun item => operationUuid item.operationId).filter fun uuid =>
    db.hasOpenDirectory uuid || db.backups.any fun b => b.uuid = uuid && !b.status.isTerminal

def backupBlocker : String :=
  if db.backups.any fun b => !b.status.isTerminal then
    "Backup execution or result registration is still active."
  else
    let children := db.backups.flatMap BackupTask.children
    if children.any fun child => child.status.isActive then
      "Agent backup execution is still active."
    else (children.findSome? BackupChild.doubt).getD ""

/-- `assert_no_orphan_cleanup` refuses. -/
def orphanCleanup : Bool := db.activeTask.isSome || db.anyDeleting

def discoveredBy (id : Nat) (snapshotId : String) : Bool :=
  match db.task id with
  | none => false
  | some row => db.tasks.any fun t =>
    (t.id = id || some t.id = row.replacesTask) &&
      t.events.any fun e => e.snapshotId = snapshotId && e.outcome = .discovered

end

end OrphanTables

end HyperFileLens.Storage
