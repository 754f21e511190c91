import HyperFileLens.Storage.OrphanTransactions

/-!
# What happens around an orphan reconciliation

The changes of the tables that are not made by an advance: a reconciliation is admitted,
backups are admitted, run and retried, snapshots are registered, used and deleted, Agents
report, and runners and workers of Controller deletions end.

*Fence.*  Admission of a backup, registration of its results and a new usage lease go
through `assert_no_orphan_cleanup`. A retry of a backup task does not.

*Confirmed ends.*  An Agent operation or a backup execution that has come to a confirmed
end stays there.
-/

namespace HyperFileLens.Storage

open Tasks Protection

inductive OrphanEnv where
  /-- Time passes. -/
  | tick (elapsed : Nat)
  /-- `create_repository_operation_task` of a reconciliation. -/
  | admitTask (dueAt : Option Int)
  | configure (revision : Nat)
  | agent (i : Nat) (status : Node.Status) (accepted : Bool) (result : OrphanResult)
  | receipt (attempt : Nat) (receipt : Receipt)
  | runnerEnds (attempt : Nat)
  | workerEnds (attempt : Nat)
  | admitBackup (uuid : String) (record : SnapshotRecord)
  | retryBackup (uuid : String)
  | progressBackup (uuid : String) (status : TaskStatus)
  | dispatchBackup (uuid : String)
  | backupChild (uuid : String) (i : Nat) (child : BackupChild)
  | registerResult (i : Nat) (instance' : BackupSourceSnapshot) (result : SnapshotDirectory)
  | acquireUsage (i : Nat) (lease : SnapshotUsageLease)
  | releaseUsage (i : Nat) (lease : SnapshotUsageLease)
  | deleteDirectories (i : Nat) (p : SnapshotDirectory → Bool)
  | updateSnapshot (i : Nat) (row : BackupSourceSnapshot)

namespace OrphanTables

section

variable (db : OrphanTables)

def updateRecord (i : Nat) (f : SnapshotRecord → SnapshotRecord) :
    OrphanTables :=
  { db with snapshots := db.snapshots.modify i fun s => { s with record := f s.record } }

def updateBackups (uuid : String) (f : BackupTask → BackupTask) :
    OrphanTables :=
  { db with backups := db.backups.map fun b => if b.uuid = uuid then f b else b }

def admitted (dueAt : Option Int) : ReconcileTask where
  id := db.tasks.length
  dueAt := dueAt

/-- `create_repository_operation_task` of a reconciliation. -/
def admitTask (dueAt : Option Int) : OrphanTables :=
  if db.activeTask.isSome ∨ db.backupBlocker ≠ "" then db
  else { db with
    tasks := db.admitted dueAt :: db.tasks, activeTask := some (db.admitted dueAt).id }

def admitBackup (uuid : String) (record : SnapshotRecord) : OrphanTables :=
  if db.orphanCleanup then db
  else { db with
    backups := { uuid := uuid } :: db.backups
    snapshots := { taskUuid := uuid, record := record } :: db.snapshots }

/-- `acquire_snapshot_usage` of a snapshot, under the fence. -/
def acquireUsage (i : Nat) (lease : SnapshotUsageLease) : OrphanTables :=
  db.updateRecord i fun s =>
    match acquireSnapshotUsage
        (if db.orphanCleanup then some (.validation
          "Orphan snapshot reconciliation is active or awaiting execution confirmation.")
        else none) s lease with
    | .ok s' => s'
    | .error _ => s

/-- `record_source_snapshot_directory_result` of a snapshot, under the fence. -/
def registerResult (i : Nat) (instance' : BackupSourceSnapshot)
    (result : SnapshotDirectory) : OrphanTables :=
  db.updateRecord i fun s =>
    match recordSourceSnapshotDirectoryResult db.orphanCleanup s instance' result db.now with
    | .ok (s', _) => s'
    | .error _ => s

end

end OrphanTables

/-- `retry_task` of a backup task. -/
def BackupTask.retry (b : BackupTask) : BackupTask :=
  if b.status = .failed ∨ b.status = .timeout ∨ b.status = .cancelled then
    { b with status := .pending }
  else b

def BackupTask.progress (status : TaskStatus) (b : BackupTask) : BackupTask :=
  if b.status.isTerminal then b else { b with status := status }

def BackupTask.dispatch (b : BackupTask) : BackupTask :=
  if b.status.isTerminal then b else { b with children := {} :: b.children }

def BackupChild.change (child' child : BackupChild) : BackupChild :=
  if child.doubt = none ∧ child'.doubt ≠ none then child else child'

def BackupTask.changeChild (i : Nat) (child' : BackupChild) (b : BackupTask) : BackupTask :=
  { b with children := b.children.modify i child'.change }

/-- An Agent operation that has not come to a confirmed end moves on. -/
def OrphanChild.report (status : Node.Status) (accepted : Bool) (result : OrphanResult)
    (child : OrphanChild) : OrphanChild :=
  if child.unresolved then { child with status := status, accepted := accepted, result := result }
  else child

def DeleteAttempt.writeReceipt (receipt : Receipt) (a : DeleteAttempt) : DeleteAttempt :=
  if a.runner then { a with receipt := some receipt } else a

def orphanEnvironment (db : OrphanTables) : OrphanEnv → OrphanTables
  | .tick elapsed => { db with now := db.now + elapsed }
  | .admitTask dueAt => db.admitTask dueAt
  | .configure revision => { db with revision := revision }
  | .agent i status accepted result =>
    { db with children := db.children.modify i (OrphanChild.report status accepted result) }
  | .receipt attempt receipt => db.updateAttempt attempt (DeleteAttempt.writeReceipt receipt)
  | .runnerEnds attempt => db.updateAttempt attempt fun a => { a with runner := false }
  | .workerEnds attempt => db.updateAttempt attempt fun a => { a with worker := false }
  | .admitBackup uuid record => db.admitBackup uuid record
  | .retryBackup uuid => db.updateBackups uuid BackupTask.retry
  | .progressBackup uuid status => db.updateBackups uuid (BackupTask.progress status)
  | .dispatchBackup uuid => db.updateBackups uuid BackupTask.dispatch
  | .backupChild uuid i child => db.updateBackups uuid (BackupTask.changeChild i child)
  | .registerResult i instance' result => db.registerResult i instance' result
  | .acquireUsage i lease => db.acquireUsage i lease
  | .releaseUsage i lease => db.updateRecord i fun s => releaseSnapshotUsage s lease
  | .deleteDirectories i p => db.updateRecord i fun s => markDeleted s p
  | .updateSnapshot i row => db.updateRecord i fun s => { s with row := row }

end HyperFileLens.Storage
