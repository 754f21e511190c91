import HyperFileLens.Library.Transition
import HyperFileLens.Protection.SnapshotDelete

/-!
# Usage and deletion of a snapshot

One snapshot, and everything that happens to it in any order: leases are taken,
released and reconciled, deletions are requested, run, failed and retried, and backup
results are registered.

*Runs of a delete task.*  A run goes through its transactions one at a time, and a worker
may crash between any two. Its lease check is one transaction, and every call of an
executor comes later. The lock of the snapshot expires by itself.

*Instances.*  A registration works on an instance of the row that its caller has read
some time before, and a summary counts directories that were read some time before.
-/

namespace HyperFileLens.Protection

open Tasks Transition

/-! ## Workers -/

/-- How far a run of a delete task is. -/
inductive DeleteWorker where
  | loaded (t : DeleteTask)
  | checked (t : DeleteTask)
  | started (taskId : Nat)
  | deleting (taskId : Nat) (rows : List SnapshotDirectory) (groups : List LocatorGroup)
      (p : DeleteProgress)
  | issued (taskId : Nat) (rows : List SnapshotDirectory) (group : LocatorGroup)
      (groups : List LocatorGroup) (p : DeleteProgress)

/-- A run that does not end by itself before it deletes something. -/
def DeleteWorker.isLive : DeleteWorker → Bool
  | .loaded t | .checked t => !t.task.status.isTerminal
  | _ => true

/-- A snapshot, what its callers have read of it, and the runs in progress. -/
structure SnapshotUse where
  record : SnapshotRecord
  instances : List BackupSourceSnapshot := []
  reads : List (List SnapshotDirectory) := []
  locked : Bool := false
  worker : Nat → Option DeleteWorker := fun _ => none
  next : Nat := 0

/-- A run is at another point now, or over. -/
def SnapshotUse.setWorker (st : SnapshotUse) (i : Nat) (w : Option DeleteWorker) :
    SnapshotUse :=
  { st with worker := Function.update st.worker i w }

/-- A run is over and drops the lock. -/
def SnapshotUse.leave (st : SnapshotUse) (i : Nat) (record : SnapshotRecord) : SnapshotUse :=
  { st.setWorker i none with record := record, locked := false }

def SnapshotUse.goOn (st : SnapshotUse) (i : Nat) (record : SnapshotRecord)
    (w : DeleteWorker) : SnapshotUse :=
  { st.setWorker i (some w) with record := record }

/-! ## Reconciliation -/

/-- `reconcile_snapshot_usage_leases`. The argument says which leases are orphaned or
settled. -/
def reconcileSnapshotUsageLeases (settled : SnapshotUsageLease → Bool) (s : SnapshotRecord) :
    SnapshotRecord :=
  { s with leases := s.leases.filter fun l => !settled l }

/-- What `reconcile_snapshot_delete_tasks` does to a failed snapshot that is due. -/
def reconcileFailedDelete (accepted : Bool) (s : SnapshotRecord) : SnapshotRecord :=
  if s.row.status ≠ .deleteFailed then s
  else if s.isProtected then s
  else
    match s.latestDeleteTask with
    | none => s
    | some t =>
      if t.task.status.isTerminal = true ∧ t.task.status ≠ .success then
        match retryDeleteTask accepted s with
        | .ok s' => s'
        | .error _ => s
      else s

/-- What `reconcile_snapshot_delete_tasks` does to a task that runs for too long. -/
def reconcileRunningDelete (t : DeleteTask) (s : SnapshotRecord) : SnapshotRecord :=
  if t.task.status = .running ∧ s.latestDeleteTask.map DeleteTask.id = some t.id then
    failSnapshotDeleteTask t.id "SNAPSHOT_DELETE_INTERRUPTED"
      "Snapshot delete worker was interrupted before finalization." t.task.resultPayload s
  else s

/-! ## Steps -/

inductive WorkerEvent where
  | check
  | start
  | enter (env : DeleteEnv) (now : Int)
  | issue
  | answer (outcome : Except ExecutorError DeleteOutcome)
  | finish (now : Int)
  | crash

inductive UseEvent where
  | acquire (refusal : Option SnapshotError) (lease : SnapshotUsageLease)
  | release (lease : SnapshotUsageLease)
  | reconcileLeases (settled : SnapshotUsageLease → Bool)
  | request (accepted : Bool)
  | fail (taskId : Nat) (errorCode errorMessage : String)
  | reconcileFailed (accepted : Bool)
  | reconcileRunning (t : DeleteTask)
  | load
  | read
  | register (i : Nat) (orphanCleanup : Bool) (result : SnapshotDirectory) (now : Int)
  | refresh (i j : Nat) (finishedAt : Option Int) (now : Int)
  | call (taskId : Nat)
  | work (i : Nat) (e : WorkerEvent)
  | expire

section

variable (st : SnapshotUse)

def SnapshotUse.check (i : Nat) (t : DeleteTask) : SnapshotUse :=
  if st.record.isProtected then st.leave i (deferSnapshotDelete t.id st.record)
  else st.goOn i st.record (.checked t)

def SnapshotUse.start (i : Nat) (t : DeleteTask) : SnapshotUse :=
  if t.task.status.isTerminal then st.leave i st.record
  else
    match startPending t st.record with
    | .error message =>
      st.leave i (interruptDelete t.id (.validation message) st.record).1
    | .ok record => st.goOn i record (.started t.id)

def SnapshotUse.enter (i taskId : Nat) (env : DeleteEnv) (now : Int) :
    SnapshotUse :=
  match enterDelete env now taskId st.record with
  | .stopped record _ => st.leave i record
  | .groups record rows groups => st.goOn i record (.deleting taskId rows groups {})

def SnapshotUse.answer (i taskId : Nat) (rows : List SnapshotDirectory)
    (group : LocatorGroup) (groups : List LocatorGroup) (p : DeleteProgress) :
    Except ExecutorError DeleteOutcome → SnapshotUse
  | .error error => st.leave i (interruptDelete taskId error st.record).1
  | .ok outcome =>
    let recorded := recordOutcome group.rows outcome st.record p
    st.goOn i recorded.1 (.deleting taskId rows groups recorded.2)

/-- The next transaction of run `i`. -/
def workerStep (i : Nat) (w : DeleteWorker) :
    WorkerEvent → Option SnapshotUse
  | .check =>
    match w with
    | .loaded t => some (st.check i t)
    | _ => none
  | .start =>
    match w with
    | .checked t => some (st.start i t)
    | _ => none
  | .enter env now =>
    match w with
    | .started taskId => some (st.enter i taskId env now)
    | _ => none
  | .issue =>
    match w with
    | .deleting taskId rows (group :: groups) p =>
      some (st.goOn i st.record (.issued taskId rows group groups p))
    | _ => none
  | .answer outcome =>
    match w with
    | .issued taskId rows group groups p =>
      some (st.answer i taskId rows group groups p outcome)
    | _ => none
  | .finish now =>
    match w with
    | .deleting taskId rows [] p =>
      some (st.leave i (finishDelete taskId now rows st.record p))
    | _ => none
  | .crash => some (st.setWorker i none)

def useStep : UseEvent → Option SnapshotUse
  | .acquire refusal lease =>
    match acquireSnapshotUsage refusal st.record lease with
    | .ok record => some { st with record := record }
    | .error _ => none
  | .release lease => some { st with record := releaseSnapshotUsage st.record lease }
  | .reconcileLeases settled =>
    some { st with record := reconcileSnapshotUsageLeases settled st.record }
  | .request accepted =>
    match createAndQueueSnapshotDeleteTask accepted st.record with
    | .ok record => some { st with record := record }
    | .error _ => none
  | .fail taskId errorCode errorMessage =>
    some { st with
      record := failSnapshotDeleteTask taskId errorCode errorMessage none st.record }
  | .reconcileFailed accepted =>
    some { st with record := reconcileFailedDelete accepted st.record }
  | .reconcileRunning t => some { st with record := reconcileRunningDelete t st.record }
  | .load => some { st with instances := st.instances ++ [st.record.row] }
  | .read => some { st with reads := st.reads ++ [st.record.directories] }
  | .register i orphanCleanup result now =>
    match st.instances[i]? with
    | none => none
    | some row =>
      match recordSourceSnapshotDirectoryResult orphanCleanup st.record row result now with
      | .ok registered => some { st with
          record := registered.1, instances := st.instances.set i registered.2 }
      | .error _ => none
  | .refresh i j finishedAt now =>
    match st.instances[i]?, st.reads[j]? with
    | some row, some rows =>
      let summary := refreshSourceSnapshotSummary row rows finishedAt now
      some { st with
        record.row := st.record.row.saveSummary summary
        instances := st.instances.set i summary }
    | _, _ => none
  | .call taskId =>
    if st.locked then none
    else
      match taskOf st.record taskId with
      | none => none
      | some t => some { st with
          locked := true
          worker := Function.update st.worker st.next (some (.loaded t))
          next := st.next + 1 }
  | .work i e =>
    match st.worker i with
    | none => none
    | some w => workerStep st i w e
  | .expire => some { st with locked := false }

end

/-- A snapshot that no deletion was requested for yet, and what becomes of it. -/
def snapshotUses : System SnapshotUse UseEvent where
  init := fun st => st.record.deleteTasks = [] ∧ ∀ i, st.worker i = none
  step := useStep

end HyperFileLens.Protection
