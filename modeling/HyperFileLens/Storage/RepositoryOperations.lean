import Mathlib.Algebra.Group.Nat.Defs
import HyperFileLens.Library.Interference
import HyperFileLens.Library.Table
import HyperFileLens.Tasks.Task

/-!
# Repository operations

The transactions of `repository_operations.py` on tasks, operations, execution targets
and their maintenance state, and the runner of maintenance that uses them.

*Transactions.*  Admission locks the Repository and the target. Start, steps,
cancellation and finalize lock the operation with its task, finalize the target too, so
they run one at a time.

*Fence.*  The update of `fence_controller_repository_operation` finds its row in the
snapshot of the statement. A fence that had to wait for another transaction writes
although its condition no longer holds (`Outside.late`).
-/

namespace HyperFileLens.Storage.Maintenance

open Service Tasks

/-! ## Rows -/

inductive OperationType where
  | maintenanceQuick
  | maintenanceFull
  | snapshotReconcile
  | cleanupTarget
  | cleanupRepository
  | check
  | credentialRotate
  | createRepository
  | repairBind
  | repairRemount
deriving DecidableEq, Repr

inductive OwnerType where
  | controller
  | node
deriving DecidableEq, Repr

/-- `RepositoryMaintenanceState`. -/
structure MaintenanceState where
  lastQuickSuccessAt : Option Int := none
  lastFullSuccessAt : Option Int := none
  lastFailureAt : Option Int := none
  nextQuickDueAt : Option Int := none
  nextFullDueAt : Option Int := none
  nextReconcileDueAt : Option Int := none
  nextRetryAt : Option Int := none
  consecutiveFailures : Nat := 0
deriving DecidableEq

/-- `RepositoryExecutionTarget`, with its maintenance state. The key is the identifier. -/
structure ExecutionTarget where
  id : Nat
  repositoryId : Nat
  ownerType : OwnerType
  ownerNodeId : Option Nat := none
  isActive : Bool := true
  activeTask : Option Nat := none
  state : MaintenanceState := {}
deriving DecidableEq

structure Task where
  id : Nat
  status : TaskStatus := .pending
  currentStep : String := "prepare_repository_operation"
  progress : Nat := 0
  errorCode : String := ""
  errorMessage : String := ""
  replacesTask : Option Nat := none
deriving DecidableEq

/-- `RepositoryTask`. Cleanup operations have no target. -/
structure RepositoryTask where
  id : Nat
  taskId : Nat
  repositoryId : Nat
  executionTarget : Option Nat
  operationType : OperationType
  ownerType : OwnerType
  ownerNodeId : Option Nat := none
  dueAt : Option Int := none
  cancelRequestedAt : Option Int := none
  cancelReason : String := ""
  executionToken : Option Nat := none
  executionHeartbeatAt : Option Int := none
deriving DecidableEq

/-- `Repository`, with whether its status is `CREATED`. -/
structure Repository where
  id : Nat
  created : Bool
deriving DecidableEq

/-- The tables, and the next execution token. -/
structure Operations where
  repositories : List Repository := []
  targets : List ExecutionTarget := []
  operations : List RepositoryTask := []
  tasks : List Task := []
  nextToken : Nat := 0
deriving DecidableEq

/-- What a transaction finds outside the tables. -/
structure Outside where
  now : Int := 0
  ownedLocation : Bool := true
  backupBlocked : Bool := false
  nextFullSlot : Int := 0
  quickInterval : Int := 21600
  /-- A fence that has waited for another transaction. -/
  late : Bool := false
deriving DecidableEq

/-- `repository_operation_cancellation_supported`. -/
def RepositoryTask.cancellationSupported (op : RepositoryTask) : Bool :=
  op.ownerType = .controller &&
    (op.operationType = .maintenanceQuick || op.operationType = .maintenanceFull)

inductive OperationError where
  | notFound (diagnostic : String)
  | notCancellable (diagnostic : String)
  | notActive (diagnostic : String)
  | validation (message : String)
  | doesNotExist
deriving DecidableEq

inductive Decision where
  | continue
  | cancel
  | lostLease
deriving DecidableEq

namespace Operations

variable (db : Operations)

/-! ## Queries -/

def setTarget (target : ExecutionTarget) : Operations :=
  { db with targets := Table.put ExecutionTarget.id db.targets target }

def setOperation (op : RepositoryTask) : Operations :=
  { db with operations := Table.put RepositoryTask.id db.operations op }

def setTask (task : Task) : Operations := { db with tasks := Table.put Task.id db.tasks task }

def operation (id : Nat) : Option (RepositoryTask × Task) := do
  let op ← Table.find RepositoryTask.id db.operations id
  let task ← Table.find Task.id db.tasks op.taskId
  return (op, task)

def isReconciling (target : ExecutionTarget) : Bool :=
  db.operations.any fun op =>
    target.activeTask = some op.taskId && op.operationType = .snapshotReconcile

def siblings (repositoryId : Nat) : List ExecutionTarget :=
  db.targets.filter fun t => t.repositoryId = repositoryId && t.activeTask.isSome

/-! ## Transactions -/

/-- The task that `create_task` replaces has failed and has no replacement. -/
def replaceable (replaces : Option Nat) : Bool :=
  match replaces with
  | none => true
  | some id =>
    (Table.find Task.id db.tasks id).any fun task =>
      task.status = .failed && !db.tasks.any fun t => t.replacesTask = some id

def newOperation (target : ExecutionTarget) (operationType : OperationType) (dueAt : Option Int)
    (replaces : Option Nat) : RepositoryTask × Operations :=
  let task : Task := { id := Table.fresh (db.tasks.map Task.id), replacesTask := replaces }
  let op : RepositoryTask := {
    id := Table.fresh (db.operations.map RepositoryTask.id)
    taskId := task.id
    repositoryId := target.repositoryId
    executionTarget := some target.id
    operationType := operationType
    ownerType := target.ownerType
    ownerNodeId := target.ownerNodeId
    dueAt := dueAt }
  (op, { db with
    tasks := task :: db.tasks
    operations := op :: db.operations
    targets := Table.put ExecutionTarget.id db.targets { target with activeTask := some task.id } })

def createRepositoryOperationTask (targetId : Nat) (operationType : OperationType)
    (dueAt : Option Int) (replaces : Option Nat) (o : Outside) :
    Except OperationError (Option RepositoryTask × Operations) :=
  match Table.find ExecutionTarget.id db.targets targetId with
  | none => .error .doesNotExist
  | some target =>
    match Table.find Repository.id db.repositories target.repositoryId with
    | none => .error .doesNotExist
    | some repository =>
      let siblings := db.siblings repository.id
      if !target.isActive || target.activeTask.isSome then .ok (none, db)
      else if (operationType = .snapshotReconcile && !siblings.isEmpty) ||
          siblings.any db.isReconciling then .ok (none, db)
      else if !repository.created || !o.ownedLocation then
        .ok (none, db.setTarget { target with isActive := false })
      else if operationType = .snapshotReconcile && o.backupBlocked then .ok (none, db)
      else if !db.replaceable replaces then
        .error (.validation "The interrupted task must be failed before replacement.")
      else
        let admitted := db.newOperation target operationType dueAt replaces
        .ok (some admitted.1, admitted.2)

def startControllerRepositoryOperation (operationId : Nat) (o : Outside) :
    Except OperationError (Option Nat × Operations) :=
  match db.operation operationId with
  | none => .error .doesNotExist
  | some (op, task) =>
    if !op.cancellationSupported || op.cancelRequestedAt.isSome || task.status ≠ .pending then
      .ok (none, db)
    else
      let db := db.setTask { task with status := .running }
      let db := db.setOperation { op with
        executionToken := some db.nextToken, executionHeartbeatAt := some o.now }
      .ok (some db.nextToken, { db with nextToken := db.nextToken + 1 })

def startTask (taskId : Nat) : Except OperationError Operations :=
  match Table.find Task.id db.tasks taskId with
  | none => .error .doesNotExist
  | some task =>
    if task.status ≠ .pending then .error (.validation "Only pending tasks can be started.")
    else .ok (db.setTask { task with status := .running })

/-- `set_task_step`. Only the step and the progress are saved. -/
def setTaskStep (taskId : Nat) (stepName : String) (progress : Nat) : Operations :=
  { db with tasks := Table.update Task.id db.tasks taskId fun task =>
      { task with currentStep := stepName, progress := progress } }

def setControllerRepositoryOperationStep (operationId token : Nat) (stepName : String)
    (progress : Nat) (o : Outside) : Except OperationError (Decision × Operations) :=
  match db.operation operationId with
  | none => .error .doesNotExist
  | some (op, task) =>
    if op.executionToken ≠ some token || !(task.status = .pending || task.status = .running) then
      .ok (.lostLease, db)
    else if op.cancelRequestedAt.isSome then .ok (.cancel, db)
    else .ok (.continue, (db.setTaskStep task.id stepName progress).setOperation
      { op with executionHeartbeatAt := some o.now })

def fenceControllerRepositoryOperation (operationId : Nat) (expected : Option Nat) (o : Outside) :
    Option Nat × Operations :=
  match db.operation operationId with
  | none => (none, db)
  | some (op, task) =>
    if o.late || (task.status = .running && op.executionToken = expected) then
      (some db.nextToken, { db.setOperation { op with
        executionToken := some db.nextToken, executionHeartbeatAt := some o.now } with
        nextToken := db.nextToken + 1 })
    else (none, db)

def heartbeat (operationId : Nat) (token : Option Nat) (o : Outside) : Operations :=
  { db with operations := Table.update RepositoryTask.id db.operations operationId fun op =>
      if token.isSome ∧ op.executionToken = token then
        { op with executionHeartbeatAt := some o.now }
      else op }

/-- What `finalize_repository_operation` is called with. -/
structure Finalize where
  operationId : Nat
  succeeded : Bool
  cancelled : Bool := false
  errorCode : String := ""
  errorMessage : String := ""
  expectedExecutionToken : Option Nat := none
  advanceReconcileSchedule : Bool := true
deriving DecidableEq

/-- The schedule after a cancelled or successful maintenance. -/
def settled (state : MaintenanceState) (operationType : OperationType) (o : Outside) :
    MaintenanceState :=
  let state := match operationType with
    | .maintenanceQuick => { state with nextQuickDueAt := some (o.now + o.quickInterval) }
    | .maintenanceFull => { state with
        nextFullDueAt := some o.nextFullSlot, nextQuickDueAt := some (o.now + o.quickInterval) }
    | _ => state
  { state with consecutiveFailures := 0, nextRetryAt := none }

/-- The schedule and the status that an operation ends with. -/
def ending (state : MaintenanceState) (op : RepositoryTask) (a : Finalize) (cancelled : Bool)
    (o : Outside) : MaintenanceState × TaskStatus :=
  if op.operationType = .snapshotReconcile then
    (if a.advanceReconcileSchedule then
        { state with nextReconcileDueAt := some (o.now + 2 * 86400) }
      else state,
      if cancelled then .cancelled else if a.succeeded then .success else .failed)
  else if cancelled then (settled state op.operationType o, .cancelled)
  else if a.succeeded then
    let state := match op.operationType with
      | .maintenanceQuick => { state with lastQuickSuccessAt := some o.now }
      | .maintenanceFull => { state with lastFullSuccessAt := some o.now }
      | _ => state
    (settled state op.operationType o, .success)
  else
    let failures := state.consecutiveFailures + 1
    let delay : Nat := min 3600 (60 * 2 ^ min (failures - 1) 6)
    ({ state with
        lastFailureAt := some o.now
        consecutiveFailures := failures
        nextRetryAt := some (o.now + delay) }, .failed)

def ended (task : Task) (op : RepositoryTask) (a : Finalize) (status : TaskStatus) : Task :=
  if status = .cancelled then
    { task with
      status := .cancelled
      errorCode := "TASK_CANCELLED"
      errorMessage :=
        if a.errorMessage ≠ "" then a.errorMessage
        else if op.cancelReason ≠ "" then op.cancelReason
        else "Task cancelled by user" }
  else
    { task with
      status := status
      progress := if a.succeeded then 100 else task.progress
      errorCode := a.errorCode
      errorMessage := a.errorMessage }

/-- `finalize_repository_operation`, with the status of the task afterwards. -/
def finalizeRepositoryOperation (a : Finalize) (o : Outside) :
    Except OperationError (TaskStatus × Operations) :=
  match db.operation a.operationId with
  | none => .error .doesNotExist
  | some (op, task) =>
    match op.executionTarget with
    | none =>
      .error (.validation "Repository maintenance requires an execution target.")
    | some targetId =>
      if a.expectedExecutionToken.isSome && op.executionToken ≠ a.expectedExecutionToken then
        .ok (task.status, db)
      else if task.status.isTerminal then .ok (task.status, db)
      else
        match Table.find ExecutionTarget.id db.targets targetId with
        | none => .error .doesNotExist
        | some target =>
          let cancelled := a.cancelled ||
            (a.expectedExecutionToken.isSome && op.cancelRequestedAt.isSome)
          let result := ending target.state op a cancelled o
          let target := { target with
            state := result.1
            activeTask := if target.activeTask = some task.id then none
              else target.activeTask }
          let db := db.setOperation { op with
            executionToken := none, executionHeartbeatAt := none }
          .ok (result.2, (db.setTarget target).setTask (ended task op a result.2))

/-- `request_repository_operation_cancel`, with whether the worker still has to stop. -/
def requestRepositoryOperationCancel (taskId : Nat) (reason : String) (o : Outside) :
    Except OperationError (Bool × Operations) :=
  match db.operations.find? fun op => op.taskId = taskId with
  | none => .error (.notFound "Repository maintenance task was not found.")
  | some op =>
    match Table.find Task.id db.tasks taskId with
    | none => .error (.notFound "Repository maintenance task was not found.")
    | some task =>
      if !op.cancellationSupported then
        .error (.notCancellable
          "Only controller-owned Quick or Full maintenance tasks can be cancelled.")
      else if task.status.isTerminal then
        if task.status = .cancelled then .ok (false, db)
        else .error (.notActive "This repository maintenance task has already finished.")
      else if op.cancelRequestedAt.isSome then .ok (task.status = .running, db)
      else
        let reason := if reason ≠ "" then reason else "Task cancelled by user"
        let db := db.setOperation { op with
          cancelRequestedAt := some o.now, cancelReason := reason }
        if task.status = .pending then
          let a : Finalize := {
            operationId := op.id
            succeeded := false
            cancelled := true
            errorMessage := reason }
          (db.finalizeRepositoryOperation a o).map fun r => (false, r.2)
        else .ok (true, db)

end Operations

/-! ## Programs -/

structure Loaded where
  op : RepositoryTask
  task : Task
  now : Int
deriving DecidableEq

/-- How the execution of an operation ends. -/
inductive Execution where
  | waiting
  | done
  | cancelled
  | leaseLost
  | capacityLost
  | failed (errorCode errorMessage : String)
deriving DecidableEq

/-- What a choice is: what a transaction finds, and how an execution ends. -/
structure Choice where
  outside : Outside := {}
  execution : Execution := .done
  /-- A running operation without a token has run for too long. -/
  timedOut : Bool := true

inductive OperationReq where
  | create (targetId : Nat) (operationType : OperationType) (dueAt : Option Int)
      (replaces : Option Nat)
  | load (operationId : Nat)
  | start (operationId : Nat)
  | startTask (taskId : Nat)
  | setStep (operationId token : Nat) (stepName : String) (progress : Nat)
  | setTaskStep (taskId : Nat) (stepName : String) (progress : Nat)
  | fence (operationId : Nat) (expected : Option Nat)
  | requestCancel (taskId : Nat) (reason : String)
  | finalize (a : Operations.Finalize)
  | execute (operationId : Nat) (token : Option Nat)
  /-- A clock that a running operation without a token is held against. -/
  | timedOut

abbrev OperationAns : OperationReq → Type
  | .create .. => Except OperationError (Option RepositoryTask)
  | .load _ => Option Loaded
  | .start _ => Except OperationError (Option Nat)
  | .startTask _ => Except OperationError Unit
  | .setStep .. => Except OperationError Decision
  | .setTaskStep .. => Unit
  | .fence .. => Option Nat
  | .requestCancel .. => Except OperationError Bool
  | .finalize _ => Except OperationError TaskStatus
  | .execute .. => Execution
  | .timedOut => Bool

def commit {α : Type} (db : Operations) :
    Except OperationError (α × Operations) → Except OperationError α × Operations
  | .error error => (.error error, db)
  | .ok (a, db') => (.ok a, db')

def respond (db : Operations) :
    (r : OperationReq) → Choice → OperationAns r × Operations
  | .create targetId operationType dueAt replaces, c =>
    commit db (db.createRepositoryOperationTask targetId operationType dueAt replaces c.outside)
  | .load operationId, c =>
    ((db.operation operationId).map fun p => ⟨p.1, p.2, c.outside.now⟩, db)
  | .start operationId, c =>
    commit db (db.startControllerRepositoryOperation operationId c.outside)
  | .startTask taskId, _ => commit db ((db.startTask taskId).map fun db => ((), db))
  | .setStep operationId token stepName progress, c =>
    commit db (db.setControllerRepositoryOperationStep operationId token stepName progress c.outside)
  | .setTaskStep taskId stepName progress, _ => ((), db.setTaskStep taskId stepName progress)
  | .fence operationId expected, c =>
    db.fenceControllerRepositoryOperation operationId expected c.outside
  | .requestCancel taskId reason, c =>
    commit db (db.requestRepositoryOperationCancel taskId reason c.outside)
  | .finalize a, c => commit db (db.finalizeRepositoryOperation a c.outside)
  | .execute operationId token, c => (c.execution, db.heartbeat operationId token c.outside)
  | .timedOut, c => (c.timedOut, db)

def database : Server Operations OperationReq OperationAns Choice where
  respond := respond

abbrev OperationProg (α : Type) := Prog OperationReq OperationAns OperationError α

abbrev call (r : OperationReq) : OperationProg (OperationAns r) := Prog.request r

def setRepositoryOperationStep (op : RepositoryTask) (token : Option Nat) (stepName : String)
    (progress : Nat) : OperationProg Decision :=
  if op.ownerType ≠ .controller then do
    call (.setTaskStep op.taskId stepName progress)
    return .continue
  else
    match token with
    | none => return .lostLease
    | some token => do
        let decision : Except OperationError Decision ←
          call (.setStep op.id token stepName progress)
        match decision with
        | .ok decision => return decision
        | .error error => .fail error

/-- Steps, up to the first that is not to be continued (`_raise_for_control_decision`). -/
def setSteps (op : RepositoryTask) (token : Option Nat) :
    List (String × Nat) → OperationProg Decision
  | [] => return .continue
  | (stepName, progress) :: steps => do
      match ← setRepositoryOperationStep op token stepName progress with
      | .continue => setSteps op token steps
      | decision => return decision

def preparation : List (String × Nat) :=
  [("prepare_repository_operation", 10), ("verify_repository_owner", 10),
    ("verify_repository_owner", 20), ("run_repository_operation", 25)]

def completion : List (String × Nat) :=
  [("run_repository_operation", 80), ("finalize_repository_operation", 100)]

def finalize (a : Operations.Finalize) : OperationProg Unit := do
  let ended : Except OperationError TaskStatus ← call (.finalize a)
  match ended with
  | .ok _ => return ()
  | .error error => .fail error

/-- The handlers of `_execute_repository_operation`. -/
def endAs (op : RepositoryTask) (token : Option Nat) : Execution → OperationProg Unit
  | .waiting => return ()
  | .done => finalize {
      operationId := op.id, succeeded := true, expectedExecutionToken := token }
  | .cancelled => finalize {
      operationId := op.id, succeeded := false, cancelled := true
      errorMessage := op.cancelReason, expectedExecutionToken := token }
  | .leaseLost => return ()
  | .capacityLost => finalize {
      operationId := op.id, succeeded := false
      errorCode := "BACKGROUND_STORAGE_CAPACITY_LOST"
      errorMessage := "Controller background storage capacity coordination was lost. The maintenance process was stopped and will be retried."
      expectedExecutionToken := token }
  | .failed errorCode errorMessage => finalize {
      operationId := op.id, succeeded := false, errorCode := errorCode
      errorMessage := errorMessage, expectedExecutionToken := token }

def Decision.ending : Decision → Execution → Execution
  | .continue, execution => execution
  | .cancel, _ => .cancelled
  | .lostLease, _ => .leaseLost

/-- The body of `_execute_repository_operation`. -/
def runOperation (op : RepositoryTask) (token : Option Nat) (startedNow : Bool) :
    OperationProg Unit := do
  let prepared : Decision ← if startedNow then setSteps op token preparation else pure .continue
  match prepared with
  | .continue =>
    let execution : Execution ← call (.execute op.id token)
    match execution with
    | .done =>
      let completed ← setSteps op token completion
      endAs op token (completed.ending .done)
    | execution => endAs op token execution
  | decision => endAs op token (decision.ending .done)

def recoverControllerRepositoryOperation (l : Loaded) (staleSeconds : Int) : OperationProg Unit := do
  let token := l.op.executionToken
  let fresh := token.isSome && l.op.executionHeartbeatAt.any fun t => l.now - t ≤ staleSeconds
  if l.op.cancelRequestedAt.isSome then
    if fresh then return ()
    else finalize {
      operationId := l.op.id, succeeded := false, cancelled := true
      errorMessage := l.op.cancelReason, expectedExecutionToken := token }
  else if fresh then return ()
  else
    let timedOut : Bool ← if token.isNone then call .timedOut else pure true
    if timedOut then
      let recovery : Option Nat ← call (.fence l.op.id token)
      match recovery with
      | none => return ()
      | some recovery => finalize {
          operationId := l.op.id, succeeded := false
          errorCode := "CONTROL_PLANE_RESTART_INTERRUPTED"
          errorMessage := "Controller repository maintenance lost its execution heartbeat after a control-plane interruption."
          expectedExecutionToken := some recovery }
    else return ()

/-- `_execute_repository_operation`, for maintenance. -/
def executeRepositoryOperation (operationId : Nat) (staleSeconds : Int) : OperationProg Unit := do
  let loaded : Option Loaded ← call (.load operationId)
  match loaded with
  | none => .fail .doesNotExist
  | some l =>
    if ¬(l.op.operationType = .maintenanceQuick ∨ l.op.operationType = .maintenanceFull) then
      return ()
    else
      match l.task.status, l.op.ownerType with
      | .pending, .controller =>
        let token : Except OperationError (Option Nat) ← call (.start operationId)
        match token with
        | .error error => .fail error
        | .ok none => return ()
        | .ok (some token) => runOperation l.op (some token) true
      | .pending, .node =>
        let started : Except OperationError Unit ← call (.startTask l.task.id)
        match started with
        | .error error => .fail error
        | .ok () => runOperation l.op l.op.executionToken true
      | .running, .controller => recoverControllerRepositoryOperation l staleSeconds
      | .running, .node => runOperation l.op l.op.executionToken false
      | _, _ => return ()

/-- The end of `run_orphan_reconciliation`. -/
def finishReconciliation (operationId : Nat) (succeeded : Bool) (errorCode reason : String)
    (advance : Bool) : OperationProg Unit := do
  let loaded : Option Loaded ← call (.load operationId)
  match loaded with
  | none => .fail .doesNotExist
  | some l =>
    if l.op.operationType = .snapshotReconcile then finalize {
      operationId := operationId, succeeded := succeeded, errorCode := errorCode
      errorMessage := reason, advanceReconcileSchedule := advance }
    else return ()

inductive OperationJob where
  | create (targetId : Nat) (operationType : OperationType) (dueAt : Option Int)
      (replaces : Option Nat)
  | execute (operationId : Nat) (staleSeconds : Int)
  | requestCancel (taskId : Nat) (reason : String)
  | finishReconciliation (operationId : Nat) (succeeded : Bool) (errorCode reason : String)
      (advance : Bool)

def OperationJob.body : OperationJob → OperationProg Unit
  | .create targetId operationType dueAt replaces =>
    discard (call (.create targetId operationType dueAt replaces))
  | .execute operationId staleSeconds => executeRepositoryOperation operationId staleSeconds
  | .requestCancel taskId reason => discard (call (.requestCancel taskId reason))
  | .finishReconciliation operationId succeeded errorCode reason advance =>
    Maintenance.finishReconciliation operationId succeeded errorCode reason advance

/-- What happens outside: repositories change, and targets are discovered or retired. -/
inductive OperationEnv where
  | repository (r : Repository)
  | discover (id repositoryId : Nat) (ownerType : OwnerType) (ownerNodeId : Option Nat)
  | retire (id : Nat)
deriving DecidableEq

def environment (db : Operations) : OperationEnv → Operations
  | .repository r => { db with
      repositories := r :: db.repositories.filter fun old => old.id ≠ r.id }
  | .discover id repositoryId ownerType ownerNodeId =>
    if id ∈ db.targets.map ExecutionTarget.id then
      { db with targets := Table.update ExecutionTarget.id db.targets id fun t =>
          { t with ownerType := ownerType, ownerNodeId := ownerNodeId, isActive := true } }
    else { db with targets :=
        { id := id, repositoryId := repositoryId, ownerType := ownerType
          ownerNodeId := ownerNodeId } :: db.targets }
  | .retire id => { db with
      targets := Table.update ExecutionTarget.id db.targets id fun t => { t with isActive := false } }

abbrev OperationPool := Pool Operations OperationReq OperationAns OperationError Unit OperationJob

def repositoryOperations :
    Transition.System OperationPool (PoolEvent OperationJob Choice OperationEnv) :=
  poolSystem database OperationJob.body environment {}

end HyperFileLens.Storage.Maintenance
