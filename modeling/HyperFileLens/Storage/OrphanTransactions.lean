import Mathlib.Algebra.Group.Int.Defs
import HyperFileLens.Storage.OrphanSnapshots

/-!
# Transactions of orphan reconciliation

What an advance of `run_orphan_reconciliation` does to the tables in one transaction,
and what others do: admission of a reconciliation, backups, usage leases, the Agent and
the runner of a Controller deletion.

*Failure.*  A transaction that raises changes nothing.

*Owner.*  The argument `controller` says whether the Controller owns the target.
-/

namespace HyperFileLens.Storage

open Tasks Protection

/-! ## Errors -/

/-- An exception, with what `classify_reconciliation_error` makes of it. The last field
says whether it is an `OSError`, a `ValueError`, a `KeyError` or a `TimeoutExpired`. -/
structure ReconcileError where
  code : String
  message : String
  executionUnknown : Bool := false
  execution : Bool := false
deriving DecidableEq

/-- `_error`. -/
def confirming (message : String) : ReconcileError where
  code := "ORPHAN_EXECUTION_CONFIRMING"
  message := message
  executionUnknown := true

def doesNotExist : ReconcileError where
  code := "ORPHAN_INTERNAL_ERROR"
  message := "An internal reconciliation error occurred. Inspect the error type and stage; the inventory check retries once before ending this cycle."

def invalid : ReconcileError where
  code := "ORPHAN_CONFIGURATION_INVALID"
  message := "Repository access configuration is invalid. Correct it before manually retrying reconciliation."

def preconditionChanged : ReconcileError where
  code := "ORPHAN_DELETE_PRECONDITION_CHANGED"
  message := "Deletion prerequisites changed; no deletion was started."

def agentOperationFailed : ReconcileError where
  code := "ORPHAN_AGENT_OPERATION_FAILED"
  message := "The Agent rejected the snapshot operation before execution. Check its availability and retry."

def lateResult : ReconcileError :=
  confirming "A late Controller result cannot change the current operation."

def seconds (n : Int) : Int := n * 1000000

/-- What an Agent operation has come to, when that is known. -/
inductive RemoteAnswer where
  | result (result : OrphanResult)
  | deletionFailed
deriving DecidableEq

/-- How `_remote` reads a child. -/
def OrphanChild.answer (child : OrphanChild) : Except ReconcileError (Option RemoteAnswer) :=
  match child.status with
  | .success => .ok (some (.result child.result))
  | .pending | .running | .timeout | .canceled => .ok none
  | .failed =>
    if child.confirmedFailure then .ok (some .deletionFailed)
    else if child.accepted then .ok none
    else .error agentOperationFailed

/-! ## Completions -/

structure Completion where
  succeeded : Bool
  reason : String := ""
  errorCode : String := ""
deriving DecidableEq

/-- A completion of a task with failed deletions is a failure. -/
def Completion.amend (c : Completion) (row : ReconcileTask) : Completion :=
  if 0 < row.count .failed then
    { succeeded := false
      reason := "Some orphan snapshot deletions failed. They will be checked again in the next scheduled cycle."
      errorCode := "ORPHAN_DELETE_FAILED" }
  else c

/-- What `_finish` does to the steps of a task. -/
def ReconcileTask.closeSteps (row : ReconcileTask) (c : Completion) :
    ReconcileTask :=
  if c.succeeded then
    (row.step "run_repository_operation" .success 80).step
      "finalize_repository_operation" .success 100
  else row.failSteps

def DeleteAttempt.finish (a : DeleteAttempt) : DeleteAttempt :=
  if a.state = .prepared then { a with state := .finished } else a

namespace OrphanTables

/-! ## The task of an advance -/

def startTask (db : OrphanTables) (t : Nat) : Except ReconcileError OrphanTables :=
  match db.task t with
  | none => .error doesNotExist
  | some row =>
    match row.task.start with
    | .ok task => .ok (db.updateTask t fun row => { row with task := task })
    | .error _ => .error invalid

/-- `_step` on the row of a task. -/
def step (db : OrphanTables) (t : Nat) (name : String) (status : StepStatus) (progress : Nat) :
    OrphanTables :=
  db.updateTask t fun row => row.step name status progress

/-- `_record` on the row of a task. -/
def record (db : OrphanTables) (t : Nat) (snapshotId : String) (outcome : ResultOutcome) :
    OrphanTables :=
  db.updateTask t fun row => row.record snapshotId outcome

def nextCheck (now : Int) (checks : Nat) : Int :=
  now + seconds (min 900 (60 * 2 ^ min (checks - 1) 4))

/-- A Controller task that waits for its executor. -/
def confirmingTask (now : Int) (row : ReconcileTask) : ReconcileTask :=
  let checks := (row.task.resultPayload.map OrphanRecovery.checks).getD 0 + 1
  if row.task.status.isTerminal ∨ row.task.status = .blocked then row
  else { row with
    task := { row.task with
      status := .running, errorCode := "ORPHAN_EXECUTION_CONFIRMING"
      errorMessage := "Automatically confirming snapshot cleanup execution before recovery."
      resultPayload := some { checks := checks, nextCheckAt := nextCheck now checks } }
    dueAt := some (nextCheck now checks) }

def waitingTask (reason : String) (row : ReconcileTask) : ReconcileTask :=
  { row with task := { row.task with status := .waiting, errorMessage := reason } }

def wait (db : OrphanTables) (controller : Bool) (t : Nat) (reason : String) : OrphanTables :=
  db.updateTask t (if controller then confirmingTask db.now else waitingTask reason)

/-- `retry_scan` of `_finish`. -/
def retryScan (db : OrphanTables) (row : ReconcileTask) (c : Completion) : Bool :=
  !c.succeeded && row.task.retryCount < 1 && row.recoveryAttempt = 0 &&
    row.replacesTask = none && db.activeTask = some row.id && row.count .failed = 0 &&
    row.count .deleted = 0 && c.errorCode ≠ "ORPHAN_DELETE_RECOVERED"

/-- The result payload of a completed task. -/
def finishedRecovery (row : ReconcileTask) : Option OrphanRecovery :=
  row.task.resultPayload.map fun recovery => { recovery with finished := true }

def completedTask (row : ReconcileTask) (c : Completion) : ReconcileTask :=
  { row.closeSteps c with
    task := row.task.complete (if c.succeeded then .success else .failed)
      (finishedRecovery row) c.errorCode c.reason
    executionToken := none }

section

variable (db : OrphanTables)

/-- `finalize_repository_operation` of a reconciliation. -/
def finalize (row : ReconcileTask) (c : Completion) : OrphanTables :=
  { db.updateTask row.id fun row => completedTask row c with
    activeTask := if db.activeTask = some row.id then none else db.activeTask }

def replacement (row : ReconcileTask) : ReconcileTask where
  id := db.tasks.length
  replacesTask := some row.id
  recoveryAttempt := row.recoveryAttempt + 1
  dueAt := some (db.now + seconds 60)

/-- A failed task hands the gate over to its replacement. -/
def replace (row : ReconcileTask) : Except ReconcileError OrphanTables :=
  if db.tasks.any fun t => t.replacesTask = some row.id then .error invalid
  else .ok { db with
    tasks := db.replacement row :: db.tasks, activeTask := some (db.replacement row).id }

/-- `_finish` of a row that is not terminal, once nothing keeps it waiting. -/
def complete (row : ReconcileTask) (c : Completion) :
    Except ReconcileError OrphanTables :=
  if db.retryScan row c then (db.finalize row c).replace row else .ok (db.finalize row c)

def finish (controller : Bool) (t : Nat) (c : Completion) :
    Except ReconcileError OrphanTables :=
  match db.task t with
  | none => .error doesNotExist
  | some row =>
    if row.task.status.isTerminal then .ok db
    else if controller && db.anyDeleting then
      .ok (db.wait controller t
        "Automatically confirming the current Controller deletion before finishing.")
    else if db.retryScan row (c.amend row) &&
        db.children.any fun child => child.parentTask = t && child.unconfirmed then
      .ok ((db.updateTask t fun row => row.closeSteps (c.amend row)).wait controller t
        "Agent execution requires confirmation before retry.")
    else db.complete row (c.amend row)

/-! ## Candidates -/

def remote (t : Nat) (operation : OrphanOperation) :
    Except ReconcileError (Option RemoteAnswer × OrphanTables) :=
  match db.task t with
  | none => .error doesNotExist
  | some row =>
    match db.children.find? fun child => child.parentTask = t &&
        child.operation = operation && child.retryCount = row.task.retryCount with
    | some child => child.answer.map fun answer => (answer, db)
    | none =>
      let child : OrphanChild :=
        { parentTask := t, operation := operation, retryCount := row.task.retryCount }
      .ok (none, { db with children := child :: db.children })

def saveStatus (snapshotId : String) (status : CandidateStatus) :
    OrphanTables :=
  db.updateCandidate snapshotId fun c => { c with status := status }

def saveOutcome (snapshotId : String) (status : CandidateStatus) (at' : Int) :
    OrphanTables :=
  db.updateCandidate snapshotId fun c => { c with
    status := status, deletedAt := if status = .deleted then some at' else none }

/-- The Agent has confirmed that a deletion failed. -/
def saveFailure (snapshotId : String) : OrphanTables :=
  db.updateCandidate snapshotId fun c => { c with
    status := .candidate, lastError := "Agent confirmed snapshot deletion failure." }

end

def discovered (item : InventoryItem) (at' : Int) : OrphanSnapshot where
  snapshotId := item.snapshotId
  operationId := item.operationId
  firstSeenAt := at'

section

variable (db : OrphanTables)

/-- `update_or_create` of a snapshot that is not a candidate yet. -/
def rediscover (item : InventoryItem) (at' : Int) : OrphanTables :=
  match db.candidate item.snapshotId with
  | none => { db with candidates := discovered item at' :: db.candidates }
  | some _ => db.updateCandidate item.snapshotId fun c => { c with
      operationId := item.operationId, firstSeenAt := at', status := .candidate
      deletedAt := none, lastError := "" }

/-- What the transaction before a deletion finds. -/
inductive Marked where
  | concurrent
  | deferred
  | marked
deriving DecidableEq

def mark (controller : Bool) (t : Nat) (snapshotId : String) :
    Except ReconcileError (Marked × OrphanTables) :=
  match db.candidate snapshotId with
  | none => .error doesNotExist
  | some c =>
    if controller && c.status = .deleting then .ok (.concurrent, db)
    else if db.backupBlocker ≠ "" ∨ snapshotId ∈ db.managedIds then
      .ok (.deferred, db.record t snapshotId .deferred)
    else if controller then .ok (.marked, db)
    else .ok (.marked, db.saveStatus snapshotId .deleting)

/-! ## Controller deletions -/

def Authorized (row : ReconcileTask) : Prop :=
  (row.task.status = .running ∨ row.task.status = .waiting) ∧ db.activeTask = some row.id

instance (db : OrphanTables) (row : ReconcileTask) : Decidable (db.Authorized row) :=
  inferInstanceAs (Decidable (_ ∧ _))

/-- Both grace periods of a candidate are over. -/
def PastGrace (c : OrphanSnapshot) : Prop :=
  gracePeriod ≤ db.now - c.firstSeenAt ∧ ∀ d ∈ c.deleteNotBefore, d ≤ db.now

instance (db : OrphanTables) (c : OrphanSnapshot) : Decidable (db.PastGrace c) :=
  inferInstanceAs (Decidable (_ ∧ _))

/-- What `ControllerDelete.run` rechecks under the locks of its intent. -/
def MayDelete (row : ReconcileTask) (c : OrphanSnapshot) (revision : Nat) :
    Prop :=
  db.Authorized row ∧ c.status = .candidate ∧ db.anyDeleting = false ∧ db.PastGrace c ∧
    db.revision = revision ∧ db.backupBlocker = "" ∧ c.snapshotId ∉ db.managedIds ∧
    db.pendingOperation c.operationId = false

instance (db : OrphanTables) (row : ReconcileTask) (c : OrphanSnapshot) (revision : Nat) :
    Decidable (db.MayDelete row c revision) :=
  inferInstanceAs (Decidable (_ ∧ _))

def newAttempt (t : Nat) (c : OrphanSnapshot) (revision : Nat) :
    DeleteAttempt where
  id := db.attempts.length
  candidate := c.snapshotId
  repositoryTask := t
  observationRevision := revision

/-- The intent transaction of `ControllerDelete.run`. -/
def intent (t : Nat) (snapshotId : String) (revision : Nat) :
    Except ReconcileError (Nat × OrphanTables) :=
  match db.task t, db.candidate snapshotId with
  | some row, some c =>
    if db.MayDelete row c revision then
      let attempt := db.newAttempt t c revision
      let marked := (db.saveStatus snapshotId .deleting).updateTask t fun row =>
        { row with executionToken := some attempt.id }
      .ok (attempt.id, { marked with attempts := attempt :: db.attempts })
    else .error preconditionChanged
  | _, _ => .error doesNotExist

/-- An attempt whose result a Controller advance holds, with the revision it has seen. -/
structure Execution where
  attempt : Nat
  revision : Nat
deriving DecidableEq

/-- `controller_result_registration` lets a mutation through. -/
def Registers (row : ReconcileTask) : Option Execution → Prop
  | none => db.Authorized row ∧ db.anyDeleting = false
  | some execution => db.Authorized row ∧ row.executionToken = some execution.attempt ∧
      db.revision = execution.revision

instance (db : OrphanTables) (row : ReconcileTask) (execution : Option Execution) :
    Decidable (db.Registers row execution) :=
  match execution with
  | none => inferInstanceAs (Decidable (_ ∧ _))
  | some _ => inferInstanceAs (Decidable (_ ∧ _))

/-- The outcome of a deletion under `controller_result_registration`. -/
def register (t : Nat) (execution : Option Execution) (snapshotId : String)
    (outcome : CandidateStatus) (event : ResultOutcome) (at' : Int) :
    Except ReconcileError OrphanTables :=
  match db.task t with
  | none => .error doesNotExist
  | some row =>
    if db.Registers row execution then
      .ok ((db.saveOutcome snapshotId outcome at').record t snapshotId event)
    else .error lateResult

/-- `confirmed_stopped` of an attempt whose lease could be locked. -/
def confirmedStopped (id : Nat) : Bool :=
  match db.attempt id with
  | none => false
  | some a => a.stopped

/-- The runner is started by a worker that has the lease open. -/
def spawn (id : Nat) : Except ReconcileError OrphanTables :=
  match db.attempt id with
  | none => .error doesNotExist
  | some a =>
    if a.worker then .ok (db.updateAttempt id fun a => { a with runner := true })
    else .error { doesNotExist with execution := true }

/-- The worker reads the receipt of its runner. -/
def readReceipt (id : Nat) : Except ReconcileError Receipt :=
  match db.attempt id with
  | none => .error doesNotExist
  | some a =>
    match a.receipt with
    | some receipt => .ok receipt
    | none => .error (confirming "The deletion result identity could not be verified.")

def recoveredStatus (c : OrphanSnapshot) (present : Bool) :
    CandidateStatus :=
  if c.snapshotId ∈ db.managedIds ∨ db.pendingOperation c.operationId then .managed
  else if present then .candidate
  else .absent

def recoveredCandidate (c : OrphanSnapshot) (present : Bool)
    (reason : String) : OrphanSnapshot :=
  { c with
    status := db.recoveredStatus c present
    deleteNotBefore :=
      if db.recoveredStatus c present = .candidate then some (db.now + gracePeriod)
      else c.deleteNotBefore
    lastError := reason }

def recoveryOutcome : CandidateStatus → ResultOutcome
  | .managed => .managed
  | .absent => .absent
  | _ => .failed

/-- The transaction of `recover_controller_deletions` for one candidate. -/
def recover (t : Nat) (snapshotId : String) (attemptId : Nat)
    (present : Bool) (reason : String) : Except ReconcileError OrphanTables :=
  match db.task t, db.candidate snapshotId, db.attempt attemptId with
  | some row, some c, some a =>
    if db.Authorized row ∧ a.repositoryTask = t ∧ row.executionToken = some a.id ∧
        db.revision = a.observationRevision then
      if db.recoveredStatus c present = .managed ∧ present = false then
        .error (confirming "A referenced snapshot is missing from the verified inventory.")
      else
        let saved := (db.updateCandidate snapshotId fun c =>
          db.recoveredCandidate c present reason).updateAttempt attemptId fun a =>
            { a with state := .recovered }
        .ok (saved.record t snapshotId (recoveryOutcome (db.recoveredStatus c present)))
    else
      .error (confirming
        "Deletion recovery identity changed; automatic verification will retry.")
  | _, _, _ => .error doesNotExist

end

end OrphanTables

end HyperFileLens.Storage
