import HyperFileLens.Library.Interference
import HyperFileLens.Storage.OrphanEnvironment

/-!
# Reconciliation of orphan snapshots

`run_orphan_reconciliation` with `ControllerDelete.run`, `recover_controller_deletions`
and `controller_execution_pending`, as programs of transactions. Any number of advances
of any task run at the same time, and an advance may stop for good between any two of its
transactions.

*Calls.*  Each query, each transaction and each request to a runner or to the storage is
a call. The environment chooses what comes from outside the database, and any call may
raise.

*Copies.*  An advance works on the rows it has read. A call that writes a row the
advance has read before gets the key of the row, and the call before a deletion also the
copy that the checks were made on.
-/

namespace HyperFileLens.Storage

open Tasks Service

/-! ## Calls -/

inductive OrphanCall where
  | load (task : Nat)
  | startTask (task : Nat)
  | step (task : Nat) (name : String) (status : StepStatus) (progress : Nat)
  | ownedLocation
  | backupBlocker
  | deleting
  | newestAttempt (snapshotId : String)
  | confirmedStopped (attempt : Nat)
  | controllerInventory
  | remote (task : Nat) (operation : OrphanOperation)
  | now
  | managedIds
  | operationIndex (inventory : List InventoryItem)
  | candidates
  | absentCandidates (inventory : List InventoryItem)
  | saveAbsent (task : Nat) (snapshotId : String)
  | register (task : Nat) (execution : Option OrphanTables.Execution) (snapshotId : String)
      (outcome : CandidateStatus) (event : ResultOutcome) (at' : Int)
  | saveManaged (task : Nat) (snapshotId : String)
  /-- `update_or_create` of a candidate. -/
  | rediscover (task : Nat) (item : InventoryItem) (at' : Int)
  | record (task : Nat) (snapshotId : String) (outcome : ResultOutcome)
  /-- `STORAGE_ORPHAN_SNAPSHOT_DELETE_ENABLED`. -/
  | deletionEnabled
  | discoveredBy (task : Nat) (snapshotId : String)
  /-- The transaction before a deletion. -/
  | mark (task : Nat) (copy : OrphanSnapshot)
  /-- The connection of `delete_s3_snapshots` to its repository. -/
  | connect
  | intent (task : Nat) (snapshotId : String) (revision : Nat)
  | spawn (attempt : Nat)
  | readReceipt (attempt : Nat)
  | closeLease (attempt : Nat)
  | finishAttempt (attempt : Nat)
  | recover (task : Nat) (snapshotId : String) (attempt : Nat) (present : Bool) (reason : String)
  | saveOutcome (task : Nat) (snapshotId : String) (outcome : CandidateStatus)
      (event : ResultOutcome) (at' : Int)
  | saveFailure (task : Nat) (snapshotId : String)
  | anyDeleting
  | wait (task : Nat) (reason : String)
  | finish (task : Nat) (completion : Completion)

structure LoadedTask where
  row : ReconcileTask
  revision : Nat
  now : Int
deriving DecidableEq

@[reducible] def OrphanCall.Value : OrphanCall → Type
  | .load _ => LoadedTask
  | .backupBlocker => String
  | .deleting | .candidates | .absentCandidates _ => List OrphanSnapshot
  | .newestAttempt _ => Option DeleteAttempt
  | .ownedLocation | .confirmedStopped _ | .deletionEnabled | .discoveredBy _ _ | .anyDeleting =>
    Bool
  | .controllerInventory => List InventoryItem
  | .remote _ _ => Option RemoteAnswer
  | .now => Int
  | .managedIds | .operationIndex _ => List String
  | .mark _ _ => OrphanTables.Marked
  | .intent _ _ _ => Nat
  | .readReceipt _ => Receipt
  | _ => Unit

@[reducible] def OrphanCall.Answer (r : OrphanCall) : Type := Except ReconcileError r.Value

/-- What the environment chooses at a call. -/
structure OrphanChoice where
  raises : Option ReconcileError := none
  /-- The answer of a check outside the database. -/
  flag : Bool := true
  inventory : List InventoryItem := []

/-- What a call returns and does when it does not raise by itself. -/
def OrphanTables.serve (controller : Bool) (db : OrphanTables) (c : OrphanChoice) :
    (r : OrphanCall) → Except ReconcileError (r.Value × OrphanTables)
  | .load t =>
    match db.task t with
    | none => .error doesNotExist
    | some row => .ok ({ row := row, revision := db.revision, now := db.now }, db)
  | .startTask t => (db.startTask t).map fun db' => ((), db')
  | .step t name status progress => .ok ((), db.step t name status progress)
  | .ownedLocation => .ok (c.flag, db)
  | .backupBlocker => .ok (db.backupBlocker, db)
  | .deleting => .ok (db.deleting, db)
  | .newestAttempt snapshotId => .ok (db.newestAttempt snapshotId, db)
  | .confirmedStopped attempt => .ok (c.flag && db.confirmedStopped attempt, db)
  | .controllerInventory => .ok (c.inventory, db)
  | .remote t operation => db.remote t operation
  | .now => .ok (db.now, db)
  | .managedIds => .ok (db.managedIds, db)
  | .operationIndex inventory => .ok (db.operationIndex inventory, db)
  | .candidates =>
    .ok (db.candidates.filter fun o => o.status = .candidate || o.status = .deleting, db)
  | .absentCandidates inventory =>
    .ok (db.candidates.filter fun o => (o.status = .candidate || o.status = .deleting) &&
      inventory.all fun item => item.snapshotId ≠ o.snapshotId, db)
  | .saveAbsent t snapshotId =>
    .ok ((), (db.saveStatus snapshotId .absent).record t snapshotId .absent)
  | .register t execution snapshotId outcome event at' =>
    (db.register t execution snapshotId outcome event at').map fun db' => ((), db')
  | .saveManaged t snapshotId =>
    .ok ((), (db.saveStatus snapshotId .managed).record t snapshotId .managed)
  | .rediscover t item at' =>
    .ok ((), (db.rediscover item at').record t item.snapshotId .discovered)
  | .record t snapshotId outcome => .ok ((), db.record t snapshotId outcome)
  | .deletionEnabled => .ok (c.flag, db)
  | .discoveredBy t snapshotId => .ok (db.discoveredBy t snapshotId, db)
  | .mark t copy => db.mark controller t copy.snapshotId
  | .connect => .ok ((), db)
  | .intent t snapshotId revision => db.intent t snapshotId revision
  | .spawn attempt => (db.spawn attempt).map fun db' => ((), db')
  | .readReceipt attempt => (db.readReceipt attempt).map fun receipt => (receipt, db)
  | .closeLease attempt => .ok ((), db.updateAttempt attempt fun a => { a with worker := false })
  | .finishAttempt attempt => .ok ((), db.updateAttempt attempt DeleteAttempt.finish)
  | .recover t snapshotId attempt present reason =>
    (db.recover t snapshotId attempt present reason).map fun db' => ((), db')
  | .saveOutcome t snapshotId outcome event at' =>
    .ok ((), (db.saveOutcome snapshotId outcome at').record t snapshotId event)
  | .saveFailure t snapshotId =>
    .ok ((), (db.saveFailure snapshotId).record t snapshotId .failed)
  | .anyDeleting => .ok (db.anyDeleting, db)
  | .wait t reason => .ok ((), db.wait controller t reason)
  | .finish t completion => (db.finish controller t completion).map fun db' => ((), db')

/-- The answer to a call and the tables after it. A call that raises changes nothing. -/
def OrphanTables.respond (controller : Bool) (db : OrphanTables) (r : OrphanCall)
    (c : OrphanChoice) : r.Answer × OrphanTables :=
  match c.raises with
  | some error => (.error error, db)
  | none =>
    match db.serve controller c r with
    | .ok (value, db') => (.ok value, db')
    | .error error => (.error error, db)

/-- The database, the storage and the runners. -/
def orphanServer (controller : Bool) :
    Server OrphanTables OrphanCall OrphanCall.Answer OrphanChoice where
  respond := OrphanTables.respond controller

abbrev Orphan (α : Type) := Prog OrphanCall OrphanCall.Answer ReconcileError α

/-- One call; its exception is the exception of the program. -/
def ask (r : OrphanCall) : Orphan r.Value :=
  .call r fun
    | .ok value => .ret value
    | .error error => .fail error

/-! ## Deletion by the Controller -/

/-- `controller_execution_pending` of a list of candidates. -/
def executionPending : List OrphanSnapshot → Orphan Bool
  | [] => pure false
  | c :: cs => do
      match ← ask (.newestAttempt c.snapshotId) with
      | none => pure true
      | some attempt =>
        if ← ask (.confirmedStopped attempt.id) then executionPending cs else pure true

def controllerExecutionPending : Orphan Bool := do
  executionPending (← ask .deleting)

/-- `recover_controller_deletions` of a list of candidates. -/
def recoverEach (task : Nat) (inventory : List InventoryItem) (reason : String) :
    List OrphanSnapshot → Bool → Orphan Bool
  | [], recovered => pure recovered
  | c :: cs, _ => do
      match ← ask (.newestAttempt c.snapshotId) with
      | none => .fail (confirming
          "Automatically checking legacy deletion execution; no completion evidence is available.")
      | some attempt =>
        if ← ask (.confirmedStopped attempt.id) then
          ask (.recover task c.snapshotId attempt.id
            (inventory.any fun item => item.snapshotId = c.snapshotId) reason)
          recoverEach task inventory reason cs true
        else
          .fail (confirming "Automatically waiting for the bounded deletion executor to stop.")

def recoverControllerDeletions (task : Nat) (inventory : List InventoryItem) (reason : String) :
    Orphan Bool := do
  recoverEach task inventory reason (← ask .deleting) false

/-- `ControllerDelete.run` after its intent. -/
def supervise (attempt : Nat) : Orphan Receipt := do
  ask (.spawn attempt)
  let receipt ← ask (.readReceipt attempt)
  ask (.closeLease attempt)
  if ← ask (.confirmedStopped attempt) then
    ask (.finishAttempt attempt)
    pure receipt
  else .fail (confirming "Deletion descendants have not confirmed termination.")

/-- How `ControllerDelete.run` raises an exception once its intent is committed. -/
def afterIntent (error : ReconcileError) : ReconcileError :=
  if error.execution then confirming "Automatically confirming Controller deletion execution."
  else error

/-- `delete_s3_snapshots` of one snapshot through `ControllerDelete.run`. -/
def controllerDelete (task : Nat) (snapshotId : String) (revision : Nat) :
    Orphan (Nat × Receipt) := do
  ask .connect
  let attempt ← ask (.intent task snapshotId revision)
  let receipt ← (supervise attempt).handle fun error => do
    ask (.closeLease attempt)
    .fail (afterIntent error)
  pure (attempt, receipt)

/-! ## One advance -/

inductive Ending where
  | wait (reason : String)
  | finish (completion : Completion)

/-- What the loop over the inventory works with. -/
structure Observation where
  now : Int
  protectedIds : List String
  pending : List String
  candidates : List OrphanSnapshot

def saveAbsent (controller : Bool) (task : Nat) (at' : Int) (snapshotId : String) :
    Orphan Unit :=
  if controller then ask (.register task none snapshotId .absent .absent at')
  else ask (.saveAbsent task snapshotId)

/-- A candidate that is not in the inventory. -/
def reconcileAbsent (controller : Bool) (task : Nat) (at' : Int) (c : OrphanSnapshot) :
    Orphan (Option Ending) :=
  if c.status = .deleting then pure (some (.wait "Deletion execution requires confirmation."))
  else do
    saveAbsent controller task at' c.snapshotId
    pure none

/-- Deletion of a marked candidate by the Controller. -/
def deleteByController (task revision : Nat) (at' : Int) (snapshotId : String) :
    Orphan (Option Ending) := do
  let fresh ← ask .controllerInventory
  if fresh.any fun item => item.snapshotId = snapshotId then
    let (attempt, receipt) ← controllerDelete task snapshotId revision
    if receipt.exitCode = 0 then
      ask (.register task (some ⟨attempt, revision⟩) snapshotId .deleted .deleted at')
      pure none
    else
      let inventory ← ask .controllerInventory
      let _ ← recoverControllerDeletions task inventory
        (if receipt.outcome = "timeout" then
          "Snapshot deletion timed out; its executor stopped automatically."
        else "Physical snapshot deletion failed; its executor stopped.")
      pure none
  else
    ask (.register task none snapshotId .absent .absent at')
    pure none

/-- Deletion of a marked candidate by the owner's Agent. -/
def deleteByAgent (task : Nat) (at' : Int) (snapshotId : String) : Orphan (Option Ending) := do
  match ← ask (.remote task (.orphanDelete snapshotId)) with
  | none => pure (some (.wait "Waiting for confirmed Agent result."))
  | some .deletionFailed =>
    ask (.saveFailure task snapshotId)
    pure none
  | some (.result result) =>
    match result.deleted with
    | none => pure (some (.wait "Agent deletion identity or completion is unconfirmed."))
    | some deleted =>
      if result.snapshotId = snapshotId then
        ask (.saveOutcome task snapshotId (if deleted then .deleted else .absent)
          (if deleted then .deleted else .absent) at')
        pure none
      else pure (some (.wait "Agent deletion identity or completion is unconfirmed."))

/-- From the checks of a candidate to its deletion. -/
def markAndDelete (controller : Bool) (task revision : Nat) (at' : Int) (c : OrphanSnapshot) :
    Orphan (Option Ending) := do
  match ← ask (.mark task c) with
  | .concurrent => pure (some (.wait "Concurrent deletion requires execution confirmation."))
  | .deferred => pure none
  | .marked =>
    if controller then deleteByController task revision at' c.snapshotId
    else deleteByAgent task at' c.snapshotId

def reconcileCandidate (controller : Bool) (task revision : Nat) (at' : Int)
    (c : OrphanSnapshot) : Orphan (Option Ending) :=
  if at' - c.firstSeenAt < gracePeriod ∨ ∃ d ∈ c.deleteNotBefore, at' < d then do
    ask (.record task c.snapshotId .grace)
    pure none
  else do
    if ← ask .deletionEnabled then
      if ← ask (.discoveredBy task c.snapshotId) then pure none
      else if controller ∧ c.status = .deleting then
        pure (some (.wait "Automatically confirming the previous Controller deletion."))
      else markAndDelete controller task revision at' c
    else
      ask (.record task c.snapshotId .deferred)
      pure none

def reconcileItem (controller : Bool) (task revision : Nat) (o : Observation)
    (item : InventoryItem) : Orphan (Option Ending) :=
  let candidate := o.candidates.find? fun c => c.snapshotId = item.snapshotId
  if item.snapshotId ∈ o.protectedIds ∨ operationUuid item.operationId ∈ o.pending then
    match candidate with
    | none => pure none
    | some c =>
      if c.status = .deleting then pure none
      else do
        ask (.saveManaged task c.snapshotId)
        pure none
  else
    match candidate with
    | none => do
        ask (.rediscover task item o.now)
        pure none
    | some c => reconcileCandidate controller task revision o.now c

def reconcileInventory (controller : Bool) (task revision : Nat)
    (inventory : List InventoryItem) : Orphan Ending := do
  let now ← ask .now
  let protectedIds ← ask .managedIds
  let pending ← ask (.operationIndex inventory)
  let candidates ← ask .candidates
  let absent ← ask (.absentCandidates inventory)
  match ← Prog.firstM (reconcileAbsent controller task now) absent with
  | some ending => pure ending
  | none =>
    match ← Prog.firstM (reconcileItem controller task revision
        { now, protectedIds, pending, candidates }) inventory with
    | some ending => pure ending
    | none => pure (.finish { succeeded := true })

def reconcileByController (task revision : Nat) : Orphan Ending := do
  if ← controllerExecutionPending then
    pure (.wait "Automatically confirming the previous deletion executor.")
  else
    let inventory ← ask .controllerInventory
    if ← recoverControllerDeletions task inventory
        "Controller execution ended; snapshot state recovered without redispatching deletion." then
      pure (.finish {
        succeeded := false
        reason := "Controller execution stopped and snapshot states were recovered; this interrupted cycle ended without redispatching deletion."
        errorCode := "ORPHAN_DELETE_RECOVERED" })
    else reconcileInventory true task revision inventory

/-- The inventory of the owner's Agent and its reconciliation. -/
def reconcileByAgent (task revision : Nat) : Orphan Ending := do
  match ← ask (.remote task .inventory) with
  | some (.result result) =>
    if result.inventoryComplete then reconcileInventory false task revision result.manifests
    else .fail {
      code := "ORPHAN_INVENTORY_INVALID"
      message := "A complete snapshot inventory could not be verified. No unconfirmed snapshot will be deleted."
      execution := true }
  | _ => pure (.wait "Waiting for confirmed Agent result.")

/-- The part of an advance whose exceptions are classified. -/
def reconcile (controller : Bool) (task revision : Nat) : Orphan Ending := do
  ask (.step task "prepare_repository_operation" .success 10)
  ask (.step task "verify_repository_owner" .running 15)
  if ← ask .ownedLocation then
    let blocker ← ask .backupBlocker
    if blocker ≠ "" then .fail { code := "ORPHAN_BACKUP_ACTIVE", message := blocker }
    else
      ask (.step task "verify_repository_owner" .success 20)
      ask (.step task "run_repository_operation" .running 25)
      if controller then reconcileByController task revision
      else reconcileByAgent task revision
  else .fail {
    code := "ORPHAN_OWNERSHIP_UNVERIFIED"
    message := "Verify the physical repository ownership before manually retrying reconciliation." }

/-- What an exception makes of an advance. -/
def interrupted (error : ReconcileError) : Orphan Ending := do
  if error.executionUnknown then pure (.wait error.message)
  else if ← ask .anyDeleting then pure (.wait "Deletion completion requires confirmation.")
  else pure (.finish { succeeded := false, reason := error.message, errorCode := error.code })

/-- An advance that goes on has been loaded at the right time. -/
def LoadedTask.isDue (controller : Bool) (loaded : LoadedTask) : Bool :=
  let row := loaded.row
  let later := match row.dueAt with
    | none => false
    | some due => loaded.now < due
  !row.task.status.isTerminal && !(row.task.status = .pending && later) &&
    !(controller && row.task.errorCode = "ORPHAN_EXECUTION_CONFIRMING" && later)

def startPendingTask (task : Nat) (loaded : LoadedTask) : Orphan Unit :=
  if loaded.row.task.status = .pending then ask (.startTask task) else pure ()

def runOrphanReconciliation (controller : Bool) (task : Nat) : Orphan Unit := do
  let loaded ← ask (.load task)
  if loaded.isDue controller then
    startPendingTask task loaded
    ask (.step task "prepare_repository_operation" .running 5)
    match ← (reconcile controller task loaded.revision).handle interrupted with
    | .wait reason => ask (.wait task reason)
    | .finish completion => ask (.finish task completion)
  else pure ()

/-! ## Runs -/

abbrev OrphanState := Pool OrphanTables OrphanCall OrphanCall.Answer ReconcileError Unit Nat

abbrev OrphanEventOf := PoolEvent Nat OrphanChoice OrphanEnv

structure OrphanTables.Fresh (db : OrphanTables) : Prop where
  tasks : db.tasks = []
  activeTask : db.activeTask = none
  candidates : db.candidates = []
  children : db.children = []
  attempts : db.attempts = []

/-- A target and the advances of its tasks, from given tables on. -/
def orphanRuns (controller : Bool) (db : OrphanTables) :
    Transition.System OrphanState OrphanEventOf :=
  poolSystem (orphanServer controller) (runOrphanReconciliation controller) orphanEnvironment db

def orphanStart (db : OrphanTables) : OrphanState := ⟨db, fun _ => none, 0⟩

/-- The next calls of an advance, none of which raises. -/
def nextCalls (i n : Nat) : List OrphanEventOf := List.replicate n (.call i {})

end HyperFileLens.Storage
