import HyperFileLens.Node.LifecycleSeal
import HyperFileLens.Node.UninstallCompletion
import HyperFileLens.Node.Writers

/-!
# The lifecycle of a Node

The upgrades and uninstalls of one Node, as `node_lifecycle.py` admits and ends them.

*Rows.*  The rows of the Node in the order of their creation. `_latest_lifecycle_task` is the
last row of a kind.

*Admission.*  `start_node_upgrade` and `start_node_remove` run under the lock of the Node, in one
transaction. Their other checks are answered by the environment.

*Advances.*  `advance_node_lifecycle` is no transaction. It reads the last uninstall, ends it
when its callback is overdue, reads it again, and then looks only at what it has read.

*Records.*  A history of the callbacks and of the purges.
-/

namespace HyperFileLens.Node

open Transition

inductive LifecycleRecord where
  | callback (row : Nat) (token : String) (complete changed : Bool)
  /-- `advance_node_lifecycle` has purged for an uninstall, with the newest row then. -/
  | purge (row newest : Nat)
  /-- `start_node_remove` has purged without the Agent. -/
  | forcePurge (force : Bool) (triggeredBy : Option Int)
deriving DecidableEq

/-- How far `advance_node_lifecycle` has come with an uninstall. -/
inductive AdvancePhase where
  | read
  | ended
  | looked
deriving DecidableEq

/-- A call of `advance_node_lifecycle` that has found an uninstall. -/
structure NodeAdvance where
  row : Nat
  snapshot : NodeTask
  phase : AdvancePhase

structure NodeLifecycle where
  tasks : List NodeTask
  deleted : Bool
  advances : List NodeAdvance
  records : List LifecycleRecord

/-- The answers that `start_node_remove` gets. -/
structure RemoveChecks where
  /-- The role, the installation mode, and the fences of the source allow it. -/
  managed : Bool
  /-- There are no blockers and no bindings. -/
  available : Bool
  supported : Bool
  routable : Bool

/-- What `start_node_remove` is asked for. -/
structure RemoveRequest where
  force : Bool
  keepData : Bool
  /-- `triggered_by_task_id`: the deregistration that it belongs to. -/
  triggeredBy : Option Int
  attempt : Int

inductive LifecycleEvent where
  | startUpgrade (allowed : Bool) (payload : Dict) (now deadline : Time)
  | startRemove (checks : RemoveChecks) (request : RemoveRequest) (token : String)
      (now deadline : Time)
  | frame (row : Nat) (frame : UplinkFrame)
  | write (row : Nat) (writer : Writer)
  | callback (token : String) (report : UninstallReport) (now : Instant)
  | verifyUpgrade (row : Nat) (view : RouteView) (now : Instant)
  | staleUpgrade (row : Nat) (timedOut : Bool) (first view last : RouteView) (now : Instant)
  /-- `advance_node_lifecycle` reads the last uninstall. -/
  | read
  | failStale (advance : Nat) (timedOut : Bool) (now : Instant)
  | refresh (advance : Nat)
  /-- The end of `advance_node_lifecycle`. `seenDeleted` is what the Node that it holds says. -/
  | finish (advance : Nat) (seenDeleted : Bool)

/-! ## Admission -/

def latestRow (kind : String) (tasks : List NodeTask) : Option (Nat × NodeTask) :=
  (tasks.zipIdx.reverse.find? fun row => row.1.kind = kind).map fun row => (row.2, row.1)

/-- `_active_lifecycle_task` finds a row. -/
def hasActiveLifecycleTask (tasks : List NodeTask) : Bool :=
  ["agent.upgrade", "agent.uninstall"].any fun kind =>
    (latestRow kind tasks).any fun row => row.2.status.isActive

/-- The row that `run_agent_task_async` creates. `lifecycle` is the kind of the operation. -/
def createLifecycleTask (nodeId : Nat) (lifecycle kind : String) (payload : Dict)
    (now deadline : Time) : NodeTask where
  nodeId := nodeId
  correlationType := lifecycleCorrelationType
  correlationId := lifecycle ++ ":" ++ toString nodeId
  kind := kind
  payload := payload
  result := []
  status := .pending
  createdAt := now
  dispatchedAt := none
  acceptedAt := none
  lastDeliveryAt := none
  deliveryAttemptCount := 0
  lastProgressAt := none
  cancelRequestedAt := none
  watchdogDeadlineAt := deadline
  lastError := ""

def uninstallPayload (request : RemoveRequest) : Dict :=
  let payload : Dict := [("keep_data", .bool request.keepData),
    ("force_cleanup", .bool request.force)]
  match request.triggeredBy.filter (· ≠ 0) with
  | none => payload
  | some taskId =>
    (payload.set "source_unregister_task_id" (.int taskId)).set "source_unregister_attempt"
      (.int (if request.attempt < 0 then 0 else request.attempt))

/-- The payload with its token: `attach_uninstall_completion`. -/
def withCompletion (payload : Dict) (token tokenDigest : String) (maxAge : Int) : Dict :=
  payload.set "completion" (.obj [("path", .str "/api/v1/node/agent-uninstall/completion/"),
    ("token", .str token), ("token_digest", .str tokenDigest), ("expires_in_seconds", .int maxAge)])

/-! ## Steps -/

structure LifecycleSetting where
  nodeId : Nat
  conf : Settings
  parse : String → Option Time
  stable : Int
  gateway : Bool
  signedRow : String → Option Nat
  digest : String → String
  maxAge : Int

namespace NodeLifecycle

def setTask (s : NodeLifecycle) (row : Nat) (task : NodeTask) : NodeLifecycle :=
  { s with tasks := s.tasks.set row task }

/-- `start_node_remove`, once the operation is admitted. -/
def startRemove (env : LifecycleSetting) (s : NodeLifecycle) (checks : RemoveChecks)
    (request : RemoveRequest) (token : String) (now deadline : Time) : NodeLifecycle :=
  if checks.supported && checks.routable then
    { s with tasks := s.tasks ++ [createLifecycleTask env.nodeId "remove" "agent.uninstall"
        (withCompletion (uninstallPayload request) token (env.digest token) env.maxAge) now
        deadline] }
  else if !request.force || request.triggeredBy.isSome then s
  else
    { s with
      deleted := true
      records := s.records ++ [.forcePurge request.force request.triggeredBy] }

def report (env : LifecycleSetting) (s : NodeLifecycle) (row : Nat) (task : NodeTask)
    (token : String) (report : UninstallReport) (now : Instant) : NodeLifecycle :=
  let task' := completeDetachedUninstall env.conf task report now
  { s with
    tasks := s.tasks.set row task'
    records := s.records ++
      if task.takesReport report then
        [.callback row token report.effective (task'.status ≠ task.status)]
      else [] }

/-- The end of `advance_node_lifecycle` for what it has read. -/
def finish (s : NodeLifecycle) (row : Nat) (snapshot : NodeTask) (seenDeleted : Bool) :
    NodeLifecycle :=
  match snapshot.sourceUnregisterTaskId with
  | none => s
  | some taskId =>
    if !snapshot.isCleaningUp || 0 < taskId || seenDeleted then s
    else { s with deleted := true, records := s.records ++ [.purge row (s.tasks.length - 1)] }

/-- What an event makes of a Node. There is no step for a row or an advance that is not
there. -/
def step (env : LifecycleSetting) (s : NodeLifecycle) : LifecycleEvent → Option NodeLifecycle
  | .startUpgrade allowed payload now deadline =>
    if s.deleted || !allowed || hasActiveLifecycleTask s.tasks then some s
    else
      some { s with
        tasks := s.tasks ++
          [createLifecycleTask env.nodeId "upgrade" "agent.upgrade" payload now deadline] }
  | .startRemove checks request token now deadline =>
    if s.deleted || !checks.managed || hasActiveLifecycleTask s.tasks || !checks.available then
      some s
    else some (s.startRemove env checks request token now deadline)
  | .frame row frame =>
    s.tasks[row]?.map fun task => s.setTask row (task.receive env.conf frame)
  | .write row writer =>
    s.tasks[row]?.bind fun task => (task.write env.conf writer).map (s.setTask row)
  | .callback token report now =>
    match env.signedRow token with
    | none => some s
    | some row => s.tasks[row]?.map fun task => s.report env row task token report now
  | .verifyUpgrade row view now =>
    s.tasks[row]?.map fun task =>
      s.setTask row (advanceUpgradeVerify env.conf env.parse env.stable env.gateway view task now)
  | .staleUpgrade row timedOut first view last now =>
    s.tasks[row]?.map fun task =>
      s.setTask row (failStaleUpgradeTask env.conf env.parse env.stable env.gateway timedOut first
        view last task now)
  | .read =>
    match latestRow "agent.uninstall" s.tasks with
    | none => some s
    | some (row, task) => some { s with advances := s.advances ++ [⟨row, task, .read⟩] }
  | .failStale n timedOut now =>
    s.advances[n]?.bind fun advance =>
      if advance.phase ≠ .read then none
      else if failsStaleRemove advance.snapshot timedOut then
        s.tasks[advance.row]?.map fun task =>
          { s with
            tasks := s.tasks.set advance.row
              (failStaleRemoveTask env.conf env.gateway advance.snapshot task now)
            advances := s.advances.set n { advance with phase := .ended } }
      else some { s with advances := s.advances.set n { advance with phase := .looked } }
  | .refresh n =>
    s.advances[n]?.bind fun advance =>
      if advance.phase ≠ .ended then none
      else
        s.tasks[advance.row]?.map fun task =>
          { s with advances := s.advances.set n ⟨advance.row, task, .looked⟩ }
  | .finish n seenDeleted =>
    s.advances[n]?.bind fun advance =>
      if advance.phase ≠ .looked then none
      else
        some ({ s with advances := s.advances.eraseIdx n }.finish advance.row advance.snapshot
          seenDeleted)

end NodeLifecycle

def NodeLifecycle.Begins (s : NodeLifecycle) : Prop :=
  s.tasks = [] ∧ s.deleted = false ∧ s.advances = [] ∧ s.records = []

def lifecycleSystem (env : LifecycleSetting) : System NodeLifecycle LifecycleEvent where
  init := NodeLifecycle.Begins
  step := NodeLifecycle.step env

end HyperFileLens.Node
