import HyperFileLens.Library.Json

/-!
# Rows of the table `node_tasks`

A task the control plane gives to an Agent, what its kind says about it, and the
deadlines of the execution watchdog.

*Time.*  Times are microseconds. An `Instant` carries the text `isoformat` gives
for it, which some writers store.

*Settings.*  The durations of `node_conf`, `protection_conf` and `restore_conf`
are fields of `Settings`, in seconds.
-/

namespace HyperFileLens.Node

inductive Status where
  | pending
  | running
  | success
  | failed
  | timeout
  | canceled
deriving DecidableEq, Repr

/-- `_ACTIVE_STATUSES`. -/
def Status.isActive : Status → Bool
  | .pending | .running => true
  | _ => false

/-- `_TERMINAL_STATUSES`. -/
def Status.isTerminal : Status → Bool
  | .success | .failed | .timeout | .canceled => true
  | _ => false

@[simp] theorem Status.isTerminal_eq (st : Status) : st.isTerminal = !st.isActive := by
  cases st <;> rfl

abbrev Time := Int

/-- A moment and its `isoformat`. -/
structure Instant where
  time : Time
  iso : String
deriving DecidableEq

/-- A row of `node_tasks`. -/
structure NodeTask where
  /-- The owner. -/
  nodeId : Nat
  /-- What the task belongs to. -/
  correlationType : String
  correlationId : String
  kind : String
  payload : Dict
  result : Dict
  status : Status
  createdAt : Time
  dispatchedAt : Option Time
  acceptedAt : Option Time
  lastDeliveryAt : Option Time
  deliveryAttemptCount : Nat
  lastProgressAt : Option Time
  cancelRequestedAt : Option Instant
  watchdogDeadlineAt : Time
  lastError : String
deriving DecidableEq

/-- Durations in seconds, with the defaults of the source. -/
structure Settings where
  taskWatchdog : Int := 60
  protectionBackupActivityLease : Int := 300
  lifecycleDetachedTimeout : Int := 600
  restoreActivityLease : Int := 300
  insightSnapshotOperationWatchdog : Int := 1800
  sourceNasProbeExecutionTimeout : Int := 30
  repositoryInitializeWatchdog : Int := 300
  pathSizeWatchdog : Int := 3600
  automaticProbeWatchdog : Int := 210
  snapshotDeleteWatchdog : Int := 3660
  upgradeDownloadStallTimeout : Int := 300
  taskCancelGrace : Int := 300
  taskResultUplinkProjectionGrace : Int := 300
  taskUplinkProjectionGrace : Int := 30
  taskCommandAckTimeout : Int := 30
  taskCommandAckMaxAge : Int := 600
  taskCommandAckMaxRetries : Int := 3

/-- `time + timedelta(seconds=…)`. -/
def after (time : Time) (seconds : Int) : Time := time + seconds * 1000000

/-- The first 2000 characters of an error text. -/
def clipError (error : String) : String := String.ofList (error.toList.take 2000)

/-! ## Kinds of tasks -/

def lifecycleCorrelationType : String := "node.lifecycle"

def protectionBackupCorrelationType : String := "protection.backup"

def pathSizeCorrelationType : String := "protection.path_size"

def protectionBackupNodeTaskKinds : List String := ["backup.run", "backup.snapshot.create"]

section

variable (correlationType kind : String)

def isProtectionBackupTask : Bool :=
  correlationType = protectionBackupCorrelationType && kind ∈ protectionBackupNodeTaskKinds

def isRestoreTask : Bool :=
  correlationType = "restore.record" && kind ∈ ["restore.run", "kopia.restore"]

def isInsightSnapshotOperation : Bool :=
  (correlationType = "lens_bridge.snapshot_browse" && kind = "lens.snapshot.browse") ||
    (correlationType = "lens_bridge.scope_resolve" && kind = "lens.snapshot.scope.resolve")

def isSourceNasProbe : Bool :=
  correlationType = "source.connection_probe" && kind = "nas.test"

def isRepositoryInitializeTask : Bool :=
  kind = "repo.initialize" &&
    correlationType ∈ ["repository_create", "protection.backup_config", "storage_repository"]

def isRepositoryStatusTask : Bool :=
  correlationType ∈ ["storage.repository_health", "storage_repository"] && kind = "repo.status"

end

def NodeTask.isLifecycleCorrelatedTask (task : NodeTask) : Bool :=
  task.correlationType = lifecycleCorrelationType

def isLifecycleKind (kind : String) : Bool := kind ∈ ["agent.upgrade", "agent.uninstall"]

/-- `mode == "local_detached"`. -/
def isDetachedMode (d : Dict) : Bool := Text.strip (d.get "mode").strOr = "local_detached"

/-- `_task_has_detached_marker`. -/
def NodeTask.hasDetachedMarker (task : NodeTask) : Bool :=
  task.isLifecycleCorrelatedTask &&
    (isDetachedMode task.result ||
      match task.result.get "last_progress" with
      | .obj progress => isDetachedMode progress
      | _ => false)

def NodeTask.isManagedWorkspaceRestoreTask (task : NodeTask) : Bool :=
  isRestoreTask task.correlationType task.kind
    && Text.strip task.correlationId ≠ ""
    && task.payload.get "workspace_kind" = .str "managed_restore"
    && Text.strip (task.payload.get "workspace_uid").strOr ≠ ""
    && Text.strip (task.payload.get "managed_workspace_path").strOr ≠ ""

/-! ## Delivery state in the result -/

def deliveryProtocolKey : String := "_delivery_protocol"

def withoutDeliveryRuntimeState (result : Dict) : Dict :=
  let merged :=
    if result.get "diagnostic_error_code" ∈ ([.str "AGENT_CONNECTION_UNSTABLE",
        .str "AGENT_UNAVAILABLE", .str "AGENT_DELIVERY_FAILED"] : List Json) then
      result.pop "diagnostic_error_code"
    else result
  merged.pop deliveryProtocolKey

def mentions (text word : String) : Bool := word.toList <:+: (Text.lower text).toList

def deliveryDiagnosticErrorCode (reason : String) : String :=
  if mentions reason "reconnecting" then "AGENT_CONNECTION_UNSTABLE"
  else if mentions reason "not routable" || (mentions reason "agent" && mentions reason "unavailable")
  then "AGENT_UNAVAILABLE"
  else "AGENT_DELIVERY_FAILED"

/-- `_ACK_DURABLE_TASKS`: correlation types and kinds. -/
def ackDurableTasks : List (String × String) :=
  [("protection.backup", "backup.run"), ("protection.backup", "backup.snapshot.create"),
    ("protection.backup.policy_prepare", "repository.policy.apply"),
    ("protection.snapshot_delete", "snapshot.delete"),
    ("protection.backup_config_reset", "snapshot.delete"),
    ("source.connection_probe", "nas.test"), ("storage.repository_health", "repo.status"),
    ("repository_create", "repo.initialize"), ("protection.backup_config", "repo.initialize")]

/-- The row is one of `_ACK_DURABLE_TASKS`. -/
def NodeTask.isAckDurable (task : NodeTask) : Bool :=
  (task.correlationType, task.kind) ∈ ackDurableTasks

inductive DeliveryProtocol where
  | ack
  | legacy
deriving DecidableEq, Repr

def DeliveryProtocol.text : DeliveryProtocol → String
  | .ack => "command_ack_v1"
  | .legacy => "legacy"

def selectedProtocol (result : Dict) : Option DeliveryProtocol :=
  let selected := (result.get deliveryProtocolKey).strOr
  if selected = DeliveryProtocol.ack.text then some .ack
  else if selected = DeliveryProtocol.legacy.text then some .legacy
  else none

/-- The row is neither accepted nor decided. -/
def NodeTask.isUnaccepted (task : NodeTask) : Bool :=
  task.status = .pending && task.acceptedAt = none

/-- `task_uses_command_ack`. `ackCapable` says that the Node lists
`task_command_ack_v1` among its capabilities. -/
def NodeTask.usesCommandAck (task : NodeTask) (ackCapable : Bool) : Bool :=
  task.isAckDurable &&
    match selectedProtocol task.result with
    | some protocol => protocol = .ack
    | none => (task.isUnaccepted && 0 < task.deliveryAttemptCount) || ackCapable

/-! ## Deadlines of the execution watchdog -/

section Deadlines

variable (conf : Settings)

def initialWatchdogDeadline (correlationType kind : String) (payload : Dict) (fromTime : Time) :
    Time :=
  let healthBudget := ((payload.get "health_timeout_seconds").int?).filter (0 < ·)
  if isRepositoryStatusTask correlationType kind && healthBudget.isSome then
    after fromTime (max conf.taskWatchdog (healthBudget.getD 0 + 60))
  else if isInsightSnapshotOperation correlationType kind then
    after fromTime (max 1 conf.insightSnapshotOperationWatchdog)
  else if isRestoreTask correlationType kind then after fromTime conf.restoreActivityLease
  else if isRepositoryInitializeTask correlationType kind then
    after fromTime (max 1 conf.repositoryInitializeWatchdog)
  else if correlationType = pathSizeCorrelationType && kind = "path.size" then
    after fromTime (max 1 conf.pathSizeWatchdog)
  else if isSourceNasProbe correlationType kind then
    after fromTime (max 1 conf.sourceNasProbeExecutionTimeout)
  else if correlationType ∈ ["source.connection_probe", "storage.repository_health"] then
    after fromTime (max 1 conf.automaticProbeWatchdog)
  else if correlationType ∈ ["protection.snapshot_delete", "protection.backup_config_reset"] &&
      kind = "snapshot.delete" then
    after fromTime (max 1 conf.snapshotDeleteWatchdog)
  else if correlationType = lifecycleCorrelationType then
    after fromTime conf.lifecycleDetachedTimeout
  else if isProtectionBackupTask correlationType kind ||
      (correlationType = "protection.backup.policy_prepare" && kind = "repository.policy.apply") then
    after fromTime conf.protectionBackupActivityLease
  else after fromTime conf.taskWatchdog

def NodeTask.initialDeadline (task : NodeTask) (fromTime : Time) : Time :=
  initialWatchdogDeadline conf task.correlationType task.kind task.payload fromTime

end Deadlines

end HyperFileLens.Node
