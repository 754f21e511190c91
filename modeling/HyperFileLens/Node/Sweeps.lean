import HyperFileLens.Node.Frames

/-!
# Control-plane writers on a row

Cancellation, the sweeps, the acceptance timeout and the delivery failure. The
sweeps collect ids first and then lock one row after the other with the filter of
the collection repeated. What happens to one row is modelled, at whatever time a
sweep gets to it.
-/

namespace HyperFileLens.Node

variable (conf : Settings)

section

variable (task : NodeTask)

def cancelTask (reason : String) (now : Instant) : NodeTask :=
  if !task.status.isActive then task
  else if task.status = .pending then
    { task with status := .canceled, lastError := clipError reason }
  else
    let requested := task.cancelRequestedAt.getD now
    { task with
      lastError := clipError reason
      cancelRequestedAt := some requested
      result := (task.result.set "cancel_requested" (.bool true)).set "cancel_requested_at"
        (.str requested.iso) }

/-- One row of `sweep_cancel_grace_expired`. -/
def sweepCancelGraceExpired (cutoff : Time) (now : Instant) : NodeTask :=
  match task.cancelRequestedAt with
  | some requested =>
    if task.status.isActive && requested.time ≤ cutoff then
      { task with
        status := .canceled
        result := task.result.update [("cancel_requested", .bool true),
          ("cancel_requested_at", .str requested.iso),
          ("cancel_finalized_by", .str "grace_timeout"),
          ("cancel_finalized_at", .str now.iso)] }
    else task
  | none => task

/-- What Redis knows about the last uplink frame of a task. -/
structure UplinkActivity where
  receivedAt : Time
  messageType : String

/-- The capabilities of the Node that the sweep reads. -/
structure Capabilities where
  commandAck : Bool
  downloadProgress : Bool

/-- The deadline a sweep defers a row to, while an uplink frame of it may still be
queued. -/
def projectionDeadline (activity : UplinkActivity) (caps : Capabilities)
    (now : Time) : Option Time :=
  let resultPending := mentions activity.messageType "result"
  let grace := if resultPending then conf.taskResultUplinkProjectionGrace
    else conf.taskUplinkProjectionGrace
  let age := max 0 (now - activity.receivedAt)
  let bounded := isSourceNasProbe task.correlationType task.kind ||
    isRepositoryInitializeTask task.correlationType task.kind
  if 0 < activity.receivedAt ∧ age < grace * 1000000 ∧ (bounded = false ∨ resultPending) ∧
      (usesUpgradeDownloadProgress task caps.downloadProgress = false ∨ resultPending) then
    some (after now (max 1 ((grace * 1000000 - age) / 1000000)))
  else none

/-- The row `sweep_watchdog_timeouts` times out. -/
def watchdogTimeout (activity : UplinkActivity) (caps : Capabilities) :
    NodeTask :=
  if mentions activity.messageType "result" then
    { task with
      status := .timeout
      result := task.result.set "diagnostic_error_code" (.str "RESULT_ACK_TIMEOUT")
      lastError := "result acknowledgement timeout" }
  else if usesUpgradeDownloadProgress task caps.downloadProgress &&
      (downloadSnapshot (asDict (task.result.get "last_progress"))).isSome then
    { task with
      status := .timeout
      result := task.result.set "diagnostic_error_code"
        (.str "AGENT_PACKAGE_DOWNLOAD_PROGRESS_TIMEOUT")
      lastError := "Agent package download stopped making progress" }
  else { task with status := .timeout, lastError := "watchdog timeout (no progress)" }

/-- One row of `sweep_watchdog_timeouts`. -/
def sweepWatchdogTimeouts (activity : UplinkActivity) (caps : Capabilities)
    (now : Time) : NodeTask :=
  if !task.status.isActive || now ≤ task.watchdogDeadlineAt then task
  else if task.hasDetachedMarker then task
  else if task.isUnaccepted &&
      (0 < task.deliveryAttemptCount || task.usesCommandAck caps.commandAck) then task
  else
    match projectionDeadline conf task activity caps now with
    | some deadline => { task with watchdogDeadlineAt := deadline }
    | none => watchdogTimeout task activity caps

def timeoutUnacceptedTask (errorCode message : String) : NodeTask :=
  if !task.isUnaccepted then task
  else
    { task with
      status := .timeout
      lastError := errorCode ++ ": " ++ message
      result := (task.result.pop deliveryProtocolKey).update
        [("diagnostic_error_code", .str errorCode), ("delivery_timeout_sealed", .bool true),
          ("delivery_attempt_count", .int task.deliveryAttemptCount)] }

/-- The `UPDATE` of `_fail_task_delivery`. The result it stores comes from the copy
of the row that the caller holds. -/
def failTaskDelivery (held : Dict) (reason : String) : NodeTask :=
  if !task.isUnaccepted then task
  else
    { task with
      status := .failed
      lastError := clipError reason
      result := (withoutDeliveryRuntimeState held).set "diagnostic_error_code"
        (.str (deliveryDiagnosticErrorCode reason)) }

end

end HyperFileLens.Node
