import HyperFileLens.Node.UpgradeFrames

/-!
# Completion of detached uninstalls

The functions of `uninstall_completion.py` and `node_lifecycle.py` that end a detached uninstall:
the callback with its one-time token, the watchdog for a callback that does not come, and the
payload that says that the server records are to be cleaned up.

*Callback.*  `complete_detached_uninstall` locks the row. Its token is taken by its digest.

*Watchdog.*  `_fail_stale_remove_task` looks at a row that was read before, and completes the
row as it is then.
-/

namespace HyperFileLens.Node

variable (conf : Settings)

/-! ## Functions -/

/-- The first `n` characters of a text. -/
def clip (n : Nat) (text : String) : String := String.ofList (text.toList.take n)

/-- `str(value or default)`. -/
def strOrElse (value : Json) (default : String) : String :=
  if value.truthy then value.strOr else default

/-- A failure of a callback, as it is kept. What is no dictionary is left out. -/
def keptFailure : Json → Option (String × String)
  | .obj item =>
    some (clip 100 (strOrElse (Dict.get item "code") "cleanup_failed"),
      clip 2000 (strOrElse (Dict.get item "detail") "Cleanup failed."))
  | _ => none

/-- `str(value)`. Floats and containers have a text that no comparison here looks at. -/
def strText : Json → String
  | .str s => s
  | .null => "None"
  | .bool false => "False"
  | .int n => toString n
  | value => if value.truthy then value.strOr else "<value>"

/-- A retained resource, as it is kept. A blank text is left out. -/
def keptResource (item : Json) : Option String :=
  if Text.strip (strText item) = "" then none else some (clip 1000 (strText item))

/-- What `complete_detached_uninstall` is called with. -/
structure UninstallReport where
  tokenDigest : String
  cleanupComplete : Bool
  cleanupFailures : List Json
  retainedResources : List Json

def UninstallReport.failures (report : UninstallReport) : List (String × String) :=
  (report.cleanupFailures.take 100).filterMap keptFailure

def UninstallReport.retained (report : UninstallReport) : List String :=
  (report.retainedResources.take 100).filterMap keptResource

/-- `effective_cleanup_complete`. -/
def UninstallReport.effective (report : UninstallReport) : Bool :=
  report.cleanupComplete && report.failures.isEmpty && report.retained.isEmpty

def NodeTask.forceCleanup (task : NodeTask) : Bool := (task.payload.get "force_cleanup").truthy

/-- `int(payload.get("source_unregister_task_id") or 0)`, unless it raises. -/
def NodeTask.sourceUnregisterTaskId (task : NodeTask) : Option Int :=
  intOr (task.payload.get "source_unregister_task_id")

def NodeTask.takesToken (task : NodeTask) (tokenDigest : String) : Bool :=
  match task.payload.get "completion" with
  | .obj completion => (Dict.get completion "token_digest").strOr = tokenDigest
  | _ => false

/-- The payload of the row once its token is used. -/
def usedPayload (task : NodeTask) (now : Instant) : Dict :=
  let completion := (task.payload.get "completion").fields
  task.payload.set "completion"
    (.obj (Dict.set (completion.pop "token") "used_at" (.str now.iso)))

def uninstallOutcome (complete force : Bool) : String :=
  if complete then "cleanup_success" else if force then "force_cleanup_success"
  else "cleanup_failed"

def reportedResult (task : NodeTask) (report : UninstallReport) (now : Instant) : Dict :=
  (task.result.pop "completion_timed_out_at").update
    [("mode", .str "local_detached"),
      ("completion_received_at", .str now.iso),
      ("cleanup_complete", .bool report.effective),
      ("cleanup_failures", .arr (report.failures.map fun failure =>
        .obj [("code", .str failure.1), ("detail", .str failure.2)])),
      ("retained_resources", .arr (report.retained.map .str)),
      ("force", .bool task.forceCleanup),
      ("outcome", .str (uninstallOutcome report.effective task.forceCleanup))]

def UninstallReport.error (report : UninstallReport) : String :=
  if report.effective then ""
  else
    let detail := clip 2000 ("; ".intercalate (report.failures.map fun failure =>
      if failure.2 ≠ "" then failure.2
      else if failure.1 ≠ "" then failure.1 else "cleanup failed"))
    if detail = "" then "Detached uninstall reported incomplete cleanup." else detail

/-- The report of a callback is taken: none has come before, and its token is the one of the
row. -/
def NodeTask.takesReport (task : NodeTask) (report : UninstallReport) : Bool :=
  task.kind = "agent.uninstall" && !(task.result.get "completion_received_at").truthy &&
    task.takesToken report.tokenDigest

/-- `complete_detached_uninstall` for the row that the token is signed for. -/
def completeDetachedUninstall (task : NodeTask) (report : UninstallReport) (now : Instant) :
    NodeTask :=
  if !task.takesReport report then task
  else
    let status := if report.effective || task.forceCleanup then "success" else "failed"
    (completeTask conf { task with payload := usedPayload task now } status
      (reportedResult task report now) report.error true now).task

/-- `_fail_stale_remove_task` ends an uninstall. `timedOut` says that the time since it detached
is over. -/
def failsStaleRemove (snapshot : NodeTask) (timedOut : Bool) : Bool :=
  snapshot.kind = "agent.uninstall" && snapshot.status = .running &&
    snapshot.isDetachedLifecycleTask && timedOut

/-- The result of an uninstall without a callback. -/
def timedOutResult (gateway : Bool) (snapshot : NodeTask) (now : Instant) : Dict :=
  snapshot.result.update
    [("mode", .str "local_detached"),
      ("completion_timed_out_at", .str now.iso),
      ("cleanup_complete", .bool false),
      ("cleanup_failures", .arr [.obj [("code", .str "completion_callback_timeout"),
        ("detail", .str "Detached uninstall did not report a terminal cleanup result.")]]),
      ("retained_resources", .arr (.str "unverified_agent_installation" ::
        if gateway then [.str "unverified_lensnode_sidecar"] else [])),
      ("force", .bool snapshot.forceCleanup),
      ("outcome", .str (uninstallOutcome false snapshot.forceCleanup))]

/-- The call of `complete_task` in `_fail_stale_remove_task`. -/
def failStaleRemoveTask (gateway : Bool) (snapshot task : NodeTask) (now : Instant) : NodeTask :=
  (completeTask conf task (if snapshot.forceCleanup then "success" else "failed")
    (timedOutResult gateway snapshot now) "Uninstall timed out waiting for its completion callback."
    true now).task

def isCompletedResult (result : Dict) : Bool :=
  (result.get "completion_received_at").truthy || (result.get "completion_timed_out_at").truthy

/-- The result of the row says that the uninstall is over. -/
def NodeTask.isCompleted (task : NodeTask) : Bool := isCompletedResult task.result

/-- The state of `_remove_lifecycle_payload` is `cleaning_up`. -/
def NodeTask.isCleaningUp (task : NodeTask) : Bool := task.status = .success && task.isCompleted

end HyperFileLens.Node
