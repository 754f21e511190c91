import HyperFileLens.Node.Task

/-!
# Agent frames on a row

What `accept_task`, `record_task_progress` and `complete_task` make of a row, and
the uplink handlers that call them. Each of these runs under the lock of the row,
in one transaction.

*Results.*  `complete_task` marks the row it returns for the consumer of the
frame. `Completion` holds the row and these marks.

*Environment.*  `now` is the clock. `downloadCapable` says that the Node lists
`agent_upgrade_download_progress_v1` among its capabilities.
-/

namespace HyperFileLens.Node

variable (conf : Settings)

/-! ## Acceptance -/

def acceptTask (task : NodeTask) (now : Instant) : NodeTask :=
  if task.status.isTerminal then task
  else
    { task with
      status := .running
      acceptedAt := some (task.acceptedAt.getD now.time)
      lastProgressAt := some (task.lastProgressAt.getD now.time)
      watchdogDeadlineAt := task.initialDeadline conf now.time
      lastError := ""
      result := withoutDeliveryRuntimeState task.result }

/-! ## Progress -/

/-- The dictionary a value holds, if it is one. -/
def asDict : Json → Option Dict
  | .obj d => some d
  | _ => none

def substantiveBackupProgress (progress : Dict) : Bool :=
  let present := fun k => progress.get k ≠ .null && progress.get k ≠ .str ""
  let phase := if (progress.get "kopia_phase").truthy then progress.get "kopia_phase"
    else progress.get "phase"
  !progress.isEmpty &&
    (["hashed_bytes", "uploaded_bytes", "kopia_percent", "percent"].any present ||
      Text.lower (Text.strip phase.strOr) ∈ ["hashing", "uploading", "restoring",
        "snapshot_created", "restore_completed", "repository_ready", "snapshot_start",
        "kopia_snapshot", "kopia_transfer"])

def shouldApplyProgressUpdate (task : NodeTask) (incoming : Dict) (existing : Option Dict) : Bool :=
  if !isProtectionBackupTask task.correlationType task.kind then true
  else
    let outdated :=
      match (incoming.get "progress_sequence").int?,
        (existing.bind fun d => (d.get "progress_sequence").int?) with
      | some incomingSeq, some existingSeq =>
        0 < incomingSeq && 0 < existingSeq && incomingSeq ≤ existingSeq
      | _, _ => false
    if outdated then false
    else if substantiveBackupProgress incoming then true
    else !existing.any substantiveBackupProgress

def downloadSnapshot (progress : Option Dict) : Option Dict :=
  progress.bind fun d =>
    if (d.get "phase").strOr = "download" then asDict (d.get "download") else none

/-- `int(value or 0)`. -/
def intOr (value : Json) : Option Int :=
  match value with
  | .str s => if s = "" then some 0 else Text.parseInt s
  | .float x => some (Int.tdiv x.num x.den)
  | .arr xs => if xs.isEmpty then some 0 else none
  | .obj fields => if fields.isEmpty then some 0 else none
  | .null => some 0
  | v => v.int?

def downloadProgressAdvanced (incoming existing : Option Dict) : Bool :=
  match downloadSnapshot incoming, downloadSnapshot existing with
  | none, _ => false
  | some _, none => true
  | some current, some previous =>
    match intOr (current.get "downloaded_bytes"), intOr (previous.get "downloaded_bytes"),
      intOr (current.get "attempt"), intOr (previous.get "attempt") with
    | some currentBytes, some previousBytes, some currentAttempt, some previousAttempt =>
      currentBytes > previousBytes || currentAttempt > previousAttempt ||
        (current.get "state").strOr ≠ (previous.get "state").strOr
    | _, _, _, _ => false

section

variable (task : NodeTask)

def usesUpgradeDownloadProgress (downloadCapable : Bool) : Bool :=
  task.isLifecycleCorrelatedTask && task.kind = "agent.upgrade" &&
    ((downloadSnapshot (asDict (task.result.get "last_progress"))).isSome || downloadCapable)

def mergeProgressIntoResult (progress merged : Dict) (now : Instant) : Dict :=
  if !shouldApplyProgressUpdate task progress (asDict (merged.get "last_progress")) then merged
  else
    let merged := merged.set "last_progress" (.obj progress)
    if !isDetachedMode progress then merged
    else
      let merged := Dict.set merged "mode" (.str "local_detached")
      let target := Text.strip (progress.get "target_version").strOr
      let merged := if target ≠ "" then Dict.set merged "target_version" (.str target) else merged
      if (Dict.get merged "detached_at").truthy then merged
      else Dict.set merged "detached_at" (.str now.iso)

def applyDetachedRunningState (now : Instant) : NodeTask :=
  if !isDetachedMode task.result then task
  else
    { task with
      result :=
        if (task.result.get "detached_at").truthy then task.result
        else task.result.set "detached_at" (.str now.iso)
      watchdogDeadlineAt := after now.time conf.lifecycleDetachedTimeout
      lastProgressAt := some now.time }

/-- The call of `_apply_detached_running_state` on a row with the detached marker. -/
def applyDetachedMarker (now : Instant) : NodeTask :=
  if task.hasDetachedMarker then applyDetachedRunningState conf task now else task

@[simp] theorem status_applyDetachedMarker (now : Instant) :
    (applyDetachedMarker conf task now).status = task.status := by
  unfold applyDetachedMarker applyDetachedRunningState
  split
  · split <;> rfl
  · rfl

@[simp] theorem correlationType_applyDetachedMarker (now : Instant) :
    (applyDetachedMarker conf task now).correlationType = task.correlationType := by
  unfold applyDetachedMarker applyDetachedRunningState
  split
  · split <;> rfl
  · rfl

@[simp] theorem kind_applyDetachedMarker (now : Instant) :
    (applyDetachedMarker conf task now).kind = task.kind := by
  unfold applyDetachedMarker applyDetachedRunningState
  split
  · split <;> rfl
  · rfl

@[simp] theorem deliveryAttemptCount_applyDetachedMarker (now : Instant) :
    (applyDetachedMarker conf task now).deliveryAttemptCount = task.deliveryAttemptCount := by
  unfold applyDetachedMarker applyDetachedRunningState
  split
  · split <;> rfl
  · rfl

/-- The start of the execution, as far as the row knows it. -/
def NodeTask.startedAt : Time :=
  ((task.acceptedAt.or task.dispatchedAt).or task.lastProgressAt).getD task.createdAt

/-- The deadline `record_task_progress` stores. `task` is the row before the frame,
`accepted` its acceptance after the frame. -/
def progressDeadline (progress : Dict) (accepted now : Time)
    (downloadCapable : Bool) : Time :=
  if isRepositoryStatusTask task.correlationType task.kind &&
      (task.payload.get "health_timeout_seconds").truthy then
    task.initialDeadline conf accepted
  else if isProtectionBackupTask task.correlationType task.kind then
    after now conf.protectionBackupActivityLease
  else if isSourceNasProbe task.correlationType task.kind then
    after task.startedAt (max 1 conf.sourceNasProbeExecutionTimeout)
  else if isRepositoryInitializeTask task.correlationType task.kind then
    task.initialDeadline conf task.startedAt
  else if task.correlationType = pathSizeCorrelationType && task.kind = "path.size" then
    task.initialDeadline conf accepted
  else if isInsightSnapshotOperation task.correlationType task.kind then
    task.initialDeadline conf accepted
  else if usesUpgradeDownloadProgress task downloadCapable then
    if downloadProgressAdvanced (some progress) (asDict (task.result.get "last_progress")) then
      after now (max 1 conf.upgradeDownloadStallTimeout)
    else task.watchdogDeadlineAt
  else task.initialDeadline conf now

def recordTaskProgress (progress : Dict) (downloadCapable : Bool)
    (now : Instant) : NodeTask :=
  if !task.status.isActive then task
  else
    let accepted := task.acceptedAt.getD now.time
    let updated : NodeTask := { task with
      status := .running
      acceptedAt := some accepted
      lastProgressAt := some now.time
      result := withoutDeliveryRuntimeState task.result
      watchdogDeadlineAt := progressDeadline conf task progress accepted now.time downloadCapable }
    if progress.isEmpty then updated
    else
      let merged := mergeProgressIntoResult updated progress updated.result now
      applyDetachedMarker conf { updated with result := merged } now

end

/-! ## Results -/

def isSuccessWord (incoming : String) : Bool := incoming ∈ ["success", "succeeded", "ok"]

def isCancelWord (incoming : String) : Bool := incoming ∈ ["canceled", "cancelled"]

def incomingTerminalStatus (incoming : String) : Option Status :=
  if incoming = "running" then none
  else if isSuccessWord incoming then some .success
  else if isCancelWord incoming then some .canceled
  else some .failed

def terminalErrorMatches (task : NodeTask) (incoming error : String) : Bool :=
  if task.status = .success then task.lastError = "" && error = ""
  else if task.status = .canceled then
    Text.lower (Text.strip error) ∈ ["", "canceled", "cancelled"] ||
      task.lastError = clipError error
  else task.lastError = clipError (if error ≠ "" then error else incoming)

/-- `task.result.get(key)` in a condition. -/
def NodeTask.hasFlag (task : NodeTask) (key : String) : Bool := (task.result.get key).truthy

/-- What `complete_task` returns. -/
structure Completion where
  task : NodeTask
  retransmissionUnchanged : Bool
  lateResultIgnored : Bool

def Completion.plain (task : NodeTask) : Completion := ⟨task, false, false⟩

def namesSnapshot (result : Dict) : Bool :=
  let id := if (result.get "kopia_snapshot_id").truthy then result.get "kopia_snapshot_id"
    else result.get "snapshot_id"
  Text.strip id.strOr ≠ ""

/-- The executor of a cancelled managed restore proves that it has stopped. -/
def isExecutorStop (task : NodeTask) (incoming : String) (result : Dict) (error : String) : Bool :=
  task.status = .canceled && task.isManagedWorkspaceRestoreTask
    && result.get "executor_finished" = .bool true
    && result.get "completion_source" = .str "agent_executor"
    && (incomingTerminalStatus incoming = some .canceled ||
      (incomingTerminalStatus incoming = some .failed &&
        Text.lower (Text.strip error) ∈ ["canceled", "cancelled"]))

/-- `complete_task` from the assignment of the status on. -/
def storeResult (task : NodeTask) (incoming : String) (result incomingResult : Dict)
    (error : String) (replaceResult : Bool) (now : Instant) : NodeTask :=
  if incoming = "running" then
    let merged := if replaceResult then result
      else (withoutDeliveryRuntimeState task.result).update result
    applyDetachedMarker conf { task with
      status := .running
      acceptedAt := some (task.acceptedAt.getD now.time)
      result := merged
      lastError := if error ≠ "" then clipError error else task.lastError } now
  else
    let stored := if incomingResult.isEmpty then withoutDeliveryRuntimeState task.result
      else incomingResult
    { task with
      acceptedAt := some (task.acceptedAt.getD now.time)
      status := if isSuccessWord incoming then .success
        else if isCancelWord incoming then .canceled else .failed
      lastError := if isSuccessWord incoming then ""
        else if isCancelWord incoming then task.lastError
        else clipError (if error ≠ "" then error else incoming)
      result := if task.isLifecycleCorrelatedTask && isLifecycleKind task.kind then
          stored.set "lifecycle_terminal_sealed" (.bool true)
        else stored }

/-- `complete_task` once the proof of a stopped executor is taken into account. -/
def commitResult (task : NodeTask) (incoming : String) (result incomingResult : Dict)
    (error : String) (replaceResult : Bool) (now : Instant) : Completion :=
  let failedOrTimeout := task.status = .failed || task.status = .timeout
  let terminal := incomingTerminalStatus incoming
  let sealed := task.isLifecycleCorrelatedTask && task.hasFlag "lifecycle_terminal_sealed"
  if sealed && task.status = .success && terminal = some .success then ⟨task, true, false⟩
  else if sealed && failedOrTimeout && terminal = some .failed then ⟨task, true, false⟩
  else if task.isLifecycleCorrelatedTask && isLifecycleKind task.kind && failedOrTimeout &&
      terminal = some .success && task.hasDetachedMarker then
    let late := .obj [("received_at", .str now.iso), ("status", .str incoming),
      ("result", .obj incomingResult)]
    ⟨{ task with result := task.result.set "late_result" late }, false, true⟩
  else if terminal = some task.status && (Json.obj task.result).pyEq (.obj incomingResult) &&
      terminalErrorMatches task incoming error then
    ⟨task, true, false⟩
  else if task.status.isTerminal && (task.hasFlag "delivery_timeout_sealed" ||
      (task.status = .success && !isSuccessWord incoming) ||
      (task.status = .canceled && !isCancelWord incoming)) then
    .plain task
  else .plain (storeResult conf task incoming result incomingResult error replaceResult now)

def completeTask (task : NodeTask) (status : String) (result : Dict) (error : String)
    (replaceResult : Bool) (now : Instant) : Completion :=
  let incoming := Text.lower status
  if (task.status = .failed || task.status = .timeout) && isSuccessWord incoming &&
      isProtectionBackupTask task.correlationType task.kind && !namesSnapshot result then
    .plain task
  else if isExecutorStop task incoming result error then
    commitResult conf task "canceled" result (task.result.update result) error replaceResult now
  else commitResult conf task incoming result result error replaceResult now

/-! ### What a result does to a row -/

section Results

variable {conf : Settings} {task : NodeTask}

/-- The row may take a result: it is active, or terminal in a way the result does
not contradict. -/
def NodeTask.Admits (task : NodeTask) (incoming : String) : Prop :=
  task.status.isActive = true ∨ (task.hasFlag "delivery_timeout_sealed" = false ∧
    (task.status = .success → isSuccessWord incoming = true) ∧
    (task.status = .canceled → isCancelWord incoming = true))

variable {incoming : String}

/-- What a result does to a row: nothing, or it is kept as the late result of a
failed lifecycle task, or it is stored. -/
theorem commitResult_cases (conf : Settings) (task : NodeTask) (incoming : String)
    (result incomingResult : Dict) (error : String) (replaceResult : Bool) (now : Instant) :
    (commitResult conf task incoming result incomingResult error replaceResult now).task = task ∨
    ((task.status = .failed ∨ task.status = .timeout) ∧ ∃ late,
      (commitResult conf task incoming result incomingResult error replaceResult now).task =
        { task with result := task.result.set "late_result" late }) ∨
    (task.Admits incoming ∧
      (commitResult conf task incoming result incomingResult error replaceResult now).task =
        storeResult conf task incoming result incomingResult error replaceResult now) := by
  unfold commitResult
  dsimp only
  split
  · exact Or.inl rfl
  split
  · exact Or.inl rfl
  split
  next hlate =>
    refine Or.inr (Or.inl ⟨?_, _, rfl⟩)
    simp only [Bool.and_eq_true, Bool.or_eq_true, decide_eq_true_eq] at hlate
    exact hlate.1.1.2
  split
  · exact Or.inl rfl
  split
  · exact Or.inl rfl
  next hopen =>
    refine Or.inr (Or.inr ⟨?_, rfl⟩)
    cases hactive : task.status.isActive with
    | true => exact Or.inl hactive
    | false =>
      simp only [Status.isTerminal_eq, hactive, Bool.not_false, Bool.true_and, Bool.or_eq_true,
        Bool.and_eq_true, decide_eq_true_eq, not_or, not_and] at hopen
      refine Or.inr ⟨by simpa using hopen.1.1, fun hst => ?_, fun hst => ?_⟩
      · simpa using hopen.1.2 hst
      · simpa using hopen.2 hst

/-- `complete_task` ignores the result or commits it, as reported or as a proof of
a stopped executor. -/
theorem completeTask_cases (conf : Settings) (task : NodeTask) (status : String) (result : Dict)
    (error : String) (replaceResult : Bool) (now : Instant) :
    completeTask conf task status result error replaceResult now = .plain task ∨
    ∃ incoming incomingResult, (incoming = Text.lower status ∨ incoming = "canceled") ∧
      completeTask conf task status result error replaceResult now =
        commitResult conf task incoming result incomingResult error replaceResult now := by
  unfold completeTask
  dsimp only
  split
  · exact Or.inl rfl
  split
  · exact Or.inr ⟨_, _, Or.inr rfl, rfl⟩
  · exact Or.inr ⟨_, _, Or.inl rfl, rfl⟩

theorem isSuccessWord_ne_running (h : isSuccessWord incoming = true) : incoming ≠ "running" := by
  rintro rfl
  exact absurd h (by decide)

theorem isCancelWord_ne_running (h : isCancelWord incoming = true) : incoming ≠ "running" := by
  rintro rfl
  exact absurd h (by decide)

theorem isCancelWord_not_success (h : isCancelWord incoming = true) :
    isSuccessWord incoming = false := by
  simp only [isCancelWord, List.mem_cons, List.not_mem_nil, or_false, decide_eq_true_eq] at h
  rcases h with rfl | rfl <;> decide

/-- A result other than `running` decides the row. -/
theorem status_storeResult (conf : Settings) (task : NodeTask) (h : incoming ≠ "running")
    (result incomingResult : Dict) (error : String) (replaceResult : Bool) (now : Instant) :
    (storeResult conf task incoming result incomingResult error replaceResult now).status =
      if isSuccessWord incoming then .success
      else if isCancelWord incoming then .canceled else .failed := by
  rw [storeResult, if_neg h]

theorem hasFlag_set_late_result (late : Json) :
    ({ task with result := task.result.set "late_result" late } : NodeTask).hasFlag
      "delivery_timeout_sealed" = task.hasFlag "delivery_timeout_sealed" := by
  rw [NodeTask.hasFlag, Dict.get_set_of_ne _ _ (by decide)]
  rfl

/-- A result of `running` sets the row running. -/
theorem status_storeResult_running (result incomingResult : Dict) (error : String)
    (replaceResult : Bool) (now : Instant) :
    (storeResult conf task "running" result incomingResult error replaceResult now).status =
      .running := by
  rw [storeResult, if_pos rfl, status_applyDetachedMarker]

/-- A result of `running` is stored unless the row was cancelled, was successful or
timed out in delivery. -/
theorem completeTask_running {status : String} (h : Text.lower status = "running")
    (result : Dict) (error : String) (replaceResult : Bool) (now : Instant) :
    (completeTask conf task status result error replaceResult now).task =
      if task.status.isTerminal && (task.hasFlag "delivery_timeout_sealed" ||
          task.status = .success || task.status = .canceled) then task
      else storeResult conf task "running" result result error replaceResult now := by
  have hterminal : incomingTerminalStatus "running" = none := rfl
  have hsuccess : isSuccessWord "running" = false := by decide
  have hcancel : isCancelWord "running" = false := by decide
  simp only [completeTask, h, hsuccess, isExecutorStop, hterminal, commitResult, hcancel]
  simp only [Bool.and_false, Bool.false_and, reduceCtorEq, decide_false, Bool.or_false,
    Bool.false_eq_true, if_false, Bool.not_false, Bool.and_true]
  split <;> rfl

theorem correlationType_storeResult (incoming : String) (result incomingResult : Dict)
    (error : String) (replaceResult : Bool) (now : Instant) :
    (storeResult conf task incoming result incomingResult error replaceResult
      now).correlationType = task.correlationType := by
  unfold storeResult
  split
  · rw [correlationType_applyDetachedMarker]
  · rfl

theorem correlationType_completeTask (status : String) (result : Dict) (error : String)
    (replaceResult : Bool) (now : Instant) :
    (completeTask conf task status result error replaceResult now).task.correlationType =
      task.correlationType := by
  rcases completeTask_cases conf task status result error replaceResult now with
    heq | ⟨incoming, incomingResult, -, heq⟩
  · rw [heq]
    rfl
  · rw [heq]
    rcases commitResult_cases conf task incoming result incomingResult error replaceResult now with
      hc | ⟨-, late, hc⟩ | ⟨-, hc⟩
    · rw [hc]
    · rw [hc]
    · rw [hc, correlationType_storeResult]

end Results

/-! ## Uplink handlers -/

/-- A `task.result` frame, as `parse_uplink` leaves it. -/
structure ResultFrame where
  status : String
  result : Dict
  error : String

/-- `message.status or "success"`. -/
def ResultFrame.reportedStatus (message : ResultFrame) : String :=
  if message.status = "" then "success" else message.status

section

variable (task : NodeTask)

/-- The result `_handle_task_result` passes on. -/
def uplinkResult (message : ResultFrame) (now : Instant) : Dict :=
  let incoming := Text.lower message.reportedStatus
  let received := ("host_result_received_at", Json.str now.iso)
  if !(task.kind = "agent.upgrade" && task.isLifecycleCorrelatedTask) then message.result
  else if isSuccessWord incoming then
    (task.result.update message.result).update [("host_upgrade_status", .str "success"), received]
  else if incoming ≠ "running" && !isCancelWord incoming then
    (task.result.update message.result).update [("host_upgrade_status", .str "failed"),
      ("failure_code", .str "HOST_UPGRADE_FAILED"),
      ("host_error", .str (if message.error ≠ "" then message.error else incoming)), received]
  else message.result

/-- `detached_mode == "local_detached"` in `_handle_task_result`. -/
def reportsDetachedMode (incomingResult : Dict) : Bool :=
  let progressMode :=
    match task.result.get "last_progress" with
    | .obj progress => Dict.get progress "mode"
    | _ => .str ""
  let mode := if (incomingResult.get "mode").truthy then incomingResult.get "mode"
    else if (task.result.get "mode").truthy then task.result.get "mode" else progressMode
  Text.strip mode.strOr = "local_detached"

/-- The status `_handle_task_result` passes on. -/
def uplinkStatus (message : ResultFrame) (now : Instant) : String :=
  if task.kind = "agent.upgrade" && task.isLifecycleCorrelatedTask && task.status.isActive &&
      isSuccessWord (Text.lower message.reportedStatus) &&
      reportsDetachedMode task (uplinkResult task message now) then
    "running"
  else message.reportedStatus

def handleTaskResult (message : ResultFrame) (now : Instant) : Completion :=
  let done := completeTask conf task (uplinkStatus task message now)
    (uplinkResult task message now) message.error false now
  if task.kind = "agent.upgrade" && task.isLifecycleCorrelatedTask && done.task.status = .failed &&
      !done.task.hasFlag "lifecycle_failure_audited" then
    { done with task := { done.task with
        result := done.task.result.set "lifecycle_failure_audited" (.bool true) } }
  else done

/-- `reattach_backup_node_task`. `withinGrace` says that the last write of the row
is within `PROTECTION_BACKUP_REATTACH_GRACE_SECONDS`. -/
def reattachBackupNodeTask (withinGrace : Bool) (now : Instant) : NodeTask :=
  if isProtectionBackupTask task.correlationType task.kind && task.status = .timeout && withinGrace
  then
    { task with
      status := .running
      lastError := ""
      watchdogDeadlineAt := after now.time conf.protectionBackupActivityLease }
  else task

def handleTaskProgress (progress : Dict) (downloadCapable withinGrace : Bool)
    (now : Instant) : NodeTask :=
  reattachBackupNodeTask conf (recordTaskProgress conf task progress downloadCapable now)
    withinGrace now

end

end HyperFileLens.Node
