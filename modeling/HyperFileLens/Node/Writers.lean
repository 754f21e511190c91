import HyperFileLens.Library.Transition
import HyperFileLens.Node.Sweeps

/-!
# The writers of a row

The eight functions that change the state of a row, with their arguments, as one
type of labels. Each of them locks the row, or is one guarded `UPDATE`.

What matters to delivery is said here once: no writer brings a row back to where a
command may be sent, and none touches the attempt count.
-/

namespace HyperFileLens.Node

/-! ## Writers -/

inductive Writer where
  | accept (nodeId : Nat) (now : Instant)
  | progress (nodeId : Nat) (progress : Dict) (downloadCapable : Bool) (now : Instant)
  | complete (nodeId : Nat) (status : String) (result : Dict) (error : String)
      (replaceResult : Bool) (now : Instant)
  | cancel (reason : String) (now : Instant)
  | sweepCancelGrace (cutoff : Time) (now : Instant)
  | sweepWatchdog (activity : UplinkActivity) (caps : Capabilities) (now : Time)
  | timeoutUnaccepted (errorCode message : String)
  | failDelivery (held : Dict) (reason : String)

/-- The row after a writer. A frame of a Node that does not own the row is a
`LookupError`. -/
def NodeTask.write (conf : Settings) (task : NodeTask) : Writer → Option NodeTask
  | .accept nodeId now => if nodeId = task.nodeId then some (acceptTask conf task now) else none
  | .progress nodeId progress downloadCapable now =>
    if nodeId = task.nodeId then some (recordTaskProgress conf task progress downloadCapable now)
    else none
  | .complete nodeId status result error replaceResult now =>
    if nodeId = task.nodeId then
      some (completeTask conf task status result error replaceResult now).task
    else none
  | .cancel reason now => some (cancelTask task reason now)
  | .sweepCancelGrace cutoff now => some (sweepCancelGraceExpired task cutoff now)
  | .sweepWatchdog activity caps now => some (sweepWatchdogTimeouts conf task activity caps now)
  | .timeoutUnaccepted errorCode message => some (timeoutUnacceptedTask task errorCode message)
  | .failDelivery held reason => some (failTaskDelivery task held reason)

/-- The row that `create_agent_task` inserts. -/
structure NodeTask.Created (task : NodeTask) : Prop where
  status : task.status = .pending
  result : task.result = []
  dispatchedAt : task.dispatchedAt = none
  acceptedAt : task.acceptedAt = none
  lastDeliveryAt : task.lastDeliveryAt = none
  deliveryAttemptCount : task.deliveryAttemptCount = 0
  lastProgressAt : task.lastProgressAt = none
  cancelRequestedAt : task.cancelRequestedAt = none
  lastError : task.lastError = ""

def rowSystem (conf : Settings) : Transition.System NodeTask Writer where
  init := NodeTask.Created
  step := NodeTask.write conf

def createdBackup : NodeTask where
  nodeId := 7
  correlationType := "protection.backup"
  correlationId := "42"
  kind := "backup.run"
  payload := []
  result := []
  status := .pending
  createdAt := 0
  dispatchedAt := none
  acceptedAt := none
  lastDeliveryAt := none
  deliveryAttemptCount := 0
  lastProgressAt := none
  cancelRequestedAt := none
  watchdogDeadlineAt := 300000000
  lastError := ""

/-! ## What a writer leaves to delivery -/

/-- A write that leaves the row pending leaves everything delivery looks at. -/
structure NodeTask.Keeps (task task' : NodeTask) : Prop where
  pending : task'.status = .pending →
    task.status = .pending ∧ task'.acceptedAt = task.acceptedAt ∧ task'.result = task.result
  count : task'.deliveryAttemptCount = task.deliveryAttemptCount
  correlationType : task'.correlationType = task.correlationType
  kind : task'.kind = task.kind

namespace NodeTask.Keeps

variable {conf : Settings} {task : NodeTask}

theorem refl (task : NodeTask) : task.Keeps task := ⟨fun h => ⟨h, rfl, rfl⟩, rfl, rfl, rfl⟩

theorem of_status {task' : NodeTask} (hst : task'.status ≠ .pending)
    (hcount : task'.deliveryAttemptCount = task.deliveryAttemptCount)
    (hcorrelation : task'.correlationType = task.correlationType) (hkind : task'.kind = task.kind) :
    task.Keeps task' :=
  ⟨fun h => absurd h hst, hcount, hcorrelation, hkind⟩

theorem acceptTask (now : Instant) : task.Keeps (acceptTask conf task now) := by
  unfold Node.acceptTask
  split
  · exact .refl task
  · exact .of_status (by simp) rfl rfl rfl

theorem recordTaskProgress (progress : Dict) (downloadCapable : Bool) (now : Instant) :
    task.Keeps (recordTaskProgress conf task progress downloadCapable now) := by
  unfold Node.recordTaskProgress
  dsimp only
  split
  · exact .refl task
  split
  · exact .of_status (by simp) rfl rfl rfl
  · exact .of_status (by simp) (by simp) (by simp) (by simp)

theorem storeResult (incoming : String) (result incomingResult : Dict) (error : String)
    (replaceResult : Bool) (now : Instant) :
    task.Keeps (storeResult conf task incoming result incomingResult error replaceResult now) := by
  unfold Node.storeResult
  split
  · exact .of_status (by simp) (by simp) (by simp) (by simp)
  · refine .of_status ?_ rfl rfl rfl
    dsimp only
    split
    · simp
    · split <;> simp

theorem completeTask (status : String) (result : Dict) (error : String) (replaceResult : Bool)
    (now : Instant) :
    task.Keeps (completeTask conf task status result error replaceResult now).task := by
  rcases completeTask_cases conf task status result error replaceResult now with
    heq | ⟨incoming, incomingResult, -, heq⟩
  · rw [heq]
    exact .refl task
  · rw [heq]
    rcases commitResult_cases conf task incoming result incomingResult error replaceResult now with
      hc | ⟨hst, late, hc⟩ | ⟨-, hc⟩
    · rw [hc]
      exact .refl task
    · rw [hc]
      refine .of_status ?_ rfl rfl rfl
      rcases hst with hst | hst <;> simp [hst]
    · rw [hc]
      exact .storeResult incoming result incomingResult error replaceResult now

theorem cancelTask (reason : String) (now : Instant) : task.Keeps (cancelTask task reason now) := by
  unfold Node.cancelTask
  split
  · exact .refl task
  split
  · exact .of_status (by simp) rfl rfl rfl
  · exact .of_status ‹_› rfl rfl rfl

theorem sweepCancelGraceExpired (cutoff : Time) (now : Instant) :
    task.Keeps (sweepCancelGraceExpired task cutoff now) := by
  unfold Node.sweepCancelGraceExpired
  split
  · split
    · exact .of_status (by simp) rfl rfl rfl
    · exact .refl task
  · exact .refl task

theorem sweepWatchdogTimeouts (activity : UplinkActivity) (caps : Capabilities) (now : Time) :
    task.Keeps (sweepWatchdogTimeouts conf task activity caps now) := by
  unfold Node.sweepWatchdogTimeouts
  split
  · exact .refl task
  split
  · exact .refl task
  split
  · exact .refl task
  split
  · exact ⟨fun h => ⟨h, rfl, rfl⟩, rfl, rfl, rfl⟩
  · unfold watchdogTimeout
    split
    · exact .of_status (by simp) rfl rfl rfl
    · split
      · exact .of_status (by simp) rfl rfl rfl
      · exact .of_status (by simp) rfl rfl rfl

theorem timeoutUnacceptedTask (errorCode message : String) :
    task.Keeps (timeoutUnacceptedTask task errorCode message) := by
  unfold Node.timeoutUnacceptedTask
  split
  · exact .refl task
  · exact .of_status (by simp) rfl rfl rfl

theorem failTaskDelivery (held : Dict) (reason : String) :
    task.Keeps (failTaskDelivery task held reason) := by
  unfold Node.failTaskDelivery
  split
  · exact .refl task
  · exact .of_status (by simp) rfl rfl rfl

theorem write {task' : NodeTask} {w : Writer} (hw : task.write conf w = some task') :
    task.Keeps task' := by
  cases w with
  | accept nodeId now =>
    simp only [NodeTask.write] at hw
    split at hw
    · exact Option.some.inj hw ▸ .acceptTask now
    · simp at hw
  | progress nodeId progress downloadCapable now =>
    simp only [NodeTask.write] at hw
    split at hw
    · exact Option.some.inj hw ▸ .recordTaskProgress progress downloadCapable now
    · simp at hw
  | complete nodeId status result error replaceResult now =>
    simp only [NodeTask.write] at hw
    split at hw
    · exact Option.some.inj hw ▸ .completeTask status result error replaceResult now
    · simp at hw
  | cancel reason now => exact Option.some.inj hw ▸ .cancelTask reason now
  | sweepCancelGrace cutoff now =>
    exact Option.some.inj hw ▸ .sweepCancelGraceExpired cutoff now
  | sweepWatchdog activity caps now =>
    exact Option.some.inj hw ▸ .sweepWatchdogTimeouts activity caps now
  | timeoutUnaccepted errorCode message =>
    exact Option.some.inj hw ▸ .timeoutUnacceptedTask errorCode message
  | failDelivery held reason => exact Option.some.inj hw ▸ .failTaskDelivery held reason

end NodeTask.Keeps

end HyperFileLens.Node
