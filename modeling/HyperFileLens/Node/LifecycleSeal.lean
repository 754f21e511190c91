import HyperFileLens.Library.Transition
import HyperFileLens.Node.Frames

/-!
# Sealed lifecycle failures

When the frames of an Agent leave a sealed failure of an upgrade or an uninstall
alone.

*The gap.*  A repeated failure and a late success of such a row are held back by
`complete_task`, and the comment there says that a failure is never resurrected.
A result that reports `running` passes all of these branches: the uplink handler
passes the status through, and `running` has no terminal status to compare. It is
stored, and the row runs again.
-/

namespace HyperFileLens.Node

open Transition

variable {conf : Settings} {task : NodeTask}

/-! ## Frames -/

/-- A frame of the Node that owns the row. -/
inductive UplinkFrame where
  | accepted (now : Instant)
  | progress (progress : Dict) (downloadCapable withinGrace : Bool) (now : Instant)
  | result (message : ResultFrame) (now : Instant)

def NodeTask.receive (conf : Settings) (task : NodeTask) : UplinkFrame → NodeTask
  | .accepted now => acceptTask conf task now
  | .progress progress downloadCapable withinGrace now =>
    handleTaskProgress conf task progress downloadCapable withinGrace now
  | .result message now => (handleTaskResult conf task message now).task

def uplinkSystem (conf : Settings) : Transition.System NodeTask UplinkFrame where
  init := fun _ => True
  step := fun task frame => some (task.receive conf frame)

/-- An upgrade or uninstall row that failed or timed out, with the lifecycle seal. -/
structure NodeTask.IsLifecycleSealed (task : NodeTask) : Prop where
  correlated : task.isLifecycleCorrelatedTask = true
  kind : isLifecycleKind task.kind = true
  status : task.status = .failed ∨ task.status = .timeout
  sealed : task.hasFlag "lifecycle_terminal_sealed" = true

/-- The frame does not report `running` to a row that failed or timed out, unless
that was sealed as a delivery timeout. -/
def KeepsSeal (task : NodeTask) : UplinkFrame → Prop
  | .result message _ =>
    Text.lower message.reportedStatus = "running" →
      task.status = .failed ∨ task.status = .timeout →
        task.hasFlag "delivery_timeout_sealed" = true
  | _ => True

structure NodeTask.IsDecidedLifecycle (task : NodeTask) : Prop where
  correlated : task.isLifecycleCorrelatedTask = true
  terminal : task.status.isTerminal = true

/-! ## One frame -/

theorem NodeTask.IsDecidedLifecycle.not_backup (h : task.IsDecidedLifecycle) :
    isProtectionBackupTask task.correlationType task.kind = false := by
  have hcorrelation : task.correlationType = lifecycleCorrelationType := by
    simpa [NodeTask.isLifecycleCorrelatedTask] using h.correlated
  rw [isProtectionBackupTask, hcorrelation]
  rfl

theorem NodeTask.IsDecidedLifecycle.not_active (h : task.IsDecidedLifecycle) :
    task.status.isActive = false := by
  simpa using h.terminal

theorem NodeTask.IsDecidedLifecycle.acceptTask (h : task.IsDecidedLifecycle) (now : Instant) :
    acceptTask conf task now = task := by
  rw [Node.acceptTask, if_pos h.terminal]

theorem NodeTask.IsDecidedLifecycle.handleTaskProgress (h : task.IsDecidedLifecycle)
    (progress : Dict) (downloadCapable withinGrace : Bool) (now : Instant) :
    handleTaskProgress conf task progress downloadCapable withinGrace now = task := by
  have hrecord : recordTaskProgress conf task progress downloadCapable now = task := by
    simp [recordTaskProgress, h.not_active]
  rw [Node.handleTaskProgress, hrecord, reattachBackupNodeTask, h.not_backup]
  rfl

theorem handleTaskResult_eq (conf : Settings) (task : NodeTask) (message : ResultFrame)
    (now : Instant) : ∃ result, (handleTaskResult conf task message now).task =
      { (completeTask conf task (uplinkStatus task message now) (uplinkResult task message now)
        message.error false now).task with result := result } := by
  unfold handleTaskResult
  dsimp only
  split
  · exact ⟨_, rfl⟩
  · exact ⟨_, rfl⟩

section

variable (h : task.IsDecidedLifecycle)

include h

theorem NodeTask.IsDecidedLifecycle.uplinkStatus (message : ResultFrame) (now : Instant) :
    uplinkStatus task message now = message.reportedStatus := by
  simp [Node.uplinkStatus, h.not_active]

/-- A result other than `running` leaves a decided row decided. -/
theorem NodeTask.IsDecidedLifecycle.completeTask_terminal
    {status : String} (hstatus : Text.lower status ≠ "running") (result : Dict) (error : String)
    (replaceResult : Bool) (now : Instant) :
    (completeTask conf task status result error replaceResult now).task.status.isTerminal =
      true := by
  rcases completeTask_cases conf task status result error replaceResult now with
    heq | ⟨incoming, incomingResult, hincoming, heq⟩
  · rw [heq]
    exact h.terminal
  · have hne : incoming ≠ "running" := by
      rcases hincoming with rfl | rfl
      · exact hstatus
      · decide
    rw [heq]
    rcases commitResult_cases conf task incoming result incomingResult error replaceResult now with
      hc | ⟨-, late, hc⟩ | ⟨-, hc⟩
    · rw [hc]
      exact h.terminal
    · rw [hc]
      exact h.terminal
    · rw [hc, status_storeResult _ _ hne]
      split
      · rfl
      · split <;> rfl

/-- A result of `running` leaves a decided row decided exactly when the condition
holds. -/
theorem NodeTask.IsDecidedLifecycle.completeTask_running
    {status : String} (hstatus : Text.lower status = "running") (result : Dict) (error : String)
    (replaceResult : Bool) (now : Instant) :
    (completeTask conf task status result error replaceResult now).task.status.isTerminal = true ↔
      (task.status = .failed ∨ task.status = .timeout →
        task.hasFlag "delivery_timeout_sealed" = true) := by
  rw [Node.completeTask_running hstatus, h.terminal]
  split
  next hkeep =>
    refine iff_of_true h.terminal fun hst => ?_
    rcases hst with hst | hst <;> simpa [hst] using hkeep
  next hopen =>
    refine iff_of_false ?_ fun hseal => hopen ?_
    · rw [status_storeResult_running]
      decide
    · have hactive := h.not_active
      cases hst : task.status <;> simp_all [Status.isActive]

/-- On one frame to a decided row, the row stays decided exactly under the
condition. -/
theorem NodeTask.IsDecidedLifecycle.receive_iff (frame : UplinkFrame) :
    (task.receive conf frame).status.isTerminal = true ↔ KeepsSeal task frame := by
  cases frame with
  | accepted now => exact iff_of_true (by rw [NodeTask.receive, h.acceptTask, h.terminal]) trivial
  | progress progress downloadCapable withinGrace now =>
    exact iff_of_true (by rw [NodeTask.receive, h.handleTaskProgress, h.terminal]) trivial
  | result message now =>
    obtain ⟨kept, heq⟩ := handleTaskResult_eq conf task message now
    rw [NodeTask.receive, heq, h.uplinkStatus]
    by_cases hstatus : Text.lower message.reportedStatus = "running"
    · rw [h.completeTask_running hstatus]
      exact ⟨fun hseal _ => hseal, fun hkeep => hkeep hstatus⟩
    · exact iff_of_true (h.completeTask_terminal hstatus _ _ _ _) fun hrun => absurd hrun hstatus

theorem NodeTask.IsDecidedLifecycle.receive {frame : UplinkFrame}
    (hterminal : (task.receive conf frame).status.isTerminal = true) :
    (task.receive conf frame).IsDecidedLifecycle := by
  refine ⟨?_, hterminal⟩
  cases frame with
  | accepted now => rw [NodeTask.receive, h.acceptTask, h.correlated]
  | progress progress downloadCapable withinGrace now =>
    rw [NodeTask.receive, h.handleTaskProgress, h.correlated]
  | result message now =>
    obtain ⟨kept, heq⟩ := handleTaskResult_eq conf task message now
    rw [NodeTask.receive, heq, NodeTask.isLifecycleCorrelatedTask]
    dsimp only
    rw [correlationType_completeTask]
    exact h.correlated

end

/-! ## Runs -/

/-- A sealed lifecycle failure stays terminal through a run of frames exactly when
none of them reports `running` while the row is failed or timed out. -/
theorem sealed_stays_terminal_iff (conf : Settings) (task : NodeTask)
    (h : task.IsLifecycleSealed) (frames : List UplinkFrame) :
    (uplinkSystem conf).Every (fun _ _ task' => task'.status.isTerminal = true) task frames ↔
      (uplinkSystem conf).Every (fun task frame _ => KeepsSeal task frame) task frames := by
  have hdecided : task.IsDecidedLifecycle := by
    refine ⟨h.correlated, ?_⟩
    rcases h.status with hst | hst <;> rw [hst] <;> rfl
  have hiff : ∀ t frame t', t.IsDecidedLifecycle → (uplinkSystem conf).step t frame = some t' →
      (t'.status.isTerminal = true ↔ KeepsSeal t frame) := by
    intro t frame t' ht hs
    cases hs
    exact ht.receive_iff frame
  have hkeep : ∀ t frame t', t.IsDecidedLifecycle → (uplinkSystem conf).step t frame = some t' →
      t'.status.isTerminal = true → t'.IsDecidedLifecycle := by
    intro t frame t' ht hs hterminal
    cases hs
    exact ht.receive hterminal
  exact System.every_congr_of_invariant hiff hkeep hdecided frames

/-- An upgrade whose Agent reported a failure. -/
def failedUpgrade : NodeTask :=
  (handleTaskResult {}
    { nodeId := 7
      correlationType := "node.lifecycle"
      correlationId := "7"
      kind := "agent.upgrade"
      payload := []
      result := []
      status := .running
      createdAt := 0
      dispatchedAt := some 1
      acceptedAt := some 2
      lastDeliveryAt := some 1
      deliveryAttemptCount := 1
      lastProgressAt := some 2
      cancelRequestedAt := none
      watchdogDeadlineAt := 600000000
      lastError := "" } ⟨"failed", [], "no space left on device"⟩ ⟨3, "3"⟩).task

theorem isLifecycleSealed_failedUpgrade : failedUpgrade.IsLifecycleSealed :=
  ⟨by decide, by decide, Or.inl (by decide), by decide⟩

/-- A repeated failure and a late success leave it terminal. -/
theorem sealed_stays_terminal_failedUpgrade :
    (uplinkSystem {}).Every (fun _ _ task' => task'.status.isTerminal = true) failedUpgrade
      [.result ⟨"failed", [], "no space left on device"⟩ ⟨4, "4"⟩,
        .result ⟨"success", [], ""⟩ ⟨5, "5"⟩] :=
  (sealed_stays_terminal_iff {} failedUpgrade isLifecycleSealed_failedUpgrade _).mpr
    ⟨fun hrun => absurd hrun (by decide), fun hrun => absurd hrun (by decide), trivial⟩

/-- A result that reports `running` resurrects it. -/
theorem not_sealed_stays_terminal : failedUpgrade.IsLifecycleSealed ∧
    ¬ (uplinkSystem {}).Every (fun _ _ task' => task'.status.isTerminal = true) failedUpgrade
      [.result ⟨"running", [], ""⟩ ⟨4, "4"⟩] := by
  refine ⟨isLifecycleSealed_failedUpgrade, ?_⟩
  rintro ⟨hterminal, -⟩
  exact absurd hterminal (by decide)

end HyperFileLens.Node
