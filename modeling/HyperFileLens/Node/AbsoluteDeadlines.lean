import HyperFileLens.Node.Writers

/-!
# Absolute deadlines under traffic

A row under the frames of its Agent: acceptances, progress and keep-alives, in any
number and order.

*Budgets.*  For some kinds of tasks the watchdog deadline is absolute: a budget from the
start of the execution, which liveness frames do not renew. `record_task_progress`
recomputes it from the stored acceptance, or from the start as the row knows it.

*Acceptances.*  `accept_task` computes the deadline from the clock also when the row is
accepted already, so a second acceptance moves it. The deadline keeps to its budget
exactly as long as no such acceptance arrives.
-/

namespace HyperFileLens.Node

open Transition

/-! ## Frames -/

/-- A frame of the Agent that runs the task. A keep-alive is empty progress. -/
inductive Frame where
  | accepted (now : Instant)
  | progress (progress : Dict) (downloadCapable withinGrace : Bool) (now : Instant)

section Runs

variable (conf : Settings)

def NodeTask.afterFrame (task : NodeTask) : Frame → NodeTask
  | .accepted now => acceptTask conf task now
  | .progress progress downloadCapable withinGrace now =>
    handleTaskProgress conf task progress downloadCapable withinGrace now

def frameSystem : System NodeTask Frame where
  init := fun task => task.status.isActive = true
  step := fun task frame => some (task.afterFrame conf frame)

/-! ## Budgets -/

def NodeTask.hasAbsoluteBudget (task : NodeTask) : Bool :=
  (isRepositoryStatusTask task.correlationType task.kind &&
      (task.payload.get "health_timeout_seconds").truthy) ||
    isSourceNasProbe task.correlationType task.kind ||
    isRepositoryInitializeTask task.correlationType task.kind ||
    (task.correlationType = pathSizeCorrelationType && task.kind = "path.size") ||
    isInsightSnapshotOperation task.correlationType task.kind

/-- The deadline of an accepted row is within the budget from the acceptance, or from
the start. -/
def DeadlineKept (start : Time) (task : NodeTask) : Prop :=
  ∀ accepted ∈ task.acceptedAt, task.watchdogDeadlineAt ≤ task.initialDeadline conf accepted ∨
    task.watchdogDeadlineAt ≤ task.initialDeadline conf start

/-- A frame is not an acceptance of an active row that was accepted before. -/
def NotReaccepted (start : Time) (task : NodeTask) : Frame → Prop
  | .accepted now => task.status.isActive = true → ∀ accepted ∈ task.acceptedAt,
      now.time ≤ accepted ∨ now.time ≤ start
  | .progress _ _ _ _ => True

theorem NodeTask.initialDeadline_eq (task : NodeTask) (t : Time) :
    task.initialDeadline conf t = t + task.initialDeadline conf 0 := by
  simp only [NodeTask.initialDeadline, initialWatchdogDeadline, after, Int.zero_add,
    apply_ite (t + ·)]

theorem NodeTask.initialDeadline_le_iff (task : NodeTask) (s t : Time) :
    task.initialDeadline conf s ≤ task.initialDeadline conf t ↔ s ≤ t := by
  rw [task.initialDeadline_eq conf s, task.initialDeadline_eq conf t]
  exact Int.add_le_add_iff_right _

variable {conf} {task : NodeTask}

theorem NodeTask.not_backup_of_absolute (h : task.hasAbsoluteBudget = true) :
    isProtectionBackupTask task.correlationType task.kind = false := by
  cases hbackup : isProtectionBackupTask task.correlationType task.kind with
  | false => rfl
  | true =>
    simp only [isProtectionBackupTask, Bool.and_eq_true, decide_eq_true_eq] at hbackup
    simp [NodeTask.hasAbsoluteBudget, isRepositoryStatusTask, isSourceNasProbe,
      isRepositoryInitializeTask, isInsightSnapshotOperation, hbackup.1,
      protectionBackupCorrelationType, pathSizeCorrelationType] at h

theorem NodeTask.not_lifecycle_of_absolute (h : task.hasAbsoluteBudget = true) :
    task.isLifecycleCorrelatedTask = false := by
  cases hlifecycle : task.isLifecycleCorrelatedTask with
  | false => rfl
  | true =>
    simp only [NodeTask.isLifecycleCorrelatedTask, decide_eq_true_eq] at hlifecycle
    simp [NodeTask.hasAbsoluteBudget, isRepositoryStatusTask, isSourceNasProbe,
      isRepositoryInitializeTask, isInsightSnapshotOperation, hlifecycle,
      lifecycleCorrelationType, pathSizeCorrelationType] at h

theorem NodeTask.initialDeadline_of_nas (h : isSourceNasProbe task.correlationType task.kind = true)
    (t : Time) :
    task.initialDeadline conf t = after t (max 1 conf.sourceNasProbeExecutionTimeout) := by
  simp only [isSourceNasProbe, Bool.and_eq_true, decide_eq_true_eq] at h
  simp [NodeTask.initialDeadline, initialWatchdogDeadline, isRepositoryStatusTask,
    isInsightSnapshotOperation, isRestoreTask, isRepositoryInitializeTask, isSourceNasProbe,
    pathSizeCorrelationType, h.1, h.2]

theorem progressDeadline_of_absolute (conf : Settings) (h : task.hasAbsoluteBudget = true)
    (progress : Dict) (accepted now : Time) (downloadCapable : Bool) :
    progressDeadline conf task progress accepted now downloadCapable =
        task.initialDeadline conf accepted ∨
      progressDeadline conf task progress accepted now downloadCapable =
        task.initialDeadline conf task.startedAt := by
  have hbackup := task.not_backup_of_absolute h
  simp only [progressDeadline, hbackup]
  split
  · exact Or.inl rfl
  next hstatus =>
  split
  case isTrue hfalse => cases hfalse
  split
  case isTrue hnas => exact Or.inr (task.initialDeadline_of_nas hnas task.startedAt).symm
  next hnas =>
  split
  · exact Or.inr rfl
  next hinitialize =>
  split
  · exact Or.inl rfl
  next hsize =>
  split
  · exact Or.inl rfl
  next hinsight =>
  simp only [NodeTask.hasAbsoluteBudget, eq_false_of_ne_true hstatus, eq_false_of_ne_true hnas,
    eq_false_of_ne_true hinitialize, eq_false_of_ne_true hsize, eq_false_of_ne_true hinsight] at h
  cases h

/-- What a frame leaves of a row. -/
structure NodeTask.SameWork (task task' : NodeTask) : Prop where
  correlationType : task'.correlationType = task.correlationType
  kind : task'.kind = task.kind
  payload : task'.payload = task.payload

variable {task task' : NodeTask}

theorem NodeTask.SameWork.initialDeadline (h : task.SameWork task') (t : Time) :
    task'.initialDeadline conf t = task.initialDeadline conf t := by
  simp only [NodeTask.initialDeadline, h.correlationType, h.kind, h.payload]

theorem NodeTask.SameWork.hasAbsoluteBudget (h : task.SameWork task') :
    task'.hasAbsoluteBudget = task.hasAbsoluteBudget := by
  simp only [NodeTask.hasAbsoluteBudget, h.correlationType, h.kind, h.payload]

/-- What a frame does to an active row with a budget. -/
structure NodeTask.Runs (task task' : NodeTask) (deadline : Time) (now : Instant) : Prop where
  same : task.SameWork task'
  accepted : task'.acceptedAt = some (task.acceptedAt.getD now.time)
  deadline : task'.watchdogDeadlineAt = deadline

theorem acceptTask_runs (conf : Settings) (hactive : task.status.isActive = true) (now : Instant) :
    task.Runs (acceptTask conf task now) (task.initialDeadline conf now.time) now := by
  have hnot : task.status.isTerminal = false := by rw [Status.isTerminal_eq, hactive]; rfl
  rw [acceptTask, hnot]
  exact ⟨⟨rfl, rfl, rfl⟩, rfl, rfl⟩

theorem handleTaskProgress_runs (conf : Settings) (hactive : task.status.isActive = true)
    (h : task.hasAbsoluteBudget = true) (progress : Dict) (downloadCapable withinGrace : Bool)
    (now : Instant) :
    task.Runs (handleTaskProgress conf task progress downloadCapable withinGrace now)
      (progressDeadline conf task progress (task.acceptedAt.getD now.time) now.time
        downloadCapable) now := by
  have hbackup := task.not_backup_of_absolute h
  have hlifecycle := task.not_lifecycle_of_absolute h
  have hmarker : ∀ task' : NodeTask, task'.correlationType = task.correlationType →
      applyDetachedMarker conf task' now = task' := by
    intro task' heq
    rw [applyDetachedMarker, NodeTask.hasDetachedMarker, NodeTask.isLifecycleCorrelatedTask, heq,
      ← NodeTask.isLifecycleCorrelatedTask, hlifecycle]
    rfl
  have hreattach : ∀ task' : NodeTask, task.SameWork task' →
      reattachBackupNodeTask conf task' withinGrace now = task' := by
    intro task' hsame
    rw [reattachBackupNodeTask, hsame.correlationType, hsame.kind, hbackup]
    rfl
  rw [handleTaskProgress]
  suffices hrecord : task.Runs (recordTaskProgress conf task progress downloadCapable now)
      (progressDeadline conf task progress (task.acceptedAt.getD now.time) now.time
        downloadCapable) now by
    rwa [hreattach _ hrecord.same]
  simp only [recordTaskProgress, hactive, Bool.not_true, Bool.false_eq_true, if_false]
  split
  · exact ⟨⟨rfl, rfl, rfl⟩, rfl, rfl⟩
  · rw [hmarker]
    · exact ⟨⟨rfl, rfl, rfl⟩, rfl, rfl⟩
    · rfl

/-! ## The deadline along a run -/

/-- A row of the run: not accepted yet and as it was, or accepted and within the budget. -/
structure BudgetInvariant (conf : Settings) (task₀ task : NodeTask) : Prop where
  absolute : task.hasAbsoluteBudget = true
  fresh : task.acceptedAt = none → task.startedAt = task₀.startedAt
  within : DeadlineKept conf task₀.startedAt task

theorem receive_of_terminal (hactive : task.status.isActive = false)
    (h : task.hasAbsoluteBudget = true) (frame : Frame) : task.afterFrame conf frame = task := by
  have hbackup := task.not_backup_of_absolute h
  cases frame with
  | accepted now =>
    simp only [NodeTask.afterFrame, acceptTask, Status.isTerminal_eq, hactive]
    rfl
  | progress progress downloadCapable withinGrace now =>
    simp only [NodeTask.afterFrame, handleTaskProgress, recordTaskProgress, hactive,
      reattachBackupNodeTask]
    simp [hbackup]

variable {task₀ task : NodeTask}

/-- The row stays within the budget exactly through the frames that are no second
acceptance. -/
theorem BudgetInvariant.receive_iff (h : BudgetInvariant conf task₀ task) (frame : Frame) :
    DeadlineKept conf task₀.startedAt (task.afterFrame conf frame) ↔
      NotReaccepted task₀.startedAt task frame := by
  cases hactive : task.status.isActive with
  | false =>
    rw [receive_of_terminal hactive h.absolute]
    refine iff_of_true h.within ?_
    cases frame with
    | accepted now =>
      intro habs
      rw [hactive] at habs
      cases habs
    | progress => trivial
  | true =>
    cases frame with
    | accepted now =>
      have hruns := acceptTask_runs conf hactive now
      simp only [DeadlineKept, NodeTask.afterFrame, hruns.accepted, hruns.deadline,
        hruns.same.initialDeadline, NodeTask.initialDeadline_le_iff, NotReaccepted, hactive]
      cases task.acceptedAt with
      | none => simp
      | some accepted => simp
    | progress progress downloadCapable withinGrace now =>
      have hruns := handleTaskProgress_runs conf hactive h.absolute progress
        downloadCapable withinGrace now
      refine iff_of_true ?_ trivial
      have hdeadline := progressDeadline_of_absolute conf h.absolute progress
        (task.acceptedAt.getD now.time) now.time downloadCapable
      simp only [DeadlineKept, NodeTask.afterFrame, hruns.accepted, hruns.deadline,
        hruns.same.initialDeadline]
      rintro accepted ⟨⟩
      cases hdeadline with
      | inl heq => exact Or.inl (Int.le_of_eq heq)
      | inr heq =>
        rw [heq]
        cases haccepted : task.acceptedAt with
        | none =>
          exact Or.inr (Int.le_of_eq (congrArg _ (h.fresh haccepted)))
        | some accepted =>
          have hstarted : task.startedAt = accepted := by
            simp [NodeTask.startedAt, haccepted]
          exact Or.inl (Int.le_of_eq (congrArg _ hstarted))

theorem BudgetInvariant.receive (h : BudgetInvariant conf task₀ task) {frame : Frame}
    (hwithin : DeadlineKept conf task₀.startedAt (task.afterFrame conf frame)) :
    BudgetInvariant conf task₀ (task.afterFrame conf frame) := by
  cases hactive : task.status.isActive with
  | false =>
    rw [receive_of_terminal hactive h.absolute]
    exact h
  | true =>
    have hruns : ∃ deadline now, task.Runs (task.afterFrame conf frame) deadline now := by
      cases frame with
      | accepted now => exact ⟨_, _, acceptTask_runs conf hactive now⟩
      | progress progress downloadCapable withinGrace now =>
        exact ⟨_, _, handleTaskProgress_runs conf hactive h.absolute progress downloadCapable
          withinGrace now⟩
    obtain ⟨deadline, now, hruns⟩ := hruns
    refine ⟨hruns.same.hasAbsoluteBudget.trans h.absolute, fun hnone => ?_, hwithin⟩
    rw [hruns.accepted] at hnone
    cases hnone

/-- Along a run from a row that was not accepted yet, the deadline of an absolute kind
keeps to its budget if and only if no acceptance arrives for a row accepted before. -/
theorem deadline_within_budget_iff (conf : Settings) (task₀ : NodeTask)
    (habsolute : task₀.hasAbsoluteBudget = true) (hfresh : task₀.acceptedAt = none)
    (frames : List Frame) :
    (frameSystem conf).Every (fun _ _ task => DeadlineKept conf task₀.startedAt task) task₀
        frames ↔
      (frameSystem conf).Every (fun task frame _ => NotReaccepted task₀.startedAt task frame)
        task₀ frames := by
  have hstart : BudgetInvariant conf task₀ task₀ := by
    refine ⟨habsolute, fun _ => rfl, fun accepted haccepted => ?_⟩
    rw [hfresh] at haccepted
    cases haccepted
  refine System.every_congr_of_invariant ?_ ?_ hstart frames
  · intro task frame task' hinv hstep
    cases hstep
    exact hinv.receive_iff frame
  · intro task frame task' hinv hstep hwithin
    cases hstep
    exact hinv.receive hwithin

def createdPathSize : NodeTask :=
  { createdBackup with correlationType := pathSizeCorrelationType, kind := "path.size" }

/-- One acceptance and any keep-alive keep to the budget. -/
theorem pathSize_within_budget :
    (frameSystem {}).Every (fun _ _ task => DeadlineKept {} createdPathSize.startedAt task)
      createdPathSize [.accepted ⟨1, "t1"⟩, .progress [] false false ⟨2, "t2"⟩] :=
  (deadline_within_budget_iff {} createdPathSize (by decide) rfl _).mpr
    ⟨(fun _ _ haccepted => by cases haccepted), trivial, trivial⟩

theorem acceptance_extends_deadline :
    ¬ ∀ (conf : Settings) (task₀ : NodeTask), task₀.hasAbsoluteBudget = true →
      task₀.acceptedAt = none → ∀ frames, (frameSystem conf).Every
        (fun _ _ task => DeadlineKept conf task₀.startedAt task) task₀ frames := by
  intro h
  have hrun := h {} createdPathSize (by decide) rfl
    [.accepted ⟨1, "t1"⟩, .accepted ⟨2, "t2"⟩]
  obtain ⟨-, hsecond, -⟩ := hrun
  exact absurd (hsecond 1 rfl) (by decide +kernel)

end Runs

end HyperFileLens.Node
