import HyperFileLens.Storage.RepositoryOperations

/-!
# Repository operations are exclusive and fenced

*Exclusion.*  `Operations.Sound` says what the tables have in every run: a task that is
not over is the active task of its target, and a target that reconciles has no sibling
in use. `Moves` is what a transaction on existing rows does, and it keeps them sound.

*Fence.*  A step or an end that carries an old token changes nothing. A cancelled
operation does not end as a success, since a worker that reports one carries a token,
unless its operation cannot be cancelled (`maintenanceTerms`).
-/

namespace HyperFileLens.Storage.Maintenance

open Service Tasks Transition

variable {db db' : Operations}

/-! ## What the tables have -/

structure Operations.Sound (db : Operations) : Prop where
  targetIds : Table.Keyed ExecutionTarget.id db.targets
  operationIds : Table.Keyed RepositoryTask.id db.operations
  taskIds : Table.Keyed Task.id db.tasks
  tasks : ∀ op ∈ db.operations, ∃ task ∈ db.tasks, task.id = op.taskId
  single : Table.Keyed RepositoryTask.taskId db.operations
  active : ∀ op ∈ db.operations, ∀ task ∈ db.tasks, task.id = op.taskId →
    task.status.isTerminal = false → ∀ targetId, op.executionTarget = some targetId →
      ∃ t ∈ db.targets, t.id = targetId ∧ t.activeTask = some op.taskId
  owned : ∀ t ∈ db.targets, ∀ taskId, t.activeTask = some taskId →
    ∃ op ∈ db.operations, op.taskId = taskId
  apart : ∀ t ∈ db.targets, ∀ t' ∈ db.targets, t.repositoryId = t'.repositoryId → t.id ≠ t'.id →
    db.isReconciling t = true → t'.activeTask = none
  cancelled : ∀ op ∈ db.operations, op.cancelRequestedAt.isSome = true →
    op.cancellationSupported = true ∧
      ∀ task ∈ db.tasks, task.id = op.taskId → task.status ≠ .success

/-- What stays of an operation, and of the request to cancel it. -/
structure OperationKept (op op' : RepositoryTask) : Prop where
  id : op'.id = op.id
  taskId : op'.taskId = op.taskId
  executionTarget : op'.executionTarget = op.executionTarget
  operationType : op'.operationType = op.operationType
  ownerType : op'.ownerType = op.ownerType
  requested : op.cancelRequestedAt.isSome = true → op'.cancelRequestedAt.isSome = true

structure TaskKept (task task' : Task) : Prop where
  id : task'.id = task.id
  terminal : task.status.isTerminal = true → task'.status.isTerminal = true

structure TargetKept (t t' : ExecutionTarget) : Prop where
  id : t'.id = t.id
  repositoryId : t'.repositoryId = t.repositoryId
  activeTask : t'.activeTask = t.activeTask ∨ t'.activeTask = none

variable {op op' : RepositoryTask} {operationId : Nat} {o : Outside} {a : Operations.Finalize}
    {target : ExecutionTarget}

theorem OperationKept.refl (op : RepositoryTask) : OperationKept op op :=
  ⟨rfl, rfl, rfl, rfl, rfl, fun h => h⟩

theorem OperationKept.trans (op op' op'' : RepositoryTask) (h : OperationKept op op')
    (h' : OperationKept op' op'') : OperationKept op op'' :=
  ⟨h'.id.trans h.id, h'.taskId.trans h.taskId, h'.executionTarget.trans h.executionTarget,
    h'.operationType.trans h.operationType, h'.ownerType.trans h.ownerType,
    fun hrequested => h'.requested (h.requested hrequested)⟩

theorem OperationKept.cancellationSupported (h : OperationKept op op') :
    op'.cancellationSupported = op.cancellationSupported := by
  rw [RepositoryTask.cancellationSupported, RepositoryTask.cancellationSupported, h.operationType,
    h.ownerType]

theorem TaskKept.refl (task : Task) : TaskKept task task := ⟨rfl, fun h => h⟩

theorem TargetKept.refl (t : ExecutionTarget) : TargetKept t t := ⟨rfl, rfl, .inl rfl⟩

abbrev OperationsKept (rows rows' : List RepositoryTask) : Prop :=
  Table.Related RepositoryTask.id OperationKept rows rows'

theorem OperationsKept.refl (rows : List RepositoryTask) : OperationsKept rows rows :=
  Table.Related.refl (fun _ _ h => h.id) OperationKept.refl rows

abbrev TasksKept (rows rows' : List Task) : Prop := Table.Related Task.id TaskKept rows rows'

theorem TasksKept.refl (rows : List Task) : TasksKept rows rows :=
  Table.Related.refl (fun _ _ h => h.id) TaskKept.refl rows

abbrev TargetsKept (rows rows' : List ExecutionTarget) : Prop :=
  Table.Related ExecutionTarget.id TargetKept rows rows'

theorem TargetsKept.refl (rows : List ExecutionTarget) : TargetsKept rows rows :=
  Table.Related.refl (fun _ _ h => h.id) TargetKept.refl rows

/-- What a transaction on existing rows does. A target is released when its task is over. -/
structure Moves (db db' : Operations) : Prop where
  operations : OperationsKept db.operations db'.operations
  tasks : TasksKept db.tasks db'.tasks
  targets : TargetsKept db.targets db'.targets
  released : ∀ t ∈ db.targets, ∀ t' ∈ db'.targets, t'.id = t.id → t'.activeTask ≠ t.activeTask →
    ∀ task ∈ db'.tasks, t.activeTask = some task.id → task.status.isTerminal = true
  cancelled : ∀ op ∈ db'.operations, op.cancelRequestedAt.isSome = true →
    op.cancellationSupported = true ∧
      ∀ task ∈ db'.tasks, task.id = op.taskId → task.status ≠ .success

theorem Moves.isReconciling (h : Moves db db') {t t' : ExecutionTarget}
    (hactive : t'.activeTask = t.activeTask) (hreconciling : db'.isReconciling t' = true) :
    db.isReconciling t = true := by
  obtain ⟨op', hop', hmatch⟩ := List.any_eq_true.mp hreconciling
  obtain ⟨op, hop, hkept⟩ := h.operations.back op' hop'
  refine List.any_eq_true.mpr ⟨op, hop, ?_⟩
  rwa [hactive, hkept.taskId, hkept.operationType] at hmatch

theorem Operations.Sound.moves (h : db.Sound) (hm : Moves db db') : db'.Sound where
  targetIds := hm.targets.keyed h.targetIds
  operationIds := hm.operations.keyed h.operationIds
  taskIds := hm.tasks.keyed h.taskIds
  tasks := by
    intro op' hop'
    obtain ⟨op, hop, hkept⟩ := hm.operations.back op' hop'
    obtain ⟨task, htask, hid⟩ := h.tasks op hop
    obtain ⟨task', htask', hkept'⟩ := hm.tasks.forth task htask
    exact ⟨task', htask', hkept'.id.trans (hid.trans hkept.taskId.symm)⟩
  single := by
    intro p' hp' q' hq' hpq
    obtain ⟨p, hp, hkept⟩ := hm.operations.back p' hp'
    obtain ⟨q, hq, hkept'⟩ := hm.operations.back q' hq'
    rw [hkept.taskId, hkept'.taskId] at hpq
    have heq := h.single p hp q hq hpq
    refine hm.operations.keyed h.operationIds p' hp' q' hq' ?_
    rw [hkept.id, hkept'.id, heq]
  active := by
    intro op' hop' task' htask' hid hstatus targetId htarget
    obtain ⟨op, hop, hkept⟩ := hm.operations.back op' hop'
    obtain ⟨task, htask, hkept'⟩ := hm.tasks.back task' htask'
    have hid' : task.id = op.taskId := hkept'.id.symm.trans (hid.trans hkept.taskId)
    have hrunning : task.status.isTerminal = false := by
      by_contra hover
      rw [hkept'.terminal (Bool.not_eq_false _ ▸ hover)] at hstatus
      cases hstatus
    obtain ⟨t, ht, htid, hactive⟩ :=
      h.active op hop task htask hid' hrunning targetId (hkept.executionTarget ▸ htarget)
    obtain ⟨t', ht', hkept''⟩ := hm.targets.forth t ht
    refine ⟨t', ht', hkept''.id.trans htid, ?_⟩
    by_contra hne
    have hchanged : t'.activeTask ≠ t.activeTask := fun heq =>
      hne (heq.trans (hactive.trans (congrArg some hkept.taskId.symm)))
    have hover := hm.released t ht t' ht' hkept''.id hchanged task' htask'
      (hactive.trans (congrArg some (hkept.taskId.symm.trans hid.symm)))
    rw [hover] at hstatus
    cases hstatus
  owned := by
    intro t' ht' taskId hactive
    obtain ⟨t, ht, hkept⟩ := hm.targets.back t' ht'
    rcases hkept.activeTask with hsame | hnone
    · obtain ⟨op, hop, hid⟩ := h.owned t ht taskId (hsame ▸ hactive)
      obtain ⟨op', hop', hkept'⟩ := hm.operations.forth op hop
      exact ⟨op', hop', hkept'.taskId.trans hid⟩
    · rw [hnone] at hactive
      cases hactive
  apart := by
    intro t' ht' u' hu' hrepository hne hreconciling
    obtain ⟨t, ht, hkept⟩ := hm.targets.back t' ht'
    obtain ⟨u, hu, hkept'⟩ := hm.targets.back u' hu'
    rcases hkept'.activeTask with hsame' | hnone
    · rcases hkept.activeTask with hsame | hnone
      · rw [hsame']
        refine h.apart t ht u hu ?_ ?_ (hm.isReconciling hsame hreconciling)
        · exact hkept.repositoryId.symm.trans (hrepository.trans hkept'.repositoryId)
        · rwa [← hkept.id, ← hkept'.id]
      · obtain ⟨op, _, hmatch⟩ := List.any_eq_true.mp hreconciling
        rw [hnone] at hmatch
        simp at hmatch
    · exact hnone
  cancelled := hm.cancelled

/-- The tables stay sound, and operations stay what they are. -/
structure Onward (db db' : Operations) : Prop where
  sound : db'.Sound
  lasting : ∀ op ∈ db.operations, ∃ op' ∈ db'.operations, OperationKept op op'

theorem Onward.of_moves (h : db.Sound) (hm : Moves db db') : Onward db db' :=
  ⟨h.moves hm, hm.operations.forth⟩

theorem Onward.refl (h : db.Sound) : Onward db db := ⟨h, fun op hop => ⟨op, hop, .refl op⟩⟩

theorem Onward.trans {db'' : Operations} (h : Onward db db') (h' : Onward db' db'') :
    Onward db db'' := by
  refine ⟨h'.sound, fun op hop => ?_⟩
  obtain ⟨op', hop', hkept⟩ := h.lasting op hop
  obtain ⟨op'', hop'', hkept'⟩ := h'.lasting op' hop'
  exact ⟨op'', hop'', hkept.trans _ _ _ hkept'⟩

/-! ## Transactions on existing rows -/

theorem operation_eq {id : Nat} {task : Task} (h : db.operation id = some (op, task)) :
    Table.find RepositoryTask.id db.operations id = some op ∧ op ∈ db.operations ∧ op.id = id ∧
      task ∈ db.tasks ∧ task.id = op.taskId := by
  rw [Operations.operation] at h
  obtain ⟨op', hop', hrest⟩ := Option.bind_eq_some_iff.mp h
  obtain ⟨task', htask', hpair⟩ := Option.bind_eq_some_iff.mp hrest
  obtain ⟨rfl, rfl⟩ := Prod.mk.inj (Option.some.inj hpair)
  obtain ⟨hmem, hid⟩ := Table.mem_of_find hop'
  obtain ⟨hmem', hid'⟩ := Table.mem_of_find htask'
  exact ⟨hop', hmem, hid, hmem', hid'⟩

section

variable (h : db.Sound)

include h

theorem operationsKept_put (hop : op ∈ db.operations) (hkept : OperationKept op op') :
    OperationsKept db.operations (Table.put RepositoryTask.id db.operations op') :=
  .put (fun _ _ h => h.id) OperationKept.refl fun r hr hid =>
    h.operationIds r hr op hop (hid.trans hkept.id) ▸ hkept

theorem tasksKept_put {task task' : Task} (htask : task ∈ db.tasks)
    (hkept : TaskKept task task') : TasksKept db.tasks (Table.put Task.id db.tasks task') :=
  .put (fun _ _ h => h.id) TaskKept.refl fun r hr hid =>
    h.taskIds r hr task htask (hid.trans hkept.id) ▸ hkept

theorem targetsKept_put {t t' : ExecutionTarget} (ht : t ∈ db.targets) (hkept : TargetKept t t') :
    TargetsKept db.targets (Table.put ExecutionTarget.id db.targets t') :=
  .put (fun _ _ h => h.id) TargetKept.refl fun r hr hid =>
    h.targetIds r hr t ht (hid.trans hkept.id) ▸ hkept

theorem not_released {targets : List ExecutionTarget}
    (htargets : ∀ t' ∈ targets, ∃ t ∈ db.targets, t'.id = t.id ∧ t'.activeTask = t.activeTask) :
    ∀ t ∈ db.targets, ∀ t' ∈ targets, t'.id = t.id → ¬t'.activeTask ≠ t.activeTask := by
  intro t ht t' ht' hid hne
  obtain ⟨u, hu, huid, huactive⟩ := htargets t' ht'
  have heq : u = t := h.targetIds u hu t ht (huid.symm.trans hid)
  exact hne (heq ▸ huactive)

/-- A change of the operations and of the tasks that requests no cancellation and ends no
task as a success. -/
theorem moves_of_rows (hoperations : OperationsKept db.operations db'.operations)
    (htasks : TasksKept db.tasks db'.tasks) (htargets : db'.targets = db.targets)
    (hrequests : ∀ op' ∈ db'.operations, op'.cancelRequestedAt.isSome = true →
      ∃ op ∈ db.operations, OperationKept op op' ∧ op.cancelRequestedAt.isSome = true)
    (hsuccess : ∀ task' ∈ db'.tasks, task'.status = .success →
      ∃ task ∈ db.tasks, task'.id = task.id ∧ task.status = .success) : Moves db db' where
  operations := hoperations
  tasks := htasks
  targets := htargets ▸ TargetsKept.refl db.targets
  released := by
    intro t ht t' ht' hid hne
    refine absurd hne (not_released h (fun u hu => ⟨u, ?_, rfl, rfl⟩) t ht t' ht' hid)
    exact htargets ▸ hu
  cancelled := by
    intro op' hop' hrequested
    obtain ⟨op, hop, hkept, hrequested'⟩ := hrequests op' hop' hrequested
    obtain ⟨hsupported, hstatus⟩ := h.cancelled op hop hrequested'
    refine ⟨hkept.cancellationSupported.trans hsupported, fun task' htask' hid heq => ?_⟩
    obtain ⟨task, htask, hid', hsucceeded⟩ := hsuccess task' htask' heq
    exact hstatus task htask (hid'.symm.trans (hid.trans hkept.taskId)) hsucceeded

theorem Moves.refl : Moves db db :=
  moves_of_rows h (.refl _) (.refl _) rfl (fun op hop hr => ⟨op, hop, .refl op, hr⟩)
    fun task htask hs => ⟨task, htask, rfl, hs⟩

theorem moves_setOperation (hop : op ∈ db.operations) (hkept : OperationKept op op')
    (hrequest : op'.cancelRequestedAt = op.cancelRequestedAt)
    (hoperations : db'.operations = Table.put RepositoryTask.id db.operations op')
    (htasks : db'.tasks = db.tasks) (htargets : db'.targets = db.targets) : Moves db db' := by
  refine moves_of_rows h (hoperations ▸ operationsKept_put h hop hkept)
    (htasks ▸ TasksKept.refl _) htargets (fun r hr hrequested => ?_)
    fun task htask hs => ⟨task, htasks ▸ htask, rfl, hs⟩
  rw [hoperations] at hr
  rcases (Table.mem_put hop hkept.id.symm).mp hr with rfl | ⟨hr, _⟩
  · exact ⟨op, hop, hkept, hrequest ▸ hrequested⟩
  · exact ⟨r, hr, .refl r, hrequested⟩

theorem moves_setTask {task task' : Task} (htask : task ∈ db.tasks) (hkept : TaskKept task task')
    (hsuccess : task'.status ≠ .success) (hoperations : db'.operations = db.operations)
    (htasks : db'.tasks = Table.put Task.id db.tasks task') (htargets : db'.targets = db.targets) :
    Moves db db' := by
  refine moves_of_rows h (hoperations ▸ OperationsKept.refl _)
    (htasks ▸ tasksKept_put h htask hkept) htargets
    (fun op hop hr => ⟨op, hoperations ▸ hop, .refl op, hr⟩) fun r hr hs => ?_
  rw [htasks] at hr
  rcases (Table.mem_put htask hkept.id.symm).mp hr with rfl | ⟨hr, _⟩
  · exact absurd hs hsuccess
  · exact ⟨r, hr, rfl, hs⟩

theorem onward_startTask {taskId : Nat} (hstart : db.startTask taskId = .ok db') :
    Onward db db' := by
  rw [Operations.startTask] at hstart
  split at hstart
  · cases hstart
  · rename_i task hfind
    split at hstart
    · cases hstart
    · rename_i hpending
      cases hstart
      have hkept : TaskKept task { task with status := .running } := by
        refine ⟨rfl, fun hover => ?_⟩
        rw [not_not.mp hpending] at hover
        cases hover
      exact .of_moves h
        (moves_setTask h (Table.mem_of_find hfind).1 hkept TaskStatus.noConfusion rfl rfl rfl)

theorem moves_setTaskStep (taskId : Nat) (stepName : String) (progress : Nat) :
    Moves db (db.setTaskStep taskId stepName progress) := by
  refine moves_of_rows h (.refl _) ?_ rfl (fun op hop hr => ⟨op, hop, .refl op, hr⟩) ?_
  · exact .update (fun _ _ h => h.id) TaskKept.refl fun r _ _ => ⟨rfl, fun hover => hover⟩
  · intro task' htask' hs
    rcases Table.mem_update.mp htask' with ⟨task, htask, _, rfl⟩ | ⟨htask, _⟩
    · exact ⟨task, htask, rfl, hs⟩
    · exact ⟨task', htask, rfl, hs⟩

theorem moves_heartbeat (operationId : Nat) (token : Option Nat) (o : Outside) :
    Moves db (db.heartbeat operationId token o) := by
  refine moves_of_rows h ?_ (.refl _) rfl ?_ fun task htask hs => ⟨task, htask, rfl, hs⟩
  · refine .update (fun _ _ h => h.id) OperationKept.refl fun r _ _ => ?_
    split
    · exact ⟨rfl, rfl, rfl, rfl, rfl, fun h => h⟩
    · exact .refl r
  · intro op' hop' hr
    rcases Table.mem_update.mp hop' with ⟨op, hop, _, rfl⟩ | ⟨hop, _⟩
    · split at hr
      · rw [if_pos ‹_›]
        exact ⟨op, hop, ⟨rfl, rfl, rfl, rfl, rfl, fun h => h⟩, hr⟩
      · rw [if_neg ‹_›]
        exact ⟨op, hop, .refl op, hr⟩
    · exact ⟨op', hop, .refl op', hr⟩

theorem onward_start {token : Option Nat}
    (hstart : db.startControllerRepositoryOperation operationId o = .ok (token, db')) :
    Onward db db' := by
  rw [Operations.startControllerRepositoryOperation] at hstart
  split at hstart
  · cases hstart
  · rename_i op task hfind
    obtain ⟨-, hop, -, htask, -⟩ := operation_eq hfind
    split at hstart
    · cases hstart
      exact .refl h
    · rename_i hready
      simp only [Bool.or_eq_true, not_or, decide_eq_true_eq, not_not] at hready
      cases hstart
      have hkept : TaskKept task { task with status := .running } := by
        refine ⟨rfl, fun hover => ?_⟩
        rw [hready.2] at hover
        cases hover
      have hrunning : Onward db (db.setTask { task with status := .running }) :=
        .of_moves h (moves_setTask h htask hkept TaskStatus.noConfusion rfl rfl rfl)
      have htoken : OperationKept op { op with
          executionToken := some db.nextToken, executionHeartbeatAt := some o.now } :=
        ⟨rfl, rfl, rfl, rfl, rfl, fun h => h⟩
      exact hrunning.trans (.of_moves hrunning.sound
        (moves_setOperation hrunning.sound hop htoken rfl rfl rfl rfl))

theorem onward_setStep {token progress : Nat} {stepName : String}
    {decision : Decision} (hstep : db.setControllerRepositoryOperationStep operationId
      token stepName progress o = .ok (decision, db')) : Onward db db' := by
  rw [Operations.setControllerRepositoryOperationStep] at hstep
  split at hstep
  · cases hstep
  · rename_i op task hfind
    obtain ⟨-, hop, -, -, -⟩ := operation_eq hfind
    split at hstep
    · cases hstep
      exact .refl h
    · split at hstep
      · cases hstep
        exact .refl h
      · cases hstep
        have hset := Onward.of_moves h (moves_setTaskStep h task.id stepName progress)
        have hbeat : OperationKept op { op with executionHeartbeatAt := some o.now } :=
          ⟨rfl, rfl, rfl, rfl, rfl, fun h => h⟩
        exact hset.trans (.of_moves hset.sound
          (moves_setOperation hset.sound hop hbeat rfl rfl rfl rfl))

theorem onward_fence (operationId : Nat) (expected : Option Nat) (o : Outside) :
    Onward db (db.fenceControllerRepositoryOperation operationId expected o).2 := by
  rw [Operations.fenceControllerRepositoryOperation]
  split
  · exact .refl h
  · rename_i op task hfind
    split
    · have hfenced : OperationKept op { op with
          executionToken := some db.nextToken, executionHeartbeatAt := some o.now } :=
        ⟨rfl, rfl, rfl, rfl, rfl, fun h => h⟩
      exact .of_moves h (moves_setOperation h (operation_eq hfind).2.1 hfenced rfl rfl rfl rfl)
    · exact .refl h

end

/-! ## The end of an operation -/

/-- A worker that reports a success carries a token, unless its operation cannot be
cancelled. -/
def Reported (db : Operations) (a : Operations.Finalize) : Prop :=
  a.succeeded = true → a.expectedExecutionToken = none →
    ∀ op ∈ db.operations, op.id = a.operationId → op.cancellationSupported = false

theorem isTerminal_ending (state : MaintenanceState) (op : RepositoryTask)
    (a : Operations.Finalize) (cancelled : Bool) (o : Outside) :
    (Operations.ending state op a cancelled o).2.isTerminal = true := by
  rw [Operations.ending]
  split
  · dsimp only
    split
    · rfl
    · split <;> rfl
  · split
    · rfl
    · split <;> rfl

theorem ending_ne_success {state : MaintenanceState} {cancelled : Bool}
    (h : cancelled = true ∨ a.succeeded = false) :
    (Operations.ending state op a cancelled o).2 ≠ .success := by
  rw [Operations.ending]
  rcases h with rfl | hfailed
  · split <;> exact TaskStatus.noConfusion
  · rw [hfailed]
    split
    · dsimp only
      split <;> exact TaskStatus.noConfusion
    · split <;> exact TaskStatus.noConfusion

theorem ended_status (task : Task) (op : RepositoryTask) (a : Operations.Finalize)
    (status : TaskStatus) : (Operations.ended task op a status).status = status := by
  rw [Operations.ended]
  split
  · rename_i h
    exact h.symm
  · rfl

theorem ended_id (task : Task) (op : RepositoryTask) (a : Operations.Finalize)
    (status : TaskStatus) : (Operations.ended task op a status).id = task.id := by
  rw [Operations.ended]
  split <;> rfl

section

variable (h : db.Sound)

include h

theorem moves_finalize {status : TaskStatus} (hreported : Reported db a)
    (hfinalize : db.finalizeRepositoryOperation a o = .ok (status, db')) : Moves db db' := by
  rw [Operations.finalizeRepositoryOperation] at hfinalize
  split at hfinalize
  · cases hfinalize
  · rename_i op task hfind
    obtain ⟨-, hop, hopId, htask, htaskId⟩ := operation_eq hfind
    split at hfinalize
    · cases hfinalize
    · rename_i targetId _
      split at hfinalize
      · cases hfinalize
        exact .refl h
      · split at hfinalize
        · cases hfinalize
          exact .refl h
        · cases htarget : Table.find ExecutionTarget.id db.targets targetId with
          | none => simp [htarget] at hfinalize
          | some target =>
            have ht := (Table.mem_of_find htarget).1
            simp only [htarget] at hfinalize
            generalize hcancelled : (a.cancelled ||
              (a.expectedExecutionToken.isSome && op.cancelRequestedAt.isSome)) = cancelled
              at hfinalize
            generalize hresult : Operations.ending target.state op a cancelled o = result
              at hfinalize
            have hover : result.2.isTerminal = true := hresult ▸ isTerminal_ending _ _ _ _ _
            cases hfinalize
            have hopKept : OperationKept op { op with
                executionToken := none, executionHeartbeatAt := none } :=
              ⟨rfl, rfl, rfl, rfl, rfl, fun h => h⟩
            have hended : (Operations.ended task op a result.2).status.isTerminal = true := by
              rw [ended_status]
              exact hover
            have htaskKept : TaskKept task (Operations.ended task op a result.2) :=
              ⟨ended_id _ _ _ _, fun _ => hended⟩
            have htargetKept : TargetKept target { target with
                state := result.1
                activeTask := if target.activeTask = some task.id then none
                  else target.activeTask } := by
              refine ⟨rfl, rfl, ?_⟩
              dsimp only
              split
              · exact .inr rfl
              · exact .inl rfl
            refine ⟨operationsKept_put h hop hopKept, tasksKept_put h htask htaskKept,
              targetsKept_put h ht htargetKept, ?_, ?_⟩
            · -- Only the target of the task is released.
              intro t htmem t' ht' hid hne task' htask' hactive
              rcases (Table.mem_put htask (ended_id _ _ _ _).symm).mp htask' with rfl | ⟨_, hother⟩
              · exact hended
              · exfalso
                rw [ended_id] at hother
                rcases (Table.mem_put ht htargetKept.id.symm).mp ht' with rfl | ⟨ht', _⟩
                · have heq : t = target := h.targetIds t htmem target ht hid.symm
                  subst heq
                  refine hne (if_neg fun hsame => hother ?_)
                  exact Option.some.inj (hactive.symm.trans hsame)
                · exact hne (congrArg _ (h.targetIds t' ht' t htmem hid))
            · intro r hr hrequested
              have hrow : ∃ op' ∈ db.operations, OperationKept op' r ∧
                  op'.cancelRequestedAt = r.cancelRequestedAt := by
                rcases (Table.mem_put hop hopKept.id.symm).mp hr with rfl | ⟨hr, _⟩
                · exact ⟨op, hop, hopKept, rfl⟩
                · exact ⟨r, hr, .refl r, rfl⟩
              obtain ⟨op', hop', hkept, hsame⟩ := hrow
              obtain ⟨hsupported, hstatus⟩ := h.cancelled op' hop' (hsame ▸ hrequested)
              refine ⟨hkept.cancellationSupported.trans hsupported, fun task' htask' hid => ?_⟩
              rcases (Table.mem_put htask (ended_id _ _ _ _).symm).mp htask' with rfl | ⟨htask', _⟩
              · -- The task that ends is the one of the cancelled operation.
                rw [ended_id, htaskId, hkept.taskId] at hid
                obtain rfl : op = op' := h.single op hop op' hop' hid
                rw [ended_status, ← hresult]
                refine ending_ne_success ?_
                rw [hsame] at hcancelled
                rw [hrequested, Bool.and_true] at hcancelled
                cases hexpected : a.expectedExecutionToken with
                | some token =>
                  rw [hexpected, Option.isSome_some, Bool.or_true] at hcancelled
                  exact .inl hcancelled.symm
                | none =>
                  right
                  by_contra hsucceeded
                  have := hreported (Bool.not_eq_false _ ▸ hsucceeded) hexpected op hop hopId
                  rw [hsupported] at this
                  cases this
              · exact hstatus task' htask' (hid.trans hkept.taskId)

/-! ## Cancellation -/

theorem moves_requestMark {task : Task} (hop : op ∈ db.operations)
    (hsupported : op.cancellationSupported = true) (htask : task ∈ db.tasks)
    (hid : task.id = op.taskId) (hstatus : task.status.isTerminal = false) (now : Int)
    (reason : String) :
    Moves db (db.setOperation { op with cancelRequestedAt := some now, cancelReason := reason }) := by
  have hkept : OperationKept op { op with cancelRequestedAt := some now, cancelReason := reason } :=
    ⟨rfl, rfl, rfl, rfl, rfl, fun _ => rfl⟩
  refine ⟨operationsKept_put h hop hkept, .refl _, .refl _, ?_, ?_⟩
  · intro t ht t' ht' htid hne
    exact absurd hne (not_released h (fun u hu => ⟨u, hu, rfl, rfl⟩) t ht t' ht' htid)
  · intro r hr hrequested
    rcases (Table.mem_put hop hkept.id.symm).mp hr with rfl | ⟨hr, _⟩
    · refine ⟨hsupported, fun task' htask' hid' => ?_⟩
      obtain rfl : task' = task := h.taskIds task' htask' task htask (hid'.trans hid.symm)
      intro hsuccess
      rw [hsuccess] at hstatus
      cases hstatus
    · exact h.cancelled r hr hrequested

theorem onward_requestCancel {taskId : Nat} {reason : String} {stopping : Bool}
    (hrequest : db.requestRepositoryOperationCancel taskId reason o = .ok (stopping, db')) :
    Onward db db' := by
  rw [Operations.requestRepositoryOperationCancel] at hrequest
  cases hop : db.operations.find? fun op => op.taskId = taskId with
  | none => simp [hop] at hrequest
  | some op =>
    cases htask : Table.find Task.id db.tasks taskId with
    | none => simp [hop, htask] at hrequest
    | some task =>
      simp only [hop, htask] at hrequest
      have hopId : op.taskId = taskId := by simpa using List.find?_some hop
      obtain ⟨htaskMem, htaskId⟩ := Table.mem_of_find htask
      split at hrequest
      · cases hrequest
      · rename_i hsupported
        split at hrequest
        · split at hrequest
          · cases hrequest
            exact .refl h
          · cases hrequest
        · rename_i hstatus
          split at hrequest
          · cases hrequest
            exact .refl h
          · have hmarked := Onward.of_moves h (moves_requestMark h (List.mem_of_find?_eq_some hop)
                (by simpa using hsupported) htaskMem (htaskId.trans hopId.symm)
                (Bool.not_eq_true _ ▸ hstatus) o.now
                (if reason ≠ "" then reason else "Task cancelled by user"))
            split at hrequest
            · obtain ⟨⟨status, db₁⟩, hfinalize, hpair⟩ := map_eq_ok.mp hrequest
              obtain ⟨-, rfl⟩ := Prod.mk.inj hpair
              refine hmarked.trans (.of_moves hmarked.sound
                (moves_finalize hmarked.sound ?_ hfinalize))
              intro hsucceeded
              cases hsucceeded
            · cases hrequest
              exact hmarked

/-! ## Admission -/

theorem moves_retire (ht : target ∈ db.targets) :
    Moves db (db.setTarget { target with isActive := false }) := by
  have hkept : TargetKept target { target with isActive := false } := ⟨rfl, rfl, .inl rfl⟩
  refine ⟨.refl _, .refl _, targetsKept_put h ht hkept, ?_, h.cancelled⟩
  intro t htmem t' ht' hid hne
  refine absurd hne (not_released h (fun u hu => ?_) t htmem t' ht' hid)
  rcases (Table.mem_put ht hkept.id.symm).mp hu with rfl | ⟨hu, _⟩
  · exact ⟨target, ht, rfl, rfl⟩
  · exact ⟨u, hu, rfl, rfl⟩

theorem taskId_ne_fresh (hop : op ∈ db.operations) :
    op.taskId ≠ Table.fresh (db.tasks.map Task.id) := by
  obtain ⟨task, htask, hid⟩ := h.tasks op hop
  have := Table.lt_fresh (List.mem_map_of_mem (f := Task.id) htask)
  omega

variable {operationType : OperationType}

theorem onward_newOperation (ht : target ∈ db.targets) (dueAt : Option Int)
    (replaces : Option Nat) (hfree : target.activeTask = none)
    (halone : operationType = .snapshotReconcile → ∀ t ∈ db.targets, t.repositoryId =
      target.repositoryId → t.activeTask = none)
    (hsiblings : ∀ t ∈ db.targets, t.repositoryId = target.repositoryId → db.isReconciling t =
      false) : Onward db (db.newOperation target operationType dueAt replaces).2 := by
  rw [Operations.newOperation]
  generalize htaskId : Table.fresh (db.tasks.map Task.id) = taskId
  generalize hopId : Table.fresh (db.operations.map RepositoryTask.id) = opId
  have hnewTask : ∀ task ∈ db.tasks, task.id ≠ taskId := by
    intro task htask
    have := Table.lt_fresh (List.mem_map_of_mem (f := Task.id) htask)
    omega
  have hnewOp : ∀ op ∈ db.operations, op.id ≠ opId := by
    intro op hop
    have := Table.lt_fresh (List.mem_map_of_mem (f := RepositoryTask.id) hop)
    omega
  have hother : ∀ op ∈ db.operations, op.taskId ≠ taskId :=
    fun op hop => htaskId ▸ taskId_ne_fresh h hop
  have hput : ∀ t, t ∈ Table.put ExecutionTarget.id db.targets
      { target with activeTask := some taskId } ↔
      t = { target with activeTask := some taskId } ∨ t ∈ db.targets ∧ t.id ≠ target.id :=
    fun t => Table.mem_put ht rfl
  -- A target that reconciles is the new one, or it did before.
  have hreconciling : ∀ t ∈ db.targets, ∀ op, op.taskId = taskId →
      Operations.isReconciling { db with operations := op :: db.operations } t = true →
      db.isReconciling t = true := by
    intro t htmem op hid hr
    obtain ⟨p, hp, hmatch⟩ := List.any_eq_true.mp hr
    cases hp with
    | head =>
      have hactive : t.activeTask = some op.taskId := by
        simp only [Bool.and_eq_true, decide_eq_true_eq] at hmatch
        exact hmatch.1
      obtain ⟨p, hp, hpid⟩ := h.owned t htmem op.taskId hactive
      exact absurd (hpid.trans hid) (hother p hp)
    | tail _ hp => exact List.any_eq_true.mpr ⟨p, hp, hmatch⟩
  refine ⟨⟨h.targetIds.put ht rfl, h.operationIds.cons hnewOp, h.taskIds.cons hnewTask, ?_,
    h.single.cons hother, ?_, ?_, ?_, ?_⟩, fun op hop => ⟨op, List.mem_cons_of_mem _ hop, .refl op⟩⟩
  · intro op hop
    cases hop with
    | head => exact ⟨_, List.mem_cons_self, rfl⟩
    | tail _ hop =>
      obtain ⟨task, htask, hid⟩ := h.tasks op hop
      exact ⟨task, List.mem_cons_of_mem _ htask, hid⟩
  · intro op hop task htask hid hstatus targetId htarget
    cases hop with
    | head =>
      cases htarget
      exact ⟨_, (hput _).mpr (.inl rfl), rfl, rfl⟩
    | tail _ hop =>
      cases htask with
      | head => exact absurd hid.symm (hother op hop)
      | tail _ htask =>
        obtain ⟨t, htmem, htid, hactive⟩ :=
          h.active op hop task htask hid hstatus targetId htarget
        refine ⟨t, (hput t).mpr (.inr ⟨htmem, fun heq => ?_⟩), htid, hactive⟩
        rw [h.targetIds t htmem target ht heq, hfree] at hactive
        cases hactive
  · intro t htmem id hactive
    rcases (hput t).mp htmem with rfl | ⟨htmem, _⟩
    · exact ⟨_, List.mem_cons_self, Option.some.inj hactive⟩
    · obtain ⟨op, hop, hid⟩ := h.owned t htmem id hactive
      exact ⟨op, List.mem_cons_of_mem _ hop, hid⟩
  · intro t htmem t' htmem' hrepository hne hr
    rcases (hput t).mp htmem with rfl | ⟨htmem, _⟩
    · rcases (hput t').mp htmem' with rfl | ⟨htmem', _⟩
      · exact absurd rfl hne
      · obtain ⟨op, hop, hmatch⟩ := List.any_eq_true.mp hr
        simp only [Bool.and_eq_true, decide_eq_true_eq, Option.some.injEq] at hmatch
        cases hop with
        | head => exact halone hmatch.2 t' htmem' hrepository.symm
        | tail _ hop => exact absurd hmatch.1.symm (hother op hop)
    · have hr' := hreconciling t htmem _ rfl hr
      rcases (hput t').mp htmem' with rfl | ⟨htmem', _⟩
      · have := hsiblings t htmem hrepository
        rw [hr'] at this
        cases this
      · exact h.apart t htmem t' htmem' hrepository hne hr'
  · intro op hop hrequested
    cases hop with
    | head => cases hrequested
    | tail _ hop =>
      obtain ⟨hsupported, hstatus⟩ := h.cancelled op hop hrequested
      refine ⟨hsupported, fun task htask hid => ?_⟩
      cases htask with
      | head => exact absurd hid.symm (hother op hop)
      | tail _ htask => exact hstatus task htask hid

theorem onward_create {targetId : Nat} {dueAt : Option Int} {replaces : Option Nat}
    {created : Option RepositoryTask}
    (hcreate : db.createRepositoryOperationTask targetId operationType dueAt replaces o = .ok
      (created, db')) : Onward db db' := by
  rw [Operations.createRepositoryOperationTask] at hcreate
  cases htarget : Table.find ExecutionTarget.id db.targets targetId with
  | none => simp [htarget] at hcreate
  | some target =>
    have ht := (Table.mem_of_find htarget).1
    cases hrepository : Table.find Repository.id db.repositories target.repositoryId with
    | none => simp [htarget, hrepository] at hcreate
    | some repository =>
      have hid := (Table.mem_of_find hrepository).2
      simp only [htarget, hrepository] at hcreate
      split at hcreate
      · cases hcreate
        exact .refl h
      · rename_i hbusy
        split at hcreate
        · cases hcreate
          exact .refl h
        · rename_i hblocked
          split at hcreate
          · cases hcreate
            exact .of_moves h (moves_retire h ht)
          · split at hcreate
            · cases hcreate
              exact .refl h
            · split at hcreate
              · cases hcreate
              · cases hcreate
                simp only [Bool.or_eq_true, not_or, Option.not_isSome_iff_eq_none] at hbusy
                simp only [Bool.or_eq_true, not_or, Bool.and_eq_true, not_and,
                  decide_eq_true_eq] at hblocked
                have hmem : ∀ t ∈ db.targets, t.repositoryId = target.repositoryId →
                    t.activeTask.isSome = true → t ∈ db.siblings repository.id := by
                  intro t htmem hsame hactive
                  refine List.mem_filter.mpr ⟨htmem, ?_⟩
                  simp [hsame, hid, hactive]
                refine onward_newOperation h ht dueAt replaces hbusy.2 ?_ ?_
                · intro htype t htmem hsame
                  have hempty := hblocked.1 htype
                  by_contra hactive
                  have := hmem t htmem hsame (Option.isSome_iff_ne_none.mpr hactive)
                  simp [List.isEmpty_iff.mp (by simpa using hempty)] at this
                · intro t htmem hsame
                  by_contra hr
                  obtain ⟨op, _, hmatch⟩ :=
                    List.any_eq_true.mp (Bool.not_eq_false _ ▸ hr)
                  simp only [Bool.and_eq_true, decide_eq_true_eq] at hmatch
                  have hactive : t.activeTask.isSome = true := by
                    rw [hmatch.1]
                    rfl
                  exact hblocked.2 (List.any_eq_true.mpr
                    ⟨t, hmem t htmem hsame hactive, Bool.not_eq_false _ ▸ hr⟩)

/-! ## The environment -/

theorem moves_updateTarget (targetId : Nat) {f : ExecutionTarget → ExecutionTarget}
    (hf : ∀ t, (f t).id = t.id ∧ (f t).repositoryId = t.repositoryId ∧
      (f t).activeTask = t.activeTask) :
    Moves db { db with targets := Table.update ExecutionTarget.id db.targets targetId f } where
  operations := .refl _
  tasks := .refl _
  targets := .update (fun _ _ h => h.id) TargetKept.refl fun t _ _ =>
    ⟨(hf t).1, (hf t).2.1, .inl (hf t).2.2⟩
  released := by
    intro t ht t' ht' hid hne
    refine absurd hne (not_released h (fun u' hu' => ?_) t ht t' ht' hid)
    rcases Table.mem_update.mp hu' with ⟨u, hu, _, rfl⟩ | ⟨hu, _⟩
    · exact ⟨u, hu, (hf u).1, (hf u).2.2⟩
    · exact ⟨u', hu, rfl, rfl⟩
  cancelled := h.cancelled

theorem onward_discover (hnew : target.id ∉ db.targets.map ExecutionTarget.id)
    (hfree : target.activeTask = none) : Onward db { db with targets := target :: db.targets } := by
  refine ⟨{ h with targetIds := ?_, active := ?_, owned := ?_, apart := ?_ },
    fun op hop => ⟨op, hop, .refl op⟩⟩
  · exact h.targetIds.cons fun t ht hid => hnew (hid ▸ List.mem_map_of_mem ht)
  · intro op hop task htask hid hstatus targetId htarget
    obtain ⟨t, ht, hrow⟩ := h.active op hop task htask hid hstatus targetId htarget
    exact ⟨t, List.mem_cons_of_mem _ ht, hrow⟩
  · intro t ht taskId hactive
    cases ht with
    | head =>
      rw [hfree] at hactive
      cases hactive
    | tail _ ht => exact h.owned t ht taskId hactive
  · intro t ht t' ht' hrepository hne hr
    cases ht' with
    | head => exact hfree
    | tail _ ht' =>
      cases ht with
      | head =>
        obtain ⟨op, _, hmatch⟩ := List.any_eq_true.mp hr
        simp [hfree] at hmatch
      | tail _ ht => exact h.apart t ht t' ht' hrepository hne hr

theorem onward_environment (e : OperationEnv) : Onward db (environment db e) := by
  cases e with
  | repository r =>
    exact ⟨{ h with }, fun op hop => ⟨op, hop, .refl op⟩⟩
  | discover id repositoryId ownerType ownerNodeId =>
    rw [environment]
    split
    · exact .of_moves h (moves_updateTarget h id fun t => ⟨rfl, rfl, rfl⟩)
    · rename_i hnew
      exact onward_discover h hnew rfl
  | retire id => exact .of_moves h (moves_updateTarget h id fun t => ⟨rfl, rfl, rfl⟩)

/-! ## The terms of the workers -/

def Lasting (db db' : Operations) : Prop :=
  ∀ op ∈ db.operations, ∃ op' ∈ db'.operations, OperationKept op op'

/-- A success is reported with a token, or of an operation that cannot be cancelled. -/
def maintenanceTerms : Terms Operations OperationReq where
  keeps := Operations.Sound
  moves := Lasting
  allows _ _ := True
  guards db
    | .finalize a => Reported db a
    | _ => True
  refl db op hop := ⟨op, hop, .refl op⟩
  trans := by
    intro db db' db'' h h' op hop
    obtain ⟨op', hop', hkept⟩ := h op hop
    obtain ⟨op'', hop'', hkept'⟩ := h' op' hop'
    exact ⟨op'', hop'', hkept.trans _ _ _ hkept'⟩

theorem onward_commit {α : Type} {result : Except OperationError (α × Operations)}
    (hresult : ∀ a db', result = .ok (a, db') → Onward db db') :
    Onward db (commit db result).2 := by
  cases result with
  | error error => exact .refl h
  | ok p => exact hresult p.1 p.2 rfl

theorem onward_respond (r : OperationReq) (hguard : maintenanceTerms.guards db r)
    (c : Choice) : Onward db (respond db r c).2 := by
  cases r with
  | create targetId operationType dueAt replaces =>
    exact onward_commit h fun _ _ hcreate => onward_create h hcreate
  | load operationId => exact .refl h
  | start operationId => exact onward_commit h fun _ _ hstart => onward_start h hstart
  | startTask taskId =>
    refine onward_commit h fun _ db' hmap => ?_
    obtain ⟨db₁, hstart, hpair⟩ := map_eq_ok.mp hmap
    obtain ⟨-, rfl⟩ := Prod.mk.inj hpair
    exact onward_startTask h hstart
  | setStep operationId token stepName progress =>
    exact onward_commit h fun _ _ hstep => onward_setStep h hstep
  | setTaskStep taskId stepName progress =>
    exact .of_moves h (moves_setTaskStep h taskId stepName progress)
  | fence operationId expected => exact onward_fence h operationId expected c.outside
  | requestCancel taskId reason =>
    exact onward_commit h fun _ _ hrequest => onward_requestCancel h hrequest
  | finalize a =>
    exact onward_commit h fun _ _ hfinalize => .of_moves h (moves_finalize h hguard hfinalize)
  | execute operationId token => exact .of_moves h (moves_heartbeat h operationId token c.outside)
  | timedOut => exact .refl h

end

theorem maintenance_kept : maintenanceTerms.Kept database environment fun _ _ => True where
  call {db r} h _ hguard c := by
    have honward := onward_respond h r hguard c
    exact ⟨honward.sound, honward.lasting⟩
  env {db e} h _ := by
    have honward := onward_environment h e
    exact ⟨honward.sound, honward.lasting⟩

abbrev Keeps {α : Type} (p : OperationProg α) (Q : α → Operations → Prop) (db : Operations) :
    Prop :=
  maintenanceTerms.Safe database (fun _ _ => True) p Q db

theorem keeps_call {r : OperationReq} {Q : OperationAns r → Operations → Prop}
    (hguard : ∀ db', db'.Sound → Lasting db db' → maintenanceTerms.guards db' r)
    (hQ : ∀ db' c, db'.Sound → Lasting db db' → Lasting db (respond db' r c).2 →
      Q (respond db' r c).1 (respond db' r c).2) : Keeps (call r) Q db := by
  intro db' hsound hlasting
  refine ⟨hguard db' hsound hlasting, fun _ c => hQ db' c hsound hlasting ?_⟩
  exact maintenanceTerms.trans hlasting
    (onward_respond hsound r (hguard db' hsound hlasting) c).lasting

theorem keeps_plain {r : OperationReq} {Q : OperationAns r → Operations → Prop}
    (hguard : ∀ db, maintenanceTerms.guards db r) (hQ : ∀ a db', Lasting db db' → Q a db') :
    Keeps (call r) Q db :=
  keeps_call (fun db' _ _ => hguard db') fun _ _ _ _ hlasting => hQ _ _ hlasting

/-! ## The workers -/

def Entitled (op : RepositoryTask) (token : Option Nat) (db : Operations) : Prop :=
  token = none → ∃ row ∈ db.operations, row.id = op.id ∧ row.cancellationSupported = false

variable {token : Option Nat}

theorem Entitled.lasting (h : Entitled op token db) (hlasting : Lasting db db') :
    Entitled op token db' := by
  intro hnone
  obtain ⟨row, hrow, hid, hsupported⟩ := h hnone
  obtain ⟨row', hrow', hkept⟩ := hlasting row hrow
  exact ⟨row', hrow', hkept.id.trans hid, hkept.cancellationSupported.trans hsupported⟩

theorem Entitled.reported (h : Entitled op token db) (hsound : db.Sound)
    (hid : a.operationId = op.id) (htoken : a.expectedExecutionToken = token) : Reported db a := by
  intro _ hnone row hrow hrowId
  obtain ⟨row', hrow', hid', hsupported⟩ := h (htoken.symm.trans hnone)
  rwa [hsound.operationIds row hrow row' hrow' (hrowId.trans (hid.trans hid'.symm))]

theorem keeps_finalize (h : Entitled op token db) (hid : a.operationId = op.id)
    (htoken : a.expectedExecutionToken = token) : Keeps (finalize a) (fun _ _ => True) db := by
  refine .andThen (P := fun _ _ => True) (keeps_call ?_ fun _ _ _ _ _ => trivial) fun ended t _ => ?_
  · exact fun db' hsound hlasting => (h.lasting hlasting).reported hsound hid htoken
  · cases ended with
    | ok status => trivial
    | error error => trivial

theorem keeps_endAs (h : Entitled op token db) (execution : Execution) :
    Keeps (endAs op token execution) (fun _ _ => True) db := by
  cases execution with
  | waiting => trivial
  | leaseLost => trivial
  | done => exact keeps_finalize h rfl rfl
  | cancelled => exact keeps_finalize h rfl rfl
  | capacityLost => exact keeps_finalize h rfl rfl
  | failed errorCode errorMessage => exact keeps_finalize h rfl rfl

theorem keeps_setRepositoryOperationStep (h : Entitled op token db) (stepName : String)
    (progress : Nat) :
    Keeps (setRepositoryOperationStep op token stepName progress)
      (fun _ => Entitled op token) db := by
  rw [setRepositoryOperationStep.eq_def]
  split
  · refine .andThen (P := fun _ => Entitled op token) ?_ fun _ _ h => h
    exact keeps_plain (fun _ => trivial) fun _ _ hlasting => h.lasting hlasting
  · cases token with
    | none => exact h
    | some token =>
      refine .andThen (P := fun _ => Entitled op (some token)) ?_ fun decision t h => ?_
      · exact keeps_plain (fun _ => trivial) fun _ _ hlasting => h.lasting hlasting
      · cases decision with
        | ok decision => exact h
        | error error => trivial

theorem keeps_setSteps (h : Entitled op token db) (steps : List (String × Nat)) :
    Keeps (setSteps op token steps) (fun _ => Entitled op token) db := by
  induction steps generalizing db with
  | nil => exact h
  | cons step steps ih =>
    refine .andThen (keeps_setRepositoryOperationStep h step.1 step.2) fun decision t ht => ?_
    cases decision with
    | «continue» => exact ih ht
    | cancel => exact ht
    | lostLease => exact ht

theorem keeps_ite {α β : Type} {p q : OperationProg α} {f : α → OperationProg β} {c : Prop}
    [Decidable c] {P : α → Operations → Prop} {Q : β → Operations → Prop} (hp : Keeps p P db)
    (hq : Keeps q P db) (hf : ∀ a t, P a t → Keeps (f a) Q t) :
    Keeps (if c then p.bind f else q.bind f) Q db := by
  split
  · exact .andThen hp hf
  · exact .andThen hq hf

theorem keeps_runOperation (h : Entitled op token db) (startedNow : Bool) :
    Keeps (runOperation op token startedNow) (fun _ _ => True) db := by
  rw [runOperation]
  refine keeps_ite (P := fun _ => Entitled op token) (keeps_setSteps h preparation) h ?_
  intro decision t ht
  cases decision with
  | «continue» =>
    refine .andThen (P := fun _ => Entitled op token) ?_ fun execution t' ht' => ?_
    · exact keeps_plain (fun _ => trivial) fun _ _ hlasting => ht.lasting hlasting
    · cases execution with
      | done => exact .andThen (keeps_setSteps ht' completion) fun _ _ h => keeps_endAs h _
      | waiting => exact keeps_endAs ht' _
      | cancelled => exact keeps_endAs ht' _
      | leaseLost => exact keeps_endAs ht' _
      | capacityLost => exact keeps_endAs ht' _
      | failed errorCode errorMessage => exact keeps_endAs ht' _
  | cancel => exact keeps_endAs ht _
  | lostLease => exact keeps_endAs ht _

theorem keeps_failed (ha : a.succeeded = false) : Keeps (finalize a) (fun _ _ => True) db := by
  have hguard : ∀ db', maintenanceTerms.guards db' (.finalize a) := by
    intro db' hsucceeded
    rw [ha] at hsucceeded
    cases hsucceeded
  refine .andThen (P := fun _ _ => True) (keeps_plain hguard fun _ _ _ => trivial) ?_
  intro ended t _
  cases ended with
  | ok status => trivial
  | error error => trivial

theorem keeps_recover (l : Loaded) (staleSeconds : Int) :
    Keeps (recoverControllerRepositoryOperation l staleSeconds) (fun _ _ => True) db := by
  rw [recoverControllerRepositoryOperation]
  dsimp only
  split
  · split
    · trivial
    · exact keeps_failed rfl
  · split
    · trivial
    · refine keeps_ite (P := fun _ _ => True)
        (keeps_plain (fun _ => trivial) fun _ _ _ => trivial) trivial fun timedOut t _ => ?_
      split
      · refine .andThen (P := fun _ _ => True)
          (keeps_plain (fun _ => trivial) fun _ _ _ => trivial) fun recovery t' _ => ?_
        cases recovery with
        | none => trivial
        | some recovery => exact keeps_failed rfl
      · trivial

theorem keeps_load :
    Keeps (call (.load operationId)) (fun loaded t => ∀ l : Loaded, loaded = some l →
      l.op ∈ t.operations ∧ l.op.id = operationId) db := by
  refine keeps_call (fun _ _ _ => trivial) fun db' c _ _ _ l hl => ?_
  obtain ⟨p, hfind, rfl⟩ := Option.map_eq_some_iff.mp hl
  obtain ⟨-, hop, hid, -, -⟩ := operation_eq hfind
  exact ⟨hop, hid⟩

theorem entitled_of_node (hop : op ∈ db.operations) (hnode : op.ownerType = .node)
    (token : Option Nat) : Entitled op token db := by
  refine fun _ => ⟨op, hop, rfl, ?_⟩
  rw [RepositoryTask.cancellationSupported, hnode]
  rfl

theorem keeps_executeRepositoryOperation (operationId : Nat) (staleSeconds : Int) :
    Keeps (executeRepositoryOperation operationId staleSeconds) (fun _ _ => True) db := by
  refine .andThen keeps_load fun loaded t hloaded => ?_
  cases loaded with
  | none => trivial
  | some l =>
    obtain ⟨hmem, -⟩ := hloaded l rfl
    dsimp only
    split
    · trivial
    · split
      · refine .andThen (P := fun _ _ => True)
          (keeps_plain (fun _ => trivial) fun _ _ _ => trivial) fun token t' _ => ?_
        cases token with
        | error error => trivial
        | ok token =>
          cases token with
          | none => trivial
          | some token => exact keeps_runOperation (fun hnone => by cases hnone) true
      · rename_i hnode
        have hentitled := entitled_of_node hmem hnode l.op.executionToken
        refine .andThen (P := fun _ => Entitled l.op l.op.executionToken)
          (keeps_plain (fun _ => trivial) fun _ _ hlasting => hentitled.lasting hlasting) ?_
        intro started t' h
        cases started with
        | error error => trivial
        | ok u => exact keeps_runOperation h true
      · exact keeps_recover l staleSeconds
      · rename_i hnode
        exact keeps_runOperation (entitled_of_node hmem hnode l.op.executionToken) false
      · trivial

theorem keeps_finishReconciliation (operationId : Nat) (succeeded : Bool)
    (errorCode reason : String) (advance : Bool) :
    Keeps (finishReconciliation operationId succeeded errorCode reason advance)
      (fun _ _ => True) db := by
  refine .andThen keeps_load fun loaded t hloaded => ?_
  cases loaded with
  | none => trivial
  | some l =>
    dsimp only
    split
    · rename_i htype
      obtain ⟨hmem, hid⟩ := hloaded l rfl
      have hentitled : Entitled l.op none t := by
        refine fun _ => ⟨l.op, hmem, rfl, ?_⟩
        rw [RepositoryTask.cancellationSupported, htype]
        exact Bool.and_false _
      exact keeps_finalize hentitled hid.symm rfl
    · trivial

/-! ## Runs -/

theorem keeps_body (job : OperationJob) (db : Operations) :
    Keeps job.body (fun _ _ => True) db := by
  cases job with
  | create targetId operationType dueAt replaces =>
    exact .andThen (P := fun _ _ => True)
      (keeps_plain (fun _ => trivial) fun _ _ _ => trivial) fun _ _ _ => trivial
  | execute operationId staleSeconds =>
    exact keeps_executeRepositoryOperation operationId staleSeconds
  | requestCancel taskId reason =>
    exact .andThen (P := fun _ _ => True)
      (keeps_plain (fun _ => trivial) fun _ _ _ => trivial) fun _ _ _ => trivial
  | finishReconciliation operationId succeeded errorCode reason advance =>
    exact keeps_finishReconciliation operationId succeeded errorCode reason advance

theorem sound_empty : Operations.Sound {} where
  targetIds := .nil
  operationIds := .nil
  taskIds := .nil
  tasks op hop := by cases hop
  single := .nil
  active op hop := by cases hop
  owned t ht := by cases ht
  apart t ht := by cases ht
  cancelled op hop := by cases hop

theorem steady_of_step (s : OperationPool) (a : PoolEvent OperationJob Choice OperationEnv) :
    maintenanceTerms.Steady (fun _ _ => True) s a := by
  cases a with
  | start job => trivial
  | env e => trivial
  | call i c =>
    rw [Terms.Steady]
    split <;> trivial

theorem sound_of_reachable {s : OperationPool} (h : repositoryOperations.Reachable s) :
    maintenanceTerms.Sound database s := by
  refine Terms.sound_of_reachable maintenance_kept (fun job t => keeps_body job t) sound_empty ?_
  exact h.mono fun t a _ => steady_of_step t a

theorem respond_of_token_ne (h : db.Sound) (hop : op ∈ db.operations) {token : Nat}
    (htoken : op.executionToken ≠ some token) (c : Choice) :
    (∀ stepName progress, (respond db (.setStep op.id token stepName progress) c).2 = db) ∧
      ∀ a : Operations.Finalize, a.operationId = op.id → a.expectedExecutionToken = some token →
        (respond db (.finalize a) c).2 = db := by
  obtain ⟨task, htask, hid⟩ := h.tasks op hop
  have hfind : db.operation op.id = some (op, task) := by
    rw [Operations.operation, h.operationIds.find_eq hop]
    show (Table.find Task.id db.tasks op.taskId).bind (fun task => some (op, task)) = _
    rw [← hid, h.taskIds.find_eq htask]
    rfl
  constructor
  · intro stepName progress
    show (commit db (db.setControllerRepositoryOperationStep _ _ _ _ _)).2 = db
    simp only [Operations.setControllerRepositoryOperationStep, hfind]
    rw [if_pos (by simp [htoken])]
    rfl
  · intro a hid hexpected
    show (commit db (db.finalizeRepositoryOperation a c.outside)).2 = db
    simp only [Operations.finalizeRepositoryOperation, hid, hfind, hexpected]
    split
    · rfl
    · rw [if_pos (by simp [htoken])]
      rfl

def Operations.Active (db : Operations) (targetId : Nat) (op : RepositoryTask) : Prop :=
  op ∈ db.operations ∧ op.executionTarget = some targetId ∧
    ∃ task ∈ db.tasks, task.id = op.taskId ∧ task.status.isTerminal = false

/-- In every run: a target has at most one operation that is not over, its active task; a
reconciliation has the repository for itself; an old token changes nothing; and an
operation whose cancellation is requested before it ends does not end as a success. -/
theorem exclusive_and_fenced {s : OperationPool} (h : repositoryOperations.Reachable s) :
    (∀ targetId op, s.state.Active targetId op →
      (∃ t ∈ s.state.targets, t.id = targetId ∧ t.activeTask = some op.taskId) ∧
        ∀ op', s.state.Active targetId op' → op' = op) ∧
    (∀ t ∈ s.state.targets, ∀ op ∈ s.state.operations, t.activeTask = some op.taskId →
      op.operationType = .snapshotReconcile → ∀ t' ∈ s.state.targets,
        t'.repositoryId = t.repositoryId → t'.id ≠ t.id →
          t'.activeTask = none ∧ ∀ op', ¬s.state.Active t'.id op') ∧
    (∀ op ∈ s.state.operations, ∀ token, op.executionToken ≠ some token → ∀ c,
      (∀ stepName progress,
        (respond s.state (.setStep op.id token stepName progress) c).2 = s.state) ∧
      ∀ a : Operations.Finalize, a.operationId = op.id → a.expectedExecutionToken = some token →
        (respond s.state (.finalize a) c).2 = s.state) ∧
    (∀ op ∈ s.state.operations, op.cancelRequestedAt.isSome = true →
      ∀ s', repositoryOperations.Path (fun _ _ => True) s s' →
        ∀ op' ∈ s'.state.operations, op'.id = op.id →
          ∀ task ∈ s'.state.tasks, task.id = op'.taskId → task.status ≠ .success) := by
  have hsound := sound_of_reachable h
  have hkeeps := hsound.keeps
  have hactive : ∀ targetId op, s.state.Active targetId op →
      ∃ t ∈ s.state.targets, t.id = targetId ∧ t.activeTask = some op.taskId := by
    rintro targetId op ⟨hop, htarget, task, htask, hid, hstatus⟩
    exact hkeeps.active op hop task htask hid hstatus targetId htarget
  refine ⟨fun targetId op hop => ⟨hactive targetId op hop, fun op' hop' => ?_⟩, ?_, ?_, ?_⟩
  · obtain ⟨t, ht, htid, htask⟩ := hactive targetId op hop
    obtain ⟨t', ht', htid', htask'⟩ := hactive targetId op' hop'
    rw [hkeeps.targetIds t' ht' t ht (htid'.trans htid.symm), htask] at htask'
    exact hkeeps.single op' hop'.1 op hop.1 (Option.some.inj htask').symm
  · intro t ht op hop htask htype t' ht' hrepository hne
    have hreconciling : s.state.isReconciling t = true :=
      List.any_eq_true.mpr ⟨op, hop, by simp [htask, htype]⟩
    have hnone := hkeeps.apart t ht t' ht' hrepository.symm hne.symm hreconciling
    refine ⟨hnone, fun op' hop' => ?_⟩
    obtain ⟨u, hu, huid, hutask⟩ := hactive t'.id op' hop'
    rw [hkeeps.targetIds u hu t' ht' huid, hnone] at hutask
    cases hutask
  · exact fun op hop token htoken c => respond_of_token_ne hkeeps hop htoken c
  · intro op hop hrequested s' hpath op' hop' hid task htask htaskId
    obtain ⟨hsound', hlasting⟩ := Terms.sound_of_path maintenance_kept
      (fun job t => keeps_body job t) hsound (hpath.mono fun t a _ => steady_of_step t a)
    obtain ⟨op'', hop'', hkept⟩ := hlasting op hop
    obtain rfl : op'' = op' :=
      hsound'.keeps.operationIds op'' hop'' op' hop' (hkept.id.trans hid.symm)
    exact (hsound'.keeps.cancelled op'' hop'' (hkept.requested hrequested)).2 task htask htaskId

/-- A quick maintenance is admitted and started, its cancellation is requested while the
process runs, and its worker reports that it is done. -/
def cancelledMaintenance : List (PoolEvent OperationJob Choice OperationEnv) :=
  [.env (.repository ⟨1, true⟩), .env (.discover 7 1 .controller none),
    .start (.create 7 .maintenanceQuick none none), .call 0 {},
    .start (.execute 1 60), .call 1 {}, .call 1 {}, .call 1 {}, .call 1 {}, .call 1 {}, .call 1 {},
    .start (.requestCancel 1 "stop"), .call 2 {}]

def cancelledState : OperationPool :=
  (repositoryOperations.exec ⟨{}, fun _ => none, 0⟩ cancelledMaintenance).get (by decide +kernel)

/-- The worker that is done ends the operation as cancelled. -/
theorem exclusive_and_fenced_cancelled :
    cancelledState.state.operations.map (fun op => (op.cancelRequestedAt, op.executionToken)) =
      [(some 0, some 0)] ∧
    cancelledState.state.tasks.map (·.status) = [.running] ∧
    ∀ op ∈ cancelledState.state.operations, op.cancelRequestedAt.isSome = true →
      ∀ s', repositoryOperations.Path (fun _ _ => True) cancelledState s' →
        ∀ op' ∈ s'.state.operations, op'.id = op.id →
          ∀ task ∈ s'.state.tasks, task.id = op'.taskId → task.status ≠ .success := by
  have hreachable : repositoryOperations.Reachable cancelledState :=
    .of_exec rfl (Option.some_get _).symm
  exact ⟨by decide +kernel, by decide +kernel, (exclusive_and_fenced hreachable).2.2.2⟩

end HyperFileLens.Storage.Maintenance
