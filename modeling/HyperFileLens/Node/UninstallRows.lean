import HyperFileLens.Node.NodeLifecycle

/-!
# What happens to the row of an uninstall

The row of an uninstall under whatever writes it.

*Steady rows.*  A row that runs is not completed, a success is sealed, and what is completed is
sealed and has detached.

*Decided rows.*  No callback changes their status any more.

*Moves.*  Every writer keeps these, as long as no frame lets a row run again that has ended.
-/

namespace HyperFileLens.Node

variable {conf : Settings} {task task' : NodeTask} {r r' : Dict}

structure NodeTask.IsUninstall (task : NodeTask) : Prop where
  correlated : task.isLifecycleCorrelatedTask = true
  kind : task.kind = "agent.uninstall"

variable {incoming : String}

theorem NodeTask.IsUninstall.lifecycleKind (h : task.IsUninstall) :
    isLifecycleKind task.kind = true := by
  rw [h.kind]
  decide

def NodeTask.IsSealed (task : NodeTask) : Prop :=
  task.hasFlag "lifecycle_terminal_sealed" = true

/-- What the row of an uninstall tells of its end is in order. -/
structure NodeTask.IsSteady (task : NodeTask) : Prop where
  running : task.status.isActive = true → task.isCompleted = false
  success : task.status = .success → task.IsSealed
  completed : task.isCompleted = true → task.IsSealed ∧ isDetachedMode task.result = true

/-- No callback changes the status of the row any more. -/
def NodeTask.IsDecided (task : NodeTask) : Prop :=
  (task.status = .success ∧ task.IsSealed) ∨ task.status = .canceled ∨
    (task.status = .failed ∧ task.IsSealed ∧ isDetachedMode task.result = true)

theorem NodeTask.IsDecided.not_active (h : task.IsDecided) : task.status.isActive = false := by
  rcases h with ⟨h, -⟩ | h | ⟨h, -⟩ <;> rw [h] <;> rfl

/-- The keys that tell of the end of an uninstall. -/
def completionKeys : List String := ["completion_received_at", "completion_timed_out_at"]

theorem SameAt.isCompletedResult (h : SameAt completionKeys r r') :
    isCompletedResult r' = isCompletedResult r := by
  rw [Node.isCompletedResult, h "completion_received_at" (by decide),
    h "completion_timed_out_at" (by decide)]
  rfl

/-- What a write may do to the row of an uninstall. -/
structure UninstallMoves (task task' : NodeTask) : Prop where
  uninstall : task'.IsUninstall
  quiet : task.status.isActive = false → task'.status.isActive = false
  steady : task'.IsSteady
  decided : task.IsDecided → task'.IsDecided
  cleaningUp : task.isCleaningUp = true → task'.isCleaningUp = true

theorem UninstallMoves.refl (htask : task.IsUninstall) (hsteady : task.IsSteady) :
    UninstallMoves task task := ⟨htask, fun h => h, hsteady, fun h => h, fun h => h⟩

/-! ## Results -/

theorem uninstallMoves_late (htask : task.IsUninstall) (hsteady : task.IsSteady) (late : Json) :
    let task' := { task with result := task.result.set "late_result" late }
    UninstallMoves task task' ∧ (task'.isCleaningUp = true → task.isCleaningUp = true) := by
  dsimp only
  have hsame : SameAt ("mode" :: "lifecycle_terminal_sealed" :: completionKeys) task.result
      (task.result.set "late_result" late) := (SameAt.refl _ _).set (by decide) _
  have hcompleted : isCompletedResult (task.result.set "late_result" late) = task.isCompleted :=
    (hsame.mono (by decide)).isCompletedResult
  have hsealed : ({ task with result := task.result.set "late_result" late } : NodeTask).IsSealed ↔
      task.IsSealed := by
    rw [NodeTask.IsSealed, NodeTask.hasFlag, hsame "lifecycle_terminal_sealed" (by decide)]
    rfl
  have hmode : isDetachedMode (task.result.set "late_result" late) =
      isDetachedMode task.result := by
    rw [isDetachedMode, hsame "mode" (by decide)]
    rfl
  have hcleaning : ({ task with result := task.result.set "late_result" late } :
      NodeTask).isCleaningUp = task.isCleaningUp := by
    rw [NodeTask.isCleaningUp, NodeTask.isCompleted, hcompleted]
    rfl
  refine ⟨⟨⟨htask.correlated, htask.kind⟩, fun h => h, ⟨fun hactive => ?_, fun hst => ?_,
    fun hdone => ?_⟩, fun hdecided => ?_, fun h => hcleaning.trans h⟩, fun h => hcleaning ▸ h⟩
  · exact hcompleted.trans (hsteady.running hactive)
  · exact hsealed.mpr (hsteady.success hst)
  · obtain ⟨hseal, hdet⟩ := hsteady.completed (hcompleted.symm.trans hdone)
    exact ⟨hsealed.mpr hseal, hmode.trans hdet⟩
  · rcases hdecided with ⟨hst, hseal⟩ | hst | ⟨hst, hseal, hdet⟩
    · exact .inl ⟨hst, hsealed.mpr hseal⟩
    · exact .inr (.inl hst)
    · exact .inr (.inr ⟨hst, hsealed.mpr hseal, hmode.trans hdet⟩)

/-- A row that has taken the end of an uninstall. -/
structure Ended (task task' : NodeTask) (incoming : String) (result : Dict) : Prop where
  uninstall : task'.IsUninstall
  terminal : task'.status.isActive = false
  sealed : task'.IsSealed
  steady : task'.IsSteady
  canceled : isCancelWord incoming = true → task'.status = .canceled
  cleaningUp : task'.isCleaningUp = true → isSuccessWord incoming = true ∧
    (isCompletedResult result = true ∨ task.isCompleted = true)
  decided : isDetachedMode result = true → result.isEmpty = false → task'.IsDecided

variable {result : Dict}

theorem ended_storeResult (conf : Settings) (htask : task.IsUninstall) (hsteady : task.IsSteady)
    (hrunning : incoming ≠ "running")
    (hresult : isCompletedResult result = true → isDetachedMode result = true) (error : String)
    (replaceResult : Bool) (now : Instant) :
    Ended task (storeResult conf task incoming result result error replaceResult now) incoming
      result := by
  have hstatus := status_storeResult conf task hrunning result result error replaceResult now
  have hlifecycle : (task.isLifecycleCorrelatedTask && isLifecycleKind task.kind) = true := by
    rw [htask.correlated, htask.lifecycleKind]
    rfl
  obtain ⟨base, hstored, hbase⟩ : ∃ base : Dict,
      (storeResult conf task incoming result result error replaceResult now).result =
        base.set "lifecycle_terminal_sealed" (.bool true) ∧
      ((result.isEmpty = true ∧ base = withoutDeliveryRuntimeState task.result) ∨
        (result.isEmpty = false ∧ base = result)) := by
    rw [storeResult, if_neg hrunning]
    dsimp only
    rw [if_pos hlifecycle]
    cases hempty : result.isEmpty with
    | true => exact ⟨_, rfl, .inl ⟨rfl, rfl⟩⟩
    | false => exact ⟨_, rfl, .inr ⟨rfl, rfl⟩⟩
  have hkept : SameAt ("mode" :: completionKeys) task.result
      (withoutDeliveryRuntimeState task.result) :=
    (SameAt.refl _ _).withoutDelivery (by decide)
  have hset : SameAt ("mode" :: completionKeys) base
      (base.set "lifecycle_terminal_sealed" (.bool true)) := (SameAt.refl _ _).set (by decide) _
  have hcompleted : isCompletedResult base = true →
      (isCompletedResult result = true ∨ task.isCompleted = true) ∧ isDetachedMode base = true := by
    rcases hbase with ⟨-, rfl⟩ | ⟨-, rfl⟩
    · rw [(hkept.mono (by decide)).isCompletedResult]
      intro hdone
      refine ⟨.inr hdone, ?_⟩
      rw [isDetachedMode, hkept "mode" (by decide)]
      exact (hsteady.completed hdone).2
    · exact fun hdone => ⟨.inl hdone, hresult hdone⟩
  have hsealed : (storeResult conf task incoming result result error replaceResult now).IsSealed := by
    rw [NodeTask.IsSealed, NodeTask.hasFlag, hstored, Dict.get_set_self]
    rfl
  have hdone : (storeResult conf task incoming result result error replaceResult
      now).isCompleted = isCompletedResult base := by
    rw [NodeTask.isCompleted, hstored, (hset.mono (by decide)).isCompletedResult]
  have hmode : isDetachedMode (storeResult conf task incoming result result error replaceResult
      now).result = isDetachedMode base := by
    rw [hstored, isDetachedMode, hset "mode" (by decide)]
    rfl
  have hterminal : (storeResult conf task incoming result result error replaceResult
      now).status.isActive = false := by
    rw [hstatus]
    split
    · rfl
    · split <;> rfl
  refine ⟨⟨?_, ?_⟩, hterminal, hsealed, ⟨fun hact => ?_, fun _ => hsealed, fun h => ?_⟩,
    fun hcancel => ?_, fun hcleaning => ?_, fun hdetached hempty => ?_⟩
  · rw [NodeTask.isLifecycleCorrelatedTask, correlationType_storeResult]
    exact htask.correlated
  · exact (sameOperation_storeResult _ _ _ _ _ _ _ _).kind.trans htask.kind
  · rw [hterminal] at hact
    cases hact
  · rw [hdone] at h
    exact ⟨hsealed, hmode.trans (hcompleted h).2⟩
  · rw [hstatus, isCancelWord_not_success hcancel, if_neg Bool.false_ne_true, if_pos hcancel]
  · rw [NodeTask.isCleaningUp, Bool.and_eq_true, decide_eq_true_eq, hstatus, hdone] at hcleaning
    refine ⟨?_, (hcompleted hcleaning.2).1⟩
    by_contra hword
    have hst := hcleaning.1
    rw [if_neg hword] at hst
    split at hst <;> cases hst
  · have hbase' : base = result := by
      rcases hbase with ⟨h, -⟩ | ⟨-, h⟩
      · rw [hempty] at h
        cases h
      · exact h
    have hdet := hmode.trans ((congrArg isDetachedMode hbase').trans hdetached)
    rw [NodeTask.IsDecided, hstatus]
    split
    · exact .inl ⟨rfl, hsealed⟩
    · split
      · exact .inr (.inl rfl)
      · exact .inr (.inr ⟨rfl, hsealed, hdet⟩)

structure ResultMoves (task task' : NodeTask) (incoming : String) (result : Dict) : Prop where
  moves : UninstallMoves task task'
  cleaningUp : task'.isCleaningUp = true → task.isCleaningUp = true ∨
    (isSuccessWord incoming = true ∧ isCompletedResult result = true)
  changed : task'.status ≠ task.status → isDetachedMode result = true → result.isEmpty = false →
    task'.IsDecided
  kept : task.IsDecided → isCancelWord incoming = false → task'.status = task.status

theorem resultMoves_refl (htask : task.IsUninstall) (hsteady : task.IsSteady) (incoming : String)
    (result : Dict) : ResultMoves task task incoming result :=
  ⟨.refl htask hsteady, .inl, fun h => absurd rfl h, fun _ _ => rfl⟩

theorem resultMoves_late (htask : task.IsUninstall) (hsteady : task.IsSteady) (late : Json)
    (incoming : String) (result : Dict) :
    ResultMoves task { task with result := task.result.set "late_result" late } incoming result := by
  obtain ⟨hmoves, hcleaning⟩ := uninstallMoves_late htask hsteady late
  exact ⟨hmoves, fun h => .inl (hcleaning h), fun h => absurd rfl h, fun _ _ => rfl⟩

theorem commitResult_sealed_failed (conf : Settings)
    (hcorrelated : task.isLifecycleCorrelatedTask = true) (hstatus : task.status = .failed)
    (hsealed : task.IsSealed) (hterminal : incomingTerminalStatus incoming = some .failed)
    (result incomingResult : Dict) (error : String) (replaceResult : Bool) (now : Instant) :
    (commitResult conf task incoming result incomingResult error replaceResult now).task =
      task := by
  rw [NodeTask.IsSealed] at hsealed
  rw [commitResult, hterminal, hcorrelated, hsealed, hstatus]
  rfl

theorem incomingTerminalStatus_failed (hrunning : incoming ≠ "running")
    (hsuccess : isSuccessWord incoming = false) (hcancel : isCancelWord incoming = false) :
    incomingTerminalStatus incoming = some .failed := by
  rw [incomingTerminalStatus, if_neg hrunning, hsuccess, hcancel]
  rfl

/-- A result other than `running`. -/
theorem resultMoves_commitResult (conf : Settings) (htask : task.IsUninstall)
    (hsteady : task.IsSteady) (hrunning : incoming ≠ "running")
    (hresult : isCompletedResult result = true → isDetachedMode result = true) (error : String)
    (replaceResult : Bool) (now : Instant) :
    ResultMoves task
      (commitResult conf task incoming result result error replaceResult now).task incoming
      result := by
  have hended := ended_storeResult conf htask hsteady hrunning hresult error replaceResult now
  have hstored (hdone : task.isCompleted = true → isSuccessWord incoming = false)
      (hdecided : task.IsDecided → isCancelWord incoming = true)
      (hcleaning : task.isCleaningUp = false) :
      ResultMoves task (storeResult conf task incoming result result error replaceResult now)
        incoming result := by
    refine ⟨⟨hended.uninstall, fun _ => hended.terminal, hended.steady, fun h => ?_, fun h => ?_⟩,
      fun h => .inr ?_, fun _ => hended.decided, fun h hcancel =>
        absurd (hcancel.symm.trans (hdecided h)) Bool.false_ne_true⟩
    · exact .inr (.inl (hended.canceled (hdecided h)))
    · rw [hcleaning] at h
      cases h
    · obtain ⟨hword, hor⟩ := hended.cleaningUp h
      refine ⟨hword, hor.resolve_right fun hold => ?_⟩
      rw [hdone hold] at hword
      cases hword
  -- Whatever is not stored leaves the row as it is, or adds a late result.
  have hcases (hst : task.status ≠ .success)
      (hdone : task.Admits incoming → task.isCompleted = true → isSuccessWord incoming = false)
      (hdecided : task.Admits incoming → task.IsDecided → isCancelWord incoming = true) :
      ResultMoves task
        (commitResult conf task incoming result result error replaceResult now).task incoming
        result := by
    have hcleaning : task.isCleaningUp = false := by
      rw [NodeTask.isCleaningUp, decide_eq_false hst]
      rfl
    rcases commitResult_cases conf task incoming result result error replaceResult now with
      h | ⟨-, late, h⟩ | ⟨hadmits, h⟩
    · rw [h]
      exact resultMoves_refl htask hsteady incoming result
    · rw [h]
      exact resultMoves_late htask hsteady late incoming result
    · rw [h]
      exact hstored (hdone hadmits) (hdecided hadmits) hcleaning
  have hactive (hact : task.status.isActive = true) (hst : task.status ≠ .success) :=
    hcases hst (fun _ hdone => absurd ((hsteady.running hact).symm.trans hdone) Bool.false_ne_true)
      fun _ hdecided => absurd (hact.symm.trans hdecided.not_active) (by decide)
  -- A detached row that has failed keeps a success as a late result.
  have hfailed (hor : task.status = .failed ∨ task.status = .timeout)
      (hdecided : isSuccessWord incoming = false → task.IsDecided → isCancelWord incoming = true) :
      ResultMoves task
        (commitResult conf task incoming result result error replaceResult now).task incoming
        result := by
    have hst : task.status ≠ .success := by
      rcases hor with h | h <;> rw [h] <;> simp
    cases hword : isSuccessWord incoming with
    | false => exact hcases hst (fun _ _ => hword) fun _ => hdecided hword
    | true =>
      cases hdet : isDetachedMode task.result with
      | true =>
        obtain ⟨late, h⟩ := commitResult_late now conf htask.correlated htask.lifecycleKind hdet
          hor hword result result error replaceResult
        rw [h]
        exact resultMoves_late htask hsteady late incoming result
      | false =>
        refine hcases hst (fun _ hdone => ?_) fun _ hd => ?_
        · rw [(hsteady.completed hdone).2] at hdet
          cases hdet
        · rcases hd with ⟨h, -⟩ | h | ⟨-, -, h⟩
          · exact absurd h hst
          · rw [h] at hor
            rcases hor with h | h <;> cases h
          · rw [h] at hdet
            cases hdet
  cases hst : task.status with
  | success =>
    rw [commitResult_sealed_success conf htask.correlated hst (hsteady.success hst)]
    exact resultMoves_refl htask hsteady incoming result
  | pending => exact hactive (by rw [hst]; rfl) (by rw [hst]; simp)
  | running => exact hactive (by rw [hst]; rfl) (by rw [hst]; simp)
  | canceled =>
    have hcancel (hadmits : task.Admits incoming) : isCancelWord incoming = true := by
      rcases hadmits with hact | ⟨-, -, hcancel⟩
      · rw [hst] at hact
        cases hact
      · exact hcancel hst
    exact hcases (by rw [hst]; simp)
      (fun hadmits _ => isCancelWord_not_success (hcancel hadmits)) fun hadmits _ => hcancel hadmits
  | failed =>
    by_cases hrepeated : isCancelWord incoming = false ∧ isSuccessWord incoming = false ∧
        task.IsSealed
    · obtain ⟨hcancel, hword, hsealed⟩ := hrepeated
      rw [commitResult_sealed_failed conf htask.correlated hst hsealed
        (incomingTerminalStatus_failed hrunning hword hcancel)]
      exact resultMoves_refl htask hsteady incoming result
    · refine hfailed (.inl hst) fun hword hdecided => ?_
      cases hcancel : isCancelWord incoming with
      | true => rfl
      | false =>
        rcases hdecided with ⟨h, -⟩ | h | ⟨-, hsealed, -⟩
        · rw [hst] at h
          cases h
        · rw [hst] at h
          cases h
        · exact absurd ⟨hcancel, hword, hsealed⟩ hrepeated
  | timeout =>
    refine hfailed (.inr hst) fun _ hdecided => ?_
    rcases hdecided with ⟨h, -⟩ | h | ⟨h, -⟩ <;> rw [hst] at h <;> cases h

/-! ## Running rows -/

theorem uninstallMoves_running (hactive : task.status.isActive = true) (htask' : task'.IsUninstall)
    (hstatus : task'.status ≠ .success) (hdone : task'.isCompleted = false) :
    UninstallMoves task task' ∧ task'.isCleaningUp = false := by
  have hclean : task'.isCleaningUp = false := by
    rw [NodeTask.isCleaningUp, hdone, Bool.and_false]
  refine ⟨⟨htask', fun h => absurd (hactive.symm.trans h) (by decide), ⟨fun _ => hdone,
    fun h => absurd h hstatus, fun h => absurd (hdone.symm.trans h) Bool.false_ne_true⟩,
    fun h => absurd (hactive.symm.trans h.not_active) (by decide), fun h => ?_⟩, hclean⟩
  rw [NodeTask.isCleaningUp, Bool.and_eq_true, decide_eq_true_eq] at h
  rw [h.1] at hactive
  cases hactive

theorem SameOperation.isUninstall (h : SameOperation task task') (htask : task.IsUninstall) :
    task'.IsUninstall := by
  refine ⟨?_, h.kind.trans htask.kind⟩
  rw [NodeTask.isLifecycleCorrelatedTask, h.correlationType]
  exact htask.correlated

def progressKeys : List String := ["last_progress", "mode", "target_version", "detached_at"]

theorem sameAt_mergeProgress {keys : List String} (hkeys : ∀ k ∈ progressKeys, k ∉ keys)
    (task : NodeTask) (progress merged : Dict) (now : Instant) :
    SameAt keys merged (mergeProgressIntoResult task progress merged now) := by
  rw [mergeProgressIntoResult]
  split
  · exact .refl _ _
  have hprogress := (SameAt.refl keys merged).set (hkeys "last_progress" (by decide))
    (.obj progress)
  dsimp only
  split
  · exact hprogress
  have hmode := hprogress.set (hkeys "mode" (by decide)) (.str "local_detached")
  split
  · have htarget := hmode.set (hkeys "target_version" (by decide))
      (.str (Text.strip (progress.get "target_version").strOr))
    split
    · exact htarget
    · exact htarget.set (hkeys "detached_at" (by decide)) _
  · split
    · exact hmode
    · exact hmode.set (hkeys "detached_at" (by decide)) _

theorem sameAt_applyDetachedMarker (keys : List String) (hkeys : "detached_at" ∉ keys)
    (conf : Settings) (task : NodeTask) (now : Instant) :
    SameAt keys task.result (applyDetachedMarker conf task now).result := by
  rw [applyDetachedMarker]
  split
  · rw [applyDetachedRunningState]
    split
    · exact .refl _ _
    · dsimp only
      split
      · exact .refl _ _
      · exact (SameAt.refl _ _).set hkeys _
  · exact .refl _ _

theorem sameAt_recordTaskProgress (conf : Settings) (task : NodeTask) (progress : Dict)
    (downloadCapable : Bool) (now : Instant) :
    SameAt completionKeys task.result
      (recordTaskProgress conf task progress downloadCapable now).result := by
  rw [recordTaskProgress]
  split
  · exact .refl _ _
  have hkept : SameAt completionKeys task.result (withoutDeliveryRuntimeState task.result) :=
    (SameAt.refl _ _).withoutDelivery (by decide)
  dsimp only
  split
  · exact hkept
  · exact (hkept.trans (sameAt_mergeProgress (by decide) _ _ _ _)).trans
      (sameAt_applyDetachedMarker _ (by decide) _ _ _)

/-- A result frame of an Agent for an uninstall: it does not tell of the completion. -/
structure UninstallFrame (message : ResultFrame) : Prop where
  keyed : message.result.Keyed
  completion : ∀ k ∈ completionKeys, k ∉ message.result.map Prod.fst

theorem UninstallFrame.not_completed {message : ResultFrame} (h : UninstallFrame message) :
    isCompletedResult message.result = false := by
  have hnull (k : String) (hk : k ∈ completionKeys) : message.result.get k = .null := by
    rw [Dict.get, Dict.get?_eq_none.mpr (h.completion k hk)]
    rfl
  rw [isCompletedResult, hnull _ (by decide), hnull _ (by decide)]
  rfl

theorem NodeTask.IsUninstall.handleTaskResult (htask : task.IsUninstall) (message : ResultFrame)
    (now : Instant) : (handleTaskResult conf task message now).task =
      (commitResult conf task (Text.lower message.reportedStatus) message.result message.result
        message.error false now).task := by
  have hkind : (task.kind = "agent.upgrade") = False := by
    rw [htask.kind]
    decide
  rw [Node.handleTaskResult, uplinkStatus, uplinkResult]
  simp only [hkind, decide_false, Bool.false_and, Bool.not_false, if_true, Bool.false_eq_true,
    if_false]
  rw [completeTask_correlated conf htask.correlated]

/-! ## Frames and writers -/

/-- The result frames of an Agent do not tell of the completion. -/
def UplinkFrame.FromAgent : UplinkFrame → Prop
  | .result message _ => UninstallFrame message
  | _ => True

/-- A result that reports `running` to a running row. -/
theorem uninstallMoves_running_result (conf : Settings) (htask : task.IsUninstall)
    (hsteady : task.IsSteady) (hactive : task.status.isActive = true) {message : ResultFrame}
    (hframe : UninstallFrame message) (now : Instant) :
    let task' := storeResult conf task "running" message.result message.result message.error false
      now
    UninstallMoves task task' ∧ task'.isCleaningUp = false := by
  dsimp only
  refine uninstallMoves_running hactive
    ((sameOperation_storeResult _ _ _ _ _ _ _ _).isUninstall htask) ?_ ?_
  · rw [status_storeResult_running]
    simp
  · have hkept : SameAt completionKeys task.result
        ((withoutDeliveryRuntimeState task.result).update message.result) :=
      ((SameAt.refl _ _).withoutDelivery (by decide)).update hframe.keyed hframe.completion
    have hmarker := sameAt_applyDetachedMarker completionKeys (by decide) conf { task with
        status := .running
        acceptedAt := some (task.acceptedAt.getD now.time)
        result := (withoutDeliveryRuntimeState task.result).update message.result
        lastError := if message.error ≠ "" then clipError message.error else task.lastError } now
    rw [NodeTask.isCompleted, storeResult, if_pos rfl]
    exact (hkept.trans hmarker).isCompletedResult.trans (hsteady.running hactive)

/-- A result that reports `running` to a row that has ended. -/
theorem commitResult_running_ended (conf : Settings) (htask : task.IsUninstall)
    (hactive : task.status.isActive = false) {message : ResultFrame} {now : Instant}
    (hseal : KeepsSeal task (.result message now))
    (hrunning : Text.lower message.reportedStatus = "running") :
    (commitResult conf task (Text.lower message.reportedStatus) message.result message.result
      message.error false now).task = task := by
  have hkeep : (completeTask conf task message.reportedStatus message.result message.error false
      now).task = _ := completeTask_running hrunning _ _ _ _
  rw [completeTask_correlated conf htask.correlated] at hkeep
  rw [hkeep, if_pos]
  rw [Status.isTerminal_eq, hactive]
  cases hst : task.status with
  | pending => simp [hst, Status.isActive] at hactive
  | running => simp [hst, Status.isActive] at hactive
  | success => simp
  | canceled => simp
  | failed => simp [hseal hrunning (.inl hst)]
  | timeout => simp [hseal hrunning (.inr hst)]

theorem uninstallMoves_receive (conf : Settings) (htask : task.IsUninstall)
    (hsteady : task.IsSteady) {frame : UplinkFrame} (hseal : KeepsSeal task frame)
    (hframe : frame.FromAgent) : UninstallMoves task (task.receive conf frame) ∧
      ((task.receive conf frame).isCleaningUp = true → task.isCleaningUp = true) := by
  have hsame : UninstallMoves task task ∧ (task.isCleaningUp = true → task.isCleaningUp = true) :=
    ⟨.refl htask hsteady, fun h => h⟩
  have hmoved {t : NodeTask} (h : UninstallMoves task t ∧ t.isCleaningUp = false) :
      UninstallMoves task t ∧ (t.isCleaningUp = true → task.isCleaningUp = true) :=
    ⟨h.1, fun h' => absurd (h.2.symm.trans h') Bool.false_ne_true⟩
  have hdecided (hactive : task.status.isActive = false) : task.IsDecidedLifecycle :=
    ⟨htask.correlated, by rw [Status.isTerminal_eq, hactive]; rfl⟩
  cases frame with
  | accepted now =>
    cases hactive : task.status.isActive with
    | false =>
      rw [NodeTask.receive, (hdecided hactive).acceptTask]
      exact hsame
    | true =>
      rw [NodeTask.receive, acceptTask, Status.isTerminal_eq, hactive]
      refine hmoved (uninstallMoves_running hactive ⟨htask.correlated, htask.kind⟩ (by simp) ?_)
      have hkept : SameAt completionKeys task.result (withoutDeliveryRuntimeState task.result) :=
        (SameAt.refl _ _).withoutDelivery (by decide)
      exact hkept.isCompletedResult.trans (hsteady.running hactive)
  | progress progress downloadCapable withinGrace now =>
    cases hactive : task.status.isActive with
    | false =>
      rw [NodeTask.receive, (hdecided hactive).handleTaskProgress]
      exact hsame
    | true =>
      rw [NodeTask.receive, handleTaskProgress_correlated conf htask.correlated]
      have hgoes := goesOn_recordTaskProgress conf task progress downloadCapable now
      refine hmoved (uninstallMoves_running hactive (hgoes.operation.isUninstall htask)
        (hgoes.not_success fun hst => ?_) ?_)
      · rw [hst] at hactive
        cases hactive
      · exact (sameAt_recordTaskProgress _ _ _ _ _).isCompletedResult.trans
          (hsteady.running hactive)
  | result message now =>
    rw [NodeTask.receive, htask.handleTaskResult]
    by_cases hrunning : Text.lower message.reportedStatus = "running"
    · cases hactive : task.status.isActive with
      | false =>
        rw [commitResult_running_ended conf htask hactive hseal hrunning]
        exact hsame
      | true =>
        rw [commitResult_active now hactive, hrunning]
        exact hmoved (uninstallMoves_running_result conf htask hsteady hactive hframe now)
    · have hdone : isCompletedResult message.result = true →
          isDetachedMode message.result = true := fun h =>
        absurd (hframe.not_completed.symm.trans h) Bool.false_ne_true
      have hresult := resultMoves_commitResult conf htask hsteady hrunning hdone message.error
        false now
      refine ⟨hresult.moves, fun h => (hresult.cleaningUp h).resolve_right fun h' => ?_⟩
      exact absurd (hframe.not_completed.symm.trans h'.2) Bool.false_ne_true

/-- The writers of the control plane that are neither frames nor deliveries. -/
def Writer.isControl : Writer → Bool
  | .cancel _ _ => true
  | .sweepCancelGrace _ _ => true
  | .sweepWatchdog _ _ _ => true
  | .timeoutUnaccepted _ _ => true
  | _ => false

/-- A writer of the control plane and the row of an operation. -/
structure ControlMoves (task task' : NodeTask) : Prop where
  operation : SameOperation task task'
  idle : task.status.isActive = false → task' = task
  status : task.status.isActive = true → task'.status ≠ .success
  same : SameAt completionKeys task.result task'.result

theorem ControlMoves.refl (task : NodeTask) : ControlMoves task task :=
  ⟨.refl _, fun _ => rfl, fun h hst => (by rw [hst] at h; cases h), .refl _ _⟩

theorem controlMoves_write (conf : Settings) {writer : Writer} (hcontrol : writer.isControl = true)
    (h : task.write conf writer = some task') : ControlMoves task task' := by
  have hact (h : task.status.isActive = true) {t : NodeTask} :
      task.status.isActive = false → t = task := fun h' => absurd (h.symm.trans h') (by decide)
  cases writer with
  | accept nodeId now => cases hcontrol
  | progress nodeId progress downloadCapable now => cases hcontrol
  | complete nodeId status result error replaceResult now => cases hcontrol
  | failDelivery held reason => cases hcontrol
  | cancel reason now =>
    cases h
    rw [cancelTask]
    split
    · exact .refl task
    · rename_i hactive
      have hactive' : task.status.isActive = true := by simpa using hactive
      split
      · exact ⟨⟨rfl, rfl, rfl⟩, hact hactive', fun _ => by simp, .refl _ _⟩
      · refine ⟨⟨rfl, rfl, rfl⟩, hact hactive', fun _ hst => ?_,
          ((SameAt.refl _ _).set (by decide) _).set (by decide) _⟩
        have hst' : task.status = .success := hst
        rw [hst'] at hactive'
        cases hactive'
  | sweepCancelGrace cutoff now =>
    cases h
    rw [sweepCancelGraceExpired]
    split
    · split
      · rename_i hdue
        rw [Bool.and_eq_true] at hdue
        refine ⟨⟨rfl, rfl, rfl⟩, hact hdue.1, fun _ => by simp,
          (SameAt.refl _ _).update ?_ ?_⟩
        · show ["cancel_requested", "cancel_requested_at", "cancel_finalized_by",
            "cancel_finalized_at"].Nodup
          decide
        · show ∀ k ∈ completionKeys, k ∉ ["cancel_requested", "cancel_requested_at",
            "cancel_finalized_by", "cancel_finalized_at"]
          decide
      · exact .refl task
    · exact .refl task
  | sweepWatchdog activity caps now =>
    cases h
    rw [sweepWatchdogTimeouts]
    split
    · exact .refl task
    rename_i hdue
    have hactive : task.status.isActive = true := by
      by_contra hidle
      exact hdue (by simp [Bool.eq_false_iff.mpr hidle])
    split
    · exact .refl task
    split
    · exact .refl task
    split
    · refine ⟨⟨rfl, rfl, rfl⟩, hact hactive, fun _ hst => ?_, .refl _ _⟩
      have hst' : task.status = .success := hst
      rw [hst'] at hactive
      cases hactive
    · rw [watchdogTimeout]
      split
      · exact ⟨⟨rfl, rfl, rfl⟩, hact hactive, fun _ => by simp,
          (SameAt.refl _ _).set (by decide) _⟩
      · split
        · exact ⟨⟨rfl, rfl, rfl⟩, hact hactive, fun _ => by simp,
            (SameAt.refl _ _).set (by decide) _⟩
        · exact ⟨⟨rfl, rfl, rfl⟩, hact hactive, fun _ => by simp, .refl _ _⟩
  | timeoutUnaccepted errorCode message =>
    cases h
    rw [timeoutUnacceptedTask]
    split
    · exact .refl task
    · rename_i hdue
      have hactive : task.status.isActive = true := by
        cases hst : task.status <;> simp_all [NodeTask.isUnaccepted, Status.isActive]
      refine ⟨⟨rfl, rfl, rfl⟩, hact hactive, fun _ => by simp,
        ((SameAt.refl _ _).pop (by decide)).update ?_ ?_⟩
      · show ["diagnostic_error_code", "delivery_timeout_sealed",
          "delivery_attempt_count"].Nodup
        decide
      · show ∀ k ∈ completionKeys, k ∉ ["diagnostic_error_code", "delivery_timeout_sealed",
          "delivery_attempt_count"]
        decide

theorem ControlMoves.uninstallMoves (h : ControlMoves task task') (htask : task.IsUninstall)
    (hsteady : task.IsSteady) :
    UninstallMoves task task' ∧ (task'.isCleaningUp = true → task.isCleaningUp = true) := by
  cases hactive : task.status.isActive with
  | false =>
    rw [h.idle hactive]
    exact ⟨.refl htask hsteady, fun h => h⟩
  | true =>
    obtain ⟨hmoves, hclean⟩ := uninstallMoves_running hactive (h.operation.isUninstall htask)
      (h.status hactive) (h.same.isCompletedResult.trans (hsteady.running hactive))
    exact ⟨hmoves, fun h' => absurd (hclean.symm.trans h') Bool.false_ne_true⟩

/-! ## Callbacks -/

theorem isSteady_usedPayload (hsteady : task.IsSteady) (payload : Dict) :
    ({ task with payload := payload } : NodeTask).IsSteady :=
  ⟨hsteady.running, hsteady.success, hsteady.completed⟩

theorem detached_reportedResult (task : NodeTask) (report : UninstallReport) (now : Instant) :
    isDetachedMode (reportedResult task report now) = true ∧
      (reportedResult task report now).isEmpty = false := by
  have hkeyed : Dict.Keyed [("mode", .str "local_detached"),
      ("completion_received_at", .str now.iso),
      ("cleanup_complete", .bool report.effective),
      ("cleanup_failures", .arr (report.failures.map fun failure =>
        .obj [("code", .str failure.1), ("detail", .str failure.2)])),
      ("retained_resources", .arr (report.retained.map .str)),
      ("force", .bool task.forceCleanup),
      ("outcome", .str (uninstallOutcome report.effective task.forceCleanup))] := by
    show ["mode", "completion_received_at", "cleanup_complete", "cleanup_failures",
      "retained_resources", "force", "outcome"].Nodup
    decide
  have hmode : (reportedResult task report now).get "mode" = .str "local_detached" := by
    rw [reportedResult, Dict.get_update_of_mem hkeyed List.mem_cons_self]
    rfl
  have hpresent : (reportedResult task report now).get "mode" ≠ .null := by
    rw [hmode]
    simp
  refine ⟨?_, isEmpty_of_get hpresent⟩
  rw [isDetachedMode, hmode]
  decide

structure Completes (task task' : NodeTask) (complete : Bool) : Prop where
  moves : UninstallMoves task task'
  cleaningUp : task'.isCleaningUp = true → task.isCleaningUp = true ∨ complete = true ∨
    task.forceCleanup = true
  changed : task'.status ≠ task.status → task'.IsDecided
  kept : task.IsDecided → task'.status = task.status
  force : task'.forceCleanup = task.forceCleanup
  parent : task'.sourceUnregisterTaskId = task.sourceUnregisterTaskId

theorem completes_refl (htask : task.IsUninstall) (hsteady : task.IsSteady) (complete : Bool) :
    Completes task task complete :=
  ⟨.refl htask hsteady, .inl, fun h => absurd rfl h, fun _ => rfl, rfl, rfl⟩

theorem endWord (success : Bool) :
    let incoming := Text.lower (if success = true then "success" else "failed")
    incoming ≠ "running" ∧ isCancelWord incoming = false ∧
      (isSuccessWord incoming = true → success = true) := by
  cases success <;> decide

theorem completes_completeTask (conf : Settings) (htask : task.IsUninstall)
    (hsteady : task.IsSteady) {payload : Dict}
    (hforce : payload.get "force_cleanup" = task.payload.get "force_cleanup")
    (hparent : payload.get "source_unregister_task_id" = task.payload.get
      "source_unregister_task_id") (success : Bool) (hdetached : isDetachedMode result = true)
    (hresult : result.isEmpty = false) (error : String) (now : Instant) {complete : Bool}
    (hsuccess : success = true → complete = true ∨ task.forceCleanup = true) :
    Completes task (completeTask conf { task with payload := payload }
      (if success = true then "success" else "failed") result error true now).task complete := by
  obtain ⟨hrunning, hcancel, hword⟩ := endWord success
  have hused : ({ task with payload := payload } : NodeTask).IsUninstall :=
    ⟨htask.correlated, htask.kind⟩
  have hmoved := resultMoves_commitResult conf hused (isSteady_usedPayload hsteady payload) hrunning
    (fun _ => hdetached) error true now
  have hoperation : SameOperation { task with payload := payload } _ :=
    sameOperation_commitResult conf
      (Text.lower (if success = true then "success" else "failed")) result result error true now
  rw [completeTask_correlated conf hused.correlated]
  refine ⟨⟨hmoved.moves.uninstall, hmoved.moves.quiet, hmoved.moves.steady, hmoved.moves.decided,
    hmoved.moves.cleaningUp⟩, fun h => ?_, fun h => hmoved.changed h hdetached hresult,
    fun h => hmoved.kept h hcancel, ?_, ?_⟩
  · exact (hmoved.cleaningUp h).imp_right fun h' => hsuccess (hword h'.1)
  · rw [NodeTask.forceCleanup, hoperation.payload]
    exact congrArg Json.truthy hforce
  · rw [NodeTask.sourceUnregisterTaskId, hoperation.payload]
    exact congrArg intOr hparent

theorem completes_completeDetachedUninstall (conf : Settings) (htask : task.IsUninstall)
    (hsteady : task.IsSteady) (report : UninstallReport) (now : Instant) :
    Completes task (completeDetachedUninstall conf task report now) report.effective := by
  rw [completeDetachedUninstall]
  split
  · exact completes_refl htask hsteady _
  · obtain ⟨hdetached, hresult⟩ := detached_reportedResult task report now
    refine completes_completeTask conf htask hsteady ?_ ?_
      (report.effective || task.forceCleanup) hdetached hresult _ now (fun h => by simpa using h)
    · exact Dict.get_set_of_ne _ _ (by decide)
    · exact Dict.get_set_of_ne _ _ (by decide)

theorem detached_timedOutResult (gateway : Bool) (snapshot : NodeTask) (now : Instant) :
    isDetachedMode (timedOutResult gateway snapshot now) = true ∧
      (timedOutResult gateway snapshot now).isEmpty = false := by
  have hkeyed : Dict.Keyed [("mode", .str "local_detached"),
      ("completion_timed_out_at", .str now.iso),
      ("cleanup_complete", .bool false),
      ("cleanup_failures", .arr [.obj [("code", .str "completion_callback_timeout"),
        ("detail", .str "Detached uninstall did not report a terminal cleanup result.")]]),
      ("retained_resources", .arr (.str "unverified_agent_installation" ::
        if gateway then [.str "unverified_lensnode_sidecar"] else [])),
      ("force", .bool snapshot.forceCleanup),
      ("outcome", .str (uninstallOutcome false snapshot.forceCleanup))] := by
    show ["mode", "completion_timed_out_at", "cleanup_complete", "cleanup_failures",
      "retained_resources", "force", "outcome"].Nodup
    decide
  have hmode : (timedOutResult gateway snapshot now).get "mode" = .str "local_detached" := by
    rw [timedOutResult, Dict.get_update_of_mem hkeyed List.mem_cons_self]
    rfl
  have hpresent : (timedOutResult gateway snapshot now).get "mode" ≠ .null := by
    rw [hmode]
    simp
  refine ⟨?_, isEmpty_of_get hpresent⟩
  rw [isDetachedMode, hmode]
  decide

theorem completes_failStaleRemoveTask (conf : Settings) (gateway : Bool) (htask : task.IsUninstall)
    (hsteady : task.IsSteady) {snapshot : NodeTask}
    (hforce : snapshot.forceCleanup = task.forceCleanup) (now : Instant) :
    Completes task (failStaleRemoveTask conf gateway snapshot task now) false := by
  obtain ⟨hdetached, hresult⟩ := detached_timedOutResult gateway snapshot now
  exact completes_completeTask conf htask hsteady rfl rfl snapshot.forceCleanup hdetached hresult
    _ now fun h => .inr (hforce ▸ h)

end HyperFileLens.Node
