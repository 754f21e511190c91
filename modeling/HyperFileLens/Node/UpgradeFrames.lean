import HyperFileLens.Node.UpgradeWatch

/-!
# What frames leave of the evidence

The evidence of an upgrade is kept in the result of its row, next to what the Agent reports
there. A frame of the Agent has none of the keys of the evidence, and names no other mode than
`local_detached`.

*Frames.*  A frame leaves the evidence as it is, unless it cancels the row. It changes the
report of the host only when it is one, and never makes a detached upgrade a success.
-/

namespace HyperFileLens.Node

variable {conf : Settings} {task : NodeTask} {r r' r'' : Dict}

/-- Where the control plane keeps the evidence of an upgrade. -/
def evidenceKeys : List String :=
  ["detached_session_id", "reconnect_session_id", "inventory_session_id",
    "observed_agent_version", "observed_agent_commit", "observed_capabilities",
    "verify_started_at"]

def SameAt (keys : List String) (r r' : Dict) : Prop := ∀ k ∈ keys, r'.get k = r.get k

variable {k : String} {task' : NodeTask}

theorem isEmpty_of_get {r : Dict} (h : r.get k ≠ .null) : r.isEmpty = false := by
  cases r with
  | nil => exact absurd rfl h
  | cons field fields => rfl

namespace SameAt

variable {keys : List String}

theorem refl (keys : List String) (r : Dict) : SameAt keys r r := fun _ _ => rfl

section

variable (h : SameAt keys r r')

include h

theorem trans (h' : SameAt keys r' r'') : SameAt keys r r'' :=
  fun k hk => (h' k hk).trans (h k hk)

theorem set {k : String} (hk : k ∉ keys) (v : Json) : SameAt keys r (r'.set k v) := fun l hl => by
  have hne : l ≠ k := fun heq => hk (heq ▸ hl)
  rw [Dict.get_set_of_ne r' v hne]
  exact h l hl

theorem pop {k : String} (hk : k ∉ keys) : SameAt keys r (r'.pop k) :=
  fun l hl => by
    have hne : l ≠ k := fun heq => hk (heq ▸ hl)
    rw [Dict.get_pop_of_ne r' hne]
    exact h l hl

theorem update {e : Dict} (he : e.Keyed)
    (hnot : ∀ k ∈ keys, k ∉ e.map Prod.fst) : SameAt keys r (r'.update e) := fun k hk => by
  rw [Dict.get_update_of_not_mem he (hnot k hk)]
  exact h k hk

theorem update_same {e : Dict} (he : e.Keyed) (hsame : SameAt keys r e) :
    SameAt keys r (r'.update e) := fun k hk => by
  by_cases hmem : k ∈ e.map Prod.fst
  · rw [Dict.get_update_of_mem he hmem]
    exact hsame k hk
  · rw [Dict.get_update_of_not_mem he hmem]
    exact h k hk

theorem withoutDelivery (hkeys : "diagnostic_error_code" ∉ keys ∧ deliveryProtocolKey ∉ keys) :
    SameAt keys r (withoutDeliveryRuntimeState r') := by
  rw [withoutDeliveryRuntimeState]
  split
  · exact (h.pop hkeys.1).pop hkeys.2
  · exact h.pop hkeys.2

theorem mono {keys' : List String} (hsub : ∀ k ∈ keys', k ∈ keys) : SameAt keys' r r' :=
  fun k hk => h k (hsub k hk)

end

end SameAt

def reportKeys : List String := "host_upgrade_status" :: "mode" :: evidenceKeys

/-- A result after something was put next to the evidence. -/
structure Beside (r r' : Dict) : Prop where
  same : SameAt ("host_upgrade_status" :: evidenceKeys) r r'
  keyed : r.Keyed → r'.Keyed
  detached : isDetachedMode r = true → isDetachedMode r' = true

namespace Beside

theorem refl (r : Dict) : Beside r r := ⟨.refl _ r, fun h => h, fun h => h⟩

theorem trans (h : Beside r r') (h' : Beside r' r'') : Beside r r'' :=
  ⟨h.same.trans h'.same, fun hr => h'.keyed (h.keyed hr), fun hr => h'.detached (h.detached hr)⟩

theorem set (h : Beside r r') {k : String} (hk : k ∉ reportKeys) (v : Json) :
    Beside r (r'.set k v) where
  same := h.same.set (fun hmem => hk (by
    rcases List.mem_cons.mp hmem with rfl | hmem
    · exact List.mem_cons_self
    · exact List.mem_cons_of_mem _ (List.mem_cons_of_mem _ hmem))) v
  keyed := fun hr => (h.keyed hr).set k v
  detached := fun hr => by
    have hne : "mode" ≠ k := fun heq => hk (heq ▸ by decide)
    rw [isDetachedMode, Dict.get_set_of_ne r' v hne]
    exact h.detached hr

theorem setMode (h : Beside r r') : Beside r (r'.set "mode" (.str "local_detached")) where
  same := h.same.set (by decide) _
  keyed := fun hr => (h.keyed hr).set _ _
  detached := fun _ => by
    rw [isDetachedMode, Dict.get_set_self]
    decide

theorem withoutDelivery (r : Dict) : Beside r (withoutDeliveryRuntimeState r) where
  same := (SameAt.refl _ r).withoutDelivery (by decide)
  keyed := fun h => by
    rw [withoutDeliveryRuntimeState]
    split
    · exact (h.pop _).pop _
    · exact h.pop _
  detached := fun h => by
    have hsame : SameAt ["mode"] r (withoutDeliveryRuntimeState r) :=
      (SameAt.refl _ r).withoutDelivery (by decide)
    rw [isDetachedMode, hsame "mode" List.mem_cons_self]
    exact h

theorem update (h : Beside r r') {e : Dict} (he : e.Keyed)
    (hnot : ∀ k ∈ "host_upgrade_status" :: evidenceKeys, k ∉ e.map Prod.fst)
    (hmode : "mode" ∈ e.map Prod.fst → isDetachedMode e = true) : Beside r (r'.update e) where
  same := h.same.update he hnot
  keyed := fun hr => (h.keyed hr).update e
  detached := fun hr => by
    by_cases hmem : "mode" ∈ e.map Prod.fst
    · rw [isDetachedMode, Dict.get_update_of_mem he hmem]
      exact hmode hmem
    · rw [isDetachedMode, Dict.get_update_of_not_mem he hmem]
      exact h.detached hr

end Beside

/-! ## Rows of upgrades -/

structure NodeTask.IsUpgrade (task : NodeTask) : Prop where
  correlated : task.isLifecycleCorrelatedTask = true
  kind : task.kind = "agent.upgrade"

theorem NodeTask.IsUpgrade.lifecycleKind (h : task.IsUpgrade) : isLifecycleKind task.kind = true := by
  rw [h.kind]
  decide

theorem NodeTask.not_backup_of_correlated (h : task.isLifecycleCorrelatedTask = true) :
    isProtectionBackupTask task.correlationType task.kind = false := by
  have hcorrelation : task.correlationType = lifecycleCorrelationType := by
    simpa [NodeTask.isLifecycleCorrelatedTask] using h
  rw [isProtectionBackupTask, hcorrelation]
  rfl

theorem NodeTask.not_executorStop_of_correlated (h : task.isLifecycleCorrelatedTask = true)
    (incoming : String) (result : Dict) (error : String) :
    isExecutorStop task incoming result error = false := by
  have hcorrelation : task.correlationType = lifecycleCorrelationType := by
    simpa [NodeTask.isLifecycleCorrelatedTask] using h
  have hrestore : task.isManagedWorkspaceRestoreTask = false := by
    rw [NodeTask.isManagedWorkspaceRestoreTask, isRestoreTask, hcorrelation]
    rfl
  rw [isExecutorStop, hrestore]
  simp

theorem completeTask_correlated (conf : Settings) (h : task.isLifecycleCorrelatedTask = true)
    (status : String) (result : Dict) (error : String) (replaceResult : Bool) (now : Instant) :
    completeTask conf task status result error replaceResult now =
      commitResult conf task (Text.lower status) result result error replaceResult now := by
  rw [Node.completeTask, task.not_backup_of_correlated h,
    task.not_executorStop_of_correlated h]
  simp

theorem NodeTask.IsUpgrade.completeTask (h : task.IsUpgrade) (status : String) (result : Dict)
    (error : String) (replaceResult : Bool) (now : Instant) :
    completeTask conf task status result error replaceResult now =
      commitResult conf task (Text.lower status) result result error replaceResult now :=
  completeTask_correlated conf h.correlated _ _ _ _ _

structure SameOperation (task task' : NodeTask) : Prop where
  correlationType : task'.correlationType = task.correlationType
  kind : task'.kind = task.kind
  payload : task'.payload = task.payload

theorem SameOperation.refl (task : NodeTask) : SameOperation task task := ⟨rfl, rfl, rfl⟩

theorem SameOperation.trans {task'' : NodeTask} (h : SameOperation task task')
    (h' : SameOperation task' task'') : SameOperation task task'' :=
  ⟨h'.correlationType.trans h.correlationType, h'.kind.trans h.kind, h'.payload.trans h.payload⟩

theorem SameOperation.isUpgrade (h : SameOperation task task') (htask : task.IsUpgrade) :
    task'.IsUpgrade := by
  refine ⟨?_, h.kind.trans htask.kind⟩
  rw [NodeTask.isLifecycleCorrelatedTask, h.correlationType]
  exact htask.correlated

/-- The detached marker changes the result at `detached_at` only. -/
theorem applyDetachedMarker_facts (conf : Settings) (task : NodeTask) (now : Instant) :
    SameOperation task (applyDetachedMarker conf task now) ∧
      Beside task.result (applyDetachedMarker conf task now).result := by
  rw [applyDetachedMarker]
  split
  · rw [applyDetachedRunningState]
    split
    · exact ⟨.refl _, .refl _⟩
    · refine ⟨⟨rfl, rfl, rfl⟩, ?_⟩
      dsimp only
      split
      · exact .refl _
      · exact (Beside.refl _).set (by decide) _
  · exact ⟨.refl _, .refl _⟩

theorem sameOperation_storeResult (conf : Settings) (task : NodeTask) (incoming : String)
    (result incomingResult : Dict) (error : String) (replaceResult : Bool) (now : Instant) :
    SameOperation task
      (storeResult conf task incoming result incomingResult error replaceResult now) := by
  rw [storeResult]
  split
  · have hmarker := applyDetachedMarker_facts conf { task with
        status := .running
        acceptedAt := some (task.acceptedAt.getD now.time)
        result := if replaceResult then result
          else (withoutDeliveryRuntimeState task.result).update result
        lastError := if error ≠ "" then clipError error else task.lastError } now
    exact ⟨hmarker.1.correlationType, hmarker.1.kind, hmarker.1.payload⟩
  · exact ⟨rfl, rfl, rfl⟩

theorem sameOperation_commitResult (conf : Settings) (incoming : String) (result incomingResult : Dict)
    (error : String) (replaceResult : Bool) (now : Instant) : SameOperation task
      (commitResult conf task incoming result incomingResult error replaceResult now).task := by
  rcases commitResult_cases conf task incoming result incomingResult error replaceResult now with
    h | ⟨-, late, h⟩ | ⟨-, h⟩
  · rw [h]
    exact .refl _
  · rw [h]
    exact ⟨rfl, rfl, rfl⟩
  · rw [h]
    exact sameOperation_storeResult _ _ _ _ _ _ _ _

/-! ## Progress -/

theorem beside_mergeProgress (task : NodeTask) (progress merged : Dict) (now : Instant) :
    Beside merged (mergeProgressIntoResult task progress merged now) := by
  rw [mergeProgressIntoResult]
  split
  · exact .refl _
  have hprogress := (Beside.refl merged).set (k := "last_progress") (by decide) (.obj progress)
  dsimp only
  split
  · exact hprogress
  have hmode := hprogress.setMode
  split
  · have htarget := hmode.set (k := "target_version") (by decide)
      (.str (Text.strip (progress.get "target_version").strOr))
    split
    · exact htarget
    · exact htarget.set (by decide) _
  · split
    · exact hmode
    · exact hmode.set (by decide) _

/-- What a frame may do to an upgrade that goes on. -/
structure GoesOn (task task' : NodeTask) : Prop where
  operation : SameOperation task task'
  beside : Beside task.result task'.result
  status : task'.status = task.status ∨ task'.status = .running
  /-- Rows that do not run are left alone. -/
  idle : task.status.isActive = false → task' = task

theorem GoesOn.refl (task : NodeTask) : GoesOn task task :=
  ⟨.refl _, .refl _, .inl rfl, fun _ => rfl⟩

theorem GoesOn.not_success (h : GoesOn task task') (hst : task.status ≠ .success) :
    task'.status ≠ .success := by
  rcases h.status with heq | heq
  · rw [heq]
    exact hst
  · rw [heq]
    simp

theorem goesOn_acceptTask (task : NodeTask) (now : Instant) :
    GoesOn task (acceptTask conf task now) := by
  rw [acceptTask, Status.isTerminal_eq]
  cases hactive : task.status.isActive with
  | true => exact ⟨⟨rfl, rfl, rfl⟩, .withoutDelivery _, .inr rfl, fun h => absurd h (by simp [hactive])⟩
  | false => exact .refl _

theorem goesOn_recordTaskProgress (conf : Settings) (task : NodeTask) (progress : Dict)
    (downloadCapable : Bool) (now : Instant) :
    GoesOn task (recordTaskProgress conf task progress downloadCapable now) := by
  rw [recordTaskProgress]
  split
  · exact .refl _
  rename_i hactive
  have hactive' : task.status.isActive = true := by simpa using hactive
  dsimp only
  have hidle (t : NodeTask) : task.status.isActive = false → t = task := fun h =>
    absurd (hactive'.symm.trans h) (by decide)
  split
  · exact ⟨⟨rfl, rfl, rfl⟩, .withoutDelivery _, .inr rfl, hidle _⟩
  · obtain ⟨hoperation, hbeside⟩ := applyDetachedMarker_facts conf { task with
        status := .running
        acceptedAt := some (task.acceptedAt.getD now.time)
        lastProgressAt := some now.time
        result := mergeProgressIntoResult { task with
          status := .running
          acceptedAt := some (task.acceptedAt.getD now.time)
          lastProgressAt := some now.time
          result := withoutDeliveryRuntimeState task.result
          watchdogDeadlineAt := progressDeadline conf task progress
            (task.acceptedAt.getD now.time) now.time downloadCapable } progress
          (withoutDeliveryRuntimeState task.result) now
        watchdogDeadlineAt := progressDeadline conf task progress
          (task.acceptedAt.getD now.time) now.time downloadCapable } now
    refine ⟨⟨hoperation.correlationType, hoperation.kind, hoperation.payload⟩, ?_, .inr ?_,
      hidle _⟩
    · exact ((Beside.withoutDelivery _).trans (beside_mergeProgress _ _ _ _)).trans hbeside
    · rw [status_applyDetachedMarker]

theorem handleTaskProgress_correlated (conf : Settings)
    (hcorrelated : task.isLifecycleCorrelatedTask = true) (progress : Dict)
    (downloadCapable withinGrace : Bool) (now : Instant) :
    handleTaskProgress conf task progress downloadCapable withinGrace now =
      recordTaskProgress conf task progress downloadCapable now := by
  have hcorrelated' : (recordTaskProgress conf task progress downloadCapable
      now).isLifecycleCorrelatedTask = true := by
    rw [NodeTask.isLifecycleCorrelatedTask,
      (goesOn_recordTaskProgress conf task progress downloadCapable now).operation.correlationType]
    exact hcorrelated
  rw [handleTaskProgress, reattachBackupNodeTask, NodeTask.not_backup_of_correlated hcorrelated']
  rfl

theorem goesOn_handleTaskProgress (hcorrelated : task.isLifecycleCorrelatedTask = true)
    (progress : Dict) (downloadCapable withinGrace : Bool) (now : Instant) :
    GoesOn task (handleTaskProgress conf task progress downloadCapable withinGrace now) := by
  rw [handleTaskProgress_correlated conf hcorrelated]
  exact goesOn_recordTaskProgress conf task progress downloadCapable now

/-! ## Results -/

/-- A result frame as an Agent sends it for a detached upgrade: it has no key of the evidence,
and names no other mode. -/
structure AgentResult (message : ResultFrame) : Prop where
  keyed : message.result.Keyed
  evidence : ∀ k ∈ "host_upgrade_status" :: evidenceKeys, k ∉ message.result.map Prod.fst
  mode : "mode" ∈ message.result.map Prod.fst → isDetachedMode message.result = true

/-- A result that has the evidence of another one. -/
structure Carries (r r' : Dict) : Prop where
  same : SameAt evidenceKeys r r'
  keyed : r'.Keyed
  detached : isDetachedMode r = true → isDetachedMode r' = true

def Blank (r : Dict) : Prop := ∀ k ∈ evidenceKeys, r.get k = .null

theorem Beside.carries (h : Beside r r') (hkeyed : r.Keyed) : Carries r r' :=
  ⟨h.same.mono fun _ hk => List.mem_cons_of_mem _ hk, h.keyed hkeyed, h.detached⟩

theorem Carries.trans (h : Carries r r') (h' : Carries r' r'') : Carries r r'' :=
  ⟨h.same.trans h'.same, h'.keyed, fun hr => h'.detached (h.detached hr)⟩

theorem Carries.set (h : Carries r r') (hk : k ∉ "mode" :: evidenceKeys) (v : Json) :
    Carries r (r'.set k v) where
  same := h.same.set (fun hmem => hk (List.mem_cons_of_mem _ hmem)) v
  keyed := h.keyed.set k v
  detached := fun hr => by
    have hne : "mode" ≠ k := fun heq => hk (heq ▸ List.mem_cons_self)
    rw [isDetachedMode, Dict.get_set_of_ne r' v hne]
    exact h.detached hr

theorem Carries.update {e : Dict} (h : Carries r r') (he : Carries r e) :
    Carries r (r'.update e) where
  same := h.same.update_same he.keyed he.same
  keyed := h.keyed.update e
  detached := fun hr => by
    by_cases hmem : "mode" ∈ e.map Prod.fst
    · rw [isDetachedMode, Dict.get_update_of_mem he.keyed hmem]
      exact he.detached hr
    · rw [isDetachedMode, Dict.get_update_of_not_mem he.keyed hmem]
      exact h.detached hr

variable {message : ResultFrame}

theorem AgentResult.beside (h : AgentResult message) (hr : Beside r r') :
    Beside r (r'.update message.result) := hr.update h.keyed h.evidence h.mode

theorem AgentResult.blank (h : AgentResult message) : Blank message.result := fun k hk => by
  rw [Dict.get, Dict.get?_eq_none.mpr (h.evidence k (List.mem_cons_of_mem _ hk))]
  rfl

/-- How the host says that it ended. -/
def ResultFrame.hostReport (message : ResultFrame) : Option Bool :=
  let incoming := Text.lower message.reportedStatus
  if isSuccessWord incoming then some true
  else if incoming ≠ "running" && !isCancelWord incoming then some false
  else none

section Results

variable {message : ResultFrame} (htask : task.IsUpgrade) (hkeyed : task.result.Keyed)
  (hframe : AgentResult message) (now : Instant)
include htask

variable {incoming : String}

theorem uplinkResult_none (hreport : message.hostReport = none) :
    uplinkResult task message now = message.result := by
  rw [ResultFrame.hostReport] at hreport
  rw [uplinkResult, htask.kind, htask.correlated]
  grind

theorem uplinkResult_some {ok : Bool} (hreport : message.hostReport = some ok) :
    ∃ e : Dict, uplinkResult task message now = (task.result.update message.result).update e ∧
      e.Keyed ∧ (∀ k ∈ "mode" :: evidenceKeys, k ∉ e.map Prod.fst) ∧
      e.get? "host_upgrade_status" = some (.str (if ok = true then "success" else "failed")) := by
  rw [ResultFrame.hostReport] at hreport
  rw [uplinkResult, htask.kind, htask.correlated]
  by_cases hsuccess : isSuccessWord (Text.lower message.reportedStatus) = true
  · rw [if_pos hsuccess] at hreport
    cases hreport
    rw [if_neg (by simp), if_pos hsuccess]
    refine ⟨_, rfl, ?_, ?_, rfl⟩
    · show ["host_upgrade_status", "host_result_received_at"].Nodup
      decide
    · show ∀ k ∈ "mode" :: evidenceKeys, k ∉ ["host_upgrade_status", "host_result_received_at"]
      decide
  · rw [if_neg hsuccess] at hreport
    rw [if_neg (by simp), if_neg hsuccess]
    split at hreport
    · rename_i hother
      cases hreport
      rw [if_pos hother]
      refine ⟨_, rfl, ?_, ?_, rfl⟩
      · show ["host_upgrade_status", "failure_code", "host_error",
          "host_result_received_at"].Nodup
        decide
      · show ∀ k ∈ "mode" :: evidenceKeys, k ∉ ["host_upgrade_status", "failure_code",
          "host_error", "host_result_received_at"]
        decide
    · cases hreport

include hkeyed hframe in
theorem carries_uplinkResult {ok : Bool} (hreport : message.hostReport = some ok) :
    Carries task.result (uplinkResult task message now) ∧
      (uplinkResult task message now).get "host_upgrade_status" =
        .str (if ok = true then "success" else "failed") := by
  obtain ⟨e, heq, he, hkeys, hhost⟩ := uplinkResult_some htask now hreport
  have hmerged := (hframe.beside (.refl task.result)).carries hkeyed
  rw [heq]
  refine ⟨⟨hmerged.same.update he fun k hk => hkeys k (List.mem_cons_of_mem _ hk),
    hmerged.keyed.update e, fun hr => ?_⟩, ?_⟩
  · rw [isDetachedMode, Dict.get_update_of_not_mem he (hkeys _ List.mem_cons_self)]
    exact hmerged.detached hr
  · rw [Dict.get, Dict.get?_update he, hhost]
    rfl

omit htask in
theorem handleTaskResult_audited (conf : Settings) (task : NodeTask) (message : ResultFrame)
    (now : Instant) :
    let done := completeTask conf task (uplinkStatus task message now)
      (uplinkResult task message now) message.error false now
    SameOperation done.task (handleTaskResult conf task message now).task ∧
      Beside done.task.result (handleTaskResult conf task message now).task.result ∧
      (handleTaskResult conf task message now).task.status = done.task.status ∧
      (done.task.status ≠ .failed → (handleTaskResult conf task message now).task = done.task) := by
  dsimp only
  rw [handleTaskResult]
  split
  · rename_i hfailed
    refine ⟨⟨rfl, rfl, rfl⟩, (Beside.refl _).set (by decide) _, rfl, fun hne => ?_⟩
    simp only [Bool.and_eq_true, decide_eq_true_eq] at hfailed
    exact absurd hfailed.1.2 hne
  · exact ⟨.refl _, .refl _, rfl, fun _ => rfl⟩

omit htask in
theorem commitResult_active (hactive : task.status.isActive = true) (incoming : String)
    (result incomingResult : Dict) (error : String) (replaceResult : Bool) :
    (commitResult conf task incoming result incomingResult error replaceResult now).task =
      storeResult conf task incoming result incomingResult error replaceResult now := by
  rw [commitResult, incomingTerminalStatus]
  cases hstatus : task.status with
  | pending => grind [Completion.plain, Status.isTerminal]
  | running => grind [Completion.plain, Status.isTerminal]
  | success => simp [hstatus, Status.isActive] at hactive
  | failed => simp [hstatus, Status.isActive] at hactive
  | timeout => simp [hstatus, Status.isActive] at hactive
  | canceled => simp [hstatus, Status.isActive] at hactive

omit htask in
include hkeyed in
theorem carries_storeResult {result : Dict} (error : String)
    (h : Carries task.result result ∨ (incoming = "running" ∧
      Beside task.result ((withoutDeliveryRuntimeState task.result).update result))) :
    Carries task.result (storeResult conf task incoming result result error false now).result := by
  have hkept := (Beside.withoutDelivery task.result).carries hkeyed
  by_cases hrunning : incoming = "running"
  · rw [storeResult, if_pos hrunning]
    obtain ⟨-, hmarker⟩ := applyDetachedMarker_facts conf { task with
        status := .running
        acceptedAt := some (task.acceptedAt.getD now.time)
        result := (withoutDeliveryRuntimeState task.result).update result
        lastError := if error ≠ "" then clipError error else task.lastError } now
    have hmerged : Carries task.result
        ((withoutDeliveryRuntimeState task.result).update result) := by
      rcases h with hresult | ⟨-, hresult⟩
      · exact hkept.update hresult
      · exact hresult.carries hkeyed
    exact hmerged.trans (hmarker.carries hmerged.keyed)
  · rw [storeResult, if_neg hrunning]
    rcases h with hresult | ⟨hincoming, -⟩
    · have hstored : Carries task.result (if result.isEmpty = true then
          withoutDeliveryRuntimeState task.result else result) := by
        split
        · exact hkept
        · exact hresult
      dsimp only
      split
      · exact hstored.set (by decide) _
      · exact hstored
    · exact absurd hincoming hrunning

/-- The evidence of the row is still there, or the row was cancelled with a result that has
none. -/
def EvidenceKept (task task' : NodeTask) : Prop :=
  Carries task.result task'.result ∨
    (task'.status = .canceled ∧ task'.result.Keyed ∧ Blank task'.result)

omit htask in
theorem hostReport_none {message : ResultFrame} (h : message.hostReport = none) :
    Text.lower message.reportedStatus = "running" ∨
      isCancelWord (Text.lower message.reportedStatus) = true := by
  rw [ResultFrame.hostReport] at h
  grind

include hkeyed hframe in
theorem evidenceKept_storeResult (error : String)
    (hincoming : incoming = Text.lower message.reportedStatus ∨
      (incoming = "running" ∧ message.hostReport = some true)) :
    EvidenceKept task (storeResult conf task incoming (uplinkResult task message now)
      (uplinkResult task message now) error false now) := by
  cases hreport : message.hostReport with
  | some ok =>
    exact .inl (carries_storeResult hkeyed now error
      (.inl (carries_uplinkResult htask hkeyed hframe now hreport).1))
  | none =>
    rw [uplinkResult_none htask now hreport]
    have heq : incoming = Text.lower message.reportedStatus := by
      rcases hincoming with heq | ⟨-, hsuccess⟩
      · exact heq
      · cases hreport.symm.trans hsuccess
    rcases hostReport_none hreport with hrunning | hcancel
    · exact .inl (carries_storeResult hkeyed now error
        (.inr ⟨heq.trans hrunning, hframe.beside (.withoutDelivery _)⟩))
    · rw [← heq] at hcancel
      have hrunning := isCancelWord_ne_running hcancel
      rw [EvidenceKept, storeResult, if_neg hrunning]
      have hsealed : (task.isLifecycleCorrelatedTask && isLifecycleKind task.kind) = true := by
        rw [htask.correlated, htask.lifecycleKind]
        rfl
      dsimp only
      rw [if_pos hsealed]
      split
      · exact .inl (((Beside.withoutDelivery _).carries hkeyed).set (by decide) _)
      · refine .inr ⟨?_, hframe.keyed.set _ _, fun k hk => ?_⟩
        · rw [isCancelWord_not_success hcancel]
          rfl
        · have hne : k ≠ "lifecycle_terminal_sealed" := fun h => by
            subst h
            revert hk
            decide
          rw [Dict.get_set_of_ne _ _ hne]
          exact hframe.blank k hk

omit htask in
theorem uplinkStatus_cases (message : ResultFrame) :
    uplinkStatus task message now = message.reportedStatus ∨
      (uplinkStatus task message now = "running" ∧ message.hostReport = some true ∧
        task.status.isActive = true) := by
  rw [uplinkStatus]
  split
  · rename_i h
    simp only [Bool.and_eq_true, decide_eq_true_eq] at h
    refine .inr ⟨rfl, ?_, h.1.1.2⟩
    rw [ResultFrame.hostReport, if_pos h.1.2]
  · exact .inl rfl

omit htask in
theorem EvidenceKept.audited {t t' : NodeTask} (h : EvidenceKept task t)
    (hbeside : Beside t.result t'.result) (hstatus : t'.status = t.status) :
    EvidenceKept task t' := by
  rcases h with hcarries | ⟨hcanceled, hkeyed, hblank⟩
  · exact .inl (hcarries.trans (hbeside.carries hcarries.keyed))
  · refine .inr ⟨hstatus.trans hcanceled, hbeside.keyed hkeyed, fun k hk => ?_⟩
    rw [hbeside.same k (List.mem_cons_of_mem _ hk)]
    exact hblank k hk

include hkeyed hframe in
theorem evidenceKept_handleTaskResult (conf : Settings) :
    EvidenceKept task (handleTaskResult conf task message now).task := by
  obtain ⟨-, hbeside, hstatus, -⟩ := handleTaskResult_audited conf task message now
  refine EvidenceKept.audited ?_ hbeside hstatus
  rw [htask.completeTask]
  rcases commitResult_cases conf task (Text.lower (uplinkStatus task message now))
    (uplinkResult task message now) (uplinkResult task message now) message.error false now with
    h | ⟨-, late, h⟩ | ⟨-, h⟩
  · rw [h]
    exact .inl ((Beside.refl _).carries hkeyed)
  · rw [h]
    exact .inl (((Beside.refl _).set (by decide) _).carries hkeyed)
  · rw [h]
    refine evidenceKept_storeResult htask hkeyed hframe now message.error ?_
    rcases uplinkStatus_cases now message with hstatus | ⟨hstatus, hreport, -⟩
    · exact .inl (congrArg Text.lower hstatus)
    · rw [hstatus]
      exact .inr ⟨by decide, hreport⟩

theorem sameOperation_handleTaskResult (conf : Settings) (message : ResultFrame) :
    SameOperation task (handleTaskResult conf task message now).task := by
  obtain ⟨hoperation, -⟩ := handleTaskResult_audited conf task message now
  rw [htask.completeTask] at hoperation
  exact (sameOperation_commitResult _ _ _ _ _ _ _).trans hoperation

/-! ### No success -/

omit htask in
theorem commitResult_late (conf : Settings) (hcorrelated : task.isLifecycleCorrelatedTask = true)
    (hkind : isLifecycleKind task.kind = true) (hdetached : isDetachedMode task.result = true)
    (hfailed : task.status = .failed ∨ task.status = .timeout)
    (hsuccess : isSuccessWord incoming = true) (result incomingResult : Dict) (error : String)
    (replaceResult : Bool) :
    ∃ late, (commitResult conf task incoming result incomingResult error replaceResult now).task =
      { task with result := task.result.set "late_result" late } := by
  have hterminal : incomingTerminalStatus incoming = some .success := by
    rw [incomingTerminalStatus, if_neg (isSuccessWord_ne_running hsuccess), if_pos hsuccess]
  have hmarker : task.hasDetachedMarker = true := by
    rw [NodeTask.hasDetachedMarker, hcorrelated, hdetached]
    rfl
  have hnot : task.status ≠ .success := by
    intro h
    rw [h] at hfailed
    rcases hfailed with h | h <;> cases h
  have hor : (decide (task.status = .failed) || decide (task.status = .timeout)) = true := by
    simpa using hfailed
  rw [commitResult, hterminal, hcorrelated, hkind, hmarker]
  dsimp only
  rw [hor, decide_eq_false hnot]
  simp

omit htask in
/-- A result does not make a detached upgrade a success, unless it is running. -/
theorem status_commitResult_ne_success (conf : Settings) (htask : task.IsUpgrade)
    (hdetached : isDetachedMode task.result = true ∨ task.status = .canceled)
    (hstatus : task.status ≠ .success) (incoming : String)
    (hincoming : task.status.isActive = true → isSuccessWord incoming = false)
    (result incomingResult : Dict) (error : String) (replaceResult : Bool) :
    (commitResult conf task incoming result incomingResult error replaceResult now).task.status ≠
      .success := by
  have hlate (h : task.status = .failed ∨ task.status = .timeout)
      (hsuccess : isSuccessWord incoming = true) :
      (commitResult conf task incoming result incomingResult error replaceResult
        now).task.status ≠ .success := by
    have hdet : isDetachedMode task.result = true := by
      rcases hdetached with hdet | hcanceled
      · exact hdet
      · rw [hcanceled] at h
        rcases h with h | h <;> cases h
    obtain ⟨late, heq⟩ := commitResult_late now conf htask.correlated htask.lifecycleKind
      hdet h hsuccess result incomingResult error replaceResult
    rw [heq]
    exact hstatus
  rcases commitResult_cases conf task incoming result incomingResult error replaceResult now with
    h | ⟨-, late, h⟩ | ⟨hadmits, h⟩
  · rw [h]
    exact hstatus
  · rw [h]
    exact hstatus
  cases hsuccess : isSuccessWord incoming with
  | false =>
    rw [h]
    by_cases hrunning : incoming = "running"
    · rw [hrunning, status_storeResult_running]
      simp
    · rw [status_storeResult _ _ hrunning, hsuccess, if_neg Bool.false_ne_true]
      split <;> simp
  | true =>
    cases hst : task.status with
    | pending => simp [hincoming (by rw [hst]; rfl)] at hsuccess
    | running => simp [hincoming (by rw [hst]; rfl)] at hsuccess
    | success => exact absurd hst hstatus
    | failed => exact hlate (.inl hst) hsuccess
    | timeout => exact hlate (.inr hst) hsuccess
    | canceled =>
      rcases hadmits with hactive | ⟨-, -, hcancel⟩
      · rw [hst] at hactive
        cases hactive
      · rw [isCancelWord_not_success (hcancel hst)] at hsuccess
        cases hsuccess

omit htask in
theorem truthy_of_isDetachedMode (h : isDetachedMode r = true) : (r.get "mode").truthy = true := by
  refine Json.truthy_of_strOr fun hempty => ?_
  rw [isDetachedMode, hempty] at h
  exact absurd h (by decide)

include hkeyed hframe in
theorem uplinkStatus_detached (hdetached : isDetachedMode task.result = true)
    (hactive : task.status.isActive = true) :
    isSuccessWord (Text.lower (uplinkStatus task message now)) = false := by
  cases hsuccess : isSuccessWord (Text.lower message.reportedStatus) with
  | false =>
    rw [uplinkStatus, if_neg (by simp [hsuccess])]
    exact hsuccess
  | true =>
    have hreport : message.hostReport = some true := by
      rw [ResultFrame.hostReport, if_pos hsuccess]
    have hmode := (carries_uplinkResult htask hkeyed hframe now hreport).1.detached hdetached
    have hreports : reportsDetachedMode task (uplinkResult task message now) = true := by
      rw [reportsDetachedMode]
      rw [if_pos (truthy_of_isDetachedMode hmode)]
      exact hmode
    rw [uplinkStatus, if_pos (by simp [htask.kind, htask.correlated, hactive, hsuccess,
      hreports])]
    decide

include hkeyed hframe in
theorem status_handleTaskResult_ne_success (conf : Settings)
    (hdetached : isDetachedMode task.result = true ∨ task.status = .canceled)
    (hstatus : task.status ≠ .success) :
    (handleTaskResult conf task message now).task.status ≠ .success := by
  obtain ⟨-, -, haudited, -⟩ := handleTaskResult_audited conf task message now
  rw [haudited, htask.completeTask]
  refine status_commitResult_ne_success now conf htask hdetached hstatus _ (fun hactive => ?_) _ _ _
    _
  rcases hdetached with hdet | hcanceled
  · exact uplinkStatus_detached htask hkeyed hframe now hdet hactive
  · rw [hcanceled] at hactive
    cases hactive

theorem status_handleTaskResult_canceled (hcanceled : task.status = .canceled)
    (message : ResultFrame) : (handleTaskResult conf task message now).task.status = .canceled := by
  obtain ⟨-, -, haudited, -⟩ := handleTaskResult_audited conf task message now
  rw [haudited, htask.completeTask]
  rcases commitResult_cases conf task (Text.lower (uplinkStatus task message now))
    (uplinkResult task message now) (uplinkResult task message now) message.error false now with
    h | ⟨hfailed, -⟩ | ⟨hadmits, h⟩
  · rw [h]
    exact hcanceled
  · rw [hcanceled] at hfailed
    rcases hfailed with h | h <;> cases h
  · rcases hadmits with hactive | ⟨-, -, hword⟩
    · rw [hcanceled] at hactive
      cases hactive
    · have hcancel := hword hcanceled
      rw [h, status_storeResult _ _ (isCancelWord_ne_running hcancel),
        isCancelWord_not_success hcancel, if_neg Bool.false_ne_true, if_pos hcancel]

end Results

/-! ### The report of the host -/

def hostSucceeded (result : Dict) : Bool :=
  strippedLower (result.get "host_upgrade_status") = "success"

theorem Beside.hostSucceeded (h : Beside r r') : hostSucceeded r' = hostSucceeded r := by
  rw [Node.hostSucceeded, h.same "host_upgrade_status" List.mem_cons_self]
  rfl

theorem hostSucceeded_set (r : Dict) (hk : k ≠ "host_upgrade_status") (v : Json) :
    hostSucceeded (r.set k v) = hostSucceeded r := by
  rw [hostSucceeded, Dict.get_set_of_ne r v hk.symm]
  rfl

section Host

variable {message : ResultFrame} (htask : task.IsUpgrade) (hkeyed : task.result.Keyed)
  (hframe : AgentResult message) (now : Instant)

include htask hkeyed hframe in
/-- The report of the host after a frame is the one of before, or the one of the frame. -/
theorem hostSucceeded_storeResult {incoming : String} (error : String)
    (hincoming : incoming = Text.lower message.reportedStatus ∨
      (incoming = "running" ∧ message.hostReport = some true)) :
    hostSucceeded (storeResult conf task incoming (uplinkResult task message now)
        (uplinkResult task message now) error false now).result = true →
      (message.hostReport = none ∧ hostSucceeded task.result = true) ∨
        message.hostReport = some true := by
  have hkept := (Beside.withoutDelivery task.result).hostSucceeded
  cases hreport : message.hostReport with
  | none =>
    rw [uplinkResult_none htask now hreport]
    refine fun h => .inl ⟨rfl, ?_⟩
    have heq : incoming = Text.lower message.reportedStatus := by
      rcases hincoming with heq | ⟨-, hsuccess⟩
      · exact heq
      · cases hreport.symm.trans hsuccess
    rcases hostReport_none hreport with hrunning | hcancel
    · rw [storeResult, if_pos (heq.trans hrunning)] at h
      obtain ⟨-, hmarker⟩ := applyDetachedMarker_facts conf { task with
          status := .running
          acceptedAt := some (task.acceptedAt.getD now.time)
          result := (withoutDeliveryRuntimeState task.result).update message.result
          lastError := if error ≠ "" then clipError error else task.lastError } now
      have hmerged := hframe.beside (.withoutDelivery task.result)
      rw [← hmerged.hostSucceeded, ← hmarker.hostSucceeded]
      exact h
    · have hne := isCancelWord_ne_running (heq ▸ hcancel)
      have hblank : hostSucceeded message.result = false := by
        rw [hostSucceeded, Dict.get,
          Dict.get?_eq_none.mpr (hframe.evidence _ List.mem_cons_self)]
        decide
      rw [storeResult, if_neg hne] at h
      dsimp only at h
      split at h
      · rw [hostSucceeded_set _ (by decide)] at h
        split at h
        · rwa [hkept] at h
        · rw [hblank] at h
          cases h
      · split at h
        · rwa [hkept] at h
        · rw [hblank] at h
          cases h
  | some ok =>
    cases ok with
    | true => exact fun _ => .inr rfl
    | false =>
      intro h
      exfalso
      have hhost := (carries_uplinkResult htask hkeyed hframe now hreport).2
      rw [if_neg Bool.false_ne_true] at hhost
      have hfailed : hostSucceeded (uplinkResult task message now) = false := by
        rw [hostSucceeded, hhost]
        decide
      have heq : incoming = Text.lower message.reportedStatus := by
        rcases hincoming with heq | ⟨-, hsuccess⟩
        · exact heq
        · cases hreport.symm.trans hsuccess
      have hne : incoming ≠ "running" := by
        rintro rfl
        rw [ResultFrame.hostReport, ← heq] at hreport
        exact absurd hreport (by decide)
      have hstored : (uplinkResult task message now).isEmpty = false := by
        cases hempty : uplinkResult task message now with
        | nil =>
          rw [hempty] at hhost
          cases hhost
        | cons field fields => rfl
      rw [storeResult, if_neg hne, hstored] at h
      dsimp only at h
      split at h
      · rw [hostSucceeded_set _ (by decide), if_neg Bool.false_ne_true, hfailed] at h
        cases h
      · rw [if_neg Bool.false_ne_true, hfailed] at h
        cases h

include htask hkeyed hframe in
/-- A frame changes the report of the host only as the report of a running upgrade. -/
theorem hostSucceeded_handleTaskResult
    (hdetached : isDetachedMode task.result = true ∨ task.status = .canceled)
    (hstatus : task.status ≠ .success)
    (h : hostSucceeded (handleTaskResult conf task message now).task.result = true) :
    (hostSucceeded task.result = true ∧ (task.status.isActive = true → message.hostReport = none)) ∨
      (task.status.isActive = true ∧ message.hostReport = some true) := by
  obtain ⟨-, hbeside, -, -⟩ := handleTaskResult_audited conf task message now
  rw [hbeside.hostSucceeded, htask.completeTask] at h
  have hincoming : Text.lower (uplinkStatus task message now) = Text.lower message.reportedStatus ∨
      (Text.lower (uplinkStatus task message now) = "running" ∧
        message.hostReport = some true) := by
    rcases uplinkStatus_cases now message with heq | ⟨heq, hreport, -⟩
    · exact .inl (congrArg Text.lower heq)
    · rw [heq]
      exact .inr ⟨by decide, hreport⟩
  cases hactive : task.status.isActive with
  | true =>
    rw [commitResult_active now hactive] at h
    rcases hostSucceeded_storeResult htask hkeyed hframe now message.error hincoming h with
      ⟨hnone, hold⟩ | hreport
    · exact .inl ⟨hold, fun _ => hnone⟩
    · exact .inr ⟨rfl, hreport⟩
  | false =>
    refine .inl ⟨?_, fun h => (by cases h)⟩
    have hopen := status_commitResult_ne_success now conf htask hdetached hstatus
      (Text.lower (uplinkStatus task message now))
      (fun h => absurd (hactive.symm.trans h) Bool.false_ne_true)
      (uplinkResult task message now) (uplinkResult task message now) message.error false
    rcases commitResult_cases conf task (Text.lower (uplinkStatus task message now))
      (uplinkResult task message now) (uplinkResult task message now) message.error false now with
      heq | ⟨-, late, heq⟩ | ⟨-, heq⟩
    · rw [heq] at h
      exact h
    · rw [heq, hostSucceeded_set _ (by decide)] at h
      exact h
    · rw [heq] at h hopen
      rcases hostSucceeded_storeResult htask hkeyed hframe now message.error hincoming h with
        ⟨-, hold⟩ | hreport
      · exact hold
      · exfalso
        have hsuccess : isSuccessWord (Text.lower (uplinkStatus task message now)) = true := by
          rw [uplinkStatus, if_neg (by simp [hactive])]
          rw [ResultFrame.hostReport] at hreport
          by_contra hnot
          rw [if_neg hnot] at hreport
          split at hreport <;> cases hreport
        refine hopen ?_
        rw [status_storeResult _ _ (isSuccessWord_ne_running hsuccess), if_pos hsuccess]

end Host

theorem commitResult_sealed_success (conf : Settings)
    (hcorrelated : task.isLifecycleCorrelatedTask = true) (hstatus : task.status = .success)
    (hsealed : task.hasFlag "lifecycle_terminal_sealed" = true) (incoming : String)
    (result incomingResult : Dict) (error : String) (replaceResult : Bool) (now : Instant) :
    (commitResult conf task incoming result incomingResult error replaceResult now).task =
      task := by
  cases hsuccess : isSuccessWord incoming with
  | true =>
    have hterminal : incomingTerminalStatus incoming = some .success := by
      rw [incomingTerminalStatus, if_neg (isSuccessWord_ne_running hsuccess), if_pos hsuccess]
    rw [commitResult, hterminal, hcorrelated, hsealed, hstatus]
    rfl
  | false =>
    rcases commitResult_cases conf task incoming result incomingResult error replaceResult
      now with heq | ⟨hfailed, -⟩ | ⟨hadmits, -⟩
    · exact heq
    · rw [hstatus] at hfailed
      rcases hfailed with h | h <;> cases h
    · rcases hadmits with hactive | ⟨-, hword, -⟩
      · rw [hstatus] at hactive
        cases hactive
      · exact absurd (hword hstatus) (by rw [hsuccess]; exact Bool.false_ne_true)

theorem handleTaskResult_sealed (htask : task.IsUpgrade) (hstatus : task.status = .success)
    (hsealed : task.hasFlag "lifecycle_terminal_sealed" = true) (message : ResultFrame)
    (now : Instant) : (handleTaskResult conf task message now).task = task := by
  obtain ⟨-, -, hst, haudited⟩ := handleTaskResult_audited conf task message now
  rw [htask.completeTask, commitResult_sealed_success conf htask.correlated hstatus hsealed]
    at haudited
  exact haudited (by rw [hstatus]; simp)

end HyperFileLens.Node
