import HyperFileLens.Node.Writers

/-!
# Terminal states of a row

Which states of a row no writer leaves. The writers run in any order, any number
of times, each under the lock of the row.

*Settled rows.*  `SUCCESS` and `CANCELED` are settled, and so is a `TIMEOUT` that
`_timeout_unaccepted_task` sealed. `FAILED` and an unsealed `TIMEOUT` are not: a
late frame of the Agent may still decide them. The seal is a field of the result,
so that it stays is part of the invariant.
-/

namespace HyperFileLens.Node

open Transition

variable {conf : Settings} {task : NodeTask}

/-! ## Settled rows -/

/-- The row was sealed by `_timeout_unaccepted_task`. -/
def NodeTask.IsDeliveryTimeout (task : NodeTask) : Prop :=
  task.status = .timeout ∧ task.hasFlag "delivery_timeout_sealed" = true

/-- No writer changes the status of the row. -/
def NodeTask.IsSettled (task : NodeTask) : Prop :=
  task.status = .success ∨ task.status = .canceled ∨ task.IsDeliveryTimeout

theorem NodeTask.IsSettled.not_active (h : task.IsSettled) : task.status.isActive = false := by
  rcases h with h | h | h
  · rw [h]; rfl
  · rw [h]; rfl
  · rw [h.1]; rfl

theorem NodeTask.IsSettled.not_unaccepted (h : task.IsSettled) : task.isUnaccepted = false := by
  have := h.not_active
  rw [NodeTask.isUnaccepted]
  cases hst : task.status <;> simp_all [Status.isActive]

/-- `_timeout_unaccepted_task` seals what it times out. -/
theorem isDeliveryTimeout_timeoutUnacceptedTask (h : task.isUnaccepted = true)
    (errorCode message : String) :
    (timeoutUnacceptedTask task errorCode message).IsDeliveryTimeout := by
  unfold timeoutUnacceptedTask
  rw [h]
  refine ⟨rfl, ?_⟩
  simp [NodeTask.hasFlag, Dict.update, Dict.get, Dict.get?_set, Json.truthy]

section

variable (h : task.IsSettled)

include h

theorem NodeTask.IsSettled.recordTaskProgress (progress : Dict) (downloadCapable : Bool)
    (now : Instant) : recordTaskProgress conf task progress downloadCapable now = task := by
  simp [Node.recordTaskProgress, h.not_active]

theorem NodeTask.IsSettled.acceptTask (now : Instant) : acceptTask conf task now = task := by
  simp [Node.acceptTask, h.not_active]

theorem NodeTask.IsSettled.cancelTask (reason : String) (now : Instant) :
    cancelTask task reason now = task := by
  simp [Node.cancelTask, h.not_active]

theorem NodeTask.IsSettled.sweepCancelGraceExpired (cutoff : Time)
    (now : Instant) : sweepCancelGraceExpired task cutoff now = task := by
  unfold Node.sweepCancelGraceExpired
  split
  · simp [h.not_active]
  · rfl

theorem NodeTask.IsSettled.sweepWatchdogTimeouts (activity : UplinkActivity) (caps : Capabilities)
    (now : Time) : sweepWatchdogTimeouts conf task activity caps now = task := by
  simp [Node.sweepWatchdogTimeouts, h.not_active]

theorem NodeTask.IsSettled.timeoutUnacceptedTask (errorCode message : String) :
    timeoutUnacceptedTask task errorCode message = task := by
  simp [Node.timeoutUnacceptedTask, h.not_unaccepted]

theorem NodeTask.IsSettled.failTaskDelivery (held : Dict) (reason : String) :
    failTaskDelivery task held reason = task := by
  simp [Node.failTaskDelivery, h.not_unaccepted]

/-! ## Results -/

theorem NodeTask.IsSettled.commitResult (incoming : String)
    (result incomingResult : Dict) (error : String) (replaceResult : Bool) (now : Instant) :
    (commitResult conf task incoming result incomingResult error replaceResult now).task.status =
        task.status ∧
      (commitResult conf task incoming result incomingResult error replaceResult
        now).task.IsSettled := by
  rcases commitResult_cases conf task incoming result incomingResult error replaceResult now with
    heq | ⟨hst, late, heq⟩ | ⟨hadmits, heq⟩
  · rw [heq]
    exact ⟨rfl, h⟩
  · -- the row was sealed as a delivery timeout
    rw [heq]
    have hsealed : task.IsDeliveryTimeout := by
      rcases h with h | h | h
      · rcases hst with hst | hst <;> simp [h] at hst
      · rcases hst with hst | hst <;> simp [h] at hst
      · exact h
    exact ⟨rfl, Or.inr (Or.inr ⟨hsealed.1, by rw [hasFlag_set_late_result, hsealed.2]⟩)⟩
  · obtain ⟨hunsealed, hsuccess, hcanceled⟩ :=
      hadmits.resolve_left (by simp [h.not_active])
    rw [heq]
    rcases h with h | h | h
    · have hword := hsuccess h
      have hst := status_storeResult conf task (isSuccessWord_ne_running hword) result incomingResult
        error replaceResult now
      rw [if_pos hword] at hst
      exact ⟨hst.trans h.symm, Or.inl hst⟩
    · have hword := hcanceled h
      have hst := status_storeResult conf task (isCancelWord_ne_running hword) result incomingResult
        error replaceResult now
      rw [isCancelWord_not_success hword, if_neg Bool.false_ne_true, if_pos hword] at hst
      exact ⟨hst.trans h.symm, Or.inr (Or.inl hst)⟩
    · rw [h.2] at hunsealed
      contradiction

/-! ## Runs -/

/-- No writer changes the status of a settled row, and the row stays settled. -/
theorem NodeTask.IsSettled.write {task' : NodeTask} {w : Writer}
    (hw : task.write conf w = some task') : task'.status = task.status ∧ task'.IsSettled := by
  have hsame : ∀ t : NodeTask, t = task → some t = some task' →
      task'.status = task.status ∧ task'.IsSettled := by
    rintro t rfl heq
    cases heq
    exact ⟨rfl, h⟩
  cases w with
  | accept nodeId now =>
    simp only [NodeTask.write] at hw
    split at hw
    · exact hsame _ (h.acceptTask now) hw
    · simp at hw
  | progress nodeId progress downloadCapable now =>
    simp only [NodeTask.write] at hw
    split at hw
    · exact hsame _ (h.recordTaskProgress progress downloadCapable now) hw
    · simp at hw
  | complete nodeId status result error replaceResult now =>
    simp only [NodeTask.write] at hw
    split at hw
    · cases hw
      rcases completeTask_cases conf task status result error replaceResult now with
        heq | ⟨incoming, incomingResult, -, heq⟩
      · rw [heq]
        exact ⟨rfl, h⟩
      · rw [heq]
        exact h.commitResult incoming result incomingResult error replaceResult now
    · simp at hw
  | cancel reason now => exact hsame _ (h.cancelTask reason now) hw
  | sweepCancelGrace cutoff now => exact hsame _ (h.sweepCancelGraceExpired cutoff now) hw
  | sweepWatchdog activity caps now => exact hsame _ (h.sweepWatchdogTimeouts activity caps now) hw
  | timeoutUnaccepted errorCode message =>
    exact hsame _ (h.timeoutUnacceptedTask errorCode message) hw
  | failDelivery held reason => exact hsame _ (h.failTaskDelivery held reason) hw

end

def Settles (task task' : NodeTask) : Prop :=
  task.IsSettled → task'.status = task.status ∧ task'.IsSettled

theorem Settles.refl (t : NodeTask) : Settles t t := fun ht => ⟨rfl, ht⟩

theorem Settles.trans {t t' t'' : NodeTask} (h : Settles t t') (h' : Settles t' t'') :
    Settles t t'' := by
  intro ht
  obtain ⟨hst, hset⟩ := h ht
  obtain ⟨hst', hset'⟩ := h' hset
  exact ⟨hst'.trans hst, hset'⟩

theorem Settles.of_path {task' : NodeTask}
    (h : (rowSystem conf).Path System.always task task') : Settles task task' :=
  h.relation Settles.refl (fun _ _ _ => Settles.trans) fun _ _ _ _ hs ht => ht.write hs

/-- Terminal states are sticky: a successful or cancelled row keeps its status, and
so does a row that was sealed as a delivery timeout. -/
theorem terminal_sticky {task task' : NodeTask}
    (h : (rowSystem conf).Path System.always task task') :
    (task.status = .success ∨ task.status = .canceled → task'.status = task.status) ∧
      (task.IsDeliveryTimeout → task'.status = .timeout) := by
  have hsettles := Settles.of_path h
  refine ⟨fun hst => ?_, fun hsealed => ?_⟩
  · exact (hsettles (hst.imp_right Or.inl)).1
  · exact (hsettles (Or.inr (Or.inr hsealed))).1.trans hsealed.1

/-- The same row after its acceptance timeout. -/
def timedOutBackup : NodeTask :=
  timeoutUnacceptedTask createdBackup "AGENT_ACK_TIMEOUT" "Agent did not durably accept task.command"

/-- A success that arrives after the acceptance timeout is not taken. -/
theorem terminal_sticky_timedOutBackup :
    (completeTask {} timedOutBackup "success" [("snapshot_id", .str "k1")] "" false
      ⟨1, "1"⟩).task.status = .timeout := by
  have hsealed : timedOutBackup.IsDeliveryTimeout :=
    isDeliveryTimeout_timeoutUnacceptedTask (by decide) _ _
  have hwrite : (rowSystem {}).step timedOutBackup
      (.complete 7 "success" [("snapshot_id", .str "k1")] "" false ⟨1, "1"⟩) =
        some (completeTask {} timedOutBackup "success" [("snapshot_id", .str "k1")] "" false
          ⟨1, "1"⟩).task := rfl
  exact (terminal_sticky (.single trivial hwrite)).2 hsealed

end HyperFileLens.Node
