import HyperFileLens.Agent.Handler

/-!
# Acknowledged delivery of task results

What the acknowledgement protocol of the Agent guarantees about
`result_reported`, over every interleaving of the handler's goroutines.

*The invariant.*  A frame that was built from a row carries that row for as long
as the version of the row stays the same (`Faithful`). Every writer of a row
clears `result_reported` (`RowStep`), except `UpdateProgress`, which only runs
while no frame of the current version is out (`Delivery.quiet`).

*The gap.*  An acknowledgement names a task and not the frame it answers, and
`MarkResultReported` marks whatever the row holds when it arrives. `Timely` is
the condition on the acknowledgements of a run under which that is the content
that was sent.
-/

namespace HyperFileLens.Agent

open Transition

section Delivery

variable (boundTaskResult : Dict → Dict)

/-! ## Frames on their way -/

/-- The frame a flush pass will send for a row it has read. -/
def rowFrame (r : TaskId × Task) : Outgoing :=
  ⟨flushFrame boundTaskResult r.1 r.2, some r.2.version⟩

/-- The frame that reports a stored cancellation of a task that never ran. -/
def cancelFrame (id : TaskId) (version : Nat) : Outgoing :=
  ⟨canceledResult boundTaskResult id, some version⟩

def FlushPass.frames : FlushPass → List Outgoing
  | .listing rows => rows.map (rowFrame boundTaskResult)
  | .sending rows => rows.map (rowFrame boundTaskResult)
  | .reserved o rows => o :: rows.map (rowFrame boundTaskResult)

def Stage.frames : Stage → List Outgoing
  | .sending o | .reserved o => [o]
  | _ => []

/-- The frames of an executor. A cancelled one may still report that. -/
def Execution.frames (id : TaskId) (e : Execution) : List Outgoing :=
  e.stage.frames ++ (e.canceled.map (cancelFrame boundTaskResult id)).toList

/-- A frame was sent, or some goroutine may still send it. -/
inductive State.Emits (s : State) : Outgoing → Prop
  | sent {o : Outgoing} : o ∈ s.sent → s.Emits o
  | replay {r : LiveSend} : r ∈ s.replays → s.Emits r.out
  | flush {p : FlushPass} {o : Outgoing} :
      p ∈ s.flushes → o ∈ p.frames boundTaskResult → s.Emits o
  | execution {id : TaskId} {e : Execution} {o : Outgoing} :
      s.executions id = some e → o ∈ e.frames boundTaskResult id → s.Emits o
  | cancel {c : TaskId × Nat} : c ∈ s.cancels → s.Emits (cancelFrame boundTaskResult c.1 c.2)

/-! ## Steps of the rows -/

/-- A frame with a version carries the row of that version. -/
def Faithful (tasks : Tasks) (o : Outgoing) : Prop :=
  ∀ v, o.version = some v → ∃ t, tasks.lookup o.frame.taskId = some t ∧ v ≤ t.version ∧
    (v = t.version → Carries boundTaskResult o.frame t)

/-- An executor of the task has no outcome yet. -/
def State.Runs (s : State) (id : TaskId) : Prop :=
  ∃ e, s.executions id = some e ∧ e.stage.isRunning = true

/-- What a writer may do to one row: insert it, or write a new version of it that
is not reported. A row that stays active keeps its empty error, and a row that is
cancelled while its executor runs says so and nothing else. -/
inductive RowStep (runs : Prop) : Option Task → Option Task → Prop
  | same (row : Option Task) : RowStep runs row row
  | insert {t : Task} : t.resultReported = false → t.error = "" → t.status ≠ .cancelled →
      RowStep runs none (some t)
  | write {t t' : Task} : t.version < t'.version → t'.resultReported = false →
      (t'.status.isActive = true → t.status.isActive = true ∧ t'.error = t.error) →
      (runs → t'.status = .cancelled → t'.result = [] ∧ t'.error = "canceled") →
      RowStep runs (some t) (some t')

variable {t : Task} {now : Instant} {o : Outgoing} {s s' : State} {e : Execution} {i : Nat}
    {dbErr sendErr : Bool}

variable {id : TaskId} {runs : TaskId → Prop}

theorem RowStep.updateWhere {guard : Task → Bool} {assign : Task → Task} {tasks : Tasks}
    (hassign : ∀ t, tasks.lookup id = some t → guard t = true → RowStep (runs id) (some t) (some
      (assign t))) (j : TaskId) :
    RowStep (runs j) (tasks.lookup j) ((updateWhere tasks id guard assign).1.lookup j) := by
  rw [lookup_updateWhere]
  by_cases hj : j = id
  · subst hj
    rw [if_pos rfl]
    cases hl : tasks.lookup j with
    | none => exact .same none
    | some t =>
      by_cases hg : guard t = true
      · simpa [hg] using hassign t hl hg
      · simpa [hg] using RowStep.same (some t)
  · rw [if_neg hj]
    exact .same _

/-- `Task.write` with a terminal status is a step of the row. -/
theorem RowStep.write_terminal {runs : Prop} {st : TaskStatus} {result : Dict} {error now : String}
    (hst : isTerminal st = true)
    (hcancelled : runs → st = .cancelled → result = [] ∧ error = "canceled") :
    RowStep runs (some t) (some (t.write st result error now)) := by
  refine .write (Nat.lt_succ_self _) rfl (fun hactive => ?_) hcancelled
  rw [isTerminal_eq_not_isActive] at hst
  have hactive' : st.isActive = true := hactive
  simp [hactive'] at hst

theorem RowStep.faithful {tasks tasks' : Tasks}
    (h : ∀ id, RowStep (runs id) (tasks.lookup id) (tasks'.lookup id))
    (ho : Faithful boundTaskResult tasks o) : Faithful boundTaskResult tasks' o := by
  intro v hv
  obtain ⟨t, ht, hle, hcarries⟩ := ho v hv
  have hstep := h o.frame.taskId
  rw [ht] at hstep
  generalize hrow : tasks'.lookup o.frame.taskId = row at hstep
  cases hstep with
  | same => exact ⟨t, rfl, hle, hcarries⟩
  | write hlt _ _ _ => exact ⟨_, rfl, by omega, fun heq => absurd heq (by omega)⟩

/-! ## The invariant -/

/-- What holds of the Agent as long as every acknowledgement is timely. -/
structure Delivery (s : State) : Prop where
  /-- Every frame carries the row of its version. -/
  faithful : ∀ o, s.Emits boundTaskResult o → Faithful boundTaskResult s.tasks o
  acked : ∀ o ∈ s.acked, o ∈ s.sent
  /-- A reported row has an acknowledged frame of its version. -/
  reported : ∀ id t, s.tasks.lookup id = some t → t.resultReported = true →
    ∃ o ∈ s.acked, o.frame.taskId = id ∧ o.version = some t.version
  /-- No frame of a running row is out while its executor still runs. -/
  quiet : ∀ id t, s.Runs id → s.tasks.lookup id = some t → t.status = .running →
    ∀ o, s.Emits boundTaskResult o → o.frame.taskId = id → o.version ≠ some t.version
  blank : ∀ id t, s.tasks.lookup id = some t → t.status.isActive = true → t.error = ""
  /-- A row that was cancelled before its executor finished says so and nothing
  else. -/
  cancelled : ∀ id t, s.Runs id → s.tasks.lookup id = some t → t.status = .cancelled →
    t.result = [] ∧ t.error = "canceled"

/-- A new frame that may join: it carries its row, and it does not report a row
as running behind the back of its executor. -/
structure Joins (s : State) (o : Outgoing) : Prop where
  faithful : Faithful boundTaskResult s.tasks o
  settled : ∀ t, s.tasks.lookup o.frame.taskId = some t → o.version = some t.version →
    t.status = .running → ¬ s.Runs o.frame.taskId

variable {boundTaskResult}

theorem Joins.of_none (h : o.version = none) : Joins boundTaskResult s o :=
  ⟨fun v hv => by simp [h] at hv, fun t _ hv => by simp [h] at hv⟩

theorem Faithful.of_row {tasks : Tasks} (ht : tasks.lookup o.frame.taskId = some t)
    (hv : o.version = some t.version) (hcarries : Carries boundTaskResult o.frame t) :
    Faithful boundTaskResult tasks o := by
  intro v hv'
  rw [hv, Option.some.injEq] at hv'
  exact ⟨t, ht, hv'.ge, fun _ => hcarries⟩

theorem Joins.of_row (ht : s.tasks.lookup o.frame.taskId = some t) (hv : o.version = some t.version)
    (hcarries : Carries boundTaskResult o.frame t) (hst : t.status ≠ .running) :
    Joins boundTaskResult s o := by
  refine ⟨.of_row ht hv hcarries, fun t' ht' _ hrun => ?_⟩
  rw [ht, Option.some.injEq] at ht'
  exact absurd (ht' ▸ hrun) hst

theorem Joins.of_sending (hid : o.frame.taskId = id) (ht : s.tasks.lookup id = some t)
    (hv : o.version = some t.version) (hcarries : Carries boundTaskResult o.frame t) :
    Joins boundTaskResult (s.toStage id e (.sending o)) o := by
  subst hid
  refine ⟨.of_row ht hv hcarries, ?_⟩
  rintro - - - - ⟨e', he', hrun⟩
  simp only [State.toStage, State.setExecution, Function.update_self, Option.some.injEq] at he'
  simp [← he', Stage.isRunning] at hrun

/-- The step rule: rows make row steps, new frames join, and no executor starts
to run on an existing row. -/
theorem Delivery.step (h : Delivery boundTaskResult s)
    (hrows : ∀ id, RowStep (s'.Runs id) (s.tasks.lookup id) (s'.tasks.lookup id))
    (hemits : ∀ o, s'.Emits boundTaskResult o →
      s.Emits boundTaskResult o ∨ Joins boundTaskResult s' o) (hacked : s'.acked = s.acked)
    (hsent : ∀ o ∈ s.sent, o ∈ s'.sent)
    (hruns : ∀ id, s'.Runs id → s.tasks.lookup id = none ∨ s.Runs id) :
    Delivery boundTaskResult s' := by
  refine ⟨?_, ?_, ?_, ?_, ?_, ?_⟩
  · intro o ho
    rcases hemits o ho with hold | hnew
    · exact RowStep.faithful boundTaskResult hrows (h.faithful o hold)
    · exact hnew.faithful
  · intro o ho
    exact hsent o (h.acked o (hacked ▸ ho))
  · intro id t' ht' hrep
    have hstep := hrows id
    rw [ht'] at hstep
    generalize hrow : s.tasks.lookup id = row at hstep
    cases hstep with
    | same => exact hacked ▸ h.reported id t' hrow hrep
    | insert hfalse _ _ => simp [hfalse] at hrep
    | write _ hfalse _ _ => simp [hfalse] at hrep
  · intro id t' hrun ht' hst o ho hid hv
    rcases hemits o ho with hold | hnew
    · -- an old frame of this version: the row and its executor are old too
      obtain ⟨t, ht, hle, -⟩ := h.faithful o hold _ hv
      rw [hid] at ht
      have hstep := hrows id
      rw [ht, ht'] at hstep
      rcases hruns id hrun with hnone | hrun'
      · simp [hnone] at ht
      · cases hstep with
        | same => exact h.quiet id t' hrun' ht hst o hold hid hv
        | write hlt _ _ _ => omega
    · exact hnew.settled t' (hid ▸ ht') hv hst (hid ▸ hrun)
  · intro id t' ht' hactive
    have hstep := hrows id
    rw [ht'] at hstep
    generalize hrow : s.tasks.lookup id = row at hstep
    cases hstep with
    | same => exact h.blank id t' hrow hactive
    | insert _ herr _ => exact herr
    | write _ _ hkeep _ =>
      obtain ⟨hold, heq⟩ := hkeep hactive
      rw [heq]
      exact h.blank id _ hrow hold
  · intro id t' hrun ht' hst
    have hstep := hrows id
    rw [ht'] at hstep
    generalize hrow : s.tasks.lookup id = row at hstep
    cases hstep with
    | same =>
      rcases hruns id hrun with hnone | hrun'
      · simp [hnone] at hrow
      · exact h.cancelled id t' hrun' hrow hst
    | insert _ _ hne => exact absurd hst hne
    | write _ _ _ hsays => exact hsays hrun hst

/-! ## Emission under changes of the state -/

theorem State.Emits.congr (h : s'.Emits boundTaskResult o) (hsent : s'.sent = s.sent)
    (hreplays : s'.replays = s.replays) (hflushes : s'.flushes = s.flushes)
    (hexecutions : s'.executions = s.executions) (hcancels : s'.cancels = s.cancels) :
    s.Emits boundTaskResult o := by
  cases h with
  | sent h => exact .sent (hsent ▸ h)
  | replay h => exact .replay (hreplays ▸ h)
  | flush h ho => exact .flush (hflushes ▸ h) ho
  | execution h ho => exact .execution (hexecutions ▸ h) ho
  | cancel h => exact .cancel (hcancels ▸ h)

theorem State.Emits.of_setExecution {e' : Option Execution}
    (h : (s.setExecution id e').Emits boundTaskResult o) :
    s.Emits boundTaskResult o ∨ ∃ e, e' = some e ∧ o ∈ e.frames boundTaskResult id := by
  cases h with
  | sent h => exact Or.inl (.sent h)
  | replay h => exact Or.inl (.replay h)
  | flush h ho => exact Or.inl (.flush h ho)
  | @execution j e o h ho =>
    by_cases hj : j = id
    · subst hj
      simp only [State.setExecution, Function.update_self] at h
      exact Or.inr ⟨e, h, ho⟩
    · simp only [State.setExecution, Function.update_of_ne hj] at h
      exact Or.inl (.execution h ho)
  | cancel h => exact Or.inl (.cancel h)

theorem State.Runs.congr (h : s'.Runs id) (hexecutions : s'.executions = s.executions) :
    s.Runs id := by
  obtain ⟨e, he, hrun⟩ := h
  exact ⟨e, hexecutions ▸ he, hrun⟩

section

variable (h : Delivery boundTaskResult s)

include h

theorem Delivery.congr (htasks : s'.tasks = s.tasks)
    (hsent : s'.sent = s.sent) (hacked : s'.acked = s.acked) (hreplays : s'.replays = s.replays)
    (hflushes : s'.flushes = s.flushes) (hexecutions : s'.executions = s.executions)
    (hcancels : s'.cancels = s.cancels) : Delivery boundTaskResult s' := by
  refine h.step (fun id => ?_) (fun o ho => ?_) hacked (fun o ho => hsent ▸ ho)
    (fun id hrun => Or.inr (hrun.congr hexecutions))
  · rw [htasks]
    exact .same _
  · exact Or.inl (ho.congr hsent hreplays hflushes hexecutions hcancels)

theorem Delivery.tasks {tasks : Tasks}
    (hrows : ∀ id, RowStep (s.Runs id) (s.tasks.lookup id) (tasks.lookup id)) :
    Delivery boundTaskResult { s with tasks := tasks } :=
  h.step hrows (fun _ ho => Or.inl (ho.congr rfl rfl rfl rfl rfl)) rfl (fun _ ho => ho)
    (fun _ hrun => Or.inr hrun)

theorem Delivery.execution {id : TaskId} {e' : Execution}
    (he : s.executions id = some e) (hrun : e'.stage.isRunning = true → e.stage.isRunning = true)
    (hframes : ∀ o ∈ e'.frames boundTaskResult id,
      s.Emits boundTaskResult o ∨ Joins boundTaskResult (s.setExecution id (some e')) o) :
    Delivery boundTaskResult (s.setExecution id (some e')) := by
  refine h.step (fun _ => .same _) (fun o ho => ?_) rfl (fun _ ho => ho) ?_
  · rcases ho.of_setExecution with hold | ⟨e'', heq, hmem⟩
    · exact Or.inl hold
    · exact hframes o ((Option.some.inj heq) ▸ hmem)
  · rintro j ⟨e'', he'', hrun''⟩
    by_cases hj : j = id
    · subst hj
      simp only [State.setExecution, Function.update_self, Option.some.injEq] at he''
      exact Or.inr ⟨e, he, hrun (he'' ▸ hrun'')⟩
    · simp only [State.setExecution, Function.update_of_ne hj] at he''
      exact Or.inr ⟨e'', he'', hrun''⟩

theorem Delivery.toStage {id : TaskId} (he : s.executions id = some e) (stage : Stage)
    (hrun : stage.isRunning = true → e.stage.isRunning = true) (hframes : ∀ o ∈ stage.frames,
      s.Emits boundTaskResult o ∨ Joins boundTaskResult (s.toStage id e stage) o) :
    Delivery boundTaskResult (s.toStage id e stage) := by
  refine h.execution he hrun fun o ho => ?_
  rcases List.mem_append.mp ho with hstage | hcancel
  · exact hframes o hstage
  · exact Or.inl (.execution he (List.mem_append.mpr (Or.inr hcancel)))

theorem Delivery.noteClosed (id : TaskId) : Delivery boundTaskResult (s.noteClosed id) :=
  h.congr rfl rfl rfl rfl rfl rfl rfl

theorem Delivery.deactivate (id : TaskId) : Delivery boundTaskResult (s.deactivate id) :=
  h.congr rfl rfl rfl rfl rfl rfl rfl

theorem Delivery.inFlight (inFlight : InFlight) :
    Delivery boundTaskResult { s with inFlight := inFlight } :=
  h.congr rfl rfl rfl rfl rfl rfl rfl

/-- Frames that were already on their way may be sent, and goroutines other than
executors may take on frames that join. -/
theorem Delivery.frames (htasks : s'.tasks = s.tasks)
    (hacked : s'.acked = s.acked) (hexecutions : s'.executions = s.executions)
    (hsent : ∀ o ∈ s.sent, o ∈ s'.sent) (hemits : ∀ o, s'.Emits boundTaskResult o →
      s.Emits boundTaskResult o ∨ Joins boundTaskResult s o) : Delivery boundTaskResult s' := by
  refine h.step (fun id => ?_) (fun o ho => ?_) hacked hsent
    (fun id hrun => Or.inr (hrun.congr hexecutions))
  · rw [htasks]
    exact .same _
  · rcases hemits o ho with hold | hnew
    · exact Or.inl hold
    · refine Or.inr ⟨htasks ▸ hnew.faithful, fun t ht hv hst hrun => ?_⟩
      exact hnew.settled t (htasks ▸ ht) hv hst (hrun.congr hexecutions)

end

/-! ## Every step but the acknowledgement preserves the invariant -/

theorem versionOf_of_lookup {tasks : Tasks} (h : tasks.lookup id = some t) :
    versionOf tasks id = t.version := by
  rw [versionOf, h]
  rfl

section

variable (h : Delivery boundTaskResult s)

include h

theorem Delivery.command (cmd : TaskCommand) (maintenance dbErr sendErr : Bool) (now : Instant) :
    Delivery boundTaskResult (s.command boundTaskResult cmd maintenance dbErr sendErr now) := by
  unfold State.command
  split
  · exact h
  split
  · split
    · exact h
    · refine h.frames rfl rfl rfl (fun o ho => List.mem_cons_of_mem _ ho) fun o ho => ?_
      cases ho with
      | sent ho =>
        rcases List.mem_cons.mp ho with rfl | hold
        · exact Or.inr (.of_none rfl)
        · exact Or.inl (.sent hold)
      | replay ho => exact Or.inl (.replay ho)
      | flush hp ho => exact Or.inl (.flush hp ho)
      | execution he ho => exact Or.inl (.execution he ho)
      | cancel ho => exact Or.inl (.cancel ho)
  split
  · exact h
  split
  · exact h
  next tasks persisted inserted haccept =>
    rcases acceptCommand_cases haccept with ⟨rfl, rfl, hrow⟩ | ⟨rfl, hnone, rfl, rfl⟩
    · split
      · contradiction
      split
      next hterminal =>
        refine h.frames rfl rfl rfl (fun o ho => ho) fun o ho => ?_
        cases ho with
        | sent ho => exact Or.inl (.sent ho)
        | replay ho =>
          rcases List.mem_cons.mp ho with rfl | hold
          · refine Or.inr (.of_row hrow rfl (carries_storedFrame _ _ _) fun hst => ?_)
            simp [hst, isTerminal] at hterminal
          · exact Or.inl (.replay hold)
        | flush hp ho => exact Or.inl (.flush hp ho)
        | execution he ho => exact Or.inl (.execution he ho)
        | cancel ho => exact Or.inl (.cancel ho)
      next => exact h
    · rw [if_pos rfl]
      refine h.step (fun j => ?_) (fun o ho => ?_) rfl (fun _ ho => ho) fun j hrun => ?_
      · by_cases hj : j = cmd.taskId
        · subst hj
          simp only [State.setExecution, hnone, AList.lookup_insert]
          exact .insert rfl rfl (by simp [acceptedTask])
        · simp only [State.setExecution, AList.lookup_insert_ne hj]
          exact .same _
      · rcases ho.of_setExecution with hold | ⟨e, heq, hmem⟩
        · exact Or.inl (hold.congr rfl rfl rfl rfl rfl)
        · rw [Option.some.injEq] at heq
          subst heq
          simp [Execution.frames, Stage.frames] at hmem
      · by_cases hj : j = cmd.taskId
        · subst hj
          exact Or.inl hnone
        · obtain ⟨e, he, hrun'⟩ := hrun
          simp only [State.setExecution, Function.update_of_ne hj] at he
          exact Or.inr ⟨e, he, hrun'⟩

theorem Delivery.cancel (id : TaskId) (dbErr : Bool)
    (now : Instant) : Delivery boundTaskResult (s.cancel id dbErr now) := by
  unfold State.cancel
  split
  · exact h
  dsimp only
  split
  next hchanged =>
    refine Delivery.noteClosed ?_ id
    have hwrite : Delivery boundTaskResult
        { s with tasks := (markCancelledIfActive s.tasks id now.text).1 } :=
      h.tasks <| RowStep.updateWhere fun t _ _ => .write_terminal rfl fun _ _ => ⟨rfl, rfl⟩
    obtain ⟨t, ht, -, hnew⟩ := updateWhere_eq_true hchanged
    refine hwrite.frames rfl rfl rfl (fun o ho => ho) fun o ho => ?_
    cases ho with
    | sent ho => exact Or.inl (.sent ho)
    | replay ho => exact Or.inl (.replay ho)
    | flush hp ho => exact Or.inl (.flush hp ho)
    | execution he ho => exact Or.inl (.execution he ho)
    | cancel ho =>
      rcases List.mem_cons.mp ho with rfl | hold
      · refine Or.inr (.of_row hnew ?_ ⟨rfl, rfl, Or.inl rfl⟩ (by simp [Task.write]))
        exact congrArg some (versionOf_of_lookup hnew)
      · exact Or.inl (.cancel hold)
  next => exact h

theorem Delivery.trackerCancel (hs : s.trackerCancel i = some s') :
    Delivery boundTaskResult s' := by
  have hdrop : ∀ t : State, Delivery boundTaskResult t →
      Delivery boundTaskResult { t with cancels := t.cancels.eraseIdx i } := by
    intro t ht
    refine ht.frames rfl rfl rfl (fun o ho => ho) fun o ho => ?_
    cases ho with
    | sent ho => exact Or.inl (.sent ho)
    | replay ho => exact Or.inl (.replay ho)
    | flush hp ho => exact Or.inl (.flush hp ho)
    | execution he ho => exact Or.inl (.execution he ho)
    | cancel ho => exact Or.inl (.cancel (List.mem_of_mem_eraseIdx ho))
  unfold State.trackerCancel at hs
  split at hs
  · simp at hs
  next id version hcancel =>
    dsimp only at hs
    split at hs
    next e he =>
      split at hs
      · cases hs
        have hset : Delivery boundTaskResult
            (s.setExecution id (some { e with canceled := some version })) := by
          refine h.execution he (fun hr => hr) fun o ho => Or.inl ?_
          rcases List.mem_append.mp ho with hstage | hnotice
          · exact .execution he (List.mem_append.mpr (Or.inl hstage))
          · obtain rfl : o = cancelFrame boundTaskResult id version := by simpa using hnotice
            exact .cancel (List.mem_of_getElem? hcancel)
        exact (hdrop _ hset).deactivate id
      · cases hs
        exact hdrop s h
    next =>
      cases hs
      exact hdrop s h

variable {id : TaskId}

theorem Delivery.register (hs : s.register id = some s') : Delivery boundTaskResult s' := by
  unfold State.register at hs
  split at hs
  next e he =>
    split at hs
    next hstage =>
      cases hs
      have hactive : Delivery boundTaskResult { s with
          active := insert id s.active
          repair := s.repair.map fun p => { p with arrivals := insert id p.arrivals } } :=
        h.congr rfl rfl rfl rfl rfl rfl rfl
      refine hactive.toStage he .registered (fun _ => ?_) ?_
      · rw [hstage]
        rfl
      · simp [Stage.frames]
    next => simp at hs
  next => simp at hs

theorem Delivery.precheck (hs : s.precheck id dbErr = some s') : Delivery boundTaskResult s' := by
  unfold State.precheck at hs
  split at hs
  next e he =>
    split at hs
    next hstage =>
      have hrun : e.stage.isRunning = true := by rw [hstage]; rfl
      split at hs
      next t ht =>
        split at hs
        next hcancelled =>
          cases hs
          have hst : t.status = .cancelled := by simpa using (And.right (by simpa using hcancelled))
          obtain ⟨hresult, herror⟩ := h.cancelled id t ⟨e, he, hrun⟩ ht hst
          refine h.execution he (fun _ => hrun) fun o ho => Or.inr ?_
          obtain rfl : o = cancelFrame boundTaskResult id t.version := by
            simpa [Execution.frames, Stage.frames] using ho
          refine .of_row ht rfl ⟨?_, ?_, Or.inl ?_⟩ (by simp [hst])
          · rw [hst]
            rfl
          · rw [hresult]
            rfl
          · rw [herror]
            rfl
        next =>
          cases hs
          exact h.toStage he .queued (fun _ => hrun) (by simp [Stage.frames])
      next =>
        cases hs
        exact h.toStage he .queued (fun _ => hrun) (by simp [Stage.frames])
    next => simp at hs
  next => simp at hs

theorem Delivery.start (hs : s.start id = some s') : Delivery boundTaskResult s' := by
  unfold State.start at hs
  split at hs
  next e he =>
    split at hs
    next hstage =>
      cases hs
      exact h.toStage he .executing (fun _ => by rw [hstage]; rfl) (by simp [Stage.frames])
    next => simp at hs
  next => simp at hs

theorem Delivery.pathSizeBusy (hs : s.pathSizeBusy id = some s') : Delivery boundTaskResult s' := by
  unfold State.pathSizeBusy at hs
  split at hs
  next e he =>
    split at hs
    next =>
      split at hs
      · cases hs
        exact h.toStage he _ (by simp [Stage.isRunning]) (by simp [Stage.frames])
      · simp at hs
    next => simp at hs
  next => simp at hs

theorem Delivery.engineReturns {out : EngineResult}
    (hs : s.engineReturns boundTaskResult id out now = some s') : Delivery boundTaskResult s' := by
  unfold State.engineReturns at hs
  split at hs
  next e he =>
    split at hs
    next =>
      cases hs
      exact h.toStage he _ (by simp [Stage.isRunning]) (by simp [Stage.frames])
    next => simp at hs
  next => simp at hs

theorem Delivery.waitCanceled (hs : s.waitCanceled boundTaskResult id dbErr now = some s') :
    Delivery boundTaskResult s' := by
  unfold State.waitCanceled at hs
  split at hs
  next e he =>
    split at hs
    next version hstage hcanceled =>
      split at hs
      next =>
        -- the frame is the notice that came with the cancellation
        have hnotice : cancelFrame boundTaskResult id version ∈ e.frames boundTaskResult id := by
          simp [Execution.frames, hcanceled]
        have hsend : ∀ tasks : Tasks,
            (∀ j, RowStep (s.Runs j) (s.tasks.lookup j) (tasks.lookup j)) →
            Delivery boundTaskResult (({ s with tasks := tasks } : State).toStage id e
              (.sending (cancelFrame boundTaskResult id version))) := by
          intro tasks hrows
          refine (h.tasks hrows).toStage he _ (by simp [Stage.isRunning]) fun o ho => Or.inl ?_
          obtain rfl : o = cancelFrame boundTaskResult id version := by
            simpa [Stage.frames] using ho
          exact .execution he hnotice
        have hstored := hsend (finishIfActive s.tasks id .cancelled [] "canceled" now.text).1
          (RowStep.updateWhere fun t _ _ => .write_terminal rfl fun _ _ => ⟨rfl, rfl⟩)
        dsimp only at hs
        cases dbErr with
        | true =>
          cases hs
          exact hsend s.tasks fun _ => .same _
        | false =>
          simp only [Bool.false_eq_true, if_false] at hs
          cases hs
          split
          · exact hstored.noteClosed id
          · exact hstored
      next => simp at hs
    next => simp at hs
  next => simp at hs

/-- `UpdateProgress` keeps `result_reported`, which is not set while the executor
runs. -/
theorem Delivery.progress {progress : Json} (hs : s.progress id progress dbErr now = some s') :
    Delivery boundTaskResult s' := by
  unfold State.progress at hs
  split at hs
  next e he =>
    split at hs
    next hstage =>
      split at hs
      next =>
        cases hs
        refine h.tasks <| RowStep.updateWhere fun t ht hg => ?_
        have hst : t.status = .running := by simpa using hg
        have hrun : s.Runs id := ⟨e, he, by rw [hstage]; rfl⟩
        have hunreported : t.resultReported = false := by
          by_contra hrep
          obtain ⟨o, ho, hid, hv⟩ := h.reported id t ht (by simpa using hrep)
          exact h.quiet id t hrun ht hst o (.sent (h.acked o ho)) hid hv
        exact .write (Nat.lt_succ_self _) hunreported (fun hactive => ⟨hactive, rfl⟩)
          (fun _ hcancelled => by simp [hst] at hcancelled)
      next =>
        cases hs
        exact h
    next => simp at hs
  next => simp at hs

theorem Delivery.persistRunning (hs : s.persistRunning boundTaskResult id dbErr now = some s') :
    Delivery boundTaskResult s' := by
  unfold State.persistRunning at hs
  split at hs
  next e he =>
    split at hs
    next out hstage =>
      split at hs
      next hrunning =>
        dsimp only at hs
        have hrows : ∀ j, RowStep (s.Runs j) (s.tasks.lookup j)
            ((updateRunning s.tasks id out.result now.text).1.lookup j) :=
          RowStep.updateWhere fun t _ hg => .write (Nat.lt_succ_self _) rfl
            (fun _ => ⟨hg, rfl⟩) (fun _ hcancelled => by simp [Task.write] at hcancelled)
        cases dbErr with
        | true =>
          cases hs
          refine Delivery.toStage (h.tasks fun _ => .same _) he _ (by simp [Stage.isRunning])
            fun o ho => Or.inr (.of_none ?_)
          obtain rfl := List.mem_singleton.mp ho
          rfl
        | false =>
          simp only [Bool.false_eq_true, if_false] at hs
          cases hs
          refine Delivery.toStage (h.tasks hrows) he _ (by simp [Stage.isRunning])
            fun o ho => Or.inr ?_
          obtain rfl := List.mem_singleton.mp ho
          by_cases hstored : (updateRunning s.tasks id out.result now.text).2 = true
          · obtain ⟨t, ht, hg, hnew⟩ := updateWhere_eq_true hstored
            have hblank : t.error = "" := h.blank id t ht hg
            refine .of_sending rfl hnew ?_ ⟨rfl, rfl, Or.inl ?_⟩
            · dsimp only
              rw [if_pos hstored]
              exact congrArg some (versionOf_of_lookup hnew)
            · rw [show (t.write .running out.result t.error now.text).error = out.error by
                rw [out.running_error hrunning, ← hblank]
                rfl]
              rfl
          · refine .of_none ?_
            simp [hstored]
      next => simp at hs
    next => simp at hs
  next => simp at hs

end

/-- A status that is neither running nor stored as cancelled is reported as it
was returned. -/
theorem EngineResult.wireStatus_localStatus {out : EngineResult} (hrunning : out.status ≠ .running)
    (hcancelled : out.localStatus ≠ .cancelled) : wireStatus out.localStatus = out.status := by
  unfold EngineResult.localStatus at hcancelled ⊢
  split at hcancelled
  · exact absurd rfl hcancelled
  · rw [if_neg ‹_›]
    cases hst : out.status <;> simp_all [wireStatus]

section

variable (h : Delivery boundTaskResult s)

include h

variable {id : TaskId}

theorem Delivery.finish (hs : s.finish boundTaskResult id dbErr now = some s') :
    Delivery boundTaskResult s' := by
  unfold State.finish at hs
  split at hs
  next e he =>
    split at hs
    next out hstage =>
      have hidle : ¬ s.Runs id := by
        rintro ⟨e', he', hrun⟩
        rw [he, Option.some.injEq] at he'
        simp [← he', hstage, Stage.isRunning] at hrun
      split at hs
      · simp at hs
      next hrunning =>
        split at hs
        · cases hs
          exact h.toStage he _ (by simp [Stage.isRunning]) (by simp [Stage.frames])
        dsimp only at hs
        have hfinish : Delivery boundTaskResult { s with
            tasks := (finishIfActive s.tasks id out.localStatus out.result out.error
              now.text).1 } :=
          h.tasks <| RowStep.updateWhere fun t _ _ =>
            .write_terminal out.isTerminal_localStatus fun hrun => absurd hrun hidle
        have hquiet : ∀ stage : Stage, stage.isRunning = false → stage.frames = [] →
            Delivery boundTaskResult (({ s with
              tasks := (finishIfActive s.tasks id out.localStatus out.result out.error
                now.text).1 } : State).toStage id e stage) := by
          intro stage hrun hframes
          exact hfinish.toStage he _ (by simp [hrun]) (by simp [hframes])
        split at hs
        next hstored =>
          split at hs
          · cases hs
            exact (hquiet .reading rfl rfl).noteClosed id
          next hcancelled =>
            cases hs
            refine Delivery.noteClosed ?_ id
            refine hfinish.toStage he _ (by simp [Stage.isRunning]) fun o ho => Or.inr ?_
            obtain rfl := List.mem_singleton.mp ho
            obtain ⟨t, -, -, hnew⟩ := updateWhere_eq_true hstored
            refine .of_sending rfl hnew ?_ ⟨?_, rfl, Or.inl rfl⟩
            · exact congrArg some (versionOf_of_lookup hnew)
            · exact (EngineResult.wireStatus_localStatus hrunning hcancelled).symm
        next =>
          split at hs
          · cases hs
            exact hquiet (.unstored out) rfl rfl
          · cases hs
            exact hquiet .reading rfl rfl
    next => simp at hs
  next => simp at hs

theorem Delivery.sealCancelled (hs : s.sealCancelled id dbErr now = some s') :
    Delivery boundTaskResult s' := by
  unfold State.sealCancelled at hs
  split at hs
  next e he =>
    split at hs
    next out hstage =>
      have hidle : ¬ s.Runs id := by
        rintro ⟨e', he', hrun⟩
        rw [he, Option.some.injEq] at he'
        simp [← he', hstage, Stage.isRunning] at hrun
      split at hs
      · cases hs
        exact h.toStage he _ (by simp [Stage.isRunning]) (by simp [Stage.frames])
      · cases hs
        have hseal : Delivery boundTaskResult { s with
            tasks := (sealCancelledExecutorResult s.tasks id out.result out.error now.text).1 } := by
          refine h.tasks <| RowStep.updateWhere fun t _ hg =>
            .write_terminal ?_ fun hrun => absurd hrun hidle
          have hst : t.status = .cancelled := by simpa using hg
          rw [hst]
          rfl
        exact hseal.toStage he .reading (by simp [Stage.isRunning]) (by simp [Stage.frames])
    next => simp at hs
  next => simp at hs

theorem Delivery.readBack (hs : s.readBack boundTaskResult id dbErr = some s') :
    Delivery boundTaskResult s' := by
  unfold State.readBack at hs
  split at hs
  next e he =>
    split at hs
    next =>
      have hreturn : Delivery boundTaskResult (s.toStage id e .returning) :=
        h.toStage he _ (by simp [Stage.isRunning]) (by simp [Stage.frames])
      split at hs
      next t ht =>
        split at hs
        · cases hs
          exact hreturn
        · cases hs
          refine h.toStage he _ (by simp [Stage.isRunning]) fun o ho => Or.inr ?_
          obtain rfl := List.mem_singleton.mp ho
          exact .of_sending rfl ht rfl (carries_storedFrame _ _ _)
      next =>
        cases hs
        exact hreturn
    next => simp at hs
  next => simp at hs

theorem Delivery.sent (ho : s.Emits boundTaskResult o) :
    Delivery boundTaskResult { s with sent := o :: s.sent } := by
  refine h.frames rfl rfl rfl (fun _ h => List.mem_cons_of_mem _ h) fun o' ho' => Or.inl ?_
  cases ho' with
  | sent hmem =>
    rcases List.mem_cons.mp hmem with rfl | hold
    · exact ho
    · exact .sent hold
  | replay hr => exact .replay hr
  | flush hp hmem => exact .flush hp hmem
  | execution he hmem => exact .execution he hmem
  | cancel hc => exact .cancel hc

theorem Delivery.reserve (hs : s.reserve id now = some s') : Delivery boundTaskResult s' := by
  unfold State.reserve at hs
  split at hs
  next e he =>
    split at hs
    next o hstage =>
      dsimp only at hs
      cases hs
      refine (h.inFlight (reserveResultDelivery s.inFlight id now.nanos).1).toStage he
        (if (reserveResultDelivery s.inFlight id now.nanos).2 = true then .reserved o
          else .returning) ?_ fun o' ho' => Or.inl ?_
      · split <;> simp [Stage.isRunning]
      · split at ho'
        · obtain rfl := List.mem_singleton.mp ho'
          exact .execution he (by simp [Execution.frames, Stage.frames, hstage])
        · simp [Stage.frames] at ho'
    next => simp at hs
  next => simp at hs

theorem Delivery.send (hs : s.send id sendErr = some s') : Delivery boundTaskResult s' := by
  unfold State.send at hs
  split at hs
  next e he =>
    split at hs
    next o hstage =>
      have ho : s.Emits boundTaskResult o :=
        .execution he (by simp [Execution.frames, Stage.frames, hstage])
      dsimp only at hs
      split at hs
      · cases hs
        refine Delivery.inFlight ?_ _
        exact h.toStage he _ (by simp [Stage.isRunning]) (by simp [Stage.frames])
      · cases hs
        have hsent := h.sent ho
        exact hsent.toStage he _ (by simp [Stage.isRunning]) (by simp [Stage.frames])
    next => simp at hs
  next => simp at hs

theorem Delivery.unregister (hs : s.unregister id = some s') : Delivery boundTaskResult s' := by
  unfold State.unregister at hs
  split at hs
  next e he =>
    split at hs
    next =>
      cases hs
      refine Delivery.deactivate ?_ id
      refine h.step (fun _ => .same _) (fun o ho => ?_) rfl (fun _ ho => ho) ?_
      · rcases ho.of_setExecution with hold | ⟨e', heq, -⟩
        · exact Or.inl hold
        · simp at heq
      · rintro j ⟨e', he', hrun⟩
        by_cases hj : j = id
        · subst hj
          simp [State.setExecution] at he'
        · simp only [State.setExecution, Function.update_of_ne hj] at he'
          exact Or.inr ⟨e', he', hrun⟩
    next => simp at hs
  next => simp at hs

theorem Delivery.replays (replays : List LiveSend)
    (hsub : ∀ r ∈ replays, ∃ r' ∈ s.replays, r'.out = r.out) :
    Delivery boundTaskResult { s with replays := replays } := by
  refine h.frames rfl rfl rfl (fun _ ho => ho) fun o ho => Or.inl ?_
  cases ho with
  | sent ho => exact .sent ho
  | replay hr =>
    obtain ⟨r', hr', heq⟩ := hsub _ hr
    exact heq ▸ .replay hr'
  | flush hp ho => exact .flush hp ho
  | execution he ho => exact .execution he ho
  | cancel hc => exact .cancel hc

theorem Delivery.replayReserve
    (hs : s.replayReserve i now = some s') : Delivery boundTaskResult s' := by
  unfold State.replayReserve at hs
  split at hs
  next r hr =>
    split at hs
    · simp at hs
    dsimp only at hs
    split at hs
    · cases hs
      refine Delivery.inFlight (h.replays (s.replays.set i _) fun r' hr' => ?_) _
      rcases List.mem_or_eq_of_mem_set hr' with hold | rfl
      · exact ⟨r', hold, rfl⟩
      · exact ⟨r, List.mem_of_getElem? hr, rfl⟩
    · cases hs
      exact h.replays _ fun r' hr' => ⟨r', List.mem_of_mem_eraseIdx hr', rfl⟩
  next => simp at hs

theorem Delivery.replaySend (hs : s.replaySend i sendErr = some s') :
    Delivery boundTaskResult s' := by
  unfold State.replaySend at hs
  split at hs
  next r hr =>
    split at hs
    next =>
      dsimp only at hs
      split at hs
      · cases hs
        have hdrop := h.replays (s.replays.eraseIdx i)
          fun r' hr' => ⟨r', List.mem_of_mem_eraseIdx hr', rfl⟩
        exact hdrop.inFlight _
      · cases hs
        have hsent := h.sent (.replay (List.mem_of_getElem? hr))
        exact hsent.replays _ fun r' hr' => ⟨r', List.mem_of_mem_eraseIdx hr', rfl⟩
    next => simp at hs
  next => simp at hs

/-- The list of flush passes changes: its frames were on their way or join. -/
theorem Delivery.flushes (flushes : List FlushPass)
    (hsub : ∀ p ∈ flushes, p ∈ s.flushes ∨ ∀ o ∈ p.frames boundTaskResult,
      s.Emits boundTaskResult o ∨ Joins boundTaskResult s o) :
    Delivery boundTaskResult { s with flushes := flushes } := by
  refine h.frames rfl rfl rfl (fun _ ho => ho) fun o ho => ?_
  cases ho with
  | sent ho => exact Or.inl (.sent ho)
  | replay hr => exact Or.inl (.replay hr)
  | flush hp ho =>
    rcases hsub _ hp with hold | hnew
    · exact Or.inl (.flush hold ho)
    · exact hnew o ho
  | execution he ho => exact Or.inl (.execution he ho)
  | cancel hc => exact Or.inl (.cancel hc)

end

theorem Joins.of_listed {descending : Bool} {limit : Nat} {r : TaskId × Task}
    (h : r ∈ listUnreportedOrdered s.tasks descending limit) :
    Joins boundTaskResult s (rowFrame boundTaskResult r) := by
  obtain ⟨ht, hterminal⟩ := mem_listUnreportedOrdered h
  refine .of_row ht rfl (carries_flushFrame _ _ _) fun hst => ?_
  simp [hst, isTerminal] at hterminal

section

variable (h : Delivery boundTaskResult s)

include h

theorem Delivery.flushRecent : Delivery boundTaskResult s.flushRecent := by
  refine h.flushes _ fun p hp => ?_
  rcases List.mem_cons.mp hp with rfl | hold
  · refine Or.inr fun o ho => Or.inr ?_
    obtain ⟨r, hr, rfl⟩ := List.mem_map.mp ho
    exact .of_listed hr
  · exact Or.inl hold

theorem Delivery.flushOldest (hs : s.flushOldest i = some s') : Delivery boundTaskResult s' := by
  unfold State.flushOldest at hs
  split at hs
  next recent hpass =>
    cases hs
    refine h.flushes _ fun p hp => ?_
    rcases List.mem_or_eq_of_mem_set hp with hold | rfl
    · exact Or.inl hold
    · refine Or.inr fun o ho => ?_
      obtain ⟨r, hr, rfl⟩ := List.mem_map.mp ho
      rcases List.mem_append.mp (mem_mergeUnreported hr) with hrecent | holdest
      · exact Or.inl (.flush (List.mem_of_getElem? hpass) (List.mem_map_of_mem hrecent))
      · exact Or.inr (.of_listed holdest)
  next => simp at hs

theorem Delivery.flushReserve
    (hs : s.flushReserve boundTaskResult i now = some s') : Delivery boundTaskResult s' := by
  unfold State.flushReserve at hs
  split at hs
  next id t pending hpass =>
    dsimp only at hs
    have hset : ∀ granted : Bool, ∀ p ∈ s.flushes.set i
        (if granted then .reserved (rowFrame boundTaskResult (id, t)) pending
          else .sending pending), p ∈ s.flushes ∨ ∀ o ∈ p.frames boundTaskResult,
        s.Emits boundTaskResult o ∨ Joins boundTaskResult s o := by
      intro granted p hp
      rcases List.mem_or_eq_of_mem_set hp with hold | rfl
      · exact Or.inl hold
      · refine Or.inr fun o ho => Or.inl (.flush (List.mem_of_getElem? hpass) ?_)
        cases granted with
        | true => exact ho
        | false => exact List.mem_cons_of_mem _ ho
    cases hs
    exact (h.flushes _ (hset (reserveResultDelivery s.inFlight id now.nanos).2)).inFlight _
  next => simp at hs

theorem Delivery.flushSend (hs : s.flushSend i sendErr = some s') :
    Delivery boundTaskResult s' := by
  unfold State.flushSend at hs
  split at hs
  next o pending hpass =>
    have hmem := List.mem_of_getElem? hpass
    have hset : ∀ p ∈ s.flushes.set i (.sending pending), p ∈ s.flushes ∨
        ∀ o' ∈ p.frames boundTaskResult,
          s.Emits boundTaskResult o' ∨ Joins boundTaskResult s o' := by
      intro p hp
      rcases List.mem_or_eq_of_mem_set hp with hold | rfl
      · exact Or.inl hold
      · exact Or.inr fun o' ho' => Or.inl (.flush hmem (List.mem_cons_of_mem _ ho'))
    dsimp only at hs
    split at hs
    · cases hs
      exact (h.flushes _ hset).inFlight _
    · cases hs
      have hsent := h.sent (.flush hmem List.mem_cons_self)
      refine hsent.flushes _ fun p hp => ?_
      rcases List.mem_or_eq_of_mem_set hp with hold | rfl
      · exact Or.inl hold
      · exact Or.inr fun o' ho' => Or.inl (.flush hmem (List.mem_cons_of_mem _ ho'))
  next => simp at hs

theorem Delivery.flushEnd (i : Nat) : Delivery boundTaskResult (s.flushEnd i) :=
  h.flushes _ fun _ hp => Or.inl (List.mem_of_mem_eraseIdx hp)

theorem Delivery.repairNext {ev : LifecycleEvidence}
    (hs : s.repairNext ev dbErr now = some s') : Delivery boundTaskResult s' := by
  unfold State.repairNext at hs
  split at hs
  next p _ =>
    split at hs
    next id t rows _ =>
      have hnext : Delivery boundTaskResult
          { s with repair := some { p with selected := some rows } } :=
        h.congr rfl rfl rfl rfl rfl rfl rfl
      dsimp only at hs
      split at hs
      · cases hs
        exact hnext
      split at hs
      · cases hs
        exact hnext
      next st result errMsg houtcome =>
        have hstatus := repairOutcome_status houtcome
        split at hs
        · cases hs
          exact h.congr rfl rfl rfl rfl rfl rfl rfl
        · cases hs
          refine hnext.tasks <| RowStep.updateWhere fun t _ _ => .write_terminal ?_ fun _ hst => ?_
          · rcases hstatus with rfl | rfl <;> rfl
          · rcases hstatus with rfl | rfl <;> simp at hst
    next => simp at hs
  next => simp at hs

theorem Delivery.repairSnapshot (hs : s.repairSnapshot = some s') :
    Delivery boundTaskResult s' := by
  unfold State.repairSnapshot at hs
  split at hs
  · cases hs
    exact h.congr rfl rfl rfl rfl rfl rfl rfl
  · simp at hs

theorem Delivery.repairSelect (hs : s.repairSelect = some s') : Delivery boundTaskResult s' := by
  unfold State.repairSelect at hs
  split at hs
  · split at hs
    · cases hs
      exact h.congr rfl rfl rfl rfl rfl rfl rfl
    · simp at hs
  · simp at hs

theorem Delivery.restart : Delivery boundTaskResult s.restart := by
  refine h.step (fun _ => .same _) (fun o ho => Or.inl ?_) rfl (fun _ ho => ho) ?_
  · cases ho with
    | sent ho => exact .sent ho
    | replay hr => exact absurd hr (List.not_mem_nil)
    | flush hp _ => exact absurd hp (List.not_mem_nil)
    | execution he _ => exact absurd he (by simp [State.restart, State.initial])
    | cancel hc => exact absurd hc (List.not_mem_nil)
  · rintro id ⟨e, he, -⟩
    exact absurd he (by simp [State.restart, State.initial])

end

/-! ## Acknowledgements -/

/-- An acknowledgement is timely when the frame it answers was built from what
the row holds when it is handled, or when it changes nothing. -/
def Timely (s : State) : Label → Prop
  | .ack o dbErr _ =>
    dbErr = false → ∀ t, s.tasks.lookup o.frame.taskId = some t → t.resultReported = false →
      o.version = some t.version
  | _ => True

/-- `MarkResultReported` keeps the content of every row and sets the mark of one. -/
theorem lookup_markResultReported {tasks : Tasks} {id j : TaskId} {now : String} {t' : Task}
    (h : (markResultReported tasks id now).1.lookup j = some t') : ∃ t, tasks.lookup j = some t ∧
      t.SameContent t' ∧ (t'.resultReported = true → t.resultReported = true ∨ j = id) := by
  rw [markResultReported, lookup_updateWhere] at h
  split at h
  next hj =>
    subst hj
    obtain ⟨t, ht, rfl⟩ := Option.map_eq_some_iff.mp h
    exact ⟨t, ht, ⟨rfl, rfl, rfl, rfl⟩, fun _ => Or.inr rfl⟩
  next => exact ⟨t', h, .refl t', Or.inl⟩

theorem Delivery.ack (h : Delivery boundTaskResult s) (hsent : o ∈ s.sent)
    (htimely : Timely s (.ack o dbErr now)) : Delivery boundTaskResult (s.ack o dbErr now) := by
  unfold State.ack
  split
  · exact h
  next hdb =>
    have hold : ∀ o', ({ s with
        tasks := (markResultReported s.tasks o.frame.taskId now.text).1
        inFlight := releaseResultDelivery s.inFlight o.frame.taskId
        acked := o :: s.acked } : State).Emits boundTaskResult o' → s.Emits boundTaskResult o' :=
      fun o' ho' => ho'.congr rfl rfl rfl rfl rfl
    refine ⟨?_, ?_, ?_, ?_, ?_, ?_⟩
    · intro o' ho' v hv
      obtain ⟨t, ht, hle, hcarries⟩ := h.faithful o' (hold o' ho') v hv
      dsimp only [markResultReported]
      rw [lookup_updateWhere]
      split
      next hid =>
        rw [← hid, ht]
        exact ⟨_, rfl, hle, fun heq => (hcarries heq).of_sameContent ⟨rfl, rfl, rfl, rfl⟩⟩
      next => exact ⟨t, ht, hle, hcarries⟩
    · intro o' ho'
      rcases List.mem_cons.mp ho' with rfl | hacked
      · exact hsent
      · exact h.acked o' hacked
    · intro id t' ht' hrep
      obtain ⟨t, ht, hsame, hmark⟩ := lookup_markResultReported ht'
      by_cases hwas : t.resultReported = true
      · obtain ⟨o', ho', hid, hv⟩ := h.reported id t ht hwas
        exact ⟨o', List.mem_cons_of_mem _ ho', hid, by rw [hv, hsame.version]⟩
      · -- the row is marked now, by an answer to its own content
        obtain rfl : id = o.frame.taskId := (hmark hrep).resolve_left hwas
        refine ⟨o, List.mem_cons_self, rfl, ?_⟩
        rw [htimely (by simpa using hdb) t ht (by simpa using hwas), hsame.version]
    · intro id t' hrun ht' hst o' ho' hid
      obtain ⟨t, ht, hsame, -⟩ := lookup_markResultReported ht'
      rw [hsame.version]
      exact h.quiet id t (hrun.congr rfl) ht (hsame.status ▸ hst) o' (hold o' ho') hid
    · intro id t' ht' hactive
      obtain ⟨t, ht, hsame, -⟩ := lookup_markResultReported ht'
      rw [hsame.error]
      exact h.blank id t ht (hsame.status ▸ hactive)
    · intro id t' hrun ht' hst
      obtain ⟨t, ht, hsame, -⟩ := lookup_markResultReported ht'
      rw [hsame.result, hsame.error]
      exact h.cancelled id t (hrun.congr rfl) ht (hsame.status ▸ hst)

/-! ## Runs -/

theorem Delivery.initial : Delivery boundTaskResult State.initial := by
  have hrow : ∀ id, State.initial.tasks.lookup id = none := fun id => AList.lookup_empty id
  refine ⟨?_, ?_, ?_, ?_, ?_, ?_⟩
  · intro o ho
    cases ho with
    | sent h => exact absurd h List.not_mem_nil
    | replay h => exact absurd h List.not_mem_nil
    | flush h _ => exact absurd h List.not_mem_nil
    | execution h _ => exact absurd h (by simp [State.initial])
    | cancel h => exact absurd h List.not_mem_nil
  · intro o ho
    exact absurd ho List.not_mem_nil
  all_goals intros; simp_all

theorem Delivery.agent_step {a : Label} (h : Delivery boundTaskResult s) (htimely : Timely s a)
    (hs : s.step boundTaskResult a = some s') : Delivery boundTaskResult s' := by
  cases a with
  | command cmd maintenance dbErr sendErr now =>
    exact Option.some.inj hs ▸ h.command cmd maintenance dbErr sendErr now
  | cancel id dbErr now => exact Option.some.inj hs ▸ h.cancel id dbErr now
  | trackerCancel i => exact h.trackerCancel hs
  | register id => exact h.register hs
  | precheck id dbErr => exact h.precheck hs
  | start id => exact h.start hs
  | waitCanceled id dbErr now => exact h.waitCanceled hs
  | pathSizeBusy id => exact h.pathSizeBusy hs
  | progress id progress dbErr now => exact h.progress hs
  | engineReturns id out now => exact h.engineReturns hs
  | persistRunning id dbErr now => exact h.persistRunning hs
  | finish id dbErr now => exact h.finish hs
  | sealCancelled id dbErr now => exact h.sealCancelled hs
  | readBack id dbErr => exact h.readBack hs
  | reserve id now => exact h.reserve hs
  | send id sendErr => exact h.send hs
  | unregister id => exact h.unregister hs
  | replayReserve i now => exact h.replayReserve hs
  | replaySend i sendErr => exact h.replaySend hs
  | flushRecent => exact Option.some.inj hs ▸ h.flushRecent
  | flushOldest i => exact h.flushOldest hs
  | flushReserve i now => exact h.flushReserve hs
  | flushSend i sendErr => exact h.flushSend hs
  | flushEnd i => exact Option.some.inj hs ▸ h.flushEnd i
  | ack o dbErr now =>
    simp only [State.step] at hs
    split at hs
    next hsent => exact Option.some.inj hs ▸ h.ack hsent htimely
    next => simp at hs
  | reconnect => exact Option.some.inj hs ▸ h.inFlight ∅
  | repairSnapshot => exact h.repairSnapshot hs
  | repairSelect => exact h.repairSelect hs
  | repairNext ev dbErr now => exact h.repairNext hs
  | repairEnd => exact Option.some.inj hs ▸ h.congr rfl rfl rfl rfl rfl rfl rfl
  | restart => exact Option.some.inj hs ▸ h.restart

theorem Delivery.of_reachable (h : (agent boundTaskResult).ReachableUnder Timely s) :
    Delivery boundTaskResult s :=
  h.invariant (fun _ hinit => hinit ▸ Delivery.initial) fun _ _ _ h' ht hs => h'.agent_step ht hs

variable (boundTaskResult) in
/-- Every reported row was sent as it is, and that frame was acknowledged. -/
def Acknowledged (s : State) : Prop :=
  ∀ id t, s.tasks.lookup id = some t → t.resultReported = true →
    ∃ o ∈ s.acked, o ∈ s.sent ∧ o.frame.taskId = id ∧ Carries boundTaskResult o.frame t

/-- No result is lost in a run whose acknowledgements are timely. -/
theorem acknowledged_of_timely {s : State}
    (h : (agent boundTaskResult).ReachableUnder Timely s) : Acknowledged boundTaskResult s := by
  have hinv := Delivery.of_reachable h
  intro id t ht hrep
  obtain ⟨o, ho, hid, hv⟩ := hinv.reported id t ht hrep
  obtain ⟨t', ht', -, hcarries⟩ := hinv.faithful o (.sent (hinv.acked o ho)) _ hv
  rw [hid, ht, Option.some.injEq] at ht'
  exact ⟨o, ho, hinv.acked o ho, hid, ht' ▸ hcarries (by rw [ht'])⟩

end Delivery

/-! ## A run with a late acknowledgement -/

def restoreCommand : TaskCommand where
  taskId := "t1"
  jobId := "j1"
  kind := "restore.run"
  payload := [("workspace_kind", .str "managed_restore"), ("workspace_uid", .str "u1"),
    ("managed_workspace_path", .str "/workspace")]
  path := "/workspace/data"

def restoreOutcome (status : WireStatus) (hstatus : status ≠ .running) : EngineResult where
  status := status
  result := []
  error := ""
  running_error := fun h => absurd h hstatus

def restoreCanceled : Outgoing := cancelFrame id "t1" 1

/-- The command is repeated after its cancellation, and the answer to that is
acknowledged once the executor has sealed its evidence. -/
def lateRun (now : Instant) : List Label :=
  [.command restoreCommand false false false now, .register "t1", .precheck "t1" false,
    .start "t1", .cancel "t1" false now, .trackerCancel 0,
    .command restoreCommand false false false now, .replayReserve 0 now, .replaySend 0 false,
    .engineReturns "t1" (restoreOutcome .failed nofun) now, .finish "t1" false now,
    .sealCancelled "t1" false now, .ack restoreCanceled false now]

/-- The row of the run is reported, and no acknowledged frame carries its
evidence. -/
theorem not_acknowledged_lateRun :
    ∃ s, (agent id).exec State.initial (lateRun ⟨0, "now"⟩) = some s ∧
      (agent id).Reachable s ∧ ¬ Acknowledged id s := by
  have hend : ∃ s, (agent id).exec State.initial (lateRun ⟨0, "now"⟩) = some s ∧
      ¬ Acknowledged id s := by
    refine ⟨_, rfl, fun h => ?_⟩
    obtain ⟨o, ho, -, -, hcarries⟩ := h "t1" _ rfl rfl
    obtain rfl := List.mem_singleton.mp ho
    exact absurd hcarries.result (by decide)
  obtain ⟨s, hrun, hnot⟩ := hend
  exact ⟨s, hrun, .of_exec rfl hrun, hnot⟩

/-- The executor finishes, its result is sent and that frame is acknowledged. -/
def timelyRun (now : Instant) : List Label :=
  [.command restoreCommand false false false now, .register "t1", .precheck "t1" false,
    .start "t1", .engineReturns "t1" (restoreOutcome .success nofun) now, .finish "t1" false now,
    .reserve "t1" now, .send "t1" false,
    .ack ⟨sendTaskResult id "t1" .success
      [("executor_finished", .bool true), ("completion_source", .str "agent_executor"),
        ("executor_finished_at", .str "now")] "", some 1⟩ false now]

theorem acknowledged_timelyRun : ∃ s t,
    (agent id).exec State.initial (timelyRun ⟨0, "now"⟩) = some s ∧
    s.tasks.lookup "t1" = some t ∧ t.resultReported = true ∧ Acknowledged id s := by
  have hend : ∃ s t, (agent id).exec State.initial (timelyRun ⟨0, "now"⟩) = some s ∧
      s.tasks.lookup "t1" = some t ∧ t.resultReported = true := ⟨_, _, rfl, rfl, rfl⟩
  obtain ⟨s, t, hrun, ht, hrep⟩ := hend
  refine ⟨s, t, hrun, ht, hrep, acknowledged_of_timely (.of_exec (.start rfl) ?_ hrun)⟩
  -- the only acknowledgement answers the frame of the row
  refine ⟨trivial, trivial, trivial, trivial, trivial, trivial, trivial, trivial, ?_, trivial⟩
  rintro - t' ht' -
  cases ht'
  rfl

end HyperFileLens.Agent
