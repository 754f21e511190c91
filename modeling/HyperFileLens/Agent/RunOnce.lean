import HyperFileLens.Agent.RepairInterrupted
import HyperFileLens.Agent.ResultDelivery

/-!
# A task runs once and its outcome is final

What repeated commands, progress, cancellations and completions do to a task of the
Agent, repair passes aside.

*Runs.*  The executor of a task is created with its row, and a row is created once.
`Launched` counts the entries into the engine along a run: none while the row is missing
or its executor waits, and one at most after that.

*Outcomes.*  `RowKept` is what a step does to a row. Every writer names the statuses it
may find, so only `SealCancelledExecutorResult` writes a terminal row, and it keeps the
status.
-/

namespace HyperFileLens.Agent

open Transition

variable {boundTaskResult : Dict → Dict} {s s' : State}

/-! ## Labels -/

/-- The steps of a repair pass that write rows. -/
def Label.isRepair : Label → Bool
  | .repairNext .. => true
  | _ => false

def Label.starts (id : TaskId) : Label → Bool
  | .start id' => id' = id
  | _ => false

def Label.isSeal (id : TaskId) : Label → Bool
  | .sealCancelled id' .. => id' = id
  | _ => false

/-! ## Rows -/

/-- What a step does to a row. It is inserted, or written while it is active, or its
status is kept, and its result too unless it is cancelled and sealed. -/
inductive RowKept (sealed : Prop) : Option Task → Option Task → Prop
  | same (row : Option Task) : RowKept sealed row row
  | insert (t : Task) : RowKept sealed none (some t)
  | write {t t' : Task} : t.status.isActive = true → RowKept sealed (some t) (some t')
  | kept {t t' : Task} : t'.status = t.status → t'.result = t.result →
      RowKept sealed (some t) (some t')
  | evidence {t t' : Task} : sealed → t.status = .cancelled → t'.status = t.status →
      RowKept sealed (some t) (some t')

variable {j : TaskId} {t : Task} {a : Label} {sealed : Prop}

theorem RowKept.updateWhere {id : TaskId} {guard : Task → Bool} {assign : Task → Task}
    {tasks : Tasks}
    (hassign : j = id → ∀ t, guard t = true → RowKept sealed (some t) (some (assign t))) :
    RowKept sealed (tasks.lookup j) ((updateWhere tasks id guard assign).1.lookup j) := by
  rw [lookup_updateWhere]
  split
  next hj =>
    subst hj
    cases hl : tasks.lookup j with
    | none => exact .same none
    | some t =>
      by_cases hg : guard t = true
      · simpa [hg] using hassign rfl t hg
      · simpa [hg] using RowKept.same (some t)
  next => exact .same _

theorem RowKept.acceptCommand {tasks tasks' : Tasks} {id : TaskId} {jobId kind now : String}
    {inserted : Bool} (h : acceptCommand tasks id jobId kind now = some (tasks', t, inserted))
    (j : TaskId) : RowKept sealed (tasks.lookup j) (tasks'.lookup j) := by
  rcases acceptCommand_cases h with ⟨-, rfl, -⟩ | ⟨-, hnone, -, rfl⟩
  · exact .same _
  · by_cases hj : j = id
    · subst hj
      rw [hnone, AList.lookup_insert]
      exact .insert _
    · rw [AList.lookup_insert_ne hj]
      exact .same _

theorem RowKept.finishIfActive (tasks : Tasks) (id : TaskId) (status : TaskStatus) (result : Dict)
    (error now : String) (j : TaskId) :
    RowKept sealed (tasks.lookup j)
      ((finishIfActive tasks id status result error now).1.lookup j) :=
  .updateWhere fun _ _ h => .write h

theorem RowKept.markCancelledIfActive (tasks : Tasks) (id : TaskId) (now : String) (j : TaskId) :
    RowKept sealed (tasks.lookup j) ((markCancelledIfActive tasks id now).1.lookup j) :=
  .updateWhere fun _ _ h => .write h

theorem RowKept.updateRunning (tasks : Tasks) (id : TaskId) (result : Dict) (now : String)
    (j : TaskId) :
    RowKept sealed (tasks.lookup j) ((updateRunning tasks id result now).1.lookup j) :=
  .updateWhere fun _ _ h => .write h

theorem RowKept.updateProgress (tasks : Tasks) (id : TaskId) (progress : Json) (now : String)
    (j : TaskId) :
    RowKept sealed (tasks.lookup j) ((updateProgress tasks id progress now).1.lookup j) := by
  refine .updateWhere fun _ t h => .write ?_
  rw [of_decide_eq_true h]
  rfl

theorem RowKept.markResultReported (tasks : Tasks) (id : TaskId) (now : String) (j : TaskId) :
    RowKept sealed (tasks.lookup j) ((markResultReported tasks id now).1.lookup j) :=
  .updateWhere fun _ _ _ => .kept rfl rfl

theorem RowKept.sealCancelledExecutorResult (tasks : Tasks) (id : TaskId) (result : Dict)
    (error now : String) (j : TaskId) (hsealed : j = id → sealed) :
    RowKept sealed (tasks.lookup j)
      ((sealCancelledExecutorResult tasks id result error now).1.lookup j) :=
  .updateWhere fun hj _ h => .evidence (hsealed hj) (of_decide_eq_true h) rfl

theorem RowKept.of_step (ha : a.isRepair = false) (hs : s.step boundTaskResult a = some s')
    (j : TaskId) : RowKept (a.isSeal j = true) (s.tasks.lookup j) (s'.tasks.lookup j) := by
  have hsame : s'.tasks = s.tasks →
      RowKept (a.isSeal j = true) (s.tasks.lookup j) (s'.tasks.lookup j) := fun heq =>
    heq ▸ .same _
  cases hquiet : a.isQuiet with
  | true => exact hsame (State.SameTables.of_isQuiet hquiet hs).tasks
  | false =>
    cases a with
    | command cmd maintenance dbErr sendErr now =>
      cases hs
      rw [State.command]
      split
      · exact .same _
      · split
        · split <;> exact .same _
        · split
          · exact .same _
          · split
            · exact .same _
            · rename_i tasks persisted inserted haccept
              split
              · exact .acceptCommand haccept j
              · split <;> exact .same _
    | cancel id dbErr now =>
      cases hs
      rw [State.cancel]
      split
      · exact .same _
      · dsimp only
        split
        · exact .markCancelledIfActive s.tasks id now.text j
        · exact .same _
    | trackerCancel i =>
      refine hsame ?_
      simp only [State.step, State.trackerCancel] at hs
      grind [State.setExecution, State.deactivate]
    | register id =>
      refine hsame ?_
      simp only [State.step, State.register] at hs
      grind [State.toStage, State.setExecution]
    | waitCanceled id dbErr now =>
      simp only [State.step, State.waitCanceled] at hs
      split at hs
      · split at hs
        · split at hs
          · cases hs
            cases dbErr with
            | true => exact .same _
            | false =>
              simp only [Bool.false_eq_true, if_false]
              split <;> exact .finishIfActive ..
          · cases hs
        · cases hs
      · cases hs
    | progress id progress dbErr now =>
      simp only [State.step, State.progress] at hs
      split at hs
      · split at hs
        · split at hs
          · cases hs
            exact .updateProgress ..
          · cases hs
            exact .same _
        · cases hs
      · cases hs
    | persistRunning id dbErr now =>
      simp only [State.step, State.persistRunning] at hs
      split at hs
      · split at hs
        · split at hs
          · cases hs
            dsimp only [State.toStage, State.setExecution]
            split
            · exact .same _
            · exact .updateRunning ..
          · cases hs
        · cases hs
      · cases hs
    | finish id dbErr now =>
      simp only [State.step, State.finish] at hs
      split at hs
      · split at hs
        · split at hs
          · cases hs
          · split at hs
            · cases hs
              exact .same _
            · split at hs
              · split at hs
                · cases hs
                  exact .finishIfActive ..
                · cases hs
                  exact .finishIfActive ..
              · split at hs
                · cases hs
                  exact .finishIfActive ..
                · cases hs
                  exact .finishIfActive ..
        · cases hs
      · cases hs
    | sealCancelled id dbErr now =>
      simp only [State.step, State.sealCancelled] at hs
      split at hs
      · split at hs
        · split at hs
          · cases hs
            exact .same _
          · cases hs
            exact .sealCancelledExecutorResult _ _ _ _ _ _ fun hj => by simp [Label.isSeal, hj]
        · cases hs
      · cases hs
    | unregister id =>
      refine hsame ?_
      simp only [State.step, State.unregister] at hs
      grind [State.setExecution, State.deactivate]
    | ack o dbErr now =>
      simp only [State.step] at hs
      split at hs
      · cases hs
        rw [State.ack]
        split
        · exact .same _
        · exact .markResultReported ..
      · cases hs
    | repairSnapshot =>
      refine hsame ?_
      simp only [State.step, State.repairSnapshot] at hs
      grind
    | repairSelect =>
      refine hsame ?_
      simp only [State.step, State.repairSelect] at hs
      grind
    | repairNext ev dbErr now => simp [Label.isRepair] at ha
    | repairEnd => exact hsame (Option.some.inj hs ▸ rfl)
    | restart => exact hsame (Option.some.inj hs ▸ rfl)
    | _ => simp [Label.isQuiet] at hquiet

/-! ## Executors -/

/-- An executor that has not entered the engine. -/
def Stage.isWaiting : Stage → Bool
  | .accepted | .registered | .queued => true
  | _ => false

/-- An executor after a step was there before, and waited if it waits now, or it is created
with its row. -/
def ExecutorKept (s s' : State) (starts : Prop) (id : TaskId) : Prop :=
  ∀ e', s'.executions id = some e' →
    (∃ e, s.executions id = some e ∧
      (e'.stage.isWaiting = true → e.stage.isWaiting = true ∧ ¬starts)) ∨
    (s.tasks.lookup id = none ∧ (s'.tasks.lookup id).isSome = true ∧ ¬starts)

variable {starts : Prop}

theorem ExecutorKept.of_executions {id : TaskId} (hstarts : ¬starts)
    (h : s'.executions = s.executions) : ExecutorKept s s' starts id :=
  fun e' he' => .inl ⟨e', h ▸ he', fun hw => ⟨hw, hstarts⟩⟩

/-- One executor is replaced by one that waits only if the old one did. -/
theorem ExecutorKept.setExecution {id : TaskId} {e : Execution} {e' : Option Execution}
    (he : s.executions id = some e) (hstarts : ¬starts)
    (hwaits : ∀ x, e' = some x → x.stage.isWaiting = true → e.stage.isWaiting = true)
    (h : s'.executions = Function.update s.executions id e') : ExecutorKept s s' starts j := by
  intro x hx
  rw [h] at hx
  by_cases hj : j = id
  · subst hj
    rw [Function.update_self] at hx
    exact .inl ⟨e, he, fun hw => ⟨hwaits x hx hw, hstarts⟩⟩
  · rw [Function.update_of_ne hj] at hx
    exact .inl ⟨x, hx, fun hw => ⟨hw, hstarts⟩⟩

theorem ExecutorKept.of_moved (id : TaskId) (hstarts : ¬starts)
    (h : s'.executions = s.executions ∨ ∃ e e', s.executions id = some e ∧ s'.executions =
      Function.update s.executions id e' ∧ ∀ x, e' = some x → x.stage.isWaiting = true →
      e.stage.isWaiting = true) : ExecutorKept s s' starts j := by
  rcases h with heq | ⟨e, e', he, heq, hwaits⟩
  · exact .of_executions hstarts heq
  · exact .setExecution he hstarts hwaits heq

theorem ExecutorKept.of_step (hs : s.step boundTaskResult a = some s') (j : TaskId) :
    ExecutorKept s s' (a.starts j = true) j := by
  cases a with
  | command cmd maintenance dbErr sendErr now =>
    cases hs
    have hstarts : ¬(Label.command cmd maintenance dbErr sendErr now).starts j = true := by
      simp [Label.starts]
    rw [State.command]
    split
    · exact .of_executions hstarts rfl
    · split
      · split <;> exact .of_executions hstarts rfl
      · split
        · exact .of_executions hstarts rfl
        · split
          · exact .of_executions hstarts rfl
          · rename_i tasks persisted inserted haccept
            split
            · rename_i hinserted
              intro e' he'
              by_cases hj : j = cmd.taskId
              · -- The executor of a new row.
                subst hj
                rcases acceptCommand_cases haccept with ⟨hfalse, -, -⟩ | ⟨-, hnone, -, rfl⟩
                · simp [hfalse] at hinserted
                · exact .inr ⟨hnone, by simp [State.setExecution], hstarts⟩
              · simp only [State.setExecution, Function.update_of_ne hj] at he'
                exact .inl ⟨e', he', fun hw => ⟨hw, hstarts⟩⟩
            · split <;> exact .of_executions hstarts rfl
  | start id =>
    simp only [State.step, State.start] at hs
    split at hs
    · rename_i e he
      split at hs
      · cases hs
        intro e' he'
        by_cases hj : j = id
        · subst hj
          simp only [State.toStage, State.setExecution, Function.update_self,
            Option.some.injEq] at he'
          exact .inl ⟨e, he, fun hw => by simp [← he', Stage.isWaiting] at hw⟩
        · simp only [State.toStage, State.setExecution, Function.update_of_ne hj] at he'
          exact .inl ⟨e', he', fun hw => ⟨hw, by simp [Label.starts, Ne.symm hj]⟩⟩
      · cases hs
    · cases hs
  | cancel id dbErr now =>
    cases hs
    refine .of_executions (by simp [Label.starts]) ?_
    rw [State.cancel]
    grind [State.noteClosed]
  | trackerCancel i =>
    simp only [State.step, State.trackerCancel] at hs
    split at hs
    · cases hs
    · rename_i id version _
      refine .of_moved id (by simp [Label.starts]) ?_
      grind [State.setExecution, State.deactivate]
  | register id =>
    simp only [State.step, State.register] at hs
    refine .of_moved id (by simp [Label.starts]) ?_
    grind [State.toStage, State.setExecution, Stage.isWaiting]
  | precheck id dbErr =>
    simp only [State.step, State.precheck] at hs
    refine .of_moved id (by simp [Label.starts]) ?_
    grind [State.toStage, State.setExecution, Stage.isWaiting]
  | waitCanceled id dbErr now =>
    simp only [State.step, State.waitCanceled] at hs
    refine .of_moved id (by simp [Label.starts]) ?_
    grind [State.toStage, State.setExecution, Stage.isWaiting, State.noteClosed]
  | pathSizeBusy id =>
    simp only [State.step, State.pathSizeBusy] at hs
    refine .of_moved id (by simp [Label.starts]) ?_
    grind [State.toStage, State.setExecution, Stage.isWaiting]
  | progress id progress dbErr now =>
    simp only [State.step, State.progress] at hs
    refine .of_executions (by simp [Label.starts]) ?_
    grind
  | engineReturns id out now =>
    simp only [State.step, State.engineReturns] at hs
    refine .of_moved id (by simp [Label.starts]) ?_
    grind [State.toStage, State.setExecution, Stage.isWaiting]
  | persistRunning id dbErr now =>
    simp only [State.step, State.persistRunning] at hs
    refine .of_moved id (by simp [Label.starts]) ?_
    grind [State.toStage, State.setExecution, Stage.isWaiting]
  | finish id dbErr now =>
    simp only [State.step, State.finish] at hs
    refine .of_moved id (by simp [Label.starts]) ?_
    grind [State.toStage, State.setExecution, Stage.isWaiting, State.noteClosed]
  | sealCancelled id dbErr now =>
    simp only [State.step, State.sealCancelled] at hs
    refine .of_moved id (by simp [Label.starts]) ?_
    grind [State.toStage, State.setExecution, Stage.isWaiting]
  | readBack id dbErr =>
    simp only [State.step, State.readBack] at hs
    have hstarts : ¬(Label.readBack id dbErr).starts j = true := by simp [Label.starts]
    split at hs
    · rename_i e he
      split at hs
      · have hreturning : ExecutorKept s (s.toStage id e .returning)
            ((Label.readBack id dbErr).starts j = true) j :=
          .setExecution he hstarts (by rintro _ ⟨⟩ ⟨⟩) rfl
        split at hs
        · split at hs
          · exact Option.some.inj hs ▸ hreturning
          · exact Option.some.inj hs ▸ .setExecution he hstarts (by rintro _ ⟨⟩ ⟨⟩) rfl
        · exact Option.some.inj hs ▸ hreturning
      · cases hs
    · cases hs
  | reserve id now =>
    simp only [State.step, State.reserve] at hs
    refine .of_moved id (by simp [Label.starts]) ?_
    grind [State.toStage, State.setExecution, Stage.isWaiting]
  | send id sendErr =>
    simp only [State.step, State.send] at hs
    refine .of_moved id (by simp [Label.starts]) ?_
    grind [State.toStage, State.setExecution, Stage.isWaiting]
  | unregister id =>
    simp only [State.step, State.unregister] at hs
    refine .of_moved id (by simp [Label.starts]) ?_
    grind [State.toStage, State.setExecution, Stage.isWaiting, State.deactivate]
  | replayReserve i now =>
    simp only [State.step, State.replayReserve] at hs
    refine .of_executions (by simp [Label.starts]) ?_
    grind
  | replaySend i sendErr =>
    simp only [State.step, State.replaySend] at hs
    refine .of_executions (by simp [Label.starts]) ?_
    grind
  | flushOldest i =>
    simp only [State.step, State.flushOldest] at hs
    refine .of_executions (by simp [Label.starts]) ?_
    grind
  | flushReserve i now =>
    simp only [State.step, State.flushReserve] at hs
    refine .of_executions (by simp [Label.starts]) ?_
    grind
  | flushSend i sendErr =>
    simp only [State.step, State.flushSend] at hs
    refine .of_executions (by simp [Label.starts]) ?_
    grind
  | repairSnapshot =>
    simp only [State.step, State.repairSnapshot] at hs
    refine .of_executions (by simp [Label.starts]) ?_
    grind
  | repairSelect =>
    simp only [State.step, State.repairSelect] at hs
    refine .of_executions (by simp [Label.starts]) ?_
    grind
  | repairNext ev dbErr now =>
    simp only [State.step, State.repairNext] at hs
    refine .of_executions (by simp [Label.starts]) ?_
    grind
  | ack o dbErr now =>
    simp only [State.step, State.ack] at hs
    refine .of_executions (by simp [Label.starts]) ?_
    grind
  | restart =>
    cases hs
    exact fun e' he' => by simp [State.restart, State.initial] at he'
  | flushRecent | flushEnd i | reconnect | repairEnd =>
    cases hs
    exact .of_executions (by simp [Label.starts]) rfl

theorem Label.waiting_of_starts {id : TaskId} (ha : a.starts id = true)
    (hs : s.step boundTaskResult a = some s') :
    ∃ e, s.executions id = some e ∧ e.stage.isWaiting = true := by
  cases a with
  | start id' =>
    obtain rfl : id' = id := of_decide_eq_true ha
    simp only [State.step, State.start] at hs
    split at hs
    · rename_i e he
      split at hs
      · rename_i hstage
        exact ⟨e, he, by rw [hstage]; rfl⟩
      · cases hs
    · cases hs
  | _ => cases ha

/-! ## Entries into the engine -/

/-- How often the engine run of a task has been started: not while its row is missing or its
executor waits. -/
structure Launched (n : Nat) (s : State) (id : TaskId) : Prop where
  le_one : n ≤ 1
  missing : s.tasks.lookup id = none → n = 0
  waiting : ∀ e, s.executions id = some e → e.stage.isWaiting = true → n = 0
  row : ∀ e, s.executions id = some e → (s.tasks.lookup id).isSome = true

theorem Launched.initial (id : TaskId) : Launched 0 State.initial id :=
  ⟨Nat.zero_le 1, fun _ => rfl, fun _ _ _ => rfl, fun _ he => by simp [State.initial] at he⟩

theorem RowKept.isSome {row row' : Option Task} (h : RowKept sealed row row')
    (hrow : row.isSome = true) : row'.isSome = true := by
  cases h with
  | same => exact hrow
  | insert => rfl
  | write => rfl
  | kept => rfl
  | evidence => rfl

theorem Launched.step {n : Nat} {id : TaskId} (h : Launched n s id) (ha : a.isRepair = false)
    (hs : s.step boundTaskResult a = some s') :
    Launched (n + if a.starts id = true then 1 else 0) s' id := by
  have hrow := RowKept.of_step ha hs id
  have hkept := ExecutorKept.of_step hs id
  have hstays : (s.tasks.lookup id).isSome = true → (s'.tasks.lookup id).isSome = true :=
    hrow.isSome
  have hrow' : ∀ e', s'.executions id = some e' → (s'.tasks.lookup id).isSome = true := by
    intro e' he'
    rcases hkept e' he' with ⟨e, he, -⟩ | ⟨-, hsome, -⟩
    · exact hstays (h.row e he)
    · exact hsome
  by_cases hstarts : a.starts id = true
  · obtain ⟨e, he, hwaits⟩ := Label.waiting_of_starts hstarts hs
    have hn := h.waiting e he hwaits
    rw [if_pos hstarts, hn]
    refine ⟨Nat.le_refl 1, fun hnone => ?_, fun e' he' hw => ?_, hrow'⟩
    · simpa [hnone] using hstays (h.row e he)
    · rcases hkept e' he' with ⟨_, -, hold⟩ | ⟨-, -, hnot⟩
      · exact absurd hstarts (hold hw).2
      · exact absurd hstarts hnot
  · rw [if_neg hstarts, Nat.add_zero]
    refine ⟨h.le_one, fun hnone => ?_, fun e' he' hw => ?_, hrow'⟩
    · refine h.missing (Option.not_isSome_iff_eq_none.mp fun hsome => ?_)
      simpa [hnone] using hstays hsome
    · rcases hkept e' he' with ⟨e, he, hold⟩ | ⟨hnone, -, -⟩
      · exact h.waiting e he (hold hw).1
      · exact h.missing hnone

theorem Launched.run {labels : List Label} {n : Nat} {id : TaskId} (h : Launched n s id)
    (hrepair : ∀ a ∈ labels, a.isRepair = false)
    (hrun : (agent boundTaskResult).exec s labels = some s') :
    Launched (n + labels.countP (Label.starts id)) s' id := by
  induction labels generalizing s n with
  | nil =>
    obtain rfl : s = s' := Option.some.inj hrun
    exact h
  | cons a labels ih =>
    simp only [System.exec, List.foldlM_cons, Option.bind_eq_bind] at hrun
    obtain ⟨t, ht, hrest⟩ := Option.bind_eq_some_iff.mp hrun
    have hstep := h.step (hrepair a List.mem_cons_self) ht
    have hlast := ih hstep (fun b hb => hrepair b (List.mem_cons_of_mem a hb)) hrest
    have hcount : n + (a :: labels).countP (Label.starts id) =
        n + (if a.starts id = true then 1 else 0) + labels.countP (Label.starts id) := by
      rw [List.countP_cons]
      omega
    rw [hcount]
    exact hlast

/-! ## Outcomes -/

theorem RowKept.terminal {row' : Option Task} (h : RowKept sealed (some t) row')
    (hterminal : isTerminal t.status = true) : ∃ t', row' = some t' ∧ t'.status = t.status ∧
      (t'.result ≠ t.result → t.status = .cancelled ∧ sealed) := by
  cases h with
  | same => exact ⟨t, rfl, rfl, fun hne => absurd rfl hne⟩
  | write hactive => simp [isTerminal_eq_not_isActive, hactive] at hterminal
  | kept hstatus hresult => exact ⟨_, rfl, hstatus, fun hne => absurd hresult hne⟩
  | evidence hsealed hcancelled hstatus =>
    exact ⟨_, rfl, hstatus, fun _ => ⟨hcancelled, hsealed⟩⟩

/-- A run keeps the status of a terminal row, and its result unless it is cancelled and
sealed. -/
theorem terminal_kept {labels : List Label} (hrepair : ∀ a ∈ labels, a.isRepair = false)
    (hrun : (agent boundTaskResult).exec s labels = some s') {id : TaskId}
    (ht : s.tasks.lookup id = some t) (hterminal : isTerminal t.status = true) :
    ∃ t', s'.tasks.lookup id = some t' ∧ t'.status = t.status ∧
      (t'.result ≠ t.result → t.status = .cancelled ∧ ∃ a ∈ labels, a.isSeal id = true) := by
  induction labels generalizing s t with
  | nil =>
    obtain rfl : s = s' := Option.some.inj hrun
    exact ⟨t, ht, rfl, fun hne => absurd rfl hne⟩
  | cons a labels ih =>
    simp only [System.exec, List.foldlM_cons, Option.bind_eq_bind] at hrun
    obtain ⟨s₁, hs₁, hrest⟩ := Option.bind_eq_some_iff.mp hrun
    have hrow := RowKept.of_step (hrepair a List.mem_cons_self) hs₁ id
    rw [ht] at hrow
    obtain ⟨t₁, ht₁, hstatus₁, hresult₁⟩ := hrow.terminal hterminal
    obtain ⟨t', ht', hstatus', hresult'⟩ :=
      ih (fun b hb => hrepair b (List.mem_cons_of_mem a hb)) hrest ht₁ (hstatus₁ ▸ hterminal)
    refine ⟨t', ht', hstatus'.trans hstatus₁, fun hne => ?_⟩
    by_cases hfirst : t₁.result = t.result
    · obtain ⟨hcancelled, b, hb, hseal⟩ := hresult' (hfirst ▸ hne)
      exact ⟨hstatus₁ ▸ hcancelled, b, List.mem_cons_of_mem a hb, hseal⟩
    · obtain ⟨hcancelled, hseal⟩ := hresult₁ hfirst
      exact ⟨hcancelled, a, List.mem_cons_self, hseal⟩

/-- The engine run of a task is started at most once, and its outcome is final. -/
theorem runs_once {labels : List Label} {s : State}
    (hrun : (agent boundTaskResult).exec State.initial labels = some s)
    (hrepair : ∀ a ∈ labels, a.isRepair = false) :
    (∀ id, labels.countP (Label.starts id) ≤ 1) ∧
    ∀ before after s₀, labels = before ++ after →
      (agent boundTaskResult).exec State.initial before = some s₀ →
      ∀ id t, s₀.tasks.lookup id = some t → isTerminal t.status = true →
        ∃ t', s.tasks.lookup id = some t' ∧ t'.status = t.status ∧
          (t'.result ≠ t.result → t.status = .cancelled ∧ ∃ a ∈ after, a.isSeal id = true) := by
  refine ⟨fun id => ?_, fun before after s₀ hlabels hbefore id t ht hterminal => ?_⟩
  · have := ((Launched.initial id).run hrepair hrun).le_one
    rwa [Nat.zero_add] at this
  · subst hlabels
    rw [System.exec, List.foldlM_append] at hrun
    obtain ⟨s₁, hs₁, hafter⟩ := Option.bind_eq_some_iff.mp hrun
    obtain rfl : s₁ = s₀ := Option.some.inj (hs₁.symm.trans hbefore)
    exact terminal_kept (fun a ha => hrepair a (List.mem_append_right before ha)) hafter ht
      hterminal

/-- A restore that is cancelled while it runs, commanded again and sealed. -/
theorem runs_once_lateRun : ∃ s, (agent id).exec State.initial (lateRun ⟨0, "now"⟩) = some s ∧
    (∀ id, (lateRun ⟨0, "now"⟩).countP (Label.starts id) ≤ 1) ∧
    ∀ before after s₀, lateRun ⟨0, "now"⟩ = before ++ after →
      (agent id).exec State.initial before = some s₀ →
      ∀ id t, s₀.tasks.lookup id = some t → isTerminal t.status = true →
        ∃ t', s.tasks.lookup id = some t' ∧ t'.status = t.status ∧
          (t'.result ≠ t.result → t.status = .cancelled ∧ ∃ a ∈ after, a.isSeal id = true) := by
  have hend : ∃ s, (agent id).exec State.initial (lateRun ⟨0, "now"⟩) = some s := ⟨_, rfl⟩
  obtain ⟨s, hrun⟩ := hend
  exact ⟨s, hrun, runs_once hrun (by simp [lateRun, Label.isRepair])⟩

end HyperFileLens.Agent
