import HyperFileLens.Storage.OrphanEffects

/-!
# The gate of a repository

A reconciliation task that is terminal stays so, and the gate belongs to the task that is
not, in every run of the advances of a target.

*Invariant.*  `GateInv` says that the active task of the target is the one that is not
terminal. `Ended` relates two moments of a run.

*Defect.*  `_wait` of an Agent's target saves its status without a look at the row. A
run under `WaitsOpen` makes such a call only while the task is not terminal, and
`gate_kept` is about these runs. In `reopened` a stale advance waits after its task has
succeeded.
-/

namespace HyperFileLens.Storage

open Tasks Service Transition

/-! ## Statuses along a run -/

def Ended (db db' : OrphanTables) : Prop :=
  ∀ row ∈ db.tasks, ∃ row' ∈ db'.tasks, row'.id = row.id ∧
    (row.task.status.isTerminal = true → row'.task.status = row.task.status)

variable {db db' : OrphanTables} {t : Nat}

theorem Ended.refl (db : OrphanTables) : Ended db db :=
  fun row hrow => ⟨row, hrow, rfl, fun _ => rfl⟩

theorem Ended.trans {db'' : OrphanTables} (h : Ended db db') (h' : Ended db' db'') :
    Ended db db'' := by
  intro row hrow
  obtain ⟨row', hrow', hid', hstatus'⟩ := h row hrow
  obtain ⟨row'', hrow'', hid'', hstatus''⟩ := h' row' hrow'
  refine ⟨row'', hrow'', hid''.trans hid', fun hterminal => ?_⟩
  have heq := hstatus' hterminal
  rw [hstatus'' (heq ▸ hterminal), heq]

theorem Ended.of_tasks (h : db'.tasks = db.tasks) : Ended db db' :=
  fun row hrow => ⟨row, h ▸ hrow, rfl, fun _ => rfl⟩

/-! ## The invariant -/

structure GateInv (db : OrphanTables) : Prop where
  fresh : ∀ row ∈ db.tasks, row.id < db.tasks.length
  keyed : Table.Keyed ReconcileTask.id db.tasks
  gate : ∀ row ∈ db.tasks, row.task.status.isTerminal = false → db.activeTask = some row.id

variable {db db' : OrphanTables} {row : ReconcileTask}

theorem OrphanTables.mem_of_task (h : db.task t = some row) : row ∈ db.tasks ∧ row.id = t :=
  Table.mem_of_find h

theorem OrphanTables.Fresh.gateInv (h : db.Fresh) : GateInv db where
  fresh := fun row hrow => by simp [h.tasks] at hrow
  keyed := h.tasks ▸ .nil
  gate := fun row hrow => by simp [h.tasks] at hrow

theorem GateInv.of_tasks (h : GateInv db) (htasks : db'.tasks = db.tasks)
    (hactive : db'.activeTask = db.activeTask) : GateInv db' where
  fresh := htasks ▸ h.fresh
  keyed := htasks ▸ h.keyed
  gate := htasks ▸ hactive ▸ h.gate

theorem GateInv.terminal_of_open (h : GateInv db) (hopen : db.activeTask = none)
    (hrow : row ∈ db.tasks) : row.task.status.isTerminal = true := by
  cases hstatus : row.task.status.isTerminal with
  | true => rfl
  | false => simp [h.gate row hrow hstatus] at hopen

theorem GateInv.updateTask (h : GateInv db) {f : ReconcileTask → ReconcileTask}
    (hid : ∀ row, (f row).id = row.id)
    (hstatus : ∀ row ∈ db.tasks, row.id = t → row.task.status.isTerminal = true →
      (f row).task.status = row.task.status) :
    GateInv (db.updateTask t f) ∧ Ended db (db.updateTask t f) := by
  have hkey : ∀ row : ReconcileTask, (if row.id = t then f row else row).id = row.id :=
    Table.key_update_row hid
  refine ⟨⟨fun row' hrow' => ?_, h.keyed.update hid, fun row' hrow' hopen => ?_⟩,
    fun row hrow => ?_⟩
  · obtain ⟨row, hrow, rfl⟩ := List.mem_map.mp hrow'
    rw [hkey]
    simpa [OrphanTables.updateTask, Table.update] using h.fresh row hrow
  · rcases Table.mem_update.mp hrow' with ⟨row, hrow, ht, rfl⟩ | ⟨hrow, -⟩
    · rw [hid]
      refine h.gate row hrow ?_
      cases hended : row.task.status.isTerminal with
      | false => rfl
      | true => rw [← hopen, hstatus row hrow ht hended, hended]
    · exact h.gate row' hrow hopen
  · refine ⟨_, List.mem_map_of_mem hrow, hkey row, fun hended => ?_⟩
    split
    · rename_i ht
      exact hstatus row hrow ht hended
    · rfl

theorem GateInv.newTask (hfresh : ∀ row ∈ db.tasks, row.id < db.tasks.length)
    (hkeyed : Table.Keyed ReconcileTask.id db.tasks)
    (hended : ∀ row ∈ db.tasks, row.task.status.isTerminal = true)
    (hid : row.id = db.tasks.length) :
    GateInv { db with tasks := row :: db.tasks, activeTask := some row.id } where
  fresh := by
    intro r hr
    rcases List.mem_cons.mp hr with rfl | hr
    · simp [hid]
    · exact Nat.lt_succ_of_lt (hfresh r hr)
  keyed := hkeyed.cons fun r hr => hid ▸ (hfresh r hr).ne
  gate := by
    intro r hr hopen
    rcases List.mem_cons.mp hr with rfl | hr
    · rfl
    · simp [hended r hr] at hopen

section

variable (row : ReconcileTask)

theorem Ended.newTask (active : Option Nat) :
    Ended db { db with tasks := row :: db.tasks, activeTask := active } :=
  fun r hr => ⟨r, List.mem_cons_of_mem _ hr, rfl, fun _ => rfl⟩

/-! ## The rows that transactions write -/

@[simp] theorem ReconcileTask.record_id (snapshotId : String)
    (outcome : ResultOutcome) : (row.record snapshotId outcome).id = row.id := by
  rw [record]
  split <;> rfl

@[simp] theorem ReconcileTask.record_task (snapshotId : String)
    (outcome : ResultOutcome) : (row.record snapshotId outcome).task = row.task := by
  rw [record]
  split <;> rfl

@[simp] theorem ReconcileTask.step_id (name : String) (status : StepStatus)
    (progress : Nat) : (row.step name status progress).id = row.id := by
  rw [step]
  split
  · rfl
  · split <;> rfl

@[simp] theorem ReconcileTask.step_task (name : String)
    (status : StepStatus) (progress : Nat) :
    (row.step name status progress).task = row.task := by
  rw [step]
  split
  · rfl
  · split <;> rfl

@[simp] theorem ReconcileTask.closeSteps_id (c : Completion) :
    (row.closeSteps c).id = row.id := by
  rw [closeSteps]
  split
  · simp
  · rfl

@[simp] theorem ReconcileTask.closeSteps_task (c : Completion) :
    (row.closeSteps c).task = row.task := by
  rw [closeSteps]
  split
  · simp
  · rfl

end

@[simp] theorem OrphanTables.confirmingTask_id (now : Int) (row : ReconcileTask) :
    (confirmingTask now row).id = row.id := by
  rw [confirmingTask]
  split <;> rfl

theorem OrphanTables.confirmingTask_of_terminal (now : Int)
    (h : row.task.status.isTerminal = true) : confirmingTask now row = row := by
  rw [confirmingTask, if_pos (.inl h)]

@[simp] theorem OrphanTables.completedTask_id (row : ReconcileTask) (c : Completion) :
    (completedTask row c).id = row.id := by
  simp [completedTask]

theorem OrphanTables.completedTask_terminal (row : ReconcileTask) (c : Completion) :
    (completedTask row c).task.status.isTerminal = true := by
  refine TaskRow.isTerminal_complete _ _ _ _ ?_
  split <;> rfl

/-! ## Steps -/

section

variable (h : GateInv db)

include h

variable {c : Completion} {controller : Bool}

theorem GateInv.unchanged (htasks : db'.tasks = db.tasks)
    (hactive : db'.activeTask = db.activeTask) : GateInv db' ∧ Ended db db' :=
  ⟨h.of_tasks htasks hactive, .of_tasks htasks⟩

/-- `_record` after a change of other tables. -/
theorem GateInv.record (db' : OrphanTables) (htasks : db'.tasks = db.tasks)
    (hactive : db'.activeTask = db.activeTask) (t : Nat) (snapshotId : String)
    (outcome : ResultOutcome) :
    GateInv (db'.record t snapshotId outcome) ∧ Ended db (db'.record t snapshotId outcome) := by
  obtain ⟨hinv, hends⟩ := (h.of_tasks htasks hactive).updateTask (t := t)
    (f := fun row => row.record snapshotId outcome) (fun _ => ReconcileTask.record_id ..)
    fun row _ _ _ => congrArg _ (row.record_task ..)
  exact ⟨hinv, (Ended.of_tasks htasks).trans hends⟩

/-- `_wait` leaves an ended task alone, when an Agent's advance finds its task open. -/
theorem GateInv.wait (controller : Bool) (t : Nat) (reason : String)
    (hopen : controller = false → ∀ row ∈ db.tasks, row.id = t →
      row.task.status.isTerminal = false) :
    GateInv (db.wait controller t reason) ∧ Ended db (db.wait controller t reason) := by
  cases controller with
  | true =>
    exact h.updateTask (fun _ => OrphanTables.confirmingTask_id ..)
      fun row _ _ hended => by
        rw [if_pos rfl, OrphanTables.confirmingTask_of_terminal _ hended]
  | false =>
    exact h.updateTask (fun _ => rfl)
      fun row hrow ht hended => by simp [hopen rfl row hrow ht] at hended

theorem GateInv.finalize (hrow : row ∈ db.tasks) (hopen : row.task.status.isTerminal = false)
    (c : Completion) : (GateInv (db.finalize row c) ∧ Ended db (db.finalize row c)) ∧
      ∀ r ∈ (db.finalize row c).tasks, r.task.status.isTerminal = true := by
  have hactive := h.gate row hrow hopen
  have hended : ∀ r ∈ (db.finalize row c).tasks, r.task.status.isTerminal = true := by
    intro r hr
    rcases Table.mem_update.mp hr with ⟨r₀, -, -, rfl⟩ | ⟨hr, hne⟩
    · exact OrphanTables.completedTask_terminal r₀ c
    · cases hstatus : r.task.status.isTerminal with
      | true => rfl
      | false =>
        rw [h.gate r hr hstatus] at hactive
        exact absurd (Option.some.inj hactive) hne
  have hupdate := h.updateTask (t := row.id) (f := fun row => OrphanTables.completedTask row c)
    (fun _ => OrphanTables.completedTask_id ..) fun r hr hid hterminal => by
      rw [h.keyed r hr row hrow hid, hopen] at hterminal
      cases hterminal
  exact ⟨⟨⟨hupdate.1.fresh, hupdate.1.keyed, fun r hr hstatus => by
    simp [hended r hr] at hstatus⟩, hupdate.2⟩, hended⟩

/-- `_finish` ends an open task, and hands the gate over if it is tried again. -/
theorem GateInv.complete (hrow : row ∈ db.tasks) (hopen : row.task.status.isTerminal = false)
    (hc : db.complete row c = .ok db') : GateInv db' ∧ Ended db db' := by
  obtain ⟨⟨hinv, hends⟩, hended⟩ := h.finalize hrow hopen c
  rw [OrphanTables.complete] at hc
  split at hc
  · rw [OrphanTables.replace] at hc
    split at hc
    · cases hc
    · cases hc
      exact ⟨.newTask hinv.fresh hinv.keyed hended rfl, hends.trans (.newTask _ _)⟩
  · cases hc
    exact ⟨hinv, hends⟩

/-- `_finish`. -/
theorem GateInv.finish {t : Nat} (hc : db.finish controller t c = .ok db') :
    GateInv db' ∧ Ended db db' := by
  rw [OrphanTables.finish] at hc
  cases hfind : db.task t with
  | none => simp [hfind] at hc
  | some row =>
    obtain ⟨hrow, rfl⟩ := OrphanTables.mem_of_task hfind
    simp only [hfind] at hc
    split at hc
    · cases hc
      exact ⟨h, .refl _⟩
    · rename_i hopen
      have hopen : row.task.status.isTerminal = false := Bool.eq_false_iff.mpr hopen
      -- The row of the task is the only one with its key, so it is open.
      have hopens : ∀ r ∈ db.tasks, r.id = row.id → r.task.status.isTerminal = false :=
        fun r hr hid => h.keyed r hr row hrow hid ▸ hopen
      split at hc
      · cases hc
        exact h.wait _ _ _ fun _ => hopens
      · split at hc
        · cases hc
          obtain ⟨hclosed, hends⟩ := h.updateTask (t := row.id)
            (f := fun row => row.closeSteps (c.amend row))
            (fun _ => ReconcileTask.closeSteps_id ..)
            fun r _ _ _ => congrArg _ (r.closeSteps_task ..)
          obtain ⟨hwait, hends'⟩ := hclosed.wait controller row.id
            "Agent execution requires confirmation before retry." fun _ r hr hid => by
              rcases Table.mem_update.mp hr with ⟨r₀, hr₀, hid₀, rfl⟩ | ⟨hr, -⟩
              · rw [ReconcileTask.closeSteps_task]
                exact hopens r₀ hr₀ hid₀
              · exact hopens r hr hid
          exact ⟨hwait, hends.trans hends'⟩
        · exact h.complete hrow hopen hc

def OrphanCall.waitsFor : OrphanCall → Option Nat
  | .wait t _ => some t
  | _ => none

/-- An Agent's advance waits only while its task is open. -/
def WaitsOpen (controller : Bool) (db : OrphanTables) (r : OrphanCall) : Prop :=
  controller = false → ∀ t ∈ r.waitsFor, ∀ row ∈ db.tasks, row.id = t →
    row.task.status.isTerminal = false

theorem GateInv.effect {r : OrphanCall} (hr : WaitsOpen controller db r)
    (heffect : db.Effect controller r db') : GateInv db' ∧ Ended db db' := by
  cases heffect with
  | none => exact ⟨h, .refl _⟩
  | @startTask t row task hrow hstart =>
    obtain ⟨hmem, rfl⟩ := OrphanTables.mem_of_task hrow
    obtain ⟨hpending, -⟩ := TaskRow.start_ok hstart
    refine h.updateTask (fun _ => rfl) fun r hr hid hended => ?_
    rw [h.keyed r hr row hmem hid, hpending] at hended
    cases hended
  | step =>
    exact h.updateTask (fun _ => ReconcileTask.step_id ..)
      fun r _ _ _ => congrArg _ (r.step_task ..)
  | remote => exact h.unchanged rfl rfl
  | saveAbsent => exact h.record (db.saveStatus _ _) rfl rfl _ _ _
  | register => exact h.record (db.saveOutcome _ _ _) rfl rfl _ _ _
  | saveManaged => exact h.record (db.saveStatus _ _) rfl rfl _ _ _
  | @rediscover t item at' =>
    have htasks : (db.rediscover item at').tasks = db.tasks ∧
        (db.rediscover item at').activeTask = db.activeTask := by
      rw [OrphanTables.rediscover]
      split <;> exact ⟨rfl, rfl⟩
    exact h.record _ htasks.1 htasks.2 _ _ _
  | record => exact h.record _ rfl rfl _ _ _
  | deferred => exact h.record _ rfl rfl _ _ _
  | marked => exact h.unchanged rfl rfl
  | @intent t snapshotId =>
    have hsaved : GateInv (db.saveStatus snapshotId .deleting) := h.of_tasks rfl rfl
    obtain ⟨hinv, hends⟩ := hsaved.updateTask (t := t)
      (f := fun row => { row with executionToken := some db.attempts.length })
      (fun _ => rfl) fun _ _ _ _ => rfl
    exact ⟨hinv.of_tasks rfl rfl, hends⟩
  | spawn => exact h.unchanged rfl rfl
  | closeLease => exact h.unchanged rfl rfl
  | finishAttempt => exact h.unchanged rfl rfl
  | recover =>
    exact h.record (OrphanTables.updateAttempt (db.updateCandidate _ _) _ _) rfl rfl _ _ _
  | saveOutcome => exact h.record (db.saveOutcome _ _ _) rfl rfl _ _ _
  | saveFailure => exact h.record (db.saveFailure _) rfl rfl _ _ _
  | @wait t => exact h.wait _ _ _ fun hagent => hr hagent t rfl
  | finish hfinish => exact h.finish hfinish

theorem GateInv.environment (e : OrphanEnv) :
    GateInv (orphanEnvironment db e) ∧ Ended db (orphanEnvironment db e) := by
  cases e with
  | admitTask dueAt =>
    rw [orphanEnvironment, OrphanTables.admitTask]
    split
    · exact ⟨h, .refl _⟩
    · rename_i hfree
      push Not at hfree
      have hopen : db.activeTask = none := by simpa using hfree.1
      exact ⟨.newTask h.fresh h.keyed (fun _ => h.terminal_of_open hopen) rfl, .newTask _ _⟩
  | admitBackup uuid record =>
    rw [orphanEnvironment, OrphanTables.admitBackup]
    split
    · exact ⟨h, .refl _⟩
    · exact h.unchanged rfl rfl
  | _ => exact h.unchanged rfl rfl

end

/-! ## Runs -/

/-- What the advances of a target keep. -/
def gateTerms (controller : Bool) : Terms OrphanTables OrphanCall where
  keeps := GateInv
  moves := Ended
  allows := WaitsOpen controller
  guards := fun _ _ => True
  refl := .refl
  trans := .trans

instance (controller : Bool) (db : OrphanTables) (r : OrphanCall) :
    Decidable ((gateTerms controller).allows db r) :=
  inferInstanceAs (Decidable (_ → _))

theorem gateTerms_kept (controller : Bool) :
    (gateTerms controller).Kept (orphanServer controller) orphanEnvironment fun _ _ => True where
  call := fun hkeeps hallows _ _ =>
    hkeeps.effect hallows (OrphanTables.effect_respond controller _ _ _)
  env := fun hkeeps _ => hkeeps.environment _

/-- The events of a run in which no Agent's advance waits for a task that has ended. -/
abbrev WaitsInTime (controller : Bool) : OrphanState → OrphanEventOf → Prop :=
  (gateTerms controller).Steady fun _ _ => True

/-- A task that has ended stays as it is, and the gate belongs to the one that has not. -/
theorem gate_kept {controller : Bool} {st st' : OrphanState} (hdb : db.Fresh)
    (h : (orphanRuns controller db).ReachableUnder (WaitsInTime controller) st)
    (hpath : (orphanRuns controller db).Path (WaitsInTime controller) st st') :
    (∀ row ∈ st.state.tasks, row.task.status.isTerminal = true → ∀ row' ∈ st'.state.tasks,
      row'.id = row.id → row'.task.status = row.task.status) ∧
    ∀ row ∈ st'.state.tasks, row.task.status.isTerminal = false →
      st'.state.activeTask = some row.id := by
  have hsafe : ∀ job t, (gateTerms controller).Safe (orphanServer controller)
      (fun _ _ => True) (runOrphanReconciliation controller job) (fun _ _ => True) t :=
    fun _ _ => Terms.safe_of_guards (fun _ _ => trivial) _
  have hsound := Terms.sound_of_reachable (gateTerms_kept controller) hsafe hdb.gateInv h
  have hsound' := Terms.sound_of_path (gateTerms_kept controller) hsafe hsound hpath
  refine ⟨fun row hrow hended row' hrow' hid => ?_, hsound'.1.keeps.gate⟩
  obtain ⟨row₁, hrow₁, hid₁, hstatus₁⟩ := hsound'.2 row hrow
  rw [hsound'.1.keeps.keyed row' hrow' row₁ hrow₁ (hid.trans hid₁.symm), hstatus₁ hended]

/-- A reconciliation whose first advance is about to wait for the inventory of the Agent
when a second one gets it and finishes the task. -/
def overtaken : List OrphanEventOf :=
  [.env (.admitTask none), .start 0] ++ nextCalls 0 10 ++
    [.env (.agent 0 .success true { inventoryComplete := true }), .start 0] ++ nextCalls 1 15

def completed : OrphanState :=
  ((orphanRuns false {}).exec (orphanStart {}) overtaken).get (by decide +kernel)

/-- The target after the next reconciliation is admitted. -/
def nextCycle : OrphanState :=
  ((orphanRuns false {}).step completed (.env (.admitTask none))).get (by decide +kernel)

/-- The first task has ended for good, and the second one holds the gate. -/
theorem gate_kept_nextCycle :
    (∀ row ∈ completed.state.tasks, row.task.status.isTerminal = true →
      ∀ row' ∈ nextCycle.state.tasks, row'.id = row.id → row'.task.status = row.task.status) ∧
    ∀ row ∈ nextCycle.state.tasks, row.task.status.isTerminal = false →
      nextCycle.state.activeTask = some row.id := by
  have hsteady : (orphanRuns false {}).Every (fun s a _ => WaitsInTime false s a)
      (orphanStart {}) overtaken := by decide +kernel
  exact gate_kept ⟨rfl, rfl, rfl, rfl, rfl⟩
    (.of_exec (.start rfl) hsteady (Option.some_get _).symm)
    (.single (a := .env (.admitTask none)) trivial (Option.some_get _).symm)

/-- The target after the first advance waits. -/
def reopened : OrphanState :=
  ((orphanRuns false {}).step completed (.call 0 {})).get (by decide +kernel)

/-- A task that has succeeded waits again, with the gate open. -/
theorem not_gate_kept_reopened :
    (orphanRuns false {}).Reachable completed ∧
      (orphanRuns false {}).step completed (.call 0 {}) = some reopened ∧
      (∃ row ∈ completed.state.tasks, row.id = 0 ∧ row.task.status = .success) ∧
      (∃ row ∈ reopened.state.tasks, row.id = 0 ∧ row.task.status = .waiting) ∧
      reopened.state.activeTask = none := by
  refine ⟨.of_exec rfl (Option.some_get _).symm, (Option.some_get _).symm, ?_, ?_, ?_⟩
  · decide +kernel
  · decide +kernel
  · decide +kernel

end HyperFileLens.Storage
