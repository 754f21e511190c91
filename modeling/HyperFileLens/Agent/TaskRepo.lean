import Mathlib.Data.List.AList
import HyperFileLens.Library.Json

/-!
# The local task table of the Agent

The rows of the SQLite table `tasks` and the statements of `TaskRepo` that the
message handler and the repair pass run on it. The connection pool has one
connection, so each statement and each transaction is one step.

*Writes.*  Every `UPDATE … WHERE id=? AND …` is `updateWhere`: it changes at
most the row of one id and reports whether it did. `lookup_updateWhere` is the
only fact about it that later modules use.

*Versions.*  A row carries a history variable that the code does not have.
`Task.version` counts the writes to the status, the result or the error of the
row. It is what `Task.SameContent` compares two moments of one row by.

*Time.*  `updated_at` is text and `ORDER BY updated_at` compares text, so a row
keeps the text.
-/

namespace HyperFileLens.Agent

/-- Task ids are the UUID texts of the control plane. -/
abbrev TaskId := String

/-- The persisted execution state of a task. -/
inductive TaskStatus where
  | pending
  | running
  | succeeded
  | failed
  | cancelled
deriving DecidableEq, Repr

/-- The text stored in the `status` column. -/
def TaskStatus.text : TaskStatus → String
  | .pending => "pending"
  | .running => "running"
  | .succeeded => "succeeded"
  | .failed => "failed"
  | .cancelled => "cancelled"

/-- `status IN ('pending', 'running')`. -/
def TaskStatus.isActive : TaskStatus → Bool
  | .pending | .running => true
  | _ => false

/-- `status IN ('failed', 'cancelled', 'succeeded')`. -/
def isTerminal : TaskStatus → Bool
  | .succeeded | .failed | .cancelled => true
  | _ => false

theorem isTerminal_eq_not_isActive (st : TaskStatus) : isTerminal st = !st.isActive := by
  cases st <;> rfl

/-- The status text of a `task.result` frame. -/
inductive WireStatus where
  | success
  | running
  | failed
deriving DecidableEq, Repr

/-- `WireStatus` of the source: cancelled tasks are reported as failed. -/
def wireStatus : TaskStatus → WireStatus
  | .succeeded => .success
  | .running => .running
  | .cancelled => .failed
  | _ => .failed

/-- A row of the table `tasks`. -/
structure Task where
  jobId : String
  kind : String
  /-- Execution state. -/
  status : TaskStatus
  result : Dict
  error : String
  updatedAt : String
  resultReported : Bool
  /-- History variable: writes to status, result or error so far. -/
  version : Nat

abbrev Tasks := AList fun _ : TaskId => Task

/-- Two moments of a row agree on what a result frame carries. -/
structure Task.SameContent (t t' : Task) : Prop where
  version : t'.version = t.version
  status : t'.status = t.status
  result : t'.result = t.result
  error : t'.error = t.error

theorem Task.SameContent.refl (t : Task) : t.SameContent t := ⟨rfl, rfl, rfl, rfl⟩

/-! ## Conditional updates -/

/-- `UPDATE tasks SET … WHERE id=? AND …`, with `rows == 1`. -/
def updateWhere (tasks : Tasks) (id : TaskId) (guard : Task → Bool) (assign : Task → Task) :
    Tasks × Bool :=
  match tasks.lookup id with
  | some t => if guard t then (tasks.insert id (assign t), true) else (tasks, false)
  | none => (tasks, false)

/-- Only the row of the id changes, and only when it meets the guard. -/
theorem lookup_updateWhere (tasks : Tasks) (id : TaskId) (guard : Task → Bool)
    (assign : Task → Task) (j : TaskId) :
    (updateWhere tasks id guard assign).1.lookup j =
      if j = id then (tasks.lookup id).map (fun t => if guard t then assign t else t)
      else tasks.lookup j := by
  by_cases hj : j = id
  · subst hj
    cases hl : tasks.lookup j with
    | none => simp [updateWhere, hl]
    | some t => by_cases hg : guard t <;> simp [updateWhere, hl, hg]
  · cases hl : tasks.lookup id with
    | none => simp [updateWhere, hl, hj]
    | some t => by_cases hg : guard t <;> simp [updateWhere, hl, hg, hj]

theorem updateWhere_snd (tasks : Tasks) (id : TaskId) (guard : Task → Bool) (assign : Task → Task) :
    (updateWhere tasks id guard assign).2 = (tasks.lookup id).any guard := by
  cases hl : tasks.lookup id with
  | none => simp [updateWhere, hl]
  | some t => by_cases hg : guard t <;> simp [updateWhere, hl, hg]

variable {tasks : Tasks} {id : TaskId} {assign : Task → Task} {guard : Task → Bool}

theorem updateWhere_eq_true (h : (updateWhere tasks id guard assign).2 = true) :
    ∃ t, tasks.lookup id = some t ∧ guard t = true ∧
      (updateWhere tasks id guard assign).1.lookup id = some (assign t) := by
  rw [updateWhere_snd, Option.any_eq_true] at h
  obtain ⟨t, ht, hg⟩ := h
  refine ⟨t, ht, hg, ?_⟩
  rw [lookup_updateWhere, if_pos rfl, ht]
  simp [hg]

theorem updateWhere_eq_false (h : ¬ (updateWhere tasks id guard assign).2 = true) :
    (updateWhere tasks id guard assign).1 = tasks := by
  unfold updateWhere at h ⊢
  split
  · split
    · simp_all
    · rfl
  · rfl

/-! ## Statements of `TaskRepo` -/

/-- Assign the reported columns of a row. All writers but `UpdateProgress` and
`MarkResultReported` do this. -/
def Task.write (t : Task) (status : TaskStatus) (result : Dict) (error now : String) : Task :=
  { t with
    status := status
    result := result
    error := error
    updatedAt := now
    resultReported := false
    version := t.version + 1 }

/-- The row `AcceptCommand` inserts. -/
def acceptedTask (jobId kind now : String) : Task where
  jobId := jobId
  kind := kind
  status := .running
  result := []
  error := ""
  updatedAt := now
  resultReported := false
  version := 0

/-- `AcceptCommand`: insert the row unless the id is known, then read it back.
An id that is known for another command is an error. -/
def acceptCommand (tasks : Tasks) (id : TaskId) (jobId kind now : String) :
    Option (Tasks × Task × Bool) :=
  match tasks.lookup id with
  | some t => if t.kind ≠ kind ∨ t.jobId ≠ jobId then none else some (tasks, t, false)
  | none =>
    let t := acceptedTask jobId kind now
    some (tasks.insert id t, t, true)

theorem acceptCommand_cases {tasks tasks' : Tasks} {jobId kind now : String} {t : Task}
    {inserted : Bool} (h : acceptCommand tasks id jobId kind now = some (tasks', t, inserted)) :
    (inserted = false ∧ tasks' = tasks ∧ tasks.lookup id = some t) ∨
    (inserted = true ∧ tasks.lookup id = none ∧ t = acceptedTask jobId kind now ∧
      tasks' = tasks.insert id (acceptedTask jobId kind now)) := by
  unfold acceptCommand at h
  split at h
  next found hfound =>
    split at h
    · simp at h
    · simp only [Option.some.injEq, Prod.mk.injEq] at h
      obtain ⟨rfl, rfl, rfl⟩ := h
      exact Or.inl ⟨rfl, rfl, hfound⟩
  next hmissing =>
    simp only [Option.some.injEq, Prod.mk.injEq] at h
    obtain ⟨rfl, rfl, rfl⟩ := h
    exact Or.inr ⟨rfl, hmissing, rfl, rfl⟩

section

variable (tasks : Tasks)

/-- `UpdateRunning` keeps the error column. -/
def updateRunning (id : TaskId) (result : Dict) (now : String) : Tasks × Bool :=
  updateWhere tasks id (fun t => t.status.isActive)
    (fun t => t.write .running result t.error now)

/-- `UpdateProgress` merges the progress into a running row and leaves
`result_reported` as it is. -/
def updateProgress (id : TaskId) (progress : Json) (now : String) : Tasks × Bool :=
  updateWhere tasks id (fun t => t.status = .running)
    (fun t => { t with
      result := Dict.set t.result "last_progress" progress
      updatedAt := now
      version := t.version + 1 })

def finishIfActive (id : TaskId) (status : TaskStatus) (result : Dict)
    (error now : String) : Tasks × Bool :=
  updateWhere tasks id (fun t => t.status.isActive) (fun t => t.write status result error now)

/-- `SealCancelledExecutorResult` replaces the result of a cancelled row. -/
def sealCancelledExecutorResult (id : TaskId) (result : Dict)
    (error now : String) : Tasks × Bool :=
  updateWhere tasks id (fun t => t.status = .cancelled)
    (fun t => t.write t.status result error now)

def markCancelledIfActive (id : TaskId) (now : String) : Tasks × Bool :=
  updateWhere tasks id (fun t => t.status.isActive) (fun t => t.write .cancelled [] "canceled" now)

/-- `MarkResultReported` looks at the id alone. -/
def markResultReported (id : TaskId) (now : String) : Tasks × Bool :=
  updateWhere tasks id (fun _ => true)
    (fun t => { t with resultReported := true, updatedAt := now })

/-- The per-row `UPDATE` of `RepairInterrupted` looks at the id alone. -/
def repairRow (id : TaskId) (status : TaskStatus) (result : Dict)
    (error now : String) : Tasks × Bool :=
  updateWhere tasks id (fun _ => true) (fun t => t.write status result error now)

end

/-! ## The result outbox -/

/-- `result_reported=0 AND status IN ('failed', 'cancelled', 'succeeded')`. -/
def Task.isUnreported (t : Task) : Bool := !t.resultReported && isTerminal t.status

/-- `listUnreportedOrdered`. A limit of zero is no limit. -/
def listUnreportedOrdered (tasks : Tasks) (descending : Bool) (limit : Nat) :
    List (TaskId × Task) :=
  let rows := (tasks.entries.map fun e => (e.1, e.2)).filter fun r => r.2.isUnreported
  let sorted := rows.mergeSort fun a b =>
    if descending then b.2.updatedAt ≤ a.2.updatedAt else a.2.updatedAt ≤ b.2.updatedAt
  if limit > 0 then sorted.take limit else sorted

/-- The loop of `ListUnreported` over both query results: the first row of each
id, up to the limit. -/
def mergeUnreported (limit : Nat) (rows : List (TaskId × Task)) : List (TaskId × Task) :=
  (rows.foldl (fun out r => if out.any (fun o => o.1 = r.1) then out else out ++ [r]) []).take limit

theorem mem_listUnreportedOrdered {descending : Bool} {limit : Nat} {r : TaskId × Task}
    (h : r ∈ listUnreportedOrdered tasks descending limit) :
    tasks.lookup r.1 = some r.2 ∧ isTerminal r.2.status = true := by
  have hmem : r ∈ (tasks.entries.map fun e => ((e.1, e.2) : TaskId × Task)).filter
      fun r => r.2.isUnreported := by
    unfold listUnreportedOrdered at h
    dsimp only at h
    split at h
    · exact List.mem_mergeSort.mp (List.mem_of_mem_take h)
    · exact List.mem_mergeSort.mp h
  obtain ⟨hrow, hun⟩ := List.mem_filter.mp hmem
  obtain ⟨e, he, rfl⟩ := List.mem_map.mp hrow
  refine ⟨AList.mem_lookup_iff.mpr he, ?_⟩
  simp only [Task.isUnreported, Bool.and_eq_true] at hun
  exact hun.2

theorem mem_mergeUnreported {limit : Nat} {rows : List (TaskId × Task)} {r : TaskId × Task}
    (h : r ∈ mergeUnreported limit rows) : r ∈ rows := by
  have hfold : ∀ (rows out : List (TaskId × Task)),
      r ∈ rows.foldl (fun out r => if out.any (fun o => o.1 = r.1) then out else out ++ [r]) out →
        r ∈ out ∨ r ∈ rows := by
    intro rows
    induction rows with
    | nil => exact fun out h => Or.inl h
    | cons x rows ih =>
      intro out h
      rw [List.foldl_cons] at h
      rcases ih _ h with hout | hrows
      · split at hout
        · exact Or.inl hout
        · rcases List.mem_append.mp hout with hold | hnew
          · exact Or.inl hold
          · exact Or.inr (List.mem_cons.mpr (Or.inl (List.mem_singleton.mp hnew)))
      · exact Or.inr (List.mem_cons_of_mem _ hrows)
  rcases hfold rows [] (List.mem_of_mem_take h) with hnil | hrows
  · simp at hnil
  · exact hrows

end HyperFileLens.Agent
