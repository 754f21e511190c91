import Mathlib.Data.List.Basic

/-!
# Platform tasks

The rows of the table of tasks, with the transitions of `task/services/interface.py`.

A row keeps what its readers look at: its status, how often it was retried, what it
returned and its error. The type of the returned payload is a parameter.
-/

namespace HyperFileLens.Tasks

inductive TaskStatus where
  | pending
  | waiting
  | blocked
  | running
  | success
  | failed
  | cancelled
  | timeout
deriving DecidableEq, Repr

/-- `TERMINAL_STATUSES`. -/
def TaskStatus.isTerminal : TaskStatus → Bool
  | .success | .failed | .cancelled | .timeout => true
  | _ => false

structure TaskRow (ρ : Type) where
  status : TaskStatus := .pending
  retryCount : Nat := 0
  resultPayload : Option ρ := none
  errorCode : String := ""
  errorMessage : String := ""
deriving DecidableEq

variable {ρ : Type}

/-- `start_task`. -/
def TaskRow.start (task : TaskRow ρ) : Except String (TaskRow ρ) :=
  if task.status = .pending then .ok { task with status := .running }
  else .error "Only pending tasks can be started."

/-- `complete_task`, with a terminal status. -/
def TaskRow.complete (task : TaskRow ρ) (status : TaskStatus) (result : Option ρ)
    (errorCode errorMessage : String) : TaskRow ρ :=
  if task.status.isTerminal then task
  else { task with
    status := status, resultPayload := result, errorCode := errorCode,
    errorMessage := errorMessage }

/-- `retry_task`. -/
def TaskRow.retry (task : TaskRow ρ) : Except String (TaskRow ρ) :=
  if task.status = .failed ∨ task.status = .timeout ∨ task.status = .cancelled then
    .ok { status := .pending, retryCount := task.retryCount + 1 }
  else .error "Only failed, timeout, or cancelled tasks can be retried."

/-! ## Statuses after a transition -/

theorem TaskRow.start_ok {task task' : TaskRow ρ} (h : task.start = .ok task') :
    task.status = .pending ∧ task' = { task with status := .running } := by
  rw [TaskRow.start] at h
  split at h
  · rename_i hpending
    exact ⟨hpending, (Except.ok.inj h).symm⟩
  · cases h

theorem TaskRow.isTerminal_complete (task : TaskRow ρ) {status : TaskStatus} (result : Option ρ)
    (errorCode errorMessage : String) (h : status.isTerminal = true) :
    (task.complete status result errorCode errorMessage).status.isTerminal = true := by
  rw [TaskRow.complete]
  split
  · assumption
  · exact h

theorem TaskRow.complete_of_isTerminal {task : TaskRow ρ} (status : TaskStatus) (result : Option ρ)
    (errorCode errorMessage : String) (h : task.status.isTerminal = true) :
    task.complete status result errorCode errorMessage = task := by
  rw [TaskRow.complete, if_pos h]

end HyperFileLens.Tasks
