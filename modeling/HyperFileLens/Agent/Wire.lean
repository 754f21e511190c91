import Mathlib.Algebra.GroupWithZero.Nat
import HyperFileLens.Agent.TaskRepo

/-!
# Result frames and their delivery window

The `task.result` frame with the bounds every sender applies, and the
in-memory reservations that keep at most `resultOutboxWindow` results in flight.

Compaction of an oversized result document is a parameter. Nothing here depends
on what it keeps, only on every sender using the same one.

`Carries` says that a frame is what a sender builds from the stored columns of a
row. A frame has no room for the difference between a cancelled and a failed
row, for an error text over `maxResultStringBytes`, or for a failed row without
an error text, which the outbox names by its status.
-/

namespace HyperFileLens.Agent

/-! ## Frames -/

/-- A `task.result` frame. -/
structure TaskResult where
  taskId : TaskId
  status : WireStatus
  result : Dict
  error : String
deriving DecidableEq

/-- The longest prefix within a number of UTF-8 bytes. -/
def takeUTF8 : Nat → List Char → List Char
  | _, [] => []
  | n, c :: cs => if c.utf8Size ≤ n then c :: takeUTF8 (n - c.utf8Size) cs else []

def truncateUTF8 (value : String) (limit : Nat) : String :=
  String.ofList (takeUTF8 limit value.toList)

def maxResultStringBytes : Nat := 8 * 1024

section Frames

-- What `boundTaskResult` makes of a result document.
variable (boundTaskResult : Dict → Dict)

def newTaskResult (taskId : TaskId) (status : WireStatus) (result : Dict) (errMsg : String) :
    TaskResult where
  taskId := taskId
  status := status
  result := boundTaskResult result
  error := truncateUTF8 errMsg maxResultStringBytes

/-- The frame `SendTaskResult` puts on the socket. -/
def sendTaskResult (taskId : TaskId) (status : WireStatus) (result : Dict) (errMsg : String) :
    TaskResult :=
  newTaskResult boundTaskResult taskId status (boundTaskResult result) errMsg

/-- The error text `FlushUnreportedResults` sends for a row. -/
def flushError (t : Task) : String :=
  if t.error = "" ∧ wireStatus t.status = .failed then t.status.text else t.error

/-- The frame `FlushUnreportedResults` sends for a row. -/
def flushFrame (taskId : TaskId) (t : Task) : TaskResult :=
  sendTaskResult boundTaskResult taskId (wireStatus t.status) t.result (flushError t)

/-- The frame a live send of the stored columns of a row builds. -/
def storedFrame (taskId : TaskId) (t : Task) : TaskResult :=
  sendTaskResult boundTaskResult taskId (wireStatus t.status) t.result t.error

/-- The frame holds exactly the status, the result and the error of the row, in
the form the senders give them. -/
structure Carries (f : TaskResult) (t : Task) : Prop where
  status : f.status = wireStatus t.status
  result : f.result = boundTaskResult (boundTaskResult t.result)
  error : f.error = truncateUTF8 t.error maxResultStringBytes ∨
    f.error = truncateUTF8 (flushError t) maxResultStringBytes

theorem carries_flushFrame (taskId : TaskId) (t : Task) :
    Carries boundTaskResult (flushFrame boundTaskResult taskId t) t :=
  ⟨rfl, rfl, Or.inr rfl⟩

theorem carries_storedFrame (taskId : TaskId) (t : Task) :
    Carries boundTaskResult (storedFrame boundTaskResult taskId t) t :=
  ⟨rfl, rfl, Or.inl rfl⟩

variable {boundTaskResult}

theorem Carries.of_sameContent {f : TaskResult} {t t' : Task} (h : Carries boundTaskResult f t)
    (hs : t.SameContent t') : Carries boundTaskResult f t' := by
  refine ⟨?_, ?_, ?_⟩
  · rw [h.status, hs.status]
  · rw [h.result, hs.result]
  · rw [flushError, hs.error, hs.status]
    exact h.error

end Frames

/-! ## Reservations -/

def resultOutboxWindow : Nat := 32

/-- `resultOutboxRetryBase` in nanoseconds. -/
def resultOutboxRetryBase : Nat := 30 * 1000000000

/-- `resultOutboxRetryMax` in nanoseconds. -/
def resultOutboxRetryMax : Nat := 5 * 60 * 1000000000

/-- The loop of `resultRetryDelay`: double the delay for the remaining attempts,
up to the maximum. -/
def doubleDelay : Nat → Nat → Nat
  | 0, delay => delay
  | n + 1, delay =>
    if delay < resultOutboxRetryMax then
      if resultOutboxRetryMax ≤ delay * 2 then resultOutboxRetryMax
      else doubleDelay n (delay * 2)
    else delay

def resultRetryDelay (attempt : Nat) : Nat :=
  doubleDelay (max attempt 1 - 1) resultOutboxRetryBase

structure ResultDelivery where
  attempts : Nat := 0
  deadline : Nat := 0

/-- `resultInFlight`. -/
abbrev InFlight := AList fun _ : TaskId => ResultDelivery

/-- `reserveResultDelivery` in acknowledgement mode: refuse while an earlier
frame of the task may still be acknowledged, or while the window is full. -/
def reserveResultDelivery (inFlight : InFlight) (taskId : TaskId) (now : Nat) :
    InFlight × Bool :=
  if taskId = "" then (inFlight, true)
  else if (inFlight.lookup taskId).any (fun d => now < d.deadline) then (inFlight, false)
  else if resultOutboxWindow ≤ (inFlight.entries.filter fun e => now < e.2.deadline).length then
    (inFlight, false)
  else
    let attempts := ((inFlight.lookup taskId).getD {}).attempts + 1
    (inFlight.insert taskId
      { attempts := attempts, deadline := now + resultRetryDelay attempts }, true)

def releaseResultDelivery (inFlight : InFlight) (taskId : TaskId) : InFlight :=
  if taskId = "" then inFlight else inFlight.erase taskId

end HyperFileLens.Agent
