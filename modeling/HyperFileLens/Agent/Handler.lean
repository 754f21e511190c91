import Mathlib.Data.Finset.Basic
import HyperFileLens.Agent.Wire
import HyperFileLens.Library.Transition

/-!
# The message handler of the Agent as a transition system

One process: the read loop (`Handler.Handle`), the executor goroutines
(`runTask`), the passes of the result outbox (`FlushUnreportedResults`), the
tracker, and the repair pass (`TaskFixer.RepairRunning`). A label is one
statement on the task table, one critical section of a mutex, or one write on
the socket. Steps of different goroutines interleave freely.

*Labels* carry what the environment decides: times, engine results, whether a
statement or a socket write fails, and what the repair pass finds on disk.

*Passes.*  A flush pass and a repair pass work on rows they read earlier. Any
number of flush passes run at once. Repair passes are serialized by
`lifecycleRepairMu`.

*History variables* (no counterpart in the code): the `version` of a row and of
an outgoing frame, the frames `sent` and `acked` so far, and in a repair pass
the executors that registered (`arrivals`) and the rows that turned terminal
(`closed`) while the pass was under way.

The system is the one of a session that negotiated acknowledged delivery.
-/

namespace HyperFileLens.Agent

/-! ## Commands -/

/-- A `task.command` frame. -/
structure TaskCommand where
  taskId : TaskId
  jobId : String
  kind : String
  payload : Dict
  path : String

/-- `strings.ToLower(strings.TrimSpace(kind))`. -/
def normalizedKind (kind : String) : String :=
  Text.lower (String.ofList (Text.trimSpace kind.toList))

/-- `NormalizeKind(kind) == "backup.snapshot.create"`. -/
def isSnapshotCreateKind (kind : String) : Bool :=
  normalizedKind kind ∈ ["backup.snapshot.create", "prepared.snapshot.create"]

/-- `NormalizeKind(kind) == "path.size"`. -/
def isPathSizeKind (kind : String) : Bool :=
  normalizedKind kind ∈ ["path.size", "path.estimate", "source.path.size", "fs.du"]

/-- `NormalizeKind(kind) == "restore"`. -/
def isRestoreKind (kind : String) : Bool :=
  normalizedKind kind ∈ ["restore", "restore.run", "kopia.restore"]

def isResumableTaskKind (kind : String) : Bool :=
  normalizedKind kind ∈ ["backup.run", "backup", "backup.snapshot.create", "restore.run"]

def payloadString (value : Json) : String :=
  String.ofList (Text.trimSpace value.text.toList)

def TaskCommand.isManagedWorkspaceRestoreCommand (cmd : TaskCommand) : Bool :=
  isRestoreKind cmd.kind && payloadString (Dict.get cmd.payload "workspace_kind") = "managed_restore"
    && payloadString (Dict.get cmd.payload "workspace_uid") ≠ ""
    && payloadString (Dict.get cmd.payload "managed_workspace_path") ≠ "" && cmd.path ≠ ""

/-! ## Executor goroutines -/

/-- What `Engine.Run` returns. Only detached lifecycle work returns `running`,
and it returns no error text with it. -/
structure EngineResult where
  status : WireStatus
  result : Dict
  error : String
  running_error : status = .running → error = ""

/-- A frame on its way, with the version of the row its content is that of. A
frame that was not built from a row has no version. -/
structure Outgoing where
  frame : TaskResult
  version : Option Nat
deriving DecidableEq

/-- Where `runTask` stands. -/
inductive Stage where
  /-- The goroutine is started. -/
  | accepted
  /-- It is in the tracker. -/
  | registered
  /-- It has looked for an earlier cancellation, and waits for its slot. -/
  | queued
  /-- It is inside `Engine.Run`. -/
  | executing
  /-- The outcome is known and not stored. -/
  | finished (out : EngineResult)
  /-- `FinishIfActive` lost a race, and `SealCancelledExecutorResult` is next. -/
  | unstored (out : EngineResult)
  /-- The stored row is read next. -/
  | reading
  /-- `sendLiveTaskResult` is entered. -/
  | sending (o : Outgoing)
  /-- The delivery is reserved and the socket write is next. -/
  | reserved (o : Outgoing)
  /-- Only the deferred calls are left. -/
  | returning

/-- `runTask` before its outcome is known. -/
def Stage.isRunning : Stage → Bool
  | .accepted | .registered | .queued | .executing => true
  | _ => false

/-- An executor goroutine. `canceled` is set when its context is cancelled, to
the version of the row that the cancellation wrote. -/
structure Execution where
  cmd : TaskCommand
  stage : Stage
  canceled : Option Nat

/-- The evidence `runTask` adds to the result of a managed workspace restore. -/
def withExecutorEvidence (result : Dict) (now : String) : Dict :=
  ((Dict.set result "executor_finished" (.bool true)).set "completion_source"
    (.str "agent_executor")).set "executor_finished_at" (.str now)

/-- The outcome `runTask` works with: evidence, bounds and cancellation. -/
def Execution.outcome (boundTaskResult : Dict → Dict) (e : Execution) (out : EngineResult)
    (now : String) : EngineResult :=
  let result := boundTaskResult <|
    if e.cmd.isManagedWorkspaceRestoreCommand then withExecutorEvidence out.result now
    else out.result
  if e.canceled.isSome ∧ out.status ≠ .success then
    { status := .failed, result := result, error := "canceled", running_error := nofun }
  else
    { status := out.status, result := result, error := out.error,
      running_error := out.running_error }

/-- The outcome of a `path.size` command that finds no free slot. -/
def pathSizeBusy : EngineResult where
  status := .failed
  result := [("error_code", .str "PATH_SIZE_BUSY")]
  error := "path size capacity is busy"
  running_error := nofun

def EngineResult.localStatus (out : EngineResult) : TaskStatus :=
  if out.error = "canceled" then .cancelled
  else if out.status = .success then .succeeded
  else .failed

theorem EngineResult.isTerminal_localStatus (out : EngineResult) :
    isTerminal out.localStatus = true := by
  unfold EngineResult.localStatus
  split
  · rfl
  · split <;> rfl

/-! ## Passes over stored rows -/

/-- A live send of a stored result, answering a repeated command. -/
structure LiveSend where
  out : Outgoing
  reserved : Bool

/-- A pass of `FlushUnreportedResults`. -/
inductive FlushPass where
  /-- The recent rows are read and the oldest rows are next. -/
  | listing (recent : List (TaskId × Task))
  /-- Rows left to send. -/
  | sending (pending : List (TaskId × Task))
  /-- A delivery is reserved and its socket write is next. -/
  | reserved (o : Outgoing) (pending : List (TaskId × Task))

/-- A pass of `RepairRunning`. -/
structure RepairPass where
  /-- The tracker snapshot. -/
  activeTaskIds : Finset TaskId
  /-- Rows left to look at, once selected. -/
  selected : Option (List (TaskId × Task))
  /-- History: executors registered since the snapshot, as long as they stay. -/
  arrivals : Finset TaskId
  /-- History: rows that turned terminal since the selection. -/
  closed : Finset TaskId

/-- What the repair pass finds on disk about a row. -/
structure LifecycleEvidence where
  /-- `InterruptedLifecycleStillRunning`. -/
  stillRunning : Bool
  /-- `PendingUpgradeFailed`. -/
  upgradeFailed : Bool
  /-- `ReadUpgradeSpaceFailure`: error text and result. -/
  spaceFailure : Option (String × Dict)
  /-- `InterruptedLifecycleSucceeded`: the repaired result. -/
  succeeded : Option Dict

/-- `normalizeLifecycleKind(kind)` is the last dotted part of the kind when that
names an upgrade or an uninstall. -/
def isLifecycleRepairKind (kind : String) : Bool :=
  match ((normalizedKind kind).toList.splitOn '.').getLast? with
  | some last => last = "upgrade".toList ∨ last = "uninstall".toList
  | none => false

/-- `strings.Contains(strings.ToLower(kind), "upgrade")`. -/
def mentionsUpgrade (kind : String) : Bool :=
  "upgrade".toList <:+: (Text.lower kind).toList

def repairError : String := "agent restarted before task completed"

/-- What the loop of `RepairInterrupted` writes to a row, if anything. -/
def repairOutcome (kind : String) (ev : LifecycleEvidence) :
    Option (TaskStatus × Dict × String) :=
  if ev.stillRunning then none
  else
    match if ev.upgradeFailed && mentionsUpgrade kind then ev.spaceFailure else none with
    | some (errMsg, result) => some (.failed, Dict.set result "mode" (.str "local_detached"), errMsg)
    | none =>
      match ev.succeeded with
      | some result => some (.succeeded, result, "")
      | none =>
        if isLifecycleRepairKind kind then
          if ev.upgradeFailed && mentionsUpgrade kind then
            some (.failed, [("mode", .str "local_detached"), ("phase", .str "upgrade_failed")],
              "detached upgrade failed")
          else none
        else some (.failed, [], repairError)

theorem repairOutcome_status {kind : String} {ev : LifecycleEvidence} {st : TaskStatus}
    {result : Dict} {errMsg : String} (h : repairOutcome kind ev = some (st, result, errMsg)) :
    st = .failed ∨ st = .succeeded := by
  unfold repairOutcome at h
  grind

/-! ## States -/

/-- The Agent process and its task table. -/
structure State where
  tasks : Tasks
  inFlight : InFlight
  /-- The ids in the tracker. -/
  active : Finset TaskId
  executions : TaskId → Option Execution
  cancels : List (TaskId × Nat)
  replays : List LiveSend
  flushes : List FlushPass
  repair : Option RepairPass
  /-- History: frames written to the socket. -/
  sent : List Outgoing
  /-- History: frames whose acknowledgement was handled. -/
  acked : List Outgoing

/-- An Agent with an empty task table. -/
def State.initial : State where
  tasks := ∅
  inFlight := ∅
  active := ∅
  executions := fun _ => none
  cancels := []
  replays := []
  flushes := []
  repair := none
  sent := []
  acked := []

/-- The frame of a task that the executor never ran. -/
def canceledResult (boundTaskResult : Dict → Dict) (id : TaskId) : TaskResult :=
  sendTaskResult boundTaskResult id .failed [] "canceled"

/-- The frame that refuses a command during connection maintenance. -/
def maintenanceResult (boundTaskResult : Dict → Dict) (id : TaskId) : TaskResult :=
  sendTaskResult boundTaskResult id .failed []
    "Node connection maintenance is in progress; retry after it completes."

/-- The clock of a step: nanoseconds, and the text stored for them. -/
structure Instant where
  nanos : Nat
  text : String

inductive Label where
  /-- Handle `task.command`. `maintenance` is what the two checks for connection
  maintenance find. -/
  | command (cmd : TaskCommand) (maintenance dbErr sendErr : Bool) (now : Instant)
  | cancel (id : TaskId) (dbErr : Bool) (now : Instant)
  | trackerCancel (i : Nat)
  | register (id : TaskId)
  /-- Look for a cancellation stored before registration. -/
  | precheck (id : TaskId) (dbErr : Bool)
  /-- Enter `Engine.Run`. -/
  | start (id : TaskId)
  /-- Give up waiting for a snapshot slot. -/
  | waitCanceled (id : TaskId) (dbErr : Bool) (now : Instant)
  | pathSizeBusy (id : TaskId)
  | progress (id : TaskId) (progress : Json) (dbErr : Bool) (now : Instant)
  | engineReturns (id : TaskId) (out : EngineResult) (now : Instant)
  /-- `UpdateRunning`. -/
  | persistRunning (id : TaskId) (dbErr : Bool) (now : Instant)
  | finish (id : TaskId) (dbErr : Bool) (now : Instant)
  /-- `SealCancelledExecutorResult`. -/
  | sealCancelled (id : TaskId) (dbErr : Bool) (now : Instant)
  | readBack (id : TaskId) (dbErr : Bool)
  | reserve (id : TaskId) (now : Instant)
  /-- The socket write of an executor. -/
  | send (id : TaskId) (sendErr : Bool)
  | unregister (id : TaskId)
  | replayReserve (i : Nat) (now : Instant)
  | replaySend (i : Nat) (sendErr : Bool)
  | flushRecent
  | flushOldest (i : Nat)
  | flushReserve (i : Nat) (now : Instant)
  /-- The socket write for the next row. -/
  | flushSend (i : Nat) (sendErr : Bool)
  | flushEnd (i : Nat)
  /-- Handle `task.result.ack` for a frame that was sent. -/
  | ack (o : Outgoing) (dbErr : Bool) (now : Instant)
  /-- `SetTaskResultAckEnabled(true)` on a new session. -/
  | reconnect
  | repairSnapshot
  | repairSelect
  | repairNext (ev : LifecycleEvidence) (dbErr : Bool) (now : Instant)
  | repairEnd
  | restart

/-! ## Steps -/

section Steps

variable (boundTaskResult : Dict → Dict)

def State.setExecution (s : State) (id : TaskId) (e : Option Execution) : State :=
  { s with executions := Function.update s.executions id e }

def State.toStage (s : State) (id : TaskId) (e : Execution) (stage : Stage) : State :=
  s.setExecution id (some { e with stage := stage })

/-- The version of a row, zero for a missing row. -/
def versionOf (tasks : Tasks) (id : TaskId) : Nat := ((tasks.lookup id).map Task.version).getD 0

section

variable (s : State)

/-- A row of the table turned terminal. -/
def State.noteClosed (id : TaskId) : State :=
  { s with repair := s.repair.map fun p => { p with closed := insert id p.closed } }

def State.deactivate (id : TaskId) : State :=
  { s with
    active := s.active.erase id
    repair := s.repair.map fun p => { p with arrivals := p.arrivals.erase id } }

def State.command (cmd : TaskCommand) (maintenance dbErr sendErr : Bool)
    (now : Instant) : State :=
  if cmd.taskId = "" then s
  else if maintenance then
    if sendErr then s
    else { s with sent := ⟨maintenanceResult boundTaskResult cmd.taskId, none⟩ :: s.sent }
  else if dbErr then s
  else
    match acceptCommand s.tasks cmd.taskId cmd.jobId cmd.kind now.text with
    | none => s
    | some (tasks, persisted, inserted) =>
      if inserted then
        ({ s with tasks := tasks } : State).setExecution cmd.taskId
          (some { cmd := cmd, stage := .accepted, canceled := none })
      else if isTerminal persisted.status then
        let o := ⟨storedFrame boundTaskResult cmd.taskId persisted, some persisted.version⟩
        { s with replays := { out := o, reserved := false } :: s.replays }
      else s

def State.cancel (id : TaskId) (dbErr : Bool) (now : Instant) : State :=
  if id = "" ∨ dbErr then s
  else
    let (tasks, changed) := markCancelledIfActive s.tasks id now.text
    if changed then
      ({ s with tasks := tasks, cancels := (id, versionOf tasks id) :: s.cancels } :
        State).noteClosed id
    else s

/-- `Tracker.Cancel` reaches the executor only while it is in the tracker. -/
def State.trackerCancel (i : Nat) : Option State :=
  match s.cancels[i]? with
  | none => none
  | some (id, version) =>
    let s' := { s with cancels := s.cancels.eraseIdx i }
    match s.executions id with
    | some e =>
      if id ∈ s.active then
        some ((s'.setExecution id (some { e with canceled := some version })).deactivate id)
      else some s'
    | none => some s'

def State.register (id : TaskId) : Option State :=
  match s.executions id with
  | some e =>
    match e.stage with
    | .accepted =>
      let s' : State := { s with
        active := insert id s.active
        repair := s.repair.map fun p => { p with arrivals := insert id p.arrivals } }
      some (s'.toStage id e .registered)
    | _ => none
  | none => none

/-- The look at the stored row before execution. -/
def State.precheck (id : TaskId) (dbErr : Bool) : Option State :=
  match s.executions id with
  | some e =>
    match e.stage with
    | .registered =>
      match s.tasks.lookup id with
      | some t =>
        if !dbErr && t.status = .cancelled then
          some (s.setExecution id
            (some { e with stage := .queued, canceled := some t.version }))
        else some (s.toStage id e .queued)
      | none => some (s.toStage id e .queued)
    | _ => none
  | none => none

/-- Enter `Engine.Run`. -/
def State.start (id : TaskId) : Option State :=
  match s.executions id with
  | some e =>
    match e.stage with
    | .queued => some (s.toStage id e .executing)
    | _ => none
  | none => none

/-- The wait for a snapshot slot ends with the context. The frame says what
the cancellation stored. -/
def State.waitCanceled (id : TaskId) (dbErr : Bool) (now : Instant) : Option State :=
  match s.executions id with
  | some e =>
    match e.stage, e.canceled with
    | .queued, some version =>
      if isSnapshotCreateKind e.cmd.kind then
        let (tasks, stored) :=
          if dbErr then (s.tasks, false)
          else finishIfActive s.tasks id .cancelled [] "canceled" now.text
        let s' := { s with tasks := tasks }
        let s'' := s'.toStage id e (.sending ⟨canceledResult boundTaskResult id, some version⟩)
        some (if stored then s''.noteClosed id else s'')
      else none
    | _, _ => none
  | none => none

end

/-- `path.size` finds no slot. -/
def State.pathSizeBusy (s : State) (id : TaskId) : Option State :=
  match s.executions id with
  | some e =>
    match e.stage with
    | .queued =>
      if isPathSizeKind e.cmd.kind then
        some (s.toStage id e (.finished HyperFileLens.Agent.pathSizeBusy))
      else none
    | _ => none
  | none => none

/-- `persistLatestProgress`. -/
def State.progress (s : State) (id : TaskId) (progress : Json) (dbErr : Bool) (now : Instant) :
    Option State :=
  match s.executions id with
  | some e =>
    match e.stage with
    | .executing =>
      if isResumableTaskKind e.cmd.kind ∧ dbErr = false then
        some { s with tasks := (updateProgress s.tasks id progress now.text).1 }
      else some s
    | _ => none
  | none => none

section

variable (s : State)

section

variable (id : TaskId)

/-- `Engine.Run` returns. -/
def State.engineReturns (out : EngineResult) (now : Instant) :
    Option State :=
  match s.executions id with
  | some e =>
    match e.stage with
    | .executing =>
      some (s.toStage id e (.finished (e.outcome boundTaskResult out now.text)))
    | _ => none
  | none => none

/-- Detached work: `UpdateRunning`, whose failure does not stop the send. -/
def State.persistRunning (dbErr : Bool) (now : Instant) :
    Option State :=
  match s.executions id with
  | some e =>
    match e.stage with
    | .finished out =>
      if out.status = .running then
        let (tasks, stored) :=
          if dbErr then (s.tasks, false) else updateRunning s.tasks id out.result now.text
        let f := sendTaskResult boundTaskResult id .running out.result out.error
        let s' := { s with tasks := tasks }
        some (s'.toStage id e
          (.sending ⟨f, if stored then some (versionOf tasks id) else none⟩))
      else none
    | _ => none
  | none => none

/-- `FinishIfActive` at the end of `runTask`. -/
def State.finish (dbErr : Bool) (now : Instant) : Option State :=
  match s.executions id with
  | some e =>
    match e.stage with
    | .finished out =>
      if out.status = .running then none
      else if dbErr then some (s.toStage id e .returning)
      else
        let (tasks, stored) :=
          finishIfActive s.tasks id out.localStatus out.result out.error now.text
        let s' := { s with tasks := tasks }
        if stored then
          if out.localStatus = .cancelled then some ((s'.toStage id e .reading).noteClosed id)
          else
            let f := sendTaskResult boundTaskResult id out.status out.result out.error
            some ((s'.toStage id e (.sending ⟨f, some (versionOf tasks id)⟩)).noteClosed id)
        else if e.cmd.isManagedWorkspaceRestoreCommand then
          some (s'.toStage id e (.unstored out))
        else some (s'.toStage id e .reading)
    | _ => none
  | none => none

/-- `SealCancelledExecutorResult`. -/
def State.sealCancelled (dbErr : Bool) (now : Instant) : Option State :=
  match s.executions id with
  | some e =>
    match e.stage with
    | .unstored out =>
      if dbErr then some (s.toStage id e .returning)
      else
        let tasks := (sealCancelledExecutorResult s.tasks id out.result out.error now.text).1
        let s' := { s with tasks := tasks }
        some (s'.toStage id e .reading)
    | _ => none
  | none => none

/-- Read the stored row and send that. -/
def State.readBack (dbErr : Bool) : Option State :=
  match s.executions id with
  | some e =>
    match e.stage with
    | .reading =>
      match s.tasks.lookup id with
      | some t =>
        if dbErr then some (s.toStage id e .returning)
        else
          some (s.toStage id e
            (.sending ⟨storedFrame boundTaskResult id t, some t.version⟩))
      | none => some (s.toStage id e .returning)
    | _ => none
  | none => none

/-- `sendLiveTaskResult` up to the socket. -/
def State.reserve (now : Instant) : Option State :=
  match s.executions id with
  | some e =>
    match e.stage with
    | .sending o =>
      let (inFlight, granted) := reserveResultDelivery s.inFlight id now.nanos
      let s' := { s with inFlight := inFlight }
      let stage := if granted then Stage.reserved o else .returning
      some (s'.toStage id e stage)
    | _ => none
  | none => none

def State.send (sendErr : Bool) : Option State :=
  match s.executions id with
  | some e =>
    match e.stage with
    | .reserved o =>
      let s' := s.toStage id e .returning
      if sendErr then some { s' with inFlight := releaseResultDelivery s.inFlight id }
      else some { s' with sent := o :: s.sent }
    | _ => none
  | none => none

/-- The executor leaves the tracker and ends. -/
def State.unregister : Option State :=
  match s.executions id with
  | some e =>
    match e.stage with
    | .returning => some ((s.setExecution id none).deactivate id)
    | _ => none
  | none => none

end

def State.replayReserve (i : Nat) (now : Instant) : Option State :=
  match s.replays[i]? with
  | some r =>
    if r.reserved then none
    else
      let (inFlight, granted) := reserveResultDelivery s.inFlight r.out.frame.taskId now.nanos
      if granted then
        some { s with
          inFlight := inFlight
          replays := s.replays.set i { r with reserved := true } }
      else some { s with replays := s.replays.eraseIdx i }
  | none => none

def State.replaySend (i : Nat) (sendErr : Bool) : Option State :=
  match s.replays[i]? with
  | some r =>
    if r.reserved then
      let s' := { s with replays := s.replays.eraseIdx i }
      if sendErr then
        some { s' with inFlight := releaseResultDelivery s.inFlight r.out.frame.taskId }
      else some { s' with sent := r.out :: s.sent }
    else none
  | none => none

def State.flushRecent : State :=
  { s with
    flushes := .listing (listUnreportedOrdered s.tasks true (max 1 (resultOutboxWindow / 4))) ::
      s.flushes }

def State.flushOldest (i : Nat) : Option State :=
  match s.flushes[i]? with
  | some (.listing recent) =>
    let oldestLimit := resultOutboxWindow - max 1 (resultOutboxWindow / 4)
    let oldest := listUnreportedOrdered s.tasks false oldestLimit
    some { s with
      flushes := s.flushes.set i
        (.sending (mergeUnreported resultOutboxWindow (recent ++ oldest))) }
  | _ => none

/-- The next row of a flush pass, up to the socket. -/
def State.flushReserve (i : Nat) (now : Instant) : Option State :=
  match s.flushes[i]? with
  | some (.sending ((id, t) :: pending)) =>
    let (inFlight, granted) := reserveResultDelivery s.inFlight id now.nanos
    let o := ⟨flushFrame boundTaskResult id t, some t.version⟩
    some { s with
      inFlight := inFlight
      flushes := s.flushes.set i (if granted then .reserved o pending else .sending pending) }
  | _ => none

/-- The socket write of a flush pass. -/
def State.flushSend (i : Nat) (sendErr : Bool) : Option State :=
  match s.flushes[i]? with
  | some (.reserved o pending) =>
    let s' := { s with flushes := s.flushes.set i (.sending pending) }
    if sendErr then some { s' with inFlight := releaseResultDelivery s.inFlight o.frame.taskId }
    else some { s' with sent := o :: s.sent }
  | _ => none

def State.flushEnd (i : Nat) : State :=
  { s with flushes := s.flushes.eraseIdx i }

/-- `task.result.ack`. The frame names a task and nothing else. -/
def State.ack (o : Outgoing) (dbErr : Bool) (now : Instant) : State :=
  if dbErr then s
  else
    { s with
      tasks := (markResultReported s.tasks o.frame.taskId now.text).1
      inFlight := releaseResultDelivery s.inFlight o.frame.taskId
      acked := o :: s.acked }

def State.repairSnapshot : Option State :=
  match s.repair with
  | none =>
    some { s with
      repair := some
        { activeTaskIds := s.active, selected := none, arrivals := ∅, closed := ∅ } }
  | some _ => none

/-- `SELECT … FROM tasks WHERE status='running'`. -/
def State.repairSelect : Option State :=
  match s.repair with
  | some p =>
    match p.selected with
    | none =>
      let rows := (s.tasks.entries.map fun e => (e.1, e.2)).filter fun r => r.2.status = .running
      some { s with repair := some { p with selected := some rows, closed := ∅ } }
    | some _ => none
  | none => none

/-- The loop body of `RepairInterrupted`. -/
def State.repairNext (ev : LifecycleEvidence) (dbErr : Bool) (now : Instant) :
    Option State :=
  match s.repair with
  | some p =>
    match p.selected with
    | some ((id, t) :: rows) =>
      let s' := { s with repair := some { p with selected := some rows } }
      if id ∈ p.activeTaskIds then some s'
      else
        match repairOutcome t.kind ev with
        | none => some s'
        | some (status, result, errMsg) =>
          if dbErr then some { s with repair := none }
          else
            some { s' with
              tasks := (repairRow s.tasks id status result errMsg now.text).1 }
    | _ => none
  | none => none

/-- The process restarts: only the task table stays. -/
def State.restart : State :=
  { State.initial with tasks := s.tasks, sent := s.sent, acked := s.acked }

def State.step : Label → Option State
  | .command cmd maintenance dbErr sendErr now =>
    some (s.command boundTaskResult cmd maintenance dbErr sendErr now)
  | .cancel id dbErr now => some (s.cancel id dbErr now)
  | .trackerCancel i => s.trackerCancel i
  | .register id => s.register id
  | .precheck id dbErr => s.precheck id dbErr
  | .start id => s.start id
  | .waitCanceled id dbErr now => s.waitCanceled boundTaskResult id dbErr now
  | .pathSizeBusy id => s.pathSizeBusy id
  | .progress id progress dbErr now => s.progress id progress dbErr now
  | .engineReturns id out now => s.engineReturns boundTaskResult id out now
  | .persistRunning id dbErr now => s.persistRunning boundTaskResult id dbErr now
  | .finish id dbErr now => s.finish boundTaskResult id dbErr now
  | .sealCancelled id dbErr now => s.sealCancelled id dbErr now
  | .readBack id dbErr => s.readBack boundTaskResult id dbErr
  | .reserve id now => s.reserve id now
  | .send id sendErr => s.send id sendErr
  | .unregister id => s.unregister id
  | .replayReserve i now => s.replayReserve i now
  | .replaySend i sendErr => s.replaySend i sendErr
  | .flushRecent => some s.flushRecent
  | .flushOldest i => s.flushOldest i
  | .flushReserve i now => s.flushReserve boundTaskResult i now
  | .flushSend i sendErr => s.flushSend i sendErr
  | .flushEnd i => some (s.flushEnd i)
  | .ack o dbErr now => if o ∈ s.sent then some (s.ack o dbErr now) else none
  | .reconnect => some { s with inFlight := ∅ }
  | .repairSnapshot => s.repairSnapshot
  | .repairSelect => s.repairSelect
  | .repairNext ev dbErr now => s.repairNext ev dbErr now
  | .repairEnd => some { s with repair := none }
  | .restart => some s.restart

end

def agent : Transition.System State Label where
  init := fun s => s = State.initial
  step := State.step boundTaskResult

end Steps

end HyperFileLens.Agent
