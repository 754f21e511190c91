import HyperFileLens.Library.Table
import HyperFileLens.Protection.SourceSnapshot

/-!
# Physical deletion of a snapshot

`run_snapshot_delete_task` and what it calls in `snapshot_delete.py` and
`kopia_snapshot_delete.py`.

*Executors.*  A group of directories that share a repository location is deleted by one
call of `run_snapshot_delete`. What it returns or raises is an argument: results come
from Agents and from Kopia and may be anything.

*Parts.*  The run is split where its transactions end: `startDelete`, one
`recordOutcome` for each group, and `finishDelete`. `interruptDelete` is what an
exception of an executor leads to.
-/

namespace HyperFileLens.Protection

open Tasks

/-! ## Results of an executor -/

def itemDeleteText (item : Dict) : String :=
  let delete := (item.get "delete").fields
  let parts := [item.get "error_message", Dict.get delete "stderr", Dict.get delete "stderr_tail",
    Dict.get delete "stdout"].map Json.strOr
  Text.lower (" ".intercalate (parts.filter fun part => part ≠ ""))

/-- The status of an item is `success`. -/
def isSuccess (item : Dict) : Bool :=
  Text.lower (Text.strip (item.get "status").strOr) = "success"

def kopiaSnapshotDeleteAlreadyAbsent (item : Dict) : Bool :=
  !isSuccess item && decide ("no snapshots matched".toList <:+: (itemDeleteText item).toList)

def itemId (item : Dict) : String := normalizeKopiaSnapshotId (item.get "kopia_snapshot_id").strOr

/-- What `classify_kopia_snapshot_delete_results` returns. -/
structure ClassifiedResults where
  deleted : List String := []
  alreadyAbsent : List String := []
  hardFailures : List Dict := []

def classifyKopiaSnapshotDeleteResults : List Dict → ClassifiedResults
  | [] => {}
  | item :: items =>
    let rest := classifyKopiaSnapshotDeleteResults items
    if itemId item = "" then rest
    else if isSuccess item then { rest with deleted := itemId item :: rest.deleted }
    else if kopiaSnapshotDeleteAlreadyAbsent item then
      { rest with alreadyAbsent := itemId item :: rest.alreadyAbsent }
    else { rest with hardFailures := item :: rest.hardFailures }

def ClassifiedResults.reconciledIds (c : ClassifiedResults) : List String :=
  c.deleted ++ c.alreadyAbsent

/-- `SnapshotDeleteOutcome`, or the result of an Agent. -/
structure DeleteOutcome where
  result : Json
  ok : Bool
  timedOut : Bool := false
  lastError : String := ""

/-- The items of an outcome: the objects of the list `results`, if there is one. -/
def DeleteOutcome.items (outcome : DeleteOutcome) : List Dict :=
  match outcome.result.fields.get "results" with
  | .arr items => items.filterMap fun item =>
    match item with
    | .obj fields => some fields
    | _ => none
  | _ => []

def DeleteOutcome.reported (outcome : DeleteOutcome) : List String :=
  (classifyKopiaSnapshotDeleteResults outcome.items).reconciledIds

/-- The exceptions of `run_snapshot_delete`. -/
inductive ExecutorError where
  | agentSnapshotDeletePending (message : String)
  | controllerSnapshotDeleteBusy (message : String)
  | validation (message : String)
  | other (message : String)
deriving DecidableEq

/-- What a run meets outside of its tables. -/
structure DeleteEnv where
  validate : Except String Unit
  locator : SnapshotDirectory → Except String SnapshotRepositoryLocator
  executor : List SnapshotDirectory → List String → Except ExecutorError DeleteOutcome

/-! ## Rows and groups -/

def snapshotDeleteRows (s : SnapshotRecord) : List SnapshotDirectory :=
  s.directories.filter fun row => row.status ≠ .deleted

def kopiaSnapshotIds (rows : List SnapshotDirectory) : List String :=
  rows.foldl (fun ids row =>
    if row.physicalId = "" ∨ row.physicalId ∈ ids then ids else ids ++ [row.physicalId]) []

structure LocatorGroup where
  locator : SnapshotRepositoryLocator
  rows : List SnapshotDirectory

/-- `grouped.setdefault(locator, []).append(directory)`. -/
def addToGroup (groups : List LocatorGroup) (locator : SnapshotRepositoryLocator)
    (row : SnapshotDirectory) : List LocatorGroup :=
  if groups.any fun g => g.locator = locator then
    groups.map fun g => if g.locator = locator then { g with rows := g.rows ++ [row] } else g
  else groups ++ [⟨locator, [row]⟩]

/-- `group_snapshot_directories_by_repository_locator`. -/
def groupByRepositoryLocator
    (locator : SnapshotDirectory → Except String SnapshotRepositoryLocator) :
    List SnapshotDirectory → List LocatorGroup → Except String (List LocatorGroup)
  | [], groups => .ok groups
  | row :: rows, groups =>
    match locator row with
    | .error message => .error message
    | .ok l => groupByRepositoryLocator locator rows (addToGroup groups l row)

/-! ## Tasks of a snapshot -/

/-- The row of a delete task changes. -/
def updateTask (s : SnapshotRecord) (taskId : Nat)
    (f : TaskRow DeleteResult → TaskRow DeleteResult) : SnapshotRecord :=
  { s with
    deleteTasks := s.deleteTasks.map fun t =>
      if t.id = taskId then { t with task := f t.task } else t }

def taskOf (s : SnapshotRecord) (taskId : Nat) : Option DeleteTask :=
  Table.find DeleteTask.id s.deleteTasks taskId

inductive RunStatus where
  | locked
  | waiting
  | returned
  | raised
deriving DecidableEq, Repr

def deferSnapshotDelete (taskId : Nat) (s : SnapshotRecord) : SnapshotRecord :=
  updateTask s taskId fun task =>
    if task.status = .pending ∨ task.status = .running then { task with status := .pending }
    else task

/-- The payload of a task that fails without results. -/
def emptyResult (s : SnapshotRecord) : DeleteResult where
  deletedCount := s.directories.countP fun row => row.status = .deleted
  failedCount := s.directories.countP fun row => row.status ≠ .deleted

def failSnapshotDeleteTask (taskId : Nat) (errorCode errorMessage : String)
    (result : Option DeleteResult) (s : SnapshotRecord) : SnapshotRecord :=
  match taskOf s taskId with
  | none => s
  | some t =>
    if t.task.status.isTerminal then s
    else
      let failed := { s with
        row.status := .deleteFailed, row.errorCode := errorCode
        row.errorMessage := errorMessage }
      updateTask failed taskId fun task =>
        task.complete .failed (some (result.getD (emptyResult s))) errorCode errorMessage

/-- Mark directories of a snapshot `DELETED`. -/
def markDeleted (s : SnapshotRecord) (p : SnapshotDirectory → Bool) : SnapshotRecord :=
  { s with
    directories := s.directories.map fun row =>
      if p row then { row with status := .deleted } else row }

/-- The row of the snapshot says `DELETED`, and the task `SUCCESS`. -/
def completeDelete (taskId : Nat) (now : Int) (result : DeleteResult) (s : SnapshotRecord) :
    SnapshotRecord :=
  let deleted := { s with
    row.status := .deleted, row.deletedAt := some now, row.errorCode := ""
    row.errorMessage := "" }
  updateTask deleted taskId fun task => task.complete .success (some result) "" ""

def completeEmptyDelete (taskId : Nat) (now : Int) (s : SnapshotRecord) : SnapshotRecord :=
  completeDelete taskId now ⟨0, 0, 0, []⟩ (markDeleted s fun _ => true)

/-- What an exception leads to: a task that waits, or one that fails. -/
def interruptDelete (taskId : Nat) (error : ExecutorError) (s : SnapshotRecord) :
    SnapshotRecord × RunStatus :=
  match error with
  | .agentSnapshotDeletePending _ | .controllerSnapshotDeleteBusy _ =>
    (deferSnapshotDelete taskId s, .waiting)
  | .validation message =>
    (failSnapshotDeleteTask taskId "SNAPSHOT_DELETE_PRECONDITION_FAILED" message none s,
      .returned)
  | .other message =>
    (failSnapshotDeleteTask taskId "SNAPSHOT_DELETE_INTERNAL_ERROR" message none s, .returned)

/-! ## The run -/

inductive StartedDelete where
  | stopped (s : SnapshotRecord) (status : RunStatus)
  | groups (s : SnapshotRecord) (rows : List SnapshotDirectory) (groups : List LocatorGroup)

def startPending (t : DeleteTask) (s : SnapshotRecord) : Except String SnapshotRecord :=
  if t.task.status = .pending then
    match taskOf s t.id with
    | none => .error "Task does not exist."
    | some t' => t'.task.start.map fun task => updateTask s t.id fun _ => task
  else .ok s

def enterDelete (env : DeleteEnv) (now : Int) (taskId : Nat) (s : SnapshotRecord) :
    StartedDelete :=
  let rows := snapshotDeleteRows s
  let refused (message : String) : StartedDelete :=
    let stopped := interruptDelete taskId (.validation message) s
    .stopped stopped.1 stopped.2
  if kopiaSnapshotIds rows = [] then .stopped (completeEmptyDelete taskId now s) .returned
  else
    match env.validate with
    | .error message => refused message
    | .ok () =>
      match groupByRepositoryLocator env.locator
          (rows.filter fun row => row.physicalId ≠ "") [] with
      | .error message => refused message
      | .ok groups => .groups s rows groups

def startDelete (env : DeleteEnv) (now : Int) (t : DeleteTask) (s : SnapshotRecord) :
    StartedDelete :=
  if t.task.status.isTerminal then .stopped s .returned
  else
    match startPending t s with
    | .error message =>
      let stopped := interruptDelete t.id (.validation message) s
      .stopped stopped.1 stopped.2
    | .ok s => enterDelete env now t.id s

/-- What a run has learned from its executors. -/
structure DeleteProgress where
  itemResults : List Dict := []
  alreadyAbsentIds : List String := []
  hardFailed : Bool := false
  failureMessages : List String := []

/-- The first 2000 characters of the error of an outcome. -/
def DeleteOutcome.failureMessage (outcome : DeleteOutcome) : String :=
  String.ofList ((if outcome.lastError = "" then
    "One or more physical snapshots failed to delete." else outcome.lastError).toList.take 2000)

/-- The body of the loop over the groups, after the call of the executor. -/
def recordOutcome (group : List SnapshotDirectory) (outcome : DeleteOutcome)
    (s : SnapshotRecord) (p : DeleteProgress) : SnapshotRecord × DeleteProgress :=
  let classified := classifyKopiaSnapshotDeleteResults outcome.items
  let reconciledIds := classified.reconciledIds
  let groupFailed := outcome.timedOut || !classified.hardFailures.isEmpty ||
    (!outcome.ok && reconciledIds.isEmpty)
  (markDeleted s fun row =>
      row.id ∈ group.map SnapshotDirectory.id && row.kopiaSnapshotId.any (· ∈ reconciledIds),
    { itemResults := p.itemResults ++ outcome.items
      alreadyAbsentIds := p.alreadyAbsentIds ++ classified.alreadyAbsent
      hardFailed := p.hardFailed || groupFailed
      failureMessages := if groupFailed then p.failureMessages ++ [outcome.failureMessage]
        else p.failureMessages })

/-- The end of a run, after its groups. -/
def finishDelete (taskId : Nat) (now : Int) (rows : List SnapshotDirectory)
    (s : SnapshotRecord) (p : DeleteProgress) : SnapshotRecord :=
  let withoutPhysical := (rows.filter fun row => row.physicalId = "").map SnapshotDirectory.id
  let s := if p.hardFailed then s else markDeleted s fun row => row.id ∈ withoutPhysical
  let counts := emptyResult s
  let hardFailed := p.hardFailed || 0 < counts.failedCount
  let result : DeleteResult := {
    deletedCount := counts.deletedCount
    failedCount := if hardFailed then counts.failedCount else 0
    alreadyAbsentCount := p.alreadyAbsentIds.dedup.length
    results := p.itemResults }
  if hardFailed then
    failSnapshotDeleteTask taskId "SNAPSHOT_DELETE_FAILED"
      (p.failureMessages.head?.getD "One or more physical snapshots failed to delete.")
      (some result) s
  else completeDelete taskId now result s

/-- An outcome an executor returned, with the group it was asked about. -/
structure Answer where
  group : LocatorGroup
  outcome : DeleteOutcome

def runGroups (env : DeleteEnv) : List LocatorGroup → SnapshotRecord → DeleteProgress →
    SnapshotRecord × DeleteProgress × Option ExecutorError × List Answer
  | [], s, p => (s, p, none, [])
  | group :: groups, s, p =>
    match env.executor group.rows (kopiaSnapshotIds group.rows) with
    | .error error => (s, p, some error, [])
    | .ok outcome =>
      let recorded := recordOutcome group.rows outcome s p
      let rest := runGroups env groups recorded.1 recorded.2
      (rest.1, rest.2.1, rest.2.2.1, ⟨group, outcome⟩ :: rest.2.2.2)

/-- What a call of `run_snapshot_delete_task` leaves and returns, with the answers it
got. -/
structure DeleteRun where
  record : SnapshotRecord
  status : RunStatus
  answers : List Answer := []

/-- `run_snapshot_delete_task`. The first argument says whether another run holds the
lock of the snapshot. -/
def runSnapshotDeleteTask (locked : Bool) (env : DeleteEnv) (now : Int) (taskId : Nat)
    (s : SnapshotRecord) : DeleteRun :=
  if locked then ⟨s, .locked, []⟩
  else
    match taskOf s taskId with
    | none => ⟨s, .raised, []⟩
    | some t =>
      if s.isProtected then ⟨deferSnapshotDelete taskId s, .waiting, []⟩
      else
        match startDelete env now t s with
        | .stopped s status => ⟨s, status, []⟩
        | .groups s rows groups =>
          let run := runGroups env groups s {}
          match run.2.2.1 with
          | some error =>
            let stopped := interruptDelete taskId error run.1
            ⟨stopped.1, stopped.2, run.2.2.2⟩
          | none => ⟨finishDelete taskId now rows run.1 run.2.1, .returned, run.2.2.2⟩

end HyperFileLens.Protection
