import Mathlib.Algebra.Group.Nat.Defs
import HyperFileLens.Lens.ChatQueue
import HyperFileLens.Library.Pool

/-!
# Run submissions of Chats

The table of `run_submissions.py` with its transactions, and the request and the
recovery tasks that use it.

*Transactions.*  Each operation holds the row locks of what it decides on until it
commits, so operations run one at a time. One that raises changes nothing in the
tables, but a Run that SourceLens has created stays.

*SourceLens.*  It creates one Run for a key of a session. What it answers, and whether
the answer arrives, is a choice.

*Sessions.*  Others change the rows of the sessions at any time.
-/

namespace HyperFileLens.Lens.Runs

open Service

/-! ## Rows -/

/-- `LensSessionLink.Status`. -/
inductive SessionStatus where
  | active
  | archived
deriving DecidableEq, Repr

/-- The columns of `LensSessionLink` that are used here. -/
structure SessionLink where
  id : Nat
  hflUser : Option Nat
  status : SessionStatus := .active
  lifecycleStatus : LifecycleStatus := .ready
  slSessionUuid : Option String
  activeRunUuid : Option Nat := none
  activeRunStatus : String := ""
deriving DecidableEq

/-- `LensRunSubmission.Status`. -/
inductive SubmissionStatus where
  | pending
  | bound
  | failed
deriving DecidableEq, Repr

/-- `LensRunSubmission`. -/
structure RunSubmission where
  id : Nat
  hflUser : Option Nat
  sessionLink : Nat
  idempotencyKey : String
  question : String
  retryOfRunUuid : Option String := none
  attachmentUuids : List String := []
  deepThinking : Option Bool := none
  agentRounds : String := ""
  status : SubmissionStatus := .pending
  slRunUuid : Option Nat := none
  runStatus : String := ""
  lastError : String := ""
  recoveryAttempts : Nat := 0
  recoveryClaimToken : Option Nat := none
  recoveryClaimedAt : Option Int := none
  recoveryNextAt : Option Int := none
  createdAt : Int
deriving DecidableEq

structure SourceLensRun where
  slSessionUuid : String
  idempotencyKey : String
  uuid : Nat
deriving DecidableEq

/-- The tables, with the Runs of SourceLens and the next claim token. -/
structure Submissions where
  sessions : List SessionLink := []
  submissions : List RunSubmission := []
  runs : List SourceLensRun := []
  nextToken : Nat := 0
deriving DecidableEq

structure RunPayload where
  uuid : Nat
  idempotencyKey : String
  status : String
deriving DecidableEq

inductive SubmissionError where
  /-- `RunSubmissionConflictError`. -/
  | conflict (message : String)
  /-- `RunSubmissionInvalidError`. -/
  | invalid (message : String)
  /-- `RunSubmissionClaimLostError`. -/
  | claimLost (message : String)
  /-- `RunSubmissionContractError`. -/
  | contract (message : String)
  /-- `LensBridgeError`. -/
  | bridge (statusCode : Nat)
  | other
deriving DecidableEq

/-! ## Choices -/

inductive RunAnswer where
  /-- It has not created one. -/
  | refused (statusCode : Nat)
  | lost (statusCode : Nat)
  /-- The answer has no `uuid`. -/
  | omitted
  /-- The answer has a `uuid` that is not one. -/
  | malformed
  | otherKey
  | created (status : String)
deriving DecidableEq

/-- What an operation finds outside the tables. -/
structure Outside where
  now : Int := 0
  /-- The Run that `GET` answers with, or the status code of its error. -/
  fetched : Except Nat RunPayload := .error 503
  posted : RunAnswer := .refused 503
  runUuid : Nat := 0
  quotaExceeded : Bool := false
  /-- The transaction fails after its last statement, or its process is killed. -/
  fails : Bool := false
  locked : List Nat := []
  maintenance : Bool := false
  /-- A task cannot be dispatched. -/
  undispatched : Bool := false

/-! ## Small functions -/

/-- `_retry_delay`, in seconds. -/
def retryDelay (attempts : Nat) : Nat := min (5 * 2 ^ min (attempts - 1) 6) (5 * 60)

/-- `_CLAIM_TIMEOUT`, in seconds. -/
def claimTimeout : Int := 120

def deepModes : List String := ["deep", "max"]

/-- `_submission_deep_thinking`. -/
def RunSubmission.deepThinkingMode (s : RunSubmission) : Option Bool :=
  match s.deepThinking with
  | some b => some b
  | none => if s.agentRounds ≠ "" then some (deepModes.contains s.agentRounds) else none

def sameDeepThinking (left right : Option Bool) : Bool := left.getD false = right.getD false

def terminalRunStatuses : List String := ["done", "failed", "cancelled"]

structure RunRequest where
  question : String
  idempotencyKey : String
  attachmentUuids : List String := []
  retryOfRunUuid : Option String := none
  deepThinking : Option Bool := none
  agentRounds : String := ""
deriving DecidableEq

def RunRequest.mode (a : RunRequest) : Option Bool :=
  match a.deepThinking with
  | some b => some b
  | none => if a.agentRounds ≠ "" then some (deepModes.contains a.agentRounds) else none

def RunSubmission.differs (s : RunSubmission) (a : RunRequest) : Bool :=
  s.question ≠ a.question || s.retryOfRunUuid.getD "" ≠ a.retryOfRunUuid.getD "" ||
    s.attachmentUuids ≠ a.attachmentUuids || !sameDeepThinking s.deepThinkingMode a.mode

namespace Submissions

variable (db : Submissions)

/-! ## Queries -/

def setSession (link : SessionLink) : Submissions :=
  { db with sessions := Table.put SessionLink.id db.sessions link }

def setSubmission (submission : RunSubmission) : Submissions :=
  { db with submissions := Table.update RunSubmission.id db.submissions submission.id fun _ => submission }

def newId : Nat := Table.fresh (db.submissions.map RunSubmission.id)

/-- The unique constraints of a row, against the others. -/
def violates (row : RunSubmission) : Bool :=
  db.submissions.any fun r => r.id ≠ row.id &&
    ((r.sessionLink = row.sessionLink && r.idempotencyKey = row.idempotencyKey) ||
      (r.sessionLink = row.sessionLink && r.status = .pending && row.status = .pending) ||
      (r.slRunUuid.isSome && r.slRunUuid = row.slRunUuid))

def insert (row : RunSubmission) : Except SubmissionError (RunSubmission × Submissions) :=
  let row := { row with id := db.newId }
  if db.violates row then .error .other
  else .ok (row, { db with submissions := row :: db.submissions })

def submissionForActiveRun (link : SessionLink) : Option RunSubmission :=
  match link.activeRunUuid with
  | none => none
  | some run => db.submissions.find? fun s => s.sessionLink = link.id && s.slRunUuid = some run

def fetchSubmissionRun (submission : RunSubmission) (o : Outside) :
    Except SubmissionError RunPayload :=
  if submission.slRunUuid.isNone || submission.hflUser.isNone then
    .error (.invalid "Run submission is missing its SourceLens binding.")
  else
    match o.fetched with
    | .error statusCode => .error (.bridge statusCode)
    | .ok run => .ok run

def clearActiveRun (link : SessionLink) : Submissions :=
  db.setSession { link with activeRunUuid := none, activeRunStatus := "" }

/-- The update of `run_status` in `resolve_active_run`. -/
def setRunStatus (run : Nat) (status : String) : Submissions :=
  { db with submissions := db.submissions.map fun s =>
      if s.slRunUuid = some run then { s with runStatus := status } else s }

/-- `resolve_active_run`, with the session as it is left. -/
def resolveActiveRun (link : SessionLink) (o : Outside) :
    Except SubmissionError (Option (RunPayload × SessionLink) × Submissions) :=
  match link.activeRunUuid with
  | none => .ok (none, db)
  | some active =>
    match o.fetched with
    | .error 404 => .ok (none, db.clearActiveRun link)
    | .error statusCode => .error (.bridge statusCode)
    | .ok run =>
      let db := if run.status ≠ "" then db.setRunStatus active run.status else db
      if run.status ∈ terminalRunStatuses then .ok (none, db.clearActiveRun link)
      else if run.status ≠ "" ∧ run.status ≠ link.activeRunStatus then
        let link := { link with activeRunStatus := run.status }
        .ok (some (run, link), db.setSession link)
      else .ok (some (run, link), db)

/-! ## Transactions -/

/-- The branch of `prepare_submission` for a session with an active Run. -/
def prepareActive (link : SessionLink) (activeRun : RunPayload) (a : RunRequest) (o : Outside) :
    Except SubmissionError ((RunSubmission × Option RunPayload) × Submissions) :=
  let activeSubmission := db.submissionForActiveRun link
  let activeKey := match activeSubmission with
    | some submission => submission.idempotencyKey
    | none => activeRun.idempotencyKey
  if activeKey = a.idempotencyKey then
    match activeSubmission with
    | some submission =>
      if submission.differs a then
        .error (.conflict "The idempotency key is already associated with another request.")
      else .ok ((submission, some activeRun), db)
    | none => do
        let (submission, db) ← db.insert {
          id := 0
          hflUser := link.hflUser
          sessionLink := link.id
          idempotencyKey := a.idempotencyKey
          question := a.question
          retryOfRunUuid := a.retryOfRunUuid
          attachmentUuids := a.attachmentUuids
          deepThinking := a.mode
          status := .bound
          slRunUuid := link.activeRunUuid
          runStatus := if activeRun.status ≠ "" then activeRun.status else link.activeRunStatus
          createdAt := o.now }
        return ((submission, some activeRun), db)
  else .error (.conflict "This chat already has an active response.")

/-- The branch of `prepare_submission` for a session without an active Run. -/
def prepareIdle (link : SessionLink) (a : RunRequest) (o : Outside) :
    Except SubmissionError ((RunSubmission × Option RunPayload) × Submissions) :=
  match db.submissions.find? fun s =>
      s.sessionLink = link.id && s.idempotencyKey = a.idempotencyKey with
  | some existing =>
    if existing.differs a then
      .error (.conflict "The idempotency key is already associated with another request.")
    else
      match existing.status with
      | .bound => do
          let run ← fetchSubmissionRun existing o
          return ((existing, some run), db)
      | .failed => .error (.conflict "The idempotency key belongs to a failed submission.")
      | .pending => .ok ((existing, none), db)
  | none =>
    if db.submissions.any fun s => s.sessionLink = link.id && s.status = .pending then
      .error (.conflict "This chat has a response submission awaiting recovery.")
    else if o.quotaExceeded then .error .other
    else do
      let (submission, db) ← db.insert {
        id := 0
        hflUser := link.hflUser
        sessionLink := link.id
        idempotencyKey := a.idempotencyKey
        question := a.question
        retryOfRunUuid := a.retryOfRunUuid
        attachmentUuids := a.attachmentUuids
        deepThinking := a.mode
        recoveryNextAt := some o.now
        createdAt := o.now }
      return ((submission, none), db)

def prepareSubmission (linkId : Nat) (a : RunRequest) (o : Outside) :
    Except SubmissionError ((RunSubmission × Option RunPayload) × Submissions) :=
  match Table.find SessionLink.id db.sessions linkId with
  | none => .error .other
  | some link => do
      match ← db.resolveActiveRun link o with
      | (some (activeRun, link), db) => db.prepareActive link activeRun a o
      | (none, db) => db.prepareIdle link a o

def createRun (slSessionUuid key : String) (uuid : Nat) : Nat × Submissions :=
  match db.runs.find? fun r => r.slSessionUuid = slSessionUuid && r.idempotencyKey = key with
  | some run => (run.uuid, db)
  | none => (uuid, { db with runs := ⟨slSessionUuid, key, uuid⟩ :: db.runs })

/-- What `execute_submission` finds before it sends anything. -/
inductive Executable where
  | bound (submission : RunSubmission)
  | send (submission : RunSubmission) (link : SessionLink) (slSessionUuid : String)

/-- The checks of `execute_submission`. -/
def checkExecutable (submissionId : Nat) (claimToken : Option Nat) :
    Except SubmissionError Executable :=
  match Table.find RunSubmission.id db.submissions submissionId with
  | none => .error .other
  | some submission =>
    if submission.status = .bound then .ok (.bound submission)
    else if claimToken.isSome && submission.recoveryClaimToken ≠ claimToken then
      .error (.claimLost "Run submission recovery claim is no longer valid.")
    else if submission.status ≠ .pending then
      .error (.invalid "Run submission is no longer recoverable.")
    else
      match Table.find SessionLink.id db.sessions submission.sessionLink with
      | none => .error .other
      | some link =>
        match link.slSessionUuid with
        | none => .error (.invalid "The chat is no longer ready for Run recovery.")
        | some slSessionUuid =>
          if link.status ≠ .active || link.lifecycleStatus ≠ .ready ||
              submission.hflUser.isNone then
            .error (.invalid "The chat is no longer ready for Run recovery.")
          else if link.activeRunUuid.isSome &&
              (db.submissionForActiveRun link).map RunSubmission.id ≠ some submission.id then
            .error (.conflict "This chat already has an active response.")
          else .ok (.send submission link slSessionUuid)

def boundTo (submission : RunSubmission) (run : Nat) (status : String) : RunSubmission :=
  { submission with
    status := .bound
    slRunUuid := some run
    runStatus := status
    lastError := ""
    recoveryClaimToken := none
    recoveryClaimedAt := none
    recoveryNextAt := none }

def bind (submission : RunSubmission) (link : SessionLink) (run : Nat) (status : String)
    (o : Outside) : Except SubmissionError Submissions :=
  let row := boundTo submission run status
  if db.violates row || o.fails then .error .other
  else
    let db := db.setSubmission row
    .ok (if status ∈ terminalRunStatuses then db
      else db.setSession { link with activeRunUuid := some run, activeRunStatus := status })

/-- `execute_submission`, with the tables as they are left when it raises. -/
def executeSubmission (submissionId : Nat) (claimToken : Option Nat) (o : Outside) :
    Except SubmissionError RunPayload × Submissions :=
  match db.checkExecutable submissionId claimToken with
  | .error error => (.error error, db)
  | .ok (.bound submission) => (fetchSubmissionRun submission o, db)
  | .ok (.send submission link slSessionUuid) =>
    match o.posted with
    | .refused statusCode => (.error (.bridge statusCode), db)
    | posted =>
      -- The Run exists from here on, whatever becomes of the transaction.
      let (run, db) := db.createRun slSessionUuid submission.idempotencyKey o.runUuid
      match posted with
      | .refused statusCode | .lost statusCode => (.error (.bridge statusCode), db)
      | .omitted => (.error (.contract "SourceLens Run response omitted its UUID."), db)
      | .malformed =>
        (.error (.contract "SourceLens Run response returned an invalid UUID."), db)
      | .otherKey => (.error (.contract
          "SourceLens Run response returned an inconsistent idempotency key."), db)
      | .created status =>
        let status := if status ≠ "" then status else "queued"
        match db.bind submission link run status o with
        | .error error => (.error error, db)
        | .ok db => (.ok ⟨run, submission.idempotencyKey, status⟩, db)

def recordSubmissionError (submissionId : Nat) (error : String) (retryable : Bool) (now : Int) :
    Submissions :=
  match Table.find RunSubmission.id db.submissions submissionId with
  | none => db
  | some submission =>
    if submission.status ≠ .pending then db
    else
      let attempts := submission.recoveryAttempts + 1
      db.setSubmission { submission with
        recoveryAttempts := attempts
        lastError := error
        recoveryClaimToken := none
        recoveryClaimedAt := none
        recoveryNextAt := if retryable then some (now + retryDelay attempts) else none
        status := if retryable then submission.status else .failed }

def deferClaimedSubmission (submissionId claimToken : Nat) (now : Int) : Submissions :=
  { db with submissions := Table.update RunSubmission.id db.submissions submissionId fun s =>
      if s.status = .pending ∧ s.recoveryClaimToken = some claimToken then
        { s with
          recoveryClaimToken := none
          recoveryClaimedAt := none
          recoveryNextAt := some (now + 15) }
      else s }

/-- A submission that a recovery worker may claim. -/
def isDue (s : RunSubmission) (o : Outside) : Bool :=
  s.status = .pending && s.recoveryNextAt.all (· ≤ o.now) &&
    (s.recoveryClaimToken.isNone || s.recoveryClaimedAt.any (· < o.now - claimTimeout)) &&
      !o.locked.contains s.id

/-- The order of claims. Rows without a time are last. -/
def isClaimedBefore (s t : RunSubmission) : Bool :=
  let tie := s.createdAt < t.createdAt || (s.createdAt = t.createdAt && s.id ≤ t.id)
  match s.recoveryNextAt, t.recoveryNextAt with
  | some a, some b => a < b || (a = b && tie)
  | some _, none => true
  | none, some _ => false
  | none, none => tie

def claim (o : Outside) (acc : Submissions × List (Nat × Nat)) (s : RunSubmission) :
    Submissions × List (Nat × Nat) :=
  let db := acc.1
  ({ db with
      nextToken := db.nextToken + 1
      submissions := Table.update RunSubmission.id db.submissions s.id fun r =>
        { r with recoveryClaimToken := some db.nextToken, recoveryClaimedAt := some o.now } },
    acc.2 ++ [(s.id, db.nextToken)])

def claimDueSubmissions (limit : Int) (o : Outside) : List (Nat × Nat) × Submissions :=
  let bounded := max 1 (min limit.toNat 500)
  let rows := ((db.submissions.filter fun s => isDue s o).insertionSort
    fun s t => isClaimedBefore s t).take bounded
  let claimed := rows.foldl (claim o) (db, [])
  (claimed.2, claimed.1)

end Submissions

/-! ## Programs -/

/-- The operations. The last argument of `recordError` names the claim of a recovery
worker, which the source does not pass. -/
inductive SubmissionReq where
  | prepare (linkId : Nat) (a : RunRequest)
  | execute (submissionId : Nat) (claimToken : Option Nat)
  | recordError (submissionId : Nat) (error : String) (retryable : Bool) (claim : Option Nat)
  | defer (submissionId claimToken : Nat)
  | claimDue (limit : Int)
  | maintenance
  /-- `execute_run_submission_recovery_task.delay`. -/
  | dispatch

abbrev SubmissionAns : SubmissionReq → Type
  | .prepare .. => Except SubmissionError (RunSubmission × Option RunPayload)
  | .execute .. => Except SubmissionError RunPayload
  | .recordError .. => Unit
  | .defer .. => Unit
  | .claimDue _ => List (Nat × Nat)
  | .maintenance => Bool
  | .dispatch => Bool

def respond (db : Submissions) : (r : SubmissionReq) → Outside → SubmissionAns r × Submissions
  | .prepare linkId a, o =>
    match db.prepareSubmission linkId a o with
    | .error error => (.error error, db)
    | .ok (answer, db') => if o.fails then (.error .other, db) else (.ok answer, db')
  | .execute submissionId claimToken, o => db.executeSubmission submissionId claimToken o
  | .recordError submissionId error retryable _, o =>
    ((), db.recordSubmissionError submissionId error retryable o.now)
  | .defer submissionId claimToken, o => ((), db.deferClaimedSubmission submissionId claimToken o.now)
  | .claimDue limit, o => db.claimDueSubmissions limit o
  | .maintenance, o => (o.maintenance, db)
  | .dispatch, o => (!o.undispatched, db)

def database : Server Submissions SubmissionReq SubmissionAns Outside where
  respond := respond

abbrev SubmissionProg (α : Type) := Prog SubmissionReq SubmissionAns SubmissionError α

abbrev call (r : SubmissionReq) : SubmissionProg (SubmissionAns r) := Prog.request r

def isRetryable (statusCode : Nat) : Bool :=
  500 ≤ statusCode || [408, 409, 425, 429].contains statusCode

/-- `str` of an exception. -/
def SubmissionError.text : SubmissionError → String
  | .conflict message | .invalid message | .claimLost message | .contract message => message
  | .bridge _ | .other => ""

/-- `create_run` of the API. -/
def createRun (linkId : Nat) (a : RunRequest) : SubmissionProg Unit := do
  let maintenance : Bool ← call .maintenance
  if maintenance then .fail .other
  else
    let prepared : Except SubmissionError (RunSubmission × Option RunPayload) ←
      call (.prepare linkId a)
    match prepared with
    | .error error => .fail error
    | .ok (_, some _) => return ()
    | .ok (submission, none) =>
      let maintenance : Bool ← call .maintenance
      if maintenance then .fail .other
      else
        let data : Except SubmissionError RunPayload ← call (.execute submission.id none)
        match data with
        | .ok _ => return ()
        | .error (.bridge statusCode) =>
          call (.recordError submission.id "" (isRetryable statusCode) none)
          .fail (.bridge statusCode)
        | .error (.claimLost message) => .fail (.claimLost message)
        | .error .other => .fail .other
        | .error error =>
          call (.recordError submission.id error.text false none)
          .fail error

def executeRunSubmissionRecoveryTask (submissionId claimToken : Nat) : SubmissionProg Unit := do
  let maintenance : Bool ← call .maintenance
  if maintenance then call (.defer submissionId claimToken)
  else
    let run : Except SubmissionError RunPayload ← call (.execute submissionId (some claimToken))
    match run with
    | .ok _ => return ()
    | .error (.claimLost _) => return ()
    | .error (.bridge statusCode) =>
      call (.recordError submissionId "" (isRetryable statusCode) (some claimToken))
    | .error .other => call (.recordError submissionId "" true (some claimToken))
    | .error error => call (.recordError submissionId error.text false (some claimToken))

/-- `reconcile_run_submissions_task`. The tasks it dispatches are jobs of their own. -/
def reconcileRunSubmissionsTask (limit : Int) : SubmissionProg Unit := do
  let claims : List (Nat × Nat) ← call (.claimDue limit)
  claims.forM fun claim => do
    let dispatched : Bool ← call .dispatch
    if dispatched then return ()
    else call (.recordError claim.1 "" true (some claim.2))

inductive SubmissionJob where
  | createRun (linkId : Nat) (a : RunRequest)
  | recover (submissionId claimToken : Nat)
  | reconcile (limit : Int)

def SubmissionJob.body : SubmissionJob → SubmissionProg Unit
  | .createRun linkId a => Runs.createRun linkId a
  | .recover submissionId claimToken => executeRunSubmissionRecoveryTask submissionId claimToken
  | .reconcile limit => reconcileRunSubmissionsTask limit

abbrev RunPool := Pool Submissions SubmissionReq SubmissionAns SubmissionError Unit SubmissionJob

/-- What happens. The environment changes the sessions. -/
abbrev RunEvent := PoolEvent SubmissionJob Outside (List SessionLink)

/-- All clients, over the tables there are at the start. -/
def runSubmissions (db : Submissions) : Transition.System RunPool RunEvent :=
  poolSystem database SubmissionJob.body (fun db sessions => { db with sessions := sessions }) db

end HyperFileLens.Lens.Runs
