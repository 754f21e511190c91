import HyperFileLens.Node.Writers

/-!
# Delivery of a command

`deliver_agent_task` and `reconcile_unaccepted_agent_tasks` on one row, as they run
concurrently in request threads and in sweeps. A label is one statement on the
row, or one transaction, or one message to the Agent.

*Copies.*  A caller works on its own copy of the row, which `refresh_from_db` and
`_persist_delivery_protocol` bring up to date in part. `held` is that copy.

*Environment.*  Labels carry the clock, the route state, the capabilities of the
Node, and whether a message got through. A message may get through and still
raise. A caller may die at any point.

*History variables.*  The protocols selected so far, whether an acceptance or a
terminal state was ever committed, and the commands sent, each with the claim of
its attempt.
-/

namespace HyperFileLens.Node

open Transition

/-! ## Callers -/

inductive RouteState where
  | online
  | reconnecting
  | offline
deriving DecidableEq, Repr

structure Claim where
  /-- The `delivery_attempt_count` that the claim stored. -/
  attempt : Nat
  /-- History: an acceptance or a terminal state was committed before. -/
  decided : Bool
deriving DecidableEq

/-- Where `_deliver_agent_task` stands. -/
inductive DeliveryStage where
  | persisting
  /-- The payload and the route are looked up next. -/
  | routing (usesAck : Bool)
  | claiming
  /-- `_send_task_command` is next. An acknowledged delivery holds its claim. -/
  | sending (claim : Option Claim)
  /-- The `UPDATE` to running is next. -/
  | dispatched
  /-- A downlink error is handled next. -/
  | failing (usesAck : Bool) (reason : String)
  | failingForGood (reason : String)
  /-- `_mark_task_reconnecting` refreshes its copy next. -/
  | refreshing
  /-- `_mark_task_reconnecting` updates the row next. -/
  | marking
deriving DecidableEq

/-- A call of `deliver_agent_task`. -/
structure Delivery where
  held : NodeTask
  allowAckRedelivery : Bool
  ephemeralPayload : Bool
  stage : DeliveryStage

/-- A sweep that has the row among its candidates. -/
structure Sweep where
  held : NodeTask
  /-- The clock at the start of the sweep. -/
  now : Time
  /-- It has selected the protocol. -/
  persisted : Bool

/-- A command on its way to the Agent. -/
structure Sent where
  claim : Option Claim

/-- The row, its callers and the history. -/
structure DeliveryState where
  row : NodeTask
  deliveries : List Delivery
  sweeps : List Sweep
  selections : List DeliveryProtocol
  /-- History: an acceptance or a terminal state was committed. -/
  decided : Bool
  sent : List Sent

/-! ## Statements on the row -/

section Statements

variable (conf : Settings)

/-- `1 + max(0, TASK_COMMAND_ACK_MAX_RETRIES)`. -/
def maxAttempts : Nat := 1 + (max 0 conf.taskCommandAckMaxRetries).toNat

/-- The transaction of `_persist_delivery_protocol` on an unaccepted row: the
protocol, and the row with the protocol recorded. -/
def persistProtocol (row : NodeTask) (ackCapable : Bool) (now : Time) :
    DeliveryProtocol × NodeTask :=
  match selectedProtocol row.result with
  | some protocol => (protocol, row)
  | none =>
    let usesAck := 0 < row.deliveryAttemptCount || ackCapable
    let protocol := if usesAck then DeliveryProtocol.ack else .legacy
    (protocol, { row with
      result := row.result.set deliveryProtocolKey (.str protocol.text)
      watchdogDeadlineAt :=
        if usesAck then after now (max 1 conf.taskCommandAckMaxAge) else row.watchdogDeadlineAt })

/-- What `_persist_delivery_protocol` brings up to date in the copy of its caller. -/
def refreshProtocol (held row : NodeTask) : NodeTask :=
  if row.isUnaccepted then
    { held with
      status := row.status
      acceptedAt := row.acceptedAt
      result := row.result
      watchdogDeadlineAt := row.watchdogDeadlineAt
      deliveryAttemptCount := row.deliveryAttemptCount }
  else { held with status := row.status, acceptedAt := row.acceptedAt, result := row.result }

/-- The `UPDATE` that claims the attempt after a count. -/
def claimAttempt (row : NodeTask) (count : Nat) (dispatched : Option Time) (now : Time) :
    NodeTask × Bool :=
  if row.isUnaccepted && row.deliveryAttemptCount = count then
    ({ row with
      lastDeliveryAt := some now
      deliveryAttemptCount := row.deliveryAttemptCount + 1
      lastError := ""
      dispatchedAt := if dispatched.isNone then some now else row.dispatchedAt }, true)
  else (row, false)

/-- The `UPDATE` after a legacy command. -/
def markDispatched (row held : NodeTask) (now : Time) : NodeTask :=
  if row.isUnaccepted then
    { row with
      status := .running
      dispatchedAt := some now
      lastDeliveryAt := some now
      deliveryAttemptCount := row.deliveryAttemptCount + 1
      lastProgressAt := some now
      watchdogDeadlineAt := held.initialDeadline conf now
      result := withoutDeliveryRuntimeState held.result }
  else row

/-- The `UPDATE` after a downlink error of an acknowledged delivery, and the one of
`_mark_task_reconnecting`. -/
def noteDeliveryError (row held : NodeTask) (code error : String) : NodeTask :=
  if row.status = .pending then
    { row with
      lastError := clipError error
      result := held.result.set "diagnostic_error_code" (.str code) }
  else row

def isSweepCandidate (row : NodeTask) : Bool :=
  row.isAckDurable && row.isUnaccepted &&
    row.result.get? deliveryProtocolKey ≠ some (.str DeliveryProtocol.legacy.text)

/-- The bulk `UPDATE` of a sweep during a recovery hold. -/
def refreshHeldDeadline (row : NodeTask) (now : Time) : NodeTask :=
  let maxAge := max 1 conf.taskCommandAckMaxAge
  if isSweepCandidate row &&
      (row.result.get? deliveryProtocolKey = some (.str DeliveryProtocol.ack.text) ||
        0 < row.deliveryAttemptCount) &&
      row.watchdogDeadlineAt < now + maxAge * 500000 then
    { row with watchdogDeadlineAt := after now maxAge }
  else row

end Statements

/-! ## Steps -/

/-- One step of a writer, a caller or a sweep. -/
inductive DeliveryLabel where
  | write (w : Writer)
  /-- `deliver_agent_task` is called for the row, as it is. -/
  | deliver (ephemeralPayload : Bool)
  | persist (i : Nat) (ackCapable : Bool) (now : Time)
  /-- Look up the payload, which may raise, and the route. -/
  | route (i : Nat) (payloadError : Option String) (state : RouteState)
  | claim (i : Nat) (now : Time)
  | send (i : Nat) (reached : Bool) (error : Option String)
  /-- The `UPDATE` after a legacy command. -/
  | dispatched (i : Nat) (now : Time)
  /-- A statement of the error handling. -/
  | recover (i : Nat)
  /-- A caller dies. -/
  | drop (i : Nat)
  | sweep (now : Time)
  | sweepPersist (j : Nat) (ackCapable : Bool) (now : Time)
  | sweepDecide (j : Nat) (state : RouteState) (unstable : Bool)
  | recoveryHold (now : Time)
  | sweepDrop (j : Nat)

section Steps

variable (conf : Settings)

section

variable (s : DeliveryState)

/-- The row changes, and the history notes an acceptance or a terminal state. -/
def DeliveryState.setRow (row : NodeTask) : DeliveryState :=
  { s with row := row, decided := s.decided || !row.isUnaccepted }

def DeliveryState.setDelivery (i : Nat) (d : Delivery) : DeliveryState :=
  { s with deliveries := s.deliveries.set i d }

def DeliveryState.endDelivery (i : Nat) : DeliveryState :=
  { s with deliveries := s.deliveries.eraseIdx i }

def DeliveryState.endSweep (j : Nat) : DeliveryState :=
  { s with sweeps := s.sweeps.eraseIdx j }

/-- A call begins with its copy of the row. -/
def DeliveryState.beginDelivery (held : NodeTask) (allow ephemeral : Bool) :
    DeliveryState :=
  if held.isUnaccepted then
    let d : Delivery :=
      { held := held
        allowAckRedelivery := allow
        ephemeralPayload := ephemeral
        stage := .persisting }
    { s with deliveries := d :: s.deliveries }
  else s

/-- `_persist_delivery_protocol` and the two checks after it. -/
def DeliveryState.persist (i : Nat) (ackCapable : Bool) (now : Time) :
    Option DeliveryState :=
  match s.deliveries[i]? with
  | some d =>
    if d.stage ≠ .persisting then none
    else if !d.held.isAckDurable then
      some (s.setDelivery i { d with stage := .routing false })
    else if !s.row.isUnaccepted then some (s.endDelivery i)
    else
      let (protocol, row) := persistProtocol conf s.row ackCapable now
      let s' : DeliveryState := { s with row := row, selections := protocol :: s.selections }
      if protocol = .ack ∧ 0 < row.deliveryAttemptCount ∧ d.allowAckRedelivery = false then
        some (s'.endDelivery i)
      else
        some (s'.setDelivery i { d with
          held := refreshProtocol d.held row
          stage := .routing (protocol = .ack) })
  | none => none

def DeliveryState.route (i : Nat) (payloadError : Option String)
    (state : RouteState) : Option DeliveryState :=
  match s.deliveries[i]? with
  | some d =>
    match d.stage with
    | .routing usesAck =>
      let next : DeliveryStage :=
        match payloadError, state with
        | some reason, _ => .failing usesAck reason
        | none, .reconnecting =>
          if d.ephemeralPayload then
            .failingForGood
              "agent websocket is reconnecting; retry the credential-bearing task"
          else .refreshing
        | none, .offline => .failing usesAck "agent websocket is not routable"
        | none, .online => if usesAck then .claiming else .sending none
      some (s.setDelivery i { d with stage := next })
    | _ => none
  | none => none

def DeliveryState.claim (i : Nat) (now : Time) : Option DeliveryState :=
  match s.deliveries[i]? with
  | some d =>
    if d.stage ≠ .claiming then none
    else
      let (row, claimed) :=
        claimAttempt s.row d.held.deliveryAttemptCount d.held.dispatchedAt now
      if claimed then
        let c : Claim := { attempt := row.deliveryAttemptCount, decided := s.decided }
        some (({ s with row := row } : DeliveryState).setDelivery i
          { d with stage := .sending (some c) })
      else some (s.endDelivery i)
  | none => none

def DeliveryState.send (i : Nat) (reached : Bool) (error : Option String) :
    Option DeliveryState :=
  match s.deliveries[i]? with
  | some d =>
    match d.stage with
    | .sending c =>
      let s' := if reached then { s with sent := ⟨c⟩ :: s.sent } else s
      match error with
      | some reason => some (s'.setDelivery i { d with stage := .failing c.isSome reason })
      | none =>
        if c.isSome then some (s'.endDelivery i)
        else some (s'.setDelivery i { d with stage := .dispatched })
    | _ => none
  | none => none

end

/-- A legacy command makes the row running. -/
def DeliveryState.dispatched (s : DeliveryState) (i : Nat) (now : Time) : Option DeliveryState :=
  match s.deliveries[i]? with
  | some d =>
    if d.stage ≠ .dispatched then none
    else some ((s.setRow (markDispatched conf s.row d.held now)).endDelivery i)
  | none => none

def DeliveryState.recover (s : DeliveryState) (i : Nat) : Option DeliveryState :=
  match s.deliveries[i]? with
  | some d =>
    match d.stage with
    | .failing true reason =>
      let row := noteDeliveryError s.row d.held (deliveryDiagnosticErrorCode reason) reason
      some ((s.setRow row).endDelivery i)
    | .failing false reason | .failingForGood reason =>
      some ((s.setRow (failTaskDelivery s.row d.held.result reason)).endDelivery i)
    | .refreshing =>
      if s.row.status = .pending then
        some (s.setDelivery i { d with held := s.row, stage := .marking })
      else some (s.endDelivery i)
    | .marking =>
      let row := noteDeliveryError s.row d.held "AGENT_CONNECTION_UNSTABLE"
        "agent websocket is reconnecting"
      some ((s.setRow row).endDelivery i)
    | _ => none
  | none => none

/-- `_persist_delivery_protocol` of a sweep. -/
def DeliveryState.sweepPersist (s : DeliveryState) (j : Nat) (ackCapable : Bool) (now : Time) :
    Option DeliveryState :=
  match s.sweeps[j]? with
  | some w =>
    if w.persisted then none
    else if !s.row.isUnaccepted then some (s.endSweep j)
    else
      let (protocol, row) := persistProtocol conf s.row ackCapable now
      let s' : DeliveryState := { s with row := row, selections := protocol :: s.selections }
      if protocol = .ack then
        some { s' with
          sweeps := s.sweeps.set j { w with
            held := refreshProtocol w.held row
            persisted := true } }
      else some (s'.endSweep j)
  | none => none

/-- The loop body of `reconcile_unaccepted_agent_tasks` after the protocol. -/
def DeliveryState.sweepDecide (s : DeliveryState) (j : Nat) (state : RouteState)
    (unstable : Bool) : Option DeliveryState :=
  match s.sweeps[j]? with
  | some w =>
    let sinceDelivery := w.now - w.held.lastDeliveryAt.getD w.held.createdAt
    if !w.persisted then none
    else if w.held.watchdogDeadlineAt ≤ w.now then
      let (code, message) :=
        if state = .online then
          ("AGENT_ACK_TIMEOUT", "Agent did not durably accept task.command")
        else if unstable then
          ("AGENT_CONNECTION_UNSTABLE", "Agent connection remained unstable during delivery")
        else ("AGENT_UNAVAILABLE", "Agent remained unavailable during delivery")
      some ((s.setRow (timeoutUnacceptedTask s.row code message)).endSweep j)
    else if state ≠ .online ∨ sinceDelivery < max 1 conf.taskCommandAckTimeout * 1000000 then
      some (s.endSweep j)
    else if maxAttempts conf ≤ w.held.deliveryAttemptCount then
      some ((s.setRow (timeoutUnacceptedTask s.row "AGENT_ACK_TIMEOUT"
        "Agent did not durably accept task.command")).endSweep j)
    else some ((s.endSweep j).beginDelivery w.held true false)
  | none => none

def DeliveryState.step (s : DeliveryState) : DeliveryLabel → Option DeliveryState
  | .write w => (s.row.write conf w).map s.setRow
  | .deliver ephemeral => some (s.beginDelivery s.row false ephemeral)
  | .persist i ackCapable now => s.persist conf i ackCapable now
  | .route i payloadError state => s.route i payloadError state
  | .claim i now => s.claim i now
  | .send i reached error => s.send i reached error
  | .dispatched i now => s.dispatched conf i now
  | .recover i => s.recover i
  | .drop i => some (s.endDelivery i)
  | .sweep now =>
    if isSweepCandidate s.row then
      some { s with sweeps := { held := s.row, now := now, persisted := false } :: s.sweeps }
    else some s
  | .sweepPersist j ackCapable now => s.sweepPersist conf j ackCapable now
  | .sweepDecide j state unstable => s.sweepDecide conf j state unstable
  | .recoveryHold now => some (s.setRow (refreshHeldDeadline conf s.row now))
  | .sweepDrop j => some (s.endSweep j)

/-- The delivery of a row that was just created. -/
def deliverySystem : Transition.System DeliveryState DeliveryLabel where
  init := fun s => s.row.Created ∧ s.deliveries = [] ∧ s.sweeps = [] ∧ s.selections = [] ∧
    s.decided = false ∧ s.sent = []
  step := DeliveryState.step conf

end Steps

end HyperFileLens.Node
