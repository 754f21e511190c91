import HyperFileLens.Library.Pool
import HyperFileLens.Library.Table
import HyperFileLens.Library.Text

/-!
# Alert records

The table `alert_records` and what fires and resolves its records: `fire_alert`,
`resolve_alert` and the evaluation of metric and health policies.

*Requests.*  Every query is a transaction of its own, and any number of operations make
theirs in any order.

*Verdicts.*  What the samples of a resource say is an argument of an evaluation.
Notifications, and the texts and values of a record, are left out.
-/

namespace HyperFileLens.Alert

open Service

/-! ## Rows -/

inductive AlertStatus where
  | pending
  | firing
  | acknowledged
  | resolved
deriving DecidableEq, Repr

/-- The statuses that `fire_alert` looks for. -/
def AlertStatus.isOpen : AlertStatus → Bool
  | .pending | .firing | .acknowledged => true
  | .resolved => false

inductive AlertType where
  | metric
  | health
  | task
  | event
deriving DecidableEq, Repr

/-- `ResourceScope`. -/
inductive OwnerScope where
  | organization
  | platform
deriving DecidableEq, Repr

/-- `AlertPolicy`, with the keys of its rules that are read. -/
structure AlertPolicy where
  id : String
  ownerScope : OwnerScope := .organization
  organizationId : Option String
  type : AlertType
  resourceType : String
  /-- `trigger_rule["metric_key"]`, empty where it is missing. -/
  metricKey : String := ""
  /-- `trigger_rule["check_type"]`, empty where it is missing. -/
  checkType : String := ""
  /-- `recovery_rule.get("enabled") is not False`. -/
  recovers : Bool := true
deriving DecidableEq, Repr

structure AlertRecord where
  id : Nat
  ownerScope : OwnerScope
  organizationId : Option String
  policyId : String
  type : AlertType
  resourceType : String
  resourceId : String
  fingerprint : String
  status : AlertStatus
  lastTriggeredAt : Int
  createdAt : Int
  resolvedAt : Option Int := none
deriving DecidableEq, Repr

/-- `or` of two strings. -/
def orText (s default : String) : String := if s = "" then default else s

def buildFingerprint (policy : AlertPolicy) (resourceId : Option String) (alertKey : String) :
    String :=
  "|".intercalate
    [policy.id, policy.organizationId.getD "None", resourceId.getD "", orText alertKey "default"]

/-! ## Requests -/

inductive AlertReq where
  | firstOpen (ownerScope : OwnerScope) (organizationId : Option String) (fingerprint : String)
  | firstOpenOf (policy : AlertPolicy) (resourceId fingerprint : String)
  | openHealth (policy : AlertPolicy) (resourceId : String) (fingerprints : List String)
  | save (alert : AlertRecord)
  | create (alert : AlertRecord)
  | resolve (id : Nat) (resolvedAt : Int)
  | refresh (id : Nat)

abbrev AlertAns : AlertReq → Type
  | .firstOpen .. => Option AlertRecord
  | .firstOpenOf .. => Option AlertRecord
  | .openHealth .. => List AlertRecord
  | .save _ => Bool
  | .create _ => AlertRecord
  | .resolve .. => Bool
  | .refresh _ => Option AlertRecord

inductive AlertError where
  | doesNotExist
  | databaseError
deriving DecidableEq, Repr

def newId (rows : List AlertRecord) : Nat := Table.fresh (rows.map AlertRecord.id)

/-- The order of the table: the last trigger first, then the last creation. -/
def AlertRecord.comesBefore (r r' : AlertRecord) : Bool :=
  r'.lastTriggeredAt < r.lastTriggeredAt ||
    (r'.lastTriggeredAt = r.lastTriggeredAt && r'.createdAt < r.createdAt)

/-- `first` in the order of the table. -/
def first (rows : List AlertRecord) : Option AlertRecord :=
  rows.foldl (fun best r => if best.any (!r.comesBefore ·) then best else some r) none

/-- The columns that `fire_alert` saves. -/
def AlertRecord.saved (alert row : AlertRecord) : AlertRecord :=
  { row with status := alert.status, lastTriggeredAt := alert.lastTriggeredAt }

/-- The database. The choice is the time of the query. -/
def respond (rows : List AlertRecord) : (r : AlertReq) → Int → AlertAns r × List AlertRecord
  | .firstOpen ownerScope organizationId fingerprint, _ =>
    (first (rows.filter fun r => r.ownerScope = ownerScope && r.organizationId = organizationId &&
      r.fingerprint = fingerprint && r.status.isOpen), rows)
  | .firstOpenOf policy resourceId fingerprint, _ =>
    (first (rows.filter fun r => r.organizationId = policy.organizationId &&
      r.policyId = policy.id && r.type = policy.type && r.resourceType = policy.resourceType &&
      r.resourceId = resourceId && r.fingerprint = fingerprint && r.status.isOpen), rows)
  | .openHealth policy resourceId fingerprints, _ =>
    (rows.filter fun r => r.organizationId = policy.organizationId && r.policyId = policy.id &&
      r.type = .health && r.resourceType = policy.resourceType && r.resourceId = resourceId &&
      fingerprints.contains r.fingerprint && r.status.isOpen, rows)
  | .save alert, _ =>
    (rows.any fun r => r.id = alert.id, Table.update AlertRecord.id rows alert.id alert.saved)
  | .create alert, now =>
    let row := { alert with id := newId rows, createdAt := now }
    (row, row :: rows)
  | .resolve id resolvedAt, _ =>
    (rows.any fun r => r.id = id && r.status.isOpen,
      Table.update AlertRecord.id rows id fun r =>
        if r.status.isOpen = true then { r with status := .resolved, resolvedAt := some resolvedAt }
        else r)
  | .refresh id, _ => (Table.find AlertRecord.id rows id, rows)

def database : Server (List AlertRecord) AlertReq AlertAns Int where
  respond := respond

/-! ## Operations -/

abbrev AlertProg (α : Type) := Prog AlertReq AlertAns AlertError α

abbrev query (r : AlertReq) : AlertProg (AlertAns r) := Prog.request r

def refreshFromDb (id : Nat) : AlertProg AlertRecord := do
  let found : Option AlertRecord ← query (.refresh id)
  match found with
  | some alert => return alert
  | none => .fail .doesNotExist

def fireAlert (policy : AlertPolicy) (resourceId : Option String) (alertKey : String) (now : Int) :
    AlertProg AlertRecord := do
  let fingerprint := buildFingerprint policy resourceId alertKey
  let alert : Option AlertRecord ←
    query (.firstOpen policy.ownerScope policy.organizationId fingerprint)
  match alert with
  | some alert =>
    let alert := { alert with status := .firing, lastTriggeredAt := now }
    let saved : Bool ← query (.save alert)
    if saved then return alert else .fail .databaseError
  | none => query (.create {
      id := 0
      ownerScope := policy.ownerScope
      organizationId := policy.organizationId
      policyId := policy.id
      type := policy.type
      resourceType := policy.resourceType
      resourceId := resourceId.getD ""
      fingerprint := fingerprint
      status := .firing
      lastTriggeredAt := now
      createdAt := now })

def resolveAlert (alert : AlertRecord) (resolvedAt : Int) : AlertProg AlertRecord := do
  let updated : Bool ← query (.resolve alert.id resolvedAt)
  if updated then return { alert with status := .resolved, resolvedAt := some resolvedAt }
  else refreshFromDb alert.id

/-- What the samples of a resource say: its condition holds, or it has recovered, or
neither. -/
inductive Verdict where
  | holds
  | recovered
  | neither
deriving DecidableEq

structure Evaluated where
  resourceId : String
  verdict : Verdict
  now : Int
deriving DecidableEq

def maybeResolveMetric (policy : AlertPolicy) (resourceId : String) (now : Int) :
    AlertProg Unit := do
  let metricKey := orText policy.metricKey "default"
  let fingerprint := buildFingerprint policy (some resourceId) metricKey
  let alert : Option AlertRecord ← query (.firstOpenOf policy resourceId fingerprint)
  match alert with
  | some alert => discard (resolveAlert alert now)
  | none => return ()

def evaluateMetricPolicy (policy : AlertPolicy) (resources : List Evaluated) : AlertProg Unit := do
  let metricKey := Text.strip policy.metricKey
  if metricKey = "" then
    return ()
  resources.forM fun resource => do
    match resource.verdict with
    | .holds => discard (fireAlert policy (some resource.resourceId) metricKey resource.now)
    | .recovered => maybeResolveMetric policy resource.resourceId resource.now
    | .neither => return ()

def resolveHealthAlerts (policy : AlertPolicy) (resourceId checkType : String) (now : Int) :
    AlertProg Unit := do
  let fingerprints := [buildFingerprint policy (some resourceId) checkType,
    buildFingerprint policy (some resourceId) "default"]
  let alerts : List AlertRecord ← query (.openHealth policy resourceId fingerprints)
  alerts.forM fun alert => discard (resolveAlert alert now)

def evaluateHealthPolicy (policy : AlertPolicy) (resources : List Evaluated) : AlertProg Unit := do
  let checkType := orText policy.checkType "heartbeat"
  if checkType ≠ "heartbeat" then
    return ()
  resources.forM fun resource => do
    match resource.verdict with
    | .holds => discard (fireAlert policy (some resource.resourceId) checkType resource.now)
    | .recovered =>
      if policy.recovers then resolveHealthAlerts policy resource.resourceId checkType resource.now
      else return ()
    | .neither => return ()

inductive AlertJob where
  | fire (policy : AlertPolicy) (resourceId : Option String) (alertKey : String) (now : Int)
  | resolve (alert : AlertRecord) (now : Int)
  | evaluateMetric (policy : AlertPolicy) (resources : List Evaluated)
  | evaluateHealth (policy : AlertPolicy) (resources : List Evaluated)

def AlertJob.body : AlertJob → AlertProg Unit
  | .fire policy resourceId alertKey now => discard (fireAlert policy resourceId alertKey now)
  | .resolve alert now => discard (resolveAlert alert now)
  | .evaluateMetric policy resources => evaluateMetricPolicy policy resources
  | .evaluateHealth policy resources => evaluateHealthPolicy policy resources

abbrev Alerts := Pool (List AlertRecord) AlertReq AlertAns AlertError Unit AlertJob

abbrev AlertEvent := PoolEvent AlertJob Int Unit

def alerts (rows : List AlertRecord) : Transition.System Alerts AlertEvent :=
  poolSystem database AlertJob.body (fun rows _ => rows) rows

end HyperFileLens.Alert
