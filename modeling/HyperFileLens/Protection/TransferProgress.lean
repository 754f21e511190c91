import HyperFileLens.Library.PyFloat

/-!
# Progress of the transfer step

`enrich_step3_backup_transfer` puts the progress of a backup's transfer together from what the lanes
report and from what it said before. What it says is what it is given as `previous` in the next
call.

*Counters.*  A counter is the largest of what is reported and what was said: an agent that connects
again may report zeros for a while.

*Totals.*  From the second schema version on the total is an estimate of the data, and a reference
from the size of the directories only while there is none. Below it the reference is the total
until the estimate has been stable for a while, which latches a switch.

*Percentages.*  Below the second schema version the displayed percentage is kept where the one of
the bytes is smaller. In any version it stays below 100 until the backup is done.
-/

namespace HyperFileLens.Protection.TransferProgress

/-! ## Values -/

/-- `_int`. -/
def int0 (v : Json) : Int := max 0 (v.pyInt.getD 0)

/-- `a or b`. -/
def pyOr (a b : Json) : Json := if a.truthy then a else b

/-- How times are written and read, in microseconds. `parse` reads a text with a trailing `Z` for
the offset, and takes a time without an offset as one of the current time zone. -/
structure Clock where
  isoformat : Int → String
  parse : String → Option Int

/-! ## Estimates that are stable -/

structure Sample where
  stamp : String
  estimated : Int

def Sample.toJson (s : Sample) : Json :=
  .obj [("at", .str s.stamp), ("estimated_bytes", .int s.estimated)]

def parseSample (item : Json) : Option Sample :=
  match item with
  | .obj fields =>
    let stamp := Text.strip (Dict.get fields "at").strOr
    let estimated := int0 (Dict.get fields "estimated_bytes")
    if stamp = "" ∨ estimated ≤ 0 then none else some ⟨stamp, estimated⟩
  | _ => none

def parseHistory (raw : Json) : List Sample :=
  match raw with
  | .arr items => items.filterMap parseSample
  | _ => []

def Sample.since (clock : Clock) (start : Int) (s : Sample) : Bool :=
  (clock.parse s.stamp).any fun t => decide (start ≤ t)

def historyMicroseconds : Int := 600000000

def appendEstimatedSample (clock : Clock) (history : List Sample) (estimated now : Int) :
    List Sample :=
  if estimated ≤ 0 then history
  else if history.getLast?.any fun s => decide (s.estimated = estimated) then history
  else
    let updated := history ++ [⟨clock.isoformat now, estimated⟩]
    let pruned := updated.filter (Sample.since clock (now - historyMicroseconds))
    pruned.drop (pruned.length - 60)

/-- `stability_window_params`: a number of seconds and of samples. -/
def stabilityWindowParams (estimated : Int) : Int × Nat :=
  let tiers : List (Int × Int × Nat) :=
    [(500 * 1024 * 1024, 45, 6), (50 * 1024 * 1024 * 1024, 120, 15)]
  tiers.foldl (fun found tier => if estimated ≥ tier.1 then tier.2 else found) (90, 12)

/-- No value is far from the one before. -/
def adjacent (F : FloatFormat) : List Int → Except String Bool
  | prev :: curr :: rest => do
      let ratio ← if prev > 0 then F.intDivide |curr - prev| prev else .ok 0
      if F.literal (3 / 100) < ratio then .ok false else adjacent F (curr :: rest)
  | _ => .ok true

def stableValues (F : FloatFormat) (values : List Int) (estimated : Int) : Except String Bool := do
  if values.any (· ≤ 0) then .ok false
  else if (values.zip values.tail).any fun p => decide (p.2 < p.1) then .ok false
  else if !(← adjacent F values) then .ok false
  else
    let oldest := values.headD 0
    let newest := values.getLastD 0
    let jump ← if oldest > 0 then F.intDivide (newest - oldest) oldest else .ok 0
    if F.literal (1 / 10) < jump then .ok false else .ok (decide (newest = estimated))

def estimatedIsStable (F : FloatFormat) (clock : Clock) (history : List Sample)
    (estimated now : Int) : Except String Bool :=
  if estimated ≤ 0 ∨ history.length < 2 then .ok false
  else
    let (windowSeconds, minSamples) := stabilityWindowParams estimated
    let window := history.filter (Sample.since clock (now - windowSeconds * 1000000))
    if window.length < minSamples then .ok false
    else stableValues F (window.map Sample.estimated) estimated

def shouldLatchKopiaSwitch (F : FloatFormat) (clock : Clock) (uploaded estimated : Int)
    (history : List Sample) (now : Int) : Except String Bool :=
  if uploaded ≤ 0 ∨ estimated ≤ 0 then .ok false
  else do
    let x ← F.ofInt uploaded
    let bound ← (F.rounded (x * F.literal (105 / 100))).toInt
    if estimated < bound then .ok false else estimatedIsStable F clock history estimated now

/-! ## The counters -/

structure Counters where
  schema : Int
  processed : Int
  uploaded : Int
  uploadedCount : Int
  hashedCount : Int
  estimated : Int
  deriving DecidableEq

def largest (ds : List Dict) (keys : List String) : Int :=
  (ds.flatMap fun d => keys.map fun key => int0 (d.get key)).foldl max 0

def readCounters (aggregate merged prev : Dict) : Counters :=
  let sources := [aggregate, merged, prev]
  let schema := max (largest sources ["progress_schema_version"]) 1
  let uploaded := largest sources ["uploaded_bytes"]
  let processed := largest sources ["processed_bytes", "bytes_done"]
  { schema, uploaded
    processed := if schema < 2 then max processed uploaded else processed
    uploadedCount := largest sources ["uploaded_count"]
    hashedCount := largest sources ["hashed_count"]
    estimated := largest sources ["estimated_bytes"] }

/-! ## The total -/

structure Total where
  effective : Int
  source : String
  adjusted : Bool
  estimated : Bool
  latched : Bool
  locked : Int
  deriving DecidableEq

def safeProgressTotal (bytesDone candidate : Int) : Int :=
  if candidate ≤ 0 ∨ bytesDone ≤ candidate then candidate
  else max candidate (max ((bytesDone * 100 + 98) / 99) (bytesDone + 1))

/-- The size of the directories, which stays what it was first. -/
def frozenDuTotal (prev : Dict) (duTotal : Int) : Int :=
  if int0 (prev.get "du_total") ≤ 0 then duTotal else int0 (prev.get "du_total")

def reportedTotal (c : Counters) (aggregate : Dict) : Int :=
  if (aggregate.get "bytes_total_known").truthy then int0 (aggregate.get "bytes_total")
  else c.estimated

def previousTotal (prev : Dict) : Int :=
  max (int0 (prev.get "bytes_total")) (int0 (prev.get "kopia_total_locked"))

def previousKopiaTotal (prev : Dict) : Int :=
  if Text.lower (prev.get "bytes_total_source").strOr = "kopia" ∧
      ¬ (prev.get "bytes_total_adjusted").truthy then previousTotal prev
  else 0

def candidateTotal (c : Counters) (aggregate prev : Dict) (duTotal : Int) : Int :=
  if reportedTotal c aggregate > 0 then max (reportedTotal c aggregate) (previousKopiaTotal prev)
  else max (max 0 duTotal) (previousTotal prev)

/-- The total from the second schema version on. -/
def kopiaTotal (c : Counters) (aggregate prev : Dict) (duTotal : Int) : Total :=
  let candidate := candidateTotal c aggregate prev duTotal
  let source :=
    if reportedTotal c aggregate > 0 then "kopia"
    else if candidate > 0 then "du_reference"
    else ""
  let effective := safeProgressTotal c.processed candidate
  { effective, source
    adjusted := decide (effective > candidate)
    estimated := decide (source ≠ "kopia") || !(aggregate.get "bytes_total_known").truthy
    latched := decide (effective > 0)
    locked := effective }

def latchesNow (F : FloatFormat) (clock : Clock) (c : Counters) (prev : Dict)
    (history : List Sample) (now : Int) : Except String Bool :=
  if (prev.get "switch_latched").truthy then .ok false
  else shouldLatchKopiaSwitch F clock c.uploaded c.estimated history now

/-- The total below it: the estimate once the switch is latched, and the size of the directories
before. -/
def switchTotal (c : Counters) (aggregate prev : Dict) (duTotal : Int) (latches : Bool) : Total :=
  let latched := (prev.get "switch_latched").truthy || latches
  let locked := if latches then c.estimated else int0 (prev.get "kopia_total_locked")
  if latched then
    let estimate := if c.estimated > 0 then c.estimated else locked
    let effective :=
      if !(aggregate.get "bytes_total_known").truthy && decide (locked > 0) then locked else estimate
    { effective, source := "", adjusted := false, estimated := false, latched, locked }
  else
    let frozen := frozenDuTotal prev duTotal
    { effective := frozen
      source := ""
      adjusted := false
      estimated := decide (frozen > 0)
      latched
      locked }

def settleTotal (F : FloatFormat) (clock : Clock) (c : Counters) (aggregate prev : Dict)
    (history : List Sample) (duTotal now : Int) : Except String Total :=
  if 2 ≤ c.schema then .ok (kopiaTotal c aggregate prev duTotal)
  else do
    let latches ← latchesNow F clock c prev history now
    .ok (switchTotal c aggregate prev duTotal latches)

/-! ## The displayed percentage -/

/-- `compute_step3_display_percent`. -/
def computeDisplayPercent (F : FloatFormat) (bytesDone effectiveTotal : Int)
    (previous : Option PyFloat) : Except String (Option PyFloat) :=
  if effectiveTotal ≤ 0 then .ok previous
  else do
    let raw ← F.percentOf bytesDone effectiveTotal
    .ok (if previous.any (PyFloat.isAbove raw) then previous else some (.finite (F.round2 raw)))

/-- The percentage that was displayed, below the second schema version. -/
def previousDisplay (F : FloatFormat) (schema : Int) (prev : Dict) :
    Except String (Option PyFloat) := do
  if schema < 2 then
    match ← F.progressNumber (prev.get "step3_display_percent") with
    | some p => .ok (some p)
    | none => F.progressNumber (prev.get "display_percent")
  else .ok none

def donePhases : List String := ["done", "success", "completed"]

def phaseOf (d : Dict) : String := Text.lower (d.get "phase").strOr

def isDonePhase (d : Dict) : Bool := phaseOf d ∈ donePhases

def uncappedDisplay (F : FloatFormat) (schema processed effective : Int) (prev : Dict) :
    Except String (Option PyFloat) := do
  if 2 ≤ schema ∧ effective ≤ 0 then .ok none
  else
    let previous ← previousDisplay F schema prev
    computeDisplayPercent F processed effective previous

/-- A percentage below 100 until the backup is done. -/
def capDisplay (transfer : Dict) (display : Option PyFloat) : Option PyFloat :=
  if ¬ isDonePhase transfer ∧ display.any PyFloat.isComplete then some (.finite 99) else display

/-! ## Speeds -/

/-- `_MIN_STEP3_SPEED_BPS`. -/
def minSpeed : Int := 100

def firstSpeed (speeds : List Int) : Int := (speeds.find? fun speed => decide (speed ≥ minSpeed)).getD 0

/-- `_step3_upload_speed_bps`. -/
def uploadSpeed (merged aggregate : Dict) : Int :=
  firstSpeed [int0 (aggregate.get "upload_speed_bps"), int0 (merged.get "upload_speed_bps")]

/-- `_step3_processing_speed_bps`. -/
def processingSpeed (merged aggregate : Dict) : Int :=
  firstSpeed
    [int0 (pyOr (aggregate.get "processing_speed_bps") (aggregate.get "hash_speed_bps")),
      int0 (pyOr (merged.get "processing_speed_bps") (merged.get "hash_speed_bps"))]

/-- `compute_step3_eta_seconds`. -/
def computeEtaSeconds (F : FloatFormat) (bytesDone bytesTotal speed : Int) :
    Except String (Option Int) :=
  if bytesTotal ≤ 0 ∨ speed < minSpeed then .ok none
  else if bytesTotal - bytesDone ≤ 0 then .ok (some 0)
  else do
    let seconds ← F.intDivide (bytesTotal - bytesDone) speed
    let seconds ← (PyFloat.finite seconds).toInt
    .ok (some (max 1 seconds))

def setEta (merged : Dict) (eta : Option Int) : Dict :=
  match eta with
  | some seconds => (merged.set "eta_seconds" (.int seconds)).set "eta_source" (.str "step3")
  | none => (merged.set "eta_seconds" .null).set "eta_source" .null

def setUploadSpeed (merged aggregate : Dict) (speed : Int) : Dict :=
  if speed > 0 then
    let merged := (merged.set "upload_speed_bps" (.int speed)).set "speed_bps" (.int speed)
    merged.set "speed_source"
      (pyOr (pyOr (merged.get "upload_speed_source") (aggregate.get "speed_source")) (.str "step3"))
  else merged

/-- The speed that the remaining time is computed from. -/
def etaSpeed (merged aggregate : Dict) (upload : Int) (forUpload : Bool) : Int :=
  if forUpload then upload else processingSpeed merged aggregate

/-- `apply_step3_row3_metrics`. -/
def applyRowMetrics (F : FloatFormat) (merged aggregate : Dict) (bytesDone effectiveTotal : Int)
    (forUpload : Bool) : Except String Dict :=
  if phaseOf merged ≠ "transferring" then
    .ok (if phaseOf merged = "finalizing" then setEta merged none else merged)
  else
    let upload := uploadSpeed merged aggregate
    let merged := setUploadSpeed merged aggregate upload
    let speed := etaSpeed merged aggregate upload forUpload
    if effectiveTotal ≤ 0 ∨ ¬ (merged.get "bytes_total_known").truthy ∨ bytesDone ≤ 0 ∨
        speed < minSpeed then .ok (setEta merged none)
    else do
      let eta ← computeEtaSeconds F bytesDone effectiveTotal speed
      .ok (setEta merged eta)

/-! ## The call -/

def setTotal (merged : Dict) (t : Total) : Dict :=
  if t.effective > 0 then
    ((((merged.set "bytes_total" (.int t.effective)).set "bytes_total_known" (.bool true)).set
      "bytes_total_reference" (.bool (decide (t.source = "du_reference") || t.adjusted))).set
      "bytes_total_source" (.str (if t.source = "" then "unknown" else t.source))).set
      "bytes_total_adjusted" (.bool t.adjusted)
  else
    ((((merged.pop "bytes_total").set "bytes_total_known" (.bool false)).set
      "bytes_total_reference" (.bool false)).pop "bytes_total_source").pop "bytes_total_adjusted"

def setCounters (merged : Dict) (c : Counters) (duTotal : Int) (history : List Sample) : Dict :=
  (((((merged.set "uploaded_bytes" (.int c.uploaded)).set "uploaded_count" (.int c.uploadedCount)).set
    "hashed_count" (.int c.hashedCount)).set "estimated_bytes" (.int c.estimated)).set "du_total"
    (.int duTotal)).set "estimated_history" (.arr (history.map Sample.toJson))

def setProgress (merged : Dict) (c : Counters) (t : Total) : Dict :=
  (((((merged.set "bytes_total_estimated" (.bool t.estimated)).set "switch_latched"
    (.bool t.latched)).set "kopia_total_locked" (.int t.locked)).set "progress_schema_version"
    (.int c.schema)).set "processed_bytes" (.int c.processed)).set "bytes_done" (.int c.processed)

def setDisplay (merged : Dict) (schema effective : Int) (display : Option PyFloat) : Dict :=
  let merged := if 2 ≤ schema ∧ effective ≤ 0 then merged.pop "step3_display_percent" else merged
  match display with
  | some p => merged.set "step3_display_percent" p.toJson
  | none => merged

def setShowMetrics (merged : Dict) (processed effective : Int) : Dict :=
  if phaseOf merged = "transferring" then
    merged.set "show_metrics" (.bool (decide (processed > 0) ||
      (merged.get "upload_speed_bps").truthy || (merged.get "eta_seconds").truthy ||
      decide (effective > 0)))
  else merged

structure Input where
  transfer : Dict
  aggregate : Dict
  duTotal : Int
  now : Int

section Enrich

variable (F : FloatFormat) (clock : Clock)

def historyAfter (prev : Dict) (estimated now : Int) : List Sample :=
  let history := parseHistory (prev.get "estimated_history")
  if estimated > 0 then appendEstimatedSample clock history estimated now else history

def measured (prev : Dict) (input : Input) : Except String (Counters × Total) := do
  let c := readCounters input.aggregate input.transfer prev
  let t ← settleTotal F clock c input.aggregate prev (historyAfter clock prev c.estimated input.now)
    input.duTotal input.now
  .ok (c, t)

/-- `enrich_step3_backup_transfer`. -/
def enrichBackupTransfer (previous : Option Dict) (input : Input) : Except String Dict := do
  let prev := previous.getD []
  let (c, t) ← measured F clock prev input
  let merged := setCounters input.transfer c (frozenDuTotal prev input.duTotal)
    (historyAfter clock prev c.estimated input.now)
  let merged := setTotal (setProgress merged c t) t
  let display ← uncappedDisplay F c.schema c.processed t.effective prev
  let merged := setDisplay merged c.schema t.effective (capDisplay input.transfer display)
  let merged ← applyRowMetrics F merged input.aggregate c.processed
    (if t.effective > 0 then t.effective else 0) false
  .ok (setShowMetrics merged c.processed t.effective)

end Enrich

end HyperFileLens.Protection.TransferProgress
