import HyperFileLens.Library.PyFloat

/-!
# Progress of a lane

`normalize_lane_progress` makes of the last progress payload of a lane what the progress of a task
is put together from: how much is done, of which total if one is known, and a percentage.

*Totals.*  A payload may state a total, an estimate, the largest total so far and a reference from
the size of the directories. `settleTotal` takes one of them, or none when what is stated cannot
be. Below the second schema version the reference replaces an estimate that is too large, and
stands in where no total is left.

*Counters.*  A counter that is no number counts as nothing. A counter that is an infinity or
`nan` is an error.
-/

namespace HyperFileLens.Protection.LaneProgress

/-! ## Reading a payload -/

def orchestrationPhases : List String :=
  ["orchestration", "repository_prepare", "repository_ready", "snapshot_start", "started"]

def activeLaneStatuses : List String := ["pending", "dispatching", "running", "creating"]

def isActive (status : String) : Bool := status ∈ activeLaneStatuses

/-- `a or b`. -/
def pyOr (a b : Json) : Json := if a.truthy then a else b

/-- `str(value or "").strip() or None`. -/
def stripped (v : Json) : Option String :=
  let text := Text.strip v.strOr
  if text = "" then none else some text

section Read

variable (F : FloatFormat) (progress : Dict)

/-- `progress_int(progress.get(key))`. -/
def counter (key : String) : Except String Int := F.progressInt (progress.get key)

def optionalProgressInt (key : String) : Except String (Option Int) :=
  if progress.get key = .null ∨ progress.get key = .str "" then .ok none
  else do
    let n ← counter F progress key
    .ok (some n)

/-- `progress_int(progress.get(key)) or None`. -/
def positive (key : String) : Except String (Option Int) := do
  let n ← counter F progress key
  .ok (if n = 0 then none else some n)

/-- `progress_int(progress.get(key)) or progress_int(progress.get(other))`. -/
def counterOr (key other : String) : Except String Int := do
  let n ← counter F progress key
  if n = 0 then counter F progress other else .ok n

/-- `is_orchestration_progress` of a payload that is not empty. -/
def isOrchestrationProgress : Bool :=
  decide (Text.lower (Text.strip (progress.get "phase").strOr) = "orchestration") ||
    decide (Text.lower (Text.strip
      (pyOr (progress.get "kopia_phase") (progress.get "orchestration_phase")).strOr) ∈
        orchestrationPhases)

/-- `str(progress.get("kopia_phase") or "").lower()`. -/
def kopiaPhase : String := Text.lower (progress.get "kopia_phase").strOr

def isRestoreLane : Bool :=
  decide (kopiaPhase progress = "restoring") || progress.has "processed_count" ||
    progress.has "file_done"

def isBackupLane : Bool :=
  !isRestoreLane progress && (progress.has "uploaded_count" || progress.has "hashed_count" ||
    decide (Text.lower (progress.get "phase").strOr = "kopia_transfer"))

def explicitZeroTotal : Except String Bool := do
  let raw ← F.progressNumber (progress.get "bytes_total")
  .ok ((progress.get "bytes_total_known").truthy && decide (raw = some (.finite 0)))

def backupDone (schema bytesDone uploaded hashed cached : Int) : Option Int → Int
  | some processed => processed
  | none =>
    if schema < 2 ∧ uploaded > 0 then uploaded
    else if hashed > 0 ∨ cached > 0 then hashed + cached
    else bytesDone

def laneDone (schema bytesDone uploaded hashed cached : Int) (processed : Option Int) : Int :=
  if isRestoreLane progress then
    if processed.getD 0 ≠ 0 then processed.getD 0 else bytesDone
  else if isBackupLane progress then
    backupDone schema bytesDone uploaded hashed cached processed
  else if bytesDone ≤ 0 then
    if processed.getD 0 ≠ 0 then processed.getD 0
    else if hashed + cached ≠ 0 then hashed + cached
    else uploaded
  else bytesDone

def laneTotal (bytesTotal : Int) : Except String Int :=
  if bytesTotal ≤ 0 then counterOr F progress "estimated_bytes" "total_bytes" else .ok bytesTotal

/-- What `normalize_lane_progress` reads before it settles the total. -/
structure Counters where
  schema : Int
  done : Int
  total : Int
  known : Bool
  uploaded : Int
  hashed : Int
  estimated : Int
  reference : Int
  prevMax : Int
  phase : String
  deriving DecidableEq

def readCounters (referenceBytesTotal : Int) : Except String Counters := do
  let version ← counter F progress "progress_schema_version"
  let schema := if version = 0 then 1 else version
  let bytesDone ← counter F progress "bytes_done"
  let explicitZero ← explicitZeroTotal F progress
  let bytesTotal ← counter F progress "bytes_total"
  let uploaded ← counter F progress "uploaded_bytes"
  let hashed ← counter F progress "hashed_bytes"
  let cached ← counter F progress "cached_bytes"
  let processed ← optionalProgressInt F progress "processed_bytes"
  let done := laneDone progress schema bytesDone uploaded hashed cached processed
  let estimated ← counter F progress "estimated_bytes"
  let total ← laneTotal F progress bytesTotal
  let stated ← counter F progress "reference_bytes_total"
  let prevMax ← counter F progress "_max_bytes_total"
  .ok
    { schema, done, total, uploaded, hashed, estimated, prevMax
      known := if bytesTotal ≤ 0 then decide (total > 0) || explicitZero else true
      reference := max 0 (max referenceBytesTotal stated)
      phase := kopiaPhase progress }

end Read

/-! ## Totals that can be -/

def credibleBytesTotal (bytesDone total : Int) : Bool :=
  if total ≤ 0 then false
  else if max 0 bytesDone ≤ 0 then true
  else decide (total * 100 ≥ max 0 bytesDone * 95)

/-- `total > reference * 3.0`. -/
def exceedsReference (F : FloatFormat) (total reference : Int) : Except String Bool := do
  let x ← F.ofInt reference
  .ok ((F.rounded (x * 3)).isBelowInt total)

def applyReferenceBytesTotal (F : FloatFormat) (total : Option Int) (reference : Int) :
    Except String (Option Int × Bool) :=
  match total with
  | none => .ok (none, false)
  | some total =>
    if max 0 reference ≤ 0 ∨ total ≤ 0 then .ok (some total, false)
    else do
      let exceeds ← exceedsReference F total (max 0 reference)
      .ok (if exceeds then (some (max 0 reference), true) else (some total, false))

/-- A total that `monotonic_bytes_total` may take. -/
def candidates (bytesDone : Int) (total : Option Int) : List Int :=
  total.toList.filter fun t => decide (0 < t) && credibleBytesTotal bytesDone t

def monotonicBytesTotal (F : FloatFormat) (bytesDone : Int) (total previousMax : Option Int)
    (reference : Int) : Except String (Option Int) := do
  let done := max 0 bytesDone
  let reference := max 0 reference
  let (adjusted, _) ← applyReferenceBytesTotal F total reference
  let all := candidates done adjusted ++ candidates done (some reference) ++
    candidates done previousMax
  .ok (all.min?.map (max done))

/-! ## The total of a lane -/

structure Settled where
  total : Option Int
  known : Bool
  reference : Bool
  deriving DecidableEq

def Settled.isPositive (t : Settled) : Bool := t.known && t.total.any (0 < ·)

section Settle

variable (F : FloatFormat) (status : String) (c : Counters)

def capByReference : Except String Settled := do
  if c.schema < 2 ∧ c.known ∧ c.total > 0 ∧ c.reference > 0 then
    let (total, reference) ← applyReferenceBytesTotal F (some c.total) c.reference
    .ok { total, known := total.isSome, reference }
  else .ok { total := some c.total, known := c.known, reference := false }

/-- A total that cannot be is replaced or given up. -/
def dropIncredible (t : Settled) : Settled :=
  if c.schema < 2 ∧ t.known = false ∧ c.done > 0 then
    if c.phase = "uploading" ∧ c.hashed > c.done then
      { t with total := some c.hashed, known := true }
    else if c.phase = "uploading" ∧ c.hashed > 0 ∧ c.uploaded ≥ c.hashed ∧ c.estimated ≤ 0 then
      { t with total := none, known := false }
    else t
  else if c.schema < 2 ∧ c.phase = "uploading" ∧ t.isPositive ∧ t.total.all (c.done ≥ ·) ∧
      c.estimated ≤ 0 ∧ isActive status then
    { t with total := none, known := false }
  else if t.isPositive ∧ ¬ t.total.any (credibleBytesTotal c.done) then
    if c.schema < 2 ∧ c.reference > 0 then
      { t with total := some c.reference, reference := true }
    else { t with total := none, known := false }
  else t

/-- The reference that `monotonic_bytes_total` is given. -/
def monotonicReference : Int := if c.schema < 2 then c.reference else 0

/-- The total does not fall below the largest one so far without need. -/
def keepMonotonic (t : Settled) : Except String Settled := do
  if t.isPositive then
    let previousMax := if c.prevMax = 0 then none else some c.prevMax
    match ← monotonicBytesTotal F c.done t.total previousMax (monotonicReference c) with
    | none => .ok { t with total := none, known := false }
    | some total => .ok { t with total := some total }
  else if c.done > 0 ∧ c.prevMax > 0 then
    match ← monotonicBytesTotal F c.done none (some c.prevMax) (monotonicReference c) with
    | none => .ok t
    | some total =>
      if credibleBytesTotal c.done total then
        .ok
          { total := some total
            known := true
            reference := decide (c.reference > 0) && decide (total = c.reference) }
      else .ok t
  else if c.schema < 2 ∧ c.reference > 0 ∧ c.done > 0 ∧ t.known = false then
    .ok { total := some c.reference, known := true, reference := true }
  else .ok t

def settleTotal : Except String Settled := do
  let t ← capByReference F c
  keepMonotonic F c (dropIncredible status c t)

end Settle

/-! ## The lane -/

/-- The progress of a lane. The other counters and texts stand under their keys. -/
structure Lane where
  kopiaPhase : String
  bytesDone : Int
  bytesTotal : Option Int
  bytesTotalKnown : Bool
  bytesTotalReference : Bool
  schemaVersion : Option Int
  percent : Option PyFloat
  percentSource : Option String
  isTransfer : Bool
  counters : List (String × Option Int)
  texts : List (String × Option String)

structure Speeds where
  speed : Option Int
  processing : Option Int
  upload : Option Int
  eta : Option Int

section Normalize

variable (F : FloatFormat) (progress : Dict)

def processingSpeed : Except String (Option Int) := do
  let stated ← optionalProgressInt F progress "processing_speed_bps"
  if stated = none then optionalProgressInt F progress "hash_speed_bps" else .ok stated

def readSpeeds (schema : Int) : Except String Speeds := do
  let processing ← processingSpeed F progress
  let upload ← optionalProgressInt F progress "upload_speed_bps"
  let legacy ← optionalProgressInt F progress "speed_bps"
  let eta ← optionalProgressInt F progress "kopia_eta_seconds"
  let speed :=
    if upload = none ∧ (schema < 2 ∨ isRestoreLane progress) then legacy else upload
  .ok { speed, processing, upload, eta }

def lanePercent (done : Int) (t : Settled) : Except String (Option PyFloat × Option String) := do
  if t.isPositive then
    let p ← F.percentOf done (t.total.getD 0)
    .ok (some (.finite p), some "computed")
  else
    match ← F.progressNumber (progress.get "kopia_percent") with
    | some p => .ok (some p, some "kopia")
    | none =>
      match ← F.progressNumber (progress.get "percent") with
      | some p => .ok (some p, some "kopia")
      | none => .ok (none, none)

def capPercent (status : String) (percent : Option PyFloat) : Option PyFloat :=
  if isActive status ∧ percent.any PyFloat.isComplete then some (.finite 99) else percent

/-- The other counters of `_lane_from_bytes`. -/
def otherCounters (speeds : Speeds) : Except String (List (String × Option Int)) := do
  let uploadedBytes ← counter F progress "uploaded_bytes"
  let hashedBytes ← optionalProgressInt F progress "hashed_bytes"
  let uploadedCount ← counter F progress "uploaded_count"
  let hashedCount ← optionalProgressInt F progress "hashed_count"
  let estimatedBytes ← counter F progress "estimated_bytes"
  let cachedBytes ← optionalProgressInt F progress "cached_bytes"
  let cachedCount ← optionalProgressInt F progress "cached_count"
  let processedEntryCount ← optionalProgressInt F progress "processed_entry_count"
  let estimatedFileCount ← optionalProgressInt F progress "estimated_file_count"
  let completedDirectoryCount ← optionalProgressInt F progress "completed_directory_count"
  let processedCount ← counterOr F progress "processed_count" "file_done"
  let totalCount ← counterOr F progress "total_count" "file_total"
  let pathIndex ← positive F progress "path_index"
  let pathTotal ← positive F progress "path_total"
  .ok
    [("uploaded_bytes", some uploadedBytes), ("hashed_bytes", hashedBytes),
      ("uploaded_count", some uploadedCount), ("hashed_count", hashedCount),
      ("estimated_bytes", some estimatedBytes), ("cached_bytes", cachedBytes),
      ("cached_count", cachedCount), ("processed_entry_count", processedEntryCount),
      ("estimated_file_count", estimatedFileCount),
      ("completed_directory_count", completedDirectoryCount),
      ("processed_count", some processedCount), ("total_count", some totalCount),
      ("speed_bps", speeds.speed), ("processing_speed_bps", speeds.processing),
      ("hash_speed_bps", speeds.processing), ("upload_speed_bps", speeds.upload),
      ("eta_seconds", speeds.eta), ("kopia_eta_seconds", speeds.eta),
      ("path_index", pathIndex), ("path_total", pathTotal)]

/-- The texts of `_lane_from_bytes`. -/
def laneTexts : List (String × Option String) :=
  let processingSource :=
    stripped (pyOr (progress.get "processing_speed_source") (progress.get "hash_speed_source"))
  let hashSource :=
    stripped (pyOr (progress.get "processing_speed_source") (progress.get "hash_speed_source"))
  [("orchestration_label", some ""), ("speed_source", stripped (progress.get "speed_source")),
    ("processing_speed_source", processingSource), ("hash_speed_source", hashSource),
    ("upload_speed_source", stripped (progress.get "upload_speed_source")),
    ("metrics_sampled_at", stripped (progress.get "sampled_at")),
    ("progress_text", some (Text.strip (progress.get "progress_text").strOr)),
    ("phase_started_at", stripped (progress.get "phase_started_at")),
    ("last_progress_at", stripped (progress.get "last_progress_at"))]

/-- `_lane_from_bytes`. A total that is not stated to be known is known when it is positive. -/
def laneFromBytes (kopiaPhase : String) (bytesDone : Int) (bytesTotal : Option Int)
    (bytesTotalKnown : Option Bool) (bytesTotalReference : Bool) (schema : Int)
    (percent : Option PyFloat) (percentSource : Option String) (speeds : Speeds) :
    Except String Lane := do
  let counters ← otherCounters F progress speeds
  .ok
    { kopiaPhase, bytesDone, bytesTotal, bytesTotalReference, percent, percentSource, counters
      bytesTotalKnown :=
        match bytesTotalKnown with
        | none => bytesTotal.any (0 < ·)
        | some known => if bytesTotal = none then false else known
      schemaVersion := some schema
      isTransfer := true
      texts := laneTexts progress }

def emptyLane (kopiaPhase : String) : Lane :=
  { kopiaPhase
    bytesDone := 0
    bytesTotal := none
    bytesTotalKnown := false
    bytesTotalReference := false
    schemaVersion := none
    percent := none
    percentSource := none
    isTransfer := false
    counters :=
      [("speed_bps", none), ("eta_seconds", none), ("kopia_eta_seconds", none),
        ("path_index", none), ("path_total", none)]
    texts :=
      [("orchestration_label", some ""), ("progress_text", some ""), ("phase_started_at", none),
        ("last_progress_at", none)] }

def orchestrationLane : Except String Lane := do
  let pathIndex ← positive F progress "path_index"
  let pathTotal ← positive F progress "path_total"
  .ok
    { emptyLane (pyOr (pyOr (progress.get "kopia_phase") (progress.get "orchestration_phase"))
        (.str "orchestration")).strOr with
      counters :=
        [("speed_bps", none), ("eta_seconds", none), ("kopia_eta_seconds", none),
          ("path_index", pathIndex), ("path_total", pathTotal)]
      texts :=
        [("orchestration_label", some (Text.strip (progress.get "orchestration_label").strOr)),
          ("progress_text", some (Text.strip (progress.get "progress_text").strOr)),
          ("phase_started_at", stripped (progress.get "phase_started_at")),
          ("last_progress_at", stripped (progress.get "last_progress_at"))] }

def transferLane (status : String) (referenceBytesTotal : Int) : Except String Lane := do
  let c ← readCounters F progress referenceBytesTotal
  let t ← settleTotal F status c
  let (percent, source) ← lanePercent F progress c.done t
  let speeds ← readSpeeds F progress c.schema
  laneFromBytes F progress
    (pyOr (pyOr (progress.get "kopia_phase") (progress.get "phase")) (.str "running")).strOr
    c.done (if t.known then t.total else none) (some t.known) t.reference c.schema
    (capPercent status percent) source speeds

end Normalize

/-- The lane of a finished one, with the total that was recorded for it. -/
def isFrozen (status : String) (frozenBytesTotal : Int) : Bool :=
  decide (status ∈ ["success", "available", "completed"]) && decide (frozenBytesTotal > 0)

def normalizeLaneProgress (F : FloatFormat) (progress : Option Dict) (status : String)
    (frozenBytesTotal referenceBytesTotal : Int) : Except String Lane :=
  if isFrozen status frozenBytesTotal then
    laneFromBytes F (progress.getD []) "done" frozenBytesTotal (some frozenBytesTotal) none false 1
      (some (.finite 100)) none ⟨none, none, none, none⟩
  else
    match progress with
    | none | some [] => .ok (emptyLane (if isActive status then "pending" else status))
    | some progress =>
      if isOrchestrationProgress progress then orchestrationLane F progress
      else transferLane F progress status referenceBytesTotal

end HyperFileLens.Protection.LaneProgress
