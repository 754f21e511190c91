import HyperFileLens.Agent.Wire
import HyperFileLens.Library.GoJson

/-!
# Bounds of a result document

`result_bounds.go`: what the Agent makes of a result document that does not fit its
frame.

*Levels.*  A document over the bound loses the output of commands. If it is still over
the bound, only the essential keys stay, with their values cut; then only the scalar ones
and the summaries of snapshot failures; then only the summaries. The last level is sent
whatever it takes.

*Values.*  Maps are lists of fields with distinct keys. How a number that is no integer
is written is an argument.
-/

namespace HyperFileLens.Agent

open GoJson

def maxTaskResultBytes : Nat := 256 * 1024 - 16 * 1024

def maxSnapshotFailureSamples : Nat := 10

def essentialResultKeys : List String :=
  ["error_code", "phase", "policy_phase", "status", "kopia_snapshot_id", "snapshot_id",
    "source_path", "size_bytes", "file_count", "dir_count", "directory_count", "bytes_done",
    "bytes_total", "bytes_total_known", "new_original_content_bytes", "new_packed_content_bytes",
    "storage_stats_available", "storage_stats_basis", "hashed_bytes", "uploaded_bytes",
    "kopia_percent", "percent", "last_progress", "execution_state", "result_reported", "path",
    "target_path", "filename", "content_type", "repository_path", "repository_type",
    "storage_type", "session_id", "url", "count", "has_more", "failed_count", "created",
    "deleted_count", "selected_paths", "stats", "restore", "restore_results", "results",
    "entries", "snapshot_browse", "snapshot_download", "snapshot_failure_summary",
    "snapshot_skipped_summary", "snapshot_terminal_error", "snapshot_terminal_diagnostic",
    "snapshot_terminal_path", "snapshot_terminal_side", "snapshot_terminal_phase",
    "restore_outcome", "skip_reason", "conflict_mode", "restored_item_count",
    "skipped_item_count", "failed_item_count", "restored_path_count", "skipped_path_count",
    "restore_scope_summary", "error_message", "error_remediation", "error_diagnostic",
    "executor_finished", "executor_finished_at", "completion_source", "workspace_uid",
    "workspace_quarantined", "purge_complete", "tombstone_state"]

def summaryKeys : List String := ["snapshot_failure_summary", "snapshot_skipped_summary"]

/-! ## Values -/

mutual

def stripCommandOutput : Json → Json
  | .obj fields => .obj (stripFields fields)
  | .arr xs => .arr (stripList xs)
  | value => value

/-- `stripCommandOutput` of the elements of a list. -/
def stripList : List Json → List Json
  | [] => []
  | x :: xs => stripCommandOutput x :: stripList xs

/-- `stripCommandOutput` of the fields of a map. -/
def stripFields : List (String × Json) → List (String × Json)
  | [] => []
  | (key, child) :: fields =>
    if key = "stdout" ∨ key = "stderr" then stripFields fields
    else (key, stripCommandOutput child) :: stripFields fields

end

/-- `compactResultValue`, with the number of levels that are left of five. -/
def compactResultValue : Nat → Json → Json
  | 0, _ => .null
  | _ + 1, .str s => .str (truncateUTF8 s maxResultStringBytes)
  | left + 1, .obj fields =>
    .obj (((fields.mergeSort byKey).take 32).map fun f => (f.1, compactResultValue left f.2))
  | left + 1, .arr xs => .arr ((xs.take 32).map (compactResultValue left))
  | _ + 1, value => value

def compactInteger : Json → Option Int
  | .int n => if n ≤ 9223372036854775807 then some n else none
  | .float x => if x.den = 1 then some x.num else none
  | _ => none

def isScalar : Json → Bool
  | .str _ | .bool _ | .float _ | .int _ | .null => true
  | .arr _ | .obj _ => false

section Encoder

variable (floatText : Rat → List Char)

def stringJSONScalar : Json → List Char
  | .null => []
  | .str s => s.toList
  | value => encode floatText value

/-- The fields of a failed item, with the bytes they are cut to. -/
def itemFields : List (String × Nat) :=
  [("path", 1024), ("error", 2048), ("cause", 64), ("item_type", 32), ("disposition", 16)]

def boundedItem (item : Dict) : Json :=
  .obj (itemFields.map fun f =>
    (f.1, .str (String.ofList (takeUTF8 f.2 (stringJSONScalar floatText (item.get f.1))))))

/-- The maps among the first items of a summary. -/
def sampledItems (summary : Dict) : List Dict :=
  let items := match summary.get "items" with
    | .arr xs => xs
    | _ => []
  (items.take maxSnapshotFailureSamples).filterMap fun
    | .obj item => some item
    | _ => none

def countKeys : List String :=
  ["total_count", "fatal_count", "ignored_count", "reported_count", "truncated", "cause_counts",
    "item_types", "item_type_counts"]

def keptCounts (summary : Dict) : Dict :=
  countKeys.filterMap fun key =>
    (summary.get? key).map fun child => (key, compactResultValue 5 child)

def compactSnapshotFailureSummary : Json → Json
  | .obj summary =>
    let boundedItems := (sampledItems summary).map (boundedItem floatText)
    let out := (keptCounts summary).set "reported_count" (.int boundedItems.length)
    let out := match compactInteger (Dict.get summary "total_count") with
      | some total => Dict.set out "truncated" (.bool
          (Dict.get summary "truncated" = .bool true || (boundedItems.length : Int) < total))
      | none => out
    .obj (Dict.set out "items" (.arr boundedItems))
  | _ => .null

/-! ## Levels -/

/-- The marks of a document that lost something. -/
def truncationMarks (originalBytes : Nat) : Dict :=
  [("result_truncated", .bool true), ("result_original_bytes", .int originalBytes)]

/-- `trimmed`: the document without the output of commands. -/
def trimmedResult (result : Dict) (originalBytes : Nat) : Dict :=
  Dict.update (stripFields result) (truncationMarks originalBytes)

/-- `compact`: the essential keys. -/
def compactResult (result : Dict) (originalBytes : Nat) : Dict :=
  truncationMarks originalBytes ++ essentialResultKeys.filterMap fun key =>
    (result.get? key).map fun value =>
      (key, if key ∈ summaryKeys then compactSnapshotFailureSummary floatText value
        else compactResultValue 5 value)

/-- `compact` the second time: the scalar essential keys and the summaries. The loop over
the scalars comes last, and a scalar under the key of a summary replaces it. -/
def scalarResult (result : Dict) (originalBytes : Nat) : Dict :=
  truncationMarks originalBytes ++ essentialResultKeys.filterMap fun key =>
    (result.get? key).bind fun value =>
      if isScalar value then some (key, compactResultValue 5 value)
      else if key ∈ summaryKeys then some (key, compactSnapshotFailureSummary floatText value)
      else none

/-- `ultraCompact`: the summaries. -/
def ultraCompactResult (result : Dict) (originalBytes : Nat) : Dict :=
  truncationMarks originalBytes ++ summaryKeys.filterMap fun key =>
    (result.get? key).map fun value => (key, compactSnapshotFailureSummary floatText value)

/-- `jsonSize` of a document. -/
def jsonSize (result : Dict) : Nat := size floatText (.obj result)

structure ResultBoundStats where
  originalBytes : Nat
  finalBytes : Nat
  truncated : Bool

def boundTaskResult (document : Option Dict) : Dict × ResultBoundStats :=
  let result := document.getD []
  let originalBytes := jsonSize floatText result
  if originalBytes ≤ maxTaskResultBytes then (result, ⟨originalBytes, originalBytes, false⟩)
  else
    let trimmed := trimmedResult result originalBytes
    if jsonSize floatText trimmed ≤ maxTaskResultBytes then
      (trimmed, ⟨originalBytes, jsonSize floatText trimmed, true⟩)
    else
      let compact := compactResult floatText result originalBytes
      if jsonSize floatText compact ≤ maxTaskResultBytes then
        (compact, ⟨originalBytes, jsonSize floatText compact, true⟩)
      else
        let compact := scalarResult floatText result originalBytes
        if jsonSize floatText compact ≤ maxTaskResultBytes then
          (compact, ⟨originalBytes, jsonSize floatText compact, true⟩)
        else
          let ultraCompact := ultraCompactResult floatText result originalBytes
          (ultraCompact, ⟨originalBytes, jsonSize floatText ultraCompact, true⟩)

end Encoder

end HyperFileLens.Agent
