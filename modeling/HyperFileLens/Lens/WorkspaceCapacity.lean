import HyperFileLens.Library.Coverage
import HyperFileLens.Library.Json

/-!
# The bytes a workspace is accounted for

A workspace holds what the scopes of its knowledge source select. Each scope names a path in a
snapshot directory. It may carry a summary, the size and the number of files that were counted
when the scope was resolved. `workspaceCapacityAccounting` answers with a number of bytes and
says how far it can be trusted, from the stored scopes and the rows of the directories alone.

*Scopes.*  A scope that another one covers is left out. The remaining ones are read directory by
directory: exactly if all of them have a size, and else by the size of the whole directory.

*Sizes.*  `exactStoredInt` reads a stored integer and refuses booleans, fractions and what a
column cannot hold.
-/

namespace HyperFileLens.Lens

/-! ## Rows and scopes -/

inductive CapacityAccountingStatus where
  | pending
  | exact
  | conservative
  | unknown
deriving DecidableEq, Repr

def maxBigint : Int := 9223372036854775807

def minBigint : Int := -9223372036854775808

/-- A row of `BackupSourceSnapshotDirectory`. The size is written as `max(0, …)`, and it is zero
until it is written. -/
structure BackupSourceSnapshotDirectory where
  organizationId : Int
  sourcePath : String
  fileCount : Int
  sizeBytes : Int
  size_nonneg : 0 ≤ sizeBytes
  size_le : sizeBytes ≤ maxBigint

/-- A stored scope. A missing field reads as `null`. Both requests that store scopes refuse an
empty path. -/
structure SourceScope where
  sourcePath : String
  backupSnapshotDirectoryId : Json
  pathType : Json
  sizeBytes : Json
  fileCount : Json
  path_given : sourcePath ≠ ""

/-- The table of the directories, by primary key. -/
abbrev Directories := Int → Option BackupSourceSnapshotDirectory

def exactStoredInt (value : Json) : Option Int :=
  let parsed :=
    match value with
    | .int n => some n
    | .float x => if x.den = 1 then some x.num else none
    | .str s => Text.parseInt s
    | _ => none
  parsed.filter fun n => minBigint ≤ n ∧ n ≤ maxBigint

/-- What `_scope_directory_identity` returns: a number, the text of another value, or nothing. -/
inductive DirectoryIdentity where
  | id (n : Int)
  | text (value : Json)
  | missing
deriving DecidableEq

def scopeDirectoryIdentity (scope : SourceScope) : DirectoryIdentity :=
  match scope.backupSnapshotDirectoryId.pyInt with
  | some n => .id n
  | none =>
    if scope.backupSnapshotDirectoryId = .null then .missing
    else .text scope.backupSnapshotDirectoryId

/-! ## Paths -/

def normalizeScopePath (path : String) : List Char :=
  let normalized := Text.trim Text.isPySpace
    (path.toList.map fun c => if c = '\\' then '/' else c)
  match normalized.rdropWhile (· = '/') with
  | [] => ['/']
  | c :: cs => c :: cs

/-- A path is another one, or a directory above it. -/
def PathCovers (existing candidate : List Char) : Prop :=
  candidate = existing ∨
    (if existing = ['/'] then ['/'] else existing ++ ['/']) <+: candidate

instance (existing candidate : List Char) : Decidable (PathCovers existing candidate) :=
  inferInstanceAs (Decidable (_ ∨ _))

def SourceScope.path (scope : SourceScope) : List Char := normalizeScopePath scope.sourcePath

def Covers (existing candidate : SourceScope) : Prop :=
  scopeDirectoryIdentity existing = scopeDirectoryIdentity candidate ∧
    PathCovers existing.path candidate.path

instance : DecidableRel Covers := fun _ _ => inferInstanceAs (Decidable (_ ∧ _))

/-- The order in which candidates are tried: by the length of their path, and then as they
come. -/
def Before (a b : SourceScope × ℕ) : Prop :=
  a.1.path.length < b.1.path.length ∨ (a.1.path.length = b.1.path.length ∧ a.2 ≤ b.2)

instance : DecidableRel Before := fun _ _ => inferInstanceAs (Decidable (_ ∨ _))

def ordered (candidates : List SourceScope) : List SourceScope :=
  (candidates.zipIdx.insertionSort Before).map Prod.fst

def capacityEntries (candidates : List SourceScope) : List SourceScope :=
  Coverage.keep Covers (ordered candidates)

/-! ## Occupancy -/

/-- A scope without a summary, as it is handed on with its directory. -/
structure ResolvedScope where
  sourcePath : String
  pathType : String
  sizeBytes : Option Int

/-- The sums of `summarize_gateway_select_scopes`. -/
structure SelectionTotals where
  totalFiles : Int
  totalBytes : Int
  unknownDirectory : Bool

/-- One round of the loop of `summarize_gateway_select_scopes`. -/
def addSelection (acc : SelectionTotals) (row : ResolvedScope × BackupSourceSnapshotDirectory) :
    SelectionTotals :=
  if normalizeScopePath row.1.sourcePath = normalizeScopePath row.2.sourcePath then
    { acc with
      totalFiles := acc.totalFiles + row.2.fileCount
      totalBytes := acc.totalBytes + row.2.sizeBytes }
  else if Text.lower row.1.pathType = "file" then
    match row.1.sizeBytes with
    | none => { acc with totalFiles := acc.totalFiles + 1, unknownDirectory := true }
    | some sizeBytes =>
      { acc with
        totalFiles := acc.totalFiles + 1
        totalBytes := acc.totalBytes + sizeBytes }
  else { acc with unknownDirectory := true }

def summarizeGatewaySelectScopes (rows : List (ResolvedScope × BackupSourceSnapshotDirectory)) :
    SelectionTotals :=
  rows.foldl addSelection ⟨0, 0, false⟩

/-- `str(scope.get("path_type") or "unknown").lower()`. -/
def SourceScope.typeText (scope : SourceScope) : String :=
  if scope.pathType.truthy then Text.lower scope.pathType.strOr else "unknown"

def SourceScope.hasSummary (scope : SourceScope) : Bool :=
  scope.sizeBytes ≠ .null && scope.fileCount ≠ .null

def summaryValid (pathType : String) (sizeBytes fileCount : Int) : Bool :=
  (pathType = "file" || pathType = "dir") && 0 ≤ sizeBytes && 0 ≤ fileCount &&
    (pathType ≠ "file" || fileCount = 1)

/-- The local variables of `_occupancy_from_scope_dicts`. -/
structure Occupancy where
  trustedBytes : Int
  legacy : List (ResolvedScope × BackupSourceSnapshotDirectory)
  anyUnknown : Bool

def occupancyDirectory (directories : Directories) (organizationId directoryId : Int) :
    Option BackupSourceSnapshotDirectory :=
  (directories directoryId).filter fun directory =>
    organizationId ≤ 0 ∨ directory.organizationId = organizationId

/-- The size a scope without a summary hands on, and whether its field is no size. -/
def legacySize (scope : SourceScope) : Option Int × Bool :=
  if scope.sizeBytes = .null then (none, false)
  else
    match exactStoredInt scope.sizeBytes with
    | none => (none, true)
    | some n => if n < 0 then (none, true) else (some n, false)

section

variable (directories : Directories)

/-- One round of the loop of `_occupancy_from_scope_dicts`. -/
def collectScope (organizationId : Int) (acc : Occupancy)
    (scope : SourceScope) : Occupancy :=
  if scope.hasSummary then
    match exactStoredInt scope.sizeBytes, exactStoredInt scope.fileCount with
    | some sizeBytes, some fileCount =>
      if summaryValid scope.typeText sizeBytes fileCount then
        { acc with trustedBytes := acc.trustedBytes + sizeBytes }
      else { acc with anyUnknown := true }
    | _, _ => { acc with anyUnknown := true }
  else
    match scope.backupSnapshotDirectoryId.pyInt with
    | none => { acc with anyUnknown := true }
    | some directoryId =>
      match occupancyDirectory directories organizationId directoryId with
      | none => { acc with anyUnknown := true }
      | some directory =>
        let path := if scope.sourcePath ≠ "" then scope.sourcePath else directory.sourcePath
        { acc with
          legacy := acc.legacy ++ [(⟨path, scope.typeText, (legacySize scope).1⟩, directory)]
          anyUnknown := acc.anyUnknown || (legacySize scope).2 }

/-- `_occupancy_from_scope_dicts`: the bytes, and whether some are unknown. -/
def occupancyFromScopeDicts (organizationId : Int)
    (scopes : List SourceScope) : Int × Bool :=
  if scopes = [] then (0, false)
  else
    let collected := scopes.foldl (collectScope directories organizationId) ⟨0, [], false⟩
    if collected.legacy.isEmpty then (collected.trustedBytes, collected.anyUnknown)
    else
      let totals := summarizeGatewaySelectScopes collected.legacy
      (collected.trustedBytes + totals.totalBytes, collected.anyUnknown || totals.unknownDirectory)

/-! ## Accounting -/

def accountingDirectory (organizationId directoryId : Int) :
    Option BackupSourceSnapshotDirectory :=
  (directories directoryId).filter fun directory => directory.organizationId = organizationId

def accountUngrouped (organizationId : Int)
    (acc : Int × CapacityAccountingStatus) (scope : SourceScope) :
    Int × CapacityAccountingStatus :=
  let occupancy := occupancyFromScopeDicts directories organizationId [scope]
  (acc.1 + occupancy.1, if occupancy.2 then .unknown else acc.2)

def accountGroup (organizationId : Int)
    (acc : Int × CapacityAccountingStatus) (group : Int × List SourceScope) :
    Int × CapacityAccountingStatus :=
  let occupancy := occupancyFromScopeDicts directories organizationId group.2
  match accountingDirectory directories organizationId group.1 with
  | none => (acc.1 + occupancy.1, if occupancy.2 then .unknown else acc.2)
  | some directory =>
    let selectsRoot := group.2.any fun scope =>
      scope.path = normalizeScopePath directory.sourcePath
    if !occupancy.2 then (acc.1 + occupancy.1, acc.2)
    else
      -- A selected root already contains every nested path.
      (acc.1 + max 0 directory.sizeBytes,
        if !selectsRoot && acc.2 ≠ .unknown then .conservative else acc.2)

end

/-- The entries of each directory, in the order in which directories come up. -/
def grouped (entries : List SourceScope) : List (Int × List SourceScope) :=
  let directoryIds := entries.filterMap fun scope => scope.backupSnapshotDirectoryId.pyInt
  (Coverage.keep Eq directoryIds).map fun directoryId =>
    (directoryId, entries.filter fun scope =>
      scope.backupSnapshotDirectoryId.pyInt = some directoryId)

def ungrouped (entries : List SourceScope) : List SourceScope :=
  entries.filter fun scope => scope.backupSnapshotDirectoryId.pyInt = none

/-- A total that a column cannot hold is unknown. -/
def boundedTotal (total : Int × CapacityAccountingStatus) : Int × CapacityAccountingStatus :=
  if maxBigint < total.1 then (maxBigint, .unknown) else total

def accountByDirectory (directories : Directories) (organizationId : Int)
    (entries : List SourceScope) : Int × CapacityAccountingStatus :=
  boundedTotal ((grouped entries).foldl (accountGroup directories organizationId)
    ((ungrouped entries).foldl (accountUngrouped directories organizationId) (0, .exact)))

def workspaceCapacityAccounting (directories : Directories) (organizationId : Int)
    (candidates : List SourceScope) : Int × CapacityAccountingStatus :=
  let entries := capacityEntries candidates
  if entries = [] then (0, .unknown)
  else
    let occupancy := occupancyFromScopeDicts directories organizationId entries
    if entries.all SourceScope.hasSummary && !occupancy.2 then boundedTotal (occupancy.1, .exact)
    else accountByDirectory directories organizationId entries

end HyperFileLens.Lens
