import HyperFileLens.Library.Json

/-!
# Scopes of a Chat data update

`resolve_update_scopes` of `chat_data_update.py`, with the mapping of scopes to folders of the
workspace from `knowledge_source_sync.py`.

*Mapping.*  A scope is mapped to what its path has beyond the path that all scopes share. The
mapping drops drives, and compares the shared path without letter case.

*Rebinding.*  A scope is bound to a directory of the new snapshot. The directories that could be
meant are narrowed by the directory of the old snapshot, then by letter case, then by length.

The case mappings of `str` are a parameter.
-/

namespace HyperFileLens.Lens.ChatUpdate

/-- The case mappings of `str`. -/
structure CaseMapping where
  lower : List Char → List Char
  casefold : List Char → List Char

def asciiCase : CaseMapping := ⟨List.map Text.lowerChar, List.map Text.lowerChar⟩

abbrev Part := List Char

/-! ## Paths -/

def strip (path : List Char) : List Char := Text.trim Text.isPySpace path

/-- `path.replace("\\", "/")`. -/
def toSlashes (path : List Char) : List Char := path.map fun c => if c = '\\' then '/' else c

/-- `path.rstrip("/")`. -/
def rstripSlashes (path : List Char) : List Char := (path.reverse.dropWhile (· = '/')).reverse

/-- `"/".join(parts)`. -/
def joinParts (parts : List Part) : List Char := ['/'].intercalate parts

/-- The path without `raw[:2]` when that is a drive. -/
def dropDrive : List Char → List Char
  | _ :: ':' :: rest => rest
  | raw => raw

def pathParts (path : List Char) : List Part :=
  ((Text.trim (· = '/') (dropDrive (toSlashes (strip path)))).splitOn '/').filter fun part =>
    part ≠ [] ∧ part ≠ ['.']

def commonPathParts (m : CaseMapping) (paths : List (List Char)) : List Part :=
  let partsList := (paths.filter fun path => strip path ≠ []).map pathParts
  match partsList with
  | [] => []
  | first :: _ =>
    let shortest := partsList.foldl (fun n parts => min n parts.length) first.length
    let agree := fun i => partsList.all fun parts =>
      parts[i]?.map m.lower = first[i]?.map m.lower
    first.take ((List.range shortest).takeWhile agree).length

/-- The paths without white space around them, but for blank ones. -/
def normalizedPaths (paths : List (List Char)) : List (List Char) :=
  (paths.map strip).filter fun path => path ≠ []

/-- The path of a scope beyond what all scopes share. -/
def relativeFolder (m : CaseMapping) (normalized : List (List Char)) (scopeParts : List Part) :
    List Char :=
  if normalized = [] then joinParts scopeParts
  else if scopeParts = commonPathParts m normalized then
    scopeParts.getLast?.getD "data".toList
  else if (commonPathParts m normalized).length < scopeParts.length ∧
      (scopeParts.take (commonPathParts m normalized).length).map m.lower =
        (commonPathParts m normalized).map m.lower then
    joinParts (scopeParts.drop (commonPathParts m normalized).length)
  else joinParts scopeParts

def mapScopeToWorkspace (m : CaseMapping) (workspaceRoot : List Char)
    (scopePaths : List (List Char)) (scopePath : List Char) : List Char :=
  let root := if rstripSlashes workspaceRoot = [] then ['/'] else rstripSlashes workspaceRoot
  let relative := relativeFolder m (normalizedPaths scopePaths) (pathParts scopePath)
  root ++ '/' :: if relative = [] then "data".toList else relative

/-- The test of two targets in the overlap check of `resolve_update_scopes`. -/
def targetsOverlap (current other : List Char) : Bool :=
  current = other || (rstripSlashes other ++ ['/']).isPrefixOf current ||
    (rstripSlashes current ++ ['/']).isPrefixOf other

def scopeDriveAndParts (m : CaseMapping) (path : List Char) :
    Except String (List Char × List Part) :=
  let raw := toSlashes (strip path)
  if ['/', '/'].isPrefixOf raw then
    match pathParts raw with
    | host :: share :: rest =>
      .ok ("//".toList ++ m.casefold host ++ '/' :: m.casefold share, rest)
    | _ => .error "Snapshot share path is invalid."
  else
    let raw := raw.dropWhile (· = '/')
    .ok (if raw[1]? = some ':' then m.casefold (raw.take 2) else [], pathParts raw)

/-! ## Records -/

/-- The columns of `BackupSourceSnapshot`. -/
structure BackupSourceSnapshot where
  id : Int
  organizationId : Int
  backupConfigId : Int
  sourceType : String
  sourceRefId : Int
  status : String
deriving DecidableEq

def restorableSnapshotStatuses : List String := ["available", "partial"]

/-- The columns of `BackupConfig`. -/
structure BackupConfig where
  id : Int
  organizationId : Int
  sourceType : String
  sourceRefId : Int
deriving DecidableEq

/-- The columns of `BackupSourceSnapshotDirectory`. -/
structure SnapshotDirectory where
  id : Int
  organizationId : Int
  sourceSnapshotId : Int
  backupConfigDirId : Int
  sourcePath : List Char
  pathType : String
  status : String
deriving DecidableEq

/-- Two rows that the constraints of the table allow beside each other. -/
def SnapshotDirectory.Beside (a b : SnapshotDirectory) : Prop :=
  a.id ≠ b.id ∧ (a.sourceSnapshotId = b.sourceSnapshotId → a.backupConfigDirId ≠ b.backupConfigDirId)

instance (a b : SnapshotDirectory) : Decidable (a.Beside b) :=
  inferInstanceAs (Decidable (_ ∧ (_ → _)))

/-- The tables, with `uniq_prot_bsrcsnapdir_cfgdir`. -/
structure Tables where
  snapshots : List BackupSourceSnapshot
  configs : List BackupConfig
  directories : List SnapshotDirectory
  beside : directories.Pairwise SnapshotDirectory.Beside

/-- The columns of `LensWorkspaceBinding`. -/
structure WorkspaceBinding where
  workspaceKind : String
  state : String
  resolvedPath : List Char

/-- The columns of `LensKnowledgeSource`. -/
structure KnowledgeSource where
  lifecycleStatus : String
  linkedVersionMode : String
  slAssistantUuid : Option String
  slDatasourceUuid : Option String
  backupSourceSnapshotId : Option Int
  backupSnapshotDirectoryId : Option Int
  sourcePath : String
  sourceScopesJson : List Json
  workspaceBinding : Option WorkspaceBinding
  missingCapabilities : List String
  conversionEnabled : Bool

/-- The columns of `LensSessionLink`. -/
structure SessionLink where
  organizationId : Int
  backupConfigId : Option Int
  lifecycleStatus : String
  knowledgeSource : Option KnowledgeSource

structure UpdateScope where
  sourcePath : List Char
  snapshotDirectoryId : Int
  snapshotDirectorySourcePath : List Char
  snapshotDirectoryPathType : String
  selectedPath : List Char
  pathType : String
deriving DecidableEq

/-! ## Scopes -/

/-- `str(scope["source_path"]).strip()`. -/
def sourcePathOf (scope : Dict) : List Char := (Text.strip (scope.get "source_path").strOr).toList

def scopeEntries (ks : KnowledgeSource) : List Dict :=
  let rows := (ks.sourceScopesJson.map Json.fields).filter fun item => sourcePathOf item ≠ []
  if rows ≠ [] then rows
  else if ks.sourcePath ≠ "" then
    match ks.backupSnapshotDirectoryId with
    | some id =>
      if id ≠ 0 then
        [[("source_path", .str (Text.strip ks.sourcePath)), ("backup_snapshot_directory_id", .int id)]]
      else [[("source_path", .str (Text.strip ks.sourcePath))]]
    | none => [[("source_path", .str (Text.strip ks.sourcePath))]]
  else []

def oldDirectoryId (scope : Dict) : Except String (Option Int) :=
  let value := scope.get "backup_snapshot_directory_id"
  if value.truthy then
    match value.pyInt with
    | some id => .ok (some id)
    | none => .error "Stored Chat snapshot directory identity is invalid."
  else .ok none

/-! ## Rebinding -/

/-- A directory that could be meant, with the parts of its path. -/
abbrev Candidate := SnapshotDirectory × List Part

/-- The loop body over the directories: a directory above the scope is a candidate. -/
def addCandidate (m : CaseMapping) (drive : List Char) (parts : List Part)
    (candidates : List Candidate) (directory : SnapshotDirectory) :
    Except String (List Candidate) := do
  let (directoryDrive, directoryParts) ← scopeDriveAndParts m directory.sourcePath
  if directoryDrive = drive ∧ directoryParts.length ≤ parts.length ∧
      directoryParts.map m.casefold = (parts.take directoryParts.length).map m.casefold then
    .ok (candidates ++ [(directory, directoryParts)])
  else .ok candidates

def candidatesOf (m : CaseMapping) (directories : List SnapshotDirectory) (drive : List Char)
    (parts : List Part) : Except String (List Candidate) :=
  directories.foldlM (addCandidate m drive parts) []

def sameRoot (old : Option SnapshotDirectory) (candidates : List Candidate) : List Candidate :=
  match old with
  | none => []
  | some old => candidates.filter fun row => row.1.backupConfigDirId = old.backupConfigDirId

def exactCase (parts : List Part) (candidates : List Candidate) : List Candidate :=
  candidates.filter fun row => row.2 = parts.take row.2.length

/-- `Selected Chat path is ambiguous in the new snapshot`. -/
def ambiguous (path : List Char) : String :=
  "Selected Chat path is ambiguous in the new snapshot: " ++ String.ofList path

def finalist (path : List Char) (candidates : List Candidate) : Except String Candidate :=
  let longest := candidates.foldl (fun n row => max n row.2.length) 0
  match candidates.filter fun row => row.2.length = longest with
  | [row] => .ok row
  | _ => .error (ambiguous path)

/-- The candidate that a scope is bound to. -/
def choose (path : List Char) (parts : List Part) (old : Option SnapshotDirectory)
    (candidates : List Candidate) : Except String Candidate :=
  let matchedOldRoot := sameRoot old candidates ≠ []
  let rooted := if matchedOldRoot then sameRoot old candidates else candidates
  let exact := exactCase parts rooted
  if exact ≠ [] then finalist path exact
  else if ¬ matchedOldRoot ∧ 1 < (rooted.map fun row => row.1.backupConfigDirId).dedup.length then
    .error (ambiguous path)
  else finalist path rooted

/-- The loop body of `resolve_update_scopes`. -/
def rebindScope (m : CaseMapping) (directories : List SnapshotDirectory)
    (oldDirectories : Int → Option SnapshotDirectory) (scope : Dict) :
    Except String UpdateScope := do
  let path := sourcePathOf scope
  let (drive, parts) ← scopeDriveAndParts m path
  let candidates ← candidatesOf m directories drive parts
  if candidates = [] then
    .error ("Selected Chat path is absent from the new snapshot: " ++ String.ofList path)
  else do
    let oldId ← oldDirectoryId scope
    let (directory, directoryParts) ← choose path parts (oldId.bind oldDirectories) candidates
    .ok {
      sourcePath := path
      snapshotDirectoryId := directory.id
      snapshotDirectorySourcePath := directory.sourcePath
      snapshotDirectoryPathType := directory.pathType
      selectedPath := joinParts (parts.drop directoryParts.length)
      pathType :=
        let text := (scope.get "path_type").strOr
        if text = "" then "unknown" else text }

/-- The checks of `resolve_update_scopes` on the Chat. -/
def checkChat (chat : SessionLink) : Except String (KnowledgeSource × WorkspaceBinding) :=
  match chat.knowledgeSource with
  | none => .error "Chat data is not ready for an update."
  | some ks =>
    if chat.lifecycleStatus ≠ "ready" ∨ ks.lifecycleStatus ≠ "ready" ∨
        ks.linkedVersionMode ≠ "pinned" ∨ ks.slAssistantUuid = none ∨
        ks.slDatasourceUuid = none then
      .error "Chat data is not ready for an update."
    else
      match ks.workspaceBinding with
      | none => .error "Chat workspace is unavailable."
      | some binding =>
        if binding.workspaceKind ≠ "managed_restore" ∨ binding.state ≠ "ready" then
          .error "Chat workspace is unavailable."
        else if ks.missingCapabilities ≠ [] then
          .error "Upgrade the Data Gateway Agent before updating Chat data."
        else if !ks.conversionEnabled then
          .error "This Chat does not have managed document conversion enabled."
        else .ok (ks, binding)

/-- The checks of `resolve_update_scopes` on the target snapshot. -/
def checkTarget (tables : Tables) (chat : SessionLink) (ks : KnowledgeSource) (snapshotId : Int) :
    Except String BackupSourceSnapshot :=
  let previous := tables.snapshots.find? fun row =>
    some row.id = ks.backupSourceSnapshotId ∧ row.organizationId = chat.organizationId
  let config := tables.configs.find? fun row =>
    some row.id = chat.backupConfigId ∧ row.organizationId = chat.organizationId
  let target := tables.snapshots.find? fun row =>
    row.id = snapshotId ∧ row.organizationId = chat.organizationId ∧
      row.status ∈ restorableSnapshotStatuses
  let unavailable := "Choose an available snapshot of this Chat's backup source."
  match target with
  | none => .error unavailable
  | some target =>
    if chat.backupConfigId ≠ some target.backupConfigId then .error unavailable
    else
      match previous, config with
      | some previous, _ =>
        if (previous.sourceType, previous.sourceRefId, previous.backupConfigId) ≠
            (target.sourceType, target.sourceRefId, target.backupConfigId) then
          .error unavailable
        else .ok target
      | none, none => .error unavailable
      | none, some config =>
        if (config.sourceType, config.sourceRefId) ≠ (target.sourceType, target.sourceRefId) then
          .error unavailable
        else .ok target

def targetDirectories (tables : Tables) (chat : SessionLink) (target : BackupSourceSnapshot) :
    List SnapshotDirectory :=
  tables.directories.filter fun row =>
    row.organizationId = chat.organizationId ∧ row.sourceSnapshotId = target.id ∧
      row.status = "available"

def oldDirectory (tables : Tables) (chat : SessionLink) (id : Int) : Option SnapshotDirectory :=
  tables.directories.find? fun row => row.organizationId = chat.organizationId ∧ row.id = id

def resolveUpdateScopes (m : CaseMapping) (tables : Tables) (chat : SessionLink)
    (snapshotId : Int) : Except String (BackupSourceSnapshot × List UpdateScope) := do
  let (ks, binding) ← checkChat chat
  let target ← checkTarget tables chat ks snapshotId
  let scopes := scopeEntries ks
  if scopes = [] then .error "Chat has no selected source paths."
  else do
    let scopePaths := scopes.map sourcePathOf
    let targets := scopePaths.map (mapScopeToWorkspace m binding.resolvedPath scopePaths)
    if ¬ targets.Pairwise (fun other current => targetsOverlap current other = false) then
      .error "Overlapping Chat data selections cannot be updated safely."
    else do
      -- every stored identity is read before a scope is bound
      let _ ← scopes.mapM oldDirectoryId
      let rebound ← scopes.mapM
        (rebindScope m (targetDirectories tables chat target) (oldDirectory tables chat))
      .ok (target, rebound)

end HyperFileLens.Lens.ChatUpdate
