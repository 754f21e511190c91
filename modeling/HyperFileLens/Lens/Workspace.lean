import HyperFileLens.Lens.WorkspaceFiles
import HyperFileLens.Library.FilePath

/-!
# Preparation and cleanup of managed workspaces

`runLensKsPrepare` and `runLensKsCleanup` of `lens_prepare.go`, and what they call.

*Preparation.*  Under the lock of the workspace UID: refuse a UID that has a tombstone,
go on with the identity that is there, or write a new one when there is no workspace
yet, and make the directory.

*Cleanup.*  Under the lock: check the tombstone and the identity, write a retiring
tombstone and move the workspace to the trash. Without the lock: remove the trash. Under
the lock again: remove the identity and write the retired tombstone.

A path that was cleaned is the list of its names.
-/

namespace HyperFileLens.Lens

open Service FileTree FilePath

/-- `uuid.Parse` and the text of its result. -/
structure UUIDPackage where
  parse : String → Option String
  /-- The text is one name of a path. -/
  plain : ∀ s u, parse s = some u → FsTree.IsPlain u.toList ∧ '/' ∉ u.toList

structure LensPayload where
  path : List Char
  workspaceRoot : List Char
  workspaceUID : String
  tenantOrganizationID : String
  gatewayLinkID : String
  knowledgeSourceID : String
  workspaceKind : String
deriving DecidableEq

def lensWorkspaceIdentityKind : String := "managed_restore"

def lensWorkspaceTombstoneRetiring : String := "retiring"

def lensWorkspaceTombstoneRetired : String := "retired"

def lensWorkspaceTrashDirectory : Name := ".hyperfilelens-trash".toList

/-! ## Identity and paths -/

def lensWorkspaceIdentityFromPayload (uuid : UUIDPackage) (p : LensPayload) :
    Except String LensWorkspaceIdentity :=
  if p.workspaceUID = "" ∨ p.tenantOrganizationID = "" ∨ p.gatewayLinkID = "" ∨
      p.knowledgeSourceID = "" then
    .error "managed workspace identity is incomplete"
  else if p.workspaceKind ≠ lensWorkspaceIdentityKind then
    .error "unsupported managed workspace kind"
  else
    match uuid.parse p.workspaceUID with
    | none => .error "managed workspace UID is invalid"
    | some workspaceUID =>
      if workspaceUID ≠ Text.lower p.workspaceUID then
        .error "managed workspace UID is invalid"
      else
        .ok {
          version := 1
          workspaceUID := workspaceUID
          tenantOrganizationID := p.tenantOrganizationID
          gatewayLinkID := p.gatewayLinkID
          knowledgeSourceID := p.knowledgeSourceID
          workspaceKind := p.workspaceKind }

structure LensWorkspacePaths where
  root : Path
  workspace : Path
  metadataRoot : Path
  identityRoot : Path
  identity : Path
  tombstoneRoot : Path
  tombstone : Path
  lockRoot : Path
  lock : Path
  trashRoot : Path
  trash : Path
deriving DecidableEq

def lensWorkspacePaths (root workspace : Path) (workspaceUID : String) : LensWorkspacePaths :=
  let metadataRoot := root.dropLast ++ [".hyperfilelens".toList]
  let identityRoot := metadataRoot ++ ["identities".toList]
  let tombstoneRoot := metadataRoot ++ ["tombstones".toList]
  let lockRoot := metadataRoot ++ ["locks".toList]
  let trashRoot := root ++ [lensWorkspaceTrashDirectory]
  { root := root
    workspace := workspace
    metadataRoot := metadataRoot
    identityRoot := identityRoot
    identity := identityRoot ++ [(workspaceUID ++ ".json").toList]
    tombstoneRoot := tombstoneRoot
    tombstone := tombstoneRoot ++ [(workspaceUID ++ ".json").toList]
    lockRoot := lockRoot
    lock := lockRoot ++ [(workspaceUID ++ ".lock").toList]
    trashRoot := trashRoot
    trash := trashRoot ++ [workspaceUID.toList] }

def checkPathText (field : String) (value : List Char) : Except String Unit :=
  if value.any fun c => c = '\x00' || c = '\\' then
    .error (field ++ " contains an unsupported character")
  else if (value.splitOn '/').any fun n => n = ['.'] || n = dotDot then
    .error (field ++ " contains an unsafe path component")
  else .ok ()

def resolveLensWorkspacePaths (path workspaceRoot : List Char) (workspaceUID : String) :
    Except String LensWorkspacePaths := do
  let rawRoot := Text.trimSpace workspaceRoot
  let rawPath := Text.trimSpace path
  checkPathText "path" rawPath
  checkPathText "workspace_root" rawRoot
  if !isAbs rawRoot || !isAbs rawPath then .error "path and workspace_root must be absolute"
  else
    let relative := rel (clean rawRoot) (clean rawPath)
    if relative = [] ∨ relative.head? = some dotDot then
      .error "path must be a child of workspace_root"
    else if relative.head? = some lensWorkspaceTrashDirectory then
      .error "path is reserved for managed workspace cleanup"
    else .ok (lensWorkspacePaths (clean rawRoot) (clean rawPath) workspaceUID)

def pathText (path : Path) : List Char := '/' :: ['/'].intercalate path

def validateLinuxAbsolutePath (path : List Char) (field : String) : Except String Path :=
  let path := Text.trimSpace path
  if path = [] then .error (field ++ " is required")
  else if path.any (fun c => c = '\x00' || c = '\\') || !isAbs path then
    .error (field ++ " must be an absolute Linux path")
  else if (path.splitOn '/').any fun n => n = ['.'] || n = dotDot then
    .error (field ++ " contains an unsafe path component")
  else .ok (clean path)

/-- `secureRelativePath` of a path that may not be the root. -/
def secureRelativePath (path allowedRoot : Path) : Except String (Path × List Name) := do
  let cleanRoot ← validateLinuxAbsolutePath (pathText allowedRoot) "allowed_root"
  let cleanPath ← validateLinuxAbsolutePath (pathText path) "path"
  let relative := rel cleanRoot cleanPath
  if relative.head? = some dotDot then .error "path must be contained by allowed_root"
  else if relative = [] then .error "path must be a child of allowed_root"
  else .ok (cleanRoot, relative)

/-! ## Directories -/

def secureOpenDirectory (path allowedRoot : Path) : LensProg Unit := do
  let (cleanRoot, relative) ← orRaise (secureRelativePath path allowedRoot)
  let root ← openDirectory cleanRoot
  match root with
  | .error error => .fail ("allowed_root is not a safe directory: " ++ error.message)
  | .ok () =>
    let directory ← openDirectory (cleanRoot ++ relative)
    orFail directory

/-- The loop of `secureEnsureDirectory` over the components of the path. -/
def ensureComponents (who : Option LensWorkspaceIdentity) :
    Path → List Name → Bool → LensProg Bool
  | _, [], created => pure created
  | current, component :: rest, created => do
      let next ← openDirectory (current ++ [component])
      match next with
      | .ok () => ensureComponents who (current ++ [component]) rest created
      | .error error =>
        if error.isNotExist then do
          let made ← mkdirat (current ++ [component]) who
          match made with
          | .error error =>
            if error.isExist then do
              let next ← openDirectory (current ++ [component])
              orFail next
              ensureComponents who (current ++ [component]) rest true
            else .fail error.message
          | .ok () => do
              let next ← openDirectory (current ++ [component])
              orFail next
              ensureComponents who (current ++ [component]) rest true
        else .fail error.message

def secureEnsureDirectory (path allowedRoot : Path) (who : Option LensWorkspaceIdentity) :
    LensProg (Path × Bool) := do
  let (cleanRoot, relative) ← orRaise (secureRelativePath path allowedRoot)
  let root ← openDirectory cleanRoot
  match root with
  | .error error => .fail ("allowed_root is not a safe directory: " ++ error.message)
  | .ok () =>
    let created ← ensureComponents who cleanRoot relative false
    pure (cleanRoot ++ relative, created)

/-- One directory of `ensureLensMetadataLayout`. -/
def ensureLensMetadataDirectory (base path : Path) : LensProg Unit := do
  let ensured ← (secureEnsureDirectory path base none).attempt
  match ensured with
  | .error message => .fail ("create protected gateway metadata: " ++ message)
  | .ok _ =>
    let changed ← chmod path
    match changed with
    | .error error => .fail ("protect gateway metadata: " ++ error.message)
    | .ok () => pure ()

def ensureLensMetadataLayout (paths : LensWorkspacePaths) : LensProg Unit := do
  let base := paths.root.dropLast
  ensureLensMetadataDirectory base paths.metadataRoot
  ensureLensMetadataDirectory base paths.identityRoot
  ensureLensMetadataDirectory base paths.tombstoneRoot
  ensureLensMetadataDirectory base paths.lockRoot
  ensureLensMetadataDirectory base paths.trashRoot

/-! ## Identity and tombstone -/

def readRegular (path : Path) (what : String) : LensProg (Except LensError LensFile) := do
  let info ← lstat path
  match info with
  | .error error => pure (.error error)
  | .ok (.file _) => readFile path
  | .ok _ => pure (.error (.other ("managed workspace " ++ what ++ " is not a regular file")))

def readLensWorkspaceTombstone (path : Path) :
    LensProg (Except LensError LensWorkspaceTombstone) := do
  let encoded ← readRegular path "tombstone"
  match encoded with
  | .error error => pure (.error error)
  | .ok content =>
    match content.asTombstone with
    | none => pure (.error (.other "managed workspace tombstone is invalid"))
    | some tombstone =>
      if tombstone.version ≠ 1 ∨
          (tombstone.state ≠ lensWorkspaceTombstoneRetiring ∧
            tombstone.state ≠ lensWorkspaceTombstoneRetired) then
        pure (.error (.other "managed workspace tombstone has an unsupported state"))
      else pure (.ok tombstone)

def validateLensWorkspaceTombstone (tombstone : LensWorkspaceTombstone)
    (identity : LensWorkspaceIdentity) (workspacePath : Path) : LensProg Unit :=
  if tombstone.identity ≠ identity ∨ tombstone.workspacePath ≠ workspacePath then
    .fail "managed workspace tombstone identity does not match"
  else pure ()

def replaceLensWorkspaceTombstone (destination : Path) : LensProg Unit := do
  let replaced ← replaceWithTemp destination
  orFail replaced
  let synced ← syncDirectory destination.dropLast
  orFail synced

/-- The temporary file of `writeLensWorkspaceTombstone`, from `Chmod` on. -/
def fillLensWorkspaceTombstone (path : Path) (tombstone : LensWorkspaceTombstone) :
    LensProg Unit := do
  let changed ← settleTemp
  orFail changed
  let written ← writeTemp (.tombstone tombstone)
  orFail written
  let synced ← settleTemp
  orFail synced
  let closed ← settleTemp
  orFail closed
  replaceLensWorkspaceTombstone path

def writeLensWorkspaceTombstone (path : Path) (tombstone : LensWorkspaceTombstone) :
    LensProg Unit := do
  let file ← createTemp path.dropLast
  orFail file
  let filled ← (fillLensWorkspaceTombstone path tombstone).attempt
  match filled with
  | .ok () => pure ()
  | .error message =>
    removeTemp
    .fail message

def newLensWorkspaceTombstone (identity : LensWorkspaceIdentity) (workspacePath : Path)
    (state : String) (existing : LensWorkspaceTombstone) : LensProg LensWorkspaceTombstone := do
  let now ← timeNow
  pure {
    version := 1
    state := state
    identity := identity
    workspacePath := workspacePath
    createdAt := if existing.createdAt ≠ "" then existing.createdAt else now
    updatedAt := now }

def readLensWorkspaceIdentity (identityPath : Path) :
    LensProg (Except LensError LensWorkspaceIdentity) := do
  let encoded ← readRegular identityPath "identity"
  match encoded with
  | .error error => pure (.error error)
  | .ok content =>
    match content.asIdentity with
    | none => pure (.error (.other "managed workspace identity is invalid"))
    | some identity => pure (.ok identity)

/-- The file of `writeLensWorkspaceIdentity`, from `Write` on. -/
def fillLensWorkspaceIdentity (identityPath : Path) (identity : LensWorkspaceIdentity) :
    LensProg (Except LensError Unit) := do
  let written ← writeFile identityPath (.identity identity)
  match written with
  | .error error => pure (.error error)
  | .ok () =>
    let synced ← settle identityPath
    match synced with
    | .error error => pure (.error error)
    | .ok () => settle identityPath

def writeLensWorkspaceIdentity (identityPath : Path) (identity : LensWorkspaceIdentity) :
    LensProg (Except LensError Unit) := do
  let file ← createExclusive identityPath
  match file with
  | .error error => pure (.error error)
  | .ok () =>
    let filled ← fillLensWorkspaceIdentity identityPath identity
    match filled with
    | .ok () => pure (.ok ())
    | .error error =>
      -- the file is closed and removed, whether that succeeds or not
      let _ ← remove identityPath
      pure (.error error)

def validateLensWorkspaceIdentity (identityPath : Path) (expected : LensWorkspaceIdentity) :
    LensProg Unit := do
  let existing ← readLensWorkspaceIdentity identityPath
  match existing with
  | .error _ => .fail "managed workspace identity is missing or invalid"
  | .ok existing =>
    if existing ≠ expected then .fail "managed workspace identity does not match" else pure ()

/-! ## Preparation -/

/-- `ctx.Err()` before the work. -/
def checkContext (message : Option String) : LensProg Unit := do
  let err ← ctxErr
  match err with
  | some error => .fail (message.getD error)
  | none => pure ()

def withLensWorkspaceLock {α : Type} (lockPath : Path) (action : LensProg α) : LensProg α := do
  checkContext none
  let locked ← acquireLensWorkspaceFileLock lockPath
  orFail locked
  let result ← (do checkContext none; action : LensProg α).attempt
  unlock lockPath
  orRaise result

/-- Write the identity unless another run has just written the same one. -/
def claimLensWorkspaceIdentity (identityPath : Path) (identity : LensWorkspaceIdentity) :
    LensProg Unit := do
  let written ← writeLensWorkspaceIdentity identityPath identity
  match written with
  | .ok () => pure ()
  | .error error =>
    if error.isExist then do
      let existing ← readLensWorkspaceIdentity identityPath
      match existing with
      | .error _ => .fail "managed workspace identity does not match"
      | .ok existing =>
        if existing ≠ identity then .fail "managed workspace identity does not match"
        else pure ()
    else .fail error.message

def refuseExistingWorkspace (workspace : Path) : LensProg Unit := do
  let info ← lstat workspace
  match info with
  | .ok _ => .fail "refusing to claim an existing workspace without identity"
  | .error error => if error.isNotExist then pure () else .fail error.message

/-- What `runLensKsPrepare` does after it found no tombstone. -/
def prepareWorkspace (paths : LensWorkspacePaths) (identity : LensWorkspaceIdentity) :
    LensProg (Path × Bool) := do
  let existing ← readLensWorkspaceIdentity paths.identity
  match existing with
  | .ok existing =>
    if existing ≠ identity then .fail "managed workspace identity does not match"
    else secureEnsureDirectory paths.workspace paths.root (some identity)
  | .error error =>
    if error.isNotExist then do
      refuseExistingWorkspace paths.workspace
      claimLensWorkspaceIdentity paths.identity identity
      secureEnsureDirectory paths.workspace paths.root (some identity)
    else .fail error.message

/-- What `runLensKsPrepare` does under the lock. -/
def prepareLocked (paths : LensWorkspacePaths) (identity : LensWorkspaceIdentity) :
    LensProg (Path × Bool) := do
  let tombstone ← readLensWorkspaceTombstone paths.tombstone
  match tombstone with
  | .ok tombstone =>
    validateLensWorkspaceTombstone tombstone identity paths.workspace
    .fail "managed workspace UID has been retired"
  | .error error =>
    if error.isNotExist then prepareWorkspace paths identity else .fail error.message

/-- `runLensKsPrepare`, after the payload was read: the path and whether it was created. -/
def prepare (paths : LensWorkspacePaths) (identity : LensWorkspaceIdentity) :
    LensProg (Path × Bool) := do
  ensureLensMetadataLayout paths
  withLensWorkspaceLock paths.lock (prepareLocked paths identity)

/-! ## Cleanup -/

def pathMissing (path : Path) : LensProg Bool := do
  let info ← lstat path
  match info with
  | .error error => pure error.isNotExist
  | .ok _ => pure false

/-- The result map of `runLensKsCleanup`. -/
structure LensCleanupResult where
  path : Path
  removed : Bool := false
  workspaceUID : String
  workspaceQuarantined : Bool := false
  purgeComplete : Bool := false
  tombstoneState : String := ""
  error : Option String := none
deriving DecidableEq

inductive CleanupFound where
  | retired
  | present (tombstone : LensWorkspaceTombstone) (workspaceExists trashExists : Bool)

section

variable (paths : LensWorkspacePaths)

section

variable (identity : LensWorkspaceIdentity)

def checkCleanupIdentity
    (workspaceMissing trashMissing identityMissing : Bool) : LensProg Unit :=
  if !identityMissing then validateLensWorkspaceIdentity paths.identity identity
  else if !workspaceMissing || !trashMissing then
    .fail "managed workspace identity is missing or invalid"
  else pure ()

/-- The checks of `runLensKsCleanup` under the lock. -/
def checkCleanup :
    LensProg CleanupFound := do
  let workspaceMissing ← pathMissing paths.workspace
  let trashMissing ← pathMissing paths.trash
  let identityMissing ← pathMissing paths.identity
  let tombstone ← readLensWorkspaceTombstone paths.tombstone
  match tombstone with
  | .ok tombstone =>
    validateLensWorkspaceTombstone tombstone identity paths.workspace
    if tombstone.state = lensWorkspaceTombstoneRetired then
      if !workspaceMissing || !trashMissing || !identityMissing then
        .fail "retired managed workspace has unexpected artifacts"
      else pure .retired
    else if tombstone.state ≠ lensWorkspaceTombstoneRetiring then
      .fail "managed workspace tombstone has an unsupported state"
    else
      checkCleanupIdentity paths identity workspaceMissing trashMissing identityMissing
      pure (.present tombstone (!workspaceMissing) (!trashMissing))
  | .error error =>
    if error.isNotExist then do
      checkCleanupIdentity paths identity workspaceMissing trashMissing identityMissing
      pure (.present {} (!workspaceMissing) (!trashMissing))
    else .fail error.message

def writeState (state : String)
    (existing : LensWorkspaceTombstone) : LensProg Unit := do
  let tombstone ← newLensWorkspaceTombstone identity paths.workspace state existing
  writeLensWorkspaceTombstone paths.tombstone tombstone

/-- Move the workspace to the trash, and return whether there is something to remove. -/
def quarantineWorkspace
    (workspaceExists trashExists : Bool) : LensProg Bool :=
  if workspaceExists && trashExists then .fail "managed workspace and trash both exist"
  else if workspaceExists then do
    secureOpenDirectory paths.workspace paths.root
    let renamed ← rename paths.workspace paths.trash identity
    orFail renamed
    pure true
  else pure trashExists

/-- How far the first part of a cleanup has come. -/
structure CleanupProgress where
  removed : Bool := false
  alreadyRetired : Bool := false
  workspaceQuarantined : Bool := false
  tombstoneState : String := ""
  error : Option String := none

/-- What `runLensKsCleanup` does first under the lock. -/
def quarantineLocked :
    LensProg CleanupProgress := do
  let checked ← (checkCleanup paths identity).attempt
  match checked with
  | .error message => pure { error := some message }
  | .ok .retired => pure {
      alreadyRetired := true
      workspaceQuarantined := true
      tombstoneState := lensWorkspaceTombstoneRetired }
  | .ok (.present tombstone workspaceExists trashExists) =>
    let written ← (writeState paths identity lensWorkspaceTombstoneRetiring tombstone).attempt
    match written with
    | .error message => pure { error := some message }
    | .ok () =>
      let moved ← (quarantineWorkspace paths identity workspaceExists trashExists).attempt
      match moved with
      | .error message => pure {
          tombstoneState := lensWorkspaceTombstoneRetiring
          error := some message }
      | .ok removed => pure {
          removed := removed
          workspaceQuarantined := true
          tombstoneState := lensWorkspaceTombstoneRetiring }

def somePresent : List Path → LensProg Bool
  | [] => pure false
  | path :: paths => do
      let missing ← pathMissing path
      if missing then somePresent paths else pure true

/-- Remove the identity, and write the retired tombstone. -/
def retireIdentity
    (finalTombstone : LensWorkspaceTombstone) : LensProg Unit := do
  let removed ← remove paths.identity
  match removed with
  | .ok () => writeState paths identity lensWorkspaceTombstoneRetired finalTombstone
  | .error error =>
    if error.isNotExist then
      writeState paths identity lensWorkspaceTombstoneRetired finalTombstone
    else .fail error.message

/-- What `runLensKsCleanup` does last under the lock. -/
def retireLocked :
    LensProg Unit := do
  let finalTombstone ← readLensWorkspaceTombstone paths.tombstone
  let finalTombstone ← orFail finalTombstone
  validateLensWorkspaceTombstone finalTombstone identity paths.workspace
  if finalTombstone.state = lensWorkspaceTombstoneRetired then do
    let present ← somePresent [paths.workspace, paths.trash, paths.identity]
    if present then .fail "retired managed workspace has unexpected artifacts" else pure ()
  else if finalTombstone.state ≠ lensWorkspaceTombstoneRetiring then
    .fail "managed workspace tombstone has an unsupported state"
  else do
    let present ← somePresent [paths.workspace, paths.trash]
    if present then .fail "managed workspace cleanup is incomplete"
    else retireIdentity paths identity finalTombstone

/-- Remove the trash, unless it is gone. -/
def purgeTrash : LensProg Unit := do
  let missing ← pathMissing paths.trash
  if missing then pure ()
  else do
    let purged ← removeLensWorkspaceTrash paths.trash identity
    orFail purged

/-- `runLensKsCleanup`, after the payload was read. -/
def cleanup :
    LensProg LensCleanupResult := do
  ensureLensMetadataLayout paths
  let cleanupResult (progress : CleanupProgress) (purgeComplete : Bool) : LensCleanupResult := {
    path := paths.workspace
    removed := progress.removed
    workspaceUID := identity.workspaceUID
    workspaceQuarantined := progress.workspaceQuarantined
    purgeComplete := purgeComplete
    tombstoneState := progress.tombstoneState
    error := progress.error }
  let locked ← (withLensWorkspaceLock paths.lock (quarantineLocked paths identity)).attempt
  match locked with
  | .error message => pure (cleanupResult { error := some message } false)
  | .ok progress =>
    if progress.error.isSome then pure (cleanupResult progress false)
    else if progress.alreadyRetired then pure (cleanupResult progress true)
    else do
      let purged ← (purgeTrash paths identity).attempt
      match purged with
      | .error message =>
        pure (cleanupResult { progress with error := some message } false)
      | .ok () =>
        let retired ← (withLensWorkspaceLock paths.lock (retireLocked paths identity)).attempt
        match retired with
        | .error message =>
          pure (cleanupResult { progress with error := some message } true)
        | .ok () =>
          pure (cleanupResult
            { progress with tombstoneState := lensWorkspaceTombstoneRetired } true)

end

end

/-! ## Tasks -/

inductive LensJob where
  | prepare (payload : LensPayload)
  | cleanup (payload : LensPayload)
deriving DecidableEq

def LensJob.payload : LensJob → LensPayload
  | .prepare payload => payload
  | .cleanup payload => payload

inductive LensResult where
  | prepared (path : Path) (created : Bool)
  | cleaned (result : LensCleanupResult)
deriving DecidableEq

def LensPayload.site (uuid : UUIDPackage) (p : LensPayload) :
    Except String (LensWorkspaceIdentity × LensWorkspacePaths) := do
  let identity ← lensWorkspaceIdentityFromPayload uuid p
  let paths ← resolveLensWorkspacePaths p.path p.workspaceRoot identity.workspaceUID
  return (identity, paths)

/-- What a task does once its payload is read. -/
def LensJob.work (identity : LensWorkspaceIdentity) (paths : LensWorkspacePaths) :
    LensJob → LensProg LensResult
  | .prepare _ => do
      let (path, created) ← Lens.prepare paths identity
      pure (.prepared path created)
  | .cleanup _ => do
      let result ← Lens.cleanup paths identity
      pure (.cleaned result)

/-- `runLensKsPrepare` and `runLensKsCleanup`. -/
def LensJob.run (uuid : UUIDPackage) (job : LensJob) : LensProg LensResult := do
  checkContext (some "canceled")
  let (identity, paths) ← orRaise (job.payload.site uuid)
  job.work identity paths

end HyperFileLens.Lens
