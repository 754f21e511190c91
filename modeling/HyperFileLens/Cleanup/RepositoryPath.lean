import HyperFileLens.Library.FilePath
import HyperFileLens.Storage.Filesystem

/-!
# Deletion of a filesystem repository

The deletion of `repository_cleanup.go` and what it calls.

*With an owner.*  Validate the path, require the ownership marker, remove the
entries of the repository but for the marker, check that only the marker is left,
and remove the marker and its directories.

*Without.*  A legacy repository has no marker. Its path is validated and removed
with everything below it.

A path that was validated is the list of its names.
-/

namespace HyperFileLens.Cleanup

open Service FileTree FilePath Storage

structure RepositoryOwnership where
  markerPath : String
  deploymentUUID : String
  repositoryUUID : String
  locationDigest : String
  formatVersion : Int
  signature : String
deriving DecidableEq

def repositoryOwnershipMarkerFromSpec (ownership : RepositoryOwnership) :
    RepositoryOwnershipMarker where
  deploymentUUID := ownership.deploymentUUID
  repositoryUUID := ownership.repositoryUUID
  locationDigest := ownership.locationDigest
  formatVersion := ownership.formatVersion
  signature := ownership.signature

/-- The directory of `repositoryOwnershipMarkerPath`. -/
def metadataName : Name := ".hyperfilelens".toList

/-- The file of `repositoryOwnershipMarkerPath`. -/
def markerName : Name := "repository-owner-v1.json".toList

def orFail {α : Type} : Except FsError α → FsProg α
  | .error error => .fail error.message
  | .ok a => pure a

def checkContext : FsProg Unit := do
  let err ← ctxErr
  match err with
  | some message => .fail message
  | none => pure ()

/-! ## The path -/

/-- The loop of `rejectCleanupSymlinkComponents`. -/
def rejectSymlinkNames : Path → List Name → FsProg Unit
  | _, [] => pure ()
  | current, n :: rest => do
      let answer ← lstat (current ++ [n])
      match answer with
      | .error error => if error.isNotExist then pure () else .fail error.message
      | .ok (.symlink _) => .fail "repository cleanup path contains a symbolic link"
      | .ok _ => rejectSymlinkNames (current ++ [n]) rest

/-- The check of the root in `rejectCleanupSymlinkComponents`. It ignores errors. -/
def rejectSymlinkRoot (root : Path) : FsProg Unit := do
  let answer ← lstat root
  match answer with
  | .ok (.symlink _) => .fail "repository cleanup root must not be a symbolic link"
  | _ => pure ()

def rejectCleanupSymlinkComponents (path : Path) : Option Path → FsProg Unit
  | some root => do
      rejectSymlinkRoot root
      rejectSymlinkNames root (rel root path)
  | none => rejectSymlinkNames [] (rel [] path)

/-- The allowed root of `validateRepositoryCleanupPath`. -/
def cleanupRoot (allowedRoot : List Char) : Option Path :=
  if Text.trimSpace allowedRoot = [] then none else some (clean allowedRoot)

def validateRepositoryCleanupPath (path allowedRoot : List Char) : FsProg Path := do
  let raw := Text.trimSpace path
  let cleaned := clean raw
  if raw = [] then .fail "repository cleanup path is required"
  else if !isAbs raw then .fail "repository cleanup path must be absolute"
  else if cleaned = [] then .fail "refusing to delete a filesystem root"
  else
    match cleanupRoot allowedRoot with
    | none =>
      rejectCleanupSymlinkComponents cleaned none
      pure cleaned
    | some root =>
      if !isAbs allowedRoot || root = [] then .fail "invalid repository cleanup root"
      else if rel root cleaned = [] || (rel root cleaned).head? = some dotDot then
        .fail "repository cleanup path escapes the allowed root"
      else
        rejectCleanupSymlinkComponents cleaned (some root)
        pure cleaned

/-! ## The marker -/

/-- Require a directory, after `Lstat`. -/
def requireDirectory : Except FsError FileInfo → FsProg Unit
  | .error error =>
    .fail (if error.isNotExist then "repository ownership marker is missing" else error.message)
  | .ok .dir => pure ()
  | .ok _ => .fail "repository ownership metadata path must be a directory"

/-- Require a regular file, after `Lstat`. -/
def requireRegular : Except FsError FileInfo → FsProg Unit
  | .error error =>
    .fail (if error.isNotExist then "repository ownership marker is missing" else error.message)
  | .ok (.file _) => pure ()
  | .ok _ => .fail "repository ownership marker must be a regular file"

def requireRegularRepositoryOwnershipMarker (metadataPath markerPath : Path) : FsProg Unit := do
  let metadataInfo ← lstat metadataPath
  requireDirectory metadataInfo
  let markerInfo ← lstat markerPath
  requireRegular markerInfo

/-- The check of a directory in `requireOnlyRepositoryOwnershipMarker`. -/
def requireOnlyName (path : Path) (n : Name) (what : String) : FsProg Unit := do
  let answer ← readDir path
  let entries ← orFail answer
  if entries = [n] then pure () else .fail what

def requireOnlyRepositoryOwnershipMarker (repositoryPath metadataPath markerPath : Path) :
    FsProg Unit := do
  requireRegularRepositoryOwnershipMarker metadataPath markerPath
  requireOnlyName repositoryPath metadataName "repository data appeared during cleanup"
  requireOnlyName metadataPath markerName "repository metadata appeared during cleanup"

/-- The content of the marker, for `readRepositoryOwnershipMarker`. -/
def decodeMarker (path : Path) : FsProg (Option RepositoryOwnershipMarker) := do
  let answer ← readFile path
  let content ← orFail answer
  match content with
  | none => .fail "repository ownership marker is invalid"
  | some marker => pure (some marker)

def readRepositoryOwnershipMarker (path : Path) : FsProg (Option RepositoryOwnershipMarker) := do
  let metadataInfo ← lstat path.dropLast
  match metadataInfo with
  | .error error => if error.isNotExist then pure none else .fail error.message
  | .ok .dir => do
      let markerInfo ← lstat path
      match markerInfo with
      | .error error => if error.isNotExist then pure none else .fail error.message
      | .ok (.file _) => decodeMarker path
      | .ok _ => .fail "repository ownership marker must be a regular file"
  | .ok _ => .fail "repository ownership metadata path must be a directory"

def requireMatchingRepositoryOwner (marker : RepositoryOwnershipMarker)
    (expected : RepositoryOwnership) : FsProg Unit :=
  if marker ≠ repositoryOwnershipMarkerFromSpec expected then
    .fail "physical repository ownership belongs to another repository"
  else pure ()

/-- The marker belongs to the expected owner, if one is expected. -/
def requireOwner (markerPath : Path) (missing : String) :
    Option RepositoryOwnership → FsProg Unit
  | none => pure ()
  | some expected => do
      let marker ← readRepositoryOwnershipMarker markerPath
      match marker with
      | none => .fail missing
      | some marker => requireMatchingRepositoryOwner marker expected

/-! ## Removal -/

def removeTree (path : Path) : FsProg Unit := do
  let answer ← removeAll path
  orFail answer

def removeOtherEntries (path : Path) (keep : Name) (entries : List Name) : FsProg Unit :=
  entries.forM fun n =>
    if n = keep then pure ()
    else do
      checkContext
      removeTree (path ++ [n])

/-- `os.Remove` of a directory that may be gone. -/
def removeDirectory (path : Path) : FsProg Unit := do
  let answer ← remove path
  match answer with
  | .error error => if error.isNotExist then pure () else .fail error.message
  | .ok () => pure ()

def requireGone (path : Path) : FsProg Unit := do
  let answer ← lstat path
  match answer with
  | .error error => if error.isNotExist then pure () else .fail error.message
  | .ok _ => .fail "repository cleanup path still exists"

/-- The part of the deletion after the checks. -/
def removeOwnedRepository (cleaned : Path) (expected : Option RepositoryOwnership) :
    FsProg Unit := do
  let metadataPath := cleaned ++ [metadataName]
  let markerPath := metadataPath ++ [markerName]
  let answer ← readDir cleaned
  let entries ← orFail answer
  removeOtherEntries cleaned metadataName entries
  let answer ← readDir metadataPath
  let metadataEntries ← orFail answer
  removeOtherEntries metadataPath markerName metadataEntries
  checkContext
  requireOnlyRepositoryOwnershipMarker cleaned metadataPath markerPath
  requireOwner markerPath "repository ownership marker changed during cleanup" expected
  removeTree markerPath
  removeDirectory metadataPath
  removeDirectory cleaned
  requireGone cleaned

/-- The deletion of what exists at a validated path. -/
def deleteOwnedDirectory (cleaned : Path) (expected : Option RepositoryOwnership) :
    FileInfo → FsProg Bool
  | .dir => do
      requireRegularRepositoryOwnershipMarker (cleaned ++ [metadataName])
        (cleaned ++ [metadataName] ++ [markerName])
      requireOwner (cleaned ++ [metadataName] ++ [markerName])
        "repository ownership marker is missing" expected
      removeOwnedRepository cleaned expected
      pure true
  | _ => .fail "owned repository cleanup path must be a directory"

/-- `deleteOwnedManagedRepositoryPathWithRemoverAndOwner`. It returns whether the path
existed. -/
def deleteOwnedManagedRepositoryPath (path allowedRoot : List Char)
    (expected : Option RepositoryOwnership) : FsProg Bool := do
  let cleaned ← validateRepositoryCleanupPath path allowedRoot
  checkContext
  let answer ← lstat cleaned
  match answer with
  | .error error => if error.isNotExist then pure false else .fail error.message
  | .ok info => deleteOwnedDirectory cleaned expected info

/-- The part of `deleteManagedRepositoryPath` after `Lstat`. -/
def deleteManagedEntry (cleaned : Path) : FileInfo → FsProg Bool
  | .symlink _ => .fail "repository cleanup path must not be a symbolic link"
  | _ => do
      removeTree cleaned
      checkContext
      requireGone cleaned
      pure true

/-- `deleteManagedRepositoryPath`. It returns whether the path existed. -/
def deleteManagedRepositoryPath (path allowedRoot : List Char) : FsProg Bool := do
  let cleaned ← validateRepositoryCleanupPath path allowedRoot
  checkContext
  let answer ← lstat cleaned
  match answer with
  | .error error => if error.isNotExist then pure false else .fail error.message
  | .ok info => deleteManagedEntry cleaned info

/-- The deletion of the repository in `runRepositoryCleanup`, where `ownership` is
`spec.Ownership`. -/
def deleteRepository (path allowedRoot : List Char) :
    Option RepositoryOwnership → FsProg Bool
  | some ownership => deleteOwnedManagedRepositoryPath path allowedRoot (some ownership)
  | none => deleteManagedRepositoryPath path allowedRoot

end HyperFileLens.Cleanup
