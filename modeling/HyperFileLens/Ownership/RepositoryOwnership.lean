import HyperFileLens.Cleanup.RepositoryPath
import HyperFileLens.Ownership.MarkerFiles

/-!
# Ownership of filesystem repositories

The functions of `repository_ownership.go` that claim, verify and compare the ownership
of a repository on a file system.

*Claim.*  Refuse owners above the repository, make its directory, which has to be empty,
create the marker, write it, and check again above, below and at the repository.

*Verification.*  Refuse owners above and compare the marker. With adoption, refuse owners
below, create a marker that is missing, and check again.

*Walks.*  A walk visits every directory below the repository. It is followed down to a
depth, and the run stops there.

The texts of the errors leave out the values that they quote.
-/

namespace HyperFileLens.Ownership

open Service FileTree FilePath Storage Cleanup

/-! ## The path -/

/-- `repositorySpec`, as far as ownership goes. -/
structure RepositorySpec where
  type : String := "nas"
  id : Int := 0
  path : List Char := []
  basePath : List Char := []
  layout : String := ""
  subdir : List Char := []
  /-- `nassvc.ResolvedMountPoint` of `TargetNAS`. -/
  mountPoint : Option (List Char) := none
  ownership : Option RepositoryOwnership := none
deriving DecidableEq

/-- `strings.HasPrefix` of a relative path and `".."`. -/
def startsUp (path : List Char) : Bool := dotDot.isPrefixOf path

/-- `nassvcResolvedMountPoint`. -/
def resolvedMountPoint (spec : RepositorySpec) : List Char :=
  match spec.mountPoint with
  | none => []
  | some mountPoint => cleanText mountPoint

/-- `repositoryNASPath`. Below a root that is not absolute the path is not absolute
either. -/
def repositoryNASPath (spec : RepositorySpec) : Except String (List Char) :=
  match spec.mountPoint with
  | none => .error "repository.nas is required for nas repositories"
  | some mountPoint =>
    let subdir := cleanText (Text.trimSpace spec.subdir)
    if subdir = ['.'] || isAbs subdir || startsUp subdir then
      .error "invalid nas repository subdir"
    else
      let root := cleanText mountPoint
      let full := cleanText (cleanText (root ++ '/' :: subdir))
      if isAbs root && (rel (clean root) (clean full) = [] ||
          (rel (clean root) (clean full)).head?.any startsUp) then
        .error "nas repository path escapes mount point"
      else .ok full

/-- The directory of a managed repository of a proxy. -/
def managedName (id : Int) : Name := "hfl-repo-".toList ++ (toString id).toList

/-- The checks of `validateManagedProxyFSRepositoryPath` before it looks at the path: the
path and its base. -/
def managedProxyFSPath (spec : RepositorySpec) : Except String (List Char × List Char) :=
  let base := cleanText (Text.trimSpace spec.basePath)
  let path := cleanText (Text.trimSpace spec.path)
  if spec.layout ≠ "managed_subdir_v1" then
    .error "refusing to delete an unmanaged proxy filesystem repository"
  else if spec.id ≤ 0 then .error "managed proxy filesystem repository id is required"
  else if !isAbs base || clean base = [] then
    .error "managed proxy filesystem base path is invalid"
  else if path ≠ cleanText (base ++ '/' :: managedName spec.id) ||
      (clean path).dropLast ≠ clean base then
    .error "managed proxy filesystem repository path does not match its owner"
  else .ok (path, base)

def orRaise {α : Type} : Except String α → FsProg α
  | .error message => .fail message
  | .ok a => pure a

def validateManagedProxyFSRepositoryPath (spec : RepositorySpec) :
    FsProg (List Char × List Char) := do
  let place ← orRaise (managedProxyFSPath spec)
  let validated ← validateRepositoryCleanupPath place.1 place.2
  pure (textOf validated, place.2)

/-- `filesystemRepositoryOwnershipPath`: the path of the repository and its allowed root. -/
def filesystemRepositoryOwnershipPath (spec : RepositorySpec) : FsProg (List Char × List Char) :=
  if spec.type = "nas" then do
    let path ← orRaise (repositoryNASPath spec)
    pure (path, resolvedMountPoint spec)
  else if spec.type = "proxy_fs" then
    if spec.layout ≠ "managed_subdir_v1" then
      .fail "unmanaged local repositories cannot be claimed"
    else validateManagedProxyFSRepositoryPath spec
  else .fail "repository ownership is unsupported"

/-! ## Directories -/

/-- The last directory of `os.MkdirAll`. -/
def mkdirLast (path : Path) : OwnershipProg Unit := do
  let answer ← mkdir path
  match answer with
  | .ok () => pure ()
  | .error error => do
      let info ← lstat path
      match info with
      | .ok .dir => pure ()
      | _ => .fail error.message

/-- `os.MkdirAll` of a path that was validated, from its last name on. -/
def mkdirAllNames : List Name → OwnershipProg Unit
  | [] => do
      let answer ← lstat []
      match answer with
      | .ok .dir => pure ()
      | .ok _ => .fail "not a directory"
      | .error error => .fail error.message
  | n :: above => do
      let answer ← lstat (n :: above).reverse
      match answer with
      | .ok .dir => pure ()
      | .ok _ => .fail "not a directory"
      | .error _ => do
          let _ ← (if above = [] then pure () else mkdirAllNames above)
          mkdirLast (n :: above).reverse

def mkdirAll (path : Path) : OwnershipProg Unit := mkdirAllNames path.reverse

def orFail {ε α : Type} (message : ε → String) : Except ε α → OwnershipProg α
  | .error error => .fail (message error)
  | .ok a => pure a

/-! ## Other owners -/

def markerPathOf (repositoryPath : Path) : Path := repositoryPath ++ [metadataName, markerName]

/-- `readRepositoryOwnershipMarker`. -/
def readMarker (repositoryPath : Path) : OwnershipProg (Option RepositoryOwnershipMarker) :=
  ofFs (readRepositoryOwnershipMarker (markerPathOf repositoryPath))

/-- `requireMatchingRepositoryOwner`. -/
def requireMatching (marker : RepositoryOwnershipMarker) (expected : RepositoryOwnership) :
    OwnershipProg Unit := ofFs (requireMatchingRepositoryOwner marker expected)

/-- The loop of `rejectAncestorRepositoryOwners`, from the last name of a path on. No path
below the root leads to a directory without a parent. -/
def rejectAncestorNames (root : Path) : List Name → OwnershipProg Unit
  | [] =>
    if root = [] then pure ()
    else .fail "repository ownership path escapes its managed root"
  | n :: above =>
    let current := (n :: above).reverse
    if current = root then pure ()
    else if (rel root current).head? = some dotDot then
      .fail "repository ownership path escapes its managed root"
    else do
      let marker ← readMarker current
      match marker with
      | some _ => .fail "repository directory is nested inside another managed repository"
      | none => rejectAncestorNames root above

def rejectAncestorRepositoryOwners (repositoryPath root : Path) : OwnershipProg Unit :=
  rejectAncestorNames root repositoryPath.reverse.tail

/-- A path below a repository is the marker of another one. -/
def isForeignMarker (below : List Name) : Bool :=
  [metadataName, markerName].isSuffixOf below && below ≠ [metadataName, markerName]

/-- The entries of a directory, in `filepath.WalkDir` of `rejectDescendantRepositoryOwners`. -/
def rejectEntries (walk : Name → OwnershipProg Unit) (below : List Name) :
    List (Name × Bool) → OwnershipProg Unit
  | [] => pure ()
  | (n, true) :: rest => do
      walk n
      rejectEntries walk below rest
  | (n, false) :: rest =>
    if isForeignMarker (below ++ [n]) then
      .fail "repository directory contains another managed repository"
    else rejectEntries walk below rest

/-- `filepath.WalkDir` of `rejectDescendantRepositoryOwners` in a directory below the
repository. -/
def rejectBelow (repositoryPath : Path) : Nat → List Name → OwnershipProg Unit
  | 0, _ => .cut
  | depth + 1, below => do
      let answer ← list (repositoryPath ++ below)
      let entries ← orFail FsError.message answer
      rejectEntries (fun n => rejectBelow repositoryPath depth (below ++ [n])) below entries

def rejectDescendantRepositoryOwners (depth : Nat) (repositoryPath : Path) : OwnershipProg Unit := do
  let answer ← lstat repositoryPath
  let info ← orFail FsError.message answer
  match info with
  | .dir => rejectBelow repositoryPath depth []
  | _ => pure ()

/-! ## The marker -/

/-- The part of `claimFilesystemRepositoryOwnership` and of
`writeLegacyRepositoryOwnershipMarker` that writes the new file. -/
def writeMarker (path : Path) (ownership : RepositoryOwnership) : OwnershipProg Unit := do
  let written ← write path (repositoryOwnershipMarkerFromSpec ownership)
  match written with
  | .error error => do
      let _ ← close path
      .fail error.message
  | .ok () => do
      let synced ← sync path
      let closed ← close path
      orFail OwnershipError.message synced
      orFail OwnershipError.message closed

def writeLegacyRepositoryOwnershipMarker (repositoryPath : Path) (ownership : RepositoryOwnership) :
    OwnershipProg Unit := do
  mkdirAll (repositoryPath ++ [metadataName])
  let answer ← create (markerPathOf repositoryPath)
  match answer with
  | .error error => if error.isExist then pure () else .fail error.message
  | .ok () => writeMarker (markerPathOf repositoryPath) ownership

def requireMarker (missing : String) (repositoryPath : Path) (ownership : RepositoryOwnership) :
    OwnershipProg Unit := do
  let marker ← readMarker repositoryPath
  match marker with
  | none => .fail missing
  | some marker => requireMatching marker ownership

/-- `.shards`. -/
def probeName : Name := ".shards".toList

def removeKopiaProbeResidue (repositoryPath : Path) (entries : List (Name × Bool)) :
    OwnershipProg Bool :=
  if entries.map Prod.fst ≠ [probeName] then pure false
  else do
    let answer ← lstat (repositoryPath ++ [probeName])
    let info ← orFail FsError.message answer
    match info with
    | .file _ => do
        let answer ← readProbe (repositoryPath ++ [probeName])
        let probe ← orFail FsError.message answer
        if probe then do
          let answer ← remove (repositoryPath ++ [probeName])
          orFail FsError.message answer
          pure true
        else pure false
    | _ => pure false

def errRepositoryDirectoryContainsData : String :=
  "the selected repository directory already contains data"

/-- The directory has no entries, but for a residue, which is removed. -/
def requireEmpty (repositoryPath : Path) : OwnershipProg Unit := do
  let answer ← list repositoryPath
  let entries ← orFail FsError.message answer
  if entries = [] then pure ()
  else do
    let recovered ← removeKopiaProbeResidue repositoryPath entries
    if !recovered then .fail errRepositoryDirectoryContainsData
    else do
      let answer ← list repositoryPath
      let entries ← orFail FsError.message answer
      if entries = [] then pure () else .fail errRepositoryDirectoryContainsData

/-! ## Claim and verification -/

/-- The part of `claimFilesystemRepositoryOwnership` after the new marker was created. -/
def settleMarker (depth : Nat) (repositoryPath root : Path) (ownership : RepositoryOwnership) :
    OwnershipProg Unit := do
  writeMarker (markerPathOf repositoryPath) ownership
  rejectAncestorRepositoryOwners repositoryPath root
  rejectDescendantRepositoryOwners depth repositoryPath
  requireMarker "repository ownership marker is not durable" repositoryPath ownership

/-- The part of `claimFilesystemRepositoryOwnership` for a repository without a marker. -/
def claimNew (depth : Nat) (repositoryPath root : Path) (ownership : RepositoryOwnership) :
    OwnershipProg Unit := do
  requireEmpty repositoryPath
  mkdirAll (repositoryPath ++ [metadataName])
  let answer ← create (markerPathOf repositoryPath)
  match answer with
  | .error error =>
    if error.isExist then
      requireMarker "repository ownership changed during initialization" repositoryPath ownership
    else .fail error.message
  | .ok () => settleMarker depth repositoryPath root ownership

def claimFilesystemRepositoryOwnership (depth : Nat) (spec : RepositorySpec) :
    OwnershipProg Unit :=
  match spec.ownership with
  | none => .fail "repository ownership payload is required"
  | some ownership => do
      let location ← ofFs (filesystemRepositoryOwnershipPath spec)
      let _ ← ofFs (validateRepositoryCleanupPath location.1 location.2)
      let repositoryPath := clean location.1
      rejectAncestorRepositoryOwners repositoryPath (clean location.2)
      mkdirAll repositoryPath
      let existing ← readMarker repositoryPath
      match existing with
      | some marker => do
          requireMatching marker ownership
          rejectDescendantRepositoryOwners depth repositoryPath
      | none => claimNew depth repositoryPath (clean location.2) ownership

/-- The part of `verifyFilesystemRepositoryOwnership` for a repository without a marker. -/
def adoptMarker (depth : Nat) (repositoryPath : Path) (ownership : RepositoryOwnership)
    (adoptMissing : Bool) : OwnershipProg RepositoryOwnershipMarker :=
  if !adoptMissing then .fail "repository ownership marker is missing"
  else do
    rejectDescendantRepositoryOwners depth repositoryPath
    writeLegacyRepositoryOwnershipMarker repositoryPath ownership
    let marker ← readMarker repositoryPath
    match marker with
    | none => .fail "repository ownership marker is not durable"
    | some marker => pure marker

/-- The last checks of `verifyFilesystemRepositoryOwnership`. -/
def recheck (depth : Nat) (repositoryPath root : Path) (adoptMissing : Bool) :
    OwnershipProg Unit :=
  if adoptMissing then do
    rejectAncestorRepositoryOwners repositoryPath root
    rejectDescendantRepositoryOwners depth repositoryPath
  else pure ()

def verifyFilesystemRepositoryOwnership (depth : Nat) (spec : RepositorySpec)
    (adoptMissing : Bool) : OwnershipProg Unit :=
  match spec.ownership with
  | none => pure ()
  | some ownership => do
      let location ← ofFs (filesystemRepositoryOwnershipPath spec)
      let _ ← ofFs (validateRepositoryCleanupPath location.1 location.2)
      let repositoryPath := clean location.1
      rejectAncestorRepositoryOwners repositoryPath (clean location.2)
      let existing ← readMarker repositoryPath
      let marker ← existing.elim (adoptMarker depth repositoryPath ownership adoptMissing) pure
      requireMatching marker ownership
      recheck depth repositoryPath (clean location.2) adoptMissing

def checkFilesystemRepositoryOwnershipIfPresent (spec : RepositorySpec) : OwnershipProg Unit :=
  match spec.ownership with
  | none => pure ()
  | some ownership => do
      let location ← ofFs (filesystemRepositoryOwnershipPath spec)
      let _ ← ofFs (validateRepositoryCleanupPath location.1 location.2)
      let repositoryPath := clean location.1
      rejectAncestorRepositoryOwners repositoryPath (clean location.2)
      let marker ← readMarker repositoryPath
      match marker with
      | none => pure ()
      | some marker => requireMatching marker ownership

def filesystemRepositoryOwnershipMatches (spec : RepositorySpec) : OwnershipProg Bool :=
  match spec.ownership with
  | none => pure false
  | some ownership => do
      let location ← ofFs (filesystemRepositoryOwnershipPath spec)
      let _ ← ofFs (validateRepositoryCleanupPath location.1 location.2)
      let marker ← readMarker (clean location.1)
      match marker with
      | none => pure false
      | some marker => do
          requireMatching marker ownership
          pure true

end HyperFileLens.Ownership
