import HyperFileLens.Lens.Workspace

/-!
# Reconciliation of a restored workspace

`reconcileSnapshotWorkspaceWithMarker` of `lens_workspace_reconcile.go`, with the removal of an
entry from `lens_workspace_reconcile_linux.go` and the directories of `lens_secure_linux.go`.

*Snapshot.*  `list` answers or fails for every directory. A path in the snapshot is the list of
its names.

*Calls.*  A call fails whenever the environment chooses an error, and the context may be done at
every check. An open directory gives its entries in batches; it is known by where it is, and by
the names that it has given.

Every loop takes the number of rounds it is followed for.
-/

namespace HyperFileLens.Lens.Reconcile

open Service FileTree FilePath

/-! ## The snapshot -/

structure SnapshotWorkspaceEntry where
  name : Name
  dir : Bool
deriving DecidableEq

def maxWorkspaceEntriesPerDirectory : Nat := 250000

/-- What `list` answers. -/
abbrev SnapshotList := Path → Except String (List SnapshotWorkspaceEntry)

/-- The prefix and the suffix of the names of metadata. -/
def sourceLensAffix : Name := ".sourcelens".toList

def rootMarker : Name := ".sourcelens-datasource.json".toList

def isReserved (name : Name) : Bool :=
  name = [] || name = ['.'] || name = dotDot || name.any (fun c => c = '/' || c = '\\') ||
    sourceLensAffix.isSuffixOf name || sourceLensAffix.isPrefixOf name

/-- The loop of `reconcileSnapshotDirectory` that fills `expected`. -/
def expectedEntries (rows : List SnapshotWorkspaceEntry) :
    Except String (List SnapshotWorkspaceEntry) :=
  rows.foldlM (fun expected entry =>
    if isReserved entry.name then .error "snapshot contains an unsafe or reserved path"
    else if expected.any fun other => other.name = entry.name then
      .error "snapshot contains duplicate file names"
    else .ok (expected ++ [entry])) []

/-- `expected` has the name. -/
def isExpected (expected : List SnapshotWorkspaceEntry) (name : Name) : Bool :=
  expected.any fun entry => entry.name = name

/-! ## Calls -/

structure DirEntry where
  name : Name
  isDir : Bool
  isSymlink : Bool
deriving DecidableEq

def DirEntry.ofEntry {α : Type} (name : Name) : Entry α → DirEntry
  | .dir => ⟨name, true, false⟩
  | .symlink _ => ⟨name, false, true⟩
  | _ => ⟨name, false, false⟩

/-- How a batch of `ReadDir` ends. -/
inductive ReadEnd where
  | more
  | eof
  | failed (message : String)
deriving DecidableEq

inductive TreeCall where
  | ctxErr
  | lstat (path : Path)
  | openDirectory (path : Path)
  | readDir (path : Path) (given : List Name) (count : Nat)
  | fstatat (path : Path)
  | unlinkat (path : Path)
deriving DecidableEq

def TreeAnswer (α : Type) : TreeCall → Type
  | .ctxErr => Option String
  | .lstat _ => Except LensError (Entry α)
  | .openDirectory _ => Except LensError Unit
  | .readDir _ _ _ => List DirEntry × ReadEnd
  | .fstatat _ => Except LensError (Entry α)
  | .unlinkat _ => Except LensError Unit

/-- What the environment chooses for a call. -/
structure TreeChoice where
  error : Option String := none
  batch : Nat := 8192

section Server

variable {α : Type}

/-- An answer, unless the environment chooses an error. -/
def TreeChoice.answer {β : Type} (c : TreeChoice) (a : Except LensError β) : Except LensError β :=
  match c.error with
  | some message => .error (.other message)
  | none => a

/-- Open a directory without following a link. -/
def openDir (t : FsTree α) (path : Path) : Except LensError Unit :=
  if t.hasDir path then .ok () else .error (.file (.lookup .notDir))

def namesLeft (t : FsTree α) (path : Path) (given : List Name) : List Name :=
  (t.names path).filter fun n => n ∉ given

/-- `ReadDir`. -/
def readBatch (t : FsTree α) (path : Path) (given : List Name) (count : Nat) (c : TreeChoice) :
    List DirEntry × ReadEnd :=
  (((namesLeft t path given).take (min count c.batch)).filterMap fun n =>
      (t.get (path ++ [n])).map (DirEntry.ofEntry n),
    match c.error with
    | some message => .failed message
    | none => if namesLeft t path given = [] then .eof else .more)

/-- The tree after `Unlinkat`. -/
def unlinked (t : FsTree α) (path : Path) (c : TreeChoice) : Except LensError Unit × FsTree α :=
  match c.error, t.unlink path with
  | some message, _ => (.error (.other message), t)
  | none, .error error => (.error (.file error), t)
  | none, .ok t' => (.ok (), t')

def treeRespond (t : FsTree α) : (r : TreeCall) → TreeChoice → TreeAnswer α r × FsTree α
  | .ctxErr, c => (c.error, t)
  | .lstat path, c => (c.answer (ofLookup (t.lstat path)), t)
  | .openDirectory path, c => (c.answer (openDir t path), t)
  | .readDir path given count, c => (readBatch t path given count c, t)
  | .fstatat path, c => (c.answer (ofLookup (t.look path)), t)
  | .unlinkat path, c => unlinked t path c

def workspaceTree (α : Type) : Server (FsTree α) TreeCall (TreeAnswer α) TreeChoice where
  respond := treeRespond

end Server

/-! ## Directories -/

/-- A function that makes calls on a tree and may return an error. -/
abbrev TreeProg (α β : Type) := Prog TreeCall (TreeAnswer α) String β

section Program

variable {α : Type}

def orRaise {β : Type} : Except String β → TreeProg α β
  | .error message => .fail message
  | .ok b => .ret b

def orFail {β : Type} : Except LensError β → TreeProg α β
  | .error error => .fail error.message
  | .ok b => .ret b

/-- `if err := ctx.Err(); err != nil`. -/
def checkCtx : TreeProg α Unit := do
  let cancelled ← Prog.request TreeCall.ctxErr
  match cancelled with
  | some message => .fail message
  | none => pure ()

/-- `secureRelativePath` of a path that may be the root. -/
def secureRelativePath (path allowedRoot : Path) : Except String (Path × List Name) := do
  let cleanRoot ← validateLinuxAbsolutePath (pathText allowedRoot) "allowed_root"
  let cleanPath ← validateLinuxAbsolutePath (pathText path) "path"
  let relative := rel cleanRoot cleanPath
  if relative.head? = some dotDot then .error "path must be contained by allowed_root"
  else .ok (cleanRoot, relative)

def secureOpenAbsoluteDirectory (path : Path) : TreeProg α Path := do
  let cleanPath ← orRaise (validateLinuxAbsolutePath (pathText path) "path")
  let answer ← Prog.request (TreeCall.openDirectory cleanPath)
  orFail answer
  pure cleanPath

/-- `secureOpenDirectory`: the directory that is open. -/
def secureOpenDirectory (path allowedRoot : Path) : TreeProg α Path := do
  let (cleanRoot, relative) ← orRaise (secureRelativePath path allowedRoot)
  let rootDir ← secureOpenAbsoluteDirectory cleanRoot
  let answer ← Prog.request (TreeCall.openDirectory (rootDir ++ relative))
  orFail answer
  pure (rootDir ++ relative)

/-! ## Removal of an entry -/

/-- The loop of `removeWorkspaceEntryAt` over the entries of a directory. -/
def removeChildren (remove : Path → TreeProg α Unit) (path : Path) :
    Nat → List Name → TreeProg α Unit
  | 0, _ => .cut
  | rounds + 1, given => do
      let batch ← Prog.request (TreeCall.readDir path given 512)
      batch.1.forM fun entry => remove (path ++ [entry.name])
      match batch.2 with
      | .eof => pure ()
      | .failed message => .fail message
      | .more => removeChildren remove path rounds (given ++ batch.1.map (·.name))

def removeWorkspaceEntryAt : Nat → Path → TreeProg α Unit
  | 0, _ => .cut
  | rounds + 1, path => do
      let answer ← Prog.request (TreeCall.fstatat path)
      let stat ← orFail answer
      if stat.isDir then do
        let opened ← Prog.request (TreeCall.openDirectory path)
        orFail opened
        removeChildren (removeWorkspaceEntryAt rounds) path rounds []
        -- the directory itself, with `AT_REMOVEDIR`
        let removed ← Prog.request (TreeCall.unlinkat path)
        orFail removed
      else do
        let removed ← Prog.request (TreeCall.unlinkat path)
        orFail removed

/-- `removeReconciledWorkspaceEntry` of a name in a directory. -/
def removeReconciledWorkspaceEntry (rounds : Nat) (root relative : Path) (name : Name) :
    TreeProg α Unit :=
  if name = ['.'] ∨ name = dotDot ∨ name.any (fun c => c = '/' || c = '\\') then
    .fail "invalid argument"
  else do
    let parent ← secureOpenDirectory (root ++ relative) root
    removeWorkspaceEntryAt rounds (parent ++ [name])

/-! ## Reconciliation -/

/-- The loop of `reconcileSnapshotDirectory` that reads the directory. -/
def readExisting (path : Path) : Nat → List DirEntry → TreeProg α (List DirEntry)
  | 0, _ => .cut
  | rounds + 1, existing => do
      checkCtx
      let batch ← Prog.request (TreeCall.readDir path (existing.map (·.name)) 8192)
      if maxWorkspaceEntriesPerDirectory < (existing ++ batch.1).length then
        .fail "workspace directory is too large to reconcile safely"
      else
        match batch.2 with
        | .eof => pure (existing ++ batch.1)
        | .failed message => .fail message
        | .more => readExisting path rounds (existing ++ batch.1)

def isRetained (existing : List DirEntry) (entry : SnapshotWorkspaceEntry) : Bool :=
  match existing.find? fun found => found.name = entry.name with
  | none => false
  | some found => !found.isSymlink && found.isDir == entry.dir

def isKeptSidecar (expected : List SnapshotWorkspaceEntry) (name : Name) : Bool :=
  sourceLensAffix.isSuffixOf name &&
    isExpected expected (name.take (name.length - sourceLensAffix.length))

/-- The loop body of `reconcileSnapshotDirectory` over what the directory has. -/
def reconcileEntry (root : Path) (preserveRootMarker : Bool) (rounds : Nat) (relative : Path)
    (expected : List SnapshotWorkspaceEntry) (removed : Nat) (entry : DirEntry) :
    TreeProg α Nat := do
  checkCtx
  if isExpected expected entry.name then pure removed
  else if preserveRootMarker ∧ relative = [] ∧ entry.name = rootMarker then pure removed
  else if sourceLensAffix.isPrefixOf entry.name then .fail "unknown SourceLens workspace metadata"
  else if isKeptSidecar expected entry.name then pure removed
  else do
    removeReconciledWorkspaceEntry rounds root relative entry.name
    pure (removed + 1)

def reconcileSnapshotDirectory (list : SnapshotList) (root : Path) (preserveRootMarker : Bool)
    (rounds : Nat) : Nat → Path → TreeProg α Nat
  | 0, _ => .cut
  | depth + 1, relative => do
      checkCtx
      let rows ← orRaise (list relative)
      if maxWorkspaceEntriesPerDirectory < rows.length then
        .fail "snapshot directory is too large to reconcile safely"
      else do
        let expected ← orRaise (expectedEntries rows)
        let dir ← secureOpenDirectory (root ++ relative) root
        let existing ← readExisting dir rounds []
        if !expected.all (isRetained existing) then
          .fail "restored snapshot file is missing or has a different type"
        else do
          let removed ← existing.foldlM
            (reconcileEntry root preserveRootMarker rounds relative expected) 0
          rows.foldlM (fun removed entry =>
            if !entry.dir then pure removed
            else do
              let count ← reconcileSnapshotDirectory list root preserveRootMarker rounds depth
                (relative ++ [entry.name])
              pure (removed + count)) removed

def reconcileSnapshotWorkspaceWithMarker (list : SnapshotList) (preserveRootMarker : Bool)
    (rounds : Nat) (root : List Char) : TreeProg α Nat :=
  if !isAbs root ∨ clean root = [] then .fail "managed workspace root is invalid"
  else do
    let answer ← Prog.request (TreeCall.lstat (clean root))
    let info ← orFail answer
    if info.isDir then
      reconcileSnapshotDirectory list (clean root) preserveRootMarker rounds rounds []
    else .fail "managed workspace root is not a regular directory"

end Program

end HyperFileLens.Lens.Reconcile
