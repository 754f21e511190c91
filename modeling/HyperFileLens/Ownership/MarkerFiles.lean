import HyperFileLens.Library.Crew
import HyperFileLens.Library.FileChanges
import HyperFileLens.Storage.Filesystem

/-!
# The files of repository ownership

The calls that `repository_ownership.go` makes, on a file tree that several agents share.

*Paths.*  A path is followed through directories only. A run refuses a path with a
symbolic link before anything else, and no call makes one.

*Failures.*  A call fails when the tree refuses it, and whenever the environment chooses an
error, which may be before or after its effect. A new file has no content until it is
written.

*Runs.*  The store remembers the tree that a run has found at its first call, who has
created a marker, and to whom the environment has refused a call. None of this changes
an answer.
-/

namespace HyperFileLens.Ownership

open Service FileTree Storage

structure MarkerFile where
  /-- What `json.Unmarshal` makes of it. -/
  marker : Option RepositoryOwnershipMarker
  /-- No more than 1024 bytes, with the metadata that a Kopia probe writes. -/
  probe : Bool := false
deriving DecidableEq

/-- The content of a file that was created and not yet written. -/
def MarkerFile.empty : MarkerFile where
  marker := none

/-- A file system that the agents share. -/
abbrev MarkerTree := FsTree MarkerFile

inductive OwnershipCall where
  | fs (call : FsCall)
  /-- `os.ReadDir`, with what is a directory. -/
  | list (path : Path)
  /-- The size and the content of `.shards`. -/
  | readProbe (path : Path)
  | mkdir (path : Path)
  /-- `os.OpenFile` with `O_CREATE` and `O_EXCL`. -/
  | create (path : Path)
  | write (path : Path) (marker : RepositoryOwnershipMarker)
  | sync (path : Path)
  | close (path : Path)
deriving DecidableEq

/-- An error of a call that changes the tree. -/
inductive OwnershipError where
  | change (error : ChangeError)
  /-- An error that the environment chooses. -/
  | other (message : String)
deriving DecidableEq

/-- `errors.Is(err, fs.ErrExist)`. -/
def OwnershipError.isExist (error : OwnershipError) : Bool := error = .change .exist

/-- `err.Error()`. -/
def OwnershipError.message : OwnershipError → String
  | .change (.lookup .notExist) => "no such file or directory"
  | .change (.lookup .notDir) => "not a directory"
  | .change (.lookup .loop) => "too many levels of symbolic links"
  | .change .exist => "file exists"
  | .change .notEmpty => "directory not empty"
  | .change .isDir => "is a directory"
  | .other message => message

def OwnershipAnswer : OwnershipCall → Type
  | .fs call => FsAnswer call
  | .list _ => Except FsError (List (Name × Bool))
  | .readProbe _ => Except FsError Bool
  | .mkdir _ => Except OwnershipError Unit
  | .create _ => Except OwnershipError Unit
  | .write _ _ => Except OwnershipError Unit
  | .sync _ => Except OwnershipError Unit
  | .close _ => Except OwnershipError Unit

/-- What the environment chooses for a call. -/
structure OwnershipChoice where
  error : Option String := none
  /-- The call has had its effect when the error is reported. -/
  done : Bool := false

/-- What `lstat` tells of an entry. -/
def infoOf : Entry MarkerFile → FileInfo
  | .dir => .dir
  | .file content => .file content.marker
  | .symlink target => .symlink target
  | .special => .special

/-- `os.ReadFile`. -/
def readEntry (t : MarkerTree) (path : Path) : Except FsError MarkerFile :=
  match t.look path with
  | .ok (.file content) => .ok content
  | .ok _ => .error (.other "is not a regular file")
  | .error error => .error (.lookup error)

def changed (t : MarkerTree) :
    Except ChangeError MarkerTree → Except OwnershipError Unit × MarkerTree
  | .error error => (.error (.change error), t)
  | .ok t' => (.ok (), t')

def perform (t : MarkerTree) : (r : OwnershipCall) → OwnershipAnswer r × MarkerTree
  | .fs .ctxErr => ((none : Option String), t)
  | .fs (.lstat path) => ((ofLookup (t.look path)).map infoOf, t)
  | .fs (.readDir path) => ((ofLookup (t.entries path)).map (·.map Prod.fst), t)
  | .fs (.readFile path) => ((readEntry t path).map MarkerFile.marker, t)
  | .fs (.removeAll path) => ((.ok () : Except FsError Unit), t.prune path [])
  | .fs (.remove path) =>
    match t.unlink path with
    | .ok t' => ((.ok () : Except FsError Unit), t')
    | .error (.lookup error) => ((.error (.lookup error) : Except FsError Unit), t)
    | .error _ => ((.error .notEmpty : Except FsError Unit), t)
  | .list path => (ofLookup (t.entries path), t)
  | .readProbe path => ((readEntry t path).map MarkerFile.probe, t)
  | .mkdir path => changed t (t.mkdir path)
  | .create path => changed t (t.create path .empty)
  | .write path marker =>
    match t.get path with
    | some (.file _) => changed t (t.replace path { marker := some marker })
    | _ => ((.error (.change (.lookup .notExist)) : Except OwnershipError Unit), t)
  | .sync _ => ((.ok () : Except OwnershipError Unit), t)
  | .close _ => ((.ok () : Except OwnershipError Unit), t)

def refuse (message : String) : (r : OwnershipCall) → OwnershipAnswer r
  | .fs .ctxErr => (some message : Option String)
  | .fs (.lstat _) => (.error (.other message) : Except FsError FileInfo)
  | .fs (.readDir _) => (.error (.other message) : Except FsError (List Name))
  | .fs (.readFile _) =>
    (.error (.other message) : Except FsError (Option RepositoryOwnershipMarker))
  | .fs (.removeAll _) => (.error (.other message) : Except FsError Unit)
  | .fs (.remove _) => (.error (.other message) : Except FsError Unit)
  | .list _ => (.error (.other message) : Except FsError (List (Name × Bool)))
  | .readProbe _ => (.error (.other message) : Except FsError Bool)
  | .mkdir _ => (.error (.other message) : Except OwnershipError Unit)
  | .create _ => (.error (.other message) : Except OwnershipError Unit)
  | .write _ _ => (.error (.other message) : Except OwnershipError Unit)
  | .sync _ => (.error (.other message) : Except OwnershipError Unit)
  | .close _ => (.error (.other message) : Except OwnershipError Unit)

/-- A file system with what it remembers of the runs. -/
structure OwnershipStore where
  tree : MarkerTree
  maker : Path → Option Nat := fun _ => none
  found : Nat → Option MarkerTree := fun _ => none
  refused : Nat → Bool := fun _ => false

def created (t : MarkerTree) : OwnershipCall → Option Path
  | .create path => if (t.get path).isNone && t.hasDir path.dropLast then some path else none
  | _ => none

namespace OwnershipStore

def arrive (i : Nat) (s : OwnershipStore) : OwnershipStore :=
  if (s.found i).isSome then s
  else { s with found := Function.update s.found i (some s.tree) }

def effect (i : Nat) (r : OwnershipCall) (s : OwnershipStore) : OwnershipStore :=
  { s with
    tree := (perform s.tree r).2
    maker := match created s.tree r with
      | some path => Function.update s.maker path (some i)
      | none => s.maker }

def refuse (i : Nat) (s : OwnershipStore) : OwnershipStore :=
  { s with refused := Function.update s.refused i true }

end OwnershipStore

def ownershipRespond (i : Nat) (s : OwnershipStore) (r : OwnershipCall) (c : OwnershipChoice) :
    OwnershipAnswer r × OwnershipStore :=
  match c.error with
  | none => ((perform s.tree r).1, (s.arrive i).effect i r)
  | some message =>
    (refuse message r, (if c.done = true then (s.arrive i).effect i r else s.arrive i).refuse i)

/-- The file system as a service of the runs. -/
def ownershipHost : Host OwnershipStore OwnershipCall OwnershipAnswer OwnershipChoice where
  respond := ownershipRespond
  release := fun _ s => s

/-! ## The client -/

/-- A function that makes calls and may return an error. -/
abbrev OwnershipProg (α : Type) := Prog OwnershipCall OwnershipAnswer String α

/-- A function that makes no other calls than those of the deletion. -/
def ofFs {α : Type} (p : FsProg α) : OwnershipProg α := p.lift .fs fun _ a => a

theorem ofFs_bind {α β : Type} (p : FsProg α) (f : α → FsProg β) :
    ofFs (p.bind f) = (ofFs p).bind fun a => ofFs (f a) := Prog.lift_bind _ _ p f

def lstat (path : Path) : OwnershipProg (Except FsError FileInfo) :=
  Prog.request (OwnershipCall.fs (.lstat path))

/-- `os.ReadDir`. -/
def list (path : Path) : OwnershipProg (Except FsError (List (Name × Bool))) :=
  Prog.request (OwnershipCall.list path)

/-- `os.ReadFile` of `.shards`. -/
def readProbe (path : Path) : OwnershipProg (Except FsError Bool) :=
  Prog.request (OwnershipCall.readProbe path)

def remove (path : Path) : OwnershipProg (Except FsError Unit) :=
  Prog.request (OwnershipCall.fs (.remove path))

def mkdir (path : Path) : OwnershipProg (Except OwnershipError Unit) :=
  Prog.request (OwnershipCall.mkdir path)

/-- `os.OpenFile` of a new file. -/
def create (path : Path) : OwnershipProg (Except OwnershipError Unit) :=
  Prog.request (OwnershipCall.create path)

def write (path : Path) (marker : RepositoryOwnershipMarker) :
    OwnershipProg (Except OwnershipError Unit) := Prog.request (OwnershipCall.write path marker)

def sync (path : Path) : OwnershipProg (Except OwnershipError Unit) :=
  Prog.request (OwnershipCall.sync path)

def close (path : Path) : OwnershipProg (Except OwnershipError Unit) :=
  Prog.request (OwnershipCall.close path)

end HyperFileLens.Ownership
