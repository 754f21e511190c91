import HyperFileLens.Library.FileTree
import HyperFileLens.Library.Service

/-!
# The file system as a service

The calls of package `os` that the Agent makes on a file tree.

*Failures.*  A call fails when its path does not resolve, and whenever the
environment chooses an error. A removal may leave any part of what it is to
remove, whether it reports an error or not.

*Contents.*  A file is known by the ownership marker its content decodes to, if it
is one.

*Cancellation.*  `ctx.Err()` is a call too: the environment chooses when the
context is done.
-/

namespace HyperFileLens.Storage

open Service FileTree

structure RepositoryOwnershipMarker where
  deploymentUUID : String
  repositoryUUID : String
  locationDigest : String
  formatVersion : Int
  signature : String
deriving DecidableEq

abbrev FileSystem := FsTree (Option RepositoryOwnershipMarker)

abbrev FileInfo := Entry (Option RepositoryOwnershipMarker)

/-- An error of package `os`. -/
inductive FsError where
  | lookup (error : LookupError)
  | notEmpty
  /-- An error that the environment chooses. -/
  | other (message : String)
deriving DecidableEq

/-- `errors.Is(err, os.ErrNotExist)`. -/
def FsError.isNotExist (error : FsError) : Bool := error = .lookup .notExist

/-- `err.Error()`. -/
def FsError.message : FsError → String
  | .lookup .notExist => "no such file or directory"
  | .lookup .notDir => "not a directory"
  | .lookup .loop => "too many levels of symbolic links"
  | .notEmpty => "directory not empty"
  | .other message => message

inductive FsCall where
  | ctxErr
  | lstat (path : Path)
  | readDir (path : Path)
  | readFile (path : Path)
  | removeAll (path : Path)
  | remove (path : Path)
deriving DecidableEq

def FsAnswer : FsCall → Type
  | .ctxErr => Option String
  | .lstat _ => Except FsError FileInfo
  | .readDir _ => Except FsError (List Name)
  | .readFile _ => Except FsError (Option RepositoryOwnershipMarker)
  | .removeAll _ => Except FsError Unit
  | .remove _ => Except FsError Unit

/-- What the environment chooses for a call. -/
structure FsChoice where
  error : Option String := none
  /-- What a removal leaves. -/
  left : List Path := []

/-- An answer, unless the environment chooses an error. -/
def FsChoice.answer {α : Type} (c : FsChoice) (a : Except FsError α) : Except FsError α :=
  match c.error with
  | some message => .error (.other message)
  | none => a

def ofLookup {α : Type} : Except LookupError α → Except FsError α
  | .error error => .error (.lookup error)
  | .ok a => .ok a

/-- `os.ReadDir`, but for the order. -/
def readNames (t : FileSystem) (path : Path) : Except FsError (List Name) :=
  match t.resolve path with
  | .error error => .error (.lookup error)
  | .ok p =>
    match t.get p with
    | some .dir => .ok (t.names p)
    | _ => .error (.lookup .notDir)

/-- `os.ReadFile`. -/
def readContent (t : FileSystem) (path : Path) : Except FsError (Option RepositoryOwnershipMarker) :=
  match t.resolve path with
  | .error error => .error (.lookup error)
  | .ok p =>
    match t.get p with
    | some (.file content) => .ok content
    | _ => .error (.other "is not a regular file")

def fsRespond (t : FileSystem) : (r : FsCall) → FsChoice → FsAnswer r × FileSystem
  | .ctxErr, c => (c.error, t)
  | .lstat path, c => (c.answer (ofLookup (t.lstat path)), t)
  | .readDir path, c => (c.answer (readNames t path), t)
  | .readFile path, c => (c.answer (readContent t path), t)
  | .removeAll path, c =>
    match t.locate path with
    | .error .notExist => (c.answer (.ok ()), t)
    | .error error => (c.answer (.error (.lookup error)), t)
    | .ok p => (c.answer (.ok ()), t.prune p c.left)
  | .remove path, c =>
    match t.locate path with
    | .error error => (c.answer (.error (.lookup error)), t)
    | .ok p =>
      if (t.get p).isNone then (c.answer (.error (.lookup .notExist)), t)
      else if t.names p ≠ [] then (c.answer (.error .notEmpty), t)
      else (c.answer (.ok ()), t.prune p c.left)

def filesystem : Server FileSystem FsCall FsAnswer FsChoice where
  respond := fsRespond

/-! ## The client -/

/-- A function that makes file system calls and may return an error. -/
abbrev FsProg (α : Type) := Prog FsCall FsAnswer String α

def ctxErr : FsProg (Option String) := Prog.request FsCall.ctxErr

def lstat (path : Path) : FsProg (Except FsError FileInfo) := Prog.request (FsCall.lstat path)

def readDir (path : Path) : FsProg (Except FsError (List Name)) :=
  Prog.request (FsCall.readDir path)

def readFile (path : Path) : FsProg (Except FsError (Option RepositoryOwnershipMarker)) :=
  Prog.request (FsCall.readFile path)

def removeAll (path : Path) : FsProg (Except FsError Unit) :=
  Prog.request (FsCall.removeAll path)

def remove (path : Path) : FsProg (Except FsError Unit) := Prog.request (FsCall.remove path)

end HyperFileLens.Storage
