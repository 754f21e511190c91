import HyperFileLens.Library.Crew
import HyperFileLens.Library.FileChanges

/-!
# The files of managed workspaces

The calls that `lens_prepare.go` makes, on a file tree that several runs share.

*Failures.*  A call fails when the tree refuses it, and whenever the environment chooses
an error. A file that is being written has no valid content until the write has
succeeded, and a removal that fails may have removed any part.

*Runs.*  A run holds the locks it has taken and has its temporary file for itself. When
it stops, the kernel frees its locks and its temporary file is left behind, under a name
that nothing looks up.

*Makers.*  The calls that make, move or remove directories name the identity on whose
behalf they are made, and `maker` remembers it. Neither changes an answer.
-/

namespace HyperFileLens.Lens

open Service FileTree

structure LensWorkspaceIdentity where
  version : Int := 0
  workspaceUID : String := ""
  tenantOrganizationID : String := ""
  gatewayLinkID : String := ""
  knowledgeSourceID : String := ""
  workspaceKind : String := ""
deriving DecidableEq

structure LensWorkspaceTombstone where
  version : Int := 0
  state : String := ""
  identity : LensWorkspaceIdentity := {}
  workspacePath : Path := []
  createdAt : String := ""
  updatedAt : String := ""
deriving DecidableEq

inductive LensFile where
  | identity (value : LensWorkspaceIdentity)
  | tombstone (value : LensWorkspaceTombstone)
  /-- No JSON: an empty or an incomplete file. -/
  | torn
deriving DecidableEq

/-- `json.Unmarshal` into an identity. The fields a text does not have stay empty. -/
def LensFile.asIdentity : LensFile → Option LensWorkspaceIdentity
  | .identity value => some value
  | .tombstone value => some { version := value.version }
  | .torn => none

/-- `json.Unmarshal` into a tombstone. -/
def LensFile.asTombstone : LensFile → Option LensWorkspaceTombstone
  | .identity value => some { version := value.version }
  | .tombstone value => some value
  | .torn => none

inductive LensError where
  | file (error : ChangeError)
  /-- An error that the environment chooses. -/
  | other (message : String)
deriving DecidableEq

def LensError.isNotExist (error : LensError) : Bool := error = .file (.lookup .notExist)

def LensError.isExist (error : LensError) : Bool := error = .file .exist

/-- `err.Error()`. -/
def LensError.message : LensError → String
  | .file (.lookup .notExist) => "no such file or directory"
  | .file (.lookup .notDir) => "not a directory"
  | .file (.lookup .loop) => "too many levels of symbolic links"
  | .file .exist => "file exists"
  | .file .notEmpty => "directory not empty"
  | .file .isDir => "is a directory"
  | .other message => message

/-- The files and what the runs have of them. -/
structure LensStore where
  tree : FsTree LensFile
  /-- The run that holds a lock file. -/
  holder : Path → Option Nat
  temporary : Nat → Option LensFile
  maker : Path → Option LensWorkspaceIdentity

inductive LensCall where
  | ctxErr
  /-- `time.Now().UTC()`, formatted. -/
  | now
  | openDirectory (path : Path)
  | mkdirat (path : Path) (who : Option LensWorkspaceIdentity)
  | chmod (path : Path)
  | lock (path : Path)
  | unlock (path : Path)
  | lstat (path : Path)
  | readFile (path : Path)
  | createExclusive (path : Path)
  | write (path : Path) (content : LensFile)
  /-- `Sync` or `Close` of a file. -/
  | settle (path : Path)
  | remove (path : Path)
  | createTemp (directory : Path)
  /-- `Chmod`, `Sync` or `Close` of the temporary file. -/
  | settleTemp
  | writeTemp (content : LensFile)
  /-- Rename the temporary file. -/
  | replaceWithTemp (path : Path)
  | removeTemp
  | syncDirectory (path : Path)
  | rename (source target : Path) (who : LensWorkspaceIdentity)
  | removeAll (path : Path) (who : LensWorkspaceIdentity)
deriving DecidableEq

def LensAnswer : LensCall → Type
  | .ctxErr => Option String
  | .now => String
  | .lstat _ => Except LensError (Entry LensFile)
  | .readFile _ => Except LensError LensFile
  | .unlock _ => Unit
  | .removeTemp => Unit
  | _ => Except LensError Unit

/-- What the environment chooses for a call. -/
structure LensChoice where
  error : Option String := none
  /-- What a removal that fails leaves. -/
  left : List Path := []
  /-- The time. -/
  text : String := ""

/-- An answer, unless the environment chooses an error. -/
def LensChoice.answer {α : Type} (c : LensChoice) (a : Except LensError α) : Except LensError α :=
  match c.error with
  | some message => .error (.other message)
  | none => a

def ofLookup {α : Type} : Except LookupError α → Except LensError α
  | .error error => .error (.file (.lookup error))
  | .ok a => .ok a

/-- Open a directory without following a link. -/
def openDir (t : FsTree LensFile) (path : Path) : Except LensError Unit :=
  if t.hasDir path then .ok ()
  else if (t.get path).isNone then .error (.file (.lookup .notExist))
  else .error (.file (.lookup .notDir))

/-- `os.ReadFile`. -/
def readContent (t : FsTree LensFile) (path : Path) : Except LensError LensFile :=
  match t.resolve path with
  | .error error => .error (.file (.lookup error))
  | .ok p =>
    match t.get p with
    | some (.file content) => .ok content
    | _ => .error (.file .isDir)

/-- The tree after a file is opened with `O_CREATE`. -/
def opened (t : FsTree LensFile) (path : Path) : Except ChangeError (FsTree LensFile) :=
  match t.get path with
  | some (.file _) => .ok t
  | _ => t.create path .torn

namespace LensStore

/-- A call that changes the tree, unless the environment chooses an error. -/
def change (s : LensStore) (c : LensChoice) (tree : Except ChangeError (FsTree LensFile))
    (after : LensStore → LensStore) : Except LensError Unit × LensStore :=
  match c.error, tree with
  | some message, _ => (.error (.other message), s)
  | none, .error error => (.error (.file error), s)
  | none, .ok tree => (.ok (), after { s with tree := tree })

def made (path : Path) (who : Option LensWorkspaceIdentity) (s : LensStore) : LensStore :=
  { s with maker := fun p => if p = path then who else s.maker p }

def moved (source target : Path) (s : LensStore) : LensStore :=
  { s with maker := fun p =>
      if target <+: p then s.maker (source ++ p.drop target.length) else s.maker p }

/-- A run takes a lock that is free. -/
def lock (s : LensStore) (i : Nat) (path : Path) (c : LensChoice) : Except LensError Unit × LensStore :=
  match c.error, opened s.tree path with
  | some message, _ => (.error (.other message), s)
  | none, .error error => (.error (.file error), s)
  | none, .ok tree =>
    match s.holder path with
    | some _ => (.error (.other "context deadline exceeded"), { s with tree := tree })
    | none => (.ok (), { s with
        tree := tree, holder := fun p => if p = path then some i else s.holder p })

def unlock (s : LensStore) (i : Nat) (path : Path) : LensStore :=
  { s with holder := fun p => if p = path ∧ s.holder p = some i then none else s.holder p }

def setTemp (s : LensStore) (i : Nat) (content : Option LensFile) : LensStore :=
  { s with temporary := fun j => if j = i then content else s.temporary j }

def write (s : LensStore) (path : Path) (content : LensFile) (c : LensChoice) :
    Except LensError Unit × LensStore :=
  match c.error, s.tree.get path with
  | some message, _ => (.error (.other message), s)
  | none, some (.file _) => (.ok (), { s with tree := s.tree.put path (.file content) })
  | none, _ => (.ok (), s)

def removeAll (s : LensStore) (path : Path) (c : LensChoice) : Except LensError Unit × LensStore :=
  match c.error with
  | some message => (.error (.other message), { s with tree := s.tree.prune path c.left })
  | none => (.ok (), { s with tree := s.tree.prune path [] })

def respond (i : Nat) (s : LensStore) : (r : LensCall) → LensChoice → LensAnswer r × LensStore
  | .ctxErr, c => (c.error, s)
  | .now, c => (c.text, s)
  | .openDirectory path, c => (c.answer (openDir s.tree path), s)
  | .mkdirat path who, c => s.change c (s.tree.mkdir path) (made path who)
  | .chmod _, c => (c.answer (.ok ()), s)
  | .lock path, c => s.lock i path c
  | .unlock path, _ => ((), s.unlock i path)
  | .lstat path, c => (c.answer (ofLookup (s.tree.lstat path)), s)
  | .readFile path, c => (c.answer (readContent s.tree path), s)
  | .createExclusive path, c => s.change c (s.tree.create path .torn) id
  | .write path content, c => s.write path content c
  | .settle _, c => (c.answer (.ok ()), s)
  | .remove path, c => s.change c (s.tree.unlink path) id
  | .createTemp directory, c =>
    s.change c (if s.tree.hasDir directory then .ok s.tree else .error (.lookup .notExist))
      fun s => s.setTemp i (some .torn)
  | .settleTemp, c => (c.answer (.ok ()), s)
  | .writeTemp content, c => s.change c (.ok s.tree) fun s => s.setTemp i (some content)
  | .replaceWithTemp path, c =>
    s.change c
      (match s.temporary i with
        | some content => s.tree.replace path content
        | none => .error (.lookup .notExist))
      fun s => s.setTemp i none
  | .removeTemp, _ => ((), s.setTemp i none)
  | .syncDirectory _, c => (c.answer (.ok ()), s)
  | .rename source target _, c => s.change c (s.tree.rename source target) (moved source target)
  | .removeAll path _, c => s.removeAll path c

/-- What is left when a run stops. -/
def release (i : Nat) (s : LensStore) : LensStore where
  tree := s.tree
  holder := fun p => if s.holder p = some i then none else s.holder p
  temporary := fun j => if j = i then none else s.temporary j
  maker := s.maker

end LensStore

def lensHost : Host LensStore LensCall LensAnswer LensChoice where
  respond := LensStore.respond
  release := LensStore.release

/-! ## The client -/

/-- A function that makes these calls and may return an error. -/
abbrev LensProg (α : Type) := Prog LensCall LensAnswer String α

def orFail {α : Type} : Except LensError α → LensProg α
  | .error error => .fail error.message
  | .ok a => pure a

def orRaise {α : Type} : Except String α → LensProg α
  | .error message => .fail message
  | .ok a => pure a

def ctxErr : LensProg (Option String) := Prog.request LensCall.ctxErr

def timeNow : LensProg String := Prog.request LensCall.now

def openDirectory (path : Path) : LensProg (Except LensError Unit) :=
  Prog.request (LensCall.openDirectory path)

def mkdirat (path : Path) (who : Option LensWorkspaceIdentity) : LensProg (Except LensError Unit) :=
  Prog.request (LensCall.mkdirat path who)

def lstat (path : Path) : LensProg (Except LensError (Entry LensFile)) :=
  Prog.request (LensCall.lstat path)

def readFile (path : Path) : LensProg (Except LensError LensFile) :=
  Prog.request (LensCall.readFile path)

def chmod (path : Path) : LensProg (Except LensError Unit) := Prog.request (LensCall.chmod path)

def acquireLensWorkspaceFileLock (path : Path) : LensProg (Except LensError Unit) :=
  Prog.request (LensCall.lock path)

def unlock (path : Path) : LensProg Unit := Prog.request (LensCall.unlock path)

/-- `os.OpenFile` with `O_CREATE` and `O_EXCL`. -/
def createExclusive (path : Path) : LensProg (Except LensError Unit) :=
  Prog.request (LensCall.createExclusive path)

/-- `file.Write`. -/
def writeFile (path : Path) (content : LensFile) : LensProg (Except LensError Unit) :=
  Prog.request (LensCall.write path content)

/-- `file.Sync` or `file.Close`. -/
def settle (path : Path) : LensProg (Except LensError Unit) := Prog.request (LensCall.settle path)

def remove (path : Path) : LensProg (Except LensError Unit) := Prog.request (LensCall.remove path)

def createTemp (directory : Path) : LensProg (Except LensError Unit) :=
  Prog.request (LensCall.createTemp directory)

/-- `file.Chmod`, `file.Sync` or `file.Close` of the temporary file. -/
def settleTemp : LensProg (Except LensError Unit) := Prog.request LensCall.settleTemp

/-- `file.Write` of the temporary file. -/
def writeTemp (content : LensFile) : LensProg (Except LensError Unit) :=
  Prog.request (LensCall.writeTemp content)

/-- `os.Rename` of the temporary file. -/
def replaceWithTemp (path : Path) : LensProg (Except LensError Unit) :=
  Prog.request (LensCall.replaceWithTemp path)

/-- `os.Remove` of the temporary file. -/
def removeTemp : LensProg Unit := Prog.request LensCall.removeTemp

def syncDirectory (path : Path) : LensProg (Except LensError Unit) :=
  Prog.request (LensCall.syncDirectory path)

def rename (source target : Path) (who : LensWorkspaceIdentity) :
    LensProg (Except LensError Unit) :=
  Prog.request (LensCall.rename source target who)

def removeLensWorkspaceTrash (path : Path) (who : LensWorkspaceIdentity) :
    LensProg (Except LensError Unit) :=
  Prog.request (LensCall.removeAll path who)

end HyperFileLens.Lens
