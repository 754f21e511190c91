import HyperFileLens.Library.FilePath
import HyperFileLens.Library.Gitignore

/-!
# What a backup must not capture

The functions of `agent_path_boundary.go` and `system_backup_boundary.go`, with the
patterns that `managed_backup_policy.go` hands to the policy.

*Paths.*  A clean absolute path is the list of its names, on a volume on Windows. The
machine resolves texts and links, and its names have no separators.

*Letters.*  On Windows paths are compared in lower case, by the functions and by
`filepath.Rel`.
-/

namespace HyperFileLens.Backup

open FileTree

/-! ## Machines -/

inductive Goos where
  | linux
  | darwin
  | windows
  | other
deriving DecidableEq

/-- A name of a file, without separators. -/
def Goos.IsName (goos : Goos) (n : Name) : Prop :=
  FsTree.IsPlain n ∧ '/' ∉ n ∧ (goos = .windows → '\\' ∉ n)

instance (goos : Goos) (n : Name) : Decidable (goos.IsName n) :=
  inferInstanceAs (Decidable (_ ∧ _ ∧ _))

structure AbsPath where
  volume : List Char
  names : List Name
deriving DecidableEq

def AbsPath.join (p : AbsPath) (names : List Name) : AbsPath :=
  { p with names := p.names ++ names }

/-- `system-backup-boundaries.json`. -/
structure SystemBackupBoundaryConfig where
  schemaVersion : Int
  additionalPaths : List (List Char)
deriving DecidableEq

/-- `model.AgentConfig`, as far as the boundary reads it. -/
structure AgentConfig where
  agentRoot : List Char
  dataDir : List Char
  installationMode : List Char
deriving DecidableEq

structure Host where
  goos : Goos
  /-- `unicode.ToLower`. -/
  lower : Char → Char
  /-- `filepath.IsAbs`. -/
  isAbs : List Char → Bool
  abs : List Char → Option AbsPath
  /-- `filepath.EvalSymlinks`. -/
  evalSymlinks : AbsPath → Option AbsPath
  /-- `vfs.AgentRootForMode`. -/
  agentRootForMode : List Char → List Char
  boundaryConfig : AbsPath → Option SystemBackupBoundaryConfig
  lower_ascii : ∀ c, c.toNat < 128 → lower c = c.toLower
  isName_abs : ∀ path p, abs path = some p → ∀ n ∈ p.names, goos.IsName n
  isName_evalSymlinks : ∀ q p, evalSymlinks q = some p → ∀ n ∈ p.names, goos.IsName n

namespace Host

variable (host : Host)

def letter (c : Char) : Char := if host.goos = .windows then host.lower c else c

def fold (n : Name) : Name := n.map host.letter

/-- `filepath.Rel`, on the same volume. -/
def rel : List Name → List Name → List Name
  | r :: root, n :: path =>
    if host.fold r = host.fold n then rel root path
    else (r :: root).map (fun _ => FilePath.dotDot) ++ n :: path
  | root, path => root.map (fun _ => FilePath.dotDot) ++ path

def sameVolume (p q : AbsPath) : Prop := host.fold p.volume = host.fold q.volume

instance (p q : AbsPath) : Decidable (host.sameVolume p q) :=
  inferInstanceAs (Decidable (_ = _))

def isWithin (path root : AbsPath) : Bool :=
  decide (host.sameVolume path root) &&
    decide ((host.rel root.names path.names).head? ≠ some FilePath.dotDot)

def separator : Char := if host.goos = .windows then '\\' else '/'

def relText (names : List Name) : List Char :=
  if names = [] then ['.'] else [host.separator].intercalate names

def toSlash (text : List Char) : List Char :=
  if host.goos = .windows then text.map fun c => if c = '\\' then '/' else c else text

end Host

/-! ## Canonical paths -/

inductive BoundaryError where
  /-- `os.ErrInvalid`. -/
  | invalid
  | noAbs
  | resolveAgentRoot (error : BoundaryError)
  | resolveSystem (path : List Char) (error : BoundaryError)
  | notBelow (protectedPath sourcePath : AbsPath)
  | insideAgentRoot (root : AbsPath)
  | insideSystemPath (path : AbsPath)
  | invalidAgentRoot

section Boundary

variable (host : Host)

/-- Resolve the nearest parent that exists. The names are given upwards. -/
def resolveNearest (volume : List Char) : List Name → List Name → Option AbsPath
  | [], suffix => (host.evalSymlinks ⟨volume, []⟩).map (·.join suffix)
  | n :: up, suffix =>
    match host.evalSymlinks ⟨volume, (n :: up).reverse⟩ with
    | some resolved => some (resolved.join suffix)
    | none => resolveNearest volume up (n :: suffix)

def canonicalPath (path : List Char) : Except BoundaryError AbsPath :=
  let clean := Text.trimSpace path
  if clean = [] then .error .invalid
  else
    match host.abs clean with
    | none => .error .noAbs
    | some abs => .ok ((resolveNearest host abs.volume abs.names.reverse []).getD abs)

/-! ## System paths -/

structure SystemBackupBoundaryCandidate where
  path : List Char
  directory : Bool
  caseInsensitive : Bool
deriving DecidableEq

/-- `windowsSystemBackupBoundaryCandidates`, for the root of a volume. -/
def windowsSystemBackupBoundaryCandidates (volume : List Char) :
    List SystemBackupBoundaryCandidate :=
  [⟨volume ++ "\\System Volume Information".toList, true, true⟩,
    ⟨volume ++ "\\DumpStack.log.tmp".toList, false, true⟩,
    ⟨volume ++ "\\pagefile.sys".toList, false, true⟩,
    ⟨volume ++ "\\hiberfil.sys".toList, false, true⟩,
    ⟨volume ++ "\\swapfile.sys".toList, false, true⟩]

def systemBackupBoundaryCandidates (sourcePath : AbsPath) : List SystemBackupBoundaryCandidate :=
  match host.goos with
  | .linux =>
    [⟨"/proc".toList, true, false⟩, ⟨"/sys".toList, true, false⟩, ⟨"/dev".toList, true, false⟩,
      ⟨"/run".toList, true, false⟩]
  | .darwin =>
    [⟨"/.vol".toList, true, false⟩, ⟨"/dev".toList, true, false⟩,
      ⟨"/private/var/run".toList, true, false⟩, ⟨"/private/var/vm".toList, true, false⟩,
      ⟨"/System/Volumes/VM".toList, true, false⟩]
  | .windows =>
    if sourcePath.volume = [] then []
    else windowsSystemBackupBoundaryCandidates sourcePath.volume
  | .other => []

def loadAdditionalSystemBackupBoundaryPaths (agentRoot : AbsPath) :
    List SystemBackupBoundaryCandidate :=
  match host.boundaryConfig agentRoot with
  | none => []
  | some cfg =>
    if cfg.schemaVersion ≠ 1 then []
    else cfg.additionalPaths.filterMap fun rawPath =>
      let path := Text.trimSpace rawPath
      if path = [] ∨ ¬ host.isAbs path then none else some ⟨path, true, false⟩

/-- Is a relative path `"."`, `".."` or one that starts upwards? -/
def leavesSource (rel : List Name) : Prop := rel = [] ∨ rel.head? = some FilePath.dotDot

instance (rel : List Name) : Decidable (leavesSource rel) := inferInstanceAs (Decidable (_ ∨ _))

def caseFoldSystemIgnorePattern (pattern : List Char) : List Char :=
  pattern.flatMap fun ch =>
    if 'a' ≤ ch ∧ ch ≤ 'z' then ['[', ch.toUpper, ch, ']']
    else if 'A' ≤ ch ∧ ch ≤ 'Z' then ['[', ch, ch.toLower, ']']
    else [ch]

/-- `strings.Trim(text, "/")`. -/
def trimSlashes (text : List Char) : List Char := Text.trim (· == '/') text

/-- The pattern of `rootedSystemIgnorePattern` for a relative path. -/
def systemPattern (rel : List Name) (directory caseInsensitive : Bool) : List Char :=
  let pattern := '/' :: trimSlashes (host.toSlash (host.relText rel))
  let pattern := if caseInsensitive then caseFoldSystemIgnorePattern pattern else pattern
  if directory then pattern ++ ['/'] else pattern

def rootedSystemIgnorePattern (sourcePath protectedPath : AbsPath)
    (directory caseInsensitive : Bool) : Except BoundaryError (List Char) :=
  let rel := host.rel sourcePath.names protectedPath.names
  if ¬ host.sameVolume sourcePath protectedPath ∨ leavesSource rel then
    .error (.notBelow protectedPath sourcePath)
  else .ok (systemPattern host rel directory caseInsensitive)

/-- What `systemBackupBoundaryRules` returns. -/
structure SystemRules where
  patterns : List (List Char)
  exclusions : List AbsPath
  forbiddenPath : Option AbsPath
deriving DecidableEq

/-- A path as a key of `seen`. -/
def Host.key (p : AbsPath) : AbsPath := ⟨host.fold p.volume, p.names.map host.fold⟩

/-- The loop of `systemBackupBoundaryRules`. -/
def systemRulesFrom (sourcePath : AbsPath) : List SystemBackupBoundaryCandidate →
    List AbsPath → SystemRules → Except BoundaryError SystemRules
  | [], _, rules => .ok rules
  | candidate :: candidates, seen, rules =>
    match canonicalPath host candidate.path with
    | .error error => .error (.resolveSystem candidate.path error)
    | .ok protectedPath =>
      if host.key protectedPath ∈ seen then systemRulesFrom sourcePath candidates seen rules
      else
        let seen := host.key protectedPath :: seen
        if host.isWithin sourcePath protectedPath then .ok ⟨[], [], some protectedPath⟩
        else if ¬ host.isWithin protectedPath sourcePath then
          systemRulesFrom sourcePath candidates seen rules
        else
          match rootedSystemIgnorePattern host sourcePath protectedPath candidate.directory
              candidate.caseInsensitive with
          | .error error => .error error
          | .ok pattern =>
            systemRulesFrom sourcePath candidates seen
              { rules with
                patterns := rules.patterns ++ [pattern]
                exclusions := rules.exclusions ++ [protectedPath] }

/-- The candidates of `systemBackupBoundaryRules`. -/
def allCandidates (agentRoot sourcePath : AbsPath) : List SystemBackupBoundaryCandidate :=
  systemBackupBoundaryCandidates host sourcePath ++
    loadAdditionalSystemBackupBoundaryPaths host agentRoot

def systemBackupBoundaryRules (agentRoot sourcePath : AbsPath) :
    Except BoundaryError SystemRules :=
  systemRulesFrom host sourcePath (allCandidates host agentRoot sourcePath) [] ⟨[], [], none⟩

/-! ## The boundary -/

structure BackupPathBoundary where
  agentRoot : AbsPath
  repositoryRoot : AbsPath
  sourceMountRoot : AbsPath
  customMountRoot : AbsPath
  ignorePatterns : List (List Char)
  excludedPaths : List AbsPath
deriving DecidableEq

def agentRootText (cfg : Option AgentConfig) : List Char :=
  let root :=
    match cfg with
    | none => []
    | some cfg =>
      let root := Text.trimSpace cfg.agentRoot
      if root = [] then Text.trimSpace cfg.dataDir else root
  if root = [] then
    let mode := "system".toList
    let mode :=
      match cfg with
      | none => mode
      | some cfg => if cfg.installationMode = [] then mode else cfg.installationMode
    host.agentRootForMode mode
  else root

/-- `vfs.AgentMountsDir`, which trims the text of its root. -/
def agentMountsDir (root : AbsPath) : AbsPath :=
  let names :=
    match root.names.getLast? with
    | none => []
    | some n => FilePath.push root.names.dropLast (n.reverse.dropWhile Text.isSpace).reverse
  ⟨root.volume, names ++ ["mounts".toList]⟩

def normalizeIgnorePattern (rel : List Char) : List Char :=
  trimSlashes ((host.toSlash rel).map fun c => if c = '\\' then '/' else c)

/-- A task that is bound to a managed mount of a NAS source may read it. -/
def isBoundNasSource (b : BackupPathBoundary) (path : AbsPath) (nasSource : Bool)
    (nasMountPoint : List Char) : Bool :=
  if nasSource ∧ Text.trimSpace nasMountPoint ≠ [] then
    match canonicalPath host nasMountPoint with
    | .error _ => false
    | .ok mountRoot =>
      (host.isWithin mountRoot b.sourceMountRoot || host.isWithin mountRoot b.customMountRoot) &&
        !host.isWithin mountRoot b.repositoryRoot && host.isWithin path mountRoot
  else false

def emptyBoundary (root : AbsPath) : BackupPathBoundary where
  agentRoot := root
  repositoryRoot := (agentMountsDir root).join ["repositories".toList]
  sourceMountRoot := (agentMountsDir root).join ["sources".toList]
  customMountRoot := (agentMountsDir root).join ["custom".toList]
  ignorePatterns := []
  excludedPaths := []

/-- The rules of a host backup of a canonical source. -/
def hostBoundary (b : BackupPathBoundary) (path : AbsPath) :
    Except BoundaryError BackupPathBoundary :=
  if host.isWithin path b.agentRoot then .error (.insideAgentRoot b.agentRoot)
  else
    match systemBackupBoundaryRules host b.agentRoot path with
    | .error error => .error error
    | .ok rules =>
      match rules.forbiddenPath with
      | some forbidden => .error (.insideSystemPath forbidden)
      | none =>
        let b := { b with
          ignorePatterns := b.ignorePatterns ++ rules.patterns
          excludedPaths := b.excludedPaths ++ rules.exclusions }
        if host.isWithin b.agentRoot path then
          let rel := host.rel path.names b.agentRoot.names
          if leavesSource rel then .error .invalidAgentRoot
          else .ok { b with
            ignorePatterns :=
              b.ignorePatterns ++ [normalizeIgnorePattern host (host.relText rel)]
            excludedPaths := b.excludedPaths ++ [b.agentRoot] }
        else .ok b

def newBackupPathBoundary (cfg : Option AgentConfig) (sourcePath : List Char) (nasSource : Bool)
    (nasMountPoint : List Char) : Except BoundaryError BackupPathBoundary :=
  match canonicalPath host (agentRootText host cfg) with
  | .error error => .error (.resolveAgentRoot error)
  | .ok root =>
    match canonicalPath host sourcePath with
    | .error error => .error error
    | .ok path =>
      if isBoundNasSource host (emptyBoundary root) path nasSource nasMountPoint then
        .ok (emptyBoundary root)
      else hostBoundary host (emptyBoundary root) path

/-- `protectedPatternValues`, of one list. -/
def protectedPatternValues (values : List (List Char)) : List (List Char) :=
  values.foldl
    (fun out value =>
      let value := Text.trimSpace value
      if value = [] ∨ value ∈ out then out else out ++ [value])
    []

end Boundary

end HyperFileLens.Backup
