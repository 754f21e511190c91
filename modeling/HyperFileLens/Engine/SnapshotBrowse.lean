import HyperFileLens.Engine.SnapshotListing

/-!
# Pages of a snapshot directory

`runManagedSnapshotBrowse` lists a directory of a snapshot and shows one page of it. The
page collector consumes the lines of the listing one by one. It passes over as many entries
as the cursor says, collects the entries of the page, and ends the listing at the first
entry behind them. The cursor of the next page is the number of entries up to there.

The listing is ended by cancelling the process, which may have printed more lines by then,
and they are consumed as well. The preview of a line in a warning is left out.
-/

namespace HyperFileLens.Engine.SnapshotBrowse

open SnapshotListing

/-- What `path/filepath` knows about the platform. -/
structure Platform where
  separator : Char
  isPathSeparator : Char → Bool
  /-- The length of `filepath.VolumeName`. -/
  volumeLen : List Char → Nat

namespace Platform

def unix : Platform := ⟨'/', (· == '/'), fun _ => 0⟩

variable (F : Platform)

def toSlash (path : List Char) : List Char :=
  if F.separator == '/' then path
  else path.map fun c => if c == F.separator then '/' else c

def base (path : List Char) : List Char :=
  if path.isEmpty then ['.']
  else
    let path := path.rdropWhile F.isPathSeparator
    let path := (path.drop (F.volumeLen path)).rtakeWhile fun c => !F.isPathSeparator c
    if path.isEmpty then [F.separator] else path

end Platform

inductive EntryType where
  | file
  | dir
  | symlink
  | special
  | unknown
  deriving DecidableEq

/-- `snapshotBrowseEntryType`: the type, whether it can be downloaded, and why not. -/
def snapshotBrowseEntryType (mode reportedType : List Char) : EntryType × Bool × String :=
  let normalizedMode := Text.trimSpace mode
  let normalizedType := (Text.lower (String.ofList (Text.trimSpace reportedType)))
  if normalizedType ∈ ["symlink", "symbolic-link", "link"] then
    (.symlink, false, "Symbolic links cannot be downloaded individually.")
  else if normalizedType ∈ ["dir", "directory", "folder"] then (.dir, true, "")
  else if normalizedType ∈ ["file", "f", "regular"] then (.file, true, "")
  else if normalizedType = "unknown" then
    (.unknown, false, "Entry type could not be verified safely.")
  else if 'L' ∈ normalizedMode then
    (.symlink, false, "Symbolic links cannot be downloaded individually.")
  else if 'd' ∈ normalizedMode then (.dir, true, "")
  else if normalizedMode.any ("pSDc?P".toList.contains ·) then
    (.special, false, "Special files cannot be downloaded individually.")
  else if normalizedMode.head? = some '-' || normalizedMode.any ("aguTt".toList.contains ·) then
    (.file, true, "")
  else (.special, false, "Special files cannot be downloaded individually.")

/-- `normalizeSnapshotBrowsePath` of a name of a listing, which has no snapshot id in it. -/
def normalizeSnapshotBrowsePath (F : Platform) (rawName basePath : List Char) : List Char :=
  let path := F.toSlash (Text.trim isSlash (Text.trimSpace rawName))
  let path :=
    if basePath ≠ [] && path ≠ [] && path ≠ basePath && !(basePath ++ ['/']).isPrefixOf path then
      basePath.rdropWhile (· == '/') ++ '/' :: F.base path
    else path
  Text.trim (· == '/') path

def snapshotBrowseName (F : Platform) (rawName path : List Char) : List Char :=
  let name := Text.trim isSlash (Text.trimSpace rawName)
  let name := if name.isEmpty then path else name
  if name.isEmpty then [] else F.base (F.toSlash name)

structure BrowseEntry where
  name : List Char
  path : List Char
  mode : List Char
  type : EntryType
  sizeBytes : Int
  modifiedAt : List Char
  downloadable : Bool
  downloadReason : String
  deriving DecidableEq

/-- A line that could not be read, or not for sure. -/
structure Warning where
  lineNumber : Nat
  reason : String
  deriving DecidableEq

/-- `snapshotBrowsePageCollector` -/
structure PageCollector where
  basePath : List Char
  offset : Nat
  limit : Nat
  seen : Nat
  linesSeen : Nat
  entries : List BrowseEntry
  hasMore : Bool
  skippedInvalidCount : Nat
  warnings : List Warning
  deriving DecidableEq

/-- `snapshotFailureSampleLimit` -/
def failureSampleLimit : Nat := 10

/-- The number of entries to pass over. -/
def offsetOf (cursor : List Char) : Except String Nat :=
  let cursor := Text.trimSpace cursor
  if cursor.isEmpty then .ok 0
  else
    match GoText.atoi cursor with
    | some (Int.ofNat offset) => .ok offset
    | _ => .error "cursor must be a non-negative integer"

def pageLimit (limit : Int) : Nat :=
  if limit ≤ 0 then 200 else if 1000 < limit then 1000 else limit.toNat

def newSnapshotBrowsePageCollector (basePath : List Char) (limit : Int) (cursor : List Char) :
    Except String PageCollector :=
  (offsetOf cursor).map fun offset =>
    { basePath := Text.trim isSlash (Text.trimSpace basePath)
      offset
      limit := pageLimit limit
      seen := 0
      linesSeen := 0
      entries := []
      hasMore := false
      skippedInvalidCount := 0
      warnings := [] }

namespace PageCollector

def recordWarning (c : PageCollector) (reason : String) : PageCollector :=
  if failureSampleLimit ≤ c.warnings.length then c
  else { c with warnings := c.warnings ++ [⟨c.linesSeen, reason⟩] }

def nextCursor (c : PageCollector) : List Char :=
  if c.hasMore then GoText.itoa (c.offset + c.entries.length : Nat) else []

end PageCollector

section Consume

variable (F : Platform) (formatModTimeUTC : List Char → List Char)

/-- The entry that `appendEntry` makes, of a line that was read for sure or not. -/
def browseEntry (basePath : List Char) (listed : Listed) (degraded : Bool) : BrowseEntry :=
  let type : EntryType × Bool × String :=
    if degraded then (.unknown, false, "Entry type could not be verified safely.")
    else snapshotBrowseEntryType listed.mode []
  let path := normalizeSnapshotBrowsePath F listed.name basePath
  { name := snapshotBrowseName F listed.name path
    path
    mode := listed.mode
    type := type.1
    sizeBytes := listed.size
    modifiedAt := listed.modTime
    downloadable := type.2.1
    downloadReason := type.2.2 }

namespace PageCollector

/-- The end of `consume`, for a line with an entry. The answer is whether to go on. -/
def accept (c : PageCollector) (entry : BrowseEntry) : PageCollector × Bool :=
  if c.seen < c.offset then ({ c with seen := c.seen + 1 }, true)
  else if c.limit ≤ c.entries.length then ({ c with hasMore := true }, false)
  else ({ c with seen := c.seen + 1, entries := c.entries ++ [entry] }, true)

def consume (c : PageCollector) (rawLine : List Char) : PageCollector × Bool :=
  let c := { c with linesSeen := c.linesSeen + 1 }
  let line := Text.trimSpace rawLine
  if line.isEmpty then (c, true)
  else
    match parseSnapshotBrowseLongLineDiagnostic formatModTimeUTC line with
    | .ok listed => c.accept (browseEntry F c.basePath listed false)
    | .error reason =>
      match parseSnapshotBrowseFallbackLine formatModTimeUTC line with
      | some listed => (c.recordWarning reason).accept (browseEntry F c.basePath listed true)
      | none =>
        ({ c with skippedInvalidCount := c.skippedInvalidCount + 1 }.recordWarning reason,
          true)

def consumeAll (c : PageCollector) (delivered : List (List Char)) : PageCollector :=
  delivered.foldl (fun c line => (c.consume F formatModTimeUTC line).1) c

end PageCollector

/-- The lines that the process delivers: all of them, or those up to some line behind the one
at which the collector ended the listing. -/
structure Delivers (listing delivered : List (List Char)) (c : PageCollector) : Prop where
  lines : delivered <+: listing
  complete : delivered = listing ∨ (c.consumeAll F formatModTimeUTC delivered).hasMore

/-- The pages a reader gets who follows the cursors, and the cursor of the page behind them. -/
inductive Session (listing : List (List Char)) (basePath : List Char) (limit : Int) :
    List (List BrowseEntry) → List Char → Prop
  | first {c : PageCollector} {delivered : List (List Char)}
      (hc : newSnapshotBrowsePageCollector basePath limit [] = .ok c)
      (hd : Delivers F formatModTimeUTC listing delivered c) :
      Session listing basePath limit [(c.consumeAll F formatModTimeUTC delivered).entries]
        (c.consumeAll F formatModTimeUTC delivered).nextCursor
  | next {pages : List (List BrowseEntry)} {cursor : List Char} {c : PageCollector}
      {delivered : List (List Char)} (hs : Session listing basePath limit pages cursor)
      (hcursor : cursor ≠ [])
      (hc : newSnapshotBrowsePageCollector basePath limit cursor = .ok c)
      (hd : Delivers F formatModTimeUTC listing delivered c) :
      Session listing basePath limit
        (pages ++ [(c.consumeAll F formatModTimeUTC delivered).entries])
        (c.consumeAll F formatModTimeUTC delivered).nextCursor

end Consume

end HyperFileLens.Engine.SnapshotBrowse
