import HyperFileLens.Library.GoText

/-!
# Lines of a snapshot listing

The agent lists a snapshot directory with `kopia ls -l` and reads the lines it prints,
`mode size date time zone objectid name`. The name is what stands behind the first place
where the object id occurs in the line.

The time of an entry is written in UTC by `formatModTimeUTC`, which asks for the time zone
and the year of the machine and is a parameter here.
-/

namespace HyperFileLens.Engine.SnapshotListing

open GoText (fields index parseInt64)

/-- What the parsers return for a line. -/
structure Listed where
  mode : List Char
  size : Int
  modTime : List Char
  name : List Char
  deriving DecidableEq

/-- `strings.Trim(name, "/\\")` -/
def isSlash (c : Char) : Bool := c == '/' || c == '\\'

def hasSnapshotPermissionSuffix (value : List Char) : Bool :=
  value.length == 9 && value.all ("rwxXsStT-".toList.contains ·) &&
    value.zipIdx.all fun permission =>
      if permission.2 % 3 = 0 then permission.1 == 'r' || permission.1 == '-'
      else if permission.2 % 3 = 1 then permission.1 == 'w' || permission.1 == '-'
      else "xXsStT-".toList.contains permission.1

def looksLikeMode (value : List Char) : Bool :=
  10 ≤ value.length &&
    (value.take (value.length - 9)).all ("-dalTLDpSugsct?lbCw".toList.contains ·) &&
    hasSnapshotPermissionSuffix (value.drop (value.length - 9))

def nameOf (line : List Char) (objectID : List Char) (rest : List (List Char)) : List Char :=
  Text.trim isSlash <|
    match index objectID line with
    | none => [' '].intercalate rest
    | some i => Text.trimSpace (line.drop (i + objectID.length))

section Parsers

variable (formatModTimeUTC : List Char → List Char)

/-- `parseSnapshotBrowseLongLineDiagnostic`, with the reason why there is no entry. -/
def parseSnapshotBrowseLongLineDiagnostic (line : List Char) : Except String Listed :=
  match fields line with
  | mode :: size :: date :: time :: zone :: objectID :: n :: ns =>
    if !looksLikeMode mode then .error "invalid_mode"
    else
      let name := nameOf line objectID (n :: ns)
      if name.isEmpty then .error "empty_name"
      else .ok ⟨mode, (parseInt64 size).1,
        formatModTimeUTC ([' '].intercalate [date, time, zone]), name⟩
  | _ => .error "insufficient_fields"

def parseSnapshotBrowseLongLine (line : List Char) : Option Listed :=
  (parseSnapshotBrowseLongLineDiagnostic formatModTimeUTC line).toOption

/-- `parseSnapshotBrowseFallbackLine`: only the permissions of the mode are looked at. -/
def parseSnapshotBrowseFallbackLine (line : List Char) : Option Listed :=
  match fields line with
  | mode :: size :: date :: time :: zone :: objectID :: n :: ns =>
    if mode.length < 10 || !hasSnapshotPermissionSuffix (mode.drop (mode.length - 9)) then none
    else
      let name := nameOf line objectID (n :: ns)
      if name.isEmpty then none
      else some ⟨mode, (parseInt64 size).1,
        formatModTimeUTC ([' '].intercalate [date, time, zone]), name⟩
  | _ => none

end Parsers

end HyperFileLens.Engine.SnapshotListing
