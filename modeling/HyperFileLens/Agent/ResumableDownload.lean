import HyperFileLens.Library.GoText

/-!
# Resumable downloads

`downloadURLResumableWithPolicy` downloads a package in several attempts. An attempt that
breaks off leaves its bytes in a `.part` file, and the next one asks for the rest of the
version whose validators it remembers. A complete file is renamed to the destination.

*The server.*  What it answers to a request is a function of the request, another one for
each attempt. The bytes of a body are those that were written to the file, and `broken` says
how reading or writing ended if not at the end of the body.

*Files.*  Opening, inspecting, closing and renaming may fail in any attempt. Removing the
part file works. `MkdirAll` of a directory that exists does nothing and succeeds, and while
there is a part file there is its directory.

Delays and progress reports are left out.
-/

namespace HyperFileLens.Agent.ResumableDownload

abbrev Bytes := List UInt8

/-! ## Errors -/

inductive Failure where
  | noProgress
  | sizeMismatch
  | rangeRejected
  | http (status : Nat)
  /-- Any other error, and whether `IsRetryableDownloadError` finds it to be temporary. -/
  | other (temporary : Bool)
deriving DecidableEq

def isRetryableDownloadError : Failure → Bool
  | .noProgress => true
  | .sizeMismatch => true
  | .rangeRejected => false
  | .http status => status ∈ [408, 429, 500, 502, 503, 504]
  | .other temporary => temporary

def isResumableDownloadError (err : Failure) : Bool :=
  isRetryableDownloadError err ||
    match err with
    | .rangeRejected => true
    | .http status => status == 416 || (500 ≤ status && status < 600)
    | _ => false

/-! ## Requests and responses -/

structure Request where
  /-- Where the range starts. Without a range it is zero. -/
  start : Nat
  ifRange : List Char

structure Response where
  status : Nat
  etag : List Char
  lastModified : List Char
  contentLength : Option Nat
  contentRange : List Char
  body : Bytes
  broken : Option Failure

/-- A range with its last byte, and the length of the whole. -/
def parseContentRange (value : List Char) : Option (Nat × Nat × Option Nat) :=
  match GoText.fields (Text.trimSpace value) with
  | [unit, rangeAndTotal] =>
    if unit ≠ "bytes".toList then none
    else
      match Text.splitFirst '/' rangeAndTotal with
      | none => none
      | some (range, whole) =>
        match Text.splitFirst '-' range with
        | none => none
        | some (first, last) =>
          let (start, err1) := GoText.parseInt64 first
          let (stop, err2) := GoText.parseInt64 last
          if err1.isSome || err2.isSome || start < 0 || stop < start then none
          else if whole = ['*'] then some (start.toNat, stop.toNat, none)
          else
            let (total, err) := GoText.parseInt64 whole
            if err.isSome || total ≤ stop then none
            else some (start.toNat, stop.toNat, some total.toNat)
  | _ => none

/-! ## An attempt -/

structure Validator where
  etag : List Char
  lastModified : List Char
  /-- The length of the whole, if it is known. -/
  totalBytes : Option Nat

/-- The files and what the call remembers. -/
structure State where
  /-- The file at the destination. -/
  dest : Option Bytes
  part : Option Bytes
  /-- The directory of the destination exists. -/
  dir : Bool
  validator : Validator

/-- What happens in an attempt. An error comes with whether it is temporary. -/
structure Try where
  serve : Request → Except Bool Response
  /-- The size of the part file cannot be read at the start. -/
  sizeUnknown : Bool
  mkdirFails : Option Bool
  openFails : Option Bool
  statFails : Option Bool
  closeFails : Option Bool
  renameFails : Option Bool
  /-- The context is done at the start, after the attempt, or while waiting for the next. -/
  doneBefore : Bool
  doneAfter : Bool
  doneWaiting : Bool

def removePart (s : State) : State := { s with part := none }

/-- Close the part file and rename it. -/
def promote (t : Try) (s : State) : Option Failure × State :=
  match t.closeFails with
  | some temporary => (some (.other temporary), s)
  | none =>
    match t.renameFails with
    | some temporary => (some (.other temporary), s)
    | none => (none, { s with dest := s.part, part := none })

/-- The error of `MkdirAll`, if it has to do something. -/
def mkdirError (t : Try) (s : State) : Option Bool := if s.dir then none else t.mkdirFails

/-- Download the whole into a new part file. -/
def restart (t : Try) (resp : Response) (s : State) : Option Failure × State :=
  match mkdirError t s with
  | some temporary => (some (.other temporary), s)
  | none =>
    let s := { s with dir := true, part := none }
    match t.openFails with
    | some temporary => (some (.other temporary), s)
    | none =>
      let s := { s with part := some resp.body }
      match resp.broken with
      | some err => (some err, s)
      | none =>
        if resp.contentLength.any (· ≠ resp.body.length) then (some .sizeMismatch, s)
        else promote t s

def finishRange (t : Try) (resp : Response) (resumeBytes rangeEnd rangeTotal : Nat) (s : State) :
    Option Failure × State :=
  match resp.broken with
  | some err => (some err, s)
  | none =>
    let written := resp.body.length
    let expected := rangeEnd - resumeBytes + 1
    if resp.contentLength.any (· ≠ written) then (some .sizeMismatch, s)
    else if expected < written then (some .rangeRejected, s)
    else if written ≠ expected then (some .sizeMismatch, s)
    else if resumeBytes + written ≠ rangeTotal then (some .sizeMismatch, s)
    else promote t s

def appendRange (t : Try) (resp : Response) (resumeBytes : Nat) (s : State) :
    Option Failure × State :=
  match mkdirError t s with
  | some temporary => (some (.other temporary), s)
  | none =>
    let s := { s with dir := true }
    match parseContentRange resp.contentRange with
    | some (start, stop, some total) =>
      if start ≠ resumeBytes then (some .rangeRejected, s)
      else if s.validator.totalBytes.any (· ≠ total) then (some .rangeRejected, s)
      else
        let s := { s with validator := { s.validator with totalBytes := some total } }
        if resp.contentLength.any (· ≠ stop - start + 1) then (some .rangeRejected, s)
        else
          match t.openFails with
          | some temporary => (some (.other temporary), s)
          | none =>
            match t.statFails with
            | some temporary => (some (.other temporary), s)
            | none =>
              let part := s.part.getD []
              if part.length ≠ resumeBytes then (some .rangeRejected, s)
              else
                finishRange t resp resumeBytes stop total
                  { s with part := some (part ++ resp.body) }
    | _ => (some .rangeRejected, s)

def requestOf (t : Try) (s : State) : Request :=
  let resumeBytes := if t.sizeUnknown then 0 else (s.part.getD []).length
  { start := resumeBytes,
    ifRange :=
      if resumeBytes = 0 then []
      else if s.validator.etag ≠ [] then s.validator.etag
      else s.validator.lastModified }

/-- The validators of a range contradict those of the part file. -/
def contradicts (v : Validator) (resp : Response) : Bool :=
  if v.etag ≠ [] ∧ resp.etag ≠ [] ∧ resp.etag ≠ v.etag then true
  else decide (v.etag = [] ∧ v.lastModified ≠ [] ∧ resp.lastModified ≠ [] ∧
    resp.lastModified ≠ v.lastModified)

def downloadURLAttempt (t : Try) (s : State) : Option Failure × State :=
  let resumeBytes := (requestOf t s).start
  match t.serve (requestOf t s) with
  | .error temporary => (some (.other temporary), s)
  | .ok resp =>
    if resp.status < 200 ∨ 300 ≤ resp.status then (some (.http resp.status), s)
    else if resp.status ≠ 200 ∧ resp.status ≠ 206 then (some .rangeRejected, s)
    else if resumeBytes = 0 ∧ resp.status ≠ 200 then (some .rangeRejected, s)
    else if resumeBytes = 0 ∨ resp.status = 200 then
      restart t resp { s with validator := {
        etag := resp.etag, lastModified := resp.lastModified,
        totalBytes := resp.contentLength } }
    else if contradicts s.validator resp then (some .rangeRejected, s)
    else appendRange t resp resumeBytes s

/-! ## The call -/

def maxAttempts : Nat := 4

def attempts : List Try → State → Option Failure × State
  | [], s => (some (.other false), s)
  | t :: rest, s =>
    if t.doneBefore then (some (.other false), removePart s)
    else
      match downloadURLAttempt t s with
      | (none, s) => (none, s)
      | (some err, s) =>
        if t.doneAfter then (some (.other false), removePart s)
        else if !isResumableDownloadError err || rest.isEmpty then (some err, removePart s)
        else if t.doneWaiting then (some (.other false), removePart s)
        else
          attempts rest
            (if err = .rangeRejected ∨ err = .http 416 then removePart s else s)

/-- The files before a call, with a part file that may be left of another one. -/
structure Files where
  dest : Option Bytes
  part : Option Bytes
  dir : Bool

/-- The call: an error if it fails, and the files after it. -/
def downloadURLResumableWithPolicy (tries : List Try) (files : Files) : Option Failure × State :=
  attempts (tries.take maxAttempts)
    { dest := files.dest, part := none, dir := files.dir,
      validator := { etag := [], lastModified := [], totalBytes := none } }

/-! ## Honest servers -/

structure Version where
  content : Bytes
  etag : List Char
  lastModified : List Char

def Version.validator (v : Version) : List Char := if v.etag ≠ [] then v.etag else v.lastModified

structure Distinct (versions : List Version) : Prop where
  ne_nil : ∀ v ∈ versions, v.validator ≠ []
  eq : ∀ v ∈ versions, ∀ w ∈ versions,
    v.validator = w.etag ∨ v.validator = w.lastModified → v = w

structure Honest (versions : List Version) (req : Request) (resp : Response) : Prop where
  declared : ∀ n ∈ resp.contentLength, resp.body.length ≤ n
  /-- A whole body is that of a version, with its validators and its length. Without a length
  the framing of the body tells its end. -/
  whole : resp.status = 200 → ∃ v ∈ versions,
    resp.etag = v.etag ∧ resp.lastModified = v.lastModified ∧ resp.body <+: v.content ∧
      (∀ n ∈ resp.contentLength, n = v.content.length) ∧
      (resp.contentLength = none → resp.broken = none → resp.body = v.content)
  /-- A range comes only when the validator is one of the version. It starts with the bytes
  that its header names, and the header tells the length of the version. -/
  range : resp.status = 206 → ∃ v ∈ versions,
    (req.ifRange ≠ [] → req.ifRange = v.etag ∨ req.ifRange = v.lastModified) ∧
      ∀ start stop total, parseContentRange resp.contentRange = some (start, stop, total) →
        resp.body.take (stop + 1 - start) <+: v.content.drop start ∧
          ∀ n ∈ total, n = v.content.length

/-- The server of an attempt is honest, whatever it is asked. -/
def HonestTry (versions : List Version) (t : Try) : Prop :=
  ∀ req resp, t.serve req = .ok resp → Honest versions req resp

/-- A range that breaks off does so within the bytes that its header names. -/
def BreaksWithin (t : Try) : Prop :=
  ∀ req resp, t.serve req = .ok resp → resp.status = 206 → resp.broken ≠ none →
    ∀ start stop total, parseContentRange resp.contentRange = some (start, stop, total) →
      resp.body.length ≤ stop + 1 - start

end HyperFileLens.Agent.ResumableDownload
