import HyperFileLens.Library.Service
import HyperFileLens.Library.Text

/-!
# S3 buckets

A bucket and the calls of the S3 client, as a service.

*Bucket.*  The current objects, the versions with the delete markers, and the
multipart uploads, each in the order of its listing. Nothing relates objects to
versions, since providers differ in what they list as versions.

*Listings.*  A page has the entries under a prefix from a continuation token on,
as many as the environment chooses up to the limit of the call, and says whether
entries are left. A token is a position.

*Deletions.*  All that is known of a deletion is that it leaves other keys alone.
What it leaves of the keys it names is chosen by the environment, whether it
answers with an error or not.
-/

namespace HyperFileLens.Storage

open Service

@[ext] structure Key where
  chars : List Char
  nonempty : chars ≠ []
deriving DecidableEq

/-- `strings.TrimSpace` of a key, if that leaves anything. -/
def Key.trimSpace (key : Key) : Option Key :=
  if h : Text.trimSpace key.chars = [] then none else some ⟨Text.trimSpace key.chars, h⟩

/-- A version of an object, or a delete marker. -/
structure Version where
  key : Key
  versionId : List Char
  isDeleteMarker : Bool
deriving DecidableEq

structure Upload where
  key : Key
  uploadId : List Char
deriving DecidableEq

structure Bucket where
  objects : List Key
  versions : List Version
  uploads : List Upload
deriving DecidableEq

structure ObjectIdentifier where
  key : Key
  versionId : Option (List Char)
deriving DecidableEq

def Version.identifier (v : Version) : ObjectIdentifier := ⟨v.key, some v.versionId⟩

/-- An error of the client. An error of the service has a code. -/
structure ApiError where
  code : Option (List Char)
  message : String
deriving DecidableEq

structure Page (α : Type) where
  items : List α
  /-- `IsTruncated`. -/
  truncated : Bool
  /-- The continuation token. -/
  next : Option Nat

inductive Request where
  | listObjectsV2 (listed : List Char) (token : Option Nat) (maxKeys : Nat)
  | listObjectVersions (listed : List Char) (token : Option Nat) (maxKeys : Nat)
  | listMultipartUploads (listed : List Char) (maxUploads : Nat)
  | abortMultipartUpload (upload : Upload)
  | deleteObjects (ids : List ObjectIdentifier)
  | deleteObject (id : ObjectIdentifier)
deriving DecidableEq

def Answer : Request → Type
  | .listObjectsV2 _ _ _ => Except ApiError (Page Key)
  | .listObjectVersions _ _ _ => Except ApiError (Page Version)
  | .listMultipartUploads _ _ => Except ApiError (List Upload)
  | .abortMultipartUpload _ => Except ApiError Unit
  -- the codes of the entries that were not deleted
  | .deleteObjects _ => Except ApiError (List String)
  | .deleteObject _ => Except ApiError Unit

/-- What the environment chooses for a call. -/
structure Choice where
  error : Option ApiError := none
  /-- How many entries a page may have. -/
  pageSize : Nat := 1000
  withToken : Bool := true
  /-- The upload is gone afterwards. -/
  aborts : Bool := true
  errorCodes : List String := []
  /-- What a deletion leaves of the keys it names. -/
  left : Bucket := ⟨[], [], []⟩

def Choice.answer {α : Type} (c : Choice) (a : α) : Except ApiError α :=
  match c.error with
  | some error => .error error
  | none => .ok a

def Choice.page {α : Type} (c : Choice) (items : List α) (token : Option Nat) (limit : Nat) :
    Page α :=
  let start := token.getD 0
  let size := min c.pageSize limit
  { items := (items.drop start).take size
    truncated := start + size < items.length
    next := if c.withToken then some (start + size) else none }

def Key.isUnder (listed : List Char) (key : Key) : Bool := listed.isPrefixOf key.chars

/-- The bucket after a deletion of the keys `named`. -/
def Bucket.delete (b : Bucket) (named : List Key) (left : Bucket) : Bucket where
  objects := b.objects.filter (· ∉ named) ++ left.objects.filter (· ∈ named)
  versions := b.versions.filter (·.key ∉ named) ++ left.versions.filter (·.key ∈ named)
  uploads := b.uploads

def respond (b : Bucket) : (r : Request) → Choice → Answer r × Bucket
  | .listObjectsV2 listed token maxKeys, c =>
    (c.answer (c.page (b.objects.filter (·.isUnder listed)) token maxKeys), b)
  | .listObjectVersions listed token maxKeys, c =>
    (c.answer (c.page (b.versions.filter (·.key.isUnder listed)) token maxKeys), b)
  | .listMultipartUploads listed maxUploads, c =>
    (c.answer (c.page (b.uploads.filter (·.key.isUnder listed)) none maxUploads).items, b)
  | .abortMultipartUpload upload, c =>
    (c.answer (), if c.aborts then { b with uploads := b.uploads.filter (· ≠ upload) } else b)
  | .deleteObjects ids, c => (c.answer c.errorCodes, b.delete (ids.map (·.key)) c.left)
  | .deleteObject id, c => (c.answer (), b.delete [id.key] c.left)

def s3 : Server Bucket Request Answer Choice where
  respond := respond

/-! ## The client -/

/-- A function that calls the S3 client and may return an error. -/
abbrev S3Prog (α : Type) := Prog Request Answer String α

def listObjectsV2 (listed : List Char) (token : Option Nat) (maxKeys : Nat) :
    S3Prog (Except ApiError (Page Key)) := Prog.request (Request.listObjectsV2 listed token maxKeys)

def listObjectVersions (listed : List Char) (token : Option Nat) (maxKeys : Nat) :
    S3Prog (Except ApiError (Page Version)) :=
  Prog.request (Request.listObjectVersions listed token maxKeys)

def listMultipartUploads (listed : List Char) (maxUploads : Nat) :
    S3Prog (Except ApiError (List Upload)) :=
  Prog.request (Request.listMultipartUploads listed maxUploads)

def abortMultipartUpload (upload : Upload) : S3Prog (Except ApiError Unit) :=
  Prog.request (Request.abortMultipartUpload upload)

def deleteObjects (ids : List ObjectIdentifier) : S3Prog (Except ApiError (List String)) :=
  Prog.request (Request.deleteObjects ids)

def deleteObject (id : ObjectIdentifier) : S3Prog (Except ApiError Unit) :=
  Prog.request (Request.deleteObject id)

/-- Return the error of a call with a description. -/
def expect {α : Type} (what : String) : Except ApiError α → S3Prog α
  | .error error => .fail (what ++ ": " ++ error.message)
  | .ok a => pure a

/-! ## Deletions -/

section Delete

variable {b left : Bucket} {named : List Key}

theorem mem_objects_delete {key : Key} (h : key ∉ named) :
    key ∈ (b.delete named left).objects ↔ key ∈ b.objects := by
  simp [Bucket.delete, h]

theorem mem_versions_delete {v : Version} (h : v.key ∉ named) :
    v ∈ (b.delete named left).versions ↔ v ∈ b.versions := by
  simp [Bucket.delete, h]

theorem mem_objects_of_delete {key : Key} (h : key ∈ (b.delete named left).objects) :
    key ∈ b.objects ∨ key ∈ named := by
  by_cases hn : key ∈ named
  · exact .inr hn
  · exact .inl ((mem_objects_delete hn).mp h)

/-- A version that a deletion leaves was there before or has a key that is named. -/
theorem mem_versions_of_delete {v : Version} (h : v ∈ (b.delete named left).versions) :
    v ∈ b.versions ∨ v.key ∈ named := by
  by_cases hn : v.key ∈ named
  · exact .inr hn
  · exact .inl ((mem_versions_delete hn).mp h)

end Delete

/-! ## Pages -/

section Pages

variable {α : Type} {c : Choice} {items : List α} {token : Option Nat} {limit : Nat}

theorem mem_of_mem_page {a : α} (h : a ∈ (c.page items token limit).items) : a ∈ items :=
  List.mem_of_mem_drop (List.mem_of_mem_take h)

/-- What holds of the entries before a page and of the page holds of the entries
before the next one. -/
theorem forall_take_next {P : α → Prop} (hseen : ∀ a ∈ items.take (token.getD 0), P a)
    (hpage : ∀ a ∈ (c.page items token limit).items, P a) {next : Nat}
    (hnext : (c.page items token limit).next = some next) : ∀ a ∈ items.take next, P a := by
  have hstart : next = token.getD 0 + min c.pageSize limit := by
    simp only [Choice.page] at hnext
    split at hnext
    · exact (Option.some.inj hnext).symm
    · simp at hnext
  intro a ha
  rw [hstart, List.take_add] at ha
  rcases List.mem_append.mp ha with ha | ha
  · exact hseen a ha
  · exact hpage a ha

/-- What holds of the entries before the last page and of the last page holds of all
entries. -/
theorem forall_of_last_page {P : α → Prop} (hseen : ∀ a ∈ items.take (token.getD 0), P a)
    (hpage : ∀ a ∈ (c.page items token limit).items, P a)
    (hlast : (c.page items token limit).truncated = false) : ∀ a ∈ items, P a := by
  have hlen : items.length ≤ token.getD 0 + min c.pageSize limit := by
    simpa [Choice.page] using hlast
  intro a ha
  rw [← List.take_of_length_le hlen, List.take_add] at ha
  rcases List.mem_append.mp ha with ha | ha
  · exact hseen a ha
  · exact hpage a ha

/-- A first page without entries, of a listing that has some, was to have none. -/
theorem eq_nil_of_page_eq_nil (hpage : (c.page items none limit).items = [])
    (hlimit : 0 < limit) (hsize : c.pageSize = 0 → items = []) : items = [] := by
  simp only [Choice.page, Option.getD_none, List.drop_zero, List.take_eq_nil_iff] at hpage
  rcases hpage with hzero | hnil
  · exact hsize (by omega)
  · exact hnil

end Pages

end HyperFileLens.Storage
