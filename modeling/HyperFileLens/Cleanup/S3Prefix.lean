import HyperFileLens.Storage.S3

/-!
# Deletion of an S3 repository

`deleteS3Prefix` of `s3_cleanup.go`: abort the multipart uploads under the prefix of
the repository, delete the versions and the objects but for the ownership marker,
check that nothing else is left, delete the marker, and check that the prefix is
empty.

Every loop takes the number of rounds it is followed for. An entry always has a
key and a version, so the checks for missing ones are left out.
-/

namespace HyperFileLens.Cleanup

open Service Storage

/-! ## Prefixes -/

def s3CleanupBatchSize : Nat := 500

def s3CleanupMarkerPath : List Char := ".hyperfilelens/repository-owner-v1.json".toList

def normalizeS3CleanupPrefix (configured : List Char) : List Char :=
  Text.trim (· == '/') ((Text.trimSpace configured).map fun c => if c = '\\' then '/' else c)

def s3CleanupListingPrefix (configured : List Char) : List Char :=
  let normalized := normalizeS3CleanupPrefix configured
  if normalized = [] then [] else normalized ++ ['/']

theorem s3CleanupMarkerPath_ne_nil : s3CleanupMarkerPath ≠ [] := by decide

def ownerMarkerKey (listed : List Char) : Key :=
  ⟨listed ++ s3CleanupMarkerPath,
    List.append_ne_nil_of_right_ne_nil listed s3CleanupMarkerPath_ne_nil⟩

theorem chars_ownerMarkerKey (listed : List Char) :
    (ownerMarkerKey listed).chars = listed ++ s3CleanupMarkerPath := rfl

/-! ## Batch deletion and its fallback -/

def isS3BatchDeleteCompatibilityError (error : ApiError) : Bool :=
  match error.code with
  | some code => Text.trimSpace code ∈
      ["MissingArgument".toList, "MissingContentMD5".toList, "NotImplemented".toList,
        "UnsupportedArgument".toList, "UnsupportedOperation".toList]
  | none => false

def trimVersionId (versionId : Option (List Char)) : Option (List Char) :=
  let trimmed := Text.trimSpace (versionId.getD [])
  if trimmed = [] then none else some trimmed

/-- The loop body of `deleteS3ObjectIdentifiersIndividually`. -/
def deleteS3ObjectIndividually (entry : ObjectIdentifier) : S3Prog Unit :=
  match entry.key.trimSpace with
  | none => .fail "unable to delete S3 object: object key is missing"
  | some key => do
      let answer ← deleteObject ⟨key, trimVersionId entry.versionId⟩
      expect ("unable to delete S3 object " ++ (String.ofList key.chars).quote) answer

def deleteS3ObjectIdentifiersIndividually (entries : List ObjectIdentifier) : S3Prog Unit :=
  entries.forM deleteS3ObjectIndividually

/-- What `deleteS3ObjectIdentifiers` does after the answer to a batch. -/
def afterDeleteObjects (batch : List ObjectIdentifier) :
    Except ApiError (List String) → S3Prog Unit
  | .error error =>
    if isS3BatchDeleteCompatibilityError error then deleteS3ObjectIdentifiersIndividually batch
    else .fail ("unable to delete S3 objects: " ++ error.message)
  | .ok [] => pure ()
  | .ok (code :: _) => .fail ("unable to delete S3 objects: " ++ code)

/-- The loop body of `deleteS3ObjectIdentifiers`. -/
def deleteS3Batch (batch : List ObjectIdentifier) : S3Prog Unit := do
  let answer ← deleteObjects batch
  afterDeleteObjects batch answer

def deleteS3ObjectIdentifiers (entries : List ObjectIdentifier) : S3Prog Unit :=
  (List.range ((entries.length + (s3CleanupBatchSize - 1)) / s3CleanupBatchSize)).forM fun i =>
    deleteS3Batch ((entries.drop (s3CleanupBatchSize * i)).take s3CleanupBatchSize)

def deleteS3Objects (keys : List Key) : S3Prog Unit :=
  deleteS3ObjectIdentifiers (keys.map fun key => ⟨key, none⟩)

/-! ## Multipart uploads -/

/-- The variables of `abortS3MultipartUploads`. -/
structure AbortProgress where
  aborted : Nat
  seen : List (List Char)
  abortedThisPage : Nat

def uploadIdentity (upload : Upload) : List Char :=
  upload.key.chars ++ '\x00' :: upload.uploadId

/-- The inner loop body of `abortS3MultipartUploads`. -/
def abortS3Upload (progress : AbortProgress) (upload : Upload) : S3Prog AbortProgress :=
  if uploadIdentity upload ∈ progress.seen then pure progress
  else do
    let answer ← abortMultipartUpload upload
    expect "unable to abort S3 multipart upload" answer
    pure
      { aborted := progress.aborted + 1
        seen := uploadIdentity upload :: progress.seen
        abortedThisPage := progress.abortedThisPage + 1 }

def abortS3MultipartUploads (listed : List Char) : Nat → Nat → List (List Char) → S3Prog Nat
  | 0, _, _ => .cut
  | rounds + 1, aborted, seen => do
      let answer ← listMultipartUploads listed 1000
      let uploads ← expect "unable to list S3 multipart uploads" answer
      let progress ← uploads.foldlM abortS3Upload
        { aborted := aborted, seen := seen, abortedThisPage := 0 }
      if uploads = [] then pure progress.aborted
      else if progress.abortedThisPage = 0 then
        .fail "unable to make progress aborting S3 multipart uploads"
      else abortS3MultipartUploads listed rounds progress.aborted progress.seen

/-! ## Versions -/

/-- What `scanS3ObjectVersions` returns. -/
structure VersionScan where
  entries : List ObjectIdentifier
  versionCount : Nat
  markerCount : Nat
  ownerVersions : List ObjectIdentifier

def VersionScan.ofPage (listed : List Char) (ownerVersions : List ObjectIdentifier)
    (page : Page Version) : VersionScan :=
  -- the versions of the page come before its delete markers
  let items := page.items.filter (!·.isDeleteMarker) ++ page.items.filter (·.isDeleteMarker)
  let others := items.filter (·.key ≠ ownerMarkerKey listed)
  { entries := others.map Version.identifier
    versionCount := (others.filter (!·.isDeleteMarker)).length
    markerCount := (others.filter (·.isDeleteMarker)).length
    ownerVersions := ownerVersions ++
      (items.filter (·.key = ownerMarkerKey listed)).map Version.identifier }

def scanS3ObjectVersions (listed : List Char) :
    Nat → Option Nat → List ObjectIdentifier → S3Prog VersionScan
  | 0, _, _ => .cut
  | rounds + 1, token, ownerVersions => do
      let answer ← listObjectVersions listed token 1000
      let page ← expect "unable to list S3 object versions" answer
      let scan := VersionScan.ofPage listed ownerVersions page
      if scan.entries ≠ [] then pure scan
      else if !page.truncated then pure scan
      else
        match page.next with
        | none => .fail "S3 object version listing did not provide a continuation key"
        | some next => scanS3ObjectVersions listed rounds (some next) scan.ownerVersions

/-- The fingerprint of a round of `deleteS3ObjectVersions`. -/
def versionsFingerprint (entries : List ObjectIdentifier) : List Char :=
  List.intercalate ['\x01']
    (entries.map fun entry => entry.key.chars ++ '\x00' :: entry.versionId.getD [])

def deleteS3ObjectVersions (listed : List Char) (scanRounds : Nat) :
    Nat → Nat → Nat → List (List Char) → S3Prog (Nat × Nat)
  | 0, _, _, _ => .cut
  | rounds + 1, versions, markers, seen => do
      let scan ← scanS3ObjectVersions listed scanRounds none []
      if scan.entries = [] then pure (versions, markers)
      else if versionsFingerprint scan.entries ∈ seen then
        .fail "unable to make progress deleting S3 object versions"
      else
        deleteS3ObjectIdentifiers scan.entries
        deleteS3ObjectVersions listed scanRounds rounds (versions + scan.versionCount)
          (markers + scan.markerCount) (versionsFingerprint scan.entries :: seen)

/-! ## Objects -/

/-- The fingerprint of a round of `deleteS3CurrentObjectsExceptMarker`. -/
def objectsFingerprint (keys : List Key) : List Char :=
  List.intercalate ['\x00'] (keys.map (·.chars))

def deleteS3CurrentObjectsExceptMarker (listed : List Char) :
    Nat → Nat → Bool → List (List Char) → S3Prog (Nat × Bool)
  | 0, _, _, _ => .cut
  | rounds + 1, deleted, ownerPresent, seen => do
      let answer ← listObjectsV2 listed none 1000
      let page ← expect "unable to inspect repository object prefix" answer
      let ownerPresent := ownerPresent || ownerMarkerKey listed ∈ page.items
      let keys := page.items.filter (· ≠ ownerMarkerKey listed)
      if keys = [] then pure (deleted, ownerPresent)
      else if objectsFingerprint keys ∈ seen then
        .fail "unable to make progress deleting S3 repository objects"
      else
        deleteS3Objects keys
        deleteS3CurrentObjectsExceptMarker listed rounds (deleted + keys.length) ownerPresent
          (objectsFingerprint keys :: seen)

/-! ## The marker is last -/

/-- The listing loop of `verifyS3PrefixContainsOnlyMarker`. -/
def verifyS3ObjectsOnlyMarker (listed : List Char) : Nat → Option Nat → Bool → S3Prog Bool
  | 0, _, _ => .cut
  | rounds + 1, token, ownerObjectPresent => do
      let answer ← listObjectsV2 listed token 1000
      let page ← expect "unable to inspect repository object prefix" answer
      if page.items.any (· ≠ ownerMarkerKey listed) then
        .fail "S3 repository prefix still contains objects before marker cleanup"
      else
        let ownerObjectPresent := ownerObjectPresent || ownerMarkerKey listed ∈ page.items
        if !page.truncated then pure ownerObjectPresent
        else
          match page.next with
          | none => .fail "S3 object listing did not provide a continuation token"
          | some next => verifyS3ObjectsOnlyMarker listed rounds (some next) ownerObjectPresent

/-- `verifyS3PrefixContainsOnlyMarker`. It returns the versions of the marker. -/
def verifyS3PrefixContainsOnlyMarker (listed : List Char) (rounds : Nat) :
    S3Prog (List ObjectIdentifier) := do
  let scan ← scanS3ObjectVersions listed rounds none []
  if scan.entries ≠ [] then
    .fail "S3 repository prefix still contains object versions before marker cleanup"
  else
    let ownerObjectPresent ← verifyS3ObjectsOnlyMarker listed rounds none false
    if !ownerObjectPresent then
      .fail "repository ownership marker changed before final cleanup"
    else
      let answer ← listMultipartUploads listed 1
      let uploads ← expect "unable to list S3 multipart uploads" answer
      if uploads ≠ [] then
        .fail "S3 repository prefix still contains multipart uploads before marker cleanup"
      else pure scan.ownerVersions

def verifyS3PrefixEmpty (listed : List Char) (rounds : Nat) : S3Prog Unit := do
  let answer ← listObjectVersions listed none 1
  let versions ← expect "unable to verify S3 object versions" answer
  if versions.items ≠ [] then
    .fail "S3 repository prefix still contains object versions after cleanup"
  else
    let answer ← listObjectsV2 listed none 1
    let objects ← expect "unable to inspect repository object prefix" answer
    if objects.items ≠ [] then
      .fail "S3 repository prefix still contains objects after cleanup"
    else
      let uploads ← abortS3MultipartUploads listed rounds 0 []
      if uploads > 0 then
        .fail "S3 repository prefix still contains multipart uploads after cleanup"
      else pure ()

/-- What `deleteS3Prefix` reports. -/
structure CleanupResult where
  listed : List Char
  deletedObjects : Nat
  deletedVersions : Nat
  deletedMarkers : Nat
  abortedUploads : Nat

def deleteS3Marker (listed : List Char) (ownerVersions : List ObjectIdentifier) : S3Prog Unit := do
  deleteS3ObjectIdentifiers ownerVersions
  if ownerVersions = [] then deleteS3Objects [ownerMarkerKey listed] else pure ()

def deleteS3Prefix (configured : List Char) (rounds : Nat) : S3Prog CleanupResult := do
  let listed := s3CleanupListingPrefix configured
  let aborted ← abortS3MultipartUploads listed rounds 0 []
  let (versions, markers) ← deleteS3ObjectVersions listed rounds rounds 0 0 []
  let (objects, _) ← deleteS3CurrentObjectsExceptMarker listed rounds 0 false []
  let ownerVersions ← verifyS3PrefixContainsOnlyMarker listed rounds
  deleteS3Marker listed ownerVersions
  verifyS3PrefixEmpty listed rounds
  pure
    { listed := listed
      deletedObjects := objects + if ownerVersions = [] then 1 else 0
      deletedVersions := versions + ownerVersions.length
      deletedMarkers := markers
      abortedUploads := aborted }

end HyperFileLens.Cleanup
