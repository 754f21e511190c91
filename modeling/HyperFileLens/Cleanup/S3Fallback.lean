import HyperFileLens.Cleanup.S3Prefix

/-!
# Batches and their fallback

`deleteS3ObjectIdentifiers` of `s3_cleanup.go` names the objects of a batch in one call. A
provider may reject the call, and then `deleteS3ObjectIdentifiersIndividually` names them one by
one, with keys and versions trimmed.

`issuedIndividually` is what the fallback names along the answers to its calls, and
`fallback_agrees_iff` says for which batches that is the batch.
-/

namespace HyperFileLens.Cleanup

open Service Storage

/-! ## What the fallback names -/

/-- The batch of a round of `deleteS3ObjectIdentifiers`. -/
def s3Batch (entries : List ObjectIdentifier) (i : Nat) : List ObjectIdentifier :=
  (entries.drop (s3CleanupBatchSize * i)).take s3CleanupBatchSize

def trimIdentifier (entry : ObjectIdentifier) : Option ObjectIdentifier :=
  entry.key.trimSpace.map fun key => ⟨key, trimVersionId entry.versionId⟩

/-- The identifiers that the fallback names until it fails. -/
def issuedIndividually : List ObjectIdentifier → List Choice → List ObjectIdentifier
  | entry :: entries, c :: cs =>
    match trimIdentifier entry with
    | none => []
    | some id => id :: if c.error = none then issuedIndividually entries cs else []
  | _, _ => []

structure Visible (id : ObjectIdentifier) : Prop where
  key : Text.trimSpace id.key.chars = id.key.chars
  version : ∀ v ∈ id.versionId, Text.trimSpace v = v ∧ v ≠ []

instance (id : ObjectIdentifier) : Decidable (Visible id) :=
  decidable_of_iff (Text.trimSpace id.key.chars = id.key.chars ∧
    ∀ v ∈ id.versionId, Text.trimSpace v = v ∧ v ≠ [])
    ⟨fun h => ⟨h.1, h.2⟩, fun h => ⟨h.key, h.version⟩⟩

variable {cs : List Choice}

variable {batch : List ObjectIdentifier} {b : Bucket} {c : Choice}

theorem trimVersionId_eq_self {versionId : Option (List Char)}
    (h : ∀ v ∈ versionId, Text.trimSpace v = v ∧ v ≠ []) : trimVersionId versionId = versionId := by
  cases versionId with
  | none => rfl
  | some v =>
    obtain ⟨htrim, hne⟩ := h v rfl
    simp only [trimVersionId, Option.getD_some, htrim, if_neg hne]

variable {id : ObjectIdentifier}

theorem trimIdentifier_of_visible (h : Visible id) : trimIdentifier id = some id := by
  obtain ⟨⟨chars, hne⟩, versionId⟩ := id
  have hkey : Text.trimSpace chars = chars := h.key
  have htrim : Key.trimSpace ⟨chars, hne⟩ = some ⟨chars, hne⟩ := by
    rw [Key.trimSpace]
    simp only [hkey, dif_neg hne]
  rw [trimIdentifier, htrim, Option.map_some, trimVersionId_eq_self h.version]

variable {entry id : ObjectIdentifier}

theorem visible_of_trimIdentifier (h : trimIdentifier entry = some id) : Visible id := by
  obtain ⟨key, hkey, rfl⟩ := Option.map_eq_some_iff.mp h
  constructor
  · rw [Key.trimSpace] at hkey
    split at hkey
    · cases hkey
    · cases hkey
      exact Text.trim_trim Text.isSpace _
  · intro v hv
    have hv : trimVersionId entry.versionId = some v := hv
    rw [trimVersionId] at hv
    split at hv
    · cases hv
    · rename_i hne
      cases hv
      exact ⟨Text.trim_trim Text.isSpace _, hne⟩

variable {entries : List ObjectIdentifier}

theorem visible_of_issued (h : id ∈ issuedIndividually entries cs) : Visible id := by
  induction entries generalizing cs with
  | nil => simp [issuedIndividually] at h
  | cons entry entries ih =>
    cases cs with
    | nil => simp [issuedIndividually] at h
    | cons c cs =>
      rw [issuedIndividually] at h
      cases htrim : trimIdentifier entry with
      | none => simp [htrim] at h
      | some trimmed =>
        rw [htrim] at h
        rcases List.mem_cons.mp h with rfl | h
        · exact visible_of_trimIdentifier htrim
        · split at h
          · exact ih h
          · cases h

/-- How many calls are answered before the first that fails, and that one. -/
def answeredCalls (cs : List Choice) : Nat := (cs.takeWhile fun c => c.error.isNone).length + 1

theorem issuedIndividually_eq_take (h : ∀ id ∈ entries, Visible id)
    (hlen : entries.length ≤ cs.length) :
    issuedIndividually entries cs = entries.take (answeredCalls cs) := by
  induction entries generalizing cs with
  | nil => simp [issuedIndividually]
  | cons entry entries ih =>
    cases cs with
    | nil => simp at hlen
    | cons c cs =>
      have hrest := ih (fun id hid => h id (List.mem_cons_of_mem _ hid)) (by simpa using hlen)
      rw [issuedIndividually, trimIdentifier_of_visible (h entry List.mem_cons_self)]
      cases herror : c.error with
      | none =>
        have htake : answeredCalls (c :: cs) = answeredCalls cs + 1 := by
          simp [answeredCalls, herror]
        rw [htake, List.take_succ_cons]
        simp only [if_true, hrest]
      | some error =>
        have htake : answeredCalls (c :: cs) = 1 := by simp [answeredCalls, herror]
        rw [htake]
        simp

/-! ## The calls of a run -/

theorem deleteS3ObjectIndividually_of_none {entry : ObjectIdentifier}
    (h : trimIdentifier entry = none) :
    deleteS3ObjectIndividually entry =
      .fail "unable to delete S3 object: object key is missing" := by
  rw [deleteS3ObjectIndividually, Option.map_eq_none_iff.mp h]

theorem deleteS3ObjectIndividually_of_some (h : trimIdentifier entry = some id) :
    deleteS3ObjectIndividually entry =
      .call (.deleteObject id)
        (expect ("unable to delete S3 object " ++ (String.ofList id.key.chars).quote)) := by
  obtain ⟨key, hkey, rfl⟩ := Option.map_eq_some_iff.mp h
  rw [deleteS3ObjectIndividually, hkey]
  rfl

theorem calls_individually (entries : List ObjectIdentifier) (b : Bucket) (cs : List Choice) :
    (s3.run (deleteS3ObjectIdentifiersIndividually entries) b cs).calls =
      (issuedIndividually entries cs).map .deleteObject := by
  induction entries generalizing b cs with
  | nil => rfl
  | cons entry entries ih =>
    have hforM : deleteS3ObjectIdentifiersIndividually (entry :: entries) =
        (deleteS3ObjectIndividually entry).bind fun _ =>
          deleteS3ObjectIdentifiersIndividually entries := rfl
    rw [hforM]
    cases htrim : trimIdentifier entry with
    | none =>
      rw [deleteS3ObjectIndividually_of_none htrim]
      cases cs with
      | nil => rfl
      | cons c cs =>
        rw [issuedIndividually, htrim]
        rfl
    | some id =>
      rw [deleteS3ObjectIndividually_of_some htrim]
      cases cs with
      | nil => rfl
      | cons c cs =>
        rw [issuedIndividually, htrim]
        cases herror : c.error with
        | none =>
          simp only [if_true, List.map_cons,
            ← ih (s3.respond b (.deleteObject id) c).2 cs]
          simp [Prog.bind, Server.run, s3, respond, Choice.answer, herror, expect]
        | some error =>
          simp [Prog.bind, Server.run, s3, respond, Choice.answer, herror, expect]

theorem deleteS3Batch_eq (batch : List ObjectIdentifier) :
    deleteS3Batch batch = .call (.deleteObjects batch) (afterDeleteObjects batch) := rfl

theorem calls_batch (hc : c.error = none) :
    (s3.run (deleteS3Batch batch) b (c :: cs)).calls = [.deleteObjects batch] := by
  rw [deleteS3Batch_eq]
  cases hcodes : c.errorCodes with
  | nil => simp [Server.run, s3, respond, Choice.answer, hc, afterDeleteObjects, hcodes]
  | cons code codes => simp [Server.run, s3, respond, Choice.answer, hc, afterDeleteObjects, hcodes]

theorem calls_fallback {error : ApiError} (hc : c.error = some error)
    (hrejected : isS3BatchDeleteCompatibilityError error = true) :
    (s3.run (deleteS3Batch batch) b (c :: cs)).calls =
      .deleteObjects batch :: (issuedIndividually batch cs).map .deleteObject := by
  rw [← calls_individually batch (s3.respond b (.deleteObjects batch) c).2 cs, deleteS3Batch_eq]
  simp [Server.run, s3, respond, Choice.answer, hc, afterDeleteObjects, hrejected]

/-! ## Agreement -/

/-- The calls of a round of `deleteS3ObjectIdentifiers`. -/
def batchCalls (entries : List ObjectIdentifier) (i : Nat) (b : Bucket) (cs : List Choice) :
    List Request :=
  (s3.run (deleteS3Batch (s3Batch entries i)) b cs).calls

/-- After the answers `rejected` a round deletes the pairs that it deletes after the answers
`accepted`, and these are the listed ones. -/
structure FallbackAgrees (entries : List ObjectIdentifier) (i : Nat) (b : Bucket)
    (accepted rejected : List Choice) : Prop where
  same : ∀ id, .deleteObject id ∈ batchCalls entries i b rejected ↔
    ∃ batch, .deleteObjects batch ∈ batchCalls entries i b accepted ∧ id ∈ batch
  listed : ∀ id, .deleteObject id ∈ batchCalls entries i b rejected ↔ id ∈ s3Batch entries i

/-- A rejected batch is deleted as it was listed exactly when its keys and versions have no white
space around them, its versions are not empty, and no single deletion fails before all of them were
named. -/
theorem fallback_agrees_iff (entries : List ObjectIdentifier) (i : Nat) (b : Bucket)
    (a c : Choice) (as cs : List Choice) {error : ApiError} (ha : a.error = none)
    (hc : c.error = some error) (hrejected : isS3BatchDeleteCompatibilityError error = true)
    (hlen : (s3Batch entries i).length ≤ cs.length) :
    FallbackAgrees entries i b (a :: as) (c :: cs) ↔
      (∀ id ∈ s3Batch entries i, Visible id) ∧
        ∀ id ∈ s3Batch entries i, id ∈ (s3Batch entries i).take (answeredCalls cs) := by
  have hcalls : ∀ id, .deleteObject id ∈ batchCalls entries i b (c :: cs) ↔
      id ∈ issuedIndividually (s3Batch entries i) cs := by
    intro id
    rw [batchCalls, calls_fallback hc hrejected]
    simp
  have hbatch : ∀ id, (∃ batch, .deleteObjects batch ∈ batchCalls entries i b (a :: as) ∧
      id ∈ batch) ↔ id ∈ s3Batch entries i := by
    intro id
    rw [batchCalls, calls_batch ha]
    simp
  constructor
  · intro h
    have hissued : ∀ id ∈ s3Batch entries i, id ∈ issuedIndividually (s3Batch entries i) cs :=
      fun id hid => (hcalls id).mp ((h.listed id).mpr hid)
    have hvisible : ∀ id ∈ s3Batch entries i, Visible id :=
      fun id hid => visible_of_issued (hissued id hid)
    rw [← issuedIndividually_eq_take hvisible hlen]
    exact ⟨hvisible, hissued⟩
  · rintro ⟨hvisible, hreached⟩
    have hlisted : ∀ id, .deleteObject id ∈ batchCalls entries i b (c :: cs) ↔
        id ∈ s3Batch entries i := by
      intro id
      rw [hcalls, issuedIndividually_eq_take hvisible hlen]
      exact ⟨List.mem_of_mem_take, hreached id⟩
    exact ⟨fun id => (hlisted id).trans (hbatch id).symm, hlisted⟩

def listedObject (key : String) (h : key.toList ≠ []) : ObjectIdentifier := ⟨⟨key.toList, h⟩, none⟩

/-- The answer of a provider without batch deletion. -/
def noBatches : Choice := { error := some ⟨some "NotImplemented".toList, "not implemented"⟩ }

/-- Two keys that are named as they were listed. -/
theorem fallback_agrees_two :
    FallbackAgrees [listedObject "r/a" (by decide), listedObject "r/b" (by decide)] 0
      ⟨[], [], []⟩ [{}] [noBatches, {}, {}] :=
  (fallback_agrees_iff _ 0 ⟨[], [], []⟩ {} noBatches [] [{}, {}] rfl rfl (by decide)
    (by decide)).mpr ⟨by decide, by decide⟩

/-- The fallback names another key for one that ends with a blank. -/
theorem not_fallback_agrees_blank :
    ¬ FallbackAgrees [listedObject "r/a " (by decide)] 0 ⟨[], [], []⟩ [{}] [noBatches, {}] :=
  fun h => absurd ((h.listed (listedObject "r/a " (by decide))).mpr (by decide)) (by decide)

end HyperFileLens.Cleanup
