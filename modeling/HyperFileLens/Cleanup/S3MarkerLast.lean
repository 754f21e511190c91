import HyperFileLens.Cleanup.S3Prefix

/-!
# The ownership marker is deleted last

Whatever the service answers and wherever the agent is killed, `deleteS3Prefix`
names only keys under the listing prefix in its deletions, leaves the ownership
marker alone as long as anything else is left under the prefix, and reports success
only when the prefix is empty.

Two things are asked of the answers (`Choice.Tells`). The fallback for providers
without batch deletion trims the keys it deletes, so the keys it gets must not trim
to the marker or to a key elsewhere. And where the code does not look at
`IsTruncated`, a page without entries must be the last one.

*Phases.*  Up to the last check the bucket is `Unharmed`; from then on there is
`OnlyMarker` under the prefix. Both are kept by the deletions of their phase
(`Deletes`).
-/

namespace HyperFileLens.Cleanup

open Service Storage

/-! ## What cleanup keeps -/

/-- Nothing but the marker is under the prefix. -/
structure OnlyMarker (listed : List Char) (b : Bucket) : Prop where
  objects : ∀ key ∈ b.objects, key.isUnder listed = true → key = ownerMarkerKey listed
  versions : ∀ v ∈ b.versions, v.key.isUnder listed = true → v.key = ownerMarkerKey listed
  uploads : ∀ u ∈ b.uploads, u.key.isUnder listed = false

structure EmptyUnder (listed : List Char) (b : Bucket) : Prop where
  objects : ∀ key ∈ b.objects, key.isUnder listed = false
  versions : ∀ v ∈ b.versions, v.key.isUnder listed = false
  uploads : ∀ u ∈ b.uploads, u.key.isUnder listed = false

structure MarkerKept (listed : List Char) (b b' : Bucket) : Prop where
  objects : ownerMarkerKey listed ∈ b'.objects ↔ ownerMarkerKey listed ∈ b.objects
  versions : ∀ v : Version, v.key = ownerMarkerKey listed → (v ∈ b'.versions ↔ v ∈ b.versions)

structure OutsideKept (listed : List Char) (b b' : Bucket) : Prop where
  objects : ∀ key : Key, key.isUnder listed = false → (key ∈ b'.objects ↔ key ∈ b.objects)
  versions : ∀ v : Version, v.key.isUnder listed = false → (v ∈ b'.versions ↔ v ∈ b.versions)
  uploads : ∀ u : Upload, u.key.isUnder listed = false → (u ∈ b'.uploads ↔ u ∈ b.uploads)

/-- A call deletes and aborts under the prefix only. -/
def DeletesWithin (listed : List Char) : Request → Prop
  | .abortMultipartUpload upload => upload.key.isUnder listed = true
  | .deleteObjects ids => ∀ id ∈ ids, id.key.isUnder listed = true
  | .deleteObject id => id.key.isUnder listed = true
  | _ => True

/-- What the cleanup of a prefix is to keep, at the end of a run. -/
structure KeepsMarkerLast {α : Type} (listed : List Char) (b : Bucket)
    (r : Run Bucket Request String α) : Prop where
  within : ∀ call ∈ r.calls, DeletesWithin listed call
  outside : OutsideKept listed b r.state
  /-- While anything else is left, the marker is untouched. -/
  markerLast : ¬ OnlyMarker listed r.state → MarkerKept listed b r.state
  success : ∀ a, r.outcome = .done a → EmptyUnder listed r.state

/-- The answers that the code can deal with. A batch that goes to the fallback has
no key that trims to a key outside the prefix, and none but the marker trims to the
marker. A first page that is not looked at for truncation has an entry if there is
one. -/
def Tells (listed : List Char) (b : Bucket) : Request → Choice → Prop
  | .deleteObjects ids, c =>
    (∃ error, c.error = some error ∧ isS3BatchDeleteCompatibilityError error = true) →
      ∀ id ∈ ids, ∀ key, id.key.trimSpace = some key →
        key.isUnder listed = true ∧
          (key = ownerMarkerKey listed → id.key = ownerMarkerKey listed)
  | .listMultipartUploads under _, c =>
    c.pageSize = 0 → b.uploads.filter (·.key.isUnder under) = []
  | .listObjectsV2 under _ maxKeys, c =>
    maxKeys = 1 → c.pageSize = 0 → b.objects.filter (·.isUnder under) = []
  | .listObjectVersions under _ maxKeys, c =>
    maxKeys = 1 → c.pageSize = 0 → b.versions.filter (·.key.isUnder under) = []
  | _, _ => True

def markerContract (listed : List Char) (b₀ : Bucket) :
    Contract Bucket Request Answer Choice where
  server := s3
  allows := Tells listed
  guards := DeletesWithin listed
  keeps := fun b => OutsideKept listed b₀ b ∧ (MarkerKept listed b₀ b ∨ OnlyMarker listed b)

section Contract

variable {listed : List Char} {b₀ b : Bucket}

/-! ## Calls -/

variable {what : String}

theorem wp_expect {α : Type} {answer : Except ApiError α} {Q : α → Bucket → Prop}
    (h : ∀ a, answer = .ok a → Q a b) : (markerContract listed b₀).wp (expect what answer) Q b := by
  cases answer with
  | error error => trivial
  | ok a => exact h a rfl

theorem Choice.answer_eq_ok {α : Type} {c : Choice} {a a' : α} (h : c.answer a = .ok a') :
    a' = a := by
  unfold Choice.answer at h
  split at h
  · simp at h
  · exact (Except.ok.inj h).symm

variable {token : Option Nat} {under : List Char} {maxKeys : Nat}

theorem wp_listObjectsV2 {β : Type} {f : Page Key → S3Prog β} {Q : β → Bucket → Prop}
    (hb : (markerContract listed b₀).keeps b)
    (h : ∀ c : Choice, Tells listed b (.listObjectsV2 under token maxKeys) c → (markerContract
      listed b₀).wp (f (c.page (b.objects.filter (·.isUnder under)) token maxKeys)) Q b) :
    (markerContract listed b₀).wp
      ((listObjectsV2 under token maxKeys).bind fun answer => (expect what answer).bind f) Q b := by
  refine (Contract.wp_bind _ _ _ _).mpr ⟨trivial, fun c hc => ⟨hb, ?_⟩⟩
  refine (Contract.wp_bind _ _ _ _).mpr (wp_expect fun page hpage => ?_)
  rw [Choice.answer_eq_ok hpage]
  exact h c hc

theorem wp_listObjectVersions {β : Type} {f : Page Version → S3Prog β} {Q : β → Bucket → Prop}
    (hb : (markerContract listed b₀).keeps b)
    (h : ∀ c : Choice, Tells listed b (.listObjectVersions under token maxKeys) c →
      (markerContract listed b₀).wp (f (c.page (b.versions.filter (·.key.isUnder under)) token
      maxKeys)) Q b) :
    (markerContract listed b₀).wp
      ((listObjectVersions under token maxKeys).bind fun answer => (expect what answer).bind f)
      Q b := by
  refine (Contract.wp_bind _ _ _ _).mpr ⟨trivial, fun c hc => ⟨hb, ?_⟩⟩
  refine (Contract.wp_bind _ _ _ _).mpr (wp_expect fun page hpage => ?_)
  rw [Choice.answer_eq_ok hpage]
  exact h c hc

/-- List uploads and go on with a page, which is empty only if nothing is left. -/
theorem wp_listMultipartUploads {β : Type} {maxUploads : Nat} {f : List Upload → S3Prog β}
    {Q : β → Bucket → Prop} (hb : (markerContract listed b₀).keeps b) (hmax : 0 < maxUploads)
    (h : ∀ uploads : List Upload, (∀ u ∈ uploads, u.key.isUnder listed = true) →
      (uploads = [] → ∀ u ∈ b.uploads, u.key.isUnder listed = false) →
      (markerContract listed b₀).wp (f uploads) Q b) :
    (markerContract listed b₀).wp
      ((listMultipartUploads listed maxUploads).bind fun answer => (expect what answer).bind f)
      Q b := by
  refine (Contract.wp_bind _ _ _ _).mpr ⟨trivial, fun c hc => ⟨hb, ?_⟩⟩
  refine (Contract.wp_bind _ _ _ _).mpr (wp_expect fun page hpage => ?_)
  rw [Choice.answer_eq_ok hpage]
  refine h _ (fun u hu => ?_) (fun hnil u hu => ?_)
  · exact (List.mem_filter.mp (mem_of_mem_page hu)).2
  · have hempty := eq_nil_of_page_eq_nil hnil hmax hc
    simpa using List.filter_eq_nil_iff.mp hempty u hu

/-! ## Deletions -/

/-- Deletions of the keys `K` keep `P`. -/
structure Deletes (listed : List Char) (b₀ : Bucket) (P : Bucket → Prop) (K : Key → Prop) :
    Prop where
  kept : ∀ b, P b → (markerContract listed b₀).keeps b
  under : ∀ key, K key → key.isUnder listed = true
  delete : ∀ b named left, P b → (∀ key ∈ named, K key) → P (b.delete named left)
  trimmed : ∀ key key', K key → key.trimSpace = some key' → key'.isUnder listed = true →
    (key' = ownerMarkerKey listed → key = ownerMarkerKey listed) → K key'

variable {P : Bucket → Prop} {K : Key → Prop} {entry : ObjectIdentifier}

theorem wp_deleteS3ObjectIndividually (hD : Deletes listed b₀ P K) (hb : P b)
    (hkey : ∀ key, entry.key.trimSpace = some key → K key) :
    (markerContract listed b₀).wp (deleteS3ObjectIndividually entry) (fun _ => P) b := by
  unfold deleteS3ObjectIndividually
  cases htrim : entry.key.trimSpace with
  | none => trivial
  | some key =>
    have hK := hkey key htrim
    refine (Contract.wp_bind _ _ _ _).mpr ⟨hD.under key hK, fun c _ => ?_⟩
    have hdel : P (b.delete [key] c.left) :=
      hD.delete b [key] c.left hb (by simpa using hK)
    exact ⟨hD.kept _ hdel, wp_expect fun _ _ => hdel⟩

theorem wp_deleteS3Batch (hD : Deletes listed b₀ P K) (hb : P b) {batch : List ObjectIdentifier}
    (hbatch : ∀ entry ∈ batch, K entry.key) :
    (markerContract listed b₀).wp (deleteS3Batch batch) (fun _ => P) b := by
  refine (Contract.wp_bind _ _ _ _).mpr
    ⟨fun entry he => hD.under _ (hbatch entry he), fun c hc => ?_⟩
  have hdel : P (b.delete (batch.map (·.key)) c.left) := by
    refine hD.delete b _ c.left hb fun key hkey => ?_
    obtain ⟨entry, he, rfl⟩ := List.mem_map.mp hkey
    exact hbatch entry he
  refine ⟨hD.kept _ hdel, ?_⟩
  show (markerContract listed b₀).wp (afterDeleteObjects batch (c.answer c.errorCodes)) _ _
  cases herr : c.error with
  | none =>
    rw [Choice.answer, herr]
    cases c.errorCodes with
    | nil => exact hdel
    | cons code codes => trivial
  | some error =>
    rw [Choice.answer, herr]
    simp only [afterDeleteObjects]
    split
    · rename_i hcompatible
      -- the fallback gets keys that trim to keys it may delete
      refine Contract.wp_forM hdel fun entry he b' hb' => ?_
      refine wp_deleteS3ObjectIndividually hD hb' fun key htrim => ?_
      obtain ⟨hunder, hmarker⟩ := hc ⟨error, herr, hcompatible⟩ entry he key htrim
      exact hD.trimmed entry.key key (hbatch entry he) htrim hunder hmarker
    · trivial

theorem wp_deleteS3ObjectIdentifiers (hD : Deletes listed b₀ P K) (hb : P b)
    {entries : List ObjectIdentifier} (hentries : ∀ entry ∈ entries, K entry.key) :
    (markerContract listed b₀).wp (deleteS3ObjectIdentifiers entries) (fun _ => P) b := by
  refine Contract.wp_forM hb fun i _ b' hb' => ?_
  exact wp_deleteS3Batch hD hb' fun entry he =>
    hentries entry (List.mem_of_mem_drop (List.mem_of_mem_take he))

theorem wp_deleteS3Objects (hD : Deletes listed b₀ P K) (hb : P b) {keys : List Key}
    (hkeys : ∀ key ∈ keys, K key) :
    (markerContract listed b₀).wp (deleteS3Objects keys) (fun _ => P) b := by
  refine wp_deleteS3ObjectIdentifiers hD hb fun entry he => ?_
  obtain ⟨key, hkey, rfl⟩ := List.mem_map.mp he
  exact hkeys key hkey

/-! ## Phases -/

theorem isUnder_ownerMarkerKey (listed : List Char) :
    (ownerMarkerKey listed).isUnder listed = true :=
  List.isPrefixOf_iff_prefix.mpr (List.prefix_append listed s3CleanupMarkerPath)

structure Unharmed (listed : List Char) (b₀ b : Bucket) : Prop where
  outside : OutsideKept listed b₀ b
  marker : MarkerKept listed b₀ b

structure Cleared (listed : List Char) (b₀ b : Bucket) : Prop where
  outside : OutsideKept listed b₀ b
  onlyMarker : OnlyMarker listed b

theorem OutsideKept.delete (h : OutsideKept listed b₀ b) {named : List Key} (left : Bucket)
    (hnamed : ∀ key ∈ named, key.isUnder listed = true) :
    OutsideKept listed b₀ (b.delete named left) where
  objects := fun key hkey =>
    (mem_objects_delete fun hmem => by simp [hnamed key hmem] at hkey).trans (h.objects key hkey)
  versions := fun v hv =>
    (mem_versions_delete fun hmem => by simp [hnamed _ hmem] at hv).trans (h.versions v hv)
  uploads := h.uploads

theorem deletes_unharmed : Deletes listed b₀ (Unharmed listed b₀)
    (fun key => key.isUnder listed = true ∧ key ≠ ownerMarkerKey listed) where
  kept := fun b hb => ⟨hb.outside, .inl hb.marker⟩
  under := fun key hkey => hkey.1
  delete := fun b named left hb hnamed => by
    have hmarker : ownerMarkerKey listed ∉ named := fun hmem => (hnamed _ hmem).2 rfl
    refine ⟨hb.outside.delete left fun key hmem => (hnamed key hmem).1, ⟨?_, fun v hv => ?_⟩⟩
    · exact (mem_objects_delete hmarker).trans hb.marker.objects
    · exact (mem_versions_delete (hv ▸ hmarker)).trans (hb.marker.versions v hv)
  trimmed := fun key key' hkey _ hunder hmarker => ⟨hunder, fun h => hkey.2 (hmarker h)⟩

theorem trimSpace_ownerMarkerKey {key : Key} (htrim : (ownerMarkerKey listed).trimSpace = some key)
    (hunder : key.isUnder listed = true) : key = ownerMarkerKey listed := by
  have hchars : key.chars = Text.trimSpace (ownerMarkerKey listed).chars := by
    unfold Key.trimSpace at htrim
    split at htrim
    · simp at htrim
    · exact (congrArg Key.chars (Option.some.inj htrim)).symm
  have hlast : ∀ c ∈ (ownerMarkerKey listed).chars.getLast?, Text.isSpace c = false := by
    intro c hc
    have hn : s3CleanupMarkerPath.getLast? = some 'n' := by decide
    rw [chars_ownerMarkerKey, List.getLast?_append, hn] at hc
    cases hc
    decide
  have hhead : ∀ c ∈ (ownerMarkerKey listed).chars.head?, Text.isSpace c = false := by
    intro c hc
    cases hlisted : listed with
    | nil =>
      have hdot : s3CleanupMarkerPath.head? = some '.' := by decide
      rw [chars_ownerMarkerKey, hlisted, List.nil_append, hdot] at hc
      cases hc
      decide
    | cons d rest =>
      -- the trimmed key starts as the prefix does, and not with a blank
      obtain ⟨t, ht⟩ := List.isPrefixOf_iff_prefix.mp hunder
      rw [chars_ownerMarkerKey, hlisted, List.cons_append, List.head?_cons] at hc
      cases hc
      refine Text.head_trim Text.isSpace (ownerMarkerKey listed).chars ?_
      rw [← Text.trimSpace, ← hchars, ← ht, hlisted]
      rfl
  have hself : Text.trimSpace (ownerMarkerKey listed).chars = (ownerMarkerKey listed).chars :=
    Text.trim_eq_self hhead hlast
  exact Key.ext (hchars.trans hself)

theorem deletes_cleared : Deletes listed b₀ (Cleared listed b₀)
    (fun key => key = ownerMarkerKey listed) where
  kept := fun b hb => ⟨hb.outside, .inr hb.onlyMarker⟩
  under := fun key hkey => hkey ▸ isUnder_ownerMarkerKey listed
  delete := fun b named left hb hnamed => by
    have hunder : ∀ key ∈ named, key.isUnder listed = true :=
      fun key hmem => hnamed key hmem ▸ isUnder_ownerMarkerKey listed
    refine ⟨hb.outside.delete left hunder, ⟨fun key hkey hu => ?_, fun v hv hu => ?_, ?_⟩⟩
    · rcases mem_objects_of_delete hkey with hkey | hmem
      · exact hb.onlyMarker.objects key hkey hu
      · exact hnamed key hmem
    · rcases mem_versions_of_delete hv with hv | hmem
      · exact hb.onlyMarker.versions v hv hu
      · exact hnamed v.key hmem
    · exact hb.onlyMarker.uploads
  trimmed := fun key key' hkey htrim hunder _ => by
    subst hkey
    exact trimSpace_ownerMarkerKey htrim hunder

/-! ## Multipart uploads -/

theorem OutsideKept.abort (h : OutsideKept listed b₀ b) {upload : Upload}
    (hu : upload.key.isUnder listed = true) :
    OutsideKept listed b₀ { b with uploads := b.uploads.filter (· ≠ upload) } where
  objects := h.objects
  versions := h.versions
  uploads := fun v hv => by
    have hne : v ≠ upload := by
      rintro rfl
      simp [hu] at hv
    simpa [hne] using h.uploads v hv

/-- Aborts of uploads under the prefix keep `P`. -/
structure Aborts (listed : List Char) (b₀ : Bucket) (P : Bucket → Prop) : Prop where
  kept : ∀ b, P b → (markerContract listed b₀).keeps b
  abort : ∀ b upload, P b → upload.key.isUnder listed = true →
    P { b with uploads := b.uploads.filter (· ≠ upload) }

theorem aborts_unharmed : Aborts listed b₀ (Unharmed listed b₀) where
  kept := fun _ hb => ⟨hb.outside, .inl hb.marker⟩
  abort := fun _ _ hb hu => ⟨hb.outside.abort hu, hb.marker.objects, hb.marker.versions⟩

theorem wp_abortS3Upload (hA : Aborts listed b₀ P) (hb : P b) {upload : Upload}
    (hu : upload.key.isUnder listed = true) (progress : AbortProgress) :
    (markerContract listed b₀).wp (abortS3Upload progress upload) (fun _ => P) b := by
  unfold abortS3Upload
  split
  · exact hb
  · refine (Contract.wp_bind _ _ _ _).mpr ⟨hu, fun c _ => ?_⟩
    have hP : P (s3.respond b (.abortMultipartUpload upload) c).2 := by
      simp only [s3, respond]
      split
      · exact hA.abort b upload hb hu
      · exact hb
    exact ⟨hA.kept _ hP, (Contract.wp_bind _ _ _ _).mpr (wp_expect fun _ _ => hP)⟩

theorem wp_abortS3MultipartUploads (hA : Aborts listed b₀ P) (hb : P b) (rounds aborted : Nat)
    (seen : List (List Char)) :
    (markerContract listed b₀).wp (abortS3MultipartUploads listed rounds aborted seen)
      (fun _ b' => P b' ∧ ∀ u ∈ b'.uploads, u.key.isUnder listed = false) b := by
  induction rounds generalizing b aborted seen with
  | zero => trivial
  | succ rounds ih =>
    refine wp_listMultipartUploads (hA.kept b hb) (by decide) fun uploads hunder hnone => ?_
    cases uploads with
    | nil => exact ⟨hb, hnone rfl⟩
    | cons u uploads =>
      refine Contract.wp_then (P := fun _ => P) ?_ fun progress b' hb' => ?_
      · exact Contract.wp_foldlM hb fun v hv progress b' hb' =>
          wp_abortS3Upload hA hb' (hunder v hv) progress
      · simp only [reduceCtorEq, if_false]
        split
        · trivial
        · exact ih hb' _ _

/-! ## Versions -/

structure ScanTells (listed : List Char) (b : Bucket) (scan : VersionScan) : Prop where
  entries : ∀ entry ∈ scan.entries,
    entry.key.isUnder listed = true ∧ entry.key ≠ ownerMarkerKey listed
  ownerVersions : ∀ entry ∈ scan.ownerVersions, entry.key = ownerMarkerKey listed
  complete : scan.entries = [] →
    ∀ v ∈ b.versions, v.key.isUnder listed = true → v.key = ownerMarkerKey listed

variable {ownerVersions : List ObjectIdentifier}

theorem mem_entries_ofPage {page : Page Version} :
    entry ∈ (VersionScan.ofPage listed ownerVersions page).entries ↔
      ∃ v ∈ page.items, v.key ≠ ownerMarkerKey listed ∧ v.identifier = entry := by
  simp only [VersionScan.ofPage, List.mem_map, List.mem_filter, List.mem_append,
    decide_eq_true_eq, Bool.not_eq_eq_eq_not, Bool.not_true]
  constructor
  · rintro ⟨v, ⟨hv | hv, hne⟩, heq⟩
    · exact ⟨v, hv.1, hne, heq⟩
    · exact ⟨v, hv.1, hne, heq⟩
  · rintro ⟨v, hv, hne, heq⟩
    refine ⟨v, ⟨?_, hne⟩, heq⟩
    cases hmarker : v.isDeleteMarker with
    | false => exact .inl ⟨hv, rfl⟩
    | true => exact .inr ⟨hv, rfl⟩

theorem ownerVersions_ofPage (page : Page Version)
    (howner : ∀ entry ∈ ownerVersions, entry.key = ownerMarkerKey listed) :
    ∀ entry ∈ (VersionScan.ofPage listed ownerVersions page).ownerVersions,
      entry.key = ownerMarkerKey listed := by
  intro entry he
  rcases List.mem_append.mp he with he | he
  · exact howner entry he
  · obtain ⟨v, hv, rfl⟩ := List.mem_map.mp he
    have hkey : v.key = ownerMarkerKey listed := by simpa using (List.mem_filter.mp hv).2
    exact hkey

theorem wp_scanS3ObjectVersions (hb : (markerContract listed b₀).keeps b) (rounds : Nat)
    (howner : ∀ entry ∈ ownerVersions, entry.key = ownerMarkerKey listed)
    (hseen : ∀ v ∈ (b.versions.filter (·.key.isUnder listed)).take (token.getD 0),
      v.key = ownerMarkerKey listed) :
    (markerContract listed b₀).wp (scanS3ObjectVersions listed rounds token ownerVersions)
      (fun scan b' => b' = b ∧ ScanTells listed b scan) b := by
  induction rounds generalizing token ownerVersions with
  | zero => trivial
  | succ rounds ih =>
    refine wp_listObjectVersions hb fun c _ => ?_
    have howner' := ownerVersions_ofPage
      (c.page (b.versions.filter (·.key.isUnder listed)) token 1000) howner
    have hentries : ∀ entry ∈ (VersionScan.ofPage listed ownerVersions
        (c.page (b.versions.filter (·.key.isUnder listed)) token 1000)).entries,
        entry.key.isUnder listed = true ∧ entry.key ≠ ownerMarkerKey listed := by
      intro entry he
      obtain ⟨v, hv, hne, rfl⟩ := mem_entries_ofPage.mp he
      exact ⟨(List.mem_filter.mp (mem_of_mem_page hv)).2, hne⟩
    dsimp only
    split
    · rename_i hsome
      exact ⟨rfl, hentries, howner', fun hnil => absurd hnil hsome⟩
    · rename_i hnone
      -- all entries of the page are versions of the marker
      have honly : ∀ v ∈ (c.page (b.versions.filter (·.key.isUnder listed)) token 1000).items,
          v.key = ownerMarkerKey listed := by
        intro v hv
        by_contra hne
        exact hnone (List.ne_nil_of_mem (mem_entries_ofPage.mpr ⟨v, hv, hne, rfl⟩))
      split
      · rename_i hlast
        have hall := forall_of_last_page hseen honly (by simpa using hlast)
        exact ⟨rfl, hentries, howner', fun _ v hv hu =>
          hall v (List.mem_filter.mpr ⟨hv, hu⟩)⟩
      · split
        · trivial
        · rename_i next hnext
          exact ih howner' (forall_take_next hseen honly hnext)

theorem wp_deleteS3ObjectVersions (hb : Unharmed listed b₀ b)
    (scanRounds rounds versions markers : Nat) (seen : List (List Char)) :
    (markerContract listed b₀).wp
      (deleteS3ObjectVersions listed scanRounds rounds versions markers seen)
      (fun _ => Unharmed listed b₀) b := by
  induction rounds generalizing b versions markers seen with
  | zero => trivial
  | succ rounds ih =>
    refine Contract.wp_then (wp_scanS3ObjectVersions ⟨hb.outside, .inl hb.marker⟩ scanRounds
      (by simp) (by simp)) fun scan b' hscan => ?_
    obtain ⟨rfl, htells⟩ := hscan
    split
    · exact hb
    split
    · trivial
    · exact Contract.wp_then (wp_deleteS3ObjectIdentifiers deletes_unharmed hb htells.entries)
        fun _ b' hb' => ih hb' _ _ _

/-! ## Objects -/

theorem wp_deleteS3CurrentObjectsExceptMarker (hb : Unharmed listed b₀ b) (rounds deleted : Nat)
    (ownerPresent : Bool) (seen : List (List Char)) :
    (markerContract listed b₀).wp
      (deleteS3CurrentObjectsExceptMarker listed rounds deleted ownerPresent seen)
      (fun _ => Unharmed listed b₀) b := by
  induction rounds generalizing b deleted ownerPresent seen with
  | zero => trivial
  | succ rounds ih =>
    refine wp_listObjectsV2 ⟨hb.outside, .inl hb.marker⟩ fun c _ => ?_
    dsimp only
    split
    · exact hb
    split
    · trivial
    · refine Contract.wp_then (wp_deleteS3Objects deletes_unharmed hb fun key hkey => ?_)
        fun _ b' hb' => ih hb' _ _ _
      obtain ⟨hkey, hne⟩ := List.mem_filter.mp hkey
      exact ⟨(List.mem_filter.mp (mem_of_mem_page hkey)).2, by simpa using hne⟩

/-! ## The marker -/

theorem wp_verifyS3ObjectsOnlyMarker (hb : (markerContract listed b₀).keeps b) (rounds : Nat)
    (ownerObjectPresent : Bool)
    (hseen : ∀ key ∈ (b.objects.filter (·.isUnder listed)).take (token.getD 0),
      key = ownerMarkerKey listed) :
    (markerContract listed b₀).wp (verifyS3ObjectsOnlyMarker listed rounds token ownerObjectPresent)
      (fun _ b' => b' = b ∧
        ∀ key ∈ b.objects, key.isUnder listed = true → key = ownerMarkerKey listed) b := by
  induction rounds generalizing token ownerObjectPresent with
  | zero => trivial
  | succ rounds ih =>
    refine wp_listObjectsV2 hb fun c _ => ?_
    dsimp only
    split
    · trivial
    · rename_i hnone
      have honly : ∀ key ∈ (c.page (b.objects.filter (·.isUnder listed)) token 1000).items,
          key = ownerMarkerKey listed := by
        simpa using hnone
      split
      · rename_i hlast
        have hall := forall_of_last_page hseen honly (by simpa using hlast)
        exact ⟨rfl, fun key hkey hu => hall key (List.mem_filter.mpr ⟨hkey, hu⟩)⟩
      · split
        · trivial
        · rename_i next hnext
          exact ih _ (forall_take_next hseen honly hnext)

theorem wp_verifyS3PrefixContainsOnlyMarker (hb : Unharmed listed b₀ b) (rounds : Nat) :
    (markerContract listed b₀).wp (verifyS3PrefixContainsOnlyMarker listed rounds)
      (fun ownerVersions b' => Cleared listed b₀ b' ∧
        ∀ entry ∈ ownerVersions, entry.key = ownerMarkerKey listed) b := by
  have hkeeps : (markerContract listed b₀).keeps b := ⟨hb.outside, .inl hb.marker⟩
  refine Contract.wp_then (wp_scanS3ObjectVersions hkeeps rounds (by simp) (by simp))
    fun scan b' hscan => ?_
  obtain ⟨rfl, htells⟩ := hscan
  split
  · trivial
  rename_i hentries
  refine Contract.wp_then (wp_verifyS3ObjectsOnlyMarker hkeeps rounds false (by simp))
    fun ownerObjectPresent b'' hobjects => ?_
  obtain ⟨rfl, hobjects⟩ := hobjects
  split
  · trivial
  refine wp_listMultipartUploads hkeeps (by decide) fun uploads _ hnone => ?_
  split
  · trivial
  · rename_i huploads
    have honly : OnlyMarker listed b'' :=
      ⟨hobjects, htells.complete (by simpa using hentries), hnone (by simpa using huploads)⟩
    exact ⟨⟨hb.outside, honly⟩, htells.ownerVersions⟩

theorem wp_deleteS3Marker (hb : Cleared listed b₀ b)
    (howner : ∀ entry ∈ ownerVersions, entry.key = ownerMarkerKey listed) :
    (markerContract listed b₀).wp (deleteS3Marker listed ownerVersions)
      (fun _ => Cleared listed b₀) b := by
  refine Contract.wp_then (wp_deleteS3ObjectIdentifiers deletes_cleared hb howner)
    fun _ b' hb' => ?_
  split
  · exact wp_deleteS3Objects deletes_cleared hb' (by simp)
  · exact hb'

/-! ## The empty prefix -/

/-- After the last check, without objects and versions. -/
structure Deleted (listed : List Char) (b₀ b : Bucket) : Prop extends Cleared listed b₀ b where
  objects : ∀ key ∈ b.objects, key.isUnder listed = false
  versions : ∀ v ∈ b.versions, v.key.isUnder listed = false

theorem aborts_deleted : Aborts listed b₀ (Deleted listed b₀) where
  kept := fun _ hb => ⟨hb.outside, .inr hb.onlyMarker⟩
  abort := fun _ _ hb hu =>
    { outside := hb.outside.abort hu
      onlyMarker := ⟨hb.onlyMarker.objects, hb.onlyMarker.versions,
        fun v hv => hb.onlyMarker.uploads v (List.mem_of_mem_filter hv)⟩
      objects := hb.objects
      versions := hb.versions }

theorem wp_verifyS3PrefixEmpty (hb : Cleared listed b₀ b) (rounds : Nat) :
    (markerContract listed b₀).wp (verifyS3PrefixEmpty listed rounds)
      (fun _ => EmptyUnder listed) b := by
  have hkeeps : (markerContract listed b₀).keeps b := ⟨hb.outside, .inr hb.onlyMarker⟩
  refine wp_listObjectVersions hkeeps fun c hc => ?_
  split
  · trivial
  rename_i hversions
  refine wp_listObjectsV2 hkeeps fun c' hc' => ?_
  split
  · trivial
  rename_i hobjects
  have hdeleted : Deleted listed b₀ b := by
    refine ⟨hb, fun key hkey => ?_, fun v hv => ?_⟩
    · have hnil := eq_nil_of_page_eq_nil (by simpa using hobjects) (by decide) (hc' rfl)
      simpa using List.filter_eq_nil_iff.mp hnil key hkey
    · have hnil := eq_nil_of_page_eq_nil (by simpa using hversions) (by decide) (hc rfl)
      simpa using List.filter_eq_nil_iff.mp hnil v hv
  refine Contract.wp_then (wp_abortS3MultipartUploads aborts_deleted hdeleted rounds 0 [])
    fun uploads b' hb' => ?_
  split
  · trivial
  · exact ⟨hb'.1.objects, hb'.1.versions, hb'.2⟩

end Contract

/-! ## The whole cleanup -/

theorem wp_deleteS3Prefix (configured : List Char) (rounds : Nat) (b : Bucket) :
    (markerContract (s3CleanupListingPrefix configured) b).wp (deleteS3Prefix configured rounds)
      (fun _ => EmptyUnder (s3CleanupListingPrefix configured)) b := by
  have hstart : Unharmed (s3CleanupListingPrefix configured) b b :=
    ⟨⟨fun _ _ => .rfl, fun _ _ => .rfl, fun _ _ => .rfl⟩, ⟨.rfl, fun _ _ => .rfl⟩⟩
  refine Contract.wp_then (wp_abortS3MultipartUploads aborts_unharmed hstart rounds 0 [])
    fun aborted b₁ h₁ => ?_
  refine Contract.wp_then (wp_deleteS3ObjectVersions h₁.1 rounds rounds 0 0 [])
    fun counts b₂ h₂ => ?_
  refine Contract.wp_then (wp_deleteS3CurrentObjectsExceptMarker h₂ rounds 0 false [])
    fun objects b₃ h₃ => ?_
  refine Contract.wp_then (wp_verifyS3PrefixContainsOnlyMarker h₃ rounds)
    fun ownerVersions b₄ h₄ => ?_
  refine Contract.wp_then (wp_deleteS3Marker h₄.1 h₄.2) fun _ b₅ h₅ => ?_
  exact Contract.wp_then (wp_verifyS3PrefixEmpty h₅ rounds) fun _ b₆ h₆ => h₆

/-- The marker is last in every run whose answers the code can deal with. -/
theorem keepsMarkerLast_deleteS3Prefix (configured : List Char) (rounds : Nat) (b : Bucket)
    (choices : List Choice)
    (hchoices : s3.Meets (Tells (s3CleanupListingPrefix configured))
      (deleteS3Prefix configured rounds) b choices) :
    KeepsMarkerLast (s3CleanupListingPrefix configured) b
      (s3.run (deleteS3Prefix configured rounds) b choices) := by
  have hstart : (markerContract (s3CleanupListingPrefix configured) b).keeps b :=
    ⟨⟨fun _ _ => .rfl, fun _ _ => .rfl, fun _ _ => .rfl⟩, .inl ⟨.rfl, fun _ _ => .rfl⟩⟩
  obtain ⟨hcalls, ⟨houtside, hmarker⟩, hdone⟩ :=
    Contract.wp_sound (wp_deleteS3Prefix configured rounds b) hstart hchoices
  exact ⟨hcalls, houtside, fun honly => hmarker.resolve_right honly, hdone⟩

/-! ## A key that trims to the marker -/

def repositoryBucket (others : List Key) (uploads : List Upload) : Bucket :=
  let keys := ownerMarkerKey "repo/".toList :: others
  { objects := keys
    versions := keys.map fun key =>
      { key := key, versionId := "null".toList, isDeleteMarker := false }
    uploads := uploads }

def blankKey : Key :=
  ⟨(ownerMarkerKey "repo/".toList).chars ++ [' '], List.append_ne_nil_of_right_ne_nil _ nofun⟩

/-- The provider rejects the batch, and the fallback deletes the trimmed key. -/
def rejectedBatch : List Choice :=
  [{}, {},
    { error := some { code := some "MissingArgument".toList, message := "missing argument" }
      left := repositoryBucket [blankKey] [] },
    {}]

/-- The marker is deleted while the other object is there. -/
theorem not_keepsMarkerLast_rejectedBatch :
    ¬ KeepsMarkerLast (s3CleanupListingPrefix "repo".toList) (repositoryBucket [blankKey] [])
      (s3.run (deleteS3Prefix "repo".toList 2) (repositoryBucket [blankKey] []) rejectedBatch) := by
  have hstate : (s3.run (deleteS3Prefix "repo".toList 2) (repositoryBucket [blankKey] [])
      rejectedBatch).state.objects = [blankKey] := by decide
  intro h
  have hkept := h.markerLast fun honly => by
    have heq := honly.objects blankKey (by rw [hstate]; simp) (by decide)
    exact absurd heq (by decide)
  have hmem := hkept.objects.mpr (by decide)
  rw [hstate] at hmem
  exact absurd hmem (by decide)

theorem tells_default (listed : List Char) (b : Bucket) (r : Request) : Tells listed b r {} := by
  cases r <;> simp [Tells]

/-- A repository with an object and an upload, of which nothing is left. -/
theorem keepsMarkerLast_repositoryBucket :
    let key : Key := ⟨"repo/p0".toList, by decide⟩
    let b := repositoryBucket [key] [⟨key, "u1".toList⟩]
    let r := s3.run (deleteS3Prefix "repo".toList 3) b (List.replicate 14 {})
    (∃ result, r.outcome = .done result) ∧ r.state = ⟨[], [], []⟩ ∧
      KeepsMarkerLast (s3CleanupListingPrefix "repo".toList) b r := by
  refine ⟨⟨_, rfl⟩, by decide, keepsMarkerLast_deleteS3Prefix "repo".toList 3 _ _ ?_⟩
  refine .of_forall (fun c hc b r => ?_) _ _
  obtain rfl := List.eq_of_mem_replicate hc
  exact tells_default _ b r

end HyperFileLens.Cleanup
