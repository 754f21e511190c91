import HyperFileLens.Cleanup.S3Prefix
import HyperFileLens.Library.Json

/-!
# The ownership proof of an S3 cleanup

`verifyS3CleanupOwnership` of `s3_cleanup.go`, which comes before `deleteS3Prefix`, and the
prefixes that the two work under.

*Prefixes.*  `normalizeS3CleanupPrefix` trims white space first and separators last. The proof
normalizes the configured prefix and hands the result on to functions that normalize again, the
deletion normalizes once.

*Markers.*  The body of a marker is a decoded JSON value, or nothing if it does not decode. The
comparison with the payload is an argument.
-/

namespace HyperFileLens.Cleanup

open Service Storage

/-! ## Calls -/

/-! ## The proof -/

def s3CleanupMarkerKey (configured : List Char) : List Char :=
  s3CleanupListingPrefix configured ++ s3CleanupMarkerPath

/-! ## Normalization -/

def isSeparator (c : Char) : Bool := c = '/' || c = '\\'

/-- What the trimmed text has between its outer separators. -/
def betweenSeparators (configured : List Char) : List Char :=
  Text.trim isSeparator (Text.trimSpace configured)

/-- No white space is next to the outer separators. -/
structure Unblanked (configured : List Char) : Prop where
  head : ∀ c ∈ (betweenSeparators configured).head?, Text.isSpace c = false
  last : ∀ c ∈ (betweenSeparators configured).getLast?, Text.isSpace c = false

/-- `strings.ReplaceAll(s, "\\", "/")`. -/
def toSlash (s : List Char) : List Char := s.map fun c => if c = '\\' then '/' else c

theorem isSeparator_iff (c : Char) : isSeparator c = ((if c = '\\' then '/' else c) == '/') := by
  by_cases h : c = '\\'
  · simp [isSeparator, h]
  · simp [isSeparator, h, beq_eq_decide]

theorem normalize_eq (configured : List Char) :
    normalizeS3CleanupPrefix configured = toSlash (betweenSeparators configured) := by
  have hcomp : ((· == '/') ∘ fun c : Char => if c = '\\' then '/' else c) = isSeparator := by
    funext c
    exact (isSeparator_iff c).symm
  rw [normalizeS3CleanupPrefix, betweenSeparators, toSlash, Text.trim, Text.trim, List.dropWhile_map,
    ← List.map_reverse, List.dropWhile_map, ← List.map_reverse, hcomp]

theorem toSlash_of_not_separator {c : Char} (h : isSeparator c = false) :
    (if c = '\\' then '/' else c) = c := by
  rw [if_neg]
  rintro rfl
  cases h

theorem head?_normalize (configured : List Char) :
    (normalizeS3CleanupPrefix configured).head? = (betweenSeparators configured).head? := by
  rw [normalize_eq, toSlash, List.head?_map]
  cases hhead : (betweenSeparators configured).head? with
  | none => rfl
  | some c => exact congrArg some (toSlash_of_not_separator (Text.head_trim isSeparator _ hhead))

theorem getLast?_normalize (configured : List Char) :
    (normalizeS3CleanupPrefix configured).getLast? = (betweenSeparators configured).getLast? := by
  rw [normalize_eq, toSlash, List.getLast?_map]
  cases hlast : (betweenSeparators configured).getLast? with
  | none => rfl
  | some c => exact congrArg some (toSlash_of_not_separator (Text.last_trim isSeparator _ hlast))

theorem not_mem_toSlash (s : List Char) : '\\' ∉ toSlash s := by
  intro h
  obtain ⟨c, -, hc⟩ := List.mem_map.mp h
  split at hc
  · cases hc
  · contradiction

theorem toSlash_eq_self {s : List Char} (h : '\\' ∉ s) : toSlash s = s := by
  have heach : s.map (fun c => if c = '\\' then '/' else c) = s.map id := by
    refine List.map_congr_left fun c hc => ?_
    rw [if_neg]
    · rfl
    · rintro rfl
      exact h hc
  rw [toSlash, heach, List.map_id]

/-- What a second normalization starts with, if there is no white space to trim. -/
theorem normalize_of_trimmed {configured : List Char}
    (h : Text.trimSpace (normalizeS3CleanupPrefix configured) =
      normalizeS3CleanupPrefix configured) :
    normalizeS3CleanupPrefix (normalizeS3CleanupPrefix configured) =
      normalizeS3CleanupPrefix configured := by
  have hslash : toSlash (normalizeS3CleanupPrefix configured) =
      normalizeS3CleanupPrefix configured := by
    refine toSlash_eq_self ?_
    rw [normalize_eq]
    exact not_mem_toSlash _
  show Text.trim (· == '/') (toSlash (Text.trimSpace (normalizeS3CleanupPrefix configured))) = _
  rw [h, hslash, normalizeS3CleanupPrefix, Text.trim_trim]

/-- A second normalization changes nothing exactly when there is no white space next to the outer
separators. -/
theorem normalize_normalize_iff (configured : List Char) :
    normalizeS3CleanupPrefix (normalizeS3CleanupPrefix configured) =
      normalizeS3CleanupPrefix configured ↔ Unblanked configured := by
  constructor
  · intro h
    have hsublist : (Text.trimSpace (normalizeS3CleanupPrefix configured)).Sublist
        (normalizeS3CleanupPrefix configured) := Text.trim_sublist _ _
    have hlength : (normalizeS3CleanupPrefix configured).length ≤
        (Text.trimSpace (normalizeS3CleanupPrefix configured)).length := by
      have hagain := (Text.trim_sublist (· == '/')
        (toSlash (Text.trimSpace (normalizeS3CleanupPrefix configured)))).length_le
      rw [toSlash, List.length_map] at hagain
      calc (normalizeS3CleanupPrefix configured).length
          = (normalizeS3CleanupPrefix (normalizeS3CleanupPrefix configured)).length := by rw [h]
        _ ≤ _ := hagain
    have htrimmed := hsublist.eq_of_length_le hlength
    constructor
    · intro c hc
      rw [← head?_normalize, ← htrimmed] at hc
      exact Text.head_trim Text.isSpace _ hc
    · intro c hc
      rw [← getLast?_normalize, ← htrimmed] at hc
      exact Text.last_trim Text.isSpace _ hc
  · intro h
    refine normalize_of_trimmed (Text.trim_eq_self ?_ ?_)
    · intro c hc
      rw [head?_normalize] at hc
      exact h.head c hc
    · intro c hc
      rw [getLast?_normalize] at hc
      exact h.last c hc

/-! ## The proved prefix and the deleted one -/

theorem s3CleanupListingPrefix_inj {p q : List Char}
    (h : s3CleanupListingPrefix p = s3CleanupListingPrefix q) :
    normalizeS3CleanupPrefix p = normalizeS3CleanupPrefix q := by
  simp only [s3CleanupListingPrefix] at h
  split at h
  · rename_i hp
    split at h
    · rename_i hq
      rw [hp, hq]
    · simp at h
  · split at h
    · simp at h
    · exact List.append_cancel_right h

/-- The proof reads the marker that the deletion deletes last, and lists what the deletion lists. -/
structure ProvedIsDeleted (configured : List Char) : Prop where
  marker : s3CleanupMarkerKey (normalizeS3CleanupPrefix configured) =
    (ownerMarkerKey (s3CleanupListingPrefix configured)).chars
  listing : s3CleanupListingPrefix (normalizeS3CleanupPrefix configured) =
    s3CleanupListingPrefix configured

/-- The proof and the deletion agree on the prefix exactly when normalization is idempotent on it,
which is when no white space is next to its outer separators. -/
theorem provedIsDeleted_iff (configured : List Char) :
    (ProvedIsDeleted configured ↔ Unblanked configured) ∧
      (normalizeS3CleanupPrefix (normalizeS3CleanupPrefix configured) =
        normalizeS3CleanupPrefix configured ↔ Unblanked configured) := by
  refine ⟨⟨fun h => ?_, fun h => ?_⟩, normalize_normalize_iff configured⟩
  · exact (normalize_normalize_iff configured).mp (s3CleanupListingPrefix_inj h.listing)
  · have hidempotent := (normalize_normalize_iff configured).mpr h
    have hlisting : s3CleanupListingPrefix (normalizeS3CleanupPrefix configured) =
        s3CleanupListingPrefix configured := by
      rw [s3CleanupListingPrefix, s3CleanupListingPrefix, hidempotent]
    refine ⟨?_, hlisting⟩
    rw [s3CleanupMarkerKey, hlisting, chars_ownerMarkerKey]

/-- A blank behind the first separator. The marker of `repo` is proved and the prefix of a
repository with a blank in its name is deleted. -/
theorem not_provedIsDeleted_blank : ¬ ∀ configured : List Char,
    ProvedIsDeleted configured ∧
      normalizeS3CleanupPrefix (normalizeS3CleanupPrefix configured) =
        normalizeS3CleanupPrefix configured := by
  intro h
  have hkey := (h "/ repo".toList).1.listing
  exact absurd hkey (by decide)

end HyperFileLens.Cleanup
