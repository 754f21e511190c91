import Mathlib.Data.Finset.Sort
import HyperFileLens.Library.Json
import HyperFileLens.Library.Table

/-!
# The ledger of repository residue

A deregistration that is forced records the snapshots it could not delete in a repository, one row
for a source, a repository and a set of snapshots. `_enqueue_repository_purge_pending` finds the
row by an idempotency key, the hash of the text of these values, and takes in the rows of earlier
versions, which have no key.

*Identity.*  `PurgePending.identity` is what a row is about: its columns and the set of the
snapshots in its payload. `Absorbs` says that a row has all that another one had.
-/

namespace HyperFileLens.Cleanup.PurgeLedger

/-! ## Rows -/

inductive SourceKind where
  | agent
  | nas
deriving DecidableEq, Repr

def SourceKind.text : SourceKind → List Char
  | .agent => "agent".toList
  | .nas => "nas".toList

/-- The source, the repository and the snapshots that a row is about. -/
structure Identity where
  organizationId : Nat
  sourceKind : SourceKind
  sourceRefId : Nat
  repositoryId : Nat
  snapshotIds : Finset Nat
deriving DecidableEq

/-- A payload that is a dictionary. A list that is absent is empty. -/
structure Payload where
  sourceSnapshotIds : Json
  kopiaSnapshotIds : List String := []
  snapshotLocations : List Json := []
  error : String := ""
  /-- `source_unregister_task_id` and `source_unregister_attempt`. -/
  unregister : Option (Nat × Nat) := none

/-- `BackupSourceRepositoryPurgePending`, with `none` for a payload that is no dictionary. -/
structure PurgePending where
  id : Nat
  organizationId : Nat
  sourceKind : SourceKind
  sourceRefId : Nat
  repositoryId : Nat
  idempotencyKey : Option (List Char)
  payload : Option Payload
  retryCount : Nat := 0
  lastError : String := ""

/-- The columns of `BackupSourceSnapshotDirectory` that a location is made of. -/
structure SnapshotDirectory where
  organizationId : Nat
  sourceSnapshotId : Nat
  repositoryId : Nat
  kopiaSnapshotId : Option String
  repositoryLocator : Json

/-- The arguments of a call, and the directories that it finds. -/
structure Call where
  organizationId : Nat
  sourceKind : SourceKind
  sourceRefId : Nat
  repositoryId : Nat
  snapshotIds : List Json
  kopiaSnapshotIds : List String
  error : String
  unregisterTask : Option (Nat × Nat)
  directories : List SnapshotDirectory

/-! ## Identities and keys -/

def pendingSnapshotId (value : Json) : Option Nat :=
  value.pyInt.bind fun n => if 0 < n then some n.toNat else none

/-- The set that `_normalize_pending_snapshot_ids` collects. -/
def pendingSnapshotIds : Json → Finset Nat
  | .arr values => (values.filterMap pendingSnapshotId).toFinset
  | _ => ∅

def normalizePendingSnapshotIds (values : Json) : List Nat :=
  (pendingSnapshotIds values).sort (· ≤ ·)

def idsText (ids : List Nat) : List Char := [','].intercalate (ids.map (Nat.toDigits 10))

def Identity.parts (identity : Identity) : List (List Char) :=
  [Nat.toDigits 10 identity.organizationId, identity.sourceKind.text,
    Nat.toDigits 10 identity.sourceRefId, Nat.toDigits 10 identity.repositoryId,
    idsText (identity.snapshotIds.sort (· ≤ ·))]

def Identity.text (identity : Identity) : List Char := [':'].intercalate identity.parts

def repositoryPurgeIdempotencyKey (sha256 : List Char → List Char) (identity : Identity) :
    List Char :=
  sha256 identity.text

def PurgePending.identity (row : PurgePending) : Identity :=
  ⟨row.organizationId, row.sourceKind, row.sourceRefId, row.repositoryId,
    (row.payload.map fun payload => pendingSnapshotIds payload.sourceSnapshotIds).getD ∅⟩

def Call.identity (call : Call) : Identity :=
  ⟨call.organizationId, call.sourceKind, call.sourceRefId, call.repositoryId,
    pendingSnapshotIds (.arr call.snapshotIds)⟩

/-! ## Locations -/

def locatorFields : List String :=
  ["version", "repository_id", "repository_type", "repository_subdir", "writer_node_id",
    "access_node_id"]

def safeSnapshotLocator (value : Json) (repositoryId : Nat) : Dict :=
  match value with
  | .obj fields =>
    let safe : Dict := locatorFields.filterMap fun key =>
      match Dict.get? fields key with
      | none | some .null | some (.str "") => none
      | some v => some (key, v)
    if Dict.has safe "repository_id" then safe
    else Dict.set safe "repository_id" (.int repositoryId)
  | _ => []

def SnapshotDirectory.location (row : SnapshotDirectory) (repositoryId : Nat) : Json :=
  .obj [("source_snapshot_id", .int row.sourceSnapshotId),
    ("kopia_snapshot_id", .str (row.kopiaSnapshotId.getD "")),
    ("repository_locator", .obj (safeSnapshotLocator row.repositoryLocator repositoryId))]

mutual

/-- A value with the keys of its dictionaries sorted, which is what the text of
`json.dumps(value, sort_keys=True)` tells of it. -/
def sortKeys : Json → Json
  | .arr xs => .arr (sortKeysList xs)
  | .obj fields => .obj ((sortKeysFields fields).insertionSort fun f g => f.1 ≤ g.1)
  | v => v

def sortKeysList : List Json → List Json
  | [] => []
  | x :: xs => sortKeys x :: sortKeysList xs

def sortKeysFields : Dict → Dict
  | [] => []
  | (k, v) :: fields => (k, sortKeys v) :: sortKeysFields fields

end

/-- The values of `{json.dumps(location, sort_keys=True): location for location in locations}`. -/
def distinctLocations (locations : List Json) : List Json :=
  locations.foldl (fun values location =>
    if values.any fun v => sortKeys v = sortKeys location then Table.put sortKeys values location
    else values ++ [location]) []

def PurgePending.kopiaSnapshotIds (row : PurgePending) : List String :=
  (row.payload.map Payload.kopiaSnapshotIds).getD []

def isDict : Json → Bool
  | .obj _ => true
  | _ => false

/-- The locations of a row that are dictionaries. -/
def PurgePending.snapshotLocations (row : PurgePending) : List Json :=
  ((row.payload.map Payload.snapshotLocations).getD []).filter isDict

def Call.snapshotLocations (call : Call) : List Json :=
  (call.directories.filter fun row => row.organizationId = call.organizationId ∧
    row.sourceSnapshotId ∈ normalizePendingSnapshotIds (.arr call.snapshotIds) ∧
    row.repositoryId = call.repositoryId).map (·.location call.repositoryId)

/-! ## A call -/

/-- The row that a call writes, and the other rows that it takes in. -/
def canonicalRow (keyed : Option PurgePending) (matchingLegacy : List PurgePending) :
    Option PurgePending × List PurgePending :=
  match keyed, matchingLegacy with
  | none, legacy :: rest => (some legacy, rest)
  | row, rest => (row, rest)

def isBlank (value : String) : Bool := Text.strip value = ""

/-- `list(dict.fromkeys(values))`: the first of equal values stays. -/
def fromKeys (values : List String) : List String :=
  values.foldl (fun keys value => if value ∈ keys then keys else keys ++ [value]) []

/-- The payload that a call writes, with the rows that it has found. -/
def Call.payload (call : Call) (found : List PurgePending) : Payload where
  sourceSnapshotIds :=
    .arr ((normalizePendingSnapshotIds (.arr call.snapshotIds)).map fun n : Nat => .int n)
  kopiaSnapshotIds :=
    let merged := fromKeys ((found.flatMap (·.kopiaSnapshotIds)).filter (!isBlank ·))
    fromKeys (merged ++ call.kopiaSnapshotIds.filter (!isBlank ·))
  snapshotLocations :=
    distinctLocations (found.flatMap (·.snapshotLocations) ++ call.snapshotLocations)
  error := String.ofList (call.error.toList.take 2000)
  unregister := call.unregisterTask

/-- `objects.create` of a call. -/
def Call.created (call : Call) (id : Nat) (key : List Char) (payload : Payload) : PurgePending where
  id := id
  organizationId := call.organizationId
  sourceKind := call.sourceKind
  sourceRefId := call.sourceRefId
  repositoryId := call.repositoryId
  idempotencyKey := some key
  payload := some payload
  lastError := payload.error

/-- The row that is saved for itself and the rows that it takes in. -/
def PurgePending.saved (canonical : PurgePending) (key : List Char) (payload : Payload)
    (matchingLegacy : List PurgePending) : PurgePending :=
  { canonical with
    idempotencyKey := some key
    payload := some payload
    retryCount := ((canonical :: matchingLegacy).map (·.retryCount)).foldr max 0
    lastError := payload.error }

variable (sha256 : List Char → List Char)

/-- The rows of a call, found by the key and by the columns of the rows without one. -/
def Call.found (call : Call) (rows : List PurgePending) :
    Option PurgePending × List PurgePending :=
  let key := repositoryPurgeIdempotencyKey sha256 call.identity
  let legacyRows := rows.filter fun row => row.organizationId = call.organizationId ∧
    row.sourceKind = call.sourceKind ∧ row.sourceRefId = call.sourceRefId ∧
    row.repositoryId = call.repositoryId ∧ row.idempotencyKey = none
  let matchingLegacy := legacyRows.filter fun row =>
    (row.payload.map fun payload => normalizePendingSnapshotIds payload.sourceSnapshotIds).getD []
      = normalizePendingSnapshotIds (.arr call.snapshotIds)
  canonicalRow (Table.find PurgePending.idempotencyKey rows (some key)) matchingLegacy

/-- `_enqueue_repository_purge_pending`: the rows after it, and the identifier it returns. -/
def enqueueRepositoryPurgePending (call : Call) (rows : List PurgePending) :
    List PurgePending × Nat :=
  let key := repositoryPurgeIdempotencyKey sha256 call.identity
  let found := call.found sha256 rows
  let payload := call.payload (found.1.toList ++ found.2)
  match found.1 with
  | none =>
    let id := Table.fresh (rows.map PurgePending.id)
    (rows ++ [call.created id key payload], id)
  | some canonical =>
    ((Table.put PurgePending.id rows (canonical.saved key payload found.2)).filter fun row =>
      row.id ∉ found.2.map PurgePending.id, canonical.id)

/-- The rows after some calls, one after the other. -/
def runCalls (calls : List Call) (rows : List PurgePending) : List PurgePending :=
  calls.foldl (fun rows call => (enqueueRepositoryPurgePending sha256 call rows).1) rows

variable {sha256}

/-! ## Texts of identities -/

theorem toDigits_injective : Function.Injective (Nat.toDigits 10) := by
  intro m n h
  have hread := congrArg (Nat.ofDigitChars 10 · 0) h
  simpa only [Nat.ofDigitChars_ten_toDigits] using hread

theorem not_mem_toDigits {c : Char} (hc : c.isDigit = false) (n : Nat) : c ∉ Nat.toDigits 10 n := by
  intro h
  rw [Nat.isDigit_of_mem_toDigits (by decide) (by decide) h] at hc
  cases hc

theorem mem_intercalate {c sep : Char} {texts : List (List Char)}
    (h : c ∈ [sep].intercalate texts) : c = sep ∨ ∃ text ∈ texts, c ∈ text := by
  induction texts with
  | nil => cases h
  | cons text rest ih =>
    cases rest with
    | nil => exact .inr ⟨text, List.mem_singleton_self _, by simpa using h⟩
    | cons next rest =>
      have hsplit : [sep].intercalate (text :: next :: rest) =
          text ++ sep :: [sep].intercalate (next :: rest) := by simp [List.intercalate]
      rw [hsplit, List.mem_append, List.mem_cons] at h
      rcases h with h | rfl | h
      · exact .inr ⟨text, List.mem_cons_self, h⟩
      · exact .inl rfl
      · obtain hc | ⟨part, hpart, hc⟩ := ih h
        · exact .inl hc
        · exact .inr ⟨part, List.mem_cons_of_mem _ hpart, hc⟩

/-- The identifiers are read back between the commas. -/
theorem splitOn_idsText (ids : List Nat) :
    ((idsText ids).splitOn ',').filter (· ≠ []) = ids.map (Nat.toDigits 10) := by
  cases ids with
  | nil => rfl
  | cons id ids =>
    have hsep : ∀ text ∈ (id :: ids).map (Nat.toDigits 10), ',' ∉ text := by
      intro text htext
      obtain ⟨n, -, rfl⟩ := List.mem_map.mp htext
      exact not_mem_toDigits (by decide) n
    rw [idsText, List.splitOn_intercalate ',' hsep (by simp), List.filter_eq_self]
    intro text htext
    obtain ⟨n, -, rfl⟩ := List.mem_map.mp htext
    simp

theorem sort_inj {s t : Finset Nat} : s.sort (· ≤ ·) = t.sort (· ≤ ·) ↔ s = t := by
  refine ⟨fun h => ?_, fun h => by rw [h]⟩
  rw [← Finset.sort_toFinset s (· ≤ ·), h, Finset.sort_toFinset]

theorem sourceKind_text : Function.Injective SourceKind.text := by
  intro a b h
  cases a <;> cases b <;> first | rfl | exact absurd h (by decide)

theorem Identity.text_injective : Function.Injective Identity.text := by
  have hsep (identity : Identity) : ∀ part ∈ identity.parts, ':' ∉ part := by
    have hkind : ':' ∉ identity.sourceKind.text := by cases identity.sourceKind <;> decide
    have hids : ':' ∉ idsText (identity.snapshotIds.sort (· ≤ ·)) := by
      intro h
      obtain hc | ⟨part, hpart, hc⟩ := mem_intercalate h
      · exact absurd hc (by decide)
      · obtain ⟨n, -, rfl⟩ := List.mem_map.mp hpart
        exact not_mem_toDigits (by decide) n hc
    simp [Identity.parts, not_mem_toDigits, hkind, hids]
  intro i j h
  have hparts : i.parts = j.parts := by
    rw [← List.splitOn_intercalate ':' (hsep i) (List.cons_ne_nil _ _),
      ← List.splitOn_intercalate ':' (hsep j) (List.cons_ne_nil _ _)]
    exact congrArg (List.splitOn ':') h
  simp only [Identity.parts, List.cons.injEq, and_true] at hparts
  obtain ⟨horganization, hkind, hsource, hrepository, hids⟩ := hparts
  have hsorted := congrArg (fun text => (text.splitOn ',').filter (· ≠ [])) hids
  simp only [splitOn_idsText] at hsorted
  cases i
  cases j
  exact Identity.mk.injEq .. ▸ ⟨toDigits_injective horganization, sourceKind_text hkind,
    toDigits_injective hsource, toDigits_injective hrepository,
    sort_inj.mp (List.map_injective_iff.mpr toDigits_injective hsorted)⟩

/-! ## What a row holds -/

theorem pos_of_mem_pendingSnapshotIds {v : Json} {n : Nat} (h : n ∈ pendingSnapshotIds v) :
    0 < n := by
  cases v with
  | arr values =>
    obtain ⟨value, -, hvalue⟩ := List.mem_filterMap.mp (List.mem_toFinset.mp h)
    obtain ⟨i, -, hi⟩ := Option.bind_eq_some_iff.mp hvalue
    split at hi
    · cases hi
      omega
    · cases hi
  | _ => exact absurd h (Finset.notMem_empty n)

/-- The identifiers that a call writes are read as the set they are from. -/
theorem pendingSnapshotIds_written (v : Json) :
    pendingSnapshotIds (.arr ((normalizePendingSnapshotIds v).map fun n : Nat => .int n)) =
      pendingSnapshotIds v := by
  have hread : ∀ n ∈ normalizePendingSnapshotIds v, pendingSnapshotId (.int n) = some n := by
    intro n hn
    have hpos := pos_of_mem_pendingSnapshotIds ((Finset.mem_sort _).mp hn)
    simp [pendingSnapshotId, Json.pyInt, hpos]
  have hall : ((normalizePendingSnapshotIds v).map fun n : Nat => Json.int n).filterMap
      pendingSnapshotId = normalizePendingSnapshotIds v := by
    rw [List.filterMap_map]
    exact (List.filterMap_congr hread).trans List.filterMap_some
  rw [pendingSnapshotIds, hall, normalizePendingSnapshotIds, Finset.sort_toFinset]

theorem mem_fromKeys {values : List String} {value : String} :
    value ∈ fromKeys values ↔ value ∈ values := by
  induction values using List.reverseRecOn generalizing value with
  | nil => rfl
  | append_singleton values last ih =>
    rw [fromKeys, List.foldl_concat, ← fromKeys]
    split
    · rename_i h
      rw [ih, List.mem_append, List.mem_singleton]
      exact ⟨.inl, fun h' => h'.elim id fun he => he ▸ ih.mp h⟩
    · rw [List.mem_append, List.mem_append, ih]

/-- Every location is there with the same sorted keys, and nothing else is. -/
theorem distinctLocations_spec (locations : List Json) :
    (∀ l ∈ locations, ∃ l' ∈ distinctLocations locations, sortKeys l' = sortKeys l) ∧
      ∀ l ∈ distinctLocations locations, l ∈ locations := by
  induction locations using List.reverseRecOn with
  | nil => exact ⟨(fun l h => by cases h), fun l h => h⟩
  | append_singleton locations last ih =>
    obtain ⟨hall, honly⟩ := ih
    have hstep : ∀ l, l ∈ distinctLocations (locations ++ [last]) ↔
        l = last ∨ l ∈ distinctLocations locations ∧ sortKeys l ≠ sortKeys last := by
      intro l
      rw [distinctLocations, List.foldl_concat, ← distinctLocations]
      split
      · rename_i h
        obtain ⟨before, hbefore, hkey⟩ := List.any_eq_true.mp h
        exact Table.mem_put hbefore (of_decide_eq_true hkey)
      · rename_i h
        rw [List.mem_append, List.mem_singleton]
        refine ⟨fun hl => hl.symm.imp_right fun hl => ⟨hl, fun hkey => h ?_⟩,
          fun hl => hl.symm.imp_left And.left⟩
        exact List.any_eq_true.mpr ⟨l, hl, decide_eq_true hkey⟩
    refine ⟨fun l hl => ?_, fun l hl => ?_⟩
    · by_cases hkey : sortKeys l = sortKeys last
      · exact ⟨last, (hstep last).mpr (.inl rfl), hkey.symm⟩
      · rcases List.mem_append.mp hl with hl | hl
        · obtain ⟨l', hl', hsame⟩ := hall l hl
          exact ⟨l', (hstep l').mpr (.inr ⟨hl', hsame ▸ hkey⟩), hsame⟩
        · exact absurd (congrArg sortKeys (List.mem_singleton.mp hl)) hkey
    · rcases (hstep l).mp hl with rfl | ⟨hl, -⟩
      · exact List.mem_append_right _ (List.mem_singleton_self l)
      · exact List.mem_append_left _ (honly l hl)

/-- A row has the physical identifiers and locations of another one, and was retried as often. -/
structure Absorbs (row record : PurgePending) : Prop where
  kopia : ∀ id ∈ row.kopiaSnapshotIds, isBlank id = false → id ∈ record.kopiaSnapshotIds
  locations : ∀ l ∈ row.snapshotLocations, ∃ l' ∈ record.snapshotLocations,
    sortKeys l' = sortKeys l
  retry : row.retryCount ≤ record.retryCount

theorem Absorbs.refl (row : PurgePending) : Absorbs row row :=
  ⟨fun _ h _ => h, fun l h => ⟨l, h, rfl⟩, Nat.le_refl _⟩

theorem Absorbs.trans {row row' record : PurgePending} (h : Absorbs row row')
    (h' : Absorbs row' record) : Absorbs row record where
  kopia id hid hblank := h'.kopia id (h.kopia id hid hblank) hblank
  locations l hl := by
    obtain ⟨l', hl', hsame⟩ := h.locations l hl
    obtain ⟨l'', hl'', hsame'⟩ := h'.locations l' hl'
    exact ⟨l'', hl'', hsame'.trans hsame⟩
  retry := h.retry.trans h'.retry

/-! ## The rows of a call -/

variable (sha256) in
/-- Identifiers and keys belong to one row each, and a key is that of what its row is about. -/
structure Sound (rows : List PurgePending) : Prop where
  nodup : (rows.map PurgePending.id).Nodup
  unique : ∀ row ∈ rows, ∀ row' ∈ rows, ∀ key, row.idempotencyKey = some key →
    row'.idempotencyKey = some key → row = row'
  ownKey : ∀ row ∈ rows, ∀ key, row.idempotencyKey = some key →
    key = repositoryPurgeIdempotencyKey sha256 row.identity

section Rows

variable {row canonical : PurgePending} {rows legacy : List PurgePending} {call : Call}
  {keyed : Option PurgePending} {used : Set Identity}

theorem identity_eq_iff : row.identity = call.identity ↔
    row.organizationId = call.organizationId ∧ row.sourceKind = call.sourceKind ∧
      row.sourceRefId = call.sourceRefId ∧ row.repositoryId = call.repositoryId ∧
      (row.payload.map fun payload =>
        normalizePendingSnapshotIds payload.sourceSnapshotIds).getD [] =
          normalizePendingSnapshotIds (.arr call.snapshotIds) := by
  simp only [PurgePending.identity, Call.identity, Identity.mk.injEq]
  cases row.payload with
  | none =>
    have hempty : (∅ : Finset Nat).sort (· ≤ ·) = [] := Finset.sort_empty _
    simp only [Option.map_none, Option.getD_none, normalizePendingSnapshotIds, ← hempty, sort_inj]
  | some payload =>
    simp only [Option.map_some, Option.getD_some, normalizePendingSnapshotIds, sort_inj]

theorem mem_canonicalRow : row ∈ (canonicalRow keyed legacy).1.toList ++
      (canonicalRow keyed legacy).2 ↔ keyed = some row ∨ row ∈ legacy := by
  cases keyed <;> cases legacy <;> simp [canonicalRow, eq_comm]

theorem canonicalRow_none (h : (canonicalRow keyed legacy).1 = none) :
    (canonicalRow keyed legacy).2 = [] := by
  cases keyed with
  | none =>
    cases legacy with
    | nil => rfl
    | cons row rest => cases h
  | some row => cases h

/-- The row that is written is not among those that are taken in. -/
theorem not_mem_canonicalRow (hlegacy : legacy.Nodup) (hkeyed : ∀ row ∈ keyed, row ∉ legacy)
    (h : (canonicalRow keyed legacy).1 = some canonical) :
    canonical ∉ (canonicalRow keyed legacy).2 := by
  cases keyed with
  | none =>
    cases legacy with
    | nil => cases h
    | cons row rest =>
      cases h
      exact (List.nodup_cons.mp hlegacy).1
  | some row =>
    cases h
    exact hkeyed _ rfl

theorem mem_found (h : Sound sha256 rows)
    (hfree : Set.InjOn (repositoryPurgeIdempotencyKey sha256) used)
    (hused : ∀ row ∈ rows, row.identity ∈ used) (hcall : call.identity ∈ used) :
    row ∈ (call.found sha256 rows).1.toList ++ (call.found sha256 rows).2 ↔
      row ∈ rows ∧ row.identity = call.identity := by
  rw [Call.found, mem_canonicalRow]
  constructor
  · rintro (hrow | hrow)
    · obtain ⟨hmem, hkey⟩ := Table.mem_of_find hrow
      exact ⟨hmem, (hfree hcall (hused row hmem) (h.ownKey row hmem _ hkey)).symm⟩
    · obtain ⟨hrow, hids⟩ := List.mem_filter.mp hrow
      obtain ⟨hmem, hcolumns⟩ := List.mem_filter.mp hrow
      obtain ⟨h1, h2, h3, h4, -⟩ := of_decide_eq_true hcolumns
      exact ⟨hmem, identity_eq_iff.mpr ⟨h1, h2, h3, h4, of_decide_eq_true hids⟩⟩
  · rintro ⟨hmem, hidentity⟩
    cases hkey : row.idempotencyKey with
    | none =>
      obtain ⟨h1, h2, h3, h4, hids⟩ := identity_eq_iff.mp hidentity
      exact .inr (List.mem_filter.mpr ⟨List.mem_filter.mpr
        ⟨hmem, decide_eq_true ⟨h1, h2, h3, h4, hkey⟩⟩, decide_eq_true hids⟩)
    | some key =>
      have hown := h.ownKey row hmem key hkey
      rw [hidentity] at hown
      subst hown
      obtain ⟨row', hrow'⟩ := @Table.find_isSome _ _ PurgePending.idempotencyKey _ _ _ hmem
      rw [hkey] at hrow'
      obtain ⟨hmem', hkey'⟩ := Table.mem_of_find hrow'
      rw [h.unique row hmem row' hmem' _ hkey hkey']
      exact .inl hrow'

theorem not_mem_found (h : Sound sha256 rows)
    (hcanonical : (call.found sha256 rows).1 = some canonical) :
    canonical ∉ (call.found sha256 rows).2 := by
  refine not_mem_canonicalRow ?_ (fun row hrow hlegacy => ?_) hcanonical
  · exact (h.nodup.of_map _).filter _ |>.filter _
  · obtain ⟨-, -, -, -, hnone⟩ :=
      of_decide_eq_true (List.mem_filter.mp (List.mem_filter.mp hlegacy).1).2
    rw [(Table.mem_of_find hrow).2] at hnone
    cases hnone

/-! ## One call -/

/-- A row has the physical identifiers and the locations of a call. -/
structure Records (call : Call) (record : PurgePending) : Prop where
  kopia : ∀ id ∈ call.kopiaSnapshotIds, isBlank id = false → id ∈ record.kopiaSnapshotIds
  locations : ∀ l ∈ call.snapshotLocations, ∃ l' ∈ record.snapshotLocations,
    sortKeys l' = sortKeys l

variable {record : PurgePending} {found : List PurgePending}

theorem ids_written (call : Call) (found : List PurgePending) :
    normalizePendingSnapshotIds (call.payload found).sourceSnapshotIds =
      normalizePendingSnapshotIds (.arr call.snapshotIds) :=
  sort_inj.mpr (pendingSnapshotIds_written _)

section

variable (hpayload : record.payload = some (call.payload found))

include hpayload

theorem kopia_written {id : String}
    (hid : (∃ row ∈ found, id ∈ row.kopiaSnapshotIds) ∨ id ∈ call.kopiaSnapshotIds)
    (hblank : isBlank id = false) : id ∈ record.kopiaSnapshotIds := by
  rw [PurgePending.kopiaSnapshotIds, hpayload]
  simpa [Call.payload, mem_fromKeys, hblank] using hid

theorem location_written {l : Json}
    (hl : l ∈ found.flatMap (·.snapshotLocations) ++ call.snapshotLocations) :
    ∃ l' ∈ record.snapshotLocations, sortKeys l' = sortKeys l := by
  obtain ⟨l', hl', hsame⟩ := (distinctLocations_spec _).1 l hl
  refine ⟨l', List.mem_filter.mpr ⟨?_, ?_⟩, hsame⟩
  · rw [hpayload]
    exact hl'
  · rcases List.mem_append.mp ((distinctLocations_spec _).2 l' hl') with h | h
    · obtain ⟨row, -, hrow⟩ := List.mem_flatMap.mp h
      exact (List.mem_filter.mp hrow).2
    · obtain ⟨directory, -, rfl⟩ := List.mem_map.mp h
      rfl

theorem records_written : Records call record where
  kopia _ hid := kopia_written hpayload (.inr hid)
  locations _ hl := location_written hpayload (List.mem_append_right _ hl)

theorem absorbs_written
    (hrow : row ∈ found) (hretry : row.retryCount ≤ record.retryCount) : Absorbs row record where
  kopia _ hid := kopia_written hpayload (.inl ⟨row, hrow, hid⟩)
  locations _ hl :=
    location_written hpayload (List.mem_append_left _ (List.mem_flatMap.mpr ⟨row, hrow, hl⟩))
  retry := hretry

end

variable (sha256) in
/-- What a call leaves: its record in the place of all rows that are about the same. -/
structure Replaces (call : Call) (rows : List PurgePending) (record : PurgePending)
    (rows' : List PurgePending) : Prop where
  nodup : (rows'.map PurgePending.id).Nodup
  identity : record.identity = call.identity
  key : record.idempotencyKey = some (repositoryPurgeIdempotencyKey sha256 call.identity)
  mem_iff : ∀ row, row ∈ rows' ↔ row = record ∨ row ∈ rows ∧ row.identity ≠ call.identity
  records : Records call record
  absorbs : ∀ row ∈ rows, row.identity = call.identity → Absorbs row record

theorem enqueue_replaces (h : Sound sha256 rows)
    (hfree : Set.InjOn (repositoryPurgeIdempotencyKey sha256) used)
    (hused : ∀ row ∈ rows, row.identity ∈ used) (hcall : call.identity ∈ used) :
    ∃ record, Replaces sha256 call rows record
      (enqueueRepositoryPurgePending sha256 call rows).1 := by
  have hfound (row : PurgePending) : row ∈ (_ ++ _ : List _) ↔ _ := mem_found h hfree hused hcall
  rw [enqueueRepositoryPurgePending]
  cases hcanonical : (call.found sha256 rows).1 with
  | none =>
    have hrest : (call.found sha256 rows).2 = [] := canonicalRow_none hcanonical
    simp only [hcanonical, hrest, Option.toList_none, List.append_nil, List.not_mem_nil,
      false_iff, not_and] at hfound ⊢
    refine ⟨call.created (Table.fresh (rows.map PurgePending.id)) _ (call.payload []),
      ?_, ?_, rfl, fun row => ?_, records_written rfl,
      fun row hrow hrow' => absurd hrow' (hfound row hrow)⟩
    · rw [List.map_append, List.map_singleton, List.nodup_append]
      refine ⟨h.nodup, List.nodup_singleton _, fun id hid id' hid' => ?_⟩
      rw [List.mem_singleton.mp hid']
      exact Nat.ne_of_lt (Table.lt_fresh hid)
    · exact identity_eq_iff.mpr ⟨rfl, rfl, rfl, rfl, ids_written call _⟩
    · rw [List.mem_append, List.mem_singleton]
      exact ⟨fun hrow => hrow.symm.imp_right fun hrow => ⟨hrow, hfound row hrow⟩,
        fun hrow => hrow.symm.imp_left And.left⟩
  | some canonical =>
    simp only [hcanonical, Option.toList_some, List.singleton_append, List.mem_cons] at hfound ⊢
    obtain ⟨hmem, hidentity⟩ := (hfound canonical).mp (.inl rfl)
    have hinj := Table.Keyed.of_nodup h.nodup
    have hnot : canonical.id ∉ (call.found sha256 rows).2.map PurgePending.id := by
      intro hid
      obtain ⟨row, hrow, hrow'⟩ := List.mem_map.mp hid
      have hsame := hinj row ((hfound row).mp (.inr hrow)).1 canonical hmem hrow'
      exact not_mem_found h hcanonical (hsame ▸ hrow)
    refine ⟨canonical.saved _ (call.payload (canonical :: (call.found sha256 rows).2))
      (call.found sha256 rows).2, ?_, ?_, rfl, fun row => ?_, records_written rfl,
      fun row hrow hrow' => ?_⟩
    · refine List.Nodup.sublist (List.filter_sublist.map _) ?_
      rw [Table.map_put]
      exact h.nodup
    · obtain ⟨h1, h2, h3, h4, -⟩ := identity_eq_iff.mp hidentity
      exact identity_eq_iff.mpr ⟨h1, h2, h3, h4, ids_written call _⟩
    · generalize hsaved : canonical.saved _ _ _ = record
      have hid : canonical.id = record.id := hsaved ▸ rfl
      rw [List.mem_filter, Table.mem_put hmem hid, ← hid, decide_eq_true_eq]
      constructor
      · rintro ⟨rfl | ⟨hrow, hne⟩, hrest⟩
        · exact .inl rfl
        · refine .inr ⟨hrow, fun hrow' => ?_⟩
          rcases (hfound row).mpr ⟨hrow, hrow'⟩ with rfl | hrow'
          · exact hne rfl
          · exact hrest (List.mem_map_of_mem hrow')
      · rintro (rfl | ⟨hrow, hne⟩)
        · exact ⟨.inl rfl, hid ▸ hnot⟩
        · refine ⟨.inr ⟨hrow, fun hid => hne ?_⟩, fun hid => ?_⟩
          · rw [hinj row hrow canonical hmem hid, hidentity]
          · obtain ⟨row', hrow', hid'⟩ := List.mem_map.mp hid
            obtain ⟨hmem', hidentity'⟩ := (hfound row').mp (.inr hrow')
            exact hne (hinj row' hmem' row hrow hid' ▸ hidentity')
    · have hrow'' := (hfound row).mpr ⟨hrow, hrow'⟩
      refine absorbs_written rfl (List.mem_cons.mpr hrow'') ?_
      exact List.le_max_of_le' 0 (List.mem_map_of_mem (List.mem_cons.mpr hrow'')) (Nat.le_refl _)

/-! ## Any calls -/

theorem Replaces.sound {rows' : List PurgePending} (h : Sound sha256 rows)
    (hfree : Set.InjOn (repositoryPurgeIdempotencyKey sha256) used)
    (hused : ∀ row ∈ rows, row.identity ∈ used) (hcall : call.identity ∈ used)
    (hr : Replaces sha256 call rows record rows') : Sound sha256 rows' := by
  have hrecord : ∀ row ∈ rows, row.idempotencyKey = record.idempotencyKey →
      row.identity = call.identity := by
    intro row hrow hkey
    exact hfree (hused row hrow) hcall (h.ownKey row hrow _ (hkey.trans hr.key)).symm
  refine ⟨hr.nodup, fun row hrow row' hrow' key hkey hkey' => ?_, fun row hrow key hkey => ?_⟩
  · rcases (hr.mem_iff row).mp hrow with rfl | ⟨hmem, hne⟩
    · rcases (hr.mem_iff row').mp hrow' with rfl | ⟨hmem', hne'⟩
      · rfl
      · exact absurd (hrecord row' hmem' (hkey'.trans hkey.symm)) hne'
    · rcases (hr.mem_iff row').mp hrow' with rfl | ⟨hmem', -⟩
      · exact absurd (hrecord row hmem (hkey.trans hkey'.symm)) hne
      · exact h.unique row hmem row' hmem' key hkey hkey'
  · rcases (hr.mem_iff row).mp hrow with rfl | ⟨hmem, -⟩
    · rw [hr.identity]
      exact Option.some.inj (hkey.symm.trans hr.key)
    · exact h.ownKey row hmem key hkey

theorem runCalls_append (earlier later : List Call) : runCalls sha256 (earlier ++ later) rows =
      runCalls sha256 later (runCalls sha256 earlier rows) :=
  List.foldl_append

/-- Any calls leave sound rows, among them what has become of every row there was. -/
theorem run_keeps (hfree : Set.InjOn (repositoryPurgeIdempotencyKey sha256) used)
    {calls : List Call} (hcalls : ∀ call ∈ calls, call.identity ∈ used) (h : Sound sha256 rows)
    (hused : ∀ row ∈ rows, row.identity ∈ used) : Sound sha256 (runCalls sha256 calls rows) ∧
      (∀ row ∈ runCalls sha256 calls rows, row.identity ∈ used) ∧
      ∀ row ∈ rows, ∃ row' ∈ runCalls sha256 calls rows, row'.identity = row.identity ∧
      Absorbs row row' := by
  induction calls generalizing rows with
  | nil => exact ⟨h, hused, fun row hrow => ⟨row, hrow, rfl, .refl row⟩⟩
  | cons call calls ih =>
    have hcall := hcalls call List.mem_cons_self
    obtain ⟨record, hr⟩ := enqueue_replaces h hfree hused hcall
    have hused' : ∀ row ∈ (enqueueRepositoryPurgePending sha256 call rows).1,
        row.identity ∈ used := by
      intro row hrow
      rcases (hr.mem_iff row).mp hrow with rfl | ⟨hmem, -⟩
      · rwa [hr.identity]
      · exact hused row hmem
    obtain ⟨hsound, hin, hkept⟩ := ih (fun c hc => hcalls c (List.mem_cons_of_mem _ hc))
      (hr.sound h hfree hused hcall) hused'
    refine ⟨hsound, hin, fun row hrow => ?_⟩
    by_cases hidentity : row.identity = call.identity
    · obtain ⟨row', hrow', hsame, habsorbs⟩ := hkept record ((hr.mem_iff record).mpr (.inl rfl))
      exact ⟨row', hrow', hsame.trans (hr.identity.trans hidentity.symm),
        (hr.absorbs row hrow hidentity).trans habsorbs⟩
    · exact hkept row ((hr.mem_iff row).mpr (.inr ⟨hrow, hidentity⟩))

end Rows

/-- After any calls there is one record of what the last one is about. It has the physical
identifiers and the locations of that call, and those of every earlier record, and the records
of other identities are those before the call. Only hashes of texts that occur must differ. -/
theorem ledger_loses_nothing (sha256 : List Char → List Char) (rows : List PurgePending)
    (h : Sound sha256 rows) (earlier later : List Call) (call : Call)
    (hfree : Set.InjOn sha256 {text | ∃ identity ∈ rows.map PurgePending.identity ++
      (earlier ++ later ++ [call]).map Call.identity, identity.text = text}) :
    ∃ record,
      ((runCalls sha256 (earlier ++ later ++ [call]) rows).filter fun row =>
        row.identity = call.identity) = [record] ∧
      Records call record ∧
      (∀ row ∈ runCalls sha256 earlier rows, row.identity = call.identity →
        Absorbs row record) ∧
      ∀ row, row.identity ≠ call.identity →
        (row ∈ runCalls sha256 (earlier ++ later ++ [call]) rows ↔
          row ∈ runCalls sha256 (earlier ++ later) rows) := by
  have hkeys : Set.InjOn (repositoryPurgeIdempotencyKey sha256) {identity | identity ∈
      rows.map PurgePending.identity ++ (earlier ++ later ++ [call]).map Call.identity} :=
    fun i hi j hj hij => Identity.text_injective (hfree ⟨i, hi, rfl⟩ ⟨j, hj, rfl⟩ hij)
  have hcalls : ∀ c ∈ earlier ++ later ++ [call], c.identity ∈
      rows.map PurgePending.identity ++ (earlier ++ later ++ [call]).map Call.identity :=
    fun c hc => List.mem_append_right _ (List.mem_map_of_mem hc)
  obtain ⟨hsound, hused, -⟩ := run_keeps hkeys
    (fun c hc => hcalls c (List.mem_append_left _ (List.mem_append_left _ hc))) h
    fun row hrow => List.mem_append_left _ (List.mem_map_of_mem hrow)
  obtain ⟨hsound', hused', hkept⟩ := run_keeps hkeys
    (fun c hc => hcalls c (List.mem_append_left _ (List.mem_append_right earlier hc))) hsound hused
  rw [← runCalls_append] at hsound' hused' hkept
  obtain ⟨record, hr⟩ := enqueue_replaces hsound' hkeys hused'
    (hcalls call (List.mem_append_right _ (List.mem_singleton_self call)))
  have hlast : (enqueueRepositoryPurgePending sha256 call
      (runCalls sha256 (earlier ++ later) rows)).1 =
      runCalls sha256 (earlier ++ later ++ [call]) rows :=
    (runCalls_append (earlier ++ later) [call]).symm
  rw [hlast] at hr
  refine ⟨record, ?_, hr.records, fun row hrow hidentity => ?_, fun row hne => ?_⟩
  · refine List.perm_singleton.mp ((List.perm_ext_iff_of_nodup
      ((hr.nodup.of_map _).filter _) (List.nodup_singleton _)).mpr fun row => ?_)
    rw [List.mem_filter, hr.mem_iff, decide_eq_true_eq, List.mem_singleton]
    constructor
    · rintro ⟨rfl | ⟨-, hne⟩, hidentity⟩
      · rfl
      · exact absurd hidentity hne
    · rintro rfl
      exact ⟨.inl rfl, hr.identity⟩
  · obtain ⟨row', hrow', hsame, habsorbs⟩ := hkept row hrow
    exact habsorbs.trans (hr.absorbs row' hrow' (hsame.trans hidentity))
  · rw [hr.mem_iff]
    refine ⟨fun hrow => hrow.elim (fun hrow => absurd (hrow ▸ hr.identity) hne) And.left,
      fun hrow => .inr ⟨hrow, hne⟩⟩

/-- A row of an earlier version, for snapshot 5. -/
def legacyRow : PurgePending where
  id := 1
  organizationId := 1
  sourceKind := .nas
  sourceRefId := 7
  repositoryId := 3
  idempotencyKey := none
  payload := some { sourceSnapshotIds := .arr [.int 5], kopiaSnapshotIds := ["k1"] }

/-- A call for the same snapshot, which is given twice. -/
def repeatedCall : Call where
  organizationId := 1
  sourceKind := .nas
  sourceRefId := 7
  repositoryId := 3
  snapshotIds := [.int 5, .str "5"]
  kopiaSnapshotIds := ["k2"]
  error := ""
  unregisterTask := none
  directories := []

/-- The hash of the text of their identity. -/
def exampleHash (text : List Char) : List Char :=
  if text = "1:nas:7:3:5".toList then
    "c66259fd5333c4ad92ef347d02cad06021cc332008c5429f6222a7421dace458".toList
  else []

theorem ledger_loses_nothing_legacy : ∃ record,
    ((runCalls exampleHash [repeatedCall] [legacyRow]).filter fun row =>
      row.identity = repeatedCall.identity) = [record] ∧
    "k1" ∈ record.kopiaSnapshotIds ∧ "k2" ∈ record.kopiaSnapshotIds := by
  have hsame : legacyRow.identity = repeatedCall.identity := by decide
  have hsound : Sound exampleHash [legacyRow] :=
    ⟨by simp, by simp [legacyRow], by simp [legacyRow]⟩
  obtain ⟨record, hone, hrecords, habsorbs, -⟩ :=
    ledger_loses_nothing exampleHash [legacyRow] hsound [] [] repeatedCall (by
      rintro _ ⟨i, hi, rfl⟩ _ ⟨j, hj, rfl⟩ -
      simp only [List.map_cons, List.map_nil, List.nil_append, List.singleton_append, hsame,
        List.mem_cons, List.not_mem_nil, or_false, or_self] at hi hj
      rw [hi, hj])
  exact ⟨record, hone,
    (habsorbs legacyRow (List.mem_singleton_self _) hsame).kopia "k1" List.mem_cons_self (by decide),
    hrecords.kopia "k2" List.mem_cons_self (by decide)⟩

end HyperFileLens.Cleanup.PurgeLedger
