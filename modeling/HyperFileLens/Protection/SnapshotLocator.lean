import HyperFileLens.Library.Transition
import HyperFileLens.Protection.SourceSnapshot

/-!
# Locators of physical snapshots

`snapshot_repository_locator.py`. A *locator* says in which part of a repository a physical
snapshot lies and which node gives access to it. It is stored with the directory of the
snapshot as a JSON object.

*Building.*  A locator is built from the binding that the repository has at that moment and
from the node that writes.

*Reading.*  `storedLocator` accepts what `payload` wrote and nothing that does not belong to
the repository. `{}` is the value of a directory without a locator.

*Legacy directories.*  What the fallback looks up in other tables is an argument,
`LegacyLookups`.
-/

namespace HyperFileLens.Protection

/-! ## Repositories -/

inductive RepositoryType where
  | s3
  | nas
  | proxyFs
deriving DecidableEq, Repr

def RepositoryType.value : RepositoryType → String
  | .s3 => "s3"
  | .nas => "nas"
  | .proxyFs => "proxy_fs"

inductive BindNodeType where
  | proxy
deriving DecidableEq, Repr

/-- The columns of `Repository` that a locator is built from. -/
structure Repository where
  id : Nat
  repoType : RepositoryType
  bindNodeType : Option BindNodeType := none
  bindNodeId : Option Int := none
deriving DecidableEq

def Repository.rebind (repository : Repository) (bindNodeType : Option BindNodeType)
    (bindNodeId : Option Int) : Repository :=
  { repository with bindNodeType, bindNodeId }

/-- The field and the text of a `ValidationError`. -/
structure LocatorError where
  field : String
  message : String
deriving DecidableEq

/-! ## Building a locator -/

def nasAgentRepositorySubdir (nodeId : Nat) : String := "hp-repos/agent-" ++ toString nodeId

def nasProxyRepositorySubdir (repository : Repository) : String :=
  "hp-repos/storage-" ++ toString repository.id

/-- `_positive_int` of a column. -/
def positiveColumn (value : Option Int) : Option Nat :=
  (value.filter fun n => 0 < n).map Int.toNat

def positiveInt (value : Json) : Option Nat :=
  positiveColumn (if value.truthy then value.pyInt else some 0)

def buildSnapshotRepositoryLocator (repository : Repository) (writerNodeId : Option Int) :
    Except LocatorError SnapshotRepositoryLocator :=
  let writer := positiveColumn writerNodeId
  let locator : SnapshotRepositoryLocator :=
    { repositoryId := repository.id, repositoryType := repository.repoType.value,
      writerNodeId := writer }
  match repository.repoType with
  | .s3 => .ok locator
  | .nas =>
    if repository.bindNodeType = some .proxy then
      .ok { locator with
        repositorySubdir := nasProxyRepositorySubdir repository
        accessNodeId := positiveColumn repository.bindNodeId }
    else
      match writer with
      | none => .error ⟨"repository_id",
          "Direct NAS snapshot location requires its backup execution node."⟩
      | some nodeId => .ok { locator with repositorySubdir := nasAgentRepositorySubdir nodeId }
  | .proxyFs =>
    match positiveColumn repository.bindNodeId with
    | none => .error ⟨"repository_id",
        "Proxy filesystem snapshot location requires its bound proxy node."⟩
    | some nodeId => .ok { locator with accessNodeId := some nodeId }

/-! ## The stored object -/

/-- A column of `asdict`. -/
def numberOrNull : Option Nat → Json
  | none => .null
  | some n => .int n

def SnapshotRepositoryLocator.payload (l : SnapshotRepositoryLocator) : Json :=
  .obj [("version", .int l.version), ("repository_id", .int l.repositoryId),
    ("repository_type", .str l.repositoryType), ("repository_subdir", .str l.repositorySubdir),
    ("writer_node_id", numberOrNull l.writerNodeId),
    ("access_node_id", numberOrNull l.accessNodeId)]

/-- `int(value or 0)`. -/
def intOrZero (value : Json) : Option Int := if value.truthy then value.pyInt else some 0

def locatorError {α : Type} (message : String) : Except LocatorError α :=
  .error ⟨"repository_locator", message⟩

/-- The checks of `_stored_locator` on a decoded object. -/
def checkLocator (repository : Repository) (version repositoryId : Int)
    (l : SnapshotRepositoryLocator) : Except LocatorError SnapshotRepositoryLocator :=
  if version ≠ 1 then locatorError "Snapshot repository locator version is not supported."
  else if repositoryId ≠ repository.id ∨ l.repositoryType ≠ repository.repoType.value then
    locatorError "Snapshot repository locator does not match its repository."
  else if repository.repoType = .nas ∧ l.repositorySubdir = "" then
    locatorError "NAS snapshot repository locator has no subdirectory."
  else if repository.repoType = .proxyFs ∧ l.accessNodeId = none then
    locatorError "Proxy filesystem snapshot locator has no access node."
  else .ok l

def storedLocator (repository : Repository) :
    Json → Except LocatorError (Option SnapshotRepositoryLocator)
  | .obj [] => .ok none
  | .obj raw =>
    match intOrZero (Dict.get raw "version"), intOrZero (Dict.get raw "repository_id") with
    | some version, some repositoryId =>
      (checkLocator repository version repositoryId
        { version := version.toNat, repositoryId := repositoryId.toNat
          repositoryType := Text.strip (Dict.get raw "repository_type").strOr
          repositorySubdir := Text.strip (Dict.get raw "repository_subdir").strOr
          writerNodeId := positiveInt (Dict.get raw "writer_node_id")
          accessNodeId := positiveInt (Dict.get raw "access_node_id") }).map some
    | _, _ => locatorError "Snapshot repository locator is invalid."
  | _ => locatorError "Snapshot repository locator must be an object."

/-- `ensure_snapshot_repository_locator`: the object that the row holds afterwards. -/
def ensureSnapshotRepositoryLocator (repository : Repository) (writerNodeId : Option Int)
    (hasSnapshot : Bool) (stored : Json) : Except LocatorError Json := do
  let locator ← buildSnapshotRepositoryLocator repository writerNodeId
  match ← storedLocator repository stored with
  | some existing =>
    if existing = locator ∨ hasSnapshot = true then .ok stored else .ok locator.payload
  | none => .ok locator.payload

/-! ## Legacy directories -/

/-- What the fallback of a directory finds in other tables. -/
structure LegacyLookups where
  taskNodeId : Option Int := none
  sourceType : String := "agent"
  sourceRefId : Option Int := none
  sourceBoundNodeId : Option Int := none
  /-- The successful `repository.server.start` tasks of the backup, the newest first. -/
  serverTasks : List (Int × Json) := []
  /-- The node of the directory's `backup.run` task, if it is a proxy. -/
  backupProxyNodeId : Option Int := none
deriving DecidableEq

def legacyWriterNodeId (lookups : LegacyLookups) : Option Int :=
  match lookups.taskNodeId.filter fun n => n ≠ 0 with
  | some nodeId => some nodeId
  | none =>
    if lookups.sourceType = "agent" then lookups.sourceRefId
    else if lookups.sourceType = "nas" then lookups.sourceBoundNodeId
    else none

/-- `_positive_int(payload["repository"]["id"])` of a task. -/
def taskRepositoryId (payload : Json) : Option Nat :=
  positiveInt (Dict.get (Dict.get payload.fields "repository").fields "id")

/-- The loop of `_legacy_proxy_fs_access_node_id`. -/
def legacyServerNode (repositoryId : Nat) (backupProxyNodeId : Option Int) :
    Option Nat → List (Int × Json) → Option Nat
  | legacy, [] => legacy.or (positiveColumn backupProxyNodeId)
  | legacy, (nodeId, payload) :: tasks =>
    match taskRepositoryId payload with
    | some id =>
      if id = repositoryId then positiveColumn (some nodeId)
      else legacyServerNode repositoryId backupProxyNodeId legacy tasks
    | none =>
      legacyServerNode repositoryId backupProxyNodeId
        (legacy.or (positiveColumn (some nodeId))) tasks

section

variable (repository : Repository)

def legacyProxyFsAccessNodeId (lookups : LegacyLookups) :
    Option Nat :=
  legacyServerNode repository.id lookups.backupProxyNodeId none lookups.serverTasks

def buildLegacySnapshotRepositoryLocator (lookups : LegacyLookups) :
    Except LocatorError SnapshotRepositoryLocator := do
  let locator ← buildSnapshotRepositoryLocator repository (legacyWriterNodeId lookups)
  if repository.repoType ≠ .proxyFs then .ok locator
  else
    match legacyProxyFsAccessNodeId repository lookups with
    | some nodeId => .ok { locator with accessNodeId := some nodeId }
    | none => .ok locator

/-! ## Locators of a repository -/

/-- What every locator of the repository satisfies, however the repository is bound. -/
structure LocatorOf (repository : Repository) (l : SnapshotRepositoryLocator) : Prop where
  version : l.version = 1
  repositoryId : l.repositoryId = repository.id
  repositoryType : l.repositoryType = repository.repoType.value
  subdir : Text.strip l.repositorySubdir = l.repositorySubdir
  writer : ∀ n ∈ l.writerNodeId, 0 < n
  access : ∀ n ∈ l.accessNodeId, 0 < n
  shard : repository.repoType = .nas → l.repositorySubdir ≠ ""
  proxy : repository.repoType = .proxyFs → l.accessNodeId ≠ none

end

variable {repository : Repository} {l : SnapshotRepositoryLocator} {writerNodeId : Option Int}
    {stored : Json}

theorem LocatorOf.rebind (h : LocatorOf repository l) (t : Option BindNodeType) (n : Option Int) :
    LocatorOf (repository.rebind t n) l :=
  ⟨h.version, h.repositoryId, h.repositoryType, h.subdir, h.writer, h.access, h.shard, h.proxy⟩

theorem pos_of_positiveColumn {value : Option Int} {n : Nat} (h : positiveColumn value = some n) :
    0 < n := by
  obtain ⟨m, hm, rfl⟩ := Option.map_eq_some_iff.mp h
  have hpos := (Option.filter_eq_some_iff.mp hm).2
  rw [decide_eq_true_eq] at hpos
  omega

theorem strip_nasAgentRepositorySubdir (nodeId : Nat) :
    Text.strip (nasAgentRepositorySubdir nodeId) = nasAgentRepositorySubdir nodeId := by
  refine Text.strip_before_number nodeId (by decide) fun c hc => ?_
  obtain rfl : 'h' = c := by simpa using hc
  decide

theorem strip_nasProxyRepositorySubdir (repository : Repository) :
    Text.strip (nasProxyRepositorySubdir repository) = nasProxyRepositorySubdir repository := by
  refine Text.strip_before_number repository.id (by decide) fun c hc => ?_
  obtain rfl : 'h' = c := by simpa using hc
  decide

theorem nasAgentRepositorySubdir_ne (nodeId : Nat) : nasAgentRepositorySubdir nodeId ≠ "" := by
  intro h
  have := congrArg String.toList h
  simp [nasAgentRepositorySubdir, String.toList_append] at this

theorem nasProxyRepositorySubdir_ne (repository : Repository) :
    nasProxyRepositorySubdir repository ≠ "" := by
  intro h
  have := congrArg String.toList h
  simp [nasProxyRepositorySubdir, String.toList_append] at this

theorem locatorOf_build (h : buildSnapshotRepositoryLocator repository writerNodeId = .ok l) :
    LocatorOf repository l := by
  rw [buildSnapshotRepositoryLocator] at h
  have hempty : Text.strip "" = "" := by decide
  have hwriter : ∀ n ∈ positiveColumn writerNodeId, 0 < n :=
    fun n hn => pos_of_positiveColumn hn
  cases htype : repository.repoType with
  | s3 =>
    simp only [htype] at h
    cases h
    exact ⟨rfl, rfl, by rw [htype], hempty, hwriter, by simp, by simp [htype],
      by simp [htype]⟩
  | nas =>
    simp only [htype] at h
    split at h
    · cases h
      exact ⟨rfl, rfl, by rw [htype], strip_nasProxyRepositorySubdir repository, hwriter,
        fun n hn => pos_of_positiveColumn hn, fun _ => nasProxyRepositorySubdir_ne repository,
        by simp [htype]⟩
    · cases hnode : positiveColumn writerNodeId with
      | none => simp [hnode] at h
      | some nodeId =>
        simp only [hnode] at h
        cases h
        rw [hnode] at hwriter
        exact ⟨rfl, rfl, by rw [htype], strip_nasAgentRepositorySubdir nodeId,
          hwriter, by simp, fun _ => nasAgentRepositorySubdir_ne nodeId, by simp [htype]⟩
  | proxyFs =>
    simp only [htype] at h
    cases hnode : positiveColumn repository.bindNodeId with
    | none => simp [hnode] at h
    | some nodeId =>
      simp only [hnode] at h
      cases h
      refine ⟨rfl, rfl, by rw [htype], hempty, hwriter, ?_, by simp [htype], by simp⟩
      intro n hn
      exact pos_of_positiveColumn (hnode.trans hn)

theorem pos_of_legacyServerNode {repositoryId n : Nat} {backup : Option Int}
    {legacy : Option Nat} {tasks : List (Int × Json)} (hlegacy : ∀ n ∈ legacy, 0 < n)
    (h : legacyServerNode repositoryId backup legacy tasks = some n) : 0 < n := by
  have hor : ∀ (value : Option Int), ∀ n ∈ legacy.or (positiveColumn value), 0 < n := by
    intro value n hn
    cases legacy with
    | none => exact pos_of_positiveColumn (by simpa using hn)
    | some m => exact hlegacy n (by simpa using hn)
  induction tasks generalizing legacy with
  | nil => exact hor backup n h
  | cons task tasks ih =>
    obtain ⟨nodeId, payload⟩ := task
    rw [legacyServerNode] at h
    cases hid : taskRepositoryId payload with
    | none =>
      rw [hid] at h
      have hnext := hor (some nodeId)
      refine ih hnext h fun value m hm => ?_
      cases hboth : legacy.or (positiveColumn (some nodeId)) with
      | none =>
        rw [hboth] at hm
        exact pos_of_positiveColumn (by simpa using hm)
      | some k =>
        rw [hboth] at hm
        obtain rfl : k = m := by simpa using hm
        exact hnext k hboth
    | some id =>
      rw [hid] at h
      dsimp only at h
      split at h
      · exact pos_of_positiveColumn h
      · exact ih hlegacy h hor

theorem locatorOf_buildLegacy {lookups : LegacyLookups}
    (h : buildLegacySnapshotRepositoryLocator repository lookups = .ok l) :
    LocatorOf repository l := by
  rw [buildLegacySnapshotRepositoryLocator] at h
  obtain ⟨built, hbuild, h⟩ := Transition.bind_eq_ok.mp h
  have hbuilt := locatorOf_build hbuild
  split at h
  · cases h
    exact hbuilt
  · cases hnode : legacyProxyFsAccessNodeId repository lookups with
    | none =>
      rw [hnode] at h
      cases h
      exact hbuilt
    | some nodeId =>
      rw [hnode] at h
      cases h
      refine ⟨hbuilt.version, hbuilt.repositoryId, hbuilt.repositoryType, hbuilt.subdir,
        hbuilt.writer, ?_, hbuilt.shard, by simp⟩
      intro n hn
      obtain rfl : nodeId = n := by simpa using hn
      exact pos_of_legacyServerNode (by simp) hnode

/-! ## The round trip -/

theorem positiveInt_numberOrNull {value : Option Nat} (h : ∀ n ∈ value, 0 < n) :
    positiveInt (numberOrNull value) = value := by
  cases value with
  | none => rfl
  | some n =>
    have hpos := h n rfl
    have htruthy : (numberOrNull (some n)).truthy = true := by
      simp only [numberOrNull, Json.truthy, decide_eq_true_eq]
      omega
    rw [positiveInt, if_pos htruthy]
    show positiveColumn (some (n : Int)) = some n
    rw [positiveColumn, Option.filter_some, if_pos (by simpa using hpos)]
    rfl

theorem strOr_str (s : String) : (Json.str s).strOr = s := rfl

/-- What `payload` writes, `_stored_locator` reads back, under any binding. -/
theorem storedLocator_payload (h : LocatorOf repository l) :
    storedLocator repository l.payload = .ok (some l) := by
  obtain ⟨version, repositoryId, repositoryType, repositorySubdir, writerNodeId, accessNodeId⟩ := l
  have hversion : version = 1 := h.version
  have hid : repositoryId = repository.id := h.repositoryId
  have htype : repositoryType = repository.repoType.value := h.repositoryType
  subst hversion hid htype
  have hidValue : intOrZero (.int (repository.id : Int)) = some (repository.id : Int) := by
    rw [intOrZero]
    split
    · rfl
    · rename_i hzero
      simp only [Json.truthy, decide_eq_true_eq, not_not] at hzero
      rw [hzero]
  have htypeValue : Text.strip repository.repoType.value = repository.repoType.value := by
    cases repository.repoType <;> decide
  have hcheck : checkLocator repository 1 repository.id
      ⟨1, repository.id, repository.repoType.value, repositorySubdir, writerNodeId,
        accessNodeId⟩ = .ok ⟨1, repository.id, repository.repoType.value, repositorySubdir,
        writerNodeId, accessNodeId⟩ := by
    rw [checkLocator, if_neg (by decide), if_neg (by simp), if_neg, if_neg]
    · rintro ⟨hproxy, hnone⟩
      exact h.proxy hproxy hnone
    · rintro ⟨hnas, hempty⟩
      exact h.shard hnas hempty
  have hsubdir : Text.strip repositorySubdir = repositorySubdir := h.subdir
  have hwriter : positiveInt (numberOrNull writerNodeId) = writerNodeId :=
    positiveInt_numberOrNull h.writer
  have haccess : positiveInt (numberOrNull accessNodeId) = accessNodeId :=
    positiveInt_numberOrNull h.access
  have hone : intOrZero (.int (1 : Nat)) = some 1 := by decide
  show (match intOrZero (.int ((1 : Nat) : Int)), intOrZero (.int (repository.id : Int)) with
    | some version, some repositoryId =>
      (checkLocator repository version repositoryId
        { version := version.toNat, repositoryId := repositoryId.toNat
          repositoryType := Text.strip (Json.str repository.repoType.value).strOr
          repositorySubdir := Text.strip (Json.str repositorySubdir).strOr
          writerNodeId := positiveInt (numberOrNull writerNodeId)
          accessNodeId := positiveInt (numberOrNull accessNodeId) }).map some
    | _, _ => locatorError "Snapshot repository locator is invalid.") = _
  rw [hone, hidValue, strOr_str, strOr_str, htypeValue, hsubdir, hwriter, haccess]
  show (checkLocator repository 1 repository.id
    ⟨1, repository.id, repository.repoType.value, repositorySubdir, writerNodeId,
      accessNodeId⟩).map some = _
  rw [hcheck]
  rfl

/-- A directory has no locator, or one that was written by `payload`. -/
def Written (repository : Repository) (stored : Json) : Prop :=
  stored = .obj [] ∨ ∃ l, LocatorOf repository l ∧ stored = l.payload

theorem payload_ne (l : SnapshotRepositoryLocator) : l.payload ≠ .obj [] := by
  simp [SnapshotRepositoryLocator.payload]

theorem Written.rebind (h : Written repository stored) (t : Option BindNodeType) (n : Option Int) :
    Written (repository.rebind t n) stored := by
  rcases h with h | ⟨l, hl, h⟩
  · exact .inl h
  · exact .inr ⟨l, hl.rebind t n, h⟩

/-- Only a directory with a snapshot keeps a locator that is not the built one. -/
theorem ensure_ok {hasSnapshot : Bool} {json : Json} (hwritten : Written repository stored)
    (h : ensureSnapshotRepositoryLocator repository writerNodeId hasSnapshot stored = .ok json) :
    ∃ l, buildSnapshotRepositoryLocator repository writerNodeId = .ok l ∧
      (json = l.payload ∨ hasSnapshot = true ∧ json = stored ∧ stored ≠ .obj []) := by
  rw [ensureSnapshotRepositoryLocator] at h
  obtain ⟨l, hbuild, h⟩ := Transition.bind_eq_ok.mp h
  obtain ⟨existing, hstored, h⟩ := Transition.bind_eq_ok.mp h
  refine ⟨l, hbuild, ?_⟩
  rcases hwritten with rfl | ⟨old, hold, rfl⟩
  · obtain rfl : none = existing := Except.ok.inj hstored
    exact .inl (Except.ok.inj h).symm
  · rw [storedLocator_payload hold] at hstored
    obtain rfl : some old = existing := Except.ok.inj hstored
    dsimp only at h
    split at h
    · rename_i hkeep
      cases h
      rcases hkeep with rfl | hsnapshot
      · exact .inl rfl
      · exact .inr ⟨hsnapshot, rfl, payload_ne old⟩
    · exact .inl (Except.ok.inj h).symm

theorem ensure_kept {json : Json} (hwritten : Written repository stored) (hne : stored ≠ .obj [])
    (h : ensureSnapshotRepositoryLocator repository writerNodeId true stored = .ok json) :
    json = stored := by
  rw [ensureSnapshotRepositoryLocator] at h
  obtain ⟨l, hbuild, h⟩ := Transition.bind_eq_ok.mp h
  obtain ⟨existing, hstored, h⟩ := Transition.bind_eq_ok.mp h
  rcases hwritten with rfl | ⟨old, hold, rfl⟩
  · exact absurd rfl hne
  · rw [storedLocator_payload hold] at hstored
    obtain rfl : some old = existing := Except.ok.inj hstored
    dsimp only at h
    rw [if_pos (.inr rfl)] at h
    exact (Except.ok.inj h).symm

theorem Written.readable (h : Written repository stored) : storedLocator repository stored =
      .ok none ∧ stored = .obj [] ∨ ∃ l, LocatorOf repository l ∧ stored = l.payload ∧
      storedLocator repository stored = .ok (some l) := by
  rcases h with rfl | ⟨l, hl, rfl⟩
  · exact .inl ⟨rfl, rfl⟩
  · exact .inr ⟨l, hl, rfl, storedLocator_payload hl⟩

end HyperFileLens.Protection
