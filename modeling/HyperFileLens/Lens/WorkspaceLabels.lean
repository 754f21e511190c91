import HyperFileLens.Lens.Workspace

/-!
# What the calls of a task name

Whatever it is answered, a task writes the identity of its payload and no other, its
tombstones name that identity and the workspace, and it makes, moves and removes
directories for that identity.
-/

namespace HyperFileLens.Lens

open Service FileTree

structure Says (P : LensWorkspacePaths) (I : LensWorkspaceIdentity) (T : LensWorkspaceTombstone) :
    Prop where
  version : T.version = 1
  identity : T.identity = I
  workspacePath : T.workspacePath = P.workspace
  state : T.state = lensWorkspaceTombstoneRetiring ∨ T.state = lensWorkspaceTombstoneRetired

/-- What a task writes, and for whom it makes, moves and removes directories. -/
def Labelled (P : LensWorkspacePaths) (I : LensWorkspaceIdentity) : LensCall → Prop
  | .mkdirat _ who => who = none ∨ who = some I
  | .write _ content => content = .identity I
  | .writeTemp content => ∃ T, content = .tombstone T ∧ Says P I T
  | .rename _ _ who => who = I
  | .removeAll _ who => who = I
  | _ => True

section Labels

variable {P : LensWorkspacePaths} {I : LensWorkspaceIdentity} {α β : Type}

variable {p : LensProg α} {who : Option LensWorkspaceIdentity}

theorem makes_then {f : α → LensProg β} (hp : p.Makes (Labelled P I))
    (hf : ∀ a, (f a).Makes (Labelled P I)) : (p.bind f).Makes (Labelled P I) :=
  Prog.Yields.bind hp fun a _ => hf a

theorem makes_attempt (hp : p.Makes (Labelled P I)) :
    (p.attempt : LensProg (Except String α)).Makes (Labelled P I) := by
  induction p with
  | ret a => trivial
  | fail error => trivial
  | cut => trivial
  | call r k ih => exact ⟨hp.1, fun a => ih a (hp.2 a)⟩

theorem makes_call {r : LensCall} {f : LensAnswer r → LensProg β} (hr : Labelled P I r)
    (hf : ∀ a, (f a).Makes (Labelled P I)) :
    ((Prog.request r : LensProg (LensAnswer r)).bind f).Makes (Labelled P I) := ⟨hr, hf⟩

theorem makes_orFail (x : Except LensError α) : (orFail x).Makes (Labelled P I) := by
  cases x <;> trivial

theorem makes_orRaise (x : Except String α) : (orRaise x).Makes (Labelled P I) := by
  cases x <;> trivial

theorem makes_checkContext (message : Option String) :
    (checkContext message).Makes (Labelled P I) := by
  refine makes_call trivial fun err => ?_
  cases err <;> trivial

/-! ## Directories -/

theorem makes_secureOpenDirectory (path root : Path) :
    (secureOpenDirectory path root).Makes (Labelled P I) := by
  refine makes_then (makes_orRaise _) fun x => makes_call trivial fun opened => ?_
  cases opened with
  | error e => trivial
  | ok _ => exact makes_call trivial fun directory => makes_orFail directory

theorem makes_ensureComponents (hwho : who = none ∨ who = some I) (rest : List Name)
    (current : Path) (created : Bool) :
    (ensureComponents who current rest created).Makes (Labelled P I) := by
  induction rest generalizing current created with
  | nil => trivial
  | cons n rest ih =>
    refine makes_call trivial fun next => ?_
    cases next with
    | ok _ => exact ih _ created
    | error e =>
      have hagain : (do
          let next ← openDirectory (current ++ [n])
          orFail next
          ensureComponents who (current ++ [n]) rest true : LensProg Bool).Makes
          (Labelled P I) :=
        makes_call trivial fun next => makes_then (makes_orFail next) fun _ => ih _ true
      dsimp only
      split
      · refine makes_call hwho fun made => ?_
        cases made with
        | ok _ => exact hagain
        | error e =>
          dsimp only
          split
          · exact hagain
          · trivial
      · trivial

theorem makes_secureEnsureDirectory (hwho : who = none ∨ who = some I) (path root : Path) :
    (secureEnsureDirectory path root who).Makes (Labelled P I) := by
  refine makes_then (makes_orRaise _) fun x => makes_call trivial fun opened => ?_
  cases opened with
  | error e => trivial
  | ok _ => exact makes_then (makes_ensureComponents hwho _ _ _) fun _ => trivial

theorem makes_ensureLensMetadataDirectory (base path : Path) :
    (ensureLensMetadataDirectory base path).Makes (Labelled P I) := by
  refine makes_then (makes_attempt (makes_secureEnsureDirectory (.inl rfl) path base))
    fun ensured => ?_
  cases ensured with
  | error message => trivial
  | ok _ =>
    refine makes_call trivial fun changed => ?_
    cases changed <;> trivial

theorem makes_ensureLensMetadataLayout (paths : LensWorkspacePaths) :
    (ensureLensMetadataLayout paths).Makes (Labelled P I) := by
  have hdirectory := makes_ensureLensMetadataDirectory (P := P) (I := I) paths.root.dropLast
  exact makes_then (hdirectory _) fun _ => makes_then (hdirectory _) fun _ =>
    makes_then (hdirectory _) fun _ => makes_then (hdirectory _) fun _ => hdirectory _

/-! ## Identity and tombstone -/

theorem makes_readRegular (path : Path) (what : String) :
    (readRegular path what).Makes (Labelled P I) := by
  refine makes_call trivial fun info => ?_
  cases info with
  | error e => trivial
  | ok entry =>
    cases entry with
    | file content => exact makes_call (f := .ret) trivial fun _ => trivial
    | dir => trivial
    | symlink target => trivial
    | special => trivial

theorem makes_readTombstone (path : Path) :
    (readLensWorkspaceTombstone path).Makes (Labelled P I) := by
  refine makes_then (makes_readRegular path _) fun encoded => ?_
  cases encoded with
  | error e => trivial
  | ok content =>
    cases hcontent : content.asTombstone with
    | none =>
      dsimp only
      rw [hcontent]
      trivial
    | some tombstone =>
      dsimp only
      rw [hcontent]
      dsimp only
      split <;> trivial

theorem makes_readIdentity (path : Path) :
    (readLensWorkspaceIdentity path).Makes (Labelled P I) := by
  refine makes_then (makes_readRegular path _) fun encoded => ?_
  cases encoded with
  | error e => trivial
  | ok content =>
    cases hcontent : content.asIdentity with
    | none =>
      dsimp only
      rw [hcontent]
      trivial
    | some identity =>
      dsimp only
      rw [hcontent]
      trivial

theorem makes_validateTombstone (T : LensWorkspaceTombstone) (J : LensWorkspaceIdentity)
    (path : Path) : (validateLensWorkspaceTombstone T J path).Makes (Labelled P I) := by
  rw [validateLensWorkspaceTombstone]
  split <;> trivial

theorem makes_validateIdentity (path : Path) (J : LensWorkspaceIdentity) :
    (validateLensWorkspaceIdentity path J).Makes (Labelled P I) := by
  refine makes_then (makes_readIdentity path) fun existing => ?_
  cases existing with
  | error e => trivial
  | ok existing =>
    dsimp only
    split <;> trivial

theorem makes_settleTemp {f : Except LensError Unit → LensProg β}
    (hf : ∀ a, (f a).Makes (Labelled P I)) : (settleTemp.bind f).Makes (Labelled P I) :=
  makes_call trivial hf

theorem makes_writeTombstone (path : Path) {T : LensWorkspaceTombstone} (hT : Says P I T) :
    (writeLensWorkspaceTombstone path T).Makes (Labelled P I) := by
  refine makes_call trivial fun file => makes_then (makes_orFail file) fun _ => ?_
  refine makes_then (makes_attempt ?_) fun filled => ?_
  · refine makes_settleTemp fun changed => makes_then (makes_orFail changed) fun _ => ?_
    refine makes_call ⟨T, rfl, hT⟩ fun written => makes_then (makes_orFail written) fun _ => ?_
    refine makes_settleTemp fun synced => makes_then (makes_orFail synced) fun _ => ?_
    refine makes_settleTemp fun closed => makes_then (makes_orFail closed) fun _ => ?_
    refine makes_call trivial fun replaced => makes_then (makes_orFail replaced) fun _ => ?_
    exact makes_call trivial fun synced => makes_orFail synced
  · cases filled with
    | ok _ => trivial
    | error message => exact makes_call trivial fun _ => trivial

theorem makes_writeState {state : String} (hstate : state = lensWorkspaceTombstoneRetiring ∨
    state = lensWorkspaceTombstoneRetired) (existing : LensWorkspaceTombstone) :
    (writeState P I state existing).Makes (Labelled P I) :=
  ⟨trivial, fun _ => makes_writeTombstone _ ⟨rfl, rfl, rfl, hstate⟩⟩

theorem makes_writeIdentity (path : Path) :
    (writeLensWorkspaceIdentity path I).Makes (Labelled P I) := by
  refine makes_call trivial fun file => ?_
  cases file with
  | error e => trivial
  | ok _ =>
    refine makes_then (p := fillLensWorkspaceIdentity path I) ?_ fun filled => ?_
    · refine makes_call rfl fun written => ?_
      cases written with
      | error e => trivial
      | ok _ =>
        refine makes_call trivial fun synced => ?_
        cases synced with
        | error e => trivial
        | ok _ => exact ⟨trivial, fun _ => trivial⟩
    · cases filled with
      | ok _ => trivial
      | error e => exact makes_call trivial fun _ => trivial

/-! ## Preparation -/

theorem makes_withLock {action : LensProg α} (haction : action.Makes (Labelled P I)) (path : Path) :
    (withLensWorkspaceLock path action).Makes (Labelled P I) := by
  refine makes_then (makes_checkContext none) fun _ => makes_call trivial fun locked => ?_
  refine makes_then (makes_orFail locked) fun _ => ?_
  refine makes_then (makes_attempt (makes_then (makes_checkContext none) fun _ => haction))
    fun result => ?_
  exact makes_call trivial fun _ => makes_orRaise result

theorem makes_ensureWorkspace (path root : Path) :
    (secureEnsureDirectory path root (some I)).Makes (Labelled P I) :=
  makes_secureEnsureDirectory (.inr rfl) path root

theorem makes_claimIdentity (path : Path) :
    (claimLensWorkspaceIdentity path I).Makes (Labelled P I) := by
  refine makes_then (makes_writeIdentity path) fun written => ?_
  cases written with
  | ok _ => trivial
  | error e =>
    dsimp only
    split
    · refine makes_then (makes_readIdentity path) fun existing => ?_
      cases existing with
      | error e => trivial
      | ok existing =>
        dsimp only
        split <;> trivial
    · trivial

theorem makes_refuseExisting (path : Path) :
    (refuseExistingWorkspace path).Makes (Labelled P I) := by
  refine makes_call trivial fun info => ?_
  cases info with
  | ok entry => trivial
  | error e =>
    dsimp only
    split <;> trivial

theorem makes_prepareWorkspace : (prepareWorkspace P I).Makes (Labelled P I) := by
  refine makes_then (makes_readIdentity _) fun existing => ?_
  cases existing with
  | ok existing =>
    dsimp only
    split
    · trivial
    · exact makes_ensureWorkspace _ _
  | error e =>
    dsimp only
    split
    · exact makes_then (makes_refuseExisting _) fun _ =>
        makes_then (makes_claimIdentity _) fun _ => makes_ensureWorkspace _ _
    · trivial

theorem makes_prepare : (Lens.prepare P I).Makes (Labelled P I) := by
  refine makes_then (makes_ensureLensMetadataLayout P) fun _ => makes_withLock ?_ P.lock
  refine makes_then (makes_readTombstone _) fun tombstone => ?_
  cases tombstone with
  | ok T => exact makes_then (makes_validateTombstone T I _) fun _ => trivial
  | error e =>
    dsimp only
    split
    · exact makes_prepareWorkspace
    · trivial

/-! ## Cleanup -/

theorem makes_pathMissing (path : Path) : (pathMissing path).Makes (Labelled P I) := by
  refine makes_call trivial fun info => ?_
  cases info <;> trivial

theorem makes_checkIdentity (workspaceMissing trashMissing identityMissing : Bool) :
    (checkCleanupIdentity P I workspaceMissing trashMissing identityMissing).Makes
      (Labelled P I) := by
  rw [checkCleanupIdentity]
  split
  · exact makes_validateIdentity _ I
  · split <;> trivial

theorem makes_checkCleanup : (checkCleanup P I).Makes (Labelled P I) := by
  refine makes_then (makes_pathMissing _) fun workspaceMissing => ?_
  refine makes_then (makes_pathMissing _) fun trashMissing => ?_
  refine makes_then (makes_pathMissing _) fun identityMissing => ?_
  refine makes_then (makes_readTombstone _) fun tombstone => ?_
  cases tombstone with
  | ok T =>
    refine makes_then (makes_validateTombstone T I _) fun _ => ?_
    split
    · split <;> trivial
    · split
      · trivial
      · exact makes_then (makes_checkIdentity _ _ _) fun _ => trivial
  | error e =>
    dsimp only
    split
    · exact makes_then (makes_checkIdentity _ _ _) fun _ => trivial
    · trivial

theorem makes_quarantineWorkspace (workspaceExists trashExists : Bool) :
    (quarantineWorkspace P I workspaceExists trashExists).Makes (Labelled P I) := by
  rw [quarantineWorkspace]
  split
  · trivial
  · split
    · exact makes_then (makes_secureOpenDirectory _ _) fun _ =>
        makes_call rfl fun renamed => makes_then (makes_orFail renamed) fun _ => trivial
    · trivial

theorem makes_quarantineLocked : (quarantineLocked P I).Makes (Labelled P I) := by
  refine makes_then (makes_attempt makes_checkCleanup) fun checked => ?_
  cases checked with
  | error message => trivial
  | ok found =>
    cases found with
    | retired => trivial
    | present T workspaceExists trashExists =>
      refine makes_then (makes_attempt (makes_writeState (.inl rfl) T)) fun written => ?_
      cases written with
      | error message => trivial
      | ok _ =>
        refine makes_then (makes_attempt (makes_quarantineWorkspace _ _)) fun moved => ?_
        cases moved <;> trivial

theorem makes_somePresent (paths : List Path) : (somePresent paths).Makes (Labelled P I) := by
  induction paths with
  | nil => trivial
  | cons path paths ih =>
    refine makes_then (makes_pathMissing path) fun missing => ?_
    split
    · exact ih
    · trivial

theorem makes_retireIdentity (T : LensWorkspaceTombstone) :
    (retireIdentity P I T).Makes (Labelled P I) := by
  refine makes_call trivial fun removed => ?_
  cases removed with
  | ok _ => exact makes_writeState (.inr rfl) T
  | error e =>
    dsimp only
    split
    · exact makes_writeState (.inr rfl) T
    · trivial

theorem makes_retireLocked : (retireLocked P I).Makes (Labelled P I) := by
  refine makes_then (makes_readTombstone _) fun found => makes_then (makes_orFail found) fun T => ?_
  refine makes_then (makes_validateTombstone T I _) fun _ => ?_
  split
  · refine makes_then (makes_somePresent _) fun present => ?_
    cases present <;> trivial
  · split
    · trivial
    · refine makes_then (makes_somePresent _) fun present => ?_
      cases present with
      | true => trivial
      | false => exact makes_retireIdentity T

theorem makes_purgeTrash : (purgeTrash P I).Makes (Labelled P I) := by
  refine makes_then (makes_pathMissing _) fun missing => ?_
  split
  · trivial
  · exact makes_call rfl fun purged => makes_orFail purged

theorem makes_cleanup : (Lens.cleanup P I).Makes (Labelled P I) := by
  refine makes_then (makes_ensureLensMetadataLayout P) fun _ => ?_
  refine makes_then (makes_attempt (makes_withLock makes_quarantineLocked P.lock)) fun locked => ?_
  cases locked with
  | error message => trivial
  | ok progress =>
    dsimp only
    split
    · trivial
    · split
      · trivial
      · refine makes_then (makes_attempt makes_purgeTrash) fun purged => ?_
        cases purged with
        | error message => trivial
        | ok _ =>
          refine makes_then (makes_attempt (makes_withLock makes_retireLocked P.lock))
            fun retired => ?_
          cases retired <;> trivial

end Labels

/-- The calls of a task, which name what its payload says. -/
def Named (uuid : UUIDPackage) (job : LensJob) (r : LensCall) : Prop :=
  r = .ctxErr ∨ ∃ I P, job.payload.site uuid = .ok (I, P) ∧ Labelled P I r

theorem makes_run (uuid : UUIDPackage) (job : LensJob) : (job.run uuid).Makes (Named uuid job) := by
  refine ⟨.inl rfl, fun err => ?_⟩
  cases err with
  | some message => trivial
  | none =>
    show ((orRaise (job.payload.site uuid)).bind fun site => job.work site.1 site.2).Makes
      (Named uuid job)
    cases hsite : job.payload.site uuid with
    | error message => trivial
    | ok site =>
      have hwork : (job.work site.1 site.2).Makes (Labelled site.2 site.1) := by
        cases job with
        | prepare payload => exact makes_then makes_prepare fun _ => trivial
        | cleanup payload => exact makes_then makes_cleanup fun _ => trivial
      exact hwork.mono (fun r hr => .inr ⟨site.1, site.2, hsite, hr⟩) fun _ _ => trivial

end HyperFileLens.Lens
