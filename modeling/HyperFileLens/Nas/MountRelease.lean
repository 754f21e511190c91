import HyperFileLens.Library.GoText

/-!
# The release of a managed NAS mount

`UnmountWithOptions` and `ensureMounted` against a host that answers each call as it likes.
An answer may depend on all calls before it, so a host stands for every sequence of answers.

*Calls.*  A run returns the calls it has made, the latest first. What is claimed of a
release is said about them (`ReportsTruth`).

*Defect.*  The mount table decides what a plain attempt has done, unless the attempt reports
that its own clean-up failed. Such an error may read like a busy one. When it ends the
third attempt of a forced release, the mount is lazily detached although the look at the
table has shown nothing left.

Everything is about one mount point. Logs are left out.
-/

namespace HyperFileLens.Nas.MountRelease

/-! ## The host -/

structure UnmountError where
  text : String
  /-- There is an `unmountLocalCleanupError` in its chain. -/
  localCleanup : Bool := false

/-- What `os.Lstat` says of a path. -/
inductive PathState where
  | missing
  | failed (error : String)
  | symlink
  | other

inductive Removal where
  | removed
  | missing
  | failed (error : String)

/-- An error of `validateMountedShare`. -/
inductive ValidationError where
  | readOnly
  | sourceMismatch
  | other (error : String)

inductive Event where
  | contextErr (err : Option String)
  | isMounted (mounted : Bool)
  | hasUnmountWork (work : Bool)
  | unmount (err : Option UnmountError)
  | lazyUnmount (err : Option String)
  | waitUnmountRetry (err : Option String)
  | unmountBusyDetails (details : String)
  | lstat (state : PathState)
  | remove (removal : Removal)
  | validateMountedShare (err : Option ValidationError)
  | mountShare (err : Option String)
  | spaceInfo (err : Option String)

abbrev Log := List Event

structure Host where
  /-- `ResolvedMountPoint` is not empty. -/
  resolved : Bool
  /-- The components of the mount point below the root of the mounts, if it is below. -/
  relative : Option (List String)
  contextErr : Log → Option String
  isMounted : Log → Bool
  hasUnmountWork : Log → Bool
  unmount : Log → Option UnmountError
  lazyUnmount : Log → Option String
  waitUnmountRetry : Log → Option String
  unmountBusyDetails : Log → String
  lstat : Log → PathState
  remove : Log → Removal
  validateMountedShare : Log → Option ValidationError
  mountShare : Log → Option String
  spaceInfo : Log → Option String

def Host.after (host : Host) (past : Log) : Host :=
  { resolved := host.resolved
    relative := host.relative
    contextErr := fun log => host.contextErr (log ++ past)
    isMounted := fun log => host.isMounted (log ++ past)
    hasUnmountWork := fun log => host.hasUnmountWork (log ++ past)
    unmount := fun log => host.unmount (log ++ past)
    lazyUnmount := fun log => host.lazyUnmount (log ++ past)
    waitUnmountRetry := fun log => host.waitUnmountRetry (log ++ past)
    unmountBusyDetails := fun log => host.unmountBusyDetails (log ++ past)
    lstat := fun log => host.lstat (log ++ past)
    remove := fun log => host.remove (log ++ past)
    validateMountedShare := fun log => host.validateMountedShare (log ++ past)
    mountShare := fun log => host.mountShare (log ++ past)
    spaceInfo := fun log => host.spaceInfo (log ++ past) }

/-! ## The service -/

def isBusyUnmountError (err : UnmountError) : Bool :=
  ["device is busy", "device or resource busy", "target is busy", "mount point remains active",
    "resource busy"].any fun text =>
      (GoText.index text.toList (Text.lower err.text).toList).isSome

structure UnmountResult where
  attempts : Nat := 0
  cleanupComplete : Bool := true
  lazyUnmount : Bool := false
  retainedResources : List String := []
  warnings : List String := []

def unmountAttempts : Nat := 3

inductive AttemptsEnd where
  | released
  | failed (err : UnmountError)
  | cancelled (err : String)

def remainsActive : UnmountError := { text := "mount point remains active after unmount" }

variable (host : Host)

/-- The plain attempts from one on, with a number of further ones. -/
def unmountFrom (attempt left : Nat) (log : Log) : (Nat × AttemptsEnd) × Log :=
  let err := host.unmount log
  let log := .unmount err :: log
  let work := host.hasUnmountWork log
  let log := .hasUnmountWork work :: log
  if work = false ∧ (err.map UnmountError.localCleanup).getD false = false then
    ((attempt, .released), log)
  else
    let err := err.getD remainsActive
    match left with
    | 0 => ((attempt, .failed err), log)
    | left + 1 =>
      if isBusyUnmountError err = false then ((attempt, .failed err), log)
      else
        let waited := host.waitUnmountRetry log
        let log := .waitUnmountRetry waited :: log
        match waited with
        | some err => ((attempt, .cancelled err), log)
        | none => unmountFrom (attempt + 1) left log

/-- `fmt.Errorf("%w; active references: %s", err, details)`, without blanks around. -/
def withUnmountDiagnostics (err : String) (log : Log) : String × Log :=
  let details := host.unmountBusyDetails log
  let log := .unmountBusyDetails details :: log
  let details := String.ofList (Text.trimSpace details.toList)
  (if details = "" then err else err ++ "; active references: " ++ details, log)

/-- The path is followed component by component, the root first. -/
def checkComponents : List String → Log → Option (Option String) × Log
  | [], log => (none, log)
  | component :: rest, log =>
    let state := host.lstat log
    let log := .lstat state :: log
    match state with
    | .missing => (some none, log)
    | .failed error => (some (some error), log)
    | .symlink => (some (some ("refusing to remove symlink path " ++ component)), log)
    | .other => checkComponents rest log

def removeManagedMountDirectory (log : Log) : Option String × Log :=
  match host.relative with
  | none => (some "refusing to remove non-resource mount directory", log)
  | some components =>
    let root := host.lstat log
    let log := .lstat root :: log
    match root with
    | .symlink => (some "refusing to remove through symlink mount root", log)
    | .failed error => (some error, log)
    | .missing | .other =>
      match checkComponents host components log with
      | (some ended, log) => (ended, log)
      | (none, log) =>
        let removal := host.remove log
        let log := .remove removal :: log
        match removal with
        | .failed error => (some error, log)
        | .removed | .missing => (none, log)

/-- The end of a release: the directory of the mount point. -/
def cleanupDirectory (force : Bool) (result : UnmountResult) (log : Log) :
    (UnmountResult × Option String) × Log :=
  match removeManagedMountDirectory host log with
  | (none, log) => ((result, none), log)
  | (some err, log) =>
    if force = false then ((result, some ("cleanup mount directory: " ++ err)), log)
    else
      (({ result with
          cleanupComplete := false
          retainedResources := result.retainedResources ++ ["nas_mount_directory"]
          warnings := result.warnings ++
            ["The managed NAS mount directory requires later cleanup."] }, none), log)

/-- The last look at the mount table, and the directory. -/
def finishRelease (force : Bool) (result : UnmountResult) (log : Log) :
    (UnmountResult × Option String) × Log :=
  let work := host.hasUnmountWork log
  let log := .hasUnmountWork work :: log
  if work then ((result, some remainsActive.text), log)
  else cleanupDirectory host force result log

/-- A lazy detach, and the end of the release. -/
def detach (force : Bool) (result : UnmountResult) (log : Log) :
    (UnmountResult × Option String) × Log :=
  let details := host.unmountBusyDetails log
  let log := .unmountBusyDetails details :: log
  let details := String.ofList (Text.trimSpace details.toList)
  let err := host.lazyUnmount log
  let log := .lazyUnmount err :: log
  match err with
  | some err =>
    let diagnosed := withUnmountDiagnostics host err log
    ((result, some diagnosed.1), diagnosed.2)
  | none =>
    finishRelease host force { result with
      cleanupComplete := false
      lazyUnmount := true
      retainedResources := result.retainedResources ++ ["nas_mount_reference"]
      warnings := result.warnings ++
        ["The managed NAS mount was lazily detached because local references remained." ++
          if details = "" then "" else " Active references: " ++ details ++ "."] } log

/-- It returns the calls that it has made, too. -/
def unmountWithOptions (force : Bool) : (UnmountResult × Option String) × Log :=
  let cancelled := host.contextErr []
  let log := [.contextErr cancelled]
  if cancelled.isSome then (({}, cancelled), log)
  else if host.resolved = false then (({}, some "invalid mount_point"), log)
  else
    let work := host.hasUnmountWork log
    let log := .hasUnmountWork work :: log
    if work = false then cleanupDirectory host force {} log
    else
      match unmountFrom host 1 (unmountAttempts - 1) log with
      | ((attempts, .released), log) => finishRelease host force { attempts := attempts } log
      | ((attempts, .cancelled err), log) => (({ attempts := attempts }, some err), log)
      | ((attempts, .failed err), log) =>
        if force = false ∨ isBusyUnmountError err = false then
          let diagnosed := withUnmountDiagnostics host err.text log
          (({ attempts := attempts }, some diagnosed.1), diagnosed.2)
        else detach host force { attempts := attempts } log

inductive MountError where
  | text (err : String)
  | validation (err : ValidationError)

def mount : Option String × Log :=
  let cancelled := host.contextErr []
  let log := [.contextErr cancelled]
  if cancelled.isSome then (cancelled, log)
  else if host.resolved = false then (some "invalid mount_point", log)
  else
    let mounted := host.isMounted log
    let log := .isMounted mounted :: log
    if mounted then (host.spaceInfo log, .spaceInfo (host.spaceInfo log) :: log)
    else
      let work := host.hasUnmountWork log
      let log := .hasUnmountWork work :: log
      let cleaned := if work then unmountWithOptions (host.after log) false else (({}, none), [])
      let log := cleaned.2 ++ log
      match cleaned.1.2 with
      | some err => (some ("cleanup stale mount state: " ++ err), log)
      | none =>
        let err := host.mountShare log
        let log := .mountShare err :: log
        if err.isSome then (err, log)
        else (host.spaceInfo log, .spaceInfo (host.spaceInfo log) :: log)

def recoverableMountValidationError : ValidationError → Bool
  | .readOnly | .sourceMismatch => true
  | .other _ => false

def mountAndValidate (log : Log) : Option MountError × Log :=
  let mounted := mount (host.after log)
  let log := mounted.2 ++ log
  match mounted.1 with
  | some err => (some (.text err), log)
  | none =>
    let err := host.validateMountedShare log
    (err.map .validation, .validateMountedShare err :: log)

def ensureMounted (repair : Bool) : Option MountError × Log :=
  let cancelled := host.contextErr []
  let log := [.contextErr cancelled]
  if cancelled.isSome then (cancelled.map .text, log)
  else if host.resolved = false then (some (.text "invalid mount_point"), log)
  else
    let mounted := host.isMounted log
    let log := .isMounted mounted :: log
    if mounted = false then mountAndValidate host log
    else
      let err := host.validateMountedShare log
      let log := .validateMountedShare err :: log
      match err with
      | none => (none, log)
      | some err =>
        if repair = false ∨ recoverableMountValidationError err = false then
          (some (.validation err), log)
        else
          let released := unmountWithOptions (host.after log) false
          let log := released.2 ++ log
          match released.1.2 with
          | some err => (some (.text ("repair stale NAS mount: " ++ err)), log)
          | none => mountAndValidate host log

/-! ## What is claimed -/

/-- The unmount commands and the looks at the mount table. -/
def Event.isCommand : Event → Bool
  | .unmount _ | .lazyUnmount _ | .hasUnmountWork _ => true
  | _ => false

def Event.isUnmount : Event → Bool
  | .unmount _ => true
  | _ => false

def Event.isLazyUnmount : Event → Bool
  | .lazyUnmount _ => true
  | _ => false

def commands (log : Log) : Log := log.filter Event.isCommand

/-- The last call has shown that the directory is not there. -/
def directoryGone : Log → Bool
  | .lstat .missing :: _ | .remove .removed :: _ | .remove .missing :: _ => true
  | _ => false

/-- A lazy detach is forced, comes after a busy failure and a look that showed the mount,
and is the first one. -/
def Justified (force : Bool) (before : Log) : Prop :=
  force = true ∧ before.countP Event.isLazyUnmount = 0 ∧
    ∃ err rest, before = .hasUnmountWork true :: .unmount err :: rest ∧
      isBusyUnmountError (err.getD remainsActive) = true

structure Truth (force : Bool) (r : (UnmountResult × Option String) × Log) : Prop where
  clear : r.1.2 = none → (commands r.2).head? = some (.hasUnmountWork false)
  complete : r.1.2 = none → r.1.1.cleanupComplete = true →
    (commands r.2).countP Event.isLazyUnmount = 0 ∧ directoryGone r.2 = true
  reference : r.1.2 = none → (commands r.2).countP Event.isLazyUnmount ≠ 0 →
    "nas_mount_reference" ∈ r.1.1.retainedResources
  directory : r.1.2 = none → directoryGone r.2 = false →
    "nas_mount_directory" ∈ r.1.1.retainedResources
  justified : ∀ err before, .lazyUnmount err :: before <:+ commands r.2 → Justified force before
  attempts : (commands r.2).countP Event.isUnmount ≤ unmountAttempts

/-- An attempt that ends with a busy error of its own clean-up, before a look that shows
nothing left. So many attempts were made before it. -/
def Misread (before : Nat) (commands : Log) : Prop :=
  ∃ err rest, .hasUnmountWork false :: .unmount (some err) :: rest <:+ commands ∧
    err.localCleanup = true ∧ isBusyUnmountError err = true ∧
    rest.countP Event.isUnmount = before

/-- A forced release is misled by its last attempt. -/
def Misled (force : Bool) (log : Log) : Prop :=
  force = true ∧ Misread (unmountAttempts - 1) (commands log)

/-- A release, and a mount, report the truth. -/
structure ReportsTruth (force repair : Bool) : Prop where
  release : Truth force (unmountWithOptions host force)
  validated : (ensureMounted host repair).1 = none →
    ∃ log, (ensureMounted host repair).2 = .validateMountedShare none :: log

/-! ## The directory -/

variable {host}
variable {force : Bool} {log cs : Log} {result : UnmountResult}
  {r : (UnmountResult × Option String) × Log}

theorem commands_checkComponents (components : List String) :
    commands (checkComponents host components log).2 = commands log := by
  induction components generalizing log with
  | nil => rfl
  | cons component rest ih =>
    simp only [checkComponents]
    cases host.lstat log with
    | other => exact ih
    | _ => rfl

theorem gone_checkComponents {components : List String}
    (h : (checkComponents host components log).1 = some none) :
    directoryGone (checkComponents host components log).2 = true := by
  induction components generalizing log with
  | nil => cases h
  | cons component rest ih =>
    simp only [checkComponents] at h ⊢
    cases hstate : host.lstat log with
    | other =>
      rw [hstate] at h
      exact ih h
    | missing => rfl
    | failed => rw [hstate] at h; cases h
    | symlink => rw [hstate] at h; cases h

theorem commands_removeManagedMountDirectory :
    commands (removeManagedMountDirectory host log).2 = commands log := by
  simp only [removeManagedMountDirectory]
  split
  · rfl
  · split
    · rfl
    · rfl
    all_goals
      split
      · next hchecked => exact (congrArg (commands ·.2) hchecked).symm.trans (commands_checkComponents _)
      · next hchecked =>
        split <;> exact (congrArg (commands ·.2) hchecked).symm.trans (commands_checkComponents _)

theorem gone_removeManagedMountDirectory (h : (removeManagedMountDirectory host log).1 = none) :
    directoryGone (removeManagedMountDirectory host log).2 = true := by
  revert h
  simp only [removeManagedMountDirectory]
  split
  · exact fun h => by cases h
  · split
    · exact fun h => by cases h
    · exact fun h => by cases h
    all_goals
      split
      · next hchecked =>
        rintro rfl
        have hgone := gone_checkComponents (congrArg Prod.fst hchecked)
        rwa [hchecked] at hgone
      · split
        · exact fun h => by cases h
        all_goals
          next hremoval =>
          intro _
          rw [hremoval]
          rfl

/-! ## The end of a release -/

/-- A release ends with a result as it was or with the residue of the directory. -/
structure Ends (result : UnmountResult) (r : (UnmountResult × Option String) × Log) : Prop where
  complete : r.1.2 = none → r.1.1.cleanupComplete = true →
    result.cleanupComplete = true ∧ directoryGone r.2 = true
  directory : r.1.2 = none → directoryGone r.2 = false →
    "nas_mount_directory" ∈ r.1.1.retainedResources
  retained : result.retainedResources ⊆ r.1.1.retainedResources

theorem ends_cleanupDirectory : Ends result (cleanupDirectory host force result log) ∧
    commands (cleanupDirectory host force result log).2 = commands log := by
  have hcommands : commands (removeManagedMountDirectory host log).2 = commands log :=
    commands_removeManagedMountDirectory
  have hgone : (removeManagedMountDirectory host log).1 = none →
      directoryGone (removeManagedMountDirectory host log).2 = true :=
    gone_removeManagedMountDirectory
  simp only [cleanupDirectory]
  split
  · next log' hremoved =>
    rw [hremoved] at hcommands hgone
    exact ⟨⟨fun _ h => ⟨h, hgone rfl⟩, fun _ h => absurd (hgone rfl) (by simp [h]),
      List.Subset.refl _⟩, hcommands⟩
  · next err log' hremoved =>
    rw [hremoved] at hcommands
    split
    · exact ⟨⟨(fun h => by cases h), (fun h => by cases h), List.Subset.refl _⟩, hcommands⟩
    · exact ⟨⟨(fun _ h => by cases h), fun _ _ => List.mem_append_right _ List.mem_cons_self,
        List.subset_append_left _ _⟩, hcommands⟩

theorem ends_finishRelease : Ends result (finishRelease host force result log) ∧
    ∃ work, commands (finishRelease host force result log).2 =
      .hasUnmountWork work :: commands log ∧
      ((finishRelease host force result log).1.2 = none → work = false) := by
  simp only [finishRelease]
  split
  · next hwork =>
    exact ⟨⟨(fun h => by cases h), (fun h => by cases h), List.Subset.refl _⟩, _, rfl,
      (fun h => by cases h)⟩
  · next hwork =>
    exact ⟨ends_cleanupDirectory.1, _, ends_cleanupDirectory.2,
      fun _ => Bool.eq_false_iff.mpr hwork⟩

theorem not_detached (h : cs.countP Event.isLazyUnmount = 0) (err : Option String) (before : Log) :
    ¬ .lazyUnmount err :: before <:+ cs := fun hsuffix =>
  absurd (List.countP_eq_zero.mp h _ (hsuffix.mem List.mem_cons_self)) (fun h => h rfl)

theorem truth_of_failed (herr : r.1.2 ≠ none)
    (hlazy : (commands r.2).countP Event.isLazyUnmount = 0)
    (hattempts : (commands r.2).countP Event.isUnmount ≤ unmountAttempts) : Truth force r :=
  { clear := fun h => absurd h herr
    complete := fun h => absurd h herr
    reference := fun h => absurd h herr
    directory := fun h => absurd h herr
    justified := fun err before h => absurd h (not_detached hlazy err before)
    attempts := hattempts }

theorem truth_of_ends {work : Bool} (hends : Ends result r)
    (hcommands : commands r.2 = .hasUnmountWork work :: cs)
    (hclear : r.1.2 = none → work = false)
    (hcomplete : result.cleanupComplete = true → cs.countP Event.isLazyUnmount = 0)
    (hreference : cs.countP Event.isLazyUnmount ≠ 0 →
      "nas_mount_reference" ∈ result.retainedResources)
    (hjustified : ∀ err before, .lazyUnmount err :: before <:+ cs → Justified force before)
    (hattempts : cs.countP Event.isUnmount ≤ unmountAttempts) : Truth force r :=
  have hcount : ∀ p : Event → Bool, p (.hasUnmountWork work) = false →
      (commands r.2).countP p = cs.countP p := fun p hp => by
    rw [hcommands, List.countP_cons_of_neg (by simp [hp])]
  { clear := fun h => by rw [hcommands, hclear h]; rfl
    complete := fun h hc =>
      have hdone := hends.complete h hc
      ⟨(hcount _ rfl).trans (hcomplete hdone.1), hdone.2⟩
    reference := fun _ h => hends.retained (hreference (by rwa [hcount _ rfl] at h))
    directory := hends.directory
    justified := fun err before h => by
      rw [hcommands, List.suffix_cons_iff] at h
      cases h with
      | inl h => cases h
      | inr h => exact hjustified err before h
    attempts := by rw [hcount _ rfl]; exact hattempts }

/-! ## The plain attempts -/

theorem Misread.lt {before : Nat} (h : Misread before cs) : before < cs.countP Event.isUnmount := by
  obtain ⟨err, rest, hsuffix, -, -, rfl⟩ := h
  have hle : List.countP Event.isUnmount _ ≤ _ := hsuffix.sublist.countP_le
  rw [List.countP_cons_of_neg (by simp [Event.isUnmount]), List.countP_cons_of_pos rfl] at hle
  omega

/-- What the plain attempts leave, after the commands before them. -/
structure Attempted (left : Nat) (before : Log) (e : AttemptsEnd) (cs : Log) : Prop where
  plain : cs.countP Event.isUnmount ≤ before.countP Event.isUnmount + left + 1
  lazy : cs.countP Event.isLazyUnmount = before.countP Event.isLazyUnmount
  looked : ∃ work rest, cs = .hasUnmountWork work :: rest
  failed : ∀ err, e = .failed err → ∃ work failure rest,
    cs = .hasUnmountWork work :: .unmount failure :: rest ∧ err = failure.getD remainsActive ∧
    (work = false → ∃ cleanup, failure = some cleanup ∧ cleanup.localCleanup = true) ∧
    (isBusyUnmountError err = true →
      rest.countP Event.isUnmount = before.countP Event.isUnmount + left)
  misread : Misread (before.countP Event.isUnmount + left) cs →
    ∃ err, e = .failed err ∧ isBusyUnmountError err = true

variable {left : Nat} {work : Bool} {failure : Option UnmountError}

theorem misread_cons {n : Nat}
    (h : Misread (cs.countP Event.isUnmount + n) (.hasUnmountWork work :: .unmount failure :: cs)) :
    n = 0 ∧ work = false ∧ ∃ err, failure = some err ∧ err.localCleanup = true ∧
      isBusyUnmountError err = true := by
  have hrest : ¬ Misread (cs.countP Event.isUnmount + n) cs := fun h => by
    have := h.lt
    omega
  obtain ⟨err, rest, hsuffix, hlocal, hbusy, hcount⟩ := h
  rcases List.suffix_cons_iff.mp hsuffix with heq | hsuffix
  · cases heq
    exact ⟨by omega, rfl, err, rfl, hlocal, hbusy⟩
  · rcases List.suffix_cons_iff.mp hsuffix with heq | hsuffix
    · cases heq
    · exact absurd ⟨err, rest, hsuffix, hlocal, hbusy, hcount⟩ hrest

theorem countP_attempt : (.hasUnmountWork work :: .unmount failure :: cs).countP Event.isUnmount =
    cs.countP Event.isUnmount + 1 := by
  rw [List.countP_cons_of_neg (by simp [Event.isUnmount]), List.countP_cons_of_pos rfl]

theorem countP_lazy_attempt :
    (.hasUnmountWork work :: .unmount failure :: cs).countP Event.isLazyUnmount =
      cs.countP Event.isLazyUnmount := by
  rw [List.countP_cons_of_neg (by simp [Event.isLazyUnmount]),
    List.countP_cons_of_neg (by simp [Event.isLazyUnmount])]

theorem attempted_released
    (h : work = false ∧ (failure.map UnmountError.localCleanup).getD false = false) :
    Attempted left cs .released (.hasUnmountWork work :: .unmount failure :: cs) := by
  refine ⟨by rw [countP_attempt]; omega, countP_lazy_attempt, ⟨_, _, rfl⟩, (fun _ h => by cases h),
    fun hmisread => ?_⟩
  obtain ⟨-, -, err, rfl, hlocal, -⟩ := misread_cons hmisread
  exact absurd (hlocal.symm.trans h.2) (by decide)

theorem attempted_failed
    (h : ¬ (work = false ∧ (failure.map UnmountError.localCleanup).getD false = false))
    (hbusy : isBusyUnmountError (failure.getD remainsActive) = true → left = 0) :
    Attempted left cs (.failed (failure.getD remainsActive))
      (.hasUnmountWork work :: .unmount failure :: cs) := by
  refine ⟨by rw [countP_attempt]; omega, countP_lazy_attempt, ⟨_, _, rfl⟩, ?_, fun hmisread => ?_⟩
  · rintro err ⟨⟩
    refine ⟨work, failure, cs, rfl, rfl, fun hwork => ?_, fun hb => by rw [hbusy hb]; rfl⟩
    cases failure with
    | none => exact absurd ⟨hwork, rfl⟩ h
    | some cleanup =>
      exact ⟨cleanup, rfl, Bool.of_not_eq_false fun hlocal => h ⟨hwork, hlocal⟩⟩
  · obtain ⟨-, -, err, rfl, -, hb⟩ := misread_cons hmisread
    exact ⟨err, rfl, hb⟩

theorem attempted_cancelled {err : String} :
    Attempted (left + 1) cs (.cancelled err) (.hasUnmountWork work :: .unmount failure :: cs) := by
  refine ⟨by rw [countP_attempt]; omega, countP_lazy_attempt, ⟨_, _, rfl⟩, (fun _ h => by cases h),
    fun hmisread => ?_⟩
  cases (misread_cons hmisread).1

theorem Attempted.next {e : AttemptsEnd} {after : Log}
    (h : Attempted left (.hasUnmountWork work :: .unmount failure :: cs) e after) :
    Attempted (left + 1) cs e after := by
  obtain ⟨hplain, hlazy, hlooked, hfailed, hmisread⟩ := h
  rw [countP_attempt, Nat.add_assoc (cs.countP _), Nat.add_comm 1 left] at hplain hfailed hmisread
  exact ⟨hplain, hlazy.trans countP_lazy_attempt, hlooked, hfailed, hmisread⟩

variable (host) in
theorem attempted_unmountFrom (attempt left : Nat) (log : Log) :
    Attempted left (commands log) (unmountFrom host attempt left log).1.2
      (commands (unmountFrom host attempt left log).2) := by
  induction left generalizing attempt log with
  | zero =>
    rw [unmountFrom]
    dsimp only
    split
    · next hreleased => exact attempted_released hreleased
    · next hkept => exact attempted_failed hkept fun _ => rfl
  | succ left ih =>
    rw [unmountFrom]
    dsimp only
    split
    · next hreleased => exact attempted_released hreleased
    · next hkept =>
      split
      · next hquiet => exact attempted_failed hkept fun hbusy => by rw [hbusy] at hquiet; cases hquiet
      · split
        · exact attempted_cancelled
        · exact (ih (attempt + 1) (.waitUnmountRetry _ :: .hasUnmountWork _ :: .unmount _ :: log)).next

/-! ## A release -/

variable (host force result log) in
theorem commands_detach : ∃ err, commands (detach host force result log).2 =
      .lazyUnmount err :: commands log ∧ (detach host force result log).1.2 ≠ none ∨
    ∃ work, commands (detach host force result log).2 =
      .hasUnmountWork work :: .lazyUnmount err :: commands log := by
  simp only [detach]
  split
  · exact ⟨_, .inl ⟨rfl, (fun h => by cases h)⟩⟩
  · obtain ⟨work, hcommands, -⟩ := ends_finishRelease.2
    exact ⟨_, .inr ⟨work, hcommands⟩⟩

theorem misread_detach {n : Nat} :
    Misread n (commands (detach host force result log).2) ↔ Misread n (commands log) := by
  obtain ⟨err, ⟨hcommands, -⟩ | ⟨work, hcommands⟩⟩ := commands_detach host force log result
  · rw [hcommands]
    simp [Misread, List.suffix_cons_iff]
  · rw [hcommands]
    simp [Misread, List.suffix_cons_iff]

theorem truth_detach (hlazy : (commands log).countP Event.isLazyUnmount = 0)
    (hplain : (commands log).countP Event.isUnmount ≤ unmountAttempts) :
    Truth force (detach host force result log) ↔ Justified force (commands log) := by
  constructor
  · intro h
    obtain ⟨err, ⟨hcommands, -⟩ | ⟨work, hcommands⟩⟩ := commands_detach host force log result
    · exact h.justified err _ (hcommands ▸ List.suffix_refl _)
    · exact h.justified err _ (hcommands ▸ List.suffix_cons _ _)
  · intro hjustified
    have hdetached : ∀ err e before, .lazyUnmount e :: before <:+
        .lazyUnmount err :: commands log → Justified force before := fun err e before h => by
      rcases List.suffix_cons_iff.mp h with heq | h
      · cases heq
        exact hjustified
      · exact absurd h (not_detached hlazy e before)
    simp only [detach]
    split
    · exact
        { clear := fun h => by cases h
          complete := fun h => by cases h
          reference := fun h => by cases h
          directory := fun h => by cases h
          justified := hdetached _
          attempts := hplain }
    · obtain ⟨work, hcommands, hclear⟩ := ends_finishRelease.2
      exact truth_of_ends ends_finishRelease.1 hcommands hclear (fun h => by cases h)
        (fun _ => List.mem_append_right _ List.mem_cons_self) (hdetached _) hplain

variable {n : Nat}

theorem not_misled_nil : ¬ Misread n [] := fun h => Nat.not_lt_zero _ h.lt

variable {before : Bool} {err : UnmountError}

theorem truth_of_released
    (h : Attempted (unmountAttempts - 1) [.hasUnmountWork before] .released (commands log)) :
    Truth force (finishRelease host force { attempts := n } log) ∧
      ¬ Misled force (finishRelease host force { attempts := n } log).2 := by
  obtain ⟨work, hcommands, hclear⟩ := ends_finishRelease.2
  have hlazy := h.lazy
  refine ⟨truth_of_ends ends_finishRelease.1 hcommands hclear (fun _ => hlazy)
    (fun hne => absurd hlazy hne) (fun err before hd => absurd hd (not_detached hlazy err before))
    h.plain, ?_⟩
  rintro ⟨-, err, rest, hsuffix, hlocal, hbusy, hcount⟩
  rw [hcommands] at hsuffix
  rcases List.suffix_cons_iff.mp hsuffix with heq | hsuffix
  · obtain ⟨work', rest', hlooked⟩ := h.looked
    rw [hlooked] at heq
    cases heq
  · obtain ⟨err, herr, -⟩ := h.misread ⟨err, rest, hsuffix, hlocal, hbusy, by rw [hcount]; rfl⟩
    cases herr

theorem truth_of_busy (hbusy : isBusyUnmountError err = true)
    (h : Attempted (unmountAttempts - 1) [.hasUnmountWork before] (.failed err) (commands log)) :
    Truth true (detach host true result log) ↔ ¬ Misled true (detach host true result log).2 := by
  obtain ⟨work, failure, rest, hcommands, rfl, hlocal, hcount⟩ := h.failed err rfl
  have hthird : rest.countP Event.isUnmount = unmountAttempts - 1 := hcount hbusy
  rw [truth_detach h.lazy h.plain, Misled, misread_detach]
  cases work with
  | true =>
    refine iff_of_true ⟨rfl, h.lazy, failure, rest, hcommands, hbusy⟩ fun hmisled => ?_
    have hmisread := hmisled.2
    rw [hcommands, ← hthird] at hmisread
    exact absurd (misread_cons (n := 0) hmisread).2.1 (by decide)
  | false =>
    obtain ⟨cleanup, rfl, hcleanup⟩ := hlocal rfl
    refine iff_of_false ?_ fun hnot =>
      hnot ⟨rfl, cleanup, rest, hcommands ▸ List.suffix_refl _, hcleanup, hbusy, hthird⟩
    rintro ⟨-, -, failure, rest, heq, -⟩
    cases hcommands.symm.trans heq

theorem truth_release : Truth force (unmountWithOptions host force) ↔
    ¬ Misled force (unmountWithOptions host force).2 := by
  simp only [unmountWithOptions]
  split
  · next hcancelled =>
    refine iff_of_true (truth_of_failed ?_ rfl (Nat.zero_le _)) fun h => not_misled_nil h.2
    exact Option.isSome_iff_ne_none.mp hcancelled
  · split
    · exact iff_of_true (truth_of_failed (fun h => by cases h) rfl (Nat.zero_le _))
        fun h => not_misled_nil h.2
    · split
      · next hwork =>
        rw [hwork]
        have hcommands : commands (cleanupDirectory host force {}
            [.hasUnmountWork false, .contextErr (host.contextErr [])]).2 =
              [.hasUnmountWork false] := ends_cleanupDirectory.2
        refine iff_of_true (truth_of_ends ends_cleanupDirectory.1 hcommands (fun _ => rfl)
          (fun _ => rfl) (fun h => absurd rfl h)
          (fun err before h => absurd h (not_detached rfl err before)) (Nat.zero_le _)) fun h => ?_
        have hmisread := h.2.lt
        rw [hcommands] at hmisread
        exact Nat.not_lt_zero _ hmisread
      · have hattempted := attempted_unmountFrom host 1 (unmountAttempts - 1)
          [.hasUnmountWork (host.hasUnmountWork [.contextErr (host.contextErr [])]),
            .contextErr (host.contextErr [])]
        split
        · next hfrom =>
          rw [hfrom] at hattempted
          exact iff_of_true (truth_of_released hattempted).1 (truth_of_released hattempted).2
        · next hfrom =>
          rw [hfrom] at hattempted
          refine iff_of_true (truth_of_failed (fun h => by cases h) hattempted.lazy
            hattempted.plain) fun h => ?_
          obtain ⟨err, herr, -⟩ := hattempted.misread h.2
          cases herr
        · next hfrom =>
          rw [hfrom] at hattempted
          split
          · next hkept =>
            refine iff_of_true (truth_of_failed (fun h => by cases h) hattempted.lazy
              hattempted.plain) fun h => ?_
            obtain ⟨err, herr, hbusy⟩ := hattempted.misread h.2
            cases herr
            rcases hkept with hforce | hquiet
            · exact absurd (h.1.symm.trans hforce) (by decide)
            · exact absurd (hbusy.symm.trans hquiet) (by decide)
          · next hforced =>
            rw [not_or, Bool.not_eq_false, Bool.not_eq_false] at hforced
            rw [hforced.1]
            exact truth_of_busy hforced.2 hattempted

/-! ## A mount -/

theorem validated_mountAndValidate (h : (mountAndValidate host log).1 = none) :
    ∃ past, (mountAndValidate host log).2 = .validateMountedShare none :: past := by
  revert h
  simp only [mountAndValidate]
  split
  · exact fun h => by cases h
  · intro h
    rw [Option.map_eq_none_iff.mp h]
    exact ⟨_, rfl⟩

theorem validated_ensureMounted {repair : Bool} (h : (ensureMounted host repair).1 = none) :
    ∃ past, (ensureMounted host repair).2 = .validateMountedShare none :: past := by
  revert h
  simp only [ensureMounted]
  split
  · next hcancelled =>
    intro h
    rw [Option.map_eq_none_iff.mp h] at hcancelled
    cases hcancelled
  · split
    · exact fun h => by cases h
    · split
      · exact validated_mountAndValidate
      · split
        · next hvalid =>
          rw [hvalid]
          exact fun _ => ⟨_, rfl⟩
        · split
          · exact fun h => by cases h
          · split
            · exact fun h => by cases h
            · exact validated_mountAndValidate

/-- A release and a mount report the truth unless the last attempt of a forced release
misleads it. -/
theorem reports_truth_iff (host : Host) (force repair : Bool) :
    ReportsTruth host force repair ↔ ¬ Misled force (unmountWithOptions host force).2 :=
  ⟨fun h => truth_release.mp h.release, fun h => ⟨truth_release.mpr h, validated_ensureMounted⟩⟩

/-! ## A misled release -/

def misleadingError : UnmountError :=
  { text := "remove SMB junction: remove resource busy: Access is denied.", localCleanup := true }

/-- The share is gone after three attempts, but the junction in a directory with a
misleading name is not. -/
def misleadingHost : Host :=
  { resolved := true
    relative := some ["resource busy"]
    contextErr := fun _ => none
    isMounted := fun _ => false
    hasUnmountWork := fun log => decide (log.countP Event.isUnmount < 3)
    unmount := fun _ => some misleadingError
    lazyUnmount := fun _ => none
    waitUnmountRetry := fun _ => none
    unmountBusyDetails := fun _ => ""
    lstat := fun _ => .other
    remove := fun _ => .removed
    validateMountedShare := fun _ => none
    mountShare := fun _ => none
    spaceInfo := fun _ => none }

theorem not_reports_truth : ¬ ReportsTruth misleadingHost true false := fun h =>
  have hbusy : isBusyUnmountError misleadingError = true := by decide +kernel
  -- the release looked at the table twice more, before and after the lazy detach
  have hthird : Misread 2 ((commands (unmountWithOptions misleadingHost true).2).drop 2) :=
    ⟨misleadingError, _, List.suffix_refl _, rfl, hbusy, rfl⟩
  let ⟨err, rest, hsuffix, hrest⟩ := hthird
  truth_release.mp h.release ⟨rfl, err, rest, hsuffix.trans (List.drop_suffix 2 _), hrest⟩

end HyperFileLens.Nas.MountRelease
