import HyperFileLens.Lens.CapacityReadings

/-!
# What an accounting can be trusted for

The accounting of a workspace is compared with the files that are really there. `StoredFile` is
a file of a snapshot directory, and the selection of a list of scopes is the union of what each
of them selects.

*Trust.*  The files are assumed to agree with every size that was recorded. Two kinds of input
still go wrong. A directory whose size was never recorded counts as empty, and of two scopes
that select one path the first decides what the path counts as.

*Outside.*  A stored scope need not lie in its directory. It selects nothing, but it may make
the accounting fall back on the recorded size (`Accountable.outside`, `Accountable.rootAlone`).
-/

namespace HyperFileLens.Lens

open Coverage

variable {directories : Directories} {organizationId : Int}

/-! ## Files -/

structure StoredFile where
  directory : DirectoryIdentity
  path : List Char
  size : ℕ

def Selects (s : SourceScope) (f : StoredFile) : Prop :=
  scopeDirectoryIdentity s = f.directory ∧ PathCovers s.path f.path

instance (s : SourceScope) : DecidablePred (Selects s) := fun _ => inferInstanceAs (Decidable (_ ∧ _))

def selectedSize (files : List StoredFile) (s : SourceScope) : ℕ :=
  ((files.filter (Selects s ·)).map StoredFile.size).sum

def unionSize (files : List StoredFile) (scopes : List SourceScope) : ℕ :=
  ((files.filter fun f => ∃ s ∈ scopes, Selects s f).map StoredFile.size).sum

def directorySize (files : List StoredFile) (directory : DirectoryIdentity) : ℕ :=
  ((files.filter fun f => f.directory = directory).map StoredFile.size).sum

/-- The size a scope brings along: that of its summary, or that of a file. -/
def SourceScope.stated (directories : Directories) (organizationId : Int) (s : SourceScope) :
    Option Int :=
  if s.hasSummary then s.summary
  else
    match s.directory directories organizationId with
    | none => none
    | some d =>
      if s.path = normalizeScopePath d.sourcePath then none
      else if Text.lower s.typeText = "file" then (legacySize s).1
      else none

/-- The bytes a scope is read as, if they are known. -/
def SourceScope.known (directories : Directories) (organizationId : Int) (s : SourceScope) :
    Option Int :=
  if (s.reading directories organizationId).2 then none
  else some (s.reading directories organizationId).1

def SourceScope.rootSize (directories : Directories) (organizationId : Int) (s : SourceScope) :
    Option Int :=
  match s.directory directories organizationId with
  | none => none
  | some d => if s.path = normalizeScopePath d.sourcePath then some d.sizeBytes else none

def SourceScope.sized (directories : Directories) (organizationId : Int) (s : SourceScope) :
    Option Int :=
  (s.known directories organizationId).or (s.rootSize directories organizationId)

/-- A scope selects something of a directory: a path of it, or one above it. -/
def SourceScope.Meets (s : SourceScope) (d : BackupSourceSnapshotDirectory) : Prop :=
  PathCovers s.path (normalizeScopePath d.sourcePath) ∨
    PathCovers (normalizeScopePath d.sourcePath) s.path

/-- The files agree with the sizes that were recorded: with those that scopes bring along, and
with the size of a directory unless it is zero, which may mean that it was never recorded. -/
structure Truthful (directories : Directories) (organizationId : Int)
    (scopes : List SourceScope) (files : List StoredFile) : Prop where
  stated : ∀ s ∈ scopes, ∀ n, s.stated directories organizationId = some n →
    (selectedSize files s : ℤ) = n
  inside : ∀ s ∈ scopes, ∀ d, s.directory directories organizationId = some d → ∀ f ∈ files,
    f.directory = scopeDirectoryIdentity s → PathCovers (normalizeScopePath d.sourcePath) f.path
  recorded : ∀ s ∈ scopes, ∀ d, s.directory directories organizationId = some d →
    d.sizeBytes = 0 ∨ d.sizeBytes = directorySize files (scopeDirectoryIdentity s)

/-- The accounting of every list of these scopes counts at least their union, exactly if it says
so, and in every order alike. -/
def NeverUndercounts (directories : Directories) (organizationId : Int)
    (D : SourceScope → Prop) : Prop :=
  ∀ scopes : List SourceScope, (∀ s ∈ scopes, D s) →
    (∀ files, Truthful directories organizationId scopes files →
      ((workspaceCapacityAccounting directories organizationId scopes).2 = .exact ∨
          (workspaceCapacityAccounting directories organizationId scopes).2 = .conservative →
        (unionSize files scopes : ℤ) ≤
          (workspaceCapacityAccounting directories organizationId scopes).1) ∧
      ((workspaceCapacityAccounting directories organizationId scopes).2 = .exact →
        (workspaceCapacityAccounting directories organizationId scopes).1 =
          unionSize files scopes)) ∧
    ∀ scopes' : List SourceScope, scopes'.Perm scopes →
      workspaceCapacityAccounting directories organizationId scopes' =
        workspaceCapacityAccounting directories organizationId scopes

structure Accountable (directories : Directories) (organizationId : Int)
    (D : SourceScope → Prop) : Prop where
  /-- Scopes that select one path of one directory count alike. -/
  alike : ∀ s t, D s → D t → s.selection = t.selection →
    s.sized directories organizationId = t.sized directories organizationId
  recorded : ∀ s, D s → ∀ d, s.directory directories organizationId = some d → d.sizeBytes = 0 →
    s.Meets d → s.stated directories organizationId ≠ none
  /-- No scope outside an unrecorded directory makes the accounting fall back on the size of
  that directory, while another scope brings a size along. -/
  outside : ∀ s t, D s → D t → ∀ d, s.directory directories organizationId = some d →
    scopeDirectoryIdentity s = scopeDirectoryIdentity t → d.sizeBytes = 0 → ¬s.Meets d →
    s.known directories organizationId = none → t.Meets d → ¬PathCovers t.path s.path →
    ∀ n, t.stated directories organizationId = some n → n = 0
  /-- No scope outside a directory adds bytes, where the root is selected with a size and
  without one. -/
  rootAlone : ∀ s t o, D s → D t → D o → ∀ d, s.directory directories organizationId = some d →
    s.path = normalizeScopePath d.sourcePath → s.selection = t.selection →
    scopeDirectoryIdentity o = scopeDirectoryIdentity s → ¬o.Meets d →
    s.known directories organizationId ≠ none → t.known directories organizationId = none →
    ∀ n, o.known directories organizationId = some n → n = 0

/-! ## Known sizes -/

variable {s : SourceScope} {n : Int}

variable {d : BackupSourceSnapshotDirectory} {k : Int} {t : SourceScope}

theorem directory_eq_some (h : s.directory directories organizationId = some d) :
    ∃ k, s.directoryId = some k ∧ accountingDirectory directories organizationId k = some d :=
  Option.bind_eq_some_iff.mp h

theorem directory_of_id (h : s.directoryId = some k) :
    s.directory directories organizationId = accountingDirectory directories organizationId k := by
  rw [SourceScope.directoryId] at h
  rw [SourceScope.directory, h, Option.bind_some]

theorem directory_of_none (h : s.directoryId = none) :
    s.directory directories organizationId = none := by
  rw [SourceScope.directoryId] at h
  rw [SourceScope.directory, h, Option.bind_none]

theorem directoryId_iff : s.directoryId = some k ↔ scopeDirectoryIdentity s = .id k := by
  rw [SourceScope.directoryId, scopeDirectoryIdentity]
  cases s.backupSnapshotDirectoryId.pyInt with
  | none =>
    simp only [reduceCtorEq, false_iff]
    split
    · simp
    · simp
  | some n => simp

theorem directoryId_congr (h : scopeDirectoryIdentity s = scopeDirectoryIdentity t) :
    s.directoryId = t.directoryId := by
  apply Option.ext
  intro k
  rw [directoryId_iff, directoryId_iff, h]

theorem directory_congr (h : scopeDirectoryIdentity s = scopeDirectoryIdentity t) :
    s.directory directories organizationId = t.directory directories organizationId := by
  have hid : s.backupSnapshotDirectoryId.pyInt = t.backupSnapshotDirectoryId.pyInt :=
    directoryId_congr h
  rw [SourceScope.directory, SourceScope.directory, hid]

theorem legacySize_known (h : (legacySize s).1 = some n) :
    (legacySize s).2 = false ∧ 0 ≤ n ∧ n ≤ maxBigint := by
  rw [legacySize] at h ⊢
  split at h
  case isTrue => cases h
  case isFalse hnull =>
    rw [if_neg hnull]
    cases hstored : exactStoredInt s.sizeBytes with
    | none =>
      rw [hstored] at h
      cases h
    | some m =>
      rw [hstored] at h
      dsimp only at h ⊢
      split at h
      case isTrue => cases h
      case isFalse hnonneg =>
        cases h
        have hrange := (Option.filter_eq_some_iff.mp hstored).2
        rw [decide_eq_true_eq] at hrange
        rw [if_neg hnonneg]
        exact ⟨rfl, by omega, hrange.2⟩

theorem summary_known (h : s.summary = some n) : 0 ≤ n ∧ n ≤ maxBigint := by
  rw [SourceScope.summary] at h
  cases hsize : exactStoredInt s.sizeBytes with
  | none =>
    rw [hsize] at h
    cases h
  | some sizeBytes =>
    rw [hsize] at h
    cases hcount : exactStoredInt s.fileCount with
    | none =>
      rw [hcount] at h
      cases h
    | some fileCount =>
      rw [hcount] at h
      dsimp only at h
      split at h
      case isFalse => cases h
      case isTrue hvalid =>
        cases h
        have hrange := (Option.filter_eq_some_iff.mp hsize).2
        simp only [summaryValid, Bool.and_eq_true, decide_eq_true_eq] at hvalid hrange
        exact ⟨hvalid.1.1.2, hrange.2⟩

theorem known_of_stated (h : s.stated directories organizationId = some n) :
    s.known directories organizationId = some n := by
  rw [SourceScope.stated] at h
  rw [SourceScope.known, SourceScope.reading]
  cases hsummary : s.hasSummary with
  | true =>
    rw [hsummary, if_pos rfl] at h
    simp [h]
  | false =>
    rw [hsummary, if_neg Bool.false_ne_true] at h
    simp only [Bool.false_eq_true, if_false]
    cases hd : s.directory directories organizationId with
    | none =>
      rw [hd] at h
      cases h
    | some d =>
      rw [hd] at h
      dsimp only at h
      split at h
      case isTrue => cases h
      case isFalse hroot =>
        split at h
        case isFalse => cases h
        case isTrue hfile =>
          have hroot' : ¬normalizeScopePath s.sourcePath = normalizeScopePath d.sourcePath :=
            hroot
          obtain ⟨hvalid, -, -⟩ := legacySize_known h
          simp [legacyReading, hroot', hfile, h, hvalid]

theorem stated_or_root (h : s.known directories organizationId = some n) :
    s.stated directories organizationId = some n ∨ (s.stated directories organizationId = none ∧
        s.rootSize directories organizationId = some n) := by
  rw [SourceScope.known, SourceScope.reading] at h
  rw [SourceScope.stated, SourceScope.rootSize]
  cases hsummary : s.hasSummary with
  | true =>
    rw [hsummary] at h
    simp only [if_true] at h ⊢
    cases hstored : s.summary with
    | none => simp [hstored] at h
    | some m =>
      left
      simpa [hstored] using h
  | false =>
    rw [hsummary] at h
    simp only [Bool.false_eq_true, if_false] at h ⊢
    cases hd : s.directory directories organizationId with
    | none => simp [hd] at h
    | some d =>
      simp only [hd, legacyReading] at h
      by_cases hroot : normalizeScopePath s.sourcePath = normalizeScopePath d.sourcePath
      · have hroot' : s.path = normalizeScopePath d.sourcePath := hroot
        right
        cases hvalid : (legacySize s).2 with
        | true => simp [hvalid] at h
        | false =>
          simp only [hroot, hvalid, if_true, Bool.or_false, Bool.false_eq_true,
            if_false] at h
          simp [hroot', h]
      · have hroot' : ¬s.path = normalizeScopePath d.sourcePath := hroot
        left
        simp only [hroot', if_false]
        simp only [hroot, if_false] at h
        by_cases hfile : Text.lower s.typeText = "file"
        · simp only [hfile, if_true] at h ⊢
          cases hsize : (legacySize s).1 with
          | none => simp [hsize] at h
          | some m => simpa [hsize, (legacySize_known hsize).1] using h
        · simp [hfile] at h

theorem rootSize_eq (h : s.rootSize directories organizationId = some n) :
    ∃ d, s.directory directories organizationId = some d ∧
      s.path = normalizeScopePath d.sourcePath ∧ d.sizeBytes = n := by
  rw [SourceScope.rootSize] at h
  cases hd : s.directory directories organizationId with
  | none =>
    rw [hd] at h
    cases h
  | some d =>
    rw [hd] at h
    dsimp only at h
    split at h
    case isFalse => cases h
    case isTrue hroot => exact ⟨d, rfl, hroot, Option.some.inj h⟩

theorem rootSize_of_root (h : s.directory directories organizationId = some d)
    (hroot : s.path = normalizeScopePath d.sourcePath) :
    s.rootSize directories organizationId = some d.sizeBytes := by
  rw [SourceScope.rootSize, h]
  exact if_pos hroot

theorem stated_known (h : s.stated directories organizationId = some n) :
    0 ≤ n ∧ n ≤ maxBigint := by
  rw [SourceScope.stated] at h
  split at h
  case isTrue => exact summary_known h
  case isFalse =>
    split at h
    case h_1 => cases h
    case h_2 =>
      split at h
      case isTrue => cases h
      case isFalse =>
        split at h
        case isFalse => cases h
        case isTrue => exact (legacySize_known h).2

section

variable (h : s.known directories organizationId = some n)

include h

theorem known_range : 0 ≤ n ∧ n ≤ maxBigint := by
  cases stated_or_root h with
  | inl hstated => exact stated_known hstated
  | inr hroot =>
    obtain ⟨d, -, -, rfl⟩ := rootSize_eq hroot.2
    exact ⟨d.size_nonneg, d.size_le⟩

theorem sized_of_known : s.sized directories organizationId = some n := by
  rw [SourceScope.sized, h, Option.some_or]

theorem reading_of_known : s.reading directories organizationId = (n, false) := by
  rw [SourceScope.known] at h
  split at h
  case isTrue => cases h
  case isFalse hknown =>
    cases h
    exact Prod.ext rfl (eq_false_of_ne_true hknown)

end

theorem known_eq_none : s.known directories organizationId = none ↔
    (s.reading directories organizationId).2 = true := by
  rw [SourceScope.known]
  split
  case isTrue h => simp [h]
  case isFalse h => simp [h]

theorem stated_eq_none (h : s.known directories organizationId = none) :
    s.stated directories organizationId = none := by
  cases hstated : s.stated directories organizationId with
  | none => rfl
  | some n =>
    rw [known_of_stated hstated] at h
    cases h

theorem reading_of_unknown (hd : s.directory directories organizationId = none)
    (h : s.known directories organizationId = none) :
    s.reading directories organizationId = (0, true) := by
  have hunknown := known_eq_none.mp h
  rw [SourceScope.reading] at hunknown ⊢
  split at hunknown
  case isTrue hsummary =>
    rw [if_pos hsummary]
    cases hstored : s.summary with
    | none => rfl
    | some n => simp [hstored] at hunknown
  case isFalse hsummary =>
    rw [if_neg hsummary, hd]

/-! ## Bounds -/

/-- An outcome bounds a size, and says so if it is not exact. -/
structure Sound (o : Int × CapacityAccountingStatus) (size : ℕ) : Prop where
  settled : o.2 ≠ .pending
  bound : o.2 ≠ .unknown → (size : ℤ) ≤ o.1
  exact : o.2 = .exact → o.1 = size

variable {size : ℕ}

theorem Sound.unknown : Sound (n, .unknown) size :=
  ⟨by simp, fun h => absurd rfl h, by simp⟩

theorem Sound.of_eq (h : n = size) : Sound (n, .exact) size :=
  ⟨by simp, fun _ => Int.le_of_eq h.symm, fun _ => h⟩

theorem Sound.bounded {o : Int × CapacityAccountingStatus} (h : Sound o size) :
    Sound (boundedTotal o) size := by
  rw [boundedTotal]
  split
  · exact Sound.unknown
  · exact h

theorem sound_settleAll {os : List (Int × CapacityAccountingStatus)} {sizes : List ℕ}
    (h : List.Forall₂ Sound os sizes) : Sound (settleAll os) sizes.sum := by
  have hbound : (∀ o ∈ os, o.2 ≠ .unknown) → (sizes.sum : ℤ) ≤ (os.map Prod.fst).sum := by
    intro hall
    induction h with
    | nil => simp
    | cons hhead _ ih =>
      have htail := ih fun o ho => hall o (List.mem_cons_of_mem _ ho)
      have hfirst := hhead.bound (hall _ List.mem_cons_self)
      rw [List.sum_cons, List.map_cons, List.sum_cons, Nat.cast_add]
      omega
  have hexact : (∀ o ∈ os, o.2 = .exact) → (os.map Prod.fst).sum = (sizes.sum : ℤ) := by
    intro hall
    clear hbound
    induction h with
    | nil => simp
    | cons hhead _ ih =>
      have htail := ih fun o ho => hall o (List.mem_cons_of_mem _ ho)
      have hfirst := hhead.exact (hall _ List.mem_cons_self)
      rw [List.sum_cons, List.map_cons, List.sum_cons, Nat.cast_add]
      omega
  have hsettled : ∀ o ∈ os, o.2 ≠ .pending := by
    clear hbound hexact
    induction h with
    | nil => simp
    | cons hhead _ ih =>
      intro o ho
      cases List.mem_cons.mp ho with
      | inl heq => exact heq ▸ hhead.settled
      | inr ho => exact ih o ho
  by_cases hunknown : ∃ o ∈ os, o.2 = CapacityAccountingStatus.unknown
  · rw [settleAll, if_pos hunknown]
    exact Sound.unknown
  · have hnone : ∀ o ∈ os, o.2 ≠ .unknown := fun o ho heq => hunknown ⟨o, ho, heq⟩
    rw [settleAll, if_neg hunknown]
    by_cases hconservative : ∃ o ∈ os, o.2 = CapacityAccountingStatus.conservative
    · rw [if_pos hconservative]
      exact ⟨by simp, fun _ => hbound hnone, by simp⟩
    · rw [if_neg hconservative]
      refine Sound.of_eq (hexact fun o ho => ?_)
      cases hstatus : o.2 with
      | exact => rfl
      | pending => exact absurd hstatus (hsettled o ho)
      | unknown => exact absurd hstatus (hnone o ho)
      | conservative => exact absurd ⟨o, ho, hstatus⟩ hconservative

section Files

variable {files : List StoredFile} {D : SourceScope → Prop} {scopes : List SourceScope}

variable {s : SourceScope} {es : List SourceScope} {d : BackupSourceSnapshotDirectory}

theorem selects_apart {t : SourceScope} (h : ¬Covers s t ∧ ¬Covers t s) {f : StoredFile}
    (hs : Selects s f) : ¬Selects t f := by
  intro ht
  have hsame : scopeDirectoryIdentity s = scopeDirectoryIdentity t := hs.1.trans ht.1.symm
  cases hs.2.comparable ht.2 with
  | inl hcovers => exact h.1 ⟨hsame, hcovers⟩
  | inr hcovers => exact h.2 ⟨hsame.symm, hcovers⟩

theorem unionSize_eq (files : List StoredFile) (candidates : List SourceScope) :
    unionSize files candidates = ((capacityEntries candidates).map (selectedSize files)).sum := by
  refine (spans_capacityEntries candidates).sum_filter Selects ?_ ?_ _ _
  · intro s t f hcovers ht
    exact ⟨hcovers.1.trans ht.1, hcovers.2.trans ht.2⟩
  · intro s t f hs ht
    have hsame : scopeDirectoryIdentity s = scopeDirectoryIdentity t := hs.1.trans ht.1.symm
    cases hs.2.comparable ht.2 with
    | inl hcovers => exact Or.inl ⟨hsame, hcovers⟩
    | inr hcovers => exact Or.inr ⟨hsame.symm, hcovers⟩

theorem sum_filter_le {p q : StoredFile → Prop} [DecidablePred p] [DecidablePred q]
    (h : ∀ f ∈ files, p f → q f) : ((files.filter (p ·)).map StoredFile.size).sum ≤
      ((files.filter (q ·)).map StoredFile.size).sum := by
  induction files with
  | nil => exact Nat.le_refl _
  | cons f files ih =>
    have hrest := ih fun g hg => h g (List.mem_cons_of_mem _ hg)
    have hfirst := h f List.mem_cons_self
    by_cases hp : p f
    · simp only [List.filter_cons, hp, hfirst hp, decide_true, if_true, List.map_cons,
        List.sum_cons]
      omega
    · by_cases hq : q f
      · simp only [List.filter_cons, hp, hq, decide_true, decide_false, Bool.false_eq_true,
          if_true, if_false, List.map_cons, List.sum_cons]
        omega
      · simpa only [List.filter_cons, hp, hq, decide_false, Bool.false_eq_true,
          if_false] using hrest

theorem sum_selectedSize_le {i : DirectoryIdentity}
    (hapart : es.Pairwise fun s t => ¬Covers s t ∧ ¬Covers t s)
    (hidentity : ∀ s ∈ es, scopeDirectoryIdentity s = i) :
    (es.map (selectedSize files)).sum ≤ directorySize files i := by
  have hunion := sum_filter_of_apart Selects StoredFile.size files
    (hapart.imp fun h f _ => selects_apart h)
  refine hunion.symm.le.trans (sum_filter_le fun f _ hf => ?_)
  obtain ⟨s, hs, hselects⟩ := hf
  exact hselects.1.symm.trans (hidentity s hs)

theorem selectedSize_root (htrue : Truthful directories organizationId scopes files)
    (hs : s ∈ scopes) (hd : s.directory directories organizationId = some d)
    (hroot : s.path = normalizeScopePath d.sourcePath) :
    selectedSize files s = directorySize files (scopeDirectoryIdentity s) := by
  refine Nat.le_antisymm (sum_filter_le fun f _ hf => hf.1.symm) (sum_filter_le fun f hf hin => ?_)
  refine ⟨hin.symm, ?_⟩
  rw [hroot]
  exact htrue.inside s hs d hd f hf hin

theorem selectedSize_outside (htrue : Truthful directories organizationId scopes files)
    (hs : s ∈ scopes) (hd : s.directory directories organizationId = some d) (hout : ¬s.Meets d) :
    selectedSize files s = 0 := by
  have hnone : files.filter (Selects s ·) = [] := by
    rw [List.filter_eq_nil_iff]
    intro f hf hselects
    rw [decide_eq_true_eq] at hselects
    exact hout (hselects.2.comparable (htrue.inside s hs d hd f hf hselects.1.symm))
  rw [selectedSize, hnone]
  rfl

section

variable (haccountable : Accountable directories organizationId D)

include haccountable

section

variable (htrue : Truthful directories organizationId scopes files)

include htrue

variable {k : Int}

theorem selectedSize_of_known (hs : s ∈ scopes) (hD : D s) {n : Int}
    (h : s.known directories organizationId = some n) : n = (selectedSize files s : ℤ) := by
  cases stated_or_root h with
  | inl hstated => exact (htrue.stated s hs n hstated).symm
  | inr hroot =>
    obtain ⟨hstated, hsize⟩ := hroot
    obtain ⟨d, hd, hpath, rfl⟩ := rootSize_eq hsize
    rw [selectedSize_root htrue hs hd hpath]
    cases htrue.recorded s hs d hd with
    | inr hrecorded => exact hrecorded
    | inl hzero =>
      have hmeets : s.Meets d := Or.inl (Or.inl hpath.symm)
      exact absurd hstated (haccountable.recorded s hD d hd hzero hmeets)

theorem sound_of_known (hsub : ∀ s ∈ es, s ∈ scopes)
    (hD : ∀ s ∈ es, D s) (hknown : ∀ s ∈ es, (s.reading directories organizationId).2 = false)
    (directory : Option BackupSourceSnapshotDirectory) :
    Sound (outcome directories organizationId directory es) (es.map (selectedSize files)).sum := by
  have heach : ∀ s ∈ es, (s.reading directories organizationId).1 = (selectedSize files s : ℤ) := by
    intro s hs
    have hsome : s.known directories organizationId =
        some (s.reading directories organizationId).1 := by
      rw [SourceScope.known, hknown s hs]
      rfl
    exact selectedSize_of_known haccountable htrue (hsub s hs) (hD s hs) hsome
  have hsum : (es.map fun s => (s.reading directories organizationId).1).sum =
      ((es.map (selectedSize files)).sum : ℕ) := by
    rw [List.map_congr_left heach, Nat.cast_list_sum, List.map_map]
    rfl
  rw [outcome_of_known hknown]
  exact Sound.of_eq hsum

theorem sum_selectedSize_unrecorded (hsub : ∀ s ∈ es, s ∈ scopes) (hD : ∀ s ∈ es, D s)
    (hid : ∀ s ∈ es, s.directoryId = some k)
    (hd : accountingDirectory directories organizationId k = some d) (hzero : d.sizeBytes = 0)
    (hapart : es.Pairwise fun s t => ¬Covers s t ∧ ¬Covers t s)
    (hunknown : ∃ s ∈ es, (s.reading directories organizationId).2 = true) :
    (es.map (selectedSize files)).sum = 0 := by
  obtain ⟨u, hu, hreading⟩ := hunknown
  have hdirectory : ∀ s ∈ es, s.directory directories organizationId = some d := fun s hs =>
    (directory_of_id (hid s hs)).trans hd
  have hunknown : u.known directories organizationId = none := known_eq_none.mpr hreading
  have hout : ¬u.Meets d := fun hmeets =>
    haccountable.recorded u (hD u hu) d (hdirectory u hu) hzero hmeets (stated_eq_none hunknown)
  refine List.sum_eq_zero fun n hn => ?_
  obtain ⟨s, hs, rfl⟩ := List.mem_map.mp hn
  by_cases hmeets : s.Meets d
  · have hsame : scopeDirectoryIdentity u = scopeDirectoryIdentity s :=
      (directoryId_iff.mp (hid u hu)).trans (directoryId_iff.mp (hid s hs)).symm
    have hne : s ≠ u := fun heq => hout (heq ▸ hmeets)
    have hsymm : Std.Symm fun s t => ¬Covers s t ∧ ¬Covers t s := ⟨fun _ _ h => ⟨h.2, h.1⟩⟩
    have hnot := hapart.forall hs hu hne
    have hpath : ¬PathCovers s.path u.path := fun hcovers => hnot.1 ⟨hsame.symm, hcovers⟩
    obtain ⟨m, hstated⟩ := Option.ne_none_iff_exists'.mp
      (haccountable.recorded s (hD s hs) d (hdirectory s hs) hzero hmeets)
    have hm := haccountable.outside u s (hD u hu) (hD s hs) d (hdirectory u hu) hsame hzero hout
      hunknown hmeets hpath m hstated
    have htruth := htrue.stated s (hsub s hs) m hstated
    omega
  · exact selectedSize_outside htrue (hsub s hs) (hdirectory s hs) hmeets

theorem sound_no_row (hsub : ∀ s ∈ es, s ∈ scopes) (hD : ∀ s ∈ es, D s) :
    Sound (outcome directories organizationId none es) (es.map (selectedSize files)).sum := by
  cases hany : es.any fun s => (s.reading directories organizationId).2 with
  | true =>
    simp only [outcome, hany, if_true]
    exact Sound.unknown
  | false =>
    have hknown : ∀ s ∈ es, (s.reading directories organizationId).2 = false := fun s hs =>
      eq_false_of_ne_true (List.any_eq_false.mp hany s hs)
    exact sound_of_known haccountable htrue hsub hD hknown none

theorem sound_group (hsub : ∀ s ∈ es, s ∈ scopes) (hD : ∀ s ∈ es, D s)
    (hid : ∀ s ∈ es, s.directoryId = some k)
    (hapart : es.Pairwise fun s t => ¬Covers s t ∧ ¬Covers t s) :
    Sound (outcome directories organizationId (accountingDirectory directories organizationId k) es)
      (es.map (selectedSize files)).sum := by
  by_cases hunknown : ∃ s ∈ es, (s.reading directories organizationId).2 = true
  · cases hd : accountingDirectory directories organizationId k with
    | none => exact sound_no_row haccountable htrue hsub hD
    | some d =>
      rw [outcome_of_unknown hunknown, max_eq_right d.size_nonneg]
      have hidentity : ∀ s ∈ es, scopeDirectoryIdentity s = .id k := fun s hs =>
        directoryId_iff.mp (hid s hs)
      have hle : (es.map (selectedSize files)).sum ≤ directorySize files (.id k) :=
        sum_selectedSize_le hapart hidentity
      have hdirectory : ∀ s ∈ es, s.directory directories organizationId = some d :=
        fun s hs => (directory_of_id (hid s hs)).trans hd
      have hsize : d.sizeBytes = 0 ∧ (es.map (selectedSize files)).sum = 0 ∨
          d.sizeBytes = directorySize files (.id k) := by
        obtain ⟨u, hu, hreading⟩ := hunknown
        cases htrue.recorded u (hsub u hu) d (hdirectory u hu) with
        | inl hzero =>
          exact Or.inl ⟨hzero, sum_selectedSize_unrecorded haccountable htrue hsub hD hid hd
            hzero hapart ⟨u, hu, hreading⟩⟩
        | inr hrecorded =>
          rw [hidentity u hu] at hrecorded
          exact Or.inr hrecorded
      refine ⟨?_, fun _ => ?_, fun hexact => ?_⟩
      · dsimp only
        split
        · simp
        · simp
      · cases hsize with
        | inl hzero => omega
        | inr hrecorded =>
          dsimp only
          omega
      · cases hsize with
        | inl hzero => omega
        | inr hrecorded =>
          have hroot : ∃ s ∈ es, s.path = normalizeScopePath d.sourcePath := by
            by_contra hnone
            rw [if_neg hnone] at hexact
            cases hexact
          obtain ⟨s, hs, hpath⟩ := hroot
          have hwhole := selectedSize_root htrue (hsub s hs) (hdirectory s hs) hpath
          rw [hidentity s hs] at hwhole
          have hpart : selectedSize files s ≤ (es.map (selectedSize files)).sum :=
            List.single_le_sum (fun _ _ => Nat.zero_le _) _ (List.mem_map_of_mem hs)
          dsimp only
          omega
  · have hknown : ∀ s ∈ es, (s.reading directories organizationId).2 = false := fun s hs =>
      eq_false_of_ne_true fun h => hunknown ⟨s, hs, h⟩
    exact sound_of_known haccountable htrue hsub hD hknown _

end

end

theorem sound_accounting (horganization : 0 < organizationId)
    (haccountable : Accountable directories organizationId D)
    (htrue : Truthful directories organizationId scopes files) (hD : ∀ s ∈ scopes, D s)
    (hne : scopes ≠ []) :
    Sound (workspaceCapacityAccounting directories organizationId scopes)
      (unionSize files scopes) := by
  have hspans := spans_capacityEntries scopes
  have hentries : ∀ s ∈ capacityEntries scopes, D s := fun s hs => hD s (hspans.sub s hs)
  rw [workspaceCapacityAccounting_eq horganization hne, unionSize_eq,
    ← sum_grouped (selectedSize files) (capacityEntries scopes), ← List.sum_append, outcomes]
  refine (sound_settleAll (List.rel_append ?_ ?_)).bounded
  · rw [List.forall₂_map_left_iff, List.forall₂_map_right_iff, List.forall₂_same]
    intro s hs
    have hmem := (mem_ungrouped.mp hs).1
    have hone := sound_no_row haccountable htrue (List.forall_mem_singleton.mpr (hspans.sub s hmem))
      (List.forall_mem_singleton.mpr (hentries s hmem))
    simpa using hone
  · rw [List.forall₂_map_left_iff, List.forall₂_map_right_iff, List.forall₂_same]
    intro group hgroup
    have hmembers := (mem_grouped.mp hgroup).2
    have hfilter : ∀ s ∈ group.2, s ∈ capacityEntries scopes ∧ s.directoryId = some group.1 := by
      intro s hs
      rw [hmembers, List.mem_filter, decide_eq_true_eq] at hs
      exact hs
    refine sound_group haccountable htrue (fun s hs => hspans.sub s (hfilter s hs).1)
      (fun s hs => hentries s (hfilter s hs).1) (fun s hs => (hfilter s hs).2) ?_
    rw [hmembers]
    exact hspans.apart.filter _

end Files

/-! ## Order -/

section Order

variable {D : SourceScope → Prop}

/-- The reading of a scope with a known size, or without a row. -/
def knownReading : Option Int → Int × Bool
  | none => (0, true)
  | some n => (n, false)

variable {es es' : List SourceScope}

variable {s : SourceScope} {d : BackupSourceSnapshotDirectory} {k : Int} {scopes : List SourceScope}

theorem reading_eq (h : s.known directories organizationId ≠ none ∨
    s.directory directories organizationId = none) :
    s.reading directories organizationId =
      knownReading (s.known directories organizationId) := by
  cases hknown : s.known directories organizationId with
  | some n => exact reading_of_known hknown
  | none =>
    cases h with
    | inl hne => exact absurd hknown hne
    | inr hd => exact reading_of_unknown hd hknown

/-- Entries without a row, or with known sizes, that read alike have one outcome. -/
theorem outcome_congr_readings {directory : Option BackupSourceSnapshotDirectory}
    (hperm : (es.map fun s => s.known directories organizationId).Perm
      (es'.map fun s => s.known directories organizationId))
    (h : ∀ s, s ∈ es ∨ s ∈ es' → s.known directories organizationId ≠ none ∨
      s.directory directories organizationId = none)
    (hdirectory : directory = none ∨ ∀ s ∈ es, s.known directories organizationId ≠ none) :
    outcome directories organizationId directory es =
      outcome directories organizationId directory es' := by
  have hmap : ∀ {xs : List SourceScope}, (∀ s ∈ xs, s ∈ es ∨ s ∈ es') →
      xs.map (fun s => s.reading directories organizationId) =
        (xs.map fun s => s.known directories organizationId).map knownReading := by
    intro xs hsub
    rw [List.map_map]
    exact List.map_congr_left fun s hs => reading_eq (h s (hsub s hs))
  have hreadings : (es.map fun s => s.reading directories organizationId).Perm
      (es'.map fun s => s.reading directories organizationId) := by
    rw [hmap fun s hs => Or.inl hs, hmap fun s hs => Or.inr hs]
    exact hperm.map knownReading
  have hbytes : (es.map fun s => (s.reading directories organizationId).1).sum =
      (es'.map fun s => (s.reading directories organizationId).1).sum := by
    have hsum := (hreadings.map Prod.fst).sum_eq
    rwa [List.map_map, List.map_map] at hsum
  have hany : (es.any fun s => (s.reading directories organizationId).2) =
      es'.any fun s => (s.reading directories organizationId).2 := by
    have hboth := (hreadings.map Prod.snd).any_eq (f := id)
    rwa [List.map_map, List.map_map, List.any_map, List.any_map] at hboth
  simp only [outcome, hbytes, hany]
  cases hdirectory with
  | inl hnone => rw [hnone]
  | inr hknown =>
    have hfalse : (es'.any fun s => (s.reading directories organizationId).2) = false := by
      rw [← hany, List.any_eq_false]
      intro s hs hunknown
      exact hknown s hs (known_eq_none.mpr hunknown)
    simp only [hfalse, Bool.false_eq_true, if_false]

theorem outcome_congr_unknown
    (hselection : (es.map SourceScope.selection).Perm (es'.map SourceScope.selection))
    (hunknown : ∃ s ∈ es, s.known directories organizationId = none)
    (hunknown' : ∃ s ∈ es', s.known directories organizationId = none) :
    outcome directories organizationId (some d) es =
      outcome directories organizationId (some d) es' := by
  have hroot : (∃ s ∈ es, s.path = normalizeScopePath d.sourcePath) ↔
      ∃ s ∈ es', s.path = normalizeScopePath d.sourcePath := by
    have hmem : ∀ xs : List SourceScope, (∃ s ∈ xs, s.path = normalizeScopePath d.sourcePath) ↔
        ∃ key ∈ xs.map SourceScope.selection, key.2 = normalizeScopePath d.sourcePath := by
      intro xs
      simp [SourceScope.selection]
    rw [hmem, hmem]
    simp only [hselection.mem_iff]
  simp only [known_eq_none] at hunknown hunknown'
  rw [outcome_of_unknown hunknown, outcome_of_unknown hunknown']
  simp only [hroot]

/-- With a scope for the root that may be unknown, a directory counts as its size. -/
theorem outcome_of_twin (haccountable : Accountable directories organizationId D)
    (hD : ∀ s ∈ es, D s) (hid : ∀ s ∈ es, s.directoryId = some k)
    (hd : accountingDirectory directories organizationId k = some d)
    (hapart : es.Pairwise fun s t => ¬Covers s t ∧ ¬Covers t s) {t : SourceScope} (hs : s ∈ es)
    (hroot : s.path = normalizeScopePath d.sourcePath) (ht : D t)
    (htwin : s.selection = t.selection) (hunknown : t.known directories organizationId = none) :
    outcome directories organizationId (some d) es = (d.sizeBytes, .exact) := by
  have hdirectory : ∀ e ∈ es, e.directory directories organizationId = some d := fun e he =>
    (directory_of_id (hid e he)).trans hd
  by_cases hany : ∃ e ∈ es, e.known directories organizationId = none
  · simp only [known_eq_none] at hany
    rw [outcome_of_unknown hany, max_eq_right d.size_nonneg, if_pos ⟨s, hs, hroot⟩]
  · have hall : ∀ e ∈ es, e.known directories organizationId ≠ none := fun e he h =>
      hany ⟨e, he, h⟩
    have hknown : ∀ e ∈ es, (e.reading directories organizationId).2 = false := fun e he =>
      eq_false_of_ne_true fun h => hall e he (known_eq_none.mpr h)
    rw [outcome_of_known hknown]
    have hsize : (s.reading directories organizationId).1 = d.sizeBytes := by
      obtain ⟨n, hn⟩ := Option.ne_none_iff_exists'.mp (hall s hs)
      have halike := haccountable.alike s t (hD s hs) ht htwin
      have htdirectory : t.directory directories organizationId = some d :=
        (directory_congr (congrArg Prod.fst htwin)).symm.trans (hdirectory s hs)
      have htroot : t.path = normalizeScopePath d.sourcePath :=
        (congrArg Prod.snd htwin).symm.trans hroot
      rw [sized_of_known hn, SourceScope.sized, hunknown, Option.none_or,
        rootSize_of_root htdirectory htroot] at halike
      rw [reading_of_known hn]
      exact Option.some.inj halike
    have hothers : ∀ e ∈ es, e ≠ s → (e.reading directories organizationId).1 = 0 := by
      intro e he hne
      have hsame : scopeDirectoryIdentity e = scopeDirectoryIdentity s :=
        (directoryId_iff.mp (hid e he)).trans (directoryId_iff.mp (hid s hs)).symm
      have hsymm : Std.Symm fun s t => ¬Covers s t ∧ ¬Covers t s := ⟨fun _ _ h => ⟨h.2, h.1⟩⟩
      have hnot := hapart.forall he hs hne
      have hout : ¬e.Meets d := by
        rintro (hover | hunder)
        · exact hnot.1 ⟨hsame, hroot ▸ hover⟩
        · exact hnot.2 ⟨hsame.symm, hroot ▸ hunder⟩
      obtain ⟨n, hn⟩ := Option.ne_none_iff_exists'.mp (hall e he)
      rw [reading_of_known hn]
      exact haccountable.rootAlone s t e (hD s hs) ht (hD e he) d (hdirectory s hs) hroot htwin
        hsame hout (hall s hs) hunknown n hn
    have hnodup : es.Nodup := hapart.imp fun {a b} h (heq : a = b) => h.1 (heq ▸ Covers.refl _)
    have hsum : (es.map fun e => (e.reading directories organizationId).1).sum =
        d.sizeBytes := by
      classical
      rw [List.sum_map_eq_nsmul_single s _ fun e hne he => hothers e he hne,
        List.count_eq_one_of_mem hnodup hs, one_nsmul, hsize]
    rw [hsum]

/-- The entries of one directory count the same, whichever scope stands for a selection. -/
theorem group_congr (haccountable : Accountable directories organizationId D)
    (hD : ∀ s, s ∈ es ∨ s ∈ es' → D s) (hid : ∀ s, s ∈ es ∨ s ∈ es' → s.directoryId = some k)
    (hapart : es.Pairwise fun s t => ¬Covers s t ∧ ¬Covers t s)
    (hapart' : es'.Pairwise fun s t => ¬Covers s t ∧ ¬Covers t s)
    (hselection : (es.map SourceScope.selection).Perm (es'.map SourceScope.selection)) :
    outcome directories organizationId (accountingDirectory directories organizationId k) es =
      outcome directories organizationId (accountingDirectory directories organizationId k) es' := by
  cases hd : accountingDirectory directories organizationId k with
  | none =>
    have hdirectory : ∀ s, s ∈ es ∨ s ∈ es' → s.directory directories organizationId = none :=
      fun s hs => (directory_of_id (hid s hs)).trans hd
    have hsized : ∀ s, s ∈ es ∨ s ∈ es' → s.sized directories organizationId =
        s.known directories organizationId := by
      intro s hs
      rw [SourceScope.sized, SourceScope.rootSize, hdirectory s hs, Option.or_none]
    have hperm := perm_map_of_keys hselection fun a ha b hb hab => by
      have halike := haccountable.alike a b (hD a (Or.inl ha)) (hD b (Or.inr hb)) hab
      rwa [hsized a (Or.inl ha), hsized b (Or.inr hb)] at halike
    exact outcome_congr_readings hperm (fun s hs => Or.inr (hdirectory s hs)) (Or.inl rfl)
  | some d =>
    have hdirectory : ∀ s, s ∈ es ∨ s ∈ es' → s.directory directories organizationId = some d :=
      fun s hs => (directory_of_id (hid s hs)).trans hd
    by_cases htwin : ∃ s ∈ es, s.path = normalizeScopePath d.sourcePath ∧ ∃ t, D t ∧
        s.selection = t.selection ∧ t.known directories organizationId = none
    · obtain ⟨s, hs, hroot, t, ht, hst, hunknown⟩ := htwin
      have hmem := hselection.subset (List.mem_map_of_mem hs)
      obtain ⟨s', hs', heq⟩ := List.mem_map.mp hmem
      have hroot' : s'.path = normalizeScopePath d.sourcePath :=
        (congrArg Prod.snd heq).trans hroot
      rw [outcome_of_twin haccountable (fun e he => hD e (Or.inl he))
          (fun e he => hid e (Or.inl he)) hd hapart hs hroot ht hst hunknown,
        outcome_of_twin haccountable (fun e he => hD e (Or.inr he))
          (fun e he => hid e (Or.inr he)) hd hapart' hs' hroot' ht (heq.trans hst) hunknown]
    · have hperm := perm_map_of_keys (f := fun s => s.known directories organizationId)
          hselection fun a ha b hb hab => by
        have halike := haccountable.alike a b (hD a (Or.inl ha)) (hD b (Or.inr hb)) hab
        by_cases hroot : a.path = normalizeScopePath d.sourcePath
        · have ha' : a.known directories organizationId ≠ none := fun h =>
            htwin ⟨a, ha, hroot, a, hD a (Or.inl ha), rfl, h⟩
          have hb' : b.known directories organizationId ≠ none := fun h =>
            htwin ⟨a, ha, hroot, b, hD b (Or.inr hb), hab, h⟩
          obtain ⟨n, hn⟩ := Option.ne_none_iff_exists'.mp ha'
          obtain ⟨m, hm⟩ := Option.ne_none_iff_exists'.mp hb'
          rw [sized_of_known hn, sized_of_known hm] at halike
          rw [hn, hm, halike]
        · have hroot' : ¬b.path = normalizeScopePath d.sourcePath := fun h =>
            hroot ((congrArg Prod.snd hab).trans h)
          have hsize : ∀ s, s ∈ es ∨ s ∈ es' → ¬s.path = normalizeScopePath d.sourcePath →
              s.sized directories organizationId = s.known directories organizationId := by
            intro s hs hpath
            rw [SourceScope.sized, SourceScope.rootSize, hdirectory s hs]
            simp only [hpath, if_false, Option.or_none]
          rwa [hsize a (Or.inl ha) hroot, hsize b (Or.inr hb) hroot'] at halike
      by_cases hunknown : ∃ s ∈ es, s.known directories organizationId = none
      · have hmem : none ∈ es.map fun s => s.known directories organizationId :=
          List.mem_map.mpr hunknown
        exact outcome_congr_unknown hselection hunknown (List.mem_map.mp (hperm.subset hmem))
      · have hall : ∀ s ∈ es, s.known directories organizationId ≠ none := fun s hs h =>
          hunknown ⟨s, hs, h⟩
        refine outcome_congr_readings hperm (fun s hs => Or.inl ?_) (Or.inr hall)
        cases hs with
        | inl hs => exact hall s hs
        | inr hs =>
          intro h
          have hmem : none ∈ es'.map fun s => s.known directories organizationId :=
            List.mem_map.mpr ⟨s, hs, h⟩
          exact hunknown (List.mem_map.mp (hperm.symm.subset hmem))

theorem filter_selections (h : (es.map SourceScope.selection).Perm (es'.map SourceScope.selection))
    (k : Option Int) :
    ((es.filter fun s => s.directoryId = k).map SourceScope.selection).Perm
      ((es'.filter fun s => s.directoryId = k).map SourceScope.selection) := by
  let number : DirectoryIdentity × List Char → Option Int := fun key =>
    match key.1 with
    | .id n => some n
    | _ => none
  have hnumber : ∀ s : SourceScope, s.directoryId = number s.selection := by
    intro s
    apply Option.ext
    intro n
    rw [directoryId_iff]
    simp only [number, SourceScope.selection]
    cases scopeDirectoryIdentity s with
    | id m => simp
    | text value => simp
    | missing => simp
  have hfilter : ∀ xs : List SourceScope, (xs.filter fun s => s.directoryId = k).map
      SourceScope.selection = (xs.map SourceScope.selection).filter (number · = k) := by
    intro xs
    rw [List.filter_map]
    simp only [hnumber, Function.comp_def]
  rw [hfilter, hfilter]
  exact h.filter _

theorem outcomes_perm (haccountable : Accountable directories organizationId D)
    (hD : ∀ s ∈ scopes, D s) (h : Spans Covers es scopes) (h' : Spans Covers es' scopes) :
    (outcomes directories organizationId es).Perm (outcomes directories organizationId es') := by
  have hselection : (es.map SourceScope.selection).Perm (es'.map SourceScope.selection) :=
    h.keys_perm Covers.trans selection_of_covers covers_of_selection h'
  have hsub : ∀ s, s ∈ es ∨ s ∈ es' → D s := by
    rintro s (hs | hs)
    · exact hD s (h.sub s hs)
    · exact hD s (h'.sub s hs)
  refine List.Perm.append ?_ ?_
  · refine perm_map_of_keys (filter_selections hselection none) fun a ha b hb hab => ?_
    obtain ⟨hmem, hid⟩ := mem_ungrouped.mp ha
    obtain ⟨hmem', hid'⟩ := mem_ungrouped.mp hb
    have hd : a.directory directories organizationId = none := directory_of_none hid
    have hd' : b.directory directories organizationId = none := directory_of_none hid'
    have halike := haccountable.alike a b (hsub a (Or.inl hmem)) (hsub b (Or.inr hmem')) hab
    rw [SourceScope.sized, SourceScope.sized, SourceScope.rootSize, SourceScope.rootSize, hd, hd',
      Option.or_none, Option.or_none] at halike
    refine outcome_congr_readings ?_ ?_ (Or.inl rfl)
    · rw [List.map_singleton, List.map_singleton, halike]
    · rintro s (hs | hs)
      · exact Or.inr (List.mem_singleton.mp hs ▸ hd)
      · exact Or.inr (List.mem_singleton.mp hs ▸ hd')
  · have hids : ∀ {xs ys : List SourceScope}, (xs.map SourceScope.selection).Perm
        (ys.map SourceScope.selection) → ∀ k, (∃ s ∈ xs, s.directoryId = some k) →
        ∃ s ∈ ys, s.directoryId = some k := by
      rintro xs ys hperm k ⟨s, hs, hk⟩
      obtain ⟨t, ht, heq⟩ := List.mem_map.mp (hperm.subset (List.mem_map_of_mem hs))
      exact ⟨t, ht, (directoryId_congr (congrArg Prod.fst heq)).trans hk⟩
    have hmem : ∀ (xs : List SourceScope) k, k ∈ (grouped xs).map Prod.fst ↔
        ∃ s ∈ xs, s.directoryId = some k := by
      intro xs k
      constructor
      · intro hk
        obtain ⟨group, hgroup, rfl⟩ := List.mem_map.mp hk
        exact (mem_grouped.mp hgroup).1
      · intro hk
        exact List.mem_map.mpr ⟨(k, xs.filter fun s => s.directoryId = some k),
          mem_grouped.mpr ⟨hk, rfl⟩, rfl⟩
    have hkeys : ((grouped es).map Prod.fst).Perm ((grouped es').map Prod.fst) := by
      refine (List.perm_ext_iff_of_nodup (nodup_grouped es) (nodup_grouped es')).mpr fun k => ?_
      rw [hmem, hmem]
      exact ⟨hids hselection k, hids hselection.symm k⟩
    refine perm_map_of_keys hkeys fun group hgroup group' hgroup' hk => ?_
    have hmembers := (mem_grouped.mp hgroup).2
    have hmembers' := (mem_grouped.mp hgroup').2
    rw [← hk] at hmembers'
    have hfilter : ∀ s, s ∈ group.2 ∨ s ∈ group'.2 →
        (s ∈ es ∨ s ∈ es') ∧ s.directoryId = some group.1 := by
      rintro s (hs | hs)
      · rw [hmembers, List.mem_filter, decide_eq_true_eq] at hs
        exact ⟨Or.inl hs.1, hs.2⟩
      · rw [hmembers', List.mem_filter, decide_eq_true_eq] at hs
        exact ⟨Or.inr hs.1, hs.2⟩
    rw [← hk]
    refine group_congr haccountable (fun s hs => hsub s (hfilter s hs).1)
      (fun s hs => (hfilter s hs).2) ?_ ?_ ?_
    · rw [hmembers]
      exact h.apart.filter _
    · rw [hmembers']
      exact h'.apart.filter _
    · rw [hmembers, hmembers']
      exact filter_selections hselection _

theorem accounting_perm (horganization : 0 < organizationId)
    (haccountable : Accountable directories organizationId D) {scopes' : List SourceScope}
    (hD : ∀ s ∈ scopes, D s) (hperm : scopes'.Perm scopes) :
    workspaceCapacityAccounting directories organizationId scopes' =
      workspaceCapacityAccounting directories organizationId scopes := by
  by_cases hnil : scopes = []
  · rw [hnil] at hperm
    rw [hnil, List.perm_nil.mp hperm]
  · have hnil' : scopes' ≠ [] := fun h => hnil (List.nil_perm.mp (h ▸ hperm))
    have hspans' := (spans_capacityEntries scopes').mem_congr fun s => hperm.mem_iff
    rw [workspaceCapacityAccounting_eq horganization hnil,
      workspaceCapacityAccounting_eq horganization hnil',
      settleAll_perm (outcomes_perm haccountable hD hspans' (spans_capacityEntries scopes))]

end Order

end HyperFileLens.Lens
