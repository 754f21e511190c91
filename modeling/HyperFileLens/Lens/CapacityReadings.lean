import HyperFileLens.Lens.WorkspaceCapacity

/-!
# How an accounting reads its entries

The entries span the candidates: they are apart, and every candidate has one that covers it.
`reading` is what one scope contributes to an occupancy. The accounting settles the readings of
the entries, directory by directory (`workspaceCapacityAccounting_eq`), and does not see their
order (`settleAll_perm`).
-/

namespace HyperFileLens.Lens

open Coverage

variable {directories : Directories} {organizationId : Int}

/-! ## Paths -/

/-- What a path must start with to be covered. -/
def pathStem (path : List Char) : List Char := if path = ['/'] then ['/'] else path ++ ['/']

variable {p q f : List Char}

variable {s : SourceScope} {scopes : List SourceScope}

theorem PathCovers.refl (p : List Char) : PathCovers p p := Or.inl rfl

theorem length_lt_of_stem (h : pathStem p <+: q) : p.length < q.length ∨ p = q := by
  rw [pathStem] at h
  split at h
  case isTrue hroot =>
    subst hroot
    obtain ⟨t, rfl⟩ := h
    cases t with
    | nil => exact Or.inr rfl
    | cons c t => exact Or.inl (by simp)
  case isFalse =>
    have hlength := h.length_le
    rw [List.length_append, List.length_singleton] at hlength
    exact Or.inl hlength

theorem PathCovers.length (h : PathCovers p q) : p.length < q.length ∨ p = q := by
  cases h with
  | inl heq => exact Or.inr heq.symm
  | inr hstem => exact length_lt_of_stem hstem

theorem PathCovers.antisymm (h : PathCovers p q) (h' : PathCovers q p) : p = q := by
  cases h.length with
  | inl hlt =>
    cases h'.length with
    | inl hgt => omega
    | inr heq => exact heq.symm
  | inr heq => exact heq

theorem prefix_pathStem (p : List Char) : p <+: pathStem p := by
  rw [pathStem]
  split
  case isTrue h => exact h ▸ List.prefix_refl _
  case isFalse => exact List.prefix_append _ _

theorem length_pathStem_le (p : List Char) : (pathStem p).length ≤ p.length + 1 := by
  rw [pathStem]
  split
  · simp
  · simp

theorem PathCovers.prefix (h : PathCovers p f) : p <+: f := by
  cases h with
  | inl heq => exact heq ▸ List.prefix_refl _
  | inr hstem => exact (prefix_pathStem p).trans hstem

theorem PathCovers.trans {r : List Char} (h : PathCovers p q) (h' : PathCovers q r) :
    PathCovers p r := by
  cases h with
  | inl heq => exact heq ▸ h'
  | inr hstem => exact Or.inr (hstem.trans h'.prefix)

theorem PathCovers.of_shorter (h : PathCovers p f) (h' : PathCovers q f)
    (hlt : p.length < q.length) :
    PathCovers p q := by
  cases h with
  | inl heq =>
    have hle := h'.prefix.length_le
    rw [heq] at hle
    omega
  | inr hstem =>
    have hle := length_pathStem_le p
    have hlonger : pathStem p <+: q :=
      List.prefix_of_prefix_length_le hstem h'.prefix (by omega)
    exact Or.inr hlonger

theorem PathCovers.comparable (h : PathCovers p f) (h' : PathCovers q f) :
    PathCovers p q ∨ PathCovers q p := by
  rcases Nat.lt_trichotomy p.length q.length with hlt | heq | hgt
  · exact Or.inl (h.of_shorter h' hlt)
  · have hleads := List.prefix_of_prefix_length_le h.prefix h'.prefix (Nat.le_of_eq heq)
    exact Or.inl (Or.inl (hleads.eq_of_length heq).symm)
  · exact Or.inr (h'.of_shorter h hgt)

/-! ## Entries -/

theorem Covers.refl (s : SourceScope) : Covers s s := ⟨rfl, PathCovers.refl _⟩

theorem Covers.trans (s t u : SourceScope) (h : Covers s t) (h' : Covers t u) : Covers s u :=
  ⟨h.1.trans h'.1, h.2.trans h'.2⟩

def SourceScope.selection (s : SourceScope) : DirectoryIdentity × List Char :=
  (scopeDirectoryIdentity s, s.path)

theorem selection_of_covers (s t : SourceScope) (h : Covers s t) (h' : Covers t s) :
    s.selection = t.selection :=
  Prod.ext h.1 (h.2.antisymm h'.2)

theorem covers_of_selection (s t : SourceScope) (h : s.selection = t.selection) : Covers s t :=
  ⟨congrArg Prod.fst h, Or.inl (congrArg Prod.snd h).symm⟩

instance : Std.Total Before :=
  ⟨fun a b => by rw [Before, Before]; omega⟩

instance : IsTrans (SourceScope × ℕ) Before :=
  ⟨fun a b c => by rw [Before, Before, Before]; omega⟩

variable {candidates : List SourceScope}

theorem mem_ordered : s ∈ ordered candidates ↔ s ∈ candidates := by
  rw [ordered, (List.perm_insertionSort Before candidates.zipIdx).map Prod.fst |>.mem_iff,
    List.zipIdx_map_fst]

theorem ordered_sorted (candidates : List SourceScope) :
    (ordered candidates).Pairwise fun s t => Covers t s → Covers s t := by
  refine List.pairwise_map.mpr ((List.pairwise_insertionSort Before _).imp ?_)
  intro a b hbefore hcovers
  cases hcovers.2.length with
  | inl hlt =>
    rw [Before] at hbefore
    omega
  | inr heq => exact ⟨hcovers.1.symm, Or.inl heq⟩

theorem spans_capacityEntries (candidates : List SourceScope) :
    Spans Covers (capacityEntries candidates) candidates :=
  (spans_keep Covers.refl (ordered_sorted candidates)).mem_congr fun _ => mem_ordered

/-! ## Readings -/

def SourceScope.directory (directories : Directories) (organizationId : Int)
    (s : SourceScope) : Option BackupSourceSnapshotDirectory :=
  s.backupSnapshotDirectoryId.pyInt.bind (accountingDirectory directories organizationId)

def SourceScope.summary (s : SourceScope) : Option Int :=
  match exactStoredInt s.sizeBytes, exactStoredInt s.fileCount with
  | some sizeBytes, some fileCount =>
    if summaryValid s.typeText sizeBytes fileCount then some sizeBytes else none
  | _, _ => none

/-- The bytes of a scope that is handed on with its directory, and whether they are unknown. -/
def legacyReading (row : ResolvedScope × BackupSourceSnapshotDirectory) : Int × Bool :=
  if normalizeScopePath row.1.sourcePath = normalizeScopePath row.2.sourcePath then
    (row.2.sizeBytes, false)
  else if Text.lower row.1.pathType = "file" then
    match row.1.sizeBytes with
    | none => (0, true)
    | some sizeBytes => (sizeBytes, false)
  else (0, true)

/-- The bytes of a scope, and whether they are unknown. -/
def SourceScope.reading (directories : Directories) (organizationId : Int)
    (s : SourceScope) : Int × Bool :=
  if s.hasSummary then
    match s.summary with
    | some sizeBytes => (sizeBytes, false)
    | none => (0, true)
  else
    match s.directory directories organizationId with
    | none => (0, true)
    | some d =>
      let row : ResolvedScope × BackupSourceSnapshotDirectory :=
        (⟨s.sourcePath, s.typeText, (legacySize s).1⟩, d)
      ((legacyReading row).1, (legacySize s).2 || (legacyReading row).2)

theorem addSelection_totals (acc : SelectionTotals)
    (row : ResolvedScope × BackupSourceSnapshotDirectory) : (addSelection acc row).totalBytes =
      acc.totalBytes + (legacyReading row).1 ∧ (addSelection acc row).unknownDirectory =
      (acc.unknownDirectory || (legacyReading row).2) := by
  rw [addSelection, legacyReading]
  split
  · simp
  · split
    · cases row.1.sizeBytes with
      | none => simp
      | some sizeBytes => simp
    · simp

theorem foldl_addSelection (rows : List (ResolvedScope × BackupSourceSnapshotDirectory))
    (acc : SelectionTotals) : (rows.foldl addSelection acc).totalBytes =
      acc.totalBytes + (rows.map fun row => (legacyReading row).1).sum ∧
      (rows.foldl addSelection acc).unknownDirectory =
      (acc.unknownDirectory || rows.any fun row => (legacyReading row).2) := by
  induction rows generalizing acc with
  | nil => simp
  | cons row rows ih =>
    obtain ⟨hbytes, hunknown⟩ := ih (addSelection acc row)
    obtain ⟨hrow, hrowUnknown⟩ := addSelection_totals acc row
    simp only [List.foldl_cons, List.map_cons, List.sum_cons, List.any_cons, hbytes, hunknown,
      hrow, hrowUnknown, add_assoc, Bool.or_assoc, and_self]

def Occupancy.collected (acc : Occupancy) : Int × Bool :=
  (acc.trustedBytes + (acc.legacy.map fun row => (legacyReading row).1).sum,
    acc.anyUnknown || acc.legacy.any fun row => (legacyReading row).2)

theorem occupancyDirectory_eq (horganization : 0 < organizationId) :
    occupancyDirectory directories organizationId =
      accountingDirectory directories organizationId := by
  funext directoryId
  have hnot : ¬organizationId ≤ 0 := by omega
  simp only [occupancyDirectory, accountingDirectory, hnot, false_or]

theorem collected_collectScope (horganization : 0 < organizationId) (acc : Occupancy)
    (s : SourceScope) :
    (collectScope directories organizationId acc s).collected =
      (acc.collected.1 + (s.reading directories organizationId).1,
        acc.collected.2 || (s.reading directories organizationId).2) := by
  rw [collectScope, SourceScope.reading]
  cases hsummary : s.hasSummary with
  | true =>
    simp only [if_true, SourceScope.summary]
    cases exactStoredInt s.sizeBytes with
    | none => simp [Occupancy.collected]
    | some sizeBytes =>
      cases exactStoredInt s.fileCount with
      | none => simp [Occupancy.collected]
      | some fileCount =>
        cases hvalid : summaryValid s.typeText sizeBytes fileCount with
        | true => simp [Occupancy.collected, hvalid, add_right_comm]
        | false => simp [Occupancy.collected, hvalid]
  | false =>
    simp only [Bool.false_eq_true, if_false, SourceScope.directory,
      occupancyDirectory_eq horganization]
    cases s.backupSnapshotDirectoryId.pyInt with
    | none => simp [Occupancy.collected]
    | some directoryId =>
      simp only [Option.bind_some]
      cases accountingDirectory directories organizationId directoryId with
      | none => simp [Occupancy.collected]
      | some d =>
        simp only [Occupancy.collected, ne_eq, s.path_given, not_false_eq_true, if_true,
          List.map_append, List.sum_append, List.map_cons, List.map_nil, List.sum_cons,
          List.sum_nil, List.any_append, List.any_cons, List.any_nil, add_zero,
          Bool.or_false]
        refine Prod.ext (add_assoc _ _ _).symm ?_
        dsimp only
        cases acc.anyUnknown with
        | true => simp
        | false =>
          simp only [Bool.false_or]
          exact Bool.or_left_comm _ _ _

theorem occupancyFromScopeDicts_eq (horganization : 0 < organizationId)
    (scopes : List SourceScope) :
    occupancyFromScopeDicts directories organizationId scopes =
      ((scopes.map fun s => (s.reading directories organizationId).1).sum,
        scopes.any fun s => (s.reading directories organizationId).2) := by
  have hfold : ∀ acc : Occupancy,
      (scopes.foldl (collectScope directories organizationId) acc).collected =
        (acc.collected.1 + (scopes.map fun s => (s.reading directories organizationId).1).sum,
          acc.collected.2 || scopes.any fun s => (s.reading directories organizationId).2) := by
    induction scopes with
    | nil => simp
    | cons s scopes ih =>
      intro acc
      simp only [List.foldl_cons, ih, collected_collectScope horganization, List.map_cons,
        List.sum_cons, List.any_cons, add_assoc, Bool.or_assoc]
  have hall := hfold ⟨0, [], false⟩
  simp only [Occupancy.collected, List.map_nil, List.sum_nil, List.any_nil, add_zero, zero_add,
    Bool.or_false, Bool.false_or] at hall
  rw [occupancyFromScopeDicts]
  split
  case isTrue hnil => simp [hnil]
  case isFalse =>
    dsimp only
    rw [← hall]
    cases hlegacy : (scopes.foldl (collectScope directories organizationId) ⟨0, [], false⟩).legacy
      with
    | nil => simp
    | cons row rows =>
      obtain ⟨hbytes, hunknown⟩ := foldl_addSelection (row :: rows) ⟨0, 0, false⟩
      simp only [List.isEmpty_cons, Bool.false_eq_true, if_false, summarizeGatewaySelectScopes,
        hbytes, hunknown, zero_add, Bool.false_or]

/-! ## Outcomes -/

def outcome (directories : Directories) (organizationId : Int)
    (directory : Option BackupSourceSnapshotDirectory) (scopes : List SourceScope) :
    Int × CapacityAccountingStatus :=
  let nbytes := (scopes.map fun s => (s.reading directories organizationId).1).sum
  if scopes.any fun s => (s.reading directories organizationId).2 then
    match directory with
    | none => (nbytes, .unknown)
    | some d =>
      (max 0 d.sizeBytes,
        if scopes.any fun s => s.path = normalizeScopePath d.sourcePath then .exact
        else .conservative)
  else (nbytes, .exact)

def addOutcome (acc new : Int × CapacityAccountingStatus) : Int × CapacityAccountingStatus :=
  (acc.1 + new.1,
    if new.2 = .unknown then .unknown
    else if new.2 = .conservative ∧ acc.2 ≠ .unknown then .conservative
    else acc.2)

def outcomes (directories : Directories) (organizationId : Int) (entries : List SourceScope) :
    List (Int × CapacityAccountingStatus) :=
  (ungrouped entries).map (fun s => outcome directories organizationId none [s]) ++
    (grouped entries).map fun group => outcome directories organizationId
      (accountingDirectory directories organizationId group.1) group.2

/-- The bytes of all outcomes, with the least trustworthy status. -/
def settleAll (os : List (Int × CapacityAccountingStatus)) : Int × CapacityAccountingStatus :=
  ((os.map Prod.fst).sum,
    if ∃ o ∈ os, o.2 = .unknown then .unknown
    else if ∃ o ∈ os, o.2 = .conservative then .conservative
    else .exact)

theorem settleAll_append_singleton (os : List (Int × CapacityAccountingStatus))
    (o : Int × CapacityAccountingStatus) : settleAll (os ++ [o]) = addOutcome (settleAll os) o := by
  have hexists : ∀ status, (∃ p ∈ os ++ [o], p.2 = status) ↔
      (∃ p ∈ os, p.2 = status) ∨ o.2 = status := by
    intro status
    simp [or_and_right, exists_or]
  rw [settleAll, settleAll, addOutcome]
  simp only [hexists, List.map_append, List.sum_append, List.map_cons, List.map_nil,
    List.sum_cons, List.sum_nil, add_zero, Prod.mk.injEq, true_and]
  by_cases hunknown : ∃ p ∈ os, p.2 = CapacityAccountingStatus.unknown
  · simp only [hunknown, true_or, if_true, ne_eq, not_true, and_false, if_false, ite_self]
  · by_cases hconservative : ∃ p ∈ os, p.2 = CapacityAccountingStatus.conservative
    · simp only [hunknown, hconservative, false_or, true_or, if_true, if_false]
      cases o.2 with
      | unknown => simp
      | conservative => simp
      | exact => simp
      | pending => simp
    · simp only [hunknown, hconservative, false_or, if_false]
      cases o.2 with
      | unknown => simp
      | conservative => simp
      | exact => simp
      | pending => simp

theorem foldl_addOutcome (os seen : List (Int × CapacityAccountingStatus)) :
    os.foldl addOutcome (settleAll seen) = settleAll (seen ++ os) := by
  induction os generalizing seen with
  | nil => rw [List.append_nil, List.foldl_nil]
  | cons o os ih =>
    rw [List.foldl_cons, ← settleAll_append_singleton, ih, List.append_assoc, List.singleton_append]

theorem settleAll_perm {os os' : List (Int × CapacityAccountingStatus)} (h : os.Perm os') :
    settleAll os = settleAll os' := by
  have hexists : ∀ status, (∃ p ∈ os, p.2 = status) ↔ ∃ p ∈ os', p.2 = status := by
    intro status
    simp only [h.mem_iff]
  rw [settleAll, settleAll, (h.map Prod.fst).sum_eq]
  simp only [hexists]

theorem accountUngrouped_eq (horganization : 0 < organizationId)
    (acc : Int × CapacityAccountingStatus) (s : SourceScope) :
    accountUngrouped directories organizationId acc s =
      addOutcome acc (outcome directories organizationId none [s]) := by
  rw [accountUngrouped, occupancyFromScopeDicts_eq horganization, outcome, addOutcome]
  simp only [List.map_cons, List.map_nil, List.sum_cons, List.sum_nil, add_zero, List.any_cons,
    List.any_nil, Bool.or_false]
  cases (s.reading directories organizationId).2 with
  | true => simp
  | false => simp

theorem accountGroup_eq (horganization : 0 < organizationId)
    (acc : Int × CapacityAccountingStatus) (group : Int × List SourceScope) :
    accountGroup directories organizationId acc group =
      addOutcome acc (outcome directories organizationId
        (accountingDirectory directories organizationId group.1) group.2) := by
  simp only [accountGroup, occupancyFromScopeDicts_eq horganization, outcome, addOutcome]
  rcases Bool.eq_false_or_eq_true (group.2.any fun s =>
    (s.reading directories organizationId).2) with hunknown | hknown
  · simp only [hunknown]
    cases accountingDirectory directories organizationId group.1 with
    | none => simp
    | some d =>
      cases hroot : group.2.any fun s => decide (s.path = normalizeScopePath d.sourcePath) with
      | true => simp [hroot]
      | false => simp [hroot]
  · simp only [hknown]
    cases accountingDirectory directories organizationId group.1 with
    | none => simp
    | some d => simp

theorem accountByDirectory_eq (horganization : 0 < organizationId) (entries : List SourceScope) :
    accountByDirectory directories organizationId entries =
      boundedTotal (settleAll (outcomes directories organizationId entries)) := by
  have hungrouped : ∀ acc, (ungrouped entries).foldl
      (accountUngrouped directories organizationId) acc = ((ungrouped entries).map fun s =>
        outcome directories organizationId none [s]).foldl addOutcome acc := by
    intro acc
    rw [List.foldl_map]
    exact List.foldl_ext _ _ _ fun acc s _ => accountUngrouped_eq horganization acc s
  have hgrouped : ∀ acc, (grouped entries).foldl (accountGroup directories organizationId) acc =
      ((grouped entries).map fun group => outcome directories organizationId
        (accountingDirectory directories organizationId group.1) group.2).foldl addOutcome acc := by
    intro acc
    rw [List.foldl_map]
    exact List.foldl_ext _ _ _ fun acc group _ => accountGroup_eq horganization acc group
  have hstart : ((0, .exact) : Int × CapacityAccountingStatus) = settleAll [] := by
    simp [settleAll]
  rw [accountByDirectory, hungrouped, hgrouped, hstart, foldl_addOutcome, foldl_addOutcome,
    List.nil_append, outcomes]

/-! ## Groups -/

def SourceScope.directoryId (s : SourceScope) : Option Int := s.backupSnapshotDirectoryId.pyInt

theorem spans_directoryIds (entries : List SourceScope) :
    Spans Eq (keep Eq (entries.filterMap SourceScope.directoryId))
      (entries.filterMap SourceScope.directoryId) :=
  spans_keep (fun _ => rfl) (List.pairwise_of_forall fun _ _ h => h.symm)

theorem sum_grouped {M : Type*} [AddCommMonoid M] (f : SourceScope → M)
    (entries : List SourceScope) :
    ((ungrouped entries).map f).sum + ((grouped entries).map fun g => (g.2.map f).sum).sum =
      (entries.map f).sum := by
  have hspans := spans_directoryIds entries
  have hnodup : (keep Eq (entries.filterMap SourceScope.directoryId)).Nodup :=
    hspans.apart.imp fun h => h.1
  have hkeys : ∀ s ∈ entries, ∀ k, s.directoryId = some k →
      k ∈ keep Eq (entries.filterMap SourceScope.directoryId) := by
    intro s hs k hk
    obtain ⟨l, hl, rfl⟩ := hspans.covered k (List.mem_filterMap.mpr ⟨s, hs, hk⟩)
    exact hl
  rw [← sum_groups SourceScope.directoryId f hnodup hkeys, grouped, List.map_map]
  rfl

variable {entries : List SourceScope}

theorem mem_ungrouped : s ∈ ungrouped entries ↔ s ∈ entries ∧ s.directoryId = none := by
  rw [ungrouped, List.mem_filter, decide_eq_true_eq]
  rfl

theorem mem_grouped {group : Int × List SourceScope} :
    group ∈ grouped entries ↔ (∃ s ∈ entries, s.directoryId = some group.1) ∧
      group.2 = entries.filter fun s => s.directoryId = some group.1 := by
  have hspans := spans_directoryIds entries
  have hmem : ∀ k, k ∈ keep Eq (entries.filterMap SourceScope.directoryId) ↔
      ∃ s ∈ entries, s.directoryId = some k := by
    intro k
    constructor
    · intro hk
      exact List.mem_filterMap.mp (hspans.sub k hk)
    · intro hk
      obtain ⟨l, hl, rfl⟩ := hspans.covered k (List.mem_filterMap.mpr hk)
      exact hl
  rw [grouped, List.mem_map]
  constructor
  · rintro ⟨k, hk, rfl⟩
    exact ⟨(hmem k).mp hk, rfl⟩
  · rintro ⟨hk, hgroup⟩
    exact ⟨group.1, (hmem group.1).mpr hk, Prod.ext rfl hgroup.symm⟩

theorem nodup_grouped (entries : List SourceScope) : ((grouped entries).map Prod.fst).Nodup := by
  rw [grouped, List.map_map]
  exact List.pairwise_map.mpr ((spans_directoryIds entries).apart.imp fun h => h.1)

theorem outcome_of_known {directory : Option BackupSourceSnapshotDirectory}
    (h : ∀ s ∈ scopes, (s.reading directories organizationId).2 = false) :
    outcome directories organizationId directory scopes =
      ((scopes.map fun s => (s.reading directories organizationId).1).sum, .exact) := by
  have hknown : (scopes.any fun s => (s.reading directories organizationId).2) = false := by
    rw [List.any_eq_false]
    intro s hs
    rw [h s hs]
    exact Bool.false_ne_true
  simp only [outcome, hknown, Bool.false_eq_true, if_false]

theorem outcome_of_unknown {d : BackupSourceSnapshotDirectory}
    (h : ∃ s ∈ scopes, (s.reading directories organizationId).2 = true) :
    outcome directories organizationId (some d) scopes =
      (max 0 d.sizeBytes,
        if ∃ s ∈ scopes, s.path = normalizeScopePath d.sourcePath then .exact
        else .conservative) := by
  have hunknown : (scopes.any fun s => (s.reading directories organizationId).2) = true :=
    List.any_eq_true.mpr h
  simp only [outcome, hunknown, if_true, List.any_eq_true, decide_eq_true_eq]

theorem settleAll_of_known (h : ∀ s ∈ entries, (s.reading directories organizationId).2 = false) :
    settleAll (outcomes directories organizationId entries) =
      ((entries.map fun s => (s.reading directories organizationId).1).sum, .exact) := by
  have hungrouped : (ungrouped entries).map (fun s => outcome directories organizationId none [s]) =
      (ungrouped entries).map fun s =>
        ((s.reading directories organizationId).1, CapacityAccountingStatus.exact) := by
    refine List.map_congr_left fun s hs => ?_
    rw [outcome_of_known fun t ht => h t (List.mem_singleton.mp ht ▸ (mem_ungrouped.mp hs).1)]
    simp
  have hgrouped : ((grouped entries).map fun group => outcome directories organizationId
      (accountingDirectory directories organizationId group.1) group.2) =
      (grouped entries).map fun group => ((group.2.map fun s =>
        (s.reading directories organizationId).1).sum, CapacityAccountingStatus.exact) := by
    refine List.map_congr_left fun group hg => outcome_of_known fun s hs => h s ?_
    rw [(mem_grouped.mp hg).2] at hs
    exact (List.mem_filter.mp hs).1
  rw [outcomes, hungrouped, hgrouped, settleAll]
  refine Prod.ext ?_ ?_
  · rw [← sum_grouped (fun s => (s.reading directories organizationId).1) entries]
    simp [Function.comp_def]
  · simp

theorem workspaceCapacityAccounting_eq (horganization : 0 < organizationId)
    (hne : candidates ≠ []) :
    workspaceCapacityAccounting directories organizationId candidates =
      boundedTotal (settleAll (outcomes directories organizationId (capacityEntries candidates))) := by
  have hentries : capacityEntries candidates ≠ [] := by
    intro hnil
    obtain ⟨s, hs⟩ := List.exists_mem_of_ne_nil _ hne
    obtain ⟨e, he, -⟩ := (spans_capacityEntries candidates).covered s hs
    rw [hnil] at he
    cases he
  rw [workspaceCapacityAccounting]
  dsimp only
  rw [if_neg hentries]
  split
  case isFalse => exact accountByDirectory_eq horganization _
  case isTrue hknown =>
    rw [Bool.and_eq_true, Bool.not_eq_true', occupancyFromScopeDicts_eq horganization] at hknown
    have hall : ∀ s ∈ capacityEntries candidates,
        (s.reading directories organizationId).2 = false := fun s hs =>
      eq_false_of_ne_true (List.any_eq_false.mp hknown.2 s hs)
    rw [settleAll_of_known hall, occupancyFromScopeDicts_eq horganization]

end HyperFileLens.Lens
