import HyperFileLens.Lens.CapacityHonest

/-!
# Which scopes can be accounted for

An accounting of one, two or three scopes shows each way in which it goes wrong. Together with
the bounds that hold otherwise, this says exactly which scopes are accounted for honestly
(`neverUndercounts_iff`).
-/

namespace HyperFileLens.Lens

open Coverage

variable {directories : Directories} {organizationId : Int} {D : SourceScope → Prop}

/-! ## Small accountings -/

variable {o : Int × CapacityAccountingStatus} {s t : SourceScope}

variable {es : List SourceScope} {d : BackupSourceSnapshotDirectory}

theorem settleAll_singleton (h : o.2 ≠ .pending) : settleAll [o] = o := by
  obtain ⟨nbytes, status⟩ := o
  cases status with
  | pending => exact absurd rfl h
  | exact => simp [settleAll]
  | conservative => simp [settleAll]
  | unknown => simp [settleAll]

theorem outcome_settled (directory : Option BackupSourceSnapshotDirectory)
    (es : List SourceScope) : (outcome directories organizationId directory es).2 ≠ .pending := by
  simp only [outcome]
  cases es.any fun s => (s.reading directories organizationId).2 with
  | false => simp
  | true =>
    cases directory with
    | none => simp
    | some d =>
      simp only [if_true]
      split
      · simp
      · simp

theorem settleAll_of_one {k : Int} (hne : es ≠ []) (hid : ∀ s ∈ es, s.directoryId = some k) :
    settleAll (outcomes directories organizationId es) =
      outcome directories organizationId (accountingDirectory directories organizationId k) es := by
  have hungrouped : ungrouped es = [] := by
    refine List.eq_nil_iff_forall_not_mem.mpr fun s hs => ?_
    obtain ⟨hmem, hnone⟩ := mem_ungrouped.mp hs
    rw [hid s hmem] at hnone
    cases hnone
  have hfilter : (es.filter fun s => s.directoryId = some k) = es :=
    List.filter_eq_self.mpr fun s hs => decide_eq_true (hid s hs)
  have hgrouped : (grouped es).Perm [(k, es)] := by
    refine (List.perm_ext_iff_of_nodup (nodup_grouped es).of_map (List.nodup_singleton _)).mpr ?_
    intro group
    rw [mem_grouped, List.mem_singleton]
    constructor
    · rintro ⟨⟨s, hs, hk⟩, hmembers⟩
      obtain rfl := Option.some.inj ((hid s hs).symm.trans hk)
      exact Prod.ext rfl (hmembers.trans hfilter)
    · rintro rfl
      obtain ⟨s, hs⟩ := List.exists_mem_of_ne_nil _ hne
      exact ⟨⟨s, hs, hid s hs⟩, hfilter.symm⟩
  rw [outcomes, hungrouped, List.map_nil, List.nil_append, settleAll_perm (hgrouped.map _),
    List.map_singleton, settleAll_singleton (outcome_settled _ _)]

theorem settleAll_alone (s : SourceScope) : settleAll (outcomes directories organizationId [s]) =
      outcome directories organizationId (s.directory directories organizationId) [s] := by
  cases hid : s.directoryId with
  | some k =>
    rw [settleAll_of_one (List.cons_ne_nil _ _) (List.forall_mem_singleton.mpr hid),
      directory_of_id hid]
  | none =>
    have hgrouped : grouped [s] = [] := by
      refine List.eq_nil_iff_forall_not_mem.mpr fun group hgroup => ?_
      obtain ⟨t, ht, hk⟩ := (mem_grouped.mp hgroup).1
      rw [List.mem_singleton.mp ht, hid] at hk
      cases hk
    have hungrouped : ungrouped [s] = [s] := by
      have hself : ∀ t ∈ [s], decide (t.directoryId = none) = true :=
        List.forall_mem_singleton.mpr (decide_eq_true hid)
      exact List.filter_eq_self.mpr hself
    rw [outcomes, hgrouped, hungrouped, List.map_nil, List.append_nil, List.map_singleton,
      directory_of_none hid, settleAll_singleton (outcome_settled _ _)]

/-- What an entry counts as, alone: exactly its size, or the size of its directory. -/
theorem outcome_alone (directories : Directories) (organizationId : Int) (s : SourceScope) :
    (∃ n, s.sized directories organizationId = some n ∧ n ≤ maxBigint ∧
      outcome directories organizationId (s.directory directories organizationId) [s] =
        (n, .exact)) ∨
    (s.sized directories organizationId = none ∧
      (outcome directories organizationId (s.directory directories organizationId) [s]).2 ≠ .exact ∧
      (outcome directories organizationId (s.directory directories organizationId) [s]).1 ≤
        maxBigint) := by
  cases hknown : s.known directories organizationId with
  | some n =>
    have hreading := reading_of_known hknown
    have hall : ∀ t ∈ [s], (t.reading directories organizationId).2 = false :=
      List.forall_mem_singleton.mpr (by rw [hreading])
    refine Or.inl ⟨n, sized_of_known hknown, (known_range hknown).2, ?_⟩
    rw [outcome_of_known hall, List.map_singleton, List.sum_singleton, hreading]
  | none =>
    rw [SourceScope.sized, hknown, Option.none_or, SourceScope.rootSize]
    cases hd : s.directory directories organizationId with
    | none =>
      have hreading := reading_of_unknown hd hknown
      right
      simp [outcome, hreading, maxBigint]
    | some d =>
      have hunknown : ∃ t ∈ [s], (t.reading directories organizationId).2 = true :=
        ⟨s, List.mem_singleton_self s, known_eq_none.mp hknown⟩
      rw [outcome_of_unknown hunknown, max_eq_right d.size_nonneg]
      by_cases hroot : s.path = normalizeScopePath d.sourcePath
      · left
        simp [hroot, d.size_le]
      · right
        simp [hroot, d.size_le]

theorem boundedTotal_eq (h : o.1 ≤ maxBigint) : boundedTotal o = o :=
  if_neg (Int.not_lt.mpr h)

theorem outcome_alone_le (s : SourceScope) :
    (outcome directories organizationId (s.directory directories organizationId) [s]).1 ≤
      maxBigint := by
  rcases outcome_alone directories organizationId s with ⟨n, -, hle, houtcome⟩ | ⟨-, -, hle⟩
  · rw [houtcome]
    exact hle
  · exact hle

theorem capacityEntries_singleton (s : SourceScope) : capacityEntries [s] = [s] := by
  simp [capacityEntries, ordered, keep]

theorem capacityEntries_twins (h : s.selection = t.selection) : capacityEntries [s, t] = [s] := by
  have hcovers := covers_of_selection s t h
  have hlength : s.path.length = t.path.length := congrArg (fun p => p.2.length) h
  simp [capacityEntries, ordered, keep, List.zipIdx_cons, Before, hlength, hcovers]

/-- With a scope of the same directory that neither covers nor is covered, the entries are
the first of the two and that scope. -/
theorem capacityEntries_twins_and {o : SourceScope} (h : s.selection = t.selection)
    (hapart : ¬Covers s o ∧ ¬Covers o s) : (capacityEntries [s, t, o]).Perm [s, o] := by
  have hcovers := covers_of_selection s t h
  have hlength : s.path.length = t.path.length := congrArg (fun p => p.2.length) h
  have hnot : ¬Covers o t := fun hcovers' =>
    hapart.2 (Covers.trans o t s hcovers' (covers_of_selection t s h.symm))
  by_cases hle : t.path.length ≤ o.path.length
  · have hsort : ordered [s, t, o] = [s, t, o] := by
      have hto : Before (t, 1) (o, 2) := by
        rw [Before]
        dsimp only
        omega
      have hst : Before (s, 0) (t, 1) := Or.inr ⟨hlength, Nat.zero_le _⟩
      simp [ordered, List.zipIdx_cons, hto, hst]
    have hkeep : capacityEntries [s, t, o] = [s, o] := by
      rw [capacityEntries, hsort]
      simp [keep, hcovers, hapart.1]
    rw [hkeep]
  · have hsort : ordered [s, t, o] = [o, s, t] := by
      have hto : ¬Before (t, 1) (o, 2) := by
        rw [Before]
        dsimp only
        omega
      have hso : ¬Before (s, 0) (o, 2) := by
        rw [Before]
        dsimp only
        omega
      have hst : Before (s, 0) (t, 1) := Or.inr ⟨hlength, Nat.zero_le _⟩
      simp [ordered, List.zipIdx_cons, hto, hso, hst]
    have hkeep : capacityEntries [s, t, o] = [o, s] := by
      rw [capacityEntries, hsort]
      simp [keep, hcovers, hapart.2, hnot]
    rw [hkeep]
    exact List.Perm.swap s o []

theorem accounting_twins (horganization : 0 < organizationId) (h : s.selection = t.selection) :
    workspaceCapacityAccounting directories organizationId [s, t] =
      outcome directories organizationId (s.directory directories organizationId) [s] := by
  rw [workspaceCapacityAccounting_eq horganization (List.cons_ne_nil _ _),
    capacityEntries_twins h, settleAll_alone, boundedTotal_eq (outcome_alone_le s)]

theorem accounting_singleton (horganization : 0 < organizationId) (s : SourceScope) :
    workspaceCapacityAccounting directories organizationId [s] =
      outcome directories organizationId (s.directory directories organizationId) [s] := by
  rw [workspaceCapacityAccounting_eq horganization (List.cons_ne_nil _ _),
    capacityEntries_singleton, settleAll_alone, boundedTotal_eq (outcome_alone_le s)]

theorem exact_or_conservative (hsettled : o.2 ≠ .pending) (hknown : o.2 ≠ .unknown) :
    o.2 = .exact ∨ o.2 = .conservative := by
  cases hstatus : o.2 with
  | exact => exact Or.inl rfl
  | conservative => exact Or.inr rfl
  | pending => exact absurd hstatus hsettled
  | unknown => exact absurd hstatus hknown

theorem outcome_unrecorded (hzero : d.sizeBytes = 0)
    (hunknown : ∃ s ∈ es, (s.reading directories organizationId).2 = true) :
    (outcome directories organizationId (some d) es).1 = 0 ∧
      (outcome directories organizationId (some d) es).2 ≠ .unknown := by
  rw [outcome_of_unknown hunknown, hzero, max_self]
  refine ⟨rfl, ?_⟩
  dsimp only
  split
  · simp
  · simp

theorem SourceScope.Meets.path (h : s.Meets d) : ∃ path, PathCovers s.path path ∧
      PathCovers (normalizeScopePath d.sourcePath) path := by
  cases h with
  | inl hover => exact ⟨_, hover, PathCovers.refl _⟩
  | inr hunder => exact ⟨_, PathCovers.refl _, hunder⟩

/-! ## What goes wrong -/

section Necessary

variable (horganization : 0 < organizationId)
  (h : NeverUndercounts directories organizationId D)

include horganization h

variable {s t : SourceScope} {d : BackupSourceSnapshotDirectory}

theorem NeverUndercounts.alike (hs : D s) (ht : D t) (hsame : s.selection = t.selection) :
    s.sized directories organizationId = t.sized directories organizationId := by
  have hD : ∀ u ∈ [s, t], D u := by
    intro u hu
    cases List.mem_cons.mp hu with
    | inl heq => exact heq ▸ hs
    | inr hu => exact List.mem_singleton.mp hu ▸ ht
  have hswap := (h [s, t] hD).2 [t, s] (List.Perm.swap s t [])
  rw [accounting_twins horganization hsame.symm, accounting_twins horganization hsame] at hswap
  rcases outcome_alone directories organizationId s with ⟨n, hn, -, houtcome⟩ | ⟨hn, hinexact, -⟩
  · rcases outcome_alone directories organizationId t with ⟨m, hm, -, houtcome'⟩ | ⟨-, hinexact, -⟩
    · rw [houtcome, houtcome'] at hswap
      have heq : m = n := congrArg Prod.fst hswap
      rw [hn, hm, heq]
    · rw [hswap, houtcome] at hinexact
      exact absurd rfl hinexact
  · rcases outcome_alone directories organizationId t with ⟨m, hm, -, houtcome'⟩ | ⟨hm, -, -⟩
    · rw [← hswap, houtcome'] at hinexact
      exact absurd rfl hinexact
    · rw [hn, hm]

theorem NeverUndercounts.recorded (hs : D s) (hd : s.directory directories organizationId = some d)
    (hzero : d.sizeBytes = 0) (hmeets : s.Meets d) :
    s.stated directories organizationId ≠ none := by
  intro hnone
  obtain ⟨path, hbelow, hinside⟩ := hmeets.path
  let file : StoredFile := ⟨scopeDirectoryIdentity s, path, 1⟩
  have hselects : Selects s file := ⟨rfl, hbelow⟩
  have htrue : Truthful directories organizationId [s] [file] := by
    refine ⟨List.forall_mem_singleton.mpr ?_, List.forall_mem_singleton.mpr ?_,
      List.forall_mem_singleton.mpr ?_⟩
    · intro n hn
      rw [hnone] at hn
      cases hn
    · intro d' hd' f hf _
      obtain rfl := Option.some.inj (hd'.symm.trans hd)
      obtain rfl := List.mem_singleton.mp hf
      exact hinside
    · intro d' hd'
      obtain rfl := Option.some.inj (hd'.symm.trans hd)
      exact Or.inl hzero
  have hunion : unionSize [file] [s] = 1 := by
    simp [unionSize, hselects, file]
  have hbounds := ((h [s] (List.forall_mem_singleton.mpr hs)).1 [file] htrue).1
  rw [accounting_singleton horganization, hunion] at hbounds
  have hzeroBytes : (outcome directories organizationId (s.directory directories organizationId)
      [s]).1 = 0 ∧ (outcome directories organizationId (s.directory directories organizationId)
      [s]).2 ≠ .unknown := by
    cases hknown : s.known directories organizationId with
    | some n =>
      have hroot := (stated_or_root hknown).resolve_left fun hstated => by
        rw [hnone] at hstated
        cases hstated
      obtain ⟨d', hd', -, rfl⟩ := rootSize_eq hroot.2
      obtain rfl := Option.some.inj (hd'.symm.trans hd)
      have hreading := reading_of_known hknown
      rw [outcome_of_known (List.forall_mem_singleton.mpr (by rw [hreading])),
        List.map_singleton, List.sum_singleton, hreading]
      exact ⟨hzero, by simp⟩
    | none =>
      rw [hd]
      exact outcome_unrecorded hzero ⟨s, List.mem_singleton_self s, known_eq_none.mp hknown⟩
  have hstatus := exact_or_conservative (outcome_settled _ _) hzeroBytes.2
  have hle := hbounds hstatus
  rw [hzeroBytes.1] at hle
  omega

theorem NeverUndercounts.outside (hs : D s) (ht : D t)
    (hd : s.directory directories organizationId = some d)
    (hsame : scopeDirectoryIdentity s = scopeDirectoryIdentity t) (hzero : d.sizeBytes = 0)
    (hout : ¬s.Meets d) (hunknown : s.known directories organizationId = none) (hmeets : t.Meets d)
    (hnot : ¬PathCovers t.path s.path) {n : Int}
    (hstated : t.stated directories organizationId = some n) : n = 0 := by
  obtain ⟨path, hbelow, hinside⟩ := hmeets.path
  have hnonneg := (stated_known hstated).1
  have htd : t.directory directories organizationId = some d := (directory_congr hsame).symm.trans hd
  let file : StoredFile := ⟨scopeDirectoryIdentity t, path, n.toNat⟩
  have hselects : Selects t file := ⟨rfl, hbelow⟩
  have hD : ∀ u ∈ [s, t], D u := by simp [hs, ht]
  have hdirectory : ∀ u ∈ [s, t], u.directory directories organizationId = some d := by
    simp [hd, htd]
  have htrue : Truthful directories organizationId [s, t] [file] := by
    refine ⟨?_, ?_, ?_⟩
    · intro u hu m hm
      cases List.mem_cons.mp hu with
      | inl heq =>
        rw [heq, stated_eq_none hunknown] at hm
        cases hm
      | inr hu =>
        obtain rfl := List.mem_singleton.mp hu
        obtain rfl := Option.some.inj (hstated.symm.trans hm)
        simp [selectedSize, hselects, file, Int.toNat_of_nonneg hnonneg]
    · intro u hu d' hd' f hf _
      obtain rfl := Option.some.inj (hd'.symm.trans (hdirectory u hu))
      obtain rfl := List.mem_singleton.mp hf
      exact hinside
    · intro u hu d' hd'
      obtain rfl := Option.some.inj (hd'.symm.trans (hdirectory u hu))
      exact Or.inl hzero
  have hunion : unionSize [file] [s, t] = n.toNat := by
    simp [unionSize, hselects, file]
  have hbounds := ((h [s, t] hD).1 [file] htrue).1
  obtain ⟨k, hid, hrow⟩ := directory_eq_some hd
  have hspans := spans_capacityEntries [s, t]
  have hmem : s ∈ capacityEntries [s, t] := by
    obtain ⟨e, he, hcovers⟩ := hspans.covered s List.mem_cons_self
    cases List.mem_cons.mp (hspans.sub e he) with
    | inl heq => rwa [heq] at he
    | inr hu =>
      rw [List.mem_singleton.mp hu] at hcovers
      exact absurd hcovers.2 hnot
  have hids : ∀ u ∈ capacityEntries [s, t], u.directoryId = some k := by
    intro u hu
    cases List.mem_cons.mp (hspans.sub u hu) with
    | inl heq =>
      rw [heq]
      exact hid
    | inr hu =>
      rw [List.mem_singleton.mp hu]
      exact (directoryId_congr hsame).symm.trans hid
  obtain ⟨hbytes, hstatus⟩ := outcome_unrecorded (d := d) hzero ⟨s, hmem, known_eq_none.mp hunknown⟩
  have hbounded : (outcome directories organizationId (some d) (capacityEntries [s, t])).1 ≤
      maxBigint := by
    rw [hbytes]
    decide
  rw [workspaceCapacityAccounting_eq horganization (List.cons_ne_nil _ _),
    settleAll_of_one (List.ne_nil_of_mem hmem) hids, hrow, boundedTotal_eq hbounded,
    hunion] at hbounds
  have hle := hbounds (exact_or_conservative (outcome_settled _ _) hstatus)
  omega

/-- Of a root with a size and one without, the one that comes first decides whether other
scopes are added. -/
theorem NeverUndercounts.rootAlone {o : SourceScope} (hs : D s) (ht : D t) (ho : D o)
    (hd : s.directory directories organizationId = some d)
    (hroot : s.path = normalizeScopePath d.sourcePath) (hsame : s.selection = t.selection)
    (hidentity : scopeDirectoryIdentity o = scopeDirectoryIdentity s) (hout : ¬o.Meets d)
    (hknown : s.known directories organizationId ≠ none)
    (hunknown : t.known directories organizationId = none) {m : Int}
    (hm : o.known directories organizationId = some m) : m = 0 := by
  obtain ⟨n, hn⟩ := Option.ne_none_iff_exists'.mp hknown
  have hD : ∀ u ∈ [s, t, o], D u := by simp [hs, ht, ho]
  have hswap := (h [s, t, o] hD).2 [t, s, o] (List.Perm.swap s t [o])
  have halike := h.alike horganization hs ht hsame
  obtain ⟨k, hid, hrow⟩ := directory_eq_some hd
  have htid : t.directoryId = some k := (directoryId_congr (congrArg Prod.fst hsame)).symm.trans hid
  have hoid : o.directoryId = some k := (directoryId_congr hidentity).trans hid
  have htd : t.directory directories organizationId = some d := (directory_of_id htid).trans hrow
  have htroot : t.path = normalizeScopePath d.sourcePath :=
    (congrArg Prod.snd hsame).symm.trans hroot
  have hsize : n = d.sizeBytes := by
    rw [sized_of_known hn, SourceScope.sized, hunknown, Option.none_or,
      rootSize_of_root htd htroot] at halike
    exact Option.some.inj halike
  have hapart : ¬Covers s o ∧ ¬Covers o s := by
    constructor
    · intro hcovers
      exact hout (Or.inr (hroot ▸ hcovers.2))
    · intro hcovers
      exact hout (Or.inl (hroot ▸ hcovers.2))
  have hapart' : ¬Covers t o ∧ ¬Covers o t := by
    constructor
    · intro hcovers
      exact hout (Or.inr (htroot ▸ hcovers.2))
    · intro hcovers
      exact hout (Or.inl (htroot ▸ hcovers.2))
  have hentries := capacityEntries_twins_and hsame hapart
  have hentries' := capacityEntries_twins_and hsame.symm hapart'
  have hmem : ∀ u ∈ capacityEntries [s, t, o], u = s ∨ u = o := fun u hu => by
    simpa using hentries.subset hu
  have hmem' : ∀ u ∈ capacityEntries [t, s, o], u = t ∨ u = o := fun u hu => by
    simpa using hentries'.subset hu
  have hcount : outcome directories organizationId (some d) (capacityEntries [s, t, o]) =
      (n + m, .exact) := by
    have hall : ∀ u ∈ capacityEntries [s, t, o],
        (u.reading directories organizationId).2 = false := by
      intro u hu
      cases hmem u hu with
      | inl heq => rw [heq, reading_of_known hn]
      | inr heq => rw [heq, reading_of_known hm]
    have hsum := (hentries.map fun u => (u.reading directories organizationId).1).sum_eq
    rw [List.map_cons, List.map_singleton, List.sum_cons, List.sum_singleton,
      reading_of_known hn, reading_of_known hm] at hsum
    rw [outcome_of_known hall, hsum]
  have ht : t ∈ capacityEntries [t, s, o] := hentries'.symm.subset List.mem_cons_self
  have hcount' : outcome directories organizationId (some d) (capacityEntries [t, s, o]) =
      (d.sizeBytes, .exact) := by
    rw [outcome_of_unknown ⟨t, ht, known_eq_none.mp hunknown⟩, if_pos ⟨t, ht, htroot⟩,
      max_eq_right d.size_nonneg]
  have hids : ∀ u ∈ capacityEntries [s, t, o], u.directoryId = some k := by
    intro u hu
    cases hmem u hu with
    | inl heq => rw [heq, hid]
    | inr heq => rw [heq, hoid]
  have hids' : ∀ u ∈ capacityEntries [t, s, o], u.directoryId = some k := by
    intro u hu
    cases hmem' u hu with
    | inl heq => rw [heq, htid]
    | inr heq => rw [heq, hoid]
  have hs : s ∈ capacityEntries [s, t, o] := hentries.symm.subset List.mem_cons_self
  rw [workspaceCapacityAccounting_eq horganization (List.cons_ne_nil _ _),
    workspaceCapacityAccounting_eq horganization (List.cons_ne_nil _ _),
    settleAll_of_one (List.ne_nil_of_mem ht) hids', settleAll_of_one (List.ne_nil_of_mem hs) hids,
    hrow, hcount, hcount', boundedTotal_eq d.size_le, boundedTotal] at hswap
  split at hswap
  case isTrue => exact absurd (congrArg Prod.snd hswap) (by simp)
  case isFalse =>
    have heq : d.sizeBytes = n + m := congrArg Prod.fst hswap
    omega

end Necessary

/-! ## Exactly when -/

/-- The accounting of some scopes never undercounts, claims to be exact only if it is, and does
not depend on their order, exactly if they can be accounted for. -/
theorem neverUndercounts_iff (directories : Directories) {organizationId : Int}
    (horganization : 0 < organizationId) (D : SourceScope → Prop) :
    NeverUndercounts directories organizationId D ↔
      Accountable directories organizationId D := by
  constructor
  · intro h
    exact {
      alike := fun s t hs ht => h.alike horganization hs ht
      recorded := fun s hs d hd => h.recorded horganization hs hd
      outside := fun s t hs ht d hd hsame hzero hout hunknown hmeets hnot n =>
        h.outside horganization hs ht hd hsame hzero hout hunknown hmeets hnot
      rootAlone := fun s t o hs ht ho d hd hroot hsame hidentity hout hknown hunknown n =>
        h.rootAlone horganization hs ht ho hd hroot hsame hidentity hout hknown hunknown }
  · intro haccountable scopes hD
    refine ⟨fun files htrue => ?_, fun scopes' hperm =>
      accounting_perm horganization haccountable hD hperm⟩
    by_cases hnil : scopes = []
    · have hempty : workspaceCapacityAccounting directories organizationId [] = (0, .unknown) :=
        rfl
      rw [hnil, hempty]
      refine ⟨?_, by simp⟩
      rintro (h | h)
      · cases h
      · cases h
    · have hsound := sound_accounting horganization haccountable htrue hD hnil
      refine ⟨fun hstatus => hsound.bound ?_, hsound.exact⟩
      rcases hstatus with hstatus | hstatus
      · rw [hstatus]
        simp
      · rw [hstatus]
        simp

/-- A row of a directory whose size was never recorded. -/
def unrecordedDirectory : BackupSourceSnapshotDirectory where
  organizationId := 17
  sourcePath := "/root"
  fileCount := 0
  sizeBytes := 0
  size_nonneg := Int.le_refl 0
  size_le := by decide

def legacyScope : SourceScope where
  sourcePath := "/root/a"
  backupSnapshotDirectoryId := .int 31
  pathType := .str "dir"
  sizeBytes := .null
  fileCount := .null
  path_given := by decide

def summarizedScope : SourceScope :=
  { legacyScope with sizeBytes := .int 2048, fileCount := .int 10 }

theorem summarized_accounted : NeverUndercounts (fun _ => some unrecordedDirectory) 17
    (· = summarizedScope) := by
  refine (neverUndercounts_iff _ (by decide) _).mpr ⟨?_, ?_, ?_, ?_⟩
  · rintro s t rfl rfl _
    rfl
  · rintro s rfl d - - -
    decide
  · rintro s t rfl rfl d - - - - hunknown
    exact absurd hunknown (by decide)
  · rintro s t o rfl rfl rfl d - - - - - - hunknown
    exact absurd hunknown (by decide)

/-- A selection in a directory that was never recorded counts as empty. -/
theorem unrecorded_undercounted : ¬ ∀ (directories : Directories) (organizationId : Int),
    0 < organizationId → NeverUndercounts directories organizationId fun _ => True := by
  intro h
  have hbounds := h (fun _ => some unrecordedDirectory) 17 (by decide)
  have hstated := hbounds.recorded (by decide) (s := legacyScope) trivial (d := unrecordedDirectory)
    rfl rfl (Or.inr (by decide))
  exact hstated (by decide)

end HyperFileLens.Lens
