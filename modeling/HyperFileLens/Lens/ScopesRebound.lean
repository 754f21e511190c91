import Mathlib.Data.List.Dedup
import Mathlib.Data.List.Pairwise
import Mathlib.Data.List.Perm.Subperm
import HyperFileLens.Lens.UpdateScopes
import HyperFileLens.Library.Transition

/-!
# The directories that scopes are bound to

When `resolve_update_scopes` succeeds, every scope is bound to a directory of the new snapshot
that is above it, and to the most specific one of those that could be meant.

Two directories of a snapshot never have one configured directory, so the old directory leaves
one candidate at most.
-/

namespace HyperFileLens.Lens.ChatUpdate

open Transition

/-! ## Candidates -/

/-- A directory above a scope, with the parts of its path. -/
structure IsCandidate (m : CaseMapping) (directories : List SnapshotDirectory) (drive : List Char)
    (parts : List Part) (row : Candidate) : Prop where
  mem : row.1 ∈ directories
  drive : scopeDriveAndParts m row.1.sourcePath = .ok (drive, row.2)
  above : row.2.map m.casefold <+: parts.map m.casefold

/-- The candidates that could be meant are shorter than the chosen one. -/
def LongestOf (P : Candidate → Prop) (row : Candidate) : Prop :=
  P row ∧ ∀ other, P other → other = row ∨ other.2.length < row.2.length

/-- The most specific candidate: of the configured directory of the old one, or else of the letter
case of the scope, or else of them all, which have one configured directory then. -/
inductive MostSpecific (old : Option SnapshotDirectory) (parts : List Part) (P : Candidate → Prop)
    (row : Candidate) : Prop where
  | configured (o : SnapshotDirectory) (hold : old = some o)
      (h : LongestOf (fun c => P c ∧ c.1.backupConfigDirId = o.backupConfigDirId) row)
  | letterCase (hold : ∀ o ∈ old, ∀ c, P c → c.1.backupConfigDirId ≠ o.backupConfigDirId)
      (h : LongestOf (fun c => P c ∧ c.2 <+: parts) row)
  | only (hold : ∀ o ∈ old, ∀ c, P c → c.1.backupConfigDirId ≠ o.backupConfigDirId)
      (hcase : ∀ c, P c → ¬ c.2 <+: parts)
      (hconfig : ∀ c, P c → c.1.backupConfigDirId = row.1.backupConfigDirId)
      (h : LongestOf P row)

/-- A scope is bound to one directory, the most specific one above it. -/
structure RightlyBound (m : CaseMapping) (directories : List SnapshotDirectory)
    (old : Option SnapshotDirectory) (scope : Dict) (update : UpdateScope) (drive : List Char)
    (parts : List Part) (row : Candidate) : Prop where
  path : scopeDriveAndParts m (sourcePathOf scope) = .ok (drive, parts)
  candidate : IsCandidate m directories drive parts row
  sourcePath : update.sourcePath = sourcePathOf scope
  directory : ∀ d ∈ directories, d.id = update.snapshotDirectoryId ↔ d = row.1
  selected : update.selectedPath = joinParts (parts.drop row.2.length)
  specific : MostSpecific old parts (IsCandidate m directories drive parts) row

section Candidates

variable {m : CaseMapping} {directories : List SnapshotDirectory} {drive : List Char}
  {parts : List Part} {candidates : List Candidate}

variable {row : Candidate}

theorem isPrefix_map_iff {f : Part → Part} {a b : List Part} :
    a.length ≤ b.length ∧ a.map f = (b.take a.length).map f ↔ a.map f <+: b.map f := by
  rw [List.prefix_iff_eq_take, List.length_map, List.map_take]
  constructor
  · exact fun h => h.2
  · intro h
    refine ⟨?_, h⟩
    have hlength := congrArg List.length h
    rw [List.length_map, List.length_take, List.length_map] at hlength
    omega

theorem candidatesOf_eq_ok (h : candidatesOf m directories drive parts = .ok candidates) :
    (∀ row, row ∈ candidates ↔ IsCandidate m directories drive parts row) ∧
      (candidates.map Prod.fst).Sublist directories := by
  have hloop : ∀ (ds : List SnapshotDirectory) (acc : List Candidate),
      ds.foldlM (addCandidate m drive parts) acc = .ok candidates →
      ∃ found, candidates = acc ++ found ∧ (∀ row, row ∈ found ↔ IsCandidate m ds drive parts row) ∧
          (found.map Prod.fst).Sublist ds := by
    intro ds
    induction ds with
    | nil =>
      intro acc hacc
      cases hacc
      refine ⟨[], by simp, fun row => ?_, List.Sublist.refl _⟩
      constructor
      · intro hrow
        simp at hrow
      · intro hrow
        exact absurd hrow.mem (by simp)
    | cons d ds ih =>
      intro acc hacc
      rw [List.foldlM_cons] at hacc
      obtain ⟨acc', hbody, hrest⟩ := bind_eq_ok.mp hacc
      obtain ⟨⟨directoryDrive, directoryParts⟩, hdrive, hstep⟩ := bind_eq_ok.mp hbody
      obtain ⟨found, hfound, hmem, hsublist⟩ := ih acc' hrest
      dsimp only at hstep
      split at hstep
      · rename_i htest
        obtain ⟨rfl, habove⟩ := htest
        cases hstep
        refine ⟨(d, directoryParts) :: found, by simp [hfound], fun row => ?_,
          by simpa using hsublist⟩
        rw [List.mem_cons, hmem row]
        constructor
        · rintro (rfl | hrow)
          · exact ⟨List.mem_cons_self, hdrive, isPrefix_map_iff.mp habove⟩
          · exact ⟨List.mem_cons_of_mem d hrow.mem, hrow.drive, hrow.above⟩
        · rintro ⟨hrow, hdrive', habove'⟩
          rcases List.mem_cons.mp hrow with heq | hrow
          · rw [heq, hdrive] at hdrive'
            have hparts := (Prod.mk.inj (Except.ok.inj hdrive')).2
            exact .inl (Prod.ext heq hparts.symm)
          · exact .inr ⟨hrow, hdrive', habove'⟩
      · rename_i htest
        cases hstep
        refine ⟨found, hfound, fun row => ?_, hsublist.cons d⟩
        rw [hmem row]
        constructor
        · exact fun hrow => ⟨List.mem_cons_of_mem d hrow.mem, hrow.drive, hrow.above⟩
        · rintro ⟨hrow, hdrive', habove'⟩
          rcases List.mem_cons.mp hrow with heq | hrow
          · rw [heq, hdrive] at hdrive'
            obtain ⟨rfl, hparts⟩ := Prod.mk.inj (Except.ok.inj hdrive')
            exact absurd ⟨rfl, isPrefix_map_iff.mpr (hparts ▸ habove')⟩ htest
          · exact ⟨hrow, hdrive', habove'⟩
  obtain ⟨found, hfound, hmem, hsublist⟩ := hloop directories [] h
  obtain rfl : candidates = found := hfound
  exact ⟨hmem, hsublist⟩

/-! ## The choice -/

theorem length_le_longest (h : row ∈ candidates) :
    row.2.length ≤ candidates.foldl (fun n row => max n row.2.length) 0 := by
  have hloop : ∀ (rows : List Candidate) (n : Nat),
      n ≤ rows.foldl (fun n row => max n row.2.length) n ∧
        ∀ row ∈ rows, row.2.length ≤ rows.foldl (fun n row => max n row.2.length) n := by
    intro rows
    induction rows with
    | nil => simp
    | cons first rows ih =>
      intro n
      obtain ⟨hbound, hrows⟩ := ih (max n first.2.length)
      rw [List.foldl_cons]
      refine ⟨by omega, fun row hrow => ?_⟩
      rcases List.mem_cons.mp hrow with rfl | hrow
      · omega
      · exact hrows row hrow
  exact (hloop candidates 0).2 row h

theorem finalist_eq_ok {path : List Char} (h : finalist path candidates = .ok row) :
    LongestOf (· ∈ candidates) row := by
  rw [finalist] at h
  split at h
  · rename_i row' hfilter
    obtain rfl := Except.ok.inj h
    have hmem : row' ∈ candidates ∧
        row'.2.length = candidates.foldl (fun n row => max n row.2.length) 0 := by
      have := hfilter ▸ List.mem_singleton_self row'
      simpa using this
    refine ⟨hmem.1, fun other hother => ?_⟩
    by_cases hlong : other.2.length = candidates.foldl (fun n row => max n row.2.length) 0
    · refine .inl ?_
      have hin : other ∈ candidates.filter fun row =>
          row.2.length = candidates.foldl (fun n row => max n row.2.length) 0 := by
        simp [hother, hlong]
      rw [hfilter] at hin
      exact List.mem_singleton.mp hin
    · have hle := length_le_longest hother
      rw [hmem.2]
      omega
  · cases h

theorem LongestOf.congr {P Q : Candidate → Prop} (h : LongestOf P row) (hPQ : ∀ c, P c ↔ Q c) :
    LongestOf Q row :=
  ⟨(hPQ row).mp h.1, fun other hother => h.2 other ((hPQ other).mpr hother)⟩

theorem mem_exactCase : row ∈ exactCase parts candidates ↔ row ∈ candidates ∧ row.2 <+: parts := by
  rw [exactCase, List.mem_filter, decide_eq_true_eq, List.prefix_iff_eq_take]

theorem mem_sameRoot {o : SnapshotDirectory} : row ∈ sameRoot (some o) candidates ↔
      row ∈ candidates ∧ row.1.backupConfigDirId = o.backupConfigDirId := by
  rw [sameRoot, List.mem_filter, decide_eq_true_eq]

theorem configured_eq_of_dedup {a b : Candidate} (ha : a ∈ candidates) (hb : b ∈ candidates)
    (h : ¬ 1 < (candidates.map fun row => row.1.backupConfigDirId).dedup.length) :
    a.1.backupConfigDirId = b.1.backupConfigDirId := by
  by_contra hne
  have hnodup : [a.1.backupConfigDirId, b.1.backupConfigDirId].Nodup := by simpa using hne
  have hsubset : [a.1.backupConfigDirId, b.1.backupConfigDirId] ⊆
      (candidates.map fun row => row.1.backupConfigDirId).dedup := by
    intro n hn
    rw [List.mem_dedup]
    rcases List.mem_cons.mp hn with rfl | hn
    · exact List.mem_map_of_mem ha
    · rw [List.mem_singleton.mp hn]
      exact List.mem_map_of_mem hb
  have hlength := (hnodup.subperm hsubset).length_le
  simp only [List.length_cons, List.length_nil] at hlength
  omega

theorem choose_eq_ok {path : List Char} {old : Option SnapshotDirectory}
    (hconfigured : ∀ a ∈ candidates, ∀ b ∈ candidates,
      a.1.backupConfigDirId = b.1.backupConfigDirId → a = b)
    (h : choose path parts old candidates = .ok row) :
    row ∈ candidates ∧ MostSpecific old parts (· ∈ candidates) row := by
  rw [choose] at h
  by_cases hroot : sameRoot old candidates = []
  · -- no candidate has the configured directory of the old one
    have hold : ∀ o ∈ old, ∀ c ∈ candidates, c.1.backupConfigDirId ≠ o.backupConfigDirId := by
      intro o ho c hc heq
      obtain rfl : old = some o := ho
      have hmem := mem_sameRoot.mpr ⟨hc, heq⟩
      rw [hroot] at hmem
      cases hmem
    simp only [hroot, ne_eq, not_true_eq_false, if_false, not_false_eq_true, true_and] at h
    split at h
    · have hlongest := (finalist_eq_ok h).congr fun c => mem_exactCase
      exact ⟨hlongest.1.1, .letterCase hold hlongest⟩
    rename_i hexact
    split at h
    · cases h
    rename_i hdedup
    have hlongest := finalist_eq_ok h
    refine ⟨hlongest.1, .only hold (fun c hc hcase => ?_) (fun c hc => ?_) hlongest⟩
    · exact hexact fun hnil => by
        have hmem := mem_exactCase.mpr ⟨hc, hcase⟩
        rw [hnil] at hmem
        cases hmem
    · exact configured_eq_of_dedup hc hlongest.1 hdedup
  · -- the old directory leaves one candidate
    cases old with
    | none => exact absurd rfl hroot
    | some o =>
      have hrow : row ∈ candidates ∧ row.1.backupConfigDirId = o.backupConfigDirId := by
        simp only [hroot, ne_eq, not_false_eq_true, if_true, not_true_eq_false, false_and,
          if_false] at h
        split at h
        · exact mem_sameRoot.mp (mem_exactCase.mp (finalist_eq_ok h).1).1
        · exact mem_sameRoot.mp (finalist_eq_ok h).1
      refine ⟨hrow.1, .configured o rfl ⟨hrow, fun other hother => .inl ?_⟩⟩
      exact hconfigured other hother.1 row hrow.1 (hother.2.trans hrow.2.symm)

end Candidates

/-! ## All scopes -/

section Scopes

variable {m : CaseMapping} {tables : Tables} {chat : SessionLink}

theorem targetDirectories_apart (target : BackupSourceSnapshot) :
    (targetDirectories tables chat target).Pairwise fun a b =>
      a.id ≠ b.id ∧ a.backupConfigDirId ≠ b.backupConfigDirId := by
  have hbeside := tables.beside.sublist (List.filter_sublist (p := fun row : SnapshotDirectory =>
      row.organizationId = chat.organizationId ∧ row.sourceSnapshotId = target.id ∧
        row.status = "available"))
  refine hbeside.imp_of_mem fun {a b} ha hb h => ⟨h.1, h.2 ?_⟩
  have ha' := (List.mem_filter.mp ha).2
  have hb' := (List.mem_filter.mp hb).2
  simp only [decide_eq_true_eq] at ha' hb'
  exact ha'.2.1.trans hb'.2.1.symm

theorem eq_of_apart {β γ : Type} {l : List β} {f : β → γ} (h : l.Pairwise fun a b => f a ≠ f b)
    {a b : β} (ha : a ∈ l) (hb : b ∈ l) (hab : f a = f b) : a = b := by
  by_contra hne
  have : Std.Symm fun a b : β => f a ≠ f b := ⟨fun _ _ h heq => h heq.symm⟩
  exact h.forall ha hb hne hab

theorem rebindScope_eq_ok {directories : List SnapshotDirectory}
    {oldDirectories : Int → Option SnapshotDirectory} {scope : Dict} {update : UpdateScope}
    (hapart : directories.Pairwise fun a b =>
      a.id ≠ b.id ∧ a.backupConfigDirId ≠ b.backupConfigDirId)
    (h : rebindScope m directories oldDirectories scope = .ok update) :
    ∃ oldId, oldDirectoryId scope = .ok oldId ∧ ∃ drive parts row,
      RightlyBound m directories (oldId.bind oldDirectories) scope update drive parts row := by
  obtain ⟨⟨drive, parts⟩, hpath, hcandidates⟩ := bind_eq_ok.mp h
  obtain ⟨candidates, hfound, hrest⟩ := bind_eq_ok.mp hcandidates
  split at hrest
  · cases hrest
  obtain ⟨oldId, hold, hchosen⟩ := bind_eq_ok.mp hrest
  obtain ⟨row, hchoose, hupdate⟩ := bind_eq_ok.mp hchosen
  have hupdate := Except.ok.inj hupdate
  obtain ⟨hmem, -⟩ := candidatesOf_eq_ok hfound
  have hconfigured : ∀ a ∈ candidates, ∀ b ∈ candidates,
      a.1.backupConfigDirId = b.1.backupConfigDirId → a = b := by
    intro a ha b hb hab
    have ha' := (hmem a).mp ha
    have hb' := (hmem b).mp hb
    have heq : a.1 = b.1 :=
      eq_of_apart (hapart.imp fun h => h.2) ha'.mem hb'.mem hab
    have hdrive := ha'.drive
    rw [heq, hb'.drive] at hdrive
    exact Prod.ext heq (Prod.mk.inj (Except.ok.inj hdrive)).2.symm
  obtain ⟨hrow, hspecific⟩ := choose_eq_ok hconfigured hchoose
  have hP : (fun c => c ∈ candidates) = IsCandidate m directories drive parts :=
    funext fun c => propext (hmem c)
  rw [hP] at hspecific
  have hcandidate := (hmem row).mp hrow
  refine ⟨oldId, hold, drive, parts, row, hpath, hcandidate, by rw [← hupdate], fun d hd => ?_,
    by rw [← hupdate], hspecific⟩
  rw [← hupdate]
  constructor
  · exact fun hid => eq_of_apart (hapart.imp fun h => h.1) hd hcandidate.mem hid
  · exact fun heq => congrArg SnapshotDirectory.id heq

theorem forall₂_of_mapM {β γ : Type} {f : β → Except String γ} {xs : List β} {ys : List γ}
    (h : xs.mapM f = .ok ys) : List.Forall₂ (fun x y => f x = .ok y) xs ys := by
  induction xs generalizing ys with
  | nil =>
    cases h
    exact .nil
  | cons x xs ih =>
    rw [List.mapM_cons] at h
    obtain ⟨y, hy, hrest⟩ := bind_eq_ok.mp h
    obtain ⟨ys', hys, hcons⟩ := bind_eq_ok.mp hrest
    cases hcons
    exact .cons hy (ih hys)

theorem knowledgeSource_of_checkChat {ks : KnowledgeSource} {binding : WorkspaceBinding}
    (h : checkChat chat = .ok (ks, binding)) : chat.knowledgeSource = some ks := by
  rw [checkChat] at h
  split at h
  · cases h
  rename_i ks' hks
  split at h
  · cases h
  split at h
  · cases h
  split at h
  · cases h
  split at h
  · cases h
  split at h
  · cases h
  · rw [hks, (Prod.mk.inj (Except.ok.inj h)).1]

/-- When the scopes of a Chat are resolved, each is bound to one directory of the new snapshot, the
most specific one above it. -/
theorem scopes_rebound (m : CaseMapping) (tables : Tables) (chat : SessionLink) (snapshotId : Int)
    (target : BackupSourceSnapshot) (updates : List UpdateScope)
    (h : resolveUpdateScopes m tables chat snapshotId = .ok (target, updates)) :
    ∃ ks, chat.knowledgeSource = some ks ∧ List.Forall₂
      (fun scope update => ∃ oldId, oldDirectoryId scope = .ok oldId ∧ ∃ drive parts row,
        RightlyBound m (targetDirectories tables chat target)
          (oldId.bind (oldDirectory tables chat)) scope update drive parts row)
      (scopeEntries ks) updates := by
  obtain ⟨⟨ks, binding⟩, hchat, htarget⟩ := bind_eq_ok.mp h
  obtain ⟨target', -, hscopes⟩ := bind_eq_ok.mp htarget
  dsimp only at hscopes
  split at hscopes
  · cases hscopes
  split at hscopes
  · cases hscopes
  obtain ⟨_, -, hrebind⟩ := bind_eq_ok.mp hscopes
  obtain ⟨rebound, hmapM, hresult⟩ := bind_eq_ok.mp hrebind
  obtain ⟨rfl, rfl⟩ := Prod.mk.inj (Except.ok.inj hresult)
  refine ⟨ks, knowledgeSource_of_checkChat hchat, (forall₂_of_mapM hmapM).imp ?_⟩
  exact fun scope update hscope => rebindScope_eq_ok (targetDirectories_apart target') hscope

end Scopes

/-! ## A Chat on three directories -/

/-- A snapshot with three directories whose paths differ in letter case. -/
def dataTables : Tables where
  snapshots := [⟨2, 1, 1, "agent", 7, "available"⟩]
  configs := [⟨1, 1, "agent", 7⟩]
  directories :=
    [⟨11, 1, 2, 1, "/data".toList, "directory", "available"⟩,
      ⟨12, 1, 2, 2, "/DATA".toList, "directory", "available"⟩,
      ⟨13, 1, 2, 3, "/DATA/reports".toList, "directory", "available"⟩]
  beside := by decide

/-- A Chat with one scope, whose old directory is gone. -/
def dataChat : SessionLink where
  organizationId := 1
  backupConfigId := some 1
  lifecycleStatus := "ready"
  knowledgeSource := some {
    lifecycleStatus := "ready"
    linkedVersionMode := "pinned"
    slAssistantUuid := some "a"
    slDatasourceUuid := some "d"
    backupSourceSnapshotId := none
    backupSnapshotDirectoryId := none
    sourcePath := ""
    sourceScopesJson := [.obj [("source_path", .str "/data/reports"),
      ("backup_snapshot_directory_id", .int 9876)]]
    workspaceBinding := some ⟨"managed_restore", "ready", "/w".toList⟩
    missingCapabilities := []
    conversionEnabled := true }

def dataScope : UpdateScope :=
  ⟨"/data/reports".toList, 11, "/data".toList, "directory", "reports".toList, "unknown"⟩

theorem dataScopes_resolved : resolveUpdateScopes asciiCase dataTables dataChat 2 =
    .ok (⟨2, 1, 1, "agent", 7, "available"⟩, [dataScope]) := by
  decide +kernel

theorem dataScopes_rebound : ∃ ks, dataChat.knowledgeSource = some ks ∧ List.Forall₂
    (fun scope update => ∃ oldId, oldDirectoryId scope = .ok oldId ∧ ∃ drive parts row,
      RightlyBound asciiCase
        (targetDirectories dataTables dataChat ⟨2, 1, 1, "agent", 7, "available"⟩)
        (oldId.bind (oldDirectory dataTables dataChat)) scope update drive parts row)
    (scopeEntries ks) [dataScope] :=
  scopes_rebound asciiCase dataTables dataChat 2 _ _ dataScopes_resolved

end HyperFileLens.Lens.ChatUpdate
