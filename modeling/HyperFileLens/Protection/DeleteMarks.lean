import HyperFileLens.Protection.SnapshotDelete

/-!
# What a deletion marks

Directories of a snapshot become `DELETED` in `run_snapshot_delete_task` only.

*Marks.*  `Marks P` says of which directories that is: `P` is about the identifier of a
directory and its physical identifier. The loop over the groups marks what an answer
confirms (`marks_runGroups`), and an answer comes from the executor of its group
(`answers_runGroups`).
-/

namespace HyperFileLens.Protection

open Tasks

/-! ## Normalized identifiers -/

theorem normalizeKopiaSnapshotId_idem (s : String) :
    normalizeKopiaSnapshotId (normalizeKopiaSnapshotId s) = normalizeKopiaSnapshotId s := by
  by_cases h : Text.lower (Text.strip s) ∈ ["none", "null"]
  · have hempty : normalizeKopiaSnapshotId s = "" := by
      rw [normalizeKopiaSnapshotId]
      exact if_pos h
    rw [hempty]
    decide
  · have hstrip : normalizeKopiaSnapshotId s = Text.strip s := by
      rw [normalizeKopiaSnapshotId]
      exact if_neg h
    rw [hstrip, normalizeKopiaSnapshotId, Text.strip_strip]
    exact if_neg h

theorem normalize_of_mem_reconciledIds {items : List Dict} {id : String}
    (h : id ∈ (classifyKopiaSnapshotDeleteResults items).reconciledIds) :
    normalizeKopiaSnapshotId id = id := by
  induction items with
  | nil => cases h
  | cons item items ih =>
    have hitem : normalizeKopiaSnapshotId (itemId item) = itemId item :=
      normalizeKopiaSnapshotId_idem _
    have hcases : id = itemId item ∨
        id ∈ (classifyKopiaSnapshotDeleteResults items).reconciledIds := by
      rw [classifyKopiaSnapshotDeleteResults] at h
      simp only [ClassifiedResults.reconciledIds, List.mem_append] at h ⊢
      generalize itemId item = x at h ⊢
      split at h
      · exact .inr h
      · split at h
        · exact or_assoc.mp (h.imp_left List.mem_cons.mp)
        · split at h
          · exact or_left_comm.mp (h.imp_right List.mem_cons.mp)
          · exact .inr h
    rcases hcases with hid | h
    · rw [hid, hitem]
    · exact ih h

/-! ## Marks -/

/-- Directories change only by becoming `DELETED`, and only those that `P` allows. -/
structure Marks (P : Nat → Option String → Prop) (s s' : SnapshotRecord) : Prop where
  rows : ∀ d' ∈ s'.directories, ∃ d ∈ s.directories, d'.id = d.id ∧
    d'.kopiaSnapshotId = d.kopiaSnapshotId ∧
    (d'.status = .deleted → d.status = .deleted ∨ P d.id d.kopiaSnapshotId)
  keyed : Table.Keyed SnapshotDirectory.id s.directories →
    Table.Keyed SnapshotDirectory.id s'.directories

section Marks

variable {P Q : Nat → Option String → Prop} {s s' s'' : SnapshotRecord}

theorem Marks.of_eq (h : s'.directories = s.directories) : Marks P s s' where
  rows := fun d hd => ⟨d, h ▸ hd, rfl, rfl, .inl⟩
  keyed := fun hk => h ▸ hk

theorem Marks.refl (s : SnapshotRecord) : Marks P s s := .of_eq rfl

theorem Marks.trans (h : Marks P s s') (h' : Marks P s' s'') : Marks P s s'' where
  rows := by
    intro d'' hd''
    obtain ⟨d', hd', hid', hkopia', hdeleted'⟩ := h'.rows d'' hd''
    obtain ⟨d, hd, hid, hkopia, hdeleted⟩ := h.rows d' hd'
    refine ⟨d, hd, hid'.trans hid, hkopia'.trans hkopia, fun hstatus => ?_⟩
    rcases hdeleted' hstatus with hstatus | hP
    · exact hdeleted hstatus
    · exact .inr (by rwa [hid, hkopia] at hP)
  keyed := h'.keyed ∘ h.keyed

theorem Marks.mono (himp : ∀ id kopia, P id kopia → Q id kopia) (h : Marks P s s') :
    Marks Q s s' where
  rows := by
    intro d' hd'
    obtain ⟨d, hd, hid, hkopia, hdeleted⟩ := h.rows d' hd'
    exact ⟨d, hd, hid, hkopia, fun hstatus => (hdeleted hstatus).imp_right (himp _ _)⟩
  keyed := h.keyed

theorem marks_markDeleted (s : SnapshotRecord) (p : SnapshotDirectory → Bool)
    (h : ∀ row ∈ s.directories, p row = true →
      row.status = .deleted ∨ P row.id row.kopiaSnapshotId) :
    Marks P s (markDeleted s p) where
  rows := by
    intro d' hd'
    obtain ⟨d, hd, rfl⟩ := List.mem_map.mp hd'
    refine ⟨d, hd, ?_⟩
    split
    · rename_i hp
      exact ⟨rfl, rfl, fun _ => h d hd hp⟩
    · exact ⟨rfl, rfl, .inl⟩
  keyed := fun hk => hk.map fun r => by split <;> rfl

end Marks

/-! ## Directories that no part of a run but the marks touches -/

section Directories

variable (taskId : Nat) (s : SnapshotRecord)

section

variable (f : TaskRow DeleteResult → TaskRow DeleteResult)

@[simp] theorem directories_updateTask : (updateTask s taskId f).directories = s.directories := rfl

@[simp] theorem row_updateTask : (updateTask s taskId f).row = s.row := rfl

@[simp] theorem leases_updateTask : (updateTask s taskId f).leases = s.leases := rfl

end

@[simp] theorem directories_deferSnapshotDelete :
    (deferSnapshotDelete taskId s).directories = s.directories := rfl

@[simp] theorem row_deferSnapshotDelete : (deferSnapshotDelete taskId s).row = s.row := rfl

@[simp] theorem directories_failSnapshotDeleteTask (code message : String)
    (result : Option DeleteResult) :
    (failSnapshotDeleteTask taskId code message result s).directories = s.directories := by
  rw [failSnapshotDeleteTask]
  split
  · rfl
  · split <;> rfl

@[simp] theorem directories_interruptDelete (error : ExecutorError) :
    (interruptDelete taskId error s).1.directories = s.directories := by
  cases error <;> simp [interruptDelete]

@[simp] theorem directories_completeDelete (now : Int) (result : DeleteResult) :
    (completeDelete taskId now result s).directories = s.directories := rfl

end Directories

/-! ## Groups -/

structure GroupsOf (locator : SnapshotDirectory → Except String SnapshotRepositoryLocator)
    (rows : List SnapshotDirectory) (groups : List LocatorGroup) : Prop where
  mem : ∀ g ∈ groups, ∀ row ∈ g.rows, row ∈ rows ∧ locator row = .ok g.locator
  cover : ∀ row ∈ rows, ∃ g ∈ groups, row ∈ g.rows
  distinct : (groups.map LocatorGroup.locator).Nodup

section Groups

variable {locator : SnapshotDirectory → Except String SnapshotRepositoryLocator}
  {rows : List SnapshotDirectory} {groups : List LocatorGroup}

theorem GroupsOf.add (h : GroupsOf locator rows groups) {row : SnapshotDirectory}
    {l : SnapshotRepositoryLocator} (hl : locator row = .ok l) :
    GroupsOf locator (rows ++ [row]) (addToGroup groups l row) := by
  have hin : ∀ {r}, r ∈ rows → r ∈ rows ++ [row] := fun hr => List.mem_append_left _ hr
  have hrow : row ∈ rows ++ [row] := List.mem_append_right _ (List.mem_singleton_self row)
  rw [addToGroup]
  split
  · rename_i hany
    obtain ⟨old, hold, hlocator⟩ := List.any_eq_true.mp hany
    have hlocator : old.locator = l := of_decide_eq_true hlocator
    refine ⟨?_, ?_, ?_⟩
    · intro g' hg' r hr
      obtain ⟨g, hg, rfl⟩ := List.mem_map.mp hg'
      split at hr
      · rename_i hgl
        rw [if_pos hgl]
        rcases List.mem_append.mp hr with hr | hr
        · exact ⟨hin (h.mem g hg r hr).1, (h.mem g hg r hr).2⟩
        · obtain rfl := List.mem_singleton.mp hr
          exact ⟨hrow, by rw [hl, hgl]⟩
      · rename_i hgl
        rw [if_neg hgl]
        exact ⟨hin (h.mem g hg r hr).1, (h.mem g hg r hr).2⟩
    · intro r hr
      rcases List.mem_append.mp hr with hr | hr
      · obtain ⟨g, hg, hmem⟩ := h.cover r hr
        refine ⟨_, List.mem_map_of_mem hg, ?_⟩
        split
        · exact List.mem_append_left _ hmem
        · exact hmem
      · obtain rfl := List.mem_singleton.mp hr
        refine ⟨_, List.mem_map_of_mem hold, ?_⟩
        rw [if_pos hlocator]
        exact List.mem_append_right _ (List.mem_singleton_self r)
    · have hmap : (groups.map fun g =>
          if g.locator = l then { g with rows := g.rows ++ [row] } else g).map
            LocatorGroup.locator = groups.map LocatorGroup.locator := by
        rw [List.map_map]
        refine List.map_congr_left fun g _ => ?_
        dsimp only [Function.comp]
        split <;> rfl
      rw [hmap]
      exact h.distinct
  · rename_i hany
    refine ⟨?_, ?_, ?_⟩
    · intro g hg r hr
      rcases List.mem_append.mp hg with hg | hg
      · exact ⟨hin (h.mem g hg r hr).1, (h.mem g hg r hr).2⟩
      · obtain rfl := List.mem_singleton.mp hg
        obtain rfl := List.mem_singleton.mp hr
        exact ⟨hrow, hl⟩
    · intro r hr
      rcases List.mem_append.mp hr with hr | hr
      · obtain ⟨g, hg, hmem⟩ := h.cover r hr
        exact ⟨g, List.mem_append_left _ hg, hmem⟩
      · obtain rfl := List.mem_singleton.mp hr
        exact ⟨_, List.mem_append_right _ (List.mem_singleton_self _), List.mem_singleton_self r⟩
    · rw [List.map_append, List.map_singleton, List.nodup_append]
      refine ⟨h.distinct, List.pairwise_singleton _ _, ?_⟩
      intro x hx y hy heq
      obtain rfl := List.mem_singleton.mp hy
      obtain ⟨g, hg, rfl⟩ := List.mem_map.mp hx
      exact hany (List.any_eq_true.mpr ⟨g, hg, decide_eq_true heq⟩)

theorem GroupsOf.nil : GroupsOf locator [] [] :=
  ⟨(fun g hg => by cases hg), (fun row hrow => by cases hrow), List.nodup_nil⟩

theorem groupsOf_groupBy {more : List SnapshotDirectory} {groups' : List LocatorGroup}
    (h : GroupsOf locator rows groups)
    (hgroup : groupByRepositoryLocator locator more groups = .ok groups') :
    GroupsOf locator (rows ++ more) groups' := by
  induction more generalizing rows groups with
  | nil =>
    cases hgroup
    simpa using h
  | cons row more ih =>
    rw [groupByRepositoryLocator] at hgroup
    cases hl : locator row with
    | error message => simp [hl] at hgroup
    | ok l =>
      rw [hl] at hgroup
      simpa using ih (h.add hl) hgroup

end Groups

/-! ## What a run marks -/

def Unphysical (kopia : Option String) : Prop := normalizeKopiaSnapshotId (kopia.getD "") = ""

/-- An answer reports the physical identifier of a directory of its group. -/
def Answer.Confirms (a : Answer) (id : Nat) (kopia : Option String) : Prop :=
  id ∈ a.group.rows.map SnapshotDirectory.id ∧ ∃ k ∈ kopia, k ∈ a.outcome.reported

theorem marks_recordOutcome (group : LocatorGroup) (outcome : DeleteOutcome) (s : SnapshotRecord)
    (p : DeleteProgress) :
    Marks (Answer.Confirms ⟨group, outcome⟩) s (recordOutcome group.rows outcome s p).1 := by
  refine marks_markDeleted s _ fun row _ hrow => .inr ?_
  simp only [Bool.and_eq_true, decide_eq_true_eq, Option.any_eq_true] at hrow
  exact hrow

theorem marks_runGroups (env : DeleteEnv) (groups : List LocatorGroup) (s : SnapshotRecord)
    (p : DeleteProgress) :
    Marks (fun id kopia => ∃ a ∈ (runGroups env groups s p).2.2.2, a.Confirms id kopia) s
      (runGroups env groups s p).1 := by
  induction groups generalizing s p with
  | nil => exact .refl s
  | cons group groups ih =>
    rw [runGroups]
    cases env.executor group.rows (kopiaSnapshotIds group.rows) with
    | error error => exact .refl s
    | ok outcome =>
      refine ((marks_recordOutcome group outcome s p).mono ?_).trans ((ih _ _).mono ?_)
      · exact fun id kopia h => ⟨_, List.mem_cons_self, h⟩
      · exact fun id kopia ⟨a, ha, h⟩ => ⟨a, List.mem_cons_of_mem _ ha, h⟩

theorem answers_runGroups {env : DeleteEnv} {groups : List LocatorGroup} {s : SnapshotRecord}
    {p : DeleteProgress} {a : Answer} (h : a ∈ (runGroups env groups s p).2.2.2) :
    a.group ∈ groups ∧
      env.executor a.group.rows (kopiaSnapshotIds a.group.rows) = .ok a.outcome := by
  induction groups generalizing s p with
  | nil => cases h
  | cons group groups ih =>
    rw [runGroups] at h
    cases hexecutor : env.executor group.rows (kopiaSnapshotIds group.rows) with
    | error error =>
      rw [hexecutor] at h
      cases h
    | ok outcome =>
      rw [hexecutor] at h
      rcases List.mem_cons.mp h with rfl | h
      · exact ⟨List.mem_cons_self, hexecutor⟩
      · exact ⟨List.mem_cons_of_mem _ (ih h).1, (ih h).2⟩

theorem runGroups_rest (env : DeleteEnv) (groups : List LocatorGroup) (s : SnapshotRecord)
    (p : DeleteProgress) : (runGroups env groups s p).1.row = s.row ∧
      (runGroups env groups s p).1.deleteTasks = s.deleteTasks := by
  induction groups generalizing s p with
  | nil => exact ⟨rfl, rfl⟩
  | cons group groups ih =>
    rw [runGroups]
    cases env.executor group.rows (kopiaSnapshotIds group.rows) with
    | error error => exact ⟨rfl, rfl⟩
    | ok outcome => exact ih _ _

/-- Collecting the new values of a list keeps those collected before and reaches those of
the list. -/
theorem mem_foldl_new {α : Type} (f : α → String) {x : α} (h : f x ≠ "") {rows : List α}
    {ids : List String} (hx : x ∈ rows ∨ f x ∈ ids) :
    f x ∈ rows.foldl (fun ids row =>
      if f row = "" ∨ f row ∈ ids then ids else ids ++ [f row]) ids := by
  induction rows generalizing ids with
  | nil => exact hx.resolve_left List.not_mem_nil
  | cons row rows ih =>
    refine ih ?_
    dsimp only
    rcases hx with hx | hx
    · cases hx with
      | head =>
        right
        split
        · rename_i hknown
          exact hknown.resolve_left h
        · exact List.mem_append_right _ (List.mem_singleton_self _)
      | tail _ hx => exact .inl hx
    · right
      split
      · exact hx
      · exact List.mem_append_left _ hx

theorem mem_kopiaSnapshotIds {rows : List SnapshotDirectory} {row : SnapshotDirectory}
    (hrow : row ∈ rows) (h : row.physicalId ≠ "") : row.physicalId ∈ kopiaSnapshotIds rows :=
  mem_foldl_new SnapshotDirectory.physicalId h (.inl hrow)

end HyperFileLens.Protection
