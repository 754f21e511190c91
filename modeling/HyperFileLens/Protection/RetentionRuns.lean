import HyperFileLens.Library.Table
import HyperFileLens.Protection.Retention

/-!
# Runs of retention passes

One source over time: backups start and finish, leases come and go, the clock moves,
and any number of passes list their candidates and delete them one by one.

*Invariant.*  A candidate of a pass that is still to be deleted has a newer snapshot in
its bucket, for every active tier in whose window it lies. Deleting it therefore
leaves its bucket with a snapshot, and the buckets of older candidates as well.
-/

namespace HyperFileLens.Protection

open Tasks Transition

/-! ## The system -/

/-- The snapshots of a source, with the candidates each pass still has to delete. -/
structure RetentionState where
  now : Int
  records : List SnapshotRecord := []
  passes : List (List Nat) := []
deriving DecidableEq

/-- What happens to the snapshots of a source. -/
inductive RetentionEvent where
  /-- Time passes. -/
  | advance (elapsed : Nat)
  | create (row : BackupSourceSnapshot)
  /-- A backup ends: its summary is refreshed. -/
  | finish (id : Nat) (directories : List SnapshotDirectory) (finishedAt : Option Int)
  | acquire (id : Nat) (refusal : Option SnapshotError) (lease : SnapshotUsageLease)
  | release (id : Nat) (lease : SnapshotUsageLease)
  | listFailed (limit : Nat)
  | list (limit : Nat)
  | delete (pass : Nat) (accepted : Bool)
  /-- A delete task goes on. -/
  | settle (record : SnapshotRecord)

def SnapshotRecord.id (record : SnapshotRecord) : Nat := record.row.id

/-- The next candidate of a pass, in a transaction of its own. A snapshot in use is
skipped. Any other refusal ends the pass. -/
def deleteNext (s : RetentionState) (pass : Nat) (accepted : Bool) : Option RetentionState :=
  match s.passes[pass]? with
  | some (id :: rest) =>
    match Table.find SnapshotRecord.id s.records id with
    | none => some { s with passes := s.passes.set pass [] }
    | some record =>
      match createAndQueueSnapshotDeleteTask accepted record with
      | .ok record' => some { s with
          records := Table.put SnapshotRecord.id s.records record'
          passes := s.passes.set pass rest }
      | .error (.usageConflict _) => some { s with passes := s.passes.set pass rest }
      | .error (.validation _) => some { s with passes := s.passes.set pass [] }
  | _ => none

section System

variable (retention : Retention) (zone : ZoneInfo)

def retentionStep (s : RetentionState) : RetentionEvent → Option RetentionState
  | .advance elapsed => some { s with now := s.now + elapsed }
  | .create row =>
    if row.status = .creating ∧ ∀ r ∈ s.records, r.id ≠ row.id then
      some { s with records := { row := row } :: s.records }
    else none
  | .finish id directories finishedAt =>
    match Table.find SnapshotRecord.id s.records id with
    | some record =>
      if record.row.status = .creating then
        let summary := refreshSourceSnapshotSummary record.row directories finishedAt s.now
        some { s with
          records := Table.put SnapshotRecord.id s.records { record with
            row := record.row.saveSummary summary, directories := directories } }
      else none
    | none => none
  | .acquire id refusal lease =>
    match Table.find SnapshotRecord.id s.records id with
    | some record =>
      match acquireSnapshotUsage refusal record lease with
      | .ok record' => some { s with records := Table.put SnapshotRecord.id s.records record' }
      | .error _ => none
    | none => none
  | .release id lease =>
    match Table.find SnapshotRecord.id s.records id with
    | some record =>
      some { s with
        records := Table.put SnapshotRecord.id s.records (releaseSnapshotUsage record lease) }
    | none => none
  | .listFailed limit =>
    some { s with passes := s.passes ++
      [((failedSnapshotDeleteCandidatesForConfig retention s.records).take
        (max 1 limit)).map BackupSourceSnapshot.id] }
  | .list limit =>
    some { s with passes := s.passes ++
      [((retentionDeleteCandidatesForConfig retention zone s.now s.records).take
        (max 1 limit)).map BackupSourceSnapshot.id] }
  | .delete pass accepted => deleteNext s pass accepted
  | .settle record =>
    match Table.find SnapshotRecord.id s.records record.row.id with
    | some before =>
      if before.row.status.isDeletion ∧ record.row.status.isDeletion then
        some { s with records := Table.put SnapshotRecord.id s.records record }
      else none
    | none => none

/-- A source under a policy, from its first snapshot on. -/
def retentionSystem : System RetentionState RetentionEvent where
  init := fun s => s.records = [] ∧ s.passes = []
  step := retentionStep retention zone

end System

/-! ## Listed snapshots after a step -/

def SnapshotRecord.IsListed (record : SnapshotRecord) : Prop :=
  record.row.status.isRestorable = true ∧ record.row.deletedAt = none

variable {records : List SnapshotRecord} {row : BackupSourceSnapshot}

theorem mem_listed_iff :
    row ∈ listed records ↔ ∃ record ∈ records, record.row = row ∧ record.IsListed := by
  rw [mem_listed]
  constructor
  · rintro ⟨⟨record, hmem, rfl⟩, hlisted⟩
    exact ⟨record, hmem, rfl, hlisted⟩
  · rintro ⟨record, hmem, rfl, hlisted⟩
    exact ⟨⟨record, hmem, rfl⟩, hlisted⟩

theorem mem_listed_put {before record : SnapshotRecord} (hbefore : before ∈ records)
    (hid : before.id = record.id) : row ∈ listed (Table.put SnapshotRecord.id records record) ↔
      record.row = row ∧ record.IsListed ∨ row ∈ listed records ∧ row.id ≠ record.id := by
  simp only [mem_listed_iff, Table.mem_put hbefore hid]
  constructor
  · rintro ⟨r, rfl | ⟨hr, hne⟩, rfl, hlisted⟩
    · exact .inl ⟨rfl, hlisted⟩
    · exact .inr ⟨⟨r, hr, rfl, hlisted⟩, hne⟩
  · rintro (⟨rfl, hlisted⟩ | ⟨⟨r, hr, rfl, hlisted⟩, hne⟩)
    · exact ⟨record, .inl rfl, rfl, hlisted⟩
    · exact ⟨r, .inr ⟨hr, hne⟩, rfl, hlisted⟩

/-- The invariant, save for what it says about pending candidates. -/
structure TableInv (s : RetentionState) : Prop where
  keyed : Table.Keyed SnapshotRecord.id s.records
  finished : ∀ r ∈ s.records, r.row.status.isRestorable = true → r.row.finishedAt.isSome = true
  candidates : ∀ pass ∈ s.passes, ∀ id ∈ pass,
    ∃ r ∈ s.records, r.id = id ∧ r.row.status ≠ .creating

theorem mem_failedCandidates {retention : Retention}
    (h : row ∈ failedSnapshotDeleteCandidatesForConfig retention records) :
    ∃ r ∈ records, r.row = row ∧ r.row.status = .failed := by
  rw [failedSnapshotDeleteCandidatesForConfig] at h
  split at h
  · cases h
  · rw [List.mem_insertionSort, List.mem_map] at h
    obtain ⟨r, hr, rfl⟩ := h
    have hfilter := List.mem_filter.mp hr
    simp only [Bool.and_eq_true, decide_eq_true_eq] at hfilter
    exact ⟨r, hfilter.1, rfl, hfilter.2.1.2⟩

section Step

variable {retention : Retention} {zone : ZoneInfo} {s s' : RetentionState}

variable {before : SnapshotRecord} {tier : RetentionTier}

variable {finishedAt : Option Int} {a b : BackupSourceSnapshot} {r : SnapshotRecord}

variable {row : BackupSourceSnapshot}

theorem finished_of_mem_listed (hI : TableInv s) (h : row ∈ listed s.records) :
    row.finishedAt.isSome = true := by
  obtain ⟨r, hr, rfl, hlisted⟩ := mem_listed_iff.mp h
  exact hI.finished r hr hlisted.1

theorem eq_of_id_eq (hI : TableInv s) {p q : BackupSourceSnapshot} (hp : p ∈ listed s.records)
    (hq : q ∈ listed s.records) (hid : p.id = q.id) : p = q := by
  obtain ⟨a, ha, rfl, _⟩ := mem_listed_iff.mp hp
  obtain ⟨b, hb, rfl, _⟩ := mem_listed_iff.mp hq
  rw [hI.keyed a ha b hb hid]

variable {record : SnapshotRecord}

theorem listed_put_of_row (hI : TableInv s) (hbefore : before ∈ s.records)
    (hid : before.id = record.id) (hrow : before.IsListed → record.row = before.row)
    (h : row ∈ listed s.records) : row ∈ listed (Table.put SnapshotRecord.id s.records record) := by
  rw [mem_listed_put hbefore hid]
  by_cases hne : row.id = record.id
  · obtain ⟨r, hr, rfl, hlisted⟩ := mem_listed_iff.mp h
    obtain rfl := hI.keyed r hr before hbefore (hne.trans hid.symm)
    exact .inl ⟨hrow hlisted, by rwa [SnapshotRecord.IsListed, hrow hlisted]⟩
  · exact .inr ⟨h, hne⟩

/-- How a step changes the table. At most one listed snapshot is lost, a candidate of a
pass without leases. One that appears is no candidate. -/
structure Changes (s s' : RetentionState) (lost : Option Nat) : Prop where
  now : s.now ≤ s'.now
  candidate : ∀ id ∈ lost, (∃ pass ∈ s.passes, id ∈ pass) ∧
    ∀ r ∈ s.records, r.id = id → r.leases = []
  kept : ∀ row ∈ listed s.records, some row.id ≠ lost → row ∈ listed s'.records
  fresh : ∀ row ∈ listed s'.records, row ∈ listed s.records ∨
    ∀ pass ∈ s.passes, row.id ∉ pass

theorem Changes.of_records (hnow : s.now ≤ s'.now) (h : s'.records = s.records) :
    Changes s s' none where
  now := hnow
  candidate := fun id hid => by cases hid
  kept := fun row hrow _ => h ▸ hrow
  fresh := fun row hrow => .inl (h ▸ hrow)

/-- A record that may replace another one outside of a delete request. -/
structure Replaces (before record : SnapshotRecord) : Prop where
  id : before.id = record.id
  row : before.IsListed → record.row = before.row
  fresh : record.IsListed → before.IsListed ∨ before.row.status = .creating
  finished : record.row.status.isRestorable = true →
    record.row = before.row ∨ record.row.finishedAt.isSome = true
  ended : before.row.status ≠ .creating → record.row.status ≠ .creating

theorem Replaces.of_row (h : record.row = before.row) :
    Replaces before record where
  id := by rw [SnapshotRecord.id, SnapshotRecord.id, h]
  row := fun _ => h
  fresh := fun hlisted => .inl (by rwa [SnapshotRecord.IsListed, ← h])
  finished := fun _ => .inl h
  ended := fun hne => by rwa [h]

theorem Replaces.of_isDeletion (hid : before.id = record.id)
    (hbefore : before.row.status.isDeletion = true)
    (hrecord : record.row.status.isDeletion = true) :
    Replaces before record where
  id := hid
  row := by
    intro hlisted
    have hrestorable := hlisted.1
    cases hs : before.row.status <;> simp_all [SnapshotStatus.isDeletion, SnapshotStatus.isRestorable]
  fresh := by
    intro hlisted
    have hrestorable := hlisted.1
    cases hs : record.row.status <;> simp_all [SnapshotStatus.isDeletion, SnapshotStatus.isRestorable]
  finished := by
    intro hrestorable
    cases hs : record.row.status <;> simp_all [SnapshotStatus.isDeletion, SnapshotStatus.isRestorable]
  ended := by
    intro _ hcreating
    simp [hcreating, SnapshotStatus.isDeletion] at hrecord

theorem finishedAt_refresh {rows : List SnapshotDirectory} {now : Int}
    (hrow : row.status = .creating)
    (h : (refreshSourceSnapshotSummary row rows finishedAt now).status.isRestorable = true) :
    (refreshSourceSnapshotSummary row rows finishedAt now).finishedAt.isSome = true := by
  rw [refreshSourceSnapshotSummary] at h ⊢
  dsimp only at h ⊢
  split
  · split
    · rfl
    · split <;> rfl
  · rename_i hincomplete
    rw [if_neg hincomplete] at h
    simp [hrow, SnapshotStatus.isDeletion, SnapshotStatus.isRestorable] at h

theorem Replaces.of_refresh {directories : List SnapshotDirectory} {now : Int}
    (hbefore : before.row.status = .creating) :
    Replaces before { before with
      row := before.row.saveSummary
        (refreshSourceSnapshotSummary before.row directories finishedAt now)
      directories := directories } where
  id := rfl
  row := by
    intro hlisted
    have hrestorable := hlisted.1
    simp [hbefore, SnapshotStatus.isRestorable] at hrestorable
  fresh := fun _ => .inr hbefore
  finished := fun hrestorable => .inr (finishedAt_refresh hbefore hrestorable)
  ended := fun hne => absurd hbefore hne

inductive Effect (retention : Retention) (zone : ZoneInfo) (s : RetentionState) :
    RetentionState → Prop
  | advance (elapsed : Nat) : Effect retention zone s { s with now := s.now + elapsed }
  | create (row : BackupSourceSnapshot) (hcreating : row.status = .creating)
      (hnew : ∀ r ∈ s.records, r.id ≠ row.id) :
      Effect retention zone s { s with records := { row := row } :: s.records }
  | replace {before record : SnapshotRecord} (hbefore : before ∈ s.records)
      (h : Replaces before record) :
      Effect retention zone s { s with
        records := Table.put SnapshotRecord.id s.records record }
  | listFailed (limit : Nat) :
      Effect retention zone s { s with passes := s.passes ++
        [((failedSnapshotDeleteCandidatesForConfig retention s.records).take
          (max 1 limit)).map BackupSourceSnapshot.id] }
  | list (limit : Nat) :
      Effect retention zone s { s with passes := s.passes ++
        [((retentionDeleteCandidatesForConfig retention zone s.now s.records).take
          (max 1 limit)).map BackupSourceSnapshot.id] }
  | skip {pass : Nat} {id : Nat} {rest rest' : List Nat}
      (hpass : s.passes[pass]? = some (id :: rest)) (hrest : rest' ⊆ rest) :
      Effect retention zone s { s with passes := s.passes.set pass rest' }
  | delete {pass : Nat} {before record : SnapshotRecord} {rest : List Nat}
      (hpass : s.passes[pass]? = some (before.id :: rest)) (hbefore : before ∈ s.records)
      (h : Requested before record) :
      Effect retention zone s { s with
        records := Table.put SnapshotRecord.id s.records record
        passes := s.passes.set pass rest }

theorem effect_of_deleteNext {pass : Nat} {accepted : Bool}
    (h : deleteNext s pass accepted = some s') : Effect retention zone s s' := by
  rw [deleteNext] at h
  split at h
  · rename_i id rest hpass
    split at h
    · cases h
      exact .skip hpass (List.nil_subset _)
    · rename_i record hfind
      obtain ⟨hmem, rfl⟩ := Table.mem_of_find hfind
      split at h
      · rename_i record' hok
        cases h
        exact .delete hpass hmem (createAndQueueSnapshotDeleteTask_ok hok)
      · cases h
        exact .skip hpass (List.Subset.refl _)
      · cases h
        exact .skip hpass (List.nil_subset _)
  · cases h

theorem effect_of_step {a : RetentionEvent} (h : retentionStep retention zone s a = some s') :
    Effect retention zone s s' := by
  cases a with
  | advance elapsed =>
    cases h
    exact .advance elapsed
  | create row =>
    rw [retentionStep] at h
    split at h
    · rename_i hnew
      cases h
      exact .create row hnew.1 hnew.2
    · cases h
  | finish id directories finishedAt =>
    rw [retentionStep] at h
    split at h
    · rename_i record hfind
      obtain ⟨hmem, rfl⟩ := Table.mem_of_find hfind
      split at h
      · rename_i hcreating
        cases h
        exact .replace hmem (.of_refresh hcreating)
      · cases h
    · cases h
  | acquire id refusal lease =>
    rw [retentionStep] at h
    split at h
    · rename_i record hfind
      obtain ⟨hmem, rfl⟩ := Table.mem_of_find hfind
      split at h
      · rename_i record' hok
        cases h
        exact .replace hmem (.of_row (acquireSnapshotUsage_ok hok).2.1)
      · cases h
    · cases h
  | release id lease =>
    rw [retentionStep] at h
    split at h
    · rename_i record hfind
      obtain ⟨hmem, rfl⟩ := Table.mem_of_find hfind
      cases h
      exact .replace hmem (.of_row rfl)
    · cases h
  | listFailed limit =>
    cases h
    exact .listFailed limit
  | list limit =>
    cases h
    exact .list limit
  | delete pass accepted => exact effect_of_deleteNext h
  | settle record =>
    rw [retentionStep] at h
    split at h
    · rename_i before hfind
      obtain ⟨hmem, hid⟩ := Table.mem_of_find hfind
      split at h
      · rename_i hdeletion
        cases h
        exact .replace hmem (.of_isDeletion hid hdeletion.1 hdeletion.2)
      · cases h
    · cases h

theorem Requested.cases (h : Requested before record) :
    record = before ∨ record.row.status = .deleting := by
  rcases h.claimed with ⟨rfl, _⟩ | ⟨_, hdeleting⟩
  · exact .inl rfl
  · exact .inr hdeleting

theorem Effect.changes (hI : TableInv s) (h : Effect retention zone s s') :
    ∃ lost, Changes s s' lost := by
  cases h with
  | advance elapsed => exact ⟨none, .of_records (by dsimp only; omega) rfl⟩
  | create row hcreating hnew =>
    refine ⟨none, le_rfl, (fun id hid => by cases hid), ?_, ?_⟩
    · intro row' hrow' _
      obtain ⟨r, hr, rfl, hlisted⟩ := mem_listed_iff.mp hrow'
      exact mem_listed_iff.mpr ⟨r, List.mem_cons_of_mem _ hr, rfl, hlisted⟩
    · intro row' hrow'
      obtain ⟨r, hr, rfl, hlisted⟩ := mem_listed_iff.mp hrow'
      cases hr with
      | head =>
        have hrestorable := hlisted.1
        simp [hcreating, SnapshotStatus.isRestorable] at hrestorable
      | tail _ hr => exact .inl (mem_listed_iff.mpr ⟨r, hr, rfl, hlisted⟩)
  | @replace before record hbefore hreplaces =>
    refine ⟨none, le_rfl, (fun id hid => by cases hid), ?_, ?_⟩
    · intro row hrow _
      exact listed_put_of_row hI hbefore hreplaces.id hreplaces.row hrow
    · intro row hrow
      rcases (mem_listed_put hbefore hreplaces.id).mp hrow with ⟨rfl, hlisted⟩ | ⟨hrow, _⟩
      · rcases hreplaces.fresh hlisted with hl | hcreating
        · exact .inl (mem_listed_iff.mpr ⟨before, hbefore, (hreplaces.row hl).symm, hl⟩)
        · refine .inr fun pass hpass hmem => ?_
          obtain ⟨r, hr, hrid, hne⟩ := hI.candidates pass hpass _ hmem
          obtain rfl := hI.keyed r hr before hbefore (hrid.trans hreplaces.id.symm)
          exact hne hcreating
      · exact .inl hrow
  | listFailed limit => exact ⟨none, .of_records le_rfl rfl⟩
  | list limit => exact ⟨none, .of_records le_rfl rfl⟩
  | skip hpass hrest => exact ⟨none, .of_records le_rfl rfl⟩
  | @delete pass before record rest hpass hbefore hrequested =>
    have hid : before.id = record.id := hrequested.id.symm
    refine ⟨some before.id, le_rfl, ?_, ?_, ?_⟩
    · intro id hidlost
      cases hidlost
      refine ⟨⟨_, List.mem_of_getElem? hpass, List.mem_cons_self⟩, ?_⟩
      intro r hr hrid
      rw [hI.keyed r hr before hbefore hrid]
      exact hrequested.unused
    · intro row hrow hne
      rw [mem_listed_put hbefore hid]
      exact .inr ⟨hrow, fun heq => hne (by rw [heq, hid])⟩
    · intro row hrow
      rcases (mem_listed_put hbefore hid).mp hrow with ⟨rfl, hlisted⟩ | ⟨hrow, _⟩
      · rcases hrequested.cases with rfl | hdeleting
        · exact .inl (mem_listed_iff.mpr ⟨_, hbefore, rfl, hlisted⟩)
        · have hrestorable := hlisted.1
          simp [hdeleting, SnapshotStatus.isRestorable] at hrestorable
      · exact .inl hrow

theorem Effect.passes (h : Effect retention zone s s') {pass : List Nat} (hpass : pass ∈ s'.passes)
    {id : Nat} (hid : id ∈ pass) :
    (∃ before ∈ s.passes, id ∈ before) ∨ s'.records = s.records ∧ s'.now = s.now ∧
        ((∃ row ∈ retentionDeleteCandidatesForConfig retention zone s.now s.records,
            row.id = id) ∨
          ∃ row ∈ failedSnapshotDeleteCandidatesForConfig retention s.records, row.id = id) := by
  have hset : ∀ {i : Nat} {first : Nat} {rest rest' : List Nat},
      s.passes[i]? = some (first :: rest) → rest' ⊆ rest → pass ∈ s.passes.set i rest' →
      ∃ before ∈ s.passes, id ∈ before := by
    intro i first rest rest' hi hrest hmem
    rcases List.mem_or_eq_of_mem_set hmem with hmem | rfl
    · exact ⟨pass, hmem, hid⟩
    · exact ⟨_, List.mem_of_getElem? hi, List.mem_cons_of_mem _ (hrest hid)⟩
  cases h with
  | advance elapsed => exact .inl ⟨pass, hpass, hid⟩
  | create row hcreating hnew => exact .inl ⟨pass, hpass, hid⟩
  | replace hbefore hreplaces => exact .inl ⟨pass, hpass, hid⟩
  | listFailed limit =>
    rcases List.mem_append.mp hpass with hpass | hpass
    · exact .inl ⟨pass, hpass, hid⟩
    · obtain rfl := List.mem_singleton.mp hpass
      obtain ⟨row, hrow, rfl⟩ := List.mem_map.mp hid
      exact .inr ⟨rfl, rfl, .inr ⟨row, List.mem_of_mem_take hrow, rfl⟩⟩
  | list limit =>
    rcases List.mem_append.mp hpass with hpass | hpass
    · exact .inl ⟨pass, hpass, hid⟩
    · obtain rfl := List.mem_singleton.mp hpass
      obtain ⟨row, hrow, rfl⟩ := List.mem_map.mp hid
      exact .inr ⟨rfl, rfl, .inl ⟨row, List.mem_of_mem_take hrow, rfl⟩⟩
  | skip hi hrest => exact .inl (hset hi hrest hpass)
  | delete hi hbefore hrequested => exact .inl (hset hi (List.Subset.refl _) hpass)

theorem kept_put (hI : TableInv s) (hbefore : before ∈ s.records) (hid : before.id = record.id)
    (hended : before.row.status ≠ .creating → record.row.status ≠ .creating) (hr : r ∈ s.records) :
    ∃ r' ∈ Table.put SnapshotRecord.id s.records record,
      r'.id = r.id ∧ (r.row.status ≠ .creating → r'.row.status ≠ .creating) := by
  by_cases hne : r.id = record.id
  · obtain rfl := hI.keyed r hr before hbefore (hne.trans hid.symm)
    exact ⟨record, (Table.mem_put hbefore hid).mpr (.inl rfl), hne.symm, hended⟩
  · exact ⟨r, (Table.mem_put hbefore hid).mpr (.inr ⟨hr, hne⟩), rfl, id⟩

theorem Requested.ended (h : Requested before record) (hne : before.row.status ≠ .creating) :
    record.row.status ≠ .creating := by
  rcases h.cases with rfl | hdeleting
  · exact hne
  · simp [hdeleting]

/-- Every snapshot keeps a record, and a backup that has ended does not start again. -/
theorem Effect.kept (hI : TableInv s) (h : Effect retention zone s s') (hr : r ∈ s.records) :
    ∃ r' ∈ s'.records, r'.id = r.id ∧ (r.row.status ≠ .creating → r'.row.status ≠ .creating) := by
  cases h with
  | advance elapsed => exact ⟨r, hr, rfl, id⟩
  | create row hcreating hnew => exact ⟨r, List.mem_cons_of_mem _ hr, rfl, id⟩
  | replace hbefore hreplaces => exact kept_put hI hbefore hreplaces.id hreplaces.ended hr
  | listFailed limit => exact ⟨r, hr, rfl, id⟩
  | list limit => exact ⟨r, hr, rfl, id⟩
  | skip hi hrest => exact ⟨r, hr, rfl, id⟩
  | delete hi hbefore hrequested =>
    exact kept_put hI hbefore hrequested.id.symm hrequested.ended hr

variable (retention zone) in
theorem ended_of_candidate
    (h : row ∈ retentionDeleteCandidatesForConfig retention zone s.now s.records ∨ row ∈
      failedSnapshotDeleteCandidatesForConfig retention s.records) :
    ∃ r ∈ s.records, r.row = row ∧ r.row.status ≠ .creating := by
  rcases h with h | h
  · obtain ⟨r, hr, rfl, hlisted⟩ := mem_listed_iff.mp (mem_candidates h).1
    refine ⟨r, hr, rfl, fun hcreating => ?_⟩
    have hrestorable := hlisted.1
    simp [hcreating, SnapshotStatus.isRestorable] at hrestorable
  · obtain ⟨r, hr, rfl, hfailed⟩ := mem_failedCandidates h
    exact ⟨r, hr, rfl, by simp [hfailed]⟩

theorem Effect.tableInv (hI : TableInv s) (h : Effect retention zone s s') : TableInv s' where
  keyed := by
    cases h with
    | create row hcreating hnew => exact hI.keyed.cons hnew
    | replace hbefore hreplaces => exact hI.keyed.put hbefore hreplaces.id
    | delete hi hbefore hrequested => exact hI.keyed.put hbefore hrequested.id.symm
    | _ => exact hI.keyed
  finished := by
    cases h with
    | create row hcreating hnew =>
      intro r hr hrestorable
      cases hr with
      | head => simp [hcreating, SnapshotStatus.isRestorable] at hrestorable
      | tail _ hr => exact hI.finished r hr hrestorable
    | @replace before record hbefore hreplaces =>
      intro r hr hrestorable
      rcases (Table.mem_put hbefore hreplaces.id).mp hr with rfl | ⟨hr, _⟩
      · rcases hreplaces.finished hrestorable with hrow | hfinished
        · rw [hrow] at hrestorable ⊢
          exact hI.finished before hbefore hrestorable
        · exact hfinished
      · exact hI.finished r hr hrestorable
    | @delete pass before record rest hi hbefore hrequested =>
      intro r hr hrestorable
      rcases (Table.mem_put hbefore hrequested.id.symm).mp hr with rfl | ⟨hr, _⟩
      · rcases hrequested.cases with rfl | hdeleting
        · exact hI.finished _ hbefore hrestorable
        · simp [hdeleting, SnapshotStatus.isRestorable] at hrestorable
      · exact hI.finished r hr hrestorable
    | _ => exact hI.finished
  candidates := by
    intro pass hpass id hid
    rcases h.passes hpass hid with ⟨before, hbefore, hmem⟩ | ⟨hrecords, _, hnew⟩
    · obtain ⟨r, hr, rfl, hne⟩ := hI.candidates before hbefore id hmem
      obtain ⟨r', hr', hid', hended⟩ := h.kept hI hr
      exact ⟨r', hr', hid', hended hne⟩
    · rw [hrecords]
      rcases hnew with ⟨row, hrow, rfl⟩ | ⟨row, hrow, rfl⟩
      · obtain ⟨r, hr, rfl, hne⟩ := ended_of_candidate retention zone (.inl hrow)
        exact ⟨r, hr, rfl, hne⟩
      · obtain ⟨r, hr, rfl, hne⟩ := ended_of_candidate retention zone (.inr hrow)
        exact ⟨r, hr, rfl, hne⟩

/-! ## Buckets over a run -/

/-- A newer snapshot of the same bucket is listed. -/
def HasNewer (zone : ZoneInfo) (tier : RetentionTier) (s : RetentionState)
    (row : BackupSourceSnapshot) : Prop :=
  ∃ q ∈ listed s.records,
    bucketKey zone tier.unit q = bucketKey zone tier.unit row ∧ row.sortKey < q.sortKey

/-- A pending candidate in the window of an active tier has a newer snapshot in its
bucket. -/
structure PassInv (retention : Retention) (zone : ZoneInfo) (s : RetentionState) : Prop
    extends TableInv s where
  newer : ∀ pass ∈ s.passes, ∀ row ∈ listed s.records, row.id ∈ pass →
    ∀ tier ∈ retention.tiers, tier.isActive → tier.inWindow s.now row →
      HasNewer zone tier s row

theorem time_le_of_sortKey_le (ha : a.finishedAt.isSome = true) (hb : b.finishedAt.isSome = true)
    (h : a.sortKey ≤ b.sortKey) : a.time ≤ b.time := by
  have hfirst := Prod.Lex.monotone_fst _ _ h
  obtain ⟨x, hx⟩ := Option.isSome_iff_exists.mp ha
  obtain ⟨y, hy⟩ := Option.isSome_iff_exists.mp hb
  simp only [BackupSourceSnapshot.sortKey, ofLex_toLex, hx, hy] at hfirst
  simpa [BackupSourceSnapshot.time, hx, hy] using WithTop.coe_le_coe.mp hfirst

theorem RetentionTier.inWindow_of_le {now now' : Int} (hnow : now ≤ now') (htime : a.time ≤ b.time)
    (h : tier.inWindow now' a) : tier.inWindow now b := by
  rw [RetentionTier.inWindow] at h ⊢
  omega

/-- A newer snapshot is left after a step, as long as the window is open. -/
theorem HasNewer.step (hI : PassInv retention zone s) {lost : Option Nat}
    (hchanges : Changes s s' lost) (ht : tier ∈ retention.tiers) (hactive : tier.isActive)
    (hfinished : row.finishedAt.isSome = true) (hwindow : tier.inWindow s'.now row)
    (h : HasNewer zone tier s row) : HasNewer zone tier s' row := by
  obtain ⟨q, hq, hkey, hlt⟩ := h
  by_cases hlost : some q.id = lost
  · obtain ⟨⟨pass, hpass, hmem⟩, _⟩ := hchanges.candidate q.id hlost.symm
    have htime := time_le_of_sortKey_le hfinished (finished_of_mem_listed hI.toTableInv hq) hlt.le
    -- The lost snapshot is in the window too, so its own bucket has a newer one.
    obtain ⟨q', hq', hkey', hlt'⟩ := hI.newer pass hpass q hq hmem tier ht hactive
      (RetentionTier.inWindow_of_le hchanges.now htime hwindow)
    have hne : some q'.id ≠ lost := by
      intro heq
      have hid := Option.some.inj (heq.trans hlost.symm)
      rw [eq_of_id_eq hI.toTableInv hq' hq hid] at hlt'
      exact lt_irrefl _ hlt'
    exact ⟨q', hchanges.kept q' hq' hne, hkey'.trans hkey, hlt.trans hlt'⟩
  · exact ⟨q, hchanges.kept q hq hlost, hkey, hlt⟩

/-- A new candidate in the window of an active tier has a newer snapshot in its bucket. -/
theorem hasNewer_of_candidate (ht : tier ∈ retention.tiers) (hactive : tier.isActive)
    (h : row ∈ retentionDeleteCandidatesForConfig retention zone s.now s.records)
    (hwindow : tier.inWindow s.now row) : HasNewer zone tier s row := by
  obtain ⟨hlisted, hkeep⟩ := mem_candidates h
  have hprotected : row.id ∉ protectedSnapshotIds s.records := fun hmem =>
    hkeep (protected_mem_keepIds hmem)
  let bucket := inBucket zone tier s.now (protectedSnapshotIds s.records)
    (bucketKey zone tier.unit row)
  have hrow : bucket row := ⟨hprotected, hwindow, rfl⟩
  obtain ⟨m, hfind⟩ : ∃ m, (listed s.records).find? (fun q => bucket q) = some m :=
    Option.isSome_iff_exists.mp (List.find?_isSome.mpr ⟨row, hlisted, decide_eq_true hrow⟩)
  have hm : bucket m := by simpa using List.find?_some hfind
  refine ⟨m, List.mem_of_find?_eq_some hfind, hm.2.2, lt_of_le_of_ne ?_ ?_⟩
  · exact le_of_find (pairwise_listed s.records) hfind hlisted hrow
  · intro heq
    rw [BackupSourceSnapshot.id_eq_of_sortKey_eq heq] at hkeep
    exact hkeep (find_mem_keepIds ht hactive hfind)

theorem Effect.passInv (hI : PassInv retention zone s) (h : Effect retention zone s s') :
    PassInv retention zone s' where
  toTableInv := h.tableInv hI.toTableInv
  newer := by
    intro pass hpass row hrow hid tier ht hactive hwindow
    obtain ⟨lost, hchanges⟩ := h.changes hI.toTableInv
    have hfinished := finished_of_mem_listed (h.tableInv hI.toTableInv) hrow
    have hwindow' := RetentionTier.inWindow_of_le hchanges.now le_rfl hwindow
    rcases h.passes hpass hid with ⟨before, hbefore, hmem⟩ | ⟨hrecords, hnow, hnew⟩
    · rcases hchanges.fresh row hrow with hold | hfresh
      · exact (hI.newer before hbefore row hold hmem tier ht hactive hwindow').step hI hchanges
          ht hactive hfinished hwindow
      · exact absurd hmem (hfresh before hbefore)
    · rw [hrecords] at hrow
      have hcandidate : row ∈ retentionDeleteCandidatesForConfig retention zone s.now s.records := by
        rcases hnew with ⟨candidate, hcandidate, hcid⟩ | ⟨candidate, hcandidate, hcid⟩
        · rwa [eq_of_id_eq hI.toTableInv hrow (mem_candidates hcandidate).1 hcid.symm]
        · obtain ⟨r, hr, rfl, hfailed⟩ := mem_failedCandidates hcandidate
          obtain ⟨r', hr', rfl, hlisted⟩ := mem_listed_iff.mp hrow
          obtain rfl := hI.keyed r hr r' hr' hcid
          have hrestorable := hlisted.1
          simp [hfailed, SnapshotStatus.isRestorable] at hrestorable
      obtain ⟨q, hq, hkey, hlt⟩ := hasNewer_of_candidate ht hactive hcandidate hwindow'
      exact ⟨q, hrecords ▸ hq, hkey, hlt⟩

theorem passInv_of_reachable (h : (retentionSystem retention zone).Reachable s) :
    PassInv retention zone s := by
  refine System.ReachableUnder.invariant (T := retentionSystem retention zone)
    (I := PassInv retention zone) ?_ ?_ h
  · intro s ⟨hrecords, hpasses⟩
    refine ⟨⟨?_, ?_, ?_⟩, ?_⟩
    · rw [hrecords]
      exact Table.Keyed.nil
    · intro r hr
      simp [hrecords] at hr
    · intro pass hpass
      simp [hpasses] at hpass
    · intro pass hpass
      simp [hpasses] at hpass
  · intro s a s' hI _ hs
    exact (effect_of_step hs).passInv hI

/-- A snapshot that is still in its window is listed, or a newer one of its bucket is. -/
theorem bucket_of_path {s₁ s₂ : RetentionState} (hI : PassInv retention zone s₁)
    (ht : tier ∈ retention.tiers) (hactive : tier.isActive) (hrow : row ∈ listed s₁.records)
    (hpath : (retentionSystem retention zone).Path System.always s₁ s₂)
    (hwindow : tier.inWindow s₂.now row) : row ∈ listed s₂.records ∨ HasNewer zone tier s₂ row := by
  have hfinished := finished_of_mem_listed hI.toTableInv hrow
  have hrun : PassInv retention zone s₂ ∧ (tier.inWindow s₂.now row →
      row ∈ listed s₂.records ∨ HasNewer zone tier s₂ row) := by
    refine hpath.invariant (I := fun s => PassInv retention zone s ∧
      (tier.inWindow s.now row → row ∈ listed s.records ∨ HasNewer zone tier s row))
      ?_ ⟨hI, fun _ => .inl hrow⟩
    rintro s a s' ⟨hs, hkept⟩ _ hstep
    have heffect := effect_of_step (show retentionStep retention zone s a = some s' from hstep)
    obtain ⟨lost, hchanges⟩ := heffect.changes hs.toTableInv
    refine ⟨heffect.passInv hs, fun hwindow' => ?_⟩
    have hopen := RetentionTier.inWindow_of_le hchanges.now le_rfl hwindow'
    rcases hkept hopen with hlisted | hnewer
    · by_cases hlost : some row.id = lost
      · obtain ⟨⟨pass, hpass, hmem⟩, _⟩ := hchanges.candidate row.id hlost.symm
        exact .inr ((hs.newer pass hpass row hlisted hmem tier ht hactive hopen).step hs hchanges
          ht hactive hfinished hwindow')
      · exact .inl (hchanges.kept row hlisted hlost)
    · exact .inr (hnewer.step hs hchanges ht hactive hfinished hwindow')
  exact hrun.2 hwindow

theorem leased_kept (hI : PassInv retention zone s) (h : Effect retention zone s s')
    (hrow : row ∈ listed s.records) (hleased : row.id ∈ protectedSnapshotIds s.records) :
    row ∈ listed s'.records := by
  obtain ⟨lost, hchanges⟩ := h.changes hI.toTableInv
  refine hchanges.kept row hrow fun hlost => ?_
  obtain ⟨record, hrecord, hid⟩ := List.mem_map.mp hleased
  obtain ⟨hmem, hprotected⟩ := List.mem_filter.mp hrecord
  have hleases := (hchanges.candidate row.id hlost.symm).2 record hmem hid
  simp [SnapshotRecord.isProtected, hleases] at hprotected

end Step

/-- Retention deletes no leased snapshot and keeps what the policy promises: in one pass
the newest snapshot, the recent points and the newest unprotected snapshot of every
bucket, and over a run a snapshot in every bucket that held an unprotected one at a pass
and is still in its window. -/
theorem retention_keeps (retention : Retention) (zone : ZoneInfo) :
    (∀ now records, PassKeeps retention zone now records
      (retentionDeleteCandidatesForConfig retention zone now records)) ∧
    (∀ s s' a, (retentionSystem retention zone).Reachable s →
      (retentionSystem retention zone).step s a = some s' →
      ∀ row ∈ listed s.records, row.id ∈ protectedSnapshotIds s.records →
        row ∈ listed s'.records) ∧
    (∀ s s₁ s₂ limit, (retentionSystem retention zone).Reachable s →
      (retentionSystem retention zone).step s (.list limit) = some s₁ →
      (retentionSystem retention zone).Path System.always s₁ s₂ →
      ∀ tier ∈ retention.tiers, tier.isActive →
      ∀ row ∈ unprotected s.records, tier.inWindow s₂.now row →
        ∃ q ∈ listed s₂.records,
          bucketKey zone tier.unit q = bucketKey zone tier.unit row) := by
  refine ⟨passKeeps_candidates retention zone, ?_, ?_⟩
  · intro s s' a hreach hstep row hrow hleased
    exact leased_kept (passInv_of_reachable hreach) (effect_of_step hstep) hrow hleased
  · intro s s₁ s₂ limit hreach hstep hpath tier ht hactive row hrow hwindow
    have hlisted := (List.mem_filter.mp hrow).1
    rcases bucket_of_path (passInv_of_reachable hreach) ht hactive hlisted
        ((System.Path.single trivial hstep).trans hpath) hwindow with hkept | ⟨q, hq, hkey, _⟩
    · exact ⟨row, hkept, rfl⟩
    · exact ⟨q, hq, hkey⟩

end HyperFileLens.Protection
