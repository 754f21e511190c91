import HyperFileLens.Storage.OrphanEvidence

/-!
# Candidates in `deleting` are not owned

While a candidate is in `deleting`, the product does not own its snapshot, no backup can
write to the repository, its grace periods are over, and the active task has not
discovered it.

*Fence.*  The task that has marked the candidate holds the gate. Admission of backups,
registration of results and usage leases look at the gate, so they change nothing until
the task is finished.

*Defects.*  The transaction before a deletion by an Agent checks neither the task nor the
row it has locked, and `_finish` of an Agent's task leaves candidates in `deleting`
behind. A failed backup is retried without a look at the fence. `DecidedInTime` is what
the sibling paths check there.
-/

namespace HyperFileLens.Storage

open Tasks Protection

variable {db db' : OrphanTables}

/-! ## Ownership -/

namespace OrphanTables

/-- A task may delete a candidate: the product does not own it. -/
structure Unowned (db : OrphanTables) (t : Nat) (c : OrphanSnapshot) : Prop where
  managed : c.snapshotId ∉ db.managedIds
  backups : db.backupBlocker = ""
  grace : db.PastGrace c
  discovered : db.discoveredBy t c.snapshotId = false
  active : db.activeTask = some t
  isOpen : ∃ row, db.task t = some row ∧ row.isOpen

variable {t : Nat} {c : OrphanSnapshot}

theorem Unowned.orphanCleanup (h : db.Unowned t c) : db.orphanCleanup = true := by
  simp [OrphanTables.orphanCleanup, h.active]

theorem discoveredBy_eq_false {snapshotId : String} : db.discoveredBy t snapshotId = false ↔
      ∀ row, db.task t = some row → ∀ r ∈ db.tasks, (r.id = t ∨ some r.id = row.replacesTask) →
      ∀ e ∈ r.events, e.snapshotId = snapshotId → e.outcome ≠ .discovered := by
  rw [discoveredBy]
  cases db.task t with
  | none => simp
  | some row => simp

variable {f : ReconcileTask → ReconcileTask}

theorem task_updateTask {t' : Nat} (hid : ∀ row, (f row).id = row.id) :
    (db.updateTask t' f).task t = (db.task t).map fun row => if row.id = t' then f row else row :=
  Table.find_map (Table.key_update_row hid)

/-- A change of a task that keeps the task that may delete open, and what it has
discovered. -/
theorem Unowned.updateTask {t' : Nat} (h : db.Unowned t c) (hid : ∀ row, (f row).id = row.id)
    (hreplaces : ∀ row, (f row).replacesTask = row.replacesTask)
    (hopen : t' = t → ∀ row, row.isOpen → (f row).isOpen)
    (hevents : ∀ row, ∀ e ∈ (f row).events, e ∈ row.events ∨ e.snapshotId ≠ c.snapshotId ∨
      e.outcome ≠ .discovered) : (db.updateTask t' f).Unowned t c where
  managed := h.managed
  backups := h.backups
  grace := h.grace
  active := h.active
  isOpen := by
    obtain ⟨row, hrow, hrowOpen⟩ := h.isOpen
    refine ⟨_, (task_updateTask hid).trans (congrArg _ hrow), ?_⟩
    dsimp only
    split
    · rename_i ht'
      exact hopen (ht'.symm.trans (mem_of_task hrow).2) row hrowOpen
    · exact hrowOpen
  discovered := by
    rw [discoveredBy_eq_false]
    intro row hrow r hr hkey e he hsnapshot
    rw [task_updateTask hid] at hrow
    obtain ⟨row₀, hrow₀, rfl⟩ := Option.map_eq_some_iff.mp hrow
    have hreplaces₀ : (if row₀.id = t' then f row₀ else row₀).replacesTask =
        row₀.replacesTask := by
      split
      · exact hreplaces row₀
      · rfl
    rw [hreplaces₀] at hkey
    have hold := discoveredBy_eq_false.mp h.discovered row₀ hrow₀
    rcases Table.mem_update.mp hr with ⟨r₀, hr₀, -, rfl⟩ | ⟨hr, -⟩
    · rw [hid] at hkey
      rcases hevents r₀ e he with he | hne | hne
      · exact hold r₀ hr₀ hkey e he hsnapshot
      · exact absurd hsnapshot hne
      · exact hne
    · exact hold r hr hkey e he hsnapshot

theorem Unowned.of_tables (h : db.Unowned t c) (hnow : db'.now = db.now)
    (htasks : db'.tasks = db.tasks) (hactive : db'.activeTask = db.activeTask)
    (hbackups : db'.backups = db.backups) (hsnapshots : db'.snapshots = db.snapshots) :
    db'.Unowned t c where
  managed := by
    rw [managedIds, hsnapshots]
    exact h.managed
  backups := by
    rw [backupBlocker, hbackups]
    exact h.backups
  grace := by
    rw [PastGrace, hnow]
    exact h.grace
  discovered := by
    rw [discoveredBy, task, htasks]
    exact h.discovered
  active := hactive.trans h.active
  isOpen := by
    rw [task, htasks]
    exact h.isOpen

end OrphanTables

/-! ## Backups and managed snapshots under the fence -/

variable {t : Nat} {c : OrphanSnapshot} {snapshotId : String} {row : ReconcileTask}

theorem BackupChild.doubt_ne_empty (child : BackupChild) : child.doubt ≠ some "" := by
  rw [doubt]
  cases child.status with
  | pending => simp
  | running => simp
  | success => simp
  | failed =>
    dsimp only
    split <;> simp
  | timeout =>
    dsimp only
    split
    · simp
    · split <;> simp
  | canceled =>
    dsimp only
    split
    · simp
    · split <;> simp

theorem BackupChild.doubt_of_active {child : BackupChild} (h : child.status.isActive = true) :
    child.doubt ≠ none := by
  rw [doubt]
  cases hstatus : child.status <;> simp_all [Node.Status.isActive]

/-- Nothing may write to the repository any more. -/
def BackupTask.isSettled (b : BackupTask) : Prop :=
  b.status.isTerminal = true ∧ ∀ child ∈ b.children, child.doubt = none

theorem OrphanTables.backupBlocker_eq_empty :
    db.backupBlocker = "" ↔ ∀ b ∈ db.backups, b.isSettled := by
  rw [backupBlocker]
  constructor
  · intro h b hb
    split at h
    · simp at h
    · rename_i hterminal
      dsimp only at h
      split at h
      · simp at h
      · refine ⟨by simpa using fun hb' => hterminal (List.any_eq_true.mpr ⟨b, hb, hb'⟩), ?_⟩
        intro child hchild
        have hmem : child ∈ db.backups.flatMap BackupTask.children :=
          List.mem_flatMap.mpr ⟨b, hb, hchild⟩
        cases hfind : (db.backups.flatMap BackupTask.children).findSome? BackupChild.doubt with
        | none => exact List.findSome?_eq_none_iff.mp hfind child hmem
        | some text =>
          obtain ⟨child', -, hdoubt⟩ := List.exists_of_findSome?_eq_some hfind
          rw [hfind] at h
          exact absurd (h ▸ hdoubt) child'.doubt_ne_empty
  · intro h
    have hdoubt : ∀ child ∈ db.backups.flatMap BackupTask.children, child.doubt = none := by
      intro child hchild
      obtain ⟨b, hb, hchild⟩ := List.mem_flatMap.mp hchild
      exact (h b hb).2 child hchild
    rw [if_neg (by simpa using fun b hb => (h b hb).1)]
    dsimp only
    rw [if_neg, List.findSome?_eq_none_iff.mpr hdoubt]
    · rfl
    · intro hactive
      obtain ⟨child, hchild, hactive⟩ := List.any_eq_true.mp hactive
      exact BackupChild.doubt_of_active hactive (hdoubt child hchild)

theorem OrphanTables.backups_updateBackups {uuid : String} {f : BackupTask → BackupTask}
    (h : db.backupBlocker = "") (hf : ∀ b, b.isSettled → b.uuid = uuid → (f b).isSettled) :
    (db.updateBackups uuid f).backupBlocker = "" := by
  rw [backupBlocker_eq_empty] at h ⊢
  intro b' hb'
  obtain ⟨b, hb, rfl⟩ := List.mem_map.mp hb'
  split
  · rename_i huuid
    exact hf b (h b hb) huuid
  · exact h b hb

theorem BackupChild.doubt_change {child child' : BackupChild} (h : child.doubt = none) :
    (child'.change child).doubt = none := by
  rw [change]
  split
  · exact h
  · rename_i hkeeps
    push Not at hkeeps
    exact hkeeps h

theorem BackupTask.isSettled_changeChild {b : BackupTask} (h : b.isSettled) (i : Nat)
    (child' : BackupChild) : (b.changeChild i child').isSettled := by
  refine ⟨h.1, fun child hchild => ?_⟩
  rcases Table.mem_modify hchild with hchild | ⟨child₀, hchild₀, rfl⟩
  · exact h.2 child hchild
  · exact BackupChild.doubt_change (h.2 child₀ hchild₀)

theorem OrphanTables.managedIds_updateRecord {i : Nat} {f : SnapshotRecord → SnapshotRecord}
    (hf : ∀ s : ManagedSnapshot, ({ s with record := f s.record } : ManagedSnapshot).ids ⊆ s.ids) :
    (db.updateRecord i f).managedIds ⊆ db.managedIds := by
  intro snapshotId hmem
  obtain ⟨s', hs', hid⟩ := List.mem_flatMap.mp hmem
  rcases Table.mem_modify hs' with hs' | ⟨s, hs, rfl⟩
  · exact List.mem_flatMap.mpr ⟨s', hs', hid⟩
  · exact List.mem_flatMap.mpr ⟨s, hs, hf s hid⟩

theorem ManagedSnapshot.ids_releaseUsage (s : ManagedSnapshot) (lease : SnapshotUsageLease) :
    ({ s with record := releaseSnapshotUsage s.record lease } : ManagedSnapshot).ids ⊆ s.ids := by
  refine List.Subset.trans (List.filterMap_subset _ ?_) (List.Subset.refl _)
  intro d hd
  simp only [releaseSnapshotUsage, SnapshotRecord.isProtected, List.mem_filter, Bool.or_eq_true,
    decide_eq_true_eq, Bool.not_eq_true', List.isEmpty_eq_false_iff] at hd ⊢
  refine ⟨hd.1, hd.2.imp_right fun hleases hnil => hleases ?_⟩
  rw [hnil]
  rfl

theorem ManagedSnapshot.ids_markDeleted (s : ManagedSnapshot) (p : SnapshotDirectory → Bool) :
    ({ s with record := markDeleted s.record p } : ManagedSnapshot).ids ⊆ s.ids := by
  intro snapshotId hmem
  obtain ⟨d', hd', hid⟩ := List.mem_filterMap.mp hmem
  obtain ⟨hd', hkeeps⟩ := List.mem_filter.mp hd'
  obtain ⟨d, hd, rfl⟩ := List.mem_map.mp hd'
  refine List.mem_filterMap.mpr ⟨d, List.mem_filter.mpr ⟨hd, ?_⟩, ?_⟩
  · split at hkeeps
    · simp only [ne_eq, not_true_eq_false, decide_false, Bool.false_or] at hkeeps
      exact Bool.or_eq_true_iff.mpr (.inr hkeeps)
    · exact hkeeps
  · split at hid <;> exact hid

/-! ## What others do to the fence -/

/-- A backup is retried only while nothing is in `deleting`, as its admission would be. -/
def FencedInTime (db : OrphanTables) : OrphanEnv → Prop
  | .retryBackup uuid =>
    (∃ b ∈ db.backups, b.uuid = uuid ∧ b.retry ≠ b) → db.anyDeleting = false
  | _ => True

theorem OrphanTables.Unowned.change (h : db.Unowned t c) (hnow : db.now ≤ db'.now)
    (htasks : db'.tasks = db.tasks) (hactive : db'.activeTask = db.activeTask)
    (hbackups : db'.backupBlocker = "") (hmanaged : db'.managedIds ⊆ db.managedIds) :
    db'.Unowned t c where
  managed := fun hmem => h.managed (hmanaged hmem)
  backups := hbackups
  grace := by
    obtain ⟨hgrace, hnotBefore⟩ := h.grace
    refine ⟨by omega, fun d hd => ?_⟩
    have := hnotBefore d hd
    omega
  discovered := by
    rw [discoveredBy, task, htasks]
    exact h.discovered
  active := hactive.trans h.active
  isOpen := by
    rw [task, htasks]
    exact h.isOpen

theorem recordSourceSnapshotDirectoryResult_fenced (s : SnapshotRecord)
    (instance' : BackupSourceSnapshot) (result : SnapshotDirectory) (now : Int) :
    ∃ error, recordSourceSnapshotDirectoryResult true s instance' result now = .error error := by
  rw [recordSourceSnapshotDirectoryResult]
  split
  · exact ⟨_, rfl⟩
  · split <;> exact ⟨_, rfl⟩

/-- What others do, while a candidate is in `deleting`. -/
theorem OrphanTables.Unowned.environment (h : db.Unowned t c) (hdeleting : db.anyDeleting = true)
    {e : OrphanEnv} (he : FencedInTime db e) : (orphanEnvironment db e).Unowned t c := by
  -- A change of a snapshot changes nothing but its record.
  have hrecord : ∀ i f, (∀ s : ManagedSnapshot,
      ({ s with record := f s.record } : ManagedSnapshot).ids ⊆ s.ids) →
      (db.updateRecord i f).Unowned t c := fun i f hf =>
    h.change (Int.le_refl _) rfl rfl h.backups (managedIds_updateRecord hf)
  have hbackups : ∀ {uuid f}, (∀ b : BackupTask, b.isSettled → b.uuid = uuid →
      (f b).isSettled) → (db.updateBackups uuid f).Unowned t c := fun hf =>
    h.change (Int.le_refl _) rfl rfl (backups_updateBackups h.backups hf) (List.Subset.refl _)
  cases e with
  | tick elapsed =>
    exact h.change (Int.le_add_of_nonneg_right (Int.natCast_nonneg _)) rfl rfl h.backups
      (List.Subset.refl _)
  | admitTask dueAt =>
    rw [orphanEnvironment, admitTask, if_pos (.inl (by simp [h.active]))]
    exact h
  | admitBackup uuid record =>
    rw [orphanEnvironment, admitBackup, if_pos h.orphanCleanup]
    exact h
  | retryBackup uuid =>
    have hsame : db.updateBackups uuid BackupTask.retry = db := by
      have hrows : ∀ b ∈ db.backups, (if b.uuid = uuid then b.retry else b) = b := by
        intro b hb
        split
        · rename_i huuid
          by_contra hne
          simp [he ⟨b, hb, huuid, hne⟩] at hdeleting
        · rfl
      rw [updateBackups, List.map_congr_left hrows, List.map_id']
    rw [orphanEnvironment, hsame]
    exact h
  | progressBackup uuid status =>
    refine hbackups fun b hb _ => ?_
    rw [BackupTask.progress, if_pos hb.1]
    exact hb
  | dispatchBackup uuid =>
    refine hbackups fun b hb _ => ?_
    rw [BackupTask.dispatch, if_pos hb.1]
    exact hb
  | backupChild uuid i child => exact hbackups fun b hb _ => BackupTask.isSettled_changeChild hb i child
  | registerResult i instance' result =>
    rw [orphanEnvironment, OrphanTables.registerResult]
    refine hrecord i _ fun s => ?_
    obtain ⟨error, herror⟩ := recordSourceSnapshotDirectoryResult_fenced s.record instance'
      result db.now
    rw [h.orphanCleanup, herror]
    exact List.Subset.refl _
  | acquireUsage i lease =>
    rw [orphanEnvironment, OrphanTables.acquireUsage]
    refine hrecord i _ fun s => ?_
    rw [h.orphanCleanup]
    exact List.Subset.refl _
  | releaseUsage i lease =>
    exact hrecord i (fun s => releaseSnapshotUsage s lease) fun s => s.ids_releaseUsage lease
  | deleteDirectories i p => exact hrecord i (fun s => markDeleted s p) fun s => s.ids_markDeleted p
  | updateSnapshot i row =>
    exact hrecord i (fun s => { s with row := row }) fun s => List.Subset.refl _
  | _ => exact h.of_tables rfl rfl rfl rfl rfl

/-! ## The invariant -/

/-- The product owns no candidate in `deleting`. -/
structure UnownedInv (db : OrphanTables) : Prop where
  candidates : Table.Keyed OrphanSnapshot.snapshotId db.candidates
  deleting : ∀ c ∈ db.candidates, c.status = .deleting → ∃ t, db.Unowned t c

/-- The candidate of a snapshot is not in `deleting`. -/
def Settled (db : OrphanTables) (snapshotId : String) : Prop :=
  ∀ c ∈ db.candidates, c.snapshotId = snapshotId → c.status ≠ .deleting

instance (db : OrphanTables) (snapshotId : String) : Decidable (Settled db snapshotId) :=
  inferInstanceAs (Decidable (∀ c ∈ db.candidates, _ → _))

/-- What the intent of a Controller deletion rechecks, of the task and the locked row. -/
def MayMark (db : OrphanTables) (t : Nat) (snapshotId : String) : Prop :=
  (∃ row ∈ db.task t, db.Authorized row) ∧ db.discoveredBy t snapshotId = false ∧
    ∀ c ∈ db.candidate snapshotId, db.PastGrace c

instance (db : OrphanTables) (t : Nat) (snapshotId : String) :
    Decidable (MayMark db t snapshotId) :=
  inferInstanceAs (Decidable (_ ∧ _))

/-- `_finish` leaves the active task waiting for an Agent operation. -/
def RetryWaits (db : OrphanTables) (t : Nat) (c : Completion) : Prop :=
  ∃ row ∈ db.task t, db.retryScan row (c.amend row) = true ∧
    db.children.any (fun child => child.parentTask = t && child.unconfirmed) = true

instance (db : OrphanTables) (t : Nat) (c : Completion) : Decidable (RetryWaits db t c) :=
  inferInstanceAs (Decidable (∃ row ∈ db.task t, _))

/-- A call finds what its sibling paths check. A status is saved without a lock only while
the row is not in `deleting`. A deletion is decided only for what the task may delete. An
Agent's outcome is saved by the active task, and an Agent's task ends only while nothing is
in `deleting`. -/
def DecidedInTime (controller : Bool) (db : OrphanTables) : OrphanCall → Prop
  | .saveAbsent _ snapshotId | .saveManaged _ snapshotId => Settled db snapshotId
  | .rediscover _ item _ => Settled db item.snapshotId
  | .saveOutcome t _ _ _ _ | .saveFailure t _ => db.activeTask = some t
  | .mark t copy => controller = true ∨ db.backupBlocker ≠ "" ∨
      copy.snapshotId ∈ db.managedIds ∨ MayMark db t copy.snapshotId
  | .intent t snapshotId _ => db.discoveredBy t snapshotId = false
  | .finish t c => controller = true ∨ db.anyDeleting = false ∨ db.activeTask ≠ some t ∨
      RetryWaits db t c
  | _ => True

/-- An outcome is not `deleting`, and a discovery is recorded by `update_or_create` only. -/
def OutcomeSettles : OrphanCall → Prop
  | .register _ _ _ outcome _ _ | .saveOutcome _ _ outcome _ _ => outcome ≠ .deleting
  | .record _ _ outcome => outcome ≠ .discovered
  | _ => True

theorem OrphanTables.Fresh.unownedInv (h : db.Fresh) : UnownedInv db where
  candidates := h.candidates ▸ .nil
  deleting := fun c hc => by simp [h.candidates] at hc

theorem UnownedInv.of_free (hkeyed : Table.Keyed OrphanSnapshot.snapshotId db.candidates)
    (hfree : ∀ c ∈ db.candidates, c.status ≠ .deleting) : UnownedInv db where
  candidates := hkeyed
  deleting := fun c hc hstatus => absurd hstatus (hfree c hc)

theorem UnownedInv.of_tables (h : UnownedInv db) (hnow : db'.now = db.now)
    (htasks : db'.tasks = db.tasks) (hactive : db'.activeTask = db.activeTask)
    (hbackups : db'.backups = db.backups) (hsnapshots : db'.snapshots = db.snapshots)
    (hcandidates : db'.candidates = db.candidates) : UnownedInv db' where
  candidates := hcandidates ▸ h.candidates
  deleting := by
    intro c hc hstatus
    obtain ⟨t, ht⟩ := h.deleting c (hcandidates ▸ hc) hstatus
    exact ⟨t, ht.of_tables hnow htasks hactive hbackups hsnapshots⟩

variable {f : OrphanSnapshot → OrphanSnapshot}

/-- A change of a candidate that leaves it out of `deleting`. -/
theorem UnownedInv.updateCandidate (h : UnownedInv db)
    (hkey : ∀ c, (f c).snapshotId = c.snapshotId) (hf : ∀ c, (f c).status ≠ .deleting) :
    UnownedInv (db.updateCandidate snapshotId f) where
  candidates := h.candidates.update hkey
  deleting := by
    intro c hc hstatus
    rcases Table.mem_update.mp hc with ⟨c₀, -, -, rfl⟩ | ⟨hc, -⟩
    · exact absurd hstatus (hf c₀)
    · obtain ⟨t, ht⟩ := h.deleting c hc hstatus
      exact ⟨t, ht.of_tables rfl rfl rfl rfl rfl⟩

theorem UnownedInv.mark (h : UnownedInv db)
    (hunowned : ∀ c ∈ db.candidates, c.snapshotId = snapshotId → db.Unowned t c) :
    UnownedInv (db.saveStatus snapshotId .deleting) where
  candidates := h.candidates.update fun _ => rfl
  deleting := by
    intro c hc hstatus
    rcases Table.mem_update.mp hc with ⟨c₀, hc₀, hkey, rfl⟩ | ⟨hc, -⟩
    · have ht := hunowned c₀ hc₀ hkey
      exact ⟨t, ⟨ht.managed, ht.backups, ht.grace, ht.discovered, ht.active, ht.isOpen⟩⟩
    · obtain ⟨t', ht'⟩ := h.deleting c hc hstatus
      exact ⟨t', ht'.of_tables rfl rfl rfl rfl rfl⟩

theorem UnownedInv.updateTask (h : UnownedInv db) {f : ReconcileTask → ReconcileTask}
    (hid : ∀ row, (f row).id = row.id) (hreplaces : ∀ row, (f row).replacesTask = row.replacesTask)
    (hopen : db.activeTask = some t → ∀ row, row.isOpen → (f row).isOpen)
    (hevents : ∀ row, ∀ e ∈ (f row).events, e ∈ row.events ∨ Settled db e.snapshotId ∨
      e.outcome ≠ .discovered) : UnownedInv (db.updateTask t f) where
  candidates := h.candidates
  deleting := by
    intro c hc hstatus
    obtain ⟨t', ht'⟩ := h.deleting c hc hstatus
    refine ⟨t', ht'.updateTask hid hreplaces (fun heq => hopen (heq ▸ ht'.active)) ?_⟩
    intro row e he
    rcases hevents row e he with he | hsettled | hne
    · exact .inl he
    · exact .inr (.inl fun hsnapshot => hsettled c hc hsnapshot.symm hstatus)
    · exact .inr (.inr hne)

@[simp] theorem ReconcileTask.record_replacesTask (row : ReconcileTask) (snapshotId : String)
    (outcome : ResultOutcome) :
    (row.record snapshotId outcome).replacesTask = row.replacesTask := by
  rw [record]
  split <;> rfl

variable {outcome : ResultOutcome}

/-- The events after `_record`. -/
theorem ReconcileTask.mem_record_events {e : OrphanEvent}
    (h : e ∈ (row.record snapshotId outcome).events) :
    e ∈ row.events ∨ e = ⟨snapshotId, outcome⟩ := by
  rw [record] at h
  split at h
  · exact .inl h
  · exact (List.mem_cons.mp h).symm

theorem UnownedInv.record (h : UnownedInv db) (t : Nat) (snapshotId : String)
    (houtcome : outcome ≠ .discovered ∨ Settled db snapshotId) :
    UnownedInv (db.record t snapshotId outcome) := by
  refine h.updateTask (fun _ => ReconcileTask.record_id ..)
    (fun _ => ReconcileTask.record_replacesTask ..) (fun _ row hopen => ?_) ?_
  · rw [ReconcileTask.isOpen, ReconcileTask.record_task]
    exact hopen
  · intro row e he
    rcases ReconcileTask.mem_record_events he with he | rfl
    · exact .inl he
    · exact .inr houtcome.symm

@[simp] theorem ReconcileTask.step_events (row : ReconcileTask) (name : String)
    (status : StepStatus) (progress : Nat) :
    (row.step name status progress).events = row.events ∧
      (row.step name status progress).replacesTask = row.replacesTask := by
  rw [step]
  split
  · exact ⟨rfl, rfl⟩
  · split <;> exact ⟨rfl, rfl⟩

@[simp] theorem ReconcileTask.closeSteps_events (row : ReconcileTask) (c : Completion) :
    (row.closeSteps c).events = row.events ∧
      (row.closeSteps c).replacesTask = row.replacesTask := by
  rw [closeSteps]
  split
  · simp
  · exact ⟨rfl, rfl⟩

@[simp] theorem OrphanTables.confirmingTask_events (now : Int) (row : ReconcileTask) :
    (confirmingTask now row).events = row.events ∧
      (confirmingTask now row).replacesTask = row.replacesTask := by
  rw [confirmingTask]
  split <;> exact ⟨rfl, rfl⟩

/-- A change of a task that leaves its events alone and does not end it. -/
theorem UnownedInv.updateSteps (h : UnownedInv db) {f : ReconcileTask → ReconcileTask}
    (hid : ∀ row, (f row).id = row.id)
    (hevents : ∀ row, (f row).events = row.events ∧ (f row).replacesTask = row.replacesTask)
    (hopen : db.activeTask = some t → ∀ row, row.isOpen → (f row).isOpen) :
    UnownedInv (db.updateTask t f) :=
  h.updateTask hid (fun row => (hevents row).2) hopen
    fun row _ he => .inl ((hevents row).1 ▸ he)

theorem UnownedInv.wait (h : UnownedInv db) (controller : Bool) (t : Nat) (reason : String) :
    UnownedInv (db.wait controller t reason) := by
  cases controller with
  | true =>
    refine h.updateSteps (fun _ => OrphanTables.confirmingTask_id ..)
      (fun _ => OrphanTables.confirmingTask_events ..) fun _ row hopen => ?_
    exact (OrphanTables.confirmingTask_isTerminal ..).trans hopen
  | false =>
    exact h.updateSteps (fun _ => rfl) (fun _ => ⟨rfl, rfl⟩) fun _ _ _ => rfl

/-- A task that is not active, or a task of an Agent that leaves nothing in `deleting`, is
completed. -/
theorem UnownedInv.complete (h : UnownedInv db) {c : Completion}
    (hends : db.activeTask = some row.id → ∀ c ∈ db.candidates, c.status ≠ .deleting)
    (hc : db.complete row c = .ok db') : UnownedInv db' := by
  by_cases hactive : db.activeTask = some row.id
  · have hcandidates : db'.candidates = db.candidates := by
      rw [OrphanTables.complete] at hc
      split at hc
      · rw [OrphanTables.replace] at hc
        split at hc
        · cases hc
        · exact Except.ok.inj hc ▸ rfl
      · exact Except.ok.inj hc ▸ rfl
    exact .of_free (hcandidates ▸ h.candidates) (hcandidates ▸ hends hactive)
  · -- The gate belongs to another task, so the completed one is not tried again.
    have hretry : db.retryScan row c = false := by simp [OrphanTables.retryScan, hactive]
    rw [OrphanTables.complete, hretry] at hc
    cases hc
    have hupdate : UnownedInv (db.updateTask row.id fun row =>
        OrphanTables.completedTask row c) :=
      h.updateSteps (fun _ => OrphanTables.completedTask_id ..)
        (fun row => row.closeSteps_events c) fun heq => absurd heq hactive
    exact hupdate.of_tables rfl rfl (if_neg hactive) rfl rfl rfl

theorem UnownedInv.finish (h : UnownedInv db) {controller : Bool} {c : Completion}
    (hr : DecidedInTime controller db (.finish t c)) (hc : db.finish controller t c = .ok db') :
    UnownedInv db' := by
  rw [OrphanTables.finish] at hc
  cases hfind : db.task t with
  | none => simp [hfind] at hc
  | some row =>
    obtain ⟨-, rfl⟩ := OrphanTables.mem_of_task hfind
    simp only [hfind] at hc
    split at hc
    · exact Except.ok.inj hc ▸ h
    · split at hc
      · exact Except.ok.inj hc ▸ h.wait ..
      · rename_i hkeeps
        split at hc
        · cases hc
          refine (h.updateSteps (f := fun row => row.closeSteps (c.amend row))
            (fun _ => ReconcileTask.closeSteps_id ..)
            (fun _ => ReconcileTask.closeSteps_events ..) fun _ row hopen => ?_).wait ..
          rw [ReconcileTask.isOpen, ReconcileTask.closeSteps_task]
          exact hopen
        · rename_i hends
          refine h.complete (fun hactive => OrphanTables.anyDeleting_eq_false.mp ?_) hc
          rcases hr with rfl | hfree | hother | ⟨row', hrow', hretry, hchild⟩
          · simpa using hkeeps
          · exact hfree
          · exact absurd hactive hother
          · obtain rfl : row = row' := Option.some.inj (hfind.symm.trans hrow')
            simp [hretry, hchild] at hends

theorem settled_updateCandidate (hf : ∀ c, (f c).status ≠ .deleting) :
    Settled (db.updateCandidate snapshotId f) snapshotId := by
  intro c hc heq
  rcases Table.mem_update.mp hc with ⟨c₀, -, -, rfl⟩ | ⟨-, hne⟩
  · exact hf c₀
  · exact absurd heq hne

theorem settled_rediscover (db : OrphanTables) (item : InventoryItem) (at' : Int) :
    Settled (db.rediscover item at') item.snapshotId := by
  rw [OrphanTables.rediscover]
  split
  · rename_i hnone
    intro c hc heq
    rcases List.mem_cons.mp hc with rfl | hc
    · simp [OrphanTables.discovered]
    · exact absurd heq (Table.ne_of_find_none hnone hc)
  · exact settled_updateCandidate fun _ => by simp

theorem UnownedInv.saveOutcome (h : UnownedInv db) {outcome : CandidateStatus}
    (houtcome : outcome ≠ .deleting) (at' : Int) :
    UnownedInv (db.saveOutcome snapshotId outcome at') :=
  h.updateCandidate (fun _ => rfl) fun _ => houtcome

theorem UnownedInv.rediscover (h : UnownedInv db) (item : InventoryItem) (at' : Int) :
    UnownedInv (db.rediscover item at') := by
  rw [OrphanTables.rediscover]
  split
  · rename_i hnone
    refine ⟨h.candidates.cons fun c hc => Table.ne_of_find_none hnone hc, fun c hc hstatus => ?_⟩
    rcases List.mem_cons.mp hc with rfl | hc
    · cases hstatus
    · obtain ⟨t, ht⟩ := h.deleting c hc hstatus
      exact ⟨t, ht.of_tables rfl rfl rfl rfl rfl⟩
  · exact h.updateCandidate (fun _ => rfl) fun _ => by simp

theorem OrphanTables.Authorized.unowned (h : db.Authorized row) (hrow : db.task t = some row)
    (hmanaged : c.snapshotId ∉ db.managedIds) (hbackup : db.backupBlocker = "")
    (hgrace : db.PastGrace c) (hdiscovered : db.discoveredBy t c.snapshotId = false) :
    db.Unowned t c where
  managed := hmanaged
  backups := hbackup
  grace := hgrace
  discovered := hdiscovered
  active := (mem_of_task hrow).2 ▸ h.2
  isOpen := ⟨row, hrow, h.isOpen⟩

/-- What a call does to the candidates in `deleting`. -/
theorem UnownedInv.effect (h : UnownedInv db) {controller : Bool} {r : OrphanCall}
    (hr : DecidedInTime controller db r) (hsettles : OutcomeSettles r)
    (heffect : db.Effect controller r db') : UnownedInv db' := by
  cases heffect with
  | none => exact h
  | @startTask t row task hrow hstart =>
    obtain ⟨-, rfl⟩ := TaskRow.start_ok hstart
    exact h.updateSteps (fun _ => rfl) (fun _ => ⟨rfl, rfl⟩) fun _ _ _ => rfl
  | step =>
    refine h.updateSteps (fun _ => ReconcileTask.step_id ..)
      (fun _ => ReconcileTask.step_events ..) fun _ row hopen => ?_
    rw [ReconcileTask.isOpen, ReconcileTask.step_task]
    exact hopen
  | remote => exact h.of_tables rfl rfl rfl rfl rfl rfl
  | saveAbsent =>
    exact (h.updateCandidate (f := fun c => { c with status := .absent }) (fun _ => rfl)
      fun _ => by simp).record _ _ (.inl (by simp))
  | @register t execution snapshotId outcome event at' row hrow hregisters =>
    exact (h.saveOutcome hsettles at').record _ _ (.inr (settled_updateCandidate
      fun _ => hsettles))
  | @saveManaged t snapshotId =>
    exact (h.updateCandidate (f := fun c => { c with status := .managed }) (fun _ => rfl)
      fun _ => by simp).record _ _ (.inl (by simp))
  | @rediscover t item at' => exact (h.rediscover item at').record _ _ (.inr (settled_rediscover db item at'))
  | record => exact h.record _ _ (.inl hsettles)
  | deferred => exact h.record _ _ (.inl (by simp))
  | @marked t copy c hagent hc hbackup hmanaged =>
    rcases hr with rfl | hblocked | howned | ⟨⟨row, hrow, hauthorized⟩, hdiscovered, hgrace⟩
    · cases hagent
    · exact absurd hbackup hblocked
    · exact absurd howned hmanaged
    · obtain ⟨hcmem, hkey⟩ := OrphanTables.mem_of_candidate hc
      refine h.mark (t := t) fun c' hc' hkey' => ?_
      obtain rfl := h.candidates c' hc' c hcmem (hkey'.trans hkey.symm)
      exact hauthorized.unowned hrow (hkey ▸ hmanaged) hbackup (hgrace c' hc)
        (hkey ▸ hdiscovered)
  | @intent t snapshotId revision row c hrow hc hmay =>
    obtain ⟨hauthorized, -, -, hgrace, -, hbackup, hmanaged, -⟩ := hmay
    obtain ⟨hcmem, rfl⟩ := OrphanTables.mem_of_candidate hc
    have hmarked : UnownedInv (db.saveStatus c.snapshotId .deleting) :=
      h.mark (t := t) fun c' hc' hkey => by
        obtain rfl := h.candidates c' hc' c hcmem hkey
        exact hauthorized.unowned hrow hmanaged hbackup hgrace hr
    have htoken := hmarked.updateSteps (t := t)
      (f := fun row => { row with executionToken := some db.attempts.length })
      (fun _ => rfl) (fun _ => ⟨rfl, rfl⟩) fun _ _ hopen => hopen
    exact htoken.of_tables rfl rfl rfl rfl rfl rfl
  | @spawn id a ha hworker => exact h.of_tables rfl rfl rfl rfl rfl rfl
  | closeLease => exact h.of_tables rfl rfl rfl rfl rfl rfl
  | finishAttempt => exact h.of_tables rfl rfl rfl rfl rfl rfl
  | @recover t snapshotId id present reason =>
    have hstatus := fun c => db.recoveredStatus_ne c present
    have hrecovered : UnownedInv (db.updateCandidate snapshotId fun c =>
        db.recoveredCandidate c present reason) := h.updateCandidate (fun _ => rfl) hstatus
    have hattempt : UnownedInv ((db.updateCandidate snapshotId fun c =>
        db.recoveredCandidate c present reason).updateAttempt id fun a =>
          { a with state := .recovered }) := hrecovered.of_tables rfl rfl rfl rfl rfl rfl
    exact hattempt.record _ _ (.inr (settled_updateCandidate hstatus))
  | @saveOutcome t snapshotId outcome event at' =>
    exact (h.saveOutcome hsettles at').record _ _ (.inr (settled_updateCandidate
      fun _ => hsettles))
  | saveFailure =>
    exact (h.updateCandidate (f := fun c => { c with
      status := .candidate, lastError := "Agent confirmed snapshot deletion failure." })
      (fun _ => rfl) fun _ => by simp).record _ _ (.inl (by simp))
  | wait => exact h.wait ..
  | finish hfinish => exact h.finish hr hfinish

theorem OrphanTables.anyDeleting_of_mem (hc : c ∈ db.candidates) (hstatus : c.status = .deleting) :
    db.anyDeleting = true :=
  List.any_eq_true.mpr ⟨c, hc, decide_eq_true hstatus⟩

/-- What others do to the candidates in `deleting`. -/
theorem UnownedInv.environment (h : UnownedInv db) {e : OrphanEnv} (he : FencedInTime db e) :
    UnownedInv (orphanEnvironment db e) := by
  have hcandidates := orphanEnvironment_candidates db e
  refine ⟨hcandidates ▸ h.candidates, fun c hc hstatus => ?_⟩
  rw [hcandidates] at hc
  obtain ⟨t, ht⟩ := h.deleting c hc hstatus
  exact ⟨t, ht.environment (OrphanTables.anyDeleting_of_mem hc hstatus) he⟩

end HyperFileLens.Storage
