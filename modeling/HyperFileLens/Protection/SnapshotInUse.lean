import HyperFileLens.Protection.SnapshotUsage

/-!
# A snapshot in use is not deleted

A deletion is *busy* while a delete task is not terminal or a run has passed the point
where it would end by itself. Leases need a restorable snapshot, and a request makes an
unused snapshot `DELETING`, so a busy deletion and a lease exclude each other as long as
nothing makes the snapshot restorable again (`Exclusive`).

The only writer that does is `refresh_source_snapshot_summary`: when all directories are
finished it sets the status without a look at the deletion (`Apart` leaves that out).
-/

namespace HyperFileLens.Protection

open Tasks Transition

/-! ## The condition -/

/-- All directories of a snapshot are finished, and one of them is `AVAILABLE`. -/
def Restores (instance' : BackupSourceSnapshot) (rows : List SnapshotDirectory) : Prop :=
  max instance'.directoryCount rows.length ≤ rows.countP (fun row => row.status.isTerminal) ∧
    ∃ row ∈ rows, row.status = .available

/-- A delete task is not terminal, or a run is on its way to the executors. -/
def SnapshotUse.Busy (st : SnapshotUse) : Prop :=
  st.record.activeDeleteTask.isSome = true ∨
    ∃ i w, st.worker i = some w ∧ w.isLive = true

/-- While a deletion is busy, no registration and no refresh finds all directories
finished and one of them `AVAILABLE`. -/
def Apart (st : SnapshotUse) : UseEvent → Prop
  | .register i _ result _ => st.Busy → ∀ row ∈ st.instances[i]?,
      ¬Restores row (putDirectory st.record.directories result.registered)
  | .refresh i j _ _ => st.Busy → ∀ row ∈ st.instances[i]?, ∀ rows ∈ st.reads[j]?,
      ¬Restores row rows
  | _ => True

/-- While a deletion is busy, the snapshot is not restorable and has no lease. -/
def Exclusive (st : SnapshotUse) : Prop :=
  st.Busy → st.record.row.status.isRestorable = false ∧ st.record.leases = []

/-- A summary is restorable exactly when all directories are finished and one of them is
`AVAILABLE`. -/
theorem isRestorable_refreshSourceSnapshotSummary {instance' : BackupSourceSnapshot}
    {rows : List SnapshotDirectory} {finishedAt : Option Int} {now : Int} :
    (refreshSourceSnapshotSummary instance' rows finishedAt now).status.isRestorable = true ↔
      Restores instance' rows := by
  have hsuccess : 0 < rows.countP (fun row => row.status = .available) ↔
      ∃ row ∈ rows, row.status = .available := by
    simp [List.countP_pos_iff]
  rw [Restores, ← hsuccess, refreshSourceSnapshotSummary]
  dsimp only
  split
  · rename_i hfinished
    split
    · rename_i hall
      exact iff_of_true rfl ⟨hfinished.2, hall ▸ hfinished.1⟩
    · split
      · rename_i hsome
        exact iff_of_true rfl ⟨hfinished.2, hsome⟩
      · rename_i hnone
        exact iff_of_false Bool.false_ne_true fun h => hnone h.2
  · rename_i hunfinished
    refine iff_of_false ?_ fun h => hunfinished ⟨?_, h.1⟩
    · split
      · rename_i hstatus
        cases hinstance : instance'.status <;>
          simp_all [SnapshotStatus.isRestorable, SnapshotStatus.isDeletion]
      · exact Bool.false_ne_true
    · have hrows : 0 < rows.length := Nat.lt_of_lt_of_le h.2 List.countP_le_length
      omega

/-! ## Steps of a deletion -/

/-- The leases stay, the snapshot does not become restorable, and no delete task becomes
active. -/
structure Settles (s s' : SnapshotRecord) : Prop where
  leases : s'.leases = s.leases
  restorable : s'.row.status.isRestorable = true → s.row.status.isRestorable = true
  active : s'.activeDeleteTask.isSome = true → s.activeDeleteTask.isSome = true

theorem activeDeleteTask_isSome {s : SnapshotRecord} :
    s.activeDeleteTask.isSome = true ↔ ∃ t ∈ s.deleteTasks, t.task.status.isTerminal = false := by
  simp [SnapshotRecord.activeDeleteTask, List.find?_isSome]

section Settles

variable {s s' s'' : SnapshotRecord} {taskId : Nat}

theorem Settles.refl (s : SnapshotRecord) : Settles s s := ⟨rfl, id, id⟩

theorem Settles.trans (h : Settles s s') (h' : Settles s' s'') : Settles s s'' where
  leases := h'.leases.trans h.leases
  restorable := h.restorable ∘ h'.restorable
  active := h.active ∘ h'.active

theorem Settles.of_row (row : BackupSourceSnapshot) (h : row.status.isRestorable = false) :
    Settles s { s with row := row } where
  leases := rfl
  restorable := by
    intro hrow
    rw [h] at hrow
    cases hrow
  active := id

theorem settles_updateTask {f : TaskRow DeleteResult → TaskRow DeleteResult}
    (hf : ∀ task, (f task).status.isTerminal = false → task.status.isTerminal = false) :
    Settles s (updateTask s taskId f) where
  leases := rfl
  restorable := id
  active := by
    intro h
    obtain ⟨t', ht', hactive⟩ := activeDeleteTask_isSome.mp h
    obtain ⟨t, ht, rfl⟩ := List.mem_map.mp ht'
    refine activeDeleteTask_isSome.mpr ⟨t, ht, ?_⟩
    split at hactive
    · exact hf _ hactive
    · exact hactive

theorem settles_complete (status : TaskStatus) (result : Option DeleteResult)
    (code message : String) :
    Settles s (updateTask s taskId fun task => task.complete status result code message) := by
  refine settles_updateTask fun task hactive => ?_
  cases hterminal : task.status.isTerminal with
  | false => rfl
  | true =>
    rw [TaskRow.complete_of_isTerminal _ _ _ _ hterminal, hterminal] at hactive
    exact hactive

theorem settles_deferSnapshotDelete : Settles s (deferSnapshotDelete taskId s) := by
  refine settles_updateTask fun task hactive => ?_
  split at hactive
  · rename_i hstatus
    rcases hstatus with hstatus | hstatus <;> rw [hstatus] <;> rfl
  · exact hactive

theorem settles_failSnapshotDeleteTask (code message : String) (result : Option DeleteResult) :
    Settles s (failSnapshotDeleteTask taskId code message result s) := by
  rw [failSnapshotDeleteTask]
  split
  · exact .refl s
  · split
    · exact .refl s
    · exact (Settles.of_row _ rfl).trans (settles_complete .failed _ _ _)

theorem settles_interruptDelete (error : ExecutorError) :
    Settles s (interruptDelete taskId error s).1 := by
  cases error with
  | agentSnapshotDeletePending message => exact settles_deferSnapshotDelete
  | controllerSnapshotDeleteBusy message => exact settles_deferSnapshotDelete
  | validation message => exact settles_failSnapshotDeleteTask _ _ _
  | other message => exact settles_failSnapshotDeleteTask _ _ _

theorem settles_markDeleted (p : SnapshotDirectory → Bool) : Settles s (markDeleted s p) :=
  ⟨rfl, id, id⟩

theorem settles_completeDelete (now : Int) (result : DeleteResult) :
    Settles s (completeDelete taskId now result s) :=
  (Settles.of_row _ rfl).trans (settles_complete .success _ _ _)

theorem settles_completeEmptyDelete (now : Int) : Settles s (completeEmptyDelete taskId now s) :=
  (settles_markDeleted _).trans (settles_completeDelete now _)

theorem settles_finishDelete (now : Int) (rows : List SnapshotDirectory) (p : DeleteProgress) :
    Settles s (finishDelete taskId now rows s p) := by
  rw [finishDelete]
  generalize (rows.filter fun row => row.physicalId = "").map SnapshotDirectory.id = ids
  have hmarked : Settles s (if p.hardFailed then s else markDeleted s fun row => row.id ∈ ids) := by
    split
    · exact .refl s
    · exact settles_markDeleted _
  generalize (if p.hardFailed then s else markDeleted s fun row => row.id ∈ ids) = s' at hmarked
  split
  · exact hmarked.trans (settles_failSnapshotDeleteTask _ _ _)
  · exact hmarked.trans (settles_completeDelete now _)

theorem settles_startPending {t : DeleteTask} (h : startPending t s = .ok s') : Settles s s' := by
  rw [startPending] at h
  split at h
  · cases ht : taskOf s t.id with
    | none => simp [ht] at h
    | some t' =>
      simp only [ht] at h
      cases hstart : t'.task.start with
      | error message => simp [hstart, Except.map] at h
      | ok task =>
        rw [hstart] at h
        cases h
        have hpending := (TaskRow.start_ok hstart).1
        refine ⟨rfl, id, fun _ => activeDeleteTask_isSome.mpr ⟨t', (Table.mem_of_find ht).1, ?_⟩⟩
        rw [hpending]
        rfl
  · cases h
    exact .refl s

/-- The record a run has when it comes to its groups, or stops before them. -/
def StartedDelete.record : StartedDelete → SnapshotRecord
  | .stopped s _ => s
  | .groups s _ _ => s

theorem settles_enterDelete (env : DeleteEnv) (now : Int) :
    Settles s (enterDelete env now taskId s).record := by
  rw [enterDelete]
  dsimp only
  split
  · exact settles_completeEmptyDelete now
  · cases env.validate with
    | error message => exact settles_interruptDelete _
    | ok =>
      dsimp only
      cases groupByRepositoryLocator env.locator
          ((snapshotDeleteRows s).filter fun row => row.physicalId ≠ "") [] with
      | error message => exact settles_interruptDelete _
      | ok groups => exact .refl s

end Settles

/-! ## Steps of a run -/

section Worker

variable {st st' : SnapshotUse} {i : Nat} {w w' : DeleteWorker}

/-- The live runs of a state were busy before. -/
def LiveFrom (st st' : SnapshotUse) : Prop :=
  ∀ i w, st'.worker i = some w → w.isLive = true → st.Busy

theorem LiveFrom.of_eq (h : st'.worker = st.worker) : LiveFrom st st' := by
  intro i w hw hlive
  exact .inr ⟨i, w, h ▸ hw, hlive⟩

theorem liveFrom_update_none (h : st'.worker = Function.update st.worker i none) :
    LiveFrom st st' := by
  intro j v hv hlive
  rw [h] at hv
  by_cases hj : j = i
  · subst hj
    simp at hv
  · exact .inr ⟨j, v, by simpa [hj] using hv, hlive⟩

theorem liveFrom_update (h : st'.worker = Function.update st.worker i (some w'))
    (hw : w'.isLive = true → st.Busy) : LiveFrom st st' := by
  intro j v hv hlive
  rw [h] at hv
  by_cases hj : j = i
  · subst hj
    obtain rfl : w' = v := by simpa using hv
    exact hw hlive
  · exact .inr ⟨j, v, by simpa [hj] using hv, hlive⟩

theorem Exclusive.settles (h : Exclusive st) (hs : Settles st.record st'.record)
    (hlive : LiveFrom st st') : Exclusive st' := by
  intro hbusy
  have hbefore : st.Busy := by
    rcases hbusy with hactive | ⟨i, w, hw, hwlive⟩
    · exact .inl (hs.active hactive)
    · exact hlive i w hw hwlive
  obtain ⟨hrestorable, hleases⟩ := h hbefore
  refine ⟨?_, hs.leases.trans hleases⟩
  cases hstatus : st'.record.row.status.isRestorable with
  | false => rfl
  | true => rw [hs.restorable hstatus] at hrestorable; exact hrestorable

theorem Exclusive.work (h : Exclusive st) (hw : st.worker i = some w) {e : WorkerEvent}
    (hs : workerStep st i w e = some st') : Exclusive st' := by
  have hbusy : w.isLive = true → st.Busy := fun hlive => .inr ⟨i, w, hw, hlive⟩
  cases e with
  | check =>
    cases w with
    | loaded t =>
      cases hs
      rw [SnapshotUse.check]
      split
      · exact h.settles settles_deferSnapshotDelete (liveFrom_update_none rfl)
      · exact h.settles (.refl _) (liveFrom_update rfl hbusy)
    | _ => cases hs
  | start =>
    cases w with
    | checked t =>
      cases hs
      rw [SnapshotUse.start]
      split
      · exact h.settles (.refl _) (liveFrom_update_none rfl)
      · rename_i hactive
        cases hstart : startPending t st.record with
        | error message =>
          exact h.settles (settles_interruptDelete _) (liveFrom_update_none rfl)
        | ok record =>
          refine h.settles (settles_startPending hstart) (liveFrom_update rfl fun _ => hbusy ?_)
          simpa [DeleteWorker.isLive] using hactive
    | _ => cases hs
  | enter env now =>
    cases w with
    | started taskId =>
      cases hs
      have hsettles : Settles st.record (enterDelete env now taskId st.record).record :=
        settles_enterDelete env now
      rw [SnapshotUse.enter]
      cases hstarted : enterDelete env now taskId st.record with
      | stopped record status =>
        rw [hstarted] at hsettles
        exact h.settles hsettles (liveFrom_update_none rfl)
      | groups record rows groups =>
        rw [hstarted] at hsettles
        exact h.settles hsettles (liveFrom_update rfl fun _ => hbusy rfl)
    | _ => cases hs
  | issue =>
    cases w with
    | deleting taskId rows groups p =>
      cases groups with
      | nil => cases hs
      | cons group groups =>
        cases hs
        exact h.settles (.refl _) (liveFrom_update rfl fun _ => hbusy rfl)
    | _ => cases hs
  | answer outcome =>
    cases w with
    | issued taskId rows group groups p =>
      cases hs
      cases outcome with
      | error error => exact h.settles (settles_interruptDelete _) (liveFrom_update_none rfl)
      | ok outcome =>
        exact h.settles (settles_markDeleted _) (liveFrom_update rfl fun _ => hbusy rfl)
    | _ => cases hs
  | finish now =>
    cases w with
    | deleting taskId rows groups p =>
      cases groups with
      | nil =>
        cases hs
        exact h.settles (settles_finishDelete now rows p) (liveFrom_update_none rfl)
      | cons group groups => cases hs
    | _ => cases hs
  | crash =>
    cases hs
    exact h.settles (.refl _) (liveFrom_update_none rfl)

end Worker

/-! ## Runs -/

section Runs

variable {st st' : SnapshotUse} {record : SnapshotRecord}

theorem Exclusive.deleting (hleases : record.leases = [])
    (hstatus : record.row.status = .deleting) : Exclusive { st with record := record } := by
  intro _
  refine ⟨?_, hleases⟩
  change record.row.status.isRestorable = false
  rw [hstatus]
  rfl

theorem Exclusive.reconcileFailed (h : Exclusive st) (accepted : Bool) :
    Exclusive { st with record := reconcileFailedDelete accepted st.record } := by
  rw [reconcileFailedDelete]
  split
  · exact h
  · split
    · exact h
    · rename_i hfree
      cases st.record.latestDeleteTask with
      | none => exact h
      | some t =>
        dsimp only
        split
        · cases hretry : retryDeleteTask accepted st.record with
          | error error => exact h
          | ok record =>
            obtain ⟨hstatus, _, hleases, _⟩ := retryDeleteTask_ok hretry
            exact .deleting (hleases.trans (SnapshotRecord.leases_eq_nil hfree)) hstatus
        · exact h

theorem Exclusive.summary (h : Exclusive st) {instances : List BackupSourceSnapshot}
    {row : BackupSourceSnapshot} {rows : List SnapshotDirectory} {finishedAt : Option Int}
    {now : Int}
    (hrow : record.row = st.record.row.saveSummary (refreshSourceSnapshotSummary row rows
      finishedAt now)) (hleases : record.leases = st.record.leases)
    (htasks : record.deleteTasks = st.record.deleteTasks) (hapart : st.Busy → ¬Restores row rows) :
    Exclusive { st with record := record, instances := instances } := by
  intro hbusy
  have hbefore : st.Busy := by
    rcases hbusy with hactive | hworker
    · have hsame : record.activeDeleteTask = st.record.activeDeleteTask := by
        rw [SnapshotRecord.activeDeleteTask, SnapshotRecord.activeDeleteTask, htasks]
      exact .inl (hsame ▸ hactive)
    · exact .inr hworker
  refine ⟨?_, hleases.trans (h hbefore).2⟩
  change record.row.status.isRestorable = false
  rw [hrow]
  by_contra hstatus
  rw [Bool.not_eq_false] at hstatus
  exact hapart hbefore (isRestorable_refreshSourceSnapshotSummary.mp hstatus)

theorem Exclusive.step (h : Exclusive st) {e : UseEvent} (hapart : Apart st e)
    (hs : useStep st e = some st') : Exclusive st' := by
  cases e with
  | acquire refusal lease =>
    rw [useStep] at hs
    cases hacquire : acquireSnapshotUsage refusal st.record lease with
    | error error => simp [hacquire] at hs
    | ok record =>
      rw [hacquire] at hs
      cases hs
      obtain ⟨hrestorable, hrow, _, htasks⟩ := acquireSnapshotUsage_ok hacquire
      -- A busy deletion would not have left the snapshot restorable.
      intro hbusy
      have hbefore : st.Busy := by
        rcases hbusy with hactive | hworker
        · have hsame : record.activeDeleteTask = st.record.activeDeleteTask := by
            rw [SnapshotRecord.activeDeleteTask, SnapshotRecord.activeDeleteTask, htasks]
          exact .inl (hsame ▸ hactive)
        · exact .inr hworker
      rw [(h hbefore).1] at hrestorable
      cases hrestorable
  | release lease =>
    cases hs
    intro hbusy
    obtain ⟨hrestorable, hleases⟩ := h hbusy
    exact ⟨hrestorable, by simp [releaseSnapshotUsage, hleases]⟩
  | reconcileLeases settled =>
    cases hs
    intro hbusy
    obtain ⟨hrestorable, hleases⟩ := h hbusy
    exact ⟨hrestorable, by simp [reconcileSnapshotUsageLeases, hleases]⟩
  | request accepted =>
    rw [useStep] at hs
    cases hrequest : createAndQueueSnapshotDeleteTask accepted st.record with
    | error error => simp [hrequest] at hs
    | ok record =>
      rw [hrequest] at hs
      cases hs
      have hrequested := createAndQueueSnapshotDeleteTask_ok hrequest
      rcases hrequested.claimed with ⟨rfl, _⟩ | ⟨_, hstatus⟩
      · exact h
      · exact .deleting (hrequested.leases.trans hrequested.unused) hstatus
  | fail taskId code message =>
    cases hs
    exact h.settles (settles_failSnapshotDeleteTask _ _ _) (.of_eq rfl)
  | reconcileFailed accepted =>
    cases hs
    exact h.reconcileFailed accepted
  | reconcileRunning t =>
    cases hs
    refine h.settles ?_ (.of_eq rfl)
    rw [reconcileRunningDelete]
    split
    · exact settles_failSnapshotDeleteTask _ _ _
    · exact .refl _
  | load =>
    cases hs
    exact h
  | read =>
    cases hs
    exact h
  | register i orphanCleanup result now =>
    rw [useStep] at hs
    cases hrow : st.instances[i]? with
    | none => simp [hrow] at hs
    | some row =>
      simp only [hrow] at hs
      cases hregister : recordSourceSnapshotDirectoryResult orphanCleanup st.record row
          result now with
      | error message => simp [hregister] at hs
      | ok registered =>
        rw [hregister] at hs
        cases hs
        rw [recordSourceSnapshotDirectoryResult] at hregister
        split at hregister
        · cases hregister
        · split at hregister
          · cases hregister
          · split at hregister
            · cases hregister
            · cases hregister
              exact h.summary rfl rfl rfl fun hbusy => hapart hbusy row hrow
  | refresh i j finishedAt now =>
    rw [useStep] at hs
    cases hrow : st.instances[i]? with
    | none => simp [hrow] at hs
    | some row =>
      cases hrows : st.reads[j]? with
      | none => simp [hrow, hrows] at hs
      | some rows =>
        rw [hrow, hrows] at hs
        cases hs
        exact h.summary rfl rfl rfl fun hbusy => hapart hbusy row hrow rows hrows
  | call taskId =>
    rw [useStep] at hs
    split at hs
    · cases hs
    · cases ht : taskOf st.record taskId with
      | none => simp [ht] at hs
      | some t =>
        rw [ht] at hs
        cases hs
        refine h.settles (.refl _) (liveFrom_update rfl fun hlive => .inl ?_)
        refine activeDeleteTask_isSome.mpr ⟨t, (Table.mem_of_find ht).1, ?_⟩
        simpa [DeleteWorker.isLive] using hlive
  | work i e =>
    rw [useStep] at hs
    cases hw : st.worker i with
    | none => simp [hw] at hs
    | some w =>
      rw [hw] at hs
      exact h.work hw hs
  | expire =>
    cases hs
    exact h

theorem exclusive_of_reachable (h : snapshotUses.ReachableUnder Apart st) : Exclusive st := by
  refine System.ReachableUnder.invariant (I := Exclusive) ?_ ?_ h
  · intro st ⟨htasks, hworker⟩ hbusy
    rcases hbusy with hactive | ⟨i, w, hw, _⟩
    · rw [activeDeleteTask_isSome, htasks] at hactive
      obtain ⟨t, ht, _⟩ := hactive
      cases ht
    · rw [hworker i] at hw
      cases hw
  · intro st e st' hI hapart hs
    exact hI.step hapart hs

end Runs

/-- While nothing makes a snapshot in deletion restorable, no executor is called for a
snapshot with a lease, and no lease is taken while a delete task is not terminal. -/
theorem in_use_apart {st : SnapshotUse} (h : snapshotUses.ReachableUnder Apart st) :
    (∀ i st', snapshotUses.step st (.work i .issue) = some st' → st.record.leases = []) ∧
    (∀ refusal lease st', snapshotUses.step st (.acquire refusal lease) = some st' →
      ∀ t ∈ st.record.deleteTasks, t.task.status.isTerminal = true) := by
  constructor
  · intro i st' hs
    have hs : useStep st (.work i .issue) = some st' := hs
    rw [useStep] at hs
    cases hw : st.worker i with
    | none => simp [hw] at hs
    | some w =>
      rw [hw] at hs
      have hlive : w.isLive = true := by
        cases w with
        | deleting taskId rows groups p => rfl
        | _ => cases hs
      exact (exclusive_of_reachable h (.inr ⟨i, w, hw, hlive⟩)).2
  · intro refusal lease st' hs t ht
    have hs : useStep st (.acquire refusal lease) = some st' := hs
    by_contra hactive
    have hbusy : st.Busy := .inl (activeDeleteTask_isSome.mpr ⟨t, ht, by simpa using hactive⟩)
    rw [useStep] at hs
    cases hacquire : acquireSnapshotUsage refusal st.record lease with
    | error error => simp [hacquire] at hs
    | ok record =>
      have hrestorable := (acquireSnapshotUsage_ok hacquire).1
      rw [(exclusive_of_reachable h hbusy).1] at hrestorable
      cases hrestorable

/-! ## A late result -/

def backedUp : SnapshotDirectory where
  id := 1
  backupConfigDirId := 7
  kopiaSnapshotId := some "k5f0"
  status := .available

/-- An available snapshot of one directory, read by the caller of a registration. -/
def available : SnapshotUse where
  record := {
    row := { id := 3, status := .available, createdAt := 0, directoryCount := 1 }
    directories := [backedUp] }

/-- Everything outside of the tables of the snapshot is in order. -/
def smooth : DeleteEnv where
  validate := .ok ()
  locator := fun _ => .ok { repositoryId := 2, repositoryType := "s3" }
  executor := fun _ _ => .error (.other "Not called.")

def plainDelete : List UseEvent :=
  [.request true, .call 0, .work 0 .check, .work 0 .start, .work 0 (.enter smooth 10)]

def aboutToIssue : SnapshotUse := (snapshotUses.exec available plainDelete).get (by decide)

/-- The executor of an unused snapshot is called. -/
theorem in_use_apart_plainDelete :
    (snapshotUses.step aboutToIssue (.work 0 .issue)).isSome = true ∧
      ∀ i st', snapshotUses.step aboutToIssue (.work i .issue) = some st' →
        aboutToIssue.record.leases = [] := by
  refine ⟨by decide, (in_use_apart (.of_exec (.start ⟨rfl, fun _ => rfl⟩) ?_
    (Option.some_get _).symm)).1⟩
  exact ⟨trivial, trivial, trivial, trivial, trivial, trivial⟩

/-- A deletion comes to its executor while the result of the directory is registered
once more and a restore takes a lease. -/
def lateResult : List UseEvent :=
  .load :: plainDelete ++ [.register 0 false backedUp 11]

def restoreLease : SnapshotUsageLease := ⟨"restore", "12"⟩

def registeredLate : SnapshotUse := (snapshotUses.exec available lateResult).get (by decide)

def leasedLate : SnapshotUse :=
  (snapshotUses.exec available (lateResult ++ [.acquire none restoreLease])).get (by decide)

/-- A lease is taken while the delete task runs, and then the executor is called. -/
theorem not_in_use_apart_lateResult :
    (snapshotUses.Reachable registeredLate ∧
      (snapshotUses.step registeredLate (.acquire none restoreLease)).isSome = true ∧
      ∃ t ∈ registeredLate.record.deleteTasks, t.task.status = .running) ∧
    snapshotUses.Reachable leasedLate ∧
      (snapshotUses.step leasedLate (.work 0 .issue)).isSome = true ∧
      leasedLate.record.leases = [restoreLease] := by
  have hinit : snapshotUses.init available := ⟨rfl, fun _ => rfl⟩
  refine ⟨⟨.of_exec hinit (Option.some_get _).symm, ?_, ?_⟩,
    .of_exec hinit (Option.some_get _).symm, ?_, ?_⟩
  · decide
  · decide
  · decide
  · decide

end HyperFileLens.Protection
