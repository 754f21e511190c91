import HyperFileLens.Library.Transition
import HyperFileLens.Protection.DeleteMarks

/-!
# A deleted snapshot is gone

What `run_snapshot_delete_task` leaves, for any answers of its executors, and over any
number of calls, retries and leases of one snapshot.

*Verdicts.*  A call leaves the rows alone, waits, deletes the snapshot with all its
directories, or fails (`verdict_runSnapshotDeleteTask`).

*Marks.*  A directory that a call marks has no physical identifier, or an answer of that
call to its own group reports it (`marks_runSnapshotDeleteTask`).
-/

namespace HyperFileLens.Protection

open Tasks Transition

/-! ## The task of a run -/

def TaskActive (s : SnapshotRecord) (taskId : Nat) : Prop :=
  ∃ t, taskOf s taskId = some t ∧ t.task.status.isTerminal = false

def TaskEnds (s : SnapshotRecord) (taskId : Nat) (status : TaskStatus) : Prop :=
  ∃ t, taskOf s taskId = some t ∧ t.task.status = status

section Task

variable {s s' : SnapshotRecord} {taskId : Nat}

theorem taskOf_updateTask (f : TaskRow DeleteResult → TaskRow DeleteResult) {t : DeleteTask}
    (h : taskOf s taskId = some t) :
    taskOf (updateTask s taskId f) taskId = some { t with task := f t.task } := by
  have hid : t.id = taskId := (Table.mem_of_find h).2
  have hkey : ∀ r : DeleteTask,
      (if r.id = taskId then { r with task := f r.task } else r).id = r.id := by
    intro r
    split <;> rfl
  have hfind : taskOf (updateTask s taskId f) taskId =
      (taskOf s taskId).map fun t => if t.id = taskId then { t with task := f t.task } else t :=
    Table.find_map hkey
  rw [hfind, h, Option.map_some, if_pos hid]

theorem TaskActive.of_eq (h : TaskActive s taskId) (hs : s'.deleteTasks = s.deleteTasks) :
    TaskActive s' taskId := by
  rw [TaskActive, taskOf, hs]
  exact h

theorem TaskActive.complete (h : TaskActive s taskId) (status : TaskStatus)
    (result : Option DeleteResult) (errorCode errorMessage : String) :
    TaskEnds (updateTask s taskId fun task => task.complete status result errorCode errorMessage)
      taskId status := by
  obtain ⟨t, ht, hactive⟩ := h
  refine ⟨_, taskOf_updateTask _ ht, ?_⟩
  simp [TaskRow.complete, hactive]

/-- A failed task leaves its snapshot `DELETE_FAILED`. -/
theorem failSnapshotDeleteTask_of_active (h : TaskActive s taskId) (code message : String)
    (result : Option DeleteResult) :
    (failSnapshotDeleteTask taskId code message result s).row.status = .deleteFailed ∧
      TaskEnds (failSnapshotDeleteTask taskId code message result s) taskId .failed := by
  obtain ⟨t, ht, hactive⟩ := h
  rw [failSnapshotDeleteTask, ht]
  dsimp only
  rw [if_neg (by simp [hactive])]
  have hfailed : TaskActive { s with
      row.status := .deleteFailed, row.errorCode := code, row.errorMessage := message } taskId :=
    ⟨t, ht, hactive⟩
  exact ⟨rfl, hfailed.complete .failed _ _ _⟩

end Task

/-! ## How a run ends -/

/-- The ways a call ends: it leaves the rows alone, it waits, it deletes the snapshot
with all its directories, or it fails. -/
inductive Verdict (s : SnapshotRecord) (taskId : Nat) : DeleteRun → Prop
  | idle {status : RunStatus} (h : status = .locked ∨ ¬TaskActive s taskId) :
      Verdict s taskId ⟨s, status, []⟩
  | waiting {s' : SnapshotRecord} {answers : List Answer} (row : s'.row = s.row) :
      Verdict s taskId ⟨s', .waiting, answers⟩
  | deleted {s' : SnapshotRecord} {answers : List Answer} (row : s'.row.status = .deleted)
      (task : TaskEnds s' taskId .success) (all : ∀ d ∈ s'.directories, d.status = .deleted) :
      Verdict s taskId ⟨s', .returned, answers⟩
  | failed {s' : SnapshotRecord} {answers : List Answer} (row : s'.row.status = .deleteFailed)
      (task : TaskEnds s' taskId .failed) : Verdict s taskId ⟨s', .returned, answers⟩

section Ends

variable {s s' : SnapshotRecord} {taskId : Nat} {answers : List Answer}

theorem verdict_interruptDelete (hrow : s'.row = s.row) (h : TaskActive s' taskId)
    (error : ExecutorError) :
    Verdict s taskId
      ⟨(interruptDelete taskId error s').1, (interruptDelete taskId error s').2, answers⟩ := by
  cases error with
  | agentSnapshotDeletePending message => exact .waiting hrow
  | controllerSnapshotDeleteBusy message => exact .waiting hrow
  | validation message =>
    have hfail := failSnapshotDeleteTask_of_active h "SNAPSHOT_DELETE_PRECONDITION_FAILED"
      message none
    exact .failed hfail.1 hfail.2
  | other message =>
    have hfail := failSnapshotDeleteTask_of_active h "SNAPSHOT_DELETE_INTERNAL_ERROR" message none
    exact .failed hfail.1 hfail.2

theorem verdict_completeDelete (h : TaskActive s' taskId) (now : Int) (result : DeleteResult)
    (hall : ∀ d ∈ s'.directories, d.status = .deleted) :
    Verdict s taskId ⟨completeDelete taskId now result s', .returned, answers⟩ := by
  have hdeleted : TaskActive { s' with
      row.status := .deleted, row.deletedAt := some now, row.errorCode := ""
      row.errorMessage := "" } taskId := h
  exact .deleted rfl (hdeleted.complete .success _ _ _) hall

theorem verdict_completeEmptyDelete (h : TaskActive s' taskId) (now : Int) :
    Verdict s taskId ⟨completeEmptyDelete taskId now s', .returned, answers⟩ := by
  have hmarked : TaskActive (markDeleted s' fun _ => true) taskId := h.of_eq rfl
  refine verdict_completeDelete hmarked now _ fun d hd => ?_
  obtain ⟨row, _, rfl⟩ := List.mem_map.mp hd
  rfl

theorem verdict_finishDelete (h : TaskActive s' taskId) (now : Int)
    (rows : List SnapshotDirectory) (p : DeleteProgress) :
    Verdict s taskId ⟨finishDelete taskId now rows s' p, .returned, answers⟩ := by
  rw [finishDelete]
  generalize (rows.filter fun row => row.physicalId = "").map SnapshotDirectory.id = ids
  have hmarked : TaskActive
      (if p.hardFailed then s' else markDeleted s' fun row => row.id ∈ ids) taskId := by
    split
    · exact h
    · exact h.of_eq rfl
  generalize (if p.hardFailed then s' else markDeleted s' fun row => row.id ∈ ids) = s'' at hmarked
  split
  · exact .failed (failSnapshotDeleteTask_of_active hmarked _ _ _).1
      (failSnapshotDeleteTask_of_active hmarked _ _ _).2
  · rename_i hcounts
    refine verdict_completeDelete hmarked now _ fun d hd => ?_
    have hnone : s''.directories.countP (fun row => row.status ≠ .deleted) = 0 := by
      rw [Bool.or_eq_true, not_or, decide_eq_true_eq, Nat.pos_iff_ne_zero, not_not] at hcounts
      exact hcounts.2
    simpa using List.countP_eq_zero.mp hnone d hd

end Ends

/-! ## How a run starts -/

structure Begun (s : SnapshotRecord) (taskId : Nat) (s' : SnapshotRecord) : Prop where
  row : s'.row = s.row
  directories : s'.directories = s.directories
  active : TaskActive s' taskId

def physicalRows (s : SnapshotRecord) : List SnapshotDirectory :=
  (snapshotDeleteRows s).filter fun row => row.physicalId ≠ ""

inductive Started (env : DeleteEnv) (taskId : Nat) (now : Int) (s : SnapshotRecord) :
    StartedDelete → Prop
  | terminal (h : ¬TaskActive s taskId) : Started env taskId now s (.stopped s .returned)
  | refused {s' : SnapshotRecord} (begun : Begun s taskId s') (message : String) :
      Started env taskId now s (.stopped (interruptDelete taskId (.validation message) s').1
        (interruptDelete taskId (.validation message) s').2)
  | empty {s' : SnapshotRecord} (begun : Begun s taskId s')
      (h : kopiaSnapshotIds (snapshotDeleteRows s) = []) :
      Started env taskId now s (.stopped (completeEmptyDelete taskId now s') .returned)
  | groups {s' : SnapshotRecord} {groups : List LocatorGroup} (begun : Begun s taskId s')
      (h : GroupsOf env.locator (physicalRows s) groups) :
      Started env taskId now s (.groups s' (snapshotDeleteRows s) groups)

variable {taskId : Nat} {s : SnapshotRecord} {t : DeleteTask}

theorem begun_startPending (ht : taskOf s taskId = some t)
    (hactive : t.task.status.isTerminal = false) :
    ∃ s', startPending t s = .ok s' ∧ Begun s taskId s' := by
  obtain rfl : t.id = taskId := (Table.mem_of_find ht).2
  by_cases hpending : t.task.status = .pending
  · refine ⟨updateTask s t.id fun _ => { t.task with status := .running }, ?_, rfl, rfl,
      _, taskOf_updateTask _ ht, rfl⟩
    simp [startPending, hpending, ht, TaskRow.start, Except.map]
  · exact ⟨s, by simp [startPending, hpending], rfl, rfl, t, ht, hactive⟩

theorem started_enterDelete (env : DeleteEnv) (now : Int) {s' : SnapshotRecord}
    (hbegun : Begun s taskId s') : Started env taskId now s (enterDelete env now taskId s') := by
  have hrows : snapshotDeleteRows s' = snapshotDeleteRows s := by
    rw [snapshotDeleteRows, snapshotDeleteRows, hbegun.directories]
  rw [enterDelete, hrows]
  dsimp only
  split
  · rename_i hempty
    exact .empty hbegun hempty
  · cases env.validate with
    | error message => exact .refused hbegun message
    | ok =>
      dsimp only
      cases hgroups : groupByRepositoryLocator env.locator
          ((snapshotDeleteRows s).filter fun row => row.physicalId ≠ "") [] with
      | error message => exact .refused hbegun message
      | ok groups => exact .groups hbegun (groupsOf_groupBy GroupsOf.nil hgroups)

theorem started_startDelete (env : DeleteEnv) (now : Int) (ht : taskOf s taskId = some t) :
    Started env taskId now s (startDelete env now t s) := by
  rw [startDelete]
  cases hterminal : t.task.status.isTerminal with
  | true =>
    refine .terminal ?_
    rintro ⟨t', ht', hactive⟩
    obtain rfl := Option.some.inj (ht.symm.trans ht')
    rw [hterminal] at hactive
    cases hactive
  | false =>
    obtain ⟨s', hstarted, hbegun⟩ := begun_startPending ht hterminal
    obtain rfl : t.id = taskId := (Table.mem_of_find ht).2
    rw [hstarted]
    exact started_enterDelete env now hbegun

/-! ## Calls -/

/-- How a call comes to its end. -/
inductive Called (env : DeleteEnv) (taskId : Nat) (now : Int) (s : SnapshotRecord) :
    DeleteRun → Prop
  | idle {status : RunStatus} (h : status = .locked ∨ ¬TaskActive s taskId) :
      Called env taskId now s ⟨s, status, []⟩
  | leased : Called env taskId now s ⟨deferSnapshotDelete taskId s, .waiting, []⟩
  | refused {s' : SnapshotRecord} (begun : Begun s taskId s') (message : String) :
      Called env taskId now s ⟨(interruptDelete taskId (.validation message) s').1,
        (interruptDelete taskId (.validation message) s').2, []⟩
  | empty {s' : SnapshotRecord} (begun : Begun s taskId s')
      (h : kopiaSnapshotIds (snapshotDeleteRows s) = []) :
      Called env taskId now s ⟨completeEmptyDelete taskId now s', .returned, []⟩
  | interrupted {s' : SnapshotRecord} {groups : List LocatorGroup} (begun : Begun s taskId s')
      (h : GroupsOf env.locator (physicalRows s) groups) (error : ExecutorError) :
      Called env taskId now s
        ⟨(interruptDelete taskId error (runGroups env groups s' {}).1).1,
          (interruptDelete taskId error (runGroups env groups s' {}).1).2,
          (runGroups env groups s' {}).2.2.2⟩
  | finished {s' : SnapshotRecord} {groups : List LocatorGroup} (begun : Begun s taskId s')
      (h : GroupsOf env.locator (physicalRows s) groups) :
      Called env taskId now s
        ⟨finishDelete taskId now (snapshotDeleteRows s) (runGroups env groups s' {}).1
          (runGroups env groups s' {}).2.1, .returned, (runGroups env groups s' {}).2.2.2⟩

section Call

variable {env : DeleteEnv} {now : Int} {taskId : Nat} {s : SnapshotRecord} {run : DeleteRun}

theorem called_runSnapshotDeleteTask (locked : Bool) (env : DeleteEnv) (now : Int)
    (taskId : Nat) (s : SnapshotRecord) :
    Called env taskId now s (runSnapshotDeleteTask locked env now taskId s) := by
  rw [runSnapshotDeleteTask]
  split
  · exact .idle (.inl rfl)
  · cases ht : taskOf s taskId with
    | none =>
      refine .idle (.inr ?_)
      rintro ⟨t, ht', _⟩
      rw [ht] at ht'
      cases ht'
    | some t =>
      dsimp only
      split
      · exact .leased
      · have hstarted := started_startDelete env now ht
        generalize startDelete env now t s = started at hstarted
        cases hstarted with
        | terminal h => exact .idle (.inr h)
        | refused begun message => exact .refused begun message
        | empty begun h => exact .empty begun h
        | @groups s' groups begun h =>
          dsimp only
          cases herror : (runGroups env groups s' {}).2.2.1 with
          | none => exact .finished begun h
          | some error => exact .interrupted begun h error

theorem Called.verdict (h : Called env taskId now s run) : Verdict s taskId run := by
  cases h with
  | idle h => exact .idle h
  | leased => exact .waiting rfl
  | refused begun message => exact verdict_interruptDelete begun.row begun.active _
  | empty begun h => exact verdict_completeEmptyDelete begun.active now
  | @interrupted s' groups begun h error =>
    obtain ⟨hrow, htasks⟩ := runGroups_rest env groups s' {}
    exact verdict_interruptDelete (hrow.trans begun.row) (begun.active.of_eq htasks) error
  | @finished s' groups begun h =>
    obtain ⟨_, htasks⟩ := runGroups_rest env groups s' {}
    exact verdict_finishDelete (begun.active.of_eq htasks) now _ _

/-- A directory has no physical identifier, or an answer reports it. -/
def Accounted (answers : List Answer) (id : Nat) (kopia : Option String) : Prop :=
  Unphysical kopia ∨ ∃ a ∈ answers, a.Confirms id kopia

/-- A row that is left without a physical identifier is known by its id. -/
theorem marks_finishDelete {P : Nat → Option String → Prop} {s' : SnapshotRecord}
    (hkeyed : Table.Keyed SnapshotDirectory.id s.directories) (h : Marks P s s')
    (p : DeleteProgress) :
    Marks (fun id kopia => Unphysical kopia ∨ P id kopia) s
      (finishDelete taskId now (snapshotDeleteRows s) s' p) := by
  have hmarked : Marks (fun id kopia => Unphysical kopia ∨ P id kopia) s
      (if p.hardFailed then s' else markDeleted s' fun row =>
        row.id ∈ ((snapshotDeleteRows s).filter fun row => row.physicalId = "").map
          SnapshotDirectory.id) := by
    have h' := h.mono fun id kopia hP => (Or.inr hP : Unphysical kopia ∨ P id kopia)
    split
    · exact h'
    · refine h'.trans (marks_markDeleted s' _ fun row hrow hid => .inr (.inl ?_))
      obtain ⟨d, hd, hdid, hkopia, _⟩ := h.rows row hrow
      obtain ⟨r, hr, hrid⟩ := List.mem_map.mp (of_decide_eq_true hid)
      obtain ⟨hr, hphysical⟩ := List.mem_filter.mp hr
      obtain rfl := hkeyed r (List.mem_filter.mp hr).1 d hd (hrid.trans hdid)
      have hphysical : r.physicalId = "" := of_decide_eq_true hphysical
      rw [hkopia]
      exact hphysical
  rw [finishDelete]
  generalize (if p.hardFailed then s' else markDeleted s' fun row =>
    row.id ∈ ((snapshotDeleteRows s).filter fun row => row.physicalId = "").map
      SnapshotDirectory.id) = s'' at hmarked
  split
  · exact hmarked.trans (.of_eq (directories_failSnapshotDeleteTask ..))
  · exact hmarked.trans (.of_eq (directories_completeDelete ..))

/-- What a call marks has no physical identifier, or an answer of the call reports it. -/
theorem Called.marks (hkeyed : Table.Keyed SnapshotDirectory.id s.directories)
    (h : Called env taskId now s run) : Marks (Accounted run.answers) s run.record := by
  cases h with
  | idle h => exact .refl s
  | leased => exact .of_eq rfl
  | refused begun message =>
    exact .of_eq ((directories_interruptDelete ..).trans begun.directories)
  | @empty s' begun h =>
    have hmarked : Marks (Accounted []) s' (markDeleted s' fun _ => true) := by
      refine marks_markDeleted s' _ fun row hrow _ => ?_
      rw [begun.directories] at hrow
      by_cases hdeleted : row.status = .deleted
      · exact .inl hdeleted
      · have hmem : row ∈ snapshotDeleteRows s :=
          List.mem_filter.mpr ⟨hrow, decide_eq_true hdeleted⟩
        have hphysical : row.physicalId = "" := by
          by_contra hne
          have := mem_kopiaSnapshotIds hmem hne
          rw [h] at this
          cases this
        exact .inr (.inl hphysical)
    exact (Marks.of_eq begun.directories).trans (hmarked.trans (.of_eq rfl))
  | @interrupted s' groups begun h error =>
    have hloop :=
      (Marks.of_eq begun.directories).trans (marks_runGroups env groups s' {})
    exact (hloop.trans (.of_eq (directories_interruptDelete ..))).mono fun _ _ => .inr
  | @finished s' groups begun h =>
    have hloop :=
      (Marks.of_eq begun.directories).trans (marks_runGroups env groups s' {})
    exact marks_finishDelete hkeyed hloop _

theorem Called.answers (h : Called env taskId now s run) {a : Answer} (ha : a ∈ run.answers) :
    ∃ groups, GroupsOf env.locator (physicalRows s) groups ∧ a.group ∈ groups ∧
      env.executor a.group.rows (kopiaSnapshotIds a.group.rows) = .ok a.outcome := by
  cases h with
  | idle h => cases ha
  | leased => cases ha
  | refused begun message => cases ha
  | empty begun h => cases ha
  | interrupted begun h error => exact ⟨_, h, answers_runGroups ha⟩
  | finished begun h => exact ⟨_, h, answers_runGroups ha⟩

end Call

/-! ## Any number of calls -/

structure DeleteCall where
  env : DeleteEnv
  before : SnapshotRecord
  answers : List Answer

/-- A snapshot with the calls made so far. -/
structure DeleteHistory where
  record : SnapshotRecord
  calls : List DeleteCall := []

inductive DeleteEvent where
  | request (accepted : Bool)
  | call (locked : Bool) (env : DeleteEnv) (now : Int) (taskId : Nat)
  | acquire (refusal : Option SnapshotError) (lease : SnapshotUsageLease)
  | release (lease : SnapshotUsageLease)

def deleteStep (st : DeleteHistory) : DeleteEvent → Option DeleteHistory
  | .request accepted =>
    match createAndQueueSnapshotDeleteTask accepted st.record with
    | .ok record => some { st with record := record }
    | .error _ => none
  | .call locked env now taskId =>
    let run := runSnapshotDeleteTask locked env now taskId st.record
    some ⟨run.record, ⟨env, st.record, run.answers⟩ :: st.calls⟩
  | .acquire refusal lease =>
    match acquireSnapshotUsage refusal st.record lease with
    | .ok record => some { st with record := record }
    | .error _ => none
  | .release lease => some { st with record := releaseSnapshotUsage st.record lease }

/-- Snapshots whose directories are all still there, and what becomes of them. -/
def deleteHistories : System DeleteHistory DeleteEvent where
  init := fun st => Table.Keyed SnapshotDirectory.id st.record.directories ∧
    (∀ d ∈ st.record.directories, d.status ≠ .deleted) ∧ st.calls = []
  step := deleteStep

/-- A call asked the executor of the group of a directory, and the answer reports the
physical identifier of the directory deleted or absent. -/
def DeleteCall.Reports (c : DeleteCall) (d : SnapshotDirectory) : Prop :=
  ∃ groups, GroupsOf c.env.locator (physicalRows c.before) groups ∧
    ∃ a ∈ c.answers, a.group ∈ groups ∧
      c.env.executor a.group.rows (kopiaSnapshotIds a.group.rows) = .ok a.outcome ∧
      (∃ row ∈ a.group.rows, row.id = d.id ∧ row.kopiaSnapshotId = d.kopiaSnapshotId) ∧
      d.physicalId ∈ a.outcome.reported

/-- A directory that is `DELETED` has no physical identifier, or a call has reported it. -/
def DeleteHistory.Gone (st : DeleteHistory) (d : SnapshotDirectory) : Prop :=
  d.physicalId = "" ∨ ∃ c ∈ st.calls, c.Reports d

structure DeleteHistory.Inv (st : DeleteHistory) : Prop where
  keyed : Table.Keyed SnapshotDirectory.id st.record.directories
  gone : ∀ d ∈ st.record.directories, d.status = .deleted → st.Gone d

section Histories

variable {st st' : DeleteHistory}

theorem physicalId_of_reported {d : SnapshotDirectory} {k : String} {o : DeleteOutcome}
    (hk : k ∈ d.kopiaSnapshotId) (h : k ∈ o.reported) : d.physicalId = k := by
  have hd : d.kopiaSnapshotId = some k := hk
  rw [SnapshotDirectory.physicalId, hd, Option.getD_some]
  exact normalize_of_mem_reconciledIds h

/-- A directory that an answer of a call confirms is reported by the call. -/
theorem reports_of_confirms {env : DeleteEnv} {now : Int} {taskId : Nat} {s : SnapshotRecord}
    {run : DeleteRun} (h : Called env taskId now s run)
    (hkeyed : Table.Keyed SnapshotDirectory.id s.directories) {d d' : SnapshotDirectory}
    (hd : d ∈ s.directories) (hid : d'.id = d.id) (hkopia : d'.kopiaSnapshotId = d.kopiaSnapshotId)
    {a : Answer} (ha : a ∈ run.answers) (hconfirms : a.Confirms d.id d.kopiaSnapshotId) :
    DeleteCall.Reports ⟨env, s, run.answers⟩ d' := by
  obtain ⟨groups, hgroups, hgroup, hanswer⟩ := h.answers ha
  obtain ⟨hgroupIds, k, hk, hreported⟩ := hconfirms
  obtain ⟨row, hrow, hrowid⟩ := List.mem_map.mp hgroupIds
  have hmem : row ∈ s.directories :=
    (List.mem_filter.mp (List.mem_filter.mp (hgroups.mem _ hgroup row hrow).1).1).1
  obtain rfl := hkeyed row hmem d hd hrowid
  refine ⟨groups, hgroups, a, ha, hgroup, hanswer, ⟨row, hrow, hid.symm, hkopia.symm⟩, ?_⟩
  rw [physicalId_of_reported (hkopia ▸ hk) hreported]
  exact hreported

theorem DeleteHistory.Inv.of_directories (h : st.Inv)
    (hrecord : st'.record.directories = st.record.directories) (hcalls : st'.calls = st.calls) :
    st'.Inv where
  keyed := hrecord ▸ h.keyed
  gone := by
    rw [hrecord]
    intro d hd hdeleted
    rw [Gone, hcalls]
    exact h.gone d hd hdeleted

theorem DeleteHistory.Inv.call (h : st.Inv) {env : DeleteEnv} {now : Int} {taskId : Nat}
    {run : DeleteRun} (hrun : Called env taskId now st.record run) :
    DeleteHistory.Inv ⟨run.record, ⟨env, st.record, run.answers⟩ :: st.calls⟩ := by
  have hmarks := hrun.marks h.keyed
  refine ⟨hmarks.keyed h.keyed, fun d' hd' hdeleted => ?_⟩
  obtain ⟨d, hd, hid, hkopia, hcause⟩ := hmarks.rows d' hd'
  have hphysical : d'.physicalId = d.physicalId := by
    rw [SnapshotDirectory.physicalId, SnapshotDirectory.physicalId, hkopia]
  rcases hcause hdeleted with hbefore | hunphysical | ⟨a, ha, hconfirms⟩
  · rcases h.gone d hd hbefore with hnone | ⟨c, hc, groups, hgroups, b, hb, hin, hex, hrow, hrep⟩
    · exact .inl (hphysical.trans hnone)
    · refine .inr ⟨c, List.mem_cons_of_mem _ hc, groups, hgroups, b, hb, hin, hex, ?_, ?_⟩
      · rwa [hid, hkopia]
      · rwa [hphysical]
  · exact .inl (hphysical.trans hunphysical)
  · exact .inr ⟨_, List.mem_cons_self, reports_of_confirms hrun h.keyed hd hid hkopia ha hconfirms⟩

theorem DeleteHistory.Inv.step (h : st.Inv) {e : DeleteEvent}
    (hs : deleteStep st e = some st') : st'.Inv := by
  cases e with
  | request accepted =>
    rw [deleteStep] at hs
    cases hrequest : createAndQueueSnapshotDeleteTask accepted st.record with
    | error error => simp [hrequest] at hs
    | ok record =>
      rw [hrequest] at hs
      cases hs
      exact h.of_directories (createAndQueueSnapshotDeleteTask_ok hrequest).directories rfl
  | call locked env now taskId =>
    cases hs
    exact h.call (called_runSnapshotDeleteTask locked env now taskId st.record)
  | acquire refusal lease =>
    rw [deleteStep] at hs
    cases hacquire : acquireSnapshotUsage refusal st.record lease with
    | error error => simp [hacquire] at hs
    | ok record =>
      rw [hacquire] at hs
      cases hs
      exact h.of_directories (acquireSnapshotUsage_ok hacquire).2.2.1 rfl
  | release lease =>
    cases hs
    exact h.of_directories rfl rfl

theorem inv_of_reachable (h : deleteHistories.Reachable st) : st.Inv := by
  refine System.ReachableUnder.invariant (I := DeleteHistory.Inv) ?_ ?_ h
  · intro st ⟨hkeyed, hnone, _⟩
    exact ⟨hkeyed, fun d hd hdeleted => absurd hdeleted (hnone d hd)⟩
  · intro st e st' hI _ hs
    exact hI.step hs

end Histories

end HyperFileLens.Protection
