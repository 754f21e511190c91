import HyperFileLens.Storage.OrphanUnowned

/-!
# Deletions in flight

Every deletion that an advance dispatches is of a snapshot that the product does not own,
and one deletion at most is in flight for a candidate, in every run under
`DecidedInTime`.

*Controller.*  A runner is started under an attempt that is live, and the candidate of a
live attempt is in `deleting` (`EvidenceInv`).

*Agent.*  `FlightInv` says the same of the operations of an Agent. An advance that has
marked a candidate knows `Marked` until it dispatches: the candidate is still in
`deleting`, or another advance of the task has dispatched its deletion.
-/

namespace HyperFileLens.Storage

open Tasks Service Transition

variable {db db' : OrphanTables}

/-! ## Operations of an Agent -/

/-- What the `correlation_id` of an operation is made of. -/
def OrphanChild.key (child : OrphanChild) : Nat × OrphanOperation × Nat :=
  (child.parentTask, child.operation, child.retryCount)

/-- A task has dispatched the deletion of a snapshot, as `p` says. -/
def Dispatched (p : OrphanChild → Prop) (db : OrphanTables) (t : Nat) (snapshotId : String) :
    Prop :=
  ∃ row, db.task t = some row ∧
    ∃ child ∈ db.children, child.key = (t, .orphanDelete snapshotId, row.task.retryCount) ∧
      p child

/-- The deletion of a snapshot has been dispatched. -/
abbrev Sent := Dispatched fun _ => True

/-- The deletion of a snapshot has come to a confirmed end. -/
abbrev Answered := Dispatched fun child => child.unresolved = false

/-- The active task has a candidate in `deleting`. -/
def Busy (db : OrphanTables) (t : Nat) (snapshotId : String) : Prop :=
  db.activeTask = some t ∧ ∃ c ∈ db.candidates, c.snapshotId = snapshotId ∧ c.status = .deleting

/-- What an advance that has marked a candidate knows. -/
def Marked (db : OrphanTables) (t : Nat) (snapshotId : String) : Prop :=
  Sent db t snapshotId ∨ Busy db t snapshotId

/-- The keys of tasks are older than the next one. -/
def FreshTasks (db : OrphanTables) : Prop := ∀ row ∈ db.tasks, row.id < db.tasks.length

/-- Operations of an Agent and the candidates they delete. -/
structure FlightInv (db : OrphanTables) : Prop where
  fresh : FreshTasks db
  keys : (db.children.map OrphanChild.key).Nodup
  flying : ∀ child ∈ db.children, child.unresolved = true →
    ∀ snapshotId, child.operation = .orphanDelete snapshotId →
      Busy db child.parentTask snapshotId ∧
        ∃ row, db.task child.parentTask = some row ∧ row.task.retryCount = child.retryCount

variable {t : Nat} {snapshotId : String} {c : Completion} {controller : Bool} {r : OrphanCall}

variable {row : ReconcileTask} {x : Nat × String}

theorem OrphanTables.Fresh.flightInv (h : db.Fresh) : FlightInv db where
  fresh := fun row hrow => by simp [h.tasks] at hrow
  keys := by simp [h.children]
  flying := fun child hchild => by simp [h.children] at hchild

/-! ## What stays -/

/-- Tasks keep their retry count, and operations stay, with their confirmed ends. -/
structure Onward (db db' : OrphanTables) : Prop where
  fresh : FreshTasks db → FreshTasks db'
  tasks : ∀ t row, db.task t = some row →
    ∃ row', db'.task t = some row' ∧ row'.task.retryCount = row.task.retryCount
  children : ∀ child ∈ db.children, ∃ child' ∈ db'.children, child'.key = child.key ∧
    (child.unresolved = false → child'.unresolved = false)

theorem Onward.refl (db : OrphanTables) : Onward db db where
  fresh := fun h => h
  tasks := fun _ row h => ⟨row, h, rfl⟩
  children := fun child h => ⟨child, h, rfl, fun hended => hended⟩

theorem Onward.trans {db'' : OrphanTables} (h : Onward db db') (h' : Onward db' db'') :
    Onward db db'' where
  fresh := fun hfresh => h'.fresh (h.fresh hfresh)
  tasks := by
    intro t row hrow
    obtain ⟨row', hrow', hretry⟩ := h.tasks t row hrow
    obtain ⟨row'', hrow'', hretry'⟩ := h'.tasks t row' hrow'
    exact ⟨row'', hrow'', hretry'.trans hretry⟩
  children := by
    intro child hchild
    obtain ⟨child', hchild', hkey, hended⟩ := h.children child hchild
    obtain ⟨child'', hchild'', hkey', hended'⟩ := h'.children child' hchild'
    exact ⟨child'', hchild'', hkey'.trans hkey, fun hc => hended' (hended hc)⟩

theorem Onward.of_tables (htasks : db'.tasks = db.tasks) (hchildren : db'.children = db.children) :
    Onward db db' where
  fresh := fun h row hrow => by
    rw [htasks] at hrow ⊢
    exact h row hrow
  tasks := fun t row h => ⟨row, by rwa [OrphanTables.task, htasks], rfl⟩
  children := fun child h => ⟨child, hchildren ▸ h, rfl, fun hended => hended⟩

theorem Onward.updateTask {f : ReconcileTask → ReconcileTask} (hid : ∀ row, (f row).id = row.id)
    (hretry : ∀ row, db.task t = some row → (f row).task.retryCount = row.task.retryCount) :
    Onward db (db.updateTask t f) where
  fresh := by
    intro h row' hrow'
    obtain ⟨row, hrow, rfl⟩ := List.mem_map.mp hrow'
    rw [Table.key_update_row hid]
    simpa [OrphanTables.updateTask, Table.update] using h row hrow
  tasks := by
    intro t' row hrow
    refine ⟨_, (OrphanTables.task_updateTask hid).trans (congrArg _ hrow), ?_⟩
    dsimp only
    split
    · rename_i ht
      exact hretry row (ht ▸ (OrphanTables.mem_of_task hrow).2 ▸ hrow)
    · rfl
  children := fun child h => ⟨child, h, rfl, fun hended => hended⟩

theorem Onward.newTask (hfresh : FreshTasks db) (hid : row.id = db.tasks.length)
    (active : Option Nat) : Onward db { db with tasks := row :: db.tasks, activeTask := active } where
  fresh := by
    intro _ r hr
    rcases List.mem_cons.mp hr with rfl | hr
    · exact hid ▸ Nat.lt_succ_self _
    · exact Nat.lt_succ_of_lt (hfresh r hr)
  tasks := by
    intro t r hr
    obtain ⟨hmem, rfl⟩ := OrphanTables.mem_of_task hr
    have hne : row.id ≠ r.id := hid ▸ (hfresh r hmem).ne'
    exact ⟨r, by simpa [OrphanTables.task, Table.find, hne] using hr, rfl⟩
  children := fun child h => ⟨child, h, rfl, fun hended => hended⟩

theorem Dispatched.onward (hon : Onward db db') : (Sent db t snapshotId → Sent db' t snapshotId) ∧
      (Answered db t snapshotId → Answered db' t snapshotId) := by
  constructor
  · rintro ⟨row, hrow, child, hchild, hkey, -⟩
    obtain ⟨row', hrow', hretry⟩ := hon.tasks t row hrow
    obtain ⟨child', hchild', hkey', -⟩ := hon.children child hchild
    exact ⟨row', hrow', child', hchild', by rw [hkey', hkey, hretry], trivial⟩
  · rintro ⟨row, hrow, child, hchild, hkey, hended⟩
    obtain ⟨row', hrow', hretry⟩ := hon.tasks t row hrow
    obtain ⟨child', hchild', hkey', hended'⟩ := hon.children child hchild
    exact ⟨row', hrow', child', hchild', by rw [hkey', hkey, hretry], hended' hended⟩

/-- `_record` after a change of other tables. -/
theorem Onward.record (db db' : OrphanTables) (htasks : db'.tasks = db.tasks)
    (hchildren : db'.children = db.children) (t : Nat) (snapshotId : String) (outcome : ResultOutcome) :
    Onward db (db'.record t snapshotId outcome) :=
  (Onward.of_tables htasks hchildren).trans (.updateTask (fun _ => ReconcileTask.record_id ..)
    fun row _ => by rw [ReconcileTask.record_task])

theorem Onward.wait (controller : Bool) (t : Nat) (reason : String) :
    Onward db (db.wait controller t reason) := by
  cases controller with
  | true =>
    refine .updateTask (fun _ => OrphanTables.confirmingTask_id ..) fun row _ => ?_
    rw [if_pos rfl, OrphanTables.confirmingTask]
    split <;> rfl
  | false => exact .updateTask (fun _ => rfl) fun _ _ => rfl

theorem Onward.finalize (row : ReconcileTask) (c : Completion) :
    Onward db (db.finalize row c) := by
  have hcompleted : Onward db (db.updateTask row.id fun row =>
      OrphanTables.completedTask row c) := by
    refine .updateTask (fun _ => OrphanTables.completedTask_id ..) fun row _ => ?_
    rw [OrphanTables.completedTask, TaskRow.complete]
    dsimp only
    split <;> rfl
  exact hcompleted.trans (.of_tables rfl rfl)

theorem Onward.complete (hfresh : FreshTasks db) (hc : db.complete row c = .ok db') :
    Onward db db' := by
  rw [OrphanTables.complete] at hc
  split at hc
  · rw [OrphanTables.replace] at hc
    split at hc
    · cases hc
    · cases hc
      have hfinalize : Onward db (db.finalize row c) := .finalize row c
      exact hfinalize.trans (.newTask (hfinalize.fresh hfresh) rfl _)
  · exact Except.ok.inj hc ▸ .finalize row c

theorem Onward.finish (hfresh : FreshTasks db) (hc : db.finish controller t c = .ok db') :
    Onward db db' := by
  rw [OrphanTables.finish] at hc
  cases hfind : db.task t with
  | none => simp [hfind] at hc
  | some row =>
    simp only [hfind] at hc
    split at hc
    · exact Except.ok.inj hc ▸ .refl db
    · split at hc
      · exact Except.ok.inj hc ▸ .wait ..
      · split at hc
        · cases hc
          refine .trans (.updateTask (t := t) (f := fun row => row.closeSteps (c.amend row))
            (fun _ => ReconcileTask.closeSteps_id ..) fun row _ => ?_) (.wait ..)
          rw [ReconcileTask.closeSteps_task]
        · exact .complete hfresh hc

theorem Onward.effect (hfresh : FreshTasks db) (heffect : db.Effect controller r db') :
    Onward db db' := by
  cases heffect with
  | none => exact .refl _
  | @startTask t row task hrow hstart =>
    obtain ⟨-, rfl⟩ := TaskRow.start_ok hstart
    refine .updateTask (fun _ => rfl) fun row' hrow' => ?_
    rw [Option.some.inj (hrow.symm.trans hrow')]
  | step =>
    exact .updateTask (fun _ => ReconcileTask.step_id ..) fun row _ => by
      rw [ReconcileTask.step_task]
  | remote =>
    exact ⟨fun h => h, fun t row h => ⟨row, h, rfl⟩,
      fun child h => ⟨child, List.mem_cons_of_mem _ h, rfl, fun hended => hended⟩⟩
  | saveAbsent => exact .record db (db.saveStatus _ _) rfl rfl ..
  | register => exact .record db (db.saveOutcome _ _ _) rfl rfl ..
  | saveManaged => exact .record db (db.saveStatus _ _) rfl rfl ..
  | @rediscover t item at' =>
    refine .record db (db.rediscover item at') ?_ ?_ ..
    · rw [OrphanTables.rediscover]
      split <;> rfl
    · rw [OrphanTables.rediscover]
      split <;> rfl
  | record => exact .record db db rfl rfl ..
  | deferred => exact .record db db rfl rfl ..
  | marked => exact .of_tables rfl rfl
  | @intent t snapshotId =>
    have hsaved : Onward db (db.saveStatus snapshotId .deleting) := .of_tables rfl rfl
    exact (hsaved.trans (.updateTask (t := t)
      (f := fun row => { row with executionToken := some db.attempts.length })
      (fun _ => rfl) fun _ _ => rfl)).trans (.of_tables rfl rfl)
  | spawn => exact .of_tables rfl rfl
  | closeLease => exact .of_tables rfl rfl
  | finishAttempt => exact .of_tables rfl rfl
  | recover => exact .record db (OrphanTables.updateAttempt (db.updateCandidate _ _) _ _) rfl rfl ..
  | saveOutcome => exact .record db (db.saveOutcome _ _ _) rfl rfl ..
  | saveFailure => exact .record db (db.saveFailure _) rfl rfl ..
  | wait => exact .wait ..
  | finish hfinish => exact .finish hfresh hfinish

/-! ## Steps of an Agent's target -/

/-- What an advance of an Agent's target knows when it makes a call. -/
def AgentGuard (db : OrphanTables) : OrphanCall → Prop
  | .remote t (.orphanDelete snapshotId) => Marked db t snapshotId
  | .saveOutcome t snapshotId outcome _ _ => outcome ≠ .deleting ∧ Answered db t snapshotId
  | .saveFailure t snapshotId => Answered db t snapshotId
  | .record _ _ outcome => outcome ≠ .discovered
  | .register _ _ _ _ _ _ | .intent _ _ _ | .spawn _ | .recover _ _ _ _ _ => False
  | _ => True

theorem AgentGuard.outcomeSettles (h : AgentGuard db r) : OutcomeSettles r := by
  cases r with
  | register => exact h.elim
  | saveOutcome => exact h.1
  | record => exact h
  | _ => trivial

section

variable (h : Busy db t snapshotId)

include h

variable {snapshotId' : String}

theorem Busy.of_tables (hactive : db'.activeTask = db.activeTask)
    (hcandidates : db'.candidates = db.candidates) : Busy db' t snapshotId :=
  ⟨hactive.trans h.1, hcandidates ▸ h.2⟩

theorem Busy.updateCandidate {f : OrphanSnapshot → OrphanSnapshot} (hne : snapshotId ≠ snapshotId') :
    Busy (db.updateCandidate snapshotId' f) t snapshotId := by
  obtain ⟨hactive, c, hc, rfl, hstatus⟩ := h
  exact ⟨hactive, c, Table.mem_update.mpr (.inr ⟨hc, hne⟩), rfl, hstatus⟩

theorem Busy.ne_of_settled (hsettled : Settled db snapshotId') : snapshotId ≠ snapshotId' := by
  rintro rfl
  obtain ⟨-, c, hc, hkey, hstatus⟩ := h
  exact hsettled c hc hkey hstatus

theorem Busy.anyDeleting : db.anyDeleting = true := by
  obtain ⟨-, c, hc, -, hstatus⟩ := h
  exact OrphanTables.anyDeleting_of_mem hc hstatus

theorem Busy.finish {t' : Nat} (hr : DecidedInTime false db (.finish t' c))
    (hc : db.finish false t' c = .ok db') : Busy db' t snapshotId := by
  rw [OrphanTables.finish] at hc
  cases hfind : db.task t' with
  | none => simp [hfind] at hc
  | some row =>
    obtain ⟨-, rfl⟩ := OrphanTables.mem_of_task hfind
    simp only [hfind, Bool.false_and, Bool.false_eq_true, if_false] at hc
    split at hc
    · exact Except.ok.inj hc ▸ h
    · split at hc
      · exact Except.ok.inj hc ▸ h.of_tables rfl rfl
      · rename_i hends
        have hne : ¬db.activeTask = some row.id := by
          intro hactive
          rcases hr with hcontroller | hfree | hother | ⟨row', hrow', hretry, hchild⟩
          · cases hcontroller
          · simp [h.anyDeleting] at hfree
          · exact hother hactive
          · obtain rfl : row = row' := Option.some.inj (hfind.symm.trans hrow')
            simp [hretry, hchild] at hends
        have hretry : db.retryScan row (c.amend row) = false := by
          simp [OrphanTables.retryScan, hne]
        rw [OrphanTables.complete, hretry] at hc
        cases hc
        exact h.of_tables (if_neg hne) rfl

theorem Busy.effect (hr : DecidedInTime false db r) (hguard : AgentGuard db r)
    (heffect : db.Effect false r db') : Busy db' t snapshotId ∨ Answered db t snapshotId := by
  cases heffect with
  | @saveAbsent t' snapshotId' => exact .inl ((h.updateCandidate (h.ne_of_settled hr)).of_tables rfl rfl)
  | register => exact hguard.elim
  | @saveManaged t' snapshotId' => exact .inl ((h.updateCandidate (h.ne_of_settled hr)).of_tables rfl rfl)
  | @rediscover t' item at' =>
    left
    change Busy (db.rediscover item at') t snapshotId
    have hne := h.ne_of_settled hr
    rw [OrphanTables.rediscover]
    split
    · obtain ⟨hactive, c, hc, hkey, hstatus⟩ := h
      exact ⟨hactive, c, List.mem_cons_of_mem _ hc, hkey, hstatus⟩
    · exact h.updateCandidate hne
  | @marked t' copy c hagent hc hbackup hmanaged =>
    left
    obtain ⟨hactive, c', hc', rfl, hstatus⟩ := h
    by_cases hkey : c'.snapshotId = copy.snapshotId
    · exact ⟨hactive, _, Table.mem_update.mpr (.inl ⟨c', hc', hkey, rfl⟩), rfl, rfl⟩
    · exact ⟨hactive, c', Table.mem_update.mpr (.inr ⟨hc', hkey⟩), rfl, hstatus⟩
  | intent => exact hguard.elim
  | spawn => exact hguard.elim
  | recover => exact hguard.elim
  | @saveOutcome t' snapshotId' =>
    by_cases heq : snapshotId = snapshotId'
    · obtain rfl := Option.some.inj (h.1.symm.trans hr)
      exact .inr (heq ▸ hguard.2)
    · exact .inl ((h.updateCandidate heq).of_tables rfl rfl)
  | @saveFailure t' snapshotId' =>
    by_cases heq : snapshotId = snapshotId'
    · obtain rfl := Option.some.inj (h.1.symm.trans hr)
      exact .inr (heq ▸ hguard)
    · exact .inl ((h.updateCandidate heq).of_tables rfl rfl)
  | finish hfinish => exact .inl (h.finish hr hfinish)
  | _ => exact .inl (h.of_tables rfl rfl)

theorem Busy.environment (e : OrphanEnv) : Busy (orphanEnvironment db e) t snapshotId := by
  refine h.of_tables ?_ (orphanEnvironment_candidates db e)
  cases e with
  | admitTask dueAt =>
    rw [orphanEnvironment, OrphanTables.admitTask, if_pos (.inl (by simp [h.1]))]
  | admitBackup uuid record =>
    rw [orphanEnvironment, OrphanTables.admitBackup]
    split <;> rfl
  | _ => rfl

end

/-! ## Operations in flight -/

theorem FlightInv.not_answered (h : FlightInv db) {child : OrphanChild}
    (hchild : child ∈ db.children) (hunresolved : child.unresolved = true)
    (hoperation : child.operation = .orphanDelete snapshotId) :
    ¬Answered db child.parentTask snapshotId := by
  rintro ⟨row, hrow, child', hchild', hkey, hended⟩
  obtain ⟨-, row', hrow', hretry⟩ := h.flying child hchild hunresolved snapshotId hoperation
  obtain rfl := Option.some.inj (hrow.symm.trans hrow')
  have hsame : child'.key = child.key := by rw [hkey, OrphanChild.key, hoperation, hretry]
  obtain rfl := List.inj_on_of_nodup_map h.keys hchild' hchild hsame
  simp [hunresolved] at hended

theorem FlightInv.of_children (h : FlightInv db) (hon : Onward db db')
    (hbusy : ∀ t snapshotId, Busy db t snapshotId →
      Busy db' t snapshotId ∨ Answered db t snapshotId)
    (hkeys : db'.children.map OrphanChild.key = db.children.map OrphanChild.key)
    (hunresolved : ∀ child' ∈ db'.children, child'.unresolved = true →
      ∃ child ∈ db.children, child.key = child'.key ∧ child.unresolved = true) :
    FlightInv db' where
  fresh := hon.fresh h.fresh
  keys := hkeys ▸ h.keys
  flying := by
    intro child' hchild' hunresolved' snapshotId hoperation'
    obtain ⟨child, hchild, hkey, hun⟩ := hunresolved child' hchild' hunresolved'
    simp only [OrphanChild.key, Prod.mk.injEq] at hkey
    obtain ⟨hparent, hoperation, hretry⟩ := hkey
    have hoperation := hoperation.trans hoperation'
    obtain ⟨hbusy', row, hrow, hrowRetry⟩ := h.flying child hchild hun snapshotId hoperation
    obtain ⟨row', hrow', hretry'⟩ := hon.tasks _ row hrow
    rw [← hparent, ← hretry]
    refine ⟨?_, row', hrow', hretry'.trans hrowRetry⟩
    rcases hbusy _ _ hbusy' with hbusy' | hanswered
    · exact hbusy'
    · exact absurd hanswered (h.not_answered hchild hun hoperation)

theorem FlightInv.effect (h : FlightInv db) (hr : DecidedInTime false db r)
    (hguard : AgentGuard db r) (heffect : db.Effect false r db') : FlightInv db' := by
  have hon : Onward db db' := .effect h.fresh heffect
  have hbusy : ∀ t snapshotId, Busy db t snapshotId →
      Busy db' t snapshotId ∨ Answered db t snapshotId :=
    fun t snapshotId hbusy => hbusy.effect hr hguard heffect
  have hsame : db'.children = db.children → FlightInv db' := fun heq =>
    h.of_children hon hbusy (heq ▸ rfl) fun child' hchild' hunresolved =>
      ⟨child', heq ▸ hchild', rfl, hunresolved⟩
  cases heffect with
  | @remote t operation row hrow hnew =>
    refine ⟨h.fresh, List.nodup_cons.mpr ⟨fun hmem => ?_, h.keys⟩, ?_⟩
    · obtain ⟨child, hchild, hkey⟩ := List.mem_map.mp hmem
      simp only [OrphanChild.key, Prod.mk.injEq] at hkey
      exact hnew child hchild hkey.1 hkey.2.1 hkey.2.2
    · intro child hchild hunresolved snapshotId hoperation
      rcases List.mem_cons.mp hchild with rfl | hchild
      · refine ⟨?_, row, hrow, rfl⟩
        obtain rfl : operation = .orphanDelete snapshotId := hoperation
        rcases hguard with ⟨row', hrow', child, hchild, hkey, -⟩ | hbusy
        · -- The operation has been dispatched before, so this call finds it.
          simp only [OrphanChild.key, Prod.mk.injEq] at hkey
          obtain rfl := Option.some.inj (hrow.symm.trans hrow')
          exact absurd hkey.2.2 (hnew child hchild hkey.1 hkey.2.1)
        · exact hbusy.of_tables rfl rfl
      · obtain ⟨hbusy, hrow'⟩ := h.flying child hchild hunresolved snapshotId hoperation
        exact ⟨hbusy.of_tables rfl rfl, hrow'⟩
  | @rediscover t item at' =>
    refine hsame ?_
    change (db.rediscover item at').children = db.children
    rw [OrphanTables.rediscover]
    split <;> rfl
  | finish hfinish => exact hsame (by rw [OrphanTables.finish_tasks hfinish])
  | _ => exact hsame rfl

theorem OrphanChild.report_spec (child : OrphanChild) (status : Node.Status) (accepted : Bool)
    (result : OrphanResult) : (child.report status accepted result).key = child.key ∧
      (child.unresolved = false → (child.report status accepted result).unresolved = false) := by
  rw [report]
  split
  · rename_i hunresolved
    exact ⟨rfl, fun hended => by simp [hunresolved] at hended⟩
  · exact ⟨rfl, fun hended => hended⟩

theorem Onward.environment (hfresh : FreshTasks db) (e : OrphanEnv) :
    Onward db (orphanEnvironment db e) := by
  cases e with
  | admitTask dueAt =>
    rw [orphanEnvironment, OrphanTables.admitTask]
    split
    · exact .refl db
    · exact .newTask hfresh rfl _
  | admitBackup uuid record =>
    rw [orphanEnvironment, OrphanTables.admitBackup]
    split <;> exact .of_tables rfl rfl
  | agent i status accepted result =>
    refine ⟨fun h => h, fun t row h => ⟨row, h, rfl⟩, fun child hchild => ?_⟩
    obtain ⟨j, hj, rfl⟩ := List.mem_iff_getElem.mp hchild
    have hj' : j < (orphanEnvironment db (.agent i status accepted result)).children.length := by
      simpa [orphanEnvironment] using hj
    refine ⟨_, List.getElem_mem hj', ?_⟩
    simp only [orphanEnvironment, List.getElem_modify]
    split
    · exact OrphanChild.report_spec ..
    · exact ⟨rfl, fun hended => hended⟩
  | _ => exact .of_tables rfl rfl

theorem FlightInv.environment (h : FlightInv db) (e : OrphanEnv) :
    FlightInv (orphanEnvironment db e) := by
  have hon : Onward db (orphanEnvironment db e) := .environment h.fresh e
  have hbusy : ∀ t snapshotId, Busy db t snapshotId →
      Busy (orphanEnvironment db e) t snapshotId ∨ Answered db t snapshotId :=
    fun t snapshotId hbusy => .inl (hbusy.environment e)
  have hsame : (orphanEnvironment db e).children = db.children →
      FlightInv (orphanEnvironment db e) := fun heq =>
    h.of_children hon hbusy (heq ▸ rfl) fun child' hchild' hunresolved =>
      ⟨child', heq ▸ hchild', rfl, hunresolved⟩
  cases e with
  | admitTask dueAt =>
    refine hsame ?_
    rw [orphanEnvironment, OrphanTables.admitTask]
    split <;> rfl
  | admitBackup uuid record =>
    refine hsame ?_
    rw [orphanEnvironment, OrphanTables.admitBackup]
    split <;> rfl
  | agent i status accepted result =>
    refine h.of_children hon hbusy ?_ fun child' hchild' hunresolved => ?_
    · refine List.ext_getElem (by simp [orphanEnvironment]) fun j hj hj' => ?_
      simp only [orphanEnvironment, List.getElem_map, List.getElem_modify]
      split
      · exact (OrphanChild.report_spec ..).1
      · rfl
    · rcases Table.mem_modify hchild' with hchild | ⟨child, hchild, rfl⟩
      · exact ⟨child', hchild, rfl, hunresolved⟩
      · obtain ⟨hkey, hended⟩ := child.report_spec status accepted result
        refine ⟨child, hchild, hkey.symm, ?_⟩
        cases hun : child.unresolved with
        | true => rfl
        | false => simp [hended hun] at hunresolved
  | _ => exact hsame rfl

/-! ## Advances of an Agent's target -/

def Known (db db' : OrphanTables) : Prop :=
  ∀ t snapshotId, (Marked db t snapshotId → Marked db' t snapshotId) ∧
    (Answered db t snapshotId → Answered db' t snapshotId)

theorem Dispatched.sent {p : OrphanChild → Prop} (h : Dispatched p db t snapshotId) :
    Sent db t snapshotId := by
  obtain ⟨row, hrow, child, hchild, hkey, -⟩ := h
  exact ⟨row, hrow, child, hchild, hkey, trivial⟩

theorem Known.of_onward (hon : Onward db db') (hbusy : ∀ t snapshotId, Busy db t snapshotId →
    Busy db' t snapshotId ∨ Answered db t snapshotId) : Known db db' := by
  intro t snapshotId
  refine ⟨?_, (Dispatched.onward hon).2⟩
  rintro (hsent | hbusy')
  · exact .inl ((Dispatched.onward hon).1 hsent)
  · rcases hbusy t snapshotId hbusy' with hbusy' | hanswered
    · exact .inr hbusy'
    · exact .inl ((Dispatched.onward hon).1 hanswered.sent)

theorem attempts_effect (h : db.attempts = []) (hguard : AgentGuard db r)
    (heffect : db.Effect false r db') : db'.attempts = [] := by
  have hupdate : ∀ id f, (db.updateAttempt id f).attempts = [] := fun id f => by
    simp [OrphanTables.updateAttempt, Table.update, h]
  cases heffect with
  | @rediscover t item at' =>
    change (db.rediscover item at').attempts = []
    rw [OrphanTables.rediscover]
    split <;> exact h
  | intent => exact hguard.elim
  | recover => exact hguard.elim
  | spawn => exact hupdate ..
  | closeLease => exact hupdate ..
  | finishAttempt => exact hupdate ..
  | finish hfinish => rwa [OrphanTables.finish_tasks hfinish]
  | _ => exact h

theorem attempts_environment (h : db.attempts = []) (e : OrphanEnv) :
    (orphanEnvironment db e).attempts = [] := by
  cases e with
  | admitTask dueAt =>
    rw [orphanEnvironment, OrphanTables.admitTask]
    split <;> exact h
  | admitBackup uuid record =>
    rw [orphanEnvironment, OrphanTables.admitBackup]
    split <;> exact h
  | receipt id receipt => simp [orphanEnvironment, OrphanTables.updateAttempt, Table.update, h]
  | runnerEnds id => simp [orphanEnvironment, OrphanTables.updateAttempt, Table.update, h]
  | workerEnds id => simp [orphanEnvironment, OrphanTables.updateAttempt, Table.update, h]
  | _ => exact h

/-- What the advances of an Agent's target keep. -/
def flightTerms : Terms OrphanTables OrphanCall where
  keeps := fun db => UnownedInv db ∧ FlightInv db ∧ db.attempts = []
  moves := Known
  allows := DecidedInTime false
  guards := AgentGuard
  refl := fun _ _ _ => ⟨fun h => h, fun h => h⟩
  trans := fun h h' t snapshotId =>
    ⟨fun hm => (h' t snapshotId).1 ((h t snapshotId).1 hm),
      fun ha => (h' t snapshotId).2 ((h t snapshotId).2 ha)⟩

theorem flightTerms_kept :
    flightTerms.Kept (orphanServer false) orphanEnvironment FencedInTime where
  call := by
    intro db r ⟨hunowned, hflight, hattempts⟩ hallows hguard choice
    have heffect := OrphanTables.effect_respond false db r choice
    exact ⟨⟨hunowned.effect hallows hguard.outcomeSettles heffect,
      hflight.effect hallows hguard heffect, attempts_effect hattempts hguard heffect⟩,
      .of_onward (.effect hflight.fresh heffect) fun _ _ hbusy =>
        hbusy.effect hallows hguard heffect⟩
  env := by
    intro db e ⟨hunowned, hflight, hattempts⟩ he
    exact ⟨⟨hunowned.environment he, hflight.environment e, attempts_environment hattempts e⟩,
      .of_onward (.environment hflight.fresh e) fun _ _ hbusy => .inl (hbusy.environment e)⟩

/-- What a call tells an advance of an Agent's target for good. -/
def Told (db : OrphanTables) : (r : OrphanCall) → r.Value → Prop
  | .remote t (.orphanDelete snapshotId), some _ => Answered db t snapshotId
  | .mark t copy, .marked => Marked db t copy.snapshotId
  | _, _ => True

theorem OrphanChild.unresolved_of_answer {child : OrphanChild} {a : RemoteAnswer}
    (h : child.answer = .ok (some a)) : child.unresolved = false := by
  rw [answer] at h
  rw [unresolved]
  cases hstatus : child.status with
  | success => rfl
  | failed =>
    simp only [hstatus] at h ⊢
    split at h
    · rename_i hconfirmed
      simp [hconfirmed]
    · split at h <;> cases h
  | _ => simp [hstatus] at h

theorem told_serve {choice : OrphanChoice} {value : r.Value} (hr : DecidedInTime false db r)
    (h : db.serve false choice r = .ok (value, db')) : Told db' r value := by
  cases r
  case remote t operation =>
    cases operation with
    | inventory => trivial
    | orphanDelete snapshotId =>
      cases value with
      | none => trivial
      | some a =>
        simp only [OrphanTables.serve, OrphanTables.remote] at h
        cases hrow : db.task t with
        | none => simp [hrow] at h
        | some row =>
          simp only [hrow] at h
          split at h
          · rename_i child hchild
            cases hanswer : child.answer with
            | error error => simp [hanswer, Except.map] at h
            | ok answer =>
              simp only [hanswer, Except.map, Except.ok.injEq, Prod.mk.injEq] at h
              obtain ⟨rfl, rfl⟩ := h
              have hkey := List.find?_some hchild
              simp only [Bool.and_eq_true, decide_eq_true_eq] at hkey
              refine ⟨row, hrow, child, List.mem_of_find?_eq_some hchild, ?_,
                OrphanChild.unresolved_of_answer hanswer⟩
              rw [OrphanChild.key, hkey.1.1, hkey.1.2, hkey.2]
          · simp at h
  case mark t copy =>
    cases value with
    | concurrent => trivial
    | deferred => trivial
    | marked =>
      simp only [OrphanTables.serve, OrphanTables.mark] at h
      cases hc : db.candidate copy.snapshotId with
      | none => simp [hc] at h
      | some c =>
        simp only [hc, Bool.false_and, Bool.false_eq_true, if_false] at h
        split at h
        · simp at h
        · rename_i hfree
          push Not at hfree
          simp only [Except.ok.injEq, Prod.mk.injEq, true_and] at h
          subst h
          obtain ⟨hcmem, hkey⟩ := OrphanTables.mem_of_candidate hc
          rcases hr with hcontroller | hblocked | howned | ⟨⟨row, hrow, hauthorized⟩, -⟩
          · cases hcontroller
          · exact absurd hfree.1 hblocked
          · exact absurd howned hfree.2
          · refine .inr ⟨(OrphanTables.mem_of_task hrow).2 ▸ hauthorized.2, ?_⟩
            exact ⟨_, Table.mem_update.mpr (.inl ⟨c, hcmem, hkey, rfl⟩), hkey, rfl⟩
  all_goals trivial

section Programs

variable {α β : Type}

/-- An advance of an Agent's target that makes only calls it may make. -/
abbrev AgentSafe (db : OrphanTables) (p : Orphan α) (Q : α → OrphanTables → Prop) : Prop :=
  flightTerms.Safe (orphanServer false) (fun _ _ => True) p Q db

variable {r : OrphanCall}

theorem agent_ask (hguard : ∀ t, Known db t → AgentGuard t r) :
    AgentSafe db (ask r) fun value t => Told t r value := by
  intro t hkeeps hknown
  refine ⟨hguard t hknown, fun hallows choice => ?_⟩
  simp only [orphanServer, OrphanTables.respond]
  cases hraises : choice.raises with
  | some error => trivial
  | none =>
    cases hserve : t.serve false choice r with
    | error error => trivial
    | ok served => exact told_serve hallows hserve

theorem agent_free {f : r.Value → Orphan β} (hguard : ∀ t, AgentGuard t r)
    (hf : ∀ a t, AgentSafe t (f a) fun _ _ => True) :
    AgentSafe db (ask r >>= f) fun _ _ => True :=
  .andThen (agent_ask fun t _ => hguard t) fun a t _ => hf a t

theorem agent_last (hguard : ∀ t, AgentGuard t r) : AgentSafe db (ask r) fun _ _ => True :=
  (agent_ask fun t _ => hguard t).mono (fun _ _ h => h) fun _ _ _ => trivial

theorem agent_then {p : Orphan α} {f : α → Orphan β} (hp : ∀ t, AgentSafe t p fun _ _ => True)
    (hf : ∀ a t, AgentSafe t (f a) fun _ _ => True) : AgentSafe db (p >>= f) fun _ _ => True :=
  .andThen (hp db) fun a t _ => hf a t

theorem agent_deleteByAgent {task : Nat} {snapshotId : String} (h : Marked db task snapshotId)
    (at' : Int) : AgentSafe db (deleteByAgent task at' snapshotId) fun _ _ => True := by
  refine .andThen (agent_ask fun t hknown => (hknown task snapshotId).1 h) fun answer t hto => ?_
  cases answer with
  | none => trivial
  | some answer =>
    have hanswered : ∀ t', Known t t' → Answered t' task snapshotId :=
      fun t' hknown => (hknown task snapshotId).2 hto
    cases answer with
    | deletionFailed => exact .andThen (agent_ask hanswered) fun _ _ _ => trivial
    | result result =>
      dsimp only
      cases result.deleted with
      | none => trivial
      | some deleted =>
        dsimp only
        split
        · refine .andThen (agent_ask fun t' hknown => ⟨?_, hanswered t' hknown⟩)
            fun _ _ _ => trivial
          cases deleted <;> decide
        · trivial

theorem agent_markAndDelete (task revision : Nat) (at' : Int) (c : OrphanSnapshot) :
    ∀ t, AgentSafe t (markAndDelete false task revision at' c) fun _ _ => True := by
  intro t
  refine .andThen (agent_ask fun _ _ => trivial) fun found t hto => ?_
  cases found with
  | concurrent => trivial
  | deferred => trivial
  | marked => exact agent_deleteByAgent hto at'

theorem agent_reconcileCandidate (task revision : Nat) (at' : Int) (c : OrphanSnapshot) :
    ∀ t, AgentSafe t (reconcileCandidate false task revision at' c) fun _ _ => True := by
  intro t
  rw [reconcileCandidate]
  split
  · exact agent_free (fun _ => by simp [AgentGuard]) fun _ _ => trivial
  · refine agent_free (fun _ => trivial) fun enabled t => ?_
    split
    · refine agent_free (fun _ => trivial) fun discovered t => ?_
      split
      · trivial
      · split
        · trivial
        · exact agent_markAndDelete task revision at' c t
    · exact agent_free (fun _ => by simp [AgentGuard]) fun _ _ => trivial

theorem agent_reconcileItem (task revision : Nat) (o : Observation) (item : InventoryItem) :
    ∀ t, AgentSafe t (reconcileItem false task revision o item) fun _ _ => True := by
  intro t
  rw [reconcileItem]
  split
  · split
    · trivial
    · split
      · trivial
      · exact agent_free (fun _ => trivial) fun _ _ => trivial
  · split
    · exact agent_free (fun _ => trivial) fun _ _ => trivial
    · exact agent_reconcileCandidate ..

theorem agent_reconcileAbsent (task : Nat) (at' : Int) (c : OrphanSnapshot) :
    ∀ t, AgentSafe t (reconcileAbsent false task at' c) fun _ _ => True := by
  intro t
  rw [reconcileAbsent]
  split
  · trivial
  · exact agent_free (r := .saveAbsent task c.snapshotId) (fun _ => trivial) fun _ _ => trivial

theorem agent_firstM {ι : Type} {f : ι → Orphan (Option α)}
    (hf : ∀ x t, AgentSafe t (f x) fun _ _ => True) (xs : List ι) :
    ∀ t, AgentSafe t (Prog.firstM f xs) fun _ _ => True :=
  fun _ => .firstM (P := fun _ => True) trivial (fun _ _ => trivial) fun x _ t _ =>
    (hf x t).mono (fun _ _ h => h) fun o _ _ => by cases o <;> trivial

theorem agent_reconcileInventory (task revision : Nat) (inventory : List InventoryItem) :
    ∀ t, AgentSafe t (reconcileInventory false task revision inventory) fun _ _ => True := by
  intro t
  refine agent_free (fun _ => trivial) fun now t => ?_
  refine agent_free (fun _ => trivial) fun protectedIds t => ?_
  refine agent_free (fun _ => trivial) fun pending t => ?_
  refine agent_free (fun _ => trivial) fun candidates t => ?_
  refine agent_free (fun _ => trivial) fun absent t => ?_
  refine agent_then (agent_firstM (agent_reconcileAbsent task now) absent) fun ending t => ?_
  cases ending with
  | some ending => trivial
  | none =>
    refine agent_then (agent_firstM (agent_reconcileItem task revision _) inventory)
      fun ending t => ?_
    cases ending with
    | some ending => trivial
    | none => trivial

theorem agent_reconcile (task revision : Nat) :
    ∀ t, AgentSafe t (reconcile false task revision) fun _ _ => True := by
  intro t
  refine agent_free (fun _ => trivial) fun _ t => ?_
  refine agent_free (fun _ => trivial) fun _ t => ?_
  refine agent_free (fun _ => trivial) fun owned t => ?_
  split
  · refine agent_free (fun _ => trivial) fun blocker t => ?_
    split
    · trivial
    · refine agent_free (fun _ => trivial) fun _ t => ?_
      refine agent_free (fun _ => trivial) fun _ t => ?_
      refine agent_free (fun _ => trivial) fun answer t => ?_
      split
      · split
        · exact agent_reconcileInventory task revision _ t
        · trivial
      · trivial
  · trivial

theorem agent_interrupted (error : ReconcileError) :
    ∀ t, AgentSafe t (interrupted error) fun _ _ => True := by
  intro t
  rw [interrupted]
  split
  · trivial
  · refine agent_free (fun _ => trivial) fun deleting t => ?_
    split <;> trivial

theorem agent_runOrphanReconciliation (task : Nat) :
    ∀ t, AgentSafe t (runOrphanReconciliation false task) fun _ _ => True := by
  intro t
  refine agent_free (fun _ => trivial) fun loaded t => ?_
  split
  · refine agent_then (fun t => ?_) fun _ t => ?_
    · rw [startPendingTask]
      split
      · exact agent_last fun _ => trivial
      · trivial
    · refine agent_free (fun _ => trivial) fun _ t => ?_
      refine agent_then (fun t => .handle (agent_reconcile task loaded.revision t)
        fun error t _ => agent_interrupted error t) fun ending t => ?_
      cases ending with
      | wait reason => exact agent_last fun _ => trivial
      | finish completion => exact agent_last fun _ => trivial
  · trivial

end Programs

/-! ## Advances of the Controller -/

/-- The Controller asks no Agent, and its attempts have keys of their own. -/
structure ControllerRows (db : OrphanTables) : Prop where
  children : db.children = []
  attempts : (db.attempts.map DeleteAttempt.id).Nodup

theorem ControllerRows.updateAttempt (h : ControllerRows db) {id : Nat}
    {f : DeleteAttempt → DeleteAttempt} (hid : ∀ a, (f a).id = a.id) :
    ControllerRows (db.updateAttempt id f) where
  children := h.children
  attempts := by
    have hids : (db.updateAttempt id f).attempts.map DeleteAttempt.id =
        db.attempts.map DeleteAttempt.id := by
      simp only [OrphanTables.updateAttempt, Table.update, List.map_map]
      exact List.map_congr_left fun a _ => Table.key_update_row hid a
    exact hids ▸ h.attempts

theorem ControllerRows.of_tables (h : ControllerRows db) (hchildren : db'.children = db.children)
    (hattempts : db'.attempts = db.attempts) : ControllerRows db' :=
  ⟨hchildren.trans h.children, hattempts ▸ h.attempts⟩

theorem ControllerRows.effect (h : ControllerRows db)
    (hfresh : ∀ a ∈ db.attempts, a.id < db.attempts.length) (hguard : EvidenceGuard db r)
    (heffect : db.Effect true r db') : ControllerRows db' := by
  cases heffect with
  | remote => exact hguard.elim
  | @rediscover t item at' =>
    refine h.of_tables ?_ ?_
    · change (db.rediscover item at').children = db.children
      rw [OrphanTables.rediscover]
      split <;> rfl
    · change (db.rediscover item at').attempts = db.attempts
      rw [OrphanTables.rediscover]
      split <;> rfl
  | @intent t snapshotId revision row c =>
    refine ⟨h.children, List.nodup_cons.mpr ⟨fun hmem => ?_, h.attempts⟩⟩
    obtain ⟨a, ha, hid⟩ := List.mem_map.mp hmem
    exact (hfresh a ha).ne hid
  | spawn => exact h.updateAttempt fun _ => rfl
  | closeLease => exact h.updateAttempt fun _ => rfl
  | finishAttempt => exact h.updateAttempt fun a => a.later_finish.id
  | @recover t snapshotId id present reason =>
    have hrecovered : ControllerRows (db.updateCandidate snapshotId fun c =>
      db.recoveredCandidate c present reason) := h.of_tables rfl rfl
    have hattempt : ControllerRows (OrphanTables.updateAttempt (db.updateCandidate snapshotId
        fun c => db.recoveredCandidate c present reason) id fun a =>
          { a with state := .recovered }) := hrecovered.updateAttempt fun _ => rfl
    exact hattempt.of_tables rfl rfl
  | finish hfinish =>
    rw [OrphanTables.finish_tasks hfinish]
    exact h.of_tables rfl rfl
  | _ => exact h.of_tables rfl rfl

theorem ControllerRows.environment (h : ControllerRows db) (e : OrphanEnv) :
    ControllerRows (orphanEnvironment db e) := by
  cases e with
  | admitTask dueAt =>
    rw [orphanEnvironment, OrphanTables.admitTask]
    split
    · exact h
    · exact h.of_tables rfl rfl
  | admitBackup uuid record =>
    rw [orphanEnvironment, OrphanTables.admitBackup]
    split
    · exact h
    · exact h.of_tables rfl rfl
  | agent i status accepted result =>
    exact ⟨by simp [orphanEnvironment, h.children], h.attempts⟩
  | receipt id receipt => exact h.updateAttempt fun a => (a.later_writeReceipt receipt).id
  | runnerEnds id => exact h.updateAttempt fun _ => rfl
  | workerEnds id => exact h.updateAttempt fun _ => rfl
  | _ => exact h.of_tables rfl rfl

/-- What the advances of the Controller keep, with what it owns. -/
def controllerTerms : Terms OrphanTables OrphanCall where
  keeps := fun db => evidenceTerms.keeps db ∧ UnownedInv db ∧ ControllerRows db
  moves := Grown
  allows := DecidedInTime true
  guards := EvidenceGuard
  refl := .refl
  trans := .trans

theorem EvidenceGuard.outcomeSettles (h : EvidenceGuard db r) : OutcomeSettles r := by
  cases r with
  | register => exact h.1
  | saveOutcome => exact h.elim
  | record => exact h
  | _ => trivial

theorem DecidedInTime.savesSettled (h : DecidedInTime controller db r) : SavesSettled db r := by
  cases r with
  | saveManaged t snapshotId =>
    rintro _ ⟨rfl⟩
    exact h
  | rediscover t item at' =>
    rintro _ ⟨rfl⟩
    exact h
  | _ => exact nofun

theorem controllerTerms_kept :
    controllerTerms.Kept (orphanServer true) orphanEnvironment FencedInTime where
  call := by
    intro db r ⟨hevidence, hunowned, hrows⟩ hallows hguard choice
    have heffect := OrphanTables.effect_respond true db r choice
    obtain ⟨hevidence', hgrown⟩ :=
      evidenceTerms_kept.call hevidence hallows.savesSettled hguard choice
    exact ⟨⟨hevidence', hunowned.effect hallows hguard.outcomeSettles heffect,
      hrows.effect hevidence.2.fresh hguard heffect⟩, hgrown⟩
  env := by
    intro db e ⟨hevidence, hunowned, hrows⟩ he
    obtain ⟨hevidence', hgrown⟩ := evidenceTerms_kept.env hevidence trivial
    exact ⟨⟨hevidence', hunowned.environment he, hrows.environment e⟩, hgrown⟩

theorem controller_runOrphanReconciliation (task : Nat) (t : OrphanTables) :
    controllerTerms.Safe (orphanServer true) (fun _ _ => True)
      (runOrphanReconciliation true task) (fun _ _ => True) t :=
  (safe_runOrphanReconciliation task t).restrict (fun _ h => h.1) (fun _ _ h => h)
    (fun _ _ h => h.savesSettled) fun _ _ h => h

/-! ## Dispatches -/

/-- The deletion that a call dispatches: its task and its snapshot. -/
def OrphanTables.dispatches (db : OrphanTables) : OrphanCall → Option (Nat × String)
  | .remote t (.orphanDelete snapshotId) => some (t, snapshotId)
  | .spawn id => (db.attempt id).map fun a => (a.repositoryTask, a.candidate)
  | _ => none

/-- The deletions of a snapshot that have no confirmed end. -/
def OrphanTables.deletesInFlight (db : OrphanTables) (snapshotId : String) : Nat :=
  (db.children.filter fun child =>
    child.unresolved && child.operation = .orphanDelete snapshotId).length +
  (db.attempts.filter fun a => !a.stopped && a.candidate = snapshotId).length

theorem EvidenceInv.deletesInFlight_le_one (h : EvidenceInv db) (hrows : ControllerRows db)
    (snapshotId : String) : db.deletesInFlight snapshotId ≤ 1 := by
  rw [OrphanTables.deletesInFlight, hrows.children, List.filter_nil, List.length_nil, Nat.zero_add]
  refine Table.length_filter_le_one hrows.attempts fun a ha b hb hpa hpb => ?_
  have hlive : ∀ x : DeleteAttempt, (!x.stopped && x.candidate = snapshotId) = true →
      x.live = true := fun x hx => by simp_all [DeleteAttempt.live]
  have hheads := (h.live a ha (hlive a hpa)).1.symm.trans (h.live b hb (hlive b hpb)).1
  rw [Option.some.inj hheads]

theorem FlightInv.deletesInFlight_le_one (h : FlightInv db) (hattempts : db.attempts = [])
    (snapshotId : String) : db.deletesInFlight snapshotId ≤ 1 := by
  rw [OrphanTables.deletesInFlight, hattempts, List.filter_nil, List.length_nil, Nat.add_zero]
  refine Table.length_filter_le_one h.keys fun x hx y hy hpx hpy => ?_
  simp only [Bool.and_eq_true, decide_eq_true_eq] at hpx hpy
  obtain ⟨⟨hactive, -⟩, row, hrow, hretry⟩ := h.flying x hx hpx.1 snapshotId hpx.2
  obtain ⟨⟨hactive', -⟩, row', hrow', hretry'⟩ := h.flying y hy hpy.1 snapshotId hpy.2
  have hparent : x.parentTask = y.parentTask := Option.some.inj (hactive.symm.trans hactive')
  obtain rfl : row = row' := Option.some.inj (hrow.symm.trans (hparent ▸ hrow'))
  rw [OrphanChild.key, OrphanChild.key, hparent, hpx.2, hpy.2, ← hretry, hretry']

theorem EvidenceInv.dispatches_unowned (h : EvidenceInv db) (hgate : GateInv db)
    (hunowned : UnownedInv db) (hguard : EvidenceGuard db r) (heffect : db.Effect true r db')
    (hchanged : db' ≠ db) (hx : db.dispatches r = some x) :
    ∃ c ∈ db.candidates, c.snapshotId = x.2 ∧ db.Unowned x.1 c := by
  cases heffect with
  | none => exact absurd rfl hchanged
  | remote => exact hguard.elim
  | @spawn id a ha hworker =>
    simp only [OrphanTables.dispatches, ha, Option.map_some, Option.some.injEq] at hx
    subst hx
    obtain ⟨hmem, rfl⟩ := OrphanTables.mem_of_attempt ha
    obtain ⟨hhead, c, hc, hcand, hstatus⟩ := h.live a hmem (by
      simp [DeleteAttempt.live, DeleteAttempt.stopped, hworker])
    obtain ⟨b, hb, -, row, hrow, hrb, hopen, -⟩ := h.deleting c hc hstatus
    obtain rfl : a = b := Option.some.inj (hhead.symm.trans hb)
    obtain ⟨t, ht⟩ := hunowned.deleting c hc hstatus
    obtain rfl : t = a.repositoryTask :=
      Option.some.inj (ht.active.symm.trans ((hgate.gate row hrow hopen).trans (hrb ▸ rfl)))
    exact ⟨c, hc, hcand, ht⟩
  | _ => cases hx

theorem UnownedInv.dispatches_unowned (h : UnownedInv db) (hguard : AgentGuard db r)
    (heffect : db.Effect false r db') (hchanged : db' ≠ db) (hx : db.dispatches r = some x) :
    ∃ c ∈ db.candidates, c.snapshotId = x.2 ∧ db.Unowned x.1 c := by
  cases heffect with
  | none => exact absurd rfl hchanged
  | @remote t operation row hrow hnew =>
    cases operation with
    | inventory => cases hx
    | orphanDelete snapshotId =>
      cases hx
      rcases hguard with ⟨row', hrow', child, hchild, hkey, -⟩ | ⟨hactive, c, hc, hcand, hstatus⟩
      · simp only [OrphanChild.key, Prod.mk.injEq] at hkey
        obtain rfl := Option.some.inj (hrow.symm.trans hrow')
        exact absurd hkey.2.2 (hnew child hchild hkey.1 hkey.2.1)
      · obtain ⟨t', ht'⟩ := h.deleting c hc hstatus
        obtain rfl : t' = t := Option.some.inj (ht'.active.symm.trans hactive)
        exact ⟨c, hc, hcand, ht'⟩
  | spawn => exact hguard.elim
  | _ => cases hx

/-! ## Runs -/

/-- What the advances of a target keep. -/
def deleteTerms : Bool → Terms OrphanTables OrphanCall
  | true => controllerTerms
  | false => flightTerms

/-- The events of a run whose calls find what their sibling paths check, and whose retries
of backups find nothing in `deleting`. -/
abbrev InTime (controller : Bool) : OrphanState → OrphanEventOf → Prop :=
  (deleteTerms controller).Steady FencedInTime

/-- Only what the product does not own is deleted, and once at a time. -/
theorem deletes_unowned {controller : Bool} {db : OrphanTables} {st st' : OrphanState}
    {event : OrphanEventOf} (hdb : db.Fresh)
    (h : (orphanRuns controller db).ReachableUnder (InTime controller) st)
    (hs : (orphanRuns controller db).step st event = some st') :
    (∀ r, requestOf st event = some r → st'.state ≠ st.state →
      ∀ x, st.state.dispatches r = some x →
        ∃ c ∈ st.state.candidates, c.snapshotId = x.2 ∧ st.state.Unowned x.1 c) ∧
    ∀ snapshotId, st.state.deletesInFlight snapshotId ≤ 1 := by
  cases controller with
  | true =>
    have hsound := Terms.sound_of_reachable controllerTerms_kept
      controller_runOrphanReconciliation ⟨⟨hdb.gateInv, hdb.evidenceInv⟩, hdb.unownedInv,
        ⟨hdb.children, by simp [hdb.attempts]⟩⟩ h
    obtain ⟨⟨hgate, hevidence⟩, hunowned, hrows⟩ := hsound.keeps
    refine ⟨?_, hevidence.deletesInFlight_le_one hrows⟩
    intro r hr hchanged x hx
    cases event with
    | start job => cases hr
    | env e => cases hr
    | call i choice =>
      obtain ⟨job, r', k, hcall, hstate⟩ := orphanRuns_call hs
      obtain rfl : r' = r := by simpa [requestOf, hcall] using hr
      exact hevidence.dispatches_unowned hgate hunowned (hsound.guard hcall)
        (OrphanTables.effect_respond true st.state r' choice) (hstate ▸ hchanged) hx
  | false =>
    have hsound := Terms.sound_of_reachable flightTerms_kept agent_runOrphanReconciliation
      ⟨hdb.unownedInv, hdb.flightInv, hdb.attempts⟩ h
    obtain ⟨hunowned, hflight, hattempts⟩ := hsound.keeps
    refine ⟨?_, hflight.deletesInFlight_le_one hattempts⟩
    intro r hr hchanged x hx
    cases event with
    | start job => cases hr
    | env e => cases hr
    | call i choice =>
      obtain ⟨job, r', k, hcall, hstate⟩ := orphanRuns_call hs
      obtain rfl : r' = r := by simpa [requestOf, hcall] using hr
      exact hunowned.dispatches_unowned (hsound.guard hcall)
        (OrphanTables.effect_respond false st.state r' choice) (hstate ▸ hchanged) hx

instance (controller : Bool) (db : OrphanTables) (r : OrphanCall) :
    Decidable (DecidedInTime controller db r) := by
  cases r with
  | saveAbsent t snapshotId => exact inferInstanceAs (Decidable (Settled db snapshotId))
  | saveManaged t snapshotId => exact inferInstanceAs (Decidable (Settled db snapshotId))
  | rediscover t item at' => exact inferInstanceAs (Decidable (Settled db item.snapshotId))
  | saveOutcome t => exact inferInstanceAs (Decidable (db.activeTask = some t))
  | saveFailure t => exact inferInstanceAs (Decidable (db.activeTask = some t))
  | mark t copy => exact inferInstanceAs (Decidable (_ ∨ _))
  | intent t snapshotId => exact inferInstanceAs (Decidable (db.discoveredBy t snapshotId = false))
  | finish t c => exact inferInstanceAs (Decidable (_ ∨ _))
  | _ => exact isTrue trivial

instance (controller : Bool) (db : OrphanTables) (r : OrphanCall) :
    Decidable ((deleteTerms controller).allows db r) :=
  match controller with
  | true => inferInstanceAs (Decidable (DecidedInTime true db r))
  | false => inferInstanceAs (Decidable (DecidedInTime false db r))

instance (db : OrphanTables) (e : OrphanEnv) : Decidable (FencedInTime db e) := by
  cases e with
  | retryBackup uuid => exact inferInstanceAs (Decidable (_ → _))
  | _ => exact isTrue trivial

/-- The Controller has decided a deletion and is about to start its runner. -/
def decided : List OrphanEventOf := rediscovery ++ callsWithSnapshot 1 23

def beforeRunner : OrphanState :=
  ((orphanRuns true failedBackup).exec (orphanStart failedBackup) decided).get (by decide +kernel)

def afterRunner : OrphanState :=
  ((orphanRuns true failedBackup).step beforeRunner (.call 1 {})).get (by decide +kernel)

/-- The runner is started for a snapshot that the product does not own. -/
theorem deletes_unowned_runner :
    (∀ r, requestOf beforeRunner (.call 1 {}) = some r → afterRunner.state ≠ beforeRunner.state →
      ∀ x, beforeRunner.state.dispatches r = some x →
        ∃ c ∈ beforeRunner.state.candidates, c.snapshotId = x.2 ∧
          beforeRunner.state.Unowned x.1 c) ∧
    ∀ snapshotId, beforeRunner.state.deletesInFlight snapshotId ≤ 1 := by
  have hsteady : (orphanRuns true failedBackup).Every (fun s a _ => InTime true s a)
      (orphanStart failedBackup) decided := by decide +kernel
  exact deletes_unowned ⟨rfl, rfl, rfl, rfl, rfl⟩
    (.of_exec (.start rfl) hsteady (Option.some_get _).symm) (Option.some_get _).symm

/-- A complete inventory of an Agent with one snapshot. -/
def inventoryAnswer : OrphanEventOf :=
  .env (.agent 0 .success true { inventoryComplete := true, manifests := [{ snapshotId := "s" }] })

/-- Two advances of one task look at the clock before and after the end of the grace period.
The first one finishes the task, and the second one goes on to its deletion. -/
def straddled : List OrphanEventOf :=
  [.env (.admitTask none), .start 0] ++ nextCalls 0 11 ++ [inventoryAnswer, .start 0] ++
    nextCalls 1 16 ++ [.env (.tick 86399999999), .env (.admitTask none), .start 1] ++
    nextCalls 2 11 ++ [inventoryAnswer, .start 1] ++ nextCalls 3 10 ++
    [.env (.tick 1), .start 1] ++ nextCalls 4 16 ++ nextCalls 3 6 ++ nextCalls 4 1

/-- The target before the Agent is asked. -/
def beforeOperation : OrphanState :=
  ((orphanRuns false {}).exec (orphanStart {}) straddled).get (by decide +kernel)

/-- The target after the Agent is asked. -/
def afterOperation : OrphanState :=
  ((orphanRuns false {}).step beforeOperation (.call 4 {})).get (by decide +kernel)

/-- A task that has succeeded dispatches a deletion. -/
theorem not_deletes_unowned_straddled :
    (orphanRuns false {}).Reachable beforeOperation ∧
      (orphanRuns false {}).step beforeOperation (.call 4 {}) = some afterOperation ∧
      (∃ child ∈ afterOperation.state.children,
        child.parentTask = 1 ∧ child.operation = .orphanDelete "s" ∧
          child ∉ beforeOperation.state.children) ∧
      (∃ row ∈ beforeOperation.state.tasks, row.id = 1 ∧ row.task.status = .success) ∧
      ∀ c, ¬beforeOperation.state.Unowned 1 c := by
  refine ⟨.of_exec rfl (Option.some_get _).symm, (Option.some_get _).symm, ?_, ?_, ?_⟩
  · decide +kernel
  · decide +kernel
  · intro c h
    have hactive : beforeOperation.state.activeTask = none := by decide +kernel
    rw [h.active] at hactive
    cases hactive

end HyperFileLens.Storage
