import HyperFileLens.Agent.Handler

/-!
# Repair of interrupted tasks

When a pass of `RepairInterrupted` is safe, over every interleaving with the
handler.

*The gap.*  A pass takes three looks at the world: the tracker snapshot, the
`SELECT` of running rows, and one `UPDATE` per row. The `UPDATE` of every other
writer repeats the status in its `WHERE` clause. This one names the row by its
id alone, so it writes whatever the row has become.

*The condition.*  `RepairOk` says of the pass at hand that the row it writes did
not turn terminal since the `SELECT`, and that a row it fails had no executor
arriving since the snapshot. `repair_safe_iff` says that this is exactly when a
run is safe. The invariant `Consistent` is that the history of a pass accounts
for the tracker and for the rows it has selected.
-/

namespace HyperFileLens.Agent

open Transition

/-! ## Safety and its condition -/

/-- A write of a repair pass is safe: the row was not terminal, and it is failed
only when its executor is not in the tracker. -/
def RepairSafe (s : State) : Label → State → Prop
  | .repairNext _ _ _, s' =>
    ∀ id t t', s.tasks.lookup id = some t → s'.tasks.lookup id = some t' →
      t'.version ≠ t.version →
        isTerminal t.status = false ∧ (t'.status = .failed → id ∉ s.active)
  | _, _ => True

/-- The row that a repair pass is about to write did not turn terminal since the
pass selected it. If the pass will fail it, no executor of it arrived since the
pass took its snapshot of the tracker. -/
def RepairOk (s : State) : Label → Prop
  | .repairNext ev dbErr _ =>
    ∀ p id t rows st result errMsg, s.repair = some p → p.selected = some ((id, t) :: rows) →
      id ∉ p.activeTaskIds → repairOutcome t.kind ev = some (st, result, errMsg) →
      dbErr = false → id ∉ p.closed ∧ (st = .failed → id ∉ p.arrivals)
  | _ => True

/-! ## The history of a pass -/

/-- The history of a pass accounts for the tracker and for its rows. -/
structure RepairPass.Accounts (p : RepairPass) (tasks : Tasks) (active : Finset TaskId) :
    Prop where
  /-- Every executor in the tracker was in the snapshot or arrived later. -/
  covered : ∀ id ∈ active, id ∈ p.activeTaskIds ∨ id ∈ p.arrivals
  arrived : ∀ id ∈ p.arrivals, id ∈ active
  nodup : ∀ rows, p.selected = some rows → (rows.map Prod.fst).Nodup
  closed : ∀ rows, p.selected = some rows → ∀ r ∈ rows, ∃ t, tasks.lookup r.1 = some t ∧
    (isTerminal t.status = true ↔ r.1 ∈ p.closed)

/-- The pass at hand, if any, accounts for the state. -/
def State.Consistent (s : State) : Prop :=
  ∀ p, s.repair = some p → p.Accounts s.tasks s.active

/-- Rows stay in the table, terminal or not as they were. -/
def KeepsOpen (tasks tasks' : Tasks) : Prop :=
  ∀ id t, tasks.lookup id = some t →
    ∃ t', tasks'.lookup id = some t' ∧ isTerminal t'.status = isTerminal t.status

variable {s : State}

theorem KeepsOpen.refl (tasks : Tasks) : KeepsOpen tasks tasks := fun _ t ht => ⟨t, ht, rfl⟩

variable {assign : Task → Task} {guard : Task → Bool}

theorem KeepsOpen.updateWhere
    (h : ∀ t, guard t = true → isTerminal (assign t).status = isTerminal t.status) (tasks : Tasks)
    (id : TaskId) : KeepsOpen tasks (updateWhere tasks id guard assign).1 := by
  intro j t ht
  rw [lookup_updateWhere]
  split
  next hj =>
    subst hj
    rw [ht]
    refine ⟨_, rfl, ?_⟩
    dsimp only
    split
    · exact h t ‹_›
    · rfl
  next => exact ⟨t, ht, rfl⟩

theorem KeepsOpen.of_unstored {tasks : Tasks} {id : TaskId}
    (h : ¬ (Agent.updateWhere tasks id guard assign).2 = true) :
    KeepsOpen tasks (Agent.updateWhere tasks id guard assign).1 := by
  rw [updateWhere_eq_false h]
  exact .refl tasks

theorem State.Consistent.congr {s' : State} (h : s.Consistent) (htasks : KeepsOpen s.tasks s'.tasks)
    (hactive : s'.active = s.active) (hrepair : s'.repair = s.repair) : s'.Consistent := by
  intro p hp
  have hold := h p (hrepair ▸ hp)
  refine ⟨hactive ▸ hold.covered, hactive ▸ hold.arrived, hold.nodup, fun rows hrows r hr => ?_⟩
  obtain ⟨t, ht, hiff⟩ := hold.closed rows hrows r hr
  obtain ⟨t', ht', hsame⟩ := htasks _ t ht
  exact ⟨t', ht', hsame ▸ hiff⟩

theorem State.Consistent.closes {s' : State} (h : s.Consistent) {id : TaskId}
    (hterminal : ∀ t, isTerminal (assign t).status = true)
    (hstored : (updateWhere s.tasks id (fun t => t.status.isActive) assign).2 = true)
    (htasks : s'.tasks = (updateWhere s.tasks id (fun t => t.status.isActive) assign).1)
    (hactive : s'.active = s.active) (hrepair : s'.repair = (s.noteClosed id).repair) :
    s'.Consistent := by
  intro p' hp'
  rw [hrepair] at hp'
  obtain ⟨p, hp, rfl⟩ := Option.map_eq_some_iff.mp hp'
  have hold := h p hp
  obtain ⟨t₀, -, -, hnew⟩ := updateWhere_eq_true hstored
  refine ⟨hactive ▸ hold.covered, hactive ▸ hold.arrived, hold.nodup, fun rows hrows r hr => ?_⟩
  by_cases hid : r.1 = id
  · refine ⟨assign t₀, by rw [htasks, hid, hnew], ?_⟩
    simp [hterminal, hid]
  · obtain ⟨t, ht, hiff⟩ := hold.closed rows hrows r hr
    refine ⟨t, ?_, by simpa [hid] using hiff⟩
    rw [htasks, lookup_updateWhere, if_neg hid, ht]

theorem State.Consistent.deactivate (h : s.Consistent) (id : TaskId) :
    (s.deactivate id).Consistent := by
  intro p' hp'
  obtain ⟨p, hp, rfl⟩ := Option.map_eq_some_iff.mp hp'
  have hold := h p hp
  refine ⟨?_, ?_, hold.nodup, hold.closed⟩
  · intro j hj
    obtain ⟨hne, hmem⟩ := Finset.mem_erase.mp hj
    exact (hold.covered j hmem).imp_right fun harr => Finset.mem_erase.mpr ⟨hne, harr⟩
  · intro j hj
    obtain ⟨hne, hmem⟩ := Finset.mem_erase.mp hj
    exact Finset.mem_erase.mpr ⟨hne, hold.arrived j hmem⟩

/-! ## Every step keeps the account -/

section Steps

variable {boundTaskResult : Dict → Dict} {s s' : State}

/-- Two states agree on the table, the tracker and the pass. -/
structure State.SameTables (s s' : State) : Prop where
  tasks : s'.tasks = s.tasks
  active : s'.active = s.active
  repair : s'.repair = s.repair

/-- The labels that touch neither the table, nor the tracker, nor the pass. -/
def Label.isQuiet : Label → Bool
  | .precheck .. | .start .. | .pathSizeBusy .. | .engineReturns .. | .readBack .. | .reserve ..
  | .send .. | .replayReserve .. | .replaySend .. | .flushRecent | .flushOldest .. | .flushReserve ..
  | .flushSend .. | .flushEnd .. | .reconnect => true
  | _ => false

variable {a : Label} {dbErr : Bool} {now : Instant}

theorem State.SameTables.of_isQuiet (ha : a.isQuiet = true)
    (hs : s.step boundTaskResult a = some s') : s.SameTables s' := by
  cases a with
  | precheck id dbErr =>
    simp only [State.step, State.precheck] at hs
    constructor <;> grind [State.toStage, State.setExecution]
  | start id =>
    simp only [State.step, State.start] at hs
    constructor <;> grind [State.toStage, State.setExecution]
  | pathSizeBusy id =>
    simp only [State.step, State.pathSizeBusy] at hs
    constructor <;> grind [State.toStage, State.setExecution]
  | engineReturns id out now =>
    simp only [State.step, State.engineReturns] at hs
    constructor <;> grind [State.toStage, State.setExecution]
  | readBack id dbErr =>
    simp only [State.step, State.readBack] at hs
    constructor <;> grind [State.toStage, State.setExecution]
  | reserve id now =>
    simp only [State.step, State.reserve] at hs
    constructor <;> grind [State.toStage, State.setExecution]
  | send id sendErr =>
    simp only [State.step, State.send] at hs
    constructor <;> grind [State.toStage, State.setExecution]
  | replayReserve i now =>
    simp only [State.step, State.replayReserve] at hs
    constructor <;> grind
  | replaySend i sendErr =>
    simp only [State.step, State.replaySend] at hs
    constructor <;> grind
  | flushOldest i =>
    simp only [State.step, State.flushOldest] at hs
    constructor <;> grind
  | flushReserve i now =>
    simp only [State.step, State.flushReserve] at hs
    constructor <;> grind
  | flushSend i sendErr =>
    simp only [State.step, State.flushSend] at hs
    constructor <;> grind
  | flushRecent | flushEnd i | reconnect =>
    cases hs
    exact ⟨rfl, rfl, rfl⟩
  | _ => simp [Label.isQuiet] at ha

section

variable (h : s.Consistent)

include h

theorem State.Consistent.command (cmd : TaskCommand)
    (maintenance dbErr sendErr : Bool) (now : Instant) :
    (s.command boundTaskResult cmd maintenance dbErr sendErr now).Consistent := by
  unfold State.command
  split
  · exact h
  split
  · split
    · exact h
    · exact h.congr (.refl _) rfl rfl
  split
  · exact h
  split
  · exact h
  next tasks persisted inserted haccept =>
    rcases acceptCommand_cases haccept with ⟨rfl, rfl, -⟩ | ⟨rfl, hnone, rfl, rfl⟩
    · rw [if_neg Bool.false_ne_true]
      split
      · exact h.congr (.refl _) rfl rfl
      · exact h
    · rw [if_pos rfl]
      refine h.congr (fun j t ht => ⟨t, ?_, rfl⟩) rfl rfl
      have hj : j ≠ cmd.taskId := by
        rintro rfl
        simp [hnone] at ht
      rw [← ht]
      exact AList.lookup_insert_ne hj

theorem State.Consistent.cancel (id : TaskId) (dbErr : Bool) (now : Instant) :
    (s.cancel id dbErr now).Consistent := by
  unfold State.cancel
  split
  · exact h
  dsimp only
  split
  next hchanged => exact h.closes (fun _ => rfl) hchanged rfl rfl rfl
  next => exact h

theorem State.Consistent.trackerCancel {i : Nat}
    (hs : s.trackerCancel i = some s') : s'.Consistent := by
  unfold State.trackerCancel at hs
  split at hs
  · simp at hs
  next id version _ =>
    dsimp only at hs
    split at hs
    · split at hs
      · cases hs
        refine State.Consistent.deactivate ?_ id
        exact h.congr (.refl _) rfl rfl
      · cases hs
        exact h.congr (.refl _) rfl rfl
    · cases hs
      exact h.congr (.refl _) rfl rfl

variable {id : TaskId}

theorem State.Consistent.register (hs : s.register id = some s') : s'.Consistent := by
  unfold State.register at hs
  split at hs
  · split at hs
    · cases hs
      intro p' hp'
      obtain ⟨p, hp, rfl⟩ := Option.map_eq_some_iff.mp hp'
      have hold := h p hp
      refine ⟨?_, ?_, hold.nodup, hold.closed⟩
      · intro j hj
        rcases Finset.mem_insert.mp hj with rfl | hmem
        · exact Or.inr (Finset.mem_insert_self _ _)
        · exact (hold.covered j hmem).imp_right Finset.mem_insert_of_mem
      · intro j hj
        rcases Finset.mem_insert.mp hj with rfl | hmem
        · exact Finset.mem_insert_self _ _
        · exact Finset.mem_insert_of_mem (hold.arrived j hmem)
    · simp at hs
  · simp at hs

theorem State.Consistent.waitCanceled (hs : s.waitCanceled boundTaskResult id dbErr now = some s') :
    s'.Consistent := by
  unfold State.waitCanceled at hs
  split at hs
  next e he =>
    split at hs
    next version _ _ =>
      split at hs
      · dsimp only at hs
        cases hs
        cases dbErr with
        | true => exact h.congr (.refl _) rfl rfl
        | false =>
          simp only [Bool.false_eq_true, if_false]
          split
          next hstored => exact h.closes (fun _ => rfl) hstored rfl rfl rfl
          next hstored => exact h.congr (.of_unstored hstored) rfl rfl
      · simp at hs
    · simp at hs
  · simp at hs

theorem State.Consistent.progress {progress : Json}
    (hs : s.progress id progress dbErr now = some s') : s'.Consistent := by
  unfold State.progress at hs
  split at hs
  · split at hs
    · split at hs
      · cases hs
        have hopen : KeepsOpen s.tasks (updateProgress s.tasks id progress now.text).1 :=
          .updateWhere (fun _ _ => by rfl) _ _
        exact h.congr hopen rfl rfl
      · cases hs
        exact h
    · simp at hs
  · simp at hs

theorem State.Consistent.persistRunning
    (hs : s.persistRunning boundTaskResult id dbErr now = some s') : s'.Consistent := by
  have hopen : ∀ result, KeepsOpen s.tasks (updateRunning s.tasks id result now.text).1 := by
    refine fun result => .updateWhere (fun t hg => ?_) _ _
    rw [isTerminal_eq_not_isActive t.status, hg]
    rfl
  unfold State.persistRunning at hs
  split at hs
  · split at hs
    · split at hs
      · dsimp only at hs
        cases hs
        cases dbErr with
        | true => exact h.congr (.refl _) rfl rfl
        | false => exact h.congr (hopen _) rfl rfl
      · simp at hs
    · simp at hs
  · simp at hs

theorem State.Consistent.finish (hs : s.finish boundTaskResult id dbErr now = some s') :
    s'.Consistent := by
  unfold State.finish at hs
  split at hs
  · split at hs
    next out _ =>
      split at hs
      · simp at hs
      split at hs
      · cases hs
        exact h.congr (.refl _) rfl rfl
      dsimp only at hs
      split at hs
      next hstored =>
        have hterminal := out.isTerminal_localStatus
        split at hs
        · cases hs
          exact h.closes (fun _ => hterminal) hstored rfl rfl rfl
        · cases hs
          exact h.closes (fun _ => hterminal) hstored rfl rfl rfl
      next hunstored =>
        split at hs
        · cases hs
          exact h.congr (.of_unstored hunstored) rfl rfl
        · cases hs
          exact h.congr (.of_unstored hunstored) rfl rfl
    · simp at hs
  · simp at hs

theorem State.Consistent.sealCancelled (hs : s.sealCancelled id dbErr now = some s') :
    s'.Consistent := by
  unfold State.sealCancelled at hs
  split at hs
  · split at hs
    next out _ =>
      split at hs
      · cases hs
        exact h.congr (.refl _) rfl rfl
      · cases hs
        have hopen : KeepsOpen s.tasks
            (sealCancelledExecutorResult s.tasks id out.result out.error now.text).1 :=
          .updateWhere (fun _ _ => by rfl) _ _
        exact h.congr hopen rfl rfl
    · simp at hs
  · simp at hs

theorem State.Consistent.unregister (hs : s.unregister id = some s') : s'.Consistent := by
  unfold State.unregister at hs
  split at hs
  · split at hs
    · cases hs
      refine State.Consistent.deactivate ?_ id
      exact h.congr (.refl _) rfl rfl
    · simp at hs
  · simp at hs

theorem State.Consistent.ack {o : Outgoing} : (s.ack o dbErr now).Consistent := by
  unfold State.ack
  split
  · exact h
  · have hopen : KeepsOpen s.tasks (markResultReported s.tasks o.frame.taskId now.text).1 :=
      .updateWhere (fun _ _ => by rfl) _ _
    exact h.congr hopen rfl rfl

end

theorem State.Consistent.repairSnapshot (hs : s.repairSnapshot = some s') : s'.Consistent := by
  unfold State.repairSnapshot at hs
  split at hs
  · cases hs
    intro p hp
    cases hp
    exact ⟨fun _ => Or.inl, by simp, by simp, by simp⟩
  · simp at hs

theorem State.Consistent.repairSelect (h : s.Consistent) (hs : s.repairSelect = some s') :
    s'.Consistent := by
  unfold State.repairSelect at hs
  split at hs
  next p hp =>
    have hold := h p hp
    split at hs
    · cases hs
      intro p' hp'
      cases hp'
      refine ⟨hold.covered, hold.arrived, ?_, ?_⟩
      · intro rows hrows
        cases hrows
        have hkeys : ((s.tasks.entries.map fun e => ((e.1, e.2) : TaskId × Task)).map
            Prod.fst).Nodup := by
          rw [List.map_map]
          exact s.tasks.nodupKeys
        exact hkeys.sublist (List.filter_sublist.map _)
      · intro rows hrows r hr
        cases hrows
        obtain ⟨hrow, hrunning⟩ := List.mem_filter.mp hr
        obtain ⟨e, he, rfl⟩ := List.mem_map.mp hrow
        have hst : e.2.status = .running := by simpa using hrunning
        refine ⟨e.2, AList.mem_lookup_iff.mpr he, ?_⟩
        simp [hst, isTerminal]
    · simp at hs
  · simp at hs

theorem RepairPass.Accounts.next {p : RepairPass} {tasks tasks' : Tasks} {active : Finset TaskId}
    (h : p.Accounts tasks active) {r : TaskId × Task} {rows : List (TaskId × Task)}
    (hselected : p.selected = some (r :: rows))
    (htasks : ∀ j, j ≠ r.1 → tasks'.lookup j = tasks.lookup j) :
    ({ p with selected := some rows } : RepairPass).Accounts tasks' active := by
  have hnodup := h.nodup _ hselected
  rw [List.map_cons, List.nodup_cons] at hnodup
  refine ⟨h.covered, h.arrived, ?_, ?_⟩
  · rintro rows' heq
    cases heq
    exact hnodup.2
  · rintro rows' heq r' hr'
    cases heq
    have hne : r'.1 ≠ r.1 := by
      intro hid
      exact hnodup.1 (hid ▸ List.mem_map_of_mem hr')
    rw [htasks _ hne]
    exact h.closed _ hselected r' (List.mem_cons_of_mem _ hr')

theorem State.Consistent.repairNext {ev : LifecycleEvidence} (h : s.Consistent)
    (hs : s.repairNext ev dbErr now = some s') : s'.Consistent := by
  unfold State.repairNext at hs
  split at hs
  next p hp =>
    have hold := h p hp
    split at hs
    next id t rows hselected =>
      have hnext : ({ s with repair := some { p with selected := some rows } } :
          State).Consistent := by
        intro p' hp'
        cases hp'
        exact hold.next hselected fun _ _ => rfl
      dsimp only at hs
      split at hs
      · cases hs
        exact hnext
      split at hs
      · cases hs
        exact hnext
      split at hs
      · cases hs
        intro p' hp'
        simp at hp'
      · cases hs
        intro p' hp'
        cases hp'
        refine hold.next hselected fun j hj => ?_
        rw [repairRow, lookup_updateWhere, if_neg hj]
    · simp at hs
  · simp at hs

theorem State.Consistent.of_no_pass (h : s.repair = none) : s.Consistent := by
  intro p hp
  simp [h] at hp

theorem State.Consistent.agent_step (h : s.Consistent) (hs : s.step boundTaskResult a = some s') :
    s'.Consistent := by
  by_cases ha : a.isQuiet = true
  · obtain ⟨htasks, hactive, hrepair⟩ := State.SameTables.of_isQuiet ha hs
    exact h.congr (htasks ▸ .refl _) hactive hrepair
  cases a with
  | command cmd maintenance dbErr sendErr now =>
    exact Option.some.inj hs ▸ h.command cmd maintenance dbErr sendErr now
  | cancel id dbErr now => exact Option.some.inj hs ▸ h.cancel id dbErr now
  | trackerCancel i => exact h.trackerCancel hs
  | register id => exact h.register hs
  | waitCanceled id dbErr now => exact h.waitCanceled hs
  | progress id progress dbErr now => exact h.progress hs
  | persistRunning id dbErr now => exact h.persistRunning hs
  | finish id dbErr now => exact h.finish hs
  | sealCancelled id dbErr now => exact h.sealCancelled hs
  | unregister id => exact h.unregister hs
  | ack o dbErr now =>
    simp only [State.step] at hs
    split at hs
    · exact Option.some.inj hs ▸ h.ack
    · simp at hs
  | repairSnapshot => exact .repairSnapshot hs
  | repairSelect => exact h.repairSelect hs
  | repairNext ev dbErr now => exact h.repairNext hs
  | repairEnd => exact Option.some.inj hs ▸ .of_no_pass rfl
  | restart => exact Option.some.inj hs ▸ .of_no_pass rfl
  | _ => exact absurd rfl ha

theorem State.Consistent.of_reachable (h : (agent boundTaskResult).Reachable s) : s.Consistent :=
  h.invariant (fun _ hinit => hinit ▸ .of_no_pass rfl) fun _ _ _ h' _ hs => h'.agent_step hs

/-! ## When a run is safe -/

theorem RepairSafe.of_tasks_eq (htasks : s'.tasks = s.tasks) : RepairSafe s a s' := by
  cases a with
  | repairNext ev dbErr now =>
    intro id t t' ht ht' hne
    rw [htasks, ht, Option.some.injEq] at ht'
    exact absurd (by rw [ht']) hne
  | _ => exact trivial

/-- Out of a state with an accounted pass, a step is safe exactly under the
condition. -/
theorem State.Consistent.safe_iff_ok (h : s.Consistent) (hs : s.step boundTaskResult a = some s') :
    RepairSafe s a s' ↔ RepairOk s a := by
  cases a with
  | repairNext ev dbErr now =>
    simp only [State.step, State.repairNext] at hs
    split at hs
    next p hp =>
      split at hs
      next id t rows hselected =>
        -- the pass may leave the row alone for three reasons
        by_cases hactive : id ∈ p.activeTaskIds
        · rw [if_pos hactive] at hs
          cases hs
          refine iff_of_true (.of_tasks_eq rfl) ?_
          rintro p' id' t' rows' st result errMsg hp' hselected' hnot - -
          grind
        rw [if_neg hactive] at hs
        split at hs
        next hnone =>
          cases hs
          refine iff_of_true (.of_tasks_eq rfl) ?_
          rintro p' id' t' rows' st result errMsg hp' hselected' - hsome -
          grind
        next st result errMsg houtcome =>
          cases dbErr with
          | true =>
            rw [if_pos rfl] at hs
            cases hs
            refine iff_of_true (.of_tasks_eq rfl) ?_
            rintro - - - - - - - - - - - ⟨⟩
          | false =>
            rw [if_neg Bool.false_ne_true] at hs
            cases hs
            obtain ⟨t₀, ht₀, hclosed⟩ :=
              (h p hp).closed _ hselected (id, t) List.mem_cons_self
            have htracked : id ∈ s.active ↔ id ∈ p.arrivals :=
              ⟨fun hmem => ((h p hp).covered id hmem).resolve_left hactive,
                (h p hp).arrived id⟩
            have hwritten : (repairRow s.tasks id st result errMsg now.text).1.lookup id =
                some (t₀.write st result errMsg now.text) := by
              rw [repairRow, lookup_updateWhere, if_pos rfl, ht₀]
              rfl
            constructor
            · intro hsafe p' id' t' rows' st' result' errMsg' hp' hselected' _ houtcome' _
              have := hsafe id t₀ _ ht₀ hwritten (Nat.succ_ne_self _)
              grind [Task.write]
            · intro hok j t₁ t₁' ht₁ ht₁' hne
              obtain ⟨hopen, hidle⟩ :=
                hok p id t rows st result errMsg hp hselected hactive houtcome rfl
              by_cases hj : j = id
              · subst hj
                grind [Task.write]
              · rw [repairRow, lookup_updateWhere, if_neg hj, ht₁, Option.some.injEq] at ht₁'
                exact absurd (by rw [ht₁']) hne
      · simp at hs
    · simp at hs
  | _ => exact Iff.rfl

variable (boundTaskResult) in
/-- A run is safe exactly when no repair pass acts on an outdated look. -/
theorem repair_safe_iff (as : List Label) :
    (agent boundTaskResult).Every RepairSafe State.initial as ↔
      (agent boundTaskResult).Every (fun s a _ => RepairOk s a) State.initial as :=
  Transition.System.every_congr
    (fun _ _ _ hr hs => (State.Consistent.of_reachable hr).safe_iff_ok hs) (.start rfl) as

end Steps

/-! ## A run with an outdated look -/

def backupCommand : TaskCommand where
  taskId := "t1"
  jobId := "j1"
  kind := "backup"
  payload := []
  path := ""

def backupOutcome : EngineResult where
  status := .success
  result := [("snapshot_id", .str "k1")]
  error := ""
  running_error := nofun

/-- Nothing on disk about a detached upgrade or uninstall. -/
def noEvidence : LifecycleEvidence where
  stillRunning := false
  upgradeFailed := false
  spaceFailure := none
  succeeded := none

/-- The snapshot is taken before the executor registers, and the backup finishes
between the `SELECT` and the `UPDATE`. -/
def staleRun (now : Instant) : List Label :=
  [.command backupCommand false false false now, .repairSnapshot, .register "t1",
    .precheck "t1" false, .start "t1", .repairSelect, .engineReturns "t1" backupOutcome now,
    .finish "t1" false now, .repairNext noEvidence false now]

/-- The finished backup is overwritten, while its executor is in the tracker. -/
theorem not_repair_safe_staleRun :
    ¬ (agent id).Every RepairSafe State.initial (staleRun ⟨0, "now"⟩) := by
  rintro ⟨-, -, -, -, -, -, -, -, hsafe, -⟩
  obtain ⟨hopen, -⟩ := hsafe "t1" _ _ rfl rfl (by decide)
  exact absurd hopen (by decide)

end HyperFileLens.Agent
