import HyperFileLens.Node.UninstallRows
import HyperFileLens.Node.UpgradeVerified

/-!
# Exclusive lifecycles

When the operations of a Node exclude each other, and a purge has its evidence.

*The gaps.*  A frame that reports `running` lets an operation run again that has failed. An
advance looks at the last uninstall and not at the last operation, so a late callback of an
uninstall, or an operation that is started before the purge, lets it purge under another
operation.

*Fence.*  Without these, only the newest row is ever active, a token changes its row once, and
each purge was forced or has the callback of the newest row (`Fenced`).
-/

namespace HyperFileLens.Node

open Transition

variable {env : LifecycleSetting} {s s' : NodeLifecycle} {task task' : NodeTask}

/-! ## Rows -/

def NodeTask.standsAlone (task : NodeTask) : Bool := task.sourceUnregisterTaskId.any (· ≤ 0)

/-- The server records are purged for the evidence of the row, once it is looked at. -/
def NodeTask.awaitsPurge (task : NodeTask) : Bool :=
  task.kind = "agent.uninstall" && task.isCleaningUp && !task.forceCleanup && task.standsAlone

/-- A row of a lifecycle operation, in order. -/
structure NodeTask.IsOperation (task : NodeTask) : Prop where
  correlated : task.isLifecycleCorrelatedTask = true
  kind : isLifecycleKind task.kind = true
  steady : task.kind = "agent.uninstall" → task.IsSteady

theorem NodeTask.IsOperation.isUninstall (h : task.IsOperation)
    (hkind : task.kind = "agent.uninstall") : task.IsUninstall := ⟨h.correlated, hkind⟩

/-- What a write may do to the row of an operation. -/
structure RowKeeps (task task' : NodeTask) : Prop where
  operation : task'.IsOperation
  kind : task'.kind = task.kind
  force : task'.forceCleanup = task.forceCleanup
  parent : task'.sourceUnregisterTaskId = task.sourceUnregisterTaskId
  quiet : task.status.isActive = false → task'.status.isActive = false
  decided : task.kind = "agent.uninstall" → task.IsDecided → task'.IsDecided
  cleaningUp : task.kind = "agent.uninstall" → task.isCleaningUp = true → task'.isCleaningUp = true

theorem RowKeeps.refl (h : task.IsOperation) : RowKeeps task task :=
  ⟨h, rfl, rfl, rfl, fun h => h, fun _ h => h, fun _ h => h⟩

theorem UninstallMoves.rowKeeps (h : UninstallMoves task task')
    (hkind : task.kind = "agent.uninstall") (hforce : task'.forceCleanup = task.forceCleanup)
    (hparent : task'.sourceUnregisterTaskId = task.sourceUnregisterTaskId) :
    RowKeeps task task' where
  operation := ⟨h.uninstall.correlated, h.uninstall.lifecycleKind, fun _ => h.steady⟩
  kind := h.uninstall.kind.trans hkind.symm
  force := hforce
  parent := hparent
  quiet := h.quiet
  decided := fun _ => h.decided
  cleaningUp := fun _ => h.cleaningUp

theorem rowKeeps_of_quiet (h : task.IsOperation) (hkind : task.kind ≠ "agent.uninstall")
    (hsame : SameOperation task task')
    (hquiet : task.status.isActive = false → task'.status.isActive = false) :
    RowKeeps task task' where
  operation := by
    refine ⟨?_, ?_, fun h' => absurd (hsame.kind.symm.trans h') hkind⟩
    · rw [NodeTask.isLifecycleCorrelatedTask, hsame.correlationType]
      exact h.correlated
    · rw [hsame.kind]
      exact h.kind
  kind := hsame.kind
  force := by rw [NodeTask.forceCleanup, hsame.payload]; rfl
  parent := by rw [NodeTask.sourceUnregisterTaskId, hsame.payload]; rfl
  quiet := hquiet
  decided := fun h' => absurd h' hkind
  cleaningUp := fun h' => absurd h' hkind

theorem NodeTask.awaitsPurge_iff : task.awaitsPurge = true ↔ task.kind = "agent.uninstall" ∧
    task.isCleaningUp = true ∧ task.forceCleanup = false ∧ task.standsAlone = true := by
  simp [NodeTask.awaitsPurge, and_assoc]

theorem RowKeeps.standsAlone (h : RowKeeps task task') : task'.standsAlone = task.standsAlone := by
  rw [NodeTask.standsAlone, h.parent]
  rfl

/-- A row that waits for its purge was cleaned up by the write, or has waited before. -/
theorem RowKeeps.awaitsPurge (h : RowKeeps task task')
    (hclean : task.kind = "agent.uninstall" → task'.isCleaningUp = true → task.isCleaningUp = true)
    (hawaits : task'.awaitsPurge = true) : task.awaitsPurge = true := by
  rw [NodeTask.awaitsPurge_iff, h.kind, h.force, h.standsAlone] at hawaits
  obtain ⟨hkind, hcleaning, hforce, halone⟩ := hawaits
  exact NodeTask.awaitsPurge_iff.mpr ⟨hkind, hclean hkind hcleaning, hforce, halone⟩

/-! ### What writes a row -/

theorem isUpgrade_or_isUninstall (h : task.IsOperation) : task.IsUpgrade ∨ task.IsUninstall := by
  have hkind := h.kind
  simp only [isLifecycleKind, List.mem_cons, List.not_mem_nil, or_false,
    decide_eq_true_eq] at hkind
  rcases hkind with hkind | hkind
  · exact .inl ⟨h.correlated, hkind⟩
  · exact .inr ⟨h.correlated, hkind⟩

theorem NodeTask.IsUpgrade.not_uninstall (h : task.IsUpgrade) : task.kind ≠ "agent.uninstall" := by
  rw [h.kind]
  decide

theorem rowKeeps_receive (conf : Settings) (h : task.IsOperation) {frame : UplinkFrame}
    (hseal : KeepsSeal task frame) (hframe : frame.FromAgent) :
    RowKeeps task (task.receive conf frame) ∧ (task.kind = "agent.uninstall" →
      (task.receive conf frame).isCleaningUp = true → task.isCleaningUp = true) := by
  have hsame : SameOperation task (task.receive conf frame) := by
    cases frame with
    | accepted now => exact (goesOn_acceptTask task now).operation
    | progress progress downloadCapable withinGrace now =>
      exact (goesOn_handleTaskProgress h.correlated _ _ _ _).operation
    | result message now =>
      rcases isUpgrade_or_isUninstall h with hupgrade | huninstall
      · exact sameOperation_handleTaskResult hupgrade now conf message
      · rw [NodeTask.receive, huninstall.handleTaskResult]
        exact sameOperation_commitResult _ _ _ _ _ _ _
  rcases isUpgrade_or_isUninstall h with hupgrade | huninstall
  · refine ⟨rowKeeps_of_quiet h hupgrade.not_uninstall hsame fun hidle => ?_,
      fun hkind => absurd hkind hupgrade.not_uninstall⟩
    have hdecided : task.IsDecidedLifecycle :=
      ⟨h.correlated, by rw [Status.isTerminal_eq, hidle]; rfl⟩
    have hterminal : (task.receive conf frame).status.isTerminal = true :=
      (hdecided.receive_iff frame).mpr hseal
    rw [Status.isTerminal_eq] at hterminal
    simpa using hterminal
  · obtain ⟨hmoves, hclean⟩ := uninstallMoves_receive conf huninstall (h.steady huninstall.kind)
      hseal hframe
    refine ⟨hmoves.rowKeeps huninstall.kind ?_ ?_, fun _ => hclean⟩
    · rw [NodeTask.forceCleanup, hsame.payload]
      rfl
    · rw [NodeTask.sourceUnregisterTaskId, hsame.payload]
      rfl

theorem rowKeeps_write (conf : Settings) (h : task.IsOperation) {writer : Writer}
    (hcontrol : writer.isControl = true) (hw : task.write conf writer = some task') :
    RowKeeps task task' ∧ (task.kind = "agent.uninstall" →
      task'.isCleaningUp = true → task.isCleaningUp = true) := by
  have hmoves := controlMoves_write conf hcontrol hw
  rcases isUpgrade_or_isUninstall h with hupgrade | huninstall
  · exact ⟨rowKeeps_of_quiet h hupgrade.not_uninstall hmoves.operation fun hidle =>
      (hmoves.idle hidle).symm ▸ hidle, fun hkind => absurd hkind hupgrade.not_uninstall⟩
  · obtain ⟨huninstallMoves, hclean⟩ := hmoves.uninstallMoves huninstall (h.steady huninstall.kind)
    refine ⟨huninstallMoves.rowKeeps huninstall.kind ?_ ?_, fun _ => hclean⟩
    · rw [NodeTask.forceCleanup, hmoves.operation.payload]
      rfl
    · rw [NodeTask.sourceUnregisterTaskId, hmoves.operation.payload]
      rfl

theorem rowKeeps_advance (env : LifecycleSetting) (h : task.IsOperation) (view : RouteView)
    (now : Instant) :
    let task' := advanceUpgradeVerify env.conf env.parse env.stable env.gateway view task now
    RowKeeps task task' ∧ (task.kind = "agent.uninstall" → task' = task) := by
  dsimp only
  rcases isUpgrade_or_isUninstall h with hupgrade | huninstall
  · refine ⟨?_, fun hkind => absurd hkind hupgrade.not_uninstall⟩
    cases hactive : task.status.isActive with
    | false =>
      rw [advanceUpgradeVerify_idle hactive]
      exact .refl h
    | true =>
      exact rowKeeps_of_quiet h hupgrade.not_uninstall
        (advance_operation _ _ _ _ _ hupgrade hactive view).1
        fun hidle => absurd (hactive.symm.trans hidle) (by decide)
  · have hsame : advanceUpgradeVerify env.conf env.parse env.stable env.gateway view task now =
        task := by
      rw [advanceUpgradeVerify, huninstall.kind]
      rfl
    rw [hsame]
    exact ⟨.refl h, fun _ => rfl⟩

theorem rowKeeps_failStale (env : LifecycleSetting) (h : task.IsOperation) (timedOut : Bool)
    (first view last : RouteView) (now : Instant) :
    let task' := failStaleUpgradeTask env.conf env.parse env.stable env.gateway timedOut first view
      last task now
    RowKeeps task task' ∧ (task.kind = "agent.uninstall" → task' = task) := by
  dsimp only
  rcases isUpgrade_or_isUninstall h with hupgrade | huninstall
  · refine ⟨?_, fun hkind => absurd hkind hupgrade.not_uninstall⟩
    cases hactive : task.status.isActive with
    | false =>
      rw [failStaleUpgradeTask_idle hactive]
      exact .refl h
    | true =>
      refine rowKeeps_of_quiet h hupgrade.not_uninstall ?_
        fun hidle => absurd (hactive.symm.trans hidle) (by decide)
      have hadvance := (advance_operation env.conf env.parse env.stable env.gateway now hupgrade
        hactive view).1
      have hfail {started : NodeTask} (hstarted : SameOperation task started) (result : Dict)
          (error : String) : SameOperation task
            (completeTask env.conf started "failed" result error true now).task := by
        rw [(hstarted.isUpgrade hupgrade).completeTask]
        exact hstarted.trans (sameOperation_commitResult _ _ _ _ _ _ _)
      rw [failStaleUpgradeTask]
      split
      · exact .refl task
      split
      · dsimp only
        split
        · exact hadvance
        · exact hfail hadvance _ _
      · dsimp only
        split
        · exact .refl task
        · exact hfail (.refl task) _ _
  · have hsame : failStaleUpgradeTask env.conf env.parse env.stable env.gateway timedOut first view
        last task now = task := by
      rw [failStaleUpgradeTask, huninstall.kind]
      rfl
    rw [hsame]
    exact ⟨.refl h, fun _ => rfl⟩

theorem Completes.rowKeeps {complete : Bool} (h : Completes task task' complete)
    (hkind : task.kind = "agent.uninstall") : RowKeeps task task' :=
  h.moves.rowKeeps hkind h.force h.parent

/-! ## The fence -/

def LifecycleRecord.changes (row : Nat) : LifecycleRecord → Bool
  | .callback row' _ _ changed => row' = row && changed
  | _ => false

/-- How often callbacks have changed the status of a row. -/
def changeCount (records : List LifecycleRecord) (row : Nat) : Nat :=
  records.countP (LifecycleRecord.changes row)

def ReportedComplete (records : List LifecycleRecord) (row : Nat) : Prop :=
  ∃ token changed, .callback row token true changed ∈ records

def LifecycleRecord.isPurge : LifecycleRecord → Bool
  | .callback _ _ _ _ => false
  | .purge _ _ => true
  | .forcePurge _ _ => true

/-- What an advance has read is a state of the row of an uninstall. -/
structure NodeAdvance.Fits (tasks : List NodeTask) (advance : NodeAdvance) (task : NodeTask) :
    Prop where
  row : tasks[advance.row]? = some task
  kind : task.kind = "agent.uninstall"
  snapshotKind : advance.snapshot.kind = "agent.uninstall"
  force : advance.snapshot.forceCleanup = task.forceCleanup
  parent : advance.snapshot.sourceUnregisterTaskId = task.sourceUnregisterTaskId
  cleaningUp : advance.snapshot.isCleaningUp = true → task.isCleaningUp = true

/-- A purge had its evidence, with the records of before. -/
def Justified (tasks : List NodeTask) (before : List LifecycleRecord) (row newest : Nat) : Prop :=
  ∃ task, tasks[row]? = some task ∧ task.kind = "agent.uninstall" ∧ task.standsAlone = true ∧
    (task.forceCleanup = true ∨ (newest = row ∧ ReportedComplete before row))

/-- Only the newest row is active, each token has changed its row once at most, and what waits
for its purge is newest. -/
structure NodeLifecycle.Fenced (env : LifecycleSetting) (s : NodeLifecycle) : Prop where
  rows : ∀ (row : Nat) (task : NodeTask), s.tasks[row]? = some task → task.IsOperation
  newest : ∀ (row : Nat) (task : NodeTask), s.tasks[row]? = some task → task.status.isActive = true →
    row + 1 = s.tasks.length
  signed : ∀ row token complete changed, .callback row token complete changed ∈ s.records →
    env.signedRow token = some row
  changed : ∀ row, changeCount s.records row ≤ 1 ∧ (0 < changeCount s.records row →
    ∃ task, s.tasks[row]? = some task ∧ task.kind = "agent.uninstall" ∧ task.IsDecided)
  awaiting : ∀ (row : Nat) (task : NodeTask), s.tasks[row]? = some task → task.awaitsPurge = true →
    row + 1 = s.tasks.length ∧ ReportedComplete s.records row
  advances : ∀ advance ∈ s.advances, ∃ task, advance.Fits s.tasks task
  purges : ∀ before after row newest, s.records = before ++ .purge row newest :: after →
    Justified s.tasks before row newest
  forced : ∀ force triggeredBy, .forcePurge force triggeredBy ∈ s.records →
    force = true ∧ triggeredBy = none
  deleted : s.deleted = true → ∃ r ∈ s.records, r.isPurge = true

variable {row : Nat}

theorem ReportedComplete.mono {records records' : List LifecycleRecord}
    (h : ReportedComplete records row) (hsub : ∀ r ∈ records, r ∈ records') :
    ReportedComplete records' row := by
  obtain ⟨token, changed, hmem⟩ := h
  exact ⟨token, changed, hsub _ hmem⟩

variable {tasks : List NodeTask} {task₀ task : NodeTask} {row row' : Nat}

theorem getElem?_set_cases (h₀ : tasks[row]? = some task₀)
    (h : (tasks.set row task')[row']? = some task) :
    (row' = row ∧ task = task') ∨ (row' ≠ row ∧ tasks[row']? = some task) := by
  have hlt : row < tasks.length := (List.getElem?_eq_some_iff.mp h₀).1
  by_cases heq : row = row'
  · subst heq
    rw [List.getElem?_set_self hlt] at h
    exact .inl ⟨rfl, (Option.some.inj h).symm⟩
  · rw [List.getElem?_set_ne heq] at h
    exact .inr ⟨fun h' => heq h'.symm, h⟩

theorem exists_set (task' : NodeTask) (h₀ : tasks[row]? = some task₀)
    (h : tasks[row']? = some task) : ∃ t, (tasks.set row task')[row']? = some t ∧
      ((row' = row ∧ task = task₀ ∧ t = task') ∨ (row' ≠ row ∧ t = task)) := by
  have hlt : row < tasks.length := (List.getElem?_eq_some_iff.mp h₀).1
  by_cases heq : row = row'
  · subst heq
    rw [h₀] at h
    exact ⟨task', List.getElem?_set_self hlt, .inl ⟨rfl, (Option.some.inj h).symm, rfl⟩⟩
  · exact ⟨task, by rw [List.getElem?_set_ne heq]; exact h, .inr ⟨fun h' => heq h'.symm, rfl⟩⟩

theorem Justified.setRow {before : List LifecycleRecord} {row row' newest : Nat}
    (h : Justified tasks before row' newest) (h₀ : tasks[row]? = some task)
    (hkeeps : RowKeeps task task') : Justified (tasks.set row task') before row' newest := by
  obtain ⟨t, ht, hkind, halone, hor⟩ := h
  obtain ⟨t', ht', ⟨-, rfl, rfl⟩ | ⟨-, rfl⟩⟩ := exists_set task' h₀ ht
  · exact ⟨t', ht', hkeeps.kind.trans hkind, hkeeps.standsAlone.trans halone, hkeeps.force ▸ hor⟩
  · exact ⟨t', ht', hkind, halone, hor⟩

theorem NodeAdvance.Fits.setRow {advance : NodeAdvance} {t : NodeTask} (h : advance.Fits tasks t)
    (h₀ : tasks[row]? = some task) (hkeeps : RowKeeps task task') :
    ∃ t', advance.Fits (tasks.set row task') t' := by
  obtain ⟨t', ht', ⟨-, rfl, rfl⟩ | ⟨-, rfl⟩⟩ := exists_set task' h₀ h.row
  · exact ⟨t', ht', hkeeps.kind.trans h.kind, h.snapshotKind, h.force.trans hkeeps.force.symm,
      h.parent.trans hkeeps.parent.symm, fun hc => hkeeps.cleaningUp h.kind (h.cleaningUp hc)⟩
  · exact ⟨t', ht', h.kind, h.snapshotKind, h.force, h.parent, h.cleaningUp⟩

theorem split_of_not_mem {α : Type} {l extra before after : List α} {x : α}
    (h : l ++ extra = before ++ x :: after) (hx : x ∉ extra) :
    ∃ after', l = before ++ x :: after' := by
  rcases List.append_eq_append_iff.mp h with ⟨c, -, hc⟩ | ⟨c, hl, hc⟩
  · rw [hc] at hx
    exact absurd (List.mem_append_right c List.mem_cons_self) hx
  · cases c with
    | nil =>
      rw [List.nil_append] at hc
      rw [← hc] at hx
      exact absurd List.mem_cons_self hx
    | cons y c =>
      rw [List.cons_append] at hc
      obtain ⟨rfl, -⟩ := List.cons.inj hc
      exact ⟨c, hl⟩

theorem changeCount_append (records records' : List LifecycleRecord) (row : Nat) :
    changeCount (records ++ records') row = changeCount records row + changeCount records' row :=
  List.countP_append

theorem NodeLifecycle.Fenced.update (h : s.Fenced env) (h₀ : s.tasks[row]? = some task)
    (hkeeps : RowKeeps task task') (extra : List LifecycleRecord)
    (hextra : ∀ r ∈ extra, ∃ token complete changed, r = .callback row token complete changed ∧
      env.signedRow token = some row)
    (hchanged : changeCount extra row = 0 ∨ (changeCount extra row = 1 ∧ task.kind =
      "agent.uninstall" ∧ ¬ task.IsDecided ∧ task'.IsDecided))
    (hawaits : task'.awaitsPurge = true → task.awaitsPurge = true ∨ (row + 1 = s.tasks.length ∧
      ReportedComplete extra row)) :
    NodeLifecycle.Fenced env
      { s with tasks := s.tasks.set row task', records := s.records ++ extra } where
  rows := fun row' t ht => by
    rcases getElem?_set_cases h₀ ht with ⟨-, rfl⟩ | ⟨-, hold⟩
    · exact hkeeps.operation
    · exact h.rows row' t hold
  newest := fun row' t ht hactive => by
    rw [List.length_set]
    rcases getElem?_set_cases h₀ ht with ⟨rfl, rfl⟩ | ⟨-, hold⟩
    · refine h.newest row' task h₀ ?_
      by_contra hidle
      rw [hkeeps.quiet (Bool.eq_false_iff.mpr hidle)] at hactive
      cases hactive
    · exact h.newest row' t hold hactive
  signed := fun row' token complete changed hmem => by
    rcases List.mem_append.mp hmem with hold | hnew
    · exact h.signed row' token complete changed hold
    · obtain ⟨token', complete', changed', heq, hsigned⟩ := hextra _ hnew
      cases heq
      exact hsigned
  changed := fun row' => by
    obtain ⟨hle, hex⟩ := h.changed row'
    rw [changeCount_append]
    by_cases heq : row' = row
    · subst heq
      rcases hchanged with hzero | ⟨hone, hkind, hnot, hdecided⟩
      · rw [hzero, Nat.add_zero]
        refine ⟨hle, fun hpos => ?_⟩
        obtain ⟨t, ht, hkind, hdecided⟩ := hex hpos
        obtain rfl := Option.some.inj (h₀.symm.trans ht)
        obtain ⟨t', ht', ⟨-, -, rfl⟩ | ⟨hne, -⟩⟩ := exists_set task' h₀ h₀
        · exact ⟨t', ht', hkeeps.kind.trans hkind, hkeeps.decided hkind hdecided⟩
        · exact absurd rfl hne
      · have hzero : changeCount s.records row' = 0 := by
          by_contra hne
          obtain ⟨t, ht, -, hdec⟩ := hex (Nat.pos_of_ne_zero hne)
          obtain rfl := Option.some.inj (h₀.symm.trans ht)
          exact hnot hdec
        rw [hzero, hone]
        refine ⟨Nat.le_refl _, fun _ => ?_⟩
        obtain ⟨t', ht', ⟨-, -, rfl⟩ | ⟨hne, -⟩⟩ := exists_set task' h₀ h₀
        · exact ⟨t', ht', hkeeps.kind.trans hkind, hdecided⟩
        · exact absurd rfl hne
    · have hzero : changeCount extra row' = 0 := by
        rw [changeCount, List.countP_eq_zero]
        intro r hr
        obtain ⟨token, complete, changed, rfl, -⟩ := hextra r hr
        simp [LifecycleRecord.changes, Ne.symm heq]
      rw [hzero, Nat.add_zero]
      refine ⟨hle, fun hpos => ?_⟩
      obtain ⟨t, ht, hkind, hdecided⟩ := hex hpos
      obtain ⟨t', ht', ⟨heq', -⟩ | ⟨-, rfl⟩⟩ := exists_set task' h₀ ht
      · exact absurd heq' heq
      · exact ⟨t', ht', hkind, hdecided⟩
  awaiting := fun row' t ht hawait => by
    have hmono {row₀ : Nat} (hc : ReportedComplete s.records row₀) :
        ReportedComplete (s.records ++ extra) row₀ :=
      hc.mono fun _ hr => List.mem_append_left _ hr
    rw [List.length_set]
    rcases getElem?_set_cases h₀ ht with ⟨rfl, rfl⟩ | ⟨-, hold⟩
    · rcases hawaits hawait with hold | ⟨hlast, hreported⟩
      · obtain ⟨hlast, hreported⟩ := h.awaiting row' task h₀ hold
        exact ⟨hlast, hmono hreported⟩
      · exact ⟨hlast, hreported.mono fun _ hr => List.mem_append_right _ hr⟩
    · obtain ⟨hlast, hreported⟩ := h.awaiting row' t hold hawait
      exact ⟨hlast, hmono hreported⟩
  advances := fun advance hmem => by
    obtain ⟨t, hfits⟩ := h.advances advance hmem
    exact hfits.setRow h₀ hkeeps
  purges := fun before after row' newest heq => by
    obtain ⟨after', hold⟩ := split_of_not_mem heq fun hmem => by
      obtain ⟨token, complete, changed, hr, -⟩ := hextra _ hmem
      cases hr
    exact (h.purges before after' row' newest hold).setRow h₀ hkeeps
  forced := fun force triggeredBy hmem => by
    rcases List.mem_append.mp hmem with hold | hnew
    · exact h.forced force triggeredBy hold
    · obtain ⟨token, complete, changed, hr, -⟩ := hextra _ hnew
      cases hr
  deleted := fun hdeleted => by
    obtain ⟨r, hr, hpurge⟩ := h.deleted hdeleted
    exact ⟨r, List.mem_append_left _ hr, hpurge⟩

theorem NodeLifecycle.Fenced.setTask (h : s.Fenced env) (h₀ : s.tasks[row]? = some task)
    (hkeeps : RowKeeps task task')
    (hclean : task.kind = "agent.uninstall" → task'.isCleaningUp = true → task.isCleaningUp =
      true) : (s.setTask row task').Fenced env := by
  have hupdate := h.update h₀ hkeeps [] (fun r hr => by cases hr) (.inl rfl)
    fun hawaits => .inl (hkeeps.awaitsPurge hclean hawaits)
  rw [List.append_nil] at hupdate
  exact hupdate

/-- The calls of `advance_node_lifecycle` change. -/
theorem NodeLifecycle.Fenced.setAdvances (h : s.Fenced env) {advances : List NodeAdvance}
    (hfits : ∀ advance ∈ advances, ∃ task, advance.Fits s.tasks task) :
    NodeLifecycle.Fenced env { s with advances := advances } where
  rows := h.rows
  newest := h.newest
  signed := h.signed
  changed := h.changed
  awaiting := h.awaiting
  advances := hfits
  purges := h.purges
  forced := h.forced
  deleted := h.deleted

end HyperFileLens.Node
