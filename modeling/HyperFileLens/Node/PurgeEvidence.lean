import HyperFileLens.Node.LifecycleExclusive

/-!
# Purges on evidence

Runs of one Node, and what they keep as long as they are orderly.

*Orderly events.*  No frame lets an operation run again that has failed. No callback asks for the
purge of an uninstall that a newer operation has followed. No operation is started while an
uninstall waits for its purge.

*Runs.*  In an orderly run one operation is active at most, a token changes its row once at most,
and every purge has its evidence.
-/

namespace HyperFileLens.Node

open Transition

variable {env : LifecycleSetting} {s s' : NodeLifecycle} {task task' : NodeTask}

/-! ## The last row of a kind -/

variable {kind : String} {row : Nat} {tasks : List NodeTask}

theorem latestRow_spec (h : latestRow kind tasks = some (row, task)) :
    tasks[row]? = some task ∧ task.kind = kind := by
  obtain ⟨found, hfound, heq⟩ := Option.map_eq_some_iff.mp h
  have hkind := List.find?_some hfound
  have hmem := List.mem_of_find?_eq_some hfound
  cases heq
  exact ⟨List.mk_mem_zipIdx_iff_getElem?.mp (List.mem_reverse.mp hmem),
    of_decide_eq_true hkind⟩

theorem latestRow_last (h : tasks[row]? = some task) (hlast : row + 1 = tasks.length) :
    latestRow task.kind tasks = some (row, task) := by
  obtain ⟨hlt, hget⟩ := List.getElem?_eq_some_iff.mp h
  have hsplit : tasks = tasks.dropLast ++ [task] := by
    have hne : tasks ≠ [] := List.ne_nil_of_length_pos (by omega)
    have hend : tasks.getLast hne = task := by
      rw [List.getLast_eq_getElem, ← hget]
      congr 1
      omega
    rw [← hend, List.dropLast_append_getLast hne]
  have hlen : tasks.dropLast.length = row := by
    rw [List.length_dropLast]
    omega
  rw [hsplit, latestRow, List.zipIdx_append, List.reverse_append]
  simp [hlen]

/-- With no active operation at its end, a fenced list has none at all. -/
theorem NodeLifecycle.Fenced.all_idle (h : s.Fenced env)
    (hidle : hasActiveLifecycleTask s.tasks = false) (h₀ : s.tasks[row]? = some task) :
    task.status.isActive = false := by
  by_contra hactive
  have hactive : task.status.isActive = true := by simpa using hactive
  have hlatest := latestRow_last h₀ (h.newest row task h₀ hactive)
  have hkind := (h.rows row task h₀).kind
  rw [isLifecycleKind, decide_eq_true_eq] at hkind
  rw [hasActiveLifecycleTask, List.any_eq_false] at hidle
  refine hidle task.kind hkind ?_
  rw [hlatest]
  exact hactive

/-! ## Orderly events -/

/-- The report of a callback that would let an uninstall wait for its purge. -/
structure AsksPurge (task : NodeTask) (report : UninstallReport) : Prop where
  taken : task.takesReport report = true
  complete : report.effective = true
  strict : task.forceCleanup = false
  alone : task.standsAlone = true
  undecided : task.status = .success ∨ ¬ task.IsDecided

/-- An event that no gap lets do damage. -/
def Orderly (env : LifecycleSetting) (s : NodeLifecycle) : LifecycleEvent → Prop
  | .startUpgrade _ _ _ _ | .startRemove _ _ _ _ _ =>
    s.deleted = false → ∀ row ∈ latestRow "agent.uninstall" s.tasks, row.2.awaitsPurge = false
  | .frame row frame =>
    ∀ task ∈ s.tasks[row]?, KeepsSeal task frame ∧ frame.FromAgent
  | .write _ writer => writer.isControl = true
  | .callback token report _ =>
    ∀ row ∈ env.signedRow token, ∀ task ∈ s.tasks[row]?, AsksPurge task report →
      row + 1 = s.tasks.length
  | _ => True

/-! ## Steps -/

theorem isOperation_create (nodeId : Nat) (lifecycle : String) (hkind : isLifecycleKind kind = true)
    (payload : Dict) (now deadline : Time) :
    (createLifecycleTask nodeId lifecycle kind payload now deadline).IsOperation := by
  refine ⟨?_, hkind, fun _ => ⟨fun _ => rfl, fun h => ?_, fun h => ?_⟩⟩
  · simp [NodeTask.isLifecycleCorrelatedTask, createLifecycleTask]
  · cases h
  · cases h

theorem getElem?_append_cases {created : NodeTask} (h : (tasks ++ [created])[row]? = some task) :
    tasks[row]? = some task ∨ (row = tasks.length ∧ task = created) := by
  rcases Nat.lt_or_ge row tasks.length with hlt | hge
  · rw [List.getElem?_append_left hlt] at h
    exact .inl h
  · rw [List.getElem?_append_right hge, List.getElem?_singleton] at h
    split at h
    · exact .inr ⟨by omega, (Option.some.inj h).symm⟩
    · cases h

theorem getElem?_append_of_some (created : NodeTask) (h : tasks[row]? = some task) :
    (tasks ++ [created])[row]? = some task := by
  rw [List.getElem?_append_left (List.getElem?_eq_some_iff.mp h).1]
  exact h

theorem NodeLifecycle.Fenced.create (h : s.Fenced env)
    (hidle : hasActiveLifecycleTask s.tasks = false)
    (hawaits : ∀ row ∈ latestRow "agent.uninstall" s.tasks, row.2.awaitsPurge = false)
    (lifecycle : String) (hkind : isLifecycleKind kind = true) (payload : Dict)
    (now deadline : Time) :
    NodeLifecycle.Fenced env { s with
      tasks := s.tasks ++ [createLifecycleTask env.nodeId lifecycle kind payload now deadline] } where
  rows := fun row t ht => by
    rcases getElem?_append_cases ht with hold | ⟨-, rfl⟩
    · exact h.rows row t hold
    · exact isOperation_create _ _ hkind _ _ _
  newest := fun row t ht hactive => by
    rw [List.length_append, List.length_singleton]
    rcases getElem?_append_cases ht with hold | ⟨hrow, -⟩
    · exact absurd ((h.all_idle hidle hold).symm.trans hactive) (by decide)
    · omega
  signed := h.signed
  changed := fun row => by
    refine ⟨(h.changed row).1, fun hpos => ?_⟩
    obtain ⟨t, ht, hdecided⟩ := (h.changed row).2 hpos
    exact ⟨t, getElem?_append_of_some _ ht, hdecided⟩
  awaiting := fun row t ht hawait => by
    rcases getElem?_append_cases ht with hold | ⟨-, rfl⟩
    · have hlast := latestRow_last hold (h.awaiting row t hold hawait).1
      rw [(NodeTask.awaitsPurge_iff.mp hawait).1] at hlast
      exact absurd (hawait.symm.trans (hawaits _ hlast)) (by decide)
    · cases (NodeTask.awaitsPurge_iff.mp hawait).2.1
  advances := fun advance hmem => by
    obtain ⟨t, hfits⟩ := h.advances advance hmem
    exact ⟨t, getElem?_append_of_some _ hfits.row, hfits.kind, hfits.snapshotKind, hfits.force,
      hfits.parent, hfits.cleaningUp⟩
  purges := fun before after row newest heq => by
    obtain ⟨t, ht, hjustified⟩ := h.purges before after row newest heq
    exact ⟨t, getElem?_append_of_some _ ht, hjustified⟩
  forced := h.forced
  deleted := h.deleted

theorem split_append_singleton {α : Type} {l before after : List α} {x y : α}
    (h : l ++ [y] = before ++ x :: after) :
    (before = l ∧ x = y) ∨ ∃ after', l = before ++ x :: after' := by
  rcases List.append_eq_append_iff.mp h with ⟨c, hbefore, hc⟩ | ⟨c, hl, hc⟩
  · cases c with
    | nil =>
      obtain ⟨rfl, -⟩ := List.cons.inj hc
      exact .inl ⟨hbefore.trans (List.append_nil l), rfl⟩
    | cons z c =>
      obtain ⟨-, hnil⟩ := List.cons.inj hc
      cases c <;> cases hnil
  · cases c with
    | nil =>
      obtain ⟨rfl, -⟩ := List.cons.inj hc
      exact .inl ⟨(hl.trans (List.append_nil before)).symm, rfl⟩
    | cons z c =>
      obtain ⟨rfl, -⟩ := List.cons.inj hc
      exact .inr ⟨c, hl⟩

theorem NodeLifecycle.Fenced.purge (h : s.Fenced env) {r : LifecycleRecord}
    (hpurge : r.isPurge = true)
    (hjustified : ∀ row newest, r = .purge row newest → Justified s.tasks s.records row newest)
    (hforced : ∀ force triggeredBy, r = .forcePurge force triggeredBy →
      force = true ∧ triggeredBy = none) :
    NodeLifecycle.Fenced env { s with deleted := true, records := s.records ++ [r] } where
  rows := h.rows
  newest := h.newest
  signed := fun row token complete changed hmem => by
    rcases List.mem_append.mp hmem with hold | hnew
    · exact h.signed row token complete changed hold
    · rw [← List.mem_singleton.mp hnew] at hpurge
      cases hpurge
  changed := fun row => by
    have hzero : changeCount [r] row = 0 := by
      cases r with
      | callback row' token complete changed => cases hpurge
      | purge row' newest => rfl
      | forcePurge force triggeredBy => rfl
    rw [changeCount_append, hzero]
    exact h.changed row
  awaiting := fun row t ht hawait => by
    obtain ⟨hlast, hreported⟩ := h.awaiting row t ht hawait
    exact ⟨hlast, hreported.mono fun _ hr => List.mem_append_left _ hr⟩
  advances := h.advances
  purges := fun before after row newest heq => by
    rcases split_append_singleton heq with ⟨rfl, hr⟩ | ⟨after', hold⟩
    · exact hjustified row newest hr.symm
    · exact h.purges before after' row newest hold
  forced := fun force triggeredBy hmem => by
    rcases List.mem_append.mp hmem with hold | hnew
    · exact h.forced force triggeredBy hold
    · exact hforced force triggeredBy (List.mem_singleton.mp hnew).symm
  deleted := fun _ => ⟨r, List.mem_append_right _ List.mem_cons_self, hpurge⟩

theorem NodeLifecycle.Fenced.startRemove (h : s.Fenced env)
    (hidle : hasActiveLifecycleTask s.tasks = false)
    (hawaits : ∀ row ∈ latestRow "agent.uninstall" s.tasks, row.2.awaitsPurge = false)
    (checks : RemoveChecks) (request : RemoveRequest) (token : String) (now deadline : Time) :
    (s.startRemove env checks request token now deadline).Fenced env := by
  rw [NodeLifecycle.startRemove]
  split
  · exact h.create hidle hawaits "remove" (by decide) _ now deadline
  split
  · exact h
  · rename_i hforce
    simp only [Bool.or_eq_true, Bool.not_eq_true', Bool.not_eq_true, not_or,
      Bool.not_eq_false, Option.isSome_eq_false_iff, Option.isNone_iff_eq_none] at hforce
    refine h.purge rfl (fun row newest hr => by cases hr) fun force triggeredBy hr => ?_
    cases hr
    exact hforce

theorem NodeLifecycle.Fenced.report (h : s.Fenced env) (h₀ : s.tasks[row]? = some task)
    {token : String} (hsigned : env.signedRow token = some row) {report : UninstallReport}
    (horderly : AsksPurge task report → row + 1 = s.tasks.length) (now : Instant) :
    (s.report env row task token report now).Fenced env := by
  have hoperation := h.rows row task h₀
  rw [NodeLifecycle.report]
  cases htaken : task.takesReport report with
  | false =>
    have hsame : completeDetachedUninstall env.conf task report now = task := by
      rw [completeDetachedUninstall, htaken]
      rfl
    rw [hsame]
    exact h.update h₀ (.refl hoperation) [] (fun r hr => by cases hr) (.inl rfl) .inl
  | true =>
    have hkind : task.kind = "agent.uninstall" := by
      rw [NodeTask.takesReport] at htaken
      simp only [Bool.and_eq_true, decide_eq_true_eq] at htaken
      exact htaken.1.1
    have hcompletes := completes_completeDetachedUninstall env.conf (hoperation.isUninstall hkind)
      (hoperation.steady hkind) report now
    have hkeeps := hcompletes.rowKeeps hkind
    refine h.update h₀ hkeeps _ (fun r hr => ?_) ?_ fun hawaits => ?_
    · exact ⟨token, _, _, List.mem_singleton.mp hr, hsigned⟩
    · by_cases hchange : (completeDetachedUninstall env.conf task report now).status = task.status
      · left
        simp [changeCount, LifecycleRecord.changes, hchange]
      · right
        refine ⟨by simp [changeCount, LifecycleRecord.changes, hchange], hkind, fun hdecided => ?_,
          hcompletes.changed hchange⟩
        exact hchange (hcompletes.kept hdecided)
    · obtain ⟨-, hcleaning, hforce, halone⟩ := NodeTask.awaitsPurge_iff.mp hawaits
      rw [hkeeps.force] at hforce
      rw [hkeeps.standsAlone] at halone
      rcases hcompletes.cleaningUp hcleaning with hbefore | hcomplete | hforced
      · exact .inl (NodeTask.awaitsPurge_iff.mpr ⟨hkind, hbefore, hforce, halone⟩)
      · right
        refine ⟨horderly ⟨htaken, hcomplete, hforce, halone, ?_⟩, token,
          decide ((completeDetachedUninstall env.conf task report now).status ≠ task.status), ?_⟩
        · by_cases hdecided : task.IsDecided
          · left
            rw [← hcompletes.kept hdecided]
            rw [NodeTask.isCleaningUp, Bool.and_eq_true] at hcleaning
            exact of_decide_eq_true hcleaning.1
          · exact .inr hdecided
        · rw [hcomplete]
          exact List.mem_singleton.mpr rfl
      · exact absurd (hforced.symm.trans hforce) (by decide)

theorem NodeLifecycle.Fenced.failStale (h : s.Fenced env) {advance : NodeAdvance}
    (hfits : advance.Fits s.tasks task) (now : Instant) :
    (s.setTask advance.row (failStaleRemoveTask env.conf env.gateway advance.snapshot task
      now)).Fenced env := by
  have hoperation := h.rows advance.row task hfits.row
  have hcompletes := completes_failStaleRemoveTask env.conf env.gateway
    (hoperation.isUninstall hfits.kind) (hoperation.steady hfits.kind) hfits.force now
  have hkeeps := hcompletes.rowKeeps hfits.kind
  have hupdate := h.update hfits.row hkeeps [] (fun r hr => by cases hr) (.inl rfl)
    fun hawaits => by
      obtain ⟨-, hcleaning, hforce, halone⟩ := NodeTask.awaitsPurge_iff.mp hawaits
      rw [hkeeps.force] at hforce
      rw [hkeeps.standsAlone] at halone
      rcases hcompletes.cleaningUp hcleaning with hbefore | hcomplete | hforced
      · exact .inl (NodeTask.awaitsPurge_iff.mpr ⟨hfits.kind, hbefore, hforce, halone⟩)
      · exact absurd hcomplete (by decide)
      · exact absurd (hforced.symm.trans hforce) (by decide)
  rw [List.append_nil] at hupdate
  exact hupdate

theorem NodeLifecycle.Fenced.finish (h : s.Fenced env) {snapshot : NodeTask} {phase : AdvancePhase}
    (hfits : NodeAdvance.Fits s.tasks ⟨row, snapshot, phase⟩ task) (seenDeleted : Bool) :
    (s.finish row snapshot seenDeleted).Fenced env := by
  rw [NodeLifecycle.finish]
  cases hparent : snapshot.sourceUnregisterTaskId with
  | none => exact h
  | some taskId =>
    dsimp only
    split
    · exact h
    · rename_i hpurges
      simp only [Bool.or_eq_true, Bool.not_eq_true', decide_eq_true_eq, not_or,
        Bool.not_eq_false, Bool.not_eq_true] at hpurges
      obtain ⟨⟨hcleaning, htaskId⟩, -⟩ := hpurges
      refine h.purge rfl (fun row' newest hr => ?_) fun force triggeredBy hr => by cases hr
      cases hr
      have halone : task.standsAlone = true := by
        rw [NodeTask.standsAlone, ← hfits.parent, hparent]
        simpa using htaskId
      refine ⟨task, hfits.row, hfits.kind, halone, ?_⟩
      cases hforce : task.forceCleanup with
      | true => exact .inl rfl
      | false =>
        obtain ⟨hlast, hreported⟩ := h.awaiting row task hfits.row
          (NodeTask.awaitsPurge_iff.mpr ⟨hfits.kind, hfits.cleaningUp hcleaning, hforce,
            halone⟩)
        exact .inr ⟨by omega, hreported⟩

theorem NodeLifecycle.Fenced.step (h : s.Fenced env) {event : LifecycleEvent}
    (horderly : Orderly env s event) (hs : s.step env event = some s') : s'.Fenced env := by
  cases event with
  | startUpgrade allowed payload now deadline =>
    rw [NodeLifecycle.step] at hs
    split at hs
    · exact Option.some.inj hs ▸ h
    · rename_i hadmitted
      simp only [Bool.or_eq_true, not_or, Bool.not_eq_true] at hadmitted
      obtain ⟨⟨hdeleted, -⟩, hidle⟩ := hadmitted
      cases hs
      exact h.create hidle (horderly hdeleted) "upgrade" (by decide) payload now deadline
  | startRemove checks request token now deadline =>
    rw [NodeLifecycle.step] at hs
    split at hs
    · exact Option.some.inj hs ▸ h
    · rename_i hadmitted
      simp only [Bool.or_eq_true, not_or, Bool.not_eq_true] at hadmitted
      obtain ⟨⟨⟨hdeleted, -⟩, hidle⟩, -⟩ := hadmitted
      cases hs
      exact h.startRemove hidle (horderly hdeleted) checks request token now deadline
  | frame row frame =>
    obtain ⟨task, h₀, rfl⟩ := Option.map_eq_some_iff.mp hs
    obtain ⟨hseal, hagent⟩ := horderly task h₀
    obtain ⟨hkeeps, hclean⟩ := rowKeeps_receive env.conf (h.rows row task h₀) hseal hagent
    exact h.setTask h₀ hkeeps hclean
  | write row writer =>
    obtain ⟨task, h₀, hwrite⟩ := Option.bind_eq_some_iff.mp hs
    obtain ⟨task', hw, rfl⟩ := Option.map_eq_some_iff.mp hwrite
    obtain ⟨hkeeps, hclean⟩ := rowKeeps_write env.conf (h.rows row task h₀) horderly hw
    exact h.setTask h₀ hkeeps hclean
  | callback token report now =>
    cases hsigned : env.signedRow token with
    | none =>
      rw [NodeLifecycle.step, hsigned] at hs
      exact Option.some.inj hs ▸ h
    | some row =>
      rw [NodeLifecycle.step, hsigned] at hs
      obtain ⟨task, h₀, rfl⟩ := Option.map_eq_some_iff.mp hs
      exact h.report h₀ hsigned (horderly row hsigned task h₀) now
  | verifyUpgrade row view now =>
    obtain ⟨task, h₀, rfl⟩ := Option.map_eq_some_iff.mp hs
    obtain ⟨hkeeps, hsame⟩ := rowKeeps_advance env (h.rows row task h₀) view now
    exact h.setTask h₀ hkeeps fun hkind hclean => hsame hkind ▸ hclean
  | staleUpgrade row timedOut first view last now =>
    obtain ⟨task, h₀, rfl⟩ := Option.map_eq_some_iff.mp hs
    obtain ⟨hkeeps, hsame⟩ := rowKeeps_failStale env (h.rows row task h₀) timedOut first
      view last now
    exact h.setTask h₀ hkeeps fun hkind hclean => hsame hkind ▸ hclean
  | read =>
    cases hlatest : latestRow "agent.uninstall" s.tasks with
    | none =>
      rw [NodeLifecycle.step, hlatest] at hs
      exact Option.some.inj hs ▸ h
    | some found =>
      obtain ⟨row, task⟩ := found
      rw [NodeLifecycle.step, hlatest] at hs
      cases hs
      obtain ⟨h₀, hkind⟩ := latestRow_spec hlatest
      refine h.setAdvances fun advance hmem => ?_
      rcases List.mem_append.mp hmem with hold | hnew
      · exact h.advances advance hold
      · rw [List.mem_singleton.mp hnew]
        exact ⟨task, h₀, hkind, hkind, rfl, rfl, id⟩
  | failStale n timedOut now =>
    obtain ⟨advance, hadvance, hrest⟩ := Option.bind_eq_some_iff.mp hs
    obtain ⟨task, hfits⟩ := h.advances advance (List.mem_of_getElem? hadvance)
    split at hrest
    · cases hrest
    split at hrest
    · obtain ⟨task₀, h₀, rfl⟩ := Option.map_eq_some_iff.mp hrest
      obtain rfl := Option.some.inj (hfits.row.symm.trans h₀)
      have hended := h.failStale hfits now
      refine hended.setAdvances fun advance' hmem => ?_
      rcases List.mem_or_eq_of_mem_set hmem with hold | rfl
      · exact hended.advances advance' hold
      · obtain ⟨t, ht⟩ := hended.advances advance (List.mem_of_getElem? hadvance)
        exact ⟨t, ht.row, ht.kind, ht.snapshotKind, ht.force, ht.parent, ht.cleaningUp⟩
    · cases hrest
      refine h.setAdvances fun advance' hmem => ?_
      rcases List.mem_or_eq_of_mem_set hmem with hold | rfl
      · exact h.advances advance' hold
      · exact ⟨task, hfits.row, hfits.kind, hfits.snapshotKind, hfits.force, hfits.parent,
          hfits.cleaningUp⟩
  | refresh n =>
    obtain ⟨advance, hadvance, hrest⟩ := Option.bind_eq_some_iff.mp hs
    obtain ⟨task, hfits⟩ := h.advances advance (List.mem_of_getElem? hadvance)
    split at hrest
    · cases hrest
    obtain ⟨task₀, h₀, rfl⟩ := Option.map_eq_some_iff.mp hrest
    obtain rfl := Option.some.inj (hfits.row.symm.trans h₀)
    refine h.setAdvances fun advance' hmem => ?_
    rcases List.mem_or_eq_of_mem_set hmem with hold | rfl
    · exact h.advances advance' hold
    · exact ⟨task, h₀, hfits.kind, hfits.kind, rfl, rfl, id⟩
  | finish n seenDeleted =>
    obtain ⟨⟨row, snapshot, phase⟩, hadvance, hrest⟩ := Option.bind_eq_some_iff.mp hs
    obtain ⟨task, hfits⟩ := h.advances _ (List.mem_of_getElem? hadvance)
    split at hrest
    · cases hrest
    cases hrest
    have hleft : NodeLifecycle.Fenced env { s with advances := s.advances.eraseIdx n } :=
      h.setAdvances fun advance' hmem => h.advances advance' (List.mem_of_mem_eraseIdx hmem)
    exact hleft.finish hfits seenDeleted

theorem NodeLifecycle.Begins.fenced (h : s.Begins) : s.Fenced env := by
  obtain ⟨htasks, hdeleted, hadvances, hrecords⟩ := h
  refine ⟨fun row t ht => ?_, fun row t ht => ?_, fun row token complete changed hmem => ?_,
    fun row => ?_, fun row t ht => ?_, fun advance hmem => ?_, fun before after row newest heq => ?_,
    fun force triggeredBy hmem => ?_, fun h => absurd (h.symm.trans hdeleted) (by decide)⟩
  · simp [htasks] at ht
  · simp [htasks] at ht
  · simp [hrecords] at hmem
  · simp [hrecords, changeCount]
  · simp [htasks] at ht
  · simp [hadvances] at hmem
  · simp [hrecords] at heq
  · simp [hrecords] at hmem

theorem lifecycleFenced_of_reachable (h : (lifecycleSystem env).ReachableUnder (Orderly env) s) :
    s.Fenced env :=
  h.invariant (fun _ => NodeLifecycle.Begins.fenced) fun _ _ _ hfenced horderly hs =>
    hfenced.step horderly hs

/-! ## Purges -/

def NodeLifecycle.Exclusive (s : NodeLifecycle) : Prop :=
  ∀ (row row' : Nat) (task task' : NodeTask), s.tasks[row]? = some task →
    s.tasks[row']? = some task' → task.status.isActive = true → task'.status.isActive = true →
      row = row'

def LifecycleRecord.changesWith (token : String) : LifecycleRecord → Bool
  | .callback _ token' _ changed => token' = token && changed
  | _ => false

structure NodeLifecycle.PurgesOnEvidence (s : NodeLifecycle) : Prop where
  recorded : s.deleted = true → ∃ r ∈ s.records, r.isPurge = true
  /-- An uninstall that stands alone, and that was forced or is the newest operation and was
  reported to be complete. -/
  advanced : ∀ before after row newest, s.records = before ++ .purge row newest :: after →
    Justified s.tasks before row newest
  /-- Without an uninstall, force was requested, and for no deregistration. -/
  direct : ∀ force triggeredBy, .forcePurge force triggeredBy ∈ s.records →
    force = true ∧ triggeredBy = none

theorem countP_changesWith_le (h : s.Fenced env) (token : String) :
    s.records.countP (LifecycleRecord.changesWith token) ≤ 1 := by
  cases hsigned : env.signedRow token with
  | none =>
    have hzero : s.records.countP (LifecycleRecord.changesWith token) = 0 := by
      rw [List.countP_eq_zero]
      intro r hr hchanges
      cases r with
      | callback row token' complete changed =>
        rw [LifecycleRecord.changesWith, Bool.and_eq_true, decide_eq_true_eq] at hchanges
        have hrow := h.signed row token' complete changed hr
        rw [hchanges.1, hsigned] at hrow
        cases hrow
      | purge row newest => cases hchanges
      | forcePurge force triggeredBy => cases hchanges
    omega
  | some row =>
    refine Nat.le_trans ?_ (h.changed row).1
    refine List.countP_mono_left fun r hr hchanges => ?_
    cases r with
    | callback row' token' complete changed =>
      rw [LifecycleRecord.changesWith, Bool.and_eq_true, decide_eq_true_eq] at hchanges
      have hrow := h.signed row' token' complete changed hr
      rw [hchanges.1, hsigned] at hrow
      rw [LifecycleRecord.changes, Bool.and_eq_true, decide_eq_true_eq]
      exact ⟨(Option.some.inj hrow).symm, hchanges.2⟩
    | purge row' newest => cases hchanges
    | forcePurge force triggeredBy => cases hchanges

/-- In an orderly run one operation is active at most, a token changes its row once at most, and
the Node is purged on evidence only. -/
theorem lifecycle_exclusive_purges_on_evidence
    (h : (lifecycleSystem env).ReachableUnder (Orderly env) s) :
    s.Exclusive ∧
      (∀ token, s.records.countP (LifecycleRecord.changesWith token) ≤ 1) ∧
      s.PurgesOnEvidence := by
  have hfenced := lifecycleFenced_of_reachable h
  refine ⟨fun row row' task task' h₀ h₀' hactive hactive' => ?_, countP_changesWith_le hfenced,
    hfenced.deleted, hfenced.purges, hfenced.forced⟩
  have hlast := hfenced.newest row task h₀ hactive
  have hlast' := hfenced.newest row' task' h₀' hactive'
  omega

/-- A Node whose tokens name its first row. -/
def firstRowSetting : LifecycleSetting where
  nodeId := 7
  conf := {}
  parse := fun _ => none
  stable := 8
  gateway := false
  signedRow := fun _ => some 0
  digest := id
  maxAge := 3600

def emptyLifecycle : NodeLifecycle := ⟨[], false, [], []⟩

def startStrict : LifecycleEvent :=
  .startRemove ⟨true, true, true, true⟩ ⟨false, false, none, 0⟩ "t0" 0 60

def completeCallback : LifecycleEvent :=
  .callback "t0" ⟨"t0", true, [], []⟩ (secondsAt 5 "1970-01-01T00:00:05+00:00")

/-- An advance over the uninstall that it reads, before its callback is overdue. -/
def advanceEvents : List LifecycleEvent :=
  [.read, .failStale 0 false (secondsAt 6 "1970-01-01T00:00:06+00:00"), .finish 0 false]

def resultFrame (status : String) : LifecycleEvent :=
  .frame 0 (.result ⟨status, [], ""⟩ (secondsAt 3 "1970-01-01T00:00:03+00:00"))

theorem begins_emptyLifecycle : emptyLifecycle.Begins := ⟨rfl, rfl, rfl, rfl⟩

/-- An uninstall that is purged once its callback has reported. -/
def purgedLifecycle : NodeLifecycle :=
  ((lifecycleSystem firstRowSetting).exec emptyLifecycle
    (startStrict :: completeCallback :: advanceEvents)).get (by decide +kernel)

theorem reachable_purgedLifecycle :
    (lifecycleSystem firstRowSetting).ReachableUnder (Orderly firstRowSetting)
      purgedLifecycle := by
  refine (System.ReachableUnder.start begins_emptyLifecycle).of_exec ?_ (Option.some_get _).symm
  refine ⟨(fun _ row hrow => by cases hrow), (fun row hrow task _ _ => ?_), trivial, trivial,
    trivial, trivial⟩
  cases hrow
  rfl

theorem lifecycle_exclusive_purges_on_evidence_purged : purgedLifecycle.deleted = true ∧
    purgedLifecycle.Exclusive ∧
      (∀ token, purgedLifecycle.records.countP (LifecycleRecord.changesWith token) ≤ 1) ∧
      purgedLifecycle.PurgesOnEvidence :=
  ⟨by decide +kernel, lifecycle_exclusive_purges_on_evidence reachable_purgedLifecycle⟩

/-- A failed uninstall that runs again under an upgrade. -/
def revivedLifecycle : NodeLifecycle :=
  ((lifecycleSystem firstRowSetting).exec emptyLifecycle
    [startStrict, resultFrame "failed", .startUpgrade true [] 4 60, resultFrame "running"]).get
      (by decide +kernel)

/-- A failed uninstall whose late callback purges under an upgrade. -/
def overtakenLifecycle : NodeLifecycle :=
  ((lifecycleSystem firstRowSetting).exec emptyLifecycle
    ([startStrict, resultFrame "failed", .startUpgrade true [] 4 60, completeCallback] ++
      advanceEvents)).get (by decide +kernel)

/-- A failed uninstall can run besides an upgrade, and a strict uninstall can purge under a newer
upgrade. -/
theorem not_lifecycle_exclusive_purges_on_evidence :
    ((lifecycleSystem firstRowSetting).Reachable revivedLifecycle ∧
      ¬ revivedLifecycle.Exclusive) ∧
    ((lifecycleSystem firstRowSetting).Reachable overtakenLifecycle ∧
      overtakenLifecycle.deleted = true ∧ ¬ overtakenLifecycle.PurgesOnEvidence) := by
  refine ⟨⟨.of_exec begins_emptyLifecycle (Option.some_get _).symm, fun h => ?_⟩,
    .of_exec begins_emptyLifecycle (Option.some_get _).symm, by decide +kernel, fun h => ?_⟩
  · have hrows : revivedLifecycle.tasks.map (·.status.isActive) = [true, true] := by
      decide +kernel
    obtain ⟨task, rest, htasks, hactive, hrest⟩ := List.map_eq_cons_iff.mp hrows
    obtain ⟨task', rest', rfl, hactive', -⟩ := List.map_eq_cons_iff.mp hrest
    have hrow := h 0 1 task task' (by rw [htasks]; rfl) (by rw [htasks]; rfl) hactive hactive'
    cases hrow
  · have hrecords : overtakenLifecycle.records =
        [.callback 0 "t0" true true] ++ .purge 0 1 :: [] := by decide +kernel
    obtain ⟨task, htask, -, -, hforce | ⟨hnewest, -⟩⟩ := h.advanced _ _ _ _ hrecords
    · have hstrict : overtakenLifecycle.tasks[0]?.all (!·.forceCleanup) = true := by
        decide +kernel
      rw [htask, Option.all_some, hforce] at hstrict
      cases hstrict
    · cases hnewest

end HyperFileLens.Node
