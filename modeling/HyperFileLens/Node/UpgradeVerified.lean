import HyperFileLens.Library.Transition
import HyperFileLens.Node.UpgradeEvidence

/-!
# Upgrades that succeed

The run of a detached upgrade, and what is known when it succeeds.

*Run.*  The row, the route of the Agent, and the calls that have passed the check of the route
and have not begun their transaction. The check and the transaction are apart, so a call may
come late, after the route has changed. A result frame does both in one transaction.

*History.*  A run keeps what its row was told, as far as the row records it.

*Honesty.*  The evidence of the row is always the one of its history (`Honest`). So a
verification that succeeds has it all (`upgrade_verified`).
-/

namespace HyperFileLens.Node

open Transition

/-! ## The run -/

/-- A call that has passed the check of the route. -/
inductive UpgradeCall where
  | observe (session : String) (inventory : Option Dict)
  | disconnect
deriving DecidableEq

structure UpgradeRun where
  task : NodeTask
  route : Option String
  pending : List UpgradeCall
  records : List UpgradeRecord

inductive UpgradeEvent where
  | connect (session : String)
  /-- The lease of the route is over. -/
  | expire
  | disconnect (session : String)
  /-- `_record_upgrade_session` up to its call. -/
  | observe (session : String) (inventory : Option Dict)
  | call (n : Nat) (now : Instant)
  /-- A call is lost. -/
  | drop (n : Nat)
  | accept (now : Instant)
  | progress (progress : Dict) (downloadCapable withinGrace : Bool) (now : Instant)
  | result (session : Option String) (message : ResultFrame) (now : Instant)
  | advance (routable online : Bool) (now : Instant)
  | stale (timedOut : Bool) (first last : RouteView) (routable online : Bool) (now : Instant)

/-! ### What is recorded -/

def observationRecords (task : NodeTask) (sessionId : String) (inventory : Option Dict) :
    List UpgradeRecord :=
  let session := Text.strip sessionId
  if task.observes session && task.baseline ≠ session &&
      inventory.all (fun inventory => (iterated (inventory.get "capabilities")).isSome) then
    .session session :: (inventory.map (UpgradeRecord.inventory session)).toList
  else []

def disconnectRecords (task : NodeTask) : List UpgradeRecord :=
  if task.isRunningUpgrade && task.isDetachedLifecycleTask then [.disconnect] else []

def hostRecords (task : NodeTask) (message : ResultFrame) : List UpgradeRecord :=
  if task.status.isActive then (message.hostReport.map UpgradeRecord.host).toList else []

def clockRecords (parse : String → Option Time) (gateway : Bool) (view : RouteView)
    (task : NodeTask) (now : Instant) : List UpgradeRecord :=
  if task.status.isActive && upgradeVerifyReady gateway view task &&
      (verifyStartedAt parse task.result).isNone then
    [.clock now.time]
  else []

/-- `_fail_stale_upgrade_task` tries a verification. -/
def triesVerification (gateway timedOut : Bool) (first : RouteView) (task : NodeTask) : Bool :=
  task.status.isActive && task.isDetachedLifecycleTask && timedOut && task.targetVersion ≠ "" &&
    upgradeVerifyReady gateway first task

/-! ### Steps -/

namespace UpgradeRun

def observed (s : UpgradeRun) (session : String) (inventory : Option Dict) (now : Instant) :
    UpgradeRun :=
  { s with
    task := (recordUpgradeSessionObservation s.task session inventory now).getD s.task
    records := s.records ++ observationRecords s.task session inventory }

def called (s : UpgradeRun) (now : Instant) : UpgradeCall → UpgradeRun
  | .observe session inventory => s.observed session inventory now
  | .disconnect =>
    { s with
      task := recordUpgradeDisconnect s.task now
      records := s.records ++ disconnectRecords s.task }

section

variable (conf : Settings) (parse : String → Option Time) (stable : Int) (gateway : Bool)

def step (s : UpgradeRun) : UpgradeEvent → UpgradeRun
  | .connect session => { s with route := some session }
  | .expire => { s with route := none }
  | .disconnect session =>
    if s.route = some session then
      { s with route := none, pending := s.pending ++ [.disconnect] }
    else s
  | .observe session inventory =>
    if s.route = some session then
      { s with pending := s.pending ++ [.observe session inventory] }
    else s
  | .call n now =>
    match s.pending[n]? with
    | none => s
    | some call => { s with pending := s.pending.eraseIdx n }.called now call
  | .drop n => { s with pending := s.pending.eraseIdx n }
  | .accept now => { s with task := acceptTask conf s.task now }
  | .progress progress downloadCapable withinGrace now =>
    { s with
      task := handleTaskProgress conf s.task progress downloadCapable withinGrace now }
  | .result session message now =>
    let s' : UpgradeRun := { s with
      task := (handleTaskResult conf s.task message now).task
      records := s.records ++ hostRecords s.task message }
    match session with
    | none => s'
    | some session => if s.route = some session then s'.observed session none now else s'
  | .advance routable online now =>
    let view := ⟨s.route, routable, online⟩
    { s with
      task := advanceUpgradeVerify conf parse stable gateway view s.task now
      records := s.records ++ clockRecords parse gateway view s.task now }
  | .stale timedOut first last routable online now =>
    let view := ⟨s.route, routable, online⟩
    { s with
      task := failStaleUpgradeTask conf parse stable gateway timedOut first view last s.task now
      records := s.records ++
        if triesVerification gateway timedOut first s.task then
          clockRecords parse gateway view s.task now
        else [] }

end

end UpgradeRun

/-- An upgrade that has just detached. Nothing is known yet. -/
structure UpgradeRun.Begins (s : UpgradeRun) : Prop where
  upgrade : s.task.IsUpgrade
  active : s.task.status.isActive = true
  keyed : s.task.result.Keyed
  detached : isDetachedMode s.task.result = true
  blank : Blank s.task.result
  host : hostSucceeded s.task.result = false
  records : s.records = []

def upgradeSystem (conf : Settings) (parse : String → Option Time) (stable : Int)
    (gateway : Bool) : System UpgradeRun UpgradeEvent where
  init := UpgradeRun.Begins
  step s event := some (s.step conf parse stable gateway event)

def Instant.ReadBack (parse : String → Option Time) (now : Instant) : Prop :=
  now.iso ≠ "" ∧ parse now.iso = some now.time

/-- Frames are those of an Agent, and the texts of moments are read back. -/
def Considered (parse : String → Option Time) (_ : UpgradeRun) : UpgradeEvent → Prop
  | .result _ message _ => AgentResult message
  | .advance _ _ now => now.ReadBack parse
  | .stale _ _ _ _ _ now => now.ReadBack parse
  | _ => True

/-! ## Honesty -/

variable {conf : Settings} {parse : String → Option Time} {stable : Int} {gateway : Bool}
  {task task' : NodeTask} {w : UpgradeWatch} {now : Instant}

/-- The session that the Agent had when the command was sent. -/
def NodeTask.sessionBefore (task : NodeTask) : String :=
  stripped (task.payload.get "pre_upgrade_session_id")

/-- A row tells what a watch knows. -/
structure Honest (parse : String → Option Time) (task : NodeTask) (w : UpgradeWatch) : Prop where
  upgrade : task.IsUpgrade
  keyed : task.result.Keyed
  host : hostSucceeded task.result = true → w.host = some true
  evidence : (isDetachedMode task.result = true ∧ Evidence parse task.sessionBefore task.result w) ∨
    (task.status = .canceled ∧ Blank task.result)
  sealed : task.status = .success → task.hasFlag "lifecycle_terminal_sealed" = true

variable {r' : Dict} {w' : UpgradeWatch}

variable {r : Dict} {view : RouteView}

theorem SameOperation.sessionBefore (h : SameOperation task task') :
    task'.sessionBefore = task.sessionBefore := by
  rw [NodeTask.sessionBefore, h.payload]
  rfl

theorem UpgradeRun.Begins.honest {s : UpgradeRun} (h : s.Begins) :
    Honest parse s.task (watch s.records) where
  upgrade := h.upgrade
  keyed := h.keyed
  host := fun hhost => absurd (h.host.symm.trans hhost) Bool.false_ne_true
  evidence := by
    rw [h.records]
    refine .inl ⟨h.detached, .inl (h.blank _ (by decide)), h.blank _ (by decide), ?_,
      fun _ => h.blank _ (by decide), ?_, .inl (h.blank _ (by decide))⟩
    · exact fun s hs => (by cases hs)
    · exact fun known hknown => (by cases hknown)
  sealed := fun hstatus => by
    have hactive := h.active
    rw [hstatus] at hactive
    cases hactive

theorem Honest.goesOn (h : Honest parse task w) (hgoes : GoesOn task task') :
    Honest parse task' w := by
  cases hactive : task.status.isActive with
  | false =>
    rw [hgoes.idle hactive]
    exact h
  | true =>
    have hnot (status : Status) (hidle : status.isActive = false) : task'.status ≠ status := by
      intro heq
      rcases hgoes.status with hst | hst
      · rw [← heq, hst, hactive] at hidle
        cases hidle
      · rw [← heq, hst] at hidle
        cases hidle
    refine ⟨hgoes.operation.isUpgrade h.upgrade, hgoes.beside.keyed h.keyed, ?_, ?_,
      fun hst => absurd hst (hnot _ rfl)⟩
    · rw [hgoes.beside.hostSucceeded]
      exact h.host
    · rcases h.evidence with ⟨hdetached, hevidence⟩ | ⟨hcanceled, -⟩
      · rw [hgoes.operation.sessionBefore]
        exact .inl ⟨hgoes.beside.detached hdetached,
          hevidence.sameAt (hgoes.beside.same.mono fun _ => List.mem_cons_of_mem _)⟩
      · rw [hcanceled] at hactive
        cases hactive

theorem Honest.result (h : Honest parse task w) {message : ResultFrame}
    (hframe : AgentResult message) :
    Honest parse (handleTaskResult conf task message now).task
      ((hostRecords task message).foldl UpgradeWatch.step w) := by
  by_cases hsuccess : task.status = .success
  · rw [handleTaskResult_sealed h.upgrade hsuccess (h.sealed hsuccess), hostRecords, hsuccess]
    exact h
  have hdetached : isDetachedMode task.result = true ∨ task.status = .canceled :=
    h.evidence.imp And.left And.left
  have hoperation := sameOperation_handleTaskResult h.upgrade now conf message
  have hkept := evidenceKept_handleTaskResult h.upgrade h.keyed hframe now conf
  have hnot := status_handleTaskResult_ne_success h.upgrade h.keyed hframe now conf
    hdetached hsuccess
  -- The records are of the host only, so the session and the inventory stay known.
  have hwatch : ∀ {r : Dict}, Evidence parse task.sessionBefore r w →
      Evidence parse task.sessionBefore r ((hostRecords task message).foldl UpgradeWatch.step w) := by
    intro r hevidence
    rw [hostRecords]
    split
    · cases message.hostReport with
      | none => exact hevidence
      | some ok => exact hevidence.host ok
    · exact hevidence
  refine ⟨hoperation.isUpgrade h.upgrade, ?_, fun hhost => ?_, ?_, fun hst => absurd hst hnot⟩
  · rcases hkept with hcarries | ⟨-, hkeyed, -⟩
    · exact hcarries.keyed
    · exact hkeyed
  · rcases hostSucceeded_handleTaskResult h.upgrade h.keyed hframe now hdetached hsuccess hhost with
      ⟨hold, hnone⟩ | ⟨hactive, hreport⟩
    · have hrecords : hostRecords task message = [] := by
        rw [hostRecords]
        split
        · rename_i hactive
          rw [hnone hactive]
          rfl
        · rfl
      rw [hrecords]
      exact h.host hold
    · rw [hostRecords, if_pos hactive, hreport]
      rfl
  · rw [hoperation.sessionBefore]
    rcases hkept with hcarries | ⟨hcanceled, -, hblank⟩
    · rcases h.evidence with ⟨hdet, hevidence⟩ | ⟨hcanceled, hblank⟩
      · exact .inl ⟨hcarries.detached hdet, hwatch (hevidence.sameAt hcarries.same)⟩
      · exact .inr ⟨status_handleTaskResult_canceled h.upgrade now hcanceled message,
          fun k hk => (hcarries.same k hk).trans (hblank k hk)⟩
    · exact .inr ⟨hcanceled, hblank⟩

structure Noted (r r' : Dict) : Prop where
  same : SameAt ["host_upgrade_status", "mode"] r r'
  keyed : r.Keyed → r'.Keyed

namespace Noted

variable {r r' r'' : Dict}

variable {k : String}

theorem refl (r : Dict) : Noted r r := ⟨.refl _ r, fun h => h⟩

theorem trans (h : Noted r r') (h' : Noted r' r'') : Noted r r'' :=
  ⟨h.same.trans h'.same, fun hr => h'.keyed (h.keyed hr)⟩

theorem set (h : Noted r r') (hk : k ∉ ["host_upgrade_status", "mode"]) (v : Json) :
    Noted r (r'.set k v) := ⟨h.same.set hk v, fun hr => (h.keyed hr).set k v⟩

theorem pop (h : Noted r r') (hk : k ∉ ["host_upgrade_status", "mode"]) : Noted r (r'.pop k) :=
  ⟨h.same.pop hk, fun hr => (h.keyed hr).pop k⟩

end Noted

theorem noted_keepBaseline (task : NodeTask) (now : Instant) :
    Noted task.result (keepBaseline task now) := by
  rw [keepBaseline]
  split
  · exact .refl _
  · exact ((Noted.refl _).set (by decide) _).set (by decide) _

theorem noted_observeSession (r : Dict) (session : String) (now : Instant) :
    Noted r (observeSession r session now) := by
  rw [observeSession]
  split
  · exact .refl _
  · exact (((Noted.refl _).set (by decide) _).set (by decide) _).pop (by decide)

theorem noted_observeInventory {session : String} {inventory : Dict}
    (h : observeInventory r session inventory now = some r') : Noted r r' := by
  obtain ⟨capabilities, -, rfl⟩ := Option.map_eq_some_iff.mp h
  dsimp only
  split
  · exact .refl _
  · exact ((((((Noted.refl _).set (by decide) _).set (by decide) _).set (by decide) _).set
      (by decide) _).set (by decide) _).pop (by decide)

theorem Honest.write (h : Honest parse task w) (hactive : task.status.isActive = true)
    (hnoted : Noted task.result r') (hevidence : Evidence parse task.sessionBefore task.result w →
      Evidence parse task.sessionBefore r' w') (hhost : w'.host = w.host) :
    Honest parse { task with result := r' } w' where
  upgrade := ⟨h.upgrade.correlated, h.upgrade.kind⟩
  keyed := hnoted.keyed h.keyed
  host := fun hsucceeded => by
    rw [hhost]
    refine h.host ?_
    rw [hostSucceeded, ← hnoted.same "host_upgrade_status" (by decide)]
    exact hsucceeded
  evidence := by
    rcases h.evidence with ⟨hdetached, hold⟩ | ⟨hcanceled, -⟩
    · refine .inl ⟨?_, hevidence hold⟩
      rw [isDetachedMode, hnoted.same "mode" (by decide)]
      exact hdetached
    · rw [hcanceled] at hactive
      cases hactive
  sealed := fun hstatus => by
    have hst : task.status = .success := hstatus
    rw [hst] at hactive
    cases hactive

theorem NodeTask.isRunningUpgrade_active (h : task.isRunningUpgrade = true) :
    task.status.isActive = true := by
  rw [NodeTask.isRunningUpgrade, Bool.and_eq_true] at h
  exact h.2

theorem Honest.disconnect (h : Honest parse task w) :
    Honest parse (recordUpgradeDisconnect task now)
      ((disconnectRecords task).foldl UpgradeWatch.step w) := by
  rw [recordUpgradeDisconnect, disconnectRecords]
  split
  · rename_i hrunning
    rw [Bool.and_eq_true] at hrunning
    refine h.write (NodeTask.isRunningUpgrade_active hrunning.1)
      (((Noted.refl _).set (by decide) _).pop (by decide)) (fun hevidence => ?_) rfl
    exact hevidence.withClock (((SameAt.refl _ _).set (by decide) _).pop (by decide)) rfl rfl
      (.inl (Dict.get_pop_self _ _))
  · exact h

theorem observation_cases (task : NodeTask) (sessionId : String) (inventory : Option Dict)
    (now : Instant) :
    let session := Text.strip sessionId
    let task' := (recordUpgradeSessionObservation task sessionId inventory now).getD task
    let records := observationRecords task sessionId inventory
    (task' = task ∧ records = []) ∨
    (task.observes session = true ∧
      ((task' = { task with result := keepBaseline task now } ∧ records = []) ∨
      (task.baseline ≠ session ∧
        ((task' = { task with result := observeSession (keepBaseline task now) session now } ∧
            records = [.session session]) ∨
          ∃ inventory' r', observeInventory (observeSession (keepBaseline task now) session now)
              session inventory' now = some r' ∧ task' = { task with result := r' } ∧
            records = [.session session, .inventory session inventory'])))) := by
  dsimp only
  rw [recordUpgradeSessionObservation, observationRecords]
  dsimp only
  cases hobserves : task.observes (Text.strip sessionId) with
  | false => exact .inl ⟨rfl, rfl⟩
  | true =>
    rw [if_neg (by simp)]
    by_cases hold : task.baseline = Text.strip sessionId
    · rw [if_pos hold, if_neg (by simp [hold])]
      exact .inr ⟨rfl, .inl ⟨rfl, rfl⟩⟩
    rw [if_neg hold, decide_eq_true hold]
    cases inventory with
    | none => exact .inr ⟨rfl, .inr ⟨hold, .inl ⟨rfl, rfl⟩⟩⟩
    | some inventory =>
      rw [Option.all_some]
      cases hcaps : iterated (inventory.get "capabilities") with
      | none =>
        have hnone : observeInventory (observeSession (keepBaseline task now)
            (Text.strip sessionId) now) (Text.strip sessionId) inventory now = none := by
          rw [observeInventory, mergedCapabilities, hcaps]
          rfl
        dsimp only
        rw [hnone]
        exact .inl ⟨rfl, rfl⟩
      | some values =>
        obtain ⟨r', hr'⟩ : ∃ r', observeInventory (observeSession (keepBaseline task now)
            (Text.strip sessionId) now) (Text.strip sessionId) inventory now = some r' := by
          rw [observeInventory, mergedCapabilities, hcaps]
          exact ⟨_, rfl⟩
        dsimp only
        rw [hr']
        exact .inr ⟨rfl, .inr ⟨hold, .inr ⟨inventory, r', hr', rfl, rfl⟩⟩⟩

theorem Honest.observed (h : Honest parse task w) (sessionId : String) (inventory : Option Dict) :
    Honest parse ((recordUpgradeSessionObservation task sessionId inventory now).getD task)
      ((observationRecords task sessionId inventory).foldl UpgradeWatch.step w) := by
  rcases observation_cases task sessionId inventory now with ⟨htask, hrecords⟩ | ⟨hobserves, hcases⟩
  · rw [htask, hrecords]
    exact h
  rw [NodeTask.observes] at hobserves
  simp only [Bool.and_eq_true, decide_eq_true_eq] at hobserves
  obtain ⟨⟨⟨-, hrunning⟩, -⟩, hbaseline⟩ := hobserves
  have hactive := NodeTask.isRunningUpgrade_active hrunning
  have hkept (hevidence : Evidence parse task.sessionBefore task.result w) :
      task.baseline = task.sessionBefore ∧
        Evidence parse task.sessionBefore (keepBaseline task now) w := by
    have hpre := hevidence.baseline_eq task rfl
    exact ⟨hpre, evidence_keepBaseline hevidence rfl (hpre ▸ hbaseline)⟩
  have hsession (hother : task.baseline ≠ Text.strip sessionId)
      (hevidence : Evidence parse task.sessionBefore task.result w) :
      Evidence parse task.sessionBefore
        (observeSession (keepBaseline task now) (Text.strip sessionId) now)
        (w.step (.session (Text.strip sessionId))) :=
    evidence_observeSession (hkept hevidence).2 (Text.strip_strip _) fun heq =>
      hother ((hkept hevidence).1.trans heq.symm)
  have hbase := noted_keepBaseline task now
  have hback := hbase.trans (noted_observeSession (keepBaseline task now) (Text.strip sessionId) now)
  have hhost := w.host_step_session (Text.strip sessionId)
  rcases hcases with ⟨htask, hrecords⟩ | ⟨hother, ⟨htask, hrecords⟩ |
    ⟨inventory', r', hr', htask, hrecords⟩⟩
  · rw [htask, hrecords]
    exact h.write hactive hbase (fun hevidence => (hkept hevidence).2) rfl
  · rw [htask, hrecords]
    exact h.write hactive hback (hsession hother) hhost
  · rw [htask, hrecords]
    refine h.write hactive (hback.trans (noted_observeInventory hr'))
      (fun hevidence => evidence_observeInventory (hsession hother hevidence)
        (Text.strip_strip _) hr') ?_
    exact (UpgradeWatch.host_step_inventory _ _ _).trans hhost

/-! ### Verifications -/

/-- `_persist_upgrade_task_result` of a running upgrade. -/
theorem persist_facts (conf : Settings) (now : Instant) (htask : task.IsUpgrade)
    (hactive : task.status.isActive = true) (result : Dict) :
    let task' := persistUpgradeTaskResult conf task result now
    SameOperation task task' ∧ Beside result task'.result ∧ task'.status = .running := by
  dsimp only
  rw [persistUpgradeTaskResult, htask.completeTask, commitResult_active now hactive]
  have hword : Text.lower "running" = "running" := by decide
  rw [hword]
  refine ⟨sameOperation_storeResult _ _ _ _ _ _ _ _, ?_, status_storeResult_running _ _ _ _ _⟩
  obtain ⟨-, hmarker⟩ := applyDetachedMarker_facts conf { task with
      status := .running
      acceptedAt := some (task.acceptedAt.getD now.time)
      result := result
      lastError := if "" ≠ "" then clipError "" else task.lastError } now
  rw [storeResult, if_pos rfl, if_pos rfl]
  exact hmarker

theorem Honest.persist (h : Honest parse task w) (hactive : task.status.isActive = true)
    (hnoted : Noted task.result r') (hevidence : Evidence parse task.sessionBefore task.result w →
      Evidence parse task.sessionBefore r' w') (hhost : w'.host = w.host) :
    Honest parse (persistUpgradeTaskResult conf task r' now) w' := by
  obtain ⟨hoperation, hbeside, hstatus⟩ := persist_facts conf now h.upgrade hactive r'
  have hwritten := h.write hactive hnoted hevidence hhost
  refine ⟨hoperation.isUpgrade h.upgrade, hbeside.keyed hwritten.keyed, ?_, ?_, fun hst => ?_⟩
  · rw [hbeside.hostSucceeded]
    exact hwritten.host
  · rcases hwritten.evidence with ⟨hdetached, hshown⟩ | ⟨hcanceled, -⟩
    · rw [hoperation.sessionBefore]
      exact .inl ⟨hbeside.detached hdetached,
        hshown.sameAt (hbeside.same.mono fun _ => List.mem_cons_of_mem _)⟩
    · have hst : task.status = .canceled := hcanceled
      rw [hst] at hactive
      cases hactive
  · rw [hstatus] at hst
    cases hst

structure Ready (gateway : Bool) (view : RouteView) (task : NodeTask) (w : UpgradeWatch)
    (session : String) (known : UpgradeInventory) : Prop where
  route : view.session = some session
  new : session ≠ task.sessionBefore
  host : w.host = some true
  last : w.session = some session
  inventory : w.inventory = some known
  sameSession : known.session = session
  version : known.version = task.targetVersion
  hasVersion : task.targetVersion ≠ ""
  commit : task.targetCommit = "" ∨ known.commit = task.targetCommit
  capabilities : ∀ c ∈ requiredUpgradeCapabilities gateway, c ∈ known.capabilities

theorem NodeTask.targetCommit_kept (task : NodeTask) :
    Text.lower (Text.strip task.targetCommit) = task.targetCommit := by
  have hkept (v : Json) : Text.lower (Text.strip (strippedLower v)) = strippedLower v :=
    strippedLower_strippedLower v
  rw [NodeTask.targetCommit]
  split
  · exact hkept _
  · exact hkept _

theorem Honest.ready (h : Honest parse task w) (hactive : task.status.isActive = true)
    (hready : upgradeVerifyReady gateway view task = true) :
    ∃ session known, Ready gateway view task w session known := by
  rcases h.evidence with ⟨-, hevidence⟩ | ⟨hcanceled, -⟩
  swap
  · rw [hcanceled] at hactive
    cases hactive
  rw [upgradeVerifyReady] at hready
  simp only [Bool.and_eq_true, decide_eq_true_eq] at hready
  obtain ⟨⟨⟨⟨-, hhost⟩, hroute⟩, hbuild⟩, hcaps⟩ := hready
  obtain ⟨session, hview, hmatch⟩ := (Option.any_eq_true _ _).mp hroute
  simp only [sessionsMatch, Bool.and_eq_true, decide_eq_true_eq] at hmatch
  obtain ⟨-, ⟨⟨⟨⟨⟨hdetached, hback⟩, hsent⟩, hcurrent⟩, hnew⟩, hsame⟩⟩ := hmatch
  have hbefore : stripped (task.result.get "detached_session_id") = task.sessionBefore := by
    rcases hevidence.detached with hnull | ⟨hkept, -⟩
    · rw [hnull] at hdetached
      exact absurd rfl hdetached
    · rw [hkept, stripped_str, NodeTask.sessionBefore, stripped_stripped]
  have hlast : w.session = some session := by
    rw [hevidence.session] at hcurrent hback
    cases hs : w.session with
    | none =>
      rw [hs] at hback
      exact absurd rfl hback
    | some s =>
      rw [hs] at hcurrent
      rw [hcurrent, Option.elim_some, stripped_str, (hevidence.other s hs).1]
  cases hknown : w.inventory with
  | none =>
    rw [hevidence.noInventory hknown] at hsent
    exact absurd rfl hsent
  | some known =>
    have hshows := hevidence.inventory known hknown
    rw [hshows.session, stripped_str, hshows.kept, ← hcurrent] at hsame
    rw [buildMatchesTarget, hshows.build] at hbuild
    split at hbuild
    · cases hbuild
    rename_i hbuilt
    simp only [Bool.or_eq_true, decide_eq_true_eq, not_or, Decidable.not_not] at hbuilt
    rw [task.targetCommit_kept] at hbuild
    refine ⟨session, known, hview, ?_, h.host ?_, hlast, hknown, hsame, hbuilt.2, hbuilt.1,
      by simpa using hbuild, fun c hc => ?_⟩
    · rw [← hcurrent, hbefore] at hnew
      exact hnew
    · rw [hostSucceeded]
      exact decide_eq_true hhost
    · rw [List.all_eq_true] at hcaps
      exact (hshows.capabilities c).mp (by simpa using hcaps c hc)

theorem Ready.clock {session : String} {known : UpgradeInventory}
    (h : Ready gateway view task w session known) (t : Time) :
    Ready gateway view task (w.step (.clock t)) session known := { h with }

theorem Honest.ended {result : Dict} (h : Honest parse { task with result := result } w)
    (hactive : task.status.isActive = true) {incoming : String} (hrunning : incoming ≠ "running")
    (hresult : result.isEmpty = false) (error : String) (replaceResult : Bool) :
    Honest parse (storeResult conf task incoming result result error replaceResult now) w := by
  have htask : task.IsUpgrade := ⟨h.upgrade.correlated, h.upgrade.kind⟩
  have hoperation := sameOperation_storeResult conf task incoming result result
    error replaceResult now
  have hsealed : (task.isLifecycleCorrelatedTask && isLifecycleKind task.kind) = true := by
    rw [htask.correlated, htask.lifecycleKind]
    rfl
  have hstored : (storeResult conf task incoming result result error replaceResult now).result =
      result.set "lifecycle_terminal_sealed" (.bool true) := by
    rw [storeResult, if_neg hrunning]
    dsimp only
    rw [if_pos hsealed, hresult, if_neg Bool.false_ne_true]
  have hkept : SameAt ("host_upgrade_status" :: "mode" :: evidenceKeys) result
      (result.set "lifecycle_terminal_sealed" (.bool true)) := (SameAt.refl _ _).set (by decide) _
  refine ⟨hoperation.isUpgrade htask, ?_, ?_, ?_, fun _ => ?_⟩
  · rw [hstored]
    exact h.keyed.set _ _
  · rw [hstored, hostSucceeded_set _ (by decide)]
    exact h.host
  · rw [hstored, hoperation.sessionBefore]
    rcases h.evidence with ⟨hdetached, hshown⟩ | ⟨hcanceled, -⟩
    · refine .inl ⟨?_, hshown.sameAt (hkept.mono (by decide))⟩
      rw [isDetachedMode, hkept "mode" (by decide)]
      exact hdetached
    · have hst : task.status = .canceled := hcanceled
      rw [hst] at hactive
      cases hactive
  · rw [NodeTask.hasFlag, hstored, Dict.get_set_self]
    rfl

theorem Evidence.verifyStartedAt {pre : String} (h : Evidence parse pre r w) {t : Time}
    (hstarted : verifyStartedAt parse r = some t) : w.clock = some t := by
  rw [Node.verifyStartedAt] at hstarted
  rcases h.clock with hnull | ⟨text, t', htext, -, hparse, hclock⟩
  · rw [hnull] at hstarted
    cases hstarted
  · rw [htext] at hstarted
    split at hstarted
    · have hsame : parse text = some t := hstarted
      rw [hclock, ← hsame, hparse]
    · cases hstarted

theorem Honest.finish (conf : Settings) (stable : Int) (now : Instant) (h : Honest parse task w)
    (hactive : task.status.isActive = true) (t : Time) :
    let task' := if now.time - t < stable * 1000000 then task
      else (completeTask conf task "success"
        (Dict.pop (task.result.set "verified" (.bool true)) "verify_started_at") "" false now).task
    Honest parse task' w ∧ (task'.status = .success → stable * 1000000 ≤ now.time - t) := by
  dsimp only
  split
  · refine ⟨h, fun hst => ?_⟩
    rw [hst] at hactive
    cases hactive
  rename_i hlong
  refine ⟨?_, fun _ => Int.not_lt.mp hlong⟩
  rw [h.upgrade.completeTask, commitResult_active now hactive]
  refine Honest.ended (h.write hactive (((Noted.refl _).set (by decide) _).pop (by decide))
    (fun hevidence => ?_) rfl) hactive (by decide) (isEmpty_of_get (k := "verified") ?_) _ _
  · exact hevidence.withClock (((SameAt.refl _ _).set (by decide) _).pop (by decide)) rfl rfl
      (.inl (Dict.get_pop_self _ _))
  · rw [Dict.get_pop_of_ne _ (by decide), Dict.get_set_self]
    simp

theorem Honest.advance (conf : Settings) (stable : Int) (gateway : Bool)
    (h : Honest parse task w) (hread : now.ReadBack parse) (view : RouteView) :
    let task' := advanceUpgradeVerify conf parse stable gateway view task now
    let w' := (clockRecords parse gateway view task now).foldl UpgradeWatch.step w
    Honest parse task' w' ∧ (task.status.isActive = true → task'.status = .success →
      ∃ session known t, Ready gateway view task w' session known ∧ w'.clock = some t ∧
        stable * 1000000 ≤ now.time - t) := by
  dsimp only
  rw [advanceUpgradeVerify, clockRecords, decide_eq_false (not_not_intro h.upgrade.kind)]
  cases hactive : task.status.isActive with
  | false => exact ⟨h, fun hact => (by cases hact)⟩
  | true =>
  cases hready : upgradeVerifyReady gateway view task with
  | false =>
    -- The clock of the row is stopped.
    have hclear : Honest parse (clearUpgradeVerifyClock conf task now) w ∧
        (clearUpgradeVerifyClock conf task now).status ≠ .success := by
      rw [clearUpgradeVerifyClock]
      split
      · refine ⟨h.persist hactive ((Noted.refl _).pop (by decide)) (fun hevidence => ?_) rfl, ?_⟩
        · exact hevidence.withClock ((SameAt.refl _ _).pop (by decide)) rfl rfl
            (.inl (Dict.get_pop_self _ _))
        · rw [(persist_facts conf now h.upgrade hactive _).2.2]
          simp
      · refine ⟨h, fun hst => ?_⟩
        rw [hst] at hactive
        cases hactive
    exact ⟨hclear.1, fun _ hst => absurd hst hclear.2⟩
  | true =>
    obtain ⟨session, known, hfound⟩ := h.ready hactive hready
    cases hstarted : verifyStartedAt parse task.result with
    | some t =>
      have hclock : w.clock = some t := by
        rcases h.evidence with ⟨-, hevidence⟩ | ⟨hcanceled, -⟩
        · exact hevidence.verifyStartedAt hstarted
        · rw [hcanceled] at hactive
          cases hactive
      obtain ⟨hhonest, hlong⟩ := h.finish conf stable now hactive t
      exact ⟨hhonest, fun _ hst => ⟨session, known, t, hfound, hclock, hlong hst⟩⟩
    | none =>
      have hpersisted : Honest parse (persistUpgradeTaskResult conf task
          (task.result.set "verify_started_at" (.str now.iso)) now)
          (w.step (.clock now.time)) :=
        h.persist hactive ((Noted.refl _).set (by decide) _) (fun hevidence =>
          hevidence.withClock ((SameAt.refl _ _).set (by decide) _) rfl rfl
            (.inr ⟨now.iso, now.time, Dict.get_set_self _ _ _, hread.1, hread.2, rfl⟩)) rfl
      obtain ⟨-, -, hrunning⟩ := persist_facts conf now h.upgrade hactive
        (task.result.set "verify_started_at" (.str now.iso))
      obtain ⟨hhonest, hlong⟩ := hpersisted.finish conf stable now (by rw [hrunning]; rfl) now.time
      exact ⟨hhonest, fun _ hst => ⟨session, known, now.time, hfound.clock now.time, rfl,
        hlong hst⟩⟩

theorem advance_operation (conf : Settings) (parse : String → Option Time) (stable : Int)
    (gateway : Bool) (now : Instant) (htask : task.IsUpgrade)
    (hactive : task.status.isActive = true) (view : RouteView) :
    let task' := advanceUpgradeVerify conf parse stable gateway view task now
    SameOperation task task' ∧ (task'.status = .success ∨ task'.status.isActive = true) := by
  have hpersist (result : Dict) :
      SameOperation task (persistUpgradeTaskResult conf task result now) ∧
        (persistUpgradeTaskResult conf task result now).status.isActive = true := by
    obtain ⟨hoperation, -, hrunning⟩ := persist_facts conf now htask hactive result
    exact ⟨hoperation, by rw [hrunning]; rfl⟩
  have hfinish (started : NodeTask) (t : Time) (hsame : SameOperation task started)
      (hact : started.status.isActive = true) :
      let task' := if now.time - t < stable * 1000000 then started
        else (completeTask conf started "success"
          (Dict.pop (started.result.set "verified" (.bool true)) "verify_started_at") "" false
          now).task
      SameOperation task task' ∧ (task'.status = .success ∨ task'.status.isActive = true) := by
    dsimp only
    split
    · exact ⟨hsame, .inr hact⟩
    · rw [(hsame.isUpgrade htask).completeTask, commitResult_active now hact]
      exact ⟨hsame.trans (sameOperation_storeResult _ _ _ _ _ _ _ _), .inl rfl⟩
  dsimp only
  rw [advanceUpgradeVerify, decide_eq_false (not_not_intro htask.kind), hactive]
  cases hready : upgradeVerifyReady gateway view task with
  | false =>
    rw [if_neg (by simp), if_pos (by simp), clearUpgradeVerifyClock]
    split
    · exact ⟨(hpersist _).1, .inr (hpersist _).2⟩
    · exact ⟨.refl _, .inr hactive⟩
  | true =>
    rw [if_neg (by simp), if_neg (by simp)]
    cases hstarted : verifyStartedAt parse task.result with
    | some t => exact hfinish task t (.refl _) hactive
    | none => exact hfinish _ now.time (hpersist _).1 (hpersist _).2

theorem Honest.fail (conf : Settings) (now : Instant) {started : NodeTask} (h : Honest parse task w)
    (hactive : task.status.isActive = true) (hsame : SameOperation task started)
    (hstarted : started.status.isActive = true) (hsession : w'.session = w.session)
    (hinventory : w'.inventory = w.inventory) (hhost : w'.host = w.host)
    (hclock : ShowsClock parse task.result w → ShowsClock parse task.result w')
    (failure : String × String) : let result := task.result.set "failure_code" (.str failure.1)
    let task' := (completeTask conf started "failed"
      (Dict.set result "failed_at" (.str now.iso)) failure.2 true now).task
    Honest parse task' w' ∧ task'.status ≠ .success := by
  dsimp only
  have hkept : SameAt ("host_upgrade_status" :: "mode" :: evidenceKeys) task.result
      ((task.result.set "failure_code" (.str failure.1)).set "failed_at" (.str now.iso)) :=
    ((SameAt.refl _ _).set (by decide) _).set (by decide) _
  have hupgrade := hsame.isUpgrade h.upgrade
  have hwritten : Honest parse { started with
      result := (task.result.set "failure_code" (.str failure.1)).set "failed_at"
        (.str now.iso) } w' := by
    refine ⟨⟨hupgrade.correlated, hupgrade.kind⟩, (h.keyed.set _ _).set _ _, fun hsucceeded => ?_,
      ?_, fun hst => ?_⟩
    · rw [hhost]
      refine h.host ?_
      rw [hostSucceeded, ← hkept "host_upgrade_status" (by decide)]
      exact hsucceeded
    · rcases h.evidence with ⟨hdetached, hshown⟩ | ⟨hcanceled, -⟩
      · have hpre : ({ started with
            result := (task.result.set "failure_code" (.str failure.1)).set "failed_at"
              (.str now.iso) } : NodeTask).sessionBefore = task.sessionBefore := hsame.sessionBefore
        rw [hpre]
        refine .inl ⟨?_, hshown.withClock (hkept.mono (by decide)) hsession hinventory ?_⟩
        · rw [isDetachedMode, hkept "mode" (by decide)]
          exact hdetached
        · rw [ShowsClock, hkept "verify_started_at" (by decide)]
          exact hclock hshown.clock
      · rw [hcanceled] at hactive
        cases hactive
    · have hst' : started.status = .success := hst
      rw [hst'] at hstarted
      cases hstarted
  rw [hupgrade.completeTask, commitResult_active now hstarted]
  refine ⟨hwritten.ended hstarted (by decide) (isEmpty_of_get (k := "failed_at") ?_) _ _, ?_⟩
  · rw [Dict.get_set_self]
    simp
  · rw [status_storeResult _ _ (by decide)]
    decide

theorem watch_clockRecords (parse : String → Option Time) (gateway : Bool) (view : RouteView)
    (task : NodeTask) (now : Instant) (w : UpgradeWatch) :
    let w' := (clockRecords parse gateway view task now).foldl UpgradeWatch.step w
    w'.session = w.session ∧ w'.inventory = w.inventory ∧ w'.host = w.host ∧
      (ShowsClock parse task.result w → ShowsClock parse task.result w') := by
  dsimp only
  rw [clockRecords]
  split
  · rename_i hstarts
    rw [Bool.and_eq_true] at hstarts
    refine ⟨rfl, rfl, rfl, fun hshown => ?_⟩
    rcases hshown with hnull | ⟨text, t, htext, hne, hparse, -⟩
    · exact .inl hnull
    · -- A row whose clock runs does not start it again.
      have hnone := hstarts.2
      rw [verifyStartedAt, htext] at hnone
      simp [Json.truthy, Json.strOr, hne, hparse] at hnone
  · exact ⟨rfl, rfl, rfl, fun hshown => hshown⟩

/-- A failure is recorded with the start of the clock of the verification before it. -/
theorem Honest.stale (h : Honest parse task w) (hread : now.ReadBack parse) (timedOut : Bool)
    (first view last : RouteView) :
    let task' := failStaleUpgradeTask conf parse stable gateway timedOut first view last task now
    let w' := (if triesVerification gateway timedOut first task then
      clockRecords parse gateway view task now else []).foldl UpgradeWatch.step w
    Honest parse task' w' ∧ (task.status.isActive = true → task'.status = .success →
      ∃ session known t, Ready gateway view task w' session known ∧ w'.clock = some t ∧
        stable * 1000000 ≤ now.time - t) := by
  dsimp only
  have hidle (hactive : task.status.isActive = true) : task.status ≠ .success := by
    intro hst
    rw [hst] at hactive
    cases hactive
  rw [failStaleUpgradeTask, triesVerification, decide_eq_false (not_not_intro h.upgrade.kind)]
  by_cases hopen : (task.status.isActive && task.isDetachedLifecycleTask && timedOut) = true
  swap
  · have hclosed : (false || !task.status.isActive || !task.isDetachedLifecycleTask || !timedOut) =
        true := by
      revert hopen
      cases task.status.isActive <;> cases task.isDetachedLifecycleTask <;> cases timedOut <;> simp
    rw [if_pos hclosed, Bool.eq_false_iff.mpr hopen]
    exact ⟨h, fun hactive hst => absurd hst (hidle hactive)⟩
  have hparts := hopen
  simp only [Bool.and_eq_true] at hparts
  obtain ⟨⟨hactive, hdetached⟩, htimedOut⟩ := hparts
  rw [hopen, hactive, hdetached, htimedOut, if_neg (by simp), Bool.true_and]
  have hkept := watch_clockRecords parse gateway view task now w
  split
  · obtain ⟨hhonest, hfound⟩ := h.advance conf stable gateway hread view
    obtain ⟨hsame, hends⟩ := advance_operation conf parse stable gateway now h.upgrade hactive view
    dsimp only
    split
    · exact ⟨hhonest, fun _ => hfound hactive⟩
    · rename_i hnot
      obtain ⟨hfailed, hne⟩ := h.fail conf now hactive hsame
        (hends.resolve_left hnot) hkept.1 hkept.2.1 hkept.2.2.1 hkept.2.2.2
        (upgradeTimeoutFailure gateway last task)
      exact ⟨hfailed, fun _ hst => absurd hst hne⟩
  · dsimp only
    rw [if_neg (hidle hactive)]
    obtain ⟨hfailed, hne⟩ := h.fail conf now hactive (.refl task) hactive rfl rfl
      rfl (fun hshown => hshown) (upgradeTimeoutFailure gateway last task)
    exact ⟨hfailed, fun _ hst => absurd hst hne⟩

/-! ## Runs -/

section Runs

variable {s s' : UpgradeRun}

/-- The row tells what its history comes to. -/
def UpgradeRun.IsHonest (parse : String → Option Time) (s : UpgradeRun) : Prop :=
  Honest parse s.task (watch s.records)

variable {event : UpgradeEvent} {view : RouteView}

theorem UpgradeRun.IsHonest.observed (h : s.IsHonest parse) (session : String)
    (inventory : Option Dict) (now : Instant) :
    (s.observed session inventory now).IsHonest parse := by
  rw [IsHonest, UpgradeRun.observed, watch_append]
  exact Honest.observed h session inventory

theorem UpgradeRun.IsHonest.called (h : s.IsHonest parse) (now : Instant) (call : UpgradeCall) :
    (s.called now call).IsHonest parse := by
  cases call with
  | observe session inventory => exact h.observed session inventory now
  | disconnect =>
    rw [UpgradeRun.called, IsHonest, watch_append]
    exact Honest.disconnect h

theorem UpgradeRun.IsHonest.step (h : s.IsHonest parse) (hok : Considered parse s event) :
    (s.step conf parse stable gateway event).IsHonest parse := by
  cases event with
  | connect session => exact h
  | expire => exact h
  | disconnect session =>
    rw [UpgradeRun.step]
    split <;> exact h
  | observe session inventory =>
    rw [UpgradeRun.step]
    split <;> exact h
  | call n now =>
    cases hcall : s.pending[n]? with
    | none =>
      rw [UpgradeRun.step, hcall]
      exact h
    | some call =>
      rw [UpgradeRun.step, hcall]
      exact IsHonest.called (s := { s with pending := s.pending.eraseIdx n }) h now call
  | drop n => exact h
  | accept now => exact h.goesOn (goesOn_acceptTask _ _)
  | progress progress downloadCapable withinGrace now =>
    exact h.goesOn (goesOn_handleTaskProgress h.upgrade.correlated _ _ _ _)
  | result session message now =>
    have hresult : UpgradeRun.IsHonest parse { s with
        task := (handleTaskResult conf s.task message now).task
        records := s.records ++ hostRecords s.task message } := by
      rw [IsHonest, watch_append]
      exact Honest.result h hok
    cases session with
    | none => exact hresult
    | some session =>
      rw [UpgradeRun.step]
      split
      · exact hresult.observed session none now
      · exact hresult
  | advance routable online now =>
    rw [IsHonest, UpgradeRun.step, watch_append]
    exact (Honest.advance conf stable gateway h hok ⟨s.route, routable, online⟩).1
  | stale timedOut first last routable online now =>
    rw [IsHonest, UpgradeRun.step, watch_append]
    exact (Honest.stale h hok timedOut first ⟨s.route, routable, online⟩ last).1

theorem UpgradeRun.isHonest_of_reachable
    (h : (upgradeSystem conf parse stable gateway).ReachableUnder (Considered parse) s) :
    s.IsHonest parse := by
  refine h.invariant (fun _ => UpgradeRun.Begins.honest) ?_
  rintro s event s' hs hok hstep
  cases hstep
  exact hs.step hok

/-- The build and the capabilities of the row were told in the session it names. -/
def UpgradeRun.Attributed (s : UpgradeRun) : Prop :=
  ∀ session, s.task.result.get "inventory_session_id" = .str session →
    ∃ known, known.session = session ∧ ShowsInventory s.task.result known ∧ ToldIn s.records known

theorem UpgradeRun.IsHonest.attributed (h : s.IsHonest parse) : s.Attributed := by
  intro session hsession
  rcases h.evidence with ⟨-, hevidence⟩ | ⟨-, hblank⟩
  · cases hknown : (watch s.records).inventory with
    | none =>
      rw [hevidence.noInventory hknown] at hsession
      cases hsession
    | some known =>
      have hshows := hevidence.inventory known hknown
      rw [hshows.session] at hsession
      exact ⟨known, Json.str.inj hsession, hshows, watch_toldIn hknown⟩
  · rw [hblank _ (by decide)] at hsession
    cases hsession

def UpgradeEvent.verifiesAt : UpgradeEvent → Option Instant
  | .advance _ _ now => some now
  | .stale _ _ _ _ _ now => some now
  | _ => none

/-- What is known when an upgrade succeeds: its history is `before`, the start of the clock at
`t`, and `after`. -/
structure Verified (stable : Int) (gateway : Bool) (s s' : UpgradeRun) (now : Instant)
    (session : String) (known : UpgradeInventory) (t : Time)
    (before after : List UpgradeRecord) : Prop where
  route : s.route = some session
  new : session ≠ s.task.sessionBefore
  host : LastReport s'.records true
  /-- The clock was started when the session and its inventory were the last ones. -/
  history : s'.records = before ++ .clock t :: after
  last : (watch before).session = some session
  inventory : (watch before).inventory = some known
  sameSession : known.session = session
  told : ToldIn before known
  version : known.version = s.task.targetVersion
  hasVersion : s.task.targetVersion ≠ ""
  commit : s.task.targetCommit = "" ∨ known.commit = s.task.targetCommit
  capabilities : ∀ c ∈ requiredUpgradeCapabilities gateway, c ∈ known.capabilities
  /-- Nothing has happened to it since. -/
  stable : stable * 1000000 ≤ now.time - t
  undisturbed : ∀ r ∈ after, Agrees (some session) (some known) r

theorem Ready.verified {now : Instant} {routable online : Bool} {session : String}
    {known : UpgradeInventory} {t : Time} (s' : UpgradeRun)
    (h : Ready gateway ⟨s.route, routable, online⟩ s.task (watch s'.records) session known)
    (hclock : (watch s'.records).clock = some t) (hstable : stable * 1000000 ≤ now.time - t) :
    ∃ before after, Verified stable gateway s s' now session known t before after := by
  obtain ⟨before, after, hhistory, hafter, hlast, hinventory⟩ := watch_clock hclock
  rw [h.last] at hlast
  rw [h.inventory] at hinventory
  refine ⟨before, after, h.route, h.new, watch_host h.host, hhistory, hlast.symm, hinventory.symm,
    h.sameSession, watch_toldIn hinventory.symm, h.version, h.hasVersion, h.commit, h.capabilities,
    hstable, fun r hr => ?_⟩
  have hagrees := hafter r hr
  rw [h.last, h.inventory] at hagrees
  exact hagrees

theorem status_recordUpgradeSessionObservation (task : NodeTask) (session : String)
    (inventory : Option Dict) (now : Instant) :
    ((recordUpgradeSessionObservation task session inventory now).getD task).status =
      task.status := by
  rcases observation_cases task session inventory now with ⟨h, -⟩ | ⟨-, ⟨h, -⟩ | ⟨-, ⟨h, -⟩ |
    ⟨inventory', r', -, h, -⟩⟩⟩ <;> rw [h]

theorem status_called (s : UpgradeRun) (now : Instant) (call : UpgradeCall) :
    (s.called now call).task.status = s.task.status := by
  cases call with
  | observe session inventory =>
    exact status_recordUpgradeSessionObservation _ _ _ _
  | disconnect =>
    rw [UpgradeRun.called, recordUpgradeDisconnect]
    split <;> rfl

theorem advanceUpgradeVerify_idle (h : task.status.isActive = false) :
    advanceUpgradeVerify conf parse stable gateway view task now = task := by
  rw [advanceUpgradeVerify, if_pos (by simp [h])]

theorem failStaleUpgradeTask_idle (h : task.status.isActive = false) {timedOut : Bool}
    {first last : RouteView} :
    failStaleUpgradeTask conf parse stable gateway timedOut first view last task now = task := by
  rw [failStaleUpgradeTask, if_pos (by simp [h])]

/-- A step that makes an upgrade a success is a verification with all the evidence. -/
theorem UpgradeRun.IsHonest.succeeds (h : s.IsHonest parse) (hok : Considered parse s event)
    (hst : s.task.status ≠ .success)
    (hsuccess : (s.step conf parse stable gateway event).task.status = .success) :
    ∃ now session known t before after, event.verifiesAt = some now ∧
      Verified stable gateway s (s.step conf parse stable gateway event) now session known t before
        after := by
  cases event with
  | connect session => exact absurd hsuccess hst
  | expire => exact absurd hsuccess hst
  | disconnect session =>
    rw [UpgradeRun.step] at hsuccess
    split at hsuccess <;> exact absurd hsuccess hst
  | observe session inventory =>
    rw [UpgradeRun.step] at hsuccess
    split at hsuccess <;> exact absurd hsuccess hst
  | call n now =>
    cases hcall : s.pending[n]? with
    | none =>
      rw [UpgradeRun.step, hcall] at hsuccess
      exact absurd hsuccess hst
    | some call =>
      rw [UpgradeRun.step, hcall] at hsuccess
      exact absurd ((status_called _ now call).symm.trans hsuccess) hst
  | drop n => exact absurd hsuccess hst
  | accept now => exact absurd hsuccess ((goesOn_acceptTask _ _).not_success hst)
  | progress progress downloadCapable withinGrace now =>
    exact absurd hsuccess ((goesOn_handleTaskProgress h.upgrade.correlated _ _ _ _).not_success hst)
  | result session message now =>
    have hne := status_handleTaskResult_ne_success h.upgrade h.keyed hok now conf
      (h.evidence.imp And.left And.left) hst
    exfalso
    cases session with
    | none => exact hne hsuccess
    | some session =>
      rw [UpgradeRun.step] at hsuccess
      split at hsuccess
      · exact hne ((status_recordUpgradeSessionObservation _ _ _ _).symm.trans hsuccess)
      · exact hne hsuccess
  | advance routable online now =>
    have hactive : s.task.status.isActive = true := by
      by_contra hidle
      rw [UpgradeRun.step, advanceUpgradeVerify_idle (Bool.eq_false_iff.mpr hidle)] at hsuccess
      exact hst hsuccess
    obtain ⟨session, known, t, hfound, hclock, hstable⟩ :=
      (Honest.advance conf stable gateway h hok ⟨s.route, routable, online⟩).2 hactive hsuccess
    rw [← watch_append] at hfound hclock
    obtain ⟨before, after, hverified⟩ := hfound.verified (s.step conf parse stable gateway
      (.advance routable online now)) hclock hstable
    exact ⟨now, session, known, t, before, after, rfl, hverified⟩
  | stale timedOut first last routable online now =>
    have hactive : s.task.status.isActive = true := by
      by_contra hidle
      rw [UpgradeRun.step, failStaleUpgradeTask_idle (Bool.eq_false_iff.mpr hidle)] at hsuccess
      exact hst hsuccess
    obtain ⟨session, known, t, hfound, hclock, hstable⟩ :=
      (Honest.stale h hok timedOut first ⟨s.route, routable, online⟩ last).2 hactive hsuccess
    rw [← watch_append] at hfound hclock
    obtain ⟨before, after, hverified⟩ := hfound.verified (s.step conf parse stable gateway
      (.stale timedOut first last routable online now)) hclock hstable
    exact ⟨now, session, known, t, before, after, rfl, hverified⟩

end Runs

/-! ### An upgrade of a gateway -/

theorem exec_upgradeSystem (s : UpgradeRun) (events : List UpgradeEvent) :
    (upgradeSystem conf parse stable gateway).exec s events =
      some (events.foldl (UpgradeRun.step conf parse stable gateway) s) := by
  induction events generalizing s with
  | nil => rfl
  | cons event events ih => exact ih (s.step conf parse stable gateway event)

def detachedUpgrade : UpgradeRun where
  task :=
    { nodeId := 7
      correlationType := "node.lifecycle"
      correlationId := "7"
      kind := "agent.upgrade"
      payload := [("pre_upgrade_session_id", .str "s1"), ("target_version", .str "2.0"),
        ("target_commit", .str "abc")]
      result := [("mode", .str "local_detached")]
      status := .running
      createdAt := 0
      dispatchedAt := some 0
      acceptedAt := some 0
      lastDeliveryAt := some 0
      deliveryAttemptCount := 1
      lastProgressAt := some 0
      cancelRequestedAt := none
      watchdogDeadlineAt := 600000000
      lastError := "" }
  route := some "s1"
  pending := []
  records := []

/-- The moment `seconds` after the start of 1970. -/
def secondsAt (seconds : Int) (iso : String) : Instant := ⟨seconds * 1000000, iso⟩

/-- `parse_datetime` at two moments. -/
def parseMoments (text : String) : Option Time :=
  if text = "1970-01-01T00:00:20+00:00" then some 20000000
  else if text = "1970-01-01T00:01:00+00:00" then some 60000000
  else none

/-- The Agent is back with the target and its host has reported success. -/
def upgradeEvents : List UpgradeEvent :=
  [.disconnect "s1", .call 0 (secondsAt 1 "1970-01-01T00:00:01+00:00"), .connect "s2",
    .result (some "s2") ⟨"success", [("mode", .str "local_detached")], ""⟩
      (secondsAt 2 "1970-01-01T00:00:02+00:00"),
    .observe "s2" (some [("agent_version", .str "2.0"), ("agent_commit", .str "ABC"),
      ("capabilities", .arr [.str insightSafeRestoreCapability])]),
    .call 0 (secondsAt 3 "1970-01-01T00:00:03+00:00"),
    .advance true true (secondsAt 20 "1970-01-01T00:00:20+00:00")]

/-- The run up to the verification that succeeds. -/
def readyUpgrade : UpgradeRun :=
  upgradeEvents.foldl (UpgradeRun.step {} parseMoments 8 true) detachedUpgrade

theorem begins_detachedUpgrade : detachedUpgrade.Begins where
  upgrade := ⟨by decide, rfl⟩
  active := by decide
  keyed := by
    show ["mode"].Nodup
    decide
  detached := by decide
  blank := by
    show ∀ k ∈ evidenceKeys, detachedUpgrade.task.result.get k = .null
    decide
  host := by decide
  records := rfl

theorem agentResult_success : AgentResult ⟨"success", [("mode", .str "local_detached")], ""⟩ where
  keyed := by
    show ["mode"].Nodup
    decide
  evidence := by decide
  mode := fun _ => by decide

theorem reachable_readyUpgrade :
    (upgradeSystem {} parseMoments 8 true).ReachableUnder (Considered parseMoments)
      readyUpgrade := by
  have hconsidered : (upgradeSystem {} parseMoments 8 true).Every
      (fun s event _ => Considered parseMoments s event) detachedUpgrade upgradeEvents :=
    ⟨trivial, trivial, trivial, agentResult_success, trivial, trivial, ⟨by decide, by decide⟩,
      trivial⟩
  exact (System.ReachableUnder.start begins_detachedUpgrade).of_exec hconsidered
    (exec_upgradeSystem _ _)

end HyperFileLens.Node
