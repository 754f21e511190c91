import HyperFileLens.Node.Frames

/-!
# Verification of detached upgrades

The functions of `node_lifecycle.py` that collect the evidence of a detached upgrade in the
result of its row, verify it, and fail the row when it takes too long. Each of these runs
under the lock of the row, in one transaction.

*Evidence.*  The session that the Agent had when the command was sent, the session it has
come back with, and the build and the capabilities of the last inventory with the session
that has sent it.

*Clock.*  `verify_started_at` is the text of a moment. `parse` stands for `parse_datetime`.

*Environment.*  `RouteView` is what `redis_store` and the row of the Node tell, `gateway` is
the role of the Node, `stable` is `UPGRADE_STABLE_SECONDS`, and `timedOut` says that
`_detached_upgrade_timed_out` holds.
-/

namespace HyperFileLens.Node

/-! ## Values -/

/-- `str(value or "").strip()`. -/
def stripped (value : Json) : String := Text.strip value.strOr

/-- `str(value or "").strip().lower()`. -/
def strippedLower (value : Json) : String := Text.lower (stripped value)

def comesBefore (a b : String) : Bool :=
  a.toList.lex b.toList fun x y => x.toNat.blt y.toNat

/-- Put a name in its place, unless it is there. -/
def insertName (name : String) : List String → List String
  | [] => [name]
  | other :: names =>
    if name = other then other :: names
    else if comesBefore name other then name :: other :: names
    else other :: insertName name names

def nameSet (values : List Json) : List String :=
  ((values.map stripped).filter (· ≠ "")).foldr insertName []

def sameNames (names names' : List String) : Bool :=
  names.all (· ∈ names') && names'.all (· ∈ names)

/-- The values of `for value in (values or [])`, unless that raises. -/
def iterated : Json → Option (List Json)
  | .arr xs => some xs
  | .str s => some (s.toList.map fun c => .str (String.ofList [c]))
  | .obj fields => some (fields.map fun f => .str f.1)
  | value => if value.truthy then none else some []

/-- `isinstance(value, (list, tuple, set, frozenset))`. -/
def isList : Json → Bool
  | .arr _ => true
  | _ => false

/-! ## What a row tells -/

/-- `_target_version_from_task`. -/
def NodeTask.targetVersion (task : NodeTask) : String :=
  let target := stripped (task.payload.get "target_version")
  if target ≠ "" then target else stripped (task.result.get "target_version")

/-- `_target_commit_from_task`. -/
def NodeTask.targetCommit (task : NodeTask) : String :=
  let target := strippedLower (task.payload.get "target_commit")
  if target ≠ "" then target else strippedLower (task.result.get "target_commit")

/-- `_task_observed_build_identity`. -/
def observedBuildIdentity (result : Dict) : String × String :=
  (stripped (result.get "observed_agent_version"),
    strippedLower (result.get "observed_agent_commit"))

/-- `_task_build_matches_target`. -/
def buildMatchesTarget (result : Dict) (targetVersion targetCommit : String) : Bool :=
  let build := observedBuildIdentity result
  if targetVersion = "" || build.1 ≠ targetVersion then false
  else
    let expected := Text.lower (Text.strip targetCommit)
    expected = "" || build.2 = expected

/-- `_task_observed_capabilities`. -/
def observedCapabilities (result : Dict) : List String :=
  match result.get "observed_capabilities" with
  | .arr raw => nameSet raw
  | _ => []

def insightSafeRestoreCapability : String := "insight_safe_restore_v1"

def requiredUpgradeCapabilities (gateway : Bool) : List String :=
  if gateway then [insightSafeRestoreCapability] else []

def NodeTask.isDetachedLifecycleTask (task : NodeTask) : Bool :=
  isLifecycleKind task.kind &&
    (isDetachedMode task.result ||
      match task.result.get "last_progress" with
      | .obj progress => isDetachedMode progress
      | _ => false)

def NodeTask.isRunningUpgrade (task : NodeTask) : Bool :=
  task.kind = "agent.upgrade" && task.isLifecycleCorrelatedTask && task.status.isActive

/-! ## Sessions -/

/-- The session that the Agent had when the command was sent, as far as the row knows it. -/
def NodeTask.baseline (task : NodeTask) : String :=
  let detached := stripped (task.result.get "detached_session_id")
  if detached ≠ "" then detached else stripped (task.payload.get "pre_upgrade_session_id")

def NodeTask.observes (task : NodeTask) (session : String) : Bool :=
  session ≠ "" && task.isRunningUpgrade && task.isDetachedLifecycleTask && task.baseline ≠ ""

def keepBaseline (task : NodeTask) (now : Instant) : Dict :=
  if stripped (task.result.get "detached_session_id") ≠ "" then task.result
  else
    let result := task.result.set "detached_session_id" (.str task.baseline)
    Dict.set result "detached_session_observed_at" (.str now.iso)

/-- The session that the Agent has come back with. -/
def observeSession (result : Dict) (session : String) (now : Instant) : Dict :=
  if result.get "reconnect_session_id" = .str session then result
  else
    let result := result.set "reconnect_session_id" (.str session)
    let result := Dict.set result "reconnect_observed_at" (.str now.iso)
    Dict.pop result "verify_started_at"

def mergedBuild (result : Dict) (session : String) (inventory : Dict) : String × String :=
  let version := stripped (inventory.get "agent_version")
  let commit := strippedLower (inventory.get "agent_commit")
  if result.get "inventory_session_id" = .str session then
    let previous := observedBuildIdentity result
    if version = "" then previous
    else if version = previous.1 && commit = "" then (version, previous.2)
    else (version, commit)
  else (version, commit)

def mergedCapabilities (result : Dict) (session : String) (inventory : Dict) :
    Option (List String) :=
  let incoming := inventory.get "capabilities"
  (iterated incoming).map fun values =>
    if result.get "inventory_session_id" = .str session && !isList incoming then
      observedCapabilities result
    else nameSet values

/-- The build and the capabilities of an inventory, unless its capabilities cannot be
read. -/
def observeInventory (result : Dict) (session : String) (inventory : Dict) (now : Instant) :
    Option Dict :=
  (mergedCapabilities result session inventory).map fun capabilities =>
    let build := mergedBuild result session inventory
    if result.get "inventory_session_id" = .str session &&
        observedBuildIdentity result = build &&
        sameNames capabilities (observedCapabilities result) then result
    else
      let result := result.set "inventory_session_id" (.str session)
      let result := Dict.set result "inventory_observed_at" (.str now.iso)
      let result := Dict.set result "observed_agent_version" (.str build.1)
      let result := Dict.set result "observed_agent_commit" (.str build.2)
      let result := Dict.set result "observed_capabilities" (.arr (capabilities.map .str))
      Dict.pop result "verify_started_at"

/-- `record_upgrade_session_observation`, unless it raises. -/
def recordUpgradeSessionObservation (task : NodeTask) (sessionId : String)
    (inventory : Option Dict) (now : Instant) : Option NodeTask :=
  let session := Text.strip sessionId
  if !task.observes session then some task
  else
    let result := keepBaseline task now
    if task.baseline = session then some { task with result := result }
    else
      let result := observeSession result session now
      match inventory with
      | none => some { task with result := result }
      | some inventory =>
        (observeInventory result session inventory now).map fun result =>
          { task with result := result }

def recordUpgradeDisconnect (task : NodeTask) (now : Instant) : NodeTask :=
  if task.isRunningUpgrade && task.isDetachedLifecycleTask then
    let result := task.result.set "disconnect_observed_at" (.str now.iso)
    { task with result := Dict.pop result "verify_started_at" }
  else task

/-! ## Verification -/

/-- What a verification sees of the route of the Agent. -/
structure RouteView where
  session : Option String
  routable : Bool
  online : Bool

def sessionsMatch (result : Dict) (current : String) : Bool :=
  let detached := stripped (result.get "detached_session_id")
  let reconnect := stripped (result.get "reconnect_session_id")
  let inventory := stripped (result.get "inventory_session_id")
  detached ≠ "" && reconnect ≠ "" && inventory ≠ "" && current = reconnect &&
    reconnect ≠ detached && inventory = reconnect

def upgradeVerifyReady (gateway : Bool) (view : RouteView) (task : NodeTask) : Bool :=
  task.isDetachedLifecycleTask &&
    strippedLower (task.result.get "host_upgrade_status") = "success" &&
    view.session.any (fun current => current ≠ "" && view.routable && view.online &&
      sessionsMatch task.result current) &&
    buildMatchesTarget task.result task.targetVersion task.targetCommit &&
    (requiredUpgradeCapabilities gateway).all (· ∈ observedCapabilities task.result)

/-- `_verify_started_at_from_task`. -/
def verifyStartedAt (parse : String → Option Time) (result : Dict) : Option Time :=
  let raw := result.get "verify_started_at"
  if raw.truthy then parse raw.strOr else none

section Verification

variable (conf : Settings) (parse : String → Option Time) (stable : Int) (gateway : Bool)

def persistUpgradeTaskResult (task : NodeTask) (result : Dict) (now : Instant) : NodeTask :=
  (completeTask conf task "running" result "" true now).task

def clearUpgradeVerifyClock (task : NodeTask) (now : Instant) : NodeTask :=
  if (task.result.get "verify_started_at").truthy then
    persistUpgradeTaskResult conf task (task.result.pop "verify_started_at") now
  else task

def advanceUpgradeVerify (view : RouteView) (task : NodeTask) (now : Instant) : NodeTask :=
  if task.kind ≠ "agent.upgrade" || !task.status.isActive then task
  else if !upgradeVerifyReady gateway view task then clearUpgradeVerifyClock conf task now
  else
    let started := verifyStartedAt parse task.result
    let task := if started.isSome then task
      else persistUpgradeTaskResult conf task
        (task.result.set "verify_started_at" (.str now.iso)) now
    if now.time - started.getD now.time < stable * 1000000 then task
    else
      let merged := task.result.set "verified" (.bool true)
      (completeTask conf task "success" (Dict.pop merged "verify_started_at") "" false now).task

def upgradeTimeoutFailure (view : RouteView) (task : NodeTask) : String × String :=
  let result := task.result
  let detached := stripped (result.get "detached_session_id")
  let reconnect := stripped (result.get "reconnect_session_id")
  let inventory := stripped (result.get "inventory_session_id")
  let build := observedBuildIdentity result
  let mismatch := ("TARGET_BUILD_MISMATCH", "Agent version does not match the upgrade target.")
  if strippedLower (result.get "host_upgrade_status") = "failed" then
    ("HOST_UPGRADE_FAILED", if (result.get "host_error").truthy then (result.get "host_error").strOr
      else "Agent failed to upgrade on the host.")
  else if !(result.get "reconnect_session_id").truthy then
    if gateway then ("UPGRADE_VERIFICATION_TIMEOUT", "Upgrade verification timed out.")
    else ("AGENT_RECONNECT_TIMEOUT", "Agent did not reconnect after the upgrade.")
  else if !(result.get "inventory_session_id").truthy then
    ("POST_UPGRADE_INVENTORY_TIMEOUT",
      "Agent reconnected but did not report post-upgrade host information.")
  else if detached = "" || reconnect = detached then
    ("AGENT_CONNECTION_UNSTABLE", "Agent did not establish a new connection after the upgrade.")
  else if inventory ≠ reconnect then
    ("POST_UPGRADE_INVENTORY_TIMEOUT",
      "Agent reconnected, but host information belongs to an older session.")
  else if !(view.session.any (· ≠ "") && view.routable) then
    ("AGENT_NOT_ROUTABLE", "Agent is online in the console but cannot be reached.")
  else if view.session ≠ some reconnect then
    ("AGENT_CONNECTION_UNSTABLE", "Agent connection remained unstable during verification.")
  else if build.1 = "" then
    ("POST_UPGRADE_BUILD_IDENTITY_MISSING",
      "Agent reconnected but did not report its post-upgrade build identity.")
  else if build.1 ≠ task.targetVersion then mismatch
  else if task.targetCommit ≠ "" && build.2 = "" then
    ("POST_UPGRADE_BUILD_IDENTITY_MISSING",
      "Agent reconnected but did not report its post-upgrade build commit.")
  else if !buildMatchesTarget result task.targetVersion task.targetCommit then
    ("TARGET_BUILD_MISMATCH", "Agent version or build does not match the upgrade target.")
  else
    let missing := (requiredUpgradeCapabilities gateway).filter
      (· ∉ observedCapabilities result)
    if missing ≠ [] then
      ("POST_UPGRADE_CAPABILITY_TIMEOUT",
        "Agent reconnected, but required capabilities were not reported: " ++
          ", ".intercalate missing ++ ".")
    else ("UPGRADE_VERIFICATION_TIMEOUT", "Upgrade verification timed out.")

/-- `_fail_stale_upgrade_task`. `first` and `last` are what it sees before and after it has
tried a verification, which sees `view`. The failure is stored with the result that was read
at the beginning. -/
def failStaleUpgradeTask (timedOut : Bool) (first view last : RouteView) (task : NodeTask)
    (now : Instant) : NodeTask :=
  if task.kind ≠ "agent.upgrade" || !task.status.isActive || !task.isDetachedLifecycleTask ||
      !timedOut then task
  else
    let advanced := if task.targetVersion ≠ "" && upgradeVerifyReady gateway first task then
        advanceUpgradeVerify conf parse stable gateway view task now
      else task
    if advanced.status = .success then advanced
    else
      let failure := upgradeTimeoutFailure gateway last task
      let result := task.result.set "failure_code" (.str failure.1)
      (completeTask conf advanced "failed" (Dict.set result "failed_at" (.str now.iso)) failure.2
        true now).task

end Verification

end HyperFileLens.Node
