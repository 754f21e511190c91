import HyperFileLens.Node.UpgradeFrames

/-!
# The evidence of a history

The result of a row tells what a history comes to.

*Evidence.*  `Evidence` relates a result to a watch. It holds of whatever has the same at the
keys of the evidence (`Evidence.sameAt`).

*Observations.*  An observation brings the evidence to the watch of a longer history
(`evidence_observed`). So do a disconnect and the start of the clock.
-/

namespace HyperFileLens.Node

variable {parse : String → Option Time} {pre : String} {r r' : Dict} {w : UpgradeWatch}

/-! ## Names -/

def SameMembers (names names' : List String) : Prop := ∀ name, name ∈ names ↔ name ∈ names'

theorem SameMembers.refl (names : List String) : SameMembers names names := fun _ => .rfl

theorem sameNames_iff {names names' : List String} :
    sameNames names names' = true ↔ SameMembers names names' := by
  rw [sameNames, Bool.and_eq_true, List.all_eq_true, List.all_eq_true]
  constructor
  · intro h name
    exact ⟨fun hmem => by simpa using h.1 name hmem, fun hmem => by simpa using h.2 name hmem⟩
  · intro h
    exact ⟨fun name hmem => by simpa using (h name).mp hmem,
      fun name hmem => by simpa using (h name).mpr hmem⟩

theorem sameNames_congr {a a' b b' : List String} (ha : SameMembers a a') (hb : SameMembers b b') :
    sameNames a b = sameNames a' b' := by
  rw [Bool.eq_iff_iff, sameNames_iff, sameNames_iff]
  constructor
  · intro h name
    rw [← ha name, ← hb name, h name]
  · intro h name
    rw [ha name, hb name, h name]

theorem mem_insertName {name other : String} {names : List String} :
    other ∈ insertName name names ↔ other = name ∨ other ∈ names := by
  induction names with
  | nil => simp [insertName]
  | cons head names ih =>
    rw [insertName]
    split
    · rename_i h
      subst h
      simp
    · split
      · rw [List.mem_cons]
      · rw [List.mem_cons, ih, List.mem_cons]
        tauto

theorem mem_nameSet {name : String} {values : List Json} :
    name ∈ nameSet values ↔ name ≠ "" ∧ ∃ value ∈ values, stripped value = name := by
  have hfold (names : List String) : name ∈ names.foldr insertName [] ↔ name ∈ names := by
    induction names with
    | nil => rfl
    | cons head names ih => rw [List.foldr_cons, mem_insertName, ih, List.mem_cons]
  rw [nameSet, hfold, List.mem_filter, List.mem_map, decide_eq_true_eq]
  exact and_comm

@[simp] theorem stripped_str (s : String) : stripped (.str s) = Text.strip s := rfl

@[simp] theorem stripped_stripped (v : Json) : Text.strip (stripped v) = stripped v :=
  Text.strip_strip _

@[simp] theorem strippedLower_strippedLower (v : Json) :
    strippedLower (.str (strippedLower v)) = strippedLower v := by
  rw [strippedLower, stripped_str, strippedLower, Text.strip_lower (stripped_stripped v),
    Text.lower_lower]

theorem nameSet_texts (values : List Json) :
    SameMembers (nameSet ((nameSet values).map .str)) (nameSet values) := fun name => by
  rw [mem_nameSet]
  constructor
  · rintro ⟨-, value, hvalue, rfl⟩
    obtain ⟨other, hother, rfl⟩ := List.mem_map.mp hvalue
    obtain ⟨-, v, -, rfl⟩ := mem_nameSet.mp hother
    rw [stripped_str, stripped_stripped]
    exact hother
  · intro h
    obtain ⟨hne, v, -, rfl⟩ := mem_nameSet.mp h
    exact ⟨hne, _, List.mem_map_of_mem h, by rw [stripped_str, stripped_stripped]⟩

/-! ## Evidence -/

/-- The build and the capabilities of a result are what a session has told. -/
structure ShowsInventory (r : Dict) (known : UpgradeInventory) : Prop where
  session : r.get "inventory_session_id" = .str known.session
  kept : Text.strip known.session = known.session
  build : observedBuildIdentity r = (known.version, known.commit)
  capabilities : SameMembers (observedCapabilities r) known.capabilities

/-- The clock of a result is the one of a watch, or stands still. -/
def ShowsClock (parse : String → Option Time) (r : Dict) (w : UpgradeWatch) : Prop :=
  r.get "verify_started_at" = .null ∨ ∃ text t, r.get "verify_started_at" = .str text ∧
    text ≠ "" ∧ parse text = some t ∧ w.clock = some t

/-- A result tells what a watch knows. `pre` is the session of before the command was sent. -/
structure Evidence (parse : String → Option Time) (pre : String) (r : Dict) (w : UpgradeWatch) :
    Prop where
  detached : r.get "detached_session_id" = .null ∨
    (r.get "detached_session_id" = .str pre ∧ pre ≠ "")
  session : r.get "reconnect_session_id" = w.session.elim .null .str
  other : ∀ s, w.session = some s → Text.strip s = s ∧ s ≠ pre
  noInventory : w.inventory = none → r.get "inventory_session_id" = .null
  inventory : ∀ known, w.inventory = some known → ShowsInventory r known
  clock : ShowsClock parse r w

def inventoryKeys : List String :=
  ["inventory_session_id", "observed_agent_version", "observed_agent_commit",
    "observed_capabilities"]

/-- The keys of the evidence, without the clock. -/
def buildKeys : List String := "detached_session_id" :: "reconnect_session_id" :: inventoryKeys

variable {known : UpgradeInventory}

theorem ShowsInventory.sameAt (h : ShowsInventory r known) (hsame : SameAt inventoryKeys r r') :
    ShowsInventory r' known where
  session := by
    rw [hsame "inventory_session_id" (by decide)]
    exact h.session
  kept := h.kept
  build := by
    rw [observedBuildIdentity, hsame "observed_agent_version" (by decide),
      hsame "observed_agent_commit" (by decide)]
    exact h.build
  capabilities := by
    rw [observedCapabilities, hsame "observed_capabilities" (by decide)]
    exact h.capabilities

theorem Evidence.withClock {w' : UpgradeWatch} (h : Evidence parse pre r w)
    (hsame : SameAt buildKeys r r') (hsession : w'.session = w.session)
    (hinventory : w'.inventory = w.inventory) (hclock : ShowsClock parse r' w') :
    Evidence parse pre r' w' where
  detached := by
    rw [hsame "detached_session_id" (by decide)]
    exact h.detached
  session := by
    rw [hsame "reconnect_session_id" (by decide), hsession]
    exact h.session
  other := by
    rw [hsession]
    exact h.other
  noInventory := fun hnone => by
    rw [hsame "inventory_session_id" (by decide)]
    exact h.noInventory (hinventory ▸ hnone)
  inventory := fun known hknown => (h.inventory known (hinventory ▸ hknown)).sameAt
    (hsame.mono (by decide))
  clock := hclock

theorem Evidence.sameAt (h : Evidence parse pre r w) (hsame : SameAt evidenceKeys r r') :
    Evidence parse pre r' w :=
  h.withClock (hsame.mono (by decide)) rfl rfl (by
    rw [ShowsClock, hsame "verify_started_at" (by decide)]
    exact h.clock)

theorem Evidence.host (h : Evidence parse pre r w) (succeeded : Bool) :
    Evidence parse pre r (w.step (.host succeeded)) :=
  h.withClock (.refl _ r) rfl rfl h.clock

/-! ## What is observed -/

variable {task : NodeTask} {now : Instant}

theorem Evidence.baseline_eq (task : NodeTask) (h : Evidence parse pre task.result w)
    (hpayload : stripped (task.payload.get "pre_upgrade_session_id") = pre) :
    task.baseline = pre := by
  rw [NodeTask.baseline]
  rcases h.detached with hnull | ⟨hkept, hne⟩
  · rw [hnull, hpayload]
    rfl
  · have hstrip : stripped (task.result.get "detached_session_id") = pre := by
      rw [hkept, stripped_str, ← hpayload, stripped_stripped]
    rw [hstrip, if_pos hne]

theorem evidence_keepBaseline (h : Evidence parse pre task.result w)
    (hpayload : stripped (task.payload.get "pre_upgrade_session_id") = pre) (hpre : pre ≠ "") :
    Evidence parse pre (keepBaseline task now) w := by
  rw [keepBaseline, h.baseline_eq task hpayload]
  split
  · exact h
  have hsame : SameAt ("reconnect_session_id" :: "verify_started_at" :: inventoryKeys) task.result
      ((task.result.set "detached_session_id" (.str pre)).set "detached_session_observed_at"
        (.str now.iso)) :=
    ((SameAt.refl _ _).set (by decide) _).set (by decide) _
  refine ⟨.inr ⟨?_, hpre⟩, ?_, h.other, fun hnone => ?_, fun known hknown =>
    (h.inventory known hknown).sameAt (hsame.mono (by decide)), ?_⟩
  · dsimp only
    rw [Dict.get_set_of_ne _ _ (by decide), Dict.get_set_self]
  · rw [hsame "reconnect_session_id" (by decide)]
    exact h.session
  · rw [hsame "inventory_session_id" (by decide)]
    exact h.noInventory hnone
  · rw [ShowsClock, hsame "verify_started_at" (by decide)]
    exact h.clock

variable {session : String}

theorem evidence_observeSession (h : Evidence parse pre r w)
    (hstrip : Text.strip session = session) (hne : session ≠ pre) :
    Evidence parse pre (observeSession r session now) (w.step (.session session)) := by
  have hsame : r.get "reconnect_session_id" = .str session ↔ w.session = some session := by
    rw [h.session]
    cases w.session with
    | none => simp
    | some s => simp
  rw [observeSession, UpgradeWatch.step]
  split
  · rename_i hold
    rw [if_pos (hsame.mp hold)]
    exact h
  rename_i hold
  rw [if_neg fun hs => hold (hsame.mpr hs)]
  have hkept : SameAt ("detached_session_id" :: inventoryKeys) r
      (((r.set "reconnect_session_id" (.str session)).set "reconnect_observed_at"
        (.str now.iso)).pop "verify_started_at") :=
    (((SameAt.refl _ _).set (by decide) _).set (by decide) _).pop (by decide)
  refine ⟨?_, ?_, fun s hs => ?_, fun hnone => ?_, fun known hknown =>
    (h.inventory known hknown).sameAt (hkept.mono (by decide)), .inl ?_⟩
  · rw [hkept "detached_session_id" (by decide)]
    exact h.detached
  · dsimp only
    rw [Dict.get_pop_of_ne _ (by decide), Dict.get_set_of_ne _ _ (by decide), Dict.get_set_self]
    rfl
  · cases hs
    exact ⟨hstrip, hne⟩
  · rw [hkept "inventory_session_id" (by decide)]
    exact h.noInventory hnone
  · exact Dict.get_pop_self _ _

theorem told_other {known : Option UpgradeInventory}
    (h : ∀ k, known = some k → k.session ≠ session) (inventory : Dict) :
    told known session inventory =
      ⟨session, stripped (inventory.get "agent_version"),
        strippedLower (inventory.get "agent_commit"), capabilitiesOf inventory⟩ := by
  have hnone : known.filter (fun known => known.session = session) = none := by
    rw [Option.filter_eq_none_iff]
    intro k hk hsession
    exact h k hk (by simpa using hsession)
  rw [told, hnone]

theorem told_same (inventory : Dict) :
    told (some known) known.session inventory =
      { session := known.session
        version := if stripped (inventory.get "agent_version") = "" then known.version
          else stripped (inventory.get "agent_version")
        commit := if stripped (inventory.get "agent_version") = "" ||
            (stripped (inventory.get "agent_version") = known.version &&
              strippedLower (inventory.get "agent_commit") = "") then known.commit
          else strippedLower (inventory.get "agent_commit")
        capabilities := if isList (inventory.get "capabilities") then capabilitiesOf inventory
          else known.capabilities } := by
  have hsome : (some known).filter (fun k => k.session = known.session) = some known := by simp
  rw [told, hsome]

variable {inventory : Dict} {capabilities : List String}

theorem merged_told (h : Evidence parse pre r w)
    (hcaps : mergedCapabilities r session inventory = some capabilities) :
    mergedBuild r session inventory =
        ((told w.inventory session inventory).version, (told w.inventory session inventory).commit) ∧
      SameMembers capabilities (told w.inventory session inventory).capabilities := by
  obtain ⟨values, hvalues, hcaps⟩ := Option.map_eq_some_iff.mp hcaps
  have hof : capabilitiesOf inventory = nameSet values := by
    rw [capabilitiesOf, hvalues]
    rfl
  by_cases hsession : r.get "inventory_session_id" = .str session
  · obtain ⟨known, hknown, rfl⟩ : ∃ known, w.inventory = some known ∧ known.session = session := by
      cases hknown : w.inventory with
      | none =>
        rw [h.noInventory hknown] at hsession
        cases hsession
      | some known =>
        rw [(h.inventory known hknown).session] at hsession
        exact ⟨known, rfl, Json.str.inj hsession⟩
    have hshows := h.inventory known hknown
    rw [hknown, told_same, mergedBuild, if_pos hsession, hshows.build]
    refine ⟨?_, ?_⟩
    · grind
    · rw [hof, ← hcaps, hsession]
      cases hlist : isList (inventory.get "capabilities") with
      | true => simpa using SameMembers.refl _
      | false => simpa using hshows.capabilities
  · have hother : ∀ k, w.inventory = some k → k.session ≠ session := fun k hk heq =>
      hsession (heq ▸ (h.inventory k hk).session)
    rw [told_other hother, mergedBuild, if_neg hsession, ← hcaps]
    refine ⟨rfl, ?_⟩
    rw [hof]
    simpa [hsession] using SameMembers.refl _

theorem mergedBuild_kept (r : Dict) (session : String) (inventory : Dict) :
    Text.strip (mergedBuild r session inventory).1 = (mergedBuild r session inventory).1 ∧
      strippedLower (.str (mergedBuild r session inventory).2) =
        (mergedBuild r session inventory).2 := by
  have hprevious : Text.strip (observedBuildIdentity r).1 = (observedBuildIdentity r).1 ∧
      strippedLower (.str (observedBuildIdentity r).2) = (observedBuildIdentity r).2 :=
    ⟨stripped_stripped _, strippedLower_strippedLower _⟩
  rw [mergedBuild]
  split
  · dsimp only
    split
    · exact hprevious
    · split
      · exact ⟨stripped_stripped _, hprevious.2⟩
      · exact ⟨stripped_stripped _, strippedLower_strippedLower _⟩
  · exact ⟨stripped_stripped _, strippedLower_strippedLower _⟩

theorem mergedCapabilities_kept (h : mergedCapabilities r session inventory = some capabilities) :
    SameMembers (nameSet (capabilities.map .str)) capabilities := by
  obtain ⟨values, -, rfl⟩ := Option.map_eq_some_iff.mp h
  split
  · cases hraw : r.get "observed_capabilities" with
    | arr raw =>
      rw [observedCapabilities, hraw]
      exact nameSet_texts raw
    | null => simpa [observedCapabilities, hraw, nameSet] using SameMembers.refl _
    | bool b => simpa [observedCapabilities, hraw, nameSet] using SameMembers.refl _
    | int n => simpa [observedCapabilities, hraw, nameSet] using SameMembers.refl _
    | float x => simpa [observedCapabilities, hraw, nameSet] using SameMembers.refl _
    | str s => simpa [observedCapabilities, hraw, nameSet] using SameMembers.refl _
    | obj fields => simpa [observedCapabilities, hraw, nameSet] using SameMembers.refl _
  · exact nameSet_texts values

theorem evidence_observeInventory (h : Evidence parse pre r w)
    (hstrip : Text.strip session = session)
    (hobserved : observeInventory r session inventory now = some r') :
    Evidence parse pre r' (w.step (.inventory session inventory)) := by
  obtain ⟨capabilities, hcaps, heq⟩ := Option.map_eq_some_iff.mp hobserved
  obtain ⟨hbuild, hmembers⟩ := merged_told h hcaps
  have hsession : (told w.inventory session inventory).session = session := by
    rw [told]
    split <;> rfl
  -- The row and the watch agree on whether the inventory changes anything.
  have hsame : (decide (r.get "inventory_session_id" = .str session) &&
      decide (observedBuildIdentity r = mergedBuild r session inventory) &&
      sameNames capabilities (observedCapabilities r)) =
        w.inventory.any (·.same (told w.inventory session inventory)) := by
    cases hknown : w.inventory with
    | none =>
      rw [h.noInventory hknown]
      rfl
    | some known =>
      have hshows := h.inventory known hknown
      rw [Option.any_some, UpgradeInventory.same, hshows.session, hshows.build, hbuild, hknown,
        sameNames_congr hmembers hshows.capabilities]
      rw [hknown] at hsession
      grind
  have hstep : w.step (.inventory session inventory) =
      if w.inventory.any (·.same (told w.inventory session inventory)) then w
      else { w with inventory := some (told w.inventory session inventory), clock := none } := rfl
  rw [hstep]
  dsimp only at heq
  split at heq
  · rename_i hold
    rw [hsame] at hold
    rw [if_pos hold, ← heq]
    exact h
  rename_i hnew
  rw [hsame] at hnew
  rw [if_neg hnew, ← heq]
  have hkept : SameAt ["detached_session_id", "reconnect_session_id"] r
      ((((((r.set "inventory_session_id" (.str session)).set "inventory_observed_at"
        (.str now.iso)).set "observed_agent_version" (.str (mergedBuild r session inventory).1)).set
        "observed_agent_commit" (.str (mergedBuild r session inventory).2)).set
        "observed_capabilities" (.arr (capabilities.map .str))).pop "verify_started_at") :=
    ((((((SameAt.refl _ _).set (by decide) _).set (by decide) _).set (by decide) _).set
      (by decide) _).set (by decide) _).pop (by decide)
  refine ⟨?_, ?_, h.other, fun hnone => (by cases hnone), fun known hknown => ?_,
    .inl (Dict.get_pop_self _ _)⟩
  · rw [hkept "detached_session_id" (by decide)]
    exact h.detached
  · rw [hkept "reconnect_session_id" (by decide)]
    exact h.session
  cases hknown
  refine ⟨?_, by rw [hsession, hstrip], ?_, ?_⟩
  · rw [hsession]
    simp (disch := decide) only [Dict.get_pop_of_ne, Dict.get_set_of_ne, Dict.get_set_self]
  · rw [observedBuildIdentity]
    simp (disch := decide) only [Dict.get_pop_of_ne, Dict.get_set_of_ne, Dict.get_set_self]
    obtain ⟨hversion, hcommit⟩ := mergedBuild_kept r session inventory
    rw [stripped_str, hversion, hcommit, hbuild]
  · rw [observedCapabilities]
    simp (disch := decide) only [Dict.get_pop_of_ne, Dict.get_set_self]
    exact fun name => (mergedCapabilities_kept hcaps name).trans (hmembers name)

end HyperFileLens.Node
