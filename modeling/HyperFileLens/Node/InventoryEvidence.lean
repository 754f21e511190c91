import HyperFileLens.Library.Json
import HyperFileLens.Library.Transition

/-!
# Inventory of a Node

The heartbeats of an Agent bring an inventory. The WebSocket stores it at once
(`apply_heartbeat_inventory_snapshot`), and again when the heartbeat comes out of the queue
(`_process_heartbeat_followup`). Both ask Redis first whether the session still owns the route,
and write the row in a transaction of its own later.

*Sessions.*  They are numbered by their connections, and an answer of Redis is true when it is
given. The capabilities that a row has belong to one session (`Delivered`).

*Timely writes.*  Nothing checks the answer when the row is locked. A write is `Timely` when its
session is still the newest.
-/

namespace HyperFileLens.Node.InventoryEvidence

open Transition

/-! ## Rows -/

/-- A Node. `columns` are the version, the addresses and the name, and `inventory` and the two
sessions are in its metadata. -/
structure NodeRow (γ : Type*) where
  lastSeenAt : Option Nat
  columns : γ
  inventory : Option Dict
  inventorySessionId : Option Nat
  inventoryCapabilitiesSessionId : Option Nat

/-- What `normalize_agent_network_state` leaves of an inventory, and the columns that are computed
from it. The capabilities stay what they are. -/
structure NetworkRules (γ : Type*) where
  metadataInventory : Dict → Dict
  columns : γ → Dict → γ
  capabilities : ∀ d, Dict.get? (metadataInventory d) "capabilities" = Dict.get? d "capabilities"
  keyed : ∀ d, Dict.Keyed (metadataInventory d)

/-- A heartbeat, with no fields in place of no inventory. -/
structure Heartbeat where
  session : Nat
  inventory : Dict
  queued : Bool

def cleanCapabilities (values : List Json) : Json :=
  .arr (((values.map fun v => Text.strip v.strOr).filter (· ≠ "")).map .str)

def isList : Option Json → Bool
  | some (.arr _) => true
  | _ => false

/-- The capabilities that are stored with a heartbeat that has some. -/
def deliveredCapabilities (inventory : Dict) : Option Json :=
  match Dict.get? inventory "capabilities" with
  | some (.arr values) => some (cleanCapabilities values)
  | v => v

variable {γ : Type*} (N : NetworkRules γ)

namespace NodeRow

def capabilities (row : NodeRow γ) : Option Json :=
  Dict.get? (row.inventory.getD []) "capabilities"

def fillCapabilities (row : NodeRow γ) (session : Nat) (values : List Json) : NodeRow γ :=
  { row with
    inventory := some (Dict.set (row.inventory.getD []) "capabilities" (cleanCapabilities values))
    inventorySessionId := some session
    inventoryCapabilitiesSessionId := some session }

/-- The row with the updates of `_merge_heartbeat_inventory_updates`. -/
def mergeHeartbeatInventory (row : NodeRow γ) (session : Nat) (inventory : Dict) : NodeRow γ :=
  let invOnly := Dict.pop (N.metadataInventory inventory) "metrics"
  let (invOnly, capabilitySession) :=
    match Dict.get? inventory "capabilities" with
    | some (.arr values) =>
      (Dict.set invOnly "capabilities" (cleanCapabilities values), some session)
    | _ =>
      if row.inventorySessionId ≠ some session ∨
          row.inventoryCapabilitiesSessionId ≠ some session then
        (Dict.set invOnly "capabilities" (.arr []), none)
      else (invOnly, row.inventoryCapabilitiesSessionId)
  { row with
    columns := N.columns row.columns inventory
    inventory :=
      if invOnly = [] then row.inventory
      else some (Dict.update (row.inventory.getD []) invOnly)
    inventorySessionId := some session
    inventoryCapabilitiesSessionId := capabilitySession }

/-- `event_is_current`. -/
def isCurrent (row : NodeRow γ) (observedAt : Nat) : Bool := row.lastSeenAt.all (· ≤ observedAt)

/-- `_persist_heartbeat_snapshot`, for a Node that is not deleted. -/
def persistHeartbeatSnapshot (row : NodeRow γ) (heartbeat : Heartbeat) (observedAt : Nat)
    (mergeInventory allowStale : Bool) : NodeRow γ × Bool :=
  if row.isCurrent observedAt then
    let seen := { row with lastSeenAt := some observedAt }
    if mergeInventory ∧ heartbeat.inventory ≠ [] then
      (seen.mergeHeartbeatInventory N heartbeat.session heartbeat.inventory, true)
    else (seen, true)
  else
    match Dict.get? heartbeat.inventory "capabilities" with
    | some (.arr values) =>
      if mergeInventory ∧ allowStale ∧
          ¬(row.inventoryCapabilitiesSessionId = some heartbeat.session ∧
            isList row.capabilities) then
        (row.fillCapabilities heartbeat.session values, true)
      else (row, false)
    | _ => (row, false)

def sessionHasCapabilitySnapshot (row : NodeRow γ) (session : Nat) : Bool :=
  row.inventorySessionId = some session ∧ row.inventoryCapabilitiesSessionId = some session ∧
    isList row.capabilities

end NodeRow

/-! ## Calls -/

inductive Ownership where
  | current
  | stale
  | unknown
deriving DecidableEq

/-- Where the call for a heartbeat is: what it does with the row next. -/
inductive Stage where
  | start
  /-- The write of the WebSocket, with the inventory if the session is current. -/
  | hot (current : Bool)
  /-- The first write of a call from the queue. -/
  | liveness (observedAt : Nat) (current : Bool)
  /-- `_session_has_capability_snapshot`. -/
  | check (observedAt : Nat) (applied : Bool)
  /-- The second write of a call from the queue. -/
  | full (observedAt : Nat) (missingCapabilities : Bool)
  | done
deriving DecidableEq

structure State (γ : Type*) where
  row : NodeRow γ
  /-- The newest session. -/
  newest : Nat
  stage : Nat → Stage

/-- What the environment chooses for a step of a call. -/
structure Choice where
  ownership : Ownership
  /-- The time at which a heartbeat is observed. -/
  now : Nat
  /-- `_should_process_full_inventory`. -/
  shouldProcess : Bool

inductive Label where
  | connect
  | advance (call : Nat) (choice : Choice)

def Ownership.isTrue (newest session : Nat) : Ownership → Bool
  | .current => session = newest
  | .stale => session ≠ newest
  | .unknown => true

def Stage.answered (heartbeat : Heartbeat) (choice : Choice) : Stage :=
  match choice.ownership with
  | .stale => .done
  | ownership =>
    if heartbeat.queued then .liveness choice.now (ownership = .current)
    else if heartbeat.inventory = [] then .done
    else .hot (ownership = .current)

/-- The stage after `_session_has_capability_snapshot`. -/
def Stage.checked (row : NodeRow γ) (heartbeat : Heartbeat) (observedAt : Nat) (applied : Bool)
    (choice : Choice) : Stage :=
  let missing := isList (Dict.get? heartbeat.inventory "capabilities") &&
    !row.sessionHasCapabilitySnapshot heartbeat.session
  if heartbeat.inventory ≠ [] ∧ (applied ∧ choice.shouldProcess ∨ missing) then
    .full observedAt missing
  else .done

variable (calls : Nat → Heartbeat)

def State.move (s : State γ) (call : Nat) (stage : Stage) (row : NodeRow γ) : State γ :=
  { s with row := row, stage := fun c => if c = call then stage else s.stage c }

def State.advance (s : State γ) (call : Nat) (choice : Choice) : Option (State γ) :=
  let heartbeat := calls call
  match s.stage call with
  | .start =>
    if choice.ownership.isTrue s.newest heartbeat.session then
      some (s.move call (.answered heartbeat choice) s.row)
    else none
  | .hot current =>
    some (s.move call .done
      (s.row.persistHeartbeatSnapshot N heartbeat choice.now current false).1)
  | .liveness observedAt current =>
    let written := s.row.persistHeartbeatSnapshot N heartbeat observedAt false false
    some (s.move call (if current then .check observedAt written.2 else .done) written.1)
  | .check observedAt applied =>
    some (s.move call (.checked s.row heartbeat observedAt applied choice) s.row)
  | .full observedAt missing =>
    some (s.move call .done
      (s.row.persistHeartbeatSnapshot N heartbeat observedAt true missing).1)
  | .done => none

/-- The heartbeats of one Node, each with a call. -/
def inventorySystem : System (State γ) Label where
  init s := s.row.inventorySessionId = none ∧ s.row.inventoryCapabilitiesSessionId = none ∧
    ∀ call, s.stage call = .start
  step s
    | .connect => some { s with newest := s.newest + 1 }
    | .advance call choice => s.advance N calls call choice

/-- The stages whose write has an inventory. -/
def Stage.merges : Stage → Bool
  | .hot current => current
  | .full _ _ => true
  | _ => false

/-- An inventory is written while its session is the newest. -/
def Timely (s : State γ) : Label → Prop
  | .connect => True
  | .advance call _ => (s.stage call).merges → (calls call).session = s.newest

/-! ## Writes -/

section Writes

variable {N calls} {row row' : NodeRow γ} {heartbeat : Heartbeat} {observedAt : Nat}
  {mergeInventory allowStale : Bool}

variable (N row heartbeat observedAt mergeInventory) in
/-- What a write can leave of a row. -/
inductive Written : NodeRow γ → Prop
  | same : Written row
  | seen (hcurrent : row.isCurrent observedAt = true) :
      Written { row with lastSeenAt := some observedAt }
  | merged (hcurrent : row.isCurrent observedAt = true) (hmerge : mergeInventory = true) :
      Written (NodeRow.mergeHeartbeatInventory N { row with lastSeenAt := some observedAt }
        heartbeat.session heartbeat.inventory)
  | filled (hold : row.isCurrent observedAt = false) (hmerge : mergeInventory = true)
      {values : List Json}
      (hvalues : Dict.get? heartbeat.inventory "capabilities" = some (.arr values))
      (hmissing : ¬(row.inventoryCapabilitiesSessionId = some heartbeat.session ∧
        isList row.capabilities)) :
      Written (row.fillCapabilities heartbeat.session values)

theorem written_persist : Written N row heartbeat observedAt mergeInventory
    (row.persistHeartbeatSnapshot N heartbeat observedAt mergeInventory allowStale).1 := by
  rw [NodeRow.persistHeartbeatSnapshot]
  cases hcurrent : row.isCurrent observedAt with
  | true =>
    rw [if_pos rfl]
    dsimp only
    split
    · rename_i h
      exact .merged hcurrent h.1
    · exact .seen hcurrent
  | false =>
    rw [if_neg Bool.false_ne_true]
    split
    · rename_i values hvalues
      split
      · rename_i h
        exact .filled hcurrent h.1 hvalues h.2.2
      · exact .same
    · exact .same

/-- An inventory that is merged adds its capabilities to those of the row. -/
theorem get?_merged {d : Dict} (hd : d.Keyed) : Dict.get? ((if d = [] then row.inventory
    else some (Dict.update (row.inventory.getD []) d)).getD []) "capabilities" =
    (Dict.get? d "capabilities").or row.capabilities := by
  split
  · rename_i hempty
    rw [hempty]
    rfl
  · exact Dict.get?_update hd _

theorem capabilities_merge (session : Nat) (inventory : Dict) :
    let merged := row.mergeHeartbeatInventory N session inventory
    merged.inventoryCapabilitiesSessionId = none ∨
      merged.inventoryCapabilitiesSessionId = some session ∧
      (merged.capabilities = deliveredCapabilities inventory ∨
        row.inventoryCapabilitiesSessionId = some session ∧
        merged.capabilities = row.capabilities) := by
  have hkeyed : (Dict.pop (N.metadataInventory inventory) "metrics").Keyed :=
    (N.keyed inventory).pop _
  have hget : Dict.get? (Dict.pop (N.metadataInventory inventory) "metrics") "capabilities" =
      Dict.get? inventory "capabilities" := by
    rw [Dict.get?_pop_of_ne _ (by decide), N.capabilities]
  intro merged
  simp only [merged, NodeRow.mergeHeartbeatInventory, NodeRow.capabilities, deliveredCapabilities]
  split
  · refine .inr ⟨rfl, .inl ?_⟩
    dsimp only
    rw [get?_merged (hkeyed.set _ _), Dict.get?_set_self]
    rfl
  · rename_i hlist
    split
    · exact .inl rfl
    · rename_i hsame
      obtain ⟨-, hcapabilities⟩ := not_or.mp hsame
      rw [not_not] at hcapabilities
      refine .inr ⟨hcapabilities, ?_⟩
      dsimp only
      rw [get?_merged hkeyed, hget]
      cases Dict.get? inventory "capabilities" with
      | none => exact .inr ⟨hcapabilities, rfl⟩
      | some v => exact .inl rfl

/-- The evidence is left alone, or a write that merges makes it that of its session. -/
def EvidenceFrom (row row' : NodeRow γ) (heartbeat : Heartbeat) (merges : Prop) : Prop :=
  (row'.inventoryCapabilitiesSessionId = row.inventoryCapabilitiesSessionId ∧
    row'.inventorySessionId = row.inventorySessionId ∧
    row'.capabilities = row.capabilities) ∨
  merges ∧ row'.inventorySessionId = some heartbeat.session ∧
    (row'.inventoryCapabilitiesSessionId = none ∨
      row'.inventoryCapabilitiesSessionId = some heartbeat.session ∧
      (row'.capabilities = deliveredCapabilities heartbeat.inventory ∨
        row.inventoryCapabilitiesSessionId = some heartbeat.session ∧
        row'.capabilities = row.capabilities))

theorem Written.evidence (h : Written N row heartbeat observedAt mergeInventory row') :
    EvidenceFrom row row' heartbeat (mergeInventory = true) := by
  cases h with
  | same => exact .inl ⟨rfl, rfl, rfl⟩
  | seen => exact .inl ⟨rfl, rfl, rfl⟩
  | merged _ hmerge => exact .inr ⟨hmerge, rfl, capabilities_merge _ _⟩
  | filled _ hmerge hvalues =>
    refine .inr ⟨hmerge, rfl, .inr ⟨rfl, .inl ?_⟩⟩
    rw [deliveredCapabilities, hvalues]
    exact Dict.get?_set_self _ _ _

theorem Written.lastSeenAt (h : Written N row heartbeat observedAt mergeInventory row') :
    ∀ t ∈ row.lastSeenAt, ∃ t' ∈ row'.lastSeenAt, t ≤ t' := by
  intro t ht
  have hseen : row.isCurrent observedAt = true → t ≤ observedAt := by
    intro hcurrent
    rw [NodeRow.isCurrent, Option.mem_def.mp ht] at hcurrent
    exact of_decide_eq_true hcurrent
  cases h with
  | same => exact ⟨t, ht, Nat.le_refl t⟩
  | seen hcurrent => exact ⟨observedAt, rfl, hseen hcurrent⟩
  | merged hcurrent => exact ⟨observedAt, rfl, hseen hcurrent⟩
  | filled => exact ⟨t, ht, Nat.le_refl t⟩

end Writes

/-! ## Steps -/

/-- The time of the observation that a stage writes. -/
def Stage.observedAt (choice : Choice) : Stage → Option Nat
  | .hot _ => some choice.now
  | .liveness observedAt _ => some observedAt
  | .full observedAt _ => some observedAt
  | _ => none

/-- What a step of a call leaves of a row. -/
inductive Advanced (stage : Stage) (heartbeat : Heartbeat) (choice : Choice) (row : NodeRow γ) :
    NodeRow γ → Prop
  | same : stage.observedAt choice = none → Advanced stage heartbeat choice row row
  | write {observedAt : Nat} {mergeInventory : Bool} {row' : NodeRow γ} :
      stage.observedAt choice = some observedAt → (mergeInventory = true → stage.merges) →
      Written N row heartbeat observedAt mergeInventory row' →
      Advanced stage heartbeat choice row row'

section Steps

variable {N calls} {s s' : State γ} {call : Nat} {choice : Choice}

theorem advance_cases (h : s.advance N calls call choice = some s') :
    ∃ stage row', s' = s.move call stage row' ∧ stage ≠ .start ∧
      Advanced N (s.stage call) (calls call) choice s.row row' := by
  rw [State.advance] at h
  cases hstage : s.stage call with
  | start =>
    simp only [hstage, Option.ite_none_right_eq_some, Option.some.injEq] at h
    refine ⟨_, _, h.2.symm, ?_, .same rfl⟩
    rw [Stage.answered]
    split
    · simp
    · split
      · simp
      · split <;> simp
  | hot current =>
    simp only [hstage, Option.some.injEq] at h
    exact ⟨_, _, h.symm, by simp, .write rfl id written_persist⟩
  | liveness observedAt current =>
    simp only [hstage, Option.some.injEq] at h
    exact ⟨_, _, h.symm, by split <;> simp, .write rfl (by simp) written_persist⟩
  | check observedAt applied =>
    simp only [hstage, Option.some.injEq] at h
    refine ⟨_, _, h.symm, ?_, .same rfl⟩
    rw [Stage.checked]
    split <;> simp
  | full observedAt missing =>
    simp only [hstage, Option.some.injEq] at h
    exact ⟨_, _, h.symm, by simp, .write rfl (fun _ => rfl) written_persist⟩
  | done => simp only [hstage, reduceCtorEq] at h

theorem Advanced.evidence {stage : Stage} {heartbeat : Heartbeat} {row row' : NodeRow γ}
    (h : Advanced N stage heartbeat choice row row') :
    EvidenceFrom row row' heartbeat stage.merges := by
  cases h with
  | same => exact .inl ⟨rfl, rfl, rfl⟩
  | write _ hmerge hwritten => exact hwritten.evidence.imp_right fun h => ⟨hmerge h.1, h.2⟩

/-! ## Runs -/

variable (calls) in
/-- The capabilities that a session has in the row are from one of its heartbeats. -/
def Delivered (s : State γ) : Prop :=
  ∀ k, s.row.inventoryCapabilitiesSessionId = some k → s.row.inventorySessionId = some k ∧
    ∃ call, (calls call).session = k ∧ s.stage call ≠ .start ∧
      s.row.capabilities = deliveredCapabilities (calls call).inventory

theorem Delivered.advance (h : Delivered calls s)
    (hstep : s.advance N calls call choice = some s') : Delivered calls s' := by
  obtain ⟨stage, row', rfl, hstage, hrow⟩ := advance_cases hstep
  have hstays : ∀ c, s.stage c ≠ .start → (s.move call stage row').stage c ≠ .start := by
    intro c hc
    rw [State.move]
    dsimp only
    split
    · exact hstage
    · exact hc
  have hkept : ∀ k, s.row.inventoryCapabilitiesSessionId = some k →
      row'.capabilities = s.row.capabilities → ∃ c, (calls c).session = k ∧
        (s.move call stage row').stage c ≠ .start ∧
        row'.capabilities = deliveredCapabilities (calls c).inventory := by
    intro k hk hsame
    obtain ⟨-, c, hsession, hc, hcapabilities⟩ := h k hk
    exact ⟨c, hsession, hstays c hc, hsame.trans hcapabilities⟩
  intro k hk
  rcases hrow.evidence with ⟨hcap, hinv, hsame⟩ | ⟨-, hinv, hnone | ⟨hcap, hnew | hold⟩⟩
  · rw [State.move, hcap] at hk
    exact ⟨hinv.trans (h k hk).1, hkept k hk hsame⟩
  · rw [State.move, hnone] at hk
    cases hk
  · rw [State.move, hcap] at hk
    cases hk
    refine ⟨hinv, call, rfl, ?_, hnew⟩
    rw [State.move]
    simpa using hstage
  · rw [State.move, hcap] at hk
    cases hk
    exact ⟨hinv, hkept _ hold.1 hold.2⟩

/-- No later session than the newest one has brought an inventory. -/
def Ordered (s : State γ) : Prop := ∀ k, s.row.inventorySessionId = some k → k ≤ s.newest

theorem Ordered.advance (h : Ordered s) (htimely : Timely calls s (.advance call choice))
    (hstep : s.advance N calls call choice = some s') : Ordered s' := by
  obtain ⟨stage, row', rfl, -, hrow⟩ := advance_cases hstep
  intro k hk
  rcases hrow.evidence with ⟨-, hinv, -⟩ | ⟨hmerges, hinv, -⟩
  · exact h k (hinv.symm.trans hk)
  · cases hinv.symm.trans hk
    exact Nat.le_of_eq (htimely hmerges)

variable (calls) in
/-- What a step leaves of what was observed before. -/
structure Kept (s : State γ) (label : Label) (s' : State γ) : Prop where
  lastSeenAt : ∀ t ∈ s.row.lastSeenAt, ∃ t' ∈ s'.row.lastSeenAt, t ≤ t'
  /-- An older observation only fills in capabilities that are missing for its own session. -/
  older : ∀ call choice observedAt, label = .advance call choice →
    (s.stage call).observedAt choice = some observedAt → s.row.isCurrent observedAt = false →
    s'.row = s.row ∨ ∃ values,
      Dict.get? (calls call).inventory "capabilities" = some (.arr values) ∧
      ¬(s.row.inventoryCapabilitiesSessionId = some (calls call).session ∧
        isList s.row.capabilities) ∧
      s'.row = s.row.fillCapabilities (calls call).session values
  /-- The evidence of a session is not replaced by that of an earlier one. -/
  evidence : ∀ k, s.row.inventoryCapabilitiesSessionId = some k →
    (s'.row.inventoryCapabilitiesSessionId = some k ∧
      s'.row.capabilities = s.row.capabilities) ∨
    ∃ call choice, label = .advance call choice ∧ k ≤ (calls call).session

theorem kept_advance (h : Delivered calls s) (hordered : Ordered s)
    (htimely : Timely calls s (.advance call choice))
    (hstep : s.advance N calls call choice = some s') :
    Kept calls s (.advance call choice) s' := by
  obtain ⟨stage, row', rfl, -, hrow⟩ := advance_cases hstep
  refine ⟨?_, fun call' choice' observedAt hlabel hobserved hold => ?_, fun k hk => ?_⟩
  · cases hrow with
    | same => exact fun t ht => ⟨t, ht, Nat.le_refl t⟩
    | write _ _ hwritten => exact hwritten.lastSeenAt
  · cases hlabel
    cases hrow with
    | same hnone =>
      rw [hnone] at hobserved
      cases hobserved
    | write hsome _ hwritten =>
      cases hsome.symm.trans hobserved
      cases hwritten with
      | same => exact .inl rfl
      | seen hcurrent =>
        rw [hcurrent] at hold
        cases hold
      | merged hcurrent =>
        rw [hcurrent] at hold
        cases hold
      | filled _ _ hvalues hmissing => exact .inr ⟨_, hvalues, hmissing, rfl⟩
  · rcases hrow.evidence with ⟨hcap, -, hsame⟩ | ⟨hmerges, -, -⟩
    · exact .inl ⟨hcap.trans hk, hsame⟩
    · refine .inr ⟨call, choice, rfl, ?_⟩
      rw [htimely hmerges]
      exact hordered k (h k hk).1

theorem run_keeps (h : (inventorySystem N calls).ReachableUnder (Timely calls) s) :
    Delivered calls s ∧ Ordered s := by
  refine h.invariant (I := fun s => Delivered calls s ∧ Ordered s) (fun s₀ h₀ => ?_)
    fun s label s' hinv hok hstep => ?_
  · obtain ⟨hinventory, hcapabilities, -⟩ := h₀
    constructor
    · intro k hk
      rw [hcapabilities] at hk
      cases hk
    · intro k hk
      rw [hinventory] at hk
      cases hk
  · cases label with
    | connect =>
      cases hstep
      exact ⟨hinv.1, fun k hk => Nat.le_succ_of_le (hinv.2 k hk)⟩
    | advance call choice => exact ⟨hinv.1.advance hstep, hinv.2.advance hok hstep⟩

end Steps

/-- While inventories are written by the newest session, every session keeps its evidence: what
is stored for it is what it has delivered, and every step keeps what was observed before. -/
theorem inventory_per_session (N : NetworkRules γ) (calls : Nat → Heartbeat) {s : State γ}
    (h : (inventorySystem N calls).ReachableUnder (Timely calls) s) :
    Delivered calls s ∧ ∀ label s', Timely calls s label →
      (inventorySystem N calls).step s label = some s' → Kept calls s label s' := by
  obtain ⟨hdelivered, hordered⟩ := run_keeps h
  refine ⟨hdelivered, fun label s' htimely hstep => ?_⟩
  cases label with
  | connect =>
    cases hstep
    exact ⟨fun t ht => ⟨t, ht, Nat.le_refl t⟩, (fun _ _ _ hlabel => by cases hlabel),
      fun k hk => .inl ⟨hk, rfl⟩⟩
  | advance call choice => exact kept_advance hdelivered hordered htimely hstep

/-- The rules for inventories that have capabilities alone. -/
def capabilitiesOnly : NetworkRules Unit where
  metadataInventory d := (Dict.get? d "capabilities").toList.map fun v => ("capabilities", v)
  columns _ _ := ()
  capabilities d := by cases Dict.get? d "capabilities" <;> rfl
  keyed d := by cases Dict.get? d "capabilities" <;> simp [Dict.Keyed]

/-- One heartbeat of the first session, and one of the second. -/
def twoSessions (call : Nat) : Heartbeat :=
  if call = 0 then ⟨1, [("capabilities", .arr [.str "a"])], false⟩
  else ⟨2, [("capabilities", .arr [.str "b"])], false⟩

def firstSession : State Unit := ⟨⟨none, (), none, none, none⟩, 1, fun _ => .start⟩

/-- A step at a time, with the route owned by the session. -/
def at' (t : Nat) : Choice := ⟨.current, t, true⟩

/-- The first session is asked about before the second one connects, and is written after it. -/
theorem not_inventory_per_session : ¬ ∀ s : State Unit,
    (inventorySystem capabilitiesOnly twoSessions).Reachable s →
    ∀ label s', (inventorySystem capabilitiesOnly twoSessions).step s label = some s' →
      Kept twoSessions s label s' := by
  intro h
  have hexec : (inventorySystem capabilitiesOnly twoSessions).exec firstSession
      [.advance 0 (at' 0), .connect, .advance 1 (at' 1), .advance 1 (at' 2)] = some _ := rfl
  have hinit : (inventorySystem capabilitiesOnly twoSessions).init firstSession :=
    ⟨rfl, rfl, fun _ => rfl⟩
  have hreach := System.Reachable.of_exec hinit hexec
  rcases (h _ hreach (.advance 0 (at' 3)) _ rfl).evidence 2 rfl with ⟨hkept, -⟩ | hlater
  · exact absurd hkept (by decide)
  · obtain ⟨call, choice, hlabel, hle⟩ := hlater
    cases hlabel
    exact absurd hle (by decide)

theorem inventory_per_session_first : ∃ s : State Unit,
    s.row.inventoryCapabilitiesSessionId = some 1 ∧ Delivered twoSessions s := by
  have hstart : (inventorySystem capabilitiesOnly twoSessions).ReachableUnder
      (Timely twoSessions) firstSession := .start ⟨rfl, rfl, fun _ => rfl⟩
  have hask : Timely twoSessions firstSession (.advance 0 (at' 0)) := fun h => by cases h
  have hasked := hstart.step hask rfl
  have hwritten := hasked.step (show Timely twoSessions _ (.advance 0 (at' 1)) from
    fun _ => rfl) rfl
  exact ⟨_, rfl, (inventory_per_session capabilitiesOnly twoSessions hwritten).1⟩

end HyperFileLens.Node.InventoryEvidence
