import HyperFileLens.Library.Calendar
import HyperFileLens.Library.Spread
import HyperFileLens.Library.TimeZone
import HyperFileLens.Library.Transition

/-!
# Slots of full maintenance

Every target of a repository gets full maintenance on the local days of its group, from a slot
inside the window on.

*Slots.*  `assign_full_slots` leaves what is valid as it is, and gives each other target the
smallest group and the middle of its largest gap.

*Instants.*  `next_full_slot` goes through the local days of two cycles. On a day of the group the
slot moves forward by minutes while clocks jump over it, and counts once where it is shown twice.
-/

namespace HyperFileLens.Storage.MaintenanceSchedule

open TimeZone

/-! ## Settings -/

/-- A time `HH:MM`. -/
structure TimeOfDay where
  hour : Nat
  minute : Nat
  hour_lt : hour < 24
  minute_lt : minute < 60
deriving DecidableEq

def TimeOfDay.seconds (time : TimeOfDay) : Nat := time.hour * 3600 + time.minute * 60

/-- What the schedule uses of `MaintenanceSettings`. -/
structure Settings where
  fullInterval : Nat
  windowStart : TimeOfDay
  windowEnd : TimeOfDay
  timezone : Zone
  interval_pos : 0 < fullInterval
  window : windowStart.seconds < windowEnd.seconds

/-- `round` of a quotient: halves go to the even number. The quotients of whole seconds by those
of a day are so far apart that the rounding of floats does not move one across a half. -/
def roundQuotient (n d : Nat) : Nat :=
  if 2 * (n % d) < d then n / d
  else if d < 2 * (n % d) then n / d + 1
  else n / d + n / d % 2

def Settings.cycleDays (settings : Settings) : Nat := max 2 (roundQuotient settings.fullInterval 86400)

/-- `ANCHOR`, as a day number. -/
def anchor : Int := Calendar.newYear 2026

example : Calendar.ofDays anchor = ⟨2026, 1, 1⟩ := by decide

/-! ## States -/

/-- What the schedule uses of a `RepositoryMaintenanceState`, with instants in microseconds. -/
structure MaintenanceState where
  fullDayGroup : Option Nat
  fullSlotSeconds : Option Nat
  scheduleTimezone : String
  nextFullDueAt : Option Int
  nextReconcileDueAt : Option Int
deriving DecidableEq

def MaintenanceState.fresh : MaintenanceState := ⟨none, none, "", none, none⟩

structure Target where
  targetKey : String
  maintenanceState : MaintenanceState
deriving DecidableEq

/-- An assignment that is valid: a group of the cycle and a slot inside the window. -/
def assigned (settings : Settings) (state : MaintenanceState) : Option (Nat × Nat) :=
  match state.fullDayGroup, state.fullSlotSeconds with
  | some group, some seconds =>
    if group < settings.cycleDays ∧ settings.windowStart.seconds ≤ seconds ∧
        seconds < settings.windowEnd.seconds then some (group, seconds)
    else none
  | _, _ => none

/-! ## Instants -/

/-- The loop of `slot_on`, from a local time on. -/
def slotFrom (zone : Zone) (date : Int) (windowEnd : TimeOfDay) : Nat → Int → Option Int
  | 0, _ => none
  | fuel + 1, naive =>
    if naive / day = date ∧ naive % day < micros windowEnd.seconds then
      if zone.Shows naive then some (zone.instant naive)
      else slotFrom zone date windowEnd fuel (naive + minute)
    else none

/-- `slot_on`. A day has 1440 minutes. -/
def slotOn (date : Int) (seconds : Nat) (zone : Zone) (windowEnd : TimeOfDay) : Option Int :=
  slotFrom zone date windowEnd 1440 (date * day + micros seconds)

def Settings.localDay (settings : Settings) (t : Int) : Int := settings.timezone.wall t / day

def Settings.inGroup (settings : Settings) (group : Option Nat) (date : Int) : Bool :=
  group.any fun group => (date - anchor) % settings.cycleDays == (group : Int)

/-- The days that `next_full_slot` goes through. -/
def Settings.daysAhead (settings : Settings) (now : Int) : List Int :=
  (List.range (settings.cycleDays * 2 + 1)).map fun offset : Nat => settings.localDay now + offset

/-- What `next_full_slot` returns of a day. -/
def slotAfter (settings : Settings) (group : Option Nat) (seconds : Nat) (now : Int)
    (includeNow : Bool) (date : Int) : Option Int :=
  if settings.inGroup group date then
    (slotOn date seconds settings.timezone settings.windowEnd).filter fun t =>
      decide (now < t) || (includeNow && decide (t = now))
  else none

def noSlot : String := "Maintenance window has no valid local scheduling slot."

def nextFullSlot (state : MaintenanceState) (now : Int) (settings : Settings) (includeNow : Bool) :
    Except String Int :=
  match state.fullSlotSeconds with
  | some seconds =>
    match (settings.daysAhead now).findSome?
        (slotAfter settings state.fullDayGroup seconds now includeNow) with
    | some t => .ok t
    | none => .error noSlot
  | none =>
    if (settings.daysAhead now).any (settings.inGroup state.fullDayGroup) then
      .error "unsupported type for timedelta seconds component: NoneType"
    else .error noSlot

/-! ## Assignments -/

section Assign

variable (settings : Settings) (now : Int)

/-- A target that is assigned: only a change of the time zone moves its next instant. -/
def keepAssigned (state : MaintenanceState) : Except String MaintenanceState :=
  if state.scheduleTimezone ≠ settings.timezone.key then do
    let state := { state with scheduleTimezone := settings.timezone.key }
    let due ← nextFullSlot state now settings false
    .ok { state with nextFullDueAt := some due }
  else .ok state

/-- A target in the first loop of `assign_full_slots`. -/
def keepState (state : MaintenanceState) : Except String MaintenanceState :=
  match assigned settings state with
  | some _ => keepAssigned settings now state
  | none => .ok state

def keepAll : List Target → Except String (List Target)
  | [] => .ok []
  | target :: rest => do
      let state ← keepState settings now target.maintenanceState
      let rest ← keepAll rest
      .ok ({ target with maintenanceState := state } :: rest)

def slotsOf (targets : List Target) (group : Nat) : List Nat :=
  targets.filterMap fun target =>
    match assigned settings target.maintenanceState with
    | some slot => if slot.1 = group then some slot.2 else none
    | none => none

def groupsOf (targets : List Target) : List (List Nat) :=
  (List.range settings.cycleDays).map (slotsOf settings targets)

/-- The slot that a group has left for another target. -/
def slotIn (groups : List (List Nat)) (group : Nat) : Nat :=
  Spread.middle settings.windowStart.seconds settings.windowEnd.seconds (groups.getD group [])

def assignState (groups : List (List Nat)) (state : MaintenanceState) :
    Except String MaintenanceState := do
  let group := Spread.leastLoaded groups
  let state := { state with
    fullDayGroup := some group
    fullSlotSeconds := some (slotIn settings groups group)
    scheduleTimezone := settings.timezone.key }
  let due ← nextFullSlot state now settings false
  .ok { state with
    nextFullDueAt := some due
    nextReconcileDueAt := some (due + micros (6 * 3600)) }

def reserve (groups : List (List Nat)) : List (List Nat) :=
  let group := Spread.leastLoaded groups
  groups.modify group (· ++ [slotIn settings groups group])

def assignRest : List (List Nat) → List Target → Except String (List Target)
  | _, [] => .ok []
  | groups, target :: rest =>
    match assigned settings target.maintenanceState with
    | some _ => do
        let rest ← assignRest groups rest
        .ok (target :: rest)
    | none => do
        let state ← assignState settings now groups target.maintenanceState
        let rest ← assignRest (reserve settings groups) rest
        .ok ({ target with maintenanceState := state } :: rest)

def assignFullSlots (targets : List Target) : Except String (List Target) := do
  let targets ← keepAll settings now targets
  assignRest settings now (groupsOf settings targets) targets

end Assign

/-! ## Histories -/

def Target.assignment (target : Target) : String × Option Nat × Option Nat :=
  (target.targetKey, target.maintenanceState.fullDayGroup, target.maintenanceState.fullSlotSeconds)

inductive Event where
  | added (targets : List Target)
  /-- The targets change, but for their assignments, and come in another order. -/
  | arranged (targets : List Target)
  /-- `assign_full_slots` is given the first targets. -/
  | assigned (count : Nat) (settings : Settings) (now : Int)

def afterAssign (settings : Settings) (now : Int) (count : Nat) (targets : List Target) :
    List Target :=
  match assignFullSlots settings now (targets.take count) with
  | .ok assigned => assigned ++ targets.drop count
  | .error _ => targets

def histories : Transition.System (List Target) Event where
  init := fun targets => targets = []
  step := fun targets event =>
    match event with
    | .added fresh =>
      if ∀ target ∈ fresh, target.maintenanceState.fullDayGroup = none then
        some (targets ++ fresh)
      else none
    | .arranged arranged =>
      if (arranged.map Target.assignment).Perm (targets.map Target.assignment) then some arranged
      else none
    | .assigned count settings now => some (afterAssign settings now count targets)

end HyperFileLens.Storage.MaintenanceSchedule
