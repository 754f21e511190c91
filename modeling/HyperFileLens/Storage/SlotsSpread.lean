import HyperFileLens.Storage.MaintenanceSchedule

/-!
# Full maintenance is spread evenly

*Instants.*  On a local day the slot is the first local time that clocks show, in steps of a minute
from the assigned one on and before the end of the window, at the first instant that it is shown.
The instants of later days are later, so the first that `next_full_slot` finds is the earliest.

*Slots.*  The groups stay balanced and their slots stay apart in every history whose calls of
`assign_full_slots` are given all the targets.
-/

namespace HyperFileLens.Storage.MaintenanceSchedule

open TimeZone

/-! ## Instants -/

theorem TimeOfDay.seconds_lt (time : TimeOfDay) : time.seconds < 86400 := by
  have hhour := time.hour_lt
  have hminute := time.minute_lt
  rw [TimeOfDay.seconds]
  omega

def slotTime (date : Int) (seconds steps : Nat) : Int := date * day + micros seconds + steps * minute

/-- The slot of a local day: the first instant of the first of the local times from the slot on,
before the end of the window, that clocks show. -/
def IsSlot (settings : Settings) (seconds : Nat) (date t : Int) : Prop :=
  ∃ steps : Nat, settings.timezone.wall t = slotTime date seconds steps ∧
    slotTime date seconds steps < date * day + micros settings.windowEnd.seconds ∧
    (∀ s, settings.timezone.wall s = settings.timezone.wall t → t ≤ s) ∧
    ∀ j < steps, ∀ s, settings.timezone.wall s ≠ slotTime date seconds j

section Instants

variable {zone : Zone} {date naive t : Int} {windowEnd : TimeOfDay}

theorem inside_iff (h : date * day ≤ naive) :
    (naive / day = date ∧ naive % day < micros windowEnd.seconds) ↔
      naive < date * day + micros windowEnd.seconds := by
  have hlt := windowEnd.seconds_lt
  simp only [day, micros] at h ⊢
  omega

/-- The loop of `slot_on` stops at the first local time that is shown. -/
theorem slotFrom_eq_some {fuel : Nat} (h : date * day ≤ naive) :
    slotFrom zone date windowEnd fuel naive = some t ↔ ∃ k < fuel, naive + k * minute <
      date * day + micros windowEnd.seconds ∧ zone.Shows (naive + k * minute) ∧
      zone.instant (naive + k * minute) = t ∧ ∀ j < k, ¬ zone.Shows (naive + j * minute) := by
  induction fuel generalizing naive with
  | zero => simp [slotFrom]
  | succ fuel ih =>
    have hminute : 0 ≤ minute := by decide
    rw [slotFrom, if_congr (inside_iff h) rfl rfl]
    split
    · rename_i hinside
      split
      · rename_i hshows
        constructor
        · intro heq
          refine ⟨0, Nat.succ_pos _, ?_⟩
          simpa [hshows, hinside] using Option.some.inj heq
        · rintro ⟨k, -, -, -, hinstant, hbefore⟩
          cases k with
          | zero => simpa using hinstant
          | succ k => exact absurd (by simpa using hshows) (hbefore 0 (Nat.succ_pos k))
      · rename_i hshows
        rw [ih (h.trans (le_add_of_nonneg_right hminute))]
        have hshift : ∀ k : Nat, naive + minute + k * minute = naive + (k + 1 : Nat) * minute := by
          intro k
          push_cast
          ring
        constructor
        · rintro ⟨k, hk, hend, hshown, hinstant, hbefore⟩
          rw [hshift] at hend hshown hinstant
          refine ⟨k + 1, Nat.succ_lt_succ hk, hend, hshown, hinstant, fun j hj => ?_⟩
          cases j with
          | zero => simpa using hshows
          | succ j =>
            rw [← hshift]
            exact hbefore j (Nat.lt_of_succ_lt_succ hj)
        · rintro ⟨k, hk, hend, hshown, hinstant, hbefore⟩
          cases k with
          | zero => exact absurd (by simpa using hshown) hshows
          | succ k =>
            refine ⟨k, Nat.lt_of_succ_lt_succ hk, ?_⟩
            rw [hshift]
            refine ⟨hend, hshown, hinstant, fun j hj => ?_⟩
            rw [hshift]
            exact hbefore (j + 1) (Nat.succ_lt_succ hj)
    · rename_i hinside
      constructor
      · exact fun heq => by cases heq
      · rintro ⟨k, -, hend, -⟩
        have hnonneg : 0 ≤ (k : Int) * minute := mul_nonneg (Int.natCast_nonneg k) hminute
        omega

/-- `slot_on` finds the slot of the day. -/
theorem slotOn_eq_some {settings : Settings} {seconds : Nat} :
    slotOn date seconds settings.timezone settings.windowEnd = some t ↔
      IsSlot settings seconds date t := by
  have hstart : date * day ≤ date * day + micros seconds := by
    simp only [micros]
    omega
  rw [slotOn, slotFrom_eq_some hstart]
  constructor
  · rintro ⟨k, -, hend, hshown, rfl, hbefore⟩
    refine ⟨k, hshown, hend, fun s hs => ?_, fun j hj s hs => hbefore j hj ?_⟩
    · have hs : settings.timezone.wall s = date * day + micros seconds + k * minute := hs.trans hshown
      exact Zone.instant_le hshown hs.ge
    · exact Zone.shows_iff.mpr ⟨s, hs⟩
  · rintro ⟨k, hwall, hend, hfirst, hbefore⟩
    have hshown : settings.timezone.Shows (slotTime date seconds k) := Zone.shows_iff.mpr ⟨t, hwall⟩
    refine ⟨k, ?_, hend, hshown, ?_, fun j hj hj' => ?_⟩
    · have hlt := settings.windowEnd.seconds_lt
      simp only [slotTime, day, minute, micros] at hend
      omega
    · refine le_antisymm (Zone.instant_le hshown hwall.ge) (hfirst _ ?_)
      exact hshown.trans hwall.symm
    · obtain ⟨s, hs⟩ := Zone.shows_iff.mp hj'
      exact hbefore j hj s hs

end Instants

/-! ## The next slot -/

/-- The instants that full maintenance of a target may start at: the slots of the local days of its
group. -/
def Eligible (settings : Settings) (state : MaintenanceState) (t : Int) : Prop :=
  ∃ group seconds date, state.fullDayGroup = some group ∧ state.fullSlotSeconds = some seconds ∧
    (date - anchor) % settings.cycleDays = group ∧ IsSlot settings seconds date t

def Upcoming (now : Int) (includeNow : Bool) (t : Int) : Prop :=
  now < t ∨ includeNow = true ∧ t = now

/-- The earliest of the eligible instants that are upcoming. -/
structure IsNext (settings : Settings) (state : MaintenanceState) (now : Int) (includeNow : Bool)
    (t : Int) : Prop where
  eligible : Eligible settings state t
  upcoming : Upcoming now includeNow t
  earliest : ∀ t', Eligible settings state t' → Upcoming now includeNow t' → t ≤ t'

/-- The local time lies inside the window. -/
def InWindow (settings : Settings) (t : Int) : Prop :=
  micros settings.windowStart.seconds ≤ settings.timezone.wall t % day ∧
    settings.timezone.wall t % day < micros settings.windowEnd.seconds

section Next

variable {settings : Settings} {seconds : Nat} {date date' t t' now : Int}

section

variable (h : IsSlot settings seconds date t)

include h

theorem IsSlot.wall_bounds : date * day + micros seconds ≤ settings.timezone.wall t ∧
      settings.timezone.wall t < date * day + micros settings.windowEnd.seconds := by
  obtain ⟨steps, hwall, hend, -, -⟩ := h
  rw [hwall]
  refine ⟨?_, hend⟩
  rw [slotTime]
  exact le_add_of_nonneg_right (mul_nonneg (Int.natCast_nonneg steps) (by decide))

theorem IsSlot.localDay : settings.localDay t = date := by
  have hbounds := h.wall_bounds
  have hlt := settings.windowEnd.seconds_lt
  simp only [Settings.localDay, day, micros] at hbounds ⊢
  omega

theorem IsSlot.inWindow
    (hstart : settings.windowStart.seconds ≤ seconds) : InWindow settings t := by
  have hbounds := h.wall_bounds
  have hlt := settings.windowEnd.seconds_lt
  simp only [InWindow, day, micros] at hbounds ⊢
  omega

theorem IsSlot.unique (h' : IsSlot settings seconds date t') : t = t' := by
  have heq := slotOn_eq_some.mpr h
  rw [slotOn_eq_some.mpr h'] at heq
  exact (Option.some.inj heq).symm

theorem IsSlot.le_of_localDay (hday : date < settings.localDay now) : t ≤ now := by
  have hbounds := h.wall_bounds
  have hlt := settings.windowEnd.seconds_lt
  have hle : settings.timezone.wall t ≤ settings.timezone.wall now := by
    simp only [Settings.localDay, day, micros] at hbounds hday
    omega
  obtain ⟨-, -, -, hfirst, -⟩ := h
  exact (hfirst _ (Zone.shows_wall t)).trans (Zone.instant_le (Zone.shows_wall t) hle)

theorem IsSlot.le_of_lt (h' : IsSlot settings seconds date' t') (hday : date < date') : t ≤ t' :=
  h.le_of_localDay (hday.trans_eq h'.localDay.symm)

end

variable {state : MaintenanceState} {group : Nat} {includeNow : Bool}

theorem assigned_eq_some (h : assigned settings state = some (group, seconds)) :
    state.fullDayGroup = some group ∧ state.fullSlotSeconds = some seconds ∧
      group < settings.cycleDays ∧ settings.windowStart.seconds ≤ seconds ∧
      seconds < settings.windowEnd.seconds := by
  unfold assigned at h
  split at h
  · rename_i hgroup hseconds
    split at h
    · rename_i hvalid
      cases h
      exact ⟨hgroup, hseconds, hvalid⟩
    · cases h
  · cases h

theorem slotAfter_eq_some (hgroup : state.fullDayGroup = some group) :
    slotAfter settings state.fullDayGroup seconds now includeNow date = some t ↔
      (date - anchor) % settings.cycleDays = group ∧ IsSlot settings seconds date t ∧
        Upcoming now includeNow t := by
  rw [slotAfter, hgroup]
  by_cases hday : (date - anchor) % settings.cycleDays = group
  · have hin : settings.inGroup (some group) date = true := by simp [Settings.inGroup, hday]
    simp only [hin, if_true, Option.filter_eq_some_iff, slotOn_eq_some, hday, true_and, Upcoming]
    simp
  · have hin : settings.inGroup (some group) date = false := by simp [Settings.inGroup, hday]
    simp [hin, hday]

theorem eligible_iff (h : assigned settings state = some (group, seconds)) :
    Eligible settings state t ↔
      ∃ date, (date - anchor) % settings.cycleDays = group ∧ IsSlot settings seconds date t := by
  obtain ⟨hgroup, hseconds, -⟩ := assigned_eq_some h
  constructor
  · rintro ⟨group', seconds', date, hgroup', hseconds', hday, hslot⟩
    rw [hgroup] at hgroup'
    rw [hseconds] at hseconds'
    cases hgroup'
    cases hseconds'
    exact ⟨date, hday, hslot⟩
  · rintro ⟨date, hday, hslot⟩
    exact ⟨group, seconds, date, hgroup, hseconds, hday, hslot⟩

theorem mem_daysAhead : date ∈ settings.daysAhead now ↔
    settings.localDay now ≤ date ∧ date ≤ settings.localDay now + settings.cycleDays * 2 := by
  simp only [Settings.daysAhead, List.mem_map, List.mem_range]
  constructor
  · rintro ⟨offset, hoffset, rfl⟩
    omega
  · rintro ⟨hlo, hhi⟩
    exact ⟨(date - settings.localDay now).toNat, by omega, by omega⟩

theorem localDay_le_of_upcoming (h : IsSlot settings seconds date t)
    (hupcoming : Upcoming now includeNow t) : settings.localDay now ≤ date := by
  by_contra hlt
  have hle := h.le_of_localDay (not_le.mp hlt)
  rcases hupcoming with hafter | ⟨-, rfl⟩
  · exact absurd hafter (not_lt.mpr hle)
  · exact hlt h.localDay.le

section

variable (h : assigned settings state = some (group, seconds))

include h

theorem isNext_of_findSome (hfind : (settings.daysAhead now).findSome?
      (slotAfter settings state.fullDayGroup seconds now includeNow) = some t) :
    IsNext settings state now includeNow t ∧
      settings.localDay t ≤ settings.localDay now + settings.cycleDays * 2 := by
  have hgroup := (assigned_eq_some h).1
  obtain ⟨before, date, after, hlist, hdate, hbefore⟩ := List.findSome?_eq_some_iff.mp hfind
  obtain ⟨hday, hslot, hupcoming⟩ := (slotAfter_eq_some hgroup).mp hdate
  have hmem : date ∈ settings.daysAhead now := by simp [hlist]
  refine ⟨⟨(eligible_iff h).mpr ⟨date, hday, hslot⟩, hupcoming, ?_⟩, ?_⟩
  · intro t' heligible hupcoming'
    obtain ⟨date', hday', hslot'⟩ := (eligible_iff h).mp heligible
    rcases lt_trichotomy date' date with hlt | rfl | hgt
    · -- Every day before has been passed over.
      have hmem' : date' ∈ settings.daysAhead now :=
        mem_daysAhead.mpr ⟨localDay_le_of_upcoming hslot' hupcoming',
          hlt.le.trans (mem_daysAhead.mp hmem).2⟩
      have hsome := (slotAfter_eq_some hgroup).mpr ⟨hday', hslot', hupcoming'⟩
      have hsorted : (settings.daysAhead now).Pairwise (· < ·) := by
        refine List.pairwise_map.mpr (List.pairwise_lt_range.imp fun hlt => ?_)
        omega
      rw [hlist] at hmem' hsorted
      rcases List.mem_append.mp hmem' with hin | hin
      · rw [hbefore date' hin] at hsome
        cases hsome
      · rcases List.mem_cons.mp hin with rfl | hin
        · exact absurd hlt (lt_irrefl _)
        · have hrest := (List.pairwise_append.mp hsorted).2.1
          exact absurd ((List.pairwise_cons.mp hrest).1 date' hin) (not_lt.mpr hlt.le)
    · exact (hslot.unique hslot').le
    · exact hslot.le_of_lt hslot' hgt
  · rw [hslot.localDay]
    exact (mem_daysAhead.mp hmem).2

/-- `next_full_slot` returns the earliest eligible instant that is upcoming, if it is on a day of
the next two cycles. -/
theorem nextFullSlot_eq_ok : nextFullSlot state now settings includeNow = .ok t ↔
      IsNext settings state now includeNow t ∧
        settings.localDay t ≤ settings.localDay now + settings.cycleDays * 2 := by
  obtain ⟨hgroup, hseconds, -⟩ := assigned_eq_some h
  rw [nextFullSlot, hseconds]
  cases hfind : (settings.daysAhead now).findSome?
      (slotAfter settings state.fullDayGroup seconds now includeNow) with
  | some t' =>
    have hnext := isNext_of_findSome h hfind
    simp only [hfind, Except.ok.injEq]
    constructor
    · rintro rfl
      exact hnext
    · rintro ⟨hother, -⟩
      exact le_antisymm (hnext.1.earliest _ hother.eligible hother.upcoming)
        (hother.earliest _ hnext.1.eligible hnext.1.upcoming)
  | none =>
    simp only [hfind, reduceCtorEq, false_iff]
    rintro ⟨hnext, hle⟩
    obtain ⟨date, hday, hslot⟩ := (eligible_iff h).mp hnext.eligible
    rw [hslot.localDay] at hle
    have hnone := List.findSome?_eq_none_iff.mp hfind date
      (mem_daysAhead.mpr ⟨localDay_le_of_upcoming hslot hnext.upcoming, hle⟩)
    rw [(slotAfter_eq_some hgroup).mpr ⟨hday, hslot, hnext.upcoming⟩] at hnone
    cases hnone

theorem nextFullSlot_eq_error : nextFullSlot state now settings includeNow = .error noSlot ↔
      ∀ t, Eligible settings state t → Upcoming now includeNow t →
        settings.localDay now + settings.cycleDays * 2 < settings.localDay t := by
  obtain ⟨hgroup, hseconds, -⟩ := assigned_eq_some h
  rw [nextFullSlot, hseconds]
  cases hfind : (settings.daysAhead now).findSome?
      (slotAfter settings state.fullDayGroup seconds now includeNow) with
  | some t' =>
    obtain ⟨hnext, hle⟩ := isNext_of_findSome h hfind
    simp only [hfind, reduceCtorEq, false_iff]
    intro hall
    exact absurd (hall t' hnext.eligible hnext.upcoming) (not_lt.mpr hle)
  | none =>
    simp only [hfind, true_iff]
    intro t heligible hupcoming
    obtain ⟨date, hday, hslot⟩ := (eligible_iff h).mp heligible
    by_contra hle
    rw [hslot.localDay] at hle
    have hnone := List.findSome?_eq_none_iff.mp hfind date
      (mem_daysAhead.mpr ⟨localDay_le_of_upcoming hslot hupcoming, not_lt.mp hle⟩)
    rw [(slotAfter_eq_some hgroup).mpr ⟨hday, hslot, hupcoming⟩] at hnone
    cases hnone

end

end Next

/-! ## Assignments -/

structure Keeps (settings : Settings) (before after : Target) : Prop where
  target : after.targetKey = before.targetKey
  assignment : assigned settings before.maintenanceState ≠ none →
    after.assignment = before.assignment

/-- Slots inside the window, which are different while there are no more of them than seconds. -/
structure Spaced (settings : Settings) (slots : List Nat) : Prop where
  inside : ∀ x ∈ slots, settings.windowStart.seconds ≤ x ∧ x < settings.windowEnd.seconds
  apart : slots.length ≤ settings.windowEnd.seconds - settings.windowStart.seconds → slots.Nodup

structure Sound (settings : Settings) (groups : List (List Nat)) : Prop where
  length : groups.length = settings.cycleDays
  spaced : ∀ slots ∈ groups, Spaced settings slots

theorem Settings.cycleDays_pos (settings : Settings) : 0 < settings.cycleDays :=
  lt_of_lt_of_le Nat.two_pos (le_max_left 2 _)

section Reserve

variable {settings : Settings} {slots : List Nat} {groups : List (List Nat)}

theorem Spaced.reserve (h : Spaced settings slots) : Spaced settings
    (slots ++ [Spread.middle settings.windowStart.seconds settings.windowEnd.seconds slots]) := by
  have hmiddle := Spread.middle_bounds settings.window h.inside
  constructor
  · intro x hx
    rcases List.mem_append.mp hx with hx | hx
    · exact h.inside x hx
    · rw [List.mem_singleton.mp hx]
      exact hmiddle
  · intro hlength
    rw [List.length_append, List.length_singleton] at hlength
    have hnew := Spread.middle_notMem settings.window h.inside (Nat.lt_of_succ_le hlength)
    rw [← List.concat_eq_append]
    exact (h.apart (Nat.le_of_succ_le hlength)).concat hnew

theorem Sound.ne_nil (h : Sound settings groups) : groups ≠ [] := by
  rintro rfl
  exact settings.cycleDays_pos.ne h.length

theorem Sound.least (h : Sound settings groups) :
    Spaced settings (groups.getD (Spread.leastLoaded groups) []) := by
  have hlt := Spread.leastLoaded_lt h.ne_nil
  rw [List.getD_eq_getElem _ _ hlt]
  exact h.spaced _ (List.getElem_mem hlt)

theorem Sound.reserve (h : Sound settings groups) : Sound settings (reserve settings groups) := by
  constructor
  · rw [MaintenanceSchedule.reserve, List.length_modify, h.length]
  · intro slots hslots
    rcases Spread.mem_modify hslots with hslots | ⟨-, rfl⟩
    · exact h.spaced slots hslots
    · exact h.least.reserve

theorem balanced_reserve (h : Spread.Balanced groups) : Spread.Balanced (reserve settings groups) :=
  h.put _

theorem getD_reserve (h : Sound settings groups) (i : Nat) :
    (reserve settings groups).getD i [] = groups.getD i [] ++
      if Spread.leastLoaded groups = i then [slotIn settings groups i] else [] := by
  have hlt := Spread.leastLoaded_lt h.ne_nil
  rw [reserve, List.getD_eq_getElem?_getD, List.getElem?_modify, List.getD_eq_getElem?_getD]
  split
  · rename_i heq
    subst heq
    simp [List.getElem?_eq_getElem hlt]
  · simp

end Reserve

section Assign

variable {settings : Settings} {now : Int} {groups : List (List Nat)}
  {state state' : MaintenanceState} {targets targets' : List Target}

theorem keepAssigned_assignment (h : keepAssigned settings now state = .ok state') :
    state'.fullDayGroup = state.fullDayGroup ∧ state'.fullSlotSeconds = state.fullSlotSeconds := by
  rw [keepAssigned] at h
  split at h
  · obtain ⟨due, -, h⟩ := Transition.bind_eq_ok.mp h
    cases h
    exact ⟨rfl, rfl⟩
  · cases h
    exact ⟨rfl, rfl⟩

theorem keepState_assignment (h : keepState settings now state = .ok state') :
    state'.fullDayGroup = state.fullDayGroup ∧ state'.fullSlotSeconds = state.fullSlotSeconds := by
  rw [keepState] at h
  split at h
  · exact keepAssigned_assignment h
  · cases h
    exact ⟨rfl, rfl⟩

theorem keepAll_assignment (h : keepAll settings now targets = .ok targets') :
    targets'.map Target.assignment = targets.map Target.assignment := by
  induction targets generalizing targets' with
  | nil =>
    cases h
    rfl
  | cons target rest ih =>
    obtain ⟨state, hstate, h⟩ := Transition.bind_eq_ok.mp h
    obtain ⟨rest', hrest, h⟩ := Transition.bind_eq_ok.mp h
    cases h
    have hsame := keepState_assignment hstate
    simp only [List.map_cons, Target.assignment, hsame, List.cons.injEq, true_and]
    exact ih hrest

def slotOf (settings : Settings) (group : Nat) (a : String × Option Nat × Option Nat) :
    Option Nat :=
  match assigned settings ⟨a.2.1, a.2.2, "", none, none⟩ with
  | some slot => if slot.1 = group then some slot.2 else none
  | none => none

theorem slotsOf_eq (group : Nat) : slotsOf settings targets group =
    (targets.map Target.assignment).filterMap (slotOf settings group) := by
  rw [List.filterMap_map]
  rfl

theorem slotsOf_congr (h : targets'.map Target.assignment = targets.map Target.assignment) :
    slotsOf settings targets' = slotsOf settings targets := by
  funext group
  rw [slotsOf_eq, slotsOf_eq, h]

/-- A target that is assigned now gets a slot of the group with the fewest. -/
theorem assigned_assignState (hsound : Sound settings groups)
    (h : assignState settings now groups state = .ok state') : assigned settings state' =
      some (Spread.leastLoaded groups, slotIn settings groups (Spread.leastLoaded groups)) := by
  obtain ⟨due, -, h⟩ := Transition.bind_eq_ok.mp h
  cases h
  have hgroup := (Spread.leastLoaded_lt hsound.ne_nil).trans_eq hsound.length
  have hmiddle := Spread.middle_bounds settings.window hsound.least.inside
  exact if_pos ⟨hgroup, hmiddle⟩

/-- What the second loop makes of the groups and the targets. -/
structure Assigned (settings : Settings) (groups groups' : List (List Nat))
    (targets targets' : List Target) : Prop where
  sound : Sound settings groups'
  balanced : Spread.Balanced groups → Spread.Balanced groups'
  slots : ∀ group, ∃ fresh, groups'.getD group [] = groups.getD group [] ++ fresh ∧
    (slotsOf settings targets' group).Perm (slotsOf settings targets group ++ fresh)
  all : ∀ target ∈ targets', assigned settings target.maintenanceState ≠ none

theorem slotsOf_cons_some {target : Target} {slot : Nat × Nat} (group : Nat)
    (h : assigned settings target.maintenanceState = some slot) :
    slotsOf settings (target :: targets) group =
      (if slot.1 = group then [slot.2] else []) ++ slotsOf settings targets group := by
  rw [slotsOf, List.filterMap_cons, h]
  by_cases hgroup : slot.1 = group
  · simp [hgroup, slotsOf]
  · simp [hgroup, slotsOf]

theorem slotsOf_cons_none {target : Target} (group : Nat)
    (h : assigned settings target.maintenanceState = none) :
    slotsOf settings (target :: targets) group = slotsOf settings targets group := by
  rw [slotsOf, List.filterMap_cons, h]
  rfl

theorem assignRest_spec (hsound : Sound settings groups)
    (h : assignRest settings now groups targets = .ok targets') :
    ∃ groups', Assigned settings groups groups' targets targets' := by
  induction targets generalizing groups targets' with
  | nil =>
    cases h
    exact ⟨groups, hsound, id, fun _ => ⟨[], by simp, by simp⟩, by simp⟩
  | cons target rest ih =>
    rw [assignRest] at h
    cases hassigned : assigned settings target.maintenanceState with
    | some slot =>
      rw [hassigned] at h
      obtain ⟨rest', hrest, h⟩ := Transition.bind_eq_ok.mp h
      cases h
      obtain ⟨groups', hsound', hbalanced, hslots, hall⟩ := ih hsound hrest
      refine ⟨groups', hsound', hbalanced, fun group => ?_, ?_⟩
      · obtain ⟨fresh, hfresh, hperm⟩ := hslots group
        refine ⟨fresh, hfresh, ?_⟩
        rw [slotsOf_cons_some group hassigned, slotsOf_cons_some group hassigned,
          List.append_assoc]
        exact hperm.append_left _
      · intro other hother
        rcases List.mem_cons.mp hother with rfl | hother
        · rw [hassigned]
          exact Option.some_ne_none slot
        · exact hall other hother
    | none =>
      rw [hassigned] at h
      obtain ⟨state, hstate, h⟩ := Transition.bind_eq_ok.mp h
      obtain ⟨rest', hrest, h⟩ := Transition.bind_eq_ok.mp h
      cases h
      have hnow : assigned settings
          ({ target with maintenanceState := state } : Target).maintenanceState = some _ :=
        assigned_assignState hsound hstate
      obtain ⟨groups', hsound', hbalanced, hslots, hall⟩ := ih hsound.reserve hrest
      refine ⟨groups', hsound', fun hbal => hbalanced (balanced_reserve hbal), fun group => ?_, ?_⟩
      · obtain ⟨fresh, hfresh, hperm⟩ := hslots group
        rw [getD_reserve hsound, List.append_assoc] at hfresh
        refine ⟨_, hfresh, ?_⟩
        rw [slotsOf_cons_some group hnow, slotsOf_cons_none group hassigned]
        have hsame : (if Spread.leastLoaded groups = group then
            [slotIn settings groups (Spread.leastLoaded groups)] else []) =
            if Spread.leastLoaded groups = group then [slotIn settings groups group] else [] := by
          split
          · rename_i heq
            rw [heq]
          · rfl
        rw [hsame]
        refine (hperm.append_left _).trans ?_
        rw [← List.append_assoc, ← List.append_assoc]
        exact List.perm_append_comm.append_right _
      · intro other hother
        rcases List.mem_cons.mp hother with rfl | hother
        · rw [hnow]
          exact Option.some_ne_none _
        · exact hall other hother

theorem assignRest_keeps (h : assignRest settings now groups targets = .ok targets') :
    List.Forall₂ (Keeps settings) targets targets' := by
  induction targets generalizing groups targets' with
  | nil =>
    cases h
    exact .nil
  | cons target rest ih =>
    rw [assignRest] at h
    cases hassigned : assigned settings target.maintenanceState with
    | some slot =>
      rw [hassigned] at h
      obtain ⟨rest', hrest, h⟩ := Transition.bind_eq_ok.mp h
      cases h
      exact .cons ⟨rfl, fun _ => rfl⟩ (ih hrest)
    | none =>
      rw [hassigned] at h
      obtain ⟨state, -, h⟩ := Transition.bind_eq_ok.mp h
      obtain ⟨rest', hrest, h⟩ := Transition.bind_eq_ok.mp h
      cases h
      exact .cons ⟨rfl, fun hne => absurd hassigned hne⟩ (ih hrest)

theorem assigned_congr {before after : Target} (h : after.assignment = before.assignment) :
    assigned settings after.maintenanceState = assigned settings before.maintenanceState := by
  simp only [Target.assignment, Prod.mk.injEq] at h
  simp only [assigned, h]

theorem keeps_of_assignment {before : List Target}
    (hsame : targets.map Target.assignment = before.map Target.assignment)
    (h : List.Forall₂ (Keeps settings) targets targets') :
    List.Forall₂ (Keeps settings) before targets' := by
  induction h generalizing before with
  | nil =>
    rw [List.map_nil, eq_comm, List.map_eq_nil_iff] at hsame
    subst hsame
    exact .nil
  | cons hkeeps _ ih =>
    rw [List.map_cons, eq_comm, List.map_eq_cons_iff] at hsame
    obtain ⟨target, rest, rfl, htarget, hrest⟩ := hsame
    refine .cons ⟨hkeeps.target.trans (congrArg Prod.fst htarget).symm, fun hne => ?_⟩ (ih hrest.symm)
    rw [assigned_congr htarget] at hne
    exact (hkeeps.assignment hne).trans htarget.symm

theorem assignFullSlots_keeps (h : assignFullSlots settings now targets = .ok targets') :
    List.Forall₂ (Keeps settings) targets targets' := by
  obtain ⟨kept, hkept, h⟩ := Transition.bind_eq_ok.mp h
  exact keeps_of_assignment (keepAll_assignment hkept) (assignRest_keeps h)

end Assign

/-! ## Histories -/

/-- The groups differ by one slot at most, and the slots of a group that is no larger than the
window are different. -/
structure EvenlySpread (settings : Settings) (targets : List Target) : Prop where
  balanced : Spread.Balanced (groupsOf settings targets)
  apart : ∀ group, (slotsOf settings targets group).length ≤
    settings.windowEnd.seconds - settings.windowStart.seconds →
      (slotsOf settings targets group).Nodup

section Histories

variable {settings : Settings} {now : Int} {targets targets' : List Target}

variable {group : Nat} {event : Event}

theorem mem_slotsOf {x : Nat} (h : x ∈ slotsOf settings targets group) : group <
      settings.cycleDays ∧ settings.windowStart.seconds ≤ x ∧ x < settings.windowEnd.seconds := by
  obtain ⟨target, -, htarget⟩ := List.mem_filterMap.mp h
  split at htarget
  · rename_i slot hassigned
    obtain ⟨slotGroup, seconds⟩ := slot
    obtain ⟨-, -, hgroup, hstart, hend⟩ := assigned_eq_some hassigned
    split at htarget
    · rename_i heq
      cases htarget
      exact ⟨heq ▸ hgroup, hstart, hend⟩
    · cases htarget
  · cases htarget

theorem getD_groupsOf (h : group < settings.cycleDays) :
    (groupsOf settings targets).getD group [] = slotsOf settings targets group := by
  simp [groupsOf, h]

theorem sound_groupsOf (h : ∀ group, Spaced settings (slotsOf settings targets group)) :
    Sound settings (groupsOf settings targets) := by
  refine ⟨by simp [groupsOf], fun slots hslots => ?_⟩
  obtain ⟨group, -, rfl⟩ := List.mem_map.mp hslots
  exact h group

theorem EvenlySpread.spaced (h : EvenlySpread settings targets) (group : Nat) :
    Spaced settings (slotsOf settings targets group) :=
  ⟨fun _ hx => (mem_slotsOf hx).2, h.apart group⟩

section Perm

variable {groups : List (List Nat)} (hsound : Sound settings groups)

include hsound

theorem Sound.getD_mem {group : Nat} (hgroup : group < settings.cycleDays) :
    groups.getD group [] ∈ groups := by
  rw [← hsound.length] at hgroup
  rw [List.getD_eq_getElem _ _ hgroup]
  exact List.getElem_mem hgroup

variable
  (h : ∀ group < settings.cycleDays, (slotsOf settings targets group).Perm (groups.getD group []))

include h

theorem nodup_of_perm (group : Nat) (hlength : (slotsOf settings targets group).length ≤
    settings.windowEnd.seconds - settings.windowStart.seconds) :
    (slotsOf settings targets group).Nodup := by
  by_cases hgroup : group < settings.cycleDays
  · rw [(h group hgroup).length_eq] at hlength
    rw [(h group hgroup).nodup_iff]
    exact (hsound.spaced _ (hsound.getD_mem hgroup)).apart hlength
  · have hnil : slotsOf settings targets group = [] :=
      List.eq_nil_iff_forall_not_mem.mpr fun x hx => hgroup (mem_slotsOf hx).1
    rw [hnil]
    exact List.nodup_nil

theorem balanced_of_perm (hbalanced : Spread.Balanced groups) :
    Spread.Balanced (groupsOf settings targets) := by
  intro a ha b hb
  obtain ⟨i, hi, rfl⟩ := List.mem_map.mp ha
  obtain ⟨j, hj, rfl⟩ := List.mem_map.mp hb
  have hi := List.mem_range.mp hi
  have hj := List.mem_range.mp hj
  rw [(h i hi).length_eq, (h j hj).length_eq]
  exact hbalanced _ (hsound.getD_mem hi) _ (hsound.getD_mem hj)

end Perm

theorem EvenlySpread.perm (h : EvenlySpread settings targets)
    (hperm : ∀ group, (slotsOf settings targets' group).Perm (slotsOf settings targets group)) :
    EvenlySpread settings targets' := by
  have hsound := sound_groupsOf h.spaced
  have hgroups : ∀ group < settings.cycleDays,
      (slotsOf settings targets' group).Perm ((groupsOf settings targets).getD group []) := by
    intro group hgroup
    rw [getD_groupsOf hgroup]
    exact hperm group
  exact ⟨balanced_of_perm hsound hgroups h.balanced, nodup_of_perm hsound hgroups⟩

theorem assignFullSlots_spec (hspaced : ∀ group, Spaced settings (slotsOf settings targets group))
    (h : assignFullSlots settings now targets = .ok targets') :
    ∃ groups, Sound settings groups ∧
      (Spread.Balanced (groupsOf settings targets) → Spread.Balanced groups) ∧
      (∀ group < settings.cycleDays,
        (slotsOf settings targets' group).Perm (groups.getD group [])) ∧
      ∀ target ∈ targets', assigned settings target.maintenanceState ≠ none := by
  obtain ⟨kept, hkept, h⟩ := Transition.bind_eq_ok.mp h
  have hsame : slotsOf settings kept = slotsOf settings targets :=
    slotsOf_congr (keepAll_assignment hkept)
  have hgroups : groupsOf settings kept = groupsOf settings targets := by rw [groupsOf, hsame, groupsOf]
  rw [hgroups] at h
  obtain ⟨groups, hsound, hbalanced, hslots, hall⟩ := assignRest_spec (sound_groupsOf hspaced) h
  refine ⟨groups, hsound, hbalanced, fun group hgroup => ?_, hall⟩
  obtain ⟨fresh, hfresh, hperm⟩ := hslots group
  rw [hfresh, getD_groupsOf hgroup, ← hsame]
  exact hperm

theorem EvenlySpread.assign (hspread : EvenlySpread settings targets)
    (h : assignFullSlots settings now targets = .ok targets') : EvenlySpread settings targets' ∧
      ∀ target ∈ targets', assigned settings target.maintenanceState ≠ none := by
  obtain ⟨groups, hsound, hbalanced, hperm, hall⟩ := assignFullSlots_spec hspread.spaced h
  exact ⟨⟨balanced_of_perm hsound hperm (hbalanced hspread.balanced), nodup_of_perm hsound hperm⟩,
    hall⟩

theorem evenlySpread_nil : EvenlySpread settings [] := by
  constructor
  · intro a ha b hb
    obtain ⟨i, -, rfl⟩ := List.mem_map.mp ha
    exact Nat.zero_le _
  · intro group _
    exact List.nodup_nil

/-- Two assignments are not the same group and the same slot. -/
def Differs (a b : String × Option Nat × Option Nat) : Prop :=
  ∀ group seconds, a.2 = (some group, some seconds) → b.2 ≠ (some group, some seconds)

def SlotsApart (targets : List Target) : Prop :=
  (targets.map Target.assignment).Pairwise Differs

theorem slotOf_eq_some {x : Nat} {a : String × Option Nat × Option Nat}
    (h : slotOf settings group a = some x) : a.2 = (some group, some x) := by
  unfold slotOf at h
  split at h
  · rename_i slot hassigned
    obtain ⟨slotGroup, seconds⟩ := slot
    obtain ⟨hgroup, hseconds, -⟩ := assigned_eq_some hassigned
    split at h
    · rename_i heq
      cases h
      exact Prod.ext (heq ▸ hgroup) hseconds
    · cases h
  · cases h

theorem SlotsApart.spaced (h : SlotsApart targets) (group : Nat) :
    Spaced settings (slotsOf settings targets group) := by
  refine ⟨fun _ hx => (mem_slotsOf hx).2, fun _ => ?_⟩
  rw [slotsOf_eq, List.Nodup, List.pairwise_filterMap]
  refine List.Pairwise.imp (fun hdiffers x hx y hy => ?_) h
  rintro rfl
  exact hdiffers group x (slotOf_eq_some hx) (slotOf_eq_some hy)

theorem slotsApart_of_nodup (hall : ∀ target ∈ targets, assigned settings target.maintenanceState ≠ none)
    (h : ∀ group, (slotsOf settings targets group).Nodup) : SlotsApart targets := by
  rw [SlotsApart, List.pairwise_iff_getElem]
  intro i j hi hj hlt group seconds ha hb
  have hvalid : ∀ (k : Nat) (hk : k < (targets.map Target.assignment).length),
      (targets.map Target.assignment)[k].2 = (some group, some seconds) →
        slotOf settings group (targets.map Target.assignment)[k] = some seconds := by
    intro k hk heq
    have hk' : k < targets.length := by simpa using hk
    obtain ⟨⟨g, x⟩, hassigned⟩ :=
      Option.ne_none_iff_exists'.mp (hall targets[k] (List.getElem_mem hk'))
    obtain ⟨hgroup, hseconds, -⟩ := assigned_eq_some hassigned
    simp only [List.getElem_map, Target.assignment, hgroup, hseconds, Prod.mk.injEq,
      Option.some.injEq] at heq
    obtain ⟨rfl, rfl⟩ := heq
    have hslot : assigned settings
        ⟨(targets.map Target.assignment)[k].2.1, (targets.map Target.assignment)[k].2.2, "", none,
          none⟩ = some (g, x) := by
      rw [← hassigned, List.getElem_map]
      rfl
    rw [slotOf, hslot]
    exact if_pos rfl
  have hnodup := h group
  rw [slotsOf_eq, List.Nodup, List.pairwise_filterMap, List.pairwise_iff_getElem] at hnodup
  exact hnodup i j hi hj hlt seconds (hvalid i hi ha) seconds (hvalid j hj hb) rfl

theorem slotsApart_congr (h : (targets'.map Target.assignment).Perm (targets.map Target.assignment))
    (hapart : SlotsApart targets) : SlotsApart targets' :=
  (h.pairwise_iff fun hdiffers group seconds hb ha => hdiffers group seconds ha hb).mpr hapart

/-- A call that is given all the targets and leaves no group with more slots than the window has
seconds. -/
def GivenRoom (targets : List Target) : Event → List Target → Prop
  | .assigned count settings _, targets' => targets.length ≤ count ∧
      ∀ group, (slotsOf settings targets' group).length ≤
        settings.windowEnd.seconds - settings.windowStart.seconds
  | _, _ => True

theorem SlotsApart.added {fresh : List Target} (h : SlotsApart targets)
    (hfresh : ∀ target ∈ fresh, target.maintenanceState.fullDayGroup = none) :
    SlotsApart (targets ++ fresh) := by
  rw [SlotsApart, List.map_append, List.pairwise_append]
  have hnone : ∀ a ∈ fresh.map Target.assignment, ∀ group seconds,
      a.2 ≠ (some group, some seconds) := by
    intro a ha group seconds heq
    obtain ⟨target, htarget, rfl⟩ := List.mem_map.mp ha
    have hgroup := congrArg Prod.fst heq
    rw [show (Target.assignment target).2.1 = none from hfresh target htarget] at hgroup
    cases hgroup
  refine ⟨h, ?_, fun a _ b hb group seconds _ => hnone b hb group seconds⟩
  exact List.pairwise_of_forall_mem_list fun a ha b _ group seconds heq =>
    absurd heq (hnone a ha group seconds)

/-- Whatever the settings of the calls are, no two targets get the same slot while there is room. -/
theorem slotsApart_of_step (hapart : SlotsApart targets) (hroom : GivenRoom targets event targets')
    (h : histories.step targets event = some targets') : SlotsApart targets' := by
  cases event with
  | added fresh =>
    simp only [histories] at h
    split at h
    · rename_i hfresh
      cases h
      exact hapart.added hfresh
    · cases h
  | arranged arranged =>
    simp only [histories] at h
    split at h
    · rename_i hperm
      cases h
      exact slotsApart_congr hperm hapart
    · cases h
  | assigned count settings now =>
    obtain ⟨hcount, hlength⟩ := hroom
    simp only [histories, Option.some.injEq] at h
    subst h
    rw [afterAssign, List.take_of_length_le hcount, List.drop_eq_nil_of_le hcount] at hlength ⊢
    cases hassign : assignFullSlots settings now targets with
    | ok result =>
      rw [hassign] at hlength
      obtain ⟨groups, hsound, -, hperm, hall⟩ := assignFullSlots_spec hapart.spaced hassign
      simp only [List.append_nil] at hlength ⊢
      exact slotsApart_of_nodup hall fun group => nodup_of_perm hsound hperm group (hlength group)
    | error message => exact hapart

def GivenAll (settings : Settings) (targets : List Target) : Event → Prop
  | .assigned count settings' _ => settings' = settings ∧ targets.length ≤ count
  | _ => True

/-- What a call of `assign_full_slots` does. -/
structure Assigns (settings : Settings) (targets targets' : List Target) (event : Event) : Prop where
  spread : EvenlySpread settings targets'
  /-- A call that succeeds leaves no target without a slot. -/
  all : ∀ count now, event = .assigned count settings now →
    targets' = targets ∨ ∀ target ∈ targets', assigned settings target.maintenanceState ≠ none

theorem assigns_of_step (hspread : EvenlySpread settings targets)
    (hgiven : GivenAll settings targets event) (h : histories.step targets event = some targets') :
    Assigns settings targets targets' event := by
  cases event with
  | added fresh =>
    simp only [histories] at h
    split at h
    · rename_i hfresh
      cases h
      refine ⟨hspread.perm fun group => ?_, fun _ _ heq => by cases heq⟩
      have hnone : slotsOf settings fresh group = [] := by
        refine List.filterMap_eq_nil_iff.mpr fun target htarget => ?_
        simp only [assigned, hfresh target htarget]
      rw [slotsOf, List.filterMap_append]
      show (slotsOf settings targets group ++ slotsOf settings fresh group).Perm _
      rw [hnone, List.append_nil]
    · cases h
  | arranged arranged =>
    simp only [histories] at h
    split at h
    · rename_i hperm
      cases h
      refine ⟨hspread.perm fun group => ?_, fun _ _ heq => by cases heq⟩
      rw [slotsOf_eq, slotsOf_eq]
      exact hperm.filterMap _
    · cases h
  | assigned count settings' now =>
    obtain ⟨rfl, hcount⟩ := hgiven
    simp only [histories, Option.some.injEq] at h
    subst h
    rw [afterAssign, List.take_of_length_le hcount, List.drop_eq_nil_of_le hcount]
    cases hassign : assignFullSlots settings' now targets with
    | ok result =>
      obtain ⟨hspread', hall⟩ := hspread.assign hassign
      simp only [List.append_nil]
      exact ⟨hspread', fun _ _ _ => .inr hall⟩
    | error message => exact ⟨hspread, fun _ _ _ => .inl rfl⟩

theorem keeps_of_step {count : Nat} (hevent : event = .assigned count settings now)
    (h : histories.step targets event = some targets') :
    List.Forall₂ (Keeps settings) targets targets' := by
  subst hevent
  simp only [histories, Option.some.injEq] at h
  subst h
  have hrefl : ∀ rest : List Target, List.Forall₂ (Keeps settings) rest rest := fun rest =>
    List.forall₂_same.mpr fun _ _ => ⟨rfl, fun _ => rfl⟩
  rw [afterAssign]
  cases hassign : assignFullSlots settings now (targets.take count) with
  | ok result =>
    have happend := List.rel_append (assignFullSlots_keeps hassign) (hrefl (targets.drop count))
    simp only [List.take_append_drop] at happend
    exact happend
  | error message => exact hrefl targets

end Histories

/-- The slots of full maintenance.

In every history a call of `assign_full_slots` keeps the valid assignments. Where the calls are
given all the targets, under settings that stay the same, the targets are evenly spread after
every event, and all of them have a slot after a call that succeeds; whatever the settings are, no
two targets have the same slot while no group is larger than the window.

`next_full_slot` of a valid assignment returns the earliest eligible instant that is upcoming if it
is on a local day of the next two cycles, and raises otherwise. Eligible instants lie inside the
window, one at most on a local day. -/
theorem slots_spread (settings : Settings) :
    (∀ events, histories.Every
      (fun targets event targets' => ∀ count now, event = .assigned count settings now →
        List.Forall₂ (Keeps settings) targets targets') [] events) ∧
    (∀ events, histories.Every (fun targets event _ => GivenAll settings targets event) [] events →
      histories.Every (fun targets event targets' => Assigns settings targets targets' event)
        [] events) ∧
    (∀ events, histories.Every GivenRoom [] events →
      histories.Every (fun _ _ targets' => SlotsApart targets') [] events) ∧
    ∀ state, assigned settings state ≠ none →
      (∀ now includeNow t, nextFullSlot state now settings includeNow = .ok t ↔
        IsNext settings state now includeNow t ∧
          settings.localDay t ≤ settings.localDay now + settings.cycleDays * 2) ∧
      (∀ now includeNow, nextFullSlot state now settings includeNow = .error noSlot ↔
        ∀ t, Eligible settings state t → Upcoming now includeNow t →
          settings.localDay now + settings.cycleDays * 2 < settings.localDay t) ∧
      (∀ t, Eligible settings state t → InWindow settings t) ∧
      ∀ t t', Eligible settings state t → Eligible settings state t' →
        settings.localDay t = settings.localDay t' → t = t' := by
  refine ⟨fun events => ?_, fun events hgiven => ?_, fun events hroom => ?_, fun state hne => ?_⟩
  · refine Transition.System.every_of_invariant (Q := fun _ _ _ => True) (I := fun _ => True) ?_
      trivial (Transition.System.every_of_forall fun _ _ _ _ => trivial)
    exact fun _ _ _ _ hstep _ => ⟨trivial, fun _ _ hevent => keeps_of_step hevent hstep⟩
  · refine Transition.System.every_of_invariant (I := EvenlySpread settings) ?_ evenlySpread_nil hgiven
    intro targets event targets' hspread hstep hall
    have hassigns := assigns_of_step hspread hall hstep
    exact ⟨hassigns.spread, hassigns⟩
  · have hstart : SlotsApart [] := List.Pairwise.nil
    refine Transition.System.every_of_invariant (I := SlotsApart) ?_ hstart hroom
    intro targets event targets' hapart hstep hgiven
    have hapart' := slotsApart_of_step hapart hgiven hstep
    exact ⟨hapart', hapart'⟩
  · obtain ⟨⟨group, seconds⟩, hassigned⟩ := Option.ne_none_iff_exists'.mp hne
    obtain ⟨-, -, -, hstart, -⟩ := assigned_eq_some hassigned
    refine ⟨fun _ _ _ => nextFullSlot_eq_ok hassigned, fun _ _ => nextFullSlot_eq_error hassigned, ?_, ?_⟩
    · intro t heligible
      obtain ⟨date, -, hslot⟩ := (eligible_iff hassigned).mp heligible
      exact hslot.inWindow hstart
    · intro t t' heligible heligible' hday
      obtain ⟨date, -, hslot⟩ := (eligible_iff hassigned).mp heligible
      obtain ⟨date', -, hslot'⟩ := (eligible_iff hassigned).mp heligible'
      rw [hslot.localDay, hslot'.localDay] at hday
      subst hday
      exact hslot.unique hslot'

def nights : Settings where
  fullInterval := 172800
  windowStart := ⟨1, 0, by decide, by decide⟩
  windowEnd := ⟨5, 0, by decide, by decide⟩
  timezone := .fixed "UTC" 0
  interval_pos := by decide
  window := by decide

def october : Int := micros 1791504000

def newTarget (key : String) : Target := ⟨key, .fresh⟩

/-- Three targets, of which the third is added after a call. -/
def nightEvents : List Event :=
  [.added [newTarget "a", newTarget "b"], .assigned 2 nights october, .added [newTarget "c"],
    .assigned 3 nights october]

theorem slots_spread_nights :
    histories.Every (fun targets event targets' => Assigns nights targets targets' event) []
        nightEvents ∧
      histories.Every (fun _ _ targets' => SlotsApart targets') [] nightEvents ∧
      IsNext nights ⟨some 1, some 10800, "UTC", none, none⟩ october false
        (october + micros 10800) := by
  let first := [newTarget "a", newTarget "b"]
  let second := afterAssign nights october 2 first ++ [newTarget "c"]
  have hadded : histories.step [] (.added first) = some first := by decide +kernel
  have hcalled : histories.step first (.assigned 2 nights october) =
      some (afterAssign nights october 2 first) := rfl
  have hagain : histories.step (afterAssign nights october 2 first) (.added [newTarget "c"]) =
      some second := by
    decide +kernel
  have hlast : histories.step second (.assigned 3 nights october) =
      some (afterAssign nights october 3 second) := rfl
  have hroom : ∀ targets targets' : List Target, ∀ count, targets.length ≤ count →
      targets'.length ≤ 14400 → GivenRoom targets (.assigned count nights october) targets' :=
    fun _ _ _ hcount hlength =>
      ⟨hcount, fun _ => (List.length_filterMap_le _ _).trans hlength⟩
  have hstate : assigned nights ⟨some 1, some 10800, "UTC", none, none⟩ ≠ none := by decide +kernel
  refine ⟨(slots_spread nights).2.1 nightEvents ?_, (slots_spread nights).2.2.1 nightEvents ?_,
    (((slots_spread nights).2.2.2 _ hstate).1 october false _).mp (by decide +kernel) |>.1⟩
  · refine (Transition.System.every_cons_of_some hadded).mpr ⟨trivial,
      (Transition.System.every_cons_of_some hcalled).mpr ⟨⟨rfl, by decide⟩,
        (Transition.System.every_cons_of_some hagain).mpr ⟨trivial,
          (Transition.System.every_cons_of_some hlast).mpr ⟨⟨rfl, ?_⟩, trivial⟩⟩⟩⟩
    decide +kernel
  · refine (Transition.System.every_cons_of_some hadded).mpr ⟨trivial,
      (Transition.System.every_cons_of_some hcalled).mpr ⟨hroom _ _ 2 (by decide) ?_,
        (Transition.System.every_cons_of_some hagain).mpr ⟨trivial,
          (Transition.System.every_cons_of_some hlast).mpr ⟨hroom _ _ 3 ?_ ?_, trivial⟩⟩⟩⟩
    · decide +kernel
    · decide +kernel
    · decide +kernel

/-! ### What goes wrong -/

def newYork : Zone :=
  .withSummers "America/New_York" (micros (-18000)) (micros 3600)
    ([(1805007600, 1825567200), (1836457200, 1857016800), (1867906800, 1888466400),
      (1899356400, 1919916000), (1930806000, 1951365600)].map fun summer =>
        (micros summer.1, micros summer.2))
    (by decide) (by decide)

/-- Every 52 weeks from 02:00 to 03:00. -/
def springs : Settings where
  fullInterval := 31449600
  windowStart := ⟨2, 0, by decide, by decide⟩
  windowEnd := ⟨3, 0, by decide, by decide⟩
  timezone := newYork
  interval_pos := by decide
  window := by decide

/-- A target whose day is that of the change to summer time, in five years. -/
def springState : MaintenanceState := ⟨some 73, some 9000, "America/New_York", none, none⟩

def march : Int := micros 1804654800

def UnderSettings (settings : Settings) : Event → Prop
  | .assigned _ settings' _ => settings' = settings
  | _ => True

/-- Two targets that are each assigned in a call of its own get the same slot of the same group,
and `next_full_slot` raises where the slots of more than two cycles are jumped over. -/
theorem not_slots_spread :
    (¬ ∀ settings events, (∀ event ∈ events, UnderSettings settings event) →
      histories.Every (fun _ _ targets' => EvenlySpread settings targets') [] events) ∧
    ¬ ∀ settings state now, assigned settings state ≠ none →
      (∃ t, Eligible settings state t ∧ Upcoming now false t) →
        ∃ t, nextFullSlot state now settings false = .ok t ∧ IsNext settings state now false t := by
  constructor
  · intro h
    let first := afterAssign nights october 1 [newTarget "a"]
    let both := newTarget "b" :: first
    have hspread := h nights
      [.added [newTarget "a"], .assigned 1 nights october, .added [newTarget "b"], .arranged both,
        .assigned 1 nights october] (by simp [UnderSettings])
    have hadded : histories.step [] (.added [newTarget "a"]) = some [newTarget "a"] := by
      decide +kernel
    have hcalled : histories.step [newTarget "a"] (.assigned 1 nights october) = some first := rfl
    have hagain : histories.step first (.added [newTarget "b"]) = some (first ++ [newTarget "b"]) := by
      decide +kernel
    have harranged : histories.step (first ++ [newTarget "b"]) (.arranged both) = some both := by
      decide +kernel
    have hlast : histories.step both (.assigned 1 nights october) =
        some (afterAssign nights october 1 both) := rfl
    rw [Transition.System.every_cons_of_some hadded, Transition.System.every_cons_of_some hcalled,
      Transition.System.every_cons_of_some hagain, Transition.System.every_cons_of_some harranged,
      Transition.System.every_cons_of_some hlast] at hspread
    have hnodup := hspread.2.2.2.2.1.apart 0 (by decide +kernel)
    exact absurd hnodup (by decide +kernel)
  · intro h
    have hslot : IsSlot springs 9000 22711 (micros 1962257400) :=
      slotOn_eq_some.mp (by decide +kernel)
    have heligible : Eligible springs springState (micros 1962257400) :=
      ⟨73, 9000, 22711, rfl, rfl, by decide +kernel, hslot⟩
    obtain ⟨t, hok, -⟩ := h springs springState march (by decide +kernel)
      ⟨_, heligible, .inl (by decide)⟩
    have herror : nextFullSlot springState march springs false = .error noSlot := by decide +kernel
    rw [herror] at hok
    cases hok

end HyperFileLens.Storage.MaintenanceSchedule
