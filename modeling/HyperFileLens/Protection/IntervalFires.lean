import HyperFileLens.Protection.PolicySchedule

/-!
# When interval schedules fire

An interval schedule means the instants that are whole intervals after its start. The
interval branch of `schedule_matches_now` counts elapsed time, and the fire key goes by
UTC, so distinct minutes have distinct keys (`fireKey_injective`). The start gate in
front of the branch compares clocks in the zone. In the second pass of a repeated hour
the clock is back before the start that it showed in the first pass, and the gate is
closed again.

*Beats.*  A minute is on the beat if the minutes since the start are a whole number of
intervals. Where the start is on a whole minute of UTC, these are the instants the
schedule means.
-/

namespace HyperFileLens.Protection

/-! ## Stamps -/

variable {schedule : Schedule} {interval : Int}

theorem wallHour_lt (wall : Int) : 0 ≤ wallHour wall ∧ wallHour wall < 100 := by
  simp only [wallHour, hourMicros]
  omega

theorem wallMinute_lt (wall : Int) : 0 ≤ wallMinute wall ∧ wallMinute wall < 100 := by
  simp only [wallMinute, hourMicros, minuteMicros]
  omega

/-- Two texts that end in the same number of characters agree in both parts. -/
theorem append_padded_inj {s t : String} {m n : Int} (hm : 0 ≤ m ∧ m < 100) (hn : 0 ≤ n ∧ n < 100)
    (h : s ++ Calendar.padded 2 m = t ++ Calendar.padded 2 n) : s = t ∧ m = n := by
  have hlists : s.toList ++ (Calendar.padded 2 m).toList =
      t.toList ++ (Calendar.padded 2 n).toList := by
    rw [← String.toList_append, ← String.toList_append, h]
  have hlength : (Calendar.padded 2 m).toList.length = (Calendar.padded 2 n).toList.length := by
    rw [Calendar.length_padded_two hm.1 hm.2, Calendar.length_padded_two hn.1 hn.2]
  obtain ⟨hfront, hback⟩ := List.append_inj' hlists hlength
  exact ⟨String.toList_inj.mp hfront, Calendar.padded_injective (String.toList_inj.mp hback)⟩

theorem stamp_injective {v w : Int} (hv : v % minuteMicros = 0) (hw : w % minuteMicros = 0)
    (h : stamp v = stamp w) : v = w := by
  have hvLt := Calendar.ofDays_lt (wallDay v)
  have hwLt := Calendar.ofDays_lt (wallDay w)
  obtain ⟨h, hminute⟩ := append_padded_inj (wallMinute_lt v) (wallMinute_lt w) h
  obtain ⟨h, hhour⟩ := append_padded_inj (wallHour_lt v) (wallHour_lt w) h
  obtain ⟨h, hday⟩ := append_padded_inj (by omega) (by omega) h
  obtain ⟨h, hmonth⟩ := append_padded_inj (by omega) (by omega) h
  have hyear := Calendar.padded_injective h
  have hdate : Calendar.ofDays (wallDay v) = Calendar.ofDays (wallDay w) := by
    generalize Calendar.ofDays (wallDay v) = dateV at *
    generalize Calendar.ofDays (wallDay w) = dateW at *
    cases dateV
    cases dateW
    simp only [Calendar.Date.mk.injEq]
    exact ⟨hyear, Int.ofNat_inj.mp hmonth, Int.ofNat_inj.mp hday⟩
  have hdays := Calendar.ofDays_injective hdate
  simp only [wallDay, wallHour, wallMinute, hourMicros, minuteMicros] at *
  omega

theorem awareMinute_whole (now : Int) : awareMinute now % minuteMicros = 0 := by
  simp only [awareMinute, minuteMicros]
  omega

theorem Schedule.fireKey_injective (hmode : schedule.mode = "interval") {now now' : Int}
    (h : schedule.fireKey now = schedule.fireKey now') : awareMinute now = awareMinute now' := by
  have hutc : ∀ t, schedule.fireKey t = stamp (awareMinute t) := by
    intro t
    rw [Schedule.fireKey, if_neg (fun hne => hne hmode)]
  rw [hutc, hutc] at h
  exact stamp_injective (awareMinute_whole now) (awareMinute_whole now') h

/-! ## Beats -/

/-- An enabled schedule of mode `interval` with a start and an interval in minutes. -/
structure Schedule.IsInterval (schedule : Schedule) (start interval : Int) : Prop where
  enabled : schedule.enabled = true
  mode : schedule.mode = "interval"
  start : schedule.startMinute = some start
  value : ∃ value, schedule.intervalValue = some value ∧
    unitMinutes schedule.intervalUnit * value = interval
  positive : 1 ≤ interval

def Schedule.elapsed (schedule : Schedule) (start now : Int) : Int :=
  (awareMinute now - schedule.timezone.instant start) / minuteMicros

/-- A whole number of intervals has passed since the start. -/
def Schedule.OnBeat (schedule : Schedule) (start interval now : Int) : Prop :=
  0 ≤ schedule.elapsed start now ∧ schedule.elapsed start now % interval = 0

/-- The minute is one of the instants the schedule means. -/
def Schedule.Due (schedule : Schedule) (start interval now : Int) : Prop :=
  ∃ k : Nat, awareMinute now = schedule.timezone.instant start + k * (interval * minuteMicros)

def Schedule.WholeStart (schedule : Schedule) (start : Int) : Prop :=
  schedule.timezone.instant start % minuteMicros = 0

instance (schedule : Schedule) (start : Int) : Decidable (schedule.WholeStart start) :=
  inferInstanceAs (Decidable (_ = _))

variable {start : Int}

theorem Schedule.IsInterval.matchesNow_iff (h : schedule.IsInterval start interval) (now : Int) :
    schedule.matchesNow now = true ↔
      start ≤ schedule.localMinute now ∧ schedule.OnBeat start interval now := by
  obtain ⟨value, hvalue, hinterval⟩ := h.value
  have hmode : Text.lower (Text.strip schedule.mode) = "interval" := by
    rw [h.mode]
    decide +kernel
  have hstarted : schedule.hasStarted (schedule.localMinute now) =
      decide (start ≤ schedule.localMinute now) := by
    rw [Schedule.hasStarted, h.start]
    rfl
  have hinstant : schedule.startInstant = some (schedule.timezone.instant start) := by
    rw [Schedule.startInstant, h.start]
    rfl
  have hbranch : schedule.intervalMatches now =
      (decide (0 ≤ schedule.elapsed start now) &&
        schedule.elapsed start now % interval == 0) := by
    simp only [Schedule.intervalMatches, hinstant, hvalue, hinterval]
    rw [if_neg (by have := h.positive; omega)]
    rfl
  simp only [Schedule.matchesNow, h.enabled, hmode, hstarted, hbranch]
  by_cases hgate : start ≤ schedule.localMinute now
  · simp [hgate, Schedule.OnBeat]
  · simp [hgate]

theorem Schedule.onBeat_iff_due (hwhole : schedule.WholeStart start) (hpos : 1 ≤ interval)
    (now : Int) : schedule.OnBeat start interval now ↔ schedule.Due start interval now := by
  have hminutes : awareMinute now - schedule.timezone.instant start =
      schedule.elapsed start now * minuteMicros := by
    have hnow := awareMinute_whole now
    simp only [Schedule.WholeStart, Schedule.elapsed, minuteMicros] at *
    omega
  constructor
  · rintro ⟨h0, hmod⟩
    obtain ⟨k, hk⟩ := Int.dvd_of_emod_eq_zero hmod
    have hk0 : 0 ≤ k := by
      refine Int.not_lt.mp fun hneg => ?_
      have hprod : interval * k < 0 := Int.mul_neg_of_pos_of_neg (by omega) hneg
      omega
    refine ⟨k.toNat, ?_⟩
    rw [Int.toNat_of_nonneg hk0]
    rw [hk] at hminutes
    have hassoc : interval * k * minuteMicros = k * (interval * minuteMicros) := by ring
    omega
  · rintro ⟨k, hk⟩
    have hassoc : (k : Int) * (interval * minuteMicros) = interval * k * minuteMicros := by ring
    have helapsed : schedule.elapsed start now = interval * k := by
      refine Int.eq_of_mul_eq_mul_right (a := minuteMicros) (by decide) ?_
      omega
    rw [Schedule.OnBeat, helapsed]
    exact ⟨Int.mul_nonneg (by omega) (by omega), Int.mul_emod_right interval k⟩

theorem Schedule.not_due (hwhole : ¬ schedule.WholeStart start) (now : Int) :
    ¬ schedule.Due start interval now := by
  rintro ⟨k, hk⟩
  refine hwhole ?_
  have hnow := awareMinute_whole now
  have hassoc : (k : Int) * (interval * minuteMicros) = k * interval * minuteMicros := by ring
  generalize (k : Int) * interval = minutes at hassoc
  simp only [Schedule.WholeStart, minuteMicros] at *
  omega

/-- The gate is open at the beats of a start on a whole minute, and closed at those of a
start within one. -/
def Schedule.GateAgrees (schedule : Schedule) (start interval now : Int) : Prop :=
  schedule.OnBeat start interval now →
    (schedule.WholeStart start ↔ start ≤ schedule.localMinute now)

/-- An interval schedule matches a minute if and only if the minute is a whole number of
intervals after its start, and the minute has a key of its own, exactly where the start
gate on the local clock agrees. -/
theorem Schedule.interval_fires_iff {schedule : Schedule} {start interval : Int}
    (h : schedule.IsInterval start interval) (now : Int) :
    ((schedule.matchesNow now = true ↔ schedule.Due start interval now) ∧
        ∀ now', schedule.fireKey now = schedule.fireKey now' →
          awareMinute now = awareMinute now') ↔
      schedule.GateAgrees start interval now := by
  have hkeys : ∀ now', schedule.fireKey now = schedule.fireKey now' →
      awareMinute now = awareMinute now' := fun _ => Schedule.fireKey_injective h.mode
  rw [and_iff_left hkeys, h.matchesNow_iff, Schedule.GateAgrees]
  by_cases hwhole : schedule.WholeStart start
  · rw [← Schedule.onBeat_iff_due hwhole h.positive]
    tauto
  · have hnot : ¬ schedule.Due start interval now := Schedule.not_due hwhole now
    tauto

/-- New York around the first of November 2026, when two o'clock is one o'clock again. -/
def autumnZone : PolicyTimezone where
  offset t := if t < 1793512800 * 1000000 then -4 * 3600 else -5 * 3600
  wallOffset wall := if wall < 1793498400 * 1000000 then -4 * 3600 else -5 * 3600

/-- Every 30 minutes from half past one on that day, the first one. -/
def autumnSchedule : Schedule where
  enabled := true
  mode := "interval"
  cronExpr := ""
  timezone := autumnZone
  startsAt := some (1793496600 * 1000000)
  time := ""
  intervalUnit := "minute"
  intervalValue := some 30
  weekdays := some []
  monthDays := some []
  monthEnd := false

theorem autumnSchedule_isInterval : autumnSchedule.IsInterval (1793496600 * 1000000) 30 where
  enabled := rfl
  mode := rfl
  start := by decide
  value := ⟨30, rfl, by decide⟩
  positive := by decide

/-- A start in the first pass of the hour fires at once. -/
theorem autumn_fires :
    (autumnSchedule.matchesNow (1793511000 * 1000000) = true ↔
        autumnSchedule.Due (1793496600 * 1000000) 30 (1793511000 * 1000000)) ∧
      ∀ now', autumnSchedule.fireKey (1793511000 * 1000000) = autumnSchedule.fireKey now' →
        awareMinute (1793511000 * 1000000) = awareMinute now' :=
  (Schedule.interval_fires_iff autumnSchedule_isInterval (1793511000 * 1000000)).mpr
    (fun _ => iff_of_true (by decide +kernel) (by decide +kernel))

/-- The second one o'clock, 30 minutes later, is skipped. -/
theorem interval_skips_firing :
    ¬ ∀ (schedule : Schedule) (start interval : Int), schedule.IsInterval start interval →
      ∀ now, (schedule.matchesNow now = true ↔ schedule.Due start interval now) ∧
        ∀ now', schedule.fireKey now = schedule.fireKey now' →
          awareMinute now = awareMinute now' := by
  intro h
  have hdue : autumnSchedule.Due (1793496600 * 1000000) 30 (1793512800 * 1000000) :=
    ⟨1, by decide +kernel⟩
  have hmatches := (h autumnSchedule _ 30 autumnSchedule_isInterval _).1.mpr hdue
  exact absurd hmatches (by decide +kernel)

end HyperFileLens.Protection
