import HyperFileLens.Protection.Retention

/-!
# Policy schedules

The schedule tests of `policy_execution.py`: whether a backup policy is due at a minute
and the key under which the minute fires.

*Times.*  An instant is in microseconds of UTC. A wall clock time counts the
microseconds a naive clock shows. A time zone answers both ways: its offset at an
instant, and its offset at a wall clock time, for which a repeated hour is the first one
and a skipped one is read before the change.

*Fields.*  A schedule holds what the readers make of the stored values. A number that
does not parse is missing.
-/

namespace HyperFileLens.Protection

open Text

/-! ## Cron expressions -/

/-- What one part of a list field settles. The loop goes on where it settles nothing. -/
def cronPartAnswer (value : Int) (raw : List Char) : Option Bool :=
  let part := trim isPySpace raw
  if part = [] then none
  else
    let (base, step) := match splitFirst '/' part with
      | none => (part, some 1)
      | some (base, rawStep) => (base, (parseInt (String.ofList rawStep)).map (max 1))
    match step with
    | none => some false
    | some step =>
      -- a step part answers for the whole field
      if base = ['*'] then some (value % step == 0)
      else match splitFirst '-' base with
        | some (startRaw, endRaw) =>
          match parseInt (String.ofList startRaw), parseInt (String.ofList endRaw) with
          | some start, some stop =>
            if start ≤ value ∧ value ≤ stop ∧ (value - start) % step = 0 then some true
            else none
          | _, _ => some false
        | none =>
          match parseInt (String.ofList base) with
          | some number => if number = value then some true else none
          | none => some false

def cronValueMatches (text : List Char) (value : Int) : Bool :=
  let field := trim isPySpace text
  if field = ['*'] then true
  else ((field.splitOn ',').findSome? (cronPartAnswer value)).getD false

/-! ## Clocks -/

def minuteMicros : Int := 60 * 1000000

/-- What the policies ask of a time zone, in seconds. -/
structure PolicyTimezone where
  offset : ZoneInfo
  wallOffset : ZoneInfo

def PolicyTimezone.wall (zone : PolicyTimezone) (t : Int) : Int := t + zone.offset t * 1000000

/-- The instant at which a clock in the zone shows a time. -/
def PolicyTimezone.instant (zone : PolicyTimezone) (wall : Int) : Int :=
  wall - zone.wallOffset wall * 1000000

def awareMinute (now : Int) : Int := now - now % minuteMicros

def wallDay (wall : Int) : Int := wall / (24 * hourMicros)

def wallHour (wall : Int) : Int := wall % (24 * hourMicros) / hourMicros

def wallMinute (wall : Int) : Int := wall % hourMicros / minuteMicros

def cronMatchesNow (cronExpr : String) (zone : PolicyTimezone) (now : Int) : Bool :=
  let current := zone.wall (awareMinute now)
  let date := Calendar.ofDays (wallDay current)
  match words cronExpr.toList with
  | [minute, hour, dayOfMonth, month, dayOfWeek] =>
    let weekday := Calendar.weekday (wallDay current)
    let cronWeekday := if weekday = 6 then 0 else weekday + 1
    let weekdayMatches := cronValueMatches dayOfWeek cronWeekday ||
      (cronWeekday == 0 && cronValueMatches dayOfWeek 7)
    cronValueMatches minute (wallMinute current) && cronValueMatches hour (wallHour current) &&
      cronValueMatches dayOfMonth date.day && cronValueMatches month date.month &&
      weekdayMatches
  | _ => false

/-! ## Schedules -/

structure Schedule where
  enabled : Bool
  mode : String
  cronExpr : String
  timezone : PolicyTimezone
  /-- `_schedule_start`, a wall clock time. -/
  startsAt : Option Int
  time : String
  intervalUnit : String
  intervalValue : Option Int
  weekdays : Option (List Int)
  monthDays : Option (List Int)
  monthEnd : Bool

section

variable (schedule : Schedule)

def Schedule.localMinute (now : Int) : Int :=
  schedule.timezone.wall (awareMinute now)

/-- `_schedule_start_minute`: a start within a minute counts from the next one. -/
def Schedule.startMinute : Option Int :=
  schedule.startsAt.map fun start =>
    if start % minuteMicros = 0 then start else start - start % minuteMicros + minuteMicros

def Schedule.startInstant : Option Int :=
  schedule.startMinute.map schedule.timezone.instant

/-- `_schedule_has_started`, on the clock in the zone. -/
def Schedule.hasStarted (current : Int) : Bool :=
  schedule.startMinute.all (· ≤ current)

def Schedule.timeMatches (current : Int) : Bool :=
  match splitFirst ':' schedule.time.toList with
  | none => false
  | some (hourRaw, minuteRaw) =>
    match parseInt (String.ofList hourRaw), parseInt (String.ofList minuteRaw) with
    | some hour, some minute => wallHour current == hour && wallMinute current == minute
    | _, _ => false

end

def unitMinutes (unit : String) : Int :=
  if unit = "minute" then 1
  else if unit = "hour" then 60
  else if unit = "day" then 24 * 60
  else 0

/-- The interval branch of `schedule_matches_now`. -/
def Schedule.intervalMatches (schedule : Schedule) (now : Int) : Bool :=
  match schedule.startInstant with
  | none => cronMatchesNow schedule.cronExpr schedule.timezone now
  | some start =>
    match schedule.intervalValue with
    | none => false
    | some interval =>
      let intervalMinutes := unitMinutes schedule.intervalUnit * interval
      if intervalMinutes < 1 then false
      else
        let elapsedMinutes := (awareMinute now - start) / minuteMicros
        0 ≤ elapsedMinutes && elapsedMinutes % intervalMinutes == 0

def Schedule.matchesNow (schedule : Schedule) (now : Int) : Bool :=
  let mode := lower (strip schedule.mode)
  let current := schedule.localMinute now
  let date := Calendar.ofDays (wallDay current)
  if !schedule.enabled then false
  else if mode = "" then cronMatchesNow schedule.cronExpr schedule.timezone now
  else if !schedule.hasStarted current then false
  else if mode = "advanced" then cronMatchesNow schedule.cronExpr schedule.timezone now
  else if mode = "interval" then schedule.intervalMatches now
  else if !schedule.timeMatches current then false
  else if mode = "daily" then true
  else if mode = "weekly" then
    schedule.weekdays.any fun days => days.contains (Calendar.weekday (wallDay current) + 1)
  else if mode = "monthly" then
    schedule.monthDays.any fun days => days.contains (date.day : Int) ||
      (schedule.monthEnd && date.day == Calendar.monthLength date.year date.month)
  else false

/-- The text `%Y%m%d%H%M` of a wall clock time. -/
def stamp (wall : Int) : String :=
  let date := Calendar.ofDays (wallDay wall)
  Calendar.padded 4 date.year ++ Calendar.padded 2 date.month ++ Calendar.padded 2 date.day ++
    Calendar.padded 2 (wallHour wall) ++ Calendar.padded 2 (wallMinute wall)

/-- `_schedule_fire_key`. Calendar schedules go by the clock in their zone, so that a
repeated minute is one occurrence; intervals go by UTC. -/
def Schedule.fireKey (schedule : Schedule) (now : Int) : String :=
  stamp (if schedule.mode ≠ "interval" then schedule.localMinute now else awareMinute now)

end HyperFileLens.Protection
