import HyperFileLens.Library.Text

/-!
# The sample window of a metric policy

`_evaluate_metric_policy` sees the samples of a window: the longer of two durations and the
freshness, counted back from now.

*Whole history.*  The window never makes a policy fire or resolve where the whole history
would not. It fires as the whole history does if a sample of the matching tail that is
older than the latest one by the duration is in the window (`conditionState_window`).

*Design.*  The tail of samples that are far apart may span the duration only with a sample
from before the window. Then nothing is done. A window that starts before the first date
is refused.

Times are in microseconds. Messages and names of resources are left out.
-/

namespace HyperFileLens.Alert.SampleWindow

/-! ## Rules -/

/-- The floats, as far as rules use them. -/
structure Floats (V : Type) where
  zero : V
  lt : V → V → Bool
  le : V → V → Bool
  eq : V → V → Bool
  times : V → Nat → V

/-- The value of a key that is read as a number. `empty` is null or an empty text, and
`malformed` anything else that is no number. -/
inductive RuleValue (α : Type) where
  | missing
  | empty
  | number (x : α)
  | malformed

/-- `int(rule.get(key) or 0)` and `float(rule.get(key) or 0)`. -/
def RuleValue.orZero {α : Type} (zero : α) : RuleValue α → Option α
  | .missing | .empty => some zero
  | .number x => some x
  | .malformed => none

structure Rule (V : Type) where
  /-- `enabled` is not `False`. -/
  enabled : Bool := true
  /-- Empty when it is missing. -/
  operator : String := ""
  threshold : RuleValue V := .missing
  unit : Option String := none
  durationSeconds : RuleValue Int := .missing
  sampleFreshnessSeconds : RuleValue Int := .missing

structure AlertPolicy (V : Type) where
  /-- `metric_key`, stripped. -/
  metricKey : String
  /-- The resource is the control plane. -/
  system : Bool := false
  triggerRule : Rule V
  recoveryRule : Option (Rule V) := none

structure Sample (V : Type) where
  timestamp : Int
  /-- The host of a sample of the control plane. -/
  host : Option Nat := none
  value : String → Option V

def second : Int := 1000000

def ruleSeconds (default : Int) : RuleValue Int → Int
  | .missing => max 0 default
  | .number n => max 0 n
  | .empty | .malformed => default

def defaultEvaluationIntervalSeconds : Int := 60

def defaultSampleFreshnessSeconds : Int := 600

section

variable {V : Type} (F : Floats V)

def sampleFreshnessSeconds (rule : Rule V) : Int :=
  max defaultEvaluationIntervalSeconds
    (ruleSeconds defaultSampleFreshnessSeconds rule.sampleFreshnessSeconds)

def thresholdUnitMultiplier (unit : String) : Nat :=
  match unit with
  | "KiB" => 1024
  | "MiB" => 1024 * 1024
  | "GiB" => 1024 * 1024 * 1024
  | "TiB" => 1024 * 1024 * 1024 * 1024
  | "KB" => 1000
  | "MB" => 1000 * 1000
  | "GB" => 1000 * 1000 * 1000
  | "TB" => 1000 * 1000 * 1000 * 1000
  | _ => 1

def scaledThreshold (threshold : V) (unit : Option String) : V :=
  let key := Text.strip (unit.getD "")
  if key = "" ∨ key = "%" then threshold else F.times threshold (thresholdUnitMultiplier key)

def compare (operator : String) (value threshold : V) : Bool :=
  match Text.strip operator with
  | ">=" => F.le threshold value
  | "<" => F.lt value threshold
  | "<=" => F.le value threshold
  | "==" => F.eq value threshold
  | "!=" => !F.eq value threshold
  | _ => F.lt threshold value

def inverseOperator (operator : String) : String :=
  match operator with
  | ">=" => "<"
  | "<" => ">="
  | "<=" => ">"
  | "==" => "!="
  | "!=" => "=="
  | _ => "<="

/-! ## Conditions -/

/-- What `_condition_state` is asked of samples. -/
structure Condition (V : Type) where
  metricKey : String
  operator : String
  threshold : V
  durationSeconds : Int

variable {F} in
/-- A sample has a value, and it matches. -/
def Condition.holdsFor (F : Floats V) (c : Condition V) (s : Sample V) : Bool :=
  (s.value c.metricKey).any fun value => compare F c.operator value c.threshold

/-- The matching samples at the end, the latest first. -/
def matchingTail (c : Condition V) (samples : List (Sample V)) : List (Sample V) :=
  samples.reverse.takeWhile (c.holdsFor F)

def coveredTime : List (Sample V) → Int
  | [] => 0
  | latest :: tail => latest.timestamp - (tail.getLastD latest).timestamp

def conditionState (c : Condition V) (freshnessSeconds now : Int) (samples : List (Sample V)) :
    Option Bool × Bool :=
  match samples.getLast? with
  | none => (none, false)
  | some latest =>
    if freshnessSeconds * second < now - latest.timestamp then (none, false)
    else if (latest.value c.metricKey).isNone then (none, false)
    else if c.holdsFor F latest = false then (some false, false)
    else if max 0 c.durationSeconds ≤ 0 then (some true, true)
    else if (matchingTail F c samples).length < 2 then (some true, false)
    else (some true, decide (max 0 c.durationSeconds * second ≤
      coveredTime (matchingTail F c samples)))

/-- The arguments for the trigger rule, unless a conversion raises. -/
def AlertPolicy.trigger (policy : AlertPolicy V) : Option (Condition V) := do
  let rule := policy.triggerRule
  let threshold ← rule.threshold.orZero F.zero
  let durationSeconds ← rule.durationSeconds.orZero 0
  some ⟨policy.metricKey, rule.operator, scaledThreshold F threshold rule.unit, durationSeconds⟩

/-- `float(recovery.get("threshold", trigger.get("threshold", 0)))`. -/
def recoveryThreshold (recovery trigger : RuleValue V) : Option V :=
  match recovery, trigger with
  | .number x, _ => some x
  | .missing, .number x => some x
  | .missing, .missing => some F.zero
  | _, _ => none

/-- The arguments for a recovery rule, unless the threshold is no number. -/
def AlertPolicy.recovery (policy : AlertPolicy V) (recovery : Rule V) : Option (Condition V) := do
  let trigger := policy.triggerRule
  let threshold ← recoveryThreshold F recovery.threshold trigger.threshold
  some ⟨policy.metricKey,
    if recovery.operator = "" then inverseOperator trigger.operator else recovery.operator,
    scaledThreshold F threshold (recovery.unit <|> trigger.unit),
    ruleSeconds 0 recovery.durationSeconds⟩

def recoverySatisfied (policy : AlertPolicy V) (now : Int) (samples : List (Sample V)) : Bool :=
  match policy.recoveryRule with
  | none => true
  | some recovery =>
    recovery.enabled && match policy.recovery F recovery with
      | none => false
      | some c =>
        conditionState F c (sampleFreshnessSeconds policy.triggerRule) now samples =
          (some true, true)

/-! ## The window -/

/-- Midnight of the first of January of the year 1. -/
def datetimeMin : Int := -62135596800 * second

/-- `since`, unless it is no date. -/
def AlertPolicy.since (policy : AlertPolicy V) (now : Int) : Option Int :=
  let duration := max (ruleSeconds 0 policy.triggerRule.durationSeconds)
    ((policy.recoveryRule.map fun rule => ruleSeconds 0 rule.durationSeconds).getD 0)
  let since := now - (duration + sampleFreshnessSeconds policy.triggerRule) * second
  if since < datetimeMin then none else some since

/-- The stored samples, in the order of their times. -/
structure History (V : Type) where
  samples : List (Sample V)
  sorted : samples.Pairwise fun s t => s.timestamp ≤ t.timestamp

def History.filter (h : History V) (p : Sample V → Bool) : History V :=
  ⟨h.samples.filter p, h.sorted.filter p⟩

/-- The samples of the resource among the stored ones. The control plane is the host of
the latest of them. -/
def AlertPolicy.ofResource (policy : AlertPolicy V) (stored : History V) : History V :=
  if policy.system then
    match stored.samples.getLast? with
    | none => stored
    | some latest => stored.filter fun s => s.host == latest.host
  else stored

/-- `_resource_samples` and `_system_samples`. -/
def AlertPolicy.samples (policy : AlertPolicy V) (stored : History V) (now : Int) :
    Option (List (Sample V)) := do
  if policy.system && stored.samples.isEmpty then return []
  let since ← policy.since now
  some (((policy.ofResource stored).samples).filter fun s => since ≤ s.timestamp)

inductive Decision where
  | fire
  | resolve
  | nothing
deriving DecidableEq

/-- `_evaluate_metric_policy` for one resource. It is `none` where it raises. -/
def evaluateMetricPolicy (policy : AlertPolicy V) (stored : History V) (now : Int) :
    Option Decision := do
  let trigger ← policy.trigger F
  if policy.metricKey = "" then return .nothing
  let samples ← policy.samples stored now
  match conditionState F trigger (sampleFreshnessSeconds policy.triggerRule) now samples with
  | (_, true) => some .fire
  | (some false, false) =>
    some (if recoverySatisfied F policy now samples then .resolve else .nothing)
  | _ => some .nothing

end

/-! ## Histories -/

section

variable {V : Type} (F : Floats V) (c : Condition V) (freshnessSeconds now since : Int)
  (samples : List (Sample V))

/-- A condition holds: the latest sample is fresh and matches, and the matching samples at
the end span the duration. -/
def Holds : Prop := ∃ latest, samples.getLast? = some latest ∧
  now - latest.timestamp ≤ freshnessSeconds * second ∧ c.holdsFor F latest = true ∧
  (c.durationSeconds ≤ 0 ∨ 2 ≤ (matchingTail F c samples).length ∧
    c.durationSeconds * second ≤ coveredTime (matchingTail F c samples))

/-- A condition fails: the latest sample is fresh and has a value, which does not match. -/
def Fails : Prop := ∃ latest, samples.getLast? = some latest ∧
  now - latest.timestamp ≤ freshnessSeconds * second ∧
  (latest.value c.metricKey).isSome = true ∧ c.holdsFor F latest = false

/-- A matching sample at the end is old enough, but not from before a time. -/
def Survives : Prop := c.durationSeconds ≤ 0 ∨
  ∃ latest oldest, samples.getLast? = some latest ∧ oldest ∈ matchingTail F c samples ∧
    since ≤ oldest.timestamp ∧ oldest.timestamp + c.durationSeconds * second ≤ latest.timestamp

end

variable {V : Type} {F : Floats V} {c : Condition V} {freshnessSeconds now since : Int}
  {samples : List (Sample V)} {latest : Sample V}

theorem isSome_of_holdsFor (h : c.holdsFor F latest = true) :
    (latest.value c.metricKey).isSome = true := by
  rw [Condition.holdsFor] at h
  cases hvalue : latest.value c.metricKey with
  | none =>
    rw [hvalue] at h
    cases h
  | some => rfl

theorem conditionState_sustained : (conditionState F c freshnessSeconds now samples).2 = true ↔
      Holds F c freshnessSeconds now samples := by
  rw [conditionState, Holds]
  cases samples.getLast? with
  | none => simp
  | some latest =>
    simp only [Option.some.injEq, exists_eq_left']
    split
    · next hstale => simp [Int.not_le.mpr hstale]
    · next hfresh =>
      rw [Int.not_lt] at hfresh
      have hsome : c.holdsFor F latest = true → _ := isSome_of_holdsFor
      split
      · next hnone =>
        simp only [Bool.false_eq_true, false_iff]
        intro h
        have hvalue := hsome h.2.1
        rw [Option.isNone_iff_eq_none.mp hnone] at hvalue
        cases hvalue
      · split
        · next hfails => simp [hfails]
        · next hmatch =>
          rw [Bool.not_eq_false] at hmatch
          split
          · next hzero =>
            have hle : c.durationSeconds ≤ 0 := by omega
            simp [hfresh, hmatch, hle]
          · next hlong =>
            have hpos : ¬ c.durationSeconds ≤ 0 := by omega
            have hmax : max 0 c.durationSeconds = c.durationSeconds := by omega
            split
            · next hshort => simp [hpos, Nat.not_le.mpr hshort]
            · next htail => simp [hfresh, hmatch, hpos, hmax, Nat.not_lt.mp htail]

theorem conditionState_eq_iff : conditionState F c freshnessSeconds now samples =
    (some true, true) ↔ (conditionState F c freshnessSeconds now samples).2 = true := by
  rw [conditionState]
  split
  · simp
  · repeat' split
    all_goals simp

theorem conditionState_fails : conditionState F c freshnessSeconds now samples =
      (some false, false) ↔ Fails F c freshnessSeconds now samples := by
  rw [conditionState, Fails]
  cases samples.getLast? with
  | none => simp
  | some latest =>
    simp only [Option.some.injEq, exists_eq_left']
    split
    · next hstale => simp [Int.not_le.mpr hstale]
    · next hfresh =>
      rw [Int.not_lt] at hfresh
      split
      · next hnone => simp [Option.isNone_iff_eq_none.mp hnone]
      · next hvalue =>
        split
        · next hfails =>
          simp only [true_iff]
          exact ⟨hfresh, by simpa [Option.isSome_iff_ne_none] using hvalue, hfails⟩
        · next hmatch =>
          split
          · simp [hmatch]
          · split <;> simp [hmatch]

/-! ## The window on a history -/

def Descending (l : List (Sample V)) : Prop := l.Pairwise fun s t => t.timestamp ≤ s.timestamp

theorem filter_eq_takeWhile {l : List (Sample V)} (h : Descending l) :
    (l.filter fun s => decide (since ≤ s.timestamp)) =
      l.takeWhile fun s => decide (since ≤ s.timestamp) := by
  induction l with
  | nil => rfl
  | cons s l ih =>
    obtain ⟨hs, hl⟩ := List.pairwise_cons.mp h
    by_cases hsince : since ≤ s.timestamp
    · simp [hsince, ih hl]
    · rw [List.filter_cons, List.takeWhile_cons, decide_eq_false hsince,
        if_neg Bool.false_ne_true, if_neg Bool.false_ne_true, List.filter_eq_nil_iff]
      intro t ht
      have := hs t ht
      simp only [decide_eq_true_eq]
      omega

def window (since : Int) (samples : List (Sample V)) : List (Sample V) :=
  samples.filter fun s => decide (since ≤ s.timestamp)

variable (hsorted : samples.Pairwise fun s t => s.timestamp ≤ t.timestamp)
include hsorted

theorem descending_reverse : Descending samples.reverse := List.pairwise_reverse.mpr hsorted

theorem matchingTail_window :
    matchingTail F c (window since samples) = window since (matchingTail F c samples) := by
  have hdesc := descending_reverse hsorted
  rw [matchingTail, window, window, ← List.filter_reverse, filter_eq_takeWhile hdesc,
    matchingTail, filter_eq_takeWhile (hdesc.sublist (List.takeWhile_sublist _)),
    List.takeWhile_takeWhile, List.takeWhile_takeWhile]
  simp only [and_comm]

theorem getLast?_window (hlatest : samples.getLast? = some latest)
    (hsince : since ≤ latest.timestamp) : (window since samples).getLast? = some latest := by
  obtain ⟨init, rfl⟩ := List.getLast?_eq_some_iff.mp hlatest
  simp [window, List.filter_append, hsince]

theorem getLast?_of_window (hlatest : (window since samples).getLast? = some latest) :
    samples.getLast? = some latest := by
  cases hlast : samples.getLast? with
  | none =>
    rw [List.getLast?_eq_none_iff.mp hlast] at hlatest
    cases hlatest
  | some last =>
    obtain ⟨init, rfl⟩ := List.getLast?_eq_some_iff.mp hlast
    have hmem := List.mem_filter.mp (List.mem_of_getLast? hlatest)
    have hle : latest.timestamp ≤ last.timestamp := by
      rcases List.mem_append.mp hmem.1 with hinit | hsame
      · exact (List.pairwise_append.mp hsorted).2.2 _ hinit _ (List.mem_singleton_self _)
      · exact Int.le_of_eq (congrArg _ (List.mem_singleton.mp hsame))
    have hsince : since ≤ latest.timestamp := of_decide_eq_true hmem.2
    rw [← hlatest]
    exact (getLast?_window hsorted hlast (Int.le_trans hsince hle)).symm

omit hsorted in
theorem matchingTail_eq_cons (hlatest : samples.getLast? = some latest)
    (hmatch : c.holdsFor F latest = true) :
    ∃ rest, matchingTail F c samples = latest :: rest := by
  obtain ⟨init, rfl⟩ := List.getLast?_eq_some_iff.mp hlatest
  rw [matchingTail, List.reverse_append, List.reverse_singleton, List.singleton_append,
    List.takeWhile_cons_of_pos hmatch]
  exact ⟨_, rfl⟩

omit hsorted in
theorem getLastD_le {l : List (Sample V)} {s t : Sample V} (h : Descending l) (hs : s ∈ l) :
    (l.getLastD t).timestamp ≤ s.timestamp := by
  induction l generalizing s t with
  | nil => cases hs
  | cons r l ih =>
    obtain ⟨hr, hl⟩ := List.pairwise_cons.mp h
    rw [List.getLastD_cons]
    cases hs with
    | tail _ hs => exact ih hl hs
    | head =>
      cases l with
      | nil => exact Int.le_refl _
      | cons q l => exact Int.le_trans (ih hl List.mem_cons_self) (hr q List.mem_cons_self)

omit hsorted in
/-- Samples in descending order span a time exactly if one of them is older by it. -/
theorem spans_iff {rest : List (Sample V)} {time : Int} (htime : 0 < time)
    (h : Descending (latest :: rest)) :
    2 ≤ (latest :: rest).length ∧ time ≤ coveredTime (latest :: rest) ↔
      ∃ s ∈ latest :: rest, s.timestamp + time ≤ latest.timestamp := by
  have hrest := (List.pairwise_cons.mp h).2
  rw [coveredTime]
  constructor
  · rintro ⟨hlength, hcovered⟩
    cases rest with
    | nil => exact absurd hlength (Nat.not_succ_le_self 1)
    | cons r rest =>
      refine ⟨(r :: rest).getLastD latest, ?_, by omega⟩
      rw [List.getLastD_eq_getLast?, List.getLast?_eq_some_getLast (List.cons_ne_nil r rest)]
      exact List.mem_cons_of_mem _ (List.getLast_mem _)
  · rintro ⟨s, hs, hold⟩
    cases hs with
    | head => omega
    | tail _ hs =>
      have := getLastD_le (t := latest) hrest hs
      refine ⟨?_, by omega⟩
      exact Nat.succ_le_succ (List.length_pos_of_mem hs)

/-- A condition with a duration holds by a single old sample of the tail. -/
theorem holds_iff (hpos : 0 < c.durationSeconds) :
    Holds F c freshnessSeconds now samples ↔ ∃ latest, samples.getLast? = some latest ∧
      now - latest.timestamp ≤ freshnessSeconds * second ∧ c.holdsFor F latest = true ∧
      ∃ s ∈ matchingTail F c samples,
        s.timestamp + c.durationSeconds * second ≤ latest.timestamp := by
  have hdesc : Descending (matchingTail F c samples) :=
    (descending_reverse hsorted).sublist (List.takeWhile_sublist _)
  have htime : 0 < c.durationSeconds * second := by
    rw [second]
    omega
  rw [Holds]
  refine exists_congr fun latest => and_congr_right fun hlast =>
    and_congr_right fun _ => and_congr_right fun hmatch => ?_
  obtain ⟨rest, htail⟩ := matchingTail_eq_cons hlast hmatch
  rw [htail] at hdesc ⊢
  rw [or_iff_right (Int.not_le.mpr hpos)]
  exact spans_iff htime hdesc

/-- The window decides as the whole history does, unless it has lost the old samples. -/
theorem holds_window (hsince : since ≤ now - freshnessSeconds * second) :
    Holds F c freshnessSeconds now (window since samples) ↔
      Holds F c freshnessSeconds now samples ∧ Survives F c since samples := by
  have hsorted' : (window since samples).Pairwise fun s t => s.timestamp ≤ t.timestamp :=
    hsorted.filter _
  have hseen : ∀ {latest : Sample V}, samples.getLast? = some latest →
      now - latest.timestamp ≤ freshnessSeconds * second →
      (window since samples).getLast? = some latest := fun hlast hfresh =>
    getLast?_window hsorted hlast (by omega)
  by_cases hpos : 0 < c.durationSeconds
  · rw [holds_iff hsorted hpos, holds_iff hsorted' hpos, matchingTail_window hsorted]
    constructor
    · rintro ⟨latest, hlatest, hfresh, hmatch, s, hs, hold⟩
      have hlast := getLast?_of_window hsorted hlatest
      have hmem := List.mem_filter.mp hs
      exact ⟨⟨latest, hlast, hfresh, hmatch, s, hmem.1, hold⟩,
        .inr ⟨latest, s, hlast, hmem.1, of_decide_eq_true hmem.2, hold⟩⟩
    · rintro ⟨⟨latest, hlast, hfresh, hmatch, -⟩, hzero | ⟨latest', s, hlast', hs, hnew, hold⟩⟩
      · omega
      · cases hlast.symm.trans hlast'
        exact ⟨latest, hseen hlast hfresh, hfresh, hmatch, s,
          List.mem_filter.mpr ⟨hs, decide_eq_true hnew⟩, hold⟩
  · have hzero : c.durationSeconds ≤ 0 := Int.not_lt.mp hpos
    constructor
    · rintro ⟨latest, hlatest, hfresh, hmatch, -⟩
      exact ⟨⟨latest, getLast?_of_window hsorted hlatest, hfresh, hmatch, .inl hzero⟩, .inl hzero⟩
    · rintro ⟨⟨latest, hlast, hfresh, hmatch, -⟩, -⟩
      exact ⟨latest, hseen hlast hfresh, hfresh, hmatch, .inl hzero⟩

theorem fails_window (hsince : since ≤ now - freshnessSeconds * second) :
    Fails F c freshnessSeconds now (window since samples) ↔
      Fails F c freshnessSeconds now samples := by
  constructor
  · rintro ⟨latest, hlatest, hfresh, hfails⟩
    exact ⟨latest, getLast?_of_window hsorted hlatest, hfresh, hfails⟩
  · rintro ⟨latest, hlast, hfresh, hfails⟩
    exact ⟨latest, getLast?_window hsorted hlast (by omega), hfresh, hfails⟩

omit hsorted

/-! ## Decisions -/

section

variable (F : Floats V) (policy : AlertPolicy V) (history : History V) (now : Int)

/-- The trigger rule fires on a history. -/
def Fires : Prop := policy.metricKey ≠ "" ∧ ∃ c, policy.trigger F = some c ∧
  Holds F c (sampleFreshnessSeconds policy.triggerRule) now history.samples

/-- A policy resolves on a history: the trigger rule fails, and the recovery rule is absent,
or is enabled and holds. -/
def Resolves : Prop := policy.metricKey ≠ "" ∧
  (∃ c, policy.trigger F = some c ∧
    Fails F c (sampleFreshnessSeconds policy.triggerRule) now history.samples) ∧
  ∀ recovery ∈ policy.recoveryRule, recovery.enabled = true ∧
    ∃ c, policy.recovery F recovery = some c ∧
      Holds F c (sampleFreshnessSeconds policy.triggerRule) now history.samples

end

variable {policy : AlertPolicy V} {stored : History V}

theorem since_le (h : policy.since now = some since) :
    since ≤ now - sampleFreshnessSeconds policy.triggerRule * second := by
  simp only [AlertPolicy.since] at h
  split at h
  · cases h
  · cases h
    have hnonneg : 0 ≤ ruleSeconds 0 policy.triggerRule.durationSeconds := by
      cases policy.triggerRule.durationSeconds with
      | number n => exact Int.le_max_left 0 n
      | _ => decide
    rw [second]
    omega

theorem recoverySatisfied_iff {samples : List (Sample V)} : recoverySatisfied F policy now samples =
      true ↔ ∀ recovery ∈ policy.recoveryRule, recovery.enabled = true ∧
      ∃ c, policy.recovery F recovery = some c ∧
      Holds F c (sampleFreshnessSeconds policy.triggerRule) now samples := by
  rw [recoverySatisfied]
  cases policy.recoveryRule with
  | none => simp
  | some recovery =>
    simp only [Bool.and_eq_true, Option.mem_some_iff, forall_eq']
    cases policy.recovery F recovery with
    | none => simp
    | some c => simp [← conditionState_sustained, conditionState_eq_iff]

theorem evaluate_eq_fire : evaluateMetricPolicy F policy stored now = some .fire ↔
    policy.metricKey ≠ "" ∧ ∃ c, policy.trigger F = some c ∧
      ∃ samples, policy.samples stored now = some samples ∧
        Holds F c (sampleFreshnessSeconds policy.triggerRule) now samples := by
  simp only [evaluateMetricPolicy, ← conditionState_sustained]
  cases policy.trigger F with
  | none => simp
  | some c =>
    simp only [Option.bind_eq_bind, Option.bind_some, Option.some.injEq, exists_eq_left']
    split
    · next hkey => simp [hkey]
    · next hkey =>
      cases policy.samples stored now with
      | none => simp
      | some samples =>
        simp only [Option.bind_some, Option.some.injEq, exists_eq_left']
        split
        · next hstate => simp [hkey, hstate]
        · next hstate =>
          simp only [hstate]
          split <;> simp
        · next hsustained _ =>
          refine iff_of_false (fun h => by cases h) fun h => ?_
          exact hsustained _ (Prod.ext rfl h.2)

theorem evaluate_eq_resolve : evaluateMetricPolicy F policy stored now = some .resolve ↔
    policy.metricKey ≠ "" ∧ ∃ c, policy.trigger F = some c ∧
      ∃ samples, policy.samples stored now = some samples ∧
        (Fails F c (sampleFreshnessSeconds policy.triggerRule) now samples ∧
          recoverySatisfied F policy now samples = true) := by
  simp only [evaluateMetricPolicy, ← conditionState_fails]
  cases policy.trigger F with
  | none => simp
  | some c =>
    simp only [Option.bind_eq_bind, Option.bind_some, Option.some.injEq, exists_eq_left']
    split
    · next hkey => simp [hkey]
    · next hkey =>
      cases policy.samples stored now with
      | none => simp
      | some samples =>
        simp only [Option.bind_some, Option.some.injEq, exists_eq_left']
        split
        · next hstate => simp [hstate]
        · next hstate =>
          simp only [hstate]
          split <;> simp_all
        · next hfails => exact iff_of_false (fun h => by cases h) fun h => hfails h.2.1

theorem exists_samples {P : List (Sample V) → Prop} (hnil : ¬ P []) :
    (∃ samples, policy.samples stored now = some samples ∧ P samples) ↔ ∃ since, policy.since now =
      some since ∧ P (window since (policy.ofResource stored).samples) := by
  rw [AlertPolicy.samples]
  split
  · next hempty =>
    rw [Bool.and_eq_true, List.isEmpty_iff] at hempty
    simp [AlertPolicy.ofResource, hempty.1, hempty.2, window, hnil]
  · cases policy.since now with
    | none => simp
    | some since => simp [window]

theorem not_holds_nil {fresh : Int} : ¬ Holds F c fresh now [] := by
  rintro ⟨latest, hlatest, -⟩
  cases hlatest

theorem not_fails_nil {fresh : Int} : ¬ Fails F c fresh now [] := by
  rintro ⟨latest, hlatest, -⟩
  cases hlatest

variable (F policy stored now) in
/-- A policy fires, and it resolves, where the whole history says so and the window has kept
an old sample of the tail that the rule needs. -/
theorem evaluate_window :
    (evaluateMetricPolicy F policy stored now = some .fire ↔
      Fires F policy (policy.ofResource stored) now ∧
        ∃ since, policy.since now = some since ∧ ∀ c ∈ policy.trigger F,
          Survives F c since (policy.ofResource stored).samples) ∧
    (evaluateMetricPolicy F policy stored now = some .resolve ↔
      Resolves F policy (policy.ofResource stored) now ∧
        ∃ since, policy.since now = some since ∧
          ∀ recovery ∈ policy.recoveryRule, ∀ c ∈ policy.recovery F recovery,
            Survives F c since (policy.ofResource stored).samples) := by
  have hsorted := (policy.ofResource stored).sorted
  constructor
  · rw [evaluate_eq_fire, Fires]
    constructor
    · rintro ⟨hkey, c, hc, hsamples⟩
      obtain ⟨since, hsince, hholds⟩ := (exists_samples not_holds_nil).mp hsamples
      obtain ⟨hwhole, hsurvives⟩ := (holds_window hsorted (since_le hsince)).mp hholds
      refine ⟨⟨hkey, c, hc, hwhole⟩, since, hsince, fun c' hc' => ?_⟩
      cases hc.symm.trans hc'
      exact hsurvives
    · rintro ⟨⟨hkey, c, hc, hwhole⟩, since, hsince, hsurvives⟩
      exact ⟨hkey, c, hc, (exists_samples not_holds_nil).mpr ⟨since, hsince,
        (holds_window hsorted (since_le hsince)).mpr ⟨hwhole, hsurvives c hc⟩⟩⟩
  · rw [evaluate_eq_resolve, Resolves]
    constructor
    · rintro ⟨hkey, c, hc, hsamples⟩
      obtain ⟨since, hsince, hfails, hrecovery⟩ :=
        (exists_samples fun h => not_fails_nil h.1).mp hsamples
      rw [recoverySatisfied_iff] at hrecovery
      refine ⟨⟨hkey, ⟨c, hc, (fails_window hsorted (since_le hsince)).mp hfails⟩,
        fun recovery hr => ?_⟩, since, hsince, fun recovery hr c' hc' => ?_⟩
      · obtain ⟨henabled, c', hc', hholds⟩ := hrecovery recovery hr
        exact ⟨henabled, c', hc', ((holds_window hsorted (since_le hsince)).mp hholds).1⟩
      · obtain ⟨-, c'', hc'', hholds⟩ := hrecovery recovery hr
        cases hc'.symm.trans hc''
        exact ((holds_window hsorted (since_le hsince)).mp hholds).2
    · rintro ⟨⟨hkey, ⟨c, hc, hfails⟩, hrecovery⟩, since, hsince, hsurvives⟩
      refine ⟨hkey, c, hc, (exists_samples fun h => not_fails_nil h.1).mpr ⟨since, hsince,
        (fails_window hsorted (since_le hsince)).mpr hfails, ?_⟩⟩
      rw [recoverySatisfied_iff]
      intro recovery hr
      obtain ⟨henabled, c', hc', hholds⟩ := hrecovery recovery hr
      exact ⟨henabled, c', hc', (holds_window hsorted (since_le hsince)).mpr
        ⟨hholds, hsurvives recovery hr c' hc'⟩⟩

/-! ## Samples far apart -/

/-- Whole numbers, which the floats of the example are. -/
def wholeFloats : Floats Int :=
  { zero := 0
    lt := fun x y => x < y
    le := fun x y => x ≤ y
    eq := fun x y => x == y
    times := fun x n => x * n }

def cpuPolicy : AlertPolicy Int :=
  { metricKey := "cpu"
    triggerRule := { operator := ">", threshold := .number 80, durationSeconds := .number 60 } }

def cpuSample (seconds value : Int) : Sample Int :=
  { timestamp := seconds * second, value := fun key => if key = "cpu" then some value else none }

/-- Two samples, which are 1000 seconds apart. -/
def sparse : History Int :=
  { samples := [cpuSample 0 90, cpuSample 1000 95]
    sorted := by decide }

/-- The whole history fires, but the window has only the latest sample. -/
theorem not_evaluate_sparse :
    Fires wholeFloats cpuPolicy sparse (1000 * second) ∧
      evaluateMetricPolicy wholeFloats cpuPolicy sparse (1000 * second) = some .nothing :=
  ⟨⟨by decide, _, rfl, _, rfl, by decide, by decide +kernel, .inr (by decide +kernel)⟩,
    by decide +kernel⟩

end HyperFileLens.Alert.SampleWindow
