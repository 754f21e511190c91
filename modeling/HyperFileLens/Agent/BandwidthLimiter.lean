import HyperFileLens.Library.Transition
import Mathlib

/-!
# The bandwidth limiter

The token bucket that managed backup uploads share, `grant` of `bandwidth.go`, under
calls of any number of waiters.

*Clock.*  A caller samples the clock before it takes the lock, so a call may carry an
earlier time than the call before it. The limiter then records the earlier time, and the
next call refills the same span once more.

*Numbers.*  Times are seconds and tokens are bytes. Both are rational numbers where the
code has floating point.
-/

namespace HyperFileLens.Agent

open Transition

/-! ## The bucket -/

def quotaChunk : ℚ := 64 * 1024

/-- `bandwidthLimiter`. A waiter is known by its task. -/
structure BandwidthLimiter where
  tokens : ℚ
  last : ℚ
  /-- The last call of each waiter. -/
  waiting : String → Option ℚ
  order : List String

/-- A call of `grant`. -/
structure GrantCall where
  bytes : ℕ
  task : String
  now : ℚ

def burst (rate : ℚ) : ℚ := max quotaChunk (rate / 10)

/-- Drop the waiters at the head that have not called for two seconds. -/
def dropStale (now : ℚ) (waiting : String → Option ℚ) :
    List String → (String → Option ℚ) × List String
  | [] => (waiting, [])
  | task :: order =>
    if 2 < now - (waiting task).getD 0 then
      dropStale now (Function.update waiting task none) order
    else (waiting, task :: order)

/-- `grant`. A full queue answers -1. -/
def BandwidthLimiter.grant (rate : ℚ) (b : BandwidthLimiter) (call : GrantCall) :
    BandwidthLimiter × ℤ :=
  if rate ≤ 0 then (b, call.bytes)
  else
    let tokens := min (burst rate) (b.tokens + max 0 (call.now - b.last) * rate)
    let (waiting, order) := dropStale call.now b.waiting b.order
    let fresh := (waiting call.task).isNone
    if fresh && 1024 ≤ order.length then
      ({ tokens := tokens, last := call.now, waiting := waiting, order := order }, -1)
    else
      let order := if fresh then order ++ [call.task] else order
      let waiting := Function.update waiting call.task (some call.now)
      if order.head? = some call.task ∧ call.bytes ≤ tokens then
        ({ tokens := tokens - call.bytes, last := call.now
           waiting := Function.update waiting call.task none, order := order.tail }, call.bytes)
      else ({ tokens := tokens, last := call.now, waiting := waiting, order := order }, 0)

/-! ## Runs -/

/-- A limiter with the history of what it granted, by the times of the calls. -/
structure Metered where
  limiter : BandwidthLimiter
  granted : List (ℚ × ℕ)

/-- `startBandwidthLimiter`. -/
def Metered.start (t₀ : ℚ) : Metered where
  limiter := { tokens := 0, last := t₀, waiting := fun _ => none, order := [] }
  granted := []

def meteredSystem (rate t₀ : ℚ) : System Metered GrantCall where
  init := fun s => s = .start t₀
  step := fun s call =>
    let answer := s.limiter.grant rate call
    some ⟨answer.1, (call.now, answer.2.toNat) :: s.granted⟩

/-- The bytes granted to calls up to a time. -/
def grantedUpTo (granted : List (ℚ × ℕ)) (t : ℚ) : ℚ :=
  (granted.map fun g => if g.1 ≤ t then (g.2 : ℚ) else 0).sum

/-- No more was granted up to a time than the budget allows. -/
def InBudget (rate t₀ : ℚ) (s : Metered) : Prop :=
  ∀ t, t₀ ≤ t → grantedUpTo s.granted t ≤ burst rate + rate * (t - t₀)

/-! ## One call -/

/-- What a call does to the tokens: it refills them, and takes what it grants. -/
theorem BandwidthLimiter.grant_tokens {rate : ℚ} (hrate : 0 < rate) (b : BandwidthLimiter)
    (call : GrantCall) : (b.grant rate call).1.last = call.now ∧
      ((b.grant rate call).2.toNat : ℚ) + (b.grant rate call).1.tokens =
      min (burst rate) (b.tokens + max 0 (call.now - b.last) * rate) ∧
      (0 ≤ b.tokens → 0 ≤ (b.grant rate call).1.tokens) := by
  have hrefill : 0 ≤ b.tokens →
      0 ≤ min (burst rate) (b.tokens + max 0 (call.now - b.last) * rate) := by
    intro htokens
    have hburst : 0 ≤ burst rate := le_max_of_le_left (by norm_num [quotaChunk])
    exact le_min hburst (by positivity)
  rw [BandwidthLimiter.grant, if_neg (not_le.mpr hrate)]
  dsimp only
  split
  · exact ⟨rfl, by simp, hrefill⟩
  · generalize (if ((dropStale call.now b.waiting b.order).1 call.task).isNone = true then
      (dropStale call.now b.waiting b.order).2 ++ [call.task]
      else (dropStale call.now b.waiting b.order).2) = order
    split
    case isTrue hgrant => exact ⟨rfl, by simp, fun _ => sub_nonneg.mpr hgrant.2⟩
    case isFalse => exact ⟨rfl, by simp, hrefill⟩

/-! ## The budget along a run -/

/-- What was granted so far, together with the tokens, is no more than was refilled. -/
structure Accounted (rate t₀ : ℚ) (s : Metered) : Prop where
  started : t₀ ≤ s.limiter.last
  tokens : 0 ≤ s.limiter.tokens
  past : ∀ g ∈ s.granted, g.1 ≤ s.limiter.last
  total : grantedUpTo s.granted s.limiter.last + s.limiter.tokens ≤ rate * (s.limiter.last - t₀)
  upTo : ∀ t, t₀ ≤ t → grantedUpTo s.granted t ≤ rate * (t - t₀)

theorem grantedUpTo_eq_of_past {granted : List (ℚ × ℕ)} {s t : ℚ}
    (h : ∀ g ∈ granted, g.1 ≤ s) (hst : s ≤ t) : grantedUpTo granted t = grantedUpTo granted s := by
  rw [grantedUpTo, grantedUpTo]
  congr 1
  refine List.map_congr_left fun g hg => ?_
  rw [if_pos ((h g hg).trans hst), if_pos (h g hg)]

theorem grantedUpTo_cons (g : ℚ × ℕ) (granted : List (ℚ × ℕ)) (t : ℚ) :
    grantedUpTo (g :: granted) t = (if g.1 ≤ t then (g.2 : ℚ) else 0) + grantedUpTo granted t := by
  rw [grantedUpTo, List.map_cons, List.sum_cons]
  rfl

theorem Accounted.call {rate t₀ : ℚ} (hrate : 0 < rate) {s : Metered} (h : Accounted rate t₀ s)
    {call : GrantCall} (hnow : s.limiter.last ≤ call.now) :
    Accounted rate t₀ ⟨(s.limiter.grant rate call).1,
      (call.now, (s.limiter.grant rate call).2.toNat) :: s.granted⟩ := by
  obtain ⟨hlast, hsum, htokens⟩ := s.limiter.grant_tokens hrate call
  have hpast : ∀ g ∈ s.granted, g.1 ≤ call.now := fun g hg => (h.past g hg).trans hnow
  -- the refill covers the time since the last call
  have htotal : grantedUpTo ((call.now, (s.limiter.grant rate call).2.toNat) :: s.granted) call.now +
      (s.limiter.grant rate call).1.tokens ≤ rate * (call.now - t₀) := by
    have hrefill : max 0 (call.now - s.limiter.last) = call.now - s.limiter.last :=
      max_eq_right (sub_nonneg.mpr hnow)
    have hmin : min (burst rate) (s.limiter.tokens + max 0 (call.now - s.limiter.last) * rate) ≤
        s.limiter.tokens + (call.now - s.limiter.last) * rate := by
      rw [hrefill]
      exact min_le_right _ _
    rw [grantedUpTo_cons, if_pos le_rfl, grantedUpTo_eq_of_past h.past hnow]
    have hbefore := h.total
    linarith
  refine ⟨?_, htokens h.tokens, ?_, ?_, ?_⟩
  · rw [hlast]
    exact h.started.trans hnow
  · intro g hg
    rw [hlast]
    cases hg with
    | head => exact le_rfl
    | tail _ hg => exact hpast g hg
  · rw [hlast]
    exact htotal
  · intro t ht
    by_cases hlt : t < call.now
    · rw [grantedUpTo_cons, if_neg (not_le.mpr hlt), zero_add]
      exact h.upTo t ht
    · have hle : call.now ≤ t := not_lt.mp hlt
      have hall : ∀ g ∈ (call.now, (s.limiter.grant rate call).2.toNat) :: s.granted,
          g.1 ≤ call.now := by
        intro g hg
        cases hg with
        | head => exact le_rfl
        | tail _ hg => exact hpast g hg
      rw [grantedUpTo_eq_of_past hall hle]
      have hmore : rate * (call.now - t₀) ≤ rate * (t - t₀) := by gcongr
      have hleft := htokens h.tokens
      linarith

def InOrder (s : Metered) (call : GrantCall) : Prop := s.limiter.last ≤ call.now

instance (s : Metered) (call : GrantCall) : Decidable (InOrder s call) :=
  inferInstanceAs (Decidable (_ ≤ _))

theorem accounted_of_reachable {rate t₀ : ℚ} (hrate : 0 < rate) {s : Metered}
    (h : (meteredSystem rate t₀).ReachableUnder InOrder s) : Accounted rate t₀ s := by
  refine h.invariant ?_ ?_
  · rintro s rfl
    have hnone : ∀ t, grantedUpTo (Metered.start t₀).granted t = 0 := fun t => rfl
    refine ⟨le_rfl, le_rfl, List.forall_mem_nil _, ?_, fun t ht => ?_⟩
    · rw [hnone]
      simp [Metered.start]
    · rw [hnone]
      exact mul_nonneg hrate.le (sub_nonneg.mpr ht)
  · intro s call s' hinv hnow hstep
    cases hstep
    exact hinv.call hrate hnow

/-- Calls that reach the limiter in the order of their times are granted no more than the
budget, up to any time. -/
theorem grant_in_budget {rate t₀ : ℚ} (hrate : 0 < rate) {s : Metered}
    (h : (meteredSystem rate t₀).ReachableUnder InOrder s) : InBudget rate t₀ s := by
  intro t ht
  have hburst : 0 ≤ burst rate := le_max_of_le_left (by norm_num [quotaChunk])
  have hgranted := (accounted_of_reachable hrate h).upTo t ht
  linarith

def chunkAt (now : ℚ) : GrantCall := ⟨65536, "backup", now⟩

def orderedCalls : List GrantCall := [chunkAt (1 / 10), chunkAt (2 / 10)]

theorem ordered_in_budget : ∃ s, (meteredSystem 1000000 0).exec (.start 0) orderedCalls = some s ∧
    InBudget 1000000 0 s :=
  ⟨_, rfl, grant_in_budget (by norm_num) (@System.ReachableUnder.of_exec _ _ _ _ orderedCalls _ _
    (System.ReachableUnder.start rfl) ⟨by decide +kernel, by decide +kernel, trivial⟩ rfl)⟩

def delayedCalls : List GrantCall :=
  [chunkAt (1 / 10), chunkAt 0, chunkAt (1 / 10), chunkAt 0, chunkAt (1 / 10), chunkAt 0,
    chunkAt (1 / 10)]

/-- Delayed requests get the same tenth of a second four times. -/
theorem grant_over_budget : ¬ ∀ (rate t₀ : ℚ), 0 < rate → ∀ s,
    (meteredSystem rate t₀).Reachable s → InBudget rate t₀ s := by
  intro h
  have hreach : (meteredSystem 1000000 0).Reachable _ :=
    @System.Reachable.of_exec _ _ _ delayedCalls _ _ rfl rfl
  have hbudget := h 1000000 0 (by norm_num) _ hreach (1 / 10) (by norm_num)
  exact absurd hbudget (by decide +kernel)

end HyperFileLens.Agent
