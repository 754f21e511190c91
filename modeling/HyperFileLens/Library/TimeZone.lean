import Mathlib.Algebra.Order.Group.Int

/-!
# Time zones

What clocks in a time zone show, in microseconds. A clock jumps over local times where the offset
grows, and shows local times again where it shrinks. The instant of a local time is the earlier one
where there are two; for a local time that is jumped over it is some instant, at which clocks show
another time.
-/

namespace TimeZone

def micros (seconds : Int) : Int := seconds * 1000000

def minute : Int := micros 60

def day : Int := micros 86400

/-- A time zone, with the offset at an instant and the instant of a local time. -/
structure Zone where
  key : String
  offset : Int → Int
  instant : Int → Int
  shown : ∀ t, instant (t + offset t) + offset (instant (t + offset t)) = t + offset t
  /-- Local times are shown for the first time in their order: what was jumped over is not shown
  later. -/
  ordered : ∀ s t, s + offset s ≤ t + offset t → instant (s + offset s) ≤ t

namespace Zone

variable (zone : Zone) {s t n m : Int}

def wall (t : Int) : Int := t + zone.offset t

def Shows (n : Int) : Prop := zone.wall (zone.instant n) = n

instance (n : Int) : Decidable (zone.Shows n) := inferInstanceAs (Decidable (_ = _))

variable {zone}

theorem shows_wall (t : Int) : zone.Shows (zone.wall t) := zone.shown t

theorem shows_iff : zone.Shows n ↔ ∃ t, zone.wall t = n := by
  constructor
  · intro h
    exact ⟨_, h⟩
  · rintro ⟨t, rfl⟩
    exact shows_wall t

/-- The instant of a local time is no later than a time at which that or more is shown. -/
theorem instant_le (h : zone.Shows n) (hle : n ≤ zone.wall t) : zone.instant n ≤ t := by
  obtain ⟨s, rfl⟩ := shows_iff.mp h
  exact zone.ordered s t hle

/-- A clock that shows no time twice and jumps over none. -/
def fixed (key : String) (offset : Int) : Zone where
  key := key
  offset := fun _ => offset
  instant := fun n => n - offset
  shown := fun t => by omega
  ordered := fun s t h => by omega

def inSummer (summers : List (Int × Int)) (t : Int) : Bool :=
  summers.any fun summer => decide (summer.1 ≤ t) && decide (t < summer.2)

theorem inSummer_iff {summers : List (Int × Int)} :
    inSummer summers t = true ↔ ∃ summer ∈ summers, summer.1 ≤ t ∧ t < summer.2 := by
  simp [inSummer]

/-- Clocks that are put forward in the summers, which are longer than that. -/
def withSummers (key : String) (offset saved : Int) (summers : List (Int × Int))
    (hsaved : 0 ≤ saved) (hlong : ∀ summer ∈ summers, summer.1 + saved ≤ summer.2) : Zone where
  key := key
  offset := fun t => if inSummer summers t then offset + saved else offset
  instant := fun n =>
    if inSummer summers (n - offset - saved) then n - offset - saved else n - offset
  shown := fun t => by
    cases ht : inSummer summers t with
    | true =>
      have hback : t + (offset + saved) - offset - saved = t := by omega
      simp [hback, ht]
    | false =>
      have hback : t + offset - offset = t := by omega
      simp only [Bool.false_eq_true, if_false, hback]
      cases hagain : inSummer summers (t - saved) with
      | true =>
        simp only [if_true, hagain]
        omega
      | false => simp [ht]
  ordered := fun s t hle => by
    have hnever : inSummer summers s = false → inSummer summers (s - saved) = false →
        inSummer summers t = true → s ≤ t + saved → s ≤ t := by
      intro hs hagain ht hsaved'
      obtain ⟨summer, hsummer, hlo, hhi⟩ := inSummer_iff.mp ht
      have hlength := hlong summer hsummer
      by_contra hlt
      have hbefore : ¬ (summer.1 ≤ s ∧ s < summer.2) := fun h => by
        rw [inSummer_iff.mpr ⟨summer, hsummer, h⟩] at hs
        cases hs
      have hafter : ¬ (summer.1 ≤ s - saved ∧ s - saved < summer.2) := fun h => by
        rw [inSummer_iff.mpr ⟨summer, hsummer, h⟩] at hagain
        cases hagain
      omega
    cases hs : inSummer summers s with
    | true =>
      have hback : s + (offset + saved) - offset - saved = s := by omega
      simp only [hs, if_true] at hle
      simp only [if_true, hback, hs]
      split at hle <;> omega
    | false =>
      have hback : s + offset - offset = s := by omega
      simp only [hs, Bool.false_eq_true, if_false] at hle
      simp only [Bool.false_eq_true, if_false, hback]
      cases hagain : inSummer summers (s - saved) with
      | true =>
        simp only [if_true]
        split at hle <;> omega
      | false =>
        simp only [Bool.false_eq_true, if_false]
        split at hle
        · rename_i ht
          exact hnever hs hagain ht (by omega)
        · omega

end Zone

end TimeZone
