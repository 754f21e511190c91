import Mathlib.Data.Int.Notation

/-!
# The Gregorian calendar

Civil dates of day numbers, with day 0 the first of January 1970, and the ISO week of
a day. Years count from March inside the computation, so that the leap day is the
last one of its year.
-/

namespace Calendar

structure Date where
  year : Int
  month : Nat
  day : Nat
deriving DecidableEq, Repr

def ofDays (days : Int) : Date :=
  let shifted := days + 719468
  let era := shifted / 146097
  let dayOfEra := (shifted % 146097).toNat
  let yearOfEra :=
    (dayOfEra - dayOfEra / 1460 + dayOfEra / 36524 - dayOfEra / 146096) / 365
  let dayOfYear := dayOfEra - (365 * yearOfEra + yearOfEra / 4 - yearOfEra / 100)
  let marchMonth := (5 * dayOfYear + 2) / 153
  let month := if marchMonth < 10 then marchMonth + 3 else marchMonth - 9
  { year := yearOfEra + era * 400 + (if month ≤ 2 then 1 else 0)
    month := month
    day := dayOfYear - (153 * marchMonth + 2) / 5 + 1 }

/-- The day number of the first of January. -/
def newYear (year : Int) : Int :=
  let before := year - 1
  365 * before + before / 4 - before / 100 + before / 400 - 719162

def monthLength (year : Int) (month : Nat) : Nat :=
  if month = 2 then
    if year % 4 = 0 ∧ (year % 100 ≠ 0 ∨ year % 400 = 0) then 29 else 28
  else if month = 4 ∨ month = 6 ∨ month = 9 ∨ month = 11 then 30
  else 31

def weekday (days : Int) : Int := (days + 3) % 7

/-- The year and the number of the ISO week of a day: those of its Thursday. -/
def isoWeek (days : Int) : Int × Nat :=
  let thursday := days - weekday days + 3
  let year := (ofDays thursday).year
  (year, ((thursday - newYear year) / 7).toNat + 1)

def padded (width : Nat) (n : Int) : String :=
  let digits := (toString n).toList
  String.ofList (List.replicate (width - digits.length) '0' ++ digits)

example : ofDays 20704 = ⟨2026, 9, 8⟩ ∧ isoWeek 20704 = (2026, 37) := by decide

/-! ## Days and dates -/

def eraYearStart (year : Nat) : Nat := 365 * year + year / 4 - year / 100

def eraYear (day : Nat) : Nat := (day - day / 1460 + day / 36524 - day / 146096) / 365

theorem eraYear_mono {a b : Nat} (h : a ≤ b) (hb : b < 146097) : eraYear a ≤ eraYear b := by
  have hmono : a - a / 1460 + a / 36524 - a / 146096 ≤ b - b / 1460 + b / 36524 - b / 146096 := by
    omega
  exact Nat.div_le_div_right hmono

theorem eraYear_start : ∀ year < 400,
    eraYear (eraYearStart year) = year ∧ eraYear (eraYearStart (year + 1) - 1) = year := by
  decide +kernel

theorem eraYear_spec (day : Nat) (hday : day < 146097) : eraYear day < 400 ∧
      eraYearStart (eraYear day) ≤ day ∧ day < eraYearStart (eraYear day) + 366 := by
  have hlast : eraYear day ≤ 399 := eraYear_mono (b := 146096) (by omega) (by decide)
  have hyears := eraYear_start (eraYear day) (by omega)
  have hstart : eraYearStart (eraYear day) ≤ day := by
    refine Nat.le_of_not_lt fun hlt => ?_
    have hpos : 0 < eraYear day := Nat.pos_of_ne_zero fun h0 => by
      rw [h0] at hlt
      exact absurd hlt (Nat.not_lt_zero _)
    have hbefore := (eraYear_start (eraYear day - 1) (by omega)).2
    rw [Nat.sub_add_cancel hpos] at hbefore
    have hmono := eraYear_mono (a := day) (b := eraYearStart (eraYear day) - 1) (by omega)
      (by rw [eraYearStart]; omega)
    omega
  refine ⟨by omega, hstart, ?_⟩
  have hlength : eraYearStart (eraYear day + 1) ≤ eraYearStart (eraYear day) + 366 := by
    simp only [eraYearStart]
    omega
  refine Nat.lt_of_not_le fun hge => ?_
  by_cases hlt : eraYear day < 399
  · have hnext := (eraYear_start (eraYear day + 1) (by omega)).1
    have hmono := eraYear_mono (a := eraYearStart (eraYear day + 1)) (b := day) (by omega) hday
    omega
  · have h399 : eraYear day = 399 := by omega
    rw [h399] at hge
    have hlastStart : eraYearStart 399 = 145731 := by decide
    omega

def marchDate (year : Int) (dayOfYear : Nat) : Date :=
  let marchMonth := (5 * dayOfYear + 2) / 153
  let month := if marchMonth < 10 then marchMonth + 3 else marchMonth - 9
  { year := year + (if month ≤ 2 then 1 else 0)
    month := month
    day := dayOfYear - (153 * marchMonth + 2) / 5 + 1 }

theorem ofDays_eq (days : Int) : ofDays days =
      let day := ((days + 719468) % 146097).toNat
      marchDate (eraYear day + (days + 719468) / 146097 * 400) (day - eraYearStart (eraYear day)) :=
  rfl

/-- The date of a day of a year determines the year and the day. -/
theorem marchDate_inj {y z : Int} {a b : Nat} (ha : a < 366) (hb : b < 366)
    (h : marchDate y a = marchDate z b) : y = z ∧ a = b := by
  simp only [marchDate, Date.mk.injEq] at h
  obtain ⟨hyear, hmonth, hday⟩ := h
  have hsame : (5 * a + 2) / 153 = (5 * b + 2) / 153 := by
    split at hmonth <;> split at hmonth <;> omega
  rw [hsame] at hyear hday
  constructor
  · omega
  · omega

theorem marchDate_lt (y : Int) {a : Nat} (ha : a < 366) :
    (marchDate y a).month < 100 ∧ (marchDate y a).day < 100 := by
  simp only [marchDate]
  constructor
  · split <;> omega
  · omega

theorem ofDays_lt (days : Int) : (ofDays days).month < 100 ∧ (ofDays days).day < 100 := by
  have hspec := eraYear_spec ((days + 719468) % 146097).toNat (by omega)
  rw [ofDays_eq]
  exact marchDate_lt _ (by omega)

theorem ofDays_injective {a b : Int} (h : ofDays a = ofDays b) : a = b := by
  rw [ofDays_eq, ofDays_eq] at h
  have ha := eraYear_spec ((a + 719468) % 146097).toNat (by omega)
  have hb := eraYear_spec ((b + 719468) % 146097).toNat (by omega)
  obtain ⟨hyear, hday⟩ := marchDate_inj (by omega) (by omega) h
  have hsame : eraYear ((a + 719468) % 146097).toNat = eraYear ((b + 719468) % 146097).toNat := by
    omega
  rw [hsame] at ha hyear hday
  omega

/-! ## Numbers with leading zeros -/

theorem toList_padded (width : Nat) (n : Int) :
    ∃ zeros, (padded width n).toList = List.replicate zeros '0' ++ (Int.repr n).toList :=
  ⟨_, by rw [padded, String.toList_ofList]; rfl⟩

theorem padded_injective {width : Nat} {m n : Int} (h : padded width m = padded width n) :
    m = n := by
  obtain ⟨i, hm⟩ := toList_padded width m
  obtain ⟨j, hn⟩ := toList_padded width n
  have hlists := (hm.symm.trans (congrArg String.toList h)).trans hn
  -- the digits of a natural number read back, whatever the zeros in front
  have hread : ∀ k c : Nat,
      Nat.ofDigitChars 10 (List.replicate k '0' ++ Nat.toDigits 10 c) 0 = c := by
    intro k c
    rw [Nat.ofDigitChars_append, Nat.ofDigitChars_replicate_zero, Nat.mul_zero,
      Nat.ofDigitChars_ten_toDigits]
  have hdash : ∀ k c : Nat, '-' ∉ List.replicate k '0' ++ Nat.toDigits 10 c := by
    intro k c hmem
    cases List.mem_append.mp hmem with
    | inl hzero => exact absurd (List.eq_of_mem_replicate hzero) (by decide)
    | inr hdigit =>
      have hisDigit := Nat.isDigit_of_mem_toDigits (by decide) (by decide) hdigit
      exact absurd hisDigit (by decide)
  rw [Int.repr_eq_if, Int.repr_eq_if] at hlists
  split at hlists <;> split at hlists
  · rw [Nat.toList_repr, Nat.toList_repr] at hlists
    have hnat := congrArg (fun l => Nat.ofDigitChars 10 l 0) hlists
    simp only [hread] at hnat
    omega
  · refine absurd ?_ (hdash i m.toNat)
    rw [← Nat.toList_repr, hlists]
    simp
  · refine absurd ?_ (hdash j n.toNat)
    rw [← Nat.toList_repr, ← hlists]
    simp
  · have hdrop : ∀ k c : Nat, (List.replicate k '0' ++ ("-" ++ Nat.repr c).toList).dropWhile (· == '0') =
        '-' :: Nat.toDigits 10 c := by
      intro k c
      rw [List.dropWhile_append_of_pos fun x hx => by simp [List.eq_of_mem_replicate hx],
        String.toList_append, Nat.toList_repr]
      rfl
    have htails := congrArg (List.dropWhile (· == '0')) hlists
    rw [hdrop, hdrop] at htails
    have hnat := congrArg (fun l => Nat.ofDigitChars 10 l 0) (List.cons.inj htails).2
    simp only [Nat.ofDigitChars_ten_toDigits] at hnat
    omega

theorem length_padded_two {n : Int} (h0 : 0 ≤ n) (h : n < 100) :
    (padded 2 n).toList.length = 2 := by
  have hlen : (Int.repr n).toList.length ≤ 2 := by
    rw [Int.repr_eq_if, if_pos h0, Nat.toList_repr]
    exact (Nat.length_toDigits_le_iff (by decide) (by decide)).mpr (by omega)
  have hlist : (padded 2 n).toList =
      List.replicate (2 - (Int.repr n).toList.length) '0' ++ (Int.repr n).toList := by
    rw [padded, String.toList_ofList]
    rfl
  rw [hlist, List.length_append, List.length_replicate]
  omega

end Calendar
