import Mathlib.Tactic.Linarith
import HyperFileLens.Library.Json
import HyperFileLens.Library.Transition

/-!
# Floats of Python

A float is a rational number, an infinity or no number. Which rational numbers are floats is a
matter of the format: `FloatFormat.round` gives the float next to a number, and is no number's
beyond the largest float. Comparisons are exact, and the result of an operation is rounded once.

*Reading.*  `progressNumber` is `float(value)`, with `None` for what is no number. A whole number
beyond the largest float is an error there, and so is an infinity where an integer is wanted.

*Percentages.*  A quotient of a hundredfold keeps the order of the numerators, and a clamp keeps it
between 0 and 100.
-/

inductive PyFloat where
  | finite (x : Rat)
  | infinite (negative : Bool)
  | nan
  deriving DecidableEq, Repr

structure FloatFormat where
  /-- The float next to a number. -/
  round : Rat → Option Rat
  mono : ∀ a b x y, a ≤ b → round a = some x → round b = some y → x ≤ y
  whole : ∀ n : Int, n.natAbs ≤ 9007199254740992 → round n = some n
  idem : ∀ a x, round a = some x → round x = some x
  inside : ∀ a b, 0 ≤ a → a ≤ b → (round b).isSome = true → (round a).isSome = true
  parse : String → Option PyFloat
  parsed : ∀ s x, parse s = some (.finite x) → round x = some x
  parse_nan : parse "nan" = some .nan
  parse_infinite : parse "inf" = some (.infinite false) ∧ parse "-inf" = some (.infinite true)
  round2 : Rat → Rat
  round2_mono : ∀ a b, a ≤ b → round2 a ≤ round2 b
  round2_idem : ∀ a, round2 (round2 a) = round2 a
  round2_float : ∀ a, round a = some a → round (round2 a) = some (round2 a)
  round2_whole : ∀ n : Int, n.natAbs ≤ 9007199254740992 → round2 n = n

namespace PyFloat

/-- `int(x)`. -/
def toInt : PyFloat → Except String Int
  | finite x => .ok (x.num.tdiv x.den)
  | infinite _ => .error "cannot convert float infinity to integer"
  | nan => .error "cannot convert float NaN to integer"

/-- `min(100.0, max(0.0, x))`. -/
def clamp : PyFloat → Rat
  | finite x => min 100 (max 0 x)
  | infinite false => 100
  | infinite true => 0
  | nan => 0

/-- `n > x` for a whole number. -/
def isBelowInt (x : PyFloat) (n : Int) : Bool :=
  match x with
  | finite x => decide (x < n)
  | infinite negative => negative
  | nan => false

/-- `x < y` for a rational number. -/
def isAbove (x : Rat) : PyFloat → Bool
  | finite y => decide (x < y)
  | infinite negative => !negative
  | nan => false

/-- `x >= 100`. -/
def isComplete : PyFloat → Bool
  | finite x => decide (100 ≤ x)
  | infinite negative => !negative
  | nan => false

/-- A float in a dictionary. JSON has no number for an infinity and for `nan`; they stand as the
texts that `float` reads. -/
def toJson : PyFloat → Json
  | finite x => .float x
  | infinite negative => .str (if negative then "-inf" else "inf")
  | nan => .str "nan"

theorem clamp_nonneg (x : PyFloat) : 0 ≤ x.clamp := by
  cases x with
  | finite x => simp [clamp]
  | infinite negative =>
    cases negative with
    | true => simp [clamp]
    | false => simp [clamp]
  | nan => simp [clamp]

theorem clamp_le (x : PyFloat) : x.clamp ≤ 100 := by
  cases x with
  | finite x => simp [clamp]
  | infinite negative =>
    cases negative with
    | true => simp [clamp]
    | false => simp [clamp]
  | nan => simp [clamp]

/-! ## The order -/

end PyFloat

namespace FloatFormat

variable (F : FloatFormat)

/-- A whole number that has a float next to it. -/
def Fits (n : Int) : Prop := (F.round n).isSome = true

/-- `float(n)` of a whole number. -/
def ofInt (n : Int) : Except String Rat :=
  match F.round n with
  | some x => .ok x
  | none => .error "int too large to convert to float"

def rounded (x : Rat) : PyFloat :=
  match F.round x with
  | some y => .finite y
  | none => .infinite (decide (x < 0))

def quotient (x : PyFloat) (t : Rat) : PyFloat :=
  match x with
  | .finite x => F.rounded (x / t)
  | .infinite negative => .infinite (negative != decide (t < 0))
  | .nan => .nan

/-- `x / t`. -/
def divide (x : PyFloat) (t : Rat) : Except String PyFloat :=
  if t = 0 then .error "float division by zero" else .ok (F.quotient x t)

/-- `min(100.0, max(0.0, 100.0 * done / total))`. -/
def percentOf (done total : Int) : Except String Rat := do
  let done ← F.ofInt done
  let total ← F.ofInt total
  let quotient ← F.divide (F.rounded (100 * done)) total
  .ok quotient.clamp

/-- `a / b` of whole numbers. -/
def intDivide (a b : Int) : Except String Rat :=
  if b = 0 then .error "division by zero"
  else
    match F.round (a / b) with
    | some x => .ok x
    | none => .error "integer division result too large for a float"

/-- The float that a decimal number in a program stands for. -/
def literal (x : Rat) : Rat := (F.round x).getD x

/-- `float(value)`, or `None` for what is no number. -/
def progressNumber : Json → Except String (Option PyFloat)
  | .null => .ok none
  | .bool b => .ok (some (.finite (if b then 1 else 0)))
  | .int n => do
      let x ← F.ofInt n
      .ok (some (.finite x))
  | .float x => .ok (some (F.rounded x))
  | .str s => if s = "" then .ok none else .ok (F.parse s)
  | .arr _ => .ok none
  | .obj _ => .ok none

/-- `max(0, int(float(value)))`, or zero for what is no number. -/
def progressInt (v : Json) : Except String Int := do
  match ← F.progressNumber v with
  | none => .ok 0
  | some x => do
      let n ← x.toInt
      .ok (max 0 n)

/-! ## Whole numbers -/

variable {F}

variable {n done total : Int} {x p : Rat} {v : Json}

theorem fits_whole (h : n.natAbs ≤ 9007199254740992) : F.Fits n := by
  rw [Fits, F.whole n h]
  rfl

theorem ofInt_ok_iff : F.ofInt n = .ok x ↔ F.round n = some x := by
  rw [ofInt]
  cases F.round n with
  | none => simp
  | some y => simp

theorem Fits.exists_ofInt (h : F.Fits n) : ∃ x, F.ofInt n = .ok x := by
  obtain ⟨x, hx⟩ := Option.isSome_iff_exists.mp h
  exact ⟨x, ofInt_ok_iff.mpr hx⟩

theorem ofInt_mono {k : Int} {y : Rat} (h : n ≤ k) (hx : F.ofInt n = .ok x)
    (hy : F.ofInt k = .ok y) :
    x ≤ y :=
  F.mono n k x y (by exact_mod_cast h) (ofInt_ok_iff.mp hx) (ofInt_ok_iff.mp hy)

theorem ofInt_zero : F.ofInt 0 = .ok 0 := ofInt_ok_iff.mpr (F.whole 0 (by decide))

theorem ofInt_one : F.ofInt 1 = .ok 1 := ofInt_ok_iff.mpr (F.whole 1 (by decide))

theorem ofInt_nonneg (h : 0 ≤ n) (hx : F.ofInt n = .ok x) : 0 ≤ x :=
  ofInt_mono h ofInt_zero hx

theorem ofInt_pos (h : 0 < n) (hx : F.ofInt n = .ok x) : 0 < x :=
  lt_of_lt_of_le zero_lt_one (ofInt_mono h ofInt_one hx)

/-! ## Percentages -/

theorem percentOf_range (h : F.percentOf done total = .ok p) : 0 ≤ p ∧ p ≤ 100 := by
  obtain ⟨d, -, h⟩ := Transition.bind_eq_ok.mp h
  obtain ⟨t, -, h⟩ := Transition.bind_eq_ok.mp h
  obtain ⟨q, -, h⟩ := Transition.bind_eq_ok.mp h
  cases h
  exact ⟨q.clamp_nonneg, q.clamp_le⟩

/-- Two results in order: the larger one is infinite, or both are finite and in order. -/
theorem rounded_mono {a b : Rat} (ha : 0 ≤ a) (h : a ≤ b) : F.rounded b = .infinite false ∨
      ∃ x y, F.rounded a = .finite x ∧ F.rounded b = .finite y ∧ 0 ≤ x ∧ x ≤ y := by
  rw [rounded, rounded]
  cases hb : F.round b with
  | none => exact .inl (by simp [not_lt.mpr (ha.trans h)])
  | some y =>
    cases hround : F.round a with
    | none =>
      have hsome := F.inside a b ha h (by rw [hb]; rfl)
      rw [hround] at hsome
      cases hsome
    | some x =>
      have hzero : F.round 0 = some 0 := F.whole 0 (by decide)
      exact .inr ⟨x, y, rfl, rfl, F.mono _ _ _ _ ha hzero hround, F.mono _ _ _ _ h hround hb⟩

theorem divide_of_pos {x : PyFloat} {t : Rat} (ht : 0 < t) :
    F.divide x t = .ok (F.quotient x t) := by
  rw [divide, if_neg ht.ne']

theorem exists_percentOf (hpos : 0 < total) (hdone : F.Fits done) (htotal : F.Fits total) :
    ∃ p, F.percentOf done total = .ok p := by
  obtain ⟨d, hd⟩ := hdone.exists_ofInt
  obtain ⟨t, ht⟩ := htotal.exists_ofInt
  refine ⟨(F.quotient (F.rounded (100 * d)) t).clamp, ?_⟩
  refine Transition.bind_eq_ok.mpr ⟨d, hd, Transition.bind_eq_ok.mpr ⟨t, ht, ?_⟩⟩
  exact Transition.bind_eq_ok.mpr ⟨_, divide_of_pos (ofInt_pos hpos ht), rfl⟩

theorem clamp_mono_rounded {a b : Rat} (ha : 0 ≤ a) (h : a ≤ b) :
    (F.rounded a).clamp ≤ (F.rounded b).clamp := by
  rcases rounded_mono (F := F) ha h with hb | ⟨x, y, hx, hy, -, hle⟩
  · rw [hb]
    exact (F.rounded a).clamp_le
  · rw [hx, hy, PyFloat.clamp, PyFloat.clamp]
    exact min_le_min_left 100 (max_le_max_left 0 hle)

theorem percentOf_mono {k : Int} {q : Rat} (hn : 0 ≤ n) (hk : n ≤ k) (hpos : 0 < total)
    (hp : F.percentOf n total = .ok p) (hq : F.percentOf k total = .ok q) : p ≤ q := by
  obtain ⟨x, hx, hp⟩ := Transition.bind_eq_ok.mp hp
  obtain ⟨t, ht, hp⟩ := Transition.bind_eq_ok.mp hp
  obtain ⟨u, hu, hp⟩ := Transition.bind_eq_ok.mp hp
  obtain ⟨y, hy, hq⟩ := Transition.bind_eq_ok.mp hq
  obtain ⟨t', ht', hq⟩ := Transition.bind_eq_ok.mp hq
  obtain ⟨v, hv, hq⟩ := Transition.bind_eq_ok.mp hq
  cases hp
  cases hq
  obtain rfl := Except.ok.inj (ht.symm.trans ht')
  have htpos := ofInt_pos hpos ht
  have hxy := ofInt_mono hk hx hy
  have hxpos := ofInt_nonneg hn hx
  rw [divide_of_pos htpos] at hu hv
  cases hu
  cases hv
  have hle : 100 * x ≤ 100 * y := by linarith
  rcases rounded_mono (F := F) (by linarith : 0 ≤ 100 * x) hle with hinf | ⟨c, d, hc, hd, hcpos, hcd⟩
  · rw [hinf, quotient, show (decide (t < 0)) = false from decide_eq_false (not_lt.mpr htpos.le)]
    exact PyFloat.clamp_le _
  · rw [hc, hd]
    exact clamp_mono_rounded (div_nonneg hcpos htpos.le) (div_le_div_of_nonneg_right hcd htpos.le)

theorem round_percentOf (h : F.percentOf done total = .ok p) : F.round p = some p := by
  obtain ⟨d, -, h⟩ := Transition.bind_eq_ok.mp h
  obtain ⟨t, -, h⟩ := Transition.bind_eq_ok.mp h
  obtain ⟨q, hq, h⟩ := Transition.bind_eq_ok.mp h
  cases h
  have hzero : F.round 0 = some 0 := F.whole 0 (by decide)
  have hhundred : F.round 100 = some 100 := F.whole 100 (by decide)
  have hfinite : ∀ x, q = .finite x → F.round x = some x := by
    rintro x rfl
    have hrounded : ∀ y, F.rounded y = .finite x → F.round x = some x := by
      intro y hy
      rw [rounded] at hy
      cases hround : F.round y with
      | none => simp [hround] at hy
      | some z =>
        obtain rfl : z = x := by simpa [hround] using hy
        exact F.idem _ _ hround
    rw [divide] at hq
    split at hq
    · cases hq
    · have hq := Except.ok.inj hq
      cases hnum : F.rounded (100 * d) with
      | finite y =>
        rw [hnum, quotient] at hq
        exact hrounded _ hq
      | infinite negative => simp [hnum, quotient] at hq
      | nan => simp [hnum, quotient] at hq
  cases q with
  | finite x =>
    rw [PyFloat.clamp]
    rcases min_choice 100 (max 0 x) with hmin | hmin
    · rwa [hmin]
    · rw [hmin]
      rcases max_choice 0 x with hmax | hmax
      · rwa [hmax]
      · rw [hmax]
        exact hfinite x rfl
  | infinite negative =>
    cases negative with
    | true => exact hzero
    | false => exact hhundred
  | nan => exact hzero

theorem progressNumber_toJson {x : PyFloat} (h : ∀ y, x = .finite y → F.round y = some y) :
    F.progressNumber x.toJson = .ok (some x) := by
  cases x with
  | finite y => simp [PyFloat.toJson, progressNumber, rounded, h y rfl]
  | infinite negative =>
    cases negative with
    | true => simp [PyFloat.toJson, progressNumber, F.parse_infinite.2]
    | false => simp [PyFloat.toJson, progressNumber, F.parse_infinite.1]
  | nan => simp [PyFloat.toJson, progressNumber, F.parse_nan]

/-! ## Counters -/

theorem progressInt_nonneg (h : F.progressInt v = .ok n) : 0 ≤ n := by
  obtain ⟨x, -, h⟩ := Transition.bind_eq_ok.mp h
  cases x with
  | none => exact (Except.ok.inj h).le
  | some x =>
    obtain ⟨k, -, h⟩ := Transition.bind_eq_ok.mp h
    rw [← Except.ok.inj h]
    exact le_max_left 0 k

theorem round_of_progressNumber (h : F.progressNumber v = .ok (some (.finite x))) :
    F.round x = some x := by
  cases v with
  | null => simp [progressNumber] at h
  | bool b =>
    have hx : (if b then (1 : Rat) else 0) = x := by simpa [progressNumber] using h
    rw [← hx]
    cases b with
    | true => exact F.whole 1 (by decide)
    | false => exact F.whole 0 (by decide)
  | int n =>
    obtain ⟨y, hy, h⟩ := Transition.bind_eq_ok.mp h
    obtain rfl : y = x := by simpa using h
    exact F.idem _ _ (ofInt_ok_iff.mp hy)
  | float q =>
    have hq : F.rounded q = .finite x := by simpa [progressNumber] using h
    rw [rounded] at hq
    cases hround : F.round q with
    | none => simp [hround] at hq
    | some y =>
      obtain rfl : y = x := by simpa [hround] using hq
      exact F.idem _ _ hround
  | str s =>
    rw [progressNumber] at h
    split at h
    · simp at h
    · exact F.parsed s x (by simpa using h)
  | arr xs => simp [progressNumber] at h
  | obj fields => simp [progressNumber] at h

theorem tdiv_le (h : 0 ≤ x) : ((x.num.tdiv x.den : Int) : Rat) ≤ x := by
  have hnum : 0 ≤ x.num := Rat.num_nonneg.mpr h
  have hfloor : x.num.tdiv x.den = x.floor := by
    rw [Int.tdiv_eq_ediv_of_nonneg hnum, Rat.floor_def]
  rw [hfloor]
  exact Rat.floor_le x

theorem fits_progressInt (h : F.progressInt v = .ok n) : F.Fits n := by
  have hnonneg := progressInt_nonneg h
  obtain ⟨x, hx, h⟩ := Transition.bind_eq_ok.mp h
  cases x with
  | none =>
    rw [← Except.ok.inj h]
    exact fits_whole (by decide)
  | some x =>
    obtain ⟨k, hk, h⟩ := Transition.bind_eq_ok.mp h
    cases x with
    | infinite negative => cases hk
    | nan => cases hk
    | finite x =>
      have hround := round_of_progressNumber hx
      cases hk
      cases h
      rcases le_total 0 x with hpos | hneg
      · have hfits : (F.round x).isSome = true := by
          rw [hround]
          rfl
        have hpart : 0 ≤ x.num.tdiv x.den := Int.tdiv_nonneg (Rat.num_nonneg.mpr hpos) (by simp)
        rw [max_eq_right hpart]
        exact F.inside _ x (by exact_mod_cast hpart) (tdiv_le hpos) hfits
      · have hpart : x.num.tdiv x.den ≤ 0 := by
          have hopposite := Int.tdiv_nonneg (a := -x.num) (b := x.den)
            (Int.neg_nonneg.mpr (Rat.num_nonpos.mpr hneg)) (by simp)
          rw [Int.neg_tdiv] at hopposite
          omega
        rw [max_eq_left hpart]
        exact fits_whole (by decide)

/-- A format in which every rational number is a float, for numbers that need no rounding. -/
def exact : FloatFormat where
  round := some
  mono := by
    intro a b x y h hx hy
    rw [← Option.some.inj hx, ← Option.some.inj hy]
    exact h
  whole := fun _ _ => rfl
  idem := fun _ _ _ => rfl
  inside := fun _ _ _ _ _ => rfl
  parse := fun s =>
    if s = "nan" then some .nan
    else if s = "inf" then some (.infinite false)
    else if s = "-inf" then some (.infinite true)
    else none
  parsed := fun _ _ _ => rfl
  parse_nan := by decide
  parse_infinite := by decide
  round2 := id
  round2_mono := fun _ _ h => h
  round2_idem := fun _ => rfl
  round2_float := fun _ _ => rfl
  round2_whole := fun _ _ => rfl

end FloatFormat
