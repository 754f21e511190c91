import HyperFileLens.Protection.PolicySchedule

/-!
# List fields of cron expressions

What a list field of a cron expression means, and when `_cron_value_matches` says so.

*Parts.*  A part has a meaning of its own (`CronPart.Holds`), and a part alone in a field
answers by it (`cronValueMatches_part`).

*Union.*  A field means the union of its parts. A step part `*/n` that does not hold
ends the loop, so the parts behind it go unread. The code computes the union exactly
where no such part stands between the value and the parts that hold.
-/

namespace HyperFileLens.Protection

open Text

/-! ## Parts -/

structure Numeral where
  digits : List Char
  nonempty : digits ≠ []
  allDigits : ∀ c ∈ digits, c.isDigit = true

def Numeral.value (n : Numeral) : Int := digitsValue n.digits

def Numeral.step (n : Numeral) : Int := max 1 n.value

inductive CronPart where
  | blank
  | star
  | starStep (n : Numeral)
  | single (a : Numeral)
  | range (a b : Numeral)
  | rangeStep (a b n : Numeral)

def CronPart.text : CronPart → List Char
  | .blank => []
  | .star => ['*']
  | .starStep n => '*' :: '/' :: n.digits
  | .single a => a.digits
  | .range a b => a.digits ++ '-' :: b.digits
  | .rangeStep a b n => (a.digits ++ '-' :: b.digits) ++ '/' :: n.digits

def CronPart.Holds (value : Int) : CronPart → Prop
  | .blank => False
  | .star => True
  | .starStep n => value % n.step = 0
  | .single a => a.value = value
  | .range a b => a.value ≤ value ∧ value ≤ b.value
  | .rangeStep a b n => a.value ≤ value ∧ value ≤ b.value ∧ (value - a.value) % n.step = 0

/-- A step part `*/n` of which the value is no multiple. -/
def CronPart.Stops (value : Int) : CronPart → Prop
  | .starStep n => value % n.step ≠ 0
  | _ => False

/-- A part with the white space around it. -/
structure PaddedPart where
  before : List Char
  part : CronPart
  after : List Char
  blankBefore : ∀ c ∈ before, isPySpace c = true
  blankAfter : ∀ c ∈ after, isPySpace c = true

def PaddedPart.text (p : PaddedPart) : List Char := p.before ++ (p.part.text ++ p.after)

def fieldText (parts : List PaddedPart) : List Char :=
  [','].intercalate (parts.map PaddedPart.text)

variable {c : Char}

theorem Numeral.not_mem (n : Numeral) (hc : c.isDigit = false) : c ∉ n.digits :=
  fun hmem => ne_of_isDigit (n.allDigits c hmem) hc rfl

theorem Numeral.parse (n : Numeral) : parseInt (String.ofList n.digits) = some n.value :=
  parseInt_digits n.nonempty n.allDigits

variable {part : CronPart}

theorem CronPart.mem_text (h : c ∈ part.text) : c.isDigit = true ∨ c = '*' ∨ c = '-' ∨ c = '/' := by
  have digit : ∀ n : Numeral, c ∈ n.digits → c.isDigit = true := fun n hc => n.allDigits c hc
  cases part with
  | blank => cases h
  | star => simp_all [CronPart.text]
  | starStep n =>
    simp only [CronPart.text, List.mem_cons] at h
    rcases h with h | h | h
    · exact Or.inr (Or.inl h)
    · exact Or.inr (Or.inr (Or.inr h))
    · exact Or.inl (digit n h)
  | single a => exact Or.inl (digit a h)
  | range a b =>
    simp only [CronPart.text, List.mem_append, List.mem_cons] at h
    rcases h with h | h | h
    · exact Or.inl (digit a h)
    · exact Or.inr (Or.inr (Or.inl h))
    · exact Or.inl (digit b h)
  | rangeStep a b n =>
    simp only [CronPart.text, List.mem_append, List.mem_cons] at h
    rcases h with (h | h | h) | h | h
    · exact Or.inl (digit a h)
    · exact Or.inr (Or.inr (Or.inl h))
    · exact Or.inl (digit b h)
    · exact Or.inr (Or.inr (Or.inr h))
    · exact Or.inl (digit n h)

theorem CronPart.isPySpace_of_mem (h : c ∈ part.text) : isPySpace c = false := by
  rcases part.mem_text h with h | rfl | rfl | rfl
  · exact isPySpace_of_isDigit h
  · decide
  · decide
  · decide

theorem CronPart.comma_not_mem (part : CronPart) : ',' ∉ part.text := by
  intro h
  rcases part.mem_text h with h | h | h | h
  · exact absurd h (by decide)
  · exact absurd h (by decide)
  · exact absurd h (by decide)
  · exact absurd h (by decide)

theorem PaddedPart.trim_text (p : PaddedPart) : trim isPySpace p.text = p.part.text := by
  rw [PaddedPart.text, trim_append_left p.blankBefore, trim_append_right p.blankAfter]
  exact trim_eq_self (fun _ hc => p.part.isPySpace_of_mem (List.mem_of_mem_head? hc))
    fun _ hc => p.part.isPySpace_of_mem (List.mem_of_mem_getLast? hc)

theorem PaddedPart.comma_not_mem (p : PaddedPart) : ',' ∉ p.text := by
  have hspace : isPySpace ',' = false := by decide
  intro h
  simp only [PaddedPart.text, List.mem_append] at h
  rcases h with h | h | h
  · rw [p.blankBefore _ h] at hspace
    cases hspace
  · exact p.part.comma_not_mem h
  · rw [p.blankAfter _ h] at hspace
    cases hspace

/-! ## What the loop settles at a part -/

theorem cronPartAnswer_trim (value : Int) (raw : List Char) :
    cronPartAnswer value (trim isPySpace raw) = cronPartAnswer value raw := by
  simp only [cronPartAnswer, trim_trim]

theorem CronPart.trim_text (part : CronPart) : trim isPySpace part.text = part.text :=
  trim_eq_self (fun _ hc => part.isPySpace_of_mem (List.mem_of_mem_head? hc))
    fun _ hc => part.isPySpace_of_mem (List.mem_of_mem_getLast? hc)

theorem Numeral.ne_star (n : Numeral) : n.digits ≠ ['*'] := by
  intro h
  exact n.not_mem (c := '*') (by decide) (by rw [h]; exact List.mem_singleton_self _)

theorem range_ne_star (a b : List Char) : a ++ '-' :: b ≠ ['*'] := by
  intro h
  have hmem : '-' ∈ a ++ '-' :: b := by simp
  rw [h] at hmem
  exact absurd hmem (by decide)

theorem Numeral.slash_not_mem_range (a b : Numeral) : '/' ∉ a.digits ++ '-' :: b.digits := by
  intro h
  simp only [List.mem_append, List.mem_cons] at h
  rcases h with h | h | h
  · exact a.not_mem (by decide) h
  · exact absurd h (by decide)
  · exact b.not_mem (by decide) h

inductive CronPart.Settles (value : Int) (part : CronPart) : Option Bool → Prop where
  | holds (h : part.Holds value) : Settles value part (some true)
  | stops (h : ¬ part.Holds value) (hstops : part.Stops value) : Settles value part (some false)
  | passes (h : ¬ part.Holds value) (hstops : ¬ part.Stops value) : Settles value part none

theorem cronPartAnswer_settles (value : Int) (part : CronPart) :
    part.Settles value (cronPartAnswer value part.text) := by
  have htrim := part.trim_text
  cases part with
  | blank => exact .passes (fun h => h) fun h => h
  | star =>
    have hmod : value % 1 = 0 := Int.emod_one value
    have hanswer : cronPartAnswer value CronPart.star.text = some (value % 1 == 0) := rfl
    rw [hanswer, hmod]
    exact .holds trivial
  | starStep n =>
    have hsplit : splitFirst '/' (CronPart.starStep n).text = some (['*'], n.digits) :=
      splitFirst_append (s := ['*']) (by decide) n.digits
    have hanswer : cronPartAnswer value (CronPart.starStep n).text =
        some (value % n.step == 0) := by
      simp only [cronPartAnswer, htrim, hsplit, n.parse]
      simp [CronPart.text, Numeral.step]
    rw [hanswer]
    by_cases hvalue : value % n.step = 0
    · rw [hvalue]
      exact .holds hvalue
    · rw [beq_false_of_ne hvalue]
      exact .stops hvalue hvalue
  | single a =>
    have hslash : splitFirst '/' a.digits = none := splitFirst_eq_none (a.not_mem (by decide))
    have hdash : splitFirst '-' a.digits = none := splitFirst_eq_none (a.not_mem (by decide))
    have hanswer : cronPartAnswer value (CronPart.single a).text =
        if a.value = value then some true else none := by
      simp only [CronPart.text] at htrim
      simp only [cronPartAnswer, CronPart.text, htrim, hslash, hdash, a.parse]
      rw [if_neg a.nonempty, if_neg a.ne_star]
    rw [hanswer]
    split
    case isTrue h => exact .holds h
    case isFalse h => exact .passes h fun hstops => hstops
  | range a b =>
    have hslash : splitFirst '/' (a.digits ++ '-' :: b.digits) = none :=
      splitFirst_eq_none (a.slash_not_mem_range b)
    have hdash : splitFirst '-' (a.digits ++ '-' :: b.digits) = some (a.digits, b.digits) :=
      splitFirst_append (a.not_mem (by decide)) b.digits
    have hanswer : cronPartAnswer value (CronPart.range a b).text =
        if a.value ≤ value ∧ value ≤ b.value then some true else none := by
      simp only [CronPart.text] at htrim
      simp only [cronPartAnswer, CronPart.text, htrim, hslash, hdash, a.parse, b.parse,
        Int.emod_one, and_true]
      rw [if_neg (by simp), if_neg (range_ne_star _ _)]
    rw [hanswer]
    split
    case isTrue h => exact .holds h
    case isFalse h => exact .passes h fun hstops => hstops
  | rangeStep a b n =>
    have hslash : splitFirst '/' (CronPart.rangeStep a b n).text =
        some (a.digits ++ '-' :: b.digits, n.digits) :=
      splitFirst_append (a.slash_not_mem_range b) n.digits
    have hdash : splitFirst '-' (a.digits ++ '-' :: b.digits) = some (a.digits, b.digits) :=
      splitFirst_append (a.not_mem (by decide)) b.digits
    have hne : (CronPart.rangeStep a b n).text ≠ [] := by simp [CronPart.text]
    have hanswer : cronPartAnswer value (CronPart.rangeStep a b n).text =
        if a.value ≤ value ∧ value ≤ b.value ∧ (value - a.value) % n.step = 0 then some true
        else none := by
      simp only [cronPartAnswer, htrim, hslash, hdash, a.parse, b.parse, n.parse, Option.map_some]
      rw [if_neg hne, if_neg (range_ne_star _ _)]
      rfl
    rw [hanswer]
    split
    case isTrue h => exact .holds h
    case isFalse h => exact .passes h fun hstops => hstops

/-! ## The loop -/

def partsMatch (parts : List CronPart) (value : Int) : Bool :=
  (parts.findSome? fun part => cronPartAnswer value part.text).getD false

/-- The loop over a text is the loop over its trimmed pieces, a lone star included. -/
theorem cronValueMatches_eq (text : List Char) (value : Int) : cronValueMatches text value =
      (((text.splitOn ',').map (trim isPySpace)).findSome? (cronPartAnswer value)).getD false := by
  have hpieces := map_trim_splitOn_trim (p := isPySpace) (c := ',') (by decide) text
  rw [cronValueMatches]
  split
  case isTrue hstar =>
    rw [hstar] at hpieces
    have hmod : value % 1 = 0 := Int.emod_one value
    rw [← hpieces]
    have hone : ((['*'].splitOn ',').map (trim isPySpace)).findSome? (cronPartAnswer value) =
        some (value % 1 == 0) := rfl
    rw [hone, hmod]
    rfl
  case isFalse =>
    rw [← hpieces, List.findSome?_map]
    congr 2
    funext piece
    exact (cronPartAnswer_trim value piece).symm

theorem cronValueMatches_fieldText (parts : List PaddedPart) (value : Int) :
    cronValueMatches (fieldText parts) value = partsMatch (parts.map PaddedPart.part) value := by
  cases parts with
  | nil => rfl
  | cons p parts =>
    have hsplit : (fieldText (p :: parts)).splitOn ',' = (p :: parts).map PaddedPart.text := by
      refine List.splitOn_intercalate ',' ?_ (by simp)
      intro piece hpiece
      obtain ⟨q, -, rfl⟩ := List.mem_map.mp hpiece
      exact q.comma_not_mem
    have htrim : ((p :: parts).map PaddedPart.text).map (trim isPySpace) =
        ((p :: parts).map PaddedPart.part).map CronPart.text := by
      rw [List.map_map, List.map_map]
      exact List.map_congr_left fun q _ => q.trim_text
    rw [cronValueMatches_eq, hsplit, htrim, List.findSome?_map]
    rfl

theorem cronValueMatches_part (p : PaddedPart) (value : Int) :
    cronValueMatches p.text value = true ↔ p.part.Holds value := by
  have hone : cronValueMatches p.text value = partsMatch [p.part] value := by
    have hfield := cronValueMatches_fieldText [p] value
    rwa [fieldText, List.map_singleton, List.intercalate_singleton] at hfield
  have hsettles := cronPartAnswer_settles value p.part
  rw [hone, partsMatch, List.findSome?_cons]
  generalize cronPartAnswer value p.part.text = answer at hsettles
  cases hsettles with
  | holds h => exact iff_of_true rfl h
  | stops h _ => exact iff_of_false (by simp) h
  | passes h _ => exact iff_of_false (by simp) h

/-! ## The union -/

/-- No step part that stops the loop stands between the value and the parts that hold. -/
def NoneHidden (value : Int) (parts : List CronPart) : Prop :=
  ∀ before step after, parts = before ++ step :: after → step.Stops value →
    (∃ part ∈ before, part.Holds value) ∨ ∀ part ∈ after, ¬ part.Holds value

theorem noneHidden_cons {value : Int} {parts : List CronPart} :
    NoneHidden value (part :: parts) ↔ (part.Stops value → ∀ later ∈ parts, ¬ later.Holds value) ∧
        (part.Holds value ∨ NoneHidden value parts) := by
  constructor
  · intro h
    refine ⟨fun hstops => ?_, ?_⟩
    · cases h [] part parts rfl hstops with
      | inl hbefore =>
        obtain ⟨_, hmem, _⟩ := hbefore
        cases hmem
      | inr hafter => exact hafter
    · by_cases hholds : part.Holds value
      · exact Or.inl hholds
      · refine Or.inr fun before step after heq hstops => ?_
        cases h (part :: before) step after (congrArg (List.cons part) heq) hstops with
        | inl hbefore =>
          obtain ⟨q, hmem, hq⟩ := hbefore
          cases hmem with
          | head => exact absurd hq hholds
          | tail _ hmem => exact Or.inl ⟨q, hmem, hq⟩
        | inr hafter => exact Or.inr hafter
  · rintro ⟨hhead, htail⟩ before step after heq hstops
    cases before with
    | nil =>
      obtain ⟨rfl, rfl⟩ := List.cons.inj heq
      exact Or.inr (hhead hstops)
    | cons q before =>
      obtain ⟨rfl, hrest⟩ := List.cons.inj heq
      cases htail with
      | inl hholds => exact Or.inl ⟨part, List.mem_cons_self, hholds⟩
      | inr hnone =>
        cases hnone before step after hrest hstops with
        | inl hbefore =>
          obtain ⟨r, hmem, hr⟩ := hbefore
          exact Or.inl ⟨r, List.mem_cons_of_mem _ hmem, hr⟩
        | inr hafter => exact Or.inr hafter

theorem partsMatch_union_iff (parts : List CronPart) (value : Int) :
    (partsMatch parts value = true ↔ ∃ part ∈ parts, part.Holds value) ↔
      NoneHidden value parts := by
  induction parts with
  | nil =>
    refine iff_of_true (by simp [partsMatch]) ?_
    intro before step after heq
    simp at heq
  | cons part parts ih =>
    have hsettles := cronPartAnswer_settles value part
    rw [noneHidden_cons, partsMatch, List.findSome?_cons]
    generalize cronPartAnswer value part.text = answer at hsettles
    cases hsettles with
    | holds h =>
      have hnot : ¬ part.Stops value := by
        cases part with
        | starStep n => exact fun hstops => hstops h
        | _ => exact fun hstops => hstops
      refine iff_of_true (iff_of_true rfl ⟨part, List.mem_cons_self, h⟩) ?_
      exact ⟨fun hstops => absurd hstops hnot, Or.inl h⟩
    | stops h hstops =>
      constructor
      · intro hunion
        have hnone : ∀ later ∈ parts, ¬ later.Holds value := by
          intro later hmem hlater
          have htrue := hunion.mpr ⟨later, List.mem_cons_of_mem _ hmem, hlater⟩
          simp at htrue
        refine ⟨fun _ => hnone, Or.inr ?_⟩
        rintro before step after rfl -
        exact Or.inr fun q hq => hnone q (by simp [hq])
      · rintro ⟨hhead, -⟩
        refine iff_of_false (by simp) ?_
        rintro ⟨q, hmem, hq⟩
        cases hmem with
        | head => exact h hq
        | tail _ hmem => exact hhead hstops q hmem hq
    | passes h hstops =>
      have hrest : (∃ q ∈ part :: parts, q.Holds value) ↔ ∃ q ∈ parts, q.Holds value := by
        simp [h]
      rw [hrest]
      refine ih.trans ⟨fun hnone => ⟨fun hstep => absurd hstep hstops, Or.inr hnone⟩, ?_⟩
      rintro ⟨-, hholds | hnone⟩
      · exact absurd hholds h
      · exact hnone

/-- A list field matches where one of its parts alone does, if and only if no step part
`*/n` without the value among its multiples stands before the first part that holds. -/
theorem cronValueMatches_union_iff (parts : List PaddedPart) (value : Int) :
    (cronValueMatches (fieldText parts) value = true ↔
        ∃ p ∈ parts, cronValueMatches p.text value = true) ↔
      NoneHidden value (parts.map PaddedPart.part) := by
  rw [cronValueMatches_fieldText, ← partsMatch_union_iff]
  have hparts : (∃ p ∈ parts, cronValueMatches p.text value = true) ↔
      ∃ part ∈ parts.map PaddedPart.part, part.Holds value := by
    simp only [cronValueMatches_part, List.mem_map, exists_exists_and_eq_and]
  rw [hparts]

/-- In `*/7,3` the step part hides the 3. -/
theorem cronValueMatches_not_union :
    ¬ ∀ (parts : List PaddedPart) (value : Int),
      cronValueMatches (fieldText parts) value = true ↔
        ∃ p ∈ parts, cronValueMatches p.text value = true := by
  intro h
  let plain (part : CronPart) : PaddedPart :=
    ⟨[], part, [], List.forall_mem_nil _, List.forall_mem_nil _⟩
  let seven : Numeral := ⟨['7'], by decide, List.forall_mem_singleton.mpr (by decide)⟩
  let three : Numeral := ⟨['3'], by decide, List.forall_mem_singleton.mpr (by decide)⟩
  let parts : List PaddedPart := [plain (.starStep seven), plain (.single three)]
  have hfield : cronValueMatches (fieldText parts) 3 = true :=
    (h parts 3).mpr ⟨_, List.mem_cons_of_mem _ List.mem_cons_self, by decide +kernel⟩
  exact absurd hfield (by decide +kernel)

end HyperFileLens.Protection
