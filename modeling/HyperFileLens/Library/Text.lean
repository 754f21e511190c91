import Mathlib.Data.List.Forall2
import Mathlib.Data.List.Infix
import Mathlib.Data.List.TakeWhile

/-!
# Texts as lists of characters

The string functions of the Go and Python standard libraries that the models
use, on lists of characters, where the kernel can evaluate them.

*Case.*  `lower` maps the ASCII letters and the Kelvin sign, the one other
character whose lower case is an ASCII letter on its own. Every comparison with
an ASCII word comes out as it does with the full case mapping.

*Space.*  `isSpace` is the White_Space property of Unicode, which Go trims.
`isPySpace` is what Python strips. `trim` drops the characters of a set from both
ends.
-/

namespace Text

instance decidableMem (s : List Char) (texts : List (List Char)) : Decidable (s ∈ texts) :=
  inferInstance

/-- Lower case of a character, as far as ASCII words can tell. -/
def lowerChar (c : Char) : Char := if c = '\u212A' then 'k' else c.toLower

/-- Lower case of a text, as far as ASCII words can tell. -/
def lower (s : String) : String := String.ofList (s.toList.map lowerChar)

def isSpace (c : Char) : Bool :=
  let n := c.toNat
  (9 ≤ n && n ≤ 13) || n == 32 || n == 0x85 || n == 0xA0 || n == 0x1680 ||
    (0x2000 ≤ n && n ≤ 0x200A) || n == 0x2028 || n == 0x2029 || n == 0x202F || n == 0x205F ||
    n == 0x3000

/-- Drop the characters of a set from both ends. -/
def trim (p : Char → Bool) (s : List Char) : List Char :=
  ((s.dropWhile p).reverse.dropWhile p).reverse

def trimSpace (s : List Char) : List Char := trim isSpace s

/-- `str.isspace` of a character. -/
def isPySpace (c : Char) : Bool := isSpace c || (0x1C ≤ c.toNat && c.toNat ≤ 0x1F)

def strip (s : String) : String := String.ofList (trim isPySpace s.toList)

/-- `s.split(c, 1)` of a text with the character: what stands before the first one and
what stands after it. -/
def splitFirst (c : Char) (s : List Char) : Option (List Char × List Char) :=
  if c ∈ s then some (s.takeWhile (· != c), (s.dropWhile (· != c)).drop 1) else none

/-- `s.split()`: the words between white space. -/
def words (s : List Char) : List (List Char) :=
  (s.splitOnP isPySpace).filter fun w => !w.isEmpty

/-- The number of a digit text. Single underscores may stand between digits. -/
def parseDigits (s : List Char) : Option Nat :=
  if (s.splitOn '_').all fun g => !g.isEmpty && g.all Char.isDigit then
    some ((s.filter Char.isDigit).foldl (fun n c => 10 * n + (c.toNat - '0'.toNat)) 0)
  else none

/-- `int(s)` of a text. -/
def parseInt (s : String) : Option Int :=
  match trim isPySpace s.toList with
  | '-' :: cs => (parseDigits cs).map fun n => -(n : Int)
  | '+' :: cs => (parseDigits cs).map fun n => (n : Int)
  | cs => (parseDigits cs).map fun n => (n : Int)

variable {p : Char → Bool} {s t : List Char} {c : Char}

/-- A text that neither starts nor ends in the set is its own trimming. -/
theorem trim_eq_self (hhead : ∀ c ∈ s.head?, p c = false) (hlast : ∀ c ∈ s.getLast?, p c = false) :
    trim p s = s := by
  have drop_eq : ∀ t : List Char, (∀ c ∈ t.head?, p c = false) → t.dropWhile p = t := by
    intro t ht
    cases t with
    | nil => rfl
    | cons c t => simp [List.dropWhile, ht c (by simp)]
  rw [trim, drop_eq s hhead, drop_eq s.reverse (by simpa using hlast), List.reverse_reverse]

/-- A text that neither starts nor ends with white space is its own stripping. -/
theorem strip_eq_self {s : String} (hhead : ∀ c ∈ s.toList.head?, isPySpace c = false)
    (hlast : ∀ c ∈ s.toList.getLast?, isPySpace c = false) : strip s = s := by
  rw [strip, trim_eq_self hhead hlast, String.ofList_toList]

theorem head_trim (p : Char → Bool) (s : List Char) (h : c ∈ (trim p s).head?) : p c = false := by
  have hprefix : trim p s <+: s.dropWhile p := by
    rw [trim, ← List.reverse_suffix, List.reverse_reverse]
    exact List.dropWhile_suffix p
  have hhead : c ∈ (s.dropWhile p).head? := by
    obtain ⟨t, ht⟩ := hprefix
    rw [← ht, List.head?_append, Option.mem_def.mp h]
    rfl
  have hnot := List.head?_dropWhile_not p s
  rw [Option.mem_def.mp hhead] at hnot
  simpa using hnot

theorem last_trim (p : Char → Bool) (s : List Char) (h : c ∈ (trim p s).getLast?) :
    p c = false := by
  rw [trim, List.getLast?_reverse] at h
  have hnot := List.head?_dropWhile_not p (s.dropWhile p).reverse
  rw [Option.mem_def.mp h] at hnot
  simpa using hnot

theorem trim_trim (p : Char → Bool) (s : List Char) : trim p (trim p s) = trim p s :=
  trim_eq_self (fun _ hc => head_trim p s hc) fun _ hc => last_trim p s hc

theorem strip_strip (s : String) : strip (strip s) = strip s := by
  simp only [strip, String.toList_ofList, trim_trim]

theorem strip_around {a m b : String} (ha : a.toList ≠ []) (hb : b.toList ≠ [])
    (hhead : ∀ c ∈ a.toList.head?, isPySpace c = false)
    (hlast : ∀ c ∈ b.toList.getLast?, isPySpace c = false) :
    strip (a ++ m ++ b) = a ++ m ++ b := by
  refine strip_eq_self (fun c hc => hhead c ?_) fun c hc => hlast c ?_
  · rwa [String.toList_append, String.toList_append, List.append_assoc,
      List.head?_append_of_ne_nil _ ha] at hc
  · rwa [String.toList_append, List.getLast?_append_of_ne_nil _ hb] at hc

theorem toLower_of_not_upper (h : ¬ c.toNat < 128) : c.toLower = c := by
  show dite (c.val ≥ 'A'.val ∧ c.val ≤ 'Z'.val) _ (fun _ => c) = c
  refine dif_neg fun hupper => h ?_
  exact Nat.lt_of_le_of_lt (UInt32.le_iff_toNat_le.mp hupper.2) (by decide)

theorem isPySpace_lowerChar (h : isPySpace c = false) : isPySpace (lowerChar c) = false := by
  rw [lowerChar]
  split
  · decide
  · have hall : ∀ n : Fin 128, isPySpace (Char.ofNat n) = false →
        isPySpace (Char.ofNat n).toLower = false := by decide +kernel
    by_cases hlt : c.toNat < 128
    · have hc := hall ⟨c.toNat, hlt⟩
      rw [Char.ofNat_toNat] at hc
      exact hc h
    · rwa [toLower_of_not_upper hlt]

theorem lowerChar_lowerChar (c : Char) : lowerChar (lowerChar c) = lowerChar c := by
  have hall : ∀ n : Fin 128, lowerChar (lowerChar (Char.ofNat n)) = lowerChar (Char.ofNat n) := by
    decide +kernel
  by_cases hlt : c.toNat < 128
  · have hc := hall ⟨c.toNat, hlt⟩
    rwa [Char.ofNat_toNat] at hc
  · have hself := toLower_of_not_upper hlt
    by_cases hkelvin : c = '\u212A'
    · subst hkelvin
      decide
    · have hlower : lowerChar c = c := by rw [lowerChar, if_neg hkelvin, hself]
      rw [hlower, hlower]

theorem lower_lower (s : String) : lower (lower s) = lower s := by
  simp only [lower, String.toList_ofList, List.map_map]
  congr 1
  exact List.map_congr_left fun c _ => lowerChar_lowerChar c

/-- The lower case of a text without white space around it has none either. -/
theorem strip_lower {s : String} (h : strip s = s) : strip (lower s) = lower s := by
  have hlist : trim isPySpace s.toList = s.toList := by
    rw [← String.toList_ofList (l := trim isPySpace s.toList)]
    exact congrArg String.toList h
  refine strip_eq_self (fun c hc => ?_) fun c hc => ?_
  · rw [lower, String.toList_ofList, List.head?_map] at hc
    obtain ⟨c₀, hc₀, rfl⟩ := Option.map_eq_some_iff.mp hc
    exact isPySpace_lowerChar (head_trim isPySpace s.toList (hlist.symm ▸ hc₀))
  · rw [lower, String.toList_ofList, List.getLast?_map] at hc
    obtain ⟨c₀, hc₀, rfl⟩ := Option.map_eq_some_iff.mp hc
    exact isPySpace_lowerChar (last_trim isPySpace s.toList (hlist.symm ▸ hc₀))

theorem trim_sublist (p : Char → Bool) (s : List Char) : (trim p s).Sublist s := by
  have hlast := (List.dropWhile_sublist p (l := (s.dropWhile p).reverse)).reverse
  rw [List.reverse_reverse] at hlast
  exact hlast.trans (List.dropWhile_sublist p)

theorem trim_cons (s : List Char) (hc : p c = true) : trim p (c :: s) = trim p s := by
  rw [trim, trim, List.dropWhile_cons_of_pos hc]

theorem trim_cons_of_not (s : List Char) (hc : p c = false) :
    trim p (c :: s) = c :: (s.reverse.dropWhile p).reverse := by
  have hself : (c :: s).dropWhile p = c :: s := by simp [hc]
  rw [trim, hself, List.reverse_cons, List.dropWhile_append]
  split
  case isTrue hempty => simp [List.isEmpty_iff.mp hempty, hc]
  case isFalse => simp

theorem trim_append_left (ht : ∀ c ∈ t, p c = true) (s : List Char) :
    trim p (t ++ s) = trim p s := by
  rw [trim, trim, List.dropWhile_append_of_pos ht]

theorem trim_append_right (ht : ∀ c ∈ t, p c = true) (s : List Char) :
    trim p (s ++ t) = trim p s := by
  rw [trim, trim, List.dropWhile_append]
  split
  case isTrue hempty =>
    have hnone : t.dropWhile p = [] := List.dropWhile_eq_nil_iff.mpr ht
    rw [hnone, List.isEmpty_iff.mp hempty]
  case isFalse =>
    rw [List.reverse_append, List.dropWhile_append_of_pos]
    intro c hc
    exact ht c (List.mem_reverse.mp hc)

/-- A text is its own trimming only when it neither starts nor ends in the set. -/
theorem ends_of_trim_eq_self (h : trim p s = s) :
    (∀ c ∈ s.head?, p c = false) ∧ ∀ c ∈ s.getLast?, p c = false := by
  constructor
  · intro c hc
    exact head_trim p s (h.symm ▸ hc)
  · intro c hc
    exact last_trim p s (h.symm ▸ hc)

/-- Trimming a part of a text gives the text only when the part is the text. -/
theorem eq_of_trim_eq (hsub : t.Sublist s) (h : trim p t = s) : t = s :=
  hsub.eq_of_length_le (h ▸ (trim_sublist p t).length_le)

theorem head_of_dropWhile_eq_self (h : s.dropWhile p = s) : ∀ c ∈ s.head?, p c = false := by
  intro c hc
  have hnot := List.head?_dropWhile_not p s
  rw [h, Option.mem_def.mp hc] at hnot
  simpa using hnot

theorem count_trim (hc : p c = false) (s : List Char) : (trim p s).count c = s.count c := by
  have hdrop : ∀ t : List Char, (t.dropWhile p).count c = t.count c := by
    intro t
    have hnone : (t.takeWhile p).count c = 0 := by
      refine List.count_eq_zero.mpr fun hmem => ?_
      rw [List.mem_takeWhile_imp hmem] at hc
      cases hc
    have hsplit := congrArg (List.count c) (List.takeWhile_append_dropWhile (p := p) (l := t))
    rw [List.count_append, hnone, Nat.zero_add] at hsplit
    exact hsplit
  rw [trim, List.count_reverse, hdrop, List.count_reverse, hdrop]

theorem mem_trim (hc : p c = false) : c ∈ trim p s ↔ c ∈ s := by
  rw [← List.count_pos_iff, count_trim hc, List.count_pos_iff]

theorem intercalate_append (sep : List Char) {xs ys : List (List Char)} (hxs : xs ≠ [])
    (hys : ys ≠ []) :
    sep.intercalate (xs ++ ys) = sep.intercalate xs ++ sep ++ sep.intercalate ys := by
  induction xs with
  | nil => exact (hxs rfl).elim
  | cons x xs ih =>
    cases xs with
    | nil =>
      rw [List.singleton_append, List.intercalate_cons_of_ne_nil hys,
        List.intercalate_singleton]
    | cons x' xs =>
      rw [List.cons_append, List.cons_append, List.intercalate_cons_cons, ← List.cons_append,
        ih (by simp), List.intercalate_cons_cons]
      simp only [List.append_assoc]

theorem not_mem_of_mem_splitOn {n : List Char} (h : n ∈ s.splitOn c) : c ∉ n := by
  induction s generalizing n with
  | nil =>
    rw [List.splitOn_nil, List.mem_singleton] at h
    rw [h]
    exact List.not_mem_nil
  | cons d s ih =>
    rw [List.splitOn_cons_eq_if_modifyHead] at h
    split at h
    · rcases List.mem_cons.mp h with rfl | h
      · exact List.not_mem_nil
      · exact ih h
    · rename_i hd
      cases hsplit : s.splitOn c with
      | nil =>
        rw [hsplit] at h
        cases h
      | cons m ms =>
        rw [hsplit] at h ih
        rcases List.mem_cons.mp h with rfl | h
        · intro hc
          rcases List.mem_cons.mp hc with rfl | hc
          · exact hd (beq_self_eq_true _)
          · exact ih List.mem_cons_self hc
        · exact ih (List.mem_cons_of_mem _ h)

theorem splitOn_append_right (ht : c ∉ t) (s : List Char) :
    List.Forall₂ (fun a b => b = a ∨ b = a ++ t) (s.splitOn c) ((s ++ t).splitOn c) := by
  induction s with
  | nil =>
    rw [List.nil_append, List.splitOn_eq_singleton ht, List.splitOn_nil]
    exact .cons (Or.inr rfl) .nil
  | cons x s ih =>
    rw [List.cons_append, List.splitOn_cons_eq_if_modifyHead, List.splitOn_cons_eq_if_modifyHead]
    split
    · exact .cons (Or.inl rfl) ih
    · generalize s.splitOn c = before at ih
      generalize (s ++ t).splitOn c = whole at ih
      cases ih with
      | nil => exact .nil
      | cons hhead htail =>
        refine .cons ?_ htail
        cases hhead with
        | inl h => exact Or.inl (congrArg (List.cons x) h)
        | inr h => exact Or.inr (congrArg (List.cons x) h)

/-- The pieces of a text are those of the trimmed text, up to trimming. -/
theorem map_trim_splitOn_trim (hc : p c = false) (s : List Char) :
    ((trim p s).splitOn c).map (trim p) = (s.splitOn c).map (trim p) := by
  have hright : ∀ u : List Char,
      ((u.reverse.dropWhile p).reverse.splitOn c).map (trim p) = (u.splitOn c).map (trim p) := by
    intro u
    let behind := (u.reverse.takeWhile p).reverse
    have hall : ∀ x ∈ behind, p x = true := by
      intro x hx
      exact List.mem_takeWhile_imp (List.mem_reverse.mp hx)
    have hnot : c ∉ behind := fun hmem => by
      rw [hall c hmem] at hc
      cases hc
    have hu : u = (u.reverse.dropWhile p).reverse ++ behind := by
      rw [← List.reverse_append, List.takeWhile_append_dropWhile, List.reverse_reverse]
    have hpieces := splitOn_append_right hnot (u.reverse.dropWhile p).reverse
    rw [← hu] at hpieces
    generalize (u.reverse.dropWhile p).reverse.splitOn c = before at hpieces
    generalize u.splitOn c = whole at hpieces
    induction hpieces with
    | nil => rfl
    | cons hhead _ ih =>
      rw [List.map_cons, List.map_cons, ih]
      cases hhead with
      | inl h => rw [h]
      | inr h => rw [h, trim_append_right hall]
  have hleft : ∀ u : List Char,
      ((u.dropWhile p).splitOn c).map (trim p) = (u.splitOn c).map (trim p) := by
    intro u
    induction u with
    | nil => rfl
    | cons x u ih =>
      cases hx : p x with
      | false => rw [List.dropWhile_cons_of_neg (by simp [hx])]
      | true =>
        have hne : (x == c) = false := by
          rw [beq_eq_false_iff_ne]
          rintro rfl
          rw [hx] at hc
          cases hc
        rw [List.dropWhile_cons_of_pos hx, ih, List.splitOn_cons_eq_if_modifyHead, hne]
        cases u.splitOn c with
        | nil => rfl
        | cons piece pieces =>
          simp only [Bool.false_eq_true, if_false, List.modifyHead_cons, List.map_cons,
            trim_cons piece hx]
  rw [trim, hright, hleft]

theorem splitFirst_append (hs : c ∉ s) (t : List Char) :
    splitFirst c (s ++ c :: t) = some (s, t) := by
  have hpos : ∀ x ∈ s, (x != c) = true := by
    intro x hx
    rw [bne_iff_ne]
    rintro rfl
    exact hs hx
  rw [splitFirst, if_pos (by simp), List.takeWhile_append_of_pos hpos,
    List.dropWhile_append_of_pos hpos]
  simp

theorem splitFirst_eq_none (hs : c ∉ s) : splitFirst c s = none :=
  if_neg hs

variable {a b : List Char}

theorem append_of_splitFirst (h : splitFirst c s = some (a, b)) : s = a ++ c :: b ∧ c ∉ a := by
  rw [splitFirst] at h
  split at h
  · rename_i hmem
    obtain ⟨front, behind, rfl, hfront⟩ := List.eq_append_cons_of_mem hmem
    have hsplit := splitFirst_append hfront behind
    rw [splitFirst, if_pos hmem] at hsplit
    rw [hsplit] at h
    obtain ⟨rfl, rfl⟩ := Prod.mk.inj (Option.some.inj h)
    exact ⟨rfl, hfront⟩
  · cases h

/-- Trimming a text does not change what stands before the separator, up to trimming. -/
theorem splitFirst_of_trim (hc : p c = false) (h : splitFirst c (trim p s) = some (a, b)) :
    ∃ a' b', splitFirst c s = some (a', b') ∧ trim p a' = trim p a := by
  obtain ⟨heq, ha⟩ := append_of_splitFirst h
  have hpieces := map_trim_splitOn_trim hc s
  rw [heq, List.splitOn_append_cons_self_of_not_mem ha, List.map_cons] at hpieces
  by_cases hmem : c ∈ s
  · obtain ⟨front, behind, rfl, hfront⟩ := List.eq_append_cons_of_mem hmem
    rw [List.splitOn_append_cons_self_of_not_mem hfront, List.map_cons] at hpieces
    exact ⟨front, behind, splitFirst_append hfront behind, (List.cons.inj hpieces).1.symm⟩
  · exact absurd ((trim_sublist p s).subset (heq ▸ by simp)) hmem

theorem toNat_of_isDigit (h : c.isDigit = true) : 48 ≤ c.toNat ∧ c.toNat ≤ 57 := by
  rw [Char.isDigit, Bool.and_eq_true, decide_eq_true_eq, decide_eq_true_eq] at h
  exact ⟨UInt32.le_iff_toNat_le.mp h.1, UInt32.le_iff_toNat_le.mp h.2⟩

theorem ne_of_isDigit {d : Char} (hc : c.isDigit = true) (hd : d.isDigit = false) : c ≠ d := by
  rintro rfl
  rw [hc] at hd
  cases hd

theorem isPySpace_of_isDigit (h : c.isDigit = true) : isPySpace c = false := by
  obtain ⟨hlow, hhigh⟩ := toNat_of_isDigit h
  simp only [isPySpace, isSpace, Bool.or_eq_false_iff, Bool.and_eq_false_iff, decide_eq_false_iff_not,
    beq_eq_false_iff_ne]
  omega

theorem isPySpace_of_mem_toString {n : Nat} (h : c ∈ (toString n).toList) :
    isPySpace c = false := by
  rw [Nat.toString_eq_repr, Nat.toList_repr] at h
  exact isPySpace_of_isDigit (Nat.isDigit_of_mem_toDigits (by decide) (by decide) h)

theorem toList_toString_ne_nil (n : Nat) : (toString n).toList ≠ [] := by
  rw [Nat.toString_eq_repr, Nat.toList_repr]
  exact Nat.toDigits_ne_nil

theorem strip_before_number {a : String} (n : Nat) (ha : a.toList ≠ [])
    (hhead : ∀ c ∈ a.toList.head?, isPySpace c = false) :
    strip (a ++ toString n) = a ++ toString n := by
  have hstrip := strip_around (m := "") ha (toList_toString_ne_nil n) hhead
    fun c hc => isPySpace_of_mem_toString (List.mem_of_getLast? hc)
  simpa using hstrip

def digitsValue (s : List Char) : Nat :=
  s.foldl (fun n c => 10 * n + (c.toNat - '0'.toNat)) 0

theorem parseInt_digits (hne : s ≠ []) (hall : ∀ c ∈ s, c.isDigit = true) :
    parseInt (String.ofList s) = some (digitsValue s : Int) := by
  have hparse : parseDigits s = some (digitsValue s) := by
    have hsplit : s.splitOn '_' = [s] := by
      refine List.splitOn_eq_singleton fun hmem => ?_
      exact ne_of_isDigit (hall _ hmem) (by decide) rfl
    have hall' : s.all Char.isDigit = true := List.all_eq_true.mpr hall
    rw [parseDigits, hsplit, List.filter_eq_self.mpr hall, if_pos, digitsValue]
    simp [hne, hall']
  have htrim : trim isPySpace s = s :=
    trim_eq_self (fun c hc => isPySpace_of_isDigit (hall c (List.mem_of_mem_head? hc)))
      fun c hc => isPySpace_of_isDigit (hall c (List.mem_of_mem_getLast? hc))
  rw [parseInt, String.toList_ofList, htrim]
  split
  · exact absurd rfl (ne_of_isDigit (hall '-' (by simp)) (by decide))
  · exact absurd rfl (ne_of_isDigit (hall '+' (by simp)) (by decide))
  · rw [hparse]
    rfl

end Text
