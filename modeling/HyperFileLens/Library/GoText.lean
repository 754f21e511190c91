import Mathlib
import HyperFileLens.Library.Text

/-!
# Functions of Go's `strings` and `strconv`

*Fields.*  `fields` is what stands between white space. `fields_word` takes the first word
off a text that was put together from words and blanks.

*Index.*  `index` is the first place of a text in another one. A text without a separator
that stands behind the separator is found there or somewhere in front of the separator
(`index_before`).

*Numbers.*  `parseInt64` reads a number in base 10 the way `ParseInt` does: it returns zero
for what is no number, and the nearest number of 64 bits for what has too many digits.
`parseInt64_itoa` reads back what `itoa` writes.

*Quoting.*  `quote` escapes the quotation mark, the backslash and what is not printable. A
text without these is only put between quotation marks, and any other one gets longer
(`escapeAll_eq_iff`). Which characters are printable is an argument.
-/

namespace GoText

/-! ## Fields -/

def fields (s : List Char) : List (List Char) :=
  (s.splitOnP Text.isSpace).filter fun w => !w.isEmpty

/-- A word: not empty, and without white space. -/
structure Word (w : List Char) : Prop where
  ne_nil : w ≠ []
  visible : ∀ c ∈ w, Text.isSpace c = false

variable {n : Nat} {c : Char} {s needle : List Char} {w : List Char}

theorem Word.of_all (hne : w ≠ []) (hall : (w.all fun c => !Text.isSpace c) = true) : Word w where
  ne_nil := hne
  visible c hc := by simpa using List.all_eq_true.mp hall c hc

def blanks (n : Nat) : List Char := List.replicate n ' '

theorem isSpace_of_mem_blanks (h : c ∈ blanks n) : Text.isSpace c = true := by
  cases List.eq_of_mem_replicate h
  rfl

theorem fields_cons_space (hc : Text.isSpace c = true) (s : List Char) :
    fields (c :: s) = fields s := by
  have hnone : ∀ d ∈ ([] : List Char), Text.isSpace d = false := by simp
  have hsplit := List.splitOnP_append_cons_of_forall_mem hnone c hc s
  rw [List.nil_append] at hsplit
  rw [fields, hsplit, List.filter_cons_of_neg (by simp)]
  rfl

theorem fields_blanks (n : Nat) (s : List Char) : fields (blanks n ++ s) = fields s := by
  induction n with
  | zero => rfl
  | succ n ih =>
    rw [blanks, List.replicate_succ, List.cons_append, fields_cons_space rfl]
    exact ih

theorem blanks_append_blank (n : Nat) (s : List Char) :
    blanks n ++ ' ' :: s = ' ' :: (blanks n ++ s) := by
  induction n with
  | zero => rfl
  | succ n ih =>
    rw [blanks, List.replicate_succ, List.cons_append, List.cons_append]
    exact congrArg _ ih

theorem fields_word (hw : Word w) (s : List Char) : fields (w ++ ' ' :: s) = w :: fields s := by
  rw [fields, List.splitOnP_append_cons_of_forall_mem hw.visible ' ' rfl,
    List.filter_cons_of_pos]
  · rfl
  · cases hw' : w with
    | nil => exact (hw.ne_nil hw').elim
    | cons c w => rfl

theorem fields_ne_nil (hc : c ∈ s) (hv : Text.isSpace c = false) : fields s ≠ [] := by
  induction s with
  | nil => cases hc
  | cons d s ih =>
    cases hd : Text.isSpace d with
    | true =>
      rw [fields_cons_space hd]
      rcases List.mem_cons.mp hc with rfl | hc
      · rw [hv] at hd
        cases hd
      · exact ih hc
    | false =>
      rw [fields, List.splitOnP_cons_eq_if_modifyHead, hd]
      cases hsplit : s.splitOnP Text.isSpace with
      | nil => exact (List.splitOnP_ne_nil _ _ hsplit).elim
      | cons w ws =>
        rw [if_neg Bool.false_ne_true, List.modifyHead_cons,
          List.filter_cons_of_pos rfl]
        exact List.cons_ne_nil _ _

/-! ## Index -/

def index (needle : List Char) : List Char → Option Nat
  | [] => if needle.isEmpty then some 0 else none
  | c :: s => if needle.isPrefixOf (c :: s) then some 0 else (index needle s).map (· + 1)

theorem prefix_of_index (h : index needle s = some n) : needle <+: s.drop n := by
  induction s generalizing n with
  | nil =>
    obtain ⟨hempty, h⟩ := Option.ite_none_right_eq_some.mp h
    cases h
    rw [List.isEmpty_iff.mp hempty]
    exact List.nil_prefix
  | cons c s ih =>
    rw [index] at h
    split at h
    · rename_i hprefix
      cases h
      exact List.isPrefixOf_iff_prefix.mp hprefix
    · obtain ⟨m, hm, rfl⟩ := Option.map_eq_some_iff.mp h
      exact ih hm

theorem index_append (front behind : List Char) :
    ∃ n ≤ front.length, index needle (front ++ needle ++ behind) = some n := by
  induction front with
  | nil =>
    refine ⟨0, Nat.le_refl _, ?_⟩
    rw [List.nil_append]
    cases hs : needle ++ behind with
    | nil =>
      rw [List.append_eq_nil_iff] at hs
      rw [hs.1]
      rfl
    | cons c s =>
      rw [index, if_pos]
      rw [List.isPrefixOf_iff_prefix, ← hs]
      exact List.prefix_append _ _
  | cons c front ih =>
    obtain ⟨n, hn, hindex⟩ := ih
    rw [List.cons_append, List.cons_append, index]
    split
    · exact ⟨0, Nat.zero_le _, rfl⟩
    · rw [hindex]
      exact ⟨n + 1, Nat.succ_le_succ hn, rfl⟩

/-- What is found in front of its place behind a separator ends in front of the separator. -/
theorem index_before {front behind : List Char} {sep : Char} (hsep : sep ∉ needle)
    (h : index needle (front ++ sep :: needle ++ behind) = some n) (hn : n < front.length + 1) :
    n + needle.length ≤ front.length := by
  by_contra hlt
  have hprefix := prefix_of_index h
  have hi : front.length - n < needle.length := by omega
  -- the separator would be a character of the text
  have hget := hprefix.getElem hi
  rw [List.getElem_drop, List.getElem_append_left (by simp; omega),
    List.getElem_append_right (by omega)] at hget
  have hzero : n + (front.length - n) - front.length = 0 := by omega
  simp only [hzero, List.getElem_cons_zero] at hget
  exact hsep (hget ▸ List.getElem_mem hi)

/-! ## Numbers -/

/-- What `ParseInt` complains about. -/
inductive NumError where
  | malformed
  | range
  deriving DecidableEq

/-- The loop of `ParseUint` in base 10, with the number read so far. -/
def parseUint64 (n : Nat) : List Char → Except (Nat × NumError) Nat
  | [] => .ok n
  | c :: s =>
    if !c.isDigit then .error (0, .malformed)
    else if (2 ^ 64 - 1) / 10 + 1 ≤ n then .error (2 ^ 64 - 1, .range)
    else if 2 ^ 64 ≤ 10 * n + (c.toNat - '0'.toNat) then .error (2 ^ 64 - 1, .range)
    else parseUint64 (10 * n + (c.toNat - '0'.toNat)) s

def signed (negative : Bool) (magnitude : Nat) : Int × Option NumError :=
  if !negative && 2 ^ 63 ≤ magnitude then (2 ^ 63 - 1, some .range)
  else if negative && 2 ^ 63 < magnitude then (-2 ^ 63, some .range)
  else (if negative then -magnitude else magnitude, none)

/-- `strconv.ParseInt` in base 10, of the digits behind the sign. -/
def parseMagnitude (negative : Bool) (digits : List Char) : Int × Option NumError :=
  if digits.isEmpty then (0, some .malformed)
  else
    match parseUint64 0 digits with
    | .ok n => signed negative n
    | .error (_, .malformed) => (0, some .malformed)
    | .error (n, .range) => ((signed negative n).1, some .range)

/-- `strconv.ParseInt` in base 10 with 64 bits: the number, also where it complains. -/
def parseInt64 : List Char → Int × Option NumError
  | '-' :: digits => parseMagnitude true digits
  | '+' :: digits => parseMagnitude false digits
  | digits => parseMagnitude false digits

def itoa (n : Int) : List Char :=
  if n < 0 then '-' :: Nat.toDigits 10 n.natAbs else Nat.toDigits 10 n.natAbs

def parseDigits (s : List Char) : Option Nat :=
  if s.isEmpty || !s.all Char.isDigit then none else some (Nat.ofDigitChars 10 s 0)

/-- `strconv.Atoi` of an `int` without bounds. -/
def atoi : List Char → Option Int
  | '-' :: digits => (parseDigits digits).map fun n => -(n : Int)
  | '+' :: digits => (parseDigits digits).map fun n => (n : Int)
  | digits => (parseDigits digits).map fun n => (n : Int)

theorem parseUint64_digits (hdigits : ∀ c ∈ s, c.isDigit = true)
    (h : Nat.ofDigitChars 10 s n < 2 ^ 64) : parseUint64 n s = .ok (Nat.ofDigitChars 10 s n) := by
  induction s generalizing n with
  | nil => rfl
  | cons c s ih =>
    have hc := hdigits c List.mem_cons_self
    rw [Nat.ofDigitChars_cons] at h ⊢
    have hle : 10 * n + (c.toNat - '0'.toNat) ≤
        Nat.ofDigitChars 10 s (10 * n + (c.toNat - '0'.toNat)) := by
      rw [Nat.ofDigitChars_eq_ofDigitChars_zero]
      exact (Nat.le_mul_of_pos_left _ (Nat.pow_pos (by decide))).trans (Nat.le_add_right _ _)
    rw [parseUint64, hc, Bool.not_true, if_neg Bool.false_ne_true, if_neg (by omega),
      if_neg (by omega)]
    exact ih (fun d hd => hdigits d (List.mem_cons_of_mem _ hd)) h

theorem parseMagnitude_toDigits (negative : Bool) (h : n < 2 ^ 64) :
    parseMagnitude negative (Nat.toDigits 10 n) = signed negative n := by
  have hvalue : Nat.ofDigitChars 10 (Nat.toDigits 10 n) 0 = n := Nat.ofDigitChars_ten_toDigits
  have hparse := parseUint64_digits (n := 0)
    (fun c hc => Nat.isDigit_of_mem_toDigits (by decide) (by decide) hc) (hvalue.symm ▸ h)
  rw [hvalue] at hparse
  rw [parseMagnitude, if_neg (by simp [Nat.toDigits_ne_nil]), hparse]

theorem toDigits_not_signed (n : Nat) (hc : c.isDigit = false) (s : List Char) :
    Nat.toDigits 10 n ≠ c :: s := by
  intro h
  have hdigit := Nat.isDigit_of_mem_toDigits (b := 10) (n := n) (by decide) (by decide)
    (h ▸ List.mem_cons_self)
  rw [hc] at hdigit
  cases hdigit

theorem parseInt64_itoa {n : Int} (hlow : -2 ^ 63 ≤ n) (hhigh : n < 2 ^ 63) :
    parseInt64 (itoa n) = (n, none) := by
  rw [itoa]
  split
  · rename_i hneg
    show parseMagnitude true _ = _
    rw [parseMagnitude_toDigits true (by omega), signed, if_neg (by simp),
      if_neg (by simp; omega), if_pos rfl]
    congr
    omega
  · rename_i hneg
    have hfirst : parseInt64 (Nat.toDigits 10 n.natAbs) =
        parseMagnitude false (Nat.toDigits 10 n.natAbs) := by
      rw [parseInt64]
      · exact toDigits_not_signed _ rfl
      · exact toDigits_not_signed _ rfl
    rw [hfirst, parseMagnitude_toDigits false (by omega), signed,
      if_neg (by simp; omega), if_neg (by simp), if_neg (by simp)]
    congr
    omega

theorem parseDigits_toDigits (n : Nat) : parseDigits (Nat.toDigits 10 n) = some n := by
  have hall : (Nat.toDigits 10 n).all Char.isDigit = true :=
    List.all_eq_true.mpr fun c hc => Nat.isDigit_of_mem_toDigits (by decide) (by decide) hc
  rw [parseDigits, hall, if_neg (by simp [Nat.toDigits_ne_nil]), Nat.ofDigitChars_ten_toDigits]

theorem atoi_itoa (n : Nat) : atoi (itoa n) = some (n : Int) := by
  rw [itoa, if_neg (by omega), Int.natAbs_natCast, atoi, parseDigits_toDigits]
  · rfl
  · exact toDigits_not_signed n rfl
  · exact toDigits_not_signed n rfl

theorem word_itoa (n : Int) : Word (itoa n) := by
  have hdigits : ∀ c ∈ Nat.toDigits 10 n.natAbs, Text.isSpace c = false := by
    intro c hc
    have hpy := Text.isPySpace_of_isDigit (Nat.isDigit_of_mem_toDigits (by decide) (by decide) hc)
    exact (Bool.or_eq_false_iff.mp hpy).1
  rw [itoa]
  split
  · refine ⟨List.cons_ne_nil _ _, fun c hc => ?_⟩
    rcases List.mem_cons.mp hc with rfl | hc
    · rfl
    · exact hdigits c hc
  · exact ⟨Nat.toDigits_ne_nil, hdigits⟩

/-! ## Quoting -/

def hexDigits (width n : Nat) : List Char :=
  (List.range width).reverse.map fun i => Nat.digitChar (n / 16 ^ i % 16)

/-- What stands behind the backslash for a character that is not printable. -/
def escapeUnprintable (c : Char) : List Char :=
  if c.toNat = 7 then ['a']
  else if c.toNat = 8 then ['b']
  else if c.toNat = 12 then ['f']
  else if c = '\n' then ['n']
  else if c = '\r' then ['r']
  else if c = '\t' then ['t']
  else if c.toNat = 11 then ['v']
  else if c.toNat < 32 ∨ c.toNat = 127 then 'x' :: hexDigits 2 c.toNat
  else if c.toNat < 65536 then 'u' :: hexDigits 4 c.toNat
  else 'U' :: hexDigits 8 c.toNat

theorem escapeUnprintable_ne_nil (c : Char) : escapeUnprintable c ≠ [] := by
  rw [escapeUnprintable]
  repeat' split
  all_goals exact List.cons_ne_nil _ _

theorem newline_notMem_hexDigits (width n : Nat) : '\n' ∉ hexDigits width n := by
  have hdigits : ∀ d < 16, Nat.digitChar d ≠ '\n' := by decide
  intro h
  obtain ⟨i, -, hi⟩ := List.mem_map.mp h
  exact hdigits _ (Nat.mod_lt _ (by omega)) hi

theorem newline_notMem_escapeUnprintable (c : Char) : '\n' ∉ escapeUnprintable c := by
  have hcons : ∀ x width, x ≠ '\n' → '\n' ∉ x :: hexDigits width c.toNat := by
    intro x width hx h
    rcases List.mem_cons.mp h with rfl | h
    · exact hx rfl
    · exact newline_notMem_hexDigits width c.toNat h
  rw [escapeUnprintable]
  repeat' split
  all_goals first | exact hcons _ _ (by decide) | decide

section Quote

variable (isPrint : Char → Bool)

/-- How a character is written between quotation marks. -/
def escapeRune (c : Char) : List Char :=
  if c = '"' ∨ c = '\\' then ['\\', c]
  else if isPrint c then [c]
  else '\\' :: escapeUnprintable c

/-- `strconv.Quote` without its quotation marks. -/
def escapeAll (s : List Char) : List Char := s.flatMap (escapeRune isPrint)

/-- `strconv.Quote`, and `%q`. -/
def quote (s : List Char) : List Char := '"' :: escapeAll isPrint s ++ ['"']

def isPlain (c : Char) : Bool := isPrint c && c != '"' && c != '\\'

variable {isPrint} {c : Char}

theorem escapeRune_of_isPlain (h : isPlain isPrint c = true) : escapeRune isPrint c = [c] := by
  simp only [isPlain, Bool.and_eq_true, bne_iff_ne] at h
  rw [escapeRune, if_neg (by simp [h.1.2, h.2]), if_pos h.1.1]

theorem exists_of_not_isPlain (h : isPlain isPrint c = false) :
    ∃ s, s ≠ [] ∧ escapeRune isPrint c = '\\' :: s := by
  rw [escapeRune]
  split
  · exact ⟨[c], by simp, rfl⟩
  · rename_i hmarks
    obtain ⟨hquote, hslash⟩ := not_or.mp hmarks
    have hprint : ¬isPrint c = true := by
      simpa [isPlain, hquote, hslash] using h
    rw [if_neg hprint]
    exact ⟨_, escapeUnprintable_ne_nil c, rfl⟩

theorem length_escapeRune_pos (c : Char) : 0 < (escapeRune isPrint c).length := by
  cases h : isPlain isPrint c with
  | true =>
    rw [escapeRune_of_isPlain h]
    exact Nat.one_pos
  | false =>
    obtain ⟨s, -, hs⟩ := exists_of_not_isPlain h
    rw [hs]
    exact Nat.succ_pos _

theorem length_le_length_escapeAll (s : List Char) : s.length ≤ (escapeAll isPrint s).length := by
  induction s with
  | nil => exact Nat.le_refl 0
  | cons c s ih =>
    have hpos := @length_escapeRune_pos isPrint c
    rw [escapeAll, List.flatMap_cons, List.length_append, List.length_cons]
    rw [escapeAll] at ih
    omega

theorem escapeAll_eq_iff {s : List Char} :
    escapeAll isPrint s = s ↔ ∀ c ∈ s, isPlain isPrint c = true := by
  induction s with
  | nil => exact iff_of_true rfl (by simp)
  | cons c s ih =>
    rw [List.forall_mem_cons, ← ih, escapeAll, List.flatMap_cons, ← escapeAll]
    cases h : isPlain isPrint c with
    | true =>
      rw [escapeRune_of_isPlain h, List.singleton_append]
      simp
    | false =>
      obtain ⟨t, ht, hescape⟩ := exists_of_not_isPlain h
      have hle := @length_le_length_escapeAll isPrint s
      have hpos := List.length_pos_iff.mpr ht
      refine iff_of_false (fun heq => ?_) (fun hand => Bool.noConfusion hand.1)
      have hlen := congrArg List.length heq
      rw [hescape, List.length_append, List.length_cons, List.length_cons] at hlen
      omega

theorem newline_notMem_quote {s : List Char} (h : '\n' ∉ s) : '\n' ∉ quote isPrint s := by
  have hrune : ∀ c, '\n' ≠ c → '\n' ∉ escapeRune isPrint c := by
    intro c hc
    rw [escapeRune]
    split
    · simp [hc]
    · split
      · simp [hc]
      · intro hmem
        rcases List.mem_cons.mp hmem with hslash | hmem
        · cases hslash
        · exact newline_notMem_escapeUnprintable c hmem
  intro hmem
  rw [quote, List.mem_append, List.mem_cons, List.mem_singleton] at hmem
  rcases hmem with (hmark | hmem) | hmark
  · cases hmark
  · obtain ⟨c, hc, hmem⟩ := List.mem_flatMap.mp hmem
    exact hrune c (fun heq => h (heq ▸ hc)) hmem
  · cases hmark

end Quote

end GoText
