import Mathlib.Algebra.GroupWithZero.Nat
import Mathlib.Data.List.Infix

/-!
# Ignore rules

The rules of a `.gitignore` file, on relative paths as lists of names.

*Lines.*  Empty lines and comments are no rules. A rule with `!` in front takes paths
back. A rule with a slash at the end is for directories only. Without another slash
a rule is for names at any depth, and otherwise for paths from the top.

*Names.*  `*`, `?`, `[...]` and `\` have their meaning in names, and a name `**` stands
for directories of any number. Named character classes are left out. A pattern with
an unfinished set or escape matches nothing.

*Decision.*  The last rule that matches decides, and what is below an ignored
directory is ignored.

*Literal patterns.*  A pattern that matches a path and no path that diverges from it
is the text of the path, or longer (`core_of_unique`).
-/

namespace Gitignore

/-! ## Patterns of names -/

inductive Piece where
  | char (c : Char)
  | any
  | set (negated : Bool) (ranges : List (Char × Char))
  | star
deriving DecidableEq

def Piece.accepts : Piece → Char → Bool
  | .char c, d => c == d
  | .any, _ => true
  | .set negated ranges, d => ranges.any (fun r => r.1 ≤ d && d ≤ r.2) != negated
  | .star, _ => true

def setRanges : List Char → Option (List (Char × Char) × List Char)
  | [] => none
  | ']' :: text => some ([], text)
  | '\\' :: c :: text => (setRanges text).map fun r => ((c, c) :: r.1, r.2)
  | a :: '-' :: b :: text =>
    if b = ']' then some ([(a, a), ('-', '-')], text)
    else (setRanges text).map fun r => ((a, b) :: r.1, r.2)
  | c :: text => (setRanges text).map fun r => ((c, c) :: r.1, r.2)

/-- A set behind its bracket. A closing bracket in front belongs to the set. -/
def setItems (negated : Bool) : List Char → Option (Piece × List Char)
  | ']' :: text => (setRanges text).map fun r => (.set negated ((']', ']') :: r.1), r.2)
  | text => (setRanges text).map fun r => (.set negated r.1, r.2)

/-- A set behind its bracket, with its negation. -/
def parseSet : List Char → Option (Piece × List Char)
  | '!' :: text => setItems true text
  | '^' :: text => setItems true text
  | text => setItems false text

def piecesOf : Nat → List Char → Option (List Piece)
  | _, [] => some []
  | 0, _ :: _ => none
  | _ + 1, ['\\'] => none
  | k + 1, '\\' :: c :: text => (piecesOf k text).map (Piece.char c :: ·)
  | k + 1, '*' :: text => (piecesOf k text).map (Piece.star :: ·)
  | k + 1, '?' :: text => (piecesOf k text).map (Piece.any :: ·)
  | k + 1, '[' :: text =>
    match parseSet text with
    | some (piece, rest) => (piecesOf k rest).map (piece :: ·)
    | none => none
  | k + 1, c :: text => (piecesOf k text).map (Piece.char c :: ·)

def pieces (text : List Char) : Option (List Piece) := piecesOf text.length text

def matchName : List Piece → List Char → Bool
  | [], name => name.isEmpty
  | .star :: ps, name => name.tails.any (matchName ps)
  | _ :: _, [] => false
  | p :: ps, c :: name => p.accepts c && matchName ps name

/-! ## Patterns of paths -/

/-- A part of the pattern of a path. -/
inductive Segment where
  | stars
  | name (pieces : List Piece)
deriving DecidableEq

/-- The part of a text between slashes. -/
def parseSegment (text : List Char) : Option Segment :=
  if text = ['*', '*'] then some .stars else (pieces text).map .name

def matchPath : List Segment → List (List Char) → Bool
  | [], path => path.isEmpty
  | [.stars], path => !path.isEmpty
  | .stars :: s :: ss, path => path.tails.any (matchPath (s :: ss))
  | .name _ :: _, [] => false
  | .name ps :: ss, n :: path => matchName ps n && matchPath ss path

/-! ## Rules -/

structure Rule where
  negated : Bool
  directoryOnly : Bool
  segments : List Segment
deriving DecidableEq

def withoutLast (text : List Char) : List Char :=
  if text.getLast? = some '/' then text.dropLast else text

/-- A text without the slashes at its ends. -/
def core (text : List Char) : List Char :=
  match withoutLast text with
  | '/' :: body => body
  | body => body

def segments (text : List Char) : Option (List Segment) :=
  (((core text).splitOn '/').mapM parseSegment).map fun ss =>
    if '/' ∈ withoutLast text then ss else .stars :: ss

def parsePattern (negated : Bool) (text : List Char) : Option Rule :=
  (segments text).map fun ss => ⟨negated, text.getLast? = some '/', ss⟩

def parse : List Char → Option Rule
  | [] => none
  | '#' :: _ => none
  | '!' :: text => parsePattern true text
  | text => parsePattern false text

def Rule.matches (rule : Rule) (path : List (List Char)) (isDir : Bool) : Bool :=
  (isDir || !rule.directoryOnly) && matchPath rule.segments path

def decides (lines : List (List Char)) (path : List (List Char)) (isDir : Bool) : Bool :=
  match (lines.filterMap parse).reverse.find? (·.matches path isDir) with
  | some rule => !rule.negated
  | none => false

/-- A path is ignored, by itself or with a directory above it. -/
def ignored (lines : List (List Char)) (isDir : List (List Char) → Bool)
    (path : List (List Char)) : Bool :=
  path.inits.any fun q => !q.isEmpty && decides lines q (isDir q)

/-! ## Names -/

/-- A piece that matches texts of its own choice. -/
def Piece.IsWild : Piece → Prop
  | .any => True
  | .star => True
  | _ => False

/-- The characters that are not taken literally. -/
def isMeta (c : Char) : Bool := c == '*' || c == '?' || c == '[' || c == '\\'

def IsLiteral (text : List Char) : Prop := ∀ c ∈ text, isMeta c = false

instance (text : List Char) : Decidable (IsLiteral text) :=
  List.decidableBAll (fun c => isMeta c = false) text

/-- A name that comes from another one with some `a` and `b` put in. -/
def Varies (n n' : List Char) : Prop :=
  (∀ c ∈ n', c ∈ n ∨ c = 'a' ∨ c = 'b') ∧ ('a' ∈ n' ∨ 'b' ∈ n')

variable {n : List Char} {ps : List Piece} {p : List (List Char)} {f : Char → Char} {s : Segment}
    {ss : List Segment}

theorem varies_cons (c : Char) (n : List Char) (hc : c = 'a' ∨ c = 'b') : Varies n (c :: n) := by
  constructor
  · intro d hd
    rcases List.mem_cons.mp hd with h | h
    · exact .inr (h ▸ hc)
    · exact .inl h
  · rcases hc with h | h
    · exact .inl (by simp [h])
    · exact .inr (by simp [h])

theorem Varies.cons {n' : List Char} (h : Varies n n') (c : Char) : Varies (c :: n) (c :: n') := by
  constructor
  · intro d hd
    rcases List.mem_cons.mp hd with hd | hd
    · exact .inl (by simp [hd])
    · rcases h.1 d hd with hn | hab
      · exact .inl (List.mem_cons_of_mem _ hn)
      · exact .inr hab
  · rcases h.2 with h | h
    · exact .inl (List.mem_cons_of_mem _ h)
    · exact .inr (List.mem_cons_of_mem _ h)

theorem matchName_star_iff :
    matchName (.star :: ps) n = true ↔ ∃ u v, n = u ++ v ∧ matchName ps v = true := by
  rw [matchName, List.any_eq_true]
  constructor
  · rintro ⟨v, hv, hmatch⟩
    obtain ⟨u, hu⟩ := (List.mem_tails _ _).mp hv
    exact ⟨u, v, hu.symm, hmatch⟩
  · rintro ⟨u, v, hn, hmatch⟩
    exact ⟨v, (List.mem_tails _ _).mpr ⟨u, hn.symm⟩, hmatch⟩

theorem matchName_cons_iff {p : Piece} (hp : p ≠ .star) : matchName (p :: ps) n = true ↔
      ∃ c m, n = c :: m ∧ p.accepts c = true ∧ matchName ps m = true := by
  cases n with
  | nil => cases p <;> simp_all [matchName]
  | cons c m => cases p <;> simp_all [matchName]

section Wild

variable {f : Char → Char}

/-- Wild pieces match a second name, also up to letters that `f` takes for the same. -/
theorem exists_ne_of_wild (hf : f 'a' ≠ f 'b') {ps : List Piece} {n : List Char}
    (h : matchName ps n = true) (hwild : ∃ p ∈ ps, p.IsWild) :
    ∃ n', matchName ps n' = true ∧ n'.map f ≠ n.map f ∧ Varies n n' := by
  induction ps generalizing n with
  | nil =>
    obtain ⟨p, hp, -⟩ := hwild
    cases hp
  | cons p ps ih =>
    by_cases hstar : p = .star
    · subst hstar
      obtain ⟨u, v, rfl, hv⟩ := matchName_star_iff.mp h
      refine ⟨'a' :: (u ++ v), matchName_star_iff.mpr ⟨'a' :: u, v, rfl, hv⟩, ?_,
        varies_cons 'a' _ (.inl rfl)⟩
      intro heq
      have hlength := congrArg List.length heq
      simp at hlength
    obtain ⟨c, m, rfl, hc, hm⟩ := (matchName_cons_iff hstar).mp h
    by_cases hany : p = .any
    · subst hany
      -- One of the two letters differs from the character that was matched.
      have hother : ∃ x, (x = 'a' ∨ x = 'b') ∧ f x ≠ f c := by
        by_cases ha : f 'a' = f c
        · exact ⟨'b', .inr rfl, fun hb => hf (ha.trans hb.symm)⟩
        · exact ⟨'a', .inl rfl, ha⟩
      obtain ⟨x, hx, hne⟩ := hother
      refine ⟨x :: m, (matchName_cons_iff hstar).mpr ⟨x, m, rfl, rfl, hm⟩, ?_, ?_⟩
      · intro heq
        rw [List.map_cons, List.map_cons] at heq
        exact hne (List.cons.inj heq).1
      · constructor
        · intro d hd
          rcases List.mem_cons.mp hd with h | h
          · exact .inr (h ▸ hx)
          · exact .inl (List.mem_cons_of_mem _ h)
        · rcases hx with h | h
          · exact .inl (by simp [h])
          · exact .inr (by simp [h])
    have hrest : ∃ q ∈ ps, q.IsWild := by
      obtain ⟨q, hq, hwild⟩ := hwild
      rcases List.mem_cons.mp hq with rfl | hq
      · cases q with
        | any => exact absurd rfl hany
        | star => exact absurd rfl hstar
        | char => cases hwild
        | set => cases hwild
      · exact ⟨q, hq, hwild⟩
    obtain ⟨m', hm', hne, hvaries⟩ := ih hm hrest
    refine ⟨c :: m', (matchName_cons_iff hstar).mpr ⟨c, m', rfl, hc, hm'⟩, ?_, hvaries.cons c⟩
    intro heq
    rw [List.map_cons, List.map_cons] at heq
    exact hne (List.cons.inj heq).2

end Wild

variable {text : List Char}

theorem length_setRanges {r : List (Char × Char) × List Char} (h : setRanges text = some r) :
    r.2.length < text.length := by
  induction text using setRanges.induct generalizing r with
  | case1 => simp [setRanges] at h
  | case2 text =>
    rw [setRanges] at h
    cases h
    simp
  | case3 c text ih =>
    rw [setRanges] at h
    obtain ⟨r, hr, rfl⟩ := Option.map_eq_some_iff.mp h
    have hlt := ih hr
    simp only [List.length_cons]
    omega
  | case4 a text _ =>
    rw [setRanges, if_pos rfl] at h
    · cases h
      simp only [List.length_cons]
      omega
    all_goals assumption
  | case5 a b text _ _ hb ih =>
    rw [setRanges, if_neg hb] at h
    · obtain ⟨r, hr, rfl⟩ := Option.map_eq_some_iff.mp h
      have hlt := ih hr
      simp only [List.length_cons]
      omega
    all_goals assumption
  | case6 c text _ _ _ ih =>
    rw [setRanges] at h
    · obtain ⟨r, hr, rfl⟩ := Option.map_eq_some_iff.mp h
      have hlt := ih hr
      simp only [List.length_cons]
      omega
    all_goals assumption

variable {text rest : List Char}

theorem length_setItems {negated : Bool} {piece : Piece}
    (h : setItems negated text = some (piece, rest)) :
    rest.length < text.length ∧ ¬ piece.IsWild := by
  rw [setItems.eq_def] at h
  split at h
  · obtain ⟨r, hr, heq⟩ := Option.map_eq_some_iff.mp h
    cases heq
    have hlt := length_setRanges hr
    exact ⟨by simp only [List.length_cons]; omega, id⟩
  · obtain ⟨r, hr, heq⟩ := Option.map_eq_some_iff.mp h
    cases heq
    exact ⟨length_setRanges hr, id⟩

theorem length_parseSet {piece : Piece} (h : parseSet text = some (piece, rest)) :
    rest.length < text.length ∧ ¬ piece.IsWild := by
  rw [parseSet.eq_def] at h
  split at h
  · have hitems := length_setItems h
    exact ⟨by simp only [List.length_cons]; omega, hitems.2⟩
  · have hitems := length_setItems h
    exact ⟨by simp only [List.length_cons]; omega, hitems.2⟩
  · exact length_setItems h

/-- Without wild pieces a name is at most as long as its pattern, and of the same length
only if the pattern is the name itself. -/
theorem length_of_matchName {k : Nat} (h : piecesOf k text = some ps)
    (hmatch : matchName ps n = true) (hwild : ∀ p ∈ ps, ¬ p.IsWild) :
    n.length ≤ text.length ∧ (n.length = text.length → n = text ∧ IsLiteral text) := by
  induction k, text using piecesOf.induct generalizing ps n with
  | case1 k =>
    obtain rfl : ps = [] := by simpa [piecesOf] using h.symm
    obtain rfl : n = [] := by simpa [matchName] using hmatch
    exact ⟨Nat.le_refl _, fun _ => ⟨rfl, fun c hc => by cases hc⟩⟩
  | case2 c text => simp [piecesOf] at h
  | case3 k => simp [piecesOf] at h
  | case4 k c text ih =>
    rw [piecesOf] at h
    obtain ⟨qs, hqs, rfl⟩ := Option.map_eq_some_iff.mp h
    obtain ⟨d, m, rfl, -, hm⟩ := (matchName_cons_iff (by simp)).mp hmatch
    have hle := (ih hqs hm fun p hp => hwild p (List.mem_cons_of_mem _ hp)).1
    constructor
    · simp only [List.length_cons]
      omega
    · intro heq
      simp only [List.length_cons] at heq
      omega
  | case5 k text ih =>
    rw [piecesOf] at h
    obtain ⟨qs, -, rfl⟩ := Option.map_eq_some_iff.mp h
    exact absurd trivial (hwild .star List.mem_cons_self)
  | case6 k text ih =>
    rw [piecesOf] at h
    obtain ⟨qs, -, rfl⟩ := Option.map_eq_some_iff.mp h
    exact absurd trivial (hwild .any List.mem_cons_self)
  | case7 k text piece rest hset ih =>
    rw [piecesOf, hset] at h
    obtain ⟨qs, hqs, rfl⟩ := Option.map_eq_some_iff.mp h
    obtain ⟨hrest, hpiece⟩ := length_parseSet hset
    have hstar : piece ≠ .star := by
      intro heq
      exact hpiece (heq ▸ trivial)
    obtain ⟨d, m, rfl, -, hm⟩ := (matchName_cons_iff hstar).mp hmatch
    have hle := (ih hqs hm fun p hp => hwild p (List.mem_cons_of_mem _ hp)).1
    constructor
    · simp only [List.length_cons]
      omega
    · intro heq
      simp only [List.length_cons] at heq
      omega
  | case8 k text hset => simp [piecesOf, hset] at h
  | case9 k c text hne hescape hstar hany hset ih =>
    rw [piecesOf] at h
    · obtain ⟨qs, hqs, rfl⟩ := Option.map_eq_some_iff.mp h
      obtain ⟨d, m, rfl, hd, hm⟩ := (matchName_cons_iff (by simp)).mp hmatch
      obtain rfl : c = d := by simpa [Piece.accepts] using hd
      have hrest := ih hqs hm fun p hp => hwild p (List.mem_cons_of_mem _ hp)
      refine ⟨Nat.succ_le_succ hrest.1, fun heq => ?_⟩
      obtain ⟨rfl, hliteral⟩ := hrest.2 (Nat.succ.inj heq)
      refine ⟨rfl, fun e he => ?_⟩
      rcases List.mem_cons.mp he with rfl | he
      · have hslash : e ≠ '\\' := by
          intro hback
          cases m with
          | nil => exact hne hback rfl
          | cons c m => exact hescape c m hback rfl
        have hmark : e ≠ '*' ∧ e ≠ '?' ∧ e ≠ '[' := ⟨hstar, hany, hset⟩
        simp [isMeta, hmark, hslash]
      · exact hliteral e he
    all_goals assumption

theorem pieces_of_isLiteral (h : IsLiteral text) : pieces text = some (text.map .char) := by
  rw [pieces]
  induction text with
  | nil => rfl
  | cons c text ih =>
    have hc : c ≠ '*' ∧ c ≠ '?' ∧ c ≠ '[' ∧ c ≠ '\\' := by
      have hmeta := h c List.mem_cons_self
      simp only [isMeta, Bool.or_eq_false_iff, beq_eq_false_iff_ne] at hmeta
      exact ⟨hmeta.1.1.1, hmeta.1.1.2, hmeta.1.2, hmeta.2⟩
    rw [List.length_cons, piecesOf]
    · rw [ih fun d hd => h d (List.mem_cons_of_mem _ hd)]
      rfl
    · intro heq
      exact absurd heq hc.2.2.2
    · intro d rest heq
      exact absurd heq hc.2.2.2
    · exact hc.1
    · exact hc.2.1
    · exact hc.2.2.1

theorem matchName_chars_iff : matchName (text.map .char) n = true ↔ n = text := by
  induction text generalizing n with
  | nil => simp [matchName]
  | cons c text ih =>
    rw [List.map_cons, matchName_cons_iff (by simp)]
    constructor
    · rintro ⟨d, m, rfl, hd, hm⟩
      obtain rfl : c = d := by simpa [Piece.accepts] using hd
      rw [ih.mp hm]
    · rintro rfl
      exact ⟨c, text, rfl, by simp [Piece.accepts], ih.mpr rfl⟩

/-! ## Paths -/

/-- A segment that matches paths of its own choice. -/
def Segment.IsWild : Segment → Prop
  | .stars => True
  | .name ps => ∃ p ∈ ps, p.IsWild

/-- A path leaves another one at a name. -/
def Diverges (f : Char → Char) (p p' : List (List Char)) : Prop :=
  ∃ u n v n' v', p = u ++ n :: v ∧ p' = u ++ n' :: v' ∧ n'.map f ≠ n.map f

theorem Diverges.cons {p' : List (List Char)} (h : Diverges f p p') (n : List Char) :
    Diverges f (n :: p) (n :: p') := by
  obtain ⟨u, m, v, m', v', rfl, rfl, hne⟩ := h
  exact ⟨n :: u, m, v, m', v', rfl, rfl, hne⟩

theorem matchPath_stars_iff : matchPath (.stars :: s :: ss) p = true ↔
      ∃ u v, p = u ++ v ∧ matchPath (s :: ss) v = true := by
  rw [matchPath, List.any_eq_true]
  constructor
  · rintro ⟨v, hv, hmatch⟩
    obtain ⟨u, hu⟩ := (List.mem_tails _ _).mp hv
    exact ⟨u, v, hu.symm, hmatch⟩
  · rintro ⟨u, v, hp, hmatch⟩
    exact ⟨v, (List.mem_tails _ _).mpr ⟨u, hp.symm⟩, hmatch⟩

theorem matchPath_name_iff : matchPath (.name ps :: ss) p = true ↔
      ∃ n q, p = n :: q ∧ matchName ps n = true ∧ matchPath ss q = true := by
  cases p with
  | nil => simp [matchPath]
  | cons n q => simp [matchPath]

theorem ne_nil_of_matchPath (h : matchPath (s :: ss) p = true) : p ≠ [] := by
  induction ss generalizing s p with
  | nil =>
    cases s with
    | stars => simpa [matchPath] using h
    | name ps =>
      obtain ⟨n, q, rfl, -, -⟩ := matchPath_name_iff.mp h
      simp
  | cons s' ss ih =>
    cases s with
    | stars =>
      obtain ⟨u, v, rfl, hv⟩ := matchPath_stars_iff.mp h
      have hne := ih hv
      simp [hne]
    | name ps =>
      obtain ⟨n, q, rfl, -, -⟩ := matchPath_name_iff.mp h
      simp

variable {V : List Char → Prop}

/-- Wild segments match a second path, whose names are those of the first one or vary
them. -/
theorem exists_diverges_of_wild (hf : f 'a' ≠ f 'b') (hV : ∀ n n', V n → Varies n n' → V n')
    (h : matchPath ss p = true) (hp : ∀ n ∈ p, V n) (hwild : ∃ s ∈ ss, s.IsWild) :
    ∃ p', matchPath ss p' = true ∧ Diverges f p p' ∧ ∀ n ∈ p', V n := by
  have hlonger : ∀ n : List Char, ('a' :: n).map f ≠ n.map f := by
    intro n heq
    have hlength := congrArg List.length heq
    simp at hlength
  induction ss generalizing p with
  | nil =>
    obtain ⟨s, hs, -⟩ := hwild
    cases hs
  | cons s ss ih =>
    cases s with
    | stars =>
      -- Another directory in front.
      cases p with
      | nil => exact absurd rfl (ne_nil_of_matchPath h)
      | cons n q =>
        have hn : V ('a' :: n) := hV n _ (hp n List.mem_cons_self) (varies_cons _ _ (.inl rfl))
        refine ⟨('a' :: n) :: n :: q, ?_, ⟨[], n, q, 'a' :: n, n :: q, rfl, rfl, hlonger n⟩,
          ?_⟩
        · cases ss with
          | nil => rfl
          | cons s' ss =>
            obtain ⟨u, v, hsplit, hv⟩ := matchPath_stars_iff.mp h
            exact matchPath_stars_iff.mpr ⟨('a' :: n) :: u, v, by simp [hsplit], hv⟩
        · intro m hm
          rcases List.mem_cons.mp hm with rfl | hm
          · exact hn
          · exact hp m hm
    | name ps =>
      obtain ⟨n, q, rfl, hn, hq⟩ := matchPath_name_iff.mp h
      have hVq : ∀ m ∈ q, V m := fun m hm => hp m (List.mem_cons_of_mem _ hm)
      by_cases hps : ∃ piece ∈ ps, piece.IsWild
      · obtain ⟨n', hn', hne, hvaries⟩ := exists_ne_of_wild hf hn hps
        refine ⟨n' :: q, matchPath_name_iff.mpr ⟨n', q, rfl, hn', hq⟩,
          ⟨[], n, q, n', q, rfl, rfl, hne⟩, ?_⟩
        intro m hm
        rcases List.mem_cons.mp hm with rfl | hm
        · exact hV n _ (hp n List.mem_cons_self) hvaries
        · exact hVq m hm
      · have hrest : ∃ s ∈ ss, s.IsWild := by
          obtain ⟨s, hs, hwild⟩ := hwild
          rcases List.mem_cons.mp hs with rfl | hs
          · exact absurd hwild hps
          · exact ⟨s, hs, hwild⟩
        obtain ⟨q', hq', hdiverges, hVq'⟩ := ih hq hVq hrest
        refine ⟨n :: q', matchPath_name_iff.mpr ⟨n, q', rfl, hn, hq'⟩, hdiverges.cons n, ?_⟩
        intro m hm
        rcases List.mem_cons.mp hm with rfl | hm
        · exact hp m List.mem_cons_self
        · exact hVq' m hm

theorem segment_eq_name (h : parseSegment text = some s) (hwild : ¬ s.IsWild) :
    ∃ ps, s = .name ps ∧ pieces text = some ps ∧ ∀ p ∈ ps, ¬ p.IsWild := by
  rw [parseSegment] at h
  split at h
  · cases h
    exact absurd trivial hwild
  · obtain ⟨ps, hps, rfl⟩ := Option.map_eq_some_iff.mp h
    exact ⟨ps, rfl, hps, fun p hp hpiece => hwild ⟨p, hp, hpiece⟩⟩

/-- Without wild segments a path is at most as long as its pattern, and of the same length
only if the pattern is the path itself. -/
theorem length_of_matchPath {texts : List (List Char)} (h : texts.mapM parseSegment = some ss)
    (hmatch : matchPath ss p = true) (hwild : ∀ s ∈ ss, ¬ s.IsWild) :
    p.length = texts.length ∧ (p.map List.length).sum ≤ (texts.map List.length).sum ∧
      ((p.map List.length).sum = (texts.map List.length).sum →
        p = texts ∧ ∀ t ∈ texts, IsLiteral t) := by
  induction texts generalizing ss p with
  | nil =>
    obtain rfl : ss = [] := by simpa using h.symm
    obtain rfl : p = [] := by simpa [matchPath] using hmatch
    exact ⟨rfl, Nat.le_refl _, fun _ => ⟨rfl, fun t ht => by cases ht⟩⟩
  | cons text texts ih =>
    obtain ⟨s, hs, rest, hrest, rfl⟩ :
        ∃ s, parseSegment text = some s ∧ ∃ rest, texts.mapM parseSegment = some rest ∧
          s :: rest = ss := by
      simpa [Option.bind_eq_some_iff] using h
    obtain ⟨ps, rfl, hps, hpieces⟩ := segment_eq_name hs (hwild s List.mem_cons_self)
    obtain ⟨n, q, rfl, hn, hq⟩ := matchPath_name_iff.mp hmatch
    have hname := length_of_matchName hps hn hpieces
    have hpath := ih hrest hq fun s hs => hwild s (List.mem_cons_of_mem _ hs)
    refine ⟨by simp [hpath.1], ?_, ?_⟩
    · simp only [List.map_cons, List.sum_cons]
      omega
    · intro heq
      simp only [List.map_cons, List.sum_cons] at heq
      obtain ⟨rfl, hliteral⟩ := hname.2 (by omega)
      obtain ⟨rfl, hliterals⟩ := hpath.2.2 (by omega)
      refine ⟨rfl, fun t ht => ?_⟩
      rcases List.mem_cons.mp ht with rfl | ht
      · exact hliteral
      · exact hliterals t ht

theorem length_intercalate (p : List (List Char)) :
    (['/'].intercalate p).length = (p.map List.length).sum + (p.length - 1) := by
  induction p with
  | nil => rfl
  | cons n p ih =>
    cases p with
    | nil => simp
    | cons m p =>
      rw [List.intercalate_cons_cons, List.length_append, List.length_append, ih]
      simp
      omega

/-! ## Rules -/

/-- The only path of a pattern is at most as long as what is between the slashes at its
ends, and of the same length only if it is that text. -/
theorem core_of_unique (hf : f 'a' ≠ f 'b') (hV : ∀ n n', V n → Varies n n' → V n')
    (hss : segments text = some ss) (h : matchPath ss p = true) (hp : ∀ n ∈ p, V n)
    (hunique : ∀ p', matchPath ss p' = true → (∀ n ∈ p', V n) → ¬ Diverges f p p') :
    '/' ∈ withoutLast text ∧ (['/'].intercalate p).length ≤ (core text).length ∧
      ((['/'].intercalate p).length = (core text).length →
        ['/'].intercalate p = core text ∧ ∀ n ∈ p, IsLiteral n) := by
  have hwild : ∀ s ∈ ss, ¬ s.IsWild := by
    intro s hs hwild
    obtain ⟨p', hp', hdiverges, hVp'⟩ := exists_diverges_of_wild hf hV h hp ⟨s, hs, hwild⟩
    exact hunique p' hp' hVp' hdiverges
  rw [segments] at hss
  obtain ⟨parts, hparts, hanchored⟩ := Option.map_eq_some_iff.mp hss
  by_cases hslash : '/' ∈ withoutLast text
  · rw [if_pos hslash] at hanchored
    subst hanchored
    have hlength := length_of_matchPath hparts h hwild
    have hcore : (core text).length =
        (((core text).splitOn '/').map List.length).sum + (((core text).splitOn '/').length - 1) := by
      rw [← length_intercalate, List.intercalate_splitOn]
    rw [length_intercalate, hcore, hlength.1]
    refine ⟨hslash, by omega, fun heq => ?_⟩
    obtain ⟨rfl, hliteral⟩ := hlength.2.2 (by omega)
    exact ⟨List.intercalate_splitOn _, hliteral⟩
  · rw [if_neg hslash] at hanchored
    subst hanchored
    exact absurd trivial (hwild .stars List.mem_cons_self)

theorem matchPath_of_isLiteral (hp : p ≠ []) (hnames : ∀ n ∈ p, '/' ∉ n)
    (hliteral : ∀ n ∈ p, IsLiteral n) (hcore : core text = ['/'].intercalate p)
    (hslash : '/' ∈ withoutLast text) :
    ∃ ss, segments text = some ss ∧ ∀ q, matchPath ss q = true ↔ q = p := by
  have hparts : ∀ p : List (List Char), (∀ n ∈ p, IsLiteral n) →
      p.mapM parseSegment = some (p.map fun n => .name (n.map .char)) := by
    intro p hliteral
    induction p with
    | nil => rfl
    | cons n p ih =>
      have hsegment : parseSegment n = some (.name (n.map .char)) := by
        have hn := hliteral n List.mem_cons_self
        rw [parseSegment, if_neg, pieces_of_isLiteral hn]
        · rfl
        · rintro rfl
          exact absurd (hn '*' List.mem_cons_self) (by decide)
      simp [hsegment, ih fun m hm => hliteral m (List.mem_cons_of_mem _ hm)]
  have hmatch : ∀ p q : List (List Char),
      matchPath (p.map fun n => .name (n.map .char)) q = true ↔ q = p := by
    intro p
    induction p with
    | nil => simp [matchPath]
    | cons n p ih =>
      intro q
      rw [List.map_cons, matchPath_name_iff]
      constructor
      · rintro ⟨m, q, rfl, hm, hq⟩
        rw [matchName_chars_iff.mp hm, (ih q).mp hq]
      · rintro rfl
        exact ⟨n, p, rfl, matchName_chars_iff.mpr rfl, (ih p).mpr rfl⟩
  refine ⟨_, ?_, hmatch p⟩
  rw [segments, hcore, List.splitOn_intercalate _ hnames hp, hparts p hliteral, Option.map_some,
    if_pos hslash]

theorem find?_reverse_isSome {rules : List Rule} {q : List (List Char)} {d : Bool}
    (hpositive : ∀ rule ∈ rules, rule.negated = false) :
    (match rules.reverse.find? (·.matches q d) with
      | some rule => !rule.negated
      | none => false) = true ↔ ∃ rule ∈ rules, rule.matches q d = true := by
  cases hfind : rules.reverse.find? (·.matches q d) with
  | none =>
    have hnone := List.find?_eq_none.mp hfind
    constructor
    · intro h
      cases h
    · rintro ⟨rule, hrule, hmatch⟩
      exact absurd hmatch (hnone rule (List.mem_reverse.mpr hrule))
  | some rule =>
    have hrule := List.mem_reverse.mp (List.mem_of_find?_eq_some hfind)
    constructor
    · intro _
      exact ⟨rule, hrule, List.find?_some (p := fun x : Rule => x.matches q d) hfind⟩
    · intro _
      simp [hpositive rule hrule]

variable {isDir : List (List Char) → Bool} {path : List (List Char)}

theorem ignored_iff {lines : List (List Char)}
    (hpositive : ∀ line ∈ lines, ∀ rule, parse line = some rule → rule.negated = false) :
    ignored lines isDir path = true ↔ ∃ line ∈ lines, ∃ rule, parse line = some rule ∧
        ∃ q, q ≠ [] ∧ q <+: path ∧ rule.matches q (isDir q) = true := by
  have hrules : ∀ rule ∈ lines.filterMap parse, rule.negated = false := by
    intro rule hrule
    obtain ⟨line, hline, hparse⟩ := List.mem_filterMap.mp hrule
    exact hpositive line hline rule hparse
  rw [ignored, List.any_eq_true]
  constructor
  · rintro ⟨q, hq, hdecides⟩
    rw [Bool.and_eq_true, decides, find?_reverse_isSome hrules] at hdecides
    obtain ⟨hne, rule, hrule, hmatch⟩ := hdecides
    obtain ⟨line, hline, hparse⟩ := List.mem_filterMap.mp hrule
    exact ⟨line, hline, rule, hparse, q, by simpa using hne, (List.mem_inits _ _).mp hq, hmatch⟩
  · rintro ⟨line, hline, rule, hparse, q, hne, hq, hmatch⟩
    refine ⟨q, (List.mem_inits _ _).mpr hq, ?_⟩
    rw [Bool.and_eq_true, decides, find?_reverse_isSome hrules]
    exact ⟨by simpa using hne, rule, List.mem_filterMap.mpr ⟨line, hline, hparse⟩, hmatch⟩

theorem negated_of_ignored {line : List Char} (h : ignored [line] isDir path = true) :
    ∃ rule, parse line = some rule ∧ rule.negated = false := by
  rw [ignored, List.any_eq_true] at h
  obtain ⟨q, -, hdecides⟩ := h
  rw [Bool.and_eq_true, decides] at hdecides
  cases hparse : parse line with
  | none => simp [hparse] at hdecides
  | some rule =>
    refine ⟨rule, rfl, ?_⟩
    simp only [List.filterMap_cons, hparse, List.filterMap_nil, List.reverse_singleton,
      List.find?_singleton] at hdecides
    by_cases hmatch : rule.matches q (isDir q) = true
    · simpa [hmatch] using hdecides.2
    · simp [hmatch] at hdecides

end Gitignore
