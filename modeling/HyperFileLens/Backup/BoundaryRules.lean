import HyperFileLens.Backup.BoundaryRoots

/-!
# What the rule of a root matches

A rule is made of the relative path of its root, as a text. When the names are plain
the rule matches the path of the root and no other path of a tree (`marks_pattern`).

*Plain names.*  A name is taken literally when it has none of the characters of
patterns. The rule of the agent root has no slash in front, so its text must not
start like a comment or a negation, and what the policy trims must not be part of it.
-/

namespace HyperFileLens.Backup

open FileTree Gitignore

/-! ## Texts of paths -/

def slashText (p : Path) : List Char := ['/'].intercalate p

variable {p : Path} {c : Char}

theorem slashText_cons_cons (n m : Name) (p : Path) :
    slashText (n :: m :: p) = n ++ '/' :: slashText (m :: p) := by
  rw [slashText, List.intercalate_cons_cons]
  simp [slashText]

/-- Names that a text with slashes keeps apart. -/
def IsSolid (p : Path) : Prop := ∀ n ∈ p, n ≠ [] ∧ '/' ∉ n

variable {host : Host}

theorem Host.IsPath.isSolid (h : host.IsPath p) : IsSolid p :=
  fun n hn => ⟨(h n hn).1.1, (h n hn).2.1⟩

theorem slashText_ne_nil (hp : IsSolid p) (hne : p ≠ []) : slashText p ≠ [] := by
  cases p with
  | nil => exact absurd rfl hne
  | cons n p =>
    have hn := (hp n List.mem_cons_self).1
    cases p with
    | nil => simpa [slashText] using hn
    | cons m p => simp [slashText_cons_cons]

theorem head_slashText (hp : IsSolid p) (hc : c ∈ (slashText p).head?) : c ≠ '/' := by
  cases p with
  | nil => cases hc
  | cons n p =>
    obtain ⟨hn, hslash⟩ := hp n List.mem_cons_self
    have hmem : c ∈ n.head? := by
      cases p with
      | nil => simpa [slashText] using hc
      | cons m p => simpa [slashText_cons_cons, List.head?_append_of_ne_nil _ hn] using hc
    rintro rfl
    exact hslash (List.mem_of_head? hmem)

theorem last_slashText (hp : IsSolid p) (hc : c ∈ (slashText p).getLast?) : c ≠ '/' := by
  induction p with
  | nil => cases hc
  | cons n p ih =>
    have hslash := (hp n List.mem_cons_self).2
    have hrest : IsSolid p := fun m hm => hp m (List.mem_cons_of_mem _ hm)
    cases p with
    | nil =>
      rintro rfl
      have hmem : '/' ∈ n.getLast? := by simpa [slashText] using hc
      exact hslash (List.mem_of_getLast? hmem)
    | cons m p =>
      refine ih hrest ?_
      have hne := slashText_ne_nil hrest (by simp)
      rw [slashText_cons_cons, List.getLast?_append_of_ne_nil _ (by simp)] at hc
      rwa [List.getLast?_cons_of_ne_nil hne] at hc

theorem trimSlashes_slashText (hp : IsSolid p) : trimSlashes (slashText p) = slashText p := by
  apply Text.trim_eq_self
  · intro c hc
    simpa using head_slashText hp hc
  · intro c hc
    simpa using last_slashText hp hc

section Texts

variable {host : Host}

theorem toSlash_relText {p : Path} (hp : host.IsPath p) (hne : p ≠ []) :
    host.toSlash (host.relText p) = slashText p := by
  rw [Host.toSlash, Host.relText, if_neg hne, Host.separator]
  split
  · rename_i hwindows
    induction p with
    | nil => exact absurd rfl hne
    | cons n p ih =>
      have hn : n.map (fun c => if c = '\\' then '/' else c) = n := by
        have hslash := (hp n List.mem_cons_self).2.2 hwindows
        refine List.map_congr_left (g := id) (fun c hc => ?_) |>.trans (List.map_id n)
        rw [if_neg]
        · rfl
        · rintro rfl
          exact hslash hc
      cases p with
      | nil => simpa [slashText] using hn
      | cons m p =>
        rw [List.intercalate_cons_cons, slashText_cons_cons, List.map_append, List.map_append, hn,
          ih (fun k hk => hp k (List.mem_cons_of_mem _ hk)) (by simp)]
        simp
  · rfl

end Texts

/-! ## Rooted patterns -/

/-- A pattern with a slash in front, and perhaps one at its end. -/
def rooted (body : List Char) (directory : Bool) : List Char :=
  if directory then ('/' :: body) ++ ['/'] else '/' :: body

variable {body : List Char}

theorem getLast?_rooted (hne : body ≠ []) (hlast : ∀ c ∈ body.getLast?, c ≠ '/')
    (directory : Bool) : (rooted body directory).getLast? = some '/' ↔ directory = true := by
  cases directory with
  | true =>
    rw [rooted, if_pos rfl, List.getLast?_concat]
    simp
  | false =>
    rw [rooted, if_neg (by simp), List.getLast?_cons_of_ne_nil hne]
    constructor
    · intro h
      exact absurd rfl (hlast '/' h)
    · intro h
      cases h

theorem withoutLast_rooted (hne : body ≠ []) (hlast : ∀ c ∈ body.getLast?, c ≠ '/')
    (directory : Bool) : withoutLast (rooted body directory) = '/' :: body := by
  cases directory with
  | true =>
    rw [withoutLast, if_pos ((getLast?_rooted hne hlast true).mpr rfl), rooted, if_pos rfl,
      List.dropLast_concat]
  | false =>
    rw [withoutLast, if_neg (fun h => by cases (getLast?_rooted hne hlast false).mp h), rooted,
      if_neg (by simp)]

theorem parse_rooted (hne : body ≠ []) (hlast : ∀ c ∈ body.getLast?, c ≠ '/') (directory : Bool) :
    core (rooted body directory) = body ∧ '/' ∈ withoutLast (rooted body directory) ∧
      parse (rooted body directory) =
        (segments (rooted body directory)).map (⟨false, directory, ·⟩) := by
  have hwithout := withoutLast_rooted hne hlast directory
  have hdirectory : decide ((rooted body directory).getLast? = some '/') = directory := by
    rw [Bool.eq_iff_iff, decide_eq_true_eq, getLast?_rooted hne hlast]
  refine ⟨?_, ?_, ?_⟩
  · rw [core, hwithout]
    rfl
  · rw [hwithout]
    exact List.mem_cons_self
  · have hparse : parse (rooted body directory) = parsePattern false (rooted body directory) := by
      cases directory <;> rfl
    rw [hparse, parsePattern, hdirectory]

/-! ## Letters of either case -/

def eitherCase (c : Char) : Piece :=
  if 'a' ≤ c ∧ c ≤ 'z' then .set false [(c.toUpper, c.toUpper), (c, c)]
  else if 'A' ≤ c ∧ c ≤ 'Z' then .set false [(c, c), (c.toLower, c.toLower)]
  else .char c

theorem toUpper_facts (h : 'a' ≤ c ∧ c ≤ 'z') : 'A' ≤ c.toUpper ∧ c.toUpper ≤ 'Z' ∧
      c.toUpper.toLower = c ∧ c.toLower = c ∧ c.toNat < 128 ∧ c.toUpper.toNat < 128 := by
  have hall : ∀ n : Fin 128, ('a' ≤ Char.ofNat n ∧ Char.ofNat n ≤ 'z') →
      'A' ≤ (Char.ofNat n).toUpper ∧ (Char.ofNat n).toUpper ≤ 'Z' ∧
        (Char.ofNat n).toUpper.toLower = Char.ofNat n ∧ (Char.ofNat n).toLower = Char.ofNat n ∧
        (Char.ofNat n).toNat < 128 ∧ (Char.ofNat n).toUpper.toNat < 128 := by
    decide
  have hlt : c.toNat < 128 := Nat.lt_of_le_of_lt (UInt32.le_iff_toNat_le.mp h.2) (by decide)
  have hc := hall ⟨c.toNat, hlt⟩
  rw [Char.ofNat_toNat] at hc
  exact hc h

theorem toLower_facts (h : 'A' ≤ c ∧ c ≤ 'Z') : 'a' ≤ c.toLower ∧ c.toLower ≤ 'z' ∧
      c.toLower.toLower = c.toLower ∧ c.toNat < 128 ∧ c.toLower.toNat < 128 := by
  have hall : ∀ n : Fin 128, ('A' ≤ Char.ofNat n ∧ Char.ofNat n ≤ 'Z') →
      'a' ≤ (Char.ofNat n).toLower ∧ (Char.ofNat n).toLower ≤ 'z' ∧
        (Char.ofNat n).toLower.toLower = (Char.ofNat n).toLower ∧ (Char.ofNat n).toNat < 128 ∧
        (Char.ofNat n).toLower.toNat < 128 := by
    decide
  have hlt : c.toNat < 128 := Nat.lt_of_le_of_lt (UInt32.le_iff_toNat_le.mp h.2) (by decide)
  have hc := hall ⟨c.toNat, hlt⟩
  rw [Char.ofNat_toNat] at hc
  exact hc h

theorem parseSet_letters {d : Char} (hc : 'A' ≤ c ∧ c ≤ 'Z') (hd : 'a' ≤ d ∧ d ≤ 'z')
    (text : List Char) :
    parseSet (c :: d :: ']' :: text) = some (.set false [(c, c), (d, d)], text) := by
  have hcs : c ≠ '!' ∧ c ≠ '^' ∧ c ≠ ']' ∧ c ≠ '\\' := by
    refine ⟨?_, ?_, ?_, ?_⟩ <;> (rintro rfl; revert hc; decide)
  have hds : d ≠ '-' ∧ d ≠ ']' ∧ d ≠ '\\' := by
    refine ⟨?_, ?_, ?_⟩ <;> (rintro rfl; revert hd; decide)
  simp [parseSet, setItems, setRanges, hcs, hds]

theorem piecesOf_caseFold {n : Name} (h : IsLiteral n) {k : Nat}
    (hk : (caseFoldSystemIgnorePattern n).length ≤ k) :
    piecesOf k (caseFoldSystemIgnorePattern n) = some (n.map eitherCase) := by
  induction n generalizing k with
  | nil => cases k <;> rfl
  | cons c n ih =>
    have hn : IsLiteral n := fun d hd => h d (List.mem_cons_of_mem _ hd)
    rw [caseFoldSystemIgnorePattern, List.flatMap_cons, ← caseFoldSystemIgnorePattern] at hk ⊢
    rw [List.length_append] at hk
    rw [List.map_cons, eitherCase]
    cases k with
    | zero => split at hk <;> [skip; split at hk] <;> simp at hk
    | succ k =>
      by_cases hlower : 'a' ≤ c ∧ c ≤ 'z'
      · obtain ⟨hupper, hle, -⟩ := toUpper_facts hlower
        rw [if_pos hlower] at hk ⊢
        rw [if_pos hlower]
        simp only [List.length_cons, List.length_nil] at hk
        rw [List.cons_append, List.cons_append, List.cons_append, List.cons_append,
          List.nil_append, piecesOf, parseSet_letters ⟨hupper, hle⟩ hlower]
        simp only
        rw [ih hn (by omega)]
        rfl
      by_cases hupper : 'A' ≤ c ∧ c ≤ 'Z'
      · obtain ⟨hlower', hle, -⟩ := toLower_facts hupper
        rw [if_neg hlower, if_pos hupper] at hk ⊢
        rw [if_neg hlower, if_pos hupper]
        simp only [List.length_cons, List.length_nil] at hk
        rw [List.cons_append, List.cons_append, List.cons_append, List.cons_append,
          List.nil_append, piecesOf, parseSet_letters hupper ⟨hlower', hle⟩]
        simp only
        rw [ih hn (by omega)]
        rfl
      · have hmeta := h c List.mem_cons_self
        simp only [isMeta, Bool.or_eq_false_iff, beq_eq_false_iff_ne] at hmeta
        obtain ⟨⟨⟨hstar, hany⟩, hset⟩, hescape⟩ := hmeta
        rw [if_neg hlower, if_neg hupper] at hk ⊢
        rw [if_neg hlower, if_neg hupper]
        simp only [List.length_cons, List.length_nil] at hk
        rw [List.cons_append, List.nil_append, piecesOf]
        · rw [ih hn (by omega)]
          rfl
        · intro heq
          exact absurd heq hescape
        · intro d rest heq
          exact absurd heq hescape
        · exact hstar
        · exact hany
        · exact hset

/-- A character that a piece of either case takes is the same letter on Windows. -/
theorem letter_of_accepts (hwindows : host.goos = .windows) {d : Char}
    (h : (eitherCase c).accepts d = true) : host.letter d = host.letter c := by
  rw [Host.letter, Host.letter, if_pos hwindows, if_pos hwindows]
  rw [eitherCase] at h
  have hone : ∀ a b : Char, a ≤ b → b ≤ a → a = b := by
    intro a b hab hba
    exact Char.ext (UInt32.le_antisymm hab hba)
  split at h
  · rename_i hlower
    obtain ⟨-, -, hback, hself, hascii, hascii'⟩ := toUpper_facts hlower
    have hd : (c.toUpper ≤ d ∧ d ≤ c.toUpper) ∨ (c ≤ d ∧ d ≤ c) := by
      simpa [Piece.accepts] using h
    rcases hd with ⟨hle, hge⟩ | ⟨hle, hge⟩
    · rw [← hone _ _ hle hge, host.lower_ascii _ hascii', host.lower_ascii _ hascii, hback, hself]
    · rw [hone _ _ hle hge]
  split at h
  · rename_i hupper
    obtain ⟨-, -, hself, hascii, hascii'⟩ := toLower_facts hupper
    have hd : (c ≤ d ∧ d ≤ c) ∨ (c.toLower ≤ d ∧ d ≤ c.toLower) := by
      simpa [Piece.accepts] using h
    rcases hd with ⟨hle, hge⟩ | ⟨hle, hge⟩
    · rw [hone _ _ hle hge]
    · rw [← hone _ _ hle hge, host.lower_ascii _ hascii', host.lower_ascii _ hascii, hself]
  · have hd : c = d := by simpa [Piece.accepts] using h
    rw [hd]

theorem accepts_eitherCase (c : Char) : (eitherCase c).accepts c = true := by
  rw [eitherCase]
  split
  · simp [Piece.accepts]
  split
  · simp [Piece.accepts]
  · simp [Piece.accepts]

theorem eitherCase_ne_star (c : Char) : eitherCase c ≠ .star := by
  rw [eitherCase]
  split
  · simp
  split
  · simp
  · simp

theorem fold_of_matchName (hwindows : host.goos = .windows) {n m : Name}
    (h : matchName (n.map eitherCase) m = true) : host.fold m = host.fold n := by
  induction n generalizing m with
  | nil =>
    obtain rfl : m = [] := by simpa [matchName] using h
    rfl
  | cons c n ih =>
    obtain ⟨d, m, rfl, hd, hm⟩ := (matchName_cons_iff (eitherCase_ne_star c)).mp h
    have htail := ih hm
    rw [Host.fold, Host.fold] at htail
    rw [Host.fold, Host.fold, List.map_cons, List.map_cons, letter_of_accepts hwindows hd, htail]

theorem matchName_eitherCase (n : Name) : matchName (n.map eitherCase) n = true := by
  induction n with
  | nil => rfl
  | cons c n ih =>
    exact (matchName_cons_iff (eitherCase_ne_star c)).mpr ⟨c, n, rfl, accepts_eitherCase c, ih⟩

theorem caseFold_slashText (p : Path) :
    caseFoldSystemIgnorePattern (slashText p) = slashText (p.map caseFoldSystemIgnorePattern) := by
  induction p with
  | nil => rfl
  | cons n p ih =>
    cases p with
    | nil => simp [slashText]
    | cons m p =>
      rw [slashText_cons_cons, List.map_cons, List.map_cons, slashText_cons_cons,
        ← List.map_cons, ← ih]
      simp only [caseFoldSystemIgnorePattern, List.flatMap_append, List.flatMap_cons]
      rfl

theorem isSolid_caseFold (hp : IsSolid p) : IsSolid (p.map caseFoldSystemIgnorePattern) := by
  intro n hn
  obtain ⟨m, hm, rfl⟩ := List.mem_map.mp hn
  obtain ⟨hne, hslash⟩ := hp m hm
  constructor
  · cases m with
    | nil => exact absurd rfl hne
    | cons c m =>
      rw [caseFoldSystemIgnorePattern, List.flatMap_cons]
      split
      · simp
      split
      · simp
      · simp
  · intro hmem
    obtain ⟨c, hc, hin⟩ := List.mem_flatMap.mp hmem
    split at hin
    · rename_i hlower
      have hupper := toUpper_facts hlower
      rcases List.mem_cons.mp hin with h | hin
      · cases h
      rcases List.mem_cons.mp hin with h | hin
      · exact absurd (h ▸ hupper.1) (by decide)
      rcases List.mem_cons.mp hin with h | hin
      · exact hslash (h ▸ hc)
      · simp at hin
    split at hin
    · rename_i hupper
      have hlower := toLower_facts hupper
      rcases List.mem_cons.mp hin with h | hin
      · cases h
      rcases List.mem_cons.mp hin with h | hin
      · exact hslash (h ▸ hc)
      rcases List.mem_cons.mp hin with h | hin
      · exact absurd (h ▸ hlower.1) (by decide)
      · simp at hin
    · obtain rfl := List.mem_singleton.mp hin
      exact hslash hc

/-! ## Rules of roots -/

def IsPlainRel (rel : Path) : RootKind → Prop
  | .agent =>
    (∀ n ∈ rel, IsLiteral n) ∧
      (∀ c ∈ (slashText rel).head?, c ≠ '#' ∧ c ≠ '!' ∧ Text.isSpace c = false) ∧
      ∀ c ∈ (slashText rel).getLast?, Text.isSpace c = false
  | .system true _ => ∀ n ∈ rel, IsLiteral n
  | .system false _ =>
    (∀ n ∈ rel, IsLiteral n) ∧ ∀ c ∈ (slashText rel).getLast?, Text.isSpace c = false

/-- The rule of the agent root has a slash when the root is not directly in the source. -/
def IsAnchored (rel : Path) (kind : RootKind) : Prop := kind = .agent → 2 ≤ rel.length

theorem systemPattern_eq (hp : host.IsPath p) (hne : p ≠ []) (directory caseInsensitive : Bool) :
    systemPattern host p directory caseInsensitive =
      rooted (if caseInsensitive then caseFoldSystemIgnorePattern (slashText p) else slashText p)
        directory := by
  rw [systemPattern, toSlash_relText hp hne, trimSlashes_slashText hp.isSolid]
  cases caseInsensitive with
  | true => cases directory <;> rfl
  | false => cases directory <;> rfl

/-! ## Trees -/

def isDir (tree : FsTree Unit) (q : Path) : Bool := decide (tree.get q = some .dir)

/-- The tree of a source, as it is on the machine. What is at a root is spelled as the
root is, and it is a directory unless the root is a file. -/
structure Fits (host : Host) (source : AbsPath) (roots : List ProtectedRoot)
    (tree : FsTree Unit) : Prop where
  names : ∀ p e, tree.get p = some e → host.IsPath p
  spelled : ∀ r ∈ roots, host.isWithin r.path source = true → ∀ p e, tree.get p = some e →
    host.foldPath p = host.foldPath (r.rel host source) → p = r.rel host source
  directories : ∀ r ∈ roots, host.isWithin r.path source = true →
    (∃ caseInsensitive, r.kind = .system true caseInsensitive) →
      ∀ e, tree.get (r.rel host source) = some e → e = .dir

def Marks (tree : FsTree Unit) (rel : Path) (line : List Char) : Prop :=
  ∃ rule, parse line = some rule ∧ rule.negated = false ∧
    ∀ q e, tree.get q = some e → (rule.matches q (isDir tree q) = true ↔ q = rel)

theorem segments_caseFold (hp : IsSolid p) (hne : p ≠ []) (hliteral : ∀ n ∈ p, IsLiteral n)
    {text : List Char} (hcore : core text = caseFoldSystemIgnorePattern (slashText p))
    (hslash : '/' ∈ withoutLast text) :
    segments text = some (p.map fun n => .name (n.map eitherCase)) := by
  have hsegment : ∀ n : Name, IsLiteral n →
      parseSegment (caseFoldSystemIgnorePattern n) = some (.name (n.map eitherCase)) := by
    intro n hn
    have hpieces : pieces (caseFoldSystemIgnorePattern n) = some (n.map eitherCase) :=
      piecesOf_caseFold hn (Nat.le_refl _)
    rw [parseSegment, hpieces, if_neg]
    · rfl
    · intro hstars
      rw [hstars] at hpieces
      have hmem : Piece.star ∈ n.map eitherCase := by
        rw [← Option.some.inj hpieces]
        exact List.mem_cons_self
      obtain ⟨c, -, hc⟩ := List.mem_map.mp hmem
      exact eitherCase_ne_star c hc
  have hparts : ∀ p : Path, (∀ n ∈ p, IsLiteral n) →
      (p.map caseFoldSystemIgnorePattern).mapM parseSegment =
        some (p.map fun n => .name (n.map eitherCase)) := by
    intro p hliteral
    induction p with
    | nil => rfl
    | cons n p ih =>
      simp [hsegment n (hliteral n List.mem_cons_self),
        ih fun m hm => hliteral m (List.mem_cons_of_mem _ hm)]
  have hnames : ∀ n ∈ p.map caseFoldSystemIgnorePattern, '/' ∉ n :=
    fun n hn => (isSolid_caseFold hp n hn).2
  rw [segments, hcore, caseFold_slashText, slashText, List.splitOn_intercalate _ hnames (by simpa),
    hparts p hliteral, Option.map_some, if_pos hslash]

theorem matchPath_eitherCase (hwindows : host.goos = .windows) {q : Path} :
    (matchPath (p.map fun n => .name (n.map eitherCase)) q = true →
      host.foldPath q = host.foldPath p) ∧
    matchPath (p.map fun n => .name (n.map eitherCase)) p = true := by
  induction p generalizing q with
  | nil =>
    constructor
    · intro h
      obtain rfl : q = [] := by simpa [matchPath] using h
      rfl
    · rfl
  | cons n p ih =>
    constructor
    · intro h
      obtain ⟨m, q, rfl, hm, hq⟩ := matchPath_name_iff.mp h
      rw [Host.foldPath_cons, Host.foldPath_cons, fold_of_matchName hwindows hm, ih.1 hq]
    · exact matchPath_name_iff.mpr ⟨n, p, rfl, matchName_eitherCase n, (ih (q := [])).2⟩

section Marks

variable {host : Host} {source : AbsPath} {r : ProtectedRoot} {roots : List ProtectedRoot}
  {tree : FsTree Unit}

theorem marks_of_matchPath {line : List Char} {rel : Path} {directory : Bool}
    {ss : List Segment} (hparse : parse line = some ⟨false, directory, ss⟩)
    (hmatch : ∀ q e, tree.get q = some e → (matchPath ss q = true ↔ q = rel))
    (hdirectory : directory = true → ∀ e, tree.get rel = some e → e = .dir) :
    Marks tree rel line := by
  refine ⟨_, hparse, rfl, fun q e he => ?_⟩
  rw [Rule.matches, Bool.and_eq_true, hmatch q e he]
  constructor
  · exact And.right
  · rintro rfl
    refine ⟨?_, rfl⟩
    cases directory with
    | true =>
      obtain rfl := hdirectory rfl e he
      simp [isDir, he]
    | false => simp

theorem trimSpace_rooted {body : List Char} {directory : Bool} (hne : body ≠ [])
    (hlast : directory = false → ∀ c ∈ body.getLast?, Text.isSpace c = false) :
    Text.trimSpace (rooted body directory) = rooted body directory := by
  apply Text.trim_eq_self
  · intro c hc
    have hslash : c = '/' := by
      cases directory <;> simpa [rooted, eq_comm] using hc
    rw [hslash]
    decide
  · intro c hc
    cases directory with
    | true =>
      rw [rooted, if_pos rfl, List.getLast?_concat] at hc
      cases hc
      decide
    | false =>
      rw [rooted, if_neg (by simp), List.getLast?_cons_of_ne_nil hne] at hc
      exact hlast rfl c hc

/-- A pattern of either case ends in a set or in what the text ends in. -/
theorem last_caseFold {text : List Char} {c : Char}
    (hc : c ∈ (caseFoldSystemIgnorePattern text).getLast?) : c = ']' ∨ c ∈ text.getLast? := by
  induction text with
  | nil => cases hc
  | cons d text ih =>
    cases text with
    | nil =>
      rw [caseFoldSystemIgnorePattern, List.flatMap_singleton] at hc
      split at hc
      · exact .inl (by simpa [eq_comm] using hc)
      split at hc
      · exact .inl (by simpa [eq_comm] using hc)
      · exact .inr hc
    | cons e text =>
      have hne : caseFoldSystemIgnorePattern (e :: text) ≠ [] := by
        rw [caseFoldSystemIgnorePattern, List.flatMap_cons]
        split
        · simp
        split
        · simp
        · simp
      rw [caseFoldSystemIgnorePattern, List.flatMap_cons, ← caseFoldSystemIgnorePattern,
        List.getLast?_append_of_ne_nil _ hne] at hc
      rw [List.getLast?_cons_cons]
      exact ih hc

theorem slash_mem_slashText {p : Path} (h : 2 ≤ p.length) : '/' ∈ slashText p := by
  match p, h with
  | n :: m :: p, _ =>
    rw [slashText_cons_cons]
    simp

theorem normalizeIgnorePattern_eq {p : Path} (hp : host.IsPath p) (hne : p ≠ [])
    (hliteral : ∀ n ∈ p, IsLiteral n) :
    normalizeIgnorePattern host (host.relText p) = slashText p := by
  have hescape : ∀ p : Path, (∀ n ∈ p, IsLiteral n) → '\\' ∉ slashText p := by
    intro p hliteral
    induction p with
    | nil => simp [slashText]
    | cons n p ih =>
      have hn : '\\' ∉ n := fun hmem =>
        absurd (hliteral n List.mem_cons_self _ hmem) (by decide)
      cases p with
      | nil => simpa [slashText] using hn
      | cons m p =>
        rw [slashText_cons_cons]
        simp [hn, ih fun k hk => hliteral k (List.mem_cons_of_mem _ hk)]
  have hmap : (slashText p).map (fun c => if c = '\\' then '/' else c) = slashText p := by
    refine List.map_congr_left (g := id) (fun c hc => ?_) |>.trans (List.map_id _)
    rw [if_neg]
    · rfl
    · rintro rfl
      exact hescape p hliteral hc
  rw [normalizeIgnorePattern, toSlash_relText hp hne, hmap, trimSlashes_slashText hp.isSolid]

theorem agent_pattern {path : AbsPath} (hbelow : ProtectedRoot.IsBelow host source ⟨path, .agent⟩)
    (hplain : IsPlainRel (ProtectedRoot.rel host source ⟨path, .agent⟩) .agent) :
    ProtectedRoot.pattern host source ⟨path, .agent⟩ =
        slashText (ProtectedRoot.rel host source ⟨path, .agent⟩) ∧
      core (ProtectedRoot.pattern host source ⟨path, .agent⟩) =
        slashText (ProtectedRoot.rel host source ⟨path, .agent⟩) ∧
      withoutLast (ProtectedRoot.pattern host source ⟨path, .agent⟩) =
        slashText (ProtectedRoot.rel host source ⟨path, .agent⟩) ∧
      parse (ProtectedRoot.pattern host source ⟨path, .agent⟩) =
        (segments (ProtectedRoot.pattern host source ⟨path, .agent⟩)).map (⟨false, false, ·⟩) := by
  have hpath := hbelow.isPath_rel
  have hsolid := hpath.isSolid
  obtain ⟨hliteral, hhead, -⟩ := hplain
  have htext := slashText_ne_nil hsolid hbelow.rel_ne_nil
  have hline : ProtectedRoot.pattern host source ⟨path, .agent⟩ =
      slashText (ProtectedRoot.rel host source ⟨path, .agent⟩) :=
    normalizeIgnorePattern_eq hpath hbelow.rel_ne_nil hliteral
  rw [hline]
  generalize ProtectedRoot.rel host source ⟨path, .agent⟩ = rel at *
  have hend : (slashText rel).getLast? ≠ some '/' := fun h => last_slashText hsolid h rfl
  have hwithout : withoutLast (slashText rel) = slashText rel := by
    rw [withoutLast, if_neg hend]
  refine ⟨rfl, ?_, hwithout, ?_⟩
  · rw [core, hwithout]
    split
    · rename_i body hbody
      exact absurd rfl (head_slashText hsolid (c := '/') (by simp [hbody]))
    · rfl
  · have hpattern : parse (slashText rel) = parsePattern false (slashText rel) := by
      rw [parse.eq_def]
      split
      · rename_i hnil
        exact absurd hnil htext
      · rename_i hcomment
        exact absurd rfl (hhead '#' (by simp [hcomment])).1
      · rename_i hnegation
        exact absurd rfl (hhead '!' (by simp [hnegation])).2.1
      · rfl
    rw [hpattern, parsePattern, decide_eq_false hend]

theorem system_pattern {path : AbsPath} {directory caseInsensitive : Bool}
    (hbelow : ProtectedRoot.IsBelow host source ⟨path, .system directory caseInsensitive⟩) :
    ∃ body, body ≠ [] ∧ (∀ c ∈ body.getLast?, c ≠ '/') ∧
      (∀ c ∈ body.getLast?, c = ']' ∨ c ∈ (slashText (ProtectedRoot.rel host source
        ⟨path, .system directory caseInsensitive⟩)).getLast?) ∧
      body = (if caseInsensitive then
          caseFoldSystemIgnorePattern (slashText (ProtectedRoot.rel host source
            ⟨path, .system directory caseInsensitive⟩))
        else slashText (ProtectedRoot.rel host source ⟨path, .system directory caseInsensitive⟩)) ∧
      ProtectedRoot.pattern host source ⟨path, .system directory caseInsensitive⟩ =
        rooted body directory := by
  have hpath := hbelow.isPath_rel
  have hne := hbelow.rel_ne_nil
  have hsolid := hpath.isSolid
  have hline : ProtectedRoot.pattern host source ⟨path, .system directory caseInsensitive⟩ =
      rooted _ directory :=
    systemPattern_eq hpath hne directory caseInsensitive
  rw [hline]
  generalize ProtectedRoot.rel host source ⟨path, .system directory caseInsensitive⟩ = rel at *
  cases caseInsensitive with
  | false =>
    exact ⟨_, slashText_ne_nil hsolid hne, fun c => last_slashText hsolid, fun c => .inr, rfl,
      rfl⟩
  | true =>
    have hfold := isSolid_caseFold hsolid
    refine ⟨_, ?_, fun c hc => last_slashText hfold (caseFold_slashText rel ▸ hc),
      fun c => last_caseFold, rfl, rfl⟩
    rw [caseFold_slashText]
    exact slashText_ne_nil hfold (by simpa using hne)

/-- The rule of a root with a plain path is a rule that takes nothing back. -/
theorem pattern_positive (hbelow : r.IsBelow host source)
    (hplain : IsPlainRel (r.rel host source) r.kind) :
    Text.trimSpace (r.pattern host source) = r.pattern host source ∧ r.pattern host source ≠ [] ∧
      ∀ rule, parse (r.pattern host source) = some rule → rule.negated = false := by
  obtain ⟨path, kind⟩ := r
  cases kind with
  | agent =>
    obtain ⟨hline, -, -, hparse⟩ := agent_pattern hbelow hplain
    obtain ⟨hliteral, hhead, hlast⟩ := hplain
    refine ⟨?_, ?_, ?_⟩
    · rw [hline]
      exact Text.trim_eq_self (fun c hc => (hhead c hc).2.2) hlast
    · rw [hline]
      exact slashText_ne_nil hbelow.isPath_rel.isSolid hbelow.rel_ne_nil
    · intro rule hrule
      rw [hparse] at hrule
      obtain ⟨ss, -, rfl⟩ := Option.map_eq_some_iff.mp hrule
      rfl
  | system directory caseInsensitive =>
    obtain ⟨body, hne, hlast, hend, -, hline⟩ := system_pattern hbelow
    rw [hline]
    refine ⟨trimSpace_rooted hne fun hfile c hc => ?_, ?_, ?_⟩
    · subst hfile
      rcases hend c hc with rfl | hc
      · decide
      · exact hplain.2 c hc
    · cases directory <;> simp [rooted]
    · intro rule hrule
      rw [(parse_rooted hne hlast directory).2.2] at hrule
      obtain ⟨ss, -, rfl⟩ := Option.map_eq_some_iff.mp hrule
      rfl

/-- The rule of a root with a plain path matches that path alone, unless the root is the
agent root directly in the source. -/
theorem marks_pattern (hbelow : r.IsBelow host source)
    (hplain : IsPlainRel (r.rel host source) r.kind)
    (hanchored : IsAnchored (r.rel host source) r.kind)
    (hcase : ∀ directory, r.kind = .system directory true → host.goos = .windows)
    (hfits : Fits host source roots tree) (hr : r ∈ roots) :
    Marks tree (r.rel host source) (r.pattern host source) := by
  have hne := hbelow.rel_ne_nil
  have hsolid := hbelow.isPath_rel.isSolid
  have hnames : ∀ n ∈ r.rel host source, '/' ∉ n := fun n hn => (hsolid n hn).2
  obtain ⟨path, kind⟩ := r
  cases kind with
  | agent =>
    obtain ⟨hline, hcore, hwithout, hparse⟩ := agent_pattern hbelow hplain
    have hslash : '/' ∈ withoutLast (ProtectedRoot.pattern host source ⟨path, .agent⟩) := by
      rw [hwithout]
      exact slash_mem_slashText (hanchored rfl)
    obtain ⟨ss, hss, hmatch⟩ := matchPath_of_isLiteral hne hnames hplain.1 hcore hslash
    rw [hss] at hparse
    exact marks_of_matchPath hparse (fun q _ _ => hmatch q) (fun h => by cases h)
  | system directory caseInsensitive =>
    have hliteral : ∀ n ∈ ProtectedRoot.rel host source ⟨path, .system directory caseInsensitive⟩,
        IsLiteral n := by
      cases directory with
      | true => exact hplain
      | false => exact hplain.1
    have hdirectory : directory = true → ∀ e, tree.get (ProtectedRoot.rel host source
        ⟨path, .system directory caseInsensitive⟩) = some e → e = .dir := by
      rintro rfl
      exact hfits.directories _ hr hbelow.within ⟨caseInsensitive, rfl⟩
    have hspelled := hfits.spelled _ hr hbelow.within
    obtain ⟨body, hbody, hlast, -, heq, hline⟩ := system_pattern hbelow
    rw [hline]
    obtain ⟨hcore, hslash, hparse⟩ := parse_rooted hbody hlast directory
    cases caseInsensitive with
    | false =>
      obtain ⟨ss, hss, hmatch⟩ :=
        matchPath_of_isLiteral hne hnames hliteral (hcore.trans heq) hslash
      rw [hss] at hparse
      exact marks_of_matchPath hparse (fun q _ _ => hmatch q) hdirectory
    | true =>
      rw [segments_caseFold hsolid hne hliteral (hcore.trans heq) hslash] at hparse
      have hwindows := hcase directory rfl
      refine marks_of_matchPath hparse (fun q e he => ?_) hdirectory
      constructor
      · intro hmatch
        exact hspelled q e he ((matchPath_eitherCase hwindows).1 hmatch)
      · rintro rfl
        exact (matchPath_eitherCase (q := []) hwindows).2

end Marks

end HyperFileLens.Backup
