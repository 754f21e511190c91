import HyperFileLens.Library.Text
import Mathlib

/-!
# Paths of two dialects

What `posixpath` and `ntpath` of Python do with the texts of paths.

*Normal paths.*  `normpath` drops empty names and dots, and goes up for two dots. A path that is
normal but for separators at its end loses them.

*Containment.*  A text that is another one, or goes on behind it and a separator, has the parts of
the other one and more (`isWithin_iff`).
-/

namespace PythonPath

abbrev Name := List Char

/-- A separator and the parts of a text between separators. -/
def joinWith (sep : Char) (names : List Name) : List Char := [sep].intercalate names

/-- A name that `normpath` keeps. -/
def IsPlain (n : Name) : Prop := n ≠ [] ∧ n ≠ ['.'] ∧ n ≠ ['.', '.']

instance (n : Name) : Decidable (IsPlain n) := inferInstanceAs (Decidable (_ ∧ _ ∧ _))

/-- The loop of `normpath` over the names, of a path with a root or without one. -/
def normNames (rooted : Bool) : List Name → List Name → List Name
  | done, [] => done
  | done, n :: rest =>
    if n = [] ∨ n = ['.'] then normNames rooted done rest
    else if n = ['.', '.'] ∧ done.getLast? ≠ none ∧ done.getLast? ≠ some ['.', '.'] then
      normNames rooted done.dropLast rest
    else if n = ['.', '.'] ∧ done = [] ∧ rooted then normNames rooted done rest
    else normNames rooted (done ++ [n]) rest

/-- The names two paths share at their start. -/
def sharedNames (same : Name → Name → Bool) : List Name → List Name → Nat
  | a :: as, b :: bs => if same a b then sharedNames same as bs + 1 else 0
  | _, _ => 0

def relativeNames (same : Name → Name → Bool) (start path : List Name) : List Name :=
  List.replicate (start.length - sharedNames same start path) ['.', '.'] ++
    path.drop (sharedNames same start path)

def rstrip (chars : List Char) (text : List Char) : List Char :=
  (text.reverse.dropWhile fun c => c ∈ chars).reverse

/-! ## `posixpath` -/

namespace Posix

/-- The slashes at the start that `normpath` keeps. -/
def initialSlashes (path : List Char) : List Char :=
  if ['/'].isPrefixOf path then
    if ['/', '/'].isPrefixOf path && !(['/', '/', '/'].isPrefixOf path) then ['/', '/'] else ['/']
  else []

def normpath (path : List Char) : List Char :=
  let root := initialSlashes path
  let text := root ++ joinWith '/' (normNames (root ≠ []) [] (path.splitOn '/'))
  if text = [] then ['.'] else text

/-- `posixpath.relpath` of two absolute paths. -/
def relpath (path start : List Char) : List Char :=
  let startNames := ((normpath start).splitOn '/').filter fun n => n ≠ []
  let pathNames := ((normpath path).splitOn '/').filter fun n => n ≠ []
  match relativeNames (fun a b => a = b) startNames pathNames with
  | [] => ['.']
  | names => joinWith '/' names

end Posix

/-! ## `ntpath` -/

/-- `str.lower` of texts that may have separators. -/
structure LowerCase where
  lower : List Char → List Char
  /-- A separator has no letter case, and ends the context of the letters around it. -/
  sep : ∀ a b, lower (a ++ '\\' :: b) = lower a ++ '\\' :: lower b
  not_mem : ∀ a, '\\' ∉ a → '\\' ∉ lower a
  nil : lower [] = []
  ne_nil : ∀ a, a ≠ [] → lower a ≠ []

namespace Nt

/-- `path.replace("/", "\\")`. -/
def replaceSlashes (path : List Char) : List Char := path.map fun c => if c = '/' then '\\' else c

/-- The start of `\\?\UNC\`. -/
def isLongUnc (path : List Char) : Bool :=
  path.take 4 = ['\\', '\\', '?', '\\'] && path[7]? = some '\\' &&
    ((path.drop 4).take 3).map Char.toUpper = ['U', 'N', 'C']

/-- The length of the drive of a path that starts with two separators, if it goes on. -/
def uncLength (path : List Char) : Option Nat :=
  let start := if isLongUnc path then 8 else 2
  match Text.splitFirst '\\' (path.drop start) with
  | none => none
  | some (server, rest) =>
    match Text.splitFirst '\\' rest with
    | none => none
    | some (share, _) => some (start + server.length + 1 + share.length)

def splitroot (path : List Char) : List Char × List Char × List Char :=
  let norm := replaceSlashes path
  match norm with
  | '\\' :: '\\' :: _ =>
    match uncLength norm with
    | none => (path, [], [])
    | some n => (path.take n, (path.drop n).take 1, path.drop (n + 1))
  | '\\' :: _ => ([], path.take 1, path.drop 1)
  | _ :: ':' :: '\\' :: _ => (path.take 2, (path.drop 2).take 1, path.drop 3)
  | _ :: ':' :: _ => (path.take 2, [], path.drop 2)
  | _ => ([], [], path)

def normpath (path : List Char) : List Char :=
  let (drive, root, rest) := splitroot (replaceSlashes path)
  let names := normNames (root ≠ []) [] (rest.splitOn '\\')
  if drive ++ root = [] ∧ names = [] then ['.'] else drive ++ root ++ joinWith '\\' names

def normcase (m : LowerCase) (path : List Char) : List Char := m.lower (replaceSlashes path)

/-- The step of `ntpath.join`. -/
def joinStep (m : LowerCase) (acc : List Char × List Char × List Char) (p : List Char) :
    List Char × List Char × List Char :=
  let (drive, root, path) := acc
  let (pDrive, pRoot, pPath) := splitroot p
  let push := fun (drive : List Char) =>
    (drive, root,
      (if path ≠ [] ∧ path.getLast? ≠ some '\\' ∧ path.getLast? ≠ some '/' then path ++ ['\\']
        else path) ++ pPath)
  if pRoot ≠ [] then (if pDrive ≠ [] ∨ drive = [] then pDrive else drive, pRoot, pPath)
  else if pDrive ≠ [] ∧ pDrive ≠ drive then
    if m.lower pDrive ≠ m.lower drive then (pDrive, pRoot, pPath) else push pDrive
  else push drive

/-- `ntpath.join` of names. -/
def join (m : LowerCase) : List (List Char) → List Char
  | [] => []
  | first :: rest =>
    let (drive, root, path) := rest.foldl (joinStep m) (splitroot first)
    if path ≠ [] ∧ root = [] ∧ drive ≠ [] ∧ drive.getLast? ≠ some ':' ∧
        drive.getLast? ≠ some '\\' ∧ drive.getLast? ≠ some '/' then
      drive ++ '\\' :: path
    else drive ++ root ++ path

/-- `ntpath.relpath` of two absolute paths. -/
def relpath (m : LowerCase) (path start : List Char) : Except String (List Char) :=
  let (startDrive, _, startRest) := splitroot (normpath start)
  let (pathDrive, _, pathRest) := splitroot (normpath path)
  if normcase m startDrive ≠ normcase m pathDrive then .error "path is on another mount"
  else
    let startNames := (startRest.splitOn '\\').filter fun n => n ≠ []
    let pathNames := (pathRest.splitOn '\\').filter fun n => n ≠ []
    match relativeNames (fun a b => normcase m a = normcase m b) startNames pathNames with
    | [] => .ok ['.']
    | names => .ok (join m names)

end Nt

/-! ## Parts of texts -/

section Parts

variable {sep : Char} {names : List Name}

def Unseparated (sep : Char) (names : List Name) : Prop := ∀ n ∈ names, sep ∉ n

theorem joinWith_cons (n : Name) (h : names ≠ []) :
    joinWith sep (n :: names) = n ++ sep :: joinWith sep names := by
  rw [joinWith, List.intercalate_cons_of_ne_nil h]
  simp [joinWith]

theorem splitOn_joinWith (h : Unseparated sep names) (hne : names ≠ []) :
    (joinWith sep names).splitOn sep = names :=
  List.splitOn_intercalate sep h hne

theorem joinWith_splitOn (text : List Char) : joinWith sep (text.splitOn sep) = text :=
  List.intercalate_splitOn sep

theorem joinWith_append {names' : List Name} (h : names ≠ []) (h' : names' ≠ []) :
    joinWith sep (names ++ names') = joinWith sep names ++ sep :: joinWith sep names' := by
  induction names with
  | nil => exact absurd rfl h
  | cons first names ih =>
    cases names with
    | nil =>
      rw [List.singleton_append, joinWith_cons first h']
      simp [joinWith]
    | cons next names =>
      rw [List.cons_append, joinWith_cons first (by simp), ih (by simp),
        joinWith_cons first (by simp)]
      simp

theorem joinWith_eq_flatMap (first : Name) (rest : List Name) :
    joinWith sep (first :: rest) = first ++ rest.flatMap fun n => sep :: n := by
  induction rest generalizing first with
  | nil => simp [joinWith]
  | cons next rest ih =>
    rw [joinWith_cons first (by simp), ih, List.flatMap_cons]
    rfl

theorem splitOn_cons_self (text : List Char) : (sep :: text).splitOn sep = [] :: text.splitOn sep := by
  rw [← List.nil_append (sep :: text), List.splitOn_append_cons_self, List.splitOn_nil]
  rfl

theorem splitOn_append_flatMap (text : List Char) (h : Unseparated sep names) :
    (text ++ names.flatMap fun n => sep :: n).splitOn sep = text.splitOn sep ++ names := by
  cases names with
  | nil => simp
  | cons first rest =>
    rw [List.flatMap_cons, List.cons_append, ← joinWith_eq_flatMap, List.splitOn_append_cons_self,
      splitOn_joinWith h (by simp)]

/-- A text is another one, or goes on behind it and a separator, when the parts of the other one
come first. -/
theorem isWithin_iff {text other : List Char} :
    text = other ∨ other ++ [sep] <+: text ↔ other.splitOn sep <+: text.splitOn sep := by
  constructor
  · rintro (rfl | ⟨rest, rfl⟩)
    · exact List.prefix_refl _
    · rw [List.append_assoc, List.singleton_append, List.splitOn_append_cons_self]
      exact List.prefix_append _ _
  · rintro ⟨rest, hrest⟩
    cases rest with
    | nil =>
      rw [List.append_nil] at hrest
      exact .inl (by rw [← @joinWith_splitOn sep text, ← hrest, joinWith_splitOn])
    | cons n rest =>
      refine .inr ⟨joinWith sep (n :: rest), ?_⟩
      rw [← @joinWith_splitOn sep text, ← hrest,
        joinWith_append (List.splitOn_ne_nil sep other) (by simp), joinWith_splitOn]
      simp

theorem splitOn_trailing (h : Unseparated sep names) (n : Nat) :
    ∃ k, (joinWith sep names ++ List.replicate n sep).splitOn sep = names ++ List.replicate k [] := by
  have hempty : ∀ n : Nat, (List.replicate n sep).splitOn sep = List.replicate (n + 1) [] := by
    intro n
    induction n with
    | zero => simp
    | succ n ih =>
      rw [List.replicate_succ, splitOn_cons_self, ih]
      rfl
  cases names with
  | nil => exact ⟨n + 1, by simpa [joinWith] using hempty n⟩
  | cons first rest =>
    cases n with
    | zero => exact ⟨0, by simpa using splitOn_joinWith h (by simp)⟩
    | succ n =>
      refine ⟨n + 1, ?_⟩
      rw [List.replicate_succ, List.splitOn_append_cons_self, hempty,
        splitOn_joinWith h (by simp)]

theorem normNames_replicate (rooted : Bool) (done : List Name) (k : Nat) :
    normNames rooted done (List.replicate k []) = done := by
  induction k with
  | zero => rfl
  | succ k ih =>
    rw [List.replicate_succ, normNames, if_pos (.inl rfl)]
    exact ih

theorem normNames_of_plain (rooted : Bool) (done : List Name) (h : ∀ n ∈ names, IsPlain n)
    (k : Nat) : normNames rooted done (names ++ List.replicate k []) = done ++ names := by
  induction names generalizing done with
  | nil => rw [List.nil_append, normNames_replicate, List.append_nil]
  | cons n names ih =>
    obtain ⟨hempty, hdot, hdots⟩ := h n List.mem_cons_self
    rw [List.cons_append, normNames, if_neg (not_or.mpr ⟨hempty, hdot⟩),
      if_neg fun hn => hdots hn.1, if_neg fun hn => hdots hn.1,
      ih _ fun m hm => h m (List.mem_cons_of_mem n hm)]
    simp

theorem normNames_splitOn (rooted : Bool) (h : Unseparated sep names)
    (hplain : ∀ n ∈ names, IsPlain n) (n : Nat) :
    normNames rooted [] ((joinWith sep names ++ List.replicate n sep).splitOn sep) = names := by
  obtain ⟨k, hk⟩ := splitOn_trailing h n
  rw [hk, normNames_of_plain rooted [] hplain k, List.nil_append]

theorem filter_splitOn (h : Unseparated sep names) (hplain : ∀ n ∈ names, IsPlain n) :
    ((joinWith sep names).splitOn sep).filter (fun n => n ≠ []) = names := by
  obtain ⟨k, hk⟩ := splitOn_trailing h 0
  rw [List.replicate_zero, List.append_nil] at hk
  have hnames : names.filter (fun n => n ≠ []) = names :=
    List.filter_eq_self.mpr fun n hn => by simpa using (hplain n hn).1
  have hnone : (List.replicate k ([] : Name)).filter (fun n => n ≠ []) = [] := by simp
  rw [hk, List.filter_append, hnames, hnone, List.append_nil]

variable {chars text : List Char}

theorem rstrip_eq_self (h : ∀ c ∈ text.getLast?, c ∉ chars) : rstrip chars text = text := by
  rcases List.eq_nil_or_concat text with rfl | ⟨init, c, rfl⟩
  · rfl
  · rw [List.concat_eq_append] at h ⊢
    have hc := h c (by simp)
    simp [rstrip, hc]

theorem last_rstrip {c : Char} (h : c ∈ (rstrip chars text).getLast?) : c ∉ chars := by
  rw [rstrip, List.getLast?_reverse] at h
  have hnot := List.head?_dropWhile_not (fun c => decide (c ∈ chars)) text.reverse
  rw [Option.mem_def.mp h] at hnot
  simpa using hnot

theorem rstrip_prefix (chars text : List Char) : rstrip chars text <+: text := by
  rw [rstrip, ← List.reverse_suffix, List.reverse_reverse]
  exact List.dropWhile_suffix _

theorem rstrip_append {chars text tail : List Char} (h : ∀ c ∈ tail, c ∈ chars) :
    rstrip chars (text ++ tail) = rstrip chars text := by
  rw [rstrip, List.reverse_append, List.dropWhile_append,
    List.dropWhile_eq_nil_iff.mpr (by simpa using h)]
  rfl

theorem getLast?_joinWith (h : Unseparated sep names) (hne : names ≠ [])
    (hplain : ∀ n ∈ names, IsPlain n) : ∃ n ∈ names, (joinWith sep names).getLast? = n.getLast? := by
  induction names with
  | nil => exact absurd rfl hne
  | cons first rest ih =>
    cases rest with
    | nil => exact ⟨first, by simp, by simp [joinWith]⟩
    | cons next rest =>
      obtain ⟨n, hn, hlast⟩ := ih (fun m hm => h m (List.mem_cons_of_mem _ hm)) (by simp)
        fun m hm => hplain m (List.mem_cons_of_mem _ hm)
      refine ⟨n, List.mem_cons_of_mem _ hn, ?_⟩
      rw [joinWith_cons first (by simp), List.getLast?_append_of_ne_nil _ (by simp),
        List.getLast?_cons, hlast]
      have hname := (hplain n (List.mem_cons_of_mem _ hn)).1
      cases hc : n.getLast? with
      | none => exact absurd (List.getLast?_eq_none_iff.mp hc) hname
      | some c => rfl

theorem mem_name_of_last (h : Unseparated sep names) (hne : names ≠ [])
    (hplain : ∀ n ∈ names, IsPlain n) (start : List Char) {c : Char}
    (hc : c ∈ (start ++ sep :: joinWith sep names).getLast?) : ∃ n ∈ names, c ∈ n := by
  obtain ⟨n, hn, hjoin⟩ := getLast?_joinWith h hne hplain
  rw [List.getLast?_append_of_ne_nil _ (by simp), List.getLast?_cons, hjoin] at hc
  refine ⟨n, hn, ?_⟩
  cases hlast : n.getLast? with
  | none => exact absurd (List.getLast?_eq_none_iff.mp hlast) (hplain n hn).1
  | some d =>
    rw [hlast] at hc
    obtain rfl : d = c := by simpa using hc
    exact List.mem_of_getLast? hlast

end Parts

/-! ## Relative names -/

section Relative

variable {same : Name → Name → Bool} {start path : List Name}

theorem sharedNames_of_below (hlength : start.length ≤ path.length)
    (h : ∀ p ∈ start.zip path, same p.1 p.2 = true) :
    sharedNames same start path = start.length := by
  induction start generalizing path with
  | nil => simp [sharedNames]
  | cons a start ih =>
    cases path with
    | nil => simp at hlength
    | cons b path =>
      rw [sharedNames, if_pos (h (a, b) (by simp)), ih (by simpa using hlength)]
      · rfl
      · exact fun p hp => h p (by simp [hp])

theorem relativeNames_of_below (hlength : start.length ≤ path.length)
    (h : ∀ p ∈ start.zip path, same p.1 p.2 = true) :
    relativeNames same start path = path.drop start.length := by
  rw [relativeNames, sharedNames_of_below hlength h]
  simp

end Relative

/-! ## Lower case -/

theorem LowerCase.splitOn_lower (m : LowerCase) (text : List Char) :
    (m.lower text).splitOn '\\' = (text.splitOn '\\').map m.lower := by
  have hsingle : ∀ n : Name, '\\' ∉ n → n.splitOn '\\' = [n] := by
    intro n hn
    have h : (joinWith '\\' [n]).splitOn '\\' = [n] :=
      splitOn_joinWith (by simpa [Unseparated] using hn) (by simp)
    simpa [joinWith] using h
  have hnames : ∀ names : List Name, names ≠ [] → Unseparated '\\' names →
      (m.lower (joinWith '\\' names)).splitOn '\\' = names.map m.lower := by
    intro names
    induction names with
    | nil => exact fun h => absurd rfl h
    | cons n names ih =>
      intro _ hsep
      have hn := hsep n List.mem_cons_self
      cases names with
      | nil => simpa [joinWith] using hsingle _ (m.not_mem n hn)
      | cons n' names =>
        rw [joinWith_cons n (by simp), m.sep, List.splitOn_append_cons_self,
          hsingle _ (m.not_mem n hn),
          ih (by simp) fun k hk => hsep k (List.mem_cons_of_mem n hk)]
        rfl
  have hsplit : Unseparated '\\' (text.splitOn '\\') := by
    exact fun n hn => Text.not_mem_of_mem_splitOn hn
  have h := hnames (text.splitOn '\\') (List.splitOn_ne_nil _ _) hsplit
  rwa [joinWith_splitOn] at h

/-! ## Normal paths of `posixpath` -/

namespace Posix

variable {names : List Name}

/-- The text of a normal path, with slashes at its end. -/
def textOf (names : List Name) (n : Nat) : List Char :=
  '/' :: (joinWith '/' names ++ List.replicate n '/')

theorem normNames_textOf (h : Unseparated '/' names) (hplain : ∀ n ∈ names, IsPlain n) (n : Nat) :
    normNames true [] ((textOf names n).splitOn '/') = names := by
  rw [textOf, splitOn_cons_self, normNames, if_pos (.inl rfl)]
  exact normNames_splitOn true h hplain n

theorem head_joinWith {sep : Char} (h : Unseparated sep names) (hplain : ∀ n ∈ names, IsPlain n)
    (hne : names ≠ []) : ∃ c rest, joinWith sep names = c :: rest ∧ c ≠ sep := by
  cases names with
  | nil => exact absurd rfl hne
  | cons first names =>
    obtain ⟨hempty, -, -⟩ := hplain first List.mem_cons_self
    have hsep := h first List.mem_cons_self
    cases first with
    | nil => exact absurd rfl hempty
    | cons c first =>
      have hc : c ≠ sep := fun heq => hsep (heq ▸ List.mem_cons_self)
      cases names with
      | nil => exact ⟨c, first, by simp [joinWith], hc⟩
      | cons next names => exact ⟨c, _, joinWith_cons _ (by simp), hc⟩

theorem initialSlashes_textOf (h : Unseparated '/' names) (hplain : ∀ n ∈ names, IsPlain n)
    (hne : names ≠ []) (n : Nat) : initialSlashes (textOf names n) = ['/'] := by
  obtain ⟨c, rest, hjoin, hc⟩ := head_joinWith h hplain hne
  have hc' : ('/' == c) = false := beq_false_of_ne hc.symm
  rw [textOf, hjoin]
  simp [initialSlashes, List.isPrefixOf, hc']

theorem normpath_eq {path root : List Char} (hroot : initialSlashes path = root) (hne : root ≠ []) :
    normpath path = root ++ joinWith '/' (normNames true [] (path.splitOn '/')) := by
  rw [normpath, hroot]
  simp [hne]

theorem normpath_textOf (h : Unseparated '/' names) (hplain : ∀ n ∈ names, IsPlain n)
    (hne : names ≠ []) (n : Nat) : normpath (textOf names n) = '/' :: joinWith '/' names := by
  rw [normpath_eq (initialSlashes_textOf h hplain hne n) (by simp), normNames_textOf h hplain]
  rfl

theorem normpath_root (n : Nat) :
    normpath (textOf [] n) = ['/'] ∨ normpath (textOf [] n) = ['/', '/'] := by
  have hslashes : initialSlashes (textOf [] n) = ['/'] ∨
      initialSlashes (textOf [] n) = ['/', '/'] := by
    rw [initialSlashes, if_pos (by simp [textOf, List.isPrefixOf])]
    split
    · exact .inr rfl
    · exact .inl rfl
  have hnames := normNames_textOf (by simp [Unseparated] : Unseparated '/' []) (by simp) n
  rcases hslashes with hslash | hslash
  · exact .inl (by rw [normpath_eq hslash (by simp), hnames]; rfl)
  · exact .inr (by rw [normpath_eq hslash (by simp), hnames]; rfl)

theorem exists_normpath_textOf (h : Unseparated '/' names) (hplain : ∀ n ∈ names, IsPlain n)
    (n : Nat) : ∃ k, normpath (textOf names n) = textOf names k := by
  by_cases hne : names = []
  · rw [hne]
    rcases normpath_root n with hroot | hroot
    · exact ⟨0, hroot⟩
    · exact ⟨1, hroot⟩
  · refine ⟨0, ?_⟩
    rw [normpath_textOf h hplain hne]
    simp [textOf]

theorem names_normpath (h : Unseparated '/' names) (hplain : ∀ n ∈ names, IsPlain n) (n : Nat) :
    ((normpath (textOf names n)).splitOn '/').filter (fun n => n ≠ []) = names := by
  by_cases hne : names = []
  · rw [hne]
    rcases normpath_root n with hroot | hroot
    · rw [hroot]
      decide
    · rw [hroot]
      decide
  · rw [normpath_textOf h hplain hne, splitOn_cons_self, List.filter_cons_of_neg (by simp)]
    exact filter_splitOn h hplain

theorem relpath_below {rest : List Name} (h : Unseparated '/' (names ++ rest))
    (hplain : ∀ n ∈ names ++ rest, IsPlain n) (n k : Nat) :
    relpath (textOf (names ++ rest) k) (textOf names n) =
      if rest = [] then ['.'] else joinWith '/' rest := by
  have hnames := names_normpath (fun m hm => h m (List.mem_append_left _ hm))
    (fun m hm => hplain m (List.mem_append_left _ hm)) n
  rw [relpath, hnames, names_normpath h hplain k, relativeNames_of_below (by simp) ?_,
    List.drop_left]
  · cases rest with
    | nil => rfl
    | cons first rest => simp
  · intro p hp
    have hzip : ∀ (a b : List Name), ∀ p ∈ a.zip (a ++ b), p.1 = p.2 := by
      intro a b
      induction a with
      | nil => simp
      | cons first a ih =>
        intro p hp
        rcases List.mem_cons.mp hp with rfl | hp
        · rfl
        · exact ih p hp
    simpa using hzip names rest p hp

end Posix

/-! ## Texts that `normpath` returns -/

section Normal

variable {names done : List Name} {rooted : Bool}

theorem all_normNames {P : Name → Prop} (hdone : ∀ n ∈ done, P n)
    (h : ∀ n ∈ names, n ≠ [] → n ≠ ['.'] → P n) : ∀ n ∈ normNames rooted done names, P n := by
  induction names generalizing done with
  | nil => exact hdone
  | cons first names ih =>
    have hrest : ∀ n ∈ names, n ≠ [] → n ≠ ['.'] → P n :=
      fun n hn => h n (List.mem_cons_of_mem _ hn)
    rw [normNames]
    split
    · exact ih hdone hrest
    · rename_i hkept
      split
      · exact ih (fun n hn => hdone n (List.mem_of_mem_dropLast hn)) hrest
      · split
        · exact ih hdone hrest
        · refine ih ?_ hrest
          intro n hn
          rcases List.mem_append.mp hn with hn | hn
          · exact hdone n hn
          · rw [List.mem_singleton.mp hn]
            exact h first List.mem_cons_self (fun he => hkept (.inl he)) fun he => hkept (.inr he)

theorem dots_not_mem_normNames (hdone : ['.', '.'] ∉ done) :
    ['.', '.'] ∉ normNames true done names := by
  induction names generalizing done with
  | nil => exact hdone
  | cons first names ih =>
    rw [normNames]
    split
    · exact ih hdone
    · split
      · exact ih fun hn => hdone (List.mem_of_mem_dropLast hn)
      · rename_i hup
        split
        · exact ih hdone
        · rename_i hroot
          refine ih fun hn => ?_
          rcases List.mem_append.mp hn with hn | hn
          · exact hdone hn
          · have hfirst : first = ['.', '.'] := (List.mem_singleton.mp hn).symm
            cases hlast : done.getLast? with
            | none => exact hroot ⟨hfirst, List.getLast?_eq_none_iff.mp hlast, rfl⟩
            | some last =>
              refine hup ⟨hfirst, by simp [hlast], fun he => ?_⟩
              exact hdone (List.mem_of_getLast? he)

/-- The length of names and the separators behind them. -/
def weight (names : List Name) : Nat := (names.map fun n => n.length + 1).sum

theorem weight_append (a b : List Name) : weight (a ++ b) = weight a + weight b := by
  simp [weight]

theorem weight_dropLast_le (names : List Name) : weight names.dropLast ≤ weight names := by
  rcases List.eq_nil_or_concat names with rfl | ⟨init, last, rfl⟩
  · simp
  · rw [List.concat_eq_append, List.dropLast_concat, weight_append]
    exact Nat.le_add_right _ _

theorem weight_normNames_le (rooted : Bool) (done names : List Name) :
    weight (normNames rooted done names) ≤ weight done + weight names := by
  induction names generalizing done with
  | nil => simp [normNames, weight]
  | cons first names ih =>
    have hcons : weight (first :: names) = first.length + 1 + weight names := by simp [weight]
    have hdrop := weight_dropLast_le done
    rw [normNames, hcons]
    split
    · have := ih done
      omega
    · split
      · have := ih done.dropLast
        omega
      · split
        · have := ih done
          omega
        · have := ih (done ++ [first])
          have hone : weight [first] = first.length + 1 := by simp [weight]
          rw [weight_append, hone] at this
          omega

theorem length_joinWith (sep : Char) (h : names ≠ []) :
    (joinWith sep names).length + 1 = weight names := by
  induction names with
  | nil => exact absurd rfl h
  | cons first names ih =>
    have hcons : weight (first :: names) = first.length + 1 + weight names := by simp [weight]
    cases names with
    | nil => simp [joinWith, weight]
    | cons next names =>
      have hnext := ih (by simp)
      rw [joinWith_cons first (by simp), hcons]
      simp only [List.length_append, List.length_cons]
      omega

end Normal

namespace Posix

/-- A text that `normpath` returns for a path with a root. -/
def IsNormal (text : List Char) : Prop :=
  ∃ slashes names, (slashes = ['/'] ∨ slashes = ['/', '/']) ∧ Unseparated '/' names ∧
    (∀ n ∈ names, IsPlain n) ∧ text = slashes ++ joinWith '/' names

theorem initialSlashes_rooted (rest : List Char) :
    initialSlashes ('/' :: rest) = ['/'] ∨ initialSlashes ('/' :: rest) = ['/', '/'] := by
  rw [initialSlashes, if_pos (by simp [List.isPrefixOf])]
  split
  · exact .inr rfl
  · exact .inl rfl

theorem normpath_rooted (rest : List Char) : normpath ('/' :: rest) =
      initialSlashes ('/' :: rest) ++ joinWith '/' (normNames true [] (rest.splitOn '/')) := by
  have hne : initialSlashes ('/' :: rest) ≠ [] := by
    rcases initialSlashes_rooted rest with h | h
    · simp [h]
    · simp [h]
  rw [normpath_eq rfl hne, splitOn_cons_self, normNames, if_pos (.inl rfl)]

theorem isNormal_normpath (rest : List Char) : IsNormal (normpath ('/' :: rest)) := by
  refine ⟨_, _, initialSlashes_rooted rest, ?_, ?_, normpath_rooted rest⟩
  · exact all_normNames (by simp) fun n hn _ _ => Text.not_mem_of_mem_splitOn hn
  · intro n hn
    have hkept := all_normNames (P := fun n => n ≠ [] ∧ n ≠ ['.']) (by simp)
      (fun n _ hempty hdot => ⟨hempty, hdot⟩) n hn
    have hdots := @dots_not_mem_normNames (rest.splitOn '/') [] (by simp)
    exact ⟨hkept.1, hkept.2, fun he => hdots (he ▸ hn)⟩

variable {text : List Char}

theorem IsNormal.head (h : IsNormal text) : ∃ rest, text = '/' :: rest := by
  obtain ⟨slashes, names, hslashes, -, -, rfl⟩ := h
  rcases hslashes with rfl | rfl
  · exact ⟨_, rfl⟩
  · exact ⟨_, rfl⟩

theorem IsNormal.normpath_eq_self (h : IsNormal text) : normpath text = text := by
  obtain ⟨slashes, names, hslashes, hunseparated, hplain, rfl⟩ := h
  have hnames : ∀ slashes : List Char, slashes = ['/'] ∨ slashes = ['/', '/'] →
      normNames true [] ((slashes ++ joinWith '/' names).splitOn '/') = names := by
    have hone := normNames_textOf hunseparated hplain 0
    simp only [textOf, List.replicate_zero, List.append_nil] at hone
    rintro _ (rfl | rfl)
    · exact hone
    · rw [List.cons_append, splitOn_cons_self, normNames, if_pos (.inl rfl)]
      exact hone
  have hroot : initialSlashes (slashes ++ joinWith '/' names) = slashes := by
    cases names with
    | nil =>
      rcases hslashes with rfl | rfl
      · rfl
      · rfl
    | cons first names =>
      obtain ⟨c, rest, hjoin, hc⟩ := head_joinWith hunseparated hplain (by simp)
      have hc' : ('/' == c) = false := beq_false_of_ne hc.symm
      rw [hjoin]
      rcases hslashes with rfl | rfl
      · simp [initialSlashes, List.isPrefixOf, hc']
      · simp [initialSlashes, List.isPrefixOf, hc']
  have hne : slashes ≠ [] := by
    rcases hslashes with rfl | rfl
    · simp
    · simp
  rw [normpath_eq hroot hne, hnames _ hslashes]

theorem IsNormal.rstrip_eq (h : IsNormal text) :
    (text = ['/'] ∨ text = ['/', '/']) ∨ rstrip ['/'] text = text := by
  obtain ⟨slashes, names, hslashes, hunseparated, hplain, rfl⟩ := h
  by_cases hne : names = []
  · rw [hne]
    exact .inl (by simpa [joinWith] using hslashes)
  · refine .inr (rstrip_eq_self fun c hc => ?_)
    obtain ⟨n, hn, hlast⟩ := getLast?_joinWith hunseparated hne hplain
    have hjoin : joinWith '/' names ≠ [] := by
      obtain ⟨c, rest, hcons, -⟩ := head_joinWith hunseparated hplain hne
      simp [hcons]
    rw [List.getLast?_append_of_ne_nil _ hjoin, hlast] at hc
    have hmem := List.mem_of_getLast? hc
    simpa using fun he : c = '/' => hunseparated n hn (he ▸ hmem)

theorem IsNormal.append (h : IsNormal text) (hne : rstrip ['/'] text = text) {rest : List Char}
    (hrest : IsNormal ('/' :: rest)) (hslash : ¬ ['/'] <+: rest) (hempty : rest ≠ []) :
    IsNormal (text ++ '/' :: rest) := by
  obtain ⟨slashes, names, hslashes, hunseparated, hplain, rfl⟩ := h
  obtain ⟨slashes', names', hslashes', hunseparated', hplain', heq⟩ := hrest
  have hone : rest = joinWith '/' names' := by
    rcases hslashes' with rfl | rfl
    · exact (List.cons.inj heq).2
    · exact absurd ⟨_, (List.cons.inj heq).2.symm⟩ hslash
  have hnames : names ≠ [] := by
    rintro rfl
    rcases hslashes with rfl | rfl
    · exact absurd hne (by decide)
    · exact absurd hne (by decide)
  have hnames' : names' ≠ [] := by
    rintro rfl
    exact hempty hone
  refine ⟨slashes, names ++ names', hslashes, ?_, ?_, ?_⟩
  · intro n hn
    rcases List.mem_append.mp hn with hn | hn
    · exact hunseparated n hn
    · exact hunseparated' n hn
  · intro n hn
    rcases List.mem_append.mp hn with hn | hn
    · exact hplain n hn
    · exact hplain' n hn
  · rw [joinWith_append hnames hnames', hone, List.append_assoc]

theorem IsNormal.dots_not_mem (h : IsNormal text) : ['.', '.'] ∉ text.splitOn '/' := by
  obtain ⟨slashes, names, hslashes, hunseparated, hplain, rfl⟩ := h
  have hjoin : ['.', '.'] ∉ (joinWith '/' names).splitOn '/' := by
    cases names with
    | nil => simp [joinWith]
    | cons first names =>
      rw [splitOn_joinWith hunseparated (by simp)]
      exact fun hn => (hplain _ hn).2.2 rfl
  rcases hslashes with rfl | rfl
  · rw [List.singleton_append, splitOn_cons_self]
    simpa using hjoin
  · rw [List.cons_append, List.singleton_append, splitOn_cons_self, splitOn_cons_self]
    simpa using hjoin

theorem root_of_normpath {path rest : List Char} (h : normpath path = '/' :: rest) :
    ∃ tail, path = '/' :: tail := by
  cases path with
  | nil =>
    have hdot : normpath [] = ['.'] := by decide
    simp [hdot] at h
  | cons c tail =>
    by_cases hc : c = '/'
    · exact ⟨tail, by rw [hc]⟩
    · have hroot : initialSlashes (c :: tail) = [] := by
        have hc' : ('/' == c) = false := beq_false_of_ne fun he => hc he.symm
        simp [initialSlashes, List.isPrefixOf, hc']
      have hnames := @all_normNames ((c :: tail).splitOn '/') [] false
        (fun n => n ≠ [] ∧ '/' ∉ n) (by simp)
        fun n hn hempty _ => ⟨hempty, Text.not_mem_of_mem_splitOn hn⟩
      rw [normpath, hroot] at h
      simp only [List.nil_append, ne_eq, not_true_eq_false, decide_false] at h
      cases hcase : normNames false [] ((c :: tail).splitOn '/') with
      | nil =>
        rw [hcase] at h
        simp [joinWith] at h
      | cons first names =>
        rw [hcase] at hnames
        obtain ⟨hempty, hslash⟩ := hnames first List.mem_cons_self
        cases first with
        | nil => exact absurd rfl hempty
        | cons d first =>
          have hd : joinWith '/' ((d :: first) :: names) =
              d :: (first ++ names.flatMap fun n => '/' :: n) := by
            rw [joinWith_eq_flatMap]
            rfl
          rw [hcase, hd, if_neg (by simp)] at h
          obtain ⟨hslash', -⟩ := List.cons.inj h
          exact absurd (hslash' ▸ List.mem_cons_self) hslash

theorem length_normpath_le (rest : List Char) :
    (normpath ('/' :: rest)).length ≤ rest.length + 1 := by
  have hweight : ∀ text : List Char, weight (text.splitOn '/') = text.length + 1 := by
    intro text
    rw [← length_joinWith '/' (List.splitOn_ne_nil '/' text), joinWith_splitOn]
  have hjoin : ∀ names : List Name, (joinWith '/' names).length ≤ weight names - 1 := by
    intro names
    cases names with
    | nil => simp [joinWith]
    | cons first names =>
      have := length_joinWith '/' (by simp : first :: names ≠ [])
      omega
  have hone := weight_normNames_le true [] (rest.splitOn '/')
  have hnames := hjoin (normNames true [] (rest.splitOn '/'))
  have hempty : weight [] = 0 := rfl
  rw [hweight, hempty] at hone
  rw [normpath_rooted, List.length_append]
  rcases initialSlashes_rooted rest with hroot | hroot
  · rw [hroot, List.length_singleton]
    omega
  · rw [hroot]
    have hrest : ∃ tail, rest = '/' :: tail := by
      cases rest with
      | nil => exact absurd hroot (by decide)
      | cons c tail =>
        by_cases hc : c = '/'
        · exact ⟨tail, by rw [hc]⟩
        · have hc' : ('/' == c) = false := beq_false_of_ne fun he => hc he.symm
          simp [initialSlashes, List.isPrefixOf, hc'] at hroot
    obtain ⟨tail, rfl⟩ := hrest
    have htwo := weight_normNames_le true [] (tail.splitOn '/')
    have hnames' := hjoin (normNames true [] (tail.splitOn '/'))
    rw [hweight, hempty] at htwo
    rw [splitOn_cons_self, normNames, if_pos (.inl rfl)]
    simp only [List.length_cons, List.length_nil]
    omega

end Posix

/-! ## Normal paths of `ntpath` -/

namespace Nt

variable {m : LowerCase} {drive : List Char} {names : List Name}

/-- A text that `splitroot` takes for the drive of a path with a root. -/
structure IsDrive (drive body : List Char) : Prop where
  slash : '/' ∉ drive
  rooted : splitroot (drive ++ '\\' :: body) = (drive, ['\\'], body)

/-- The text of a normal path below a drive, with separators at its end. -/
def textOf (drive : List Char) (names : List Name) (n : Nat) : List Char :=
  drive ++ '\\' :: (joinWith '\\' names ++ List.replicate n '\\')

theorem replaceSlashes_eq_self {path : List Char} (h : '/' ∉ path) : replaceSlashes path = path := by
  rw [replaceSlashes]
  conv_rhs => rw [← List.map_id path]
  refine List.map_congr_left fun c hc => ?_
  have hne : c ≠ '/' := by
    rintro rfl
    exact h hc
  rw [if_neg hne]
  rfl

theorem mem_joinWith {sep c : Char} (hc : c ∈ joinWith sep names) :
    c = sep ∨ ∃ n ∈ names, c ∈ n := by
  induction names with
  | nil => simp [joinWith] at hc
  | cons first names ih =>
    cases names with
    | nil => exact .inr ⟨first, List.mem_cons_self, by simpa [joinWith] using hc⟩
    | cons next names =>
      rw [joinWith_cons first (by simp)] at hc
      rcases List.mem_append.mp hc with hc | hc
      · exact .inr ⟨first, List.mem_cons_self, hc⟩
      · rcases List.mem_cons.mp hc with hc | hc
        · exact .inl hc
        · rcases ih hc with hc | ⟨n, hn, hc⟩
          · exact .inl hc
          · exact .inr ⟨n, List.mem_cons_of_mem _ hn, hc⟩

theorem slash_not_mem_textOf (hdrive : '/' ∉ drive) (hslash : Unseparated '/' names) (n : Nat) :
    '/' ∉ textOf drive names n := by
  intro hc
  rcases List.mem_append.mp hc with hc | hc
  · exact hdrive hc
  rcases List.mem_cons.mp hc with hc | hc
  · simp at hc
  rcases List.mem_append.mp hc with hc | hc
  · rcases mem_joinWith hc with hc | ⟨m, hm, hc⟩
    · simp at hc
    · exact hslash m hm hc
  · have := List.eq_of_mem_replicate hc
    simp at this

theorem normpath_textOf (h : Unseparated '\\' names) (hslash : Unseparated '/' names)
    (hplain : ∀ n ∈ names, IsPlain n) (n : Nat)
    (hdrive : IsDrive drive (joinWith '\\' names ++ List.replicate n '\\')) :
    normpath (textOf drive names n) = textOf drive names 0 := by
  rw [normpath, replaceSlashes_eq_self (slash_not_mem_textOf hdrive.slash hslash n), textOf,
    hdrive.rooted]
  show (if drive ++ ['\\'] = [] ∧ _ then _ else drive ++ ['\\'] ++ joinWith '\\' (normNames true []
    ((joinWith '\\' names ++ List.replicate n '\\').splitOn '\\'))) = _
  rw [if_neg (by simp), normNames_splitOn true h hplain]
  simp [textOf]

/-- The parts of a normal path, in lower case, without the separators at its end. -/
theorem parts_textOf (h : Unseparated '\\' names) (hslash : Unseparated '/' names)
    (hplain : ∀ n ∈ names, IsPlain n) (hdrive : '/' ∉ drive)
    (hlast : ∀ c ∈ drive.getLast?, c ∉ ['\\', '/']) :
    (normcase m (rstrip ['\\', '/'] (textOf drive names 0))).splitOn '\\' =
      (drive.splitOn '\\' ++ names).map m.lower := by
  have hstrip : rstrip ['\\', '/'] (textOf drive names 0) =
      if names = [] then drive else drive ++ '\\' :: joinWith '\\' names := by
    rw [textOf, List.replicate_zero, List.append_nil]
    split
    · rename_i hnil
      rw [hnil, show (joinWith '\\' [] : List Char) = [] from rfl, rstrip_append (by simp),
        rstrip_eq_self hlast]
    · rename_i hne
      refine rstrip_eq_self fun c hc hsep => ?_
      obtain ⟨n, hn, hmem⟩ := mem_name_of_last h hne hplain drive hc
      rcases List.mem_cons.mp hsep with rfl | hsep
      · exact h n hn hmem
      · rw [List.mem_singleton.mp hsep] at hmem
        exact hslash n hn hmem
  have hnone : '/' ∉ rstrip ['\\', '/'] (textOf drive names 0) := by
    rw [rstrip, List.mem_reverse]
    intro hc
    have hmem := List.mem_reverse.mp ((List.dropWhile_suffix _).subset hc)
    exact slash_not_mem_textOf hdrive hslash 0 hmem
  rw [normcase, replaceSlashes_eq_self hnone, m.splitOn_lower, hstrip]
  split
  · rename_i hnil
    rw [hnil, List.append_nil]
  · rename_i hne
    rw [List.splitOn_append_cons_self, splitOn_joinWith h hne]

theorem parts_separators (hnorm : ∀ c ∈ drive, c = '\\' ∨ c = '/') :
    (normcase m (rstrip ['\\', '/'] drive)).splitOn '\\' = [[]] := by
  have hnil : rstrip ['\\', '/'] drive = [] := by
    rw [rstrip, List.reverse_eq_nil_iff, List.dropWhile_eq_nil_iff]
    intro c hc
    rcases hnorm c (List.mem_reverse.mp hc) with rfl | rfl
    · decide
    · decide
  rw [hnil, normcase, replaceSlashes, List.map_nil, m.nil, List.splitOn_nil]

/-! ### Drives -/

variable {path rest : List Char}

/-- The two cases of `splitroot` for a path that starts with two separators. -/
theorem splitroot_drive {n : Nat} (hnorm : replaceSlashes path = '\\' :: '\\' :: rest)
    (hlength : uncLength (replaceSlashes path) = some n) :
    splitroot path = (path.take n, (path.drop n).take 1, path.drop (n + 1)) := by
  rw [hnorm] at hlength
  rw [splitroot, hnorm]
  simp only
  rw [hlength]

theorem splitroot_no_drive (hnorm : replaceSlashes path = '\\' :: '\\' :: rest)
    (hlength : uncLength (replaceSlashes path) = none) : splitroot path = (path, [], []) := by
  rw [hnorm] at hlength
  rw [splitroot, hnorm]
  simp only
  rw [hlength]

theorem isDrive_letter {letter : Char} (h : letter ≠ '\\') (h' : letter ≠ '/') (body : List Char) :
    IsDrive [letter, ':'] body := by
  constructor
  · simp [h'.symm]
  · have hnorm : replaceSlashes ([letter, ':'] ++ '\\' :: body) =
        letter :: ':' :: '\\' :: replaceSlashes body := by
      simp [replaceSlashes, h']
    rw [splitroot, hnorm]
    split
    · rename_i heq
      exact absurd (List.cons.inj heq).1 h
    · rename_i heq
      exact absurd (List.cons.inj heq).1 h
    · rfl
    · rename_i hno heq
      exact (hno _ (List.cons.inj (List.cons.inj heq).2).2.symm).elim
    · rename_i hno _
      exact absurd rfl (hno letter _)

def shareText (server share : Name) : List Char := '\\' :: '\\' :: (server ++ '\\' :: share)

section Share

variable {server share : Name}

theorem isLongUnc_share (h : '\\' ∉ server) (hne : server ≠ []) (hlong : server ≠ ['?'])
    (body : List Char) : isLongUnc (shareText server share ++ body) = false := by
  have htake : ¬ (shareText server share ++ body).take 4 = ['\\', '\\', '?', '\\'] := by
    intro heq
    cases server with
    | nil => exact hne rfl
    | cons c server =>
      cases server with
      | nil =>
        have hc : c = '?' := by simpa [shareText] using heq
        exact hlong (by rw [hc])
      | cons d server =>
        have hd : c = '?' ∧ d = '\\' := by simpa [shareText] using heq
        exact h (by simp [hd.2])
  simp [isLongUnc, htake]

theorem uncLength_share (hserver : '\\' ∉ server) (hshare : '\\' ∉ share) (hne : server ≠ [])
    (hlong : server ≠ ['?']) (body : List Char) :
    uncLength (shareText server share ++ '\\' :: body) = some (shareText server share).length := by
  rw [uncLength, isLongUnc_share hserver hne hlong]
  have hdrop : (shareText server share ++ '\\' :: body).drop 2 =
      server ++ '\\' :: (share ++ '\\' :: body) := by simp [shareText]
  simp only [Bool.false_eq_true, if_false, hdrop]
  rw [Text.splitFirst_append hserver]
  simp only
  rw [Text.splitFirst_append hshare]
  simp only [shareText, List.length_cons, List.length_append, Option.some.injEq]
  omega

theorem uncLength_bare (hserver : '\\' ∉ server) (hshare : '\\' ∉ share) (hne : server ≠ [])
    (hlong : server ≠ ['?']) : uncLength (shareText server share) = none := by
  have hfalse : isLongUnc (shareText server share ++ []) = false :=
    isLongUnc_share hserver hne hlong []
  rw [List.append_nil] at hfalse
  rw [uncLength, hfalse]
  have hdrop : (shareText server share).drop 2 = server ++ '\\' :: share := by simp [shareText]
  simp only [Bool.false_eq_true, if_false, hdrop]
  rw [Text.splitFirst_append hserver]
  simp only
  rw [Text.splitFirst_eq_none hshare]

theorem slash_not_mem_shareText (hserver : '/' ∉ server) (hshare : '/' ∉ share) :
    '/' ∉ shareText server share := by
  simp [shareText, hserver, hshare]

theorem replaceSlashes_append (a b : List Char) :
    replaceSlashes (a ++ b) = replaceSlashes a ++ replaceSlashes b := List.map_append

theorem isDrive_share (hserver : '\\' ∉ server) (hserver' : '/' ∉ server) (hshare : '\\' ∉ share)
    (hshare' : '/' ∉ share) (hne : server ≠ []) (hlong : server ≠ ['?']) (body : List Char) :
    IsDrive (shareText server share) body := by
  have hslash := slash_not_mem_shareText hserver' hshare'
  constructor
  · exact hslash
  · have hnorm : replaceSlashes (shareText server share ++ '\\' :: body) =
        shareText server share ++ '\\' :: replaceSlashes body := by
      rw [replaceSlashes_append, replaceSlashes_eq_self hslash]
      rfl
    have hlength := uncLength_share hserver hshare hne hlong (replaceSlashes body)
    rw [← hnorm] at hlength
    rw [splitroot_drive hnorm hlength, List.take_left, List.drop_left, ← List.drop_drop,
      List.drop_left]
    rfl

theorem splitroot_share (hserver : '\\' ∉ server) (hserver' : '/' ∉ server)
    (hshare : '\\' ∉ share) (hshare' : '/' ∉ share) (hne : server ≠ []) (hlong : server ≠ ['?']) :
    splitroot (shareText server share) = (shareText server share, [], []) := by
  have hself := replaceSlashes_eq_self (slash_not_mem_shareText hserver' hshare')
  have hbare := uncLength_bare hserver hshare hne hlong
  rw [← hself] at hbare
  exact splitroot_no_drive hself hbare

theorem normpath_share (hserver : '\\' ∉ server) (hserver' : '/' ∉ server) (hshare : '\\' ∉ share)
    (hshare' : '/' ∉ share) (hne : server ≠ []) (hlong : server ≠ ['?']) :
    normpath (shareText server share) = shareText server share := by
  rw [normpath, replaceSlashes_eq_self (slash_not_mem_shareText hserver' hshare'),
    splitroot_share hserver hserver' hshare hshare' hne hlong]
  simp [normNames, joinWith, shareText]

end Share

/-- A root without a drive, of a text that does not go on with a separator. -/
theorem isDrive_nil {body : List Char} (h : ∀ c ∈ body.head?, c ≠ '\\' ∧ c ≠ '/') :
    IsDrive [] body := by
  constructor
  · simp
  · have hnorm : replaceSlashes ([] ++ '\\' :: body) = '\\' :: replaceSlashes body := by
      simp [replaceSlashes]
    rw [splitroot, hnorm]
    split
    · rename_i rest heq
      exfalso
      cases body with
      | nil => simp [replaceSlashes] at heq
      | cons c body =>
        obtain ⟨hc, hc'⟩ := h c (by simp)
        simp [replaceSlashes, hc', hc] at heq
    · rfl
    · rename_i hno heq
      exact (hno (List.cons.inj heq).1.symm).elim
    · rename_i hno _ heq
      exact (hno (List.cons.inj heq).1.symm).elim
    · rename_i hno _ _
      exact (hno _ rfl).elim

/-! ### Separators only -/

/-- The parts of `splitroot` are the text. -/
theorem splitroot_append (path : List Char) :
    (splitroot path).1 ++ (splitroot path).2.1 ++ (splitroot path).2.2 = path := by
  have hthree : ∀ n : Nat, path.take n ++ (path.drop n).take 1 ++ path.drop (n + 1) = path := by
    intro n
    rw [List.append_assoc, show path.drop (n + 1) = (path.drop n).drop 1 by rw [List.drop_drop],
      List.take_append_drop, List.take_append_drop]
  rw [splitroot]
  split
  · split
    · simp
    · exact hthree _
  · exact List.take_append_drop 1 path
  · exact hthree 2
  · rw [List.append_nil]
    exact List.take_append_drop 2 path
  · rfl

theorem splitOn_separators {sep : Char} {text : List Char} (h : ∀ c ∈ text, c = sep) :
    text.splitOn sep = List.replicate (text.length + 1) [] := by
  induction text with
  | nil => simp
  | cons c text ih =>
    rw [h c List.mem_cons_self, splitOn_cons_self, ih fun d hd => h d (List.mem_cons_of_mem c hd)]
    rfl

theorem splitroot_ne_nil (h : replaceSlashes path = '\\' :: rest) :
    (splitroot path).1 ++ (splitroot path).2.1 ≠ [] := by
  have hpath : path ≠ [] := by
    rintro rfl
    simp [replaceSlashes] at h
  cases rest with
  | nil => simp [splitroot, h, hpath]
  | cons c rest =>
    by_cases hc : c = '\\'
    · subst hc
      cases hl : uncLength (replaceSlashes path) with
      | none => simp [splitroot_no_drive h hl, hpath]
      | some n =>
        rw [splitroot_drive h hl, ← List.take_add]
        simp [hpath]
    · simp [splitroot, h, hc, hpath]

/-- `normpath` leaves separators only, where it finds nothing else. -/
theorem normpath_separators {path : List Char} (h : ∀ c ∈ path, c = '\\' ∨ c = '/')
    (hne : path ≠ []) : ∀ c ∈ normpath path, c = '\\' := by
  have hall : ∀ c ∈ replaceSlashes path, c = '\\' := by
    intro c hc
    obtain ⟨d, hd, rfl⟩ := List.mem_map.mp hc
    rcases h d hd with rfl | rfl
    · simp
    · simp
  have hself : replaceSlashes (replaceSlashes path) = replaceSlashes path := by
    refine replaceSlashes_eq_self fun hc => ?_
    simpa using hall _ hc
  have hstart : ∃ rest, replaceSlashes (replaceSlashes path) = '\\' :: rest := by
    rw [hself]
    cases hpath : replaceSlashes path with
    | nil => exact absurd (List.map_eq_nil_iff.mp hpath) hne
    | cons c rest =>
      rw [hall c (by rw [hpath]; exact List.mem_cons_self)]
      exact ⟨rest, rfl⟩
  obtain ⟨start, hstart⟩ := hstart
  have happend := splitroot_append (replaceSlashes path)
  have hdrive := splitroot_ne_nil hstart
  cases hsplit : splitroot (replaceSlashes path) with
  | mk drive tail =>
    obtain ⟨root, rest⟩ := tail
    rw [hsplit] at happend hdrive
    simp only at happend hdrive
    have hrest : ∀ c ∈ rest, c = '\\' := fun c hc =>
      hall c (by rw [← happend]; exact List.mem_append_right _ hc)
    intro c hc
    rw [normpath, hsplit] at hc
    simp only [splitOn_separators hrest, normNames_replicate] at hc
    rw [if_neg fun hno => hdrive hno.1, show joinWith '\\' [] = [] from rfl, List.append_nil] at hc
    exact hall c (by rw [← happend]; exact List.mem_append_left _ hc)

/-! ### Names below a path -/

/-- A name that `ntpath` reads as a name. -/
def IsName (n : Name) : Prop := n ≠ [] ∧ '\\' ∉ n ∧ '/' ∉ n ∧ ':' ∉ n

theorem splitroot_name {n : Name} (h : IsName n) : splitroot n = ([], [], n) := by
  obtain ⟨-, hsep, hslash, hcolon⟩ := h
  rw [splitroot, replaceSlashes_eq_self hslash]
  split
  · simp at hsep
  · simp at hsep
  · simp at hcolon
  · simp at hcolon
  · rfl

theorem getLast?_name {n : Name} (h : IsName n) (path : List Char) :
    path ++ n ≠ [] ∧ (path ++ n).getLast? ≠ some '\\' ∧ (path ++ n).getLast? ≠ some '/' := by
  obtain ⟨hne, hsep, hslash, -⟩ := h
  rw [List.getLast?_append_of_ne_nil _ hne]
  refine ⟨by simp [hne], fun hc => hsep (List.mem_of_getLast? hc), fun hc => ?_⟩
  exact hslash (List.mem_of_getLast? hc)

theorem foldl_joinStep (path : List Char) {first : Name} (hfirst : IsName first)
    (h : ∀ n ∈ names, IsName n) : names.foldl (joinStep m) ([], [], path ++ first) =
      ([], [], path ++ first ++ names.flatMap fun n => '\\' :: n) := by
  induction names generalizing path first with
  | nil => simp
  | cons n names ih =>
    have hn := h n List.mem_cons_self
    have hstep : joinStep m ([], [], path ++ first) n =
        ([], [], (path ++ first ++ ['\\']) ++ n) := by
      obtain ⟨hne, hsep, hslash⟩ := getLast?_name hfirst path
      rw [joinStep, splitroot_name hn]
      simp only [ne_eq, not_true_eq_false, if_false, false_and]
      rw [if_pos ⟨hne, hsep, hslash⟩]
    rw [List.foldl_cons, hstep, ih _ hn fun k hk => h k (List.mem_cons_of_mem n hk)]
    simp

/-- `ntpath.join` of names puts a separator between them. -/
theorem join_names (h : ∀ n ∈ names, IsName n) : join m names = joinWith '\\' names := by
  cases names with
  | nil => rfl
  | cons first rest =>
    have hfirst := h first List.mem_cons_self
    have hfold := foldl_joinStep (m := m) [] hfirst fun n hn => h n (List.mem_cons_of_mem first hn)
    rw [List.nil_append] at hfold
    rw [join, splitroot_name hfirst, hfold, joinWith_eq_flatMap]
    simp

theorem normcase_name {n : Name} (h : '/' ∉ n) : normcase m n = m.lower n := by
  rw [normcase, replaceSlashes_eq_self h]

theorem relpath_below {path start startDrive startRoot pathDrive pathRoot : List Char}
    {startNames : List Name}
    (hstart : splitroot (normpath start) = (startDrive, startRoot, joinWith '\\' startNames))
    (hpath : splitroot (normpath path) = (pathDrive, pathRoot, joinWith '\\' names))
    (hplain : ∀ n ∈ startNames ++ names, IsPlain n) (hnames : ∀ n ∈ startNames ++ names, IsName n)
    (hdrive : normcase m startDrive = normcase m pathDrive)
    (hbelow : startNames.map m.lower <+: names.map m.lower) :
    relpath m path start = .ok (if names.drop startNames.length = [] then ['.']
      else joinWith '\\' (names.drop startNames.length)) := by
  have hsep : Unseparated '\\' (startNames ++ names) := fun n hn => (hnames n hn).2.1
  have hrelative : relativeNames (fun a b => normcase m a = normcase m b) startNames names =
      names.drop startNames.length := by
    have hlength : startNames.length ≤ names.length := by simpa using hbelow.length_le
    refine relativeNames_of_below hlength fun p hp => ?_
    obtain ⟨i, hi, hget⟩ := List.getElem_of_mem hp
    rw [List.length_zip] at hi
    have hsame := hbelow.getElem (i := i) (by simp; omega)
    rw [List.getElem_zip] at hget
    subst hget
    have hslash := (hnames startNames[i] (by simp)).2.2.1
    have hslash' := (hnames names[i] (by simp)).2.2.1
    simpa [normcase_name hslash, normcase_name hslash'] using hsame
  rw [relpath, hstart, hpath]
  simp only [hdrive, ne_eq, not_true_eq_false, if_false]
  rw [filter_splitOn (fun n hn => hsep n (List.mem_append_left _ hn))
      (fun n hn => hplain n (List.mem_append_left _ hn)),
    filter_splitOn (fun n hn => hsep n (List.mem_append_right _ hn))
      (fun n hn => hplain n (List.mem_append_right _ hn)), hrelative]
  cases hrest : names.drop startNames.length with
  | nil => rfl
  | cons first rest =>
    have hrestNames : ∀ n ∈ first :: rest, IsName n := by
      intro n hn
      rw [← hrest] at hn
      exact hnames n (List.mem_append_right _ (List.drop_subset _ _ hn))
    simp [join_names hrestNames]

/-! ### Slashes for separators -/

theorem replaceSlashes_replaceSlashes (path : List Char) :
    replaceSlashes (replaceSlashes path) = replaceSlashes path := by
  refine replaceSlashes_eq_self fun hc => ?_
  obtain ⟨d, -, hd⟩ := List.mem_map.mp hc
  split at hd
  · simp at hd
  · rename_i hne
    exact hne hd

theorem normpath_replaceSlashes (path : List Char) : normpath (replaceSlashes path) = normpath path := by
  rw [normpath, normpath, replaceSlashes_replaceSlashes]

theorem normcase_rstrip_replaceSlashes (path : List Char) :
    normcase m (rstrip ['\\', '/'] (replaceSlashes path)) = normcase m (rstrip ['\\', '/'] path) := by
  have hcomm : rstrip ['\\', '/'] (replaceSlashes path) =
      replaceSlashes (rstrip ['\\', '/'] path) := by
    rw [rstrip, rstrip, replaceSlashes, replaceSlashes, ← List.map_reverse, List.dropWhile_map,
      List.map_reverse]
    congr 3
    funext c
    by_cases hc : c = '/'
    · simp [hc]
    · simp [hc]
  rw [normcase, normcase, hcomm, replaceSlashes_replaceSlashes]

theorem replaceSlashes_textOf (hslash : Unseparated '/' names) (n : Nat) :
    replaceSlashes (Posix.textOf names n) = textOf [] names n := by
  have hjoin : replaceSlashes (joinWith '/' names) = joinWith '\\' names := by
    induction names with
    | nil => rfl
    | cons first names ih =>
      have hfirst := replaceSlashes_eq_self (hslash first List.mem_cons_self)
      cases names with
      | nil => simpa [joinWith] using hfirst
      | cons next names =>
        rw [joinWith_cons first (by simp), joinWith_cons first (by simp),
          replaceSlashes_append, hfirst]
        exact congrArg (fun t => first ++ '\\' :: t)
          (ih fun k hk => hslash k (List.mem_cons_of_mem first hk))
  rw [Posix.textOf, textOf, List.nil_append, ← hjoin]
  simp [replaceSlashes]

/-! ### Texts in lower case -/

theorem lower_eq_iff {a b : List Char} :
    m.lower a = m.lower b ↔ (a.splitOn '\\').map m.lower = (b.splitOn '\\').map m.lower := by
  constructor
  · intro h
    rw [← m.splitOn_lower, ← m.splitOn_lower, h]
  · intro h
    rw [← m.splitOn_lower, ← m.splitOn_lower] at h
    rw [← @joinWith_splitOn '\\' (m.lower a), h, joinWith_splitOn]

end Nt

end PythonPath
