import HyperFileLens.Library.PythonPath

/-!
# Paths of shares

A path in a NAS source is written relative to the share, with the export path before it, or as
a path below the directory where a proxy has the share mounted. The functions of
`nas_share_path.py` guess which one they were given from what it starts with.

`share_paths_convert` says what becomes of the guesses. A mount path never leaves the mount
root. A normal path of the share comes back from its mount path, and a stored path stays the
same when it is normalized again, just when it does not look like one of the other notations,
which a directory does whose name repeats the mount root or the export path.
-/

namespace HyperFileLens.Nas

open PythonPath

abbrev PathText := List Char

namespace SharePath

/-! ## The functions -/

def strip (text : PathText) : PathText := Text.trim Text.isPySpace text

/-- `a or b` of two texts. -/
def orElse (a b : PathText) : PathText := if a = [] then b else a

def cleanPosixPath (path : PathText) : PathText :=
  let value := strip path
  if value = [] then [] else Posix.normpath value

/-- `_clean_posix_path(path).rstrip("/")`, which the functions compare. -/
def cleanDirectory (path : PathText) : PathText := rstrip ['/'] (cleanPosixPath path)

def normalizeShareRelativePath (path : PathText) : PathText :=
  let value := strip path
  if value = [] ∨ value = ['/'] then ['/']
  else
    let value := if ['/'] <+: value then value else '/' :: value
    let normalized := Posix.normpath value
    if normalized = ['.'] then ['/']
    else if ['/'] <+: normalized then normalized
    else '/' :: normalized

def isMountSubpath (root path : PathText) : Bool :=
  let cleanRoot := cleanDirectory root
  let cleanPath := orElse (cleanDirectory path) cleanRoot
  if cleanRoot = [] ∨ cleanPath = [] then false
  else if cleanPath = cleanRoot then true
  else decide (cleanRoot ++ ['/'] <+: cleanPath)

def toShareRelative (mountRoot mountPath : PathText) : PathText :=
  let cleanRoot := cleanDirectory mountRoot
  let cleanPath := orElse (cleanDirectory mountPath) cleanRoot
  if cleanRoot = [] then normalizeShareRelativePath cleanPath
  else if cleanPath = cleanRoot then ['/']
  else if cleanRoot ++ ['/'] <+: cleanPath then
    normalizeShareRelativePath (cleanPath.drop cleanRoot.length)
  else normalizeShareRelativePath cleanPath

def toMountPath (mountRoot userPath : PathText) : PathText :=
  let cleanRoot := cleanDirectory mountRoot
  if cleanRoot = [] then cleanPosixPath userPath
  else
    let cleanUser := strip userPath
    if cleanUser = [] ∨ cleanUser = ['/'] then cleanRoot
    else if isMountSubpath cleanRoot cleanUser then
      orElse (cleanDirectory cleanUser) cleanRoot
    else
      let relative := normalizeShareRelativePath cleanUser
      if relative = ['/'] then cleanRoot else cleanRoot ++ relative

def normalizeUserSharePath (mountRoot exportPath userPath : PathText) : PathText :=
  let cleanUser := strip userPath
  if cleanUser = [] then ['/']
  else
    let cleanRoot := cleanDirectory mountRoot
    if cleanRoot ≠ [] ∧ isMountSubpath cleanRoot cleanUser then
      toShareRelative cleanRoot cleanUser
    else
      let exportClean := cleanDirectory exportPath
      if exportClean ≠ [] ∧ cleanUser = exportClean then ['/']
      else if exportClean ≠ [] ∧ exportClean ++ ['/'] <+: cleanUser then
        normalizeShareRelativePath (cleanUser.drop exportClean.length)
      else normalizeShareRelativePath cleanUser

/-! ## What is said of them -/

def Inside (directory path : PathText) : Prop :=
  (path = directory ∨ directory ++ ['/'] <+: path) ∧ ['.', '.'] ∉ path.splitOn '/'

/-- The text is a directory or starts with it, as the guesses compare them. -/
def Under (directory path : PathText) : Prop :=
  directory ≠ [] ∧ (path = directory ∨ directory ++ ['/'] <+: path)

instance (directory path : PathText) : Decidable (Inside directory path) :=
  inferInstanceAs (Decidable (_ ∧ _))

instance (directory path : PathText) : Decidable (Under directory path) :=
  inferInstanceAs (Decidable (_ ∧ _))

/-- An absolute mount root other than `/`. -/
structure IsMountRoot (root : PathText) : Prop where
  absolute : ['/'] <+: strip root
  not_root : cleanDirectory root ≠ []

/-! ## Cleaned texts -/

theorem strip_strip (text : PathText) : strip (strip text) = strip text := Text.trim_trim _ _

theorem strip_length_le (text : PathText) : (strip text).length ≤ text.length :=
  (Text.trim_sublist _ _).length_le

theorem isNormal_root : Posix.IsNormal ['/'] := ⟨['/'], [], by simp [Unseparated, joinWith]⟩

variable {path rest : PathText}

theorem isNormal_cleanPosixPath (h : strip path = '/' :: rest) :
    Posix.IsNormal (cleanPosixPath path) := by
  rw [cleanPosixPath, h]
  exact Posix.isNormal_normpath rest

theorem root_of_cleanPosixPath (h : cleanPosixPath path = '/' :: rest) :
    ∃ tail, strip path = '/' :: tail := by
  rw [cleanPosixPath] at h
  split at h
  · cases h
  · exact Posix.root_of_normpath h

theorem length_cleanPosixPath_le (h : strip path = '/' :: rest) :
    (cleanPosixPath path).length ≤ (strip path).length := by
  rw [cleanPosixPath, h]
  exact Posix.length_normpath_le rest

variable {path : PathText}

theorem cleanDirectory_cases (h : Posix.IsNormal (cleanPosixPath path)) : cleanDirectory path = [] ∨
      cleanDirectory path = cleanPosixPath path ∧ rstrip ['/'] (cleanPosixPath path) =
      cleanPosixPath path := by
  rw [cleanDirectory]
  rcases h.rstrip_eq with (hroot | hroots) | hsame
  · rw [hroot]
    exact .inl (by decide)
  · rw [hroots]
    exact .inl (by decide)
  · exact .inr ⟨hsame, hsame⟩

theorem cleanDirectory_ne_root (path : PathText) : cleanDirectory path ≠ ['/'] := by
  intro h
  have hlast : '/' ∈ (rstrip ['/'] (cleanPosixPath path)).getLast? := by
    rw [← cleanDirectory, h]
    rfl
  exact last_rstrip hlast List.mem_cons_self

theorem cleanPosixPath_eq_self (hnormal : Posix.IsNormal path) (hstrip : strip path = path) :
    cleanPosixPath path = path := by
  obtain ⟨rest, hrest⟩ := hnormal.head
  rw [cleanPosixPath, hstrip]
  simp only [hrest, if_neg (List.cons_ne_nil _ _)]
  rw [← hrest]
  exact hnormal.normpath_eq_self

theorem normalizeShareRelativePath_eq (path : PathText) :
    ∃ rest, normalizeShareRelativePath path = Posix.normpath ('/' :: rest) ∧
      (strip path = '/' :: rest ∨ ¬ ['/'] <+: strip path ∧ strip path = rest) := by
  have hrooted : ∀ rest : PathText, (if Posix.normpath ('/' :: rest) = ['.'] then ['/']
      else if ['/'] <+: Posix.normpath ('/' :: rest) then Posix.normpath ('/' :: rest)
      else '/' :: Posix.normpath ('/' :: rest)) = Posix.normpath ('/' :: rest) := by
    intro rest
    obtain ⟨tail, htail⟩ := (Posix.isNormal_normpath rest).head
    rw [htail, if_neg (by simp), if_pos ⟨tail, rfl⟩]
  have hroot : Posix.normpath ['/'] = ['/'] := by decide
  rw [normalizeShareRelativePath]
  by_cases hslash : ['/'] <+: strip path
  · obtain ⟨rest, hrest⟩ := hslash
    refine ⟨rest, ?_, .inl hrest.symm⟩
    cases rest with
    | nil =>
      rw [if_pos (.inr hrest.symm), hroot]
    | cons c rest =>
      rw [if_neg (by simp [← hrest])]
      simp only [← hrest, if_pos (List.prefix_append ['/'] (c :: rest))]
      exact hrooted (c :: rest)
  · refine ⟨strip path, ?_, .inr ⟨hslash, rfl⟩⟩
    cases hempty : strip path with
    | nil => simp [hroot]
    | cons c rest =>
      rw [hempty] at hslash
      rw [if_neg fun he => he.elim (by simp) fun he => hslash (he ▸ List.prefix_rfl)]
      simp only [if_neg hslash]
      exact hrooted (c :: rest)

theorem isNormal_normalizeShareRelativePath (path : PathText) :
    Posix.IsNormal (normalizeShareRelativePath path) := by
  obtain ⟨rest, hnorm, -⟩ := normalizeShareRelativePath_eq path
  rw [hnorm]
  exact Posix.isNormal_normpath rest

theorem strip_rooted (rest : PathText) : ∃ tail, strip ('/' :: rest) = '/' :: tail :=
  ⟨_, Text.trim_cons_of_not rest (by decide)⟩

theorem normalizeShareRelativePath_of_root (h : strip path = '/' :: rest) :
    normalizeShareRelativePath path = Posix.normpath (strip path) := by
  obtain ⟨other, hnorm, hrest | ⟨hslash, -⟩⟩ := normalizeShareRelativePath_eq path
  · rw [hnorm, hrest]
  · exact absurd ⟨rest, h.symm⟩ hslash

theorem length_normalizeShareRelativePath_le (rest : PathText) :
    (normalizeShareRelativePath ('/' :: rest)).length ≤ (strip ('/' :: rest)).length := by
  obtain ⟨tail, htail⟩ := strip_rooted rest
  rw [normalizeShareRelativePath_of_root htail, htail]
  exact Posix.length_normpath_le tail

/-- A path that is normalized already starts at the root and has no white space at its end. -/
theorem strip_eq_self_of_normalized (h : normalizeShareRelativePath path = path) :
    strip path = path := by
  obtain ⟨rest, hrest⟩ := (isNormal_normalizeShareRelativePath path).head
  rw [h] at hrest
  have hlength := length_normalizeShareRelativePath_le rest
  rw [← hrest, h] at hlength
  exact (Text.trim_sublist _ path).eq_of_length_le hlength

theorem normalized_of_isNormal (hnormal : Posix.IsNormal path) (hstrip : strip path = path) :
    normalizeShareRelativePath path = path := by
  obtain ⟨rest, hrest⟩ := hnormal.head
  rw [normalizeShareRelativePath_of_root (hstrip.trans hrest), hstrip]
  exact hnormal.normpath_eq_self

/-- The directory of a path that is normalized already, and whether a guess finds it. -/
theorem orElse_cleanDirectory (directory : PathText) (hnormal : Posix.IsNormal path)
    (hstrip : strip path = path) :
    (path = ['/'] ∨ path = ['/', '/']) ∧ orElse (cleanDirectory path) directory = directory ∨
      ¬ (path = ['/'] ∨ path = ['/', '/']) ∧ orElse (cleanDirectory path) directory = path := by
  have hclean := cleanPosixPath_eq_self hnormal hstrip
  rcases hnormal.rstrip_eq with hroot | hnamed
  · refine .inl ⟨hroot, ?_⟩
    have hempty : cleanDirectory path = [] := by
      rw [cleanDirectory, hclean]
      rcases hroot with rfl | rfl
      · decide
      · decide
    rw [orElse, if_pos hempty]
  · obtain ⟨rest, hrest⟩ := hnormal.head
    have hpath : cleanDirectory path = path := by rw [cleanDirectory, hclean, hnamed]
    refine .inr ⟨?_, ?_⟩
    · rintro (rfl | rfl)
      · exact absurd hnamed (by decide)
      · exact absurd hnamed (by decide)
    · rw [orElse, hpath, if_neg (by simp [hrest])]

/-! ## The mount root -/

structure IsClean (directory : PathText) : Prop where
  normal : Posix.IsNormal directory
  named : rstrip ['/'] directory = directory
  stripped : strip directory = directory

theorem IsMountRoot.isClean {root : PathText} (h : IsMountRoot root)
    (hstrip : strip (cleanDirectory root) = cleanDirectory root) :
    IsClean (cleanDirectory root) := by
  obtain ⟨rest, hrest⟩ := h.absolute
  have hnormal := isNormal_cleanPosixPath hrest.symm
  rcases cleanDirectory_cases hnormal with hempty | ⟨hclean, hnamed⟩
  · exact absurd hempty h.not_root
  · exact ⟨hclean ▸ hnormal, by rw [hclean, hnamed], hstrip⟩

namespace IsClean

variable {directory path : PathText}

theorem cleanDirectory_eq (h : IsClean directory) : cleanDirectory directory = directory := by
  rw [cleanDirectory, cleanPosixPath_eq_self h.normal h.stripped, h.named]

theorem ne_nil (h : IsClean directory) : directory ≠ [] := by
  obtain ⟨rest, hrest⟩ := h.normal.head
  simp [hrest]

theorem ne_root (h : IsClean directory) : directory ≠ ['/'] := by
  rw [← h.cleanDirectory_eq]
  exact cleanDirectory_ne_root directory

theorem isMountSubpath_iff (h : IsClean directory) (path : PathText) :
    isMountSubpath directory path ↔ orElse (cleanDirectory path) directory = directory ∨
        directory ++ ['/'] <+: orElse (cleanDirectory path) directory := by
  have hne : orElse (cleanDirectory path) directory ≠ [] := by
    rw [orElse]
    split
    · exact h.ne_nil
    · assumption
  rw [isMountSubpath, h.cleanDirectory_eq]
  simp only [if_neg (not_or.mpr ⟨h.ne_nil, hne⟩)]
  split
  case isTrue hsame => simp [hsame]
  case isFalse hother => simp [hother]

theorem not_under_root (h : IsClean directory) : ¬ Under directory ['/'] := by
  rintro ⟨hne, hsame | ⟨rest, hrest⟩⟩
  · exact h.ne_root hsame.symm
  · cases directory with
    | nil => exact hne rfl
    | cons c directory => simp at hrest

end IsClean

/-! ## Mount paths stay inside -/

/-- A path that a guess takes for one below the mount root is normal. -/
theorem isNormal_of_subpath {directory path : PathText} (h : IsClean directory)
    (hsub : isMountSubpath directory path) : orElse (cleanDirectory path) directory = directory ∨
      directory ++ ['/'] <+: cleanDirectory path ∧ cleanDirectory path = cleanPosixPath path ∧
      ∃ rest, strip path = '/' :: rest := by
  rcases (h.isMountSubpath_iff path).mp hsub with hsame | hbelow
  · exact .inl hsame
  · cases hcase : cleanDirectory path with
    | nil => exact .inl (by rw [orElse, if_pos rfl])
    | cons c text =>
      rw [hcase, orElse, if_neg (by simp)] at hbelow
      obtain ⟨top, htop⟩ := h.normal.head
      have hc : c = '/' := by
        obtain ⟨tail, htail⟩ := hbelow
        rw [htop, List.cons_append, List.cons_append] at htail
        exact (List.cons.inj htail).1.symm
      obtain ⟨tail, htail⟩ : cleanDirectory path <+: cleanPosixPath path := rstrip_prefix _ _
      rw [hcase, hc, List.cons_append] at htail
      obtain ⟨rest, hrest⟩ := root_of_cleanPosixPath htail.symm
      rcases cleanDirectory_cases (isNormal_cleanPosixPath hrest) with hempty | ⟨heq, -⟩
      · simp [hcase] at hempty
      · exact .inr ⟨hbelow, by rw [← hcase, heq], rest, hrest⟩

theorem inside_toMountPath {root : PathText} (h : IsClean (cleanDirectory root))
    (userPath : PathText) : Inside (cleanDirectory root) (toMountPath root userPath) := by
  have hself : Inside (cleanDirectory root) (cleanDirectory root) :=
    ⟨.inl rfl, h.normal.dots_not_mem⟩
  rw [toMountPath]
  simp only [if_neg h.ne_nil]
  split
  · exact hself
  · split
    · rename_i hsub
      rcases isNormal_of_subpath h hsub with hsame | ⟨hbelow, heq, rest, hrest⟩
      · rw [hsame]
        exact hself
      · have hne : cleanDirectory (strip userPath) ≠ [] := by
          rintro hempty
          rw [hempty] at hbelow
          simp at hbelow
        rw [orElse, if_neg hne]
        exact ⟨.inr hbelow, by rw [heq]; exact (isNormal_cleanPosixPath hrest).dots_not_mem⟩
    · split
      · exact hself
      · obtain ⟨rest, hrest⟩ := (isNormal_normalizeShareRelativePath (strip userPath)).head
        have hdots := (isNormal_normalizeShareRelativePath (strip userPath)).dots_not_mem
        rw [hrest, splitOn_cons_self] at hdots
        rw [hrest]
        refine ⟨.inr ⟨rest, by simp⟩, fun hmem => ?_⟩
        rw [List.splitOn_append_cons_self] at hmem
        rcases List.mem_append.mp hmem with hmem | hmem
        · exact h.normal.dots_not_mem hmem
        · exact hdots (List.mem_cons_of_mem _ hmem)

/-! ## The way there and back -/

theorem length_toShareRelative_lt {directory root path : PathText} (h : IsClean directory)
    (hroot : cleanDirectory root = directory) (hsub : isMountSubpath directory path) :
    toShareRelative root path = ['/'] ∨
      (toShareRelative root path).length < (strip path).length := by
  rw [toShareRelative, hroot]
  simp only [if_neg h.ne_nil]
  rcases isNormal_of_subpath h hsub with hsame | ⟨hbelow, heq, rest, hrest⟩
  · exact .inl (if_pos hsame)
  · have hlength := length_cleanPosixPath_le hrest
    obtain ⟨tail, htail⟩ := hbelow
    rw [List.append_assoc, List.singleton_append] at htail
    have hor : orElse (cleanDirectory path) directory = directory ++ '/' :: tail := by
      rw [← htail, orElse, if_neg (by simp)]
    rw [hor, if_neg (by simp), if_pos ⟨tail, by simp⟩, List.drop_left]
    refine .inr ?_
    have hshort := length_normalizeShareRelativePath_le tail
    have hstrip := strip_length_le ('/' :: tail)
    have hne := List.length_pos_of_ne_nil h.ne_nil
    rw [← heq, ← htail] at hlength
    simp only [List.length_append, List.length_cons] at hlength hstrip
    omega

theorem toShareRelative_toMountPath {root path : PathText} (h : IsClean (cleanDirectory root))
    (hnormal : normalizeShareRelativePath path = path) (hslash : ¬ ['/', '/'] <+: path) :
    toShareRelative root (toMountPath root path) = path ↔ ¬ Under (cleanDirectory root) path := by
  have hpath : Posix.IsNormal path := hnormal ▸ isNormal_normalizeShareRelativePath path
  have hstrip := strip_eq_self_of_normalized hnormal
  obtain ⟨rest, hrest⟩ := hpath.head
  have htwo : path ≠ ['/', '/'] := fun he => hslash (he ▸ List.prefix_rfl)
  rcases orElse_cleanDirectory (cleanDirectory root) hpath hstrip with ⟨hroot, -⟩ | ⟨hroot, hor⟩
  · have hone : path = ['/'] := hroot.resolve_right htwo
    have hmount : toMountPath root path = cleanDirectory root := by
      rw [toMountPath, hstrip]
      simp [h.ne_nil, hone]
    have hback : toShareRelative root (cleanDirectory root) = ['/'] := by
      rw [toShareRelative, h.cleanDirectory_eq]
      simp [h.ne_nil, orElse]
    rw [hmount, hback, hone]
    exact iff_of_true rfl h.not_under_root
  · have hne : path ≠ ['/'] := fun he => hroot (.inl he)
    have hempty : path ≠ [] := by simp [hrest]
    have hsub := h.isMountSubpath_iff path
    rw [hor] at hsub
    by_cases hunder : isMountSubpath (cleanDirectory root) path
    · have hmount : toMountPath root path = path := by
        rw [toMountPath, hstrip]
        simp [h.ne_nil, hempty, hne, hunder, hor]
      rw [hmount]
      refine iff_of_false ?_ fun hnot => hnot ⟨h.ne_nil, hsub.mp hunder⟩
      rcases length_toShareRelative_lt h rfl hunder with hback | hback
      · rw [hback]
        exact hne.symm
      · rw [hstrip] at hback
        exact fun he => absurd hback (by rw [he]; exact lt_irrefl _)
    · have hmount : toMountPath root path = cleanDirectory root ++ path := by
        rw [toMountPath, hstrip]
        simp [h.ne_nil, hempty, hne, hunder, hnormal]
      rw [hmount]
      refine iff_of_true ?_ fun hnot => hunder (hsub.mpr hnot.2)
      have hbelow : Posix.IsNormal (cleanDirectory root ++ path) := by
        rw [hrest] at hpath hslash hne ⊢
        refine h.normal.append h.named hpath (fun hpre => hslash ?_) fun he => hne (by rw [he])
        exact List.cons_prefix_cons.mpr ⟨rfl, hpre⟩
      have hbelow' : strip (cleanDirectory root ++ path) = cleanDirectory root ++ path := by
        refine Text.trim_eq_self (fun c hc => ?_) fun c hc => ?_
        · rw [List.head?_append_of_ne_nil _ h.ne_nil] at hc
          exact (Text.ends_of_trim_eq_self h.stripped).1 c hc
        · rw [List.getLast?_append_of_ne_nil _ hempty] at hc
          exact (Text.ends_of_trim_eq_self hstrip).2 c hc
      rcases orElse_cleanDirectory (cleanDirectory root) hbelow hbelow' with ⟨hor', -⟩ | ⟨-, hor'⟩
      · have hlong := List.length_pos_of_ne_nil h.ne_nil
        have hname : 1 < path.length := by
          cases rest with
          | nil => exact absurd hrest hne
          | cons c rest => simp [hrest]
        rcases hor' with hor' | hor'
        · have hlength := congrArg List.length hor'
          simp only [List.length_append, List.length_singleton] at hlength
          omega
        · have hlength := congrArg List.length hor'
          simp only [List.length_append, List.length_cons, List.length_nil] at hlength
          omega
      · rw [toShareRelative]
        simp only [if_neg h.ne_nil, hor']
        rw [if_neg (by simpa using hempty), if_pos ⟨rest, by simp [hrest]⟩, List.drop_left]
        exact hnormal

/-! ## Normalizing again -/

theorem isNormal_toShareRelative (root path : PathText) :
    Posix.IsNormal (toShareRelative root path) := by
  rw [toShareRelative]
  split
  · exact isNormal_normalizeShareRelativePath _
  · split
    · exact isNormal_root
    · split
      · exact isNormal_normalizeShareRelativePath _
      · exact isNormal_normalizeShareRelativePath _

theorem isNormal_normalizeUserSharePath (root exportPath path : PathText) :
    Posix.IsNormal (normalizeUserSharePath root exportPath path) := by
  rw [normalizeUserSharePath]
  simp only
  split
  · exact isNormal_root
  · split
    · exact isNormal_toShareRelative _ _
    · split
      · exact isNormal_root
      · split
        · exact isNormal_normalizeShareRelativePath _
        · exact isNormal_normalizeShareRelativePath _

section

variable {root path : PathText} (exportPath : PathText) {rest : PathText}

/-- The branches of `normalizeUserSharePath` for a path with a root. -/
theorem normalizeUserSharePath_rooted (h : IsClean (cleanDirectory root))
    (hrest : strip path = '/' :: rest) :
    normalizeUserSharePath root exportPath path =
      if isMountSubpath (cleanDirectory root) (strip path) then
        toShareRelative (cleanDirectory root) (strip path)
      else if cleanDirectory exportPath ≠ [] ∧ strip path = cleanDirectory exportPath then ['/']
      else if cleanDirectory exportPath ≠ [] ∧ cleanDirectory exportPath ++ ['/'] <+: strip path then
        normalizeShareRelativePath ((strip path).drop (cleanDirectory exportPath).length)
      else normalizeShareRelativePath (strip path) := by
  have hne : strip path ≠ [] := by simp [hrest]
  rw [normalizeUserSharePath]
  simp only [if_neg hne, h.ne_nil, ne_eq, not_false_eq_true, true_and]

/-- What a guess finds below the mount root or the export path gets shorter. -/
theorem length_normalizeUserSharePath_lt (h : IsClean (cleanDirectory root))
    (hrest : strip path = '/' :: rest)
    (hguess : isMountSubpath (cleanDirectory root) (strip path) ∨ Under (cleanDirectory
      exportPath) (strip path)) :
    normalizeUserSharePath root exportPath path = ['/'] ∨
      (normalizeUserSharePath root exportPath path).length < (strip path).length := by
  rw [normalizeUserSharePath_rooted exportPath h hrest]
  split
  case isTrue hsub =>
    have hshort := length_toShareRelative_lt h h.cleanDirectory_eq hsub
    rwa [strip_strip] at hshort
  case isFalse hsub =>
    obtain ⟨hne, hunder⟩ := hguess.resolve_left hsub
    split
    · exact .inl rfl
    · rename_i hother
      have hbelow := hunder.resolve_left fun he => hother ⟨hne, he⟩
      rw [if_pos ⟨hne, hbelow⟩]
      obtain ⟨tail, htail⟩ := hbelow
      rw [← htail, List.append_assoc, List.singleton_append, List.drop_left]
      have hshort := length_normalizeShareRelativePath_le tail
      have hstrip := strip_length_le ('/' :: tail)
      have hpos := List.length_pos_of_ne_nil hne
      simp only [List.length_append, List.length_cons] at hstrip ⊢
      right
      omega

theorem length_normalizeUserSharePath_le (h : IsClean (cleanDirectory root))
    (hrest : strip path = '/' :: rest) :
    (normalizeUserSharePath root exportPath path).length ≤ (strip path).length := by
  by_cases hguess : isMountSubpath (cleanDirectory root) (strip path) ∨
      Under (cleanDirectory exportPath) (strip path)
  · rcases length_normalizeUserSharePath_lt exportPath h hrest hguess with hroot | hshort
    · simp [hroot, hrest]
    · exact Nat.le_of_lt hshort
  · obtain ⟨hsub, hunder⟩ := not_or.mp hguess
    rw [normalizeUserSharePath_rooted exportPath h hrest, if_neg hsub,
      if_neg fun he => hunder ⟨he.1, .inl he.2⟩, if_neg fun he => hunder ⟨he.1, .inr he.2⟩, hrest]
    exact (length_normalizeShareRelativePath_le rest).trans (strip_length_le _)

theorem not_under_cleanDirectory_root (path : PathText) : ¬ Under (cleanDirectory path) ['/'] := by
  rintro ⟨hne, hsame | ⟨rest, hrest⟩⟩
  · exact cleanDirectory_ne_root path hsame.symm
  · cases hcase : cleanDirectory path with
    | nil => exact hne hcase
    | cons c directory => simp [hcase] at hrest

/-- A normal path is kept exactly when it has no white space at its end and no guess finds it. -/
theorem normalizeUserSharePath_eq_self_iff (h : IsClean (cleanDirectory root))
    (hnormal : Posix.IsNormal path) : normalizeUserSharePath root exportPath path = path ↔
      strip path = path ∧ path ≠ ['/', '/'] ∧ ¬ Under (cleanDirectory root) path ∧
      ¬ Under (cleanDirectory exportPath) path := by
  obtain ⟨rest, hrest⟩ := hnormal.head
  by_cases hstrip : strip path = path
  · have hrooted := normalizeUserSharePath_rooted exportPath h (hstrip.trans hrest)
    rcases orElse_cleanDirectory (cleanDirectory root) hnormal hstrip with ⟨hroot, hor⟩ | ⟨hnamed, hor⟩
    · have hsub := (h.isMountSubpath_iff path).mpr (.inl hor)
      have hback : toShareRelative (cleanDirectory root) path = ['/'] := by
        rw [toShareRelative, h.cleanDirectory_eq]
        simp [h.ne_nil, hor]
      rw [hrooted, hstrip, if_pos hsub, hback]
      rcases hroot with rfl | rfl
      · exact iff_of_true rfl ⟨rfl, by simp, h.not_under_root, not_under_cleanDirectory_root _⟩
      · exact iff_of_false (by simp) fun hkept => hkept.2.1 rfl
    · have hsub := h.isMountSubpath_iff path
      rw [hor] at hsub
      by_cases hguess : isMountSubpath (cleanDirectory root) path ∨
          Under (cleanDirectory exportPath) path
      · refine iff_of_false ?_ ?_
        · rcases length_normalizeUserSharePath_lt exportPath h (hstrip.trans hrest)
            (hstrip.symm ▸ hguess) with hroot | hshort
          · rw [hroot]
            exact fun he => hnamed (.inl he.symm)
          · rw [hstrip] at hshort
            exact fun he => absurd hshort (by rw [he]; exact lt_irrefl _)
        · rintro ⟨-, -, hroot, hexport⟩
          rcases hguess with hguess | hguess
          · exact hroot ⟨h.ne_nil, hsub.mp hguess⟩
          · exact hexport hguess
      · obtain ⟨hnot, hexport⟩ := not_or.mp hguess
        refine iff_of_true ?_ ⟨hstrip, ?_, fun hroot => hnot (hsub.mpr hroot.2), hexport⟩
        · rw [hrooted, hstrip, if_neg hnot, if_neg fun he => hexport ⟨he.1, .inl he.2⟩,
            if_neg fun he => hexport ⟨he.1, .inr he.2⟩]
          exact normalized_of_isNormal hnormal hstrip
        · exact fun he => hnamed (.inr he)
  · obtain ⟨tail, htail⟩ := strip_rooted rest
    rw [← hrest] at htail
    refine iff_of_false (fun he => ?_) fun hkept => hstrip hkept.1
    have hle := length_normalizeUserSharePath_le exportPath h htail
    rw [he] at hle
    exact hstrip ((Text.trim_sublist _ path).eq_of_length_le hle)

end

/-- Mount paths stay inside a mount root without white space at its end, and what is guessed
right comes back and stays. -/
theorem share_paths_convert {root : PathText} (h : IsMountRoot root)
    (hstrip : strip (cleanDirectory root) = cleanDirectory root) :
    (∀ userPath, Inside (cleanDirectory root) (toMountPath root userPath)) ∧
      (∀ path, normalizeShareRelativePath path = path → ¬ ['/', '/'] <+: path →
        (toShareRelative root (toMountPath root path) = path ↔
          ¬ Under (cleanDirectory root) path)) ∧
      ∀ exportPath userPath, ∀ stored, stored = normalizeUserSharePath root exportPath userPath →
        (normalizeUserSharePath root exportPath stored = stored ↔
          strip stored = stored ∧ stored ≠ ['/', '/'] ∧ ¬ Under (cleanDirectory root) stored ∧
            ¬ Under (cleanDirectory exportPath) stored) := by
  have hclean := h.isClean hstrip
  refine ⟨inside_toMountPath hclean, fun _ => toShareRelative_toMountPath hclean, ?_⟩
  rintro exportPath userPath stored rfl
  exact normalizeUserSharePath_eq_self_iff exportPath hclean
    (isNormal_normalizeUserSharePath root exportPath userPath)

theorem share_paths_convert_mnt :
    Inside "/mnt".toList (toMountPath "/mnt".toList "../a".toList) ∧
      toShareRelative "/mnt".toList (toMountPath "/mnt".toList "/a".toList) = "/a".toList ∧
      normalizeUserSharePath "/mnt".toList "/data".toList "/a".toList = "/a".toList := by
  have hroot : IsMountRoot "/mnt".toList := ⟨by decide +kernel, by decide +kernel⟩
  obtain ⟨hinside, hback, hagain⟩ := share_paths_convert hroot (by decide +kernel)
  have hclean : cleanDirectory "/mnt".toList = "/mnt".toList := by decide +kernel
  refine ⟨?_, ?_, ?_⟩
  · have hmount := hinside "../a".toList
    rwa [hclean] at hmount
  · exact (hback "/a".toList (by decide +kernel) (by decide +kernel)).mpr (by decide +kernel)
  · exact (hagain "/data".toList "/a".toList "/a".toList (by decide +kernel)).mpr (by decide +kernel)

/-- A mount root with white space at its end is left, a directory that is called like the mount
root does not come back, and one that is called like the export path becomes another one. -/
theorem not_share_paths_convert :
    (IsMountRoot "/mnt /".toList ∧
      ¬ Inside (cleanDirectory "/mnt /".toList) (toMountPath "/mnt /".toList "/mnt/a".toList)) ∧
    (IsMountRoot "/mnt".toList ∧
      normalizeShareRelativePath "/mnt/a".toList = "/mnt/a".toList ∧
      toShareRelative "/mnt".toList (toMountPath "/mnt".toList "/mnt/a".toList) = "/a".toList) ∧
    (normalizeUserSharePath "/mnt".toList "/data".toList "/data/data/a".toList =
        "/data/a".toList ∧
      normalizeUserSharePath "/mnt".toList "/data".toList "/data/a".toList = "/a".toList) := by
  refine ⟨⟨⟨by decide +kernel, by decide +kernel⟩, by decide +kernel⟩,
    ⟨⟨by decide +kernel, by decide +kernel⟩, by decide +kernel, by decide +kernel⟩,
    by decide +kernel, by decide +kernel⟩

end SharePath
end HyperFileLens.Nas
