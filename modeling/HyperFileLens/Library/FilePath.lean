import HyperFileLens.Library.FileTree
import HyperFileLens.Library.Text

/-!
# Paths as texts

What `path/filepath` of Go does with slash-separated paths. A clean absolute path
is the list of its names; the root has none.

*White space.*  A name may end with white space, so trimming the text of a path can change
its last name. What is above that name stays (`isPrefix_of_trimmed`).
-/

namespace FilePath

open FileTree

def dotDot : Name := ['.', '.']

def isAbs (path : List Char) : Bool := path.head? = some '/'

def push (names : List Name) (n : Name) : List Name :=
  if n = [] ∨ n = ['.'] then names
  else if n = dotDot then names.dropLast
  else names ++ [n]

/-- `filepath.Clean` of an absolute path. -/
def clean (path : List Char) : Path := (path.splitOn '/').foldl push []

/-- Go on with a name in a path that is not absolute. -/
def pushRelative (names : List Name) (n : Name) : List Name :=
  if n = dotDot ∧ (names.getLast? = none ∨ names.getLast? = some dotDot) then names ++ [n]
  else push names n

/-- `filepath.Clean`. -/
def cleanText (path : List Char) : List Char :=
  if isAbs path then '/' :: ['/'].intercalate (clean path)
  else
    match (path.splitOn '/').foldl pushRelative [] with
    | [] => ['.']
    | names => ['/'].intercalate names

/-- `filepath.Rel` of two clean absolute paths. The empty list is `"."`. -/
def rel : Path → Path → List Name
  | r :: root, n :: path =>
    if r = n then rel root path else (r :: root).map (fun _ => dotDot) ++ n :: path
  | root, path => root.map (fun _ => dotDot) ++ path

variable {path : List Char} {n : Name}

theorem isPlain_of_mem_clean (h : n ∈ clean path) : FsTree.IsPlain n := by
  have hfold : ∀ (ns names : List Name), (∀ m ∈ names, FsTree.IsPlain m) →
      ∀ m ∈ ns.foldl push names, FsTree.IsPlain m := by
    intro ns
    induction ns with
    | nil => exact fun names hnames => hnames
    | cons k ns ih =>
      intro names hnames
      refine ih (push names k) fun m hm => ?_
      unfold push at hm
      split at hm
      · exact hnames m hm
      rename_i hk
      split at hm
      · exact hnames m (List.dropLast_subset names hm)
      · rename_i hdots
        rcases List.mem_append.mp hm with hm | hm
        · exact hnames m hm
        · obtain rfl := List.mem_singleton.mp hm
          exact ⟨fun h => hk (.inl h), fun h => hk (.inr h), hdots⟩
  exact hfold _ [] (by simp) n h

theorem slash_not_mem_splitOn : ∀ n ∈ path.splitOn '/', '/' ∉ n :=
  fun _ hn => Text.not_mem_of_mem_splitOn hn

theorem slash_not_mem_clean (h : n ∈ clean path) : '/' ∉ n := by
  have hfold : ∀ (ns names : List Name), (∀ m ∈ ns, '/' ∉ m) → (∀ m ∈ names, '/' ∉ m) →
      ∀ m ∈ ns.foldl push names, '/' ∉ m := by
    intro ns
    induction ns with
    | nil => exact fun names _ hnames => hnames
    | cons k ns ih =>
      intro names hns hnames
      refine ih (push names k) (fun m hm => hns m (List.mem_cons_of_mem _ hm)) fun m hm => ?_
      rw [push] at hm
      split at hm
      · exact hnames m hm
      split at hm
      · exact hnames m (List.dropLast_subset names hm)
      · rcases List.mem_append.mp hm with hm | hm
        · exact hnames m hm
        · exact hns m (List.mem_singleton.mp hm ▸ List.mem_cons_self)
  exact hfold _ [] slash_not_mem_splitOn (by simp) n h

/-- A relative path that does not go up leads from the root of it to the path. -/
theorem append_rel {root path : Path} (h : (rel root path).head? ≠ some dotDot) :
    root ++ rel root path = path := by
  induction root generalizing path with
  | nil => cases path <;> rfl
  | cons r root ih =>
    cases path with
    | nil => simp [rel] at h
    | cons n path =>
      rw [rel] at h ⊢
      split at h
      · rename_i heq
        rw [if_pos heq, heq, List.cons_append, ih h]
      · simp at h

theorem rel_append (root rest : Path) : rel root (root ++ rest) = rest := by
  induction root with
  | nil => cases rest <;> rfl
  | cons r root ih => rw [List.cons_append, rel, if_pos rfl, ih]

/-! ## Texts of clean paths -/

def textOf (path : Path) : List Char := '/' :: ['/'].intercalate path

theorem cleanText_of_isAbs {p : List Char} (h : isAbs p = true) :
    cleanText p = textOf (clean p) := by
  rw [cleanText, if_pos h, textOf]

theorem clean_append_slash {path n : List Char} (hn : '/' ∉ n) :
    clean (path ++ '/' :: n) = push (clean path) n := by
  have hsplit : n.splitOn '/' = [n] := by
    have h : List.splitOn '/' (List.intercalate ['/'] [n]) = [n] :=
      List.splitOn_intercalate '/' (by simpa using hn) (by simp)
    rwa [List.intercalate_singleton] at h
  rw [clean, List.splitOn_append_cons_self, hsplit, List.foldl_append]
  rfl

theorem push_of_plain {names : Path} (hn : FsTree.IsPlain n) : push names n = names ++ [n] := by
  rw [push, if_neg (fun h => h.elim hn.1 hn.2.1), if_neg (show n ≠ dotDot from hn.2.2)]

theorem textOf_concat (path : Path) (n : Name) :
    textOf (path ++ [n]) = path.flatMap ('/' :: ·) ++ '/' :: n := by
  induction path with
  | nil => simp [textOf]
  | cons m path ih =>
    rw [textOf] at ih ⊢
    rw [List.cons_append, List.intercalate_cons_of_ne_nil (by simp), List.flatMap_cons]
    simp only [List.cons_append, List.append_assoc, List.nil_append]
    rw [ih]

variable {path : Path}

theorem clean_flatMap (hplain : ∀ n ∈ path, FsTree.IsPlain n) (hslash : ∀ n ∈ path, '/' ∉ n) :
    clean (path.flatMap ('/' :: ·)) = path := by
  induction path using List.reverseRecOn with
  | nil => rfl
  | append_singleton path n ih =>
    have hpath := ih (fun m hm => hplain m (List.mem_append_left _ hm))
      fun m hm => hslash m (List.mem_append_left _ hm)
    rw [List.flatMap_append, List.flatMap_singleton,
      clean_append_slash (hslash n (List.mem_append_right _ List.mem_cons_self)), hpath,
      push_of_plain (hplain n (List.mem_append_right _ List.mem_cons_self))]

theorem clean_textOf (hplain : ∀ n ∈ path, FsTree.IsPlain n) (hslash : ∀ n ∈ path, '/' ∉ n) :
    clean (textOf path) = path := by
  rcases List.eq_nil_or_concat path with rfl | ⟨path, n, rfl⟩
  · rfl
  · rw [List.concat_eq_append] at hplain hslash ⊢
    rw [textOf_concat,
      clean_append_slash (hslash n (List.mem_append_right _ List.mem_cons_self)),
      clean_flatMap (fun m hm => hplain m (List.mem_append_left _ hm))
        fun m hm => hslash m (List.mem_append_left _ hm),
      push_of_plain (hplain n (List.mem_append_right _ List.mem_cons_self))]

theorem trimSpace_slash (path n : List Char) (habs : isAbs (path ++ '/' :: n) = true) :
    ∃ n', (∀ c ∈ n', c ∈ n) ∧ Text.trimSpace (path ++ '/' :: n) = path ++ '/' :: n' := by
  have hslash : Text.isSpace '/' = false := by decide
  have hfront : (path ++ '/' :: n).dropWhile Text.isSpace = path ++ '/' :: n := by
    cases path with
    | nil => rw [List.nil_append, List.dropWhile_cons_of_neg (by simp [hslash])]
    | cons c path =>
      obtain rfl : c = '/' := by simpa [isAbs] using habs
      rw [List.cons_append, List.dropWhile_cons_of_neg (by simp [hslash])]
  refine ⟨(n.reverse.dropWhile Text.isSpace).reverse, fun c hc => ?_, ?_⟩
  · rw [List.mem_reverse] at hc
    exact List.mem_reverse.mp ((List.dropWhile_suffix _).subset hc)
  · rw [Text.trimSpace, Text.trim, hfront, List.reverse_append, List.reverse_cons,
      List.append_assoc, List.dropWhile_append]
    split
    · rename_i hempty
      rw [List.isEmpty_iff.mp hempty, List.singleton_append,
        List.dropWhile_cons_of_neg (by simp [hslash])]
      simp
    · simp

theorem clean_trimSpace_textOf (hplain : ∀ m ∈ path ++ [n], FsTree.IsPlain m)
    (hslash : ∀ m ∈ path ++ [n], '/' ∉ m) :
    ∃ n', clean (Text.trimSpace (textOf (path ++ [n]))) = push path n' := by
  have habs : isAbs (path.flatMap ('/' :: ·) ++ '/' :: n) = true := by
    rw [← textOf_concat]
    rfl
  obtain ⟨n', hn', htrim⟩ := trimSpace_slash _ n habs
  have hnot : '/' ∉ n' := fun h =>
    hslash n (List.mem_append_right _ List.mem_cons_self) (hn' _ h)
  refine ⟨n', ?_⟩
  rw [textOf_concat, htrim, clean_append_slash hnot,
    clean_flatMap (fun m hm => hplain m (List.mem_append_left _ hm))
      fun m hm => hslash m (List.mem_append_left _ hm)]

theorem isPrefix_of_trimmed {p : Path} (hplain : ∀ m ∈ p, FsTree.IsPlain m)
    (hslash : ∀ m ∈ p, '/' ∉ m) : (clean (Text.trimSpace (textOf p))).dropLast <+: p ∧
      (clean (Text.trimSpace (textOf p))).length ≤ p.length := by
  rcases List.eq_nil_or_concat p with rfl | ⟨p, n, rfl⟩
  · decide
  rw [List.concat_eq_append] at hplain hslash ⊢
  obtain ⟨n', h⟩ := clean_trimSpace_textOf hplain hslash
  have habove : p.dropLast <+: p := List.dropLast_prefix p
  have hbelow : p <+: p ++ [n] := List.prefix_append _ _
  rw [h, push]
  split
  · exact ⟨habove.trans hbelow, by simp⟩
  split
  · have htwice : p.dropLast.dropLast <+: p.dropLast := List.dropLast_prefix _
    refine ⟨(htwice.trans habove).trans hbelow, ?_⟩
    simp only [List.length_dropLast, List.length_append, List.length_singleton]
    omega
  · rw [List.dropLast_concat]
    exact ⟨List.prefix_append _ _, by simp⟩

end FilePath
