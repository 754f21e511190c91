import HyperFileLens.Library.PythonPath

/-!
# Paths inside paths

Whether a path is another one or lies below it decides what a restore plan may select and what an
execution target may back up. Both services compare texts: `_same_or_ancestor_path` of the restore
service and `_is_subpath` of the backup service ask whether one text goes on behind the other and a
separator, in the dialect that either text suggests.

`AbsPath` is a normal absolute path by its components, and `Contains` compares these. The texts
tell what the components tell, but for the root of POSIX: without its slash nothing is left of it
(`containment_iff`).
-/

namespace HyperFileLens.Restore.Containment

open PythonPath

/-! ## The services -/

def isWindowsPath (path : List Char) : Bool := decide ('\\' ∈ path) || decide (path[1]? = some ':')

/-- `text or "/"`. -/
def orRoot (text : List Char) : List Char := if text = [] then ['/'] else text

/-- `child == ancestor or child.startswith(ancestor + sep)`. -/
def isBelow (sep : Char) (ancestor child : List Char) : Bool :=
  decide (child = ancestor) || (ancestor ++ [sep]).isPrefixOf child

def sameOrAncestorPath (m : LowerCase) (ancestorPath childPath : List Char) : Bool :=
  if isWindowsPath ancestorPath || isWindowsPath childPath then
    let ancestor := Nt.normcase m (rstrip ['\\', '/'] (Nt.normpath ancestorPath))
    let child := Nt.normcase m (rstrip ['\\', '/'] (Nt.normpath childPath))
    isBelow '\\' ancestor child
  else
    let ancestor := orRoot (rstrip ['/'] (Posix.normpath ancestorPath))
    let child := orRoot (rstrip ['/'] (Posix.normpath childPath))
    isBelow '/' ancestor child

def relativePath (m : LowerCase) (ancestorPath childPath : List Char) : Except String (List Char) :=
  if isWindowsPath ancestorPath || isWindowsPath childPath then do
    let relative ← Nt.relpath m (Nt.normpath childPath) (Nt.normpath ancestorPath)
    .ok (if relative = ['.'] then [] else relative)
  else
    let relative := Posix.relpath (Posix.normpath childPath) (Posix.normpath ancestorPath)
    .ok (if relative = ['.'] then [] else relative)

def cleanPath (path : List Char) : List Char :=
  let value := Text.trim Text.isPySpace path
  if value = [] then []
  else if isWindowsPath value then Nt.normpath value
  else Posix.normpath value

def isSubpath (m : LowerCase) (root path : List Char) : Bool :=
  let cleanRoot := cleanPath root
  let cleanPath := cleanPath path
  if cleanRoot = [] ∨ cleanPath = [] then false
  else if isWindowsPath cleanRoot || isWindowsPath cleanPath then
    let rootCmp := Nt.normcase m (rstrip ['\\', '/'] cleanRoot)
    let pathCmp := Nt.normcase m (rstrip ['\\', '/'] cleanPath)
    isBelow '\\' rootCmp pathCmp
  else
    let rootCmp := orRoot (rstrip ['/'] cleanRoot)
    let pathCmp := orRoot (rstrip ['/'] cleanPath)
    isBelow '/' rootCmp pathCmp

/-! ## Paths by their components -/

inductive Root where
  | posix
  | drive (letter : Char)
  | share (server name : Name)
  deriving DecidableEq

namespace Root

def text : Root → List Char
  | posix => []
  | drive letter => [letter, ':']
  | share server name => Nt.shareText server name

def sep : Root → Char
  | posix => '/'
  | _ => '\\'

def reserved : Root → List Char
  | posix => ['/']
  | _ => ['\\', '/', ':']

/-- A drive has a letter; a share has two names, and is no device. -/
def Valid : Root → Prop
  | posix => True
  | drive letter => letter.isAlpha = true
  | share server name =>
    (server ≠ [] ∧ server ≠ ['?'] ∧ '\\' ∉ server ∧ '/' ∉ server) ∧
      name ≠ [] ∧ '\\' ∉ name ∧ '/' ∉ name

/-- A component as Windows compares it, or as it is. -/
def fold (m : LowerCase) : Root → Name → Name
  | posix, n => n
  | _, n => m.lower n

theorem map_fold_posix (m : LowerCase) (names : List Name) : names.map (posix.fold m) = names :=
  List.map_id names

def Same (m : LowerCase) : Root → Root → Prop
  | posix, posix => True
  | posix, _ => False
  | _, posix => False
  | r, r' => m.lower r.text = m.lower r'.text

def bareNeedsSep : Root → Bool
  | share _ _ => false
  | _ => true

end Root

/-- A normal absolute path, written with separators at its end. -/
structure AbsPath where
  root : Root
  names : List Name
  trailing : Nat
  valid : root.Valid
  plain : ∀ n ∈ names, IsPlain n
  free : ∀ n ∈ names, ∀ c ∈ root.reserved, c ∉ n

namespace AbsPath

/-- The path without the separators at its end. -/
def bare (a : AbsPath) : List Char := a.root.text ++ a.names.flatMap fun n => a.root.sep :: n

def text (a : AbsPath) : List Char :=
  a.bare ++ ((if a.names = [] ∧ a.root.bareNeedsSep = true then [a.root.sep] else []) ++
    List.replicate a.trailing a.root.sep)

/-- The components of one path come first in the other. -/
def Contains (m : LowerCase) (a c : AbsPath) : Prop :=
  a.root.Same m c.root ∧ a.names.map (a.root.fold m) <+: c.names.map (a.root.fold m)

def joined (a : AbsPath) (relative : List Char) : List Char :=
  if relative = [] then a.bare else a.bare ++ a.root.sep :: relative

def Leads (m : LowerCase) (a c : AbsPath) : Prop :=
  ∃ relative, relativePath m a.text c.text = .ok relative ∧
    a.root.fold m (a.joined relative) = a.root.fold m c.bare

/-- Containment of texts is containment of components, and gives a relative path. -/
structure Faithful (m : LowerCase) (a c : AbsPath) : Prop where
  restore : sameOrAncestorPath m a.text c.text = true ↔ a.Contains m c
  backup : isSubpath m a.text c.text = true ↔ a.Contains m c
  relative : a.Contains m c → a.Leads m c

/-- A path whose text is read as what it is: without white space around it, and for POSIX without
what makes it a Windows path. -/
structure Plain (a : AbsPath) : Prop where
  strip : Text.trim Text.isPySpace a.text = a.text
  dialect : a.root = .posix → isWindowsPath a.text = false

/-- The root of POSIX, before a path that its empty text is no start of, or is taken for one. -/
def RootCase (a c : AbsPath) : Prop :=
  (a.root = .posix ∧ a.names = []) ∧
    ((c.root = .posix ∧ c.names ≠ []) ∨ ∃ server name, c.root = .share server name)

end AbsPath

/-! ## Texts of POSIX paths -/

section PosixText

variable {names : List Name}

theorem orRoot_normpath (h : Unseparated '/' names) (hplain : ∀ n ∈ names, IsPlain n) (n : Nat) :
    orRoot (rstrip ['/'] (Posix.normpath (Posix.textOf names n))) = '/' :: joinWith '/' names := by
  by_cases hne : names = []
  · subst hne
    rcases Posix.normpath_root n with hroot | hroot
    · rw [hroot]
      decide
    · rw [hroot]
      decide
  · rw [Posix.normpath_textOf h hplain hne, rstrip_eq_self, orRoot, if_neg (by simp)]
    intro c hc hslash
    obtain ⟨k, hk, hmem⟩ := mem_name_of_last h hne hplain [] hc
    rw [List.mem_singleton.mp hslash] at hmem
    exact h k hk hmem

theorem isBelow_posix {a c : List Name} (ha : Unseparated '/' a) (hc : Unseparated '/' c)
    (hplainA : ∀ n ∈ a, IsPlain n) (hplainC : ∀ n ∈ c, IsPlain n) :
    isBelow '/' ('/' :: joinWith '/' a) ('/' :: joinWith '/' c) = true ↔
      a <+: c ∧ (a = [] → c = []) := by
  have hwithin : isBelow '/' ('/' :: joinWith '/' a) ('/' :: joinWith '/' c) = true ↔
      ('/' :: joinWith '/' a).splitOn '/' <+: ('/' :: joinWith '/' c).splitOn '/' := by
    rw [← isWithin_iff]
    simp [isBelow]
  have hparts : ∀ {names : List Name}, Unseparated '/' names →
      ('/' :: joinWith '/' names).splitOn '/' = [] :: (if names = [] then [[]] else names) := by
    intro names h
    rw [splitOn_cons_self]
    split
    · rename_i hnil
      subst hnil
      rfl
    · rename_i hne
      rw [splitOn_joinWith h hne]
  rw [hwithin, hparts ha, hparts hc, List.cons_prefix_cons, eq_self_iff_true, true_and]
  cases a with
  | nil =>
    cases c with
    | nil => simp
    | cons n c =>
      have hn := (hplainC n List.mem_cons_self).1
      simp [List.cons_prefix_cons, hn.symm]
  | cons n a =>
    have hn := (hplainA n List.mem_cons_self).1
    cases c with
    | nil => simp [List.cons_prefix_cons, hn]
    | cons k c => simp

end PosixText

/-! ## Texts of paths -/

namespace AbsPath

variable {m : LowerCase} {a c : AbsPath}

theorem sep_mem_reserved (r : Root) : r.sep ∈ r.reserved := by
  cases r with
  | posix => simp [Root.sep, Root.reserved]
  | drive letter => simp [Root.sep, Root.reserved]
  | share server name => simp [Root.sep, Root.reserved]

theorem slash_mem_reserved (r : Root) : '/' ∈ r.reserved := by
  cases r with
  | posix => simp [Root.reserved]
  | drive letter => simp [Root.reserved]
  | share server name => simp [Root.reserved]

theorem unseparated_slash (a : AbsPath) : Unseparated '/' a.names :=
  fun n hn => a.free n hn '/' (slash_mem_reserved a.root)

theorem unseparated (a : AbsPath) : Unseparated a.root.sep a.names :=
  fun n hn => a.free n hn a.root.sep (sep_mem_reserved a.root)

theorem bare_of_ne_nil (h : a.names ≠ []) :
    a.bare = a.root.text ++ a.root.sep :: joinWith a.root.sep a.names := by
  rw [bare]
  cases hnames : a.names with
  | nil => exact absurd hnames h
  | cons first rest =>
    rw [joinWith_eq_flatMap, List.flatMap_cons]
    rfl

theorem bare_of_nil (h : a.names = []) : a.bare = a.root.text := by
  rw [bare, h]
  simp

/-- A root and its separator stand before the names, but for a share alone. -/
theorem text_eq (a : AbsPath) : (∃ n, a.text = a.root.text ++ a.root.sep ::
      (joinWith a.root.sep a.names ++ List.replicate n a.root.sep)) ∨
    (∃ server name, a.root = .share server name) ∧ a.names = [] ∧ a.text = a.root.text := by
  by_cases hnames : a.names = []
  · have hbare := bare_of_nil hnames
    cases hneeds : a.root.bareNeedsSep with
    | true =>
      refine .inl ⟨a.trailing, ?_⟩
      rw [text, hbare, if_pos ⟨hnames, hneeds⟩, hnames]
      rfl
    | false =>
      have hshare : ∃ server name, a.root = .share server name := by
        cases hroot : a.root with
        | posix => simp [hroot, Root.bareNeedsSep] at hneeds
        | drive letter => simp [hroot, Root.bareNeedsSep] at hneeds
        | share server name => exact ⟨server, name, rfl⟩
      have htext : a.text = a.root.text ++ List.replicate a.trailing a.root.sep := by
        rw [text, hbare, if_neg (by simp [hneeds])]
        rfl
      cases htrailing : a.trailing with
      | zero => exact .inr ⟨hshare, hnames, by simp [htext, htrailing]⟩
      | succ n => exact .inl ⟨n, by rw [htext, htrailing, hnames]; rfl⟩
  · refine .inl ⟨a.trailing, ?_⟩
    rw [text, bare_of_ne_nil hnames, if_neg fun h => hnames h.1]
    simp

theorem posix_text (h : a.root = .posix) : ∃ n, a.text = Posix.textOf a.names n := by
  rcases a.text_eq with ⟨n, htext⟩ | ⟨⟨server, name, hroot⟩, -⟩
  · rw [h] at htext
    exact ⟨n, htext⟩
  · rw [h] at hroot
    cases hroot

section

variable (h : a.root ≠ .posix)

include h

theorem sep_of_windows : a.root.sep = '\\' := by
  cases hroot : a.root with
  | posix => exact absurd hroot h
  | drive letter => rfl
  | share server name => rfl

theorem names_of_windows : ∀ n ∈ a.names, Nt.IsName n := by
  intro n hn
  have hfree := a.free n hn
  have hreserved : a.root.reserved = ['\\', '/', ':'] := by
    cases hroot : a.root with
    | posix => exact absurd hroot h
    | drive letter => rfl
    | share server name => rfl
  rw [hreserved] at hfree
  exact ⟨(a.plain n hn).1, hfree _ (by simp), hfree _ (by simp), hfree _ (by simp)⟩

theorem isDrive_root (body : List Char) : Nt.IsDrive a.root.text body := by
  have hvalid := a.valid
  cases hroot : a.root with
  | posix => exact absurd hroot h
  | drive letter =>
    rw [hroot] at hvalid
    refine Nt.isDrive_letter ?_ ?_ body
    · rintro rfl
      simp [Root.Valid] at hvalid
    · rintro rfl
      simp [Root.Valid] at hvalid
  | share server name =>
    rw [hroot] at hvalid
    obtain ⟨⟨hne, hlong, hsep, hslash⟩, -, hsep', hslash'⟩ := hvalid
    exact Nt.isDrive_share hsep hslash hsep' hslash' hne hlong body

theorem last_root : ∀ c ∈ a.root.text.getLast?, c ∉ ['\\', '/'] := by
  have hvalid := a.valid
  cases hroot : a.root with
  | posix => exact absurd hroot h
  | drive letter => simp [Root.text]
  | share server name =>
    rw [hroot] at hvalid
    obtain ⟨-, hne, hsep, hslash⟩ := hvalid
    intro c hc
    have hname : c ∈ name.getLast? := by
      rw [Root.text, Nt.shareText, ← List.cons_append, ← List.cons_append,
        List.getLast?_append_of_ne_nil _ (by simp), List.getLast?_cons] at hc
      cases hlast : name.getLast? with
      | none => exact absurd (List.getLast?_eq_none_iff.mp hlast) hne
      | some d =>
        rw [hlast] at hc
        simpa using hc
    have hmem := List.mem_of_getLast? hname
    simp only [List.mem_cons, List.not_mem_nil, or_false, not_or]
    constructor
    · rintro rfl
      exact hsep hmem
    · rintro rfl
      exact hslash hmem

theorem normpath_windows : Nt.normpath a.text = Nt.textOf a.root.text a.names 0 ∨
      (∃ server name, a.root = .share server name) ∧ a.names = [] ∧
        Nt.normpath a.text = a.root.text := by
  have hsep := sep_of_windows h
  have hunseparated := a.unseparated
  rw [hsep] at hunseparated
  rcases a.text_eq with ⟨n, htext⟩ | ⟨⟨server, name, hroot⟩, hnames, htext⟩
  · rw [hsep] at htext
    rw [htext]
    exact .inl (Nt.normpath_textOf hunseparated a.unseparated_slash a.plain n (isDrive_root h _))
  · have hvalid := a.valid
    rw [hroot] at hvalid
    obtain ⟨⟨hne, hlong, hserver, hslash⟩, -, hname, hslash'⟩ := hvalid
    refine .inr ⟨⟨server, name, hroot⟩, hnames, ?_⟩
    rw [htext, hroot]
    exact Nt.normpath_share hserver hslash hname hslash' hne hlong

/-- The parts of a path as Windows compares them. -/
def parts (m : LowerCase) (a : AbsPath) : List Name :=
  (a.root.text.splitOn '\\' ++ a.names).map m.lower

theorem parts_windows :
    (Nt.normcase m (rstrip ['\\', '/'] (Nt.normpath a.text))).splitOn '\\' = a.parts m := by
  have hsep := sep_of_windows h
  have hunseparated := a.unseparated
  rw [hsep] at hunseparated
  have hslash := (isDrive_root h []).slash
  rcases normpath_windows h with hnorm | ⟨-, hnames, hnorm⟩
  · rw [hnorm, Nt.parts_textOf hunseparated a.unseparated_slash a.plain hslash (last_root h)]
    rfl
  · rw [hnorm, rstrip_eq_self (last_root h), Nt.normcase, Nt.replaceSlashes_eq_self hslash,
      m.splitOn_lower, parts, hnames, List.append_nil]

end

/-! ### POSIX texts read as Windows texts -/

section

variable (h : a.root = .posix)

include h

theorem backslash_not_mem (hplain : a.Plain) : '\\' ∉ a.text := by
  have hdialect := hplain.dialect h
  rw [isWindowsPath, Bool.or_eq_false_iff] at hdialect
  exact of_decide_eq_false hdialect.1

theorem unseparated_of_plain (hplain : a.Plain) : Unseparated '\\' a.names := by
  intro n hn hmem
  refine backslash_not_mem h hplain (List.mem_append_left _ (List.mem_append_right _ ?_))
  exact List.mem_flatMap.mpr ⟨n, hn, List.mem_cons_of_mem _ hmem⟩

/-- A root without a drive is one for `ntpath`, if names follow. -/
theorem isDrive_posix (hplain : a.Plain) (hne : a.names ≠ []) (n : Nat) :
    Nt.IsDrive [] (joinWith '\\' a.names ++ List.replicate n '\\') := by
  obtain ⟨c, rest, hjoin, hc⟩ := Posix.head_joinWith (unseparated_of_plain h hplain) a.plain hne
  refine Nt.isDrive_nil fun d hd => ?_
  rw [hjoin] at hd
  obtain rfl : c = d := by simpa using hd
  refine ⟨hc, ?_⟩
  rintro rfl
  rcases Nt.mem_joinWith (by rw [hjoin]; exact List.mem_cons_self) with hsep | ⟨k, hk, hmem⟩
  · simp at hsep
  · exact a.unseparated_slash k hk hmem

theorem parts_textOf_posix (hplain : a.Plain) :
    (Nt.normcase m (rstrip ['\\', '/'] (Nt.textOf [] a.names 0))).splitOn '\\' = a.parts m := by
  rw [Nt.parts_textOf (unseparated_of_plain h hplain) a.unseparated_slash a.plain (by simp)
    (by simp), parts, h]
  rfl

theorem parts_root (hnames : a.names = []) : a.parts m = [[]] := by
  rw [parts, h, hnames]
  simp [Root.text, m.nil]

theorem parts_posix (hplain : a.Plain) :
    (Nt.normcase m (rstrip ['\\', '/'] (Nt.normpath a.text))).splitOn '\\' = a.parts m := by
  obtain ⟨n, htext⟩ := posix_text h
  by_cases hne : a.names = []
  · have hslash : ∀ c ∈ a.text, c = '\\' ∨ c = '/' := by
      intro c hc
      rw [htext, hne] at hc
      rcases List.mem_cons.mp hc with hc | hc
      · exact .inr hc
      · exact .inr (List.eq_of_mem_replicate (by simpa [joinWith] using hc))
    have hnorm := Nt.normpath_separators hslash (by rw [htext]; simp [Posix.textOf])
    rw [Nt.parts_separators fun c hc => .inl (hnorm c hc), parts_root h hne]
  · rw [← Nt.normpath_replaceSlashes, htext, Nt.replaceSlashes_textOf a.unseparated_slash]
    have hsep := unseparated_of_plain h hplain
    rw [Nt.normpath_textOf hsep a.unseparated_slash a.plain n (isDrive_posix h hplain hne n)]
    exact parts_textOf_posix h hplain

/-- The parts of what `posixpath` makes of a path. -/
theorem parts_normpath (hplain : a.Plain) :
    (Nt.normcase m (rstrip ['\\', '/'] (Posix.normpath a.text))).splitOn '\\' = a.parts m := by
  obtain ⟨n, htext⟩ := posix_text h
  by_cases hne : a.names = []
  · have hslash : ∀ c ∈ Posix.normpath a.text, c = '\\' ∨ c = '/' := by
      intro c hc
      rw [htext, hne] at hc
      rcases Posix.normpath_root n with hroot | hroot
      · simp_all
      · simp_all
    rw [Nt.parts_separators hslash, parts_root h hne]
  · rw [htext, Posix.normpath_textOf a.unseparated_slash a.plain hne,
      ← Nt.normcase_rstrip_replaceSlashes]
    have htextOf := Nt.replaceSlashes_textOf a.unseparated_slash 0
    rw [Posix.textOf, List.replicate_zero, List.append_nil] at htextOf
    rw [htextOf]
    exact parts_textOf_posix h hplain

end

/-! ## Parts and components -/

theorem isBelow_windows (ancestor child : List Char) :
    isBelow '\\' ancestor child = true ↔ ancestor.splitOn '\\' <+: child.splitOn '\\' := by
  rw [← isWithin_iff]
  simp [isBelow]

theorem prefix_append_iff {α : Type} {s t xs ys : List α} (h : s.length = t.length) :
    s ++ xs <+: t ++ ys ↔ s = t ∧ xs <+: ys := by
  constructor
  · rintro ⟨rest, hrest⟩
    rw [List.append_assoc] at hrest
    obtain ⟨hst, hxs⟩ := List.append_inj hrest h
    exact ⟨hst, rest, hxs⟩
  · rintro ⟨rfl, rest, rfl⟩
    exact ⟨rest, List.append_assoc _ _ _⟩

theorem splitOn_drive {letter : Char} (h : (Root.drive letter).Valid) :
    (Root.drive letter).text.splitOn '\\' = [[letter, ':']] := by
  have hne : letter ≠ '\\' := by
    rintro rfl
    simp [Root.Valid] at h
  have hsplit : (joinWith '\\' [[letter, ':']]).splitOn '\\' = [[letter, ':']] :=
    splitOn_joinWith (by simp [Unseparated, hne.symm]) (by simp)
  simpa [joinWith, Root.text] using hsplit

theorem splitOn_share {server name : Name} (h : (Root.share server name).Valid) :
    (Root.share server name).text.splitOn '\\' = [[], [], server, name] := by
  obtain ⟨⟨-, -, hserver, -⟩, -, hname, -⟩ := h
  have hsplit : (joinWith '\\' [[], [], server, name]).splitOn '\\' = [[], [], server, name] :=
    splitOn_joinWith (by simp [Unseparated, hserver, hname]) (by simp)
  simpa [joinWith, Root.text, Nt.shareText] using hsplit

theorem nil_ne_lower {n : Name} (h : n ≠ []) : [] ≠ m.lower n := (m.ne_nil n h).symm

theorem same_root_iff (ha : a.root ≠ .posix) (hc : c.root ≠ .posix) : a.root.Same m c.root ↔
      (a.root.text.splitOn '\\').map m.lower = (c.root.text.splitOn '\\').map m.lower := by
  rw [← Nt.lower_eq_iff]
  cases hroot : a.root with
  | posix => exact absurd hroot ha
  | drive letter =>
    cases hroot' : c.root with
    | posix => exact absurd hroot' hc
    | drive letter' => exact Iff.rfl
    | share server name => exact Iff.rfl
  | share server name =>
    cases hroot' : c.root with
    | posix => exact absurd hroot' hc
    | drive letter' => exact Iff.rfl
    | share server' name' => exact Iff.rfl

theorem fold_of_windows (h : a.root ≠ .posix) : a.root.fold m = m.lower := by
  cases hroot : a.root with
  | posix => exact absurd hroot h
  | drive letter => rfl
  | share server name => rfl

/-- Two Windows paths: the parts of one come first in the other when its components do. -/
theorem parts_prefix_windows (ha : a.root ≠ .posix) (hc : c.root ≠ .posix) :
    a.parts m <+: c.parts m ↔ a.Contains m c := by
  rw [Contains, same_root_iff ha hc, fold_of_windows ha, parts, parts, List.map_append,
    List.map_append]
  have hvalid := a.valid
  have hvalid' := c.valid
  cases hroot : a.root with
  | posix => exact absurd hroot ha
  | drive letter =>
    rw [hroot] at hvalid
    cases hroot' : c.root with
    | posix => exact absurd hroot' hc
    | drive letter' =>
      rw [hroot'] at hvalid'
      exact prefix_append_iff (by rw [splitOn_drive hvalid, splitOn_drive hvalid']; rfl)
    | share server name =>
      rw [hroot'] at hvalid'
      have hne := m.ne_nil [letter, ':'] (by simp)
      simp [splitOn_drive hvalid, splitOn_share hvalid', m.nil, List.cons_prefix_cons, hne]
  | share server name =>
    rw [hroot] at hvalid
    cases hroot' : c.root with
    | posix => exact absurd hroot' hc
    | drive letter' =>
      rw [hroot'] at hvalid'
      have hne := nil_ne_lower (m := m) (n := [letter', ':']) (by simp)
      simp [splitOn_drive hvalid', splitOn_share hvalid, m.nil, List.cons_prefix_cons, hne]
    | share server' name' =>
      rw [hroot'] at hvalid'
      exact prefix_append_iff (by rw [splitOn_share hvalid, splitOn_share hvalid']; rfl)

theorem parts_of_posix (h : a.root = .posix) : a.parts m = [] :: a.names.map m.lower := by
  rw [parts, h]
  simp [Root.text, m.nil]

/-- Of a path of POSIX and one of Windows, only the root comes first, before a share. -/
theorem parts_prefix_root (ha : a.root = .posix) (hc : c.root ≠ .posix) :
    a.parts m <+: c.parts m ↔ a.RootCase c := by
  have hvalid := c.valid
  rw [parts_of_posix ha, parts, RootCase]
  cases hroot : c.root with
  | posix => exact absurd hroot hc
  | drive letter =>
    rw [hroot] at hvalid
    have hne := nil_ne_lower (m := m) (n := [letter, ':']) (by simp)
    simp [splitOn_drive hvalid, List.cons_prefix_cons, hne]
  | share server name =>
    rw [hroot] at hvalid
    cases hnames : a.names with
    | nil => simp [splitOn_share hvalid, m.nil, List.cons_prefix_cons, ha]
    | cons n rest =>
      have hplain := a.plain
      rw [hnames] at hplain
      have hne := m.ne_nil n (hplain n List.mem_cons_self).1
      simp [splitOn_share hvalid, m.nil, List.cons_prefix_cons, hne]

theorem not_parts_prefix_posix (ha : a.root ≠ .posix) (hc : c.root = .posix) :
    ¬ a.parts m <+: c.parts m := by
  have hvalid := a.valid
  rw [parts_of_posix hc, parts]
  cases hroot : a.root with
  | posix => exact absurd hroot ha
  | drive letter =>
    rw [hroot] at hvalid
    have hne := m.ne_nil [letter, ':'] (by simp)
    simp [splitOn_drive hvalid, List.cons_prefix_cons, hne]
  | share server name =>
    rw [hroot] at hvalid
    cases hnames : c.names with
    | nil => simp [splitOn_share hvalid, m.nil, List.cons_prefix_cons]
    | cons n rest =>
      have hplain := c.plain
      rw [hnames] at hplain
      have hne := nil_ne_lower (m := m) (hplain n List.mem_cons_self).1
      simp [splitOn_share hvalid, m.nil, List.cons_prefix_cons, hne]

theorem not_same_mixed (h : a.root = .posix ∧ c.root ≠ .posix ∨ a.root ≠ .posix ∧ c.root = .posix) :
    ¬ a.root.Same m c.root := by
  cases hroot : a.root with
  | posix =>
    cases hroot' : c.root with
    | posix => simp [hroot, hroot'] at h
    | drive letter => exact id
    | share server name => exact id
  | drive letter =>
    cases hroot' : c.root with
    | posix => exact id
    | drive letter' => simp [hroot, hroot'] at h
    | share server name => simp [hroot, hroot'] at h
  | share server name =>
    cases hroot' : c.root with
    | posix => exact id
    | drive letter => simp [hroot, hroot'] at h
    | share server' name' => simp [hroot, hroot'] at h

theorem parts_prefix_iff (h : a.root ≠ .posix ∨ c.root ≠ .posix) :
    a.parts m <+: c.parts m ↔ a.Contains m c ∨ a.RootCase c := by
  by_cases ha : a.root = .posix
  · have hc : c.root ≠ .posix := h.resolve_left fun hne => hne ha
    rw [parts_prefix_root ha hc]
    exact ⟨.inr, fun hor => hor.resolve_left fun hsame => not_same_mixed (.inl ⟨ha, hc⟩) hsame.1⟩
  · have hroot : ¬ a.RootCase c := fun hcase => ha hcase.1.1
    by_cases hc : c.root = .posix
    · refine iff_of_false (not_parts_prefix_posix ha hc) ?_
      rintro (hsame | hcase)
      · exact not_same_mixed (.inr ⟨ha, hc⟩) hsame.1
      · exact hroot hcase
    · rw [parts_prefix_windows ha hc]
      exact ⟨.inl, fun hor => hor.resolve_right hroot⟩

/-! ## The services on normal paths -/

theorem isWindowsPath_of_windows (h : a.root ≠ .posix) : isWindowsPath a.text = true := by
  have hmem : '\\' ∈ a.text := by
    have hsep := sep_of_windows h
    rcases a.text_eq with ⟨n, htext⟩ | ⟨⟨server, name, hroot⟩, -, htext⟩
    · rw [htext, hsep]
      exact List.mem_append_right _ List.mem_cons_self
    · rw [htext, hroot]
      exact List.mem_cons_self
  simp [isWindowsPath, hmem]

theorem dialect_eq (hplain : a.Plain) : isWindowsPath a.text = decide (a.root ≠ .posix) := by
  by_cases h : a.root = .posix
  · rw [hplain.dialect h]
    simp [h]
  · rw [isWindowsPath_of_windows h]
    simp [h]

theorem parts_text (hplain : a.Plain) :
    (Nt.normcase m (rstrip ['\\', '/'] (Nt.normpath a.text))).splitOn '\\' = a.parts m := by
  by_cases h : a.root = .posix
  · exact parts_posix h hplain
  · exact parts_windows h

theorem isBelow_both (ha : a.root = .posix) (hc : c.root = .posix) :
    isBelow '/' ('/' :: joinWith '/' a.names) ('/' :: joinWith '/' c.names) = true ↔
      a.Contains m c ∧ ¬ a.RootCase c := by
  rw [isBelow_posix a.unseparated_slash c.unseparated_slash a.plain c.plain, Contains, RootCase, ha,
    hc]
  have hsame : Root.posix.Same m Root.posix := trivial
  rw [Root.map_fold_posix, Root.map_fold_posix]
  simp only [hsame, true_and, reduceCtorEq, exists_false, or_false, not_and, not_not, ne_eq]

theorem sameOrAncestorPath_posix (ha : a.Plain) (hc : c.Plain) (hroot : a.root = .posix)
    (hroot' : c.root = .posix) : sameOrAncestorPath m a.text c.text =
      isBelow '/' ('/' :: joinWith '/' a.names) ('/' :: joinWith '/' c.names) := by
  obtain ⟨n, htext⟩ := posix_text hroot
  obtain ⟨k, htext'⟩ := posix_text hroot'
  rw [sameOrAncestorPath, ha.dialect hroot, hc.dialect hroot', htext, htext']
  show isBelow '/' (orRoot _) (orRoot _) = _
  rw [orRoot_normpath a.unseparated_slash a.plain, orRoot_normpath c.unseparated_slash c.plain]

theorem sameOrAncestorPath_windows (ha : a.Plain) (hc : c.Plain)
    (h : a.root ≠ .posix ∨ c.root ≠ .posix) :
    sameOrAncestorPath m a.text c.text = true ↔ a.parts m <+: c.parts m := by
  rw [sameOrAncestorPath, dialect_eq ha, dialect_eq hc, if_pos (by simpa using h),
    isBelow_windows, parts_text ha, parts_text hc]

def Told (m : LowerCase) (a c : AbsPath) : Prop :=
  (a.root = .posix ∧ c.root = .posix → a.Contains m c ∧ ¬ a.RootCase c) ∧
    (a.root ≠ .posix ∨ c.root ≠ .posix → a.Contains m c ∨ a.RootCase c)

theorem told_iff {told : Bool} (hposix : a.root = .posix → c.root = .posix →
      told = isBelow '/' ('/' :: joinWith '/' a.names) ('/' :: joinWith '/' c.names))
    (hwindows : a.root ≠ .posix ∨ c.root ≠ .posix → (told = true ↔ a.parts m <+: c.parts m)) :
    told = true ↔ a.Told m c := by
  by_cases h : a.root = .posix ∧ c.root = .posix
  · rw [hposix h.1 h.2, isBelow_both h.1 h.2, Told]
    have hno : ¬ (a.root ≠ .posix ∨ c.root ≠ .posix) := fun hor => hor.elim (· h.1) (· h.2)
    exact ⟨fun hboth => ⟨fun _ => hboth, fun hor => absurd hor hno⟩, fun ht => ht.1 h⟩
  · have hor : a.root ≠ .posix ∨ c.root ≠ .posix := not_and_or.mp h
    rw [hwindows hor, parts_prefix_iff hor, Told]
    exact ⟨fun hcase => ⟨fun hboth => absurd hboth h, fun _ => hcase⟩, fun ht => ht.2 hor⟩

theorem sameOrAncestorPath_iff (ha : a.Plain) (hc : c.Plain) :
    sameOrAncestorPath m a.text c.text = true ↔ a.Told m c :=
  told_iff (sameOrAncestorPath_posix ha hc) (sameOrAncestorPath_windows ha hc)

/-! ### The backup service -/

theorem text_ne_nil (a : AbsPath) : a.text ≠ [] := by
  rcases a.text_eq with ⟨n, htext⟩ | ⟨⟨server, name, hroot⟩, -, htext⟩
  · simp [htext]
  · simp [htext, hroot, Root.text, Nt.shareText]

section

variable (ha : a.Plain)

include ha

theorem cleanPath_posix (h : a.root = .posix) : cleanPath a.text = Posix.normpath a.text := by
  rw [cleanPath, ha.strip]
  rw [if_neg a.text_ne_nil, ha.dialect h]
  rfl

theorem cleanPath_windows (h : a.root ≠ .posix) : cleanPath a.text = Nt.normpath a.text := by
  rw [cleanPath, ha.strip]
  rw [if_neg a.text_ne_nil, isWindowsPath_of_windows h]
  rfl

theorem cleanPath_ne_nil : cleanPath a.text ≠ [] := by
  by_cases h : a.root = .posix
  · rw [cleanPath_posix ha h, Posix.normpath]
    split
    · simp
    · assumption
  · rw [cleanPath_windows ha h]
    rcases normpath_windows h with hnorm | ⟨-, -, hnorm⟩
    · simp [hnorm, Nt.textOf]
    · intro hnil
      rw [hnorm] at hnil
      cases hroot : a.root with
      | posix => exact h hroot
      | drive letter => simp [hroot, Root.text] at hnil
      | share server name => simp [hroot, Root.text, Nt.shareText] at hnil

theorem parts_cleanPath :
    (Nt.normcase m (rstrip ['\\', '/'] (cleanPath a.text))).splitOn '\\' = a.parts m := by
  by_cases h : a.root = .posix
  · rw [cleanPath_posix ha h]
    exact parts_normpath h ha
  · rw [cleanPath_windows ha h]
    exact parts_windows h

theorem dialect_cleanPath : isWindowsPath (cleanPath a.text) = decide (a.root ≠ .posix) := by
  by_cases h : a.root = .posix
  · obtain ⟨n, htext⟩ := posix_text h
    have hdialect := ha.dialect h
    rw [cleanPath_posix ha h, htext]
    by_cases hnames : a.names = []
    · rw [hnames]
      rcases Posix.normpath_root n with hroot | hroot
      · simp [hroot, h, isWindowsPath]
      · simp [hroot, h, isWindowsPath]
    · obtain ⟨c, rest, hjoin, -⟩ := Posix.head_joinWith a.unseparated_slash a.plain hnames
      rw [htext, Posix.textOf, hjoin, isWindowsPath, Bool.or_eq_false_iff] at hdialect
      rw [Posix.normpath_textOf a.unseparated_slash a.plain hnames, hjoin]
      simp_all [isWindowsPath]
  · rw [cleanPath_windows ha h]
    rcases normpath_windows h with hnorm | ⟨-, -, hnorm⟩
    · simp [hnorm, Nt.textOf, isWindowsPath, h]
    · rw [hnorm]
      cases hroot : a.root with
      | posix => exact absurd hroot h
      | drive letter => simp [Root.text, isWindowsPath]
      | share server name => simp [Root.text, Nt.shareText, isWindowsPath]

theorem isSubpath_posix (hc : c.Plain) (hroot : a.root = .posix) (hroot' : c.root = .posix) :
    isSubpath m a.text c.text =
      isBelow '/' ('/' :: joinWith '/' a.names) ('/' :: joinWith '/' c.names) := by
  obtain ⟨n, htext⟩ := posix_text hroot
  obtain ⟨k, htext'⟩ := posix_text hroot'
  have hne : ¬ (cleanPath a.text = [] ∨ cleanPath c.text = []) :=
    not_or.mpr ⟨cleanPath_ne_nil ha, cleanPath_ne_nil hc⟩
  rw [isSubpath, if_neg hne, dialect_cleanPath ha, dialect_cleanPath hc,
    if_neg (by simp [hroot, hroot']), cleanPath_posix ha hroot, cleanPath_posix hc hroot', htext,
    htext', orRoot_normpath a.unseparated_slash a.plain,
    orRoot_normpath c.unseparated_slash c.plain]

theorem isSubpath_windows (hc : c.Plain) (h : a.root ≠ .posix ∨ c.root ≠ .posix) :
    isSubpath m a.text c.text = true ↔ a.parts m <+: c.parts m := by
  have hne : ¬ (cleanPath a.text = [] ∨ cleanPath c.text = []) :=
    not_or.mpr ⟨cleanPath_ne_nil ha, cleanPath_ne_nil hc⟩
  rw [isSubpath, if_neg hne, dialect_cleanPath ha, dialect_cleanPath hc,
    if_pos (by simpa using h), isBelow_windows, parts_cleanPath ha, parts_cleanPath hc]

theorem isSubpath_iff (hc : c.Plain) : isSubpath m a.text c.text = true ↔ a.Told m c :=
  told_iff (isSubpath_posix ha hc) (isSubpath_windows ha hc)

end

/-! ## Relative paths -/

/-- What is left of the names of a path below another one. -/
def rest (a c : AbsPath) : List Name := c.names.drop a.names.length

theorem joined_rest (hplain : ∀ n ∈ a.rest c, IsPlain n) :
    a.joined (joinWith a.root.sep (a.rest c)) =
      a.root.text ++ (a.names ++ a.rest c).flatMap fun n => a.root.sep :: n := by
  rw [joined, bare]
  cases hrest : a.rest c with
  | nil => simp [joinWith]
  | cons first rest =>
    rw [hrest] at hplain
    have hfirst := (hplain first List.mem_cons_self).1
    rw [joinWith_eq_flatMap, if_neg (by simp [hfirst])]
    simp

theorem plain_rest (a c : AbsPath) : ∀ n ∈ a.rest c, IsPlain n :=
  fun n hn => c.plain n (List.drop_subset _ _ hn)

theorem joinWith_ne_dot {sep : Char} {names : List Name} (hdot : sep ≠ '.')
    (h : Unseparated sep names) (hplain : ∀ n ∈ names, IsPlain n) : joinWith sep names ≠ ['.'] := by
  intro heq
  have hfilter := filter_splitOn h hplain
  have hdotSplit : (['.'] : List Char).splitOn sep = [['.']] := by
    have hjoin : (joinWith sep [['.']]).splitOn sep = [['.']] :=
      splitOn_joinWith (by simp [Unseparated, hdot]) (by simp)
    simpa [joinWith] using hjoin
  rw [heq, hdotSplit] at hfilter
  have hmem : ['.'] ∈ names := by
    rw [← hfilter]
    simp
  exact (hplain _ hmem).2.1 rfl

/-- The relative path of no names is a dot, which the restore service drops. -/
theorem drop_dot {sep : Char} {names : List Name} (hdot : sep ≠ '.') (h : Unseparated sep names)
    (hplain : ∀ n ∈ names, IsPlain n) {relative : List Char}
    (hrelative : relative = if names = [] then ['.'] else joinWith sep names) :
    (if relative = ['.'] then [] else relative) = joinWith sep names := by
  rw [hrelative]
  by_cases hnames : names = []
  · rw [hnames]
    rfl
  · rw [if_neg hnames, if_neg (joinWith_ne_dot hdot h hplain)]

theorem leads_posix (ha : a.Plain) (hc : c.Plain) (hroot : a.root = .posix)
    (hroot' : c.root = .posix) (h : a.Contains m c) : a.Leads m c := by
  obtain ⟨n, htext⟩ := posix_text hroot
  obtain ⟨k, htext'⟩ := posix_text hroot'
  have hbelow : a.names ++ a.rest c = c.names := by
    obtain ⟨tail, htail⟩ := h.2
    rw [hroot, Root.map_fold_posix, Root.map_fold_posix] at htail
    rw [rest, ← htail, List.drop_left]
  have hsep := c.unseparated_slash
  have hplain := c.plain
  obtain ⟨i, hi⟩ := Posix.exists_normpath_textOf a.unseparated_slash a.plain n
  obtain ⟨j, hj⟩ := Posix.exists_normpath_textOf c.unseparated_slash c.plain k
  rw [← hbelow] at hsep hplain hj htext'
  have hrest : Unseparated '/' (a.rest c) := fun k hk => hsep k (List.mem_append_right _ hk)
  refine ⟨joinWith '/' (a.rest c), ?_, ?_⟩
  · rw [relativePath, ha.dialect hroot, hc.dialect hroot', htext, htext', hi, hj]
    exact congrArg Except.ok
      (drop_dot (by decide) hrest (plain_rest a c) (Posix.relpath_below hsep hplain i j))
  · have hjoined := joined_rest (plain_rest a c)
    rw [hroot] at hjoined ⊢
    rw [Root.sep] at hjoined
    rw [hjoined, hbelow, bare, hroot', Root.sep]

theorem splitroot_normpath (h : a.root ≠ .posix) : ∃ r, Nt.splitroot
    (Nt.normpath (Nt.normpath a.text)) = (a.root.text, r, joinWith '\\' a.names) := by
  have hsep := sep_of_windows h
  have hunseparated := a.unseparated
  rw [hsep] at hunseparated
  have hdrive := isDrive_root h
  rcases normpath_windows h with hnorm | ⟨⟨server, name, hroot⟩, hnames, hnorm⟩
  · refine ⟨['\\'], ?_⟩
    rw [hnorm, Nt.normpath_textOf hunseparated a.unseparated_slash a.plain 0 (hdrive _), Nt.textOf,
      List.replicate_zero, List.append_nil]
    exact (hdrive _).rooted
  · have hvalid := a.valid
    rw [hroot] at hvalid
    obtain ⟨⟨hne, hlong, hserver, hslash⟩, -, hname, hslash'⟩ := hvalid
    refine ⟨[], ?_⟩
    rw [hnorm, hroot, hnames, Root.text, Nt.normpath_share hserver hslash hname hslash' hne hlong,
      Nt.splitroot_share hserver hslash hname hslash' hne hlong]
    rfl

theorem leads_windows (ha : a.root ≠ .posix) (hc : c.root ≠ .posix) (h : a.Contains m c) :
    a.Leads m c := by
  obtain ⟨hsame, hbelow⟩ := h
  rw [fold_of_windows ha] at hbelow
  have hsep := sep_of_windows ha
  have hroots := (same_root_iff ha hc).mp hsame
  obtain ⟨r, hr⟩ := splitroot_normpath ha
  obtain ⟨r', hr'⟩ := splitroot_normpath hc
  have hnames : ∀ n ∈ a.names ++ c.names, Nt.IsName n := by
    intro n hn
    rcases List.mem_append.mp hn with hn | hn
    · exact names_of_windows ha n hn
    · exact names_of_windows hc n hn
  have hplain : ∀ n ∈ a.names ++ c.names, IsPlain n := by
    intro n hn
    rcases List.mem_append.mp hn with hn | hn
    · exact a.plain n hn
    · exact c.plain n hn
  have hdrive : Nt.normcase m a.root.text = Nt.normcase m c.root.text := by
    rw [Nt.normcase, Nt.normcase, Nt.replaceSlashes_eq_self (isDrive_root ha []).slash,
      Nt.replaceSlashes_eq_self (isDrive_root hc []).slash]
    exact Nt.lower_eq_iff.mpr hroots
  have hrelpath := Nt.relpath_below hr hr' hplain hnames hdrive hbelow
  have hrest : Unseparated '\\' (a.rest c) := fun k hk =>
    (names_of_windows hc k (List.drop_subset _ _ hk)).2.1
  refine ⟨joinWith '\\' (a.rest c), ?_, ?_⟩
  · rw [relativePath, isWindowsPath_of_windows ha]
    simp only [Bool.true_or, if_true]
    rw [hrelpath]
    exact congrArg Except.ok (drop_dot (by decide) hrest (plain_rest a c) rfl)
  · have hjoined := joined_rest (plain_rest a c)
    rw [hsep] at hjoined
    have hall : Unseparated '\\' (a.names ++ a.rest c) := by
      intro n hn
      rcases List.mem_append.mp hn with hn | hn
      · exact (names_of_windows ha n hn).2.1
      · exact hrest n hn
    have hall' : Unseparated '\\' c.names := fun n hn => (names_of_windows hc n hn).2.1
    obtain ⟨tail, htail⟩ := hbelow
    have hlower : (a.names ++ a.rest c).map m.lower = c.names.map m.lower := by
      rw [List.map_append, rest, List.map_drop, ← htail, ← List.length_map (f := m.lower),
        List.drop_left]
    rw [fold_of_windows ha, hjoined, bare, sep_of_windows hc]
    refine Nt.lower_eq_iff.mpr ?_
    rw [splitOn_append_flatMap _ hall, splitOn_append_flatMap _ hall', List.map_append, hroots,
      hlower, List.map_append]

/-- A path is below another one only where both have the same kind of root. -/
theorem leads (ha : a.Plain) (hc : c.Plain) (h : a.Contains m c) : a.Leads m c := by
  by_cases hroot : a.root = .posix
  · by_cases hroot' : c.root = .posix
    · exact leads_posix ha hc hroot hroot' h
    · exact absurd h.1 (not_same_mixed (.inl ⟨hroot, hroot'⟩))
  · by_cases hroot' : c.root = .posix
    · exact absurd h.1 (not_same_mixed (.inr ⟨hroot, hroot'⟩))
    · exact leads_windows hroot hroot' h

/-! ## Containment -/

theorem told_iff_contains : (a.Told m c ↔ a.Contains m c) ↔ ¬ a.RootCase c := by
  constructor
  · intro htold hcase
    have hcases := hcase
    obtain ⟨⟨hroot, hnames⟩, ⟨hroot', -⟩ | ⟨server, name, hroot'⟩⟩ := hcases
    · have hcontains : a.Contains m c := by
        rw [Contains, hroot, hroot', hnames]
        exact ⟨trivial, List.nil_prefix⟩
      exact ((htold.mpr hcontains).1 ⟨hroot, hroot'⟩).2 hcase
    · have hne : c.root ≠ .posix := by
        rw [hroot']
        exact Root.noConfusion
      have hcontains := htold.mp ⟨fun hboth => absurd hboth.2 hne, fun _ => .inr hcase⟩
      exact not_same_mixed (.inl ⟨hroot, hne⟩) hcontains.1
  · intro hcase
    constructor
    · intro htold
      by_cases h : a.root = .posix ∧ c.root = .posix
      · exact (htold.1 h).1
      · exact (htold.2 (not_and_or.mp h)).resolve_right hcase
    · exact fun hcontains => ⟨fun _ => ⟨hcontains, hcase⟩, fun _ => .inl hcontains⟩

/-- Containment of texts is containment of components exactly when the first path is not the root
of POSIX before another path of POSIX or before a share. -/
theorem containment_iff (m : LowerCase) {a c : AbsPath} (ha : a.Plain) (hc : c.Plain) :
    a.Faithful m c ↔ ¬ a.RootCase c := by
  rw [← told_iff_contains (m := m)]
  constructor
  · intro h
    rw [← h.restore, sameOrAncestorPath_iff ha hc]
  · exact fun h => ⟨(sameOrAncestorPath_iff ha hc).trans h, (isSubpath_iff ha hc).trans h,
      leads ha hc⟩

/-- The restore service and the backup service never disagree, also about the root. -/
theorem services_agree (m : LowerCase) {a c : AbsPath} (ha : a.Plain) (hc : c.Plain) :
    sameOrAncestorPath m a.text c.text = isSubpath m a.text c.text := by
  have hagree := (sameOrAncestorPath_iff (m := m) ha hc).trans (isSubpath_iff ha hc).symm
  exact Bool.eq_iff_iff.mpr hagree

def asciiLower : LowerCase where
  lower := List.map Char.toLower
  sep := fun a b => List.map_append
  not_mem := by
    intro a ha hmem
    obtain ⟨c, hc, hlower⟩ := List.mem_map.mp hmem
    rcases Nat.lt_or_ge c.toNat 128 with hlt | hge
    · have hsmall : ∀ n < 128, (Char.ofNat n).toLower = '\\' → Char.ofNat n = '\\' := by decide +kernel
      have hself := hsmall c.toNat hlt
      rw [Char.ofNat_toNat] at hself
      exact ha (hself hlower ▸ hc)
    · rw [Text.toLower_of_not_upper (by omega)] at hlower
      exact ha (hlower ▸ hc)
  nil := rfl
  ne_nil := by
    intro a ha hnil
    exact ha (List.map_eq_nil_iff.mp hnil)

/-- `C:\Data\` and `c:\data\Old`. -/
def dataDrive : AbsPath where
  root := .drive 'C'
  names := [['D', 'a', 't', 'a']]
  trailing := 1
  valid := rfl
  plain := by decide
  free := by simp [Root.reserved]

def oldData : AbsPath where
  root := .drive 'c'
  names := [['d', 'a', 't', 'a'], ['O', 'l', 'd']]
  trailing := 0
  valid := rfl
  plain := by decide
  free := by simp [Root.reserved]

theorem containment_drive : dataDrive.Faithful asciiLower oldData := by
  refine (containment_iff asciiLower ?_ ?_).mpr fun h => ?_
  · exact ⟨by decide +kernel, fun h => by cases h⟩
  · exact ⟨by decide +kernel, fun h => by cases h⟩
  · cases h.1.1

/-- `/` and `/srv`. -/
def posixRoot : AbsPath where
  root := .posix
  names := []
  trailing := 0
  valid := trivial
  plain := by decide
  free := by simp [Root.reserved]

def srv : AbsPath where
  root := .posix
  names := [['s', 'r', 'v']]
  trailing := 0
  valid := trivial
  plain := by decide
  free := by simp [Root.reserved]

theorem services_agree_root :
    sameOrAncestorPath asciiLower posixRoot.text srv.text =
      isSubpath asciiLower posixRoot.text srv.text :=
  services_agree asciiLower ⟨by decide +kernel, fun _ => by decide +kernel⟩
    ⟨by decide +kernel, fun _ => by decide +kernel⟩

theorem not_faithful_root : ¬ posixRoot.Faithful asciiLower srv := by
  intro h
  have hcontains : posixRoot.Contains asciiLower srv := ⟨trivial, List.nil_prefix⟩
  have hfalse : sameOrAncestorPath asciiLower posixRoot.text srv.text = false := by decide +kernel
  rw [h.restore.mpr hcontains] at hfalse
  cases hfalse

end AbsPath

end HyperFileLens.Restore.Containment
