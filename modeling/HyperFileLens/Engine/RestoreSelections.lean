import HyperFileLens.Engine.SnapshotBrowse
import HyperFileLens.Library.Coverage
import HyperFileLens.Library.FilePath

/-!
# Selections of a restore

A restore gets a list of selected paths of a snapshot. `restoreSelectedPaths` cleans them
and drops those below another one. The empty path stands for the whole snapshot, and so
does an empty list.

`Covers` compares the names of two paths. On clean texts that is the comparison of
`restorePathCoversSelection`, which asks for a slash behind the ancestor so that a name is
not taken for one that starts like it.
-/

namespace HyperFileLens.Engine.RestoreSelections

open SnapshotBrowse (Platform)

/-! ## The code -/

def restorePathCoversSelection (ancestor candidate : List Char) : Bool :=
  candidate == ancestor || (ancestor ++ ['/']).isPrefixOf candidate

/-- A selection as it is compared. The root of the snapshot is empty. -/
def cleanSelection (F : Platform) (item : List Char) : List Char :=
  let value := Text.trimSpace item
  if value = [] ∨ value = ['.'] then []
  else
    let value := Text.trim (· == '/') (FilePath.cleanText (F.toSlash value))
    if value = ['.'] then [] else value

/-- The loop over the selections. The first one that is the root ends it. -/
def selectPaths (F : Platform) (paths : List (List Char)) : List (List Char) → List (List Char)
  | [] => if paths.isEmpty then [[]] else paths
  | item :: items =>
    let value := cleanSelection F item
    if value.isEmpty then [[]]
    else if paths.any (restorePathCoversSelection · value) then selectPaths F paths items
    else
      selectPaths F (paths.filter (fun existing => !restorePathCoversSelection value existing) ++
        [value]) items

/-- `restoreSelectedPaths`, of the list of a payload, if it has one. -/
def restoreSelectedPaths (F : Platform) (raw : Option (List (List Char))) : List (List Char) :=
  match raw with
  | none => [[]]
  | some [] => [[]]
  | some items => selectPaths F [] items

/-! ## Covering -/

def namesOf (path : List Char) : List (List Char) := if path = [] then [] else path.splitOn '/'

/-- One path covers another: it is the path or lies above it. -/
def Covers (a b : List Char) : Prop := namesOf a <+: namesOf b

instance : DecidableRel Covers := fun _ _ => inferInstanceAs (Decidable (_ <+: _))

variable {a b : List Char}

theorem covers_refl (a : List Char) : Covers a a := List.prefix_rfl

theorem covers_trans (a b c : List Char) (h : Covers a b) (h' : Covers b c) : Covers a c :=
  h.trans h'

theorem covers_linked (a b c : List Char) (h : Covers a c) (h' : Covers b c) :
    Covers a b ∨ Covers b a :=
  List.prefix_or_prefix_of_prefix h h'

theorem covers_nil (a : List Char) : Covers [] a := List.nil_prefix

theorem eq_nil_of_covers_nil (h : Covers a []) : a = [] := by
  by_contra hne
  have hnil := List.prefix_nil.mp h
  rw [namesOf, if_neg hne] at hnil
  exact List.splitOn_ne_nil '/' a hnil

theorem eq_of_namesOf_eq (h : namesOf a = namesOf b) : a = b := by
  have hsplit : ∀ s : List Char, ['/'].intercalate (s.splitOn '/') = s :=
    fun s => List.intercalate_splitOn '/'
  by_cases ha : a = []
  · subst ha
    exact (eq_nil_of_covers_nil (show namesOf b <+: _ from h ▸ List.prefix_rfl)).symm
  · by_cases hb : b = []
    · subst hb
      exact eq_nil_of_covers_nil (show namesOf a <+: _ from h ▸ List.prefix_rfl)
    · rw [namesOf, namesOf, if_neg ha, if_neg hb] at h
      rw [← hsplit a, ← hsplit b, h]

theorem eq_of_covers (h : Covers a b) (h' : Covers b a) : a = b :=
  eq_of_namesOf_eq (h.eq_of_length_le h'.length_le)

theorem restorePathCoversSelection_iff (ha : a ≠ []) :
    restorePathCoversSelection a b = true ↔ Covers a b := by
  have hsplit : ∀ s : List Char, ['/'].intercalate (s.splitOn '/') = s :=
    fun s => List.intercalate_splitOn '/'
  rw [restorePathCoversSelection, Bool.or_eq_true, beq_iff_eq, List.isPrefixOf_iff_prefix]
  constructor
  · rintro (rfl | ⟨rest, rfl⟩)
    · exact covers_refl _
    · rw [Covers, namesOf, namesOf, if_neg ha, if_neg (by simp), List.append_assoc,
        List.singleton_append, List.splitOn_append_cons_self]
      exact List.prefix_append _ _
  · rintro ⟨names, hnames⟩
    by_cases hb : b = []
    · subst hb
      exact (ha (eq_nil_of_covers_nil ⟨names, hnames⟩)).elim
    · rw [namesOf, namesOf, if_neg ha, if_neg hb] at hnames
      cases names with
      | nil =>
        rw [List.append_nil] at hnames
        left
        rw [← hsplit b, ← hnames, hsplit a]
      | cons n names =>
        right
        refine ⟨['/'].intercalate (n :: names), ?_⟩
        rw [← hsplit b, ← hnames,
          Text.intercalate_append _ (List.splitOn_ne_nil '/' a) (List.cons_ne_nil n names),
          hsplit a]

/-! ## The loop -/

section Loop

variable (F : Platform)

variable {paths : List (List Char)}

theorem add_eq {value : List Char} (hpaths : ∀ p ∈ paths, p ≠ []) (hvalue : value ≠ []) :
    (if paths.any (restorePathCoversSelection · value) then paths
      else paths.filter (fun existing => !restorePathCoversSelection value existing) ++ [value]) =
      Coverage.add Covers paths value := by
  have hany : paths.any (restorePathCoversSelection · value) = true ↔
      ∃ e ∈ paths, Covers e value := by
    rw [List.any_eq_true]
    exact exists_congr fun e => and_congr_right fun he =>
      restorePathCoversSelection_iff (hpaths e he)
  have hfilter : paths.filter (fun existing => !restorePathCoversSelection value existing) =
      paths.filter fun e => ¬Covers value e := by
    refine List.filter_congr fun e _ => ?_
    rw [Bool.eq_iff_iff, Bool.not_eq_true', decide_eq_true_iff, ← Bool.not_eq_true,
      restorePathCoversSelection_iff hvalue]
  rw [Coverage.add, hfilter]
  exact if_congr hany rfl rfl

theorem ne_nil_of_mem_add {value p : List Char} (hpaths : ∀ p ∈ paths, p ≠ []) (hvalue : value ≠ [])
    (hp : p ∈ Coverage.add Covers paths value) : p ≠ [] := by
  rw [Coverage.add] at hp
  split at hp
  · exact hpaths p hp
  · rcases List.mem_append.mp hp with hp | hp
    · exact hpaths p (List.mem_of_mem_filter hp)
    · rw [List.mem_singleton.mp hp]
      exact hvalue

/-- The loop adds the cleaned selections one by one, unless one of them is the root. -/
theorem selectPaths_eq (items : List (List Char)) (hpaths : ∀ p ∈ paths, p ≠ [])
    (hsome : items ≠ [] ∨ paths ≠ []) :
    selectPaths F paths items =
      if [] ∈ items.map (cleanSelection F) then [[]]
      else (items.map (cleanSelection F)).foldl (Coverage.add Covers) paths := by
  induction items generalizing paths with
  | nil =>
    have hne : paths ≠ [] := hsome.elim (fun h => (h rfl).elim) id
    rw [selectPaths, if_neg (by simpa using hne), if_neg (by simp)]
    rfl
  | cons item items ih =>
    rw [selectPaths]
    by_cases hroot : cleanSelection F item = []
    · rw [if_pos (by rw [hroot]; rfl), if_pos]
      rw [List.map_cons, hroot]
      exact List.mem_cons_self
    · have hstep := add_eq hpaths hroot
      have hadd : Coverage.add Covers paths (cleanSelection F item) ≠ [] := by
        rw [Coverage.add]
        split
        · rename_i h
          obtain ⟨e, he, -⟩ := h
          exact List.ne_nil_of_mem he
        · simp
      have hih := ih (fun p hp => ne_nil_of_mem_add hpaths hroot hp) (.inr hadd)
      have hroots : [] ∈ cleanSelection F item :: items.map (cleanSelection F) ↔
          [] ∈ items.map (cleanSelection F) := by
        rw [List.mem_cons, or_iff_right (Ne.symm hroot)]
      rw [if_neg (by simpa using hroot), List.map_cons, List.foldl_cons,
        if_congr hroots rfl rfl, ← hih, ← hstep]
      split <;> rfl

theorem spans_restoreSelectedPaths {items : List (List Char)} (hne : items ≠ []) :
    Coverage.Spans Covers (restoreSelectedPaths F (some items)) (items.map (cleanSelection F)) := by
  have heq : restoreSelectedPaths F (some items) = selectPaths F [] items := by
    cases items with
    | nil => exact (hne rfl).elim
    | cons item items => rfl
  rw [heq, selectPaths_eq F items (by simp) (.inl hne)]
  split
  · rename_i hroot
    exact ⟨fun e he => List.mem_singleton.mp he ▸ hroot,
      fun x _ => ⟨[], List.mem_singleton_self _, covers_nil x⟩, List.pairwise_singleton _ _⟩
  · exact Coverage.spans_foldl_add covers_refl covers_trans _

end Loop

/-! ## The selections of a restore -/

/-- What a list of paths to restore promises about the selections it comes from. -/
structure Reduced (F : Platform) (items paths : List (List Char)) : Prop where
  apart : paths.Pairwise fun a b => ¬Covers a b ∧ ¬Covers b a
  covered : ∀ item ∈ items, ∃! p, p ∈ paths ∧ Covers p (cleanSelection F item)
  selected : ∀ p ∈ paths, ∃ item ∈ items, cleanSelection F item = p
  whole : paths = [[]] ↔ ∃ item ∈ items, cleanSelection F item = []
  /-- Order and repetition of the selections do not matter. -/
  set : ∀ items', (∀ item, item ∈ items' ↔ item ∈ items) →
    (restoreSelectedPaths F (some items')).Perm paths

/-- A list of selections is reduced to a minimal cover. The empty list stands for the whole
snapshot. -/
theorem restoreSelectedPaths_reduced (F : Platform) (items : List (List Char)) :
    if items = [] then restoreSelectedPaths F (some items) = [[]]
    else Reduced F items (restoreSelectedPaths F (some items)) := by
  split
  · rename_i hnil
    rw [hnil]
    rfl
  · rename_i hne
    have hspans := spans_restoreSelectedPaths F hne
    refine ⟨hspans.apart, fun item hitem => ?_, fun p hp => ?_, ?_, fun items' hitems => ?_⟩
    · exact hspans.exists_unique covers_linked (List.mem_map_of_mem hitem)
    · exact List.mem_map.mp (hspans.sub p hp)
    · constructor
      · intro hwhole
        exact List.mem_map.mp (hspans.sub [] (hwhole ▸ List.mem_singleton_self _))
      · rintro ⟨item, hitem, hroot⟩
        -- the root is covered by itself only, and then there is no other path
        obtain ⟨p, hp, hcovers⟩ := hspans.covered [] (hroot ▸ List.mem_map_of_mem hitem)
        rw [eq_nil_of_covers_nil hcovers] at hp
        have hall : ∀ q ∈ restoreSelectedPaths F (some items), q = [] := fun q hq =>
          (hspans.eq_of_covers hp hq (covers_nil q)).symm
        have hnodup : (restoreSelectedPaths F (some items)).Nodup := by
          refine hspans.apart.imp ?_
          rintro a b ⟨hab, -⟩ rfl
          exact hab (covers_refl a)
        exact List.perm_singleton.mp ((List.perm_ext_iff_of_nodup hnodup
          (List.nodup_singleton _)).mpr fun q =>
            ⟨fun hq => List.mem_singleton.mpr (hall q hq), fun hq => List.mem_singleton.mp hq ▸ hp⟩)
    · have hne' : items' ≠ [] := by
        obtain ⟨item, hitem⟩ := List.exists_mem_of_ne_nil items hne
        exact List.ne_nil_of_mem ((hitems item).mpr hitem)
      have hmem : ∀ x, x ∈ items'.map (cleanSelection F) ↔ x ∈ items.map (cleanSelection F) := by
        intro x
        simp only [List.mem_map, hitems]
      have hsame : ∀ a b : List Char, a = b → Covers a b := by
        rintro a _ rfl
        exact covers_refl a
      have hperm := ((spans_restoreSelectedPaths F hne').mem_congr hmem).keys_perm
        covers_trans (fun _ _ => eq_of_covers) hsame hspans
      rwa [List.map_id', List.map_id'] at hperm

/-- The whole snapshot is restored for an empty list, of which no selection is the root. -/
theorem not_restoreSelectedPaths_reduced :
    ¬∀ (F : Platform) (items : List (List Char)),
      Reduced F items (restoreSelectedPaths F (some items)) := by
  intro h
  obtain ⟨item, hitem, -⟩ := (h .unix []).whole.mp rfl
  cases hitem

/-- Names that look alike stay apart, and the selections below another one go. -/
example : restoreSelectedPaths .unix (some ["docs/a/x".toList, "docs/ab".toList, " docs/a/ ".toList,
    "./docs/a//y".toList]) = ["docs/ab".toList, "docs/a".toList] := by
  decide +kernel

end HyperFileLens.Engine.RestoreSelections
