import HyperFileLens.Engine.SnapshotListing

/-!
# A listing line and its entry

`Entry.print` is the line of an entry, with blanks around its columns. Reading it gives
the entry back exactly when the object id occurs in no column in front of its own and the
name loses nothing at its ends (`Readable`).

The parser trims blanks, slashes and backslashes off the name. The slash behind the name of
a directory goes that way, and so does a blank or a backslash that belongs to the name.
Where the object id is found too early, the name that is read contains the column of the
object id, so one of its characters occurs more often in it than in the name of the entry.
-/

namespace HyperFileLens.Engine.SnapshotListing

open GoText (Word blanks fields index itoa)

/-- An entry of a snapshot directory, as far as its line shows it. -/
structure Entry where
  mode : List Char
  size : Int
  date : List Char
  time : List Char
  zone : List Char
  objectId : List Char
  name : List Char
  dir : Bool
  word_mode : Word mode
  word_date : Word date
  word_time : Word time
  word_zone : Word zone
  word_objectId : Word objectId
  plain_objectId : ∃ c ∈ objectId, isSlash c = false
  size_range : -2 ^ 63 ≤ size ∧ size < 2 ^ 63
  name_ne_nil : name ≠ []
  /-- A file name is no path and stands on one line. -/
  name_plain : '/' ∉ name ∧ '\n' ∉ name

/-- The blanks in front of a line, and those behind each column that are not its one
separator. -/
structure Padding where
  front : Nat
  mode : Nat
  size : Nat
  date : Nat
  time : Nat
  zone : Nat
  objectId : Nat

namespace Entry

variable (e : Entry) (pad : Padding)

/-- What stands in front of the separator of the object id. -/
def columns : List Char :=
  blanks pad.front ++ (e.mode ++ ' ' :: (blanks pad.mode ++ (itoa e.size ++ ' ' ::
    (blanks pad.size ++ (e.date ++ ' ' :: (blanks pad.date ++ (e.time ++ ' ' ::
      (blanks pad.time ++ (e.zone ++ blanks pad.zone)))))))))

def tail : List Char :=
  ' ' :: (blanks pad.objectId ++ (e.name ++ if e.dir then ['/'] else []))

def print : List Char := e.columns pad ++ ' ' :: e.objectId ++ e.tail pad

end Entry

def ReadsBack (formatModTimeUTC : List Char → List Char) (line : List Char) (e : Entry) : Prop :=
  (parseSnapshotBrowseLongLine formatModTimeUTC line).map (fun r => (r.mode, r.size, r.name)) =
    some (e.mode, e.size, e.name)

/-- The entry can be read off its line. -/
structure Readable (e : Entry) (pad : Padding) : Prop where
  mode : looksLikeMode e.mode
  objectId : index e.objectId (e.print pad) = some ((e.columns pad).length + 1)
  /-- The name starts neither with white space nor with a slash or backslash. -/
  first : ∀ c ∈ e.name.head?, Text.isSpace c = false ∧ isSlash c = false
  /-- The name ends neither with a slash or backslash nor, if it is a file's, with white
  space. -/
  last : ∀ c ∈ e.name.getLast?, isSlash c = false ∧ (e.dir = false → Text.isSpace c = false)

section Trimming

theorem trimSpace_append_slash (s : List Char) :
    Text.trimSpace (s ++ ['/']) = s.dropWhile Text.isSpace ++ ['/'] := by
  have hslash : Text.isSpace '/' = false := rfl
  have hdrop : (s ++ ['/']).dropWhile Text.isSpace = s.dropWhile Text.isSpace ++ ['/'] := by
    rw [List.dropWhile_append]
    split
    · rename_i hempty
      rw [List.isEmpty_iff.mp hempty]
      rfl
    · rfl
  rw [Text.trimSpace, Text.trim, hdrop, List.reverse_append, List.reverse_singleton,
    List.singleton_append, List.dropWhile_cons_of_neg (by simp [hslash]), List.reverse_cons,
    List.reverse_reverse]

end Trimming

namespace Entry

variable {e : Entry} {pad : Padding}

/-! ## The columns -/

theorem fields_print : fields (e.print pad) =
    e.mode :: itoa e.size :: e.date :: e.time :: e.zone :: e.objectId :: fields (e.tail pad) := by
  have htail : fields (e.tail pad) =
      fields (blanks pad.objectId ++ (e.name ++ if e.dir then ['/'] else [])) :=
    GoText.fields_cons_space rfl _
  rw [htail]
  simp only [print, columns, tail, List.append_assoc, List.cons_append,
    GoText.blanks_append_blank]
  rw [GoText.fields_blanks, GoText.fields_word e.word_mode, GoText.fields_blanks,
    GoText.fields_word (GoText.word_itoa e.size), GoText.fields_blanks,
    GoText.fields_word e.word_date, GoText.fields_blanks, GoText.fields_word e.word_time,
    GoText.fields_blanks, GoText.fields_word e.word_zone, GoText.fields_blanks,
    GoText.fields_word e.word_objectId]

/-- The object id is found, in its column or in an earlier one. An earlier place ends in
front of the separator of the column. -/
theorem exists_index : ∃ n, index e.objectId (e.print pad) = some n ∧
    (n = (e.columns pad).length + 1 ∨ n + e.objectId.length ≤ (e.columns pad).length) := by
  obtain ⟨n, hn, hindex⟩ := @GoText.index_append e.objectId (e.columns pad ++ [' ']) (e.tail pad)
  have hline : e.columns pad ++ [' '] ++ e.objectId ++ e.tail pad = e.print pad := by
    simp [print]
  rw [hline] at hindex
  refine ⟨n, hindex, ?_⟩
  rw [List.length_append, List.length_singleton] at hn
  rcases Nat.eq_or_lt_of_le hn with heq | hlt
  · exact .inl heq
  · refine .inr (GoText.index_before (fun hmem => ?_) hindex hlt)
    have := e.word_objectId.visible ' ' hmem
    cases this

/-! ## The name -/

/-- The name that is read where the object id is found in its own column. -/
theorem drop_columns :
    (e.print pad).drop ((e.columns pad).length + 1 + e.objectId.length) = e.tail pad := by
  have hline : e.print pad = (e.columns pad ++ ' ' :: e.objectId) ++ e.tail pad := by
    simp [print]
  have hlen : (e.columns pad).length + 1 + e.objectId.length =
      (e.columns pad ++ ' ' :: e.objectId).length := by
    simp
    omega
  rw [hline, hlen, List.drop_left]

theorem trimSpace_tail : Text.trimSpace (e.tail pad) =
    Text.trimSpace (e.name ++ if e.dir then ['/'] else []) := by
  rw [tail, Text.trimSpace, Text.trim_cons _ rfl,
    Text.trim_append_left fun _ => GoText.isSpace_of_mem_blanks]
  rfl

/-- The name behind the object id is the name of the entry when it loses nothing at its
ends. -/
theorem trim_tail_eq_name : Text.trim isSlash (Text.trimSpace (e.tail pad)) = e.name ↔
    (∀ c ∈ e.name.head?, Text.isSpace c = false ∧ isSlash c = false) ∧
      ∀ c ∈ e.name.getLast?, isSlash c = false ∧ (e.dir = false → Text.isSpace c = false) := by
  rw [trimSpace_tail]
  cases hdir : e.dir with
  | true =>
    rw [if_pos rfl, trimSpace_append_slash,
      Text.trim_append_right (by simp [isSlash])]
    constructor
    · intro h
      have hdrop := Text.eq_of_trim_eq (List.dropWhile_sublist _) h
      rw [hdrop] at h
      obtain ⟨hfirst, hlast⟩ := Text.ends_of_trim_eq_self h
      exact ⟨fun c hc => ⟨Text.head_of_dropWhile_eq_self hdrop c hc, hfirst c hc⟩,
        fun c hc => ⟨hlast c hc, fun hfile => by cases hfile⟩⟩
    · rintro ⟨hfirst, hlast⟩
      have hdrop : e.name.dropWhile Text.isSpace = e.name := by
        cases hname : e.name with
        | nil => rfl
        | cons c s =>
          have hc := (hfirst c (by rw [hname]; rfl)).1
          exact List.dropWhile_cons_of_neg (by simp [hc])
      rw [hdrop]
      exact Text.trim_eq_self (fun c hc => (hfirst c hc).2) fun c hc => (hlast c hc).1
  | false =>
    rw [if_neg Bool.false_ne_true, List.append_nil]
    constructor
    · intro h
      have htrim : Text.trimSpace e.name = e.name := Text.eq_of_trim_eq (Text.trim_sublist _ _) h
      rw [htrim] at h
      obtain ⟨hfirst, hlast⟩ := Text.ends_of_trim_eq_self h
      obtain ⟨hfirst', hlast'⟩ := Text.ends_of_trim_eq_self htrim
      exact ⟨fun c hc => ⟨hfirst' c hc, hfirst c hc⟩,
        fun c hc => ⟨hlast c hc, fun _ => hlast' c hc⟩⟩
    · rintro ⟨hfirst, hlast⟩
      have htrim : Text.trimSpace e.name = e.name :=
        Text.trim_eq_self (fun c hc => (hfirst c hc).1) fun c hc => (hlast c hc).2 rfl
      rw [htrim]
      exact Text.trim_eq_self (fun c hc => (hfirst c hc).2) fun c hc => (hlast c hc).1

/-- A name that is read from an earlier place is not the name of the entry: it has the object
id in it. -/
theorem trim_drop_ne_name {n : Nat} (hn : n ≤ (e.columns pad).length) :
    Text.trim isSlash (Text.trimSpace ((e.print pad).drop n)) ≠ e.name := by
  obtain ⟨c, hc, hslash⟩ := e.plain_objectId
  have hspace := e.word_objectId.visible c hc
  have hpos := List.count_pos_iff.mpr hc
  intro h
  have hcount := congrArg (List.count c) h
  rw [Text.count_trim hslash, Text.trimSpace, Text.count_trim hspace, print, List.append_assoc,
    List.drop_append_of_le_length hn, List.cons_append, tail] at hcount
  simp only [List.count_append, List.count_cons] at hcount
  omega

end Entry

/-! ## Reading back -/

section ReadingBack

variable (formatModTimeUTC : List Char → List Char) (e : Entry) (pad : Padding) {n : List Char}

variable {ns : List (List Char)}

theorem parse_print (hmode : looksLikeMode e.mode) (hfields : fields (e.tail pad) = n :: ns) :
    parseSnapshotBrowseLongLine formatModTimeUTC (e.print pad) =
      if (nameOf (e.print pad) e.objectId (n :: ns)).isEmpty then none
      else some ⟨e.mode, e.size, formatModTimeUTC ([' '].intercalate [e.date, e.time, e.zone]),
        nameOf (e.print pad) e.objectId (n :: ns)⟩ := by
  have hsize := GoText.parseInt64_itoa e.size_range.1 e.size_range.2
  rw [parseSnapshotBrowseLongLine, parseSnapshotBrowseLongLineDiagnostic, Entry.fields_print,
    hfields]
  simp only [hmode, hsize, Bool.not_true, Bool.false_eq_true, if_false]
  split <;> rfl

theorem reads_back_iff_nameOf (hmode : looksLikeMode e.mode)
    (hfields : fields (e.tail pad) = n :: ns) : ReadsBack formatModTimeUTC (e.print pad) e ↔
      nameOf (e.print pad) e.objectId (n :: ns) = e.name := by
  rw [ReadsBack, parse_print formatModTimeUTC e pad hmode hfields]
  split
  · rename_i hempty
    rw [List.isEmpty_iff.mp hempty]
    constructor
    · intro h
      cases h
    · intro h
      exact (e.name_ne_nil h.symm).elim
  · simp only [Option.map_some, Option.some.injEq, Prod.mk.injEq, true_and]

/-- The name is read back when the object id is found in its column and the name loses
nothing at its ends. -/
theorem nameOf_eq_name (rest : List (List Char)) : nameOf (e.print pad) e.objectId rest = e.name ↔
      index e.objectId (e.print pad) = some ((e.columns pad).length + 1) ∧
        (∀ c ∈ e.name.head?, Text.isSpace c = false ∧ isSlash c = false) ∧
        ∀ c ∈ e.name.getLast?, isSlash c = false ∧ (e.dir = false → Text.isSpace c = false) := by
  obtain ⟨i, hindex, rfl | hearly⟩ := @Entry.exists_index e pad
  · rw [nameOf, hindex]
    show Text.trim isSlash (Text.trimSpace ((e.print pad).drop _)) = e.name ↔ _
    rw [Entry.drop_columns, Entry.trim_tail_eq_name]
    simp only [true_and]
  · have hne : nameOf (e.print pad) e.objectId rest ≠ e.name := by
      rw [nameOf, hindex]
      exact Entry.trim_drop_ne_name hearly
    constructor
    · intro h
      exact (hne h).elim
    · rintro ⟨h, -⟩
      rw [hindex] at h
      cases h
      omega

/-- The line of an entry is read back exactly when the entry can be read off it. -/
theorem reads_back_iff :
    ReadsBack formatModTimeUTC (e.print pad) e ↔ Readable e pad := by
  cases hfields : fields (e.tail pad) with
  | nil =>
    constructor
    · intro h
      rw [ReadsBack, parseSnapshotBrowseLongLine, parseSnapshotBrowseLongLineDiagnostic,
        Entry.fields_print, hfields] at h
      cases h
    · intro h
      cases hname : e.name with
      | nil => exact (e.name_ne_nil hname).elim
      | cons c s =>
        have hc := (h.first c (by rw [hname]; rfl)).1
        exact (GoText.fields_ne_nil (by simp [Entry.tail, hname]) hc hfields).elim
  | cons n ns =>
    cases hmode : looksLikeMode e.mode with
    | false =>
      constructor
      · intro h
        rw [ReadsBack, parseSnapshotBrowseLongLine, parseSnapshotBrowseLongLineDiagnostic,
          Entry.fields_print, hfields] at h
        simp only [hmode, Bool.not_false, if_true] at h
        cases h
      · intro h
        have := h.mode
        rw [hmode] at this
        cases this
    | true =>
      rw [reads_back_iff_nameOf formatModTimeUTC e pad hmode hfields, nameOf_eq_name]
      constructor
      · rintro ⟨hindex, hfirst, hlast⟩
        exact ⟨hmode, hindex, hfirst, hlast⟩
      · intro h
        exact ⟨h.objectId, h.first, h.last⟩

end ReadingBack

def fileNamed (name : List Char) (hne : name ≠ []) (hplain : '/' ∉ name ∧ '\n' ∉ name) :
    Entry where
  mode := "-rw-r--r--".toList
  size := 5
  date := "2026-01-02".toList
  time := "03:04:05".toList
  zone := "UTC".toList
  objectId := "k1f".toList
  name := name
  dir := false
  word_mode := .of_all (by decide) (by decide)
  word_date := .of_all (by decide) (by decide)
  word_time := .of_all (by decide) (by decide)
  word_zone := .of_all (by decide) (by decide)
  word_objectId := .of_all (by decide) (by decide)
  plain_objectId := ⟨'k', by decide, rfl⟩
  size_range := by decide
  name_ne_nil := hne
  name_plain := hplain

/-- A file whose name ends with a backslash is read under the name of another file of its
directory. -/
theorem not_reads_back : ¬∀ (formatModTimeUTC : List Char → List Char) (e : Entry)
    (pad : Padding), ReadsBack formatModTimeUTC (e.print pad) e := by
  intro h
  have hread := h id (fileNamed "report\\".toList (by decide) (by decide)) ⟨0, 3, 0, 0, 0, 0, 2⟩
  have hname : (parseSnapshotBrowseLongLine id ((fileNamed "report\\".toList (by decide)
      (by decide)).print ⟨0, 3, 0, 0, 0, 0, 2⟩)).map (fun r => (r.mode, r.size, r.name)) =
        some ("-rw-r--r--".toList, 5, "report".toList) := by decide +kernel
  rw [ReadsBack, hname] at hread
  exact absurd hread (by decide)

end HyperFileLens.Engine.SnapshotListing
