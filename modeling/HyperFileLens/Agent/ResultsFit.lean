import HyperFileLens.Agent.ResultBounds

/-!
# Which result documents fit their frame

How many bytes of a document the levels of `boundTaskResult` keep, counted on the
document itself, and when what is sent is within the bound.

*Cuts.*  A cut bounds how many characters of a text stay and how many entries of a map or
a list. It bounds neither the keys of a map nor what a character takes once it is
escaped, and 32 entries on each of five levels may hold any number of texts. So the last
level, the two failure summaries, has no bound of its own.
-/

namespace HyperFileLens.Agent

open GoJson

/-! ## What a cut keeps -/

/-- The bytes that a text takes, written, when it is cut to a number of bytes. -/
def cutBytes : Nat → List Char → Nat
  | _, [] => 0
  | limit, c :: cs =>
    if c.utf8Size ≤ limit then utf8Length (escape c) + cutBytes (limit - c.utf8Size) cs else 0

section Encoder

variable (floatText : Rat → List Char)

/-- The bytes that stay of a value, with the number of levels that are left. -/
def keptBytes : Nat → Json → Nat
  | 0, _ => 4
  | _ + 1, .str s => cutBytes maxResultStringBytes s.toList + 2
  | left + 1, .obj fields =>
    listBytes (((fields.mergeSort byKey).take 32).map fun f =>
      fieldBytes f.1 (keptBytes left f.2))
  | left + 1, .arr xs => listBytes ((xs.take 32).map (keptBytes left))
  | _ + 1, value => size floatText value

def itemBytes (item : Dict) : Nat :=
  listBytes (itemFields.map fun f =>
    fieldBytes f.1 (cutBytes f.2 (stringJSONScalar floatText (item.get f.1)) + 2))

/-- The keys of the counts that the summary does not count anew. -/
def copiedKeys (summary : Dict) : List String :=
  (countKeys.filter (· ≠ "reported_count")).filter fun key =>
    key ≠ "truncated" ∨ compactInteger (summary.get "total_count") = none

/-- The bytes of the mark that a summary lost items. -/
def truncatedBytes (summary : Dict) : List Nat :=
  match compactInteger (summary.get "total_count") with
  | some total => [fieldBytes "truncated" (size floatText (.bool
      (summary.get "truncated" = .bool true || ((sampledItems summary).length : Int) < total)))]
  | none => []

def summaryBytes : Json → Nat
  | .obj summary =>
    listBytes (fieldBytes "items" (listBytes ((sampledItems summary).map (itemBytes floatText))) ::
      (truncatedBytes floatText summary ++
        fieldBytes "reported_count" (size floatText (.int (sampledItems summary).length)) ::
          (copiedKeys summary).filterMap fun key =>
            (Dict.get? summary key).map fun child => fieldBytes key (keptBytes floatText 5 child)))
  | _ => 4

def markBytes (originalBytes : Nat) : List Nat :=
  (truncationMarks originalBytes).map fun f => fieldBytes f.1 (size floatText f.2)

def scalarBytes (result : Dict) (originalBytes : Nat) : Nat :=
  listBytes (markBytes floatText originalBytes ++ essentialResultKeys.filterMap fun key =>
    (result.get? key).bind fun value =>
      if isScalar value then some (fieldBytes key (keptBytes floatText 5 value))
      else if key ∈ summaryKeys then some (fieldBytes key (summaryBytes floatText value))
      else none)

/-- The bytes that the last level keeps of a document. -/
def ultraCompactBytes (result : Dict) (originalBytes : Nat) : Nat :=
  listBytes (markBytes floatText originalBytes ++ summaryKeys.filterMap fun key =>
    (result.get? key).map fun value => fieldBytes key (summaryBytes floatText value))

variable {d front : Dict} {f : String → Option Json}

theorem utf8Length_flatMap_takeUTF8 (limit : Nat) (cs : List Char) :
    utf8Length ((takeUTF8 limit cs).flatMap escape) = cutBytes limit cs := by
  induction cs generalizing limit with
  | nil => rfl
  | cons c cs ih =>
    rw [takeUTF8, cutBytes]
    split
    · rw [List.flatMap_cons, utf8Length_append, ih]
    · rfl

theorem size_takeUTF8 (limit : Nat) (cs : List Char) :
    size floatText (.str (String.ofList (takeUTF8 limit cs))) = cutBytes limit cs + 2 := by
  have hquote : '"'.utf8Size = 1 := by decide
  rw [size, encode, String.toList_ofList, quote, List.cons_append, utf8Length_cons,
    utf8Length_append, utf8Length_flatMap_takeUTF8, utf8Length_cons, utf8Length_nil, hquote]
  omega

theorem size_compactResultValue (left : Nat) (value : Json) :
    size floatText (compactResultValue left value) = keptBytes floatText left value := by
  induction left generalizing value with
  | zero => rfl
  | succ left ih =>
    cases value with
    | null => rfl
    | bool b => rfl
    | int n => rfl
    | float x => rfl
    | str s => exact size_takeUTF8 floatText maxResultStringBytes s.toList
    | arr xs =>
      rw [compactResultValue, size_arr, keptBytes, List.map_map]
      congr 1
      exact List.map_congr_left fun x _ => ih x
    | obj fields =>
      rw [compactResultValue, size_obj, keptBytes, List.map_map]
      congr 1
      exact List.map_congr_left fun f _ => congrArg (fieldBytes f.1) (ih f.2)

theorem size_boundedItem (item : Dict) :
    size floatText (boundedItem floatText item) = itemBytes floatText item := by
  rw [boundedItem, size_obj, itemBytes, List.map_map]
  congr 1
  exact List.map_congr_left fun f _ => congrArg (fieldBytes f.1) (size_takeUTF8 floatText _ _)

/-! ## Maps as lists of fields -/

theorem set_perm (h : d.Keyed) (key : String) (value : Json) :
    (d.set key value).Perm ((key, value) :: d.pop key) := by
  induction d with
  | nil => exact .refl _
  | cons f d ih =>
    obtain ⟨l, w⟩ := f
    have hnot : l ∉ d.map Prod.fst := (List.nodup_cons.mp h).1
    have htail : Dict.Keyed d := (List.nodup_cons.mp h).2
    rw [Dict.set]
    split
    case isTrue heq =>
      subst heq
      have hpop : Dict.pop ((key, w) :: d) key = d := by
        rw [Dict.pop, List.filter_cons_of_neg (by simp), List.filter_eq_self]
        intro f hf
        simp only [ne_eq, decide_eq_true_eq]
        rintro rfl
        exact hnot (List.mem_map_of_mem hf)
      rw [hpop]
    case isFalse hne =>
      have hpop : Dict.pop ((l, w) :: d) key = (l, w) :: Dict.pop d key := by
        rw [Dict.pop, List.filter_cons_of_pos (by simpa using Ne.symm hne)]
        rfl
      rw [hpop]
      exact ((ih htail).cons _).trans (.swap _ _ _)

def pick (f : String → Option Json) (keys : List String) : Dict :=
  keys.filterMap fun k => (f k).map fun v => (k, v)

theorem pick_cons (f : String → Option Json) (k : String) (keys : List String) :
    pick f (k :: keys) = ((f k).map fun v => (k, v)).toList ++ pick f keys := by
  rw [pick, List.filterMap_cons]
  cases f k <;> rfl

variable {keys : List String}

theorem mem_keys_pick {k : String} (h : k ∈ (pick f keys).map Prod.fst) : k ∈ keys := by
  obtain ⟨field, hfield, rfl⟩ := List.mem_map.mp h
  obtain ⟨key, hkey, hsome⟩ := List.mem_filterMap.mp hfield
  obtain ⟨v, -, rfl⟩ := Option.map_eq_some_iff.mp hsome
  exact hkey

theorem keyed_pick (f : String → Option Json) (h : keys.Nodup) : (pick f keys).Keyed := by
  induction keys with
  | nil => exact List.nodup_nil
  | cons k keys ih =>
    obtain ⟨hnot, hrest⟩ := List.nodup_cons.mp h
    rw [pick_cons]
    cases f k with
    | none => exact ih hrest
    | some v => exact List.nodup_cons.mpr ⟨fun hmem => hnot (mem_keys_pick hmem), ih hrest⟩

theorem pop_pick (f : String → Option Json) (keys : List String) (key : String) :
    (pick f keys).pop key = pick f (keys.filter (· ≠ key)) := by
  induction keys with
  | nil => rfl
  | cons k keys ih =>
    have happend : ∀ d e : Dict, Dict.pop (d ++ e) key = d.pop key ++ e.pop key :=
      fun d e => List.filter_append d e
    rw [pick_cons, happend, ih, List.filter_cons]
    split
    case isTrue hne =>
      rw [pick_cons]
      cases f k with
      | none => rfl
      | some v =>
        congr 1
        exact List.filter_cons_of_pos (by simpa using hne)
    case isFalse heq =>
      cases f k with
      | none => rfl
      | some v =>
        have hgone : Dict.pop [(k, v)] key = [] :=
          List.filter_cons_of_neg (by simpa using heq)
        exact congrArg (· ++ pick f (keys.filter (· ≠ key))) hgone

theorem set_perm_pick (h : d.Keyed) (hperm : d.Perm (front ++ pick f keys)) (key : String)
    (value : Json) (hfront : key ∉ front.map Prod.fst) :
    (d.set key value).Perm ((key, value) :: front ++ pick f (keys.filter (· ≠ key))) := by
  have hpop : (d.pop key).Perm (front ++ pick f (keys.filter (· ≠ key))) := by
    have hfilter : (front ++ pick f keys).filter (fun field => decide (field.1 ≠ key)) =
        front ++ pick f (keys.filter (· ≠ key)) := by
      rw [List.filter_append, ← pop_pick, Dict.pop]
      congr 1
      rw [List.filter_eq_self]
      intro field hfield
      simp only [ne_eq, decide_eq_true_eq]
      rintro rfl
      exact hfront (List.mem_map_of_mem hfield)
    rw [← hfilter]
    exact hperm.filter _
  exact (set_perm h key value).trans (hpop.cons _)

/-! ## Summaries -/

def fieldSizes (d : Dict) : List Nat := d.map fun f => fieldBytes f.1 (size floatText f.2)

theorem size_obj_eq (d : Dict) : size floatText (.obj d) = listBytes (fieldSizes floatText d) :=
  size_obj floatText d

theorem fieldSizes_keptCounts (summary : Dict) (keys : List String) :
    fieldSizes floatText (pick (fun key =>
      (Dict.get? summary key).map fun child => compactResultValue 5 child) keys) =
      keys.filterMap fun key =>
        (Dict.get? summary key).map fun child => fieldBytes key (keptBytes floatText 5 child) := by
  induction keys with
  | nil => rfl
  | cons key keys ih =>
    rw [pick_cons, List.filterMap_cons, fieldSizes, List.map_append]
    rw [fieldSizes] at ih
    rw [ih]
    cases Dict.get? summary key with
    | none => rfl
    | some child =>
      simp [size_compactResultValue]

theorem keptCounts_eq (summary : Dict) : keptCounts summary = pick (fun key =>
      (Dict.get? summary key).map fun child => compactResultValue 5 child) countKeys := by
  rw [keptCounts, pick]
  refine List.filterMap_congr fun key _ => ?_
  rw [Option.map_map]
  rfl

/-- The size of a map that is a rearrangement of some fields and a part of another map. -/
theorem size_obj_of_perm {summary : Dict} (h : d.Perm (front ++ pick (fun key =>
      (Dict.get? summary key).map fun child => compactResultValue 5 child) keys)) :
    size floatText (.obj d) = listBytes (fieldSizes floatText front ++ keys.filterMap fun key =>
      (Dict.get? summary key).map fun child => fieldBytes key (keptBytes floatText 5 child)) := by
  rw [size_obj_eq, ← fieldSizes_keptCounts, fieldSizes, fieldSizes, fieldSizes, ← List.map_append]
  exact listBytes_perm (h.map _)

theorem size_compactSnapshotFailureSummary (value : Json) :
    size floatText (compactSnapshotFailureSummary floatText value) =
      summaryBytes floatText value := by
  cases value with
  | obj summary =>
    have hcounts : (keptCounts summary).Keyed := by
      rw [keptCounts_eq]
      exact keyed_pick _ (by decide)
    have hitems : ∀ keys : List String, (∀ key ∈ keys, key ∈ countKeys) →
        keys.filter (· ≠ "items") = keys := by
      intro keys hkeys
      rw [List.filter_eq_self]
      intro key hkey
      have hmem := hkeys key hkey
      simp only [ne_eq, decide_eq_true_eq]
      rintro rfl
      exact absurd hmem (by decide)
    have hsamples : size floatText (.arr ((sampledItems summary).map (boundedItem floatText))) =
        listBytes ((sampledItems summary).map (itemBytes floatText)) := by
      rw [size_arr, List.map_map]
      congr 1
      exact List.map_congr_left fun item _ => size_boundedItem floatText item
    -- the copied counts, then the three fields that are set after them
    have hcopy : (keptCounts summary).Perm ([] ++ pick (fun key =>
        (Dict.get? summary key).map fun child => compactResultValue 5 child) countKeys) := by
      rw [List.nil_append, keptCounts_eq]
    let reported := Json.int ((sampledItems summary).map (boundedItem floatText)).length
    let items := Json.arr ((sampledItems summary).map (boundedItem floatText))
    have hreported := set_perm_pick hcounts hcopy "reported_count" reported (by simp)
    have hkeyed := hcounts.set "reported_count" reported
    have hlength : ((sampledItems summary).map (boundedItem floatText)).length =
        (sampledItems summary).length := List.length_map _
    have hfirst : ∀ key ∈ countKeys.filter (· ≠ "reported_count"), key ∈ countKeys :=
      fun key hkey => (List.mem_filter.mp hkey).1
    rcases Option.eq_none_or_eq_some (compactInteger (Dict.get summary "total_count")) with
      htotal | ⟨total, htotal⟩
    · have hcopied : copiedKeys summary = countKeys.filter (· ≠ "reported_count") := by
        rw [copiedKeys, List.filter_eq_self]
        intro key _
        rw [htotal]
        simp
      have hout := set_perm_pick hkeyed hreported "items" items (by simp)
      rw [hitems _ hfirst] at hout
      have hsize := size_obj_of_perm floatText hout
      simp only [compactSnapshotFailureSummary, htotal, summaryBytes, truncatedBytes, hcopied]
      rw [hsize, fieldSizes, ← hsamples, ← hlength]
      rfl
    · have hcopied : copiedKeys summary =
          (countKeys.filter (· ≠ "reported_count")).filter (· ≠ "truncated") := by
        rw [copiedKeys]
        refine List.filter_congr fun key _ => ?_
        rw [htotal]
        simp
      let truncated := Json.bool (Dict.get summary "truncated" = .bool true ||
        (((sampledItems summary).map (boundedItem floatText)).length : Int) < total)
      have htruncated := set_perm_pick hkeyed hreported "truncated" truncated (by simp)
      have hout := set_perm_pick (hkeyed.set "truncated" truncated) htruncated "items"
        items (by simp)
      rw [hitems _ fun key hkey => hfirst key (List.mem_filter.mp hkey).1] at hout
      have hsize := size_obj_of_perm floatText hout
      simp only [compactSnapshotFailureSummary, htotal, summaryBytes, truncatedBytes, hcopied]
      rw [hsize, fieldSizes, ← hsamples, ← hlength]
      rfl
  | _ => rfl

/-! ## Levels -/

theorem jsonSize_scalarResult (result : Dict) (originalBytes : Nat) :
    jsonSize floatText (scalarResult floatText result originalBytes) =
      scalarBytes floatText result originalBytes := by
  rw [jsonSize, size_obj, scalarResult, List.map_append, scalarBytes, markBytes,
    List.map_filterMap]
  congr 2
  refine List.filterMap_congr fun key _ => ?_
  cases result.get? key with
  | none => rfl
  | some value =>
    rw [Option.bind_some, Option.bind_some]
    split
    · rw [Option.map_some, size_compactResultValue]
    · split
      · rw [Option.map_some, size_compactSnapshotFailureSummary]
      · rfl

theorem jsonSize_ultraCompactResult (result : Dict) (originalBytes : Nat) :
    jsonSize floatText (ultraCompactResult floatText result originalBytes) =
      ultraCompactBytes floatText result originalBytes := by
  rw [jsonSize, size_obj, ultraCompactResult, List.map_append, ultraCompactBytes, markBytes,
    List.map_filterMap]
  congr 2
  refine List.filterMap_congr fun key _ => ?_
  cases result.get? key with
  | none => rfl
  | some value =>
    rw [Option.map_some, Option.map_some, Option.map_some, size_compactSnapshotFailureSummary]

theorem ultraCompact_le_compact (result : Dict) (originalBytes : Nat) :
    jsonSize floatText (ultraCompactResult floatText result originalBytes) ≤
      jsonSize floatText (compactResult floatText result originalBytes) := by
  rw [jsonSize, jsonSize, size_obj, size_obj]
  refine listBytes_sublist (List.Sublist.map _ ?_)
  rw [ultraCompactResult, compactResult]
  refine List.Sublist.append_left ?_ _
  have hkeys : summaryKeys.Sublist essentialResultKeys := by decide
  have hsame : (summaryKeys.filterMap fun key =>
      (result.get? key).map fun value => (key, compactSnapshotFailureSummary floatText value)) =
      summaryKeys.filterMap fun key => (result.get? key).map fun value =>
        (key, if key ∈ summaryKeys then compactSnapshotFailureSummary floatText value
          else compactResultValue 5 value) := by
    refine List.filterMap_congr fun key hkey => ?_
    simp only [if_pos hkey]
  rw [hsame]
  exact hkeys.filterMap _

def causeSummary (key : String) : Json := .obj [("cause_counts", .obj [(key, .int 1)])]

def causeDocument (key : String) : Dict := [("snapshot_failure_summary", causeSummary key)]

theorem quote_le_size {fields : Dict} {f : String × Json} (h : f ∈ fields) :
    utf8Length (quote f.1.toList) ≤ size floatText (.obj fields) := by
  have hfield := fieldBytes_le_size floatText h
  rw [fieldBytes] at hfield
  omega

theorem value_le_size {fields : Dict} {f : String × Json} (h : f ∈ fields) :
    size floatText f.2 ≤ size floatText (.obj fields) :=
  (size_le_fieldBytes f.1 _).trans (fieldBytes_le_size floatText h)

theorem compact_causeSummary (key : String) :
    compactSnapshotFailureSummary floatText (causeSummary key) =
      .obj [("cause_counts", .obj [(key, .int 1)]), ("reported_count", .int 0),
        ("items", .arr [])] := by
  have hcopied : keptCounts [("cause_counts", .obj [(key, .int 1)])] =
      [("cause_counts", .obj [(key, .int 1)])] := by
    simp [keptCounts, countKeys, Dict.get?, compactResultValue]
  rw [causeSummary, compactSnapshotFailureSummary, hcopied]
  rfl

theorem strip_causeDocument {key : String} (hout : key ≠ "stdout") (herr : key ≠ "stderr") :
    stripFields (causeDocument key) = causeDocument key := by
  simp [causeDocument, causeSummary, stripFields, stripCommandOutput, hout, herr]

/-- A document with such a summary is sent with the name of the cause, however long. -/
theorem boundTaskResult_causeDocument {key : String} (hout : key ≠ "stdout")
    (herr : key ≠ "stderr") (hlong : maxTaskResultBytes < utf8Length (quote key.toList)) :
    maxTaskResultBytes <
      jsonSize floatText (boundTaskResult floatText (some (causeDocument key))).1 := by
  have hcause : ∀ rest, maxTaskResultBytes <
      size floatText (.obj (("cause_counts", .obj [(key, .int 1)]) :: rest)) := by
    intro rest
    have hname := quote_le_size floatText (List.mem_singleton_self (key, Json.int 1))
    have hvalue := value_le_size floatText
      (List.mem_cons_self (a := ("cause_counts", Json.obj [(key, .int 1)])) (l := rest))
    exact Nat.lt_of_lt_of_le hlong (hname.trans hvalue)
  have hlevel : ∀ (value : Json) (fields : Dict), maxTaskResultBytes < size floatText value →
      ("snapshot_failure_summary", value) ∈ fields →
      maxTaskResultBytes < jsonSize floatText fields :=
    fun value fields hvalue hmem => Nat.lt_of_lt_of_le hvalue (value_le_size floatText hmem)
  have hget : ∀ k, (causeDocument key).get? k =
      if k = "snapshot_failure_summary" then some (causeSummary key) else none := by
    intro k
    rw [causeDocument, Dict.get?_cons]
    split <;> simp
  have hcompact : maxTaskResultBytes <
      size floatText (compactSnapshotFailureSummary floatText (causeSummary key)) := by
    rw [compact_causeSummary]
    exact hcause _
  generalize hn : jsonSize floatText (causeDocument key) = originalBytes
  have hdocument : maxTaskResultBytes < originalBytes := by
    rw [← hn]
    exact hlevel (causeSummary key) _ (hcause []) List.mem_cons_self
  have htrimmed : maxTaskResultBytes <
      jsonSize floatText (trimmedResult (causeDocument key) originalBytes) := by
    refine hlevel (causeSummary key) _ (hcause []) ?_
    rw [trimmedResult, strip_causeDocument hout herr]
    exact List.mem_cons_self
  have hultra : maxTaskResultBytes <
      jsonSize floatText (ultraCompactResult floatText (causeDocument key) originalBytes) := by
    refine hlevel _ _ hcompact (List.mem_append_right _ (List.mem_filterMap.mpr
      ⟨"snapshot_failure_summary", by decide, ?_⟩))
    rw [hget, if_pos rfl]
    rfl
  have hscalar : maxTaskResultBytes <
      jsonSize floatText (scalarResult floatText (causeDocument key) originalBytes) := by
    refine hlevel _ _ hcompact (List.mem_append_right _ (List.mem_filterMap.mpr
      ⟨"snapshot_failure_summary", by decide, ?_⟩))
    rw [hget, if_pos rfl]
    rfl
  have hlast := ultraCompact_le_compact floatText (causeDocument key) originalBytes
  rw [boundTaskResult, Option.getD_some, hn]
  dsimp only
  rw [if_neg (Nat.not_le.mpr hdocument), if_neg (Nat.not_le.mpr htrimmed),
    if_neg (Nat.not_le.mpr (Nat.lt_of_lt_of_le hultra hlast)), if_neg (Nat.not_le.mpr hscalar)]
  exact hultra

end Encoder

end HyperFileLens.Agent
