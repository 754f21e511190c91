import HyperFileLens.Engine.SnapshotBrowse
import HyperFileLens.Library.Transition

/-!
# Following the cursor loses and repeats no entry

`entryOf` is the entry in a line, if there is one. A collector that has consumed some lines
holds the entries of its page, as a part of the entries of those lines (`Collected`). It
has seen enough of the listing exactly when it says that there is more, and then its page is
full. So the cursor of the next page is where this page ends, and lines that are delivered
late do not move it.
-/

namespace HyperFileLens.Engine.SnapshotBrowse

open SnapshotListing

section Pages

variable (F : Platform) (formatModTimeUTC : List Char → List Char)

def entryOf (basePath line : List Char) : Option BrowseEntry :=
  let line := Text.trimSpace line
  if line.isEmpty then none
  else
    match parseSnapshotBrowseLongLineDiagnostic formatModTimeUTC line with
    | .ok listed => some (browseEntry F basePath listed false)
    | .error _ =>
      (parseSnapshotBrowseFallbackLine formatModTimeUTC line).map fun listed =>
        browseEntry F basePath listed true

def entriesOf (basePath : List Char) (lines : List (List Char)) : List BrowseEntry :=
  lines.filterMap (entryOf F formatModTimeUTC basePath)

/-! ## One line -/

structure SamePage (c c' : PageCollector) : Prop where
  basePath : c'.basePath = c.basePath
  offset : c'.offset = c.offset
  limit : c'.limit = c.limit
  seen : c'.seen = c.seen
  entries : c'.entries = c.entries
  hasMore : c'.hasMore = c.hasMore

def PageCollector.look (c : PageCollector) : Option BrowseEntry → PageCollector
  | none => c
  | some e => (c.accept e).1

variable {F formatModTimeUTC} {c c' : PageCollector}

variable {es : List BrowseEntry} {cursor : List Char}

theorem SamePage.trans {c'' : PageCollector} (h : SamePage c c') (h' : SamePage c' c'') :
    SamePage c c'' where
  basePath := h'.basePath.trans h.basePath
  offset := h'.offset.trans h.offset
  limit := h'.limit.trans h.limit
  seen := h'.seen.trans h.seen
  entries := h'.entries.trans h.entries
  hasMore := h'.hasMore.trans h.hasMore

theorem samePage_recordWarning (c : PageCollector) (reason : String) :
    SamePage c (c.recordWarning reason) := by
  rw [PageCollector.recordWarning]
  split <;> exact ⟨rfl, rfl, rfl, rfl, rfl, rfl⟩

theorem SamePage.accept (h : SamePage c c') (e : BrowseEntry) :
    SamePage (c.accept e).1 (c'.accept e).1 := by
  simp only [PageCollector.accept, h.seen, h.offset, h.limit, h.entries]
  split
  · exact ⟨h.basePath, rfl, rfl, rfl, rfl, h.hasMore⟩
  · split
    · exact ⟨h.basePath, rfl, rfl, rfl, rfl, rfl⟩
    · exact ⟨h.basePath, rfl, rfl, rfl, rfl, h.hasMore⟩

theorem samePage_consume (c : PageCollector) (line : List Char) :
    SamePage (c.look (entryOf F formatModTimeUTC c.basePath line))
      (c.consume F formatModTimeUTC line).1 := by
  have hcount : ∀ n m, SamePage c { c with linesSeen := n, skippedInvalidCount := m } :=
    fun _ _ => ⟨rfl, rfl, rfl, rfl, rfl, rfl⟩
  have hwarn : ∀ n m reason, SamePage c
      ({ c with linesSeen := n, skippedInvalidCount := m }.recordWarning reason) :=
    fun n m reason => (hcount n m).trans (samePage_recordWarning _ reason)
  have hbase : ∀ n reason, ({ c with linesSeen := n }.recordWarning reason).basePath = c.basePath :=
    fun n reason => (hwarn n c.skippedInvalidCount reason).basePath
  simp only [PageCollector.consume, entryOf]
  split
  · exact hcount _ _
  · cases hlong : parseSnapshotBrowseLongLineDiagnostic formatModTimeUTC (Text.trimSpace line) with
    | ok listed => exact (hcount _ _).accept _
    | error reason =>
      cases hfallback : parseSnapshotBrowseFallbackLine formatModTimeUTC (Text.trimSpace line) with
      | some listed => exact (hwarn _ _ reason).accept _
      | none => exact hwarn _ _ reason

/-! ## A page -/

/-- A collector that has seen some entries: its page is the part of them that starts at its
offset and has at most its limit of entries, and there is more when the page is full and
another entry was seen. -/
structure Collected (c : PageCollector) (es : List BrowseEntry) : Prop where
  entries : c.entries = (es.drop c.offset).take c.limit
  seen : c.seen = min es.length (c.offset + c.limit)
  hasMore : c.hasMore = true ↔ c.offset + c.limit < es.length

theorem Collected.samePage (h : Collected c es) (hsame : SamePage c c') : Collected c' es where
  entries := by rw [hsame.entries, hsame.offset, hsame.limit, h.entries]
  seen := by rw [hsame.seen, hsame.offset, hsame.limit, h.seen]
  hasMore := by rw [hsame.hasMore, hsame.offset, hsame.limit, h.hasMore]

theorem Collected.accept (h : Collected c es) (e : BrowseEntry) :
    Collected (c.accept e).1 (es ++ [e]) := by
  have hseen := h.seen
  have hlen : c.entries.length = min c.limit (es.length - c.offset) := by
    rw [h.entries, List.length_take, List.length_drop]
  rw [PageCollector.accept]
  split
  · rename_i hskip
    have hshort : es.length < c.offset := by omega
    refine ⟨?_, ?_, ?_⟩
    · show c.entries = ((es ++ [e]).drop c.offset).take c.limit
      rw [h.entries, List.drop_of_length_le (by omega),
        List.drop_of_length_le (by rw [List.length_append, List.length_singleton]; omega)]
    · show c.seen + 1 = min (es ++ [e]).length (c.offset + c.limit)
      rw [List.length_append, List.length_singleton]
      omega
    · show c.hasMore = true ↔ c.offset + c.limit < (es ++ [e]).length
      rw [h.hasMore, List.length_append, List.length_singleton]
      omega
  · rename_i hskip
    split
    · rename_i hfull
      have hlong : c.offset + c.limit ≤ es.length := by omega
      refine ⟨?_, ?_, ?_⟩
      · show c.entries = ((es ++ [e]).drop c.offset).take c.limit
        rw [h.entries, List.drop_append_of_le_length (by omega),
          List.take_append_of_le_length (by rw [List.length_drop]; omega)]
      · show c.seen = min (es ++ [e]).length (c.offset + c.limit)
        rw [List.length_append, List.length_singleton]
        omega
      · show true = true ↔ c.offset + c.limit < (es ++ [e]).length
        rw [List.length_append, List.length_singleton]
        exact ⟨fun _ => by omega, fun _ => rfl⟩
    · rename_i hfull
      have hshort : es.length < c.offset + c.limit := by omega
      refine ⟨?_, ?_, ?_⟩
      · show c.entries ++ [e] = ((es ++ [e]).drop c.offset).take c.limit
        have htake : (es.drop c.offset).take c.limit = es.drop c.offset :=
          List.take_of_length_le (by rw [List.length_drop]; omega)
        rw [h.entries, htake, List.drop_append_of_le_length (by omega),
          List.take_of_length_le (by simp; omega)]
      · show c.seen + 1 = min (es ++ [e]).length (c.offset + c.limit)
        rw [List.length_append, List.length_singleton]
        omega
      · show c.hasMore = true ↔ c.offset + c.limit < (es ++ [e]).length
        rw [h.hasMore, List.length_append, List.length_singleton]
        omega

theorem Collected.look (h : Collected c es) (e : Option BrowseEntry) :
    (c.look e).basePath = c.basePath ∧ (c.look e).offset = c.offset ∧
      (c.look e).limit = c.limit ∧ Collected (c.look e) (es ++ e.toList) := by
  cases e with
  | none =>
    rw [Option.toList_none, List.append_nil]
    exact ⟨rfl, rfl, rfl, h⟩
  | some e =>
    have hkeeps : (c.accept e).1.basePath = c.basePath ∧ (c.accept e).1.offset = c.offset ∧
        (c.accept e).1.limit = c.limit := by
      rw [PageCollector.accept]
      split
      · exact ⟨rfl, rfl, rfl⟩
      · split <;> exact ⟨rfl, rfl, rfl⟩
    exact ⟨hkeeps.1, hkeeps.2.1, hkeeps.2.2, h.accept e⟩

variable {basePath : List Char} {limit : Int}

theorem collected_consumeAll (hc : newSnapshotBrowsePageCollector basePath limit cursor = .ok c)
    (delivered : List (List Char)) :
    (c.consumeAll F formatModTimeUTC delivered).basePath = c.basePath ∧
      (c.consumeAll F formatModTimeUTC delivered).offset = c.offset ∧
      (c.consumeAll F formatModTimeUTC delivered).limit = c.limit ∧
      Collected (c.consumeAll F formatModTimeUTC delivered)
        (entriesOf F formatModTimeUTC c.basePath delivered) := by
  induction delivered using List.reverseRecOn with
  | nil =>
    obtain ⟨offset, -, rfl⟩ := Transition.map_eq_ok.mp hc
    refine ⟨rfl, rfl, rfl, ⟨?_, ?_, ?_⟩⟩
    · simp [PageCollector.consumeAll, entriesOf]
    · simp [PageCollector.consumeAll, entriesOf]
    · simp [PageCollector.consumeAll, entriesOf]
  | append_singleton delivered line ih =>
    obtain ⟨hbase, hoffset, hlimit, hcollected⟩ := ih
    have hsame := @samePage_consume F formatModTimeUTC
      (c.consumeAll F formatModTimeUTC delivered) line
    have hrun : c.consumeAll F formatModTimeUTC (delivered ++ [line]) =
        ((c.consumeAll F formatModTimeUTC delivered).consume F formatModTimeUTC line).1 := by
      rw [PageCollector.consumeAll, List.foldl_append]
      rfl
    have hentries : entriesOf F formatModTimeUTC c.basePath (delivered ++ [line]) =
        entriesOf F formatModTimeUTC c.basePath delivered ++
          (entryOf F formatModTimeUTC c.basePath line).toList := by
      rw [entriesOf, List.filterMap_append]
      cases h : entryOf F formatModTimeUTC c.basePath line <;> simp [h, entriesOf]
    rw [hbase] at hsame
    obtain ⟨hbase', hoffset', hlimit', hlook⟩ :=
      hcollected.look (entryOf F formatModTimeUTC c.basePath line)
    rw [hrun, hentries, hsame.basePath, hsame.offset, hsame.limit]
    exact ⟨hbase'.trans hbase, hoffset'.trans hoffset, hlimit'.trans hlimit,
      hlook.samePage hsame⟩

theorem page_of_delivers {listing delivered : List (List Char)}
    (hc : newSnapshotBrowsePageCollector basePath limit cursor = .ok c)
    (hd : Delivers F formatModTimeUTC listing delivered c) :
    (c.consumeAll F formatModTimeUTC delivered).entries =
        ((entriesOf F formatModTimeUTC c.basePath listing).drop c.offset).take c.limit ∧
      (c.consumeAll F formatModTimeUTC delivered).nextCursor =
        if c.offset + c.limit < (entriesOf F formatModTimeUTC c.basePath listing).length then
          GoText.itoa (c.offset + c.limit : Nat)
        else [] := by
  obtain ⟨-, hoffset, hlimit, hcollected⟩ := @collected_consumeAll F formatModTimeUTC _ _ _ _ hc
    delivered
  obtain ⟨rest, hrest⟩ := hd.lines
  have hes : entriesOf F formatModTimeUTC c.basePath listing =
      entriesOf F formatModTimeUTC c.basePath delivered ++
        entriesOf F formatModTimeUTC c.basePath rest := by
    rw [← hrest, entriesOf, List.filterMap_append]
    rfl
  generalize entriesOf F formatModTimeUTC c.basePath listing = es at hes ⊢
  generalize entriesOf F formatModTimeUTC c.basePath delivered = seen at hes hcollected
  have hmore := hcollected.hasMore
  have hentries := hcollected.entries
  rw [hoffset, hlimit] at hmore hentries
  have hlen : (c.consumeAll F formatModTimeUTC delivered).entries.length =
      min c.limit (seen.length - c.offset) := by
    rw [hentries, List.length_take, List.length_drop]
  by_cases hlt : c.offset + c.limit < seen.length
  · rw [PageCollector.nextCursor, if_pos (hmore.mpr hlt), hentries, hes, hoffset, if_pos]
    · have hfull : ((seen.drop c.offset).take c.limit).length = c.limit := by
        rw [← hentries, hlen]
        omega
      rw [List.drop_append_of_le_length (by omega),
        List.take_append_of_le_length (by rw [List.length_drop]; omega), hfull]
      exact ⟨rfl, rfl⟩
    · rw [List.length_append]
      omega
  · have hall : es = seen := by
      rcases hd.complete with rfl | hmore'
      · have hnil := List.append_right_eq_self.mp hrest
        rw [hes, hnil]
        exact List.append_nil _
      · exact (hlt (hmore.mp hmore')).elim
    rw [PageCollector.nextCursor, if_neg (fun h => hlt (hmore.mp h)), hall, if_neg hlt]
    exact ⟨hentries, rfl⟩

/-! ## Cursors -/

theorem offsetOf_itoa (n : Nat) : offsetOf (GoText.itoa n) = .ok n := by
  have hword := GoText.word_itoa n
  have htrim : Text.trimSpace (GoText.itoa n) = GoText.itoa n :=
    Text.trim_eq_self (fun c hc => hword.visible c (List.mem_of_head? hc))
      fun c hc => hword.visible c (List.mem_of_getLast? hc)
  rw [offsetOf, htrim]
  show (if (GoText.itoa n).isEmpty then _ else _) = _
  rw [if_neg (by simpa using hword.ne_nil), GoText.atoi_itoa]

theorem pageLimit_pos (limit : Int) : 0 < pageLimit limit := by
  rw [pageLimit]
  split
  · decide
  · split
    · decide
    · omega

/-- How far a session came: it has shown the first entries, and its cursor says how many, or it
has shown them all and has no cursor. -/
def Reached (es : List BrowseEntry) (pages : List (List BrowseEntry)) (cursor : List Char) :
    Prop :=
  (cursor = [] ∧ pages.flatten = es ∧ pages.length ≤ es.length + 1) ∨
    ∃ n : Nat, cursor = GoText.itoa n ∧ n < es.length ∧ pages.flatten = es.take n ∧
      pages.length ≤ n

variable {pages : List (List BrowseEntry)}

theorem reached_page {n limit : Nat} (hpages : pages.flatten = es.take n)
    (hlen : pages.length ≤ n) (hn : n ≤ es.length) (hlimit : 0 < limit) :
    Reached es (pages ++ [(es.drop n).take limit])
      (if n + limit < es.length then GoText.itoa (n + limit : Nat) else []) := by
  have hflatten : (pages ++ [(es.drop n).take limit]).flatten = es.take (n + limit) := by
    rw [List.flatten_append, hpages, List.flatten_singleton, List.take_add]
  have hlength : (pages ++ [(es.drop n).take limit]).length = pages.length + 1 := by simp
  split
  · rename_i hlt
    exact .inr ⟨n + limit, rfl, hlt, hflatten, by omega⟩
  · rename_i hlt
    refine .inl ⟨rfl, ?_, by omega⟩
    rw [hflatten, List.take_of_length_le (by omega)]

theorem reached_of_session {listing : List (List Char)}
    (h : Session F formatModTimeUTC listing basePath limit pages cursor) :
    Reached (entriesOf F formatModTimeUTC (Text.trim isSlash (Text.trimSpace basePath)) listing)
      pages cursor := by
  induction h with
  | @first c delivered hc hd =>
    obtain ⟨hentries, hcursor⟩ := page_of_delivers hc hd
    cases hc
    rw [hentries, hcursor]
    exact @reached_page (entriesOf F formatModTimeUTC
      (Text.trim isSlash (Text.trimSpace basePath)) listing) [] 0 (pageLimit limit)
      rfl (Nat.le_refl 0) (Nat.zero_le _) (pageLimit_pos limit)
  | @next pages cursor c delivered hs hcursor hc hd ih =>
    obtain ⟨hentries, hnext⟩ := page_of_delivers hc hd
    rcases ih with ⟨hnil, -⟩ | ⟨n, rfl, hn, hpages, hlen⟩
    · exact (hcursor hnil).elim
    · rw [newSnapshotBrowsePageCollector, offsetOf_itoa] at hc
      cases hc
      rw [hentries, hnext]
      exact reached_page hpages hlen (Nat.le_of_lt hn) (pageLimit_pos limit)

end Pages

/-! ## Following the cursors -/

/-- Following the cursors of a listing shows its entries, `es`, in order and once each, on
finitely many pages. -/
structure PagesThrough (F : Platform) (formatModTimeUTC : List Char → List Char)
    (listing : List (List Char)) (basePath : List Char) (limit : Int) (es : List BrowseEntry) :
    Prop where
  /-- The pages so far show the first entries. -/
  inOrder : ∀ pages cursor, Session F formatModTimeUTC listing basePath limit pages cursor →
    pages.flatten <+: es
  /-- The pages up to the one without a cursor show all entries. -/
  complete : ∀ pages, Session F formatModTimeUTC listing basePath limit pages [] →
    pages.flatten = es
  finite : ∀ pages cursor, Session F formatModTimeUTC listing basePath limit pages cursor →
    pages.length ≤ es.length + 1
  /-- A cursor is accepted, so a reader who has one gets another page. -/
  continues : ∀ pages cursor, Session F formatModTimeUTC listing basePath limit pages cursor →
    ∃ c, newSnapshotBrowsePageCollector basePath limit cursor = .ok c

/-- Paging through a snapshot directory loses and repeats nothing. -/
theorem pages_through (F : Platform) (formatModTimeUTC : List Char → List Char)
    (listing : List (List Char)) (basePath : List Char) (limit : Int) :
    PagesThrough F formatModTimeUTC listing basePath limit
      (entriesOf F formatModTimeUTC (Text.trim isSlash (Text.trimSpace basePath)) listing) where
  inOrder pages cursor h := by
    rcases reached_of_session h with ⟨-, hall, -⟩ | ⟨n, -, -, hpages, -⟩
    · exact hall ▸ List.prefix_rfl
    · exact hpages ▸ List.take_prefix n _
  complete pages h := by
    rcases reached_of_session h with ⟨-, hall, -⟩ | ⟨n, hcursor, -⟩
    · exact hall
    · exact ((GoText.word_itoa n).ne_nil hcursor.symm).elim
  finite pages cursor h := by
    rcases reached_of_session h with ⟨-, -, hlen⟩ | ⟨n, -, hn, -, hlen⟩
    · exact hlen
    · omega
  continues pages cursor h := by
    rcases reached_of_session h with ⟨rfl, -⟩ | ⟨n, rfl, -⟩
    · exact ⟨_, rfl⟩
    · rw [newSnapshotBrowsePageCollector, offsetOf_itoa]
      exact ⟨_, rfl⟩

/-- A listing with a blank line, a line of another kind, and two entries. -/
example : (entriesOf .unix id [] ["".toList, "summary: 2".toList,
    "-rw-r--r-- 5 2026-01-02 03:04:05 UTC k1f a b.txt".toList,
    "drwxr-xr-x 0 2026-01-02 03:04:05 UTC k2e docs/".toList]).map (fun e => (e.name, e.type)) =
      [("a b.txt".toList, .file), ("docs".toList, .dir)] := by
  decide +kernel

end HyperFileLens.Engine.SnapshotBrowse
