import HyperFileLens.Agent.EnvFile

/-!
# What comes back from an environment file

A value comes back from `WriteEnvFile` when it is not quoted or when quoting escapes nothing
in it, from a patch when quoting escapes nothing, and from the sidecar's file when it has no
quotation mark. Its line has to fit into the buffer of the reader.

*Rewriting.*  `setAll` runs calls of `SetEnv`. While all values come back, the file is what
`WriteEnvFile` writes for the settings that are read from it (`Stored`), so a call changes
its own key only.

*Patching.*  A line of the patched file is read as in the file before, or it sets a key of the
patch. The first line may have a byte order mark: then its key is not seen by the patch, and a
line behind it sets the key again.
-/

namespace HyperFileLens.Agent.EnvAgrees

open EnvFile
open GoText (isPlain escapeAll quote)

variable {isPrint : Char → Bool}

def OneLine (values : Env) : Prop :=
  ∀ key val, values key = some val → Text.trimSpace val = val ∧ '\n' ∉ val

/-! ## Lines put together -/

variable {lines : List (List Char)}

theorem splitOn_lines (h : ∀ line ∈ lines, '\n' ∉ line) :
    (lines.flatMap (· ++ ['\n'])).splitOn '\n' = lines ++ [[]] := by
  induction lines with
  | nil => rfl
  | cons line lines ih =>
    rw [List.flatMap_cons, List.append_assoc, List.singleton_append,
      List.splitOn_append_cons_self_of_not_mem (h line List.mem_cons_self),
      ih fun line hline => h line (List.mem_cons_of_mem _ hline), List.cons_append]

/-- The lines that are read, of a text that may start with a mark. -/
theorem splitOn_dropMark (text : List Char) :
    (dropMark text).splitOn '\n' = (text.splitOn '\n').modifyHead dropMark := by
  cases text with
  | nil => rfl
  | cons c text =>
    rw [List.splitOn_cons_eq_if_modifyHead]
    by_cases hmark : c = '\uFEFF'
    · subst hmark
      rw [if_neg (by decide), List.modifyHead_modifyHead]
      show text.splitOn '\n' = _
      have hid : (dropMark ∘ fun x => '\uFEFF' :: x) = id := by
        funext x
        rfl
      rw [hid]
      cases text.splitOn '\n' <;> rfl
    · rw [dropMark, if_neg hmark, List.splitOn_cons_eq_if_modifyHead]
      split
      · rfl
      · rw [List.modifyHead_modifyHead]
        have hsame : (dropMark ∘ fun x => c :: x) = fun x => c :: x := by
          funext x
          exact if_neg hmark
        rw [hsame]

theorem newline_notMem_entry {key val : List Char} (hkey : Key key) (hval : '\n' ∉ val) :
    '\n' ∉ entry key val := by
  intro h
  rw [entry, List.mem_append, List.mem_cons] at h
  rcases h with h | h | h
  · have := hkey.visible '\n' h
    cases this
  · cases h
  · exact hval h

/-! ## The settings file -/

/-- A value comes back from the settings file, and its line fits. -/
def Kept (isPrint : Char → Bool) (key val : List Char) : Prop :=
  (needsQuote val = true → ∀ c ∈ val, isPlain isPrint c = true) ∧
    fits (entry key (writtenValue isPrint val)) = true

def Persistent (key : List Char) : Prop := ∃ f ∈ registry, f.persistent = true ∧ f.env = key

theorem Persistent.key {key : List Char} (h : Persistent key) : Key key := by
  obtain ⟨f, hf, -, rfl⟩ := h
  have hall : registry.all (fun f => isKey f.env) = true := by decide +kernel
  exact .of_isKey (List.all_eq_true.mp hall f hf)

variable {values : Env}

theorem mem_writtenKeys {key : List Char} :
    key ∈ writtenKeys values ↔ Persistent key ∧ values key ≠ none := by
  rw [writtenKeys, List.mem_eraseDups, List.mem_insertionSort, List.mem_map]
  constructor
  · rintro ⟨f, hf, rfl⟩
    obtain ⟨hmem, hcond⟩ := List.mem_filter.mp hf
    rw [Bool.and_eq_true, Option.isSome_iff_ne_none] at hcond
    exact ⟨⟨f, hmem, hcond.1, rfl⟩, hcond.2⟩
  · rintro ⟨⟨f, hmem, hpersistent, rfl⟩, hsome⟩
    refine ⟨f, List.mem_filter.mpr ⟨hmem, ?_⟩, rfl⟩
    rw [Bool.and_eq_true, Option.isSome_iff_ne_none]
    exact ⟨hpersistent, hsome⟩

variable {val : List Char}

theorem trimSpace_writtenValue (h : Text.trimSpace val = val) :
    Text.trimSpace (writtenValue isPrint val) = writtenValue isPrint val := by
  rw [writtenValue]
  split
  · exact trimSpace_quoted _
  · exact h

theorem newline_notMem_writtenValue (h : '\n' ∉ val) : '\n' ∉ writtenValue isPrint val := by
  rw [writtenValue]
  split
  · exact GoText.newline_notMem_quote h
  · exact h

theorem trimEnvQuotes_writtenValue (val : List Char) : trimEnvQuotes (writtenValue isPrint val) =
      val ↔ (needsQuote val = true → ∀ c ∈ val, isPlain isPrint c = true) := by
  rw [writtenValue]
  cases hneeds : needsQuote val with
  | true =>
    rw [if_pos rfl, quote, trimEnvQuotes_quoted, GoText.escapeAll_eq_iff]
    exact ⟨fun h _ => h, fun h => h rfl⟩
  | false =>
    have hnone : ∀ c ∈ val, c ≠ '"' ∧ c ≠ '\x27' := by
      intro c hc
      have hfalse := List.any_eq_false.mp hneeds c hc
      constructor
      · rintro rfl
        exact hfalse rfl
      · rintro rfl
        exact hfalse rfl
    rw [if_neg Bool.false_ne_true]
    refine iff_of_true (trimEnvQuotes_of_not_mem (fun h => ?_) fun h => ?_) (fun h => ?_)
    · exact (hnone _ h).1 rfl
    · exact (hnone _ h).2 rfl
    · cases h

theorem parseText_writeEnvFile (h : OneLine values) :
    parseText (writeEnvFile isPrint values) =
      if ∀ key ∈ writtenKeys values,
          fits (entry key (writtenValue isPrint ((values key).getD []))) = true then
        some fun key =>
          if key ∈ writtenKeys values then
            some (trimEnvQuotes (writtenValue isPrint ((values key).getD [])))
          else none
      else none := by
  have hkeys : ∀ key ∈ writtenKeys values, Key key :=
    fun key hkey => (mem_writtenKeys.mp hkey).1.key
  have hval : ∀ key ∈ writtenKeys values,
      Text.trimSpace ((values key).getD []) = (values key).getD [] ∧
        '\n' ∉ (values key).getD [] := by
    intro key hkey
    obtain ⟨val, hval⟩ := Option.ne_none_iff_exists'.mp (mem_writtenKeys.mp hkey).2
    rw [hval]
    exact h key val hval
  have hheader : header.all (fun line => fits line && (parseLine line).isNone &&
      !line.contains '\n') = true := by
    decide +kernel
  rw [List.all_eq_true] at hheader
  have hsplit : (writeEnvFile isPrint values).splitOn '\n' =
      (header ++ (writtenKeys values).map fun key =>
        entry key (writtenValue isPrint ((values key).getD []))) ++ [[]] := by
    refine splitOn_lines fun line hline => ?_
    rcases List.mem_append.mp hline with hline | hline
    · have hchars := hheader line hline
      simp only [Bool.and_eq_true, Bool.not_eq_true', List.contains_eq_mem,
        decide_eq_false_iff_not] at hchars
      exact hchars.2
    · obtain ⟨key, hkey, rfl⟩ := List.mem_map.mp hline
      exact newline_notMem_entry (hkeys key hkey) (newline_notMem_writtenValue (hval key hkey).2)
  have hread : header.foldl readLine Env.empty = Env.empty := by
    rfl
  rw [parseText, show dropMark (writeEnvFile isPrint values) = writeEnvFile isPrint values from rfl,
    hsplit, parseLines_append_nil]
  by_cases hfits : ∀ key ∈ writtenKeys values,
      fits (entry key (writtenValue isPrint ((values key).getD []))) = true
  · rw [if_pos hfits, parseLines_eq_some]
    constructor
    · intro line hline
      rcases List.mem_append.mp hline with hline | hline
      · have hchars := hheader line hline
        simp only [Bool.and_eq_true] at hchars
        exact hchars.1.1
      · obtain ⟨key, hkey, rfl⟩ := List.mem_map.mp hline
        exact hfits key hkey
    · rw [List.foldl_append, hread]
      funext key
      exact foldl_readLine_entries hkeys
        (fun key hkey => trimSpace_writtenValue (hval key hkey).1) _ key
  · rw [if_neg hfits, parseLines, if_neg]
    rw [List.all_eq_true]
    exact fun hall => hfits fun key hkey =>
      hall _ (List.mem_append_right _ (List.mem_map_of_mem hkey))

/-- The settings are read back exactly when each value comes back and its line fits. -/
theorem parse_writeEnvFile_iff (h : OneLine values)
    (hpersistent : ∀ key, values key ≠ none → Persistent key) :
    parseEnvFile (some (writeEnvFile isPrint values)) = some values ↔
      ∀ key val, values key = some val → Kept isPrint key val := by
  show parseText (writeEnvFile isPrint values) = some values ↔ _
  have hmem : ∀ key val, values key = some val → key ∈ writtenKeys values := by
    intro key val hval
    have hne : values key ≠ none := by
      rw [hval]
      exact Option.some_ne_none val
    exact mem_writtenKeys.mpr ⟨hpersistent key hne, hne⟩
  rw [parseText_writeEnvFile h]
  constructor
  · intro hread key val hval
    split at hread
    · rename_i hfits
      have hkey := congrFun (Option.some.inj hread) key
      have hfit := hfits key (hmem key val hval)
      simp only [hmem key val hval, if_true, hval, Option.getD_some, Option.some.injEq] at hkey
      rw [hval, Option.getD_some] at hfit
      exact ⟨(trimEnvQuotes_writtenValue val).mp hkey, hfit⟩
    · cases hread
  · intro hkept
    have hwritten : ∀ key ∈ writtenKeys values, ∃ val, values key = some val :=
      fun key hkey => Option.ne_none_iff_exists'.mp (mem_writtenKeys.mp hkey).2
    rw [if_pos]
    · congr 1
      funext key
      by_cases hkey : key ∈ writtenKeys values
      · obtain ⟨val, hval⟩ := hwritten key hkey
        rw [if_pos hkey, hval, Option.getD_some,
          (trimEnvQuotes_writtenValue val).mpr (hkept key val hval).1]
      · rw [if_neg hkey]
        cases hval : values key with
        | none => rfl
        | some val => exact absurd (hmem key val hval) hkey
    · intro key hkey
      obtain ⟨val, hval⟩ := hwritten key hkey
      rw [hval]
      exact (hkept key val hval).2

/-! ## Rewriting the settings file -/

/-- A file that was written, with settings that come back. -/
structure Stored (isPrint : Char → Bool) (file : Option (List Char)) (values : Env) : Prop where
  file_eq : file = some (writeEnvFile isPrint values)
  oneLine : OneLine values
  persistent : ∀ key, values key ≠ none → Persistent key
  kept : ∀ key val, values key = some val → Kept isPrint key val

variable {file : Option (List Char)}

theorem Stored.parse (h : Stored isPrint file values) : parseEnvFile file = some values := by
  rw [h.file_eq]
  exact (parse_writeEnvFile_iff h.oneLine h.persistent).mpr h.kept

/-- The value of a call comes back. -/
def CallKept (isPrint : Char → Bool) (call : List Char × List Char) : Prop :=
  '\n' ∉ Text.trimSpace call.2 ∧
    Kept isPrint (Text.trimSpace call.1) (Text.trimSpace call.2)

/-- The settings with a key changed. An empty value takes the key out. -/
def withValue (values : Env) (key val : List Char) : Env :=
  Function.update values key (if val.isEmpty then none else some val)

theorem eq_or_of_withValue {key val k v : List Char} (h : withValue values key val k = some v) :
    (k = key ∧ v = val) ∨ values k = some v := by
  rw [withValue, Function.update_apply] at h
  split at h
  · split at h
    · cases h
    · cases h
      exact .inl ⟨‹_›, rfl⟩
  · exact .inr h

/-- A call that succeeds writes the settings of the file with one of them changed. -/
theorem setEnv_eq_some {envKey value text : List Char}
    (h : setEnv isPrint file envKey value = some text) : ∃ values, parseEnvFile file = some values ∧
      Persistent (Text.trimSpace envKey) ∧ text =
      writeEnvFile isPrint (withValue values (Text.trimSpace envKey) (Text.trimSpace value)) := by
  rw [setEnv] at h
  split at h
  · cases h
  · cases hfield : fieldByEnv (Text.trimSpace envKey) with
    | none =>
      simp only [hfield] at h
      cases h
    | some f =>
      simp only [hfield] at h
      split at h
      · cases h
      · rename_i hallowed
        obtain ⟨values, hparse, rfl⟩ := Option.map_eq_some_iff.mp h
        have henv := List.find?_some
          (show registry.find? (fun g => g.env == Text.trimSpace envKey) = some f from hfield)
        refine ⟨values, hparse, ⟨f, List.mem_of_find?_eq_some hfield, ?_, ?_⟩, rfl⟩
        · simp only [Bool.or_eq_true, Bool.not_eq_true'] at hallowed
          simpa using (not_or.mp hallowed).1
        · exact beq_iff_eq.mp henv

theorem Stored.setEnv (h : Stored isPrint file values) {call : List Char × List Char}
    (hcall : CallKept isPrint call) {text : List Char}
    (hset : setEnv isPrint file call.1 call.2 = some text) :
    ∃ values', Stored isPrint (some text) values' ∧
      ∀ key, key ≠ Text.trimSpace call.1 → values' key = values key := by
  obtain ⟨read, hread, hpersistent, rfl⟩ := setEnv_eq_some hset
  obtain rfl : values = read := Option.some.inj (h.parse.symm.trans hread)
  refine ⟨_, ⟨rfl, ?_, ?_, ?_⟩, fun key hkey => Function.update_of_ne hkey _ _⟩
  · intro key val hval
    rcases eq_or_of_withValue hval with ⟨rfl, rfl⟩ | hold
    · exact ⟨Text.trim_trim _ _, hcall.1⟩
    · exact h.oneLine key val hold
  · intro key hne
    obtain ⟨val, hval⟩ := Option.ne_none_iff_exists'.mp hne
    rcases eq_or_of_withValue hval with ⟨rfl, rfl⟩ | hold
    · exact hpersistent
    · exact h.persistent key (by rw [hold]; exact Option.some_ne_none val)
  · intro key val hval
    rcases eq_or_of_withValue hval with ⟨rfl, rfl⟩ | hold
    · exact hcall.2
    · exact h.kept key val hold

/-- In a run of calls whose values come back only the keys of the calls change. -/
theorem Stored.setAll {calls : List (List Char × List Char)}
    (hcalls : ∀ call ∈ calls, CallKept isPrint call) (h : Stored isPrint file values) :
    ∃ values', Stored isPrint (setAll isPrint file calls) values' ∧
      ∀ key, (∀ call ∈ calls, key ≠ Text.trimSpace call.1) → values' key = values key := by
  induction calls generalizing file values with
  | nil => exact ⟨values, h, fun _ _ => rfl⟩
  | cons call calls ih =>
    have hrest : ∀ call ∈ calls, CallKept isPrint call :=
      fun c hc => hcalls c (List.mem_cons_of_mem _ hc)
    rw [EnvFile.setAll, List.foldl_cons]
    cases hset : EnvFile.setEnv isPrint file call.1 call.2 with
    | none =>
      obtain ⟨values', hstored, hsame⟩ := ih hrest h
      refine ⟨values', hstored, fun key hkey => hsame key fun c hc => ?_⟩
      exact hkey c (List.mem_cons_of_mem _ hc)
    | some text =>
      obtain ⟨next, hnext, hone⟩ := h.setEnv (hcalls call List.mem_cons_self) hset
      obtain ⟨values', hstored, hsame⟩ := ih hrest hnext
      refine ⟨values', hstored, fun key hkey => ?_⟩
      rw [hsame key fun c hc => hkey c (List.mem_cons_of_mem _ hc)]
      exact hone key (hkey call List.mem_cons_self)

/-! ## What a patch does to a line -/

theorem lineKey_of_parseLine {line key val : List Char} (h : parseLine line = some (key, val)) :
    lineKey line = some key := by
  simp only [parseLine] at h
  split at h
  · cases h
  · cases hsplit : Text.splitFirst '=' (Text.trimSpace line) with
    | none =>
      simp only [hsplit] at h
      cases h
    | some parts =>
      obtain ⟨a, b⟩ := parts
      simp only [hsplit] at h
      split at h
      · cases h
      · cases h
        obtain ⟨a', b', hfirst, htrim⟩ := Text.splitFirst_of_trim rfl hsplit
        rw [lineKey, hfirst]
        exact congrArg some htrim

theorem dropMark_of_lineKey {line key : List Char} (hkey : Key key)
    (h : lineKey line = some key) : dropMark line = line := by
  cases line with
  | nil => rfl
  | cons c line =>
    refine if_neg fun hmark => hkey.mark ?_
    subst hmark
    obtain ⟨parts, hsplit, rfl⟩ := Option.map_eq_some_iff.mp h
    obtain ⟨heq, -⟩ := Text.append_of_splitFirst hsplit
    rw [Text.trimSpace, Text.mem_trim rfl]
    cases hfront : parts.1 with
    | nil =>
      rw [hfront] at heq
      cases heq
    | cons d front =>
      rw [hfront] at heq
      cases heq
      exact List.mem_cons_self

/-- The last of some lines that set a key, where all of them set it to one value. -/
theorem foldl_readLine_eq {out : Env} {key val : List Char}
    (hall : ∀ line ∈ lines, ∀ v, parseLine line = some (key, v) → v = val)
    (h : out key = some val ∨ ∃ line ∈ lines, parseLine line = some (key, val)) :
    (lines.foldl readLine out) key = some val := by
  induction lines generalizing out with
  | nil =>
    rcases h with h | ⟨line, hline, -⟩
    · exact h
    · cases hline
  | cons line lines ih =>
    refine ih (fun l hl => hall l (List.mem_cons_of_mem _ hl)) ?_
    rw [readLine]
    cases hparse : parseLine line with
    | none =>
      rcases h with h | ⟨l, hl, hread⟩
      · exact .inl h
      · rcases List.mem_cons.mp hl with rfl | hl
        · rw [hparse] at hread
          cases hread
        · exact .inr ⟨l, hl, hread⟩
    | some entry =>
      obtain ⟨k, v⟩ := entry
      by_cases hk : key = k
      · subst hk
        rw [hall line List.mem_cons_self v hparse]
        exact .inl (Function.update_self ..)
      · show Function.update out k (some v) key = some val ∨ _
        rw [Function.update_of_ne hk]
        rcases h with h | ⟨l, hl, hread⟩
        · exact .inl h
        · rcases List.mem_cons.mp hl with rfl | hl
          · rw [hparse] at hread
            exact absurd (congrArg Prod.fst (Option.some.inj hread)).symm hk
          · exact .inr ⟨l, hl, hread⟩

theorem foldl_readLine_congr {key : List Char} {lines lines' : List (List Char)}
    (h : List.Forall₂ (fun line line' => ∀ out out' : Env, out key = out' key →
      readLine out line key = readLine out' line' key) lines lines') {out out' : Env}
    (hout : out key = out' key) :
    (lines.foldl readLine out) key = (lines'.foldl readLine out') key := by
  induction h generalizing out out' with
  | nil => exact hout
  | cons hline _ ih => exact ih (hline out out' hout)

theorem readLine_of_ne {line key k : List Char} (h : lineKey line = some k) (hne : key ≠ k)
    (out : Env) : readLine out line key = out key := by
  rw [readLine]
  cases hparse : parseLine line with
  | none => rfl
  | some entry =>
    have hk := lineKey_of_parseLine hparse
    rw [h] at hk
    exact Function.update_of_ne (fun heq => hne (heq.trans (Option.some.inj hk).symm)) _ _

theorem readLine_same (line key : List Char) (out out' : Env) (h : out key = out' key) :
    readLine out line key = readLine out' line key := by
  rw [readLine, readLine]
  cases parseLine line with
  | none => exact h
  | some entry =>
    show Function.update out _ _ key = Function.update out' _ _ key
    rw [Function.update_apply, Function.update_apply, h]

/-! ## The lines of a patched file -/

def ForPatch (changes : Env) : Prop := ∀ key, changes key ≠ none → key ∈ patchedKeys

theorem ForPatch.key {changes : Env} (h : ForPatch changes) {key val : List Char}
    (hval : changes key = some val) : Key key := by
  have hall : patchedKeys.all isKey = true := by decide +kernel
  refine .of_isKey (List.all_eq_true.mp hall key (h key ?_))
  rw [hval]
  exact Option.some_ne_none val

theorem changeOf_eq_some {changes : Env} {line key val : List Char} :
    changeOf changes line = some (key, val) ↔ lineKey line = some key ∧ changes key = some val := by
  rw [changeOf]
  cases lineKey line with
  | none => exact iff_of_false (by simp) fun h => by cases h.1
  | some k =>
    simp only [Option.map_eq_some_iff, Prod.mk.injEq, Option.some.injEq]
    constructor
    · rintro ⟨v, hv, rfl, rfl⟩
      exact ⟨rfl, hv⟩
    · rintro ⟨rfl, hv⟩
      exact ⟨val, hv, rfl, rfl⟩

def patchedLines (isPrint : Char → Bool) (raw : List Char) (changes : Env) : List (List Char) :=
  (raw.splitOn '\n').map (patchLine isPrint changes) ++
    addedLines isPrint (raw.splitOn '\n') changes

/-- A new line is the entry of a changed key, and reads as the escaped value. -/
theorem parseLine_new (key val : List Char) (hkey : Key key) :
    parseLine (entry key (quote isPrint val)) = some (key, escapeAll isPrint val) := by
  have hval : Text.trimSpace (quote isPrint val) = quote isPrint val := trimSpace_quoted _
  rw [parseLine_entry hkey hval, quote, trimEnvQuotes_quoted]

theorem mem_addedLines {changes : Env} {line : List Char} :
    line ∈ addedLines isPrint lines changes ↔ ∃ key ∈ patchedKeys, ∃ val, changes key = some val ∧
        (∀ l ∈ lines, lineKey l ≠ some key) ∧ line = entry key (quote isPrint val) := by
  rw [addedLines, List.mem_map]
  constructor
  · rintro ⟨key, hkey, rfl⟩
    obtain ⟨hmem, hcond⟩ := List.mem_filter.mp hkey
    rw [Bool.and_eq_true, Option.isSome_iff_exists] at hcond
    obtain ⟨⟨val, hval⟩, hnone⟩ := hcond
    refine ⟨key, hmem, val, hval, fun l hl hsame => ?_, by rw [hval]; rfl⟩
    rw [Bool.not_eq_true', List.any_eq_false] at hnone
    exact hnone l hl (beq_iff_eq.mpr hsame)
  · rintro ⟨key, hmem, val, hval, hnone, rfl⟩
    refine ⟨key, List.mem_filter.mpr ⟨hmem, ?_⟩, by rw [hval]; rfl⟩
    rw [Bool.and_eq_true, Bool.not_eq_true', List.any_eq_false, hval]
    refine ⟨rfl, fun l hl hsame => hnone l hl (beq_iff_eq.mp hsame)⟩

theorem exists_new {raw key val : List Char} {changes : Env} (hpatch : ForPatch changes)
    (hval : changes key = some val) : (∃ line ∈ raw.splitOn '\n', lineKey line = some key) ∨
      entry key (quote isPrint val) ∈ addedLines isPrint (raw.splitOn '\n') changes := by
  by_cases hseen : ∃ line ∈ raw.splitOn '\n', lineKey line = some key
  · exact .inl hseen
  · refine .inr (mem_addedLines.mpr ⟨key, hpatch key ?_, val, hval, fun l hl hsame => ?_, rfl⟩)
    · rw [hval]
      exact Option.some_ne_none val
    · exact hseen ⟨l, hl, hsame⟩

theorem patchLine_of_some {changes : Env} {line key val : List Char}
    (h : changeOf changes line = some (key, val)) :
    patchLine isPrint changes line = entry key (quote isPrint val) := by
  rw [patchLine, h]

theorem patchLine_of_none {changes : Env} {line : List Char} (h : changeOf changes line = none) :
    patchLine isPrint changes line = line := by
  rw [patchLine, h]

variable {raw : List Char}

theorem newline_notMem_patchedLines {changes : Env} (hpatch : ForPatch changes)
    (hline : OneLine changes) : ∀ line ∈ patchedLines isPrint raw changes, '\n' ∉ line := by
  have hnew : ∀ key val, changes key = some val → '\n' ∉ entry key (quote isPrint val) :=
    fun key val hval => newline_notMem_entry (hpatch.key hval)
      (GoText.newline_notMem_quote (hline key val hval).2)
  intro line hmem
  rcases List.mem_append.mp hmem with hmem | hmem
  · obtain ⟨l, hl, rfl⟩ := List.mem_map.mp hmem
    cases hchange : changeOf changes l with
    | none =>
      rw [patchLine_of_none hchange]
      exact Text.not_mem_of_mem_splitOn hl
    | some entry =>
      obtain ⟨key, val⟩ := entry
      rw [patchLine_of_some hchange]
      exact hnew key val (changeOf_eq_some.mp hchange).2
  · obtain ⟨key, -, val, hval, -, rfl⟩ := mem_addedLines.mp hmem
    exact hnew key val hval

/-- The reader reads the lines of the patched file, the first one without its mark. -/
theorem parseText_patchEnv {changes : Env} (hpatch : ForPatch changes) (hline : OneLine changes) :
    parseText (patchEnv isPrint raw changes) =
      parseLines ((patchedLines isPrint raw changes).modifyHead dropMark) := by
  have hne : patchedLines isPrint raw changes ≠ [] := by
    rw [patchedLines]
    intro hnil
    exact List.splitOn_ne_nil '\n' raw (List.map_eq_nil_iff.mp (List.append_eq_nil_iff.mp hnil).1)
  show parseText (trimNewlines (['\n'].intercalate (patchedLines isPrint raw changes)) ++ ['\n']) = _
  rw [parseText_append_newline, parseText_trimNewlines, parseText, splitOn_dropMark,
    List.splitOn_intercalate '\n' (newline_notMem_patchedLines hpatch hline) hne]

/-- How the lines of the patched file are read, next to those of the file before. -/
structure Reads (isPrint : Char → Bool) (changes : Env) (before after : List (List Char)) :
    Prop where
  other : ∀ key, changes key = none →
    (after.foldl readLine Env.empty) key = (before.foldl readLine Env.empty) key
  changed : ∀ key val, changes key = some val →
    (after.foldl readLine Env.empty) key = some (escapeAll isPrint val)
  line : ∀ line ∈ after, line ∈ before ∨
    ∃ key val, changes key = some val ∧ line = entry key (quote isPrint val)
  new : ∀ key val, changes key = some val → entry key (quote isPrint val) ∈ after

/-- A line stays as it is, or sets a changed key that is its own. -/
theorem patchLine_cases (changes : Env) (line : List Char) :
    (changeOf changes line = none ∧ patchLine isPrint changes line = line) ∨
      ∃ key val, changes key = some val ∧ lineKey line = some key ∧
        patchLine isPrint changes line = entry key (quote isPrint val) := by
  cases hchange : changeOf changes line with
  | none => exact .inl ⟨rfl, patchLine_of_none hchange⟩
  | some entry =>
    obtain ⟨hkey, hval⟩ := changeOf_eq_some.mp hchange
    exact .inr ⟨_, _, hval, hkey, patchLine_of_some hchange⟩

/-- A patched line does not set a changed key to anything but its new value. -/
theorem eq_of_parseLine_patchLine {changes : Env} (hpatch : ForPatch changes)
    {line key val v : List Char} (hval : changes key = some val)
    (h : parseLine (patchLine isPrint changes line) = some (key, v)) :
    v = escapeAll isPrint val := by
  rcases @patchLine_cases isPrint changes line with ⟨hnone, heq⟩ | ⟨k, w, hw, -, heq⟩
  · rw [heq] at h
    have hsome := changeOf_eq_some.mpr ⟨lineKey_of_parseLine h, hval⟩
    rw [hnone] at hsome
    cases hsome
  · rw [heq, parseLine_new k w (hpatch.key hw)] at h
    obtain ⟨rfl, rfl⟩ := Prod.mk.inj (Option.some.inj h)
    rw [Option.some.inj (hw.symm.trans hval)]

theorem readLine_patchLine {changes : Env} (hpatch : ForPatch changes) {key : List Char}
    (hkey : changes key = none) (line : List Char) (out out' : Env) (h : out key = out' key) :
    readLine out line key = readLine out' (patchLine isPrint changes line) key := by
  rcases @patchLine_cases isPrint changes line with ⟨-, heq⟩ | ⟨k, w, hw, hk, heq⟩
  · rw [heq]
    exact readLine_same line key out out' h
  · have hne : key ≠ k := by
      rintro rfl
      rw [hkey] at hw
      cases hw
    rw [heq, readLine_of_ne hk hne, readLine_of_ne (lineKey_entry (hpatch.key hw)) hne, h]

theorem dropMark_patchLine {changes : Env} (hpatch : ForPatch changes) (line : List Char) :
    (dropMark (patchLine isPrint changes line) = dropMark line ∧ changeOf changes line = none) ∨
      (dropMark (patchLine isPrint changes line) = patchLine isPrint changes line ∧
        dropMark line = line) := by
  rcases @patchLine_cases isPrint changes line with ⟨hnone, heq⟩ | ⟨k, w, hw, hk, heq⟩
  · exact .inl ⟨congrArg dropMark heq, hnone⟩
  · have hkey := hpatch.key hw
    rw [heq]
    exact .inr ⟨dropMark_of_lineKey hkey (lineKey_entry hkey), dropMark_of_lineKey hkey hk⟩

theorem reads_patched {changes : Env} (hpatch : ForPatch changes) :
    Reads isPrint changes ((raw.splitOn '\n').modifyHead dropMark)
      ((patchedLines isPrint raw changes).modifyHead dropMark) := by
  rw [patchedLines]
  have hexists := fun key val => @exists_new isPrint raw key val changes hpatch
  have hadded := fun line => @mem_addedLines isPrint (raw.splitOn '\n') changes line
  generalize hlines : raw.splitOn '\n' = lines at hexists hadded
  generalize hnews : addedLines isPrint lines changes = news at hexists hadded
  cases lines with
  | nil => exact absurd hlines (List.splitOn_ne_nil '\n' raw)
  | cons first rest =>
  rw [List.map_cons, List.cons_append, List.modifyHead_cons, List.modifyHead_cons]
  have hnew : ∀ key val, changes key = some val → entry key (quote isPrint val) ∈
      dropMark (patchLine isPrint changes first) ::
        (rest.map (patchLine isPrint changes) ++ news) := by
    intro key val hval
    rcases hexists key val hval with ⟨line, hline, hkey⟩ | hmem
    · have hpatched := @patchLine_of_some isPrint _ _ _ _ (changeOf_eq_some.mpr ⟨hkey, hval⟩)
      rcases List.mem_cons.mp hline with rfl | hline
      · have hkeys := hpatch.key hval
        rw [hpatched, dropMark_of_lineKey hkeys (lineKey_entry hkeys)]
        exact List.mem_cons_self
      · refine List.mem_cons_of_mem _ (List.mem_append_left _ ?_)
        rw [← hpatched]
        exact List.mem_map_of_mem hline
    · exact List.mem_cons_of_mem _ (List.mem_append_right _ hmem)
  constructor
  case new => exact hnew
  case line =>
    intro line hline
    rcases List.mem_cons.mp hline with rfl | hline
    · rcases @dropMark_patchLine isPrint _ hpatch first with ⟨heq, -⟩ | ⟨heq, hsame⟩
      · rw [heq]
        exact .inl List.mem_cons_self
      · rw [heq]
        rcases @patchLine_cases isPrint changes first with ⟨-, hkept⟩ | ⟨k, w, hw, -, hset⟩
        · rw [hkept.trans hsame.symm]
          exact .inl List.mem_cons_self
        · exact .inr ⟨k, w, hw, hset⟩
    · rcases List.mem_append.mp hline with hline | hline
      · obtain ⟨l, hl, rfl⟩ := List.mem_map.mp hline
        rcases @patchLine_cases isPrint changes l with ⟨-, hkept⟩ | ⟨k, w, hw, -, hset⟩
        · rw [hkept]
          exact .inl (List.mem_cons_of_mem _ hl)
        · exact .inr ⟨k, w, hw, hset⟩
      · obtain ⟨k, -, w, hw, -, heq⟩ := (hadded line).mp hline
        exact .inr ⟨k, w, hw, heq⟩
  case changed =>
    intro key val hval
    rw [List.foldl_cons]
    apply foldl_readLine_eq
    · intro line hline v hparse
      rcases List.mem_append.mp hline with hline | hline
      · obtain ⟨l, -, rfl⟩ := List.mem_map.mp hline
        exact eq_of_parseLine_patchLine hpatch hval hparse
      · obtain ⟨k, -, w, hw, -, rfl⟩ := (hadded line).mp hline
        rw [parseLine_new k w (hpatch.key hw)] at hparse
        obtain ⟨rfl, rfl⟩ := Prod.mk.inj (Option.some.inj hparse)
        rw [Option.some.inj (hw.symm.trans hval)]
    · have hparse := @parseLine_new isPrint key val (hpatch.key hval)
      rcases List.mem_cons.mp (hnew key val hval) with hfirst | hbehind
      · left
        rw [← hfirst, readLine, hparse]
        exact Function.update_self ..
      · exact .inr ⟨_, hbehind, hparse⟩
  case other =>
    intro key hkey
    rw [List.foldl_cons, List.foldl_cons, List.foldl_append]
    have hnews : ∀ out : Env, (news.foldl readLine out) key = out key := by
      have hall : ∀ line ∈ news, ∃ k, lineKey line = some k ∧ key ≠ k := by
        intro line hline
        obtain ⟨k, -, w, hw, -, rfl⟩ := (hadded line).mp hline
        refine ⟨k, lineKey_entry (hpatch.key hw), ?_⟩
        rintro rfl
        rw [hkey] at hw
        cases hw
      clear hadded hexists hnew hnews
      induction news with
      | nil => exact fun _ => rfl
      | cons line news ih =>
        intro out
        obtain ⟨k, hk, hne⟩ := hall line List.mem_cons_self
        rw [List.foldl_cons, ih fun l hl => hall l (List.mem_cons_of_mem _ hl),
          readLine_of_ne hk hne]
    rw [hnews]
    refine (foldl_readLine_congr ?_ ?_).symm
    · rw [List.forall₂_map_right_iff]
      exact List.forall₂_same.mpr fun line _ => readLine_patchLine hpatch hkey line
    · rcases @dropMark_patchLine isPrint _ hpatch first with ⟨heq, -⟩ | ⟨heq, hsame⟩
      · rw [heq]
      · rw [heq, hsame]
        exact readLine_patchLine hpatch hkey first _ _ rfl

def patched (env changes : Env) : Env := fun key => (changes key).or (env key)

/-- A patch changes its keys and no others exactly when quoting escapes nothing in its values
and their lines fit. -/
theorem parse_patchEnv_iff {changes env : Env} (hpatch : ForPatch changes) (hline : OneLine changes)
    (hraw : parseText raw = some env) : parseText (patchEnv isPrint raw changes) =
      some (patched env changes) ↔ ∀ key val, changes key = some val →
      (∀ c ∈ val, isPlain isPrint c = true) ∧ fits (entry key (quote isPrint val)) = true := by
  rw [parseText, splitOn_dropMark, parseLines_eq_some] at hraw
  have hreads := @reads_patched isPrint raw changes hpatch
  rw [parseText_patchEnv hpatch hline, parseLines_eq_some]
  constructor
  · rintro ⟨hfits, hfold⟩ key val hval
    have hkey := hreads.changed key val hval
    rw [hfold, patched, hval, Option.some_or, Option.some.injEq] at hkey
    exact ⟨GoText.escapeAll_eq_iff.mp hkey.symm, hfits _ (hreads.new key val hval)⟩
  · intro h
    constructor
    · intro line hmem
      rcases hreads.line line hmem with hold | ⟨key, val, hval, rfl⟩
      · exact hraw.1 line hold
      · exact (h key val hval).2
    · funext key
      cases hval : changes key with
      | none => rw [hreads.other key hval, hraw.2, patched, hval, Option.none_or]
      | some val =>
        rw [hreads.changed key val hval, patched, hval, Option.some_or,
          GoText.escapeAll_eq_iff.mpr (h key val hval).1]

/-! ## The file of the sidecar -/

theorem escapeMarks_eq_iff : escapeMarks val = val ↔ '"' ∉ val := by
  have hle : ∀ s : List Char, s.length + s.count '"' = (escapeMarks s).length := by
    intro s
    induction s with
    | nil => rfl
    | cons c s ih =>
      have hcons : escapeMarks (c :: s) =
          (if c == '"' then ['\\', '"'] else [c]) ++ escapeMarks s := rfl
      rw [hcons, List.length_append, ← ih, List.count_cons, List.length_cons]
      cases c == '"' with
      | true =>
        show _ = 2 + _
        rw [if_pos rfl]
        omega
      | false =>
        show _ = 1 + _
        rw [if_neg Bool.false_ne_true]
        omega
  constructor
  · intro h
    have hlen := hle val
    rw [h] at hlen
    exact List.count_eq_zero.mp (by omega)
  · intro h
    induction val with
    | nil => rfl
    | cons c val ih =>
      rw [List.mem_cons, not_or] at h
      show (if c == '"' then ['\\', '"'] else [c]) ++ escapeMarks val = _
      rw [ih h.2, if_neg (fun hc => h.1 (beq_iff_eq.mp hc).symm)]
      rfl

theorem trimSpace_escapeMarks (h : Text.trimSpace val = val) :
    Text.trimSpace (escapeMarks val) = escapeMarks val := by
  obtain ⟨hfirst, hlast⟩ := Text.ends_of_trim_eq_self h
  have hrune : ∀ c, Text.isSpace c = false →
      ∀ d ∈ (if c == '"' then ['\\', '"'] else [c]), Text.isSpace d = false := by
    intro c hc d hd
    split at hd
    · rcases List.mem_pair.mp hd with rfl | rfl
      · rfl
      · rfl
    · rw [List.mem_singleton.mp hd]
      exact hc
  have hne : ∀ c : Char, (if c == '"' then ['\\', '"'] else [c]) ≠ [] := by
    intro c
    split
    · exact List.cons_ne_nil _ _
    · exact List.cons_ne_nil _ _
  refine Text.trim_eq_self (fun d hd => ?_) (fun d hd => ?_)
  · cases val with
    | nil => cases hd
    | cons c val =>
      refine hrune c (hfirst c rfl) d ?_
      rw [escapeMarks, List.flatMap_cons, List.head?_append_of_ne_nil _ (hne c)] at hd
      exact List.mem_of_mem_head? hd
  · rcases List.eq_nil_or_concat val with rfl | ⟨front, c, rfl⟩
    · cases hd
    · refine hrune c (hlast c (by simp)) d ?_
      rw [escapeMarks, List.concat_eq_append, List.flatMap_append, List.flatMap_singleton,
        List.getLast?_append_of_ne_nil _ (hne c)] at hd
      exact List.mem_of_mem_getLast? hd

theorem newline_notMem_escapeMarks (h : '\n' ∉ val) : '\n' ∉ escapeMarks val := by
  intro hmem
  obtain ⟨c, hc, hd⟩ := List.mem_flatMap.mp hmem
  split at hd
  · rcases List.mem_pair.mp hd with hd | hd
    · cases hd
    · cases hd
  · exact h (List.mem_singleton.mp hd ▸ hc)

theorem lensQuote_cases (h : Text.trimSpace val = val) :
    (val = [] ∧ lensQuote val = ['"', '"']) ∨ ('"' ∉ val ∧ '\x27' ∉ val ∧ lensQuote val = val) ∨
      lensQuote val = '"' :: escapeMarks val ++ ['"'] := by
  simp only [lensQuote, h]
  split
  · rename_i hempty
    exact .inl ⟨List.isEmpty_iff.mp hempty, rfl⟩
  · right
    split
    · rename_i hany
      rw [Bool.not_eq_true', List.any_eq_false] at hany
      refine .inl ⟨fun hmem => hany _ hmem rfl, fun hmem => hany _ hmem rfl, rfl⟩
    · exact .inr rfl

theorem trimEnvQuotes_lensQuote (h : Text.trimSpace val = val) :
    trimEnvQuotes (lensQuote val) = escapeMarks val := by
  rcases lensQuote_cases h with ⟨rfl, heq⟩ | ⟨hdouble, hsingle, heq⟩ | heq
  · rw [heq]
    rfl
  · rw [heq, trimEnvQuotes_of_not_mem hdouble hsingle]
    exact (escapeMarks_eq_iff.mpr hdouble).symm
  · rw [heq, trimEnvQuotes_quoted]

theorem trimSpace_lensQuote (h : Text.trimSpace val = val) :
    Text.trimSpace (lensQuote val) = lensQuote val := by
  rcases lensQuote_cases h with ⟨-, heq⟩ | ⟨-, -, heq⟩ | heq
  · rw [heq]
    exact trimSpace_quoted []
  · rw [heq, h]
  · rw [heq]
    exact trimSpace_quoted _

theorem newline_notMem_lensQuote (h : Text.trimSpace val = val) (hline : '\n' ∉ val) :
    '\n' ∉ lensQuote val := by
  rcases lensQuote_cases h with ⟨-, heq⟩ | ⟨-, -, heq⟩ | heq
  · rw [heq]
    decide
  · rw [heq]
    exact hline
  · rw [heq]
    intro hmem
    rw [List.mem_append, List.mem_cons, List.mem_singleton] at hmem
    rcases hmem with (hmark | hmem) | hmark
    · cases hmark
    · exact newline_notMem_escapeMarks hline hmem
    · cases hmark

theorem OneLine.valueOf (h : OneLine values) (key : List Char) :
    Text.trimSpace (valueOf values key) = valueOf values key ∧ '\n' ∉ valueOf values key := by
  rw [EnvFile.valueOf]
  cases hval : values key with
  | none => exact ⟨rfl, List.not_mem_nil⟩
  | some val => exact h key val hval

theorem mem_contentKeys {key : List Char} : key ∈ contentKeys values ↔
    key ∈ managedKeys ∨ (key = nameKey ∧ valueOf values nameKey ≠ []) ∨
      (key ∈ sentryKeys ∧ (values key).isSome = true) := by
  rw [contentKeys, List.mem_append, List.mem_append, List.mem_filter, or_assoc]
  by_cases hname : valueOf values nameKey = []
  · rw [if_pos hname]
    simp [hname]
  · rw [if_neg hname]
    simp [hname]

theorem key_of_mem_contentKeys {key : List Char} (h : key ∈ contentKeys values) : Key key := by
  have hall : (managedKeys ++ nameKey :: sentryKeys).all isKey = true := by decide +kernel
  refine .of_isKey (List.all_eq_true.mp hall key ?_)
  rw [List.mem_append, List.mem_cons]
  rcases mem_contentKeys.mp h with hmem | ⟨hname, -⟩ | ⟨hmem, -⟩
  · exact .inl hmem
  · exact .inr (.inl hname)
  · exact .inr (.inr hmem)

def contentLine (values : Env) (key : List Char) : List Char :=
  entry key (lensQuote (valueOf values key))

theorem parseText_content (h : OneLine values) : parseText (content values) =
    parseLines (contentHeader :: (contentKeys values).map (contentLine values)) := by
  have hlines : ∀ line ∈ contentHeader :: (contentKeys values).map (contentLine values),
      '\n' ∉ line := by
    intro line hline
    rcases List.mem_cons.mp hline with rfl | hline
    · decide +kernel
    · obtain ⟨key, hkey, rfl⟩ := List.mem_map.mp hline
      have hval := h.valueOf key
      exact newline_notMem_entry (key_of_mem_contentKeys hkey)
        (newline_notMem_lensQuote hval.1 hval.2)
  have hhead : dropMark contentHeader = contentHeader := rfl
  show parseText (['\n'].intercalate
    (contentHeader :: (contentKeys values).map (contentLine values)) ++ ['\n']) = _
  rw [parseText_append_newline, parseText, splitOn_dropMark,
    List.splitOn_intercalate '\n' hlines (List.cons_ne_nil _ _), List.modifyHead_cons, hhead]

def readBack (values : Env) : Env := fun key =>
  if key ∈ contentKeys values then some (escapeMarks (valueOf values key)) else none

theorem parseText_content_eq_some {values env : Env} (h : OneLine values) :
    parseText (content values) = some env ↔
      (∀ key ∈ contentKeys values, fits (contentLine values key) = true) ∧
        env = readBack values := by
  have hfold : ((contentKeys values).map (contentLine values)).foldl readLine Env.empty =
      readBack values := by
    funext key
    have hread := @foldl_readLine_entries (contentKeys values)
      (fun key => lensQuote (valueOf values key)) (fun key hkey => key_of_mem_contentKeys hkey)
      (fun key _ => trimSpace_lensQuote (h.valueOf key).1) Env.empty key
    show ((contentKeys values).map fun key => entry key _).foldl readLine Env.empty key = _
    rw [hread, readBack, trimEnvQuotes_lensQuote (h.valueOf key).1]
    rfl
  have hhead : readLine Env.empty contentHeader = Env.empty := rfl
  rw [parseText_content h, parseLines_eq_some, List.foldl_cons, hhead, hfold,
    List.forall_mem_cons, List.forall_mem_map]
  constructor
  · rintro ⟨⟨-, hfits⟩, rfl⟩
    exact ⟨hfits, rfl⟩
  · rintro ⟨hfits, rfl⟩
    exact ⟨⟨by decide +kernel, hfits⟩, rfl⟩

theorem escapeMarks_eq_nil : escapeMarks val = [] ↔ val = [] := by
  cases val with
  | nil => exact iff_of_true rfl rfl
  | cons c val =>
    refine iff_of_false (fun h => ?_) (List.cons_ne_nil c val)
    have hnil := (List.append_eq_nil_iff.mp (show
      (if c == '"' then ['\\', '"'] else [c]) ++ escapeMarks val = [] from h)).1
    split at hnil
    · cases hnil
    · cases hnil

theorem OneLine.readBack (h : OneLine values) : OneLine (readBack values) := by
  intro key val hval
  rw [EnvAgrees.readBack] at hval
  split at hval
  · cases hval
    exact ⟨trimSpace_escapeMarks (h.valueOf key).1,
      newline_notMem_escapeMarks (h.valueOf key).2⟩
  · cases hval

theorem contentKeys_readBack (values : Env) :
    contentKeys (readBack values) = contentKeys values := by
  have hsentry : sentryKeys.filter (fun key => (readBack values key).isSome) =
      sentryKeys.filter fun key => (values key).isSome := by
    have hapart : ∀ key ∈ sentryKeys, key ∉ managedKeys ∧ key ≠ nameKey := by decide +kernel
    refine List.filter_congr fun key hkey => ?_
    have hmem : key ∈ contentKeys values ↔ (values key).isSome = true := by
      obtain ⟨hmanaged, hname⟩ := hapart key hkey
      simp [mem_contentKeys, hmanaged, hname, hkey]
    rw [readBack]
    cases hsome : (values key).isSome with
    | true => rw [if_pos (hmem.mpr hsome), Option.isSome_some]
    | false =>
      rw [if_neg fun h => by rw [hmem.mp h] at hsome; cases hsome]
      rfl
  have hname : valueOf (readBack values) nameKey = [] ↔ valueOf values nameKey = [] := by
    have hapart : nameKey ∉ managedKeys ∧ nameKey ∉ sentryKeys := by decide +kernel
    have hmem : nameKey ∈ contentKeys values ↔ valueOf values nameKey ≠ [] := by
      simp [mem_contentKeys, hapart.1, hapart.2]
    rw [valueOf, readBack]
    by_cases hnil : valueOf values nameKey = []
    · rw [if_neg fun h => hmem.mp h hnil]
      exact iff_of_true rfl hnil
    · rw [if_pos (hmem.mpr hnil), Option.getD_some, escapeMarks_eq_nil]
  rw [contentKeys, contentKeys, hsentry]
  by_cases hnil : valueOf values nameKey = []
  · rw [if_pos hnil, if_pos (hname.mpr hnil)]
  · rw [if_neg hnil, if_neg fun h => hnil (hname.mp h)]

theorem valueOf_readBack {key : List Char} (h : key ∈ contentKeys values) :
    valueOf (readBack values) key = escapeMarks (valueOf values key) := by
  rw [valueOf, readBack, if_pos h]
  rfl

/-- The fingerprint of what is read back is that of the settings exactly when no value of the
file has a quotation mark and every line fits. -/
theorem fingerprint_iff (h : OneLine values) :
    (∃ env, parseEnvFile (some (content values)) = some env ∧
        ∀ sum, fingerprint sum env = fingerprint sum values) ↔
      ∀ key ∈ contentKeys values, '"' ∉ valueOf values key ∧
        fits (contentLine values key) = true := by
  constructor
  · rintro ⟨env, hparse, hsum⟩ key hkey
    obtain ⟨hfits, rfl⟩ := (parseText_content_eq_some h).mp hparse
    have hsame : content (readBack values) = content values := hsum id
    have hagain : readBack values = readBack (readBack values) := by
      refine ((parseText_content_eq_some h.readBack).mp ?_).2
      rw [hsame]
      exact hparse
    have hval : valueOf (readBack values) key = valueOf (readBack (readBack values)) key :=
      congrArg (fun env => valueOf env key) hagain
    rw [valueOf_readBack hkey, valueOf_readBack (by rw [contentKeys_readBack]; exact hkey),
      valueOf_readBack hkey] at hval
    have hfree := escapeMarks_eq_iff.mp hval.symm
    refine ⟨fun hmem => hfree (List.mem_flatMap.mpr ⟨'"', hmem, ?_⟩), hfits key hkey⟩
    exact List.mem_cons_of_mem _ (List.mem_singleton_self _)
  · intro hall
    refine ⟨readBack values,
      (parseText_content_eq_some h).mpr ⟨fun key hkey => (hall key hkey).2, rfl⟩, fun sum => ?_⟩
    have hlines : ∀ key ∈ contentKeys values,
        contentLine (readBack values) key = contentLine values key := by
      intro key hkey
      rw [contentLine, valueOf_readBack hkey, escapeMarks_eq_iff.mpr (hall key hkey).1]
      rfl
    have hsame : content (readBack values) = content values := by
      show ['\n'].intercalate (contentHeader ::
        (contentKeys (readBack values)).map (contentLine (readBack values))) ++ ['\n'] = _
      rw [contentKeys_readBack, List.map_congr_left hlines]
      rfl
    rw [fingerprint, fingerprint, hsame]

/-! ## All of them -/

/-- Settings are read back, and keep their fingerprint, exactly when quoting escapes nothing in
the values that are quoted and all lines fit. In a run of calls with such values only the keys
of the calls change. -/
theorem env_files_agree (isPrint : Char → Bool) :
    (∀ values, OneLine values → (∀ key, values key ≠ none → Persistent key) →
      (parseEnvFile (some (writeEnvFile isPrint values)) = some values ↔
        ∀ key val, values key = some val → Kept isPrint key val)) ∧
    (∀ values, OneLine values → (∀ key, values key ≠ none → Persistent key) →
      (∀ key val, values key = some val → Kept isPrint key val) →
      ∀ calls, (∀ call ∈ calls, CallKept isPrint call) →
        ∃ env, parseEnvFile (setAll isPrint (some (writeEnvFile isPrint values)) calls) =
            some env ∧
          ∀ key, (∀ call ∈ calls, key ≠ Text.trimSpace call.1) → env key = values key) ∧
    (∀ raw changes env, ForPatch changes → OneLine changes → parseText raw = some env →
      (parseText (patchEnv isPrint raw changes) = some (patched env changes) ↔
        ∀ key val, changes key = some val → (∀ c ∈ val, isPlain isPrint c = true) ∧
          fits (entry key (quote isPrint val)) = true)) ∧
    ∀ values, OneLine values →
      ((∃ env, parseEnvFile (some (content values)) = some env ∧
          ∀ sum, fingerprint sum env = fingerprint sum values) ↔
        ∀ key ∈ contentKeys values, '"' ∉ valueOf values key ∧
          fits (contentLine values key) = true) := by
  refine ⟨fun values h hpersistent => parse_writeEnvFile_iff h hpersistent, ?_,
    fun raw changes env hpatch hline hraw => parse_patchEnv_iff hpatch hline hraw,
    fun values h => fingerprint_iff h⟩
  intro values h hpersistent hkept calls hcalls
  have hstored : Stored isPrint (some (writeEnvFile isPrint values)) values :=
    ⟨rfl, h, hpersistent, hkept⟩
  obtain ⟨env, henv, hothers⟩ := hstored.setAll hcalls
  exact ⟨env, henv.parse, hothers⟩

/-- A log directory on Windows, with a blank and a backslash. -/
def logDir : Env := fun key =>
  if key = "HFL_LOG_DIR".toList then some "C:\\My Logs".toList else none

/-- An engine with quotation marks in its name. -/
def engine : Env := fun key =>
  if key = nameKey then some "Lab \"A\"".toList else none

def asciiPrint (c : Char) : Bool := 32 ≤ c.toNat && c.toNat < 127

theorem oneLine_logDir : OneLine logDir := by
  intro key val hval
  rw [logDir] at hval
  split at hval
  · cases hval
    decide +kernel
  · cases hval

theorem oneLine_engine : OneLine engine := by
  intro key val hval
  rw [engine] at hval
  split at hval
  · cases hval
    decide +kernel
  · cases hval

/-- A backslash in a quoted value is doubled with every rewriting of the file, also when another
key is changed, and a quotation mark in the name of the engine changes its fingerprint. -/
theorem not_agree :
    (OneLine logDir ∧ (∀ key, logDir key ≠ none → Persistent key) ∧
      parseEnvFile (some (writeEnvFile asciiPrint logDir)) ≠ some logDir ∧
      (parseEnvFile (setAll asciiPrint (some (writeEnvFile asciiPrint logDir))
        [("HFL_NODE_ID".toList, "n1".toList)])).bind (fun env => env "HFL_LOG_DIR".toList) =
          some "C:\\\\\\\\My Logs".toList) ∧
    (OneLine engine ∧ ¬∃ env, parseEnvFile (some (content engine)) = some env ∧
      ∀ sum, fingerprint sum env = fingerprint sum engine) := by
  refine ⟨⟨oneLine_logDir, ?_, ?_, ?_⟩, oneLine_engine, ?_⟩
  · intro key hne
    rw [logDir] at hne
    split at hne
    · rename_i heq
      exact ⟨⟨"HFL_LOG_DIR".toList, true, false⟩, by decide +kernel, rfl, heq.symm⟩
    · exact absurd rfl hne
  · intro hread
    have hbind := congrArg (Option.bind · fun env => env "HFL_LOG_DIR".toList) hread
    revert hbind
    decide +kernel
  · decide +kernel
  · intro hsame
    have hname : nameKey ∈ contentKeys engine := by decide +kernel
    have hmark : '"' ∈ valueOf engine nameKey := by decide +kernel
    exact ((fingerprint_iff oneLine_engine).mp hsame nameKey hname).1 hmark

end HyperFileLens.Agent.EnvAgrees
