import HyperFileLens.Library.GoJson
import HyperFileLens.Library.GoText

/-!
# Environment files of the agent

`ParseEnvFile` reads lines `KEY=value` into a map. Three writers write such lines:
`WriteEnvFile` quotes a value with `%q` when it has a blank, a quotation mark or `#` in it,
`patchEnv` quotes every value it sets with `strconv.Quote`, and the sidecar's `Content`
escapes quotation marks only. The reader takes one pair of quotation marks off and undoes no
escape.

*Lines.*  The scanner fails on a line that does not fit into its buffer of 64 KiB together
with its end. It leaves out an empty last line, which sets no key either.

Texts are valid UTF-8. A map of settings is the function that looks a key up.
-/

namespace HyperFileLens.Agent.EnvFile

abbrev Env := List Char → Option (List Char)

def Env.empty : Env := fun _ => none

/-! ## The reader -/

def trimEnvQuotes (s : List Char) : List Char :=
  match s with
  | [] => []
  | c :: rest =>
    if (c = '"' ∨ c = '\x27') ∧ rest.getLast? = some c then rest.dropLast else c :: rest

def parseLine (line : List Char) : Option (List Char × List Char) :=
  let line := Text.trimSpace line
  if line.isEmpty || line.head? == some '#' then none
  else
    match Text.splitFirst '=' line with
    | none => none
    | some (key, val) =>
      if (Text.trimSpace key).isEmpty then none
      else some (Text.trimSpace key, trimEnvQuotes (Text.trimSpace val))

def readLine (out : Env) (line : List Char) : Env :=
  match parseLine line with
  | none => out
  | some (key, val) => Function.update out key (some val)

def fits (line : List Char) : Bool := GoJson.utf8Length line < 64 * 1024

def parseLines (lines : List (List Char)) : Option Env :=
  if lines.all fits then some (lines.foldl readLine Env.empty) else none

def dropMark (text : List Char) : List Char :=
  match text with
  | [] => []
  | c :: rest => if c = '\uFEFF' then rest else c :: rest

def parseText (text : List Char) : Option Env := parseLines ((dropMark text).splitOn '\n')

/-- `ParseEnvFile`, of the text of a file that exists. It is none when there is an error. -/
def parseEnvFile (file : Option (List Char)) : Option Env :=
  match file with
  | none => some Env.empty
  | some text => parseText text

/-! ## The settings file -/

/-- A setting, as far as the file is concerned. -/
structure Field where
  env : List Char
  persistent : Bool
  readOnly : Bool
deriving DecidableEq

def registry : List Field := [
  ⟨"HFL_WSS_URL".toList, true, false⟩,
  ⟨"HFL_API_BASE".toList, true, false⟩,
  ⟨"HFL_CONTROL_PLANE_API".toList, false, false⟩,
  ⟨"HFL_ORG_KEY".toList, true, false⟩,
  ⟨"HFL_NODE_ID".toList, true, false⟩,
  ⟨"HFL_INSTALLATION_ID".toList, true, false⟩,
  ⟨"HFL_INSTALLATION_MODE".toList, true, true⟩,
  ⟨"HFL_AGENT_ROOT".toList, true, true⟩,
  ⟨"HFL_RUN_AS_USER".toList, true, true⟩,
  ⟨"HFL_RUN_AS_HOME".toList, true, true⟩,
  ⟨"HFL_NODE_CREDENTIAL".toList, true, false⟩,
  ⟨"HFL_NODE_TOKEN".toList, false, false⟩,
  ⟨"HFL_DATA_DIR".toList, true, true⟩,
  ⟨"HFL_LOG_DIR".toList, true, false⟩,
  ⟨"HFL_KOPIA_PATH".toList, true, false⟩,
  ⟨"HFL_BACKUP_SNAPSHOT_CONCURRENCY".toList, true, false⟩,
  ⟨"HFL_NODE_ROLE".toList, true, true⟩]

def fieldByEnv (env : List Char) : Option Field := registry.find? (·.env == env)

def entry (key val : List Char) : List Char := key ++ '=' :: val

section Writers

variable (isPrint : Char → Bool)

/-- The value has a character for which `WriteEnvFile` quotes it. -/
def needsQuote (val : List Char) : Bool :=
  val.any fun c => c == ' ' || c == '\t' || c == '#' || c == '"' || c == '\x27'

/-- A value as `WriteEnvFile` writes it. -/
def writtenValue (val : List Char) : List Char :=
  if needsQuote val then GoText.quote isPrint val else val

/-- The keys that are written: those of persistent settings, in their order. -/
def writtenKeys (values : Env) : List (List Char) :=
  (((registry.filter fun f => f.persistent && (values f.env).isSome).map
    Field.env).insertionSort (· ≤ ·)).eraseDups

/-- The lines in front of the settings. -/
def header : List (List Char) := [
  "# HyperFileLens Agent configuration (hot-reloadable)".toList,
  "# Edit this file; changes apply on next reload (default ~5s).".toList,
  []]

/-- `WriteEnvFile`: the text of the file. -/
def writeEnvFile (values : Env) : List Char :=
  (header ++ (writtenKeys values).map fun env =>
    entry env (writtenValue isPrint ((values env).getD []))).flatMap (· ++ ['\n'])

/-- `SetEnv`: the text of the file with a setting changed. It is none when there is an error. -/
def setEnv (file : Option (List Char)) (envKey value : List Char) : Option (List Char) :=
  let envKey := Text.trimSpace envKey
  if envKey.isEmpty then none
  else
    match fieldByEnv envKey with
    | none => none
    | some f =>
      if !f.persistent || f.readOnly then none
      else
        (parseEnvFile file).map fun values =>
          let value := Text.trimSpace value
          writeEnvFile isPrint
            (Function.update values envKey (if value.isEmpty then none else some value))

/-- Settings are changed one after the other. An error leaves the file as it is. -/
def setAll (file : Option (List Char)) (calls : List (List Char × List Char)) :
    Option (List Char) :=
  calls.foldl (fun file call =>
    match setEnv isPrint file call.1 call.2 with
    | none => file
    | some text => some text) file

/-! ## The patch of an address -/

/-- The key in front of the first `=` of a line. -/
def lineKey (line : List Char) : Option (List Char) :=
  (Text.splitFirst '=' line).map fun parts => Text.trimSpace parts.1

/-- The keys that a patch adds when the file does not have them. -/
def patchedKeys : List (List Char) :=
  ["HFL_API_BASE".toList, "HFL_WSS_URL".toList, "LENS_BASE_URL".toList]

/-- The new value of the key of a line. -/
def changeOf (changes : Env) (line : List Char) : Option (List Char × List Char) :=
  match lineKey line with
  | none => none
  | some key => (changes key).map fun value => (key, value)

def patchLine (changes : Env) (line : List Char) : List Char :=
  match changeOf changes line with
  | none => line
  | some (key, value) => entry key (GoText.quote isPrint value)

def addedLines (lines : List (List Char)) (changes : Env) : List (List Char) :=
  (patchedKeys.filter fun key =>
    (changes key).isSome && !lines.any fun line => lineKey line == some key).map fun key =>
      entry key (GoText.quote isPrint ((changes key).getD []))

/-- `strings.TrimRight` of line ends. -/
def trimNewlines (text : List Char) : List Char := (text.reverse.dropWhile (· == '\n')).reverse

def patchEnv (raw : List Char) (changes : Env) : List Char :=
  let lines := raw.splitOn '\n'
  let patched := lines.map (patchLine isPrint changes) ++ addedLines isPrint lines changes
  trimNewlines (['\n'].intercalate patched) ++ ['\n']

end Writers

/-! ## The file of the sidecar -/

/-- A backslash in front of every quotation mark. -/
def escapeMarks (value : List Char) : List Char :=
  value.flatMap fun c => if c == '"' then ['\\', '"'] else [c]

/-- `lensenv.Quote` -/
def lensQuote (value : List Char) : List Char :=
  let value := Text.trimSpace value
  if value.isEmpty then ['"', '"']
  else if !value.any fun c =>
      c == ' ' || c == '\t' || c == '$' || c == '"' || c == '\x27' || c == '\\' then value
  else '"' :: escapeMarks value ++ ['"']

def valueOf (values : Env) (key : List Char) : List Char := (values key).getD []

def managedKeys : List (List Char) :=
  ["LENS_BASE_URL".toList, "LENSNODE_TOKEN".toList, "LENSNODE_UUID".toList,
    "HFL_WORKSPACE_ROOT".toList]

def nameKey : List Char := "LENSNODE_NAME".toList

/-- The keys that the file has when they are set. -/
def sentryKeys : List (List Char) :=
  ["SENTRY_ENABLED".toList, "SENTRY_BACKEND_DSN".toList, "SENTRY_ENVIRONMENT".toList,
    "SENTRY_TRACES_SAMPLE_RATE".toList, "HFL_SENTRY_LENSNODE_RELEASE".toList]

def contentKeys (values : Env) : List (List Char) :=
  managedKeys ++ (if valueOf values nameKey = [] then [] else [nameKey]) ++
    sentryKeys.filter fun key => (values key).isSome

def contentHeader : List Char :=
  "# HyperFileLens SourceLens LensNode sidecar (managed by hfl-enroll gateway-install)".toList

def content (values : Env) : List Char :=
  ['\n'].intercalate (contentHeader :: (contentKeys values).map fun key =>
    entry key (lensQuote (valueOf values key))) ++ ['\n']

/-- `lensenv.Fingerprint`, for the digest of a text. -/
def fingerprint (sum : List Char → List Char) (values : Env) : List Char := sum (content values)

/-! ## How a line is read -/

/-- A key that stands for itself at the start of a line. -/
def isKey (key : List Char) : Bool :=
  !key.isEmpty && key.all fun c => !Text.isSpace c && c != '=' && c != '#' && c != '\uFEFF'

/-- The same as a statement about the characters. -/
structure Key (key : List Char) : Prop where
  ne_nil : key ≠ []
  visible : ∀ c ∈ key, Text.isSpace c = false
  equals : '=' ∉ key
  comment : '#' ∉ key
  mark : '\uFEFF' ∉ key

theorem Key.of_isKey {key : List Char} (h : isKey key = true) : Key key := by
  rw [isKey, Bool.and_eq_true, List.all_eq_true] at h
  have hchars : ∀ c ∈ key, Text.isSpace c = false ∧ c ≠ '=' ∧ c ≠ '#' ∧ c ≠ '\uFEFF' := by
    intro c hc
    simpa [and_assoc] using h.2 c hc
  exact {
    ne_nil := by simpa using h.1
    visible := fun c hc => (hchars c hc).1
    equals := fun hc => (hchars '=' hc).2.1 rfl
    comment := fun hc => (hchars '#' hc).2.2.1 rfl
    mark := fun hc => (hchars '\uFEFF' hc).2.2.2 rfl }

theorem Key.trimSpace {key : List Char} (h : Key key) : Text.trimSpace key = key :=
  Text.trim_eq_self (fun c hc => h.visible c (List.mem_of_mem_head? hc))
    fun c hc => h.visible c (List.mem_of_mem_getLast? hc)

variable {key val : List Char}

theorem trimSpace_entry (hkey : Key key) (hval : Text.trimSpace val = val) :
    Text.trimSpace (entry key val) = entry key val := by
  refine Text.trim_eq_self (fun c hc => ?_) (fun c hc => ?_)
  · cases key with
    | nil => exact absurd rfl hkey.ne_nil
    | cons d key =>
      obtain rfl : d = c := by simpa [entry] using hc
      exact hkey.visible d List.mem_cons_self
  · rw [entry, List.getLast?_append, List.getLast?_cons] at hc
    cases hlast : val.getLast? with
    | none =>
      rw [hlast] at hc
      obtain rfl : '=' = c := by simpa using hc
      rfl
    | some d =>
      rw [hlast] at hc
      obtain rfl : d = c := by simpa using hc
      refine Text.last_trim Text.isSpace val ?_
      rw [← Text.trimSpace, hval]
      exact hlast

theorem lineKey_entry (hkey : Key key) : lineKey (entry key val) = some key := by
  rw [lineKey, entry, Text.splitFirst_append hkey.equals]
  exact congrArg some hkey.trimSpace

theorem parseLine_entry (hkey : Key key) (hval : Text.trimSpace val = val) :
    parseLine (entry key val) = some (key, trimEnvQuotes val) := by
  have hhead : ((entry key val).isEmpty || (entry key val).head? == some '#') = false := by
    cases key with
    | nil => exact absurd rfl hkey.ne_nil
    | cons d key =>
      have hd : d ≠ '#' := fun h => hkey.comment (h ▸ List.mem_cons_self)
      simpa [entry] using hd
  have hnonempty : key.isEmpty = false := by simpa using hkey.ne_nil
  simp only [parseLine, trimSpace_entry hkey hval, hhead]
  rw [entry, Text.splitFirst_append hkey.equals]
  simp only [hkey.trimSpace, hval, hnonempty]
  rfl

theorem readLine_entry (hkey : Key key) (hval : Text.trimSpace val = val) (out : Env) :
    readLine out (entry key val) = Function.update out key (some (trimEnvQuotes val)) := by
  rw [readLine, parseLine_entry hkey hval]

theorem foldl_readLine_entries {keys : List (List Char)} {written : List Char → List Char}
    (hkeys : ∀ key ∈ keys, Key key)
    (hwritten : ∀ key ∈ keys, Text.trimSpace (written key) = written key) (out : Env)
    (key : List Char) :
    ((keys.map fun key => entry key (written key)).foldl readLine out) key =
      if key ∈ keys then some (trimEnvQuotes (written key)) else out key := by
  induction keys generalizing out with
  | nil => rfl
  | cons k keys ih =>
    rw [List.map_cons, List.foldl_cons,
      readLine_entry (hkeys k List.mem_cons_self) (hwritten k List.mem_cons_self),
      ih (fun key hkey => hkeys key (List.mem_cons_of_mem _ hkey))
        (fun key hkey => hwritten key (List.mem_cons_of_mem _ hkey))]
    rw [Function.update_apply]
    by_cases hk : key = k
    · subst hk
      simp
    · simp [hk]

/-! ## Quotation marks -/

theorem trimEnvQuotes_quoted (s : List Char) : trimEnvQuotes ('"' :: s ++ ['"']) = s := by
  show (if _ ∧ (s ++ ['"']).getLast? = some '"' then (s ++ ['"']).dropLast else _) = s
  rw [if_pos ⟨.inl rfl, List.getLast?_concat⟩, List.dropLast_concat]

theorem trimEnvQuotes_of_not_mem {s : List Char} (hdouble : '"' ∉ s) (hsingle : '\x27' ∉ s) :
    trimEnvQuotes s = s := by
  cases s with
  | nil => rfl
  | cons c s =>
    refine if_neg fun h => ?_
    rcases h.1 with rfl | rfl
    · exact hdouble List.mem_cons_self
    · exact hsingle List.mem_cons_self

theorem trimSpace_quoted (s : List Char) :
    Text.trimSpace ('"' :: s ++ ['"']) = '"' :: s ++ ['"'] := by
  refine Text.trim_eq_self (fun c hc => ?_) (fun c hc => ?_)
  · cases Option.some.inj hc
    rfl
  · rw [Option.mem_def, List.getLast?_concat] at hc
    cases hc
    rfl

/-! ## Lines of a text -/

theorem parseLines_eq_some {lines : List (List Char)} {out : Env} : parseLines lines = some out ↔
      (∀ line ∈ lines, fits line = true) ∧ lines.foldl readLine Env.empty = out := by
  rw [parseLines]
  split
  · rename_i hall
    rw [List.all_eq_true] at hall
    rw [Option.some.injEq]
    exact (and_iff_right hall).symm
  · rename_i hall
    rw [List.all_eq_true] at hall
    exact iff_of_false (by simp) fun h => hall h.1

theorem parseLines_append_nil (lines : List (List Char)) :
    parseLines (lines ++ [[]]) = parseLines lines := by
  have hall : (lines ++ [[]]).all fits = lines.all fits := by
    rw [List.all_append]
    exact Bool.and_true _
  rw [parseLines, parseLines, hall, List.foldl_append]
  rfl

theorem parseText_append_newline (text : List Char) :
    parseText (text ++ ['\n']) = parseText text := by
  have hmark : dropMark (text ++ ['\n']) = dropMark text ++ ['\n'] := by
    cases text with
    | nil => rfl
    | cons c text =>
      rw [List.cons_append, dropMark, dropMark]
      split <;> rfl
  rw [parseText, parseText, hmark, List.splitOn_append_cons_self, List.splitOn_nil,
    parseLines_append_nil]

theorem parseText_trimNewlines (text : List Char) :
    parseText (trimNewlines text) = parseText text := by
  rw [trimNewlines]
  generalize hrev : text.reverse = rev
  obtain rfl : text = rev.reverse := by rw [← hrev, List.reverse_reverse]
  clear hrev
  induction rev with
  | nil => rfl
  | cons c rev ih =>
    by_cases hc : c = '\n'
    · subst hc
      rw [List.dropWhile_cons_of_pos rfl, ih, List.reverse_cons, parseText_append_newline]
    · rw [List.dropWhile_cons_of_neg (by simpa using hc)]

end HyperFileLens.Agent.EnvFile
