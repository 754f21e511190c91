import HyperFileLens.Protection.TransferProgress

/-!
# Transfer progress moves forward

A run of `enrich_step3_backup_transfer` gives every result to the next call. The counters and the
totals of such a run move forward for every input (`MovesForward`).

The displayed percentage does so only where none of its branches goes wrong (`Clean`): a percentage
above 99 falls back to 99 once the bytes round to 100, rounding can take a percentage below one that
was not rounded, the second schema version forgets what was displayed below it, and a percentage
that the input brings is passed on where none is computed.
-/

namespace HyperFileLens.Protection.TransferProgress

variable {F : FloatFormat} {clock : Clock}

/-! ## Values of keys -/

variable {d : Dict} {k : String} {s : Option Dict} {input : Input} {t : Total}

variable {bytesDone : Int} {c : Counters}

theorem int0_nonneg (v : Json) : 0 ≤ int0 v := le_max_left 0 _

@[simp] theorem int0_int {n : Int} (h : 0 ≤ n) : int0 (.int n) = n := max_eq_right h

theorem get_set (d : Dict) (k l : String) (v : Json) :
    (d.set k v).get l = if l = k then v else d.get l := by
  by_cases h : l = k
  · rw [h, if_pos rfl, Dict.get_set_self]
  · rw [if_neg h, Dict.get_set_of_ne d v h]

theorem get_pop (d : Dict) (k l : String) : (d.pop k).get l = if l = k then .null else d.get l := by
  by_cases h : l = k
  · rw [h, if_pos rfl, Dict.get_pop_self]
  · rw [if_neg h, Dict.get_pop_of_ne d h]

theorem le_foldl_max {xs : List Int} {x a : Int} (h : x ∈ xs) : x ≤ xs.foldl max a := by
  induction xs generalizing a with
  | nil => cases h
  | cons y xs ih =>
    have hstart : ∀ {xs : List Int} {a : Int}, a ≤ xs.foldl max a := by
      intro xs
      induction xs with
      | nil => exact le_refl _
      | cons z xs ih => exact (le_max_left _ z).trans ih
    rw [List.foldl_cons]
    rcases List.mem_cons.mp h with rfl | h
    · exact (le_max_right a x).trans hstart
    · exact ih h

theorem le_largest {ds : List Dict} {keys : List String} {key : String} (hd : d ∈ ds)
    (hkey : key ∈ keys) : int0 (d.get key) ≤ largest ds keys :=
  le_foldl_max (List.mem_flatMap.mpr ⟨d, hd, List.mem_map.mpr ⟨key, hkey, rfl⟩⟩)

theorem largest_nonneg (ds : List Dict) (keys : List String) : 0 ≤ largest ds keys := by
  rw [largest]
  have hstart : ∀ (xs : List Int) {a : Int}, a ≤ xs.foldl max a := by
    intro xs
    induction xs with
    | nil => exact fun {a} => le_refl a
    | cons z xs ih => exact fun {a} => (le_max_left a z).trans ih
  exact hstart _

/-! ## What a result says -/

/-- The keys of the speeds and of what is shown beside them. -/
def rowKeys : List String :=
  ["upload_speed_bps", "speed_bps", "speed_source", "eta_seconds", "eta_source", "show_metrics"]

theorem get_setEta {eta : Option Int} (hk : k ∉ rowKeys) : (setEta d eta).get k = d.get k := by
  simp only [rowKeys, List.mem_cons, List.not_mem_nil, or_false, not_or] at hk
  cases eta with
  | none => simp [setEta, get_set, hk]
  | some seconds => simp [setEta, get_set, hk]

theorem get_setUploadSpeed {aggregate : Dict} {speed : Int} (hk : k ∉ rowKeys) :
    (setUploadSpeed d aggregate speed).get k = d.get k := by
  simp only [rowKeys, List.mem_cons, List.not_mem_nil, or_false, not_or] at hk
  rw [setUploadSpeed]
  split
  · simp [get_set, hk]
  · rfl

theorem get_applyRowMetrics {d' aggregate : Dict} {effective : Int} {forUpload : Bool}
    (hk : k ∉ rowKeys) (h : applyRowMetrics F d aggregate bytesDone effective forUpload = .ok d') :
    d'.get k = d.get k := by
  rw [applyRowMetrics] at h
  split at h
  · rw [← Except.ok.inj h]
    split
    · exact get_setEta hk
    · rfl
  · simp only at h
    split at h
    · rw [← Except.ok.inj h, get_setEta hk, get_setUploadSpeed hk]
    · obtain ⟨eta, -, h⟩ := Transition.bind_eq_ok.mp h
      rw [← Except.ok.inj h, get_setEta hk, get_setUploadSpeed hk]

theorem get_setShowMetrics {processed effective : Int} (hk : k ∉ rowKeys) :
    (setShowMetrics d processed effective).get k = d.get k := by
  simp only [rowKeys, List.mem_cons, List.not_mem_nil, or_false, not_or] at hk
  rw [setShowMetrics]
  split
  · simp [get_set, hk]
  · rfl

/-- A result and what it was made of. -/
structure Says (c : Counters) (t : Total) (d : Dict) : Prop where
  schema : d.get "progress_schema_version" = .int c.schema
  processed : d.get "processed_bytes" = .int c.processed
  done : d.get "bytes_done" = .int c.processed
  uploaded : d.get "uploaded_bytes" = .int c.uploaded
  uploadedCount : d.get "uploaded_count" = .int c.uploadedCount
  hashedCount : d.get "hashed_count" = .int c.hashedCount
  estimated : d.get "estimated_bytes" = .int c.estimated
  locked : d.get "kopia_total_locked" = .int t.locked
  known : d.get "bytes_total_known" = .bool (decide (t.effective > 0))
  total : t.effective > 0 → d.get "bytes_total" = .int t.effective
  source : d.get "bytes_total_source" = .str "kopia" → t.source = "kopia" ∧ t.effective > 0
  adjusted : t.effective > 0 → d.get "bytes_total_adjusted" = .bool t.adjusted

def shown (F : FloatFormat) (d : Dict) : Option PyFloat :=
  (F.progressNumber (d.get "step3_display_percent")).toOption.join

theorem exists_merged (h : enrichBackupTransfer F clock s input = .ok d) :
    ∃ c t display, measured F clock (s.getD []) input = .ok (c, t) ∧
      uncappedDisplay F c.schema c.processed t.effective (s.getD []) = .ok display ∧
      ∀ k ∉ rowKeys, d.get k = (setDisplay (setTotal (setProgress (setCounters input.transfer c
        (frozenDuTotal (s.getD []) input.duTotal)
        (historyAfter clock (s.getD []) c.estimated input.now)) c t) t) c.schema t.effective
        (capDisplay input.transfer display)).get k := by
  obtain ⟨⟨c, t⟩, hmeasured, h⟩ := Transition.bind_eq_ok.mp h
  obtain ⟨display, hdisplay, h⟩ := Transition.bind_eq_ok.mp h
  obtain ⟨merged, hmerged, h⟩ := Transition.bind_eq_ok.mp h
  refine ⟨c, t, display, hmeasured, hdisplay, fun k hk => ?_⟩
  rw [← Except.ok.inj h, get_setShowMetrics hk, get_applyRowMetrics hk hmerged]

theorem get_setDisplay {schema effective : Int} {display : Option PyFloat}
    (hk : k ≠ "step3_display_percent") :
    (setDisplay d schema effective display).get k = d.get k := by
  have hpop : (if 2 ≤ schema ∧ effective ≤ 0 then d.pop "step3_display_percent" else d).get k =
      d.get k := by
    split
    · rw [Dict.get_pop_of_ne d hk]
    · rfl
  cases display with
  | none => exact hpop
  | some p => exact (Dict.get_set_of_ne _ _ hk).trans hpop

def totalKeys : List String :=
  ["bytes_total", "bytes_total_known", "bytes_total_reference", "bytes_total_source",
    "bytes_total_adjusted"]

theorem get_setTotal (hk : k ∉ totalKeys) : (setTotal d t).get k = d.get k := by
  simp only [totalKeys, List.mem_cons, List.not_mem_nil, or_false, not_or] at hk
  rw [setTotal]
  split
  · simp [get_set, hk]
  · simp [get_set, get_pop, hk]

theorem get_known (d : Dict) (t : Total) :
    (setTotal d t).get "bytes_total_known" = .bool (decide (t.effective > 0)) := by
  rw [setTotal]
  split
  · rename_i hpos
    simp [get_set, hpos]
  · rename_i hpos
    simp [get_set, get_pop, hpos]

theorem get_source (h : (setTotal d t).get "bytes_total_source" = .str "kopia") :
    t.source = "kopia" ∧ t.effective > 0 := by
  rw [setTotal] at h
  split at h
  · rename_i hpos
    simp only [get_set, String.reduceEq, if_false, if_true, Json.str.injEq] at h
    split at h
    · simp at h
    · exact ⟨h, hpos⟩
  · simp [get_pop] at h

theorem result_of_enrich (h : enrichBackupTransfer F clock s input = .ok d) :
    ∃ c t, measured F clock (s.getD []) input = .ok (c, t) ∧ Says c t d ∧
      isDonePhase d = isDonePhase input.transfer := by
  obtain ⟨c, t, display, hmeasured, -, hget⟩ := exists_merged h
  have htotal : ∀ k ∉ "step3_display_percent" :: rowKeys, d.get k = (setTotal (setProgress
      (setCounters input.transfer c (frozenDuTotal (s.getD []) input.duTotal)
        (historyAfter clock (s.getD []) c.estimated input.now)) c t) t).get k := by
    intro k hk
    rw [List.mem_cons, not_or] at hk
    rw [hget k hk.2, get_setDisplay hk.1]
  have hkey : ∀ k ∉ totalKeys ++ "step3_display_percent" :: rowKeys, d.get k = (setProgress
      (setCounters input.transfer c (frozenDuTotal (s.getD []) input.duTotal)
        (historyAfter clock (s.getD []) c.estimated input.now)) c t).get k := by
    intro k hk
    rw [List.mem_append, not_or] at hk
    rw [htotal k hk.2, get_setTotal hk.1]
  refine ⟨c, t, hmeasured, ?_, ?_⟩
  · constructor
    · rw [hkey _ (by decide)]
      simp [setProgress, get_set]
    · rw [hkey _ (by decide)]
      simp [setProgress, get_set]
    · rw [hkey _ (by decide)]
      simp [setProgress]
    · rw [hkey _ (by decide)]
      simp [setProgress, setCounters, get_set]
    · rw [hkey _ (by decide)]
      simp [setProgress, setCounters, get_set]
    · rw [hkey _ (by decide)]
      simp [setProgress, setCounters, get_set]
    · rw [hkey _ (by decide)]
      simp [setProgress, setCounters, get_set]
    · rw [hkey _ (by decide)]
      simp [setProgress, get_set]
    · rw [htotal _ (by decide), get_known]
    · intro hpos
      rw [htotal _ (by decide)]
      simp [setTotal, hpos, get_set]
    · rw [htotal _ (by decide)]
      exact get_source
    · intro hpos
      rw [htotal _ (by decide)]
      simp [setTotal, hpos]
  · rw [isDonePhase, isDonePhase, phaseOf, phaseOf, hkey _ (by decide)]
    simp [setProgress, setCounters, get_set]

/-! ## Counters -/

section Counters

variable {aggregate merged prev : Dict}

theorem one_le_schema : 1 ≤ (readCounters aggregate merged prev).schema := le_max_right _ 1

theorem schema_forward :
    int0 (prev.get "progress_schema_version") ≤ (readCounters aggregate merged prev).schema :=
  (le_largest (by simp) (by simp)).trans (le_max_left _ 1)

theorem processed_nonneg : 0 ≤ (readCounters aggregate merged prev).processed := by
  have hlargest := largest_nonneg [aggregate, merged, prev] ["processed_bytes", "bytes_done"]
  rw [readCounters]
  simp only
  split
  · exact hlargest.trans (le_max_left _ _)
  · exact hlargest

theorem processed_forward {key : String} (hkey : key ∈ ["processed_bytes", "bytes_done"]) :
    int0 (prev.get key) ≤ (readCounters aggregate merged prev).processed := by
  have hle : int0 (prev.get key) ≤
      largest [aggregate, merged, prev] ["processed_bytes", "bytes_done"] :=
    le_largest (by simp) hkey
  rw [readCounters]
  simp only
  split
  · exact hle.trans (le_max_left _ _)
  · exact hle

def cumulativeKeys : List String :=
  ["progress_schema_version", "processed_bytes", "bytes_done", "uploaded_bytes", "uploaded_count",
    "hashed_count", "estimated_bytes"]

/-- The counters of a result are not behind those of the one before. -/
structure CountersForward (prev next : Dict) : Prop where
  same : next.get "processed_bytes" = next.get "bytes_done"
  forward : ∀ key ∈ cumulativeKeys, int0 (prev.get key) ≤ int0 (next.get key)

theorem countersForward_of_state {t : Total} {d : Dict}
    (h : Says (readCounters aggregate merged prev) t d) : CountersForward prev d := by
  refine ⟨by rw [h.processed, h.done], fun key hkey => ?_⟩
  have hsum : ∀ key, int0 (prev.get key) ≤ largest [aggregate, merged, prev] [key] := fun key =>
    le_largest (by simp) (by simp)
  simp only [cumulativeKeys, List.mem_cons, List.not_mem_nil, or_false] at hkey
  rcases hkey with rfl | rfl | rfl | rfl | rfl | rfl | rfl
  · rw [h.schema, int0_int (zero_le_one.trans one_le_schema)]
    exact schema_forward
  · rw [h.processed, int0_int processed_nonneg]
    exact processed_forward (by simp)
  · rw [h.done, int0_int processed_nonneg]
    exact processed_forward (by simp)
  · rw [h.uploaded]
    exact (hsum _).trans (le_max_right 0 _)
  · rw [h.uploadedCount]
    exact (hsum _).trans (le_max_right 0 _)
  · rw [h.hashedCount]
    exact (hsum _).trans (le_max_right 0 _)
  · rw [h.estimated]
    exact (hsum _).trans (le_max_right 0 _)

end Counters

/-! ## Totals -/

def knownTotal (d : Dict) : Option Int :=
  if (d.get "bytes_total_known").truthy then some (int0 (d.get "bytes_total")) else none

theorem knownTotal_eq (h : Says c t d) :
    knownTotal d = if t.effective > 0 then some t.effective else none := by
  rw [knownTotal, h.known]
  by_cases hpos : t.effective > 0
  · simp [Json.truthy, hpos, h.total hpos, hpos.le]
  · simp [Json.truthy, hpos]

theorem le_safeProgressTotal (bytesDone candidate : Int) :
    candidate ≤ safeProgressTotal bytesDone candidate := by
  rw [safeProgressTotal]
  split
  · exact le_refl _
  · exact le_max_left _ _

theorem done_le_safeProgressTotal {candidate : Int} (h : 0 < safeProgressTotal bytesDone candidate) :
    bytesDone ≤ safeProgressTotal bytesDone candidate := by
  rw [safeProgressTotal] at h ⊢
  split at h
  · rename_i hcase
    rw [if_pos hcase]
    rcases hcase with hle | hle
    · omega
    · exact hle
  · rename_i hcase
    rw [if_neg hcase]
    have hstep : bytesDone ≤ bytesDone + 1 := by omega
    exact hstep.trans ((le_max_right _ _).trans (le_max_right _ _))

section Total

variable {c : Counters} {aggregate prev : Dict} {duTotal : Int}

theorem kopiaTotal_pos (h : 0 < int0 (prev.get "bytes_total")) :
    0 < (kopiaTotal c aggregate prev duTotal).effective := by
  refine lt_of_lt_of_le ?_ (le_safeProgressTotal _ _)
  rw [candidateTotal]
  split
  · rename_i hreported
    exact lt_of_lt_of_le hreported (le_max_left _ _)
  · exact lt_of_lt_of_le h ((le_max_left _ _).trans (le_max_right _ _))

/-- A total of Kopia that was not adjusted is not followed by a smaller one. -/
theorem le_kopiaTotal (hsource : prev.get "bytes_total_source" = .str "kopia")
    (hadjusted : prev.get "bytes_total_adjusted" = .bool false) :
    int0 (prev.get "bytes_total") ≤ (kopiaTotal c aggregate prev duTotal).effective := by
  refine le_trans ?_ (le_safeProgressTotal _ _)
  have hlower : Text.lower (Json.strOr (.str "kopia")) = "kopia" := by decide +kernel
  have hkopia : previousKopiaTotal prev = previousTotal prev := by
    rw [previousKopiaTotal, hsource, hadjusted]
    exact if_pos ⟨hlower, by decide⟩
  rw [candidateTotal, hkopia]
  split
  · exact (le_max_left _ _).trans (le_max_right _ _)
  · exact (le_max_left _ _).trans (le_max_right _ _)

theorem source_settleTotal {history : List Sample} {now : Int} {t : Total}
    (h : settleTotal F clock c aggregate prev history duTotal now = .ok t)
    (hsource : t.source = "kopia") : 2 ≤ c.schema := by
  rw [settleTotal] at h
  split at h
  · assumption
  · obtain ⟨latches, -, h⟩ := Transition.bind_eq_ok.mp h
    rw [← Except.ok.inj h, switchTotal] at hsource
    split at hsource
    · simp at hsource
    · simp at hsource

end Total

structure TotalForward (prev next : Dict) : Prop where
  known : 2 ≤ int0 (prev.get "progress_schema_version") → (knownTotal prev).isSome = true →
    (knownTotal next).isSome = true
  enough : 2 ≤ int0 (next.get "progress_schema_version") → ∀ total ∈ knownTotal next,
    int0 (next.get "processed_bytes") ≤ total
  kopia : prev.get "bytes_total_source" = .str "kopia" →
    prev.get "bytes_total_adjusted" = .bool false →
      ∀ total ∈ knownTotal prev, ∃ total' ∈ knownTotal next, total ≤ total'

/-- What a result keeps for the next call: a known total is positive, and one of Kopia is of the
second schema version. -/
structure Kept (d : Dict) : Prop where
  positive : (knownTotal d).isSome = true → 0 < int0 (d.get "bytes_total")
  kopia : d.get "bytes_total_source" = .str "kopia" → 2 ≤ int0 (d.get "progress_schema_version")

theorem kept_nil : Kept [] := by
  constructor
  · exact fun h => by cases h
  · exact fun h => by cases h

section Step

variable {s : Option Dict} {input : Input} {d : Dict}

variable {prev : Dict} {c : Counters} {t : Total}

theorem counters_of_measured (h : measured F clock prev input = .ok (c, t)) :
    c = readCounters input.aggregate input.transfer prev ∧
      settleTotal F clock c input.aggregate prev (historyAfter clock prev c.estimated input.now)
        input.duTotal input.now = .ok t := by
  obtain ⟨t', ht, h⟩ := Transition.bind_eq_ok.mp h
  cases h
  exact ⟨rfl, ht⟩

theorem kept_of_enrich (h : enrichBackupTransfer F clock s input = .ok d) : Kept d := by
  obtain ⟨c, t, hmeasured, hstate, -⟩ := result_of_enrich h
  obtain ⟨rfl, hsettle⟩ := counters_of_measured hmeasured
  constructor
  · intro hknown
    rw [knownTotal_eq hstate] at hknown
    split at hknown
    · rename_i hpos
      rw [hstate.total hpos, int0_int hpos.le]
      exact hpos
    · cases hknown
  · intro hsource
    rw [hstate.schema, int0_int (zero_le_one.trans one_le_schema)]
    exact source_settleTotal hsettle (hstate.source hsource).1

theorem countersForward_of_enrich (h : enrichBackupTransfer F clock s input = .ok d) :
    CountersForward (s.getD []) d := by
  obtain ⟨c, t, hmeasured, hstate, -⟩ := result_of_enrich h
  obtain ⟨rfl, -⟩ := counters_of_measured hmeasured
  exact countersForward_of_state hstate

theorem settleTotal_of_schema {aggregate : Dict} {history : List Sample} {duTotal now : Int}
    (hschema : 2 ≤ c.schema) (h : settleTotal F clock c aggregate prev history duTotal now = .ok t) :
    t = kopiaTotal c aggregate prev duTotal := by
  rw [settleTotal, if_pos hschema] at h
  exact (Except.ok.inj h).symm

theorem totalForward_of_enrich (hkept : Kept (s.getD []))
    (h : enrichBackupTransfer F clock s input = .ok d) : TotalForward (s.getD []) d := by
  obtain ⟨c, t, hmeasured, hstate, -⟩ := result_of_enrich h
  obtain ⟨rfl, hsettle⟩ := counters_of_measured hmeasured
  have hversion : int0 ((s.getD []).get "progress_schema_version") ≤
      (readCounters input.aggregate input.transfer (s.getD [])).schema := schema_forward
  refine ⟨fun hschema hknown => ?_, fun hschema total htotal => ?_, fun hsource hadjusted => ?_⟩
  · have hpos := @kopiaTotal_pos (readCounters input.aggregate input.transfer (s.getD []))
      input.aggregate _ input.duTotal (hkept.positive hknown)
    rw [← settleTotal_of_schema (hschema.trans hversion) hsettle] at hpos
    rw [knownTotal_eq hstate, if_pos hpos]
    rfl
  · rw [hstate.schema, int0_int (zero_le_one.trans one_le_schema)] at hschema
    rw [knownTotal_eq hstate] at htotal
    split at htotal
    · rename_i hpos
      obtain rfl : t.effective = total := by simpa using htotal
      rw [hstate.processed, int0_int processed_nonneg]
      rw [settleTotal_of_schema hschema hsettle] at hpos ⊢
      exact done_le_safeProgressTotal hpos
    · cases htotal
  · intro total htotal
    have hschema := hkept.kopia hsource
    have hle := @le_kopiaTotal (readCounters input.aggregate input.transfer (s.getD []))
      input.aggregate _ input.duTotal hsource hadjusted
    have hpositive := hkept.positive (by rw [htotal]; rfl)
    rw [← settleTotal_of_schema (hschema.trans hversion) hsettle] at hle
    have hpos : t.effective > 0 := lt_of_lt_of_le hpositive hle
    refine ⟨t.effective, by rw [knownTotal_eq hstate, if_pos hpos]; rfl, ?_⟩
    rw [knownTotal] at htotal
    split at htotal
    · obtain rfl : int0 ((s.getD []).get "bytes_total") = total := by simpa using htotal
      exact hle
    · cases htotal

end Step

/-! ## The displayed percentage -/

section Display

variable {schema processed effective : Int} {prev : Dict}

theorem previousDisplay_float {p : Option PyFloat} (h : previousDisplay F schema prev = .ok p) :
    ∀ x, p = some (.finite x) → F.round x = some x := by
  intro x hx
  rw [previousDisplay] at h
  split at h
  · obtain ⟨first, hfirst, h⟩ := Transition.bind_eq_ok.mp h
    cases first with
    | some q =>
      rw [← Except.ok.inj h] at hx
      obtain rfl : q = .finite x := by simpa using hx
      exact FloatFormat.round_of_progressNumber hfirst
    | none =>
      rw [hx] at h
      exact FloatFormat.round_of_progressNumber h
  · rw [← Except.ok.inj h] at hx
    cases hx

theorem computeDisplayPercent_spec {previous display : Option PyFloat}
    (h : computeDisplayPercent F processed effective previous = .ok display) :
    (effective ≤ 0 ∧ display = previous) ∨
      0 < effective ∧ ∃ raw, F.percentOf processed effective = .ok raw ∧
        (display = previous ∧ previous.any (PyFloat.isAbove raw) = true ∨
          display = some (.finite (F.round2 raw)) ∧
            previous.any (PyFloat.isAbove raw) = false) := by
  rw [computeDisplayPercent] at h
  split at h
  · rename_i hle
    exact .inl ⟨hle, (Except.ok.inj h).symm⟩
  · rename_i hpos
    obtain ⟨raw, hraw, h⟩ := Transition.bind_eq_ok.mp h
    refine .inr ⟨not_le.mp hpos, raw, hraw, ?_⟩
    have h := Except.ok.inj h
    cases habove : previous.any (PyFloat.isAbove raw) with
    | true =>
      rw [habove] at h
      exact .inl ⟨h.symm, rfl⟩
    | false =>
      rw [habove] at h
      exact .inr ⟨h.symm, rfl⟩

variable {display : Option PyFloat}

theorem uncappedDisplay_float
    (h : uncappedDisplay F schema processed effective prev = .ok display) :
    ∀ x, display = some (.finite x) → F.round x = some x := by
  intro x hx
  rw [uncappedDisplay] at h
  split at h
  · rw [← Except.ok.inj h] at hx
    cases hx
  · obtain ⟨previous, hprevious, h⟩ := Transition.bind_eq_ok.mp h
    rcases computeDisplayPercent_spec h with ⟨-, rfl⟩ | ⟨-, raw, hraw, ⟨rfl, -⟩ | ⟨rfl, -⟩⟩
    · exact previousDisplay_float hprevious x hx
    · exact previousDisplay_float hprevious x hx
    · obtain rfl : F.round2 raw = x := by simpa using hx
      exact F.round2_float _ (FloatFormat.round_percentOf hraw)

theorem uncappedDisplay_kopia (hschema : 2 ≤ schema) (hpos : 0 < effective)
    (h : uncappedDisplay F schema processed effective prev = .ok display) :
    ∃ raw, F.percentOf processed effective = .ok raw ∧ display = some (.finite (F.round2 raw)) := by
  rw [uncappedDisplay, if_neg (by omega)] at h
  obtain ⟨previous, hprevious, h⟩ := Transition.bind_eq_ok.mp h
  rw [previousDisplay, if_neg (by omega)] at hprevious
  cases hprevious
  rcases computeDisplayPercent_spec h with ⟨hle, -⟩ | ⟨-, raw, hraw, ⟨-, habove⟩ | ⟨rfl, -⟩⟩
  · omega
  · simp at habove
  · exact ⟨raw, hraw, rfl⟩

theorem uncappedDisplay_legacy (hschema : schema < 2)
    (h : uncappedDisplay F schema processed effective prev = .ok display) :
    ∃ previous, previousDisplay F schema prev = .ok previous ∧
      computeDisplayPercent F processed effective previous = .ok display := by
  rw [uncappedDisplay, if_neg (by omega)] at h
  exact Transition.bind_eq_ok.mp h

variable {transfer : Dict}

theorem capDisplay_done (h : isDonePhase transfer = true) (display : Option PyFloat) :
    capDisplay transfer display = display := by
  rw [capDisplay, if_neg (by simp [h])]

theorem capDisplay_some (h : isDonePhase transfer = false) (p : PyFloat) :
    capDisplay transfer (some p) = some (if p.isComplete then .finite 99 else p) := by
  rw [capDisplay]
  cases hcomplete : p.isComplete with
  | true => simp [h, hcomplete]
  | false => simp [hcomplete]

theorem capDisplay_float (h : ∀ x, display = some (.finite x) → F.round x = some x) :
    ∀ x, capDisplay transfer display = some (.finite x) → F.round x = some x := by
  intro x hx
  rw [capDisplay] at hx
  split at hx
  · obtain rfl : (99 : Rat) = x := by simpa using hx
    exact F.whole 99 (by decide)
  · exact h x hx

end Display

section Shown

variable {s : Option Dict} {input : Input} {d : Dict}

/-- What a result displays: the capped percentage, or what the input brings where there is none
below the second schema version. -/
theorem shown_of_enrich (h : enrichBackupTransfer F clock s input = .ok d) :
    ∃ c t display, measured F clock (s.getD []) input = .ok (c, t) ∧ Says c t d ∧
      isDonePhase d = isDonePhase input.transfer ∧
      uncappedDisplay F c.schema c.processed t.effective (s.getD []) = .ok display ∧
      (∀ p, display = some p → shown F d = capDisplay input.transfer (some p)) ∧
      (display = none → 2 ≤ c.schema ∧ t.effective ≤ 0 → shown F d = none) ∧
      (display = none → ¬ (2 ≤ c.schema ∧ t.effective ≤ 0) →
        shown F d = shown F input.transfer) := by
  obtain ⟨c, t, display, hmeasured, hdisplay, hget⟩ := exists_merged h
  obtain ⟨c', t', hmeasured', hstate, hphase⟩ := result_of_enrich h
  obtain ⟨rfl, rfl⟩ := Prod.mk.inj (Except.ok.inj (hmeasured.symm.trans hmeasured'))
  refine ⟨c, t, display, hmeasured, hstate, hphase, hdisplay, ?_, ?_, ?_⟩
  · intro p hp
    have hsome : ∃ q, capDisplay input.transfer (some p) = some q := by
      rw [capDisplay]
      split
      · exact ⟨_, rfl⟩
      · exact ⟨p, rfl⟩
    obtain ⟨q, hq⟩ := hsome
    have hfloat : ∀ x, q = .finite x → F.round x = some x := by
      rintro x rfl
      exact capDisplay_float (uncappedDisplay_float hdisplay) x (by rw [hp, hq])
    rw [shown, hget _ (by decide), hp, hq, setDisplay, Dict.get_set_self,
      FloatFormat.progressNumber_toJson hfloat]
    rfl
  · rintro hnone hcase
    have hcap : capDisplay input.transfer none = none := by simp [capDisplay]
    rw [shown, hget _ (by decide), hnone, hcap, setDisplay, if_pos hcase]
    rw [Dict.get_pop_self]
    rfl
  · rintro hnone hcase
    have hcap : capDisplay input.transfer none = none := by simp [capDisplay]
    rw [shown, hget _ (by decide), hnone, hcap, setDisplay, if_neg hcase]
    rw [get_setTotal (by decide)]
    simp [setProgress, setCounters, get_set, shown]

end Shown

/-! ## Percentages that move forward -/

def Below (p : PyFloat) : Prop := p.isComplete = false ∧ p ≠ .nan

/-- The percentage of a result is below 100 until the backup is done, and until then not behind the
one before: below the second schema version, and for the same total. -/
structure DisplayForward (F : FloatFormat) (prev next : Dict) : Prop where
  below : isDonePhase next = false → ∀ p ∈ shown F next, Below p
  legacy : isDonePhase prev = false → isDonePhase next = false →
    int0 (next.get "progress_schema_version") < 2 → ∀ x, shown F prev = some (.finite x) →
      ∃ y, shown F next = some (.finite y) ∧ x ≤ y
  sameTotal : isDonePhase prev = false → isDonePhase next = false →
    ∀ total, knownTotal prev = some total → knownTotal next = some total →
      ∀ x y, shown F prev = some (.finite x) → shown F next = some (.finite y) → x ≤ y

/-- No branch of the percentage goes wrong, with the percentage of the bytes `raw`. -/
structure CleanPercent (F : FloatFormat) (prev : Dict) (c : Counters) (t : Total) (raw : Rat) :
    Prop where
  rounding : ∀ x, shown F prev = some (.finite x) → x ≤ raw → x ≤ F.round2 raw
  complete : ∀ x, shown F prev = some (.finite x) → 100 ≤ F.round2 raw → x ≤ 99
  /-- The second schema version does not start behind what was displayed, for the same total. -/
  version : int0 (prev.get "progress_schema_version") < 2 → 2 ≤ c.schema →
    knownTotal prev = some t.effective → ∀ x, shown F prev = some (.finite x) → x ≤ raw

/-- No branch of a call goes wrong. -/
structure CleanCall (F : FloatFormat) (prev : Dict) (input : Input) (c : Counters) (t : Total) :
    Prop where
  percent : ∀ raw, 0 < t.effective → F.percentOf c.processed t.effective = .ok raw →
    CleanPercent F prev c t raw
  number : previousDisplay F c.schema prev ≠ .ok (some .nan)
  /-- Where no percentage is computed, the input brings none. -/
  own : c.schema < 2 → t.effective ≤ 0 → previousDisplay F c.schema prev = .ok none →
    shown F input.transfer = none

/-- A call before the backup is done. -/
def Clean (F : FloatFormat) (clock : Clock) (prev : Dict) (input : Input) : Prop :=
  isDonePhase input.transfer = false →
    ∀ c t, measured F clock prev input = .ok (c, t) → CleanCall F prev input c t

/-- What is displayed from the second schema version on: the percentage of the bytes, or 99. -/
structure ShownKept (F : FloatFormat) (d : Dict) : Prop where
  below : isDonePhase d = false → ∀ p ∈ shown F d, Below p
  percent : 2 ≤ int0 (d.get "progress_schema_version") → ∀ total ∈ knownTotal d,
    ∃ raw, F.percentOf (int0 (d.get "processed_bytes")) total = .ok raw ∧
      (shown F d = some (.finite (F.round2 raw)) ∨
        shown F d = some (.finite 99) ∧ 100 ≤ F.round2 raw)

theorem shownKept_nil : ShownKept F [] := by
  constructor
  · intro _ p hp
    cases hp
  · intro _ total htotal
    cases htotal

section Forward

variable {s : Option Dict} {input : Input} {d : Dict} {c : Counters} {t : Total}

variable {p : PyFloat} {x : Rat} {prev : Dict} {transfer : Dict}

theorem below_cap (h : isDonePhase transfer = false) (hnan : p ≠ .nan) :
    ∀ q ∈ capDisplay transfer (some p), Below q := by
  intro q hq
  rw [capDisplay_some h] at hq
  cases hq
  cases hcomplete : p.isComplete with
  | true =>
    refine ⟨?_, by simp⟩
    simp only [if_true, PyFloat.isComplete]
    norm_num
  | false =>
    simp only [Bool.false_eq_true, if_false]
    exact ⟨hcomplete, hnan⟩

theorem le_cap (h : isDonePhase transfer = false) {y : Rat} (hle : x ≤ y)
    (hcomplete : 100 ≤ y → x ≤ 99) :
    ∃ z, capDisplay transfer (some (.finite y)) = some (.finite z) ∧ x ≤ z := by
  rw [capDisplay_some h]
  by_cases hy : 100 ≤ y
  · exact ⟨99, by simp [PyFloat.isComplete, hy], hcomplete hy⟩
  · exact ⟨y, by simp [PyFloat.isComplete, hy], hle⟩

/-- The percentage below the second schema version, for a percentage before that is a number. -/
theorem legacy_forward {display : Option PyFloat} (hclean : CleanCall F prev input c t)
    (hphase : isDonePhase input.transfer = false) (hschema : c.schema < 2)
    (hdisplay : uncappedDisplay F c.schema c.processed t.effective prev = .ok display)
    (hx : shown F prev = some (.finite x)) (hbelow : Below (.finite x)) : ∃ y, display =
      some (.finite y) ∧ ∃ z, capDisplay input.transfer display = some (.finite z) ∧ x ≤ z := by
  obtain ⟨previous, hprevious, hcompute⟩ := uncappedDisplay_legacy hschema hdisplay
  have hsome : previous = some (.finite x) := by
    rw [previousDisplay, if_pos hschema] at hprevious
    obtain ⟨first, hfirst, hprevious⟩ := Transition.bind_eq_ok.mp hprevious
    rw [shown, hfirst] at hx
    obtain rfl : first = some (.finite x) := hx
    exact (Except.ok.inj hprevious).symm
  subst hsome
  have hself : ∃ z, capDisplay input.transfer (some (.finite x)) = some (.finite z) ∧ x ≤ z :=
    le_cap hphase (le_refl x) fun hge => by
      have := hbelow.1
      simp [PyFloat.isComplete, hge] at this
  rcases computeDisplayPercent_spec hcompute with ⟨-, rfl⟩ | ⟨hpos, raw, hraw, ⟨rfl, -⟩ | ⟨rfl, habove⟩⟩
  · exact ⟨x, rfl, hself⟩
  · exact ⟨x, rfl, hself⟩
  · have hpercent := hclean.percent raw hpos hraw
    have hle : x ≤ raw := by simpa [PyFloat.isAbove] using habove
    exact ⟨F.round2 raw, rfl, le_cap hphase (hpercent.rounding x hx hle) (hpercent.complete x hx)⟩

theorem number_of_display (hclean : CleanCall F prev input c t)
    (hdisplay : uncappedDisplay F c.schema c.processed t.effective prev = .ok (some p)) :
    p ≠ .nan := by
  rintro rfl
  rw [uncappedDisplay] at hdisplay
  split at hdisplay
  · cases hdisplay
  · obtain ⟨previous, hprevious, hcompute⟩ := Transition.bind_eq_ok.mp hdisplay
    rcases computeDisplayPercent_spec hcompute with ⟨-, rfl⟩ | ⟨-, raw, -, ⟨rfl, -⟩ | ⟨heq, -⟩⟩
    · exact hclean.number hprevious
    · exact hclean.number hprevious
    · cases heq

theorem below_of_enrich (hclean : Clean F clock (s.getD []) input)
    (h : enrichBackupTransfer F clock s input = .ok d) :
    isDonePhase d = false → ∀ p ∈ shown F d, Below p := by
  intro hdone p hp
  obtain ⟨c, t, display, hmeasured, -, hphase, hdisplay, hsome, hpop, hown⟩ := shown_of_enrich h
  rw [hphase] at hdone
  have hcall := hclean hdone c t hmeasured
  cases display with
  | some q =>
    rw [hsome q rfl] at hp
    exact below_cap hdone (number_of_display hcall hdisplay) p hp
  | none =>
    by_cases hcase : 2 ≤ c.schema ∧ t.effective ≤ 0
    · rw [hpop rfl hcase] at hp
      cases hp
    · rw [hown rfl hcase] at hp
      have hschema : c.schema < 2 := by
        by_contra hge
        have hge := not_lt.mp hge
        have hpos : 0 < t.effective := by
          by_contra hnot
          exact hcase ⟨hge, not_lt.mp hnot⟩
        obtain ⟨raw, -, heq⟩ := uncappedDisplay_kopia hge hpos hdisplay
        cases heq
      obtain ⟨previous, hprevious, hcompute⟩ := uncappedDisplay_legacy hschema hdisplay
      rcases computeDisplayPercent_spec hcompute with ⟨hle, rfl⟩ | ⟨-, raw, -, ⟨rfl, habove⟩ | ⟨heq, -⟩⟩
      · rw [hcall.own hschema hle hprevious] at hp
        cases hp
      · simp at habove
      · cases heq

theorem percent_of_enrich (h : enrichBackupTransfer F clock s input = .ok d) :
    2 ≤ int0 (d.get "progress_schema_version") → ∀ total ∈ knownTotal d,
      ∃ raw, F.percentOf (int0 (d.get "processed_bytes")) total = .ok raw ∧
        (shown F d = some (.finite (F.round2 raw)) ∨
          shown F d = some (.finite 99) ∧ 100 ≤ F.round2 raw) := by
  intro hschema total htotal
  obtain ⟨c, t, display, hmeasured, hstate, -, hdisplay, hsome, -, -⟩ := shown_of_enrich h
  obtain ⟨rfl, -⟩ := counters_of_measured hmeasured
  rw [hstate.schema, int0_int (zero_le_one.trans one_le_schema)] at hschema
  rw [knownTotal_eq hstate] at htotal
  split at htotal
  · rename_i hpos
    obtain rfl : t.effective = total := by simpa using htotal
    obtain ⟨raw, hraw, rfl⟩ := uncappedDisplay_kopia hschema hpos hdisplay
    refine ⟨raw, by rw [hstate.processed, int0_int processed_nonneg]; exact hraw, ?_⟩
    rw [hsome _ rfl]
    cases hdone : isDonePhase input.transfer with
    | true => exact .inl (capDisplay_done hdone _)
    | false =>
      rw [capDisplay_some hdone]
      by_cases hge : 100 ≤ F.round2 raw
      · exact .inr ⟨by simp [PyFloat.isComplete, hge], hge⟩
      · exact .inl (by simp [PyFloat.isComplete, hge])
  · cases htotal

theorem displayForward_of_enrich (hkept : ShownKept F (s.getD []))
    (hclean : Clean F clock (s.getD []) input)
    (h : enrichBackupTransfer F clock s input = .ok d) : DisplayForward F (s.getD []) d := by
  obtain ⟨c, t, display, hmeasured, hstate, hphase, hdisplay, hsome, -, -⟩ := shown_of_enrich h
  obtain ⟨rfl, -⟩ := counters_of_measured hmeasured
  have hversion : int0 (d.get "progress_schema_version") =
      (readCounters input.aggregate input.transfer (s.getD [])).schema := by
    rw [hstate.schema, int0_int (zero_le_one.trans one_le_schema)]
  have hlegacy : isDonePhase (s.getD []) = false → isDonePhase d = false →
      int0 (d.get "progress_schema_version") < 2 → ∀ x, shown F (s.getD []) = some (.finite x) →
        ∃ y, shown F d = some (.finite y) ∧ x ≤ y := by
    intro hprev hdone hschema x hx
    rw [hphase] at hdone
    rw [hversion] at hschema
    obtain ⟨y, rfl, z, hz, hle⟩ := legacy_forward (hclean hdone _ t hmeasured) hdone hschema
      hdisplay hx (hkept.below hprev _ hx)
    exact ⟨z, (hsome _ rfl).trans hz, hle⟩
  refine ⟨below_of_enrich hclean h, hlegacy, ?_⟩
  intro hprev hdone total htotal htotal' x y hx hy
  rcases lt_or_ge (int0 (d.get "progress_schema_version")) 2 with hschema | hschema
  · obtain ⟨z, hz, hle⟩ := hlegacy hprev hdone hschema x hx
    rw [hy] at hz
    obtain rfl : y = z := by simpa using hz
    exact hle
  · have hbefore := hkept.below hprev _ hx
    rw [hphase] at hdone
    rw [hversion] at hschema
    rw [knownTotal_eq hstate] at htotal'
    split at htotal'
    · rename_i hpos
      obtain rfl : t.effective = total := by simpa using htotal'
      obtain ⟨raw, hraw, rfl⟩ := uncappedDisplay_kopia hschema hpos hdisplay
      have hpercent := (hclean hdone _ t hmeasured).percent raw hpos hraw
      -- What was displayed is no more than the rounded percentage of the bytes.
      have hle : x ≤ F.round2 raw := by
        rcases lt_or_ge (int0 ((s.getD []).get "progress_schema_version")) 2 with hold | hold
        · exact hpercent.rounding x hx (hpercent.version hold hschema htotal x hx)
        · obtain ⟨raw', hraw', hshown⟩ := hkept.percent hold _ htotal
          have hmono := FloatFormat.percentOf_mono (int0_nonneg _)
            (processed_forward (by simp) : int0 ((s.getD []).get "processed_bytes") ≤ _) hpos hraw'
            hraw
          have hround := F.round2_mono _ _ hmono
          rcases hshown with heq | ⟨heq, hge⟩
          · rw [hx] at heq
            obtain rfl : x = F.round2 raw' := by simpa using heq
            exact hround
          · rw [hx] at heq
            obtain rfl : x = 99 := by simpa using heq
            linarith
      obtain ⟨z, hz, hxz⟩ := le_cap hdone hle (hpercent.complete x hx)
      rw [hsome _ rfl, hz] at hy
      obtain rfl : z = y := by simpa using hy
      exact hxz
    · cases htotal'

end Forward

/-! ## Runs -/

def calls (F : FloatFormat) (clock : Clock) : Transition.System (Option Dict) Input where
  init := fun s => s = none
  step := fun s input => (enrichBackupTransfer F clock s input).toOption.map some

structure MovesForward (F : FloatFormat) (prev next : Dict) : Prop where
  counters : CountersForward prev next
  total : TotalForward prev next
  display : DisplayForward F prev next

theorem enrich_of_step {s' : Option Dict} (h : (calls F clock).step s input = some s') :
    ∃ d, s' = some d ∧ enrichBackupTransfer F clock s input = .ok d := by
  obtain ⟨d, hd, rfl⟩ := Option.map_eq_some_iff.mp h
  exact ⟨d, rfl, Transition.ok_of_toOption hd⟩

def ofThousand (bytesDone : Int) : Input where
  transfer := [("phase", .str "transferring")]
  aggregate :=
    [("progress_schema_version", .int 2), ("bytes_done", .int bytesDone),
      ("bytes_total", .int 1000), ("bytes_total_known", .bool true)]
  duTotal := 0
  now := 0

def noClock : Clock := ⟨fun _ => "", fun _ => none⟩

def resultOf (s : Option Dict) (bytesDone : Int) : Dict :=
  (enrichBackupTransfer .exact noClock s (ofThousand bytesDone)).toOption.getD []

theorem clean_of_measured {F : FloatFormat} {clock : Clock} {prev : Dict}
    (hmeasured : measured F clock prev input = .ok (c, t)) (hcall : CleanCall F prev input c t) :
    Clean F clock prev input := by
  intro _ c' t' h
  rw [hmeasured] at h
  cases h
  exact hcall

end HyperFileLens.Protection.TransferProgress
