import HyperFileLens.Protection.LaneProgress

/-!
# Consistent progress of a lane

The progress of a lane is consistent when what is done is no more than the total, if one is known,
when the percentage is below 100 for an active lane, and when the reference is a total only below
the second schema version (`Lane.Consistent`).

Two payloads are not: where no total is left, the reference becomes one although more is done than
it says (`Overtaken`), and the largest total so far counts as the reference where both happen to be
the same (`Mislabelled`). These are all (`consistent_iff`).
-/

namespace HyperFileLens.Protection.LaneProgress

structure Lane.Consistent (status : String) (lane : Lane) : Prop where
  done_nonneg : 0 ≤ lane.bytesDone
  total_nonneg : ∀ t ∈ lane.bytesTotal, 0 ≤ t
  counters_nonneg : ∀ entry ∈ lane.counters, ∀ n ∈ entry.2, 0 ≤ n
  done_le : lane.bytesTotalKnown = true → ∃ t, lane.bytesTotal = some t ∧ lane.bytesDone ≤ t
  absent : lane.bytesTotal = none ↔ lane.bytesTotalKnown = false
  percent : ∀ p ∈ lane.percent, ∃ x, p = .finite x ∧ 0 ≤ x ∧ x ≤ 100 ∧
    (isActive status = true → x < 100)
  reference : lane.bytesTotalReference = true → ∀ v ∈ lane.schemaVersion, v < 2

/-! ## Numbers -/

section Numbers

variable {F : FloatFormat}

structure Usable (F : FloatFormat) (n : Int) : Prop where
  nonneg : 0 ≤ n
  fits : F.Fits n

theorem Usable.of_progressInt {v : Json} {n : Int} (h : F.progressInt v = .ok n) : Usable F n :=
  ⟨FloatFormat.progressInt_nonneg h, FloatFormat.fits_progressInt h⟩

theorem Usable.max {n k : Int} (hn : Usable F n) (hk : Usable F k) : Usable F (max n k) := by
  rcases max_choice n k with h | h
  · rwa [h]
  · rwa [h]

theorem usable_zero : Usable F 0 := ⟨le_refl 0, FloatFormat.fits_whole (by decide)⟩

/-- Counters as they are read: a total that is not known is zero, and a known total of zero is
stated where nothing is done. -/
structure Counters.Sane (F : FloatFormat) (c : Counters) : Prop where
  done : Usable F c.done
  total : Usable F c.total
  hashed : Usable F c.hashed
  reference : Usable F c.reference
  prevMax : Usable F c.prevMax
  unknown : c.known = false → c.total = 0
  zero : c.known = true → c.total = 0 → c.done = 0

/-! ## Totals that can be -/

variable {bytesDone total : Int}

theorem credible_iff (h : 0 ≤ bytesDone) :
    credibleBytesTotal bytesDone total = true ↔ 0 < total ∧ bytesDone * 95 ≤ total * 100 := by
  rw [credibleBytesTotal, max_eq_right h]
  split
  · rename_i hle
    simp [not_lt.mpr hle]
  · split
    · simp
      omega
    · simp
      omega

theorem credible_of_le (h : 0 ≤ bytesDone) (hpos : 0 < total) (hle : bytesDone ≤ total) :
    credibleBytesTotal bytesDone total = true :=
  (credible_iff h).mpr ⟨hpos, by omega⟩

variable {reference : Int}

theorem exists_exceedsReference (h : F.Fits reference) (total : Int) :
    ∃ b, exceedsReference F total reference = .ok b := by
  obtain ⟨x, hx⟩ := h.exists_ofInt
  exact ⟨_, Transition.bind_eq_ok.mpr ⟨x, hx, rfl⟩⟩

variable {r : Option Int × Bool}

theorem applyReference_spec {total : Int}
    (h : applyReferenceBytesTotal F (some total) reference = .ok r) (hreference : 0 ≤ reference) :
    r = (some total, false) ∨ r = (some reference, true) ∧ 0 < reference ∧ 0 < total ∧
        exceedsReference F total reference = .ok true := by
  rw [applyReferenceBytesTotal, max_eq_right hreference] at h
  split at h
  · exact .inl (Except.ok.inj h).symm
  · rename_i hpos
    obtain ⟨exceeds, hexceeds, h⟩ := Transition.bind_eq_ok.mp h
    have h := Except.ok.inj h
    cases exceeds with
    | false => exact .inl h.symm
    | true =>
      rw [not_or, not_le, not_le] at hpos
      exact .inr ⟨h.symm, hpos.1, hpos.2, hexceeds⟩

theorem exists_applyReference (h : Usable F reference) (total : Option Int) :
    ∃ r, applyReferenceBytesTotal F total reference = .ok r := by
  cases total with
  | none => exact ⟨_, rfl⟩
  | some total =>
    rw [applyReferenceBytesTotal, max_eq_right h.nonneg]
    split
    · exact ⟨_, rfl⟩
    · obtain ⟨b, hb⟩ := exists_exceedsReference h.fits total
      exact ⟨_, Transition.bind_eq_ok.mpr ⟨b, hb, rfl⟩⟩

variable {total : Option Int}

theorem usable_applyReference (h : applyReferenceBytesTotal F total reference = .ok r)
    (htotal : ∀ t ∈ total, Usable F t) (hreference : Usable F reference) :
    ∀ t ∈ r.1, Usable F t := by
  cases total with
  | none =>
    cases h
    simp
  | some total =>
    rcases applyReference_spec h hreference.nonneg with rfl | ⟨rfl, -⟩
    · exact htotal
    · intro t ht
      obtain rfl : reference = t := by simpa using ht
      exact hreference

theorem mem_candidates {done t : Int} (h : t ∈ candidates done total) : t ∈ total := by
  have hmem := (List.mem_filter.mp h).1
  simpa using hmem

theorem monotonic_spec {done reference : Int} {total previousMax r : Option Int}
    (h : monotonicBytesTotal F done total previousMax reference = .ok r) (hdone : Usable F done)
    (htotal : ∀ t ∈ total, Usable F t) (hprevious : ∀ t ∈ previousMax, Usable F t)
    (hreference : Usable F reference) : ∀ t ∈ r, Usable F t ∧ done ≤ t := by
  rw [monotonicBytesTotal, max_eq_right hdone.nonneg, max_eq_right hreference.nonneg] at h
  obtain ⟨⟨adjusted, flag⟩, hadjusted, h⟩ := Transition.bind_eq_ok.mp h
  have h := Except.ok.inj h
  intro t ht
  rw [← h] at ht
  obtain ⟨x, hx, rfl⟩ := Option.map_eq_some_iff.mp ht
  have hmem := List.min?_mem hx
  have husable : Usable F x := by
    rcases List.mem_append.mp hmem with hmem | hmem
    · rcases List.mem_append.mp hmem with hmem | hmem
      · exact usable_applyReference hadjusted htotal hreference x (mem_candidates hmem)
      · obtain rfl : reference = x := by simpa using mem_candidates hmem
        exact hreference
    · exact hprevious x (mem_candidates hmem)
  exact ⟨hdone.max husable, le_max_left done x⟩

theorem exists_monotonic (h : Usable F reference) (done : Int) (total previousMax : Option Int) :
    ∃ r, monotonicBytesTotal F done total previousMax reference = .ok r := by
  obtain ⟨r, hr⟩ := exists_applyReference h total
  rw [monotonicBytesTotal, max_eq_right h.nonneg]
  exact ⟨_, Transition.bind_eq_ok.mpr ⟨r, hr, rfl⟩⟩

/-- From the second schema version on, the largest total so far is what is left. -/
theorem monotonic_previous {done previous : Int} (hdone : 0 ≤ done) :
    monotonicBytesTotal F done none (some previous) 0 =
      .ok (if credibleBytesTotal done previous then some (max done previous) else none) := by
  rw [monotonicBytesTotal, max_eq_right hdone]
  have hpos : credibleBytesTotal done previous = true → 0 < previous := fun h =>
    ((credible_iff hdone).mp h).1
  have hcandidates : candidates done (some previous) =
      if credibleBytesTotal done previous then [previous] else [] := by
    cases hcredible : credibleBytesTotal done previous with
    | true => simp [candidates, hcredible, hpos hcredible]
    | false => simp [candidates, hcredible]
  show Except.ok _ = _
  rw [show candidates done (some (max 0 0)) = [] by simp [candidates], hcandidates]
  cases credibleBytesTotal done previous with
  | true => simp [candidates]
  | false => simp [candidates]

end Numbers

/-! ## Payloads that are not consistent -/

section Flaws

variable (F : FloatFormat) (status : String) (c : Counters)

/-- No total is left below the second schema version: none is stated, or what is stated is given up
while data is uploaded. -/
def Unsettled : Prop :=
  (c.known = false ∧ ¬ (c.phase = "uploading" ∧ c.done < c.hashed)) ∨
    (c.known = true ∧ 0 < c.total ∧ c.phase = "uploading" ∧ c.estimated ≤ 0 ∧
      isActive status = true ∧
        (exceedsReference F c.total c.reference = .ok true ∨ c.total ≤ c.done))

/-- More is done than the reference says that becomes the total. -/
structure Overtaken : Prop where
  schema : c.schema < 2
  reference : 0 < c.reference
  done : c.reference < c.done
  prevMax : c.prevMax = 0
  unsettled : Unsettled F status c

/-- From the second schema version on, the largest total so far happens to be the reference. -/
structure Mislabelled : Prop where
  schema : 2 ≤ c.schema
  done : 0 < c.done
  previous : credibleBytesTotal c.done c.prevMax = true
  same : max c.done c.prevMax = c.reference
  unsettled : c.known = false ∨ credibleBytesTotal c.done c.total = false

end Flaws

/-! ## The total of a lane -/

section Settle

variable {F : FloatFormat} {status : String} {c : Counters}

structure Settled.Sound (F : FloatFormat) (c : Counters) (t : Settled) : Prop where
  known : t.known = true → ∃ total, t.total = some total ∧ Usable F total ∧ c.done ≤ total
  reference : t.reference = true → c.schema < 2

variable {t t' : Settled}

/-- What the cap leaves: the total, or the reference for a total that exceeds it. -/
theorem capByReference_spec (hc : c.Sane F) (h : capByReference F c = .ok t) :
    ∃ total reference, t = ⟨some total, c.known, reference⟩ ∧ Usable F total ∧
      (total = c.total ∧ reference = false ∧
          (c.schema < 2 → c.known = true → 0 < c.total → 0 < c.reference →
            exceedsReference F c.total c.reference ≠ .ok true) ∨
        total = c.reference ∧ c.schema < 2 ∧ 0 < c.reference ∧ 0 < c.total ∧
          exceedsReference F c.total c.reference = .ok true) := by
  rw [capByReference] at h
  split at h
  · rename_i hcase
    obtain ⟨hschema, hknown, htotal, hreference⟩ := hcase
    obtain ⟨⟨total, reference⟩, hr, h⟩ := Transition.bind_eq_ok.mp h
    have h := Except.ok.inj h
    rcases applyReference_spec hr hreference.le with heq | ⟨heq, -, -, hexceeds⟩
    · cases heq
      refine ⟨c.total, false, by rw [← h, hknown]; rfl, hc.total, .inl ⟨rfl, rfl, fun _ _ _ _ => ?_⟩⟩
      intro hexceeds
      rw [applyReferenceBytesTotal, max_eq_right hreference.le,
        if_neg (by omega), hexceeds] at hr
      have hsome := Except.ok.inj hr
      simp at hsome
    · cases heq
      exact ⟨c.reference, true, by rw [← h, hknown]; rfl, hc.reference,
        .inr ⟨rfl, hschema, hreference, htotal, hexceeds⟩⟩
  · rename_i hcase
    refine ⟨c.total, false, (Except.ok.inj h).symm, hc.total, .inl ⟨rfl, rfl, ?_⟩⟩
    exact fun hschema hknown htotal hreference =>
      absurd ⟨hschema, hknown, htotal, hreference⟩ hcase

/-- A settled total is usable, and of the reference only below the second schema version. -/
structure Settled.Usable (F : FloatFormat) (c : Counters) (t : Settled) : Prop where
  total : ∀ n ∈ t.total, LaneProgress.Usable F n
  reference : t.reference = true → c.schema < 2
  zero : t.known = true → t.isPositive = false → c.done = 0 ∧ t.total = some 0

theorem usable_capByReference (hc : c.Sane F) (h : capByReference F c = .ok t) : t.Usable F c := by
  obtain ⟨total, reference, rfl, husable, hcase⟩ := capByReference_spec hc h
  refine ⟨fun n hn => ?_, fun href => ?_, fun hknown hpositive => ?_⟩
  · obtain rfl : total = n := by simpa using hn
    exact husable
  · rcases hcase with ⟨-, rfl, -⟩ | ⟨-, hschema, -⟩
    · cases href
    · exact hschema
  · have hle : total ≤ 0 := by
      have hknown' : c.known = true := hknown
      simpa [Settled.isPositive, hknown'] using hpositive
    rcases hcase with ⟨rfl, -, -⟩ | ⟨rfl, -, hpos, -⟩
    · have hzero : c.total = 0 := le_antisymm hle husable.nonneg
      exact ⟨hc.zero hknown hzero, congrArg some hzero⟩
    · omega

theorem usable_dropIncredible (hc : c.Sane F) (h : t.Usable F c) :
    (dropIncredible status c t).Usable F c := by
  have hnone : ∀ r : Bool, (r = true → c.schema < 2) → Settled.Usable F c ⟨none, false, r⟩ := by
    intro r hr
    refine ⟨fun n hn => ?_, hr, fun hknown => ?_⟩
    · cases hn
    · cases hknown
  rw [dropIncredible]
  split
  · rename_i hcase
    split
    · rename_i hhashed
      refine ⟨fun n hn => ?_, h.reference, fun _ hpositive => ?_⟩
      · obtain rfl : c.hashed = n := by simpa using hn
        exact hc.hashed
      · have hle : c.hashed ≤ 0 := by simpa [Settled.isPositive] using hpositive
        have := hhashed.2
        omega
    · split
      · exact hnone _ h.reference
      · exact h
  · split
    · exact hnone _ h.reference
    · split
      · rename_i hpositive
        split
        · rename_i hreference
          refine ⟨fun n hn => ?_, fun _ => hreference.1, fun _ hzero => ?_⟩
          · obtain rfl : c.reference = n := by simpa using hn
            exact hc.reference
          · have hknown : t.known = true := by
              have := hpositive.1
              rw [Settled.isPositive, Bool.and_eq_true] at this
              exact this.1
            have hle : c.reference ≤ 0 := by simpa [Settled.isPositive, hknown] using hzero
            have := hreference.2
            omega
        · exact hnone _ h.reference
      · exact h

theorem usable_monotonicReference (hc : c.Sane F) : Usable F (monotonicReference c) := by
  rw [monotonicReference]
  split
  · exact hc.reference
  · exact usable_zero

theorem usable_previousMax (hc : c.Sane F) :
    ∀ n ∈ (if c.prevMax = 0 then none else some c.prevMax), Usable F n := by
  intro n hn
  split at hn
  · cases hn
  · obtain rfl : c.prevMax = n := by simpa using hn
    exact hc.prevMax

/-- The two ways to a total that is not consistent. -/
def Settled.EndsBadly (c : Counters) (t : Settled) : Prop :=
  (t.known = false ∧ c.schema < 2 ∧ 0 < c.reference ∧ c.reference < c.done ∧ c.prevMax = 0) ∨
    (t.isPositive = false ∧ 2 ≤ c.schema ∧ 0 < c.done ∧
      credibleBytesTotal c.done c.prevMax = true ∧ max c.done c.prevMax = c.reference)

theorem sound_keepMonotonic (hc : c.Sane F) (ht : t.Usable F c) (h : keepMonotonic F c t = .ok t')
    (hbad : ¬ t.EndsBadly c) : t'.Sound F c := by
  have hmonotonic := usable_monotonicReference hc
  rw [keepMonotonic] at h
  split at h
  · obtain ⟨r, hr, h⟩ := Transition.bind_eq_ok.mp h
    cases r with
    | none =>
      rw [← Except.ok.inj h]
      exact ⟨fun hknown => (by cases hknown), ht.reference⟩
    | some total =>
      have hspec := monotonic_spec hr hc.done ht.total (usable_previousMax hc) hmonotonic total rfl
      rw [← Except.ok.inj h]
      exact ⟨fun _ => ⟨total, rfl, hspec.1, hspec.2⟩, ht.reference⟩
  · rename_i hpositive
    have hpositive := eq_false_of_ne_true hpositive
    have hunchanged : t.known = true → ∃ total, t.total = some total ∧ Usable F total ∧
        c.done ≤ total := by
      intro hknown
      obtain ⟨hdone, htotal⟩ := ht.zero hknown hpositive
      exact ⟨0, htotal, usable_zero, hdone.le⟩
    split at h
    · rename_i hdone
      obtain ⟨r, hr, h⟩ := Transition.bind_eq_ok.mp h
      cases r with
      | none =>
        rw [← Except.ok.inj h]
        exact ⟨hunchanged, ht.reference⟩
      | some total =>
        have hspec := monotonic_spec hr hc.done (fun n hn => by cases hn) (fun n hn => by
            obtain rfl : c.prevMax = n := by simpa using hn
            exact hc.prevMax) hmonotonic total rfl
        cases hcredible : credibleBytesTotal c.done total with
        | false =>
          simp only [hcredible] at h
          rw [← Except.ok.inj h]
          exact ⟨hunchanged, ht.reference⟩
        | true =>
          simp only [hcredible, if_true] at h
          rw [← Except.ok.inj h]
          refine ⟨fun _ => ⟨total, rfl, hspec.1, hspec.2⟩, fun href => ?_⟩
          rw [Bool.and_eq_true, decide_eq_true_eq, decide_eq_true_eq] at href
          -- From the second version on the total is the largest one so far.
          by_contra hschema
          rw [monotonicReference, if_neg hschema, monotonic_previous hc.done.nonneg] at hr
          cases hprevious : credibleBytesTotal c.done c.prevMax with
          | false => simp [hprevious] at hr
          | true =>
            have htotal : max c.done c.prevMax = total := by simpa [hprevious] using hr
            exact hbad (.inr ⟨hpositive, not_lt.mp hschema, hdone.1, hprevious,
              htotal.trans href.2⟩)
    · rename_i hprevious
      split at h
      · rename_i hcase
        obtain ⟨hschema, hreference, hdone, hknown⟩ := hcase
        rw [← Except.ok.inj h]
        refine ⟨fun _ => ⟨c.reference, rfl, hc.reference, ?_⟩, fun _ => hschema⟩
        by_contra hlt
        have hprevMax : c.prevMax = 0 := by
          have := hc.prevMax.nonneg
          omega
        exact hbad (.inl ⟨hknown, hschema, hreference, not_le.mp hlt, hprevMax⟩)
      · rw [← Except.ok.inj h]
        exact ⟨hunchanged, ht.reference⟩

theorem Settled.Usable.exists_total (h : t.Usable F c) (hknown : t.known = true) :
    ∃ total, t.total = some total := by
  cases htotal : t.total with
  | some total => exact ⟨total, rfl⟩
  | none =>
    have hpositive : t.isPositive = false := by simp [Settled.isPositive, htotal]
    rw [(h.zero hknown hpositive).2] at htotal
    cases htotal

theorem usable_keepMonotonic (hc : c.Sane F) (ht : t.Usable F c)
    (h : keepMonotonic F c t = .ok t') :
    (∀ n ∈ t'.total, Usable F n) ∧ (t'.known = true → ∃ total, t'.total = some total) := by
  have hmonotonic := usable_monotonicReference hc
  have hone : ∀ {total : Int}, Usable F total → ∀ n ∈ some total, Usable F n := by
    intro total htotal n hn
    obtain rfl : total = n := by simpa using hn
    exact htotal
  rw [keepMonotonic] at h
  split at h
  · obtain ⟨r, hr, h⟩ := Transition.bind_eq_ok.mp h
    cases r with
    | none =>
      rw [← Except.ok.inj h]
      exact ⟨fun n hn => (by cases hn), fun hknown => (by cases hknown)⟩
    | some total =>
      have hspec := monotonic_spec hr hc.done ht.total (usable_previousMax hc) hmonotonic total rfl
      rw [← Except.ok.inj h]
      exact ⟨hone hspec.1, fun _ => ⟨total, rfl⟩⟩
  · split at h
    · obtain ⟨r, hr, h⟩ := Transition.bind_eq_ok.mp h
      cases r with
      | none =>
        rw [← Except.ok.inj h]
        exact ⟨ht.total, ht.exists_total⟩
      | some total =>
        have hspec := monotonic_spec hr hc.done (fun n hn => by cases hn) (hone hc.prevMax)
          hmonotonic total rfl
        cases hcredible : credibleBytesTotal c.done total with
        | false =>
          simp only [hcredible] at h
          rw [← Except.ok.inj h]
          exact ⟨ht.total, ht.exists_total⟩
        | true =>
          simp only [hcredible, if_true] at h
          rw [← Except.ok.inj h]
          exact ⟨hone hspec.1, fun _ => ⟨total, rfl⟩⟩
    · split at h
      · rw [← Except.ok.inj h]
        exact ⟨hone hc.reference, fun _ => ⟨c.reference, rfl⟩⟩
      · rw [← Except.ok.inj h]
        exact ⟨ht.total, ht.exists_total⟩

theorem usable_settleTotal (hc : c.Sane F) (h : settleTotal F status c = .ok t) :
    (∀ n ∈ t.total, Usable F n) ∧ (t.known = true → ∃ total, t.total = some total) := by
  obtain ⟨capped, hcap, hkeep⟩ := Transition.bind_eq_ok.mp h
  exact usable_keepMonotonic hc (usable_dropIncredible hc (usable_capByReference hc hcap)) hkeep

/-- A bad end is one: the total is below what is done, or its reference is none. -/
theorem not_sound_keepMonotonic (hc : c.Sane F) (h : keepMonotonic F c t = .ok t')
    (hbad : t.EndsBadly c) : ¬ t'.Sound F c := by
  intro hsound
  rcases hbad with ⟨hknown, hschema, hreference, hdone, hprevMax⟩ |
    ⟨hpositive, hschema, hdone, hcredible, hsame⟩
  · have hpositive : ¬ t.isPositive = true := by simp [Settled.isPositive, hknown]
    rw [keepMonotonic, if_neg hpositive, if_neg (by omega),
      if_pos ⟨hschema, hreference, by omega, hknown⟩] at h
    rw [← Except.ok.inj h] at hsound
    obtain ⟨total, htotal, -, hle⟩ := hsound.known rfl
    obtain rfl : c.reference = total := by simpa using htotal
    omega
  · have hprevMax := ((credible_iff hc.done.nonneg).mp hcredible).1
    have hmax : credibleBytesTotal c.done (max c.done c.prevMax) = true :=
      credible_of_le hc.done.nonneg (by omega) (le_max_left _ _)
    rw [keepMonotonic, if_neg (by simp [hpositive]), if_pos ⟨hdone, hprevMax⟩, monotonicReference,
      if_neg (by omega), monotonic_previous hc.done.nonneg, hcredible] at h
    obtain ⟨r, hr, h⟩ := Transition.bind_eq_ok.mp h
    obtain rfl : some (max c.done c.prevMax) = r := by simpa using hr
    simp only [hmax, if_true] at h
    rw [← Except.ok.inj h] at hsound
    have hversion := hsound.reference (by
      have := hc.done.nonneg
      rw [Bool.and_eq_true, decide_eq_true_eq, decide_eq_true_eq]
      exact ⟨by omega, hsame⟩)
    omega

/-! ### Payloads that leave no total -/

/-- From the second schema version on, a total is left where one is known that can be. -/
theorem isPositive_dropIncredible (hc : c.Sane F) (hschema : 2 ≤ c.schema) (reference : Bool) :
    (dropIncredible status c ⟨some c.total, c.known, reference⟩).isPositive = false ↔
      c.known = false ∨ credibleBytesTotal c.done c.total = false := by
  have hcredible : credibleBytesTotal c.done c.total = true → 0 < c.total := fun h =>
    ((credible_iff hc.done.nonneg).mp h).1
  have hversion : ¬ c.schema < 2 := not_lt.mpr hschema
  rw [dropIncredible, if_neg fun h => hversion h.1, if_neg fun h => hversion h.1]
  split
  · rename_i hcase
    rw [if_neg fun h => hversion h.1]
    have hnot : credibleBytesTotal c.done c.total = false := by simpa using hcase.2
    simp [Settled.isPositive, hnot]
  · rename_i hcase
    cases hknown : c.known with
    | false => simp [Settled.isPositive]
    | true =>
      cases hcan : credibleBytesTotal c.done c.total with
      | true => simp [Settled.isPositive, hcredible hcan]
      | false =>
        by_contra hpos
        have hpositive : 0 < c.total := by simpa [Settled.isPositive] using hpos
        exact hcase ⟨by simp [Settled.isPositive, hknown, hpositive], by simp [hcan]⟩

/-- Below it, a total that is known is given up only while data is uploaded. -/
theorem known_dropIncredible {total : Int} {reference : Bool} (hschema : c.schema < 2)
    (hreference : 0 < c.reference) (hpos : 0 < total) :
    (dropIncredible status c ⟨some total, true, reference⟩).known = false ↔
      c.phase = "uploading" ∧ total ≤ c.done ∧ c.estimated ≤ 0 ∧ isActive status = true := by
  have hpositive : Settled.isPositive ⟨some total, true, reference⟩ = true := by
    simp [Settled.isPositive, hpos]
  rw [dropIncredible, if_neg (by simp)]
  split
  · rename_i hcase
    obtain ⟨-, hphase, -, hle, hestimated, hactive⟩ := hcase
    have hle : total ≤ c.done := by simpa using hle
    simp [hphase, hle, hestimated, hactive]
  · rename_i hcase
    have hnot : ¬ (c.phase = "uploading" ∧ total ≤ c.done ∧ c.estimated ≤ 0 ∧
        isActive status = true) := by
      rintro ⟨hphase, hle, hestimated, hactive⟩
      exact hcase ⟨hschema, hphase, hpositive, by simpa using hle, hestimated, hactive⟩
    refine iff_of_false ?_ hnot
    split
    · rw [if_pos ⟨hschema, hreference⟩]
      simp
    · simp

theorem unknown_dropIncredible {total : Int} {reference : Bool} (hschema : c.schema < 2)
    (hdone : 0 < c.done) :
    (dropIncredible status c ⟨some total, false, reference⟩).known = false ↔
      ¬ (c.phase = "uploading" ∧ c.done < c.hashed) := by
  rw [dropIncredible, if_pos ⟨hschema, rfl, hdone⟩]
  split
  · rename_i hcase
    simp [hcase.1, hcase.2]
  · rename_i hcase
    refine iff_of_true ?_ hcase
    split
    · rfl
    · rfl

theorem unsettled_iff (hc : c.Sane F) (hschema : c.schema < 2) (hreference : 0 < c.reference)
    (hdone : c.reference < c.done) (h : capByReference F c = .ok t) :
    (dropIncredible status c t).known = false ↔ Unsettled F status c := by
  obtain ⟨total, reference, rfl, husable, hcase⟩ := capByReference_spec hc h
  rw [Unsettled]
  cases hknown : c.known with
  | false =>
    rw [unknown_dropIncredible hschema (by omega)]
    simp
  | true =>
    have hzero : c.total ≠ 0 := fun hzero => by
      have := hc.zero hknown hzero
      omega
    have htotal : 0 < c.total := lt_of_le_of_ne hc.total.nonneg hzero.symm
    have hpos : 0 < total := by
      rcases hcase with ⟨rfl, -, -⟩ | ⟨rfl, -⟩
      · exact htotal
      · exact hreference
    have hle : total ≤ c.done ↔
        exceedsReference F c.total c.reference = .ok true ∨ c.total ≤ c.done := by
      rcases hcase with ⟨rfl, -, hnot⟩ | ⟨rfl, -, -, -, hexceeds⟩
      · exact ⟨.inr, fun hor => hor.resolve_left (hnot hschema hknown htotal hreference)⟩
      · exact ⟨fun _ => .inl hexceeds, fun _ => hdone.le⟩
    rw [known_dropIncredible hschema hreference hpos, hle]
    simp only [reduceCtorEq, false_and, false_or, true_and, htotal]
    exact ⟨fun ⟨hphase, hor, hestimated, hactive⟩ => ⟨hphase, hestimated, hactive, hor⟩,
      fun ⟨hphase, hestimated, hactive, hor⟩ => ⟨hphase, hor, hestimated, hactive⟩⟩

theorem endsBadly_iff (hc : c.Sane F) (h : capByReference F c = .ok t) :
    (dropIncredible status c t).EndsBadly c ↔ Overtaken F status c ∨ Mislabelled c := by
  by_cases hschema : c.schema < 2
  · constructor
    · rintro (⟨hknown, -, hreference, hdone, hprevMax⟩ | ⟨-, hversion, -⟩)
      · exact .inl ⟨hschema, hreference, hdone, hprevMax,
          (unsettled_iff hc hschema hreference hdone h).mp hknown⟩
      · omega
    · rintro (hover | hlabel)
      · exact .inl ⟨(unsettled_iff hc hschema hover.reference hover.done h).mpr hover.unsettled,
          hschema, hover.reference, hover.done, hover.prevMax⟩
      · have := hlabel.schema
        omega
  · have hversion := not_lt.mp hschema
    obtain ⟨total, reference, rfl, -, hcase⟩ := capByReference_spec hc h
    rcases hcase with ⟨rfl, -, -⟩ | ⟨-, hlt, -⟩
    · constructor
      · rintro (⟨-, hlt, -⟩ | ⟨hpositive, -, hdone, hcredible, hsame⟩)
        · exact absurd hlt hschema
        · exact .inr ⟨hversion, hdone, hcredible, hsame,
            (isPositive_dropIncredible hc hversion reference).mp hpositive⟩
      · rintro (hover | hlabel)
        · exact absurd hover.schema hschema
        · exact .inr ⟨(isPositive_dropIncredible hc hversion reference).mpr hlabel.unsettled,
            hversion, hlabel.done, hlabel.previous, hlabel.same⟩
    · exact absurd hlt hschema

theorem settleTotal_sound_iff (hc : c.Sane F) (h : settleTotal F status c = .ok t) :
    t.Sound F c ↔ ¬ Overtaken F status c ∧ ¬ Mislabelled c := by
  obtain ⟨capped, hcap, hkeep⟩ := Transition.bind_eq_ok.mp h
  rw [← not_or, ← endsBadly_iff hc hcap]
  have husable : (dropIncredible status c capped).Usable F c :=
    usable_dropIncredible hc (usable_capByReference hc hcap)
  exact ⟨fun hsound hbad => not_sound_keepMonotonic hc hkeep hbad hsound,
    sound_keepMonotonic hc husable hkeep⟩

theorem exists_settleTotal (hc : c.Sane F) : ∃ t, settleTotal F status c = .ok t := by
  have hcap : ∃ t, capByReference F c = .ok t := by
    rw [capByReference]
    split
    · obtain ⟨r, hr⟩ := exists_applyReference hc.reference (some c.total)
      exact ⟨_, Transition.bind_eq_ok.mpr ⟨r, hr, rfl⟩⟩
    · exact ⟨_, rfl⟩
  obtain ⟨capped, hcap⟩ := hcap
  have hmonotonic := usable_monotonicReference hc
  have hkeep : ∃ t, keepMonotonic F c (dropIncredible status c capped) = .ok t := by
    rw [keepMonotonic]
    split
    · obtain ⟨r, hr⟩ := exists_monotonic hmonotonic c.done (dropIncredible status c capped).total
        (if c.prevMax = 0 then none else some c.prevMax)
      cases r with
      | none => exact ⟨_, Transition.bind_eq_ok.mpr ⟨none, hr, rfl⟩⟩
      | some total => exact ⟨_, Transition.bind_eq_ok.mpr ⟨some total, hr, rfl⟩⟩
    · split
      · obtain ⟨r, hr⟩ := exists_monotonic hmonotonic c.done none (some c.prevMax)
        cases r with
        | none => exact ⟨_, Transition.bind_eq_ok.mpr ⟨none, hr, rfl⟩⟩
        | some total =>
          cases hcredible : credibleBytesTotal c.done total with
          | true =>
            exact ⟨_, Transition.bind_eq_ok.mpr ⟨some total, hr, by simp [hcredible]; rfl⟩⟩
          | false => exact ⟨_, Transition.bind_eq_ok.mpr ⟨some total, hr, by simp [hcredible]; rfl⟩⟩
      · split
        · exact ⟨_, rfl⟩
        · exact ⟨_, rfl⟩
  obtain ⟨t, ht⟩ := hkeep
  exact ⟨t, Transition.bind_eq_ok.mpr ⟨capped, hcap, ht⟩⟩

end Settle

/-! ## Payloads as they are read -/

section Payload

variable {F : FloatFormat} {progress : Dict} {referenceBytesTotal : Int}

variable {r : Option Int} {key : String}

theorem counter_usable {n : Int} (h : counter F progress key = .ok n) : Usable F n :=
  Usable.of_progressInt h

theorem counterOr_usable {key other : String} {n : Int}
    (h : counterOr F progress key other = .ok n) : Usable F n := by
  obtain ⟨k, hk, h⟩ := Transition.bind_eq_ok.mp h
  split at h
  · exact counter_usable h
  · cases h
    exact counter_usable hk

theorem optional_usable (h : optionalProgressInt F progress key = .ok r) : ∀ n ∈ r, Usable F n := by
  rw [optionalProgressInt] at h
  intro n hn
  split at h
  · rw [← Except.ok.inj h] at hn
    cases hn
  · obtain ⟨k, hk, h⟩ := Transition.bind_eq_ok.mp h
    rw [← Except.ok.inj h] at hn
    obtain rfl : k = n := by simpa using hn
    exact counter_usable hk

theorem positive_usable (h : positive F progress key = .ok r) : ∀ n ∈ r, Usable F n := by
  obtain ⟨k, hk, h⟩ := Transition.bind_eq_ok.mp h
  intro n hn
  rw [← Except.ok.inj h] at hn
  split at hn
  · cases hn
  · obtain rfl : k = n := by simpa using hn
    exact counter_usable hk

theorem laneDone_nonneg {schema bytesDone uploaded hashed cached : Int} {processed : Option Int}
    (hdone : 0 ≤ bytesDone) (huploaded : 0 ≤ uploaded) (hhashed : 0 ≤ hashed)
    (hcached : 0 ≤ cached) (hprocessed : ∀ n ∈ processed, 0 ≤ n) :
    0 ≤ laneDone progress schema bytesDone uploaded hashed cached processed := by
  have hget : 0 ≤ processed.getD 0 := by
    cases processed with
    | none => exact le_refl 0
    | some n => exact hprocessed n rfl
  rw [laneDone]
  split
  · split
    · exact hget
    · exact hdone
  · split
    · cases processed with
      | none =>
        rw [backupDone]
        split
        · exact huploaded
        · split
          · omega
          · exact hdone
      | some n => exact hprocessed n rfl
    · split
      · split
        · exact hget
        · split
          · omega
          · exact huploaded
      · exact hdone

theorem laneDone_zero (schema : Int) {processed : Option Int} (h : processed.getD 0 = 0) :
    laneDone progress schema 0 0 0 0 processed = 0 := by
  have hsome : ∀ n, processed = some n → n = 0 := by
    rintro n rfl
    exact h
  rw [laneDone]
  split
  · simp [h]
  · split
    · cases processed with
      | none => simp [backupDone]
      | some n => exact hsome n rfl
    · simp [h]

/-- Every counter of what is processed is zero, or there is none. -/
def NothingProcessed (F : FloatFormat) (progress : Dict) : Prop :=
  ∀ key ∈ ["bytes_done", "processed_bytes", "uploaded_bytes", "hashed_bytes", "cached_bytes"],
    counter F progress key = .ok 0

/-- What a payload promises: percentages are percentages, a total of zero is stated where nothing
is processed, and what is done has a float next to it. -/
structure Promised (F : FloatFormat) (progress : Dict) (referenceBytesTotal : Int) : Prop where
  percents : ∀ key ∈ ["kopia_percent", "percent"],
    F.progressNumber (progress.get key) = .ok none ∨
      ∃ x, F.progressNumber (progress.get key) = .ok (some (.finite x)) ∧ 0 ≤ x ∧ x ≤ 100
  zero : explicitZeroTotal F progress = .ok true → NothingProcessed F progress
  done : ∀ c, readCounters F progress referenceBytesTotal = .ok c → F.Fits c.done

theorem optional_zero (h : optionalProgressInt F progress key = .ok r)
    (hzero : counter F progress key = .ok 0) : r.getD 0 = 0 := by
  rw [optionalProgressInt] at h
  split at h
  · rw [← Except.ok.inj h]
    rfl
  · rw [hzero] at h
    rw [← Except.ok.inj h]
    rfl

theorem sane_readCounters (hpromised : Promised F progress referenceBytesTotal)
    (hreference : F.Fits (max 0 referenceBytesTotal)) {c : Counters}
    (h : readCounters F progress referenceBytesTotal = .ok c) : c.Sane F := by
  have hfits := hpromised.done c h
  obtain ⟨version, -, h⟩ := Transition.bind_eq_ok.mp h
  obtain ⟨bytesDone, hdone, h⟩ := Transition.bind_eq_ok.mp h
  obtain ⟨explicitZero, hexplicit, h⟩ := Transition.bind_eq_ok.mp h
  obtain ⟨bytesTotal, htotal, h⟩ := Transition.bind_eq_ok.mp h
  obtain ⟨uploaded, huploaded, h⟩ := Transition.bind_eq_ok.mp h
  obtain ⟨hashed, hhashed, h⟩ := Transition.bind_eq_ok.mp h
  obtain ⟨cached, hcached, h⟩ := Transition.bind_eq_ok.mp h
  obtain ⟨processed, hprocessed, h⟩ := Transition.bind_eq_ok.mp h
  obtain ⟨estimated, -, h⟩ := Transition.bind_eq_ok.mp h
  obtain ⟨total, hfallback, h⟩ := Transition.bind_eq_ok.mp h
  obtain ⟨stated, hstated, h⟩ := Transition.bind_eq_ok.mp h
  obtain ⟨prevMax, hprevMax, h⟩ := Transition.bind_eq_ok.mp h
  have husable : Usable F total := by
    rw [laneTotal] at hfallback
    split at hfallback
    · exact counterOr_usable hfallback
    · cases hfallback
      exact counter_usable htotal
  have hreferenceUsable : Usable F (max 0 (max referenceBytesTotal stated)) := by
    rw [← max_assoc]
    exact Usable.max ⟨le_max_left 0 _, hreference⟩ (counter_usable hstated)
  have hnonneg := @laneDone_nonneg progress (if version = 0 then 1 else version) _ _ _ _ _
    (counter_usable hdone).nonneg (counter_usable huploaded).nonneg (counter_usable hhashed).nonneg
    (counter_usable hcached).nonneg fun n hn => (optional_usable hprocessed n hn).nonneg
  cases h
  refine ⟨⟨hnonneg, hfits⟩, husable, counter_usable hhashed, hreferenceUsable,
    counter_usable hprevMax, fun hunknown => ?_, fun hknown hzero => ?_⟩
  · simp only at hunknown ⊢
    split at hunknown
    · have hle : total ≤ 0 := by simpa using (Bool.or_eq_false_iff.mp hunknown).1
      exact le_antisymm hle husable.nonneg
    · cases hunknown
  · simp only at hknown hzero ⊢
    subst hzero
    split at hknown
    · have hexplicit' : explicitZero = true := by simpa using hknown
      rw [hexplicit'] at hexplicit
      have hnothing := hpromised.zero hexplicit
      have hsame : ∀ {key : String} {n : Int}, counter F progress key = .ok n →
          counter F progress key = .ok 0 → n = 0 := fun hn h0 =>
        Except.ok.inj (hn.symm.trans h0)
      rw [hsame hdone (hnothing _ (by simp)), hsame huploaded (hnothing _ (by simp)),
        hsame hhashed (hnothing _ (by simp)), hsame hcached (hnothing _ (by simp))]
      exact laneDone_zero _ (optional_zero hprocessed (hnothing _ (by simp)))
    · rename_i hpos
      rw [laneTotal, if_neg hpos] at hfallback
      have := Except.ok.inj hfallback
      omega

/-! ## Lanes -/

def CountersRead (F : FloatFormat) (progress : Dict) : Prop :=
  ∃ entries, otherCounters F progress ⟨none, none, none, none⟩ = .ok entries

def SpeedsRead (F : FloatFormat) (progress : Dict) : Prop :=
  ∃ speeds, readSpeeds F progress 1 = .ok speeds

theorem exists_readSpeeds {schema schema' : Int}
    (h : ∃ speeds, readSpeeds F progress schema = .ok speeds) :
    ∃ speeds, readSpeeds F progress schema' = .ok speeds := by
  obtain ⟨speeds, h⟩ := h
  obtain ⟨processing, hprocessing, h⟩ := Transition.bind_eq_ok.mp h
  obtain ⟨upload, hupload, h⟩ := Transition.bind_eq_ok.mp h
  obtain ⟨legacy, hlegacy, h⟩ := Transition.bind_eq_ok.mp h
  obtain ⟨eta, heta, -⟩ := Transition.bind_eq_ok.mp h
  rw [readSpeeds, hprocessing, hupload, hlegacy, heta]
  exact ⟨_, rfl⟩

def Speeds.Usable (F : FloatFormat) (speeds : Speeds) : Prop :=
  (∀ n ∈ speeds.speed, LaneProgress.Usable F n) ∧
    (∀ n ∈ speeds.processing, LaneProgress.Usable F n) ∧
      (∀ n ∈ speeds.upload, LaneProgress.Usable F n) ∧ ∀ n ∈ speeds.eta, LaneProgress.Usable F n

theorem speeds_none : Speeds.Usable F ⟨none, none, none, none⟩ := by
  refine ⟨?_, ?_, ?_, ?_⟩ <;> simp

theorem usable_readSpeeds {schema : Int} {speeds : Speeds}
    (h : readSpeeds F progress schema = .ok speeds) : speeds.Usable F := by
  obtain ⟨processing, hprocessing, h⟩ := Transition.bind_eq_ok.mp h
  obtain ⟨upload, hupload, h⟩ := Transition.bind_eq_ok.mp h
  obtain ⟨legacy, hlegacy, h⟩ := Transition.bind_eq_ok.mp h
  obtain ⟨eta, heta, h⟩ := Transition.bind_eq_ok.mp h
  cases h
  refine ⟨fun n hn => ?_, fun n hn => ?_, optional_usable hupload, optional_usable heta⟩
  · simp only at hn
    split at hn
    · exact optional_usable hlegacy n hn
    · exact optional_usable hupload n hn
  · obtain ⟨stated, hstated, hprocessing⟩ := Transition.bind_eq_ok.mp hprocessing
    split at hprocessing
    · exact optional_usable hprocessing n hn
    · cases hprocessing
      exact optional_usable hstated n hn

theorem otherCounters_spec {speeds speeds' : Speeds} {entries : List (String × Option Int)}
    (h : otherCounters F progress speeds = .ok entries) :
    (∃ entries', otherCounters F progress speeds' = .ok entries') ∧
      (speeds.Usable F → ∀ entry ∈ entries, ∀ n ∈ entry.2, 0 ≤ n) := by
  obtain ⟨uploadedBytes, h1, h⟩ := Transition.bind_eq_ok.mp h
  obtain ⟨hashedBytes, h2, h⟩ := Transition.bind_eq_ok.mp h
  obtain ⟨uploadedCount, h3, h⟩ := Transition.bind_eq_ok.mp h
  obtain ⟨hashedCount, h4, h⟩ := Transition.bind_eq_ok.mp h
  obtain ⟨estimatedBytes, h5, h⟩ := Transition.bind_eq_ok.mp h
  obtain ⟨cachedBytes, h6, h⟩ := Transition.bind_eq_ok.mp h
  obtain ⟨cachedCount, h7, h⟩ := Transition.bind_eq_ok.mp h
  obtain ⟨processedEntryCount, h8, h⟩ := Transition.bind_eq_ok.mp h
  obtain ⟨estimatedFileCount, h9, h⟩ := Transition.bind_eq_ok.mp h
  obtain ⟨completedDirectoryCount, h10, h⟩ := Transition.bind_eq_ok.mp h
  obtain ⟨processedCount, h11, h⟩ := Transition.bind_eq_ok.mp h
  obtain ⟨totalCount, h12, h⟩ := Transition.bind_eq_ok.mp h
  obtain ⟨pathIndex, h13, h⟩ := Transition.bind_eq_ok.mp h
  obtain ⟨pathTotal, h14, h⟩ := Transition.bind_eq_ok.mp h
  constructor
  · rw [otherCounters, h1, h2, h3, h4, h5, h6, h7, h8, h9, h10, h11, h12, h13, h14]
    exact ⟨_, rfl⟩
  · rintro ⟨hspeed, hprocessing, hupload, heta⟩ entry hentry n hn
    have hone : ∀ {k : Int}, Usable F k → n ∈ some k → Usable F n := by
      intro k hk hmem
      obtain rfl : k = n := by simpa using hmem
      exact hk
    rw [← Except.ok.inj h] at hentry
    refine Usable.nonneg (F := F) ?_
    simp only [List.mem_cons, List.not_mem_nil, or_false] at hentry
    rcases hentry with rfl | rfl | rfl | rfl | rfl | rfl | rfl | rfl | rfl | rfl | rfl | rfl |
      rfl | rfl | rfl | rfl | rfl | rfl | rfl | rfl
    · exact hone (counter_usable h1) hn
    · exact optional_usable h2 n hn
    · exact hone (counter_usable h3) hn
    · exact optional_usable h4 n hn
    · exact hone (counter_usable h5) hn
    · exact optional_usable h6 n hn
    · exact optional_usable h7 n hn
    · exact optional_usable h8 n hn
    · exact optional_usable h9 n hn
    · exact optional_usable h10 n hn
    · exact hone (counterOr_usable h11) hn
    · exact hone (counterOr_usable h12) hn
    · exact hspeed n hn
    · exact hprocessing n hn
    · exact hprocessing n hn
    · exact hupload n hn
    · exact heta n hn
    · exact heta n hn
    · exact positive_usable h13 n hn
    · exact positive_usable h14 n hn

theorem lanePercent_spec (hpromised : Promised F progress referenceBytesTotal) {done : Int}
    {t : Settled} {r : Option PyFloat × Option String}
    (h : lanePercent F progress done t = .ok r) :
    ∀ p ∈ r.1, ∃ x, p = .finite x ∧ 0 ≤ x ∧ x ≤ 100 := by
  have hraw : ∀ key ∈ ["kopia_percent", "percent"], ∀ p,
      F.progressNumber (progress.get key) = .ok (some p) → ∃ x, p = .finite x ∧ 0 ≤ x ∧ x ≤ 100 := by
    intro key hkey p hp
    rcases hpromised.percents key hkey with hnone | ⟨x, hx, hrange⟩
    · rw [hnone] at hp
      cases hp
    · rw [hx] at hp
      exact ⟨x, (Option.some.inj (Except.ok.inj hp)).symm, hrange⟩
  intro p hp
  rw [lanePercent] at h
  split at h
  · obtain ⟨q, hq, h⟩ := Transition.bind_eq_ok.mp h
    rw [← Except.ok.inj h] at hp
    obtain rfl : PyFloat.finite q = p := by simpa using hp
    exact ⟨q, rfl, FloatFormat.percentOf_range hq⟩
  · obtain ⟨first, hfirst, h⟩ := Transition.bind_eq_ok.mp h
    cases first with
    | some q =>
      rw [← Except.ok.inj h] at hp
      obtain rfl : q = p := by simpa using hp
      exact hraw "kopia_percent" (by simp) q hfirst
    | none =>
      obtain ⟨second, hsecond, h⟩ := Transition.bind_eq_ok.mp h
      cases second with
      | some q =>
        rw [← Except.ok.inj h] at hp
        obtain rfl : q = p := by simpa using hp
        exact hraw "percent" (by simp) q hsecond
      | none =>
        rw [← Except.ok.inj h] at hp
        cases hp

theorem exists_lanePercent (hpromised : Promised F progress referenceBytesTotal) {c : Counters}
    (hc : c.Sane F) {t : Settled} (ht : t.Sound F c) :
    ∃ r, lanePercent F progress c.done t = .ok r := by
  have hraw : ∀ key ∈ ["kopia_percent", "percent"], ∃ r,
      F.progressNumber (progress.get key) = .ok r := by
    intro key hkey
    rcases hpromised.percents key hkey with hnone | ⟨x, hx, -⟩
    · exact ⟨_, hnone⟩
    · exact ⟨_, hx⟩
  rw [lanePercent]
  cases hpositive : t.isPositive with
  | true =>
    have hboth := hpositive
    rw [Settled.isPositive, Bool.and_eq_true] at hboth
    obtain ⟨total, htotal, husable, -⟩ := ht.known hboth.1
    have hpos : 0 < total := by simpa [htotal] using hboth.2
    obtain ⟨p, hp⟩ := FloatFormat.exists_percentOf hpos hc.done.fits husable.fits
    rw [htotal]
    exact ⟨_, Transition.bind_eq_ok.mpr ⟨p, hp, rfl⟩⟩
  | false =>
    obtain ⟨first, hfirst⟩ := hraw "kopia_percent" (by simp)
    obtain ⟨second, hsecond⟩ := hraw "percent" (by simp)
    cases first with
    | some q => exact ⟨_, Transition.bind_eq_ok.mpr ⟨_, hfirst, rfl⟩⟩
    | none =>
      cases second with
      | some q =>
        exact ⟨_, Transition.bind_eq_ok.mpr
          ⟨_, hfirst, Transition.bind_eq_ok.mpr ⟨_, hsecond, rfl⟩⟩⟩
      | none =>
        exact ⟨_, Transition.bind_eq_ok.mpr
          ⟨_, hfirst, Transition.bind_eq_ok.mpr ⟨_, hsecond, rfl⟩⟩⟩

theorem capPercent_spec {status : String} {percent : Option PyFloat}
    (h : ∀ p ∈ percent, ∃ x, p = .finite x ∧ 0 ≤ x ∧ x ≤ 100) :
    ∀ p ∈ capPercent status percent, ∃ x, p = .finite x ∧ 0 ≤ x ∧ x ≤ 100 ∧
      (isActive status = true → x < 100) := by
  intro p hp
  rw [capPercent] at hp
  split at hp
  · obtain rfl : PyFloat.finite 99 = p := by simpa using hp
    exact ⟨99, rfl, by norm_num, by norm_num, fun _ => by norm_num⟩
  · rename_i hcase
    obtain ⟨x, rfl, hnonneg, hle⟩ := h p hp
    refine ⟨x, rfl, hnonneg, hle, fun hactive => ?_⟩
    by_contra hnot
    obtain rfl : percent = some (.finite x) := hp
    exact hcase ⟨hactive, by simpa [PyFloat.isComplete] using hnot⟩

end Payload

/-! ## Consistent lanes -/

section Consistent

variable {F : FloatFormat} {progress : Dict} {status : String} {referenceBytesTotal : Int}

/-- Every counter that the lane of a transfer is made of can be read. -/
structure TransferRead (F : FloatFormat) (progress : Dict) (referenceBytesTotal : Int) : Prop where
  counters : ∃ c, readCounters F progress referenceBytesTotal = .ok c
  speeds : SpeedsRead F progress
  others : CountersRead F progress

def Flawless (F : FloatFormat) (progress : Dict) (status : String) (referenceBytesTotal : Int) :
    Prop :=
  ∀ c, readCounters F progress referenceBytesTotal = .ok c →
    ¬ Overtaken F status c ∧ ¬ Mislabelled c

def Answers (status : String) (answer : Except String Lane) : Prop :=
  ∃ lane, answer = .ok lane ∧ lane.Consistent status

section

variable (hpromised : Promised F progress referenceBytesTotal)

include hpromised

theorem transferLane_consistent
    {c : Counters} (hc : c.Sane F) {t : Settled} (ht : t.Sound F c) (hspeeds : SpeedsRead F progress)
    (hothers : CountersRead F progress)
    (hread : readCounters F progress referenceBytesTotal = .ok c)
    (hsettle : settleTotal F status c = .ok t) :
    Answers status (transferLane F progress status referenceBytesTotal) := by
  obtain ⟨⟨percent, source⟩, hpercent⟩ := exists_lanePercent hpromised hc ht
  obtain ⟨speeds, hspeeds⟩ : ∃ speeds, readSpeeds F progress c.schema = .ok speeds :=
    exists_readSpeeds hspeeds
  obtain ⟨_, hothers⟩ := hothers
  obtain ⟨entries, hentries⟩ : ∃ entries, otherCounters F progress speeds = .ok entries :=
    (otherCounters_spec hothers).1
  have hrange : ∀ p ∈ capPercent status percent, ∃ x, p = .finite x ∧ 0 ≤ x ∧ x ≤ 100 ∧
      (isActive status = true → x < 100) := capPercent_spec (lanePercent_spec hpromised hpercent)
  have hnonneg := (@otherCounters_spec _ _ _ speeds _ hentries).2 (usable_readSpeeds hspeeds)
  refine ⟨_, Transition.bind_eq_ok.mpr ⟨c, hread, Transition.bind_eq_ok.mpr ⟨t, hsettle,
    Transition.bind_eq_ok.mpr ⟨_, hpercent, Transition.bind_eq_ok.mpr ⟨speeds, hspeeds,
      Transition.bind_eq_ok.mpr ⟨entries, hentries, rfl⟩⟩⟩⟩⟩, ?_⟩
  have htotal : ∀ n ∈ (if t.known then t.total else none), Usable F n ∧ c.done ≤ n := by
    intro n hn
    split at hn
    · rename_i hknown
      obtain ⟨total, heq, husable, hle⟩ := ht.known hknown
      rw [heq] at hn
      obtain rfl : total = n := by simpa using hn
      exact ⟨husable, hle⟩
    · cases hn
  have hsome : t.known = true → ∃ n, t.total = some n := fun hknown => by
    obtain ⟨total, heq, -⟩ := ht.known hknown
    exact ⟨total, heq⟩
  constructor
  · exact hc.done.nonneg
  · exact fun n hn => (htotal n hn).1.nonneg
  · exact hnonneg
  · intro hknown
    cases hbytes : (if t.known then t.total else none) with
    | none => simp [hbytes] at hknown
    | some n => exact ⟨n, rfl, (htotal n hbytes).2⟩
  · cases hknown : t.known with
    | false => simp
    | true =>
      obtain ⟨n, hn⟩ := hsome hknown
      simp [hn]
  · exact hrange
  · intro href v hv
    obtain rfl : c.schema = v := by simpa using hv
    exact ht.reference href

theorem sound_of_consistent (hreference : F.Fits (max 0 referenceBytesTotal))
    (h : Answers status (transferLane F progress status referenceBytesTotal)) :
    TransferRead F progress referenceBytesTotal ∧
      Flawless F progress status referenceBytesTotal := by
  obtain ⟨lane, h, hlane⟩ := h
  obtain ⟨c, hread, h⟩ := Transition.bind_eq_ok.mp h
  obtain ⟨t, hsettle, h⟩ := Transition.bind_eq_ok.mp h
  obtain ⟨⟨percent, source⟩, hpercent, h⟩ := Transition.bind_eq_ok.mp h
  obtain ⟨speeds, hspeeds, h⟩ := Transition.bind_eq_ok.mp h
  obtain ⟨entries, hentries, h⟩ := Transition.bind_eq_ok.mp h
  have hc := sane_readCounters hpromised hreference hread
  cases h
  refine ⟨⟨⟨c, hread⟩, exists_readSpeeds ⟨speeds, hspeeds⟩, (otherCounters_spec hentries).1⟩, ?_⟩
  intro c' hread'
  obtain rfl := Except.ok.inj (hread.symm.trans hread')
  rw [← settleTotal_sound_iff hc hsettle]
  constructor
  · intro hknown
    obtain ⟨husable, hsome⟩ := usable_settleTotal hc hsettle
    obtain ⟨total, htotal⟩ := hsome hknown
    obtain ⟨n, hn, hle⟩ := hlane.done_le (by simp [hknown, htotal])
    obtain rfl : total = n := by simpa [hknown, htotal] using hn
    exact ⟨total, htotal, husable total htotal, hle⟩
  · exact fun href => hlane.reference href c.schema rfl

theorem transferLane_iff (hreference : F.Fits (max 0 referenceBytesTotal)) :
    Answers status (transferLane F progress status referenceBytesTotal) ↔
      TransferRead F progress referenceBytesTotal ∧
        Flawless F progress status referenceBytesTotal := by
  constructor
  · exact sound_of_consistent hpromised hreference
  · rintro ⟨⟨⟨c, hread⟩, hspeeds, hothers⟩, hflawless⟩
    have hc := sane_readCounters hpromised hreference hread
    obtain ⟨t, hsettle⟩ : ∃ t, settleTotal F status c = .ok t := exists_settleTotal hc
    exact transferLane_consistent hpromised hc
      ((settleTotal_sound_iff hc hsettle).mpr (hflawless c hread)) hspeeds hothers hread hsettle

end

theorem consistent_emptyLane (kopiaPhase : String) : (emptyLane kopiaPhase).Consistent status := by
  constructor <;> simp [emptyLane]

/-- The lane of a payload about the orchestration has no total and no percentage. -/
theorem orchestrationLane_iff : Answers status (orchestrationLane F progress) ↔
      (∃ n, positive F progress "path_index" = .ok n) ∧
        ∃ n, positive F progress "path_total" = .ok n := by
  constructor
  · rintro ⟨lane, h, -⟩
    obtain ⟨pathIndex, hindex, h⟩ := Transition.bind_eq_ok.mp h
    obtain ⟨pathTotal, htotal, -⟩ := Transition.bind_eq_ok.mp h
    exact ⟨⟨pathIndex, hindex⟩, pathTotal, htotal⟩
  · rintro ⟨⟨pathIndex, hindex⟩, pathTotal, htotal⟩
    refine ⟨_, Transition.bind_eq_ok.mpr ⟨pathIndex, hindex,
      Transition.bind_eq_ok.mpr ⟨pathTotal, htotal, rfl⟩⟩, ?_⟩
    have hempty := @consistent_emptyLane status (pyOr (pyOr (progress.get "kopia_phase")
      (progress.get "orchestration_phase")) (.str "orchestration")).strOr
    refine ⟨hempty.done_nonneg, hempty.total_nonneg, ?_, hempty.done_le, hempty.absent,
      hempty.percent, hempty.reference⟩
    intro entry hentry n hn
    simp only [List.mem_cons, List.not_mem_nil, or_false] at hentry
    rcases hentry with rfl | rfl | rfl | rfl | rfl
    · cases hn
    · cases hn
    · cases hn
    · exact (positive_usable hindex n hn).nonneg
    · exact (positive_usable htotal n hn).nonneg

theorem frozenLane_iff {frozenBytesTotal : Int} (h : isFrozen status frozenBytesTotal = true) :
    Answers status (laneFromBytes F progress "done" frozenBytesTotal (some frozenBytesTotal) none
      false 1 (some (.finite 100)) none ⟨none, none, none, none⟩) ↔ CountersRead F progress := by
  rw [isFrozen, Bool.and_eq_true, decide_eq_true_eq, decide_eq_true_eq] at h
  obtain ⟨hstatus, hpos⟩ := h
  have hinactive : isActive status = false := by
    simp only [List.mem_cons, List.not_mem_nil, or_false] at hstatus
    rcases hstatus with rfl | rfl | rfl
    · decide
    · decide
    · decide
  constructor
  · rintro ⟨lane, h, -⟩
    obtain ⟨entries, hentries, -⟩ := Transition.bind_eq_ok.mp h
    exact ⟨entries, hentries⟩
  · rintro ⟨entries, hentries⟩
    refine ⟨_, Transition.bind_eq_ok.mpr ⟨entries, hentries, rfl⟩, ?_⟩
    have hnonneg := (@otherCounters_spec _ _ _ ⟨none, none, none, none⟩ _ hentries).2 speeds_none
    refine ⟨hpos.le, fun t ht => ?_, hnonneg, fun _ => ⟨frozenBytesTotal, rfl, le_refl _⟩, ?_, ?_, ?_⟩
    · obtain rfl : frozenBytesTotal = t := by simpa using ht
      exact hpos.le
    · simp [hpos]
    · intro p hp
      obtain rfl : PyFloat.finite 100 = p := by simpa using hp
      exact ⟨100, rfl, by norm_num, le_refl _, fun hactive => by simp [hinactive] at hactive⟩
    · exact fun href => by cases href

end Consistent

/-- The counters that are read can be, and the lane of a transfer has none of the flaws. -/
structure PayloadMeets (F : FloatFormat) (payload : Dict) (status : String)
    (referenceBytesTotal : Int) : Prop where
  orchestration : isOrchestrationProgress payload = true →
    (∃ n, positive F payload "path_index" = .ok n) ∧ ∃ n, positive F payload "path_total" = .ok n
  transfer : isOrchestrationProgress payload = false →
    TransferRead F payload referenceBytesTotal ∧ Flawless F payload status referenceBytesTotal

/-- The payloads for which the lane is consistent. -/
structure Meets (F : FloatFormat) (progress : Option Dict) (status : String)
    (frozenBytesTotal referenceBytesTotal : Int) : Prop where
  frozen : isFrozen status frozenBytesTotal = true → CountersRead F (progress.getD [])
  payload : isFrozen status frozenBytesTotal = false → ∀ payload, progress = some payload →
    payload ≠ [] → PayloadMeets F payload status referenceBytesTotal

theorem answers_empty {answer : Except String Lane} {kopiaPhase status : String}
    (h : answer = .ok (emptyLane kopiaPhase)) : Answers status answer :=
  ⟨_, h, consistent_emptyLane _⟩

theorem payload_iff {F : FloatFormat} {payload : Dict} {status : String} {referenceBytesTotal : Int}
    (hreference : F.Fits (max 0 referenceBytesTotal))
    (hpromised : Promised F payload referenceBytesTotal) :
    Answers status (if isOrchestrationProgress payload then orchestrationLane F payload
      else transferLane F payload status referenceBytesTotal) ↔
        PayloadMeets F payload status referenceBytesTotal := by
  cases h : isOrchestrationProgress payload with
  | true =>
    simp only [if_true]
    rw [orchestrationLane_iff]
    exact ⟨fun hread => ⟨fun _ => hread, fun hno => by simp [h] at hno⟩,
      fun hmeets => hmeets.orchestration h⟩
  | false =>
    simp only [Bool.false_eq_true, if_false]
    rw [transferLane_iff hpromised hreference]
    exact ⟨fun hread => ⟨fun hyes => by simp [h] at hyes, fun _ => hread⟩,
      fun hmeets => hmeets.transfer h⟩

/-- The progress of a lane is consistent exactly for these payloads. -/
theorem consistent_iff (F : FloatFormat) {progress : Option Dict} {status : String}
    {frozenBytesTotal referenceBytesTotal : Int}
    (hreference : F.Fits (max 0 referenceBytesTotal))
    (hpromised : ∀ payload, progress = some payload →
      Promised F payload referenceBytesTotal) :
    Answers status (normalizeLaneProgress F progress status frozenBytesTotal referenceBytesTotal) ↔
      Meets F progress status frozenBytesTotal referenceBytesTotal := by
  unfold normalizeLaneProgress
  cases hfrozen : isFrozen status frozenBytesTotal with
  | true =>
    simp only [if_true]
    rw [frozenLane_iff hfrozen]
    exact ⟨fun hread => ⟨fun _ => hread, fun hno => by simp [hfrozen] at hno⟩,
      fun hmeets => hmeets.frozen hfrozen⟩
  | false =>
    simp only [Bool.false_eq_true, if_false]
    have hmeets : Meets F progress status frozenBytesTotal referenceBytesTotal ↔
        ∀ payload, progress = some payload → payload ≠ [] →
          PayloadMeets F payload status referenceBytesTotal :=
      ⟨fun h => h.payload hfrozen, fun h => ⟨fun hyes => by simp [hfrozen] at hyes, fun _ => h⟩⟩
    rw [hmeets]
    split
    · exact iff_of_true (answers_empty rfl) (fun payload h => by cases h)
    · refine iff_of_true (answers_empty rfl) fun payload h hne => ?_
      exact absurd (Option.some.inj h).symm hne
    · rename_i payload hcons
      rw [payload_iff hreference (hpromised payload rfl)]
      constructor
      · intro h other heq _
        rw [← Option.some.inj heq]
        exact h
      · exact fun h => h payload rfl hcons

def halfDone : Dict := [("bytes_done", .int 50), ("bytes_total", .int 100)]

theorem counters_halfDone : readCounters .exact halfDone 0 = .ok
    { schema := 1, done := 50, total := 100, known := true, uploaded := 0, hashed := 0
      estimated := 0, reference := 0, prevMax := 0, phase := "" } := by
  decide +kernel

theorem consistent_halfDone :
    Answers "running" (normalizeLaneProgress .exact (some halfDone) "running" 0 0) := by
  refine (consistent_iff .exact rfl ?_).mpr ⟨fun h => ?_, fun _ payload h _ => ?_⟩
  · intro payload h
    cases h
    refine ⟨fun key hkey => .inl ?_, fun hzero => ?_, fun _ _ => rfl⟩
    · simp only [List.mem_cons, List.not_mem_nil, or_false] at hkey
      rcases hkey with rfl | rfl
      · rfl
      · rfl
    · exact absurd hzero (by decide +kernel)
  · exact absurd h (by decide)
  · cases h
    refine ⟨fun horchestration => ?_, fun _ => ⟨⟨⟨_, counters_halfDone⟩, ⟨_, rfl⟩, ⟨_, rfl⟩⟩, ?_⟩⟩
    · exact absurd horchestration (by decide +kernel)
    · intro c hc
      obtain rfl := Except.ok.inj (counters_halfDone.symm.trans hc)
      exact ⟨fun h => absurd h.reference (by decide), fun h => absurd h.schema (by decide)⟩

/-- Two hundred bytes are done of a reference of one hundred. -/
theorem not_consistent_overtaken :
    ¬ Answers "running" (normalizeLaneProgress .exact (some [("bytes_done", .int 200)]) "running"
      0 100) := by
  rintro ⟨lane, h, hlane⟩
  have hmap := congrArg (Except.map fun l : Lane => (l.bytesDone, l.bytesTotal, l.bytesTotalKnown)) h
  have hvalues : (normalizeLaneProgress .exact (some [("bytes_done", .int 200)]) "running" 0
      100).map (fun l : Lane => (l.bytesDone, l.bytesTotal, l.bytesTotalKnown)) =
        .ok (200, some 100, true) := by decide +kernel
  obtain ⟨hdone, htotal, hknown⟩ : lane.bytesDone = 200 ∧ lane.bytesTotal = some 100 ∧
      lane.bytesTotalKnown = true := by
    have heq := Except.ok.inj (hvalues.symm.trans hmap)
    simp only [Prod.mk.injEq] at heq
    exact ⟨heq.1.symm, heq.2.1.symm, heq.2.2.symm⟩
  obtain ⟨t, ht, hle⟩ := hlane.done_le hknown
  rw [htotal] at ht
  obtain rfl : 100 = t := by simpa using ht
  omega

end HyperFileLens.Protection.LaneProgress
