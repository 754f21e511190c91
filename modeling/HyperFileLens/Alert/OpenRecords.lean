import HyperFileLens.Alert.Lifecycle
import HyperFileLens.Library.Interference

/-!
# Open records

`fire_alert` reads the open record of a fingerprint in one query and writes in another.
A record stays the only open one of its fingerprint, and a resolved one stays resolved,
exactly while what was read still holds at each write (`freshTerms`).
-/

namespace HyperFileLens.Alert

open Service Transition

variable {rows rows' : List AlertRecord}

/-! ## The property -/

def openOf (rows : List AlertRecord) (fingerprint : String) : List AlertRecord :=
  rows.filter fun r => r.fingerprint = fingerprint && r.status.isOpen

def OneOpen (rows : List AlertRecord) : Prop :=
  ∀ fingerprint, (openOf rows fingerprint).length ≤ 1

def ResolvedStay (rows rows' : List AlertRecord) : Prop :=
  ∀ r ∈ rows, r.status = .resolved → ∃ r' ∈ rows', r'.id = r.id ∧ r'.status = .resolved

/-- What a write relies on: the record that was read is still open, or there is still no
open record. -/
def FreshWrite (rows : List AlertRecord) : AlertReq → Prop
  | .save alert => ∀ r ∈ rows, r.id = alert.id → r.status.isOpen = true
  | .create alert => openOf rows alert.fingerprint = []
  | _ => True

instance (rows : List AlertRecord) (r : AlertReq) : Decidable (FreshWrite rows r) := by
  cases r with
  | save alert => exact inferInstanceAs (Decidable (∀ r ∈ rows, _ → _))
  | create alert => exact inferInstanceAs (Decidable (_ = _))
  | _ => exact isTrue trivial

/-- A record is written as `FIRING`. -/
def Fires : AlertReq → Prop
  | .save alert => alert.status = .firing
  | .create alert => alert.status = .firing
  | _ => True

variable {f : AlertRecord → AlertRecord} {r : AlertReq}

theorem AlertStatus.isOpen_iff (status : AlertStatus) :
    status.isOpen = true ↔ status ≠ .resolved := by
  cases status <;> simp [AlertStatus.isOpen]

theorem ResolvedStay.refl (rows : List AlertRecord) : ResolvedStay rows rows :=
  fun r hr hresolved => ⟨r, hr, rfl, hresolved⟩

theorem ResolvedStay.trans {rows'' : List AlertRecord} (h : ResolvedStay rows rows')
    (h' : ResolvedStay rows' rows'') : ResolvedStay rows rows'' := by
  intro r hr hresolved
  obtain ⟨r', hr', hid', hresolved'⟩ := h r hr hresolved
  obtain ⟨r'', hr'', hid'', hresolved''⟩ := h' r' hr' hresolved'
  exact ⟨r'', hr'', hid''.trans hid', hresolved''⟩

/-- The writes that rely on what still holds. -/
def freshTerms : Terms (List AlertRecord) AlertReq where
  keeps := OneOpen
  moves := ResolvedStay
  allows := FreshWrite
  guards := fun _ r => Fires r
  refl := ResolvedStay.refl
  trans := ResolvedStay.trans

instance (rows : List AlertRecord) (r : AlertReq) : Decidable (freshTerms.allows rows r) :=
  inferInstanceAs (Decidable (FreshWrite rows r))

/-! ## Programs -/

section Programs

variable {α β : Type}

abbrev Writes (p : AlertProg α) : Prop := p.Makes Fires

variable {p : AlertProg α}

theorem Writes.bind {f : α → AlertProg β} (hp : Writes p) (hf : ∀ a, Writes (f a)) :
    Writes (p.bind f) :=
  Prog.Yields.bind hp fun a _ => hf a

theorem Writes.discard (hp : Writes p) : Writes (discard p) :=
  Writes.bind hp fun _ => trivial

theorem Writes.forM {ι : Type} {xs : List ι} {f : ι → AlertProg Unit} (hf : ∀ x, Writes (f x)) :
    Writes (xs.forM f) := by
  induction xs with
  | nil => trivial
  | cons x xs ih => exact Writes.bind (hf x) fun _ => ih

theorem writes_fireAlert (policy : AlertPolicy) (resourceId : Option String) (alertKey : String)
    (now : Int) : Writes (fireAlert policy resourceId alertKey now) := by
  refine ⟨trivial, fun alert => ?_⟩
  cases alert with
  | some alert =>
    refine ⟨rfl, fun saved => ?_⟩
    cases saved <;> trivial
  | none => exact ⟨rfl, fun _ => trivial⟩

theorem writes_resolveAlert (alert : AlertRecord) (resolvedAt : Int) :
    Writes (resolveAlert alert resolvedAt) := by
  refine ⟨trivial, fun updated => ?_⟩
  cases updated with
  | true => trivial
  | false =>
    refine ⟨trivial, fun found => ?_⟩
    cases found <;> trivial

theorem writes_maybeResolveMetric (policy : AlertPolicy) (resourceId : String) (now : Int) :
    Writes (maybeResolveMetric policy resourceId now) := by
  refine ⟨trivial, fun alert => ?_⟩
  cases alert with
  | some alert => exact (writes_resolveAlert alert now).discard
  | none => trivial

theorem writes_resolveHealthAlerts (policy : AlertPolicy) (resourceId checkType : String)
    (now : Int) : Writes (resolveHealthAlerts policy resourceId checkType now) :=
  ⟨trivial, fun _ => Writes.forM fun alert => (writes_resolveAlert alert now).discard⟩

theorem writes_body (job : AlertJob) : Writes job.body := by
  cases job with
  | fire policy resourceId alertKey now =>
    exact (writes_fireAlert policy resourceId alertKey now).discard
  | resolve alert now => exact (writes_resolveAlert alert now).discard
  | evaluateMetric policy resources =>
    rw [AlertJob.body, evaluateMetricPolicy]
    split
    · trivial
    · refine Writes.forM fun resource => ?_
      cases resource.verdict with
      | holds => exact (writes_fireAlert _ _ _ _).discard
      | recovered => exact writes_maybeResolveMetric _ _ _
      | neither => trivial
  | evaluateHealth policy resources =>
    rw [AlertJob.body, evaluateHealthPolicy]
    split
    · trivial
    · refine Writes.forM fun resource => ?_
      cases resource.verdict with
      | holds => exact (writes_fireAlert _ _ _ _).discard
      | recovered =>
        dsimp only
        split
        · exact writes_resolveHealthAlerts _ _ _ _
        · trivial
      | neither => trivial

theorem Writes.safe (h : Writes p) (rows : List AlertRecord) :
    freshTerms.Safe database (fun _ _ => True) p (fun _ _ => True) rows := by
  induction p generalizing rows with
  | ret a => trivial
  | fail error => trivial
  | cut => trivial
  | call r k ih => exact fun t _ _ => ⟨h.1, fun _ c => ih _ (h.2 _) _⟩

end Programs

/-! ## Queries -/

theorem OneOpen.update (h : OneOpen rows) {id : Nat} (hf : ∀ r ∈ rows, r.id = id →
      (f r).fingerprint = r.fingerprint ∧ ((f r).status.isOpen = true → r.status.isOpen = true)) :
    OneOpen (Table.update AlertRecord.id rows id f) := by
  intro fingerprint
  refine Nat.le_trans ?_ (h fingerprint)
  rw [openOf, openOf, Table.update, List.filter_map, List.length_map,
    ← List.countP_eq_length_filter, ← List.countP_eq_length_filter]
  refine List.countP_mono_left fun r hr hopen => ?_
  simp only [Function.comp_apply, Bool.and_eq_true, decide_eq_true_eq] at hopen ⊢
  split at hopen
  · rename_i hid
    obtain ⟨hfingerprint, hstatus⟩ := hf r hr hid
    exact ⟨hfingerprint ▸ hopen.1, hstatus hopen.2⟩
  · exact hopen

theorem ResolvedStay.update {id : Nat}
    (hf : ∀ r ∈ rows, r.id = id → r.status = .resolved → (f r).id = r.id ∧ (f r).status = .resolved) :
    ResolvedStay rows (Table.update AlertRecord.id rows id f) := by
  intro r hr hresolved
  by_cases hid : r.id = id
  · exact ⟨f r, Table.mem_update.mpr (.inl ⟨r, hr, hid, rfl⟩), hf r hr hid hresolved⟩
  · exact ⟨r, Table.mem_update.mpr (.inr ⟨hr, hid⟩), rfl, hresolved⟩

theorem freshTerms_call (hone : OneOpen rows) (hfresh : FreshWrite rows r) (now : Int) :
    OneOpen (respond rows r now).2 ∧ ResolvedStay rows (respond rows r now).2 := by
  cases r with
  | save alert =>
    refine ⟨hone.update fun r hr hid => ⟨rfl, fun _ => hfresh r hr hid⟩, .update ?_⟩
    intro r hr hid hresolved
    exact absurd hresolved (r.status.isOpen_iff.mp (hfresh r hr hid))
  | create alert =>
    refine ⟨fun fingerprint => ?_, fun r hr hresolved =>
      ⟨r, List.mem_cons_of_mem _ hr, rfl, hresolved⟩⟩
    have hnone : openOf rows alert.fingerprint = [] := hfresh
    rw [respond, openOf, List.filter_cons]
    split
    · rename_i hmatch
      simp only [Bool.and_eq_true, decide_eq_true_eq] at hmatch
      rw [← hmatch.1]
      exact Nat.le_of_eq (congrArg (fun l => l.length + 1) hnone)
    · exact hone fingerprint
  | resolve id resolvedAt =>
    refine ⟨hone.update fun r hr hid => ?_, .update fun r hr hid hresolved => ?_⟩
    · split
      · exact ⟨rfl, fun hopen => by cases hopen⟩
      · exact ⟨rfl, fun hopen => hopen⟩
    · rw [if_neg fun hopen => r.status.isOpen_iff.mp hopen hresolved]
      exact ⟨rfl, hresolved⟩
  | firstOpen | firstOpenOf | openHealth | refresh => exact ⟨hone, .refl rows⟩

theorem freshWrite_of_kept (hfires : Fires r) {now : Int} (hone : OneOpen (respond rows r now).2)
    (hstay : ResolvedStay rows (respond rows r now).2) : FreshWrite rows r := by
  cases r with
  | save alert =>
    intro r hr hid
    have hfires : alert.status = .firing := hfires
    by_contra hclosed
    have hresolved : r.status = .resolved := by
      by_contra hne
      exact hclosed (r.status.isOpen_iff.mpr hne)
    obtain ⟨r', hr', hid', hresolved'⟩ := hstay r hr hresolved
    rcases Table.mem_update.mp hr' with ⟨r₀, _, _, rfl⟩ | ⟨_, hne⟩
    · -- The saved row fires.
      have hsaved : (alert.saved r₀).status = .firing := hfires
      rw [hsaved] at hresolved'
      cases hresolved'
    · exact hne (hid'.trans hid)
  | create alert =>
    have hfires : alert.status = .firing := hfires
    have hle := hone alert.fingerprint
    rw [respond, openOf, List.filter_cons, if_pos (by simp [hfires, AlertStatus.isOpen]),
      List.length_cons] at hle
    exact List.eq_nil_of_length_eq_zero (Nat.le_zero.mp (Nat.le_of_succ_le_succ hle))
  | resolve | firstOpen | firstOpenOf | openHealth | refresh => trivial

theorem freshTerms_kept :
    freshTerms.Kept database (fun (rows : List AlertRecord) (_ : Unit) => rows)
      fun _ _ => True where
  call := fun hone hfresh _ now => freshTerms_call hone hfresh now
  env := fun hone _ => ⟨hone, .refl _⟩

/-! ## Runs -/

/-- The writes of a run rely on what still holds. -/
abbrev WritesFresh : Alerts → AlertEvent → Prop := freshTerms.Steady fun _ _ => True

theorem step_kept_iff {s s' : Alerts} {a : AlertEvent} (hsound : freshTerms.Sound database s)
    (hs : (alerts rows).step s a = some s') :
    WritesFresh s a ↔ OneOpen s'.state ∧ ResolvedStay s.state s'.state := by
  constructor
  · intro hfresh
    obtain ⟨hsound', hmoves⟩ :=
      hsound.step freshTerms_kept (fun job t => (writes_body job).safe t) hfresh hs
    exact ⟨hsound'.keeps, hmoves⟩
  · rintro ⟨hone, hstay⟩
    cases a with
    | start job => trivial
    | env e => trivial
    | call i now =>
      have hs : poolStep database AlertJob.body (fun rows (_ : Unit) => rows) s (.call i now) =
          some s' := hs
      obtain ⟨job, r, k, hclient, rfl⟩ := poolStep_call hs
      have hfresh : freshTerms.allows s.state r :=
        freshWrite_of_kept (hsound.guard hclient) hone hstay
      simpa only [Terms.Steady, hclient] using hfresh

def alertStart (rows : List AlertRecord) : Alerts := ⟨rows, fun _ => none, 0⟩

/-- In every run, at most one record of a fingerprint is open and resolved records stay
resolved, exactly if every write of `fire_alert` relies on what still holds. -/
theorem one_open_record (hrows : OneOpen rows) (events : List AlertEvent) :
    (alerts rows).Every (fun s _ s' => OneOpen s'.state ∧ ResolvedStay s.state s'.state)
        (alertStart rows) events ↔
      (alerts rows).Every (fun s a _ => WritesFresh s a) (alertStart rows) events := by
  have hbody : ∀ (job : AlertJob) t, freshTerms.Safe database (fun _ _ => True) job.body
      (fun _ _ => True) t := fun job t => (writes_body job).safe t
  refine (System.every_congr_of_invariant (I := freshTerms.Sound database)
    (fun s a s' hsound hs => step_kept_iff hsound hs) ?_ ?_ events).symm
  · intro s a s' hsound hs hfresh
    exact (hsound.step freshTerms_kept hbody hfresh hs).1
  · exact ⟨hrows, fun hclient => by simp [alertStart] at hclient⟩

def loadPolicy : AlertPolicy where
  id := "p"
  organizationId := some "1"
  type := .metric
  resourceType := "gateway"
  metricKey := "cpu_usage"

def evaluation (verdict : Verdict) (now : Int) : AlertEvent :=
  .start (.evaluateMetric loadPolicy [⟨"g", verdict, now⟩])

def fireAndRecover : List AlertEvent :=
  [evaluation .holds 10, .call 0 10, .call 0 11,
    evaluation .holds 20, .call 1 20, .call 1 21,
    evaluation .recovered 30, .call 2 30, .call 2 31]

/-- One evaluation after the other leaves one record, which is resolved. -/
theorem one_open_record_fireAndRecover :
    (alerts []).Every (fun s _ s' => OneOpen s'.state ∧ ResolvedStay s.state s'.state)
        (alertStart []) fireAndRecover ∧
      ((alerts []).exec (alertStart []) fireAndRecover).map (fun s => s.state.map (·.status)) =
        some [.resolved] := by
  have hnone : OneOpen [] := fun _ => Nat.zero_le 1
  refine ⟨(one_open_record hnone fireAndRecover).mpr ?_, by decide +kernel⟩
  decide +kernel

def fireTwice : List AlertEvent :=
  [evaluation .holds 10, evaluation .holds 10, .call 0 10, .call 1 10, .call 0 11, .call 1 11]

/-- A record is resolved between the read and the write of an evaluation. -/
def fireLate : List AlertEvent :=
  [evaluation .holds 10, .call 0 10, .call 0 11, evaluation .holds 20, .call 1 20,
    evaluation .recovered 30, .call 2 30, .call 2 31]

def lateState : Alerts := ((alerts []).exec (alertStart []) fireLate).get (by decide +kernel)

/-- Two evaluations open two records, and one that writes late reopens a resolved record. -/
theorem not_one_open_record :
    (∃ s, (alerts []).Reachable s ∧ ¬OneOpen s.state) ∧
    ∃ s a s', (alerts []).Reachable s ∧ (alerts []).step s a = some s' ∧
      ∃ r ∈ s.state, r.status = .resolved ∧ ∃ r' ∈ s'.state, r'.id = r.id ∧ r'.status = .firing := by
  refine ⟨⟨((alerts []).exec (alertStart []) fireTwice).get (by decide +kernel),
    .of_exec rfl (Option.some_get _).symm, fun h => ?_⟩, ?_⟩
  · have hle := h (buildFingerprint loadPolicy (some "g") "cpu_usage")
    revert hle
    decide +kernel
  · exact ⟨lateState, .call 1 32, ((alerts []).step lateState (.call 1 32)).get (by decide +kernel),
      .of_exec rfl (Option.some_get _).symm, (Option.some_get _).symm, by decide +kernel⟩

end HyperFileLens.Alert
