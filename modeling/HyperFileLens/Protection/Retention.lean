import HyperFileLens.Library.Calendar
import HyperFileLens.Library.Transition
import HyperFileLens.Protection.SourceSnapshot
import Mathlib

/-!
# Retention of recovery points

The retention pass of `policy_execution.py` over the snapshots of one source, and runs
in which passes meet new snapshots, leases and the passage of time.

*Order.*  The pass reads the restorable snapshots newest first: by the time they
finished, a missing one first as the database sorts it, then by creation and by
identifier. Windows and buckets go by `_snapshot_time`.

*Passes.*  A pass lists its candidates at one moment. It deletes them one by one, each
in a transaction of its own, while other passes and everything else go on.
-/

namespace HyperFileLens.Protection

open Tasks Transition

/-! ## The order of the listing -/

/-- What the query sorts by, in descending order. -/
def BackupSourceSnapshot.sortKey (s : BackupSourceSnapshot) : WithTop ℤ ×ₗ ℤ ×ₗ ℕ :=
  toLex (s.finishedAt, toLex (s.createdAt, s.id))

def notOlder (a b : BackupSourceSnapshot) : Prop := b.sortKey ≤ a.sortKey

instance : DecidableRel notOlder := fun a b => inferInstanceAs (Decidable (b.sortKey ≤ a.sortKey))

instance : Std.Total notOlder := ⟨fun a b => le_total b.sortKey a.sortKey⟩

instance : IsTrans BackupSourceSnapshot notOlder := ⟨fun _ _ _ hab hbc => hbc.trans hab⟩

/-- The snapshots the pass looks at, newest first. -/
def listed (records : List SnapshotRecord) : List BackupSourceSnapshot :=
  ((records.map SnapshotRecord.row).filter fun row =>
    row.status.isRestorable && row.deletedAt.isNone).insertionSort notOlder

def protectedSnapshotIds (records : List SnapshotRecord) : List Nat :=
  (records.filter SnapshotRecord.isProtected).map fun record => record.row.id

/-! ## Buckets -/

/-- `_snapshot_time`. -/
def BackupSourceSnapshot.time (s : BackupSourceSnapshot) : Int :=
  (s.finishedAt.or s.startedAt).getD s.createdAt

/-- The offset of a time zone from UTC in seconds, at a time in microseconds. -/
abbrev ZoneInfo := Int → Int

inductive BucketUnit where
  | hour
  | day
  | week
  | month
  | year
deriving DecidableEq, Repr

def hourMicros : Int := 3600 * 1000000

def bucketKey (zone : ZoneInfo) (unit : BucketUnit) (s : BackupSourceSnapshot) : String :=
  let localTime := s.time + zone s.time * 1000000
  let days := localTime / (24 * hourMicros)
  let date := Calendar.ofDays days
  let year := Calendar.padded 4 date.year
  let month := Calendar.padded 2 date.month
  let day := Calendar.padded 2 date.day
  match unit with
  | .hour => year ++ month ++ day ++
      Calendar.padded 2 (localTime % (24 * hourMicros) / hourMicros)
  | .day => year ++ month ++ day
  | .week =>
    let iso := Calendar.isoWeek days
    toString iso.1 ++ "W" ++ Calendar.padded 2 iso.2
  | .month => year ++ month
  | .year => year

/-! ## The policy -/

/-- `retention` of a policy, with 0 for a number it does not set. -/
structure Retention where
  enabled : Bool := false
  recentPoints : Int := 0
  hourlyEnabled : Bool := false
  hourlyHours : Int := 0
  dailyEnabled : Bool := false
  dailyDays : Int := 0
  weeklyEnabled : Bool := false
  weeklyWeeks : Int := 0
  monthlyEnabled : Bool := false
  monthlyMonths : Int := 0
  annualEnabled : Bool := false
  annualYears : Int := 0

/-- The arguments of one call of `_apply_bucket_retention`. -/
structure RetentionTier where
  enabled : Bool
  amount : Int
  unit : BucketUnit
  delta : Int

/-- The calls of `_apply_bucket_retention`, in their order. -/
def Retention.tiers (r : Retention) : List RetentionTier :=
  [⟨r.hourlyEnabled, r.hourlyHours, .hour, hourMicros * max 1 r.hourlyHours⟩,
   ⟨r.dailyEnabled, r.dailyDays, .day, 24 * hourMicros * max 1 r.dailyDays⟩,
   ⟨r.weeklyEnabled, r.weeklyWeeks, .week, 7 * 24 * hourMicros * max 1 r.weeklyWeeks⟩,
   ⟨r.monthlyEnabled, r.monthlyMonths, .month, 31 * 24 * hourMicros * max 1 r.monthlyMonths⟩,
   ⟨r.annualEnabled, r.annualYears, .year, 366 * 24 * hourMicros * max 1 r.annualYears⟩]

def RetentionTier.isActive (tier : RetentionTier) : Prop := tier.enabled = true ∧ 1 ≤ tier.amount

instance (tier : RetentionTier) : Decidable tier.isActive := inferInstanceAs (Decidable (_ ∧ _))

def RetentionTier.inWindow (tier : RetentionTier) (now : Int) (s : BackupSourceSnapshot) : Prop :=
  now - tier.delta ≤ s.time

instance (tier : RetentionTier) (now : Int) (s : BackupSourceSnapshot) :
    Decidable (tier.inWindow now s) :=
  inferInstanceAs (Decidable (_ ≤ _))

/-! ## The pass -/

/-- The loop of `_apply_bucket_retention`. -/
def keepBuckets (zone : ZoneInfo) (tier : RetentionTier) (now : Int) (protectedIds : List Nat) :
    List BackupSourceSnapshot → List String → List Nat → List Nat
  | [], _, keepIds => keepIds
  | s :: snapshots, seen, keepIds =>
    if s.id ∈ protectedIds then
      keepBuckets zone tier now protectedIds snapshots seen keepIds
    else if ¬tier.inWindow now s then
      keepBuckets zone tier now protectedIds snapshots seen keepIds
    else if bucketKey zone tier.unit s ∈ seen then
      keepBuckets zone tier now protectedIds snapshots seen keepIds
    else
      keepBuckets zone tier now protectedIds snapshots (bucketKey zone tier.unit s :: seen)
        (s.id :: keepIds)

def applyBucketRetention (zone : ZoneInfo) (now : Int) (protectedIds : List Nat)
    (snapshots : List BackupSourceSnapshot) (keepIds : List Nat) (tier : RetentionTier) :
    List Nat :=
  if tier.isActive then keepBuckets zone tier now protectedIds snapshots [] keepIds else keepIds

def unprotected (records : List SnapshotRecord) : List BackupSourceSnapshot :=
  (listed records).filter fun s => s.id ∉ protectedSnapshotIds records

def keepIds (retention : Retention) (zone : ZoneInfo) (now : Int)
    (records : List SnapshotRecord) : List Nat :=
  let protectedIds := protectedSnapshotIds records
  let recentPoints := (max 1 retention.recentPoints).toNat
  let recentIds := ((unprotected records).take recentPoints).map BackupSourceSnapshot.id
  retention.tiers.foldl (applyBucketRetention zone now protectedIds (listed records))
    (protectedIds ++ recentIds)

def retentionDeleteCandidatesForConfig (retention : Retention) (zone : ZoneInfo) (now : Int)
    (records : List SnapshotRecord) : List BackupSourceSnapshot :=
  if retention.enabled = false ∨ (listed records).length ≤ 1 then []
  else (listed records).filter fun s => s.id ∉ keepIds retention zone now records

def failedSnapshotDeleteCandidatesForConfig (retention : Retention)
    (records : List SnapshotRecord) : List BackupSourceSnapshot :=
  if retention.enabled = false then []
  else
    ((records.filter fun record =>
        record.row.deletedAt.isNone && record.row.status = .failed && !record.isProtected).map
      SnapshotRecord.row).insertionSort fun a b => notOlder b a

/-! ## What one pass keeps -/

def IsNewest (among : BackupSourceSnapshot → Prop) (m : BackupSourceSnapshot) : Prop :=
  among m ∧ ∀ s, among s → s.sortKey ≤ m.sortKey

variable {s : BackupSourceSnapshot}

variable {records : List SnapshotRecord} {snapshots : List BackupSourceSnapshot}
    {m : BackupSourceSnapshot}

theorem pairwise_listed (records : List SnapshotRecord) : (listed records).Pairwise notOlder :=
  List.pairwise_insertionSort ..

theorem mem_listed : s ∈ listed records ↔
      (∃ record ∈ records, record.row = s) ∧ s.status.isRestorable = true ∧ s.deletedAt = none := by
  simp only [listed, List.mem_insertionSort, List.mem_filter, List.mem_map, Bool.and_eq_true,
    Option.isNone_iff_eq_none]

theorem BackupSourceSnapshot.id_eq_of_sortKey_eq {a b : BackupSourceSnapshot}
    (h : a.sortKey = b.sortKey) : a.id = b.id := by
  have hpair := toLex.injective h
  exact congrArg Prod.snd (toLex.injective (congrArg Prod.snd hpair))

section KeepBuckets

variable {zone : ZoneInfo} {tier : RetentionTier} {now : Int} {protectedIds : List Nat}

theorem mem_keepBuckets_of_mem {i : Nat} (snapshots : List BackupSourceSnapshot)
    (seen : List String) (keepIds : List Nat) (h : i ∈ keepIds) :
    i ∈ keepBuckets zone tier now protectedIds snapshots seen keepIds := by
  induction snapshots generalizing seen keepIds with
  | nil => exact h
  | cons s snapshots ih =>
    rw [keepBuckets]
    split
    · exact ih seen keepIds h
    · split
      · exact ih seen keepIds h
      · split
        · exact ih seen keepIds h
        · exact ih _ _ (List.mem_cons_of_mem _ h)

def inBucket (zone : ZoneInfo) (tier : RetentionTier) (now : Int) (protectedIds : List Nat)
    (key : String) (s : BackupSourceSnapshot) : Prop :=
  s.id ∉ protectedIds ∧ tier.inWindow now s ∧ bucketKey zone tier.unit s = key

instance (key : String) (s : BackupSourceSnapshot) :
    Decidable (inBucket zone tier now protectedIds key s) :=
  inferInstanceAs (Decidable (_ ∧ _))

theorem find_mem_keepBuckets {key : String} {m : BackupSourceSnapshot}
    (snapshots : List BackupSourceSnapshot) (seen : List String) (keepIds : List Nat)
    (hseen : key ∉ seen)
    (h : snapshots.find? (fun s => inBucket zone tier now protectedIds key s) = some m) :
    m.id ∈ keepBuckets zone tier now protectedIds snapshots seen keepIds := by
  induction snapshots generalizing seen keepIds with
  | nil => cases h
  | cons s snapshots ih =>
    rw [List.find?_cons] at h
    rw [keepBuckets]
    by_cases hs : inBucket zone tier now protectedIds key s
    · rw [decide_eq_true hs] at h
      cases h
      obtain ⟨hprotected, hwindow, rfl⟩ := hs
      rw [if_neg hprotected, if_neg (not_not.mpr hwindow), if_neg hseen]
      exact mem_keepBuckets_of_mem _ _ _ List.mem_cons_self
    · rw [decide_eq_false hs] at h
      split
      · exact ih seen keepIds hseen h
      · rename_i hprotected
        split
        · exact ih seen keepIds hseen h
        · rename_i hwindow
          split
          · exact ih seen keepIds hseen h
          · refine ih _ _ (fun hmem => ?_) h
            rcases List.mem_cons.mp hmem with rfl | hmem
            · exact hs ⟨hprotected, not_not.mp hwindow, rfl⟩
            · exact hseen hmem

variable (zone tier now protectedIds) in
/-- The first snapshot of its bucket. -/
def IsFirst (snapshots : List BackupSourceSnapshot) (m : BackupSourceSnapshot) : Prop :=
  snapshots.find? (fun s => inBucket zone tier now protectedIds (bucketKey zone tier.unit m) s) =
    some m

theorem isFirst_of_mem_keepBuckets {i : Nat} (snapshots : List BackupSourceSnapshot)
    (seen : List String) (keepIds : List Nat)
    (h : i ∈ keepBuckets zone tier now protectedIds snapshots seen keepIds) :
    i ∈ keepIds ∨ ∃ m, m.id = i ∧ bucketKey zone tier.unit m ∉ seen ∧
      IsFirst zone tier now protectedIds snapshots m := by
  induction snapshots generalizing seen keepIds with
  | nil => exact .inl h
  | cons s snapshots ih =>
    have hpassed : ∀ m, ¬ inBucket zone tier now protectedIds (bucketKey zone tier.unit m) s →
        IsFirst zone tier now protectedIds snapshots m →
        IsFirst zone tier now protectedIds (s :: snapshots) m := fun m hs hm => by
      rwa [IsFirst, List.find?_cons, decide_eq_false hs]
    have hskip : (∀ key ∉ seen, ¬ inBucket zone tier now protectedIds key s) →
        i ∈ keepBuckets zone tier now protectedIds snapshots seen keepIds →
        i ∈ keepIds ∨ ∃ m, m.id = i ∧ bucketKey zone tier.unit m ∉ seen ∧
          IsFirst zone tier now protectedIds (s :: snapshots) m := fun hs h =>
      (ih seen keepIds h).imp_right fun ⟨m, hid, hopen, hm⟩ =>
        ⟨m, hid, hopen, hpassed m (hs _ hopen) hm⟩
    rw [keepBuckets] at h
    split at h
    · rename_i hprotected
      exact hskip (fun _ _ hs => hs.1 hprotected) h
    split at h
    · rename_i hwindow
      exact hskip (fun _ _ hs => hwindow hs.2.1) h
    split at h
    · rename_i hseen
      exact hskip (fun _ hopen hs => hopen (hs.2.2 ▸ hseen)) h
    · rename_i hprotected hwindow hseen
      rcases ih _ _ h with hkept | ⟨m, hid, hopen, hm⟩
      · rcases List.mem_cons.mp hkept with rfl | hkept
        · refine .inr ⟨s, rfl, hseen, ?_⟩
          exact List.find?_cons_of_pos (decide_eq_true ⟨hprotected, not_not.mp hwindow, rfl⟩)
        · exact .inl hkept
      · rw [List.mem_cons, not_or] at hopen
        exact .inr ⟨m, hid, hopen.2, hpassed m (fun hs => hopen.1 hs.2.2.symm) hm⟩

end KeepBuckets

variable {p : BackupSourceSnapshot → Prop}

/-- The first snapshot with a property in a sorted list is as new as any other one. -/
theorem le_of_find (hsorted : snapshots.Pairwise notOlder) [DecidablePred p]
    (hfind : snapshots.find? (fun s => p s) = some m) (hs : s ∈ snapshots) (hp : p s) :
    s.sortKey ≤ m.sortKey := by
  obtain ⟨_, before, after, rfl, hbefore⟩ := List.find?_eq_some_iff_append.mp hfind
  rcases List.mem_append.mp hs with hin | hin
  · exact absurd hp (by simpa using hbefore s hin)
  · rcases List.mem_cons.mp hin with rfl | hin
    · exact le_rfl
    · exact List.rel_of_pairwise_cons (List.pairwise_append.mp hsorted).2.1 hin

theorem IsNewest.id_eq_of_find (hsorted : snapshots.Pairwise notOlder) [DecidablePred p]
    (hm : IsNewest (fun s => s ∈ snapshots ∧ p s) m) :
    ∃ m', snapshots.find? (fun s => p s) = some m' ∧ m'.id = m.id := by
  obtain ⟨m', hfind⟩ : ∃ m', snapshots.find? (fun s => p s) = some m' :=
    Option.isSome_iff_exists.mp (List.find?_isSome.mpr ⟨m, hm.1.1, decide_eq_true hm.1.2⟩)
  refine ⟨m', hfind, BackupSourceSnapshot.id_eq_of_sortKey_eq (le_antisymm ?_ ?_)⟩
  · exact hm.2 m' ⟨List.mem_of_find?_eq_some hfind, by simpa using List.find?_some hfind⟩
  · exact le_of_find hsorted hfind hm.1.1 hm.1.2

section KeepIds

variable {retention : Retention} {zone : ZoneInfo} {now : Int} {records : List SnapshotRecord}

variable {i : Nat} {protectedIds : List Nat} {snapshots : List BackupSourceSnapshot}
    {tier : RetentionTier} {m : BackupSourceSnapshot}

theorem mem_applyBucketRetention_of_mem {keepIds : List Nat} (h : i ∈ keepIds) :
    i ∈ applyBucketRetention zone now protectedIds snapshots keepIds tier := by
  rw [applyBucketRetention]
  split
  · exact mem_keepBuckets_of_mem _ _ _ h
  · exact h

theorem mem_foldl_tiers_of_mem (tiers : List RetentionTier) {keepIds : List Nat} (h : i ∈ keepIds) :
    i ∈ tiers.foldl (applyBucketRetention zone now protectedIds snapshots) keepIds := by
  induction tiers generalizing keepIds with
  | nil => exact h
  | cons tier tiers ih => exact ih (mem_applyBucketRetention_of_mem h)

theorem mem_foldl_tiers {tiers : List RetentionTier} {keepIds : List Nat} (ht : tier ∈ tiers)
    (h : ∀ keep, i ∈ applyBucketRetention zone now protectedIds snapshots keep tier) :
    i ∈ tiers.foldl (applyBucketRetention zone now protectedIds snapshots) keepIds := by
  induction tiers generalizing keepIds with
  | nil => cases ht
  | cons tier' tiers ih =>
    rcases List.mem_cons.mp ht with rfl | ht
    · exact mem_foldl_tiers_of_mem tiers (h keepIds)
    · exact ih ht

theorem protected_mem_keepIds (h : i ∈ protectedSnapshotIds records) :
    i ∈ keepIds retention zone now records :=
  mem_foldl_tiers_of_mem _ (List.mem_append_left _ h)

theorem recent_mem_keepIds
    (h : m ∈ (unprotected records).take (max 1 retention.recentPoints).toNat) :
    m.id ∈ keepIds retention zone now records :=
  mem_foldl_tiers_of_mem _ (List.mem_append_right _ (List.mem_map_of_mem h))

theorem find_mem_keepIds (ht : tier ∈ retention.tiers) (hactive : tier.isActive) {key : String}
    (h : (listed records).find?
      (fun s => inBucket zone tier now (protectedSnapshotIds records) key s) = some m) :
    m.id ∈ keepIds retention zone now records := by
  refine mem_foldl_tiers ht fun keep => ?_
  rw [applyBucketRetention, if_pos hactive]
  exact find_mem_keepBuckets _ [] keep (List.not_mem_nil) h

theorem newest_mem_keepIds (hm : IsNewest (fun s => s ∈ listed records) m) :
    m.id ∈ keepIds retention zone now records := by
  by_cases hprotected : m.id ∈ protectedSnapshotIds records
  · exact protected_mem_keepIds hprotected
  · obtain ⟨m', hfind, hid⟩ := IsNewest.id_eq_of_find (pairwise_listed records)
      (p := fun s => s.id ∉ protectedSnapshotIds records)
      ⟨⟨hm.1, hprotected⟩, fun s hs => hm.2 s hs.1⟩
    have hhead : (unprotected records).head? = some m' := by
      rw [unprotected, List.head?_filter]
      exact hfind
    rw [← hid]
    refine recent_mem_keepIds ?_
    obtain ⟨n, hn⟩ : ∃ n, (max 1 retention.recentPoints).toNat = n + 1 :=
      ⟨(max 1 retention.recentPoints).toNat - 1, by omega⟩
    cases hlist : unprotected records with
    | nil => simp [hlist] at hhead
    | cons s rest =>
      obtain rfl : s = m' := by simpa [hlist] using hhead
      simp [hn]

theorem isFirst_of_mem_foldl_tiers (tiers : List RetentionTier) {keepIds : List Nat}
    (h : i ∈ tiers.foldl (applyBucketRetention zone now protectedIds snapshots) keepIds) :
    i ∈ keepIds ∨ ∃ tier ∈ tiers, tier.isActive ∧ ∃ m, m.id = i ∧
      IsFirst zone tier now protectedIds snapshots m := by
  induction tiers generalizing keepIds with
  | nil => exact .inl h
  | cons tier tiers ih =>
    rcases ih h with happlied | ⟨t, ht, hfirst⟩
    · rw [applyBucketRetention] at happlied
      split at happlied
      · rename_i hactive
        exact (isFirst_of_mem_keepBuckets _ _ _ happlied).imp_right fun ⟨m, hid, _, hm⟩ =>
          ⟨tier, List.mem_cons_self, hactive, m, hid, hm⟩
      · exact .inl happlied
    · exact .inr ⟨t, List.mem_cons_of_mem _ ht, hfirst⟩

/-- A snapshot is spared when it is protected, recent or the first of a bucket. -/
def IsSpared (retention : Retention) (zone : ZoneInfo) (now : Int) (records : List SnapshotRecord)
    (i : Nat) : Prop :=
  i ∈ protectedSnapshotIds records ∨
    (∃ m ∈ (unprotected records).take (max 1 retention.recentPoints).toNat, m.id = i) ∨
    ∃ tier ∈ retention.tiers, tier.isActive ∧ ∃ m, m.id = i ∧
      IsFirst zone tier now (protectedSnapshotIds records) (listed records) m

theorem mem_keepIds_iff :
    i ∈ keepIds retention zone now records ↔ IsSpared retention zone now records i := by
  constructor
  · intro h
    rcases isFirst_of_mem_foldl_tiers _ h with h | h
    · exact (List.mem_append.mp h).imp_right fun h => .inl (List.mem_map.mp h)
    · exact .inr (.inr h)
  · rintro (h | ⟨m, hm, rfl⟩ | ⟨tier, ht, hactive, m, rfl, hm⟩)
    · exact protected_mem_keepIds h
    · exact recent_mem_keepIds hm
    · exact find_mem_keepIds ht hactive hm

/-- A pass deletes exactly the listed snapshots that are not spared, unless there is only one. -/
theorem retention_deletes_exactly (retention : Retention) (zone : ZoneInfo) (now : Int)
    (records : List SnapshotRecord) (s : BackupSourceSnapshot) :
    s ∈ retentionDeleteCandidatesForConfig retention zone now records ↔
      retention.enabled = true ∧ 1 < (listed records).length ∧ s ∈ listed records ∧
        ¬ IsSpared retention zone now records s.id := by
  rw [← mem_keepIds_iff, retentionDeleteCandidatesForConfig]
  split
  · rename_i hnone
    refine iff_of_false List.not_mem_nil ?_
    rintro ⟨henabled, hlength, -⟩
    rcases hnone with hnone | hnone
    · simp [henabled] at hnone
    · omega
  · rename_i hsome
    rw [not_or, Bool.not_eq_false, not_le] at hsome
    simp [hsome]

end KeepIds

theorem mem_candidates {retention : Retention} {zone : ZoneInfo} {now : Int}
    (h : s ∈ retentionDeleteCandidatesForConfig retention zone now records) :
    s ∈ listed records ∧ s.id ∉ keepIds retention zone now records := by
  rw [retentionDeleteCandidatesForConfig] at h
  split at h
  · cases h
  · simpa using h

/-- What a pass promises about the snapshots it deletes. -/
structure PassKeeps (retention : Retention) (zone : ZoneInfo) (now : Int)
    (records : List SnapshotRecord) (deleted : List BackupSourceSnapshot) : Prop where
  leased : ∀ s ∈ deleted, s.id ∉ protectedSnapshotIds records
  newest : ∀ m, IsNewest (fun s => s ∈ listed records) m → m ∉ deleted
  recent : ∀ m ∈ (unprotected records).take (max 1 retention.recentPoints).toNat, m ∉ deleted
  /-- The newest snapshot of a bucket in the window of an active tier is not deleted. -/
  bucket : ∀ tier ∈ retention.tiers, tier.isActive → ∀ key m,
    IsNewest (fun s => s ∈ unprotected records ∧ tier.inWindow now s ∧
      bucketKey zone tier.unit s = key) m → m ∉ deleted

theorem passKeeps_candidates (retention : Retention) (zone : ZoneInfo) (now : Int)
    (records : List SnapshotRecord) :
    PassKeeps retention zone now records
      (retentionDeleteCandidatesForConfig retention zone now records) where
  leased := fun s hs hprotected => (mem_candidates hs).2 (protected_mem_keepIds hprotected)
  newest := fun m hm hdeleted => (mem_candidates hdeleted).2 (newest_mem_keepIds hm)
  recent := fun m hm hdeleted => (mem_candidates hdeleted).2 (recent_mem_keepIds hm)
  bucket := by
    intro tier ht hactive key m hm hdeleted
    obtain ⟨m', hfind, hid⟩ := IsNewest.id_eq_of_find (pairwise_listed records)
      (p := inBucket zone tier now (protectedSnapshotIds records) key) (m := m) (by
        have hiff : ∀ s, (s ∈ listed records ∧
            inBucket zone tier now (protectedSnapshotIds records) key s) ↔
            (s ∈ unprotected records ∧ tier.inWindow now s ∧ bucketKey zone tier.unit s = key) := by
          intro s
          simp [unprotected, inBucket, and_assoc]
        simpa only [hiff] using hm)
    exact (mem_candidates hdeleted).2 (hid ▸ find_mem_keepIds ht hactive hfind)

end HyperFileLens.Protection
