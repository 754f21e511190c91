import HyperFileLens.Protection.DeleteMarks
import HyperFileLens.Protection.LocatorRuns

/-!
# The locator of a snapshot stays where it was written

What `LocatorKept` asks of the steps of a run, and what holds in every run that meets it: a
directory with a snapshot has the locator of the task that wrote the snapshot, the locator stays,
and all readers get it.

*Why runs fail.*  `ensure_snapshot_repository_locator` moves the locator of a directory without an
identifier. A late result is adopted after such a move has happened in the same transaction, with
the binding of that moment. `retry_backup_directory` dispatches a directory that kept the
identifier of a failed attempt, whose locator is not moved.
-/

namespace HyperFileLens.Protection

open Transition

/-! ## The condition -/

/-- The repository is bound as it was when the task was dispatched, as far as locators show it. -/
def LocatorState.Resumes (s : LocatorState) (attempt : BackupAttempt) : Prop :=
  buildSnapshotRepositoryLocator s.repository (some attempt.nodeId) = .ok attempt.locator

/-- The steps of runs in which locators stay. -/
def LocatorKept (s : LocatorState) : LocatorEvent → Prop
  | .dispatch _ nodeId _ => ∀ attempt ∈ s.nodeTask nodeId,
      attempt.status = .success ∨ attempt.status.isActive = true → s.Resumes attempt
  | .observe _ nodeId _ => ∀ attempt ∈ s.nodeTask nodeId,
      normalizeKopiaSnapshotId attempt.snapshotId ≠ "" → attempt.status.isActive = false →
        s.dispatchedFor = some attempt.id
  | .project _ id => ∀ attempt ∈ s.attempt id, s.row.kopiaSnapshotId = none → s.Resumes attempt
  | .refreshFailure _ _ _ => s.row.kopiaSnapshotId = none
  | .retrySave i => ∀ loaded ∈ s.retries[i]?, loaded = s.row ∧ loaded.kopiaSnapshotId = none
  | _ => True

instance (s : LocatorState) (attempt : BackupAttempt) : Decidable (s.Resumes attempt) :=
  inferInstanceAs (Decidable (_ = _))

instance (s : LocatorState) : (e : LocatorEvent) → Decidable (LocatorKept s e)
  | .dispatch _ nodeId _ => inferInstanceAs (Decidable (∀ attempt ∈ s.nodeTask nodeId, _ → _))
  | .observe _ nodeId _ =>
    inferInstanceAs (Decidable (∀ attempt ∈ s.nodeTask nodeId, _ → _ → _))
  | .project _ id => inferInstanceAs (Decidable (∀ attempt ∈ s.attempt id, _ → _))
  | .refreshFailure _ _ _ => inferInstanceAs (Decidable (_ = _))
  | .retrySave i => inferInstanceAs (Decidable (∀ loaded ∈ s.retries[i]?, _ ∧ _))
  | .rebind _ _ | .report _ _ _ _ _ | .settle _ _ _ _ | .delete | .retryLoad | .load
  | .resolve _ _ | .fill _ | .refresh _ => isTrue trivial

/-! ## The invariant -/

def Reader.Agrees (stored : Json) : Reader → Prop
  | .loaded instance' => instance' = .obj [] ∨ instance' = stored
  | .derived _ => True
  | .missed _ => stored ≠ .obj []
  | .done locator => stored = locator.payload
  | .raised _ => True

/-- The tables and the callers agree about the place of the snapshot. -/
structure Placed (s : LocatorState) : Prop where
  ids : ∀ a ∈ s.attempts, a.id < s.attempts.length
  keyed : Table.Keyed BackupAttempt.id s.attempts
  valid : ∀ a ∈ s.attempts, LocatorOf s.repository a.locator
  written : Written s.repository s.row.repositoryLocator
  current : ∀ t ∈ s.dispatchedFor, ∃ a, s.attempt t = some a ∧
    s.row.repositoryLocator = a.locator.payload
  named : ∀ t ∈ s.row.nodeTaskId, s.dispatchedFor = some t
  settled : s.row.kopiaSnapshotId ≠ none →
    s.row.hasSnapshot = true ∧ s.row.status.isTerminal = true
  origin : s.row.kopiaSnapshotId ≠ none → ∀ t ∈ s.source, s.dispatchedFor = some t
  reading : s.readers ≠ [] → s.row.kopiaSnapshotId ≠ none
  derived : ∀ locator, .derived locator ∈ s.readers → LocatorOf s.repository locator
  readers : ∀ reader ∈ s.readers, reader.Agrees s.row.repositoryLocator

def Steady (s s' : LocatorState) : Prop :=
  s.row.kopiaSnapshotId ≠ none → s'.row.kopiaSnapshotId ≠ none ∧
    (s.row.repositoryLocator ≠ .obj [] → s'.row.repositoryLocator = s.row.repositoryLocator)

variable {s s' : LocatorState}

variable {row' : DirectoryRow} {status : DirectoryStatus} {code : String} {nodeId i : Nat}

variable {a : BackupAttempt}

theorem Steady.of_eq (hid : s'.row.kopiaSnapshotId = s.row.kopiaSnapshotId)
    (hstored : s'.row.repositoryLocator = s.row.repositoryLocator) : Steady s s' :=
  fun h => ⟨hid ▸ h, fun _ => hstored⟩

theorem Steady.of_none (h : s.row.kopiaSnapshotId = none) : Steady s s' :=
  fun hne => absurd h hne

theorem Placed.start (h : LocatorStart s) : Placed s := by
  refine ⟨?_, ?_, ?_, .inl h.stored, ?_, ?_, h.settled, ?_, ?_, ?_, ?_⟩
  · simp [h.attempts]
  · rw [h.attempts]
    exact .nil
  · simp [h.attempts]
  · simp [h.dispatchedFor]
  · simp [h.named]
  · simp [h.source]
  · simp [h.readers]
  · simp [h.readers]
  · simp [h.readers]

theorem Placed.fresh (h : Placed s) (hstatus : s.row.status.isTerminal = false) :
    s.row.kopiaSnapshotId = none ∧ s.readers = [] := by
  have hid : s.row.kopiaSnapshotId = none := by
    cases hid : s.row.kopiaSnapshotId with
    | none => rfl
    | some id =>
      have hterminal := (h.settled (by simp [hid])).2
      rw [hstatus] at hterminal
      cases hterminal
  refine ⟨hid, ?_⟩
  cases hreaders : s.readers with
  | nil => rfl
  | cons reader readers => exact absurd hid (h.reading (by simp [hreaders]))

/-! ## Rows -/

variable {row : DirectoryRow} {orphanCleanup : Bool} {message : String}

theorem record_ok {snapshotId : Option String}
    (h : row.record orphanCleanup status snapshotId code message = .ok row') :
    row' = row.registered status snapshotId code message := by
  rw [DirectoryRow.record] at h
  split at h
  · cases h
  · split at h
    · cases h
    · obtain ⟨_, -, h⟩ := bind_eq_ok.mp h
      exact (Except.ok.inj h).symm

theorem normalizeKopiaSnapshotId_empty : normalizeKopiaSnapshotId "" = "" := by decide +kernel

theorem record_none (h : row.record orphanCleanup status none code message = .ok row') :
    row'.kopiaSnapshotId = none ∧ row'.repositoryLocator = row.repositoryLocator ∧
      row'.nodeTaskId = row.nodeTaskId := by
  obtain rfl := record_ok h
  refine ⟨?_, by simp, by simp⟩
  rw [registered_kopiaSnapshotId, Option.getD_none, if_pos normalizeKopiaSnapshotId_empty]

/-- A result with an identifier is recorded with a status that ends the directory. -/
theorem record_some {snapshotId message : String} (hstatus : status.isTerminal = true)
    (h : row.record orphanCleanup status (some snapshotId) code message = .ok row') :
    row'.repositoryLocator = row.repositoryLocator ∧ row'.nodeTaskId = row.nodeTaskId ∧
      row'.status.isTerminal = true ∧
      (row'.kopiaSnapshotId ≠ none →
        normalizeKopiaSnapshotId snapshotId ≠ "" ∧ row'.hasSnapshot = true) ∧
      (normalizeKopiaSnapshotId snapshotId ≠ "" → row'.kopiaSnapshotId ≠ none) := by
  obtain rfl := record_ok h
  have hid := registered_kopiaSnapshotId row status (some snapshotId) code message
  rw [Option.getD_some] at hid
  refine ⟨by simp, by simp, by simpa using hstatus, fun hsome => ?_, fun hne => ?_⟩
  · rw [hid] at hsome
    have hne : normalizeKopiaSnapshotId snapshotId ≠ "" := by
      intro hempty
      exact hsome (if_pos hempty)
    refine ⟨hne, ?_⟩
    rw [DirectoryRow.hasSnapshot, hid, if_neg hne]
    simpa using hne
  · rw [hid, if_neg hne]
    exact Option.some_ne_none _

variable {repository : Repository}

theorem ensureRow_ok (h : row.ensure repository nodeId = .ok row') :
    ∃ stored, ensureSnapshotRepositoryLocator repository (some nodeId) row.hasSnapshot
      row.repositoryLocator = .ok stored ∧ row' = { row with repositoryLocator := stored } := by
  obtain ⟨stored, hstored, hrow⟩ := map_eq_ok.mp h
  exact ⟨stored, hstored, hrow.symm⟩

theorem ensureRow_built (hwritten : Written repository row.repositoryLocator)
    (hid : row.kopiaSnapshotId = none) (h : row.ensure repository nodeId = .ok row') :
    ∃ l, buildSnapshotRepositoryLocator repository (some nodeId) = .ok l ∧
      row' = { row with repositoryLocator := l.payload } := by
  obtain ⟨stored, hstored, rfl⟩ := ensureRow_ok h
  obtain ⟨l, hbuild, hcases⟩ := ensure_ok hwritten hstored
  rcases hcases with rfl | ⟨hsnapshot, -, -⟩
  · exact ⟨l, hbuild, rfl⟩
  · rw [DirectoryRow.hasSnapshot, hid] at hsnapshot
    cases hsnapshot

theorem Placed.touch (h : Placed s) (hid : row.kopiaSnapshotId = s.row.kopiaSnapshotId)
    (hstored : row.repositoryLocator = s.row.repositoryLocator)
    (hnamed : row.nodeTaskId = s.row.nodeTaskId ∨ row.nodeTaskId = none)
    (hstatus : s.row.status.isTerminal = true → row.status.isTerminal = true) :
    Placed { s with row } := by
  refine ⟨h.ids, h.keyed, h.valid, ?_, ?_, ?_, ?_, ?_, ?_, h.derived, ?_⟩
  · show Written s.repository row.repositoryLocator
    rw [hstored]
    exact h.written
  · intro t ht
    obtain ⟨a, ha, heq⟩ := h.current t ht
    exact ⟨a, ha, hstored.trans heq⟩
  · intro t ht
    rcases hnamed with hnamed | hnamed
    · exact h.named t (hnamed ▸ ht)
    · rw [show row.nodeTaskId = none from hnamed] at ht
      cases ht
  · intro hne
    obtain ⟨hsnapshot, hterminal⟩ := h.settled (hid ▸ hne)
    refine ⟨?_, hstatus hterminal⟩
    show decide (row.kopiaSnapshotId.getD "" ≠ "") = true
    rw [hid]
    exact hsnapshot
  · exact fun hne => h.origin (hid ▸ hne)
  · exact fun hne => hid ▸ h.reading hne
  · intro reader hreader
    show reader.Agrees row.repositoryLocator
    rw [hstored]
    exact h.readers reader hreader

theorem Placed.settle (h : Placed s) (hid : s.row.kopiaSnapshotId = none)
    (hrow : row.kopiaSnapshotId = none)
    (hstored : row.repositoryLocator = s.row.repositoryLocator)
    (hnamed : row.nodeTaskId = s.row.nodeTaskId ∨ row.nodeTaskId = none) :
    Placed { s with row } ∧ Steady s { s with row } := by
  refine ⟨?_, .of_none hid⟩
  refine ⟨h.ids, h.keyed, h.valid, ?_, ?_, ?_, fun hne => absurd hrow hne, fun hne => absurd hrow hne,
    fun hne => absurd hid (h.reading hne), h.derived, ?_⟩
  · show Written s.repository row.repositoryLocator
    rw [hstored]
    exact h.written
  · intro t ht
    obtain ⟨a, ha, heq⟩ := h.current t ht
    exact ⟨a, ha, hstored.trans heq⟩
  · intro t ht
    rcases hnamed with hnamed | hnamed
    · exact h.named t (hnamed ▸ ht)
    · rw [show row.nodeTaskId = none from hnamed] at ht
      cases ht
  · intro reader hreader
    show reader.Agrees row.repositoryLocator
    rw [hstored]
    exact h.readers reader hreader

theorem Placed.result (h : Placed s) {attempt : BackupAttempt}
    (hstatus : status.isTerminal = true) (hprogress : s.row.status.isTerminal = false)
    (hlast : normalizeKopiaSnapshotId attempt.snapshotId ≠ "" → s.dispatchedFor = some attempt.id)
    (hrecord : s.row.record orphanCleanup status (some attempt.snapshotId) code message = .ok row) :
    Placed { s with row, source := some attempt.id } ∧
      Steady s { s with row, source := some attempt.id } := by
  obtain ⟨hstored, hnamed, hterminal, hsome, -⟩ := record_some hstatus hrecord
  obtain ⟨hid, hreaders⟩ := h.fresh hprogress
  refine ⟨⟨h.ids, h.keyed, h.valid, ?_, ?_, ?_, ?_, ?_, ?_, h.derived, ?_⟩, .of_none hid⟩
  · show Written s.repository row.repositoryLocator
    rw [hstored]
    exact h.written
  · intro t ht
    obtain ⟨a, ha, heq⟩ := h.current t ht
    exact ⟨a, ha, hstored.trans heq⟩
  · intro t ht
    exact h.named t (hnamed ▸ ht)
  · exact fun hne => ⟨(hsome hne).2, hterminal⟩
  · intro hne t ht
    obtain rfl : attempt.id = t := by simpa using ht
    exact hlast (hsome hne).1
  · exact fun hne => absurd hreaders hne
  · intro reader hreader
    rw [show (_ : LocatorState).readers = s.readers from rfl, hreaders] at hreader
    cases hreader

/-! ## Tasks -/

theorem mem_of_attempt {id : Nat} (h : s.attempt id = some a) : a ∈ s.attempts ∧ a.id = id :=
  Table.mem_of_find h

theorem mem_of_nodeTask (h : s.nodeTask nodeId = some a) : a ∈ s.attempts := by
  rcases Option.or_eq_some_iff.mp h with hnamed | ⟨-, hfound⟩
  · obtain ⟨id, -, hid⟩ := Option.bind_eq_some_iff.mp hnamed
    exact (mem_of_attempt hid).1
  · exact List.mem_of_find?_eq_some hfound

section

variable (h : Placed s)

include h

variable {locator : SnapshotRepositoryLocator} {attempt : BackupAttempt}

/-- A directory without a snapshot gets the locator of the task that is taken up again. -/
theorem Placed.ensured {ensured : DirectoryRow} (hid : s.row.kopiaSnapshotId = none)
    (hresumes : s.Resumes attempt) (hrow : s.row.ensure s.repository attempt.nodeId = .ok ensured) :
    ensured = { s.row with repositoryLocator := attempt.locator.payload } := by
  obtain ⟨l, hbuild, rfl⟩ := ensureRow_built h.written hid hrow
  rw [show buildSnapshotRepositoryLocator s.repository (some (attempt.nodeId : Int)) =
    .ok attempt.locator from hresumes] at hbuild
  rw [Except.ok.inj hbuild]

theorem Placed.place (row : DirectoryRow) (attempt : BackupAttempt)
    (hreaders : s.readers = []) (hattempt : attempt ∈ s.attempts)
    (hstored : row.repositoryLocator = attempt.locator.payload)
    (hnamed : row.nodeTaskId = some attempt.id)
    (hsettled : row.kopiaSnapshotId ≠ none → row.hasSnapshot = true ∧ row.status.isTerminal = true)
    {source : Option Nat}
    (hsource : row.kopiaSnapshotId ≠ none → ∀ t ∈ source, t = attempt.id) :
    Placed { s with row, dispatchedFor := some attempt.id, source } := by
  refine ⟨h.ids, h.keyed, h.valid, ?_, ?_, ?_, hsettled, ?_, ?_, h.derived, ?_⟩
  · exact .inr ⟨attempt.locator, h.valid attempt hattempt, hstored⟩
  · intro t ht
    obtain rfl : attempt.id = t := by simpa using ht
    exact ⟨attempt, h.keyed.find_eq hattempt, hstored⟩
  · intro t ht
    rw [← hnamed]
    exact ht
  · intro hne t ht
    rw [hsource hne t ht]
  · exact fun hne => absurd hreaders hne
  · intro reader hreader
    rw [show (_ : LocatorState).readers = s.readers from rfl, hreaders] at hreader
    cases hreader

theorem Placed.addAttempt (hid : attempt.id = s.attempts.length)
    (hvalid : LocatorOf s.repository attempt.locator) :
    Placed { s with attempts := attempt :: s.attempts } := by
  have hnew : ∀ a ∈ s.attempts, a.id ≠ attempt.id := by
    intro a ha heq
    have := h.ids a ha
    omega
  refine ⟨?_, h.keyed.cons hnew, ?_, h.written, ?_, h.named, h.settled, h.origin, h.reading,
    h.derived, h.readers⟩
  · intro a ha
    rw [List.length_cons]
    rcases List.mem_cons.mp ha with rfl | ha
    · omega
    · have := h.ids a ha
      omega
  · intro a ha
    rcases List.mem_cons.mp ha with rfl | ha
    · exact hvalid
    · exact h.valid a ha
  · intro t ht
    obtain ⟨a, ha, heq⟩ := h.current t ht
    refine ⟨a, ?_, heq⟩
    have hne : attempt.id ≠ t := by
      have := h.ids a (mem_of_attempt ha).1
      rw [(mem_of_attempt ha).2] at this
      omega
    show Table.find BackupAttempt.id (attempt :: s.attempts) t = some a
    rw [Table.find, List.find?_cons_of_neg (by simpa using hne)]
    exact ha

theorem Placed.report {f : BackupAttempt → BackupAttempt} {id : Nat}
    (hid : ∀ a, (f a).id = a.id) (hlocator : ∀ a, (f a).locator = a.locator) :
    Placed { s with attempts := Table.update BackupAttempt.id s.attempts id f } := by
  have hmem : ∀ a ∈ Table.update BackupAttempt.id s.attempts id f,
      ∃ b ∈ s.attempts, a.id = b.id ∧ a.locator = b.locator := by
    intro a ha
    rw [Table.update] at ha
    obtain ⟨b, hb, rfl⟩ := List.mem_map.mp ha
    refine ⟨b, hb, ?_⟩
    split
    · exact ⟨hid b, hlocator b⟩
    · exact ⟨rfl, rfl⟩
  refine ⟨?_, h.keyed.update hid, ?_, h.written, ?_, h.named, h.settled, h.origin, h.reading,
    h.derived, h.readers⟩
  · intro a ha
    obtain ⟨b, hb, heq, -⟩ := hmem a ha
    rw [heq, show (Table.update BackupAttempt.id s.attempts id f).length = s.attempts.length by
      simp [Table.update]]
    exact h.ids b hb
  · intro a ha
    obtain ⟨b, hb, -, heq⟩ := hmem a ha
    rw [heq]
    exact h.valid b hb
  · intro t ht
    obtain ⟨a, ha, heq⟩ := h.current t ht
    have hfind : Table.find BackupAttempt.id s.attempts t = some a := ha
    refine ⟨if a.id = id then f a else a, ?_, ?_⟩
    · show Table.find BackupAttempt.id (Table.update BackupAttempt.id s.attempts id f) t = _
      rw [Table.find_update hid, hfind]
      rfl
    · split
      · rw [hlocator]
        exact heq
      · exact heq

/-! ## Steps of the control plane -/

theorem Placed.startBackup (hid : s.row.kopiaSnapshotId = none)
    (hreaders : s.readers = []) {allowNewTask : Bool} {d : Dispatched}
    (hd : startBackup s.repository s.attempts.length nodeId allowNewTask s.row = .ok d) :
    Placed (s.dispatched d) := by
  rw [Protection.startBackup] at hd
  split at hd
  · obtain ⟨ensured, hensured, hd⟩ := bind_eq_ok.mp hd
    obtain ⟨locator, hlocator, hd⟩ := bind_eq_ok.mp hd
    obtain ⟨l, hbuild, rfl⟩ := ensureRow_built h.written hid hensured
    obtain rfl : l = locator := Except.ok.inj (hbuild.symm.trans hlocator)
    cases hd
    let attempt : BackupAttempt :=
      { id := s.attempts.length, nodeId, operationAttempt := s.row.retryCount + 1, locator := l }
    have hadd : Placed { s with attempts := attempt :: s.attempts } :=
      h.addAttempt rfl (locatorOf_build hbuild)
    exact hadd.place { s.row with
        repositoryLocator := l.payload, status := .dispatching
        nodeTaskId := some s.attempts.length } attempt hreaders List.mem_cons_self rfl rfl
      (fun hne => absurd hid hne) (fun hne => absurd hid hne)
  · cases hd
    exact h

section

variable (hprogress : s.row.status.isTerminal = false)

include hprogress

theorem Placed.dispatch
    {orphanCleanup allowNewTask : Bool} {d : Dispatched} (hkept : ∀ attempt ∈ s.nodeTask nodeId,
      attempt.status = .success ∨ attempt.status.isActive = true → s.Resumes attempt)
    (hd : dispatchDirectoryBackup s.repository orphanCleanup (s.nodeTask nodeId)
      s.attempts.length nodeId allowNewTask s.row = .ok d) : Placed (s.dispatched d) := by
  obtain ⟨hid, hreaders⟩ := h.fresh hprogress
  unfold dispatchDirectoryBackup at hd
  obtain ⟨_, -, hd⟩ := bind_eq_ok.mp hd
  cases htask : s.nodeTask nodeId with
  | none =>
    rw [htask] at hd
    exact h.startBackup hid hreaders hd
  | some attempt =>
    rw [htask] at hd
    have hattempt := mem_of_nodeTask htask
    dsimp only at hd
    split at hd
    · rename_i hsuccess
      obtain ⟨ensured, hensured, hd⟩ := bind_eq_ok.mp hd
      obtain rfl := h.ensured hid (hkept attempt htask (.inl hsuccess)) hensured
      split at hd
      · obtain ⟨recorded, hrecorded, hd⟩ := bind_eq_ok.mp hd
        cases hd
        obtain ⟨hstored, -, hterminal, hsome, -⟩ := record_some (by rfl) hrecorded
        refine h.place { recorded with nodeTaskId := some attempt.id } attempt hreaders
          hattempt hstored rfl ?_ ?_
        · exact fun hne => ⟨(hsome hne).2, hterminal⟩
        · intro _ t ht
          obtain rfl : attempt.id = t := by simpa using ht
          rfl
      · cases hd
        exact h.place { s.row with
            repositoryLocator := attempt.locator.payload, status := .running
            nodeTaskId := some attempt.id } attempt hreaders hattempt rfl rfl
          (fun hne => absurd hid hne) (fun hne => absurd hid hne)
    · split at hd
      · rename_i hactive
        obtain ⟨ensured, hensured, hd⟩ := bind_eq_ok.mp hd
        obtain rfl := h.ensured hid (hkept attempt htask (.inr hactive)) hensured
        cases hd
        exact h.place { s.row with
            repositoryLocator := attempt.locator.payload
            status := if attempt.status = .running then .running else .dispatching
            nodeTaskId := some attempt.id } attempt hreaders hattempt rfl rfl
          (fun hne => absurd hid hne) (fun hne => absurd hid hne)
      · exact h.startBackup hid hreaders hd

variable {attempt : BackupAttempt} {orphanCleanup : Bool} {observed : Observed} {message : String}

theorem Placed.fail (hobserved : s.row.fail orphanCleanup code message = .ok observed) :
    Placed (s.observed attempt observed) ∧ Steady s (s.observed attempt observed) := by
  obtain ⟨row, hrow, rfl⟩ := map_eq_ok.mp hobserved
  obtain ⟨hid, hstored, hnamed⟩ := record_none hrow
  exact h.settle (h.fresh hprogress).1 hid hstored (.inl hnamed)

theorem Placed.updated {row : DirectoryRow} (hid : row.kopiaSnapshotId = s.row.kopiaSnapshotId)
    (hstored : row.repositoryLocator = s.row.repositoryLocator)
    (hnamed : row.nodeTaskId = s.row.nodeTaskId ∨ row.nodeTaskId = none) :
    Placed (s.observed attempt (.updated row)) ∧ Steady s (s.observed attempt (.updated row)) :=
  have hnone := (h.fresh hprogress).1
  h.settle hnone (hid.trans hnone) hstored hnamed

theorem Placed.recordFailure
    (hlast : normalizeKopiaSnapshotId attempt.snapshotId ≠ "" → s.dispatchedFor = some attempt.id)
    (hobserved : recordFailure orphanCleanup attempt s.row code message = .ok observed) :
    Placed (s.observed attempt observed) ∧ Steady s (s.observed attempt observed) := by
  obtain ⟨row, hrow, rfl⟩ := map_eq_ok.mp hobserved
  refine h.result ?_ hprogress hlast hrow
  split <;> rfl

theorem Placed.observe {o : Observation}
    (hlast : normalizeKopiaSnapshotId attempt.snapshotId ≠ "" → attempt.status.isActive = false →
      s.dispatchedFor = some attempt.id)
    (hobserved : observeRunningDirectory orphanCleanup o attempt s.row = .ok observed) :
    Placed (s.observed attempt observed) ∧ Steady s (s.observed attempt observed) := by
  rw [observeRunningDirectory] at hobserved
  split at hobserved
  · split at hobserved
    · cases hobserved
      exact h.updated hprogress rfl rfl (.inl rfl)
    · split at hobserved
      · exact h.fail hprogress hobserved
      · split at hobserved
        · cases hobserved
          exact h.updated hprogress rfl rfl (.inl rfl)
        · split at hobserved
          · split at hobserved
            · exact h.fail hprogress hobserved
            · cases hobserved
              exact h.updated hprogress rfl rfl (.inl rfl)
          · cases hobserved
            exact h.updated hprogress rfl rfl (.inl rfl)
  · rename_i hended
    have hlast' := fun hne => hlast hne (Bool.eq_false_iff.mpr hended)
    split at hobserved
    · split at hobserved
      · exact h.fail hprogress hobserved
      · obtain ⟨row, hrow, rfl⟩ := map_eq_ok.mp hobserved
        exact h.result rfl hprogress hlast' hrow
    · rw [observeFailure] at hobserved
      split at hobserved
      · split at hobserved
        · cases hobserved
          exact h.updated hprogress rfl rfl (.inr rfl)
        · split at hobserved
          · cases hobserved
            exact h.updated hprogress rfl rfl (.inl rfl)
          · exact h.recordFailure hprogress hlast' hobserved
      · split at hobserved
        · cases hobserved
          exact h.updated hprogress rfl rfl (.inr rfl)
        · exact h.recordFailure hprogress hlast' hobserved

end

theorem Placed.project {orphanCleanup : Bool} {row : DirectoryRow}
    (hattempt : attempt ∈ s.attempts) (hkept : s.row.kopiaSnapshotId = none → s.Resumes attempt)
    (hrow : projectBackupNodeTaskResult s.repository orphanCleanup attempt s.row = .ok (some row)) :
    Placed { s with row, dispatchedFor := some attempt.id, source := some attempt.id } ∧
      Steady s { s with row, dispatchedFor := some attempt.id, source := some attempt.id } := by
  rw [projectBackupNodeTaskResult] at hrow
  split at hrow
  · rename_i hcond
    obtain ⟨-, -, hmatches, hne⟩ := hcond
    have hnamed : s.row.nodeTaskId = some attempt.id := by
      simp only [lateBackupResultMatchesCurrentAttempt, Bool.and_eq_true,
        decide_eq_true_eq] at hmatches
      exact hmatches.1.1.1
    obtain ⟨ensured, hensured, hrow⟩ := bind_eq_ok.mp hrow
    obtain ⟨recorded, hrecorded, hrow⟩ := bind_eq_ok.mp hrow
    obtain rfl : _ = row := Option.some.inj (Except.ok.inj hrow)
    obtain ⟨hstored, -, hterminal, hsome, hid⟩ := record_some (by rfl) hrecorded
    have hplace : ensured.repositoryLocator = attempt.locator.payload ∧
        (s.row.kopiaSnapshotId ≠ none → ensured.repositoryLocator = s.row.repositoryLocator) := by
      cases hkopia : s.row.kopiaSnapshotId with
      | none =>
        obtain rfl := h.ensured hkopia (hkept hkopia) hensured
        exact ⟨rfl, fun hne => absurd rfl hne⟩
      | some id =>
        obtain ⟨a, ha, heq⟩ := h.current attempt.id (h.named attempt.id hnamed)
        obtain rfl : a = attempt :=
          h.keyed a (mem_of_attempt ha).1 attempt hattempt (mem_of_attempt ha).2
        obtain ⟨stored, hensure, rfl⟩ := ensureRow_ok hensured
        have hsnapshot := (h.settled (by simp [hkopia])).1
        rw [hsnapshot] at hensure
        have hkeep := ensure_kept h.written (heq ▸ payload_ne _) hensure
        exact ⟨hkeep.trans heq, fun _ => hkeep⟩
    refine ⟨?_, fun hsnapshot => ⟨hid hne, fun _ => ?_⟩⟩
    · refine ⟨h.ids, h.keyed, h.valid, ?_, ?_, ?_, ?_, ?_, ?_, h.derived, ?_⟩
      · exact .inr ⟨attempt.locator, h.valid attempt hattempt, hstored.trans hplace.1⟩
      · intro t ht
        obtain rfl : attempt.id = t := by simpa using ht
        exact ⟨attempt, h.keyed.find_eq hattempt, hstored.trans hplace.1⟩
      · exact fun t ht => ht
      · exact fun _ => ⟨(hsome (hid hne)).2, hterminal⟩
      · exact fun _ t ht => ht
      · exact fun _ => hid hne
      · intro reader hreader
        have hkopia := h.reading (List.ne_nil_of_mem hreader)
        show reader.Agrees recorded.repositoryLocator
        rw [hstored, hplace.2 hkopia]
        exact h.readers reader hreader
    · exact hstored.trans (hplace.2 hsnapshot)
  · cases Except.ok.inj hrow

/-! ## Steps of the readers -/

theorem Placed.setReader {before reader : Reader} (hi : s.readers[i]? = some before)
    (hderived : ∀ locator, reader = .derived locator → LocatorOf s.repository locator)
    (hagrees : reader.Agrees s.row.repositoryLocator) : Placed (s.setReader i reader) := by
  have hsome : s.readers ≠ [] := List.ne_nil_of_mem (List.mem_of_getElem? hi)
  refine ⟨h.ids, h.keyed, h.valid, h.written, h.current, h.named, h.settled, h.origin,
    fun _ => h.reading hsome, ?_, ?_⟩
  · intro locator hlocator
    rcases List.mem_or_eq_of_mem_set hlocator with hold | hnew
    · exact h.derived locator hold
    · exact hderived locator hnew.symm
  · intro r hr
    rcases List.mem_or_eq_of_mem_set hr with hold | rfl
    · exact h.readers r hold
    · exact hagrees

theorem Placed.load (hsnapshot : s.row.hasSnapshot = true) :
    Placed { s with readers := s.readers ++ [.loaded s.row.repositoryLocator] } := by
  have hid : s.row.kopiaSnapshotId ≠ none := by
    intro hnone
    rw [DirectoryRow.hasSnapshot, hnone] at hsnapshot
    cases hsnapshot
  refine ⟨h.ids, h.keyed, h.valid, h.written, h.current, h.named, h.settled, h.origin,
    fun _ => hid, ?_, ?_⟩
  · intro locator hlocator
    rcases List.mem_append.mp hlocator with hold | hnew
    · exact h.derived locator hold
    · cases List.mem_singleton.mp hnew
  · intro r hr
    rcases List.mem_append.mp hr with hold | hnew
    · exact h.readers r hold
    · obtain rfl := List.mem_singleton.mp hnew
      exact .inr rfl

theorem Placed.resolve {stored : Json} (lookups : LegacyLookups)
    (hi : s.readers[i]? = some (.loaded stored)) :
    Placed (s.setReader i (resolveLoaded s.repository lookups stored)) := by
  have hstored : stored = .obj [] ∨ stored = s.row.repositoryLocator :=
    h.readers _ (List.mem_of_getElem? hi)
  have hwritten : Written s.repository stored := by
    rcases hstored with rfl | rfl
    · exact .inl rfl
    · exact h.written
  rcases hwritten.readable with ⟨hread, -⟩ | ⟨l, -, hpayload, hread⟩
  · simp only [resolveLoaded, hread]
    cases hbuild : buildLegacySnapshotRepositoryLocator s.repository lookups with
    | error error => exact h.setReader hi (fun _ heq => by cases heq) trivial
    | ok locator =>
      refine h.setReader hi (fun l heq => ?_) trivial
      obtain rfl := Reader.derived.inj heq
      exact locatorOf_buildLegacy hbuild
  · simp only [resolveLoaded, hread]
    refine h.setReader hi (fun _ heq => by cases heq) ?_
    rcases hstored with hempty | rfl
    · exact absurd (hpayload.symm.trans hempty) (payload_ne l)
    · exact hpayload

theorem Placed.fill (hi : s.readers[i]? = some (.derived locator))
    (hempty : s.row.repositoryLocator = .obj []) :
    Placed { s.setReader i (.done locator) with
      row := { s.row with repositoryLocator := locator.payload } } := by
  have hmem := List.mem_of_getElem? hi
  have hid := h.reading (List.ne_nil_of_mem hmem)
  have hfresh : s.dispatchedFor = none := by
    cases hlast : s.dispatchedFor with
    | none => rfl
    | some t =>
      obtain ⟨a, -, heq⟩ := h.current t hlast
      exact absurd (heq.symm.trans hempty) (payload_ne a.locator)
  refine ⟨h.ids, h.keyed, h.valid, .inr ⟨locator, h.derived locator hmem, rfl⟩, ?_, h.named,
    h.settled, h.origin, fun _ => hid, ?_, ?_⟩
  · intro t ht
    have ht : s.dispatchedFor = some t := ht
    rw [hfresh] at ht
    cases ht
  · intro l hl
    rcases List.mem_or_eq_of_mem_set hl with hold | hnew
    · exact h.derived l hold
    · cases hnew
  · intro r hr
    rcases List.mem_or_eq_of_mem_set hr with hold | rfl
    · have hagrees := h.readers r hold
      cases r with
      | loaded stored =>
        rcases hagrees with hagrees | hagrees
        · exact .inl hagrees
        · exact .inl (hagrees.trans hempty)
      | derived l => trivial
      | missed l => exact payload_ne locator
      | done l => exact absurd (hempty.symm.trans hagrees).symm (payload_ne l)
      | raised error => trivial
    · rfl

theorem Placed.refresh (hi : s.readers[i]? = some (.missed locator)) :
    Placed (s.setReader i (resolveRefreshed s.repository locator s.row.repositoryLocator)) := by
  have hne : s.row.repositoryLocator ≠ .obj [] := h.readers _ (List.mem_of_getElem? hi)
  rcases h.written.readable with ⟨-, hempty⟩ | ⟨l, -, hpayload, hread⟩
  · exact absurd hempty hne
  · simp only [resolveRefreshed, hread]
    exact h.setReader hi (fun _ heq => by cases heq) hpayload

end

/-! ## Every step -/

theorem isTerminal_eq_false_of_waiting (h : status = .pending ∨ status = .creating) :
    status.isTerminal = false := by
  rcases h with rfl | rfl <;> rfl

/-- A step that meets the condition keeps the invariant, the snapshot and its locator. -/
theorem Placed.step (h : Placed s) {e : LocatorEvent} (hkept : LocatorKept s e)
    (hs : locatorStep s e = some s') : Placed s' ∧ Steady s s' := by
  cases e with
  | rebind bindNodeType bindNodeId =>
    cases hs
    refine ⟨⟨h.ids, h.keyed, ?_, h.written.rebind _ _, h.current, h.named, h.settled, h.origin,
      h.reading, ?_, h.readers⟩, .of_eq rfl rfl⟩
    · exact fun a ha => (h.valid a ha).rebind _ _
    · exact fun l hl => (h.derived l hl).rebind _ _
  | dispatch orphanCleanup nodeId allowNewTask =>
    rw [locatorStep] at hs
    split at hs
    · rename_i hwaiting
      have hprogress := isTerminal_eq_false_of_waiting hwaiting
      obtain ⟨d, hd, rfl⟩ := Option.map_eq_some_iff.mp hs
      exact ⟨h.dispatch hprogress hkept (ok_of_toOption hd), .of_none (h.fresh hprogress).1⟩
    · cases hs
  | report id status accepted sealed snapshotId =>
    cases hs
    exact ⟨h.report (fun _ => rfl) fun _ => rfl, .of_eq rfl rfl⟩
  | observe orphanCleanup nodeId o =>
    rw [locatorStep] at hs
    split at hs
    · cases hs
    · rename_i hprogress
      have hprogress := Bool.eq_false_iff.mpr hprogress
      cases htask : s.nodeTask nodeId with
      | none =>
        rw [htask] at hs
        cases hs
        have hid := (h.fresh hprogress).1
        exact h.settle hid hid rfl (.inr rfl)
      | some attempt =>
        rw [htask] at hs
        obtain ⟨observed, hobserved, rfl⟩ := Option.map_eq_some_iff.mp hs
        exact h.observe hprogress (hkept attempt htask) (ok_of_toOption hobserved)
  | project orphanCleanup id =>
    rw [locatorStep] at hs
    cases hattempt : s.attempt id with
    | none => simp [hattempt] at hs
    | some attempt =>
      rw [hattempt] at hs
      dsimp only at hs
      split at hs
      · rename_i row hrow
        cases hs
        exact h.project (mem_of_attempt hattempt).1 (hkept attempt hattempt) hrow
      · cases hs
  | settle orphanCleanup cancelled code message =>
    rw [locatorStep] at hs
    split at hs
    · cases hs
    · rename_i hprogress
      obtain ⟨row, hrow, rfl⟩ := Option.map_eq_some_iff.mp hs
      obtain ⟨hid, hstored, hnamed⟩ := record_none (ok_of_toOption hrow)
      exact h.settle (h.fresh (Bool.eq_false_iff.mpr hprogress)).1 hid hstored (.inl hnamed)
  | refreshFailure orphanCleanup code message =>
    rw [locatorStep] at hs
    split at hs
    · obtain ⟨row, hrow, rfl⟩ := Option.map_eq_some_iff.mp hs
      obtain ⟨hid, hstored, hnamed⟩ := record_none (ok_of_toOption hrow)
      exact h.settle hkept hid hstored (.inl hnamed)
    · cases hs
  | delete =>
    cases hs
    exact ⟨h.touch rfl rfl (.inl rfl) fun _ => rfl, .of_eq rfl rfl⟩
  | retryLoad =>
    rw [locatorStep] at hs
    split at hs
    · cases hs
      exact ⟨⟨h.ids, h.keyed, h.valid, h.written, h.current, h.named, h.settled, h.origin,
        h.reading, h.derived, h.readers⟩, .of_eq rfl rfl⟩
    · cases hs
  | retrySave i =>
    obtain ⟨loaded, hloaded, rfl⟩ := Option.map_eq_some_iff.mp hs
    obtain ⟨rfl, hid⟩ := hkept loaded hloaded
    exact h.settle hid hid rfl (.inr rfl)
  | load =>
    rw [locatorStep] at hs
    split at hs
    · rename_i hsnapshot
      cases hs
      exact ⟨h.load hsnapshot, .of_eq rfl rfl⟩
    · cases hs
  | resolve i lookups =>
    rw [locatorStep] at hs
    split at hs
    · rename_i stored hi
      cases hs
      exact ⟨h.resolve lookups hi, .of_eq rfl rfl⟩
    · cases hs
  | fill i =>
    rw [locatorStep] at hs
    split at hs
    · rename_i locator hi
      split at hs
      · rename_i hempty
        cases hs
        exact ⟨h.fill hi hempty, fun hid => ⟨hid, fun hne => absurd hempty hne⟩⟩
      · rename_i hne
        cases hs
        exact ⟨h.setReader hi (fun _ heq => by cases heq) hne, .of_eq rfl rfl⟩
    · cases hs
  | refresh i =>
    rw [locatorStep] at hs
    split at hs
    · rename_i locator hi
      cases hs
      exact ⟨h.refresh hi, .of_eq rfl rfl⟩
    · cases hs

/-! ## Runs -/

/-- What a locator is for: it is the one of the task that wrote the snapshot, and the one that
every finished reader has. Deletion and grouping key a directory by what a reader has. -/
structure SaysWhere (s : LocatorState) : Prop where
  origin : ∀ t ∈ s.source, ∃ a, s.attempt t = some a ∧
    s.row.repositoryLocator = a.locator.payload
  readers : ∀ locator, .done locator ∈ s.readers → s.row.repositoryLocator = locator.payload
  grouping : ∀ resolve rows groups, groupByRepositoryLocator resolve rows [] = .ok groups →
    (∃ locator, .done locator ∈ s.readers ∧
      resolve s.row.toSnapshotDirectory = .ok locator) →
    ∀ g ∈ groups, s.row.toSnapshotDirectory ∈ g.rows →
      s.row.repositoryLocator = g.locator.payload

theorem Placed.saysWhere (h : Placed s) (hid : s.row.kopiaSnapshotId ≠ none) : SaysWhere s := by
  have hreaders : ∀ locator, .done locator ∈ s.readers →
      s.row.repositoryLocator = locator.payload := fun locator hmem => h.readers _ hmem
  refine ⟨fun t ht => h.current t (h.origin hid t ht), hreaders, ?_⟩
  intro resolve rows groups hgroups hresolved g hg hrow
  obtain ⟨locator, hdone, hresolve⟩ := hresolved
  have hgroup := ((groupsOf_groupBy GroupsOf.nil hgroups).mem g hg _ hrow).2
  have heq : locator = g.locator := Except.ok.inj (hresolve.symm.trans hgroup)
  exact heq ▸ hreaders locator hdone

theorem placed_of_reachable (h : locatorSystem.ReachableUnder LocatorKept s) : Placed s :=
  h.invariant (fun _ => .start) fun _ _ _ hplaced hkept hs => (hplaced.step hkept hs).1

/-- Along a run that meets the condition, a directory that has a snapshot and a locator keeps
both, and the locator says where the snapshot was written. -/
theorem locator_stays (h : locatorSystem.ReachableUnder LocatorKept s)
    (hid : s.row.kopiaSnapshotId ≠ none) (hpath : locatorSystem.Path LocatorKept s s') :
    SaysWhere s ∧ SaysWhere s' ∧ (s.row.repositoryLocator ≠ .obj [] →
      s'.row.repositoryLocator = s.row.repositoryLocator) := by
  have hplaced := placed_of_reachable h
  have hinv : (Placed s' ∧ s'.row.kopiaSnapshotId ≠ none) ∧
      (s.row.repositoryLocator ≠ .obj [] →
        s'.row.repositoryLocator = s.row.repositoryLocator) := by
    refine hpath.invariant (I := fun t => (Placed t ∧ t.row.kopiaSnapshotId ≠ none) ∧
      (s.row.repositoryLocator ≠ .obj [] →
        t.row.repositoryLocator = s.row.repositoryLocator)) ?_ ⟨⟨hplaced, hid⟩, fun _ => rfl⟩
    intro t e t' ⟨⟨ht, htid⟩, hsame⟩ hkept hs
    obtain ⟨hplaced', hsteady⟩ := ht.step hkept hs
    obtain ⟨htid', hstored⟩ := hsteady htid
    refine ⟨⟨hplaced', htid'⟩, fun hne => ?_⟩
    rw [hstored (hsame hne ▸ hne), hsame hne]
  exact ⟨hplaced.saysWhere hid, hinv.1.1.saysWhere hinv.1.2, hinv.2⟩

/-! ## A late result after the repository was bound to another node -/

/-- A directory of a NAS repository that is bound to the proxy 5. -/
def nasDirectory : LocatorState where
  repository := ⟨1, .nas, some .proxy, some 5⟩
  row := { id := 1, backupConfigDirId := 1, kopiaSnapshotId := none, status := .pending }

theorem nasDirectory_start : LocatorStart nasDirectory :=
  ⟨rfl, rfl, rfl, rfl, rfl, rfl, rfl, fun h => absurd rfl h⟩

def plainBackup : List LocatorEvent :=
  [.dispatch false 9 true, .report 0 .success true false "k1", .observe false 9 {}, .load]

theorem plainBackup_kept : ∃ s s', locatorSystem.exec nasDirectory plainBackup = some s ∧
    locatorSystem.Every (fun s e _ => LocatorKept s e) nasDirectory plainBackup ∧
    s.row.kopiaSnapshotId = some "k1" ∧ locatorStep s (.resolve 0 {}) = some s' := by
  refine ⟨(locatorSystem.exec nasDirectory plainBackup).get (by decide +kernel),
    ((locatorSystem.exec nasDirectory plainBackup).bind fun s =>
      locatorStep s (.resolve 0 {})).get (by decide +kernel), ?_⟩
  decide +kernel

theorem plainBackup_stays : ∃ s s', s.row.kopiaSnapshotId = some "k1" ∧
    locatorStep s (.resolve 0 {}) = some s' ∧ SaysWhere s ∧ SaysWhere s' ∧
    (s.row.repositoryLocator ≠ .obj [] →
      s'.row.repositoryLocator = s.row.repositoryLocator) := by
  obtain ⟨s, s', hexec, hkept, hid, hread⟩ := plainBackup_kept
  refine ⟨s, s', hid, hread, locator_stays ?_ (by simp [hid]) ?_⟩
  · exact .of_exec (.start nasDirectory_start) hkept hexec
  · exact .single (a := .resolve 0 {}) trivial hread

/-- The directory is failed, the repository is bound to the proxy 6, and then the task of the
proxy 5 succeeds. -/
def lateAdoption : List LocatorEvent :=
  [.dispatch false 9 true, .report 0 .running true false "",
    .settle false false "AGENT_TIMEOUT" "Agent task timed out.", .rebind (some .proxy) (some 6),
    .report 0 .success true false "k1", .project false 0]

theorem lateAdoption_moved : ∃ s, locatorSystem.exec nasDirectory lateAdoption = some s ∧
    s.row.kopiaSnapshotId = some "k1" ∧ s.source = some 0 ∧
    ∀ a ∈ s.attempt 0, s.row.repositoryLocator ≠ a.locator.payload := by
  refine ⟨(locatorSystem.exec nasDirectory lateAdoption).get (by decide +kernel), ?_⟩
  decide +kernel

/-- The adopted snapshot was written through one proxy, and its locator names another one. -/
theorem late_adoption_misplaces : ¬ ∀ s, locatorSystem.Reachable s →
    s.row.kopiaSnapshotId ≠ none → SaysWhere s := by
  intro h
  obtain ⟨s, hexec, hid, hsource, hmoved⟩ := lateAdoption_moved
  obtain ⟨a, ha, hstored⟩ :=
    (h s (.of_exec nasDirectory_start hexec) (by simp [hid])).origin 0 hsource
  exact hmoved a ha hstored

end HyperFileLens.Protection
