import HyperFileLens.Library.Transition
import HyperFileLens.Protection.SourceSnapshot

/-!
# Results of snapshots under deletion

A snapshot under any sequence of directory results and summary refreshes, from callers
that each hold an instance of the row, current or not.

*Deletion.*  The last branch of `refresh_source_snapshot_summary` leaves a snapshot under
deletion alone. The branch before it, for a snapshot of which every directory is
decided, does not look at the status. `update_or_create` does not look at the directory
it replaces.

*Condition.*  A step keeps what is deleted exactly if the caller knows of the deletion,
some directory is still undecided, and a result is not for a directory that is gone.
-/

namespace HyperFileLens.Protection

open Transition

/-! ## Steps -/

inductive SummaryCall where
  | result (orphanCleanup : Bool) (instance' : BackupSourceSnapshot)
      (result : SnapshotDirectory) (now : Int)
  | refresh (instance' : BackupSourceSnapshot) (finishedAt : Option Int) (now : Int)

/-- The rows after a call. A refused result leaves them. -/
def SnapshotRecord.call (s : SnapshotRecord) : SummaryCall → SnapshotRecord
  | .result orphanCleanup instance' result now =>
    match recordSourceSnapshotDirectoryResult orphanCleanup s instance' result now with
    | .ok (s', _) => s'
    | .error _ => s
  | .refresh instance' finishedAt now =>
    let summary := refreshSourceSnapshotSummary instance' s.directories finishedAt now
    { s with row := s.row.saveSummary summary }

def summarySystem : System SnapshotRecord SummaryCall where
  init := fun _ => True
  step := fun s call => some (s.call call)

/-! ## What is deleted -/

def DirectoriesStay (rows rows' : List SnapshotDirectory) : Prop :=
  ∀ (i : Nat) (d : SnapshotDirectory), rows[i]? = some d → d.status = .deleted →
    ∃ d', rows'[i]? = some d' ∧ d'.status = .deleted

/-- A snapshot under deletion stays under deletion, and its deleted directories stay
deleted. -/
def StaysDeleted (s : SnapshotRecord) (_ : SummaryCall) (s' : SnapshotRecord) : Prop :=
  (s.row.status.isDeletion = true → s'.row.status.isDeletion = true) ∧
    DirectoriesStay s.directories s'.directories

def AllDecided (instance' : BackupSourceSnapshot) (rows : List SnapshotDirectory) : Prop :=
  0 < max instance'.directoryCount rows.length ∧
    max instance'.directoryCount rows.length ≤ rows.countP fun row => row.status.isTerminal

/-- The caller knows of the deletion, and some directory is undecided. -/
def Withheld (s : SnapshotRecord) (instance' : BackupSourceSnapshot)
    (rows : List SnapshotDirectory) : Prop :=
  s.row.status.isDeletion = true →
    instance'.status.isDeletion = true ∧ ¬AllDecided instance' rows

/-- The result is a valid one, and no cleanup of the repository is under way. -/
structure Accepted (orphanCleanup : Bool) (result : SnapshotDirectory) : Prop where
  identified : result.status = .available → result.physicalId ≠ ""
  explained : result.status = .failed →
    Text.strip result.errorCode ≠ "" ∨ Text.strip result.errorMessage ≠ ""
  unfenced : orphanCleanup = false

def LeavesDeleted (s : SnapshotRecord) : SummaryCall → SnapshotRecord → Prop
  | .result orphanCleanup instance' result _, _ =>
    Accepted orphanCleanup result →
      Withheld s instance' (putDirectory s.directories result.registered) ∧
        ∀ d ∈ s.directories, d.backupConfigDirId = result.backupConfigDirId →
          d.status = .deleted → result.status = .deleted
  | .refresh instance' _ _, _ => Withheld s instance' s.directories

/-! ## One call -/

variable {rows : List SnapshotDirectory}

/-- A summary is under deletion exactly if the caller knows of it and some directory is
undecided. -/
theorem isDeletion_refresh (instance' : BackupSourceSnapshot) (rows : List SnapshotDirectory)
    (finishedAt : Option Int) (now : Int) :
    (refreshSourceSnapshotSummary instance' rows finishedAt now).status.isDeletion = true ↔
      instance'.status.isDeletion = true ∧ ¬AllDecided instance' rows := by
  rw [refreshSourceSnapshotSummary]
  dsimp only
  split
  case isTrue hall =>
    have hdecided : AllDecided instance' rows := hall
    refine iff_of_false ?_ fun h => h.2 hdecided
    split
    · simp [SnapshotStatus.isDeletion]
    · split <;> simp [SnapshotStatus.isDeletion]
  case isFalse hsome =>
    have hundecided : ¬AllDecided instance' rows := hsome
    split
    case isTrue => exact (and_iff_left hundecided).symm
    case isFalse hopen =>
      rw [not_or] at hopen
      refine iff_of_false (by simp [SnapshotStatus.isDeletion]) fun h => hopen.2 h.1

theorem getElem?_putDirectory (result : SnapshotDirectory) {i : Nat} {d : SnapshotDirectory}
    (h : rows[i]? = some d) :
    (putDirectory rows result)[i]? = some
      (if d.backupConfigDirId = result.backupConfigDirId then { result with id := d.id } else d) := by
  rw [putDirectory]
  split
  case isTrue => rw [List.getElem?_map, h, Option.map_some]
  case isFalse hnone =>
    have hmem : d ∈ rows := List.mem_of_getElem? h
    have hne : d.backupConfigDirId ≠ result.backupConfigDirId := by
      intro heq
      exact hnone (List.any_eq_true.mpr ⟨d, hmem, decide_eq_true heq⟩)
    have hlt : i < rows.length := (List.getElem?_eq_some_iff.mp h).1
    rw [if_neg hne, List.getElem?_append_left hlt, h]

/-- A result keeps the deleted directories exactly if it is not for one of them. -/
theorem directoriesStay_putDirectory (result : SnapshotDirectory) :
    DirectoriesStay rows (putDirectory rows result) ↔ ∀ d ∈ rows, d.backupConfigDirId =
      result.backupConfigDirId → d.status = .deleted → result.status = .deleted := by
  constructor
  · intro hstay d hd heq hdeleted
    obtain ⟨i, hi⟩ := List.mem_iff_getElem?.mp hd
    obtain ⟨d', hd', hdeleted'⟩ := hstay i d hi hdeleted
    rw [getElem?_putDirectory result hi, if_pos heq] at hd'
    cases hd'
    exact hdeleted'
  · intro hresult i d hi hdeleted
    refine ⟨_, getElem?_putDirectory result hi, ?_⟩
    split
    case isTrue heq => exact hresult d (List.mem_of_getElem? hi) heq hdeleted
    case isFalse => exact hdeleted

theorem directoriesStay_refl (rows : List SnapshotDirectory) : DirectoriesStay rows rows :=
  fun _ d hi hdeleted => ⟨d, hi, hdeleted⟩

theorem withheld_iff {s : SnapshotRecord} {instance' : BackupSourceSnapshot}
    {finishedAt : Option Int} {now : Int} :
    (s.row.status.isDeletion = true → (s.row.saveSummary (refreshSourceSnapshotSummary instance'
      rows finishedAt now)).status.isDeletion = true) ↔ Withheld s instance' rows := by
  rw [Withheld, ← isDeletion_refresh instance' rows finishedAt now]
  rfl

/-- An accepted result is registered, with a summary of the rows. Another one is
refused. -/
theorem call_result (s : SnapshotRecord) (orphanCleanup : Bool)
    (instance' : BackupSourceSnapshot) (result : SnapshotDirectory) (now : Int) :
    (Accepted orphanCleanup result ∧
      (s.call (.result orphanCleanup instance' result now)).directories =
        putDirectory s.directories result.registered ∧
      (s.call (.result orphanCleanup instance' result now)).row =
        s.row.saveSummary (refreshSourceSnapshotSummary instance'
          (putDirectory s.directories result.registered) none now)) ∨
    (¬Accepted orphanCleanup result ∧ s.call (.result orphanCleanup instance' result now) = s) := by
  rw [SnapshotRecord.call, recordSourceSnapshotDirectoryResult]
  by_cases hanonymous : result.status = .available ∧ result.physicalId = ""
  · rw [if_pos hanonymous]
    exact Or.inr ⟨fun h => h.identified hanonymous.1 hanonymous.2, rfl⟩
  by_cases hsilent : result.status = .failed ∧ Text.strip result.errorCode = "" ∧
      Text.strip result.errorMessage = ""
  · rw [if_neg hanonymous, if_pos hsilent]
    refine Or.inr ⟨fun h => ?_, rfl⟩
    cases h.explained hsilent.1 with
    | inl hcode => exact hcode hsilent.2.1
    | inr hmessage => exact hmessage hsilent.2.2
  rw [if_neg hanonymous, if_neg hsilent]
  cases horphan : orphanCleanup with
  | true =>
    refine Or.inr ⟨fun h => ?_, rfl⟩
    cases h.unfenced
  | false =>
    refine Or.inl ⟨⟨fun h => not_and.mp hanonymous h, fun h => ?_, rfl⟩, rfl, rfl⟩
    exact not_and_or.mp (not_and.mp hsilent h)

theorem staysDeleted_iff (s : SnapshotRecord) (call : SummaryCall) :
    StaysDeleted s call (s.call call) ↔ LeavesDeleted s call (s.call call) := by
  cases call with
  | result orphanCleanup instance' result now =>
    cases call_result s orphanCleanup instance' result now with
    | inl haccepted =>
      obtain ⟨haccepted, hrows, hrow⟩ := haccepted
      have hdir : result.registered.backupConfigDirId = result.backupConfigDirId := by
        simp only [SnapshotDirectory.registered]
      have hstatus : result.registered.status = result.status := by
        simp only [SnapshotDirectory.registered]
      rw [StaysDeleted, hrow, hrows, withheld_iff, directoriesStay_putDirectory, hdir,
        hstatus, LeavesDeleted, forall_prop_of_true haccepted]
    | inr hrefused =>
      obtain ⟨hrefused, hcall⟩ := hrefused
      rw [hcall]
      exact iff_of_true ⟨fun h => h, directoriesStay_refl _⟩ fun h => absurd h hrefused
  | refresh instance' finishedAt now =>
    have hrows : (s.call (.refresh instance' finishedAt now)).directories = s.directories := by
      simp only [SnapshotRecord.call]
    have hrow : (s.call (.refresh instance' finishedAt now)).row = s.row.saveSummary
        (refreshSourceSnapshotSummary instance' s.directories finishedAt now) := by
      simp only [SnapshotRecord.call]
    rw [StaysDeleted, hrows, hrow, and_iff_left (directoriesStay_refl _), withheld_iff,
      LeavesDeleted]

/-- Along every sequence of calls, what is deleted stays deleted exactly if every call
leaves it. -/
theorem deleted_stays_iff (s : SnapshotRecord) (calls : List SummaryCall) :
    summarySystem.Every StaysDeleted s calls ↔ summarySystem.Every LeavesDeleted s calls := by
  refine System.every_congr_of_invariant (I := fun _ => True) ?_ (fun _ _ _ _ _ _ => trivial)
    trivial calls
  intro s call s' _ hstep
  cases hstep
  exact staysDeleted_iff s call

/-- A snapshot under deletion with its directory in place. -/
def deletingRecord : SnapshotRecord where
  row := { id := 1, status := .deleting, createdAt := 0, directoryCount := 1 }
  directories := [⟨1, 7, some "k1", .available, "", ""⟩]

/-- A late refresh makes it available again. -/
theorem deleting_revived :
    ¬ ∀ (s : SnapshotRecord) (calls : List SummaryCall),
      summarySystem.Every StaysDeleted s calls := by
  intro h
  obtain ⟨hstays, -⟩ := h deletingRecord [.refresh deletingRecord.row none 5]
  exact absurd (hstays.1 (by decide)) (by decide +kernel)

end HyperFileLens.Protection
