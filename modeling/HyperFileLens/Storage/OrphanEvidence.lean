import HyperFileLens.Storage.OrphanGate

/-!
# Evidence for the end of a Controller deletion

A candidate leaves `deleting` when its attempt has stopped, under the token of that
attempt and at the revision that the attempt has seen.

*Invariant.*  `EvidenceInv` ties a candidate in `deleting`, the newest attempt and the
token of the open task together. An attempt that is live, because it is prepared or
because its lease is held, is the newest one and its candidate is in `deleting`.

*Local facts.*  An advance that registers or recovers an attempt has seen its lease free
before. `Grown` says why that stays true while others move on: a lease that is free is
never taken again.

*Defect.*  An advance saves `managed`, and `candidate` for a new discovery, by the key of
a row that it has read before. Runs under `SavesSettled` do so only while the row is not
in `deleting`.
-/

namespace HyperFileLens.Storage

open Tasks Service Transition

/-! ## Attempts along a run -/

def DeleteAttempt.live (a : DeleteAttempt) : Bool := a.state = .prepared || !a.stopped

structure DeleteAttempt.Later (a a' : DeleteAttempt) : Prop where
  id : a'.id = a.id
  candidate : a'.candidate = a.candidate
  repositoryTask : a'.repositoryTask = a.repositoryTask
  observationRevision : a'.observationRevision = a.observationRevision
  stopped : a.stopped = true → a'.stopped = true
  settled : a.state ≠ .prepared → a'.state ≠ .prepared

variable {a : DeleteAttempt} {db : OrphanTables} {f : DeleteAttempt → DeleteAttempt}
    {snapshotId : String} {c : OrphanSnapshot} {t : Nat} {row : ReconcileTask} {r : OrphanCall}
    {controller : Bool}

theorem DeleteAttempt.Later.refl (a : DeleteAttempt) : a.Later a :=
  ⟨rfl, rfl, rfl, rfl, fun hs => hs, fun hs => hs⟩

theorem DeleteAttempt.Later.trans {a' a'' : DeleteAttempt} (h : a.Later a') (h' : a'.Later a'') :
    a.Later a'' where
  id := h'.id.trans h.id
  candidate := h'.candidate.trans h.candidate
  repositoryTask := h'.repositoryTask.trans h.repositoryTask
  observationRevision := h'.observationRevision.trans h.observationRevision
  stopped := fun hs => h'.stopped (h.stopped hs)
  settled := fun hs => h'.settled (h.settled hs)

theorem DeleteAttempt.Later.live {a' : DeleteAttempt} (h : a.Later a') (hlive : a'.live = true) :
    a.live = true := by
  cases ha : a.live with
  | true => rfl
  | false =>
    simp only [DeleteAttempt.live, Bool.or_eq_false_iff, decide_eq_false_iff_not,
      Bool.not_eq_false'] at ha
    simp [DeleteAttempt.live, h.settled ha.1, h.stopped ha.2] at hlive

theorem DeleteAttempt.later_recovered (a : DeleteAttempt) :
    a.Later { a with state := .recovered } :=
  ⟨rfl, rfl, rfl, rfl, fun hs => hs, fun _ => by simp⟩

theorem DeleteAttempt.later_finish (a : DeleteAttempt) : a.Later a.finish := by
  rw [finish]
  split
  · exact ⟨rfl, rfl, rfl, rfl, fun hs => hs, fun _ => by simp⟩
  · exact .refl a

theorem DeleteAttempt.later_closed (a : DeleteAttempt) : a.Later { a with worker := false } :=
  ⟨rfl, rfl, rfl, rfl, fun hs => by simp_all [stopped], fun hs => hs⟩

theorem DeleteAttempt.later_spawned (a : DeleteAttempt) (hworker : a.worker = true) :
    a.Later { a with runner := true } :=
  ⟨rfl, rfl, rfl, rfl, fun hs => by simp [stopped, hworker] at hs, fun hs => hs⟩

theorem DeleteAttempt.later_ended (a : DeleteAttempt) : a.Later { a with runner := false } :=
  ⟨rfl, rfl, rfl, rfl, fun hs => by simp_all [stopped], fun hs => hs⟩

theorem DeleteAttempt.later_writeReceipt (receipt : Receipt) (a : DeleteAttempt) :
    a.Later (a.writeReceipt receipt) := by
  rw [writeReceipt]
  split
  · exact ⟨rfl, rfl, rfl, rfl, fun hs => hs, fun hs => hs⟩
  · exact .refl a

/-- Attempts stay, and a lease that is free stays free. -/
def Grown (db db' : OrphanTables) : Prop := ∀ a ∈ db.attempts, ∃ a' ∈ db'.attempts, a.Later a'

theorem Grown.refl (db : OrphanTables) : Grown db db := fun a ha => ⟨a, ha, .refl a⟩

theorem Grown.trans {db' db'' : OrphanTables} (h : Grown db db') (h' : Grown db' db'') :
    Grown db db'' := by
  intro a ha
  obtain ⟨a', ha', hlater⟩ := h a ha
  obtain ⟨a'', ha'', hlater'⟩ := h' a' ha'
  exact ⟨a'', ha'', hlater.trans hlater'⟩

theorem Grown.of_attempts {db' : OrphanTables} (h : db'.attempts = db.attempts) : Grown db db' :=
  fun a ha => ⟨a, h ▸ ha, .refl a⟩

variable {id : Nat}

theorem later_update (hlater : ∀ a ∈ db.attempts, a.id = id → a.Later (f a)) :
    ∀ a ∈ db.attempts, a.Later (if a.id = id then f a else a) := by
  intro a ha
  split
  · rename_i hai
    exact hlater a ha hai
  · exact .refl a

theorem Grown.updateAttempt (hlater : ∀ a ∈ db.attempts, a.id = id → a.Later (f a)) :
    Grown db (db.updateAttempt id f) :=
  fun a ha => ⟨_, List.mem_map_of_mem ha, later_update hlater a ha⟩

/-! ## The invariant -/

def ReconcileTask.isOpen (row : ReconcileTask) : Prop := row.task.status.isTerminal = false

/-- A candidate in `deleting`, its attempt and the open task. -/
structure EvidenceInv (db : OrphanTables) : Prop where
  fresh : ∀ a ∈ db.attempts, a.id < db.attempts.length
  attempts : Table.Keyed DeleteAttempt.id db.attempts
  candidates : Table.Keyed OrphanSnapshot.snapshotId db.candidates
  token : ∀ row ∈ db.tasks, row.isOpen → ∀ id, row.executionToken = some id →
    ∃ a, db.attempts.head? = some a ∧ a.id = id
  deleting : ∀ c ∈ db.candidates, c.status = .deleting →
    ∃ a, db.attempts.head? = some a ∧ a.candidate = c.snapshotId ∧
      ∃ row ∈ db.tasks, row.id = a.repositoryTask ∧ row.isOpen ∧ row.executionToken = some a.id
  live : ∀ a ∈ db.attempts, a.live = true → db.attempts.head? = some a ∧
    ∃ c ∈ db.candidates, c.snapshotId = a.candidate ∧ c.status = .deleting

variable {db db' : OrphanTables}

theorem OrphanTables.Fresh.evidenceInv (h : db.Fresh) : EvidenceInv db where
  fresh := fun a ha => by simp [h.attempts] at ha
  attempts := h.attempts ▸ .nil
  candidates := h.candidates ▸ .nil
  token := fun row hrow => by simp [h.tasks] at hrow
  deleting := fun c hc => by simp [h.candidates] at hc
  live := fun a ha => by simp [h.attempts] at ha

theorem OrphanTables.anyDeleting_eq_false :
    db.anyDeleting = false ↔ ∀ c ∈ db.candidates, c.status ≠ .deleting := by
  simp [OrphanTables.anyDeleting]

theorem OrphanTables.mem_of_candidate (h : db.candidate snapshotId = some c) :
    c ∈ db.candidates ∧ c.snapshotId = snapshotId :=
  Table.mem_of_find h

theorem OrphanTables.mem_of_attempt (h : db.attempt id = some a) : a ∈ db.attempts ∧ a.id = id :=
  Table.mem_of_find h

/-- While nothing is in `deleting`, no attempt is live. -/
theorem EvidenceInv.not_live (h : EvidenceInv db)
    (hfree : ∀ c ∈ db.candidates, c.status ≠ .deleting) (ha : a ∈ db.attempts) :
    a.live = false := by
  cases hlive : a.live with
  | false => rfl
  | true =>
    obtain ⟨-, c, hc, -, hstatus⟩ := h.live a ha hlive
    exact absurd hstatus (hfree c hc)

/-- Tables in which nothing is in `deleting` and no attempt is live. -/
theorem EvidenceInv.quiet (hfresh : ∀ a ∈ db.attempts, a.id < db.attempts.length)
    (hattempts : Table.Keyed DeleteAttempt.id db.attempts)
    (hcandidates : Table.Keyed OrphanSnapshot.snapshotId db.candidates)
    (htoken : ∀ row ∈ db.tasks, row.isOpen → ∀ id, row.executionToken = some id →
      ∃ a, db.attempts.head? = some a ∧ a.id = id)
    (hfree : ∀ c ∈ db.candidates, c.status ≠ .deleting)
    (hlive : ∀ a ∈ db.attempts, a.live = false) : EvidenceInv db where
  fresh := hfresh
  attempts := hattempts
  candidates := hcandidates
  token := htoken
  deleting := fun c hc hstatus => absurd hstatus (hfree c hc)
  live := fun a ha hlive' => by simp [hlive a ha] at hlive'

/-! ## Changes that leave the evidence alone -/

/-- A change of a task that leaves its key, its token and its end alone. -/
theorem EvidenceInv.updateTask (h : EvidenceInv db) {f : ReconcileTask → ReconcileTask}
    (hid : ∀ row, (f row).id = row.id) (htoken : ∀ row, (f row).executionToken = row.executionToken)
    (hended : ∀ row ∈ db.tasks, row.id = t →
      (f row).task.status.isTerminal = row.task.status.isTerminal) :
    EvidenceInv (db.updateTask t f) where
  fresh := h.fresh
  attempts := h.attempts
  candidates := h.candidates
  token := by
    intro row' hrow' hopen id hid'
    rcases Table.mem_update.mp hrow' with ⟨row, hrow, ht, rfl⟩ | ⟨hrow, -⟩
    · rw [htoken] at hid'
      exact h.token row hrow ((hended row hrow ht).symm.trans hopen) id hid'
    · exact h.token row' hrow hopen id hid'
  deleting := by
    intro c hc hstatus
    obtain ⟨a, ha, hca, row, hrow, hrt, hopen, htok⟩ := h.deleting c hc hstatus
    refine ⟨a, ha, hca, _, List.mem_map_of_mem hrow, ?_, ?_, ?_⟩
    · exact (Table.key_update_row hid row).trans hrt
    · split
      · rename_i ht
        exact (hended row hrow ht).trans hopen
      · exact hopen
    · split
      · exact (htoken row).trans htok
      · exact htok
  live := h.live

/-- A change of candidates that leaves those in `deleting` alone. -/
theorem EvidenceInv.changeCandidates (h : EvidenceInv db) {candidates : List OrphanSnapshot}
    (hkeyed : Table.Keyed OrphanSnapshot.snapshotId candidates)
    (hdeleting : ∀ c, c.status = .deleting → (c ∈ candidates ↔ c ∈ db.candidates)) :
    EvidenceInv { db with candidates := candidates } where
  fresh := h.fresh
  attempts := h.attempts
  candidates := hkeyed
  token := h.token
  deleting := fun c hc hstatus => h.deleting c ((hdeleting c hstatus).mp hc) hstatus
  live := by
    intro a ha hlive
    obtain ⟨hhead, c, hc, hcand, hstatus⟩ := h.live a ha hlive
    exact ⟨hhead, c, (hdeleting c hstatus).mpr hc, hcand, hstatus⟩

/-- A change of a candidate that is not in `deleting`, before and after. -/
theorem EvidenceInv.updateCandidate (h : EvidenceInv db) {f : OrphanSnapshot → OrphanSnapshot}
    (hkey : ∀ c, (f c).snapshotId = c.snapshotId) (hf : ∀ c, (f c).status ≠ .deleting)
    (hfree : ∀ c ∈ db.candidates, c.snapshotId = snapshotId → c.status ≠ .deleting) :
    EvidenceInv (db.updateCandidate snapshotId f) := by
  refine h.changeCandidates (h.candidates.update hkey) fun c hstatus => ?_
  constructor
  · intro hc
    rcases Table.mem_update.mp hc with ⟨c₀, -, -, rfl⟩ | ⟨hc, -⟩
    · exact absurd hstatus (hf c₀)
    · exact hc
  · intro hc
    exact Table.mem_update.mpr (.inr ⟨hc, fun hkey => hfree c hc hkey hstatus⟩)

theorem EvidenceInv.updateAttempt (h : EvidenceInv db)
    (hlater : ∀ a ∈ db.attempts, a.id = id → a.Later (f a)) (hid : ∀ a, (f a).id = a.id) :
    EvidenceInv (db.updateAttempt id f) := by
  have hhead : (db.updateAttempt id f).attempts.head? =
      db.attempts.head?.map fun a => if a.id = id then f a else a := List.head?_map
  have hrow := later_update hlater
  have hheads : ∀ a, db.attempts.head? = some a →
      (db.updateAttempt id f).attempts.head? = some (if a.id = id then f a else a) := by
    intro a ha
    rw [hhead, ha]
    rfl
  constructor
  case attempts => exact h.attempts.update hid
  case candidates => exact h.candidates
  case fresh =>
    intro a' ha'
    obtain ⟨a, ha, rfl⟩ := List.mem_map.mp ha'
    rw [(hrow a ha).id]
    simpa [OrphanTables.updateAttempt, Table.update] using h.fresh a ha
  case token =>
    intro row hrow hopen k hk
    obtain ⟨a, ha, rfl⟩ := h.token row hrow hopen k hk
    exact ⟨_, hheads a ha, Table.key_update_row hid a⟩
  case deleting =>
    intro c hc hstatus
    obtain ⟨a, ha, hca, row, hrow', hrt, hopen, htok⟩ := h.deleting c hc hstatus
    have hl := hrow a (List.mem_of_head? ha)
    exact ⟨_, hheads a ha, hl.candidate.trans hca, row, hrow', hrt.trans hl.repositoryTask.symm,
      hopen, htok.trans (congrArg some hl.id.symm)⟩
  case live =>
    intro a' ha' hlive'
    obtain ⟨a, ha, rfl⟩ := List.mem_map.mp ha'
    obtain ⟨hhead', c, hc, hcand, hstatus⟩ := h.live a ha ((hrow a ha).live hlive')
    exact ⟨hheads a hhead', c, hc, hcand.trans (hrow a ha).candidate.symm, hstatus⟩

/-! ## The attempt of the open task -/

@[simp] theorem ReconcileTask.record_executionToken (row : ReconcileTask) (snapshotId : String)
    (outcome : ResultOutcome) : (row.record snapshotId outcome).executionToken =
      row.executionToken := by
  rw [record]
  split <;> rfl

@[simp] theorem ReconcileTask.step_executionToken (row : ReconcileTask) (name : String)
    (status : StepStatus) (progress : Nat) :
    (row.step name status progress).executionToken = row.executionToken := by
  rw [step]
  split
  · rfl
  · split <;> rfl

@[simp] theorem OrphanTables.confirmingTask_executionToken (now : Int) (row : ReconcileTask) :
    (confirmingTask now row).executionToken = row.executionToken := by
  rw [confirmingTask]
  split <;> rfl

theorem OrphanTables.confirmingTask_isTerminal (now : Int) (row : ReconcileTask) :
    (confirmingTask now row).task.status.isTerminal = row.task.status.isTerminal := by
  rw [confirmingTask]
  split
  · rfl
  · rename_i h
    push Not at h
    exact (Bool.eq_false_iff.mpr h.1).symm

theorem EvidenceInv.record (h : EvidenceInv db) (t : Nat) (snapshotId : String)
    (outcome : ResultOutcome) : EvidenceInv (db.record t snapshotId outcome) :=
  h.updateTask (fun _ => ReconcileTask.record_id ..)
    (fun _ => ReconcileTask.record_executionToken ..)
    fun row _ _ => by rw [ReconcileTask.record_task]

theorem EvidenceInv.of_tables (h : EvidenceInv db) (htasks : db'.tasks = db.tasks)
    (hcandidates : db'.candidates = db.candidates) (hattempts : db'.attempts = db.attempts) :
    EvidenceInv db' where
  fresh := hattempts ▸ h.fresh
  attempts := hattempts ▸ h.attempts
  candidates := hcandidates ▸ h.candidates
  token := htasks ▸ hattempts ▸ h.token
  deleting := htasks ▸ hcandidates ▸ hattempts ▸ h.deleting
  live := hcandidates ▸ hattempts ▸ h.live

theorem GateInv.open_unique (h : GateInv db) {row' : ReconcileTask} (hrow : row ∈ db.tasks)
    (hopen : row.isOpen) (hrow' : row' ∈ db.tasks) (hopen' : row'.isOpen) : row = row' := by
  have hid := (h.gate row hrow hopen).symm.trans (h.gate row' hrow' hopen')
  exact h.keyed row hrow row' hrow' (Option.some.inj hid)

theorem OrphanTables.Authorized.isOpen (h : db.Authorized row) : row.isOpen := by
  rcases h.1 with hs | hs <;> simp [ReconcileTask.isOpen, hs, TaskStatus.isTerminal]

section

variable (h : EvidenceInv db)

include h

/-- A candidate in `deleting` is the one of the newest attempt, whose id is the token of the
open task. -/
theorem EvidenceInv.attempt_of_deleting (hgate : GateInv db) (hrow : row ∈ db.tasks)
    (hopen : row.isOpen) (hc : c ∈ db.candidates) (hstatus : c.status = .deleting) :
    ∃ a, db.attempts.head? = some a ∧ a.candidate = c.snapshotId ∧ row.id = a.repositoryTask ∧
      row.executionToken = some a.id := by
  obtain ⟨a, ha, hca, row', hrow', hrt, hopen', htok⟩ := h.deleting c hc hstatus
  obtain rfl := hgate.open_unique hrow hopen hrow' hopen'
  exact ⟨a, ha, hca, hrt, htok⟩

/-- Under the token of an attempt, only its candidate can be in `deleting`, and no other
attempt is live. -/
theorem EvidenceInv.only (hgate : GateInv db) (hrow : row ∈ db.tasks)
    (hopen : row.isOpen) (ha : a ∈ db.attempts) (htoken : row.executionToken = some a.id) :
    (∀ c ∈ db.candidates, c.status = .deleting → c.snapshotId = a.candidate) ∧
      ∀ b ∈ db.attempts, b.live = true → b.id = a.id := by
  have hcand : ∀ c ∈ db.candidates, c.status = .deleting → c.snapshotId = a.candidate := by
    intro c hc hstatus
    obtain ⟨b, hb, hcb, -, htok⟩ := h.attempt_of_deleting hgate hrow hopen hc hstatus
    have hid : b.id = a.id := Option.some.inj (htok.symm.trans htoken)
    rw [← h.attempts b (List.mem_of_head? hb) a ha hid, hcb]
  refine ⟨hcand, fun b hb hlive => ?_⟩
  obtain ⟨hhead, c, hc, -, hstatus⟩ := h.live b hb hlive
  obtain ⟨b', hb', -, -, htok⟩ := h.attempt_of_deleting hgate hrow hopen hc hstatus
  obtain rfl : b = b' := Option.some.inj (hhead.symm.trans hb')
  exact Option.some.inj (htok.symm.trans htoken)

/-! ## What a call relies on -/

/-- The candidate whose status a call saves without a lock. -/
def OrphanCall.saves : OrphanCall → Option String
  | .saveManaged _ snapshotId => some snapshotId
  | .rediscover _ item _ => some item.snapshotId
  | _ => none

/-- A status is saved without a lock only while the candidate is not in `deleting`. -/
def SavesSettled (db : OrphanTables) (r : OrphanCall) : Prop :=
  ∀ snapshotId ∈ r.saves, ∀ c ∈ db.candidates, c.snapshotId = snapshotId → c.status ≠ .deleting

def Executed (db : OrphanTables) (snapshotId : String) (e : OrphanTables.Execution) : Prop :=
  ∃ a ∈ db.attempts, a.id = e.attempt ∧ a.candidate = snapshotId ∧ a.stopped = true ∧
    a.observationRevision = e.revision ∧ a.state ≠ .prepared

def HasStopped (db : OrphanTables) (snapshotId : String) (id : Nat) : Prop :=
  ∃ a ∈ db.attempts, a.id = id ∧ a.candidate = snapshotId ∧ a.stopped = true

/-- What an advance of the Controller knows when it makes a call. -/
def EvidenceGuard (db : OrphanTables) : OrphanCall → Prop
  | .register _ execution snapshotId outcome _ _ =>
    outcome ≠ .deleting ∧ ∀ e ∈ execution, Executed db snapshotId e
  | .recover _ snapshotId id _ _ => HasStopped db snapshotId id
  | .record _ _ outcome => outcome ≠ .discovered
  | .remote _ _ | .saveAbsent _ _ | .saveOutcome _ _ _ _ _ | .saveFailure _ _ => False
  | _ => True

/-! ## Steps -/

variable {outcome : CandidateStatus}

/-- A new status of a candidate that is not in `deleting`. -/
theorem EvidenceInv.saveOutcome (houtcome : outcome ≠ .deleting)
    (hfree : ∀ c ∈ db.candidates, c.snapshotId = snapshotId → c.status ≠ .deleting) (at' : Int) :
    EvidenceInv (db.saveOutcome snapshotId outcome at') :=
  h.updateCandidate (fun _ => rfl) (fun _ => houtcome) hfree

/-- A discovery of a snapshot that is not in `deleting`. -/
theorem EvidenceInv.rediscover {item : InventoryItem}
    (hfree : ∀ c ∈ db.candidates, c.snapshotId = item.snapshotId → c.status ≠ .deleting)
    (at' : Int) : EvidenceInv (db.rediscover item at') := by
  rw [OrphanTables.rediscover]
  split
  · rename_i hnone
    refine h.changeCandidates (h.candidates.cons fun c hc => Table.ne_of_find_none hnone hc)
      fun c hstatus => ?_
    simp only [List.mem_cons, or_iff_right_iff_imp]
    rintro rfl
    cases hstatus
  · exact h.updateCandidate (fun _ => rfl) (fun _ => by simp) hfree

theorem EvidenceInv.intent (hgate : GateInv db) {revision : Nat}
    (hrow : db.task t = some row) (hc : db.candidate snapshotId = some c)
    (hmay : db.MayDelete row c revision) :
    EvidenceInv { (db.saveStatus snapshotId .deleting).updateTask t fun row =>
        { row with executionToken := some db.attempts.length } with
      attempts := db.newAttempt t c revision :: db.attempts } := by
  obtain ⟨hauthorized, -, hfree, -⟩ := hmay
  obtain ⟨hmem, rfl⟩ := OrphanTables.mem_of_task hrow
  obtain ⟨hcmem, rfl⟩ := OrphanTables.mem_of_candidate hc
  have hfree := OrphanTables.anyDeleting_eq_false.mp hfree
  constructor
  case fresh =>
    intro a ha
    rcases List.mem_cons.mp ha with rfl | ha
    · exact Nat.lt_succ_self _
    · exact Nat.lt_succ_of_lt (h.fresh a ha)
  case attempts => exact h.attempts.cons fun a ha => (h.fresh a ha).ne
  case candidates => exact h.candidates.update fun _ => rfl
  case token =>
    intro row' hrow' hopen id hid
    rcases Table.mem_update.mp hrow' with ⟨r, -, -, rfl⟩ | ⟨hr, hne⟩
    · exact ⟨_, rfl, Option.some.inj hid⟩
    · have := hgate.open_unique hr hopen hmem hauthorized.isOpen
      exact absurd (congrArg ReconcileTask.id this) hne
  case deleting =>
    intro c' hc' hstatus
    rcases Table.mem_update.mp hc' with ⟨r, -, hkey, rfl⟩ | ⟨hr, -⟩
    · refine ⟨_, rfl, hkey.symm, _, List.mem_map_of_mem hmem, ?_⟩
      rw [if_pos rfl]
      exact ⟨rfl, hauthorized.isOpen, rfl⟩
    · exact absurd hstatus (hfree c' hr)
  case live =>
    intro a ha hlive
    rcases List.mem_cons.mp ha with rfl | ha
    · exact ⟨rfl, _, Table.mem_update.mpr (.inl ⟨c, hcmem, rfl, rfl⟩), rfl, rfl⟩
    · simp [h.not_live hfree ha] at hlive

theorem EvidenceInv.registered (hgate : GateInv db) (hrow : row ∈ db.tasks) (hopen : row.isOpen)
    {e : OrphanTables.Execution} (htoken : row.executionToken = some e.attempt)
    (hexecuted : Executed db snapshotId e) (houtcome : outcome ≠ .deleting) (at' : Int) :
    EvidenceInv (db.saveOutcome snapshotId outcome at') := by
  obtain ⟨a, ha, hid, rfl, hstopped, -, hsettled⟩ := hexecuted
  obtain ⟨hcand, hlive⟩ := h.only hgate hrow hopen ha (hid ▸ htoken)
  refine .quiet h.fresh h.attempts (h.candidates.update fun _ => rfl) h.token ?_ ?_
  · intro c hc hstatus
    rcases Table.mem_update.mp hc with ⟨c₀, -, -, rfl⟩ | ⟨hc, hne⟩
    · exact houtcome hstatus
    · exact hne (hcand c hc hstatus)
  · intro b hb
    cases hb' : b.live with
    | false => rfl
    | true =>
      obtain rfl := h.attempts b hb a ha (hlive b hb hb')
      simp [DeleteAttempt.live, hsettled, hstopped] at hb'

end

theorem OrphanTables.recoveredStatus_ne (db : OrphanTables) (c : OrphanSnapshot)
    (present : Bool) : db.recoveredStatus c present ≠ .deleting := by
  rw [recoveredStatus]
  split
  · decide
  · split <;> decide

theorem EvidenceInv.recovered (h : EvidenceInv db) (hgate : GateInv db) (hrow : row ∈ db.tasks)
    (hopen : row.isOpen) (htoken : row.executionToken = some id)
    (hstopped : HasStopped db snapshotId id) (present : Bool) (reason : String) :
    EvidenceInv ((db.updateCandidate snapshotId fun c =>
      db.recoveredCandidate c present reason).updateAttempt id fun a =>
        { a with state := .recovered }) := by
  obtain ⟨a, ha, rfl, rfl, hstopped⟩ := hstopped
  obtain ⟨hcand, hlive⟩ := h.only hgate hrow hopen ha htoken
  have hupdate : EvidenceInv (db.updateAttempt a.id fun a => { a with state := .recovered }) :=
    h.updateAttempt (fun b _ _ => b.later_recovered) fun _ => rfl
  refine .quiet hupdate.fresh hupdate.attempts (h.candidates.update fun _ => rfl)
    hupdate.token ?_ ?_
  · intro c hc hstatus
    rcases Table.mem_update.mp hc with ⟨c₀, -, -, rfl⟩ | ⟨hc, hne⟩
    · exact db.recoveredStatus_ne c₀ present hstatus
    · exact hne (hcand c hc hstatus)
  · intro b hb
    rcases Table.mem_update.mp hb with ⟨b₀, hb₀, hkey, rfl⟩ | ⟨hb, hne⟩
    · obtain rfl := h.attempts b₀ hb₀ a ha hkey
      simpa [DeleteAttempt.live, DeleteAttempt.stopped] using hstopped
    · cases hb' : b.live with
      | false => rfl
      | true => exact absurd (hlive b hb hb') hne

@[simp] theorem ReconcileTask.closeSteps_executionToken (row : ReconcileTask)
    (c : Completion) : (row.closeSteps c).executionToken = row.executionToken := by
  rw [closeSteps]
  split
  · simp
  · rfl

theorem EvidenceInv.wait (h : EvidenceInv db) (t : Nat) (reason : String) :
    EvidenceInv (db.wait true t reason) :=
  h.updateTask (fun _ => OrphanTables.confirmingTask_id ..)
    (fun _ => OrphanTables.confirmingTask_executionToken ..)
    fun _ _ _ => OrphanTables.confirmingTask_isTerminal ..

/-- A task is completed while nothing is in `deleting`. -/
theorem EvidenceInv.complete (h : EvidenceInv db)
    (hfree : ∀ c ∈ db.candidates, c.status ≠ .deleting) {c : Completion}
    (hc : db.complete row c = .ok db') : EvidenceInv db' := by
  have htoken : ∀ r ∈ (db.finalize row c).tasks, r.isOpen → ∀ id, r.executionToken = some id →
      ∃ a, db.attempts.head? = some a ∧ a.id = id := by
    intro r hr hopen id hid
    rcases Table.mem_update.mp hr with ⟨r₀, -, -, rfl⟩ | ⟨hr, -⟩
    · cases hid
    · exact h.token r hr hopen id hid
  have hlive := fun a ha => h.not_live hfree (a := a) ha
  rw [OrphanTables.complete] at hc
  split at hc
  · rw [OrphanTables.replace] at hc
    split at hc
    · cases hc
    · cases hc
      refine .quiet h.fresh h.attempts h.candidates ?_ hfree hlive
      intro r hr hopen id hid
      rcases List.mem_cons.mp hr with rfl | hr
      · cases hid
      · exact htoken r hr hopen id hid
  · cases hc
    exact .quiet h.fresh h.attempts h.candidates htoken hfree hlive

theorem EvidenceInv.finish (h : EvidenceInv db) {c : Completion}
    (hc : db.finish true t c = .ok db') :
    EvidenceInv db' := by
  rw [OrphanTables.finish] at hc
  cases hfind : db.task t with
  | none => simp [hfind] at hc
  | some row =>
    simp only [hfind, Bool.true_and] at hc
    split at hc
    · exact Except.ok.inj hc ▸ h
    · split at hc
      · exact Except.ok.inj hc ▸ h.wait ..
      · rename_i hfree
        split at hc
        · cases hc
          exact (h.updateTask (t := t) (f := fun row => row.closeSteps (c.amend row))
            (fun _ => ReconcileTask.closeSteps_id ..)
            (fun _ => ReconcileTask.closeSteps_executionToken ..)
            fun _ _ _ => by rw [ReconcileTask.closeSteps_task]).wait ..
        · exact h.complete (OrphanTables.anyDeleting_eq_false.mp (Bool.eq_false_iff.mpr hfree)) hc

theorem EvidenceInv.effect (h : EvidenceInv db) (hgate : GateInv db) (hr : SavesSettled db r)
    (hguard : EvidenceGuard db r) (heffect : db.Effect true r db') : EvidenceInv db' := by
  cases heffect with
  | none => exact h
  | @startTask t row task hrow hstart =>
    obtain ⟨hmem, rfl⟩ := OrphanTables.mem_of_task hrow
    obtain ⟨hpending, rfl⟩ := TaskRow.start_ok hstart
    refine h.updateTask (fun _ => rfl) (fun _ => rfl) fun r hr hid => ?_
    rw [hgate.keyed r hr row hmem hid, hpending]
    rfl
  | step =>
    exact h.updateTask (fun _ => ReconcileTask.step_id ..)
      (fun _ => ReconcileTask.step_executionToken ..)
      fun _ _ _ => by rw [ReconcileTask.step_task]
  | remote => exact h.of_tables rfl rfl rfl
  | saveAbsent => exact hguard.elim
  | @register t execution snapshotId outcome event at' row hrow hregisters =>
    obtain ⟨houtcome, hexecuted⟩ := hguard
    obtain ⟨hmem, -⟩ := OrphanTables.mem_of_task hrow
    cases execution with
    | none =>
      have hfree := OrphanTables.anyDeleting_eq_false.mp hregisters.2
      exact (h.saveOutcome houtcome (fun c hc _ => hfree c hc) at').record ..
    | some e =>
      exact (h.registered hgate hmem hregisters.1.isOpen hregisters.2.1
        (hexecuted e rfl) houtcome at').record ..
  | @saveManaged t snapshotId =>
    exact (h.updateCandidate (f := fun c => { c with status := .managed }) (fun _ => rfl)
      (fun _ => by simp) (hr snapshotId rfl)).record ..
  | @rediscover t item at' => exact (h.rediscover (hr item.snapshotId rfl) at').record ..
  | record => exact h.record ..
  | deferred => exact h.record ..
  | marked hagent => cases hagent
  | intent hrow hc hmay => exact h.intent hgate hrow hc hmay
  | @spawn id a ha hworker =>
    obtain ⟨hmem, rfl⟩ := OrphanTables.mem_of_attempt ha
    exact h.updateAttempt (fun b hb hid => h.attempts b hb a hmem hid ▸ a.later_spawned hworker)
      fun _ => rfl
  | closeLease => exact h.updateAttempt (fun a _ _ => a.later_closed) fun _ => rfl
  | finishAttempt =>
    exact h.updateAttempt (fun a _ _ => a.later_finish) fun a => a.later_finish.id
  | recover hrow hc ha hauthorized htask htoken =>
    obtain ⟨hmem, -⟩ := OrphanTables.mem_of_task hrow
    obtain ⟨-, rfl⟩ := OrphanTables.mem_of_attempt ha
    exact (h.recovered hgate hmem hauthorized.isOpen htoken hguard ..).record ..
  | saveOutcome => exact hguard.elim
  | saveFailure => exact hguard.elim
  | wait => exact h.wait ..
  | finish hfinish => exact h.finish hfinish

/-- `_finish` writes tasks and the gate only. -/
theorem OrphanTables.finish_tasks {c : Completion} (hc : db.finish controller t c = .ok db') :
    db' = { db with tasks := db'.tasks, activeTask := db'.activeTask } := by
  rw [OrphanTables.finish] at hc
  cases hfind : db.task t with
  | none => simp [hfind] at hc
  | some row =>
    simp only [hfind] at hc
    split at hc
    · exact Except.ok.inj hc ▸ rfl
    · split at hc
      · exact Except.ok.inj hc ▸ rfl
      · split at hc
        · exact Except.ok.inj hc ▸ rfl
        · rw [OrphanTables.complete] at hc
          split at hc
          · rw [OrphanTables.replace] at hc
            split at hc
            · cases hc
            · exact Except.ok.inj hc ▸ rfl
          · exact Except.ok.inj hc ▸ rfl

theorem Grown.effect (hkeyed : Table.Keyed DeleteAttempt.id db.attempts)
    (heffect : db.Effect controller r db') : Grown db db' := by
  cases heffect with
  | @rediscover t item at' =>
    refine .of_attempts ?_
    change (db.rediscover item at').attempts = db.attempts
    rw [OrphanTables.rediscover]
    split <;> rfl
  | intent => exact fun a ha => ⟨a, List.mem_cons_of_mem _ ha, .refl a⟩
  | @spawn id a ha hworker =>
    obtain ⟨hmem, rfl⟩ := OrphanTables.mem_of_attempt ha
    exact .updateAttempt fun b hb hid => hkeyed b hb a hmem hid ▸ a.later_spawned hworker
  | closeLease => exact .updateAttempt fun a _ _ => a.later_closed
  | finishAttempt => exact .updateAttempt fun a _ _ => a.later_finish
  | @recover t snapshotId id =>
    have hlater : Grown db (db.updateAttempt id fun a => { a with state := .recovered }) :=
      .updateAttempt fun a _ _ => a.later_recovered
    exact hlater
  | finish hfinish => exact .of_attempts (by rw [OrphanTables.finish_tasks hfinish])
  | _ => exact .of_attempts rfl

theorem EvidenceInv.environment (h : EvidenceInv db) (hgate : GateInv db) (e : OrphanEnv) :
    EvidenceInv (orphanEnvironment db e) ∧ Grown db (orphanEnvironment db e) := by
  cases e with
  | admitTask dueAt =>
    rw [orphanEnvironment, OrphanTables.admitTask]
    split
    · exact ⟨h, .refl _⟩
    · rename_i hadmitted
      push Not at hadmitted
      have hopen : db.activeTask = none := by simpa using hadmitted.1
      -- Every task has ended, so nothing is in `deleting`.
      have hfree : ∀ c ∈ db.candidates, c.status ≠ .deleting := by
        intro c hc hstatus
        obtain ⟨-, -, -, row, hrow, -, hrowOpen, -⟩ := h.deleting c hc hstatus
        rw [ReconcileTask.isOpen, hgate.terminal_of_open hopen hrow] at hrowOpen
        cases hrowOpen
      refine ⟨.quiet h.fresh h.attempts h.candidates ?_ hfree
        fun a ha => h.not_live hfree ha, .of_attempts rfl⟩
      intro row hrow hrowOpen id hid
      rcases List.mem_cons.mp hrow with rfl | hrow
      · cases hid
      · exact h.token row hrow hrowOpen id hid
  | admitBackup uuid record =>
    rw [orphanEnvironment, OrphanTables.admitBackup]
    split
    · exact ⟨h, .refl _⟩
    · exact ⟨h.of_tables rfl rfl rfl, .of_attempts rfl⟩
  | receipt id receipt =>
    exact ⟨h.updateAttempt (fun a _ _ => a.later_writeReceipt receipt)
      fun a => (a.later_writeReceipt receipt).id,
      .updateAttempt fun a _ _ => a.later_writeReceipt receipt⟩
  | runnerEnds id =>
    exact ⟨h.updateAttempt (fun a _ _ => a.later_ended) fun _ => rfl,
      .updateAttempt fun a _ _ => a.later_ended⟩
  | workerEnds id =>
    exact ⟨h.updateAttempt (fun a _ _ => a.later_closed) fun _ => rfl,
      .updateAttempt fun a _ _ => a.later_closed⟩
  | _ => exact ⟨h.of_tables rfl rfl rfl, .of_attempts rfl⟩

/-! ## Advances of the Controller -/

theorem HasStopped.grown (h : HasStopped db snapshotId id) (hgrown : Grown db db') :
    HasStopped db' snapshotId id := by
  obtain ⟨a, ha, hid, hcand, hstopped⟩ := h
  obtain ⟨a', ha', hlater⟩ := hgrown a ha
  exact ⟨a', ha', hlater.id.trans hid, hlater.candidate.trans hcand, hlater.stopped hstopped⟩

/-- What the advances of the Controller keep. -/
def evidenceTerms : Terms OrphanTables OrphanCall where
  keeps := fun db => GateInv db ∧ EvidenceInv db
  moves := Grown
  allows := SavesSettled
  guards := EvidenceGuard
  refl := .refl
  trans := .trans

theorem evidenceTerms_kept :
    evidenceTerms.Kept (orphanServer true) orphanEnvironment fun _ _ => True where
  call := by
    intro db r ⟨hgate, hinv⟩ hallows hguard choice
    have heffect := OrphanTables.effect_respond true db r choice
    have hopen : WaitsOpen true db r := nofun
    exact ⟨⟨(hgate.effect hopen heffect).1, hinv.effect hgate hallows hguard heffect⟩,
      .effect hinv.attempts heffect⟩
  env := by
    intro db e ⟨hgate, hinv⟩ _
    obtain ⟨hinv', hgrown⟩ := hinv.environment hgate e
    exact ⟨⟨(hgate.environment e).1, hinv'⟩, hgrown⟩

/-- What a call of the Controller tells it for good. -/
def Learned (db : OrphanTables) : (r : OrphanCall) → r.Value → Prop
  | .newestAttempt snapshotId, some a =>
    ∃ a' ∈ db.attempts, a'.id = a.id ∧ a'.candidate = snapshotId
  | .confirmedStopped id, true => ∃ a ∈ db.attempts, a.id = id ∧ a.stopped = true
  | .intent _ snapshotId revision, id =>
    ∃ a ∈ db.attempts, a.id = id ∧ a.candidate = snapshotId ∧ a.observationRevision = revision
  | .finishAttempt id, _ => ∀ a ∈ db.attempts, a.id = id → a.state ≠ .prepared
  | _, _ => True

variable {choice : OrphanChoice}

theorem learned_serve {value : r.Value} (h : db.serve true choice r = .ok (value, db')) :
    Learned db' r value := by
  cases r
  case newestAttempt snapshotId =>
    simp only [OrphanTables.serve, Except.ok.injEq, Prod.mk.injEq] at h
    obtain ⟨rfl, rfl⟩ := h
    cases hfind : db.newestAttempt snapshotId with
    | none => trivial
    | some a => exact ⟨a, List.mem_of_find?_eq_some hfind, rfl, by
        simpa using List.find?_some hfind⟩
  case confirmedStopped id =>
    simp only [OrphanTables.serve, Except.ok.injEq, Prod.mk.injEq] at h
    obtain ⟨rfl, rfl⟩ := h
    cases hstopped : choice.flag && db.confirmedStopped id with
    | false => trivial
    | true =>
      simp only [Bool.and_eq_true, OrphanTables.confirmedStopped] at hstopped
      cases hfind : db.attempt id with
      | none => simp [hfind] at hstopped
      | some a =>
        obtain ⟨hmem, hid⟩ := OrphanTables.mem_of_attempt hfind
        exact ⟨a, hmem, hid, by simpa [hfind] using hstopped.2⟩
  case intent t snapshotId revision =>
    simp only [OrphanTables.serve, OrphanTables.intent] at h
    cases hrow : db.task t with
    | none => simp [hrow] at h
    | some row =>
      cases hc : db.candidate snapshotId with
      | none => simp [hrow, hc] at h
      | some c =>
        simp only [hrow, hc] at h
        split at h
        · simp only [Except.ok.injEq, Prod.mk.injEq] at h
          obtain ⟨rfl, rfl⟩ := h
          exact ⟨_, List.mem_cons_self, rfl, (OrphanTables.mem_of_candidate hc).2, rfl⟩
        · cases h
  case finishAttempt id =>
    simp only [OrphanTables.serve, Except.ok.injEq, Prod.mk.injEq] at h
    obtain ⟨-, rfl⟩ := h
    intro a ha hid
    rcases Table.mem_update.mp ha with ⟨b, -, -, rfl⟩ | ⟨-, hne⟩
    · rw [DeleteAttempt.finish]
      split
      · simp
      · assumption
    · exact absurd hid hne
  all_goals trivial

section Programs

variable {α β : Type}

/-- An advance of the Controller that makes only calls it may make, whatever it returns. -/
abbrev SafeFrom (db : OrphanTables) (p : Orphan α) (Q : α → OrphanTables → Prop) : Prop :=
  evidenceTerms.Safe (orphanServer true) (fun _ _ => True) p Q db

variable {r : OrphanCall} {snapshotId : String} {e : OrphanTables.Execution}

theorem safe_ask {Q : r.Value → OrphanTables → Prop} (hguard : ∀ t, Grown db t → EvidenceGuard t r)
    (hQ : ∀ t value, Grown db t → EvidenceInv t → Learned t r value → Q value t) :
    SafeFrom db (ask r) Q := by
  intro t hkeeps hgrown
  have hguard := hguard t hgrown
  refine ⟨hguard, fun hallows choice => ?_⟩
  obtain ⟨hkeeps', hgrown'⟩ := evidenceTerms_kept.call hkeeps hallows hguard choice
  replace hgrown' := hgrown.trans hgrown'
  simp only [orphanServer, OrphanTables.respond] at hkeeps' hgrown' ⊢
  cases hraises : choice.raises with
  | some error => trivial
  | none =>
    rw [hraises] at hkeeps' hgrown'
    cases hserve : t.serve true choice r with
    | error error => trivial
    | ok served =>
      rw [hserve] at hkeeps' hgrown'
      exact hQ served.2 served.1 hgrown' hkeeps'.2 (learned_serve hserve)

theorem safe_free (hguard : ∀ t, EvidenceGuard t r) : SafeFrom db (ask r) fun _ _ => True :=
  safe_ask (fun t _ => hguard t) fun _ _ _ _ _ => trivial

variable {f : α → Orphan β}

theorem safe_bind {p : Orphan α} {P : α → OrphanTables → Prop} {Q : β → OrphanTables → Prop}
    (hp : SafeFrom db p P) (hf : ∀ a t, P a t → SafeFrom t (f a) Q) : SafeFrom db (p >>= f) Q :=
  .andThen hp hf

theorem safe_then {p : Orphan α} (hp : ∀ t, SafeFrom t p fun _ _ => True)
    (hf : ∀ a t, SafeFrom t (f a) fun _ _ => True) : SafeFrom db (p >>= f) fun _ _ => True :=
  safe_bind (hp db) fun a t _ => hf a t

theorem safe_executionPending (cs : List OrphanSnapshot) :
    ∀ t, SafeFrom t (executionPending cs) fun _ _ => True := by
  induction cs with
  | nil => exact fun _ => trivial
  | cons c cs ih =>
    intro t
    refine safe_then (fun _ => safe_free fun _ => trivial) fun o t => ?_
    cases o with
    | none => trivial
    | some a =>
      refine safe_then (fun _ => safe_free fun _ => trivial) fun stopped t => ?_
      cases stopped with
      | true => exact ih t
      | false => trivial

theorem safe_recoverEach (task : Nat) (inventory : List InventoryItem) (reason : String)
    (cs : List OrphanSnapshot) (recovered : Bool) :
    ∀ t, SafeFrom t (recoverEach task inventory reason cs recovered) fun _ _ => True := by
  induction cs generalizing recovered with
  | nil => exact fun _ => trivial
  | cons c cs ih =>
    intro t
    refine safe_bind (safe_ask (fun _ _ => trivial)
      (Q := fun o t' => EvidenceInv t' ∧ Learned t' (.newestAttempt c.snapshotId) o)
      fun _ _ _ hinv h => ⟨hinv, h⟩) fun o t h => ?_
    cases o with
    | none => trivial
    | some a =>
      obtain ⟨hinv, a', ha', hid, hcand⟩ := h
      refine safe_bind (safe_ask (fun _ _ => trivial)
        (Q := fun stopped t' => stopped = true → HasStopped t' c.snapshotId a.id)
        fun t' stopped hgrown hinv' h hstopped => ?_) fun stopped t h => ?_
      · -- The attempt whose lease was free is the one that was read before.
        subst hstopped
        obtain ⟨b, hb, hbid, hbstopped⟩ := h
        obtain ⟨b', hb', hlater⟩ := hgrown a' ha'
        obtain rfl := hinv'.attempts b hb b' hb' (by rw [hbid, hlater.id, hid])
        exact ⟨b, hb, hbid, hlater.candidate.trans hcand, hbstopped⟩
      · cases stopped with
        | false => trivial
        | true =>
          refine safe_bind (P := fun _ _ => True) (safe_ask
            (fun t' hgrown => (h rfl).grown hgrown) fun _ _ _ _ _ => trivial)
            fun _ t _ => ih true t

def IsAttempt (db : OrphanTables) (snapshotId : String) (e : OrphanTables.Execution) : Prop :=
  ∃ a ∈ db.attempts, a.id = e.attempt ∧ a.candidate = snapshotId ∧
    a.observationRevision = e.revision

variable {db' : OrphanTables}

theorem IsAttempt.grown (h : IsAttempt db snapshotId e) (hgrown : Grown db db') :
    IsAttempt db' snapshotId e := by
  obtain ⟨a, ha, hid, hcand, hrevision⟩ := h
  obtain ⟨a', ha', hlater⟩ := hgrown a ha
  exact ⟨a', ha', hlater.id.trans hid, hlater.candidate.trans hcand,
    hlater.observationRevision.trans hrevision⟩

theorem Executed.grown (h : Executed db snapshotId e) (hgrown : Grown db db') :
    Executed db' snapshotId e := by
  obtain ⟨a, ha, hid, hcand, hstopped, hrevision, hsettled⟩ := h
  obtain ⟨a', ha', hlater⟩ := hgrown a ha
  exact ⟨a', ha', hlater.id.trans hid, hlater.candidate.trans hcand, hlater.stopped hstopped,
    hlater.observationRevision.trans hrevision, hlater.settled hsettled⟩

theorem safe_keep (h : IsAttempt db snapshotId e) (hguard : ∀ t, EvidenceGuard t r) :
    SafeFrom db (ask r) fun _ t => IsAttempt t snapshotId e :=
  safe_ask (fun t _ => hguard t) fun _ _ hgrown _ _ => h.grown hgrown

/-- `supervise` of an attempt returns when the attempt has stopped and is settled. -/
theorem safe_supervise (h : IsAttempt db snapshotId e) :
    SafeFrom db (supervise e.attempt) fun _ t => Executed t snapshotId e := by
  refine safe_bind (safe_keep h fun _ => trivial) fun _ t h => ?_
  refine safe_bind (safe_keep h fun _ => trivial) fun receipt t h => ?_
  refine safe_bind (safe_keep h fun _ => trivial) fun _ t h => ?_
  refine safe_bind (P := fun stopped t' => stopped = true →
    IsAttempt t' snapshotId e ∧ HasStopped t' snapshotId e.attempt)
    (safe_ask (fun _ _ => trivial) fun t' stopped hgrown hinv hlearned hstopped => ?_)
    fun stopped t h => ?_
  · subst hstopped
    obtain ⟨b, hb, hbid, hbstopped⟩ := hlearned
    obtain ⟨a, ha, hid, hcand, hrevision⟩ := h.grown hgrown
    obtain rfl := hinv.attempts b hb a ha (hbid.trans hid.symm)
    exact ⟨⟨b, ha, hid, hcand, hrevision⟩, b, ha, hid, hcand, hbstopped⟩
  · cases stopped with
    | false => trivial
    | true =>
      obtain ⟨hattempt, hstopped⟩ := h rfl
      refine safe_bind (P := fun _ t' => Executed t' snapshotId e)
        (safe_ask (fun _ _ => trivial) fun t' _ hgrown hinv hlearned => ?_) fun _ _ h => h
      obtain ⟨a, ha, hid, hcand, hrevision⟩ := hattempt.grown hgrown
      obtain ⟨b, hb, hbid, -, hbstopped⟩ := hstopped.grown hgrown
      obtain rfl := hinv.attempts b hb a ha (hbid.trans hid.symm)
      exact ⟨b, ha, hid, hcand, hbstopped, hrevision, hlearned b ha hid⟩

theorem safe_controllerDelete (task : Nat) (snapshotId : String) (revision : Nat) :
    ∀ t, SafeFrom t (controllerDelete task snapshotId revision)
      fun result t' => Executed t' snapshotId ⟨result.1, revision⟩ := by
  intro t
  refine safe_bind (safe_free fun _ => trivial) fun _ t _ => ?_
  refine safe_bind (P := fun id t' => IsAttempt t' snapshotId ⟨id, revision⟩)
    (safe_ask (fun _ _ => trivial) fun _ _ _ _ h => h) fun id t h => ?_
  refine safe_bind (P := fun _ t' => Executed t' snapshotId ⟨id, revision⟩)
    (.handle (safe_supervise h) fun error t _ => ?_) fun _ _ h => h
  exact safe_bind (safe_free fun _ => trivial) fun _ _ _ => trivial

theorem safe_recoverControllerDeletions (task : Nat) (inventory : List InventoryItem)
    (reason : String) :
    ∀ t, SafeFrom t (recoverControllerDeletions task inventory reason) fun _ _ => True :=
  fun _ => safe_then (fun _ => safe_free fun _ => trivial)
    fun cs => safe_recoverEach task inventory reason cs false

theorem safe_deleteByController (task revision : Nat) (at' : Int) (snapshotId : String) :
    ∀ t, SafeFrom t (deleteByController task revision at' snapshotId) fun _ _ => True := by
  intro t
  refine safe_then (fun _ => safe_free fun _ => trivial) fun fresh t => ?_
  split
  · refine safe_bind (safe_controllerDelete task snapshotId revision t) fun result t h => ?_
    obtain ⟨attempt, receipt⟩ := result
    dsimp only
    split
    · refine safe_bind (P := fun _ _ => True) (safe_ask (fun t' hgrown => ?_)
        fun _ _ _ _ _ => trivial) fun _ _ _ => trivial
      refine ⟨by simp, fun e he => ?_⟩
      cases he
      exact h.grown hgrown
    · exact safe_then (fun _ => safe_free fun _ => trivial) fun inventory _ =>
        safe_then (safe_recoverControllerDeletions task inventory _) fun _ _ => trivial
  · exact safe_then (fun _ => safe_free fun _ => ⟨by simp, nofun⟩) fun _ _ => trivial

theorem safe_reconcileAbsent (task : Nat) (at' : Int) (c : OrphanSnapshot) :
    ∀ t, SafeFrom t (reconcileAbsent true task at' c) fun _ _ => True := by
  intro t
  rw [reconcileAbsent]
  split
  · trivial
  · exact safe_then (fun _ => safe_free fun _ => ⟨by simp, nofun⟩) fun _ _ => trivial

theorem safe_reconcileCandidate (task revision : Nat) (at' : Int) (c : OrphanSnapshot) :
    ∀ t, SafeFrom t (reconcileCandidate true task revision at' c) fun _ _ => True := by
  intro t
  rw [reconcileCandidate]
  split
  · exact safe_then (fun _ => safe_free fun _ => by simp [EvidenceGuard]) fun _ _ => trivial
  · refine safe_then (fun _ => safe_free fun _ => trivial) fun enabled t => ?_
    split
    · refine safe_then (fun _ => safe_free fun _ => trivial) fun discovered t => ?_
      split
      · trivial
      · split
        · trivial
        · refine safe_then (fun _ => safe_free fun _ => trivial) fun found t => ?_
          cases found with
          | concurrent => trivial
          | deferred => trivial
          | marked => exact safe_deleteByController task revision at' c.snapshotId t
    · exact safe_then (fun _ => safe_free fun _ => by simp [EvidenceGuard]) fun _ _ => trivial

theorem safe_reconcileItem (task revision : Nat) (o : Observation) (item : InventoryItem) :
    ∀ t, SafeFrom t (reconcileItem true task revision o item) fun _ _ => True := by
  intro t
  rw [reconcileItem]
  split
  · split
    · trivial
    · split
      · trivial
      · exact safe_then (fun _ => safe_free fun _ => trivial) fun _ _ => trivial
  · split
    · exact safe_then (fun _ => safe_free fun _ => trivial) fun _ _ => trivial
    · exact safe_reconcileCandidate ..

theorem safe_firstM {ι : Type} {f : ι → Orphan (Option α)}
    (hf : ∀ x t, SafeFrom t (f x) fun _ _ => True) (xs : List ι) :
    ∀ t, SafeFrom t (Prog.firstM f xs) fun _ _ => True :=
  fun _ => .firstM (P := fun _ => True) trivial (fun _ _ => trivial) fun x _ t _ =>
    (hf x t).mono (fun _ _ h => h) fun o _ _ => by cases o <;> trivial

theorem safe_reconcileInventory (task revision : Nat) (inventory : List InventoryItem) :
    ∀ t, SafeFrom t (reconcileInventory true task revision inventory) fun _ _ => True := by
  intro t
  refine safe_then (fun _ => safe_free fun _ => trivial) fun now t => ?_
  refine safe_then (fun _ => safe_free fun _ => trivial) fun protectedIds t => ?_
  refine safe_then (fun _ => safe_free fun _ => trivial) fun pending t => ?_
  refine safe_then (fun _ => safe_free fun _ => trivial) fun candidates t => ?_
  refine safe_then (fun _ => safe_free fun _ => trivial) fun absent t => ?_
  refine safe_then (safe_firstM (safe_reconcileAbsent task now) absent) fun ending t => ?_
  cases ending with
  | some ending => trivial
  | none =>
    refine safe_then (safe_firstM (safe_reconcileItem task revision _) inventory)
      fun ending t => ?_
    cases ending with
    | some ending => trivial
    | none => trivial

theorem safe_reconcile (task revision : Nat) :
    ∀ t, SafeFrom t (reconcile true task revision) fun _ _ => True := by
  intro t
  refine safe_then (fun _ => safe_free fun _ => trivial) fun _ t => ?_
  refine safe_then (fun _ => safe_free fun _ => trivial) fun _ t => ?_
  refine safe_then (fun _ => safe_free fun _ => trivial) fun owned t => ?_
  split
  · refine safe_then (fun _ => safe_free fun _ => trivial) fun blocker t => ?_
    split
    · trivial
    · refine safe_then (fun _ => safe_free fun _ => trivial) fun _ t => ?_
      refine safe_then (fun _ => safe_free fun _ => trivial) fun _ t => ?_
      refine safe_then (fun t => safe_then (fun _ => safe_free fun _ => trivial)
        safe_executionPending) fun pending t => ?_
      split
      · trivial
      · refine safe_then (fun _ => safe_free fun _ => trivial) fun inventory t => ?_
        refine safe_then (safe_recoverControllerDeletions task inventory _)
          fun recovered t => ?_
        split
        · trivial
        · exact safe_reconcileInventory task revision inventory t
  · trivial

theorem safe_interrupted (error : ReconcileError) :
    ∀ t, SafeFrom t (interrupted error) fun _ _ => True := by
  intro t
  rw [interrupted]
  split
  · trivial
  · refine safe_then (fun _ => safe_free fun _ => trivial) fun deleting t => ?_
    split <;> trivial

theorem safe_runOrphanReconciliation (task : Nat) :
    ∀ t, SafeFrom t (runOrphanReconciliation true task) fun _ _ => True := by
  intro t
  refine safe_then (fun _ => safe_free fun _ => trivial) fun loaded t => ?_
  split
  · refine safe_then (fun t => ?_) fun _ t => ?_
    · rw [startPendingTask]
      split
      · exact safe_free fun _ => trivial
      · trivial
    · refine safe_then (fun _ => safe_free fun _ => trivial) fun _ t => ?_
      refine safe_then (fun t => .handle (safe_reconcile task loaded.revision t)
        fun error t _ => safe_interrupted error t) fun ending t => ?_
      cases ending with
      | wait reason => exact safe_free fun _ => trivial
      | finish completion => exact safe_free fun _ => trivial
  · trivial

end Programs

/-! ## What a run leaves behind -/

/-- The evidence on which a candidate leaves `deleting`: its newest attempt has stopped, and
its token and revision are the current ones. -/
def HasEvidence (db : OrphanTables) (snapshotId : String) : Prop :=
  ∃ a, db.newestAttempt snapshotId = some a ∧ a.stopped = true ∧
    a.observationRevision = db.revision ∧
    ∃ row ∈ db.tasks, db.activeTask = some row.id ∧ row.executionToken = some a.id

/-- An attempt is live, or it is the newest one of a candidate in `deleting`. -/
def Unresolved (db : OrphanTables) (a : DeleteAttempt) : Prop :=
  a ∈ db.attempts ∧ (a.live = true ∨ ∃ c ∈ db.candidates, c.status = .deleting ∧
    db.newestAttempt c.snapshotId = some a)

/-- The candidate and the attempt whose result a call applies. -/
def OrphanCall.applies : OrphanCall → Option (String × Nat)
  | .register _ (some e) snapshotId _ _ _ => some (snapshotId, e.attempt)
  | .recover _ snapshotId id _ _ => some (snapshotId, id)
  | _ => none

theorem OrphanTables.newestAttempt_of_head (h : db.attempts.head? = some a) :
    db.newestAttempt a.candidate = some a := by
  rw [newestAttempt]
  cases hrows : db.attempts with
  | nil => simp [hrows] at h
  | cons b rest =>
    obtain rfl : b = a := by simpa [hrows] using h
    simp

section

variable (h : EvidenceInv db)

include h

theorem EvidenceInv.head_of_unresolved (ha : Unresolved db a) : db.attempts.head? = some a := by
  obtain ⟨hmem, hlive | ⟨c, hc, hstatus, hnewest⟩⟩ := ha
  · exact (h.live a hmem hlive).1
  · obtain ⟨b, hb, hcand, -⟩ := h.deleting c hc hstatus
    rw [← hcand, OrphanTables.newestAttempt_of_head hb] at hnewest
    rw [hb, hnewest]

theorem EvidenceInv.head_of_token (hrow : row ∈ db.tasks) (hopen : row.isOpen)
    (ha : a ∈ db.attempts) (htoken : row.executionToken = some a.id) :
    db.attempts.head? = some a := by
  obtain ⟨b, hb, hid⟩ := h.token row hrow hopen a.id htoken
  rw [hb, h.attempts b (List.mem_of_head? hb) a ha hid]

theorem EvidenceInv.hasEvidence (hrow : row ∈ db.tasks) (hauthorized : db.Authorized row)
    (ha : a ∈ db.attempts) (hstopped : a.stopped = true) (htoken : row.executionToken = some a.id)
    (hrevision : db.revision = a.observationRevision) : HasEvidence db a.candidate :=
  ⟨a, OrphanTables.newestAttempt_of_head (h.head_of_token hrow hauthorized.isOpen ha htoken),
    hstopped, hrevision.symm, row, hrow, hauthorized.2, htoken⟩

variable {c' : OrphanSnapshot}

/-- An update of a candidate lets no other candidate leave `deleting`. -/
theorem EvidenceInv.left_of_update {f : OrphanSnapshot → OrphanSnapshot}
    (hkey : ∀ c, (f c).snapshotId = c.snapshotId) (hc : c ∈ db.candidates)
    (hstatus : c.status = .deleting)
    (hc' : c' ∈ Table.update OrphanSnapshot.snapshotId db.candidates snapshotId f)
    (hid : c'.snapshotId = c.snapshotId) (hleft : c'.status ≠ .deleting) :
    c.snapshotId = snapshotId := by
  rcases Table.mem_update.mp hc' with ⟨c₀, -, hkey₀, rfl⟩ | ⟨hmem, -⟩
  · rw [← hid, hkey, hkey₀]
  · exact absurd (h.candidates c' hmem c hc hid ▸ hstatus) hleft

/-- A call lets a candidate leave `deleting` on evidence only. -/
theorem EvidenceInv.evidence_of_left (hr : SavesSettled db r) (hguard : EvidenceGuard db r)
    (heffect : db.Effect true r db') (hc : c ∈ db.candidates) (hstatus : c.status = .deleting)
    (hc' : c' ∈ db'.candidates) (hid : c'.snapshotId = c.snapshotId)
    (hleft : c'.status ≠ .deleting) : HasEvidence db c.snapshotId := by
  have hkept : db'.candidates = db.candidates → HasEvidence db c.snapshotId := by
    intro heq
    exact absurd (h.candidates c' (heq ▸ hc') c hc hid ▸ hstatus) hleft
  cases heffect with
  | saveAbsent => exact hguard.elim
  | saveOutcome => exact hguard.elim
  | saveFailure => exact hguard.elim
  | marked hagent => cases hagent
  | @register t execution snapshotId outcome event at' row hrow hregisters =>
    obtain ⟨hmem, -⟩ := OrphanTables.mem_of_task hrow
    cases execution with
    | none => exact absurd hstatus (OrphanTables.anyDeleting_eq_false.mp hregisters.2 c hc)
    | some e =>
      obtain ⟨-, hexecuted⟩ := hguard
      obtain ⟨a, ha, hae, hcand, hstopped, hrevision, -⟩ := hexecuted e rfl
      obtain ⟨hauthorized, htoken, hcurrent⟩ := hregisters
      obtain rfl := h.left_of_update (f := fun c => { c with
        status := outcome, deletedAt := if outcome = .deleted then some at' else none })
        (fun _ => rfl) hc hstatus hc' hid hleft
      exact hcand ▸ h.hasEvidence hmem hauthorized ha hstopped (hae ▸ htoken)
        (hcurrent.trans hrevision.symm)
  | @saveManaged t snapshotId =>
    obtain rfl := h.left_of_update (f := fun c => { c with status := .managed })
      (fun _ => rfl) hc hstatus hc' hid hleft
    exact absurd hstatus (hr _ rfl c hc rfl)
  | @rediscover t item at' =>
    change c' ∈ (db.rediscover item at').candidates at hc'
    rw [OrphanTables.rediscover] at hc'
    split at hc'
    · rename_i hnone
      rcases List.mem_cons.mp hc' with rfl | hc'
      · exact absurd hid.symm (Table.ne_of_find_none hnone hc)
      · exact absurd (h.candidates c' hc' c hc hid ▸ hstatus) hleft
    · have hkey := h.left_of_update (f := fun c => { c with
        operationId := item.operationId, firstSeenAt := at', status := .candidate
        deletedAt := none, lastError := "" }) (fun _ => rfl) hc hstatus hc' hid hleft
      exact absurd hstatus (hr _ rfl c hc hkey)
  | @intent t snapshotId revision row c₀ hrow hc₀ hmay =>
    have hfree := OrphanTables.anyDeleting_eq_false.mp hmay.2.2.1
    exact absurd hstatus (hfree c hc)
  | @recover t snapshotId id present reason row c₀ a hrow hc₀ ha hauthorized htask htoken
      hrevision =>
      obtain ⟨hmem, -⟩ := OrphanTables.mem_of_task hrow
      obtain ⟨-, rfl⟩ := OrphanTables.mem_of_attempt ha
      obtain ⟨b, hb, hba, hcand, hstopped⟩ := hguard
      obtain rfl := h.attempts b hb a (OrphanTables.mem_of_attempt ha).1 hba
      obtain rfl := h.left_of_update (f := fun c => db.recoveredCandidate c present reason)
        (fun _ => rfl) hc hstatus hc' hid hleft
      exact hcand ▸ h.hasEvidence hmem hauthorized hb hstopped htoken hrevision
  | finish hfinish => exact hkept (by rw [OrphanTables.finish_tasks hfinish])
  | _ => exact hkept rfl

theorem EvidenceInv.applies_head (hguard : EvidenceGuard db r) (heffect : db.Effect true r db')
    (hchanged : db' ≠ db) {x : String × Nat} (hx : r.applies = some x) : ∃ a, db.attempts.head? =
      some a ∧ a.candidate = x.1 ∧ a.id = x.2 := by
  cases heffect with
  | none => exact absurd rfl hchanged
  | @register t execution snapshotId outcome event at' row hrow hregisters =>
    obtain ⟨hmem, -⟩ := OrphanTables.mem_of_task hrow
    cases execution with
    | none => cases hx
    | some e =>
      cases hx
      obtain ⟨-, hexecuted⟩ := hguard
      obtain ⟨a, ha, hae, hcand, -, -, -⟩ := hexecuted e rfl
      exact ⟨a, h.head_of_token hmem hregisters.1.isOpen ha (hae ▸ hregisters.2.1), hcand, hae⟩
  | @recover t snapshotId id present reason row c₀ a hrow hc₀ ha hauthorized htask htoken
      hrevision =>
      cases hx
      obtain ⟨hmem, -⟩ := OrphanTables.mem_of_task hrow
      obtain ⟨hamem, rfl⟩ := OrphanTables.mem_of_attempt ha
      obtain ⟨b, hb, hba, hcand, -⟩ := hguard
      obtain rfl := h.attempts b hb a hamem hba
      exact ⟨b, h.head_of_token hmem hauthorized.isOpen hb htoken, hcand, rfl⟩
  | _ => cases hx

end

/-! ## Runs of the Controller -/

instance (db : OrphanTables) (r : OrphanCall) : Decidable (evidenceTerms.allows db r) :=
  inferInstanceAs (Decidable (∀ snapshotId ∈ r.saves, ∀ c ∈ db.candidates,
    c.snapshotId = snapshotId → c.status ≠ .deleting))

/-- The events of a run in which an unlocked save finds a candidate that is not in
`deleting`. -/
abbrev SavesInTime : OrphanState → OrphanEventOf → Prop := evidenceTerms.Steady fun _ _ => True

theorem orphanEnvironment_candidates (db : OrphanTables) (e : OrphanEnv) :
    (orphanEnvironment db e).candidates = db.candidates := by
  cases e with
  | admitTask dueAt =>
    rw [orphanEnvironment, OrphanTables.admitTask]
    split <;> rfl
  | admitBackup uuid record =>
    rw [orphanEnvironment, OrphanTables.admitBackup]
    split <;> rfl
  | _ => rfl

/-- What an event of a run asks the tables for. -/
def requestOf (st : OrphanState) : OrphanEventOf → Option OrphanCall
  | .call i _ =>
    match st.client i with
    | some (_, .call r _) => some r
    | _ => none
  | _ => none

theorem orphanRuns_call {st st' : OrphanState} {i : Nat}
    (hs : (orphanRuns controller db).step st (.call i choice) = some st') :
    ∃ job r k, st.client i = some (job, .call r k) ∧
      st'.state = ((orphanServer controller).respond st.state r choice).2 := by
  have hs : poolStep (orphanServer controller) (runOrphanReconciliation controller)
    orphanEnvironment st (.call i choice) = some st' := hs
  obtain ⟨job, r, k, hcall, rfl⟩ := poolStep_call hs
  exact ⟨job, r, k, hcall, rfl⟩

/-- A candidate leaves `deleting` on evidence only, one attempt at most is unresolved, and
only the newest attempt has its result applied. -/
theorem left_on_evidence {db : OrphanTables} {st st' : OrphanState} {event : OrphanEventOf}
    (hdb : db.Fresh) (h : (orphanRuns true db).ReachableUnder SavesInTime st)
    (hok : SavesInTime st event) (hs : (orphanRuns true db).step st event = some st') :
    (∀ c ∈ st.state.candidates, c.status = .deleting → ∀ c' ∈ st'.state.candidates,
      c'.snapshotId = c.snapshotId → c'.status ≠ .deleting → HasEvidence st.state c.snapshotId) ∧
    (∀ a b, Unresolved st.state a → Unresolved st.state b → a = b) ∧
    ∀ r, requestOf st event = some r → st'.state ≠ st.state → ∀ x, r.applies = some x →
      ∃ a, st.state.attempts.head? = some a ∧ a.candidate = x.1 ∧ a.id = x.2 := by
  have hsound := Terms.sound_of_reachable evidenceTerms_kept safe_runOrphanReconciliation
    ⟨hdb.gateInv, hdb.evidenceInv⟩ h
  obtain ⟨-, hinv⟩ := hsound.keeps
  refine ⟨?_, fun a b ha hb => ?_, ?_⟩
  · intro c hc hstatus c' hc' hid hleft
    have hkept : st'.state.candidates = st.state.candidates →
        HasEvidence st.state c.snapshotId := fun heq =>
      absurd (hinv.candidates c' (heq ▸ hc') c hc hid ▸ hstatus) hleft
    cases event with
    | start job =>
      cases hs
      exact hkept rfl
    | env e =>
      cases hs
      exact hkept (orphanEnvironment_candidates ..)
    | call i choice =>
      obtain ⟨job, r, k, hcall, hstate⟩ := orphanRuns_call hs
      exact hinv.evidence_of_left (hok.allows hcall) (hsound.guard hcall)
        (OrphanTables.effect_respond true st.state r choice) hc hstatus (hstate ▸ hc') hid hleft
  · exact Option.some.inj
      ((hinv.head_of_unresolved ha).symm.trans (hinv.head_of_unresolved hb))
  · intro r hr hchanged x hx
    cases event with
    | start job => cases hr
    | env e => cases hr
    | call i choice =>
      obtain ⟨job, r', k, hcall, hstate⟩ := orphanRuns_call hs
      obtain rfl : r' = r := by simpa [requestOf, hcall] using hr
      exact hinv.applies_head (hsound.guard hcall)
        (OrphanTables.effect_respond true st.state r' choice) (hstate ▸ hchanged) hx

def failedBackup : OrphanTables := { backups := [{ uuid := "b1", status := .failed }] }

/-- The next calls of an advance that finds the snapshot of the failed backup. -/
def callsWithSnapshot (i n : Nat) : List OrphanEventOf :=
  List.replicate n (.call i { inventory := [{ snapshotId := "s", operationId := "b1" }] })

/-- A cycle that discovers the snapshot, and an advance of the next one. -/
def rediscovery : List OrphanEventOf :=
  [.env (.admitTask none), .start 0] ++ callsWithSnapshot 0 19 ++
    [.env (.tick 86400000000), .env (.admitTask none), .start 1]

/-- The advance has deleted the snapshot and confirmed the end of its runner. -/
def executed : List OrphanEventOf :=
  rediscovery ++ callsWithSnapshot 1 24 ++
    [.env (.receipt 0 { exitCode := 0 }), .env (.runnerEnds 0)] ++ callsWithSnapshot 1 4

def beforeResult : OrphanState :=
  ((orphanRuns true failedBackup).exec (orphanStart failedBackup) executed).get
    (by decide +kernel)

def afterResult : OrphanState :=
  ((orphanRuns true failedBackup).step beforeResult (.call 1 {})).get (by decide +kernel)

theorem left_on_evidence_result :
    (∀ c ∈ beforeResult.state.candidates, c.status = .deleting →
      ∀ c' ∈ afterResult.state.candidates, c'.snapshotId = c.snapshotId →
        c'.status ≠ .deleting → HasEvidence beforeResult.state c.snapshotId) ∧
    (∀ a b, Unresolved beforeResult.state a → Unresolved beforeResult.state b → a = b) ∧
    ∀ r, requestOf beforeResult (.call 1 {}) = some r →
      afterResult.state ≠ beforeResult.state → ∀ x, r.applies = some x →
        ∃ a, beforeResult.state.attempts.head? = some a ∧ a.candidate = x.1 ∧ a.id = x.2 := by
  have hsteady : (orphanRuns true failedBackup).Every (fun s a _ => SavesInTime s a)
      (orphanStart failedBackup) executed := by decide +kernel
  have hlast : SavesInTime beforeResult (.call 1 {}) := by decide +kernel
  exact left_on_evidence ⟨rfl, rfl, rfl, rfl, rfl⟩
    (.of_exec (.start rfl) hsteady (Option.some_get _).symm) hlast (Option.some_get _).symm

/-- An advance is about to save `managed`, as a retried backup has been pending when it
looked. The backup has failed again, and another advance has started the deletion. -/
def overtakenByDeletion : List OrphanEventOf :=
  rediscovery ++ callsWithSnapshot 1 14 ++ [.env (.retryBackup "b1")] ++ callsWithSnapshot 1 3 ++
    [.env (.progressBackup "b1" .failed), .start 1] ++ callsWithSnapshot 2 24

/-- The target while the runner deletes the snapshot. -/
def deletionRuns : OrphanState :=
  ((orphanRuns true failedBackup).exec (orphanStart failedBackup) overtakenByDeletion).get
    (by decide +kernel)

/-- The target after the first advance has saved its status. -/
def savedManaged : OrphanState :=
  ((orphanRuns true failedBackup).step deletionRuns (.call 1 {})).get (by decide +kernel)

/-- A candidate leaves `deleting` while its runner is at work. -/
theorem not_left_on_evidence_saved :
    (orphanRuns true failedBackup).Reachable deletionRuns ∧
      (orphanRuns true failedBackup).step deletionRuns (.call 1 {}) = some savedManaged ∧
      (deletionRuns.state.candidates.map fun c => (c.snapshotId, c.status)) =
        [("s", .deleting)] ∧
      (savedManaged.state.candidates.map fun c => (c.snapshotId, c.status)) =
        [("s", .managed)] ∧
      ¬ HasEvidence deletionRuns.state "s" := by
  refine ⟨.of_exec rfl (Option.some_get _).symm, (Option.some_get _).symm, ?_, ?_, ?_⟩
  · decide +kernel
  · decide +kernel
  · rintro ⟨a, ha, hstopped, -⟩
    have hrunner : ∀ a, deletionRuns.state.newestAttempt "s" = some a → a.stopped = false := by
      decide +kernel
    simp [hrunner a ha] at hstopped

end HyperFileLens.Storage
