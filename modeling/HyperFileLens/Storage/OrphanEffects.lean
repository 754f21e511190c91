import HyperFileLens.Storage.OrphanReconciliation

/-!
# What a call of an advance changes

`OrphanTables.Effect` lists what each call of an advance can do to the tables, with what
its transaction has checked. `effect_respond` says that there is nothing else, and is
what the invariants of reconciliation are proved by.
-/

namespace HyperFileLens.Storage

open Tasks

namespace OrphanTables

inductive Effect (controller : Bool) (db : OrphanTables) : OrphanCall → OrphanTables → Prop
  | none {r : OrphanCall} : Effect controller db r db
  | startTask {t : Nat} {row : ReconcileTask} {task : TaskRow OrphanRecovery}
      (hrow : db.task t = some row) (hstart : row.task.start = .ok task) :
      Effect controller db (.startTask t) (db.updateTask t fun row => { row with task := task })
  | step {t : Nat} {name : String} {status : StepStatus} {progress : Nat} :
      Effect controller db (.step t name status progress) (db.step t name status progress)
  | remote {t : Nat} {operation : OrphanOperation} {row : ReconcileTask}
      (hrow : db.task t = some row)
      (hnew : ∀ child ∈ db.children, child.parentTask = t → child.operation = operation →
        child.retryCount ≠ row.task.retryCount) :
      Effect controller db (.remote t operation) { db with
        children := { parentTask := t, operation := operation,
                      retryCount := row.task.retryCount } :: db.children }
  | saveAbsent {t : Nat} {snapshotId : String} :
      Effect controller db (.saveAbsent t snapshotId)
        ((db.saveStatus snapshotId .absent).record t snapshotId .absent)
  | register {t : Nat} {execution : Option Execution} {snapshotId : String}
      {outcome : CandidateStatus} {event : ResultOutcome} {at' : Int} {row : ReconcileTask}
      (hrow : db.task t = some row) (hregisters : db.Registers row execution) :
      Effect controller db (.register t execution snapshotId outcome event at')
        ((db.saveOutcome snapshotId outcome at').record t snapshotId event)
  | saveManaged {t : Nat} {snapshotId : String} :
      Effect controller db (.saveManaged t snapshotId)
        ((db.saveStatus snapshotId .managed).record t snapshotId .managed)
  | rediscover {t : Nat} {item : InventoryItem} {at' : Int} :
      Effect controller db (.rediscover t item at')
        ((db.rediscover item at').record t item.snapshotId .discovered)
  | record {t : Nat} {snapshotId : String} {outcome : ResultOutcome} :
      Effect controller db (.record t snapshotId outcome) (db.record t snapshotId outcome)
  | deferred {t : Nat} {copy : OrphanSnapshot} :
      Effect controller db (.mark t copy) (db.record t copy.snapshotId .deferred)
  | marked {t : Nat} {copy c : OrphanSnapshot} (hagent : controller = false)
      (hc : db.candidate copy.snapshotId = some c) (hbackup : db.backupBlocker = "")
      (hmanaged : copy.snapshotId ∉ db.managedIds) :
      Effect controller db (.mark t copy) (db.saveStatus copy.snapshotId .deleting)
  | intent {t : Nat} {snapshotId : String} {revision : Nat} {row : ReconcileTask}
      {c : OrphanSnapshot} (hrow : db.task t = some row) (hc : db.candidate snapshotId = some c)
      (hmay : db.MayDelete row c revision) :
      Effect controller db (.intent t snapshotId revision)
        { (db.saveStatus snapshotId .deleting).updateTask t fun row =>
            { row with executionToken := some db.attempts.length } with
          attempts := db.newAttempt t c revision :: db.attempts }
  | spawn {id : Nat} {a : DeleteAttempt} (ha : db.attempt id = some a)
      (hworker : a.worker = true) :
      Effect controller db (.spawn id) (db.updateAttempt id fun a => { a with runner := true })
  | closeLease {id : Nat} :
      Effect controller db (.closeLease id)
        (db.updateAttempt id fun a => { a with worker := false })
  | finishAttempt {id : Nat} :
      Effect controller db (.finishAttempt id) (db.updateAttempt id DeleteAttempt.finish)
  | recover {t : Nat} {snapshotId : String} {id : Nat} {present : Bool} {reason : String}
      {row : ReconcileTask} {c : OrphanSnapshot} {a : DeleteAttempt}
      (hrow : db.task t = some row) (hc : db.candidate snapshotId = some c)
      (ha : db.attempt id = some a) (hauthorized : db.Authorized row)
      (htask : a.repositoryTask = t) (htoken : row.executionToken = some a.id)
      (hrevision : db.revision = a.observationRevision) :
      Effect controller db (.recover t snapshotId id present reason)
        (((db.updateCandidate snapshotId fun c => db.recoveredCandidate c present reason)
          |>.updateAttempt id fun a => { a with state := .recovered }).record t snapshotId
            (recoveryOutcome (db.recoveredStatus c present)))
  | saveOutcome {t : Nat} {snapshotId : String} {outcome : CandidateStatus}
      {event : ResultOutcome} {at' : Int} :
      Effect controller db (.saveOutcome t snapshotId outcome event at')
        ((db.saveOutcome snapshotId outcome at').record t snapshotId event)
  | saveFailure {t : Nat} {snapshotId : String} :
      Effect controller db (.saveFailure t snapshotId)
        ((db.saveFailure snapshotId).record t snapshotId .failed)
  | wait {t : Nat} {reason : String} :
      Effect controller db (.wait t reason) (db.wait controller t reason)
  | finish {t : Nat} {completion : Completion} {db' : OrphanTables}
      (hfinish : db.finish controller t completion = .ok db') :
      Effect controller db (.finish t completion) db'

variable {controller : Bool} {db db' : OrphanTables}

variable {t : Nat} {snapshotId : String}

theorem effect_remote {operation : OrphanOperation} {answer : Option RemoteAnswer}
    (h : db.remote t operation = .ok (answer, db')) :
    Effect controller db (.remote t operation) db' := by
  rw [remote] at h
  cases hrow : db.task t with
  | none => simp [hrow] at h
  | some row =>
    simp only [hrow] at h
    split at h
    · rename_i child hchild
      cases hanswer : child.answer with
      | error error => simp [hanswer, Except.map] at h
      | ok a =>
        simp only [hanswer, Except.map, Except.ok.injEq, Prod.mk.injEq] at h
        exact h.2 ▸ .none
    · rename_i hnone
      simp only [Except.ok.injEq, Prod.mk.injEq] at h
      obtain ⟨-, rfl⟩ := h
      refine .remote hrow fun child hmem hparent hop hretry => ?_
      have := List.find?_eq_none.mp hnone child hmem
      simp [hparent, hop, hretry] at this

theorem effect_mark {copy : OrphanSnapshot} {answer : Marked}
    (h : db.mark controller t copy.snapshotId = .ok (answer, db')) :
    Effect controller db (.mark t copy) db' := by
  rw [mark] at h
  cases hc : db.candidate copy.snapshotId with
  | none => simp [hc] at h
  | some c =>
    simp only [hc] at h
    split at h
    · simp only [Except.ok.injEq, Prod.mk.injEq] at h
      exact h.2 ▸ .none
    · split at h
      · simp only [Except.ok.injEq, Prod.mk.injEq] at h
        exact h.2 ▸ .deferred
      · rename_i hfree
        push Not at hfree
        cases controller with
        | true =>
          simp only [if_true, Except.ok.injEq, Prod.mk.injEq] at h
          exact h.2 ▸ .none
        | false =>
          simp only [Bool.false_eq_true, if_false, Except.ok.injEq, Prod.mk.injEq] at h
          exact h.2 ▸ .marked rfl hc hfree.1 hfree.2

theorem effect_intent {revision id : Nat} (h : db.intent t snapshotId revision = .ok (id, db')) :
    Effect controller db (.intent t snapshotId revision) db' := by
  rw [intent] at h
  cases hrow : db.task t with
  | none => simp [hrow] at h
  | some row =>
    cases hc : db.candidate snapshotId with
    | none => simp [hrow, hc] at h
    | some c =>
      simp only [hrow, hc] at h
      split at h
      · rename_i hmay
        simp only [Except.ok.injEq, Prod.mk.injEq] at h
        exact h.2 ▸ .intent hrow hc hmay
      · cases h

theorem effect_register {execution : Option Execution} {outcome : CandidateStatus}
    {event : ResultOutcome} {at' : Int}
    (h : db.register t execution snapshotId outcome event at' = .ok db') :
    Effect controller db (.register t execution snapshotId outcome event at') db' := by
  rw [register] at h
  cases hrow : db.task t with
  | none => simp [hrow] at h
  | some row =>
    simp only [hrow] at h
    split at h
    · rename_i hregisters
      exact Except.ok.inj h ▸ .register hrow hregisters
    · cases h

theorem effect_recover {id : Nat} {present : Bool} {reason : String}
    (h : db.recover t snapshotId id present reason = .ok db') :
    Effect controller db (.recover t snapshotId id present reason) db' := by
  rw [recover] at h
  cases hrow : db.task t with
  | none => simp [hrow] at h
  | some row =>
    cases hc : db.candidate snapshotId with
    | none => simp [hrow, hc] at h
    | some c =>
      cases ha : db.attempt id with
      | none => simp [hrow, hc, ha] at h
      | some a =>
        simp only [hrow, hc, ha] at h
        split at h
        · rename_i hchecked
          obtain ⟨hauthorized, htask, htoken, hrevision⟩ := hchecked
          split at h
          · cases h
          · exact Except.ok.inj h ▸
              .recover hrow hc ha hauthorized htask htoken hrevision
        · cases h

theorem effect_spawn {id : Nat} (h : db.spawn id = .ok db') :
    Effect controller db (.spawn id) db' := by
  rw [spawn] at h
  cases ha : db.attempt id with
  | none => simp [ha] at h
  | some a =>
    simp only [ha] at h
    split at h
    · rename_i hworker
      exact Except.ok.inj h ▸ .spawn ha hworker
    · cases h

theorem effect_startTask (h : db.startTask t = .ok db') :
    Effect controller db (.startTask t) db' := by
  rw [startTask] at h
  cases hrow : db.task t with
  | none => simp [hrow] at h
  | some row =>
    cases hstart : row.task.start with
    | error message => simp [hrow, hstart] at h
    | ok task =>
      simp only [hrow, hstart, Except.ok.injEq] at h
      exact h ▸ .startTask hrow hstart

theorem ok_of_map {α β ε : Type} {x : Except ε α} {f : α → β} {b : β}
    (h : x.map f = .ok b) : ∃ a, x = .ok a ∧ f a = b := by
  cases x with
  | error error => cases h
  | ok a => exact ⟨a, rfl, Except.ok.inj h⟩

theorem effect_serve {choice : OrphanChoice} {r : OrphanCall} {value : r.Value}
    (h : db.serve controller choice r = .ok (value, db')) : Effect controller db r db' := by
  cases r
  case load t =>
    rw [serve] at h
    cases hrow : db.task t with
    | none => simp [hrow] at h
    | some row =>
      simp only [hrow, Except.ok.injEq, Prod.mk.injEq] at h
      exact h.2 ▸ .none
  case startTask t =>
    obtain ⟨a, ha, hpair⟩ := ok_of_map h
    obtain rfl : a = db' := congrArg Prod.snd hpair
    exact effect_startTask ha
  case remote => exact effect_remote h
  case register =>
    obtain ⟨a, ha, hpair⟩ := ok_of_map h
    obtain rfl : a = db' := congrArg Prod.snd hpair
    exact effect_register ha
  case mark => exact effect_mark h
  case intent => exact effect_intent h
  case spawn =>
    obtain ⟨a, ha, hpair⟩ := ok_of_map h
    obtain rfl : a = db' := congrArg Prod.snd hpair
    exact effect_spawn ha
  case readReceipt =>
    obtain ⟨a, -, hpair⟩ := ok_of_map h
    obtain rfl : db = db' := congrArg Prod.snd hpair
    exact .none
  case recover =>
    obtain ⟨a, ha, hpair⟩ := ok_of_map h
    obtain rfl : a = db' := congrArg Prod.snd hpair
    exact effect_recover ha
  case finish =>
    obtain ⟨a, ha, hpair⟩ := ok_of_map h
    obtain rfl : a = db' := congrArg Prod.snd hpair
    exact .finish ha
  all_goals
    simp only [serve, Except.ok.injEq, Prod.mk.injEq] at h
    obtain ⟨-, rfl⟩ := h
    constructor

theorem effect_respond (controller : Bool) (db : OrphanTables) (r : OrphanCall)
    (choice : OrphanChoice) : Effect controller db r (db.respond controller r choice).2 := by
  rw [respond]
  split
  · exact .none
  · split
    · rename_i value db' hserve
      exact effect_serve hserve
    · exact .none

end OrphanTables

end HyperFileLens.Storage
