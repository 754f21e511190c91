import HyperFileLens.Node.AbsoluteDeadlines
import HyperFileLens.Node.UpgradeFrames

/-!
# The order of backup progress

What the row of a running backup keeps of the progress frames it gets, in whatever
order they arrive.

*Rule.*  A payload is substantive if it tells of work, and generic otherwise. A
substantive one is never replaced by a generic one. Of two payloads with a sequence
number the one with the higher number stays.

*Numbers.*  A payload without a number is compared with nothing, so storing one starts
the numbers afresh. As long as none is stored, the stored number only grows, and every
substantive payload with a number is at most as new as the stored one.
-/

namespace HyperFileLens.Node

open Transition

/-! ## Payloads -/

def NodeTask.storedProgress (task : NodeTask) : Option Dict :=
  asDict (task.result.get "last_progress")

def progressSequence (progress : Dict) : Option Int :=
  ((progress.get "progress_sequence").int?).filter (0 < ·)

def NodeTask.storedSequence (task : NodeTask) : Option Int :=
  task.storedProgress.bind progressSequence

def Frame.payload : Frame → Option Dict
  | .accepted _ => none
  | .progress d _ _ _ => if d.isEmpty then none else some d

structure NodeTask.RunningBackup (task : NodeTask) : Prop where
  backup : isProtectionBackupTask task.correlationType task.kind = true
  active : task.status.isActive = true

inductive Offer (stored : Option Dict) (frame : Frame) : Option Dict → Prop where
  | silent (h : frame.payload = none) : Offer stored frame stored
  /-- The payload is no newer, or generic next to a substantive one. -/
  | refused (progress : Dict) (h : frame.payload = some progress)
      (hold : (∃ incoming ∈ progressSequence progress, ∃ existing ∈ stored.bind progressSequence,
          incoming ≤ existing) ∨
        (substantiveBackupProgress progress = false ∧
          stored.any substantiveBackupProgress = true)) :
      Offer stored frame stored
  | taken (progress : Dict) (h : frame.payload = some progress)
      (newer : ∀ incoming ∈ progressSequence progress,
        ∀ existing ∈ stored.bind progressSequence, existing < incoming)
      (better : substantiveBackupProgress progress = true ∨
        stored.any substantiveBackupProgress = false) :
      Offer stored frame (some progress)

/-! ## One frame -/

variable {stored stored' : Option Dict} {task : NodeTask}

/-- The rule of `_should_apply_progress_update` for a backup. -/
theorem shouldApplyProgressUpdate_iff
    (h : isProtectionBackupTask task.correlationType task.kind = true) (incoming : Dict)
    (existing : Option Dict) :
    shouldApplyProgressUpdate task incoming existing = true ↔
      (∀ i ∈ progressSequence incoming, ∀ e ∈ existing.bind progressSequence, e < i) ∧
        (substantiveBackupProgress incoming = true ∨
          existing.any substantiveBackupProgress = false) := by
  have hbest : (if substantiveBackupProgress incoming = true then true
      else !existing.any substantiveBackupProgress) = true ↔
      (substantiveBackupProgress incoming = true ∨
        existing.any substantiveBackupProgress = false) := by
    cases substantiveBackupProgress incoming <;> simp
  have hsequence : ∀ d : Dict, ∀ n, n ∈ progressSequence d ↔
      (d.get "progress_sequence").int? = some n ∧ 0 < n := by
    intro d n
    simp [progressSequence, Option.filter_eq_some_iff]
  simp only [shouldApplyProgressUpdate, h, Bool.not_true, Bool.false_eq_true, if_false]
  cases existing with
  | none => simp
  | some d =>
    simp only [hsequence, Option.bind_some]
    rcases Option.eq_none_or_eq_some (incoming.get "progress_sequence").int? with
      hincoming | ⟨i, hincoming⟩
    · simp [hincoming]
    rcases Option.eq_none_or_eq_some (d.get "progress_sequence").int? with
      hexisting | ⟨e, hexisting⟩
    · simp [hincoming, hexisting]
    simp only [hincoming, hexisting, Option.some.injEq]
    split
    case isTrue hold =>
      simp only [Bool.and_eq_true, decide_eq_true_eq] at hold
      refine iff_of_false (by simp) fun hnewer => ?_
      have hlt := hnewer.1 i ⟨rfl, hold.1.1⟩ e ⟨rfl, hold.1.2⟩
      omega
    case isFalse hnew =>
      simp only [Bool.and_eq_true, decide_eq_true_eq, not_and, Int.not_le] at hnew
      rw [hbest, and_iff_right]
      rintro _ ⟨rfl, hi⟩ _ ⟨rfl, he⟩
      exact hnew ⟨hi, he⟩

theorem lastProgress_mergeProgress (task : NodeTask) (progress merged : Dict) (now : Instant) :
    asDict ((mergeProgressIntoResult task progress merged now).get "last_progress") =
      if shouldApplyProgressUpdate task progress (asDict (merged.get "last_progress")) then
        some progress
      else asDict (merged.get "last_progress") := by
  have hset : asDict ((merged.set "last_progress" (.obj progress)).get "last_progress") =
      some progress := by
    rw [Dict.get_set_self]
    rfl
  have hkeeps : ∀ r, SameAt ["last_progress"] (merged.set "last_progress" (.obj progress)) r →
      asDict (r.get "last_progress") = some progress := by
    intro r hsame
    rw [hsame _ List.mem_cons_self]
    exact hset
  rw [mergeProgressIntoResult]
  cases happly : shouldApplyProgressUpdate task progress (asDict (merged.get "last_progress")) with
  | false => rfl
  | true =>
    simp only [Bool.not_true, Bool.false_eq_true, if_false, if_true]
    split
    · exact hset
    have hmode := (SameAt.refl ["last_progress"]
      (merged.set "last_progress" (.obj progress))).set (k := "mode") (by decide)
      (.str "local_detached")
    split
    · have htarget := hmode.set (k := "target_version") (by decide)
        (.str (Text.strip (progress.get "target_version").strOr))
      split
      · exact hkeeps _ htarget
      · exact hkeeps _ (htarget.set (by decide) _)
    · split
      · exact hkeeps _ hmode
      · exact hkeeps _ (hmode.set (by decide) _)

theorem lastProgress_withoutDelivery (result : Dict) :
    (withoutDeliveryRuntimeState result).get "last_progress" = result.get "last_progress" :=
  (SameAt.refl ["last_progress"] result).withoutDelivery (by decide) _ List.mem_cons_self

theorem not_detached_of_backup {conf : Settings}
    (h : isProtectionBackupTask task.correlationType task.kind = true) (now : Instant) :
    applyDetachedMarker conf task now = task := by
  simp only [isProtectionBackupTask, Bool.and_eq_true, decide_eq_true_eq] at h
  have hlifecycle : task.isLifecycleCorrelatedTask = false := by
    rw [NodeTask.isLifecycleCorrelatedTask, h.1]
    decide
  rw [applyDetachedMarker, NodeTask.hasDetachedMarker, hlifecycle]
  rfl

theorem recordTaskProgress_offers (conf : Settings) (h : task.RunningBackup) (d : Dict)
    (downloadCapable withinGrace : Bool) (now : Instant) :
    (recordTaskProgress conf task d downloadCapable now).status = .running ∧
      (recordTaskProgress conf task d downloadCapable now).correlationType =
        task.correlationType ∧
      (recordTaskProgress conf task d downloadCapable now).kind = task.kind ∧
      Offer task.storedProgress (.progress d downloadCapable withinGrace now)
        (recordTaskProgress conf task d downloadCapable now).storedProgress := by
  simp only [recordTaskProgress, h.active, Bool.not_true, Bool.false_eq_true, if_false]
  split
  case isTrue hempty =>
    refine ⟨rfl, rfl, rfl, ?_⟩
    have hkept := lastProgress_withoutDelivery task.result
    simp only [NodeTask.storedProgress, hkept]
    exact .silent (by rw [Frame.payload, hempty]; rfl)
  case isFalse hempty =>
    rw [not_detached_of_backup]
    case h => exact h.backup
    refine ⟨rfl, rfl, rfl, ?_⟩
    have hpayload : (Frame.progress d downloadCapable withinGrace now).payload = some d := by
      rw [Frame.payload, if_neg hempty]
    simp only [NodeTask.storedProgress, lastProgress_mergeProgress, lastProgress_withoutDelivery]
    split
    case isTrue happly =>
      have hrule := (shouldApplyProgressUpdate_iff (by exact h.backup) d _).mp happly
      exact .taken d hpayload hrule.1 hrule.2
    case isFalse hnot =>
      have hrule := not_and_or.mp
        (mt (shouldApplyProgressUpdate_iff (by exact h.backup) d _).mpr hnot)
      refine .refused d hpayload ?_
      cases hrule with
      | inl hold =>
        left
        push Not at hold
        simpa only [Int.not_lt] using hold
      | inr hworse =>
        right
        simpa using hworse

theorem NodeTask.RunningBackup.receive (h : task.RunningBackup) (conf : Settings) (frame : Frame) :
    (task.afterFrame conf frame).RunningBackup ∧
      Offer task.storedProgress frame (task.afterFrame conf frame).storedProgress := by
  cases frame with
  | accepted now =>
    have hnot : task.status.isTerminal = false := by
      rw [Status.isTerminal_eq, h.active]
      rfl
    simp only [NodeTask.afterFrame, acceptTask, hnot]
    refine ⟨⟨h.backup, rfl⟩, ?_⟩
    have hkept := lastProgress_withoutDelivery task.result
    simp only [NodeTask.storedProgress, Bool.false_eq_true, if_false, hkept]
    exact .silent rfl
  | progress d downloadCapable withinGrace now =>
    obtain ⟨hstatus, hcorrelation, hkind, hoffer⟩ :=
      recordTaskProgress_offers conf h d downloadCapable withinGrace now
    have hreattach : task.afterFrame conf (.progress d downloadCapable withinGrace now) =
        recordTaskProgress conf task d downloadCapable now := by
      simp only [NodeTask.afterFrame, handleTaskProgress, reattachBackupNodeTask, hstatus]
      simp
    rw [hreattach]
    exact ⟨⟨by rw [hcorrelation, hkind]; exact h.backup, by rw [hstatus]; rfl⟩, hoffer⟩

/-! ## Runs -/

/-- A stored substantive payload is not replaced by a generic one. -/
def KeepsSubstantive (task : NodeTask) (_ : Frame) (task' : NodeTask) : Prop :=
  task.storedProgress.any substantiveBackupProgress = true →
    task'.storedProgress.any substantiveBackupProgress = true

def StoresNumbered (task : NodeTask) (_ : Frame) (task' : NodeTask) : Prop :=
  task'.storedProgress = task.storedProgress ∨ task'.storedSequence.isSome = true

/-- What is stored stays or gives way to a higher number. -/
def SequenceGrows (task : NodeTask) (_ : Frame) (task' : NodeTask) : Prop :=
  task'.storedProgress = task.storedProgress ∨
    ∀ n ∈ task.storedSequence, ∃ m ∈ task'.storedSequence, n < m

/-- The stored payload is the newest one: every substantive payload among the frames has
at most its number, and it was stored before or is among the frames. -/
structure NewestStored (stored : Option Dict) (frames : List Frame) (task : NodeTask) : Prop where
  newest : ∀ frame ∈ frames, ∀ d ∈ frame.payload, substantiveBackupProgress d = true →
    ∀ n ∈ progressSequence d, ∃ m ∈ task.storedSequence, n ≤ m
  received : task.storedProgress = stored ∨ ∃ frame ∈ frames, task.storedProgress = frame.payload

variable {frame : Frame}

theorem Offer.keepsSubstantive (h : Offer stored frame stored')
    (hstored : stored.any substantiveBackupProgress = true) :
    stored'.any substantiveBackupProgress = true := by
  cases h with
  | silent => exact hstored
  | refused => exact hstored
  | taken d _ _ better =>
    cases better with
    | inl hd => exact hd
    | inr hgeneric =>
      rw [hstored] at hgeneric
      cases hgeneric

theorem Offer.grows (h : Offer stored frame stored')
    (hnumbered : stored' = stored ∨ (stored'.bind progressSequence).isSome = true) : stored' =
      stored ∨ ∀ n ∈ stored.bind progressSequence, ∃ m ∈ stored'.bind progressSequence, n < m := by
  cases h with
  | silent => exact Or.inl rfl
  | refused => exact Or.inl rfl
  | taken d _ newer _ =>
    refine hnumbered.imp_right fun hsome n hn => ?_
    obtain ⟨m, hm⟩ := Option.isSome_iff_exists.mp hsome
    exact ⟨m, hm, newer m hm n hn⟩

/-- A substantive payload with a number is at most as new as what is stored then. -/
theorem Offer.covers (h : Offer stored frame stored') {d : Dict} (hd : frame.payload = some d)
    (hsubstantive : substantiveBackupProgress d = true) {n : Int} (hn : n ∈ progressSequence d) :
    ∃ m ∈ stored'.bind progressSequence, n ≤ m := by
  cases h with
  | silent hnone =>
    rw [hd] at hnone
    cases hnone
  | refused e he hold =>
    rw [hd] at he
    cases he
    cases hold with
    | inl hnumbers =>
      obtain ⟨i, hi, m, hm, hle⟩ := hnumbers
      rw [Option.mem_def] at hi hn
      rw [hi] at hn
      cases hn
      exact ⟨m, hm, hle⟩
    | inr hgeneric =>
      rw [hsubstantive] at hgeneric
      cases hgeneric.1
  | taken e he _ _ =>
    rw [hd] at he
    cases he
    exact ⟨n, hn, Int.le_refl n⟩

/-- The stored number along a run does not fall below what it was. -/
def NotBelow (task task' : NodeTask) : Prop :=
  ∀ n ∈ task.storedSequence, ∃ m ∈ task'.storedSequence, n ≤ m

theorem SequenceGrows.notBelow {task task' : NodeTask} (h : SequenceGrows task frame task') :
    NotBelow task task' := by
  intro n hn
  cases h with
  | inl heq =>
    rw [NodeTask.storedSequence, heq]
    exact ⟨n, hn, Int.le_refl n⟩
  | inr hgrows =>
    obtain ⟨m, hm, hlt⟩ := hgrows n hn
    exact ⟨m, hm, Int.le_of_lt hlt⟩

theorem NotBelow.trans {task task' task'' : NodeTask} (h : NotBelow task task')
    (h' : NotBelow task' task'') : NotBelow task task'' := by
  intro n hn
  obtain ⟨m, hm, hle⟩ := h n hn
  obtain ⟨k, hk, hle'⟩ := h' m hm
  exact ⟨k, hk, Int.le_trans hle hle'⟩

section Runs

variable {conf : Settings} {task task' : NodeTask} {frames : List Frame}

theorem exec_cons {frame : Frame}
    (h : (frameSystem conf).exec task (frame :: frames) = some task') :
    (frameSystem conf).exec (task.afterFrame conf frame) frames = some task' := h

theorem NodeTask.RunningBackup.grows {task : NodeTask} (h : task.RunningBackup) (frame : Frame)
    (hnumbered : StoresNumbered task frame (task.afterFrame conf frame)) :
    SequenceGrows task frame (task.afterFrame conf frame) :=
  (h.receive conf frame).2.grows hnumbered

/-- Along a run that stores no payload without a number, the number does not fall, and
every substantive payload is at most as new as the stored one. -/
theorem newestStored_of_exec (h : task.RunningBackup)
    (hnumbered : (frameSystem conf).Every StoresNumbered task frames)
    (hexec : (frameSystem conf).exec task frames = some task') :
    NotBelow task task' ∧ NewestStored task.storedProgress frames task' := by
  induction frames generalizing task with
  | nil =>
    cases hexec
    refine ⟨fun n hn => ⟨n, hn, Int.le_refl n⟩, ⟨?_, Or.inl rfl⟩⟩
    intro frame hmem
    cases hmem
  | cons frame frames ih =>
    obtain ⟨hfirst, hrest⟩ := hnumbered
    obtain ⟨hrunning, hoffer⟩ := h.receive conf frame
    obtain ⟨hbelow, hnewest⟩ := ih hrunning hrest (exec_cons hexec)
    refine ⟨(h.grows frame hfirst).notBelow.trans hbelow, ⟨?_, ?_⟩⟩
    · intro later hmem d hd hsubstantive n hn
      cases hmem with
      | head =>
        obtain ⟨m, hm, hle⟩ := hoffer.covers hd hsubstantive hn
        obtain ⟨k, hk, hle'⟩ := hbelow m hm
        exact ⟨k, hk, Int.le_trans hle hle'⟩
      | tail _ hmem => exact hnewest.newest later hmem d hd hsubstantive n hn
    · cases hnewest.received with
      | inl heq =>
        rw [heq]
        generalize (task.afterFrame conf frame).storedProgress = stored' at hoffer
        cases hoffer with
        | silent => exact Or.inl rfl
        | refused => exact Or.inl rfl
        | taken d hd => exact Or.inr ⟨frame, List.mem_cons_self, hd.symm⟩
      | inr hlater =>
        obtain ⟨later, hmem, heq⟩ := hlater
        exact Or.inr ⟨later, List.mem_cons_of_mem _ hmem, heq⟩

/-- A running backup never loses substantive progress to a generic frame. As long as no
payload without a number is stored, the stored number only grows, every substantive
payload received has at most the stored number, and the stored payload is the one from
before or one of those received. -/
theorem backup_progress_ordered (conf : Settings) (task : NodeTask) (h : task.RunningBackup)
    (frames : List Frame) :
    (frameSystem conf).Every KeepsSubstantive task frames ∧
      ((frameSystem conf).Every StoresNumbered task frames →
        (frameSystem conf).Every SequenceGrows task frames ∧
          ∀ task' ∈ (frameSystem conf).exec task frames,
            NewestStored task.storedProgress frames task') := by
  refine ⟨?_, fun hnumbered => ⟨?_, fun task' hexec => ?_⟩⟩
  · refine System.every_of_invariant (Q := fun _ _ _ => True) (I := NodeTask.RunningBackup)
      ?_ h (System.every_of_forall fun _ _ _ _ => trivial)
    rintro task frame task' hrunning hstep -
    cases hstep
    obtain ⟨hnext, hoffer⟩ := hrunning.receive conf frame
    exact ⟨hnext, hoffer.keepsSubstantive⟩
  · refine System.every_of_invariant (I := NodeTask.RunningBackup) ?_ h hnumbered
    intro task frame task' hrunning hstep hstores
    cases hstep
    exact ⟨(hrunning.receive conf frame).1, hrunning.grows frame hstores⟩
  · exact (newestStored_of_exec h hnumbered hexec).2

def numbered (n : Int) (percent : Json) : Frame :=
  .progress [("progress_sequence", .int n), ("percent", percent)] false false ⟨0, ""⟩

def unnumbered : Frame := .progress [("percent", .int 50)] false false ⟨0, ""⟩

/-- Late progress of a lower number is not stored. -/
theorem backup_progress_numbered :
    (frameSystem {}).Every SequenceGrows createdBackup [numbered 5 (.int 60), numbered 3 (.int 40)] ∧
      ∀ task' ∈ (frameSystem {}).exec createdBackup [numbered 5 (.int 60), numbered 3 (.int 40)],
        NewestStored none [numbered 5 (.int 60), numbered 3 (.int 40)] task' :=
  (backup_progress_ordered {} createdBackup ⟨by decide, rfl⟩ _).2
    ⟨Or.inr (by decide +kernel), Or.inl (by decide +kernel), trivial⟩

/-- A payload without a number lets the stored number fall from 5 to 3. A generic frame
with the number 10 shuts out the only substantive one, which has the number 8. -/
theorem backup_progress_not_best :
    (¬ ∀ (frames later : List Frame) (first last : NodeTask),
      (frameSystem {}).exec createdBackup frames = some first →
      (frameSystem {}).exec first later = some last → NotBelow first last) ∧
    ¬ ∀ (frames : List Frame) (last : NodeTask),
      (frameSystem {}).exec createdBackup frames = some last →
      ∀ frame ∈ frames, ∀ d ∈ frame.payload, substantiveBackupProgress d = true →
      (∀ other ∈ frames, ∀ e ∈ other.payload, substantiveBackupProgress e = true → e = d) →
      last.storedProgress = some d := by
  constructor
  · intro h
    have hbelow := h [numbered 5 (.int 60)] [unnumbered, numbered 3 (.int 40)] _ _ rfl rfl
    obtain ⟨m, hm, hle⟩ := hbelow 5 (by decide +kernel)
    have hthree : m = 3 := by
      have hstored : 3 ∈ (((createdBackup.afterFrame {} (numbered 5 (.int 60))).afterFrame {}
          unnumbered).afterFrame {} (numbered 3 (.int 40))).storedSequence := by decide +kernel
      exact Option.some.inj (hm.symm.trans hstored)
    omega
  · intro h
    have hstored := h [numbered 10 .null, numbered 8 (.int 40)] _ rfl (numbered 8 (.int 40))
      (by simp) _ rfl (by decide +kernel) (by
        intro other hmem e he hsubstantive
        simp only [List.mem_cons, List.not_mem_nil, or_false] at hmem
        cases hmem with
        | inl heq =>
          subst heq
          cases he
          exact absurd hsubstantive (by decide +kernel)
        | inr heq =>
          subst heq
          exact (Option.some.inj he).symm)
    exact absurd hstored (by decide +kernel)

end Runs

end HyperFileLens.Node
