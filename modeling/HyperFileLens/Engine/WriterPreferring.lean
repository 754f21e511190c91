import HyperFileLens.Engine.SessionLock
import HyperFileLens.Library.Tickets

/-!
# The session lock prefers writers and loses no wake-up

`Change` says what one caller does to the lock, once for all its sections. The counters
of the lock count the callers in certain phases (`Counted`), and a sleeping caller misses
nothing (`Awake`). A section that does not close the channel changes a counter in the
direction that admits nobody. That is where the counters have to be known not to be
negative.
-/

namespace HyperFileLens.Engine.SessionLock

open Broadcast (Bell Hears)
open RepositorySessionLock

/-! ## Phases -/

/-- The caller was admitted as a reader and has not released the lock. -/
def Phase.isReading : Phase → Bool
  | .reads called => !called
  | _ => false

/-- The caller was admitted as a writer and has not released the lock. -/
def Phase.isWriting : Phase → Bool
  | .writes called => !called
  | _ => false

/-- The caller is a writer that was neither admitted nor has it withdrawn. -/
def Phase.isWaiting : Phase → Bool
  | .writeLoop | .writeSleeps _ | .writeUnwinds => true
  | _ => false

def Phase.Awake (l : RepositorySessionLock) : Phase → Prop
  | .readSleeps c => Hears l.changed c l.admitsReader
  | .writeSleeps c => Hears l.changed c l.admitsWriter
  | _ => True

def State.count (s : State) (p : Phase → Bool) : Nat := s.callers.countP fun c => p c.phase

/-! ## What a caller does -/

inductive Change : RepositorySessionLock → Phase → RepositorySessionLock → Phase → Prop
  | admitReader {l : RepositorySessionLock} (h : l.admitsReader) :
      Change l .readLoop { l with readers := l.readers + 1 } (.reads false)
  | readSleeps {l : RepositorySessionLock} (h : ¬l.admitsReader) :
      Change l .readLoop l (.readSleeps l.changed.changed)
  | enter {l : RepositorySessionLock} :
      Change l .writeStarts { l with waitingWriters := l.waitingWriters + 1 } .writeLoop
  | admitWriter {l : RepositorySessionLock} (h : l.admitsWriter) :
      Change l .writeLoop { l with waitingWriters := l.waitingWriters - 1, writer := true }
        (.writes false)
  | writeSleeps {l : RepositorySessionLock} (h : ¬l.admitsWriter) :
      Change l .writeLoop l (.writeSleeps l.changed.changed)
  | withdraw {l : RepositorySessionLock} : Change l .writeUnwinds l.withdraw .failed
  | readWakes {l : RepositorySessionLock} {c : Nat} : Change l (.readSleeps c) l .readLoop
  | writeWakes {l : RepositorySessionLock} {c : Nat} : Change l (.writeSleeps c) l .writeLoop
  | readFails {l : RepositorySessionLock} {c : Nat} : Change l (.readSleeps c) l .failed
  | writeUnwinds {l : RepositorySessionLock} {c : Nat} :
      Change l (.writeSleeps c) l .writeUnwinds
  | releaseRead {l : RepositorySessionLock} :
      Change l (.reads false) l.releaseRead (.reads true)
  | releaseWrite {l : RepositorySessionLock} :
      Change l (.writes false) l.releaseWrite (.writes true)
  | stays {l : RepositorySessionLock} {p : Phase} : Change l p l p

variable {l l' : RepositorySessionLock} {p p' : Phase} {s s' : State} {i : Nat} {caller : Caller}

theorem change_of_runSection (h : runSection l p = some (l', p')) : Change l p l' p' := by
  cases p with
  | readLoop =>
    by_cases hadmits : l.admitsReader
    · rw [runSection, if_pos hadmits] at h
      cases h
      exact .admitReader hadmits
    · rw [runSection, if_neg hadmits] at h
      cases h
      exact .readSleeps hadmits
  | writeStarts => cases h; exact .enter
  | writeLoop =>
    by_cases hadmits : l.admitsWriter
    · rw [runSection, if_pos hadmits] at h
      cases h
      exact .admitWriter hadmits
    · rw [runSection, if_neg hadmits] at h
      cases h
      exact .writeSleeps hadmits
  | writeUnwinds => cases h; exact .withdraw
  | readSleeps _ => cases h
  | reads _ => cases h
  | writeSleeps _ => cases h
  | writes _ => cases h
  | failed => cases h

theorem change_of_runWake (h : runWake l p = some (l', p')) : Change l p l' p' := by
  cases p with
  | readSleeps c =>
    obtain ⟨-, h⟩ := Option.ite_none_right_eq_some.mp h
    cases h
    exact .readWakes
  | writeSleeps c =>
    obtain ⟨-, h⟩ := Option.ite_none_right_eq_some.mp h
    cases h
    exact .writeWakes
  | readLoop => cases h
  | reads _ => cases h
  | writeStarts => cases h
  | writeLoop => cases h
  | writeUnwinds => cases h
  | writes _ => cases h
  | failed => cases h

theorem change_of_runGiveUp (h : runGiveUp l p = some (l', p')) : Change l p l' p' := by
  cases p with
  | readSleeps c => cases h; exact .readFails
  | writeSleeps c => cases h; exact .writeUnwinds
  | readLoop => cases h
  | reads _ => cases h
  | writeStarts => cases h
  | writeLoop => cases h
  | writeUnwinds => cases h
  | writes _ => cases h
  | failed => cases h

theorem change_of_runRelease (h : runRelease l p = some (l', p')) : Change l p l' p' := by
  cases p with
  | reads called =>
    cases called with
    | false => cases h; exact .releaseRead
    | true => cases h; exact .stays
  | writes called =>
    cases called with
    | false => cases h; exact .releaseWrite
    | true => cases h; exact .stays
  | readLoop => cases h
  | readSleeps _ => cases h
  | writeStarts => cases h
  | writeLoop => cases h
  | writeSleeps _ => cases h
  | writeUnwinds => cases h
  | failed => cases h

/-- What a step is: a caller arrives, or one caller changes. -/
inductive Moves (s : State) : State → Prop
  | arrives (cancelled : Bool) (p : Phase) (hp : p = .readLoop ∨ p = .writeStarts) :
      Moves s { s with callers := s.callers ++ [⟨cancelled, p⟩] }
  | changes {i : Nat} {caller caller' : Caller} {l' : RepositorySessionLock}
      (hi : s.callers[i]? = some caller) (h : Change s.lock caller.phase l' caller'.phase) :
      Moves s ⟨l', s.callers.set i caller'⟩

theorem moves_of_move {result : Option (RepositorySessionLock × Phase)}
    (hi : s.callers[i]? = some caller)
    (hc : ∀ l' p', result = some (l', p') → Change s.lock caller.phase l' p')
    (h : s.move i caller result = some s') : Moves s s' := by
  obtain ⟨⟨l', p'⟩, hr, rfl⟩ := Option.map_eq_some_iff.mp h
  exact .changes hi (hc l' p' hr)

theorem moves_of_step {e : Event} (h : step s e = some s') : Moves s s' := by
  cases e with
  | acquireRead cancelled => cases h; exact .arrives cancelled _ (.inl rfl)
  | acquireWrite cancelled => cases h; exact .arrives cancelled _ (.inr rfl)
  | cancel i =>
    obtain ⟨caller, hi, h⟩ := Option.bind_eq_some_iff.mp h
    cases h
    exact .changes hi .stays
  | turn i =>
    obtain ⟨caller, hi, h⟩ := Option.bind_eq_some_iff.mp h
    exact moves_of_move hi (fun _ _ => change_of_runSection) h
  | wake i =>
    obtain ⟨caller, hi, h⟩ := Option.bind_eq_some_iff.mp h
    exact moves_of_move hi (fun _ _ => change_of_runWake) h
  | giveUp i =>
    obtain ⟨caller, hi, h⟩ := Option.bind_eq_some_iff.mp h
    obtain ⟨-, h⟩ := Option.ite_none_right_eq_some.mp h
    exact moves_of_move hi (fun _ _ => change_of_runGiveUp) h
  | release i =>
    obtain ⟨caller, hi, h⟩ := Option.bind_eq_some_iff.mp h
    exact moves_of_move hi (fun _ _ => change_of_runRelease) h

/-! ## The counters -/

/-- The counters of the lock count its callers. -/
structure Counted (s : State) : Prop where
  readers : s.lock.readers = s.count Phase.isReading
  waitingWriters : s.lock.waitingWriters = s.count Phase.isWaiting
  writer : s.count Phase.isWriting = s.lock.writer.toNat
  /-- Nobody reads while somebody writes. -/
  alone : s.lock.writer → s.lock.readers = 0

theorem count_set (hi : s.callers[i]? = some caller) (l' : RepositorySessionLock) (caller' : Caller)
    (p : Phase → Bool) : State.count ⟨l', s.callers.set i caller'⟩ p + (p caller.phase).toNat =
      s.count p + (p caller'.phase).toNat := by
  have h := Tickets.countP_set hi caller' fun c => p c.phase
  simpa only [State.count, Bool.toNat, Bool.cond_eq_ite] using h

theorem count_append (s : State) (caller : Caller) (p : Phase → Bool) :
    State.count { s with callers := s.callers ++ [caller] } p =
      s.count p + (p caller.phase).toNat := by
  simp [State.count, List.countP_append, List.countP_singleton, Bool.toNat, Bool.cond_eq_ite]

/-- A caller changes the counters of the lock the way it changes its own phase. -/
structure Counts (l : RepositorySessionLock) (p : Phase) (l' : RepositorySessionLock)
    (p' : Phase) : Prop where
  readers : l'.readers + p.isReading.toNat = l.readers + p'.isReading.toNat
  waitingWriters :
    l'.waitingWriters + p.isWaiting.toNat = l.waitingWriters + p'.isWaiting.toNat
  writer : (p.isWriting → l.writer) →
    l'.writer.toNat + p.isWriting.toNat = l.writer.toNat + p'.isWriting.toNat
  alone : (l.writer → l.readers = 0) → (p.isReading → l.readers ≠ 0) →
    l'.writer → l'.readers = 0

theorem Change.counts (h : Change l p l' p') : Counts l p l' p' := by
  cases h with
  | admitReader h =>
    simp only [admitsReader, Bool.and_eq_true, Bool.not_eq_true', beq_iff_eq] at h
    refine ⟨?_, rfl, fun _ => rfl, fun _ _ hw => ?_⟩
    · show l.readers + 1 + 0 = l.readers + 1
      omega
    · rw [h.1] at hw
      cases hw
  | admitWriter h =>
    simp only [admitsWriter, Bool.and_eq_true, Bool.not_eq_true', beq_iff_eq] at h
    refine ⟨rfl, ?_, fun _ => ?_, fun _ _ _ => h.2⟩
    · show l.waitingWriters - 1 + 1 = l.waitingWriters + 0
      omega
    · rw [h.1]
      rfl
  | releaseRead =>
    refine ⟨?_, rfl, fun _ => rfl, fun halone hne hw => ?_⟩
    · show l.readers - 1 + 1 = l.readers + 0
      omega
    · exact (hne rfl (halone hw)).elim
  | releaseWrite =>
    refine ⟨rfl, rfl, fun hw => ?_, fun _ _ hw => by cases hw⟩
    rw [hw rfl]
    rfl
  | withdraw =>
    refine ⟨rfl, ?_, fun _ => rfl, fun halone _ => halone⟩
    show l.waitingWriters - 1 + 1 = l.waitingWriters + 0
    omega
  | enter =>
    refine ⟨rfl, ?_, fun _ => rfl, fun halone _ => halone⟩
    show l.waitingWriters + 1 + 0 = l.waitingWriters + 1
    omega
  | readSleeps _ => exact ⟨rfl, rfl, fun _ => rfl, fun halone _ => halone⟩
  | writeSleeps _ => exact ⟨rfl, rfl, fun _ => rfl, fun halone _ => halone⟩
  | readWakes => exact ⟨rfl, rfl, fun _ => rfl, fun halone _ => halone⟩
  | writeWakes => exact ⟨rfl, rfl, fun _ => rfl, fun halone _ => halone⟩
  | readFails => exact ⟨rfl, rfl, fun _ => rfl, fun halone _ => halone⟩
  | writeUnwinds => exact ⟨rfl, rfl, fun _ => rfl, fun halone _ => halone⟩
  | stays => exact ⟨rfl, rfl, fun _ => rfl, fun halone _ => halone⟩

theorem count_pos (hi : s.callers[i]? = some caller) {p : Phase → Bool} (h : p caller.phase) :
    0 < s.count p :=
  List.countP_pos_iff.mpr ⟨caller, List.mem_of_getElem? hi, h⟩

theorem Counted.moves (hs : Counted s) (h : Moves s s') : Counted s' := by
  cases h with
  | arrives cancelled p hp =>
    have hnone : p.isReading = false ∧ p.isWaiting = false ∧ p.isWriting = false := by
      rcases hp with rfl | rfl <;> exact ⟨rfl, rfl, rfl⟩
    refine ⟨?_, ?_, ?_, hs.alone⟩
    · rw [count_append, hnone.1]
      exact hs.readers
    · rw [count_append, hnone.2.1]
      exact hs.waitingWriters
    · rw [count_append, hnone.2.2]
      exact hs.writer
  | @changes i caller caller' l' hi h =>
    have hcounts := h.counts
    have hr := count_set hi l' caller' Phase.isReading
    have hw := count_set hi l' caller' Phase.isWaiting
    have hx := count_set hi l' caller' Phase.isWriting
    have hwriter := hcounts.writer fun hp => by
      have hpos := count_pos hi hp
      rw [hs.writer] at hpos
      cases hw : s.lock.writer with
      | true => rfl
      | false =>
        rw [hw] at hpos
        exact (Nat.lt_irrefl 0 hpos).elim
    refine ⟨?_, ?_, ?_, hcounts.alone hs.alone fun hp hzero => ?_⟩
    · have := hcounts.readers
      have := hs.readers
      show l'.readers = _
      omega
    · have := hcounts.waitingWriters
      have := hs.waitingWriters
      show l'.waitingWriters = _
      omega
    · have := hs.writer
      show _ = l'.writer.toNat
      omega
    · have hpos := count_pos hi hp
      have := hs.readers
      omega

/-! ## No lost wake-up -/

/-- A change of the lock rings the bell or makes no condition true. -/
def Tells (l l' : RepositorySessionLock) : Prop :=
  l'.changed = l.changed.ring ∨
    l'.changed = l.changed ∧ (l'.admitsReader → l.admitsReader) ∧
      (l'.admitsWriter → l.admitsWriter)

theorem Tells.refl (l : RepositorySessionLock) : Tells l l := .inr ⟨rfl, id, id⟩

theorem Change.tells (h : Change l p l' p') (hr : 0 ≤ l.readers) (hw : 0 ≤ l.waitingWriters) :
    Tells l l' := by
  cases h with
  | admitReader h =>
    refine .inr ⟨rfl, fun _ => h, fun hwriter => ?_⟩
    simp only [admitsWriter, Bool.and_eq_true, beq_iff_eq] at hwriter
    omega
  | enter =>
    refine .inr ⟨rfl, fun hreader => ?_, id⟩
    simp only [admitsReader, Bool.and_eq_true, beq_iff_eq] at hreader
    omega
  | admitWriter h =>
    refine .inr ⟨rfl, fun hreader => ?_, fun _ => h⟩
    cases hreader
  | withdraw => exact .inl rfl
  | releaseRead => exact .inl rfl
  | releaseWrite => exact .inl rfl
  | readSleeps _ => exact .refl l
  | writeSleeps _ => exact .refl l
  | readWakes => exact .refl l
  | writeWakes => exact .refl l
  | readFails => exact .refl l
  | writeUnwinds => exact .refl l
  | stays => exact .refl l

theorem Phase.Awake.tells (h : p.Awake l) (ht : Tells l l') : p.Awake l' := by
  cases p with
  | readSleeps c =>
    rcases ht with hring | ⟨hsame, himp, -⟩
    · show Hears l'.changed c _
      rw [hring]
      exact Hears.ring h
    · show Hears l'.changed c _
      rw [hsame]
      exact Hears.quiet h himp
  | writeSleeps c =>
    rcases ht with hring | ⟨hsame, -, himp⟩
    · show Hears l'.changed c _
      rw [hring]
      exact Hears.ring h
    · show Hears l'.changed c _
      rw [hsame]
      exact Hears.quiet h himp
  | readLoop => trivial
  | reads _ => trivial
  | writeStarts => trivial
  | writeLoop => trivial
  | writeUnwinds => trivial
  | writes _ => trivial
  | failed => trivial

theorem Change.awake (h : Change l p l' p') (hp : p.Awake l) : p'.Awake l' := by
  cases h with
  | readSleeps h => exact Hears.sleep h
  | writeSleeps h => exact Hears.sleep h
  | stays => exact hp
  | admitReader _ => trivial
  | enter => trivial
  | admitWriter _ => trivial
  | withdraw => trivial
  | readWakes => trivial
  | writeWakes => trivial
  | readFails => trivial
  | writeUnwinds => trivial
  | releaseRead => trivial
  | releaseWrite => trivial

/-- The counters are right and no caller misses a wake-up. -/
structure Sound (s : State) : Prop where
  counted : Counted s
  awake : ∀ caller ∈ s.callers, caller.phase.Awake s.lock

theorem Counted.tells (hs : Counted s) (h : Change s.lock p l' p') : Tells s.lock l' := by
  have hr := hs.readers
  have hw := hs.waitingWriters
  exact h.tells (by omega) (by omega)

theorem Sound.moves (hs : Sound s) (h : Moves s s') : Sound s' := by
  refine ⟨hs.counted.moves h, ?_⟩
  cases h with
  | arrives cancelled p hp =>
    intro caller hc
    rcases List.mem_append.mp hc with hc | hc
    · exact hs.awake caller hc
    · cases List.mem_singleton.mp hc
      rcases hp with rfl | rfl <;> trivial
  | @changes i caller caller' l' hi h =>
    intro other ho
    rcases List.mem_or_eq_of_mem_set ho with ho | rfl
    · exact (hs.awake other ho).tells (hs.counted.tells h)
    · exact h.awake (hs.awake caller (List.mem_of_getElem? hi))

theorem sound_start : Sound ⟨.new, []⟩ where
  counted := ⟨rfl, rfl, rfl, fun h => by cases h⟩
  awake := by simp

theorem Sound.of_reachable (h : system.Reachable s) : Sound s :=
  h.invariant (fun _ hinit => hinit ▸ sound_start) fun _ _ _ hs _ hstep =>
    hs.moves (moves_of_step hstep)

/-! ## The lock -/

/-- What the session lock promises in a state. -/
structure WriterPreferring (s : State) : Prop where
  /-- A writer coexists neither with a reader nor with another writer. -/
  alone : 0 < s.count Phase.isWriting →
    s.count Phase.isReading = 0 ∧ s.count Phase.isWriting = 1
  readers : 0 ≤ s.lock.readers ∧ s.lock.readers = s.count Phase.isReading
  waitingWriters : s.lock.waitingWriters = s.count Phase.isWaiting
  /-- No new reader is admitted while a writer waits. -/
  prefers : ∀ e s', step s e = some s' → s.count Phase.isReading < s'.count Phase.isReading →
    s.count Phase.isWaiting = 0
  /-- A reader that sleeps while it could be admitted sleeps on a closed channel. -/
  wakesReader : ∀ caller ∈ s.callers, ∀ c, caller.phase = .readSleeps c →
    s.lock.admitsReader → s.lock.changed.Closed c
  /-- A writer that sleeps while it could be admitted sleeps on a closed channel. -/
  wakesWriter : ∀ caller ∈ s.callers, ∀ c, caller.phase = .writeSleeps c →
    s.lock.admitsWriter → s.lock.changed.Closed c

theorem Change.admits_of_reading (h : Change l p l' p') (hp : p.isReading = false)
    (hp' : p'.isReading) : l.admitsReader := by
  cases h with
  | admitReader h => exact h
  | stays => rw [hp] at hp'; cases hp'
  | readSleeps _ => cases hp'
  | enter => cases hp'
  | admitWriter _ => cases hp'
  | writeSleeps _ => cases hp'
  | withdraw => cases hp'
  | readWakes => cases hp'
  | writeWakes => cases hp'
  | readFails => cases hp'
  | writeUnwinds => cases hp'
  | releaseRead => cases hp'
  | releaseWrite => cases hp'

theorem Moves.admits (h : Moves s s') (hmore : s.count Phase.isReading < s'.count Phase.isReading) :
    s.lock.admitsReader := by
  cases h with
  | arrives cancelled p hp =>
    rw [count_append] at hmore
    rcases hp with rfl | rfl <;> exact (Nat.lt_irrefl _ hmore).elim
  | @changes i caller caller' l' hi h =>
    have hset := count_set hi l' caller' Phase.isReading
    cases hp : caller.phase.isReading with
    | true =>
      have := Bool.toNat_le caller'.phase.isReading
      rw [hp, Bool.toNat_true] at hset
      omega
    | false =>
      cases hp' : caller'.phase.isReading with
      | true => exact h.admits_of_reading hp hp'
      | false =>
        rw [hp, hp'] at hset
        omega

theorem Sound.writerPreferring (hs : Sound s) : WriterPreferring s where
  alone hpos := by
    have hwriter := hs.counted.writer
    have hle := Bool.toNat_le s.lock.writer
    have hreaders := hs.counted.readers
    cases hw : s.lock.writer with
    | true =>
      have := hs.counted.alone hw
      omega
    | false =>
      rw [hw, Bool.toNat_false] at hwriter
      omega
  readers := by
    have := hs.counted.readers
    omega
  waitingWriters := hs.counted.waitingWriters
  prefers e s' hstep hmore := by
    have hadmits := (moves_of_step hstep).admits hmore
    simp only [admitsReader, Bool.and_eq_true, beq_iff_eq] at hadmits
    have := hs.counted.waitingWriters
    omega
  wakesReader caller hc c hsleeps hadmits := by
    have h := hs.awake caller hc
    rw [hsleeps] at h
    exact Hears.told h hadmits
  wakesWriter caller hc c hsleeps hadmits := by
    have h := hs.awake caller hc
    rw [hsleeps] at h
    exact Hears.told h hadmits

/-- The session lock is a writer-preferring reader and writer lock: whatever its callers
do, in any order. -/
theorem session_lock_correct {s : State} (h : system.Reachable s) : WriterPreferring s :=
  (Sound.of_reachable h).writerPreferring

/-! ## Progress -/

/-- Some caller can run its next section, or wake. -/
def State.CanRun (s : State) : Prop := ∃ i, (step s (.turn i)).isSome ∨ (step s (.wake i)).isSome

theorem canRun_of_phase {caller : Caller} (hc : caller ∈ s.callers)
    (h : (runSection s.lock caller.phase).isSome ∨ (runWake s.lock caller.phase).isSome) :
    s.CanRun := by
  obtain ⟨i, hi⟩ := List.getElem?_of_mem hc
  exact ⟨i, h.imp (by simp [step, hi, State.move]) (by simp [step, hi, State.move])⟩

theorem Sound.canRun_of_waiting (hs : Sound s) (hadmits : s.lock.admitsWriter) {caller : Caller}
    (hc : caller ∈ s.callers) (hp : caller.phase.isWaiting) : s.CanRun := by
  refine canRun_of_phase hc ?_
  cases hphase : caller.phase with
  | writeLoop => simp [runSection, hadmits]
  | writeSleeps c =>
    simp [runWake, hs.writerPreferring.wakesWriter caller hc c hphase hadmits]
  | writeUnwinds => exact .inl rfl
  | _ => simp [hphase, Phase.isWaiting] at hp

/-- The lock never gets stuck: while nobody has it, a caller can go on, or all are done. -/
theorem never_stuck {s : State} (h : system.Reachable s) (hreads : s.count Phase.isReading = 0)
    (hwrites : s.count Phase.isWriting = 0) : s.CanRun ∨ ∀ caller ∈ s.callers,
      caller.phase = .failed ∨ caller.phase = .reads true ∨ caller.phase = .writes true := by
  have hs := Sound.of_reachable h
  have hreaders : s.lock.readers = 0 := by simp [hs.counted.readers, hreads]
  have hwriter : s.lock.writer = false := by
    have hcount := hs.counted.writer
    rw [hwrites] at hcount
    simpa using hcount.symm
  refine or_iff_not_imp_left.mpr fun hstuck caller hc => ?_
  have hwaiting : ∀ c ∈ s.callers, c.phase.isWaiting = false := by
    intro c hmem
    by_contra hp
    refine hstuck (hs.canRun_of_waiting ?_ hmem (by simpa using hp))
    simp [admitsWriter, hwriter, hreaders]
  have hphases : ∀ p : Phase → Bool, s.count p = 0 → p caller.phase = false := fun p hp => by
    simpa using List.countP_eq_zero.mp hp caller hc
  have hreading := hphases _ hreads
  have hwriting := hphases _ hwrites
  have hnot := hwaiting caller hc
  cases hphase : caller.phase with
  | readLoop =>
    refine absurd (canRun_of_phase hc (.inl ?_)) hstuck
    rw [hphase, runSection]
    split <;> rfl
  | readSleeps c =>
    -- no writer waits, so the reader is admitted and was told
    have hnone : s.count Phase.isWaiting = 0 := List.countP_eq_zero.mpr (by simpa using hwaiting)
    have hadmits : s.lock.admitsReader := by
      simp [admitsReader, hwriter, hs.counted.waitingWriters, hnone]
    refine absurd (canRun_of_phase hc (.inr ?_)) hstuck
    simp [hphase, runWake, hs.writerPreferring.wakesReader caller hc c hphase hadmits]
  | writeStarts => exact absurd (canRun_of_phase hc (.inl (by rw [hphase]; rfl))) hstuck
  | reads called => simpa [hphase, Phase.isReading] using hreading
  | writes called => simpa [hphase, Phase.isWriting] using hwriting
  | failed => exact .inl rfl
  | _ => simp [hphase, Phase.isWaiting] at hnot

/-- A writer waits for a reader and a second reader waits for the writer. Each is admitted
when the one before it has released the lock. -/
def handover : List Event :=
  [.acquireRead false, .turn 0, .acquireWrite false, .turn 1, .turn 1, .acquireRead true,
    .turn 2, .release 0, .release 0, .wake 1, .turn 1, .release 1, .wake 2, .turn 2]

theorem never_stuck_handover : State.CanRun
    ((system.exec ⟨.new, []⟩ (handover.take 9)).get (by decide)) :=
  (never_stuck (.of_exec rfl (Option.some_get _).symm) (by decide) (by decide)).resolve_right
    (by decide)

theorem handover_runs : (system.exec ⟨.new, []⟩ handover).isSome := rfl

theorem session_lock_correct_handover :
    WriterPreferring ((system.exec ⟨.new, []⟩ handover).get handover_runs) :=
  session_lock_correct (.of_exec rfl (Option.some_get _).symm)

end HyperFileLens.Engine.SessionLock
