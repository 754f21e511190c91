import HyperFileLens.Library.Broadcast
import HyperFileLens.Library.Transition

/-!
# The repository session lock

`repositorySessionLock` lets prepared snapshots of one repository session upload together
and lets a policy writer run alone. A reader is admitted when nobody writes and no writer
waits, a writer when nobody reads or writes.

Every section between `mu.Lock` and `mu.Unlock` is one step. A caller that is not admitted
keeps the channel it saw in that section and sleeps outside of the mutex, in a `select` on
its context and the channel. So a caller is a `Phase`, and everything that happens between
two of its steps is a step of another caller. Any number of callers come and go, a context
is cancelled at any time, and a release function is called any number of times. It runs its
section once (`sync.Once`).
-/

namespace HyperFileLens.Engine.SessionLock

open Broadcast (Bell)

structure RepositorySessionLock where
  readers : Int
  writer : Bool
  waitingWriters : Int
  changed : Bell

namespace RepositorySessionLock

/-- `newRepositorySessionLock` -/
def new : RepositorySessionLock where
  readers := 0
  writer := false
  waitingWriters := 0
  changed := .new

section

variable (l : RepositorySessionLock)

def notifyLocked : RepositorySessionLock :=
  { l with changed := l.changed.ring }

/-- The condition under which `acquireRead` returns. -/
def admitsReader : Bool := !l.writer && l.waitingWriters == 0

/-- The condition under which `acquireWrite` returns. -/
def admitsWriter : Bool := !l.writer && l.readers == 0

/-- The release function of a reader, the first time it is called. -/
def releaseRead : RepositorySessionLock :=
  { l with readers := l.readers - 1 }.notifyLocked

/-- The release function of a writer, the first time it is called. -/
def releaseWrite : RepositorySessionLock :=
  { l with writer := false }.notifyLocked

/-- The deferred function of an `acquireWrite` that was not admitted. -/
def withdraw : RepositorySessionLock :=
  { l with waitingWriters := l.waitingWriters - 1 }.notifyLocked

end

end RepositorySessionLock

/-- Where a caller is in the code of the lock. -/
inductive Phase where
  | readLoop
  /-- In the `select` of `acquireRead`, with the channel it saw. -/
  | readSleeps (changed : Nat)
  /-- `acquireRead` has returned the release function, which was `called` or not. -/
  | reads (called : Bool)
  | writeStarts
  | writeLoop
  /-- In the `select` of `acquireWrite`, with the channel it saw. -/
  | writeSleeps (changed : Nat)
  /-- `acquireWrite` is about to run its deferred function. -/
  | writeUnwinds
  /-- `acquireWrite` has returned the release function, which was `called` or not. -/
  | writes (called : Bool)
  /-- The caller got the error of its context. -/
  | failed
  deriving DecidableEq

/-- A caller and whether its context is cancelled. -/
structure Caller where
  cancelled : Bool
  phase : Phase
  deriving DecidableEq

structure State where
  lock : RepositorySessionLock
  callers : List Caller

inductive Event where
  | acquireRead (cancelled : Bool)
  | acquireWrite (cancelled : Bool)
  | cancel (i : Nat)
  /-- A caller runs its next section. -/
  | turn (i : Nat)
  /-- The `select` of a caller takes the channel. -/
  | wake (i : Nat)
  /-- The `select` of a caller takes the context. -/
  | giveUp (i : Nat)
  | release (i : Nat)

def runSection (l : RepositorySessionLock) : Phase → Option (RepositorySessionLock × Phase)
  | .readLoop =>
    if l.admitsReader then some ({ l with readers := l.readers + 1 }, .reads false)
    else some (l, .readSleeps l.changed.changed)
  | .writeStarts => some ({ l with waitingWriters := l.waitingWriters + 1 }, .writeLoop)
  | .writeLoop =>
    if l.admitsWriter then
      some ({ l with waitingWriters := l.waitingWriters - 1, writer := true }, .writes false)
    else some (l, .writeSleeps l.changed.changed)
  | .writeUnwinds => some (l.withdraw, .failed)
  | _ => none

/-- The branch `<-changed` of a `select`. -/
def runWake (l : RepositorySessionLock) : Phase → Option (RepositorySessionLock × Phase)
  | .readSleeps c => if l.changed.Closed c then some (l, .readLoop) else none
  | .writeSleeps c => if l.changed.Closed c then some (l, .writeLoop) else none
  | _ => none

/-- The branch `<-ctx.Done()` of a `select`. -/
def runGiveUp (l : RepositorySessionLock) : Phase → Option (RepositorySessionLock × Phase)
  | .readSleeps _ => some (l, .failed)
  | .writeSleeps _ => some (l, .writeUnwinds)
  | _ => none

def runRelease (l : RepositorySessionLock) : Phase → Option (RepositorySessionLock × Phase)
  | .reads false => some (l.releaseRead, .reads true)
  | .writes false => some (l.releaseWrite, .writes true)
  | .reads true => some (l, .reads true)
  | .writes true => some (l, .writes true)
  | _ => none

def State.move (s : State) (i : Nat) (caller : Caller)
    (result : Option (RepositorySessionLock × Phase)) : Option State :=
  result.map fun r => ⟨r.1, s.callers.set i { caller with phase := r.2 }⟩

def step (s : State) : Event → Option State
  | .acquireRead cancelled => some { s with callers := s.callers ++ [⟨cancelled, .readLoop⟩] }
  | .acquireWrite cancelled => some { s with callers := s.callers ++ [⟨cancelled, .writeStarts⟩] }
  | .cancel i => do
      let caller ← s.callers[i]?
      some { s with callers := s.callers.set i { caller with cancelled := true } }
  | .turn i => do
      let caller ← s.callers[i]?
      s.move i caller (runSection s.lock caller.phase)
  | .wake i => do
      let caller ← s.callers[i]?
      s.move i caller (runWake s.lock caller.phase)
  | .giveUp i => do
      let caller ← s.callers[i]?
      if caller.cancelled then s.move i caller (runGiveUp s.lock caller.phase) else none
  | .release i => do
      let caller ← s.callers[i]?
      s.move i caller (runRelease s.lock caller.phase)

def system : Transition.System State Event where
  init s := s = ⟨.new, []⟩
  step := step

end HyperFileLens.Engine.SessionLock
