import HyperFileLens.Library.Transition

/-!
# Reference-counted locks of keys

Two registries of locks, one lock a key. `managedBackupPathLocks` keeps one backup of a
path at a time. Its entry is a channel with one token, and a caller that waits for the
token gives up when its context is cancelled. `repositoryServerSessionLocks` keeps one
operation on a repository server session at a time. Its entry is a mutex, and nobody gives
up. A token in the channel is here a mutex that is free.

Looking up or making the entry is one section under the mutex of the registry, and dropping
a reference is another. Taking the token and giving it back happen outside of them, so
every caller goes through the phases one step at a time while the others do theirs. The two
registries differ in the condition under which they delete the entry.
-/

namespace HyperFileLens.Engine.KeyedLocks

/-- `managedBackupPathLockEntry`, `repositoryServerSessionLock` -/
structure Entry where
  token : Bool
  refs : Int
  deriving DecidableEq

/-- `managedBackupPathLockRegistry`, `repositoryServerSessionLocks` -/
structure Registry (κ : Type) where
  entries : κ → Option Nat
  /-- All entries that were ever made. -/
  heap : List Entry

inductive Variant where
  | backupPath
  | serverSession
  deriving DecidableEq

namespace Registry

variable {κ : Type}

/-- `newManagedBackupPathLockRegistry` -/
def new : Registry κ := ⟨fun _ => none, []⟩

variable [DecidableEq κ]

/-- The first section of `acquire`: look the entry up or make it, and count the caller. -/
def lookUp (r : Registry κ) (key : κ) : Option (Registry κ × Nat) := do
  match r.entries key with
  | none =>
    some (⟨Function.update r.entries key (some r.heap.length), r.heap ++ [⟨true, 1⟩]⟩,
      r.heap.length)
  | some e =>
    let entry ← r.heap[e]?
    some ({ r with heap := r.heap.set e { entry with refs := entry.refs + 1 } }, e)

omit [DecidableEq κ] in
def take (r : Registry κ) (e : Nat) : Option (Registry κ) := do
  let entry ← r.heap[e]?
  if entry.token then some { r with heap := r.heap.set e { entry with token := false } }
  else none

omit [DecidableEq κ] in
/-- Give the token back. There is room for one token. -/
def giveBack (r : Registry κ) (e : Nat) : Option (Registry κ) := do
  let entry ← r.heap[e]?
  if entry.token then none
  else some { r with heap := r.heap.set e { entry with token := true } }

/-- The condition under which a reference that was dropped deletes the entry of its key. The
backup path locks look whether the key still has this entry. -/
def deletes (r : Registry κ) (key : κ) (e : Nat) : Variant → Bool
  | .backupPath => r.entries key == some e
  | .serverSession => true

/-- `dropReference`, and the last section of a release function. -/
def dropReference (variant : Variant) (r : Registry κ) (key : κ) (e : Nat) :
    Option (Registry κ) := do
  let entry ← r.heap[e]?
  let refs := entry.refs - 1
  let heap := r.heap.set e { entry with refs }
  if refs == 0 && r.deletes key e variant then
    some ⟨Function.update r.entries key none, heap⟩
  else some { r with heap }

end Registry

inductive Phase where
  /-- `acquire` was called. -/
  | starts
  | waits (e : Nat)
  /-- It has the token and the release function, which was not called yet. -/
  | holds (e : Nat)
  | gaveBack (e : Nat)
  /-- `acquire` saw that the context is cancelled. -/
  | gaveUp (e : Nat)
  | released
  /-- `acquire` returned the error of the context. -/
  | failed
  deriving DecidableEq

structure Caller (κ : Type) where
  key : κ
  cancelled : Bool
  phase : Phase
  deriving DecidableEq

structure State (κ : Type) where
  registry : Registry κ
  callers : List (Caller κ)

inductive Event (κ : Type) where
  | acquire (key : κ) (cancelled : Bool)
  | cancel (i : Nat)
  /-- A caller runs its next section, or takes the token. -/
  | turn (i : Nat)
  /-- A waiting caller takes the branch of its context. -/
  | giveUp (i : Nat)
  | release (i : Nat)

section Steps

variable {κ : Type} [DecidableEq κ] (variant : Variant)

/-- The next step of a caller with a key. -/
def runTurn (r : Registry κ) (key : κ) : Phase → Option (Registry κ × Phase)
  | .starts => (r.lookUp key).map fun found => (found.1, .waits found.2)
  | .waits e => (r.take e).map fun r => (r, .holds e)
  | .gaveBack e => (r.dropReference variant key e).map fun r => (r, .released)
  | .gaveUp e => (r.dropReference variant key e).map fun r => (r, .failed)
  | .holds _ | .released | .failed => none

/-- The branch `<-ctx.Done()`, which only the backup path locks have. -/
def runGiveUp (r : Registry κ) : Phase → Option (Registry κ × Phase)
  | .waits e => if variant = .backupPath then some (r, .gaveUp e) else none
  | _ => none

/-- A call of a release function. A second call does nothing (`sync.Once`). -/
def runRelease (r : Registry κ) : Phase → Option (Registry κ × Phase)
  | .holds e => (r.giveBack e).map fun r => (r, .gaveBack e)
  | .gaveBack e => some (r, .gaveBack e)
  | .released => some (r, .released)
  | _ => none

omit [DecidableEq κ] in
def State.move (s : State κ) (i : Nat) (caller : Caller κ)
    (result : Option (Registry κ × Phase)) : Option (State κ) :=
  result.map fun r => ⟨r.1, s.callers.set i { caller with phase := r.2 }⟩

def step (s : State κ) : Event κ → Option (State κ)
  | .acquire key cancelled => some { s with callers := s.callers ++ [⟨key, cancelled, .starts⟩] }
  | .cancel i => do
      let caller ← s.callers[i]?
      some { s with callers := s.callers.set i { caller with cancelled := true } }
  | .turn i => do
      let caller ← s.callers[i]?
      s.move i caller (runTurn variant s.registry caller.key caller.phase)
  | .giveUp i => do
      let caller ← s.callers[i]?
      if caller.cancelled then s.move i caller (runGiveUp variant s.registry caller.phase)
      else none
  | .release i => do
      let caller ← s.callers[i]?
      s.move i caller (runRelease s.registry caller.phase)

def system : Transition.System (State κ) (Event κ) where
  init s := s = ⟨.new, []⟩
  step := step variant

end Steps

end HyperFileLens.Engine.KeyedLocks
