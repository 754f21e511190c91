import Mathlib.Data.Char
import Mathlib.Data.List.Lex
import Mathlib.Data.List.Sort
import HyperFileLens.Library.FilePath
import HyperFileLens.Library.Transition

/-!
# NAS leases

The lease registry of `nas_lease.go` with the calls of `acquire` and of the release
functions it returns.

*Entries.*  Entries are known by numbers, as Go knows them by pointers, and
`entries` maps a path to the number of its entry. A waiter is known by the call
that made it, which has one waiter at a time; `granted` of the call is that of its
waiter, whose channel is closed when it is granted.

*Steps.*  A step is a critical section of one mutex or what a call does between
two of them, so the steps of the calls can be in any order. In `select` the
environment chooses the case, and it cancels the contexts.
-/

namespace HyperFileLens.Nas

open FilePath Transition

/-- A path of the registry. Texts are ordered as their UTF-8 encodings. -/
abbrev LeasePath := List Char

/-! ## Entries -/

structure NasLeaseWaiter where
  call : Nat
  exclusive : Bool
deriving DecidableEq

structure NasLeaseEntry where
  readers : Int := 0
  writer : Bool := false
  waiters : List NasLeaseWaiter := []
  refs : Int := 0
deriving DecidableEq

namespace NasLeaseEntry

def canAcquireImmediately (e : NasLeaseEntry) (exclusive : Bool) : Bool :=
  if e.writer || !e.waiters.isEmpty then false
  else !exclusive || e.readers = 0

/-- `grant`, but for the waiter. -/
def grant (e : NasLeaseEntry) (waiter : NasLeaseWaiter) : NasLeaseEntry :=
  if waiter.exclusive then { e with writer := true }
  else { e with readers := e.readers + 1 }

/-- The loop of `grantWaiters`, for the waiters that are left. It returns those it
grants. -/
def grantShared (e : NasLeaseEntry) :
    List NasLeaseWaiter → NasLeaseEntry × List NasLeaseWaiter
  | [] => ({ e with waiters := [] }, [])
  | waiter :: rest =>
    if waiter.exclusive then ({ e with waiters := waiter :: rest }, [])
    else
      let r := grantShared (e.grant waiter) rest
      (r.1, waiter :: r.2)

/-- `grantWaiters`. It returns the waiters it grants. -/
def grantWaiters (e : NasLeaseEntry) : NasLeaseEntry × List NasLeaseWaiter :=
  if e.writer then (e, [])
  else
    match e.waiters with
    | [] => (e, [])
    | waiter :: rest =>
      if waiter.exclusive then
        if e.readers ≠ 0 then (e, [])
        else ({ e with waiters := rest }.grant waiter, [waiter])
      else e.grantShared (waiter :: rest)

def releaseGranted (e : NasLeaseEntry) (exclusive : Bool) :
    NasLeaseEntry × List NasLeaseWaiter :=
  grantWaiters (if exclusive then { e with writer := false } else { e with readers := e.readers - 1 })

/-- `acquire`, in its first critical section. -/
def enqueue (e : NasLeaseEntry) (waiter : NasLeaseWaiter) :
    NasLeaseEntry × List NasLeaseWaiter :=
  if e.canAcquireImmediately waiter.exclusive then (e.grant waiter, [waiter])
  else ({ e with waiters := e.waiters ++ [waiter] }, [])

/-- `acquire`, when the context is done and the waiter is not granted. -/
def abandon (e : NasLeaseEntry) (waiter : NasLeaseWaiter) :
    NasLeaseEntry × List NasLeaseWaiter :=
  grantWaiters { e with waiters := e.waiters.erase waiter }

end NasLeaseEntry

def normalizedLeasePaths (paths : List (List Char)) : List LeasePath :=
  let result := paths.foldl (fun result raw =>
    let path := cleanText (Text.trimSpace raw)
    if path = [] ∨ path = ['.'] then result
    else if path ∈ result then result
    else result ++ [path]) []
  result.insertionSort (· ≤ ·)

/-! ## Calls -/

/-- Where a call is. The number is an index of its leases. -/
inductive Pc where
  /-- Before the first check of the context. -/
  | started
  /-- In the critical section of `acquire`. -/
  | registering
  | checking (index : Nat)
  /-- Before the critical section of `entry.acquire`. -/
  | locking (index : Nat)
  | selecting (index : Nat)
  /-- Before the critical section after `ctx.Done()`. -/
  | canceling (index : Nat)
  /-- `acquire` has returned its release function. -/
  | holding
  /-- The leases before the index are to be released, the last one first, in the
  release function or after an error. -/
  | releasing (index : Nat)
  | returned
deriving DecidableEq

/-- A call of `acquire`. -/
structure Call where
  paths : List (List Char)
  exclusive : Bool
  /-- The context is done. -/
  canceled : Bool := false
  leases : List (LeasePath × Nat) := []
  granted : Bool := false
  pc : Pc := .started
deriving DecidableEq

/-- `nasLeaseRegistry`, with its calls. -/
structure Registry where
  entries : LeasePath → Option Nat
  entry : Nat → NasLeaseEntry
  call : Nat → Option Call
  nextEntry : Nat
  nextCall : Nat

namespace Registry

/-- `newNASLeaseRegistry`. -/
def new : Registry where
  entries := fun _ => none
  entry := fun _ => {}
  call := fun _ => none
  nextEntry := 0
  nextCall := 0

def setEntry (s : Registry) (i : Nat) (e : NasLeaseEntry) : Registry :=
  { s with entry := Function.update s.entry i e }

def setCall (s : Registry) (c : Nat) (x : Call) : Registry :=
  { s with call := Function.update s.call c (some x) }

def close (s : Registry) (granted : List NasLeaseWaiter) : Registry :=
  { s with call := fun c => (s.call c).map fun x =>
      if c ∈ granted.map (·.call) then { x with granted := true } else x }

/-- The end of a critical section of an entry. -/
def settle (s : Registry) (i : Nat) (r : NasLeaseEntry × List NasLeaseWaiter) : Registry :=
  (s.setEntry i r.1).close r.2

def findEntry (s : Registry) (path : LeasePath) : Registry × Nat :=
  match s.entries path with
  | some i => (s, i)
  | none =>
    let s' := { s with
      entries := Function.update s.entries path (some s.nextEntry)
      nextEntry := s.nextEntry + 1 }
    (s'.setEntry s.nextEntry {}, s.nextEntry)

/-- One round of the loop of `acquire` that finds the entries. -/
def registerPath (c : Nat) (x : Call) (s : Registry) (path : LeasePath) : Registry × Call :=
  let r := s.findEntry path
  let x' := { x with leases := x.leases ++ [(path, r.2)] }
  let e := r.1.entry r.2
  ((r.1.setEntry r.2 { e with refs := e.refs + 1 }).setCall c x', x')

/-- The critical section of `acquire`. -/
def registerPaths (c : Nat) (x : Call) (s : Registry) : List LeasePath → Registry
  | [] => s.setCall c { x with pc := if x.leases = [] then .holding else .checking 0 }
  | path :: rest =>
    let r := registerPath c x s path
    registerPaths c r.2 r.1 rest

/-- One round of the loop of `releaseEntries`. -/
def releaseEntry (s : Registry) (path : LeasePath) (i : Nat) : Registry :=
  let e := s.entry i
  let s' := s.setEntry i { e with refs := e.refs - 1 }
  if e.refs - 1 = 0 ∧ s'.entries path = some i then
    { s' with entries := Function.update s'.entries path none }
  else s'

def releaseEntries (c : Nat) (x : Call) (s : Registry) : List (LeasePath × Nat) → Registry
  | [] => s.setCall c { x with leases := [], pc := .returned }
  | lease :: rest =>
    releaseEntries c x ((s.releaseEntry lease.1 lease.2).setCall c { x with leases := rest }) rest

def waiter (c : Nat) (x : Call) : NasLeaseWaiter := ⟨c, x.exclusive⟩

/-- What a call does next, but for `select` and the release function. -/
def advance (s : Registry) (c : Nat) (x : Call) : Option Registry :=
  match x.pc with
  | .started =>
    if x.canceled then some (s.setCall c { x with pc := .returned })
    else
      let x' := { x with pc := .registering }
      some (registerPaths c x' (s.setCall c x') (normalizedLeasePaths x.paths))
  | .registering => none
  | .checking index =>
    some (s.setCall c { x with pc := if x.canceled then .releasing index else .locking index })
  | .locking index =>
    match x.leases[index]? with
    | none => none
    | some (_, i) =>
      some ((s.setCall c { x with granted := false, pc := .selecting index }).settle i
        ((s.entry i).enqueue (waiter c x)))
  | .selecting _ => none
  | .canceling index =>
    match x.leases[index]? with
    | none => none
    | some (_, i) =>
      some ((s.setCall c { x with granted := false, pc := .releasing index }).settle i
        (if x.granted then (s.entry i).releaseGranted x.exclusive
          else (s.entry i).abandon (waiter c x)))
  | .holding => none
  | .releasing 0 => some (releaseEntries c x s x.leases)
  | .releasing (index + 1) =>
    match x.leases[index]? with
    | none => none
    | some (_, i) =>
      some ((s.setCall c { x with pc := .releasing index }).settle i
        ((s.entry i).releaseGranted x.exclusive))
  | .returned => none

/-- The case of `select` for a granted waiter. -/
def selectReady (s : Registry) (c : Nat) (x : Call) : Option Registry :=
  match x.pc with
  | .selecting index =>
    if x.granted then
      some (s.setCall c { x with
        pc := if index + 1 < x.leases.length then .checking (index + 1) else .holding })
    else none
  | _ => none

/-- The case of `select` for `ctx.Done()`. -/
def selectDone (s : Registry) (c : Nat) (x : Call) : Option Registry :=
  match x.pc with
  | .selecting index =>
    if x.canceled then some (s.setCall c { x with pc := .canceling index }) else none
  | _ => none

def release (s : Registry) (c : Nat) (x : Call) : Option Registry :=
  if x.pc = .holding then some (s.setCall c { x with pc := .releasing x.leases.length }) else none

end Registry

/-! ## Runs -/

inductive LeaseEvent where
  | acquire (paths : List (List Char)) (exclusive : Bool)
  | cancel (c : Nat)
  | advance (c : Nat)
  | selectReady (c : Nat)
  | selectDone (c : Nat)
  | release (c : Nat)

def leaseStep (s : Registry) : LeaseEvent → Option Registry
  | .acquire paths exclusive =>
    some { s.setCall s.nextCall { paths := paths, exclusive := exclusive } with
      nextCall := s.nextCall + 1 }
  | .cancel c => (s.call c).map fun x => s.setCall c { x with canceled := true }
  | .advance c => (s.call c).bind fun x => s.advance c x
  | .selectReady c => (s.call c).bind fun x => s.selectReady c x
  | .selectDone c => (s.call c).bind fun x => s.selectDone c x
  | .release c => (s.call c).bind fun x => s.release c x

def leaseSystem : System Registry LeaseEvent where
  init := fun s => s = .new
  step := leaseStep

end HyperFileLens.Nas
