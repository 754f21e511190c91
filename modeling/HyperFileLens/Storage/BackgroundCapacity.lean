import HyperFileLens.Library.ExpiringSets
import HyperFileLens.Library.Transition

/-!
# Capacity of background storage work

Workers that do storage work in the background take a lease first. The tokens of the leases of
a capacity key are a sorted set in Redis, scored with the second at which each one ends. A
worker refreshes its lease from a thread and counts the lease as valid until that thread finds
it lost.

*The thread.*  It sleeps, refreshes, and sleeps again. A refresh that fails is tried again, for
as long as the lease is confirmed: that is 118 s from the start of the last refresh that Redis
confirmed. A call to Redis that fails takes up to the timeouts of the client.

*The slot.*  It is taken away 120 s after the second in which Redis ran the last refresh, by the
next acquire.

Times are in milliseconds.
-/

namespace HyperFileLens.Storage

open ExpiringSets Transition

namespace BackgroundCapacity

def leaseSeconds : Nat := 120
def refreshSeconds : Nat := 30
def refreshRetrySeconds : Nat := 5
def localExpirySafetySeconds : Nat := 2

/-- `socket_connect_timeout` and `socket_timeout` of the client. -/
def callSeconds : Nat := 2 + 2

def confirmedFor : Nat := 1000 * (leaseSeconds - localExpirySafetySeconds)

/-! ## The scripts -/

section Scripts

variable {Token : Type} [DecidableEq Token]

/-- Put a token in until a lease from now ends. -/
def prolong (now : Nat) (token : Token) (slots : Scored Token) : Scored Token :=
  (slots.add token (now / 1000 + leaseSeconds)).expire now (leaseSeconds * 2)

def acquireScript (limit now : Nat) (token : Token) (slots : Scored Token) :
    Scored Token × Bool :=
  let slots := (slots.settle now).removeUpTo (now / 1000)
  if limit ≤ slots.members.card then (slots, false) else (prolong now token slots, true)

def refreshScript (now : Nat) (token : Token) (slots : Scored Token) : Scored Token × Bool :=
  let slots := slots.settle now
  if token ∈ slots.members then (prolong now token slots, true) else (slots, false)

end Scripts

/-! ## Leases -/

/-- Where a lease is. A call under way has the answer of its script, once Redis has run it. -/
inductive Phase where
  | acquiring (started : Nat) (answer : Option Bool)
  | created
  | sleeping (wakeAt : Nat)
  | refreshing (started : Nat) (answer : Option Bool)
  /-- The thread is stopped, and the slot not released yet. -/
  | leaving
  | lost
  | released
  /-- Not acquired. -/
  | absent
deriving DecidableEq

structure Lease where
  phase : Phase
  confirmedUntil : Nat
  /-- The second until which Redis keeps the slot. -/
  keptUntil : Nat

/-- `valid`, of a lease that is not released. -/
def Phase.valid : Phase → Bool
  | .created | .sleeping _ | .refreshing _ _ | .leaving => true
  | _ => false

structure State (Token : Type) where
  now : Nat
  slots : Scored Token
  lease : Token → Lease
  tokens : Finset Token

inductive Event (Token : Type) where
  /-- `try_acquire_background_storage_capacity` -/
  | begin (token : Token)
  | runAcquire (token : Token)
  /-- The answer of the script, or an error of the client. -/
  | acquireReturns (token : Token) (ok : Bool)
  | enter (token : Token)
  | wake (token : Token)
  | runRefresh (token : Token)
  | refreshReturns (token : Token) (ok : Bool)
  /-- `__exit__`, up to the release. -/
  | leave (token : Token)
  | runRelease (token : Token)
  | releaseFails (token : Token)
  | wait (ms : Nat)
deriving DecidableEq

/-- How long a refresh that failed is waited for. -/
def retryDelay (confirmedUntil now : Nat) : Nat :=
  min (1000 * refreshRetrySeconds) (max 100 (confirmedUntil - now))

def Phase.limit : Phase → Option Nat
  | .acquiring started _ => some (started + 1000 * callSeconds)
  | .refreshing started _ => some (started + 1000 * callSeconds)
  | .sleeping wakeAt => some wakeAt
  | _ => none

section System

variable {Token : Type} [DecidableEq Token]

def State.put (s : State Token) (token : Token) (lease : Lease) : State Token :=
  { s with lease := Function.update s.lease token lease }

def State.setPhase (s : State Token) (token : Token) (phase : Phase) : State Token :=
  s.put token { s.lease token with phase := phase }

/-- The rest of a round of `_refresh_loop`. -/
def State.refreshed (s : State Token) (token : Token) (started : Nat) :
    Option Bool → State Token
  | some true =>
    s.put token { s.lease token with
      phase := .sleeping (s.now + 1000 * refreshSeconds)
      confirmedUntil := started + confirmedFor }
  | some false => s.setPhase token .lost
  | none =>
    if (s.lease token).confirmedUntil ≤ s.now then s.setPhase token .lost
    else s.setPhase token (.sleeping (s.now + retryDelay (s.lease token).confirmedUntil s.now))

def State.runRefresh (s : State Token) (token : Token) (phase : Bool → Phase) : State Token :=
  let (slots, answer) := refreshScript s.now token s.slots
  { s.put token ⟨phase answer, (s.lease token).confirmedUntil,
      if answer then s.now / 1000 + leaseSeconds else (s.lease token).keptUntil⟩ with
    slots := slots }

def step (capacity : Nat) (s : State Token) : Event Token → Option (State Token)
  | .begin token =>
    if token ∈ s.tokens then none
    else some { s.put token ⟨.acquiring s.now none, 0, 0⟩ with tokens := insert token s.tokens }
  | .runAcquire token =>
    match (s.lease token).phase with
    | .acquiring started none =>
      let (slots, answer) := acquireScript capacity s.now token s.slots
      some { s.put token ⟨.acquiring started (some answer), 0,
        if answer then s.now / 1000 + leaseSeconds else 0⟩ with slots := slots }
    | _ => none
  | .acquireReturns token ok =>
    match (s.lease token).phase with
    | .acquiring started answer =>
      if ok then
        match answer with
        | none => none
        | some true =>
          some (s.put token { s.lease token with
            phase := .created, confirmedUntil := started + confirmedFor })
        | some false => some (s.setPhase token .absent)
      else some (s.setPhase token .absent)
    | _ => none
  | .enter token =>
    match (s.lease token).phase with
    | .created => some (s.setPhase token (.sleeping (s.now + 1000 * refreshSeconds)))
    | _ => none
  | .wake token =>
    match (s.lease token).phase with
    | .sleeping wakeAt =>
      if wakeAt ≤ s.now then some (s.setPhase token (.refreshing s.now none)) else none
    | _ => none
  | .runRefresh token =>
    match (s.lease token).phase with
    | .refreshing started none =>
      some (s.runRefresh token fun answer => .refreshing started (some answer))
    -- a refresh that was under way when the thread was stopped
    | .leaving => some (s.runRefresh token fun _ => .leaving)
    | .released => some (s.runRefresh token fun _ => .released)
    | _ => none
  | .refreshReturns token ok =>
    match (s.lease token).phase with
    | .refreshing started answer =>
      if ok then
        match answer with
        | none => none
        | some answer => some (s.refreshed token started (some answer))
      else some (s.refreshed token started none)
    | _ => none
  | .leave token =>
    match (s.lease token).phase with
    | .created | .sleeping _ | .refreshing _ _ => some (s.setPhase token .leaving)
    | _ => none
  | .runRelease token =>
    match (s.lease token).phase with
    | .leaving | .lost =>
      some { s.setPhase token .released with slots := (s.slots.settle s.now).remove token }
    | _ => none
  | .releaseFails token =>
    match (s.lease token).phase with
    | .leaving => some (s.setPhase token .released)
    | _ => none
  | .wait ms =>
    if ∀ token ∈ s.tokens, ∀ limit ∈ (s.lease token).phase.limit, s.now + ms ≤ limit then
      some { s with now := s.now + ms }
    else none

/-- At most as many leases are valid as the capacity allows. -/
def Within (capacity : Nat) (s : State Token) : Prop :=
  ∀ tokens : Finset Token, (∀ token ∈ tokens, (s.lease token).phase.valid) →
    tokens.card ≤ capacity

def system (Token : Type) [DecidableEq Token] (capacity : Nat) :
    System (State Token) (Event Token) where
  init s := s.slots = Scored.absent ∧ s.tokens = ∅ ∧ s.lease = fun _ => ⟨.absent, 0, 0⟩
  step := step capacity

/-! ## When the safety margin is enough -/

/-- The lease, or a call for one, has a slot. -/
def Phase.holds : Phase → Bool
  | .acquiring _ (some true) => true
  | p => p.valid

def Phase.asleep : Phase → Bool
  | .sleeping _ => true
  | _ => false

/-- A lease is entered so early that it is refreshed before its own view of it ends, and Redis
runs no acquire while a lease that is not asleep has outlived its slot. -/
def Orderly (s : State Token) : Event Token → Prop
  | .enter token => s.now + 1000 * refreshSeconds ≤ (s.lease token).confirmedUntil
  | .runAcquire _ => ∀ token, (s.lease token).phase.holds → ¬ (s.lease token).phase.asleep →
      s.now / 1000 < (s.lease token).keptUntil
  | _ => True

end System

end BackgroundCapacity
end HyperFileLens.Storage
