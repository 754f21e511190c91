import Mathlib.Data.List.Sort
import Mathlib.Data.Prod.Lex
import HyperFileLens.Library.Table
import HyperFileLens.Library.Transition

/-!
# Chat preparation on Data Gateways

The tables of `gateway_chat_queue.py` and its transactions: admission of a Chat, the
acquisition and release of a slot, and a change of the settings of a Gateway.

*Transactions.*  Admission, acquisition and settings lock the row of the Gateway, so
they run one at a time. A transaction that raises changes nothing.

*Sessions.*  What the life cycle of a Chat does to its row between two transactions is
an argument (`ChatEvent.change`), generations included.
-/

namespace HyperFileLens.Lens

open Transition

/-! ## Rows -/

inductive LifecycleStatus where
  | provisioning
  | ready
  | failed
  | deleting
  | deleted
deriving DecidableEq, Repr

inductive CleanupStatus where
  | none
  | pending
  | running
  | blocked
  | complete
deriving DecidableEq, Repr

inductive CapacityReservationStatus where
  | pending
  | reserved
  | released
deriving DecidableEq, Repr

/-- `prepare_slot_release_barrier` of the teardown state. The generation is missing
where `int` raises. -/
structure ReleaseBarrier where
  status : String
  sessionGeneration : Option Int
deriving DecidableEq

/-- `LensSessionLink`. -/
structure SessionLink where
  id : Nat
  gatewayLink : Option Nat
  lifecycleStatus : LifecycleStatus := .provisioning
  cleanupStatus : CleanupStatus := .none
  capacityReservationStatus : CapacityReservationStatus := .pending
  provisionGeneration : Nat := 1
  gatewayQueueEnteredAt : Option Int := none
  createdAt : Int
  prepareSlotReleaseBarrier : Option ReleaseBarrier := none
  isDeleted : Bool := false
deriving DecidableEq

/-- `LensGatewayChatSlot`. -/
structure ChatSlot where
  gatewayLink : Nat
  slotNumber : Nat
  sessionLink : Nat
  sessionGeneration : Nat
deriving DecidableEq

/-- `LensGatewayLink`. -/
structure GatewayLink where
  id : Nat
  chatPrepareConcurrency : Nat := 1
  chatQueueCapacity : Nat := 20
deriving DecidableEq

structure ChatQueue where
  gateways : List GatewayLink := []
  sessions : List SessionLink := []
  slots : List ChatSlot := []
deriving DecidableEq

/-! ## Queue order and occupancy -/

def SessionLink.queueOrderAt (s : SessionLink) : Int :=
  s.gatewayQueueEnteredAt.getD s.createdAt

def SessionLink.queueKey (s : SessionLink) : ℤ ×ₗ ℕ := toLex (s.queueOrderAt, s.id)

def SessionLink.notAfter (s t : SessionLink) : Prop := s.queueKey ≤ t.queueKey

instance : DecidableRel SessionLink.notAfter := fun s t =>
  inferInstanceAs (Decidable (s.queueKey ≤ t.queueKey))

instance : Std.Total SessionLink.notAfter := ⟨fun s t => le_total s.queueKey t.queueKey⟩

instance : IsTrans SessionLink SessionLink.notAfter := ⟨fun _ _ _ hst htu => hst.trans htu⟩

def ChatQueue.hasSlot (q : ChatQueue) (sessionId : Nat) : Bool :=
  q.slots.any fun slot => slot.sessionLink = sessionId

def ChatQueue.slotsOf (q : ChatQueue) (gatewayId : Nat) : List ChatSlot :=
  q.slots.filter fun slot => slot.gatewayLink = gatewayId

def ChatQueue.admittedSessionsWithoutSlot (q : ChatQueue) (gatewayId : Nat) :
    List SessionLink :=
  q.sessions.filter fun s => !s.isDeleted && s.gatewayLink = some gatewayId &&
    s.lifecycleStatus = .provisioning && !q.hasSlot s.id

def ChatQueue.schedulableSessions (q : ChatQueue) (gatewayId : Nat) : List SessionLink :=
  (q.admittedSessionsWithoutSlot gatewayId).filter fun s =>
    s.capacityReservationStatus = .reserved

def ChatQueue.earlierSessions (q : ChatQueue) (gatewayId : Nat) (session : SessionLink) :
    List SessionLink :=
  (q.schedulableSessions gatewayId).filter fun s => s.queueKey < session.queueKey

def ChatQueue.orderedSchedulableSessions (q : ChatQueue) (gatewayId : Nat) :
    List SessionLink :=
  (q.schedulableSessions gatewayId).insertionSort SessionLink.notAfter

/-- The sessions that are over: `READY`, `DELETED`, or `FAILED` with all cleaned up. -/
def SessionLink.isOver (s : SessionLink) : Bool :=
  s.lifecycleStatus = .ready || s.lifecycleStatus = .deleted ||
    (s.lifecycleStatus = .failed && s.cleanupStatus = .complete)

def ChatQueue.sessionOf (q : ChatQueue) (slot : ChatSlot) : Option SessionLink :=
  Table.find SessionLink.id q.sessions slot.sessionLink

/-- `active_chat_prepare_count`: the slots of `_occupied_slots`. -/
def ChatQueue.activeChatPrepareCount (q : ChatQueue) (gatewayId : Nat) : Nat :=
  (q.slotsOf gatewayId).countP fun slot => !(q.sessionOf slot).any SessionLink.isOver

def ChatQueue.chatQueuePosition (q : ChatQueue) (session : SessionLink) : Nat :=
  match session.gatewayLink with
  | none => 0
  | some gatewayId =>
    if session.lifecycleStatus ≠ .provisioning ∨
        session.capacityReservationStatus ≠ .reserved ∨ q.hasSlot session.id = true then 0
    else (q.earlierSessions gatewayId session).length + 1

/-! ## Cleanup of slots -/

def SessionLink.barrierReleases (s : SessionLink) (slot : ChatSlot) : Bool :=
  (s.lifecycleStatus = .deleting || s.lifecycleStatus = .failed) &&
    s.prepareSlotReleaseBarrier.any fun barrier =>
      barrier.status = "satisfied" &&
        barrier.sessionGeneration = some (slot.sessionGeneration : Int)

section

variable (q : ChatQueue)

/-- The life cycle of its session has finished with a slot. -/
def ChatQueue.isReleasable (slot : ChatSlot) : Bool :=
  (q.sessionOf slot).any fun s => s.isOver || s.barrierReleases slot

def ChatQueue.cleanupReleasableSlots (gatewayId : Nat) : ChatQueue :=
  { q with
    slots := q.slots.filter fun slot =>
      !(decide (slot.gatewayLink = gatewayId) && q.isReleasable slot) }

/-! ## Admission -/

inductive ChatError where
  | queueFull (gatewayId active pendingWithoutSlot : Nat)
  | slotConflict (sessionId slotGeneration sessionGeneration : Nat)
  | value (message : String)
  | doesNotExist
  | stopIteration
deriving DecidableEq

def ChatQueue.assertChatQueueAdmission (gatewayId : Nat) :
    Except ChatError ChatQueue :=
  match Table.find GatewayLink.id q.gateways gatewayId with
  | none => .error .doesNotExist
  | some gateway =>
    let q := q.cleanupReleasableSlots gatewayId
    let active := q.activeChatPrepareCount gatewayId
    let freeSlots := gateway.chatPrepareConcurrency - active
    let pendingWithoutSlot := (q.admittedSessionsWithoutSlot gatewayId).length
    if gateway.chatQueueCapacity < pendingWithoutSlot + 1 - freeSlots then
      .error (.queueFull gatewayId active pendingWithoutSlot)
    else .ok q

def ChatQueue.createChat (gatewayId : Nat) (id : Nat) (now : Int) :
    Except ChatError ChatQueue :=
  match q.assertChatQueueAdmission gatewayId with
  | .error error => .error error
  | .ok q => .ok { q with
      sessions := q.sessions ++ [{
        id := id, gatewayLink := some gatewayId, gatewayQueueEnteredAt := some now,
        createdAt := now }] }

/-- `retry_copilot_chat_provision` where it asks for admission. The Gateway is the one of
the session or else of its binding, and a Chat without workspace reserves its capacity
again. -/
def ChatQueue.retryChat (id : Nat) (binding : Option Nat) (workspace : Bool)
    (now : Int) : Except ChatError ChatQueue :=
  match Table.find SessionLink.id q.sessions id with
  | none => .error .doesNotExist
  | some session =>
    if session.isDeleted then .error .doesNotExist
    else if session.lifecycleStatus ≠ .provisioning ∧ session.lifecycleStatus ≠ .failed then
      .error (.value "Session is not retryable.")
    else if session.cleanupStatus ≠ .none ∧ session.cleanupStatus ≠ .complete then
      .error (.value "Chat recovery must finish before preparation can be retried.")
    else
      match session.gatewayLink.or binding with
      | none => .error .doesNotExist
      | some gatewayId =>
        match q.assertChatQueueAdmission gatewayId with
        | .error error => .error error
        | .ok q =>
          let session := { session with
            gatewayLink := some gatewayId, lifecycleStatus := .provisioning,
            gatewayQueueEnteredAt := some now,
            provisionGeneration := session.provisionGeneration + 1,
            cleanupStatus := .none, prepareSlotReleaseBarrier := none,
            capacityReservationStatus :=
              if workspace then session.capacityReservationStatus else .pending }
          .ok { q with sessions := Table.put SessionLink.id q.sessions session }

/-! ## Slots -/

structure ChatSlotResult where
  acquired : Bool
  position : Nat
  retryAfterSeconds : Nat := 60
deriving DecidableEq

/-- The sessions that may take one of the free slots. -/
def ChatQueue.eligibleSessions (gateway : GatewayLink) : List SessionLink :=
  (q.orderedSchedulableSessions gateway.id).take
    (gateway.chatPrepareConcurrency - (q.slotsOf gateway.id).length)

def ChatQueue.slotNumber? (gateway : GatewayLink) : Option Nat :=
  (List.range' 1 gateway.chatPrepareConcurrency).find? fun number =>
    !((q.slotsOf gateway.id).map ChatSlot.slotNumber).contains number

/-- `try_acquire_chat_prepare_slot` for a session of a Gateway, after the cleanup of its
slots. -/
def ChatQueue.acquireSlot (gateway : GatewayLink) (session : SessionLink) :
    Except ChatError (ChatQueue × ChatSlotResult) :=
  match q.slots.find? fun slot => slot.sessionLink = session.id with
  | some existing =>
    if existing.sessionGeneration ≠ session.provisionGeneration then
      .error (.slotConflict session.id existing.sessionGeneration session.provisionGeneration)
    else .ok (q, ⟨true, 0, 60⟩)
  | none =>
    if gateway.chatPrepareConcurrency - (q.slotsOf gateway.id).length = 0 then
      .ok (q, ⟨false, q.chatQueuePosition session, 60⟩)
    else if session.id ∉ (q.eligibleSessions gateway).map SessionLink.id then
      .ok (q, ⟨false, q.chatQueuePosition session, 60⟩)
    else
      match q.slotNumber? gateway with
      | none => .error .stopIteration
      | some number =>
        let slot := {
          gatewayLink := gateway.id, slotNumber := number, sessionLink := session.id,
          sessionGeneration := session.provisionGeneration }
        .ok ({ q with slots := slot :: q.slots }, ⟨true, 0, 60⟩)

def ChatQueue.tryAcquireChatPrepareSlot (sessionId : Nat)
    (expectedGeneration : Int) : Except ChatError (ChatQueue × ChatSlotResult) :=
  match Table.find SessionLink.id q.sessions sessionId with
  | none => .ok (q, ⟨false, 0, 60⟩)
  | some session =>
    match session.gatewayLink with
    | none => .ok (q, ⟨false, 0, 60⟩)
    | some gatewayId =>
      if session.isDeleted ∨ session.lifecycleStatus ≠ .provisioning ∨
          (session.provisionGeneration : Int) ≠ expectedGeneration then
        .ok (q, ⟨false, 0, 60⟩)
      else
        match Table.find GatewayLink.id q.gateways gatewayId with
        | none => .error .doesNotExist
        | some gateway =>
          (q.cleanupReleasableSlots gatewayId).acquireSlot gateway session

def ChatQueue.releaseChatPrepareSlot (sessionId : Nat)
    (expectedGeneration : Int) : ChatQueue :=
  { q with
    slots := q.slots.filter fun slot =>
      !(decide (slot.sessionLink = sessionId) &&
        decide ((slot.sessionGeneration : Int) = expectedGeneration)) }

end

/-! ## Settings -/

/-- `normalize_chat_workload_settings` of two integers. -/
def normalizeChatWorkloadSettings (concurrency queueCapacity : Int) :
    Except ChatError (Nat × Nat) :=
  if ¬(1 ≤ concurrency ∧ concurrency ≤ 32) then
    .error (.value "chat_prepare_concurrency must be between 1 and 32")
  else if ¬(0 ≤ queueCapacity ∧ queueCapacity ≤ 1000) then
    .error (.value "chat_queue_capacity must be between 0 and 1000")
  else .ok (concurrency.toNat, queueCapacity.toNat)

def ChatQueue.setChatWorkloadSettings (q : ChatQueue) (gatewayId : Nat)
    (concurrency queueCapacity : Int) : Except ChatError ChatQueue :=
  match normalizeChatWorkloadSettings concurrency queueCapacity with
  | .error error => .error error
  | .ok (concurrency, queueCapacity) =>
    if (Table.find GatewayLink.id q.gateways gatewayId).isNone then .error .doesNotExist
    else
      let q := q.cleanupReleasableSlots gatewayId
      .ok { q with
        gateways := Table.put GatewayLink.id q.gateways
          ⟨gatewayId, concurrency, queueCapacity⟩ }

/-! ## The system -/

inductive ChatEvent where
  | create (gatewayId id : Nat) (now : Int)
  | retry (id : Nat) (binding : Option Nat) (workspace : Bool) (now : Int)
  | acquire (sessionId : Nat) (expectedGeneration : Int)
  | release (sessionId : Nat) (expectedGeneration : Int)
  | settings (gatewayId : Nat) (concurrency queueCapacity : Int)
  | change (session : SessionLink)

def chatStep (q : ChatQueue) : ChatEvent → Option ChatQueue
  | .create gatewayId id now =>
    if id ∈ q.sessions.map SessionLink.id then none
    else (q.createChat gatewayId id now).toOption
  | .retry id binding workspace now => (q.retryChat id binding workspace now).toOption
  | .acquire sessionId generation =>
    ((q.tryAcquireChatPrepareSlot sessionId generation).map Prod.fst).toOption
  | .release sessionId generation => some (q.releaseChatPrepareSlot sessionId generation)
  | .settings gatewayId concurrency queueCapacity =>
    (q.setChatWorkloadSettings gatewayId concurrency queueCapacity).toOption
  | .change session => some { q with sessions := Table.put SessionLink.id q.sessions session }

/-- Gateways without slots, and what happens on them. -/
def chatQueues : System ChatQueue ChatEvent where
  init := fun q => q.slots = [] ∧ (q.sessions.map SessionLink.id).Nodup
  step := chatStep

end HyperFileLens.Lens
