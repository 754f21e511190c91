import Mathlib.Data.List.Perm.Subperm
import HyperFileLens.Lens.ChatQueue

/-!
# Chat slots are bounded, fenced and in order

What one transaction does to the slots: a slot is created by an acquisition only, in a
free place, for a session with a place for everyone before it (`Acquired`), and a slot
is dropped by a release of its generation or by the cleanup of a finished life cycle.

*Counts.*  Admission counts the slots of sessions that are not over, acquisition counts
all slots. After the cleanup, which both begin with, the counts agree
(`activeChatPrepareCount_cleanup`).
-/

namespace HyperFileLens.Lens

open Transition

/-! ## Places in a sorted list -/

/-- An element among the first `n` of a sorted list has fewer than `n` elements before
it. -/
theorem length_filter_lt_of_mem_take {α κ : Type*} [LinearOrder κ] {key : α → κ} {n : Nat}
    {xs : List α} {x : α} (hsorted : xs.Pairwise fun a b => key a ≤ key b)
    (hx : x ∈ xs.take n) : (xs.filter fun a => key a < key x).length < n := by
  have hrest : (xs.drop n).filter (fun a => key a < key x) = [] := by
    refine List.filter_eq_nil_iff.mpr fun a ha => ?_
    have hle : key x ≤ key a := by
      rw [← List.take_append_drop n xs] at hsorted
      exact (List.pairwise_append.mp hsorted).2.2 x hx a ha
    simpa using hle
  have hfirst : ((xs.take n).filter fun a => key a < key x).length < (xs.take n).length :=
    List.length_filter_lt_length_iff_exists.mpr ⟨x, hx, by simp⟩
  have hn : (xs.take n).length ≤ n := List.length_take_le n xs
  have hsplit : (xs.filter fun a => key a < key x).length =
      ((xs.take n).filter fun a => key a < key x).length := by
    conv_lhs => rw [← List.take_append_drop n xs, List.filter_append, hrest, List.append_nil]
  omega

/-! ## Cleanup -/

section Cleanup

variable {q q' : ChatQueue} {gatewayId : Nat} {slot : ChatSlot}

theorem slots_cleanup_sublist (q : ChatQueue) (gatewayId : Nat) :
    (q.cleanupReleasableSlots gatewayId).slots.Sublist q.slots :=
  List.filter_sublist

theorem isReleasable_of_cleanup (h : slot ∈ q.slots)
    (h' : slot ∉ (q.cleanupReleasableSlots gatewayId).slots) : q.isReleasable slot = true := by
  by_contra hkept
  exact h' (List.mem_filter.mpr ⟨h, by simp [hkept]⟩)

theorem activeChatPrepareCount_cleanup (q : ChatQueue) (gatewayId : Nat) :
    (q.cleanupReleasableSlots gatewayId).activeChatPrepareCount gatewayId =
      ((q.cleanupReleasableSlots gatewayId).slotsOf gatewayId).length := by
  rw [ChatQueue.activeChatPrepareCount, List.countP_eq_length]
  intro slot hslot
  obtain ⟨hslot, hgateway⟩ := List.mem_filter.mp hslot
  obtain ⟨_, hkept⟩ := List.mem_filter.mp hslot
  have hsession : (q.cleanupReleasableSlots gatewayId).sessionOf slot = q.sessionOf slot := rfl
  rw [hsession]
  simp only [hgateway, Bool.true_and, ChatQueue.isReleasable, Bool.not_eq_true'] at hkept
  cases hfound : q.sessionOf slot with
  | none => rfl
  | some session =>
    rw [hfound, Option.any_some, Bool.or_eq_false_iff] at hkept
    rw [Option.any_some, hkept.1]
    rfl

end Cleanup

/-! ## Admission -/

/-- The sessions that wait: those without a slot, beyond the free slots. -/
def ChatQueue.waitingCount (q : ChatQueue) (gateway : GatewayLink) : Nat :=
  (q.admittedSessionsWithoutSlot gateway.id).length -
    (gateway.chatPrepareConcurrency - (q.slotsOf gateway.id).length)

section Admission

variable {q q' : ChatQueue} {gatewayId : Nat}

theorem assertChatQueueAdmission_ok (h : q.assertChatQueueAdmission gatewayId = .ok q') :
    q' = q.cleanupReleasableSlots gatewayId ∧
      ∃ gateway, Table.find GatewayLink.id q.gateways gatewayId = some gateway ∧
        (q'.admittedSessionsWithoutSlot gatewayId).length + 1 -
          (gateway.chatPrepareConcurrency - (q'.slotsOf gatewayId).length) ≤
            gateway.chatQueueCapacity := by
  rw [ChatQueue.assertChatQueueAdmission] at h
  cases hgateway : Table.find GatewayLink.id q.gateways gatewayId with
  | none => simp [hgateway] at h
  | some gateway =>
    simp only [hgateway] at h
    split at h
    · cases h
    · rename_i hroom
      cases h
      rw [activeChatPrepareCount_cleanup] at hroom
      exact ⟨rfl, gateway, rfl, Nat.le_of_not_lt hroom⟩

theorem waitingCount_le {sessions : List SessionLink}
    (h : q.assertChatQueueAdmission gatewayId = .ok q')
    (hsessions : ∀ p : SessionLink → Bool, sessions.countP p ≤ q'.sessions.countP p + 1)
    {gateway : GatewayLink}
    (hgateway : Table.find GatewayLink.id q.gateways gatewayId = some gateway) :
    ChatQueue.waitingCount { q' with sessions := sessions } gateway ≤
      gateway.chatQueueCapacity := by
  obtain ⟨_, gateway', hgateway', hroom⟩ := assertChatQueueAdmission_ok h
  obtain rfl : gateway' = gateway := Option.some.inj (hgateway'.symm.trans hgateway)
  obtain rfl : gateway'.id = gatewayId := (Table.mem_of_find hgateway).2
  have hmore : (ChatQueue.admittedSessionsWithoutSlot { q' with sessions := sessions }
      gateway'.id).length ≤ (q'.admittedSessionsWithoutSlot gateway'.id).length + 1 := by
    rw [ChatQueue.admittedSessionsWithoutSlot, ChatQueue.admittedSessionsWithoutSlot,
      ← List.countP_eq_length_filter, ← List.countP_eq_length_filter]
    exact hsessions _
  have hslots : (ChatQueue.slotsOf { q' with sessions := sessions } gateway'.id) =
      q'.slotsOf gateway'.id := rfl
  rw [ChatQueue.waitingCount, hslots]
  omega

theorem createChat_ok {id : Nat} {now : Int} (h : q.createChat gatewayId id now = .ok q') :
    ∃ session gateway, session.id = id ∧
      q' = { q.cleanupReleasableSlots gatewayId with sessions := q.sessions ++ [session] } ∧
      Table.find GatewayLink.id q.gateways gatewayId = some gateway ∧
        q'.waitingCount gateway ≤ gateway.chatQueueCapacity := by
  rw [ChatQueue.createChat] at h
  cases hadmitted : q.assertChatQueueAdmission gatewayId with
  | error error => simp [hadmitted] at h
  | ok cleaned =>
    rw [hadmitted] at h
    cases h
    obtain ⟨rfl, gateway, hgateway, _⟩ := assertChatQueueAdmission_ok hadmitted
    refine ⟨_, gateway, rfl, rfl, hgateway, waitingCount_le hadmitted ?_ hgateway⟩
    intro p
    rw [List.countP_append, List.countP_singleton]
    split <;> simp

theorem retryChat_ok {id : Nat} {binding : Option Nat} {workspace : Bool} {now : Int}
    (hnodup : (q.sessions.map SessionLink.id).Nodup)
    (h : q.retryChat id binding workspace now = .ok q') :
    ∃ session ∈ q'.sessions, ∃ gateway ∈ q.gateways, session.id = id ∧
      session.gatewayLink = some gateway.id ∧
      q' = { q.cleanupReleasableSlots gateway.id with
        sessions := Table.put SessionLink.id q.sessions session } ∧
      q'.waitingCount gateway ≤ gateway.chatQueueCapacity := by
  rw [ChatQueue.retryChat] at h
  cases hfound : Table.find SessionLink.id q.sessions id with
  | none => simp [hfound] at h
  | some session =>
    simp only [hfound] at h
    split at h
    · cases h
    · split at h
      · cases h
      · split at h
        · cases h
        · cases hgateway : session.gatewayLink.or binding with
          | none => simp [hgateway] at h
          | some gatewayId =>
            simp only [hgateway] at h
            cases hadmitted : q.assertChatQueueAdmission gatewayId with
            | error error => simp [hadmitted] at h
            | ok cleaned =>
              simp only [hadmitted] at h
              cases h
              obtain ⟨rfl, gateway, hgateway, _⟩ := assertChatQueueAdmission_ok hadmitted
              obtain ⟨hmem, hid⟩ := Table.mem_of_find hfound
              obtain ⟨hgatewayMem, rfl⟩ := Table.mem_of_find hgateway
              refine ⟨_, ?_, gateway, hgatewayMem, ?_, ?_, rfl,
                waitingCount_le hadmitted (Table.countP_put_le hnodup) hgateway⟩
              · refine (Table.mem_put hmem ?_).mpr (.inl rfl)
                rfl
              · exact hid
              · rfl

end Admission

/-! ## Acquisition -/

/-- A slot is created for a session of a Gateway: in a free place, under a free number,
and with free places left for all schedulable sessions before it. -/
structure Acquired (q q' : ChatQueue) (gateway : GatewayLink) (session : SessionLink)
    (slot : ChatSlot) : Prop where
  ofGateway : Table.find GatewayLink.id q.gateways slot.gatewayLink = some gateway
  ofSession : Table.find SessionLink.id q.sessions slot.sessionLink = some session
  generation : slot.sessionGeneration = session.provisionGeneration
  slots : q'.slots = slot :: (q.cleanupReleasableSlots gateway.id).slots
  sessions : q'.sessions = q.sessions
  room : ((q.cleanupReleasableSlots gateway.id).slotsOf gateway.id).length <
    gateway.chatPrepareConcurrency
  range : 1 ≤ slot.slotNumber ∧ slot.slotNumber ≤ gateway.chatPrepareConcurrency
  number : ∀ other ∈ (q.cleanupReleasableSlots gateway.id).slots,
    other.gatewayLink = slot.gatewayLink → other.slotNumber ≠ slot.slotNumber
  single : ∀ other ∈ (q.cleanupReleasableSlots gateway.id).slots,
    other.sessionLink ≠ slot.sessionLink
  order : (q'.earlierSessions gateway.id session).length ≤
    gateway.chatPrepareConcurrency - (q'.slotsOf gateway.id).length

section Acquisition

variable {q q' : ChatQueue} {gateway : GatewayLink} {session : SessionLink}

theorem earlierSessions_cons (q : ChatQueue) (slot : ChatSlot) (gatewayId : Nat)
    (session : SessionLink) :
    (ChatQueue.earlierSessions { q with slots := slot :: q.slots } gatewayId session).length ≤
      (q.earlierSessions gatewayId session).length := by
  rw [ChatQueue.earlierSessions, ChatQueue.earlierSessions, ChatQueue.schedulableSessions,
    ChatQueue.schedulableSessions, ChatQueue.admittedSessionsWithoutSlot,
    ChatQueue.admittedSessionsWithoutSlot]
  refine (List.Sublist.filter _ (List.Sublist.filter _ ?_)).length_le
  refine List.monotone_filter_right _ fun s hs => ?_
  simp only [ChatQueue.hasSlot, List.any_cons, Bool.not_or, Bool.and_eq_true] at hs ⊢
  exact ⟨hs.1, hs.2.2⟩

theorem earlierSessions_lt (hnodup : (q.sessions.map SessionLink.id).Nodup)
    (hsession : session ∈ q.sessions)
    (h : session.id ∈ (q.eligibleSessions gateway).map SessionLink.id) :
    (q.earlierSessions gateway.id session).length <
      gateway.chatPrepareConcurrency - (q.slotsOf gateway.id).length := by
  obtain ⟨s, hs, hid⟩ := List.mem_map.mp h
  have hmem : s ∈ q.sessions := by
    have hordered := List.mem_of_mem_take hs
    rw [ChatQueue.orderedSchedulableSessions, List.mem_insertionSort] at hordered
    exact (List.mem_filter.mp (List.mem_filter.mp hordered).1).1
  obtain rfl : s = session := Table.Keyed.of_nodup hnodup s hmem session hsession hid
  have hsorted : (q.orderedSchedulableSessions gateway.id).Pairwise
      fun a b => a.queueKey ≤ b.queueKey :=
    List.pairwise_insertionSort SessionLink.notAfter _
  have hplace := length_filter_lt_of_mem_take hsorted hs
  have hperm := (List.perm_insertionSort SessionLink.notAfter
    (q.schedulableSessions gateway.id)).filter fun a => a.queueKey < s.queueKey
  rw [ChatQueue.earlierSessions, ← hperm.length_eq]
  exact hplace

variable {result : ChatSlotResult}

/-- An acquisition leaves the tables as the cleanup left them, or creates a slot. -/
theorem acquireSlot_ok (hnodup : (q.sessions.map SessionLink.id).Nodup)
    (hgateway : Table.find GatewayLink.id q.gateways gateway.id = some gateway)
    (hsession : Table.find SessionLink.id q.sessions session.id = some session)
    (h : (q.cleanupReleasableSlots gateway.id).acquireSlot gateway session = .ok (q', result)) :
    q' = q.cleanupReleasableSlots gateway.id ∨ ∃ slot, Acquired q q' gateway session slot := by
  generalize hcleaned : q.cleanupReleasableSlots gateway.id = cleaned at h
  have hsessions : cleaned.sessions = q.sessions := hcleaned ▸ rfl
  rw [ChatQueue.acquireSlot] at h
  cases hexisting : cleaned.slots.find? fun slot => slot.sessionLink = session.id with
  | some existing =>
    simp only [hexisting] at h
    split at h
    · cases h
    · obtain ⟨rfl, _⟩ := Prod.mk.inj (Except.ok.inj h)
      exact .inl rfl
  | none =>
    simp only [hexisting] at h
    split at h
    · obtain ⟨rfl, _⟩ := Prod.mk.inj (Except.ok.inj h)
      exact .inl rfl
    · rename_i hfree
      split at h
      · obtain ⟨rfl, _⟩ := Prod.mk.inj (Except.ok.inj h)
        exact .inl rfl
      · rename_i heligible
        have heligible := not_not.mp heligible
        cases hnumber : cleaned.slotNumber? gateway with
        | none => simp [hnumber] at h
        | some number =>
          simp only [hnumber] at h
          obtain ⟨rfl, _⟩ := Prod.mk.inj (Except.ok.inj h)
          have hfound := hnumber
          rw [ChatQueue.slotNumber?] at hfound
          have hrange := List.mem_range'_1.mp (List.mem_of_find?_eq_some hfound)
          have hunused := List.find?_some hfound
          have hroom : (cleaned.slotsOf gateway.id).length <
              gateway.chatPrepareConcurrency := by omega
          refine .inr ⟨_, ⟨hgateway, hsession, rfl, by rw [hcleaned], hsessions, ?_, ?_, ?_, ?_,
            ?_⟩⟩
          · rw [hcleaned]
            exact hroom
          · have hlast : number ≤ gateway.chatPrepareConcurrency := by omega
            exact ⟨hrange.1, hlast⟩
          · rw [hcleaned]
            intro other hother hsame heq
            have hmem : other ∈ cleaned.slotsOf gateway.id :=
              List.mem_filter.mpr ⟨hother, decide_eq_true hsame⟩
            have heq : other.slotNumber = number := heq
            simp only [Bool.not_eq_true', List.contains_eq_mem,
              decide_eq_false_iff_not] at hunused
            exact hunused (heq ▸ List.mem_map_of_mem hmem)
          · rw [hcleaned]
            intro other hother heq
            have := List.find?_eq_none.mp hexisting other hother
            simp [heq] at this
          · have hearlier := earlierSessions_lt (hsessions ▸ hnodup)
              (hsessions ▸ (Table.mem_of_find hsession).1) heligible
            have hcons := earlierSessions_cons cleaned
              ⟨gateway.id, number, session.id, session.provisionGeneration⟩ gateway.id session
            have hlength : (ChatQueue.slotsOf { cleaned with slots :=
                ⟨gateway.id, number, session.id, session.provisionGeneration⟩ ::
                  cleaned.slots } gateway.id).length =
                (cleaned.slotsOf gateway.id).length + 1 := by
              simp [ChatQueue.slotsOf]
            rw [hlength]
            omega

theorem tryAcquireChatPrepareSlot_ok {sessionId : Nat} {expectedGeneration : Int}
    (hnodup : (q.sessions.map SessionLink.id).Nodup)
    (h : q.tryAcquireChatPrepareSlot sessionId expectedGeneration = .ok (q', result)) :
    (∃ gatewayId, q' = q.cleanupReleasableSlots gatewayId) ∨ q' = q ∨
      ∃ gateway session slot, Acquired q q' gateway session slot := by
  rw [ChatQueue.tryAcquireChatPrepareSlot] at h
  cases hsession : Table.find SessionLink.id q.sessions sessionId with
  | none =>
    simp only [hsession] at h
    obtain ⟨rfl, _⟩ := Prod.mk.inj (Except.ok.inj h)
    exact .inr (.inl rfl)
  | some session =>
    obtain rfl : session.id = sessionId := (Table.mem_of_find hsession).2
    simp only [hsession] at h
    cases hlink : session.gatewayLink with
    | none =>
      simp only [hlink] at h
      obtain ⟨rfl, _⟩ := Prod.mk.inj (Except.ok.inj h)
      exact .inr (.inl rfl)
    | some gatewayId =>
      simp only [hlink] at h
      split at h
      · obtain ⟨rfl, _⟩ := Prod.mk.inj (Except.ok.inj h)
        exact .inr (.inl rfl)
      · cases hgateway : Table.find GatewayLink.id q.gateways gatewayId with
        | none => simp [hgateway] at h
        | some gateway =>
          obtain rfl : gateway.id = gatewayId := (Table.mem_of_find hgateway).2
          simp only [hgateway] at h
          rcases acquireSlot_ok hnodup hgateway hsession h with hcleaned | ⟨slot, hslot⟩
          · exact .inl ⟨_, hcleaned⟩
          · exact .inr (.inr ⟨gateway, session, slot, hslot⟩)

end Acquisition

/-! ## Runs -/

/-- Slots of one Gateway have different numbers, and no session has two slots. -/
structure Separate (q : ChatQueue) : Prop where
  sessions : (q.sessions.map SessionLink.id).Nodup
  slots : q.slots.Pairwise fun a b =>
    a.sessionLink ≠ b.sessionLink ∧ (a.gatewayLink = b.gatewayLink → a.slotNumber ≠ b.slotNumber)

inductive SlotEffect (q : ChatQueue) : ChatEvent → ChatQueue → Prop
  | kept {e : ChatEvent} {q' : ChatQueue} (h : q'.slots = q.slots) : SlotEffect q e q'
  | cleaned {e : ChatEvent} {q' : ChatQueue} (gatewayId : Nat)
      (h : q'.slots = (q.cleanupReleasableSlots gatewayId).slots) : SlotEffect q e q'
  | acquired {e : ChatEvent} {q' : ChatQueue} {gateway : GatewayLink} {session : SessionLink}
      {slot : ChatSlot} (h : Acquired q q' gateway session slot) : SlotEffect q e q'
  | released {sessionId : Nat} {generation : Int} :
      SlotEffect q (.release sessionId generation) (q.releaseChatPrepareSlot sessionId generation)

section Runs

variable {q q' : ChatQueue} {e : ChatEvent} {slot : ChatSlot}

theorem effect_of_step (hnodup : (q.sessions.map SessionLink.id).Nodup)
    (hs : chatStep q e = some q') :
    SlotEffect q e q' ∧ (q'.sessions.map SessionLink.id).Nodup := by
  cases e with
  | create gatewayId id now =>
    rw [chatStep] at hs
    split at hs
    · cases hs
    · rename_i hnew
      obtain ⟨session, gateway, rfl, rfl, _⟩ := createChat_ok (ok_of_toOption hs)
      refine ⟨.cleaned gatewayId rfl, ?_⟩
      rw [List.map_append, List.map_singleton, List.nodup_append]
      refine ⟨hnodup, List.nodup_singleton _, fun a ha b hb heq => hnew ?_⟩
      rwa [← List.mem_singleton.mp hb, ← heq]
  | retry id binding workspace now =>
    obtain ⟨session, _, gateway, _, _, _, hq', _⟩ := retryChat_ok hnodup (ok_of_toOption hs)
    rw [hq']
    refine ⟨.cleaned gateway.id rfl, ?_⟩
    rw [Table.map_put]
    exact hnodup
  | acquire sessionId generation =>
    rw [chatStep] at hs
    cases hacquire : q.tryAcquireChatPrepareSlot sessionId generation with
    | error error => simp [hacquire, Except.map, Except.toOption] at hs
    | ok pair =>
      obtain ⟨q'', result⟩ := pair
      rw [hacquire] at hs
      obtain rfl : q'' = q' := Option.some.inj hs
      rcases tryAcquireChatPrepareSlot_ok hnodup hacquire with
        ⟨gatewayId, rfl⟩ | rfl | ⟨gateway, session, slot, hslot⟩
      · exact ⟨.cleaned gatewayId rfl, hnodup⟩
      · exact ⟨.kept rfl, hnodup⟩
      · exact ⟨.acquired hslot, hslot.sessions ▸ hnodup⟩
  | release sessionId generation =>
    cases hs
    exact ⟨.released, hnodup⟩
  | settings gatewayId concurrency queueCapacity =>
    have hs := ok_of_toOption (a := q') hs
    rw [ChatQueue.setChatWorkloadSettings] at hs
    cases hnormal : normalizeChatWorkloadSettings concurrency queueCapacity with
    | error error => simp [hnormal] at hs
    | ok settings =>
      rw [hnormal] at hs
      dsimp only at hs
      split at hs
      · cases hs
      · cases hs
        exact ⟨.cleaned gatewayId rfl, hnodup⟩
  | change session =>
    cases hs
    refine ⟨.kept rfl, ?_⟩
    rw [Table.map_put]
    exact hnodup

theorem Separate.step (h : Separate q) (hs : chatStep q e = some q') : Separate q' := by
  obtain ⟨heffect, hnodup⟩ := effect_of_step h.sessions hs
  refine ⟨hnodup, ?_⟩
  cases heffect with
  | kept hslots => exact hslots ▸ h.slots
  | cleaned gatewayId hslots =>
    rw [hslots]
    exact h.slots.sublist (slots_cleanup_sublist q gatewayId)
  | acquired hacquired =>
    rw [hacquired.slots]
    refine List.pairwise_cons.mpr ⟨?_, h.slots.sublist (slots_cleanup_sublist q _)⟩
    intro other hother
    exact ⟨(hacquired.single other hother).symm, fun hsame heq =>
      hacquired.number other hother hsame.symm heq.symm⟩
  | released => exact h.slots.sublist List.filter_sublist

theorem separate_of_reachable (h : chatQueues.Reachable q) : Separate q := by
  refine System.ReachableUnder.invariant (I := Separate) ?_ ?_ h
  · intro q ⟨hslots, hnodup⟩
    exact ⟨hnodup, hslots ▸ List.Pairwise.nil⟩
  · intro q e q' hI _ hs
    exact hI.step hs

theorem SlotEffect.created (h : SlotEffect q e q') (hnew : slot ∈ q'.slots)
    (hold : slot ∉ q.slots) : ∃ gateway session, Acquired q q' gateway session slot := by
  cases h with
  | kept hslots => exact absurd (hslots ▸ hnew) hold
  | cleaned gatewayId hslots =>
    exact absurd ((slots_cleanup_sublist q gatewayId).subset (hslots ▸ hnew)) hold
  | @acquired _ _ gateway session created hacquired =>
    rw [hacquired.slots] at hnew
    cases hnew with
    | head => exact ⟨gateway, session, hacquired⟩
    | tail _ hnew => exact absurd ((slots_cleanup_sublist q _).subset hnew) hold
  | released => exact absurd (List.mem_of_mem_filter hnew) hold

/-- A slot that a step drops was released by its generation, or its session is finished
with it. -/
theorem SlotEffect.dropped (h : SlotEffect q e q') (hold : slot ∈ q.slots)
    (hnew : slot ∉ q'.slots) :
    e = .release slot.sessionLink slot.sessionGeneration ∨ q.isReleasable slot = true := by
  cases h with
  | kept hslots => exact absurd (hslots ▸ hold) hnew
  | cleaned gatewayId hslots => exact .inr (isReleasable_of_cleanup hold (hslots ▸ hnew))
  | acquired hacquired =>
    rw [hacquired.slots] at hnew
    exact .inr (isReleasable_of_cleanup hold fun hkept => hnew (List.mem_cons_of_mem _ hkept))
  | @released sessionId generation =>
    left
    by_contra hother
    refine hnew (List.mem_filter.mpr ⟨hold, ?_⟩)
    simp only [Bool.not_eq_true', Bool.and_eq_false_iff, decide_eq_false_iff_not]
    by_contra hmatch
    obtain ⟨rfl, rfl⟩ := not_or.mp hmatch |>.imp not_not.mp not_not.mp
    exact hother rfl

end Runs

/-- Over every run, the slots of a Gateway have different numbers and no session holds
two. A slot is created in a free place only, with free places left for every schedulable
session before its own (`Acquired`). It goes by a release of its generation or by the
cleanup of a finished life cycle, and an admission keeps the waiting sessions within the
capacity of the Gateway. -/
theorem chat_slots_in_order :
    (∀ q, chatQueues.Reachable q → Separate q) ∧
    (∀ q e q', chatQueues.Reachable q → chatQueues.step q e = some q' →
      ∀ slot ∈ q'.slots, slot ∉ q.slots → ∃ gateway session, Acquired q q' gateway session slot) ∧
    (∀ q e q', chatQueues.Reachable q → chatQueues.step q e = some q' →
      ∀ slot ∈ q.slots, slot ∉ q'.slots →
        e = .release slot.sessionLink slot.sessionGeneration ∨ q.isReleasable slot = true) ∧
    (∀ q q' gatewayId id now, chatQueues.Reachable q →
      chatQueues.step q (.create gatewayId id now) = some q' →
      ∃ gateway ∈ q.gateways, gateway.id = gatewayId ∧
        q'.waitingCount gateway ≤ gateway.chatQueueCapacity) ∧
    (∀ q q' id binding workspace now, chatQueues.Reachable q →
      chatQueues.step q (.retry id binding workspace now) = some q' →
      ∃ session ∈ q'.sessions, ∃ gateway ∈ q.gateways, session.id = id ∧
        session.gatewayLink = some gateway.id ∧
        q'.waitingCount gateway ≤ gateway.chatQueueCapacity) := by
  refine ⟨?_, ?_, ?_, ?_, ?_⟩
  · intro q hreach
    exact separate_of_reachable hreach
  · intro q e q' hreach hs slot hnew hold
    exact (effect_of_step (separate_of_reachable hreach).sessions hs).1.created hnew hold
  · intro q e q' hreach hs slot hold hnew
    exact (effect_of_step (separate_of_reachable hreach).sessions hs).1.dropped hold hnew
  · intro q q' gatewayId id now _ hs
    have hs : chatStep q (.create gatewayId id now) = some q' := hs
    rw [chatStep] at hs
    split at hs
    · cases hs
    · obtain ⟨_, gateway, _, _, hgateway, hwaiting⟩ := createChat_ok (ok_of_toOption hs)
      obtain ⟨hmem, hid⟩ := Table.mem_of_find hgateway
      exact ⟨gateway, hmem, hid, hwaiting⟩
  · intro q q' id binding workspace now hreach hs
    obtain ⟨session, hsession, gateway, hgateway, hid, hlink, _, hwaiting⟩ :=
      retryChat_ok (separate_of_reachable hreach).sessions (ok_of_toOption hs)
    exact ⟨session, hsession, gateway, hgateway, hid, hlink, hwaiting⟩

end HyperFileLens.Lens
