import HyperFileLens.Library.Tickets
import HyperFileLens.Node.Delivery

/-!
# The ledger of a delivery

The invariant of the row, its callers and its sweeps. `Ledger allowed` says that
the row records the protocol that was selected, that calls follow it, and that the
attempts claimed so far are tickets of `delivery_attempt_count`.

`allowed` says which attempts may be claimed. Every statement keeps the ledger as
long as a call that may redeliver reads a count whose successor is allowed.
-/

namespace HyperFileLens.Node

open Transition Tickets

/-! ## What callers hold -/

def DeliveryStage.claim : DeliveryStage → Option Claim
  | .sending c => c
  | _ => none

/-- The protocol that a call follows on its way to the message. -/
def DeliveryStage.protocol : DeliveryStage → Option DeliveryProtocol
  | .routing usesAck => some (if usesAck then .ack else .legacy)
  | .claiming => some .ack
  | .sending c => some (if c.isSome then .ack else .legacy)
  | _ => none

def Delivery.claim (d : Delivery) : Option Claim := d.stage.claim

def Sent.protocol (m : Sent) : DeliveryProtocol := if m.claim.isSome then .ack else .legacy

def claimsOf (deliveries : List Delivery) (sent : List Sent) : Multiset Claim :=
  (sent : Multiset Sent).filterMap Sent.claim +
    (deliveries : Multiset Delivery).filterMap Delivery.claim

/-- The claims made so far, less those of callers that died. -/
def DeliveryState.claims (s : DeliveryState) : Multiset Claim := claimsOf s.deliveries s.sent

section Claims

variable {deliveries : List Delivery} {sent : List Sent} {i : Nat} {d : Delivery}

variable {d' : Delivery}

theorem claimsOf_eraseIdx_le (deliveries : List Delivery) (sent : List Sent) (i : Nat) :
    claimsOf (deliveries.eraseIdx i) sent ≤ claimsOf deliveries sent := by
  refine Multiset.add_le_add_left (Multiset.filterMap_le_filterMap _ ?_)
  exact Multiset.coe_le.mpr (List.eraseIdx_sublist deliveries i).subperm

theorem claimsOf_set (hi : deliveries[i]? = some d) (sent : List Sent) (hd' : d'.claim = none) :
    claimsOf (deliveries.set i d') sent = claimsOf (deliveries.eraseIdx i) sent := by
  rw [claimsOf, claimsOf, coe_set hi, Multiset.filterMap_cons_none _ _ hd']

theorem claimsOf_cons (sent : List Sent) (hd' : d'.claim = none) :
    claimsOf (d' :: deliveries) sent = claimsOf deliveries sent := by
  rw [claimsOf, claimsOf, ← Multiset.cons_coe, Multiset.filterMap_cons_none _ _ hd']

theorem claimsOf_claim (hi : deliveries[i]? = some d) (sent : List Sent) {c : Claim}
    (hd' : d'.claim = some c) :
    claimsOf (deliveries.set i d') sent = c ::ₘ claimsOf (deliveries.eraseIdx i) sent := by
  rw [claimsOf, claimsOf, coe_set hi, Multiset.filterMap_cons_some _ _ _ hd', Multiset.add_cons]

theorem claimsOf_send (hi : deliveries[i]? = some d) (sent : List Sent) :
    claimsOf (deliveries.eraseIdx i) (⟨d.claim⟩ :: sent) = claimsOf deliveries sent := by
  rw [claimsOf, claimsOf, coe_eq_cons_eraseIdx hi, ← Multiset.cons_coe]
  cases hc : d.claim with
  | none =>
    rw [Multiset.filterMap_cons_none _ _ hc, Multiset.filterMap_cons_none _ _ rfl]
  | some c =>
    have hm : Sent.claim ⟨some c⟩ = some c := rfl
    rw [Multiset.filterMap_cons_some _ _ _ hc, Multiset.filterMap_cons_some _ _ _ hm,
      Multiset.cons_add, Multiset.add_cons]

end Claims

/-! ## The invariant -/

structure Delivery.Accounts (allowed : Nat → Prop) (durable : Bool)
    (selections : List DeliveryProtocol) (d : Delivery) : Prop where
  held : d.held.isAckDurable = durable
  recorded : d.stage ≠ .persisting → durable = true →
    ∃ p ∈ selections, selectedProtocol d.held.result = some p
  follows : ∀ p, d.stage.protocol = some p → durable = true → p ∈ selections
  next : d.stage = .routing true ∨ d.stage = .claiming →
    allowed (d.held.deliveryAttemptCount + 1)

/-- The row, the calls and the messages agree. -/
structure Ledger (allowed : Nat → Prop) (s : DeliveryState) : Prop where
  decided : s.decided = !s.row.isUnaccepted
  pending : s.row.status = .pending → s.row.acceptedAt = none
  plain : s.row.isAckDurable = false → s.selections = []
  agree : ∀ p ∈ s.selections, ∀ q ∈ s.selections, p = q
  recorded : ∀ p ∈ s.selections, s.row.isUnaccepted = true →
    selectedProtocol s.row.result = some p
  deliveries : ∀ d ∈ s.deliveries, d.Accounts allowed s.row.isAckDurable s.selections
  sweeps : ∀ w ∈ s.sweeps, w.held.isAckDurable = true ∧ s.row.isAckDurable = true
  sent : ∀ m ∈ s.sent, s.row.isAckDurable = true → m.protocol ∈ s.selections
  issued : Issued s.row.deliveryAttemptCount (s.claims.map Claim.attempt)
  claims : ∀ c ∈ s.claims, allowed c.attempt ∧ c.decided = false

variable {selections : List DeliveryProtocol} {d : Delivery} {task' : NodeTask} {durable : Bool}

variable {allowed : Nat → Prop}

theorem Delivery.Accounts.mono {selections' : List DeliveryProtocol}
    (h : d.Accounts allowed durable selections) (hsub : selections ⊆ selections') :
    d.Accounts allowed durable selections' where
  held := h.held
  recorded := fun hst hd =>
    let ⟨p, hp, hr⟩ := h.recorded hst hd
    ⟨p, hsub hp, hr⟩
  follows := fun p hp hd => hsub (h.follows p hp hd)
  next := h.next

theorem Delivery.Accounts.aside (h : d.Accounts allowed durable selections)
    (hst : d.stage ≠ .persisting) {stage : DeliveryStage} (hp : stage.protocol = none) :
    Delivery.Accounts allowed durable selections { d with stage := stage } where
  held := h.held
  recorded := fun _ hd => h.recorded hst hd
  follows := fun p h => by simp [hp] at h
  next := fun h => by
    rcases h with h | h <;> (subst h; simp [DeliveryStage.protocol] at hp)

namespace Ledger

variable {conf : Settings} {allowed : Nat → Prop} {s : DeliveryState}

variable {row' : NodeTask}

theorem isUnaccepted_of_pending (h : Ledger allowed s) (hst : s.row.status = .pending) :
    s.row.isUnaccepted = true := by
  simp [NodeTask.isUnaccepted, hst, h.pending hst]

/-! ## Steps of the row -/

/-- A write keeps what the ledger says about the row. -/
structure Advances (s : DeliveryState) (row' : NodeTask) : Prop where
  pending : row'.status = .pending → s.row.status = .pending ∧ row'.acceptedAt = s.row.acceptedAt
  recorded : ∀ p ∈ s.selections, row'.isUnaccepted = true →
    selectedProtocol row'.result = some p
  count : s.row.deliveryAttemptCount ≤ row'.deliveryAttemptCount
  durable : row'.isAckDurable = s.row.isAckDurable

theorem Advances.unaccepted (h : Advances s row') (hopen : row'.isUnaccepted = true) :
    s.row.isUnaccepted = true := by
  simp only [NodeTask.isUnaccepted, Bool.and_eq_true, decide_eq_true_eq] at hopen ⊢
  obtain ⟨hst, hacc⟩ := h.pending hopen.1
  exact ⟨hst, hacc ▸ hopen.2⟩

section

variable (h : Ledger allowed s)

include h

theorem advances_of_keeps (hk : s.row.Keeps row') : Advances s row' where
  pending := fun hst => ⟨(hk.pending hst).1, (hk.pending hst).2.1⟩
  recorded := fun p hp hopen => by
    have hst : row'.status = .pending := by
      simp only [NodeTask.isUnaccepted, Bool.and_eq_true, decide_eq_true_eq] at hopen
      exact hopen.1
    rw [(hk.pending hst).2.2]
    exact h.recorded p hp (h.isUnaccepted_of_pending (hk.pending hst).1)
  count := hk.count.ge
  durable := by simp only [NodeTask.isAckDurable, hk.correlationType, hk.kind]

theorem setRow (hadv : Advances s row') : Ledger allowed (s.setRow row') where
  decided := by
    show (s.decided || !row'.isUnaccepted) = !row'.isUnaccepted
    rw [h.decided]
    cases hopen : row'.isUnaccepted with
    | false => simp
    | true => simp [hadv.unaccepted hopen]
  pending := fun hst => (hadv.pending hst).2.trans (h.pending (hadv.pending hst).1)
  plain := fun hd => h.plain (hadv.durable ▸ hd)
  agree := h.agree
  recorded := hadv.recorded
  deliveries := fun d hd => (hadv.durable ▸ h.deliveries d hd :)
  sweeps := fun w hw => (hadv.durable ▸ h.sweeps w hw :)
  sent := fun m hm hd => h.sent m hm (hadv.durable ▸ hd)
  issued := h.issued.advance hadv.count
  claims := h.claims

/-! ## Steps of the callers -/

/-- Calls and sweeps come and go, and messages are sent, with the claims there
are. -/
theorem callers {deliveries : List Delivery} {sweeps : List Sweep} {sent : List Sent}
    (hd : ∀ d ∈ deliveries, d.Accounts allowed s.row.isAckDurable s.selections)
    (hw : ∀ w ∈ sweeps, w.held.isAckDurable = true ∧ s.row.isAckDurable = true)
    (hm : ∀ m ∈ sent, s.row.isAckDurable = true → m.protocol ∈ s.selections)
    (hle : claimsOf deliveries sent ≤ s.claims) :
    Ledger allowed { s with deliveries := deliveries, sweeps := sweeps, sent := sent } where
  decided := h.decided
  pending := h.pending
  plain := h.plain
  agree := h.agree
  recorded := h.recorded
  deliveries := hd
  sweeps := hw
  sent := hm
  issued := h.issued.lose (Multiset.map_le_map hle)
  claims := fun c hc => h.claims c (Multiset.mem_of_le hle hc)

theorem setDelivery {i : Nat} {d d' : Delivery} (hi : s.deliveries[i]? = some d)
    (ha : d'.Accounts allowed s.row.isAckDurable s.selections) (hc : d'.claim = none) :
    Ledger allowed (s.setDelivery i d') := by
  refine h.callers (fun e he => ?_) h.sweeps h.sent ?_
  · rcases List.mem_or_eq_of_mem_set he with he | rfl
    · exact h.deliveries e he
    · exact ha
  · rw [claimsOf_set hi s.sent hc]
    exact claimsOf_eraseIdx_le s.deliveries s.sent i

theorem endDelivery (i : Nat) : Ledger allowed (s.endDelivery i) :=
  h.callers (fun d hd => h.deliveries d (List.mem_of_mem_eraseIdx hd)) h.sweeps h.sent
    (claimsOf_eraseIdx_le s.deliveries s.sent i)

theorem setSweeps {sweeps : List Sweep}
    (hw : ∀ w ∈ sweeps, w.held.isAckDurable = true ∧ s.row.isAckDurable = true) :
    Ledger allowed { s with sweeps := sweeps } :=
  h.callers h.deliveries hw h.sent le_rfl

theorem endSweep (j : Nat) : Ledger allowed (s.endSweep j) :=
  h.setSweeps fun w hw => h.sweeps w (List.mem_of_mem_eraseIdx hw)

theorem beginDelivery {held : NodeTask} (hd : held.isAckDurable = s.row.isAckDurable)
    (allow ephemeral : Bool) : Ledger allowed (s.beginDelivery held allow ephemeral) := by
  unfold DeliveryState.beginDelivery
  split
  · refine h.callers (fun d hmem => ?_) h.sweeps h.sent ?_
    · rcases List.mem_cons.mp hmem with rfl | hmem
      · exact ⟨hd, fun hst => absurd rfl hst, fun p hp => by simp [DeliveryStage.protocol] at hp,
          fun hst => by simp at hst⟩
      · exact h.deliveries d hmem
    · exact (claimsOf_cons s.sent rfl).le
  · exact h

end

/-! ## Statements of a call -/

end Ledger

theorem NodeTask.isUnaccepted_congr {task : NodeTask} (hst : task'.status = task.status)
    (hacc : task'.acceptedAt = task.acceptedAt) : task'.isUnaccepted = task.isUnaccepted := by
  simp only [NodeTask.isUnaccepted, hst, hacc]

theorem NodeTask.isAckDurable_congr {task : NodeTask}
    (hcorrelation : task'.correlationType = task.correlationType) (hkind : task'.kind = task.kind) :
    task'.isAckDurable = task.isAckDurable := by
  simp only [NodeTask.isAckDurable, hcorrelation, hkind]

theorem selectedProtocol_set (result : Dict) (protocol : DeliveryProtocol) :
    selectedProtocol (result.set deliveryProtocolKey (.str protocol.text)) = some protocol := by
  cases protocol <;> simp [selectedProtocol, DeliveryProtocol.text, Json.strOr]

theorem selectedProtocol_set_diagnostic (result : Dict) (code : Json) :
    selectedProtocol (result.set "diagnostic_error_code" code) = selectedProtocol result := by
  have hne : deliveryProtocolKey ≠ "diagnostic_error_code" := by decide
  simp only [selectedProtocol, Dict.get_set_of_ne result code hne]

/-- What `_persist_delivery_protocol` does with an unaccepted row. -/
structure Persisted (row : NodeTask) (protocol : DeliveryProtocol) (row' : NodeTask) : Prop where
  selected : selectedProtocol row'.result = some protocol
  kept : ∀ p, selectedProtocol row.result = some p → protocol = p
  status : row'.status = row.status
  acceptedAt : row'.acceptedAt = row.acceptedAt
  count : row'.deliveryAttemptCount = row.deliveryAttemptCount
  correlationType : row'.correlationType = row.correlationType
  kind : row'.kind = row.kind

theorem persisted_persistProtocol (conf : Settings) (row : NodeTask) (ackCapable : Bool)
    (now : Time) :
    Persisted row (persistProtocol conf row ackCapable now).1
      (persistProtocol conf row ackCapable now).2 := by
  unfold persistProtocol
  cases hsel : selectedProtocol row.result with
  | some protocol =>
    exact ⟨hsel, fun p hp => Option.some.inj (hsel.symm.trans hp), rfl, rfl, rfl, rfl, rfl⟩
  | none =>
    exact ⟨selectedProtocol_set row.result _, fun p hp => by simp [hsel] at hp, rfl, rfl, rfl, rfl,
      rfl⟩

namespace Ledger

variable {conf : Settings} {allowed : Nat → Prop} {s s' : DeliveryState}

variable {i : Nat} {d : Delivery} {now : Time}

variable {row' : NodeTask} {ackCapable : Bool} {state : RouteState} {j : Nat}

theorem select (h : Ledger allowed s) (hopen : s.row.isUnaccepted = true)
    (hdurable : s.row.isAckDurable = true) {protocol : DeliveryProtocol}
    (hp : Persisted s.row protocol row') :
    Ledger allowed { s with row := row', selections := protocol :: s.selections } := by
  have hd : row'.isAckDurable = s.row.isAckDurable :=
    NodeTask.isAckDurable_congr hp.correlationType hp.kind
  have hu : row'.isUnaccepted = s.row.isUnaccepted :=
    NodeTask.isUnaccepted_congr hp.status hp.acceptedAt
  have hsub : s.selections ⊆ protocol :: s.selections := List.subset_cons_self _ _
  have hsame : ∀ p ∈ protocol :: s.selections, p = protocol := by
    intro p hmem
    rcases List.mem_cons.mp hmem with rfl | hmem
    · rfl
    · exact (hp.kept p (h.recorded p hmem hopen)).symm
  exact {
    decided := h.decided.trans (congrArg _ hu.symm)
    pending := fun hst => hp.acceptedAt.trans (h.pending (hp.status.symm.trans hst))
    plain := fun hfalse => by rw [hd, hdurable] at hfalse; simp at hfalse
    agree := fun p hmem q hmem' => (hsame p hmem).trans (hsame q hmem').symm
    recorded := fun p hmem _ => hsame p hmem ▸ hp.selected
    deliveries := fun d hmem => hd ▸ (h.deliveries d hmem).mono hsub
    sweeps := fun w hmem => ⟨(h.sweeps w hmem).1, hd.trans hdurable⟩
    sent := fun m hmem hdur => hsub (h.sent m hmem (hd ▸ hdur))
    issued := hp.count.symm ▸ h.issued
    claims := h.claims }

theorem mem_deliveries (hi : s.deliveries[i]? = some d) : d ∈ s.deliveries :=
  List.mem_of_getElem? hi

/-- `_persist_delivery_protocol` of a call. The count that it reads is the one whose
successor it may claim. -/
theorem persist (h : Ledger allowed s) (hfirst : allowed 1)
    (hcount : ∀ d, s.deliveries[i]? = some d → d.allowAckRedelivery = true →
      s.row.isUnaccepted = true → allowed (s.row.deliveryAttemptCount + 1))
    (hs : s.persist conf i ackCapable now = some s') : Ledger allowed s' := by
  unfold DeliveryState.persist at hs
  cases hi : s.deliveries[i]? with
  | none => simp [hi] at hs
  | some d =>
    have ha := h.deliveries d (mem_deliveries hi)
    simp only [hi] at hs
    split at hs
    · simp at hs
    split at hs
    · rename_i hplain
      have hfalse : s.row.isAckDurable = false := by simpa [ha.held] using hplain
      cases hs
      refine h.setDelivery hi ⟨ha.held, ?_, ?_, ?_⟩ rfl
      · exact fun _ hd => by simp [hfalse] at hd
      · exact fun _ _ hd => by simp [hfalse] at hd
      · simp
    rename_i hdurable
    split at hs
    · exact Option.some.inj hs ▸ h.endDelivery i
    rename_i hopen
    replace hdurable : s.row.isAckDurable = true := by simpa [ha.held] using hdurable
    replace hopen : s.row.isUnaccepted = true := by simpa using hopen
    have hp := persisted_persistProtocol conf s.row ackCapable now
    generalize persistProtocol conf s.row ackCapable now = selection at hs hp
    obtain ⟨protocol, row⟩ := selection
    have hsel := h.select hopen hdurable hp
    split at hs
    · exact Option.some.inj hs ▸ hsel.endDelivery i
    rename_i hgo
    cases hs
    have hrow : row.isUnaccepted = true :=
      (NodeTask.isUnaccepted_congr hp.status hp.acceptedAt).trans hopen
    have hdur : row.isAckDurable = s.row.isAckDurable :=
      NodeTask.isAckDurable_congr hp.correlationType hp.kind
    refine hsel.setDelivery hi ⟨?_, ?_, ?_, ?_⟩ rfl
    · simp only [refreshProtocol, hrow, if_true]
      exact ha.held.trans hdur.symm
    · refine fun _ _ => ⟨protocol, List.mem_cons_self, ?_⟩
      simpa only [refreshProtocol, hrow, if_true] using hp.selected
    · intro p hstage _
      cases protocol <;> simp_all [DeliveryStage.protocol]
    · intro hstage
      have hack : protocol = .ack := by simpa using hstage
      simp only [refreshProtocol, hrow, if_true]
      rw [hp.count]
      cases hallow : d.allowAckRedelivery with
      | true => exact hcount d hi hallow hopen
      | false =>
        -- without redelivery only a first attempt gets here
        have hzero : row.deliveryAttemptCount = 0 := by
          simpa [hack, hallow] using hgo
        rw [← hp.count, hzero]
        exact hfirst

theorem route (h : Ledger allowed s) {payloadError : Option String}
    (hs : s.route i payloadError state = some s') : Ledger allowed s' := by
  unfold DeliveryState.route at hs
  cases hi : s.deliveries[i]? with
  | none => simp [hi] at hs
  | some d =>
    have ha := h.deliveries d (mem_deliveries hi)
    simp only [hi] at hs
    split at hs
    · rename_i usesAck hstage
      have hst : d.stage ≠ .persisting := by simp [hstage]
      cases hs
      split
      · exact h.setDelivery hi (ha.aside hst rfl) rfl
      · split
        · exact h.setDelivery hi (ha.aside hst rfl) rfl
        · exact h.setDelivery hi (ha.aside hst rfl) rfl
      · exact h.setDelivery hi (ha.aside hst rfl) rfl
      · cases usesAck with
        | true =>
          refine h.setDelivery hi ⟨ha.held, fun _ => ha.recorded hst, fun p hp => ?_, ?_⟩ rfl
          · exact ha.follows p (by simpa [hstage, DeliveryStage.protocol] using hp)
          · exact fun _ => ha.next (.inl hstage)
        | false =>
          refine h.setDelivery hi ⟨ha.held, fun _ => ha.recorded hst, fun p hp => ?_, ?_⟩ rfl
          · exact ha.follows p (by simpa [hstage, DeliveryStage.protocol] using hp)
          · simp
    · simp at hs

theorem take (h : Ledger allowed s) {d' : Delivery} (hi : s.deliveries[i]? = some d)
    (ha : d'.Accounts allowed s.row.isAckDurable s.selections) {c : Claim} (hc : d'.claim = some c)
    (hattempt : c.attempt = s.row.deliveryAttemptCount + 1) (hnext : allowed c.attempt)
    (hundecided : c.decided = false) (hadv : Advances s row')
    (hopen : row'.isUnaccepted = s.row.isUnaccepted)
    (hcount : row'.deliveryAttemptCount = s.row.deliveryAttemptCount + 1) :
    Ledger allowed (({ s with row := row' } : DeliveryState).setDelivery i d') := by
  have hclaims : (({ s with row := row' } : DeliveryState).setDelivery i d').claims =
      c ::ₘ claimsOf (s.deliveries.eraseIdx i) s.sent := claimsOf_claim hi s.sent hc
  have hle := claimsOf_eraseIdx_le s.deliveries s.sent i
  exact {
    decided := h.decided.trans (congrArg _ hopen.symm)
    pending := fun hst => (hadv.pending hst).2.trans (h.pending (hadv.pending hst).1)
    plain := fun hd => h.plain (hadv.durable ▸ hd)
    agree := h.agree
    recorded := hadv.recorded
    deliveries := fun e he => by
      show e.Accounts allowed row'.isAckDurable s.selections
      rw [hadv.durable]
      rcases List.mem_or_eq_of_mem_set he with he | rfl
      · exact h.deliveries e he
      · exact ha
    sweeps := fun w hw => (hadv.durable ▸ h.sweeps w hw :)
    sent := fun m hm hd => h.sent m hm (hadv.durable ▸ hd)
    issued := by
      rw [hclaims, Multiset.map_cons, hattempt]
      show Issued row'.deliveryAttemptCount _
      rw [hcount]
      exact (h.issued.lose (Multiset.map_le_map hle)).take
    claims := fun e he => by
      rw [hclaims] at he
      rcases Multiset.mem_cons.mp he with rfl | he
      · exact ⟨hnext, hundecided⟩
      · exact h.claims e (Multiset.mem_of_le hle he) }

theorem claim (h : Ledger allowed s) (hs : s.claim i now = some s') : Ledger allowed s' := by
  unfold DeliveryState.claim at hs
  cases hi : s.deliveries[i]? with
  | none => simp [hi] at hs
  | some d =>
    have ha := h.deliveries d (mem_deliveries hi)
    simp only [hi] at hs
    split at hs
    · simp at hs
    rename_i hstage
    replace hstage : d.stage = .claiming := by simpa using hstage
    by_cases hcas :
        (s.row.isUnaccepted && s.row.deliveryAttemptCount = d.held.deliveryAttemptCount) = true
    · simp only [claimAttempt, hcas, if_true] at hs
      cases hs
      simp only [Bool.and_eq_true, decide_eq_true_eq] at hcas
      obtain ⟨hopen, hcount⟩ := hcas
      have hundecided : s.decided = false := by rw [h.decided, hopen]; rfl
      have hnext : allowed (s.row.deliveryAttemptCount + 1) := hcount ▸ ha.next (.inr hstage)
      have ha' : Delivery.Accounts allowed s.row.isAckDurable s.selections
          { d with stage := .sending (some
            { attempt := s.row.deliveryAttemptCount + 1, decided := s.decided }) } := by
        refine ⟨ha.held, fun _ => ha.recorded (by simp [hstage]), fun p hp => ?_, by simp⟩
        exact ha.follows p (by simpa [hstage, DeliveryStage.protocol] using hp)
      exact h.take hi ha' rfl rfl hnext hundecided
        ⟨fun hst => ⟨hst, rfl⟩, fun p hp _ => h.recorded p hp hopen, Nat.le_succ _, rfl⟩ rfl rfl
    · simp only [claimAttempt, hcas, if_false, Bool.false_eq_true] at hs
      exact Option.some.inj hs ▸ h.endDelivery i

theorem send (h : Ledger allowed s) {reached : Bool} {error : Option String}
    (hs : s.send i reached error = some s') : Ledger allowed s' := by
  unfold DeliveryState.send at hs
  cases hi : s.deliveries[i]? with
  | none => simp [hi] at hs
  | some d =>
    have ha := h.deliveries d (mem_deliveries hi)
    simp only [hi] at hs
    split at hs
    · rename_i c hstage
      have hst : d.stage ≠ .persisting := by simp [hstage]
      have hclaim : d.claim = c := by simp [Delivery.claim, hstage, DeliveryStage.claim]
      have hsent : ∀ m ∈ (⟨c⟩ :: s.sent : List Sent), s.row.isAckDurable = true →
          m.protocol ∈ s.selections := by
        intro m hm hd
        rcases List.mem_cons.mp hm with rfl | hm
        · exact ha.follows _ (by simp [hstage, DeliveryStage.protocol, Sent.protocol]) hd
        · exact h.sent m hm hd
      have hle : claimsOf (s.deliveries.eraseIdx i) (⟨c⟩ :: s.sent) ≤ s.claims :=
        hclaim ▸ (claimsOf_send hi s.sent).le
      -- the call goes on without its claim, or returns
      have hset : ∀ stage : DeliveryStage, stage.claim = none → stage.protocol = none →
          Ledger allowed ((if reached then { s with sent := ⟨c⟩ :: s.sent } else s).setDelivery i
            { d with stage := stage }) := by
        intro stage hc hp
        cases reached with
        | false => exact h.setDelivery hi (ha.aside hst hp) hc
        | true =>
          refine h.callers (fun e he => ?_) h.sweeps hsent ?_
          · rcases List.mem_or_eq_of_mem_set he with he | rfl
            · exact h.deliveries e he
            · exact ha.aside hst hp
          · have hd' : Delivery.claim { d with stage := stage } = none := hc
            exact (claimsOf_set hi (⟨c⟩ :: s.sent) hd').trans_le hle
      have hend : Ledger allowed
          ((if reached then { s with sent := ⟨c⟩ :: s.sent } else s).endDelivery i) := by
        cases reached with
        | false => exact h.endDelivery i
        | true =>
          exact h.callers (fun e he => h.deliveries e (List.mem_of_mem_eraseIdx he)) h.sweeps
            hsent hle
      split at hs
      · exact Option.some.inj hs ▸ hset _ rfl rfl
      · split at hs
        · exact Option.some.inj hs ▸ hend
        · exact Option.some.inj hs ▸ hset _ rfl rfl
    · simp at hs

/-- The `UPDATE` after a legacy command. -/
theorem advances_markDispatched (conf : Settings) (h : Ledger allowed s) (held : NodeTask)
    (now : Time) : Advances s (markDispatched conf s.row held now) := by
  unfold markDispatched
  split
  · exact ⟨fun hst => by simp at hst, fun p _ hopen => by simp [NodeTask.isUnaccepted] at hopen,
      Nat.le_succ _, rfl⟩
  · exact h.advances_of_keeps (.refl s.row)

/-- An error is noted with the result of a call that has the protocol. -/
theorem advances_noteDeliveryError (h : Ledger allowed s) (hd : d ∈ s.deliveries)
    (hst : d.stage ≠ .persisting) (code error : String) :
    Advances s (noteDeliveryError s.row d.held code error) := by
  unfold noteDeliveryError
  split
  · refine ⟨fun hst => ⟨hst, rfl⟩, fun p hp _ => ?_, le_rfl, rfl⟩
    have hdurable : s.row.isAckDurable = true := by
      by_contra hfalse
      simp [h.plain (by simpa using hfalse)] at hp
    obtain ⟨q, hq, hsel⟩ := (h.deliveries d hd).recorded hst hdurable
    rw [selectedProtocol_set_diagnostic, hsel, h.agree q hq p hp]
  · exact h.advances_of_keeps (.refl s.row)

theorem dispatched (h : Ledger allowed s) (hs : s.dispatched conf i now = some s') :
    Ledger allowed s' := by
  unfold DeliveryState.dispatched at hs
  cases hi : s.deliveries[i]? with
  | none => simp [hi] at hs
  | some d =>
    simp only [hi] at hs
    split at hs
    · simp at hs
    · have hrow := h.setRow (advances_markDispatched conf h d.held now)
      exact Option.some.inj hs ▸ hrow.endDelivery i

theorem recover (h : Ledger allowed s) (hs : s.recover i = some s') : Ledger allowed s' := by
  unfold DeliveryState.recover at hs
  cases hi : s.deliveries[i]? with
  | none => simp [hi] at hs
  | some d =>
    have hd := mem_deliveries hi
    have ha := h.deliveries d hd
    simp only [hi] at hs
    split at hs
    · rename_i reason hstage
      have hrow := h.setRow (h.advances_noteDeliveryError hd (by simp [hstage])
        (deliveryDiagnosticErrorCode reason) reason)
      exact Option.some.inj hs ▸ hrow.endDelivery i
    · rename_i reason _
      have hrow := h.setRow (h.advances_of_keeps (.failTaskDelivery d.held.result reason))
      exact Option.some.inj hs ▸ hrow.endDelivery i
    · rename_i reason _
      have hrow := h.setRow (h.advances_of_keeps (.failTaskDelivery d.held.result reason))
      exact Option.some.inj hs ▸ hrow.endDelivery i
    · rename_i hstage
      split at hs
      · rename_i hpending
        have ha' : Delivery.Accounts allowed s.row.isAckDurable s.selections
            { d with held := s.row, stage := .marking } := by
          refine ⟨rfl, fun _ hdurable => ?_, fun p hp => ?_, by simp⟩
          · obtain ⟨p, hp, -⟩ := ha.recorded (by simp [hstage]) hdurable
            exact ⟨p, hp, h.recorded p hp (h.isUnaccepted_of_pending hpending)⟩
          · simp [DeliveryStage.protocol] at hp
        exact Option.some.inj hs ▸ h.setDelivery hi ha' rfl
      · exact Option.some.inj hs ▸ h.endDelivery i
    · rename_i hstage
      have hrow := h.setRow (h.advances_noteDeliveryError hd (by simp [hstage])
        "AGENT_CONNECTION_UNSTABLE" "agent websocket is reconnecting")
      exact Option.some.inj hs ▸ hrow.endDelivery i
    · simp at hs

/-! ## Statements of a sweep -/

/-- `_persist_delivery_protocol` of a sweep. -/
theorem sweepPersist (h : Ledger allowed s) (hs : s.sweepPersist conf j ackCapable now = some s') :
    Ledger allowed s' := by
  unfold DeliveryState.sweepPersist at hs
  cases hj : s.sweeps[j]? with
  | none => simp [hj] at hs
  | some w =>
    have hw := List.mem_of_getElem? hj
    simp only [hj] at hs
    split at hs
    · simp at hs
    split at hs
    · exact Option.some.inj hs ▸ h.endSweep j
    rename_i hopen
    replace hopen : s.row.isUnaccepted = true := by simpa using hopen
    have hp := persisted_persistProtocol conf s.row ackCapable now
    generalize persistProtocol conf s.row ackCapable now = selection at hs hp
    obtain ⟨protocol, row⟩ := selection
    have hsel := h.select hopen (h.sweeps w hw).2 hp
    split at hs
    · refine Option.some.inj hs ▸ hsel.setSweeps fun v hv => ?_
      rcases List.mem_or_eq_of_mem_set hv with hv | rfl
      · exact hsel.sweeps v hv
      · refine ⟨Eq.trans ?_ (hsel.sweeps w hw).1, (hsel.sweeps w hw).2⟩
        unfold refreshProtocol
        split <;> rfl
    · exact Option.some.inj hs ▸ hsel.endSweep j

theorem sweepDecide (h : Ledger allowed s) {unstable : Bool}
    (hs : s.sweepDecide conf j state unstable = some s') : Ledger allowed s' := by
  unfold DeliveryState.sweepDecide at hs
  cases hj : s.sweeps[j]? with
  | none => simp [hj] at hs
  | some w =>
    simp only [hj] at hs
    have hrow : ∀ code message, Ledger allowed
        ((s.setRow (timeoutUnacceptedTask s.row code message)).endSweep j) :=
      fun code message =>
        (h.setRow (h.advances_of_keeps (.timeoutUnacceptedTask code message))).endSweep j
    split at hs
    · simp at hs
    split at hs
    · exact Option.some.inj hs ▸ hrow _ _
    split at hs
    · exact Option.some.inj hs ▸ h.endSweep j
    split at hs
    · exact Option.some.inj hs ▸ hrow _ _
    · obtain ⟨hheld, hrow⟩ := h.sweeps w (List.mem_of_getElem? hj)
      exact Option.some.inj hs ▸ (h.endSweep j).beginDelivery (hheld.trans hrow.symm) true false

/-! ## Runs -/

theorem start (hs : (deliverySystem conf).init s) : Ledger allowed s := by
  obtain ⟨hrow, hdeliveries, hsweeps, hselections, hdecided, hsent⟩ := hs
  have hclaims : s.claims = 0 := by
    rw [DeliveryState.claims, hdeliveries, hsent]
    rfl
  exact {
    decided := by simp [hdecided, NodeTask.isUnaccepted, hrow.status, hrow.acceptedAt]
    pending := fun _ => hrow.acceptedAt
    plain := fun _ => hselections
    agree := by simp [hselections]
    recorded := by simp [hselections]
    deliveries := by simp [hdeliveries]
    sweeps := by simp [hsweeps]
    sent := by simp [hsent]
    issued := by
      rw [hclaims]
      exact .zero _
    claims := by simp [hclaims] }

/-- A call that may redeliver reads a count whose successor is allowed, unless the
row is decided. -/
def RereadsAllowed (allowed : Nat → Prop) (s : DeliveryState) : DeliveryLabel → Prop
  | .persist i _ _ => ∀ d, s.deliveries[i]? = some d → d.allowAckRedelivery = true →
      s.row.isUnaccepted = true → allowed (s.row.deliveryAttemptCount + 1)
  | _ => True

theorem step (hfirst : allowed 1) (h : Ledger allowed s) {label : DeliveryLabel}
    (hok : RereadsAllowed allowed s label) (hs : s.step conf label = some s') :
    Ledger allowed s' := by
  cases label with
  | write w =>
    obtain ⟨row', hw, rfl⟩ := Option.map_eq_some_iff.mp hs
    exact h.setRow (h.advances_of_keeps (.write hw))
  | deliver ephemeral => exact Option.some.inj hs ▸ h.beginDelivery rfl false ephemeral
  | persist i ackCapable now => exact h.persist hfirst hok hs
  | route i payloadError state => exact h.route hs
  | claim i now => exact h.claim hs
  | send i reached error => exact h.send hs
  | dispatched i now => exact h.dispatched hs
  | recover i => exact h.recover hs
  | drop i => exact Option.some.inj hs ▸ h.endDelivery i
  | sweep now =>
    simp only [DeliveryState.step] at hs
    split at hs
    · rename_i hcandidate
      have hdurable : s.row.isAckDurable = true := by
        simp only [isSweepCandidate, Bool.and_eq_true] at hcandidate
        exact hcandidate.1.1
      refine Option.some.inj hs ▸ h.setSweeps fun w hw => ?_
      rcases List.mem_cons.mp hw with rfl | hw
      · exact ⟨hdurable, hdurable⟩
      · exact h.sweeps w hw
    · exact Option.some.inj hs ▸ h
  | sweepPersist j ackCapable now => exact h.sweepPersist hs
  | sweepDecide j state unstable => exact h.sweepDecide hs
  | recoveryHold now =>
    have hkeeps : s.row.Keeps (refreshHeldDeadline conf s.row now) := by
      unfold refreshHeldDeadline
      dsimp only
      split
      · exact ⟨fun hst => ⟨hst, rfl, rfl⟩, rfl, rfl, rfl⟩
      · exact .refl s.row
    exact Option.some.inj hs ▸ h.setRow (h.advances_of_keeps hkeeps)
  | sweepDrop j => exact Option.some.inj hs ▸ h.endSweep j

theorem of_reachable (hfirst : allowed 1)
    (h : (deliverySystem conf).ReachableUnder (RereadsAllowed allowed) s) : Ledger allowed s :=
  h.invariant (fun _ => start) fun _ _ _ hI hok hs => hI.step hfirst hok hs

end Ledger

end HyperFileLens.Node
