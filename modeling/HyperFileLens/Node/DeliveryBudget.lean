import HyperFileLens.Node.DeliveryLedger

/-!
# Acknowledged delivery stays within its budget

What holds in every state that callers and sweeps reach together: each attempt is
sent at most once, nothing is sent for an attempt that was claimed after the row
was decided, and the protocol of the row never changes once it is recorded.

The number of commands is bounded by the number of retries as long as no call of a
sweep reads an exhausted count. The sweep compares the count with the bound
before it calls `deliver_agent_task`, which reads the count again in
`_persist_delivery_protocol` and does not compare it, so two sweeps that overlap
send one command too many.
-/

namespace HyperFileLens.Node

open Transition Tickets

/-! ## Once per attempt, within the budget -/

structure Fenced (s : DeliveryState) : Prop where
  once : ((s.sent.filterMap Sent.claim).map Claim.attempt).Nodup
  undecided : ∀ c ∈ s.sent.filterMap Sent.claim, c.decided = false
  agree : ∀ p ∈ s.selections, ∀ q ∈ s.selections, p = q
  recorded : ∀ p ∈ s.selections, s.row.isUnaccepted = true →
    selectedProtocol s.row.result = some p

structure WithinBudget (conf : Settings) (s : DeliveryState) : Prop extends Fenced s where
  /-- Under the acknowledged protocol all commands together fit the retries. -/
  budget : .ack ∈ s.selections → s.sent.length ≤ maxAttempts conf

/-- A call of a sweep reads a count that leaves an attempt, unless the row is
decided. -/
def RereadsWithinBudget (conf : Settings) (s : DeliveryState) : DeliveryLabel → Prop
  | .persist i _ _ => ∀ d, s.deliveries[i]? = some d → d.allowAckRedelivery = true →
      s.row.isUnaccepted = true → s.row.deliveryAttemptCount < maxAttempts conf
  | _ => True

theorem sentClaims_le (s : DeliveryState) : ↑(s.sent.filterMap Sent.claim) ≤ s.claims := by
  rw [← Multiset.filterMap_coe]
  exact Multiset.le_add_right _ _

variable {s : DeliveryState} {allowed : Nat → Prop}

theorem Ledger.fenced (h : Ledger allowed s) :
    Fenced s where
  once := by
    have hissued := h.issued.lose (Multiset.map_le_map (sentClaims_le s))
    rw [Multiset.map_coe] at hissued
    exact Multiset.coe_nodup.mp hissued.nodup
  undecided := fun c hc => (h.claims c (Multiset.mem_of_le (sentClaims_le s) hc)).2
  agree := h.agree
  recorded := h.recorded

theorem Ledger.length_sent (h : Ledger allowed s) (hack : .ack ∈ s.selections) :
    s.sent.length = (s.sent.filterMap Sent.claim).length := by
  have hdurable : s.row.isAckDurable = true := by
    by_contra hfalse
    simp [h.plain (by simpa using hfalse)] at hack
  refine (List.filterMap_length_eq_length.mpr fun m hm => ?_).symm
  by_contra hclaim
  have hmem := h.sent m hm hdurable
  rw [Sent.protocol, if_neg hclaim] at hmem
  exact absurd (h.agree _ hack _ hmem) (by decide)

/-- Commands stay within the budget when sweeps read counts that leave an
attempt. -/
theorem within_budget {conf : Settings} {s : DeliveryState}
    (h : (deliverySystem conf).ReachableUnder (RereadsWithinBudget conf) s) :
    WithinBudget conf s := by
  have hall : (deliverySystem conf).ReachableUnder
      (Ledger.RereadsAllowed (· ≤ maxAttempts conf)) s :=
    h.mono fun s label hok => by cases label <;> exact hok
  have hledger := Ledger.of_reachable (Nat.le_add_right 1 _) hall
  refine ⟨hledger.fenced, fun hack => ?_⟩
  have hissued := hledger.issued.lose (Multiset.map_le_map (sentClaims_le s))
  have hcard := hissued.card_le fun t ht => by
    obtain ⟨c, hc, rfl⟩ := Multiset.mem_map.mp ht
    exact (hledger.claims c (Multiset.mem_of_le (sentClaims_le s) hc)).1
  rw [hledger.length_sent hack]
  simpa using hcard

/-- However the calls and the sweeps overlap, an attempt is sent once, and an acknowledged command
was not sent more often than its row has counted. -/
theorem attempts_cover_commands {conf : Settings} (h : (deliverySystem conf).Reachable s) :
    Fenced s ∧ (.ack ∈ s.selections → s.sent.length ≤ s.row.deliveryAttemptCount) := by
  have hledger : Ledger (fun _ => True) s := by
    refine Ledger.of_reachable trivial (h.mono fun s label _ => ?_)
    cases label with
    | persist => exact fun _ _ _ _ => trivial
    | _ => trivial
  refine ⟨hledger.fenced, fun hack => ?_⟩
  have hissued := hledger.issued.lose (Multiset.map_le_map (sentClaims_le s))
  have hcard := hissued.card_le fun t ht => (hissued.range t ht).2
  rw [hledger.length_sent hack]
  simpa using hcard

/-! ## Two sweeps that overlap -/

/-- A backup command that nobody has delivered yet. -/
def undelivered : DeliveryState where
  row := createdBackup
  deliveries := []
  sweeps := []
  selections := []
  decided := false
  sent := []

theorem init_undelivered (conf : Settings) : (deliverySystem conf).init undelivered :=
  ⟨⟨rfl, rfl, rfl, rfl, rfl, rfl, rfl, rfl, rfl⟩, rfl, rfl, rfl, rfl, rfl⟩

def lastCallSends (now : Time) : List DeliveryLabel :=
  [.persist 0 true now, .route 0 none .online, .claim 0 now, .send 0 true none]

def sweepRedelivers (now : Time) : List DeliveryLabel :=
  [.sweep now, .sweepPersist 0 true now, .sweepDecide 0 .online false]

/-- The command is sent, and sent again by two sweeps, one after the other. -/
def sentThreeTimes : List DeliveryLabel :=
  .deliver false :: lastCallSends 0 ++
    sweepRedelivers 31000000 ++ lastCallSends 31000000 ++
    sweepRedelivers 62000000 ++ lastCallSends 62000000

/-- Two more sweeps compare the same count with the bound before either sends. -/
def overlappingRun : List DeliveryLabel :=
  sentThreeTimes ++ sweepRedelivers 93000000 ++ sweepRedelivers 94000000 ++
    lastCallSends 94000000 ++ lastCallSends 94000000

/-- With three retries the command is sent five times. -/
theorem not_within_budget_overlappingRun : ∃ s,
    (deliverySystem {}).exec undelivered overlappingRun = some s ∧
      (deliverySystem {}).Reachable s ∧ s.sent.length = 5 ∧ ¬ WithinBudget {} s := by
  have hend : ∃ s, (deliverySystem {}).exec undelivered overlappingRun = some s ∧
      s.sent.length = 5 ∧ .ack ∈ s.selections := by
    refine ⟨_, rfl, rfl, .head _⟩
  obtain ⟨s, hrun, hlen, hack⟩ := hend
  refine ⟨s, hrun, .of_exec (init_undelivered {}) hrun, hlen, fun h => ?_⟩
  have hbudget := h.budget hack
  rw [hlen] at hbudget
  exact absurd hbudget (by decide)

theorem attempts_cover_commands_overlappingRun : ∃ s,
    (deliverySystem {}).exec undelivered overlappingRun = some s ∧ Fenced s := by
  obtain ⟨s, hrun⟩ : ∃ s, (deliverySystem {}).exec undelivered overlappingRun = some s := ⟨_, rfl⟩
  exact ⟨s, hrun, (attempts_cover_commands (.of_exec (init_undelivered {}) hrun)).1⟩

theorem within_budget_sentThreeTimes : ∃ s,
    (deliverySystem {}).exec undelivered sentThreeTimes = some s ∧
      s.sent.length = 3 ∧ WithinBudget {} s := by
  have hend : ∃ s, (deliverySystem {}).exec undelivered sentThreeTimes = some s ∧
      s.sent.length = 3 := ⟨_, rfl, rfl⟩
  obtain ⟨s, hrun, hlen⟩ := hend
  refine ⟨s, hrun, hlen, within_budget (.of_exec (.start (init_undelivered {})) ?_ hrun)⟩
  -- the calls of the sweeps read the counts 1 and 2
  exact ⟨trivial, fun _ _ _ _ => by decide, trivial, trivial, trivial,
    trivial, trivial, trivial, fun _ _ _ _ => by decide, trivial, trivial, trivial,
    trivial, trivial, trivial, fun _ _ _ _ => by decide, trivial, trivial, trivial, trivial⟩

end HyperFileLens.Node
