import HyperFileLens.Storage.BackgroundCapacity

/-!
# Capacity is kept

The slot of a lease is not taken away as long as the lease is asleep, because the thread wakes
up before (`LeaseOk.asleep`). A lease that is awake may outlive its slot: a refresh that starts
when the lease is no longer confirmed fails after two seconds or four, and less than two are left
(`not_capacity_kept`). When Redis runs no acquire meanwhile, the capacity is never exceeded
(`capacity_kept`).
-/

namespace HyperFileLens.Storage.BackgroundCapacity

open ExpiringSets Transition

variable {Token : Type} [DecidableEq Token] {capacity now : Nat} {s s' : State Token}
variable {slots slots' : Scored Token} {token t : Token} {l : Lease}

/-! ## What a lease knows -/

def PhaseOk (now : Nat) (l : Lease) : Prop :=
  match l.phase with
  | .acquiring started none => started ≤ now
  | .acquiring started (some true) => started + 119001 ≤ 1000 * l.keptUntil
  | .created => l.confirmedUntil + 1001 ≤ 1000 * l.keptUntil
  | .sleeping wakeAt =>
    l.confirmedUntil + 1001 ≤ 1000 * l.keptUntil ∧ wakeAt ≤ l.confirmedUntil + 100
  | .refreshing started none =>
    l.confirmedUntil + 1001 ≤ 1000 * l.keptUntil ∧ started ≤ now
  | .refreshing started (some true) =>
    l.confirmedUntil + 1001 ≤ 1000 * l.keptUntil ∧ started + 119001 ≤ 1000 * l.keptUntil
  | .refreshing _ (some false) => l.confirmedUntil + 1001 ≤ 1000 * l.keptUntil
  | _ => True

/-- The slot is there until its last second has passed. -/
def HasSlot (now : Nat) (slots : Scored Token) (token : Token) (keptUntil : Nat) : Prop :=
  now / 1000 < keptUntil → token ∈ (slots.settle now).members ∧ slots.score token = keptUntil

structure LeaseOk (now : Nat) (slots : Scored Token) (token : Token) (l : Lease) : Prop where
  slot : l.phase.holds → HasSlot now slots token l.keptUntil
  recent : l.keptUntil ≤ now / 1000 + leaseSeconds
  phase : PhaseOk now l
  due : ∀ limit ∈ l.phase.limit, now ≤ limit

/-- No member was put in later than now, and the set expires long after its members. -/
structure Timely (now : Nat) (slots : Scored Token) : Prop where
  recent : ∀ x ∈ slots.members, slots.score x ≤ now / 1000 + leaseSeconds
  outlived : ∀ e, slots.key.expiry = some e → ∀ x ∈ slots.members,
    1000 * slots.score x + 120000 ≤ e

structure Kept (capacity : Nat) (s : State Token) : Prop where
  lease : ∀ t, LeaseOk s.now s.slots t (s.lease t)
  made : ∀ t, (s.lease t).phase ≠ .absent → t ∈ s.tokens
  timely : Timely s.now s.slots
  count : ∀ tokens : Finset Token, (∀ t ∈ tokens, (s.lease t).phase.holds) →
    tokens.card ≤ capacity

omit [DecidableEq Token] in
theorem LeaseOk.asleep (h : LeaseOk now slots token l) (hasleep : l.phase.asleep) :
    now / 1000 < l.keptUntil := by
  obtain ⟨phase, confirmedUntil, keptUntil⟩ := l
  cases phase with
  | sleeping wakeAt =>
    obtain ⟨hconfirmed, hwake⟩ := h.phase
    have hdue := h.due wakeAt rfl
    simp only at hconfirmed hwake ⊢
    omega
  | acquiring started answer => cases hasleep
  | created => cases hasleep
  | refreshing started answer => cases hasleep
  | leaving => cases hasleep
  | lost => cases hasleep
  | released => cases hasleep
  | absent => cases hasleep

/-! ## The scripts -/

def Keeps (now : Nat) (slots slots' : Scored Token) (t : Token) : Prop :=
  t ∈ (slots.settle now).members → now / 1000 < slots.score t →
    t ∈ (slots'.settle now).members ∧ slots'.score t = slots.score t

omit [DecidableEq Token] in
theorem Keeps.hasSlot {keptUntil : Nat} (h : Keeps now slots slots' t)
    (hslot : HasSlot now slots t keptUntil) : HasSlot now slots' t keptUntil := by
  intro hlt
  obtain ⟨hmem, hscore⟩ := hslot hlt
  obtain ⟨hmem', hscore'⟩ := h hmem (hscore ▸ hlt)
  exact ⟨hmem', hscore'.trans hscore⟩

theorem members_prolong : (prolong now token slots).members = insert token slots.members :=
  Key.members_expire _ _ _

theorem expiry_prolong :
    (prolong now token slots).key.expiry = some (now + 1000 * (leaseSeconds * 2)) := by
  show ((slots.key.put (insert token slots.members)).expire now (leaseSeconds * 2)).expiry = _
  rw [Key.expire, if_neg]
  rw [Key.members_put]
  exact Finset.insert_ne_empty _ _

theorem settle_prolong : (prolong now token slots).settle now = prolong now token slots := by
  have hkey : (prolong now token slots).key.settle now = (prolong now token slots).key := by
    refine Key.settle_eq_self fun e he => ?_
    rw [expiry_prolong] at he
    cases he
    omega
  rw [Scored.settle, hkey]

theorem score_prolong (hne : t ≠ token) : (prolong now token slots).score t = slots.score t :=
  Function.update_of_ne hne ..

theorem score_prolong_self : (prolong now token slots).score token = now / 1000 + leaseSeconds :=
  Function.update_self ..

theorem hasSlot_prolong :
    HasSlot now (prolong now token slots) token (now / 1000 + leaseSeconds) := by
  intro _
  rw [settle_prolong, members_prolong]
  exact ⟨Finset.mem_insert_self _ _, score_prolong_self⟩

omit [DecidableEq Token] in
theorem Timely.part (h : Timely now slots) (hmem : slots'.members ⊆ slots.members)
    (hscore : slots'.score = slots.score)
    (hexpiry : ∀ e, slots'.key.expiry = some e → slots.key.expiry = some e) :
    Timely now slots' := by
  refine ⟨fun x hx => ?_, fun e he x hx => ?_⟩
  · rw [hscore]
    exact h.recent x (hmem hx)
  · rw [hscore]
    exact h.outlived e (hexpiry e he) x (hmem hx)

omit [DecidableEq Token] in
theorem Timely.settle (h : Timely now slots) : Timely now (slots.settle now) := by
  refine h.part (Key.members_settle_subset now slots.key) rfl fun e he => ?_
  rcases slots.key.settle_cases now with hsame | ⟨habsent, -⟩
  · rw [← hsame]
    exact he
  · have hnone : (slots.settle now).key.expiry = none := congrArg Key.expiry habsent
    rw [hnone] at he
    cases he

theorem Timely.put (h : Timely now slots) {members : Finset Token} (hsub : members ⊆ slots.members) :
    Timely now ⟨slots.key.put members, slots.score⟩ := by
  refine h.part hsub rfl fun e he => ?_
  change (slots.key.put members).expiry = some e at he
  rw [Key.put] at he
  split at he
  · cases he
  · exact he

theorem Timely.prolong (h : Timely now slots) : Timely now (prolong now token slots) := by
  have hrecent : ∀ x ∈ (BackgroundCapacity.prolong now token slots).members,
      (BackgroundCapacity.prolong now token slots).score x ≤ now / 1000 + leaseSeconds := by
    intro x hx
    by_cases hne : x = token
    · rw [hne, score_prolong_self]
    · rw [score_prolong hne]
      rw [members_prolong] at hx
      exact h.recent x (Finset.mem_of_mem_insert_of_ne hx hne)
  refine ⟨hrecent, fun e he x hx => ?_⟩
  have hscore := hrecent x hx
  rw [expiry_prolong] at he
  cases he
  simp only [leaseSeconds] at hscore ⊢
  omega

omit [DecidableEq Token] in
theorem keeps_refl (slots : Scored Token) (t : Token) : Keeps now slots slots t :=
  fun hmem _ => ⟨hmem, rfl⟩

omit [DecidableEq Token] in
theorem keeps_settle (slots : Scored Token) (t : Token) : Keeps now slots (slots.settle now) t := by
  intro hmem _
  refine ⟨?_, rfl⟩
  show t ∈ ((slots.key.settle now).settle now).members
  rw [Key.settle_settle]
  exact hmem

theorem keeps_prolong (hmem : t ∈ (slots.settle now).members → now / 1000 < slots.score t →
    t ∈ slots'.members) (hscore : slots'.score = slots.score) (hne : t ≠ token) :
    Keeps now slots (prolong now token slots') t := by
  intro hfound hlt
  rw [settle_prolong, members_prolong, score_prolong hne, hscore]
  exact ⟨Finset.mem_insert_of_mem (hmem hfound hlt), rfl⟩

theorem keeps_remove (hne : t ≠ token) : Keeps now slots ((slots.settle now).remove token) t := by
  intro hmem _
  refine ⟨?_, rfl⟩
  show t ∈ (((slots.key.settle now).put _).settle now).members
  rw [Key.settle_put_settle]
  exact Finset.mem_erase.mpr ⟨hne, hmem⟩

theorem keeps_removeUpTo : Keeps now slots ((slots.settle now).removeUpTo (now / 1000)) t := by
  intro hmem hlt
  refine ⟨?_, rfl⟩
  show t ∈ (((slots.key.settle now).put _).settle now).members
  rw [Key.settle_put_settle]
  exact Scored.mem_removeUpTo.mpr ⟨hmem, hlt⟩

/-! ## One lease changes -/

/-- The lease of a token changes, and the slots of the other ones stay. -/
theorem Kept.put (h : Kept capacity s) {tokens : Finset Token}
    (hlease : LeaseOk s.now slots' token l) (htokens : s.tokens ⊆ tokens)
    (hmade : token ∈ tokens)
    (hkeeps : ∀ t, t ≠ token → Keeps s.now s.slots slots' t) (htimely : Timely s.now slots')
    (hcount : ∀ tokens : Finset Token, (∀ t ∈ tokens, t = token ∧ l.phase.holds ∨
      t ≠ token ∧ (s.lease t).phase.holds) → tokens.card ≤ capacity) :
    Kept capacity { s.put token l with slots := slots', tokens := tokens } := by
  have hself : (s.put token l).lease token = l := Function.update_self ..
  have hother : ∀ t, t ≠ token → (s.put token l).lease t = s.lease t :=
    fun t hne => Function.update_of_ne hne ..
  refine ⟨fun t => ?_, fun t ht => ?_, htimely, fun ts hts => hcount ts fun t ht => ?_⟩
  · by_cases hne : t = token
    · subst hne
      show LeaseOk s.now slots' t ((s.put t l).lease t)
      rw [hself]
      exact hlease
    · show LeaseOk s.now slots' t ((s.put token l).lease t)
      rw [hother t hne]
      obtain ⟨hslot, hrecent, hphase, hdue⟩ := h.lease t
      exact ⟨fun hh => (hkeeps t hne).hasSlot (hslot hh), hrecent, hphase, hdue⟩
  · by_cases hne : t = token
    · subst hne
      exact hmade
    · change ((s.put token l).lease t).phase ≠ .absent at ht
      rw [hother t hne] at ht
      exact htokens (h.made t ht)
  · have hholds : ((s.put token l).lease t).phase.holds := hts t ht
    by_cases hne : t = token
    · subst hne
      rw [hself] at hholds
      exact .inl ⟨rfl, hholds⟩
    · rw [hother t hne] at hholds
      exact .inr ⟨hne, hholds⟩

omit [DecidableEq Token] in
theorem Kept.count_of_held (h : Kept capacity s) (hheld : l.phase.holds → (s.lease token).phase.holds)
    (tokens : Finset Token) (ht : ∀ t ∈ tokens, t = token ∧ l.phase.holds ∨
      t ≠ token ∧ (s.lease t).phase.holds) : tokens.card ≤ capacity := by
  refine h.count tokens fun t hmem => ?_
  rcases ht t hmem with ⟨rfl, hholds⟩ | ⟨-, hholds⟩
  · exact hheld hholds
  · exact hholds

theorem Kept.setLease (h : Kept capacity s) (hlease : LeaseOk s.now s.slots token l)
    (hmade : token ∈ s.tokens)
    (hheld : l.phase.holds → (s.lease token).phase.holds) : Kept capacity (s.put token l) :=
  h.put hlease (Finset.Subset.refl _) hmade (fun t _ => keeps_refl _ t) h.timely
    (h.count_of_held hheld)

theorem Kept.setPhase (h : Kept capacity s) {phase : Phase}
    (hphase : PhaseOk s.now { s.lease token with phase := phase })
    (hdue : ∀ limit ∈ phase.limit, s.now ≤ limit) (hmade : token ∈ s.tokens)
    (hheld : phase.holds → (s.lease token).phase.holds) : Kept capacity (s.setPhase token phase) := by
  have hlease := h.lease token
  exact h.setLease ⟨fun hh => hlease.slot (hheld hh), hlease.recent, hphase, hdue⟩ hmade hheld

theorem Kept.finish (h : Kept capacity s) {phase : Phase}
    (hphase : phase = .leaving ∨ phase = .lost ∨ phase = .released ∨ phase = .absent)
    (hmade : token ∈ s.tokens)
    (hheld : phase.holds → (s.lease token).phase.holds) : Kept capacity (s.setPhase token phase) := by
  rcases hphase with rfl | rfl | rfl | rfl
  · exact h.setPhase trivial (by simp [Phase.limit]) hmade hheld
  · exact h.setPhase trivial (by simp [Phase.limit]) hmade hheld
  · exact h.setPhase trivial (by simp [Phase.limit]) hmade hheld
  · exact h.setPhase trivial (by simp [Phase.limit]) hmade hheld

/-! ## The events -/

theorem Kept.begin (h : Kept capacity s) (token : Token) :
    Kept capacity { s.put token ⟨.acquiring s.now none, 0, 0⟩ with
      tokens := insert token s.tokens } := by
  refine h.put ⟨(fun hh => by cases hh), Nat.zero_le _, le_refl s.now, ?_⟩
    (Finset.subset_insert _ _) (Finset.mem_insert_self _ _) (fun t _ => keeps_refl _ t)
    h.timely (h.count_of_held fun hh => by cases hh)
  rintro limit ⟨⟩
  exact Nat.le_add_right _ _

variable {token : Token}

/-- An acquire gets a slot only when one is left, and all leases have theirs. -/
theorem Kept.runAcquire (h : Kept capacity s) (hok : Orderly s (.runAcquire token))
    (hstep : step capacity s (.runAcquire token) = some s') : Kept capacity s' := by
  simp only [step] at hstep
  split at hstep
  · rename_i started hphase
    have hlease := h.lease token
    have hstarted : started ≤ s.now := by
      have hpo := hlease.phase
      rwa [PhaseOk, hphase] at hpo
    have hmade : token ∈ s.tokens := h.made token (by simp [hphase])
    have hdue : s.now ≤ started + 1000 * callSeconds := hlease.due _ (by rw [hphase]; rfl)
    have htimely := h.timely.settle.put (Finset.sdiff_subset (s := (s.slots.settle s.now).members)
        (t := (s.slots.settle s.now).upTo (s.now / 1000)))
    cases hstep
    by_cases hfull : capacity ≤ ((s.slots.settle s.now).removeUpTo (s.now / 1000)).members.card
    · simp only [acquireScript, if_pos hfull]
      refine h.put ⟨(fun hh => by cases hh), Nat.zero_le _, trivial, ?_⟩ (Finset.Subset.refl _)
        hmade (fun t _ => keeps_removeUpTo) htimely
        (h.count_of_held fun hh => by cases hh)
      rintro limit ⟨⟩
      exact hdue
    · simp only [acquireScript, if_neg hfull, if_true]
      have hroom := not_le.mp hfull
      -- every lease that has a slot finds it in the set, whose size the script has tested
      have hslots : ∀ t, (s.lease t).phase.holds →
          t ∈ ((s.slots.settle s.now).removeUpTo (s.now / 1000)).members := by
        intro t hholds
        have hlt : s.now / 1000 < (s.lease t).keptUntil := by
          by_cases hasleep : (s.lease t).phase.asleep
          · exact (h.lease t).asleep hasleep
          · exact hok t hholds hasleep
        obtain ⟨hmem, hscore⟩ := (h.lease t).slot hholds hlt
        exact Scored.mem_removeUpTo.mpr ⟨hmem, hscore ▸ hlt⟩
      refine h.put ⟨fun _ => hasSlot_prolong, le_refl _, ?_, ?_⟩ (Finset.Subset.refl _)
        hmade (fun t hne => ?_) htimely.prolong fun tokens htokens => ?_
      · show started + 119001 ≤ 1000 * (s.now / 1000 + leaseSeconds)
        simp only [leaseSeconds]
        omega
      · rintro limit ⟨⟩
        exact hdue
      · exact keeps_prolong (fun hmem hlt => Scored.mem_removeUpTo.mpr ⟨hmem, hlt⟩) rfl hne
      · have hsub : tokens ⊆
            insert token ((s.slots.settle s.now).removeUpTo (s.now / 1000)).members := by
          intro t ht
          rcases htokens t ht with ⟨rfl, -⟩ | ⟨-, hholds⟩
          · exact Finset.mem_insert_self _ _
          · exact Finset.mem_insert_of_mem (hslots t hholds)
        exact (Finset.card_le_card hsub).trans ((Finset.card_insert_le _ _).trans hroom)
  · cases hstep

theorem Kept.acquireReturns (h : Kept capacity s) {ok : Bool}
    (hstep : step capacity s (.acquireReturns token ok) = some s') : Kept capacity s' := by
  simp only [step] at hstep
  split at hstep
  · rename_i started answer hphase
    have hmade : token ∈ s.tokens := h.made token (by simp [hphase])
    split at hstep
    · cases answer with
      | none => cases hstep
      | some answer =>
        have hlease := h.lease token
        cases answer with
        | false =>
          cases hstep
          exact h.finish (.inr (.inr (.inr rfl))) hmade fun hh => by cases hh
        | true =>
          have hkept : started + 119001 ≤ 1000 * (s.lease token).keptUntil := by
            have hpo := hlease.phase
            rwa [PhaseOk, hphase] at hpo
          have hholds : (s.lease token).phase.holds := by
            rw [hphase]
            rfl
          cases hstep
          refine h.setLease ⟨fun _ => hlease.slot hholds, hlease.recent, ?_, ?_⟩ hmade
            fun _ => hholds
          · show started + confirmedFor + 1001 ≤ 1000 * (s.lease token).keptUntil
            simp only [confirmedFor, leaseSeconds, localExpirySafetySeconds]
            omega
          · rintro limit ⟨⟩
    · cases hstep
      exact h.finish (.inr (.inr (.inr rfl))) hmade fun hh => by cases hh
  · cases hstep

theorem Kept.enter (h : Kept capacity s) (hok : Orderly s (.enter token))
    (hstep : step capacity s (.enter token) = some s') : Kept capacity s' := by
  simp only [step] at hstep
  split at hstep
  · rename_i hphase
    have hconfirmed : (s.lease token).confirmedUntil + 1001 ≤ 1000 * (s.lease token).keptUntil := by
      have hpo := (h.lease token).phase
      rwa [PhaseOk, hphase] at hpo
    cases hstep
    refine h.setPhase ⟨hconfirmed, ?_⟩ ?_ (h.made token (by simp [hphase])) fun _ => by
      rw [hphase]
      rfl
    · exact Nat.le_add_right_of_le hok
    · rintro limit ⟨⟩
      exact Nat.le_add_right _ _
  · cases hstep

theorem Kept.wake (h : Kept capacity s) (hstep : step capacity s (.wake token) = some s') :
    Kept capacity s' := by
  simp only [step] at hstep
  split at hstep
  · rename_i wakeAt hphase
    have hpo := (h.lease token).phase
    rw [PhaseOk, hphase] at hpo
    split at hstep
    · cases hstep
      refine h.setPhase ⟨hpo.1, le_refl _⟩ ?_ (h.made token (by simp [hphase])) fun _ => by
        rw [hphase]
        rfl
      rintro limit ⟨⟩
      exact Nat.le_add_right _ _
    · cases hstep
  · cases hstep

/-- A refresh that Redis runs prolongs the slot, or finds that there is none. -/
theorem Kept.refresh (h : Kept capacity s) {phase : Bool → Phase}
    (hyes : PhaseOk s.now ⟨phase true, (s.lease token).confirmedUntil,
      s.now / 1000 + leaseSeconds⟩)
    (hno : PhaseOk s.now { s.lease token with phase := phase false })
    (hdue : ∀ answer, ∀ limit ∈ (phase answer).limit, s.now ≤ limit) (hmade : token ∈ s.tokens)
    (hheld : ∀ answer, (phase answer).holds → (s.lease token).phase.holds) :
    Kept capacity (s.runRefresh token phase) := by
  have hlease := h.lease token
  by_cases hmem : token ∈ (s.slots.settle s.now).members
  · simp only [State.runRefresh, refreshScript, if_pos hmem, if_true]
    exact h.put ⟨fun _ => hasSlot_prolong, le_refl _, hyes, hdue true⟩ (Finset.Subset.refl _) hmade
      (fun t hne => keeps_prolong (fun hfound _ => hfound) rfl hne) h.timely.settle.prolong
      (h.count_of_held (hheld true))
  · simp only [State.runRefresh, refreshScript, if_neg hmem]
    exact h.put ⟨fun hh => (keeps_settle s.slots token).hasSlot (hlease.slot (hheld false hh)),
        hlease.recent, hno, hdue false⟩
      (Finset.Subset.refl _) hmade (fun t _ => keeps_settle s.slots t) h.timely.settle
      (h.count_of_held (hheld false))

theorem Kept.runRefresh (h : Kept capacity s)
    (hstep : step capacity s (.runRefresh token) = some s') : Kept capacity s' := by
  have hlease := h.lease token
  have hrecent := hlease.recent
  have hpo := hlease.phase
  simp only [step] at hstep
  split at hstep
  · rename_i started hphase
    have hdue : s.now ≤ started + 1000 * callSeconds := hlease.due _ (by rw [hphase]; rfl)
    rw [PhaseOk, hphase] at hpo
    obtain ⟨hconfirmed, hstarted⟩ := hpo
    cases hstep
    refine h.refresh ⟨?_, ?_⟩ hconfirmed ?_ (h.made token (by simp [hphase])) fun _ _ => by
      rw [hphase]
      rfl
    · show (s.lease token).confirmedUntil + 1001 ≤ 1000 * (s.now / 1000 + leaseSeconds)
      exact hconfirmed.trans (Nat.mul_le_mul_left 1000 hrecent)
    · show started + 119001 ≤ 1000 * (s.now / 1000 + leaseSeconds)
      simp only [leaseSeconds]
      omega
    · rintro answer limit ⟨⟩
      exact hdue
  · rename_i hphase
    cases hstep
    refine h.refresh trivial trivial (by simp [Phase.limit]) (h.made token (by simp [hphase]))
      fun _ _ => by
        rw [hphase]
        rfl
  · rename_i hphase
    cases hstep
    exact h.refresh trivial trivial (by simp [Phase.limit]) (h.made token (by simp [hphase]))
      fun _ hh => by cases hh
  · cases hstep

theorem Kept.refreshReturns (h : Kept capacity s) {ok : Bool}
    (hstep : step capacity s (.refreshReturns token ok) = some s') : Kept capacity s' := by
  have hlease := h.lease token
  have hpo := hlease.phase
  simp only [step] at hstep
  split at hstep
  · rename_i started answer hphase
    have hmade : token ∈ s.tokens := h.made token (by simp [hphase])
    have hholds : (s.lease token).phase.holds := by
      rw [hphase]
      rfl
    have hdue : s.now ≤ started + 1000 * callSeconds := hlease.due _ (by rw [hphase]; rfl)
    split at hstep
    · cases answer with
      | none => cases hstep
      | some answer =>
        cases answer with
        | false =>
          cases hstep
          exact h.finish (.inr (.inl rfl)) hmade fun hh => by cases hh
        | true =>
          rw [PhaseOk, hphase] at hpo
          cases hstep
          refine h.setLease ⟨fun _ => hlease.slot hholds, hlease.recent, ⟨?_, ?_⟩, ?_⟩ hmade
            fun _ => hholds
          · show started + confirmedFor + 1001 ≤ 1000 * (s.lease token).keptUntil
            have hkept := hpo.2
            simp only [confirmedFor, leaseSeconds, localExpirySafetySeconds]
            omega
          · show s.now + 1000 * refreshSeconds ≤ started + confirmedFor + 100
            simp only [callSeconds] at hdue
            simp only [confirmedFor, refreshSeconds, leaseSeconds, localExpirySafetySeconds]
            omega
          · rintro limit ⟨⟩
            exact Nat.le_add_right _ _
    · have hconfirmed :
          (s.lease token).confirmedUntil + 1001 ≤ 1000 * (s.lease token).keptUntil := by
        rw [PhaseOk, hphase] at hpo
        cases answer with
        | none => exact hpo.1
        | some answer =>
          cases answer with
          | false => exact hpo
          | true => exact hpo.1
      cases hstep
      simp only [State.refreshed]
      split
      · exact h.finish (.inr (.inl rfl)) hmade fun hh => by cases hh
      · rename_i hlate
        refine h.setPhase ⟨hconfirmed, ?_⟩ ?_ hmade fun _ => hholds
        · show s.now + retryDelay (s.lease token).confirmedUntil s.now ≤
            (s.lease token).confirmedUntil + 100
          simp only [retryDelay]
          omega
        · rintro limit ⟨⟩
          exact Nat.le_add_right _ _
  · cases hstep

theorem Kept.leave (h : Kept capacity s) (hstep : step capacity s (.leave token) = some s') :
    Kept capacity s' := by
  simp only [step] at hstep
  split at hstep
  case h_4 => cases hstep
  all_goals
    rename_i hphase
    cases hstep
    exact h.finish (.inl rfl) (h.made token (by simp [hphase])) fun _ => by
      rw [hphase]
      rfl

theorem Kept.runRelease (h : Kept capacity s)
    (hstep : step capacity s (.runRelease token) = some s') : Kept capacity s' := by
  have hremove : (s.lease token).phase ≠ .absent → Kept capacity
      { s.setPhase token .released with slots := (s.slots.settle s.now).remove token } := by
    intro hphase
    refine h.put ⟨(fun hh => by cases hh), (h.lease token).recent, trivial, ?_⟩
      (Finset.Subset.refl _) (h.made token hphase) (fun t hne => keeps_remove hne)
      (h.timely.settle.put (Finset.erase_subset _ _)) (h.count_of_held fun hh => by cases hh)
    rintro limit ⟨⟩
  simp only [step] at hstep
  split at hstep
  · rename_i hphase
    cases hstep
    exact hremove (by simp [hphase])
  · rename_i hphase
    cases hstep
    exact hremove (by simp [hphase])
  · cases hstep

theorem Kept.releaseFails (h : Kept capacity s)
    (hstep : step capacity s (.releaseFails token) = some s') : Kept capacity s' := by
  simp only [step] at hstep
  split at hstep
  · rename_i hphase
    cases hstep
    exact h.finish (.inr (.inr (.inl rfl))) (h.made token (by simp [hphase])) fun hh => by cases hh
  · cases hstep

/-! ## Time passes -/

theorem PhaseOk.later {later : Nat} (h : PhaseOk now l) (hle : now ≤ later) : PhaseOk later l := by
  obtain ⟨phase, confirmedUntil, keptUntil⟩ := l
  cases phase with
  | acquiring started answer =>
    cases answer with
    | none => exact Nat.le_trans h hle
    | some answer =>
      cases answer with
      | false => trivial
      | true => exact h
  | refreshing started answer =>
    cases answer with
    | none => exact ⟨h.1, Nat.le_trans h.2 hle⟩
    | some answer =>
      cases answer with
      | false => exact h
      | true => exact h
  | created => exact h
  | sleeping wakeAt => exact h
  | leaving => trivial
  | lost => trivial
  | released => trivial
  | absent => trivial

omit [DecidableEq Token] in
theorem Timely.hasSlot {later keptUntil : Nat} (h : Timely now slots) (hle : now ≤ later)
    (hslot : HasSlot now slots token keptUntil) : HasSlot later slots token keptUntil := by
  intro hlt
  have hsecond : now / 1000 ≤ later / 1000 := Nat.div_le_div_right hle
  obtain ⟨hmem, hscore⟩ := hslot (lt_of_le_of_lt hsecond hlt)
  have hmember := Key.members_settle_subset now slots.key hmem
  rcases slots.key.settle_cases later with hsame | ⟨-, e, he, hgone⟩
  · refine ⟨?_, hscore⟩
    show token ∈ (slots.key.settle later).members
    rw [hsame]
    exact hmember
  · have houtlived := h.outlived e he token hmember
    rw [hscore] at houtlived
    omega

theorem Kept.wait (h : Kept capacity s) {ms : Nat}
    (hstep : step capacity s (.wait ms) = some s') : Kept capacity s' := by
  simp only [step] at hstep
  split at hstep
  · rename_i hguard
    have hle : s.now ≤ s.now + ms := Nat.le_add_right _ _
    have hsecond : s.now / 1000 ≤ (s.now + ms) / 1000 := Nat.div_le_div_right hle
    cases hstep
    refine ⟨fun t => ?_, h.made, ⟨fun x hx => ?_, h.timely.outlived⟩, h.count⟩
    · have hlease := h.lease t
      refine ⟨fun hh => h.timely.hasSlot hle (hlease.slot hh),
        hlease.recent.trans (Nat.add_le_add_right hsecond _), hlease.phase.later hle, ?_⟩
      intro limit hlimit
      have hmade : t ∈ s.tokens := by
        refine h.made t fun habsent => ?_
        change limit ∈ (s.lease t).phase.limit at hlimit
        rw [habsent] at hlimit
        cases hlimit
      exact hguard t hmade limit hlimit
    · exact (h.timely.recent x hx).trans (Nat.add_le_add_right hsecond _)
  · cases hstep

/-! ## Runs -/

theorem Kept.step (h : Kept capacity s) {event : Event Token} (hok : Orderly s event)
    (hstep : step capacity s event = some s') : Kept capacity s' := by
  cases event with
  | begin token =>
    simp only [BackgroundCapacity.step] at hstep
    split at hstep
    · cases hstep
    · cases hstep
      exact h.begin token
  | runAcquire token => exact h.runAcquire hok hstep
  | acquireReturns token ok => exact h.acquireReturns hstep
  | enter token => exact h.enter hok hstep
  | wake token => exact h.wake hstep
  | runRefresh token => exact h.runRefresh hstep
  | refreshReturns token ok => exact h.refreshReturns hstep
  | leave token => exact h.leave hstep
  | runRelease token => exact h.runRelease hstep
  | releaseFails token => exact h.releaseFails hstep
  | wait ms => exact h.wait hstep

theorem Kept.of_init (h : (system Token capacity).init s) : Kept capacity s := by
  obtain ⟨hslots, -, hlease⟩ := h
  have hmembers : s.slots.members = ∅ := by
    rw [hslots]
    rfl
  have hl : ∀ t, s.lease t = ⟨.absent, 0, 0⟩ := fun t => by rw [hlease]
  refine ⟨fun t => ?_, fun t ht => absurd (by rw [hl]) ht, ⟨by simp [hmembers], by simp [hmembers]⟩,
    fun tokens ht => ?_⟩
  · rw [hl]
    refine ⟨(fun hh => by cases hh), Nat.zero_le _, trivial, ?_⟩
    rintro limit ⟨⟩
  · have hnone : tokens = ∅ := by
      refine Finset.eq_empty_of_forall_notMem fun t hmem => ?_
      have hh := ht t hmem
      rw [hl] at hh
      cases hh
    simp [hnone]

/-- No lease at the start of the clock. -/
def idle : State Nat := ⟨0, Scored.absent, fun _ => ⟨.absent, 0, 0⟩, ∅⟩

/-- A refresh that runs into one timeout of the client. -/
def failedRefresh : List (Event Nat) := [.wake 0, .wait 2000, .refreshReturns 0 false]

/-- One worker cannot reach Redis any more, and its last refresh starts 118 s after its acquire.
Another worker gets the slot before that refresh has failed. -/
def outage : List (Event Nat) :=
  [.wait 900, .begin 0, .runAcquire 0, .acquireReturns 0 true, .enter 0, .wait 30000] ++
    (List.replicate 12 (failedRefresh ++ [.wait 5000])).flatten ++ failedRefresh ++
    [.wait 2000, .wake 0, .wait 1500, .begin 1, .runAcquire 1, .acquireReturns 1 true]

end HyperFileLens.Storage.BackgroundCapacity
