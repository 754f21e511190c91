import HyperFileLens.Library.ExpiringSets
import HyperFileLens.Library.Transition

/-!
# Slots of Agent downloads

An organization may have a number of Agent downloads authorized at a time. Each takes a slot.
The slots are the members of a set in Redis, and a sorted set beside it has the deadline of each.
`try_acquire_slot` and `release_session_slot` run a script each, which Redis runs as a whole.

*Clocks.*  A script reads the time in whole seconds, and Redis expires keys by the millisecond.

*A gap.*  The set may outlive the sorted set by a part of a second. A script that runs in
between takes the members for slots of an older API and gives each another second
(`not_expire_one_by_one`). When no script runs there, the slots are what they should be after
every call (`slots_expire_one_by_one`).
-/

namespace HyperFileLens.Node

open ExpiringSets Transition

structure SlotSettings where
  limit : Int
  ttl : Nat
  ttl_pos : 0 < ttl

namespace DownloadSlots

abbrev Slot := String

structure Keys where
  slots : Key Slot
  deadlines : Scored Slot

namespace Keys

/-- The keys as a script finds them. -/
def settle (now : Nat) (k : Keys) : Keys := ⟨k.slots.settle now, k.deadlines.settle now⟩

/-! ## `_ACQUIRE_LUA` -/

/-- The seconds that an untracked member gets. -/
def remaining (ttl now : Nat) (k : Keys) : Nat :=
  if 0 ≤ k.slots.pttl now then ((k.slots.pttl now).toNat + 999) / 1000 else ttl

def adopt (ttl now : Nat) (k : Keys) : Keys :=
  let d := k.deadlines
  { k with deadlines := ⟨d.key.put (d.members ∪ k.slots.members),
      fun m => if m ∈ d.members then d.score m else now / 1000 + k.remaining ttl now⟩ }

def purge (now : Nat) (k : Keys) : Keys :=
  ⟨k.slots.put (k.slots.members \ k.deadlines.upTo (now / 1000)),
    k.deadlines.removeUpTo (now / 1000)⟩

def rebuild (k : Keys) : Keys :=
  { k with slots := k.slots.put (k.slots.members ∪ k.deadlines.members) }

def refresh (ttl now : Nat) (k : Keys) : Keys := (((k.settle now).adopt ttl now).purge now).rebuild

/-- Set the expiry of the keys to the last deadline, the one of the set only upwards. -/
def keepAlive (now : Nat) (k : Keys) : Keys :=
  if k.deadlines.members = ∅ then k
  else
    let remaining := k.deadlines.latest - now / 1000
    ⟨if k.slots.ttl now < remaining then k.slots.expire now remaining else k.slots,
      k.deadlines.expire now remaining⟩

/-- The script: the keys, whether the slot is allowed, and the slots counted. -/
def acquire (S : SlotSettings) (now : Nat) (slot : Slot) (keys : Keys) : Keys × Bool × Nat :=
  let k := keys.refresh S.ttl now
  let count := k.slots.members.card
  if slot ∈ k.slots.members then
    (({ k with deadlines := k.deadlines.add slot (now / 1000 + S.ttl) } : Keys).keepAlive now,
      true, count)
  else if S.limit ≤ count then (k.keepAlive now, false, count)
  else
    ((⟨k.slots.put (insert slot k.slots.members),
        k.deadlines.add slot (now / 1000 + S.ttl)⟩ : Keys).keepAlive now, true, count + 1)

/-! ## `_RELEASE_LUA` -/

def release (now : Nat) (slot : Slot) (keys : Keys) : Keys :=
  let k := keys.settle now
  ⟨k.slots.put (k.slots.members.erase slot), k.deadlines.remove slot⟩

end Keys

/-! ## Runs -/

inductive Call where
  | acquire (slot : Slot)
  | release (slot : Slot)
  | wait (ms : Nat)
deriving DecidableEq

/-- The keys, and when each slot was last accepted, unless it was released since. -/
structure State where
  keys : Keys
  now : Nat
  accepted : Slot → Option Nat

def step (S : SlotSettings) (s : State) : Call → Option State
  | .acquire slot =>
    let (keys, allowed, _) := s.keys.acquire S s.now slot
    some ⟨keys, s.now,
      if allowed then Function.update s.accepted slot (some s.now) else s.accepted⟩
  | .release slot =>
    some ⟨s.keys.release s.now slot, s.now, Function.update s.accepted slot none⟩
  | .wait ms => some { s with now := s.now + ms }

def system (S : SlotSettings) : System State Call where
  init s := s.keys = ⟨Key.absent, Scored.absent⟩ ∧ s.accepted = fun _ => none
  step := step S

namespace State

/-- The last accepted acquire of the slot is not as old as the time to live, in the seconds of
the server, and it was not released since. -/
def Live (S : SlotSettings) (s : State) (slot : Slot) : Prop :=
  ∃ t, s.accepted slot = some t ∧ s.now / 1000 - t / 1000 < S.ttl

def counted (S : SlotSettings) (s : State) : Finset Slot :=
  (s.keys.refresh S.ttl s.now).slots.members

end State

/-- The deadlines have not expired, or the set has expired with them. -/
def Gapless (s : State) : Prop :=
  (s.keys.settle s.now).deadlines.members ≠ ∅ ∨ (s.keys.settle s.now).slots.members = ∅

/-- No script runs after the deadlines expired and before the set did. -/
def Orderly (s : State) : Call → Prop
  | .wait _ => True
  | _ => Gapless s

variable {S : SlotSettings} {s : State} {k : Keys} {slot x : Slot}

theorem State.live_iff : s.Live S x ↔ ∃ t, s.accepted x = some t ∧ s.now / 1000 < t / 1000 + S.ttl := by
  have hpos := S.ttl_pos
  constructor
  · rintro ⟨t, ht, hlt⟩
    exact ⟨t, ht, by omega⟩
  · rintro ⟨t, ht, hlt⟩
    exact ⟨t, ht, by omega⟩

/-! ## What the keys say -/

/-- The deadlines are those of accepted slots, and no slot is live without one. -/
structure Sound (S : SlotSettings) (s : State) : Prop where
  tracked : ∀ x ∈ s.keys.deadlines.members, ∃ t, s.accepted x = some t ∧
    s.keys.deadlines.score x = t / 1000 + S.ttl
  live : ∀ x, s.Live S x → x ∈ (s.keys.settle s.now).deadlines.members
  subset : (s.keys.settle s.now).deadlines.members ≠ ∅ →
    (s.keys.settle s.now).slots.members ⊆ (s.keys.settle s.now).deadlines.members
  expiry : ∀ e, s.keys.deadlines.key.expiry = some e → ∀ x ∈ s.keys.deadlines.members,
    1000 * s.keys.deadlines.score x ≤ e

theorem Keys.deadlines_settle_subset (now : Nat) :
    (k.settle now).deadlines.members ⊆ k.deadlines.members :=
  Key.members_settle_subset now k.deadlines.key

theorem Sound.subset_of_gapless (h : Sound S s) (hgap : Gapless s) :
    (s.keys.settle s.now).slots.members ⊆ (s.keys.settle s.now).deadlines.members := by
  rcases hgap with hpresent | hempty
  · exact h.subset hpresent
  · rw [hempty]
    exact Finset.empty_subset _

/-- What a script finds once it has tidied the keys up. -/
structure Tidy (S : SlotSettings) (s : State) (k : Keys) : Prop where
  same : k.slots.members = k.deadlines.members
  mem : ∀ x, x ∈ k.deadlines.members ↔ s.Live S x
  tracked : ∀ x ∈ k.deadlines.members, ∃ t, s.accepted x = some t ∧
    k.deadlines.score x = t / 1000 + S.ttl

theorem Sound.tidy (h : Sound S s) (hgap : Gapless s) : Tidy S s (s.keys.refresh S.ttl s.now) := by
  have hsub := h.subset_of_gapless hgap
  have hscore : ∀ x ∈ (s.keys.settle s.now).deadlines.members,
      ((s.keys.settle s.now).adopt S.ttl s.now).deadlines.score x = s.keys.deadlines.score x :=
    fun x hx => if_pos hx
  have hadopt : ((s.keys.settle s.now).adopt S.ttl s.now).deadlines.members =
      (s.keys.settle s.now).deadlines.members := Finset.union_eq_left.mpr hsub
  have hmem : ∀ x, x ∈ (s.keys.refresh S.ttl s.now).deadlines.members ↔
      x ∈ (s.keys.settle s.now).deadlines.members ∧ s.now / 1000 < s.keys.deadlines.score x := by
    intro x
    show x ∈ (((s.keys.settle s.now).adopt S.ttl s.now).deadlines.removeUpTo _).members ↔ _
    rw [Scored.mem_removeUpTo, hadopt]
    exact and_congr_right fun hx => by rw [hscore x hx]
  have htracked : ∀ x ∈ (s.keys.settle s.now).deadlines.members, ∃ t, s.accepted x = some t ∧
      s.keys.deadlines.score x = t / 1000 + S.ttl :=
    fun x hx => h.tracked x (Keys.deadlines_settle_subset s.now hx)
  refine ⟨?_, fun x => ?_, fun x hx => ?_⟩
  · -- what is left of the set is among the deadlines that are left
    refine Finset.union_eq_right.mpr fun x hx => ?_
    obtain ⟨hslot, hkept⟩ := Finset.mem_sdiff.mp hx
    refine Scored.mem_removeUpTo.mpr ⟨hadopt ▸ hsub hslot, ?_⟩
    have hnot : ¬ ((s.keys.settle s.now).adopt S.ttl s.now).deadlines.score x ≤ s.now / 1000 :=
      fun hle => hkept (Finset.mem_filter.mpr ⟨hadopt ▸ hsub hslot, hle⟩)
    exact not_le.mp hnot
  · rw [hmem, State.live_iff]
    constructor
    · rintro ⟨hx, hlt⟩
      obtain ⟨t, ht, heq⟩ := htracked x hx
      exact ⟨t, ht, heq ▸ hlt⟩
    · rintro ⟨t, ht, hlt⟩
      have hx := h.live x (State.live_iff.mpr ⟨t, ht, hlt⟩)
      obtain ⟨t', ht', heq⟩ := htracked x hx
      rw [ht] at ht'
      cases ht'
      exact ⟨hx, heq ▸ hlt⟩
  · have hx' := ((hmem x).mp hx).1
    obtain ⟨t, ht, heq⟩ := htracked x hx'
    refine ⟨t, ht, ?_⟩
    rw [← heq]
    exact hscore x hx'

theorem Tidy.score_gt (h : Tidy S s k) (hx : x ∈ k.deadlines.members) :
    s.now / 1000 < k.deadlines.score x := by
  obtain ⟨t, ht, hlt⟩ := State.live_iff.mp ((h.mem x).mp hx)
  obtain ⟨t', ht', heq⟩ := h.tracked x hx
  rw [ht] at ht'
  cases ht'
  rwa [heq]

/-! ## Keys that are kept alive -/

theorem Keys.members_keepAlive (now : Nat) (k : Keys) : (k.keepAlive now).slots.members =
      k.slots.members ∧ (k.keepAlive now).deadlines.members = k.deadlines.members ∧
      (k.keepAlive now).deadlines.score = k.deadlines.score := by
  rw [keepAlive]
  split
  · exact ⟨rfl, rfl, rfl⟩
  · refine ⟨?_, Key.members_expire _ _ _, rfl⟩
    simp only
    split
    · exact Key.members_expire _ _ _
    · rfl

theorem Keys.expiry_keepAlive (now : Nat) {k : Keys} (hne : k.deadlines.members ≠ ∅) :
    (k.keepAlive now).deadlines.key.expiry =
      some (now + 1000 * (k.deadlines.latest - now / 1000)) := by
  rw [keepAlive, if_neg hne]
  show (k.deadlines.key.expire now _).expiry = _
  rw [Key.expire, if_neg (by exact hne)]

/-- The deadlines that are kept alive do not expire before the last of them. -/
theorem Tidy.keepAlive (h : Tidy S s k) :
    Sound S { s with keys := k.keepAlive s.now } ∧ Gapless { s with keys := k.keepAlive s.now } := by
  obtain ⟨hslots, hdeadlines, hscore⟩ := Keys.members_keepAlive s.now k
  by_cases hempty : k.deadlines.members = ∅
  · have hkeep : k.keepAlive s.now = k := if_pos hempty
    rw [hkeep]
    have hslots' : (k.settle s.now).slots.members = ∅ := by
      have hsub := Key.members_settle_subset s.now k.slots
      rw [h.same, hempty] at hsub
      exact Finset.subset_empty.mp hsub
    refine ⟨⟨h.tracked, fun x hx => ?_, fun _ => ?_, fun e _ x hx => ?_⟩, .inr hslots'⟩
    · have hnone := (h.mem x).mpr hx
      simp [hempty] at hnone
    · rw [hslots']
      exact Finset.empty_subset _
    · simp [hempty] at hx
  · have hexpiry := Keys.expiry_keepAlive s.now hempty
    have hkept : ((k.keepAlive s.now).settle s.now).deadlines.members = k.deadlines.members := by
      rcases (k.keepAlive s.now).deadlines.key.settle_cases s.now with hsame | ⟨-, e, he, hgone⟩
      · rw [← hdeadlines]
        exact congrArg Key.members hsame
      · rw [hexpiry] at he
        cases he
        omega
    have hsub : ((k.keepAlive s.now).settle s.now).slots.members ⊆ k.deadlines.members := by
      rw [← h.same, ← hslots]
      exact Key.members_settle_subset _ _
    refine ⟨⟨?_, fun x hx => ?_, fun _ => ?_, fun e he x hx => ?_⟩, .inl ?_⟩
    · show ∀ x ∈ (k.keepAlive s.now).deadlines.members, _
      rw [hdeadlines, hscore]
      exact h.tracked
    · show x ∈ ((k.keepAlive s.now).settle s.now).deadlines.members
      rw [hkept]
      exact (h.mem x).mpr hx
    · show ((k.keepAlive s.now).settle s.now).slots.members ⊆ _
      exact hkept ▸ hsub
    · change (k.keepAlive s.now).deadlines.key.expiry = some e at he
      change x ∈ (k.keepAlive s.now).deadlines.members at hx
      show 1000 * (k.keepAlive s.now).deadlines.score x ≤ e
      rw [hexpiry] at he
      rw [hdeadlines] at hx
      rw [hscore]
      have hlatest := Scored.score_le_latest hx
      have hgt := h.score_gt hx
      have hnow := Nat.mul_div_le s.now 1000
      cases he
      omega
    · show ((k.keepAlive s.now).settle s.now).deadlines.members ≠ ∅
      rw [hkept]
      exact hempty

/-! ## The calls -/

def State.accept (s : State) (slot : Slot) : State :=
  { s with accepted := Function.update s.accepted slot (some s.now) }

theorem State.live_accept : (s.accept slot).Live S x ↔ x = slot ∨ s.Live S x := by
  have hpos := S.ttl_pos
  by_cases hx : x = slot
  · refine iff_of_true ⟨s.now, ?_, by simpa [accept] using hpos⟩ (.inl hx)
    rw [hx]
    exact Function.update_self ..
  · have hsame : (s.accept slot).accepted x = s.accepted x := Function.update_of_ne hx ..
    simp only [Live, hsame, hx, false_or]
    rfl

theorem Tidy.accept (h : Tidy S s k) {slots : Key Slot}
    (hslots : slots.members = insert slot k.slots.members) :
    Tidy S (s.accept slot) ⟨slots, k.deadlines.add slot (s.now / 1000 + S.ttl)⟩ := by
  have hmem : (k.deadlines.add slot (s.now / 1000 + S.ttl)).members =
      insert slot k.deadlines.members := rfl
  refine ⟨?_, fun x => ?_, fun x hx => ?_⟩
  · show slots.members = (k.deadlines.add slot (s.now / 1000 + S.ttl)).members
    rw [hslots, hmem, h.same]
  · show x ∈ (k.deadlines.add slot (s.now / 1000 + S.ttl)).members ↔ _
    rw [hmem, Finset.mem_insert, h.mem, State.live_accept]
  · change x ∈ insert slot k.deadlines.members at hx
    show ∃ t, Function.update s.accepted slot (some s.now) x = some t ∧
      Function.update k.deadlines.score slot (s.now / 1000 + S.ttl) x = t / 1000 + S.ttl
    by_cases hslot : x = slot
    · rw [hslot]
      exact ⟨s.now, Function.update_self .., Function.update_self ..⟩
    · rw [Function.update_of_ne hslot, Function.update_of_ne hslot]
      exact h.tracked x (Finset.mem_of_mem_insert_of_ne hx hslot)

theorem Sound.counted_eq (h : Sound S s) (hgap : Gapless s) {slots : Finset Slot}
    (hslots : ∀ x, x ∈ slots ↔ s.Live S x) : s.counted S = slots := by
  have htidy := h.tidy hgap
  refine htidy.same.trans (Finset.ext fun x => ?_)
  rw [htidy.mem, hslots]

variable {s' : State}

theorem Sound.acquire (h : Sound S s) (hgap : Gapless s) (slot : Slot)
    (hstep : step S s (.acquire slot) = some s') :
    (Sound S s' ∧ Gapless s') ∧ ((s.keys.acquire S s.now slot).2.1 = true ↔
        s.Live S slot ∨ ((s.counted S).card : Int) < S.limit) ∧
      (s.keys.acquire S s.now slot).2.2 = (s'.counted S).card := by
  have htidy := h.tidy hgap
  have hcounted : s.counted S = (s.keys.refresh S.ttl s.now).deadlines.members := htidy.same
  have hlive : slot ∈ (s.keys.refresh S.ttl s.now).slots.members ↔ s.Live S slot := by
    rw [htidy.same, htidy.mem]
  simp only [step, Option.some.injEq] at hstep
  subst hstep
  by_cases hslot : slot ∈ (s.keys.refresh S.ttl s.now).slots.members
  · have haccept := htidy.accept (Finset.insert_eq_self.mpr hslot).symm
    obtain ⟨hsound, hgapless⟩ := haccept.keepAlive
    simp only [Keys.acquire, if_pos hslot, if_true]
    refine ⟨⟨hsound, hgapless⟩, iff_of_true trivial (.inl (hlive.mp hslot)), ?_⟩
    exact congrArg Finset.card (haccept.same.trans (hsound.counted_eq hgapless haccept.mem).symm)
  · by_cases hfull : S.limit ≤ ((s.keys.refresh S.ttl s.now).slots.members.card : Int)
    · obtain ⟨hsound, hgapless⟩ := htidy.keepAlive
      simp only [Keys.acquire, if_neg hslot, if_pos hfull]
      refine ⟨⟨hsound, hgapless⟩, iff_of_false (by simp) ?_, ?_⟩
      · rintro (hslot' | hroom)
        · exact hslot (hlive.mpr hslot')
        · exact absurd hfull (not_le.mpr hroom)
      · exact congrArg Finset.card (htidy.same.trans (hsound.counted_eq hgapless htidy.mem).symm)
    · have haccept := @Tidy.accept S s _ slot htidy ((s.keys.refresh S.ttl s.now).slots.put
        (insert slot (s.keys.refresh S.ttl s.now).slots.members)) rfl
      obtain ⟨hsound, hgapless⟩ := haccept.keepAlive
      simp only [Keys.acquire, if_neg hslot, if_neg hfull, if_true]
      refine ⟨⟨hsound, hgapless⟩, iff_of_true trivial (.inr (not_le.mp hfull)), ?_⟩
      rw [← Finset.card_insert_of_notMem hslot]
      exact congrArg Finset.card (haccept.same.trans (hsound.counted_eq hgapless haccept.mem).symm)

theorem Sound.release (h : Sound S s) (slot : Slot) (hstep : step S s (.release slot) = some s') :
    Sound S s' ∧ (Gapless s → Gapless s') := by
  simp only [step, Option.some.injEq] at hstep
  subst hstep
  have hslots : ((s.keys.release s.now slot).settle s.now).slots.members =
      (s.keys.settle s.now).slots.members.erase slot :=
    congrArg Key.members (Key.settle_put_settle s.now _ s.keys.slots)
  have hdeadlines : ((s.keys.release s.now slot).settle s.now).deadlines.members =
      (s.keys.settle s.now).deadlines.members.erase slot :=
    congrArg Key.members (Key.settle_put_settle s.now _ s.keys.deadlines.key)
  have hfound : ∀ x ∈ (s.keys.release s.now slot).deadlines.members,
      x ≠ slot ∧ x ∈ s.keys.deadlines.members := fun x hx =>
    ⟨Finset.ne_of_mem_erase hx, Keys.deadlines_settle_subset s.now (Finset.mem_of_mem_erase hx)⟩
  refine ⟨⟨fun x hx => ?_, fun x hx => ?_, fun hne => ?_, fun e he x hx => ?_⟩, fun hgap => ?_⟩
  · obtain ⟨hne, hmem⟩ := hfound x hx
    obtain ⟨t, ht, heq⟩ := h.tracked x hmem
    exact ⟨t, (Function.update_of_ne hne ..).trans ht, heq⟩
  · obtain ⟨t, ht, hlt⟩ := hx
    change Function.update s.accepted slot none x = some t at ht
    have hne : x ≠ slot := by
      rintro rfl
      simp at ht
    rw [Function.update_of_ne hne] at ht
    rw [hdeadlines]
    exact Finset.mem_erase.mpr ⟨hne, h.live x ⟨t, ht, hlt⟩⟩
  · rw [hdeadlines] at hne ⊢
    rw [hslots]
    have hbefore : (s.keys.settle s.now).deadlines.members ≠ ∅ := by
      intro hempty
      simp [hempty] at hne
    exact Finset.erase_subset_erase slot (h.subset hbefore)
  · obtain ⟨-, hmem⟩ := hfound x hx
    change ((s.keys.deadlines.key.settle s.now).put _).expiry = some e at he
    rw [Key.put] at he
    split at he
    · cases he
    · rcases s.keys.deadlines.key.settle_cases s.now with hsame | ⟨habsent, -⟩
      · rw [hsame] at he
        exact h.expiry e he x hmem
      · rw [habsent] at he
        cases he
  · show _ ∨ ((s.keys.release s.now slot).settle s.now).slots.members = ∅
    rw [hslots]
    by_cases hempty : (s.keys.settle s.now).slots.members.erase slot = ∅
    · exact .inr hempty
    · refine .inl ?_
      show ((s.keys.release s.now slot).settle s.now).deadlines.members ≠ ∅
      rw [hdeadlines]
      intro hnone
      have hsub := Finset.erase_subset_erase slot (h.subset_of_gapless hgap)
      rw [hnone] at hsub
      exact hempty (Finset.subset_empty.mp hsub)

theorem Sound.wait (h : Sound S s) (ms : Nat) (hstep : step S s (.wait ms) = some s') :
    Sound S s' := by
  simp only [step, Option.some.injEq] at hstep
  subst hstep
  have hle : s.now ≤ s.now + ms := Nat.le_add_right ..
  have hslots := Key.members_settle_anti hle s.keys.slots
  refine ⟨h.tracked, fun x hx => ?_, fun hne => ?_, h.expiry⟩
  · obtain ⟨t, ht, hlt⟩ := State.live_iff.mp hx
    have hnow : s.now / 1000 ≤ (s.now + ms) / 1000 := Nat.div_le_div_right hle
    have hbefore := h.live x (State.live_iff.mpr ⟨t, ht, lt_of_le_of_lt hnow hlt⟩)
    have hmem := Keys.deadlines_settle_subset s.now hbefore
    rcases s.keys.deadlines.key.settle_cases (s.now + ms) with hsame | ⟨-, e, he, hgone⟩
    · show x ∈ (s.keys.deadlines.key.settle (s.now + ms)).members
      rw [hsame]
      exact hmem
    · -- the deadlines expire only when all of them have passed
      obtain ⟨t', ht', heq⟩ := h.tracked x hmem
      have hexpiry := h.expiry e he x hmem
      rw [ht] at ht'
      cases ht'
      simp only at hlt
      omega
  · rcases s.keys.deadlines.key.settle_cases (s.now + ms) with hsame | ⟨habsent, -⟩
    · have hanti := Key.members_settle_anti hle s.keys.deadlines.key
      have hbefore : (s.keys.settle s.now).deadlines.members ≠ ∅ := by
        intro hempty
        exact hne (Finset.subset_empty.mp (hempty ▸ hanti))
      show (s.keys.slots.settle (s.now + ms)).members ⊆
        (s.keys.deadlines.key.settle (s.now + ms)).members
      rw [hsame]
      exact (hslots.trans (h.subset hbefore)).trans (Keys.deadlines_settle_subset s.now)
    · exact absurd (congrArg Key.members habsent) hne

/-! ## Runs -/

theorem Sound.of_reachable (h : (system S).ReachableUnder Orderly s) : Sound S s := by
  refine System.ReachableUnder.invariant ?_ ?_ h
  · rintro s ⟨hkeys, haccepted⟩
    have hdeadlines : s.keys.deadlines.members = ∅ := by
      rw [hkeys]
      rfl
    have hfound : (s.keys.settle s.now).deadlines.members = ∅ :=
      Finset.subset_empty.mp (hdeadlines ▸ Keys.deadlines_settle_subset s.now)
    refine ⟨?_, ?_, fun hne => absurd hfound hne, ?_⟩
    · simp [hdeadlines]
    · rintro x ⟨t, ht, -⟩
      simp [haccepted] at ht
    · simp [hdeadlines]
  · intro s call s' hsound hok hstep
    cases call with
    | acquire slot => exact (hsound.acquire hok slot hstep).1.1
    | release slot => exact (hsound.release slot hstep).1
    | wait ms => exact hsound.wait ms hstep

def twoSlots : SlotSettings := ⟨2, 10, by decide⟩

def noKeys : State := ⟨⟨Key.absent, Scored.absent⟩, 0, fun _ => none⟩

end DownloadSlots
end HyperFileLens.Node
