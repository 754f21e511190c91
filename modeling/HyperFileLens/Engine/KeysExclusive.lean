import HyperFileLens.Engine.KeyedLocks
import HyperFileLens.Library.Tickets

/-!
# One holder a key, and no entry for nothing

`Change` says what one caller does to the registry. `Sound` is the invariant: an entry is
used by the callers that wait for it, hold it or are leaving it, its references count them,
and its token is there when none of them holds it. All users of an entry came by its key,
so an entry whose last reference is dropped is the entry of that key. That is why the
registry of the server sessions need not look.

A caller that is leaving has given the token back or has given up, and has not dropped its
reference yet. It still counts, while it neither holds the key nor waits for it.
-/

namespace HyperFileLens.Engine.KeyedLocks

variable {κ : Type}

/-! ## Phases -/

/-- The entry a caller holds or waits for. -/
def Phase.inUse : Phase → Option Nat
  | .waits e | .holds e => some e
  | _ => none

/-- The entry a caller holds, waits for or is leaving. -/
def Phase.uses : Phase → Option Nat
  | .waits e | .holds e | .gaveBack e | .gaveUp e => some e
  | _ => none

def Phase.held : Phase → Option Nat
  | .holds e => some e
  | _ => none

/-- How many callers there are to an entry, `of` their phases. -/
def State.count (s : State κ) (of : Phase → Option Nat) (e : Nat) : Nat :=
  s.callers.countP fun c => of c.phase == some e

/-! ## Counting callers -/

variable {s : State κ} {i e : Nat} {caller caller' : Caller κ} {f : Phase → Option Nat}
    {r r' : Registry κ} {p p' : Phase}

section

variable (hi : s.callers[i]? = some caller)

include hi

theorem count_set (r' : Registry κ) (caller' : Caller κ) (f : Phase → Option Nat) (e : Nat) :
    State.count ⟨r', s.callers.set i caller'⟩ f e + (if f caller.phase = some e then 1 else 0) =
      s.count f e + (if f caller'.phase = some e then 1 else 0) := by
  have h := Tickets.countP_set hi caller' fun c => f c.phase == some e
  simpa only [State.count, beq_iff_eq] using h

/-- A caller that stays with its entry, or with none, does not change a count. -/
theorem count_set_of_eq (hof : f caller'.phase = f caller.phase)
    (r' : Registry κ) (e : Nat) : State.count ⟨r', s.callers.set i caller'⟩ f e = s.count f e := by
  have h := count_set hi r' caller' f e
  rw [hof] at h
  omega

theorem count_set_of_comes (hp : f caller.phase = none)
    (hp' : f caller'.phase = some e) (r' : Registry κ) (e' : Nat) :
    State.count ⟨r', s.callers.set i caller'⟩ f e' =
      s.count f e' + if e' = e then 1 else 0 := by
  have h := count_set hi r' caller' f e'
  rw [hp, hp', if_neg (by simp : ¬(none : Option Nat) = some e')] at h
  simpa only [Option.some.injEq, Nat.add_zero, eq_comm] using h

theorem count_set_of_leaves (hp : f caller.phase = some e) (hp' : f caller'.phase = none)
    (r' : Registry κ) (e' : Nat) :
    State.count ⟨r', s.callers.set i caller'⟩ f e' + (if e' = e then 1 else 0) = s.count f e' := by
  have h := count_set hi r' caller' f e'
  rw [hp, hp', if_neg (by simp : ¬(none : Option Nat) = some e')] at h
  simpa only [Option.some.injEq, Nat.add_zero, eq_comm] using h

end

variable {s' : State κ}

theorem count_pos_iff : 0 < s.count f e ↔ ∃ c ∈ s.callers, f c.phase = some e := by
  simp only [State.count, List.countP_pos_iff, beq_iff_eq]

/-! ## The promise -/

variable [DecidableEq κ]

def State.holders (s : State κ) (key : κ) : Nat :=
  s.callers.countP fun c => c.key = key ∧ c.phase.held.isSome

/-- What the registry promises, where the callers of an entry are those of certain phases. -/
structure Fenced (of : Phase → Option Nat) (s : State κ) : Prop where
  exclusive : ∀ key, s.holders key ≤ 1
  same : ∀ c ∈ s.callers, ∀ c' ∈ s.callers, c.key = c'.key → ∀ e e',
    of c.phase = some e → of c'.phase = some e' → e = e'
  refs : ∀ (e : Nat) entry, s.registry.heap[e]? = some entry → entry.refs = s.count of e
  needed : ∀ key e, s.registry.entries key = some e →
    ∃ c ∈ s.callers, c.key = key ∧ of c.phase = some e

/-! ## What a caller does -/

/-- What one caller with a key does to the registry and where it goes. -/
inductive Change (variant : Variant) (key : κ) :
    Registry κ → Phase → Registry κ → Phase → Prop
  | registers {r r' : Registry κ} {e : Nat} (h : r.lookUp key = some (r', e)) :
      Change variant key r .starts r' (.waits e)
  | takes {r r' : Registry κ} {e : Nat} (h : r.take e = some r') :
      Change variant key r (.waits e) r' (.holds e)
  | givesUp {r : Registry κ} {e : Nat} : Change variant key r (.waits e) r (.gaveUp e)
  | givesBack {r r' : Registry κ} {e : Nat} (h : r.giveBack e = some r') :
      Change variant key r (.holds e) r' (.gaveBack e)
  | drops {r r' : Registry κ} {e : Nat} {p p' : Phase} (hp : p.uses = some e)
      (hheld : p.held = none) (hp' : p'.uses = none)
      (h : r.dropReference variant key e = some r') : Change variant key r p r' p'
  | stays {r : Registry κ} {p : Phase} : Change variant key r p r p

variable {variant : Variant} {key : κ}

theorem change_of_runTurn (h : runTurn variant r key p = some (r', p')) :
    Change variant key r p r' p' := by
  cases p with
  | starts =>
    obtain ⟨⟨r₁, e⟩, hr, h⟩ := Option.map_eq_some_iff.mp h
    cases h
    exact .registers hr
  | waits e =>
    obtain ⟨r₁, hr, h⟩ := Option.map_eq_some_iff.mp h
    cases h
    exact .takes hr
  | gaveBack e =>
    obtain ⟨r₁, hr, h⟩ := Option.map_eq_some_iff.mp h
    cases h
    exact .drops rfl rfl rfl hr
  | gaveUp e =>
    obtain ⟨r₁, hr, h⟩ := Option.map_eq_some_iff.mp h
    cases h
    exact .drops rfl rfl rfl hr
  | holds e => cases h
  | released => cases h
  | failed => cases h

theorem change_of_runGiveUp (h : runGiveUp variant r p = some (r', p')) :
    Change variant key r p r' p' := by
  cases p with
  | waits e =>
    obtain ⟨-, h⟩ := Option.ite_none_right_eq_some.mp h
    cases h
    exact .givesUp
  | starts => cases h
  | holds e => cases h
  | gaveBack e => cases h
  | gaveUp e => cases h
  | released => cases h
  | failed => cases h

theorem change_of_runRelease (h : runRelease r p = some (r', p')) :
    Change variant key r p r' p' := by
  cases p with
  | holds e =>
    obtain ⟨r₁, hr, h⟩ := Option.map_eq_some_iff.mp h
    cases h
    exact .givesBack hr
  | gaveBack e => cases h; exact .stays
  | released => cases h; exact .stays
  | starts => cases h
  | waits e => cases h
  | gaveUp e => cases h
  | failed => cases h

/-- What a step is: a caller arrives, or one caller changes. -/
inductive Moves (variant : Variant) (s : State κ) : State κ → Prop
  | arrives (key : κ) (cancelled : Bool) :
      Moves variant s { s with callers := s.callers ++ [⟨key, cancelled, .starts⟩] }
  | changes {i : Nat} {caller caller' : Caller κ} {r' : Registry κ}
      (hi : s.callers[i]? = some caller) (hkey : caller'.key = caller.key)
      (h : Change variant caller.key s.registry caller.phase r' caller'.phase) :
      Moves variant s ⟨r', s.callers.set i caller'⟩

omit [DecidableEq κ] in
theorem exists_of_move {result : Option (Registry κ × Phase)} (h : s.move i caller result = some s') :
    ∃ r' p', result = some (r', p') ∧ s' = ⟨r', s.callers.set i { caller with phase := p' }⟩ := by
  obtain ⟨⟨r', p'⟩, hr, rfl⟩ := Option.map_eq_some_iff.mp h
  exact ⟨r', p', hr, rfl⟩

theorem moves_of_step {e : Event κ} (h : step variant s e = some s') : Moves variant s s' := by
  cases e with
  | acquire key cancelled => cases h; exact .arrives key cancelled
  | cancel i =>
    obtain ⟨caller, hi, h⟩ := Option.bind_eq_some_iff.mp h
    cases h
    exact .changes hi rfl .stays
  | turn i =>
    obtain ⟨caller, hi, h⟩ := Option.bind_eq_some_iff.mp h
    obtain ⟨r', p', hr, rfl⟩ := exists_of_move h
    exact .changes hi rfl (change_of_runTurn hr)
  | giveUp i =>
    obtain ⟨caller, hi, h⟩ := Option.bind_eq_some_iff.mp h
    obtain ⟨-, h⟩ := Option.ite_none_right_eq_some.mp h
    obtain ⟨r', p', hr, rfl⟩ := exists_of_move h
    exact .changes hi rfl (change_of_runGiveUp hr)
  | release i =>
    obtain ⟨caller, hi, h⟩ := Option.bind_eq_some_iff.mp h
    obtain ⟨r', p', hr, rfl⟩ := exists_of_move h
    exact .changes hi rfl (change_of_runRelease hr)

/-! ## The entries -/

/-- Every entry has as many references and, with its token, as many holders as there are. -/
def Accounts (heap : List Entry) (users holders : Nat → Nat) : Prop :=
  ∀ (e : Nat) entry, heap[e]? = some entry →
    entry.refs = users e ∧ entry.token.toNat + holders e = 1

namespace Accounts

variable {heap : List Entry} {users users' holders holders' : Nat → Nat} {e : Nat} {entry : Entry}

theorem set (h : Accounts heap users holders) (hrefs : entry.refs = users' e)
    (htoken : entry.token.toNat + holders' e = 1) (husers : ∀ e' ≠ e, users' e' = users e')
    (hholders : ∀ e' ≠ e, holders' e' = holders e') :
    Accounts (heap.set e entry) users' holders' := by
  intro e' entry' he'
  by_cases heq : e' = e
  · subst heq
    rw [List.getElem?_set_self'] at he'
    obtain ⟨-, -, rfl⟩ := Option.map_eq_some_iff.mp he'
    exact ⟨hrefs, htoken⟩
  · rw [List.getElem?_set_ne (Ne.symm heq)] at he'
    rw [husers e' heq, hholders e' heq]
    exact h e' entry' he'

theorem append (h : Accounts heap users holders) (hrefs : entry.refs = users' heap.length)
    (htoken : entry.token.toNat + holders' heap.length = 1)
    (husers : ∀ e' ≠ heap.length, users' e' = users e')
    (hholders : ∀ e' ≠ heap.length, holders' e' = holders e') :
    Accounts (heap ++ [entry]) users' holders' := by
  intro e' entry' he'
  by_cases heq : e' = heap.length
  · subst heq
    rw [List.getElem?_concat_length] at he'
    cases he'
    exact ⟨hrefs, htoken⟩
  · have hlen := (List.getElem?_eq_some_iff.mp he').1
    rw [List.length_append, List.length_singleton] at hlen
    rw [List.getElem?_append_left (by omega)] at he'
    rw [husers e' heq, hholders e' heq]
    exact h e' entry' he'

end Accounts

/-! ## The invariant -/

structure Sound (s : State κ) : Prop where
  mapped : ∀ c ∈ s.callers, ∀ e, c.phase.uses = some e → s.registry.entries c.key = some e
  made : ∀ key e, s.registry.entries key = some e → e < s.registry.heap.length
  apart : ∀ key key' e, s.registry.entries key = some e → s.registry.entries key' = some e →
    key = key'
  used : ∀ key e, s.registry.entries key = some e → 0 < s.count Phase.uses e
  accounts : Accounts s.registry.heap (s.count Phase.uses) (s.count Phase.held)

namespace Sound

variable {s s' : State κ}

variable {e : Nat}

variable {p : Phase} {r' : Registry κ}

omit [DecidableEq κ] in
theorem start : Sound (⟨.new, []⟩ : State κ) where
  mapped := by simp
  made key e h := by cases h
  apart key key' e h := by cases h
  used key e h := by cases h
  accounts e entry h := by cases h

omit [DecidableEq κ] in
theorem count_eq_zero (hs : Sound s) (h : ∀ key, s.registry.entries key ≠ some e) :
    s.count Phase.uses e = 0 := by
  by_contra hne
  obtain ⟨c, hc, huses⟩ := count_pos_iff.mp (Nat.pos_of_ne_zero hne)
  exact h c.key (hs.mapped c hc e huses)

omit [DecidableEq κ] in
theorem held_le_uses (s : State κ) (e : Nat) : s.count Phase.held e ≤ s.count Phase.uses e := by
  refine List.countP_mono_left fun c _ h => ?_
  cases hp : c.phase with
  | holds e => rw [hp] at h; exact h
  | starts => rw [hp] at h; cases h
  | waits e => rw [hp] at h; cases h
  | gaveBack e => rw [hp] at h; cases h
  | gaveUp e => rw [hp] at h; cases h
  | released => rw [hp] at h; cases h
  | failed => rw [hp] at h; cases h

variable {i : Nat} {caller caller' : Caller κ}

theorem held_of_uses_none (h : p.uses = none) : p.held = none := by
  cases p with
  | holds e => cases h
  | starts => rfl
  | waits e => rfl
  | gaveBack e => rfl
  | gaveUp e => rfl
  | released => rfl
  | failed => rfl

theorem dropReference_of_mapped {r : Registry κ} {key : κ} {entry : Entry}
    (h : r.entries key = some e) (he : r.heap[e]? = some entry) :
    r.dropReference variant key e =
      some ⟨if entry.refs - 1 = 0 then Function.update r.entries key none else r.entries,
        r.heap.set e { entry with refs := entry.refs - 1 }⟩ := by
  have hdeletes : r.deletes key e variant = true := by
    cases variant with
    | backupPath => exact beq_iff_eq.mpr h
    | serverSession => rfl
  rw [Registry.dropReference, he]
  show (if (entry.refs - 1 == 0 && r.deletes key e variant) = true then some _ else some _) = _
  by_cases hzero : entry.refs - 1 = 0
  · rw [if_pos hzero, if_pos (by rw [hdeletes, hzero]; rfl)]
  · rw [if_neg hzero, if_neg fun h => hzero (beq_iff_eq.mp (Bool.and_eq_true_iff.mp h).1)]

omit [DecidableEq κ] in
theorem keeps (hs : Sound s) (hi : s.callers[i]? = some caller)
    (hkey : caller'.key = caller.key) (huses : caller'.phase.uses = caller.phase.uses)
    {heap : List Entry} (hlen : heap.length = s.registry.heap.length)
    (haccounts : Accounts heap (s.count Phase.uses)
      (State.count ⟨s.registry, s.callers.set i caller'⟩ Phase.held)) :
    Sound ⟨⟨s.registry.entries, heap⟩, s.callers.set i caller'⟩ where
  mapped c hc e he := by
    rcases List.mem_or_eq_of_mem_set hc with hc | rfl
    · exact hs.mapped c hc e he
    · rw [huses] at he
      rw [hkey]
      exact hs.mapped caller (List.mem_of_getElem? hi) e he
  made key e h := by
    rw [hlen]
    exact hs.made key e h
  apart := hs.apart
  used key e h := by
    rw [count_set_of_eq hi huses]
    exact hs.used key e h
  accounts e entry he := by
    rw [count_set_of_eq hi huses]
    exact haccounts e entry he

omit [DecidableEq κ] in
theorem joins (hs : Sound s) (hi : s.callers[i]? = some caller) (hkey : caller'.key = caller.key)
    {entry : Entry} (hp : caller.phase = .starts) (hp' : caller'.phase = .waits e)
    (hentry : s.registry.entries caller.key = some e) (he : s.registry.heap[e]? = some entry) :
    Sound ⟨⟨s.registry.entries, s.registry.heap.set e { entry with refs := entry.refs + 1 }⟩,
      s.callers.set i caller'⟩ := by
  have huses : caller.phase.uses = none ∧ caller'.phase.uses = some e := by
    rw [hp, hp']
    exact ⟨rfl, rfl⟩
  have hholds : caller'.phase.held = caller.phase.held := by rw [hp, hp']; rfl
  have hcomes := count_set_of_comes hi huses.1 huses.2
  have hheld := count_set_of_eq hi hholds
  obtain ⟨hrefs, htoken⟩ := hs.accounts e entry he
  refine ⟨fun c hc e' he' => ?_, fun key e' h => ?_, hs.apart, fun key e' h => ?_, ?_⟩
  · rcases List.mem_or_eq_of_mem_set hc with hc | rfl
    · exact hs.mapped c hc e' he'
    · rw [hp'] at he'
      cases he'
      rw [hkey]
      exact hentry
  · rw [List.length_set]
    exact hs.made key e' h
  · rw [hcomes]
    exact Nat.add_pos_left (hs.used key e' h) _
  · refine hs.accounts.set ?_ ?_ (fun e' hne => ?_) fun e' _ => hheld _ e'
    · rw [hcomes, if_pos rfl]
      show entry.refs + 1 = _
      omega
    · rw [hheld]
      exact htoken
    · rw [hcomes, if_neg hne]
      rfl

theorem makes (hs : Sound s) (hi : s.callers[i]? = some caller)
    (hkey : caller'.key = caller.key) (hp : caller.phase = .starts)
    (hp' : caller'.phase = .waits s.registry.heap.length)
    (hnone : s.registry.entries caller.key = none) :
    Sound ⟨⟨Function.update s.registry.entries caller.key (some s.registry.heap.length),
      s.registry.heap ++ [⟨true, 1⟩]⟩, s.callers.set i caller'⟩ := by
  have huses : caller.phase.uses = none ∧ caller'.phase.uses = some s.registry.heap.length := by
    rw [hp, hp']
    exact ⟨rfl, rfl⟩
  have hholds : caller'.phase.held = caller.phase.held := by rw [hp, hp']; rfl
  have hcomes := count_set_of_comes hi huses.1 huses.2
  have hheld := count_set_of_eq hi hholds
  have hunused : s.count Phase.uses s.registry.heap.length = 0 :=
    hs.count_eq_zero fun key h => Nat.lt_irrefl _ (hs.made key _ h)
  have hentry : ∀ key e',
      Function.update s.registry.entries caller.key (some s.registry.heap.length) key = some e' →
      key = caller.key ∧ e' = s.registry.heap.length ∨
        key ≠ caller.key ∧ s.registry.entries key = some e' := by
    intro key e' h
    by_cases hk : key = caller.key
    · rw [hk, Function.update_self] at h
      exact .inl ⟨hk, (Option.some.inj h).symm⟩
    · rw [Function.update_of_ne hk] at h
      exact .inr ⟨hk, h⟩
  refine ⟨fun c hc e' he' => ?_, fun key e' h => ?_, fun key key' e' h h' => ?_,
    fun key e' h => ?_, ?_⟩
  · rcases List.mem_or_eq_of_mem_set hc with hc | rfl
    · have hmapped := hs.mapped c hc e' he'
      have hne : c.key ≠ caller.key := by
        intro heq
        rw [heq, hnone] at hmapped
        cases hmapped
      exact (Function.update_of_ne hne ..).trans hmapped
    · rw [hp'] at he'
      cases he'
      rw [hkey]
      exact Function.update_self ..
  · show e' < (s.registry.heap ++ _).length
    rw [List.length_append]
    rcases hentry key e' h with ⟨-, rfl⟩ | ⟨-, h⟩
    · simp
    · have := hs.made key e' h
      omega
  · rcases hentry key e' h with ⟨rfl, rfl⟩ | ⟨hk, h⟩ <;>
      rcases hentry key' _ h' with ⟨rfl, hlen⟩ | ⟨hk', h'⟩
    · rfl
    · exact (Nat.lt_irrefl _ (hs.made key' _ h')).elim
    · exact (Nat.lt_irrefl _ (hs.made key _ (hlen ▸ h))).elim
    · exact hs.apart key key' e' h h'
  · rw [hcomes]
    rcases hentry key e' h with ⟨-, rfl⟩ | ⟨-, h⟩
    · rw [if_pos rfl]
      omega
    · exact Nat.add_pos_left (hs.used key e' h) _
  · refine hs.accounts.append ?_ ?_ (fun e' hne => ?_) fun e' _ => hheld _ e'
    · rw [hcomes, if_pos rfl, hunused]
      rfl
    · rw [hheld]
      have := held_le_uses s s.registry.heap.length
      show 1 + _ = 1
      omega
    · rw [hcomes, if_neg hne]
      rfl

/-- A caller drops its reference. The entry is that of its key, so it is deleted when
nobody else uses it. -/
theorem drops (hs : Sound s) (hi : s.callers[i]? = some caller) (hkey : caller'.key = caller.key)
    (hp : caller.phase.uses = some e) (hheld : caller.phase.held = none)
    (hp' : caller'.phase.uses = none) (h : s.registry.dropReference variant caller.key e = some r') :
    Sound ⟨r', s.callers.set i caller'⟩ := by
  have hentry := hs.mapped caller (List.mem_of_getElem? hi) e hp
  have hheld' := count_set_of_eq hi ((held_of_uses_none hp').trans hheld.symm)
  have hleaves := count_set_of_leaves hi hp hp'
  have hrest : ∀ r' e', e' ≠ e →
      State.count ⟨r', s.callers.set i caller'⟩ Phase.uses e' = s.count Phase.uses e' := by
    intro r' e' hne
    have := hleaves r' e'
    rwa [if_neg hne] at this
  obtain ⟨entry, he, -⟩ := Option.bind_eq_some_iff.mp h
  rw [dropReference_of_mapped hentry he] at h
  obtain ⟨hrefs, htoken⟩ := hs.accounts e entry he
  have haccounts : Accounts (s.registry.heap.set e { entry with refs := entry.refs - 1 })
      (State.count ⟨r', s.callers.set i caller'⟩ Phase.uses)
      (State.count ⟨r', s.callers.set i caller'⟩ Phase.held) := by
    refine hs.accounts.set ?_ ?_ (fun e' hne => ?_) fun e' _ => hheld' _ e'
    · have := hleaves r' e
      rw [if_pos rfl] at this
      show entry.refs - 1 = _
      omega
    · rw [hheld']
      exact htoken
    · exact hrest _ e' hne
  have hmapped : ∀ c ∈ s.callers.set i caller', ∀ e', c.phase.uses = some e' →
      s.registry.entries c.key = some e' := by
    intro c hc e' he'
    rcases List.mem_or_eq_of_mem_set hc with hc | rfl
    · exact hs.mapped c hc e' he'
    · rw [hp'] at he'
      cases he'
  have hlast := hleaves r' e
  rw [if_pos rfl] at hlast
  by_cases hzero : entry.refs - 1 = 0
  · rw [if_pos hzero] at h
    cases h
    have hother : ∀ key e', Function.update s.registry.entries caller.key none key = some e' →
        e' ≠ e ∧ s.registry.entries key = some e' := by
      intro key e' h
      by_cases hk : key = caller.key
      · rw [hk, Function.update_self] at h
        cases h
      · rw [Function.update_of_ne hk] at h
        refine ⟨?_, h⟩
        rintro rfl
        exact hk (hs.apart _ _ _ h hentry)
    refine ⟨fun c hc e' he' => ?_, fun key e' h => ?_, fun key key' e' h h' => ?_,
      fun key e' h => ?_, haccounts⟩
    · have hc' := hmapped c hc e' he'
      -- the key of another user of this entry is not deleted: the count says there is none
      have hne : c.key ≠ caller.key := by
        intro heq
        rw [heq, hentry] at hc'
        cases hc'
        have hpos := count_pos_iff.mpr ⟨c, hc, he'⟩
        omega
      exact (Function.update_of_ne hne ..).trans hc'
    · rw [List.length_set]
      exact hs.made key e' (hother key e' h).2
    · exact hs.apart key key' e' (hother key e' h).2 (hother key' e' h').2
    · rw [hrest _ e' (hother key e' h).1]
      exact hs.used key e' (hother key e' h).2
  · rw [if_neg hzero] at h
    cases h
    refine ⟨hmapped, fun key e' h => ?_, hs.apart, fun key e' h => ?_, haccounts⟩
    · rw [List.length_set]
      exact hs.made key e' h
    · by_cases he' : e' = e
      · subst he'
        exact Nat.pos_of_ne_zero fun hnone => hzero (by omega)
      · rw [hrest _ e' he']
        exact hs.used key e' h

theorem changes (hs : Sound s) (hi : s.callers[i]? = some caller) (hkey : caller'.key = caller.key)
    (h : Change variant caller.key s.registry caller.phase r' caller'.phase) :
    Sound ⟨r', s.callers.set i caller'⟩ := by
  generalize hp : caller.phase = p at h
  generalize hp' : caller'.phase = p' at h
  cases h with
  | @registers _ e h =>
    cases hentry : s.registry.entries caller.key with
    | none =>
      rw [Registry.lookUp, hentry] at h
      cases h
      exact hs.makes hi hkey hp hp' hentry
    | some e₁ =>
      rw [Registry.lookUp, hentry] at h
      obtain ⟨entry, he, h⟩ := Option.bind_eq_some_iff.mp h
      cases h
      exact hs.joins hi hkey hp hp' hentry he
  | @takes _ e h =>
    obtain ⟨entry, he, h⟩ := Option.bind_eq_some_iff.mp h
    obtain ⟨htoken, h⟩ := Option.ite_none_right_eq_some.mp h
    cases h
    refine hs.keeps hi hkey (by rw [hp, hp']; rfl) List.length_set ?_
    have hcomes := count_set_of_comes (f := Phase.held) hi (by rw [hp]; rfl) (by rw [hp']; rfl)
    obtain ⟨hrefs, hone⟩ := hs.accounts e entry he
    rw [htoken] at hone
    refine hs.accounts.set hrefs ?_ (fun _ _ => rfl) fun e' hne => ?_
    · rw [hcomes, if_pos rfl]
      show 0 + _ = 1
      have : s.count Phase.held e = 0 := by simpa using hone
      omega
    · rw [hcomes, if_neg hne]
      rfl
  | @givesBack _ e h =>
    obtain ⟨entry, he, h⟩ := Option.bind_eq_some_iff.mp h
    obtain ⟨htoken, h⟩ := Option.ite_none_left_eq_some.mp h
    cases h
    refine hs.keeps hi hkey (by rw [hp, hp']; rfl) List.length_set ?_
    have hleaves := count_set_of_leaves (f := Phase.held) hi (by rw [hp]; rfl) (by rw [hp']; rfl)
    obtain ⟨hrefs, hone⟩ := hs.accounts e entry he
    rw [Bool.not_eq_true] at htoken
    rw [htoken] at hone
    refine hs.accounts.set hrefs ?_ (fun _ _ => rfl) fun e' hne => ?_
    · have hlast := hleaves s.registry e
      rw [if_pos rfl] at hlast
      have : s.count Phase.held e = 1 := by simpa using hone
      show 1 + _ = 1
      omega
    · have hother := hleaves s.registry e'
      rwa [if_neg hne] at hother
  | @givesUp e =>
    refine hs.keeps hi hkey (by rw [hp, hp']; rfl) rfl ?_
    intro e' entry he'
    rw [count_set_of_eq hi (by rw [hp, hp']; rfl)]
    exact hs.accounts e' entry he'
  | drops huses hheld huses' h =>
    exact hs.drops hi hkey (hp ▸ huses) (hp ▸ hheld) (hp' ▸ huses') h
  | stays =>
    refine hs.keeps hi hkey (by rw [hp, hp']) rfl ?_
    intro e' entry he'
    rw [count_set_of_eq hi (by rw [hp, hp'])]
    exact hs.accounts e' entry he'

theorem moves (hs : Sound s) (h : Moves variant s s') : Sound s' := by
  cases h with
  | arrives key cancelled =>
    have hcount : ∀ of : Phase → Option Nat, of .starts = none → ∀ e,
        State.count { s with callers := s.callers ++ [⟨key, cancelled, .starts⟩] } of e =
          s.count of e := by
      intro of hof e
      simp [State.count, List.countP_append, hof]
    refine ⟨fun c hc e he => ?_, hs.made, hs.apart, fun key e h => ?_, fun e entry he => ?_⟩
    · rcases List.mem_append.mp hc with hc | hc
      · exact hs.mapped c hc e he
      · cases List.mem_singleton.mp hc
        cases he
    · rw [hcount _ rfl]
      exact hs.used key e h
    · rw [hcount _ rfl, hcount _ rfl]
      exact hs.accounts e entry he
  | @changes i caller caller' r' hi hkey h =>
    exact hs.changes hi hkey h

theorem of_reachable (h : (system variant).Reachable s) : Sound s :=
  h.invariant (fun _ hinit => hinit ▸ start) fun _ _ _ hs _ hstep => hs.moves (moves_of_step hstep)

theorem uses_of_held (h : p.held = some e) : p.uses = some e := by
  cases p with
  | holds e => exact h
  | starts => cases h
  | waits e => cases h
  | gaveBack e => cases h
  | gaveUp e => cases h
  | released => cases h
  | failed => cases h

theorem holders_le_one (hs : Sound s) (key : κ) : s.holders key ≤ 1 := by
  rcases Nat.eq_zero_or_pos (s.holders key) with hzero | hpos
  · omega
  · obtain ⟨c, hc, hholds⟩ := List.countP_pos_iff.mp hpos
    obtain ⟨rfl, hsome⟩ := of_decide_eq_true hholds
    obtain ⟨e, he⟩ := Option.isSome_iff_exists.mp hsome
    have hentry := hs.mapped c hc e (uses_of_held he)
    obtain ⟨entry, hheap⟩ : ∃ entry, s.registry.heap[e]? = some entry :=
      ⟨_, List.getElem?_eq_getElem (hs.made _ e hentry)⟩
    -- whoever holds this key holds this entry, and an entry has one token
    have hle : s.holders c.key ≤ s.count Phase.held e := by
      refine List.countP_mono_left fun c' hc' h => ?_
      obtain ⟨hkey, hsome'⟩ := of_decide_eq_true h
      obtain ⟨e', he'⟩ := Option.isSome_iff_exists.mp hsome'
      have hentry' := hs.mapped c' hc' e' (uses_of_held he')
      rw [hkey, hentry] at hentry'
      cases hentry'
      exact beq_iff_eq.mpr he'
    have := (hs.accounts e entry hheap).2
    omega

theorem fenced (hs : Sound s) : Fenced Phase.uses s where
  exclusive := hs.holders_le_one
  same c hc c' hc' hkey e e' he he' := by
    have hentry := hs.mapped c hc e he
    have hentry' := hs.mapped c' hc' e' he'
    rw [hkey, hentry'] at hentry
    exact (Option.some.inj hentry).symm
  refs e entry he := (hs.accounts e entry he).1
  needed key e h := by
    obtain ⟨c, hc, huses⟩ := count_pos_iff.mp (hs.used key e h)
    exact ⟨c, hc, hs.apart _ _ e (hs.mapped c hc e huses) h, huses⟩

end Sound

/-! ## The registries -/

/-- Both registries keep the callers of a key apart, count those that hold it, wait for it or
are leaving it, and have no entry for a key without such a caller: whatever the callers do, in
any order. -/
theorem keyed_locks_fenced {s : State κ} (h : (system variant).Reachable s) :
    Fenced Phase.uses s :=
  (Sound.of_reachable h).fenced

/-- Two callers of one key, of which the second gives up, and the first calls its release
function twice. -/
def twoCallers : List (Event Nat) :=
  [.acquire 7 false, .turn 0, .turn 0, .acquire 7 false, .turn 1, .cancel 1, .giveUp 1,
    .release 0, .release 0, .turn 0]

theorem twoCallers_runs : ((system .backupPath).exec ⟨.new, []⟩ twoCallers).isSome := rfl

theorem keyed_locks_fenced_twoCallers :
    Fenced Phase.uses (((system .backupPath).exec ⟨.new, []⟩ twoCallers).get twoCallers_runs) :=
  keyed_locks_fenced (.of_exec rfl (Option.some_get _).symm)

/-- A caller that has given the token back and has not dropped its reference is counted while
it neither holds the key nor waits for it. -/
theorem not_keyed_locks_inUse : ¬∀ s : State Nat, ∀ variant,
    (system variant).Reachable s → Fenced Phase.inUse s := by
  intro h
  have hrun : (system .serverSession).exec (⟨.new, []⟩ : State Nat)
      [.acquire 7 false, .turn 0, .turn 0, .release 0] =
        some ⟨⟨Function.update (fun _ => none) 7 (some 0), [⟨true, 1⟩]⟩,
          [⟨7, false, .gaveBack 0⟩]⟩ := rfl
  have hrefs := (h _ .serverSession (.of_exec rfl hrun)).refs 0 ⟨true, 1⟩ rfl
  cases hrefs

end HyperFileLens.Engine.KeyedLocks
