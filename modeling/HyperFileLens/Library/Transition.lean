import Mathlib.Data.List.Basic

/-!
# Labelled transition systems

A system is a predicate on initial states and a partial step function. A label
carries everything the environment chooses, so a step is a function and a run
is a list of labels.

*Paths.*  `Path ok s s'` says the system can move from `s` to `s'` by steps
that all satisfy the side condition `ok`. `ReachableUnder ok` starts the path
in an initial state. With the trivial side condition this is `Reachable`.

*Rules.*  `Path.invariant` and `ReachableUnder.invariant` package the induction
on the length of a run. `every_congr` compares two properties of transitions
along a run when they agree on the transitions out of reachable states,
`every_congr_of_invariant` when they agree under an invariant.
-/

namespace Transition

/-- A labelled transition system. A label that is not enabled has no
successor. -/
structure System (σ : Type*) (α : Type*) where
  /-- The initial states. -/
  init : σ → Prop
  /-- The successor of a state under a label. -/
  step : σ → α → Option σ

namespace System

variable {σ : Type*} {α : Type*} (T : System σ α)

/-- The side condition that allows every step. -/
def always (_ : σ) (_ : α) : Prop := True

/-- Moves whose steps all satisfy `ok`, a condition on the state before the
step and on its label. -/
inductive Path (ok : σ → α → Prop) : σ → σ → Prop
  | refl (s : σ) : Path ok s s
  | tail {s s' s'' : σ} {a : α} :
      Path ok s s' → ok s' a → T.step s' a = some s'' → Path ok s s''

/-- States reached from an initial state by steps that all satisfy `ok`. -/
def ReachableUnder (ok : σ → α → Prop) (s : σ) : Prop :=
  ∃ s₀, T.init s₀ ∧ T.Path ok s₀ s

def Reachable (s : σ) : Prop := T.ReachableUnder always s

/-- The state after a list of labels, if all of them are enabled. -/
def exec (s : σ) (as : List α) : Option σ := as.foldlM T.step s

/-- Every transition of the run of `as` from `s` satisfies `P`. The run ends at
the first label that is not enabled. -/
def Every (P : σ → α → σ → Prop) : σ → List α → Prop
  | _, [] => True
  | s, a :: as =>
    match T.step s a with
    | none => True
    | some s' => P s a s' ∧ Every P s' as

instance decidableEvery (P : σ → α → σ → Prop) [∀ s a s', Decidable (P s a s')] :
    ∀ s as, Decidable (T.Every P s as)
  | _, [] => isTrue trivial
  | s, a :: as =>
    match h : T.step s a with
    | none => isTrue (by simp only [Every, h])
    | some s' =>
      have := decidableEvery P s' as
      decidable_of_iff (P s a s' ∧ T.Every P s' as) (by simp only [Every, h])

variable {T}

/-! ## Paths -/

variable {ok : σ → α → Prop}

theorem Path.single {s s' : σ} {a : α} (h : ok s a) (hs : T.step s a = some s') :
    T.Path ok s s' :=
  .tail (.refl s) h hs

theorem Path.trans {s s' s'' : σ} (h : T.Path ok s s') (h' : T.Path ok s' s'') :
    T.Path ok s s'' := by
  induction h' with
  | refl => exact h
  | tail _ hok hs ih => exact .tail ih hok hs

theorem Path.mono {ok ok' : σ → α → Prop} (himp : ∀ s a, ok s a → ok' s a)
    {s s' : σ} (h : T.Path ok s s') : T.Path ok' s s' := by
  induction h with
  | refl => exact .refl s
  | tail _ hok hs ih => exact .tail ih (himp _ _ hok) hs

theorem Path.invariant {I : σ → Prop} (hstep : ∀ s a s', I s → ok s a → T.step s a = some s' → I s')
    {s s' : σ} (h : T.Path ok s s') (hI : I s) : I s' := by
  induction h with
  | refl => exact hI
  | tail _ hok hs ih => exact hstep _ _ _ ih hok hs

theorem Path.relation {R : σ → σ → Prop} (hrefl : ∀ s, R s s)
    (htrans : ∀ s s' s'', R s s' → R s' s'' → R s s'')
    (hstep : ∀ s a s', ok s a → T.step s a = some s' → R s s') {s s' : σ} (h : T.Path ok s s') :
    R s s' := by
  induction h with
  | refl => exact hrefl s
  | tail _ hok hs ih => exact htrans _ _ _ ih (hstep _ _ _ hok hs)

/-- The labels of a successful `exec` form a path when all its steps satisfy the
side condition. -/
theorem Path.of_exec {as : List α} {s s' : σ} (h : T.exec s as = some s') : T.Path always s s' := by
  induction as generalizing s with
  | nil =>
    simp only [exec, List.foldlM_nil, Option.pure_def, Option.some.injEq] at h
    exact h ▸ .refl s
  | cons a as ih =>
    simp only [exec, List.foldlM_cons, Option.bind_eq_bind] at h
    obtain ⟨t, ht, hrest⟩ := Option.bind_eq_some_iff.mp h
    exact (Path.single trivial ht).trans (ih hrest)

/-! ## Reachable states -/

theorem ReachableUnder.start {s : σ} (h : T.init s) : T.ReachableUnder ok s :=
  ⟨s, h, .refl s⟩

theorem ReachableUnder.step {s s' : σ} {a : α} (h : T.ReachableUnder ok s) (hok : ok s a)
    (hs : T.step s a = some s') : T.ReachableUnder ok s' := by
  obtain ⟨s₀, h₀, hp⟩ := h
  exact ⟨s₀, h₀, .tail hp hok hs⟩

theorem ReachableUnder.mono {ok ok' : σ → α → Prop} (himp : ∀ s a, ok s a → ok' s a)
    {s : σ} (h : T.ReachableUnder ok s) : T.ReachableUnder ok' s := by
  obtain ⟨s₀, h₀, hp⟩ := h
  exact ⟨s₀, h₀, hp.mono himp⟩

/-- The invariant rule: what holds initially and is preserved by every allowed
step holds of every state reached by allowed steps. -/
theorem ReachableUnder.invariant {I : σ → Prop} (hinit : ∀ s, T.init s → I s)
    (hstep : ∀ s a s', I s → ok s a → T.step s a = some s' → I s') {s : σ}
    (h : T.ReachableUnder ok s) : I s := by
  obtain ⟨s₀, h₀, hp⟩ := h
  exact hp.invariant hstep (hinit s₀ h₀)

/-- A state reached by `exec` from an initial state is reachable. -/
theorem Reachable.of_exec {as : List α} {s₀ s : σ} (h₀ : T.init s₀)
    (h : T.exec s₀ as = some s) : T.Reachable s :=
  ⟨s₀, h₀, .of_exec h⟩

/-- A state reached by an `exec` whose steps all satisfy the side condition. -/
theorem ReachableUnder.of_exec {as : List α} {s₀ s : σ} (hr : T.ReachableUnder ok s₀)
    (hok : T.Every (fun s a _ => ok s a) s₀ as) (h : T.exec s₀ as = some s) :
    T.ReachableUnder ok s := by
  induction as generalizing s₀ with
  | nil =>
    simp only [exec, List.foldlM_nil, Option.pure_def, Option.some.injEq] at h
    exact h ▸ hr
  | cons a as ih =>
    simp only [exec, List.foldlM_cons, Option.bind_eq_bind] at h
    obtain ⟨t, ht, hrest⟩ := Option.bind_eq_some_iff.mp h
    simp only [Every, ht] at hok
    exact ih (hr.step hok.1 ht) hok.2 hrest

/-! ## Properties of the transitions of a run -/

@[simp] theorem every_nil (P : σ → α → σ → Prop) (s : σ) : T.Every P s [] := trivial

variable {P : σ → α → σ → Prop}

theorem every_cons_of_some {s s' : σ} {a : α} {as : List α} (hs : T.step s a = some s') :
    T.Every P s (a :: as) ↔ P s a s' ∧ T.Every P s' as := by
  simp only [Every, hs]

theorem every_cons_of_none {s : σ} {a : α} {as : List α} (hs : T.step s a = none) :
    T.Every P s (a :: as) := by
  simp only [Every, hs]

variable {P Q : σ → α → σ → Prop}

/-- Two properties that agree on the transitions out of the states of an invariant
hold along the same runs, when the transitions that have the first one keep the
invariant. -/
theorem every_congr_of_invariant {I : σ → Prop}
    (hPQ : ∀ s a s', I s → T.step s a = some s' → (P s a s' ↔ Q s a s'))
    (hI : ∀ s a s', I s → T.step s a = some s' → P s a s' → I s') {s : σ} (hs : I s) (as : List α) :
    T.Every P s as ↔ T.Every Q s as := by
  induction as generalizing s with
  | nil => simp
  | cons a as ih =>
    cases hstep : T.step s a with
    | none => exact ⟨fun _ => every_cons_of_none hstep, fun _ => every_cons_of_none hstep⟩
    | some s' =>
      rw [every_cons_of_some hstep, every_cons_of_some hstep, ← hPQ s a s' hs hstep]
      exact and_congr_right fun hP => ih (hI s a s' hs hstep hP)

/-- A property that the transitions out of the states of an invariant have, together with
the invariant afterwards, whenever they have another one. -/
theorem every_of_invariant {I : σ → Prop}
    (hstep : ∀ s a s', I s → T.step s a = some s' → Q s a s' → I s' ∧ P s a s') {s : σ} (hs : I s)
    {as : List α} (h : T.Every Q s as) : T.Every P s as := by
  induction as generalizing s with
  | nil => trivial
  | cons a as ih =>
    cases hstep' : T.step s a with
    | none => exact every_cons_of_none hstep'
    | some s' =>
      rw [every_cons_of_some hstep'] at h ⊢
      obtain ⟨hI, hP⟩ := hstep s a s' hs hstep' h.1
      exact ⟨hP, ih hI h.2⟩

theorem every_of_forall {as : List α} (h : ∀ a ∈ as, ∀ s s', P s a s') {s : σ} :
    T.Every P s as := by
  induction as generalizing s with
  | nil => trivial
  | cons a as ih =>
    cases hs : T.step s a with
    | none => exact every_cons_of_none hs
    | some s' =>
      rw [every_cons_of_some hs]
      exact ⟨h a List.mem_cons_self s s', ih fun b hb => h b (List.mem_cons_of_mem a hb)⟩

/-- Two properties that agree on the transitions out of reachable states hold
along the same runs. -/
theorem every_congr (hPQ : ∀ s a s', T.Reachable s → T.step s a = some s' → (P s a s' ↔ Q s a s'))
    {s : σ} (hr : T.Reachable s) (as : List α) : T.Every P s as ↔ T.Every Q s as :=
  every_congr_of_invariant hPQ (fun _ _ _ h hs _ => h.step trivial hs) hr as

end System

theorem ok_of_toOption {ε α : Type*} {x : Except ε α} {a : α} (h : x.toOption = some a) :
    x = .ok a := by
  cases x with
  | error error => cases h
  | ok value => exact congrArg Except.ok (Option.some.inj h)

theorem map_eq_ok {ε α β : Type*} {x : Except ε α} {f : α → β} {b : β} :
    x.map f = .ok b ↔ ∃ a, x = .ok a ∧ f a = b := by
  cases x with
  | error error => simp [Except.map]
  | ok value => simp [Except.map]

theorem bind_eq_ok {ε : Type*} {α β : Type} {x : Except ε α} {f : α → Except ε β} {b : β} :
    x >>= f = .ok b ↔ ∃ a, x = .ok a ∧ f a = .ok b := by
  cases x with
  | error error =>
    constructor
    · intro h
      cases h
    · rintro ⟨_, h, _⟩
      cases h
  | ok value =>
    constructor
    · exact fun h => ⟨value, rfl, h⟩
    · rintro ⟨_, h, hf⟩
      exact Except.ok.inj h ▸ hf

end Transition
