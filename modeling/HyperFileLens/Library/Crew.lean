import HyperFileLens.Library.Pool

/-!
# Clients that own things

Clients in parallel, of a service that knows which client calls. What a client owns,
the others leave alone, and it ends with the client.

*Events.*  A client starts at any time with the program of a job, makes its calls in any
order with those of the others, and may be stopped between any two of them.

*Calls.*  The clients make only the calls that their jobs allow (`Keeping`).

*Rely.*  `Rely` fixes what every state of a run has, what a client can rely on while the
others move the state, and what holds when a client makes a call. `Rely.Safe` follows
the program of a client under it.

*Rule.*  When the calls keep the rely of the other clients, every client of every run is
safe (`Rely.sound_of_reachable`), and what a program promises of its end holds when it ends
(`Rely.Sound.step`).

*Lasting promises.*  When what the clients promise of their ends stays while the others
move the state, it holds in every later state (`Rely.Steadfast.step`).

*Alone.*  `Prog.Alone` follows the program of a client that nobody disturbs to its end.
-/

namespace Service

open Transition

/-- Go on with the error of a program that fails, as a value. -/
def Prog.attempt {Req : Type} {Ans : Req → Type} {ε ε' α : Type} :
    Prog Req Ans ε α → Prog Req Ans ε' (Except ε α)
  | .ret a => .ret (.ok a)
  | .fail error => .ret (.error error)
  | .cut => .cut
  | .call r k => .call r fun a => (k a).attempt

structure Host (σ Req : Type) (Ans : Req → Type) (Choice : Type) where
  /-- The answer to a client and the state after it, as the environment chooses. -/
  respond : Nat → σ → (r : Req) → Choice → Ans r × σ
  /-- What is left of the state when a client stops. -/
  release : Nat → σ → σ

inductive CrewEvent (Job Choice Env : Type) where
  | start (job : Job)
  | call (i : Nat) (choice : Choice)
  | stop (i : Nat)
  | env (e : Env)

section Crew

variable {σ Req : Type} {Ans : Req → Type} {ε α Job Choice Env : Type}
  (S : Host σ Req Ans Choice) (body : Job → Prog Req Ans ε α) (environment : σ → Env → σ)

def crewStep (s : Pool σ Req Ans ε α Job) :
    CrewEvent Job Choice Env → Option (Pool σ Req Ans ε α Job)
  | .start job => some { s with
      client := Function.update s.client s.next (some (job, body job)), next := s.next + 1 }
  | .call i choice =>
    match s.client i with
    | some (job, .call r k) =>
      let answer := S.respond i s.state r choice
      some { s with
        state := answer.2, client := Function.update s.client i (some (job, k answer.1)) }
    | _ => none
  | .stop i =>
    match s.client i with
    | some (job, _) => some { s with
        state := S.release i s.state, client := Function.update s.client i (some (job, .cut)) }
    | none => none
  | .env e => some { s with state := environment s.state e }

def crewSystem (init : σ → Prop) : System (Pool σ Req Ans ε α Job) (CrewEvent Job Choice Env) where
  init := fun s => init s.state ∧ (∀ i, s.client i = none)
  step := crewStep S body environment

variable {S body environment} {init : σ → Prop} {s s' : Pool σ Req Ans ε α Job}

variable {i : Nat} {a : CrewEvent Job Choice Env}

theorem crewStep_call {choice : Choice}
    (h : crewStep S body environment s (.call i choice) = some s') :
    ∃ job r k, s.client i = some (job, .call r k) ∧ s' = { s with
        state := (S.respond i s.state r choice).2
        client := Function.update s.client i (some (job, k (S.respond i s.state r choice).1)) } := by
  rw [crewStep] at h
  split at h
  · rename_i job r k hclient
    exact ⟨job, r, k, hclient, (Option.some.inj h).symm⟩
  · cases h

theorem crewStep_stop (h : crewStep S body environment s (.stop i) = some s') :
    ∃ job p, s.client i = some (job, p) ∧ s' = { s with
        state := S.release i s.state, client := Function.update s.client i (some (job, .cut)) } := by
  rw [crewStep] at h
  split at h
  · rename_i job p hclient
    exact ⟨job, p, hclient, (Option.some.inj h).symm⟩
  · cases h

def Fresh (s : Pool σ Req Ans ε α Job) : Prop := ∀ i, s.next ≤ i → s.client i = none

theorem Fresh.step (h : Fresh s) (hs : crewStep S body environment s a = some s') : Fresh s' := by
  have hknown {i : Nat} {x : Job × Prog Req Ans ε α} (hi : s.client i = some x) : i < s.next :=
    Nat.lt_of_not_le fun hle => by cases hi.symm.trans (h i hle)
  cases a with
  | start job =>
    cases hs
    intro j hj
    have hlt : s.next < j := hj
    show Function.update s.client s.next _ j = none
    rw [Function.update_of_ne (by omega)]
    exact h j (by omega)
  | call i choice =>
    obtain ⟨job, r, k, hcall, rfl⟩ := crewStep_call hs
    intro j hj
    have hlt := hknown hcall
    have hle : s.next ≤ j := hj
    show Function.update s.client i _ j = none
    rw [Function.update_of_ne (by omega)]
    exact h j hj
  | stop i =>
    obtain ⟨job, p, hstop, rfl⟩ := crewStep_stop hs
    intro j hj
    have hlt := hknown hstop
    have hle : s.next ≤ j := hj
    show Function.update s.client i _ j = none
    rw [Function.update_of_ne (by omega)]
    exact h j hj
  | env e =>
    cases hs
    exact h

/-- What is left of the program of every client makes only calls of its job. -/
def Keeping (G : Job → Req → Prop) (s : Pool σ Req Ans ε α Job) : Prop :=
  ∀ {i job p}, s.client i = some (job, p) → p.Makes (G job)

theorem Keeping.step {G : Job → Req → Prop} (h : Keeping G s)
    (hbody : ∀ job, a = .start job → (body job).Makes (G job))
    (hs : crewStep S body environment s a = some s') : Keeping G s' := by
  cases a with
  | start job =>
    cases hs
    intro i job' p hclient
    by_cases hi : i = s.next
    · subst hi
      obtain ⟨rfl, rfl⟩ : job = job' ∧ body job = p := by simpa using hclient
      exact hbody job rfl
    · exact h (by simpa [hi] using hclient)
  | call i choice =>
    obtain ⟨job, r, k, hcall, rfl⟩ := crewStep_call hs
    intro j job' p hclient
    by_cases hj : j = i
    · subst hj
      obtain ⟨rfl, rfl⟩ :
          job = job' ∧ k (S.respond j s.state r choice).1 = p := by simpa using hclient
      exact (h hcall).2 _
    · exact h (by simpa [hj] using hclient)
  | stop i =>
    obtain ⟨job, p, hstop, rfl⟩ := crewStep_stop hs
    intro j job' p' hclient
    by_cases hj : j = i
    · subst hj
      obtain ⟨rfl, rfl⟩ : job = job' ∧ Prog.cut = p' := by simpa using hclient
      trivial
    · exact h (by simpa [hj] using hclient)
  | env e =>
    cases hs
    exact h

end Crew

/-! ## Rely -/

/-- What the clients of a service rely on and what they promise. -/
structure Rely (σ Req : Type) where
  /-- What every state has. -/
  keeps : σ → Prop
  /-- How the state moves while a client waits. -/
  moves : Nat → σ → σ → Prop
  /-- What holds when a client makes a call. -/
  guards : Nat → σ → Req → Prop
  refl : ∀ i s, moves i s s
  trans : ∀ {i s s' s''}, moves i s s' → moves i s' s'' → moves i s s''

namespace Rely

section Safe

variable {σ Req : Type} {Ans : Req → Type} {Choice ε α β : Type} (R : Rely σ Req)
  (S : Host σ Req Ans Choice)

/-- Every call of the program of a client is guarded, however the others have moved the
state before it. The program returns values with a postcondition, and fails with
another one. -/
def Safe (i : Nat) (E : ε → σ → Prop) : Prog Req Ans ε α → (α → σ → Prop) → σ → Prop
  | .ret a, Q, s => Q a s
  | .fail error, _, s => E error s
  | .cut, _, _ => True
  | .call r k, Q, s => ∀ s', R.keeps s' → R.moves i s s' → R.guards i s' r ∧
      ∀ c, Safe i E (k (S.respond i s' r c).1) Q (S.respond i s' r c).2

variable {R S} {i : Nat} {E F : ε → σ → Prop} {s : σ}

variable {p : Prog Req Ans ε α}

variable {f : α → Prog Req Ans ε β}

theorem Safe.mono {Q Q' : α → σ → Prop} (h : R.Safe S i E p Q s) (hE : ∀ e t, E e t → F e t)
    (hQ : ∀ a t, Q a t → Q' a t) : R.Safe S i F p Q' s := by
  induction p generalizing s with
  | ret a => exact hQ a s h
  | fail error => exact hE error s h
  | cut => trivial
  | call r k ih =>
    intro s' hkeeps hmoves
    obtain ⟨hguard, hrest⟩ := h s' hkeeps hmoves
    exact ⟨hguard, fun c => ih _ (hrest c)⟩

variable {Q : β → σ → Prop}

theorem Safe.bind (h : R.Safe S i E p (fun a t => R.Safe S i E (f a) Q t) s) :
    R.Safe S i E (p.bind f) Q s := by
  induction p generalizing s with
  | ret a => exact h
  | fail error => exact h
  | cut => trivial
  | call r k ih =>
    intro s' hkeeps hmoves
    obtain ⟨hguard, hrest⟩ := h s' hkeeps hmoves
    exact ⟨hguard, fun c => ih _ (hrest c)⟩

theorem Safe.andThen {P : α → σ → Prop} (hp : R.Safe S i E p P s)
    (hf : ∀ a t, P a t → R.Safe S i E (f a) Q t) : R.Safe S i E (p.bind f) Q s :=
  .bind (hp.mono (fun _ _ he => he) hf)

theorem Safe.attempt {ε' : Type} {E' : ε' → σ → Prop} {Q : Except ε α → σ → Prop}
    (h : R.Safe S i (fun e t => Q (.error e) t) p (fun a t => Q (.ok a) t) s) :
    R.Safe S i E' p.attempt Q s := by
  induction p generalizing s with
  | ret a => exact h
  | fail error => exact h
  | cut => trivial
  | call r k ih =>
    intro s' hkeeps hmoves
    obtain ⟨hguard, hrest⟩ := h s' hkeeps hmoves
    exact ⟨hguard, fun c => ih _ (hrest c)⟩

theorem Safe.both {R₁ R₂ : Rely σ Req} {E₁ E₂ : ε → σ → Prop} {Q₁ Q₂ : α → σ → Prop}
    (h₁ : R₁.Safe S i E₁ p Q₁ s) (h₂ : R₂.Safe S i E₂ p Q₂ s)
    (hkeeps : ∀ t, R.keeps t → R₁.keeps t ∧ R₂.keeps t)
    (hmoves : ∀ t t', R.moves i t t' → R₁.moves i t t' ∧ R₂.moves i t t')
    (hguards : ∀ t r, R₁.guards i t r → R₂.guards i t r → R.guards i t r) :
    R.Safe S i (fun e t => E₁ e t ∧ E₂ e t) p (fun a t => Q₁ a t ∧ Q₂ a t) s := by
  induction p generalizing s with
  | ret a => exact ⟨h₁, h₂⟩
  | fail error => exact ⟨h₁, h₂⟩
  | cut => trivial
  | call r k ih =>
    intro s' hs' hmove
    obtain ⟨hguard₁, hrest₁⟩ := h₁ s' (hkeeps s' hs').1 (hmoves s s' hmove).1
    obtain ⟨hguard₂, hrest₂⟩ := h₂ s' (hkeeps s' hs').2 (hmoves s s' hmove).2
    exact ⟨hguards s' r hguard₁ hguard₂, fun c => ih _ (hrest₁ c) (hrest₂ c)⟩

end Safe

/-! ## Runs of a crew -/

section Runs

variable {σ Req : Type} {Ans : Req → Type} {ε α Job Choice Env : Type} {R : Rely σ Req}
  {S : Host σ Req Ans Choice} {body : Job → Prog Req Ans ε α} {environment : σ → Env → σ}
  {init : σ → Prop} {s s' : Pool σ Req Ans ε α Job}

/-- The jobs and the changes of the environment that are considered. -/
def Steady (startOk : Job → Prop) (envOk : σ → Env → Prop) (s : Pool σ Req Ans ε α Job) :
    CrewEvent Job Choice Env → Prop
  | .start job => startOk job
  | .call _ _ => True
  | .stop _ => True
  | .env e => envOk s.state e

/-- The calls, the ends of clients and the environment keep what the clients rely on. -/
structure Kept (R : Rely σ Req) (S : Host σ Req Ans Choice) (environment : σ → Env → σ)
    (envOk : σ → Env → Prop) : Prop where
  call : ∀ {i t r}, R.keeps t → R.guards i t r → ∀ c,
    R.keeps (S.respond i t r c).2 ∧ ∀ j, j ≠ i → R.moves j t (S.respond i t r c).2
  stop : ∀ {t} i, R.keeps t →
    R.keeps (S.release i t) ∧ ∀ j, j ≠ i → R.moves j t (S.release i t)
  env : ∀ {t e}, R.keeps t → envOk t e →
    R.keeps (environment t e) ∧ ∀ j, R.moves j t (environment t e)

/-- What a program that has calls to make is safe with. -/
def Pending (R : Rely σ Req) (S : Host σ Req Ans Choice) (i : Nat) (E : ε → σ → Prop)
    (Q : α → σ → Prop) (s : σ) : Prog Req Ans ε α → Prop
  | .call r k => R.Safe S i E (.call r k) Q s
  | _ => True

variable {i : Nat}

variable {t : σ} {p : Prog Req Ans ε α} {job : Job} {r : Req} {Q : α → σ → Prop} {E : ε → σ → Prop}

theorem Pending.of_safe (h : R.Safe S i E p Q t) : R.Pending S i E Q t p := by
  cases p with
  | call r k => exact h
  | ret a => trivial
  | fail error => trivial
  | cut => trivial

theorem Pending.move {t' : σ} (h : R.Pending S i E Q t p) (hmoves : R.moves i t t') :
    R.Pending S i E Q t' p := by
  cases p with
  | call r k => exact fun u hkeeps hu => h u hkeeps (R.trans hmoves hu)
  | ret a => trivial
  | fail error => trivial
  | cut => trivial

variable {E : Job → ε → σ → Prop} {Q : Job → α → σ → Prop} {startOk : Job → Prop}
  {envOk : σ → Env → Prop}

/-- The state is kept, and every client is safe from here on. -/
structure Sound (R : Rely σ Req) (S : Host σ Req Ans Choice) (E : Job → ε → σ → Prop)
    (Q : Job → α → σ → Prop) (startOk : Job → Prop) (s : Pool σ Req Ans ε α Job) : Prop where
  keeps : R.keeps s.state
  started : ∀ {i job p}, s.client i = some (job, p) → startOk job
  pending : ∀ {i job p}, s.client i = some (job, p) → R.Pending S i (E job) (Q job) s.state p

variable {k : Ans r → Prog Req Ans ε α}

theorem Sound.guard (hsound : R.Sound S E Q startOk s)
    (hclient : s.client i = some (job, .call r k)) : R.guards i s.state r :=
  (hsound.pending hclient s.state hsound.keeps (R.refl i _)).1

theorem Sound.answered (hsound : R.Sound S E Q startOk s)
    (hclient : s.client i = some (job, .call r k)) (c : Choice) :
    R.Safe S i (E job) (k (S.respond i s.state r c).1) (Q job) (S.respond i s.state r c).2 :=
  (hsound.pending hclient s.state hsound.keeps (R.refl i _)).2 c

theorem Sound.step (hkept : R.Kept S environment envOk)
    (hbody : ∀ i job t, startOk job → R.Safe S i (E job) (body job) (Q job) t)
    (hsound : R.Sound S E Q startOk s) {a : CrewEvent Job Choice Env}
    (hok : Steady startOk envOk s a) (hs : crewStep S body environment s a = some s') :
    R.Sound S E Q startOk s' := by
  cases a with
  | start job =>
    cases hs
    refine ⟨hsound.keeps, fun {i job' p} hclient => ?_, fun {i job' p} hclient => ?_⟩
    all_goals
      by_cases hi : i = s.next
      · subst hi
        obtain ⟨rfl, rfl⟩ : job = job' ∧ body job = p := by simpa using hclient
        first
        | exact hok
        | exact .of_safe (hbody _ job s.state hok)
      · first
        | exact hsound.started (by simpa [hi] using hclient)
        | exact hsound.pending (by simpa [hi] using hclient)
  | call i choice =>
    obtain ⟨job, r, k, hcall, rfl⟩ := crewStep_call hs
    obtain ⟨hkeeps, hothers⟩ := hkept.call hsound.keeps (hsound.guard hcall) choice
    refine ⟨hkeeps, fun {j job' p} hclient => ?_, fun {j job' p} hclient => ?_⟩
    all_goals
      by_cases hj : j = i
      · subst hj
        obtain ⟨rfl, rfl⟩ :
            job = job' ∧ k (S.respond j s.state r choice).1 = p := by simpa using hclient
        first
        | exact hsound.started hcall
        | exact .of_safe (hsound.answered hcall choice)
      · have hclient' : s.client j = some (job', p) := by simpa [hj] using hclient
        first
        | exact hsound.started hclient'
        | exact (hsound.pending hclient').move (hothers j hj)
  | stop i =>
    obtain ⟨job, p, hstop, rfl⟩ := crewStep_stop hs
    obtain ⟨hkeeps, hothers⟩ := hkept.stop i hsound.keeps
    refine ⟨hkeeps, fun {j job' p'} hclient => ?_, fun {j job' p'} hclient => ?_⟩
    all_goals
      by_cases hj : j = i
      · subst hj
        obtain ⟨rfl, rfl⟩ : job = job' ∧ Prog.cut = p' := by simpa using hclient
        first
        | exact hsound.started hstop
        | trivial
      · have hclient' : s.client j = some (job', p') := by simpa [hj] using hclient
        first
        | exact hsound.started hclient'
        | exact (hsound.pending hclient').move (hothers j hj)
  | env e =>
    cases hs
    obtain ⟨hkeeps, hmoves⟩ := hkept.env hsound.keeps hok
    exact ⟨hkeeps, hsound.started, fun hclient => (hsound.pending hclient).move (hmoves _)⟩

end Runs

/-! ## Lasting promises -/

section Lasting

variable {σ Req : Type} {Ans : Req → Type} {ε α Job Choice Env : Type} {R : Rely σ Req}
  {S : Host σ Req Ans Choice} {body : Job → Prog Req Ans ε α} {environment : σ → Env → σ}
  {s s' : Pool σ Req Ans ε α Job}

def Considered (startOk : Job → Prop) (callOk : Nat → σ → Req → Choice → Prop)
    (envOk : σ → Env → Prop) (s : Pool σ Req Ans ε α Job) : CrewEvent Job Choice Env → Prop
  | .start job => startOk job
  | .call i c => ∀ job r k, s.client i = some (job, .call r k) → callOk i s.state r c
  | .stop _ => True
  | .env e => envOk s.state e

/-- The calls that are considered, the ends of clients and the environment keep what the
clients rely on. -/
structure Upheld (R : Rely σ Req) (S : Host σ Req Ans Choice) (environment : σ → Env → σ)
    (callOk : Nat → σ → Req → Choice → Prop) (envOk : σ → Env → Prop) : Prop where
  call : ∀ {i t r c}, R.keeps t → R.guards i t r → callOk i t r c →
    R.keeps (S.respond i t r c).2 ∧ ∀ j, j ≠ i → R.moves j t (S.respond i t r c).2
  stop : ∀ {t} i, R.keeps t →
    R.keeps (S.release i t) ∧ ∀ j, j ≠ i → R.moves j t (S.release i t)
  env : ∀ {t e}, R.keeps t → envOk t e →
    R.keeps (environment t e) ∧ ∀ j, R.moves j t (environment t e)

/-- What a client promises of its end stays while the others move the state. -/
structure Lasts (R : Rely σ Req) (E : Nat → Job → ε → σ → Prop) (Q : Nat → Job → α → σ → Prop) :
    Prop where
  error : ∀ {i job e t t'}, E i job e t → R.moves i t t' → E i job e t'
  value : ∀ {i job a t t'}, Q i job a t → R.moves i t t' → Q i job a t'

variable {E : Nat → Job → ε → σ → Prop} {Q : Nat → Job → α → σ → Prop} {startOk : Job → Prop}
  {callOk : Nat → σ → Req → Choice → Prop} {envOk : σ → Env → Prop}

variable {i : Nat} {job : Job} {p : Prog Req Ans ε α}

theorem Lasts.safe (hlasts : R.Lasts E Q) {t t' : σ} (h : R.Safe S i (E i job) p (Q i job) t)
    (hmoves : R.moves i t t') : R.Safe S i (E i job) p (Q i job) t' := by
  cases p with
  | ret a => exact hlasts.value h hmoves
  | fail error => exact hlasts.error h hmoves
  | cut => trivial
  | call r k => exact fun u hkeeps hu => h u hkeeps (R.trans hmoves hu)

/-- The state is kept, and every client is safe from here on or has ended as promised. -/
structure Steadfast (R : Rely σ Req) (S : Host σ Req Ans Choice) (E : Nat → Job → ε → σ → Prop)
    (Q : Nat → Job → α → σ → Prop) (startOk : Job → Prop) (s : Pool σ Req Ans ε α Job) :
    Prop where
  keeps : R.keeps s.state
  started : ∀ {i job p}, s.client i = some (job, p) → startOk job
  safe : ∀ {i job p}, s.client i = some (job, p) →
    R.Safe S i (E i job) p (Q i job) s.state

theorem client_of_update {f : Nat → Option (Job × Prog Req Ans ε α)} {n : Nat} {job' : Job}
    {p' : Prog Req Ans ε α} (h : Function.update f n (some (job, p)) i = some (job', p')) :
    (i = n ∧ job' = job ∧ p' = p) ∨ (i ≠ n ∧ f i = some (job', p')) := by
  by_cases hi : i = n
  · subst hi
    rw [Function.update_self] at h
    obtain ⟨rfl, rfl⟩ := Prod.mk.inj (Option.some.inj h)
    exact .inl ⟨rfl, rfl, rfl⟩
  · rw [Function.update_of_ne hi] at h
    exact .inr ⟨hi, h⟩

theorem Steadfast.step (hupheld : R.Upheld S environment callOk envOk) (hlasts : R.Lasts E Q)
    (hbody : ∀ i job t, startOk job → R.Safe S i (E i job) (body job) (Q i job) t)
    (h : R.Steadfast S E Q startOk s) {a : CrewEvent Job Choice Env}
    (hok : Considered startOk callOk envOk s a) (hs : crewStep S body environment s a = some s') :
    R.Steadfast S E Q startOk s' := by
  cases a with
  | start job =>
    cases hs
    refine ⟨h.keeps, fun heq => ?_, fun heq => ?_⟩
    · rcases client_of_update heq with ⟨-, rfl, -⟩ | ⟨-, hold⟩
      · exact hok
      · exact h.started hold
    · rcases client_of_update heq with ⟨rfl, rfl, rfl⟩ | ⟨-, hold⟩
      · exact hbody _ _ _ hok
      · exact h.safe hold
  | call i c =>
    obtain ⟨job, r, k, hcall, rfl⟩ := crewStep_call hs
    obtain ⟨hguard, hrest⟩ := h.safe hcall s.state h.keeps (R.refl i _)
    obtain ⟨hkeeps, hothers⟩ := hupheld.call h.keeps hguard (hok job r k hcall)
    refine ⟨hkeeps, fun heq => ?_, fun heq => ?_⟩
    · rcases client_of_update heq with ⟨-, rfl, -⟩ | ⟨-, hold⟩
      · exact h.started hcall
      · exact h.started hold
    · rcases client_of_update heq with ⟨rfl, rfl, rfl⟩ | ⟨hj, hold⟩
      · exact hrest c
      · exact hlasts.safe (h.safe hold) (hothers _ hj)
  | stop i =>
    obtain ⟨job, p, hstop, rfl⟩ := crewStep_stop hs
    obtain ⟨hkeeps, hothers⟩ := hupheld.stop i h.keeps
    refine ⟨hkeeps, fun heq => ?_, fun heq => ?_⟩
    · rcases client_of_update heq with ⟨-, rfl, -⟩ | ⟨-, hold⟩
      · exact h.started hstop
      · exact h.started hold
    · rcases client_of_update heq with ⟨rfl, rfl, rfl⟩ | ⟨hj, hold⟩
      · trivial
      · exact hlasts.safe (h.safe hold) (hothers _ hj)
  | env e =>
    cases hs
    obtain ⟨hkeeps, hmoves⟩ := hupheld.env h.keeps hok
    exact ⟨hkeeps, h.started, fun hclient => hlasts.safe (h.safe hclient) (hmoves _)⟩

end Lasting

end Rely

/-! ## One client alone -/

namespace Prog

section Alone

variable {σ Req : Type} {Ans : Req → Type} {Choice ε α β : Type} (S : Host σ Req Ans Choice)
  (ok : Choice → Prop) (i : Nat)

/-- A client that makes its calls alone, with choices of a kind, returns a value with a
postcondition, or fails where it may. -/
def Alone (fails : Prop) : Prog Req Ans ε α → (α → σ → Prop) → σ → Prop
  | .ret a, Q, s => Q a s
  | .fail _, _, _ => fails
  | .cut, _, _ => False
  | .call r k, Q, s =>
    ∀ c, ok c → Alone fails (k (S.respond i s r c).1) Q (S.respond i s r c).2

variable {S ok i} {fails : Prop} {s : σ}

variable {p : Prog Req Ans ε α} {fails' : Prop} {Q Q' : α → σ → Prop}

theorem Alone.mono (h : p.Alone S ok i fails Q s) (hfails : fails → fails')
    (hQ : ∀ a t, Q a t → Q' a t) : p.Alone S ok i fails' Q' s := by
  induction p generalizing s with
  | ret a => exact hQ a s h
  | fail error => exact hfails h
  | cut => exact h
  | call r k ih => exact fun c hc => ih _ (h c hc)

theorem Alone.andThen {f : α → Prog Req Ans ε β} {P : α → σ → Prop} {Q : β → σ → Prop}
    (hp : p.Alone S ok i fails P s) (hf : ∀ a t, P a t → (f a).Alone S ok i fails Q t) :
    (p.bind f).Alone S ok i fails Q s := by
  induction p generalizing s with
  | ret a => exact hf a s hp
  | fail error => exact hp
  | cut => exact hp
  | call r k ih => exact fun c hc => ih _ (hp c hc)

theorem Alone.attempt {ε' : Type} {Q : Except ε α → σ → Prop}
    (h : p.Alone S ok i fails (fun a t => Q (.ok a) t) s) (hfails : fails → ∀ e t, Q (.error e) t) :
    (p.attempt : Prog Req Ans ε' (Except ε α)).Alone S ok i fails' Q s := by
  induction p generalizing s with
  | ret a => exact h
  | fail error => exact hfails h error s
  | cut => exact h
  | call r k ih => exact fun c hc => ih _ (h c hc)

theorem Alone.meet (h : p.Alone S ok i fails Q s) (h' : p.Alone S ok i fails' Q' s)
    (hchoice : ∃ c, ok c) : (fails ∧ fails') ∨ ∃ a t, Q a t ∧ Q' a t := by
  induction p generalizing s with
  | ret a => exact .inr ⟨a, s, h, h'⟩
  | fail error => exact .inl ⟨h, h'⟩
  | cut => exact h.elim
  | call r k ih =>
    obtain ⟨c, hc⟩ := hchoice
    exact ih _ (h c hc) (h' c hc)

end Alone

end Prog

end Service
