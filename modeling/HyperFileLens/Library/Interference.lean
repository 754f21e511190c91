import HyperFileLens.Library.Pool

/-!
# Clients that interfere

What a client of a pool can rely on between two of its calls, while the other clients
and the environment move the state.

*Terms.*  `Terms` fixes what every state of a run has, how the state moves, which calls
are considered and what holds when a call is made. `Terms.Safe` follows a program under
these terms: before each call the state has moved by others, and after it the program
goes on from the state the call has left.

*Rule.*  When the calls and the environment keep the terms, every client of every run
is safe from the current state on (`Terms.safe_of_reachable`).
-/

namespace Service

open Transition

/-! ## Handlers and loops -/

section Programs

variable {Req : Type} {Ans : Req → Type} {ε α ι : Type}

/-- Go on with the error of a program that fails. -/
def Prog.handle : Prog Req Ans ε α → (ε → Prog Req Ans ε α) → Prog Req Ans ε α
  | .ret a, _ => .ret a
  | .fail error, h => h error
  | .cut, _ => .cut
  | .call r k, h => .call r fun a => (k a).handle h

/-- A loop that ends with the first value its body returns. -/
def Prog.firstM (f : ι → Prog Req Ans ε (Option α)) : List ι → Prog Req Ans ε (Option α)
  | [] => .ret none
  | x :: xs => (f x).bind fun
      | some a => .ret (some a)
      | none => firstM f xs

end Programs

/-! ## Terms -/

/-- What the clients of a service rely on and what they promise. -/
structure Terms (σ Req : Type) where
  /-- What every state has. -/
  keeps : σ → Prop
  moves : σ → σ → Prop
  /-- The calls that are considered. -/
  allows : σ → Req → Prop
  /-- What holds when a call is made. -/
  guards : σ → Req → Prop
  refl : ∀ s, moves s s
  trans : ∀ {s s' s''}, moves s s' → moves s' s'' → moves s s''

namespace Terms

section Safe

variable {σ Req : Type} {Ans : Req → Type} {Choice ε α β ι : Type} (T : Terms σ Req)
  (S : Server σ Req Ans Choice)

/-- Every call of a program is guarded, however the state has moved before it. The
program returns values with a postcondition and fails with another one. -/
def Safe (E : ε → σ → Prop) : Prog Req Ans ε α → (α → σ → Prop) → σ → Prop
  | .ret a, Q, s => Q a s
  | .fail error, _, s => E error s
  | .cut, _, _ => True
  | .call r k, Q, s => ∀ s', T.keeps s' → T.moves s s' → T.guards s' r ∧
      (T.allows s' r → ∀ c, Safe E (k (S.respond s' r c).1) Q (S.respond s' r c).2)

variable {T S} {E F : ε → σ → Prop} {s : σ}

variable {p : Prog Req Ans ε α}

variable {f : α → Prog Req Ans ε β}

theorem Safe.mono {Q R : α → σ → Prop} (h : T.Safe S E p Q s) (hE : ∀ e t, E e t → F e t)
    (hQ : ∀ a t, Q a t → R a t) : T.Safe S F p R s := by
  induction p generalizing s with
  | ret a => exact hQ a s h
  | fail error => exact hE error s h
  | cut => trivial
  | call r k ih =>
    intro s' hkeeps hmoves
    obtain ⟨hguard, hrest⟩ := h s' hkeeps hmoves
    exact ⟨hguard, fun hallows c => ih _ (hrest hallows c)⟩

variable {Q : α → σ → Prop}

theorem Safe.restrict {T' : Terms σ Req} (h : T.Safe S E p Q s)
    (hkeeps : ∀ t, T'.keeps t → T.keeps t) (hmoves : ∀ t t', T'.moves t t' → T.moves t t')
    (hallows : ∀ t r, T'.allows t r → T.allows t r)
    (hguards : ∀ t r, T.guards t r → T'.guards t r) : T'.Safe S E p Q s := by
  induction p generalizing s with
  | ret a => exact h
  | fail error => exact h
  | cut => trivial
  | call r k ih =>
    intro s' hs' hmove
    obtain ⟨hguard, hrest⟩ := h s' (hkeeps s' hs') (hmoves s s' hmove)
    exact ⟨hguards s' r hguard, fun hallow c => ih _ (hrest (hallows s' r hallow) c)⟩

/-- A program that still has calls to make is safe from wherever the state moves to. -/
theorem Safe.move {s' : σ} (h : T.Safe S (fun _ _ => True) p (fun _ _ => True) s)
    (hmoves : T.moves s s') : T.Safe S (fun _ _ => True) p (fun _ _ => True) s' := by
  cases p with
  | call r k => exact fun t hkeeps ht => h t hkeeps (T.trans hmoves ht)
  | ret a => trivial
  | fail error => trivial
  | cut => trivial

theorem Safe.bind {Q : β → σ → Prop} (h : T.Safe S E p (fun a t => T.Safe S E (f a) Q t) s) :
    T.Safe S E (p.bind f) Q s := by
  induction p generalizing s with
  | ret a => exact h
  | fail error => exact h
  | cut => trivial
  | call r k ih =>
    intro s' hkeeps hmoves
    obtain ⟨hguard, hrest⟩ := h s' hkeeps hmoves
    exact ⟨hguard, fun hallows c => ih _ (hrest hallows c)⟩

theorem Safe.andThen {P : α → σ → Prop} {Q : β → σ → Prop} (hp : T.Safe S E p P s)
    (hf : ∀ a t, P a t → T.Safe S E (f a) Q t) : T.Safe S E (p.bind f) Q s :=
  .bind (hp.mono (fun _ _ he => he) hf)

theorem Safe.handle {h : ε → Prog Req Ans ε α} (hp : T.Safe S F p Q s)
    (hh : ∀ e t, F e t → T.Safe S E (h e) Q t) : T.Safe S E (p.handle h) Q s := by
  induction p generalizing s with
  | ret a => exact hp
  | fail error => exact hh error s hp
  | cut => trivial
  | call r k ih =>
    intro s' hkeeps hmoves
    obtain ⟨hguard, hrest⟩ := hp s' hkeeps hmoves
    exact ⟨hguard, fun hallows c => ih _ (hrest hallows c)⟩

/-- The rule for a loop: `P` is the loop invariant. -/
theorem Safe.firstM {f : ι → Prog Req Ans ε (Option α)} {P : σ → Prop}
    {Q : Option α → σ → Prop} {xs : List ι} (hs : P s) (hend : ∀ t, P t → Q none t)
    (hf : ∀ x ∈ xs, ∀ t, P t → T.Safe S E (f x) (fun o t' =>
      match o with
      | some a => Q (some a) t'
      | none => P t') t) :
    T.Safe S E (Prog.firstM f xs) Q s := by
  induction xs generalizing s with
  | nil => exact hend s hs
  | cons x xs ih =>
    refine .andThen (hf x (by simp) s hs) fun o t ht => ?_
    cases o with
    | some a => exact ht
    | none => exact ih ht fun y hy => hf y (List.mem_cons_of_mem x hy)

theorem safe_of_guards (hguards : ∀ t r, T.guards t r) (p : Prog Req Ans ε α) :
    T.Safe S (fun _ _ => True) p (fun _ _ => True) s := by
  induction p generalizing s with
  | ret a => trivial
  | fail error => trivial
  | cut => trivial
  | call r k ih => exact fun t _ _ => ⟨hguards t r, fun _ c => ih _⟩

end Safe

/-! ## Runs of a pool -/

section Runs

variable {σ Req : Type} {Ans : Req → Type} {ε α Job Choice Env : Type} {T : Terms σ Req}
  {S : Server σ Req Ans Choice} {body : Job → Prog Req Ans ε α} {environment : σ → Env → σ}
  {s₀ : σ} {s s' : Pool σ Req Ans ε α Job}

/-- The events of runs whose calls and changes of the environment are considered. -/
def Steady (T : Terms σ Req) (envOk : σ → Env → Prop) (s : Pool σ Req Ans ε α Job) :
    PoolEvent Job Choice Env → Prop
  | .start _ => True
  | .call i _ =>
    match s.client i with
    | some (_, .call r _) => T.allows s.state r
    | _ => True
  | .env e => envOk s.state e

instance [∀ t r, Decidable (T.allows t r)] {envOk : σ → Env → Prop}
    [∀ t e, Decidable (envOk t e)] (s : Pool σ Req Ans ε α Job) (a : PoolEvent Job Choice Env) :
    Decidable (T.Steady envOk s a) :=
  match a with
  | .start _ => isTrue trivial
  | .env e => inferInstanceAs (Decidable (envOk s.state e))
  | .call i _ => by
      rw [Steady]
      split <;> infer_instance

variable {i : Nat} {job : Job} {r : Req} {k : Ans r → Prog Req Ans ε α}

theorem Steady.allows {envOk : σ → Env → Prop} {choice : Choice}
    (h : T.Steady envOk s (.call i choice)) (hclient : s.client i = some (job, .call r k)) :
    T.allows s.state r := by
  simpa only [Steady, hclient] using h

structure Kept (T : Terms σ Req) (S : Server σ Req Ans Choice) (environment : σ → Env → σ)
    (envOk : σ → Env → Prop) : Prop where
  call : ∀ {t r}, T.keeps t → T.allows t r → T.guards t r → ∀ c,
    T.keeps (S.respond t r c).2 ∧ T.moves t (S.respond t r c).2
  env : ∀ {t e}, T.keeps t → envOk t e → T.keeps (environment t e) ∧ T.moves t (environment t e)

variable {envOk : σ → Env → Prop}

/-- The state is kept, and every client is safe from here on. -/
structure Sound (T : Terms σ Req) (S : Server σ Req Ans Choice)
    (s : Pool σ Req Ans ε α Job) : Prop where
  keeps : T.keeps s.state
  safe : ∀ {i job p}, s.client i = some (job, p) →
    T.Safe S (fun _ _ => True) p (fun _ _ => True) s.state

theorem Sound.step (hkept : T.Kept S environment envOk)
    (hbody : ∀ job t, T.Safe S (fun _ _ => True) (body job) (fun _ _ => True) t)
    (hsound : T.Sound S s) {a : PoolEvent Job Choice Env} (hok : T.Steady envOk s a)
    (hs : poolStep S body environment s a = some s') :
    T.Sound S s' ∧ T.moves s.state s'.state := by
  cases a with
  | start job =>
    cases hs
    refine ⟨⟨hsound.keeps, fun {i job' p} hclient => ?_⟩, T.refl _⟩
    by_cases hi : i = s.next
    · subst hi
      obtain ⟨rfl, rfl⟩ : job = job' ∧ body job = p := by simpa using hclient
      exact hbody job s.state
    · exact hsound.safe (by simpa [hi] using hclient)
  | call i choice =>
    obtain ⟨job, r, k, hcall, rfl⟩ := poolStep_call hs
    have hallows := hok.allows hcall
    obtain ⟨hguard, hrest⟩ := hsound.safe hcall s.state hsound.keeps (T.refl _)
    obtain ⟨hkeeps, hmoves⟩ := hkept.call hsound.keeps hallows hguard choice
    refine ⟨⟨hkeeps, fun {i' job' p} hclient => ?_⟩, hmoves⟩
    by_cases hi : i' = i
    · subst hi
      obtain ⟨rfl, rfl⟩ :
          job = job' ∧ k (S.respond s.state r choice).1 = p := by simpa using hclient
      exact hrest hallows choice
    · exact (hsound.safe (by simpa [hi] using hclient)).move hmoves
  | env e =>
    cases hs
    obtain ⟨hkeeps, hmoves⟩ := hkept.env hsound.keeps hok
    exact ⟨⟨hkeeps, fun hclient => (hsound.safe hclient).move hmoves⟩, hmoves⟩

theorem sound_of_reachable (hkept : T.Kept S environment envOk)
    (hbody : ∀ job t, T.Safe S (fun _ _ => True) (body job) (fun _ _ => True) t)
    (hinit : T.keeps s₀)
    (h : (poolSystem S body environment s₀).ReachableUnder (T.Steady envOk) s) :
    T.Sound S s := by
  refine System.ReachableUnder.invariant (T := poolSystem S body environment s₀) ?_ ?_ h
  · rintro _ rfl
    exact ⟨hinit, fun hclient => by simp at hclient⟩
  · exact fun _ _ _ hsound hok hs => (hsound.step hkept hbody hok hs).1

theorem sound_of_path (hkept : T.Kept S environment envOk)
    (hbody : ∀ job t, T.Safe S (fun _ _ => True) (body job) (fun _ _ => True) t)
    (hsound : T.Sound S s) (h : (poolSystem S body environment s₀).Path (T.Steady envOk) s s') :
    T.Sound S s' ∧ T.moves s.state s'.state := by
  induction h with
  | refl => exact ⟨hsound, T.refl _⟩
  | tail _ hok hs ih =>
    obtain ⟨hsound', hmoves⟩ := ih
    obtain ⟨hsound'', hmoves'⟩ := hsound'.step hkept hbody hok hs
    exact ⟨hsound'', T.trans hmoves hmoves'⟩

theorem Sound.guard (hsound : T.Sound S s) (hclient : s.client i = some (job, .call r k)) :
    T.guards s.state r :=
  (hsound.safe hclient s.state hsound.keeps (T.refl _)).1

end Runs

end Terms

end Service
