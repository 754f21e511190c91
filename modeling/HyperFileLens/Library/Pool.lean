import HyperFileLens.Library.Service
import HyperFileLens.Library.Transition

/-!
# Clients in parallel

Any number of clients of one service. Clients start at any time with the program of
a job, their calls are made in any order, and between calls the environment changes
the state of the service by itself.

*Rule.*  `Makes G` says that a program makes only the calls that `G` allows. When the
program of every job does, so does what is left of it in every run
(`makes_of_reachable`), and a property of the state is an invariant when the allowed
calls and the environment keep it (`state_invariant`).
-/

namespace Service

open Transition

/-! ## Programs -/

section Makes

variable {Req : Type} {Ans : Req → Type} {ε α β : Type}

/-- A program makes only calls of a kind, and returns only values of a kind. -/
def Prog.Yields (G : Req → Prop) (R : α → Prop) : Prog Req Ans ε α → Prop
  | .ret a => R a
  | .fail _ => True
  | .cut => True
  | .call r k => G r ∧ ∀ a, (k a).Yields G R

/-- A program makes only calls of a kind. -/
def Prog.Makes (G : Req → Prop) (p : Prog Req Ans ε α) : Prop := p.Yields G fun _ => True

variable {G : Req → Prop}

variable {p : Prog Req Ans ε α}

theorem Prog.Yields.mono {G' : Req → Prop} {R R' : α → Prop} (h : p.Yields G R)
    (hG : ∀ r, G r → G' r) (hR : ∀ a, R a → R' a) : p.Yields G' R' := by
  induction p with
  | ret a => exact hR a h
  | fail error => trivial
  | cut => trivial
  | call r k ih => exact ⟨hG r h.1, fun a => ih a (h.2 a)⟩

theorem Prog.Yields.bind {R : α → Prop} {Q : β → Prop} {f : α → Prog Req Ans ε β} (h : p.Yields G R)
    (hf : ∀ a, R a → (f a).Yields G Q) : (p.bind f).Yields G Q := by
  induction p with
  | ret a => exact hf a h
  | fail error => trivial
  | cut => trivial
  | call r k ih => exact ⟨h.1, fun a => ih a (h.2 a)⟩

/-- The program with its calls made of another service, whose answers are taken back. -/
def Prog.lift {Req' : Type} {Ans' : Req' → Type} (f : Req → Req')
    (back : ∀ r, Ans' (f r) → Ans r) : Prog Req Ans ε α → Prog Req' Ans' ε α
  | .ret a => .ret a
  | .fail error => .fail error
  | .cut => .cut
  | .call r k => .call (f r) fun a => (k (back r a)).lift f back

theorem Prog.lift_bind {Req' : Type} {Ans' : Req' → Type} (f : Req → Req')
    (back : ∀ r, Ans' (f r) → Ans r) (p : Prog Req Ans ε α) (g : α → Prog Req Ans ε β) :
    (p.bind g).lift f back = (p.lift f back).bind fun a => (g a).lift f back := by
  induction p with
  | ret a => rfl
  | fail error => rfl
  | cut => rfl
  | call r k ih => exact congrArg (Prog.call (f r)) (funext fun a => ih (back r a))

end Makes

/-! ## Pools -/

/-- A service and its clients, with the job of each and what is left of its program. -/
structure Pool (σ Req : Type) (Ans : Req → Type) (ε α Job : Type) where
  state : σ
  client : Nat → Option (Job × Prog Req Ans ε α)
  next : Nat

inductive PoolEvent (Job Choice Env : Type) where
  | start (job : Job)
  | call (i : Nat) (choice : Choice)
  | env (e : Env)

section Pool

variable {σ Req : Type} {Ans : Req → Type} {ε α Job Choice Env : Type}
  (S : Server σ Req Ans Choice) (body : Job → Prog Req Ans ε α) (environment : σ → Env → σ)

def poolStep (s : Pool σ Req Ans ε α Job) :
    PoolEvent Job Choice Env → Option (Pool σ Req Ans ε α Job)
  | .start job => some { s with
      client := Function.update s.client s.next (some (job, body job)), next := s.next + 1 }
  | .call i choice =>
    match s.client i with
    | some (job, .call r k) =>
      let answer := S.respond s.state r choice
      some { s with
        state := answer.2, client := Function.update s.client i (some (job, k answer.1)) }
    | _ => none
  | .env e => some { s with state := environment s.state e }

def poolSystem (s₀ : σ) : System (Pool σ Req Ans ε α Job) (PoolEvent Job Choice Env) where
  init := fun s => s = ⟨s₀, fun _ => none, 0⟩
  step := poolStep S body environment

variable {S body environment} {s₀ : σ} {s s' : Pool σ Req Ans ε α Job}

variable {i : Nat} {job : Job}

theorem poolStep_call {choice : Choice}
    (h : poolStep S body environment s (.call i choice) = some s') :
    ∃ job r k, s.client i = some (job, .call r k) ∧ s' = { s with
        state := (S.respond s.state r choice).2
        client := Function.update s.client i (some (job, k (S.respond s.state r choice).1)) } := by
  rw [poolStep] at h
  split at h
  · rename_i job r k hclient
    exact ⟨job, r, k, hclient, (Option.some.inj h).symm⟩
  · simp at h

variable {G : Job → Req → Prop}

theorem makes_of_reachable (hbody : ∀ job, (body job).Makes (G job))
    (h : (poolSystem S body environment s₀).Reachable s) {p : Prog Req Ans ε α}
    (hclient : s.client i = some (job, p)) : p.Makes (G job) := by
  refine System.ReachableUnder.invariant (T := poolSystem S body environment s₀)
    (I := fun s => ∀ i job p, s.client i = some (job, p) → p.Makes (G job)) ?_ ?_ h i job p hclient
  · rintro s rfl i job p hclient
    simp at hclient
  · intro s a s' hI _ (hs : poolStep S body environment s a = some s') i job p hclient
    cases a with
    | start job' =>
      cases hs
      by_cases hi : i = s.next
      · subst hi
        obtain ⟨rfl, rfl⟩ : job' = job ∧ body job' = p := by simpa using hclient
        exact hbody job'
      · exact hI i job p (by simpa [hi] using hclient)
    | call i' choice =>
      obtain ⟨job', r, k, hcall, rfl⟩ := poolStep_call hs
      by_cases hi : i = i'
      · subst hi
        obtain ⟨rfl, rfl⟩ :
            job' = job ∧ k (S.respond s.state r choice).1 = p := by simpa using hclient
        exact (hI i job' _ hcall).2 _
      · exact hI i job p (by simpa [hi] using hclient)
    | env e =>
      cases hs
      exact hI i job p hclient

theorem guard_of_reachable (hbody : ∀ job, (body job).Makes (G job))
    (h : (poolSystem S body environment s₀).Reachable s) {r : Req} {k : Ans r → Prog Req Ans ε α}
    (hclient : s.client i = some (job, .call r k)) : G job r :=
  (makes_of_reachable hbody h hclient).1

theorem state_invariant {I : σ → Prop} (hbody : ∀ job, (body job).Makes (G job)) (hinit : I s₀)
    (hcall : ∀ t job r choice, I t → G job r → I (S.respond t r choice).2)
    (henv : ∀ t e, I t → I (environment t e))
    (h : (poolSystem S body environment s₀).Reachable s) : I s.state := by
  obtain ⟨s₁, hs₁, hpath⟩ := h
  induction hpath with
  | refl =>
    obtain rfl : s₁ = _ := hs₁
    exact hinit
  | @tail s s' a hpath _ hs ih =>
    have hs : poolStep S body environment s a = some s' := hs
    cases a with
    | start job =>
      cases hs
      exact ih
    | call i choice =>
      obtain ⟨job, r, k, hclient, rfl⟩ := poolStep_call hs
      exact hcall _ job r choice ih (guard_of_reachable hbody ⟨s₁, hs₁, hpath⟩ hclient)
    | env e =>
      cases hs
      exact henv _ e ih

end Pool

end Service
