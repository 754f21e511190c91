import Mathlib.Data.List.Basic

/-!
# Clients of an unreliable service

A client is a program of calls. A service answers each call out of a state that
the client does not see, and the environment chooses among the answers the
service may give: it may refuse, serve in part, or serve and lose the answer.

*Programs.*  `Prog` is the syntax of a client. A program fails with an error, and
`cut` is where it is not followed any further, which stands for a loop that was
followed long enough.

*Runs.*  `run` follows a program along a list of choices. The run is interrupted
when the choices are used up, so the runs of all lists pass through every state
the client can be killed in.

*Rules.*  `wp` is the weakest precondition of a program under a contract: what the
client may call, what holds after every call, and which choices are considered.
`wp_sound` reads it along a run.
-/

namespace Service

/-! ## Programs -/

/-- A program of calls. The type of an answer depends on the call. -/
inductive Prog (Req : Type) (Ans : Req → Type) (ε α : Type) where
  /-- Return. -/
  | ret (a : α)
  | fail (error : ε)
  /-- Not followed any further. -/
  | cut
  | call (r : Req) (k : Ans r → Prog Req Ans ε α)

namespace Prog

variable {Req : Type} {Ans : Req → Type} {ε α β : Type}

/-- Go on with the value a program returns. -/
def bind : Prog Req Ans ε α → (α → Prog Req Ans ε β) → Prog Req Ans ε β
  | ret a, f => f a
  | fail error, _ => fail error
  | cut, _ => cut
  | call r k, f => call r fun a => (k a).bind f

instance : Monad (Prog Req Ans ε) where
  pure := ret
  bind := bind

def request (r : Req) : Prog Req Ans ε (Ans r) := call r ret

@[simp] theorem pure_eq (a : α) : (pure a : Prog Req Ans ε α) = ret a := rfl

@[simp] theorem bind_eq (p : Prog Req Ans ε α) (f : α → Prog Req Ans ε β) :
    p >>= f = p.bind f := rfl

end Prog

/-! ## Runs -/

inductive Outcome (ε α : Type) where
  | done (a : α)
  | failed (error : ε)
  | interrupted
deriving DecidableEq

/-- The end of a run: its outcome, the state of the service, and the calls made. -/
structure Run (σ Req ε α : Type) where
  outcome : Outcome ε α
  state : σ
  calls : List Req

structure Server (σ Req : Type) (Ans : Req → Type) (Choice : Type) where
  /-- The answer and the state after it, as the environment chooses. -/
  respond : σ → (r : Req) → Choice → Ans r × σ

namespace Server

variable {σ Req : Type} {Ans : Req → Type} {Choice ε α : Type} (S : Server σ Req Ans Choice)

def run : Prog Req Ans ε α → σ → List Choice → Run σ Req ε α
  | .ret a, s, _ => ⟨.done a, s, []⟩
  | .fail error, s, _ => ⟨.failed error, s, []⟩
  | .cut, s, _ => ⟨.interrupted, s, []⟩
  | .call _ _, s, [] => ⟨.interrupted, s, []⟩
  | .call r k, s, c :: cs =>
    let rest := run (k (S.respond s r c).1) (S.respond s r c).2 cs
    { rest with calls := r :: rest.calls }

/-- Every choice along a run is one that `ok` allows. -/
def Meets (ok : σ → Req → Choice → Prop) : Prog Req Ans ε α → σ → List Choice → Prop
  | .call r k, s, c :: cs =>
    ok s r c ∧ Meets ok (k (S.respond s r c).1) (S.respond s r c).2 cs
  | _, _, _ => True

end Server

theorem Server.Meets.of_forall {σ Req : Type} {Ans : Req → Type} {Choice ε α : Type}
    {S : Server σ Req Ans Choice} {ok : σ → Req → Choice → Prop} {cs : List Choice}
    (h : ∀ c ∈ cs, ∀ s r, ok s r c) (p : Prog Req Ans ε α) (s : σ) : S.Meets ok p s cs := by
  induction p generalizing s cs with
  | ret a => simp [Server.Meets]
  | fail error => simp [Server.Meets]
  | cut => simp [Server.Meets]
  | call r k ih =>
    cases cs with
    | nil => simp [Server.Meets]
    | cons c cs =>
      exact ⟨h c (by simp) s r, ih _ (fun d hd => h d (List.mem_cons_of_mem c hd)) _⟩

/-! ## Contracts -/

/-- What a client promises and what it relies on. -/
structure Contract (σ Req : Type) (Ans : Req → Type) (Choice : Type) where
  server : Server σ Req Ans Choice
  allows : σ → Req → Choice → Prop
  /-- The calls the client may make. -/
  guards : Req → Prop
  /-- What holds after every call. -/
  keeps : σ → Prop

namespace Contract

variable {σ Req : Type} {Ans : Req → Type} {Choice ε α β : Type} (C : Contract σ Req Ans Choice)

/-- The weakest precondition: all calls are guarded, every state after a call is
kept, and a value is returned only with the postcondition. -/
def wp : Prog Req Ans ε α → (α → σ → Prop) → σ → Prop
  | .ret a, Q, s => Q a s
  | .fail _, _, _ => True
  | .cut, _, _ => True
  | .call r k, Q, s => C.guards r ∧ ∀ c, C.allows s r c →
      C.keeps (C.server.respond s r c).2 ∧
        wp (k (C.server.respond s r c).1) Q (C.server.respond s r c).2

variable {C}

@[simp] theorem wp_ret (a : α) (Q : α → σ → Prop) (s : σ) :
    C.wp (.ret a : Prog Req Ans ε α) Q s ↔ Q a s := .rfl

@[simp] theorem wp_fail (error : ε) (Q : α → σ → Prop) (s : σ) :
    C.wp (.fail error : Prog Req Ans ε α) Q s ↔ True := .rfl

@[simp] theorem wp_cut (Q : α → σ → Prop) (s : σ) :
    C.wp (.cut : Prog Req Ans ε α) Q s ↔ True := .rfl

variable {p : Prog Req Ans ε α} {s : σ}

theorem wp_mono {Q R : α → σ → Prop} (h : C.wp p Q s) (hQR : ∀ a s', Q a s' → R a s') :
    C.wp p R s := by
  induction p generalizing s with
  | ret a => exact hQR a s h
  | fail error => trivial
  | cut => trivial
  | call r k ih =>
    obtain ⟨hg, hk⟩ := h
    refine ⟨hg, fun c hc => ?_⟩
    obtain ⟨hkeeps, hrest⟩ := hk c hc
    exact ⟨hkeeps, ih _ hrest⟩

@[simp] theorem wp_bind (p : Prog Req Ans ε α) (f : α → Prog Req Ans ε β) (Q : β → σ → Prop)
    (s : σ) : C.wp (p.bind f) Q s ↔ C.wp p (fun a => C.wp (f a) Q) s := by
  induction p generalizing s with
  | ret a => rfl
  | fail error => rfl
  | cut => rfl
  | call r k ih =>
    simp only [Prog.bind, wp]
    exact and_congr_right fun _ => forall₂_congr fun c _ => and_congr_right fun _ => ih _ _

theorem wp_then {f : α → Prog Req Ans ε β} {P : α → σ → Prop} {Q : β → σ → Prop} (hp : C.wp p P s)
    (hf : ∀ a s', P a s' → C.wp (f a) Q s') : C.wp (p.bind f) Q s :=
  (wp_bind p f Q s).mpr (wp_mono hp hf)

/-- The rule for a loop over a list: `P` is the loop invariant. -/
theorem wp_forM {ι : Type} {l : List ι} {f : ι → Prog Req Ans ε Unit} {P : σ → Prop} (hs : P s)
    (hf : ∀ i ∈ l, ∀ s', P s' → C.wp (f i) (fun _ => P) s') : C.wp (l.forM f) (fun _ => P) s := by
  induction l generalizing s with
  | nil => exact hs
  | cons i l ih =>
    refine wp_then (hf i (by simp) s hs) fun _ s' hs' => ?_
    exact ih hs' fun j hj => hf j (List.mem_cons_of_mem i hj)

/-- The rule for a loop that folds a list: `P` is the loop invariant. -/
theorem wp_foldlM {ι : Type} {l : List ι} {f : β → ι → Prog Req Ans ε β} {P : β → σ → Prop} {b : β}
    (hs : P b s) (hf : ∀ i ∈ l, ∀ b' s', P b' s' → C.wp (f b' i) P s') :
    C.wp (l.foldlM f b) P s := by
  induction l generalizing b s with
  | nil => exact hs
  | cons i l ih =>
    refine wp_then (hf i (by simp) b s hs) fun b' s' hs' => ?_
    exact ih hs' fun j hj => hf j (List.mem_cons_of_mem i hj)

/-- The rule for a loop whose rounds each reach something that the later ones keep. -/
theorem wp_foldlM_each {ι : Type} {l : List ι} {f : β → ι → Prog Req Ans ε β} {P : σ → Prop}
    {T : σ → σ → Prop} {R : ι → σ → Prop} {b : β} (hrefl : ∀ s, T s s)
    (htrans : ∀ s₁ s₂ s₃, T s₁ s₂ → T s₂ s₃ → T s₁ s₃)
    (hkeeps : ∀ i s₁ s₂, T s₁ s₂ → R i s₁ → R i s₂) (hs : P s) (hf : ∀ i ∈ l, ∀ b' s', P s' →
      C.wp (f b' i) (fun _ s'' => P s'' ∧ T s' s'' ∧ R i s'') s') :
    C.wp (l.foldlM f b) (fun _ s' => P s' ∧ T s s' ∧ ∀ i ∈ l, R i s') s := by
  induction l generalizing b s with
  | nil => exact ⟨hs, hrefl s, by simp⟩
  | cons i l ih =>
    refine wp_then (hf i (by simp) b s hs) ?_
    rintro b' s' ⟨hs', hrel, hreached⟩
    refine wp_mono (ih hs' fun j hj => hf j (List.mem_cons_of_mem i hj)) ?_
    rintro _ s'' ⟨hs'', hrel', hrest⟩
    refine ⟨hs'', htrans _ _ _ hrel hrel', fun j hj => ?_⟩
    rcases List.mem_cons.mp hj with rfl | hj
    · exact hkeeps j _ _ hrel' hreached
    · exact hrest j hj

/-- A precondition holds along every run: its calls are guarded, the state it ends
in is kept, and what it returns has the postcondition. -/
theorem wp_sound {Q : α → σ → Prop} (h : C.wp p Q s) (hs : C.keeps s) {cs : List Choice}
    (hcs : C.server.Meets C.allows p s cs) :
    (∀ r ∈ (C.server.run p s cs).calls, C.guards r) ∧ C.keeps (C.server.run p s cs).state ∧
      ∀ a, (C.server.run p s cs).outcome = .done a → Q a (C.server.run p s cs).state := by
  induction p generalizing s cs with
  | ret a =>
    refine ⟨by simp [Server.run], hs, fun b hb => ?_⟩
    simp only [Server.run, Outcome.done.injEq] at hb
    exact hb ▸ h
  | fail error => exact ⟨by simp [Server.run], hs, fun b hb => by simp [Server.run] at hb⟩
  | cut => exact ⟨by simp [Server.run], hs, fun b hb => by simp [Server.run] at hb⟩
  | call r k ih =>
    cases cs with
    | nil => exact ⟨by simp [Server.run], hs, fun b hb => by simp [Server.run] at hb⟩
    | cons c cs =>
      obtain ⟨hg, hk⟩ := h
      obtain ⟨hc, hcs⟩ := hcs
      obtain ⟨hkeeps, hrest⟩ := hk c hc
      obtain ⟨hcalls, hstate, hdone⟩ := ih _ hrest hkeeps hcs
      refine ⟨fun r' hr' => ?_, hstate, hdone⟩
      rcases List.mem_cons.mp hr' with rfl | hr'
      · exact hg
      · exact hcalls r' hr'

end Contract

end Service
