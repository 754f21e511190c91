import Mathlib.Data.Finset.Basic

/-!
# Locks that are served in order

A lock that clients hold together where their modes are compatible, with a queue of
clients that wait for it. A client that gives up or lets go makes room for the head
of the queue, and for the next, as long as they are admitted.

*Invariant.*  `WellFormed` says that the holders are compatible and that the head
of the queue is not admitted, so no client waits that could go on.

*Deadlock.*  Clients that take locks in the order of their keys never wait for each
other in a circle (`not_transGen_waitsFor`).
-/

namespace FifoLock

structure Lock (ι : Type) where
  held : Finset ι
  queue : List ι

section Invariant

variable {ι : Type} (compat : ι → ι → Prop)

/-- A client may hold the lock together with the holders. -/
def Admits (held : Finset ι) (i : ι) : Prop := ∀ j ∈ held, compat j i

/-- The holders are compatible, and a client is there once. -/
structure Consistent (L : Lock ι) : Prop where
  together : ∀ i ∈ L.held, ∀ j ∈ L.held, i ≠ j → compat i j
  nodup : L.queue.Nodup
  notHeld : ∀ i ∈ L.queue, i ∉ L.held

/-- The lock is consistent, and nobody waits that could hold it. -/
structure WellFormed (L : Lock ι) : Prop extends Consistent compat L where
  blocked : ∀ i ∈ L.queue.head?, ¬ Admits compat L.held i

variable {compat}

theorem WellFormed.empty : WellFormed compat ⟨∅, []⟩ where
  together := by simp
  nodup := List.nodup_nil
  notHeld := by simp
  blocked := by simp

variable [DecidableEq ι]

theorem Consistent.insert [Std.Symm compat] {held : Finset ι} {queue : List ι} {i : ι}
    (h : Consistent compat ⟨held, i :: queue⟩) (hi : Admits compat held i) :
    Consistent compat ⟨insert i held, queue⟩ where
  together := fun j hj k hk hne => by
    rcases Finset.mem_insert.mp hj with rfl | hj'
    · rcases Finset.mem_insert.mp hk with rfl | hk'
      · exact absurd rfl hne
      · exact Std.Symm.symm _ _ (hi k hk')
    · rcases Finset.mem_insert.mp hk with rfl | hk'
      · exact hi j hj'
      · exact h.together j hj' k hk' hne
  nodup := h.nodup.of_cons
  notHeld := fun j hj hheld => by
    rcases Finset.mem_insert.mp hheld with rfl | hheld
    · exact (List.nodup_cons.mp h.nodup).1 hj
    · exact h.notHeld j (List.mem_cons_of_mem i hj) hheld

theorem Consistent.erase_held {L : Lock ι} (h : Consistent compat L) (i : ι) :
    Consistent compat ⟨L.held.erase i, L.queue⟩ where
  together := fun j hj k hk hne =>
    h.together j (Finset.mem_of_mem_erase hj) k (Finset.mem_of_mem_erase hk) hne
  nodup := h.nodup
  notHeld := fun j hj hheld => h.notHeld j hj (Finset.mem_of_mem_erase hheld)

theorem Consistent.erase_queue {L : Lock ι} (h : Consistent compat L) (i : ι) :
    Consistent compat ⟨L.held, L.queue.erase i⟩ where
  together := h.together
  nodup := h.nodup.erase i
  notHeld := fun j hj => h.notHeld j (List.mem_of_mem_erase hj)

end Invariant

/-! ## Operations -/

section Operations

variable {ι : Type} [DecidableEq ι] (compat : ι → ι → Prop) [DecidableRel compat]

instance (held : Finset ι) (i : ι) : Decidable (Admits compat held i) :=
  inferInstanceAs (Decidable (∀ j ∈ held, compat j i))

/-- Give the lock to the head of the queue as long as it is admitted. -/
def serve : Finset ι → List ι → Lock ι
  | held, [] => ⟨held, []⟩
  | held, i :: queue =>
    if Admits compat held i then serve (insert i held) queue else ⟨held, i :: queue⟩

/-- Ask for the lock. A client goes behind those that wait already. -/
def request (L : Lock ι) (i : ι) : Lock ι :=
  if L.queue = [] ∧ Admits compat L.held i then ⟨insert i L.held, []⟩
  else ⟨L.held, L.queue ++ [i]⟩

def release (L : Lock ι) (i : ι) : Lock ι := serve compat (L.held.erase i) L.queue

def withdraw (L : Lock ι) (i : ι) : Lock ι := serve compat L.held (L.queue.erase i)

variable {compat} {held : Finset ι} {queue : List ι}

theorem serve_eq_self (h : ∀ i ∈ queue.head?, ¬ Admits compat held i) :
    serve compat held queue = ⟨held, queue⟩ := by
  cases queue with
  | nil => rfl
  | cons i queue => rw [serve, if_neg (h i rfl)]

variable [Std.Symm compat]

theorem serve_wellFormed (h : Consistent compat ⟨held, queue⟩) :
    WellFormed compat (serve compat held queue) := by
  induction queue generalizing held with
  | nil => exact ⟨h, by simp [serve]⟩
  | cons i queue ih =>
    rw [serve]
    split
    · rename_i hi
      exact ih (h.insert hi)
    · rename_i hi
      exact ⟨h, fun j hj => by
        obtain rfl : i = j := by simpa using hj
        exact hi⟩

variable {L : Lock ι}

theorem WellFormed.request (h : WellFormed compat L) {i : ι} (hheld : i ∉ L.held)
    (hqueue : i ∉ L.queue) : WellFormed compat (request compat L i) := by
  rw [FifoLock.request]
  split
  · rename_i hi
    have hcons : Consistent compat ⟨L.held, i :: []⟩ :=
      ⟨h.together, List.nodup_singleton i, by simpa using hheld⟩
    exact ⟨hcons.insert hi.2, by simp⟩
  · rename_i hi
    refine ⟨⟨h.together, ?_, ?_⟩, ?_⟩
    · rw [List.nodup_append]
      refine ⟨h.nodup, List.nodup_singleton i, fun j hj k hk hjk => ?_⟩
      obtain rfl := List.mem_singleton.mp hk
      exact hqueue (hjk ▸ hj)
    · intro j hj
      rcases List.mem_append.mp hj with hj | hj
      · exact h.notHeld j hj
      · obtain rfl := List.mem_singleton.mp hj
        exact hheld
    · intro j hj
      cases hq : L.queue with
      | nil =>
        obtain rfl : i = j := by simpa [hq] using hj
        exact fun hadmits => hi ⟨hq, hadmits⟩
      | cons k queue => exact h.blocked j (by simpa [hq] using hj)

theorem WellFormed.release (h : WellFormed compat L) (i : ι) :
    WellFormed compat (release compat L i) :=
  serve_wellFormed (h.toConsistent.erase_held i)

theorem WellFormed.withdraw (h : WellFormed compat L) (i : ι) :
    WellFormed compat (withdraw compat L i) :=
  serve_wellFormed (h.toConsistent.erase_queue i)

end Operations

/-! ## Waiting -/

section Waiting

variable {ι κ : Type} [DecidableEq ι] {lock : κ → Lock ι}

/-- A client waits for the holders of a lock it is queued for, and for those ahead of
it in the queue. -/
def WaitsFor (lock : κ → Lock ι) (i j : ι) : Prop :=
  ∃ k, i ∈ (lock k).queue ∧ (j ∈ (lock k).held ∨
    j ∈ (lock k).queue ∧ (lock k).queue.idxOf j < (lock k).queue.idxOf i)

/-- The order in which clients wait: for greater keys, and further ahead. -/
def Precedes [LT κ] (lock : κ → Lock ι) (i j : ι) : Prop :=
  ∀ k k', i ∈ (lock k).queue → j ∈ (lock k').queue →
    k < k' ∨ k = k' ∧ (lock k).queue.idxOf j < (lock k).queue.idxOf i

variable [Preorder κ]

/-- Clients take locks in the order of the keys, and wait for one at a time. -/
structure Ordered (lock : κ → Lock ι) : Prop where
  increasing : ∀ i k k', i ∈ (lock k).queue → i ∈ (lock k').held → k' < k
  one : ∀ i k k', i ∈ (lock k).queue → i ∈ (lock k').queue → k = k'

theorem Ordered.precedes (h : Ordered lock) {i j : ι} (hw : WaitsFor lock i j) :
    Precedes lock i j := by
  obtain ⟨k, hi, hj⟩ := hw
  intro k₁ k₂ hi₁ hj₂
  obtain rfl := h.one i k k₁ hi hi₁
  rcases hj with hheld | ⟨hqueue, hahead⟩
  · exact .inl (h.increasing j k₂ k hj₂ hheld)
  · exact .inr ⟨h.one j k k₂ hqueue hj₂, hahead⟩

theorem Ordered.precedes_of_transGen (h : Ordered lock) {i j : ι}
    (hw : Relation.TransGen (WaitsFor lock) i j) : Precedes lock i j := by
  induction hw using Relation.TransGen.head_induction_on with
  | single hw => exact h.precedes hw
  | head hw hrest ih =>
    rename_i i m
    intro k k' hi hj
    -- the client in between waits too
    obtain ⟨n, hm⟩ : ∃ n, m ∈ (lock n).queue := by
      obtain ⟨b, ⟨n, hn, -⟩, -⟩ := Relation.TransGen.head'_iff.mp hrest
      exact ⟨n, hn⟩
    rcases h.precedes hw k n hi hm with hlt | ⟨rfl, hahead⟩
    · rcases ih n k' hm hj with hlt' | ⟨rfl, -⟩
      · exact .inl (hlt.trans hlt')
      · exact .inl hlt
    · rcases ih k k' hm hj with hlt' | ⟨rfl, hahead'⟩
      · exact .inl hlt'
      · exact .inr ⟨rfl, hahead'.trans hahead⟩

theorem Ordered.not_transGen_waitsFor (h : Ordered lock) (i : ι) :
    ¬ Relation.TransGen (WaitsFor lock) i i := by
  intro hw
  obtain ⟨b, ⟨k, hi, -⟩, -⟩ := Relation.TransGen.head'_iff.mp hw
  rcases h.precedes_of_transGen hw k k hi hi with hlt | ⟨-, hahead⟩
  · exact lt_irrefl k hlt
  · exact lt_irrefl _ hahead

end Waiting

end FifoLock
