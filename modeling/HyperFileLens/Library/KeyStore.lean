import Mathlib.Logic.Function.Basic

/-!
# Stores of expiring keys

A store maps keys to items with a time of expiry, and has a clock of its own. Times
are in milliseconds and times to live in seconds, as in Redis. An item that has
expired is not found any more.
-/

namespace KeyStore

/-- A value and the last time it is found. -/
structure Item (ν : Type) where
  value : ν
  expiry : Nat
deriving DecidableEq

structure Store (κ ν : Type) where
  item : κ → Option (Item ν)
  now : Nat

namespace Store

variable {κ ν : Type} (s : Store κ ν)

/-- The item of a key, unless it has expired. -/
def lookup (k : κ) : Option (Item ν) := (s.item k).filter fun e => s.now ≤ e.expiry

def seconds : Nat := s.now / 1000

def advance (ms : Nat) : Store κ ν := { s with now := s.now + ms }

variable [DecidableEq κ]

def put (k : κ) (v : ν) (ttl : Nat) : Store κ ν :=
  { s with item := Function.update s.item k (some ⟨v, s.now + 1000 * ttl⟩) }

def remove (k : κ) : Store κ ν := { s with item := Function.update s.item k none }

variable {s} {k k' : κ} {v : ν} {ttl : Nat} {e : Item ν}

omit [DecidableEq κ] in
theorem lookup_eq_some_iff : s.lookup k = some e ↔ s.item k = some e ∧ s.now ≤ e.expiry := by
  simp [lookup, Option.filter_eq_some_iff]

@[simp] theorem lookup_put_self : (s.put k v ttl).lookup k = some ⟨v, s.now + 1000 * ttl⟩ :=
  lookup_eq_some_iff.mpr ⟨Function.update_self .., Nat.le_add_right ..⟩

theorem lookup_put_of_ne (h : k' ≠ k) : (s.put k v ttl).lookup k' = s.lookup k' := by
  show Option.filter _ (Function.update s.item k _ k') = _
  rw [Function.update_of_ne h]
  rfl

@[simp] theorem lookup_remove_self : (s.remove k).lookup k = none := by
  simp [lookup, remove]

theorem lookup_remove_of_ne (h : k' ≠ k) : (s.remove k).lookup k' = s.lookup k' := by
  show Option.filter _ (Function.update s.item k _ k') = _
  rw [Function.update_of_ne h]
  rfl

omit [DecidableEq κ] in
theorem lookup_advance {ms : Nat} (h : s.lookup k = some e) (hlive : s.now + ms ≤ e.expiry) :
    (s.advance ms).lookup k = some e :=
  lookup_eq_some_iff.mpr ⟨(lookup_eq_some_iff.mp h).1, hlive⟩

end Store

end KeyStore
