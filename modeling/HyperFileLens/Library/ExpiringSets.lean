import Mathlib

/-!
# Sets that expire

A key holds a set of members and may have a time of expiry, as a set or a sorted set of Redis
does. Times are in milliseconds, and times to live in whole seconds.

*Keys.*  A key that has expired holds nothing any more (`Key.settle`), and a key that loses its
last member loses its expiry with it (`Key.put`).

*Scores.*  A sorted set gives every member a score.
-/

namespace ExpiringSets

variable {α : Type} [DecidableEq α]

/-- A set of members and the last time at which it is found. -/
structure Key (α : Type) where
  members : Finset α
  expiry : Option Nat

namespace Key

def absent : Key α := ⟨∅, none⟩

def settle (now : Nat) (k : Key α) : Key α :=
  match k.expiry with
  | none => k
  | some e => if e < now then absent else k

def put (members : Finset α) (k : Key α) : Key α :=
  ⟨members, if members = ∅ then none else k.expiry⟩

def pttl (now : Nat) (k : Key α) : Int :=
  if k.members = ∅ then -2
  else match k.expiry with
    | none => -1
    | some e => e - now

/-- `TTL`, which rounds to seconds. -/
def ttl (now : Nat) (k : Key α) : Int :=
  if k.members = ∅ then -2
  else match k.expiry with
    | none => -1
    | some e => (e - now + 500) / 1000

def expire (now seconds : Nat) (k : Key α) : Key α :=
  if k.members = ∅ then k else { k with expiry := some (now + 1000 * seconds) }

@[simp] theorem members_put (members : Finset α) (k : Key α) : (k.put members).members = members :=
  rfl

@[simp] theorem members_expire (now seconds : Nat) (k : Key α) :
    (k.expire now seconds).members = k.members := by
  rw [expire]
  split
  · rfl
  · rfl

omit [DecidableEq α] in
theorem settle_cases (now : Nat) (k : Key α) :
    k.settle now = k ∨ k.settle now = absent ∧ ∃ e, k.expiry = some e ∧ e < now := by
  rw [settle]
  cases h : k.expiry with
  | none => exact .inl rfl
  | some e =>
    simp only
    split
    · rename_i he
      exact .inr ⟨rfl, e, rfl, he⟩
    · exact .inl rfl

omit [DecidableEq α] in
theorem settle_eq_self {now : Nat} {k : Key α} (h : ∀ e, k.expiry = some e → now ≤ e) :
    k.settle now = k := by
  rcases k.settle_cases now with hsame | ⟨-, e, he, hgone⟩
  · exact hsame
  · exact absurd (h e he) (not_le.mpr hgone)

omit [DecidableEq α] in
theorem le_of_expiry_settle {now e : Nat} {k : Key α} (h : (k.settle now).expiry = some e) :
    now ≤ e := by
  rw [settle] at h
  cases he : k.expiry with
  | none =>
    simp only [he] at h
    cases h
  | some e' =>
    simp only [he] at h
    split at h
    · cases h
    · rw [he] at h
      cases h
      omega

theorem settle_put_settle (now : Nat) (members : Finset α) (k : Key α) :
    ((k.settle now).put members).settle now = (k.settle now).put members := by
  refine settle_eq_self fun e he => ?_
  rw [put] at he
  split at he
  · cases he
  · exact le_of_expiry_settle he

omit [DecidableEq α] in
theorem settle_settle (now : Nat) (k : Key α) : (k.settle now).settle now = k.settle now :=
  settle_eq_self fun _ he => le_of_expiry_settle he

omit [DecidableEq α] in
theorem members_settle_subset (now : Nat) (k : Key α) : (k.settle now).members ⊆ k.members := by
  rcases k.settle_cases now with h | ⟨h, -⟩
  · rw [h]
  · rw [h]
    exact Finset.empty_subset _

omit [DecidableEq α] in
theorem members_settle_anti {now later : Nat} (h : now ≤ later) (k : Key α) :
    (k.settle later).members ⊆ (k.settle now).members := by
  rcases k.settle_cases now with hkept | ⟨-, e, he, hgone⟩
  · rw [hkept]
    exact k.members_settle_subset later
  · have hlater : k.settle later = absent := by
      simp only [settle, he, if_pos (lt_of_lt_of_le hgone h)]
    rw [hlater]
    exact Finset.empty_subset _

end Key

/-- A sorted set: a key and the scores of its members. -/
structure Scored (α : Type) where
  key : Key α
  score : α → Nat

namespace Scored

def absent : Scored α := ⟨Key.absent, fun _ => 0⟩

def members (z : Scored α) : Finset α := z.key.members

/-- The sorted set as it is found at a time. -/
def settle (now : Nat) (z : Scored α) : Scored α := { z with key := z.key.settle now }

/-- `ZADD` -/
def add (member : α) (score : Nat) (z : Scored α) : Scored α :=
  ⟨z.key.put (insert member z.members), Function.update z.score member score⟩

/-- `ZREM` -/
def remove (member : α) (z : Scored α) : Scored α :=
  { z with key := z.key.put (z.members.erase member) }

def upTo (score : Nat) (z : Scored α) : Finset α := z.members.filter fun m => z.score m ≤ score

/-- `ZREMRANGEBYSCORE` from below. -/
def removeUpTo (score : Nat) (z : Scored α) : Scored α :=
  { z with key := z.key.put (z.members \ z.upTo score) }

def latest (z : Scored α) : Nat := z.members.sup z.score

def expire (now seconds : Nat) (z : Scored α) : Scored α :=
  { z with key := z.key.expire now seconds }

omit [DecidableEq α] in
theorem score_le_latest {z : Scored α} {m : α} (h : m ∈ z.members) : z.score m ≤ z.latest :=
  Finset.le_sup h

theorem mem_removeUpTo {z : Scored α} {n : Nat} {m : α} :
    m ∈ (z.removeUpTo n).members ↔ m ∈ z.members ∧ n < z.score m := by
  show m ∈ z.members \ z.upTo n ↔ _
  simp only [upTo, Finset.mem_sdiff, Finset.mem_filter, not_and, not_le]
  constructor
  · exact fun h => ⟨h.1, h.2 h.1⟩
  · exact fun h => ⟨h.1, fun _ => h.2⟩

end Scored

end ExpiringSets
