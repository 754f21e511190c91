import Mathlib.Data.List.Basic

/-!
# Waking waiters by closing a channel

A waiter reads a condition and the channel in use under a mutex, and sleeps on the
channel after the mutex is free again. Who changes the condition closes the channel and
puts a new one in its place. A closed channel wakes everyone who sleeps on it, now or
later.

*Bells.*  A `Bell` is all the channels made so far. The one in use is open, so closing it
does not panic, and the earlier ones are closed.

*Hearing.*  `Hears` says that a waiter misses nothing: its channel is closed when its
condition holds. It is kept by a change that rings the bell, and by a change that does
not make the condition true.
-/

namespace Broadcast

/-- The channels made so far and the one in use. -/
structure Bell where
  /-- Whether each channel made so far is closed. -/
  channels : List Bool
  /-- The channel in use. -/
  changed : Nat
  last : channels.length = changed + 1
  isOpen : channels[changed]? = some false
  earlier : ∀ c < changed, channels[c]? = some true

namespace Bell

def new : Bell where
  channels := [false]
  changed := 0
  last := rfl
  isOpen := rfl
  earlier := by simp

/-- The channel in use is closed and a new one takes its place. -/
def ring (b : Bell) : Bell where
  channels := b.channels.set b.changed true ++ [false]
  changed := b.channels.length
  last := by simp
  isOpen := by simp
  earlier := by
    intro c hc
    rw [List.getElem?_append_left (by simpa using hc)]
    by_cases h : c = b.changed
    · subst h
      simp [hc]
    · rw [List.getElem?_set_ne (Ne.symm h)]
      have := b.last
      exact b.earlier c (by omega)

def Closed (b : Bell) (c : Nat) : Prop := b.channels[c]? = some true

instance (b : Bell) (c : Nat) : Decidable (b.Closed c) :=
  inferInstanceAs (Decidable (_ = _))

theorem closed_iff {b : Bell} {c : Nat} : b.Closed c ↔ c < b.changed := by
  constructor
  · intro h
    have hlen : c < b.channels.length := (List.getElem?_eq_some_iff.mp h).1
    have hlast := b.last
    have hne : c ≠ b.changed := by
      rintro rfl
      rw [Closed, b.isOpen] at h
      cases h
    omega
  · exact b.earlier c

@[simp] theorem ring_changed (b : Bell) : b.ring.changed = b.changed + 1 := b.last

end Bell

/-- A waiter on the channel `c` misses nothing: its channel is closed when its condition
holds. -/
structure Hears (b : Bell) (c : Nat) (ready : Prop) : Prop where
  made : c ≤ b.changed
  told : ready → b.Closed c

namespace Hears

variable {b : Bell} {c : Nat} {ready ready' : Prop}

/-- A waiter that goes to sleep on the channel in use while its condition is false. -/
theorem sleep (h : ¬ready) : Hears b b.changed ready := ⟨Nat.le_refl _, fun hr => (h hr).elim⟩

theorem ring (h : Hears b c ready) : Hears b.ring c ready' := by
  have hmade := h.made
  refine ⟨?_, fun _ => Bell.closed_iff.mpr ?_⟩ <;> rw [Bell.ring_changed] <;> omega

theorem quiet (h : Hears b c ready) (himp : ready' → ready) : Hears b c ready' :=
  ⟨h.made, fun hr => h.told (himp hr)⟩

end Hears

end Broadcast
