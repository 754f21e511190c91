import Mathlib.Data.Finset.Card
import HyperFileLens.Library.FifoLock
import HyperFileLens.Nas.Lease

/-!
# Lease entries are locks

An entry with its counters represents a lock with its holders. The critical
sections of an entry do to the lock what they should: `enqueue` requests it,
`releaseGranted` releases it, and `abandon` withdraws from its queue.
-/

namespace HyperFileLens.Nas

open FifoLock

def compat (w v : NasLeaseWaiter) : Prop := w.exclusive = false ∧ v.exclusive = false

instance : DecidableRel compat := fun _ _ => inferInstanceAs (Decidable (_ ∧ _))

instance : Std.Symm compat := ⟨fun _ _ h => ⟨h.2, h.1⟩⟩

abbrev LeaseLock := Lock NasLeaseWaiter

def readersOf (held : Finset NasLeaseWaiter) : Finset NasLeaseWaiter :=
  held.filter fun w => w.exclusive = false

structure Represents (e : NasLeaseEntry) (L : LeaseLock) : Prop where
  readers : e.readers = ((readersOf L.held).card : Int)
  writer : e.writer = true ↔ ∃ w ∈ L.held, w.exclusive = true
  waiters : e.waiters = L.queue

/-- A critical section makes an entry represent `L'`, and grants what comes from the
queue of `L`. -/
structure Serves (r : NasLeaseEntry × List NasLeaseWaiter) (L L' : LeaseLock) : Prop where
  represents : Represents r.1 L'
  queue : L.queue = r.2 ++ L'.queue
  held : ∀ w, w ∈ L'.held ↔ w ∈ L.held ∨ w ∈ r.2

section Entry

variable {e : NasLeaseEntry} {held : Finset NasLeaseWaiter} {queue : List NasLeaseWaiter}
  {w : NasLeaseWaiter} {L : LeaseLock}

theorem Represents.empty : Represents {} ⟨∅, []⟩ :=
  ⟨by simp [readersOf], by simp, rfl⟩

theorem Represents.setRefs (h : Represents e L) (refs : Int) :
    Represents { e with refs := refs } L :=
  ⟨h.readers, h.writer, h.waiters⟩

theorem readers_eq_zero_iff (h : Represents e L) :
    e.readers = 0 ↔ ∀ w ∈ L.held, w.exclusive = true := by
  rw [h.readers, Int.natCast_eq_zero, Finset.card_eq_zero, readersOf, Finset.filter_eq_empty_iff]
  simp

theorem admits_iff (h : Represents e L) :
    Admits compat L.held w ↔ e.writer = false ∧ (w.exclusive = true → e.readers = 0) := by
  have hwriter : e.writer = false ↔ ∀ v ∈ L.held, v.exclusive = false := by
    rw [← Bool.not_eq_true, h.writer]
    simp
  rw [hwriter, readers_eq_zero_iff h]
  constructor
  · intro hadmits
    refine ⟨fun v hv => (hadmits v hv).1, fun hw v hv => ?_⟩
    exact absurd (hadmits v hv).2 (by simp [hw])
  · intro ⟨hshared, hexclusive⟩ v hv
    refine ⟨hshared v hv, ?_⟩
    rw [← Bool.not_eq_true]
    intro hw
    exact absurd (hexclusive hw v hv) (by simp [hshared v hv])

/-! ## Grants -/

theorem grant_waiters : (e.grant w).waiters = e.waiters := by
  rw [NasLeaseEntry.grant]
  split
  · rfl
  · rfl

theorem grant_refs : (e.grant w).refs = e.refs := by
  rw [NasLeaseEntry.grant]
  split
  · rfl
  · rfl

theorem Represents.grant (h : Represents e ⟨held, queue⟩) (hw : w ∉ held) :
    Represents (e.grant w) ⟨insert w held, queue⟩ where
  readers := by
    have hw' : w ∉ readersOf held := fun hmem => hw (Finset.mem_filter.mp hmem).1
    have hreaders : e.readers = ((readersOf held).card : Int) := h.readers
    rw [NasLeaseEntry.grant]
    split
    · rename_i hexclusive
      rw [readersOf, Finset.filter_insert, if_neg (by simp [hexclusive])]
      exact hreaders
    · rename_i hexclusive
      have hinsert : readersOf (insert w held) = insert w (readersOf held) := by
        rw [readersOf, Finset.filter_insert, if_pos (by simpa using hexclusive), readersOf]
      rw [hinsert, Finset.card_insert_of_notMem hw']
      show e.readers + 1 = _
      omega
  writer := by
    rw [NasLeaseEntry.grant]
    split
    · rename_i hexclusive
      simp [hexclusive]
    · rename_i hexclusive
      simp [h.writer, hexclusive]
  waiters := grant_waiters.trans h.waiters

theorem Represents.setWaiters (h : Represents e ⟨held, queue⟩) (queue' : List NasLeaseWaiter) :
    Represents { e with waiters := queue' } ⟨held, queue'⟩ :=
  ⟨h.readers, h.writer, rfl⟩

theorem serves_grantShared {queue' : List NasLeaseWaiter} (h : Represents e ⟨held, queue'⟩)
    (hwriter : e.writer = false) (hshared : ∀ w ∈ queue.head?, w.exclusive = true → held ≠ ∅)
    (hcons : Consistent compat ⟨held, queue⟩) :
    Serves (e.grantShared queue) ⟨held, queue⟩ (serve compat held queue) := by
  induction queue generalizing e held queue' with
  | nil => exact ⟨h.setWaiters [], rfl, by simp [serve, NasLeaseEntry.grantShared]⟩
  | cons w queue ih =>
    rw [NasLeaseEntry.grantShared, serve]
    split
    · rename_i hexclusive
      -- a shared client holds the lock, so the exclusive head waits
      have hblocked : ¬ Admits compat held w := fun hadmits => by
        obtain ⟨v, hv⟩ := Finset.nonempty_iff_ne_empty.mpr (hshared w rfl hexclusive)
        exact absurd (hadmits v hv).2 (by simp [hexclusive])
      rw [if_neg hblocked]
      exact ⟨h.setWaiters _, rfl, by simp⟩
    · rename_i hexclusive
      have hadmits : Admits compat held w :=
        (admits_iff h).mpr ⟨hwriter, fun hw => absurd hw hexclusive⟩
      rw [if_pos hadmits]
      have hgrant : (e.grant w).writer = false := by
        rw [NasLeaseEntry.grant, if_neg hexclusive]
        exact hwriter
      have hrest := ih (h.grant fun hheld => hcons.notHeld w List.mem_cons_self hheld) hgrant
        (fun _ _ _ => Finset.insert_ne_empty w held) (hcons.insert hadmits)
      refine ⟨hrest.represents, by rw [List.cons_append, ← hrest.queue], fun v => ?_⟩
      rw [hrest.held, Finset.mem_insert, List.mem_cons]
      tauto

theorem held_eq_empty (h : Represents e L) (hwriter : e.writer = false) (hreaders : e.readers = 0) :
    L.held = ∅ := by
  refine Finset.eq_empty_of_forall_notMem fun w hw => ?_
  have hexclusive := (readers_eq_zero_iff h).mp hreaders w hw
  exact absurd (h.writer.mpr ⟨w, hw, hexclusive⟩) (by simp [hwriter])

/-- `grantWaiters` serves the queue. -/
theorem serves_grantWaiters (h : Represents e L) (hcons : Consistent compat L) :
    Serves e.grantWaiters L (serve compat L.held L.queue) := by
  have hstay : (∀ w ∈ L.queue.head?, ¬ Admits compat L.held w) →
      Serves (e, []) L (serve compat L.held L.queue) := by
    intro hblocked
    rw [serve_eq_self hblocked]
    exact ⟨h, rfl, by simp⟩
  rw [NasLeaseEntry.grantWaiters]
  split
  · rename_i hwriter
    refine hstay fun w _ hadmits => ?_
    exact absurd ((admits_iff h).mp hadmits).1 (by simp [hwriter])
  rename_i hwriter
  rw [Bool.not_eq_true] at hwriter
  split
  · rename_i hwaiters
    exact hstay (by simp [← h.waiters, hwaiters])
  rename_i w queue hwaiters
  have hq : L.queue = w :: queue := h.waiters.symm.trans hwaiters
  obtain ⟨held, queue', rfl⟩ : ∃ held queue', L = ⟨held, queue'⟩ := ⟨_, _, rfl⟩
  obtain rfl : queue' = w :: queue := hq
  split
  · rename_i hexclusive
    split
    · rename_i hreaders
      refine hstay fun v hv hadmits => ?_
      obtain rfl : w = v := by simpa using hv
      exact hreaders (((admits_iff h).mp hadmits).2 hexclusive)
    · -- the exclusive head is granted, and the next head waits for it
      rename_i hreaders
      obtain rfl : held = ∅ := held_eq_empty h hwriter (not_not.mp hreaders)
      have hserve : serve compat ∅ (w :: queue) = ⟨{w}, queue⟩ := by
        rw [serve, if_pos (by simp [Admits])]
        refine serve_eq_self fun v _ hadmits => ?_
        exact absurd (hadmits w (by simp)).1 (by simp [hexclusive])
      rw [hserve]
      exact ⟨(h.setWaiters queue).grant (by simp), rfl, by simp⟩
  · rename_i hexclusive
    refine serves_grantShared h hwriter (fun v hv hv' => ?_) hcons
    obtain rfl : w = v := by simpa using hv
    exact absurd hv' hexclusive

/-! ## Critical sections -/

/-- The entry is asked for. Its waiter is granted, or waits in the queue. -/
theorem serves_enqueue (h : Represents e L) (hw : w ∉ L.held) :
    Serves (e.enqueue w) ⟨L.held, L.queue ++ [w]⟩ (request compat L w) := by
  have hcan : e.canAcquireImmediately w.exclusive = true ↔
      L.queue = [] ∧ Admits compat L.held w := by
    rw [admits_iff h, ← h.waiters, NasLeaseEntry.canAcquireImmediately]
    cases e.writer <;> cases e.waiters <;> cases w.exclusive <;> simp
  rw [NasLeaseEntry.enqueue, request]
  split
  · rename_i himmediately
    have hfree := hcan.mp himmediately
    rw [if_pos hfree]
    obtain ⟨held, queue⟩ := L
    obtain rfl : queue = [] := hfree.1
    exact ⟨h.grant hw, rfl, by simp [or_comm]⟩
  · rename_i himmediately
    rw [if_neg fun hfree => himmediately (hcan.mpr hfree)]
    exact ⟨⟨h.readers, h.writer, by rw [h.waiters]⟩, by simp, by simp⟩

theorem serves_releaseGranted (h : Represents e L) (hcons : Consistent compat L) (hw : w ∈ L.held) :
    Serves (e.releaseGranted w.exclusive) ⟨L.held.erase w, L.queue⟩ (release compat L w) := by
  refine serves_grantWaiters ?_ (hcons.erase_held w)
  split
  · rename_i hexclusive
    -- an exclusive holder is the only one
    have honly : ∀ v ∈ L.held, v = w := fun v hv => by
      by_contra hne
      exact absurd (hcons.together v hv w hw hne).2 (by simp [hexclusive])
    have hempty : L.held.erase w = ∅ :=
      Finset.eq_empty_of_forall_notMem fun v hv =>
        Finset.ne_of_mem_erase hv (honly v (Finset.mem_of_mem_erase hv))
    rw [hempty]
    refine ⟨?_, by simp, h.waiters⟩
    rw [(readers_eq_zero_iff h).mpr fun v hv => honly v hv ▸ hexclusive]
    simp [readersOf]
  · rename_i hshared
    rw [Bool.not_eq_true] at hshared
    refine ⟨?_, ?_, h.waiters⟩
    · have hmem : w ∈ readersOf L.held := Finset.mem_filter.mpr ⟨hw, hshared⟩
      have hcard := Finset.card_pos.mpr ⟨w, hmem⟩
      show e.readers - 1 = _
      rw [readersOf, Finset.filter_erase, ← readersOf, Finset.card_erase_of_mem hmem, h.readers]
      omega
    · show e.writer = true ↔ _
      rw [h.writer]
      refine exists_congr fun v => ?_
      rw [Finset.mem_erase]
      refine ⟨fun hv => ⟨⟨?_, hv.1⟩, hv.2⟩, fun hv => ⟨hv.1.2, hv.2⟩⟩
      rintro rfl
      exact absurd hv.2 (by simp [hshared])

theorem serves_abandon (h : Represents e L) (hcons : Consistent compat L) :
    Serves (e.abandon w) ⟨L.held, L.queue.erase w⟩ (withdraw compat L w) := by
  refine serves_grantWaiters ?_ (hcons.erase_queue w)
  exact ⟨h.readers, h.writer, by rw [h.waiters]⟩

/-! ## References -/

theorem grantShared_refs : (e.grantShared queue).1.refs = e.refs := by
  induction queue generalizing e with
  | nil => rfl
  | cons w queue ih =>
    rw [NasLeaseEntry.grantShared]
    split
    · rfl
    · exact ih.trans grant_refs

theorem grantWaiters_refs : e.grantWaiters.1.refs = e.refs := by
  rw [NasLeaseEntry.grantWaiters]
  split
  · rfl
  split
  · rfl
  split
  · split
    · rfl
    · exact grant_refs
  · exact grantShared_refs

theorem enqueue_refs : (e.enqueue w).1.refs = e.refs := by
  rw [NasLeaseEntry.enqueue]
  split
  · exact grant_refs
  · rfl

theorem releaseGranted_refs (exclusive : Bool) : (e.releaseGranted exclusive).1.refs = e.refs := by
  rw [NasLeaseEntry.releaseGranted, grantWaiters_refs]
  split
  · rfl
  · rfl

theorem abandon_refs : (e.abandon w).1.refs = e.refs := grantWaiters_refs

end Entry

end HyperFileLens.Nas
