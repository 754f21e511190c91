import HyperFileLens.Nas.LeaseEntry

/-!
# The calls of the registry are clients of locks

What a call holds and waits for is read off its place in the code. `Simulates`
says that the calls hold and wait for the locks that the entries represent. Every
critical section of an entry keeps it (`Simulates.settle`).
-/

namespace HyperFileLens.Nas

open FifoLock

/-! ## Calls -/

namespace Call

/-- How many leases of a call are granted, from the first on. -/
def acquired (x : Call) : Nat :=
  match x.pc with
  | .started => 0
  | .registering => 0
  | .checking index => index
  | .locking index => index
  | .selecting index => if x.granted then index + 1 else index
  | .canceling index => if x.granted then index + 1 else index
  | .holding => x.leases.length
  | .releasing index => index
  | .returned => 0

def uses (x : Call) : List Nat := x.leases.map Prod.snd

def holds (x : Call) : List Nat := x.uses.take x.acquired

def waitsAt (x : Call) : Option Nat :=
  match x.pc with
  | .selecting index => if x.granted then none else x.uses[index]?
  | .canceling index => if x.granted then none else x.uses[index]?
  | _ => none

variable {x : Call} {i : Nat}

theorem uses_getElem? {index : Nat} {path : LeasePath} (h : x.leases[index]? = some (path, i)) :
    x.uses[index]? = some i := by
  simp [uses, h]

theorem mem_uses_of_holds (h : i ∈ x.holds) : i ∈ x.uses :=
  List.mem_of_mem_take h

theorem mem_uses_of_waitsAt (h : x.waitsAt = some i) : i ∈ x.uses := by
  have hmem : ∀ index : Nat, (if x.granted then none else x.uses[index]?) = some i → i ∈ x.uses := by
    intro index hi
    cases hg : x.granted with
    | true => simp [hg] at hi
    | false => exact List.mem_of_getElem? (by simpa [hg] using hi)
  rw [waitsAt] at h
  split at h
  · exact hmem _ h
  · exact hmem _ h
  · simp at h

theorem holds_of_granted (h : x.waitsAt = some i) :
    ({ x with granted := true } : Call).holds = x.holds ++ [i] ∧
      ({ x with granted := true } : Call).waitsAt = none := by
  have hmem : ∀ index : Nat, (if x.granted then none else x.uses[index]?) = some i →
      x.granted = false ∧ x.uses.take (index + 1) = x.uses.take index ++ [i] := by
    intro index hi
    cases hg : x.granted with
    | true => simp [hg] at hi
    | false =>
      have hi' : x.uses[index]? = some i := by simpa [hg] using hi
      exact ⟨rfl, by rw [List.take_add_one, hi']; rfl⟩
  rw [waitsAt] at h
  split at h
  · rename_i index hpc
    obtain ⟨hg, htake⟩ := hmem index h
    simp [holds, acquired, waitsAt, hpc, hg, uses] at htake ⊢
    exact htake
  · rename_i index hpc
    obtain ⟨hg, htake⟩ := hmem index h
    simp [holds, acquired, waitsAt, hpc, hg, uses] at htake ⊢
    exact htake
  · simp at h

end Call

/-! ## Clients -/

namespace Registry

variable {s : Registry} {c i j : Nat} {x x₁ : Call} {w v : NasLeaseWaiter}

def Holds (s : Registry) (w : NasLeaseWaiter) (i : Nat) : Prop :=
  ∃ x, s.call w.call = some x ∧ x.exclusive = w.exclusive ∧ i ∈ x.holds

def Waits (s : Registry) (w : NasLeaseWaiter) (i : Nat) : Prop :=
  ∃ x, s.call w.call = some x ∧ x.exclusive = w.exclusive ∧ x.waitsAt = some i

theorem holds_waiter (hx : s.call c = some x) : s.Holds (waiter c x) i ↔ i ∈ x.holds := by
  constructor
  · rintro ⟨y, hy, -, hi⟩
    obtain rfl := Option.some.inj (hy.symm.trans hx)
    exact hi
  · intro hi
    exact ⟨x, hx, rfl, hi⟩

theorem waits_waiter (hx : s.call c = some x) : s.Waits (waiter c x) i ↔ x.waitsAt = some i := by
  constructor
  · rintro ⟨y, hy, -, hi⟩
    obtain rfl := Option.some.inj (hy.symm.trans hx)
    exact hi
  · intro hi
    exact ⟨x, hx, rfl, hi⟩

@[simp] theorem call_setCall_self : (s.setCall c x).call c = some x := by
  simp [setCall]

theorem call_setCall_of_ne {d : Nat} (h : d ≠ c) : (s.setCall c x).call d = s.call d := by
  simp [setCall, h]

theorem holds_setCall_of_ne (hx : s.call c = some x) (hmode : x₁.exclusive = x.exclusive)
    (hw : w ≠ waiter c x) : (s.setCall c x₁).Holds w i ↔ s.Holds w i := by
  by_cases hc : w.call = c
  · subst hc
    have hne : x.exclusive ≠ w.exclusive := fun heq => hw (by rw [waiter, heq])
    constructor
    · rintro ⟨y, hy, hy', -⟩
      obtain rfl := Option.some.inj (hy.symm.trans call_setCall_self)
      exact absurd (hmode.symm.trans hy') hne
    · rintro ⟨y, hy, hy', -⟩
      obtain rfl := Option.some.inj (hy.symm.trans hx)
      exact absurd hy' hne
  · rw [Holds, Holds, call_setCall_of_ne hc]

theorem waits_setCall_of_ne (hx : s.call c = some x) (hmode : x₁.exclusive = x.exclusive)
    (hw : w ≠ waiter c x) : (s.setCall c x₁).Waits w i ↔ s.Waits w i := by
  by_cases hc : w.call = c
  · subst hc
    have hne : x.exclusive ≠ w.exclusive := fun heq => hw (by rw [waiter, heq])
    constructor
    · rintro ⟨y, hy, hy', -⟩
      obtain rfl := Option.some.inj (hy.symm.trans call_setCall_self)
      exact absurd (hmode.symm.trans hy') hne
    · rintro ⟨y, hy, hy', -⟩
      obtain rfl := Option.some.inj (hy.symm.trans hx)
      exact absurd hy' hne
  · rw [Waits, Waits, call_setCall_of_ne hc]

/-! ## Granted waiters -/

variable {granted : List NasLeaseWaiter}

theorem holds_close (hgranted : ∀ v ∈ granted, s.Waits v i) :
    (s.close granted).Holds w j ↔ s.Holds w j ∨ j = i ∧ w ∈ granted := by
  by_cases hc : w.call ∈ granted.map (·.call)
  · obtain ⟨v, hv, hcall⟩ := List.mem_map.mp hc
    obtain ⟨y, hy, hmode, hwaits⟩ := hgranted v hv
    rw [hcall] at hy
    have hy' : (s.close granted).call w.call = some { y with granted := true } := by
      simp only [close, hy, Option.map_some, if_pos hc]
    have hmem : w ∈ granted ↔ y.exclusive = w.exclusive := by
      constructor
      · intro hw
        obtain ⟨z, hz, hmode', -⟩ := hgranted w hw
        obtain rfl := Option.some.inj (hz.symm.trans hy)
        exact hmode'
      · intro heq
        have hvw : v = w := by
          cases v
          cases w
          simp_all
        exact hvw ▸ hv
    constructor
    · rintro ⟨z, hz, hmode', hj⟩
      obtain rfl := Option.some.inj (hz.symm.trans hy')
      rw [(Call.holds_of_granted hwaits).1, List.mem_append, List.mem_singleton] at hj
      rcases hj with hj | rfl
      · exact .inl ⟨y, hy, hmode', hj⟩
      · exact .inr ⟨rfl, hmem.mpr hmode'⟩
    · intro h
      have hj : y.exclusive = w.exclusive ∧ (j ∈ y.holds ∨ j = i) := by
        rcases h with ⟨z, hz, hmode', hj⟩ | ⟨rfl, hw⟩
        · obtain rfl := Option.some.inj (hz.symm.trans hy)
          exact ⟨hmode', .inl hj⟩
        · exact ⟨hmem.mp hw, .inr rfl⟩
      refine ⟨_, hy', hj.1, ?_⟩
      rw [(Call.holds_of_granted hwaits).1, List.mem_append, List.mem_singleton]
      exact hj.2
  · have hw : w ∉ granted := fun hw => hc (List.mem_map_of_mem hw)
    have hcall : (s.close granted).call w.call = s.call w.call := by
      simp only [close, if_neg hc, Option.map_id']
    rw [Holds, Holds, hcall]
    simp [hw]

theorem waits_close (hgranted : ∀ v ∈ granted, s.Waits v i) :
    (s.close granted).Waits w j ↔ s.Waits w j ∧ w ∉ granted := by
  by_cases hc : w.call ∈ granted.map (·.call)
  · obtain ⟨v, hv, hcall⟩ := List.mem_map.mp hc
    obtain ⟨y, hy, hmode, hwaits⟩ := hgranted v hv
    rw [hcall] at hy
    have hy' : (s.close granted).call w.call = some { y with granted := true } := by
      simp only [close, hy, Option.map_some, if_pos hc]
    constructor
    · rintro ⟨z, hz, -, hj⟩
      obtain rfl := Option.some.inj (hz.symm.trans hy')
      simp [(Call.holds_of_granted hwaits).2] at hj
    · rintro ⟨⟨z, hz, hmode', -⟩, hw⟩
      obtain rfl := Option.some.inj (hz.symm.trans hy)
      have hvw : v = w := by
        cases v
        cases w
        simp_all
      exact absurd (hvw ▸ hv) hw
  · have hw : w ∉ granted := fun hw => hc (List.mem_map_of_mem hw)
    have hcall : (s.close granted).call w.call = s.call w.call := by
      simp only [close, if_neg hc, Option.map_id']
    rw [Waits, Waits, hcall]
    simp [hw]

end Registry

/-! ## Simulation -/

structure Follows (s : Registry) (lock : Nat → LeaseLock) : Prop where
  held : ∀ i w, w ∈ (lock i).held ↔ s.Holds w i
  queue : ∀ i w, w ∈ (lock i).queue ↔ s.Waits w i

/-- The entries represent well-formed locks, which the calls hold and wait for. -/
structure Simulates (s : Registry) (lock : Nat → LeaseLock) : Prop extends Follows s lock where
  wellFormed : ∀ i, WellFormed compat (lock i)
  represents : ∀ i, Represents (s.entry i) (lock i)

section Simulation

open Registry

variable {s s' : Registry} {lock : Nat → LeaseLock} {c i : Nat} {x x₁ : Call}

variable {s₁ : Registry} {r : NasLeaseEntry × List NasLeaseWaiter} {L₁ L' : LeaseLock}

theorem Follows.setCall (h : Follows s lock) (hx : s.call c = some x)
    (hmode : x₁.exclusive = x.exclusive) {lock₁ : Nat → LeaseLock}
    (hothers : ∀ j v, v ≠ waiter c x → (v ∈ (lock₁ j).held ↔ v ∈ (lock j).held) ∧
      (v ∈ (lock₁ j).queue ↔ v ∈ (lock j).queue))
    (hheld : ∀ j, waiter c x ∈ (lock₁ j).held ↔ j ∈ x₁.holds)
    (hqueue : ∀ j, waiter c x ∈ (lock₁ j).queue ↔ x₁.waitsAt = some j) :
    Follows (s.setCall c x₁) lock₁ := by
  have hwaiter : waiter c x = waiter c x₁ := by rw [waiter, waiter, hmode]
  constructor
  · intro j v
    by_cases hv : v = waiter c x
    · rw [hv, hheld, hwaiter, holds_waiter call_setCall_self]
    · rw [(hothers j v hv).1, h.held, holds_setCall_of_ne hx hmode hv]
  · intro j v
    by_cases hv : v = waiter c x
    · rw [hv, hqueue, hwaiter, waits_waiter call_setCall_self]
    · rw [(hothers j v hv).2, h.queue, waits_setCall_of_ne hx hmode hv]

/-- A step of a call that changes nothing of what it holds and waits for. -/
theorem Simulates.setCall (h : Simulates s lock) (hx : s.call c = some x)
    (hmode : x₁.exclusive = x.exclusive) (hheld : x₁.holds = x.holds)
    (hqueue : x₁.waitsAt = x.waitsAt) : Simulates (s.setCall c x₁) lock where
  toFollows := h.toFollows.setCall hx hmode (fun _ _ _ => ⟨.rfl, .rfl⟩)
    (fun j => by rw [h.held, holds_waiter hx, hheld])
    fun j => by rw [h.queue, waits_waiter hx, hqueue]
  wellFormed := h.wellFormed
  represents := h.represents

theorem Simulates.newCall (h : Simulates s lock) (hnew : s.call c = none)
    (hheld : x.holds = []) (hqueue : x.waitsAt = none) : Simulates (s.setCall c x) lock where
  held := fun j v => by
    rw [h.held]
    by_cases hc : v.call = c
    · subst hc
      simp [Holds, hnew, hheld]
    · rw [Holds, Holds, call_setCall_of_ne hc]
  queue := fun j v => by
    rw [h.queue]
    by_cases hc : v.call = c
    · subst hc
      simp [Waits, hnew, hqueue]
    · rw [Waits, Waits, call_setCall_of_ne hc]
  wellFormed := h.wellFormed
  represents := h.represents

theorem Simulates.congr (h : Simulates s lock) (hcall : s'.call = s.call)
    (hrepresents : ∀ i, Represents (s'.entry i) (lock i)) : Simulates s' lock where
  held := fun i w => by rw [h.held, Holds, Holds, hcall]
  queue := fun i w => by rw [h.queue, Waits, Waits, hcall]
  wellFormed := h.wellFormed
  represents := hrepresents

theorem Simulates.settle (h : Simulates s lock) (hfollows : Follows s₁ (Function.update lock i L₁))
    (hentry : s₁.entry = s.entry) (hserves : Serves r L₁ L') (hL' : WellFormed compat L')
    (hnodup : L₁.queue.Nodup) : Simulates (s₁.settle i r) (Function.update lock i L') := by
  have hgranted : ∀ v ∈ r.2, (s₁.setEntry i r.1).Waits v i := by
    intro v hv
    refine (hfollows.queue i v).mp ?_
    rw [Function.update_self, hserves.queue]
    exact List.mem_append_left _ hv
  have hdisjoint : ∀ v ∈ r.2, v ∉ L'.queue := by
    rw [hserves.queue, List.nodup_append] at hnodup
    exact fun v hv hv' => hnodup.2.2 v hv v hv' rfl
  constructor
  · constructor
    · intro j v
      rw [Registry.settle, holds_close hgranted]
      show _ ↔ s₁.Holds v j ∨ _
      rw [← hfollows.held]
      by_cases hj : j = i
      · subst hj
        rw [Function.update_self, Function.update_self, hserves.held]
        simp
      · simp [hj]
    · intro j v
      rw [Registry.settle, waits_close hgranted]
      show _ ↔ s₁.Waits v j ∧ _
      rw [← hfollows.queue]
      by_cases hj : j = i
      · subst hj
        rw [Function.update_self, Function.update_self, hserves.queue, List.mem_append]
        constructor
        · intro hv
          exact ⟨.inr hv, fun hv' => hdisjoint v hv' hv⟩
        · rintro ⟨hv | hv, hv'⟩
          · exact absurd hv hv'
          · exact hv
      · rw [Function.update_of_ne hj, Function.update_of_ne hj]
        refine ⟨fun hv => ⟨hv, fun hv' => hj ?_⟩, fun hv => hv.1⟩
        -- a call waits for one entry
        obtain ⟨y, hy, -, hi⟩ := hgranted v hv'
        have hv₁ := (hfollows.queue j v).mp (by rwa [Function.update_of_ne hj])
        obtain ⟨z, hz, -, hz'⟩ := hv₁
        obtain rfl := Option.some.inj (hz.symm.trans hy)
        exact Option.some.inj (hz'.symm.trans hi)
  · intro j
    by_cases hj : j = i
    · subst hj
      rwa [Function.update_self]
    · rw [Function.update_of_ne hj]
      exact h.wellFormed j
  · intro j
    show Represents (Function.update s₁.entry i r.1 j) _
    by_cases hj : j = i
    · subst hj
      rw [Function.update_self, Function.update_self]
      exact hserves.represents
    · rw [Function.update_of_ne hj, Function.update_of_ne hj, hentry]
      exact h.represents j

/-- The queue of an entry is served from its head on, after at most one waiter came or
went. -/
def ServedInOrder (s s' : Registry) (i : Nat) : Prop :=
  ∃ queue granted, queue = granted ++ (s'.entry i).waiters ∧
    (queue = (s.entry i).waiters ∨
      ∃ w, queue = (s.entry i).waiters ++ [w] ∨ queue = (s.entry i).waiters.erase w) ∧
    ∀ v ∈ granted, s'.Holds v i

theorem Simulates.servedInOrder (h : Simulates s lock) (h' : Simulates s' lock) (i : Nat) :
    ServedInOrder s s' i :=
  ⟨(s.entry i).waiters, [], (h.represents i).waiters.trans (h'.represents i).waiters.symm,
    .inl rfl, by simp⟩

theorem Simulates.servedInOrder_settle (h' : Simulates (s₁.settle i r) (Function.update lock i L'))
    (hentry : s₁.entry = s.entry) (hserves : Serves r L₁ L')
    (hqueue : L₁.queue = (s.entry i).waiters ∨
      ∃ w, L₁.queue = (s.entry i).waiters ++ [w] ∨ L₁.queue = (s.entry i).waiters.erase w) (j : Nat) :
    ServedInOrder s (s₁.settle i r) j := by
  by_cases hj : j = i
  · subst hj
    have hwaiters := (h'.represents j).waiters
    rw [Function.update_self] at hwaiters
    refine ⟨L₁.queue, r.2, hwaiters ▸ hserves.queue, hqueue, fun v hv => ?_⟩
    rw [← h'.held, Function.update_self, hserves.held]
    exact .inr hv
  · refine ⟨(s.entry j).waiters, [], ?_, .inl rfl, by simp⟩
    show _ = (Function.update s₁.entry i r.1 j).waiters
    rw [Function.update_of_ne hj, hentry]

theorem Simulates.ask (h : Simulates s lock) (hx : s.call c = some x)
    (hmode : x₁.exclusive = x.exclusive) (hholds : x₁.holds = x.holds) (hi : i ∉ x.holds)
    (hwaits : x.waitsAt = none) (hwaits₁ : x₁.waitsAt = some i) :
    ∃ lock', Simulates ((s.setCall c x₁).settle i ((s.entry i).enqueue (waiter c x))) lock' ∧
      ∀ j, ServedInOrder s ((s.setCall c x₁).settle i ((s.entry i).enqueue (waiter c x))) j := by
  have hheld : waiter c x ∉ (lock i).held := by rwa [h.held, holds_waiter hx]
  have hqueue : ∀ j, waiter c x ∉ (lock j).queue := fun j => by
    simp [h.queue, waits_waiter hx, hwaits]
  have hfollows : Follows (s.setCall c x₁)
      (Function.update lock i ⟨(lock i).held, (lock i).queue ++ [waiter c x]⟩) := by
    refine h.toFollows.setCall hx hmode (fun j v hv => ?_) (fun j => ?_) fun j => ?_
    · by_cases hj : j = i
      · subst hj
        simp [hv]
      · simp [hj]
    · rw [hholds, ← holds_waiter hx, ← h.held]
      by_cases hj : j = i
      · subst hj
        rw [Function.update_self]
      · rw [Function.update_of_ne hj]
    · rw [hwaits₁]
      by_cases hj : j = i
      · subst hj
        simp
      · simp [hj, hqueue j, Ne.symm hj]
  have hserves := serves_enqueue (h.represents i) hheld
  have hnodup : ((lock i).queue ++ [waiter c x]).Nodup := by
    rw [List.nodup_append]
    refine ⟨(h.wellFormed i).nodup, List.nodup_singleton _, fun v hv w hw heq => ?_⟩
    obtain rfl := List.mem_singleton.mp hw
    exact hqueue i (heq ▸ hv)
  have h' := h.settle hfollows rfl hserves ((h.wellFormed i).request hheld (hqueue i)) hnodup
  refine ⟨_, h', Simulates.servedInOrder_settle h' rfl hserves (.inr ⟨waiter c x, .inl ?_⟩)⟩
  rw [(h.represents i).waiters]

theorem Simulates.giveUp (h : Simulates s lock) (hx : s.call c = some x)
    (hmode : x₁.exclusive = x.exclusive) (hholds : x₁.holds = x.holds)
    (hwaits : x.waitsAt = some i) (hwaits₁ : x₁.waitsAt = none) :
    ∃ lock', Simulates ((s.setCall c x₁).settle i ((s.entry i).abandon (waiter c x))) lock' ∧
      ∀ j, ServedInOrder s ((s.setCall c x₁).settle i ((s.entry i).abandon (waiter c x))) j := by
  have hnodup := (h.wellFormed i).nodup
  have hfollows : Follows (s.setCall c x₁)
      (Function.update lock i ⟨(lock i).held, (lock i).queue.erase (waiter c x)⟩) := by
    refine h.toFollows.setCall hx hmode (fun j v hv => ?_) (fun j => ?_) fun j => ?_
    · by_cases hj : j = i
      · subst hj
        simp [List.mem_erase_of_ne hv]
      · simp [hj]
    · rw [hholds, ← holds_waiter hx, ← h.held]
      by_cases hj : j = i
      · subst hj
        rw [Function.update_self]
      · rw [Function.update_of_ne hj]
    · by_cases hj : j = i
      · subst hj
        simp [hnodup.mem_erase_iff, hwaits₁]
      · rw [Function.update_of_ne hj, h.queue, waits_waiter hx, hwaits, hwaits₁]
        simp [Ne.symm hj]
  have hserves : Serves ((s.entry i).abandon (waiter c x))
      ⟨(lock i).held, (lock i).queue.erase (waiter c x)⟩ (withdraw compat (lock i) (waiter c x)) :=
    serves_abandon (h.represents i) (h.wellFormed i).toConsistent
  have h' := h.settle hfollows rfl hserves ((h.wellFormed i).withdraw _) (hnodup.erase _)
  refine ⟨_, h', Simulates.servedInOrder_settle h' rfl hserves (.inr ⟨waiter c x, .inr ?_⟩)⟩
  rw [(h.represents i).waiters]

theorem Simulates.letGo (h : Simulates s lock) (hx : s.call c = some x)
    (hmode : x₁.exclusive = x.exclusive) (hholds : x.holds = x₁.holds ++ [i])
    (hi : i ∉ x₁.holds) (hwaits : x.waitsAt = none) (hwaits₁ : x₁.waitsAt = none) :
    ∃ lock', Simulates ((s.setCall c x₁).settle i ((s.entry i).releaseGranted x.exclusive)) lock' ∧
      ∀ j, ServedInOrder s
        ((s.setCall c x₁).settle i ((s.entry i).releaseGranted x.exclusive)) j := by
  have hheld : waiter c x ∈ (lock i).held := by
    rw [h.held, holds_waiter hx, hholds]
    simp
  have hfollows : Follows (s.setCall c x₁)
      (Function.update lock i ⟨(lock i).held.erase (waiter c x), (lock i).queue⟩) := by
    refine h.toFollows.setCall hx hmode (fun j v hv => ?_) (fun j => ?_) fun j => ?_
    · by_cases hj : j = i
      · subst hj
        simp [hv]
      · simp [hj]
    · by_cases hj : j = i
      · subst hj
        simp [hi]
      · rw [Function.update_of_ne hj, h.held, holds_waiter hx, hholds]
        simp [hj]
    · have hnot : waiter c x ∉ (lock j).queue := by simp [h.queue, waits_waiter hx, hwaits]
      by_cases hj : j = i
      · subst hj
        simp [hnot, hwaits₁]
      · simp [hj, hnot, hwaits₁]
  have hserves : Serves ((s.entry i).releaseGranted x.exclusive)
      ⟨(lock i).held.erase (waiter c x), (lock i).queue⟩ (release compat (lock i) (waiter c x)) :=
    serves_releaseGranted (h.represents i) (h.wellFormed i).toConsistent hheld
  have h' := h.settle hfollows rfl hserves ((h.wellFormed i).release _) (h.wellFormed i).nodup
  exact ⟨_, h', Simulates.servedInOrder_settle h' rfl hserves (.inl (h.represents i).waiters.symm)⟩

end Simulation

end HyperFileLens.Nas
