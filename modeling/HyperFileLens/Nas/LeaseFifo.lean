import HyperFileLens.Nas.LeaseRegistry

/-!
# The lease registry is a first-in first-out reader/writer lock

In every run of any calls, releases and cancellations the entries of the registry are
locks that are served in order, calls for a path share its entry, and calls that wait
for each other never wait in a circle.
-/

namespace HyperFileLens.Nas

open FifoLock Transition

/-! ## Steps -/

section Steps

open Registry

variable {s s' : Registry} {users : Nat → Finset Nat} {c i : Nat} {x x₁ : Call}

/-- A path keeps its entry up to the last reference, and queues are served in order. -/
structure LeaseStepKeeps (s s' : Registry) : Prop where
  invariant : Invariant s'
  evolves : Evolves s s'
  served : ∀ i, ServedInOrder s s' i

theorem Invariant.ordered (h : Invariant s) (hx : s.call c = some x) : x.Ordered := by
  obtain ⟨⟨users, hreg, -⟩, -⟩ := h
  exact hreg.ordered c x hx

theorem pairwise_normalizedLeasePaths (paths : List (List Char)) :
    (normalizedLeasePaths paths).Pairwise (· < ·) := by
  have hfold : ∀ (raws : List (List Char)) (result : List LeasePath), result.Nodup →
      (raws.foldl (fun result raw =>
        let path := FilePath.cleanText (Text.trimSpace raw)
        if path = [] ∨ path = ['.'] then result
        else if path ∈ result then result
        else result ++ [path]) result).Nodup := by
    intro raws
    induction raws with
    | nil => exact fun _ hresult => hresult
    | cons raw raws ih =>
      intro result hresult
      refine ih _ ?_
      dsimp only
      split
      · exact hresult
      split
      · exact hresult
      · rename_i hnew
        refine List.nodup_append.mpr ⟨hresult, List.nodup_singleton _, fun p hp q hq heq => ?_⟩
        obtain rfl := List.mem_singleton.mp hq
        exact hnew (heq ▸ hp)
  have hnodup : (normalizedLeasePaths paths).Nodup :=
    (List.perm_insertionSort (· ≤ ·) _).nodup_iff.mpr (hfold paths [] List.nodup_nil)
  exact ((List.pairwise_insertionSort (· ≤ ·) _).and hnodup).imp fun h => lt_of_le_of_ne h.1 h.2

/-- A step of a call that takes no lock and lets go of none. -/
theorem keeps_setCall (h : Invariant s) (hx : s.call c = some x)
    (hmode : x₁.exclusive = x.exclusive) (hleases : x₁.leases = x.leases)
    (hreach : x₁.pc.reach ≤ x.leases.length) (hstarted : x₁.pc = .started → x₁.leases = [])
    (hholds : x₁.holds = x.holds) (hwaits : x₁.waitsAt = x.waitsAt) :
    LeaseStepKeeps s (s.setCall c x₁) := by
  obtain ⟨⟨users, hreg, hused⟩, lock, hsim⟩ := h
  have hsim' := hsim.setCall hx hmode hholds hwaits
  refine ⟨⟨⟨users, hreg.setCall hx hleases ⟨?_, hleases ▸ hreach, hstarted⟩, hused⟩, lock, hsim'⟩,
    fun _ _ hp => .inl hp, hsim.servedInOrder hsim'⟩
  exact hleases ▸ (hreg.ordered c x hx).sorted

theorem keeps_settle {r : NasLeaseEntry × List NasLeaseWaiter} (h : Registered s users)
    (hused : Used s users) (hx : s.call c = some x) (hleases : x₁.leases = x.leases)
    (hreach : x₁.pc.reach ≤ x.leases.length) (hstarted : x₁.pc ≠ .started)
    (hrefs : r.1.refs = (s.entry i).refs)
    (hlock : ∃ lock', Simulates ((s.setCall c x₁).settle i r) lock' ∧
      ∀ j, ServedInOrder s ((s.setCall c x₁).settle i r) j) :
    LeaseStepKeeps s ((s.setCall c x₁).settle i r) := by
  obtain ⟨lock', hsim, hserved⟩ := hlock
  have hreg := h.setCall hx hleases ⟨hleases ▸ (h.ordered c x hx).sorted, hleases ▸ hreach,
    fun hpc => absurd hpc hstarted⟩
  exact ⟨⟨⟨users, hreg.settle hrefs, hused⟩, lock', hsim⟩, fun _ _ hp => .inl hp, hserved⟩

theorem rel_of_mem_take {α : Type} {R : α → α → Prop} {l : List α} (h : l.Pairwise R) {n : Nat}
    {a b : α} (ha : a ∈ l.take n) (hb : l[n]? = some b) : R a b := by
  have htake : l.take (n + 1) = l.take n ++ [b] := by
    rw [List.take_add_one, hb]
    rfl
  have hprefix := h.sublist (List.take_sublist (n + 1) l)
  rw [htake, List.pairwise_append] at hprefix
  exact hprefix.2.2 a ha b (List.mem_singleton_self b)

theorem not_mem_take {l : List Nat} (h : l.Nodup) {index : Nat} (hi : l[index]? = some i) :
    i ∉ l.take index :=
  fun hmem => rel_of_mem_take h hmem hi rfl

section

variable (h : Invariant s)

include h

section

variable (hx : s.call c = some x)

include hx

theorem keeps_register (hpc : x.pc = .started) :
    LeaseStepKeeps s (registerPaths c { x with pc := .registering }
      (s.setCall c { x with pc := .registering }) (normalizedLeasePaths x.paths)) := by
  obtain ⟨⟨users, hreg, hused⟩, lock, hsim⟩ := h
  have hordered := hreg.ordered c x hx
  have hleases : x.leases = [] := hordered.started hpc
  have hreg₁ : Registered (s.setCall c { x with pc := .registering }) users :=
    hreg.setCall hx rfl ⟨hordered.sorted, Nat.zero_le _, fun hstarted => by simp at hstarted⟩
  have hsim₁ : Simulates (s.setCall c { x with pc := .registering }) lock :=
    hsim.setCall hx rfl (by simp [Call.holds, Call.acquired, hpc]) (by simp [Call.waitsAt, hpc])
  obtain ⟨hreg', hsim', hentries⟩ := invariant_registerPaths hreg₁ hused hsim₁ call_setCall_self
    rfl (pairwise_normalizedLeasePaths x.paths) (by simp [hleases])
  exact ⟨⟨hreg', lock, hsim'⟩, fun p i hp => .inl (hentries p i hp), hsim.servedInOrder hsim'⟩

theorem keeps_releaseEntries
    (hpc : x.pc = .releasing 0) : LeaseStepKeeps s (releaseEntries c x s x.leases) := by
  obtain ⟨⟨users, hreg, hused⟩, lock, hsim⟩ := h
  obtain ⟨hreg', hsim', hevolves⟩ := invariant_releaseEntries hreg hused hsim hx hpc
  exact ⟨⟨hreg', lock, hsim'⟩, hevolves, hsim.servedInOrder hsim'⟩

/-- Before it goes on to the next lease, a call holds those before it. -/
theorem keeps_locking {index : Nat} {path : LeasePath} (hpc : x.pc = .locking index)
    (hlease : x.leases[index]? = some (path, i)) :
    LeaseStepKeeps s ((s.setCall c { x with granted := false, pc := .selecting index }).settle i
      ((s.entry i).enqueue (waiter c x))) := by
  obtain ⟨⟨users, hreg, hused⟩, lock, hsim⟩ := h
  have hreach := (hreg.ordered c x hx).reach
  have hi := Call.uses_getElem? hlease
  have hholds : x.holds = x.uses.take index := by simp [Call.holds, Call.acquired, hpc]
  refine keeps_settle hreg hused hx rfl (by simpa [hpc, Pc.reach] using hreach) (by simp)
    enqueue_refs (hsim.ask hx rfl ?_ ?_ ?_ ?_)
  · simp [Call.holds, Call.acquired, Call.uses, hpc]
  · exact hholds ▸ not_mem_take (hreg.nodup_uses hx) hi
  · simp [Call.waitsAt, hpc]
  · exact hi

theorem keeps_canceling {index : Nat} {path : LeasePath} (hpc : x.pc = .canceling index)
    (hlease : x.leases[index]? = some (path, i)) :
    LeaseStepKeeps s ((s.setCall c { x with granted := false, pc := .releasing index }).settle i
      (if x.granted then (s.entry i).releaseGranted x.exclusive
        else (s.entry i).abandon (waiter c x))) := by
  obtain ⟨⟨users, hreg, hused⟩, lock, hsim⟩ := h
  have hreach := (hreg.ordered c x hx).reach
  have hi := Call.uses_getElem? hlease
  have hreach' : index ≤ x.leases.length := by
    rw [hpc] at hreach
    exact Nat.le_of_succ_le hreach
  cases hg : x.granted with
  | true =>
    -- the grant came before the lock, and is given back
    refine keeps_settle hreg hused hx rfl hreach' (by simp) (releaseGranted_refs _)
      (hsim.letGo hx rfl ?_ ?_ ?_ rfl)
    · simp [Call.holds, Call.acquired, Call.uses, hpc, hg, List.take_add_one, hlease]
    · exact not_mem_take (hreg.nodup_uses hx) hi
    · simp [Call.waitsAt, hpc, hg]
  | false =>
    refine keeps_settle hreg hused hx rfl hreach' (by simp) abandon_refs (hsim.giveUp hx rfl ?_ ?_ rfl)
    · simp [Call.holds, Call.acquired, Call.uses, hpc, hg]
    · simp [Call.waitsAt, hpc, hg, hi]

theorem keeps_releasing {index : Nat} {path : LeasePath} (hpc : x.pc = .releasing (index + 1))
    (hlease : x.leases[index]? = some (path, i)) :
    LeaseStepKeeps s ((s.setCall c { x with pc := .releasing index }).settle i
      ((s.entry i).releaseGranted x.exclusive)) := by
  obtain ⟨⟨users, hreg, hused⟩, lock, hsim⟩ := h
  have hreach := (hreg.ordered c x hx).reach
  have hi := Call.uses_getElem? hlease
  have hreach' : index ≤ x.leases.length := by
    rw [hpc] at hreach
    exact Nat.le_of_succ_le hreach
  refine keeps_settle hreg hused hx rfl hreach' (by simp) (releaseGranted_refs _)
    (hsim.letGo hx rfl ?_ ?_ ?_ rfl)
  · simp [Call.holds, Call.acquired, Call.uses, hpc, List.take_add_one, hlease]
  · exact not_mem_take (hreg.nodup_uses hx) hi
  · simp [Call.waitsAt, hpc]

theorem keeps_advance (hs : s.advance c x = some s') : LeaseStepKeeps s s' := by
  rw [advance] at hs
  cases hpc : x.pc with
  | started =>
    simp only [hpc] at hs
    split at hs
    · cases hs
      exact keeps_setCall h hx rfl rfl (Nat.zero_le _) (by simp)
        (by simp [Call.holds, Call.acquired, hpc]) (by simp [Call.waitsAt, hpc])
    · cases hs
      exact keeps_register h hx hpc
  | checking index =>
    simp only [hpc] at hs
    cases hs
    have hreach := (h.ordered hx).reach
    rw [hpc] at hreach
    cases x.canceled with
    | true =>
      exact keeps_setCall h hx rfl rfl (Nat.le_of_succ_le hreach) (by simp)
        (by simp [Call.holds, Call.acquired, Call.uses, hpc]) (by simp [Call.waitsAt, hpc])
    | false =>
      exact keeps_setCall h hx rfl rfl hreach (by simp)
        (by simp [Call.holds, Call.acquired, Call.uses, hpc]) (by simp [Call.waitsAt, hpc])
  | locking index =>
    simp only [hpc] at hs
    cases hlease : x.leases[index]? with
    | none => simp [hlease] at hs
    | some lease =>
      simp only [hlease] at hs
      cases hs
      exact keeps_locking h hx hpc hlease
  | registering => simp [hpc] at hs
  | selecting index => simp [hpc] at hs
  | canceling index =>
    simp only [hpc] at hs
    cases hlease : x.leases[index]? with
    | none => simp [hlease] at hs
    | some lease =>
      simp only [hlease] at hs
      cases hs
      exact keeps_canceling h hx hpc hlease
  | holding => simp [hpc] at hs
  | releasing index =>
    cases index with
    | zero =>
      simp only [hpc] at hs
      cases hs
      exact keeps_releaseEntries h hx hpc
    | succ index =>
      simp only [hpc] at hs
      cases hlease : x.leases[index]? with
      | none => simp [hlease] at hs
      | some lease =>
        simp only [hlease] at hs
        cases hs
        exact keeps_releasing h hx hpc hlease
  | returned => simp [hpc] at hs

theorem keeps_selectReady (hs : s.selectReady c x = some s') : LeaseStepKeeps s s' := by
  rw [selectReady] at hs
  cases hpc : x.pc with
  | selecting index =>
    simp only [hpc] at hs
    split at hs
    · rename_i hg
      cases hs
      have hreach := (h.ordered hx).reach
      rw [hpc] at hreach
      -- the call goes on, or has all its leases
      split
      · rename_i hmore
        exact keeps_setCall h hx rfl rfl hmore (by simp)
          (by simp [Call.holds, Call.acquired, Call.uses, hpc, hg])
          (by simp [Call.waitsAt, hpc, hg])
      · rename_i hlast
        have hlength : x.leases.length = index + 1 :=
          Nat.le_antisymm (Nat.not_lt.mp hlast) hreach
        exact keeps_setCall h hx rfl rfl (Nat.zero_le _) (by simp)
          (by simp [Call.holds, Call.acquired, Call.uses, hpc, hg, hlength])
          (by simp [Call.waitsAt, hpc, hg])
    · simp at hs
  | started => simp [hpc] at hs
  | registering => simp [hpc] at hs
  | checking index => simp [hpc] at hs
  | locking index => simp [hpc] at hs
  | canceling index => simp [hpc] at hs
  | holding => simp [hpc] at hs
  | releasing index => simp [hpc] at hs
  | returned => simp [hpc] at hs

theorem keeps_selectDone (hs : s.selectDone c x = some s') : LeaseStepKeeps s s' := by
  rw [selectDone] at hs
  cases hpc : x.pc with
  | selecting index =>
    simp only [hpc] at hs
    split at hs
    · cases hs
      have hreach := (h.ordered hx).reach
      rw [hpc] at hreach
      exact keeps_setCall h hx rfl rfl hreach (by simp)
        (by simp [Call.holds, Call.acquired, Call.uses, hpc])
        (by simp [Call.waitsAt, Call.uses, hpc])
    · simp at hs
  | started => simp [hpc] at hs
  | registering => simp [hpc] at hs
  | checking index => simp [hpc] at hs
  | locking index => simp [hpc] at hs
  | canceling index => simp [hpc] at hs
  | holding => simp [hpc] at hs
  | releasing index => simp [hpc] at hs
  | returned => simp [hpc] at hs

theorem keeps_release (hs : s.release c x = some s') : LeaseStepKeeps s s' := by
  rw [Registry.release] at hs
  split at hs
  · rename_i hpc
    cases hs
    exact keeps_setCall h hx rfl rfl (Nat.le_refl _) (by simp)
      (by simp [Call.holds, Call.acquired, Call.uses, hpc]) (by simp [Call.waitsAt, hpc])
  · simp at hs

end

theorem keeps_acquire (paths : List (List Char)) (exclusive : Bool) :
    LeaseStepKeeps s { s.setCall s.nextCall { paths := paths, exclusive := exclusive } with
      nextCall := s.nextCall + 1 } := by
  obtain ⟨⟨users, hreg, hused⟩, lock, hsim⟩ := h
  have hnew := hreg.freshCall s.nextCall (Nat.le_refl _)
  have hsim' : Simulates { s.setCall s.nextCall { paths := paths, exclusive := exclusive } with
      nextCall := s.nextCall + 1 } lock :=
    (hsim.newCall hnew rfl rfl).congr rfl hsim.represents
  have hreg' := hreg.newCall (x := { paths := paths, exclusive := exclusive }) rfl
    ⟨List.Pairwise.nil, Nat.le_refl 0, fun _ => rfl⟩
  exact ⟨⟨⟨users, hreg', hused⟩, lock, hsim'⟩, fun _ _ hp => .inl hp,
    hsim.servedInOrder hsim'⟩

theorem keeps_leaseStep {a : LeaseEvent} (hs : leaseStep s a = some s') : LeaseStepKeeps s s' := by
  cases a with
  | acquire paths exclusive =>
    cases hs
    exact keeps_acquire h paths exclusive
  | cancel c =>
    obtain ⟨x, hx, rfl⟩ := Option.map_eq_some_iff.mp hs
    have hordered := h.ordered hx
    exact keeps_setCall h hx rfl rfl hordered.reach hordered.started rfl rfl
  | advance c =>
    obtain ⟨x, hx, hs'⟩ := Option.bind_eq_some_iff.mp hs
    exact keeps_advance h hx hs'
  | selectReady c =>
    obtain ⟨x, hx, hs'⟩ := Option.bind_eq_some_iff.mp hs
    exact keeps_selectReady h hx hs'
  | selectDone c =>
    obtain ⟨x, hx, hs'⟩ := Option.bind_eq_some_iff.mp hs
    exact keeps_selectDone h hx hs'
  | release c =>
    obtain ⟨x, hx, hs'⟩ := Option.bind_eq_some_iff.mp hs
    exact keeps_release h hx hs'

end

end Steps

/-! ## Runs -/

theorem invariant_new : Invariant .new where
  registered := ⟨fun _ => ∅, by constructor <;> simp [Registry.new],
    fun path i hp => by simp [Registry.new] at hp⟩
  simulates := ⟨fun _ => ⟨∅, []⟩,
    ⟨⟨by simp [Registry.Holds, Registry.new], by simp [Registry.Waits, Registry.new]⟩,
      fun _ => .empty, fun _ => .empty⟩⟩

theorem invariant_of_reachable {s : Registry} (h : leaseSystem.Reachable s) : Invariant s := by
  refine System.ReachableUnder.invariant (T := leaseSystem) (fun s₀ hs => ?_) ?_ h
  · obtain rfl : s₀ = .new := hs
    exact invariant_new
  · exact fun _ _ _ hI _ hstep => (keeps_leaseStep hI hstep).invariant

/-! ## Waiting -/

/-- A call waits for the holders of the entry it is queued for, and for those ahead of
it in the queue. -/
def Registry.WaitsFor (s : Registry) (c d : Nat) : Prop :=
  ∃ i, ∃ w ∈ (s.entry i).waiters, w.call = c ∧
    ((∃ y, s.call d = some y ∧ i ∈ y.holds) ∨
      ∃ v ∈ (s.entry i).waiters, v.call = d ∧
        (s.entry i).waiters.idxOf v < (s.entry i).waiters.idxOf w)

section Waiting

variable {s : Registry} {users : Nat → Finset Nat} {lock : Nat → LeaseLock}

def lockAt (s : Registry) (lock : Nat → LeaseLock) (path : LeasePath) : LeaseLock :=
  match s.entries path with
  | some i => lock i
  | none => ⟨∅, []⟩

theorem lockAt_of_mem {path : LeasePath} {w : NasLeaseWaiter}
    (h : w ∈ (lockAt s lock path).held ∨ w ∈ (lockAt s lock path).queue) :
    ∃ i, s.entries path = some i ∧ lockAt s lock path = lock i := by
  rw [lockAt] at h ⊢
  split at h
  · rename_i i hi
    exact ⟨i, hi, rfl⟩
  · simp at h

theorem Call.holds_of_waitsAt {x : Call} {i : Nat} (h : x.waitsAt = some i) :
    ∃ index path, x.leases[index]? = some (path, i) ∧ x.holds = x.uses.take index := by
  have hmem : ∀ index : Nat, (if x.granted then none else x.uses[index]?) = some i →
      x.granted = false ∧ ∃ path, x.leases[index]? = some (path, i) := by
    intro index hi
    cases hg : x.granted with
    | true => simp [hg] at hi
    | false =>
      have hi' : x.uses[index]? = some i := by simpa [hg] using hi
      rw [uses, List.getElem?_map] at hi'
      obtain ⟨lease, hlease, rfl⟩ := Option.map_eq_some_iff.mp hi'
      exact ⟨rfl, lease.1, hlease⟩
  rw [waitsAt] at h
  split at h
  · rename_i index hpc
    obtain ⟨hg, path, hlease⟩ := hmem index h
    exact ⟨index, path, hlease, by simp [holds, acquired, hpc, hg]⟩
  · rename_i index hpc
    obtain ⟨hg, path, hlease⟩ := hmem index h
    exact ⟨index, path, hlease, by simp [holds, acquired, hpc, hg]⟩
  · simp at h

theorem ordered_lockAt (hreg : Registered s users) (hsim : Simulates s lock) :
    FifoLock.Ordered (lockAt s lock) where
  increasing := fun w path path' hqueue hheld => by
    obtain ⟨i, hi, heq⟩ := lockAt_of_mem (.inr hqueue)
    obtain ⟨j, hj, heq'⟩ := lockAt_of_mem (.inl hheld)
    rw [heq, hsim.queue] at hqueue
    rw [heq', hsim.held] at hheld
    obtain ⟨x, hx, -, hwaits⟩ := hqueue
    obtain ⟨y, hy, -, hholds⟩ := hheld
    obtain rfl := Option.some.inj (hy.symm.trans hx)
    obtain ⟨index, p, hlease, htake⟩ := Call.holds_of_waitsAt hwaits
    rw [htake, Call.uses, ← List.map_take] at hholds
    obtain ⟨earlier, hearlier, rfl⟩ := List.mem_map.mp hholds
    -- the leases before the one it waits for have smaller paths
    have hlt := rel_of_mem_take (List.pairwise_map.mp (hreg.ordered _ y hx).sorted) hearlier hlease
    obtain rfl := hreg.injective earlier.1 path' _
      (hreg.mapped _ y _ _ hx (List.mem_of_mem_take hearlier)) hj
    obtain rfl := hreg.injective p path i (hreg.mapped _ y _ _ hx (List.mem_of_getElem? hlease)) hi
    exact hlt
  one := fun w path path' hqueue hqueue' => by
    obtain ⟨i, hi, heq⟩ := lockAt_of_mem (.inr hqueue)
    obtain ⟨j, hj, heq'⟩ := lockAt_of_mem (.inr hqueue')
    rw [heq, hsim.queue] at hqueue
    rw [heq', hsim.queue] at hqueue'
    obtain ⟨x, hx, -, hwaits⟩ := hqueue
    obtain ⟨y, hy, -, hwaits'⟩ := hqueue'
    obtain rfl := Option.some.inj (hy.symm.trans hx)
    obtain rfl := Option.some.inj (hwaits.symm.trans hwaits')
    exact hreg.injective path path' i hi hj

def client (s : Registry) (c : Nat) : NasLeaseWaiter := ⟨c, ((s.call c).map Call.exclusive).getD false⟩

theorem eq_client {w : NasLeaseWaiter} {x : Call} (hx : s.call w.call = some x)
    (hmode : x.exclusive = w.exclusive) : w = client s w.call := by
  rw [client, hx, Option.map_some, Option.getD_some, hmode]

theorem waitsFor_lockAt (hreg : Registered s users) (hsim : Simulates s lock) {c d : Nat}
    (h : s.WaitsFor c d) : FifoLock.WaitsFor (lockAt s lock) (client s c) (client s d) := by
  obtain ⟨i, w, hw, rfl, hd⟩ := h
  have hwaiters := (hsim.represents i).waiters
  rw [hwaiters] at hw hd
  obtain ⟨x, hx, hmode, hwaits⟩ := (hsim.queue i w).mp hw
  obtain ⟨path, hlease⟩ := exists_lease (Call.mem_uses_of_waitsAt hwaits)
  have hpath : lockAt s lock path = lock i := by
    rw [lockAt, hreg.mapped _ x path i hx hlease]
  refine ⟨path, ?_⟩
  rw [hpath, ← eq_client hx hmode]
  refine ⟨hw, ?_⟩
  rcases hd with ⟨y, hy, hholds⟩ | ⟨v, hv, rfl, hahead⟩
  · refine .inl ((hsim.held i _).mpr ⟨y, hy, ?_, hholds⟩)
    rw [client, hy]
    rfl
  · obtain ⟨y, hy, hmode', -⟩ := (hsim.queue i v).mp hv
    rw [← eq_client hy hmode']
    exact .inr ⟨hv, hahead⟩

theorem not_transGen_waitsFor (h : Invariant s) (c : Nat) : ¬ Relation.TransGen s.WaitsFor c c := by
  obtain ⟨⟨users, hreg, -⟩, lock, hsim⟩ := h
  intro hcircle
  exact (ordered_lockAt hreg hsim).not_transGen_waitsFor (client s c)
    (hcircle.lift (client s) fun _ _ => waitsFor_lockAt hreg hsim)

end Waiting

/-! ## The registry -/

/-- A first-in first-out reader/writer lock of every path. -/
structure IsFifoLock (s : Registry) : Prop where
  exclusive : ∀ i, (s.entry i).writer = true → (s.entry i).readers = 0
  nonneg : ∀ i, 0 ≤ (s.entry i).readers
  /-- The head of a queue waits for a writer, or is a writer that waits for readers. -/
  blocked : ∀ i, ∀ w ∈ (s.entry i).waiters.head?,
    (s.entry i).writer = true ∨ w.exclusive = true ∧ 0 < (s.entry i).readers
  /-- The counters count the calls that hold the entry, and its queue is of those that
  wait for it. -/
  accounted : ∀ i, ∃ held, Represents (s.entry i) ⟨held, (s.entry i).waiters⟩ ∧
    (∀ w, w ∈ held ↔ s.Holds w i) ∧ ∀ w, w ∈ (s.entry i).waiters ↔ s.Waits w i
  shared : ∀ c x path i, s.call c = some x → (path, i) ∈ x.leases → s.entries path = some i
  /-- An entry in the map is in use, and counts the calls that use it. -/
  counted : ∀ path i, s.entries path = some i → 0 < (s.entry i).refs ∧
    ∃ users : Finset Nat, (s.entry i).refs = (users.card : Int) ∧
      ∀ c, c ∈ users ↔ ∃ x, s.call c = some x ∧ i ∈ x.uses
  acyclic : ∀ c, ¬ Relation.TransGen s.WaitsFor c c

theorem Invariant.isFifoLock {s : Registry} (h : Invariant s) : IsFifoLock s where
  exclusive := fun i hwriter => by
    obtain ⟨-, lock, hsim⟩ := h
    have hrep := hsim.represents i
    obtain ⟨w, hw, hexclusive⟩ := hrep.writer.mp hwriter
    rw [readers_eq_zero_iff hrep]
    intro v hv
    by_contra hshared
    have hne : w ≠ v := fun heq => hshared (heq ▸ hexclusive)
    exact absurd ((hsim.wellFormed i).together w hw v hv hne).1 (by simp [hexclusive])
  nonneg := fun i => by
    obtain ⟨-, lock, hsim⟩ := h
    rw [(hsim.represents i).readers]
    exact Int.natCast_nonneg _
  blocked := fun i w hw => by
    obtain ⟨-, lock, hsim⟩ := h
    have hrep := hsim.represents i
    rw [hrep.waiters] at hw
    have hnot := (hsim.wellFormed i).blocked w hw
    rw [admits_iff hrep, not_and_or, Classical.not_imp, Bool.not_eq_false] at hnot
    refine hnot.imp_right fun hhead => ⟨hhead.1, ?_⟩
    have hne := hhead.2
    rw [hrep.readers] at hne ⊢
    omega
  accounted := fun i => by
    obtain ⟨-, lock, hsim⟩ := h
    have hwaiters := (hsim.represents i).waiters
    refine ⟨(lock i).held, ?_, hsim.held i, fun w => hwaiters ▸ hsim.queue i w⟩
    rw [hwaiters]
    exact hsim.represents i
  shared := fun c x path i hx hlease => by
    obtain ⟨⟨users, hreg, -⟩, -⟩ := h
    exact hreg.mapped c x path i hx hlease
  counted := fun path i hi => by
    obtain ⟨⟨users, hreg, hused⟩, -⟩ := h
    have hpos := Finset.card_pos.mpr (hused path i hi)
    have hrefs := hreg.refs path i hi
    exact ⟨by omega, users i, hrefs, hreg.mem_users i⟩
  acyclic := not_transGen_waitsFor h

/-- A step serves the queues in order, and removes an entry with its last reference. -/
structure StepsFifoLock (s s' : Registry) : Prop where
  served : ∀ i, ServedInOrder s s' i
  removed : ∀ path i, s.entries path = some i →
    (s'.entries path = none ↔ (s'.entry i).refs = 0) ∧
      (s'.entries path = none ∨ s'.entries path = some i)

theorem LeaseStepKeeps.stepsFifoLock {s s' : Registry} (h : LeaseStepKeeps s s') :
    StepsFifoLock s s' where
  served := h.served
  removed := fun path i hi => by
    rcases h.evolves path i hi with hsome | ⟨hnone, hzero⟩
    · have hpos := (h.invariant.isFifoLock.counted path i hsome).1
      refine ⟨?_, .inr hsome⟩
      rw [hsome]
      simp [hpos.ne']
    · exact ⟨by simp [hnone, hzero], .inl hnone⟩

/-- The registry is a first-in first-out reader/writer lock in every run. -/
theorem isFifoLock_of_reachable {s : Registry} (h : leaseSystem.Reachable s) :
    IsFifoLock s ∧ ∀ a s', leaseStep s a = some s' → StepsFifoLock s s' :=
  ⟨(invariant_of_reachable h).isFifoLock, fun _ _ hs =>
    (keeps_leaseStep (invariant_of_reachable h) hs).stepsFifoLock⟩

/-- A writer waits for a reader of the share, and a second reader waits behind it. -/
def contended : Registry :=
  (leaseSystem.exec .new [.acquire ["/nas/share".toList] false, .advance 0, .advance 0, .advance 0,
    .selectReady 0, .acquire ["/nas/share".toList, " /nas/backup/ ".toList] true, .advance 1,
    .advance 1, .advance 1, .selectReady 1, .advance 1, .advance 1,
    .acquire ["/nas/share".toList] false, .advance 2, .advance 2, .advance 2]).get (by decide)

theorem isFifoLock_contended :
    ((contended.entry 0).readers = 1 ∧ (contended.entry 0).waiters = [⟨1, true⟩, ⟨2, false⟩]) ∧
      IsFifoLock contended ∧ ∀ a s', leaseStep contended a = some s' → StepsFifoLock contended s' :=
  ⟨by decide, isFifoLock_of_reachable (.of_exec rfl (Option.some_get _).symm)⟩

end HyperFileLens.Nas
