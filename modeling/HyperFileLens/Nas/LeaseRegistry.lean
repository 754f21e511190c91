import HyperFileLens.Nas.LeaseLocks

/-!
# The registry counts its calls

`Registered` says that the leases of all calls are of the entries in the map, and
that an entry counts the calls with a lease of it. Together with `Simulates` it is
an invariant of all runs (`invariant_of_reachable`).
-/

namespace HyperFileLens.Nas

open FifoLock Transition

/-! ## The invariant -/

/-- How many leases a call has at the least, where it is. -/
def Pc.reach : Pc → Nat
  | .checking index => index + 1
  | .locking index => index + 1
  | .selecting index => index + 1
  | .canceling index => index + 1
  | .releasing index => index
  | _ => 0

structure Call.Ordered (x : Call) : Prop where
  sorted : (x.leases.map Prod.fst).Pairwise (· < ·)
  reach : x.pc.reach ≤ x.leases.length
  started : x.pc = .started → x.leases = []

/-- The entries in the map are those of the leases of the calls, `users`. -/
structure Registered (s : Registry) (users : Nat → Finset Nat) : Prop where
  ordered : ∀ c x, s.call c = some x → x.Ordered
  freshCall : ∀ c, s.nextCall ≤ c → s.call c = none
  mapped : ∀ c x path i, s.call c = some x → (path, i) ∈ x.leases → s.entries path = some i
  injective : ∀ path path' i, s.entries path = some i → s.entries path' = some i → path = path'
  freshEntry : ∀ path i, s.entries path = some i → i < s.nextEntry
  mem_users : ∀ i c, c ∈ users i ↔ ∃ x, s.call c = some x ∧ i ∈ x.uses
  refs : ∀ path i, s.entries path = some i → (s.entry i).refs = ((users i).card : Int)

def Used (s : Registry) (users : Nat → Finset Nat) : Prop :=
  ∀ path i, s.entries path = some i → (users i).Nonempty

structure Invariant (s : Registry) : Prop where
  registered : ∃ users, Registered s users ∧ Used s users
  simulates : ∃ lock, Simulates s lock

section Registered

open Registry

variable {s s' : Registry} {users : Nat → Finset Nat} {c i : Nat} {x x₁ : Call}
  {path : LeasePath}

theorem exists_lease (h : i ∈ x.uses) : ∃ path, (path, i) ∈ x.leases := by
  obtain ⟨lease, hlease, rfl⟩ := List.mem_map.mp h
  exact ⟨lease.1, hlease⟩

section

variable (h : Registered s users)

include h

theorem Registered.nodup_uses (hx : s.call c = some x) : x.uses.Nodup := by
  have hsorted := List.pairwise_map.mp (h.ordered c x hx).sorted
  refine List.pairwise_map.mpr (hsorted.imp_of_mem fun {a b} ha hb hlt heq => ?_)
  have hpath := h.injective a.1 b.1 a.2 (h.mapped c x a.1 a.2 hx ha)
    (heq ▸ h.mapped c x b.1 b.2 hx hb)
  exact absurd hlt (hpath ▸ lt_irrefl a.1)

theorem Registered.congr (hentries : s'.entries = s.entries) (hentry : s'.nextEntry = s.nextEntry)
    (hnext : s'.nextCall = s.nextCall) (hrefs : ∀ i, (s'.entry i).refs = (s.entry i).refs)
    (hleases : ∀ c, (s'.call c).map Call.leases = (s.call c).map Call.leases)
    (hordered : ∀ c x, s'.call c = some x → x.Ordered) : Registered s' users := by
  have hback : ∀ c x, s'.call c = some x → ∃ y, s.call c = some y ∧ y.leases = x.leases := by
    intro c x hx
    have hmap := hleases c
    rw [hx] at hmap
    exact Option.map_eq_some_iff.mp hmap.symm
  have hforth : ∀ c x, s.call c = some x → ∃ y, s'.call c = some y ∧ y.leases = x.leases := by
    intro c x hx
    have hmap := hleases c
    rw [hx] at hmap
    exact Option.map_eq_some_iff.mp hmap
  constructor
  · exact hordered
  · intro c hc
    have hmap := hleases c
    rw [h.freshCall c (hnext ▸ hc)] at hmap
    exact Option.map_eq_none_iff.mp hmap
  · intro c x path i hx hlease
    obtain ⟨y, hy, heq⟩ := hback c x hx
    rw [hentries]
    exact h.mapped c y path i hy (heq ▸ hlease)
  · rw [hentries]
    exact h.injective
  · rw [hentries, hentry]
    exact h.freshEntry
  · intro i c
    rw [h.mem_users]
    constructor
    · rintro ⟨x, hx, hi⟩
      obtain ⟨y, hy, heq⟩ := hforth c x hx
      exact ⟨y, hy, by rwa [Call.uses, heq]⟩
    · rintro ⟨x, hx, hi⟩
      obtain ⟨y, hy, heq⟩ := hback c x hx
      exact ⟨y, hy, by rwa [Call.uses, heq]⟩
  · intro path i hi
    rw [hrefs]
    exact h.refs path i (hentries ▸ hi)

theorem Registered.setCall (hx : s.call c = some x) (hleases : x₁.leases = x.leases)
    (hordered : x₁.Ordered) : Registered (s.setCall c x₁) users := by
  refine h.congr rfl rfl rfl (fun _ => rfl) (fun d => ?_) fun d y hy => ?_
  · by_cases hd : d = c
    · subst hd
      rw [call_setCall_self, hx, Option.map_some, Option.map_some, hleases]
    · rw [call_setCall_of_ne hd]
  · by_cases hd : d = c
    · subst hd
      exact Option.some.inj (hy.symm.trans call_setCall_self) ▸ hordered
    · exact h.ordered d y (call_setCall_of_ne hd ▸ hy)

theorem Registered.newCall (hleases : x.leases = []) (hordered : x.Ordered) :
    Registered { s.setCall s.nextCall x with nextCall := s.nextCall + 1 } users := by
  have hcalls : ∀ d y, (s.setCall s.nextCall x).call d = some y →
      d = s.nextCall ∧ y = x ∨ s.call d = some y := by
    intro d y hy
    by_cases hd : d = s.nextCall
    · subst hd
      exact .inl ⟨rfl, Option.some.inj (hy.symm.trans call_setCall_self)⟩
    · exact .inr (call_setCall_of_ne hd ▸ hy)
  refine ⟨fun d y hy => ?_, fun d hd => ?_, fun d y p j hy hlease => ?_, h.injective,
    h.freshEntry, fun j d => ?_, h.refs⟩
  · rcases hcalls d y hy with ⟨-, rfl⟩ | hy'
    · exact hordered
    · exact h.ordered d y hy'
  · exact (call_setCall_of_ne (Nat.ne_of_gt hd)).trans (h.freshCall d (Nat.le_of_succ_le hd))
  · rcases hcalls d y hy with ⟨-, rfl⟩ | hy'
    · simp [hleases] at hlease
    · exact h.mapped d y p j hy' hlease
  · rw [h.mem_users]
    by_cases hd : d = s.nextCall
    · subst hd
      simp [h.freshCall s.nextCall (Nat.le_refl _), Call.uses, hleases]
    · show _ ↔ ∃ y, (s.setCall s.nextCall x).call d = some y ∧ _
      rw [call_setCall_of_ne hd]

theorem Registered.settle {r : NasLeaseEntry × List NasLeaseWaiter}
    (hrefs : r.1.refs = (s.entry i).refs) : Registered (s.settle i r) users := by
  refine h.congr rfl rfl rfl (fun j => ?_) (fun d => ?_) fun d y hy => ?_
  · show (Function.update s.entry i r.1 j).refs = _
    by_cases hj : j = i
    · subst hj
      rw [Function.update_self, hrefs]
    · rw [Function.update_of_ne hj]
  · show ((s.call d).map _).map Call.leases = _
    rw [Option.map_map]
    refine congrArg (fun f => Option.map f (s.call d)) (funext fun y => ?_)
    show Call.leases (if _ then _ else _) = _
    split
    · rfl
    · rfl
  · obtain ⟨z, hz, rfl⟩ := Option.map_eq_some_iff.mp (hy : (s.call d).map _ = some y)
    have hordered := h.ordered d z hz
    split
    · exact ⟨hordered.sorted, hordered.reach, hordered.started⟩
    · exact hordered

/-! ## Registration -/

theorem Registered.findEntry (path : LeasePath) : Registered (s.findEntry path).1 users ∧
      (s.findEntry path).1.entries path = some (s.findEntry path).2 ∧
      ∀ path' i, (s.findEntry path).1.entries path' = some i → path' ≠ path →
        s.entries path' = some i := by
  rw [Registry.findEntry]
  split
  · rename_i i hi
    exact ⟨h, hi, fun _ _ hi' _ => hi'⟩
  · rename_i hnone
    have hentries : ∀ path' i,
        Function.update s.entries path (some s.nextEntry) path' = some i →
        path' = path ∧ i = s.nextEntry ∨ path' ≠ path ∧ s.entries path' = some i := by
      intro path' i hi
      by_cases hp : path' = path
      · subst hp
        rw [Function.update_self] at hi
        exact .inl ⟨rfl, (Option.some.inj hi).symm⟩
      · rw [Function.update_of_ne hp] at hi
        exact .inr ⟨hp, hi⟩
    have hunused : users s.nextEntry = ∅ := by
      refine Finset.eq_empty_of_forall_notMem fun c hc => ?_
      obtain ⟨x, hx, hi⟩ := (h.mem_users _ c).mp hc
      obtain ⟨path', hlease⟩ := exists_lease hi
      exact lt_irrefl _ (h.freshEntry path' _ (h.mapped c x path' _ hx hlease))
    refine ⟨⟨h.ordered, h.freshCall, fun c x path' i hx hlease => ?_, fun p q i hp hq => ?_,
      fun p i hp => ?_, h.mem_users, fun p i hp => ?_⟩, ?_, fun path' i hi hne => ?_⟩
    · have hmapped := h.mapped c x path' i hx hlease
      show Function.update s.entries path (some s.nextEntry) path' = some i
      rw [Function.update_of_ne, hmapped]
      rintro rfl
      simp [hnone] at hmapped
    · rcases hentries p i hp with ⟨rfl, rfl⟩ | ⟨-, hp'⟩
      · rcases hentries q _ hq with ⟨rfl, -⟩ | ⟨-, hq'⟩
        · rfl
        · exact absurd (h.freshEntry q _ hq') (lt_irrefl _)
      · rcases hentries q i hq with ⟨rfl, rfl⟩ | ⟨-, hq'⟩
        · exact absurd (h.freshEntry p _ hp') (lt_irrefl _)
        · exact h.injective p q i hp' hq'
    · rcases hentries p i hp with ⟨-, rfl⟩ | ⟨-, hp⟩
      · exact Nat.lt_succ_self _
      · exact Nat.lt_succ_of_lt (h.freshEntry p i hp)
    · show (Function.update s.entry s.nextEntry {} i).refs = _
      rcases hentries p i hp with ⟨-, rfl⟩ | ⟨-, hp⟩
      · simp [hunused]
      · rw [Function.update_of_ne (h.freshEntry p i hp).ne]
        exact h.refs p i hp
    · exact Function.update_self ..
    · rcases hentries path' i hi with ⟨rfl, -⟩ | ⟨-, hi⟩
      · exact absurd rfl hne
      · exact hi

theorem Registered.addLease (hx : s.call c = some x)
    (hi : s.entries path = some i) (hpc : x.pc = .registering)
    (habove : ∀ q ∈ x.leases.map Prod.fst, q < path) :
    Registered ((s.setEntry i { s.entry i with refs := (s.entry i).refs + 1 }).setCall c
      { x with leases := x.leases ++ [(path, i)] })
      (Function.update users i (insert c (users i))) := by
  have hnew : c ∉ users i := by
    intro hc
    obtain ⟨y, hy, hmem⟩ := (h.mem_users i c).mp hc
    obtain rfl := Option.some.inj (hy.symm.trans hx)
    obtain ⟨q, hlease⟩ := exists_lease hmem
    obtain rfl := h.injective q path i (h.mapped c y q i hy hlease) hi
    exact lt_irrefl q (habove q (List.mem_map_of_mem (f := Prod.fst) hlease))
  have hcalls : ∀ d y, (s.setCall c { x with leases := x.leases ++ [(path, i)] }).call d = some y →
      d = c ∧ y = { x with leases := x.leases ++ [(path, i)] } ∨ d ≠ c ∧ s.call d = some y := by
    intro d y hy
    by_cases hd : d = c
    · subst hd
      exact .inl ⟨rfl, Option.some.inj (hy.symm.trans call_setCall_self)⟩
    · exact .inr ⟨hd, call_setCall_of_ne hd ▸ hy⟩
  refine ⟨fun d y hy => ?_, fun d hd => ?_, fun d y p j hy hlease => ?_, h.injective,
    h.freshEntry, fun j d => ?_, fun p j hp => ?_⟩
  · rcases hcalls d y hy with ⟨rfl, rfl⟩ | ⟨-, hy⟩
    · refine ⟨?_, by simp [hpc, Pc.reach], by simp [hpc]⟩
      rw [List.map_append, List.pairwise_append]
      refine ⟨(h.ordered d x hx).sorted, List.pairwise_singleton _ _, fun q hq p hp => ?_⟩
      obtain rfl : p = path := by simpa using hp
      exact habove q hq
    · exact h.ordered d y hy
  · have hne : d ≠ c := by
      rintro rfl
      simp [h.freshCall d hd] at hx
    exact (call_setCall_of_ne hne).trans (h.freshCall d hd)
  · rcases hcalls d y hy with ⟨rfl, rfl⟩ | ⟨-, hy⟩
    · rcases List.mem_append.mp hlease with hlease | hlease
      · exact h.mapped d x p j hx hlease
      · obtain ⟨rfl, rfl⟩ : p = path ∧ j = i := by simpa using hlease
        exact hi
    · exact h.mapped d y p j hy hlease
  · have hold : d ∈ Function.update users i (insert c (users i)) j ↔
        d ∈ users j ∨ d = c ∧ j = i := by
      by_cases hj : j = i
      · subst hj
        simp [or_comm]
      · simp [hj]
    rw [hold, h.mem_users]
    by_cases hd : d = c
    · subst hd
      simp only [hx, call_setCall_self, Option.some.injEq, exists_eq_left', true_and]
      rw [Call.uses, Call.uses, List.map_append, List.mem_append]
      simp
    · show _ ↔ ∃ y, (Registry.setCall _ c _).call d = some y ∧ _
      rw [call_setCall_of_ne hd]
      simp [hd, setEntry]
  · show (Function.update s.entry i _ j).refs = _
    by_cases hj : j = i
    · subst hj
      rw [Function.update_self, Function.update_self, Finset.card_insert_of_notMem hnew]
      have hrefs := h.refs p j hp
      show (s.entry j).refs + 1 = _
      omega
    · rw [Function.update_of_ne hj, Function.update_of_ne hj]
      exact h.refs p j hp

end

variable {lock : Nat → LeaseLock}

theorem Simulates.lock_nextEntry (hsim : Simulates s lock) (h : Registered s users) :
    lock s.nextEntry = ⟨∅, []⟩ := by
  have hunused : ∀ c x, s.call c = some x → s.nextEntry ∉ x.uses := by
    intro c x hx hi
    obtain ⟨path, hlease⟩ := exists_lease hi
    exact lt_irrefl _ (h.freshEntry path _ (h.mapped c x path _ hx hlease))
  have hheld : (lock s.nextEntry).held = ∅ := by
    refine Finset.eq_empty_of_forall_notMem fun w hw => ?_
    obtain ⟨x, hx, -, hi⟩ := (hsim.held _ w).mp hw
    exact hunused _ x hx (Call.mem_uses_of_holds hi)
  have hqueue : (lock s.nextEntry).queue = [] := by
    refine List.eq_nil_iff_forall_not_mem.mpr fun w hw => ?_
    obtain ⟨x, hx, -, hi⟩ := (hsim.queue _ w).mp hw
    exact hunused _ x hx (Call.mem_uses_of_waitsAt hi)
  generalize lock s.nextEntry = L at hheld hqueue
  obtain ⟨held, queue⟩ := L
  obtain rfl : held = ∅ := hheld
  obtain rfl : queue = [] := hqueue
  rfl

theorem Simulates.findEntry (hsim : Simulates s lock) (h : Registered s users) (path : LeasePath) :
    Simulates (s.findEntry path).1 lock := by
  rw [Registry.findEntry]
  split
  · exact hsim
  · refine hsim.congr rfl fun i => ?_
    show Represents (Function.update s.entry s.nextEntry {} i) (lock i)
    by_cases hi : i = s.nextEntry
    · subst hi
      rw [Function.update_self, hsim.lock_nextEntry h]
      exact .empty
    · rw [Function.update_of_ne hi]
      exact hsim.represents i

theorem Simulates.setRefs (hsim : Simulates s lock) (i : Nat) (refs : Int) :
    Simulates (s.setEntry i { s.entry i with refs := refs }) lock := by
  refine hsim.congr rfl fun j => ?_
  show Represents (Function.update s.entry i _ j) (lock j)
  by_cases hj : j = i
  · subst hj
    rw [Function.update_self]
    exact (hsim.represents j).setRefs refs
  · rw [Function.update_of_ne hj]
    exact hsim.represents j

theorem entries_findEntry {p : LeasePath} (hp : s.entries p = some i) :
    (s.findEntry path).1.entries p = some i := by
  rw [Registry.findEntry]
  split
  · exact hp
  · rename_i hnone
    show Function.update s.entries path (some s.nextEntry) p = some i
    rw [Function.update_of_ne, hp]
    rintro rfl
    simp [hnone] at hp

theorem call_findEntry : (s.findEntry path).1.call = s.call := by
  rw [Registry.findEntry]
  split
  · rfl
  · rfl

theorem holds_of_registering (hpc : x.pc = .registering) : x.holds = [] ∧ x.waitsAt = none := by
  simp [Call.holds, Call.acquired, Call.waitsAt, hpc]

theorem invariant_registerPaths {paths : List LeasePath} (h : Registered s users)
    (hused : Used s users) (hsim : Simulates s lock) (hx : s.call c = some x)
    (hpc : x.pc = .registering) (hpaths : paths.Pairwise (· < ·))
    (habove : ∀ q ∈ x.leases.map Prod.fst, ∀ p ∈ paths, q < p) :
    (∃ users', Registered (registerPaths c x s paths) users' ∧
        Used (registerPaths c x s paths) users') ∧
      Simulates (registerPaths c x s paths) lock ∧
      ∀ p i, s.entries p = some i → (registerPaths c x s paths).entries p = some i := by
  induction paths generalizing s users x with
  | nil =>
    refine ⟨⟨users, h.setCall hx rfl ⟨(h.ordered c x hx).sorted, ?_, ?_⟩, hused⟩,
      hsim.setCall hx rfl ?_ ?_, fun _ _ hp => hp⟩
    · show Pc.reach (if _ then _ else _) ≤ _
      split
      · exact Nat.zero_le _
      · rename_i hleases
        exact List.length_pos_iff.mpr hleases
    · intro hstarted
      simp only at hstarted
      split at hstarted
      · simp at hstarted
      · simp at hstarted
    · rw [(holds_of_registering hpc).1]
      show x.uses.take (Call.acquired _) = []
      split
      · rename_i hleases
        simp [Call.uses, hleases]
      · rfl
    · rw [(holds_of_registering hpc).2, Call.waitsAt]
      split
      · rename_i index hindex
        simp only at hindex
        split at hindex
        · simp at hindex
        · simp at hindex
      · rename_i index hindex
        simp only at hindex
        split at hindex
        · simp at hindex
        · simp at hindex
      · rfl
  | cons path rest ih =>
    obtain ⟨hfound, hi, hold⟩ := h.findEntry path
    have hsim' := hsim.findEntry h path
    have hx' : (s.findEntry path).1.call c = some x := by rw [call_findEntry, hx]
    have hbelow : ∀ q ∈ x.leases.map Prod.fst, q < path := fun q hq =>
      habove q hq path List.mem_cons_self
    have hnext := hfound.addLease hx' hi hpc hbelow
    have hused' : Used (registerPath c x s path).1 (Function.update users
        (s.findEntry path).2 (insert c (users (s.findEntry path).2))) := by
      intro p j hp
      by_cases hj : j = (s.findEntry path).2
      · subst hj
        rw [Function.update_self]
        exact Finset.insert_nonempty _ _
      · rw [Function.update_of_ne hj]
        refine hused p j (hold p j hp ?_)
        rintro rfl
        exact hj (Option.some.inj (hp.symm.trans hi))
    have hsim'' : Simulates (registerPath c x s path).1 lock := by
      refine (hsim'.setRefs _ _).setCall hx' rfl ?_ ?_
      · rw [(holds_of_registering hpc).1]
        exact (holds_of_registering (by exact hpc)).1
      · rw [(holds_of_registering hpc).2]
        exact (holds_of_registering (by exact hpc)).2
    obtain ⟨hrest, hpath⟩ := List.pairwise_cons.mp hpaths
    obtain ⟨hinv, hrestsim, hkeep⟩ := ih hnext hused' hsim'' call_setCall_self hpc hpath (by
      intro q hq p hp
      rcases List.mem_append.mp (List.map_append ▸ hq) with hq | hq
      · exact habove q hq p (List.mem_cons_of_mem _ hp)
      · obtain rfl : q = path := by simpa using hq
        exact hrest p hp)
    exact ⟨hinv, hrestsim, fun p i hp => hkeep p i (entries_findEntry hp)⟩

/-! ## Release -/

/-- A path keeps its entry, or loses it with the last reference. -/
def Evolves (s s' : Registry) : Prop :=
  ∀ path i, s.entries path = some i →
    s'.entries path = some i ∨ s'.entries path = none ∧ (s'.entry i).refs = 0

theorem entry_releaseEntry : (s.releaseEntry path i).entry =
    Function.update s.entry i { s.entry i with refs := (s.entry i).refs - 1 } := by
  rw [releaseEntry]
  split
  · rfl
  · rfl

theorem call_releaseEntry : (s.releaseEntry path i).call = s.call := by
  rw [releaseEntry]
  split
  · rfl
  · rfl

theorem nextEntry_releaseEntry : (s.releaseEntry path i).nextEntry = s.nextEntry := by
  rw [releaseEntry]
  split
  · rfl
  · rfl

theorem nextCall_releaseEntry : (s.releaseEntry path i).nextCall = s.nextCall := by
  rw [releaseEntry]
  split
  · rfl
  · rfl

theorem entries_releaseEntry (hi : s.entries path = some i) (p : LeasePath) :
    (s.releaseEntry path i).entries p =
      if p = path ∧ (s.entry i).refs - 1 = 0 then none else s.entries p := by
  rw [releaseEntry]
  split
  · rename_i hrefs
    show Function.update s.entries path none p = _
    by_cases hp : p = path
    · rw [if_pos ⟨hp, hrefs.1⟩, hp, Function.update_self]
    · rw [if_neg fun h => hp h.1, Function.update_of_ne hp]
  · rename_i hrefs
    exact (if_neg fun h => hrefs ⟨h.2, hi⟩).symm

/-- One round of the loop of `releaseEntries`. -/
theorem Registered.releaseLease (h : Registered s users) (hused : Used s users)
    {rest : List (LeasePath × Nat)}
    (hx : s.call c = some { x with leases := (path, i) :: rest }) (hpc : x.pc = .releasing 0) :
    Registered ((s.releaseEntry path i).setCall c { x with leases := rest })
        (Function.update users i ((users i).erase c)) ∧
      Used ((s.releaseEntry path i).setCall c { x with leases := rest })
        (Function.update users i ((users i).erase c)) ∧
      Evolves s ((s.releaseEntry path i).setCall c { x with leases := rest }) := by
  have hi : s.entries path = some i := h.mapped c _ path i hx List.mem_cons_self
  have hordered := h.ordered c _ hx
  have hmem : c ∈ users i := (h.mem_users i c).mpr ⟨_, hx, by simp [Call.uses]⟩
  have hrefs := h.refs path i hi
  have hcard : ((users i).erase c).card + 1 = (users i).card :=
    Finset.card_erase_add_one hmem
  have hentries : ∀ p j, (s.releaseEntry path i).entries p = some j →
      s.entries p = some j ∧ (j = i → ((users i).erase c).Nonempty) := by
    intro p j hp
    rw [entries_releaseEntry hi] at hp
    split at hp
    · simp at hp
    · rename_i hnot
      refine ⟨hp, ?_⟩
      rintro rfl
      have hpath := h.injective p path j hp hi
      rw [← Finset.card_pos]
      by_contra hzero
      exact hnot ⟨hpath, by omega⟩
  have hcalls : ∀ d y, (s.setCall c { x with leases := rest }).call d = some y →
      d = c ∧ y = { x with leases := rest } ∨ d ≠ c ∧ s.call d = some y := by
    intro d y hy
    by_cases hd : d = c
    · subst hd
      exact .inl ⟨rfl, Option.some.inj (hy.symm.trans call_setCall_self)⟩
    · exact .inr ⟨hd, call_setCall_of_ne hd ▸ hy⟩
  have hcall : ∀ d, ((s.releaseEntry path i).setCall c { x with leases := rest }).call d =
      (s.setCall c { x with leases := rest }).call d := by
    intro d
    show Function.update (s.releaseEntry path i).call c _ d = _
    rw [call_releaseEntry]
    rfl
  have htail : ∀ p j, (p, j) ∈ rest → path < p := fun p j hlease =>
    (List.pairwise_cons.mp hordered.sorted).1 p (List.mem_map_of_mem (f := Prod.fst) hlease)
  refine ⟨⟨fun d y hy => ?_, fun d hd => ?_, fun d y p j hy hlease => ?_, fun p q j hp hq => ?_,
    fun p j hp => ?_, fun j d => ?_, fun p j hp => ?_⟩, fun p j hp => ?_, fun p j hp => ?_⟩
  · rcases hcalls d y (hcall d ▸ hy) with ⟨rfl, rfl⟩ | ⟨-, hy'⟩
    · exact ⟨(List.pairwise_cons.mp hordered.sorted).2, by simp [hpc, Pc.reach], by simp [hpc]⟩
    · exact h.ordered d y hy'
  · have hfresh := h.freshCall d (nextCall_releaseEntry (s := s) ▸ hd)
    have hne : d ≠ c := by
      rintro rfl
      simp [hfresh] at hx
    rw [hcall, call_setCall_of_ne hne, hfresh]
  · have hp : s.entries p = some j ∧ ¬ (p = path ∧ (s.entry i).refs - 1 = 0) := by
      rcases hcalls d y (hcall d ▸ hy) with ⟨rfl, rfl⟩ | ⟨hne, hy'⟩
      · exact ⟨h.mapped d _ p j hx (List.mem_cons_of_mem _ hlease),
          fun hp => (htail p j hlease).ne' hp.1⟩
      · have hp' := h.mapped d y p j hy' hlease
        refine ⟨hp', ?_⟩
        -- another call uses the entry, so its references are not used up
        rintro ⟨rfl, hzero⟩
        obtain rfl := Option.some.inj (hp'.symm.trans hi)
        have hd : d ∈ (users j).erase c := Finset.mem_erase.mpr
          ⟨hne, (h.mem_users j d).mpr ⟨y, hy', List.mem_map_of_mem (f := Prod.snd) hlease⟩⟩
        have hpos := Finset.card_pos.mpr ⟨d, hd⟩
        omega
    show (s.releaseEntry path i).entries p = some j
    rw [entries_releaseEntry hi, if_neg hp.2]
    exact hp.1
  · exact h.injective p q j (hentries p j hp).1 (hentries q j hq).1
  · exact nextEntry_releaseEntry (s := s) ▸ h.freshEntry p j (hentries p j hp).1
  · rw [hcall]
    have hnew : d ∈ Function.update users i ((users i).erase c) j ↔
        d ∈ users j ∧ ¬ (d = c ∧ j = i) := by
      by_cases hj : j = i
      · subst hj
        simp [and_comm]
      · simp [hj]
    rw [hnew, h.mem_users]
    by_cases hd : d = c
    · subst hd
      have hnodup := h.nodup_uses hx
      simp only [hx, call_setCall_self, Option.some.injEq, exists_eq_left']
      rw [Call.uses, Call.uses, List.map_cons, List.mem_cons]
      rw [Call.uses, List.map_cons, List.nodup_cons] at hnodup
      constructor
      · rintro ⟨rfl | hj, hne⟩
        · exact absurd ⟨trivial, rfl⟩ hne
        · exact hj
      · intro hj
        refine ⟨.inr hj, ?_⟩
        rintro ⟨-, rfl⟩
        exact hnodup.1 hj
    · rw [call_setCall_of_ne hd]
      simp [hd]
  · show ((s.releaseEntry path i).entry j).refs = _
    rw [entry_releaseEntry]
    by_cases hj : j = i
    · subst hj
      rw [Function.update_self, Function.update_self]
      show (s.entry j).refs - 1 = _
      omega
    · rw [Function.update_of_ne hj, Function.update_of_ne hj]
      exact h.refs p j (hentries p j hp).1
  · obtain ⟨hp', hnonempty⟩ := hentries p j hp
    by_cases hj : j = i
    · subst hj
      rw [Function.update_self]
      exact hnonempty rfl
    · rw [Function.update_of_ne hj]
      exact hused p j hp'
  · show (s.releaseEntry path i).entries p = some j ∨ (s.releaseEntry path i).entries p = none ∧
      ((s.releaseEntry path i).entry j).refs = 0
    rw [entries_releaseEntry hi, entry_releaseEntry]
    split
    · rename_i hzero
      obtain rfl : j = i := by
        have hp' := hp
        rw [hzero.1, hi] at hp'
        exact (Option.some.inj hp').symm
      rw [Function.update_self]
      exact .inr ⟨rfl, hzero.2⟩
    · exact .inl hp

theorem releaseEntries_frame (c : Nat) (x : Call) (s : Registry) (leases : List (LeasePath × Nat)) :
    (∀ p, s.entries p = none → (releaseEntries c x s leases).entries p = none) ∧
      ∀ j, j ∉ leases.map Prod.snd → (releaseEntries c x s leases).entry j = s.entry j := by
  induction leases generalizing s with
  | nil => exact ⟨fun _ hp => hp, fun _ _ => rfl⟩
  | cons lease rest ih =>
    obtain ⟨path, i⟩ := lease
    obtain ⟨hnone, hentry⟩ := ih ((s.releaseEntry path i).setCall c { x with leases := rest })
    refine ⟨fun p hp => hnone p ?_, fun j hj => ?_⟩
    · show (s.releaseEntry path i).entries p = none
      rw [releaseEntry]
      split
      · show Function.update s.entries path none p = none
        by_cases hpath : p = path
        · rw [hpath, Function.update_self]
        · rw [Function.update_of_ne hpath, hp]
      · exact hp
    · rw [List.map_cons, List.mem_cons, not_or] at hj
      refine (hentry j hj.2).trans ?_
      show (s.releaseEntry path i).entry j = _
      rw [entry_releaseEntry, Function.update_of_ne hj.1]

/-- `releaseEntries` drops the leases that are left. -/
theorem invariant_releaseEntries {lock : Nat → LeaseLock} {leases : List (LeasePath × Nat)}
    (h : Registered s users) (hused : Used s users) (hsim : Simulates s lock)
    (hx : s.call c = some { x with leases := leases }) (hpc : x.pc = .releasing 0) :
    (∃ users', Registered (releaseEntries c x s leases) users' ∧
        Used (releaseEntries c x s leases) users') ∧
      Simulates (releaseEntries c x s leases) lock ∧ Evolves s (releaseEntries c x s leases) := by
  induction leases generalizing s users with
  | nil =>
    refine ⟨⟨users, h.setCall hx rfl ⟨List.Pairwise.nil, Nat.le_refl 0, fun _ => rfl⟩, hused⟩,
      hsim.setCall hx rfl ?_ ?_, fun p i hp => .inl hp⟩
    · simp [Call.holds, Call.uses]
    · simp [Call.waitsAt, hpc]
  | cons lease rest ih =>
    obtain ⟨path, i⟩ := lease
    obtain ⟨hnext, hused', hstep⟩ := h.releaseLease hused hx hpc
    have hsim' : Simulates (s.releaseEntry path i) lock := by
      refine (hsim.setRefs i ((s.entry i).refs - 1)).congr ?_ fun j => ?_
      · rw [call_releaseEntry]
        rfl
      · rw [entry_releaseEntry]
        exact (hsim.setRefs i ((s.entry i).refs - 1)).represents j
    have hx' : (s.releaseEntry path i).call c = some { x with leases := (path, i) :: rest } := by
      rw [call_releaseEntry, hx]
    have hsim'' : Simulates ((s.releaseEntry path i).setCall c { x with leases := rest }) lock :=
      hsim'.setCall hx' rfl (by simp [Call.holds, Call.acquired, hpc]) (by simp [Call.waitsAt, hpc])
    obtain ⟨hinv, hrestsim, hrest⟩ := ih hnext hused' hsim'' call_setCall_self
    refine ⟨hinv, hrestsim, fun p j hp => ?_⟩
    rcases hstep p j hp with hp' | ⟨hnone, hzero⟩
    · exact hrest p j hp'
    · -- the entry is not among those that are left
      obtain ⟨hnone', hframe⟩ := releaseEntries_frame c x
        ((s.releaseEntry path i).setCall c { x with leases := rest }) rest
      have hj : j ∉ rest.map Prod.snd := by
        have hi := h.mapped c _ path i hx List.mem_cons_self
        have hpath : p = path := by
          by_contra hne
          have hsome : (s.releaseEntry path i).entries p = none := hnone
          rw [entries_releaseEntry hi, if_neg fun hp' => hne hp'.1, hp] at hsome
          simp at hsome
        subst hpath
        obtain rfl := Option.some.inj (hp.symm.trans hi)
        exact (List.nodup_cons.mp (h.nodup_uses hx)).1
      exact .inr ⟨hnone' p hnone, by rw [releaseEntries, hframe j hj]; exact hzero⟩

end Registered

end HyperFileLens.Nas
