import HyperFileLens.Storage.LocationClaims

/-!
# Active claims do not overlap

Reservations and resolutions look for overlaps under the lock of the namespace they put
a claim in, and every other operation only ends claims or changes the state of active
ones (`Steady`). So active claims of different repositories stay apart in each
namespace, and a claim that was released never comes back.
-/

namespace HyperFileLens.Storage

open Transition

/-- Active claims of different repositories in one namespace do not overlap. -/
def ClaimsApart (claims : List LocationClaim) : Prop :=
  ∀ c ∈ claims, ∀ d ∈ claims, c.isActive = true → d.isActive = true →
    c.repositoryId ≠ d.repositoryId → c.namespaceKey = d.namespaceKey →
    rootsOverlap c.rootPath d.rootPath = false

structure ClaimInv (s : ClaimStore) : Prop where
  keyed : Table.Keyed LocationClaim.id s.claims
  fresh : ∀ c ∈ s.claims, c.id < s.next
  apart : ClaimsApart s.claims
  current : ∀ repositoryId r, s.resolving repositoryId = some r → ∀ current ∈ r.currentClaim,
    ∃ c ∈ s.claims, c.id = current.id ∧ c.repositoryId = repositoryId

/-- No claim starts to be active, and none moves. -/
structure Steady (claims claims' : List LocationClaim) : Prop where
  before : ∀ c' ∈ claims', ∃ c ∈ claims, c'.id = c.id ∧ c'.repositoryId = c.repositoryId ∧
    c'.namespaceKey = c.namespaceKey ∧ c'.rootPath = c.rootPath ∧
    (c'.isActive = true → c.isActive = true)
  after : ∀ c ∈ claims, ∃ c' ∈ claims', c'.id = c.id ∧ c'.repositoryId = c.repositoryId
  keyed : Table.Keyed LocationClaim.id claims → Table.Keyed LocationClaim.id claims'

def KeepsReleased (s s' : ClaimStore) : Prop :=
  ∀ c ∈ s.claims, ∃ c' ∈ s'.claims, c'.id = c.id ∧ (c.state = .released → c'.state = .released)

/-! ## Single updates -/

section Updates

variable {claims claims' : List LocationClaim}

variable {f : LocationClaim → LocationClaim} {q : ClaimQuery} {now : Int}

theorem LocationClaim.isActive_iff {c : LocationClaim} :
    c.isActive = true ↔ c.state ≠ .released := by
  cases h : c.state <;> simp [isActive, activeClaimStates, h]

theorem steady_changeClaims {p : LocationClaim → Bool} (hp : ∀ c, p c = true → c.isActive = true)
    (hf : ∀ c, (f c).id = c.id ∧ (f c).repositoryId = c.repositoryId ∧
      (f c).namespaceKey = c.namespaceKey ∧ (f c).rootPath = c.rootPath) :
    Steady claims (changeClaims claims p f) where
  before := by
    intro c' hc'
    obtain ⟨c, hc, rfl⟩ := List.mem_map.mp hc'
    refine ⟨c, hc, ?_⟩
    split
    · rename_i hpc
      obtain ⟨hid, hrepository, hkey, hroot⟩ := hf c
      exact ⟨hid, hrepository, hkey, hroot, fun _ => hp c hpc⟩
    · exact ⟨rfl, rfl, rfl, rfl, id⟩
  after := by
    intro c hc
    refine ⟨_, List.mem_map_of_mem hc, ?_⟩
    split
    · exact ⟨(hf c).1, (hf c).2.1⟩
    · exact ⟨rfl, rfl⟩
  keyed := by
    intro h
    refine h.map fun c => ?_
    split
    · exact (hf c).1
    · rfl

theorem steady_updateClaims {states : List ClaimState} (hstates : .released ∉ states)
    (hf : ∀ c, (f c).id = c.id ∧ (f c).repositoryId = c.repositoryId ∧
      (f c).namespaceKey = c.namespaceKey ∧ (f c).rootPath = c.rootPath)
    (h : updateClaims states f q claims = .ok claims') : Steady claims claims' := by
  have hchange : ∀ root : Option String, Steady claims (changeClaims claims (fun c =>
      c.repositoryId = q.repositoryId && c.state ∈ states &&
        q.ownerNodeId.all (fun node => c.ownerNodeId = some node) &&
        root.all fun root => c.rootPath = root) f) := by
    intro root
    refine steady_changeClaims (fun c hc => ?_) hf
    simp only [Bool.and_eq_true, decide_eq_true_eq] at hc
    exact LocationClaim.isActive_iff.mpr fun hreleased => hstates (hreleased ▸ hc.1.1.2)
  rw [updateClaims] at h
  cases hsubdir : q.repositorySubdir with
  | none =>
    rw [hsubdir] at h
    cases h
    exact hchange none
  | some subdir =>
    simp only [hsubdir] at h
    cases hroot : normalizeRoot subdir with
    | error message => simp [hroot] at h
    | ok root =>
      rw [hroot] at h
      cases h
      exact hchange (some root)

theorem steady_transition {t : ClaimTransition} (h : t.apply now q claims = .ok claims') :
    Steady claims claims' := by
  cases t with
  | owned =>
    rw [ClaimTransition.apply, markRepositoryLocationOwned] at h
    refine steady_updateClaims ?_ ?_ h
    · decide
    · exact fun _ => ⟨rfl, rfl, rfl, rfl⟩
  | ownershipVerified =>
    rw [ClaimTransition.apply, markRepositoryLocationOwnershipVerified] at h
    refine steady_updateClaims ?_ ?_ h
    · decide
    · exact fun _ => ⟨rfl, rfl, rfl, rfl⟩
  | invalidated =>
    rw [ClaimTransition.apply, invalidateRepositoryLocationOwnership] at h
    refine steady_updateClaims ?_ ?_ h
    · decide
    · exact fun _ => ⟨rfl, rfl, rfl, rfl⟩
  | initializing includeResidual =>
    rw [ClaimTransition.apply, markRepositoryLocationInitializing] at h
    refine steady_updateClaims ?_ ?_ h
    · cases includeResidual <;> decide
    · exact fun _ => ⟨rfl, rfl, rfl, rfl⟩
  | residual =>
    rw [ClaimTransition.apply, markRepositoryLocationResidual] at h
    refine steady_updateClaims ?_ ?_ h
    · decide
    · exact fun _ => ⟨rfl, rfl, rfl, rfl⟩
  | initializationFailed =>
    rw [ClaimTransition.apply, markRepositoryLocationInitializationFailed] at h
    refine steady_updateClaims ?_ ?_ h
    · decide
    · exact fun _ => ⟨rfl, rfl, rfl, rfl⟩
  | released =>
    rw [ClaimTransition.apply, releaseRepositoryLocation] at h
    refine steady_updateClaims ?_ ?_ h
    · decide
    · exact fun _ => ⟨rfl, rfl, rfl, rfl⟩
  | recovered claimId expected =>
    rw [ClaimTransition.apply, recoverRepositoryLocationOwnership] at h
    refine steady_updateClaims ?_ ?_ h
    · decide
    · intro c
      split <;> exact ⟨rfl, rfl, rfl, rfl⟩

theorem steady_releaseResidual {refusal : Option String} {repositoryId : Nat}
    (h : releaseRepositoryResidualLocations refusal now repositoryId claims = .ok claims') :
    Steady claims claims' := by
  cases refusal with
  | some message => cases h
  | none =>
    rw [releaseRepositoryResidualLocations] at h
    split at h
    · cases h
      refine steady_changeClaims (fun c hc => ?_) fun _ => ⟨rfl, rfl, rfl, rfl⟩
      simp only [Bool.and_eq_true, decide_eq_true_eq] at hc
      exact LocationClaim.isActive_iff.mpr fun hreleased => by simp [hreleased] at hc
    · cases h

end Updates

section Steps

variable {s s' : ClaimStore}

variable {claims' : List LocationClaim} {repositoryId : Nat} {spec : RepositoryLocationSpec}

variable {c : LocationClaim} {now : Int}

theorem ClaimInv.steady (h : ClaimInv s) (hsteady : Steady s.claims claims') :
    ClaimInv { s with claims := claims' } where
  keyed := hsteady.keyed h.keyed
  fresh := by
    intro c' hc'
    obtain ⟨c, hc, hid, _⟩ := hsteady.before c' hc'
    exact hid ▸ h.fresh c hc
  apart := by
    intro c' hc' d' hd' hcactive hdactive hrepository hkey
    obtain ⟨c, hc, _, hcrepository, hckey, hcroot, hc⟩ := hsteady.before c' hc'
    obtain ⟨d, hd, _, hdrepository, hdkey, hdroot, hd⟩ := hsteady.before d' hd'
    rw [hcroot, hdroot]
    refine h.apart c ‹_› d ‹_› (hc hcactive) (hd hdactive) ?_ ?_
    · rwa [← hcrepository, ← hdrepository]
    · rwa [← hckey, ← hdkey]
  current := by
    intro repositoryId r hr current hcurrent
    obtain ⟨c, hc, hid, hrepository⟩ := h.current repositoryId r hr current hcurrent
    obtain ⟨c', hc', hid', hrepository'⟩ := hsteady.after c hc
    exact ⟨c', hc', hid'.trans hid, hrepository'.trans hrepository⟩

theorem ClaimInv.keepsReleased (h : ClaimInv s) (hsteady : Steady s.claims claims') :
    KeepsReleased s { s with claims := claims' } := by
  intro c hc
  obtain ⟨c', hc', hid, _⟩ := hsteady.after c hc
  refine ⟨c', hc', hid, fun hreleased => ?_⟩
  obtain ⟨d, hd, hdid, _, _, _, hactive⟩ := hsteady.before c' hc'
  obtain rfl : d = c := h.keyed d hd c hc (hdid.symm.trans hid)
  by_contra hstate
  exact LocationClaim.isActive_iff.mp (hactive (LocationClaim.isActive_iff.mpr hstate)) hreleased

/-! ## New and moved claims -/

variable {keys : List String}

theorem not_overlap_of_conflictingClaim {rootPath : String}
    (h : s.conflictingClaim repositoryId keys rootPath = none) (hc : c ∈ s.claims)
    (hactive : c.isActive = true) (hrepository : c.repositoryId ≠ repositoryId)
    (hkey : c.namespaceKey ∈ keys) : rootsOverlap rootPath c.rootPath = false := by
  have hnot := List.find?_eq_none.mp h c hc
  simpa [hactive, hrepository, hkey] using hnot

/-- Claims stay apart when one claim that overlaps no other one is put among them. -/
theorem ClaimsApart.of_new {claims : List LocationClaim} (h : ClaimsApart claims)
    {x : LocationClaim} (hmem : ∀ c ∈ claims', c = x ∨ c ∈ claims)
    (hx : ∀ c ∈ claims, c.isActive = true → c.repositoryId ≠ x.repositoryId →
      c.namespaceKey = x.namespaceKey → rootsOverlap x.rootPath c.rootPath = false) :
    ClaimsApart claims' := by
  intro c hc d hd hcactive hdactive hrepository hkey
  rcases hmem c hc with rfl | hc
  · rcases hmem d hd with rfl | hd
    · exact absurd rfl hrepository
    · exact hx d hd hdactive hrepository.symm hkey.symm
  · rcases hmem d hd with rfl | hd
    · rw [rootsOverlap_comm]
      exact hx c hc hcactive hrepository hkey
    · exact h c hc d hd hcactive hdactive hrepository hkey

theorem ClaimInv.addClaim (h : ClaimInv s) (hkeys : spec.namespaceKey ∈ keys)
    (hfree : s.conflictingClaim repositoryId keys spec.rootPath = none) (resolvedAt : Option Int)
    (now : Int) : ClaimInv (s.addClaim repositoryId spec resolvedAt now) where
  keyed := by
    intro c hc d hd hid
    have hnew : ∀ e ∈ s.claims, e.id ≠ s.next := fun e he => (h.fresh e he).ne
    rcases List.mem_append.mp hc with hc | hc
    · rcases List.mem_append.mp hd with hd | hd
      · exact h.keyed c hc d hd hid
      · obtain rfl := List.mem_singleton.mp hd
        exact absurd hid (hnew c hc)
    · rcases List.mem_append.mp hd with hd | hd
      · obtain rfl := List.mem_singleton.mp hc
        exact absurd hid.symm (hnew d hd)
      · rw [List.mem_singleton.mp hc, List.mem_singleton.mp hd]
  fresh := by
    intro c hc
    rcases List.mem_append.mp hc with hc | hc
    · exact (h.fresh c hc).trans (Nat.lt_succ_self _)
    · obtain rfl := List.mem_singleton.mp hc
      exact Nat.lt_succ_self _
  apart := by
    refine h.apart.of_new (fun c hc => (List.mem_append.mp hc).symm.imp_left List.mem_singleton.mp)
      fun c hc hactive hrepository hkey => ?_
    have hkey : c.namespaceKey ∈ keys := by
      rw [hkey]
      exact hkeys
    exact not_overlap_of_conflictingClaim hfree hc hactive hrepository hkey
  current := by
    intro repositoryId' r hr current hcurrent
    obtain ⟨c, hc, hid, hrepository⟩ := h.current repositoryId' r hr current hcurrent
    exact ⟨c, List.mem_append_left _ hc, hid, hrepository⟩

theorem keepsReleased_addClaim (repositoryId : Nat) (spec : RepositoryLocationSpec)
    (resolvedAt : Option Int) (now : Int) :
    KeepsReleased s (s.addClaim repositoryId spec resolvedAt now) :=
  fun c hc => ⟨c, List.mem_append_left _ hc, rfl, id⟩

theorem ClaimInv.moveClaim (h : ClaimInv s) {current : LocationClaim} (hc : c ∈ s.claims)
    (hid : c.id = current.id) (hrepository : c.repositoryId = repositoryId)
    (hkeys : spec.namespaceKey ∈ keys)
    (hfree : s.conflictingClaim repositoryId keys spec.rootPath = none) (now : Int) :
    ClaimInv { s with
      claims := changeClaims s.claims (fun c => c.id = current.id) fun c =>
        c.moveTo spec now } := by
  have hkey : ∀ d : LocationClaim,
      (if decide (d.id = current.id) then d.moveTo spec now else d).id = d.id ∧
        (if decide (d.id = current.id) then d.moveTo spec now else d).repositoryId =
          d.repositoryId := by
    intro d
    split <;> exact ⟨rfl, rfl⟩
  refine ⟨h.keyed.map fun d => (hkey d).1, ?_, ?_, ?_⟩
  · intro d' hd'
    obtain ⟨d, hd, rfl⟩ := List.mem_map.mp hd'
    rw [(hkey d).1]
    exact h.fresh d hd
  · refine h.apart.of_new (x := c.moveTo spec now) ?_ ?_
    · intro d' hd'
      obtain ⟨d, hd, rfl⟩ := List.mem_map.mp hd'
      split
      · rename_i hdid
        left
        rw [h.keyed d hd c hc ((of_decide_eq_true hdid).trans hid.symm)]
      · exact .inr hd
    · intro d hd hactive hother hkey
      refine not_overlap_of_conflictingClaim hfree hd hactive ?_ ?_
      · rw [← hrepository]
        exact hother
      · rw [hkey]
        exact hkeys
  · intro repositoryId' r hr current' hcurrent
    obtain ⟨d, hd, hdid, hdrepository⟩ := h.current repositoryId' r hr current' hcurrent
    exact ⟨_, List.mem_map_of_mem hd, (hkey d).1.trans hdid, (hkey d).2.trans hdrepository⟩

theorem keepsReleased_moveClaim (current : LocationClaim) (spec : RepositoryLocationSpec)
    (now : Int) :
    KeepsReleased s { s with
      claims := changeClaims s.claims (fun c => c.id = current.id) fun c =>
        c.moveTo spec now } := by
  intro c hc
  refine ⟨_, List.mem_map_of_mem hc, ?_⟩
  split <;> exact ⟨rfl, id⟩

/-! ## Steps -/

theorem KeepsReleased.refl (s : ClaimStore) : KeepsReleased s s :=
  fun c hc => ⟨c, hc, rfl, id⟩

theorem KeepsReleased.trans {s'' : ClaimStore} (h : KeepsReleased s s')
    (h' : KeepsReleased s' s'') : KeepsReleased s s'' := by
  intro c hc
  obtain ⟨c', hc', hid, hstate⟩ := h c hc
  obtain ⟨c'', hc'', hid', hstate'⟩ := h' c' hc'
  exact ⟨c'', hc'', hid'.trans hid, hstate' ∘ hstate⟩

theorem ClaimInv.reserve (h : ClaimInv s) (hs : s.reserve repositoryId spec now = .ok s') :
    ClaimInv s' ∧ KeepsReleased s s' := by
  rw [ClaimStore.reserve] at hs
  cases hfree : s.conflictingClaim repositoryId [spec.namespaceKey] spec.rootPath with
  | some c => simp [hfree] at hs
  | none =>
    simp only [hfree] at hs
    split at hs
    · cases hs
      exact ⟨h, .refl s⟩
    · cases hs
      exact ⟨h.addClaim (List.mem_singleton_self _) hfree none now,
        keepsReleased_addClaim repositoryId spec none now⟩

/-- A resolution puts the claim of its repository, or a new one, where it overlaps no
other one. -/
theorem ClaimInv.finishResolve (h : ClaimInv s) {r : Resolving}
    (hr : s.resolving repositoryId = some r) (hs : s.finishResolve repositoryId r now = .ok s') :
    ClaimInv s' ∧ KeepsReleased s s' := by
  rw [ClaimStore.finishResolve] at hs
  have hkeys : r.spec.namespaceKey ∈ r.spec.namespaceKey :: r.conservativeKey ::
      (r.currentClaim.map LocationClaim.namespaceKey).toList := List.mem_cons_self
  generalize r.spec.namespaceKey :: r.conservativeKey ::
    (r.currentClaim.map LocationClaim.namespaceKey).toList = keys at hs hkeys
  cases hfree : s.conflictingClaim repositoryId keys r.spec.rootPath with
  | some c => simp [hfree] at hs
  | none =>
    simp only [hfree] at hs
    cases hcurrent : r.currentClaim with
    | none =>
      rw [hcurrent] at hs
      cases hs
      exact ⟨h.addClaim hkeys hfree (some now) now,
        keepsReleased_addClaim repositoryId r.spec (some now) now⟩
    | some current =>
      rw [hcurrent] at hs
      cases hs
      obtain ⟨c, hc, hid, hrepository⟩ := h.current repositoryId r hr current hcurrent
      exact ⟨h.moveClaim hc hid hrepository hkeys hfree now,
        keepsReleased_moveClaim current r.spec now⟩

theorem ClaimInv.endResolve (h : ClaimInv s) (repositoryId : Nat) :
    ClaimInv (s.endResolve repositoryId) where
  keyed := h.keyed
  fresh := h.fresh
  apart := h.apart
  current := by
    intro repositoryId' r hr current hcurrent
    by_cases hsame : repositoryId' = repositoryId
    · subst hsame
      simp [ClaimStore.endResolve] at hr
    · exact h.current repositoryId' r (by simpa [ClaimStore.endResolve, hsame] using hr) current
        hcurrent

theorem ClaimInv.beginResolve (h : ClaimInv s) (repositoryId : Nat)
    (spec : RepositoryLocationSpec) (conservativeKey : String) :
    ClaimInv (s.beginResolve repositoryId spec conservativeKey) where
  keyed := h.keyed
  fresh := h.fresh
  apart := h.apart
  current := by
    intro repositoryId' r hr current hcurrent
    by_cases hsame : repositoryId' = repositoryId
    · subst hsame
      obtain rfl : _ = r := by simpa [ClaimStore.beginResolve] using hr
      have hfound := List.find?_some hcurrent
      simp only [Bool.and_eq_true, decide_eq_true_eq] at hfound
      exact ⟨current, List.mem_of_find?_eq_some hcurrent, rfl, hfound.1.1⟩
    · exact h.current repositoryId' r (by simpa [ClaimStore.beginResolve, hsame] using hr) current
        hcurrent

theorem ClaimInv.step (h : ClaimInv s) {e : ClaimEvent} (hs : claimStep s e = some s') :
    ClaimInv s' ∧ KeepsReleased s s' := by
  cases e with
  | reserve repositoryId spec now =>
    have hs := ok_of_toOption hs
    cases spec with
    | none =>
      cases hs
      exact ⟨h, .refl s⟩
    | some spec => exact h.reserve hs
  | reserveDirectNas repositoryId spec now =>
    have hs := ok_of_toOption hs
    cases spec with
    | none => cases hs
    | some spec => exact h.reserve hs
  | beginResolve repositoryId spec conservativeKey =>
    rw [claimStep] at hs
    cases hr : s.resolving repositoryId with
    | some r => simp [hr] at hs
    | none =>
      rw [hr] at hs
      cases hs
      exact ⟨h.beginResolve repositoryId spec conservativeKey, KeepsReleased.refl s⟩
  | finishResolve repositoryId now =>
    rw [claimStep] at hs
    cases hr : s.resolving repositoryId with
    | none => simp [hr] at hs
    | some r =>
      simp only [hr] at hs
      cases hfinish : s.finishResolve repositoryId r now with
      | error error => simp [hfinish, Except.map, Except.toOption] at hs
      | ok s'' =>
        rw [hfinish] at hs
        cases hs
        obtain ⟨hinv, hreleased⟩ := h.finishResolve hr hfinish
        exact ⟨hinv.endResolve repositoryId, hreleased⟩
  | abortResolve repositoryId =>
    cases hs
    exact ⟨h.endResolve repositoryId, KeepsReleased.refl s⟩
  | transition t q now =>
    rw [claimStep] at hs
    cases htransition : t.apply now q s.claims with
    | error error => simp [htransition, Except.map, Except.toOption] at hs
    | ok claims =>
      rw [htransition] at hs
      cases hs
      have hsteady := steady_transition htransition
      exact ⟨h.steady hsteady, h.keepsReleased hsteady⟩
  | releaseResidual refusal repositoryId now =>
    rw [claimStep] at hs
    cases hrelease : releaseRepositoryResidualLocations refusal now repositoryId s.claims with
    | error error => simp [hrelease, Except.map, Except.toOption] at hs
    | ok claims =>
      rw [hrelease] at hs
      cases hs
      have hsteady := steady_releaseResidual hrelease
      exact ⟨h.steady hsteady, h.keepsReleased hsteady⟩

end Steps

/-! ## Runs -/

section Runs

variable {s s' : ClaimStore}

theorem claimInv_of_reachable (h : locationClaims.Reachable s) : ClaimInv s := by
  refine System.ReachableUnder.invariant (I := ClaimInv) ?_ ?_ h
  · intro s ⟨hclaims, hresolving⟩
    refine ⟨?_, ?_, ?_, ?_⟩
    · rw [hclaims]
      exact .nil
    · intro c hc
      rw [hclaims] at hc
      cases hc
    · intro c hc
      rw [hclaims] at hc
      cases hc
    · intro repositoryId r hr
      rw [hresolving repositoryId] at hr
      cases hr
  · intro s e s' hI _ hs
    exact (hI.step hs).1

theorem released_of_path (h : ClaimInv s) (hpath : locationClaims.Path System.always s s') :
    ClaimInv s' ∧ KeepsReleased s s' := by
  induction hpath with
  | refl => exact ⟨h, .refl s⟩
  | tail hpath _ hs ih =>
    obtain ⟨hinv, hreleased⟩ := ih
    obtain ⟨hinv', hreleased'⟩ := hinv.step hs
    exact ⟨hinv', hreleased.trans hreleased'⟩

end Runs

/-- In every reachable state, active claims of different repositories in one namespace
have roots of which neither is a prefix of the other, component by component. A claim
that is released stays in its table, and released, for the rest of the run. -/
theorem active_claims_apart :
    (∀ s, locationClaims.Reachable s → ∀ c ∈ s.claims, ∀ d ∈ s.claims,
      c.isActive = true → d.isActive = true → c.repositoryId ≠ d.repositoryId →
      c.namespaceKey = d.namespaceKey →
      ¬pathParts c.rootPath <+: pathParts d.rootPath ∧
        ¬pathParts d.rootPath <+: pathParts c.rootPath) ∧
    (∀ s s', locationClaims.Reachable s → locationClaims.Path System.always s s' →
      ∀ c ∈ s.claims, c.state = .released → ∀ c' ∈ s'.claims, c'.id = c.id →
        c'.state = .released) := by
  constructor
  · intro s hreach c hc d hd hcactive hdactive hrepository hkey
    have hapart := (claimInv_of_reachable hreach).apart c hc d hd hcactive hdactive hrepository hkey
    exact not_or.mp fun hoverlap => by simp [rootsOverlap_iff.mpr hoverlap] at hapart
  · intro s s' hreach hpath c hc hreleased c' hc' hid
    obtain ⟨hinv, hkept⟩ := released_of_path (claimInv_of_reachable hreach) hpath
    obtain ⟨c'', hc'', hid'', hstate⟩ := hkept c hc
    rw [hinv.keyed c' hc' c'' hc'' (hid.trans hid''.symm)]
    exact hstate hreleased

end HyperFileLens.Storage
