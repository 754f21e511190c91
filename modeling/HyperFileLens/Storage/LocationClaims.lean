import HyperFileLens.Library.Table
import HyperFileLens.Library.Text
import HyperFileLens.Library.Transition

/-!
# Claims of storage locations

The claims of `repository_location.py` and the transactions on them.

*Namespaces.*  A namespace is its key. What a repository asks for (its key, its root, its
owner) is an argument: `repository_location_spec` of any configuration.

*Transactions.*  A reservation runs under the lock of its namespace. The resolution of an
S3 namespace reads the claim of the repository first and locks the namespaces later, so
it has two steps, and other transactions may come between them. All other operations are
single updates.
-/

namespace HyperFileLens.Storage

open Transition

/-! ## Root paths -/

def pathParts (value : String) : List (List Char) :=
  ((value.toList.map fun c => if c = '\\' then '/' else c).splitOn '/').filter fun part => part ≠ []

def rootsOverlap (left right : String) : Bool :=
  let shorter := min (pathParts left).length (pathParts right).length
  (pathParts left).take shorter = (pathParts right).take shorter

def normalizeRoot (value : String) : Except String String :=
  match pathParts (Text.strip value) with
  | [] => .error "Repository root path is required."
  | parts => .ok (String.ofList (List.intercalate ['/'] parts))

theorem take_min_eq_iff {α : Type*} {a b : List α} :
    a.take (min a.length b.length) = b.take (min a.length b.length) ↔ a <+: b ∨ b <+: a := by
  rw [List.prefix_iff_eq_take, List.prefix_iff_eq_take]
  rcases le_total a.length b.length with hle | hle
  · rw [min_eq_left hle, List.take_length]
    constructor
    · exact .inl
    · rintro (h | h)
      · exact h
      · have hlength : a.length = b.length := by
          rw [h, List.length_take]
          omega
        rw [hlength, List.take_length]
        rw [← hlength, List.take_length] at h
        exact h.symm
  · rw [min_eq_right hle, List.take_length]
    constructor
    · exact fun h => .inr h.symm
    · rintro (h | h)
      · have hlength : a.length = b.length := by
          rw [h, List.length_take]
          omega
        rw [← hlength, List.take_length]
        rw [hlength, List.take_length] at h
        exact h
      · exact h.symm

/-- Roots overlap when the components of one are a prefix of those of the other. -/
theorem rootsOverlap_iff {left right : String} : rootsOverlap left right = true ↔
    pathParts left <+: pathParts right ∨ pathParts right <+: pathParts left := by
  rw [rootsOverlap, decide_eq_true_eq]
  exact take_min_eq_iff

theorem rootsOverlap_comm (left right : String) :
    rootsOverlap left right = rootsOverlap right left := by
  rw [Bool.eq_iff_iff, rootsOverlap_iff, rootsOverlap_iff, or_comm]

/-! ## Claims -/

/-- `RepositoryLocationClaim.State`. -/
inductive ClaimState where
  | reserved
  | initializing
  | owned
  | residual
  | released
deriving DecidableEq, Repr

def activeClaimStates : List ClaimState := [.reserved, .initializing, .owned, .residual]

/-- `RepositoryLocationClaim.Scope`. -/
inductive ClaimScope where
  | repository
  | directNasAgent
deriving DecidableEq, Repr

/-- `RepositoryLocationClaim`. -/
structure LocationClaim where
  id : Nat
  repositoryId : Nat
  namespaceKey : String
  scope : ClaimScope
  rootPath : String
  ownerNodeId : Option Nat
  state : ClaimState
  initializedAt : Option Int := none
  lastVerifiedAt : Option Int := none
  namespaceResolvedAt : Option Int := none
  ownershipVerifiedAt : Option Int := none
  legacyAdoptionRequired : Bool := false
  releasedAt : Option Int := none
  updatedAt : Int
deriving DecidableEq

def LocationClaim.isActive (c : LocationClaim) : Bool := c.state ∈ activeClaimStates

/-- `RepositoryLocationSpec`, as far as a claim is concerned. -/
structure RepositoryLocationSpec where
  namespaceKey : String
  rootPath : String
  scope : ClaimScope
  ownerNodeId : Option Nat := none
deriving DecidableEq

/-- A resolution that has read the claim of its repository. -/
structure Resolving where
  spec : RepositoryLocationSpec
  conservativeKey : String
  currentClaim : Option LocationClaim
deriving DecidableEq

/-- The claims, and the resolutions in progress. The row of a repository is locked by at
most one of them. -/
structure ClaimStore where
  claims : List LocationClaim := []
  next : Nat := 0
  resolving : Nat → Option Resolving := fun _ => none

inductive ClaimError where
  | conflict (claimId : Nat)
  | validation (message : String)
deriving DecidableEq

/-! ## Reservation -/

section

variable (s : ClaimStore)

section

variable (repositoryId : Nat)

/-- The first active claim of another repository in some namespaces that overlaps a
root. -/
def ClaimStore.conflictingClaim (keys : List String)
    (rootPath : String) : Option LocationClaim :=
  s.claims.find? fun c => c.namespaceKey ∈ keys && c.isActive &&
    decide (c.repositoryId ≠ repositoryId) && rootsOverlap rootPath c.rootPath

def ClaimStore.addClaim (spec : RepositoryLocationSpec)
    (resolvedAt : Option Int) (now : Int) : ClaimStore :=
  { s with
    claims := s.claims ++ [{
      id := s.next, repositoryId := repositoryId, namespaceKey := spec.namespaceKey
      scope := spec.scope, rootPath := spec.rootPath, ownerNodeId := spec.ownerNodeId
      state := .reserved, namespaceResolvedAt := resolvedAt, updatedAt := now }]
    next := s.next + 1 }

def ClaimStore.reserve (spec : RepositoryLocationSpec)
    (now : Int) : Except ClaimError ClaimStore :=
  match s.conflictingClaim repositoryId [spec.namespaceKey] spec.rootPath with
  | some c => .error (.conflict c.id)
  | none =>
    if s.claims.any fun c => c.repositoryId = repositoryId &&
        c.namespaceKey = spec.namespaceKey && c.scope = spec.scope &&
        c.rootPath = spec.rootPath && c.ownerNodeId = spec.ownerNodeId && c.isActive then
      .ok s
    else .ok (s.addClaim repositoryId spec none now)

def ClaimStore.reserveRepositoryLocation
    (spec : Option RepositoryLocationSpec) (now : Int) : Except ClaimError ClaimStore :=
  match spec with
  | none => .ok s
  | some spec => s.reserve repositoryId spec now

def ClaimStore.reserveDirectNasLocation
    (spec : Option RepositoryLocationSpec) (now : Int) : Except ClaimError ClaimStore :=
  match spec with
  | none => .error (.validation "Direct NAS repository location is unavailable.")
  | some spec => s.reserve repositoryId spec now

/-! ## Resolution of an S3 namespace -/

/-- `resolve_s3_repository_namespace` up to the locks of the namespaces. -/
def ClaimStore.beginResolve
    (spec : RepositoryLocationSpec) (conservativeKey : String) : ClaimStore :=
  let currentClaim := s.claims.find? fun c =>
    c.repositoryId = repositoryId && c.scope = .repository && c.isActive
  { s with
    resolving := Function.update s.resolving repositoryId
      (some ⟨spec, conservativeKey, currentClaim⟩) }

end

end

def LocationClaim.moveTo (c : LocationClaim) (spec : RepositoryLocationSpec) (now : Int) :
    LocationClaim :=
  { c with
    namespaceKey := spec.namespaceKey, rootPath := spec.rootPath
    namespaceResolvedAt := some now, updatedAt := now }

def changeClaims (claims : List LocationClaim) (p : LocationClaim → Bool)
    (f : LocationClaim → LocationClaim) : List LocationClaim :=
  claims.map fun c => if p c then f c else c

/-- `resolve_s3_repository_namespace` under the locks of the namespaces. The columns of
the claim that was read are saved, whatever its state is by now. -/
def ClaimStore.finishResolve (s : ClaimStore) (repositoryId : Nat) (r : Resolving) (now : Int) :
    Except ClaimError ClaimStore :=
  let keys := r.spec.namespaceKey :: r.conservativeKey ::
    (r.currentClaim.map LocationClaim.namespaceKey).toList
  match s.conflictingClaim repositoryId keys r.spec.rootPath with
  | some c => .error (.conflict c.id)
  | none =>
    match r.currentClaim with
    | none => .ok (s.addClaim repositoryId r.spec (some now) now)
    | some current => .ok { s with
        claims := changeClaims s.claims (fun c => c.id = current.id) fun c =>
          c.moveTo r.spec now }

def ClaimStore.endResolve (s : ClaimStore) (repositoryId : Nat) : ClaimStore :=
  { s with resolving := Function.update s.resolving repositoryId none }

/-! ## Transitions -/

structure ClaimQuery where
  repositoryId : Nat
  ownerNodeId : Option Nat := none
  repositorySubdir : Option String := none

def updateClaims (states : List ClaimState) (f : LocationClaim → LocationClaim) (q : ClaimQuery)
    (claims : List LocationClaim) : Except ClaimError (List LocationClaim) :=
  let change (root : Option String) := changeClaims claims (fun c =>
    c.repositoryId = q.repositoryId && c.state ∈ states &&
      q.ownerNodeId.all (fun node => c.ownerNodeId = some node) &&
      root.all fun root => c.rootPath = root) f
  match q.repositorySubdir with
  | none => .ok (change none)
  | some subdir =>
    match normalizeRoot subdir with
    | .error message => .error (.validation message)
    | .ok root => .ok (change (some root))

def markRepositoryLocationOwned (now : Int) :=
  updateClaims [.reserved, .initializing, .residual] fun c => { c with
    state := .owned, initializedAt := some now, lastVerifiedAt := some now, releasedAt := none
    updatedAt := now }

def markRepositoryLocationOwnershipVerified (now : Int) :=
  updateClaims activeClaimStates fun c => { c with
    state := .owned, lastVerifiedAt := some now, ownershipVerifiedAt := some now
    legacyAdoptionRequired := false, releasedAt := none, updatedAt := now }

def invalidateRepositoryLocationOwnership (now : Int) :=
  updateClaims activeClaimStates fun c => { c with
    state := .residual, releasedAt := none, updatedAt := now }

def markRepositoryLocationInitializing (includeResidual : Bool) (now : Int) :=
  updateClaims (if includeResidual then [.reserved, .residual] else [.reserved]) fun c => { c with
    state := .initializing, releasedAt := none, updatedAt := now }

def markRepositoryLocationResidual (now : Int) :=
  updateClaims activeClaimStates fun c => { c with
    state := .residual, releasedAt := none, updatedAt := now }

def markRepositoryLocationInitializationFailed (now : Int) :=
  updateClaims [.reserved, .initializing, .residual] fun c => { c with
    state := .residual, releasedAt := none, updatedAt := now }

def releaseRepositoryLocation (now : Int) :=
  updateClaims activeClaimStates fun c => { c with
    state := .released, releasedAt := some now, updatedAt := now }

def recoverRepositoryLocationOwnership (claimId : Nat) (expectedUpdatedAt now : Int)
    (q : ClaimQuery) (claims : List LocationClaim) : Except ClaimError (List LocationClaim) :=
  updateClaims [.residual] (fun c =>
    if c.id = claimId ∧ c.updatedAt = expectedUpdatedAt then { c with
      state := .owned, initializedAt := some now, lastVerifiedAt := some now
      ownershipVerifiedAt := some now, legacyAdoptionRequired := false, releasedAt := none
      updatedAt := now }
    else c) q claims

/-- `release_repository_residual_locations`. The refusal comes from the status of the
repository and from its operations. -/
def releaseRepositoryResidualLocations (refusal : Option String) (now : Int) (repositoryId : Nat)
    (claims : List LocationClaim) : Except ClaimError (List LocationClaim) :=
  match refusal with
  | some message => .error (.validation message)
  | none =>
    if claims.any fun c => c.repositoryId = repositoryId && c.state = .residual then
      .ok (changeClaims claims (fun c => c.repositoryId = repositoryId && c.state = .residual)
        fun c => { c with state := .released, releasedAt := some now })
    else .error (.validation "Repository has no residual storage locations.")

/-! ## The system -/

inductive ClaimTransition where
  | owned
  | ownershipVerified
  | invalidated
  | initializing (includeResidual : Bool)
  | residual
  | initializationFailed
  | released
  | recovered (claimId : Nat) (expectedUpdatedAt : Int)

def ClaimTransition.apply (now : Int) : ClaimTransition → ClaimQuery → List LocationClaim →
    Except ClaimError (List LocationClaim)
  | .owned => markRepositoryLocationOwned now
  | .ownershipVerified => markRepositoryLocationOwnershipVerified now
  | .invalidated => invalidateRepositoryLocationOwnership now
  | .initializing includeResidual => markRepositoryLocationInitializing includeResidual now
  | .residual => markRepositoryLocationResidual now
  | .initializationFailed => markRepositoryLocationInitializationFailed now
  | .released => releaseRepositoryLocation now
  | .recovered claimId expected => recoverRepositoryLocationOwnership claimId expected now

inductive ClaimEvent where
  | reserve (repositoryId : Nat) (spec : Option RepositoryLocationSpec) (now : Int)
  | reserveDirectNas (repositoryId : Nat) (spec : Option RepositoryLocationSpec) (now : Int)
  | beginResolve (repositoryId : Nat) (spec : RepositoryLocationSpec) (conservativeKey : String)
  | finishResolve (repositoryId : Nat) (now : Int)
  | abortResolve (repositoryId : Nat)
  | transition (t : ClaimTransition) (q : ClaimQuery) (now : Int)
  | releaseResidual (refusal : Option String) (repositoryId : Nat) (now : Int)

def claimStep (s : ClaimStore) : ClaimEvent → Option ClaimStore
  | .reserve repositoryId spec now => (s.reserveRepositoryLocation repositoryId spec now).toOption
  | .reserveDirectNas repositoryId spec now =>
    (s.reserveDirectNasLocation repositoryId spec now).toOption
  | .beginResolve repositoryId spec conservativeKey =>
    match s.resolving repositoryId with
    | some _ => none
    | none => some (s.beginResolve repositoryId spec conservativeKey)
  | .finishResolve repositoryId now =>
    match s.resolving repositoryId with
    | none => none
    | some r => ((s.finishResolve repositoryId r now).map fun s =>
      s.endResolve repositoryId).toOption
  | .abortResolve repositoryId => some (s.endResolve repositoryId)
  | .transition t q now =>
    ((t.apply now q s.claims).map fun claims => { s with claims := claims }).toOption
  | .releaseResidual refusal repositoryId now =>
    ((releaseRepositoryResidualLocations refusal now repositoryId s.claims).map fun claims =>
      { s with claims := claims }).toOption

def locationClaims : System ClaimStore ClaimEvent where
  init := fun s => s.claims = [] ∧ ∀ repositoryId, s.resolving repositoryId = none
  step := claimStep

end HyperFileLens.Storage
