import HyperFileLens.Ownership.VerificationsPass

/-!
# Owners of repositories exclude each other

The runs of claims, verifications and comparisons on one file system, with all that their
reports establish.

*Exclusion.*  Runs that report owners of equal or nested paths report one owner of one path.

*Verifications.*  After a claim has succeeded, a verification that starts later passes,
whatever other runs do, unless it is refused a call.
-/

namespace HyperFileLens.Ownership

open Service FileTree FilePath Storage Cleanup Transition

variable {root : Path} {s s' : OwnershipPool}

/-- The runs on a file system in which no two markers are nested. -/
def ownershipRuns (root : Path) : System OwnershipPool OwnershipEvent :=
  crewSystem ownershipHost OwnershipJob.run (fun s _ => s) fun s =>
    Apart root s.tree ∧ (∀ p, s.maker p = none) ∧ ∀ i, s.found i = none

/-- The repositories are below the root and none goes through a marker of another one. A
marker is created only when no nested repository has got one since its run began, and what
is removed as a residue is no directory. -/
def Undisputed (root : Path) : OwnershipPool → OwnershipEvent → Prop :=
  Rely.Considered (fun job => job.spec.Fits root) (fun i s r _ => Timely root i s r)
    fun _ _ => True

/-- A run has reported that its repository is owned. -/
def Reports (s : OwnershipPool) (i : Nat) (job : OwnershipJob) : Prop :=
  s.client i = some (job, .ret true)

/-- The paths of two repositories are equal, or one is above the other. -/
def Overlap (p q : Path) : Prop := p <+: q ∨ q <+: p

def SameRepository (spec spec' : RepositorySpec) : Prop :=
  spec.repositoryPath = spec'.repositoryPath ∧
    spec.ownership.map repositoryOwnershipMarkerFromSpec =
      spec'.ownership.map repositoryOwnershipMarkerFromSpec

abbrev Promising (root : Path) (s : OwnershipPool) : Prop :=
  (markerRely root).Steadfast ownershipHost (fun _ _ _ _ => True) (fun _ => Promise root)
    (fun job => job.spec.Fits root) s

theorem promising_of_reachable (h : (ownershipRuns root).ReachableUnder (Undisputed root) s) :
    Promising root s ∧ Fresh s := by
  refine System.ReachableUnder.invariant (T := ownershipRuns root)
    (I := fun t => Promising root t ∧ Fresh t) ?_ ?_ h
  · rintro s₀ ⟨⟨hapart, hmaker, hfound⟩, hnone⟩
    refine ⟨⟨⟨hapart, fun p j hj => ?_, fun k t ht => ?_⟩, fun {j job p} hj => ?_,
      fun {j job p} hj => ?_⟩, fun i _ => hnone i⟩
    · cases (hmaker p).symm.trans hj
    · cases (hfound k).symm.trans ht
    · cases (hnone j).symm.trans hj
    · cases (hnone j).symm.trans hj
  · intro t a t' ⟨hpromising, hfresh⟩ hok hs
    replace hs : crewStep ownershipHost OwnershipJob.run (fun u (_ : Empty) => u) t a =
      some t' := hs
    refine ⟨hpromising.step (marker_upheld root) ?_ (fun i job u hfits => works_run job hfits)
      hok hs, hfresh.step hs⟩
    exact ⟨fun _ _ => trivial, fun h hgrows => lasting_promise _ _ _ _ h (.of_grows hgrows)⟩

theorem sameRepository_of_holds {u : OwnershipStore} {spec spec' : RepositorySpec}
    (hkeeps : Keeps root u) (h : Holds root spec u) (h' : Holds root spec' u)
    (hoverlap : Overlap spec.repositoryPath spec'.repositoryPath) : SameRepository spec spec' := by
  obtain ⟨ownership, howner, hbelow, hmarks⟩ := h
  obtain ⟨ownership', howner', hbelow', hmarks'⟩ := h'
  have hpath : spec.repositoryPath = spec'.repositoryPath := by
    by_contra hne
    exact hkeeps.apart _ _ ⟨hbelow, hbelow', hne, hoverlap⟩ hmarks.occupied hmarks'.occupied
  refine ⟨hpath, ?_⟩
  rw [howner, howner', Option.map_some, Option.map_some, hmarks.unique (hpath ▸ hmarks')]

/-! ## After a claim -/

def LaterVerify (n : Nat) (spec : RepositorySpec) (i : Nat) (job : OwnershipJob) : Prop :=
  n ≤ i ∧ job.spec = spec ∧ ∃ adoptMissing, job.task = .verify adoptMissing

def acceptedRely (root : Path) (spec : RepositorySpec) (location : List Char × List Char)
    (ownership : RepositoryOwnership) : Rely OwnershipStore OwnershipCall where
  keeps := fun t => Keeps root t ∧ Accepted root spec location ownership t
  moves := Grows root
  guards := Guard root
  refl := Grows.refl root
  trans := fun h h' => h.trans h'

variable {spec : RepositorySpec} {location : List Char × List Char}
  {ownership : RepositoryOwnership}

theorem accepted_upheld : (acceptedRely root spec location ownership).Upheld ownershipHost
    (fun s (_ : Empty) => s) (fun i s r _ => Timely root i s r) fun _ _ => True where
  call := fun {i t r c} hkeeps hguard htimely => by
    obtain ⟨hkeeps', hothers⟩ := (marker_upheld root).call hkeeps.1 hguard htimely
    exact ⟨⟨hkeeps', lasting_accepted _ _ _ _ _ hkeeps.2 (later_respond hguard c)⟩, hothers⟩
  stop := fun i hkeeps => ⟨hkeeps, fun j _ => Grows.refl root j _⟩
  env := fun {_ e} _ _ => e.elim

/-- The repository is accepted, and a later verification fails only if it is refused a
call. -/
abbrev Verifying (root : Path) (spec : RepositorySpec) (location : List Char × List Char)
    (ownership : RepositoryOwnership) (n : Nat) (s : OwnershipPool) : Prop :=
  (acceptedRely root spec location ownership).Steadfast ownershipHost
    (fun i job _ t => LaterVerify n spec i job → t.refused i = true)
    (fun _ _ _ _ => True) (fun job => job.spec.Fits root) s

theorem safe_later {u t : OwnershipStore} (haccepted : Accepted root spec location ownership u)
    (n i : Nat) (job : OwnershipJob) (hfits : job.spec.Fits root) :
    (acceptedRely root spec location ownership).Safe ownershipHost i
      (fun _ t => LaterVerify n spec i job → t.refused i = true) job.run (fun _ _ => True) t := by
  have hworks : Works root i job.run (Promise root job) t := works_run job hfits
  by_cases hlater : LaterVerify n spec i job
  · obtain ⟨task, spec', depth⟩ := job
    obtain ⟨-, rfl, adoptMissing, rfl⟩ := hlater
    have hverify := safe_verify (i := i) (s := t) haccepted depth adoptMissing
    exact (Rely.Safe.both (R := acceptedRely root spec' location ownership) hworks hverify
      (fun u hu => ⟨hu.1, hu⟩) (fun _ _ hm => ⟨hm, hm⟩) fun _ _ hg _ => hg).mono
      (fun _ _ he _ => he.2) fun _ _ _ => trivial
  · exact (Rely.Safe.both (R := acceptedRely root spec location ownership) hworks hworks
      (fun u hu => ⟨hu.1, hu.1⟩) (fun _ _ hm => ⟨hm, hm⟩) fun _ _ hg _ => hg).mono
      (fun _ _ _ h => absurd h hlater) fun _ _ _ => trivial

theorem verifying_of_path (hpromising : Promising root s) (hfresh : Fresh s)
    (haccepted : Accepted root spec location ownership s.state)
    (hpath : (ownershipRuns root).Path (Undisputed root) s s') :
    Verifying root spec location ownership s.next s' := by
  refine System.Path.invariant (T := ownershipRuns root) (fun t a t' hverifying hok hs => ?_)
    hpath ?_
  · refine hverifying.step accepted_upheld ?_
      (fun i job u hfits => safe_later haccepted s.next i job hfits) hok hs
    exact ⟨fun h hgrows hlater => hgrows.refused.trans (h hlater), fun _ _ => trivial⟩
  · refine ⟨⟨hpromising.keeps, haccepted⟩, hpromising.started, fun {i job p} hclient => ?_⟩
    have hknown : ¬ LaterVerify s.next spec i job := by
      rintro ⟨hle, -⟩
      cases (hfresh i hle).symm.trans hclient
    have hsafe := hpromising.safe hclient
    exact (Rely.Safe.both (R := acceptedRely root spec location ownership) hsafe hsafe
      (fun u hu => ⟨hu.1, hu.1⟩) (fun _ _ hm => ⟨hm, hm⟩) fun _ _ hg _ => hg).mono
      (fun _ _ _ h => absurd h hknown) fun _ _ _ => trivial

def KeepsVerifying (spec : RepositorySpec) (n : Nat) (s : OwnershipPool) : Prop :=
  (∀ i job error, LaterVerify n spec i job → s.client i = some (job, .fail error) →
    s.state.refused i = true) ∧
  ∃ d, ∀ depth, d ≤ depth → ∀ adoptMissing i,
    (OwnershipJob.run ⟨.verify adoptMissing, spec, depth⟩).Alone ownershipHost
      (fun c => c.error = none) i False (fun r _ => r = true) s.state

/-- When markers are created in time, owners of equal or nested paths are one, and a
repository whose claim has succeeded keeps verifying, whatever other runs do. -/
theorem owners_exclusive (h : (ownershipRuns root).ReachableUnder (Undisputed root) s) :
    (∀ i j job job', Reports s i job → Reports s j job' →
      Overlap job.spec.repositoryPath job'.spec.repositoryPath →
      SameRepository job.spec job'.spec) ∧
    ∀ i job, Reports s i job → job.task = .claim →
      ∀ s', (ownershipRuns root).Path (Undisputed root) s s' →
        KeepsVerifying job.spec s.next s' := by
  obtain ⟨hpromising, hfresh⟩ := promising_of_reachable h
  refine ⟨fun i j job job' hi hj hoverlap => ?_, fun i job hi hclaim s' hpath => ?_⟩
  · exact sameRepository_of_holds hpromising.keeps ((hpromising.safe hi).1 rfl)
      ((hpromising.safe hj).1 rfl) hoverlap
  · obtain ⟨location, ownership, haccepted⟩ := (hpromising.safe hi).2 hclaim rfl
    have hverifying := verifying_of_path hpromising hfresh haccepted hpath
    refine ⟨fun k job' error hlater hk => hverifying.safe hk hlater,
      treeDepth s'.state.tree, fun depth hdepth adoptMissing k => ?_⟩
    exact alone_verify hverifying.keeps.1 hverifying.keeps.2 hdepth adoptMissing

/-! ## Two repositories of a mount -/

def mountRoot : Path := ["m".toList]

def mounted (subdir owner : String) : RepositorySpec where
  mountPoint := some "/m".toList
  subdir := subdir.toList
  ownership := some {
    markerPath := ""
    deploymentUUID := "deployment"
    repositoryUUID := owner
    locationDigest := ""
    formatVersion := 1
    signature := "" }

def outer : RepositorySpec := mounted "a" "outer"

def inner : RepositorySpec := mounted "a/b" "inner"

def noRuns : OwnershipPool where
  state := { tree := .ofEntries [([], .dir), (mountRoot, .dir)] (by decide) (by decide) }
  client := fun _ => none
  next := 0

theorem noRuns_init : (ownershipRuns mountRoot).init noRuns := by
  refine ⟨⟨fun c d _ ⟨e, he, _⟩ => ?_, fun _ => rfl, fun _ => rfl⟩, fun _ => rfl⟩
  have hmem := noRuns.state.tree.mem_support _ e he
  have hsupport : noRuns.state.tree.support = [[], mountRoot] := by decide
  rw [hsupport, List.mem_cons, List.mem_singleton] at hmem
  rcases hmem with hnil | hroot
  · exact absurd hnil (by simp [markerPathOf])
  · have hlength := congrArg List.length hroot
    simp [markerPathOf, mountRoot] at hlength

theorem fits_of_location {location : List Char × List Char} {spec : RepositorySpec}
    (hlocation : spec.location = .ok location) (habs : isAbs location.2 = true)
    (hroot : clean location.2 = root) (hname : markerName ∉ clean location.1) :
    spec.Fits root := by
  intro location' hlocation'
  obtain rfl := Except.ok.inj (hlocation.symm.trans hlocation')
  refine ⟨habs, hroot, fun c _ habove => hname (habove.subset ?_)⟩
  rw [markerPathOf_eq]
  exact List.mem_append_right _ List.mem_cons_self

theorem outer_fits : outer.Fits mountRoot :=
  have hlocation : outer.location = .ok ("/m/a".toList, "/m".toList) := by decide +kernel
  fits_of_location hlocation (by decide) (by decide) (by decide)

theorem inner_fits : inner.Fits mountRoot :=
  have hlocation : inner.location = .ok ("/m/a/b".toList, "/m".toList) := by decide +kernel
  fits_of_location hlocation (by decide) (by decide) (by decide)

def calls (i n : Nat) : List OwnershipEvent := List.replicate n (.call i {})

def outcome (s : OwnershipPool) (i : Nat) : Option (OwnershipJob × Except String Bool) :=
  match s.client i with
  | some (job, .ret reported) => some (job, .ok reported)
  | some (job, .fail error) => some (job, .error error)
  | _ => none

theorem reports_of_outcome {i : Nat} {job : OwnershipJob}
    (h : outcome s i = some (job, .ok true)) : Reports s i job := by
  rw [outcome] at h
  split at h
  · rename_i hclient
    cases h
    exact hclient
  · cases h
  · cases h

theorem fails_of_outcome {i : Nat} {job : OwnershipJob} {error : String}
    (h : outcome s i = some (job, .error error)) : s.client i = some (job, .fail error) := by
  rw [outcome] at h
  split at h
  · cases h
  · rename_i hclient
    cases h
    exact hclient
  · cases h

/-- A run is for one of the two repositories. A marker is created only when there is no
other one, and nothing is removed. -/
def isQuiet (s : OwnershipPool) : OwnershipEvent → Bool
  | .start job => job.spec = outer || job.spec = inner
  | .call i _ =>
    match s.client i with
    | some (_, .call (.create _) _) =>
      s.state.tree.support.all fun p => p.getLast? ≠ some markerName
    | some (_, .call (.fs (.remove _)) _) => false
    | _ => true
  | .stop _ => true
  | .env _ => true

theorem undisputed_of_quiet {a : OwnershipEvent} (h : isQuiet s a = true) :
    Undisputed mountRoot s a := by
  cases a with
  | start job =>
    show job.spec.Fits mountRoot
    rw [isQuiet, Bool.or_eq_true, decide_eq_true_iff, decide_eq_true_iff] at h
    rcases h with hspec | hspec
    · exact hspec ▸ outer_fits
    · exact hspec ▸ inner_fits
  | call i c =>
    intro job r k hclient
    rw [isQuiet, hclient] at h
    cases r with
    | create path =>
      rintro - c d - - ⟨e, he, -⟩
      have hlast := List.all_eq_true.mp h _ (s.state.tree.mem_support _ e he)
      rw [decide_eq_true_iff] at hlast
      refine absurd ?_ hlast
      rw [markerPathOf_eq, List.getLast?_concat]
    | fs call =>
      cases call with
      | remove path => cases h
      | _ => trivial
    | _ => trivial
  | stop i => trivial
  | env e => trivial

/-- The state after a claim of a repository, and another one of the repository below. -/
def claimed : OwnershipPool :=
  ((ownershipRuns mountRoot).exec noRuns ([.start ⟨.claim, outer, 9⟩] ++ calls 0 20 ++
    [.start ⟨.claim, inner, 9⟩] ++ calls 1 6)).get (by decide +kernel)

theorem owners_exclusive_claimed :
    ((∀ i j job job', Reports claimed i job → Reports claimed j job' →
        Overlap job.spec.repositoryPath job'.spec.repositoryPath →
        SameRepository job.spec job'.spec) ∧
      ∀ i job, Reports claimed i job → job.task = .claim →
        ∀ s', (ownershipRuns mountRoot).Path (Undisputed mountRoot) claimed s' →
          KeepsVerifying job.spec claimed.next s') ∧
      Reports claimed 0 ⟨.claim, outer, 9⟩ ∧
      claimed.client 1 = some (⟨.claim, inner, 9⟩,
        .fail "repository directory is nested inside another managed repository") := by
  have hquiet : (ownershipRuns mountRoot).ReachableUnder (fun t a => isQuiet t a = true) claimed :=
    .of_exec (.start noRuns_init) (by decide +kernel) (Option.some_get _).symm
  exact ⟨owners_exclusive (hquiet.mono fun _ _ => undisputed_of_quiet),
    reports_of_outcome (by decide +kernel), fails_of_outcome (by decide +kernel)⟩

/-- The claim of the repository below creates its marker after the other claim has looked for
markers below, and fails. It leaves the marker, a comparison reports its owner, and a
verification of the repository above fails. -/
def leavesMarker : List OwnershipEvent :=
  [.start ⟨.claim, outer, 9⟩, .start ⟨.claim, inner, 9⟩] ++ calls 0 7 ++ calls 1 12 ++
    calls 0 12 ++ calls 1 1 ++ calls 0 3 ++ calls 1 6 ++ [.start ⟨.compare, inner, 9⟩] ++
    calls 2 6 ++ [.start ⟨.verify true, outer, 9⟩] ++ calls 3 10

def disputed : OwnershipPool :=
  ((ownershipRuns mountRoot).exec noRuns leavesMarker).get (by decide +kernel)

/-- Two nested repositories are both reported owned, and the claim of a third run disturbs an
owner. -/
theorem not_owners_exclusive :
    (ownershipRuns mountRoot).Reachable disputed ∧
      outer.Fits mountRoot ∧ inner.Fits mountRoot ∧
      Reports disputed 0 ⟨.claim, outer, 9⟩ ∧ Reports disputed 2 ⟨.compare, inner, 9⟩ ∧
      Nested mountRoot outer.repositoryPath inner.repositoryPath ∧
      disputed.client 1 = some (⟨.claim, inner, 9⟩,
        .fail "repository directory is nested inside another managed repository") ∧
      disputed.client 3 = some (⟨.verify true, outer, 9⟩,
        .fail "repository directory contains another managed repository") ∧
      disputed.state.refused 3 = false := by
  refine ⟨.of_exec noRuns_init (Option.some_get _).symm, outer_fits, inner_fits,
    reports_of_outcome (by decide +kernel), reports_of_outcome (by decide +kernel), ?_,
    fails_of_outcome (by decide +kernel), fails_of_outcome (by decide +kernel),
    by decide +kernel⟩
  refine ⟨?_, ?_, ?_, .inl ?_⟩
  · exact ⟨⟨["a".toList], by decide +kernel⟩, by decide +kernel⟩
  · exact ⟨⟨["a".toList, "b".toList], by decide +kernel⟩, by decide +kernel⟩
  · decide +kernel
  · exact ⟨["b".toList], by decide +kernel⟩

end HyperFileLens.Ownership
