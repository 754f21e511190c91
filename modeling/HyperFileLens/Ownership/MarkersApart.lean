import HyperFileLens.Ownership.RepositoryOwnership

/-!
# Markers of repositories stay apart

Runs of claims, verifications and comparisons on one file system, in every interleaving
and with runs that stop anywhere.

*Condition.*  When a run creates its marker, no nested repository has got one since the
run began, and a run that removes a residue does not meet a directory (`Timely`).

*State.*  No two markers are nested, and a marker that a run could have seen at its
beginning is still there (`Keeps`).

*Moves.*  The tree grows by directories and markers. A marker stays, with its content once
it has one (`Grows`). This is all that a run has to know of the others
(`marker_upheld`).
-/

namespace HyperFileLens.Ownership

open Service FileTree FilePath Storage Cleanup Transition

/-! ## The runs -/

inductive OwnershipTask where
  | claim
  | verify (adoptMissing : Bool)
  | check
  | compare
deriving DecidableEq

structure OwnershipJob where
  task : OwnershipTask
  spec : RepositorySpec
  /-- How deep its walks are followed. -/
  depth : Nat
deriving DecidableEq

/-- The run of a job. It returns whether the repository is reported to be owned. -/
def OwnershipJob.run (job : OwnershipJob) : OwnershipProg Bool :=
  match job.task with
  | .claim => do
      claimFilesystemRepositoryOwnership job.depth job.spec
      pure true
  | .verify adoptMissing => do
      verifyFilesystemRepositoryOwnership job.depth job.spec adoptMissing
      pure job.spec.ownership.isSome
  | .check => do
      checkFilesystemRepositoryOwnershipIfPresent job.spec
      pure false
  | .compare => filesystemRepositoryOwnershipMatches job.spec

abbrev OwnershipPool :=
  Pool OwnershipStore OwnershipCall OwnershipAnswer String Bool OwnershipJob

abbrev OwnershipEvent := CrewEvent OwnershipJob OwnershipChoice Empty

/-- What `filesystemRepositoryOwnershipPath` returns, unless a symbolic link is met. -/
def RepositorySpec.location (spec : RepositorySpec) : Except String (List Char × List Char) :=
  if spec.type = "nas" then
    (repositoryNASPath spec).map fun path => (path, resolvedMountPoint spec)
  else if spec.type = "proxy_fs" then
    if spec.layout ≠ "managed_subdir_v1" then
      .error "unmanaged local repositories cannot be claimed"
    else (managedProxyFSPath spec).map fun place =>
      (textOf (clean (Text.trimSpace place.1)), place.2)
  else .error "repository ownership is unsupported"

def RepositorySpec.repositoryPath (spec : RepositorySpec) : Path :=
  match spec.location with
  | .ok location => clean location.1
  | .error _ => []

/-! ## Places -/

def Below (root c : Path) : Prop := root <+: c ∧ root ≠ c

/-- Of two places below the root, one is strictly above the other. -/
def Nested (root c d : Path) : Prop :=
  Below root c ∧ Below root d ∧ c ≠ d ∧ (c <+: d ∨ d <+: c)

variable {c p : Path}

theorem Nested.symm {root d : Path} (h : Nested root c d) : Nested root d c :=
  ⟨h.2.1, h.1, h.2.2.1.symm, h.2.2.2.symm⟩

/-- There is a marker at a place, or something in place of it. -/
def Occupied (t : MarkerTree) (c : Path) : Prop :=
  ∃ e, t.get (markerPathOf c) = some e ∧ e ≠ .dir

def Apart (root : Path) (t : MarkerTree) : Prop :=
  ∀ c d, Nested root c d → Occupied t c → ¬ Occupied t d

/-- A repository is below the allowed root, and its path does not go through what would be
the marker of another one. -/
def RepositorySpec.Fits (root : Path) (spec : RepositorySpec) : Prop :=
  ∀ location, spec.location = .ok location → isAbs location.2 = true ∧
    clean location.2 = root ∧ ∀ c, Below root c → ¬ markerPathOf c <+: clean location.1

theorem markerName_ne : metadataName ≠ markerName := by decide

theorem probeName_ne : probeName ≠ markerName := by decide

theorem markerPathOf_eq (c : Path) : markerPathOf c = c ++ [metadataName] ++ [markerName] := by
  rw [markerPathOf, List.append_assoc]
  rfl

theorem markerPathOf_dropLast (c : Path) : (markerPathOf c).dropLast = c ++ [metadataName] := by
  rw [markerPathOf_eq, List.dropLast_concat]

theorem markerPathOf_inj {d : Path} (h : markerPathOf c = markerPathOf d) : c = d :=
  (List.append_inj' h rfl).1

theorem concat_ne_markerPathOf {n : Name} (hn : n ≠ markerName) : p ++ [n] ≠ markerPathOf c := by
  rw [markerPathOf_eq]
  intro h
  exact hn (List.singleton_inj.mp (List.append_inj' h rfl).2)

/-! ## The state -/

structure Keeps (root : Path) (s : OwnershipStore) : Prop where
  apart : Apart root s.tree
  /-- What a run has created is there. -/
  made : ∀ p j, s.maker p = some j → ∃ c content, p = markerPathOf c ∧
    s.tree.get p = some (.file content)
  /-- What a run could have seen at its beginning is still there. -/
  seen : ∀ i t, s.found i = some t → ∀ c, Occupied t c → Occupied s.tree c

/-- How the state moves while a run waits. -/
structure Grows (root : Path) (i : Nat) (s s' : OwnershipStore) : Prop where
  added : ∀ p e, s'.tree.get p = some e → s.tree.get p = some e ∨
    (e = .dir ∧ ∀ c, Below root c → p ≠ markerPathOf c) ∨
    ∃ c content, p = markerPathOf c ∧ e = .file content
  dir : ∀ p, s.tree.get p = some .dir → s'.tree.get p = some .dir
  file : ∀ c content, s.tree.get (markerPathOf c) = some (.file content) →
    ∃ content', s'.tree.get (markerPathOf c) = some (.file content') ∧
      (content.marker.isSome = true ∨ s.maker (markerPathOf c) = some i → content' = content)
  other : ∀ c e, s.tree.get (markerPathOf c) = some e → e ≠ .dir →
    (∀ content, e ≠ .file content) → s'.tree.get (markerPathOf c) = some e
  maker : ∀ p j, s.maker p = some j → s'.maker p = some j
  found : s'.found i = s.found i
  refused : s'.refused i = s.refused i

variable {root : Path} {i j : Nat} {s s' s'' : OwnershipStore}

theorem Grows.refl (root : Path) (i : Nat) (s : OwnershipStore) : Grows root i s s where
  added := fun _ _ h => .inl h
  dir := fun _ h => h
  file := fun _ content h => ⟨content, h, fun _ => rfl⟩
  other := fun _ _ h _ _ => h
  maker := fun _ _ h => h
  found := rfl
  refused := rfl

theorem Grows.trans (h : Grows root i s s') (h' : Grows root i s' s'') : Grows root i s s'' where
  added := fun p e he => by
    rcases h'.added p e he with hold | hnew
    · exact h.added p e hold
    · exact .inr hnew
  dir := fun p hp => h'.dir p (h.dir p hp)
  file := fun c content hc => by
    obtain ⟨content', hc', hsame⟩ := h.file c content hc
    obtain ⟨content'', hc'', hsame'⟩ := h'.file c content' hc'
    refine ⟨content'', hc'', fun hfixed => ?_⟩
    obtain rfl := hsame hfixed
    exact hsame' (hfixed.imp_right (h.maker _ _))
  other := fun c e he hdir hfile => h'.other c e (h.other c e he hdir hfile) hdir hfile
  maker := fun p k hk => h'.maker p k (h.maker p k hk)
  found := h'.found.trans h.found
  refused := h'.refused.trans h.refused

theorem Grows.occupied (h : Grows root i s s') (hc : Occupied s.tree c) : Occupied s'.tree c := by
  obtain ⟨e, he, hdir⟩ := hc
  by_cases hfile : ∃ content, e = .file content
  · obtain ⟨content, rfl⟩ := hfile
    obtain ⟨content', hc', -⟩ := h.file c content he
    exact ⟨_, hc', by simp⟩
  · exact ⟨e, h.other c e he hdir fun content heq => hfile ⟨content, heq⟩, hdir⟩

/-! ## Calls -/

def Guard (root : Path) (i : Nat) (s : OwnershipStore) : OwnershipCall → Prop
  | .fs (.removeAll _) => False
  | .fs (.remove path) => ∃ p, path = p ++ [probeName]
  | .mkdir path => ∀ c, Below root c → path ≠ markerPathOf c
  | .create path => ∃ c, path = markerPathOf c ∧
      ∀ t, s.found i = some t → ∀ d, Nested root c d → ¬ Occupied t d
  | .write path _ => ∃ c content, path = markerPathOf c ∧
      s.tree.get path = some (.file content) ∧ content.marker = none ∧ s.maker path = some i
  | _ => True

/-- A marker is created only when no nested repository has got one since the run began, and
what is removed as a residue is no directory. -/
def Timely (root : Path) (i : Nat) (s : OwnershipStore) : OwnershipCall → Prop
  | .create path => s.tree.get path = none → ∀ c d, path = markerPathOf c → Nested root c d →
      Occupied s.tree d → ∃ t, s.found i = some t ∧ Occupied t d
  | .fs (.remove path) => s.tree.get path ≠ some .dir
  | _ => True

def markerRely (root : Path) : Rely OwnershipStore OwnershipCall where
  keeps := Keeps root
  moves := Grows root
  guards := Guard root
  refl := Grows.refl root
  trans := fun h h' => h.trans h'

/-- The effect of a call keeps the state, and the others can rely on it. -/
structure Steps (root : Path) (i : Nat) (s s' : OwnershipStore) : Prop where
  keeps : Keeps root s'
  grows : ∀ j, j ≠ i → Grows root j s s'

theorem Steps.of_same (h : Keeps root s) (htree : s'.tree = s.tree) (hmaker : s'.maker = s.maker)
    (hseen : ∀ k t, s'.found k = some t → ∀ c, Occupied t c → Occupied s.tree c)
    (hfound : ∀ k, k ≠ i → s'.found k = s.found k)
    (hrefused : ∀ k, k ≠ i → s'.refused k = s.refused k) : Steps root i s s' where
  keeps := {
    apart := htree ▸ h.apart
    made := htree ▸ hmaker ▸ h.made
    seen := htree ▸ hseen }
  grows := fun k hk => {
    added := fun _ _ he => .inl (htree ▸ he)
    dir := fun _ hp => htree ▸ hp
    file := fun _ content hc => ⟨content, htree ▸ hc, fun _ => rfl⟩
    other := fun _ _ he _ _ => htree ▸ he
    maker := fun _ _ hj => hmaker ▸ hj
    found := hfound k hk
    refused := hrefused k hk }

theorem Steps.trans (h : Steps root i s s') (h' : Steps root i s' s'') : Steps root i s s'' where
  keeps := h'.keeps
  grows := fun j hj => (h.grows j hj).trans (h'.grows j hj)

theorem steps_putDir (h : Keeps root s) (hnone : s.tree.get p = none)
    (hput : s.tree.Puttable p .dir) (hp : ∀ c, Below root c → p ≠ markerPathOf c) :
    Steps root i s { s with tree := s.tree.put p .dir } := by
  have hget := FsTree.get_put hput
  have hold {q : Path} {e : Entry MarkerFile} (hq : s.tree.get q = some e) :
      (s.tree.put p .dir).get q = some e := by
    rw [hget, if_neg fun heq => ?_]
    · exact hq
    · rw [heq, hnone] at hq
      cases hq
  have hoccupied {c : Path} : Occupied (s.tree.put p .dir) c ↔ Occupied s.tree c := by
    constructor
    · rintro ⟨e, he, hdir⟩
      rw [hget] at he
      split at he
      · cases he
        exact absurd rfl hdir
      · exact ⟨e, he, hdir⟩
    · rintro ⟨e, he, hdir⟩
      exact ⟨e, hold he, hdir⟩
  refine ⟨⟨fun c d hn hc hd => ?_, fun q j hj => ?_, fun k t ht c hc => ?_⟩, fun j hj => ?_⟩
  · exact h.apart c d hn (hoccupied.mp hc) (hoccupied.mp hd)
  · obtain ⟨c, content, rfl, hfile⟩ := h.made q j hj
    exact ⟨c, content, rfl, hold hfile⟩
  · exact hoccupied.mpr (h.seen k t ht c hc)
  · refine ⟨fun q e he => ?_, fun q hq => hold hq, fun c content hc => ⟨content, hold hc, fun _ => rfl⟩,
      fun c e he _ _ => hold he, fun _ _ hj' => hj', rfl, rfl⟩
    change (s.tree.put p .dir).get q = some e at he
    rw [hget] at he
    split at he
    · rename_i heq
      exact .inr (.inl ⟨(Option.some.inj he).symm, heq ▸ hp⟩)
    · exact .inl he

theorem steps_putMarker (h : Keeps root s) {content : MarkerFile}
    (hnone : s.tree.get (markerPathOf c) = none)
    (hput : s.tree.Puttable (markerPathOf c) (.file content))
    (hfree : ∀ d, Nested root c d → ¬ Occupied s.tree d) :
    Steps root i s { s with
      tree := s.tree.put (markerPathOf c) (.file content)
      maker := Function.update s.maker (markerPathOf c) (some i) } := by
  have hget := FsTree.get_put hput
  have hold {q : Path} {e : Entry MarkerFile} (hq : s.tree.get q = some e) :
      (s.tree.put (markerPathOf c) (.file content)).get q = some e := by
    rw [hget, if_neg fun heq => ?_]
    · exact hq
    · rw [heq, hnone] at hq
      cases hq
  have hoccupied {d : Path} (hd : Occupied (s.tree.put (markerPathOf c) (.file content)) d) :
      d = c ∨ Occupied s.tree d := by
    obtain ⟨e, he, hdir⟩ := hd
    rw [hget] at he
    split at he
    · rename_i heq
      exact .inl (markerPathOf_inj heq)
    · exact .inr ⟨e, he, hdir⟩
  have hstays {d : Path} (hd : Occupied s.tree d) :
      Occupied (s.tree.put (markerPathOf c) (.file content)) d := by
    obtain ⟨e, he, hdir⟩ := hd
    exact ⟨e, hold he, hdir⟩
  have hmaker {q : Path} {k : Nat} (hk : s.maker q = some k) : q ≠ markerPathOf c := by
    rintro rfl
    obtain ⟨_, _, -, hfile⟩ := h.made _ k hk
    cases hnone.symm.trans hfile
  refine ⟨⟨fun a b hn ha hb => ?_, fun q k hk => ?_, fun k t ht d hd => ?_⟩, fun j hj => ?_⟩
  · rcases hoccupied ha with rfl | ha'
    · rcases hoccupied hb with rfl | hb'
      · exact hn.2.2.1 rfl
      · exact hfree b hn hb'
    · rcases hoccupied hb with rfl | hb'
      · exact hfree a hn.symm ha'
      · exact h.apart a b hn ha' hb'
  · by_cases hq : q = markerPathOf c
    · subst hq
      exact ⟨c, content, rfl, FsTree.get_put_self hput⟩
    · change Function.update s.maker (markerPathOf c) (some i) q = some k at hk
      rw [Function.update_of_ne hq] at hk
      obtain ⟨d, content', rfl, hfile⟩ := h.made q k hk
      exact ⟨d, content', rfl, hold hfile⟩
  · exact hstays (h.seen k t ht d hd)
  · refine ⟨fun q e he => ?_, fun q hq => hold hq,
      fun d content' hd => ⟨content', hold hd, fun _ => rfl⟩, fun d e he _ _ => hold he,
      fun q k hk => ?_, rfl, rfl⟩
    · change (s.tree.put (markerPathOf c) (.file content)).get q = some e at he
      rw [hget] at he
      split at he
      · rename_i heq
        exact .inr (.inr ⟨c, content, heq, (Option.some.inj he).symm⟩)
      · exact .inl he
    · change Function.update s.maker (markerPathOf c) (some i) q = some k
      rw [Function.update_of_ne (hmaker hk)]
      exact hk

theorem steps_write (h : Keeps root s) {content content' : MarkerFile}
    (hfile : s.tree.get (markerPathOf c) = some (.file content)) (hnone : content.marker = none)
    (hmaker : s.maker (markerPathOf c) = some i)
    (hput : s.tree.Puttable (markerPathOf c) (.file content')) :
    Steps root i s { s with tree := s.tree.put (markerPathOf c) (.file content') } := by
  have hget := FsTree.get_put hput
  have hold {q : Path} (hq : q ≠ markerPathOf c) :
      (s.tree.put (markerPathOf c) (.file content')).get q = s.tree.get q := by
    rw [hget, if_neg hq]
  have hself := FsTree.get_put_self hput
  have hnofile {d : Path} {e : Entry MarkerFile} (he : s.tree.get (markerPathOf d) = some e)
      (hno : ∀ content, e ≠ .file content) : markerPathOf d ≠ markerPathOf c := by
    intro heq
    rw [heq, hfile] at he
    exact hno content (Option.some.inj he).symm
  have hoccupied {d : Path} :
      Occupied (s.tree.put (markerPathOf c) (.file content')) d ↔ Occupied s.tree d := by
    by_cases hd : markerPathOf d = markerPathOf c
    · obtain rfl := markerPathOf_inj hd
      exact ⟨fun _ => ⟨_, hfile, by simp⟩, fun _ => ⟨_, hself, by simp⟩⟩
    · rw [Occupied, hold hd]
      rfl
  refine ⟨⟨fun a b hn ha hb => ?_, fun q k hk => ?_, fun k t ht d hd => ?_⟩, fun j hj => ?_⟩
  · exact h.apart a b hn (hoccupied.mp ha) (hoccupied.mp hb)
  · obtain ⟨d, content'', rfl, hd⟩ := h.made q k hk
    by_cases heq : markerPathOf d = markerPathOf c
    · exact ⟨d, content', rfl, heq ▸ hself⟩
    · exact ⟨d, content'', rfl, (hold heq).trans hd⟩
  · exact hoccupied.mpr (h.seen k t ht d hd)
  · refine ⟨fun q e he => ?_, fun q hq => ?_, fun d content'' hd => ?_, fun d e he hdir hno => ?_,
      fun _ _ hk => hk, rfl, rfl⟩
    · change (s.tree.put (markerPathOf c) (.file content')).get q = some e at he
      rw [hget] at he
      split at he
      · rename_i heq
        exact .inr (.inr ⟨c, content', heq, (Option.some.inj he).symm⟩)
      · exact .inl he
    · refine (hold fun heq => ?_).trans hq
      rw [heq, hfile] at hq
      cases hq
    · by_cases heq : markerPathOf d = markerPathOf c
      · obtain rfl := markerPathOf_inj heq
        obtain rfl : content = content'' := by
          rw [hfile] at hd
          exact Entry.file.inj (Option.some.inj hd)
        refine ⟨content', hself, fun hfixed => ?_⟩
        rcases hfixed with hsome | hj'
        · rw [hnone] at hsome
          cases hsome
        · exact absurd (Option.some.inj (hj'.symm.trans hmaker)) hj
      · exact ⟨content'', (hold heq).trans hd, fun _ => rfl⟩
    · exact (hold (hnofile he hno)).trans he

theorem steps_remove (h : Keeps root s) (hdir : s.tree.get (p ++ [probeName]) ≠ some .dir) :
    Steps root i s { s with tree := s.tree.prune (p ++ [probeName]) [] } := by
  have hold {q : Path} {e : Entry MarkerFile} (hq : s.tree.get q = some e)
      (hne : q ≠ p ++ [probeName]) : (s.tree.prune (p ++ [probeName]) []).get q = some e := by
    rw [FsTree.get_prune, if_neg]
    · exact hq
    · rintro ⟨-, ⟨rest, rfl⟩, -⟩
      refine hdir (FsTree.get_of_prefix hq fun hnil => hne ?_)
      rw [hnil, List.append_nil]
  have hmarker {c : Path} {e : Entry MarkerFile} (hc : s.tree.get (markerPathOf c) = some e) :
      (s.tree.prune (p ++ [probeName]) []).get (markerPathOf c) = some e :=
    hold hc (concat_ne_markerPathOf probeName_ne).symm
  have hle := FsTree.prune_le s.tree (p ++ [probeName]) []
  have hfrom {c : Path} (hc : Occupied (s.tree.prune (p ++ [probeName]) []) c) :
      Occupied s.tree c := by
    obtain ⟨e, he, hne⟩ := hc
    exact ⟨e, hle _ _ he, hne⟩
  have hto {c : Path} (hc : Occupied s.tree c) :
      Occupied (s.tree.prune (p ++ [probeName]) []) c := by
    obtain ⟨e, he, hne⟩ := hc
    exact ⟨e, hmarker he, hne⟩
  refine ⟨⟨fun a b hn ha hb => h.apart a b hn (hfrom ha) (hfrom hb), fun q k hk => ?_,
    fun k t ht c hc => hto (h.seen k t ht c hc)⟩, fun j hj => ?_⟩
  · obtain ⟨c, content, rfl, hc⟩ := h.made q k hk
    exact ⟨c, content, rfl, hmarker hc⟩
  · refine ⟨fun q e he => .inl (hle _ _ he), fun q hq => hold hq ?_,
      fun c content hc => ⟨content, hmarker hc, fun _ => rfl⟩, fun c e he _ _ => hmarker he,
      fun _ _ hk => hk, rfl, rfl⟩
    rintro rfl
    exact hdir hq

/-! ## The service keeps what the runs rely on -/

theorem Steps.refl (h : Keeps root s) : Steps root i s s := ⟨h, fun j _ => Grows.refl root j s⟩

theorem perform_create (t : MarkerTree) (path : Path) :
    (t.get path = none ∧ t.hasDir path.dropLast = true ∧ created t (.create path) = some path ∧
        perform t (.create path) = (.ok (), t.put path (.file .empty))) ∨
      (created t (.create path) = none ∧ (perform t (.create path)).2 = t ∧
        ∃ error, (perform t (.create path)).1 = .error error) := by
  have hperform : perform t (.create path) = changed t (t.create path .empty) := rfl
  rw [hperform, created, FsTree.create]
  cases hget : t.get path with
  | some e => exact .inr ⟨rfl, rfl, _, rfl⟩
  | none =>
    cases hdir : t.hasDir path.dropLast with
    | true => exact .inl ⟨rfl, rfl, rfl, rfl⟩
    | false => exact .inr ⟨rfl, rfl, _, rfl⟩

theorem steps_effect (h : Keeps root s) {r : OwnershipCall} (hguard : Guard root i s r)
    (htimely : Timely root i s r) : Steps root i s (s.effect i r) := by
  cases r with
  | fs call =>
    cases call with
    | ctxErr => exact .refl h
    | lstat path => exact .refl h
    | readDir path => exact .refl h
    | readFile path => exact .refl h
    | removeAll path => exact hguard.elim
    | remove path =>
      obtain ⟨p, rfl⟩ := hguard
      cases hunlink : s.tree.unlink (p ++ [probeName]) with
      | ok t =>
        have heffect : (perform s.tree (.fs (.remove (p ++ [probeName])))).2 = t := by
          rw [perform, hunlink]
        obtain ⟨-, rfl⟩ := FsTree.unlink_eq_ok hunlink
        rw [OwnershipStore.effect, heffect]
        exact steps_remove h htimely
      | error error =>
        have heffect : (perform s.tree (.fs (.remove (p ++ [probeName])))).2 = s.tree := by
          rw [perform, hunlink]
          cases error with
          | lookup error => rfl
          | exist => rfl
          | notEmpty => rfl
          | isDir => rfl
        rw [OwnershipStore.effect, heffect]
        exact .refl h
  | list path => exact .refl h
  | readProbe path => exact .refl h
  | mkdir path =>
    show Steps root i s { s with tree := (changed s.tree (s.tree.mkdir path)).2 }
    cases hmkdir : s.tree.mkdir path with
    | error error => exact .refl h
    | ok t =>
      obtain ⟨hnone, hput, rfl⟩ := FsTree.mkdir_eq_ok hmkdir
      exact steps_putDir h hnone hput hguard
  | create path =>
    obtain ⟨c, rfl, hfound⟩ := hguard
    rcases perform_create s.tree (markerPathOf c) with
      ⟨hnone, hdir, hcreated, hperform⟩ | ⟨hcreated, hperform, -⟩
    · rw [OwnershipStore.effect, hcreated, hperform]
      refine steps_putMarker h hnone (FsTree.puttable_of_none hnone hdir) fun d hn hd => ?_
      obtain ⟨t, ht, hoccupied⟩ := htimely hnone c d rfl hn hd
      exact hfound t ht d hn hoccupied
    · rw [OwnershipStore.effect, hcreated, hperform]
      exact .refl h
  | write path marker =>
    obtain ⟨c, content, rfl, hfile, hnone, hmaker⟩ := hguard
    have hperform : perform s.tree (.write (markerPathOf c) marker) =
        changed s.tree (s.tree.replace (markerPathOf c) { marker := some marker }) := by
      rw [perform, hfile]
    rw [OwnershipStore.effect, hperform]
    cases hreplace : s.tree.replace (markerPathOf c) { marker := some marker } with
    | error error => exact .refl h
    | ok t =>
      obtain ⟨-, hput, rfl⟩ := FsTree.replace_eq_ok hreplace
      exact steps_write h hfile hnone hmaker hput
  | sync path => exact .refl h
  | close path => exact .refl h

theorem steps_arrive (h : Keeps root s) : Steps root i s (s.arrive i) := by
  rw [OwnershipStore.arrive]
  split
  · exact .refl h
  · refine .of_same h rfl rfl (fun k t ht c hc => ?_) (fun k hk => ?_) fun _ _ => rfl
    · by_cases hk : k = i
      · subst hk
        obtain rfl : s.tree = t := by simpa using ht
        exact hc
      · exact h.seen k t (by simpa [hk] using ht) c hc
    · exact Function.update_of_ne hk _ _

theorem steps_refuse (h : Keeps root s) : Steps root i s (s.refuse i) :=
  .of_same h rfl rfl h.seen (fun _ _ => rfl) fun _ hk => Function.update_of_ne hk _ _

/-- An effect does not depend on what is remembered of the beginnings of the runs. -/
theorem effect_arrive (r : OwnershipCall) : (s.arrive i).effect i r =
    { s.effect i r with found := (s.arrive i).found } := by
  rw [OwnershipStore.arrive]
  split
  · rfl
  · rfl

theorem steps_arrive_effect (h : Keeps root s) {r : OwnershipCall} (hguard : Guard root i s r)
    (htimely : Timely root i s r) : Steps root i s ((s.arrive i).effect i r) := by
  have heffect := steps_effect h hguard htimely
  have harrive := steps_arrive (i := i) h
  rw [effect_arrive]
  by_cases hfound : (s.found i).isSome = true
  · rw [OwnershipStore.arrive, if_pos hfound]
    exact heffect
  · have hother : ∀ k, k ≠ i → (s.arrive i).found k = s.found k := fun k hk =>
      (harrive.grows k hk).found
    refine heffect.trans (.of_same heffect.keeps rfl rfl (fun k t ht c hc => ?_)
      (fun k hk => hother k hk) fun _ _ => rfl)
    have hold : Occupied s.tree c := harrive.keeps.seen k t ht c hc |> fun hc' => by
      rw [OwnershipStore.arrive, if_neg hfound] at hc'
      exact hc'
    exact (heffect.grows (i + 1) (by omega)).occupied hold

theorem marker_upheld (root : Path) :
    (markerRely root).Upheld ownershipHost (fun s (_ : Empty) => s)
      (fun i s r _ => Timely root i s r) fun _ _ => True where
  call := fun {i s r c} hkeeps hguard htimely => by
    have hsteps : Steps root i s (ownershipRespond i s r c).2 := by
      rw [ownershipRespond]
      cases c.error with
      | none => exact steps_arrive_effect hkeeps hguard htimely
      | some message =>
        show Steps root i s
          ((if c.done = true then (s.arrive i).effect i r else s.arrive i).refuse i)
        split
        · have heffect := steps_arrive_effect hkeeps hguard htimely
          exact heffect.trans (steps_refuse heffect.keeps)
        · have harrive := steps_arrive (i := i) hkeeps
          exact harrive.trans (steps_refuse harrive.keeps)
    exact ⟨hsteps.keeps, hsteps.grows⟩
  stop := fun i hkeeps => ⟨hkeeps, fun j _ => Grows.refl root j _⟩
  env := fun {_ e} _ _ => e.elim

end HyperFileLens.Ownership
