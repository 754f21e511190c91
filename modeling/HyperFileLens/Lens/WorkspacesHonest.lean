import HyperFileLens.Lens.WorkspaceLabels
import HyperFileLens.Lens.WorkspaceOwned

/-!
# Runs of preparations and cleanups

Whole tasks, in every interleaving and with runs that stop anywhere.

*Tasks.*  The layout is made without the lock, and each part under the lock starts with
the contents of the workspace as the others have left them. The purge between the two
parts of a cleanup has no lock, and relies on the tombstone.

*Runs.*  A tombstone that was written stays, of a retired workspace nothing is left, a
preparation that succeeds hands out a directory that was made for its identity, and a
cleanup moves and removes only such directories (`workspaces_honest`).
-/

namespace HyperFileLens.Lens

open Service FileTree FilePath Transition

/-! ## Tasks -/

section Tasks

variable {E : Estate} {i : Nat} {P : LensWorkspacePaths} {s : LensStore}
  {I : LensWorkspaceIdentity} (hP : E.site I.workspaceUID = some P) (hregular : P.Regular)

include hP hregular

theorem works_ensureLayout :
    Works E i (ensureLensMetadataLayout P) (fun _ t => Dirs P.layout t) s := by
  have hfree := free_layout hP hregular
  have hmake : ∀ {ds : List Path} {d : Path} {t : LensStore}, (∀ d' ∈ ds, d' ∈ P.layout) →
      d ∈ P.layout → Dirs ds t →
      Works E i (ensureLensMetadataDirectory P.root.dropLast d)
        (fun _ t => Dirs (d :: ds) t) t := fun hds hd ht =>
    works_ensureLensMetadataDirectory (fun d' hd' => hfree d' (hds d' hd')) (hfree _ hd)
      ((E.wellPlaced hP).layout _ hd) (hregular.layout _ hd).1 ht
  have hmetadata : P.metadataRoot ∈ P.layout := by simp [LensWorkspacePaths.layout]
  have hidentity : P.identityRoot ∈ P.layout := by simp [LensWorkspacePaths.layout]
  have htombstone : P.tombstoneRoot ∈ P.layout := by simp [LensWorkspacePaths.layout]
  have hlock : P.lockRoot ∈ P.layout := by simp [LensWorkspacePaths.layout]
  have htrash : P.trashRoot ∈ P.layout := by simp [LensWorkspacePaths.layout]
  have hnone : Dirs [] s := fun d hd => absurd hd List.not_mem_nil
  rw [ensureLensMetadataLayout]
  refine works_then (hmake (by simp) hmetadata hnone) fun _ t ht => ?_
  refine works_then (hmake (by simp [hmetadata]) hidentity ht) fun _ t ht => ?_
  refine works_then (hmake (by simp [hmetadata, hidentity]) htombstone ht) fun _ t ht => ?_
  refine works_then (hmake (by simp [hmetadata, hidentity, htombstone]) hlock ht) fun _ t ht => ?_
  refine (hmake (by simp [hmetadata, hidentity, htombstone, hlock]) htrash ht).mono
    (fun _ _ _ => trivial) fun _ t ht d hd => ht d ?_
  simpa [LensWorkspacePaths.layout, or_comm, or_left_comm, or_assoc] using hd

theorem sees_of_lock {c : LensChoice} (howned : Owned E s) (hs : Dirs P.layout s)
    (hlocked : (s.lock i P.lock c).1 = .ok ()) :
    ∃ v : View, v.Coherent ∧ Sees i P v (s.lock i P.lock c).2 := by
  have howned' := (kept_lock (i := i) howned hP c).1 hP
  refine ⟨{
    workspace := (s.lock i P.lock c).2.tree.get P.workspace
    identity := (s.lock i P.lock c).2.tree.get P.identity
    tombstone := (s.lock i P.lock c).2.tree.get P.tombstone
    maker := (s.lock i P.lock c).2.maker P.workspace }, howned'.claimed, ?_, rfl, rfl, rfl, rfl,
    nofun, fun d hd => ?_⟩
  · rw [LensStore.lock] at hlocked ⊢
    split at hlocked
    · cases hlocked
    · cases hlocked
    · split at hlocked
      · cases hlocked
      · exact if_pos rfl
  · exact ((kept_lock (i := i) howned hP c).2 (i + 1) (Nat.succ_ne_self i)).dirs d
      (free_layout hP hregular d hd) (hs d hd)

theorem works_withLock {α : Type} {action : LensProg α} {R R' : α → LensStore → Prop}
    (haction : ∀ v t, v.Coherent → Sees i P v t → Works E i action R t)
    (hR : ∀ a, Stable E i (R a)) (hunlock : ∀ a t, R a t → R' a (t.unlock i P.lock))
    (hs : Dirs P.layout s) : Works E i (withLensWorkspaceLock P.lock action) R' s := by
  have hdirs : Stable E i (Dirs P.layout) := stable_dirs (free_layout hP hregular)
  refine works_checkContext hdirs hs none fun t ht => ?_
  refine works_call hdirs ht (fun t _ _ => ⟨_, P, hP, rfl⟩) fun t c ht howned => ?_
  refine works_orFail fun _ hlocked => ?_
  obtain ⟨v, hv, hsees⟩ := sees_of_lock hP hregular howned ht hlocked
  refine works_attempt (works_checkContext (stable_sees hP hregular) hsees none fun t ht =>
    haction v t hv ht) (fun a t ha => ?_) fun e t => ?_
  · exact works_call (hR a) ha (fun _ _ _ => trivial) fun t c ht _ => hunlock a t ht
  · exact fun _ _ _ => ⟨trivial, fun _ => trivial⟩

theorem works_prepare (hI : I.workspaceUID ≠ "") :
    Works E i (Lens.prepare P I) (fun r t => r.1 = P.workspace ∧ Prepared P I t) s := by
  refine works_then (works_ensureLayout hP hregular) fun _ t ht => ?_
  refine works_withLock hP hregular (fun v t hv ht => works_prepareLocked hP hregular hI hv ht)
    (fun a => ?_) (fun a t ⟨hclaimed, hdir, hpath⟩ => ⟨hpath, hdir, ?_, hclaimed.tombstone⟩) ht
  · rintro t t' ⟨hclaimed, hdir, hpath⟩ howned hwaits
    exact ⟨stable_claimed hP t t' hclaimed howned hwaits,
      (hwaits.held hP hclaimed.lock).1.trans hdir, hpath⟩
  · rcases hclaimed.made with hnone | hmaker
    · exact nomatch hnone.symm.trans hdir
    · exact hmaker

theorem works_purgeTrash (hs : Tombed P I s) :
    Works E i (purgeTrash P I) (fun _ t => Tombed P I t) s := by
  have hA := stable_tombed (i := i) hP hregular
  refine works_then (works_pathMissing hA (hregular.plain _ P.trash_mem) hs)
    fun missing t ⟨ht, _⟩ => ?_
  cases missing with
  | true => exact ht
  | false =>
    have hguard : ∀ t, Tombed P I t → Owned E t → Guard E i t (.removeAll P.trash I) :=
      fun t ⟨⟨T, hT, hidentity⟩, _⟩ _ => ⟨_, P, T, hP, rfl, hT, hidentity⟩
    refine works_call hA ht hguard fun t c ht howned => works_last fun _ _ => ?_
    exact ht.move hP hregular
      ((kept_call howned (hguard t ht howned) c).2 (i + 1) (Nat.succ_ne_self i))

theorem works_cleanup (hI : I.workspaceUID ≠ "") :
    Works E i (Lens.cleanup P I) (fun _ _ => True) s := by
  refine works_then (works_ensureLayout hP hregular) fun _ t ht => ?_
  have hquarantine : Works E i (withLensWorkspaceLock P.lock (quarantineLocked P I))
      (fun progress t => progress.error = none → progress.alreadyRetired = false →
        Tombed P I t) t :=
    works_withLock hP hregular (fun v t _ ht => works_quarantineLocked hP hregular hI ht)
      (fun a t t' h howned hwaits herror hretired => (h herror hretired).move hP hregular hwaits)
      (fun a t h => h) ht
  refine works_attempt hquarantine (fun progress t hprogress => ?_) fun e t => trivial
  show Works E i (ite _ _ _ : LensProg LensCleanupResult) _ t
  split
  · trivial
  · rename_i herror
    split
    · trivial
    · rename_i hretired
      have htombed := hprogress (by simpa using herror) (by simpa using hretired)
      refine works_attempt (works_purgeTrash hP hregular htombed) (fun _ t ht => ?_)
        fun e t => trivial
      have hretire : Works E i (withLensWorkspaceLock P.lock (retireLocked P I))
          (fun _ _ => True) t :=
        works_withLock hP hregular (fun v t _ ht => works_retireLocked hP hregular ht)
          (fun _ _ _ _ _ _ => trivial) (fun _ _ _ => trivial) ht.2
      exact works_attempt hretire (fun _ _ _ => trivial) fun e t => trivial

end Tasks

/-! ## Payloads -/

section Payloads

variable {uuid : UUIDPackage} {p : LensPayload} {I : LensWorkspaceIdentity}
  {P : LensWorkspacePaths}

variable {u : String}

/-- An identity that is accepted has the UID that `uuid.Parse` gives. -/
theorem identityFromPayload_eq_ok (h : lensWorkspaceIdentityFromPayload uuid p = .ok I) :
    uuid.parse p.workspaceUID = some I.workspaceUID := by
  rw [lensWorkspaceIdentityFromPayload] at h
  split at h
  · cases h
  · split at h
    · cases h
    · split at h
      · cases h
      · rename_i u hparse
        split at h
        · cases h
        · cases h
          exact hparse

variable {path workspaceRoot : List Char}

theorem resolve_eq_ok (h : resolveLensWorkspacePaths path workspaceRoot u = .ok P) :
    ∃ raw rawRoot, P = lensWorkspacePaths (clean rawRoot) (clean raw) u ∧
      clean raw ≠ clean rawRoot := by
  rw [resolveLensWorkspacePaths] at h
  cases hpath : checkPathText "path" (Text.trimSpace path) with
  | error e =>
    rw [hpath] at h
    cases h
  | ok _ =>
    rw [hpath] at h
    cases hroot : checkPathText "workspace_root" (Text.trimSpace workspaceRoot) with
    | error e =>
      rw [hroot] at h
      cases h
    | ok _ =>
      rw [hroot] at h
      simp only [bind, Except.bind] at h
      split at h
      · cases h
      · split at h
        · cases h
        · rename_i hchild
          split at h
          · cases h
          · cases h
            obtain ⟨hne, hup⟩ := not_or.mp hchild
            refine ⟨_, _, rfl, fun heq => hne ?_⟩
            have happend := append_rel hup
            rw [heq] at happend
            simpa [heq] using happend

theorem isPlain_append {ending : String} (h : 2 < ending.toList.length) :
    FsTree.IsPlain (u ++ ending).toList := by
  have hlength : 2 < (u ++ ending).toList.length := by
    rw [String.toList_append, List.length_append]
    omega
  refine ⟨?_, ?_, ?_⟩
  · intro heq
    simp [heq] at hlength
  · intro heq
    simp [heq] at hlength
  · intro heq
    simp [heq] at hlength

theorem regular_of_resolve (hu : FsTree.IsPlain u.toList)
    (h : resolveLensWorkspacePaths path workspaceRoot u = .ok P) : P.Regular := by
  obtain ⟨raw, rawRoot, rfl, hne⟩ := resolve_eq_ok h
  have hroot : ∀ n ∈ clean rawRoot, FsTree.IsPlain n := fun n => isPlain_of_mem_clean
  have hparent : ∀ n ∈ (clean rawRoot).dropLast, FsTree.IsPlain n :=
    fun n hn => hroot n (List.dropLast_subset _ hn)
  have hmetadata : FsTree.IsPlain ".hyperfilelens".toList := by decide
  have hidentities : FsTree.IsPlain "identities".toList := by decide
  have htombstones : FsTree.IsPlain "tombstones".toList := by decide
  have htrash : FsTree.IsPlain lensWorkspaceTrashDirectory := by decide
  have hjson : FsTree.IsPlain (u ++ ".json").toList := isPlain_append (by decide)
  constructor
  · exact ⟨_, rfl⟩
  · exact ⟨_, rfl⟩
  · exact ⟨_, rfl⟩
  · exact ⟨_, rfl⟩
  · exact ⟨_, rfl⟩
  · exact hne
  · intro d hd
    simp only [LensWorkspacePaths.layout, lensWorkspacePaths, List.mem_cons, List.not_mem_nil,
      or_false] at hd
    simp only [LensWorkspacePaths.places, LensWorkspacePaths.contents, lensWorkspacePaths,
      List.cons_append, List.nil_append, List.mem_cons, List.not_mem_nil, or_false,
      exists_eq_or_imp, exists_eq_left, List.append_assoc]
    rcases hd with rfl | rfl | rfl | rfl | rfl <;> simp
    intro heq
    have hlength := congrArg List.length heq
    rw [List.length_append, List.length_dropLast, List.length_singleton] at hlength
    omega
  · intro a ha n hn
    simp only [LensWorkspacePaths.contents, lensWorkspacePaths, List.mem_cons, List.not_mem_nil,
      or_false] at ha
    rcases ha with rfl | rfl | rfl | rfl
    · exact isPlain_of_mem_clean hn
    · simp only [List.mem_append, List.mem_singleton] at hn
      rcases hn with (hn | rfl) | rfl
      · exact hroot n hn
      · exact htrash
      · exact hu
    · simp only [List.mem_append, List.mem_singleton] at hn
      rcases hn with ((hn | rfl) | rfl) | rfl
      · exact hparent n hn
      · exact hmetadata
      · exact hidentities
      · exact hjson
    · simp only [List.mem_append, List.mem_singleton] at hn
      rcases hn with ((hn | rfl) | rfl) | rfl
      · exact hparent n hn
      · exact hmetadata
      · exact htombstones
      · exact hjson

theorem site_eq_ok (h : p.site uuid = .ok (I, P)) : I.workspaceUID ≠ "" ∧ P.Regular := by
  rw [LensPayload.site] at h
  cases hidentity : lensWorkspaceIdentityFromPayload uuid p with
  | error e =>
    rw [hidentity] at h
    cases h
  | ok identity =>
    rw [hidentity] at h
    cases hpaths : resolveLensWorkspacePaths p.path p.workspaceRoot identity.workspaceUID with
    | error e =>
      simp [bind, Except.bind, hpaths] at h
    | ok paths =>
      simp only [bind, Except.bind, hpaths, pure, Except.pure, Except.ok.injEq,
        Prod.mk.injEq] at h
      obtain ⟨rfl, rfl⟩ := h
      have hplain := (uuid.plain _ _ (identityFromPayload_eq_ok hidentity)).1
      refine ⟨fun hempty => hplain.1 ?_, regular_of_resolve hplain hpaths⟩
      rw [hempty]
      rfl

end Payloads

/-! ## Runs -/

/-- A payload has the paths that the estate gives its UID. -/
def Fits (uuid : UUIDPackage) (E : Estate) (job : LensJob) : Prop :=
  ∀ I P, job.payload.site uuid = .ok (I, P) → E.site I.workspaceUID = some P

/-- What a task promises of a workspace that it hands out. -/
def HandsOut (uuid : UUIDPackage) (job : LensJob) (r : LensResult) (s : LensStore) : Prop :=
  ∀ path created, r = .prepared path created → ∀ I P, job.payload.site uuid = .ok (I, P) →
    path = P.workspace ∧ Prepared P I s

theorem works_run {uuid : UUIDPackage} {E : Estate} {job : LensJob} (hfits : Fits uuid E job)
    (i : Nat) (s : LensStore) : Works E i (job.run uuid) (HandsOut uuid job) s := by
  refine works_checkContext (A := fun _ => True) (fun _ _ _ _ _ => trivial) trivial _ fun t _ => ?_
  refine works_orRaise fun (I, P) hsite => ?_
  have hP := hfits I P hsite
  obtain ⟨hI, hregular⟩ := site_eq_ok hsite
  cases job with
  | prepare payload =>
    refine works_then (works_prepare hP hregular hI) fun r t ⟨hpath, hprepared⟩ => ?_
    rintro path created heq I' P' hsite'
    obtain ⟨rfl, -⟩ := LensResult.prepared.inj heq
    obtain ⟨rfl, rfl⟩ := Prod.mk.inj (Except.ok.inj (hsite.symm.trans hsite'))
    exact ⟨hpath, hprepared⟩
  | cleanup payload =>
    exact works_then (works_cleanup hP hregular hI) fun r t _ path created heq => nomatch heq

/-- Files as they are before the first task: no workspace has an identity, a tombstone or
trash. -/
structure Fresh (E : Estate) (s : LensStore) : Prop where
  identity : ∀ {u P}, E.site u = some P → s.tree.get P.identity = none
  tombstone : ∀ {u P}, E.site u = some P → s.tree.get P.tombstone = none
  trash : ∀ {u P}, E.site u = some P → s.tree.get P.trash = none
  maker : ∀ p, s.maker p = none

/-- The tasks of the Agents on some files. -/
abbrev LensPool : Type := Pool LensStore LensCall LensAnswer String LensResult LensJob

abbrev LensEvent : Type := CrewEvent LensJob LensChoice Empty

def lensTasks (uuid : UUIDPackage) : System LensPool LensEvent :=
  crewSystem lensHost (LensJob.run uuid) (fun s _ => s) fun _ => True

def jobOf (s : LensPool) (i : Nat) : Option LensJob := (s.client i).map Prod.fst

def returned (s : LensPool) (i : Nat) : Option (LensJob × LensResult) :=
  match s.client i with
  | some (job, .ret r) => some (job, r)
  | _ => none

def nextCall (s : LensPool) (i : Nat) : Option LensCall :=
  match s.client i with
  | some (_, .call r _) => some r
  | _ => none

def LensCall.takes : LensCall → Option Path
  | .rename source _ _ => some source
  | .removeAll path _ => some path
  | _ => none

/-- One event leaves the workspaces of all tasks honest. -/
structure Honest (uuid : UUIDPackage) (s : LensPool) (a : LensEvent) (s' : LensPool) : Prop where
  /-- Tombstones stay, and move only from retiring to retired. -/
  tombstones : ∀ {i job I P}, jobOf s' i = some job → job.payload.site uuid = .ok (I, P) →
    SealedAt P s.state s'.state
  retired : ∀ {i job I P T}, jobOf s' i = some job → job.payload.site uuid = .ok (I, P) →
    s'.state.tree.get P.tombstone = some (.file (.tombstone T)) →
    T.state = lensWorkspaceTombstoneRetired →
    s'.state.tree.get P.workspace = none ∧ s'.state.tree.get P.trash = none ∧
      s'.state.tree.get P.identity = none
  /-- A preparation that succeeds hands out a directory that was made for its identity. -/
  prepared : ∀ {i c job path created I P}, a = .call i c →
    returned s' i = some (job, .prepared path created) → job.payload.site uuid = .ok (I, P) →
    path = P.workspace ∧ s'.state.tree.get path = some .dir ∧ s'.state.maker path = some I
  /-- No preparation succeeds when there is a tombstone of its UID. -/
  refused : ∀ {i c job path created I P}, a = .call i c →
    returned s' i = some (job, .prepared path created) → job.payload.site uuid = .ok (I, P) →
    ∀ {j job' I' P'}, jobOf s' j = some job' → job'.payload.site uuid = .ok (I', P') →
      I'.workspaceUID = I.workspaceUID →
      ∀ T, s'.state.tree.get P'.tombstone ≠ some (.file (.tombstone T))
  /-- A task moves or removes only what was made for its identity. -/
  taken : ∀ {i c job r p}, a = .call i c → jobOf s i = some job → nextCall s i = some r →
    r.takes = some p → s.state.tree.get p ≠ none →
    ∃ I P, job.payload.site uuid = .ok (I, P) ∧ s.state.maker p = some I

def FitsAt (uuid : UUIDPackage) (E : Estate) : LensPool → LensEvent → Prop :=
  Rely.Steady (Fits uuid E) fun _ _ => True

section Runs

variable {uuid : UUIDPackage} {E : Estate} {s s' : LensPool} {a : LensEvent}

variable {i : Nat} {job : LensJob}

theorem estate_kept (E : Estate) :
    (estateRely E).Kept lensHost (fun s (_ : Empty) => s) fun _ _ => True where
  call howned hguard c := kept_call howned hguard c
  stop i howned := kept_release howned i
  env {_ e} := e.elim

theorem owned_of_fresh {t : LensStore} (h : Fresh E t) : Owned E t := fun hP => {
  claimed := fun he => nomatch (h.identity hP).symm.trans he
  trashed := fun he => nomatch (h.trash hP).symm.trans he
  gone := fun hT => nomatch (h.tombstone hP).symm.trans hT }

/-- What every state of a run has. -/
structure WorksOn (uuid : UUIDPackage) (E : Estate) (s : LensPool) : Prop where
  sound : (estateRely E).Sound lensHost (fun _ (_ : String) _ => True) (HandsOut uuid)
    (Fits uuid E) s
  named : Keeping (Named uuid) s

theorem lensTasks_step (hs : (lensTasks uuid).step s a = some s') :
    crewStep lensHost (LensJob.run uuid) (fun s (_ : Empty) => s) s a = some s' := hs

theorem worksOn_start (hfresh : Fresh E s.state) (hinit : ∀ i, s.client i = none) :
    WorksOn uuid E s where
  sound := {
    keeps := owned_of_fresh hfresh
    started := fun hclient => nomatch (hinit _).symm.trans hclient
    pending := fun hclient => nomatch (hinit _).symm.trans hclient }
  named hclient := nomatch (hinit _).symm.trans hclient

theorem WorksOn.step (hworks : WorksOn uuid E s) (hfits : FitsAt uuid E s a)
    (hs : (lensTasks uuid).step s a = some s') : WorksOn uuid E s' where
  sound := hworks.sound.step (estate_kept E) (fun i _ t hjob => works_run hjob i t) hfits hs
  named := Keeping.step hworks.named (fun job _ => makes_run uuid job) (lensTasks_step hs)

theorem sealed_step (hworks : WorksOn uuid E s)
    (hs : (lensTasks uuid).step s a = some s') {u : String} {P : LensWorkspacePaths}
    (hP : E.site u = some P) : SealedAt P s.state s'.state := by
  cases a with
  | start job =>
    cases hs
    exact .of_eq rfl
  | call i c =>
    obtain ⟨job, r, k, hcall, rfl⟩ := crewStep_call (lensTasks_step hs)
    exact sealed_call hworks.sound.keeps (hworks.sound.guard hcall) c hP
  | stop i =>
    obtain ⟨job, q, -, rfl⟩ := crewStep_stop (lensTasks_step hs)
    exact .of_eq rfl
  | env e => exact e.elim

theorem client_of_jobOf (h : jobOf s i = some job) : ∃ q, s.client i = some (job, q) := by
  obtain ⟨⟨_, q⟩, hclient, rfl⟩ := Option.map_eq_some_iff.mp h
  exact ⟨q, hclient⟩

theorem client_of_returned {r : LensResult} (h : returned s i = some (job, r)) :
    s.client i = some (job, .ret r) := by
  rw [returned] at h
  split at h
  · rename_i hclient
    obtain ⟨rfl, rfl⟩ := Prod.mk.inj (Option.some.inj h)
    exact hclient
  · cases h

theorem client_of_nextCall {r : LensCall} (h : nextCall s i = some r) :
    ∃ job k, s.client i = some (job, .call r k) := by
  rw [nextCall] at h
  split at h
  · rename_i job r' k hclient
    cases h
    exact ⟨job, k, hclient⟩
  · cases h

theorem handsOut_of_call (hworks : WorksOn uuid E s) {c : LensChoice} {r : LensResult}
    (hs : (lensTasks uuid).step s (.call i c) = some s')
    (hreturned : returned s' i = some (job, r)) :
    HandsOut uuid job r s'.state := by
  have hclient := client_of_returned hreturned
  obtain ⟨job', call, k, hcall, rfl⟩ := crewStep_call (lensTasks_step hs)
  have hsafe := hworks.sound.answered hcall c
  obtain ⟨rfl, hret⟩ : job' = job ∧ k (lensHost.respond i s.state call c).1 = .ret r := by
    simpa using hclient
  rw [hret] at hsafe
  exact hsafe

theorem maker_of_takes {r : LensCall} {t : LensStore} {p : Path} (howned : Owned E t)
    (hguard : Guard E i t r) (hnamed : Named uuid job r) (htakes : r.takes = some p)
    (hexists : t.tree.get p ≠ none) :
    ∃ I P, job.payload.site uuid = .ok (I, P) ∧ t.maker p = some I := by
  obtain ⟨e, he⟩ := Option.ne_none_iff_exists'.mp hexists
  rcases hnamed with rfl | ⟨I, P, hsite, hlabel⟩
  · cases htakes
  refine ⟨I, P, hsite, ?_⟩
  cases r with
  | rename source target who =>
    cases htakes
    obtain rfl : who = I := hlabel
    obtain ⟨u, P', T, hP, rfl, -, -, hidentity, -⟩ := hguard
    rcases (howned hP).claimed hidentity with hnone | ⟨I', hI', hmaker⟩
    · exact absurd hnone hexists
    · obtain rfl : who = I' := by simpa using hI'
      exact hmaker
  | removeAll path who =>
    cases htakes
    obtain rfl : who = I := hlabel
    obtain ⟨u, P', T, hP, rfl, htombstone, rfl⟩ := hguard
    obtain ⟨T', hT', hmaker⟩ := (howned hP).trashed he
    obtain rfl : T = T' := by simpa using htombstone.symm.trans hT'
    exact hmaker
  | _ => cases htakes

theorem honest_step (hworks : WorksOn uuid E s) (hfits : FitsAt uuid E s a)
    (hs : (lensTasks uuid).step s a = some s') : WorksOn uuid E s' ∧ Honest uuid s a s' := by
  have hworks' := hworks.step hfits hs
  have hpaths : ∀ {i job I P}, jobOf s' i = some job → job.payload.site uuid = .ok (I, P) →
      E.site I.workspaceUID = some P := by
    intro i job I P hjob hsite
    obtain ⟨q, hclient⟩ := client_of_jobOf hjob
    exact hworks'.sound.started hclient I P hsite
  have hof : ∀ {i job r}, returned s' i = some (job, r) → jobOf s' i = some job :=
    fun h => congrArg (Option.map Prod.fst) (client_of_returned h)
  refine ⟨hworks', ?_, ?_, ?_, ?_, ?_⟩
  · exact fun hjob hsite => sealed_step hworks hs (hpaths hjob hsite)
  · exact fun hjob hsite => (hworks'.sound.keeps (hpaths hjob hsite)).gone
  · rintro i c job path created I P rfl hreturned hsite
    obtain ⟨rfl, hprepared⟩ := handsOut_of_call hworks hs hreturned path created rfl I P hsite
    exact ⟨rfl, hprepared.workspace, hprepared.maker⟩
  · rintro i c job path created I P rfl hreturned hsite j job' I' P' hjob' hsite' huid
    obtain ⟨-, hprepared⟩ := handsOut_of_call hworks hs hreturned path created rfl I P hsite
    obtain rfl : P' = P := by
      have hP' := hpaths hjob' hsite'
      rw [huid] at hP'
      exact Option.some.inj (hP'.symm.trans (hpaths (hof hreturned) hsite))
    exact hprepared.tombstone
  · rintro i c job r p rfl hjob hnext htakes hexists
    obtain ⟨job', k, hclient⟩ := client_of_nextCall hnext
    obtain rfl : job' = job := Option.some.inj ((congrArg (Option.map Prod.fst) hclient).symm.trans
      hjob)
    exact maker_of_takes hworks.sound.keeps (hworks.sound.guard hclient) (hworks.named hclient).1
      htakes hexists

end Runs

/-- When every UID is used with one workspace, and the workspaces lie apart, all runs
leave them honest. -/
theorem workspaces_honest (uuid : UUIDPackage) (E : Estate) {s : LensPool} {events : List LensEvent}
    (hfresh : Fresh E s.state) (hinit : ∀ i, s.client i = none)
    (h : (lensTasks uuid).Every (fun s a _ => FitsAt uuid E s a) s events) :
    (lensTasks uuid).Every (Honest uuid) s events := by
  refine System.every_of_invariant (I := WorksOn uuid E) (fun s a s' hworks hs hfits => ?_)
    (worksOn_start hfresh hinit) h
  exact honest_step hworks hfits hs

def oneUUID : UUIDPackage where
  parse s := if s = "6f1c0a52-0f0f-4c6f-9a55-0d3c5b8f9a01" then some s else none
  plain s u h := by
    split at h
    · rename_i heq
      cases h
      subst heq
      decide
    · cases h

def payloadAt (path workspaceRoot : String) : LensPayload where
  path := path.toList
  workspaceRoot := workspaceRoot.toList
  workspaceUID := "6f1c0a52-0f0f-4c6f-9a55-0d3c5b8f9a01"
  tenantOrganizationID := "7"
  gatewayLinkID := "3"
  knowledgeSourceID := "12"
  workspaceKind := "managed_restore"

/-- Two roots, with a directory below one of them. -/
def filesBefore : FsTree LensFile := .ofEntries
  [([], .dir), (["srv".toList], .dir), (["srv".toList, "lens".toList], .dir),
    (["srv".toList, "lens".toList, "photos".toList], .dir), (["mnt".toList], .dir),
    (["mnt".toList, "lens".toList], .dir)] (by decide) (by decide)

def noTasks : LensPool where
  state := {
    tree := filesBefore
    holder := fun _ => none
    temporary := fun _ => none
    maker := fun _ => none }
  client _ := none
  next := 0

/-- A task that runs alone, and makes a number of calls. -/
def alone (i : Nat) (job : LensJob) (n : Nat) : List LensEvent :=
  .start job :: List.replicate n (.call i {})

def onePaths : LensWorkspacePaths :=
  lensWorkspacePaths ["srv".toList, "lens".toList] ["srv".toList, "lens".toList, "a".toList]
    "6f1c0a52-0f0f-4c6f-9a55-0d3c5b8f9a01"

def oneEstate : Estate where
  site u := if u = "6f1c0a52-0f0f-4c6f-9a55-0d3c5b8f9a01" then some onePaths else none
  wellPlaced h := by
    split at h
    · cases h
      decide +kernel
    · cases h
  apart huv h h' := by
    split at h
    · split at h'
      · rename_i hu hv
        exact absurd (hu.trans hv.symm) huv
      · cases h'
    · cases h

theorem oneEstate_site {u : String} {P : LensWorkspacePaths} (h : oneEstate.site u = some P) :
    P = onePaths := by
  replace h : (if u = "6f1c0a52-0f0f-4c6f-9a55-0d3c5b8f9a01" then some onePaths else none) =
    some P := h
  split at h
  · exact (Option.some.inj h).symm
  · cases h

def oneIdentity : LensWorkspaceIdentity where
  version := 1
  workspaceUID := "6f1c0a52-0f0f-4c6f-9a55-0d3c5b8f9a01"
  tenantOrganizationID := "7"
  gatewayLinkID := "3"
  knowledgeSourceID := "12"
  workspaceKind := "managed_restore"

/-- A preparation, and the cleanup of what it made. -/
def thereAndBack : List LensEvent :=
  alone 0 (.prepare (payloadAt "/srv/lens/a" "/srv/lens")) 45 ++
    alone 1 (.cleanup (payloadAt "/srv/lens/a" "/srv/lens")) 60

theorem fits_one {job : LensJob} (hpayload : job.payload = payloadAt "/srv/lens/a" "/srv/lens") :
    Fits oneUUID oneEstate job := by
  intro I P hsite
  have hone : (payloadAt "/srv/lens/a" "/srv/lens").site oneUUID = .ok (oneIdentity, onePaths) := by
    decide +kernel
  rw [hpayload, hone] at hsite
  cases hsite
  rfl

theorem workspaces_honest_thereAndBack :
    (lensTasks oneUUID).Every (Honest oneUUID) noTasks thereAndBack ∧
      ((lensTasks oneUUID).exec noTasks thereAndBack).map
        (fun s => (s.state.tree.get onePaths.workspace, s.state.tree.get onePaths.identity,
          returned s 0)) = some (none, none, some
            (.prepare (payloadAt "/srv/lens/a" "/srv/lens"),
              .prepared onePaths.workspace true)) := by
  constructor
  · refine workspaces_honest oneUUID oneEstate ?_ (fun _ => rfl) ?_
    · refine ⟨fun h => ?_, fun h => ?_, fun h => ?_, fun _ => rfl⟩
      all_goals
        obtain rfl := oneEstate_site h
        decide +kernel
    · refine System.every_of_forall fun a ha _ _ => ?_
      rcases List.mem_append.mp ha with ha | ha
      all_goals
        rcases List.mem_cons.mp ha with rfl | ha
        · exact fits_one rfl
        · obtain rfl := List.eq_of_mem_replicate ha
          trivial
  · decide +kernel

/-- The directory that was there is handed out, and a cleanup takes it away. -/
def takenOver : List LensEvent :=
  alone 0 (.prepare (payloadAt "/srv/lens/a" "/srv/lens")) 45 ++
    alone 1 (.prepare (payloadAt "/srv/lens/photos" "/srv/lens")) 28

/-- The last call of the second preparation. -/
def beforeHandout : LensPool :=
  ((lensTasks oneUUID).exec noTasks takenOver).get (by decide +kernel)

def afterHandout : LensPool :=
  ((lensTasks oneUUID).step beforeHandout (.call 1 {})).get (by decide +kernel)

/-- A directory that was there is handed out to an identity with another workspace. -/
theorem not_workspaces_honest :
    (lensTasks oneUUID).exec noTasks takenOver = some beforeHandout ∧
      (lensTasks oneUUID).step beforeHandout (.call 1 {}) = some afterHandout ∧
      ¬ Honest oneUUID beforeHandout (.call 1 {}) afterHandout := by
  refine ⟨(Option.some_get _).symm, (Option.some_get _).symm, fun h => ?_⟩
  have hreturned : returned afterHandout 1 =
      some (.prepare (payloadAt "/srv/lens/photos" "/srv/lens"),
        .prepared ["srv".toList, "lens".toList, "photos".toList] false) := by
    decide +kernel
  have hsite : (payloadAt "/srv/lens/photos" "/srv/lens").site oneUUID =
      .ok (oneIdentity, lensWorkspacePaths ["srv".toList, "lens".toList]
        ["srv".toList, "lens".toList, "photos".toList] oneIdentity.workspaceUID) := by
    decide +kernel
  exact absurd (h.prepared rfl hreturned hsite).2.2 (by decide +kernel)

end HyperFileLens.Lens
