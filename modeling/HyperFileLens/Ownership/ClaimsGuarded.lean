import HyperFileLens.Ownership.RunsGuarded

/-!
# Claims and verifications establish what they report

The functions of `repository_ownership.go` from the validation of a path to the report.

*New markers.*  A run creates its marker only where it has found no marker above or below
that was there when it began.

*Reports.*  A run that reports an owner has read the marker of the repository (`Holds`). A
claim leaves the repository in a state that verifications accept (`Settled`).
-/

namespace HyperFileLens.Ownership

open Service FileTree FilePath Storage Cleanup

variable {root : Path} {i : Nat} {s : OwnershipStore}

/-! ## The path -/

/-- The checks of `validateRepositoryCleanupPath` that do not look at the tree. -/
structure Valid (path allowedRoot : List Char) : Prop where
  given : Text.trimSpace path ≠ []
  abs : isAbs (Text.trimSpace path) = true
  ne_root : clean (Text.trimSpace path) ≠ []
  inside : ∀ r, cleanupRoot allowedRoot = some r → isAbs allowedRoot = true ∧ r ≠ [] ∧
    rel r (clean (Text.trimSpace path)) ≠ [] ∧
    (rel r (clean (Text.trimSpace path))).head? ≠ some dotDot

/-- The checks that a path has passed. -/
structure Placed (spec : RepositorySpec) (location : List Char × List Char) : Prop where
  located : spec.location = .ok location
  proxy : spec.type = "proxy_fs" → ∀ place, managedProxyFSPath spec = .ok place →
    Valid place.1 place.2
  valid : Valid location.1 location.2

variable {spec : RepositorySpec}

theorem textOf_clean_textOf (path : List Char) : clean (textOf (clean path)) = clean path :=
  clean_textOf (fun _ h => isPlain_of_mem_clean h) fun _ h => slash_not_mem_clean h

variable {location : List Char × List Char}

theorem location_text (h : spec.location = .ok location) (habs : isAbs location.2 = true) :
    location.1 = textOf (clean location.1) := by
  rw [RepositorySpec.location] at h
  split at h
  · cases hpath : repositoryNASPath spec with
    | error message =>
      rw [hpath] at h
      cases h
    | ok path =>
      rw [hpath] at h
      cases h
      rw [repositoryNASPath] at hpath
      cases hmount : spec.mountPoint with
      | none =>
        rw [hmount] at hpath
        cases hpath
      | some mountPoint =>
        rw [hmount] at hpath
        replace habs : isAbs (resolvedMountPoint spec) = true := habs
        rw [resolvedMountPoint, hmount] at habs
        have hfull : path = cleanText (cleanText (cleanText mountPoint ++
            '/' :: cleanText (Text.trimSpace spec.subdir))) := by
          dsimp only at hpath
          split at hpath
          · cases hpath
          split at hpath
          · cases hpath
          · exact (Except.ok.inj hpath).symm
        have hroot : isAbs (cleanText mountPoint ++
            '/' :: cleanText (Text.trimSpace spec.subdir)) = true := by
          replace habs : isAbs (cleanText mountPoint) = true := habs
          cases hclean : cleanText mountPoint with
          | nil =>
            rw [hclean] at habs
            cases habs
          | cons c rest =>
            rw [hclean] at habs
            exact habs
        have hinner := cleanText_of_isAbs hroot
        show path = textOf (clean path)
        rw [hfull, hinner, cleanText_of_isAbs (p := textOf _) rfl, textOf_clean_textOf,
          textOf_clean_textOf]
  split at h
  · split at h
    · cases h
    · cases hplace : managedProxyFSPath spec with
      | error message =>
        rw [hplace] at h
        cases h
      | ok place =>
        rw [hplace] at h
        cases h
        show textOf _ = textOf (clean (textOf _))
        rw [textOf_clean_textOf]
  · cases h

theorem cleanupRoot_of_isAbs {allowedRoot : List Char} (h : isAbs allowedRoot = true) :
    cleanupRoot allowedRoot = some (clean allowedRoot) := by
  rw [cleanupRoot, if_neg]
  cases allowedRoot with
  | nil => cases h
  | cons c rest =>
    obtain rfl : c = '/' := by simpa [isAbs] using h
    have hslash : Text.isSpace '/' = false := by decide
    rw [Text.trimSpace, Text.trim, List.dropWhile_cons_of_neg (by simp [hslash]),
      List.reverse_eq_nil_iff, List.dropWhile_eq_nil_iff]
    intro hall
    have hspace := hall '/' (by simp)
    rw [hslash] at hspace
    cases hspace

theorem below_of_valid (hfits : spec.Fits root) (hplaced : Placed spec location) :
    Below root (clean location.1) := by
  obtain ⟨habs, hroot, -⟩ := hfits location hplaced.located
  obtain ⟨-, -, hne, hup⟩ := hplaced.valid.inside _ (cleanupRoot_of_isAbs habs)
  rw [hroot] at hne hup
  have htext := location_text hplaced.located habs
  obtain ⟨habove, hlength⟩ := isPrefix_of_trimmed (p := clean location.1)
    (fun _ h => isPlain_of_mem_clean h) fun _ h => slash_not_mem_clean h
  rw [← htext] at habove hlength
  have happend := append_rel hup
  generalize rel root (clean (Text.trimSpace location.1)) = rest at hne happend
  rw [← happend] at habove hlength
  rw [List.dropLast_append_of_ne_nil hne] at habove
  have hlonger : 0 < rest.length := List.length_pos_iff.mpr hne
  refine ⟨(List.prefix_append _ _).trans habove, fun heq => ?_⟩
  rw [List.length_append, ← heq] at hlength
  omega

theorem through_of_fits (hfits : spec.Fits root) (hlocation : spec.location = .ok location) :
    Through root (clean location.1) :=
  fun _ hq c hc heq => (hfits location hlocation).2.2 c hc (heq ▸ hq)

theorem Through.metadata {p : Path} (h : Through root p) : Through root (p ++ [metadataName]) := by
  intro q hq c hc heq
  rcases List.prefix_concat_iff.mp hq with rfl | hq
  · exact concat_ne_markerPathOf markerName_ne heq
  · exact h q hq c hc heq

section Programs

variable {A : OwnershipStore → Prop} (hA : Lasting root i A)
include hA

variable {c p : Path}

theorem works_rejectSymlinkNames (hs : A s) (current : Path) (names : List Name) :
    Works root i (ofFs (rejectSymlinkNames current names))
      (fun _ t => A t ∧ (names ≠ [] → NoLink (current ++ names) t)) s := by
  induction names generalizing s A current with
  | nil => exact ⟨hs, fun h => absurd rfl h⟩
  | cons n rest ih =>
    have hgone {t : OwnershipStore} (h : t.tree.get (current ++ [n]) = none) :
        NoLink (current ++ n :: rest) t := by
      intro target hlink
      cases rest with
      | nil => cases h.symm.trans hlink
      | cons m rest =>
        have hsplit : current ++ n :: m :: rest = (current ++ [n]) ++ m :: rest := by simp
        rw [hsplit] at hlink
        cases h.symm.trans (FsTree.get_of_prefix hlink (List.cons_ne_nil m rest))
    have hgoes {t : OwnershipStore} {e : Entry MarkerFile} (ht : A t)
        (hget : t.tree.get (current ++ [n]) = some e) (hno : ∀ target, e ≠ .symlink target) :
        Works root i (ofFs (rejectSymlinkNames (current ++ [n]) rest))
          (fun _ u => A u ∧ (n :: rest ≠ [] → NoLink (current ++ n :: rest) u)) t := by
      have hhere : NoLink (current ++ [n]) t := fun target hlink =>
        hno target (Option.some.inj (hget.symm.trans hlink))
      refine (ih (hA.and (lasting_noLink _)) ⟨ht, hhere⟩ (current ++ [n])).mono (fun _ _ h => h) ?_
      rintro _ u ⟨⟨hu, hhere⟩, hrest⟩
      refine ⟨hu, fun _ => ?_⟩
      cases rest with
      | nil => exact hhere
      | cons m rest =>
        have hlast := hrest (List.cons_ne_nil m rest)
        rwa [List.append_assoc] at hlast
    refine works_lstat hA hs (fun t e ht _ hget => ?_) (fun t error ht _ hnot hget => ?_)
      fun t error ht hnot => ?_
    · cases e with
      | dir => exact hgoes ht hget (by simp)
      | file content => exact hgoes ht hget (by simp)
      | symlink target => trivial
      | special => exact hgoes ht hget (by simp)
    · show Works root i (ofFs (if error.isNotExist then pure () else .fail error.message)) _ t
      rw [if_pos hnot]
      exact ⟨ht, fun _ => hgone hget⟩
    · show Works root i (ofFs (if error.isNotExist then pure () else .fail error.message)) _ t
      rw [if_neg (by simp [hnot])]
      trivial

theorem works_rejectSymlinkRoot (hs : A s) (r : Path) :
    Works root i (ofFs (rejectSymlinkRoot r)) (fun _ t => A t) s := by
  refine works_lstat hA hs (fun t e ht _ _ => ?_) (fun t error ht _ _ _ => ht)
    fun t error ht _ => ht
  cases e with
  | dir => exact ht
  | file content => exact ht
  | symlink target => trivial
  | special => exact ht

theorem works_validate (hs : A s) (path allowedRoot : List Char) :
    Works root i (ofFs (validateRepositoryCleanupPath path allowedRoot)) (fun v t => A t ∧
      v = clean (Text.trimSpace path) ∧ NoLink v t ∧ Valid path allowedRoot) s := by
  rw [validateRepositoryCleanupPath]
  split
  · trivial
  rename_i hgiven
  split
  · trivial
  rename_i habs
  split
  · trivial
  rename_i hne
  cases hroot : cleanupRoot allowedRoot with
  | none =>
    have hvalid : Valid path allowedRoot :=
      ⟨hgiven, by simpa using habs, hne, fun r hr => by cases hroot.symm.trans hr⟩
    show Works root i (ofFs ((rejectSymlinkNames [] (rel [] (clean (Text.trimSpace path)))).bind
      fun _ => pure (clean (Text.trimSpace path)))) _ s
    rw [ofFs_bind]
    have hrel : rel [] (clean (Text.trimSpace path)) = clean (Text.trimSpace path) := by
      cases clean (Text.trimSpace path) <;> rfl
    rw [hrel]
    refine works_then (works_rejectSymlinkNames hA hs [] _) fun _ t ht => ?_
    exact ⟨ht.1, rfl, ht.2 hne, hvalid⟩
  | some r =>
    show Works root i (ofFs (ite _ _ _ : FsProg Path)) _ s
    split
    · trivial
    rename_i hrootOk
    split
    · trivial
    rename_i hinside
    rw [Bool.or_eq_true, not_or] at hrootOk hinside
    have hrel : rel r (clean (Text.trimSpace path)) ≠ [] := by simpa using hinside.1
    have hup : (rel r (clean (Text.trimSpace path))).head? ≠ some dotDot := by
      simpa using hinside.2
    have hvalid : Valid path allowedRoot := by
      refine ⟨hgiven, by simpa using habs, hne, fun r' hr' => ?_⟩
      obtain rfl := Option.some.inj (hroot.symm.trans hr')
      exact ⟨by simpa using hrootOk.1, by simpa using hrootOk.2, hrel, hup⟩
    show Works root i (ofFs (((rejectSymlinkRoot r).bind fun _ =>
      rejectSymlinkNames r (rel r (clean (Text.trimSpace path)))).bind
        fun _ => pure (clean (Text.trimSpace path)))) _ s
    rw [ofFs_bind, ofFs_bind]
    refine works_then (works_then (works_rejectSymlinkRoot hA hs r) fun _ t ht =>
      works_rejectSymlinkNames hA ht r _) fun _ t ht => ?_
    have hlink := ht.2 hrel
    rw [append_rel hup] at hlink
    exact ⟨ht.1, rfl, hlink, hvalid⟩

theorem works_location (hs : A s) (spec : RepositorySpec) :
    Works root i (ofFs (filesystemRepositoryOwnershipPath spec)) (fun location t => A t ∧
      spec.location = .ok location ∧ (spec.type = "proxy_fs" → ∀ place,
        managedProxyFSPath spec = .ok place → Valid place.1 place.2)) s := by
  rw [filesystemRepositoryOwnershipPath, RepositorySpec.location]
  split
  · rename_i hnas
    cases hpath : repositoryNASPath spec with
    | error message => trivial
    | ok path => exact ⟨hs, rfl, fun hproxy => absurd (hnas.symm.trans hproxy) (by decide)⟩
  split
  · split
    · trivial
    · rw [validateManagedProxyFSRepositoryPath]
      cases hplace : managedProxyFSPath spec with
      | error message => trivial
      | ok place =>
        show Works root i (ofFs ((validateRepositoryCleanupPath place.1 place.2).bind
          fun validated => pure (textOf validated, place.2))) _ s
        rw [ofFs_bind]
        refine works_then (works_validate hA hs place.1 place.2) ?_
        rintro v t ⟨ht, rfl, -, hvalid⟩
        refine ⟨ht, rfl, fun _ place' hplace' => ?_⟩
        cases hplace'
        exact hvalid
  · trivial

/-! ## New markers -/

theorem works_requireEmpty (hs : A s) (p : Path) :
    Works root i (requireEmpty p) (fun _ t => A t ∧ Lonely i p t) s := by
  have hlonely {t : OwnershipStore} {entries : List (Name × Bool)} (hbegun : Begun i t)
      (hentries : t.tree.entries p = .ok entries) (hnil : entries = []) : Lonely i p t := by
    rintro _ ⟨z, rfl⟩ hne
    refine hbegun _ fun hoccupied => ?_
    obtain ⟨e, he, -⟩ := hoccupied
    rw [markerPathOf_append] at he
    cases z with
    | nil => exact hne (List.append_nil p)
    | cons n z =>
      have hsplit : p ++ (n :: z ++ [metadataName, markerName]) =
          (p ++ [n]) ++ (z ++ [metadataName, markerName]) := by simp
      rw [hsplit] at he
      have hn := (FsTree.mem_entries hentries (n := n)
        (b := t.tree.hasDir (p ++ [n]))).mpr ⟨⟨_, FsTree.get_of_prefix he (by simp)⟩, rfl⟩
      rw [hnil] at hn
      cases hn
  refine works_list hA hs fun t entries ht hbegun hentries => ?_
  split
  · rename_i hnil
    exact ⟨ht, hlonely hbegun hentries hnil⟩
  · refine works_then (R := fun _ u => A u) ?_ fun recovered u hu => ?_
    · rw [removeKopiaProbeResidue]
      split
      · exact ht
      · refine works_lstat hA ht (fun u e hu _ _ => ?_) (fun _ _ _ _ _ _ => trivial)
          fun _ _ _ _ => trivial
        cases e with
        | dir => exact hu
        | symlink target => exact hu
        | special => exact hu
        | file content =>
          refine works_read hA hu (fun _ => rfl) (fun _ => trivial) (fun u hu _ => ?_)
            fun _ _ _ => trivial
          refine works_orFail fun probe _ => ?_
          cases probe with
          | false => exact hu
          | true =>
            refine works_call hA hu (fun _ _ => ⟨p, rfl⟩) fun u c _ _ hA' => ?_
            exact works_orFail fun _ _ => hA'
    · cases recovered with
      | false => trivial
      | true =>
        refine works_list hA hu fun t entries ht hbegun hentries => ?_
        split
        · rename_i hnil
          exact ⟨ht, hlonely hbegun hentries hnil⟩
        · trivial

/-- A run has created a marker that it has not yet written. -/
def Mine (i : Nat) (c : Path) (s : OwnershipStore) : Prop :=
  ∃ content, s.tree.get (markerPathOf c) = some (.file content) ∧ content.marker = none ∧
    s.maker (markerPathOf c) = some i

omit hA in
theorem Mine.move {s' : OwnershipStore} (h : Mine i c s) (hgrows : Grows root i s s') :
    Mine i c s' := by
  obtain ⟨content, hc, hnone, hmaker⟩ := h
  obtain ⟨content', hc', hsame⟩ := hgrows.file c content hc
  obtain rfl := hsame (.inr hmaker)
  exact ⟨content', hc', hnone, hgrows.maker _ _ hmaker⟩

theorem works_writeMarker (hs : A s) (hmine : Mine i c s) (ownership : RepositoryOwnership) :
    Works root i (writeMarker (markerPathOf c) ownership) (fun _ t => A t) s := by
  intro t hkeeps hmoves
  have ht := hA s t hs (.of_grows hmoves)
  obtain ⟨content, hc, hnone, hmaker⟩ := hmine.move hmoves
  have hguard : Guard root i t
      (.write (markerPathOf c) (repositoryOwnershipMarkerFromSpec ownership)) :=
    ⟨c, content, rfl, hc, hnone, hmaker⟩
  refine ⟨hguard, fun choice => ?_⟩
  have hA' : A (ownershipHost.respond i t _ choice).2 := hA _ _ ht (later_respond hguard choice)
  rcases hanswer : ownershipHost.respond i t
    (.write (markerPathOf c) (repositoryOwnershipMarkerFromSpec ownership)) choice with ⟨x, u⟩
  replace hA' : A u := by rwa [hanswer] at hA'
  cases x with
  | error error => exact works_call hA hA' (fun _ _ => trivial) fun _ _ _ _ _ => trivial
  | ok _ =>
    refine works_call hA hA' (fun _ _ => trivial) fun u synced _ _ hA' => ?_
    refine works_call hA hA' (fun _ _ => trivial) fun u closed _ _ hA' => ?_
    refine works_orFail fun _ _ => ?_
    generalize (ownershipRespond i u (.close (markerPathOf c)) closed).1 = x
    cases x with
    | error error => trivial
    | ok _ => exact hA'

theorem works_create {β : Type} {Q : β → OwnershipStore → Prop} (hs : A s)
    {k : Except OwnershipError Unit → OwnershipProg β}
    (hclear : ∀ t, A t → ∀ d, Nested root p d → Unseen i d t)
    (hok : ∀ t, A t → Mine i p t → Works root i (k (.ok ())) Q t)
    (herror : ∀ t error, A t → Works root i (k (.error error)) Q t) :
    Works root i (.call (.create (markerPathOf p)) k) Q s := by
  have hguard : ∀ t, A t → Guard root i t (.create (markerPathOf p)) := by
    intro t ht
    refine ⟨p, rfl, fun t₀ ht₀ d hd => ?_⟩
    obtain ⟨t₁, ht₁, hnot⟩ := hclear t ht d hd
    obtain rfl := Option.some.inj (ht₀.symm.trans ht₁)
    exact hnot
  refine works_call hA hs hguard fun t c _ _ hA' => ?_
  cases hchoice : c.error with
  | some message =>
    have hanswer : (ownershipRespond i t (.create (markerPathOf p)) c).1 =
        (.error (.other message) : Except OwnershipError Unit) := by
      rw [ownershipRespond, hchoice]
      rfl
    rw [hanswer]
    exact herror _ _ hA'
  | none =>
    have hrespond : ownershipRespond i t (.create (markerPathOf p)) c =
        ((perform t.tree (.create (markerPathOf p))).1,
          (t.arrive i).effect i (.create (markerPathOf p))) := by
      rw [ownershipRespond, hchoice]
    rw [hrespond] at hA' ⊢
    rcases perform_create t.tree (markerPathOf p) with
      ⟨hnone, hdir, hcreated, hperform⟩ | ⟨-, -, error, hperform⟩
    · rw [hperform]
      refine hok _ hA' ⟨.empty, ?_, rfl, ?_⟩
      · rw [effect_arrive]
        show (perform t.tree (.create (markerPathOf p))).2.get _ = _
        rw [hperform]
        exact FsTree.get_put_self (FsTree.puttable_of_none hnone hdir)
      · rw [effect_arrive]
        show (OwnershipStore.effect i (.create (markerPathOf p)) t).maker _ = _
        rw [OwnershipStore.effect, hcreated]
        exact Function.update_self _ _ _
    · rw [hperform]
      exact herror _ _ hA'

/-! ## Claims and verifications -/

def Holds (root : Path) (spec : RepositorySpec) (s : OwnershipStore) : Prop :=
  ∃ ownership, spec.ownership = some ownership ∧ Below root spec.repositoryPath ∧
    Marks spec.repositoryPath (repositoryOwnershipMarkerFromSpec ownership) s

/-- What a verification of a repository at a place has to find. -/
structure Accepted (root : Path) (spec : RepositorySpec) (location : List Char × List Char)
    (ownership : RepositoryOwnership) (s : OwnershipStore) : Prop where
  placed : Placed spec location
  owner : spec.ownership = some ownership
  absolute : isAbs location.2 = true
  rooted : clean location.2 = root
  below : Below root (clean location.1)
  marks : Marks (clean location.1) (repositoryOwnershipMarkerFromSpec ownership) s
  sane : ∀ c, Below root c → c <+: (clean location.1).dropLast → Sane c s
  link : NoLink (clean (Text.trimSpace location.1)) s

def Settled (root : Path) (spec : RepositorySpec) (s : OwnershipStore) : Prop :=
  ∃ location ownership, Accepted root spec location ownership s

variable {spec : RepositorySpec}

omit hA in
theorem repositoryPath_of_location {location : List Char × List Char}
    (h : spec.location = .ok location) : spec.repositoryPath = clean location.1 := by
  rw [RepositorySpec.repositoryPath, h]

omit hA in
theorem Settled.holds (h : Settled root spec s) : Holds root spec s := by
  obtain ⟨location, ownership, haccepted⟩ := h
  rw [Holds, repositoryPath_of_location haccepted.placed.located]
  exact ⟨ownership, haccepted.owner, haccepted.below, haccepted.marks⟩

omit hA in
theorem lasting_holds (spec : RepositorySpec) : Lasting root i (Holds root spec) := by
  rintro s s' ⟨ownership, hownership, hbelow, hmarks⟩ hlater
  exact ⟨ownership, hownership, hbelow, lasting_marks _ _ s s' hmarks hlater⟩

omit hA in
theorem lasting_accepted (spec : RepositorySpec) (location : List Char × List Char)
    (ownership : RepositoryOwnership) :
    Lasting root i (Accepted root spec location ownership) :=
  fun s s' h hlater => {
    placed := h.placed
    owner := h.owner
    absolute := h.absolute
    rooted := h.rooted
    below := h.below
    marks := lasting_marks _ _ s s' h.marks hlater
    sane := fun c hc hp => lasting_sane hc s s' (h.sane c hc hp) hlater
    link := lasting_noLink _ s s' h.link hlater }

omit hA in
theorem lasting_settled (spec : RepositorySpec) : Lasting root i (Settled root spec) := by
  rintro s s' ⟨location, ownership, h⟩ hlater
  exact ⟨location, ownership, lasting_accepted spec location ownership s s' h hlater⟩

omit hA in
theorem isPrefix_dropLast (h : c <+: p) (hne : c ≠ p) : c <+: p.dropLast := by
  obtain ⟨z, rfl⟩ := h
  have hz : z ≠ [] := fun hz => hne (by rw [hz, List.append_nil])
  rw [List.dropLast_append_of_ne_nil hz]
  exact List.prefix_append _ _

omit hA in
theorem unseen_of_nested {d : Path} (habove : Cleared root i p.dropLast s) (hbelow : Lonely i p s)
    (hd : Nested root p d) : Unseen i d s := by
  obtain ⟨-, hroot, hne, hp | hp⟩ := hd
  · exact hbelow d hp hne.symm
  · exact (habove d hroot (isPrefix_dropLast hp hne.symm)).2

theorem works_settleMarker (hs : A s) (hmine : Mine i p s) (depth : Nat)
    (ownership : RepositoryOwnership) :
    Works root i (settleMarker depth p root ownership) (fun _ t => A t ∧
      Marks p (repositoryOwnershipMarkerFromSpec ownership) t) s := by
  refine works_then (works_writeMarker hA hs hmine ownership) fun _ t ht => ?_
  refine works_then (works_rejectAncestors hA ht p) fun _ t ht => ?_
  refine works_then (works_rejectDescendants hA ht.1 depth p) fun _ t ht => ?_
  exact works_requireMarker hA ht.1 _ p ownership

theorem works_claimNew (hs : A s) (hcleared : Cleared root i p.dropLast s)
    (hthrough : Through root p) (depth : Nat) (ownership : RepositoryOwnership) :
    Works root i (claimNew depth p root ownership) (fun _ t => A t ∧
      Marks p (repositoryOwnershipMarkerFromSpec ownership) t) s := by
  have hA' := hA.and (lasting_cleared (i := i) p.dropLast)
  refine works_then (works_requireEmpty hA' ⟨hs, hcleared⟩ p) fun _ t ht => ?_
  have hA'' := hA'.and (lasting_lonely (i := i) p)
  refine works_then (works_mkdirAll hA'' ht hthrough.metadata) fun _ t ht => ?_
  refine works_create hA'' ht (fun u hu d hd => unseen_of_nested hu.1.2 hu.2 hd)
    (fun u hu hmine => ?_) fun u error hu => ?_
  · exact works_settleMarker hA hu.1.1 hmine depth ownership
  · show Works root i (ite _ _ _ : OwnershipProg Unit) _ u
    split
    · exact works_requireMarker hA hu.1.1 _ p ownership
    · trivial

end Programs

section Tasks

variable {spec : RepositorySpec} (hfits : spec.Fits root)
include hfits

theorem works_place {β : Type} {Q : β → OwnershipStore → Prop}
    {f : List Char × List Char → OwnershipProg β}
    (hok : ∀ location t, Placed spec location → clean location.2 = root →
      NoLink (clean (Text.trimSpace location.1)) t → Works root i (f location) Q t) :
    Works root i ((ofFs (filesystemRepositoryOwnershipPath spec)).bind fun location =>
      (ofFs (validateRepositoryCleanupPath location.1 location.2)).bind fun _ => f location)
      Q s := by
  refine works_then (works_location lasting_true trivial spec) ?_
  rintro location t ⟨-, hlocated, hproxy⟩
  refine works_then (works_validate lasting_true trivial location.1 location.2) ?_
  rintro v u ⟨-, rfl, hlink, hvalid⟩
  exact hok location u ⟨hlocated, hproxy, hvalid⟩ (hfits location hlocated).2.1 hlink

theorem works_claim (depth : Nat) : Works root i (claimFilesystemRepositoryOwnership depth spec)
      (fun _ t => Settled root spec t) s := by
  rw [claimFilesystemRepositoryOwnership]
  cases hownership : spec.ownership with
  | none => trivial
  | some ownership =>
    refine works_place hfits fun location t hplaced hroot hlink => ?_
    have hbelow := below_of_valid hfits hplaced
    have hthrough := through_of_fits hfits hplaced.located
    rw [hroot]
    generalize hp : clean location.1 = p at hbelow hthrough
    have hN : Lasting root i _ := lasting_noLink (clean (Text.trimSpace location.1))
    have hsettled {u : OwnershipStore} (hlink : NoLink (clean (Text.trimSpace location.1)) u)
        (hcleared : Cleared root i p.dropLast u)
        (hmarks : Marks p (repositoryOwnershipMarkerFromSpec ownership) u) :
        Settled root spec u :=
      ⟨location, ownership, hplaced, hownership, (hfits location hplaced.located).1, hroot,
        hp ▸ hbelow, hp ▸ hmarks, hp ▸ fun c hc hpre => (hcleared c hc hpre).1, hlink⟩
    refine works_then (works_rejectAncestors hN hlink p) ?_
    rintro _ u ⟨hlink, -, hcleared⟩
    have hA := hN.and (lasting_cleared (i := i) p.dropLast)
    refine works_then (works_mkdirAll hA ⟨hlink, hcleared⟩ hthrough) fun _ u hu => ?_
    refine works_then (works_readMarker hA hu p) ?_
    rintro existing u ⟨hu, -, hmarks⟩
    cases existing with
    | none =>
      refine (works_claimNew hA hu hu.2 hthrough depth ownership).mono (fun _ _ h => h) ?_
      rintro _ w ⟨hw, hmarks⟩
      exact hsettled hw.1 hw.2 hmarks
    | some M =>
      have hM := hA.and (lasting_marks (i := i) p M)
      refine works_then (works_requireMatching (A := fun w =>
        (NoLink (clean (Text.trimSpace location.1)) w ∧ Cleared root i p.dropLast w) ∧
          Marks p M w) ⟨hu, hmarks M rfl⟩ M ownership) ?_
      rintro _ w ⟨hw, hmatch⟩
      refine (works_rejectDescendants hM hw depth p).mono (fun _ _ h => h) ?_
      rintro _ w ⟨⟨hw, hmarks⟩, -⟩
      exact hsettled hw.1 hw.2 (hmatch ▸ hmarks)

theorem works_verify (depth : Nat) (adoptMissing : Bool) :
    Works root i (verifyFilesystemRepositoryOwnership depth spec adoptMissing)
      (fun _ t => spec.ownership.isSome = true → Holds root spec t) s := by
  rw [verifyFilesystemRepositoryOwnership]
  cases hownership : spec.ownership with
  | none => exact fun h => by cases h
  | some ownership =>
    refine works_place hfits fun location t hplaced hroot _ => ?_
    have hbelow := below_of_valid hfits hplaced
    have hthrough := through_of_fits hfits hplaced.located
    have hholds {u : OwnershipStore}
        (hmarks : Marks (clean location.1) (repositoryOwnershipMarkerFromSpec ownership) u) :
        Holds root spec u := by
      rw [Holds, repositoryPath_of_location hplaced.located]
      exact ⟨ownership, hownership, hbelow, hmarks⟩
    rw [hroot]
    generalize clean location.1 = p at hbelow hthrough hholds
    refine works_then (works_rejectAncestors (i := i) lasting_true trivial p) ?_
    rintro _ u ⟨-, -, hcleared⟩
    have hC : Lasting root i _ := lasting_cleared p.dropLast
    refine works_then (works_readMarker hC hcleared p) ?_
    rintro existing u ⟨hcleared, -, hmarks⟩
    refine works_then (R := fun M w => Marks p M w) ?_ fun M w hM => ?_
    · cases existing with
      | some M => exact hmarks M rfl
      | none =>
        show Works root i (adoptMarker depth p ownership adoptMissing) _ u
        rw [adoptMarker]
        split
        · trivial
        refine works_then (works_rejectDescendants hC hcleared depth p) fun _ w hw => ?_
        have hA := hC.and (lasting_lonely (i := i) p)
        refine works_then (R := fun _ _ => True) ?_ fun _ w _ => ?_
        · refine works_then (works_mkdirAll hA hw hthrough.metadata) fun _ w hw => ?_
          refine works_create hA hw (fun x hx d hd => unseen_of_nested hx.1 hx.2 hd)
            (fun x hx hmine => ?_) fun x error hx => ?_
          · exact works_writeMarker lasting_true trivial hmine ownership
          · show Works root i (ite _ _ _ : OwnershipProg Unit) _ x
            split
            · trivial
            · trivial
        · refine works_then (works_readMarker (i := i) lasting_true trivial p) ?_
          rintro marker x ⟨-, -, hmarks⟩
          cases marker with
          | none => trivial
          | some M => exact hmarks M rfl
    · have hM' : Lasting root i _ := lasting_marks p M
      refine works_then (works_requireMatching (A := Marks p M) hM M ownership) ?_
      rintro _ x ⟨hM, hmatch⟩
      rw [recheck]
      split
      · refine works_then (works_rejectAncestors hM' hM p) fun _ x hx => ?_
        refine (works_rejectDescendants hM' hx.1 depth p).mono (fun _ _ h => h) ?_
        rintro _ x ⟨hM, -⟩ -
        exact hholds (hmatch ▸ hM)
      · exact fun _ => hholds (hmatch ▸ hM)

theorem works_matches : Works root i (filesystemRepositoryOwnershipMatches spec)
      (fun r t => r = true → Holds root spec t) s := by
  rw [filesystemRepositoryOwnershipMatches]
  cases hownership : spec.ownership with
  | none => exact fun h => by cases h
  | some ownership =>
    refine works_place hfits fun location t hplaced hroot _ => ?_
    have hbelow := below_of_valid hfits hplaced
    refine works_then (works_readMarker (i := i) lasting_true trivial (clean location.1)) ?_
    rintro marker u ⟨-, -, hmarks⟩
    cases marker with
    | none => exact fun h => by cases h
    | some M =>
      refine works_then (works_requireMatching (A := Marks (clean location.1) M)
        (hmarks M rfl) M ownership) ?_
      rintro _ w ⟨hM, rfl⟩ -
      rw [Holds, repositoryPath_of_location hplaced.located]
      exact ⟨ownership, hownership, hbelow, hM⟩

theorem works_check :
    Works root i (checkFilesystemRepositoryOwnershipIfPresent spec) (fun _ _ => True) s := by
  rw [checkFilesystemRepositoryOwnershipIfPresent]
  cases hownership : spec.ownership with
  | none => trivial
  | some ownership =>
    refine works_place hfits fun location t hplaced hroot _ => ?_
    rw [hroot]
    refine works_then (works_rejectAncestors (i := i) lasting_true trivial _) fun _ u _ => ?_
    refine works_then (works_readMarker (i := i) lasting_true trivial _) ?_
    rintro marker w -
    cases marker with
    | none => trivial
    | some M =>
      exact (works_requireMatching (A := fun _ => True) trivial M ownership).mono
        (fun _ _ h => h) fun _ _ _ => trivial

end Tasks

def Promise (root : Path) (job : OwnershipJob) (reported : Bool) (s : OwnershipStore) : Prop :=
  (reported = true → Holds root job.spec s) ∧
    (job.task = .claim → reported = true → Settled root job.spec s)

theorem lasting_promise (job : OwnershipJob) (reported : Bool) :
    Lasting root i (Promise root job reported) :=
  fun s s' h hlater => ⟨fun hr => lasting_holds job.spec s s' (h.1 hr) hlater,
    fun ht hr => lasting_settled job.spec s s' (h.2 ht hr) hlater⟩

theorem works_run (job : OwnershipJob) (hfits : job.spec.Fits root) :
    Works root i job.run (Promise root job) s := by
  obtain ⟨task, spec, depth⟩ := job
  cases task with
  | claim =>
    refine works_then (works_claim hfits depth) fun _ t ht => ?_
    exact ⟨fun _ => ht.holds, fun _ _ => ht⟩
  | verify adoptMissing =>
    refine works_then (works_verify hfits depth adoptMissing) fun _ t ht => ?_
    exact ⟨ht, fun h => by cases h⟩
  | check =>
    refine works_then (works_check hfits) fun _ t _ => ?_
    exact ⟨fun h => (by cases h), fun h => by cases h⟩
  | compare =>
    refine (works_matches hfits).mono (fun _ _ h => h) fun r t ht => ?_
    exact ⟨ht, fun h => by cases h⟩

end HyperFileLens.Ownership
