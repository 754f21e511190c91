import HyperFileLens.Cleanup.RepositoryPath

/-!
# Deletion of a filesystem repository is fenced by its marker

Whatever fails and wherever the agent is killed, `deleteRepository` removes nothing
outside the directory of the repository, which is inside the allowed root, and
succeeds only if the path is gone. With an owner it also removes nothing unless the
marker is there and belongs to the owner, and removes the marker only when nothing
else is left.

*Places.*  Paths are resolved again for every call, in a tree that has less in it
than before. So a path that still resolves leads where it led at the start
(`FsTree.resolve_mono`), and the places to speak of are those of the first tree.
-/

namespace HyperFileLens.Cleanup

open Service FileTree FilePath Storage

/-! ## The repository -/

/-- The path that `validateRepositoryCleanupPath` returns. -/
def cleanupPath (path : List Char) : Path := clean (Text.trimSpace path)

def rootPath (allowedRoot : List Char) : Path := (cleanupRoot allowedRoot).getD []

/-- The repository is in the directory `q`, strictly below the allowed root. -/
structure IsRepository (t : FileSystem) (path allowedRoot : List Char) (q : Path) : Prop where
  located : t.locate (cleanupPath path) = .ok q
  inside : ∃ r below, t.resolve (rootPath allowedRoot) = .ok r ∧ below ≠ [] ∧ q = r ++ below

def markerPlace (q : Path) : Path := q ++ [metadataName] ++ [markerName]

/-- The marker is there, and belongs to the expected owner if one is expected. -/
def IsOwned (t : FileSystem) (q : Path) (expected : Option RepositoryOwnership) : Prop :=
  ∃ content, t.get (markerPlace q) = some (.file content) ∧
    ∀ owner, expected = some owner → content = some (repositoryOwnershipMarkerFromSpec owner)

/-- A path of the repository other than the marker and its directories. -/
structure IsOther (q p : Path) : Prop where
  under : q <+: p
  ne_repository : p ≠ q
  ne_metadata : p ≠ q ++ [metadataName]
  ne_marker : p ≠ markerPlace q

/-- A deletion stays inside the repository, and succeeds only when it is gone. -/
structure StaysInside (t : FileSystem) (path allowedRoot : List Char)
    (r : Run FileSystem FsCall String Bool) : Prop where
  /-- What changed is in the repository. -/
  contained : ∀ p, r.state.get p ≠ t.get p →
    ∃ q, IsRepository t path allowedRoot q ∧ q <+: p
  success : ∀ existed, r.outcome = .done existed →
    r.state.lstat (cleanupPath path) = .error .notExist

/-- What a deletion that is fenced by the marker keeps, at the end of a run. -/
structure FencedByMarker (t : FileSystem) (path allowedRoot : List Char)
    (expected : Option RepositoryOwnership) (r : Run FileSystem FsCall String Bool) : Prop
    extends StaysInside t path allowedRoot r where
  /-- Nothing changed without the marker of the owner. -/
  fenced : ∀ p, r.state.get p ≠ t.get p →
    ∃ q, IsRepository t path allowedRoot q ∧ IsOwned t q expected
  /-- While anything else is left, the marker is. -/
  markerLast : ∀ q p, IsRepository t path allowedRoot q → IsOther q p → r.state.get p ≠ none →
    r.state.get (markerPlace q) = t.get (markerPlace q)

/-! ## Phases -/

section Phases

variable {t₀ t : FileSystem} {q : Path}

/-- Only the repository has less in it. -/
structure Inside (t₀ : FileSystem) (q : Path) (t : FileSystem) : Prop where
  le : t.Le t₀
  outside : ∀ p, ¬ q <+: p → t.get p = t₀.get p

structure Intact (t₀ : FileSystem) (q : Path) (t : FileSystem) : Prop
    extends Inside t₀ q t where
  marker : t.get (markerPlace q) = t₀.get (markerPlace q)

structure MarkerOnly (t₀ : FileSystem) (q : Path) (t : FileSystem) : Prop
    extends Inside t₀ q t where
  none_other : ∀ p, IsOther q p → t.get p = none

theorem Inside.start (t₀ : FileSystem) (q : Path) : Inside t₀ q t₀ :=
  ⟨.refl t₀, fun _ _ => rfl⟩

theorem Intact.start (t₀ : FileSystem) (q : Path) : Intact t₀ q t₀ :=
  ⟨.start t₀ q, rfl⟩

theorem Inside.prune (h : Inside t₀ q t) {p : Path} (hp : q <+: p) (left : List Path) :
    Inside t₀ q (t.prune p left) where
  le := .trans (FsTree.prune_le t p left) h.le
  outside := fun p' hp' =>
    (FsTree.get_prune_of_not_prefix fun hpre => hp' (hp.trans hpre)).trans (h.outside p' hp')

theorem Intact.prune (h : Intact t₀ q t) {p : Path} (hp : q <+: p)
    (hmarker : ¬ p <+: markerPlace q) (left : List Path) : Intact t₀ q (t.prune p left) where
  toInside := h.toInside.prune hp left
  marker := (FsTree.get_prune_of_not_prefix hmarker).trans h.marker

theorem MarkerOnly.prune (h : MarkerOnly t₀ q t) {p : Path} (hp : q <+: p) (left : List Path) :
    MarkerOnly t₀ q (t.prune p left) where
  toInside := h.toInside.prune hp left
  none_other := fun p' hp' => by
    rw [FsTree.get_prune]
    split
    · rfl
    · exact h.none_other p' hp'

theorem Intact.markerOnly (h : Intact t₀ q t) {content : Option RepositoryOwnershipMarker}
    (hfile : t₀.get (markerPlace q) = some (.file content)) (hnames : t.names q = [metadataName])
    (hmetadata : t.names (q ++ [metadataName]) = [markerName]) : MarkerOnly t₀ q t where
  toInside := h.toInside
  none_other := fun p hp => by
    -- the first two names below the repository are those of the marker
    by_contra hsome
    obtain ⟨e, he⟩ := Option.ne_none_iff_exists'.mp hsome
    obtain ⟨⟨below, rfl⟩, hne, hne', hne''⟩ := hp
    have hmem : ∀ place n rest f, t.get (place ++ n :: rest) = some f → n ∈ t.names place := by
      intro place n rest f hf
      refine FsTree.mem_names.mpr ?_
      cases rest with
      | nil => exact ⟨f, hf⟩
      | cons m rest =>
        rw [List.append_cons] at hf
        exact ⟨_, FsTree.get_of_prefix hf (by simp)⟩
    cases below with
    | nil => exact hne (by simp)
    | cons n below =>
      obtain rfl : n = metadataName := by simpa [hnames] using hmem q n below e he
      rw [List.append_cons] at he hne' hne''
      cases below with
      | nil => exact hne' (by simp)
      | cons m below =>
        obtain rfl : m = markerName := by simpa [hmetadata] using hmem _ m below e he
        rw [List.append_cons] at he hne''
        cases below with
        | nil => exact hne'' (by simp [markerPlace])
        | cons k below =>
          have hdir : t.get (markerPlace q) = some .dir :=
            FsTree.get_of_prefix he (by simp)
          rw [h.marker, hfile] at hdir
          simp at hdir

end Phases

/-! ## Calls -/

/-- The contract of a deletion: the tree is as at the start, or `K` holds of it. -/
def cleanupContract (t₀ : FileSystem) (K : FileSystem → Prop) :
    Contract FileSystem FsCall FsAnswer FsChoice where
  server := filesystem
  allows := fun _ _ _ => True
  guards := fun _ => True
  keeps := fun t => t = t₀ ∨ K t

section Calls

variable {t₀ t : FileSystem} {K : FileSystem → Prop} {p : Path} {β : Type}

variable {Q : β → FileSystem → Prop}

theorem wp_lstat {f : Except FsError FileInfo → FsProg β} (ht : (cleanupContract t₀ K).keeps t)
    (hok : ∀ info, t.lstat p = .ok info → (cleanupContract t₀ K).wp (f (.ok info)) Q t)
    (hmissing : t.lstat p = .error .notExist →
      (cleanupContract t₀ K).wp (f (.error (.lookup .notExist))) Q t)
    (herror : ∀ error, error.isNotExist = false →
      (cleanupContract t₀ K).wp (f (.error error)) Q t) :
    (cleanupContract t₀ K).wp ((lstat p).bind f) Q t := by
  refine (Contract.wp_bind _ _ _ _).mpr ⟨trivial, fun c _ => ⟨ht, ?_⟩⟩
  show (cleanupContract t₀ K).wp (f (c.answer (ofLookup (t.lstat p)))) Q t
  cases hc : c.error with
  | some message =>
    rw [FsChoice.answer, hc]
    exact herror _ rfl
  | none =>
    rw [FsChoice.answer, hc]
    cases hstat : t.lstat p with
    | ok info => exact hok info hstat
    | error error =>
      cases error with
      | notExist => exact hmissing hstat
      | notDir => exact herror _ rfl
      | loop => exact herror _ rfl

theorem wp_checkContext (ht : (cleanupContract t₀ K).keeps t) :
    (cleanupContract t₀ K).wp checkContext (fun _ t' => t' = t) t := by
  refine (Contract.wp_bind _ _ _ _).mpr ⟨trivial, fun c _ => ⟨ht, ?_⟩⟩
  obtain ⟨error, left⟩ := c
  cases error with
  | some message => trivial
  | none => rfl

theorem wp_orFail {α : Type} {answer : Except FsError α} {Q : α → FileSystem → Prop}
    (h : ∀ a, answer = .ok a → Q a t) : (cleanupContract t₀ K).wp (orFail answer) Q t := by
  cases answer with
  | error error => trivial
  | ok a => exact h a rfl

theorem FsChoice.eq_ok_of_answer {α : Type} {c : FsChoice} {answer : Except FsError α} {a : α}
    (h : c.answer answer = .ok a) : answer = .ok a := by
  unfold FsChoice.answer at h
  split at h
  · simp at h
  · exact h

theorem wp_readDir {f : List Name → FsProg β} (ht : (cleanupContract t₀ K).keeps t)
    (h : ∀ names, readNames t p = .ok names → (cleanupContract t₀ K).wp (f names) Q t) :
    (cleanupContract t₀ K).wp ((readDir p).bind fun answer => (orFail answer).bind f) Q t := by
  refine (Contract.wp_bind _ _ _ _).mpr ⟨trivial, fun c _ => ⟨ht, ?_⟩⟩
  refine (Contract.wp_bind _ _ _ _).mpr (wp_orFail fun names hnames => ?_)
  exact h names (FsChoice.eq_ok_of_answer hnames)

theorem wp_readFile {f : Option RepositoryOwnershipMarker → FsProg β}
    (ht : (cleanupContract t₀ K).keeps t)
    (h : ∀ content, readContent t p = .ok content → (cleanupContract t₀ K).wp (f content) Q t) :
    (cleanupContract t₀ K).wp ((readFile p).bind fun answer => (orFail answer).bind f) Q t := by
  refine (Contract.wp_bind _ _ _ _).mpr ⟨trivial, fun c _ => ⟨ht, ?_⟩⟩
  refine (Contract.wp_bind _ _ _ _).mpr (wp_orFail fun content hcontent => ?_)
  exact h content (FsChoice.eq_ok_of_answer hcontent)

variable {P : FileSystem → Prop}

theorem wp_removeTree (hP : P t) (hkeeps : ∀ t', P t' → (cleanupContract t₀ K).keeps t')
    (hprune : ∀ place left, t.locate p = .ok place → P (t.prune place left)) :
    (cleanupContract t₀ K).wp (removeTree p) (fun _ => P) t := by
  refine (Contract.wp_bind _ _ _ _).mpr ⟨trivial, fun c _ => ?_⟩
  have hafter : P (filesystem.respond t (.removeAll p) c).2 := by
    simp only [filesystem, fsRespond]
    split
    · exact hP
    · exact hP
    · rename_i place hplace
      exact hprune place c.left hplace
  exact ⟨hkeeps _ hafter, wp_orFail fun _ _ => hafter⟩

theorem wp_removeDirectory (hP : P t) (hkeeps : ∀ t', P t' → (cleanupContract t₀ K).keeps t')
    (hprune : ∀ place left, t.locate p = .ok place → P (t.prune place left)) :
    (cleanupContract t₀ K).wp (removeDirectory p) (fun _ => P) t := by
  refine (Contract.wp_bind _ _ _ _).mpr ⟨trivial, fun c _ => ?_⟩
  have hafter : P ((cleanupContract t₀ K).server.respond t (.remove p) c).2 := by
    simp only [cleanupContract, filesystem, fsRespond]
    split
    · exact hP
    · rename_i place hplace
      split
      · exact hP
      split
      · exact hP
      · exact hprune place c.left hplace
  refine ⟨hkeeps _ hafter, ?_⟩
  generalize (cleanupContract t₀ K).server.respond t (.remove p) c = after at hafter
  obtain ⟨answer, t'⟩ := after
  cases answer with
  | ok _ => exact hafter
  | error error =>
    show (cleanupContract t₀ K).wp (if error.isNotExist then pure () else .fail error.message) _ t'
    split
    · exact hafter
    · trivial

end Calls

/-! ## Validation -/

section Validation

variable {t₀ : FileSystem} {K : FileSystem → Prop} {path allowedRoot : List Char}

theorem keeps_start : (cleanupContract t₀ K).keeps t₀ := .inl rfl

theorem wp_rejectSymlinkNames (current : Path) (ns : List Name) :
    (cleanupContract t₀ K).wp (rejectSymlinkNames current ns)
      (fun _ t => t = t₀ ∧ t₀.LinkFree current ns) t₀ := by
  induction ns generalizing current with
  | nil => exact ⟨rfl, trivial⟩
  | cons n rest ih =>
    refine wp_lstat keeps_start (fun info hstat => ?_) (fun hstat => ?_) fun error herror => ?_
    · have hrest : (∀ target, t₀.lstat (current ++ [n]) ≠ .ok (.symlink target)) →
          (cleanupContract t₀ K).wp (rejectSymlinkNames (current ++ [n]) rest)
            (fun _ t => t = t₀ ∧ t₀.LinkFree current (n :: rest)) t₀ := fun hlink =>
        Contract.wp_mono (ih (current ++ [n])) fun _ _ h => ⟨h.1, .inr ⟨hlink, h.2⟩⟩
      cases info with
      | symlink target => trivial
      | dir => exact hrest fun target h => by simp [hstat] at h
      | file content => exact hrest fun target h => by simp [hstat] at h
      | special => exact hrest fun target h => by simp [hstat] at h
    · exact ⟨rfl, .inl hstat⟩
    · simp [herror]

theorem wp_rejectSymlinkRoot (root : Path) : (cleanupContract t₀ K).wp (rejectSymlinkRoot root)
      (fun _ t => t = t₀) t₀ := by
  refine wp_lstat keeps_start (fun info _ => ?_) (fun _ => rfl) fun _ _ => rfl
  cases info with
  | symlink target => trivial
  | dir => rfl
  | file content => rfl
  | special => rfl

theorem wp_rejectCleanupSymlinkComponents (cleaned : Path) (root : Option Path) :
    (cleanupContract t₀ K).wp (rejectCleanupSymlinkComponents cleaned root)
      (fun _ t => t = t₀ ∧ t₀.LinkFree (root.getD []) (rel (root.getD []) cleaned)) t₀ := by
  cases root with
  | none => exact wp_rejectSymlinkNames [] _
  | some root =>
    refine Contract.wp_then (wp_rejectSymlinkRoot root) fun _ t ht => ?_
    subst ht
    exact wp_rejectSymlinkNames root _

/-- A validated path is strictly below the allowed root, without a link between. -/
structure Validated (t : FileSystem) (path allowedRoot : List Char) (cleaned : Path) : Prop where
  eq : cleaned = cleanupPath path
  below : ∃ ns, ns ≠ [] ∧ rootPath allowedRoot ++ ns = cleaned ∧
    t.LinkFree (rootPath allowedRoot) ns

theorem wp_validateRepositoryCleanupPath : (cleanupContract t₀ K).wp
      (validateRepositoryCleanupPath path allowedRoot)
      (fun cleaned t => t = t₀ ∧ Validated t₀ path allowedRoot cleaned) t₀ := by
  unfold validateRepositoryCleanupPath
  dsimp only
  split
  · trivial
  split
  · trivial
  split
  · trivial
  rename_i hne
  -- the names below the root, as `Rel` has them
  have hvalid : ∀ root, cleanupRoot allowedRoot = root →
      rel (root.getD []) (cleanupPath path) ≠ [] →
      (rel (root.getD []) (cleanupPath path)).head? ≠ some dotDot → ∀ t,
      t = t₀ ∧ t₀.LinkFree (root.getD []) (rel (root.getD []) (cleanupPath path)) →
      t = t₀ ∧ Validated t₀ path allowedRoot (cleanupPath path) := by
    rintro root rfl hrel hup t ⟨ht, hfree⟩
    exact ⟨ht, rfl, _, hrel, append_rel hup, hfree⟩
  cases hroot : cleanupRoot allowedRoot with
  | none =>
    refine Contract.wp_then (wp_rejectCleanupSymlinkComponents _ none) fun _ t ht => ?_
    refine hvalid none hroot ?_ ?_ t ht
    · simpa [rel, cleanupPath] using hne
    · intro hup
      have hmem : dotDot ∈ cleanupPath path := by
        rw [← List.nil_append (cleanupPath path)]
        exact List.mem_of_head? (by simpa [rel] using hup)
      exact (isPlain_of_mem_clean hmem).2.2 rfl
  | some root =>
    dsimp only
    split
    · trivial
    split
    · trivial
    rename_i hrel
    simp only [Bool.or_eq_true, decide_eq_true_eq, not_or] at hrel
    refine Contract.wp_then (wp_rejectCleanupSymlinkComponents _ (some root)) fun _ t ht => ?_
    exact hvalid (some root) hroot hrel.1 hrel.2 t ht

theorem Validated.isRepository {cleaned q : Path} {info : FileInfo}
    (h : Validated t₀ path allowedRoot cleaned) (hlocated : t₀.locate cleaned = .ok q)
    (hinfo : t₀.get q = some info) (hlink : ∀ target, info ≠ .symlink target) :
    IsRepository t₀ path allowedRoot q := by
  obtain ⟨rfl, ns, hne, heq, hfree⟩ := h
  have hplain : ∀ n ∈ cleanupPath path, FsTree.IsPlain n := fun n hn => isPlain_of_mem_clean hn
  have hresolve := FsTree.resolve_of_locate hplain hlocated hinfo hlink
  rw [← heq] at hresolve hplain
  obtain ⟨r, hr, hq⟩ := FsTree.resolve_append_of_linkFree
    (fun n hn => hplain n (List.mem_append_right _ hn)) hfree hresolve
  exact ⟨hlocated, r, ns, hr, hne, hq⟩

end Validation

/-! ## The marker -/

section Marker

variable {t₀ t : FileSystem} {K : FileSystem → Prop} {expected : Option RepositoryOwnership}
  {cleaned q : Path}

theorem wp_requireRegularRepositoryOwnershipMarker
    (ht : (cleanupContract t₀ K).keeps t) (metadataPath markerPath : Path) :
    (cleanupContract t₀ K).wp (requireRegularRepositoryOwnershipMarker metadataPath markerPath)
      (fun _ t' => t' = t ∧ t.lstat metadataPath = .ok .dir ∧
        ∃ content, t.lstat markerPath = .ok (.file content)) t := by
  refine wp_lstat ht (fun info hinfo => ?_) (fun _ => trivial) fun _ _ => trivial
  cases info with
  | dir =>
    refine wp_lstat ht (fun info' hinfo' => ?_) (fun _ => trivial) fun _ _ => trivial
    cases info' with
    | file content => exact ⟨rfl, hinfo, content, hinfo'⟩
    | dir => trivial
    | symlink target => trivial
    | special => trivial
  | file content => trivial
  | symlink target => trivial
  | special => trivial

theorem wp_readRepositoryOwnershipMarker (ht : (cleanupContract t₀ K).keeps t) (markerPath : Path) :
    (cleanupContract t₀ K).wp (readRepositoryOwnershipMarker markerPath) (fun marker t' => t' = t ∧
        ∀ m, marker = some m → readContent t markerPath = .ok (some m)) t := by
  have hnone : (cleanupContract t₀ K).wp (pure none : FsProg (Option RepositoryOwnershipMarker))
      (fun marker t' => t' = t ∧
        ∀ m, marker = some m → readContent t markerPath = .ok (some m)) t :=
    ⟨rfl, fun m hm => by simp at hm⟩
  refine wp_lstat ht (fun info _ => ?_) (fun _ => hnone) fun error herror => ?_
  · cases info with
    | dir =>
      refine wp_lstat ht (fun info' _ => ?_) (fun _ => hnone) fun error herror => ?_
      · cases info' with
        | file content =>
          refine wp_readFile ht fun content hcontent => ?_
          cases content with
          | none => trivial
          | some marker => exact ⟨rfl, fun m hm => Option.some.inj hm ▸ hcontent⟩
        | dir => trivial
        | symlink target => trivial
        | special => trivial
      · simp [herror]
    | file content => trivial
    | symlink target => trivial
    | special => trivial
  · simp [herror]

theorem wp_requireOwner (ht : (cleanupContract t₀ K).keeps t)
    (markerPath : Path) (missing : String) :
    (cleanupContract t₀ K).wp (requireOwner markerPath missing expected)
      (fun _ t' => t' = t ∧ ∀ owner, expected = some owner →
        readContent t markerPath = .ok (some (repositoryOwnershipMarkerFromSpec owner))) t := by
  cases expected with
  | none => exact ⟨rfl, fun owner howner => by simp at howner⟩
  | some owner =>
    refine Contract.wp_then (wp_readRepositoryOwnershipMarker ht markerPath)
      fun marker t' hmarker => ?_
    obtain ⟨rfl, hread⟩ := hmarker
    cases marker with
    | none => trivial
    | some m =>
      dsimp only
      unfold requireMatchingRepositoryOwner
      split
      · trivial
      · rename_i heq
        refine ⟨rfl, fun owner' howner => ?_⟩
        cases howner
        rw [← not_ne_iff.mp heq]
        exact hread m rfl

structure Site (t : FileSystem) (cleaned q : Path) (content : Option RepositoryOwnershipMarker) :
    Prop where
  located : t.locate cleaned = .ok q
  resolved : t.resolve cleaned = .ok q
  metadata : t.resolve (cleaned ++ [metadataName]) = .ok (q ++ [metadataName])
  marker : t.get (markerPlace q) = some (.file content)

variable {content : Option RepositoryOwnershipMarker}

theorem Site.dir (h : Site t cleaned q content) : t.get q = some .dir :=
  FsTree.get_of_prefix (List.append_assoc q _ _ ▸ h.marker :
    t.get (q ++ ([metadataName] ++ [markerName])) = some (.file content)) (by simp)

theorem Site.metadataDir (h : Site t cleaned q content) :
    t.get (q ++ [metadataName]) = some .dir := t.closed _ _ _ h.marker

theorem Site.locatedMetadata (h : Site t cleaned q content) :
    t.locate (cleaned ++ [metadataName]) = .ok (q ++ [metadataName]) :=
  FsTree.locate_snoc h.resolved h.dir

theorem Site.locatedMarker (h : Site t cleaned q content) :
    t.locate (cleaned ++ [metadataName] ++ [markerName]) = .ok (markerPlace q) :=
  FsTree.locate_snoc h.metadata h.metadataDir

theorem Site.of_lstat (hlocated : t.locate cleaned = .ok q) (hresolved : t.resolve cleaned = .ok q)
    (hdir : t.get q = some .dir) (hmetadata : t.lstat (cleaned ++ [metadataName]) = .ok .dir)
    (hmarker : t.lstat (cleaned ++ [metadataName] ++ [markerName]) = .ok (.file content)) :
    Site t cleaned q content := by
  obtain ⟨p, hp, hpdir⟩ := FsTree.lstat_eq_ok_iff.mp hmetadata
  obtain rfl := Except.ok.inj (hp.symm.trans (FsTree.locate_snoc hresolved hdir))
  have hwalk : t.resolve (cleaned ++ [metadataName]) = .ok (q ++ [metadataName]) :=
    FsTree.walk_snoc (by decide) hpdir (by simp) FsTree.maxLinks hresolved
  obtain ⟨p', hp', hfile⟩ := FsTree.lstat_eq_ok_iff.mp hmarker
  obtain rfl := Except.ok.inj (hp'.symm.trans (FsTree.locate_snoc hwalk hpdir))
  exact ⟨hlocated, hresolved, hwalk, hfile⟩

theorem Site.content_eq (h : Site t cleaned q content) {marker : RepositoryOwnershipMarker}
    (hread : readContent t (cleaned ++ [metadataName] ++ [markerName]) = .ok (some marker)) :
    content = some marker := by
  have hwalk : t.resolve (cleaned ++ [metadataName] ++ [markerName]) = .ok (markerPlace q) :=
    FsTree.walk_snoc (by decide) h.marker (by simp) FsTree.maxLinks h.metadata
  rw [readContent, hwalk] at hread
  simp only [h.marker] at hread
  exact Except.ok.inj hread

end Marker

/-! ## Removal -/

/-- The deletion with an owner: nothing is removed without the marker, and the marker
not before the rest. -/
abbrev fencedContract (t₀ : FileSystem) (path allowedRoot : List Char)
    (expected : Option RepositoryOwnership) : Contract FileSystem FsCall FsAnswer FsChoice :=
  cleanupContract t₀ fun t => ∃ q, IsRepository t₀ path allowedRoot q ∧ IsOwned t₀ q expected ∧
    (Intact t₀ q t ∨ MarkerOnly t₀ q t)

section Removal

variable {t₀ t : FileSystem} {K : FileSystem → Prop} {path allowedRoot : List Char}
  {expected : Option RepositoryOwnership} {cleaned q : Path}
  {content : Option RepositoryOwnershipMarker}

/-- What the checks have established before the first removal. -/
structure Checked (t₀ : FileSystem) (path allowedRoot : List Char)
    (expected : Option RepositoryOwnership) (cleaned q : Path)
    (content : Option RepositoryOwnershipMarker) : Prop where
  site : Site t₀ cleaned q content
  repository : IsRepository t₀ path allowedRoot q
  owned : IsOwned t₀ q expected

section

variable (h : Checked t₀ path allowedRoot expected cleaned q content)

include h

theorem Checked.keeps_intact
    (ht : Intact t₀ q t) : (fencedContract t₀ path allowedRoot expected).keeps t :=
  .inr ⟨q, h.repository, h.owned, .inl ht⟩

theorem Checked.keeps_markerOnly
    (ht : MarkerOnly t₀ q t) : (fencedContract t₀ path allowedRoot expected).keeps t :=
  .inr ⟨q, h.repository, h.owned, .inr ht⟩

/-- The entries of a directory of the repository are removed, but for the one on the
way to the marker. -/
theorem wp_removeOtherEntries (ht : Intact t₀ q t) {directory place : Path} {keep : Name}
    (hresolved : t₀.resolve directory = .ok place) (hdir : t₀.get place = some .dir)
    (hunder : q <+: place) (hmarker : ∀ n, n ≠ keep → ¬ place ++ [n] <+: markerPlace q)
    (entries : List Name) :
    (fencedContract t₀ path allowedRoot expected).wp (removeOtherEntries directory keep entries)
      (fun _ => Intact t₀ q) t := by
  refine Contract.wp_forM ht fun n _ t' ht' => ?_
  split
  · exact ht'
  · rename_i hn
    refine Contract.wp_then (wp_checkContext (h.keeps_intact ht')) fun _ t'' heq => ?_
    subst heq
    refine wp_removeTree ht' (fun _ => h.keeps_intact) fun p left hp => ?_
    obtain rfl := Except.ok.inj
      ((FsTree.locate_mono ht'.le hp).symm.trans (FsTree.locate_snoc hresolved hdir))
    exact ht'.prune (hunder.trans (List.prefix_append place [n])) (hmarker n hn) left

end

theorem names_of_readNames (ht : t.Le t₀) {directory place : Path} {names : List Name}
    (hresolved : t₀.resolve directory = .ok place) (hread : readNames t directory = .ok names) :
    t.names place = names := by
  unfold readNames at hread
  cases hr : t.resolve directory with
  | error error => simp [hr] at hread
  | ok p =>
    obtain rfl := Except.ok.inj ((FsTree.resolve_mono ht hr).symm.trans hresolved)
    simp only [hr] at hread
    split at hread
    · exact Except.ok.inj hread
    · simp at hread

theorem wp_requireOnlyName (ht : (cleanupContract t₀ K).keeps t) (directory : Path) (n : Name)
    (what : String) :
    (cleanupContract t₀ K).wp (requireOnlyName directory n what)
      (fun _ t' => t' = t ∧ readNames t directory = .ok [n]) t := by
  refine wp_readDir ht fun names hnames => ?_
  split
  · rename_i heq
    exact ⟨rfl, heq ▸ hnames⟩
  · trivial

theorem wp_requireOnlyRepositoryOwnershipMarker
    (h : Checked t₀ path allowedRoot expected cleaned q content) (ht : Intact t₀ q t) :
    (fencedContract t₀ path allowedRoot expected).wp
      (requireOnlyRepositoryOwnershipMarker cleaned (cleaned ++ [metadataName])
        (cleaned ++ [metadataName] ++ [markerName]))
      (fun _ => MarkerOnly t₀ q) t := by
  have hkeeps := h.keeps_intact ht
  refine Contract.wp_then (wp_requireRegularRepositoryOwnershipMarker hkeeps _ _) fun _ t₁ h₁ => ?_
  obtain rfl := h₁.1
  refine Contract.wp_then (wp_requireOnlyName hkeeps _ _ _) fun _ t₂ h₂ => ?_
  obtain ⟨rfl, hnames⟩ := h₂
  refine Contract.wp_mono (wp_requireOnlyName hkeeps _ _ _) fun _ t₃ h₃ => ?_
  obtain ⟨rfl, hmetadata⟩ := h₃
  exact ht.markerOnly h.site.marker (names_of_readNames ht.le h.site.resolved hnames)
    (names_of_readNames ht.le h.site.metadata hmetadata)

theorem wp_requireGone (ht : (cleanupContract t₀ K).keeps t) (p : Path) :
    (cleanupContract t₀ K).wp (requireGone p) (fun _ t' => t'.lstat p = .error .notExist) t := by
  refine wp_lstat ht (fun _ _ => trivial) (fun hstat => hstat) fun error herror => ?_
  simp [herror]

theorem wp_removeOwnedRepository (h : Checked t₀ path allowedRoot expected cleaned q content) :
    (fencedContract t₀ path allowedRoot expected).wp (removeOwnedRepository cleaned expected)
      (fun _ t => t.lstat cleaned = .error .notExist) t₀ := by
  have hmetadata : q <+: q ++ [metadataName] := List.prefix_append q _
  have hmarker : q <+: markerPlace q := hmetadata.trans (List.prefix_append _ _)
  refine wp_readDir keeps_start fun entries _ => ?_
  refine Contract.wp_then (wp_removeOtherEntries h (.start t₀ q) h.site.resolved h.site.dir
    (List.prefix_refl q) (fun n hn hpre => ?_) entries) fun _ t₁ h₁ => ?_
  · simp [markerPlace, hn] at hpre
  refine wp_readDir (h.keeps_intact h₁) fun metadataEntries _ => ?_
  refine Contract.wp_then (wp_removeOtherEntries h h₁ h.site.metadata h.site.metadataDir
    hmetadata (fun n hn hpre => ?_) metadataEntries) fun _ t₂ h₂ => ?_
  · simp [markerPlace, hn] at hpre
  refine Contract.wp_then (wp_checkContext (h.keeps_intact h₂)) fun _ t₃ h₃ => ?_
  subst h₃
  refine Contract.wp_then (wp_requireOnlyRepositoryOwnershipMarker h h₂) fun _ t₄ h₄ => ?_
  refine Contract.wp_then (wp_requireOwner (h.keeps_markerOnly h₄) _ _) fun _ t₅ h₅ => ?_
  obtain rfl := h₅.1
  -- from here on only the marker and its directories are removed
  refine Contract.wp_then (wp_removeTree h₄ (fun _ => h.keeps_markerOnly) fun p left hp => ?_)
    fun _ t₆ h₆ => ?_
  · obtain rfl := Except.ok.inj ((FsTree.locate_mono h₄.le hp).symm.trans h.site.locatedMarker)
    exact h₄.prune hmarker left
  refine Contract.wp_then (wp_removeDirectory h₆ (fun _ => h.keeps_markerOnly)
    fun p left hp => ?_) fun _ t₇ h₇ => ?_
  · obtain rfl := Except.ok.inj ((FsTree.locate_mono h₆.le hp).symm.trans h.site.locatedMetadata)
    exact h₆.prune hmetadata left
  refine Contract.wp_then (wp_removeDirectory h₇ (fun _ => h.keeps_markerOnly)
    fun p left hp => ?_) fun _ t₈ h₈ => ?_
  · obtain rfl := Except.ok.inj ((FsTree.locate_mono h₇.le hp).symm.trans h.site.located)
    exact h₇.prune (List.prefix_refl _) left
  exact wp_requireGone (h.keeps_markerOnly h₈) cleaned

theorem wp_deleteOwnedDirectory (hvalid : Validated t₀ path allowedRoot cleaned)
    {info : FileInfo} (hstat : t₀.lstat cleaned = .ok info) :
    (fencedContract t₀ path allowedRoot expected).wp (deleteOwnedDirectory cleaned expected info)
      (fun _ t => t.lstat cleaned = .error .notExist) t₀ := by
  cases info with
  | dir =>
    obtain ⟨q, hlocated, hdir⟩ := FsTree.lstat_eq_ok_iff.mp hstat
    have hplain : ∀ n ∈ cleaned, FsTree.IsPlain n := fun n hn =>
      isPlain_of_mem_clean (hvalid.eq ▸ hn)
    have hresolved := FsTree.resolve_of_locate hplain hlocated hdir (by simp)
    refine Contract.wp_then (wp_requireRegularRepositoryOwnershipMarker keeps_start _ _)
      fun _ t₁ h₁ => ?_
    obtain ⟨rfl, hmetadata, content, hmarker⟩ := h₁
    refine Contract.wp_then (wp_requireOwner keeps_start _ _) fun _ t₂ h₂ => ?_
    obtain ⟨rfl, howner⟩ := h₂
    have hsite := Site.of_lstat hlocated hresolved hdir hmetadata hmarker
    have hchecked : Checked t₂ path allowedRoot expected cleaned q content :=
      ⟨hsite, hvalid.isRepository hlocated hdir (by simp), content, hsite.marker,
        fun owner howner' => hsite.content_eq (howner owner howner')⟩
    exact Contract.wp_then (wp_removeOwnedRepository hchecked) fun _ t₃ h₃ => h₃
  | file content => trivial
  | symlink target => trivial
  | special => trivial

theorem wp_deleteOwnedManagedRepositoryPath (t₀ : FileSystem) (path allowedRoot : List Char)
    (expected : Option RepositoryOwnership) :
    (fencedContract t₀ path allowedRoot expected).wp
      (deleteOwnedManagedRepositoryPath path allowedRoot expected)
      (fun _ t => t.lstat (cleanupPath path) = .error .notExist) t₀ := by
  refine Contract.wp_then wp_validateRepositoryCleanupPath fun cleaned t₁ h₁ => ?_
  obtain ⟨rfl, hvalid⟩ := h₁
  refine Contract.wp_then (wp_checkContext keeps_start) fun _ t₂ h₂ => ?_
  subst h₂
  obtain rfl := hvalid.eq
  refine wp_lstat keeps_start (fun info hstat => ?_) (fun hstat => hstat) fun error herror => ?_
  · exact wp_deleteOwnedDirectory hvalid hstat
  · simp [herror]

end Removal

/-! ## Without a marker -/

section Managed

variable {t₀ : FileSystem} {path allowedRoot : List Char} {cleaned : Path}

/-- The deletion without an owner: nothing outside the repository is removed. -/
abbrev managedContract (t₀ : FileSystem) (path allowedRoot : List Char) :
    Contract FileSystem FsCall FsAnswer FsChoice :=
  cleanupContract t₀ fun t => ∃ q, IsRepository t₀ path allowedRoot q ∧ Inside t₀ q t

theorem wp_deleteManagedEntry (hvalid : Validated t₀ path allowedRoot cleaned)
    {info : FileInfo} (hstat : t₀.lstat cleaned = .ok info) :
    (managedContract t₀ path allowedRoot).wp (deleteManagedEntry cleaned info)
      (fun _ t => t.lstat cleaned = .error .notExist) t₀ := by
  obtain ⟨q, hlocated, hinfo⟩ := FsTree.lstat_eq_ok_iff.mp hstat
  have hremove : (∀ target, info ≠ .symlink target) → (managedContract t₀ path allowedRoot).wp
        ((removeTree cleaned).bind fun _ => checkContext.bind fun _ =>
          (requireGone cleaned).bind fun _ => .ret true)
        (fun _ t => t.lstat cleaned = .error .notExist) t₀ := by
    intro hlink
    have hrepository := hvalid.isRepository hlocated hinfo hlink
    have hkeeps : ∀ t, Inside t₀ q t → (managedContract t₀ path allowedRoot).keeps t :=
      fun t ht => .inr ⟨q, hrepository, ht⟩
    refine Contract.wp_then (wp_removeTree (.start t₀ q) hkeeps fun p left hp => ?_)
      fun _ t₁ h₁ => ?_
    · obtain rfl := Except.ok.inj (hp.symm.trans hlocated)
      exact (Inside.start t₀ _).prune (List.prefix_refl _) left
    refine Contract.wp_then (wp_checkContext (hkeeps t₁ h₁)) fun _ t₂ h₂ => ?_
    subst h₂
    exact Contract.wp_then (wp_requireGone (hkeeps _ h₁) cleaned) fun _ t₃ h₃ => h₃
  cases info with
  | symlink target => trivial
  | dir => exact hremove (by simp)
  | file content => exact hremove (by simp)
  | special => exact hremove (by simp)

theorem wp_deleteManagedRepositoryPath (t₀ : FileSystem) (path allowedRoot : List Char) :
    (managedContract t₀ path allowedRoot).wp (deleteManagedRepositoryPath path allowedRoot)
      (fun _ t => t.lstat (cleanupPath path) = .error .notExist) t₀ := by
  refine Contract.wp_then wp_validateRepositoryCleanupPath fun cleaned t₁ h₁ => ?_
  obtain ⟨rfl, hvalid⟩ := h₁
  refine Contract.wp_then (wp_checkContext keeps_start) fun _ t₂ h₂ => ?_
  subst h₂
  obtain rfl := hvalid.eq
  refine wp_lstat keeps_start (fun info hstat => ?_) (fun hstat => hstat) fun error herror => ?_
  · exact wp_deleteManagedEntry hvalid hstat
  · simp [herror]

end Managed

/-! ## Runs -/

section Runs

variable {t₀ : FileSystem} {path allowedRoot : List Char}

theorem run_of_wp {K : FileSystem → Prop} {program : FsProg Bool} {Q : Bool → FileSystem → Prop}
    (h : (cleanupContract t₀ K).wp program Q t₀) (choices : List FsChoice) :
    ((filesystem.run program t₀ choices).state = t₀ ∨ K (filesystem.run program t₀ choices).state) ∧
    ∀ existed, (filesystem.run program t₀ choices).outcome = .done existed →
      Q existed (filesystem.run program t₀ choices).state := by
  have hmeets : filesystem.Meets (fun _ _ _ => True) program t₀ choices :=
    .of_forall (fun _ _ _ _ => trivial) _ _
  exact (Contract.wp_sound h keeps_start hmeets).2

theorem staysInside_deleteManagedRepositoryPath (t₀ : FileSystem) (path allowedRoot : List Char)
    (choices : List FsChoice) :
    StaysInside t₀ path allowedRoot
      (filesystem.run (deleteManagedRepositoryPath path allowedRoot) t₀ choices) := by
  obtain ⟨hkeeps, hdone⟩ :=
    run_of_wp (wp_deleteManagedRepositoryPath t₀ path allowedRoot) choices
  refine ⟨fun p hp => ?_, hdone⟩
  rcases hkeeps with heq | ⟨q, hq, hinside⟩
  · exact absurd (congrArg (fun t => FsTree.get t p) heq) hp
  · refine ⟨q, hq, ?_⟩
    by_contra hout
    exact hp (hinside.outside p hout)

theorem fencedByMarker_deleteOwnedManagedRepositoryPath (t₀ : FileSystem)
    (path allowedRoot : List Char) (expected : Option RepositoryOwnership)
    (choices : List FsChoice) :
    FencedByMarker t₀ path allowedRoot expected
      (filesystem.run (deleteOwnedManagedRepositoryPath path allowedRoot expected) t₀ choices) := by
  obtain ⟨hkeeps, hdone⟩ :=
    run_of_wp (wp_deleteOwnedManagedRepositoryPath t₀ path allowedRoot expected) choices
  refine ⟨⟨fun p hp => ?_, hdone⟩, fun p hp => ?_, fun q p hq hp hsome => ?_⟩
  · rcases hkeeps with heq | ⟨q, hq, -, hphase⟩
    · exact absurd (congrArg (fun t => FsTree.get t p) heq) hp
    · refine ⟨q, hq, ?_⟩
      by_contra hout
      exact hp (hphase.elim (fun h => h.outside p hout) fun h => h.outside p hout)
  · rcases hkeeps with heq | ⟨q, hq, howned, -⟩
    · exact absurd (congrArg (fun t => FsTree.get t p) heq) hp
    · exact ⟨q, hq, howned⟩
  · rcases hkeeps with heq | ⟨q', hq', -, hphase⟩
    · exact congrArg (fun t => FsTree.get t (markerPlace q)) heq
    · obtain rfl := Except.ok.inj (hq'.located.symm.trans hq.located)
      exact hphase.elim (fun h => h.marker) fun h => absurd (h.none_other p hp) hsome

end Runs

/-- The deletion of a repository stays inside it in every run, and is fenced by the
marker when it has an owner. -/
theorem deleteRepository_fenced (t₀ : FileSystem) (path allowedRoot : List Char)
    (ownership : Option RepositoryOwnership) (choices : List FsChoice) :
    StaysInside t₀ path allowedRoot
      (filesystem.run (deleteRepository path allowedRoot ownership) t₀ choices) ∧
    ∀ owner, ownership = some owner → FencedByMarker t₀ path allowedRoot (some owner)
      (filesystem.run (deleteRepository path allowedRoot ownership) t₀ choices) := by
  cases ownership with
  | none =>
    exact ⟨staysInside_deleteManagedRepositoryPath t₀ path allowedRoot choices,
      fun owner howner => by simp at howner⟩
  | some owner =>
    have hfenced := fencedByMarker_deleteOwnedManagedRepositoryPath t₀ path allowedRoot
      (some owner) choices
    refine ⟨hfenced.toStaysInside, fun owner' howner => ?_⟩
    cases howner
    exact hfenced

def legacyRepository : FileSystem :=
  .ofEntries [([], .dir), (["nas".toList], .dir), (["nas".toList, "hfl".toList], .dir),
    (["nas".toList, "hfl".toList, "kopia.repository".toList], .file none)]
    (by decide) (by decide)

theorem deleteRepository_legacyRepository :
    ¬ FencedByMarker legacyRepository "/nas/hfl".toList "/nas".toList none
      (filesystem.run (deleteRepository "/nas/hfl".toList "/nas".toList none) legacyRepository
        (List.replicate 7 {})) := by
  intro h
  obtain ⟨q, hq, content, hmarker, -⟩ :=
    h.fenced ["nas".toList, "hfl".toList] (by decide +kernel)
  obtain rfl : ["nas".toList, "hfl".toList] = q := by
    have hlocated : legacyRepository.locate (cleanupPath "/nas/hfl".toList) =
        .ok ["nas".toList, "hfl".toList] := by decide
    exact Except.ok.inj (hlocated.symm.trans hq.located)
  have hnone : legacyRepository.get (markerPlace ["nas".toList, "hfl".toList]) = none := by
    decide
  exact absurd (hnone.symm.trans hmarker) (by simp)

end HyperFileLens.Cleanup
