import HyperFileLens.Lens.WorkspaceEstate

/-!
# Managed workspaces stay with their identities

Preparation and cleanup of workspaces that lie apart, in every interleaving and with
runs that stop anywhere.

*Programs.*  Under the lock, a run sees the contents of its workspace as they are until it
changes them itself (`Sees`). Followed with what it sees, every program makes only
guarded calls.

*Runs.*  A tombstone that was written stays, of a retired workspace nothing is left, a
preparation that succeeds hands out a directory that was made for its identity, and a
cleanup moves and removes only such directories (`workspaces_honest`).
-/

namespace HyperFileLens.Lens

open Service FileTree FilePath Transition

/-! ## Programs of a run -/

/-- A program makes only guarded calls, and what it returns has a property. -/
abbrev Works (E : Estate) (i : Nat) {α : Type} (p : LensProg α) (Q : α → LensStore → Prop)
    (s : LensStore) : Prop :=
  (estateRely E).Safe lensHost i (fun (_ : String) _ => True) p Q s

def Stable (E : Estate) (i : Nat) (A : LensStore → Prop) : Prop :=
  ∀ s s', A s → Owned E s' → Waits E i s s' → A s'

section Rules

variable {E : Estate} {i : Nat} {s : LensStore} {A : LensStore → Prop} {α β : Type}
  {Q : β → LensStore → Prop}

variable {f : α → LensProg β}

variable {p : LensProg α} {R : α → LensStore → Prop}

theorem works_then (hp : Works E i p R s) (hf : ∀ a t, R a t → Works E i (f a) Q t) :
    Works E i (p.bind f) Q s :=
  .andThen hp hf

theorem works_attempt {f : Except String α → LensProg β} (hp : Works E i p R s)
    (hok : ∀ a t, R a t → Works E i (f (.ok a)) Q t)
    (herror : ∀ e t, Works E i (f (.error e)) Q t) : Works E i (p.attempt.bind f) Q s := by
  refine .andThen (P := fun x t => ∀ a, x = .ok a → R a t) (.attempt ?_) fun x t hx => ?_
  · refine hp.mono (fun e t _ a ha => nomatch ha) fun a t ha b hb => ?_
    cases hb
    exact ha
  · cases x with
    | error e => exact herror e t
    | ok a => exact hok a t (hx a rfl)

theorem works_call (hA : Stable E i A) {r : LensCall} {f : LensAnswer r → LensProg β} (hs : A s)
    (hguard : ∀ t, A t → Owned E t → Guard E i t r)
    (hf : ∀ t c, A t → Owned E t →
      Works E i (f (lensHost.respond i t r c).1) Q (lensHost.respond i t r c).2) :
    Works E i ((Prog.request r : Prog LensCall LensAnswer String (LensAnswer r)).bind f) Q s := by
  intro t howned hwaits
  have ht := hA s t hs howned hwaits
  exact ⟨hguard t ht howned, fun c => hf t c ht howned⟩

theorem works_orFail {x : Except LensError α} (hok : ∀ a, x = .ok a → Works E i (f a) Q s) :
    Works E i ((orFail x).bind f) Q s := by
  cases x with
  | error e => trivial
  | ok a => exact hok a rfl

theorem works_last {x : Except LensError β} (hok : ∀ a, x = .ok a → Q a s) :
    Works E i (orFail x) Q s := by
  cases x with
  | error e => trivial
  | ok a => exact hok a rfl

theorem works_orRaise {x : Except String α} (hok : ∀ a, x = .ok a → Works E i (f a) Q s) :
    Works E i ((orRaise x).bind f) Q s := by
  cases x with
  | error e => trivial
  | ok a => exact hok a rfl

theorem works_checkContext (hA : Stable E i A) (hs : A s) (message : Option String)
    {f : Unit → LensProg β} (hf : ∀ t, A t → Works E i (f ()) Q t) :
    Works E i ((checkContext message).bind f) Q s := by
  refine works_call hA hs (fun _ _ _ => trivial) fun t c ht _ => ?_
  generalize (lensHost.respond i t .ctxErr c).1 = err
  cases err with
  | some error => trivial
  | none => exact hf t ht

end Rules

/-! ## Directories -/

variable {p : Path} {c : LensChoice} {s : LensStore}

variable {t : FsTree LensFile} {e : LensError} {E : Estate} {i : Nat}

theorem openDir_eq_ok (h : openDir t p = .ok ()) : t.get p = some .dir := by
  rw [openDir] at h
  split at h
  · rename_i hdir
    exact FsTree.hasDir_iff.mp hdir
  · split at h <;> cases h

theorem LensChoice.eq_ok_of_answer {α : Type} {answer : Except LensError α} {a : α}
    (h : c.answer answer = .ok a) : answer = .ok a := by
  rw [LensChoice.answer] at h
  split at h
  · cases h
  · exact h

section Directories

variable {E : Estate} {i : Nat} {s : LensStore} {A : LensStore → Prop} {β : Type}
  {Q : β → LensStore → Prop} {who : Option LensWorkspaceIdentity} {whole : Path}

theorem works_openDirectory (hA : Stable E i A) (hs : A s) (p : Path)
    {f : Except LensError Unit → LensProg β}
    (hok : ∀ t, A t → t.tree.get p = some .dir → Works E i (f (.ok ())) Q t)
    (herror : ∀ t e, A t → Works E i (f (.error e)) Q t) :
    Works E i ((openDirectory p).bind f) Q s := by
  refine works_call hA hs (fun _ _ _ => trivial) fun t c ht _ => ?_
  show Works E i (f (c.answer (openDir t.tree p))) Q t
  cases hopen : c.answer (openDir t.tree p) with
  | error e => exact herror t e ht
  | ok _ => exact hok t ht (openDir_eq_ok (LensChoice.eq_ok_of_answer hopen))

theorem works_ensureComponents (hA : Stable E i A)
    (hguard : ∀ p, p <+: whole → ∀ t, A t → Owned E t → Guard E i t (.mkdirat p who))
    (hkeep : ∀ p, p <+: whole → ∀ t c, A t → Owned E t →
      A (lensHost.respond i t (.mkdirat p who) c).2)
    {current : Path} {rest : List Name} (hwhole : current ++ rest = whole) (created : Bool)
    (hs : A s) (hend : rest = [] → s.tree.get whole = some .dir) :
    Works E i (ensureComponents who current rest created)
      (fun _ t => A t ∧ t.tree.get whole = some .dir) s := by
  induction rest generalizing current created s with
  | nil => exact ⟨hs, hend rfl⟩
  | cons n rest ih =>
    rw [List.append_cons] at hwhole
    have hnext : ∀ {t}, A t → t.tree.get (current ++ [n]) = some .dir → ∀ created,
        Works E i (ensureComponents who (current ++ [n]) rest created)
          (fun _ t => A t ∧ t.tree.get whole = some .dir) t := by
      intro t ht hdir created
      refine ih hwhole created ht ?_
      rintro rfl
      rwa [← hwhole, List.append_nil]
    have hagain : ∀ {t}, A t → Works E i (do
        let next ← openDirectory (current ++ [n])
        orFail next
        ensureComponents who (current ++ [n]) rest true)
          (fun _ t => A t ∧ t.tree.get whole = some .dir) t := fun {t} ht =>
      works_openDirectory hA ht _ (fun t ht hdir => works_orFail fun _ _ => hnext ht hdir true)
        fun t e _ => trivial
    have habove : current ++ [n] <+: whole := hwhole ▸ List.prefix_append _ _
    refine works_openDirectory hA hs _ (fun t ht hdir => hnext ht hdir created) fun t e ht => ?_
    dsimp only
    split
    · refine works_call hA ht (hguard _ habove) fun t' c ht' howned => ?_
      have ht'' := hkeep _ habove t' c ht' howned
      generalize (lensHost.respond i t' (.mkdirat (current ++ [n]) who) c).2 = t'' at ht'' ⊢
      generalize (lensHost.respond i t' (.mkdirat (current ++ [n]) who) c).1 = made
      cases made with
      | ok _ => exact hagain ht''
      | error e =>
        dsimp only
        split
        · exact hagain ht''
        · trivial
    · trivial

/-- `secureEnsureDirectory` of a path that may be made. -/
theorem works_secureEnsureDirectory (hA : Stable E i A) {base : Path}
    (htidy : IsTidy whole base) (hne : whole ≠ base)
    (hguard : ∀ p, p <+: whole → ∀ t, A t → Owned E t → Guard E i t (.mkdirat p who))
    (hkeep : ∀ p, p <+: whole → ∀ t c, A t → Owned E t →
      A (lensHost.respond i t (.mkdirat p who) c).2) (hs : A s) :
    Works E i (secureEnsureDirectory whole base who)
      (fun r t => A t ∧ t.tree.get whole = some .dir ∧ r.1 = whole) s := by
  rw [secureEnsureDirectory, htidy.1]
  refine works_openDirectory hA hs base (fun t ht _ => ?_) fun t e _ => trivial
  refine works_then (works_ensureComponents hA hguard hkeep htidy.2 false ht fun hnil => ?_)
    fun created t' ht' => ⟨ht'.1, ht'.2, htidy.2⟩
  exact absurd (by rw [← htidy.2, hnil, List.append_nil]) hne

end Directories

/-! ## The layout -/

def Dirs (ds : List Path) (s : LensStore) : Prop := ∀ d ∈ ds, s.tree.get d = some .dir

section Layout

variable {E : Estate} {i : Nat} {s : LensStore} {ds : List Path}

variable {p : Path}

theorem stable_dirs (hds : ∀ d ∈ ds, Free E d) : Stable E i (Dirs ds) :=
  fun _ _ hs _ hwaits d hd => hwaits.dirs d (hds d hd) (hs d hd)

theorem Free.of_prefix {d : Path} (h : Free E d) (hp : p <+: d) : Free E p :=
  fun hP a ha hap => h hP a ha (hap.trans hp)

theorem dirs_mkdirat {who : Option LensWorkspaceIdentity} {c : LensChoice} (h : Dirs ds s) :
    Dirs ds (lensHost.respond i s (.mkdirat p who) c).2 := by
  rcases change_cases s c (s.tree.mkdir p) (LensStore.made p who) with heq | ⟨t, ht, heq⟩
  · exact heq.symm ▸ h
  · obtain ⟨hnone, -, rfl⟩ := FsTree.mkdir_eq_ok ht
    have hdirs : Dirs ds (LensStore.made p who { s with tree := s.tree.put p .dir }) := by
      intro d hd
      have hne : d ≠ p := by
        rintro rfl
        exact nomatch hnone.symm.trans (h d hd)
      exact (FsTree.get_put_of_ne hne).trans (h d hd)
    exact heq.symm ▸ hdirs

theorem works_ensureLensMetadataDirectory {base path : Path} (hds : ∀ d ∈ ds, Free E d)
    (hpath : Free E path) (htidy : IsTidy path base) (hne : path ≠ base) (hs : Dirs ds s) :
    Works E i (ensureLensMetadataDirectory base path) (fun _ t => Dirs (path :: ds) t) s := by
  refine works_attempt (works_secureEnsureDirectory (stable_dirs hds) htidy hne
    (fun p hp _ _ _ => .inl (hpath.of_prefix hp)) (fun p _ t c ht _ => dirs_mkdirat ht) hs)
    (fun r t ht => ?_) fun e t => trivial
  have hall : Dirs (path :: ds) t := fun d hd => by
    rcases List.mem_cons.mp hd with rfl | hd
    · exact ht.2.1
    · exact ht.1 d hd
  refine works_call (stable_dirs fun d hd => ?_) hall (fun _ _ _ => trivial) fun t' c ht' _ => ?_
  · rcases List.mem_cons.mp hd with rfl | hd
    · exact hpath
    · exact hds d hd
  · generalize (lensHost.respond i t' (.chmod path) c).1 = changed
    cases changed with
    | error e => trivial
    | ok _ => exact ht'

end Layout

/-! ## The view under the lock -/

/-- The paths of a payload, as far as the runs use them. -/
structure LensWorkspacePaths.Regular (P : LensWorkspacePaths) : Prop where
  identity : ∃ n, P.identity = P.identityRoot ++ [n]
  tombstone : ∃ n, P.tombstone = P.tombstoneRoot ++ [n]
  lock : ∃ n, P.lock = P.lockRoot ++ [n]
  trash : ∃ n, P.trash = P.trashRoot ++ [n]
  trashRoot : ∃ n, P.trashRoot = P.root ++ [n]
  workspace : P.workspace ≠ P.root
  layout : ∀ d ∈ P.layout, d ≠ P.root.dropLast ∧ ∃ a ∈ P.places, d <+: a ∧ d ≠ a
  plain : ∀ a ∈ P.contents, ∀ n ∈ a, FsTree.IsPlain n

/-- What a run that holds the lock knows of the contents of its workspace. -/
structure View where
  workspace : Option (Entry LensFile)
  identity : Option (Entry LensFile)
  tombstone : Option (Entry LensFile)
  maker : Option LensWorkspaceIdentity
  trashGone : Bool := false

/-- A run holds the lock, and the contents of its workspace are what it knows. -/
structure Sees (i : Nat) (P : LensWorkspacePaths) (v : View) (s : LensStore) : Prop where
  lock : s.holder P.lock = some i
  workspace : s.tree.get P.workspace = v.workspace
  identity : s.tree.get P.identity = v.identity
  tombstone : s.tree.get P.tombstone = v.tombstone
  maker : s.maker P.workspace = v.maker
  trash : v.trashGone = true → s.tree.get P.trash = none
  dirs : Dirs P.layout s

section View

variable {E : Estate} {i : Nat} {u : String} {P : LensWorkspacePaths} {v : View} {s : LensStore}
  {β : Type} {Q : β → LensStore → Prop}

variable {t : FsTree LensFile} {p : Path}

variable {c : LensChoice} {e : LensError} {d : Path} {n : Name}

theorem free_layout (hP : E.site u = some P) (hregular : P.Regular) : ∀ d ∈ P.layout, Free E d := by
  intro d hd
  obtain ⟨-, a, ha, habove, hne⟩ := hregular.layout d hd
  exact E.free_of_prefix hP ha habove hne

theorem stable_sees (hP : E.site u = some P) (hregular : P.Regular) : Stable E i (Sees i P v) := by
  intro s s' hs _ hwaits
  obtain ⟨hworkspace, hidentity, htombstone, hmaker, htrash⟩ := hwaits.held hP hs.lock
  exact {
    lock := hwaits.holder _ hs.lock
    workspace := hworkspace.trans hs.workspace
    identity := hidentity.trans hs.identity
    tombstone := htombstone.trans hs.tombstone
    maker := hmaker.trans hs.maker
    trash := fun hgone => htrash (hs.trash hgone)
    dirs := fun d hd => hwaits.dirs d (free_layout hP hregular d hd) (hs.dirs d hd) }

theorem get_none_of_lstat (hplain : ∀ n ∈ p, FsTree.IsPlain n)
    (h : c.answer (ofLookup (t.lstat p)) = .error e) (he : e.isNotExist = true) :
    t.get p = none := by
  cases hget : t.get p with
  | none => rfl
  | some entry =>
    rw [FsTree.lstat_of_get hplain hget] at h
    rw [LensChoice.answer] at h
    split at h
    · obtain rfl := Except.error.inj h
      cases he
    · cases h

theorem get_of_lstat {e : Entry LensFile} (hplain : ∀ m ∈ d, FsTree.IsPlain m)
    (hdir : t.get d = some .dir) (h : c.answer (ofLookup (t.lstat (d ++ [n]))) = .ok e) :
    t.get (d ++ [n]) = some e := by
  have hlstat := LensChoice.eq_ok_of_answer h
  rw [FsTree.lstat_of_dir hplain hdir] at hlstat
  cases hget : t.get (d ++ [n]) with
  | none =>
    rw [hget] at hlstat
    cases hlstat
  | some entry =>
    rw [hget] at hlstat
    exact congrArg some (Except.ok.inj hlstat)

theorem readContent_eq {content : LensFile} (hplain : ∀ n ∈ p, FsTree.IsPlain n)
    (h : t.get p = some (.file content)) : readContent t p = .ok content := by
  have hresolve := FsTree.resolve_of_get hplain h fun _ heq => nomatch heq
  simp only [readContent, hresolve, h]

variable {A : LensStore → Prop}

theorem works_pathMissing (hA : Stable E i A) (hplain : ∀ n ∈ p, FsTree.IsPlain n) (hs : A s) :
    Works E i (pathMissing p) (fun missing t => A t ∧ (missing = true → t.tree.get p = none)) s := by
  refine works_call hA hs (fun _ _ _ => trivial) fun t c ht _ => ?_
  generalize hanswer : (lensHost.respond i t (.lstat p) c).1 = info
  cases info with
  | ok e => exact ⟨ht, fun h => nomatch h⟩
  | error e => exact ⟨ht, get_none_of_lstat hplain hanswer⟩

/-- What was read of a file, which is either missing, or there with its content. -/
structure ReadOf {α : Type} (found : α → Prop) (missing : Prop) (r : Except LensError α) : Prop where
  ok : ∀ {a}, r = .ok a → found a
  error : ∀ {e}, r = .error e → e.isNotExist = true → missing

variable {missing : Prop}

theorem ReadOf.of_ok {α : Type} {found : α → Prop} {a : α} (h : found a) :
    ReadOf found missing (.ok a) :=
  ⟨fun heq => Except.ok.inj heq ▸ h, fun heq => nomatch heq⟩

theorem ReadOf.of_error {α : Type} {found : α → Prop} (h : e.isNotExist = true → missing) :
    ReadOf found missing (.error e) where
  ok heq := nomatch heq
  error heq := by
    obtain rfl := Except.error.inj heq
    exact h

theorem ReadOf.of_other {α : Type} {found : α → Prop} {message : String} :
    ReadOf found missing (.error (.other message)) := .of_error fun h => nomatch h

theorem works_readRegular (hA : Stable E i A) {x : Option (Entry LensFile)}
    (hplain : ∀ m ∈ d ++ [n], FsTree.IsPlain m) (hdir : ∀ t, A t → t.tree.get d = some .dir)
    (hsame : ∀ t, A t → t.tree.get (d ++ [n]) = x) (hs : A s) (what : String) :
    Works E i (readRegular (d ++ [n]) what)
      (fun r t => A t ∧ ReadOf (fun content => x = some (.file content)) (x = none) r) s := by
  refine works_call hA hs (fun _ _ _ => trivial) fun t c ht _ => ?_
  generalize hanswer : (lensHost.respond i t (.lstat (d ++ [n])) c).1 = info
  cases info with
  | error e =>
    exact ⟨ht, .of_error fun he => (hsame t ht).symm.trans (get_none_of_lstat hplain hanswer he)⟩
  | ok entry =>
    cases entry with
    | dir => exact ⟨ht, .of_other⟩
    | symlink target => exact ⟨ht, .of_other⟩
    | special => exact ⟨ht, .of_other⟩
    | file content =>
      have hx : x = some (.file content) := (hsame t ht).symm.trans
        (get_of_lstat (fun m hm => hplain m (List.mem_append_left _ hm)) (hdir t ht) hanswer)
      intro t' howned hwaits
      have ht' := hA t t' ht howned hwaits
      refine ⟨trivial, fun c' => ⟨ht', ?_⟩⟩
      show ReadOf _ _ (c'.answer (readContent t'.tree (d ++ [n])))
      rw [readContent_eq hplain ((hsame t' ht').trans hx), LensChoice.answer.eq_def]
      split
      · exact .of_other
      · exact .of_ok hx

theorem empty_ne_state :
    "" ≠ lensWorkspaceTombstoneRetiring ∧ "" ≠ lensWorkspaceTombstoneRetired := by decide

theorem works_readTombstone (hP : E.site u = some P) (hregular : P.Regular) (hs : Sees i P v s) :
    Works E i (readLensWorkspaceTombstone P.tombstone)
      (fun r t => Sees i P v t ∧ ReadOf (fun T => v.tombstone = some (.file (.tombstone T)) ∧
        (T.state = lensWorkspaceTombstoneRetiring ∨ T.state = lensWorkspaceTombstoneRetired))
        (v.tombstone = none) r) s := by
  obtain ⟨n, hn⟩ := hregular.tombstone
  have hplain := hregular.plain _ P.tombstone_mem
  rw [hn] at hplain ⊢
  refine works_then (works_readRegular (stable_sees hP hregular) hplain
    (fun t ht => ht.dirs _ (by simp [LensWorkspacePaths.layout]))
    (fun t ht => hn ▸ ht.tombstone) hs "tombstone") fun r t ⟨ht, hr⟩ => ?_
  cases r with
  | error e => exact ⟨ht, .of_error (hr.error rfl)⟩
  | ok content =>
    cases content with
    | torn => exact ⟨ht, .of_other⟩
    | identity value =>
      show Works E i (ite _ _ _ : LensProg (Except LensError LensWorkspaceTombstone)) _ t
      rw [if_pos (.inr empty_ne_state)]
      exact ⟨ht, .of_other⟩
    | tombstone T =>
      show Works E i (ite _ _ _ : LensProg (Except LensError LensWorkspaceTombstone)) _ t
      split
      · exact ⟨ht, .of_other⟩
      · rename_i hvalid
        refine ⟨ht, .of_ok ⟨hr.ok rfl, ?_⟩⟩
        rcases em (T.state = lensWorkspaceTombstoneRetiring) with h | h
        · exact .inl h
        · exact .inr (not_not.mp fun h' => hvalid (.inr ⟨h, h'⟩))

theorem works_readIdentity (hP : E.site u = some P) (hregular : P.Regular) (hs : Sees i P v s) :
    Works E i (readLensWorkspaceIdentity P.identity)
      (fun r t => Sees i P v t ∧ ReadOf (fun I => I.workspaceUID ≠ "" →
        v.identity = some (.file (.identity I))) (v.identity = none) r) s := by
  obtain ⟨n, hn⟩ := hregular.identity
  have hplain := hregular.plain _ P.identity_mem
  rw [hn] at hplain ⊢
  refine works_then (works_readRegular (stable_sees hP hregular) hplain
    (fun t ht => ht.dirs _ (by simp [LensWorkspacePaths.layout]))
    (fun t ht => hn ▸ ht.identity) hs "identity") fun r t ⟨ht, hr⟩ => ?_
  cases r with
  | error e => exact ⟨ht, .of_error (hr.error rfl)⟩
  | ok content =>
    cases content with
    | torn => exact ⟨ht, .of_other⟩
    | identity I => exact ⟨ht, .of_ok fun _ => hr.ok rfl⟩
    | tombstone T => exact ⟨ht, .of_ok fun hne => absurd rfl hne⟩

end View

/-! ## Preparation -/

theorem puttable_of_file {content content' : LensFile} (h : t.get p = some (.file content)) :
    t.Puttable p (.file content') := by
  have hdir : t.get p ≠ some .dir := fun heq => nomatch h.symm.trans heq
  have hne : p ≠ [] := by
    rintro rfl
    exact hdir t.get_root
  refine ⟨hne, ?_, .inr (FsTree.names_of_not_dir hdir)⟩
  obtain ⟨q, n, rfl⟩ : ∃ q n, p = q ++ [n] :=
    ⟨p.dropLast, p.getLast hne, (List.dropLast_append_getLast hne).symm⟩
  rw [List.dropLast_concat]
  exact FsTree.hasDir_iff.mpr (t.closed q n _ h)

theorem write_cases {content : LensFile} (h : s.tree.get p = some (.file content))
    (content' : LensFile) (c : LensChoice) :
    (∃ message, s.write p content' c = (.error (.other message), s)) ∨
      s.write p content' c = (.ok (), { s with tree := s.tree.put p (.file content') }) := by
  rw [LensStore.write, h]
  cases c.error with
  | some message => exact .inl ⟨message, rfl⟩
  | none => exact .inr rfl

theorem isExist_of_create {content : LensFile} (hnone : s.tree.get p = none)
    (h : (s.change c (s.tree.create p content) id).1 = .error e) : e.isExist = false := by
  rw [LensStore.change.eq_def] at h
  split at h
  · obtain rfl := Except.error.inj h
    rfl
  · rename_i error _ hcreate
    obtain rfl := Except.error.inj h
    rw [FsTree.create, hnone] at hcreate
    simp only [Option.isSome_none, Bool.false_eq_true, if_false] at hcreate
    split at hcreate
    · cases hcreate
    · obtain rfl := Except.error.inj hcreate
      rw [FsTree.parentError]
      split <;> rfl
  · cases h

/-- `Sync` and `Close`. -/
theorem works_settle {A : LensStore → Prop} (hA : Stable E i A) (hs : A s) (p : Path) :
    Works E i (settle p) (fun r t => A t ∧ ∀ e, r = .error e → e.isExist = false) s := by
  intro t howned hwaits
  refine ⟨trivial, fun c => ⟨hA s t hs howned hwaits, fun e he => ?_⟩⟩
  rw [show (lensHost.respond i t (.settle p) c).1 = c.answer (.ok ()) from rfl,
    LensChoice.answer.eq_def] at he
  split at he
  · obtain rfl := Except.error.inj he
    rfl
  · cases he

section Prepare

variable {E : Estate} {i : Nat} {P : LensWorkspacePaths} {v : View} {s : LensStore}
  {I : LensWorkspaceIdentity} (hP : E.site I.workspaceUID = some P) (hregular : P.Regular)

include hP hregular

/-- A file that a run writes under the lock leaves the rest of what it sees. -/
theorem sees_put_identity (hs : Sees i P v s) {e : Entry LensFile}
    (hput : s.tree.Puttable P.identity e) :
    Sees i P { v with identity := some e } { s with tree := s.tree.put P.identity e } := by
  obtain ⟨-, -, ⟨hw, ht, hts⟩, -⟩ := E.contents_apart hP
  have hget : ∀ {a}, ¬ P.identity <+: a → (s.tree.put P.identity e).get a = s.tree.get a :=
    fun ha => FsTree.get_put_of_ne (ne_of_outside ha)
  exact {
    lock := hs.lock
    workspace := (hget hw).trans hs.workspace
    identity := FsTree.get_put_self hput
    tombstone := (hget hts).trans hs.tombstone
    maker := hs.maker
    trash := fun hgone => (hget ht).trans (hs.trash hgone)
    dirs := fun d hd => (hget (free_layout hP hregular d hd hP _
      (P.places_of_contents P.identity_mem))).trans (hs.dirs d hd) }

theorem works_validateIdentity (hI : I.workspaceUID ≠ "") (hs : Sees i P v s) :
    Works E i (validateLensWorkspaceIdentity P.identity I)
      (fun _ t => Sees i P v t ∧ v.identity = some (.file (.identity I))) s := by
  refine works_then (works_readIdentity hP hregular hs) fun r t ⟨ht, hr⟩ => ?_
  cases r with
  | error e => trivial
  | ok existing =>
    show Works E i (ite _ _ _ : LensProg Unit) _ t
    split
    · trivial
    · rename_i hsame
      obtain rfl := not_not.mp hsame
      exact ⟨ht, hr.ok rfl hI⟩

theorem works_fillIdentity (hworkspace : v.workspace = none)
    (htombstone : ∀ T, v.tombstone ≠ some (.file (.tombstone T)))
    (hs : Sees i P { v with identity := some (.file .torn) } s) :
    Works E i (fillLensWorkspaceIdentity P.identity I) (fun r t =>
      (∃ e, Sees i P { v with identity := some e } t) ∧
      (r = .ok () → Sees i P { v with identity := some (.file (.identity I)) } t) ∧
      ∀ e, r = .error e → e.isExist = false) s := by
  refine works_call (stable_sees hP hregular) hs (fun t ht _ =>
    ⟨_, P, hP, rfl, ht.lock, ht.workspace.trans hworkspace, ht.tombstone ▸ htombstone⟩)
    fun t c ht _ => ?_
  rcases write_cases ht.identity (.identity I) c with ⟨message, heq⟩ | heq
  · rw [show lensHost.respond i t (.write P.identity (.identity I)) c = _ from heq]
    refine ⟨⟨_, ht⟩, fun h => (nomatch h), fun e he => ?_⟩
    obtain rfl := Except.error.inj he
    rfl
  · rw [show lensHost.respond i t (.write P.identity (.identity I)) c = _ from heq]
    have hwhole : Sees i P { v with identity := some (.file (.identity I)) }
        { t with tree := t.tree.put P.identity (.file (.identity I)) } :=
      sees_put_identity hP hregular ht (puttable_of_file ht.identity)
    refine works_then (works_settle (stable_sees hP hregular) hwhole P.identity)
      fun r t' ⟨ht', hr⟩ => ?_
    cases r with
    | error e =>
      refine ⟨⟨_, ht'⟩, fun h => (nomatch h), fun e' he' => ?_⟩
      obtain rfl := Except.error.inj he'
      exact hr e rfl
    | ok _ =>
      refine (works_settle (stable_sees hP hregular) ht' P.identity).mono
        (fun _ _ _ => trivial) fun r t'' ⟨ht'', hr'⟩ => ?_
      exact ⟨⟨_, ht''⟩, fun _ => ht'', hr'⟩

omit hP hregular in
theorem trash_none (howned : OwnedAt P s)
    (htombstone : ∀ T, s.tree.get P.tombstone ≠ some (.file (.tombstone T))) :
    s.tree.get P.trash = none := by
  cases hget : s.tree.get P.trash with
  | none => rfl
  | some e =>
    obtain ⟨T, hT, -⟩ := howned.trashed hget
    exact absurd hT (htombstone T)

theorem works_writeIdentity (hworkspace : v.workspace = none) (hidentity : v.identity = none)
    (htombstone : ∀ T, v.tombstone ≠ some (.file (.tombstone T))) (hs : Sees i P v s) :
    Works E i (writeLensWorkspaceIdentity P.identity I) (fun r t =>
      (r = .ok () → Sees i P { v with identity := some (.file (.identity I)) } t) ∧
      ∀ e, r = .error e → e.isExist = false) s := by
  refine works_call (stable_sees hP hregular) hs (fun t ht _ =>
    ⟨_, P, hP, rfl, ht.lock, ht.workspace.trans hworkspace, ht.tombstone ▸ htombstone⟩)
    fun t c ht _ => ?_
  generalize hcreated : (lensHost.respond i t (.createExclusive P.identity) c).1 = created
  cases created with
  | error e =>
    refine ⟨fun h => (nomatch h), fun e' he' => ?_⟩
    obtain rfl := Except.error.inj he'
    exact isExist_of_create (ht.identity.trans hidentity) hcreated
  | ok _ =>
    obtain ⟨tree, hcreate, heq⟩ := change_eq_ok hcreated
    obtain ⟨-, hput, rfl⟩ := FsTree.create_eq_ok hcreate
    have htorn := sees_put_identity hP hregular ht hput
    refine works_then (works_fillIdentity hP hregular hworkspace htombstone (heq ▸ htorn))
      fun r t' ⟨⟨entry, hsees⟩, hok, herror⟩ => ?_
    cases r with
    | ok _ => exact ⟨fun _ => hok rfl, fun e he => nomatch he⟩
    | error e =>
      refine works_call (stable_sees hP hregular) hsees (fun t ht howned => ?_)
        fun _ _ _ _ => ⟨fun h => (nomatch h), fun e' he' => ?_⟩
      · exact ⟨_, P, hP, rfl, ht.lock, ht.workspace.trans hworkspace,
          trash_none (howned hP) (ht.tombstone ▸ htombstone)⟩
      · obtain rfl := Except.error.inj he'
        exact herror e rfl

theorem works_claimIdentity (hworkspace : v.workspace = none) (hidentity : v.identity = none)
    (htombstone : ∀ T, v.tombstone ≠ some (.file (.tombstone T))) (hs : Sees i P v s) :
    Works E i (claimLensWorkspaceIdentity P.identity I)
      (fun _ t => Sees i P { v with identity := some (.file (.identity I)) } t) s := by
  refine works_then (works_writeIdentity hP hregular hworkspace hidentity htombstone hs)
    fun r t ⟨hok, herror⟩ => ?_
  cases r with
  | ok _ => exact hok rfl
  | error e =>
    show Works E i (ite _ _ _ : LensProg Unit) _ t
    rw [if_neg (by rw [herror e rfl]; exact Bool.false_ne_true)]
    trivial

theorem works_refuseExisting (hs : Sees i P v s) : Works E i (refuseExistingWorkspace P.workspace)
      (fun _ t => Sees i P v t ∧ v.workspace = none) s := by
  refine works_call (stable_sees hP hregular) hs (fun _ _ _ => trivial) fun t c ht _ => ?_
  generalize hanswer : (lensHost.respond i t (.lstat P.workspace) c).1 = info
  cases info with
  | ok _ => trivial
  | error e =>
    show Works E i (ite _ _ _ : LensProg Unit) _ t
    split
    · rename_i hnone
      exact ⟨ht, ht.workspace.symm.trans
        (get_none_of_lstat (hregular.plain _ P.workspace_mem) hanswer hnone)⟩
    · trivial

/-- A run may make the directory of a workspace: the identity is there, and no tombstone. -/
structure Claimed (i : Nat) (P : LensWorkspacePaths) (I : LensWorkspaceIdentity) (s : LensStore) :
    Prop where
  lock : s.holder P.lock = some i
  identity : s.tree.get P.identity = some (.file (.identity I))
  tombstone : ∀ T, s.tree.get P.tombstone ≠ some (.file (.tombstone T))
  made : s.tree.get P.workspace = none ∨ s.maker P.workspace = some I

omit hregular in
theorem stable_claimed : Stable E i (Claimed i P I) := by
  intro s s' hs _ hwaits
  obtain ⟨hworkspace, hidentity, htombstone, hmaker, -⟩ := hwaits.held hP hs.lock
  exact {
    lock := hwaits.holder _ hs.lock
    identity := hidentity.trans hs.identity
    tombstone := htombstone ▸ hs.tombstone
    made := by
      rw [hworkspace, hmaker]
      exact hs.made }

structure Prepared (P : LensWorkspacePaths) (I : LensWorkspaceIdentity) (s : LensStore) : Prop where
  workspace : s.tree.get P.workspace = some .dir
  maker : s.maker P.workspace = some I
  tombstone : ∀ T, s.tree.get P.tombstone ≠ some (.file (.tombstone T))

theorem works_ensureWorkspace (hs : Claimed i P I s) :
    Works E i (secureEnsureDirectory P.workspace P.root (some I))
      (fun r t => Claimed i P I t ∧ t.tree.get P.workspace = some .dir ∧ r.1 = P.workspace) s := by
  obtain ⟨⟨-, hwi, hws⟩, -⟩ := E.contents_apart hP
  refine works_secureEnsureDirectory (stable_claimed hP) (E.wellPlaced hP).workspace
    hregular.workspace (fun p hp t ht _ => ?_) (fun p hp t c ht howned => ?_) hs
  · by_cases hpw : p = P.workspace
    · exact .inr ⟨_, P, I, hP, hpw, rfl, ht.lock, ht.identity, ht.tombstone⟩
    · exact .inl (E.free_of_prefix hP (P.places_of_contents P.workspace_mem) hp hpw)
  · rcases change_cases t c (t.tree.mkdir p) (LensStore.made p (some I)) with heq | ⟨tree, htree, heq⟩
    · exact heq.symm ▸ ht
    · obtain ⟨-, -, rfl⟩ := FsTree.mkdir_eq_ok htree
      have hne : ∀ {a}, ¬ P.workspace <+: a → a ∈ P.contents → a ≠ p := by
        rintro a hwa ha rfl
        by_cases haw : a = P.workspace
        · exact hwa (haw ▸ List.prefix_refl _)
        · exact E.free_of_prefix hP (P.places_of_contents P.workspace_mem) hp haw hP a
            (P.places_of_contents ha) (List.prefix_refl a)
      have hclaimed : Claimed i P I
          (LensStore.made p (some I) { t with tree := t.tree.put p .dir }) := {
        lock := ht.lock
        identity := (FsTree.get_put_of_ne (hne hwi P.identity_mem)).trans ht.identity
        tombstone := by
          rw [show (LensStore.made p (some I) { t with tree := t.tree.put p .dir }).tree.get
            P.tombstone = t.tree.get P.tombstone from
              FsTree.get_put_of_ne (hne hws P.tombstone_mem)]
          exact ht.tombstone
        made := by
          by_cases hpw : P.workspace = p
          · exact .inr (if_pos hpw)
          · rcases ht.made with hnone | hmaker
            · exact .inl ((FsTree.get_put_of_ne hpw).trans hnone)
            · exact .inr ((if_neg hpw).trans hmaker) }
      exact heq.symm ▸ hclaimed

/-- What the contents of a workspace have to do with each other. -/
def View.Coherent (v : View) : Prop :=
  ∀ {e}, v.identity = some e → v.workspace = none ∨
    ∃ I, e = .file (.identity I) ∧ v.maker = some I

/-- A preparation under the lock hands out a directory that was made for its identity. -/
theorem works_prepareLocked (hI : I.workspaceUID ≠ "") (hv : v.Coherent) (hs : Sees i P v s) :
    Works E i (prepareLocked P I)
      (fun r t => Claimed i P I t ∧ t.tree.get P.workspace = some .dir ∧ r.1 = P.workspace) s := by
  refine works_then (works_readTombstone hP hregular hs) fun r t ⟨ht, hr⟩ => ?_
  cases r with
  | ok T =>
    show Works E i (Prog.bind (ite _ _ _) _) _ t
    split <;> trivial
  | error e =>
    show Works E i (ite _ _ _ : LensProg (Path × Bool)) _ t
    split
    · rename_i hmissing
      have htombstone : ∀ T, v.tombstone ≠ some (.file (.tombstone T)) := by
        rw [hr.error rfl hmissing]
        exact fun T => nofun
      refine works_then (works_readIdentity hP hregular ht) fun r' t' ⟨ht', hr'⟩ => ?_
      cases r' with
      | ok existing =>
        show Works E i (ite _ _ _ : LensProg (Path × Bool)) _ t'
        split
        · trivial
        · rename_i hsame
          obtain rfl := not_not.mp hsame
          have hidentity := hr'.ok rfl hI
          refine works_ensureWorkspace hP hregular ⟨ht'.lock, ht'.identity.trans hidentity,
            ht'.tombstone ▸ htombstone, ?_⟩
          rw [ht'.workspace, ht'.maker]
          rcases hv hidentity with hnone | ⟨I', hI', hmaker⟩
          · exact .inl hnone
          · obtain rfl : existing = I' := by simpa using hI'
            exact .inr hmaker
      | error e' =>
        show Works E i (ite _ _ _ : LensProg (Path × Bool)) _ t'
        split
        · rename_i hmissing'
          have hidentity := hr'.error rfl hmissing'
          refine works_then (works_refuseExisting hP hregular ht') fun _ t₁ ⟨ht₁, hworkspace⟩ => ?_
          refine works_then (works_claimIdentity hP hregular hworkspace hidentity htombstone ht₁)
            fun _ t₂ ht₂ => ?_
          exact works_ensureWorkspace hP hregular ⟨ht₂.lock, ht₂.identity,
            ht₂.tombstone ▸ htombstone, .inl (ht₂.workspace.trans hworkspace)⟩
        · trivial
    · trivial

end Prepare

/-! ## Cleanup -/

theorem missing_of_unlink (h : (s.change c (s.tree.unlink p) id).1 = .error e)
    (he : e.isNotExist = true) : (s.change c (s.tree.unlink p) id).2 = s ∧ s.tree.get p = none := by
  rw [LensStore.change.eq_def] at h ⊢
  cases hunlink : s.tree.unlink p with
  | ok tree =>
    rw [hunlink] at h
    cases hc : c.error with
    | some message =>
      rw [hc] at h
      obtain rfl := Except.error.inj h
      cases he
    | none =>
      rw [hc] at h
      cases h
  | error error =>
    rw [hunlink] at h
    cases hc : c.error with
    | some message =>
      rw [hc] at h
      obtain rfl := Except.error.inj h
      cases he
    | none =>
      rw [hc] at h
      obtain rfl := Except.error.inj h
      obtain rfl : error = .lookup .notExist := by simpa [LensError.isNotExist] using he
      exact ⟨rfl, FsTree.get_of_unlink_notExist hunlink⟩

theorem works_validateTombstone {P : LensWorkspacePaths} {I : LensWorkspaceIdentity} {β : Type}
    {Q : β → LensStore → Prop} (T : LensWorkspaceTombstone) {f : Unit → LensProg β}
    (hf : T.identity = I → T.workspacePath = P.workspace → Works E i (f ()) Q s) :
    Works E i ((validateLensWorkspaceTombstone T I P.workspace).bind f) Q s := by
  rw [validateLensWorkspaceTombstone]
  split
  · trivial
  · rename_i hsame
    obtain ⟨hidentity, hpath⟩ := not_or.mp hsame
    exact hf (not_not.mp hidentity) (not_not.mp hpath)

section Cleanup

variable {E : Estate} {i : Nat} {P : LensWorkspacePaths} {v : View} {s : LensStore}
  {I : LensWorkspaceIdentity} (hP : E.site I.workspaceUID = some P) (hregular : P.Regular)

include hP hregular

variable {T : LensWorkspaceTombstone}

theorem sees_replace (hs : Sees i P v s) {t : FsTree LensFile}
    (ht : s.tree.replace P.tombstone (.tombstone T) = .ok t) :
    Sees i P { v with tombstone := some (.file (.tombstone T)) }
      (LensStore.setTemp { s with tree := t } i none) := by
  obtain ⟨-, hput, rfl⟩ := FsTree.replace_eq_ok ht
  obtain ⟨-, -, -, hw, htr, hi⟩ := E.contents_apart hP
  have hget : ∀ {a}, ¬ P.tombstone <+: a →
      (s.tree.put P.tombstone (.file (.tombstone T))).get a = s.tree.get a :=
    fun ha => FsTree.get_put_of_ne (ne_of_outside ha)
  exact {
    lock := hs.lock
    workspace := (hget hw).trans hs.workspace
    identity := (hget hi).trans hs.identity
    tombstone := FsTree.get_put_self hput
    maker := hs.maker
    trash := fun hgone => (hget htr).trans (hs.trash hgone)
    dirs := fun d hd => (hget (free_layout hP hregular d hd hP _
      (P.places_of_contents P.tombstone_mem))).trans (hs.dirs d hd) }

theorem stable_temporary (content : LensFile) :
    Stable E i fun t => Sees i P v t ∧ t.temporary i = some content :=
  fun t t' ⟨ht, htemp⟩ howned hwaits =>
    ⟨stable_sees hP hregular t t' ht howned hwaits, hwaits.temporary.trans htemp⟩

def View.Replaceable (v : View) (T : LensWorkspaceTombstone) : Prop :=
  v.tombstone = none ∨ ∃ T₀, v.tombstone = some (.file (.tombstone T₀)) ∧
    T₀.state = lensWorkspaceTombstoneRetiring ∧ T.identity = T₀.identity ∧
    T.workspacePath = T₀.workspacePath

def View.Truthful (v : View) (T : LensWorkspaceTombstone) : Prop :=
  T.state = lensWorkspaceTombstoneRetiring ∨
    T.state = lensWorkspaceTombstoneRetired ∧ v.workspace = none ∧ v.trashGone = true ∧
      v.identity = none

theorem works_fillTombstone (hwhole : v.identity ≠ some (.file .torn)) (hold : v.Replaceable T)
    (hnew : v.Truthful T) (hs : Sees i P v s ∧ s.temporary i = some .torn) :
    Works E i (fillLensWorkspaceTombstone P.tombstone T)
      (fun _ t => Sees i P { v with tombstone := some (.file (.tombstone T)) } t) s := by
  refine works_call (stable_temporary hP hregular _) hs (fun _ _ _ => trivial) fun t c ht _ => ?_
  refine works_orFail fun _ _ => ?_
  refine works_call (stable_temporary hP hregular _) ht (fun _ _ _ => trivial) fun t c ht _ => ?_
  refine works_orFail fun _ hwritten => ?_
  have hfilled : Sees i P v (lensHost.respond i t (.writeTemp (.tombstone T)) c).2 ∧
      (lensHost.respond i t (.writeTemp (.tombstone T)) c).2.temporary i =
        some (.tombstone T) := by
    obtain ⟨tree, htree, heq⟩ := change_eq_ok hwritten
    cases htree
    rw [show (lensHost.respond i t (.writeTemp (.tombstone T)) c).2 =
      t.setTemp i (some (.tombstone T)) from heq]
    exact ⟨⟨ht.1.lock, ht.1.workspace, ht.1.identity, ht.1.tombstone, ht.1.maker, ht.1.trash,
      ht.1.dirs⟩, if_pos rfl⟩
  refine works_call (stable_temporary hP hregular _) hfilled (fun _ _ _ => trivial)
    fun t c ht _ => ?_
  refine works_orFail fun _ _ => ?_
  refine works_call (stable_temporary hP hregular _) ht (fun _ _ _ => trivial) fun t c ht _ => ?_
  refine works_orFail fun _ _ => ?_
  refine works_call (stable_temporary hP hregular _) ht (fun t ht _ => ?_) fun t c ht _ => ?_
  · refine ⟨_, P, T, hP, rfl, ht.1.lock, ht.2, ht.1.identity ▸ hwhole, ?_, ?_⟩
    · rw [ht.1.tombstone]
      exact hold
    · rcases hnew with hretiring | ⟨hretired, hworkspace, htrash, hidentity⟩
      · exact .inl hretiring
      · exact .inr ⟨hretired, ht.1.workspace.trans hworkspace, ht.1.trash htrash,
          ht.1.identity.trans hidentity⟩
  · refine works_orFail fun _ hreplaced => ?_
    obtain ⟨tree, htree, heq⟩ := change_eq_ok hreplaced
    rw [ht.2] at htree
    have hsees := sees_replace hP hregular ht.1 htree
    refine works_call (stable_sees hP hregular) (heq ▸ hsees) (fun _ _ _ => trivial)
      fun t c ht _ => ?_
    exact works_last fun _ _ => ht

theorem works_writeState {T₀ : LensWorkspaceTombstone} {state : String}
    (hwhole : v.identity ≠ some (.file .torn))
    (hold : ∀ T : LensWorkspaceTombstone, T.identity = I → T.workspacePath = P.workspace →
      v.Replaceable T)
    (hnew : ∀ T : LensWorkspaceTombstone, T.state = state → v.Truthful T) (hs : Sees i P v s) :
    Works E i (writeState P I state T₀) (fun _ t => ∃ T, T.identity = I ∧ T.state = state ∧
      Sees i P { v with tombstone := some (.file (.tombstone T)) } t) s := by
  refine works_call (stable_sees hP hregular) hs (fun _ _ _ => trivial) fun t c ht _ => ?_
  refine works_call (stable_sees hP hregular) ht (fun _ _ _ => trivial) fun t c ht _ => ?_
  refine works_orFail fun _ hcreated => ?_
  obtain ⟨tree, htree, heq⟩ := change_eq_ok hcreated
  split at htree
  · cases htree
    refine works_attempt (works_fillTombstone hP hregular hwhole (hold _ rfl rfl) (hnew _ rfl) ?_)
      (fun _ t ht => ⟨_, rfl, rfl, ht⟩) fun e t => ?_
    · rw [show (lensHost.respond i t (.createTemp P.tombstone.dropLast) c).2 =
        t.setTemp i (some .torn) from heq]
      exact ⟨⟨ht.lock, ht.workspace, ht.identity, ht.tombstone, ht.maker, ht.trash, ht.dirs⟩,
        if_pos rfl⟩
    · exact fun _ _ _ => ⟨trivial, fun _ => trivial⟩
  · cases htree

def CleanupFound.Describes (P : LensWorkspacePaths) (I : LensWorkspaceIdentity) (v : View) :
    CleanupFound → Prop
  | .retired => True
  | .present T₀ workspaceExists _ =>
    (workspaceExists = true → v.identity = some (.file (.identity I))) ∧
    v.identity ≠ some (.file .torn) ∧
    (v.tombstone = none ∨ v.tombstone = some (.file (.tombstone T₀)) ∧ T₀.identity = I ∧
      T₀.workspacePath = P.workspace ∧ T₀.state = lensWorkspaceTombstoneRetiring)

theorem works_checkIdentity (hI : I.workspaceUID ≠ "") (hs : Sees i P v s)
    (workspaceMissing trashMissing : Bool) {identityMissing : Bool}
    (hmissing : identityMissing = true → v.identity = none) :
    Works E i (checkCleanupIdentity P I workspaceMissing trashMissing identityMissing)
      (fun _ t => Sees i P v t ∧
        ((!workspaceMissing) = true → v.identity = some (.file (.identity I))) ∧
        v.identity ≠ some (.file .torn)) s := by
  rw [checkCleanupIdentity]
  split
  · refine (works_validateIdentity hP hregular hI hs).mono (fun _ _ _ => trivial)
      fun _ t ht => ⟨ht.1, fun _ => ht.2, fun htorn => ?_⟩
    exact nomatch htorn.symm.trans ht.2
  · rename_i hthere
    split
    · trivial
    · rename_i hgone
      refine ⟨hs, fun h => absurd ?_ hgone, fun htorn => ?_⟩
      · rw [h, Bool.true_or]
      · exact nomatch (hmissing (by simpa using hthere)).symm.trans htorn

theorem works_checkCleanup (hI : I.workspaceUID ≠ "") (hs : Sees i P v s) :
    Works E i (checkCleanup P I) (fun found t => Sees i P v t ∧ found.Describes P I v) s := by
  have hA := stable_sees (v := v) (i := i) hP hregular
  refine works_then (works_pathMissing hA (hregular.plain _ P.workspace_mem) hs)
    fun workspaceMissing t ⟨ht, _⟩ => ?_
  refine works_then (works_pathMissing hA (hregular.plain _ P.trash_mem) ht)
    fun trashMissing t ⟨ht, _⟩ => ?_
  refine works_then (works_pathMissing hA (hregular.plain _ P.identity_mem) ht)
    fun identityMissing t ⟨ht, hmissing⟩ => ?_
  replace hmissing : identityMissing = true → v.identity = none :=
    fun h => ht.identity.symm.trans (hmissing h)
  refine works_then (works_readTombstone hP hregular ht) fun r t ⟨ht, hr⟩ => ?_
  cases r with
  | ok T =>
    refine works_validateTombstone T fun hidentity hpath => ?_
    show Works E i (ite _ _ _ : LensProg CleanupFound) _ t
    split
    · split
      · trivial
      · exact ⟨ht, trivial⟩
    · split
      · trivial
      · rename_i hstate
        refine works_then (works_checkIdentity hP hregular hI ht _ _ hmissing)
          fun _ t ⟨ht, hexists, hwhole⟩ => ?_
        exact ⟨ht, hexists, hwhole, .inr ⟨(hr.ok rfl).1, hidentity, hpath, not_not.mp hstate⟩⟩
  | error e =>
    show Works E i (ite _ _ _ : LensProg CleanupFound) _ t
    split
    · rename_i hnone
      refine works_then (works_checkIdentity hP hregular hI ht _ _ hmissing)
        fun _ t ⟨ht, hexists, hwhole⟩ => ?_
      exact ⟨ht, hexists, hwhole, .inl (hr.error rfl hnone)⟩
    · trivial

def Tombed (P : LensWorkspacePaths) (I : LensWorkspaceIdentity) (s : LensStore) : Prop :=
  (∃ T, s.tree.get P.tombstone = some (.file (.tombstone T)) ∧ T.identity = I) ∧ Dirs P.layout s

theorem Tombed.move {j : Nat} {s' : LensStore} (h : Tombed P I s) (hwaits : Waits E j s s') :
    Tombed P I s' := by
  obtain ⟨⟨T, hT, hidentity⟩, hdirs⟩ := h
  obtain ⟨T', hT', hidentity', -⟩ := hwaits.sealed hP T hT
  exact ⟨⟨T', hT', hidentity'.trans hidentity⟩,
    fun d hd => hwaits.dirs d (free_layout hP hregular d hd) (hdirs d hd)⟩

theorem stable_tombed : Stable E i (Tombed P I) :=
  fun _ _ hs _ hwaits => hs.move hP hregular hwaits

theorem works_quarantineWorkspace {T : LensWorkspaceTombstone} (hidentity : T.identity = I)
    (hstate : T.state = lensWorkspaceTombstoneRetiring) {workspaceExists trashExists : Bool}
    (hexists : workspaceExists = true → v.identity = some (.file (.identity I)))
    (hs : Sees i P { v with tombstone := some (.file (.tombstone T)) } s) :
    Works E i (quarantineWorkspace P I workspaceExists trashExists)
      (fun _ t => Tombed P I t) s := by
  have hA := stable_sees (v := { v with tombstone := some (.file (.tombstone T)) }) (i := i) hP
    hregular
  have htombed : ∀ {t}, Sees i P { v with tombstone := some (.file (.tombstone T)) } t →
      Tombed P I t := fun ht => ⟨⟨T, ht.tombstone, hidentity⟩, ht.dirs⟩
  rw [quarantineWorkspace]
  split
  · trivial
  · split
    · rename_i hworkspace
      refine works_then (R := fun _ t => Sees i P
        { v with tombstone := some (.file (.tombstone T)) } t) ?_ fun _ t ht => ?_
      · rw [secureOpenDirectory, (E.wellPlaced hP).workspace.1]
        refine works_openDirectory hA hs P.root (fun t ht _ => ?_) fun t e _ => trivial
        exact works_openDirectory hA ht _ (fun t ht _ => works_last fun _ _ => ht)
          fun t e _ => works_last fun _ h => nomatch h
      · have hguard : ∀ t, Sees i P { v with tombstone := some (.file (.tombstone T)) } t →
            Owned E t → Guard E i t (.rename P.workspace P.trash I) := fun t ht _ =>
          ⟨_, P, T, hP, rfl, rfl, ht.lock, ht.identity.trans (hexists hworkspace), ht.tombstone,
            hstate, hidentity⟩
        refine works_call hA ht hguard fun t c ht howned => ?_
        have hwaits := (kept_call howned (hguard t ht howned) c).2 (i + 1) (Nat.succ_ne_self i)
        exact works_orFail fun _ _ => (htombed ht).move hP hregular hwaits
    · exact htombed hs

theorem works_quarantineLocked (hI : I.workspaceUID ≠ "") (hs : Sees i P v s) :
    Works E i (quarantineLocked P I) (fun progress t => progress.error = none →
      progress.alreadyRetired = false → Tombed P I t) s := by
  refine works_attempt (works_checkCleanup hP hregular hI hs) (fun found t ⟨ht, hfound⟩ => ?_)
    fun e t => ?_
  · cases found with
    | retired => exact fun _ h => nomatch h
    | present T₀ workspaceExists trashExists =>
      obtain ⟨hexists, hwhole, htombstone⟩ := hfound
      refine works_attempt (works_writeState hP hregular hwhole (fun T hidentity hpath => ?_)
        (fun T hstate => .inl hstate) ht) (fun _ t ⟨T, hidentity, hstate, ht⟩ => ?_)
        fun e t => ?_
      · rcases htombstone with hnone | ⟨hT₀, hidentity₀, hpath₀, hstate₀⟩
        · exact .inl hnone
        · exact .inr ⟨T₀, hT₀, hstate₀, hidentity.trans hidentity₀.symm,
            hpath.trans hpath₀.symm⟩
      · exact works_attempt (works_quarantineWorkspace hP hregular hidentity hstate hexists ht)
          (fun _ t ht _ _ => ht) fun e t h => nomatch h
      · exact fun h => nomatch h
  · exact fun h => nomatch h

omit hP hregular in
theorem works_somePresent_any (ps : List Path) (hplain : ∀ p ∈ ps, ∀ n ∈ p, FsTree.IsPlain n) :
    Works E i (somePresent ps) (fun _ _ => True) s := by
  induction ps generalizing s with
  | nil => trivial
  | cons p ps ih =>
    refine works_then (works_pathMissing (A := fun _ => True) (fun _ _ _ _ _ => trivial)
      (hplain p List.mem_cons_self) trivial) fun missing t _ => ?_
    cases missing with
    | false => trivial
    | true => exact ih fun q hq => hplain q (List.mem_cons_of_mem p hq)

theorem works_somePresent (hs : Sees i P v s) :
    Works E i (somePresent [P.workspace, P.trash]) (fun present t => present = false →
      v.workspace = none ∧ Sees i P { v with trashGone := true } t) s := by
  have hA := stable_sees (v := v) (i := i) hP hregular
  refine works_then (works_pathMissing hA (hregular.plain _ P.workspace_mem) hs)
    fun workspaceMissing t ⟨ht, hworkspace⟩ => ?_
  cases workspaceMissing with
  | false => exact fun h => nomatch h
  | true =>
    refine works_then (works_pathMissing hA (hregular.plain _ P.trash_mem) ht)
      fun trashMissing t' ⟨ht', htrash⟩ => ?_
    cases trashMissing with
    | false => exact fun h => nomatch h
    | true =>
      exact fun _ => ⟨ht.workspace.symm.trans (hworkspace rfl), ht'.lock, ht'.workspace,
        ht'.identity, ht'.tombstone, ht'.maker, fun _ => htrash rfl, ht'.dirs⟩

theorem sees_remove (hs : Sees i P v s) {tree : FsTree LensFile}
    (h : s.tree.unlink P.identity = .ok tree) :
    Sees i P { v with identity := none } { s with tree := tree } := by
  obtain ⟨-, rfl⟩ := FsTree.unlink_eq_ok h
  obtain ⟨-, -, ⟨hw, ht, hts⟩, -⟩ := E.contents_apart hP
  have hget : ∀ {a}, ¬ P.identity <+: a → (s.tree.prune P.identity []).get a = s.tree.get a :=
    FsTree.get_prune_of_not_prefix
  obtain ⟨n, hn⟩ := hregular.identity
  exact {
    lock := hs.lock
    workspace := (hget hw).trans hs.workspace
    identity := FsTree.get_prune_self (hn ▸ List.append_ne_nil_of_right_ne_nil _ (by simp))
    tombstone := (hget hts).trans hs.tombstone
    maker := hs.maker
    trash := fun hgone => (hget ht).trans (hs.trash hgone)
    dirs := fun d hd => (hget (free_layout hP hregular d hd hP _
      (P.places_of_contents P.identity_mem))).trans (hs.dirs d hd) }

theorem works_retireIdentity {T₀ : LensWorkspaceTombstone} (hworkspace : v.workspace = none)
    (hold : ∀ T : LensWorkspaceTombstone, T.identity = I → T.workspacePath = P.workspace →
      v.Replaceable T)
    (hs : Sees i P { v with trashGone := true } s) :
    Works E i (retireIdentity P I T₀) (fun _ _ => True) s := by
  have hA := stable_sees (v := { v with trashGone := true }) (i := i) hP hregular
  refine works_call hA hs (fun t ht _ => ⟨_, P, hP, rfl, ht.lock, ht.workspace.trans hworkspace,
    ht.trash rfl⟩) fun t c ht _ => ?_
  have hwrite : ∀ {t'}, Sees i P { v with trashGone := true, identity := none } t' →
      Works E i (writeState P I lensWorkspaceTombstoneRetired T₀) (fun _ _ => True) t' :=
    fun ht' => (works_writeState (v := { v with trashGone := true, identity := none }) hP hregular
      nofun hold (fun T hstate => .inr ⟨hstate, hworkspace, rfl, rfl⟩) ht').mono (fun _ _ _ => trivial)
      fun _ _ _ => trivial
  generalize hremoved : (lensHost.respond i t (.remove P.identity) c).1 = removed
  cases removed with
  | ok _ =>
    obtain ⟨tree, htree, heq⟩ := change_eq_ok hremoved
    exact hwrite (heq ▸ sees_remove hP hregular ht htree)
  | error e =>
    show Works E i (ite _ _ _ : LensProg Unit) _ _
    split
    · rename_i hmissing
      obtain ⟨hsame, hnone⟩ := missing_of_unlink hremoved hmissing
      rw [show (lensHost.respond i t (.remove P.identity) c).2 = t from hsame]
      exact hwrite ⟨ht.lock, ht.workspace, hnone, ht.tombstone, ht.maker, ht.trash, ht.dirs⟩
    · trivial

theorem works_retireLocked (hs : Sees i P v s) :
    Works E i (retireLocked P I) (fun _ _ => True) s := by
  refine works_then (works_readTombstone hP hregular hs) fun r t ⟨ht, hr⟩ => ?_
  refine works_orFail fun T hT => ?_
  refine works_validateTombstone T fun hidentity hpath => ?_
  show Works E i (ite _ _ _ : LensProg Unit) _ t
  split
  · refine works_then (works_somePresent_any _ fun p hp => hregular.plain p ?_)
      fun present t _ => ?_
    · exact List.mem_of_mem_take (i := 3) hp
    · cases present <;> trivial
  · split
    · trivial
    · rename_i hstate
      refine works_then (works_somePresent hP hregular ht) fun present t' hpresent => ?_
      cases present with
      | true => trivial
      | false =>
        obtain ⟨hworkspace, ht'⟩ := hpresent rfl
        refine works_retireIdentity hP hregular hworkspace (fun T' hidentity' hpath' => ?_) ht'
        exact .inr ⟨T, (hr.ok hT).1, not_not.mp hstate, hidentity'.trans hidentity.symm,
          hpath'.trans hpath.symm⟩

end Cleanup

end HyperFileLens.Lens
