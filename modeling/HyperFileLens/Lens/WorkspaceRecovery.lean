import HyperFileLens.Lens.WorkspaceJournal
import HyperFileLens.Lens.WorkspacesHonest

/-!
# Recovery of managed workspaces

A preparation or a cleanup that starts after the tasks of its identity have stopped, makes
its calls alone and meets no failure.

*Alone.*  From a journal whose identity file is not torn, both go through
(`alone_prepare`, `alone_cleanup`); with a torn identity file both fail
(`alone_prepare_torn`, `alone_cleanup_torn`).

*Runs.*  The tasks of one identity stop at any call. What follows them succeeds if and only
if the identity file is not torn (`recovers_iff`).
-/

namespace HyperFileLens.Lens

open Service FileTree FilePath Transition

/-- A program that makes its calls alone and meets no failure. -/
abbrev Undisturbed (fails : Prop) (i : Nat) {α : Type} (p : LensProg α)
    (Q : α → LensStore → Prop) (s : LensStore) : Prop :=
  p.Alone lensHost (fun c : LensChoice => c.error = none) i fails Q s

/-! ## Calls -/

section Calls

variable {i : Nat} {s s' : LensStore} {c : LensChoice} {p : Path} {fails : Prop} {α β : Type}
  {Q : β → LensStore → Prop}

theorem alone_then {p : LensProg α} {f : α → LensProg β} {R : α → LensStore → Prop}
    (hp : Undisturbed fails i p R s) (hf : ∀ a t, R a t → Undisturbed fails i (f a) Q t) :
    Undisturbed fails i (p.bind f) Q s := Prog.Alone.andThen hp hf

theorem alone_attempt {fails' : Prop} {p : LensProg α} {f : Except String α → LensProg β}
    {R : α → LensStore → Prop} (hp : Undisturbed fails i p R s)
    (hok : ∀ a t, R a t → Undisturbed fails' i (f (.ok a)) Q t)
    (herror : fails → ∀ e t, Undisturbed fails' i (f (.error e)) Q t) :
    Undisturbed fails' i (p.attempt.bind f) Q s := by
  refine alone_then (R := fun x t => Undisturbed fails' i (f x) Q t) (Prog.Alone.attempt
    (hp.mono (fun h => h) fun a t ha => ?_) herror) fun _ _ h => h
  exact hok a t ha

theorem alone_call {r : LensCall} {a : LensAnswer r} {f : LensAnswer r → LensProg β}
    (h : ∀ c : LensChoice, c.error = none → lensHost.respond i s r c = (a, s'))
    (hf : Undisturbed fails i (f a) Q s') :
    Undisturbed fails i ((Prog.request r : LensProg (LensAnswer r)).bind f) Q s := by
  intro c hc
  rw [h c hc]
  exact hf

theorem answer_eq {a : Except LensError α} (hc : c.error = none) : c.answer a = a := by
  rw [LensChoice.answer, hc]

theorem change_ok {tree : FsTree LensFile} {after : LensStore → LensStore} (hc : c.error = none) :
    s.change c (.ok tree) after = (.ok (), after { s with tree := tree }) := by
  rw [LensStore.change.eq_def, hc]

theorem respond_openDirectory (hdir : s.tree.get p = some .dir) (hc : c.error = none) :
    lensHost.respond i s (.openDirectory p) c = (.ok (), s) := by
  show (c.answer (openDir s.tree p), s) = _
  rw [answer_eq hc, openDir, if_pos (FsTree.hasDir_iff.mpr hdir)]
  rfl

theorem respond_openDirectory_none (hnone : s.tree.get p = none) (hc : c.error = none) :
    lensHost.respond i s (.openDirectory p) c = (.error (.file (.lookup .notExist)), s) := by
  show (c.answer (openDir s.tree p), s) = _
  rw [answer_eq hc, openDir, FsTree.not_hasDir_of_none hnone, hnone]
  rfl

theorem respond_mkdirat {who : Option LensWorkspaceIdentity} (hnone : s.tree.get p = none)
    (hparent : s.tree.get p.dropLast = some .dir) (hc : c.error = none) :
    lensHost.respond i s (.mkdirat p who) c =
      (.ok (), LensStore.made p who { s with tree := s.tree.put p .dir }) := by
  have hmkdir : s.tree.mkdir p = .ok (s.tree.put p .dir) := by
    rw [FsTree.mkdir, hnone, if_neg (by simp), if_pos (FsTree.hasDir_iff.mpr hparent)]
  show s.change c (s.tree.mkdir p) (LensStore.made p who) = _
  rw [hmkdir, change_ok hc]
  rfl

theorem respond_lstat {e : Entry LensFile} (hplain : ∀ n ∈ p, FsTree.IsPlain n)
    (hget : s.tree.get p = some e) (hc : c.error = none) :
    lensHost.respond i s (.lstat p) c = (.ok e, s) := by
  show (c.answer (ofLookup (s.tree.lstat p)), s) = _
  rw [answer_eq hc, FsTree.lstat_of_get hplain hget, ofLookup]
  rfl

theorem respond_lstat_none (hplain : ∀ n ∈ p, FsTree.IsPlain n)
    (habove : ∀ d, d <+: p → d ≠ p → s.tree.get d = none ∨ s.tree.get d = some .dir)
    (hnone : s.tree.get p = none) (hc : c.error = none) :
    lensHost.respond i s (.lstat p) c = (.error (.file (.lookup .notExist)), s) := by
  show (c.answer (ofLookup (s.tree.lstat p)), s) = _
  rw [answer_eq hc, FsTree.lstat_of_missing hplain habove hnone, ofLookup]
  rfl

variable {content : LensFile}

theorem respond_readFile (hplain : ∀ n ∈ p, FsTree.IsPlain n)
    (hget : s.tree.get p = some (.file content)) (hc : c.error = none) :
    lensHost.respond i s (.readFile p) c = (.ok content, s) := by
  show (c.answer (readContent s.tree p), s) = _
  rw [answer_eq hc, readContent_eq hplain hget]
  rfl

theorem respond_settle (hc : c.error = none) :
    lensHost.respond i s (.settle p) c = (.ok (), s) := congrArg (·, s) (answer_eq hc)

theorem respond_settleTemp (hc : c.error = none) :
    lensHost.respond i s .settleTemp c = (.ok (), s) := congrArg (·, s) (answer_eq hc)

theorem respond_chmod (hc : c.error = none) : lensHost.respond i s (.chmod p) c = (.ok (), s) :=
  congrArg (·, s) (answer_eq hc)

theorem respond_syncDirectory (hc : c.error = none) :
    lensHost.respond i s (.syncDirectory p) c = (.ok (), s) := congrArg (·, s) (answer_eq hc)

theorem respond_createExclusive (hnone : s.tree.get p = none)
    (hparent : s.tree.hasDir p.dropLast = true) (hc : c.error = none) :
    lensHost.respond i s (.createExclusive p) c =
      (.ok (), { s with tree := s.tree.put p (.file .torn) }) := by
  have hcreate : s.tree.create p .torn = .ok (s.tree.put p (.file .torn)) := by
    rw [FsTree.create, hnone, if_neg (by simp), if_pos hparent]
  show s.change c (s.tree.create p .torn) id = _
  rw [hcreate, change_ok hc]
  rfl

theorem respond_write {content content' : LensFile} (hget : s.tree.get p = some (.file content))
    (hc : c.error = none) : lensHost.respond i s (.write p content') c =
      (.ok (), { s with tree := s.tree.put p (.file content') }) := by
  show s.write p content' c = _
  rw [LensStore.write, hc, hget]
  rfl

theorem respond_remove (hget : s.tree.get p = some (.file content)) (hc : c.error = none) :
    lensHost.respond i s (.remove p) c =
      (.ok (), { s with tree := s.tree.prune p [] }) := by
  have hnames : s.tree.names p = [] :=
    FsTree.names_of_not_dir fun hdir => nomatch hget.symm.trans hdir
  have hunlink : s.tree.unlink p = .ok (s.tree.prune p []) := by
    rw [FsTree.unlink, hget, if_neg (by simp), if_neg (not_not.mpr hnames)]
  show s.change c (s.tree.unlink p) id = _
  rw [hunlink, change_ok hc]
  rfl

theorem respond_remove_none (hget : s.tree.get p = none) (hc : c.error = none) :
    lensHost.respond i s (.remove p) c = (.error (.file (.lookup .notExist)), s) := by
  have hunlink : s.tree.unlink p = .error (.lookup .notExist) := by
    rw [FsTree.unlink, hget, if_pos (by simp)]
  show s.change c (s.tree.unlink p) id = _
  rw [hunlink, LensStore.change.eq_def, hc]
  rfl

theorem respond_createTemp (hdir : s.tree.get p = some .dir) (hc : c.error = none) :
    lensHost.respond i s (.createTemp p) c = (.ok (), s.setTemp i (some .torn)) := by
  show s.change c (if s.tree.hasDir p then .ok s.tree else .error (.lookup .notExist))
    (fun s => s.setTemp i (some .torn)) = _
  rw [if_pos (FsTree.hasDir_iff.mpr hdir), change_ok hc]
  rfl

theorem respond_writeTemp (hc : c.error = none) :
    lensHost.respond i s (.writeTemp content) c = (.ok (), s.setTemp i (some content)) := by
  show s.change c (.ok s.tree) (fun s => s.setTemp i (some content)) = _
  rw [change_ok hc]
  rfl

theorem respond_replaceWithTemp (htemp : s.temporary i = some content)
    (hnot : s.tree.get p ≠ some .dir) (hparent : s.tree.hasDir p.dropLast = true)
    (hc : c.error = none) : lensHost.respond i s (.replaceWithTemp p) c =
      (.ok (), LensStore.setTemp { s with tree := s.tree.put p (.file content) } i none) := by
  have hreplace : s.tree.replace p content = .ok (s.tree.put p (.file content)) := by
    rw [FsTree.replace, if_neg fun hdir => hnot (FsTree.hasDir_iff.mp hdir), if_pos hparent]
  have hrespond : lensHost.respond i s (.replaceWithTemp p) c =
      s.change c (s.tree.replace p content) fun s => s.setTemp i none := by
    show LensStore.respond i s (.replaceWithTemp p) c = _
    rw [LensStore.respond, htemp]
  rw [hrespond, hreplace, change_ok hc]
  rfl

variable {who : LensWorkspaceIdentity}

theorem respond_rename {q : Path} (hdir : s.tree.get p = some .dir) (hnone : s.tree.get q = none)
    (hmovable : s.tree.Movable p q) (hc : c.error = none) :
    lensHost.respond i s (.rename p q who) c =
      (.ok (), LensStore.moved p q { s with tree := s.tree.move p q }) := by
  have hrename : s.tree.rename p q = .ok (s.tree.move p q) := by
    rw [FsTree.rename, hdir, hnone, if_neg (by simp), if_neg (by simp), if_pos hmovable]
  show s.change c (s.tree.rename p q) (LensStore.moved p q) = _
  rw [hrename, change_ok hc]
  rfl

theorem respond_removeAll (hc : c.error = none) :
    lensHost.respond i s (.removeAll p who) c =
      (.ok (), { s with tree := s.tree.prune p [] }) := by
  show s.removeAll p c = _
  rw [LensStore.removeAll, hc]
  rfl

theorem alone_checkContext {f : Unit → LensProg β} (message : Option String)
    (hf : Undisturbed fails i (f ()) Q s) :
    Undisturbed fails i ((checkContext message).bind f) Q s := by
  intro c hc
  have hnone : lensHost.respond i s .ctxErr c = (none, s) := congrArg (·, s) hc
  rw [hnone]
  exact hf

end Calls

/-! ## Directories -/

section Directories

variable {i : Nat} {s t : LensStore} {fails : Prop} {whole : Path}

structure Grown (whole : Path) (s t : LensStore) : Prop where
  dir : t.tree.get whole = some .dir
  out : ∀ a, ¬ a <+: whole → t.tree.get a = s.tree.get a
  holder : t.holder = s.holder

theorem Grown.above (h : Grown whole s t) {d : Path} (hd : d <+: whole) :
    t.tree.get d = some .dir := by
  obtain ⟨rest, rfl⟩ := hd
  cases rest with
  | nil => simpa using h.dir
  | cons n rest => exact FsTree.get_of_prefix h.dir (by simp)

variable {who : Option LensWorkspaceIdentity}

theorem alone_ensureComponents {current : Path} {rest : List Name}
    (hwhole : current ++ rest = whole) (hcurrent : s.tree.get current = some .dir)
    (habove : ∀ d, d <+: whole → s.tree.get d = none ∨ s.tree.get d = some .dir) (created : Bool) :
    Undisturbed fails i (ensureComponents who current rest created)
      (fun _ t => Grown whole s t) s := by
  induction rest generalizing s current created with
  | nil =>
    obtain rfl : current = whole := by simpa using hwhole
    exact ⟨hcurrent, fun a _ => rfl, rfl⟩
  | cons n rest ih =>
    rw [List.append_cons] at hwhole
    have hnext : current ++ [n] <+: whole := hwhole ▸ List.prefix_append _ _
    rcases habove _ hnext with hnone | hdir
    · refine alone_call (fun c hc => respond_openDirectory_none hnone hc) ?_
      refine alone_call (fun c hc => respond_mkdirat hnone (by rwa [List.dropLast_concat]) hc) ?_
      have hput : s.tree.Puttable (current ++ [n]) .dir := FsTree.puttable_of_none hnone
        (FsTree.hasDir_iff.mpr (by rwa [List.dropLast_concat]))
      have hself := FsTree.get_put_self hput
      refine alone_call (fun c hc => respond_openDirectory hself hc) ?_
      refine (ih hwhole hself (fun d hd => ?_) true).mono (fun h => h) fun _ t ht => ?_
      · by_cases hdn : d = current ++ [n]
        · exact .inr (hdn ▸ hself)
        · rw [show (LensStore.made (current ++ [n]) who
            { s with tree := s.tree.put (current ++ [n]) .dir }).tree.get d = s.tree.get d from
              FsTree.get_put_of_ne hdn]
          exact habove d hd
      · refine ⟨ht.dir, fun a ha => (ht.out a ha).trans (FsTree.get_put_of_ne ?_), ht.holder⟩
        rintro rfl
        exact ha hnext
    · exact alone_call (fun c hc => respond_openDirectory hdir hc) (ih hwhole hdir habove created)

/-- `secureEnsureDirectory` where nothing else is in the way. -/
theorem alone_secureEnsureDirectory {base : Path} (htidy : IsTidy whole base)
    (hbase : s.tree.get base = some .dir)
    (habove : ∀ d, d <+: whole → s.tree.get d = none ∨ s.tree.get d = some .dir) :
    Undisturbed fails i (secureEnsureDirectory whole base who)
      (fun r t => Grown whole s t ∧ r.1 = whole) s := by
  rw [secureEnsureDirectory, htidy.1]
  refine alone_call (fun c hc => respond_openDirectory hbase hc) ?_
  exact alone_then (alone_ensureComponents htidy.2 hbase habove false) fun created t ht =>
    ⟨ht, htidy.2⟩

end Directories

/-! ## A workspace -/

structure Scene (P : LensWorkspacePaths) (v : Contents) (holder : Option Nat) (ds : List Path)
    (s : LensStore) : Prop where
  grounds : Grounds P s
  contents : s.contents P = v
  holder : s.holder P.lock = holder
  dirs : Dirs ds s

section Scenes

variable {i : Nat} {s t : LensStore} {fails : Prop} {P : LensWorkspacePaths} {v : Contents}
  {h : Option Nat} {ds : List Path} (hwell : P.WellPlaced) (hregular : P.Regular)

include hwell

theorem Scene.grown (hs : Scene P v h ds s) {a whole : Path} (ha : a ∈ P.places)
    (hwhole : whole <+: a) (hne : whole ≠ a) (ht : Grown whole s t) :
    Scene P v h (whole :: ds) t := by
  have hplace : ∀ b ∈ P.places, ¬ b <+: whole := fun b hb => not_below hwell hb ha hwhole hne
  have hdir : ∀ {d}, s.tree.get d = some .dir → t.tree.get d = some .dir := by
    intro d hd
    by_cases hdw : d <+: whole
    · exact ht.above hdw
    · exact (ht.out d hdw).trans hd
  constructor
  · refine ⟨hdir hs.grounds.base, fun b hb d hd hdb => ?_, ?_⟩
    · by_cases hdw : d <+: whole
      · exact .inr (ht.above hdw)
      · rw [ht.out d hdw]
        exact hs.grounds.above b hb d hd hdb
    · rw [ht.out _ (hplace _ P.lock_mem)]
      exact hs.grounds.lock
  · rw [← hs.contents]
    ext1
    · exact ht.out _ (hplace _ (P.places_of_contents P.workspace_mem))
    · exact ht.out _ (hplace _ (P.places_of_contents P.trash_mem))
    · exact ht.out _ (hplace _ (P.places_of_contents P.identity_mem))
    · exact ht.out _ (hplace _ (P.places_of_contents P.tombstone_mem))
  · rw [ht.holder]
    exact hs.holder
  · intro d hd
    rcases List.mem_cons.mp hd with rfl | hd
    · exact ht.dir
    · exact hdir (hs.dirs d hd)

include hregular

theorem alone_ensureLensMetadataDirectory {whole : Path} (hwhole : whole ∈ P.layout)
    (hs : Scene P v h ds s) :
    Undisturbed fails i (ensureLensMetadataDirectory P.root.dropLast whole)
      (fun _ t => Scene P v h (whole :: ds) t) s := by
  obtain ⟨-, a, ha, habove, hne⟩ := hregular.layout _ hwhole
  have hensured : Undisturbed False i (secureEnsureDirectory whole P.root.dropLast none)
      (fun r t => Grown whole s t ∧ r.1 = whole) s := by
    refine alone_secureEnsureDirectory (hwell.layout _ hwhole) hs.grounds.base fun d hd =>
      hs.grounds.above a ha d (hd.trans habove) fun heq => ?_
    exact hne (habove.eq_of_length_le (heq ▸ hd.length_le))
  refine alone_attempt hensured (fun r t ht => ?_) fun h => h.elim
  exact alone_call (fun c hc => respond_chmod hc) (hs.grown hwell ha habove hne ht.1)

theorem alone_ensureLayout (hs : Scene P v h [] s) :
    Undisturbed fails i (ensureLensMetadataLayout P) (fun _ t => Scene P v h P.layout t) s := by
  have hmake {ds : List Path} {d : Path} {t : LensStore} (hd : d ∈ P.layout)
      (ht : Scene P v h ds t) : Undisturbed fails i (ensureLensMetadataDirectory P.root.dropLast d)
        (fun _ u => Scene P v h (d :: ds) u) t :=
    alone_ensureLensMetadataDirectory hwell hregular hd ht
  rw [ensureLensMetadataLayout]
  refine alone_then (hmake (by simp [LensWorkspacePaths.layout]) hs) fun _ t ht => ?_
  refine alone_then (hmake (by simp [LensWorkspacePaths.layout]) ht) fun _ t ht => ?_
  refine alone_then (hmake (by simp [LensWorkspacePaths.layout]) ht) fun _ t ht => ?_
  refine alone_then (hmake (by simp [LensWorkspacePaths.layout]) ht) fun _ t ht => ?_
  refine (hmake (by simp [LensWorkspacePaths.layout]) ht).mono (fun h => h) fun _ t ht => ?_
  refine ⟨ht.grounds, ht.contents, ht.holder, fun d hd => ht.dirs d ?_⟩
  simpa [LensWorkspacePaths.layout, or_comm, or_left_comm, or_assoc] using hd

theorem Scene.outside {xs : List Path} {v' : Contents} (hs : Scene P v h P.layout s)
    (hxs : ∀ x ∈ xs, x ∈ P.contents) (hout : Outside xs s t) (hholder : t.holder = s.holder)
    (hv : t.contents P = v') : Scene P v' h P.layout t where
  grounds := hs.grounds.outside hwell hregular hxs hout
  contents := hv
  holder := hholder ▸ hs.holder
  dirs d hd := by
    obtain ⟨-, a, ha, hda, hne⟩ := hregular.layout d hd
    rw [hout d fun x hx => not_below hwell (P.places_of_contents (hxs x hx)) ha hda hne]
    exact hs.dirs d hd

omit hregular in
theorem Scene.lock {tree : FsTree LensFile} (hs : Scene P v none P.layout s)
    (hopened : opened s.tree P.lock = .ok tree) :
    Scene P v (some i) P.layout { s with
      tree := tree, holder := fun p => if p = P.lock then some i else s.holder p } where
  grounds := grounds_opened hwell hs.grounds hopened
  contents := (contents_opened hwell hopened).trans hs.contents
  holder := if_pos rfl
  dirs d hd := (opened_eq_ok hopened).2 d (hs.dirs d hd)

omit hwell hregular in
theorem Scene.unlock (hs : Scene P v (some i) P.layout s) :
    Scene P v none P.layout (s.unlock i P.lock) where
  grounds := ⟨hs.grounds.base, hs.grounds.above, hs.grounds.lock⟩
  contents := hs.contents
  holder := if_pos ⟨rfl, hs.holder⟩
  dirs := hs.dirs

omit hwell in
theorem respond_lock {c : LensChoice} (hs : Scene P v none P.layout s) (hc : c.error = none) :
    ∃ tree, opened s.tree P.lock = .ok tree ∧ lensHost.respond i s (.lock P.lock) c = (.ok (), { s with
      tree := tree, holder := fun p => if p = P.lock then some i else s.holder p }) := by
  have hopened : ∃ tree, opened s.tree P.lock = .ok tree := by
    rcases hs.grounds.lock with hnone | ⟨content, hfile⟩
    · obtain ⟨n, hn⟩ := hregular.lock
      have hdir : s.tree.hasDir P.lock.dropLast = true := by
        rw [hn, List.dropLast_concat]
        exact FsTree.hasDir_iff.mpr (hs.dirs _ (by simp [LensWorkspacePaths.layout]))
      refine ⟨s.tree.put P.lock (.file .torn), ?_⟩
      rw [opened, hnone]
      show s.tree.create P.lock .torn = _
      rw [FsTree.create, hnone, if_neg (by simp), if_pos hdir]
    · refine ⟨s.tree, ?_⟩
      rw [opened, hfile]
  obtain ⟨tree, htree⟩ := hopened
  refine ⟨tree, htree, ?_⟩
  show s.lock i P.lock c = _
  rw [LensStore.lock, hc, htree]
  dsimp only
  rw [hs.holder]
  rfl

theorem alone_withLock {fails' : Prop} {α : Type} {action : LensProg α}
    {R R' : α → LensStore → Prop} (hs : Scene P v none P.layout s)
    (haction : ∀ t, Scene P v (some i) P.layout t → Undisturbed fails i action R t)
    (hfails : fails → fails') (hunlock : ∀ a t, R a t → R' a (t.unlock i P.lock)) :
    Undisturbed fails' i (withLensWorkspaceLock P.lock action) R' s := by
  refine alone_checkContext none fun c hc => ?_
  obtain ⟨tree, hopened, hrespond⟩ := respond_lock (i := i) hregular hs hc
  rw [hrespond]
  have htaken := hs.lock (i := i) hwell hopened
  refine alone_attempt (alone_checkContext none (haction _ htaken)) (fun a t ha => ?_)
    fun h e t => ?_
  · exact fun c hc => hunlock a t ha
  · exact fun c hc => hfails h

end Scenes

/-! ## Reading -/

/-- A program that only reads returns a value. -/
abbrev Reads (i : Nat) {α : Type} (p : LensProg α) (a : α) (s : LensStore) : Prop :=
  Undisturbed False i p (fun r t => r = a ∧ t = s) s

section Reading

variable {i : Nat} {s : LensStore} {fails : Prop} {α β : Type} {P : LensWorkspacePaths}
  {v : Contents} {h : Option Nat} {I : LensWorkspaceIdentity} {T : LensWorkspaceTombstone}

variable {p : Path}

theorem alone_reads {p : LensProg α} {a : α} {f : α → LensProg β} {Q : β → LensStore → Prop}
    (hp : Reads i p a s) (hf : Undisturbed fails i (f a) Q s) :
    Undisturbed fails i (p.bind f) Q s := by
  refine alone_then (hp.mono (fun h => h.elim) fun _ _ h => h) fun _ _ heq => ?_
  obtain ⟨rfl, rfl⟩ := heq
  exact hf

variable (hregular : P.Regular) (hs : Scene P v h P.layout s)

include hregular hs

theorem respond_lstat_content {c : LensChoice} (hp : p ∈ P.contents) (hnone : s.tree.get p = none)
    (hc : c.error = none) :
    lensHost.respond i s (.lstat p) c = (.error (.file (.lookup .notExist)), s) :=
  respond_lstat_none (hregular.plain p hp)
    (hs.grounds.above p (P.places_of_contents hp)) hnone hc

theorem reads_pathMissing (hp : p ∈ P.contents) :
    Reads i (pathMissing p) (s.tree.get p).isNone s := by
  cases hget : s.tree.get p with
  | none =>
    exact alone_call (fun c hc => respond_lstat_content hregular hs hp hget hc) ⟨rfl, rfl⟩
  | some e =>
    exact alone_call (fun c hc => respond_lstat (hregular.plain p hp) hget hc) ⟨rfl, rfl⟩

omit hs in
theorem reads_readRegular {content : LensFile} (hp : p ∈ P.contents)
    (hget : s.tree.get p = some (.file content)) (what : String) :
    Reads i (readRegular p what) (.ok content) s := by
  refine alone_call (fun c hc => respond_lstat (hregular.plain p hp) hget hc) ?_
  intro c hc
  rw [respond_readFile (hregular.plain p hp) hget hc]
  exact ⟨rfl, rfl⟩

theorem reads_readRegular_none (hp : p ∈ P.contents) (hget : s.tree.get p = none) (what : String) :
    Reads i (readRegular p what) (.error (.file (.lookup .notExist))) s :=
  alone_call (fun _ hc => respond_lstat_content hregular hs hp hget hc) ⟨rfl, rfl⟩

theorem reads_readTombstone (hget : v.tombstone = some (.file (.tombstone T))) (hT : Says P I T) :
    Reads i (readLensWorkspaceTombstone P.tombstone) (.ok T) s := by
  rw [← hs.contents] at hget
  refine alone_reads (reads_readRegular hregular P.tombstone_mem hget _) ?_
  show Undisturbed False i (ite _ _ _ : LensProg (Except LensError LensWorkspaceTombstone)) _ s
  rw [if_neg]
  · exact ⟨rfl, rfl⟩
  · rintro (hversion | ⟨hretiring, hretired⟩)
    · exact hversion hT.version
    · exact hT.state.elim hretiring hretired

theorem reads_readTombstone_none (hget : v.tombstone = none) :
    Reads i (readLensWorkspaceTombstone P.tombstone) (.error (.file (.lookup .notExist))) s := by
  rw [← hs.contents] at hget
  exact alone_reads (reads_readRegular_none hregular hs P.tombstone_mem hget _) ⟨rfl, rfl⟩

theorem reads_readIdentity (hget : v.identity = some (.file (.identity I))) :
    Reads i (readLensWorkspaceIdentity P.identity) (.ok I) s := by
  rw [← hs.contents] at hget
  exact alone_reads (reads_readRegular hregular P.identity_mem hget _) ⟨rfl, rfl⟩

theorem reads_readIdentity_none (hget : v.identity = none) :
    Reads i (readLensWorkspaceIdentity P.identity) (.error (.file (.lookup .notExist))) s := by
  rw [← hs.contents] at hget
  exact alone_reads (reads_readRegular_none hregular hs P.identity_mem hget _) ⟨rfl, rfl⟩

theorem reads_readIdentity_torn (hget : v.identity = some (.file .torn)) :
    Reads i (readLensWorkspaceIdentity P.identity)
      (.error (.other "managed workspace identity is invalid")) s := by
  rw [← hs.contents] at hget
  exact alone_reads (reads_readRegular hregular P.identity_mem hget _) ⟨rfl, rfl⟩

theorem reads_validateIdentity (hget : v.identity = some (.file (.identity I))) :
    Reads i (validateLensWorkspaceIdentity P.identity I) () s := by
  refine alone_reads (reads_readIdentity hregular hs hget) ?_
  show Undisturbed False i (ite _ _ _ : LensProg Unit) _ s
  rw [if_neg (not_not.mpr rfl)]
  exact ⟨rfl, rfl⟩

theorem reads_refuseExisting (hget : v.workspace = none) :
    Reads i (refuseExistingWorkspace P.workspace) () s := by
  rw [← hs.contents] at hget
  exact alone_call (fun c hc => respond_lstat_content hregular hs P.workspace_mem hget hc)
    ⟨rfl, rfl⟩

omit hregular hs in
theorem reads_validateTombstone (hT : Says P I T) :
    Reads i (validateLensWorkspaceTombstone T I P.workspace) () s := by
  rw [validateLensWorkspaceTombstone, if_neg]
  · exact ⟨rfl, rfl⟩
  · rintro (hidentity | hpath)
    · exact hidentity hT.identity
    · exact hpath hT.workspacePath

end Reading

/-! ## Writing -/

section Writing

variable {i : Nat} {s : LensStore} {P : LensWorkspacePaths} {v : Contents} {h : Option Nat}
  {I : LensWorkspaceIdentity} (hwell : P.WellPlaced) (hregular : P.Regular)
  (hs : Scene P v h P.layout s)

include hwell hregular hs

theorem Scene.putIdentity {e : Entry LensFile} (hput : s.tree.Puttable P.identity e) :
    Scene P { v with identity := some e } h P.layout
      { s with tree := s.tree.put P.identity e } := by
  refine hs.outside hwell hregular (by simp [P.identity_mem]) outside_put rfl ?_
  rw [contents_identity hwell outside_put, hs.contents]
  exact congrArg (fun e => { v with identity := e }) (FsTree.get_put_self hput)

theorem alone_writeIdentity (hidentity : v.identity = none) :
    Undisturbed False i (writeLensWorkspaceIdentity P.identity I) (fun r t => r = .ok () ∧
      Scene P { v with identity := some (.file (.identity I)) } h P.layout t) s := by
  have hnone : s.tree.get P.identity = none := by
    rw [← hs.contents] at hidentity
    exact hidentity
  have hdir : s.tree.hasDir P.identity.dropLast = true := by
    obtain ⟨n, hn⟩ := hregular.identity
    rw [hn, List.dropLast_concat]
    exact FsTree.hasDir_iff.mpr (hs.dirs _ (by simp [LensWorkspacePaths.layout]))
  have hput : s.tree.Puttable P.identity (.file .torn) := FsTree.puttable_of_none hnone hdir
  have hcreated := hs.putIdentity hwell hregular hput
  have hfile := FsTree.get_put_self hput
  have hwritten := hcreated.putIdentity hwell hregular (e := .file (.identity I))
    (puttable_of_file hfile)
  refine alone_call (fun c hc => respond_createExclusive hnone hdir hc) ?_
  refine alone_then (R := fun r t => r = .ok () ∧
    Scene P { v with identity := some (.file (.identity I)) } h P.layout t) ?_ fun r t hr => ?_
  · refine alone_call (fun c hc => respond_write hfile hc) ?_
    refine alone_call (fun _ hc => respond_settle hc) ?_
    intro c hc
    rw [respond_settle hc]
    exact ⟨rfl, hwritten⟩
  · obtain ⟨rfl, ht⟩ := hr
    exact ⟨rfl, ht⟩

theorem alone_claimIdentity (hidentity : v.identity = none) :
    Undisturbed False i (claimLensWorkspaceIdentity P.identity I)
      (fun _ t => Scene P { v with identity := some (.file (.identity I)) } h P.layout t) s := by
  refine alone_then (alone_writeIdentity hwell hregular hs hidentity) fun r t hr => ?_
  obtain ⟨rfl, ht⟩ := hr
  exact ht

theorem alone_ensureWorkspace {fails : Prop} {i : Nat}
    (hworkspace : v.workspace = none ∨ v.workspace = some .dir)
    {who : Option LensWorkspaceIdentity} :
    Undisturbed fails i (secureEnsureDirectory P.workspace P.root who) (fun r t =>
      Scene P { v with workspace := some .dir } h P.layout t ∧ r.1 = P.workspace) s := by
  have hroot : s.tree.get P.root = some .dir := by
    obtain ⟨n, hn⟩ := hregular.trashRoot
    have htrash := hs.dirs P.trashRoot (by simp [LensWorkspacePaths.layout])
    exact s.tree.closed P.root n _ (hn ▸ htrash)
  have hbelow : ∀ a ∈ P.places, a ≠ P.workspace → ¬ a <+: P.workspace := fun a ha hne =>
    (hwell.apart_of_ne ha (P.places_of_contents P.workspace_mem) hne).1
  obtain ⟨⟨hwt, hwi, hws⟩, -⟩ := hwell.contents_apart
  refine (alone_secureEnsureDirectory hwell.workspace hroot fun d hd => ?_).mono (fun h => h) ?_
  · by_cases hdw : d = P.workspace
    · rw [← hs.contents] at hworkspace
      exact hdw ▸ hworkspace
    · exact hs.grounds.above _ (P.places_of_contents P.workspace_mem) d hd hdw
  rintro r t ⟨ht, hr⟩
  refine ⟨⟨⟨?_, fun a ha d hd hda => ?_, ?_⟩, ?_, ?_, fun d hd => ?_⟩, hr⟩
  · exact ht.above (base_above hwell hregular).1
  · by_cases hdw : d <+: P.workspace
    · exact .inr (ht.above hdw)
    · rw [ht.out d hdw]
      exact hs.grounds.above a ha d hd hda
  · rw [ht.out _ (hbelow _ P.lock_mem fun heq => ?_)]
    · exact hs.grounds.lock
    · exact lock_outside hwell P.workspace_mem (heq ▸ List.prefix_refl _)
  · rw [← hs.contents]
    ext1
    · exact ht.dir
    · exact ht.out _ (hbelow _ (P.places_of_contents P.trash_mem) (ne_of_outside hwt))
    · exact ht.out _ (hbelow _ (P.places_of_contents P.identity_mem) (ne_of_outside hwi))
    · exact ht.out _ (hbelow _ (P.places_of_contents P.tombstone_mem) (ne_of_outside hws))
  · rw [ht.holder]
    exact hs.holder
  · by_cases hdw : d <+: P.workspace
    · exact ht.above hdw
    · exact (ht.out d hdw).trans (hs.dirs d hd)

omit hwell hregular in
theorem Scene.setTemp (i : Nat) (content : Option LensFile) :
    Scene P v h P.layout (s.setTemp i content) where
  grounds := ⟨hs.grounds.base, hs.grounds.above, hs.grounds.lock⟩
  contents := hs.contents
  holder := hs.holder
  dirs := hs.dirs

theorem alone_writeState {i : Nat} {state : String}
    (hstate : state = lensWorkspaceTombstoneRetiring ∨ state = lensWorkspaceTombstoneRetired)
    (hnot : v.tombstone ≠ some .dir) (existing : LensWorkspaceTombstone) :
    Undisturbed False i (writeState P I state existing) (fun _ t => ∃ T, Says P I T ∧
      T.state = state ∧
      Scene P { v with tombstone := some (.file (.tombstone T)) } h P.layout t) s := by
  obtain ⟨n, hn⟩ := hregular.tombstone
  have hparent : s.tree.get P.tombstone.dropLast = some .dir := by
    rw [hn, List.dropLast_concat]
    exact hs.dirs _ (by simp [LensWorkspacePaths.layout])
  have hno : s.tree.get P.tombstone ≠ some .dir := by
    rw [← hs.contents] at hnot
    exact hnot
  intro c hc
  refine alone_call (fun c hc => respond_createTemp hparent hc) ?_
  have hfill : ∀ T, Says P I T → T.state = state →
      Undisturbed False i (fillLensWorkspaceTombstone P.tombstone T) (fun _ t => ∃ T, Says P I T ∧
        T.state = state ∧
        Scene P { v with tombstone := some (.file (.tombstone T)) } h P.layout t)
        (s.setTemp i (some .torn)) := by
    intro T hT hTstate
    have htemp := (hs.setTemp i (some .torn)).setTemp i (some (.tombstone T))
    refine alone_call (fun c hc => respond_settleTemp hc) ?_
    refine alone_call (fun c hc => respond_writeTemp hc) ?_
    refine alone_call (fun c hc => respond_settleTemp hc) ?_
    refine alone_call (fun c hc => respond_settleTemp hc) ?_
    refine alone_call (fun c hc => respond_replaceWithTemp (if_pos rfl) hno
      (FsTree.hasDir_iff.mpr hparent) hc) ?_
    intro c hc
    rw [respond_syncDirectory hc]
    have hput : s.tree.Puttable P.tombstone (.file (.tombstone T)) :=
      ⟨by rw [hn]; simp, FsTree.hasDir_iff.mpr hparent, .inr (FsTree.names_of_not_dir hno)⟩
    refine ⟨T, hT, hTstate, Scene.setTemp
      (htemp.outside hwell hregular (by simp [P.tombstone_mem]) outside_put rfl ?_) i none⟩
    rw [contents_tombstone hwell outside_put, htemp.contents]
    exact congrArg (fun e => { v with tombstone := e }) (FsTree.get_put_self hput)
  exact alone_attempt (hfill _ ⟨rfl, rfl, rfl, hstate⟩ rfl) (fun _ t ht => ht) fun h => h.elim

end Writing

/-! ## Preparation -/

section Tasks

variable {i : Nat} {s : LensStore} {P : LensWorkspacePaths} {v : Contents}
  {I : LensWorkspaceIdentity} (hwell : P.WellPlaced) (hregular : P.Regular)

include hwell hregular

variable {h : Option Nat}

theorem alone_prepare (hs : Scene P v none [] s) (hv : Recorded P I v)
    (hwhole : v.identity ≠ some (.file .torn)) (htombstone : v.tombstone = none) :
    Undisturbed False i (Lens.prepare P I) (fun r t => r.1 = P.workspace ∧
      t.tree.get P.workspace = some .dir) s := by
  refine alone_then (alone_ensureLayout hwell hregular hs) fun _ t ht => ?_
  refine alone_withLock hwell hregular ht (R := fun r t => r.1 = P.workspace ∧
    t.tree.get P.workspace = some .dir) (fun t ht => ?_) (fun h => h) fun r t hr => hr
  refine alone_reads (reads_readTombstone_none hregular ht htombstone) ?_
  show Undisturbed False i (prepareWorkspace P I) _ t
  have hensure : ∀ {v' : Contents} {t : LensStore}, Scene P v' (some i) P.layout t →
      (v'.workspace = none ∨ v'.workspace = some .dir) →
      Undisturbed False i (secureEnsureDirectory P.workspace P.root (some I))
        (fun r t => r.1 = P.workspace ∧ t.tree.get P.workspace = some .dir) t :=
    fun ht hworkspace => (alone_ensureWorkspace hwell hregular ht hworkspace).mono (fun h => h)
      fun r t ⟨ht, hr⟩ => ⟨hr, congrArg Contents.workspace ht.contents⟩
  rcases hv.identity with hnone | htorn | hidentity
  · have hworkspace : v.workspace = none := by
      by_contra hne
      cases hnone.symm.trans (hv.kept (.inl hne))
    refine alone_reads (reads_readIdentity_none hregular ht hnone) ?_
    refine alone_reads (reads_refuseExisting hregular ht hworkspace) ?_
    exact alone_then (alone_claimIdentity hwell hregular ht hnone) fun _ t ht =>
      hensure ht (.inl hworkspace)
  · exact absurd htorn hwhole
  · refine alone_reads (reads_readIdentity hregular ht hidentity) ?_
    show Undisturbed False i (ite _ _ _ : LensProg (Path × Bool)) _ t
    rw [if_neg (not_not.mpr rfl)]
    exact hensure ht hv.workspace

/-! ## Cleanup -/

structure Quarantined (P : LensWorkspacePaths) (I : LensWorkspaceIdentity) (v : Contents) :
    Prop where
  workspace : v.workspace = none
  trash : v.trash = none ∨ v.trash = some .dir
  identity : v.identity = none ∨ v.identity = some (.file (.identity I))
  tombstone : ∃ T, v.tombstone = some (.file (.tombstone T)) ∧ Says P I T ∧
    T.state = lensWorkspaceTombstoneRetiring

structure Retired (P : LensWorkspacePaths) (v : Contents) : Prop where
  workspace : v.workspace = none
  trash : v.trash = none
  identity : v.identity = none
  tombstone : ∃ T, v.tombstone = some (.file (.tombstone T)) ∧
    T.state = lensWorkspaceTombstoneRetired

omit hwell in
theorem reads_checkIdentity (hs : Scene P v h P.layout s) (hv : Recorded P I v)
    (hwhole : v.identity ≠ some (.file .torn)) :
    Reads i (checkCleanupIdentity P I v.workspace.isNone v.trash.isNone v.identity.isNone) () s := by
  rw [checkCleanupIdentity]
  rcases hv.identity with hnone | htorn | hidentity
  · have hgone : v.workspace = none ∧ v.trash = none := by
      refine ⟨?_, ?_⟩
      · by_contra hne
        cases hnone.symm.trans (hv.kept (.inl hne))
      · by_contra hne
        cases hnone.symm.trans (hv.kept (.inr hne))
    rw [hnone, hgone.1, hgone.2]
    exact ⟨rfl, rfl⟩
  · exact absurd htorn hwhole
  · rw [hidentity]
    exact reads_validateIdentity hregular hs hidentity

variable {T₀ : LensWorkspaceTombstone}

omit hwell in
theorem reads_checkCleanup (hs : Scene P v h P.layout s) (hv : Recorded P I v)
    (hwhole : v.identity ≠ some (.file .torn))
    (htombstone : (v.tombstone = none ∧ T₀ = {}) ∨ (v.tombstone = some (.file (.tombstone T₀)) ∧
      Says P I T₀ ∧ T₀.state = lensWorkspaceTombstoneRetiring)) :
    Reads i (checkCleanup P I) (.present T₀ (!v.workspace.isNone) (!v.trash.isNone)) s := by
  have hidentity := reads_checkIdentity (i := i) hregular hs hv hwhole
  have hmissing : (s.tree.get P.workspace).isNone = v.workspace.isNone ∧
      (s.tree.get P.trash).isNone = v.trash.isNone ∧
      (s.tree.get P.identity).isNone = v.identity.isNone := by
    rw [← hs.contents]
    exact ⟨rfl, rfl, rfl⟩
  refine alone_reads (reads_pathMissing hregular hs P.workspace_mem) ?_
  refine alone_reads (reads_pathMissing hregular hs P.trash_mem) ?_
  refine alone_reads (reads_pathMissing hregular hs P.identity_mem) ?_
  rw [hmissing.1, hmissing.2.1, hmissing.2.2]
  rcases htombstone with ⟨hnone, rfl⟩ | ⟨hT, hlabel, hretiring⟩
  · refine alone_reads (reads_readTombstone_none hregular hs hnone) ?_
    exact alone_reads hidentity ⟨rfl, rfl⟩
  · refine alone_reads (reads_readTombstone hregular hs hT hlabel) ?_
    refine alone_reads (reads_validateTombstone hlabel) ?_
    show Undisturbed False i (ite _ _ _ : LensProg CleanupFound) _ s
    rw [if_neg fun h => lensWorkspaceTombstoneRetired_ne (h.symm.trans hretiring),
      if_neg (not_not.mpr hretiring)]
    exact alone_reads hidentity ⟨rfl, rfl⟩

omit hwell in
theorem reads_checkCleanup_retired {T : LensWorkspaceTombstone} (hs : Scene P v h P.layout s)
    (hT : v.tombstone = some (.file (.tombstone T))) (hlabel : Says P I T)
    (hretired : T.state = lensWorkspaceTombstoneRetired)
    (hgone : v.workspace = none ∧ v.trash = none ∧ v.identity = none) :
    Reads i (checkCleanup P I) .retired s := by
  have hmissing : (s.tree.get P.workspace).isNone = v.workspace.isNone ∧
      (s.tree.get P.trash).isNone = v.trash.isNone ∧
      (s.tree.get P.identity).isNone = v.identity.isNone := by
    rw [← hs.contents]
    exact ⟨rfl, rfl, rfl⟩
  refine alone_reads (reads_pathMissing hregular hs P.workspace_mem) ?_
  refine alone_reads (reads_pathMissing hregular hs P.trash_mem) ?_
  refine alone_reads (reads_pathMissing hregular hs P.identity_mem) ?_
  rw [hmissing.1, hmissing.2.1, hmissing.2.2, hgone.1, hgone.2.1, hgone.2.2]
  refine alone_reads (reads_readTombstone hregular hs hT hlabel) ?_
  refine alone_reads (reads_validateTombstone hlabel) ?_
  show Undisturbed False i (ite _ _ _ : LensProg CleanupFound) _ s
  rw [if_pos hretired]
  exact ⟨rfl, rfl⟩

theorem alone_quarantineWorkspace (hs : Scene P v h P.layout s)
    (hworkspace : v.workspace = none ∨ v.workspace = some .dir)
    (htrash : v.trash = none ∨ v.trash = some .dir) (hmoved : v.trash ≠ none → v.workspace = none) :
    Undisturbed False i (quarantineWorkspace P I (!v.workspace.isNone) (!v.trash.isNone))
      (fun _ t => ∃ e, (e = none ∨ e = some .dir) ∧
        Scene P { v with workspace := none, trash := e } h P.layout t) s := by
  rcases hworkspace with hnone | hdir
  · have hsame : { v with workspace := none, trash := v.trash } = v := by rw [← hnone]
    rw [quarantineWorkspace, hnone]
    exact ⟨v.trash, htrash, hsame.symm ▸ hs⟩
  · have hgone : v.trash = none := by
      by_contra hne
      cases hdir.symm.trans (hmoved hne)
    have hget : s.tree.get P.workspace = some .dir := by
      rw [← hs.contents] at hdir
      exact hdir
    have hnone : s.tree.get P.trash = none := by
      rw [← hs.contents] at hgone
      exact hgone
    obtain ⟨n, hn⟩ := hregular.trash
    have hparent : s.tree.get P.trash.dropLast = some .dir := by
      rw [hn, List.dropLast_concat]
      exact hs.dirs _ (by simp [LensWorkspacePaths.layout])
    have hmovable : s.tree.Movable P.workspace P.trash := {
      apart := hwell.contents_apart.1.1
      parent := FsTree.hasDir_iff.mpr hparent
      apart' := hwell.contents_apart.2.1.1
      vacant := FsTree.names_of_not_dir (by simp [hnone]) }
    have hroot : s.tree.get P.root = some .dir := by
      obtain ⟨m, hm⟩ := hregular.trashRoot
      have htrashRoot := hs.dirs P.trashRoot (by simp [LensWorkspacePaths.layout])
      exact s.tree.closed P.root m _ (hm ▸ htrashRoot)
    rw [quarantineWorkspace, hdir, hgone]
    have hopen : Reads i (secureOpenDirectory P.workspace P.root) () s := by
      rw [secureOpenDirectory, hwell.workspace.1]
      refine alone_call (fun c hc => respond_openDirectory hroot hc) ?_
      refine alone_call (fun c hc => respond_openDirectory (p := P.root ++ _) ?_ hc) ⟨rfl, rfl⟩
      rw [hwell.workspace.2]
      exact hget
    refine alone_reads hopen ?_
    refine alone_call (fun c hc => respond_rename hget hnone hmovable hc) ?_
    have hout : Outside [P.workspace, P.trash] s (LensStore.moved P.workspace P.trash
        { s with tree := s.tree.move P.workspace P.trash }) := fun a ha =>
      FsTree.get_move_of_apart (ha _ (by simp)) (ha _ (by simp))
    refine ⟨some .dir, .inr rfl, hs.outside hwell hregular ?_ hout rfl ?_⟩
    · simp [P.workspace_mem, P.trash_mem]
    · rw [show (LensStore.moved P.workspace P.trash
        { s with tree := s.tree.move P.workspace P.trash }).contents P = _ from
          contents_move hwell hmovable, hs.contents, hget]

theorem alone_quarantineLocked (hs : Scene P v h P.layout s) (hv : Recorded P I v)
    (hwhole : v.identity ≠ some (.file .torn))
    (htombstone : (v.tombstone = none ∧ T₀ = {}) ∨ (v.tombstone = some (.file (.tombstone T₀)) ∧
      Says P I T₀ ∧ T₀.state = lensWorkspaceTombstoneRetiring)) :
    Undisturbed False i (quarantineLocked P I) (fun r t => r.error = none ∧
      r.alreadyRetired = false ∧ ∃ v', Quarantined P I v' ∧ Scene P v' h P.layout t) s := by
  have hnot : v.tombstone ≠ some .dir := by
    rcases htombstone with ⟨hnone, -⟩ | ⟨hT, -⟩
    · exact fun h => nomatch hnone.symm.trans h
    · exact fun h => nomatch hT.symm.trans h
  refine alone_attempt (reads_checkCleanup (i := i) hregular hs hv hwhole htombstone)
    (fun found t hfound => ?_) fun h => h.elim
  obtain ⟨rfl, rfl⟩ := hfound
  refine alone_attempt (alone_writeState (I := I) hwell hregular hs (.inl rfl) hnot T₀)
    (fun _ t ⟨T, hT, hstate, ht⟩ => ?_) fun h => h.elim
  refine alone_attempt (alone_quarantineWorkspace (I := I)
    (v := { v with tombstone := some (.file (.tombstone T)) }) hwell hregular ht hv.workspace
    hv.trash hv.moved) (fun removed t ⟨e, he, ht⟩ => ?_) fun h => h.elim
  refine ⟨rfl, rfl, _, ⟨rfl, he, ?_, T, rfl, hT, hstate⟩, ht⟩
  rcases hv.identity with hnone | htorn | hidentity
  · exact .inl hnone
  · exact absurd htorn hwhole
  · exact .inr hidentity

omit hwell in
theorem alone_quarantineLocked_retired (hs : Scene P v h P.layout s) (hv : Recorded P I v)
    (hretired : Retired P v) :
    Undisturbed False i (quarantineLocked P I) (fun r t => r.error = none ∧
      r.alreadyRetired = true ∧ Scene P v h P.layout t) s := by
  obtain ⟨T, hT, hstate⟩ := hretired.tombstone
  have hlabel : Says P I T := by
    rcases hv.tombstone with hnone | ⟨T', hT', hlabel⟩
    · exact nomatch hnone.symm.trans hT
    · obtain rfl : T' = T := by simpa using hT'.symm.trans hT
      exact hlabel
  refine alone_attempt (reads_checkCleanup_retired (i := i) hregular hs hT hlabel hstate
    ⟨hretired.workspace, hretired.trash, hretired.identity⟩) (fun found t hfound => ?_)
    fun h => h.elim
  obtain ⟨rfl, rfl⟩ := hfound
  exact ⟨rfl, rfl, hs⟩

theorem alone_purgeTrash (hs : Scene P v h P.layout s) :
    Undisturbed False i (purgeTrash P I)
      (fun _ t => Scene P { v with trash := none } h P.layout t) s := by
  refine alone_reads (reads_pathMissing hregular hs P.trash_mem) ?_
  cases hget : s.tree.get P.trash with
  | none =>
    refine ⟨hs.grounds, ?_, hs.holder, hs.dirs⟩
    rw [← hs.contents]
    exact congrArg (fun e => { s.contents P with trash := e }) hget
  | some e =>
    obtain ⟨n, hn⟩ := hregular.trash
    intro c hc
    rw [respond_removeAll hc]
    refine hs.outside hwell hregular (by simp [P.trash_mem]) outside_prune rfl ?_
    rw [contents_trash hwell outside_prune, hs.contents]
    exact congrArg (fun e => { v with trash := e })
      (FsTree.get_prune_self (hn ▸ List.append_ne_nil_of_right_ne_nil _ (by simp)))

theorem alone_retireIdentity (hs : Scene P v h P.layout s) (hv : Quarantined P I v)
    (htrash : v.trash = none) (existing : LensWorkspaceTombstone) :
    Undisturbed False i (retireIdentity P I existing)
      (fun _ t => ∃ v', Retired P v' ∧ Scene P v' h P.layout t) s := by
  have hnot : v.tombstone ≠ some .dir := by
    obtain ⟨T, hT, -⟩ := hv.tombstone
    exact fun h => nomatch hT.symm.trans h
  have hwrite : ∀ {t}, Scene P { v with identity := none } h P.layout t →
      Undisturbed False i (writeState P I lensWorkspaceTombstoneRetired existing)
        (fun _ t => ∃ v', Retired P v' ∧ Scene P v' h P.layout t) t := fun ht =>
    (alone_writeState (I := I) hwell hregular ht (.inr rfl) hnot existing).mono (fun h => h)
      fun _ t ⟨T, _, hstate, ht⟩ => by
        refine ⟨_, ?_, ht⟩
        exact ⟨hv.workspace, htrash, rfl, T, rfl, hstate⟩
  have hidentity := hv.identity
  rw [← hs.contents] at hidentity
  rcases hidentity with hnone | hfile
  · refine alone_call (fun c hc => respond_remove_none hnone hc) (hwrite ⟨hs.grounds, ?_,
      hs.holder, hs.dirs⟩)
    rw [← hs.contents]
    exact congrArg (fun e => { s.contents P with identity := e }) hnone
  · obtain ⟨n, hn⟩ := hregular.identity
    refine alone_call (fun c hc => respond_remove hfile hc) (hwrite ?_)
    refine hs.outside hwell hregular (by simp [P.identity_mem]) outside_prune rfl ?_
    rw [contents_identity hwell outside_prune, hs.contents]
    exact congrArg (fun e => { v with identity := e })
      (FsTree.get_prune_self (hn ▸ List.append_ne_nil_of_right_ne_nil _ (by simp)))

theorem alone_retireLocked (hs : Scene P v h P.layout s) (hv : Quarantined P I v)
    (htrash : v.trash = none) :
    Undisturbed False i (retireLocked P I)
      (fun _ t => ∃ v', Retired P v' ∧ Scene P v' h P.layout t) s := by
  obtain ⟨T, hT, hlabel, hstate⟩ := hv.tombstone
  refine alone_reads (reads_readTombstone hregular hs hT hlabel) ?_
  refine alone_reads (a := T) ⟨rfl, rfl⟩ (alone_reads (reads_validateTombstone hlabel) ?_)
  show Undisturbed False i (ite _ _ _ : LensProg Unit) _ s
  rw [if_neg fun h => lensWorkspaceTombstoneRetired_ne (h.symm.trans hstate),
    if_neg (not_not.mpr hstate)]
  have hpresent : Reads i (somePresent [P.workspace, P.trash]) false s := by
    have hworkspace := hv.workspace
    rw [← hs.contents] at hworkspace htrash
    refine alone_reads (reads_pathMissing hregular hs P.workspace_mem) ?_
    rw [show s.tree.get P.workspace = none from hworkspace]
    refine alone_reads (reads_pathMissing hregular hs P.trash_mem) ?_
    rw [show s.tree.get P.trash = none from htrash]
    exact ⟨rfl, rfl⟩
  exact alone_reads hpresent (alone_retireIdentity hwell hregular hs hv htrash T)

theorem alone_cleanup (hs : Scene P v none [] s) (hv : Recorded P I v)
    (hwhole : v.identity ≠ some (.file .torn))
    (hgone : ∀ T, v.tombstone = some (.file (.tombstone T)) →
      T.state = lensWorkspaceTombstoneRetired → Retired P v) :
    Undisturbed False i (Lens.cleanup P I) (fun r t => r.error = none ∧
      Retired P (t.contents P)) s := by
  refine alone_then (alone_ensureLayout hwell hregular hs) fun _ t ht => ?_
  by_cases hretired : Retired P v
  · have hlocked : Undisturbed False i (withLensWorkspaceLock P.lock (quarantineLocked P I))
        (fun r t => r.error = none ∧ r.alreadyRetired = true ∧ Scene P v none P.layout t) t :=
      alone_withLock hwell hregular ht
        (fun t ht => alone_quarantineLocked_retired hregular ht hv hretired) (fun h => h)
        fun r t ⟨herror, halready, ht⟩ => ⟨herror, halready, ht.unlock⟩
    refine alone_attempt hlocked (fun progress t ⟨herror, halready, ht⟩ => ?_) fun h => h.elim
    show Undisturbed False i (ite _ _ _ : LensProg LensCleanupResult) _ t
    rw [herror, if_neg (by simp), halready, if_pos rfl]
    exact ⟨herror, ht.contents.symm ▸ hretired⟩
  · obtain ⟨T₀, htombstone⟩ : ∃ T₀ : LensWorkspaceTombstone,
        (v.tombstone = none ∧ T₀ = {}) ∨ (v.tombstone = some (.file (.tombstone T₀)) ∧
          Says P I T₀ ∧ T₀.state = lensWorkspaceTombstoneRetiring) := by
      rcases hv.tombstone with hnone | ⟨T, hT, hlabel⟩
      · exact ⟨{}, .inl ⟨hnone, rfl⟩⟩
      · rcases hlabel.state with hretiring | hstate
        · exact ⟨T, .inr ⟨hT, hlabel, hretiring⟩⟩
        · exact absurd (hgone T hT hstate) hretired
    have hlocked : Undisturbed False i (withLensWorkspaceLock P.lock (quarantineLocked P I))
        (fun r t => r.error = none ∧ r.alreadyRetired = false ∧
          ∃ v', Quarantined P I v' ∧ Scene P v' none P.layout t) t :=
      alone_withLock hwell hregular ht
        (fun t ht => alone_quarantineLocked hwell hregular ht hv hwhole htombstone) (fun h => h)
        fun r t ⟨herror, halready, v', hv', ht⟩ => ⟨herror, halready, v', hv', ht.unlock⟩
    refine alone_attempt hlocked (fun progress t ⟨herror, halready, v', hv', ht⟩ => ?_)
      fun h => h.elim
    show Undisturbed False i (ite _ _ _ : LensProg LensCleanupResult) _ t
    rw [herror, if_neg (by simp), halready, if_neg (by simp)]
    refine alone_attempt (alone_purgeTrash hwell hregular ht) (fun _ t ht => ?_)
      fun h => h.elim
    have hv'' : Quarantined P I { v' with trash := none } :=
      ⟨hv'.workspace, .inl rfl, hv'.identity, hv'.tombstone⟩
    have hretire : Undisturbed False i (withLensWorkspaceLock P.lock (retireLocked P I))
        (fun _ t => ∃ v', Retired P v' ∧ Scene P v' none P.layout t) t :=
      alone_withLock hwell hregular ht
        (fun t ht => alone_retireLocked hwell hregular ht hv'' rfl) (fun h => h)
        fun r t ⟨v', hv', ht⟩ => ⟨v', hv', ht.unlock⟩
    refine alone_attempt hretire (fun _ t ⟨v', hv', ht⟩ => ?_) fun h => h.elim
    exact ⟨rfl, ht.contents.symm ▸ hv'⟩

theorem alone_cleanup_torn (hs : Scene P v none [] s) (htorn : v.identity = some (.file .torn))
    (htombstone : v.tombstone = none) :
    Undisturbed True i (Lens.cleanup P I) (fun r _ => r.error ≠ none) s := by
  refine alone_then (alone_ensureLayout hwell hregular hs) fun _ t ht => ?_
  have hlocked : Undisturbed True i (withLensWorkspaceLock P.lock (quarantineLocked P I))
      (fun r _ => r.error ≠ none) t := by
    refine alone_withLock (R := fun r _ => r.error ≠ none) hwell hregular ht
      (fun t ht => ?_) (fun _ : True => trivial) fun r t hr => hr
    have hmissing : (t.tree.get P.identity).isNone = false := by
      rw [← ht.contents] at htorn
      rw [show t.tree.get P.identity = _ from htorn]
      rfl
    have hcheck : Undisturbed True i (checkCleanup P I) (fun _ _ => False) t := by
      refine alone_reads (reads_pathMissing hregular ht P.workspace_mem) ?_
      refine alone_reads (reads_pathMissing hregular ht P.trash_mem) ?_
      refine alone_reads (reads_pathMissing hregular ht P.identity_mem) ?_
      rw [hmissing]
      refine alone_reads (reads_readTombstone_none hregular ht htombstone) ?_
      refine alone_then (R := fun _ _ => False) ?_ fun _ _ h => h.elim
      exact alone_reads (reads_readIdentity_torn hregular ht htorn) trivial
    exact alone_attempt hcheck (fun _ _ h => h.elim) fun _ e t => nofun
  refine alone_attempt hlocked (fun progress t herror => ?_) fun _ e t => nofun
  show Undisturbed True i (ite _ _ _ : LensProg LensCleanupResult) _ t
  rw [if_pos (Option.isSome_iff_ne_none.mpr herror)]
  exact herror

end Tasks

/-! ## Runs -/

def Estate.one (u : String) (P : LensWorkspacePaths) (hwell : P.WellPlaced) : Estate where
  site v := if v = u then some P else none
  wellPlaced h := by
    split at h
    · exact Option.some.inj h ▸ hwell
    · cases h
  apart huv h h' := by
    split at h
    · split at h'
      · rename_i hu hv
        exact absurd (hu.trans hv.symm) huv
      · cases h'
    · cases h

theorem Estate.one_site {u v : String} {P P' : LensWorkspacePaths} {hwell : P.WellPlaced}
    (h : (Estate.one u P hwell).site v = some P') : P' = P := by
  replace h : (if v = u then some P else none) = some P' := h
  split at h
  · exact (Option.some.inj h).symm
  · cases h

/-- Files that have nothing of a workspace yet. -/
structure Untouched (P : LensWorkspacePaths) (s : LensStore) : Prop where
  grounds : Grounds P s
  contents : s.contents P = ⟨none, none, none, none⟩
  temporary : ∀ j, s.temporary j = none
  maker : ∀ p, s.maker p = none

/-- What is left when the process exits: the kernel frees its locks. -/
def LensStore.exit (s : LensStore) : LensStore where
  tree := s.tree
  holder := fun _ => none
  temporary := fun _ => none
  maker := s.maker

/-- The runs of tasks on files that have nothing of a workspace yet. -/
def journalTasks (uuid : UUIDPackage) (P : LensWorkspacePaths) : System LensPool LensEvent :=
  crewSystem lensHost (LensJob.run uuid) (fun s _ => s) (Untouched P)

def OneIdentity (uuid : UUIDPackage) (I : LensWorkspaceIdentity) (P : LensWorkspacePaths) :
    LensPool → LensEvent → Prop :=
  Rely.Steady (fun job => job.payload.site uuid = .ok (I, P)) fun _ _ => True

def PrepareSucceeds (P : LensWorkspacePaths) (r : LensResult) (t : LensStore) : Prop :=
  (∃ created, r = .prepared P.workspace created) ∧ t.tree.get P.workspace = some .dir

def CleanupSucceeds (P : LensWorkspacePaths) (r : LensResult) (t : LensStore) : Prop :=
  (∃ result, r = .cleaned result ∧ result.error = none) ∧ Retired P (t.contents P)

section Runs

variable {uuid : UUIDPackage} {I : LensWorkspaceIdentity} {P : LensWorkspacePaths} {s : LensPool}

/-- What every state of a run has. -/
structure Journaled (uuid : UUIDPackage) (I : LensWorkspaceIdentity) (P : LensWorkspacePaths)
    (hwell : P.WellPlaced) (s : LensPool) : Prop where
  works : WorksOn uuid (Estate.one I.workspaceUID P hwell) s
  journal : Journal P I s.state
  labelled : Keeping (fun _ => Labelled P I) s

theorem labelled_run {job : LensJob} (hsite : job.payload.site uuid = .ok (I, P)) :
    (job.run uuid).Makes (Labelled P I) := by
  refine (makes_run uuid job).mono (fun r hr => ?_) fun _ _ => trivial
  rcases hr with rfl | ⟨I', P', hsite', hlabel⟩
  · trivial
  · obtain ⟨rfl, rfl⟩ := Prod.mk.inj (Except.ok.inj (hsite.symm.trans hsite'))
    exact hlabel

theorem journaled_start (hwell : P.WellPlaced) (huntouched : Untouched P s.state)
    (hinit : ∀ i, s.client i = none) : Journaled uuid I P hwell s := by
  have hnone : ∀ {v}, s.state.contents P = v → v = ⟨none, none, none, none⟩ := fun h =>
    h.symm.trans huntouched.contents
  refine ⟨worksOn_start ⟨fun h => ?_, fun h => ?_, fun h => ?_, huntouched.maker⟩ hinit,
    ⟨huntouched.grounds, ?_, fun j content h => ?_⟩, fun h => ?_⟩
  · obtain rfl := Estate.one_site h
    exact congrArg Contents.identity huntouched.contents
  · obtain rfl := Estate.one_site h
    exact congrArg Contents.tombstone huntouched.contents
  · obtain rfl := Estate.one_site h
    exact congrArg Contents.trash huntouched.contents
  · rw [huntouched.contents]
    exact ⟨.inl rfl, .inl rfl, .inl rfl, .inl rfl, fun h => by simp at h, fun _ => rfl,
      fun h => absurd rfl h⟩
  · exact nomatch (huntouched.temporary j).symm.trans h
  · exact nomatch (hinit _).symm.trans h

theorem journaled_step {hwell : P.WellPlaced} (hregular : P.Regular) {s' : LensPool}
    {a : LensEvent} (h : Journaled uuid I P hwell s) (hone : OneIdentity uuid I P s a)
    (hs : (lensTasks uuid).step s a = some s') : Journaled uuid I P hwell s' := by
  have hfits : FitsAt uuid (Estate.one I.workspaceUID P hwell) s a := by
    cases a with
    | start job =>
      intro I' P' hsite
      obtain ⟨rfl, rfl⟩ := Prod.mk.inj (Except.ok.inj ((Eq.symm hone).trans hsite))
      exact if_pos rfl
    | call i c => trivial
    | stop i => trivial
    | env e => trivial
  refine ⟨h.works.step hfits hs, ?_, Keeping.step h.labelled (fun job hjob => ?_) (lensTasks_step hs)⟩
  · cases a with
    | start job =>
      cases hs
      exact h.journal
    | call i c =>
      obtain ⟨job, r, k, hcall, rfl⟩ := crewStep_call (lensTasks_step hs)
      exact journal_call hwell hregular (if_pos rfl) Estate.one_site h.works.sound.keeps
        (h.works.sound.guard hcall) (h.labelled hcall).1 h.journal c
    | stop i =>
      obtain ⟨job, q, -, rfl⟩ := crewStep_stop (lensTasks_step hs)
      refine ⟨⟨h.journal.grounds.base, h.journal.grounds.above, h.journal.grounds.lock⟩,
        h.journal.recorded, fun j content hj => ?_⟩
      rw [show (lensHost.release i s.state).temporary j =
        if j = i then none else s.state.temporary j from rfl] at hj
      split at hj
      · cases hj
      · exact h.journal.temporary j content hj
    | env e => exact e.elim
  · subst hjob
    exact labelled_run hone

theorem undisturbed_run {fails : Prop} {i : Nat} {job : LensJob} {Q : LensResult → LensStore → Prop}
    {t : LensStore} (hsite : job.payload.site uuid = .ok (I, P))
    (h : Undisturbed fails i (job.work I P) Q t) : Undisturbed fails i (job.run uuid) Q t := by
  refine alone_checkContext _ ?_
  rw [hsite]
  exact h

end Runs

/-- After any run of tasks of one identity that an exit of the process ends, preparation
(unless there is a tombstone) and cleanup succeed if and only if the identity file is not
torn. -/
theorem recovers_iff (uuid : UUIDPackage) {I : LensWorkspaceIdentity} {P : LensWorkspacePaths}
    {payload : LensPayload} (hsite : payload.site uuid = .ok (I, P)) (hwell : P.WellPlaced)
    {s : LensPool} (hreach : (journalTasks uuid P).ReachableUnder (OneIdentity uuid I P) s)
    (i : Nat) :
    ((s.state.tree.get P.tombstone = none → Undisturbed False i
          ((LensJob.prepare payload).run uuid) (PrepareSucceeds P) s.state.exit) ∧
        Undisturbed False i ((LensJob.cleanup payload).run uuid) (CleanupSucceeds P)
          s.state.exit) ↔
      s.state.tree.get P.identity ≠ some (.file .torn) := by
  have hregular := (site_eq_ok hsite).2
  have hjournaled : Journaled uuid I P hwell s :=
    System.ReachableUnder.invariant (T := journalTasks uuid P)
      (fun s₀ h₀ => journaled_start hwell h₀.1 h₀.2)
      (fun _ _ _ h hone hs => journaled_step hregular h hone hs) hreach
  have hrecorded := hjournaled.journal.recorded
  have hscene : Scene P (s.state.contents P) none [] s.state.exit := {
    grounds := ⟨hjournaled.journal.grounds.base, hjournaled.journal.grounds.above,
      hjournaled.journal.grounds.lock⟩
    contents := rfl
    holder := rfl
    dirs := fun d hd => absurd hd List.not_mem_nil }
  constructor
  · rintro ⟨-, hcleanup⟩ htorn
    have htombstone : (s.state.contents P).tombstone = none := by
      by_contra hne
      exact hrecorded.whole hne htorn
    have hfails : Undisturbed True i ((LensJob.cleanup payload).run uuid)
        (fun r _ => ∀ result, r = .cleaned result → result.error ≠ none) s.state.exit := by
      refine undisturbed_run hsite (alone_then (alone_cleanup_torn hwell hregular hscene htorn
        htombstone) fun r t herror result hr => ?_)
      obtain rfl := LensResult.cleaned.inj hr
      exact herror
    rcases hcleanup.meet hfails ⟨{}, rfl⟩ with ⟨h, -⟩ | ⟨r, t, ⟨⟨result, rfl, herror⟩, -⟩, hne⟩
    · exact h
    · exact hne result rfl herror
  · intro hwhole
    refine ⟨fun htombstone => undisturbed_run hsite ?_, undisturbed_run hsite ?_⟩
    · refine alone_then (alone_prepare hwell hregular hscene hrecorded hwhole htombstone)
        fun r t ⟨hpath, hdir⟩ => ⟨⟨r.2, ?_⟩, hdir⟩
      rw [hpath]
    · have hgone : ∀ T, (s.state.contents P).tombstone = some (.file (.tombstone T)) →
          T.state = lensWorkspaceTombstoneRetired → Retired P (s.state.contents P) := by
        intro T hT hretired
        obtain ⟨hworkspace, htrash, hidentity⟩ :=
          (hjournaled.works.sound.keeps (if_pos rfl)).gone hT hretired
        exact ⟨hworkspace, htrash, hidentity, T, hT, hretired⟩
      exact alone_then (alone_cleanup hwell hregular hscene hrecorded hwhole hgone)
        fun r t ⟨herror, hretired⟩ => ⟨⟨r, rfl, herror⟩, hretired⟩

def onePayload : LensPayload := payloadAt "/srv/lens/a" "/srv/lens"

theorem onePaths_wellPlaced : onePaths.WellPlaced := by decide +kernel

theorem untouched_noTasks : Untouched onePaths noTasks.state where
  grounds := by
    refine ⟨by decide +kernel, fun a ha d hd hne => ?_, .inl (by decide +kernel)⟩
    have hall : ∀ a ∈ onePaths.places, ∀ d ∈ a.inits, d ≠ a →
        noTasks.state.tree.get d = none ∨ noTasks.state.tree.get d = some .dir := by
      decide +kernel
    exact hall a ha d (List.mem_inits d a |>.mpr hd) hne
  contents := by
    ext1
    all_goals rfl
  temporary _ := rfl
  maker _ := rfl

/-- A preparation, and a cleanup that stops when the workspace is in the trash. -/
def stopsInTrash : List LensEvent :=
  alone 0 (.prepare onePayload) 45 ++ alone 1 (.cleanup onePayload) 41 ++ [.stop 1]

def inTrash : LensPool := ((journalTasks oneUUID onePaths).exec noTasks stopsInTrash).get
  (by decide +kernel)

theorem recovers_iff_inTrash :
    (((inTrash.state.tree.get onePaths.tombstone = none → Undisturbed False 2
          ((LensJob.prepare onePayload).run oneUUID) (PrepareSucceeds onePaths)
          inTrash.state.exit) ∧
        Undisturbed False 2 ((LensJob.cleanup onePayload).run oneUUID)
          (CleanupSucceeds onePaths) inTrash.state.exit) ↔
      inTrash.state.tree.get onePaths.identity ≠ some (.file .torn)) ∧
    inTrash.state.tree.get onePaths.trash = some .dir ∧
      inTrash.state.tree.get onePaths.identity = some (.file (.identity oneIdentity)) := by
  refine ⟨?_, by decide +kernel, by decide +kernel⟩
  have hsite : onePayload.site oneUUID = .ok (oneIdentity, onePaths) := by decide +kernel
  refine recovers_iff oneUUID hsite onePaths_wellPlaced ?_ 2
  refine System.ReachableUnder.of_exec (T := journalTasks oneUUID onePaths)
    (.start ⟨untouched_noTasks, fun _ => rfl⟩) (System.every_of_forall fun a ha _ _ => ?_)
    (Option.some_get _).symm
  simp only [stopsInTrash, alone, List.mem_append, List.mem_cons, List.mem_replicate,
    List.not_mem_nil, or_false] at ha
  rcases ha with ((rfl | ⟨-, rfl⟩) | rfl | ⟨-, rfl⟩) | rfl
  · exact hsite
  · trivial
  · exact hsite
  · trivial
  · trivial

def failed (s : LensPool) (i : Nat) : Option String :=
  match s.client i with
  | some (_, .fail message) => some message
  | some (_, .ret (.cleaned result)) => result.error
  | _ => none

/-- A preparation that stops after it has created the identity file. -/
def stopsTorn : List LensEvent := alone 0 (.prepare onePayload) 37 ++ [.stop 0]

/-- After a preparation has stopped before its write of the identity, no preparation and no
cleanup succeeds. -/
theorem not_recovers :
    (((journalTasks oneUUID onePaths).exec noTasks stopsTorn).map fun s =>
        s.state.tree.get onePaths.tombstone) = some none ∧
      (((journalTasks oneUUID onePaths).exec noTasks
        (stopsTorn ++ alone 1 (.prepare onePayload) 27)).bind fun s => failed s 1) =
          some "managed workspace identity is invalid" ∧
      (((journalTasks oneUUID onePaths).exec noTasks
        (stopsTorn ++ alone 1 (.cleanup onePayload) 30)).bind fun s => failed s 1) =
          some "managed workspace identity is missing or invalid" := by
  decide +kernel

end HyperFileLens.Lens
