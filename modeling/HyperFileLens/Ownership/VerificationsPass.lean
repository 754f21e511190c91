import HyperFileLens.Ownership.ClaimsGuarded

/-!
# Verifications of an owned repository pass

What a verification finds at a repository whose claim has succeeded, whatever other runs do
meanwhile.

*Reading.*  Such a verification only reads. `Follows` is a way to follow a run that reads a
tree in which the repository is accepted: among other runs, where it may be refused a call
(`amongOthers`), or alone, to its end (`onItsOwn`).

*Walks.*  Followed alone, a walk has to be followed deep enough.
-/

namespace HyperFileLens.Ownership

open Service FileTree FilePath Storage Cleanup

variable {root : Path} {i : Nat} {s s' : OwnershipStore} {spec : RepositorySpec}
  {location : List Char × List Char} {ownership : RepositoryOwnership}

/-- A call that leaves the tree alone. -/
structure Reads (r : OwnershipCall) : Prop where
  tree : ∀ t, (perform t r).2 = t
  created : ∀ t, created t r = none
  guard : ∀ root i s, Guard root i s r
  timely : ∀ root i s, Timely root i s r

theorem reads_lstat (p : Path) : Reads (.fs (.lstat p)) :=
  ⟨fun _ => rfl, fun _ => rfl, fun _ _ _ => trivial, fun _ _ _ => trivial⟩

theorem reads_readFile (p : Path) : Reads (.fs (.readFile p)) :=
  ⟨fun _ => rfl, fun _ => rfl, fun _ _ _ => trivial, fun _ _ _ => trivial⟩

theorem reads_list (p : Path) : Reads (.list p) :=
  ⟨fun _ => rfl, fun _ => rfl, fun _ _ _ => trivial, fun _ _ _ => trivial⟩

/-- A way to follow a run that reads a tree in which a repository is accepted. -/
structure Follows (root : Path) (spec : RepositorySpec) (location : List Char × List Char)
    (ownership : RepositoryOwnership) (i : Nat) where
  /-- A program returns with a property. -/
  holds : ∀ {α : Type}, OwnershipProg α → (α → OwnershipStore → Prop) → OwnershipStore → Prop
  /-- What every state has in which it makes a call. -/
  keeps : OwnershipStore → Prop
  /-- A walk may be followed to a depth only. -/
  cuts : Prop
  kept : ∀ {t}, keeps t → Keeps root t ∧ Accepted root spec location ownership t
  ret : ∀ {α : Type} {a : α} {Q : α → OwnershipStore → Prop} {s}, Q a s → holds (.ret a) Q s
  cut : ∀ {α : Type} {Q : α → OwnershipStore → Prop} {s}, (keeps s → cuts) → holds .cut Q s
  mono : ∀ {α : Type} {p : OwnershipProg α} {P Q : α → OwnershipStore → Prop} {s},
    holds p P s → (∀ a t, P a t → Q a t) → holds p Q s
  andThen : ∀ {α β : Type} {p : OwnershipProg α} {f : α → OwnershipProg β}
    {P : α → OwnershipStore → Prop} {Q : β → OwnershipStore → Prop} {s},
    holds p P s → (∀ a t, P a t → holds (f a) Q t) → holds (p.bind f) Q s
  read : ∀ {β : Type} {r : OwnershipCall} {k : OwnershipAnswer r → OwnershipProg β}
    {Q : β → OwnershipStore → Prop} {A : MarkerTree → Prop} {s}, Reads r →
    (∀ t t', A t.tree → Grows root i t t' → A t'.tree) → A s.tree →
    (∀ t, keeps t → A t.tree → holds (k (perform t.tree r).1) Q t) → holds (.call r k) Q s

section Following

variable (L : Follows root spec location ownership i)

/-! ## What is there -/

variable {q : Path} {ps : List Path}

section

variable (h : Accepted root spec location ownership s)

include h

theorem Accepted.dir
    (hq : q <+: clean location.1 ++ [metadataName]) : s.tree.get q = some .dir := by
  obtain ⟨content, hfile, -⟩ := h.marks
  obtain ⟨z, hz⟩ := hq
  rw [markerPathOf_eq, ← hz, List.append_assoc] at hfile
  exact FsTree.get_of_prefix hfile (by simp)

theorem Accepted.dir_path (hq : q <+: clean location.1) : s.tree.get q = some .dir :=
  h.dir (hq.trans (List.prefix_append _ _))

theorem Accepted.dir_trimmed (htext : location.1 = textOf (clean location.1))
    (hq : q <+: (clean (Text.trimSpace location.1)).dropLast) : s.tree.get q = some .dir := by
  have habove := (isPrefix_of_trimmed (p := clean location.1)
    (fun _ h => isPlain_of_mem_clean h) fun _ h => slash_not_mem_clean h).1
  rw [← htext] at habove
  exact h.dir_path (hq.trans habove)

theorem Accepted.not_occupied (hkeeps : Keeps root s) {d : Path}
    (hd : Nested root (clean location.1) d) : ¬ Occupied s.tree d :=
  hkeeps.apart _ d hd h.marks.occupied

theorem Accepted.no_marker (hkeeps : Keeps root s) {c : Path} (hc : Below root c)
    (hp : c <+: (clean location.1).dropLast) : s.tree.get (markerPathOf c) = none := by
  have hpath : (clean location.1).dropLast <+: clean location.1 := List.dropLast_prefix _
  have hne : clean location.1 ≠ c := by
    intro heq
    have hlength := hp.length_le
    rw [← heq, List.length_dropLast] at hlength
    have hpos : 0 < (clean location.1).length := by
      rw [List.length_pos_iff]
      intro hnil
      exact h.below.2 (List.prefix_nil.mp (hnil ▸ h.below.1) |>.trans hnil.symm)
    omega
  have hnested : Nested root (clean location.1) c := ⟨h.below, hc, hne, .inr (hp.trans hpath)⟩
  cases hget : s.tree.get (markerPathOf c) with
  | none => rfl
  | some e =>
    refine absurd ⟨e, hget, ?_⟩ (h.not_occupied hkeeps hnested)
    rintro rfl
    exact (h.sane c hc hp).2 hget

end

/-! ## Calls -/

def Dirs (ps : List Path) (t : MarkerTree) : Prop := ∀ p ∈ ps, t.get p = some .dir

theorem dirs_stay (t t' : OwnershipStore) (h : Dirs ps t.tree) (hgrows : Grows root i t t') :
    Dirs ps t'.tree :=
  fun p hp => hgrows.dir p (h p hp)

/-- `os.Lstat`, when there are directories. -/
theorem Follows.lstat {β : Type} {Q : β → OwnershipStore → Prop} {p : Path}
    {k : Except FsError FileInfo → OwnershipProg β} (hs : Dirs ps s.tree)
    (hok : ∀ t e, L.keeps t → t.tree.get p = some e → L.holds (k (.ok (infoOf e))) Q t)
    (hmissing : ∀ t error, L.keeps t → error.isNotExist = true → t.tree.get p = none →
      L.holds (k (.error error)) Q t)
    (hdir : ∀ t, L.keeps t → Dirs ps t.tree → t.tree.get p.dropLast = some .dir) :
    L.holds (.call (.fs (.lstat p)) k) Q s := by
  refine L.read (A := Dirs ps) (reads_lstat p) dirs_stay hs fun t ht hdirs => ?_
  show L.holds (k ((ofLookup (t.tree.look p)).map infoOf)) Q t
  cases hget : t.tree.get p with
  | some e =>
    rw [FsTree.look_of_get hget]
    exact hok t e ht hget
  | none =>
    rw [FsTree.look_of_missing hget (hdir t ht hdirs)]
    exact hmissing t _ ht (by rfl) hget

theorem dirs_nil {t : MarkerTree} : Dirs [] t := fun p hp => by cases hp

/-- `os.Lstat` of a directory. -/
theorem Follows.lstat_dir {β : Type} {Q : β → OwnershipStore → Prop} {p : Path}
    {k : Except FsError FileInfo → OwnershipProg β}
    (hdir : ∀ t, L.keeps t → t.tree.get p = some .dir)
    (hok : ∀ t, L.keeps t → L.holds (k (.ok .dir)) Q t) :
    L.holds (.call (.fs (.lstat p)) k) Q s := by
  refine L.read (A := fun _ => True) (reads_lstat p) (fun _ _ _ _ => trivial) trivial
    fun t ht _ => ?_
  show L.holds (k ((ofLookup (t.tree.look p)).map infoOf)) Q t
  rw [FsTree.look_of_get (hdir t ht)]
  exact hok t ht

/-! ## The place -/

theorem Follows.rejectSymlinkNames {v : Path}
    (habove : ∀ t, L.keeps t → ∀ q, q <+: v.dropLast → t.tree.get q = some .dir)
    (hlink : ∀ t, L.keeps t → NoLink v t) (current : Path) (names : List Name)
    (hv : current ++ names = v) :
    L.holds (ofFs (Cleanup.rejectSymlinkNames current names)) (fun _ _ => True) s := by
  induction names generalizing current s with
  | nil => exact L.ret trivial
  | cons n rest ih =>
    have hdrop : current <+: v.dropLast := by
      rw [← hv, List.dropLast_append_of_ne_nil (List.cons_ne_nil n rest)]
      exact List.prefix_append _ _
    have hrest := fun t => ih (s := t) (current ++ [n]) (by rw [← hv]; simp)
    refine L.lstat dirs_nil (fun t e ht hget => ?_) (fun t error ht hnot hget => ?_)
      fun t ht _ => ?_
    · cases e with
      | dir => exact hrest t
      | file content => exact hrest t
      | special => exact hrest t
      | symlink target =>
        exfalso
        cases rest with
        | nil => exact hlink t ht target (hv ▸ hget)
        | cons m rest =>
          have hdir := habove t ht (current ++ [n]) (by
            rw [← hv]
            have hsplit : current ++ n :: m :: rest = (current ++ [n]) ++ m :: rest := by
              simp
            rw [hsplit, List.dropLast_append_of_ne_nil (List.cons_ne_nil m rest)]
            exact List.prefix_append _ _)
          cases hdir.symm.trans hget
    · show L.holds (ofFs (if error.isNotExist then pure () else .fail error.message)) _ t
      rw [if_pos hnot]
      exact L.ret trivial
    · rw [List.dropLast_concat]
      exact habove t ht _ hdrop

theorem Follows.validate {path allowedRoot : List Char} (hvalid : Valid path allowedRoot)
    (habove : ∀ t, L.keeps t → ∀ q, q <+: (clean (Text.trimSpace path)).dropLast →
      t.tree.get q = some .dir)
    (hlink : ∀ t, L.keeps t → NoLink (clean (Text.trimSpace path)) t) :
    L.holds (ofFs (validateRepositoryCleanupPath path allowedRoot))
      (fun v _ => v = clean (Text.trimSpace path)) s := by
  rw [validateRepositoryCleanupPath, if_neg hvalid.given, if_neg (by simp [hvalid.abs]),
    if_neg hvalid.ne_root]
  cases hroot : cleanupRoot allowedRoot with
  | none =>
    show L.holds (ofFs ((Cleanup.rejectSymlinkNames []
      (rel [] (clean (Text.trimSpace path)))).bind fun _ => pure _)) _ s
    rw [ofFs_bind]
    refine L.andThen (L.rejectSymlinkNames habove hlink [] _ ?_) fun _ t _ => L.ret rfl
    cases clean (Text.trimSpace path) <;> rfl
  | some r =>
    obtain ⟨habs, hne, hrel, hup⟩ := hvalid.inside r hroot
    show L.holds (ofFs (ite _ _ _ : FsProg Path)) _ s
    rw [if_neg (by simp [habs, hne]), if_neg (by simp [hrel, hup])]
    show L.holds (ofFs (((rejectSymlinkRoot r).bind fun _ => Cleanup.rejectSymlinkNames r
      (rel r (clean (Text.trimSpace path)))).bind fun _ => pure _)) _ s
    rw [ofFs_bind, ofFs_bind]
    have happend := append_rel hup
    refine L.andThen (P := fun _ _ => True) (L.andThen (P := fun _ _ => True) ?_ fun _ t _ =>
      L.rejectSymlinkNames habove hlink r _ happend) fun _ t _ => L.ret rfl
    refine L.lstat_dir (fun t ht => habove t ht r ?_) fun t ht => L.ret trivial
    rw [← happend, List.dropLast_append_of_ne_nil hrel]
    exact List.prefix_append _ _

theorem Follows.place (h : Accepted root spec location ownership s') :
    L.holds (ofFs (filesystemRepositoryOwnershipPath spec)) (fun r _ => r = location) s := by
  have hlocated := h.placed.located
  rw [RepositorySpec.location] at hlocated
  rw [filesystemRepositoryOwnershipPath]
  split at hlocated
  · rename_i hnas
    rw [if_pos hnas]
    cases hpath : repositoryNASPath spec with
    | error message =>
      rw [hpath] at hlocated
      cases hlocated
    | ok path =>
      rw [hpath] at hlocated
      exact L.ret (Except.ok.inj hlocated)
  rename_i hnas
  rw [if_neg hnas]
  split at hlocated
  · rename_i hproxy
    rw [if_pos hproxy]
    split at hlocated
    · cases hlocated
    rename_i hlayout
    rw [if_neg hlayout, validateManagedProxyFSRepositoryPath]
    cases hplace : managedProxyFSPath spec with
    | error message =>
      rw [hplace] at hlocated
      cases hlocated
    | ok place =>
      rw [hplace] at hlocated
      have hlocation := Except.ok.inj hlocated
      have hvalid := h.placed.proxy hproxy place hplace
      have hclean : clean location.1 = clean (Text.trimSpace place.1) := by
        rw [← hlocation]
        exact textOf_clean_textOf _
      show L.holds (ofFs ((validateRepositoryCleanupPath place.1 place.2).bind
        fun validated => pure (textOf validated, place.2))) _ s
      rw [ofFs_bind]
      refine L.andThen (L.validate hvalid (fun t ht q hq => ?_) fun t ht target hget => ?_)
        fun v t hv => L.ret ?_
      · have hdrop : (clean (Text.trimSpace place.1)).dropLast <+:
            clean (Text.trimSpace place.1) := List.dropLast_prefix _
        exact (L.kept ht).2.dir_path (hclean ▸ hq.trans hdrop)
      · have hdir := (L.kept ht).2.dir_path (List.prefix_refl _)
        rw [hclean] at hdir
        cases hdir.symm.trans hget
      · rw [hv]
        exact hlocation
  · cases hlocated

/-! ## Other owners -/

theorem Follows.readMarker_none {c : Path} (hc : Below root c)
    (hp : c <+: (clean location.1).dropLast) : L.holds (readMarker c) (fun m _ => m = none) s := by
  have hpath : (clean location.1).dropLast <+: clean location.1 := List.dropLast_prefix _
  refine L.lstat dirs_nil (fun t e ht hget => ?_) (fun t error ht hnot hget => ?_) fun t ht _ => ?_
  · rw [markerPathOf_dropLast] at hget
    obtain rfl := ((L.kept ht).2.sane c hc hp).1 e hget
    have hdirs : Dirs [c ++ [metadataName]] t.tree := fun p hp => by
      rw [List.mem_singleton.mp hp]
      exact hget
    refine L.lstat hdirs (fun u e hu hget => ?_) (fun u error hu hnot hget => ?_)
      fun u hu hdirs => ?_
    · cases ((L.kept hu).2.no_marker (L.kept hu).1 hc hp).symm.trans hget
    · show L.holds (ofFs (if error.isNotExist then pure none else .fail error.message)) _ u
      rw [if_pos hnot]
      exact L.ret rfl
    · rw [markerPathOf_dropLast]
      exact hdirs _ List.mem_cons_self
  · show L.holds (ofFs (if error.isNotExist then pure none else .fail error.message)) _ t
    rw [if_pos hnot]
    exact L.ret rfl
  · rw [markerPathOf_dropLast, List.dropLast_concat]
    exact (L.kept ht).2.dir_path (hp.trans hpath)

theorem Follows.readMarker_some : L.holds (readMarker (clean location.1))
      (fun m _ => m = some (repositoryOwnershipMarkerFromSpec ownership)) s := by
  refine L.lstat_dir (fun t ht => ?_) fun t ht => ?_
  · rw [markerPathOf_dropLast]
    exact (L.kept ht).2.dir (List.prefix_refl _)
  have hmarks := fun {u} (hu : L.keeps u) => (L.kept hu).2.marks
  refine L.read (A := fun _ => True) (reads_lstat _) (fun _ _ _ _ => trivial) trivial
    fun u hu _ => ?_
  obtain ⟨content, hfile, -⟩ := hmarks hu
  have hanswer : (perform u.tree (.fs (.lstat (markerPathOf (clean location.1))))).1 =
      (.ok (.file content.marker) : Except FsError FileInfo) := by
    show (ofLookup (u.tree.look _)).map infoOf = _
    rw [FsTree.look_of_get hfile]
    rfl
  rw [hanswer]
  refine L.read (A := fun _ => True) (reads_readFile (markerPathOf (clean location.1)))
    (fun _ _ _ _ => trivial) trivial fun w hw _ => ?_
  obtain ⟨content', hfile', hM⟩ := hmarks hw
  have hanswer' : (perform w.tree (.fs (.readFile (markerPathOf (clean location.1))))).1 =
      (.ok (some (repositoryOwnershipMarkerFromSpec ownership)) :
        Except FsError (Option RepositoryOwnershipMarker)) := by
    show (readEntry w.tree _).map MarkerFile.marker = _
    rw [readEntry, FsTree.look_of_get hfile']
    exact congrArg Except.ok hM
  rw [hanswer']
  exact L.ret rfl

theorem Follows.rejectAncestorNames (names : List Name)
    (hnames : names.reverse <+: (clean location.1).dropLast) (hroot : root <+: names.reverse) :
    L.holds (Ownership.rejectAncestorNames root names) (fun _ _ => True) s := by
  induction names generalizing s with
  | nil =>
    rw [Ownership.rejectAncestorNames, if_pos (List.prefix_nil.mp hroot)]
    exact L.ret trivial
  | cons n above ih =>
    rw [Ownership.rejectAncestorNames]
    split
    · exact L.ret trivial
    rename_i hne
    obtain ⟨rest, hrest⟩ := hroot
    have hup : (rel root (n :: above).reverse).head? ≠ some dotDot := by
      rw [← hrest, rel_append]
      intro hhead
      have hmem : dotDot ∈ clean location.1 := by
        have hpath : (clean location.1).dropLast <+: clean location.1 := List.dropLast_prefix _
        refine (hnames.trans hpath).subset ?_
        rw [← hrest]
        exact List.mem_append_right _ (List.mem_of_head? hhead)
      exact (isPlain_of_mem_clean hmem).2.2 rfl
    rw [if_neg hup]
    have hbelow : Below root (n :: above).reverse :=
      ⟨⟨rest, hrest⟩, fun heq => hne heq.symm⟩
    refine L.andThen (L.readMarker_none hbelow hnames) fun m t hm => ?_
    subst hm
    have habove : above.reverse <+: (n :: above).reverse := by
      rw [List.reverse_cons]
      exact List.prefix_append _ _
    refine ih (habove.trans hnames) ?_
    have hlast := isPrefix_dropLast hbelow.1 hbelow.2
    rwa [List.reverse_cons, List.dropLast_concat] at hlast

theorem Follows.rejectAncestors (hbelow : Below root (clean location.1)) :
    L.holds (rejectAncestorRepositoryOwners (clean location.1) root) (fun _ _ => True) s := by
  refine L.rejectAncestorNames _ ?_ ?_
  · rw [List.tail_reverse, List.reverse_reverse]
  · rw [List.tail_reverse, List.reverse_reverse]
    exact isPrefix_dropLast hbelow.1 hbelow.2

theorem Follows.rejectEntries (hs : Dirs ps s.tree) {walk : Name → OwnershipProg Unit}
    (below : List Name) (entries : List (Name × Bool))
    (hwalk : ∀ n t, (n, true) ∈ entries → Dirs ps t.tree →
      L.holds (walk n) (fun _ u => Dirs ps u.tree) t)
    (hothers : ∀ n, (n, false) ∈ entries → isForeignMarker (below ++ [n]) = false) :
    L.holds (Ownership.rejectEntries walk below entries) (fun _ u => Dirs ps u.tree) s := by
  induction entries generalizing s with
  | nil => exact L.ret hs
  | cons entry entries ih =>
    obtain ⟨n, isDir⟩ := entry
    have hrest {t : OwnershipStore} (ht : Dirs ps t.tree) :=
      ih ht (fun m u hm => hwalk m u (List.mem_cons_of_mem _ hm))
        fun m hm => hothers m (List.mem_cons_of_mem _ hm)
    cases isDir with
    | true => exact L.andThen (hwalk n s List.mem_cons_self hs) fun _ t ht => hrest ht
    | false =>
      show L.holds (ite _ _ _ : OwnershipProg Unit) _ s
      rw [if_neg (by simp [hothers n List.mem_cons_self])]
      exact hrest hs

/-- A path that looks like the marker of another repository is that of a place below. -/
theorem place_of_isForeignMarker {z : List Name} (h : isForeignMarker z = true) :
    ∃ z', z' ≠ [] ∧ z = z' ++ [metadataName, markerName] := by
  rw [isForeignMarker, Bool.and_eq_true] at h
  obtain ⟨z', hz'⟩ := List.isSuffixOf_iff_suffix.mp h.1
  refine ⟨z', fun hnil => ?_, hz'.symm⟩
  rw [hnil, List.nil_append] at hz'
  simp [← hz'] at h

/-- A walk is followed to its end, or is followed deep enough. -/
def Deep (p : Path) (depth : Nat) (below : List Name) : Prop :=
  L.cuts ∨ ∀ t, L.keeps t → ∀ q, (t.tree.get q).isSome = true →
    q.length < p.length + below.length + depth

theorem Follows.rejectBelow (hs : Dirs ps s.tree) (depth : Nat) (below : List Name)
    (hdir : clean location.1 ++ below ∈ ps) (hdepth : Deep L (clean location.1) depth below) :
    L.holds (Ownership.rejectBelow (clean location.1) depth below)
      (fun _ u => Dirs ps u.tree) s := by
  induction depth generalizing s ps below with
  | zero =>
    refine L.cut fun hkeeps => ?_
    rcases hdepth with hcuts | hdeep
    · exact hcuts
    · have hlength := hdeep s hkeeps (clean location.1 ++ below) (by rw [hs _ hdir]; rfl)
      rw [List.length_append] at hlength
      omega
  | succ depth ih =>
    refine L.read (A := Dirs ps) (reads_list _) dirs_stay hs fun t ht hdirs => ?_
    obtain ⟨entries, hentries⟩ := FsTree.entries_of_dir (hdirs _ hdir)
    have hmem {n : Name} {b : Bool} := FsTree.mem_entries hentries (n := n) (b := b)
    have hanswer : (perform t.tree (.list (clean location.1 ++ below))).1 =
        (.ok entries : Except FsError (List (Name × Bool))) := by
      show ofLookup (t.tree.entries _) = _
      rw [hentries]
      rfl
    rw [hanswer]
    have hmore : Dirs (ps ++ (entries.filter Prod.snd).map
        fun e => clean location.1 ++ (below ++ [e.1])) t.tree := by
      intro q hq
      rcases List.mem_append.mp hq with hq | hq
      · exact hdirs q hq
      · obtain ⟨⟨n, b⟩, he, rfl⟩ := List.mem_map.mp hq
        obtain ⟨he, rfl⟩ := List.mem_filter.mp he
        have hisdir := (hmem.mp he).2
        rw [← List.append_assoc]
        exact FsTree.hasDir_iff.mp hisdir.symm
    refine L.mono (L.rejectEntries hmore below entries (fun n u hn hu => ?_) fun n hn => ?_)
      fun _ u hu q hq => hu q (List.mem_append_left _ hq)
    · refine ih hu (below ++ [n]) (List.mem_append_right _ ?_) ?_
      · exact List.mem_map.mpr ⟨(n, true), List.mem_filter.mpr ⟨hn, rfl⟩, rfl⟩
      · refine hdepth.imp_right fun hdeep u hu q hq => ?_
        have hlength := hdeep u hu q hq
        rw [List.length_append, List.length_singleton]
        omega
    · obtain ⟨⟨e, he⟩, hnot⟩ := hmem.mp hn
      cases hforeign : isForeignMarker (below ++ [n]) with
      | false => rfl
      | true =>
        obtain ⟨z, hz, hplace⟩ := place_of_isForeignMarker hforeign
        have hbelow := (L.kept ht).2.below
        rw [List.append_assoc, hplace, ← markerPathOf_append] at he
        rw [List.append_assoc, hplace, ← markerPathOf_append] at hnot
        have hnested : Nested root (clean location.1) (clean location.1 ++ z) := by
          refine ⟨hbelow, ⟨hbelow.1.trans (List.prefix_append _ _), fun heq => ?_⟩,
            fun heq => hz ?_, .inl (List.prefix_append _ _)⟩
          · have hlength := hbelow.1.length_le
            have hsame := congrArg List.length heq
            rw [List.length_append] at hsame
            exact hz (List.length_eq_zero_iff.mp (by omega))
          · exact List.append_cancel_left (heq.symm.trans (List.append_nil _).symm)
        refine absurd ⟨e, he, ?_⟩ ((L.kept ht).2.not_occupied (L.kept ht).1 hnested)
        rintro rfl
        rw [FsTree.hasDir_iff.mpr he] at hnot
        cases hnot

theorem Follows.rejectDescendants (depth : Nat) (hdepth : Deep L (clean location.1) depth []) :
    L.holds (rejectDescendantRepositoryOwners depth (clean location.1)) (fun _ _ => True) s := by
  refine L.read (A := fun _ => True) (reads_lstat _) (fun _ _ _ _ => trivial) trivial
    fun t ht _ => ?_
  have hdir := (L.kept ht).2.dir_path (List.prefix_refl _)
  have hanswer : (perform t.tree (.fs (.lstat (clean location.1)))).1 =
      (.ok .dir : Except FsError FileInfo) := by
    show (ofLookup (t.tree.look _)).map infoOf = _
    rw [FsTree.look_of_get hdir]
    rfl
  rw [hanswer]
  have hdirs : Dirs [clean location.1] t.tree := fun p hp => by
    rw [List.mem_singleton.mp hp]
    exact hdir
  refine L.mono (L.rejectBelow hdirs depth [] ?_ hdepth) fun _ _ _ => trivial
  rw [List.append_nil]
  exact List.mem_cons_self

/-! ## Verification -/

theorem Follows.verify (h : Accepted root spec location ownership s') (depth : Nat)
    (adoptMissing : Bool) (hdepth : Deep L (clean location.1) depth []) :
    L.holds (OwnershipJob.run ⟨.verify adoptMissing, spec, depth⟩) (fun r _ => r = true) s := by
  have htext := location_text h.placed.located h.absolute
  refine L.andThen (P := fun r _ => r = ()) ?_ fun _ t _ => L.ret (by rw [h.owner]; rfl)
  rw [verifyFilesystemRepositoryOwnership, h.owner]
  refine L.andThen (L.place h) ?_
  rintro _ t rfl
  refine L.andThen (L.validate h.placed.valid (fun u hu q hq => (L.kept hu).2.dir_trimmed htext hq)
    fun u hu => (L.kept hu).2.link) fun _ t _ => ?_
  rw [h.rooted]
  refine L.andThen (L.rejectAncestors h.below) fun _ t _ => ?_
  refine L.andThen L.readMarker_some ?_
  rintro _ t rfl
  refine L.andThen (P := fun M _ => M = repositoryOwnershipMarkerFromSpec ownership) (L.ret rfl) ?_
  rintro _ t rfl
  refine L.andThen (P := fun _ _ => True) ?_ fun _ t _ => ?_
  · rw [requireMatching, requireMatchingRepositoryOwner, if_neg (by simp)]
    exact L.ret trivial
  · rw [recheck]
    split
    · exact L.andThen (L.rejectAncestors h.below) fun _ t _ =>
        L.mono (L.rejectDescendants depth hdepth) fun _ _ _ => rfl
    · exact L.ret rfl

end Following

/-! ## Among other runs -/

theorem refused_respond {r : OwnershipCall} {c : OwnershipChoice} (h : s.refused i = true) :
    (ownershipRespond i s r c).2.refused i = true := by
  have harrive : (s.arrive i).refused i = true := by
    rw [OwnershipStore.arrive]
    split
    · exact h
    · exact h
  rw [ownershipRespond]
  cases c.error with
  | none => exact harrive
  | some message => exact Function.update_self _ _ _

theorem accepted_respond {r : OwnershipCall} (hr : Reads r) (c : OwnershipChoice)
    (h : Keeps root s ∧ Accepted root spec location ownership s) :
    Keeps root (ownershipRespond i s r c).2 ∧
      Accepted root spec location ownership (ownershipRespond i s r c).2 :=
  ⟨((marker_upheld root).call h.1 (hr.guard root i s) (hr.timely root i s)).1,
    lasting_accepted _ _ _ _ _ h.2 (later_respond (hr.guard root i s) c)⟩

/-- The other runs leave an accepted repository. -/
def reading (root : Path) (spec : RepositorySpec) (location : List Char × List Char)
    (ownership : RepositoryOwnership) : Rely OwnershipStore OwnershipCall where
  keeps := fun t => Keeps root t ∧ Accepted root spec location ownership t
  moves := Grows root
  guards := fun _ _ _ => True
  refl := Grows.refl root
  trans := fun h h' => h.trans h'

/-- A run among others returns with a property, unless it has been refused a call. -/
def ReadsAmong (root : Path) (spec : RepositorySpec) (location : List Char × List Char)
    (ownership : RepositoryOwnership) (i : Nat) {α : Type} (p : OwnershipProg α)
    (Q : α → OwnershipStore → Prop) (s : OwnershipStore) : Prop :=
  (reading root spec location ownership).Safe ownershipHost i (fun _ t => t.refused i = true) p
    (fun a t => t.refused i = true ∨ Q a t) s

theorem ReadsAmong.of_refused {α : Type} {p : OwnershipProg α} {Q : α → OwnershipStore → Prop}
    (h : s.refused i = true) : ReadsAmong root spec location ownership i p Q s := by
  induction p generalizing s with
  | ret a => exact .inl h
  | fail error => exact h
  | cut => trivial
  | call r k ih =>
    intro t _ hmoves
    exact ⟨trivial, fun c => ih _ (refused_respond (hmoves.refused.trans h))⟩

def amongOthers (root : Path) (spec : RepositorySpec) (location : List Char × List Char)
    (ownership : RepositoryOwnership) (i : Nat) : Follows root spec location ownership i where
  holds := ReadsAmong root spec location ownership i
  keeps := fun t => Keeps root t ∧ Accepted root spec location ownership t
  cuts := True
  kept := fun ht => ht
  ret := fun h => .inr h
  cut := fun _ => trivial
  mono := fun h hQ => Rely.Safe.mono h (fun _ _ he => he) fun a t => Or.imp_right (hQ a t)
  andThen := fun hp hf => Rely.Safe.andThen hp fun a t ht => by
    rcases ht with hrefused | hP
    · exact ReadsAmong.of_refused hrefused
    · exact hf a t hP
  read := by
    intro β r k Q A s hr hstay hs hk t hkeeps hmoves
    refine ⟨trivial, fun c => ?_⟩
    have hkeeps' := accepted_respond (i := i) hr c hkeeps
    have htree : (ownershipRespond i t r c).2.tree = t.tree := reads_tree (hr.tree _) c
    cases herr : c.error with
    | none =>
      have hanswer : (ownershipRespond i t r c).1 =
          (perform (ownershipRespond i t r c).2.tree r).1 := by
        rw [htree, ownershipRespond, herr]
      show ReadsAmong root spec location ownership i (k (ownershipRespond i t r c).1) Q _
      rw [hanswer]
      exact hk _ hkeeps' (htree ▸ hstay s t hs hmoves)
    | some message =>
      refine ReadsAmong.of_refused ?_
      show (ownershipRespond i t r c).2.refused i = true
      rw [ownershipRespond, herr]
      exact Function.update_self _ _ _

/-! ## Alone -/

/-- A run alone, whose calls are not refused, returns with a property. -/
def ReadsAlone (root : Path) (spec : RepositorySpec) (location : List Char × List Char)
    (ownership : RepositoryOwnership) (i : Nat) (T : MarkerTree) {α : Type} (p : OwnershipProg α)
    (Q : α → OwnershipStore → Prop) (s : OwnershipStore) : Prop :=
  (Keeps root s ∧ Accepted root spec location ownership s) ∧ s.tree = T →
    p.Alone ownershipHost (fun c => c.error = none) i False (fun a t =>
      ((Keeps root t ∧ Accepted root spec location ownership t) ∧ t.tree = T) ∧ Q a t) s

def onItsOwn (root : Path) (spec : RepositorySpec) (location : List Char × List Char)
    (ownership : RepositoryOwnership) (i : Nat) (T : MarkerTree) :
    Follows root spec location ownership i where
  holds := ReadsAlone root spec location ownership i T
  keeps := fun t => (Keeps root t ∧ Accepted root spec location ownership t) ∧ t.tree = T
  cuts := False
  kept := fun ht => ht.1
  ret := fun h hkeeps => ⟨hkeeps, h⟩
  cut := fun h hkeeps => h hkeeps
  mono := fun h hQ hkeeps => (h hkeeps).mono (fun hf => hf) fun a t ht => ⟨ht.1, hQ a t ht.2⟩
  andThen := fun hp hf hkeeps => (hp hkeeps).andThen fun a t ht => hf a t ht.2 ht.1
  read := by
    intro β r k Q A s hr _ hs hk hkeeps c hc
    have hkeeps' := accepted_respond (i := i) hr c hkeeps.1
    have htree : (ownershipRespond i s r c).2.tree = s.tree := reads_tree (hr.tree _) c
    have hanswer : (ownershipRespond i s r c).1 =
        (perform (ownershipRespond i s r c).2.tree r).1 := by
      rw [htree, ownershipRespond, hc]
    show Prog.Alone _ _ _ _ (k (ownershipRespond i s r c).1) _ _
    rw [hanswer]
    have hsame := htree.trans hkeeps.2
    exact hk _ ⟨hkeeps', hsame⟩ (htree ▸ hs) ⟨hkeeps', hsame⟩

def namesOf : List Path → Nat
  | [] => 1
  | p :: ps => p.length + namesOf ps

theorem length_lt_namesOf {q : Path} {ps : List Path} (h : q ∈ ps) : q.length < namesOf ps := by
  have hpos : ∀ ps : List Path, 0 < namesOf ps := fun ps => by
    induction ps with
    | nil => exact Nat.one_pos
    | cons p ps ih => exact Nat.lt_of_lt_of_le ih (Nat.le_add_left _ _)
  induction ps with
  | nil => cases h
  | cons p ps ih =>
    rw [namesOf]
    rcases List.mem_cons.mp h with rfl | h
    · have hrest := hpos ps
      omega
    · have hlt := ih h
      omega

def treeDepth (t : MarkerTree) : Nat := namesOf t.support

theorem length_lt_treeDepth {t : MarkerTree} {q : Path} (h : (t.get q).isSome = true) :
    q.length < treeDepth t := by
  obtain ⟨e, he⟩ := Option.isSome_iff_exists.mp h
  exact length_lt_namesOf (t.mem_support q e he)

/-- Among others, a verification of an accepted repository passes, unless it is refused a
call. -/
theorem safe_verify (h : Accepted root spec location ownership s') (depth : Nat)
    (adoptMissing : Bool) :
    (reading root spec location ownership).Safe ownershipHost i (fun _ t => t.refused i = true)
      (OwnershipJob.run ⟨.verify adoptMissing, spec, depth⟩)
      (fun r t => t.refused i = true ∨ r = true) s :=
  (amongOthers root spec location ownership i).verify h depth adoptMissing (.inl trivial)

theorem alone_verify (hkeeps : Keeps root s) (h : Accepted root spec location ownership s)
    {depth : Nat} (hdepth : treeDepth s.tree ≤ depth) (adoptMissing : Bool) :
    (OwnershipJob.run ⟨.verify adoptMissing, spec, depth⟩).Alone ownershipHost
      (fun c => c.error = none) i False (fun r _ => r = true) s := by
  have halone := (onItsOwn root spec location ownership i s.tree).verify (s := s) h depth
    adoptMissing (.inr ?_) ⟨⟨hkeeps, h⟩, rfl⟩
  · exact halone.mono (fun hf => hf) fun r t ht => ht.2
  · intro t ht q hq
    rw [ht.2] at hq
    have hlength := length_lt_treeDepth hq
    omega

end HyperFileLens.Ownership
