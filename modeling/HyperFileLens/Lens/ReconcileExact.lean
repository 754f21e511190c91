import HyperFileLens.Lens.SnapshotReconcile

/-!
# What a reconciliation removes

What `reconcileSnapshotWorkspaceWithMarker` leaves alone, wherever it stops, and what is left when
it returns.

*Untouched.*  A path of the snapshot, a sidecar of a listed entry and the root marker stay. So
does everything in a directory that does not have its expected entries.

*Stray.*  The text of a directory is trimmed before the directory is opened, so a directory whose
name ends with white space leads to another one. Everything here is about snapshots that lead to
no such directory (`NoStray`).
-/

namespace HyperFileLens.Lens.Reconcile

open Service FileTree FilePath Transition

/-! ## Snapshots and trees -/

def Lists (list : SnapshotList) (d : Path) (n : Name) (dir : Bool) : Prop :=
  ∃ rows, list d = .ok rows ∧ ⟨n, dir⟩ ∈ rows

inductive SnapshotDir (list : SnapshotList) : Path → Prop where
  | root : SnapshotDir list []
  | child {d : Path} {n : Name} (h : SnapshotDir list d) (hn : Lists list d n true) :
      SnapshotDir list (d ++ [n])

inductive InSnapshot (list : SnapshotList) : Path → Prop where
  | root : InSnapshot list []
  | entry {d : Path} {n : Name} {dir : Bool} (h : SnapshotDir list d) (hn : Lists list d n dir) :
      InSnapshot list (d ++ [n])

inductive IsSidecar (list : SnapshotList) : Path → Prop where
  | of {d : Path} {n : Name} {dir : Bool} (h : SnapshotDir list d) (hn : Lists list d n dir) :
      IsSidecar list (d ++ [n ++ sourceLensAffix])

def IsMetadata (list : SnapshotList) (preserveRootMarker : Bool) (p : Path) : Prop :=
  (∃ s, IsSidecar list s ∧ s <+: p) ∨ preserveRootMarker = true ∧ [rootMarker] <+: p

/-- There is a directory, or something else that is no link. -/
def HasType {α : Type} (e : Option (Entry α)) (dir : Bool) : Prop :=
  ∃ a, e = some a ∧ a.isDir = dir ∧ ∀ target, a ≠ .symlink target

/-- An expected entry of a directory is missing, is a link or has the wrong type. -/
def Mismatched {α : Type} (list : SnapshotList) (root : Path) (t : FsTree α) (d : Path) : Prop :=
  ∃ n dir, Lists list d n dir ∧ ¬ HasType (t.get (root ++ d ++ [n])) dir

/-- A directory is listed with safe names and has its expected entries. -/
structure Verified {α : Type} (list : SnapshotList) (root : Path) (t : FsTree α) (d : Path) :
    Prop where
  safe : ∀ n dir, Lists list d n dir → isReserved n = false
  matched : ∀ n dir, Lists list d n dir → HasType (t.get (root ++ d ++ [n])) dir

inductive Untouched {α : Type} (list : SnapshotList) (root : Path) (preserveRootMarker : Bool)
    (t : FsTree α) : Path → Prop where
  | snapshot {p : Path} (h : InSnapshot list p) : Untouched list root preserveRootMarker t p
  | metadata {p : Path} (h : IsMetadata list preserveRootMarker p) :
      Untouched list root preserveRootMarker t p
  | unverified {d p : Path} (h : SnapshotDir list d) (hd : ¬ Verified list root t d)
      (hp : d <+: p) : Untouched list root preserveRootMarker t p

def openedPath (path allowedRoot : Path) : Except String Path := do
  let (cleanRoot, relative) ← secureRelativePath path allowedRoot
  let rootDir ← validateLinuxAbsolutePath (pathText cleanRoot) "path"
  .ok (rootDir ++ relative)

/-- What is opened for the root and for a directory of the snapshot is that directory, or is no
directory. -/
def NoStray {α : Type} (list : SnapshotList) (root : Path) (t : FsTree α) : Prop :=
  ∀ d, SnapshotDir list d → ∀ p, openedPath (root ++ d) root = .ok p →
    p = root ++ d ∨ t.get p ≠ some .dir

/-- The tree of a reconciliation that started from another one. -/
structure Kept {α : Type} (list : SnapshotList) (root : Path) (preserveRootMarker : Bool)
    (t₀ t : FsTree α) : Prop where
  le : FsTree.Le t t₀
  outside : ∀ p, ¬ root <+: p → t.get p = t₀.get p
  untouched : ∀ p, Untouched list root preserveRootMarker t₀ p →
    t.get (root ++ p) = t₀.get (root ++ p)

section Paths

variable {list : SnapshotList}

theorem SnapshotDir.lists_of_prefix {d p : Path} {n : Name} (h : SnapshotDir list d)
    (hp : p ++ [n] <+: d) : Lists list p n true := by
  induction h with
  | root => simp at hp
  | child h hn ih =>
    rcases List.prefix_concat_iff.mp hp with heq | hp
    · obtain ⟨rfl, hn'⟩ := List.append_inj' heq rfl
      obtain rfl := (List.cons.inj hn').1
      exact hn
    · exact ih hp

theorem InSnapshot.lists_of_prefix {q p : Path} {n : Name} (h : InSnapshot list q)
    (hp : p ++ [n] <+: q) : ∃ dir, Lists list p n dir := by
  cases h with
  | root => simp at hp
  | entry h hn =>
    rcases List.prefix_concat_iff.mp hp with heq | hp
    · obtain ⟨rfl, hn'⟩ := List.append_inj' heq rfl
      obtain rfl := (List.cons.inj hn').1
      exact ⟨_, hn⟩
    · exact ⟨true, h.lists_of_prefix hp⟩

end Paths

/-! ## What may be removed -/

section Free

variable {α : Type} {list : SnapshotList} {root : Path} {preserve : Bool} {t₀ : FsTree α}

theorem isReserved_sidecar (f : Name) : isReserved (f ++ sourceLensAffix) = true := by
  have hsuffix : sourceLensAffix.isSuffixOf (f ++ sourceLensAffix) = true :=
    List.isSuffixOf_iff_suffix.mpr (List.suffix_append f sourceLensAffix)
  simp [isReserved, hsuffix]

theorem isReserved_rootMarker : isReserved rootMarker = true := by decide

/-- An entry that the snapshot does not list and that is no metadata may be removed, in a directory
that is verified together with those above it. -/
theorem not_untouched {d : Path} {n : Name} (hd : SnapshotDir list d)
    (hverified : ∀ d', d' <+: d → Verified list root t₀ d') (hlists : ∀ dir, ¬ Lists list d n dir)
    (hmarker : ¬ (preserve = true ∧ d = [] ∧ n = rootMarker))
    (hsidecar : ∀ f dir, Lists list d f dir → n ≠ f ++ sourceLensAffix) {p : Path}
    (hp : d ++ [n] <+: p) : ¬ Untouched list root preserve t₀ p := by
  -- a reserved name leads to no directory that is verified
  have hreserved : ∀ {q : Path} {m : Name}, q ++ [m] <+: d → isReserved m = false := by
    intro q m hq
    have hprefix : q <+: d := (List.prefix_append q [m]).trans hq
    exact (hverified q hprefix).safe m true (hd.lists_of_prefix hq)
  intro h
  cases h with
  | snapshot h =>
    obtain ⟨dir, hn⟩ := h.lists_of_prefix hp
    exact hlists dir hn
  | metadata h =>
    rcases h with ⟨s, hs, hsp⟩ | ⟨hpreserve, hmark⟩
    · cases hs with
      | @of d' f dir hd' hf =>
        rcases List.prefix_or_prefix_of_prefix hp hsp with hbelow | habove
        · rcases List.prefix_concat_iff.mp hbelow with heq | hbelow
          · obtain ⟨rfl, hn⟩ := List.append_inj' heq rfl
            exact hsidecar f dir hf (List.cons.inj hn).1
          · exact hlists true (hd'.lists_of_prefix hbelow)
        · rcases List.prefix_concat_iff.mp habove with heq | habove
          · obtain ⟨rfl, hn⟩ := List.append_inj' heq rfl
            exact hsidecar f dir hf (List.cons.inj hn).1.symm
          · exact absurd (hreserved habove) (by simp [isReserved_sidecar])
    · rcases List.prefix_or_prefix_of_prefix hp hmark with hbelow | habove
      · have heq : d ++ [n] = [rootMarker] := by
          refine hbelow.eq_of_length_le ?_
          simp
        obtain ⟨rfl, hn⟩ := List.append_inj' (heq.trans (List.nil_append _).symm) rfl
        exact hmarker ⟨hpreserve, rfl, (List.cons.inj hn).1⟩
      · rcases List.prefix_concat_iff.mp habove with heq | habove
        · obtain ⟨rfl, hn⟩ := List.append_inj' ((List.nil_append _).trans heq) rfl
          exact hmarker ⟨hpreserve, rfl, (List.cons.inj hn).1.symm⟩
        · have hsafe := hreserved (q := []) habove
          exact absurd hsafe (by simp [isReserved_rootMarker])
  | @unverified d' _ hd' hnot hd'p =>
    rcases List.prefix_or_prefix_of_prefix hp hd'p with hbelow | habove
    · exact hlists true (hd'.lists_of_prefix hbelow)
    · rcases List.prefix_concat_iff.mp habove with rfl | habove
      · exact hlists true (hd'.lists_of_prefix (List.prefix_refl _))
      · exact hnot (hverified d' habove)

/-- A path below the root with nothing in it that is untouched. -/
def Free (list : SnapshotList) (root : Path) (preserve : Bool) (t₀ : FsTree α) (path : Path) :
    Prop :=
  ∃ q, path = root ++ q ∧ ∀ p, q <+: p → ¬ Untouched list root preserve t₀ p

variable {path : Path}

theorem Free.child (h : Free list root preserve t₀ path) (n : Name) :
    Free list root preserve t₀ (path ++ [n]) := by
  obtain ⟨q, rfl, hq⟩ := h
  exact ⟨q ++ [n], List.append_assoc root q [n],
    fun p hp => hq p ((List.prefix_append q [n]).trans hp)⟩

theorem Free.ne_nil (h : Free list root preserve t₀ path) : path ≠ [] := by
  obtain ⟨q, rfl, hq⟩ := h
  intro hnil
  obtain ⟨-, rfl⟩ := List.append_eq_nil_iff.mp hnil
  exact hq [] (List.prefix_refl _) (.snapshot .root)

theorem Kept.prune {t : FsTree α} (h : Kept list root preserve t₀ t)
    (hfree : Free list root preserve t₀ path) : Kept list root preserve t₀ (t.prune path []) := by
  obtain ⟨q, rfl, hq⟩ := hfree
  constructor
  · exact (FsTree.prune_le t _ _).trans h.le
  · intro p hp
    rw [FsTree.get_prune_of_not_prefix fun hpre => hp ((List.prefix_append root q).trans hpre)]
    exact h.outside p hp
  · intro p hp
    rw [FsTree.get_prune_of_not_prefix fun hpre =>
      hq p ((List.prefix_append_right_inj root).mp hpre) hp]
    exact h.untouched p hp

end Free

/-! ## Calls -/

section Calls

variable {α β : Type} {list : SnapshotList} {root : Path} {preserve : Bool} {t₀ t : FsTree α}

/-- Every call keeps what is to be kept. -/
def keeping (list : SnapshotList) (root : Path) (preserve : Bool) (t₀ : FsTree α) :
    Contract (FsTree α) TreeCall (TreeAnswer α) TreeChoice where
  server := workspaceTree α
  allows _ _ _ := True
  guards _ := True
  keeps := Kept list root preserve t₀

theorem wp_read {r : TreeCall} {Q : TreeAnswer α r → FsTree α → Prop}
    (hk : Kept list root preserve t₀ t) (hstate : ∀ c, (treeRespond t r c).2 = t)
    (h : ∀ c, Q (treeRespond t r c).1 t) :
    (keeping list root preserve t₀).wp (Prog.request r : TreeProg α _) Q t := by
  refine ⟨trivial, fun c _ => ?_⟩
  show Kept list root preserve t₀ (treeRespond t r c).2 ∧
    Q (treeRespond t r c).1 (treeRespond t r c).2
  rw [hstate c]
  exact ⟨hk, h c⟩

variable {Q : β → FsTree α → Prop}

theorem wp_orRaise {e : Except String β} (h : ∀ b, e = .ok b → Q b t) :
    (keeping list root preserve t₀).wp (orRaise e) Q t := by
  cases e with
  | error message => trivial
  | ok b => exact h b rfl

variable {e : Except LensError β}

theorem wp_orFail (h : ∀ b, e = .ok b → Q b t) :
    (keeping list root preserve t₀).wp (orFail e) Q t := by
  cases e with
  | error error => trivial
  | ok b => exact h b rfl

theorem wp_checkCtx {Q : Unit → FsTree α → Prop} (hk : Kept list root preserve t₀ t)
    (h : Q () t) : (keeping list root preserve t₀).wp checkCtx Q t := by
  refine Contract.wp_then (wp_read (Q := fun _ t' => t' = t) hk (fun _ => rfl) fun _ => rfl) ?_
  rintro (_ | message) t' rfl
  · exact h
  · trivial

theorem answer_eq_ok {c : TreeChoice} {b : β} (h : c.answer e = .ok b) : e = .ok b := by
  rw [TreeChoice.answer] at h
  split at h
  · cases h
  · exact h

theorem wp_openDirectory {path : Path} {f : TreeProg α β} (hk : Kept list root preserve t₀ t)
    (h : t.get path = some .dir → (keeping list root preserve t₀).wp f Q t) :
    (keeping list root preserve t₀).wp
      ((Prog.request (TreeCall.openDirectory path) : TreeProg α _).bind fun answer =>
        (orFail answer).bind fun _ => f) Q t := by
  refine Contract.wp_then (P := fun e t' => t' = t ∧ (e = .ok () → t.get path = some .dir)) ?_ ?_
  · refine wp_read hk (fun _ => rfl) fun c => ⟨rfl, fun hok => ?_⟩
    have hopen : openDir t path = .ok () := answer_eq_ok hok
    rw [openDir] at hopen
    split at hopen
    · rename_i hdir
      exact FsTree.hasDir_iff.mp hdir
    · cases hopen
  · rintro e t' ⟨rfl, he⟩
    exact (Contract.wp_bind _ _ _ _).mpr (wp_orFail fun b hb => h (he hb))

theorem wp_secureOpenDirectory {d : Path} {Q : Path → FsTree α → Prop}
    (hk : Kept list root preserve t₀ t) (hstray : NoStray list root t₀) (hd : SnapshotDir list d)
    (h : t.get (root ++ d) = some .dir → Q (root ++ d) t) :
    (keeping list root preserve t₀).wp (secureOpenDirectory (root ++ d) root) Q t := by
  refine Contract.wp_then (wp_orRaise (Q := fun b t' => t' = t ∧
    secureRelativePath (root ++ d) root = .ok b) fun b hb => ⟨rfl, hb⟩) ?_
  rintro ⟨cleanRoot, relative⟩ t' ⟨rfl, hrelative⟩
  refine Contract.wp_then (P := fun rootDir s => s = t' ∧
    validateLinuxAbsolutePath (pathText cleanRoot) "path" = .ok rootDir) ?_ ?_
  · refine Contract.wp_then (wp_orRaise (Q := fun b s => s = t' ∧
      validateLinuxAbsolutePath (pathText cleanRoot) "path" = .ok b) fun b hb => ⟨rfl, hb⟩) ?_
    rintro rootDir s ⟨rfl, hroot⟩
    exact wp_openDirectory (f := .ret rootDir) hk fun _ => ⟨rfl, hroot⟩
  · rintro rootDir s ⟨rfl, hroot⟩
    refine wp_openDirectory (f := .ret (rootDir ++ relative)) hk fun hdir => ?_
    have hopened : openedPath (root ++ d) root = .ok (rootDir ++ relative) := by
      rw [openedPath, hrelative]
      show (do let rootDir ← validateLinuxAbsolutePath (pathText cleanRoot) "path"
               Except.ok (rootDir ++ relative)) = _
      rw [hroot]
      rfl
    rcases hstray d hd _ hopened with heq | hnone
    · rw [heq] at hdir ⊢
      exact h hdir
    · exact absurd (hk.le _ _ hdir) hnone

end Calls

/-! ## Removal of an entry -/

section Removal

variable {α : Type} {list : SnapshotList} {root : Path} {preserve : Bool} {t₀ t : FsTree α}

structure Later (list : SnapshotList) (root : Path) (preserve : Bool) (t₀ t t' : FsTree α) :
    Prop where
  kept : Kept list root preserve t₀ t'
  le : FsTree.Le t' t

theorem Kept.later (h : Kept list root preserve t₀ t) : Later list root preserve t₀ t t :=
  ⟨h, FsTree.Le.refl t⟩

theorem Later.trans {t' t'' : FsTree α} (h : Later list root preserve t₀ t t')
    (h' : Later list root preserve t₀ t' t'') : Later list root preserve t₀ t t'' :=
  ⟨h'.kept, h'.le.trans h.le⟩

variable {path : Path}

theorem wp_unlinkat (hk : Kept list root preserve t₀ t) (hfree : Free list root preserve t₀ path) :
    (keeping list root preserve t₀).wp
      ((Prog.request (TreeCall.unlinkat path) : TreeProg α _).bind orFail)
      (fun _ t' => Later list root preserve t₀ t t' ∧ t'.get path = none) t := by
  refine Contract.wp_then (P := fun e t' => Later list root preserve t₀ t t' ∧
    (e = .ok () → t'.get path = none)) ?_ ?_
  · refine ⟨trivial, fun c _ => ?_⟩
    show Kept list root preserve t₀ (unlinked t path c).2 ∧
      Later list root preserve t₀ t (unlinked t path c).2 ∧
        ((unlinked t path c).1 = .ok () → (unlinked t path c).2.get path = none)
    rw [unlinked]
    split
    · exact ⟨hk, hk.later, nofun⟩
    · exact ⟨hk, hk.later, nofun⟩
    · rename_i t' hnone hunlink
      have hprune : t' = t.prune path [] := by
        rw [FsTree.unlink] at hunlink
        split at hunlink
        · cases hunlink
        split at hunlink
        · cases hunlink
        exact (Except.ok.inj hunlink).symm
      rw [hprune]
      refine ⟨hk.prune hfree, ⟨hk.prune hfree, FsTree.prune_le t path []⟩, fun _ => ?_⟩
      rw [FsTree.get_prune, if_pos ⟨hfree.ne_nil, List.prefix_refl _, by simp⟩]
  · rintro e t' ⟨hlater, he⟩
    exact wp_orFail fun b hb => ⟨hlater, he hb⟩

theorem wp_removeChildren {remove : Path → TreeProg α Unit}
    (hremove : ∀ n t, Kept list root preserve t₀ t → (keeping list root preserve t₀).wp (remove
      (path ++ [n])) (fun _ => Later list root preserve t₀ t) t) (rounds : Nat)
    (given : List Name) (hk : Kept list root preserve t₀ t) :
    (keeping list root preserve t₀).wp (removeChildren remove path rounds given)
      (fun _ => Later list root preserve t₀ t) t := by
  induction rounds generalizing given t with
  | zero => trivial
  | succ rounds ih =>
    refine Contract.wp_then (wp_read (Q := fun _ t' => t' = t) hk (fun _ => rfl) fun _ => rfl) ?_
    rintro ⟨entries, ending⟩ t' rfl
    have hloop : (keeping list root preserve t₀).wp
        (entries.forM fun entry => remove (path ++ [entry.name]))
        (fun _ => Later list root preserve t₀ t') t' := by
      refine Contract.wp_forM hk.later fun entry _ s hs => ?_
      exact Contract.wp_mono (hremove entry.name s hs.kept) fun _ s' hs' => hs.trans hs'
    refine Contract.wp_then hloop fun _ s hs => ?_
    cases ending with
    | more => exact Contract.wp_mono (ih _ hs.kept) fun _ s' hs' => hs.trans hs'
    | eof => exact hs
    | failed message => trivial

theorem wp_removeWorkspaceEntryAt (rounds : Nat) (hk : Kept list root preserve t₀ t)
    (hfree : Free list root preserve t₀ path) :
    (keeping list root preserve t₀).wp (removeWorkspaceEntryAt rounds path)
      (fun _ t' => Later list root preserve t₀ t t' ∧ t'.get path = none) t := by
  induction rounds generalizing path t with
  | zero => trivial
  | succ rounds ih =>
    refine Contract.wp_then (wp_read (Q := fun _ t' => t' = t) hk (fun _ => rfl) fun _ => rfl) ?_
    rintro answer t' rfl
    refine Contract.wp_then (wp_orFail (Q := fun _ s => s = t') fun _ _ => rfl) ?_
    rintro stat s rfl
    show (keeping list root preserve t₀).wp (if stat.isDir then _ else _) _ s
    split
    · refine wp_openDirectory hk fun _ => ?_
      refine Contract.wp_then (wp_removeChildren (fun n s' hs' => ?_) rounds [] hk) ?_
      · exact Contract.wp_mono (ih hs' (hfree.child n)) fun _ _ h => h.1
      · intro _ s' hs'
        exact Contract.wp_mono (wp_unlinkat hs'.kept hfree) fun _ _ h => ⟨hs'.trans h.1, h.2⟩
    · exact wp_unlinkat hk hfree

theorem wp_removeReconciledWorkspaceEntry (rounds : Nat) {d : Path} {n : Name}
    (hk : Kept list root preserve t₀ t) (hstray : NoStray list root t₀) (hd : SnapshotDir list d)
    (hfree : Free list root preserve t₀ (root ++ d ++ [n])) :
    (keeping list root preserve t₀).wp (removeReconciledWorkspaceEntry rounds root d n)
      (fun _ t' => Later list root preserve t₀ t t' ∧ t'.get (root ++ d ++ [n]) = none) t := by
  rw [removeReconciledWorkspaceEntry]
  split
  · trivial
  · refine Contract.wp_then (P := fun parent s => s = t ∧ parent = root ++ d)
      (wp_secureOpenDirectory hk hstray hd fun _ => ⟨rfl, rfl⟩) ?_
    rintro parent s ⟨rfl, rfl⟩
    exact wp_removeWorkspaceEntryAt rounds hk hfree

end Removal

/-! ## A directory -/

section Directory

variable {α : Type} {list : SnapshotList} {root : Path} {preserve : Bool} {t₀ t : FsTree α}

variable {n : Name} {existing : List DirEntry} {rows : List SnapshotWorkspaceEntry} {d : Path}
    {t' : FsTree α}

theorem name_ofEntry (n : Name) (e : Entry α) : (DirEntry.ofEntry n e).name = n := by
  cases e <;> rfl

theorem hasType_of_isRetained {e : Entry α} {dir : Bool}
    (h : (!(DirEntry.ofEntry n e).isSymlink && (DirEntry.ofEntry n e).isDir == dir) = true) :
    HasType (some e) dir := by
  refine ⟨e, rfl, ?_⟩
  cases e with
  | dir => simpa [DirEntry.ofEntry, Entry.isDir] using h
  | file content => simpa [DirEntry.ofEntry, Entry.isDir] using h
  | symlink target => simp [DirEntry.ofEntry] at h
  | special => simpa [DirEntry.ofEntry, Entry.isDir] using h

/-- The entries are what the directory has there. -/
def Accurate (t : FsTree α) (path : Path) (existing : List DirEntry) : Prop :=
  ∀ found ∈ existing, ∃ e, t.get (path ++ [found.name]) = some e ∧
    found = DirEntry.ofEntry found.name e

variable {path : Path}

theorem accurate_readBatch {given : List Name} {count : Nat} {c : TreeChoice} :
    Accurate t path (readBatch t path given count c).1 := by
  intro found hfound
  obtain ⟨n, -, hn⟩ := List.mem_filterMap.mp hfound
  obtain ⟨e, he, rfl⟩ := Option.map_eq_some_iff.mp hn
  rw [name_ofEntry]
  exact ⟨e, he, rfl⟩

theorem isRetained_eq_true {entry : SnapshotWorkspaceEntry} (h : Accurate t path existing)
    (hretained : isRetained existing entry = true) :
    HasType (t.get (path ++ [entry.name])) entry.dir := by
  rw [isRetained] at hretained
  cases hfind : existing.find? fun found => found.name = entry.name with
  | none => simp [hfind] at hretained
  | some found =>
    simp only [hfind] at hretained
    have hname : found.name = entry.name := by simpa using List.find?_some hfind
    obtain ⟨e, he, hfound⟩ := h found (List.mem_of_find?_eq_some hfind)
    rw [hfound] at hretained
    rw [← hname, he]
    exact hasType_of_isRetained hretained

theorem wp_readExisting (rounds : Nat) (hk : Kept list root preserve t₀ t)
    (haccurate : Accurate t path existing) :
    (keeping list root preserve t₀).wp (readExisting path rounds existing)
      (fun found t' => t' = t ∧ Accurate t path found ∧
        ∀ n ∈ t.names path, n ∈ found.map (·.name)) t := by
  induction rounds generalizing existing with
  | zero => trivial
  | succ rounds ih =>
    refine Contract.wp_then (wp_checkCtx (Q := fun _ s => s = t) hk rfl) ?_
    rintro _ s rfl
    refine Contract.wp_then (wp_read (r := .readDir path (existing.map (·.name)) 8192)
      (Q := fun batch s' => s' = s ∧ ∃ c,
        batch = readBatch s path (existing.map (·.name)) 8192 c) hk (fun _ => rfl)
      fun c => ⟨rfl, c, rfl⟩) ?_
    rintro batch s' ⟨rfl, c, rfl⟩
    have hmore : Accurate s' path
        (existing ++ (readBatch s' path (existing.map (·.name)) 8192 c).1) := by
      intro found hfound
      rcases List.mem_append.mp hfound with hfound | hfound
      · exact haccurate found hfound
      · exact accurate_readBatch found hfound
    split
    · trivial
    cases hend : (readBatch s' path (existing.map (·.name)) 8192 c).2 with
    | more => exact ih hmore
    | failed message => trivial
    | eof =>
      refine ⟨rfl, hmore, fun n hn => ?_⟩
      have hnone : namesLeft s' path (existing.map (·.name)) = [] := by
        simp only [readBatch] at hend
        split at hend
        · cases hend
        split at hend
        · assumption
        · cases hend
      have hgiven : n ∈ existing.map (·.name) := by
        have hnot := List.filter_eq_nil_iff.mp hnone n hn
        simpa using hnot
      rw [List.map_append]
      exact List.mem_append_left _ hgiven

/-- The loop that fills `expected` returns the rows, and their names are safe. -/
theorem expectedEntries_eq_ok {expected : List SnapshotWorkspaceEntry}
    (h : expectedEntries rows = .ok expected) :
    expected = rows ∧ ∀ entry ∈ rows, isReserved entry.name = false := by
  have hloop : ∀ (rows acc : List SnapshotWorkspaceEntry),
      rows.foldlM (fun expected entry =>
        if isReserved entry.name then
          (.error "snapshot contains an unsafe or reserved path" : Except String _)
        else if expected.any fun other => other.name = entry.name then
          .error "snapshot contains duplicate file names"
        else .ok (expected ++ [entry])) acc = .ok expected →
      expected = acc ++ rows ∧ ∀ entry ∈ rows, isReserved entry.name = false := by
    intro rows
    induction rows with
    | nil =>
      intro acc hacc
      cases hacc
      simp
    | cons entry rows ih =>
      intro acc hacc
      rw [List.foldlM_cons] at hacc
      split at hacc
      · cases hacc
      rename_i hsafe
      split at hacc
      · cases hacc
      obtain ⟨rfl, hrows⟩ := ih _ hacc
      refine ⟨by simp, fun other hother => ?_⟩
      rcases List.mem_cons.mp hother with rfl | hother
      · simpa using hsafe
      · exact hrows other hother
  exact hloop rows [] h

theorem lists_of_isExpected (hrows : list d = .ok rows) :
    isExpected rows n = true ↔ ∃ dir, Lists list d n dir := by
  rw [isExpected, List.any_eq_true]
  constructor
  · rintro ⟨⟨m, dir⟩, hmem, hname⟩
    obtain rfl : m = n := by simpa using hname
    exact ⟨dir, rows, hrows, hmem⟩
  · rintro ⟨dir, rows', hrows', hmem⟩
    obtain rfl := Except.ok.inj (hrows.symm.trans hrows')
    exact ⟨⟨n, dir⟩, hmem, by simp⟩

theorem isKeptSidecar_iff :
    isKeptSidecar rows n = true ↔ ∃ f, n = f ++ sourceLensAffix ∧ isExpected rows f = true := by
  rw [isKeptSidecar, Bool.and_eq_true, List.isSuffixOf_iff_suffix]
  constructor
  · rintro ⟨⟨f, rfl⟩, hf⟩
    refine ⟨f, rfl, ?_⟩
    simpa using hf
  · rintro ⟨f, rfl, hf⟩
    refine ⟨List.suffix_append f _, ?_⟩
    simpa using hf

/-- What a directory had is gone, or it is to be there. -/
def Settled (list : SnapshotList) (root : Path) (preserve : Bool) (d : Path) (n : Name)
    (t : FsTree α) : Prop :=
  t.get (root ++ d ++ [n]) = none ∨ (∃ dir, Lists list d n dir) ∨
    IsMetadata list preserve (d ++ [n])

theorem Settled.of_le (h : Settled list root preserve d n t) (hle : FsTree.Le t' t) :
    Settled list root preserve d n t' := by
  rcases h with hgone | hrest
  · refine .inl ?_
    cases hget : t'.get (root ++ d ++ [n]) with
    | none => rfl
    | some e => exact nomatch hgone.symm.trans (hle _ e hget)
  · exact .inr hrest

theorem wp_reconcileEntry (rounds removed : Nat) {entry : DirEntry}
    (hk : Kept list root preserve t₀ t) (hstray : NoStray list root t₀) (hd : SnapshotDir list d)
    (hverified : ∀ d', d' <+: d → Verified list root t₀ d') (hrows : list d = .ok rows) :
    (keeping list root preserve t₀).wp (reconcileEntry root preserve rounds d rows removed entry)
      (fun _ t' => Kept list root preserve t₀ t' ∧ FsTree.Le t' t ∧
        Settled list root preserve d entry.name t') t := by
  refine Contract.wp_then (wp_checkCtx (Q := fun _ s => s = t) hk rfl) ?_
  rintro _ s rfl
  split
  · rename_i hexpected
    exact ⟨hk, FsTree.Le.refl s, .inr (.inl ((lists_of_isExpected hrows).mp hexpected))⟩
  rename_i hexpected
  split
  · rename_i hmarker
    obtain ⟨hpreserve, rfl, hname⟩ := hmarker
    refine ⟨hk, FsTree.Le.refl s, .inr (.inr (.inr ⟨hpreserve, ?_⟩))⟩
    rw [hname]
    exact List.prefix_refl _
  rename_i hmarker
  split
  · trivial
  split
  · rename_i hsidecar
    obtain ⟨f, hname, hf⟩ := isKeptSidecar_iff.mp hsidecar
    obtain ⟨dir, hlists⟩ := (lists_of_isExpected hrows).mp hf
    refine ⟨hk, FsTree.Le.refl s, .inr (.inr (.inl ⟨_, .of hd hlists, ?_⟩))⟩
    rw [hname]
  rename_i hsidecar
  have hfree : Free list root preserve t₀ (root ++ d ++ [entry.name]) := by
    refine ⟨d ++ [entry.name], List.append_assoc _ _ _, fun p hp => ?_⟩
    refine not_untouched hd hverified (fun dir hn => ?_) hmarker (fun f dir hf hname => ?_) hp
    · exact hexpected ((lists_of_isExpected hrows).mpr ⟨dir, hn⟩)
    · exact hsidecar (isKeptSidecar_iff.mpr ⟨f, hname, (lists_of_isExpected hrows).mpr ⟨dir, hf⟩⟩)
  refine Contract.wp_then (wp_removeReconciledWorkspaceEntry rounds hk hstray hd hfree) ?_
  rintro _ s' ⟨hlater, hgone⟩
  exact ⟨hlater.kept, hlater.le, .inl hgone⟩

def Cleared (list : SnapshotList) (root : Path) (preserve : Bool) (d : Path) (t : FsTree α) :
    Prop :=
  ∀ n p e, t.get (root ++ d ++ n :: p) = some e →
    InSnapshot list (d ++ n :: p) ∨ IsMetadata list preserve (d ++ n :: p)

/-- The directories of the snapshot from one on have their expected entries. -/
def VerifiedFrom (list : SnapshotList) (root : Path) (t₀ : FsTree α) (d : Path) : Prop :=
  ∀ d', d <+: d' → SnapshotDir list d' → Verified list root t₀ d'

theorem Cleared.of_le (h : Cleared list root preserve d t) (hle : FsTree.Le t' t) :
    Cleared list root preserve d t' :=
  fun n p e he => h n p e (hle _ e he)

theorem IsMetadata.below {p q : Path} (h : IsMetadata list preserve p) (hpq : p <+: q) :
    IsMetadata list preserve q := by
  rcases h with ⟨s, hs, hsp⟩ | ⟨hpreserve, hp⟩
  · exact .inl ⟨s, hs, hsp.trans hpq⟩
  · exact .inr ⟨hpreserve, hp.trans hpq⟩

theorem verified_of_existing (hk : Kept list root preserve t₀ t) (hd : SnapshotDir list d)
    (hrows : list d = .ok rows) (hsafe : ∀ entry ∈ rows, isReserved entry.name = false)
    (haccurate : Accurate t (root ++ d) existing)
    (hretained : rows.all (isRetained existing) = true) : Verified list root t₀ d := by
  constructor
  · rintro n dir ⟨rows', hrows', hmem⟩
    obtain rfl := Except.ok.inj (hrows.symm.trans hrows')
    exact hsafe _ hmem
  · rintro n dir ⟨rows', hrows', hmem⟩
    obtain rfl := Except.ok.inj (hrows.symm.trans hrows')
    have htype := isRetained_eq_true haccurate (List.all_eq_true.mp hretained _ hmem)
    have hkept := hk.untouched (d ++ [n]) (.snapshot (.entry hd ⟨rows, hrows, hmem⟩))
    rw [List.append_assoc] at htype ⊢
    rwa [← hkept]

/-- A directory is cleared when everything it had is settled and its directories are cleared. -/
theorem cleared_of_settled (hd : SnapshotDir list d) (hverified : Verified list root t₀ d)
    (hle : FsTree.Le t' t) (hle₀ : FsTree.Le t t₀)
    (hsettled : ∀ n ∈ t.names (root ++ d), Settled list root preserve d n t')
    (hchildren : ∀ n, Lists list d n true → Cleared list root preserve (d ++ [n]) t') :
    Cleared list root preserve d t' := by
  intro n p e he
  have happend : root ++ d ++ n :: p = root ++ d ++ [n] ++ p := by simp
  -- there is something at the name itself
  obtain ⟨e', he'⟩ : ∃ e', t'.get (root ++ d ++ [n]) = some e' := by
    cases p with
    | nil => exact ⟨e, he⟩
    | cons m p =>
      rw [happend] at he
      exact ⟨.dir, FsTree.get_of_prefix he (by simp)⟩
  rcases hsettled n (FsTree.mem_names.mpr ⟨e', hle _ _ he'⟩) with hgone | ⟨dir, hn⟩ | hmeta
  · exact nomatch hgone.symm.trans he'
  · cases p with
    | nil => exact .inl (.entry hd hn)
    | cons m p =>
      -- what is below a listed name is in a directory of the snapshot
      rw [happend] at he
      have hdir := FsTree.get_of_prefix he (by simp)
      obtain ⟨a, ha, hisDir, -⟩ := hverified.matched n dir hn
      have ha' := hle₀ _ _ (hle _ _ hdir)
      obtain rfl : a = .dir := Option.some.inj (ha.symm.trans ha')
      obtain rfl : true = dir := hisDir
      have hbelow := hchildren n hn m p e (by simpa using he)
      simpa using hbelow
  · exact .inr (hmeta.below ⟨p, by simp⟩)

theorem verifiedFrom_of_children (hverified : Verified list root t₀ d)
    (hchildren : ∀ n, Lists list d n true → VerifiedFrom list root t₀ (d ++ [n])) :
    VerifiedFrom list root t₀ d := by
  rintro _ ⟨p, rfl⟩ hd'
  cases p with
  | nil =>
    rw [List.append_nil]
    exact hverified
  | cons n p =>
    have hprefix : d ++ [n] <+: d ++ n :: p := ⟨p, by simp⟩
    exact hchildren n (hd'.lists_of_prefix hprefix) _ hprefix hd'

theorem wp_reconcileSnapshotDirectory (rounds depth : Nat) (hk : Kept list root preserve t₀ t)
    (hstray : NoStray list root t₀) (hd : SnapshotDir list d)
    (habove : ∀ d', d' <+: d → d' ≠ d → Verified list root t₀ d') :
    (keeping list root preserve t₀).wp
      (reconcileSnapshotDirectory list root preserve rounds depth d)
      (fun _ t' => Later list root preserve t₀ t t' ∧ Cleared list root preserve d t' ∧
        VerifiedFrom list root t₀ d) t := by
  induction depth generalizing d t with
  | zero => trivial
  | succ depth ih =>
    refine Contract.wp_then (wp_checkCtx (Q := fun _ s => s = t) hk rfl) ?_
    rintro _ s rfl
    refine Contract.wp_then (wp_orRaise (Q := fun rows s' => s' = s ∧ list d = .ok rows)
      fun _ hrows => ⟨rfl, hrows⟩) ?_
    rintro rows s' ⟨rfl, hrows⟩
    split
    · trivial
    refine Contract.wp_then (wp_orRaise (Q := fun expected s => s = s' ∧
      expectedEntries rows = .ok expected) fun _ hexpected => ⟨rfl, hexpected⟩) ?_
    rintro expected s ⟨rfl, hexpected⟩
    obtain ⟨rfl, hsafe⟩ := expectedEntries_eq_ok hexpected
    refine Contract.wp_then (wp_secureOpenDirectory (Q := fun dir s' => s' = s ∧ dir = root ++ d)
      hk hstray hd fun _ => ⟨rfl, rfl⟩) ?_
    rintro dir s' ⟨rfl, rfl⟩
    refine Contract.wp_then (wp_readExisting rounds hk (fun _ h => by simp at h)) ?_
    rintro existing s ⟨rfl, haccurate, hnames⟩
    split
    · trivial
    rename_i hretained
    have hverified : Verified list root t₀ d :=
      verified_of_existing hk hd hrows hsafe haccurate (by simpa using hretained)
    have hprefixes : ∀ d', d' <+: d → Verified list root t₀ d' := by
      intro d' hd'
      by_cases heq : d' = d
      · rw [heq]
        exact hverified
      · exact habove d' hd' heq
    -- the loop over what the directory has
    refine Contract.wp_then (Contract.wp_foldlM_each (P := Kept list root preserve t₀)
      (T := fun s s' => FsTree.Le s' s)
      (R := fun entry => Settled list root preserve d entry.name)
      FsTree.Le.refl (fun _ _ _ h h' => h'.trans h) (fun _ _ _ hle h => h.of_le hle) hk
      fun entry _ removed s' hs' =>
        wp_reconcileEntry rounds removed hs' hstray hd hprefixes hrows) ?_
    rintro removed s₁ ⟨hk₁, hle₁, hsettled⟩
    -- the loop over the directories of the snapshot
    refine Contract.wp_mono (Contract.wp_foldlM_each (P := Kept list root preserve t₀)
      (T := fun s s' => FsTree.Le s' s)
      (R := fun entry s => entry.dir = true → Cleared list root preserve (d ++ [entry.name]) s ∧
          VerifiedFrom list root t₀ (d ++ [entry.name]))
      FsTree.Le.refl (fun _ _ _ h h' => h'.trans h)
      ?_ hk₁ ?_) ?_
    · intro entry s s' hle h hdir
      exact ⟨(h hdir).1.of_le hle, (h hdir).2⟩
    · rintro ⟨n, dir⟩ hmem count s' hs'
      cases dir with
      | false => exact ⟨hs', FsTree.Le.refl s', nofun⟩
      | true =>
        have hn : Lists list d n true := ⟨expected, hrows, hmem⟩
        refine Contract.wp_then (ih hs' (.child hd hn) fun d' hd' hne => ?_) ?_
        · exact hprefixes d' ((List.prefix_concat_iff.mp hd').resolve_left hne)
        · rintro _ s'' ⟨hlater, hcleared, hfrom⟩
          exact ⟨hlater.kept, hlater.le, fun _ => ⟨hcleared, hfrom⟩⟩
    · rintro _ s₂ ⟨hk₂, hle₂, hchildren⟩
      have hchild : ∀ n, Lists list d n true → Cleared list root preserve (d ++ [n]) s₂ ∧
            VerifiedFrom list root t₀ (d ++ [n]) := by
        rintro n ⟨rows', hrows', hmem⟩
        obtain rfl := Except.ok.inj (hrows.symm.trans hrows')
        exact hchildren _ hmem rfl
      refine ⟨⟨hk₂, hle₂.trans hle₁⟩, ?_, ?_⟩
      · refine cleared_of_settled hd hverified (hle₂.trans hle₁) hk.le (fun n hn => ?_)
          fun n hn => (hchild n hn).1
        obtain ⟨entry, hentry, rfl⟩ := List.mem_map.mp (hnames n hn)
        exact (hsettled entry hentry).of_le hle₂
      · exact verifiedFrom_of_children hverified fun n hn => (hchild n hn).2

end Directory

/-! ## Runs -/

/-- What a reconciliation leaves alone, wherever it stops. -/
structure Spared {α : Type} (list : SnapshotList) (root : Path) (preserveRootMarker : Bool)
    (t₀ t : FsTree α) : Prop where
  snapshot : ∀ p, InSnapshot list p → t.get (root ++ p) = t₀.get (root ++ p)
  sidecar : ∀ s p, IsSidecar list s → s <+: p → t.get (root ++ p) = t₀.get (root ++ p)
  marker : preserveRootMarker = true → ∀ p, [rootMarker] <+: p →
    t.get (root ++ p) = t₀.get (root ++ p)
  mismatched : ∀ d p, SnapshotDir list d → Mismatched list root t₀ d → d <+: p →
    t.get (root ++ p) = t₀.get (root ++ p)
  outside : ∀ p, ¬ root <+: p → t.get p = t₀.get p

/-- The tree is the tree of the snapshot, with the metadata that is left beside it. -/
structure Reconciled {α : Type} (list : SnapshotList) (root : Path) (preserveRootMarker : Bool)
    (t : FsTree α) : Prop where
  only : ∀ p e, p ≠ [] → t.get (root ++ p) = some e →
    InSnapshot list p ∨ IsMetadata list preserveRootMarker p
  complete : ∀ d n dir, SnapshotDir list d → Lists list d n dir →
    HasType (t.get (root ++ d ++ [n])) dir

/-- A run spares what it must spare and reconciles the tree when it returns. -/
structure RunHonest {α : Type} (list : SnapshotList) (preserveRootMarker : Bool) (rounds : Nat)
    (root : List Char) (t₀ : FsTree α) (cs : List TreeChoice) : Prop where
  spared : Spared list (clean root) preserveRootMarker t₀
    ((workspaceTree α).run (reconcileSnapshotWorkspaceWithMarker list preserveRootMarker rounds
      root) t₀ cs).state
  reconciled : ∀ removed,
    ((workspaceTree α).run (reconcileSnapshotWorkspaceWithMarker list preserveRootMarker rounds
      root) t₀ cs).outcome = .done removed →
    Reconciled list (clean root) preserveRootMarker
      ((workspaceTree α).run (reconcileSnapshotWorkspaceWithMarker list preserveRootMarker rounds
        root) t₀ cs).state

section Runs

variable {α : Type} {list : SnapshotList} {root : Path} {preserve : Bool} {t₀ t : FsTree α}

theorem Kept.refl (list : SnapshotList) (root : Path) (preserve : Bool) (t : FsTree α) :
    Kept list root preserve t t :=
  ⟨FsTree.Le.refl t, fun _ _ => rfl, fun _ _ => rfl⟩

theorem not_verified_of_mismatched {d : Path} (h : Mismatched list root t d) :
    ¬ Verified list root t d := by
  obtain ⟨n, dir, hn, hnot⟩ := h
  exact fun hverified => hnot (hverified.matched n dir hn)

theorem Kept.spared (h : Kept list root preserve t₀ t) : Spared list root preserve t₀ t where
  snapshot p hp := h.untouched p (.snapshot hp)
  sidecar s p hs hp := h.untouched p (.metadata (.inl ⟨s, hs, hp⟩))
  marker hpreserve p hp := h.untouched p (.metadata (.inr ⟨hpreserve, hp⟩))
  mismatched _ p hd hd' hp := h.untouched p (.unverified hd (not_verified_of_mismatched hd') hp)
  outside := h.outside

theorem reconciled_of_cleared (hk : Kept list root preserve t₀ t)
    (hcleared : Cleared list root preserve [] t) (hverified : VerifiedFrom list root t₀ []) :
    Reconciled list root preserve t := by
  constructor
  · intro p e hp he
    cases p with
    | nil => exact absurd rfl hp
    | cons n p => exact hcleared n p e (by simpa using he)
  · intro d n dir hd hn
    have htype := (hverified d List.nil_prefix hd).matched n dir hn
    have hkept := hk.untouched (d ++ [n]) (.snapshot (.entry hd hn))
    rw [List.append_assoc] at htype ⊢
    rwa [hkept]

theorem wp_reconcileSnapshotWorkspaceWithMarker (rounds : Nat) (root : List Char)
    (hstray : NoStray list (clean root) t₀) :
    (keeping list (clean root) preserve t₀).wp
      (reconcileSnapshotWorkspaceWithMarker list preserve rounds root)
      (fun _ t' => Reconciled list (clean root) preserve t') t₀ := by
  have hk := Kept.refl list (clean root) preserve t₀
  rw [reconcileSnapshotWorkspaceWithMarker]
  split
  · trivial
  refine Contract.wp_then (wp_read (Q := fun _ t' => t' = t₀) hk (fun _ => rfl) fun _ => rfl) ?_
  rintro answer s rfl
  refine Contract.wp_then (wp_orFail (Q := fun _ s' => s' = s) fun _ _ => rfl) ?_
  rintro info s' rfl
  split
  · refine Contract.wp_mono (wp_reconcileSnapshotDirectory rounds rounds hk hstray .root ?_) ?_
    · intro d' hd' hne
      exact absurd (List.prefix_nil.mp hd') hne
    · rintro _ t' ⟨hlater, hcleared, hverified⟩
      exact reconciled_of_cleared hlater.kept hcleared hverified
  · trivial

/-- A reconciliation whose directories are the ones that are opened for them removes exactly what
the snapshot does not have. -/
theorem reconcile_honest (list : SnapshotList) (preserveRootMarker : Bool) (rounds : Nat)
    (root : List Char) (t₀ : FsTree α) (cs : List TreeChoice)
    (hstray : NoStray list (clean root) t₀) :
    RunHonest list preserveRootMarker rounds root t₀ cs := by
  have hwp : (keeping list (clean root) preserveRootMarker t₀).wp
      (reconcileSnapshotWorkspaceWithMarker list preserveRootMarker rounds root)
      (fun _ t' => Reconciled list (clean root) preserveRootMarker t') t₀ :=
    wp_reconcileSnapshotWorkspaceWithMarker rounds root hstray
  have hmeets : (workspaceTree α).Meets (fun _ _ _ => True)
      (reconcileSnapshotWorkspaceWithMarker list preserveRootMarker rounds root) t₀ cs :=
    Server.Meets.of_forall (fun _ _ _ _ => trivial) _ _
  obtain ⟨-, hkept, hdone⟩ := Contract.wp_sound hwp
    (Kept.refl list (clean root) preserveRootMarker t₀) hmeets
  exact ⟨hkept.spared, hdone⟩

/-- The text of a path ends with its last name. -/
structure Tidy (p : Path) : Prop where
  plain : ∀ n ∈ p, FsTree.IsPlain n
  slash : ∀ n ∈ p, '/' ∉ n
  trimmed : Text.trimSpace (textOf p) = textOf p

instance (p : Path) : Decidable (Tidy p) :=
  decidable_of_iff ((∀ n ∈ p, FsTree.IsPlain n) ∧ (∀ n ∈ p, '/' ∉ n) ∧
    Text.trimSpace (textOf p) = textOf p) ⟨fun h => ⟨h.1, h.2.1, h.2.2⟩, fun h => ⟨h.1, h.2, h.3⟩⟩

theorem eq_of_validate {p q : Path} {field : String} (hp : Tidy p)
    (h : validateLinuxAbsolutePath (pathText p) field = .ok q) : q = p := by
  rw [validateLinuxAbsolutePath, show pathText p = textOf p from rfl, hp.trimmed] at h
  split at h
  · cases h
  split at h
  · cases h
  split at h
  · cases h
  · rw [← Except.ok.inj h, clean_textOf hp.plain hp.slash]

theorem noStray_of_tidy (hroot : Tidy root) (h : ∀ d, SnapshotDir list d → Tidy (root ++ d)) :
    NoStray list root t := by
  intro d hd p hp
  obtain ⟨⟨cleanRoot, relative⟩, hrelative, hopen⟩ := bind_eq_ok.mp hp
  obtain ⟨rootDir, hrootDir, hjoin⟩ := bind_eq_ok.mp hopen
  obtain ⟨cleanRoot', hcleanRoot, hrest⟩ := bind_eq_ok.mp hrelative
  obtain ⟨cleanPath, hcleanPath, hcheck⟩ := bind_eq_ok.mp hrest
  obtain rfl := eq_of_validate hroot hcleanRoot
  obtain rfl := eq_of_validate (h d hd) hcleanPath
  dsimp only at hcheck
  split at hcheck
  · cases hcheck
  obtain ⟨rfl, hrel⟩ := Prod.mk.inj (Except.ok.inj hcheck)
  obtain rfl := eq_of_validate hroot hrootDir
  refine .inl ?_
  rw [← Except.ok.inj hjoin, ← hrel, rel_append]

end Runs

/-! ## Two workspaces -/

def reportsSnapshot : SnapshotList
  | [] => .ok [⟨"reports".toList, true⟩]
  | _ => .ok [⟨"a.docx".toList, false⟩]

/-- A workspace that has it, with a sidecar and a file that is gone. -/
def reportsWorkspace : FsTree Unit :=
  FsTree.ofEntries
    [([], .dir), (["w".toList], .dir), (["w".toList, "reports".toList], .dir),
      (["w".toList, "reports".toList, "a.docx".toList], .file ()),
      (["w".toList, "reports".toList, "a.docx.sourcelens".toList], .file ()),
      (["w".toList, "reports".toList, "b.docx".toList], .file ())]
    (by decide) (by decide)

theorem reportsSnapshot_dir {d : Path} (h : SnapshotDir reportsSnapshot d) :
    d = [] ∨ d = ["reports".toList] := by
  induction h with
  | root => exact .inl rfl
  | @child d n h hn ih =>
    obtain ⟨rows, hrows, hmem⟩ := hn
    rcases ih with rfl | rfl
    · cases hrows
      exact .inr (by simpa using hmem)
    · cases hrows
      simp at hmem

/-- The file that is gone is removed, and the sidecar stays. -/
theorem reports_honest :
    RunHonest reportsSnapshot true 5 "/w".toList reportsWorkspace (List.replicate 40 {}) ∧
      ((workspaceTree Unit).run (reconcileSnapshotWorkspaceWithMarker reportsSnapshot true 5
        "/w".toList) reportsWorkspace (List.replicate 40 {})).outcome = .done 1 := by
  refine ⟨reconcile_honest _ _ _ _ _ _ (noStray_of_tidy (by decide) fun d hd => ?_),
    by decide +kernel⟩
  rcases reportsSnapshot_dir hd with rfl | rfl
  · decide
  · decide

/-- A snapshot with an empty directory whose name is that of another one and a blank. -/
def blankSnapshot : SnapshotList
  | [] => .ok [⟨"a ".toList, true⟩, ⟨"a".toList, true⟩]
  | d => if d = ["a".toList] then .ok [⟨"x".toList, false⟩] else .ok []

def blankWorkspace : FsTree Unit :=
  FsTree.ofEntries
    [([], .dir), (["w".toList], .dir), (["w".toList, "a ".toList], .dir),
      (["w".toList, "a".toList], .dir), (["w".toList, "a".toList, "x".toList], .file ())]
    (by decide) (by decide)

/-- The file of the second directory is removed for the first one. -/
theorem not_spared_blank : ¬ ∀ (list : SnapshotList) (preserve : Bool) (rounds : Nat)
    (root : List Char) (t₀ : FsTree Unit) (cs : List TreeChoice),
    RunHonest list preserve rounds root t₀ cs := by
  intro h
  have hspared := (h blankSnapshot false 5 "/w".toList blankWorkspace
    (List.replicate 40 {})).spared.snapshot ["a".toList, "x".toList]
  have hlisted : InSnapshot blankSnapshot ["a".toList, "x".toList] :=
    @InSnapshot.entry _ ["a".toList] _ false (.child (d := []) .root ⟨_, rfl, by decide⟩)
      ⟨_, rfl, by decide⟩
  exact absurd (hspared hlisted) (by decide +kernel)

end HyperFileLens.Lens.Reconcile
