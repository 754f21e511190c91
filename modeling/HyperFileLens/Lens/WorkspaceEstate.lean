import Mathlib.Data.List.Pairwise
import HyperFileLens.Lens.Workspace

/-!
# Workspaces apart

What the runs of `lens_prepare.go` may rely on when every workspace UID has one
workspace, and nothing of one workspace lies in anything of another.

*Estates.*  An `Estate` says which paths each UID has. The five places of a workspace
are its directory, its trash, its identity, its tombstone and its lock.

*Owned.*  A workspace that exists beside an identity was made for that identity, what is
in the trash was made for the identity of the tombstone, and of a retired workspace
nothing is left.

*Rely.*  While a run holds the lock of a workspace, the others leave its places alone, but
for the trash, which a purge may remove at any time.
-/

namespace HyperFileLens.Lens

open Service FileTree FilePath

def Apart (a b : Path) : Prop := ¬ a <+: b ∧ ¬ b <+: a

instance (a b : Path) : Decidable (Apart a b) := inferInstanceAs (Decidable (_ ∧ _))

variable {s s' : LensStore}

variable {P : LensWorkspacePaths} {s'' : LensStore}

theorem Apart.symm {a b : Path} (h : Apart a b) : Apart b a := ⟨h.2, h.1⟩

namespace LensWorkspacePaths

/-- What runs read and change of one workspace under its lock. -/
def contents (P : LensWorkspacePaths) : List Path :=
  [P.workspace, P.trash, P.identity, P.tombstone]

def places (P : LensWorkspacePaths) : List Path := P.contents ++ [P.lock]

/-- The directories of `ensureLensMetadataLayout`. -/
def layout (P : LensWorkspacePaths) : List Path :=
  [P.metadataRoot, P.identityRoot, P.tombstoneRoot, P.lockRoot, P.trashRoot]

end LensWorkspacePaths

/-- A directory is made where its path says. -/
def IsTidy (path base : Path) : Prop :=
  secureRelativePath path base = .ok (base, path.drop base.length) ∧
    base ++ path.drop base.length = path

instance (path base : Path) : Decidable (IsTidy path base) := inferInstanceAs (Decidable (_ ∧ _))

/-- The paths of a workspace lie apart, and their texts are tidy. -/
structure LensWorkspacePaths.WellPlaced (P : LensWorkspacePaths) : Prop where
  apart : P.places.Pairwise Apart
  workspace : IsTidy P.workspace P.root
  layout : ∀ d ∈ P.layout, IsTidy d P.root.dropLast

instance (P : LensWorkspacePaths) : Decidable P.WellPlaced :=
  decidable_of_iff (P.places.Pairwise Apart ∧ IsTidy P.workspace P.root ∧
      ∀ d ∈ P.layout, IsTidy d P.root.dropLast)
    ⟨fun ⟨h, h', h''⟩ => ⟨h, h', h''⟩, fun ⟨h, h', h''⟩ => ⟨h, h', h''⟩⟩

structure Estate where
  site : String → Option LensWorkspacePaths
  wellPlaced : ∀ {u P}, site u = some P → P.WellPlaced
  /-- The places of two workspaces lie apart. -/
  apart : ∀ {u v P P'}, u ≠ v → site u = some P → site v = some P' →
    ∀ a ∈ P.places, ∀ b ∈ P'.places, Apart a b

section Places

variable {P : LensWorkspacePaths}

variable {a : Path}

theorem LensWorkspacePaths.places_of_contents (h : a ∈ P.contents) : a ∈ P.places :=
  List.mem_append_left _ h

theorem LensWorkspacePaths.workspace_mem : P.workspace ∈ P.contents := List.mem_cons_self

theorem LensWorkspacePaths.trash_mem : P.trash ∈ P.contents :=
  List.mem_cons_of_mem _ List.mem_cons_self

theorem LensWorkspacePaths.identity_mem : P.identity ∈ P.contents := by
  simp [LensWorkspacePaths.contents]

theorem LensWorkspacePaths.tombstone_mem : P.tombstone ∈ P.contents := by
  simp [LensWorkspacePaths.contents]

theorem LensWorkspacePaths.lock_mem : P.lock ∈ P.places :=
  List.mem_append_right _ List.mem_cons_self

theorem LensWorkspacePaths.WellPlaced.apart_of_ne (h : P.WellPlaced) {b : Path} (ha : a ∈ P.places)
    (hb : b ∈ P.places) (hne : a ≠ b) : Apart a b := by
  have : Std.Symm Apart := ⟨fun _ _ hab => hab.symm⟩
  exact h.apart.forall ha hb hne

theorem LensWorkspacePaths.WellPlaced.contents_apart (h : P.WellPlaced) :
    (¬ P.workspace <+: P.trash ∧ ¬ P.workspace <+: P.identity ∧ ¬ P.workspace <+: P.tombstone) ∧
    (¬ P.trash <+: P.workspace ∧ ¬ P.trash <+: P.identity ∧ ¬ P.trash <+: P.tombstone) ∧
    (¬ P.identity <+: P.workspace ∧ ¬ P.identity <+: P.trash ∧ ¬ P.identity <+: P.tombstone) ∧
    (¬ P.tombstone <+: P.workspace ∧ ¬ P.tombstone <+: P.trash ∧ ¬ P.tombstone <+: P.identity) := by
  have hapart := (List.pairwise_append.mp h.apart).1
  simp only [LensWorkspacePaths.contents, List.pairwise_cons, List.mem_cons, List.not_mem_nil,
    or_false, forall_eq_or_imp, forall_eq, Apart] at hapart
  obtain ⟨⟨⟨h₁, h₁'⟩, ⟨h₂, h₂'⟩, h₃, h₃'⟩, ⟨⟨h₄, h₄'⟩, h₅, h₅'⟩, ⟨h₆, h₆'⟩, -⟩ := hapart
  exact ⟨⟨h₁, h₂, h₃⟩, ⟨h₁', h₄, h₅⟩, ⟨h₂', h₄', h₆⟩, h₃', h₅', h₆'⟩

end Places

/-! ## Owned workspaces -/

/-- The directory and the trash of a workspace belong to its identity. -/
structure OwnedAt (P : LensWorkspacePaths) (s : LensStore) : Prop where
  claimed : ∀ {e}, s.tree.get P.identity = some e → s.tree.get P.workspace = none ∨
    ∃ I, e = .file (.identity I) ∧ s.maker P.workspace = some I
  trashed : ∀ {e}, s.tree.get P.trash = some e → ∃ T,
    s.tree.get P.tombstone = some (.file (.tombstone T)) ∧ s.maker P.trash = some T.identity
  gone : ∀ {T}, s.tree.get P.tombstone = some (.file (.tombstone T)) →
    T.state = lensWorkspaceTombstoneRetired →
    s.tree.get P.workspace = none ∧ s.tree.get P.trash = none ∧ s.tree.get P.identity = none

def Owned (E : Estate) (s : LensStore) : Prop := ∀ {u P}, E.site u = some P → OwnedAt P s

/-- A tombstone keeps its identity and its path, and moves only from retiring to
retired. -/
def SealedAt (P : LensWorkspacePaths) (s s' : LensStore) : Prop :=
  ∀ T, s.tree.get P.tombstone = some (.file (.tombstone T)) → ∃ T',
    s'.tree.get P.tombstone = some (.file (.tombstone T')) ∧ T'.identity = T.identity ∧
      T'.workspacePath = T.workspacePath ∧
      (T'.state = T.state ∨
        T.state = lensWorkspaceTombstoneRetiring ∧ T'.state = lensWorkspaceTombstoneRetired)

theorem SealedAt.of_eq (h : s'.tree.get P.tombstone = s.tree.get P.tombstone) : SealedAt P s s' :=
  fun T hT => ⟨T, h.trans hT, rfl, rfl, .inl rfl⟩

theorem lensWorkspaceTombstoneRetired_ne :
    lensWorkspaceTombstoneRetired ≠ lensWorkspaceTombstoneRetiring := by decide

theorem SealedAt.trans (h : SealedAt P s s') (h' : SealedAt P s' s'') : SealedAt P s s'' := by
  intro T hT
  obtain ⟨T₁, hT₁, hidentity, hpath, hstate⟩ := h T hT
  obtain ⟨T₂, hT₂, hidentity', hpath', hstate'⟩ := h' T₁ hT₁
  refine ⟨T₂, hT₂, hidentity'.trans hidentity, hpath'.trans hpath, ?_⟩
  rcases hstate with hsame | ⟨hretiring, hretired⟩
  · rcases hstate' with hsame' | ⟨hretiring, hretired⟩
    · exact .inl (hsame'.trans hsame)
    · exact .inr ⟨hsame ▸ hretiring, hretired⟩
  · rcases hstate' with hsame' | ⟨hretiring', -⟩
    · exact .inr ⟨hretiring, hsame'.trans hretired⟩
    · exact absurd (hretired.symm.trans hretiring') lensWorkspaceTombstoneRetired_ne

def Free (E : Estate) (d : Path) : Prop := ∀ {u P}, E.site u = some P → ∀ a ∈ P.places, ¬ a <+: d

section Free

variable {E : Estate} {u v : String} {P P' : LensWorkspacePaths}

variable {a : Path}

/-- The places of two workspaces lie apart, and so do two places of one. -/
theorem Estate.apart_of_ne (hP : E.site u = some P) (hP' : E.site v = some P') {b : Path}
    (ha : a ∈ P.places) (hb : b ∈ P'.places) (hne : a ≠ b) : Apart a b := by
  by_cases huv : u = v
  · subst huv
    obtain rfl := Option.some.inj (hP.symm.trans hP')
    exact (E.wellPlaced hP).apart_of_ne ha hb hne
  · exact E.apart huv hP hP' a ha b hb

theorem Estate.free_of_prefix (hP : E.site u = some P) {d : Path} (ha : a ∈ P.places)
    (habove : d <+: a) (hne : d ≠ a) : Free E d := by
  intro v P' hP' b hb hbd
  by_cases hba : b = a
  · subst hba
    exact hne (habove.eq_of_length_le hbd.length_le)
  · exact (E.apart_of_ne hP' hP hb ha hba).1 (hbd.trans habove)

theorem Estate.not_prefix (hP : E.site u = some P) (hP' : E.site v = some P') (huv : u ≠ v)
    (ha : a ∈ P'.places) : ∀ b ∈ P.places, ¬ b <+: a :=
  fun b hb => (E.apart huv hP hP' b hb a ha).1

end Free

/-! ## What the runs rely on -/

/-- How the others move the files while a run waits. -/
structure Waits (E : Estate) (j : Nat) (s s' : LensStore) : Prop where
  temporary : s'.temporary j = s.temporary j
  holder : ∀ p, s.holder p = some j → s'.holder p = some j
  held : ∀ {u P}, E.site u = some P → s.holder P.lock = some j →
    s'.tree.get P.workspace = s.tree.get P.workspace ∧
    s'.tree.get P.identity = s.tree.get P.identity ∧
    s'.tree.get P.tombstone = s.tree.get P.tombstone ∧
    s'.maker P.workspace = s.maker P.workspace ∧
    (s.tree.get P.trash = none → s'.tree.get P.trash = none)
  dirs : ∀ d, Free E d → s.tree.get d = some .dir → s'.tree.get d = some .dir
  sealed : ∀ {u P}, E.site u = some P → SealedAt P s s'

theorem Waits.refl (E : Estate) (j : Nat) (s : LensStore) : Waits E j s s where
  temporary := rfl
  holder _ h := h
  held _ _ := ⟨rfl, rfl, rfl, rfl, fun h => h⟩
  dirs _ _ h := h
  sealed _ := .of_eq rfl

theorem Waits.trans {E : Estate} {j : Nat} (h : Waits E j s s') (h' : Waits E j s' s'') :
    Waits E j s s'' where
  temporary := h'.temporary.trans h.temporary
  holder p hp := h'.holder p (h.holder p hp)
  held hP hlock := by
    obtain ⟨hworkspace, hidentity, htombstone, hmaker, htrash⟩ := h.held hP hlock
    obtain ⟨hworkspace', hidentity', htombstone', hmaker', htrash'⟩ :=
      h'.held hP (h.holder _ hlock)
    exact ⟨hworkspace'.trans hworkspace, hidentity'.trans hidentity,
      htombstone'.trans htombstone, hmaker'.trans hmaker, fun hnone => htrash' (htrash hnone)⟩
  dirs d hd hget := h'.dirs d hd (h.dirs d hd hget)
  sealed hP := (h.sealed hP).trans (h'.sealed hP)

def Guard (E : Estate) (i : Nat) (s : LensStore) : LensCall → Prop
  | .mkdirat p who => Free E p ∨ ∃ u P I, E.site u = some P ∧ p = P.workspace ∧ who = some I ∧
      s.holder P.lock = some i ∧ s.tree.get P.identity = some (.file (.identity I)) ∧
      ∀ T, s.tree.get P.tombstone ≠ some (.file (.tombstone T))
  | .lock p => ∃ u P, E.site u = some P ∧ p = P.lock
  | .createExclusive p => ∃ u P, E.site u = some P ∧ p = P.identity ∧
      s.holder P.lock = some i ∧ s.tree.get P.workspace = none ∧
      ∀ T, s.tree.get P.tombstone ≠ some (.file (.tombstone T))
  | .write p _ => ∃ u P, E.site u = some P ∧ p = P.identity ∧
      s.holder P.lock = some i ∧ s.tree.get P.workspace = none ∧
      ∀ T, s.tree.get P.tombstone ≠ some (.file (.tombstone T))
  | .remove p => ∃ u P, E.site u = some P ∧ p = P.identity ∧
      s.holder P.lock = some i ∧ s.tree.get P.workspace = none ∧ s.tree.get P.trash = none
  | .replaceWithTemp p => ∃ u P T, E.site u = some P ∧ p = P.tombstone ∧
      s.holder P.lock = some i ∧ s.temporary i = some (.tombstone T) ∧
      s.tree.get P.identity ≠ some (.file .torn) ∧
      (s.tree.get P.tombstone = none ∨ ∃ T₀,
        s.tree.get P.tombstone = some (.file (.tombstone T₀)) ∧
        T₀.state = lensWorkspaceTombstoneRetiring ∧ T.identity = T₀.identity ∧
        T.workspacePath = T₀.workspacePath) ∧
      (T.state = lensWorkspaceTombstoneRetiring ∨
        T.state = lensWorkspaceTombstoneRetired ∧ s.tree.get P.workspace = none ∧
        s.tree.get P.trash = none ∧ s.tree.get P.identity = none)
  | .rename source target who => ∃ u P T, E.site u = some P ∧ source = P.workspace ∧
      target = P.trash ∧ s.holder P.lock = some i ∧
      s.tree.get P.identity = some (.file (.identity who)) ∧
      s.tree.get P.tombstone = some (.file (.tombstone T)) ∧
      T.state = lensWorkspaceTombstoneRetiring ∧ T.identity = who
  | .removeAll p who => ∃ u P T, E.site u = some P ∧ p = P.trash ∧
      s.tree.get P.tombstone = some (.file (.tombstone T)) ∧ T.identity = who
  | _ => True

def estateRely (E : Estate) : Rely LensStore LensCall where
  keeps := Owned E
  moves := Waits E
  guards := Guard E
  refl := Waits.refl E
  trans := Waits.trans

/-! ## What the calls keep -/

section Kept

variable {E : Estate} {i : Nat} {u : String} {P : LensWorkspacePaths} {s s' : LensStore}

variable {t : FsTree LensFile} {p : Path}

variable {a : Path}

theorem OwnedAt.congr {P : LensWorkspacePaths} (h : OwnedAt P s)
    (hget : ∀ a ∈ P.contents, s'.tree.get a = s.tree.get a)
    (hmaker : ∀ a ∈ P.contents, s'.maker a = s.maker a) : OwnedAt P s' where
  claimed := by
    rw [hget _ P.identity_mem, hget _ P.workspace_mem, hmaker _ P.workspace_mem]
    exact h.claimed
  trashed := by
    rw [hget _ P.trash_mem, hget _ P.tombstone_mem, hmaker _ P.trash_mem]
    exact h.trashed
  gone := by
    rw [hget _ P.tombstone_mem, hget _ P.workspace_mem, hget _ P.trash_mem,
      hget _ P.identity_mem]
    exact h.gone

/-- Nothing changes but what is in the places of one workspace. -/
structure Local (P : LensWorkspacePaths) (s s' : LensStore) : Prop where
  get : ∀ a, (∀ b ∈ P.places, ¬ b <+: a) → s'.tree.get a = s.tree.get a
  maker : ∀ a, (∀ b ∈ P.places, ¬ b <+: a) → s'.maker a = s.maker a

/-- What a run does in the places of a workspace whose lock no other run has. -/
theorem kept_of_local (hP : E.site u = some P) (howned : Owned E s) (hlocal : Local P s s')
    (hat : OwnedAt P s') (hsealed : SealedAt P s s') (hlock : ∀ j, j ≠ i → s.holder P.lock ≠ some j)
    (hholder : ∀ j, j ≠ i → ∀ p, s.holder p = some j → s'.holder p = some j)
    (htemp : ∀ j, j ≠ i → s'.temporary j = s.temporary j) : Owned E s' ∧ ∀ j, j ≠ i →
      Waits E j s s' := by
  have hother : ∀ {v P'}, E.site v = some P' → v ≠ u → ∀ a ∈ P'.contents,
      s'.tree.get a = s.tree.get a ∧ s'.maker a = s.maker a := fun {v P'} hP' hvu a ha =>
    have hout := E.not_prefix hP hP' hvu.symm (P'.places_of_contents ha)
    ⟨hlocal.get a hout, hlocal.maker a hout⟩
  constructor
  · intro v P' hP'
    by_cases hvu : v = u
    · subst hvu
      obtain rfl := Option.some.inj (hP.symm.trans hP')
      exact hat
    · exact (howned hP').congr (fun a ha => (hother hP' hvu a ha).1)
        fun a ha => (hother hP' hvu a ha).2
  · intro j hj
    refine ⟨htemp j hj, hholder j hj, fun {v P'} hP' hheld => ?_, fun d hd hget => ?_,
      fun {v P'} hP' => ?_⟩
    · have hvu : v ≠ u := by
        rintro rfl
        obtain rfl := Option.some.inj (hP.symm.trans hP')
        exact hlock j hj hheld
      have hsame := hother hP' hvu
      exact ⟨(hsame _ P'.workspace_mem).1, (hsame _ P'.identity_mem).1,
        (hsame _ P'.tombstone_mem).1, (hsame _ P'.workspace_mem).2,
        fun hnone => (hsame _ P'.trash_mem).1.trans hnone⟩
    · rw [hlocal.get d (hd hP), hget]
    · by_cases hvu : v = u
      · subst hvu
        obtain rfl := Option.some.inj (hP.symm.trans hP')
        exact hsealed
      · exact .of_eq (hother hP' hvu _ P'.tombstone_mem).1

theorem kept_of_free (howned : Owned E s)
    (hget : ∀ {v P'}, E.site v = some P' → ∀ a ∈ P'.contents, s'.tree.get a = s.tree.get a)
    (hmaker : ∀ {v P'}, E.site v = some P' → ∀ a ∈ P'.contents, s'.maker a = s.maker a)
    (hdirs : ∀ d, s.tree.get d = some .dir → s'.tree.get d = some .dir)
    (hholder : ∀ j, j ≠ i → ∀ p, s.holder p = some j → s'.holder p = some j)
    (htemp : ∀ j, j ≠ i → s'.temporary j = s.temporary j) :
    Owned E s' ∧ ∀ j, j ≠ i → Waits E j s s' := by
  refine ⟨fun hP' => (howned hP').congr (hget hP') (hmaker hP'), fun j hj => ?_⟩
  refine ⟨htemp j hj, hholder j hj, fun {v P'} hP' _ => ?_, fun d _ => hdirs d, fun hP' =>
    .of_eq (hget hP' _ LensWorkspacePaths.tombstone_mem)⟩
  have hsame := hget hP'
  exact ⟨hsame _ P'.workspace_mem, hsame _ P'.identity_mem, hsame _ P'.tombstone_mem,
    hmaker hP' _ P'.workspace_mem, fun hnone => (hsame _ P'.trash_mem).trans hnone⟩

theorem kept_self (howned : Owned E s) : Owned E s ∧ ∀ j, j ≠ i → Waits E j s s :=
  ⟨howned, fun j _ => .refl E j s⟩

theorem other_not_holder (h : s.holder P.lock = some i) (j : Nat) (hj : j ≠ i) :
    s.holder P.lock ≠ some j := fun hj' => hj (Option.some.inj (hj'.symm.trans h))

theorem change_cases (s : LensStore) (c : LensChoice) (tree : Except ChangeError (FsTree LensFile))
    (after : LensStore → LensStore) : (s.change c tree after).2 = s ∨
      ∃ t, tree = .ok t ∧ (s.change c tree after).2 = after { s with tree := t } := by
  rw [LensStore.change.eq_def]
  cases c.error with
  | some message => exact .inl rfl
  | none =>
    cases tree with
    | error error => exact .inl rfl
    | ok t => exact .inr ⟨t, rfl, rfl⟩

theorem change_eq_ok {c : LensChoice} {tree : Except ChangeError (FsTree LensFile)}
    {after : LensStore → LensStore} {a : Unit} (h : (s.change c tree after).1 = .ok a) :
    ∃ t, tree = .ok t ∧ (s.change c tree after).2 = after { s with tree := t } := by
  rw [LensStore.change.eq_def] at h ⊢
  cases hc : c.error with
  | some message =>
    rw [hc] at h
    cases h
  | none =>
    cases tree with
    | error error =>
      rw [hc] at h
      cases h
    | ok t => exact ⟨t, rfl, rfl⟩

/-- The lock of a workspace is none of its contents, nor of those of another. -/
theorem Estate.ne_lock {v : String} {P' : LensWorkspacePaths} (hP : E.site u = some P)
    (hP' : E.site v = some P') (ha : a ∈ P'.contents) : a ≠ P.lock := by
  rintro rfl
  by_cases huv : u = v
  · subst huv
    obtain rfl := Option.some.inj (hP.symm.trans hP')
    have hapart := List.pairwise_append.mp (E.wellPlaced hP).apart
    exact (hapart.2.2 _ ha _ List.mem_cons_self).1 (List.prefix_refl _)
  · exact (E.apart huv hP hP' _ P.lock_mem _ (P'.places_of_contents ha)).1 (List.prefix_refl _)

theorem opened_eq_ok {t' : FsTree LensFile} (h : opened t p = .ok t') :
    (∀ q, q ≠ p → t'.get q = t.get q) ∧ ∀ d, t.get d = some .dir → t'.get d = some .dir := by
  rw [opened] at h
  split at h
  · cases h
    exact ⟨fun q _ => rfl, fun d hd => hd⟩
  · obtain ⟨hnone, -, rfl⟩ := FsTree.create_eq_ok h
    refine ⟨fun q hq => FsTree.get_put_of_ne hq, fun d hd => ?_⟩
    have hne : d ≠ p := by
      rintro rfl
      exact nomatch hnone.symm.trans hd
    rw [FsTree.get_put_of_ne hne, hd]

theorem kept_lock (howned : Owned E s) (hP : E.site u = some P) (c : LensChoice) :
    Owned E (s.lock i P.lock c).2 ∧ ∀ j, j ≠ i → Waits E j s (s.lock i P.lock c).2 := by
  rw [LensStore.lock]
  split
  · exact kept_self howned
  · exact kept_self howned
  · rename_i tree _ hopened
    obtain ⟨hget, hdirs⟩ := opened_eq_ok hopened
    split
    · exact kept_of_free howned (fun hP' a ha => hget a (E.ne_lock hP hP' ha)) (fun _ _ _ => rfl)
        hdirs (fun _ _ _ h => h) fun _ _ => rfl
    · rename_i hfree
      refine kept_of_free howned (fun hP' a ha => hget a (E.ne_lock hP hP' ha)) (fun _ _ _ => rfl)
        hdirs (fun j _ p hp => ?_) fun _ _ => rfl
      have hne : p ≠ P.lock := by
        rintro rfl
        exact nomatch hfree.symm.trans hp
      exact (if_neg hne).trans hp

theorem kept_mkdirat_free {who : Option LensWorkspaceIdentity} (howned : Owned E s)
    (hfree : Free E p) (hmade : s.tree.mkdir p = .ok t) :
    Owned E (LensStore.made p who { s with tree := t }) ∧
      ∀ j, j ≠ i → Waits E j s (LensStore.made p who { s with tree := t }) := by
  obtain ⟨hnone, -, rfl⟩ := FsTree.mkdir_eq_ok hmade
  have hne : ∀ {v P'}, E.site v = some P' → ∀ a ∈ P'.contents, a ≠ p := by
    rintro v P' hP' a ha rfl
    exact hfree hP' a (P'.places_of_contents ha) (List.prefix_refl a)
  refine kept_of_free howned (fun hP' a ha => FsTree.get_put_of_ne (hne hP' a ha))
    (fun hP' a ha => if_neg (hne hP' a ha)) (fun d hd => ?_) (fun _ _ _ h => h) fun _ _ => rfl
  have hdp : d ≠ p := by
    rintro rfl
    exact nomatch hnone.symm.trans hd
  exact (FsTree.get_put_of_ne hdp).trans hd

theorem local_put {e : Entry LensFile} (hp : p ∈ P.contents) :
    Local P s { s with tree := s.tree.put p e } where
  get _ ha := FsTree.get_put_of_ne fun heq =>
    ha p (P.places_of_contents hp) (heq ▸ List.prefix_refl p)
  maker _ _ := rfl

theorem local_prune (hp : p ∈ P.contents) (left : List Path) :
    Local P s { s with tree := s.tree.prune p left } where
  get _ ha := FsTree.get_prune_of_not_prefix (ha p (P.places_of_contents hp))
  maker _ _ := rfl

theorem Estate.contents_apart (hP : E.site u = some P) :
    (¬ P.workspace <+: P.trash ∧ ¬ P.workspace <+: P.identity ∧ ¬ P.workspace <+: P.tombstone) ∧
    (¬ P.trash <+: P.workspace ∧ ¬ P.trash <+: P.identity ∧ ¬ P.trash <+: P.tombstone) ∧
    (¬ P.identity <+: P.workspace ∧ ¬ P.identity <+: P.trash ∧ ¬ P.identity <+: P.tombstone) ∧
    (¬ P.tombstone <+: P.workspace ∧ ¬ P.tombstone <+: P.trash ∧ ¬ P.tombstone <+: P.identity) :=
  (E.wellPlaced hP).contents_apart

theorem ne_of_outside {b : Path} (h : ¬ a <+: b) : b ≠ a :=
  fun heq => h (heq ▸ List.prefix_refl b)

section

variable (howned : Owned E s)

include howned

section

variable (hP : E.site u = some P)

include hP

section

variable (hlock : s.holder P.lock = some i)

include hlock

variable {T : LensWorkspaceTombstone}

theorem kept_put_identity (hworkspace : s.tree.get P.workspace = none)
    (htombstone : ∀ T, s.tree.get P.tombstone ≠ some (.file (.tombstone T)))
    (e : Entry LensFile) :
    Owned E { s with tree := s.tree.put P.identity e } ∧
      ∀ j, j ≠ i → Waits E j s { s with tree := s.tree.put P.identity e } := by
  obtain ⟨-, -, ⟨hw, ht, hs⟩, -⟩ := E.contents_apart hP
  have hget : ∀ {a}, ¬ P.identity <+: a → (s.tree.put P.identity e).get a = s.tree.get a :=
    fun ha => FsTree.get_put_of_ne (ne_of_outside ha)
  refine kept_of_local hP howned (local_put P.identity_mem) ?_ (.of_eq (hget hs))
    (other_not_holder hlock) (fun _ _ _ h => h) fun _ _ => rfl
  constructor
  · exact fun _ => .inl ((hget hw).trans hworkspace)
  · intro e' he'
    obtain ⟨T, hT, -⟩ := (howned hP).trashed ((hget ht).symm.trans he')
    exact absurd hT (htombstone T)
  · intro T hT
    exact absurd ((hget hs).symm.trans hT) (htombstone T)

theorem kept_remove_identity (hworkspace : s.tree.get P.workspace = none) (left : List Path) :
    Owned E { s with tree := s.tree.prune P.identity left } ∧
      ∀ j, j ≠ i → Waits E j s { s with tree := s.tree.prune P.identity left } := by
  obtain ⟨-, -, ⟨hw, ht, hs⟩, -⟩ := E.contents_apart hP
  have hget : ∀ {a}, ¬ P.identity <+: a → (s.tree.prune P.identity left).get a = s.tree.get a :=
    FsTree.get_prune_of_not_prefix
  refine kept_of_local hP howned (local_prune P.identity_mem left) ?_ (.of_eq (hget hs))
    (other_not_holder hlock) (fun _ _ _ h => h) fun _ _ => rfl
  constructor
  · exact fun _ => .inl ((hget hw).trans hworkspace)
  · intro e' he'
    obtain ⟨T, hT, hmaker⟩ := (howned hP).trashed ((hget ht).symm.trans he')
    exact ⟨T, (hget hs).trans hT, hmaker⟩
  · intro T hT hretired
    obtain ⟨-, htrash, hidentity⟩ := (howned hP).gone ((hget hs).symm.trans hT) hretired
    refine ⟨(hget hw).trans hworkspace, (hget ht).trans htrash, ?_⟩
    cases hgone : (s.tree.prune P.identity left).get P.identity with
    | none => rfl
    | some e' => exact nomatch hidentity.symm.trans (FsTree.prune_le _ _ _ _ _ hgone)

/-- A run puts a tombstone in the place of none, or of a retiring one. -/
theorem kept_replace (hold : s.tree.get P.tombstone = none ∨ ∃ T₀,
      s.tree.get P.tombstone = some (.file (.tombstone T₀)) ∧
      T₀.state = lensWorkspaceTombstoneRetiring ∧ T.identity = T₀.identity ∧
      T.workspacePath = T₀.workspacePath) (hnew : T.state = lensWorkspaceTombstoneRetiring ∨
      T.state = lensWorkspaceTombstoneRetired ∧ s.tree.get P.workspace = none ∧
      s.tree.get P.trash = none ∧ s.tree.get P.identity = none)
    (hreplaced : s.tree.replace P.tombstone (.tombstone T) = .ok t) :
    Owned E (LensStore.setTemp { s with tree := t } i none) ∧
      ∀ j, j ≠ i → Waits E j s (LensStore.setTemp { s with tree := t } i none) := by
  obtain ⟨-, hputtable, rfl⟩ := FsTree.replace_eq_ok hreplaced
  obtain ⟨-, -, -, hw, ht, hi⟩ := E.contents_apart hP
  have hget : ∀ {a}, ¬ P.tombstone <+: a →
      (s.tree.put P.tombstone (.file (.tombstone T))).get a = s.tree.get a :=
    fun ha => FsTree.get_put_of_ne (ne_of_outside ha)
  have hself := FsTree.get_put_self hputtable
  have hlocal := local_put (s := s) (e := .file (.tombstone T)) P.tombstone_mem
  refine kept_of_local hP howned ⟨hlocal.get, hlocal.maker⟩ ?_ ?_
    (other_not_holder hlock) (fun _ _ _ h => h) fun j hj => if_neg hj
  · constructor
    · intro e he
      rcases (howned hP).claimed ((hget hi).symm.trans he) with hnone | hclaimed
      · exact .inl ((hget hw).trans hnone)
      · exact .inr hclaimed
    · intro e he
      obtain ⟨T₁, hT₁, hmaker⟩ := (howned hP).trashed ((hget ht).symm.trans he)
      rcases hold with hnone | ⟨T₀, hT₀, -, hidentity, -⟩
      · exact nomatch hnone.symm.trans hT₁
      · obtain rfl : T₀ = T₁ := by simpa using hT₀.symm.trans hT₁
        exact ⟨T, hself, hidentity ▸ hmaker⟩
    · intro T' hT' hretired
      obtain rfl : T = T' := by simpa using hself.symm.trans hT'
      rcases hnew with hretiring | ⟨-, hworkspace, htrash, hidentity⟩
      · exact absurd (hretired.symm.trans hretiring) lensWorkspaceTombstoneRetired_ne
      · exact ⟨(hget hw).trans hworkspace, (hget ht).trans htrash, (hget hi).trans hidentity⟩
  · intro T₁ hT₁
    rcases hold with hnone | ⟨T₀, hT₀, hretiring, hidentity, hpath⟩
    · exact nomatch hnone.symm.trans hT₁
    · obtain rfl : T₀ = T₁ := by simpa using hT₀.symm.trans hT₁
      refine ⟨T, hself, hidentity, hpath, ?_⟩
      rcases hnew with hretiring' | ⟨hretired, -⟩
      · exact .inl (hretiring'.trans hretiring.symm)
      · exact .inr ⟨hretiring, hretired⟩

theorem kept_rename (hidentity : s.tree.get P.identity = some (.file (.identity T.identity)))
    (htombstone : s.tree.get P.tombstone = some (.file (.tombstone T)))
    (hstate : T.state = lensWorkspaceTombstoneRetiring)
    (hrenamed : s.tree.rename P.workspace P.trash = .ok t) :
    Owned E (LensStore.moved P.workspace P.trash { s with tree := t }) ∧
      ∀ j, j ≠ i → Waits E j s (LensStore.moved P.workspace P.trash { s with tree := t }) := by
  obtain ⟨hexists, hmovable, rfl⟩ := FsTree.rename_eq_ok hrenamed
  obtain ⟨⟨-, hwi, hws⟩, ⟨htw, hti, hts⟩, -⟩ := E.contents_apart hP
  have hget : ∀ {a}, ¬ P.workspace <+: a → ¬ P.trash <+: a →
      (s.tree.move P.workspace P.trash).get a = s.tree.get a := FsTree.get_move_of_apart
  have hfrom : (s.tree.move P.workspace P.trash).get P.workspace = none := by
    simpa using FsTree.get_move_from hmovable []
  have hto : (s.tree.move P.workspace P.trash).get P.trash = s.tree.get P.workspace := by
    simpa using FsTree.get_move_to hmovable []
  refine kept_of_local hP howned ⟨fun a ha => ?_, fun a ha => ?_⟩ ?_ (.of_eq (hget hws hts))
    (other_not_holder hlock) (fun _ _ _ h => h) fun _ _ => rfl
  · exact hget (ha _ (P.places_of_contents P.workspace_mem)) (ha _ (P.places_of_contents P.trash_mem))
  · exact if_neg (ha _ (P.places_of_contents P.trash_mem))
  · constructor
    · exact fun _ => .inl hfrom
    · intro e he
      have hworkspace := hto.symm.trans he
      obtain ⟨I, hI, hmaker⟩ : ∃ I, Entry.file (LensFile.identity T.identity) =
          .file (.identity I) ∧ s.maker P.workspace = some I := by
        rcases (howned hP).claimed hidentity with hnone | hclaimed
        · exact nomatch hnone.symm.trans hworkspace
        · exact hclaimed
      obtain rfl : T.identity = I := by simpa using hI
      refine ⟨T, (hget hws hts).trans htombstone, ?_⟩
      simpa [LensStore.moved] using hmaker
    · intro T' hT' hretired
      obtain rfl : T = T' := by simpa using htombstone.symm.trans ((hget hws hts).symm.trans hT')
      exact absurd (hretired.symm.trans hstate) lensWorkspaceTombstoneRetired_ne

end

theorem kept_removeAll (left : List Path) : Owned E { s with tree := s.tree.prune P.trash left } ∧
      ∀ j, j ≠ i → Waits E j s { s with tree := s.tree.prune P.trash left } := by
  have hget : ∀ {v P'}, E.site v = some P' → ∀ a ∈ P'.contents, a ≠ P.trash →
      (s.tree.prune P.trash left).get a = s.tree.get a := fun {v P'} hP' a ha hne =>
    FsTree.get_prune_of_not_prefix (E.apart_of_ne hP hP' (P.places_of_contents P.trash_mem)
      (P'.places_of_contents ha) hne.symm).1
  have hgone : ∀ {p}, s.tree.get p = none → (s.tree.prune P.trash left).get p = none := by
    intro p hp
    cases hafter : (s.tree.prune P.trash left).get p with
    | none => rfl
    | some e => exact nomatch hp.symm.trans (FsTree.prune_le _ _ _ _ _ hafter)
  have hsame : ∀ {v P'}, E.site v = some P' →
      (s.tree.prune P.trash left).get P'.workspace = s.tree.get P'.workspace ∧
      (s.tree.prune P.trash left).get P'.identity = s.tree.get P'.identity ∧
      (s.tree.prune P.trash left).get P'.tombstone = s.tree.get P'.tombstone := by
    intro v P' hP'
    have hne : ∀ a ∈ P'.contents, a ≠ P'.trash → a ≠ P.trash := by
      rintro a ha hne rfl
      by_cases huv : u = v
      · subst huv
        obtain rfl := Option.some.inj (hP.symm.trans hP')
        exact hne rfl
      · exact (E.apart huv hP hP' _ (P.places_of_contents P.trash_mem) _
          (P'.places_of_contents ha)).1 (List.prefix_refl _)
    obtain ⟨-, ⟨htw, hti, hts⟩, -⟩ := E.contents_apart hP'
    exact ⟨hget hP' _ P'.workspace_mem (hne _ P'.workspace_mem (ne_of_outside htw)),
      hget hP' _ P'.identity_mem (hne _ P'.identity_mem (ne_of_outside hti)),
      hget hP' _ P'.tombstone_mem (hne _ P'.tombstone_mem (ne_of_outside hts))⟩
  constructor
  · intro v P' hP'
    obtain ⟨hworkspace, hidentity, htombstone⟩ := hsame hP'
    constructor
    · intro e he
      rcases (howned hP').claimed (hidentity.symm.trans he) with hnone | hclaimed
      · exact .inl (hworkspace.trans hnone)
      · exact .inr hclaimed
    · intro e he
      obtain ⟨T, hT, hmaker⟩ := (howned hP').trashed (FsTree.prune_le _ _ _ _ _ he)
      exact ⟨T, htombstone.trans hT, hmaker⟩
    · intro T hT hretired
      obtain ⟨hworkspace', htrash, hidentity'⟩ :=
        (howned hP').gone (htombstone.symm.trans hT) hretired
      exact ⟨hworkspace.trans hworkspace', hgone htrash, hidentity.trans hidentity'⟩
  · intro j hj
    refine ⟨rfl, fun p h => h, fun {v P'} hP' _ => ?_, fun d hd hdir => ?_, fun hP' =>
      .of_eq (hsame hP').2.2⟩
    · obtain ⟨hworkspace, hidentity, htombstone⟩ := hsame hP'
      exact ⟨hworkspace, hidentity, htombstone, rfl, hgone⟩
    · exact (FsTree.get_prune_of_not_prefix (hd hP _ (P.places_of_contents P.trash_mem))).trans hdir

end

variable {r : LensCall}

theorem kept_setTemp (content : Option LensFile) :
    Owned E (s.setTemp i content) ∧ ∀ j, j ≠ i → Waits E j s (s.setTemp i content) :=
  kept_of_free howned (fun _ _ _ => rfl) (fun _ _ _ => rfl) (fun _ h => h) (fun _ _ _ h => h)
    fun _ hj => if_neg hj

theorem kept_change {c : LensChoice} {tree : Except ChangeError (FsTree LensFile)}
    {after : LensStore → LensStore}
    (hok : ∀ t, tree = .ok t → Owned E (after { s with tree := t }) ∧
      ∀ j, j ≠ i → Waits E j s (after { s with tree := t })) :
    Owned E (s.change c tree after).2 ∧ ∀ j, j ≠ i → Waits E j s (s.change c tree after).2 := by
  rcases change_cases s c tree after with heq | ⟨t, ht, heq⟩
  · rw [heq]
    exact kept_self howned
  · rw [heq]
    exact hok t ht

theorem kept_write (hP : E.site u = some P) (hlock : s.holder P.lock = some i)
    (hworkspace : s.tree.get P.workspace = none)
    (htombstone : ∀ T, s.tree.get P.tombstone ≠ some (.file (.tombstone T))) (content : LensFile)
    (c : LensChoice) : Owned E (s.write P.identity content c).2 ∧ ∀ j, j ≠ i →
      Waits E j s (s.write P.identity content c).2 := by
  rw [LensStore.write.eq_def]
  split
  · exact kept_self howned
  · exact kept_put_identity howned hP hlock hworkspace htombstone _
  · exact kept_self howned

theorem kept_mkdirat_workspace {I : LensWorkspaceIdentity}
    (hP : E.site u = some P) (hlock : s.holder P.lock = some i)
    (hidentity : s.tree.get P.identity = some (.file (.identity I)))
    (htombstone : ∀ T, s.tree.get P.tombstone ≠ some (.file (.tombstone T)))
    (hmade : s.tree.mkdir P.workspace = .ok t) :
    Owned E (LensStore.made P.workspace (some I) { s with tree := t }) ∧
      ∀ j, j ≠ i → Waits E j s (LensStore.made P.workspace (some I) { s with tree := t }) := by
  obtain ⟨-, -, rfl⟩ := FsTree.mkdir_eq_ok hmade
  obtain ⟨⟨ht, hi, hs⟩, -⟩ := E.contents_apart hP
  have hlocal := local_put (s := s) (e := .dir) P.workspace_mem
  have hget : ∀ {a}, ¬ P.workspace <+: a → (s.tree.put P.workspace .dir).get a = s.tree.get a :=
    fun ha => FsTree.get_put_of_ne (ne_of_outside ha)
  refine kept_of_local hP howned ⟨hlocal.get, fun a ha => if_neg fun heq => ?_⟩ ?_
    (.of_eq (hget hs)) (other_not_holder hlock) (fun _ _ _ h => h) fun _ _ => rfl
  · exact ha _ (P.places_of_contents P.workspace_mem) (heq ▸ List.prefix_refl a)
  · constructor
    · intro e he
      obtain rfl : Entry.file (LensFile.identity I) = e := by
        simpa using hidentity.symm.trans ((hget hi).symm.trans he)
      exact .inr ⟨I, rfl, if_pos rfl⟩
    · intro e he
      obtain ⟨T, hT, -⟩ := (howned hP).trashed ((hget ht).symm.trans he)
      exact absurd hT (htombstone T)
    · intro T hT
      exact absurd ((hget hs).symm.trans hT) (htombstone T)

/-- Every guarded call keeps the workspaces owned, and what the other runs rely on. -/
theorem kept_call (hguard : Guard E i s r) (c : LensChoice) : Owned E (lensHost.respond i s r c).2 ∧
      ∀ j, j ≠ i → Waits E j s (lensHost.respond i s r c).2 := by
  cases r with
  | ctxErr => exact kept_self howned
  | now => exact kept_self howned
  | openDirectory path => exact kept_self howned
  | chmod path => exact kept_self howned
  | lstat path => exact kept_self howned
  | readFile path => exact kept_self howned
  | settle path => exact kept_self howned
  | settleTemp => exact kept_self howned
  | syncDirectory path => exact kept_self howned
  | mkdirat path who =>
    refine kept_change howned fun t ht => ?_
    rcases hguard with hfree | ⟨u, P, I, hP, rfl, rfl, hlock, hidentity, htombstone⟩
    · exact kept_mkdirat_free howned hfree ht
    · exact kept_mkdirat_workspace howned hP hlock hidentity htombstone ht
  | lock path =>
    obtain ⟨u, P, hP, rfl⟩ := hguard
    exact kept_lock howned hP c
  | unlock path =>
    refine kept_of_free howned (fun _ _ _ => rfl) (fun _ _ _ => rfl) (fun _ h => h)
      (fun j hj p hp => ?_) fun _ _ => rfl
    exact (if_neg fun hown => hj (Option.some.inj (hp.symm.trans hown.2))).trans hp
  | createExclusive path =>
    obtain ⟨u, P, hP, rfl, hlock, hworkspace, htombstone⟩ := hguard
    refine kept_change howned fun t ht => ?_
    obtain ⟨-, -, rfl⟩ := FsTree.create_eq_ok ht
    exact kept_put_identity howned hP hlock hworkspace htombstone _
  | write path content =>
    obtain ⟨u, P, hP, rfl, hlock, hworkspace, htombstone⟩ := hguard
    exact kept_write howned hP hlock hworkspace htombstone content c
  | remove path =>
    obtain ⟨u, P, hP, rfl, hlock, hworkspace, -⟩ := hguard
    refine kept_change howned fun t ht => ?_
    obtain ⟨-, rfl⟩ := FsTree.unlink_eq_ok ht
    exact kept_remove_identity howned hP hlock hworkspace []
  | createTemp directory =>
    refine kept_change howned fun t ht => ?_
    split at ht
    · cases ht
      exact kept_setTemp howned _
    · cases ht
  | writeTemp content =>
    refine kept_change howned fun t ht => ?_
    cases ht
    exact kept_setTemp howned _
  | replaceWithTemp path =>
    obtain ⟨u, P, T, hP, rfl, hlock, htemp, -, hold, hnew⟩ := hguard
    refine kept_change howned fun t ht => ?_
    rw [htemp] at ht
    exact kept_replace howned hP hlock hold hnew ht
  | removeTemp => exact kept_setTemp howned none
  | rename source target who =>
    obtain ⟨u, P, T, hP, rfl, rfl, hlock, hidentity, htombstone, hstate, rfl⟩ := hguard
    exact kept_change howned fun t ht =>
      kept_rename howned hP hlock hidentity htombstone hstate ht
  | removeAll path who =>
    obtain ⟨u, P, T, hP, rfl, -⟩ := hguard
    show Owned E (s.removeAll P.trash c).2 ∧ ∀ j, j ≠ i → Waits E j s (s.removeAll P.trash c).2
    rw [LensStore.removeAll]
    split
    · exact kept_removeAll howned hP c.left
    · exact kept_removeAll howned hP []

theorem kept_release (i : Nat) :
    Owned E (lensHost.release i s) ∧ ∀ j, j ≠ i → Waits E j s (lensHost.release i s) :=
  kept_of_free howned (fun _ _ _ => rfl) (fun _ _ _ => rfl) (fun _ h => h) (fun _ hj _ hp =>
      (if_neg fun hown => hj (Option.some.inj (hp.symm.trans hown))).trans hp)
    fun _ hj => if_neg hj

theorem sealed_call (hguard : Guard E i s r) (c : LensChoice) (hP : E.site u = some P) :
    SealedAt P s (lensHost.respond i s r c).2 :=
  ((kept_call howned hguard c).2 (i + 1) (Nat.succ_ne_self i)).sealed hP

end

end Kept

end HyperFileLens.Lens
