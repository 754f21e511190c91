import HyperFileLens.Lens.WorkspaceLabels
import HyperFileLens.Lens.WorkspaceOwned

/-!
# The files of one workspace as a journal

What the files of a workspace look like between any two calls of the tasks of one identity
(`Journal`): a workspace or trash has its identity beside it, there is no workspace beside
trash, and a tombstone is written only beside an identity that is whole or gone.

Every guarded call keeps it (`journal_call`), so it is what a task finds that starts after
the others have stopped, wherever they were.
-/

namespace HyperFileLens.Lens

open Service FileTree

/-- What is at the places of a workspace. -/
@[ext] structure Contents where
  workspace : Option (Entry LensFile)
  trash : Option (Entry LensFile)
  identity : Option (Entry LensFile)
  tombstone : Option (Entry LensFile)

def LensStore.contents (s : LensStore) (P : LensWorkspacePaths) : Contents where
  workspace := s.tree.get P.workspace
  trash := s.tree.get P.trash
  identity := s.tree.get P.identity
  tombstone := s.tree.get P.tombstone

/-- The directories around the places of a workspace, and its lock file. -/
structure Grounds (P : LensWorkspacePaths) (s : LensStore) : Prop where
  base : s.tree.get P.root.dropLast = some .dir
  above : ∀ a ∈ P.places, ∀ d, d <+: a → d ≠ a →
    s.tree.get d = none ∨ s.tree.get d = some .dir
  lock : s.tree.get P.lock = none ∨ ∃ content, s.tree.get P.lock = some (.file content)

structure Recorded (P : LensWorkspacePaths) (I : LensWorkspaceIdentity) (v : Contents) : Prop where
  workspace : v.workspace = none ∨ v.workspace = some .dir
  trash : v.trash = none ∨ v.trash = some .dir
  identity : v.identity = none ∨ v.identity = some (.file .torn) ∨
    v.identity = some (.file (.identity I))
  tombstone : v.tombstone = none ∨ ∃ T, v.tombstone = some (.file (.tombstone T)) ∧ Says P I T
  kept : v.workspace ≠ none ∨ v.trash ≠ none → v.identity = some (.file (.identity I))
  moved : v.trash ≠ none → v.workspace = none
  whole : v.tombstone ≠ none → v.identity ≠ some (.file .torn)

/-- The files of a workspace between two calls. -/
structure Journal (P : LensWorkspacePaths) (I : LensWorkspaceIdentity) (s : LensStore) : Prop where
  grounds : Grounds P s
  recorded : Recorded P I (s.contents P)
  temporary : ∀ j content, s.temporary j = some content →
    content = .torn ∨ ∃ T, content = .tombstone T ∧ Says P I T

/-! ## What a change leaves -/

/-- Nothing changes but what is at some paths and below them. -/
def Outside (xs : List Path) (s s' : LensStore) : Prop :=
  ∀ a, (∀ x ∈ xs, ¬ x <+: a) → s'.tree.get a = s.tree.get a

section Changes

variable {P : LensWorkspacePaths} {I : LensWorkspaceIdentity} {s s' : LensStore} {x : Path}
  (hwell : P.WellPlaced) (hregular : P.Regular)

theorem outside_put {e : Entry LensFile} :
    Outside [x] s { s with tree := s.tree.put x e } := fun _ ha =>
  FsTree.get_put_of_ne (ne_of_outside (ha x List.mem_cons_self))

theorem outside_prune {left : List Path} :
    Outside [x] s { s with tree := s.tree.prune x left } := fun _ ha =>
  FsTree.get_prune_of_not_prefix (ha x List.mem_cons_self)

include hwell

theorem not_below {a d : Path} (hx : x ∈ P.places) (ha : a ∈ P.places) (hd : d <+: a)
    (hne : d ≠ a) : ¬ x <+: d := by
  intro hxd
  by_cases hxa : x = a
  · subst hxa
    exact hne (hd.eq_of_length_le hxd.length_le)
  · exact (hwell.apart_of_ne hx ha hxa).1 (hxd.trans hd)

include hregular in
theorem base_above : P.root.dropLast <+: P.workspace ∧ P.root.dropLast ≠ P.workspace := by
  have hroot : P.root <+: P.workspace := hwell.workspace.2 ▸ List.prefix_append _ _
  refine ⟨(List.dropLast_prefix _).trans hroot, fun heq => hregular.workspace ?_⟩
  have hlength := congrArg List.length heq
  have hle := hroot.length_le
  rw [List.length_dropLast] at hlength
  exact (hroot.eq_of_length (by omega)).symm

/-- The lock of a workspace is none of its contents, and not below them. -/
theorem lock_outside (hx : x ∈ P.contents) : ¬ x <+: P.lock := by
  have hne : x ≠ P.lock := by
    rintro rfl
    have hapart := List.pairwise_append.mp hwell.apart
    exact (hapart.2.2 _ hx _ List.mem_cons_self).1 (List.prefix_refl _)
  exact (hwell.apart_of_ne (P.places_of_contents hx) P.lock_mem hne).1

include hregular in
theorem Grounds.outside {xs : List Path} (hxs : ∀ x ∈ xs, x ∈ P.contents)
    (hout : Outside xs s s') (h : Grounds P s) : Grounds P s' := by
  have habove : ∀ a ∈ P.places, ∀ d, d <+: a → d ≠ a → s'.tree.get d = s.tree.get d :=
    fun a ha d hd hne => hout d fun x hx =>
      not_below hwell (P.places_of_contents (hxs x hx)) ha hd hne
  constructor
  · obtain ⟨hbase, hne⟩ := base_above hwell hregular
    exact (habove _ (P.places_of_contents P.workspace_mem) _ hbase hne).trans h.base
  · intro a ha d hd hne
    rw [habove a ha d hd hne]
    exact h.above a ha d hd hne
  · rw [hout P.lock fun x hx => lock_outside hwell (hxs x hx)]
    exact h.lock

theorem contents_identity (hout : Outside [P.identity] s s') :
    s'.contents P = { s.contents P with identity := s'.tree.get P.identity } := by
  obtain ⟨-, -, ⟨hw, ht, hts⟩, -⟩ := hwell.contents_apart
  have hsame : ∀ {a}, ¬ P.identity <+: a → s'.tree.get a = s.tree.get a :=
    fun ha => hout _ fun x hx => List.mem_singleton.mp hx ▸ ha
  ext1
  · exact hsame hw
  · exact hsame ht
  · rfl
  · exact hsame hts

theorem contents_tombstone (hout : Outside [P.tombstone] s s') :
    s'.contents P = { s.contents P with tombstone := s'.tree.get P.tombstone } := by
  obtain ⟨-, -, -, hw, ht, hi⟩ := hwell.contents_apart
  have hsame : ∀ {a}, ¬ P.tombstone <+: a → s'.tree.get a = s.tree.get a :=
    fun ha => hout _ fun x hx => List.mem_singleton.mp hx ▸ ha
  ext1
  · exact hsame hw
  · exact hsame ht
  · exact hsame hi
  · rfl

theorem contents_trash (hout : Outside [P.trash] s s') :
    s'.contents P = { s.contents P with trash := s'.tree.get P.trash } := by
  obtain ⟨-, ⟨hw, hi, hts⟩, -⟩ := hwell.contents_apart
  have hsame : ∀ {a}, ¬ P.trash <+: a → s'.tree.get a = s.tree.get a :=
    fun ha => hout _ fun x hx => List.mem_singleton.mp hx ▸ ha
  ext1
  · exact hsame hw
  · rfl
  · exact hsame hi
  · exact hsame hts

theorem contents_workspace (hout : Outside [P.workspace] s s') :
    s'.contents P = { s.contents P with workspace := s'.tree.get P.workspace } := by
  obtain ⟨⟨ht, hi, hts⟩, -⟩ := hwell.contents_apart
  have hsame : ∀ {a}, ¬ P.workspace <+: a → s'.tree.get a = s.tree.get a :=
    fun ha => hout _ fun x hx => List.mem_singleton.mp hx ▸ ha
  ext1
  · rfl
  · exact hsame ht
  · exact hsame hi
  · exact hsame hts

theorem contents_move (hmovable : s.tree.Movable P.workspace P.trash) :
    LensStore.contents { s with tree := s.tree.move P.workspace P.trash } P =
      { s.contents P with workspace := none, trash := s.tree.get P.workspace } := by
  obtain ⟨⟨-, hwi, hws⟩, ⟨-, hti, hts⟩, -⟩ := hwell.contents_apart
  ext1
  · have hfrom := FsTree.get_move_from hmovable []
    rwa [List.append_nil] at hfrom
  · have hto := FsTree.get_move_to hmovable []
    rwa [List.append_nil, List.append_nil] at hto
  · exact FsTree.get_move_of_apart hwi hti
  · exact FsTree.get_move_of_apart hws hts

end Changes

/-! ## What the calls keep -/

section Kept

variable {E : Estate} {i : Nat} {u : String} {P : LensWorkspacePaths} {I : LensWorkspaceIdentity}
  {s : LensStore}

variable {t : FsTree LensFile} {holder : Path → Option Nat}

theorem Journal.of_contents {s' : LensStore} (h : Journal P I s) (hgrounds : Grounds P s')
    (hcontents : s'.contents P = s.contents P) (htemp : s'.temporary = s.temporary) :
    Journal P I s' where
  grounds := hgrounds
  recorded := hcontents ▸ h.recorded
  temporary := htemp ▸ h.temporary

theorem Journal.setTemp (h : Journal P I s) {content : Option LensFile}
    (hcontent : ∀ f, content = some f → f = .torn ∨ ∃ T, f = .tombstone T ∧ Says P I T) :
    Journal P I (s.setTemp i content) where
  grounds := ⟨h.grounds.base, h.grounds.above, h.grounds.lock⟩
  recorded := h.recorded
  temporary j f hf := by
    rw [show (s.setTemp i content).temporary j = if j = i then content else s.temporary j from rfl]
      at hf
    split at hf
    · exact hcontent f hf
    · exact h.temporary j f hf

theorem Journal.change {c : LensChoice} {tree : Except ChangeError (FsTree LensFile)}
    {after : LensStore → LensStore} (h : Journal P I s)
    (hok : ∀ t, tree = .ok t → Journal P I (after { s with tree := t })) :
    Journal P I (s.change c tree after).2 := by
  rcases change_cases s c tree after with heq | ⟨t, ht, heq⟩
  · exact heq.symm ▸ h
  · exact heq.symm ▸ hok t ht

variable (hwell : P.WellPlaced) (hregular : P.Regular)

theorem Journal.mkdirFree {p : Path} {who : Option LensWorkspaceIdentity} (h : Journal P I s)
    (hfree : ∀ a ∈ P.places, ¬ a <+: p) (hmade : s.tree.mkdir p = .ok t) :
    Journal P I (LensStore.made p who { s with tree := t }) := by
  obtain ⟨hnone, hput, rfl⟩ := FsTree.mkdir_eq_ok hmade
  have hplace : ∀ a ∈ P.places, a ≠ p := by
    rintro a ha rfl
    exact hfree a ha (List.prefix_refl a)
  refine h.of_contents ⟨?_, fun a ha d hd hne => ?_, ?_⟩ ?_ rfl
  · refine (FsTree.get_put_of_ne ?_).trans h.grounds.base
    rintro rfl
    exact nomatch hnone.symm.trans h.grounds.base
  · by_cases hdp : d = p
    · subst hdp
      exact .inr (FsTree.get_put_self hput)
    · rw [show (LensStore.made p who { s with tree := s.tree.put p .dir }).tree.get d =
        s.tree.get d from FsTree.get_put_of_ne hdp]
      exact h.grounds.above a ha d hd hne
  · rw [show (LensStore.made p who { s with tree := s.tree.put p .dir }).tree.get P.lock =
      s.tree.get P.lock from FsTree.get_put_of_ne (hplace _ P.lock_mem)]
    exact h.grounds.lock
  · have hsame : ∀ a ∈ P.contents, (s.tree.put p .dir).get a = s.tree.get a :=
      fun a ha => FsTree.get_put_of_ne (hplace a (P.places_of_contents ha))
    ext1
    · exact hsame _ P.workspace_mem
    · exact hsame _ P.trash_mem
    · exact hsame _ P.identity_mem
    · exact hsame _ P.tombstone_mem

include hwell

theorem grounds_opened (h : Grounds P s) (hopened : opened s.tree P.lock = .ok t) :
    Grounds P { s with tree := t, holder := holder } := by
  obtain ⟨hget, hdirs⟩ := opened_eq_ok hopened
  refine ⟨hdirs _ h.base, fun a ha d hd hda => ?_, ?_⟩
  · have hdl : d ≠ P.lock := by
      rintro rfl
      exact not_below hwell P.lock_mem ha hd hda (List.prefix_refl _)
    exact hget d hdl ▸ h.above a ha d hd hda
  · rw [Lens.opened] at hopened
    rcases h.lock with hnone | ⟨content, hfile⟩
    · rw [hnone] at hopened
      obtain ⟨-, hput, rfl⟩ := FsTree.create_eq_ok hopened
      exact .inr ⟨_, FsTree.get_put_self hput⟩
    · rw [hfile] at hopened
      cases hopened
      exact .inr ⟨content, hfile⟩

theorem contents_opened (hopened : opened s.tree P.lock = .ok t) :
    LensStore.contents { s with tree := t, holder := holder } P = s.contents P := by
  obtain ⟨hget, -⟩ := opened_eq_ok hopened
  have hne : ∀ a ∈ P.contents, a ≠ P.lock := by
    rintro a ha rfl
    exact lock_outside hwell ha (List.prefix_refl _)
  ext1
  · exact hget _ (hne _ P.workspace_mem)
  · exact hget _ (hne _ P.trash_mem)
  · exact hget _ (hne _ P.identity_mem)
  · exact hget _ (hne _ P.tombstone_mem)

theorem Journal.opened (h : Journal P I s) (hopened : opened s.tree P.lock = .ok t) :
    Journal P I { s with tree := t, holder := holder } :=
  h.of_contents (grounds_opened hwell h.grounds hopened) (contents_opened hwell hopened) rfl

include hregular

section

variable (h : Journal P I s)

include h

theorem Journal.putIdentity {content : LensFile}
    (hworkspace : s.tree.get P.workspace = none) (htrash : s.tree.get P.trash = none)
    (htombstone : s.tree.get P.tombstone = none)
    (hput : s.tree.Puttable P.identity (.file content))
    (hcontent : content = .torn ∨ content = .identity I) :
    Journal P I { s with tree := s.tree.put P.identity (.file content) } where
  grounds := h.grounds.outside hwell hregular (by simp [P.identity_mem]) outside_put
  recorded := by
    rw [contents_identity hwell outside_put]
    constructor
    · exact .inl hworkspace
    · exact .inl htrash
    · refine .inr (hcontent.imp ?_ ?_)
      · rintro rfl
        exact FsTree.get_put_self hput
      · rintro rfl
        exact FsTree.get_put_self hput
    · exact .inl htombstone
    · rintro (hne | hne)
      · exact absurd hworkspace hne
      · exact absurd htrash hne
    · exact fun hne => absurd htrash hne
    · exact fun hne => absurd htombstone hne
  temporary := h.temporary

theorem Journal.removeIdentity {left : List Path}
    (hworkspace : s.tree.get P.workspace = none) (htrash : s.tree.get P.trash = none)
    (hgone : (s.tree.prune P.identity left).get P.identity = none) :
    Journal P I { s with tree := s.tree.prune P.identity left } where
  grounds := h.grounds.outside hwell hregular (by simp [P.identity_mem]) outside_prune
  recorded := by
    rw [contents_identity hwell outside_prune]
    constructor
    · exact .inl hworkspace
    · exact .inl htrash
    · exact .inl hgone
    · exact h.recorded.tombstone
    · rintro (hne | hne)
      · exact absurd hworkspace hne
      · exact absurd htrash hne
    · exact fun hne => absurd htrash hne
    · exact fun _ htorn => nomatch hgone.symm.trans htorn
  temporary := h.temporary

theorem Journal.replace {T : LensWorkspaceTombstone} (htemp : s.temporary i = some (.tombstone T))
    (hwhole : s.tree.get P.identity ≠ some (.file .torn))
    (hreplaced : s.tree.replace P.tombstone (.tombstone T) = .ok t) :
    Journal P I (LensStore.setTemp { s with tree := t } i none) := by
  obtain ⟨-, hput, rfl⟩ := FsTree.replace_eq_ok hreplaced
  have hput' : Journal P I { s with tree := s.tree.put P.tombstone (.file (.tombstone T)) } := by
    refine ⟨?_, ?_, h.temporary⟩
    · exact h.grounds.outside hwell hregular (by simp [P.tombstone_mem]) outside_put
    · rw [contents_tombstone hwell outside_put]
      refine ⟨h.recorded.workspace, h.recorded.trash, h.recorded.identity, ?_, h.recorded.kept,
        h.recorded.moved, fun _ => hwhole⟩
      rcases h.temporary i _ htemp with htorn | ⟨T', hT', hlabel⟩
      · cases htorn
      · obtain rfl := LensFile.tombstone.inj hT'
        exact .inr ⟨T, FsTree.get_put_self hput, hlabel⟩
  exact hput'.setTemp fun f hf => nomatch hf

theorem Journal.mkdirWorkspace {who : Option LensWorkspaceIdentity}
    (hidentity : s.tree.get P.identity = some (.file (.identity I)))
    (htrash : s.tree.get P.trash = none) (hmade : s.tree.mkdir P.workspace = .ok t) :
    Journal P I (LensStore.made P.workspace who { s with tree := t }) := by
  obtain ⟨-, hput, rfl⟩ := FsTree.mkdir_eq_ok hmade
  have hout : Outside [P.workspace] s
      (LensStore.made P.workspace who { s with tree := s.tree.put P.workspace .dir }) :=
    outside_put
  refine ⟨h.grounds.outside hwell hregular (by simp [P.workspace_mem]) hout, ?_, h.temporary⟩
  rw [contents_workspace hwell hout]
  exact ⟨.inr (FsTree.get_put_self hput), h.recorded.trash, h.recorded.identity,
    h.recorded.tombstone, fun _ => hidentity, fun hne => absurd htrash hne, h.recorded.whole⟩

theorem Journal.rename (hrenamed : s.tree.rename P.workspace P.trash = .ok t) :
    Journal P I (LensStore.moved P.workspace P.trash { s with tree := t }) := by
  obtain ⟨hexists, hmovable, rfl⟩ := FsTree.rename_eq_ok hrenamed
  have hworkspace : (s.contents P).workspace ≠ none :=
    Option.isSome_iff_ne_none.mp hexists
  have hout : Outside [P.workspace, P.trash] s
      (LensStore.moved P.workspace P.trash { s with tree := s.tree.move P.workspace P.trash }) :=
    fun a ha => FsTree.get_move_of_apart (ha _ (by simp)) (ha _ (by simp))
  refine ⟨h.grounds.outside hwell hregular (by simp [P.workspace_mem, P.trash_mem]) hout, ?_,
    h.temporary⟩
  rw [show (LensStore.moved P.workspace P.trash
    { s with tree := s.tree.move P.workspace P.trash }).contents P = _ from
      contents_move hwell hmovable]
  exact ⟨.inl rfl, h.recorded.workspace, h.recorded.identity, h.recorded.tombstone,
    fun _ => h.recorded.kept (.inl hworkspace), fun _ => rfl, h.recorded.whole⟩

theorem Journal.removeAll (left : List Path) :
    Journal P I { s with tree := s.tree.prune P.trash left } where
  grounds := h.grounds.outside hwell hregular (by simp [P.trash_mem]) outside_prune
  recorded := by
    rw [contents_trash hwell outside_prune]
    have hleft : (s.tree.prune P.trash left).get P.trash ≠ none → s.tree.get P.trash ≠ none := by
      intro hne hnone
      obtain ⟨e, he⟩ := Option.ne_none_iff_exists'.mp hne
      exact nomatch hnone.symm.trans (FsTree.prune_le _ _ _ _ _ he)
    refine ⟨h.recorded.workspace, ?_, h.recorded.identity, h.recorded.tombstone, fun hne => ?_,
      fun hne => h.recorded.moved (hleft hne), h.recorded.whole⟩
    · cases hget : (s.tree.prune P.trash left).get P.trash with
      | none => exact .inl rfl
      | some e =>
        rcases h.recorded.trash with hnone | hdir
        · exact absurd hnone (hleft (by simp [hget]))
        · have he := FsTree.prune_le _ _ _ _ _ hget
          exact .inr (congrArg some (Option.some.inj (he.symm.trans hdir)))
    · exact h.recorded.kept (hne.imp_right hleft)
  temporary := h.temporary

end

theorem journal_call {r : LensCall} (hP : E.site u = some P)
    (hE : ∀ {v P'}, E.site v = some P' → P' = P) (howned : Owned E s) (hguard : Guard E i s r)
    (hlabel : Labelled P I r) (h : Journal P I s) (c : LensChoice) :
    Journal P I (lensHost.respond i s r c).2 := by
  have htombstone : (∀ T, s.tree.get P.tombstone ≠ some (.file (.tombstone T))) →
      s.tree.get P.tombstone = none := fun hno => by
    rcases h.recorded.tombstone with hnone | ⟨T, hT, -⟩
    · exact hnone
    · exact absurd hT (hno T)
  cases r with
  | ctxErr => exact h
  | now => exact h
  | openDirectory path => exact h
  | chmod path => exact h
  | lstat path => exact h
  | readFile path => exact h
  | settle path => exact h
  | settleTemp => exact h
  | syncDirectory path => exact h
  | mkdirat path who =>
    refine h.change fun t ht => ?_
    rcases hguard with hfree | ⟨v, P', J, hP', rfl, rfl, -, hidentity, hno⟩
    · exact h.mkdirFree (hfree hP) ht
    · obtain rfl := hE hP'
      obtain rfl : J = I := by simpa [Labelled] using hlabel
      exact h.mkdirWorkspace hwell hregular hidentity (trash_none (howned hP) hno) ht
  | lock path =>
    obtain ⟨v, P', hP', rfl⟩ := hguard
    obtain rfl := hE hP'
    show Journal P' I (s.lock i P'.lock c).2
    rw [LensStore.lock]
    split
    · exact h
    · exact h
    · rename_i tree _ hopened
      split
      · exact h.opened hwell hopened
      · exact h.opened hwell hopened
  | unlock path => exact ⟨⟨h.grounds.base, h.grounds.above, h.grounds.lock⟩, h.recorded, h.temporary⟩
  | createExclusive path =>
    obtain ⟨v, P', hP', rfl, -, hworkspace, hno⟩ := hguard
    obtain rfl := hE hP'
    refine h.change fun t ht => ?_
    obtain ⟨-, hput, rfl⟩ := FsTree.create_eq_ok ht
    exact h.putIdentity hwell hregular hworkspace (trash_none (howned hP) hno) (htombstone hno)
      hput (.inl rfl)
  | write path content =>
    obtain ⟨v, P', hP', rfl, -, hworkspace, hno⟩ := hguard
    obtain rfl := hE hP'
    obtain rfl : content = .identity I := hlabel
    show Journal P' I (s.write P'.identity (.identity I) c).2
    rw [LensStore.write.eq_def]
    split
    · exact h
    · rename_i hfile
      exact h.putIdentity hwell hregular hworkspace (trash_none (howned hP) hno) (htombstone hno)
        (puttable_of_file hfile) (.inr rfl)
    · exact h
  | remove path =>
    obtain ⟨v, P', hP', rfl, -, hworkspace, htrash⟩ := hguard
    obtain rfl := hE hP'
    refine h.change fun t ht => ?_
    obtain ⟨-, rfl⟩ := FsTree.unlink_eq_ok ht
    obtain ⟨n, hn⟩ := hregular.identity
    exact h.removeIdentity hwell hregular hworkspace htrash
      (FsTree.get_prune_self (hn ▸ List.append_ne_nil_of_right_ne_nil _ (by simp)))
  | createTemp directory =>
    refine h.change fun t ht => ?_
    split at ht
    · cases ht
      exact h.setTemp fun f hf => .inl (Option.some.inj hf).symm
    · cases ht
  | writeTemp content =>
    obtain ⟨T, rfl, hT⟩ := hlabel
    refine h.change fun t ht => ?_
    cases ht
    exact h.setTemp fun f hf => .inr ⟨T, (Option.some.inj hf).symm, hT⟩
  | replaceWithTemp path =>
    obtain ⟨v, P', T, hP', rfl, -, htemp, hwhole, -⟩ := hguard
    obtain rfl := hE hP'
    refine h.change fun t ht => ?_
    rw [htemp] at ht
    exact h.replace hwell hregular htemp hwhole ht
  | removeTemp => exact h.setTemp fun f hf => by cases hf
  | rename source target who =>
    obtain ⟨v, P', T, hP', rfl, rfl, -⟩ := hguard
    obtain rfl := hE hP'
    exact h.change fun t ht => h.rename hwell hregular ht
  | removeAll path who =>
    obtain ⟨v, P', T, hP', rfl, -⟩ := hguard
    obtain rfl := hE hP'
    show Journal P' I (s.removeAll P'.trash c).2
    rw [LensStore.removeAll]
    split
    · exact h.removeAll hwell hregular c.left
    · exact h.removeAll hwell hregular []

end Kept

end HyperFileLens.Lens
