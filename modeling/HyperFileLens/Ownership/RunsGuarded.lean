import HyperFileLens.Ownership.MarkersApart

/-!
# Runs make guarded calls

What a run of `repository_ownership.go` knows when it makes its calls.

*Facts.*  A fact that a run has learned stays (`Lasting`): a place that has no marker has got
none since the run began (`Unseen`), a place above the repository has a sane metadata
directory (`Sane`), and a marker keeps its content (`Marks`).

*Programs.*  Every function makes only guarded calls, and returns with the facts that its
checks establish. A run that reports an owner has seen its marker (`works_run`).
-/

namespace HyperFileLens.Ownership

open Service FileTree FilePath Storage Cleanup

variable {root : Path} {i : Nat} {s s' : OwnershipStore}

/-! ## Facts -/

/-- How the state moves while a run waits and when it makes a call itself. -/
structure Later (root : Path) (i : Nat) (s s' : OwnershipStore) : Prop where
  added : ∀ p e, s'.tree.get p = some e → s.tree.get p = some e ∨
    (e = .dir ∧ ∀ c, Below root c → p ≠ markerPathOf c) ∨
    ∃ c content, p = markerPathOf c ∧ e = .file content
  marker : ∀ c content, s.tree.get (markerPathOf c) = some (.file content) →
    content.marker.isSome = true → s'.tree.get (markerPathOf c) = some (.file content)
  found : ∀ t, s.found i = some t → s'.found i = some t

variable {r : OwnershipCall} {c : Path}

variable {M : RepositoryOwnershipMarker}

theorem Later.of_grows (h : Grows root i s s') : Later root i s s' where
  added := h.added
  marker := fun c content hc hsome => by
    obtain ⟨content', hc', hsame⟩ := h.file c content hc
    obtain rfl := hsame (.inl hsome)
    exact hc'
  found := fun t ht => h.found.trans ht

theorem later_effect (hguard : Guard root i s r) : Later root i s (s.effect i r) := by
  have hreads (hsame : (perform s.tree r).2 = s.tree) : Later root i s (s.effect i r) := {
    added := fun p e he => .inl (by
      change (perform s.tree r).2.get p = some e at he
      rwa [hsame] at he)
    marker := fun c content hc _ => by
      change (perform s.tree r).2.get _ = _
      rwa [hsame]
    found := fun _ ht => ht }
  cases r with
  | fs call =>
    cases call with
    | ctxErr => exact hreads rfl
    | lstat path => exact hreads rfl
    | readDir path => exact hreads rfl
    | readFile path => exact hreads rfl
    | removeAll path => exact hguard.elim
    | remove path =>
      obtain ⟨p, rfl⟩ := hguard
      cases hunlink : s.tree.unlink (p ++ [probeName]) with
      | ok t =>
        have heffect : (perform s.tree (.fs (.remove (p ++ [probeName])))).2 = t := by
          rw [perform, hunlink]
        have hleaf := FsTree.leaf_of_unlink hunlink
        obtain ⟨-, rfl⟩ := FsTree.unlink_eq_ok hunlink
        refine ⟨fun q e he => .inl ?_, fun c content hc _ => ?_, fun _ ht => ht⟩
        · change (perform s.tree (.fs (.remove (p ++ [probeName])))).2.get q = some e at he
          rw [heffect] at he
          exact FsTree.prune_le _ _ _ _ _ he
        · change (perform s.tree (.fs (.remove (p ++ [probeName])))).2.get _ = _
          rw [heffect, FsTree.get_prune_leaf hleaf]
          · exact hc
          · exact (concat_ne_markerPathOf probeName_ne).symm
      | error error =>
        refine hreads ?_
        rw [perform, hunlink]
        cases error with
        | lookup error => rfl
        | exist => rfl
        | notEmpty => rfl
        | isDir => rfl
  | list path => exact hreads rfl
  | readProbe path => exact hreads rfl
  | mkdir path =>
    cases hmkdir : s.tree.mkdir path with
    | error error =>
      refine hreads ?_
      show (changed s.tree (s.tree.mkdir path)).2 = s.tree
      rw [hmkdir]
      rfl
    | ok t =>
      have heffect : (perform s.tree (.mkdir path)).2 = t := by
        show (changed s.tree (s.tree.mkdir path)).2 = t
        rw [hmkdir]
        rfl
      obtain ⟨hnone, hput, rfl⟩ := FsTree.mkdir_eq_ok hmkdir
      refine ⟨fun q e he => ?_, fun c content hc _ => ?_, fun _ ht => ht⟩
      · change (perform s.tree (.mkdir path)).2.get q = some e at he
        rw [heffect, FsTree.get_put hput] at he
        split at he
        · rename_i heq
          exact .inr (.inl ⟨(Option.some.inj he).symm, heq ▸ hguard⟩)
        · exact .inl he
      · change (perform s.tree (.mkdir path)).2.get _ = _
        rw [heffect, FsTree.get_put_of_ne fun heq => ?_]
        · exact hc
        · rw [heq, hnone] at hc
          cases hc
  | create path =>
    obtain ⟨c, rfl, -⟩ := hguard
    rcases perform_create s.tree (markerPathOf c) with
      ⟨hnone, hdir, -, hperform⟩ | ⟨-, hperform, -⟩
    · have hput : s.tree.Puttable (markerPathOf c) (.file .empty) :=
        FsTree.puttable_of_none hnone hdir
      have heffect : (s.effect i (.create (markerPathOf c))).tree =
          s.tree.put (markerPathOf c) (.file .empty) := congrArg Prod.snd hperform
      refine ⟨fun q e he => ?_, fun d content hd _ => ?_, fun _ ht => ht⟩
      · rw [heffect, FsTree.get_put hput] at he
        split at he
        · rename_i heq
          exact .inr (.inr ⟨c, _, heq, (Option.some.inj he).symm⟩)
        · exact .inl he
      · rw [heffect, FsTree.get_put_of_ne fun heq => ?_]
        · exact hd
        · rw [heq, hnone] at hd
          cases hd
    · exact hreads hperform
  | write path marker =>
    obtain ⟨c, content, rfl, hfile, hnone, -⟩ := hguard
    have hperform : perform s.tree (.write (markerPathOf c) marker) =
        changed s.tree (s.tree.replace (markerPathOf c) { marker := some marker }) := by
      rw [perform, hfile]
    cases hreplace : s.tree.replace (markerPathOf c) { marker := some marker } with
    | error error =>
      refine hreads ?_
      rw [hperform, hreplace]
      rfl
    | ok t =>
      rw [hreplace] at hperform
      have heffect : (s.effect i (.write (markerPathOf c) marker)).tree = t :=
        congrArg Prod.snd hperform
      obtain ⟨-, hput, rfl⟩ := FsTree.replace_eq_ok hreplace
      refine ⟨fun q e he => ?_, fun d content' hd hsome => ?_, fun _ ht => ht⟩
      · rw [heffect, FsTree.get_put hput] at he
        split at he
        · rename_i heq
          exact .inr (.inr ⟨c, _, heq, (Option.some.inj he).symm⟩)
        · exact .inl he
      · rw [heffect, FsTree.get_put_of_ne fun heq => ?_]
        · exact hd
        · rw [heq, hfile] at hd
          obtain rfl := Entry.file.inj (Option.some.inj hd)
          rw [hnone] at hsome
          cases hsome
  | sync path => exact hreads rfl
  | close path => exact hreads rfl

theorem found_respond (r : OwnershipCall) (c : OwnershipChoice) :
    (ownershipRespond i s r c).2.found = (s.arrive i).found := by
  rw [ownershipRespond]
  cases c.error with
  | none => rfl
  | some message =>
    show (OwnershipStore.refuse i _).found = _
    split
    · rfl
    · rfl

theorem tree_arrive : (s.arrive i).tree = s.tree := by
  rw [OwnershipStore.arrive]
  split
  · rfl
  · rfl

theorem tree_respond (r : OwnershipCall) (c : OwnershipChoice) : (ownershipRespond i s r c).2.tree =
      s.tree ∨ (ownershipRespond i s r c).2.tree = (s.effect i r).tree := by
  rw [ownershipRespond]
  cases c.error with
  | none => exact .inr (by rw [effect_arrive])
  | some message =>
    show (OwnershipStore.refuse i _).tree = _ ∨ (OwnershipStore.refuse i _).tree = _
    split
    · exact .inr (by rw [effect_arrive]; rfl)
    · exact .inl tree_arrive

theorem found_arrive {t : MarkerTree} (h : s.found i = some t) : (s.arrive i).found i = some t := by
  rw [OwnershipStore.arrive, if_pos (by rw [h]; rfl), h]

theorem later_respond (hguard : Guard root i s r) (c : OwnershipChoice) :
    Later root i s (ownershipRespond i s r c).2 := by
  have heffect := later_effect hguard
  have hfound : ∀ t, s.found i = some t → (ownershipRespond i s r c).2.found i = some t := by
    intro t ht
    rw [found_respond]
    exact found_arrive ht
  rcases tree_respond (i := i) (s := s) r c with htree | htree
  · exact ⟨fun p e he => .inl (htree ▸ he), fun d content hd _ => htree ▸ hd, hfound⟩
  · exact ⟨fun p e he => heffect.added p e (htree ▸ he),
      fun d content hd hsome => htree ▸ heffect.marker d content hd hsome, hfound⟩

def Lasting (root : Path) (i : Nat) (A : OwnershipStore → Prop) : Prop :=
  ∀ s s', A s → Later root i s s' → A s'

theorem Lasting.and {A B : OwnershipStore → Prop} (hA : Lasting root i A)
    (hB : Lasting root i B) : Lasting root i fun s => A s ∧ B s :=
  fun s s' h hlater => ⟨hA s s' h.1 hlater, hB s s' h.2 hlater⟩

theorem lasting_true : Lasting root i fun _ => True := fun _ _ h _ => h

theorem lasting_forall {ι : Type} {A : ι → OwnershipStore → Prop}
    (h : ∀ x, Lasting root i (A x)) : Lasting root i fun s => ∀ x, A x s :=
  fun s s' hs hlater x => h x s s' (hs x) hlater

theorem lasting_imp {P : Prop} {A : OwnershipStore → Prop} (h : P → Lasting root i A) :
    Lasting root i fun s => P → A s :=
  fun s s' hs hlater hP => h hP s s' (hs hP) hlater

/-- There was no marker at a place when the run began. -/
def Unseen (i : Nat) (c : Path) (s : OwnershipStore) : Prop :=
  ∃ t, s.found i = some t ∧ ¬ Occupied t c

theorem lasting_unseen (c : Path) : Lasting root i (Unseen i c) := by
  rintro s s' ⟨t, ht, hc⟩ hlater
  exact ⟨t, hlater.found t ht, hc⟩

/-- The metadata of a place is a directory, if it is there. -/
def MetaSane (c : Path) (s : OwnershipStore) : Prop :=
  ∀ e, s.tree.get (c ++ [metadataName]) = some e → e = .dir

theorem lasting_metaSane (c : Path) : Lasting root i (MetaSane c) := by
  intro s s' h hlater e he
  rcases hlater.added _ e he with hold | ⟨rfl, -⟩ | ⟨d, content, heq, -⟩
  · exact h e hold
  · rfl
  · exact absurd heq (concat_ne_markerPathOf markerName_ne)

/-- The metadata of a place is a directory, and its marker is none, if they are there. -/
def Sane (c : Path) (s : OwnershipStore) : Prop :=
  MetaSane c s ∧ s.tree.get (markerPathOf c) ≠ some .dir

theorem lasting_sane (hc : Below root c) : Lasting root i (Sane c) := by
  rintro s s' ⟨hmeta, hmarker⟩ hlater
  refine ⟨lasting_metaSane c s s' hmeta hlater, fun hdir => ?_⟩
  rcases hlater.added _ _ hdir with hold | ⟨-, hnot⟩ | ⟨d, content, -, heq⟩
  · exact hmarker hold
  · exact hnot c hc rfl
  · cases heq

def Marks (c : Path) (M : RepositoryOwnershipMarker) (s : OwnershipStore) : Prop :=
  ∃ content, s.tree.get (markerPathOf c) = some (.file content) ∧ content.marker = some M

theorem lasting_marks (c : Path) (M : RepositoryOwnershipMarker) : Lasting root i (Marks c M) := by
  rintro s s' ⟨content, hc, hM⟩ hlater
  exact ⟨content, hlater.marker c content hc (by rw [hM]; rfl), hM⟩

theorem Marks.occupied (h : Marks c M s) : Occupied s.tree c := by
  obtain ⟨content, hc, -⟩ := h
  exact ⟨_, hc, by simp⟩

theorem Marks.unique {M' : RepositoryOwnershipMarker} (h : Marks c M s) (h' : Marks c M' s) :
    M = M' := by
  obtain ⟨content, hc, hM⟩ := h
  obtain ⟨content', hc', hM'⟩ := h'
  obtain rfl := Entry.file.inj (Option.some.inj (hc.symm.trans hc'))
  exact Option.some.inj (hM.symm.trans hM')

def NoLink (p : Path) (s : OwnershipStore) : Prop :=
  ∀ target, s.tree.get p ≠ some (.symlink target)

theorem lasting_noLink (p : Path) : Lasting root i (NoLink p) := by
  intro s s' h hlater target hlink
  rcases hlater.added _ _ hlink with hold | ⟨heq, -⟩ | ⟨c, content, -, heq⟩
  · exact h target hold
  · cases heq
  · cases heq

/-! ## Calls -/

/-- A program makes only guarded calls, and what it returns has a property. -/
abbrev Works (root : Path) (i : Nat) {α : Type} (p : OwnershipProg α)
    (Q : α → OwnershipStore → Prop) (s : OwnershipStore) : Prop :=
  (markerRely root).Safe ownershipHost i (fun (_ : String) _ => True) p Q s

/-- What is not there now was not there when the run began. -/
def Begun (i : Nat) (s : OwnershipStore) : Prop := ∀ c, ¬ Occupied s.tree c → Unseen i c s

theorem begun_respond (h : Keeps root s) (c : OwnershipChoice)
    (htree : (ownershipRespond i s r c).2.tree = s.tree) :
    Begun i (ownershipRespond i s r c).2 := by
  intro d hd
  rw [htree] at hd
  rw [Unseen, found_respond]
  cases hfound : s.found i with
  | some t => exact ⟨t, found_arrive hfound, fun ht => hd (h.seen i t hfound d ht)⟩
  | none =>
    refine ⟨s.tree, ?_, hd⟩
    rw [OwnershipStore.arrive, if_neg (by rw [hfound]; simp)]
    exact Function.update_self i _ _

section Rules

variable {α β : Type} {A : OwnershipStore → Prop} {Q : β → OwnershipStore → Prop}

variable {p : Path} {r : OwnershipCall}

variable {f : α → OwnershipProg β} {k : OwnershipAnswer r → OwnershipProg β}

theorem works_then {p : OwnershipProg α} {R : α → OwnershipStore → Prop} (hp : Works root i p R s)
    (hf : ∀ a t, R a t → Works root i (f a) Q t) : Works root i (p.bind f) Q s :=
  .andThen hp hf

theorem works_call (hA : Lasting root i A) (hs : A s) (hguard : ∀ t, A t → Guard root i t r)
    (hk : ∀ t c, Keeps root t → A t → A (ownershipRespond i t r c).2 →
      Works root i (k (ownershipRespond i t r c).1) Q (ownershipRespond i t r c).2) :
    Works root i (.call r k) Q s := by
  intro t hkeeps hmoves
  have ht := hA s t hs (.of_grows hmoves)
  refine ⟨hguard t ht, fun c => ?_⟩
  exact hk t c hkeeps ht (hA _ _ ht (later_respond (hguard t ht) c))

theorem reads_tree (hr : (perform s.tree r).2 = s.tree) (c : OwnershipChoice) :
    (ownershipRespond i s r c).2.tree = s.tree := by
  rcases tree_respond (i := i) (s := s) r c with htree | htree
  · exact htree
  · exact htree.trans hr

theorem works_read (hA : Lasting root i A) (hs : A s) (hread : ∀ t, (perform t r).2 = t)
    (hguard : ∀ t, Guard root i t r)
    (hok : ∀ t, A t → Begun i t → Works root i (k (perform t.tree r).1) Q t)
    (herror : ∀ t message, A t → Works root i (k (refuse message r)) Q t) :
    Works root i (.call r k) Q s := by
  refine works_call hA hs (fun t _ => hguard t) fun t c hkeeps _ hA' => ?_
  have htree : (ownershipRespond i t r c).2.tree = t.tree := reads_tree (hread _) c
  have hbegun := begun_respond hkeeps c htree
  cases herr : c.error with
  | none =>
    have hanswer : (ownershipRespond i t r c).1 =
        (perform (ownershipRespond i t r c).2.tree r).1 := by
      rw [htree, ownershipRespond, herr]
    rw [hanswer]
    exact hok _ hA' hbegun
  | some message =>
    have hanswer : (ownershipRespond i t r c).1 = refuse message r := by
      rw [ownershipRespond, herr]
    rw [hanswer]
    exact herror _ message hA'

/-- `os.Lstat`. -/
theorem works_lstat (hA : Lasting root i A) (hs : A s)
    {k : Except FsError FileInfo → OwnershipProg β}
    (hok : ∀ t e, A t → Begun i t → t.tree.get p = some e → Works root i (k (.ok (infoOf e))) Q t)
    (hmissing : ∀ t error, A t → Begun i t → error.isNotExist = true → t.tree.get p = none →
      Works root i (k (.error error)) Q t)
    (herror : ∀ t error, A t → error.isNotExist = false → Works root i (k (.error error)) Q t) :
    Works root i (.call (.fs (.lstat p)) k) Q s := by
  refine works_read hA hs (fun _ => rfl) (fun _ => trivial) (fun t ht hbegun => ?_)
    fun t message ht => ?_
  · show Works root i (k ((ofLookup (t.tree.look p)).map infoOf)) Q t
    cases hlook : t.tree.look p with
    | ok e => exact hok _ e ht hbegun (FsTree.look_eq_ok.mp hlook)
    | error error =>
      by_cases hnot : (FsError.lookup error).isNotExist = true
      · exact hmissing _ _ ht hbegun hnot (FsTree.get_of_look_error hlook)
      · exact herror _ _ ht (by simpa using hnot)
  · exact herror _ (.other message) ht (by simp [FsError.isNotExist])

/-- `os.ReadDir`. -/
theorem works_list (hA : Lasting root i A) (hs : A s) {f : List (Name × Bool) → OwnershipProg β}
    (hok : ∀ t entries, A t → Begun i t → t.tree.entries p = .ok entries →
      Works root i (f entries) Q t) :
    Works root i ((list p).bind fun answer => (orFail FsError.message answer).bind f) Q s := by
  refine works_read hA hs (fun _ => rfl) (fun _ => trivial) (fun t ht hbegun => ?_)
    fun t message ht => ?_
  · show Works root i ((orFail FsError.message (ofLookup (t.tree.entries p))).bind f) Q t
    cases hentries : t.tree.entries p with
    | ok entries => exact hok t entries ht hbegun hentries
    | error error => trivial
  · trivial

/-- `os.ReadFile`. -/
theorem works_readFile (hA : Lasting root i A) (hs : A s)
    {k : Except FsError (Option RepositoryOwnershipMarker) → OwnershipProg β}
    (hok : ∀ t content, A t → t.tree.get p = some (.file content) →
      Works root i (k (.ok content.marker)) Q t)
    (herror : ∀ t error, A t → Works root i (k (.error error)) Q t) :
    Works root i (.call (.fs (.readFile p)) k) Q s := by
  refine works_read hA hs (fun _ => rfl) (fun _ => trivial) (fun t ht _ => ?_)
    fun t message ht => herror t _ ht
  show Works root i (k ((readEntry t.tree p).map MarkerFile.marker)) Q t
  rw [readEntry]
  cases hlook : t.tree.look p with
  | error error => exact herror t _ ht
  | ok e =>
    have hget := FsTree.look_eq_ok.mp hlook
    cases e with
    | dir => exact herror t _ ht
    | file content => exact hok t content ht hget
    | symlink target => exact herror t _ ht
    | special => exact herror t _ ht

theorem works_orFail {ε : Type} {message : ε → String} {x : Except ε α}
    (hok : ∀ a, x = .ok a → Works root i (f a) Q s) :
    Works root i ((orFail message x).bind f) Q s := by
  cases x with
  | error e => trivial
  | ok a => exact hok a rfl

end Rules

/-! ## Markers -/

section Programs

variable {A : OwnershipStore → Prop} (hA : Lasting root i A)
include hA

variable {p : Path}

theorem works_readMarker (hs : A s) (c : Path) : Works root i (readMarker c) (fun m t => A t ∧
      (m = none → MetaSane c t ∧ t.tree.get (markerPathOf c) = none ∧ Unseen i c t) ∧
      ∀ M, m = some M → Marks c M t) s := by
  have hgone {t : OwnershipStore} (h : t.tree.get (markerPathOf c) = none) (hbegun : Begun i t) :
      Unseen i c t := by
    refine hbegun c fun hoccupied => ?_
    obtain ⟨e, he, -⟩ := hoccupied
    cases h.symm.trans he
  refine works_lstat hA hs (fun t e ht hbegun hget => ?_) (fun t error ht hbegun hnot hget => ?_)
    fun t error ht hnot => ?_
  · rw [markerPathOf_dropLast] at hget
    cases e with
    | dir =>
      have hsane : MetaSane c t := fun e he => Option.some.inj (he.symm.trans hget)
      refine works_lstat (hA.and (lasting_metaSane c)) ⟨ht, hsane⟩
        (fun t e ht hbegun hget => ?_) (fun t error ht hbegun hnot hget => ?_)
        fun t error ht hnot => ?_
      · cases e with
        | dir => trivial
        | symlink target => trivial
        | special => trivial
        | file content =>
          refine works_readFile hA ht.1 (fun t content ht hget => ?_) fun t error ht => ?_
          · generalize hM : content.marker = m
            cases m with
            | none => trivial
            | some M =>
              refine ⟨ht, fun h => (by cases h), fun M' hM' => ?_⟩
              cases hM'
              exact ⟨content, hget, hM⟩
          · trivial
      · show Works root i (ofFs (if error.isNotExist then pure none else .fail error.message)) _ t
        rw [if_pos hnot]
        exact ⟨ht.1, fun _ => ⟨ht.2, hget, hgone hget hbegun⟩, fun M hM => by cases hM⟩
      · show Works root i (ofFs (if error.isNotExist then pure none else .fail error.message)) _ t
        rw [if_neg (by simp [hnot])]
        trivial
    | file content => trivial
    | symlink target => trivial
    | special => trivial
  · rw [markerPathOf_dropLast] at hget
    have hmarker : t.tree.get (markerPathOf c) = none := by
      cases hm : t.tree.get (markerPathOf c) with
      | none => rfl
      | some e =>
        rw [markerPathOf_eq] at hm
        cases hget.symm.trans (FsTree.get_of_prefix hm (by simp))
    show Works root i (ofFs (if error.isNotExist then pure none else .fail error.message)) _ t
    rw [if_pos hnot]
    refine ⟨ht, fun _ => ⟨fun e he => ?_, hmarker, hgone hmarker hbegun⟩, fun M hM => by cases hM⟩
    cases hget.symm.trans he
  · show Works root i (ofFs (if error.isNotExist then pure none else .fail error.message)) _ t
    rw [if_neg (by simp [hnot])]
    trivial

omit hA in
theorem works_requireMatching (hs : A s) (M : RepositoryOwnershipMarker)
    (expected : RepositoryOwnership) :
    Works root i (requireMatching M expected)
      (fun _ t => A t ∧ M = repositoryOwnershipMarkerFromSpec expected) s := by
  rw [requireMatching, requireMatchingRepositoryOwner]
  split
  · trivial
  · rename_i heq
    exact ⟨hs, not_not.mp heq⟩

theorem works_requireMarker (hs : A s) (missing : String) (c : Path)
    (ownership : RepositoryOwnership) :
    Works root i (requireMarker missing c ownership)
      (fun _ t => A t ∧ Marks c (repositoryOwnershipMarkerFromSpec ownership) t) s := by
  refine works_then (works_readMarker hA hs c) ?_
  rintro m t ⟨ht, -, hmarks⟩
  cases m with
  | none => trivial
  | some M =>
    have hM := hmarks M rfl
    refine (works_requireMatching (A := fun t => A t ∧ Marks c M t) ⟨ht, hM⟩ M ownership).mono
      (fun _ _ h => h) ?_
    rintro _ t ⟨⟨ht, hM⟩, rfl⟩
    exact ⟨ht, hM⟩

/-! ## Other owners -/

/-- What the check of a place above establishes. -/
def Cleared (root : Path) (i : Nat) (p : Path) (s : OwnershipStore) : Prop :=
  ∀ c, Below root c → c <+: p → Sane c s ∧ Unseen i c s

omit hA in
theorem lasting_cleared (p : Path) : Lasting root i (Cleared root i p) :=
  fun s s' h hlater c hc hp =>
    ⟨lasting_sane hc s s' (h c hc hp).1 hlater, lasting_unseen c s s' (h c hc hp).2 hlater⟩

theorem works_rejectAncestorNames (hs : A s) (names : List Name) :
    Works root i (rejectAncestorNames root names)
      (fun _ t => A t ∧ root <+: names.reverse ∧ Cleared root i names.reverse t) s := by
  induction names generalizing s A with
  | nil =>
    rw [rejectAncestorNames]
    split
    · rename_i hroot
      subst hroot
      refine ⟨hs, List.nil_prefix, fun c hc hp => ?_⟩
      exact absurd (List.prefix_nil.mp hp).symm hc.2
    · trivial
  | cons n above ih =>
    rw [rejectAncestorNames]
    split
    · rename_i hroot
      refine ⟨hs, hroot ▸ List.prefix_refl _, fun c hc hp => ?_⟩
      rw [hroot] at hp
      exact absurd (hc.1.eq_of_length_le hp.length_le) hc.2
    split
    · trivial
    rename_i hroot hescape
    have hbelow : root <+: (n :: above).reverse := by
      rw [← append_rel hescape]
      exact List.prefix_append _ _
    refine works_then (works_readMarker hA hs _) ?_
    rintro m t ⟨ht, hnone, -⟩
    cases m with
    | some M => trivial
    | none =>
      obtain ⟨hmeta, hget, hunseen⟩ := hnone rfl
      have hsane : Sane (n :: above).reverse t :=
        ⟨hmeta, by rw [hget]; simp⟩
      have hhere := (hA.and (lasting_sane (i := i) ⟨hbelow, fun h => hroot h.symm⟩)).and
        (show Lasting root i _ from lasting_unseen (n :: above).reverse)
      refine (ih hhere ⟨⟨ht, hsane⟩, hunseen⟩).mono (fun _ _ h => h) ?_
      rintro _ t ⟨⟨⟨ht, hsane⟩, hunseen⟩, hroot', hcleared⟩
      refine ⟨ht, hbelow, fun c hc hp => ?_⟩
      rw [List.reverse_cons] at hp
      rcases List.prefix_concat_iff.mp hp with rfl | hp
      · rw [← List.reverse_cons]
        exact ⟨hsane, hunseen⟩
      · exact hcleared c hc hp

theorem works_rejectAncestors (hs : A s) (p : Path) :
    Works root i (rejectAncestorRepositoryOwners p root)
      (fun _ t => A t ∧ root <+: p.dropLast ∧ Cleared root i p.dropLast t) s := by
  refine (works_rejectAncestorNames hA hs p.reverse.tail).mono (fun _ _ h => h) ?_
  rintro _ t ⟨ht, hroot, hcleared⟩
  rw [List.tail_reverse, List.reverse_reverse] at hroot hcleared
  exact ⟨ht, hroot, hcleared⟩

theorem works_rejectEntries {P : Name → OwnershipStore → Prop}
    (hP : ∀ n, Lasting root i (P n)) {walk : Name → OwnershipProg Unit}
    (hwalk : ∀ {B : OwnershipStore → Prop} {t} n, Lasting root i B → B t →
      Works root i (walk n) (fun _ u => B u ∧ P n u) t)
    (hs : A s) (below : List Name) (entries : List (Name × Bool)) :
    Works root i (rejectEntries walk below entries)
      (fun _ t => A t ∧ (∀ n, (n, true) ∈ entries → P n t) ∧
        ∀ n, (n, false) ∈ entries → isForeignMarker (below ++ [n]) = false) s := by
  induction entries generalizing s A with
  | nil => exact ⟨hs, fun n hn => (by cases hn), fun n hn => (by cases hn)⟩
  | cons entry entries ih =>
    obtain ⟨n, isDir⟩ := entry
    cases isDir with
    | true =>
      refine works_then (hwalk n hA hs) fun _ t ht => ?_
      refine (ih (hA.and (hP n)) ht).mono (fun _ _ h => h) ?_
      rintro _ t ⟨⟨ht, hn⟩, hdirs, hothers⟩
      refine ⟨ht, fun m hm => ?_, fun m hm => ?_⟩
      · rcases List.mem_cons.mp hm with heq | hm
        · obtain ⟨rfl, -⟩ := Prod.mk.inj heq
          exact hn
        · exact hdirs m hm
      · rcases List.mem_cons.mp hm with heq | hm
        · cases heq
        · exact hothers m hm
    | false =>
      show Works root i (ite _ _ _ : OwnershipProg Unit) _ s
      split
      · trivial
      rename_i hforeign
      refine (ih hA hs).mono (fun _ _ h => h) ?_
      rintro _ t ⟨ht, hdirs, hothers⟩
      refine ⟨ht, fun m hm => ?_, fun m hm => ?_⟩
      · rcases List.mem_cons.mp hm with heq | hm
        · cases heq
        · exact hdirs m hm
      · rcases List.mem_cons.mp hm with heq | hm
        · obtain ⟨rfl, -⟩ := Prod.mk.inj heq
          simpa using hforeign
        · exact hothers m hm

omit hA in
theorem not_occupied_of_above {t : MarkerTree} {q : Path} {d : Path} (h : t.get p ≠ some .dir)
    (hd : markerPathOf d = p ++ q) (hq : q ≠ []) : ¬ Occupied t d := by
  rintro ⟨e, he, -⟩
  rw [hd] at he
  exact h (FsTree.get_of_prefix he hq)

def Walked (i : Nat) (p : Path) (below : List Name) (s : OwnershipStore) : Prop :=
  ∀ z d, isForeignMarker (below ++ z) = true → markerPathOf d = p ++ (below ++ z) → Unseen i d s

omit hA in
theorem lasting_walked (p : Path) (below : List Name) : Lasting root i (Walked i p below) :=
  fun s s' h hlater z d hz hd => lasting_unseen d s s' (h z d hz hd) hlater

theorem works_rejectBelow (hs : A s) (p : Path) (depth : Nat) (below : List Name) :
    Works root i (rejectBelow p depth below) (fun _ t => A t ∧ Walked i p below t) s := by
  induction depth generalizing s A below with
  | zero => trivial
  | succ depth ih =>
    refine works_list hA hs fun t entries ht hbegun hentries => ?_
    have hdir := FsTree.dir_of_entries hentries
    have hmem {n : Name} {b : Bool} := FsTree.mem_entries hentries (n := n) (b := b)
    have hfree : Lasting root i fun u => ∀ d, ¬ Occupied t.tree d → Unseen i d u :=
      lasting_forall fun d => lasting_imp fun _ => lasting_unseen d
    refine (works_rejectEntries (hA.and hfree)
      (fun n => lasting_walked p (below ++ [n])) (fun n hB hb => ih hB hb (below ++ [n]))
      ⟨ht, hbegun⟩ below entries).mono (fun _ _ h => h) ?_
    rintro _ u ⟨⟨hu, hunseen⟩, hdirs, hothers⟩
    refine ⟨hu, fun z d hz hd => ?_⟩
    rw [← List.append_assoc] at hd
    cases z with
    | nil =>
      refine hunseen d fun hoccupied => ?_
      obtain ⟨e, he, hne⟩ := hoccupied
      rw [hd, List.append_nil, hdir] at he
      exact hne (Option.some.inj he).symm
    | cons n z =>
      have hsplit : p ++ below ++ n :: z = (p ++ below ++ [n]) ++ z := by simp
      rw [hsplit] at hd
      cases hget : t.tree.get (p ++ below ++ [n]) with
      | none =>
        refine hunseen d fun hoccupied => ?_
        obtain ⟨e, he, -⟩ := hoccupied
        rw [hd] at he
        cases z with
        | nil =>
          rw [List.append_nil, hget] at he
          cases he
        | cons m z => cases hget.symm.trans (FsTree.get_of_prefix he (List.cons_ne_nil m z))
      | some e =>
        cases hisdir : t.tree.hasDir (p ++ below ++ [n]) with
        | true =>
          refine hdirs n (hmem.mpr ⟨⟨e, hget⟩, hisdir.symm⟩) z d ?_ ?_
          · rwa [List.append_assoc]
          · rw [hd]
            simp
        | false =>
          cases z with
          | nil =>
            have hforeign := hothers n (hmem.mpr ⟨⟨e, hget⟩, hisdir.symm⟩)
            rw [hz] at hforeign
            cases hforeign
          | cons m z =>
            refine hunseen d (not_occupied_of_above (fun h => ?_) hd (List.cons_ne_nil m z))
            rw [FsTree.hasDir_iff.mpr h] at hisdir
            cases hisdir

omit hA in
theorem isForeignMarker_place {z : List Name} (hz : z ≠ []) :
    isForeignMarker (z ++ [metadataName, markerName]) = true := by
  rw [isForeignMarker, Bool.and_eq_true]
  refine ⟨List.isSuffixOf_iff_suffix.mpr (List.suffix_append _ _), ?_⟩
  simpa using hz

/-- There was no marker below a repository when the run began. -/
def Lonely (i : Nat) (p : Path) (s : OwnershipStore) : Prop :=
  ∀ d, p <+: d → d ≠ p → Unseen i d s

omit hA in
theorem lasting_lonely (p : Path) : Lasting root i (Lonely i p) :=
  fun s s' h hlater d hd hne => lasting_unseen d s s' (h d hd hne) hlater

omit hA in
theorem markerPathOf_append (p z : Path) :
    markerPathOf (p ++ z) = p ++ (z ++ [metadataName, markerName]) := List.append_assoc _ _ _

theorem works_rejectDescendants (hs : A s) (depth : Nat) (p : Path) :
    Works root i (rejectDescendantRepositoryOwners depth p) (fun _ t => A t ∧ Lonely i p t) s := by
  refine works_lstat hA hs (fun t e ht hbegun hget => ?_) (fun _ _ _ _ _ _ => trivial)
    fun _ _ _ _ => trivial
  have hother (hne : e ≠ .dir) : Lonely i p t := by
    rintro _ ⟨z, rfl⟩ hne'
    refine hbegun _ (not_occupied_of_above (p := p) (fun hdir => ?_) (markerPathOf_append p z)
      (by simp))
    exact hne (Option.some.inj (hget.symm.trans hdir))
  cases e with
  | dir =>
    refine (works_rejectBelow hA ht p depth []).mono (fun _ _ h => h) ?_
    rintro _ u ⟨hu, hwalked⟩
    refine ⟨hu, ?_⟩
    rintro _ ⟨z, rfl⟩ hne
    refine hwalked (z ++ [metadataName, markerName]) _ (isForeignMarker_place fun hz => hne ?_)
      (markerPathOf_append p z)
    rw [hz, List.append_nil]
  | file content => exact ⟨ht, hother (by simp)⟩
  | symlink target => exact ⟨ht, hother (by simp)⟩
  | special => exact ⟨ht, hother (by simp)⟩

/-! ## Directories -/

/-- No path above a path, and not the path itself, is the marker of a place. -/
def Through (root : Path) (p : Path) : Prop :=
  ∀ q, q <+: p → ∀ c, Below root c → q ≠ markerPathOf c

theorem works_mkdirLast (hs : A s) (hthrough : ∀ c, Below root c → p ≠ markerPathOf c) :
    Works root i (mkdirLast p) (fun _ t => A t) s := by
  refine works_call hA hs (fun _ _ => hthrough) fun t c _ _ hA' => ?_
  generalize (ownershipRespond i t (.mkdir p) c).1 = x
  generalize (ownershipRespond i t (.mkdir p) c).2 = u at hA'
  cases x with
  | ok _ => exact hA'
  | error error =>
    refine works_lstat hA hA' (fun t e ht _ _ => ?_) (fun _ _ _ _ _ _ => trivial)
      fun _ _ _ _ => trivial
    cases e with
    | dir => exact ht
    | file content => trivial
    | symlink target => trivial
    | special => trivial

theorem works_mkdirAllNames (hs : A s) (names : List Name) (hthrough : Through root names.reverse) :
    Works root i (mkdirAllNames names) (fun _ t => A t) s := by
  induction names generalizing s with
  | nil =>
    refine works_lstat hA hs (fun t e ht _ _ => ?_) (fun _ _ _ _ _ _ => trivial)
      fun _ _ _ _ => trivial
    cases e with
    | dir => exact ht
    | file content => trivial
    | symlink target => trivial
    | special => trivial
  | cons n above ih =>
    have habove : Through root above.reverse := fun q hq =>
      hthrough q (hq.trans (by rw [List.reverse_cons]; exact List.prefix_append _ _))
    have hmake : ∀ t, A t → Works root i
        ((if above = [] then pure () else mkdirAllNames above : OwnershipProg Unit).bind fun _ =>
          mkdirLast (n :: above).reverse) (fun _ t => A t) t := by
      intro t ht
      refine works_then (R := fun _ u => A u) ?_ fun _ u hu =>
        works_mkdirLast hA hu (hthrough _ (List.prefix_refl _))
      split
      · exact ht
      · exact ih ht habove
    refine works_lstat hA hs (fun t e ht _ _ => ?_) (fun t error ht _ _ _ => hmake t ht)
      fun t error ht _ => hmake t ht
    cases e with
    | dir => exact ht
    | file content => trivial
    | symlink target => trivial
    | special => trivial

theorem works_mkdirAll (hs : A s) (hthrough : Through root p) :
    Works root i (mkdirAll p) (fun _ t => A t) s :=
  works_mkdirAllNames hA hs p.reverse (by rwa [List.reverse_reverse])

end Programs

end HyperFileLens.Ownership
