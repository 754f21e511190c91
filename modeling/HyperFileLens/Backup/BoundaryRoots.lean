import HyperFileLens.Backup.PathBoundary

/-!
# The roots of a boundary

What a host backup must not capture: the agent root and the system paths. A backup
is rejected when its source is inside a root, and a root that is inside the source
has a rule (`rules_of_hostBoundary`).

*Comparison.*  A path is within another one when its names start with the names of the
other one, as far as letters count (`isWithin_iff`).
-/

namespace HyperFileLens.Backup

open FileTree

/-! ## Relative paths -/

namespace Host

variable {host : Host}

def foldPath (host : Host) (p : Path) : Path := p.map host.fold

@[simp] theorem foldPath_nil : host.foldPath [] = [] := rfl

@[simp] theorem foldPath_cons (n : Name) (p : Path) :
    host.foldPath (n :: p) = host.fold n :: host.foldPath p := rfl

@[simp] theorem foldPath_append (p q : Path) :
    host.foldPath (p ++ q) = host.foldPath p ++ host.foldPath q := List.map_append

@[simp] theorem length_foldPath (p : Path) : (host.foldPath p).length = p.length :=
  List.length_map _

theorem letter_ne (host : Host) : host.letter 'a' ≠ host.letter 'b' := by
  rw [letter, letter]
  split
  · rw [host.lower_ascii 'a' (by decide), host.lower_ascii 'b' (by decide)]
    decide
  · decide

variable {root path : List Name}

/-- A path is below another one when its relative path does not start upwards. -/
theorem head_rel_iff (hpath : ∀ n ∈ path, n ≠ FilePath.dotDot) :
    (host.rel root path).head? ≠ some FilePath.dotDot ↔
      host.foldPath root <+: host.foldPath path := by
  induction root generalizing path with
  | nil =>
    cases path with
    | nil => simp [rel]
    | cons n path => simpa [rel] using hpath n List.mem_cons_self
  | cons r root ih =>
    cases path with
    | nil => simp [rel]
    | cons n path =>
      rw [rel, foldPath_cons, foldPath_cons, List.cons_prefix_cons]
      by_cases heq : host.fold r = host.fold n
      · rw [if_pos heq, ih fun m hm => hpath m (List.mem_cons_of_mem _ hm)]
        exact (and_iff_right heq).symm
      · simp [heq]

/-- The relative path of a path below another one is what is left of it. -/
theorem rel_eq_drop (h : host.foldPath root <+: host.foldPath path) :
    host.rel root path = path.drop root.length := by
  induction root generalizing path with
  | nil => cases path <;> rfl
  | cons r root ih =>
    cases path with
    | nil => simp at h
    | cons n path =>
      rw [foldPath_cons, foldPath_cons, List.cons_prefix_cons] at h
      rw [rel, if_pos h.1, ih h.2]
      rfl

def IsPath (host : Host) (p : Path) : Prop := ∀ n ∈ p, host.goos.IsName n

theorem IsPath.ne_dotDot {p : Path} (h : host.IsPath p) : ∀ n ∈ p, n ≠ FilePath.dotDot :=
  fun n hn => (h n hn).1.2.2

theorem IsPath.append {p q : Path} (hp : host.IsPath p) (hq : host.IsPath q) :
    host.IsPath (p ++ q) := by
  intro n hn
  rcases List.mem_append.mp hn with hn | hn
  · exact hp n hn
  · exact hq n hn

theorem isWithin_iff {path root : AbsPath} (hpath : host.IsPath path.names) :
    host.isWithin path root = true ↔
      host.sameVolume path root ∧ host.foldPath root.names <+: host.foldPath path.names := by
  rw [isWithin, Bool.and_eq_true, decide_eq_true_eq, decide_eq_true_eq,
    head_rel_iff hpath.ne_dotDot]

theorem isPath_of_canonicalPath {text : List Char} {p : AbsPath}
    (h : canonicalPath host text = .ok p) : host.IsPath p.names := by
  have hnearest : ∀ (volume : List Char) (up suffix : List Name), host.IsPath suffix →
      (∀ n ∈ up, host.goos.IsName n) → ∀ q, resolveNearest host volume up suffix = some q →
        host.IsPath q.names := by
    intro volume up
    induction up with
    | nil =>
      intro suffix hsuffix _ q hq
      obtain ⟨r, hr, rfl⟩ := Option.map_eq_some_iff.mp hq
      exact IsPath.append (host.isName_evalSymlinks _ r hr) hsuffix
    | cons n up ih =>
      intro suffix hsuffix hup q hq
      rw [resolveNearest] at hq
      split at hq
      · rename_i r hr
        cases hq
        exact IsPath.append (host.isName_evalSymlinks _ r hr) hsuffix
      · have hn : host.goos.IsName n := hup n List.mem_cons_self
        refine ih (n :: suffix) ?_ (fun m hm => hup m (List.mem_cons_of_mem _ hm)) q hq
        intro m hm
        rcases List.mem_cons.mp hm with rfl | hm
        · exact hn
        · exact hsuffix m hm
  rw [canonicalPath] at h
  split at h
  · cases h
  split at h
  · cases h
  rename_i abs habs
  cases h
  have hnames := host.isName_abs _ abs habs
  cases hresolved : resolveNearest host abs.volume abs.names.reverse [] with
  | none => exact hnames
  | some q =>
    refine hnearest abs.volume abs.names.reverse [] (fun n hn => by cases hn) ?_ q hresolved
    intro n hn
    exact hnames n (List.mem_reverse.mp hn)

end Host

/-! ## Roots -/

inductive RootKind where
  | agent
  | system (directory caseInsensitive : Bool)
deriving DecidableEq

/-- A path that a backup must not capture. -/
structure ProtectedRoot where
  path : AbsPath
  kind : RootKind
deriving DecidableEq

def candidateRoot (host : Host) (candidate : SystemBackupBoundaryCandidate) :
    Option ProtectedRoot :=
  match canonicalPath host candidate.path with
  | .ok path => some ⟨path, .system candidate.directory candidate.caseInsensitive⟩
  | .error _ => none

/-- What a host backup of a source must not capture. -/
def protectedRoots (host : Host) (agentRoot source : AbsPath) : List ProtectedRoot :=
  (allCandidates host agentRoot source).filterMap (candidateRoot host) ++ [⟨agentRoot, .agent⟩]

namespace ProtectedRoot

variable {host : Host} {source : AbsPath} {r : ProtectedRoot}

def rel (host : Host) (source : AbsPath) (r : ProtectedRoot) : Path :=
  host.rel source.names r.path.names

def pattern (host : Host) (source : AbsPath) (r : ProtectedRoot) : List Char :=
  match r.kind with
  | .agent => normalizeIgnorePattern host (host.relText (r.rel host source))
  | .system directory caseInsensitive =>
    systemPattern host (r.rel host source) directory caseInsensitive

structure IsBelow (host : Host) (source : AbsPath) (r : ProtectedRoot) : Prop where
  within : host.isWithin r.path source = true
  proper : host.isWithin source r.path = false
  source_path : host.IsPath source.names
  root_path : host.IsPath r.path.names

theorem IsBelow.fold_rel (h : r.IsBelow host source) :
    host.foldPath r.path.names = host.foldPath source.names ++ host.foldPath (r.rel host source) := by
  have hprefix := ((Host.isWithin_iff h.root_path).mp h.within).2
  rw [rel, Host.rel_eq_drop hprefix]
  obtain ⟨t, ht⟩ := hprefix
  have hdrop := congrArg (List.drop (host.foldPath source.names).length) ht
  rw [List.drop_left, Host.length_foldPath] at hdrop
  rw [← ht, hdrop]
  exact congrArg _ (List.map_drop ..).symm

theorem IsBelow.isPath_rel (h : r.IsBelow host source) : host.IsPath (r.rel host source) := by
  intro n hn
  rw [rel, Host.rel_eq_drop ((Host.isWithin_iff h.root_path).mp h.within).2] at hn
  exact h.root_path n (List.mem_of_mem_drop hn)

theorem IsBelow.rel_ne_nil (h : r.IsBelow host source) : r.rel host source ≠ [] := by
  intro hnil
  have hfold := h.fold_rel
  rw [hnil, Host.foldPath_nil, List.append_nil] at hfold
  have hwithin : host.isWithin source r.path = true := by
    refine (Host.isWithin_iff h.source_path).mpr ⟨?_, hfold ▸ List.prefix_refl _⟩
    exact ((Host.isWithin_iff h.root_path).mp h.within).1.symm
  exact Bool.noConfusion (hwithin.symm.trans h.proper)

theorem IsBelow.isWithin_join_iff (h : r.IsBelow host source) {p : Path} (hp : host.IsPath p) :
    host.isWithin (source.join p) r.path = true ↔
      host.foldPath (r.rel host source) <+: host.foldPath p := by
  rw [Host.isWithin_iff (h.source_path.append hp), AbsPath.join, h.fold_rel, Host.foldPath_append,
    List.prefix_append_right_inj]
  exact and_iff_right ((Host.isWithin_iff h.root_path).mp h.within).1.symm

theorem isWithin_join_of_not_within (hsource : host.IsPath source.names)
    (hroot : host.IsPath r.path.names) (hproper : host.isWithin source r.path = false)
    (hnot : host.isWithin r.path source = false) {p : Path} (hp : host.IsPath p) :
    host.isWithin (source.join p) r.path = false := by
  rw [Bool.eq_false_iff]
  intro h
  obtain ⟨hvolume, hprefix⟩ := (Host.isWithin_iff (hsource.append hp)).mp h
  rw [AbsPath.join, Host.foldPath_append] at hprefix
  rcases List.prefix_or_prefix_of_prefix hprefix (List.prefix_append _ _) with hle | hle
  · have hwithin : host.isWithin source r.path = true :=
      (Host.isWithin_iff hsource).mpr ⟨hvolume, hle⟩
    exact Bool.noConfusion (hwithin.symm.trans hproper)
  · have hwithin : host.isWithin r.path source = true :=
      (Host.isWithin_iff hroot).mpr ⟨hvolume.symm, hle⟩
    exact Bool.noConfusion (hwithin.symm.trans hnot)

end ProtectedRoot

/-! ## Rules -/

section Rules

variable {host : Host} {source : AbsPath} {r : ProtectedRoot}

theorem isPath_of_candidateRoot {candidate : SystemBackupBoundaryCandidate}
    (h : candidateRoot host candidate = some r) : host.IsPath r.path.names := by
  rw [candidateRoot] at h
  split at h
  · rename_i path hpath
    cases h
    exact Host.isPath_of_canonicalPath hpath
  · cases h

theorem isWithin_congr {p p' q : AbsPath} (hp : host.IsPath p.names) (hp' : host.IsPath p'.names)
    (h : host.key p = host.key p') : host.isWithin p q = host.isWithin p' q := by
  obtain ⟨hvolume, hnames⟩ := AbsPath.mk.inj h
  have hfold : host.foldPath p.names = host.foldPath p'.names := hnames
  rw [Bool.eq_iff_iff, Host.isWithin_iff hp, Host.isWithin_iff hp', Host.sameVolume,
    Host.sameVolume, hvolume, hfold]

theorem isWithin_congr_right {p q q' : AbsPath} (hp : host.IsPath p.names)
    (h : host.key q = host.key q') : host.isWithin p q = host.isWithin p q' := by
  obtain ⟨hvolume, hnames⟩ := AbsPath.mk.inj h
  have hfold : host.foldPath q.names = host.foldPath q'.names := hnames
  rw [Bool.eq_iff_iff, Host.isWithin_iff hp, Host.isWithin_iff hp, Host.sameVolume,
    Host.sameVolume, hvolume, hfold]

def IsSettled (host : Host) (source : AbsPath) (kept : List ProtectedRoot) (r : ProtectedRoot) :
    Prop :=
  host.isWithin source r.path = false ∧
    (host.isWithin r.path source = true → ∃ k ∈ kept, host.key k.path = host.key r.path)

theorem IsSettled.mono {kept kept' : List ProtectedRoot} (h : IsSettled host source kept r)
    (hle : kept ⊆ kept') : IsSettled host source kept' r := by
  refine ⟨h.1, fun hwithin => ?_⟩
  obtain ⟨k, hk, hkey⟩ := h.2 hwithin
  exact ⟨k, hle hk, hkey⟩

theorem IsSettled.congr {kept : List ProtectedRoot} {r r' : ProtectedRoot}
    (hsource : host.IsPath source.names) (hr : host.IsPath r.path.names)
    (hr' : host.IsPath r'.path.names) (h : IsSettled host source kept r)
    (hkey : host.key r.path = host.key r'.path) : IsSettled host source kept r' := by
  refine ⟨(isWithin_congr_right hsource hkey).symm.trans h.1, fun hwithin => ?_⟩
  obtain ⟨k, hk, hkept⟩ := h.2 ((isWithin_congr hr hr' hkey).trans hwithin)
  exact ⟨k, hk, hkept.trans hkey⟩

theorem systemRulesFrom_spec (hsource : host.IsPath source.names)
    {candidates : List SystemBackupBoundaryCandidate} {seen : List AbsPath}
    {rules rules' : SystemRules}
    (h : systemRulesFrom host source candidates seen rules = .ok rules')
    (hforbidden : rules'.forbiddenPath = none) : ∃ kept : List ProtectedRoot, rules'.patterns =
      rules.patterns ++ kept.map (ProtectedRoot.pattern host source) ∧
      (∀ r ∈ kept, r ∈ candidates.filterMap (candidateRoot host) ∧ r.IsBelow host source) ∧
      ∀ r ∈ candidates.filterMap (candidateRoot host), host.key r.path ∈ seen ∨
      IsSettled host source kept r := by
  induction candidates generalizing seen rules with
  | nil =>
    cases h
    exact ⟨[], by simp, by simp, by simp⟩
  | cons candidate candidates ih =>
    rw [systemRulesFrom] at h
    cases hcanonical : canonicalPath host candidate.path with
    | error error => simp [hcanonical] at h
    | ok path =>
      have hroot : candidateRoot host candidate =
          some ⟨path, .system candidate.directory candidate.caseInsensitive⟩ := by
        rw [candidateRoot, hcanonical]
      have hpath := isPath_of_candidateRoot hroot
      rw [List.filterMap_cons, hroot]
      simp only [hcanonical] at h
      -- A later candidate is settled by itself, or has the key of this one.
      have hlater : ∀ (kept : List ProtectedRoot),
          IsSettled host source kept ⟨path, .system candidate.directory candidate.caseInsensitive⟩ →
          (∀ r ∈ candidates.filterMap (candidateRoot host),
            host.key r.path ∈ host.key path :: seen ∨ IsSettled host source kept r) →
          ∀ r ∈ ⟨path, .system candidate.directory candidate.caseInsensitive⟩ ::
              candidates.filterMap (candidateRoot host),
            host.key r.path ∈ seen ∨ IsSettled host source kept r := by
        intro kept hsettled hrest r hr
        rcases List.mem_cons.mp hr with rfl | hr
        · exact .inr hsettled
        rcases hrest r hr with hkey | hr'
        · rcases List.mem_cons.mp hkey with hkey | hkey
          · obtain ⟨c, -, hc⟩ := List.mem_filterMap.mp hr
            exact .inr (hsettled.congr hsource hpath (isPath_of_candidateRoot hc) hkey.symm)
          · exact .inl hkey
        · exact .inr hr'
      split at h
      · rename_i hseen
        obtain ⟨kept, hpatterns, hkept, hrest⟩ := ih h
        refine ⟨kept, hpatterns, fun r hr => ⟨List.mem_cons_of_mem _ (hkept r hr).1,
          (hkept r hr).2⟩, fun r hr => ?_⟩
        rcases List.mem_cons.mp hr with rfl | hr
        · exact .inl hseen
        · exact hrest r hr
      split at h
      · cases h
        cases hforbidden
      rename_i hinside
      split at h
      · rename_i houtside
        obtain ⟨kept, hpatterns, hkept, hrest⟩ := ih h
        refine ⟨kept, hpatterns, fun r hr => ⟨List.mem_cons_of_mem _ (hkept r hr).1,
          (hkept r hr).2⟩, hlater kept ⟨by simpa using hinside, fun hwithin => ?_⟩ hrest⟩
        exact absurd hwithin houtside
      rename_i hwithin
      have hbelow : ProtectedRoot.IsBelow host source
          ⟨path, .system candidate.directory candidate.caseInsensitive⟩ :=
        ⟨by simpa using hwithin, by simpa using hinside, hsource, hpath⟩
      cases hpattern : rootedSystemIgnorePattern host source path candidate.directory
          candidate.caseInsensitive with
      | error error => simp [hpattern] at h
      | ok pattern =>
        simp only [hpattern] at h
        obtain ⟨kept, hpatterns, hkept, hrest⟩ := ih h
        have hline : pattern = ProtectedRoot.pattern host source
            ⟨path, .system candidate.directory candidate.caseInsensitive⟩ := by
          rw [rootedSystemIgnorePattern] at hpattern
          split at hpattern
          · cases hpattern
          · exact (Except.ok.inj hpattern).symm
        refine ⟨⟨path, .system candidate.directory candidate.caseInsensitive⟩ :: kept, ?_, ?_,
          hlater _ ⟨hbelow.proper, fun _ => ⟨_, List.mem_cons_self, rfl⟩⟩ ?_⟩
        · rw [hpatterns, hline]
          simp
        · intro r hr
          rcases List.mem_cons.mp hr with rfl | hr
          · exact ⟨List.mem_cons_self, hbelow⟩
          · exact ⟨List.mem_cons_of_mem _ (hkept r hr).1, (hkept r hr).2⟩
        · intro r hr
          rcases hrest r hr with hkey | hsettled
          · exact .inl hkey
          · exact .inr (hsettled.mono (List.subset_cons_self _ _))

/-- The rules of a boundary. The source is outside of every root, and every root inside
the source has a rule, the agent root one of its own. -/
theorem rules_of_hostBoundary {root : AbsPath} {b : BackupPathBoundary}
    (hsource : host.IsPath source.names) (hroot : host.IsPath root.names)
    (h : hostBoundary host (emptyBoundary root) source = .ok b) :
    ∃ kept : List ProtectedRoot, b.ignorePatterns = kept.map (ProtectedRoot.pattern host source) ∧
      (∀ r ∈ kept, r ∈ protectedRoots host root source ∧ r.IsBelow host source) ∧
      (∀ r ∈ protectedRoots host root source, IsSettled host source kept r) ∧
      (host.isWithin root source = true → ⟨root, .agent⟩ ∈ kept) ∧ b.agentRoot = root := by
  rw [hostBoundary] at h
  split at h
  · cases h
  rename_i hinside
  have hproper : host.isWithin source root = false := by simpa [emptyBoundary] using hinside
  split at h
  · cases h
  rename_i rules hrules
  split at h
  · cases h
  rename_i hforbidden
  obtain ⟨kept, hpatterns, hkept, hsettled⟩ := systemRulesFrom_spec hsource hrules hforbidden
  have hpatterns' : rules.patterns = kept.map (ProtectedRoot.pattern host source) := by
    simpa using hpatterns
  have hsystem : ∀ r ∈ (allCandidates host root source).filterMap (candidateRoot host),
      IsSettled host source kept r := by
    intro r hr
    rcases hsettled r hr with hkey | hr
    · cases hkey
    · exact hr
  dsimp only [emptyBoundary] at h
  split at h
  · rename_i hwithin
    split at h
    · cases h
    cases h
    refine ⟨kept ++ [⟨root, .agent⟩], ?_, ?_, ?_,
      fun _ => List.mem_append_right _ List.mem_cons_self, rfl⟩
    · rw [List.map_append, ← hpatterns']
      rfl
    · intro r hr
      rcases List.mem_append.mp hr with hr | hr
      · exact ⟨List.mem_append_left _ (hkept r hr).1, (hkept r hr).2⟩
      · obtain rfl := List.mem_singleton.mp hr
        exact ⟨List.mem_append_right _ List.mem_cons_self, ⟨hwithin, hproper, hsource, hroot⟩⟩
    · intro r hr
      rcases List.mem_append.mp hr with hr | hr
      · exact (hsystem r hr).mono (List.subset_append_left _ _)
      · obtain rfl := List.mem_singleton.mp hr
        exact ⟨hproper, fun _ => ⟨_, List.mem_append_right _ List.mem_cons_self, rfl⟩⟩
  · rename_i houtside
    cases h
    refine ⟨kept, hpatterns', fun r hr => ⟨List.mem_append_left _ (hkept r hr).1, (hkept r hr).2⟩,
      ?_, fun hwithin => absurd hwithin houtside, rfl⟩
    intro r hr
    rcases List.mem_append.mp hr with hr | hr
    · exact hsystem r hr
    · obtain rfl := List.mem_singleton.mp hr
      exact ⟨hproper, fun hwithin => absurd hwithin houtside⟩

end Rules

end HyperFileLens.Backup
