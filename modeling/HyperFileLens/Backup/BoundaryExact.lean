import Mathlib.Algebra.Order.BigOperators.Group.List
import Mathlib.Algebra.Order.Group.Nat
import HyperFileLens.Backup.BoundaryRules

/-!
# What a boundary excludes

The rules of a boundary exclude what is inside its roots, and nothing else, when the
paths of the roots are plain and the agent root is not directly in the source
(`excludes_iff`). The rule of a single root excludes what is inside the root in every
tree if and only if that is so (`excludes_root_iff`).

*Trees.*  Whatever a rule matches besides its root is in some tree: the directories
down to a path that leaves the path of the root (`chain`).
-/

namespace HyperFileLens.Backup

open FileTree Gitignore

/-! ## Exclusion -/

/-- The entries of a tree that are ignored are those inside the roots. -/
def ExcludesExactly (host : Host) (source : AbsPath) (lines : List (List Char))
    (roots : List ProtectedRoot) (tree : FsTree Unit) : Prop :=
  ∀ p e, tree.get p = some e →
    (ignored lines (isDir tree) p = true ↔
      ∃ r ∈ roots, host.isWithin (source.join p) r.path = true)

theorem mem_protectedPatternValues {values : List (List Char)} {line : List Char} :
    line ∈ protectedPatternValues values ↔
      line ≠ [] ∧ ∃ value ∈ values, Text.trimSpace value = line := by
  have hfold : ∀ (values out : List (List Char)), line ∈ values.foldl (fun out value =>
        let value := Text.trimSpace value
        if value = [] ∨ value ∈ out then out else out ++ [value]) out ↔
      line ∈ out ∨ (line ≠ [] ∧ ∃ value ∈ values, Text.trimSpace value = line) := by
    intro values
    induction values with
    | nil => simp
    | cons value values ih =>
      intro out
      rw [List.foldl_cons, ih]
      by_cases hskip : Text.trimSpace value = [] ∨ Text.trimSpace value ∈ out
      · simp only [if_pos hskip, List.mem_cons, exists_eq_or_imp]
        constructor
        · rintro (h | ⟨hne, h⟩)
          · exact .inl h
          · exact .inr ⟨hne, .inr h⟩
        · rintro (h | ⟨hne, rfl | h⟩)
          · exact .inl h
          · exact .inl (hskip.resolve_left hne)
          · exact .inr ⟨hne, h⟩
      · have hne := (not_or.mp hskip).1
        simp only [if_neg hskip, List.mem_append, List.mem_cons, List.not_mem_nil, or_false,
          exists_eq_or_imp]
        constructor
        · rintro ((h | rfl) | ⟨hline, h⟩)
          · exact .inl h
          · exact .inr ⟨hne, .inl rfl⟩
          · exact .inr ⟨hline, .inr h⟩
        · rintro (h | ⟨hline, rfl | h⟩)
          · exact .inl (.inl h)
          · exact .inl (.inr rfl)
          · exact .inr ⟨hline, h⟩
  exact (hfold values []).trans (or_iff_right (List.not_mem_nil))

section Exact

variable {host : Host} {source : AbsPath} {roots kept : List ProtectedRoot} {r : ProtectedRoot}
  {tree : FsTree Unit}

theorem exists_get_of_prefix {p q : Path} {e : Entry Unit} (he : tree.get p = some e)
    (hq : q <+: p) : ∃ e', tree.get q = some e' := by
  obtain ⟨t, rfl⟩ := hq
  cases t with
  | nil => exact ⟨e, by simpa using he⟩
  | cons n t => exact ⟨.dir, FsTree.get_of_prefix he (by simp)⟩

/-- What is inside a root below the source is at or below the path of the root. -/
theorem prefix_of_isWithin (hfits : Fits host source roots tree) (hr : r ∈ roots)
    (hbelow : r.IsBelow host source) {p : Path} {e : Entry Unit} (he : tree.get p = some e)
    (h : host.isWithin (source.join p) r.path = true) : r.rel host source <+: p := by
  have hp := hfits.names p e he
  have hprefix := (hbelow.isWithin_join_iff hp).mp h
  have htake : host.foldPath (p.take (r.rel host source).length) =
      host.foldPath (r.rel host source) := by
    have hlength := List.prefix_iff_eq_take.mp hprefix
    rw [Host.length_foldPath] at hlength
    rw [hlength]
    exact List.map_take
  obtain ⟨e', he'⟩ := exists_get_of_prefix he (List.take_prefix (r.rel host source).length p)
  rw [← hfits.spelled r hr hbelow.within _ e' he' htake]
  exact List.take_prefix _ _

theorem mem_lines (hbelow : ∀ k ∈ kept, k.IsBelow host source)
    (hplain : ∀ k ∈ kept, IsPlainRel (k.rel host source) k.kind) {line : List Char} :
    line ∈ protectedPatternValues (kept.map (ProtectedRoot.pattern host source)) ↔
      ∃ k ∈ kept, line = k.pattern host source := by
  rw [mem_protectedPatternValues]
  constructor
  · rintro ⟨-, value, hvalue, rfl⟩
    obtain ⟨k, hk, rfl⟩ := List.mem_map.mp hvalue
    exact ⟨k, hk, (pattern_positive (hbelow k hk) (hplain k hk)).1⟩
  · rintro ⟨k, hk, rfl⟩
    obtain ⟨htrim, hne, -⟩ := pattern_positive (hbelow k hk) (hplain k hk)
    exact ⟨hne, _, List.mem_map_of_mem hk, htrim⟩

theorem lines_positive (hbelow : ∀ k ∈ kept, k.IsBelow host source)
    (hplain : ∀ k ∈ kept, IsPlainRel (k.rel host source) k.kind) :
    ∀ line ∈ protectedPatternValues (kept.map (ProtectedRoot.pattern host source)),
      ∀ rule, parse line = some rule → rule.negated = false := by
  intro line hmem rule hparse
  obtain ⟨k, hk, rfl⟩ := (mem_lines hbelow hplain).mp hmem
  exact (pattern_positive (hbelow k hk) (hplain k hk)).2.2 rule hparse

theorem excludesExactly_of_marks (hsource : host.IsPath source.names)
    (hroots : ∀ r ∈ roots, host.IsPath r.path.names)
    (hkept : ∀ k ∈ kept, k ∈ roots ∧ k.IsBelow host source)
    (hsettled : ∀ r ∈ roots, IsSettled host source kept r)
    (hfits : Fits host source roots tree)
    (hplain : ∀ k ∈ kept, IsPlainRel (k.rel host source) k.kind)
    (hmarks : ∀ k ∈ kept, Marks tree (k.rel host source) (k.pattern host source)) :
    ExcludesExactly host source
      (protectedPatternValues (kept.map (ProtectedRoot.pattern host source))) roots tree := by
  intro p e he
  have hline : ∀ line, line ∈ protectedPatternValues (kept.map (ProtectedRoot.pattern host source)) ↔
      ∃ k ∈ kept, line = k.pattern host source :=
    fun _ => mem_lines (fun k hk => (hkept k hk).2) hplain
  have hpositive := lines_positive (fun k hk => (hkept k hk).2) hplain
  rw [ignored_iff hpositive]
  constructor
  · rintro ⟨line, hmem, rule, hparse, q, -, hq, hmatch⟩
    obtain ⟨k, hk, rfl⟩ := (hline line).mp hmem
    obtain ⟨rule', hparse', -, hrule⟩ := hmarks k hk
    obtain rfl := Option.some.inj (hparse.symm.trans hparse')
    obtain ⟨e', he'⟩ := exists_get_of_prefix he hq
    obtain rfl := (hrule q e' he').mp hmatch
    refine ⟨k, (hkept k hk).1, ((hkept k hk).2.isWithin_join_iff (hfits.names p e he)).mpr ?_⟩
    exact hq.map host.fold
  · rintro ⟨r, hr, hwithin⟩
    have hpath := hfits.names p e he
    have hinside : host.isWithin r.path source = true := by
      by_contra hnot
      rw [ProtectedRoot.isWithin_join_of_not_within hsource (hroots r hr) (hsettled r hr).1
        (by simpa using hnot) hpath] at hwithin
      cases hwithin
    obtain ⟨k, hk, hkey⟩ := (hsettled r hr).2 hinside
    obtain ⟨rule, hparse, -, hrule⟩ := hmarks k hk
    have hwithin' : host.isWithin (source.join p) k.path = true :=
      (isWithin_congr_right (hsource.append hpath) hkey).trans hwithin
    have hq := prefix_of_isWithin hfits (hkept k hk).1 (hkept k hk).2 he hwithin'
    obtain ⟨e', he'⟩ := exists_get_of_prefix he hq
    exact ⟨k.pattern host source, (hline _).mpr ⟨k, hk, rfl⟩, rule, hparse,
      k.rel host source, (hkept k hk).2.rel_ne_nil, hq, (hrule _ e' he').mpr rfl⟩

end Exact

/-! ## Trees that tell -/

def chain (p : Path) : FsTree Unit where
  get := fun q => if q <+: p then some .dir else none
  support := p.inits.dedup
  nodup := List.nodup_dedup _
  get_root := if_pos List.nil_prefix
  mem_support := fun q e h => by
    split at h
    · rename_i hq
      exact List.mem_dedup.mpr ((List.mem_inits _ _).mpr hq)
    · cases h
  closed := fun q n e h => by
    split at h
    · rename_i hq
      exact if_pos ((List.prefix_append q [n]).trans hq)
    · cases h

theorem get_chain {p q : Path} {e : Entry Unit} : (chain p).get q = some e ↔ q <+: p ∧ e = .dir := by
  show (if q <+: p then some Entry.dir else none) = some e ↔ q <+: p ∧ e = .dir
  split
  · rename_i hq
    simp [hq, eq_comm]
  · rename_i hq
    simp [hq]

theorem isDir_chain {p q : Path} (h : q <+: p) : isDir (chain p) q = true := by
  rw [isDir, decide_eq_true_eq]
  exact get_chain.mpr ⟨h, rfl⟩

section Single

variable {host : Host} {source : AbsPath} {r : ProtectedRoot}

variable {p : Path}

theorem not_prefix_of_diverges {p' : Path} (h : Diverges host.letter p p') :
    ¬ host.foldPath p <+: host.foldPath p' := by
  obtain ⟨u, n, v, n', v', rfl, rfl, hne⟩ := h
  intro hprefix
  rw [Host.foldPath_append, Host.foldPath_append, List.prefix_append_right_inj,
    Host.foldPath_cons, Host.foldPath_cons, List.cons_prefix_cons] at hprefix
  exact hne hprefix.1.symm

/-- The directories down to the root, or down to a path that leaves it. -/
theorem fits_chain (hp : host.IsPath p)
    (h : p = r.rel host source ∨ Diverges host.letter (r.rel host source) p) :
    Fits host source [r] (chain p) where
  names := fun q e he n hn => hp n ((get_chain.mp he).1.subset hn)
  spelled := fun r' hr' _ q e he hfold => by
    obtain rfl := List.mem_singleton.mp hr'
    have hq := (get_chain.mp he).1
    rcases h with rfl | h
    · have hlength := congrArg List.length hfold
      rw [Host.length_foldPath, Host.length_foldPath] at hlength
      exact hq.eq_of_length hlength
    · exact absurd (hfold ▸ hq.map host.fold) (not_prefix_of_diverges h)
  directories := fun _ _ _ _ e he => (get_chain.mp he).2

theorem isName_of_varies {goos : Goos} {n n' : Name} (h : goos.IsName n) (hvaries : Varies n n') :
    goos.IsName n' := by
  obtain ⟨hchars, hletter⟩ := hvaries
  obtain ⟨-, hslash, hbackslash⟩ := h
  have hmem : ∃ c ∈ n', c = 'a' ∨ c = 'b' := by
    rcases hletter with h | h
    · exact ⟨_, h, .inl rfl⟩
    · exact ⟨_, h, .inr rfl⟩
  have hother : ∀ m : Name, (∀ c ∈ m, c = '.') → n' ≠ m := by
    rintro m hm rfl
    obtain ⟨c, hc, hab⟩ := hmem
    obtain rfl := hm c hc
    revert hab
    decide
  refine ⟨⟨hother [] (by simp), hother ['.'] (by simp), hother ['.', '.'] (by simp)⟩, ?_, ?_⟩
  · intro hc
    rcases hchars _ hc with h | h
    · exact hslash h
    · revert h
      decide
  · intro hwindows hc
    rcases hchars _ hc with h | h
    · exact hbackslash hwindows h
    · revert h
      decide

/-- A line that excludes one root alone in every tree is a rule for the path of the root
and for no path that leaves it. -/
theorem unique_of_excludes (hbelow : r.IsBelow host source) {line : List Char}
    (h : ∀ tree, Fits host source [r] tree → ExcludesExactly host source [line] [r] tree) :
    ∃ rule, parse line = some rule ∧ rule.negated = false ∧
      matchPath rule.segments (r.rel host source) = true ∧ ∀ p, matchPath rule.segments p = true →
      host.IsPath p → ¬ Diverges host.letter (r.rel host source) p := by
  have hpath := hbelow.isPath_rel
  have hexact := h _ (fits_chain hpath (.inl rfl))
  have hinside : ∀ p : Path, host.IsPath p →
      ((∃ r' ∈ [r], host.isWithin (source.join p) r'.path = true) ↔
        host.foldPath (r.rel host source) <+: host.foldPath p) := by
    intro p hp
    rw [← hbelow.isWithin_join_iff hp]
    simp
  have hself : ignored [line] (isDir (chain (r.rel host source))) (r.rel host source) = true :=
    (hexact _ .dir (get_chain.mpr ⟨List.prefix_refl _, rfl⟩)).mpr
      ((hinside _ hpath).mpr (List.prefix_refl _))
  obtain ⟨rule, hparse, hnegated⟩ := negated_of_ignored hself
  have hpositive : ∀ line' ∈ [line], ∀ rule', parse line' = some rule' → rule'.negated = false := by
    intro line' hline' rule' hparse'
    obtain rfl := List.mem_singleton.mp hline'
    obtain rfl := Option.some.inj (hparse.symm.trans hparse')
    exact hnegated
  refine ⟨rule, hparse, hnegated, ?_, ?_⟩
  · obtain ⟨line', hline', rule', hparse', q, hne, hq, hmatch⟩ := (ignored_iff hpositive).mp hself
    obtain rfl := List.mem_singleton.mp hline'
    obtain rfl := Option.some.inj (hparse.symm.trans hparse')
    -- What is matched above the root would be ignored as well.
    have hignored : ignored [line'] (isDir (chain (r.rel host source))) q = true :=
      (ignored_iff hpositive).mpr
        ⟨line', List.mem_cons_self, rule, hparse, q, hne, List.prefix_refl _, hmatch⟩
    have hqpath : host.IsPath q := fun n hn => hpath n (hq.subset hn)
    have hprefix := (hinside q hqpath).mp ((hexact q .dir (get_chain.mpr ⟨hq, rfl⟩)).mp hignored)
    have hlength := hprefix.length_le
    rw [Host.length_foldPath, Host.length_foldPath] at hlength
    obtain rfl := hq.eq_of_length (Nat.le_antisymm hq.length_le hlength)
    exact (Bool.and_eq_true _ _ ▸ hmatch).2
  · intro p hmatch hp hdiverges
    have hfits : Fits host source [r] (chain p) := fits_chain hp (.inr hdiverges)
    have hne : p ≠ [] := by
      obtain ⟨u, n, v, n', v', -, rfl, -⟩ := hdiverges
      simp
    have hrule : rule.matches p (isDir (chain p) p) = true := by
      rw [Rule.matches, isDir_chain (List.prefix_refl p), hmatch]
      rfl
    have hignored : ignored [line] (isDir (chain p)) p = true :=
      (ignored_iff hpositive).mpr
        ⟨line, List.mem_cons_self, rule, hparse, p, hne, List.prefix_refl _, hrule⟩
    exact not_prefix_of_diverges hdiverges ((hinside p hp).mp
      ((h _ hfits p .dir (get_chain.mpr ⟨List.prefix_refl _, rfl⟩)).mp hignored))

theorem core_length_le (text : List Char) :
    (core text).length ≤ (withoutLast text).length ∧ (withoutLast text).length ≤ text.length := by
  constructor
  · rw [core]
    split
    · rename_i body hbody
      rw [hbody]
      exact Nat.le_succ _
    · exact Nat.le_refl _
  · rw [withoutLast]
    split
    · rw [List.length_dropLast]
      exact Nat.sub_le _ _
    · exact Nat.le_refl _

/-- A pattern that is as long as what is between its slashes has none at its ends. -/
theorem core_eq_self {text : List Char} (h : text.length ≤ (core text).length) :
    core text = text ∧ withoutLast text = text := by
  have hle := core_length_le text
  have hwithout : withoutLast text = text := by
    rw [withoutLast] at hle ⊢
    split at hle
    · rename_i hlast
      rw [List.length_dropLast] at hle
      cases text with
      | nil => cases hlast
      | cons c text =>
        simp only [List.length_cons] at hle h
        omega
    · rename_i hlast
      rw [if_neg hlast]
  refine ⟨?_, hwithout⟩
  rw [core, hwithout] at h ⊢
  split
  · simp only [List.length_cons] at h
    omega
  · rfl

theorem parsePattern_of_parse {line : List Char} {rule : Rule} (h : parse line = some rule)
    (hnegated : rule.negated = false) :
    parsePattern false line = some rule ∧ ∀ c ∈ line.head?, c ≠ '#' ∧ c ≠ '!' := by
  rw [parse.eq_def] at h
  split at h
  · cases h
  · cases h
  · obtain ⟨ss, -, rfl⟩ := Option.map_eq_some_iff.mp h
    cases hnegated
  · rename_i hcomment hnegation
    refine ⟨h, fun c hc => ?_⟩
    cases line with
    | nil => cases hc
    | cons d line =>
      cases hc
      constructor
      · rintro rfl
        exact hcomment line rfl
      · rintro rfl
        exact hnegation line rfl

theorem two_le_of_slash_mem (hp : IsSolid p) (h : '/' ∈ slashText p) : 2 ≤ p.length := by
  match p, hp, h with
  | [], _, h => simp [slashText] at h
  | [n], hp, h =>
    have hmem : '/' ∈ n := by simpa [slashText] using h
    exact absurd hmem (hp n List.mem_cons_self).2
  | _ :: _ :: _, _, _ => simp

theorem plain_of_excludes (hbelow : r.IsBelow host source)
    (hkind : r.kind = .agent ∨ r.kind = .system true false)
    (h : ∀ tree, Fits host source [r] tree →
      ExcludesExactly host source (protectedPatternValues [r.pattern host source]) [r] tree) :
    IsPlainRel (r.rel host source) r.kind ∧ IsAnchored (r.rel host source) r.kind := by
  have hpath := hbelow.isPath_rel
  have hne := hbelow.rel_ne_nil
  have hsolid := hpath.isSolid
  have hvalues : protectedPatternValues [r.pattern host source] =
      if Text.trimSpace (r.pattern host source) = [] then []
      else [Text.trimSpace (r.pattern host source)] := by
    simp [protectedPatternValues]
  have hlines : ∀ tree, Fits host source [r] tree →
      ExcludesExactly host source [Text.trimSpace (r.pattern host source)] [r] tree := by
    intro tree hfits p e he
    have hexact := h tree hfits p e he
    rw [hvalues] at hexact
    split at hexact
    · rename_i hnil
      rw [← hexact, hnil]
      exact Iff.rfl
    · exact hexact
  obtain ⟨rule, hparse, hnegated, hmatch, hunique⟩ := unique_of_excludes hbelow hlines
  have hpattern : ∀ text, parsePattern false text = some rule →
      '/' ∈ withoutLast text ∧ (slashText (r.rel host source)).length ≤ (core text).length ∧
        ((slashText (r.rel host source)).length = (core text).length →
          slashText (r.rel host source) = core text ∧ ∀ n ∈ r.rel host source, IsLiteral n) := by
    intro text htext
    obtain ⟨ss, hss, rfl⟩ := Option.map_eq_some_iff.mp htext
    exact core_of_unique host.letter_ne (V := host.goos.IsName)
      (fun n n' hn hvaries => isName_of_varies hn hvaries) hss hmatch hpath hunique
  obtain ⟨path, kind⟩ := r
  rcases hkind with hkind | hkind
  · obtain rfl : kind = .agent := hkind
    have hnormal : ProtectedRoot.pattern host source ⟨path, .agent⟩ = trimSlashes
        ((slashText (ProtectedRoot.rel host source ⟨path, .agent⟩)).map
          fun c => if c = '\\' then '/' else c) := by
      rw [← toSlash_relText hpath hne]
      rfl
    rw [hnormal] at hparse
    generalize ProtectedRoot.rel host source ⟨path, .agent⟩ = rel at *
    obtain ⟨hpositive, hhead⟩ := parsePattern_of_parse hparse hnegated
    obtain ⟨hslash, hlength, hcore⟩ := hpattern _ hpositive
    -- The text of the path only loses characters on its way to the rule.
    have hle : (Text.trimSpace (trimSlashes ((slashText rel).map
        fun c => if c = '\\' then '/' else c))).length ≤ (slashText rel).length := by
      have hsublist := (Text.trim_sublist Text.isSpace _).trans (Text.trim_sublist (· == '/')
        ((slashText rel).map fun c => if c = '\\' then '/' else c))
      exact hsublist.length_le.trans_eq (List.length_map _)
    have hfirst := fun c => Text.head_trim Text.isSpace
      (trimSlashes ((slashText rel).map fun c => if c = '\\' then '/' else c)) (c := c)
    have hlast := fun c => Text.last_trim Text.isSpace
      (trimSlashes ((slashText rel).map fun c => if c = '\\' then '/' else c)) (c := c)
    rw [← Text.trimSpace] at hfirst hlast
    generalize Text.trimSpace (trimSlashes ((slashText rel).map
      fun c => if c = '\\' then '/' else c)) = line at *
    obtain ⟨hself, hwithout⟩ := core_eq_self (hle.trans hlength)
    rw [hself] at hlength hcore
    obtain ⟨htext, hliteral⟩ := hcore (Nat.le_antisymm hlength hle)
    rw [hwithout, ← htext] at hslash
    refine ⟨⟨hliteral, ?_, ?_⟩, fun _ => two_le_of_slash_mem hsolid hslash⟩
    · rw [htext]
      exact fun c hc => ⟨(hhead c hc).1, (hhead c hc).2, hfirst c hc⟩
    · rw [htext]
      exact hlast
  · obtain rfl : kind = .system true false := hkind
    refine ⟨?_, fun h => by cases h⟩
    have htext := slashText_ne_nil hsolid hne
    have hline : ProtectedRoot.pattern host source ⟨path, .system true false⟩ =
        rooted (slashText (ProtectedRoot.rel host source ⟨path, .system true false⟩)) true :=
      systemPattern_eq hpath hne true false
    rw [hline, trimSpace_rooted htext (fun h => by cases h)] at hparse
    obtain ⟨hcore, -, -⟩ := parse_rooted htext (fun c => last_slashText hsolid) true
    exact ((hpattern (rooted _ true) hparse).2.2 (by rw [hcore])).2

end Single

/-! ## The agent root directly in the source -/

section Direct

variable {host : Host} {source : AbsPath} {roots kept : List ProtectedRoot}

/-- A name of `a`. -/
def longName (k : Nat) : Name := List.replicate (k + 3) 'a'

theorem isName_longName (goos : Goos) (k : Nat) : goos.IsName (longName k) := by
  have hlength : (longName k).length = k + 3 := List.length_replicate
  have hchars : ∀ c ∈ longName k, c = 'a' := fun c hc => List.eq_of_mem_replicate hc
  refine ⟨⟨?_, ?_, ?_⟩, fun h => absurd (hchars _ h) (by decide),
    fun _ h => absurd (hchars _ h) (by decide)⟩
  · intro h
    simp [h] at hlength
  · intro h
    simp [h] at hlength
  · intro h
    simp [h] at hlength

theorem exists_longer (host : Host) (source : AbsPath) (roots : List ProtectedRoot) :
    ∃ k, ∀ r ∈ roots, ∀ n ∈ r.rel host source, n.length ≤ k := by
  refine ⟨(roots.map fun r => ((r.rel host source).map List.length).sum).sum, ?_⟩
  intro r hr n hn
  have hname : n.length ≤ ((r.rel host source).map List.length).sum :=
    List.le_sum_of_mem (List.mem_map_of_mem hn)
  exact hname.trans (List.le_sum_of_mem
    (List.mem_map_of_mem (f := fun r => ((r.rel host source).map List.length).sum) hr))

/-- No root is at or above a path that starts with a longer name. -/
theorem not_prefix_longer {r : ProtectedRoot} {k : Nat} (hne : r.rel host source ≠ [])
    (hk : ∀ n ∈ r.rel host source, n.length ≤ k) (q : Path) :
    ¬ host.foldPath (r.rel host source) <+: host.foldPath (longName k :: q) := by
  intro hprefix
  cases hrel : r.rel host source with
  | nil => exact hne hrel
  | cons n rel =>
    rw [hrel, Host.foldPath_cons, Host.foldPath_cons, List.cons_prefix_cons] at hprefix
    have hlength := congrArg List.length hprefix.1
    have hle := hk n (hrel ▸ List.mem_cons_self)
    simp only [Host.fold, longName, List.length_map, List.length_replicate] at hlength
    omega

/-- When the agent root is directly in the source its rule excludes user data of the same
name, whatever the other roots are. -/
theorem not_excludes_of_direct {path : AbsPath} (hsource : host.IsPath source.names)
    (hroots : ∀ r ∈ roots, host.IsPath r.path.names)
    (hkept : ∀ k ∈ kept, k ∈ roots ∧ k.IsBelow host source)
    (hsettled : ∀ r ∈ roots, IsSettled host source kept r)
    (hplain : ∀ k ∈ kept, IsPlainRel (k.rel host source) k.kind)
    (hagent : ⟨path, .agent⟩ ∈ kept)
    (hdirect : (ProtectedRoot.rel host source ⟨path, .agent⟩).length < 2) :
    ¬ ∀ tree, Fits host source roots tree → ExcludesExactly host source
      (protectedPatternValues (kept.map (ProtectedRoot.pattern host source))) roots tree := by
  intro h
  have hbelow := (hkept _ hagent).2
  have hpath := hbelow.isPath_rel
  obtain ⟨n, hrel⟩ : ∃ n, ProtectedRoot.rel host source ⟨path, .agent⟩ = [n] := by
    have hne := hbelow.rel_ne_nil
    match ProtectedRoot.rel host source ⟨path, .agent⟩, hne, hdirect with
    | [n], _, _ => exact ⟨n, rfl⟩
  have hn : host.goos.IsName n := hpath n (by rw [hrel]; exact List.mem_cons_self)
  obtain ⟨k, hk⟩ := exists_longer host source roots
  -- User data: the name of the agent root in another directory.
  have hdata : host.IsPath [longName k, n] := by
    intro m hm
    rcases List.mem_cons.mp hm with rfl | hm
    · exact isName_longName _ k
    · obtain rfl := List.mem_singleton.mp hm
      exact hn
  have hne : ∀ r ∈ roots, host.isWithin r.path source = true → r.rel host source ≠ [] :=
    fun r hr hwithin => ProtectedRoot.IsBelow.rel_ne_nil
      ⟨hwithin, (hsettled r hr).1, hsource, hroots r hr⟩
  have hfits : Fits host source roots (chain [longName k, n]) := by
    refine ⟨fun q e he m hm => hdata m ((get_chain.mp he).1.subset hm), ?_,
      fun _ _ _ _ e he => (get_chain.mp he).2⟩
    intro r hr hwithin q e he hfold
    have hq := (get_chain.mp he).1.map host.fold
    exact absurd (hfold ▸ hq) (not_prefix_longer (hne r hr hwithin) (hk r hr) [n])
  have hexact := h _ hfits [longName k, n] .dir (get_chain.mpr ⟨List.prefix_refl _, rfl⟩)
  have houtside : ¬ ∃ r ∈ roots, host.isWithin (source.join [longName k, n]) r.path = true := by
    rintro ⟨r, hr, hwithin⟩
    by_cases hinside : host.isWithin r.path source = true
    · have hr' : r.IsBelow host source := ⟨hinside, (hsettled r hr).1, hsource, hroots r hr⟩
      exact not_prefix_longer hr'.rel_ne_nil (hk r hr) [n] ((hr'.isWithin_join_iff hdata).mp hwithin)
    · rw [ProtectedRoot.isWithin_join_of_not_within hsource (hroots r hr) (hsettled r hr).1
        (by simpa using hinside) hdata] at hwithin
      cases hwithin
  refine houtside (hexact.mp ?_)
  obtain ⟨hline, hcore, hwithout, hparse⟩ := agent_pattern hbelow (hplain _ hagent)
  have hliteral : IsLiteral n := (hplain _ hagent).1 n (by rw [hrel]; exact List.mem_cons_self)
  have htext : slashText (ProtectedRoot.rel host source ⟨path, .agent⟩) = n := by
    rw [hrel]
    exact List.intercalate_singleton
  have hsegments : segments (ProtectedRoot.pattern host source ⟨path, .agent⟩) =
      some [.stars, .name (n.map .char)] := by
    have hsplit : n.splitOn '/' = [n] := List.splitOn_eq_singleton hn.2.1
    have hsegment : parseSegment n = some (.name (n.map .char)) := by
      rw [parseSegment, if_neg, pieces_of_isLiteral hliteral]
      · rfl
      · rintro rfl
        exact absurd (hliteral '*' List.mem_cons_self) (by decide)
    rw [segments, hcore, htext, hwithout, htext, hsplit]
    simp [hsegment, hn.2.1]
  rw [hsegments] at hparse
  have hmatch : matchPath [.stars, .name (n.map .char)] [longName k, n] = true :=
    matchPath_stars_iff.mpr ⟨[longName k], [n], rfl, matchPath_name_iff.mpr
      ⟨n, [], rfl, matchName_chars_iff.mpr rfl, rfl⟩⟩
  exact (ignored_iff (lines_positive (fun k hk => (hkept k hk).2) hplain)).mpr
    ⟨_, (mem_lines (fun k hk => (hkept k hk).2) hplain).mpr ⟨_, hagent, rfl⟩, _, hparse,
      [longName k, n], by simp, List.prefix_refl _, by simp [Rule.matches, hmatch]⟩

end Direct

/-! ## Boundaries -/

/-- The rules of a boundary exclude what is inside the roots, in every tree. -/
def IsExact (host : Host) (source : AbsPath) (b : BackupPathBoundary) : Prop :=
  ∀ tree, Fits host source (protectedRoots host b.agentRoot source) tree →
    ExcludesExactly host source (protectedPatternValues b.ignorePatterns)
      (protectedRoots host b.agentRoot source) tree

structure ExcludesRoots (host : Host) (source : AbsPath) (b : BackupPathBoundary) : Prop where
  all : (∀ r ∈ protectedRoots host b.agentRoot source, host.isWithin r.path source = true →
      IsPlainRel (r.rel host source) r.kind) →
    (IsExact host source b ↔
      (host.isWithin b.agentRoot source = true →
        2 ≤ (host.rel source.names b.agentRoot.names).length))
  /-- The rule of one root, but for the patterns of either case. -/
  each : ∀ r ∈ protectedRoots host b.agentRoot source, host.isWithin r.path source = true →
    r.kind = .agent ∨ r.kind = .system true false →
    ((∀ tree, Fits host source [r] tree →
        ExcludesExactly host source (protectedPatternValues [r.pattern host source]) [r] tree) ↔
      IsPlainRel (r.rel host source) r.kind ∧ IsAnchored (r.rel host source) r.kind)

section Boundary

variable {host : Host} {source : AbsPath} {b : BackupPathBoundary}

variable {r : ProtectedRoot} {agentRoot : AbsPath}

theorem isPath_of_protectedRoots (hagent : host.IsPath agentRoot.names)
    (hr : r ∈ protectedRoots host agentRoot source) : host.IsPath r.path.names := by
  rcases List.mem_append.mp hr with hr | hr
  · obtain ⟨c, -, hc⟩ := List.mem_filterMap.mp hr
    exact isPath_of_candidateRoot hc
  · obtain rfl := List.mem_singleton.mp hr
    exact hagent

theorem windows_of_protectedRoots (hr : r ∈ protectedRoots host agentRoot source)
    {directory : Bool} (hkind : r.kind = .system directory true) : host.goos = .windows := by
  rcases List.mem_append.mp hr with hr | hr
  · obtain ⟨c, hc, hroot⟩ := List.mem_filterMap.mp hr
    have hcase : c.caseInsensitive = true := by
      rw [candidateRoot] at hroot
      split at hroot
      · cases hroot
        exact (RootKind.system.inj hkind).2
      · cases hroot
    rcases List.mem_append.mp hc with hc | hc
    · rw [systemBackupBoundaryCandidates] at hc
      split at hc
      · simp only [List.mem_cons, List.not_mem_nil, or_false] at hc
        rcases hc with rfl | rfl | rfl | rfl <;> cases hcase
      · simp only [List.mem_cons, List.not_mem_nil, or_false] at hc
        rcases hc with rfl | rfl | rfl | rfl | rfl <;> cases hcase
      · assumption
      · cases hc
    · rw [loadAdditionalSystemBackupBoundaryPaths] at hc
      split at hc
      · cases hc
      split at hc
      · cases hc
      obtain ⟨raw, -, hraw⟩ := List.mem_filterMap.mp hc
      dsimp only at hraw
      split at hraw
      · cases hraw
      · cases hraw
        cases hcase
  · obtain rfl := List.mem_singleton.mp hr
    cases hkind

/-- The rule of one root excludes what is inside it in every tree if and only if its path is
plain, and is not directly in the source if it is the agent root. -/
theorem excludes_root_iff (hbelow : r.IsBelow host source)
    (hkind : r.kind = .agent ∨ r.kind = .system true false) :
    (∀ tree, Fits host source [r] tree →
        ExcludesExactly host source (protectedPatternValues [r.pattern host source]) [r] tree) ↔
      IsPlainRel (r.rel host source) r.kind ∧ IsAnchored (r.rel host source) r.kind := by
  constructor
  · exact plain_of_excludes hbelow hkind
  · rintro ⟨hplain, hanchored⟩ tree hfits
    have hcase : ∀ directory, r.kind = .system directory true → host.goos = .windows := by
      intro directory h
      rcases hkind with hkind | hkind
      · rw [hkind] at h
        cases h
      · rw [hkind] at h
        cases h
    have hone : ∀ {P : ProtectedRoot → Prop}, P r → ∀ k ∈ [r], P k := by
      intro P hP k hk
      obtain rfl := List.mem_singleton.mp hk
      exact hP
    exact excludesExactly_of_marks hbelow.source_path (hone hbelow.root_path)
      (fun k hk => ⟨hk, hone (P := fun k => k.IsBelow host source) hbelow k hk⟩)
      (hone ⟨hbelow.proper, fun _ => ⟨r, List.mem_cons_self, rfl⟩⟩) hfits (hone hplain)
      (hone (marks_pattern hbelow hplain hanchored hcase hfits List.mem_cons_self))

/-- The rules of a boundary with plain paths exclude what is inside the roots in every tree if
and only if the agent root is not directly in the source. -/
theorem excludes_iff {root : AbsPath} (hsource : host.IsPath source.names)
    (hroot : host.IsPath root.names) (h : hostBoundary host (emptyBoundary root) source = .ok b)
    (hplain : ∀ r ∈ protectedRoots host b.agentRoot source, host.isWithin r.path source = true →
      IsPlainRel (r.rel host source) r.kind) :
    IsExact host source b ↔ (host.isWithin b.agentRoot source = true →
      2 ≤ (host.rel source.names b.agentRoot.names).length) := by
  obtain ⟨kept, hpatterns, hkept, hsettled, hagent, rfl⟩ := rules_of_hostBoundary hsource hroot h
  have hplain' : ∀ k ∈ kept, IsPlainRel (k.rel host source) k.kind :=
    fun k hk => hplain k (hkept k hk).1 (hkept k hk).2.within
  have hpaths : ∀ r ∈ protectedRoots host b.agentRoot source, host.IsPath r.path.names :=
    fun r hr => isPath_of_protectedRoots hroot hr
  rw [IsExact, hpatterns]
  constructor
  · intro hexact hwithin
    by_contra hdirect
    exact not_excludes_of_direct hsource hpaths hkept hsettled hplain' (hagent hwithin)
      (by simpa [ProtectedRoot.rel] using hdirect) hexact
  · intro hdeep tree hfits
    refine excludesExactly_of_marks hsource hpaths hkept hsettled hfits hplain' fun k hk => ?_
    refine marks_pattern (hkept k hk).2 (hplain' k hk) (fun hkind => ?_)
      (fun directory hkind => windows_of_protectedRoots (hkept k hk).1 hkind) hfits (hkept k hk).1
    have hpath : k.path = b.agentRoot := by
      rcases List.mem_append.mp (hkept k hk).1 with hmem | hmem
      · obtain ⟨c, -, hc⟩ := List.mem_filterMap.mp hmem
        rw [candidateRoot] at hc
        split at hc
        · cases hc
          cases hkind
        · cases hc
      · rw [List.mem_singleton.mp hmem]
    rw [ProtectedRoot.rel, hpath]
    exact hdeep (hpath ▸ (hkept k hk).2.within)

end Boundary

/-- A backup is rejected, or it is one of a bound mount of a NAS source, or the rules exclude
what is inside the roots as far as the paths of the roots allow. -/
theorem newBackupPathBoundary_excludes (host : Host) (cfg : Option AgentConfig)
    (sourcePath : List Char) (nasSource : Bool) (nasMountPoint : List Char) :
    match newBackupPathBoundary host cfg sourcePath nasSource nasMountPoint with
    | .error _ => True
    | .ok b => ∃ source, canonicalPath host sourcePath = .ok source ∧
        ((isBoundNasSource host (emptyBoundary b.agentRoot) source nasSource nasMountPoint = true ∧
            b.ignorePatterns = []) ∨
          ExcludesRoots host source b) := by
  cases hroot : canonicalPath host (agentRootText host cfg) with
  | error error => simp [newBackupPathBoundary, hroot]
  | ok root =>
    cases hsource : canonicalPath host sourcePath with
    | error error => simp [newBackupPathBoundary, hroot, hsource]
    | ok source =>
      simp only [newBackupPathBoundary, hroot, hsource]
      have hsourcePath := Host.isPath_of_canonicalPath hsource
      have hrootPath := Host.isPath_of_canonicalPath hroot
      by_cases hnas : isBoundNasSource host (emptyBoundary root) source nasSource
          nasMountPoint = true
      · rw [if_pos hnas]
        exact ⟨source, rfl, .inl ⟨hnas, rfl⟩⟩
      · rw [if_neg hnas]
        cases hboundary : hostBoundary host (emptyBoundary root) source with
        | error error => trivial
        | ok b =>
          refine ⟨source, rfl, .inr ⟨excludes_iff hsourcePath hrootPath hboundary, ?_⟩⟩
          intro r hr hwithin hkind
          obtain ⟨kept, _, _, hsettled, _, rfl⟩ :=
            rules_of_hostBoundary hsourcePath hrootPath hboundary
          exact excludes_root_iff ⟨hwithin, (hsettled r hr).1, hsourcePath,
            isPath_of_protectedRoots hrootPath hr⟩ hkind

/-! ## An agent root directly in a source -/

def linuxHost : Host where
  goos := .linux
  lower := Char.toLower
  isAbs := FilePath.isAbs
  abs := fun path => some ⟨[], FilePath.clean path⟩
  evalSymlinks := fun p => if ∀ n ∈ p.names, Goos.linux.IsName n then some p else none
  agentRootForMode := fun _ => "/var/lib/hyperfilelens-agent".toList
  boundaryConfig := fun _ => none
  lower_ascii := fun _ _ => rfl
  isName_abs := fun path p h n hn => by
    cases h
    exact ⟨FilePath.isPlain_of_mem_clean hn, FilePath.slash_not_mem_clean hn, fun h => by cases h⟩
  isName_evalSymlinks := fun q p h n hn => by
    split at h
    · rename_i hnames
      cases h
      exact hnames n hn
    · cases h

/-- The configuration of an agent below `/opt`. -/
def optConfig : AgentConfig where
  agentRoot := "/opt/hyperfilelens".toList
  dataDir := []
  installationMode := []

/-- The boundary of a backup of `/opt`. -/
def optBoundary : BackupPathBoundary :=
  { emptyBoundary ⟨[], ["opt".toList, "hyperfilelens".toList]⟩ with
    ignorePatterns := ["hyperfilelens".toList]
    excludedPaths := [⟨[], ["opt".toList, "hyperfilelens".toList]⟩] }

/-- What is called like the agent root is not backed up. -/
theorem not_isExact_optBoundary :
    ¬ ∀ (host : Host) (cfg : Option AgentConfig) (sourcePath : List Char)
      (b : BackupPathBoundary) (source : AbsPath),
      newBackupPathBoundary host cfg sourcePath false [] = .ok b →
        canonicalPath host sourcePath = .ok source → IsExact host source b := by
  intro h
  have hboundary : newBackupPathBoundary linuxHost (some optConfig) "/opt".toList false [] =
      .ok optBoundary := by
    rfl
  have hsource : canonicalPath linuxHost "/opt".toList = .ok ⟨[], ["opt".toList]⟩ := by
    rfl
  have hrules : hostBoundary linuxHost (emptyBoundary optBoundary.agentRoot)
      ⟨[], ["opt".toList]⟩ = .ok optBoundary := by
    rfl
  have hroots : protectedRoots linuxHost optBoundary.agentRoot ⟨[], ["opt".toList]⟩ =
      [⟨⟨[], ["proc".toList]⟩, .system true false⟩, ⟨⟨[], ["sys".toList]⟩, .system true false⟩,
        ⟨⟨[], ["dev".toList]⟩, .system true false⟩, ⟨⟨[], ["run".toList]⟩, .system true false⟩,
        ⟨⟨[], ["opt".toList, "hyperfilelens".toList]⟩, .agent⟩] := by
    rfl
  have hplain : ∀ r ∈ protectedRoots linuxHost optBoundary.agentRoot ⟨[], ["opt".toList]⟩,
      linuxHost.isWithin r.path ⟨[], ["opt".toList]⟩ = true →
        IsPlainRel (r.rel linuxHost ⟨[], ["opt".toList]⟩) r.kind := by
    rw [hroots]
    intro r hr hwithin
    simp only [List.mem_cons, List.not_mem_nil, or_false] at hr
    rcases hr with rfl | rfl | rfl | rfl | rfl
    · exact absurd hwithin (by decide)
    · exact absurd hwithin (by decide)
    · exact absurd hwithin (by decide)
    · exact absurd hwithin (by decide)
    · have hrel : ProtectedRoot.rel linuxHost ⟨[], ["opt".toList]⟩
          ⟨⟨[], ["opt".toList, "hyperfilelens".toList]⟩, .agent⟩ = ["hyperfilelens".toList] := by
        rfl
      rw [hrel]
      refine ⟨?_, ?_, ?_⟩
      · intro n hn
        obtain rfl := List.mem_singleton.mp hn
        decide
      · intro c hc
        obtain rfl : 'h' = c := Option.some.inj hc
        decide
      · intro c hc
        obtain rfl : 's' = c := Option.some.inj hc
        decide
  have hdeep := (excludes_iff (Host.isPath_of_canonicalPath hsource)
    (Host.isPath_of_canonicalPath (p := optBoundary.agentRoot)
      (show canonicalPath linuxHost "/opt/hyperfilelens".toList = .ok optBoundary.agentRoot from rfl))
    hrules hplain).mp (h _ _ _ _ _ hboundary hsource) (by decide)
  exact absurd hdeep (by decide)

end HyperFileLens.Backup
