import Mathlib.Data.List.Pairwise
import HyperFileLens.Lens.UpdateScopes
import HyperFileLens.Library.FilePath

/-!
# The folders of scopes

`map_scope_to_workspace` gives the scopes of a Chat their folders. Scopes that are distinct and
not nested can get folders that are not: the mapping drops the drive, ignores the letter case of
what all scopes share, and names a scope that is shared itself by its last part.

`Clash` says which scopes get such folders, in terms of their parts, and `folders_apart_iff` says
that it tells.
-/

namespace HyperFileLens.Lens.ChatUpdate

/-! ## Joined parts -/

/-- Parts as `_path_parts` returns them. -/
def Clean (parts : List Part) : Prop := ∀ part ∈ parts, part ≠ [] ∧ '/' ∉ part

variable {a b : List Part}

theorem clean_pathParts (path : List Char) : Clean (pathParts path) := by
  intro part hpart
  obtain ⟨hsplit, hkept⟩ := List.mem_filter.mp hpart
  rw [decide_eq_true_eq] at hkept
  exact ⟨hkept.1, FilePath.slash_not_mem_splitOn part hsplit⟩

variable {parts : List Part}

theorem Clean.drop (h : Clean parts) (n : Nat) : Clean (parts.drop n) :=
  fun part hpart => h part (List.mem_of_mem_drop hpart)

theorem joinParts_cons (part : Part) (h : parts ≠ []) :
    joinParts (part :: parts) = part ++ '/' :: joinParts parts := by
  rw [joinParts, List.intercalate_cons_of_ne_nil h]
  simp [joinParts]

theorem joinParts_append (ha : a ≠ []) (hb : b ≠ []) :
    joinParts (a ++ b) = joinParts a ++ '/' :: joinParts b := by
  induction a with
  | nil => exact absurd rfl ha
  | cons part a ih =>
    cases a with
    | nil =>
      rw [List.singleton_append, joinParts_cons part hb]
      simp [joinParts]
    | cons next a =>
      rw [List.cons_append, joinParts_cons part (by simp), ih (by simp),
        joinParts_cons part (by simp)]
      simp

theorem splitOn_joinParts (h : Clean parts) (hne : parts ≠ []) :
    (joinParts parts).splitOn '/' = parts :=
  List.splitOn_intercalate '/' (fun part hpart => (h part hpart).2) hne

/-- One text of parts goes on behind another and a slash when its parts go on. -/
theorem isPrefix_joinParts (ha : Clean a) (hb : Clean b) (hna : a ≠ []) (hnb : b ≠ []) :
    joinParts a ++ ['/'] <+: joinParts b ↔ a <+: b ∧ a ≠ b := by
  constructor
  · rintro ⟨rest, hrest⟩
    have hsplit := congrArg (List.splitOn '/') hrest
    rw [List.append_assoc, List.singleton_append, List.splitOn_append_cons_self,
      splitOn_joinParts ha hna, splitOn_joinParts hb hnb] at hsplit
    refine ⟨⟨_, hsplit⟩, fun heq => ?_⟩
    rw [heq] at hsplit
    have hnil : rest.splitOn '/' = [] := List.append_right_eq_self.mp hsplit
    exact List.splitOn_ne_nil '/' rest hnil
  · rintro ⟨⟨rest, rfl⟩, hne⟩
    have hrest : rest ≠ [] := fun hnil => hne (by rw [hnil, List.append_nil])
    rw [joinParts_append hna hrest]
    exact ⟨joinParts rest, by simp⟩

theorem joinParts_ne_nil (h : Clean parts) (hne : parts ≠ []) : joinParts parts ≠ [] := by
  cases parts with
  | nil => exact absurd rfl hne
  | cons part parts =>
    have hpart := (h part List.mem_cons_self).1
    cases parts with
    | nil => simpa [joinParts] using hpart
    | cons next parts =>
      rw [joinParts_cons part (by simp)]
      simp

theorem last_joinParts (h : Clean parts) (hne : parts ≠ []) :
    (joinParts parts).getLast? ≠ some '/' := by
  rcases List.eq_nil_or_concat parts with rfl | ⟨init, part, rfl⟩
  · exact absurd rfl hne
  rw [List.concat_eq_append] at h ⊢
  obtain ⟨hpart, hslash⟩ := h part (by simp)
  have hlast : (joinParts (init ++ [part])).getLast? = part.getLast? := by
    cases init with
    | nil => simp [joinParts]
    | cons first init =>
      rw [joinParts_append (by simp) (by simp)]
      simp only [joinParts, List.intercalate_singleton]
      rw [List.getLast?_append_of_ne_nil _ (by simp), List.getLast?_cons]
      cases hp : part.getLast? with
      | none => exact absurd (List.getLast?_eq_none_iff.mp hp) hpart
      | some c => rfl
  rw [hlast]
  exact fun hc => hslash (List.mem_of_getLast? hc)

theorem rstripSlashes_eq_self {path : List Char} (h : path.getLast? ≠ some '/') :
    rstripSlashes path = path := by
  rw [rstripSlashes]
  rcases List.eq_nil_or_concat path with rfl | ⟨init, c, rfl⟩
  · rfl
  · rw [List.concat_eq_append] at h ⊢
    have hc : c ≠ '/' := by simpa using h
    simp [hc]

theorem targetsOverlap_iff {root : List Char} (ha : Clean a) (hb : Clean b) (hna : a ≠ [])
    (hnb : b ≠ []) : targetsOverlap (root ++ '/' :: joinParts a) (root ++ '/' :: joinParts b) =
      true ↔ a <+: b ∨ b <+: a := by
  have hrstrip : ∀ {parts : List Part}, Clean parts → parts ≠ [] →
      rstripSlashes (root ++ '/' :: joinParts parts) = root ++ '/' :: joinParts parts := by
    intro parts hparts hne
    refine rstripSlashes_eq_self ?_
    rw [List.getLast?_append_of_ne_nil _ (by simp), List.getLast?_cons]
    have hlast := last_joinParts hparts hne
    cases hc : (joinParts parts).getLast? with
    | none => exact absurd (List.getLast?_eq_none_iff.mp hc) (joinParts_ne_nil hparts hne)
    | some c =>
      rw [hc] at hlast
      simpa using hlast
  have hleads : ∀ {p q : List Part}, Clean p → Clean q → p ≠ [] → q ≠ [] →
      ((root ++ '/' :: joinParts p ++ ['/']).isPrefixOf (root ++ '/' :: joinParts q) = true ↔
        p <+: q ∧ p ≠ q) := by
    intro p q hp hq hnp hnq
    rw [List.isPrefixOf_iff_prefix, List.append_assoc, List.cons_append,
      List.prefix_append_right_inj, List.cons_prefix_cons, isPrefix_joinParts hp hq hnp hnq]
    simp
  have heq : root ++ '/' :: joinParts a = root ++ '/' :: joinParts b ↔ a = b := by
    constructor
    · intro h
      have hjoin := (List.cons.inj (List.append_cancel_left h)).2
      rw [← splitOn_joinParts ha hna, hjoin, splitOn_joinParts hb hnb]
    · exact fun h => by rw [h]
  rw [targetsOverlap, hrstrip ha hna, hrstrip hb hnb, Bool.or_eq_true, Bool.or_eq_true,
    decide_eq_true_eq, heq, hleads hb ha hnb hna, hleads ha hb hna hnb]
  constructor
  · rintro ((rfl | h) | h)
    · exact .inl (List.prefix_refl a)
    · exact .inr h.1
    · exact .inl h.1
  · intro h
    by_cases hab : a = b
    · exact .inl (.inl hab)
    · rcases h with h | h
      · exact .inr ⟨h, hab⟩
      · exact .inl (.inr ⟨h, fun heq => hab heq.symm⟩)

/-! ## The shared path -/

structure ScopePath where
  text : List Char
  nonblank : strip text ≠ []

/-- The texts of the scopes without white space around them. -/
def normalized (scopes : List ScopePath) : List (List Char) :=
  normalizedPaths (scopes.map ScopePath.text)

/-- What `_common_path_parts` returns for the scopes. -/
def sharedParts (m : CaseMapping) (scopes : List ScopePath) : List Part :=
  commonPathParts m (normalized scopes)

section Shared

variable {m : CaseMapping} {scopes : List ScopePath}

variable {scope : ScopePath}

theorem strip_strip (path : List Char) : strip (strip path) = strip path :=
  Text.trim_trim Text.isPySpace path

theorem pathParts_strip (path : List Char) : pathParts (strip path) = pathParts path := by
  rw [pathParts, strip_strip]
  rfl

theorem strip_mem_normalized (h : scope ∈ scopes) : strip scope.text ∈ normalized scopes := by
  rw [normalized, normalizedPaths, List.mem_filter, List.map_map]
  exact ⟨List.mem_map_of_mem (f := strip ∘ ScopePath.text) h, by simpa using scope.nonblank⟩

theorem foldl_min_le (partsList : List (List Part)) (n : Nat) :
    partsList.foldl (fun n parts => min n parts.length) n ≤ n ∧
      ∀ parts ∈ partsList, partsList.foldl (fun n parts => min n parts.length) n ≤
        parts.length := by
  induction partsList generalizing n with
  | nil => simp
  | cons first partsList ih =>
    obtain ⟨hn, hrest⟩ := ih (min n first.length)
    rw [List.foldl_cons]
    refine ⟨by omega, fun parts hparts => ?_⟩
    rcases List.mem_cons.mp hparts with rfl | hparts
    · omega
    · exact hrest parts hparts

/-- The indices of `range n` up to the first one that fails a test pass it. -/
theorem of_lt_length_takeWhile {n i : Nat} {test : Nat → Bool}
    (h : i < ((List.range n).takeWhile test).length) : i < n ∧ test i = true := by
  have hleads := List.takeWhile_prefix (l := List.range n) test
  have hlength : i < (List.range n).length := h.trans_le hleads.length_le
  have hget : ((List.range n).takeWhile test)[i] = i := by
    rw [hleads.getElem h, List.getElem_range]
  refine ⟨by simpa using hlength, ?_⟩
  have hmem := List.getElem_mem h
  rw [hget] at hmem
  exact List.mem_takeWhile_imp hmem

theorem sharedParts_spec (h : scope ∈ scopes) :
    (sharedParts m scopes).length ≤ (pathParts scope.text).length ∧
      ((pathParts scope.text).take (sharedParts m scopes).length).map m.lower =
        (sharedParts m scopes).map m.lower := by
  have hmem : pathParts scope.text ∈
      ((normalized scopes).filter fun path => strip path ≠ []).map pathParts := by
    rw [← pathParts_strip scope.text]
    refine List.mem_map_of_mem (List.mem_filter.mpr ⟨strip_mem_normalized h, ?_⟩)
    simpa [strip_strip] using scope.nonblank
  rw [sharedParts, commonPathParts]
  dsimp only
  generalize hlist : ((normalized scopes).filter fun path => strip path ≠ []).map pathParts =
    partsList at hmem ⊢
  cases partsList with
  | nil => cases hmem
  | cons first rest =>
    dsimp only
    generalize hk : ((List.range ((first :: rest).foldl (fun n parts => min n parts.length)
      first.length)).takeWhile fun i => (first :: rest).all fun parts =>
        parts[i]?.map m.lower = first[i]?.map m.lower).length = k
    have hagree : ∀ i < k, i < (pathParts scope.text).length ∧ i < first.length ∧
        (pathParts scope.text)[i]?.map m.lower = first[i]?.map m.lower := by
      intro i hi
      rw [← hk] at hi
      obtain ⟨hshort, htest⟩ := of_lt_length_takeWhile hi
      obtain ⟨hfirst, hall⟩ := foldl_min_le (first :: rest) first.length
      have hscope := hall _ hmem
      rw [List.all_eq_true] at htest
      exact ⟨by omega, by omega, by simpa using htest _ hmem⟩
    have hbound : k ≤ (pathParts scope.text).length ∧ k ≤ first.length := by
      cases k with
      | zero => exact ⟨Nat.zero_le _, Nat.zero_le _⟩
      | succ k =>
        obtain ⟨hscope, hfirst, -⟩ := hagree k (Nat.lt_succ_self k)
        exact ⟨hscope, hfirst⟩
    have hlength : (first.take k).length = k := by
      rw [List.length_take]
      omega
    rw [hlength]
    refine ⟨hbound.1, List.ext_getElem? fun i => ?_⟩
    rw [List.getElem?_map, List.getElem?_map, List.getElem?_take, List.getElem?_take]
    split
    · rename_i hi
      exact (hagree i hi).2.2
    · rfl

end Shared

/-! ## Folders -/

def sharedName (common : List Part) : Part := common.getLast?.getD "data".toList

def folderParts (common parts : List Part) : List Part :=
  if parts = common then [sharedName common]
  else if common.length < parts.length then parts.drop common.length
  else parts

section Folders

variable {m : CaseMapping} {scopes : List ScopePath} {common p q : List Part}

variable {scope : ScopePath}

theorem clean_sharedName (h : Clean common) : sharedName common ≠ [] ∧ '/' ∉ sharedName common := by
  rw [sharedName]
  cases hlast : common.getLast? with
  | none => decide
  | some part => exact h part (List.mem_of_getLast? hlast)

theorem clean_folderParts (hp : Clean p) : Clean (folderParts common p) := by
  rw [folderParts]
  split
  · rename_i heq
    intro part hpart
    rw [List.mem_singleton.mp hpart]
    exact clean_sharedName (heq ▸ hp)
  · split
    · exact hp.drop _
    · exact hp

theorem folderParts_ne_nil (hlength : common.length ≤ p.length) : folderParts common p ≠ [] := by
  rw [folderParts]
  split
  · simp
  · rename_i hne
    split
    · rename_i hlt
      intro hnil
      have := List.drop_eq_nil_iff.mp hnil
      omega
    · intro hnil
      rw [hnil] at hlength hne
      exact hne (List.length_eq_zero_iff.mp (by simpa using hlength)).symm

theorem relativeFolder_eq (h : scope ∈ scopes) :
    relativeFolder m (normalized scopes) (pathParts scope.text) =
      joinParts (folderParts (sharedParts m scopes) (pathParts scope.text)) := by
  obtain ⟨-, hcase⟩ := sharedParts_spec (m := m) h
  rw [relativeFolder, if_neg (List.ne_nil_of_mem (strip_mem_normalized h)), folderParts]
  rw [sharedParts] at hcase ⊢
  split
  · rename_i heq
    rw [heq, sharedName]
    simp [joinParts]
  · simp only [hcase, and_true]
    split
    · rfl
    · rfl

theorem mapScopeToWorkspace_eq (root : List Char) (h : scope ∈ scopes) :
    mapScopeToWorkspace m root (scopes.map ScopePath.text) scope.text =
      (if rstripSlashes root = [] then ['/'] else rstripSlashes root) ++
        '/' :: joinParts (folderParts (sharedParts m scopes) (pathParts scope.text)) := by
  have hclean : Clean (folderParts (sharedParts m scopes) (pathParts scope.text)) :=
    clean_folderParts (clean_pathParts scope.text)
  have hfolder := folderParts_ne_nil (sharedParts_spec (m := m) h).1
  have hrelative := relativeFolder_eq (m := m) h
  rw [normalized] at hrelative
  rw [mapScopeToWorkspace, hrelative, if_neg (joinParts_ne_nil hclean hfolder)]

end Folders

/-! ## Scopes that clash -/

/-- Why the folder of `p` leads to the folder of `q`. Both begin with the shared path, but for
letter case. -/
inductive Clash (common p q : List Part) : Prop where
  | beyond (hp : common.length < p.length) (hq : common.length < q.length)
      (h : p.drop common.length <+: q.drop common.length)
  /-- One is the shared path, and the other goes on with its last name. -/
  | shared (hp : p = common) (hq : common.length < q.length)
      (h : q[common.length]? = some (sharedName common))
  /-- The other has no name but the last one of the shared path beyond it. -/
  | named (hp : common.length < p.length) (hq : q = common)
      (h : p.drop common.length = [sharedName common])
  /-- Both are the shared path. -/
  | same (hp : p = common) (hq : q = common)
  /-- One is the shared path, the other is in another letter case and begins with its last name. -/
  | sharedRecased (hp : p = common) (hq : q ≠ common) (hlength : q.length = common.length)
      (h : q.head? = some (sharedName common))
  /-- The shared path in another letter case is its last name. -/
  | recasedShared (hp : p ≠ common) (hlength : p.length = common.length) (hq : q = common)
      (h : p = [sharedName common])
  /-- The shared path in another letter case leads to what the other has beyond it. -/
  | recasedBeyond (hp : p ≠ common) (hlength : p.length = common.length)
      (hq : common.length < q.length) (h : p <+: q.drop common.length)
  /-- What one has beyond the shared path leads to that path in another letter case. -/
  | beyondRecased (hp : common.length < p.length) (hq : q ≠ common)
      (hlength : q.length = common.length) (h : p.drop common.length <+: q)
  /-- Both are the shared path in one other letter case. -/
  | recased (hp : p ≠ common) (hlength : p.length = common.length) (h : p = q)

def Distinguishable (m : CaseMapping) (scopes : List ScopePath) : Prop :=
  scopes.Pairwise fun a b =>
    ¬ Clash (sharedParts m scopes) (pathParts a.text) (pathParts b.text) ∧
      ¬ Clash (sharedParts m scopes) (pathParts b.text) (pathParts a.text)

def FoldersApart (m : CaseMapping) (root : List Char) (scopes : List ScopePath) : Prop :=
  ((scopes.map ScopePath.text).map
      (mapScopeToWorkspace m root (scopes.map ScopePath.text))).Pairwise
    fun other current => targetsOverlap current other = false

/-- A path leads to another one: on one drive or share, where letter case does not count on
Windows. -/
def LeadsTo (m : CaseMapping) (p q : List Char) : Prop :=
  ∃ drive a b, scopeDriveAndParts m p = .ok (drive, a) ∧ scopeDriveAndParts m q = .ok (drive, b) ∧
    if drive = [] then a <+: b else a.map m.casefold <+: b.map m.casefold

/-- The scopes are distinct, and none is in another. -/
def ReallyApart (m : CaseMapping) (scopes : List ScopePath) : Prop :=
  scopes.Pairwise fun a b => ¬ LeadsTo m a.text b.text ∧ ¬ LeadsTo m b.text a.text

section Clash

variable {m : CaseMapping} {scopes : List ScopePath} {common p q : List Part}

theorem singleton_isPrefix_iff {part : Part} : [part] <+: q ↔ q.head? = some part := by
  cases q with
  | nil => simp
  | cons first q => simp [List.cons_prefix_cons, eq_comm]

theorem folderParts_isPrefix_iff (hp : common.length ≤ p.length) (hq : common.length ≤ q.length) :
    folderParts common p <+: folderParts common q ↔ Clash common p q := by
  rw [folderParts, folderParts]
  constructor
  · intro h
    split at h
    · rename_i hpc
      split at h
      · rename_i hqc
        exact .same hpc hqc
      · rename_i hqc
        split at h
        · rename_i hlt
          refine .shared hpc hlt ?_
          rw [← List.head?_drop]
          exact singleton_isPrefix_iff.mp h
        · exact .sharedRecased hpc hqc (by omega) (singleton_isPrefix_iff.mp h)
    · rename_i hpc
      split at h
      · rename_i hplt
        split at h
        · rename_i hqc
          refine .named hplt hqc (h.eq_of_length_le ?_)
          rw [List.length_singleton, List.length_drop]
          omega
        · split at h
          · rename_i hqlt
            exact .beyond hplt hqlt h
          · exact .beyondRecased hplt ‹_› (by omega) h
      · have hlength : p.length = common.length := by omega
        split at h
        · rename_i hqc
          refine .recasedShared hpc hlength hqc ?_
          rcases List.prefix_cons_iff.mp h with hnil | ⟨rest, hcons, hrest⟩
          · rw [hnil] at hlength hpc
            exact absurd (List.length_eq_zero_iff.mp hlength.symm).symm hpc
          · rw [hcons, List.prefix_nil.mp hrest]
        · split at h
          · rename_i hqlt
            exact .recasedBeyond hpc hlength hqlt h
          · exact .recased hpc hlength (h.eq_of_length (by omega))
  · intro h
    cases h with
    | beyond hp' hq' h =>
      rw [if_neg (fun heq => by rw [heq] at hp'; omega), if_pos hp',
        if_neg (fun heq => by rw [heq] at hq'; omega), if_pos hq']
      exact h
    | shared hp' hq' h =>
      rw [if_pos hp', if_neg (fun heq => by rw [heq] at hq'; omega), if_pos hq']
      rw [← List.head?_drop] at h
      exact singleton_isPrefix_iff.mpr h
    | named hp' hq' h =>
      rw [if_neg (fun heq => by rw [heq] at hp'; omega), if_pos hp', if_pos hq', h]
    | same hp' hq' => rw [if_pos hp', if_pos hq']
    | sharedRecased hp' hq' hlength h =>
      rw [if_pos hp', if_neg hq', if_neg (by omega)]
      exact singleton_isPrefix_iff.mpr h
    | recasedShared hp' hlength hq' h =>
      rw [if_neg hp', if_neg (by omega), if_pos hq', ← h]
    | recasedBeyond hp' hlength hq' h =>
      rw [if_neg hp', if_neg (by omega), if_neg (fun heq => by rw [heq] at hq'; omega),
        if_pos hq']
      exact h
    | beyondRecased hp' hq' hlength h =>
      rw [if_neg (fun heq => by rw [heq] at hp'; omega), if_pos hp', if_neg hq',
        if_neg (by omega)]
      exact h
    | recased hp' hlength h =>
      rw [← h, if_neg hp', if_neg (by omega)]

theorem foldersApart_iff (m : CaseMapping) (root : List Char) (scopes : List ScopePath) :
    FoldersApart m root scopes ↔ Distinguishable m scopes := by
  rw [FoldersApart, Distinguishable, List.pairwise_map, List.pairwise_map]
  have hpair : ∀ {a b : ScopePath}, a ∈ scopes → b ∈ scopes →
      (targetsOverlap (mapScopeToWorkspace m root (scopes.map ScopePath.text) b.text)
          (mapScopeToWorkspace m root (scopes.map ScopePath.text) a.text) = false ↔
        ¬ Clash (sharedParts m scopes) (pathParts a.text) (pathParts b.text) ∧
          ¬ Clash (sharedParts m scopes) (pathParts b.text) (pathParts a.text)) := by
    intro a b ha hb
    have hla := (sharedParts_spec (m := m) ha).1
    have hlb := (sharedParts_spec (m := m) hb).1
    rw [mapScopeToWorkspace_eq root ha, mapScopeToWorkspace_eq root hb, ← Bool.not_eq_true,
      targetsOverlap_iff (clean_folderParts (clean_pathParts b.text))
        (clean_folderParts (clean_pathParts a.text)) (folderParts_ne_nil hlb)
        (folderParts_ne_nil hla),
      folderParts_isPrefix_iff hlb hla, folderParts_isPrefix_iff hla hlb, not_or, and_comm]
  constructor
  · exact fun h => h.imp_of_mem fun ha hb hab => (hpair ha hb).mp hab
  · exact fun h => h.imp_of_mem fun ha hb hab => (hpair ha hb).mpr hab

/-- Scopes that are distinct and not nested get such folders exactly when no two of them clash. -/
theorem folders_apart_iff (m : CaseMapping) (root : List Char) (scopes : List ScopePath) :
    (ReallyApart m scopes → FoldersApart m root scopes) ↔
      (ReallyApart m scopes → Distinguishable m scopes) :=
  imp_congr_right fun _ => foldersApart_iff m root scopes

/-- Two drives with a directory of one name. -/
theorem drives_not_apart : ¬ ∀ (m : CaseMapping) (root : List Char) (scopes : List ScopePath),
    ReallyApart m scopes → FoldersApart m root scopes := by
  intro h
  have hapart := h asciiCase "/w".toList
    [⟨"C:\\data".toList, by decide⟩, ⟨"D:\\data".toList, by decide⟩]
  have hdrives : ∀ {drive a b},
      scopeDriveAndParts asciiCase "C:\\data".toList = .ok (drive, a) →
        scopeDriveAndParts asciiCase "D:\\data".toList = .ok (drive, b) → False := by
    intro drive a b hc hd
    have hcd : scopeDriveAndParts asciiCase "C:\\data".toList =
        .ok ("c:".toList, ["data".toList]) := by decide
    have hdd : scopeDriveAndParts asciiCase "D:\\data".toList =
        .ok ("d:".toList, ["data".toList]) := by decide
    have hc' := (Prod.mk.inj (Except.ok.inj (hcd.symm.trans hc))).1
    have hd' := (Prod.mk.inj (Except.ok.inj (hdd.symm.trans hd))).1
    exact absurd (hc'.trans hd'.symm) (by decide)
  refine absurd (hapart (List.pairwise_pair.mpr ⟨?_, ?_⟩)) ?_
  · rintro ⟨drive, a, b, hc, hd, -⟩
    exact hdrives hc hd
  · rintro ⟨drive, a, b, hd, hc, -⟩
    exact hdrives hc hd
  · rw [FoldersApart]
    decide

end Clash

end HyperFileLens.Lens.ChatUpdate
