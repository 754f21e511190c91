import Mathlib.Data.List.Dedup
import Mathlib.Data.List.Induction

/-!
# Trees of files

A file system as the physical paths that exist and what is there, with the
resolution of paths through symbolic links.

*Trees.*  A path is the list of its names. Whatever exists has a directory above
it. `prune` takes a subtree out, but for the paths that are left and the
directories above them, which is how an interrupted removal ends.

*Resolution.*  `walk` resolves names from a directory on, with a bound on the
number of links, and `locate` resolves all but the last name.

*Shrinking.*  In a tree with less in it, a path resolves as before or not at all
(`walk_mono`, `locate_mono`).
-/

namespace FileTree

abbrev Name := List Char

abbrev Path := List Name

/-- What is at a path. Files hold contents of type `α`. -/
inductive Entry (α : Type) where
  | dir
  | file (content : α)
  | symlink (target : List Char)
  /-- A device, a socket or a pipe. -/
  | special
deriving DecidableEq

structure FsTree (α : Type) where
  get : Path → Option (Entry α)
  support : List Path
  nodup : support.Nodup
  get_root : get [] = some .dir
  mem_support : ∀ p e, get p = some e → p ∈ support
  closed : ∀ p n e, get (p ++ [n]) = some e → get p = some .dir

def lookup {α : Type} (entries : List (Path × Entry α)) (p : Path) : Option (Entry α) :=
  (entries.find? fun e => e.1 = p).map Prod.snd

theorem mem_of_lookup {α : Type} {entries : List (Path × Entry α)} {p : Path} {e : Entry α}
    (h : lookup entries p = some e) : (p, e) ∈ entries := by
  obtain ⟨x, hx, rfl⟩ := Option.map_eq_some_iff.mp h
  have hp : x.1 = p := by simpa using List.find?_some hx
  exact hp ▸ List.mem_of_find?_eq_some hx

def FsTree.ofEntries {α : Type} (entries : List (Path × Entry α))
    (hroot : lookup entries [] = some .dir)
    (hclosed : ∀ e ∈ entries, e.1 ≠ [] → lookup entries e.1.dropLast = some .dir) : FsTree α where
  get := lookup entries
  support := (entries.map Prod.fst).dedup
  nodup := List.nodup_dedup _
  get_root := hroot
  mem_support := fun _ _ h =>
    List.mem_dedup.mpr (List.mem_map_of_mem (f := Prod.fst) (mem_of_lookup h))
  closed := fun p n e h => by
    have hdir := hclosed _ (mem_of_lookup h) (by simp)
    rwa [List.dropLast_concat] at hdir

inductive LookupError where
  /-- `ENOENT`. -/
  | notExist
  /-- `ENOTDIR`. -/
  | notDir
  /-- `ELOOP`. -/
  | loop
deriving DecidableEq

namespace FsTree

variable {α : Type}

/-! ## Directories -/

def names (t : FsTree α) (p : Path) : List Name :=
  t.support.filterMap fun q =>
    if q.dropLast = p ∧ (t.get q).isSome then q.getLast? else none

variable {t : FsTree α} {p : Path}

theorem mem_names {n : Name} : n ∈ t.names p ↔ ∃ e, t.get (p ++ [n]) = some e := by
  simp only [names, List.mem_filterMap, Option.ite_none_right_eq_some]
  constructor
  · rintro ⟨q, -, ⟨rfl, hsome⟩, hlast⟩
    obtain ⟨e, he⟩ := Option.isSome_iff_exists.mp hsome
    refine ⟨e, ?_⟩
    rwa [List.dropLast_append_getLast? n hlast]
  · rintro ⟨e, he⟩
    exact ⟨p ++ [n], t.mem_support _ e he, ⟨by simp, by simp [he]⟩, by simp⟩

theorem get_of_prefix {q : Path} {e : Entry α} (h : t.get (p ++ q) = some e) (hq : q ≠ []) :
    t.get p = some .dir := by
  induction q using List.reverseRecOn generalizing e with
  | nil => exact absurd rfl hq
  | append_singleton q n ih =>
    rw [← List.append_assoc] at h
    have hdir := t.closed (p ++ q) n e h
    cases q with
    | nil => simpa using hdir
    | cons m q => exact ih hdir (by simp)

/-! ## Removal -/

/-- A removal of `target` takes out the path. -/
def IsPruned (target : Path) (left : List Path) (p : Path) : Prop :=
  p ≠ [] ∧ target <+: p ∧ ∀ q ∈ left, ¬ p <+: q

instance (target : Path) (left : List Path) (p : Path) : Decidable (IsPruned target left p) :=
  inferInstanceAs (Decidable (_ ∧ _ ∧ _))

/-- The tree after a removal of `target` that leaves the paths `left`. -/
def prune (t : FsTree α) (target : Path) (left : List Path) : FsTree α where
  get := fun p => if IsPruned target left p then none else t.get p
  support := t.support
  nodup := t.nodup
  get_root := by simp [IsPruned, t.get_root]
  mem_support := fun p e h => by
    split at h
    · simp at h
    · exact t.mem_support p e h
  closed := fun p n e h => by
    split at h
    · simp at h
    · rename_i hkept
      have hdir := t.closed p n e h
      rw [if_neg, hdir]
      rintro ⟨hne, hprefix, hleft⟩
      refine hkept ⟨by simp, hprefix.trans (List.prefix_append p [n]), fun q hq hpre => ?_⟩
      exact hleft q hq ((List.prefix_append p [n]).trans hpre)

theorem get_prune (t : FsTree α) (target : Path) (left : List Path) (p : Path) :
    (t.prune target left).get p = if IsPruned target left p then none else t.get p := rfl

theorem get_prune_of_not_prefix {target : Path} {left : List Path} (h : ¬ target <+: p) :
    (t.prune target left).get p = t.get p :=
  if_neg fun hp => h hp.2.1

/-! ## Shrinking -/

def Le (t' t : FsTree α) : Prop := ∀ p e, t'.get p = some e → t.get p = some e

theorem Le.refl (t : FsTree α) : Le t t := fun _ _ h => h

theorem Le.trans {t' t'' : FsTree α} (h : Le t t') (h' : Le t' t'') : Le t t'' :=
  fun p e hp => h' p e (h p e hp)

theorem prune_le (t : FsTree α) (target : Path) (left : List Path) : Le (t.prune target left) t := by
  intro p e h
  rw [get_prune] at h
  split at h
  · simp at h
  · exact h

/-! ## Resolution -/

def targetNames (target : List Char) : List Name := target.splitOn '/'

/-- Where one name leads from a directory. -/
inductive Hop where
  /-- To a directory. -/
  | dir (p : Path)
  | link (p : Path) (names : List Name)
  /-- To something else. -/
  | leaf (p : Path)
  | missing

/-- Look up a name in a directory. -/
def hop (t : FsTree α) (p : Path) (n : Name) : Hop :=
  if n = [] ∨ n = ['.'] then .dir p
  else if n = ['.', '.'] then .dir p.dropLast
  else
    match t.get (p ++ [n]) with
    | none => .missing
    | some .dir => .dir (p ++ [n])
    | some (.symlink target) =>
      .link (if target.head? = some '/' then [] else p) (targetNames target)
    | some _ => .leaf (p ++ [n])

/-- Resolve names from a directory on. `follow` goes on behind a link. -/
def walkNames (t : FsTree α) (follow : Path → List Name → Except LookupError Path) :
    Path → List Name → Except LookupError Path
  | p, [] => .ok p
  | p, n :: rest =>
    match t.hop p n with
    | .dir q => t.walkNames follow q rest
    | .link q names => follow q (names ++ rest)
    | .leaf q => if rest = [] then .ok q else .error .notDir
    | .missing => .error .notExist

/-- Resolve names through at most `links` links. -/
def walk (t : FsTree α) : Nat → Path → List Name → Except LookupError Path
  | 0 => t.walkNames fun _ _ => .error .loop
  | links + 1 => t.walkNames (t.walk links)

/-- The number of links a resolution may follow. -/
def maxLinks : Nat := 40

def resolve (t : FsTree α) (path : Path) : Except LookupError Path := t.walk maxLinks [] path

/-- Where a path is, without following its last name. -/
def locate (t : FsTree α) (path : Path) : Except LookupError Path :=
  match path.getLast? with
  | none => .ok []
  | some n =>
    match t.resolve path.dropLast with
    | .error error => .error error
    | .ok parent =>
      match t.get parent with
      | some .dir => .ok (parent ++ [n])
      | _ => .error .notDir

/-- What is at a path, without following its last name. -/
def lstat (t : FsTree α) (path : Path) : Except LookupError (Entry α) :=
  match t.locate path with
  | .error error => .error error
  | .ok p =>
    match t.get p with
    | none => .error .notExist
    | some e => .ok e

section Mono

variable {t t' : FsTree α}

variable {q : Path}

theorem hop_mono (h : Le t' t) (p : Path) (n : Name) :
    t'.hop p n = .missing ∨ t'.hop p n = t.hop p n := by
  unfold hop
  split
  · exact .inr rfl
  split
  · exact .inr rfl
  cases hget : t'.get (p ++ [n]) with
  | none => exact .inl rfl
  | some e => exact .inr (by rw [h _ _ hget])

theorem walkNames_mono (h : Le t' t) {follow follow' : Path → List Name → Except LookupError Path}
    (hfollow : ∀ p ns q, follow' p ns = .ok q → follow p ns = .ok q) {ns : List Name} {p : Path}
    (hw : t'.walkNames follow' p ns = .ok q) : t.walkNames follow p ns = .ok q := by
  induction ns generalizing p with
  | nil => exact hw
  | cons n rest ih =>
    rw [walkNames] at hw ⊢
    rcases hop_mono h p n with hmissing | heq
    · simp [hmissing] at hw
    · rw [← heq]
      cases hhop : t'.hop p n with
      | dir r => exact ih (by simpa [hhop] using hw)
      | link r names => exact hfollow _ _ _ (by simpa [hhop] using hw)
      | leaf r => simpa [hhop] using hw
      | missing => simp [hhop] at hw

/-- Where a path leads in a smaller tree, it leads in the larger one. -/
theorem walk_mono (h : Le t' t) (links : Nat) {ns : List Name} {p : Path}
    (hw : t'.walk links p ns = .ok q) : t.walk links p ns = .ok q := by
  induction links generalizing p ns q with
  | zero => exact walkNames_mono h (fun _ _ _ hf => hf) hw
  | succ links ih => exact walkNames_mono h (fun _ _ _ hf => ih hf) hw

theorem resolve_mono (h : Le t' t) {path : Path} (hr : t'.resolve path = .ok q) :
    t.resolve path = .ok q := walk_mono h maxLinks hr

theorem locate_mono (h : Le t' t) {path : Path} (hl : t'.locate path = .ok q) :
    t.locate path = .ok q := by
  unfold locate at hl ⊢
  cases hlast : path.getLast? with
  | none => simpa [hlast] using hl
  | some n =>
    simp only [hlast] at hl ⊢
    cases hparent : t'.resolve path.dropLast with
    | error error => simp [hparent] at hl
    | ok parent =>
      simp only [hparent, resolve_mono h hparent] at hl ⊢
      split at hl
      · rename_i hdir
        rwa [h _ _ hdir]
      · simp at hl

end Mono

/-! ## One more name -/

def IsPlain (n : Name) : Prop := n ≠ [] ∧ n ≠ ['.'] ∧ n ≠ ['.', '.']

instance (n : Name) : Decidable (IsPlain n) := inferInstanceAs (Decidable (_ ∧ _ ∧ _))

section Snoc

variable {t : FsTree α} {q : Path} {n : Name} {e : Entry α}

variable {p r : Path} {follow : Path → List Name → Except LookupError Path} {ns : List Name}

theorem get_of_hop_leaf {m : Name} (h : t.hop p m = .leaf r) : t.get r ≠ some .dir := by
  unfold hop at h
  split at h
  · simp at h
  split at h
  · simp at h
  split at h
  · simp at h
  · simp at h
  · simp at h
  · rename_i e hdir hlink hget
    obtain rfl := Hop.leaf.inj h
    rw [hget]
    exact fun heq => hdir (Option.some.inj heq)

theorem hop_of_plain (hn : IsPlain n) (he : t.get (q ++ [n]) = some e)
    (hlink : ∀ target, e ≠ .symlink target) :
    t.hop q n = .dir (q ++ [n]) ∨ t.hop q n = .leaf (q ++ [n]) := by
  obtain ⟨hempty, hdot, hdots⟩ := hn
  simp only [hop, hempty, hdot, hdots, or_self, if_false, he]
  cases e with
  | dir => exact .inl rfl
  | file content => exact .inr rfl
  | symlink target => exact absurd rfl (hlink target)
  | special => exact .inr rfl

theorem walkNames_snoc
    (hfollow : ∀ p ns, follow p ns = .ok q → follow p (ns ++ [n]) = .ok (q ++ [n])) (hn : IsPlain n)
    (he : t.get (q ++ [n]) = some e) (hlink : ∀ target, e ≠ .symlink target)
    (hw : t.walkNames follow p ns = .ok q) : t.walkNames follow p (ns ++ [n]) = .ok (q ++ [n]) := by
  induction ns generalizing p with
  | nil =>
    cases hw
    rcases hop_of_plain hn he hlink with hhop | hhop
    · simp [walkNames, hhop]
    · simp [walkNames, hhop]
  | cons m rest ih =>
    rw [walkNames] at hw
    rw [List.cons_append, walkNames]
    cases hhop : t.hop p m with
    | dir r => exact ih (by simpa [hhop] using hw)
    | link r names =>
      simp only [hhop] at hw ⊢
      rw [← List.append_assoc]
      exact hfollow _ _ hw
    | leaf r =>
      -- the path goes on below `q`, so it is a directory
      simp only [hhop] at hw
      split at hw
      · cases hw
        exact absurd (t.closed _ _ _ he) (get_of_hop_leaf hhop)
      · simp at hw
    | missing => simp [hhop] at hw

theorem walk_snoc (hn : IsPlain n) (he : t.get (q ++ [n]) = some e)
    (hlink : ∀ target, e ≠ .symlink target) (links : Nat) (hw : t.walk links p ns = .ok q) :
    t.walk links p (ns ++ [n]) = .ok (q ++ [n]) := by
  induction links generalizing p ns with
  | zero => exact walkNames_snoc (fun _ _ h => by simp at h) hn he hlink hw
  | succ links ih => exact walkNames_snoc (fun _ _ h => ih h) hn he hlink hw

theorem exists_of_hop (hn : IsPlain n) (h : t.hop p n ≠ .missing) :
    ∃ e, t.get (p ++ [n]) = some e := by
  obtain ⟨hempty, hdot, hdots⟩ := hn
  simp only [hop, hempty, hdot, hdots, or_self, if_false] at h
  cases hget : t.get (p ++ [n]) with
  | none => simp [hget] at h
  | some e => exact ⟨e, rfl⟩

theorem walkNames_snoc_inv (hfollow : ∀ p ns r, follow p (ns ++ [n]) = .ok r →
      ∃ q e, follow p ns = .ok q ∧ t.get (q ++ [n]) = some e) (hn : IsPlain n)
    (hw : t.walkNames follow p (ns ++ [n]) = .ok r) :
    ∃ q e, t.walkNames follow p ns = .ok q ∧ t.get (q ++ [n]) = some e := by
  induction ns generalizing p with
  | nil =>
    rw [List.nil_append, walkNames] at hw
    have hhop : t.hop p n ≠ .missing := fun hmissing => by simp [hmissing] at hw
    obtain ⟨e, he⟩ := exists_of_hop hn hhop
    exact ⟨p, e, rfl, he⟩
  | cons m rest ih =>
    rw [List.cons_append, walkNames] at hw
    rw [walkNames]
    cases hhop : t.hop p m with
    | dir q => exact ih (by simpa [hhop] using hw)
    | link q names =>
      simp only [hhop] at hw ⊢
      rw [← List.append_assoc] at hw
      exact hfollow _ _ _ hw
    | leaf q => simp [hhop] at hw
    | missing => simp [hhop] at hw

theorem walk_snoc_inv (hn : IsPlain n) (links : Nat) (hw : t.walk links p (ns ++ [n]) = .ok r) :
    ∃ q e, t.walk links p ns = .ok q ∧ t.get (q ++ [n]) = some e := by
  induction links generalizing p ns r with
  | zero => exact walkNames_snoc_inv (fun _ _ _ h => by simp at h) hn hw
  | succ links ih =>
    exact walkNames_snoc_inv (fun p' ns' r' (h : t.walk links p' (ns' ++ [n]) = .ok r') => ih h)
      hn hw

/-! ## Paths and their entries -/

theorem resolve_nil (t : FsTree α) : t.resolve [] = .ok [] := rfl

variable {path : Path}

theorem locate_snoc (h : t.resolve path = .ok q) (hdir : t.get q = some .dir) :
    t.locate (path ++ [n]) = .ok (q ++ [n]) := by
  simp [locate, h, hdir]

theorem lstat_eq_ok_iff : t.lstat path = .ok e ↔ ∃ p, t.locate path = .ok p ∧ t.get p = some e := by
  unfold lstat
  cases t.locate path with
  | error error => simp
  | ok p => cases hget : t.get p <;> simp [hget]

theorem lstat_snoc (h : t.resolve path = .ok q) (he : t.get (q ++ [n]) = some e) :
    t.lstat (path ++ [n]) = .ok e :=
  lstat_eq_ok_iff.mpr ⟨_, locate_snoc h (t.closed _ _ _ he), he⟩

theorem resolve_of_locate (hplain : ∀ m ∈ path, IsPlain m) (h : t.locate path = .ok q)
    (he : t.get q = some e) (hlink : ∀ target, e ≠ .symlink target) : t.resolve path = .ok q := by
  rcases List.eq_nil_or_concat path with rfl | ⟨path, m, rfl⟩
  · obtain rfl : [] = q := by simpa [locate] using h
    rfl
  · rw [List.concat_eq_append] at *
    unfold locate at h
    simp only [List.getLast?_append, List.getLast?_singleton, Option.some_or,
      List.dropLast_concat] at h
    cases hparent : t.resolve path with
    | error error => simp [hparent] at h
    | ok parent =>
      simp only [hparent] at h
      split at h
      · cases h
        exact walk_snoc (hplain m (by simp)) he hlink maxLinks hparent
      · simp at h

theorem resolve_of_append {path rest : Path} (hplain : ∀ m ∈ rest, IsPlain m)
    (h : t.resolve (path ++ rest) = .ok q) : ∃ q', t.resolve path = .ok q' := by
  induction rest using List.reverseRecOn generalizing q with
  | nil => exact ⟨q, by simpa using h⟩
  | append_singleton rest m ih =>
    rw [← List.append_assoc] at h
    obtain ⟨q', -, hq', -⟩ := walk_snoc_inv (hplain m (by simp)) maxLinks h
    exact ih (fun k hk => hplain k (by simp [hk])) hq'

theorem resolve_of_get (hplain : ∀ m ∈ path, IsPlain m) (he : t.get path = some e)
    (hlink : ∀ target, e ≠ .symlink target) : t.resolve path = .ok path := by
  induction path using List.reverseRecOn generalizing e with
  | nil => exact resolve_nil t
  | append_singleton path m ih =>
    have hdir := t.closed path m e he
    have hparent := ih (fun k hk => hplain k (by simp [hk])) hdir fun _ h => nomatch h
    exact walk_snoc (hplain m (by simp)) he hlink maxLinks hparent

theorem lstat_of_dir {m : Name} (hplain : ∀ k ∈ path, IsPlain k) (hdir : t.get path = some .dir) :
    t.lstat (path ++ [m]) =
      match t.get (path ++ [m]) with
      | none => .error .notExist
      | some e => .ok e := by
  have hresolve := resolve_of_get hplain hdir fun _ h => nomatch h
  rw [lstat, locate_snoc hresolve hdir]

theorem lstat_of_get (hplain : ∀ k ∈ path, IsPlain k) (he : t.get path = some e) :
    t.lstat path = .ok e := by
  rcases List.eq_nil_or_concat path with rfl | ⟨path, m, rfl⟩
  · exact lstat_eq_ok_iff.mpr ⟨[], rfl, he⟩
  · rw [List.concat_eq_append] at *
    rw [lstat_of_dir (fun k hk => hplain k (by simp [hk])) (t.closed path m e he), he]

/-! ## Missing paths -/

theorem walkNames_of_missing (hplain : ∀ n ∈ ns, IsPlain n) (hdir : t.get p = some .dir)
    (habove : ∀ d, d <+: ns → d ≠ ns → t.get (p ++ d) = none ∨ t.get (p ++ d) = some .dir)
    (hnone : t.get (p ++ ns) = none) : t.walkNames follow p ns = .error .notExist := by
  induction ns generalizing p with
  | nil =>
    rw [List.append_nil] at hnone
    exact nomatch hdir.symm.trans hnone
  | cons n rest ih =>
    obtain ⟨hempty, hdot, hdots⟩ := hplain n List.mem_cons_self
    rw [walkNames, hop, if_neg (not_or.mpr ⟨hempty, hdot⟩), if_neg hdots]
    cases rest with
    | nil => rw [hnone]
    | cons m rest =>
      rcases habove [n] ⟨m :: rest, rfl⟩ (by simp) with hn | hn
      · rw [hn]
      · rw [hn]
        refine ih (fun k hk => hplain k (List.mem_cons_of_mem n hk)) hn (fun d hd hne => ?_) ?_
        · have := habove (n :: d) (List.cons_prefix_cons.mpr ⟨rfl, hd⟩) (by simpa using hne)
          simpa using this
        · simpa using hnone

theorem lstat_of_missing (hplain : ∀ k ∈ path, IsPlain k)
    (habove : ∀ d, d <+: path → d ≠ path → t.get d = none ∨ t.get d = some .dir)
    (hnone : t.get path = none) : t.lstat path = .error .notExist := by
  rcases List.eq_nil_or_concat path with rfl | ⟨path, m, rfl⟩
  · exact nomatch hnone.symm.trans t.get_root
  rw [List.concat_eq_append] at *
  have hparent : ∀ k ∈ path, IsPlain k := fun k hk => hplain k (by simp [hk])
  rcases habove path (List.prefix_append path [m]) (by simp) with hget | hdir
  · have hresolve : t.resolve path = .error .notExist :=
      walkNames_of_missing hparent t.get_root (fun d hd _ => habove d
        (hd.trans (List.prefix_append path [m])) fun heq => by
          have hlength := hd.length_le
          rw [heq, List.length_append, List.length_singleton] at hlength
          omega) hget
    simp [lstat, locate, hresolve]
  · rw [lstat_of_dir hparent hdir, hnone]

/-! ## Paths without links -/

/-- No link is met along the names, up to one that does not exist. -/
def LinkFree (t : FsTree α) : Path → List Name → Prop
  | _, [] => True
  | path, n :: rest =>
    t.lstat (path ++ [n]) = .error .notExist ∨
      (∀ target, t.lstat (path ++ [n]) ≠ .ok (.symlink target)) ∧
        t.LinkFree (path ++ [n]) rest

theorem resolve_append_of_linkFree {path rest : Path} (hplain : ∀ m ∈ rest, IsPlain m)
    (hfree : t.LinkFree path rest) (h : t.resolve (path ++ rest) = .ok q) :
    ∃ r, t.resolve path = .ok r ∧ q = r ++ rest := by
  induction rest generalizing path with
  | nil => exact ⟨q, by simpa using h, by simp⟩
  | cons m rest ih =>
    have hm : IsPlain m := hplain m (by simp)
    have hrest : ∀ k ∈ rest, IsPlain k := fun k hk => hplain k (by simp [hk])
    rw [List.append_cons] at h
    obtain ⟨r', hr'⟩ := resolve_of_append hrest h
    obtain ⟨r, e, hr, he⟩ := walk_snoc_inv hm maxLinks hr'
    have hstat := lstat_snoc hr he
    rcases hfree with hmissing | ⟨hlink, hfree⟩
    · simp [hstat] at hmissing
    · obtain ⟨r'', hr'', rfl⟩ := ih hrest hfree h
      have hdown : t.resolve (path ++ [m]) = .ok (r ++ [m]) :=
        walk_snoc hm he (fun target heq => hlink target (heq ▸ hstat)) maxLinks hr
      obtain rfl := Except.ok.inj (hdown.symm.trans hr'')
      exact ⟨r, hr, by simp⟩

end Snoc

end FsTree

end FileTree
