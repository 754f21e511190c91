import Mathlib.Data.List.Sort
import HyperFileLens.Library.FileTree

/-!
# Changes of a file tree

What calls that make, replace, remove or move an entry do to a tree.

*Changes.*  `put` has an entry at a path whose directory exists, and `move` takes a
subtree to another path. Both leave a tree as it is where they do not apply.

*Calls.*  `mkdir`, `create`, `replace`, `unlink` and `rename` check what the system calls
check, and answer with an error or with the tree after the change. `look` and `entries`
read what is at a path that goes through directories only.
-/

namespace FileTree

inductive ChangeError where
  | lookup (error : LookupError)
  /-- `EEXIST`. -/
  | exist
  /-- `ENOTEMPTY`. -/
  | notEmpty
  /-- `EISDIR`. -/
  | isDir
deriving DecidableEq

def Entry.isDir {α : Type} : Entry α → Bool
  | .dir => true
  | _ => false

namespace FsTree

variable {α : Type} {t : FsTree α} {p q a b : Path} {e : Entry α}

def hasDir (t : FsTree α) (p : Path) : Bool :=
  match t.get p with
  | some e => e.isDir
  | none => false

variable {t' : FsTree α}

theorem hasDir_iff : t.hasDir p = true ↔ t.get p = some .dir := by
  rw [hasDir]
  cases t.get p with
  | none => simp
  | some e => cases e <;> simp [Entry.isDir]

theorem not_hasDir_of_none (h : t.get p = none) : t.hasDir p = false := by
  rw [hasDir, h]

theorem names_eq_nil (h : ∀ n, t.get (p ++ [n]) = none) : t.names p = [] := by
  rw [List.eq_nil_iff_forall_not_mem]
  intro n hn
  obtain ⟨e, he⟩ := mem_names.mp hn
  exact nomatch (h n).symm.trans he

theorem names_of_not_dir (h : t.get p ≠ some .dir) : t.names p = [] :=
  names_eq_nil fun n => by
    cases hget : t.get (p ++ [n]) with
    | none => rfl
    | some e => exact absurd (t.closed p n e hget) h

/-! ## Lookups that follow no links -/

/-- Something above a path is no directory. -/
def blocked (t : FsTree α) (p : Path) : Bool :=
  (List.range p.length).any fun k =>
    match t.get (p.take k) with
    | some e => !e.isDir
    | none => false

/-- `lstat` of a path that goes through directories only. -/
def look (t : FsTree α) (p : Path) : Except LookupError (Entry α) :=
  match t.get p with
  | some e => .ok e
  | none => .error (if t.blocked p then .notDir else .notExist)

theorem look_of_get (h : t.get p = some e) : t.look p = .ok e := by
  rw [look, h]

theorem look_eq_ok : t.look p = .ok e ↔ t.get p = some e := by
  rw [look]
  cases t.get p with
  | none => simp
  | some e' => simp

theorem get_of_look_error {error : LookupError} (h : t.look p = .error error) : t.get p = none := by
  rw [look] at h
  cases hget : t.get p with
  | none => rfl
  | some e =>
    rw [hget] at h
    cases h

theorem get_take_of_dir (h : t.get p = some .dir) (k : Nat) : t.get (p.take k) = some .dir := by
  by_cases hk : p.length ≤ k
  · rwa [List.take_of_length_le hk]
  · have hwhole : t.get (p.take k ++ p.drop k) = some .dir := by
      rw [List.take_append_drop]
      exact h
    exact get_of_prefix hwhole fun hnil => hk (List.drop_eq_nil_iff.mp hnil)

theorem look_of_missing (h : t.get p = none) (hdir : t.get p.dropLast = some .dir) :
    t.look p = .error .notExist := by
  have hblocked : t.blocked p = false := by
    rw [blocked, List.any_eq_false]
    intro k hk
    rw [List.mem_range] at hk
    have htake : p.take k = p.dropLast.take k := by
      rw [List.dropLast_eq_take, List.take_take]
      congr 1
      omega
    rw [htake, get_take_of_dir hdir k]
    simp [Entry.isDir]
  rw [look, h, hblocked]
  rfl

/-- The order of `os.ReadDir`. -/
def nameLe (a b : Name × Bool) : Bool := !List.lex b.1 a.1 fun c d => c.toNat < d.toNat

/-- `os.ReadDir`, with what is a directory. -/
def entries (t : FsTree α) (p : Path) : Except LookupError (List (Name × Bool)) :=
  match t.look p with
  | .error error => .error error
  | .ok .dir => .ok (((t.names p).map fun n => (n, t.hasDir (p ++ [n]))).insertionSort
      fun a b => nameLe a b = true)
  | .ok _ => .error .notDir

variable {found : List (Name × Bool)}

theorem mem_entries (h : t.entries p = .ok found) {n : Name} {b : Bool} :
    (n, b) ∈ found ↔ (∃ e, t.get (p ++ [n]) = some e) ∧ b = t.hasDir (p ++ [n]) := by
  rw [entries] at h
  cases hlook : t.look p with
  | error error =>
    rw [hlook] at h
    cases h
  | ok e =>
    rw [hlook] at h
    cases e with
    | dir =>
      cases h
      rw [List.mem_insertionSort, List.mem_map, ← mem_names]
      constructor
      · rintro ⟨m, hm, heq⟩
        cases heq
        exact ⟨hm, rfl⟩
      · rintro ⟨hn, rfl⟩
        exact ⟨n, hn, rfl⟩
    | file content => cases h
    | symlink target => cases h
    | special => cases h

theorem entries_of_dir (h : t.get p = some .dir) : ∃ found, t.entries p = .ok found := by
  rw [entries, look_of_get h]
  exact ⟨_, rfl⟩

theorem dir_of_entries (h : t.entries p = .ok found) : t.get p = some .dir := by
  rw [entries] at h
  cases hlook : t.look p with
  | error error =>
    rw [hlook] at h
    cases h
  | ok e =>
    rw [hlook] at h
    cases e with
    | dir => exact look_eq_ok.mp hlook
    | file content => cases h
    | symlink target => cases h
    | special => cases h

/-! ## One entry -/

structure Puttable (t : FsTree α) (p : Path) (e : Entry α) : Prop where
  ne_nil : p ≠ []
  parent : t.hasDir p.dropLast = true
  leaf : e.isDir = true ∨ t.names p = []

instance (t : FsTree α) (p : Path) (e : Entry α) : Decidable (t.Puttable p e) :=
  decidable_of_iff (p ≠ [] ∧ t.hasDir p.dropLast = true ∧ (e.isDir = true ∨ t.names p = []))
    ⟨fun ⟨h, h', h''⟩ => ⟨h, h', h''⟩, fun ⟨h, h', h''⟩ => ⟨h, h', h''⟩⟩

def put (t : FsTree α) (p : Path) (e : Entry α) : FsTree α :=
  if h : t.Puttable p e then
    { get := fun q => if q = p then some e else t.get q
      support := if p ∈ t.support then t.support else p :: t.support
      nodup := by
        split
        · exact t.nodup
        · rename_i hnew
          exact List.nodup_cons.mpr ⟨hnew, t.nodup⟩
      get_root := by
        rw [if_neg h.ne_nil.symm]
        exact t.get_root
      mem_support := fun q e' hq => by
        split at hq
        · rename_i heq
          subst heq
          split
          · assumption
          · exact List.mem_cons_self
        · have hmem := t.mem_support q e' hq
          split
          · exact hmem
          · exact List.mem_cons_of_mem p hmem
      closed := fun q n e' hq => by
        have hparent := hasDir_iff.mp h.parent
        by_cases hp : q ++ [n] = p
        · have hq' : q = p.dropLast := by rw [← hp, List.dropLast_concat]
          have hne : q ≠ p := fun heq => by
            have := congrArg List.length (heq.trans hp.symm)
            simp at this
          rw [if_neg hne, hq', hparent]
        · rw [if_neg hp] at hq
          have hdir := t.closed q n e' hq
          split
          · rename_i heq
            rcases h.leaf with hisDir | hnames
            · cases e with
              | dir => rfl
              | file content => cases hisDir
              | symlink target => cases hisDir
              | special => cases hisDir
            · have hn : n ∈ t.names p := mem_names.mpr ⟨e', heq ▸ hq⟩
              rw [hnames] at hn
              cases hn
          · exact hdir }
  else t

theorem get_put (h : t.Puttable p e) (q : Path) :
    (t.put p e).get q = if q = p then some e else t.get q := by
  rw [put, dif_pos h]

theorem get_put_self (h : t.Puttable p e) : (t.put p e).get p = some e := by
  rw [get_put h, if_pos rfl]

theorem get_put_of_ne (h : q ≠ p) : (t.put p e).get q = t.get q := by
  rw [put]
  split
  · exact if_neg h
  · rfl

/-! ## Moves -/

structure Movable (t : FsTree α) (a b : Path) : Prop where
  apart : ¬ a <+: b
  parent : t.hasDir b.dropLast = true
  apart' : ¬ b <+: a
  vacant : t.names b = []

instance (t : FsTree α) (a b : Path) : Decidable (t.Movable a b) :=
  decidable_of_iff (¬ a <+: b ∧ t.hasDir b.dropLast = true ∧ ¬ b <+: a ∧ t.names b = [])
    ⟨fun ⟨h, h', h'', h'''⟩ => ⟨h, h', h'', h'''⟩, fun ⟨h, h', h'', h'''⟩ => ⟨h, h', h'', h'''⟩⟩

/-- Where what is at a path has been before `a` was moved to `b`. -/
def movedGet (t : FsTree α) (a b p : Path) : Option (Entry α) :=
  if b <+: p then t.get (a ++ p.drop b.length)
  else if a <+: p then none
  else t.get p

/-- Take the subtree at `a` to `b`. -/
def move (t : FsTree α) (a b : Path) : FsTree α :=
  if h : t.Movable a b then
    { get := t.movedGet a b
      support := ((t.support.map fun p => if a <+: p then b ++ p.drop a.length else p)).dedup
      nodup := List.nodup_dedup _
      get_root := by
        have hb : ¬ b <+: [] := fun hb => h.apart' (List.prefix_nil.mp hb ▸ List.nil_prefix)
        have ha : ¬ a <+: [] := fun ha => h.apart (List.prefix_nil.mp ha ▸ List.nil_prefix)
        rw [movedGet, if_neg hb, if_neg ha]
        exact t.get_root
      mem_support := fun p e hp => by
        rw [List.mem_dedup, List.mem_map]
        rw [movedGet] at hp
        split at hp
        · rename_i hbp
          obtain ⟨r, rfl⟩ := hbp
          rw [List.drop_left] at hp
          refine ⟨a ++ r, t.mem_support _ _ hp, ?_⟩
          rw [if_pos (List.prefix_append a r), List.drop_left]
        · split at hp
          · cases hp
          · rename_i hap
            exact ⟨p, t.mem_support _ _ hp, if_neg hap⟩
      closed := fun p n e hp => by
        rw [movedGet] at hp ⊢
        by_cases hbp : b <+: p
        · rw [if_pos (hbp.trans (List.prefix_append p [n]))] at hp
          rw [if_pos hbp]
          obtain ⟨r, rfl⟩ := hbp
          rw [List.drop_left]
          rw [List.append_assoc, List.drop_left, ← List.append_assoc] at hp
          exact t.closed _ _ _ hp
        · rw [if_neg hbp]
          by_cases hbn : b <+: p ++ [n]
          · have hb : b = p ++ [n] := (List.prefix_concat_iff.mp hbn).resolve_right hbp
            have hap : ¬ a <+: p := fun hap =>
              h.apart (hb ▸ hap.trans (List.prefix_append p [n]))
            rw [if_neg hap]
            have hparent := hasDir_iff.mp h.parent
            rwa [hb, List.dropLast_concat] at hparent
          · rw [if_neg hbn] at hp
            split at hp
            · cases hp
            · rename_i hapn
              rw [if_neg fun hap => hapn (hap.trans (List.prefix_append p [n]))]
              exact t.closed _ _ _ hp }
  else t

theorem get_move (h : t.Movable a b) (p : Path) : (t.move a b).get p = t.movedGet a b p := by
  rw [move, dif_pos h]

theorem get_move_to (h : t.Movable a b) (r : Path) : (t.move a b).get (b ++ r) = t.get (a ++ r) := by
  rw [get_move h, movedGet, if_pos (List.prefix_append b r), List.drop_left]

theorem get_move_from (h : t.Movable a b) (r : Path) : (t.move a b).get (a ++ r) = none := by
  have hb : ¬ b <+: a ++ r := by
    intro hb
    rcases List.prefix_or_prefix_of_prefix hb (List.prefix_append a r) with hba | hab
    · exact h.apart' hba
    · exact h.apart hab
  rw [get_move h, movedGet, if_neg hb, if_pos (List.prefix_append a r)]

theorem get_move_of_apart (ha : ¬ a <+: p) (hb : ¬ b <+: p) : (t.move a b).get p = t.get p := by
  rw [move]
  split
  · exact (if_neg hb).trans (if_neg ha)
  · rfl

/-! ## Calls -/

def parentError (t : FsTree α) (p : Path) : ChangeError :=
  match t.get p.dropLast with
  | none => .lookup .notExist
  | some _ => .lookup .notDir

def mkdir (t : FsTree α) (p : Path) : Except ChangeError (FsTree α) :=
  if (t.get p).isSome then .error .exist
  else if t.hasDir p.dropLast then .ok (t.put p .dir)
  else .error (t.parentError p)

/-- `open` with `O_CREAT` and `O_EXCL`. -/
def create (t : FsTree α) (p : Path) (content : α) : Except ChangeError (FsTree α) :=
  if (t.get p).isSome then .error .exist
  else if t.hasDir p.dropLast then .ok (t.put p (.file content))
  else .error (t.parentError p)

def replace (t : FsTree α) (p : Path) (content : α) : Except ChangeError (FsTree α) :=
  if t.hasDir p then .error .isDir
  else if t.hasDir p.dropLast then .ok (t.put p (.file content))
  else .error (t.parentError p)

/-- `unlink`, and `rmdir` of a directory. -/
def unlink (t : FsTree α) (p : Path) : Except ChangeError (FsTree α) :=
  if (t.get p).isNone then .error (.lookup .notExist)
  else if t.names p ≠ [] then .error .notEmpty
  else .ok (t.prune p [])

/-- `rename` of a directory. -/
def rename (t : FsTree α) (a b : Path) : Except ChangeError (FsTree α) :=
  if (t.get a).isNone then .error (.lookup .notExist)
  else if (t.get b).isSome && !t.hasDir b then .error (.lookup .notDir)
  else if t.Movable a b then .ok (t.move a b)
  else if t.hasDir b.dropLast then .error .notEmpty
  else .error (t.parentError b)

theorem ne_nil_of_none (h : t.get p = none) : p ≠ [] := by
  rintro rfl
  exact nomatch t.get_root.symm.trans h

theorem puttable_of_none (h : t.get p = none) (hdir : t.hasDir p.dropLast = true) :
    t.Puttable p e :=
  ⟨ne_nil_of_none h, hdir, .inr (names_of_not_dir fun hdir => nomatch h.symm.trans hdir)⟩

theorem mkdir_eq_ok (h : t.mkdir p = .ok t') :
    t.get p = none ∧ t.Puttable p .dir ∧ t' = t.put p .dir := by
  rw [mkdir] at h
  split at h
  · cases h
  rename_i hnone
  split at h
  · rename_i hdir
    have hget : t.get p = none := by simpa using hnone
    exact ⟨hget, puttable_of_none hget hdir, (Except.ok.inj h).symm⟩
  · cases h

theorem create_eq_ok {content : α} (h : t.create p content = .ok t') :
    t.get p = none ∧ t.Puttable p (.file content) ∧ t' = t.put p (.file content) := by
  rw [create] at h
  split at h
  · cases h
  rename_i hnone
  split at h
  · rename_i hdir
    have hget : t.get p = none := by simpa using hnone
    exact ⟨hget, puttable_of_none hget hdir, (Except.ok.inj h).symm⟩
  · cases h

theorem replace_eq_ok {content : α} (h : t.replace p content = .ok t') :
    t.get p ≠ some .dir ∧ t.Puttable p (.file content) ∧ t' = t.put p (.file content) := by
  rw [replace] at h
  split at h
  · cases h
  rename_i hnot
  split at h
  · rename_i hparent
    have hdir : t.get p ≠ some .dir := fun hget => hnot (hasDir_iff.mpr hget)
    have hne : p ≠ [] := by
      rintro rfl
      exact hdir t.get_root
    exact ⟨hdir, ⟨hne, hparent, .inr (names_of_not_dir hdir)⟩, (Except.ok.inj h).symm⟩
  · cases h

theorem get_prune_self (hne : p ≠ []) : (t.prune p []).get p = none := by
  rw [get_prune, if_pos ⟨hne, List.prefix_refl p, by simp⟩]

theorem unlink_eq_ok (h : t.unlink p = .ok t') : (t.get p).isSome = true ∧ t' = t.prune p [] := by
  rw [unlink] at h
  split at h
  · cases h
  rename_i hsome
  split at h
  · cases h
  · exact ⟨by simpa [Option.isSome_iff_ne_none] using hsome, (Except.ok.inj h).symm⟩

theorem leaf_of_unlink (h : t.unlink p = .ok t') : t.names p = [] := by
  rw [unlink] at h
  split at h
  · cases h
  split at h
  · cases h
  · rename_i hnames
    exact not_not.mp hnames

theorem get_prune_leaf (hleaf : t.names p = []) (hne : q ≠ p) : (t.prune p []).get q = t.get q := by
  rw [get_prune]
  split
  · rename_i hpruned
    obtain ⟨rest, rfl⟩ := hpruned.2.1
    cases rest with
    | nil => exact absurd (List.append_nil p) hne
    | cons n rest =>
      have hnone : t.get (p ++ [n]) = none := by
        by_contra hsome
        obtain ⟨e, he⟩ := Option.ne_none_iff_exists'.mp hsome
        have hn : n ∈ t.names p := mem_names.mpr ⟨e, he⟩
        rw [hleaf] at hn
        cases hn
      cases hget : t.get (p ++ n :: rest) with
      | none => rfl
      | some e =>
        have hbelow : t.get ((p ++ [n]) ++ rest) = some e := by
          rw [List.append_assoc]
          exact hget
        cases rest with
        | nil =>
          rw [List.append_nil, hnone] at hbelow
          cases hbelow
        | cons m rest =>
          have hdir := get_of_prefix hbelow (List.cons_ne_nil m rest)
          rw [hnone] at hdir
          cases hdir
  · rfl

theorem get_of_unlink_notExist (h : t.unlink p = .error (.lookup .notExist)) : t.get p = none := by
  rw [unlink] at h
  split at h
  · rename_i hnone
    simpa using hnone
  · split at h <;> cases h

theorem rename_eq_ok (h : t.rename a b = .ok t') :
    (t.get a).isSome = true ∧ t.Movable a b ∧ t' = t.move a b := by
  rw [rename] at h
  split at h
  · cases h
  rename_i hsome
  split at h
  · cases h
  split at h
  · rename_i hmovable
    exact ⟨by simpa [Option.isSome_iff_ne_none] using hsome, hmovable, (Except.ok.inj h).symm⟩
  · split at h <;> cases h

end FsTree

end FileTree
