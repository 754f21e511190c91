import Mathlib.Data.List.MinMax
import Mathlib.Data.List.Nodup

/-!
# Tables with a primary key

A table is the list of its rows. `find` reads the row of a key and `put` replaces it.
In a `Keyed` table a key belongs to at most one row.
-/

namespace Table

variable {ρ κ : Type*} (key : ρ → κ)

def Keyed (rows : List ρ) : Prop := ∀ p ∈ rows, ∀ q ∈ rows, key p = key q → p = q

variable {key} {rows : List ρ} {row before r : ρ} {k : κ}

variable {f : ρ → ρ}

theorem Keyed.nil : Keyed key [] := by
  intro p hp
  cases hp

theorem Keyed.cons (h : Keyed key rows) (hnew : ∀ p ∈ rows, key p ≠ key row) :
    Keyed key (row :: rows) := by
  intro p hp q hq hpq
  cases hp with
  | head =>
    cases hq with
    | head => rfl
    | tail _ hq => exact absurd hpq.symm (hnew q hq)
  | tail _ hp =>
    cases hq with
    | head => exact absurd hpq (hnew p hp)
    | tail _ hq => exact h p hp q hq hpq

theorem Keyed.of_nodup (h : (rows.map key).Nodup) : Keyed key rows :=
  fun _ hp _ hq hpq => List.inj_on_of_nodup_map h hp hq hpq

/-- A change of the rows that leaves their keys alone keeps the table keyed. -/
theorem Keyed.map (h : Keyed key rows) (hf : ∀ r, key (f r) = key r) : Keyed key (rows.map f) := by
  intro p' hp' q' hq' hpq
  obtain ⟨p, hp, rfl⟩ := List.mem_map.mp hp'
  obtain ⟨q, hq, rfl⟩ := List.mem_map.mp hq'
  rw [h p hp q hq (by rwa [hf, hf] at hpq)]

theorem length_filter_le_one (h : (rows.map key).Nodup) {p : ρ → Bool}
    (hp : ∀ r ∈ rows, ∀ r' ∈ rows, p r = true → p r' = true → key r = key r') :
    (rows.filter p).length ≤ 1 := by
  have hnodup : ((rows.filter p).map key).Nodup := h.sublist (List.filter_sublist.map key)
  cases hrows : rows.filter p with
  | nil => simp
  | cons r rest =>
    cases rest with
    | nil => simp
    | cons r' rest =>
      have hmem : ∀ x ∈ [r, r'], x ∈ rows ∧ p x = true := fun x hx => by
        refine List.mem_filter.mp (hrows ▸ ?_)
        simp only [List.mem_cons, List.not_mem_nil, or_false] at hx ⊢
        exact hx.elim .inl fun h => .inr (.inl h)
      obtain ⟨hr, hpr⟩ := hmem r (by simp)
      obtain ⟨hr', hpr'⟩ := hmem r' (by simp)
      rw [hrows] at hnodup
      simp [hp r hr r' hr' hpr hpr'] at hnodup

/-! ## Row by row -/

variable (key) in
/-- Every row has a successor and every row after a change is one, with the same key. -/
structure Related (R : ρ → ρ → Prop) (rows rows' : List ρ) : Prop where
  sameKey : ∀ r r', R r r' → key r' = key r
  back : ∀ r' ∈ rows', ∃ r ∈ rows, R r r'
  forth : ∀ r ∈ rows, ∃ r' ∈ rows', R r r'
  keyed : Keyed key rows → Keyed key rows'

section Related

variable {R : ρ → ρ → Prop} {rows' rows'' : List ρ}

theorem Related.refl (hkey : ∀ r r', R r r' → key r' = key r) (hrefl : ∀ r, R r r)
    (rows : List ρ) : Related key R rows rows :=
  ⟨hkey, fun r hr => ⟨r, hr, hrefl r⟩, fun r hr => ⟨r, hr, hrefl r⟩, fun h => h⟩

theorem Related.map (hkey : ∀ r r', R r r' → key r' = key r) {f : ρ → ρ}
    (hf : ∀ r ∈ rows, R r (f r)) : Related key R rows (rows.map f) := by
  refine ⟨hkey, fun r' hr' => ?_, fun r hr => ⟨f r, List.mem_map_of_mem hr, hf r hr⟩, ?_⟩
  · obtain ⟨r, hr, rfl⟩ := List.mem_map.mp hr'
    exact ⟨r, hr, hf r hr⟩
  · intro hkeyed p' hp' q' hq' hpq
    obtain ⟨p, hp, rfl⟩ := List.mem_map.mp hp'
    obtain ⟨q, hq, rfl⟩ := List.mem_map.mp hq'
    rw [hkey p _ (hf p hp), hkey q _ (hf q hq)] at hpq
    rw [hkeyed p hp q hq hpq]

end Related

/-! ## Keys -/

def fresh (used : List Nat) : Nat := used.foldr max 0 + 1

theorem lt_fresh {used : List Nat} {n : Nat} (h : n ∈ used) : n < fresh used :=
  Nat.lt_succ_of_le (List.le_max_of_le' 0 h (Nat.le_refl n))

variable [DecidableEq κ] (key)

def find (rows : List ρ) (k : κ) : Option ρ := rows.find? fun r => key r = k

def put (rows : List ρ) (row : ρ) : List ρ :=
  rows.map fun r => if key r = key row then row else r

def update (rows : List ρ) (k : κ) (f : ρ → ρ) : List ρ :=
  rows.map fun r => if key r = k then f r else r

variable {key}

theorem mem_of_find (h : find key rows k = some r) : r ∈ rows ∧ key r = k :=
  ⟨List.mem_of_find?_eq_some h, by simpa using List.find?_some h⟩

theorem find_isSome (h : r ∈ rows) : ∃ r', find key rows (key r) = some r' :=
  Option.isSome_iff_exists.mp (List.find?_isSome.mpr ⟨r, h, by simp⟩)

theorem ne_of_find_none (h : find key rows k = none) (hr : r ∈ rows) : key r ≠ k := by
  simpa using List.find?_eq_none.mp h r hr

/-- A change of the rows that leaves their keys alone changes what is found. -/
theorem find_map (hf : ∀ r, key (f r) = key r) :
    find key (rows.map f) k = (find key rows k).map f := by
  have hcomp : (fun r => decide (key r = k)) ∘ f = fun r => decide (key r = k) := by
    funext r
    simp [hf]
  rw [find, find, List.find?_map, hcomp]

theorem mem_update :
    r ∈ update key rows k f ↔ (∃ r₀ ∈ rows, key r₀ = k ∧ f r₀ = r) ∨ r ∈ rows ∧ key r ≠ k := by
  simp only [update, List.mem_map]
  constructor
  · rintro ⟨x, hx, rfl⟩
    by_cases h : key x = k
    · exact .inl ⟨x, hx, h, (if_pos h).symm⟩
    · rw [if_neg h]
      exact .inr ⟨hx, h⟩
  · rintro (⟨x, hx, h, rfl⟩ | ⟨hr, hne⟩)
    · exact ⟨x, hx, if_pos h⟩
    · exact ⟨r, hr, if_neg hne⟩

theorem key_update_row (hf : ∀ r, key (f r) = key r) (r : ρ) :
    key (if key r = k then f r else r) = key r := by
  split
  · exact hf r
  · rfl

theorem Keyed.update (h : Keyed key rows) (hf : ∀ r, key (f r) = key r) :
    Keyed key (update key rows k f) :=
  h.map (key_update_row hf)

theorem find_update (hf : ∀ r, key (f r) = key r) (k' : κ) :
    find key (update key rows k f) k' = (find key rows k').map fun r => if key r = k then f r else r :=
  find_map (key_update_row hf)

theorem mem_modify {i : Nat} (h : r ∈ rows.modify i f) : r ∈ rows ∨ ∃ r₀ ∈ rows, f r₀ = r := by
  obtain ⟨j, hj, rfl⟩ := List.mem_iff_getElem.mp h
  have hj' : j < rows.length := by simpa using hj
  rw [List.getElem_modify]
  split
  · exact .inr ⟨_, List.getElem_mem hj', rfl⟩
  · exact .inl (List.getElem_mem hj')

theorem Keyed.find_eq (h : Keyed key rows) (hr : r ∈ rows) : find key rows (key r) = some r := by
  obtain ⟨r', hr'⟩ : ∃ r', find key rows (key r) = some r' := find_isSome hr
  obtain ⟨hmem, hkey⟩ := mem_of_find hr'
  rw [hr', h r' hmem r hr hkey]

theorem mem_put (hbefore : before ∈ rows) (hkey : key before = key row) :
    r ∈ put key rows row ↔ r = row ∨ r ∈ rows ∧ key r ≠ key row := by
  simp only [put, List.mem_map]
  constructor
  · rintro ⟨x, hx, rfl⟩
    by_cases h : key x = key row
    · exact .inl (if_pos h)
    · rw [if_neg h]
      exact .inr ⟨hx, h⟩
  · rintro (rfl | ⟨hr, hne⟩)
    · exact ⟨before, hbefore, if_pos hkey⟩
    · exact ⟨r, hr, if_neg hne⟩

theorem map_put : (put key rows row).map key = rows.map key := by
  rw [put, List.map_map]
  refine List.map_congr_left fun r _ => ?_
  dsimp only [Function.comp]
  split
  · rename_i h
    exact h.symm
  · rfl

theorem countP_put_le (h : (rows.map key).Nodup) (p : ρ → Bool) :
    (put key rows row).countP p ≤ rows.countP p + 1 := by
  induction rows with
  | nil => exact Nat.zero_le _
  | cons r rows ih =>
    obtain ⟨hr, hrows⟩ := List.nodup_cons.mp h
    by_cases hkey : key r = key row
    · have hrest : put key rows row = rows := by
        refine (List.map_congr_left fun x hx => if_neg fun hx' => hr ?_).trans rows.map_id
        rw [hkey, ← hx']
        exact List.mem_map_of_mem hx
      have hput : put key (r :: rows) row = row :: rows := by
        rw [put, List.map_cons, if_pos hkey]
        exact congrArg _ hrest
      rw [hput, List.countP_cons, List.countP_cons]
      split <;> split <;> omega
    · have hput : put key (r :: rows) row = r :: put key rows row := by
        rw [put, List.map_cons, if_neg hkey]
        rfl
      have := ih hrows
      rw [hput, List.countP_cons, List.countP_cons]
      omega

theorem Keyed.put (h : Keyed key rows) (hbefore : before ∈ rows)
    (hkey : key before = key row) : Keyed key (put key rows row) := by
  intro p hp q hq hpq
  rcases (mem_put hbefore hkey).mp hp with rfl | ⟨hp, hpk⟩
  · rcases (mem_put hbefore hkey).mp hq with rfl | ⟨_, hqk⟩
    · rfl
    · exact absurd hpq.symm hqk
  · rcases (mem_put hbefore hkey).mp hq with rfl | ⟨hq, _⟩
    · exact absurd hpq hpk
    · exact h p hp q hq hpq

variable {R : ρ → ρ → Prop}

theorem Related.put (hkey : ∀ r r', R r r' → key r' = key r) (hrefl : ∀ r, R r r)
    (hrow : ∀ r ∈ rows, key r = key row → R r row) : Related key R rows (put key rows row) := by
  refine .map hkey fun r hr => ?_
  split
  · rename_i h
    exact hrow r hr h
  · exact hrefl r

theorem Related.update (hkey : ∀ r r', R r r' → key r' = key r) (hrefl : ∀ r, R r r)
    (hf : ∀ r ∈ rows, key r = k → R r (f r)) : Related key R rows (update key rows k f) := by
  refine .map hkey fun r hr => ?_
  split
  · rename_i h
    exact hf r hr h
  · exact hrefl r

end Table
