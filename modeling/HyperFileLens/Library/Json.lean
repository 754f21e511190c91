import HyperFileLens.Library.Text
import Mathlib.Data.Rat.Defs

/-!
# JSON values and dictionaries

Decoded JSON as the modelled programs handle it: a Python `dict` or a Go
`map[string]any`. A dictionary is a list of fields in insertion order. The
first field of a key is its value.

*Numbers.*  A number without a fraction or an exponent is an `int`, any other one
a `float`, as Python decodes them.

*Equality.*  `DecidableEq Json` is equality of the trees, field order included.
`Json.pyEq` is the `==` of Python: field order does not count, and truth values,
integers and floats are compared as numbers.

*Operations.*  `Dict.get?`, `Dict.set`, `Dict.pop` and `Dict.update` are the
dictionary operations. Their simp set reads a field of an updated dictionary
without unfolding the update.
-/

inductive Json where
  | null
  | bool (b : Bool)
  | int (n : Int)
  | float (x : Rat)
  | str (s : String)
  | arr (xs : List Json)
  | obj (fields : List (String × Json))
deriving Repr, Inhabited

/-- The fields of an object, in insertion order. -/
abbrev Dict := List (String × Json)

namespace Json

/-! ## Equality of trees -/

mutual

def beq : Json → Json → Bool
  | .null, .null => true
  | .bool a, .bool b => a == b
  | .int a, .int b => a == b
  | .float a, .float b => a == b
  | .str a, .str b => a == b
  | .arr xs, .arr ys => beqList xs ys
  | .obj xs, .obj ys => beqFields xs ys
  | _, _ => false

/-- Decide equality of two lists of values. -/
def beqList : List Json → List Json → Bool
  | [], [] => true
  | x :: xs, y :: ys => beq x y && beqList xs ys
  | _, _ => false

def beqFields : List (String × Json) → List (String × Json) → Bool
  | [], [] => true
  | (k, x) :: xs, (l, y) :: ys => k == l && beq x y && beqFields xs ys
  | _, _ => false

end

mutual

theorem beq_iff : ∀ a b : Json, beq a b = true ↔ a = b
  | .null, b => by cases b <;> simp [beq]
  | .bool _, b => by cases b <;> simp [beq]
  | .int _, b => by cases b <;> simp [beq]
  | .float _, b => by cases b <;> simp [beq]
  | .str _, b => by cases b <;> simp [beq]
  | .arr xs, b => by
      cases b with
      | arr ys => simp [beq, beqList_iff xs ys]
      | _ => simp [beq]
  | .obj xs, b => by
      cases b with
      | obj ys => simp [beq, beqFields_iff xs ys]
      | _ => simp [beq]

theorem beqList_iff : ∀ xs ys : List Json, beqList xs ys = true ↔ xs = ys
  | [], ys => by cases ys <;> simp [beqList]
  | x :: xs, ys => by
      cases ys with
      | nil => simp [beqList]
      | cons y ys => simp [beqList, beq_iff x y, beqList_iff xs ys]

theorem beqFields_iff : ∀ xs ys : List (String × Json), beqFields xs ys = true ↔ xs = ys
  | [], ys => by cases ys <;> simp [beqFields]
  | (k, x) :: xs, ys => by
      cases ys with
      | nil => simp [beqFields]
      | cons y ys => simp [beqFields, beq_iff x y.2, beqFields_iff xs ys, Prod.ext_iff]

end

instance : DecidableEq Json := fun a b => decidable_of_iff _ (beq_iff a b)

/-! ## Python views of a value -/

/-- The number a value compares as, if it is numeric. `True` is one. -/
def number? : Json → Option Rat
  | .bool b => some (if b then 1 else 0)
  | .int n => some n
  | .float x => some x
  | _ => none

/-- The integer of a value for which `isinstance(value, int)` holds. -/
def int? : Json → Option Int
  | .bool b => some (if b then 1 else 0)
  | .int n => some n
  | _ => none

/-- `int(value)`. -/
def pyInt : Json → Option Int
  | .bool b => some (if b then 1 else 0)
  | .int n => some n
  | .float x => some (x.num.tdiv x.den)
  | .str s => Text.parseInt s
  | _ => none

/-- The truth value of a value in a condition. -/
def truthy : Json → Bool
  | .null => false
  | .bool b => b
  | .int n => n ≠ 0
  | .float x => x ≠ 0
  | .str s => s ≠ ""
  | .arr xs => !xs.isEmpty
  | .obj fields => !fields.isEmpty

def text : Json → String
  | .str s => s
  | _ => ""

/-- The text of `str(value or "")`. Floats and containers have a text that no
program compares with. -/
def strOr : Json → String
  | .str s => s
  | .bool true => "True"
  | .int n => if n = 0 then "" else toString n
  | v => if v.truthy then "<value>" else ""

theorem truthy_of_strOr {v : Json} (h : v.strOr ≠ "") : v.truthy = true := by
  cases v with
  | null => exact absurd rfl h
  | bool b =>
    cases b with
    | true => rfl
    | false => exact absurd rfl h
  | int n =>
    rw [truthy, decide_eq_true_eq]
    rintro rfl
    exact absurd rfl h
  | float x => simpa [strOr] using h
  | str s => simpa [strOr, truthy] using h
  | arr xs => simpa [strOr] using h
  | obj fields => simpa [strOr] using h

def fields : Json → Dict
  | .obj fields => fields
  | _ => []

mutual

/-- Python `==`. -/
def pyEq : Json → Json → Bool
  | .null, .null => true
  | .str a, .str b => a == b
  | .arr xs, .arr ys => pyEqList xs ys
  | .obj xs, .obj ys => xs.length == ys.length && pyEqFields xs ys
  | .bool a, b => b.number? == some (if a then 1 else 0)
  | .int a, b => b.number? == some (a : Rat)
  | .float a, b => b.number? == some a
  | _, _ => false

/-- Python `==` of lists. -/
def pyEqList : List Json → List Json → Bool
  | [], [] => true
  | x :: xs, y :: ys => pyEq x y && pyEqList xs ys
  | _, _ => false

/-- Every field of the first dictionary is in the second one with an equal
value. -/
def pyEqFields : Dict → Dict → Bool
  | [], _ => true
  | (k, x) :: xs, ys =>
    (match ys.lookup k with
      | some y => pyEq x y
      | none => false) && pyEqFields xs ys

end

end Json

namespace Dict

/-! ## Dictionary operations -/

def get? (d : Dict) (k : String) : Option Json := d.lookup k

/-- The value of a key, `null` when the key is absent. -/
def get (d : Dict) (k : String) : Json := (d.get? k).getD .null

/-- Python `in`. -/
def has (d : Dict) (k : String) : Bool := (d.get? k).isSome

/-- Assign a key. A new key goes to the end. -/
def set : Dict → String → Json → Dict
  | [], k, v => [(k, v)]
  | (l, w) :: d, k, v => if k = l then (k, v) :: d else (l, w) :: set d k v

/-- Remove a key, if it is there. -/
def pop (d : Dict) (k : String) : Dict := d.filter fun f => f.1 ≠ k

/-- Assign every field of the second dictionary. -/
def update (d e : Dict) : Dict := e.foldl (fun acc f => acc.set f.1 f.2) d

/-! ## Reading an updated dictionary -/

@[simp] theorem get?_nil (k : String) : get? [] k = none := rfl

variable {k l : String} {d e : Dict}

theorem get?_cons (l : String) (w : Json) (d : Dict) (k : String) :
    get? ((l, w) :: d) k = if k = l then some w else d.get? k := by
  by_cases h : k = l
  · simp [get?, h]
  · simp [get?, List.lookup_cons, beq_false_of_ne h, h]

section

variable (d : Dict)

theorem get?_set (k l : String) (v : Json) :
    (d.set k v).get? l = if l = k then some v else d.get? l := by
  induction d with
  | nil => simp [set, get?_cons]
  | cons f d ih =>
    obtain ⟨m, w⟩ := f
    by_cases hkm : k = m
    · subst hkm
      by_cases hl : l = k <;> simp [set, get?_cons, hl]
    · rw [set, if_neg hkm, get?_cons, get?_cons, ih]
      by_cases hlm : l = m
      · have hlk : l ≠ k := fun h => hkm (h.symm.trans hlm)
        simp [hlm, Ne.symm hkm]
      · simp [hlm]

@[simp] theorem get?_set_self (k : String) (v : Json) : (d.set k v).get? k = some v := by
  simp [get?_set]

theorem get?_set_of_ne (v : Json) (h : l ≠ k) : (d.set k v).get? l = d.get? l := by
  simp [get?_set, h]

theorem get?_pop (k l : String) : (d.pop k).get? l = if l = k then none else d.get? l := by
  induction d with
  | nil => simp [pop]
  | cons f d ih =>
    obtain ⟨m, w⟩ := f
    by_cases hmk : m = k
    · subst hmk
      rw [show pop ((m, w) :: d) m = pop d m by simp [pop], ih, get?_cons]
      by_cases hl : l = m <;> simp [hl]
    · rw [show pop ((m, w) :: d) k = (m, w) :: pop d k by simp [pop, hmk], get?_cons, ih,
        get?_cons]
      by_cases hlm : l = m
      · simp [hlm, hmk]
      · simp [hlm]

@[simp] theorem get?_pop_self (k : String) : (d.pop k).get? k = none := by
  simp [get?_pop]

theorem get?_pop_of_ne (h : l ≠ k) : (d.pop k).get? l = d.get? l := by
  simp [get?_pop, h]

@[simp] theorem get_set_self (k : String) (v : Json) : (d.set k v).get k = v := by
  simp [get]

theorem get_set_of_ne (v : Json) (h : l ≠ k) : (d.set k v).get l = d.get l := by
  simp [get, get?_set_of_ne d v h]

@[simp] theorem get_pop_self (k : String) : (d.pop k).get k = .null := by
  simp [get]

theorem get_pop_of_ne (h : l ≠ k) : (d.pop k).get l = d.get l := by
  simp [get, get?_pop_of_ne d h]

end

/-! ## Dictionaries with every key once -/

def Keyed (d : Dict) : Prop := (d.map Prod.fst).Nodup

theorem get?_eq_none : d.get? k = none ↔ k ∉ d.map Prod.fst := by
  rw [get?, List.lookup_eq_none_iff, List.mem_map]
  constructor
  · rintro h ⟨f, hf, rfl⟩
    simpa using h f hf
  · intro h f hf
    rw [bne_iff_ne]
    exact fun heq => h ⟨f, hf, heq.symm⟩

theorem mem_keys_set {v : Json} : l ∈ (d.set k v).map Prod.fst ↔ l = k ∨ l ∈ d.map Prod.fst := by
  rw [← not_iff_not, ← get?_eq_none, get?_set, not_or, ← get?_eq_none]
  split
  · simp_all
  · simp_all

theorem Keyed.set (h : d.Keyed) (k : String) (v : Json) : (d.set k v).Keyed := by
  induction d with
  | nil => simp [Dict.set, Keyed]
  | cons f d ih =>
    obtain ⟨l, w⟩ := f
    rw [Keyed, List.map_cons, List.nodup_cons] at h
    rw [Dict.set]
    split
    · rename_i heq
      subst heq
      rw [Keyed, List.map_cons, List.nodup_cons]
      exact h
    · rename_i hne
      rw [Keyed, List.map_cons, List.nodup_cons, mem_keys_set]
      exact ⟨fun hmem => hmem.elim (fun heq => hne heq.symm) h.1, ih h.2⟩

theorem Keyed.pop (h : d.Keyed) (k : String) : (d.pop k).Keyed :=
  h.sublist (List.filter_sublist.map _)

theorem Keyed.update (h : d.Keyed) (e : Dict) : (d.update e).Keyed := by
  induction e generalizing d with
  | nil => exact h
  | cons f e ih => exact ih (h.set f.1 f.2)

/-- An updated dictionary has the new values, and the old ones where there is none. -/
theorem get?_update (he : e.Keyed) (k : String) :
    (d.update e).get? k = (e.get? k).or (d.get? k) := by
  induction e generalizing d with
  | nil => rfl
  | cons f e ih =>
    obtain ⟨l, w⟩ := f
    rw [Keyed, List.map_cons, List.nodup_cons] at he
    have hrest := ih (d := d.set l w) he.2
    rw [get?_set] at hrest
    rw [get?_cons]
    refine hrest.trans ?_
    split
    · rename_i heq
      subst heq
      rw [get?_eq_none.mpr he.1]
      rfl
    · rfl

theorem get_update_of_not_mem (he : e.Keyed) (hk : k ∉ e.map Prod.fst) :
    (d.update e).get k = d.get k := by
  rw [get, get?_update he, get?_eq_none.mpr hk]
  rfl

theorem get_update_of_mem (he : e.Keyed) (hk : k ∈ e.map Prod.fst) :
    (d.update e).get k = e.get k := by
  rw [get, get?_update he, get]
  cases hget : e.get? k with
  | none => exact absurd hk (get?_eq_none.mp hget)
  | some v => rfl

end Dict
