import HyperFileLens.Library.Json
import Mathlib

/-!
# The JSON encoder of the Go standard library

The text that `encoding/json` writes for a value, and how many bytes it takes.

*Text.*  Objects are written in the order of their keys. Strings are escaped for use in
HTML as well: `<`, `>`, `&` and the two line separators take six characters, as control
characters do. How a number that is no integer is written is an argument.

*Size.*  A list of parts takes one byte more than its parts with a separator each, and
two bytes if it is empty (`listBytes`). Sizes do not depend on the order of the fields.
-/

namespace GoJson

/-! ## Text -/

def unicodeEscape (n : Nat) : List Char :=
  ['\\', 'u', Nat.digitChar (n / 4096 % 16), Nat.digitChar (n / 256 % 16),
    Nat.digitChar (n / 16 % 16), Nat.digitChar (n % 16)]

/-- How a character is written inside a string. -/
def escape (c : Char) : List Char :=
  if c = '"' ∨ c = '\\' then ['\\', c]
  else if c = '\n' then ['\\', 'n']
  else if c = '\r' then ['\\', 'r']
  else if c = '\t' then ['\\', 't']
  else if c.toNat = 8 then ['\\', 'b']
  else if c.toNat = 12 then ['\\', 'f']
  else if c.toNat < 32 ∨ c = '<' ∨ c = '>' ∨ c = '&' ∨ c.toNat = 0x2028 ∨ c.toNat = 0x2029 then
    unicodeEscape c.toNat
  else [c]

def quote (s : List Char) : List Char := '"' :: s.flatMap escape ++ ['"']

def byKey {α : Type} (a b : String × α) : Bool := a.1 ≤ b.1

section Encode

variable (floatText : Rat → List Char)

mutual

/-- `json.Marshal`. -/
def encode : Json → List Char
  | .null => "null".toList
  | .bool b => if b then "true".toList else "false".toList
  | .int n => (Int.repr n).toList
  | .float x => floatText x
  | .str s => quote s.toList
  | .arr xs => '[' :: [','].intercalate (encodeList xs) ++ [']']
  | .obj fields =>
    '{' :: [','].intercalate (((encodeFields fields).mergeSort byKey).map fun f =>
      quote f.1.toList ++ ':' :: f.2) ++ ['}']

def encodeList : List Json → List (List Char)
  | [] => []
  | x :: xs => encode x :: encodeList xs

def encodeFields : List (String × Json) → List (String × List Char)
  | [] => []
  | (k, v) :: fields => (k, encode v) :: encodeFields fields

end

theorem encodeList_eq (xs : List Json) : encodeList floatText xs = xs.map (encode floatText) := by
  induction xs with
  | nil => rfl
  | cons x xs ih => rw [encodeList, ih, List.map_cons]

theorem encodeFields_eq (fields : List (String × Json)) :
    encodeFields floatText fields = fields.map fun f => (f.1, encode floatText f.2) := by
  induction fields with
  | nil => rfl
  | cons f fields ih => rw [encodeFields, ih, List.map_cons]

end Encode

/-! ## Size -/

def utf8Length (s : List Char) : Nat := (s.map Char.utf8Size).sum

@[simp] theorem utf8Length_nil : utf8Length [] = 0 := rfl

@[simp] theorem utf8Length_cons (c : Char) (s : List Char) :
    utf8Length (c :: s) = c.utf8Size + utf8Length s := by
  rw [utf8Length, List.map_cons, List.sum_cons]
  rfl

@[simp] theorem utf8Length_append (s t : List Char) :
    utf8Length (s ++ t) = utf8Length s + utf8Length t := by
  rw [utf8Length, List.map_append, List.sum_append]
  rfl

def listBytes (sizes : List Nat) : Nat :=
  if sizes = [] then 2 else 1 + (sizes.map (· + 1)).sum

def fieldBytes (key : String) (size : Nat) : Nat := utf8Length (quote key.toList) + 1 + size

theorem listBytes_perm {s t : List Nat} (h : s.Perm t) : listBytes s = listBytes t := by
  have hnil : s = [] ↔ t = [] := by
    constructor
    · rintro rfl
      exact h.nil_eq.symm
    · rintro rfl
      exact h.eq_nil
  rw [listBytes, listBytes, (h.map _).sum_eq]
  simp only [hnil]

theorem listBytes_sublist {s t : List Nat} (h : s.Sublist t) : listBytes s ≤ listBytes t := by
  have hsum : (s.map (· + 1)).sum ≤ (t.map (· + 1)).sum := (h.map _).sum_le_sum (by simp)
  cases s with
  | nil =>
    cases t with
    | nil => exact le_rfl
    | cons n t =>
      simp only [listBytes, List.map_cons, List.sum_cons]
      simp
      omega
  | cons m s =>
    cases t with
    | nil => cases h
    | cons n t =>
      rw [listBytes, listBytes, if_neg (by simp), if_neg (by simp)]
      omega

theorem le_listBytes {n : Nat} {sizes : List Nat} (h : n ∈ sizes) : n ≤ listBytes sizes := by
  have hsingle := listBytes_sublist (List.singleton_sublist.mpr h)
  have hone : listBytes [n] = n + 2 := by
    rw [listBytes, if_neg (by simp), List.map_singleton, List.sum_singleton]
    omega
  omega

theorem utf8Length_list {left right : Char} (hleft : left.utf8Size = 1)
    (hright : right.utf8Size = 1) (parts : List (List Char)) :
    utf8Length (left :: [','].intercalate parts ++ [right]) =
      listBytes (parts.map utf8Length) := by
  have hcomma : ','.utf8Size = 1 := by decide
  have hparts : ∀ part rest, utf8Length ([','].intercalate (part :: rest)) + 1 =
      ((part :: rest).map fun p => utf8Length p + 1).sum := by
    intro part rest
    induction rest generalizing part with
    | nil => simp
    | cons next rest ih =>
      rw [List.intercalate_cons_cons, utf8Length_append, utf8Length_append, List.map_cons,
        List.sum_cons, ← ih next]
      simp only [utf8Length_cons, utf8Length_nil, hcomma]
      omega
  cases parts with
  | nil => simp [listBytes, hleft, hright]
  | cons part rest =>
    rw [listBytes, if_neg (by simp), List.map_map]
    have hsum := hparts part rest
    simp only [List.cons_append, utf8Length_cons, utf8Length_append, utf8Length_nil, hleft, hright]
    have hcomp : ((part :: rest).map ((· + 1) ∘ utf8Length)) =
        (part :: rest).map fun p => utf8Length p + 1 := rfl
    rw [hcomp]
    omega

section Sizes

variable (floatText : Rat → List Char)

def size (v : Json) : Nat := utf8Length (encode floatText v)

theorem size_arr (xs : List Json) :
    size floatText (.arr xs) = listBytes (xs.map (size floatText)) := by
  rw [size, encode, encodeList_eq, utf8Length_list (by decide) (by decide), List.map_map]
  rfl

theorem size_obj (fields : Dict) : size floatText (.obj fields) =
      listBytes (fields.map fun f => fieldBytes f.1 (size floatText f.2)) := by
  rw [size, encode, encodeFields_eq, utf8Length_list (by decide) (by decide), List.map_map]
  refine listBytes_perm (((List.mergeSort_perm _ _).map _).trans ?_)
  rw [List.map_map]
  refine List.Perm.of_eq (List.map_congr_left fun f _ => ?_)
  have hcolon : ':'.utf8Size = 1 := by decide
  simp only [Function.comp, fieldBytes, size, utf8Length_append, utf8Length_cons, hcolon]
  omega

theorem fieldBytes_le_size {fields : Dict} {f : String × Json} (h : f ∈ fields) :
    fieldBytes f.1 (size floatText f.2) ≤ size floatText (.obj fields) := by
  rw [size_obj]
  exact le_listBytes (List.mem_map_of_mem h)

theorem size_le_fieldBytes (key : String) (n : Nat) : n ≤ fieldBytes key n := by
  rw [fieldBytes]
  omega

end Sizes

end GoJson
