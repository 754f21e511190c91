import HyperFileLens.Library.GoJson
import HyperFileLens.Library.GoText
import HyperFileLens.Library.Masking

/-!
# Redaction of restore results

The engine masks the secrets of a restore in the texts of its result. The secrets are
collected from the repository, the payload and the environment into a map, are sorted by
their length in bytes, and are replaced one after the other in the text that is left.

*Orders.*  Go iterates over the map in any order, and the sort leaves secrets of one length
as they come. A text may so be masked by any order of the secrets in which none is longer
than one before it, and each text of a result by an order of its own.

*Slices of strings.*  `redactManagedRestoreValue` has no case for a `[]string` or a
`map[string]string` and returns it as it is. Under the key of a secret
`redactManagedRestoreSecretValue` masks it.

Texts are valid UTF-8. `lower` is what `strings.ToLower` does to a character.
-/

namespace HyperFileLens.Engine.Redaction

open Masking

/-! ## The code -/

inductive Value where
  | null
  | scalar (text : List Char)
  | str (s : List Char)
  /-- A `[]string`, or the values of a `map[string]string`. -/
  | texts (items : List (List Char))
  /-- A `[]any` or a `[]map[string]any`. -/
  | list (items : List Value)
  | map (fields : List (List Char × Value))

/-- The text in place of a secret. -/
def redacted : List Char := "<redacted>".toList

variable (lower : Char → Char)

def contains (s needle : List Char) : Bool := (GoText.index needle s).isSome

def restoreSecretKey (key : List Char) : Bool :=
  let normalized := (Text.trimSpace key).map lower
  contains normalized "password".toList ||
    contains normalized "secret".toList ||
    contains normalized "token".toList

mutual

def collectManagedRestoreSecretValues : Value → List (List Char)
  | .str s => [s]
  | .list items => collectSecretItems items
  | .map fields => collectSecretFields fields
  | _ => []

def collectSecretItems : List Value → List (List Char)
  | [] => []
  | item :: items => collectManagedRestoreSecretValues item ++ collectSecretItems items

def collectSecretFields : List (List Char × Value) → List (List Char)
  | [] => []
  | (_, item) :: fields => collectManagedRestoreSecretValues item ++ collectSecretFields fields

end

mutual

def collectManagedRestorePayloadSecrets : Value → List (List Char)
  | .list items => collectPayloadItems items
  | .map fields => collectPayloadFields fields
  | _ => []

def collectPayloadItems : List Value → List (List Char)
  | [] => []
  | item :: items => collectManagedRestorePayloadSecrets item ++ collectPayloadItems items

def collectPayloadFields : List (List Char × Value) → List (List Char)
  | [] => []
  | (key, item) :: fields =>
    (if restoreSecretKey lower key then collectManagedRestoreSecretValues item
      else collectManagedRestorePayloadSecrets item) ++ collectPayloadFields fields

end

structure RepositorySpec where
  secretAccessKey : List Char
  kopiaPassword : List Char
  serverPassword : List Char
  targetNAS : Option (List Char)

structure Payload where
  extra : List (List Char × Value)
  env : List (List Char × List Char)
  /-- The password of the NAS of the payload, if `parseNASSpec` accepts that. -/
  nas : Option (List Char)

/-- The secrets to redact, trimmed. Empty ones are left out. -/
def secretSet (spec : RepositorySpec) (p : Payload) : List (List Char) :=
  let secretsToRedact :=
    [spec.secretAccessKey, spec.kopiaPassword, spec.serverPassword] ++
      spec.targetNAS.toList ++ p.nas.toList ++
      ((p.env.filter fun entry => restoreSecretKey lower entry.1).map Prod.snd) ++
      collectManagedRestorePayloadSecrets lower (.map p.extra)
  (secretsToRedact.map Text.trimSpace).filter fun value => !value.isEmpty

/-- An order in which the loop may come to the secrets. -/
structure IsOrder (secrets order : List (List Char)) : Prop where
  nodup : order.Nodup
  mem_iff : ∀ s, s ∈ order ↔ s ∈ secrets
  sorted : order.Pairwise fun a b => GoJson.utf8Length b ≤ GoJson.utf8Length a

/-- `redactManagedRestoreSecrets`, for an order of the secrets. -/
def redactManagedRestoreSecrets (order : List (List Char)) (message : List Char) : List Char :=
  order.foldl (fun message secret => replaceAll redacted secret message) message

mutual

def redactManagedRestoreSecretValue : Value → Value
  | .null => .null
  | .str s => .str (if s.isEmpty then s else redacted)
  | .list items => .list (redactSecretItems items)
  | .map fields => .map (redactSecretFields fields)
  | _ => .str redacted

def redactSecretItems : List Value → List Value
  | [] => []
  | item :: items => redactManagedRestoreSecretValue item :: redactSecretItems items

def redactSecretFields : List (List Char × Value) → List (List Char × Value)
  | [] => []
  | (key, item) :: fields =>
    (key, redactManagedRestoreSecretValue item) :: redactSecretFields fields

end

mutual

/-- `redactManagedRestoreValue`, for the order of the secrets at each place of the value. -/
def redactManagedRestoreValue (orders : List Nat → List (List Char)) (path : List Nat) :
    Value → Value
  | .str s => .str (redactManagedRestoreSecrets (orders path) s)
  | .list items => .list (redactItems orders path 0 items)
  | .map fields => .map (redactFields orders path 0 fields)
  | value => value

def redactItems (orders : List Nat → List (List Char)) (path : List Nat) (index : Nat) :
    List Value → List Value
  | [] => []
  | item :: items =>
    redactManagedRestoreValue orders (index :: path) item ::
      redactItems orders path (index + 1) items

def redactFields (orders : List Nat → List (List Char)) (path : List Nat) (index : Nat) :
    List (List Char × Value) → List (List Char × Value)
  | [] => []
  | (key, item) :: fields =>
    (key, if restoreSecretKey lower key then redactManagedRestoreSecretValue item
      else redactManagedRestoreValue orders (index :: path) item) ::
      redactFields orders path (index + 1) fields

end

/-! ## Strings of a value -/

mutual

def leaves : Value → List (List Char)
  | .str s => [s]
  | .texts items => items
  | .list items => leavesOfItems items
  | .map fields => leavesOfFields fields
  | _ => []

def leavesOfItems : List Value → List (List Char)
  | [] => []
  | item :: items => leaves item ++ leavesOfItems items

def leavesOfFields : List (List Char × Value) → List (List Char)
  | [] => []
  | (_, item) :: fields => leaves item ++ leavesOfFields fields

end

mutual

/-- The strings in slices and maps of strings that are not under the key of a secret. -/
def openTexts : Value → List (List Char)
  | .texts items => items
  | .list items => openTextsOfItems items
  | .map fields => openTextsOfFields fields
  | _ => []

def openTextsOfItems : List Value → List (List Char)
  | [] => []
  | item :: items => openTexts item ++ openTextsOfItems items

def openTextsOfFields : List (List Char × Value) → List (List Char)
  | [] => []
  | (key, item) :: fields =>
    (if restoreSecretKey lower key then [] else openTexts item) ++ openTextsOfFields fields

end

def Clean (secrets texts : List (List Char)) : Prop :=
  ∀ text ∈ texts, ∀ s ∈ secrets, ¬s <:+: text

section Clean

variable {secrets a b : List (List Char)}

theorem clean_nil : Clean secrets [] := by
  intro text htext
  cases htext

theorem clean_append : Clean secrets (a ++ b) ↔ Clean secrets a ∧ Clean secrets b :=
  List.forall_mem_append

theorem clean_singleton {text : List Char} :
    Clean secrets [text] ↔ ∀ s ∈ secrets, ¬s <:+: text := by
  rw [Clean, List.forall_mem_singleton]

end Clean

/-! ## What is left of the secrets -/

section Redacted

variable {secrets : List (List Char)}

theorem clean_redacted (hapart : ∀ s ∈ secrets, Apart redacted s) : Clean secrets [redacted] :=
  clean_singleton.mpr fun s hs => (hapart s hs).not_part

theorem clean_empty (hapart : ∀ s ∈ secrets, Apart redacted s) : Clean secrets [[]] :=
  clean_singleton.mpr fun s hs h => (hapart s hs).ne_nil (List.infix_nil.mp h)

theorem clean_redactManagedRestoreSecrets (hapart : ∀ s ∈ secrets, Apart redacted s)
    {order : List (List Char)} (horder : IsOrder secrets order) (message : List Char) :
    Clean secrets [redactManagedRestoreSecrets order message] := by
  rw [clean_singleton]
  intro s hs
  exact not_infix_foldl_replaceAll (fun t ht => hapart t ((horder.mem_iff t).mp ht))
    ((horder.mem_iff s).mpr hs) message

mutual

theorem clean_redactManagedRestoreSecretValue (hapart : ∀ s ∈ secrets, Apart redacted s) :
    ∀ value, Clean secrets (leaves (redactManagedRestoreSecretValue value))
  | .null => clean_nil
  | .scalar _ => clean_redacted hapart
  | .texts _ => clean_redacted hapart
  | .str s => by
      show Clean secrets [if s.isEmpty then s else redacted]
      cases s with
      | nil => exact clean_empty hapart
      | cons c s => exact clean_redacted hapart
  | .list items => clean_redactSecretItems hapart items
  | .map fields => clean_redactSecretFields hapart fields

theorem clean_redactSecretItems (hapart : ∀ s ∈ secrets, Apart redacted s) :
    ∀ items, Clean secrets (leavesOfItems (redactSecretItems items))
  | [] => clean_nil
  | item :: items =>
    clean_append.mpr
      ⟨clean_redactManagedRestoreSecretValue hapart item, clean_redactSecretItems hapart items⟩

theorem clean_redactSecretFields (hapart : ∀ s ∈ secrets, Apart redacted s) :
    ∀ fields, Clean secrets (leavesOfFields (redactSecretFields fields))
  | [] => clean_nil
  | (_, item) :: fields =>
    clean_append.mpr
      ⟨clean_redactManagedRestoreSecretValue hapart item, clean_redactSecretFields hapart fields⟩

end

variable {orders : List Nat → List (List Char)}

mutual

theorem clean_redactManagedRestoreValue (hapart : ∀ s ∈ secrets, Apart redacted s)
    (horders : ∀ path, IsOrder secrets (orders path)) (path : List Nat) : ∀ value,
    Clean secrets (leaves (redactManagedRestoreValue lower orders path value)) ↔
      Clean secrets (openTexts lower value)
  | .null => Iff.rfl
  | .scalar _ => Iff.rfl
  | .texts _ => Iff.rfl
  | .str s =>
    iff_of_true (clean_redactManagedRestoreSecrets hapart (horders path) s) clean_nil
  | .list items => clean_redactItems hapart horders path 0 items
  | .map fields => clean_redactFields hapart horders path 0 fields

theorem clean_redactItems (hapart : ∀ s ∈ secrets, Apart redacted s)
    (horders : ∀ path, IsOrder secrets (orders path)) (path : List Nat) (index : Nat) : ∀ items,
    Clean secrets (leavesOfItems (redactItems lower orders path index items)) ↔
      Clean secrets (openTextsOfItems lower items)
  | [] => Iff.rfl
  | item :: items => by
      rw [redactItems, leavesOfItems, openTextsOfItems, clean_append, clean_append,
        clean_redactManagedRestoreValue hapart horders (index :: path) item,
        clean_redactItems hapart horders path (index + 1) items]

theorem clean_redactFields (hapart : ∀ s ∈ secrets, Apart redacted s)
    (horders : ∀ path, IsOrder secrets (orders path)) (path : List Nat) (index : Nat) : ∀ fields,
    Clean secrets (leavesOfFields (redactFields lower orders path index fields)) ↔
      Clean secrets (openTextsOfFields lower fields)
  | [] => Iff.rfl
  | (key, item) :: fields => by
      rw [redactFields, leavesOfFields, openTextsOfFields, clean_append, clean_append,
        clean_redactFields hapart horders path (index + 1) fields]
      cases restoreSecretKey lower key with
      | true =>
        have hitem := clean_redactManagedRestoreSecretValue hapart item
        exact and_congr_left' (iff_of_true hitem clean_nil)
      | false =>
        have hitem := clean_redactManagedRestoreValue hapart horders (index :: path) item
        exact and_congr_left' hitem

end

end Redacted

/-! ## Which secrets they are -/

section Order

variable {secrets order : List (List Char)}

theorem utf8Length_pos {s : List Char} (h : s ≠ []) : 0 < GoJson.utf8Length s := by
  cases s with
  | nil => exact absurd rfl h
  | cons c s =>
    have hc := Char.utf8Size_pos c
    rw [GoJson.utf8Length_cons]
    omega

theorem utf8Length_lt_of_infix (a b : List Char) (h : a <:+: b) (hne : a ≠ b) :
    GoJson.utf8Length a < GoJson.utf8Length b := by
  obtain ⟨front, behind, rfl⟩ := h
  have hrest : 0 < GoJson.utf8Length (front ++ behind) := by
    refine utf8Length_pos fun hnil => hne ?_
    obtain ⟨rfl, rfl⟩ := List.append_eq_nil_iff.mp hnil
    rw [List.nil_append, List.append_nil]
  rw [GoJson.utf8Length_append] at hrest
  rw [GoJson.utf8Length_append, GoJson.utf8Length_append]
  omega

theorem redactManagedRestoreSecrets_eq_maskAll (hapart : ∀ s ∈ secrets, Apart redacted s)
    (horder : IsOrder secrets order) {message : List Char} (hnested : Nested secrets message) :
    redactManagedRestoreSecrets order message = maskAll redacted secrets message := by
  have hmem : ∀ s ∈ order, s ∈ secrets := fun s hs => (horder.mem_iff s).mp hs
  calc redactManagedRestoreSecrets order message = maskAll redacted order message :=
        foldl_replaceAll utf8Length_lt_of_infix horder.sorted (fun s hs => hapart s (hmem s hs))
          (hnested.subset hmem)
    _ = maskAll redacted secrets message := maskAll_congr_secrets horder.mem_iff message

end Order

/-- No string of a redacted value holds a secret. -/
def LeavesNoSecret (secrets : List (List Char)) : Prop :=
  ∀ orders value, (∀ path, IsOrder secrets (orders path)) →
    Clean secrets (leaves (redactManagedRestoreValue lower orders [] value))

/-- A redacted message looks the same for other secrets that it holds at the same places. -/
def ShowsOnlyPlaces (secrets : List (List Char)) : Prop :=
  ∀ spec' p', (∀ s ∈ secretSet lower spec' p', Apart redacted s) → ∀ message message',
    SameOccurrences secrets message (secretSet lower spec' p') message' →
    ∀ order order', IsOrder secrets order → IsOrder (secretSet lower spec' p') order' →
      redactManagedRestoreSecrets order message = redactManagedRestoreSecrets order' message'

/-- Only slices and maps of strings show secrets, and only secrets that overlap in a message
show which ones they are. -/
theorem redaction_hides (spec : RepositorySpec) (p : Payload)
    (hapart : ∀ s ∈ secretSet lower spec p, Apart redacted s) :
    (∀ orders value, (∀ path, IsOrder (secretSet lower spec p) (orders path)) →
      (Clean (secretSet lower spec p)
          (leaves (redactManagedRestoreValue lower orders [] value)) ↔
        Clean (secretSet lower spec p) (openTexts lower value))) ∧
    ∀ message, Nested (secretSet lower spec p) message →
      ∀ spec' p', (∀ s ∈ secretSet lower spec' p', Apart redacted s) → ∀ message',
        SameOccurrences (secretSet lower spec p) message (secretSet lower spec' p') message' →
        ∀ order order', IsOrder (secretSet lower spec p) order →
          IsOrder (secretSet lower spec' p') order' →
          redactManagedRestoreSecrets order message =
            redactManagedRestoreSecrets order' message' := by
  constructor
  · intro orders value horders
    exact clean_redactManagedRestoreValue lower hapart horders [] value
  · intro message hnested spec' p' hapart' message' hsame order order' horder horder'
    rw [redactManagedRestoreSecrets_eq_maskAll hapart horder hnested,
      redactManagedRestoreSecrets_eq_maskAll hapart' horder' (hsame.nested hnested)]
    exact maskAll_congr hsame hnested

namespace Overlap

/-- Two keys of which the one ends as the other starts. -/
def keys : RepositorySpec :=
  { secretAccessKey := "KLMN".toList, kopiaPassword := "MNOP".toList, serverPassword := [],
    targetNAS := none }

def noPayload : Payload := { extra := [], env := [], nas := none }

theorem secretSet_keys :
    secretSet Char.toLower keys noPayload = ["KLMN".toList, "MNOP".toList] := by
  decide +kernel

theorem keys_apart : ∀ s ∈ secretSet Char.toLower keys noPayload, Apart redacted s := by
  intro s hs
  rw [secretSet_keys] at hs
  have hchars : ∀ s ∈ ["KLMN".toList, "MNOP".toList],
      s ≠ [] ∧ (s.all fun c => !redacted.contains c) = true := by
    decide +kernel
  obtain ⟨hne, hall⟩ := hchars s hs
  refine apart_of_disjoint hne (by decide) fun c hc hmem => ?_
  have hfree := List.all_eq_true.mp hall c hc
  rw [List.contains_iff_mem.mpr hmem] at hfree
  cases hfree

theorem isOrder_keys :
    IsOrder (secretSet Char.toLower keys noPayload) ["KLMN".toList, "MNOP".toList] := by
  rw [secretSet_keys]
  exact ⟨by decide, fun s => Iff.rfl, by decide⟩

theorem isOrder_swapped :
    IsOrder (secretSet Char.toLower keys noPayload) ["MNOP".toList, "KLMN".toList] := by
  rw [secretSet_keys]
  exact ⟨by decide, fun s => (List.Perm.swap _ _ []).mem_iff, by decide⟩

end Overlap

/-- A slice of strings keeps its secrets, and of two secrets that overlap in a message the
order of the map decides which one shows its rest. -/
theorem not_redaction_hides : ∃ spec p,
    (∀ s ∈ secretSet Char.toLower spec p, Apart redacted s) ∧
    ¬LeavesNoSecret Char.toLower (secretSet Char.toLower spec p) ∧
    ¬ShowsOnlyPlaces Char.toLower (secretSet Char.toLower spec p) := by
  refine ⟨Overlap.keys, Overlap.noPayload, Overlap.keys_apart, ?_, ?_⟩
  · intro h
    have hclean := h (fun _ => ["KLMN".toList, "MNOP".toList])
      (.map [("paths".toList, .texts ["KLMN".toList])]) (fun _ => Overlap.isOrder_keys)
    refine hclean "KLMN".toList ?_ "KLMN".toList ?_ List.infix_rfl
    · decide +kernel
    · rw [Overlap.secretSet_keys]
      exact List.mem_cons_self
  · intro h
    have hsame := h Overlap.keys Overlap.noPayload Overlap.keys_apart "KLMNOP".toList
      "KLMNOP".toList (.refl _ _) _ _ Overlap.isOrder_keys Overlap.isOrder_swapped
    revert hsame
    decide +kernel

/-- A message with both keys, apart from one another, and a value that holds it. -/
theorem redaction_hides_keys :
    let message := "key KLMN, password MNOP".toList
    let value := Value.map [("error".toList, .list [.str message])]
    Clean (secretSet Char.toLower Overlap.keys Overlap.noPayload)
      (leaves (redactManagedRestoreValue Char.toLower
        (fun _ => ["KLMN".toList, "MNOP".toList]) [] value)) ∧
    redactManagedRestoreSecrets ["KLMN".toList, "MNOP".toList] message =
      redactManagedRestoreSecrets ["MNOP".toList, "KLMN".toList] message := by
  have hhides :=
    redaction_hides Char.toLower Overlap.keys Overlap.noPayload Overlap.keys_apart
  constructor
  · exact (hhides.1 _ _ fun _ => Overlap.isOrder_keys).mpr clean_nil
  · refine hhides.2 _ ?_ Overlap.keys Overlap.noPayload Overlap.keys_apart _ (.refl _ _) _ _
      Overlap.isOrder_keys Overlap.isOrder_swapped
    rw [Overlap.secretSet_keys]
    decide +kernel

end HyperFileLens.Engine.Redaction
