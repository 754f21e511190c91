import Mathlib

/-!
# Covers of a list

A preorder says which element covers which. `keep` goes through a list and keeps what
nothing kept so far covers. Where covering elements come first the result `Spans` the list:
its elements are apart, and every element of the list has one that covers it. `add` also
drops what the new element covers, and spans a list in any order.

*Uniqueness.*  Two spans of lists with the same elements have the same keys, for a key that
tells apart exactly what does not cover each other (`Spans.keys_perm`).

*Measure.*  Where elements stand for regions, and elements with a common point cover one
another one way or the other, the union of the regions measures the sum over the span
(`Spans.sum_filter`).
-/

namespace Coverage

variable {α β κ γ : Type*} (covers : α → α → Prop) [DecidableRel covers]

def keep (xs : List α) : List α :=
  xs.foldl (fun kept x => if ∃ e ∈ kept, covers e x then kept else kept ++ [x]) []

/-- One more element, which replaces what it covers. -/
def add (es : List α) (x : α) : List α :=
  if ∃ e ∈ es, covers e x then es else es.filter (fun e => ¬covers x e) ++ [x]

omit [DecidableRel covers] in
/-- Elements of a list that are apart and cover it. -/
structure Spans (es xs : List α) : Prop where
  sub : ∀ e ∈ es, e ∈ xs
  covered : ∀ x ∈ xs, ∃ e ∈ es, covers e x
  apart : es.Pairwise fun a b => ¬covers a b ∧ ¬covers b a

variable {covers}

variable {es xs es' : List α}

theorem Spans.step (h : Spans covers es xs) (hrefl : ∀ x, covers x x) {x : α}
    (hx : ∀ e ∈ xs, covers x e → covers e x) :
    Spans covers (if ∃ e ∈ es, covers e x then es else es ++ [x]) (xs ++ [x]) := by
  split
  case isTrue hcovered =>
    refine ⟨fun e he => List.mem_append_left _ (h.sub e he), fun y hy => ?_, h.apart⟩
    cases List.mem_append.mp hy with
    | inl hy => exact h.covered y hy
    | inr hy =>
      obtain rfl := List.mem_singleton.mp hy
      exact hcovered
  case isFalse hfree =>
    refine ⟨fun e he => ?_, fun y hy => ?_, ?_⟩
    · cases List.mem_append.mp he with
      | inl he => exact List.mem_append_left _ (h.sub e he)
      | inr he => exact List.mem_append_right _ he
    · cases List.mem_append.mp hy with
      | inl hy =>
        obtain ⟨e, he, hcovers⟩ := h.covered y hy
        exact ⟨e, List.mem_append_left _ he, hcovers⟩
      | inr hy =>
        obtain rfl := List.mem_singleton.mp hy
        exact ⟨y, List.mem_append_right _ hy, hrefl y⟩
    · refine List.pairwise_append.mpr ⟨h.apart, List.pairwise_singleton _ _, ?_⟩
      intro e he y hy
      obtain rfl := List.mem_singleton.mp hy
      have hnot : ¬covers e y := fun hcovers => hfree ⟨e, he, hcovers⟩
      exact ⟨hnot, fun hcovers => hnot (hx e (h.sub e he) hcovers)⟩

theorem spans_keep (hrefl : ∀ x, covers x x)
    (hsorted : xs.Pairwise fun a b => covers b a → covers a b) :
    Spans covers (keep covers xs) xs := by
  have hfold : ∀ (rest seen kept : List α), Spans covers kept seen →
      (seen ++ rest).Pairwise (fun a b => covers b a → covers a b) →
      Spans covers (rest.foldl (fun kept x => if ∃ e ∈ kept, covers e x then kept
        else kept ++ [x]) kept) (seen ++ rest) := by
    intro rest
    induction rest with
    | nil =>
      intro seen kept h _
      rw [List.append_nil]
      exact h
    | cons x rest ih =>
      intro seen kept h hpairs
      have hx : ∀ e ∈ seen, covers x e → covers e x := fun e he =>
        (List.pairwise_append.mp hpairs).2.2 e he x List.mem_cons_self
      have hassoc : seen ++ x :: rest = (seen ++ [x]) ++ rest := by simp
      rw [hassoc] at hpairs ⊢
      exact ih _ _ (h.step hrefl hx) hpairs
  exact hfold xs [] [] ⟨fun _ h => h, fun _ h => (List.not_mem_nil h).elim, .nil⟩ hsorted

theorem Spans.add (h : Spans covers es xs) (hrefl : ∀ x, covers x x)
    (htrans : ∀ a b c, covers a b → covers b c → covers a c) (x : α) :
    Spans covers (add covers es x) (xs ++ [x]) := by
  rw [Coverage.add]
  split
  case isTrue hcovered =>
    refine ⟨fun e he => List.mem_append_left _ (h.sub e he), fun y hy => ?_, h.apart⟩
    cases List.mem_append.mp hy with
    | inl hy => exact h.covered y hy
    | inr hy =>
      obtain rfl := List.mem_singleton.mp hy
      exact hcovered
  case isFalse hfree =>
    refine ⟨fun e he => ?_, fun y hy => ?_, ?_⟩
    · cases List.mem_append.mp he with
      | inl he => exact List.mem_append_left _ (h.sub e (List.mem_of_mem_filter he))
      | inr he => exact List.mem_append_right _ he
    · cases List.mem_append.mp hy with
      | inl hy =>
        obtain ⟨e, he, hcovers⟩ := h.covered y hy
        by_cases hx : covers x e
        · exact ⟨x, List.mem_append_right _ (List.mem_singleton_self x),
            htrans _ _ _ hx hcovers⟩
        · exact ⟨e, List.mem_append_left _ (List.mem_filter.mpr ⟨he, by simpa using hx⟩),
            hcovers⟩
      | inr hy =>
        obtain rfl := List.mem_singleton.mp hy
        exact ⟨y, List.mem_append_right _ hy, hrefl y⟩
    · refine List.pairwise_append.mpr ⟨h.apart.filter _, List.pairwise_singleton _ _, ?_⟩
      intro e he y hy
      obtain rfl := List.mem_singleton.mp hy
      obtain ⟨hmem, hnot⟩ := List.mem_filter.mp he
      exact ⟨fun hcovers => hfree ⟨e, hmem, hcovers⟩, by simpa using hnot⟩

/-- Adding the elements of a list one after the other spans it, in whatever order they come. -/
theorem spans_foldl_add (hrefl : ∀ x, covers x x)
    (htrans : ∀ a b c, covers a b → covers b c → covers a c) (xs : List α) :
    Spans covers (xs.foldl (add covers) []) xs := by
  induction xs using List.reverseRecOn with
  | nil => exact ⟨fun _ h => h, fun _ h => (List.not_mem_nil h).elim, .nil⟩
  | append_singleton xs x ih =>
    rw [List.foldl_append]
    exact ih.add hrefl htrans x

omit [DecidableRel covers]

/-- An element is covered once, where elements that cover the same one cover one another. -/
theorem Spans.exists_unique (h : Spans covers es xs)
    (hlinked : ∀ a b c, covers a c → covers b c → covers a b ∨ covers b a) {x : α} (hx : x ∈ xs) :
    ∃! e, e ∈ es ∧ covers e x := by
  have hsymm : Std.Symm fun a b => ¬covers a b ∧ ¬covers b a := ⟨fun _ _ hab => ⟨hab.2, hab.1⟩⟩
  obtain ⟨e, he, hcovers⟩ := h.covered x hx
  refine ⟨e, ⟨he, hcovers⟩, ?_⟩
  rintro e' ⟨he', hcovers'⟩
  by_contra hne
  have hapart := h.apart.forall he' he hne
  exact (hlinked e' e x hcovers' hcovers).elim hapart.1 hapart.2

/-! ## Uniqueness -/

theorem Spans.mem_congr {xs' : List α} (h : Spans covers es xs) (hmem : ∀ x, x ∈ xs ↔ x ∈ xs') :
    Spans covers es xs' :=
  ⟨fun e he => (hmem e).mp (h.sub e he), fun x hx => h.covered x ((hmem x).mpr hx), h.apart⟩

theorem Spans.eq_of_covers (h : Spans covers es xs) {a b : α} (ha : a ∈ es) (hb : b ∈ es)
    (hcovers : covers a b) : a = b := by
  have hsymm : Std.Symm fun a b => ¬covers a b ∧ ¬covers b a := ⟨fun _ _ hab => ⟨hab.2, hab.1⟩⟩
  by_contra hne
  exact (h.apart.forall ha hb hne).1 hcovers

variable {key : α → κ}

theorem Spans.mem_keys (htrans : ∀ a b c, covers a b → covers b c → covers a c)
    (hkey : ∀ a b, covers a b → covers b a → key a = key b) (h : Spans covers es xs)
    (h' : Spans covers es' xs) {k : κ} (hk : k ∈ es.map key) : k ∈ es'.map key := by
  obtain ⟨e, he, rfl⟩ := List.mem_map.mp hk
  obtain ⟨e', he', hover⟩ := h'.covered e (h.sub e he)
  obtain ⟨e'', he'', hback⟩ := h.covered e' (h'.sub e' he')
  obtain rfl := h.eq_of_covers he'' he (htrans _ _ _ hback hover)
  exact List.mem_map.mpr ⟨e', he', hkey _ _ hover hback⟩

theorem Spans.nodup_keys (hsame : ∀ a b, key a = key b → covers a b) (h : Spans covers es xs) :
    (es.map key).Nodup :=
  List.pairwise_map.mpr (h.apart.imp fun hab heq => hab.1 (hsame _ _ heq))

theorem Spans.keys_perm (htrans : ∀ a b c, covers a b → covers b c → covers a c)
    (hkey : ∀ a b, covers a b → covers b a → key a = key b)
    (hsame : ∀ a b, key a = key b → covers a b) (h : Spans covers es xs)
    (h' : Spans covers es' xs) : (es.map key).Perm (es'.map key) :=
  (List.perm_ext_iff_of_nodup (h.nodup_keys hsame) (h'.nodup_keys hsame)).mpr fun _ =>
    ⟨h.mem_keys htrans hkey h', h'.mem_keys htrans hkey h⟩

theorem perm_map_of_keys {f : α → γ} (hperm : (es.map key).Perm (es'.map key))
    (hf : ∀ a ∈ es, ∀ b ∈ es', key a = key b → f a = f b) : (es.map f).Perm (es'.map f) := by
  induction es generalizing es' with
  | nil =>
    have hnil : es' = [] := List.map_eq_nil_iff.mp (List.nil_perm.mp hperm)
    rw [hnil]
  | cons a es ih =>
    have hmem : key a ∈ es'.map key := hperm.subset List.mem_cons_self
    obtain ⟨b, hb, hkey⟩ := List.mem_map.mp hmem
    obtain ⟨front, back, rfl⟩ := List.append_of_mem hb
    have hmove : (front ++ b :: back).Perm (b :: (front ++ back)) := List.perm_middle
    have hrest : (es.map key).Perm ((front ++ back).map key) := by
      have hboth := hperm.trans (hmove.map key)
      rw [List.map_cons, List.map_cons, hkey] at hboth
      exact hboth.cons_inv
    have htail := ih hrest fun x hx y hy => hf x (List.mem_cons_of_mem _ hx) y
      (hmove.symm.subset (List.mem_cons_of_mem _ hy))
    have hhead : f a = f b := hf a List.mem_cons_self b hb hkey.symm
    rw [List.map_cons, hhead]
    exact (htail.cons _).trans (hmove.map f).symm

theorem sum_single [DecidableEq κ] {M : Type*} [AddCommMonoid M] {m : M} {k : κ} {keys : List κ}
    (hnodup : keys.Nodup) (hmem : k ∈ keys) :
    (keys.map fun l => if k = l then m else 0).sum = m := by
  induction keys with
  | nil => exact (List.not_mem_nil hmem).elim
  | cons l keys ih =>
    obtain ⟨hnew, hrest⟩ := List.nodup_cons.mp hnodup
    rw [List.map_cons, List.sum_cons]
    cases List.mem_cons.mp hmem with
    | inl heq =>
      have hnone : keys.map (fun j => if k = j then m else 0) = keys.map fun _ => (0 : M) :=
        List.map_congr_left fun j hj => if_neg fun hkj : k = j => hnew (heq ▸ hkj ▸ hj)
      rw [if_pos heq, hnone]
      simp
    | inr hmem =>
      have hne : k ≠ l := fun heq => hnew (heq ▸ hmem)
      rw [if_neg hne, ih hrest hmem, zero_add]

theorem sum_groups [DecidableEq κ] {M : Type*} [AddCommMonoid M] (key : α → Option κ) (f : α → M)
    {keys : List κ} (hnodup : keys.Nodup) (hkeys : ∀ x ∈ xs, ∀ k, key x = some k → k ∈ keys) :
    ((xs.filter (key · = none)).map f).sum +
        (keys.map fun k => ((xs.filter (key · = some k)).map f).sum).sum = (xs.map f).sum := by
  induction xs with
  | nil => simp
  | cons x xs ih =>
    have hrest := ih fun y hy => hkeys y (List.mem_cons_of_mem _ hy)
    rw [List.map_cons, List.sum_cons, ← hrest]
    have hhead : ∀ p : α → Bool, (((x :: xs).filter p).map f).sum =
        (if p x then f x else 0) + ((xs.filter p).map f).sum := by
      intro p
      cases hp : p x with
      | true => simp [hp]
      | false => simp [hp]
    simp only [hhead, List.sum_map_add, decide_eq_true_eq]
    cases hx : key x with
    | none => simp [add_assoc]
    | some k =>
      have hmem := hkeys x List.mem_cons_self k hx
      simp only [Option.some.injEq, sum_single hnodup hmem, reduceCtorEq, if_false, zero_add]
      exact add_left_comm _ _ _

/-! ## Measure -/

variable (region : α → β → Prop)

theorem sum_filter_of_apart [∀ a, DecidablePred (region a)] (size : β → ℕ) (points : List β)
    (h : es.Pairwise fun a b => ∀ p ∈ points, region a p → ¬region b p) :
    ((points.filter fun p => ∃ e ∈ es, region e p).map size).sum =
      (es.map fun e => ((points.filter (region e ·)).map size).sum).sum := by
  induction es with
  | nil => simp
  | cons a es ih =>
    obtain ⟨hhead, htail⟩ := List.pairwise_cons.mp h
    rw [List.map_cons, List.sum_cons, ← ih htail]
    clear ih h htail
    induction points with
    | nil => rfl
    | cons p points ih =>
      have hrest := ih fun e he q hq => hhead e he q (List.mem_cons_of_mem _ hq)
      have hother : region a p → ¬∃ e ∈ es, region e p := by
        rintro ha ⟨e, he, hep⟩
        exact hhead e he p List.mem_cons_self ha hep
      have hsplit : (∃ e ∈ a :: es, region e p) ↔ region a p ∨ ∃ e ∈ es, region e p := by
        simp
      by_cases ha : region a p
      · have hnone := hother ha
        simp only [List.filter_cons, hsplit, ha, hnone, or_false, decide_true, decide_false,
          if_true, Bool.false_eq_true, if_false, List.map_cons, List.sum_cons] at hrest ⊢
        omega
      · by_cases hb : ∃ e ∈ es, region e p
        · simp only [List.filter_cons, hsplit, ha, hb, or_true, decide_true, decide_false,
            if_true, Bool.false_eq_true, if_false, List.map_cons, List.sum_cons] at hrest ⊢
          omega
        · simp only [List.filter_cons, hsplit, ha, hb, or_false, decide_false,
            Bool.false_eq_true, if_false] at hrest ⊢
          exact hrest

theorem Spans.sum_filter [∀ a, DecidablePred (region a)]
    (hmono : ∀ a b p, covers a b → region b p → region a p)
    (hcomparable : ∀ a b p, region a p → region b p → covers a b ∨ covers b a) (size : β → ℕ)
    (points : List β) (h : Spans covers es xs) :
    ((points.filter fun p => ∃ x ∈ xs, region x p).map size).sum =
      (es.map fun e => ((points.filter (region e ·)).map size).sum).sum := by
  have hunion : ∀ p, (∃ x ∈ xs, region x p) ↔ ∃ e ∈ es, region e p := by
    intro p
    constructor
    · rintro ⟨x, hx, hp⟩
      obtain ⟨e, he, hcovers⟩ := h.covered x hx
      exact ⟨e, he, hmono _ _ _ hcovers hp⟩
    · rintro ⟨e, he, hp⟩
      exact ⟨e, h.sub e he, hp⟩
  rw [← sum_filter_of_apart region size points (h.apart.imp ?_)]
  · simp only [hunion]
  · intro a b hab p _ ha hb
    cases hcomparable _ _ _ ha hb with
    | inl hcovers => exact hab.1 hcovers
    | inr hcovers => exact hab.2 hcovers

end Coverage
