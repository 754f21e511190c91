import Mathlib

/-!
# Masking secrets in a text

`replaceAll` replaces every occurrence of a text by a mask, from left to right, and
`maskAll` masks several texts in one pass, at each place the longest one that starts there.

*Apart.*  A secret is apart from the mask when it neither contains the mask nor is a part of
it nor overlaps one of its ends. Such a secret never occurs in a masked text where it did
not occur before, because an occurrence would have to touch a mask.

*Nested.*  Where every two occurrences of secrets in a text are disjoint or one lies in the
other, replacing the secrets one after the other, longer ones first, does what the one pass
does (`foldl_replaceAll`), whatever the order of the secrets of one length. The pass then
shows nothing but what lies outside of all occurrences (`maskAll_congr`).
-/

namespace Masking

variable {α : Type*} [DecidableEq α] (mask : List α)

/-- Replace a text that is not empty, after some characters that are part of the occurrence
that was replaced last. -/
def replaceFrom (old : List α) : Nat → List α → List α
  | _, [] => []
  | n + 1, _ :: x => replaceFrom old n x
  | 0, c :: x =>
    if old.isPrefixOf (c :: x) then mask ++ replaceFrom old (old.length - 1) x
    else c :: replaceFrom old 0 x

/-- Replace all occurrences of a text that is not empty. -/
def replaceAll (old x : List α) : List α := replaceFrom mask old 0 x

/-- The length of the longest of some texts at the start of a text. -/
def longest (secrets : List (List α)) (x : List α) : Nat :=
  ((secrets.filter (·.isPrefixOf x)).map List.length).foldr max 0

/-- Mask texts in one pass, after some characters that are masked already. -/
def maskFrom (secrets : List (List α)) : Nat → List α → List α
  | _, [] => []
  | n + 1, _ :: x => maskFrom secrets n x
  | 0, c :: x =>
    if longest secrets (c :: x) = 0 then c :: maskFrom secrets 0 x
    else mask ++ maskFrom secrets (longest secrets (c :: x) - 1) x

/-- Mask at each place the longest text that starts there. -/
def maskAll (secrets : List (List α)) (x : List α) : List α := maskFrom mask secrets 0 x

omit [DecidableEq α] in
/-- A text does not touch the mask. -/
structure Apart (s : List α) : Prop where
  ne_nil : s ≠ []
  not_part : ¬s <:+: mask
  not_has : ¬mask <:+: s
  not_before : ∀ u, u ≠ [] → u <:+ s → ¬u <+: mask
  not_behind : ∀ u, u ≠ [] → u <+: s → ¬u <:+ mask

variable {secrets : List (List α)} {x : List α}

omit [DecidableEq α] in
/-- A text that has no character with the mask in common is apart from it. -/
theorem apart_of_disjoint {mask s : List α} (hs : s ≠ []) (hmask : mask ≠ [])
    (h : ∀ c ∈ s, c ∉ mask) : Apart mask s := by
  have hshare : ∀ u : List α, u ≠ [] → u ⊆ s → ¬u ⊆ mask := by
    intro u hne hus hum
    obtain ⟨c, hc⟩ := List.exists_mem_of_ne_nil u hne
    exact h c (hus hc) (hum hc)
  exact ⟨hs, fun hp => hshare s hs (List.Subset.refl s) hp.subset,
    fun hp => hshare mask hmask hp.subset (List.Subset.refl mask),
    fun u hne hus hum => hshare u hne hus.subset hum.subset,
    fun u hne hus hum => hshare u hne hus.subset hum.subset⟩

/-! ## The longest secret -/

section Longest

variable {secrets : List (List α)} {s t x : List α}

theorem length_le_longest (hs : s ∈ secrets) (h : s <+: x) : s.length ≤ longest secrets x := by
  have hmem : s.length ∈ (secrets.filter (·.isPrefixOf x)).map List.length :=
    List.mem_map_of_mem (List.mem_filter.mpr ⟨hs, List.isPrefixOf_iff_prefix.mpr h⟩)
  have hle : ∀ ns : List Nat, ∀ n ∈ ns, n ≤ ns.foldr max 0 := by
    intro ns
    induction ns with
    | nil => simp
    | cons m ns ih =>
      intro n hn
      rcases List.mem_cons.mp hn with rfl | hn
      · exact Nat.le_max_left _ _
      · exact (ih n hn).trans (Nat.le_max_right _ _)
  exact hle _ _ hmem

theorem exists_longest (h : 0 < longest secrets x) :
    ∃ s ∈ secrets, s <+: x ∧ s.length = longest secrets x := by
  have hex : ∀ ns : List Nat, 0 < ns.foldr max 0 → ns.foldr max 0 ∈ ns := by
    intro ns
    induction ns with
    | nil => simp
    | cons m ns ih =>
      intro hpos
      rw [List.foldr_cons] at hpos ⊢
      rcases Nat.le_total (ns.foldr max 0) m with hle | hle
      · rw [Nat.max_eq_left hle]
        exact List.mem_cons_self
      · rw [Nat.max_eq_right hle] at hpos ⊢
        exact List.mem_cons_of_mem _ (ih hpos)
  obtain ⟨s, hs, hlen⟩ := List.mem_map.mp (hex _ h)
  obtain ⟨hmem, hprefix⟩ := List.mem_filter.mp hs
  exact ⟨s, hmem, List.isPrefixOf_iff_prefix.mp hprefix, hlen⟩

theorem longest_eq_zero (h : ∀ s ∈ secrets, s ≠ [] → ¬s <+: x) : longest secrets x = 0 := by
  by_contra hne
  obtain ⟨s, hs, hprefix, hlen⟩ := exists_longest (Nat.pos_of_ne_zero hne)
  refine h s hs ?_ hprefix
  rintro rfl
  exact hne hlen.symm

theorem not_prefix_of_longest_eq_zero (h : longest secrets x = 0) (hs : s ∈ secrets)
    (hne : s ≠ []) : ¬s <+: x := by
  intro hprefix
  have hle := length_le_longest hs hprefix
  have hpos := List.length_pos_iff.mpr hne
  omega

theorem longest_le_length : longest secrets x ≤ x.length := by
  rcases Nat.eq_zero_or_pos (longest secrets x) with h | h
  · omega
  · obtain ⟨s, -, hprefix, hlen⟩ := exists_longest h
    exact hlen ▸ hprefix.length_le

/-- A number that is the length of a secret at the start, and not less than the others. -/
theorem longest_eq_of (hs : s ∈ secrets) (h : s <+: x)
    (hle : ∀ t ∈ secrets, t <+: x → t.length ≤ s.length) : longest secrets x = s.length := by
  refine Nat.le_antisymm ?_ (length_le_longest hs h)
  rcases Nat.eq_zero_or_pos (longest secrets x) with hzero | hpos
  · omega
  · obtain ⟨t, ht, hprefix, hlen⟩ := exists_longest hpos
    exact hlen ▸ hle t ht hprefix

theorem longest_congr {secrets' : List (List α)} (h : ∀ s, s ∈ secrets ↔ s ∈ secrets')
    (x : List α) : longest secrets x = longest secrets' x := by
  rcases Nat.eq_zero_or_pos (longest secrets x) with hzero | hpos
  · rw [hzero]
    exact (longest_eq_zero fun s hs hne =>
      not_prefix_of_longest_eq_zero hzero ((h s).mpr hs) hne).symm
  · obtain ⟨s, hs, hprefix, hlen⟩ := exists_longest hpos
    rw [← hlen]
    refine (longest_eq_of ((h s).mp hs) hprefix fun t ht htx => ?_).symm
    exact hlen ▸ length_le_longest ((h t).mpr ht) htx

end Longest

/-! ## Unfolding -/

section Unfold

variable {mask} {secrets : List (List α)} {s x : List α} {c : α}

theorem maskFrom_eq (n : Nat) (x : List α) :
    maskFrom mask secrets n x = maskAll mask secrets (x.drop n) := by
  induction x generalizing n with
  | nil => cases n <;> rfl
  | cons c x ih =>
    cases n with
    | zero => rfl
    | succ n => exact ih n

theorem replaceFrom_eq (n : Nat) (x : List α) :
    replaceFrom mask s n x = replaceAll mask s (x.drop n) := by
  induction x generalizing n with
  | nil => cases n <;> rfl
  | cons c x ih =>
    cases n with
    | zero => rfl
    | succ n => exact ih n

theorem maskAll_cons_of_zero (h : longest secrets (c :: x) = 0) :
    maskAll mask secrets (c :: x) = c :: maskAll mask secrets x := by
  rw [maskAll, maskFrom, if_pos h]
  rfl

theorem maskAll_of_pos (h : 0 < longest secrets x) :
    maskAll mask secrets x = mask ++ maskAll mask secrets (x.drop (longest secrets x)) := by
  cases x with
  | nil =>
    have hle : longest secrets [] ≤ 0 := longest_le_length
    omega
  | cons c x =>
    rw [maskAll, maskFrom, if_neg (by omega), maskFrom_eq]
    obtain ⟨n, hn⟩ := Nat.exists_eq_succ_of_ne_zero (Nat.pos_iff_ne_zero.mp h)
    rw [hn]
    rfl

theorem replaceAll_cons_of_not_starts (h : ¬s <+: c :: x) :
    replaceAll mask s (c :: x) = c :: replaceAll mask s x := by
  rw [replaceAll, replaceFrom, if_neg (fun hp => h (List.isPrefixOf_iff_prefix.mp hp))]
  rfl

theorem replaceAll_of_starts (hne : s ≠ []) (h : s <+: x) :
    replaceAll mask s x = mask ++ replaceAll mask s (x.drop s.length) := by
  cases x with
  | nil => exact (hne (List.prefix_nil.mp h)).elim
  | cons c x =>
    rw [replaceAll, replaceFrom, if_pos (List.isPrefixOf_iff_prefix.mpr h), replaceFrom_eq]
    obtain ⟨n, hn⟩ := Nat.exists_eq_succ_of_ne_zero
      (Nat.pos_iff_ne_zero.mp (List.length_pos_iff.mpr hne))
    rw [hn]
    rfl

theorem replaceAll_eq_maskAll (hne : s ≠ []) (x : List α) :
    replaceAll mask s x = maskAll mask [s] x := by
  induction hn : x.length using Nat.strong_induction_on generalizing x with
  | _ n ih =>
    subst hn
    cases x with
    | nil => rfl
    | cons c x =>
      by_cases h : s <+: c :: x
      · have hlongest : longest [s] (c :: x) = s.length := by
          refine longest_eq_of (List.mem_singleton_self s) h fun t ht _ => ?_
          rw [List.mem_singleton.mp ht]
        have hpos := List.length_pos_iff.mpr hne
        rw [replaceAll_of_starts hne h, maskAll_of_pos (by omega), hlongest, ih _ _ _ rfl]
        rw [List.length_drop, List.length_cons]
        omega
      · have hlongest : longest [s] (c :: x) = 0 := by
          refine longest_eq_zero fun t ht _ => ?_
          rw [List.mem_singleton.mp ht]
          exact h
        rw [replaceAll_cons_of_not_starts h, maskAll_cons_of_zero hlongest, ih _ _ _ rfl]
        simp

theorem maskAll_congr_secrets {secrets' : List (List α)} (h : ∀ s, s ∈ secrets ↔ s ∈ secrets')
    (x : List α) : maskAll mask secrets x = maskAll mask secrets' x := by
  induction hn : x.length using Nat.strong_induction_on generalizing x with
  | _ n ih =>
    subst hn
    cases x with
    | nil => rfl
    | cons c x =>
      have hlongest := longest_congr h (c :: x)
      rcases Nat.eq_zero_or_pos (longest secrets (c :: x)) with hzero | hpos
      · rw [maskAll_cons_of_zero hzero, maskAll_cons_of_zero (hlongest ▸ hzero),
          ih _ (by simp) x rfl]
      · have hpos' : 0 < longest secrets' (c :: x) := hlongest ▸ hpos
        have hnext := ih _ (by rw [List.length_drop, List.length_cons]; omega)
          ((c :: x).drop (longest secrets (c :: x))) rfl
        rw [maskAll_of_pos hpos, hnext, hlongest, ← maskAll_of_pos hpos']

end Unfold

/-! ## Texts that do not touch the mask -/

section Apart

variable {mask} {secrets : List (List α)} {s x : List α}

omit [DecidableEq α] in
/-- A text that is apart from the mask does not start inside of it. -/
theorem Apart.infix_behind (hs : Apart mask s) {a z : List α} (ha : a <:+ mask)
    (h : s <:+: a ++ z) : s <:+: z := by
  induction a with
  | nil => exact h
  | cons d a ih =>
    have ha' : a <:+ mask := (List.suffix_cons d a).trans ha
    rw [List.cons_append] at h
    rcases List.infix_cons_iff.mp h with hprefix | hinfix
    · have hp : d :: a <+: d :: (a ++ z) := List.prefix_append (d :: a) z
      rcases List.prefix_or_prefix_of_prefix hprefix hp with hsa | has
      · exact (hs.not_part (hsa.isInfix.trans ha.isInfix)).elim
      · exact (hs.not_behind _ (List.cons_ne_nil d a) has ha).elim
    · exact ih ha' hinfix

theorem Apart.replaceAll_append (hs : Apart mask s) {a : List α} (ha : a <:+ mask) (z : List α) :
    replaceAll mask s (a ++ z) = a ++ replaceAll mask s z := by
  induction a with
  | nil => rfl
  | cons d a ih =>
    have hnot : ¬s <+: d :: (a ++ z) := by
      intro hprefix
      have hp : d :: a <+: d :: (a ++ z) := List.prefix_append (d :: a) z
      rcases List.prefix_or_prefix_of_prefix hprefix hp with hsa | has
      · exact hs.not_part (hsa.isInfix.trans ha.isInfix)
      · exact hs.not_behind _ (List.cons_ne_nil d a) has ha
    rw [List.cons_append, replaceAll_cons_of_not_starts hnot,
      ih ((List.suffix_cons d a).trans ha)]
    rfl

/-- What is left at the start of a masked text was there before, and no secret was. -/
theorem Apart.prefix_of_maskAll (hs : Apart mask s) {u : List α} (hu : u <:+ s) (hne : u ≠ [])
    (h : u <+: maskAll mask secrets x) : u <+: x ∧ longest secrets x = 0 := by
  induction x generalizing u with
  | nil => exact (hne (List.prefix_nil.mp h)).elim
  | cons c x ih =>
    rcases Nat.eq_zero_or_pos (longest secrets (c :: x)) with hzero | hpos
    · rw [maskAll_cons_of_zero hzero] at h
      refine ⟨?_, hzero⟩
      cases u with
      | nil => exact (hne rfl).elim
      | cons d u =>
        obtain ⟨rfl, hrest⟩ := List.cons_prefix_cons.mp h
        by_cases hu' : u = []
        · subst hu'
          exact List.cons_prefix_cons.mpr ⟨rfl, List.nil_prefix⟩
        · exact List.cons_prefix_cons.mpr ⟨rfl, (ih ((List.suffix_cons d u).trans hu) hu' hrest).1⟩
    · rw [maskAll_of_pos hpos] at h
      rcases List.prefix_or_prefix_of_prefix h (List.prefix_append mask _) with hum | hmu
      · exact (hs.not_before u hne hu hum).elim
      · exact (hs.not_has (hmu.isInfix.trans hu.isInfix)).elim

/-- A text in a masked text was there before, at a place where no secret starts. -/
theorem Apart.infix_of_maskAll (hs : Apart mask s) (h : s <:+: maskAll mask secrets x) :
    ∃ y, y <:+ x ∧ s <+: y ∧ longest secrets y = 0 := by
  induction hn : x.length using Nat.strong_induction_on generalizing x with
  | _ n ih =>
    subst hn
    cases x with
    | nil => exact (hs.ne_nil (List.infix_nil.mp h)).elim
    | cons c x =>
      rcases Nat.eq_zero_or_pos (longest secrets (c :: x)) with hzero | hpos
      · have hcons : maskAll mask secrets (c :: x) = c :: maskAll mask secrets x :=
          maskAll_cons_of_zero hzero
        rw [hcons] at h
        rcases List.infix_cons_iff.mp h with hprefix | hinfix
        · rw [← hcons] at hprefix
          obtain ⟨hx, -⟩ := hs.prefix_of_maskAll List.suffix_rfl hs.ne_nil hprefix
          exact ⟨_, List.suffix_rfl, hx, hzero⟩
        · obtain ⟨y, hy, hsy, hlongest⟩ := ih _ (by simp) hinfix rfl
          exact ⟨y, hy.trans (List.suffix_cons c x), hsy, hlongest⟩
      · rw [maskAll_of_pos hpos] at h
        obtain ⟨y, hy, hsy, hlongest⟩ := ih _ (by rw [List.length_drop, List.length_cons]; omega)
          (hs.infix_behind List.suffix_rfl h) rfl
        exact ⟨y, hy.trans (List.drop_suffix _ _), hsy, hlongest⟩

theorem Apart.not_infix_replaceAll (hs : Apart mask s) (x : List α) :
    ¬s <:+: replaceAll mask s x := by
  rw [replaceAll_eq_maskAll hs.ne_nil]
  intro h
  obtain ⟨y, -, hsy, hlongest⟩ := hs.infix_of_maskAll h
  exact not_prefix_of_longest_eq_zero hlongest (List.mem_singleton_self s) hs.ne_nil hsy

theorem Apart.infix_of_replaceAll {t : List α} (hs : Apart mask s) (ht : t ≠ [])
    (h : s <:+: replaceAll mask t x) : s <:+: x := by
  rw [replaceAll_eq_maskAll ht] at h
  obtain ⟨y, hy, hsy, -⟩ := hs.infix_of_maskAll h
  exact hsy.isInfix.trans hy.isInfix

theorem not_infix_foldl_replaceAll {order : List (List α)} (horder : ∀ t ∈ order, Apart mask t)
    (hs : s ∈ order) (x : List α) : ¬s <:+: order.foldl (fun x t => replaceAll mask t x) x := by
  have hkeep : ∀ (rest : List (List α)) (x : List α), (∀ t ∈ rest, Apart mask t) →
      Apart mask s → ¬s <:+: x → ¬s <:+: rest.foldl (fun x t => replaceAll mask t x) x := by
    intro rest
    induction rest with
    | nil => exact fun x _ _ hx => hx
    | cons t rest ih =>
      intro x hrest hsapart hx
      refine ih _ (fun u hu => hrest u (List.mem_cons_of_mem _ hu)) hsapart fun h => hx ?_
      exact hsapart.infix_of_replaceAll (hrest t List.mem_cons_self).ne_nil h
  induction order generalizing x with
  | nil => cases hs
  | cons t order ih =>
    rcases List.mem_cons.mp hs with rfl | hs
    · exact hkeep order _ (fun u hu => horder u (List.mem_cons_of_mem _ hu))
        (horder s List.mem_cons_self) ((horder s List.mem_cons_self).not_infix_replaceAll x)
    · exact ih (fun u hu => horder u (List.mem_cons_of_mem _ hu)) hs _

end Apart

/-! ## Nested occurrences -/

omit [DecidableEq α] in
/-- An occurrence of a secret that starts within another one ends within it. -/
def Nested (secrets : List (List α)) (x : List α) : Prop :=
  ∀ y, y <:+ x → ∀ t ∈ secrets, t <+: y → ∀ k, 0 < k → k < t.length →
    ∀ u ∈ secrets, u ≠ [] → u <+: y.drop k → k + u.length ≤ t.length

omit [DecidableEq α] in
theorem Nested.suffix {x' : List α} (h : Nested secrets x) (hx : x' <:+ x) : Nested secrets x' :=
  fun y hy => h y (hy.trans hx)

omit [DecidableEq α] in
theorem Nested.subset {secrets' : List (List α)} (h : Nested secrets x)
    (hsub : ∀ s ∈ secrets', s ∈ secrets) : Nested secrets' x :=
  fun y hy t ht hty k hk hlt u hu => h y hy t (hsub t ht) hty k hk hlt u (hsub u hu)

omit [DecidableEq α] in
theorem nested_iff_tails : Nested secrets x ↔ ∀ y ∈ x.tails, ∀ t ∈ secrets, t <+: y → ∀ k <
      t.length, 0 < k → ∀ u ∈ secrets, u ≠ [] → u <+: y.drop k → k + u.length ≤ t.length := by
  constructor
  · intro h y hy t ht hty k hlt hk
    exact h y ((List.mem_tails y x).mp hy) t ht hty k hk hlt
  · intro h y hy t ht hty k hk hlt
    exact h y ((List.mem_tails y x).mpr hy) t ht hty k hlt hk

instance (secrets : List (List α)) (x : List α) : Decidable (Nested secrets x) :=
  decidable_of_iff _ nested_iff_tails.symm

section OnePass

variable {mask} {secrets : List (List α)} {s x : List α} {μ : List α → Nat}

theorem maskAll_take_append {n : Nat} (hn : n ≤ x.length)
    (h : ∀ k < n, longest secrets (x.drop k) = 0) :
    maskAll mask secrets x = x.take n ++ maskAll mask secrets (x.drop n) := by
  induction n generalizing x with
  | zero => rfl
  | succ n ih =>
    cases x with
    | nil => simp at hn
    | cons c x =>
      have hrest := ih (x := x) (by simpa using hn) fun k hk => h (k + 1) (by omega)
      rw [maskAll_cons_of_zero (h 0 (by omega)), hrest]
      rfl

section

variable (hμ : ∀ a b : List α, a <:+: b → a ≠ b → μ a < μ b)

include hμ

/-- Within an occurrence of a secret no secret starts that is not smaller: it would be a part
of it. -/
theorem longest_drop_eq_zero
    (hle : ∀ t ∈ secrets, μ s ≤ μ t) (hnested : Nested (s :: secrets) x) (hsx : s <+: x)
    (hzero : longest secrets x = 0) : ∀ k < s.length, longest secrets (x.drop k) = 0 := by
  intro k hk
  rcases Nat.eq_zero_or_pos k with rfl | hkpos
  · exact hzero
  · refine longest_eq_zero fun t ht htne htx => ?_
    have hend := hnested _ List.suffix_rfl s List.mem_cons_self hsx k hkpos hk t
      (List.mem_cons_of_mem _ ht) htne htx
    have hpart : t <+: s.drop k := by
      obtain ⟨rest, hrest⟩ := hsx
      rw [← hrest, List.drop_append_of_le_length (by omega)] at htx
      exact List.prefix_of_prefix_length_le htx (List.prefix_append _ _)
        (by rw [List.length_drop]; omega)
    have hne : t ≠ s := by
      rintro rfl
      omega
    have hlt := hμ t s (hpart.isInfix.trans (List.drop_suffix k s).isInfix) hne
    exact absurd (hle t ht) (by omega)

/-- One more secret, which is not longer than those masked already. Lengths are taken in any
measure in which a part of a text is less than the text. -/
theorem replaceAll_maskAll
    (hs : Apart mask s) (hle : ∀ t ∈ secrets, μ s ≤ μ t) (hnested : Nested (s :: secrets) x) :
    replaceAll mask s (maskAll mask secrets x) = maskAll mask (s :: secrets) x := by
  induction hn : x.length using Nat.strong_induction_on generalizing x with
  | _ n ih =>
    subst hn
    cases x with
    | nil => rfl
    | cons c x =>
      have hdrop : ∀ k, 0 < k → replaceAll mask s (maskAll mask secrets ((c :: x).drop k)) =
          maskAll mask (s :: secrets) ((c :: x).drop k) := by
        intro k hk
        refine ih _ ?_ (hnested.suffix (List.drop_suffix _ _)) rfl
        rw [List.length_drop, List.length_cons]
        omega
      rcases Nat.eq_zero_or_pos (longest secrets (c :: x)) with hzero | hpos
      · by_cases hsx : s <+: c :: x
        · have hslen := List.length_pos_iff.mpr hs.ne_nil
          have hfree := longest_drop_eq_zero hμ hle hnested hsx hzero
          have htake : (c :: x).take s.length = s := (List.prefix_iff_eq_take.mp hsx).symm
          have hlongest : longest (s :: secrets) (c :: x) = s.length := by
            refine longest_eq_of List.mem_cons_self hsx fun t ht htx => ?_
            rcases List.mem_cons.mp ht with rfl | ht
            · exact Nat.le_refl _
            · have := length_le_longest ht htx
              omega
          have hprefix : s <+: s ++ maskAll mask secrets ((c :: x).drop s.length) :=
            List.prefix_append _ _
          have hpass := @maskAll_of_pos α _ mask (s :: secrets) (c :: x) (by omega)
          rw [hlongest] at hpass
          rw [maskAll_take_append hsx.length_le hfree, htake,
            replaceAll_of_starts hs.ne_nil hprefix, List.drop_left, hdrop _ hslen, hpass]
        · have hcons : maskAll mask secrets (c :: x) = c :: maskAll mask secrets x :=
            maskAll_cons_of_zero hzero
          have hnot : ¬s <+: c :: maskAll mask secrets x := by
            rw [← hcons]
            exact fun h => hsx (hs.prefix_of_maskAll List.suffix_rfl hs.ne_nil h).1
          have hlongest : longest (s :: secrets) (c :: x) = 0 := by
            refine longest_eq_zero fun t ht htne => ?_
            rcases List.mem_cons.mp ht with rfl | ht
            · exact hsx
            · exact not_prefix_of_longest_eq_zero hzero ht htne
          rw [hcons, replaceAll_cons_of_not_starts hnot, maskAll_cons_of_zero hlongest]
          exact congrArg _ (hdrop 1 (by omega))
      · obtain ⟨t, ht, htx, htlen⟩ := exists_longest hpos
        have hlongest : longest (s :: secrets) (c :: x) = longest secrets (c :: x) := by
          rw [← htlen]
          refine longest_eq_of (List.mem_cons_of_mem _ ht) htx fun u hu hux => ?_
          rcases List.mem_cons.mp hu with rfl | hu
          · by_contra hlt
            have hpart := List.prefix_of_prefix_length_le htx hux (by omega)
            have := hμ t u hpart.isInfix fun heq => by
              rw [heq] at hlt
              omega
            exact absurd (hle t ht) (by omega)
          · exact htlen ▸ length_le_longest hu hux
        have hpass := @maskAll_of_pos α _ mask (s :: secrets) (c :: x) (hlongest ▸ hpos)
        rw [hlongest] at hpass
        rw [maskAll_of_pos hpos, hs.replaceAll_append List.suffix_rfl, hdrop _ hpos, hpass]

/-- Secrets that are replaced one after the other, longer ones first, are masked as in one
pass. -/
theorem foldl_replaceAll {order : List (List α)} (hsorted : order.Pairwise fun a b => μ b ≤ μ a)
    (hapart : ∀ s ∈ order, Apart mask s) (hnested : Nested order x) :
    order.foldl (fun x s => replaceAll mask s x) x = maskAll mask order x := by
  induction order using List.reverseRecOn with
  | nil =>
    induction x with
    | nil => rfl
    | cons c x ih =>
      rw [maskAll_cons_of_zero rfl, ← ih (hnested.suffix (List.suffix_cons c x))]
      rfl
  | append_singleton order s ih =>
    obtain ⟨hsorted', -, hlast⟩ := List.pairwise_append.mp hsorted
    have hmem : ∀ t, t ∈ s :: order ↔ t ∈ order ++ [s] := by simp [or_comm]
    rw [List.foldl_append, ih hsorted' (fun t ht => hapart t (List.mem_append_left _ ht))
      (hnested.subset fun t ht => List.mem_append_left _ ht)]
    show replaceAll mask s (maskAll mask order x) = _
    rw [replaceAll_maskAll hμ (hapart s (by simp))
      (fun t ht => hlast t ht s (List.mem_singleton_self s))
      (hnested.subset fun t ht => (hmem t).mp ht)]
    exact maskAll_congr_secrets hmem x

end

end OnePass

/-! ## The same occurrences -/

omit [DecidableEq α] in
/-- A secret occurs at a place of a text with a length. -/
def OccursAt (secrets : List (List α)) (x : List α) (i n : Nat) : Prop :=
  i + n ≤ x.length ∧ (x.drop i).take n ∈ secrets

omit [DecidableEq α] in
/-- Two texts hold secrets at the same places, and are the same elsewhere. -/
structure SameOccurrences (secrets : List (List α)) (x : List α) (secrets' : List (List α))
    (x' : List α) : Prop where
  length : x.length = x'.length
  occurs : ∀ i n, 0 < n → (OccursAt secrets x i n ↔ OccursAt secrets' x' i n)
  rest : ∀ i, (∀ j n, j ≤ i → i < j + n → ¬OccursAt secrets x j n) → x[i]? = x'[i]?

section Same

variable {mask} {secrets secrets' : List (List α)} {x x' : List α}

variable {i : Nat}

omit [DecidableEq α] in
theorem occursAt_of_starts {s : List α} (hi : i ≤ x.length) (hs : s ∈ secrets)
    (h : s <+: x.drop i) :
    OccursAt secrets x i s.length := by
  have hle := h.length_le
  rw [List.length_drop] at hle
  refine ⟨by omega, ?_⟩
  rwa [← List.prefix_iff_eq_take.mp h]

omit [DecidableEq α] in
theorem exists_of_occursAt {n : Nat} (h : OccursAt secrets x i n) :
    ∃ s ∈ secrets, s <+: x.drop i ∧ s.length = n := by
  refine ⟨_, h.2, List.take_prefix n _, ?_⟩
  have := h.1
  rw [List.length_take, List.length_drop]
  omega

theorem SameOccurrences.longest_le (h : SameOccurrences secrets x secrets' x') (hi : i ≤ x.length) :
    longest secrets (x.drop i) ≤ longest secrets' (x'.drop i) := by
  rcases Nat.eq_zero_or_pos (longest secrets (x.drop i)) with hzero | hpos
  · omega
  · obtain ⟨s, hs, hprefix, hlen⟩ := exists_longest hpos
    have hoccurs := (h.occurs i s.length (by omega)).mp (occursAt_of_starts hi hs hprefix)
    obtain ⟨s', hs', hprefix', hlen'⟩ := exists_of_occursAt hoccurs
    have := length_le_longest hs' hprefix'
    omega

omit [DecidableEq α] in
theorem SameOccurrences.refl (secrets : List (List α)) (x : List α) :
    SameOccurrences secrets x secrets x :=
  ⟨rfl, fun _ _ _ => Iff.rfl, fun _ _ => rfl⟩

omit [DecidableEq α] in
theorem SameOccurrences.symm (h : SameOccurrences secrets x secrets' x') :
    SameOccurrences secrets' x' secrets x where
  length := h.length.symm
  occurs i n hn := (h.occurs i n hn).symm
  rest i hfree := by
    refine (h.rest i fun j n hj hi hoccurs => hfree j n hj hi ?_).symm
    exact (h.occurs j n (by omega)).mp hoccurs

theorem SameOccurrences.longest_eq (h : SameOccurrences secrets x secrets' x') (hi : i ≤ x.length) :
    longest secrets (x.drop i) = longest secrets' (x'.drop i) :=
  Nat.le_antisymm (h.longest_le hi) (h.symm.longest_le (h.length ▸ hi))

omit [DecidableEq α] in
theorem SameOccurrences.nested (h : SameOccurrences secrets x secrets' x')
    (hnested : Nested secrets x) : Nested secrets' x' := by
  intro y hy t ht hty k hk hlt u hu hune huy
  obtain ⟨i, hi, rfl⟩ : ∃ i ≤ x'.length, y = x'.drop i := by
    refine ⟨x'.length - y.length, Nat.sub_le _ _, ?_⟩
    exact List.suffix_iff_eq_drop.mp hy
  have hle := hty.length_le
  rw [List.length_drop] at hle
  rw [List.drop_drop] at huy
  have hupos := List.length_pos_iff.mpr hune
  have ht' := (h.occurs i t.length (by omega)).mpr (occursAt_of_starts hi ht hty)
  have hu' := (h.occurs (i + k) u.length hupos).mpr (occursAt_of_starts (by omega) hu huy)
  obtain ⟨s, hs, hsx, hslen⟩ := exists_of_occursAt ht'
  obtain ⟨v, hv, hvx, hvlen⟩ := exists_of_occursAt hu'
  rw [← List.drop_drop] at hvx
  have hvne : v ≠ [] := List.length_pos_iff.mp (by omega)
  have := hnested _ (List.drop_suffix i x) s hs hsx k hk (by omega) v hv hvne hvx
  omega

/-- The one pass shows the same of two texts that hold nested secrets at the same places. -/
theorem maskAll_congr (h : SameOccurrences secrets x secrets' x') (hnested : Nested secrets x) :
    maskAll mask secrets x = maskAll mask secrets' x' := by
  -- from a place behind all occurrences that start in front of it
  have hfrom : ∀ m i, x.length - i = m → (∀ j < i, ∀ n, OccursAt secrets x j n → j + n ≤ i) →
      maskAll mask secrets (x.drop i) = maskAll mask secrets' (x'.drop i) := by
    intro m
    induction m using Nat.strong_induction_on with
    | _ m ih =>
      intro i hm hbefore
      by_cases hi : i < x.length
      · have hlongest := h.longest_eq (Nat.le_of_lt hi)
        rcases Nat.eq_zero_or_pos (longest secrets (x.drop i)) with hzero | hpos
        · have hnone : ∀ n, 0 < n → ¬OccursAt secrets x i n := by
            intro n hn hoccurs
            obtain ⟨s, hs, hprefix, hlen⟩ := exists_of_occursAt hoccurs
            have := length_le_longest hs hprefix
            omega
          have hsame : x[i]? = x'[i]? := by
            refine h.rest i fun j n hj hlt hoccurs => ?_
            rcases Nat.eq_or_lt_of_le hj with rfl | hj
            · exact hnone n (by omega) hoccurs
            · have := hbefore j hj n hoccurs
              omega
          have hi' : i < x'.length := h.length ▸ hi
          rw [List.getElem?_eq_getElem hi, List.getElem?_eq_getElem hi'] at hsame
          have hzero' := hlongest ▸ hzero
          rw [List.drop_eq_getElem_cons hi] at hzero ⊢
          rw [List.drop_eq_getElem_cons hi'] at hzero' ⊢
          rw [maskAll_cons_of_zero hzero, maskAll_cons_of_zero hzero', Option.some.inj hsame,
            ih (x.length - (i + 1)) (by omega) (i + 1) rfl]
          intro j hj n hoccurs
          rcases Nat.eq_or_lt_of_le (Nat.le_of_lt_succ hj) with rfl | hj
          · rcases Nat.eq_zero_or_pos n with rfl | hn
            · omega
            · exact (hnone n hn hoccurs).elim
          · have := hbefore j hj n hoccurs
            omega
        · obtain ⟨s, hs, hprefix, hlen⟩ := exists_longest hpos
          have hle : longest secrets (x.drop i) ≤ (x.drop i).length := longest_le_length
          have hpass : maskAll mask secrets' (x'.drop i) =
              mask ++ maskAll mask secrets' ((x'.drop i).drop (longest secrets' (x'.drop i))) :=
            maskAll_of_pos (hlongest ▸ hpos)
          rw [maskAll_of_pos hpos, hpass, ← hlongest, List.drop_drop, List.drop_drop,
            ih (x.length - (i + longest secrets (x.drop i))) (by omega)
              (i + longest secrets (x.drop i)) rfl]
          intro j hj n hoccurs
          by_cases hji : j < i
          · have := hbefore j hji n hoccurs
            omega
          · rcases Nat.eq_zero_or_pos n with rfl | hn
            · omega
            · obtain ⟨u, hu, hux, hulen⟩ := exists_of_occursAt hoccurs
              rcases Nat.eq_or_lt_of_le (Nat.le_of_not_lt hji) with rfl | hij
              · have := length_le_longest hu hux
                omega
              · have hdrop : x.drop j = (x.drop i).drop (j - i) := by
                  rw [List.drop_drop]
                  congr 1
                  omega
                have := hnested _ (List.drop_suffix i x) s hs hprefix (j - i) (by omega)
                  (by omega) u hu (List.length_pos_iff.mp (by omega)) (hdrop ▸ hux)
                omega
      · rw [List.drop_of_length_le (by omega), List.drop_of_length_le (by rw [← h.length]; omega)]
        rfl
  exact hfrom _ 0 rfl fun j hj => by omega

end Same

end Masking
