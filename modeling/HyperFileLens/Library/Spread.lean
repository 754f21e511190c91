import Mathlib

/-!
# Spreading things evenly

*Bins.*  Bins stay balanced when each thing goes into the first bin with the fewest things.

*Gaps.*  The middle of the first of the largest gaps between numbers is a new number, as long as
there are fewer numbers than places.
-/

namespace Spread

/-! ## Bins -/

section Bins

variable {α : Type*} {bins : List (List α)}

/-- No bin has two things more than another. -/
def Balanced (bins : List (List α)) : Prop :=
  ∀ a ∈ bins, ∀ b ∈ bins, a.length ≤ b.length + 1

/-- The first bin with the fewest things. -/
def leastLoaded (bins : List (List α)) : Nat :=
  ((List.range bins.length).argmin fun i => (bins.getD i []).length).getD 0

theorem leastLoaded_mem (h : bins ≠ []) :
    leastLoaded bins ∈ (List.range bins.length).argmin fun i => (bins.getD i []).length := by
  cases hmin : (List.range bins.length).argmin fun i => (bins.getD i []).length with
  | none =>
    rw [List.argmin_eq_none, List.range_eq_nil, List.length_eq_zero_iff] at hmin
    exact absurd hmin h
  | some i => rw [leastLoaded, hmin]; rfl

theorem leastLoaded_lt (h : bins ≠ []) : leastLoaded bins < bins.length :=
  List.mem_range.mp (List.argmin_mem (leastLoaded_mem h))

theorem length_leastLoaded_le {b : List α} (hb : b ∈ bins) :
    (bins.getD (leastLoaded bins) []).length ≤ b.length := by
  obtain ⟨i, hi, rfl⟩ := List.mem_iff_getElem.mp hb
  have hle := List.le_of_mem_argmin (List.mem_range.mpr hi) (leastLoaded_mem (List.ne_nil_of_mem hb))
  simpa only [List.getD_eq_getElem _ _ hi] using hle

theorem mem_modify {f : List α → List α} {i : Nat} {a : List α} (h : a ∈ bins.modify i f) :
    a ∈ bins ∨ i < bins.length ∧ a = f (bins.getD i []) := by
  obtain ⟨j, hj, rfl⟩ := List.mem_iff_getElem.mp h
  rw [List.length_modify] at hj
  rw [List.getElem_modify]
  split
  · rename_i heq
    subst heq
    exact .inr ⟨hj, by rw [List.getD_eq_getElem _ _ hj]⟩
  · exact .inl (List.getElem_mem hj)

/-- A thing in the first bin with the fewest things keeps the bins balanced. -/
theorem Balanced.put (h : Balanced bins) (x : α) :
    Balanced (bins.modify (leastLoaded bins) (· ++ [x])) := by
  intro a ha b hb
  have hlength : ((bins.getD (leastLoaded bins) []) ++ [x]).length =
      (bins.getD (leastLoaded bins) []).length + 1 := by simp
  rcases mem_modify ha with ha | ⟨-, rfl⟩
  · rcases mem_modify hb with hb | ⟨hlt, rfl⟩
    · exact h a ha b hb
    · have hleast : bins.getD (leastLoaded bins) [] ∈ bins := by
        rw [List.getD_eq_getElem _ _ hlt]
        exact List.getElem_mem hlt
      have hle := h a ha _ hleast
      rw [hlength]
      omega
  · rw [hlength]
    rcases mem_modify hb with hb | ⟨-, rfl⟩
    · exact Nat.succ_le_succ (length_leastLoaded_le hb)
    · rw [hlength]
      omega

end Bins

/-! ## Gaps -/

/-- The bounds and the numbers between them, in order. -/
def boundaries (lo hi : Nat) (slots : List Nat) : List Nat :=
  lo :: (slots.insertionSort (· ≤ ·) ++ [hi])

/-- The size of a gap between numbers in order. -/
def gap (pair : Nat × Nat) : Nat := pair.2 - pair.1

def widest (lo hi : Nat) (slots : List Nat) : Nat × Nat :=
  (((boundaries lo hi slots).zip (boundaries lo hi slots).tail).argmax gap).getD (lo, hi)

/-- The middle of the first of the largest gaps. -/
def middle (lo hi : Nat) (slots : List Nat) : Nat :=
  ((widest lo hi slots).1 + (widest lo hi slots).2) / 2

theorem outside_of_mem_zip {bs : List Nat} (hbs : bs.Pairwise (· ≤ ·)) {pair : Nat × Nat}
    (h : pair ∈ bs.zip bs.tail) {x : Nat} (hx : x ∈ bs) : x ≤ pair.1 ∨ pair.2 ≤ x := by
  induction bs with
  | nil => cases hx
  | cons b bs ih =>
    obtain ⟨hfirst, hrest⟩ := List.pairwise_cons.mp hbs
    cases bs with
    | nil => cases h
    | cons c rest =>
      rcases List.mem_cons.mp h with rfl | hin
      · rcases List.mem_cons.mp hx with rfl | hx
        · exact .inl (le_refl _)
        · rcases List.mem_cons.mp hx with rfl | hx
          · exact .inr (le_refl _)
          · exact .inr ((List.pairwise_cons.mp hrest).1 x hx)
      · rcases List.mem_cons.mp hx with rfl | hx
        · have hmem : pair ∈ (c :: rest).zip (c :: rest).tail := hin
          exact .inl (hfirst pair.1 (List.of_mem_zip hmem).1)
        · exact ih hrest hin hx

/-- A list whose neighbours are at most one apart has everything between its ends. -/
theorem mem_of_steps {b : Nat} {bs : List Nat} (hsteps : ∀ pair ∈ (b :: bs).zip bs, gap pair ≤ 1)
    {x : Nat} (hlo : b ≤ x) (hhi : x ≤ (b :: bs).getLast (by simp)) : x ∈ b :: bs := by
  induction bs generalizing b with
  | nil =>
    obtain rfl : b = x := le_antisymm hlo hhi
    exact List.mem_cons_self
  | cons c bs ih =>
    rcases hlo.eq_or_lt with rfl | hlt
    · exact List.mem_cons_self
    · have hstep := hsteps (b, c) (by simp)
      simp only [gap] at hstep
      refine List.mem_cons_of_mem _ (ih (fun pair hpair => hsteps pair (by simp [hpair])) ?_ ?_)
      · omega
      · simpa using hhi

section Gaps

variable {lo hi : Nat} {slots : List Nat}

theorem mem_boundaries {x : Nat} : x ∈ boundaries lo hi slots ↔ x = lo ∨ x ∈ slots ∨ x = hi := by
  simp [boundaries]

theorem pairwise_boundaries (hle : lo ≤ hi) (h : ∀ x ∈ slots, lo ≤ x ∧ x < hi) :
    (boundaries lo hi slots).Pairwise (· ≤ ·) := by
  refine List.pairwise_cons.mpr ⟨fun x hx => ?_, List.pairwise_append.mpr ⟨?_, ?_, ?_⟩⟩
  · rcases List.mem_append.mp hx with hx | hx
    · exact (h x (by simpa using hx)).1
    · obtain rfl : x = hi := by simpa using hx
      exact hle
  · exact List.pairwise_insertionSort _ slots
  · exact List.pairwise_singleton _ _
  · intro x hx y hy
    obtain rfl : y = hi := by simpa using hy
    exact (h x (by simpa using hx)).2.le

theorem widest_mem : widest lo hi slots ∈
    ((boundaries lo hi slots).zip (boundaries lo hi slots).tail).argmax gap := by
  cases hmax : ((boundaries lo hi slots).zip (boundaries lo hi slots).tail).argmax gap with
  | none =>
    rw [List.argmax_eq_none] at hmax
    have hlength := congrArg List.length hmax
    simp [boundaries] at hlength
  | some pair => simp [widest, hmax]

theorem gap_le_widest {pair : Nat × Nat}
    (h : pair ∈ (boundaries lo hi slots).zip (boundaries lo hi slots).tail) :
    gap pair ≤ gap (widest lo hi slots) :=
  List.le_of_mem_argmax h widest_mem

theorem widest_bounds (hlt : lo < hi) (h : ∀ x ∈ slots, lo ≤ x ∧ x < hi) :
    lo ≤ (widest lo hi slots).1 ∧ (widest lo hi slots).2 ≤ hi := by
  have hmem := List.of_mem_zip (List.argmax_mem (@widest_mem lo hi slots))
  constructor
  · rcases mem_boundaries.mp hmem.1 with heq | hslot | heq
    · exact heq.ge
    · exact (h _ hslot).1
    · exact hlt.le.trans_eq heq.symm
  · rcases mem_boundaries.mp (List.mem_of_mem_tail hmem.2) with heq | hslot | heq
    · exact heq.le.trans hlt.le
    · exact (h _ hslot).2.le
    · exact heq.le

/-- Without a gap the boundaries would not get from one end to the other. -/
theorem widest_pos (hlt : lo < hi) : (widest lo hi slots).1 < (widest lo hi slots).2 := by
  by_contra hnot
  have hnone : ∀ pair ∈ (boundaries lo hi slots).zip (boundaries lo hi slots).tail, gap pair ≤ 0 := by
    intro pair hpair
    have hle := gap_le_widest hpair
    simp only [gap] at hle ⊢
    omega
  have hends : ∀ (bs : List Nat) (b : Nat), (∀ pair ∈ (b :: bs).zip bs, gap pair ≤ 0) →
      (b :: bs).getLast (by simp) ≤ b := by
    intro bs
    induction bs with
    | nil => exact fun b _ => le_refl b
    | cons c bs ih =>
      intro b hpairs
      have hstep := hpairs (b, c) (by simp)
      have hlast := ih c fun pair hpair => hpairs pair (by simp [hpair])
      simp only [gap] at hstep
      rw [List.getLast_cons (by simp)]
      omega
  have hlast := hends _ lo hnone
  simp at hlast
  omega

theorem middle_bounds (hlt : lo < hi) (h : ∀ x ∈ slots, lo ≤ x ∧ x < hi) :
    lo ≤ middle lo hi slots ∧ middle lo hi slots < hi := by
  have hbounds := widest_bounds hlt h
  have hpos := @widest_pos lo hi slots hlt
  rw [middle]
  omega

/-- Where the lower bound is free, the first gap starts there; where every gap is a step, it is
the first gap that is taken. -/
theorem widest_free (hlt : lo < hi) (h : ∀ x ∈ slots, lo ≤ x ∧ x < hi) (hfree : lo ∉ slots)
    (hsteps : gap (widest lo hi slots) ≤ 1) : (widest lo hi slots).1 = lo := by
  obtain ⟨b, bs, hb⟩ : ∃ b bs, slots.insertionSort (· ≤ ·) ++ [hi] = b :: bs := by
    cases hlist : slots.insertionSort (· ≤ ·) ++ [hi] with
    | nil => simp at hlist
    | cons b bs => exact ⟨b, bs, rfl⟩
  have hmem : b ∈ slots.insertionSort (· ≤ ·) ++ [hi] := by
    rw [hb]
    exact List.mem_cons_self
  have hgt : lo < b := by
    rcases List.mem_append.mp hmem with hslot | hhi
    · have hslot : b ∈ slots := by simpa using hslot
      exact lt_of_le_of_ne (h b hslot).1 fun heq => hfree (heq ▸ hslot)
    · obtain rfl : b = hi := by simpa using hhi
      exact hlt
  have hzip : (boundaries lo hi slots).zip (boundaries lo hi slots).tail =
      (lo, b) :: (b :: bs).zip bs := by
    rw [boundaries, hb]
    rfl
  have hargmax := @widest_mem lo hi slots
  rw [hzip, List.argmax_cons] at hargmax
  cases hrest : ((b :: bs).zip bs).argmax gap with
  | none =>
    rw [hrest] at hargmax
    rw [← Option.some.inj hargmax]
  | some pair =>
    rw [hrest] at hargmax
    simp only at hargmax
    split at hargmax
    · rename_i hgap
      rw [← Option.some.inj hargmax] at hsteps
      simp only [gap] at hgap hsteps
      omega
    · rw [← Option.some.inj hargmax]

/-- The middle of the largest gap is a new number, as long as there are fewer numbers than
places. -/
theorem middle_notMem (hlt : lo < hi) (h : ∀ x ∈ slots, lo ≤ x ∧ x < hi)
    (hroom : slots.length < hi - lo) : middle lo hi slots ∉ slots := by
  intro hmem
  have hbounds := widest_bounds hlt h
  have hpos := @widest_pos lo hi slots hlt
  have houtside := outside_of_mem_zip (pairwise_boundaries hlt.le h)
    (List.argmax_mem widest_mem) (mem_boundaries.mpr (.inr (.inl hmem)))
  rcases lt_or_ge 1 (gap (widest lo hi slots)) with hwide | hsteps
  · simp only [gap] at hwide
    rw [middle] at houtside
    omega
  · have hmiddle : middle lo hi slots = (widest lo hi slots).1 := by
      simp only [gap] at hsteps
      rw [middle]
      omega
    by_cases hfree : lo ∈ slots
    · -- Every place is taken.
      have hall : List.range' lo (hi - lo) ⊆ slots := by
        intro x hx
        obtain ⟨hxlo, hxhi⟩ := List.mem_range'_1.mp hx
        have hx : x ∈ boundaries lo hi slots := by
          refine mem_of_steps (fun pair hpair => (gap_le_widest hpair).trans hsteps) hxlo ?_
          simp only [List.getLast_cons (List.append_ne_nil_of_right_ne_nil _ (List.cons_ne_nil hi [])),
            List.getLast_append_singleton]
          omega
        rcases mem_boundaries.mp hx with rfl | hx | rfl
        · exact hfree
        · exact hx
        · omega
      have hlength := (List.nodup_range' (s := lo) (n := hi - lo)).subperm hall |>.length_le
      rw [List.length_range'] at hlength
      omega
    · rw [hmiddle, widest_free hlt h hfree hsteps] at hmem
      exact hfree hmem

end Gaps

end Spread
