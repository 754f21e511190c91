import Mathlib.Order.Interval.Finset.Nat

/-!
# Tickets of a counter

Clients read a shared counter and take the next ticket by compare and set. A
ticket is the value that the counter has afterwards, and it may get lost.

*Issued.*  The tickets in circulation are distinct and not above the counter.
Losing tickets and advancing the counter keep that, and so does taking a ticket.

*Bags.*  A list of clients is looked at as a multiset, where `set` and `eraseIdx`
take one client out. `countP_set` counts the clients after one of them changed.
-/

namespace Tickets

/-! ## Bags of clients -/

section Bags

variable {α : Type*} {l : List α} {i : Nat} {a : α}

theorem coe_eq_cons_eraseIdx (h : l[i]? = some a) : (l : Multiset α) = a ::ₘ ↑(l.eraseIdx i) := by
  obtain ⟨hi, rfl⟩ := List.getElem?_eq_some_iff.mp h
  exact Multiset.coe_eq_coe.mpr (List.getElem_cons_eraseIdx_perm hi).symm

theorem coe_set (h : l[i]? = some a) (b : α) :
    (↑(l.set i b) : Multiset α) = b ::ₘ ↑(l.eraseIdx i) := by
  obtain ⟨hi, -⟩ := List.getElem?_eq_some_iff.mp h
  exact Multiset.coe_eq_coe.mpr (List.set_perm_cons_eraseIdx hi b)

theorem countP_set (h : l[i]? = some a) (b : α) (p : α → Bool) :
    (l.set i b).countP p + (if p a then 1 else 0) = l.countP p + (if p b then 1 else 0) := by
  have hl : l.countP p = (a :: l.eraseIdx i).countP p := by
    obtain ⟨hi, rfl⟩ := List.getElem?_eq_some_iff.mp h
    exact (List.getElem_cons_eraseIdx_perm hi).countP_eq p |>.symm
  have hset : (l.set i b).countP p = (b :: l.eraseIdx i).countP p := by
    obtain ⟨hi, -⟩ := List.getElem?_eq_some_iff.mp h
    exact (List.set_perm_cons_eraseIdx hi b).countP_eq p
  rw [hl, hset, List.countP_cons, List.countP_cons]
  omega

end Bags

/-! ## Tickets in circulation -/

/-- Tickets of a counter: distinct, and not above the counter. -/
structure Issued (count : Nat) (tickets : Multiset Nat) : Prop where
  nodup : tickets.Nodup
  range : ∀ t ∈ tickets, 1 ≤ t ∧ t ≤ count

namespace Issued

variable {count : Nat} {tickets : Multiset Nat}

theorem zero (count : Nat) : Issued count 0 := ⟨Multiset.nodup_zero, by simp⟩

theorem lose {tickets' : Multiset Nat} (h : Issued count tickets) (hle : tickets' ≤ tickets) :
    Issued count tickets' :=
  ⟨Multiset.nodup_of_le hle h.nodup, fun t ht => h.range t (Multiset.mem_of_le hle ht)⟩

theorem advance {count' : Nat} (h : Issued count tickets) (hle : count ≤ count') :
    Issued count' tickets :=
  ⟨h.nodup, fun t ht => ⟨(h.range t ht).1, (h.range t ht).2.trans hle⟩⟩

theorem take (h : Issued count tickets) : Issued (count + 1) ((count + 1) ::ₘ tickets) := by
  refine ⟨Multiset.nodup_cons.mpr ⟨fun hmem => ?_, h.nodup⟩, fun t ht => ?_⟩
  · have := (h.range _ hmem).2
    omega
  · rcases Multiset.mem_cons.mp ht with rfl | ht
    · omega
    · have := h.range t ht
      omega

theorem card_le {bound : Nat} (h : Issued count tickets) (hb : ∀ t ∈ tickets, t ≤ bound) :
    tickets.card ≤ bound := by
  have hsub : (⟨tickets, h.nodup⟩ : Finset Nat) ⊆ Finset.Icc 1 bound := fun t ht =>
    Finset.mem_Icc.mpr ⟨(h.range t ht).1, hb t ht⟩
  simpa using Finset.card_le_card hsub

end Issued

end Tickets
