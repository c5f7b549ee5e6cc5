import Mathlib.Algebra.Order.BigOperators.Group.Finset
import Mathlib.Order.Interval.Finset.Nat
import Mathlib.Algebra.GroupWithZero.Nat

/-!
# Totals over finitely many holders

A total over a finite family changes with one member by the difference of the
member's own values; the same for a list whose members have distinct keys.  The
lengths of disjoint ranges add up to at most the length of a range around them.
-/

namespace Libnv.Tally

universe u v

section Families

variable {ι : Type u} [Fintype ι] {α : Type v}

/-- Replacing one member of a family exchanges its value in the total. -/
theorem sum_update_add [DecidableEq ι] (value : α → Nat) (f : ι → α) (i : ι) (a : α) :
    (∑ j, value (Function.update f i a j)) + value (f i) = (∑ j, value (f j)) + value a := by
  have hnew := Finset.add_sum_erase Finset.univ
    (fun j => value (Function.update f i a j)) (Finset.mem_univ i)
  have hold := Finset.add_sum_erase Finset.univ (fun j => value (f j)) (Finset.mem_univ i)
  have hrest : ∑ j ∈ Finset.univ.erase i, value (Function.update f i a j) =
      ∑ j ∈ Finset.univ.erase i, value (f j) := by
    refine Finset.sum_congr rfl fun j hj => ?_
    rw [Function.update_of_ne (Finset.ne_of_mem_erase hj)]
  simp only [Function.update_self] at hnew
  omega

/-- A member's value is part of the total. -/
theorem le_sum (value : ι → Nat) (i : ι) : value i ≤ ∑ j, value j :=
  Finset.single_le_sum (fun _ _ => Nat.zero_le _) (Finset.mem_univ i)

end Families

section Lists

variable {α : Type u}

/-- Replacing the member with one key exchanges its value in the total of a list. -/
theorem sum_exchange {κ : Type v} [DecidableEq κ] (key : α → κ) (value : α → Nat)
    {l : List α} (hdistinct : (l.map key).Nodup) {b : α} (hb : b ∈ l) (b' : α) :
    ((l.map fun c => if key c = key b then b' else c).map value).sum + value b =
      (l.map value).sum + value b' := by
  induction l with
  | nil => cases hb
  | cons c l ih =>
      rw [List.map_cons, List.nodup_cons] at hdistinct
      obtain ⟨hnotin, hrest⟩ := hdistinct
      simp only [List.map_cons, List.sum_cons]
      rcases List.mem_cons.mp hb with rfl | hmem
      · -- the head is exchanged, and no other member has its key
        have hsame : (l.map fun c => if key c = key b then b' else c) = l := by
          refine (List.map_congr_left fun c hc => if_neg ?_).trans (List.map_id l)
          exact fun heq => hnotin (heq ▸ List.mem_map_of_mem hc)
        rw [if_pos rfl, hsame]
        omega
      · have hne : key c ≠ key b := fun heq =>
          hnotin (heq ▸ List.mem_map_of_mem hmem)
        rw [if_neg hne]
        have := ih hrest hmem
        omega

/-- Ranges inside `[0, n)` that do not overlap have as many members as their union. -/
theorem sum_lengths_eq_card (lo hi : α → Nat) {n : Nat} {l : List α}
    (hapart : l.Pairwise fun b c => hi b ≤ lo c ∨ hi c ≤ lo b) (hbound : ∀ b ∈ l, hi b ≤ n) :
    (l.map fun b => hi b - lo b).sum =
      ((Finset.range n).filter fun x => ∃ b ∈ l, lo b ≤ x ∧ x < hi b).card := by
  induction l with
  | nil => simp
  | cons b l ih =>
      obtain ⟨hhead, htail⟩ := List.pairwise_cons.mp hapart
      have hb := hbound b List.mem_cons_self
      have hsplit : ((Finset.range n).filter fun x => ∃ c ∈ b :: l, lo c ≤ x ∧ x < hi c) =
          Finset.Ico (lo b) (hi b) ∪
            (Finset.range n).filter fun x => ∃ c ∈ l, lo c ≤ x ∧ x < hi c := by
        ext x
        simp only [Finset.mem_filter, Finset.mem_range, List.mem_cons, exists_eq_or_imp,
          Finset.mem_union, Finset.mem_Ico]
        constructor
        · rintro ⟨hx, h | h⟩
          · exact Or.inl h
          · exact Or.inr ⟨hx, h⟩
        · rintro (h | ⟨hx, h⟩)
          · exact ⟨by omega, Or.inl h⟩
          · exact ⟨hx, Or.inr h⟩
      have hdisjoint : Disjoint (Finset.Ico (lo b) (hi b))
          ((Finset.range n).filter fun x => ∃ c ∈ l, lo c ≤ x ∧ x < hi c) := by
        rw [Finset.disjoint_left]
        intro x hx hx'
        obtain ⟨-, c, hc, hlo, hhi⟩ := Finset.mem_filter.mp hx'
        have hin := Finset.mem_Ico.mp hx
        have := hhead c hc
        omega
      rw [hsplit, Finset.card_union_of_disjoint hdisjoint, Nat.card_Ico, List.map_cons,
        List.sum_cons, ih htail fun c hc => hbound c (List.mem_cons_of_mem b hc)]

/-- Ranges inside `[0, n)` that do not overlap have at most `n` members together. -/
theorem sum_lengths_le (lo hi : α → Nat) {n : Nat} {l : List α}
    (hapart : l.Pairwise fun b c => hi b ≤ lo c ∨ hi c ≤ lo b) (hbound : ∀ b ∈ l, hi b ≤ n) :
    (l.map fun b => hi b - lo b).sum ≤ n := by
  rw [sum_lengths_eq_card lo hi hapart hbound]
  exact (Finset.card_filter_le _ _).trans_eq (Finset.card_range n)

end Lists

end Libnv.Tally
