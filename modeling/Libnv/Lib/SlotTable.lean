import Mathlib.Data.List.Basic

/-!
# Tables of slots

A table is a list of slots that is searched from the front.  A slot that a search
finds splits the table: nothing before it has the property, and writing it leaves
the other slots where they are.
-/

namespace Libnv.SlotTable

universe u v

variable {α : Type u} {p : α → Bool} {slots left right : List α} {old new : α}

/-- A search that finds slot `i` splits the table there. -/
theorem split_of_findIdx? {i : Nat} (h : slots.findIdx? p = some i) :
    ∃ left old right, slots = left ++ old :: right ∧ left.length = i ∧ p old = true ∧
      ∀ slot ∈ left, p slot = false := by
  obtain ⟨hi, hp, hbefore⟩ := List.findIdx?_eq_some_iff_getElem.mp h
  refine ⟨slots.take i, slots[i], slots.drop (i + 1), ?_, ?_, hp, ?_⟩
  · rw [← List.drop_eq_getElem_cons hi, List.take_append_drop]
  · exact List.length_take_of_le (Nat.le_of_lt hi)
  · intro slot hslot
    obtain ⟨j, hj, rfl⟩ := List.mem_iff_getElem.mp hslot
    rw [List.length_take] at hj
    rw [List.getElem_take]
    exact Bool.eq_false_iff.mpr (hbefore j (by omega))

theorem set_split (left right : List α) (old new : α) :
    (left ++ old :: right).set left.length new = left ++ new :: right := by
  rw [List.set_append_right _ _ (Nat.le_refl _), Nat.sub_self, List.set_cons_zero]

theorem modify_split (left right : List α) (old : α) (f : α → α) :
    (left ++ old :: right).modify left.length f = left ++ f old :: right := by
  induction left with
  | nil => rfl
  | cons slot left ih => simp [ih]

/-- A search that neither the old nor the new slot answers does not notice the change. -/
theorem find?_replace (hold : p old = false) (hnew : p new = false) :
    (left ++ new :: right).find? p = (left ++ old :: right).find? p := by
  simp [List.find?_append, hold, hnew]

/-- A search that nothing before the slot answers finds the slot. -/
theorem find?_first (hleft : ∀ slot ∈ left, p slot = false) (hnew : p new = true) :
    (left ++ new :: right).find? p = some new := by
  have hnone : left.find? p = none :=
    List.find?_eq_none.mpr fun slot hslot => Bool.eq_false_iff.mp (hleft slot hslot)
  simp [List.find?_append, hnone, hnew]

/-- Removing the first slot with a label, seen on the labels. -/
theorem map_eraseP {β : Type v} [DecidableEq β] (f : α → β) (b : β) (slots : List α) :
    (slots.eraseP fun slot => f slot = b).map f = (slots.map f).erase b := by
  induction slots with
  | nil => rfl
  | cons slot slots ih =>
      by_cases hslot : f slot = b
      · rw [List.eraseP_cons_of_pos (by simpa using hslot), List.map_cons, hslot,
          List.erase_cons_head]
      · rw [List.eraseP_cons_of_neg (by simpa using hslot), List.map_cons, List.map_cons,
          List.erase_cons_tail (by simpa using hslot), ih]

end Libnv.SlotTable
