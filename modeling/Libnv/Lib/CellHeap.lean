import Mathlib.Data.Multiset.MapFold
import Mathlib.Data.Multiset.UnionInter
import Mathlib.Logic.Function.Basic

/-!
# Heaps as collections of cells

A heap maps addresses to cells.  It is described by the multiset of the cells in
it; a description that is a sum can be read and changed one part at a time, and
what is not named stays as it is.
-/

namespace Libnv.CellHeap

universe u v

/-- What stands at each address; nothing at one that is not allocated. -/
abbrev Heap (α : Type u) (ν : Type v) :=
  α → Option ν

section Models

variable {α : Type u} {ν : Type v}

/-- The heap consists of the given cells, at different addresses. -/
structure Models (h : Heap α ν) (m : Multiset (α × ν)) : Prop where
  nodup : (m.map Prod.fst).Nodup
  mem_iff : ∀ a n, h a = some n ↔ (a, n) ∈ m

theorem Models.empty : Models (fun _ => none : Heap α ν) 0 where
  nodup := by simp
  mem_iff := by simp

variable {h : Heap α ν} {a b : α} {n n' : ν} {m m' : Multiset (α × ν)}

theorem Models.congr (hm : Models h m) (heq : m = m') : Models h m' :=
  heq ▸ hm

theorem Models.read (hm : Models h ({(a, n)} + m)) : h a = some n :=
  (hm.mem_iff a n).mpr (by simp)

theorem Models.separate (hm : Models h ({(a, n)} + m)) :
    a ∉ m.map Prod.fst ∧ (m.map Prod.fst).Nodup := by
  have hnodup := hm.nodup
  rwa [Multiset.map_add, Multiset.map_singleton, Multiset.singleton_add,
    Multiset.nodup_cons] at hnodup

variable [DecidableEq α]

/-- The heap with a cell at the address. -/
def store (h : Heap α ν) (a : α) (n : ν) : Heap α ν :=
  Function.update h a (some n)

/-- A write to fields of a cell; there must be one. -/
def modify (h : Heap α ν) (a : α) (f : ν → ν) : Option (Heap α ν) :=
  (h a).map fun n => store h a (f n)

/-- A write that changes nothing. -/
theorem modify_eq_self {f : ν → ν} (hread : h a = some n) (hf : f n = n) :
    modify h a f = some h := by
  rw [modify, hread, Option.map_some, hf, store, ← hread, Function.update_eq_self]

theorem Models.store_of_not_mem (hm : ∀ b n', b ≠ a → (h b = some n' ↔ (b, n') ∈ m))
    (hnodup : (m.map Prod.fst).Nodup) (hfresh : a ∉ m.map Prod.fst) :
    Models (store h a n) ({(a, n)} + m) where
  nodup := by
    rw [Multiset.map_add, Multiset.map_singleton, Multiset.singleton_add, Multiset.nodup_cons]
    exact ⟨hfresh, hnodup⟩
  mem_iff := by
    intro b n'
    by_cases hb : b = a
    · subst hb
      have hout : (b, n') ∉ m := fun hmem => hfresh (Multiset.mem_map_of_mem Prod.fst hmem)
      simp [store, hout, eq_comm]
    · rw [store, Function.update_of_ne hb, hm b n' hb]
      simp [hb]

theorem Models.alloc (hm : Models h m) (hfree : h a = none) :
    Models (store h a n) ({(a, n)} + m) := by
  apply Models.store_of_not_mem (fun b n' _ => hm.mem_iff b n') hm.nodup
  intro hmem
  obtain ⟨⟨b, n'⟩, hcell, rfl⟩ := Multiset.mem_map.mp hmem
  rw [(hm.mem_iff b n').mpr hcell] at hfree
  exact Option.some_ne_none _ hfree

/-- A write changes one cell and no other. -/
theorem Models.modify (hm : Models h ({(a, n)} + m)) (f : ν → ν) :
    ∃ h', CellHeap.modify h a f = some h' ∧ Models h' ({(a, f n)} + m) := by
  obtain ⟨hfresh, hnodup⟩ := hm.separate
  refine ⟨store h a (f n), by simp [CellHeap.modify, hm.read], ?_⟩
  apply Models.store_of_not_mem ?_ hnodup hfresh
  intro b n' hb
  rw [hm.mem_iff]
  simp [hb]

end Models

end Libnv.CellHeap
