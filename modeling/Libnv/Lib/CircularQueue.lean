import Mathlib.Logic.Function.Basic
import Libnv.Lib.MaskedRing

/-!
# Circular queues

A queue kept in an array of `capacity` cells with the index of its first
element, the index behind its last one, and their number.  `Holds` says which
list the cells spell; putting an element in and taking one out act on the list
as `++ [x]` and as `tail`.
-/

namespace Libnv.CircularQueue

universe u

variable {α : Type u}

/-- The cells spell `xs`, first element first. -/
structure Holds (cells : Nat → α) (capacity head tail count : Nat) (xs : List α) : Prop where
  length : xs.length = count
  le : count ≤ capacity
  head_lt : head < capacity
  tail_eq : tail = (head + count) % capacity
  cell : ∀ k x, xs[k]? = some x → cells ((head + k) % capacity) = x

variable {cells : Nat → α} {capacity head tail count : Nat} {xs : List α}

theorem Holds.empty (cells : Nat → α) (h : 0 < capacity) : Holds cells capacity 0 0 0 [] where
  length := rfl
  le := Nat.zero_le _
  head_lt := h
  tail_eq := (Nat.zero_mod _).symm
  cell := by simp

/-- An element is put behind the last one. -/
theorem Holds.push (h : Holds cells capacity head tail count xs) (hroom : count ≠ capacity)
    (x : α) :
    Holds (Function.update cells tail x) capacity head ((tail + 1) % capacity) (count + 1)
      (xs ++ [x]) where
  length := by simp [h.length]
  le := Nat.lt_of_le_of_ne h.le hroom
  head_lt := h.head_lt
  tail_eq := by
    rw [h.tail_eq, Nat.mod_add_mod]
    rfl
  cell := by
    intro k y hk
    have hlt := Nat.lt_of_le_of_ne h.le hroom
    have hlen := h.length
    rcases Nat.lt_or_ge k xs.length with hlast | hlast
    · -- the new cell is another one inside the window that starts at the head
      rw [List.getElem?_append_left hlast] at hk
      have hne : (head + k) % capacity ≠ tail := by
        rw [h.tail_eq]
        intro heq
        have := MaskedRing.mod_injOn_window (d := head) (by omega) (by omega) (by omega)
          (by omega) heq
        omega
      rw [Function.update_of_ne hne]
      exact h.cell k y hk
    · rw [List.getElem?_append_right hlast] at hk
      have hzero : k - xs.length = 0 := by
        by_contra hpos
        rw [List.getElem?_eq_none (by simp; omega)] at hk
        cases hk
      have hk' : k = count := by omega
      rw [hzero] at hk
      rw [hk', ← h.tail_eq, Function.update_self]
      simpa using hk

/-- The first element is taken out. -/
theorem Holds.pop {x : α} (h : Holds cells capacity head tail count (x :: xs)) :
    cells head = x ∧
      Holds cells capacity ((head + 1) % capacity) tail (count - 1) xs := by
  have hlen := h.length
  rw [List.length_cons] at hlen
  constructor
  · have hfirst := h.cell 0 x rfl
    rwa [Nat.add_zero, Nat.mod_eq_of_lt h.head_lt] at hfirst
  · refine ⟨by omega, Nat.le_trans (Nat.sub_le _ _) h.le,
      Nat.mod_lt _ (Nat.zero_lt_of_lt h.head_lt), ?_, ?_⟩
    · rw [Nat.mod_add_mod, h.tail_eq]
      congr 1
      omega
    · intro k y hk
      rw [Nat.mod_add_mod]
      have hcell := h.cell (k + 1) y (by simpa using hk)
      rwa [Nat.add_comm k 1, ← Nat.add_assoc] at hcell

end Libnv.CircularQueue
