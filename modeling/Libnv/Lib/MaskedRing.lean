import Mathlib.Data.Nat.ModEq
import Mathlib.Data.Nat.Bitwise

/-!
# Cells of a power-of-two ring

A ring of `2 ^ k` cells stores the positions of an unbounded counter at the
cells `pos &&& (2 ^ k - 1)`.  Inside a window of `2 ^ k` consecutive positions
the cell determines the position, so a write at one position is invisible at
every other position of the window; one lap later the cell is the same again.
-/

namespace Libnv.MaskedRing

universe u

variable {α : Type u}

/-- The cell of a position. -/
def get (cells : Nat → α) (mask pos : Nat) : α :=
  cells (pos &&& mask)

/-- Write the cell of a position. -/
def modify (cells : Nat → α) (mask pos : Nat) (f : α → α) : Nat → α :=
  fun i => if i = pos &&& mask then f (cells i) else cells i

@[simp] theorem get_modify_self (cells : Nat → α) (mask pos : Nat) (f : α → α) :
    get (modify cells mask pos f) mask pos = f (get cells mask pos) := by
  simp [get, modify]

/-- Residues are injective on a window of the ring's length. -/
theorem mod_injOn_window {n d p q : Nat} (hp : d ≤ p) (hp' : p < d + n)
    (hq : d ≤ q) (hq' : q < d + n) (h : p % n = q % n) : p = q := by
  rcases Nat.le_total p q with hle | hle
  · have hdvd := (Nat.modEq_iff_dvd' hle).mp h
    have := Nat.eq_zero_of_dvd_of_lt hdvd (by omega)
    omega
  · have hdvd := (Nat.modEq_iff_dvd' hle).mp h.symm
    have := Nat.eq_zero_of_dvd_of_lt hdvd (by omega)
    omega

theorem get_modify_window (cells : Nat → α) (f : α → α) {k d p q : Nat}
    (hp : d ≤ p) (hp' : p < d + 2 ^ k) (hq : d ≤ q) (hq' : q < d + 2 ^ k) (hne : q ≠ p) :
    get (modify cells (2 ^ k - 1) p f) (2 ^ k - 1) q =
      get cells (2 ^ k - 1) q := by
  have hcell : q &&& (2 ^ k - 1) ≠ p &&& (2 ^ k - 1) := by
    rw [Nat.and_two_pow_sub_one_eq_mod, Nat.and_two_pow_sub_one_eq_mod]
    exact fun h => hne (mod_injOn_window hq hq' hp hp' h)
  exact if_neg hcell

theorem get_next_lap (cells : Nat → α) (k p : Nat) :
    get cells (2 ^ k - 1) (p + 2 ^ k) = get cells (2 ^ k - 1) p := by
  simp [get, Nat.and_two_pow_sub_one_eq_mod]

end Libnv.MaskedRing
