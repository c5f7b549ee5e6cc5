import Mathlib.Data.Nat.Init

/-!
# Absorbing a stream block by block

A state absorbs a stream of elements in blocks of `n`: every whole block is
compressed into it, and what is left is shorter than a block.  A stream that
comes in pieces is absorbed piece by piece, the leftover of one piece being put
before the next.
-/

namespace Libnv.BlockStream

universe u v

variable {α : Type u} {σ : Type v}

/-- `k` blocks of `n` elements are absorbed; the rest of the stream is left. -/
def absorbBlocks (compress : σ → List α → σ) (n : Nat) : Nat → σ → List α → σ × List α
  | 0, s, xs => (s, xs)
  | k + 1, s, xs => absorbBlocks compress n k (compress s (xs.take n)) (xs.drop n)

def absorb (compress : σ → List α → σ) (n : Nat) (s : σ) (xs : List α) : σ × List α :=
  absorbBlocks compress n (xs.length / n) s xs

variable {compress : σ → List α → σ} {n : Nat} {s : σ} {xs : List α}

theorem absorb_of_lt (h : xs.length < n) : absorb compress n s xs = (s, xs) := by
  rw [absorb, Nat.div_eq_of_lt h, absorbBlocks]

theorem absorb_of_le (hn : 0 < n) (h : n ≤ xs.length) :
    absorb compress n s xs = absorb compress n (compress s (xs.take n)) (xs.drop n) := by
  rw [absorb, Nat.div_eq_sub_div hn h, absorbBlocks, absorb, List.length_drop]

theorem length_absorb_snd (compress : σ → List α → σ) (hn : 0 < n) (s : σ) (xs : List α) :
    (absorb compress n s xs).2.length = xs.length % n := by
  induction hlen : xs.length using Nat.strong_induction_on generalizing s xs with
  | _ k ih =>
      by_cases hlt : xs.length < n
      · rw [absorb_of_lt hlt, ← hlen, Nat.mod_eq_of_lt hlt]
      · have hle : n ≤ xs.length := Nat.le_of_not_lt hlt
        have hdrop : (xs.drop n).length = k - n := by rw [List.length_drop, hlen]
        rw [absorb_of_le hn hle, ih (k - n) (by omega) _ _ hdrop,
          ← Nat.mod_eq_sub_mod (by omega)]

/-- A second piece is absorbed after the leftover of the first. -/
theorem absorb_append (hn : 0 < n) (s : σ) (xs ys : List α) :
    absorb compress n s (xs ++ ys) =
      absorb compress n (absorb compress n s xs).1 ((absorb compress n s xs).2 ++ ys) := by
  induction hlen : xs.length using Nat.strong_induction_on generalizing s xs with
  | _ k ih =>
      by_cases hlt : xs.length < n
      · rw [absorb_of_lt hlt]
      · have hle : n ≤ xs.length := Nat.le_of_not_lt hlt
        have hwhole : n ≤ (xs ++ ys).length := by
          rw [List.length_append]
          omega
        rw [absorb_of_le hn hwhole, absorb_of_le hn hle, List.take_append_of_le_length hle,
          List.drop_append_of_le_length hle]
        exact ih (xs.drop n).length (by simp only [List.length_drop]; omega) _ _ rfl

end Libnv.BlockStream
