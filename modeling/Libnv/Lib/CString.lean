import Mathlib.Data.List.TakeWhile
import Mathlib.Data.List.Basic

/-!
# C strings

A C string is a list of bytes without a NUL; the terminator is not part of it.
A buffer holds the string formed by its bytes before the first NUL, and a
bounded copy (`snprintf`, or `memcpy` of a clipped length followed by a NUL)
keeps a prefix of it.
-/

namespace Libnv

section Before

variable {α : Type*} [DecidableEq α] {b : α} {xs : List α}

theorem decide_ne_of_not_mem (hxs : b ∉ xs) : ∀ x ∈ xs, decide (x ≠ b) = true := by
  intro x hx
  exact decide_eq_true fun h => hxs (h ▸ hx)

/-- What stands before the first occurrence of a byte. -/
theorem takeWhile_ne_append_cons (hxs : b ∉ xs) (ys : List α) :
    (xs ++ b :: ys).takeWhile (· ≠ b) = xs := by
  rw [List.takeWhile_append_of_pos (decide_ne_of_not_mem hxs),
    List.takeWhile_cons_of_neg (by simp), List.append_nil]

end Before

/-- A byte string without NUL. -/
@[ext] structure CString where
  bytes : List UInt8
  nulFree : (0 : UInt8) ∉ bytes
deriving DecidableEq

namespace CString

/-- `strlen`. -/
def length (s : CString) : Nat := s.bytes.length

def empty : CString := ⟨[], by simp⟩

/-- The first `n` bytes. -/
def take (s : CString) (n : Nat) : CString where
  bytes := s.bytes.take n
  nulFree := fun h => s.nulFree (List.mem_of_mem_take h)

/-- The string at the start of a buffer: everything before the first NUL. -/
def ofBuffer (buf : List UInt8) : CString where
  bytes := buf.takeWhile (· ≠ 0)
  nulFree := by
    intro h
    have := List.mem_takeWhile_imp h
    simp at this

@[simp] theorem take_bytes (s : CString) (n : Nat) :
    (s.take n).bytes = s.bytes.take n := rfl

theorem length_take_le (s : CString) (n : Nat) : (s.take n).length ≤ n := by
  simp only [length, take, List.length_take]
  omega

theorem take_eq_self {s : CString} {n : Nat} (h : s.length ≤ n) : s.take n = s := by
  ext1
  exact List.take_of_length_le h

theorem ofBuffer_bytes (s : CString) : ofBuffer s.bytes = s := by
  ext1
  exact List.takeWhile_eq_self_iff.mpr (decide_ne_of_not_mem s.nulFree)

theorem ofBuffer_append_nul (s : CString) (rest : List UInt8) :
    ofBuffer (s.bytes ++ 0 :: rest) = s := by
  ext1
  exact takeWhile_ne_append_cons s.nulFree rest

theorem ofBuffer_take (buf : List UInt8) (n : Nat) : ofBuffer (buf.take n) = (ofBuffer buf).take n := by
  ext1
  simp only [ofBuffer, take_bytes]
  induction buf generalizing n with
  | nil => simp
  | cons b buf ih =>
      cases n with
      | zero => simp
      | succ n =>
          rw [List.take_succ_cons, List.takeWhile_cons, List.takeWhile_cons, ih]
          split <;> simp

/-- A byte function that spells a string followed by a NUL, read as a buffer. -/
theorem ofBuffer_map_range {s : CString} {text : Nat → UInt8} {n : Nat} (hlen : s.length < n)
    (htext : ∀ j b, s.bytes[j]? = some b → text j = b) (hnul : text s.length = 0) :
    ofBuffer ((List.range n).map text) = s := by
  have hsplit :
      (List.range n).map text =
        s.bytes ++ 0 :: (List.range' (s.length + 1) (n - s.length - 1)).map text := by
    apply List.ext_getElem
    · simp [length] at hlen ⊢
      omega
    · intro j hj hj'
      have hget : ((List.range n).map text)[j] = text j := by simp
      rw [hget]
      rcases Nat.lt_trichotomy j s.length with hlt | rfl | hgt
      · rw [List.getElem_append_left hlt]
        exact htext j _ (List.getElem?_eq_getElem hlt)
      · rw [List.getElem_append_right (by simp [length])]
        simpa [length] using hnul
      · rw [List.getElem_append_right (by simp only [length] at hgt; omega)]
        obtain ⟨i, rfl⟩ : ∃ i, j = s.length + 1 + i := ⟨j - s.length - 1, by omega⟩
        have hidx : s.length + 1 + i - s.bytes.length = i + 1 := by
          simp only [length]
          omega
        simp [hidx]
  rw [hsplit]
  exact ofBuffer_append_nul s _

end CString

end Libnv
