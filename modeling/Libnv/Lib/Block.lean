import Mathlib.Data.List.Basic

/-!
# Blocks of memory

A block is the list of its bytes.  What is copied past its end is lost, so that a
copy shows in full only where it fits.  A block that is allocated or enlarged has
arbitrary bytes, `fresh`, where nothing has been written.
-/

namespace Libnv.Block

universe u

variable {α : Type u} {block bytes : List α}

/-- `memcpy(block + off, bytes, |bytes|)`. -/
def memcpy (block : List α) (off : Nat) (bytes : List α) : List α :=
  (block.take off ++ bytes ++ block.drop (off + bytes.length)).take block.length

/-- `memmove(block, block + off, len)`. -/
def memmove (block : List α) (off len : Nat) : List α :=
  memcpy block 0 ((block.drop off).take len)

def malloc (fresh : Nat → α) (n : Nat) : List α :=
  (List.range n).map fresh

/-- `realloc(block, n)`. -/
def realloc (fresh : Nat → α) (block : List α) (n : Nat) : List α :=
  (List.range n).map fun i => block.getD i (fresh i)

@[simp] theorem length_malloc (fresh : Nat → α) (n : Nat) : (malloc fresh n).length = n := by
  rw [malloc, List.length_map, List.length_range]

@[simp] theorem length_realloc (fresh : Nat → α) (block : List α) (n : Nat) :
    (realloc fresh block n).length = n := by
  rw [realloc, List.length_map, List.length_range]

/-- The old bytes are kept. -/
theorem take_realloc (fresh : Nat → α) {n k : Nat} (hn : k ≤ n) (hblock : k ≤ block.length) :
    (realloc fresh block n).take k = block.take k := by
  apply List.ext_getElem
  · rw [List.length_take_of_le (by rwa [length_realloc]), List.length_take_of_le hblock]
  · intro i hi hi'
    have hk : i < k := by
      rw [List.length_take] at hi
      omega
    have hlen : i < block.length := Nat.lt_of_lt_of_le hk hblock
    simp [realloc, List.getD_eq_getElem?_getD, List.getElem?_eq_getElem hlen]

/-- The block from its start to the end of a copy that fits. -/
theorem memcpy_eq {off : Nat} (h : off + bytes.length ≤ block.length) :
    memcpy block off bytes = block.take off ++ bytes ++ block.drop (off + bytes.length) := by
  rw [memcpy]
  apply List.take_of_length_le
  rw [List.length_append, List.length_append, List.length_take, List.length_drop]
  omega

theorem length_memcpy {off : Nat} (h : off + bytes.length ≤ block.length) :
    (memcpy block off bytes).length = block.length := by
  rw [memcpy_eq h, List.length_append, List.length_append, List.length_take, List.length_drop]
  omega

theorem take_memcpy {off : Nat} (h : off + bytes.length ≤ block.length) :
    (memcpy block off bytes).take (off + bytes.length) = block.take off ++ bytes := by
  have hlen : (block.take off ++ bytes).length = off + bytes.length := by
    rw [List.length_append, List.length_take]
    omega
  rw [memcpy_eq h, ← hlen, List.take_left]

theorem length_moved {off len : Nat} (h : off + len ≤ block.length) :
    ((block.drop off).take len).length = len := by
  rw [List.length_take, List.length_drop]
  omega

theorem length_memmove {off len : Nat} (h : off + len ≤ block.length) :
    (memmove block off len).length = block.length := by
  apply length_memcpy
  rw [length_moved h]
  omega

theorem take_memmove {off len : Nat} (h : off + len ≤ block.length) :
    (memmove block off len).take len = (block.drop off).take len := by
  have hfits : 0 + ((block.drop off).take len).length ≤ block.length := by
    rw [length_moved h]
    omega
  have htake := take_memcpy hfits
  rwa [length_moved h, Nat.zero_add, List.take_zero, List.nil_append] at htake

end Libnv.Block
