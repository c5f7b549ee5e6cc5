import Libnv.Lib.CBuffer

/-!
# Writes that stay inside an array

The functions of the C library write as many bytes as they are told to, wherever the
array ends.  Here a write outside the array has no result; a program whose writes are
all of this kind has a result exactly when every index it writes is inside the array
that it writes to.

When a write stays inside, its result is that of the unchecked function.
-/

namespace Libnv.Bounded

universe u

variable {α : Type u} {n : Nat}

/-- `a[i] = x`. -/
def set (a : Vector α n) (i : Nat) (x : α) : Option (Vector α n) :=
  if i < n then some (a.setIfInBounds i x) else none

theorem set_eq {i : Nat} (h : i < n) (a : Vector α n) (x : α) :
    set a i x = some (a.setIfInBounds i x) :=
  if_pos h

/-- An element that is an array itself is written to. -/
def modify (a : Vector α n) (i : Nat) (f : α → Option α) : Option (Vector α n) :=
  if h : i < n then (f a[i]).map (a.setIfInBounds i ·) else none

theorem modify_eq
    {i : Nat} (h : i < n) (a : Vector α n) {f : α → Option α} {y : α} (hf : f a[i] = some y) :
    modify a i f = some (a.setIfInBounds i y) := by
  rw [modify, dif_pos h, hf, Option.map_some]

/-- `memmove(&a[dst], &a[src], count * sizeof(a[0]))`. -/
def memmove (a : Vector α n) (dst src count : Nat) : Option (Vector α n) :=
  if h : dst + count ≤ n ∧ src + count ≤ n then
    some
      ⟨(a.toList.take dst ++ (a.toList.drop src).take count ++ a.toList.drop (dst + count)).toArray, by
        simp only [List.size_toArray, List.length_append, List.length_take, List.length_drop,
          Vector.length_toList]
        omega⟩
  else none

theorem memmove_down (hn : 0 < n) (a : Vector α n) : memmove a 0 1 (n - 1) = some (shiftDown a) := by
  rw [memmove, dif_pos (by omega)]
  refine congrArg some (Vector.toList_inj.mp ?_)
  have hall : (a.toList.drop 1).take (n - 1) = a.toList.drop 1 := by
    rw [List.take_of_length_le]
    rw [List.length_drop, Vector.length_toList]
  simp only [shiftDown, Vector.toList_mk, List.take_zero, List.nil_append, Nat.zero_add, hall]

/-- `buf[i] = b`. -/
def poke (buf : CBuffer n) (i : Nat) (b : UInt8) : Option (CBuffer n) :=
  set buf i b

theorem poke_eq {i : Nat} (h : i < n) (buf : CBuffer n) (b : UInt8) :
    poke buf i b = some (buf.poke i b) :=
  set_eq h buf b

/-- The bytes are written one after the other, from index `i` on. -/
def write (buf : CBuffer n) : Nat → List UInt8 → Option (CBuffer n)
  | _, [] => some buf
  | i, b :: bs => (poke buf i b).bind fun buf => write buf (i + 1) bs

/-- Bytes that take the place of as many others. -/
theorem write_append {buf : CBuffer n} {left old right bs : List UInt8}
    (h : buf.toList = left ++ (old ++ right)) (hlen : old.length = bs.length) :
    ∃ buf', write buf left.length bs = some buf' ∧ buf'.toList = left ++ (bs ++ right) := by
  induction bs generalizing buf left old with
  | nil =>
      rw [List.length_eq_zero_iff.mp hlen] at h
      exact ⟨buf, rfl, h⟩
  | cons b bs ih =>
      obtain ⟨first, old, rfl⟩ := List.exists_cons_of_length_eq_add_one hlen
      rw [List.cons_append] at h
      have hroom : left.length < n := by
        have hn := congrArg List.length h
        rw [Vector.length_toList, List.length_append, List.length_cons] at hn
        omega
      have hpoke : (buf.poke left.length b).toList = left ++ [b] ++ (old ++ right) := by
        rw [CBuffer.poke_append h, List.append_assoc, List.singleton_append]
      obtain ⟨buf', hbuf', hlist⟩ := ih hpoke (Nat.succ.inj hlen)
      rw [List.length_append, List.length_singleton] at hbuf'
      refine ⟨buf', ?_, ?_⟩
      · rw [write, poke_eq hroom, Option.bind_some, hbuf']
      · rw [hlist, List.append_assoc, List.singleton_append, List.cons_append]

theorem write_eq {bs : List UInt8} (h : bs.length ≤ n) (buf : CBuffer n) :
    write buf 0 bs = some (buf.fill bs) := by
  have hsplit : buf.toList = [] ++ (buf.toList.take bs.length ++ buf.toList.drop bs.length) := by
    rw [List.nil_append, List.take_append_drop]
  obtain ⟨buf', hbuf', hlist⟩ := write_append hsplit (List.length_take_of_le (by
    rwa [Vector.length_toList]))
  refine hbuf'.trans (congrArg some (Vector.toList_inj.mp ?_))
  rw [hlist, CBuffer.fill_toList, List.nil_append, List.take_of_length_le]
  rw [List.length_append, List.length_drop, Vector.length_toList]
  omega

/-- `snprintf(buf, size, "%s", s)`, for a positive size. -/
def snprintf (buf : CBuffer n) (size : Nat) (s : CString) : Option (CBuffer n) :=
  write buf 0 ((s.take (size - 1)).bytes ++ [0])

theorem snprintf_eq (hn : 0 < n) (buf : CBuffer n) (s : CString) :
    snprintf buf n s = some (buf.snprintf s) := by
  have hlen := s.length_take_le (n - 1)
  refine write_eq ?_ buf
  rw [List.length_append, List.length_singleton]
  exact Nat.add_le_of_le_sub hn hlen

/-- `strncpy(buf, s, k)`. -/
def strncpy (buf : CBuffer n) (s : CString) (k : Nat) : Option (CBuffer n) :=
  write buf 0 ((s.take k).bytes ++ List.replicate (k - s.length) 0)

theorem strncpy_eq {k : Nat} (hk : k ≤ n) (buf : CBuffer n) (s : CString) :
    strncpy buf s k = some (buf.strncpy s k) := by
  refine write_eq ?_ buf
  rw [List.length_append, List.length_replicate, CString.take_bytes, List.length_take, CString.length]
  omega

end Libnv.Bounded
