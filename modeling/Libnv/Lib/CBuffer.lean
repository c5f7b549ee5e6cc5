import Libnv.Lib.CString

/-!
# Byte arrays of a fixed size

`char buf[n]` is a vector of `n` bytes.  The string in it is what precedes its
first NUL; the functions of the C library that write a string leave the bytes
behind the terminator as they were.
-/

namespace Libnv

universe u

/-- `char buf[n]`. -/
abbrev CBuffer (n : Nat) := Vector UInt8 n

namespace CBuffer

variable {n : Nat}

/-- The array after `calloc`. -/
def zero (n : Nat) : CBuffer n := Vector.replicate n 0

/-- `buf[i] = b`; a write past the end is dropped. -/
def poke (buf : CBuffer n) (i : Nat) (b : UInt8) : CBuffer n := buf.setIfInBounds i b

/-- `buf[i]`. -/
def peek (buf : CBuffer n) (i : Nat) : UInt8 := buf.toList.getD i 0

/-- The array read as a C string. -/
def text (buf : CBuffer n) : CString := CString.ofBuffer buf.toList

/-- `memcpy(buf, bs, |bs|)`; what does not fit is dropped. -/
def fill (buf : CBuffer n) (bs : List UInt8) : CBuffer n :=
  ⟨((bs ++ buf.toList.drop bs.length).take n).toArray, by
    simp only [List.size_toArray, List.length_take, List.length_append, List.length_drop,
      Vector.length_toList]
    omega⟩

/-- `snprintf(buf, n, "%s", s)`. -/
def snprintf (buf : CBuffer n) (s : CString) : CBuffer n :=
  buf.fill ((s.take (n - 1)).bytes ++ [0])

/-- `strncpy(buf, s, k)`: the rest of the first `k` bytes is cleared. -/
def strncpy (buf : CBuffer n) (s : CString) (k : Nat) : CBuffer n :=
  buf.fill ((s.take k).bytes ++ List.replicate (k - s.length) 0)

@[simp] theorem fill_toList (buf : CBuffer n) (bs : List UInt8) :
    (buf.fill bs).toList = (bs ++ buf.toList.drop bs.length).take n := by
  simp [fill, Vector.toList]

/-- A bounded copy is the first `n - 1` bytes of the string and a NUL, then the old bytes. -/
theorem snprintf_toList (buf : CBuffer n) (s : CString) (hn : 0 < n) :
    ∃ rest, (buf.snprintf s).toList = (s.take (n - 1)).bytes ++ 0 :: rest := by
  have hlen : (s.take (n - 1)).bytes.length + 1 ≤ n := by
    have := s.length_take_le (n - 1)
    simp only [CString.length] at this
    omega
  simp only [snprintf, fill_toList]
  rw [List.append_assoc, List.take_append,
    List.take_of_length_le (by omega : (s.take (n - 1)).bytes.length ≤ n)]
  obtain ⟨k, hk⟩ : ∃ k, n - (s.take (n - 1)).bytes.length = k + 1 :=
    ⟨n - (s.take (n - 1)).bytes.length - 1, by omega⟩
  rw [hk]
  exact ⟨_, rfl⟩

theorem text_snprintf (buf : CBuffer n) (s : CString) (hn : 0 < n) :
    (buf.snprintf s).text = s.take (n - 1) := by
  obtain ⟨rest, h⟩ := buf.snprintf_toList s hn
  rw [text, h]
  exact CString.ofBuffer_append_nul _ _

theorem poke_toList (buf : CBuffer n) (i : Nat) (b : UInt8) :
    (buf.poke i b).toList = buf.toList.set i b :=
  Vector.toList_setIfInBounds

theorem peek_append {buf : CBuffer n} {left right : List UInt8} {b : UInt8}
    (h : buf.toList = left ++ b :: right) : buf.peek left.length = b := by
  rw [peek, h]
  simp

/-- A byte is written behind the first bytes of the array. -/
theorem poke_append {buf : CBuffer n} {left right : List UInt8} {old : UInt8}
    (h : buf.toList = left ++ old :: right) (b : UInt8) :
    (buf.poke left.length b).toList = left ++ b :: right := by
  rw [poke_toList, h, List.set_append_right _ _ (Nat.le_refl _), Nat.sub_self, List.set_cons_zero]

/-- A copy of at most `k` bytes with a terminator behind them. -/
theorem strncpy_poke_toList (buf : CBuffer n) (s : CString) {k : Nat} (hk : k < n) :
    ∃ rest, ((buf.strncpy s k).poke k 0).toList = (s.take k).bytes ++ 0 :: rest := by
  obtain ⟨zeros, hzeros⟩ : ∃ zeros, zeros = k - s.length := ⟨_, rfl⟩
  have hlen : ((s.take k).bytes ++ List.replicate zeros 0).length = k := by
    simp only [CString.take_bytes, List.length_append, List.length_take, List.length_replicate,
      CString.length] at hzeros ⊢
    omega
  obtain ⟨old, rest, hold⟩ : ∃ old rest, buf.toList.drop k = old :: rest :=
    List.exists_cons_of_length_pos (by rw [List.length_drop, Vector.length_toList]; omega)
  have hcopy : (buf.strncpy s k).toList =
      (s.take k).bytes ++ List.replicate zeros 0 ++ old :: rest := by
    rw [strncpy, ← hzeros, fill_toList, hlen, ← hold, List.take_of_length_le]
    rw [List.length_append, hlen, List.length_drop, Vector.length_toList]
    omega
  have hpoke := poke_append hcopy 0
  rw [hlen, List.append_assoc] at hpoke
  cases zeros with
  | zero => exact ⟨rest, hpoke⟩
  | succ zeros => exact ⟨_, hpoke⟩

theorem text_strncpy_poke (buf : CBuffer n) (s : CString) {k : Nat} (hk : k < n) :
    ((buf.strncpy s k).poke k 0).text = s.take k := by
  obtain ⟨rest, h⟩ := buf.strncpy_poke_toList s hk
  rw [text, h]
  exact CString.ofBuffer_append_nul _ _

/-- The string is what the array starts with. -/
theorem take_length_text (buf : CBuffer n) : buf.toList.take buf.text.length = buf.text.bytes :=
  (List.prefix_iff_eq_take.mp (List.takeWhile_prefix _)).symm

/-- The string ends at the first NUL at the latest. -/
theorem length_text_le {buf : CBuffer n} {i : Nat} (h : buf.toList[i]? = some 0) :
    buf.text.length ≤ i := by
  by_contra hlt
  have hmem : buf.toList[i]? = buf.text.bytes[i]? := by
    rw [← take_length_text, List.getElem?_take_of_lt (Nat.not_le.mp hlt)]
  rw [hmem] at h
  exact buf.text.nulFree (List.mem_of_getElem? h)

/-- What fits is read back. -/
theorem fill_take (buf : CBuffer n) {bs : List UInt8} (h : bs.length ≤ n) :
    (buf.fill bs).toList.take bs.length = bs := by
  rw [fill_toList, List.take_take, Nat.min_eq_left h]
  simp

end CBuffer

/-- `memmove(&a[0], &a[1], (n - 1) * sizeof(a[0]))`: every entry moves down by one. -/
def shiftDown {α : Type u} {n : Nat} (a : Vector α n) : Vector α n :=
  ⟨(a.toList.drop 1 ++ a.toList.drop (n - 1)).toArray, by
    simp only [List.size_toArray, List.length_append, List.length_drop, Vector.length_toList]
    omega⟩

end Libnv
