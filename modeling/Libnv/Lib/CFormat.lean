import Libnv.Lib.CBuffer
import Mathlib.Algebra.Group.Nat.Defs

/-!
# Formatted output of the C library

Numbers are printed in decimal; strings are joined; `snprintf` keeps what fits
and returns the length that it would have needed, or a negative number if that
is no `int`.
-/

namespace Libnv

namespace CString

/-- One string after the other. -/
def append (s t : CString) : CString where
  bytes := s.bytes ++ t.bytes
  nulFree := fun h => (List.mem_append.mp h).elim s.nulFree t.nulFree

instance : Append CString := ⟨append⟩

@[simp] theorem append_bytes (s t : CString) : (s ++ t).bytes = s.bytes ++ t.bytes := rfl

@[simp] theorem length_append (s t : CString) : (s ++ t).length = s.length + t.length :=
  List.length_append

theorem append_assoc (s t u : CString) : s ++ t ++ u = s ++ (t ++ u) := by
  ext1
  exact List.append_assoc _ _ _

theorem append_left_cancel {s t u : CString} (h : s ++ t = s ++ u) : t = u := by
  ext1
  exact List.append_cancel_left (congrArg bytes h)

theorem ofBuffer_append (s : CString) (l : List UInt8) :
    ofBuffer (s.bytes ++ l) = s ++ ofBuffer l := by
  ext1
  exact List.takeWhile_append_of_pos (decide_ne_of_not_mem s.nulFree)

theorem ofBuffer_clipped (l rest : List UInt8) (n : Nat) :
    ofBuffer (l.take n ++ 0 :: rest) = (ofBuffer l).take n := by
  ext1
  simp only [ofBuffer, take_bytes]
  induction l generalizing n with
  | nil => simp
  | cons b l ih =>
      cases n with
      | zero => simp
      | succ n =>
          by_cases hb : b = 0
          · simp [hb]
          · simpa [List.takeWhile_cons, hb] using ih n

end CString

namespace CFormat

def digitByte (c : Char) : UInt8 := UInt8.ofNat c.toNat

theorem digitByte_toNat {n : Nat} {c : Char} (h : c ∈ Nat.toDigits 10 n) :
    (digitByte c).toNat = c.toNat ∧ 48 ≤ c.toNat := by
  have hc := Nat.isDigit_of_mem_toDigits (by decide : 0 < 10) (Nat.le_refl 10) h
  simp only [Char.isDigit, Bool.and_eq_true, decide_eq_true_eq] at hc
  obtain ⟨hlo, hhi⟩ := hc
  have hlo' : 48 ≤ c.toNat := hlo
  have hhi' : c.toNat ≤ 57 := hhi
  refine ⟨?_, hlo'⟩
  simp only [digitByte, UInt8.toNat_ofNat']
  omega

/-- `%u` and `%zu`. -/
def decimal (n : Nat) : CString where
  bytes := (Nat.toDigits 10 n).map digitByte
  nulFree := by
    intro h
    obtain ⟨c, hc, hzero⟩ := List.mem_map.mp h
    obtain ⟨hval, hpos⟩ := digitByte_toNat hc
    rw [hzero] at hval
    simp at hval
    omega

theorem decimal_injective : Function.Injective decimal := by
  intro m n h
  have hback : ∀ n, (decimal n).bytes.map (fun b => Char.ofNat b.toNat) = Nat.toDigits 10 n := by
    intro n
    simp only [decimal, List.map_map]
    refine (List.map_congr_left ?_).trans (List.map_id _)
    intro c hc
    obtain ⟨hval, -⟩ := digitByte_toNat hc
    simp [hval, Char.ofNat_toNat]
  have hdigits : Nat.toDigits 10 m = Nat.toDigits 10 n := by
    rw [← hback m, ← hback n, h]
  calc
    m = Nat.ofDigitChars 10 (Nat.toDigits 10 m) 0 := Nat.ofDigitChars_ten_toDigits.symm
    _ = Nat.ofDigitChars 10 (Nat.toDigits 10 n) 0 := by rw [hdigits]
    _ = n := Nat.ofDigitChars_ten_toDigits

theorem length_decimal_le {n k : Nat} (hk : 0 < k) (hn : n < 10 ^ k) : (decimal n).length ≤ k := by
  simp only [CString.length, decimal, List.length_map]
  exact (Nat.length_toDigits_le_iff (by decide) hk).mpr hn

/-- `%0wd`; `%d` and `%ld` are the case `w = 0`. -/
def printInt (w : Nat) (v : Int) : CString :=
  let digits := decimal v.natAbs
  let sign : CString := if v < 0 then ⟨[45], by decide⟩ else CString.empty
  let zeros : CString :=
    ⟨List.replicate (w - sign.length - digits.length) 48, fun h =>
      absurd (List.eq_of_mem_replicate h) (by decide)⟩
  sign ++ zeros ++ digits

/-- The byte of an upper-case hexadecimal digit. -/
def hexDigit (d : Nat) : UInt8 :=
  if d < 10 then UInt8.ofNat (48 + d) else UInt8.ofNat (55 + d)

theorem hexDigit_ne_zero {d : Nat} (h : d < 16) : hexDigit d ≠ 0 := by
  unfold hexDigit
  intro hzero
  have hval := congrArg UInt8.toNat hzero
  split at hval <;> simp only [UInt8.toNat_ofNat', UInt8.toNat_zero] at hval <;> omega

def printHexByte (b : UInt8) : CString where
  bytes := [hexDigit (b.toNat / 16), hexDigit (b.toNat % 16)]
  nulFree := by
    have hb := b.toNat_lt
    have hhigh : hexDigit (b.toNat / 16) ≠ 0 := hexDigit_ne_zero (by omega)
    have hlow : hexDigit (b.toNat % 16) ≠ 0 := hexDigit_ne_zero (by omega)
    simp [hhigh.symm, hlow.symm]

/-- What `snprintf` returns for a text. -/
def snprintfLength (s : CString) : Int :=
  if s.length < 2 ^ 31 then s.length else -1

end CFormat

namespace CBuffer

variable {n : Nat}

/-- `vsnprintf(buf + off, n - off, ..)` of some output. -/
def vsnprintf (buf : CBuffer n) (off : Nat) (out : List UInt8) : CBuffer n :=
  buf.fill (buf.toList.take off ++ out.take (n - off - 1) ++ [0])

/-- What fits is printed behind the first bytes of the array, and a NUL. -/
theorem vsnprintf_toList {buf : CBuffer n} {left : List UInt8} (hleft : left <+: buf.toList)
    (hlen : left.length < n) (out : List UInt8) :
    ∃ rest, (buf.vsnprintf left.length out).toList =
      left ++ (out.take (n - left.length - 1) ++ 0 :: rest) := by
  have hout : (out.take (n - left.length - 1)).length ≤ n - left.length - 1 :=
    List.length_take_le _ _
  obtain ⟨k, hk⟩ : ∃ k, n - (left ++ out.take (n - left.length - 1)).length = k + 1 := by
    refine ⟨n - (left ++ out.take (n - left.length - 1)).length - 1, ?_⟩
    rw [List.length_append]
    omega
  rw [vsnprintf, ← List.prefix_iff_eq_take.mp hleft, fill_toList, List.append_assoc _ [0],
    List.take_append, List.take_of_length_le (by rw [List.length_append]; omega), hk,
    List.append_assoc]
  exact ⟨_, rfl⟩

theorem text_vsnprintf (buf : CBuffer n) (s : CString) (out : List UInt8) (hs : s.length < n) :
    ((buf.snprintf s).vsnprintf s.length out).text =
      (s ++ CString.ofBuffer out).take (n - 1) := by
  obtain ⟨rest, hrest⟩ := buf.snprintf_toList s (by omega)
  rw [CString.take_eq_self (by omega)] at hrest
  have hstart : s.bytes <+: (buf.snprintf s).toList := ⟨0 :: rest, hrest.symm⟩
  obtain ⟨tail, htail⟩ := vsnprintf_toList hstart hs out
  have hlen : s.bytes.length = s.length := rfl
  rw [hlen] at htail
  rw [text, htail, CString.ofBuffer_append, CString.ofBuffer_clipped]
  ext1
  simp only [CString.append_bytes, CString.take_bytes, List.take_append]
  rw [List.take_of_length_le (by omega : s.bytes.length ≤ n - 1), hlen]
  congr 2
  omega

end CBuffer

end Libnv
