import Libnv.Lib.CString

/-!
# Comparison in constant time

`nv_secure_str_equal` visits every position of the longer string and collects
the differences in one byte, into which the lengths enter modulo 256.
-/

namespace Libnv.Secure

/-- `(i < la) ? (unsigned char)a[i] : 0`. -/
def byteAt (s : CString) (i : Nat) : UInt8 :=
  s.bytes.getD i 0

/-- `nv_secure_str_equal`, `none` being `NULL`. -/
def nvSecureStrEqual : Option CString → Option CString → Bool
  | some a, some b =>
      let la := a.length
      let lb := b.length
      let len := if la > lb then la else lb
      let diff := UInt8.ofNat (la ^^^ lb)
      (List.range len).foldl (fun diff i => diff ||| (byteAt a i ^^^ byteAt b i)) diff = 0
  | a, b => a.isNone && b.isNone

theorem foldl_or_eq_zero_iff (f : Nat → UInt8) (is : List Nat) (diff : UInt8) :
    is.foldl (fun diff i => diff ||| f i) diff = 0 ↔ diff = 0 ∧ ∀ i ∈ is, f i = 0 := by
  induction is generalizing diff with
  | nil => simp
  | cons i is ih => simp [ih, and_assoc]

theorem byteAt_ne_zero {s : CString} {i : Nat} (h : i < s.length) : byteAt s i ≠ 0 := by
  intro hz
  have hget : byteAt s i = s.bytes[i] := by
    simp [byteAt, List.getD_eq_getElem?_getD, List.getElem?_eq_getElem h]
  exact s.nulFree (hz ▸ hget ▸ List.getElem_mem h)

theorem byteAt_of_le {s : CString} {i : Nat} (h : s.length ≤ i) : byteAt s i = 0 := by
  simp [byteAt, List.getD_eq_getElem?_getD, List.getElem?_eq_none h]

theorem length_le_of_agree
    {a b : CString} (h : ∀ i < max a.length b.length, byteAt a i = byteAt b i) :
    b.length ≤ a.length := by
  by_contra hlt
  have hlt : a.length < b.length := by omega
  have hz : byteAt b a.length = 0 := by
    rw [← h a.length (by omega)]
    exact byteAt_of_le le_rfl
  exact byteAt_ne_zero hlt hz

/-- The lengths enter modulo 256 only, but a missing byte is compared as NUL. -/
theorem nvSecureStrEqual_iff (a b : CString) :
    nvSecureStrEqual (some a) (some b) = true ↔ a = b := by
  have hlen : (if a.length > b.length then a.length else b.length) =
      max a.length b.length := by
    split <;> omega
  simp only [nvSecureStrEqual, hlen, decide_eq_true_eq, foldl_or_eq_zero_iff,
    List.mem_range, UInt8.xor_eq_zero_iff]
  constructor
  · rintro ⟨-, h⟩
    have hba := length_le_of_agree h
    have hab : a.length ≤ b.length :=
      length_le_of_agree fun i hi => (h i (by omega)).symm
    ext1
    apply List.ext_getElem (le_antisymm hab hba)
    intro i hi hi'
    have := h i (by simp only [CString.length]; omega)
    simpa [byteAt, List.getD_eq_getElem?_getD, List.getElem?_eq_getElem hi,
      List.getElem?_eq_getElem hi'] using this
  · rintro rfl
    exact ⟨by simp, fun i _ => rfl⟩

/-- Lengths that agree modulo 256 leave no trace in the accumulator. -/
theorem ofNat_xor_eq_zero_of_mod {m n : Nat} (h : m % 256 = n % 256) :
    UInt8.ofNat (m ^^^ n) = 0 := by
  have hmod : (m ^^^ n) % 2 ^ 8 = 0 := by
    rw [Nat.xor_mod_two_pow, show m % 2 ^ 8 = n % 2 ^ 8 from h, Nat.xor_self]
  apply UInt8.toNat_inj.mp
  rw [UInt8.toNat_ofNat]
  exact hmod

/--
`nv_secure_str_equal` returns 1 exactly for equal strings, of whatever lengths.
Where the lengths differ by a multiple of 256, the accumulator starts at 0, and the
comparison with the missing bytes tells the strings apart.
-/
theorem nvSecureStrEqual_any_lengths (a b : CString) :
    (nvSecureStrEqual (some a) (some b) = true ↔ a = b) ∧
      (a.length ≠ b.length → a.length % 256 = b.length % 256 →
        UInt8.ofNat (a.length ^^^ b.length) = 0 ∧
          nvSecureStrEqual (some a) (some b) = false) := by
  refine ⟨nvSecureStrEqual_iff a b, fun hlen hmod => ⟨ofNat_xor_eq_zero_of_mod hmod, ?_⟩⟩
  rw [Bool.eq_false_iff, ne_eq, nvSecureStrEqual_iff]
  rintro rfl
  exact hlen rfl

def manyBytes : CString where
  bytes := List.replicate 256 97
  nulFree := fun h => absurd (List.eq_of_mem_replicate h) (by decide)

/-- The empty string is told apart from one of 256 bytes. -/
theorem nvSecureStrEqual_empty_manyBytes :
    nvSecureStrEqual (some CString.empty) (some manyBytes) = false := by
  have hlen : manyBytes.length = 256 := List.length_replicate
  have hne : CString.empty.length ≠ manyBytes.length := by
    rw [hlen]
    exact Nat.ne_of_lt (by decide)
  have hmod : CString.empty.length % 256 = manyBytes.length % 256 := by
    rw [hlen]
    rfl
  exact ((nvSecureStrEqual_any_lengths CString.empty manyBytes).2 hne hmod).2

end Libnv.Secure
