import Mathlib.Data.List.Basic
import Mathlib.Algebra.Group.Nat.Defs

/-!
# Base 64 as RFC 4648 defines it

Section 4: three octets are 24 bits and become four characters, one for each six
bits.  At the end of the data fewer octets may be left; zero bits are added to
make whole groups of six, and `=` fills the last four characters.
-/

namespace Libnv.Rfc4648

/-- The character of a value below 64: Table 1. -/
def alphabet (v : Nat) : UInt8 :=
  if v < 26 then UInt8.ofNat (65 + v)
  else if v < 52 then UInt8.ofNat (97 + (v - 26))
  else if v < 62 then UInt8.ofNat (48 + (v - 52))
  else if v = 62 then 43
  else 47

def pad : UInt8 := 61

/-- The last `k` groups of six bits of a number, high-order group first. -/
def sextets : Nat → Nat → List UInt8
  | 0, _ => []
  | k + 1, n => alphabet (n / 64 ^ k % 64) :: sextets k n

def encode : List UInt8 → List UInt8
  | [] => []
  | [a] => sextets 2 (a.toNat * 2 ^ 4) ++ [pad, pad]
  | [a, b] => sextets 3 ((a.toNat * 2 ^ 8 + b.toNat) * 2 ^ 2) ++ [pad]
  | a :: b :: c :: octets =>
      sextets 4 (a.toNat * 2 ^ 16 + b.toNat * 2 ^ 8 + c.toNat) ++ encode octets

/-- The character stands for a value. -/
def InAlphabet (c : UInt8) : Prop :=
  ∃ v < 64, alphabet v = c

instance (c : UInt8) : Decidable (InAlphabet c) :=
  inferInstanceAs (Decidable (∃ v < 64, alphabet v = c))

/-- Characters of the alphabet and at most two `=` after them, a multiple of four in all. -/
def Valid (text : List UInt8) : Prop :=
  text.length % 4 = 0 ∧
    ∃ k < 3, (∀ c ∈ text.take (text.length - k), InAlphabet c) ∧
      text.drop (text.length - k) = List.replicate k pad

instance (text : List UInt8) : Decidable (Valid text) :=
  inferInstanceAs (Decidable (_ ∧ _))

/-- The number of octets that a valid text stands for. -/
def decodedLength (text : List UInt8) : Nat :=
  text.length / 4 * 3 - text.count pad

theorem length_sextets (k n : Nat) : (sextets k n).length = k := by
  induction k with
  | zero => rfl
  | succ k ih => exact congrArg Nat.succ ih

/-- The high-order groups are those of the number without its low-order bits. -/
theorem take_sextets (k j n : Nat) : (sextets (k + j) n).take k = sextets k (n / 64 ^ j) := by
  induction k with
  | zero => rfl
  | succ k ih =>
      have hgroup : n / 64 ^ j / 64 ^ k = n / 64 ^ (k + j) := by
        rw [Nat.div_div_eq_div_mul, ← Nat.pow_add, Nat.add_comm]
      rw [Nat.add_right_comm, sextets, List.take_succ_cons, ih, sextets, hgroup]

theorem pad_not_inAlphabet : ¬ InAlphabet pad := by
  decide

theorem Valid.split {text : List UInt8} (h : Valid text) :
    ∃ body k, text = body ++ List.replicate k pad ∧ k < 3 ∧ pad ∉ body ∧
      (body.length + k) % 4 = 0 := by
  obtain ⟨hlength, k, hk, hbody, hpads⟩ := h
  have htext : text = text.take (text.length - k) ++ List.replicate k pad := by
    rw [← hpads, List.take_append_drop]
  refine ⟨text.take (text.length - k), k, htext, hk, ?_, ?_⟩
  · intro hmem
    exact pad_not_inAlphabet (hbody pad hmem)
  · have hlen := congrArg List.length htext
    rw [List.length_append, List.length_replicate] at hlen
    rw [← hlen]
    exact hlength

example : encode [77] = [84, 81, 61, 61] ∧ encode [77, 97] = [84, 87, 69, 61] ∧
    encode [77, 97, 110] = [84, 87, 70, 117] := by
  decide

end Libnv.Rfc4648
