import Libnv.Lib.CText

/-!
# Integer literals and `strtol`

What a text denotes that is an integer constant as a whole, with an optional sign
and without a suffix: decimal, octal after a `0`, or hexadecimal after `0x`.  On
such a text `strtol` with base 0 converts everything and returns the integer,
saturated to 64 bits.
-/

namespace Libnv.CText

/-- The number that digits spell, if there are any and they are digits of the base. -/
def digitsValue (base : Nat) (bs : List UInt8) : Option Nat :=
  if bs = [] then none else bs.foldlM (fun n b => (digit? base b).map (n * base + ·)) 0

/-- The number that an integer constant denotes. -/
def magnitude : List UInt8 → Option Nat
  | [48] => some 0
  | 48 :: b :: bs => if b = 120 ∨ b = 88 then digitsValue 16 bs else digitsValue 8 (b :: bs)
  | bs => digitsValue 10 bs

/-- The integer that a text denotes as a whole. -/
def literal : List UInt8 → Option Int
  | 45 :: bs => (magnitude bs).map fun n : Nat => -(n : Int)
  | 43 :: bs => (magnitude bs).map Int.ofNat
  | bs => (magnitude bs).map Int.ofNat

section Digits

variable {base n : Nat} {bs : List UInt8}

theorem readDigits_of_foldlM {acc : Nat}
    (h : bs.foldlM (fun n b => (digit? base b).map (n * base + ·)) acc = some n) :
    readDigits base acc bs = (n, []) := by
  induction bs generalizing acc with
  | nil =>
      cases h
      rfl
  | cons b bs ih =>
      rw [List.foldlM_cons, Option.bind_eq_bind, Option.bind_eq_some_iff] at h
      obtain ⟨next, hnext, hrest⟩ := h
      obtain ⟨d, hd, rfl⟩ := Option.map_eq_some_iff.mp hnext
      rw [readDigits, hd]
      exact ih hrest

theorem readDigits_of_digitsValue (h : digitsValue base bs = some n) :
    ∃ b rest, bs = b :: rest ∧ (digit? base b).isSome ∧ readDigits base 0 (b :: rest) = (n, []) := by
  unfold digitsValue at h
  split_ifs at h with hnil
  obtain ⟨b, rest, rfl⟩ := List.exists_cons_of_ne_nil hnil
  refine ⟨b, rest, rfl, ?_, readDigits_of_foldlM h⟩
  rw [List.foldlM_cons, Option.bind_eq_bind, Option.bind_eq_some_iff] at h
  obtain ⟨next, hnext, -⟩ := h
  obtain ⟨d, hd, -⟩ := Option.map_eq_some_iff.mp hnext
  rw [hd]
  rfl

/-- The conversion of `strtol` after the sign. -/
theorem readDigits_of_magnitude (h : magnitude bs = some n) :
    ∃ base b rest, detectBase bs = (base, b :: rest) ∧ (digit? base b).isSome ∧
      readDigits base 0 (b :: rest) = (n, []) := by
  unfold magnitude at h
  split at h
  · cases h
    exact ⟨8, 48, [], rfl, rfl, rfl⟩
  next x bs =>
    split_ifs at h with hx
    · obtain ⟨b, rest, rfl, hb, hread⟩ := readDigits_of_digitsValue h
      refine ⟨16, b, rest, ?_, hb, hread⟩
      rw [detectBase, if_pos ⟨hx, hb⟩]
    · obtain ⟨b, rest, heq, hb, hread⟩ := readDigits_of_digitsValue h
      cases heq
      have hbase : detectBase (48 :: x :: bs) = (8, 48 :: x :: bs) := by
        cases bs with
        | nil => rfl
        | cons d bs => exact if_neg fun hhex => hx hhex.1
      exact ⟨8, 48, x :: bs, hbase, rfl, hread⟩
  next hzero hprefix =>
    obtain ⟨b, rest, rfl, hb, hread⟩ := readDigits_of_digitsValue h
    refine ⟨10, b, rest, ?_, hb, hread⟩
    have hne : b ≠ 48 := by
      rintro rfl
      cases rest with
      | nil => exact hzero rfl
      | cons c rest => exact hprefix c rest rfl
    unfold detectBase
    split
    next heq => exact absurd (List.cons.inj heq).1 hne
    next heq => exact absurd (List.cons.inj heq).1 hne
    · rfl

end Digits

theorem le_of_digit {base : Nat} (hbase : base ≤ 10) {b : UInt8} (h : (digit? base b).isSome) :
    48 ≤ b := by
  by_contra hlt
  have hdigit : ¬ (48 ≤ b ∧ b ≤ 57) := fun hrange => hlt hrange.1
  simp only [digit?, if_neg hdigit] at h
  by_cases hletter : 97 ≤ toLower b ∧ toLower b ≤ 122
  · have hle : 97 ≤ (toLower b).toNat := UInt8.le_iff_toNat_le.mp hletter.1
    rw [if_pos hletter, if_neg (by omega)] at h
    cases h
  · rw [if_neg hletter, if_neg (by omega)] at h
    cases h

theorem not_isSpace_of_magnitude {b : UInt8} {bs : List UInt8} {n : Nat}
    (h : magnitude (b :: bs) = some n) : ¬ isSpace b = true := by
  have hle : 48 ≤ b := by
    unfold magnitude at h
    split at h
    next heq => exact (List.cons.inj heq).1 ▸ UInt8.le_refl 48
    next heq => exact (List.cons.inj heq).1 ▸ UInt8.le_refl 48
    · obtain ⟨c, rest, heq, hc, -⟩ := readDigits_of_digitsValue h
      cases heq
      exact le_of_digit (Nat.le_refl 10) hc
  simp only [isSpace, decide_eq_true_eq]
  rintro (rfl | ⟨-, hge⟩)
  · exact absurd hle (by decide)
  · exact absurd (UInt8.le_trans hle hge) (by decide)

/-- `strtol` on a text that begins with its sign or with a digit. -/
theorem readInt_of_magnitude {text bs : List UInt8} {negative : Bool} {n : Nat}
    (hblank : text.dropWhile isSpace = text) (hsign : readSign text = (negative, bs))
    (h : magnitude bs = some n) : readInt text = some (if negative then -(n : Int) else n, []) := by
  obtain ⟨base, b, rest, hbase, hdigit, hread⟩ := readDigits_of_magnitude h
  simp only [readInt, hblank, hsign, hbase, hdigit, hread, if_true]

theorem readInt_of_literal {text : List UInt8} {v : Int} (h : literal text = some v) :
    readInt text = some (v, []) := by
  unfold literal at h
  split at h
  next bs =>
    obtain ⟨n, hn, rfl⟩ := Option.map_eq_some_iff.mp h
    exact readInt_of_magnitude (List.dropWhile_cons_of_neg (by decide)) rfl hn
  next bs =>
    obtain ⟨n, hn, rfl⟩ := Option.map_eq_some_iff.mp h
    exact readInt_of_magnitude (List.dropWhile_cons_of_neg (by decide)) rfl hn
  next hminus hplus =>
    obtain ⟨n, hn, rfl⟩ := Option.map_eq_some_iff.mp h
    cases text with
    | nil => cases hn
    | cons b bs =>
        have hsign : readSign (b :: bs) = (false, b :: bs) := by
          unfold readSign
          split
          next heq => exact absurd heq (hminus _)
          next heq => exact absurd heq (hplus _)
          · rfl
        exact readInt_of_magnitude
          (List.dropWhile_cons_of_neg (not_isSpace_of_magnitude hn)) hsign hn

theorem strtol_of_literal {s : CString} {v : Int} (h : literal s.bytes = some v) :
    strtol s = (saturate v, []) := by
  rw [strtol, readInt_of_literal h]

theorem toInt_saturate {v : Int} (hlo : -2 ^ 31 ≤ v) (hhi : v < 2 ^ 31) : toInt (saturate v) = v := by
  have hsaturate : saturate v = v := by
    unfold saturate
    omega
  rw [hsaturate, toInt]
  exact Int.bmod_eq_of_le (by omega) (by omega)

end Libnv.CText
