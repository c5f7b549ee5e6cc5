import Libnv.Lib.CText

/-!
# Base64

The encoder writes four characters for each group of three bytes and then
overwrites the last character with `=` for every missing byte: it does not step
back, so an encoding has at most one `=`.  The decoder looks `=` up like any
other character and adds its index `-1` to the group.
-/

namespace Libnv.Base64

def base64Chars : List UInt8 :=
  (CText.lit "ABCDEFGHIJKLMNOPQRSTUVWXYZabcdefghijklmnopqrstuvwxyz0123456789+/").bytes

/-- `'='`. -/
def padChar : UInt8 := 61

/-- `malloc` gives no more than `PTRDIFF_MAX` bytes, and is taken to give up to that. -/
def mallocOk (size : Nat) : Bool := size < 2 ^ 63

/-- `base64_chars[(triple >> shift) & 0x3F]`. -/
def encodeChar (triple : UInt32) (shift : UInt32) : UInt8 :=
  base64Chars.getD ((triple >>> shift) &&& 0x3F).toNat 0

def encodeGroup (octetA octetB octetC : UInt8) : List UInt8 :=
  let triple := (octetA.toUInt32 <<< 0x10) + (octetB.toUInt32 <<< 0x08) + octetC.toUInt32
  [encodeChar triple 18, encodeChar triple 12, encodeChar triple 6, encodeChar triple 0]

/-- The first loop of `nv_base64_encode`; octets past the end are 0. -/
def encodeLoop : List UInt8 → List UInt8
  | [] => []
  | [a] => encodeGroup a 0 0
  | [a, b] => encodeGroup a b 0
  | a :: b :: c :: input => encodeGroup a b c ++ encodeLoop input

/-- The second loop: `for (i = length; i % 3; i++) encoded[j - 1] = '='`. -/
def padLoop : Nat → Nat → List UInt8 → List UInt8
  | 0, _, encoded => encoded
  | fuel + 1, i, encoded =>
      if i % 3 = 0 then encoded
      else padLoop fuel (i + 1) (encoded.set (encoded.length - 1) padChar)

/-- The loop that pads ends within three tests. -/
def nvBase64Encode (input : List UInt8) : Option CString :=
  if input = [] then none
  else
    let encodedLength := 4 * ((input.length + 2) / 3)
    if mallocOk (encodedLength + 1) then
      some (CString.ofBuffer (padLoop 3 input.length (encodeLoop input) ++ [0]))
    else none

def base64Index : List Int :=
  List.replicate 43 (-1) ++ [62, -1, -1, -1, 63] ++
    [52, 53, 54, 55, 56, 57, 58, 59, 60, 61] ++ List.replicate 7 (-1) ++
    [0, 1, 2, 3, 4, 5, 6, 7, 8, 9, 10, 11, 12, 13, 14, 15, 16, 17, 18, 19, 20, 21, 22, 23,
      24, 25] ++ List.replicate 6 (-1) ++
    [26, 27, 28, 29, 30, 31, 32, 33, 34, 35, 36, 37, 38, 39, 40, 41, 42, 43, 44, 45, 46, 47,
      48, 49, 50, 51] ++ List.replicate 133 (-1)

/-- `base64_index[(unsigned char)c]`. -/
def sextet (c : UInt8) : Int :=
  base64Index.getD c.toNat (-1)

/-- `if (j < decoded_length) (*output)[j++] = b`. -/
def putByte (decodedLength : Nat) (output : List UInt8) (b : UInt8) : List UInt8 :=
  if output.length < decodedLength then output ++ [b] else output

/-- The bytes of a group; the sum of the sextets is converted to `uint32_t`. -/
def decodeGroup (decodedLength : Nat) (output : List UInt8) (a b c d : Int) : List UInt8 :=
  let triple := UInt32.ofInt (a * 2 ^ 18 + b * 2 ^ 12 + c * 2 ^ 6 + d)
  let output := putByte decodedLength output (triple >>> 16).toUInt8
  let output := putByte decodedLength output (triple >>> 8).toUInt8
  putByte decodedLength output triple.toUInt8

/-- The loop of `nv_base64_decode`; the second character of a group may be the NUL. -/
def decodeLoop (decodedLength : Nat) : List UInt8 → List UInt8 → List UInt8
  | [], output => output
  | [a], output => decodeGroup decodedLength output (sextet a) (sextet 0) 0 0
  | [a, b], output => decodeGroup decodedLength output (sextet a) (sextet b) 0 0
  | [a, b, c], output => decodeGroup decodedLength output (sextet a) (sextet b) (sextet c) 0
  | a :: b :: c :: d :: input, output =>
      decodeLoop decodedLength input
        (decodeGroup decodedLength output (sextet a) (sextet b) (sextet c) (sextet d))

/-- `padding`: the last two characters that are `=`. -/
def paddingOf (input : List UInt8) : Nat :=
  (if input.getD (input.length - 1) 0 = padChar then 1 else 0) +
    (if input.getD (input.length - 2) 0 = padChar then 1 else 0)

/-- `(input_length / 4) * 3 - padding`, a `size_t`. -/
def decodedLengthOf (input : List UInt8) : Nat :=
  (input.length / 4 * 3 + 2 ^ 64 - paddingOf input) % 2 ^ 64

/--
What it returns and what it stores.  A string of fewer than
two characters makes it read before the string, which is `none`.
-/
def nvBase64Decode (input : CString) : Option (Int × List UInt8) :=
  if input.length < 2 then none
  else
    let decodedLength := decodedLengthOf input.bytes
    if mallocOk decodedLength then
      some (CText.toInt decodedLength, decodeLoop decodedLength input.bytes [])
    else some (-1, [])

/-- `(octet_a << 0x10) + (octet_b << 0x08) + octet_c`, which does not wrap. -/
def tripleOf (a b c : UInt8) : Nat :=
  a.toNat * 65536 + b.toNat * 256 + c.toNat

theorem triple_toNat (a b c : UInt8) :
    ((a.toUInt32 <<< 0x10) + (b.toUInt32 <<< 0x08) + c.toUInt32).toNat = tripleOf a b c := by
  have ha := a.toNat_lt
  have hb := b.toNat_lt
  have hc := c.toNat_lt
  have h16 : (0x10 : UInt32).toNat % 32 = 16 := rfl
  have h8 : (0x08 : UInt32).toNat % 32 = 8 := rfl
  simp only [tripleOf, UInt32.toNat_add, UInt32.toNat_shiftLeft, UInt8.toNat_toUInt32,
    Nat.shiftLeft_eq, h16, h8]
  omega

theorem encodeChar_eq (triple : UInt32) (shift : UInt32) (h : shift.toNat < 32) :
    encodeChar triple shift = base64Chars.getD (triple.toNat / 2 ^ shift.toNat % 64) 0 := by
  have hmask : (0x3F : UInt32).toNat = 2 ^ 6 - 1 := rfl
  rw [encodeChar, UInt32.toNat_and, hmask, Nat.and_two_pow_sub_one_eq_mod,
    UInt32.toNat_shiftRight, Nat.mod_eq_of_lt h, Nat.shiftRight_eq_div_pow]

theorem encodeGroup_eq (a b c : UInt8) :
    encodeGroup a b c =
      [base64Chars.getD (tripleOf a b c / 2 ^ 18 % 64) 0,
        base64Chars.getD (tripleOf a b c / 2 ^ 12 % 64) 0,
        base64Chars.getD (tripleOf a b c / 2 ^ 6 % 64) 0,
        base64Chars.getD (tripleOf a b c % 64) 0] := by
  simp only [encodeGroup]
  rw [encodeChar_eq _ 18 (by decide), encodeChar_eq _ 12 (by decide),
    encodeChar_eq _ 6 (by decide), encodeChar_eq _ 0 (by decide), triple_toNat]
  simp

/-- The decoder's table inverts the encoder's, which has neither `=` nor a NUL. -/
theorem base64Chars_spec :
    ∀ i < 64,
      sextet (base64Chars.getD i 0) = i ∧
        base64Chars.getD i 0 ≠ padChar ∧ base64Chars.getD i 0 ≠ 0 := by
  decide +kernel

theorem sextet_base64Chars (i : Nat) (h : i < 64) : sextet (base64Chars.getD i 0) = i :=
  (base64Chars_spec i h).1

theorem encodeGroup_mem (a b c ch : UInt8) (h : ch ∈ encodeGroup a b c) :
    ch ≠ padChar ∧ ch ≠ 0 := by
  have hmod : ∀ n, n % 64 < 64 := fun n => Nat.mod_lt n (by decide)
  rw [encodeGroup_eq] at h
  simp only [List.mem_cons, List.not_mem_nil, or_false] at h
  rcases h with rfl | rfl | rfl | rfl
  all_goals exact (base64Chars_spec _ (hmod _)).2

theorem encodeLoop_mem (input : List UInt8) (ch : UInt8) (h : ch ∈ encodeLoop input) :
    ch ≠ padChar ∧ ch ≠ 0 := by
  induction input using encodeLoop.induct with
  | case1 => simp [encodeLoop] at h
  | case2 a => exact encodeGroup_mem a 0 0 ch h
  | case3 a b => exact encodeGroup_mem a b 0 ch h
  | case4 a b c input ih =>
      rw [encodeLoop, List.mem_append] at h
      rcases h with h | h
      · exact encodeGroup_mem a b c ch h
      · exact ih h

theorem encodeLoop_length (input : List UInt8) :
    (encodeLoop input).length = 4 * ((input.length + 2) / 3) := by
  induction input using encodeLoop.induct with
  | case1 => rfl
  | case2 a => simp [encodeLoop, encodeGroup]
  | case3 a b => simp [encodeLoop, encodeGroup]
  | case4 a b c input ih =>
      rw [encodeLoop, List.length_append, ih]
      simp only [encodeGroup, List.length_cons, List.length_nil]
      omega

theorem encodeLoop_append (xs ys : List UInt8) (h : xs.length % 3 = 0) :
    encodeLoop (xs ++ ys) = encodeLoop xs ++ encodeLoop ys := by
  induction xs using encodeLoop.induct with
  | case1 => rfl
  | case2 a => simp at h
  | case3 a b => simp at h
  | case4 a b c xs ih =>
      have hxs : xs.length % 3 = 0 := by
        simp only [List.length_cons] at h
        omega
      simp only [List.cons_append, encodeLoop, ih hxs, List.append_assoc]

theorem ofInt_bytes (v : Int) :
    (UInt32.ofInt v >>> 16).toUInt8.toNat = (v % 2 ^ 32).toNat / 65536 % 256 ∧
      (UInt32.ofInt v >>> 8).toUInt8.toNat = (v % 2 ^ 32).toNat / 256 % 256 ∧
      (UInt32.ofInt v).toUInt8.toNat = (v % 2 ^ 32).toNat % 256 := by
  have hv : (UInt32.ofInt v).toNat = (v % 2 ^ 32).toNat := by
    rw [UInt32.ofInt, UInt32.toNat_ofNat']
    omega
  have h16 : (16 : UInt32).toNat % 32 = 16 := rfl
  have h8 : (8 : UInt32).toNat % 32 = 8 := rfl
  simp only [UInt32.toNat_toUInt8, UInt32.toNat_shiftRight, hv, h16, h8,
    Nat.shiftRight_eq_div_pow]
  trivial

theorem tripleOf_lt (a b c : UInt8) : tripleOf a b c < 2 ^ 32 := by
  have ha := a.toNat_lt
  have hb := b.toNat_lt
  have hc := c.toNat_lt
  simp only [tripleOf]
  omega

/-- A conversion to `uint32_t` that does not wrap. -/
theorem toNat_emod_of_lt {n : Nat} (h : n < 2 ^ 32) : ((n : Int) % 2 ^ 32).toNat = n := by
  have hemod : (n : Int) % 2 ^ 32 = n :=
    Int.emod_eq_of_lt (Int.natCast_nonneg n) (by exact_mod_cast h)
  rw [hemod, Int.toNat_natCast]

theorem tripleOf_sextets (a b c : UInt8) :
    ((tripleOf a b c / 2 ^ 18 % 64 : Nat) : Int) * 2 ^ 18 +
        ((tripleOf a b c / 2 ^ 12 % 64 : Nat) : Int) * 2 ^ 12 +
        ((tripleOf a b c / 2 ^ 6 % 64 : Nat) : Int) * 2 ^ 6 + ((tripleOf a b c % 64 : Nat) : Int) =
      tripleOf a b c := by
  have ha := a.toNat_lt
  have hb := b.toNat_lt
  have hc := c.toNat_lt
  simp only [tripleOf]
  omega

/-- Sextets that sum up to a group's value give the group's bytes back. -/
theorem decodeGroup_tripleOf (decodedLength : Nat) (output : List UInt8) (a b c : UInt8)
    (h : output.length + 3 ≤ decodedLength) :
    decodeGroup decodedLength output
        ((tripleOf a b c / 2 ^ 18 % 64 : Nat) : Int) ((tripleOf a b c / 2 ^ 12 % 64 : Nat) : Int)
        ((tripleOf a b c / 2 ^ 6 % 64 : Nat) : Int) ((tripleOf a b c % 64 : Nat) : Int) =
      output ++ [a, b, c] := by
  have ha := a.toNat_lt
  have hb := b.toNat_lt
  have hc := c.toNat_lt
  obtain ⟨h16, h8, h0⟩ := ofInt_bytes (tripleOf a b c)
  have hmod := toNat_emod_of_lt (tripleOf_lt a b c)
  have hA : (UInt32.ofInt (tripleOf a b c) >>> 16).toUInt8 = a := by
    apply UInt8.toNat_inj.mp
    rw [h16, hmod, tripleOf]
    omega
  have hB : (UInt32.ofInt (tripleOf a b c) >>> 8).toUInt8 = b := by
    apply UInt8.toNat_inj.mp
    rw [h8, hmod, tripleOf]
    omega
  have hC : (UInt32.ofInt (tripleOf a b c)).toUInt8 = c := by
    apply UInt8.toNat_inj.mp
    rw [h0, hmod, tripleOf]
    omega
  have h1 : output.length < decodedLength := by omega
  have h2 : output.length + 1 < decodedLength := by omega
  have h3 : output.length + 1 + 1 < decodedLength := by omega
  simp only [decodeGroup, tripleOf_sextets, hA, hB, hC]
  simp [putByte, h1, h2, h3]

theorem decodeLoop_encodeLoop (decodedLength : Nat) (xs rest output : List UInt8)
    (hxs : xs.length % 3 = 0) (h : output.length + xs.length ≤ decodedLength) :
    decodeLoop decodedLength (encodeLoop xs ++ rest) output =
      decodeLoop decodedLength rest (output ++ xs) := by
  induction xs using encodeLoop.induct generalizing output with
  | case1 => simp [encodeLoop]
  | case2 a => simp at hxs
  | case3 a b => simp at hxs
  | case4 a b c xs ih =>
      simp only [List.length_cons] at hxs h
      have hmod : ∀ n, n % 64 < 64 := fun n => Nat.mod_lt n (by decide)
      rw [encodeLoop, encodeGroup_eq]
      simp only [List.cons_append, List.nil_append, decodeLoop]
      rw [sextet_base64Chars _ (hmod _), sextet_base64Chars _ (hmod _),
        sextet_base64Chars _ (hmod _), sextet_base64Chars _ (hmod _),
        decodeGroup_tripleOf _ _ _ _ _ (by omega), ih _ (by omega) (by simp; omega)]
      simp

/--
With `=` as its last character, a group of two bytes loses one from its value,
so that its second byte is another one.
-/
theorem decodeLoop_pad (output : List UInt8) (a b : UInt8) :
    decodeLoop (output.length + 2) ((encodeGroup a b 0).set 3 padChar) output ≠
      output ++ [a, b] := by
  have ha := a.toNat_lt
  have hb := b.toNat_lt
  have hmod : ∀ n, n % 64 < 64 := fun n => Nat.mod_lt n (by decide)
  have hpad : sextet padChar = -1 := rfl
  have hlow : tripleOf a b 0 % 64 = 0 := by
    simp only [tripleOf, UInt8.toNat_zero]
    omega
  have hsum := tripleOf_sextets a b 0
  rw [hlow] at hsum
  obtain ⟨-, h8, -⟩ := ofInt_bytes ((tripleOf a b 0 : Int) - 1)
  have hB : (UInt32.ofInt ((tripleOf a b 0 : Int) - 1) >>> 8).toUInt8 ≠ b := by
    intro heq
    rw [heq] at h8
    rcases Nat.eq_zero_or_pos (tripleOf a b 0) with hzero | hpos
    · -- the sum is negative and wraps
      have hb0 : b.toNat = 0 := by
        simp only [tripleOf] at hzero
        omega
      rw [hzero, hb0] at h8
      exact absurd h8 (by decide)
    · have hpred : (tripleOf a b 0 : Int) - 1 = (tripleOf a b 0 - 1 : Nat) := by omega
      rw [hpred, toNat_emod_of_lt (Nat.lt_of_le_of_lt (Nat.sub_le _ _) (tripleOf_lt a b 0))] at h8
      simp only [tripleOf, UInt8.toNat_zero] at h8 hpos
      omega
  rw [encodeGroup_eq]
  simp only [List.set_cons_succ, List.set_cons_zero, decodeLoop]
  rw [sextet_base64Chars _ (hmod _), sextet_base64Chars _ (hmod _),
    sextet_base64Chars _ (hmod _), hpad]
  have hvalue :
      ((tripleOf a b 0 / 2 ^ 18 % 64 : Nat) : Int) * 2 ^ 18 +
          ((tripleOf a b 0 / 2 ^ 12 % 64 : Nat) : Int) * 2 ^ 12 +
          ((tripleOf a b 0 / 2 ^ 6 % 64 : Nat) : Int) * 2 ^ 6 + -1 =
        (tripleOf a b 0 : Int) - 1 := by
    omega
  simp only [decodeGroup, hvalue]
  simp [putByte, hB]

/-- The encoder's text before its terminating NUL. -/
def encodedText (input : List UInt8) : List UInt8 :=
  padLoop 3 input.length (encodeLoop input)

theorem encodedText_whole (input : List UInt8) (h : input.length % 3 = 0) :
    encodedText input = encodeLoop input := by
  simp [encodedText, padLoop, h]

/-- The padding loop only ever writes the last character. -/
theorem encodedText_cut (input : List UInt8) (h : input.length % 3 ≠ 0) :
    encodedText input =
      (encodeLoop input).set ((encodeLoop input).length - 1) padChar := by
  rcases (by omega : input.length % 3 = 1 ∨ input.length % 3 = 2) with h1 | h2
  · have hnext : (input.length + 1) % 3 ≠ 0 := by omega
    have hlast : (input.length + 1 + 1) % 3 = 0 := by omega
    simp [encodedText, padLoop, h, hnext, hlast]
  · have hlast : (input.length + 1) % 3 = 0 := by omega
    simp [encodedText, padLoop, h, hlast]

theorem encodedText_length (input : List UInt8) :
    (encodedText input).length = 4 * ((input.length + 2) / 3) := by
  by_cases h : input.length % 3 = 0
  · rw [encodedText_whole input h, encodeLoop_length]
  · rw [encodedText_cut input h, List.length_set, encodeLoop_length]

theorem encodedText_nulFree (input : List UInt8) : 0 ∉ encodedText input := by
  have hloop : 0 ∉ encodeLoop input := fun hmem => (encodeLoop_mem input 0 hmem).2 rfl
  by_cases h : input.length % 3 = 0
  · rwa [encodedText_whole input h]
  · rw [encodedText_cut input h]
    intro hmem
    rcases List.mem_or_eq_of_mem_set hmem with hmem | hmem
    · exact hloop hmem
    · exact absurd hmem (by decide)

theorem encodeLoop_getD_ne_padChar (input : List UInt8) (i : Nat) :
    (encodeLoop input).getD i 0 ≠ padChar := by
  rw [List.getD_eq_getElem?_getD]
  cases hget : (encodeLoop input)[i]? with
  | none => decide
  | some ch => exact (encodeLoop_mem input ch (List.mem_of_getElem? hget)).1

theorem paddingOf_whole (input : List UInt8) (h : input.length % 3 = 0) :
    paddingOf (encodedText input) = 0 := by
  rw [encodedText_whole input h, paddingOf, if_neg (encodeLoop_getD_ne_padChar _ _),
    if_neg (encodeLoop_getD_ne_padChar _ _)]

theorem paddingOf_cut (input : List UInt8) (h : input.length % 3 ≠ 0) :
    paddingOf (encodedText input) = 1 := by
  have hlen := encodeLoop_length input
  have hlast : (encodeLoop input).length - 1 < (encodeLoop input).length := by omega
  have hother : (encodeLoop input).length - 2 ≠ (encodeLoop input).length - 1 := by omega
  have hpen := encodeLoop_getD_ne_padChar input ((encodeLoop input).length - 2)
  rw [encodedText_cut input h, paddingOf, List.length_set]
  simp only [List.getD_eq_getElem?_getD] at hpen ⊢
  rw [List.getElem?_set_self hlast, List.getElem?_set_ne hother.symm, if_neg hpen]
  rfl

theorem decodedLengthOf_encodedText (input : List UInt8)
    (hbound : 4 * ((input.length + 2) / 3) + 1 < 2 ^ 31) :
    decodedLengthOf (encodedText input) =
      if input.length % 3 = 0 then input.length else 3 * ((input.length + 2) / 3) - 1 := by
  rw [decodedLengthOf, encodedText_length]
  split
  case isTrue h =>
    rw [paddingOf_whole input h]
    omega
  case isFalse h =>
    rw [paddingOf_cut input h]
    omega

def encodedString (input : List UInt8) : CString :=
  ⟨encodedText input, encodedText_nulFree input⟩

theorem nvBase64Encode_eq (input : List UInt8) (hne : input ≠ [])
    (hbound : 4 * ((input.length + 2) / 3) + 1 < 2 ^ 63) :
    nvBase64Encode input = some (encodedString input) := by
  have hmalloc : mallocOk (4 * ((input.length + 2) / 3) + 1) = true := decide_eq_true hbound
  simp only [nvBase64Encode, if_neg hne, hmalloc, if_true]
  exact congrArg some (CString.ofBuffer_append_nul (encodedString input) [])

theorem nvBase64Decode_eq (input : List UInt8) (hne : input ≠ [])
    (hbound : 4 * ((input.length + 2) / 3) + 1 < 2 ^ 31) :
    nvBase64Decode (encodedString input) =
      some ((decodedLengthOf (encodedText input) : Int),
        decodeLoop (decodedLengthOf (encodedText input)) (encodedText input) []) := by
  have hpos : 0 < input.length := List.length_pos_iff.mpr hne
  have hlen := encodedText_length input
  have hdec : decodedLengthOf (encodedText input) < 2 ^ 31 := by
    rw [decodedLengthOf_encodedText input hbound]
    split <;> omega
  have hmalloc : mallocOk (decodedLengthOf (encodedText input)) = true := by
    simp only [mallocOk, decide_eq_true_eq]
    omega
  have hshort : ¬(encodedString input).length < 2 := by
    simp only [CString.length, encodedString, hlen]
    omega
  have hint : CText.toInt (decodedLengthOf (encodedText input)) =
      decodedLengthOf (encodedText input) := by
    rw [CText.toInt, Int.bmod_eq_of_le] <;> omega
  simp only [nvBase64Decode, if_neg hshort]
  simp only [encodedString, hmalloc, if_true, hint]

/-- Decoding what was encoded returns the length of the input and stores its bytes. -/
def RoundTrip (input : List UInt8) : Prop :=
  (nvBase64Encode input).bind nvBase64Decode = some ((input.length : Int), input)

theorem roundTrip_whole (input : List UInt8) (h : input.length % 3 = 0) :
    decodeLoop input.length (encodedText input) [] = input := by
  rw [encodedText_whole input h]
  have hloop := decodeLoop_encodeLoop input.length input [] [] h (by simp)
  rw [List.append_nil, List.nil_append] at hloop
  rw [hloop, decodeLoop]

theorem roundTrip_two_left (input : List UInt8) (h : input.length % 3 = 2) :
    decodeLoop input.length (encodedText input) [] ≠ input := by
  obtain ⟨xs, a, b, hxs, rfl⟩ :
      ∃ xs a b, xs.length % 3 = 0 ∧ input = xs ++ [a, b] := by
    have hdrop : (input.drop (input.length - 2)).length = 2 := by
      rw [List.length_drop]
      omega
    obtain ⟨a, b, hab⟩ := List.length_eq_two.mp hdrop
    refine ⟨input.take (input.length - 2), a, b, ?_, ?_⟩
    · rw [List.length_take]
      omega
    · rw [← hab, List.take_append_drop]
  rw [encodedText_cut _ (by omega), encodeLoop_append xs [a, b] hxs]
  have hset :
      (encodeLoop xs ++ encodeLoop [a, b]).set
          ((encodeLoop xs ++ encodeLoop [a, b]).length - 1) padChar =
        encodeLoop xs ++ (encodeGroup a b 0).set 3 padChar := by
    have hfour : (encodeLoop [a, b]).length = 4 := by
      simp [encodeLoop_length]
    have hpos :
        (encodeLoop xs).length ≤ (encodeLoop xs ++ encodeLoop [a, b]).length - 1 := by
      rw [List.length_append]
      omega
    rw [List.set_append_right _ _ hpos, List.length_append, hfour, encodeLoop]
    congr 2
    omega
  rw [hset, decodeLoop_encodeLoop _ _ _ _ hxs (by simp), List.nil_append, List.length_append]
  exact decodeLoop_pad xs a b

/--
The round trip holds for the byte strings made of whole groups only.  With one
byte left the decoder returns one byte too many, because there is one `=` where
there should be two.  With two bytes left the length is right and the last byte
is not.
-/
theorem nvBase64_roundTrip_iff
    (input : List UInt8)
    (hne : input ≠ [])
    (hbound : 4 * ((input.length + 2) / 3) + 1 < 2 ^ 31) :
    RoundTrip input ↔ input.length % 3 = 0 := by
  rw [RoundTrip, nvBase64Encode_eq input hne (hbound.trans (by decide)), Option.bind_some,
    nvBase64Decode_eq input hne hbound, decodedLengthOf_encodedText input hbound]
  rcases (by omega : input.length % 3 = 0 ∨ input.length % 3 = 1 ∨ input.length % 3 = 2)
    with h | h | h
  · simp [h, roundTrip_whole input h]
  · have hlong : ((3 * ((input.length + 2) / 3) - 1 : Nat) : Int) ≠ input.length := by omega
    simp [h, hlong]
  · have hlen : 3 * ((input.length + 2) / 3) - 1 = input.length := by omega
    simp [h, hlen, roundTrip_two_left input h]

/-- Whole groups: `"Man"`. -/
theorem nvBase64_roundTrip_man :
    RoundTrip [77, 97, 110] :=
  (nvBase64_roundTrip_iff [77, 97, 110] (by decide) (by decide)).mpr (by decide)

/-- `"M"` comes back as two bytes, and `"Ma"` with another second byte. -/
theorem nvBase64_roundTrip_fails :
    (nvBase64Encode [77]).bind nvBase64Decode = some (2, [76, 255]) ∧
      (nvBase64Encode [77, 97]).bind nvBase64Decode = some (2, [77, 96]) ∧
      ¬RoundTrip [77] ∧ ¬RoundTrip [77, 97] := by
  have hM : (nvBase64Encode [77]).bind nvBase64Decode = some (2, [76, 255]) := by
    decide +kernel
  have hMa : (nvBase64Encode [77, 97]).bind nvBase64Decode = some (2, [77, 96]) := by
    decide +kernel
  refine ⟨hM, hMa, ?_, ?_⟩
  · rw [RoundTrip, hM]
    decide
  · rw [RoundTrip, hMa]
    decide

end Libnv.Base64
