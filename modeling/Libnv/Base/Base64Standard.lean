import Libnv.Base.Base64
import Libnv.Base.Rfc4648
import Mathlib.Data.List.GetD

/-!
# Base64 against RFC 4648

What the encoder writes and what the decoder accepts, compared with the RFC.  The
loop that pads writes one `=` where the RFC has two; the decoder checks neither
the characters nor the length of its input, and looks for the padding before it
knows that there are two characters.
-/

namespace Libnv.Base64

theorem base64Chars_eq_alphabet : ∀ i < 64, base64Chars.getD i 0 = Rfc4648.alphabet i := by
  decide +kernel

theorem encodeGroup_eq_sextets (a b c : UInt8) :
    encodeGroup a b c = Rfc4648.sextets 4 (tripleOf a b c) := by
  have hmod : ∀ n, n % 64 < 64 := fun n => Nat.mod_lt n (by decide)
  rw [encodeGroup_eq, base64Chars_eq_alphabet _ (hmod _), base64Chars_eq_alphabet _ (hmod _),
    base64Chars_eq_alphabet _ (hmod _), base64Chars_eq_alphabet _ (hmod _)]
  simp [Rfc4648.sextets]

/-- The number of `=` at the end of the RFC's encoding of `n` octets. -/
def padCount (n : Nat) : Nat := (3 - n % 3) % 3

/-- The RFC's encoding is what the first loop writes, with the last characters padded. -/
theorem encode_eq (input : List UInt8) :
    Rfc4648.encode input =
      (encodeLoop input).take ((encodeLoop input).length - padCount input.length) ++
        List.replicate (padCount input.length) padChar := by
  induction input using encodeLoop.induct with
  | case1 => rfl
  | case2 a =>
      have hbits : tripleOf a 0 0 / 64 ^ 2 = a.toNat * 2 ^ 4 := by
        simp only [tripleOf, UInt8.toNat_zero]
        omega
      have htake := Rfc4648.take_sextets 2 2 (tripleOf a 0 0)
      rw [encodeLoop, encodeGroup_eq_sextets, Rfc4648.length_sextets]
      exact (congrArg (· ++ [padChar, padChar]) (htake.trans (by rw [hbits]))).symm
  | case3 a b =>
      have hbits : tripleOf a b 0 / 64 ^ 1 = (a.toNat * 2 ^ 8 + b.toNat) * 2 ^ 2 := by
        simp only [tripleOf, UInt8.toNat_zero]
        omega
      have htake := Rfc4648.take_sextets 3 1 (tripleOf a b 0)
      rw [encodeLoop, encodeGroup_eq_sextets, Rfc4648.length_sextets]
      exact (congrArg (· ++ [padChar]) (htake.trans (by rw [hbits]))).symm
  | case4 a b c input ih =>
      have hpads : padCount (a :: b :: c :: input).length = padCount input.length := by
        simp only [padCount, List.length_cons]
        omega
      have hgroup : (encodeGroup a b c).length = 4 := rfl
      have hroom : padCount input.length ≤ (encodeLoop input).length := by
        rw [encodeLoop_length, padCount]
        omega
      rw [Rfc4648.encode, encodeLoop, hpads, ih, List.length_append, hgroup,
        Nat.add_sub_assoc hroom, ← hgroup, List.take_length_add_append,
        encodeGroup_eq_sextets, List.append_assoc]
      rfl

/-- The encoder's text is the RFC's unless one byte is left after the whole groups. -/
theorem encodedText_eq_encode_iff (input : List UInt8) :
    encodedText input = Rfc4648.encode input ↔ input.length % 3 ≠ 1 := by
  have hlength := encodeLoop_length input
  rcases (by omega : input.length % 3 = 0 ∨ input.length % 3 = 1 ∨ input.length % 3 = 2)
    with h | h | h
  · refine iff_of_true ?_ (by omega)
    rw [encodedText_whole input h, encode_eq, padCount, h]
    simp
  · -- the last character but one is a letter in one text and `=` in the other
    refine iff_of_false ?_ (by omega)
    intro heq
    have hpads : padCount input.length = 2 := by rw [padCount, h]
    have hindex : (encodeLoop input).length - 2 < (encodeLoop input).length := by omega
    have hne := encodeLoop_getD_ne_padChar input ((encodeLoop input).length - 2)
    have hcode : (encodedText input).getD ((encodeLoop input).length - 2) 0 =
        (encodeLoop input).getD ((encodeLoop input).length - 2) 0 := by
      rw [encodedText_cut input (by omega), List.getD_eq_getElem?_getD,
        List.getElem?_set_ne (by omega), ← List.getD_eq_getElem?_getD]
    have hrfc : (Rfc4648.encode input).getD ((encodeLoop input).length - 2) 0 = padChar := by
      rw [encode_eq, hpads, List.getD_eq_getElem?_getD,
        List.getElem?_append_right (by rw [List.length_take]; omega), List.length_take,
        Nat.min_eq_left (by omega), Nat.sub_self]
      rfl
    rw [heq, hrfc] at hcode
    exact hne hcode.symm
  · refine iff_of_true ?_ (by omega)
    have hpads : padCount input.length = 1 := by rw [padCount, h]
    rw [encodedText_cut input (by omega), encode_eq, hpads, List.set_eq_take_append_cons_drop,
      if_pos (by omega), List.drop_eq_nil_of_le (by omega)]
    rfl

/--
`nv_base64_encode` returns the RFC's encoding exactly for the lengths that leave no
single byte after the groups of three, and for which the text can be allocated.
-/
theorem nvBase64Encode_eq_rfc_iff
    (input : List UInt8)
    (hne : input ≠ []) :
    (nvBase64Encode input).map CString.bytes = some (Rfc4648.encode input) ↔
      input.length % 3 ≠ 1 ∧ 4 * ((input.length + 2) / 3) + 1 < 2 ^ 63 := by
  by_cases hbound : 4 * ((input.length + 2) / 3) + 1 < 2 ^ 63
  · rw [nvBase64Encode_eq input hne hbound, Option.map_some, Option.some.injEq, encodedString,
      encodedText_eq_encode_iff]
    exact (and_iff_left hbound).symm
  · have hmalloc : mallocOk (4 * ((input.length + 2) / 3) + 1) = false := decide_eq_false hbound
    refine iff_of_false ?_ fun h => hbound h.2
    simp [nvBase64Encode, hne, hmalloc]

/-- `"Man"`. -/
theorem nvBase64Encode_eq_rfc_man :
    (nvBase64Encode [77, 97, 110]).map CString.bytes = some (Rfc4648.encode [77, 97, 110]) :=
  (nvBase64Encode_eq_rfc_iff [77, 97, 110] (by decide)).mpr (by decide)

/-- `"M"` becomes `TQA=` and not `TQ==`. -/
theorem nvBase64Encode_one_byte :
    (nvBase64Encode [77]).map CString.bytes = some [84, 81, 65, 61] ∧
      Rfc4648.encode [77] = [84, 81, 61, 61] := by
  decide +kernel

/-- The indices that the loop of `nv_base64_decode` reads from index `i` on. -/
def loopReads : Nat → List UInt8 → List Int
  | _, [] => []
  | i, [_] => [i, i + 1]
  | i, [_, _] => [i, i + 1]
  | i, [_, _, _] => [i, i + 1, i + 2]
  | i, _ :: _ :: _ :: _ :: input => [(i : Int), i + 1, i + 2, i + 3] ++ loopReads (i + 4) input

/--
The indices that `nv_base64_decode` reads: `strlen`, the two tests for `=`, and the
loop if there is memory.  An index below zero lies before the string; in the code
`input_length - 1` is then the greatest `size_t`, and the address is the same.
-/
def decodeReads (input : CString) : List Int :=
  (List.range (input.length + 1)).map Int.ofNat ++
    [(input.length : Int) - 1, (input.length : Int) - 2] ++
    (if mallocOk (decodedLengthOf input.bytes) then loopReads 0 input.bytes else [])

/-- The decoder reads inside the string, the decoded length is not negative, and it is returned
exactly for the valid texts. -/
structure DecodesExactly (input : CString) : Prop where
  reads : ∀ i ∈ decodeReads input, 0 ≤ i ∧ i ≤ input.length
  length : paddingOf input.bytes ≤ input.length / 4 * 3
  accepts : Rfc4648.Valid input.bytes →
    ∃ output, nvBase64Decode input = some ((Rfc4648.decodedLength input.bytes : Int), output)
  rejects : ¬ Rfc4648.Valid input.bytes → ∃ output, nvBase64Decode input = some (-1, output)

theorem loopReads_mem (k : Nat) (input : List UInt8) (i : Int) (hi : i ∈ loopReads k input) :
    0 ≤ i ∧ i ≤ k + input.length := by
  induction k, input using loopReads.induct with
  | case1 k => exact absurd hi List.not_mem_nil
  | case2 k a =>
      simp only [loopReads, List.mem_cons, List.not_mem_nil, or_false] at hi
      rcases hi with rfl | rfl <;> simp only [List.length_cons, List.length_nil] <;> omega
  | case3 k a b =>
      simp only [loopReads, List.mem_cons, List.not_mem_nil, or_false] at hi
      rcases hi with rfl | rfl <;> simp only [List.length_cons, List.length_nil] <;> omega
  | case4 k a b c =>
      simp only [loopReads, List.mem_cons, List.not_mem_nil, or_false] at hi
      rcases hi with rfl | rfl | rfl <;> simp only [List.length_cons, List.length_nil] <;> omega
  | case5 k a b c d input ih =>
      rw [loopReads, List.mem_append] at hi
      simp only [List.length_cons]
      rcases hi with hi | hi
      · simp only [List.mem_cons, List.not_mem_nil, or_false] at hi
        rcases hi with rfl | rfl | rfl | rfl <;> omega
      · have hrest := ih hi
        omega

/-- Only the two tests for `=` can read outside the string. -/
theorem decodeReads_inside_iff (input : CString) :
    (∀ i ∈ decodeReads input, 0 ≤ i ∧ i ≤ input.length) ↔ 2 ≤ input.length := by
  constructor
  · intro hreads
    have hmem : (input.length : Int) - 2 ∈ decodeReads input := by simp [decodeReads]
    have hinside := hreads _ hmem
    omega
  · intro hlength i hi
    rw [decodeReads, List.mem_append, List.mem_append] at hi
    rcases hi with (hi | hi) | hi
    · obtain ⟨j, hj, rfl⟩ := List.mem_map.mp hi
      have hlt := List.mem_range.mp hj
      have hcast : Int.ofNat j = (j : Int) := rfl
      omega
    · simp only [List.mem_cons, List.not_mem_nil, or_false] at hi
      rcases hi with rfl | rfl <;> omega
    · split at hi
      · have hbounds := loopReads_mem 0 input.bytes i hi
        simp only [CString.length]
        omega
      · exact absurd hi List.not_mem_nil

def returned (input : List UInt8) : Int :=
  if mallocOk (decodedLengthOf input) then CText.toInt (decodedLengthOf input) else -1

theorem nvBase64Decode_returns_iff {input : CString} (hlength : 2 ≤ input.length) (v : Int) :
    (∃ output, nvBase64Decode input = some (v, output)) ↔ returned input.bytes = v := by
  rw [nvBase64Decode, if_neg (by omega), returned]
  by_cases hmalloc : mallocOk (decodedLengthOf input.bytes) = true
  · simp [hmalloc]
  · simp [hmalloc]

/-- In a valid text the two tests count the pads. -/
theorem paddingOf_eq_count
    {text : List UInt8} (hvalid : Rfc4648.Valid text) (hlength : 2 ≤ text.length) :
    paddingOf text = text.count Rfc4648.pad ∧ paddingOf text ≤ 2 := by
  obtain ⟨body, k, rfl, hk, hbody, hfour⟩ := hvalid.split
  have hin : ∀ i < body.length,
      (body ++ List.replicate k Rfc4648.pad).getD i 0 ≠ padChar := by
    intro i hi heq
    rw [List.getD_append _ _ _ _ hi, List.getD_eq_getElem _ _ hi] at heq
    have hpad : body[i] = Rfc4648.pad := heq
    exact hbody (hpad ▸ List.getElem_mem hi)
  have hout : ∀ i, body.length ≤ i → i < body.length + k →
      (body ++ List.replicate k Rfc4648.pad).getD i 0 = padChar := by
    intro i hi hik
    rw [List.getD_append_right _ _ _ _ hi, List.getD_replicate _ (by omega)]
    rfl
  have hcount : (body ++ List.replicate k Rfc4648.pad).count Rfc4648.pad = k := by
    rw [List.count_append, List.count_eq_zero_of_not_mem hbody, List.count_replicate_self,
      Nat.zero_add]
  rw [List.length_append, List.length_replicate] at hlength
  rw [hcount, paddingOf, List.length_append, List.length_replicate]
  rcases (by omega : k = 0 ∨ k = 1 ∨ k = 2) with rfl | rfl | rfl
  · rw [if_neg (hin _ (by omega)), if_neg (hin _ (by omega))]
    exact ⟨rfl, by decide⟩
  · rw [if_pos (hout _ (by omega) (by omega)), if_neg (hin _ (by omega))]
    exact ⟨rfl, by decide⟩
  · rw [if_pos (hout _ (by omega) (by omega)), if_pos (hout _ (by omega) (by omega))]
    exact ⟨rfl, by decide⟩

/-- A length that is not negative, as the `size_t` that the code computes. -/
theorem decodedLengthOf_eq {input : List UInt8} (h : paddingOf input ≤ input.length / 4 * 3) :
    decodedLengthOf input = (input.length / 4 * 3 - paddingOf input) % 2 ^ 64 := by
  rw [decodedLengthOf]
  omega

theorem returned_eq_length_iff {input : List UInt8} (h : paddingOf input ≤ input.length / 4 * 3) :
    returned input = (input.length / 4 * 3 - paddingOf input : Nat) ↔
      input.length / 4 * 3 - paddingOf input < 2 ^ 31 := by
  rw [returned, decodedLengthOf_eq h, mallocOk]
  generalize input.length / 4 * 3 - paddingOf input = n
  by_cases hmalloc : n % 2 ^ 64 < 2 ^ 63
  · rw [if_pos (decide_eq_true hmalloc), CText.toInt, Int.bmod_def]
    omega
  · rw [if_neg (by simpa using hmalloc)]
    omega

/-- The decoder returns `-1` only if there is no memory or the length happens to convert to it. -/
theorem returned_eq_neg_one_iff (input : List UInt8) :
    returned input = -1 ↔
      2 ^ 63 ≤ decodedLengthOf input ∨ decodedLengthOf input % 2 ^ 32 = 2 ^ 32 - 1 := by
  rw [returned, mallocOk]
  generalize decodedLengthOf input = n
  by_cases hmalloc : n < 2 ^ 63
  · rw [if_pos (decide_eq_true hmalloc), CText.toInt, Int.bmod_def]
    omega
  · rw [if_neg (by simpa using hmalloc)]
    omega

/--
The decoder does what it should exactly for the valid texts that are not empty and
decode to less than `2^31` bytes, and for the invalid ones of two characters or
more whose length `n`, after the padding is taken off, is not negative and becomes
`-1` on its way to an `int` or cannot be allocated.
-/
theorem nvBase64Decode_exact_iff (input : CString) :
    DecodesExactly input ↔
      2 ≤ input.length ∧
        (Rfc4648.Valid input.bytes ∧ Rfc4648.decodedLength input.bytes < 2 ^ 31 ∨
          ¬ Rfc4648.Valid input.bytes ∧ paddingOf input.bytes ≤ input.length / 4 * 3 ∧
            (2 ^ 63 ≤ (input.length / 4 * 3 - paddingOf input.bytes) % 2 ^ 64 ∨
              (input.length / 4 * 3 - paddingOf input.bytes) % 2 ^ 32 = 2 ^ 32 - 1)) := by
  by_cases hlength : 2 ≤ input.length
  · have hreads := (decodeReads_inside_iff input).mpr hlength
    by_cases hvalid : Rfc4648.Valid input.bytes
    · obtain ⟨hcount, htwo⟩ := paddingOf_eq_count hvalid hlength
      have hroom : paddingOf input.bytes ≤ input.bytes.length / 4 * 3 := by
        have hfour := hvalid.1
        simp only [CString.length] at hlength
        omega
      have hiff := (nvBase64Decode_returns_iff hlength _).trans (returned_eq_length_iff hroom)
      rw [Rfc4648.decodedLength, ← hcount]
      constructor
      · intro hexact
        obtain ⟨output, hout⟩ := hexact.accepts hvalid
        rw [Rfc4648.decodedLength, ← hcount] at hout
        exact ⟨hlength, Or.inl ⟨hvalid, hiff.mp ⟨output, hout⟩⟩⟩
      · rintro ⟨-, ⟨-, hsmall⟩ | ⟨hinvalid, -⟩⟩
        · refine ⟨hreads, hroom, fun _ => ?_, fun hinvalid => absurd hvalid hinvalid⟩
          rw [Rfc4648.decodedLength, ← hcount]
          exact hiff.mpr hsmall
        · exact absurd hvalid hinvalid
    · have hiff := (nvBase64Decode_returns_iff hlength (-1)).trans
        (returned_eq_neg_one_iff input.bytes)
      constructor
      · intro hexact
        have hsize := hiff.mp (hexact.rejects hvalid)
        rw [decodedLengthOf_eq hexact.length] at hsize
        refine ⟨hlength, Or.inr ⟨hvalid, hexact.length, ?_⟩⟩
        simp only [CString.length]
        omega
      · rintro ⟨-, ⟨hv, -⟩ | ⟨-, hroom, hsize⟩⟩
        · exact absurd hv hvalid
        · refine ⟨hreads, hroom, fun hv => absurd hv hvalid, fun _ => hiff.mpr ?_⟩
          rw [decodedLengthOf_eq hroom]
          simp only [CString.length] at hsize
          omega
  · refine iff_of_false ?_ fun h => hlength h.1
    intro hexact
    exact hlength ((decodeReads_inside_iff input).mp hexact.reads)

/-- The empty string is valid, and two characters before it are read; `"A*BC"`, `"ab"` and
`"===="` are not valid and are accepted; `"=="` has a negative length. -/
theorem nvBase64Decode_inexact :
    (-1 : Int) ∈ decodeReads (CText.lit "") ∧ Rfc4648.Valid (CText.lit "").bytes ∧
      ¬ Rfc4648.Valid (CText.lit "A*BC").bytes ∧
      (nvBase64Decode (CText.lit "A*BC")).map Prod.fst = some 3 ∧
      ¬ Rfc4648.Valid (CText.lit "ab").bytes ∧
      (nvBase64Decode (CText.lit "ab")).map Prod.fst = some 0 ∧
      ¬ Rfc4648.Valid (CText.lit "====").bytes ∧
      (nvBase64Decode (CText.lit "====")).map Prod.fst = some 1 ∧
      ¬ paddingOf (CText.lit "==").bytes ≤ (CText.lit "==").length / 4 * 3 ∧
      ¬ DecodesExactly (CText.lit "A*BC") := by
  have hinvalid : ¬ Rfc4648.Valid (CText.lit "A*BC").bytes := by decide +kernel
  have hreturns : (nvBase64Decode (CText.lit "A*BC")).map Prod.fst = some 3 := by decide +kernel
  refine ⟨by decide +kernel, by decide +kernel, hinvalid, hreturns, by decide +kernel,
    by decide +kernel, by decide +kernel, by decide +kernel, by decide +kernel, ?_⟩
  intro hexact
  obtain ⟨output, hout⟩ := hexact.rejects hinvalid
  rw [hout, Option.map_some, Option.some.injEq] at hreturns
  omega

end Libnv.Base64
