import Mathlib.Data.UInt
import Libnv.Lib.Crc

/-!
# The 16-bit checksum

`nv_crc16_compute` of `src/base/algo/nv_crc16.c`: the reflected register of width 16
with the polynomial `x^16 + x^12 + x^5 + 1`, started with ones.  A byte is added to
the low half of the register, which is then shifted eight times.
-/

namespace Libnv.Crc16

open Crc

/-- The body of the inner loop. -/
def crcBit (crc : UInt16) : UInt16 :=
  if crc &&& 0x0001 ≠ 0 then (crc >>> 1) ^^^ 0x8408 else crc >>> 1

/-- The body of the outer loop, for the byte `*data`. -/
def crcByte (crc : UInt16) (b : UInt8) : UInt16 :=
  crcBit^[8] (crc ^^^ b.toUInt16)

/-- `nv_crc16_compute`, which reads `length` bytes. -/
def nvCrc16Compute (data : List UInt8) (length : UInt16) : UInt16 :=
  (data.take length.toNat).foldl crcByte 0xFFFF

/-- The bits of a byte, in the order in which they leave the register. -/
def byteBits (b : UInt8) : List Bool :=
  (List.range 8).map b.toBitVec.getLsbD

/-- The bits of a message, in the order in which the loops consume them. -/
def messageBits (data : List UInt8) : List Bool :=
  data.flatMap byteBits

@[simp] theorem length_byteBits (b : UInt8) : (byteBits b).length = 8 := by
  rw [byteBits, List.length_map, List.length_range]

theorem byteBits_injective {b c : UInt8} (h : byteBits b = byteBits c) : b = c := by
  apply UInt8.eq_of_toBitVec_eq
  apply BitVec.eq_of_getLsbD_eq
  intro i hi
  exact List.map_inj_left.mp h i (List.mem_range.mpr hi)

theorem length_messageBits (data : List UInt8) : (messageBits data).length = 8 * data.length := by
  induction data with
  | nil => rfl
  | cons b data ih =>
      rw [messageBits, List.flatMap_cons, List.length_append, length_byteBits,
        List.length_cons, Nat.mul_succ, Nat.add_comm]
      exact congrArg (· + 8) ih

theorem messageBits_injective {x y : List UInt8} (h : messageBits x = messageBits y) : x = y := by
  induction x generalizing y with
  | nil =>
      cases y with
      | nil => rfl
      | cons c y => simpa [length_messageBits] using congrArg List.length h
  | cons b x ih =>
      cases y with
      | nil => simpa [length_messageBits] using congrArg List.length h
      | cons c y =>
          have hlen : (byteBits b).length = (byteBits c).length := by simp
          obtain ⟨hbyte, hrest⟩ := List.append_inj h hlen
          rw [byteBits_injective hbyte, ih hrest]

/-- `0x8408`, with a one for each power below the sixteenth, the constant term first. -/
def polynomial : BitVec 16 := 0x8408#16

theorem toBitVec_crcBit (crc : UInt16) : (crcBit crc).toBitVec = shift polynomial crc.toBitVec := by
  have hlow : crc &&& 0x0001 ≠ 0 ↔ crc.toBitVec.getLsbD 0 = true := by
    have hmask : (crc &&& 0x0001).toBitVec =
        (BitVec.ofBool (crc.toBitVec.getLsbD 0)).setWidth 16 :=
      BitVec.and_one_eq_setWidth_ofBool_getLsbD
    rw [ne_eq, ← UInt16.toBitVec_inj, hmask]
    cases crc.toBitVec.getLsbD 0 <;> decide
  unfold crcBit shift
  simp only [hlow]
  split_ifs
  · rfl
  · rfl

theorem toBitVec_iterate_crcBit (crc : UInt16) (n : Nat) :
    (crcBit^[n] crc).toBitVec = (shift polynomial)^[n] crc.toBitVec := by
  induction n generalizing crc with
  | zero => rfl
  | succ n ih => rw [Function.iterate_succ_apply, Function.iterate_succ_apply, ih, toBitVec_crcBit]

theorem toBitVec_crcByte (crc : UInt16) (b : UInt8) :
    (crcByte crc b).toBitVec = feed polynomial crc.toBitVec (byteBits b) := by
  have hbits : (List.range 8).map b.toUInt16.toBitVec.getLsbD = byteBits b := by
    apply List.map_congr_left
    intro i hi
    have hi : i < 8 := List.mem_range.mp hi
    simp [Nat.lt_trans hi (by decide : 8 < 16)]
  have hhigh : b.toUInt16.toBitVec >>> 8 = 0#16 := by
    apply BitVec.eq_of_getLsbD_eq
    intro i hi
    simp
  rw [crcByte, toBitVec_iterate_crcBit, UInt16.toBitVec_xor, iterate_shift_xor, hbits, hhigh,
    BitVec.xor_zero]

theorem toBitVec_foldl_crcByte (crc : UInt16) (data : List UInt8) :
    (data.foldl crcByte crc).toBitVec = feed polynomial crc.toBitVec (messageBits data) := by
  induction data generalizing crc with
  | nil => rfl
  | cons b data ih =>
      rw [List.foldl_cons, ih, toBitVec_crcByte]
      exact (feed_append ..).symm

/-- The bits in which two messages differ. -/
def differences (x y : List UInt8) : List Bool :=
  List.zipWith xor (messageBits x) (messageBits y)

/-- The positions of the differing bits lie within 16 consecutive ones. -/
def WithinBurst (x y : List UInt8) : Prop :=
  ∃ start, ∀ i, (differences x y)[i]? = some true → start ≤ i ∧ i < start + 16

theorem feed_differences_ne_zero {x y : List UInt8} (hlen : x.length = y.length) (hne : x ≠ y)
    (herrors : WithinBurst x y ∨ (differences x y).count true % 2 = 1) :
    feed polynomial 0#16 (differences x y) ≠ 0#16 := by
  rcases herrors with ⟨start, hwindow⟩ | hodd
  · have hbits : (messageBits x).length = (messageBits y).length := by
      rw [length_messageBits, length_messageBits, hlen]
    have hone : true ∈ differences x y :=
      true_mem_zipWith_xor hbits fun h => hne (messageBits_injective h)
    obtain ⟨before, burst, after, hburst, hsplit⟩ := burst_of_window hone hwindow
    rw [hsplit]
    exact feed_burst_ne_zero (by decide) hburst before after
  · exact feed_odd_ne_zero (by decide) hodd

/--
Two messages of one length, which is a `uint16_t`, have different checksums if the
bits in which they differ lie within 16 consecutive positions, or are odd in number.
-/
theorem nvCrc16Compute_detects
    {x y : List UInt8}
    {length : UInt16}
    (hx : x.length = length.toNat)
    (hy : y.length = length.toNat)
    (hne : x ≠ y)
    (herrors : WithinBurst x y ∨ (differences x y).count true % 2 = 1) :
    nvCrc16Compute x length ≠ nvCrc16Compute y length := by
  have hlen : x.length = y.length := hx.trans hy.symm
  have hbits : (messageBits x).length = (messageBits y).length := by
    rw [length_messageBits, length_messageBits, hlen]
  intro heq
  rw [nvCrc16Compute, nvCrc16Compute, ← hx, List.take_length, hlen, List.take_length] at heq
  apply feed_ne_of_difference hbits (feed_differences_ne_zero hlen hne herrors) 0xFFFF#16
  have hx' := toBitVec_foldl_crcByte 0xFFFF x
  have hy' := toBitVec_foldl_crcByte 0xFFFF y
  rw [heq] at hx'
  exact hx'.symm.trans hy'

/-- Three bytes with a burst of 16 bits across two of them. -/
theorem nvCrc16Compute_detects_burst :
    nvCrc16Compute [0x12, 0x34, 0x56] 3 ≠ nvCrc16Compute [0x12, 0xC4, 0x59] 3 := by
  refine nvCrc16Compute_detects (by decide) (by decide) (by decide) (Or.inl ⟨8, fun i hi => ?_⟩)
  have hall : ∀ i < 24, (differences [0x12, 0x34, 0x56] [0x12, 0xC4, 0x59])[i]? = some true →
      8 ≤ i ∧ i < 8 + 16 := by
    decide
  exact hall i (List.getElem?_eq_some_iff.mp hi).1 hi

end Libnv.Crc16
