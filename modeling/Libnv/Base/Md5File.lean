import Libnv.Base.Md5

/-!
# MD5 of a stream that comes in pieces

`MD5Update` keeps a partial block in its buffer and the number of bits in two
words.  Read as one number the two words count modulo `2 ^ 64`, carry included,
as long as one call gets less than `2 ^ 32` bytes; so two calls and one call with
the concatenation leave contexts that hold the same stream and the same count,
and differ at most in stale bytes of the buffer, which `MD5Final` does not read.

`nv_calculate_file_md5` feeds what `fread` returns; the pieces are given.
-/

namespace Libnv.Md5

open BlockStream Rfc1321

def bufferSize : Nat := 4096

/-- An opened file: what the calls of `fread` return in turn, and `ferror` after the last. -/
structure FileReads where
  pieces : List (List UInt8)
  ferror : Bool

/-- `while ((bytes = fread(..)) != 0) MD5Update(..)`. -/
def freadLoop (ctx : Md5Ctx) : List (List UInt8) → Md5Ctx
  | [] => ctx
  | piece :: pieces =>
      if piece.length = 0 then ctx else freadLoop (md5Update ctx piece) pieces

/-- The return value and what it writes to `output`; `none` is a file that cannot be opened. -/
def nvCalculateFileMd5 (buffer : Nat → UInt8) : Option FileReads → Int × Option (List UInt8)
  | none => (1, none)
  | some file =>
      let ctx := freadLoop (md5Init buffer) file.pieces
      if file.ferror then (1, none) else (0, some (hexText (md5Final ctx)))

/-- The contexts that `MD5Init` and calls of `MD5Update` lead to. -/
inductive Reached : Md5Ctx → Prop
  | init (buffer : Nat → UInt8) : Reached (md5Init buffer)
  | update {ctx : Md5Ctx} (input : List UInt8) : Reached ctx → Reached (md5Update ctx input)

theorem count1_eq_of_bits_eq {ctx ctx' : Md5Ctx} (h : ctx.bits = ctx'.bits) :
    ctx.count1 = ctx'.count1 := by
  have h0 := ctx.count0.toNat_lt
  have h0' := ctx'.count0.toNat_lt
  unfold Md5Ctx.bits at h
  apply UInt32.toNat_inj.mp
  omega

section Pieces

variable {ctx : Md5Ctx} {xs : List UInt8}

theorem Reached.holds (h : Reached ctx) : ∃ xs, Holds ctx xs := by
  induction h with
  | init buffer => exact ⟨[], holds_init buffer⟩
  | update input _ ih =>
      obtain ⟨xs, hxs⟩ := ih
      exact ⟨xs ++ input, hxs.update input⟩

/-- Contexts of one stream with one count have one digest, whatever else is in their buffers. -/
theorem Holds.final_eq {ctx' : Md5Ctx} (h : Holds ctx xs) (h' : Holds ctx' xs)
    (hbits : ctx.bits = ctx'.bits) : md5Final ctx = md5Final ctx' := by
  have hlength : lengthBits ctx = lengthBits ctx' := by
    rw [lengthBits_eq, lengthBits_eq, count1_eq_of_bits_eq hbits, h.count, h'.count]
  rw [h.final_absorb, h'.final_absorb, hlength]

/-- Two calls of `MD5Update` and one with the concatenation. -/
theorem Reached.final_append (h : Reached ctx) {ys : List UInt8}
    (hlen : xs.length + ys.length < 2 ^ 32) :
    md5Final (md5Update (md5Update ctx xs) ys) = md5Final (md5Update ctx (xs ++ ys)) := by
  obtain ⟨zs, hzs⟩ := h.holds
  have htwice := (hzs.update xs).update ys
  have honce := hzs.update (xs ++ ys)
  rw [← List.append_assoc] at honce
  refine htwice.final_eq honce ?_
  have hwhole : (xs ++ ys).length < 2 ^ 32 := by
    rw [List.length_append]
    exact hlen
  rw [md5Update_bits _ (by omega : ys.length < 2 ^ 32),
    md5Update_bits _ (by omega : xs.length < 2 ^ 32), md5Update_bits _ hwhole,
    List.length_append]
  omega

/-- Reading the pieces of a file. -/
theorem freadLoop_spec (h : Holds ctx xs) {pieces : List (List UInt8)}
    (hpieces : ∀ piece ∈ pieces, piece ≠ [] ∧ piece.length ≤ bufferSize) :
    Holds (freadLoop ctx pieces) (xs ++ pieces.flatten) ∧
      (freadLoop ctx pieces).bits = (ctx.bits + 8 * pieces.flatten.length) % 2 ^ 64 := by
  induction pieces generalizing ctx xs with
  | nil =>
      have h0 := ctx.count0.toNat_lt
      have h1 := ctx.count1.toNat_lt
      refine ⟨by simpa [freadLoop] using h, ?_⟩
      simp only [freadLoop, List.flatten_nil, List.length_nil, Md5Ctx.bits]
      omega
  | cons piece pieces ih =>
      obtain ⟨hne, hle⟩ := hpieces piece List.mem_cons_self
      have hlong : piece.length ≠ 0 := fun hzero => hne (List.length_eq_zero_iff.mp hzero)
      have hshort : piece.length < 2 ^ 32 := Nat.lt_of_le_of_lt hle (by decide)
      obtain ⟨hholds, hbits⟩ := ih (h.update piece)
        fun p hp => hpieces p (List.mem_cons_of_mem piece hp)
      rw [freadLoop, if_neg hlong, List.flatten_cons, ← List.append_assoc]
      refine ⟨hholds, ?_⟩
      rw [hbits, md5Update_bits ctx hshort, List.length_append]
      omega

theorem length_hexText_final (ctx : Md5Ctx) : (hexText (md5Final ctx)).length = 32 := by
  have hdigest : (md5Final ctx).length = 16 := by simp [md5Final]
  have hbyte : ∀ b, (hexByte b).length = 2 := fun _ => rfl
  rw [hexText, List.length_flatMap]
  simp [hbyte, hdigest]

/--
For every string below `2 ^ 32` bytes and every way `fread` cuts a file with that
content, the file's digest text is that of the string; and for every context
reached from `MD5Init`, two calls of `MD5Update` and one with the concatenation
lead to the same digest.
-/
theorem nvCalculateFileMd5_eq_nvMD5 :
    (∀ (buffer buffer' : Nat → UInt8) (m : CString) (pieces : List (List UInt8)),
      m.length < 2 ^ 32 →
      (∀ piece ∈ pieces, piece ≠ [] ∧ piece.length ≤ bufferSize) →
      pieces.flatten = m.bytes →
        nvCalculateFileMd5 buffer (some ⟨pieces, false⟩) = (0, some (nvMD5 buffer' m)) ∧
          (nvMD5 buffer' m).length = 32) ∧
      ∀ ctx, Reached ctx → ∀ xs ys : List UInt8, xs.length + ys.length < 2 ^ 32 →
        md5Final (md5Update (md5Update ctx xs) ys) = md5Final (md5Update ctx (xs ++ ys)) := by
  constructor
  · intro buffer buffer' m pieces hlen hpieces hflatten
    refine ⟨?_, length_hexText_final _⟩
    obtain ⟨hfile, hbits⟩ := freadLoop_spec (holds_init buffer) hpieces
    have hstring := (holds_init buffer').update m.bytes
    rw [hflatten] at hfile hbits
    have hcount : (freadLoop (md5Init buffer) pieces).bits =
        (md5Update (md5Init buffer') m.bytes).bits := by
      rw [hbits, md5Update_bits _ hlen]
      rfl
    simp only [nvCalculateFileMd5, nvMD5, hfile.final_eq hstring hcount]
    rfl
  · intro ctx hctx xs ys hxy
    exact hctx.final_append hxy

/-- The string `"abc"`, read in two pieces. -/
theorem nvCalculateFileMd5_abc :
    nvCalculateFileMd5 (fun _ => 0) (some ⟨[[97], [98, 99]], false⟩) =
        (0, some (nvMD5 (fun _ => 0) (CText.lit "abc"))) ∧
      (nvMD5 (fun _ => 0) (CText.lit "abc")).length = 32 :=
  nvCalculateFileMd5_eq_nvMD5.1 _ _ (CText.lit "abc") _ (by decide +kernel)
    (by simp [bufferSize]) (by decide +kernel)

end Pieces

end Libnv.Md5
