import Libnv.Base.Rfc1321
import Libnv.Lib.CText

/-!
# `nv_MD5`

The code follows RFC 1321 but for two things.  `MD5Transform` rotates by 7 in
every one of its 64 iterations, and `MD5Final` writes the high word of the
length before the low one.  Everything else agrees: the buffering of
`MD5Update`, the padding, the round functions, the order of the message words
and the additive constants.  So 60 of the 64 operations are others, and the length is
another for every message but the empty one.

`buffer` of a context is memory that `MD5Init` does not touch.
-/

namespace Libnv.Md5

open BlockStream Rfc1321

/-- The macros `F`, `G`, `H` and `I`. -/
def F (x y z : UInt32) : UInt32 := (x &&& y) ||| (~~~x &&& z)

def G (x y z : UInt32) : UInt32 := (x &&& z) ||| (y &&& ~~~z)

def H (x y z : UInt32) : UInt32 := x ^^^ y ^^^ z

def I (x y z : UInt32) : UInt32 := y ^^^ (x ||| ~~~z)

def rotateLeft (x n : UInt32) : UInt32 := (x <<< n) ||| (x >>> (32 - n))

def K : List UInt32 :=
  [0xd76aa478, 0xe8c7b756, 0x242070db, 0xc1bdceee,
    0xf57c0faf, 0x4787c62a, 0xa8304613, 0xfd469501,
    0x698098d8, 0x8b44f7af, 0xffff5bb1, 0x895cd7be,
    0x6b901122, 0xfd987193, 0xa679438e, 0x49b40821,
    0xf61e2562, 0xc040b340, 0x265e5a51, 0xe9b6c7aa,
    0xd62f105d, 0x02441453, 0xd8a1e681, 0xe7d3fbc8,
    0x21e1cde6, 0xc33707d6, 0xf4d50d87, 0x455a14ed,
    0xa9e3e905, 0xfcefa3f8, 0x676f02d9, 0x8d2a4c8a,
    0xfffa3942, 0x8771f681, 0x6d9d6122, 0xfde5380c,
    0xa4beea44, 0x4bdecfa9, 0xf6bb4b60, 0xbebfbc70,
    0x289b7ec6, 0xeaa127fa, 0xd4ef3085, 0x04881d05,
    0xd9d4d039, 0xe6db99e5, 0x1fa27cf8, 0xc4ac5665,
    0xf4292244, 0x432aff97, 0xab9423a7, 0xfc93a039,
    0x655b59c3, 0x8f0ccc92, 0xffeff47d, 0x85845dd1,
    0x6fa87e4f, 0xfe2ce6e0, 0xa3014314, 0x4e0811a1,
    0xf7537e82, 0xbd3af235, 0x2ad7d2bb, 0xeb86d391]

structure Md5Ctx where
  state : Words
  /-- `count[0]`. -/
  count0 : UInt32
  /-- `count[1]`. -/
  count1 : UInt32
  buffer : Nat → UInt8

def md5Init (buffer : Nat → UInt8) : Md5Ctx where
  state := { a := 0x67452301, b := 0xefcdab89, c := 0x98badcfe, d := 0x10325476 }
  count0 := 0
  count1 := 0
  buffer := buffer

/-- `x[i]` in `MD5Transform`. -/
def transformWord (block : List UInt8) (i : Nat) : UInt32 :=
  (block.getD (4 * i) 0).toUInt32 ||| (block.getD (4 * i + 1) 0).toUInt32 <<< 8 |||
    (block.getD (4 * i + 2) 0).toUInt32 <<< 16 ||| (block.getD (4 * i + 3) 0).toUInt32 <<< 24

/-- One iteration of the loop of `MD5Transform`. -/
def transformRound (x : Nat → UInt32) (w : Words) (i : Nat) : Words :=
  let (f, g) :=
    if i < 16 then (F w.b w.c w.d, i)
    else if i < 32 then (G w.b w.c w.d, (5 * i + 1) % 16)
    else if i < 48 then (H w.b w.c w.d, (3 * i + 5) % 16)
    else (I w.b w.c w.d, (7 * i) % 16)
  { a := w.d
    b := w.b + rotateLeft (w.a + f + K.getD i 0 + x g) 7
    c := w.b
    d := w.c }

def md5Transform (state : Words) (block : List UInt8) : Words :=
  let w := (List.range 64).foldl (transformRound (transformWord block)) state
  { a := state.a + w.a, b := state.b + w.b, c := state.c + w.c, d := state.d + w.d }

/-- `memcpy(&buffer[index], src, |src|)`. -/
def memcpy (buffer : Nat → UInt8) (index : Nat) (src : List UInt8) (k : Nat) : UInt8 :=
  if index ≤ k ∧ k < index + src.length then src.getD (k - index) 0 else buffer k

/-- The loop of `MD5Update` over the whole blocks of its input. -/
def transformLoop : Nat → Words → List UInt8 → Words × List UInt8
  | 0, state, rest => (state, rest)
  | fuel + 1, state, rest =>
      if 63 < rest.length then transformLoop fuel (md5Transform state (rest.take 64)) (rest.drop 64)
      else (state, rest)

/-- `(count[0] >> 3) & 0x3F`. -/
def Md5Ctx.index (ctx : Md5Ctx) : Nat :=
  ((ctx.count0 >>> 3) &&& 0x3f).toNat

def md5Update (ctx : Md5Ctx) (input : List UInt8) : Md5Ctx :=
  let inputLen := UInt32.ofNat input.length
  let count0 := ctx.count0 + inputLen <<< 3
  let carry := if count0 < inputLen <<< 3 then ctx.count1 + 1 else ctx.count1
  let count1 := carry + inputLen >>> 29
  let partLen := 64 - ctx.index
  if partLen ≤ input.length then
    let buffer := memcpy ctx.buffer ctx.index (input.take partLen)
    let state := md5Transform ctx.state ((List.range 64).map buffer)
    let (state, rest) := transformLoop input.length state (input.drop partLen)
    { state := state, count0 := count0, count1 := count1, buffer := memcpy buffer 0 rest }
  else
    { state := ctx.state
      count0 := count0
      count1 := count1
      buffer := memcpy ctx.buffer ctx.index input }

/-- `(w >> (j * 8)) & 0xFF`. -/
def byteOf (w : UInt32) (j : Nat) : UInt8 :=
  ((w >>> UInt32.ofNat (j * 8)) &&& 0xff).toUInt8

/-- `bits` in `MD5Final`. -/
def lengthBits (ctx : Md5Ctx) : List UInt8 :=
  (List.range 8).map fun i => byteOf (if i ≥ 4 then ctx.count0 else ctx.count1) (i % 4)

/-- `padLen` in `MD5Final`. -/
def padLen (index : Nat) : Nat :=
  if index < 56 then 56 - index else 120 - index

def stateWord (w : Words) : Nat → UInt32
  | 0 => w.a
  | 1 => w.b
  | 2 => w.c
  | _ => w.d

def md5Final (ctx : Md5Ctx) : List UInt8 :=
  let padding : List UInt8 := 0x80 :: List.replicate 63 0
  let ctx' := md5Update (md5Update ctx (padding.take (padLen ctx.index))) (lengthBits ctx)
  (List.range 16).map fun i => byteOf (stateWord ctx'.state (i / 4)) (i % 4)

/-- A digit as `%x` prints it. -/
def hexDigit (n : Nat) : UInt8 :=
  if n < 10 then UInt8.ofNat (48 + n) else UInt8.ofNat (87 + n)

/-- `"%02x"`. -/
def hexByte (b : UInt8) : List UInt8 :=
  [hexDigit (b.toNat / 16), hexDigit (b.toNat % 16)]

def hexText (digest : List UInt8) : List UInt8 :=
  digest.flatMap hexByte

/-- The text that it leaves in `output`. -/
def nvMD5 (buffer : Nat → UInt8) (input : CString) : List UInt8 :=
  hexText (md5Final (md5Update (md5Init buffer) input.bytes))

/-- Bits above the ones of `a` are added by `|`. -/
theorem or_shiftLeft {a i : Nat} (h : a < 2 ^ i) (b : Nat) : a ||| b <<< i = a + b * 2 ^ i := by
  rw [Nat.or_comm, ← Nat.shiftLeft_add_eq_or_of_lt h, Nat.shiftLeft_eq, Nat.add_comm]

theorem toNat_byte_shiftLeft (b : UInt8) {n : UInt32} (h : n.toNat ≤ 24) :
    (b.toUInt32 <<< n).toNat = b.toNat <<< n.toNat := by
  have hb : b.toNat * 2 ^ n.toNat < 2 ^ 32 := calc
    b.toNat * 2 ^ n.toNat < 2 ^ 8 * 2 ^ 24 :=
      Nat.mul_lt_mul_of_lt_of_le b.toNat_lt (Nat.pow_le_pow_right (by decide) h) (by decide)
    _ = 2 ^ 32 := rfl
  rw [UInt32.toNat_shiftLeft, UInt8.toNat_toUInt32, Nat.mod_eq_of_lt (by omega : n.toNat < 32),
    Nat.shiftLeft_eq, Nat.mod_eq_of_lt hb]

theorem transformWord_eq_blockWord : transformWord = blockWord := by
  funext block i
  have h0 := (block.getD (4 * i) 0).toNat_lt
  have h1 := (block.getD (4 * i + 1) 0).toNat_lt
  have h2 := (block.getD (4 * i + 2) 0).toNat_lt
  have h3 := (block.getD (4 * i + 3) 0).toNat_lt
  have hbytes : (List.range 4).map (fun j => block.getD (4 * i + j) 0) =
      [block.getD (4 * i) 0, block.getD (4 * i + 1) 0, block.getD (4 * i + 2) 0,
        block.getD (4 * i + 3) 0] := rfl
  apply UInt32.toNat_inj.mp
  rw [blockWord, hbytes, transformWord]
  simp only [UInt32.toNat_or, toNat_byte_shiftLeft _ (show (8 : UInt32).toNat ≤ 24 by decide),
    toNat_byte_shiftLeft _ (show (16 : UInt32).toNat ≤ 24 by decide),
    toNat_byte_shiftLeft _ (show (24 : UInt32).toNat ≤ 24 by decide), UInt8.toNat_toUInt32,
    UInt32.toNat_ofNat', leNat, show (8 : UInt32).toNat = 8 from rfl,
    show (16 : UInt32).toNat = 16 from rfl, show (24 : UInt32).toNat = 24 from rfl]
  rw [or_shiftLeft (by omega : _ < 2 ^ 8), or_shiftLeft (by omega : _ < 2 ^ 16),
    or_shiftLeft (by omega : _ < 2 ^ 24)]
  omega

theorem rotateLeft_seven (x : UInt32) : rotateLeft x 7 = circularShift x 7 := by
  apply UInt32.toBitVec_inj.mp
  rw [circularShift, BitVec.rotateLeft_def]
  rfl

/-- The index `g` of the code is the table of the RFC. -/
theorem wordIndices_getD :
    ∀ i < 64, wordIndices.getD i 0 =
      if i < 16 then i else if i < 32 then (5 * i + 1) % 16
      else if i < 48 then (3 * i + 5) % 16 else (7 * i) % 16 := by
  decide

theorem transformRound_eq_operation (x : Nat → UInt32) (w : Words) {i : Nat} (hi : i < 64) :
    transformRound x w i = operation (fun _ => 7) x w i := by
  have htable : K.getD i 0 = sineTable.getD i 0 := rfl
  have hround : i / 16 = 0 ∧ i < 16 ∨ i / 16 = 1 ∧ ¬ i < 16 ∧ i < 32 ∨
      i / 16 = 2 ∧ ¬ i < 16 ∧ ¬ i < 32 ∧ i < 48 ∨
      i / 16 = 3 ∧ ¬ i < 16 ∧ ¬ i < 32 ∧ ¬ i < 48 := by omega
  have hcomm : ∀ u v t : UInt32, u + v + t = u + t + v := fun u v t => by
    rw [UInt32.add_assoc, UInt32.add_comm v, ← UInt32.add_assoc]
  rw [operation, wordIndices_getD i hi, auxiliary, ← rotateLeft_seven, ← htable, hcomm]
  rcases hround with ⟨hdiv, h1⟩ | ⟨hdiv, h1, h2⟩ | ⟨hdiv, h1, h2, h3⟩ | ⟨hdiv, h1, h2, h3⟩
  · simp only [transformRound, hdiv, h1, if_true, F]
  · simp only [transformRound, hdiv, h1, h2, if_true, if_false, G]
  · simp only [transformRound, hdiv, h1, h2, h3, if_true, if_false, H]
  · simp only [transformRound, hdiv, h1, h2, h3, if_false, I]

theorem foldl_transformRound (x : Nat → UInt32) (is : List Nat) (h : ∀ i ∈ is, i < 64) (w : Words) :
    is.foldl (transformRound x) w = is.foldl (operation (fun _ => 7) x) w := by
  induction is generalizing w with
  | nil => simp only [List.foldl_nil]
  | cons i is ih =>
      have hi : i < 64 := h i List.mem_cons_self
      rw [List.foldl_cons, List.foldl_cons, transformRound_eq_operation _ _ hi]
      exact ih (fun j hj => h j (List.mem_cons_of_mem i hj)) _

theorem md5Transform_eq_compress : md5Transform = compress fun _ => 7 := by
  funext w block
  have hrounds := foldl_transformRound (blockWord block) (List.range 64)
    (fun _ hi => List.mem_range.mp hi) w
  simp only [md5Transform, compress, transformWord_eq_blockWord, hrounds]

theorem byteOf_eq (w : UInt32) {j : Nat} (hj : j < 4) :
    byteOf w j = UInt8.ofNat (w.toNat / 256 ^ j) := by
  have hmask : (0xff : UInt32).toNat = 2 ^ 8 - 1 := rfl
  have hpow : 2 ^ (j * 8) = 256 ^ j := by rw [Nat.mul_comm, Nat.pow_mul]
  apply UInt8.toNat_inj.mp
  rw [byteOf, UInt32.toNat_toUInt8, UInt32.toNat_and, hmask, Nat.and_two_pow_sub_one_eq_mod,
    UInt32.toNat_shiftRight, UInt32.toNat_ofNat', Nat.mod_eq_of_lt (by omega : j * 8 < 2 ^ 32),
    Nat.mod_eq_of_lt (by omega : j * 8 < 32), Nat.shiftRight_eq_div_pow, hpow, UInt8.toNat_ofNat',
    Nat.mod_mod]

/-- The bytes of a word, low-order byte first. -/
theorem map_byteOf (w : UInt32) :
    [byteOf w 0, byteOf w 1, byteOf w 2, byteOf w 3] = leBytes 4 w.toNat := by
  simp [byteOf_eq, leBytes, Nat.div_div_eq_div_mul]

section Stream

variable {ctx : Md5Ctx} {xs : List UInt8}

theorem map_getD_range (src : List UInt8) :
    (List.range src.length).map (fun k => src.getD k 0) = src := by
  refine List.ext_getElem (by simp) fun k hk _ => ?_
  have hlt : k < src.length := by simpa using hk
  simp [hlt]

/-- What the buffer holds after a `memcpy`, up to its end. -/
theorem map_memcpy (buffer : Nat → UInt8) (index : Nat) (src : List UInt8) :
    (List.range (index + src.length)).map (memcpy buffer index src) =
      (List.range index).map buffer ++ src := by
  rw [List.range_add, List.map_append, List.map_map]
  congr 1
  · refine List.map_congr_left fun k hk => ?_
    have hlt : k < index := List.mem_range.mp hk
    simp [memcpy, Nat.not_le.mpr hlt]
  · calc (List.range src.length).map (memcpy buffer index src ∘ fun k => index + k)
        = (List.range src.length).map fun k => src.getD k 0 := by
          refine List.map_congr_left fun k hk => ?_
          have hlt : k < src.length := List.mem_range.mp hk
          simp [memcpy, hlt]
      _ = src := map_getD_range src

theorem transformLoop_eq_absorb {fuel : Nat} {rest : List UInt8} (h : rest.length ≤ fuel)
    (state : Words) : transformLoop fuel state rest = absorb md5Transform 64 state rest := by
  induction fuel generalizing state rest with
  | zero => rw [transformLoop, absorb_of_lt (by omega)]
  | succ fuel ih =>
      by_cases hlong : 63 < rest.length
      · rw [transformLoop, if_pos hlong, absorb_of_le (by decide) hlong]
        exact ih (by rw [List.length_drop]; omega) _
      · rw [transformLoop, if_neg hlong, absorb_of_lt (by omega)]

/-- The context after the bytes `xs`. -/
structure Holds (ctx : Md5Ctx) (xs : List UInt8) : Prop where
  state : ctx.state = (absorb md5Transform 64 initial xs).1
  count : ctx.count0 = UInt32.ofNat (8 * xs.length)
  buffer : (List.range (xs.length % 64)).map ctx.buffer = (absorb md5Transform 64 initial xs).2

theorem holds_init (buffer : Nat → UInt8) : Holds (md5Init buffer) [] where
  state := rfl
  count := rfl
  buffer := rfl

theorem Holds.index (h : Holds ctx xs) : ctx.index = xs.length % 64 := by
  have hmask : (0x3f : UInt32).toNat = 2 ^ 6 - 1 := rfl
  have hthree : (3 : UInt32).toNat % 32 = 3 := rfl
  rw [Md5Ctx.index, h.count, UInt32.toNat_and, hmask, Nat.and_two_pow_sub_one_eq_mod,
    UInt32.toNat_shiftRight, hthree, UInt32.toNat_ofNat', Nat.shiftRight_eq_div_pow]
  omega

theorem Holds.map_buffer (h : Holds ctx xs) :
    (List.range ctx.index).map ctx.buffer = (absorb md5Transform 64 initial xs).2 := by
  rw [h.index]
  exact h.buffer

theorem Holds.length_leftover (h : Holds ctx xs) :
    (absorb md5Transform 64 initial xs).2.length = ctx.index := by
  rw [length_absorb_snd _ (by decide), h.index]

/-- `count[0]` counts bits, modulo `2 ^ 32`. -/
theorem ofNat_add_shiftLeft_three (m n : Nat) :
    UInt32.ofNat (8 * m) + UInt32.ofNat n <<< 3 = UInt32.ofNat (8 * (m + n)) := by
  have hthree : (3 : UInt32).toNat % 32 = 3 := rfl
  apply UInt32.toNat_inj.mp
  simp only [UInt32.toNat_add, UInt32.toNat_shiftLeft, hthree, UInt32.toNat_ofNat',
    Nat.shiftLeft_eq]
  omega

theorem md5Update_count0 (ctx : Md5Ctx) (ys : List UInt8) :
    (md5Update ctx ys).count0 = ctx.count0 + UInt32.ofNat ys.length <<< 3 := by
  by_cases hlong : 64 - ctx.index ≤ ys.length
  · simp only [md5Update, if_pos hlong]
  · simp only [md5Update, if_neg hlong]

theorem md5Update_count1 (ctx : Md5Ctx) (ys : List UInt8) :
    (md5Update ctx ys).count1 =
      (if ctx.count0 + UInt32.ofNat ys.length <<< 3 < UInt32.ofNat ys.length <<< 3
        then ctx.count1 + 1 else ctx.count1) + UInt32.ofNat ys.length >>> 29 := by
  by_cases hlong : 64 - ctx.index ≤ ys.length
  · simp only [md5Update, if_pos hlong]
  · simp only [md5Update, if_neg hlong]

theorem Holds.count_update (h : Holds ctx xs) (ys : List UInt8) :
    (md5Update ctx ys).count0 = UInt32.ofNat (8 * (xs ++ ys).length) := by
  rw [md5Update_count0, h.count, ofNat_add_shiftLeft_three, List.length_append]

/-- An input that does not fill the buffer is only copied. -/
theorem Holds.update_short {ys : List UInt8} (h : Holds ctx xs)
    (hshort : ctx.index + ys.length < 64) : Holds (md5Update ctx ys) (xs ++ ys) := by
  have hleft := h.length_leftover
  have habsorb : absorb md5Transform 64 initial (xs ++ ys) =
      ((absorb md5Transform 64 initial xs).1, (absorb md5Transform 64 initial xs).2 ++ ys) := by
    rw [absorb_append (by decide), absorb_of_lt (by rw [List.length_append, hleft]; exact hshort)]
  have hmod : (xs ++ ys).length % 64 = ctx.index + ys.length := by
    rw [← length_absorb_snd md5Transform (by decide) initial, habsorb, List.length_append, hleft]
  have hnot : ¬ 64 - ctx.index ≤ ys.length := by omega
  refine ⟨?_, h.count_update ys, ?_⟩
  · simp only [md5Update, if_neg hnot, habsorb]
    exact h.state
  · rw [hmod, habsorb]
    simp only [md5Update, if_neg hnot]
    rw [map_memcpy, h.map_buffer]

/-- An input that fills the buffer is absorbed up to its leftover. -/
theorem Holds.update_long {ys : List UInt8} (h : Holds ctx xs)
    (hlong : 64 ≤ ctx.index + ys.length) : Holds (md5Update ctx ys) (xs ++ ys) := by
  have hlt : ctx.index < 64 := by rw [h.index]; exact Nat.mod_lt _ (by decide)
  have hleft := h.length_leftover
  have hpart : 64 - ctx.index ≤ ys.length := by omega
  have hblock : (List.range 64).map (memcpy ctx.buffer ctx.index (ys.take (64 - ctx.index))) =
      ((absorb md5Transform 64 initial xs).2 ++ ys).take 64 := by
    have hfull : ctx.index + (ys.take (64 - ctx.index)).length = 64 := by
      rw [List.length_take]
      omega
    have hmap := map_memcpy ctx.buffer ctx.index (ys.take (64 - ctx.index))
    have hwhole : (absorb md5Transform 64 initial xs).2.take 64 =
        (absorb md5Transform 64 initial xs).2 := List.take_of_length_le (by omega)
    rw [hfull, h.map_buffer] at hmap
    rw [hmap, List.take_append, hwhole, hleft]
  have hrest : ((absorb md5Transform 64 initial xs).2 ++ ys).drop 64 =
      ys.drop (64 - ctx.index) := by
    rw [List.drop_append, hleft, List.drop_eq_nil_of_le (by omega), List.nil_append]
  have habsorb : absorb md5Transform 64 initial (xs ++ ys) =
      transformLoop ys.length
        (md5Transform ctx.state
          ((List.range 64).map (memcpy ctx.buffer ctx.index (ys.take (64 - ctx.index)))))
        (ys.drop (64 - ctx.index)) := by
    rw [transformLoop_eq_absorb (by rw [List.length_drop]; omega), absorb_append (by decide),
      absorb_of_le (by decide) (by rw [List.length_append, hleft]; exact hlong), hblock, hrest,
      h.state]
  refine ⟨?_, h.count_update ys, ?_⟩
  · simp only [md5Update, if_pos hpart, habsorb]
  · rw [← length_absorb_snd md5Transform (by decide) initial, habsorb]
    simp only [md5Update, if_pos hpart]
    have hmap := fun buffer src => map_memcpy buffer 0 src
    simp only [Nat.zero_add, List.range_zero, List.map_nil, List.nil_append] at hmap
    exact hmap _ _

theorem Holds.update (h : Holds ctx xs) (ys : List UInt8) :
    Holds (md5Update ctx ys) (xs ++ ys) := by
  by_cases hlong : 64 ≤ ctx.index + ys.length
  · exact h.update_long hlong
  · exact h.update_short (Nat.lt_of_not_le hlong)

end Stream

theorem map_stateWord (w : Words) :
    (List.range 16).map (fun i => byteOf (stateWord w (i / 4)) (i % 4)) = w.bytes := by
  simp only [Words.bytes, List.flatMap_cons, List.flatMap_nil, ← map_byteOf]
  rfl

theorem lengthBits_eq (ctx : Md5Ctx) :
    lengthBits ctx = leBytes 4 ctx.count1.toNat ++ leBytes 4 ctx.count0.toNat := by
  rw [← map_byteOf, ← map_byteOf]
  rfl

theorem padding_take {index : Nat} (h : index < 64) :
    ((0x80 : UInt8) :: List.replicate 63 0).take (padLen index) =
      0x80 :: List.replicate ((119 - index) % 64) 0 := by
  have hlen : padLen index = (119 - index) % 64 + 1 := by
    unfold padLen
    split
    all_goals omega
  rw [hlen, List.take_succ_cons, List.take_replicate, Nat.min_eq_left (by omega)]

/-- The length as `MD5Final` writes it: the high word comes first. -/
def swappedLength (bits : Nat) : List UInt8 :=
  leBytes 4 (bits / 2 ^ 32 % 2 ^ 32) ++ leBytes 4 (bits % 2 ^ 32)

theorem Holds.final_absorb {ctx : Md5Ctx} {xs : List UInt8} (h : Holds ctx xs) :
    md5Final ctx = (absorb md5Transform 64 initial
      (xs ++ (0x80 :: List.replicate ((119 - xs.length % 64) % 64) 0) ++
        lengthBits ctx)).1.bytes := by
  have hpadded := (h.update (0x80 :: List.replicate ((119 - xs.length % 64) % 64) 0)).update
    (lengthBits ctx)
  simp only [md5Final]
  rw [map_stateWord, h.index, padding_take (Nat.mod_lt _ (by decide)), hpadded.state]

/-- The two words of the count as one number. -/
def Md5Ctx.bits (ctx : Md5Ctx) : Nat := ctx.count1.toNat * 2 ^ 32 + ctx.count0.toNat

theorem md5Update_bits (ctx : Md5Ctx) {ys : List UInt8} (h : ys.length < 2 ^ 32) :
    (md5Update ctx ys).bits = (ctx.bits + 8 * ys.length) % 2 ^ 64 := by
  have hthree : (3 : UInt32).toNat % 32 = 3 := rfl
  have hshift : (29 : UInt32).toNat % 32 = 29 := rfl
  have hlow : (UInt32.ofNat ys.length <<< 3).toNat = ys.length * 8 % 2 ^ 32 := by
    rw [UInt32.toNat_shiftLeft, hthree, UInt32.toNat_ofNat', Nat.mod_eq_of_lt h,
      Nat.shiftLeft_eq]
  have hhigh : (UInt32.ofNat ys.length >>> 29).toNat = ys.length / 2 ^ 29 := by
    rw [UInt32.toNat_shiftRight, hshift, UInt32.toNat_ofNat', Nat.mod_eq_of_lt h,
      Nat.shiftRight_eq_div_pow]
  have h0 := ctx.count0.toNat_lt
  have h1 := ctx.count1.toNat_lt
  rw [Md5Ctx.bits, Md5Ctx.bits, md5Update_count0, md5Update_count1]
  split
  · rename_i hcarry
    rw [UInt32.lt_iff_toNat_lt, UInt32.toNat_add, hlow] at hcarry
    rw [UInt32.toNat_add, UInt32.toNat_add, UInt32.toNat_add, hlow, hhigh, UInt32.toNat_one]
    omega
  · rename_i hcarry
    rw [UInt32.lt_iff_toNat_lt, UInt32.toNat_add, hlow] at hcarry
    rw [UInt32.toNat_add, UInt32.toNat_add, hlow, hhigh]
    omega

theorem md5Update_init_count1 (buffer : Nat → UInt8) {xs : List UInt8} (h : xs.length < 2 ^ 32) :
    (md5Update (md5Init buffer) xs).count1.toNat = 8 * xs.length / 2 ^ 32 % 2 ^ 32 := by
  have hbits := md5Update_bits (md5Init buffer) h
  have hinit : (md5Init buffer).bits = 0 := by simp [Md5Ctx.bits, md5Init]
  have hlow := (md5Update (md5Init buffer) xs).count0.toNat_lt
  rw [hinit, Md5Ctx.bits] at hbits
  omega

theorem lengthBits_update (buffer : Nat → UInt8) {m : CString} (h : m.length < 2 ^ 32) :
    lengthBits (md5Update (md5Init buffer) m.bytes) = swappedLength (8 * m.bytes.length) := by
  have hcount := ((holds_init buffer).update m.bytes).count
  rw [List.nil_append] at hcount
  rw [lengthBits_eq, md5Update_init_count1 buffer h, hcount, UInt32.toNat_ofNat', swappedLength]

theorem nvMD5_eq (buffer : Nat → UInt8) {m : CString} (h : m.length < 2 ^ 32) :
    nvMD5 buffer m = hexText (digestWith (fun _ => 7) swappedLength m.bytes) := by
  have hholds := (holds_init buffer).update m.bytes
  rw [List.nil_append] at hholds
  rw [nvMD5, hholds.final_absorb, lengthBits_update buffer h, md5Transform_eq_compress, digestWith,
    pad]

theorem circularShift_one_ne :
    ∀ i < 64, shiftAmount i ≠ 7 → circularShift 1 7 ≠ circularShift 1 (shiftAmount i) := by
  decide +kernel

/-- An iteration is the operation of the RFC exactly if the RFC shifts by 7 there. -/
theorem transformRound_conforms_iff {i : Nat} (hi : i < 64) :
    (∀ x w, transformRound x w i = operation shiftAmount x w i) ↔ shiftAmount i = 7 := by
  constructor
  · intro h
    by_contra hne
    -- registers for which the sum that is shifted is 1
    have hb := congrArg Words.b
      (h (fun _ => 0) ⟨1 - sineTable.getD i 0 - auxiliary i 0 0 0, 0, 0, 0⟩)
    rw [transformRound_eq_operation _ _ hi] at hb
    simp only [operation, UInt32.sub_add_cancel, UInt32.add_zero, UInt32.zero_add] at hb
    exact circularShift_one_ne i hi hne hb
  · intro h x w
    rw [transformRound_eq_operation x w hi, operation, operation, h]

theorem swappedLength_eq_iff {bits : Nat} (h : bits < 2 ^ 32) :
    swappedLength bits = leBytes 8 bits ↔ bits = 0 := by
  constructor
  · intro heq
    have hhigh : bits / 2 ^ 32 % 2 ^ 32 = 0 := by omega
    simp only [swappedLength, hhigh, leBytes, List.cons_append, List.cons.injEq] at heq
    obtain ⟨h0, h1, h2, h3, -⟩ := heq
    have hbyte {n k : Nat} (hn : UInt8.ofNat n = UInt8.ofNat k) : n % 256 = k % 256 := by
      simpa using congrArg UInt8.toNat hn
    have := hbyte h0
    have := hbyte h1
    have := hbyte h2
    have := hbyte h3
    omega
  · rintro rfl
    decide

/-- What makes the digest of a message that of the RFC: the operations, the length and the result. -/
structure Conforms (buffer : Nat → UInt8) (m : CString) : Prop where
  operations : ∀ i < 64, ∀ x w, transformRound x w i = operation shiftAmount x w i
  length : lengthBits (md5Update (md5Init buffer) m.bytes) = leBytes 8 (8 * m.length)
  digest : nvMD5 buffer m = hexText (md5 m.bytes)

/--
`nv_MD5` conforms for no message.  The operations are those of the RFC at four of the 64
indices, the appended length is that of the RFC only for the empty message, whose digest is
another, and every digest is that of the construction with the shift amount 7 and the
swapped length.
-/
theorem nvMD5_never_conforms
    (buffer : Nat → UInt8)
    (m : CString)
    (h : m.length < 2 ^ 29) :
    ¬ Conforms buffer m ∧
      (∀ i < 64, (∀ x w, transformRound x w i = operation shiftAmount x w i) ↔
        i ∈ [0, 4, 8, 12]) ∧
      (lengthBits (md5Update (md5Init buffer) m.bytes) = leBytes 8 (8 * m.length) ↔
        m.bytes = []) ∧
      (m.bytes = [] → nvMD5 buffer m ≠ hexText (md5 m.bytes)) ∧
      nvMD5 buffer m = hexText (digestWith (fun _ => 7) swappedLength m.bytes) := by
  have hlen : m.length < 2 ^ 32 := Nat.lt_trans h (by decide)
  have hseven : ∀ i < 64, shiftAmount i = 7 ↔ i ∈ [0, 4, 8, 12] := by decide +kernel
  refine ⟨fun hconforms => ?_, fun i hi => ?_, ?_, fun hempty => ?_, nvMD5_eq buffer hlen⟩
  · have hsecond := (transformRound_conforms_iff (by decide)).mp (hconforms.operations 1 (by decide))
    exact absurd hsecond (by decide)
  · rw [transformRound_conforms_iff hi, hseven i hi]
  · change m.bytes.length < 2 ^ 29 at h
    change _ = leBytes 8 (8 * m.bytes.length) ↔ _
    rw [lengthBits_update buffer hlen, swappedLength_eq_iff (by omega), ← List.length_eq_zero_iff]
    omega
  · rw [nvMD5_eq buffer hlen, hempty]
    decide +kernel

theorem nvMD5_abc_never_conforms :
    (CText.lit "abc").length < 2 ^ 29 ∧ ¬ Conforms (fun _ => 0) (CText.lit "abc") :=
  ⟨by decide +kernel, (nvMD5_never_conforms (fun _ => 0) (CText.lit "abc") (by decide +kernel)).1⟩

/-- What `nv_MD5` writes for `"abc"`, and the digest of that string in the RFC. -/
theorem nvMD5_abc_differs :
    nvMD5 (fun _ => 0) (CText.lit "abc") =
        (CText.lit "c20380d1db9ba901a5fa140d5adf993f").bytes ∧
      hexText (md5 (CText.lit "abc").bytes) =
        (CText.lit "900150983cd24fb0d6963f7d28e17f72").bytes := by
  decide +kernel

end Libnv.Md5
