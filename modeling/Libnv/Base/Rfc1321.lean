import Libnv.Lib.BlockStream

/-!
# MD5 as RFC 1321 defines it

The message is padded to a multiple of 64 bytes, and its blocks are compressed
into four words.  Each block takes 64 operations in four rounds; operation `i`
is written `[abcd k s i]` in the RFC and sets

    a = b + ((a + f(b, c, d) + X[k] + T[i]) <<< s)

where the roles of the registers rotate from one operation to the next.

The shift amounts and the encoding of the length are parameters, so that what
depends on them can be said.
-/

namespace Libnv.Rfc1321

open BlockStream

/-- The registers. -/
structure Words where
  a : UInt32
  b : UInt32
  c : UInt32
  d : UInt32
deriving DecidableEq

def initial : Words where
  a := 0x67452301
  b := 0xefcdab89
  c := 0x98badcfe
  d := 0x10325476

/-- The auxiliary function of the round of operation `i`. -/
def auxiliary (i : Nat) (x y z : UInt32) : UInt32 :=
  match i / 16 with
  | 0 => (x &&& y) ||| (~~~x &&& z)
  | 1 => (x &&& z) ||| (y &&& ~~~z)
  | 2 => x ^^^ y ^^^ z
  | _ => y ^^^ (x ||| ~~~z)

/-- The word `k` of each operation. -/
def wordIndices : List Nat :=
  [0, 1, 2, 3, 4, 5, 6, 7, 8, 9, 10, 11, 12, 13, 14, 15,
    1, 6, 11, 0, 5, 10, 15, 4, 9, 14, 3, 8, 13, 2, 7, 12,
    5, 8, 11, 14, 1, 4, 7, 10, 13, 0, 3, 6, 9, 12, 15, 2,
    0, 7, 14, 5, 12, 3, 10, 1, 8, 15, 6, 13, 4, 11, 2, 9]

/-- The shift amount `s` of operation `i`. -/
def shiftAmount (i : Nat) : Nat :=
  match i / 16 with
  | 0 => [7, 12, 17, 22].getD (i % 4) 0
  | 1 => [5, 9, 14, 20].getD (i % 4) 0
  | 2 => [4, 11, 16, 23].getD (i % 4) 0
  | _ => [6, 10, 15, 21].getD (i % 4) 0

/-- The table `T`: the integer part of `4294967296 * abs(sin(i))`, for `i` from 1. -/
def sineTable : List UInt32 :=
  [0xd76aa478, 0xe8c7b756, 0x242070db, 0xc1bdceee, 0xf57c0faf, 0x4787c62a, 0xa8304613, 0xfd469501,
    0x698098d8, 0x8b44f7af, 0xffff5bb1, 0x895cd7be, 0x6b901122, 0xfd987193, 0xa679438e, 0x49b40821,
    0xf61e2562, 0xc040b340, 0x265e5a51, 0xe9b6c7aa, 0xd62f105d, 0x02441453, 0xd8a1e681, 0xe7d3fbc8,
    0x21e1cde6, 0xc33707d6, 0xf4d50d87, 0x455a14ed, 0xa9e3e905, 0xfcefa3f8, 0x676f02d9, 0x8d2a4c8a,
    0xfffa3942, 0x8771f681, 0x6d9d6122, 0xfde5380c, 0xa4beea44, 0x4bdecfa9, 0xf6bb4b60, 0xbebfbc70,
    0x289b7ec6, 0xeaa127fa, 0xd4ef3085, 0x04881d05, 0xd9d4d039, 0xe6db99e5, 0x1fa27cf8, 0xc4ac5665,
    0xf4292244, 0x432aff97, 0xab9423a7, 0xfc93a039, 0x655b59c3, 0x8f0ccc92, 0xffeff47d, 0x85845dd1,
    0x6fa87e4f, 0xfe2ce6e0, 0xa3014314, 0x4e0811a1, 0xf7537e82, 0xbd3af235, 0x2ad7d2bb, 0xeb86d391]

def circularShift (x : UInt32) (s : Nat) : UInt32 :=
  ⟨x.toBitVec.rotateLeft s⟩

/-- `k` bytes of a number, low-order byte first. -/
def leBytes : Nat → Nat → List UInt8
  | 0, _ => []
  | k + 1, n => UInt8.ofNat n :: leBytes k (n / 256)

/-- The number with these bytes, low-order byte first. -/
def leNat : List UInt8 → Nat
  | [] => 0
  | b :: bs => b.toNat + 256 * leNat bs

def blockWord (block : List UInt8) (k : Nat) : UInt32 :=
  UInt32.ofNat (leNat ((List.range 4).map fun j => block.getD (4 * k + j) 0))

section Construction

variable (shift : Nat → Nat) (lengthBytes : Nat → List UInt8)

/-- The operation `[abcd k s i]`; the registers come out in their next roles. -/
def operation (x : Nat → UInt32) (w : Words) (i : Nat) : Words where
  a := w.d
  b := w.b + circularShift
    (w.a + auxiliary i w.b w.c w.d + x (wordIndices.getD i 0) + sineTable.getD i 0) (shift i)
  c := w.b
  d := w.c

/-- A block is processed. -/
def compress (w : Words) (block : List UInt8) : Words :=
  let r := (List.range 64).foldl (operation shift (blockWord block)) w
  { a := w.a + r.a, b := w.b + r.b, c := w.c + r.c, d := w.d + r.d }

/-- Steps 1 and 2: the padding and the length in bits. -/
def pad (m : List UInt8) : List UInt8 :=
  m ++ 0x80 :: List.replicate ((119 - m.length % 64) % 64) 0 ++ lengthBytes (8 * m.length)

/-- Step 5: the registers, each with its low-order byte first. -/
def Words.bytes (w : Words) : List UInt8 :=
  [w.a, w.b, w.c, w.d].flatMap fun x => leBytes 4 x.toNat

/-- The digest, for given shift amounts and a given encoding of the length. -/
def digestWith (m : List UInt8) : List UInt8 :=
  (absorb (compress shift) 64 initial (pad lengthBytes m)).1.bytes

end Construction

/-- The MD5 digest: the length is a 64-bit number, low-order byte first. -/
def md5 (m : List UInt8) : List UInt8 :=
  digestWith shiftAmount (leBytes 8) m

-- the third string of the test suite in the RFC
example : md5 [97, 98, 99] =
    [0x90, 0x01, 0x50, 0x98, 0x3c, 0xd2, 0x4f, 0xb0,
      0xd6, 0x96, 0x3f, 0x7d, 0x28, 0xe1, 0x7f, 0x72] := by
  decide +kernel

end Libnv.Rfc1321
