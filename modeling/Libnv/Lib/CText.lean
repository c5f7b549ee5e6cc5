import Mathlib.Data.List.DropRight
import Mathlib.Data.List.Infix
import Libnv.Lib.CString
import Mathlib.Algebra.Group.Nat.Defs
import Mathlib.Algebra.Group.Int.Defs

/-!
# Text functions of the C library

The functions of `<ctype.h>`, `<string.h>`, `<stdio.h>` and `<stdlib.h>` that a
line-oriented parser uses, in the "C" locale and for a 64-bit `long`.  A text is
a list of bytes; reading it as a C string stops at the first NUL.
-/

namespace Libnv.CText

def isSpace (b : UInt8) : Bool :=
  b = 32 ∨ 9 ≤ b ∧ b ≤ 13

def toLower (b : UInt8) : UInt8 :=
  if 65 ≤ b ∧ b ≤ 90 then b + 32 else b

/-- `strcasecmp(s, t) == 0`. -/
def equalIgnoreCase (s t : CString) : Bool :=
  s.bytes.map toLower = t.bytes.map toLower

/-- `strncasecmp(s, t, n) == 0`. -/
def equalIgnoreCaseN (s t : CString) (n : Nat) : Bool :=
  equalIgnoreCase (s.take n) (t.take n)

/-- `strstr(s, t) != NULL`. -/
def contains (s t : CString) : Bool :=
  t.bytes <:+: s.bytes

/-- A string literal of the source. -/
def lit (s : String) : CString :=
  CString.ofBuffer (s.toList.map fun c => UInt8.ofNat c.toNat)

/-- The text without the white space around it. -/
def trim (text : List UInt8) : List UInt8 :=
  (text.dropWhile isSpace).rdropWhile isSpace

/-- What `fgets` with room for `n` bytes takes off a stream, and what remains. -/
def fgetsTake : Nat → List UInt8 → List UInt8 × List UInt8
  | 0, bs => ([], bs)
  | _ + 1, [] => ([], [])
  | n + 1, b :: bs =>
      if b = 10 then ([b], bs)
      else
        let (line, rest) := fgetsTake n bs
        (b :: line, rest)

/-- The buffers filled by `fgets(line, size, fp)` until the end of the stream. -/
def fgetsLoop (size : Nat) : Nat → List UInt8 → List (List UInt8)
  | 0, _ => []
  | fuel + 1, bs =>
      match bs with
      | [] => []
      | b :: bs =>
          let (line, rest) := fgetsTake (size - 1) (b :: bs)
          line :: fgetsLoop size fuel rest

/-- Every call takes a byte, so a stream of `n` bytes needs at most `n` of them. -/
def fgetsLines (size : Nat) (bs : List UInt8) : List (List UInt8) :=
  fgetsLoop size bs.length bs

/-- The value of a digit in the given base. -/
def digit? (base : Nat) (b : UInt8) : Option Nat :=
  let v :=
    if 48 ≤ b ∧ b ≤ 57 then b.toNat - 48
    else if 97 ≤ toLower b ∧ toLower b ≤ 122 then (toLower b).toNat - 87
    else 36
  if v < base then some v else none

/-- The number spelled by the digits at the start of a text, and what follows. -/
def readDigits (base : Nat) : Nat → List UInt8 → Nat × List UInt8
  | acc, [] => (acc, [])
  | acc, b :: bs =>
      match digit? base b with
      | some d => readDigits base (acc * base + d) bs
      | none => (acc, b :: bs)

/-- The base that `strtol(.., 0)` finds after the sign, and the digits. -/
def detectBase : List UInt8 → Nat × List UInt8
  | 48 :: x :: d :: bs =>
      if (x = 120 ∨ x = 88) ∧ (digit? 16 d).isSome then (16, d :: bs)
      else (8, 48 :: x :: d :: bs)
  | 48 :: bs => (8, 48 :: bs)
  | bs => (10, bs)

/-- The sign of a number, and what follows. -/
def readSign : List UInt8 → Bool × List UInt8
  | 45 :: bs => (true, bs)
  | 43 :: bs => (false, bs)
  | bs => (false, bs)

/-- The integer at the start of a text, if `strtol(.., 0)` converts one. -/
def readInt (text : List UInt8) : Option (Int × List UInt8) :=
  let (negative, text) := readSign (text.dropWhile isSpace)
  let (base, text) := detectBase text
  match text with
  | [] => none
  | b :: bs =>
      if (digit? base b).isSome then
        let (n, rest) := readDigits base 0 (b :: bs)
        some (if negative then -(n : Int) else n, rest)
      else none

/-- The range of `long` and of `int64_t`. -/
def saturate (v : Int) : Int :=
  max (-2 ^ 63) (min (2 ^ 63 - 1) v)

/-- `strtol(s, &end, 0)` and `strtoll(s, &end, 0)`: the value and where `end` points. -/
def strtol (s : CString) : Int × List UInt8 :=
  match readInt s.bytes with
  | some (v, rest) => (saturate v, rest)
  | none => (0, s.bytes)

/-- Conversion to a 32-bit `int`. -/
def toInt (v : Int) : Int :=
  v.bmod (2 ^ 32)

/-- Conversion of an `int` to `size_t`. -/
def toSize (v : Int) : Nat :=
  (v % 2 ^ 64).toNat

end Libnv.CText
