/-
  Peg.Decimal.Binary

  Binary floating-point formats, and the number of a format that is nearest to
  an exact decimal. All arithmetic is on natural numbers; a tie goes to the
  neighbour with an even significand.
-/

namespace Peg

/-- A binary format: the bits of a significand, the exponent of its last place in the
    smallest numbers, and the bit pattern of infinity. -/
structure BinaryFormat where
  precision : Nat
  lowest : Int
  infinity : Nat

namespace BinaryFormat

/-- The 64-bit format. -/
def double : BinaryFormat := ⟨53, -1074, 0x7ff0000000000000⟩

/-- The 32-bit format. -/
def single : BinaryFormat := ⟨24, -149, 0x7f800000⟩

/-- The bit pattern of a sign. -/
def signBit (f : BinaryFormat) : Nat := if f.precision = 53 then Nat.pow 2 63 else Nat.pow 2 31

/-- The bit pattern of a quiet not-a-number. -/
def nan (f : BinaryFormat) : Nat := f.infinity + Nat.pow 2 (f.precision - 2)

end BinaryFormat

/-- An unsigned decimal: `digits * 10 ^ exponent`. -/
structure Decimal where
  digits : Nat
  exponent : Int
  deriving DecidableEq, Repr

namespace Decimal

/-- The quotient rounded to the nearest integer, a tie to the even one. -/
def roundHalfEven (num den : Nat) : Nat :=
  let q := num / den
  let r := num % den
  if 2 * r < den then q
  else if den < 2 * r then q + 1
  else if q % 2 = 0 then q else q + 1

/-- `num / den / 2 ^ e` as a fraction of natural numbers. -/
def scaled (num den : Nat) (e : Int) : Nat × Nat :=
  if 0 ≤ e then (num, den * Nat.pow 2 e.toNat) else (num * Nat.pow 2 (-e).toNat, den)

/-- The exponent of the last place of a significand for `num / den`. -/
def lastPlace (f : BinaryFormat) (num den : Nat) : Int :=
  let e := max ((num.log2 : Int) - den.log2 - (f.precision - 1)) f.lowest
  let (n, d) := scaled num den e
  if n < Nat.pow 2 (f.precision - 1) * d ∧ f.lowest < e then e - 1 else e

/-- The bit pattern of the number of `f` nearest to `num / den`. -/
def encodeRatio (f : BinaryFormat) (num den : Nat) : Nat :=
  let e := lastPlace f num den
  let (n, d) := scaled num den e
  let m := roundHalfEven n d
  let hidden := Nat.pow 2 (f.precision - 1)
  -- rounding may carry into the next power of two, and the bit pattern carries with it
  let bits :=
    if m < hidden then m
    else (e - f.lowest + 1).toNat * hidden + (m - hidden)
  min bits f.infinity

/-- The bit pattern of the number of `f` nearest to a decimal. Decimals far outside the range
    of every format are told by their size alone. -/
def encode (f : BinaryFormat) (x : Decimal) : Nat :=
  let size := x.exponent + (Nat.toDigits 10 x.digits).length
  if x.digits = 0 ∨ size < -400 then 0
  else if 400 < size then f.infinity
  else if 0 ≤ x.exponent then encodeRatio f (x.digits * Nat.pow 10 x.exponent.toNat) 1
  else encodeRatio f x.digits (Nat.pow 10 (-x.exponent).toNat)

end Decimal

end Peg
