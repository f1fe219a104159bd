/-! # Double precision numbers

A finite double is a sign, a significand below `2 ^ 53` and an exponent of two
from `-1074` up to `971`. Every operation is the exact one on fractions of
naturals followed by one rounding to the nearest double, ties to the even
significand; a result past the largest double is refused.
-/

namespace Extraction

/-- The finite double `± significand · 2 ^ exponent`. -/
structure Binary64 where
  negative : Bool
  significand : Nat
  exponent : Int
deriving DecidableEq, Repr

namespace Binary64

/-- The least exponent of two a double can have. -/
def leastExponent : Int := -1074

/-- The greatest exponent of two a finite double can have. -/
def greatestExponent : Int := 971

/-- `2 ^ 52`, from which on a significand has all its 53 bits. -/
def leadingBit : Nat := 0x10000000000000

/-- `numerator / denominator` rounded to the nearest natural, ties to the even one. -/
def roundQuotient (numerator denominator : Nat) : Nat :=
  let quotient := numerator / denominator
  let twice := 2 * (numerator % denominator)
  if denominator < twice || (twice == denominator && quotient % 2 == 1) then quotient + 1
  else quotient

/-- The fraction `numerator / denominator` times `2 ^ -shift`. -/
def shiftDown (numerator denominator : Nat) (shift : Int) : Nat × Nat :=
  if 0 ≤ shift then (numerator, denominator * Nat.pow 2 shift.toNat)
  else (numerator * Nat.pow 2 (-shift).toNat, denominator)

/-- The exponent at which a positive fraction has a significand of 53 bits, or the least one. -/
def exponentFor (numerator denominator : Nat) : Int :=
  let estimate : Int := (numerator.log2 : Int) - denominator.log2 - 52
  let (n, d) := shiftDown numerator denominator estimate
  max leastExponent (if n < leadingBit * d then estimate - 1 else estimate)

/-- The double nearest to a fraction, unless that is past the largest one. -/
def ofFraction? (negative : Bool) (numerator denominator : Nat) : Option Binary64 :=
  if numerator = 0 then some ⟨negative, 0, leastExponent⟩
  else
    let exponent := exponentFor numerator denominator
    let (n, d) := shiftDown numerator denominator exponent
    let rounded := roundQuotient n d
    let (significand, exponent) :=
      if rounded = 2 * leadingBit then (leadingBit, exponent + 1) else (rounded, exponent)
    if greatestExponent < exponent then none else some ⟨negative, significand, exponent⟩

/-- The double nearest to `numerator / denominator · 2 ^ exponent`. -/
def ofScaled? (negative : Bool) (numerator denominator : Nat) (exponent : Int) :
    Option Binary64 :=
  let (n, d) := shiftDown numerator denominator (-exponent)
  ofFraction? negative n d

def isZero (x : Binary64) : Bool := x.significand == 0

/-- The double nearest to a natural. -/
def ofNat? (n : Nat) : Option Binary64 := ofFraction? false n 1

/-- The rounded product; nothing when it is past the largest double. -/
def mul? (x y : Binary64) : Option Binary64 :=
  ofScaled? (x.negative != y.negative) (x.significand * y.significand) 1
    (x.exponent + y.exponent)

/-- The rounded quotient by a number other than zero. -/
def div? (x y : Binary64) : Option Binary64 :=
  ofScaled? (x.negative != y.negative) x.significand y.significand (x.exponent - y.exponent)

/-- The double nearest to `digits · 10 ^ exponent`; nothing when that is past the largest one.

Decimals beyond a power of ten no double comes near are settled by their magnitude alone. -/
def ofDecimal? (negative : Bool) (digits : Nat) (exponent : Int) : Option Binary64 :=
  let magnitude : Int := exponent + (Nat.toDigits 10 digits).length
  if digits = 0 || magnitude < -400 then some ⟨negative, 0, leastExponent⟩
  else if 400 < magnitude then none
  else if 0 ≤ exponent then ofFraction? negative (digits * Nat.pow 10 exponent.toNat) 1
  else ofFraction? negative digits (Nat.pow 10 (-exponent).toNat)

end Binary64

end Extraction
