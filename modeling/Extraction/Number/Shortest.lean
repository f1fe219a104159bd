import Extraction.Number.Binary64

/-! # Shortest decimal text of a double

The reals that round to a double form an interval around it, which contains its
ends when the significand is even. Among the decimals in that interval the
shortest is chosen, and of several of that length the nearest to the double.
The search tries the two neighbours of the double on the grid of one digit, of
two digits, and so on.
-/

namespace Extraction.Binary64

/-- Decimal digits `d₁ d₂ …`, the first of them not zero, standing for `d₁.d₂… · 10 ^ exponent`. -/
structure Decimal where
  digits : List Char
  exponent : Int
deriving DecidableEq, Repr

/-- The number of decimal digits of a positive natural. -/
def decimalLength (n : Nat) : Nat := (Nat.toDigits 10 n).length

/-- A positive double and the ends of its interval, as numerators over one denominator. -/
structure Surroundings where
  value : Nat
  low : Nat
  high : Nat
  denominator : Nat
  closed : Bool

/-- The interval of reals that round to `significand · 2 ^ exponent`.

Below a power of two the doubles lie twice as close as above it. -/
def surroundings (significand : Nat) (exponent : Int) : Surroundings :=
  let below := if significand = leadingBit && leastExponent < exponent then 1 else 2
  let (up, down) := if 2 ≤ exponent then (Nat.pow 2 (exponent - 2).toNat, 1)
    else (1, Nat.pow 2 (2 - exponent).toNat)
  { value := 4 * significand * up
    low := (4 * significand - below) * up
    high := (4 * significand + 2) * up
    denominator := down
    closed := significand % 2 == 0 }

/-- The exponent `p` with `10 ^ p ≤ value < 10 ^ (p + 1)`. -/
def Surroundings.magnitude (s : Surroundings) : Int :=
  if s.denominator ≤ s.value then (decimalLength (s.value / s.denominator) : Int) - 1
  else -(decimalLength ((s.denominator + s.value - 1) / s.value - 1) : Int)

/-- Whether `count · 10 ^ step` lies in the interval. -/
def Surroundings.contains (s : Surroundings) (count : Nat) (step : Int) : Bool :=
  let point := count * Nat.pow 10 step.toNat * s.denominator
  let scale := Nat.pow 10 (-step).toNat
  if s.closed then s.low * scale ≤ point && point ≤ s.high * scale
  else s.low * scale < point && point < s.high * scale

/-- The point of the grid of `10 ^ step` that lies in the interval and is nearest to the value. -/
def Surroundings.onGrid? (s : Surroundings) (step : Int) : Option Nat :=
  let value := s.value * Nat.pow 10 (-step).toNat
  let unit := Nat.pow 10 step.toNat * s.denominator
  let below := value / unit
  let past := value - below * unit
  let short := (below + 1) * unit - value
  match s.contains below step, s.contains (below + 1) step with
  | true, true =>
    some (if past < short || (past == short && below % 2 == 0) then below else below + 1)
  | true, false => some below
  | false, true => some (below + 1)
  | false, false => none

/-- The digits of `count · 10 ^ step`, without the zeros they end in. -/
def Decimal.ofCount (count : Nat) (step : Int) : Decimal :=
  let digits := Nat.toDigits 10 count
  { digits := (digits.reverse.dropWhile (· == '0')).reverse
    exponent := step + digits.length - 1 }

/-- Tries the grids of `length`, `length + 1`, … digits. -/
def Surroundings.search (s : Surroundings) : (tries length : Nat) → Decimal
  | 0, length =>
    let step := s.magnitude - length + 1
    .ofCount (s.value * Nat.pow 10 (-step).toNat / (Nat.pow 10 step.toNat * s.denominator)) step
  | tries + 1, length =>
    let step := s.magnitude - length + 1
    match s.onGrid? step with
    | some count => .ofCount count step
    | none => s.search tries (length + 1)

/-- The shortest decimal that rounds to a double other than zero; one of 17 digits always does. -/
def shortest (x : Binary64) : Decimal := (surroundings x.significand x.exponent).search 17 1

/-- Digits with a decimal point and at least one digit on either side of it. -/
def Decimal.positional (d : Decimal) : List Char :=
  if d.exponent < 0 then
    '0' :: '.' :: List.replicate (-d.exponent - 1).toNat '0' ++ d.digits
  else
    let places := d.exponent.toNat + 1
    let fraction := d.digits.drop places
    d.digits.take places ++ List.replicate (places - d.digits.length) '0' ++
      '.' :: (if fraction.isEmpty then ['0'] else fraction)

/-- One digit, the point and further digits if there are any, and a signed exponent of ten. -/
def Decimal.scientific (d : Decimal) : List Char :=
  let mantissa := match d.digits with
    | [] => []
    | [digit] => [digit]
    | digit :: rest => digit :: '.' :: rest
  mantissa ++ 'e' :: (if d.exponent < 0 then '-' else '+') :: Nat.toDigits 10 d.exponent.natAbs

/-- A double with its sign, by the given way of writing a positive decimal. -/
def textBy (write : Decimal → List Char) (x : Binary64) : List Char :=
  let magnitude := if x.isZero then ['0', '.', '0'] else write x.shortest
  if x.negative then '-' :: magnitude else magnitude

end Extraction.Binary64
