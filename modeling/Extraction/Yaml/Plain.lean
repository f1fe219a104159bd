import Extraction.Number.Binary64

/-! # What plain scalars stand for

A scalar without quotes is a null, a truth value, an integer or a real number
if it is written as one, and a text otherwise. Integers may be written in
decimal, hexadecimal, octal or binary digits, within 128 bits; digits after a
leading zero make a text.
-/

namespace Extraction.Yaml

/-- A real number a plain scalar can stand for. -/
inductive Real
  | finite (value : Binary64)
  | infinity (negative : Bool)
  | notANumber
deriving DecidableEq, Repr

/-- What a plain scalar stands for. -/
inductive Meaning
  | null
  | bool (value : Bool)
  | integer (value : Int)
  | real (value : Real)
  | text
deriving DecidableEq, Repr

/-- The spellings of the null. -/
def isNull (s : List Char) : Bool :=
  s = ['~'] || s = ['n', 'u', 'l', 'l'] || s = ['N', 'u', 'l', 'l'] || s = ['N', 'U', 'L', 'L']

/-- The truth value a scalar is a spelling of. -/
def bool? (s : List Char) : Option Bool :=
  if s = "true".toList ∨ s = "True".toList ∨ s = "TRUE".toList then some true
  else if s = "false".toList ∨ s = "False".toList ∨ s = "FALSE".toList then some false
  else none

/-- Whether a scalar is a zero before further digits, possibly with a sign. -/
def hasLeadingZero (s : List Char) : Bool :=
  let unsigned := match s with
    | '-' :: rest => rest
    | '+' :: rest => rest
    | s => s
  match unsigned with
  | '0' :: rest => !rest.isEmpty && rest.all Char.isDigit
  | _ => false

/-- The value of a digit below `radix`. -/
def digit? (radix : Nat) (c : Char) : Option Nat :=
  let value :=
    if c.isDigit then c.toNat - '0'.toNat
    else if 'a' ≤ c ∧ c ≤ 'z' then c.toNat - 'a'.toNat + 10
    else if 'A' ≤ c ∧ c ≤ 'Z' then c.toNat - 'A'.toNat + 10
    else radix
  if value < radix then some value else none

/-- The number written in digits below `radix`; at least one is needed. -/
def inRadix? (radix : Nat) (digits : List Char) : Option Nat :=
  if digits.isEmpty then none
  else digits.foldlM (fun n c => (digit? radix c).map (n * radix + ·)) 0

/-- The number written without a sign. -/
def magnitude? : List Char → Option Nat
  | '0' :: 'x' :: digits => inRadix? 16 digits
  | '0' :: 'o' :: digits => inRadix? 8 digits
  | '0' :: 'b' :: digits => inRadix? 2 digits
  | digits => if hasLeadingZero digits then none else inRadix? 10 digits

/-- The natural below `limit` written with at most a plus sign. -/
def natural? (limit : Nat) (s : List Char) : Option Nat :=
  let digits := match s with
    | '+' :: rest => rest
    | s => s
  (magnitude? digits).filter (· < limit)

/-- The integer from `-2 ^ 127` up to `2 ^ 128 - 1` a scalar is written as. -/
def integer? (s : List Char) : Option Int :=
  match s with
  | '-' :: rest => ((magnitude? rest).filter (· ≤ Nat.pow 2 127)).map fun n => -(n : Int)
  | s => (natural? (Nat.pow 2 128) s).map fun n => (n : Int)

/-- The exponent after a numeral's letter `e`: an optional sign and digits. -/
def exponent? (s : List Char) : Option Int :=
  match s with
  | '-' :: digits => (inRadix? 10 digits).map fun n => -(n : Int)
  | '+' :: digits => (inRadix? 10 digits).map fun n => (n : Int)
  | digits => (inRadix? 10 digits).map fun n => (n : Int)

/-- The double written without a sign: digits with or without a point, and maybe an exponent. -/
def double? (negative : Bool) (s : List Char) : Option Binary64 := do
  let whole := s.takeWhile Char.isDigit
  let (fraction, rest) := match s.dropWhile Char.isDigit with
    | '.' :: rest => (rest.takeWhile Char.isDigit, rest.dropWhile Char.isDigit)
    | rest => ([], rest)
  let digits ← inRadix? 10 (whole ++ fraction)
  let exponent ← match rest with
    | [] => some 0
    | 'e' :: rest => exponent? rest
    | 'E' :: rest => exponent? rest
    | _ => none
  Binary64.ofDecimal? negative digits (exponent - fraction.length)

def isInfinity (s : List Char) : Bool :=
  s = ".inf".toList || s = ".Inf".toList || s = ".INF".toList

def isNotANumber (s : List Char) : Bool :=
  s = ".nan".toList || s = ".NaN".toList || s = ".NAN".toList

/-- The real number a scalar is written as. -/
def real? (s : List Char) : Option Real :=
  if isNotANumber s then some .notANumber
  else
    match s with
    | '-' :: rest =>
      if isInfinity rest then some (.infinity true) else (double? true rest).map .finite
    | '+' :: rest =>
      if isInfinity rest then some (.infinity false) else (double? false rest).map .finite
    | s => if isInfinity s then some (.infinity false) else (double? false s).map .finite

/-- What a plain scalar stands for; the empty one is a null. -/
def meaning (s : List Char) : Meaning :=
  if s.isEmpty || isNull s then .null
  else
    match bool? s, integer? s with
    | some value, _ => .bool value
    | none, some value => .integer value
    | none, none =>
      if hasLeadingZero s then .text
      else
        match real? s with
        | some value => .real value
        | none => .text

end Extraction.Yaml
