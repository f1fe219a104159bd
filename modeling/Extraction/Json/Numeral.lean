import Extraction.Json.Value
import Extraction.Json.Failure
import Extraction.Number.Shortest

/-! # JSON numerals

An integer is written in decimal digits, a double in the shortest digits that
read back to it. A numeral is read into a significand of at most 64 bits and a
power of ten: digits beyond 64 bits only count towards the power, and the
significand is scaled by powers of ten that are doubles themselves. A numeral
with neither fraction nor exponent is an integer if it fits 64 bits.
-/

namespace Extraction.Json

/-- Doubles from `10 ^ -5` up to `10 ^ 16` are written without an exponent. -/
def writeDecimal (d : Binary64.Decimal) : List Char :=
  if -5 ≤ d.exponent ∧ d.exponent < 16 then d.positional else d.scientific

/-- The decimal digits of an integer, after its sign. -/
def writeInteger (n : Int) : List Char :=
  if n < 0 then '-' :: Nat.toDigits 10 n.natAbs else Nat.toDigits 10 n.natAbs

def Number.write : Number → List Char
  | .integer value => writeInteger value
  | .double value => Binary64.textBy writeDecimal value

/-- The value of a decimal digit. -/
def digitValue (c : Char) : Nat := c.toNat - '0'.toNat

/-- Takes digits into a significand while it stays below `2 ^ 64`, and counts them. -/
def takeDigits (significand count : Nat) : List Char → Nat × Nat × List Char
  | [] => (significand, count, [])
  | c :: rest =>
    let next := significand * 10 + digitValue c
    if c.isDigit ∧ next < UInt64.size then takeDigits next (count + 1) rest
    else (significand, count, c :: rest)

/-- What follows the digits a text begins with. -/
def afterDigits (s : List Char) : List Char := s.dropWhile Char.isDigit

/-- The double nearest to a power of ten. -/
def powerOfTen? (n : Nat) : Option Binary64 := Binary64.ofNat? (Nat.pow 10 n)

/-- Divides by `10 ^ n`, by at most `10 ^ 308` at a time. -/
def divideByPower? (x : Binary64) (n : Nat) : Option Binary64 :=
  if _ : n ≤ 308 then do x.div? (← powerOfTen? n)
  else if x.isZero then some x
  else do
    let quotient ← x.div? (← powerOfTen? 308)
    divideByPower? quotient (n - 308)
termination_by n

/-- The double for `significand · 10 ^ exponent`; nothing when it is past the largest one. -/
def scaled? (significand : Nat) (exponent : Int) : Option Binary64 := do
  let x ← Binary64.ofNat? significand
  if exponent < 0 then divideByPower? x exponent.natAbs
  else if exponent ≤ 308 then x.mul? (← powerOfTen? exponent.natAbs)
  else if x.isZero then some x
  else none

/-- The double of a numeral that ends before `rest`. -/
def endDouble (negative : Bool) (significand : Nat) (exponent : Int) (rest : List Char) :
    Except Failure (Number × List Char) :=
  match scaled? significand exponent with
  | some x => .ok (.double { x with negative }, rest)
  | none => .error ⟨.numberOutOfRange, rest, 0⟩

/-- The number of a numeral without fraction and exponent that ends before `rest`.

A negative zero and what is below `-2 ^ 63` are doubles. -/
def endInteger (negative : Bool) (significand : Nat) (rest : List Char) :
    Except Failure (Number × List Char) :=
  if negative = false then .ok (.integer significand, rest)
  else if significand = 0 ∨ Nat.pow 2 63 < significand then endDouble true significand 0 rest
  else .ok (.integer (-significand), rest)

/-- Reads the digits of an exponent. Past `2 ^ 31 - 1` there is no value, and what follows the
digit that leads there is left unread. -/
def exponentDigits (value : Nat) : List Char → Option Nat × List Char
  | [] => (some value, [])
  | c :: rest =>
    if c.isDigit then
      let next := value * 10 + digitValue c
      if next < Nat.pow 2 31 then exponentDigits next rest else (none, rest)
    else (some value, c :: rest)

/-- Whether an exponent is negative, and what follows its sign. -/
def exponentSign : List Char → Bool × List Char
  | '-' :: rest => (true, rest)
  | '+' :: rest => (false, rest)
  | s => (false, s)

/-- Reads what follows the letter of an exponent. -/
def exponentPart (negative : Bool) (significand : Nat) (exponent : Int) (s : List Char) :
    Except Failure (Number × List Char) :=
  match (exponentSign s).2 with
  | [] => .error ⟨.endInValue, [], 0⟩
  | c :: rest =>
    if c.isDigit then
      match exponentDigits (digitValue c) rest with
      | (some value, rest) =>
        endDouble negative significand
          (if (exponentSign s).1 then exponent - value else exponent + value) rest
      | (none, rest) =>
        if significand ≠ 0 ∧ (exponentSign s).1 = false then .error ⟨.numberOutOfRange, rest, 0⟩
        else .ok (.double ⟨negative, 0, Binary64.leastExponent⟩, afterDigits rest)
    else .error ⟨.invalidNumber, c :: rest, 1⟩

def isExponentMark (c : Char) : Bool := c == 'e' || c == 'E'

/-- Reads what follows the digits of a numeral that is a double. -/
def doubleEnd (negative : Bool) (significand : Nat) (exponent : Int) :
    List Char → Except Failure (Number × List Char)
  | [] => endDouble negative significand exponent []
  | c :: rest =>
    if isExponentMark c then exponentPart negative significand exponent rest
    else endDouble negative significand exponent (c :: rest)

/-- Reads what follows a decimal point; at least one digit must. -/
def fractionPart (negative : Bool) (significand skipped : Nat) (s : List Char) :
    Except Failure (Number × List Char) :=
  match s with
  | [] => .error ⟨.endInValue, [], 0⟩
  | c :: _ =>
    if c.isDigit then
      let (significand, count, rest) := takeDigits significand 0 s
      doubleEnd negative significand (skipped - count) (afterDigits rest)
    else .error ⟨.invalidNumber, s, 1⟩

/-- Reads what follows the integer digits, `skipped` of which went past 64 bits. -/
def integerEnd (negative : Bool) (significand skipped : Nat) :
    List Char → Except Failure (Number × List Char)
  | [] => if skipped = 0 then endInteger negative significand []
      else endDouble negative significand skipped []
  | c :: rest =>
    if c = '.' then fractionPart negative significand skipped rest
    else if isExponentMark c then exponentPart negative significand skipped rest
    else if skipped = 0 then endInteger negative significand (c :: rest)
    else endDouble negative significand skipped (c :: rest)

/-- Reads a numeral after its sign. A zero cannot stand before another digit. -/
def unsigned (negative : Bool) : List Char → Except Failure (Number × List Char)
  | [] => .error ⟨.endInValue, [], 0⟩
  | c :: rest =>
    if c.isDigit then
      if c = '0' then
        if rest.head?.any Char.isDigit then .error ⟨.invalidNumber, rest, 1⟩
        else integerEnd negative 0 0 rest
      else
        let (significand, _, more) := takeDigits (digitValue c) 0 rest
        integerEnd negative significand (more.takeWhile Char.isDigit).length (afterDigits more)
    else .error ⟨.invalidNumber, c :: rest, 1⟩

theorem takeDigits_length_le (significand count : Nat) (s : List Char) :
    (takeDigits significand count s).2.2.length ≤ s.length := by
  fun_induction takeDigits significand count s with
  | case1 => exact Nat.le_refl _
  | case2 _ _ _ _ _ _ ih => exact Nat.le_succ_of_le ih
  | case3 => exact Nat.le_refl _

theorem afterDigits_length_le (s : List Char) : (afterDigits s).length ≤ s.length :=
  (List.dropWhile_sublist _).length_le

theorem endDouble_rest {negative : Bool} {significand : Nat} {exponent : Int}
    {s rest : List Char} {n : Number}
    (h : endDouble negative significand exponent s = .ok (n, rest)) : rest = s := by
  unfold endDouble at h
  split at h
  next => cases h; rfl
  next => cases h

theorem endInteger_rest {negative : Bool} {significand : Nat} {s rest : List Char} {n : Number}
    (h : endInteger negative significand s = .ok (n, rest)) : rest = s := by
  unfold endInteger at h
  split at h
  next => cases h; rfl
  split at h
  next => exact endDouble_rest h
  next => cases h; rfl

theorem exponentDigits_length_le (value : Nat) (s : List Char) :
    (exponentDigits value s).2.length ≤ s.length := by
  fun_induction exponentDigits value s with
  | case1 => exact Nat.le_refl _
  | case2 _ _ _ _ _ _ ih => exact Nat.le_succ_of_le ih
  | case3 => exact Nat.le_succ _
  | case4 => exact Nat.le_refl _

theorem exponentSign_length_le (s : List Char) : (exponentSign s).2.length ≤ s.length := by
  unfold exponentSign
  split
  next => exact Nat.le_succ _
  next => exact Nat.le_succ _
  next => exact Nat.le_refl _

theorem exponentPart_length_le {negative : Bool} {significand : Nat} {exponent : Int}
    {s rest : List Char} {n : Number}
    (h : exponentPart negative significand exponent s = .ok (n, rest)) :
    rest.length ≤ s.length := by
  have sign := exponentSign_length_le s
  unfold exponentPart at h
  split at h
  next => cases h
  next c tail hsign =>
    rw [hsign, List.length_cons] at sign
    have digits := exponentDigits_length_le (digitValue c) tail
    split at h
    next =>
      split at h
      next hdigits =>
        rw [hdigits] at digits
        have := endDouble_rest h
        subst this
        exact Nat.le_trans digits (Nat.le_of_succ_le sign)
      next after hdigits =>
        rw [hdigits] at digits
        split at h
        next => cases h
        next =>
          cases h
          exact Nat.le_trans (afterDigits_length_le _)
            (Nat.le_trans digits (Nat.le_of_succ_le sign))
    next => cases h

theorem doubleEnd_length_le {negative : Bool} {significand : Nat} {exponent : Int}
    {s rest : List Char} {n : Number}
    (h : doubleEnd negative significand exponent s = .ok (n, rest)) :
    rest.length ≤ s.length := by
  cases s with
  | nil => exact Nat.le_of_eq (congrArg _ (endDouble_rest h))
  | cons c tail =>
      simp only [doubleEnd] at h
      split at h
      next => exact Nat.le_succ_of_le (exponentPart_length_le h)
      next => exact Nat.le_of_eq (congrArg _ (endDouble_rest h))

theorem fractionPart_length_le {negative : Bool} {significand skipped : Nat}
    {s rest : List Char} {n : Number}
    (h : fractionPart negative significand skipped s = .ok (n, rest)) :
    rest.length ≤ s.length := by
  cases s with
  | nil => cases h
  | cons c tail =>
      simp only [fractionPart] at h
      split at h
      next =>
        exact Nat.le_trans (doubleEnd_length_le h)
          (Nat.le_trans (afterDigits_length_le _) (takeDigits_length_le _ _ _))
      next => cases h

theorem integerEnd_length_le {negative : Bool} {significand skipped : Nat}
    {s rest : List Char} {n : Number}
    (h : integerEnd negative significand skipped s = .ok (n, rest)) :
    rest.length ≤ s.length := by
  cases s with
  | nil =>
      simp only [integerEnd] at h
      split at h
      next => exact Nat.le_of_eq (congrArg _ (endInteger_rest h))
      next => exact Nat.le_of_eq (congrArg _ (endDouble_rest h))
  | cons c tail =>
      simp only [integerEnd] at h
      split at h
      next => exact Nat.le_succ_of_le (fractionPart_length_le h)
      split at h
      next => exact Nat.le_succ_of_le (exponentPart_length_le h)
      split at h
      next => exact Nat.le_of_eq (congrArg _ (endInteger_rest h))
      next => exact Nat.le_of_eq (congrArg _ (endDouble_rest h))

theorem unsigned_shorter {negative : Bool} {s rest : List Char} {n : Number}
    (h : unsigned negative s = .ok (n, rest)) : rest.length < s.length := by
  cases s with
  | nil => cases h
  | cons c tail =>
      simp only [unsigned] at h
      apply Nat.lt_succ_of_le
      split at h
      next =>
        split at h
        next =>
          split at h
          next => cases h
          next => exact integerEnd_length_le h
        next =>
          exact Nat.le_trans (integerEnd_length_le h)
            (Nat.le_trans (afterDigits_length_le _) (takeDigits_length_le _ _ _))
      next => cases h

end Extraction.Json
