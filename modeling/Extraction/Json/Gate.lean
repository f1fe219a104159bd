import Extraction.Text.Octets

/-! # The JSON gate

Tells whether octets form a JSON document without building its value. The
octets are taken in one by one; all that is remembered is what may come next
and which containers are open, so any nesting depth is fine. The gate looks at
form alone: octets inside a string need not be UTF-8, surrogates need not be
paired, and numerals may be of any size.
-/

namespace Extraction.Json.Gate

/-- A container that has been opened and not yet closed. -/
inductive Bracket
  | array
  | object
deriving DecidableEq, Repr

/-- The part of a numeral read last. -/
inductive Numeral
  | sign
  | zero
  | integer
  | point
  | fraction
  | mark
  | markSign
  | exponent
deriving DecidableEq, Repr

/-- What may come next. In a string, `isKey` tells whether it is the key of a member. -/
inductive Mode
  | value
  | firstElement
  | firstKey
  | key
  | colon
  | afterValue
  | string (isKey : Bool)
  | escape (isKey : Bool)
  | hex (isKey : Bool) (more : Nat)
  | keyword (left : Octets)
  | numeral (part : Numeral)
deriving DecidableEq, Repr

/-- What may come next, and the open containers, innermost first. -/
structure State where
  mode : Mode
  stack : List Bracket
deriving DecidableEq, Repr

/-- Whether an octet may stand between tokens. -/
def isSpace (b : UInt8) : Bool := b == 0x20 || b == 0x09 || b == 0x0A || b == 0x0D

def isDigit (b : UInt8) : Bool := 0x30 ≤ b && b ≤ 0x39

def isHexDigit (b : UInt8) : Bool :=
  isDigit b || (0x41 ≤ b && b ≤ 0x46) || (0x61 ≤ b && b ≤ 0x66)

/-- Whether an octet completes an escape after the backslash: one of `"\/bfnrt`. -/
def isEscaped (b : UInt8) : Bool :=
  b == 0x22 || b == 0x5C || b == 0x2F || b == 0x62 || b == 0x66 || b == 0x6E || b == 0x72 ||
    b == 0x74

/-- Whether an octet stands for itself inside a string. -/
def isPlain (b : UInt8) : Bool := 0x20 ≤ b && b != 0x22 && b != 0x5C

/-- How the numeral goes on with an octet, if it does. -/
def Numeral.next? : Numeral → UInt8 → Option Numeral
  | sign, b => if b == 0x30 then some zero else if isDigit b then some integer else none
  | zero, b =>
    if b == 0x2E then some point else if b == 0x65 || b == 0x45 then some mark else none
  | integer, b =>
    if isDigit b then some integer
    else if b == 0x2E then some point
    else if b == 0x65 || b == 0x45 then some mark
    else none
  | point, b => if isDigit b then some fraction else none
  | fraction, b =>
    if isDigit b then some fraction else if b == 0x65 || b == 0x45 then some mark else none
  | mark, b =>
    if isDigit b then some exponent
    else if b == 0x2B || b == 0x2D then some markSign
    else none
  | markSign, b => if isDigit b then some exponent else none
  | exponent, b => if isDigit b then some exponent else none

/-- Whether the numeral may end here. -/
def Numeral.isComplete : Numeral → Bool
  | zero | integer | fraction | exponent => true
  | sign | point | mark | markSign => false

/-- What an octet that begins a value leads to. -/
def beginValue (stack : List Bracket) (b : UInt8) : Option State :=
  if b == 0x22 then some ⟨.string false, stack⟩
  else if b == 0x5B then some ⟨.firstElement, .array :: stack⟩
  else if b == 0x7B then some ⟨.firstKey, .object :: stack⟩
  else if b == 0x6E then some ⟨.keyword [0x75, 0x6C, 0x6C], stack⟩
  else if b == 0x74 then some ⟨.keyword [0x72, 0x75, 0x65], stack⟩
  else if b == 0x66 then some ⟨.keyword [0x61, 0x6C, 0x73, 0x65], stack⟩
  else if b == 0x2D then some ⟨.numeral .sign, stack⟩
  else if b == 0x30 then some ⟨.numeral .zero, stack⟩
  else if isDigit b then some ⟨.numeral .integer, stack⟩
  else none

/-- What an octet after a complete value leads to. -/
def endValue (stack : List Bracket) (b : UInt8) : Option State :=
  if isSpace b then some ⟨.afterValue, stack⟩
  else
    match stack with
    | [] => none
    | .array :: outer =>
      if b == 0x2C then some ⟨.value, stack⟩
      else if b == 0x5D then some ⟨.afterValue, outer⟩
      else none
    | .object :: outer =>
      if b == 0x2C then some ⟨.key, stack⟩
      else if b == 0x7D then some ⟨.afterValue, outer⟩
      else none

/-- What a string leads to once it is closed. -/
def afterString (isKey : Bool) : Mode := if isKey then .colon else .afterValue

/-- What one octet leads to; nothing when it cannot come next. -/
def step (state : State) (b : UInt8) : Option State :=
  let stack := state.stack
  match state.mode with
  | .value => if isSpace b then some state else beginValue stack b
  | .firstElement =>
    if isSpace b then some state
    else if b == 0x5D then some ⟨.afterValue, stack.tail⟩
    else beginValue stack b
  | .firstKey =>
    if isSpace b then some state
    else if b == 0x7D then some ⟨.afterValue, stack.tail⟩
    else if b == 0x22 then some ⟨.string true, stack⟩
    else none
  | .key =>
    if isSpace b then some state
    else if b == 0x22 then some ⟨.string true, stack⟩
    else none
  | .colon =>
    if isSpace b then some state
    else if b == 0x3A then some ⟨.value, stack⟩
    else none
  | .afterValue => endValue stack b
  | .string isKey =>
    if b == 0x22 then some ⟨afterString isKey, stack⟩
    else if b == 0x5C then some ⟨.escape isKey, stack⟩
    else if isPlain b then some state
    else none
  | .escape isKey =>
    if isEscaped b then some ⟨.string isKey, stack⟩
    else if b == 0x75 then some ⟨.hex isKey 3, stack⟩
    else none
  | .hex isKey more =>
    if isHexDigit b then
      some ⟨match more with
        | 0 => .string isKey
        | more + 1 => .hex isKey more, stack⟩
    else none
  | .keyword [] => endValue stack b
  | .keyword (letter :: left) =>
    if b == letter then some ⟨if left.isEmpty then .afterValue else .keyword left, stack⟩
    else none
  | .numeral part =>
    match part.next? b with
    | some part => some ⟨.numeral part, stack⟩
    | none => if part.isComplete then endValue stack b else none

/-- Where reading a document begins. -/
def start : State := ⟨.value, []⟩

/-- Whether a document may end here. -/
def State.isComplete (state : State) : Bool :=
  state.stack.isEmpty &&
    match state.mode with
    | .afterValue => true
    | .numeral part => part.isComplete
    | _ => false

end Gate

/-- Whether octets form one JSON document. -/
def isDocument (s : Octets) : Bool := (s.foldlM Gate.step Gate.start).any Gate.State.isComplete

end Extraction.Json
