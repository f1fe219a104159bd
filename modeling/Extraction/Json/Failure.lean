import Extraction.Success
import Extraction.Text.Octets

/-! # Why a text is not JSON

Reading stops at the first fault. Its place is told in octets: the line, and
the number of octets of that line which lie before the place.
-/

namespace Extraction.Json

/-- What is wrong with a text that should be a JSON document. -/
inductive Fault
  | endInValue
  | endInList
  | endInObject
  | endInString
  | expectedColon
  | expectedListEnd
  | expectedObjectEnd
  | expectedIdent
  | expectedValue
  | invalidEscape
  | invalidNumber
  | numberOutOfRange
  | controlCharacter
  | keyNotString
  | loneLowSurrogate
  | unpairedSurrogate
  | trailingComma
  | trailingCharacters
  | tooDeep
deriving DecidableEq, Repr

def Fault.message : Fault → String
  | endInValue => "EOF while parsing a value"
  | endInList => "EOF while parsing a list"
  | endInObject => "EOF while parsing an object"
  | endInString => "EOF while parsing a string"
  | expectedColon => "expected `:`"
  | expectedListEnd => "expected `,` or `]`"
  | expectedObjectEnd => "expected `,` or `\x7d`"
  | expectedIdent => "expected ident"
  | expectedValue => "expected value"
  | invalidEscape => "invalid escape"
  | invalidNumber => "invalid number"
  | numberOutOfRange => "number out of range"
  | controlCharacter => "control character (\\u0000-\\u001F) found while parsing a string"
  | keyNotString => "key must be a string"
  | loneLowSurrogate => "lone leading surrogate in hex escape"
  | unpairedSurrogate => "unexpected end of hex escape"
  | trailingComma => "trailing comma"
  | trailingCharacters => "trailing characters"
  | tooDeep => "recursion limit exceeded"

/-- A fault met while reading: the text not yet taken in, and how many octets of it the place
of the fault lies ahead. -/
structure Failure where
  fault : Fault
  rest : List Char
  ahead : Nat

/-- A fault and its place in the whole text. -/
structure SyntaxError where
  fault : Fault
  line : Nat
  column : Nat
deriving DecidableEq, Repr

def SyntaxError.message (e : SyntaxError) : String :=
  e.fault.message ++ " at line " ++ toString e.line ++ " column " ++ toString e.column

/-- The octets of `text` up to the place of a failure; the place is never past the end. -/
def Failure.before (f : Failure) (text : List Char) : Octets :=
  let octets := Octets.ofChars text
  let unread := (Octets.ofChars f.rest).length
  octets.take (octets.length - unread + min f.ahead unread)

/-- The failure told as a place in the whole text. -/
def Failure.locate (f : Failure) (text : List Char) : SyntaxError :=
  let before := f.before text
  { fault := f.fault
    line := before.count 0x0A + 1
    column := (before.reverse.takeWhile (· != 0x0A)).length }

/-- Reads from the front of a text and takes in at least one character of it. -/
structure Reader (α : Type) where
  run : List Char → Except Failure (α × List Char)
  shrinks : ∀ {s a rest}, run s = .ok (a, rest) → rest.length < s.length

end Extraction.Json
