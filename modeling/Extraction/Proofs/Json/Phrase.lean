import Extraction.Json.Gate

/-!
# The grammar of JSON

A phrase keeps all that a text may choose: white space between tokens, the
spelling of strings and of numbers. So a phrase is written in one way only, and a
text is a document when it is what some phrase is written as. Phrases are
written in octets or in characters alike.
-/

namespace Extraction.Json

/-- What documents are written in. All tokens are ASCII characters; symbols that are none of these
stand for themselves inside strings. -/
class Alphabet (α : Type) where
  /-- The symbol of an ASCII character. -/
  ascii : Char → α
  /-- The number of the ASCII character a symbol is, or one that is past all of them. -/
  octet : α → UInt8
  octet_ascii {c : Char} : c.toNat < 0x80 → octet (ascii c) = c.toNat.toUInt8
  ascii_of_octet {a : α} {c : Char} : c.toNat < 0x80 → octet a = c.toNat.toUInt8 → a = ascii c

export Alphabet (ascii octet)

instance : Alphabet UInt8 where
  ascii c := c.toNat.toUInt8
  octet b := b
  octet_ascii _ := rfl
  ascii_of_octet _ h := h

/-- One of some letters. -/
abbrev Among (letters : List Char) : Type := { c : Char // c ∈ letters }

def blankLetters : List Char := [' ', '\t', '\n', '\r']

def digitLetters : List Char := ['0', '1', '2', '3', '4', '5', '6', '7', '8', '9']

def nonzeroLetters : List Char := ['1', '2', '3', '4', '5', '6', '7', '8', '9']

def hexLetters : List Char :=
  ['0', '1', '2', '3', '4', '5', '6', '7', '8', '9', 'a', 'b', 'c', 'd', 'e', 'f', 'A', 'B', 'C',
    'D', 'E', 'F']

/-- What may follow a backslash to escape one character. -/
def escapeLetters : List Char := ['"', '\\', '/', 'b', 'f', 'n', 'r', 't']

/-- What may begin an exponent. -/
def markLetters : List Char := ['e', 'E']

/-- What may begin the digits of an exponent. -/
def signLetters : List Char := ['+', '-']

/-- What is found of each letter holds of all of them. -/
theorem forall_of_all {letters : List Char} {P : Char → Prop} [DecidablePred P]
    (h : letters.all (fun c => decide (P c)) = true) : ∀ c ∈ letters, P c := by
  simpa using h

abbrev Blank : Type := Among blankLetters

abbrev Digit : Type := Among digitLetters

abbrev HexDigit : Type := Among hexLetters

/-- The letters one after the other. -/
def spell {letters : List Char} (cs : List (Among letters)) : List Char := cs.map (·.1)

@[simp] theorem spell_nil {letters : List Char} : spell ([] : List (Among letters)) = [] := rfl

@[simp] theorem spell_cons {letters : List Char} (c : Among letters) (cs : List (Among letters)) :
    spell (c :: cs) = c.1 :: spell cs := rfl

/-- At least one digit. -/
structure Digits where
  first : Digit
  rest : List Digit

def Digits.spelled (ds : Digits) : List Char := ds.first.1 :: spell ds.rest

/-- The digits in front of the point: a zero alone, or digits that do not begin with one. -/
inductive Whole
  | zero
  | digits (first : Among nonzeroLetters) (rest : List Digit)

def Whole.spelled : Whole → List Char
  | zero => ['0']
  | digits first rest => first.1 :: spell rest

/-- A power of ten. -/
structure Exponent where
  mark : Among markLetters
  sign : Option (Among signLetters)
  digits : Digits

def Exponent.spelled (e : Exponent) : List Char :=
  e.mark.1 :: (spell e.sign.toList ++ e.digits.spelled)

/-- A number as it is written. -/
structure Literal where
  negative : Bool
  whole : Whole
  fraction : Option Digits
  exponent : Option Exponent

/-- What follows the whole digits of a number. -/
def spellEnd (fraction : Option Digits) (exponent : Option Exponent) : List Char :=
  fraction.elim [] (fun ds => '.' :: ds.spelled) ++ exponent.elim [] Exponent.spelled

/-- A number after its sign. -/
def Literal.unsigned (n : Literal) : List Char :=
  n.whole.spelled ++ spellEnd n.fraction n.exponent

def Literal.spelled (n : Literal) : List Char :=
  if n.negative then '-' :: n.unsigned else n.unsigned

/-- A number without fraction and exponent. -/
def Literal.IsInteger (n : Literal) : Prop := n.fraction = none ∧ n.exponent = none

/-- How many digits there are in front of the point. -/
def Literal.wholeLength (n : Literal) : Nat := n.whole.spelled.length

/-- The values that are written as words. -/
inductive Keyword
  | null
  | bool (value : Bool)

namespace Keyword

/-- The first letter of a word. -/
def first : Keyword → Char
  | null => 'n'
  | bool true => 't'
  | bool false => 'f'

/-- The letters of a word behind the first one. -/
def left : Keyword → List Char
  | null => ['u', 'l', 'l']
  | bool true => ['r', 'u', 'e']
  | bool false => ['a', 'l', 's', 'e']

theorem isAscii_left (word : Keyword) : ∀ c ∈ word.left, c.toNat < 0x80 := by
  obtain _ | value := word
  · exact forall_of_all (by decide)
  · cases value <;> exact forall_of_all (by decide)

theorem left_ne_nil (word : Keyword) : word.left ≠ [] := by
  obtain _ | value := word
  · exact nofun
  · cases value <;> exact nofun

end Keyword

variable {α : Type} [Alphabet α]

/-- ASCII characters in symbols. -/
def symbols (s : List Char) : List α := s.map ascii

@[simp] theorem symbols_nil : (symbols [] : List α) = [] := rfl

@[simp] theorem symbols_cons (c : Char) (s : List Char) :
    (symbols (c :: s) : List α) = ascii c :: symbols s := rfl

@[simp] theorem symbols_append (s t : List Char) :
    (symbols (s ++ t) : List α) = symbols s ++ symbols t := List.map_append

/-- A piece of what stands between quotation marks: a symbol for itself, an escaped character, or
the four digits of a sixteen bit unit. -/
inductive Piece (α : Type) [Alphabet α]
  | plain (a : α) : 0x20 ≤ octet a → octet a ≠ 0x22 → octet a ≠ 0x5C → Piece α
  | escaped (letter : Among escapeLetters) : Piece α
  | unit (a b c d : HexDigit) : Piece α

def Piece.written : Piece α → List α
  | plain a _ _ _ => [a]
  | escaped letter => symbols ['\\', letter.1]
  | unit a b c d => symbols ['\\', 'u', a.1, b.1, c.1, d.1]

/-- What stands between quotation marks. -/
abbrev Body (α : Type) [Alphabet α] : Type := List (Piece α)

def writeBody (body : Body α) : List α := body.flatMap Piece.written

@[simp] theorem writeBody_cons (piece : Piece α) (body : Body α) :
    writeBody (piece :: body) = piece.written ++ writeBody body := List.flatMap_cons

/-- A string and its closing mark. -/
def closeBody (body : Body α) : List α := writeBody body ++ [ascii '"']

theorem closeBody_nil : closeBody ([] : Body α) = [ascii '"'] := rfl

theorem closeBody_cons (piece : Piece α) (body : Body α) :
    closeBody (piece :: body) = piece.written ++ closeBody body := by
  simp [closeBody]

theorem closeBody_append (body body' : Body α) :
    closeBody (body ++ body') = writeBody body ++ closeBody body' := by
  simp [closeBody, writeBody]

def writeSpace (w : List Blank) : List α := symbols (spell w)

theorem writeSpace_nil : (writeSpace [] : List α) = [] := rfl

theorem writeSpace_cons (c : Blank) (w : List Blank) :
    (writeSpace (c :: w) : List α) = ascii c.1 :: writeSpace w := rfl

theorem writeSpace_append (w w' : List Blank) :
    (writeSpace (w ++ w') : List α) = writeSpace w ++ writeSpace w' := by
  simp [writeSpace, spell]

open Gate (Bracket)

def opening : Bracket → Char
  | .array => '['
  | .object => '\x7b'

def closing : Bracket → Char
  | .array => ']'
  | .object => '\x7d'

/-- The kinds of phrases: a value, an entry of a container, or all entries of one. -/
inductive Part
  | value
  | entry (b : Bracket)
  | entries (b : Bracket)

/-- A phrase. An element is a value, a member a key and a value. -/
inductive Phrase (α : Type) [Alphabet α] : Part → Type
  | keyword (word : Keyword) : Phrase α .value
  | number (literal : Literal) : Phrase α .value
  | string (body : Body α) : Phrase α .value
  | empty (b : Bracket) (space : List Blank) : Phrase α .value
  | container (b : Bracket) (entries : Phrase α (.entries b)) : Phrase α .value
  | element (before : List Blank) (value : Phrase α .value) (after : List Blank) :
      Phrase α (.entry .array)
  | member (before : List Blank) (key : Body α) (beforeColon afterColon : List Blank)
      (value : Phrase α .value) (after : List Blank) : Phrase α (.entry .object)
  | last {b : Bracket} (entry : Phrase α (.entry b)) : Phrase α (.entries b)
  | more {b : Bracket} (entry : Phrase α (.entry b)) (rest : Phrase α (.entries b)) :
      Phrase α (.entries b)

namespace Phrase

/-- The text of a phrase. -/
def written : {p : Part} → Phrase α p → List α
  | _, keyword word => symbols (word.first :: word.left)
  | _, number n => symbols n.spelled
  | _, string body => ascii '"' :: closeBody body
  | _, empty b space => ascii (opening b) :: (writeSpace space ++ [ascii (closing b)])
  | _, container b entries => ascii (opening b) :: (entries.written ++ [ascii (closing b)])
  | _, element before value after => writeSpace before ++ (value.written ++ writeSpace after)
  | _, member before key beforeColon afterColon value after =>
    writeSpace before ++ (ascii '"' :: (closeBody key ++ (writeSpace beforeColon ++
      (ascii ':' :: (writeSpace afterColon ++ (value.written ++ writeSpace after))))))
  | _, last entry => entry.written
  | _, more entry rest => entry.written ++ (ascii ',' :: rest.written)

/-- How many containers are open at once. -/
def nesting : {p : Part} → Phrase α p → Nat
  | _, empty _ _ => 1
  | _, container _ entries => entries.nesting + 1
  | _, element _ value _ => value.nesting
  | _, member _ _ _ _ value _ => value.nesting
  | _, last entry => entry.nesting
  | _, more entry rest => max entry.nesting rest.nesting
  | _, _ => 0

/-- The numbers in a phrase. -/
def literals : {p : Part} → Phrase α p → List Literal
  | _, number n => [n]
  | _, container _ entries => entries.literals
  | _, element _ value _ => value.literals
  | _, member _ _ _ _ value _ => value.literals
  | _, last entry => entry.literals
  | _, more entry rest => entry.literals ++ rest.literals
  | _, _ => []

/-- The strings in a phrase, keys included. -/
def bodies : {p : Part} → Phrase α p → List (Body α)
  | _, string body => [body]
  | _, container _ entries => entries.bodies
  | _, element _ value _ => value.bodies
  | _, member _ key _ _ value _ => key :: value.bodies
  | _, last entry => entry.bodies
  | _, more entry rest => entry.bodies ++ rest.bodies
  | _, _ => []

end Phrase

/-- A value with white space around it. -/
structure Document (α : Type) [Alphabet α] where
  before : List Blank
  value : Phrase α .value
  after : List Blank

def Document.written (d : Document α) : List α :=
  writeSpace d.before ++ (d.value.written ++ writeSpace d.after)

end Extraction.Json
