import Extraction.Proofs.Json.Phrase

/-!
# What completes a document

For each state of the gate there are texts that bring a document to its end. They
are told in phrases here: what is left of the current token, and what may follow
it inside the containers that are open.
-/

namespace Extraction.Json.Gate

variable {α : Type} [Alphabet α]

/-- White space and then a text with a property. -/
def Spaced (P : List α → Prop) (s : List α) : Prop :=
  ∃ (w : List Blank) (rest : List α), s = writeSpace w ++ rest ∧ P rest

/-- The end of a container's entry: the closing bracket, or a comma and more entries. -/
def EntryEnd (b : Bracket) (P : List α → Prop) (s : List α) : Prop :=
  (∃ rest, s = ascii (closing b) :: rest ∧ P rest) ∨
  ∃ (entries : Phrase α (.entries b)) (rest : List α),
    s = ascii ',' :: (entries.written ++ ascii (closing b) :: rest) ∧ P rest

/-- What may follow a value inside open containers. -/
def After : List Bracket → List α → Prop
  | [] => Spaced (· = [])
  | b :: outer => Spaced (EntryEnd b (After outer))

/-- A value and what may follow it. -/
def ValueFrom (stack : List Bracket) (s : List α) : Prop :=
  ∃ (value : Phrase α .value) (rest : List α), s = value.written ++ rest ∧ After stack rest

/-- The rest of a string and its closing mark. -/
def StringFrom (P : List α → Prop) (s : List α) : Prop :=
  ∃ (body : Body α) (rest : List α), s = closeBody body ++ rest ∧ P rest

/-- What follows the backslash of an escape, and the rest of the string. -/
def EscapeFrom (P : List α → Prop) (s : List α) : Prop :=
  ∃ piece rest, ascii '\\' :: s = Piece.written piece ++ rest ∧ StringFrom P rest

/-- Some hexadecimal digits and the rest of the string. -/
def HexFrom (count : Nat) (P : List α → Prop) (s : List α) : Prop :=
  ∃ (ds : List HexDigit) (rest : List α), ds.length = count ∧ s = symbols (spell ds) ++ rest ∧
    StringFrom P rest

/-- A colon and a value. -/
def ColonFrom (stack : List Bracket) (s : List α) : Prop :=
  ∃ rest, s = ascii ':' :: rest ∧ Spaced (ValueFrom stack) rest

/-- A key, a colon and a value. -/
def KeyFrom (stack : List Bracket) (s : List α) : Prop :=
  ∃ rest, s = ascii '"' :: rest ∧ StringFrom (Spaced (ColonFrom stack)) rest

/-- The closing bracket of the innermost container. -/
def CloseFrom (b : Bracket) (stack : List Bracket) (s : List α) : Prop :=
  ∃ rest, s = ascii (closing b) :: rest ∧ After stack.tail rest

/-- What may follow a string. -/
def AfterString (isKey : Bool) (stack : List Bracket) : List α → Prop :=
  if isKey then Spaced (ColonFrom stack) else After stack

/-- Some digits and then a text with a property. -/
def DigitsThen (P : List Char → Prop) (t : List Char) : Prop :=
  ∃ (ds : List Digit) (rest : List Char), t = spell ds ++ rest ∧ P rest

/-- At least one digit and then a text with a property. -/
def DigitThen (P : List Char → Prop) (t : List Char) : Prop :=
  ∃ (d : Digit) (rest : List Char), t = d.1 :: rest ∧ DigitsThen P rest

/-- An exponent, if there is one. -/
def ExponentEnd (t : List Char) : Prop := ∃ exponent : Option Exponent, t = spellEnd none exponent

/-- What may follow the whole digits of a number. -/
def WholeEnd (t : List Char) : Prop :=
  ∃ (fraction : Option Digits) (exponent : Option Exponent), t = spellEnd fraction exponent

/-- What may follow the part of a number that was read last. -/
def NumberEnd : Numeral → List Char → Prop
  | .sign => fun t => ∃ (whole : Whole) (rest : List Char),
      t = whole.spelled ++ rest ∧ WholeEnd rest
  | .zero => WholeEnd
  | .integer => DigitsThen WholeEnd
  | .point => DigitThen ExponentEnd
  | .fraction => DigitsThen ExponentEnd
  | .mark => fun t => ∃ (sign : Option (Among signLetters)) (rest : List Char),
      t = spell sign.toList ++ rest ∧ DigitThen (· = []) rest
  | .markSign => DigitThen (· = [])
  | .exponent => DigitsThen (· = [])

/-- A text completes a document when reading stands at a state.

A keyword that has been read is left at once, so a document does not end inside one. -/
def Completes (state : State) (s : List α) : Prop :=
  match state.mode with
  | .value => Spaced (ValueFrom state.stack) s
  | .firstElement =>
    Spaced (fun s => CloseFrom .array state.stack s ∨ ValueFrom state.stack s) s
  | .firstKey => Spaced (fun s => CloseFrom .object state.stack s ∨ KeyFrom state.stack s) s
  | .key => Spaced (KeyFrom state.stack) s
  | .colon => Spaced (ColonFrom state.stack) s
  | .afterValue => After state.stack s
  | .string isKey => StringFrom (AfterString isKey state.stack) s
  | .escape isKey => EscapeFrom (AfterString isKey state.stack) s
  | .hex isKey more => HexFrom (more + 1) (AfterString isKey state.stack) s
  | .keyword left =>
    s ≠ [] ∧ ∃ t rest, s = t ++ rest ∧ t.map octet = left ∧ After state.stack rest
  | .numeral part =>
    ∃ t rest, s = symbols t ++ rest ∧ NumberEnd part t ∧ After state.stack rest

end Extraction.Json.Gate
