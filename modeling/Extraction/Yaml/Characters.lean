/-! # YAML characters

The classes of characters YAML tells apart, apart from the indicators.
-/

namespace Extraction.Yaml

/-- Characters that end a line: line feed, carriage return, next line, and the line and
paragraph separators. -/
def isBreak (c : Char) : Bool :=
  c == '\n' || c == '\r' || c == '\u0085' || c == '\u2028' || c == '\u2029'

/-- Space and tab. -/
def isBlank (c : Char) : Bool := c == ' ' || c == '\t'

/-- Blanks and line ends, and the character zero, which no text can go on after. -/
def isBlankOrBreak (c : Char) : Bool := isBlank c || isBreak c || c == '\x00'

/-- Whether a text ends or goes on with a blank or a line end. -/
def beginsBlank (s : List Char) : Bool := s.head?.all isBlankOrBreak

/-- Characters a document may hold. -/
def isAllowed (c : Char) : Bool :=
  let n := c.toNat
  n == 0x9 || n == 0xA || n == 0xD || (0x20 ≤ n && n ≤ 0x7E) || n == 0x85 ||
    (0xA0 ≤ n && n ≤ 0xD7FF) || (0xE000 ≤ n && n ≤ 0xFFFD) ||
    0x10000 ≤ n

/-- Characters that are written as they are; the byte order mark is not. -/
def isPrintable (c : Char) : Bool :=
  isAllowed c && c != '\t' && c != '\r' && c != '\u0085' && c != '\ufeff'

end Extraction.Yaml
