import Extraction.Yaml.Characters
import Extraction.Yaml.Plain
import Extraction.Yaml.Scalar

/-! # How texts are written in YAML

A text stands without quotes when that is possible and reads back as a text,
between single quotation marks when it would not, between double ones when it
holds what cannot be written as it is. A text of several lines is written as a
literal block if its spaces allow that.
-/

namespace Extraction.Yaml

/-- Whether a character for which `p` holds is followed by one for which `q` holds. -/
def hasPair (p q : Char → Bool) : List Char → Bool
  | a :: b :: rest => (p a && q b) || hasPair p q (b :: rest)
  | _ => false

def isSpace (c : Char) : Bool := c == ' '

/-- Whether a text begins with what means something else than itself. -/
def beginsWithIndicator (s : List Char) : Bool :=
  match s with
  | [] => false
  | c :: rest =>
    ("#,[]\x7b\x7d&*!|>'\"%@`".toList.contains c) ||
      ((c == '?' || c == ':' || c == '-') && beginsBlank rest) ||
      s.take 3 == ['-', '-', '-'] || s.take 3 == ['.', '.', '.']

/-- Whether a colon before a blank or a number sign after one stands past the first character. -/
def holdsIndicator : List Char → Bool
  | a :: b :: rest =>
    (b == ':' && beginsBlank rest) || (b == '#' && isBlankOrBreak a) || holdsIndicator (b :: rest)
  | _ => false

/-- Whether a text may stand without quotes. -/
def allowsPlain (s : List Char) : Bool :=
  s.all (fun c => isPrintable c && !isBreak c) && !s.head?.any isSpace && !s.getLast?.any isSpace &&
    !beginsWithIndicator s && !holdsIndicator s

/-- Whether a text may stand between single quotation marks. -/
def allowsSingle (s : List Char) : Bool :=
  s.all isPrintable && !hasPair isSpace isBreak s && !hasPair isBreak isSpace s

/-- Whether a text may stand as a literal block. -/
def allowsLiteral (s : List Char) : Bool :=
  s.all isPrintable && !hasPair isSpace isBreak s && !s.getLast?.any isSpace

/-- Whether a text without quotes is read back as a text. -/
def staysText (s : List Char) : Bool := meaning s == .text && !hasLeadingZero s

/-- The style a text is written in. -/
def styleOf (s : List Char) : Style :=
  if s.contains '\n' then if allowsLiteral s then .literal else .double
  else if staysText s && allowsPlain s then .plain
  else if allowsSingle s then .single
  else .double

/-- The hexadecimal digits of a number, in upper case and of the given count. -/
def hexDigits : (count n : Nat) → List Char
  | 0, _ => []
  | count + 1, n => hexDigits count (n / 0x10) ++ [(Nat.digitChar (n % 0x10)).toUpper]

/-- What follows the backslash in the escape of a character. -/
def escaped (c : Char) : List Char :=
  let n := c.toNat
  if n = 0x00 then ['0']
  else if n = 0x07 then ['a']
  else if n = 0x08 then ['b']
  else if n = 0x09 then ['t']
  else if n = 0x0A then ['n']
  else if n = 0x0B then ['v']
  else if n = 0x0C then ['f']
  else if n = 0x0D then ['r']
  else if n = 0x1B then ['e']
  else if c = '"' ∨ c = '\\' then [c]
  else if n = 0x85 then ['N']
  else if n = 0xA0 then ['_']
  else if n = 0x2028 then ['L']
  else if n = 0x2029 then ['P']
  else if n ≤ 0xFF then 'x' :: hexDigits 2 n
  else if n ≤ 0xFFFF then 'u' :: hexDigits 4 n
  else 'U' :: hexDigits 8 n

/-- A text between double quotation marks. -/
def doubleQuoted (s : List Char) : List Char :=
  '"' :: (s.flatMap fun c =>
    if isPrintable c && !isBreak c && c != '"' && c != '\\' then [c]
    else '\\' :: escaped c) ++ ['"']

def spaces (count : Nat) : List Char := List.replicate count ' '

/-- Lines that begin after a break are indented; `fresh` tells whether a line begins here. -/
def indentLines (indent : Nat) (write : Char → List Char) : (fresh : Bool) → List Char → List Char
  | _, [] => []
  | fresh, c :: rest =>
    if isBreak c then c :: indentLines indent write true rest
    else (if fresh then spaces indent else []) ++ write c ++ indentLines indent write false rest

/-- A text between single quotation marks, which are written twice inside. -/
def singleQuoted (indent : Nat) (s : List Char) : List Char :=
  '\'' :: indentLines indent (fun c => if c = '\'' then ['\'', '\''] else [c]) false s ++
    (if s.getLast?.any isBreak then spaces indent else []) ++ ['\'']

/-- How the lines at the end of a literal block are kept. -/
def chomping (s : List Char) : List Char :=
  match s.reverse with
  | [] => ['-']
  | [c] => if isBreak c then ['+'] else ['-']
  | c :: d :: _ => if !isBreak c then ['-'] else if isBreak d then ['+'] else []

/-- A text as a literal block; its indentation is told when the text begins with a space or a
line end. -/
def literalBlock (indent : Nat) (s : List Char) : List Char :=
  '|' :: (if s.head?.any fun c => isSpace c || isBreak c then ['2'] else []) ++ chomping s ++
    '\n' :: indentLines indent (fun c => [c]) true s

/-- A text and the end of its line; further lines of it are indented. -/
def writeText (indent : Nat) (s : List Char) : List Char :=
  match styleOf s with
  | .plain => s ++ ['\n']
  | .single => singleQuoted indent s ++ ['\n']
  | .double => doubleQuoted s ++ ['\n']
  | .literal | .folded => literalBlock indent s ++ (if s.getLast?.any isBreak then [] else ['\n'])

end Extraction.Yaml
