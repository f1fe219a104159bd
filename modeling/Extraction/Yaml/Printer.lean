import Extraction.Tree
import Extraction.Yaml.Style

/-! # Writing YAML documents

Lists and fields are written in block style. A list that is the value of a
field is indented no further than the field; empty lists and fields are written
as their two brackets.
-/

namespace Extraction.Yaml

mutual

/-- A tree and the end of its last line, beginning at column `indent`, or behind a key that stands
there. -/
def writeTree (indent : Nat) (afterKey : Bool) : Tree → List Char
  | .text value =>
    if afterKey then ' ' :: writeText (indent + 2) value.toList else writeText indent value.toList
  | .flag value => (if afterKey then [' '] else []) ++ (toString value).toList ++ ['\n']
  | .natural value => (if afterKey then [' '] else []) ++ Nat.toDigits 10 value ++ ['\n']
  | .list [] => (if afterKey then [' '] else []) ++ ['[', ']', '\n']
  | .list items => (if afterKey then '\n' :: spaces indent else []) ++ writeItems indent items
  | .fields [] => (if afterKey then [' '] else []) ++ ['\x7b', '\x7d', '\n']
  | .fields entries =>
    if afterKey then '\n' :: spaces (indent + 2) ++ writeFields (indent + 2) entries
    else writeFields indent entries

/-- List items, the first of which begins at column `indent`. -/
def writeItems (indent : Nat) : List Tree → List Char
  | [] => []
  | [item] => '-' :: ' ' :: writeTree (indent + 2) false item
  | item :: rest =>
    '-' :: ' ' :: writeTree (indent + 2) false item ++ spaces indent ++ writeItems indent rest

/-- Fields, the first of which begins at column `indent`. -/
def writeFields (indent : Nat) : List (String × Tree) → List Char
  | [] => []
  | [(key, value)] => key.toList ++ ':' :: writeTree indent true value
  | (key, value) :: rest =>
    key.toList ++ ':' :: writeTree indent true value ++ spaces indent ++ writeFields indent rest

end

/-- The document of a tree. -/
def document (tree : Tree) : String := String.ofList (writeTree 0 false tree)

end Extraction.Yaml
