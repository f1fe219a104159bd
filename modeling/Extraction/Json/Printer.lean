import Extraction.Json.Numeral
import Extraction.Json.Quoted

/-! # Writing JSON documents

A value is written in one line without spaces, or with each member of a
container on a line of its own, indented by two spaces a level. An empty
container is written as its two brackets either way.
-/

namespace Extraction.Json

/-- How much space stands in front of the lines of a level. -/
def indentation (level : Nat) : List Char := List.replicate (2 * level) ' '

mutual

/-- A value in one line, without spaces between tokens. -/
def Value.compact : Value → List Char
  | .null => "null".toList
  | .bool true => "true".toList
  | .bool false => "false".toList
  | .number n => n.write
  | .string s => quote s
  | .array items => '[' :: (compactItems items ++ [']'])
  | .object members => '\x7b' :: (compactMembers members ++ ['\x7d'])

/-- Elements separated by commas. -/
def compactItems : List Value → List Char
  | [] => []
  | [item] => item.compact
  | item :: rest => item.compact ++ ',' :: compactItems rest

/-- Keys and values separated by commas. -/
def compactMembers : List (String × Value) → List Char
  | [] => []
  | [(key, value)] => quote key ++ ':' :: value.compact
  | (key, value) :: rest => quote key ++ ':' :: (value.compact ++ ',' :: compactMembers rest)

end

mutual

/-- A value with each member of its containers on a line of its own. -/
def Value.pretty (level : Nat) : Value → List Char
  | .array [] => ['[', ']']
  | .array items =>
    '[' :: (prettyItems (level + 1) items ++ '\n' :: (indentation level ++ [']']))
  | .object [] => ['\x7b', '\x7d']
  | .object members =>
    '\x7b' :: (prettyMembers (level + 1) members ++ '\n' :: (indentation level ++ ['\x7d']))
  | value => value.compact

/-- Elements, each on a line of its own. -/
def prettyItems (level : Nat) : List Value → List Char
  | [] => []
  | [item] => '\n' :: (indentation level ++ item.pretty level)
  | item :: rest =>
    '\n' :: (indentation level ++ item.pretty level ++ ',' :: prettyItems level rest)

/-- Keys and values, each pair on a line of its own. -/
def prettyMembers (level : Nat) : List (String × Value) → List Char
  | [] => []
  | [(key, value)] =>
    '\n' :: (indentation level ++ quote key ++ ':' :: ' ' :: value.pretty level)
  | (key, value) :: rest =>
    '\n' :: (indentation level ++ quote key ++ ':' :: ' ' :: (value.pretty level ++
      ',' :: prettyMembers level rest))

end

/-- The text of a value in one line. -/
def Value.compactText (v : Value) : String := String.ofList v.compact

/-- The text of a value over several lines, with a line end after it. -/
def Value.prettyText (v : Value) : String := String.ofList (v.pretty 0 ++ ['\n'])

end Extraction.Json
