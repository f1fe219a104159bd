import Extraction.Json.Value
import Extraction.Tree

/-! # Trees as JSON values

Fields become members in the order of the fields.
-/

namespace Extraction.Json

mutual

/-- The JSON value of a tree. -/
def Value.ofTree : Tree → Value
  | .text value => .string value
  | .flag value => .bool value
  | .natural value => .number (.integer value)
  | .list items => .array (ofTrees items)
  | .fields entries => .object (ofFields entries)

def ofTrees : List Tree → List Value
  | [] => []
  | item :: rest => Value.ofTree item :: ofTrees rest

def ofFields : List (String × Tree) → List (String × Value)
  | [] => []
  | (name, value) :: rest => (name, Value.ofTree value) :: ofFields rest

end

end Extraction.Json
