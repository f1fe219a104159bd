import Extraction.Number.Binary64
import Extraction.Table

/-! # JSON values

A number is an integer within the range of 64 bit words or a double. The
members of an object form a table.
-/

namespace Extraction.Json

/-- A number: an integer from `-2 ^ 63` up to `2 ^ 64 - 1`, or a double. -/
inductive Number
  | integer (value : Int)
  | double (value : Binary64)
deriving DecidableEq, Repr

inductive Value
  | null
  | bool (value : Bool)
  | number (value : Number)
  | string (value : String)
  | array (items : List Value)
  | object (members : List (String × Value))

mutual

/-- Scalars have depth 0, a container one more than its deepest member. -/
def Value.depth : Value → Nat
  | .array items => depthOfItems items + 1
  | .object members => depthOfMembers members + 1
  | _ => 0

def depthOfItems : List Value → Nat
  | [] => 0
  | item :: rest => max item.depth (depthOfItems rest)

def depthOfMembers : List (String × Value) → Nat
  | [] => 0
  | (_, value) :: rest => max value.depth (depthOfMembers rest)

end

end Extraction.Json
