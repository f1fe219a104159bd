/-! # Trees of output

What the library writes out, before it is put into the words of a format: texts,
truth values, naturals, lists, and fields in a fixed order.
-/

namespace Extraction

inductive Tree
  | text (value : String)
  | flag (value : Bool)
  | natural (value : Nat)
  | list (items : List Tree)
  | fields (entries : List (String × Tree))

namespace Tree

/-- A field that is left out when there is no value. -/
def optional (name : String) (value : Option Tree) : List (String × Tree) :=
  match value with
  | some value => [(name, value)]
  | none => []

end Tree

end Extraction
