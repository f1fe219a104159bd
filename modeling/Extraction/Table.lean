import Extraction.Text.Octets

/-! # Tables

Values under texts, in the order of the texts' octets, each text once. Values
are found with `List.lookup`.
-/

namespace Extraction

/-- Values under texts, in the order of the texts. -/
abbrev Table (α : Type) := List (String × α)

namespace Table

variable {α : Type}

/-- The table with a value under a text, in place of the one it had. -/
def insert (key : String) (value : α) : Table α → Table α
  | [] => [(key, value)]
  | (other, old) :: rest =>
    if key = other then (key, value) :: rest
    else if Text.before key other then (key, value) :: (other, old) :: rest
    else (other, old) :: insert key value rest

/-- Values put in one after the other, so that the last one under a text counts. -/
def ofBindings (bindings : List (String × α)) : Table α :=
  bindings.foldl (fun table (key, value) => insert key value table) []

/-- The texts stand in strictly increasing order of their octets. -/
def Sorted (table : Table α) : Prop :=
  table.Pairwise fun a b => Text.before a.1 b.1 = true

end Table

end Extraction
