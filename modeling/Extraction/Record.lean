import Extraction.Json.Document
import Extraction.Tree

/-! # Method records

A record names an extraction method and carries its schema as text; either may
be absent. Records are taken from a source that is loosely typed: nothing at
all, a JSON value, or JSON text. Only text that is not JSON is refused. What is
not an object counts as an empty one, and a field that is not a string as an
absent one.
-/

namespace Extraction

/-- A method and its schema. -/
structure Record where
  name : Option String
  schema : Option String
deriving DecidableEq, Repr

/-- What records are taken from. -/
inductive Source
  | absent
  | value (value : Json.Value)
  | text (text : String)

/-- A text that should be JSON and is not. -/
structure DecodeError where
  cause : Json.SyntaxError
deriving DecidableEq, Repr

def DecodeError.message (e : DecodeError) : String :=
  "failed to decode payload: " ++ e.cause.message

namespace Source

/-- The JSON value of a source; an absent source is an empty object. -/
def decode : Source → Except DecodeError Json.Value
  | .absent => .ok (.object [])
  | .value v => .ok v
  | .text t => (Json.parse t).mapError .mk

/-- The members of a value that is an object. -/
def membersOf : Json.Value → List (String × Json.Value)
  | .object members => members
  | _ => []

/-- The members of a source's object. -/
def members (source : Source) : Except DecodeError (List (String × Json.Value)) :=
  source.decode.map membersOf

end Source

namespace Record

/-- A record with both fields. -/
def full (name schema : String) : Record := ⟨some name, some schema⟩

/-- A member that is a string. -/
def stringMember (key : String) (members : List (String × Json.Value)) : Option String :=
  match members.lookup key with
  | some (.string text) => some text
  | _ => none

/-- The record of an object's members. -/
def ofMembers (members : List (String × Json.Value)) : Record :=
  ⟨stringMember "Name" members, stringMember "Schema" members⟩

/-- The record of a source. -/
def ofSource (source : Source) : Except DecodeError Record := source.members.map ofMembers

/-- The record of an array's element. -/
def ofElement : Json.Value → Record
  | .object members => ofMembers members
  | _ => ⟨none, none⟩

/-- The records of a source's array; a source that is no array has none. -/
def listOfSource (source : Source) : Except DecodeError (List Record) :=
  source.decode.map fun
    | .array items => items.map ofElement
    | _ => []

/-- The fields of a record that are present. -/
def toTree (r : Record) : Tree :=
  .fields (Tree.optional "Name" (r.name.map .text) ++ Tree.optional "Schema" (r.schema.map .text))

end Record

end Extraction
