import Extraction.Number.Shortest
import Extraction.Text.Displayed
import Extraction.Yaml.Node
import Extraction.Yaml.Plain

/-! # Reading values from documents

Texts, truth values, naturals, lists and structures with known fields are read
from nodes. What does not fit is told with its place in the document. A field
may be missing, but not be unknown or given twice. Aliases are followed up to a
number of times that depends on the size of the document.
-/

namespace Extraction.Yaml

/-- What is found where something else is expected. -/
inductive Found
  | unit
  | bool (value : Bool)
  | integer (value : Int)
  | real (value : Real)
  | text (value : List Char)
  | sequence
  | mapping
deriving DecidableEq, Repr

def Real.text : Real → String
  | finite x => String.ofList (Binary64.textBy Binary64.Decimal.positional x)
  | infinity negative => if negative then "-inf" else "inf"
  | notANumber => "NaN"

/-- What is told of an integer that 64 bits do not hold. -/
def widthText (value : Int) : String :=
  if UInt64.size ≤ value then " as u128"
  else if value < -(Nat.pow 2 63 : Nat) then " as i128"
  else ""

def Found.message : Found → String
  | unit => "unit value"
  | bool value => if value then "boolean `true`" else "boolean `false`"
  | integer value => "integer `" ++ toString value ++ "`" ++ widthText value
  | real value => "floating point `" ++ value.text ++ "`"
  | text value => "string " ++ Text.display value
  | sequence => "sequence"
  | mapping => "map"

/-- Why a node does not fit. -/
inductive Misfit
  | type (found : Found) (expected : String)
  | value (text : List Char) (expected : String)
  | unknownField (name : String) (known : List String)
  | repeatedField (name : String)
deriving DecidableEq, Repr

def Misfit.message : Misfit → String
  | type found expected => "invalid type: " ++ found.message ++ ", expected " ++ expected
  | value text expected =>
    "invalid value: string " ++ Text.display text ++ ", expected " ++ expected
  | unknownField name known =>
    "unknown field `" ++ name ++ "`, expected one of " ++
      ", ".intercalate (known.map fun name => "`" ++ name ++ "`")
  | repeatedField name => "duplicate field `" ++ name ++ "`"

/-- A step from a node to one inside it. The value of a key that is an alias has no name. -/
inductive Step
  | key (name : String)
  | index (n : Nat)
  | unnamed
deriving DecidableEq, Repr

/-- A place in a document: the steps to it from the root, and where it lies in the text. -/
structure Place where
  path : List Step
  mark : Mark
deriving DecidableEq, Repr

/-- The steps in one text. -/
def pathText (path : List Step) : String :=
  path.foldl (fun text step =>
    match step with
    | .key name => if text.isEmpty then name else text ++ "." ++ name
    | .index n => text ++ "[" ++ toString n ++ "]"
    | .unnamed => if text.isEmpty then "?" else text ++ ".?") ""

/-- Why no value can be read from a document. -/
inductive Failure
  | broken (cause : Break)
  | tooManyAliases
  | severalDocuments
  | misfit (misfit : Misfit) (place : Option Place)
deriving DecidableEq, Repr

def Failure.message : Failure → String
  | broken cause => cause.message
  | tooManyAliases => "repetition limit exceeded"
  | severalDocuments => "deserializing from YAML containing more than one document is not supported"
  | misfit m none => m.message
  | misfit m (some place) =>
    (if place.path.isEmpty then "" else pathText place.path ++ ": ") ++ m.message ++
      place.mark.text

/-- Reads a value and counts the aliases that are followed. -/
abbrev Reading (α : Type) := StateT Nat (Except Failure) α

/-- A value that did not fit. -/
def refuse {α : Type} (m : Misfit) (place : Option Place) : Reading α :=
  fun _ => .error (.misfit m place)

/-- Gives a misfit this place unless it has one of its own. -/
def placed {α : Type} (place : Place) (reading : Reading α) : Reading α := fun jumps =>
  match reading jumps with
  | .error (.misfit m none) => .error (.misfit m (some place))
  | result => result

namespace Document

/-- What is told when the document breaks off. -/
def breakOff {α : Type} (d : Document) : Reading α := fun _ =>
  .error (match d.break? with
    | some cause => .broken cause
    | none => .severalDocuments)

/-- Follows an alias; a hundred times for every event of the document. -/
def follow (d : Document) (target : Nat) : Reading Node := fun jumps =>
  if 100 * d.size ≤ jumps then .error .tooManyAliases
  else .ok ((d.target? target).getD .missing, jumps + 1)

/-- The node itself, or the one an alias means. -/
def resolve (d : Document) : Node → Reading Node
  | .aliasOf _ target => d.follow target
  | node => pure node

end Document

/-- The tag of a standard type. -/
def standardTag (name : String) : Octets := Octets.ofString ("tag:yaml.org,2002:" ++ name)

/-- What a plain scalar is found to be. -/
def Found.ofPlain (text : List Char) : Found :=
  match meaning text with
  | .null => .unit
  | .bool value => .bool value
  | .integer value => .integer value
  | .real value => .real value
  | .text => .text text

/-- What a scalar with a standard tag is: the value, unless the text does not spell one. -/
def Found.ofTagged {α : Type} (value : Option α) (found : α → Found) (text : List Char)
    (expectation kind : String) : Misfit :=
  match value with
  | some value => .type (found value) expectation
  | none => .value text kind

/-- A scalar where something else is expected. -/
def Scalar.misfit (s : Scalar) (expected : String) : Misfit :=
  match s.tag with
  | none => .type (if s.style = .plain then .ofPlain s.text else .text s.text) expected
  | some tag =>
    if tag = standardTag "bool" then
      Found.ofTagged (bool? s.text) .bool s.text expected "a boolean"
    else if tag = standardTag "int" then
      Found.ofTagged (integer? s.text) .integer s.text expected "an integer"
    else if tag = standardTag "float" then
      Found.ofTagged (real? s.text) .real s.text expected "a float"
    else if tag = standardTag "null" then
      Found.ofTagged (if isNull s.text then some () else none) (fun _ => .unit) s.text expected
        "null"
    else if tag.head? = some 0x21 ∧ s.style = .plain then .type (.ofPlain s.text) expected
    else .type (.text s.text) expected

/-- Whether a scalar may stand for a value of a standard type. -/
def Scalar.mayBe (s : Scalar) (type : String) : Bool :=
  s.style == .plain || (s.style == .literal && s.tag == some (standardTag type))

/-- Whether a scalar stands for nothing at all. -/
def Scalar.isEmpty (s : Scalar) : Bool := s.style == .plain && s.text.isEmpty

namespace Document

variable (d : Document)

/-- Reads a scalar by `read?`. -/
def readScalar {α : Type} (read? : Scalar → Option α) (expected : String) (path : List Step)
    (node : Node) : Reading α := do
  match ← d.resolve node with
  | .scalar mark _ s =>
    match read? s with
    | some value => return value
    | none => refuse (s.misfit expected) (some ⟨path, mark⟩)
  | .sequence mark _ _ => refuse (.type .sequence expected) (some ⟨path, mark⟩)
  | .mapping mark _ _ => refuse (.type .mapping expected) (some ⟨path, mark⟩)
  | _ => d.breakOff

/-- Reads a text; every scalar is one. -/
def readText (expected : String) : List Step → Node → Reading String :=
  d.readScalar (fun s => some (String.ofList s.text)) expected

def readBool : List Step → Node → Reading Bool :=
  d.readScalar (fun s => if s.mayBe "bool" then bool? s.text else none) "a boolean"

/-- Reads a natural below `2 ^ 64`. -/
def readNatural : List Step → Node → Reading Nat :=
  d.readScalar (fun s => if s.mayBe "int" then natural? UInt64.size s.text else none) "u64"

/-- Reads a value that may be null. -/
def readOptional {α : Type} (read : List Step → Node → Reading α) (path : List Step)
    (node : Node) : Reading (Option α) := do
  let node ← d.resolve node
  match node with
  | .scalar _ _ s =>
    if s.style != .plain then some <$> read path node
    else
      match s.tag with
      | none => if s.text.isEmpty || isNull s.text then return none else some <$> read path node
      | some tag =>
        if tag != standardTag "null" then some <$> read path node
        else if isNull s.text then return none
        else refuse (.value s.text "null") none
  | _ => some <$> read path node

/-- Reads the items of a list, the first of which has the given index. -/
def readItems {α : Type} (read : List Step → Node → Reading α) (path : List Step) :
    Nat → List Node → Reading (List α)
  | _, [] => return []
  | index, item :: rest => do
    let value ← read (path ++ [.index index]) item
    let values ← readItems read path (index + 1) rest
    return value :: values

/-- Reads a list; an empty scalar is an empty one. -/
def readList {α : Type} (read : List Step → Node → Reading α) (path : List Step) (node : Node) :
    Reading (List α) := do
  match ← d.resolve node with
  | .sequence mark _ items => placed ⟨path, mark⟩ (readItems read path 0 items)
  | .scalar mark _ s =>
    if s.isEmpty then return [] else refuse (s.misfit "a sequence") (some ⟨path, mark⟩)
  | .mapping mark _ _ => refuse (.type .mapping "a sequence") (some ⟨path, mark⟩)
  | _ => d.breakOff

/-- A field of a structure: its name, and how its value is put into a structure. -/
structure FieldReader (α : Type) where
  name : String
  read : List Step → Node → α → Reading α

/-- The step to the value of a key. -/
def stepOf : Node → Step
  | .scalar _ _ s => .key (String.ofList s.text)
  | _ => .unnamed

/-- The field a key names. -/
def readKey {α : Type} (fields : List (FieldReader α)) (path : List Step) (key : Node) :
    Reading (FieldReader α) := do
  let key ← d.resolve key
  let name ← d.readText "field identifier" path key
  match fields.find? (·.name == name), key with
  | some field, _ => return field
  | none, .scalar mark _ _ => refuse (.unknownField name (fields.map (·.name))) (some ⟨path, mark⟩)
  | none, _ => refuse (.unknownField name (fields.map (·.name))) none

/-- Reads the fields of a structure; `seen` holds the names of those read before. -/
def readFields {α : Type} (fields : List (FieldReader α)) (path : List Step) (seen : List String)
    (value : α) : List (Node × Node) → Reading α
  | [] => return value
  | (key, node) :: rest => do
    let field ← d.readKey fields path key
    if seen.contains field.name then refuse (.repeatedField field.name) none
    else
      let value ← field.read (path ++ [stepOf key]) node value
      readFields fields path (field.name :: seen) value rest

/-- Reads a structure; an empty scalar is one without fields. -/
def readStructure {α : Type} (name : String) (fields : List (FieldReader α)) (initial : α)
    (path : List Step) (node : Node) : Reading α := do
  match ← d.resolve node with
  | .mapping mark _ entries => placed ⟨path, mark⟩ (d.readFields fields path [] initial entries)
  | .scalar mark _ s =>
    if s.isEmpty then return initial
    else refuse (s.misfit ("struct " ++ name)) (some ⟨path, mark⟩)
  | .sequence mark _ _ => refuse (.type .sequence ("struct " ++ name)) (some ⟨path, mark⟩)
  | _ => d.breakOff

/-- Reads the whole document, which must be complete and the only one. -/
def read {α : Type} (reading : List Step → Node → Reading α) : Except Failure α := do
  let (value, _) ← (reading [] d.root).run 0
  match d.break?, d.isSingle with
  | some cause, _ => throw (.broken cause)
  | none, false => throw .severalDocuments
  | none, true => return value

end Document

end Extraction.Yaml
