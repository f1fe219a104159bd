import Extraction.Yaml.Event

/-! # Documents as trees

A document is a tree of scalars, sequences and mappings with aliases in it. A
text with a fault still has a tree, made of everything before the fault; a
missing node stands where it breaks off. Anchors are numbered as they are
defined, by how many names are known by then, and an alias means the last node
of its number.
-/

namespace Extraction.Yaml

/-- A node of a document. -/
inductive Node
  /-- Where the document breaks off. -/
  | missing
  | aliasOf (mark : Mark) (target : Nat)
  | scalar (mark : Mark) (anchor : Option Nat) (scalar : Scalar)
  | sequence (mark : Mark) (anchor : Option Nat) (items : List Node)
  | mapping (mark : Mark) (anchor : Option Nat) (entries : List (Node × Node))

namespace Node

mutual

/-- The nodes with anchors in a node, in the order in which they begin. -/
def anchored : Node → List (Nat × Node)
  | missing => []
  | aliasOf _ _ => []
  | scalar mark anchor s => anchor.toList.map (·, scalar mark anchor s)
  | sequence mark anchor items =>
    anchor.toList.map (·, sequence mark anchor items) ++ anchoredItems items
  | mapping mark anchor entries =>
    anchor.toList.map (·, mapping mark anchor entries) ++ anchoredEntries entries

def anchoredItems : List Node → List (Nat × Node)
  | [] => []
  | item :: rest => anchored item ++ anchoredItems rest

def anchoredEntries : List (Node × Node) → List (Nat × Node)
  | [] => []
  | (key, value) :: rest => anchored key ++ anchored value ++ anchoredEntries rest

end

end Node

/-- A collection that has begun and not ended; its nodes are held last first. -/
inductive OpenNode
  | sequence (mark : Mark) (anchor : Option Nat) (items : List Node)
  | mapping (mark : Mark) (anchor : Option Nat) (entries : List (Node × Node)) (key : Option Node)

/-- The collection with one more node in it. -/
def OpenNode.add (node : Node) : OpenNode → OpenNode
  | sequence mark anchor items => sequence mark anchor (node :: items)
  | mapping mark anchor entries none => mapping mark anchor entries (some node)
  | mapping mark anchor entries (some key) => mapping mark anchor ((key, node) :: entries) none

/-- The collection as a node. -/
def OpenNode.close : OpenNode → Node
  | sequence mark anchor items => .sequence mark anchor items.reverse
  | mapping mark anchor entries none => .mapping mark anchor entries.reverse
  | mapping mark anchor entries (some key) =>
    .mapping mark anchor ((key, .missing) :: entries).reverse

/-- The collection as a node that breaks off here. -/
def OpenNode.breakOff (node : OpenNode) : Node :=
  match node with
  | sequence .. => (node.add .missing).close
  | mapping _ _ _ none => ((node.add .missing).add .missing).close
  | mapping _ _ _ (some _) => (node.add .missing).close

/-- A tree while it is put together. -/
structure Composer where
  /-- The collections that have begun, innermost first. -/
  stack : List OpenNode := []
  /-- The whole tree, once it is complete. -/
  root : Option Node := none
  /-- The numbers of the anchors' names. -/
  names : List (List Char × Nat) := []
  /-- How many names there are. -/
  count : Nat := 0

namespace Composer

/-- Puts a complete node into the innermost collection. -/
def add (c : Composer) (node : Node) : Composer :=
  match c.stack with
  | [] => { c with root := some node }
  | top :: rest => { c with stack := top.add node :: rest }

/-- Numbers an anchor. -/
def define (c : Composer) : Option (List Char) → Option Nat × Composer
  | none => (none, c)
  | some name =>
    (some c.count,
      { c with
        names := (name, c.count) :: c.names
        count := if (c.names.lookup name).isSome then c.count else c.count + 1 })

/-- Begins a collection. -/
def begin (c : Composer) (node : OpenNode) : Composer := { c with stack := node :: c.stack }

/-- Ends the innermost collection. -/
def finish (c : Composer) : Composer :=
  match c.stack with
  | [] => c
  | top :: rest => { c with stack := rest }.add top.close

/-- Takes in an event; nothing when it is an alias of an unknown anchor. -/
def take? (c : Composer) (e : PlacedEvent) : Option Composer :=
  match e.event with
  | .aliasOf name => (c.names.lookup name).map fun target => c.add (.aliasOf e.mark target)
  | .scalar anchor scalar =>
    let (number, c) := c.define anchor
    some (c.add (.scalar e.mark number scalar))
  | .sequenceStart anchor =>
    let (number, c) := c.define anchor
    some (c.begin (.sequence e.mark number []))
  | .mappingStart anchor =>
    let (number, c) := c.define anchor
    some (c.begin (.mapping e.mark number [] none))
  | .sequenceEnd => some c.finish
  | .mappingEnd => some c.finish

/-- The tree when nothing follows. -/
def tree (c : Composer) : Node :=
  match c.stack with
  | [] => c.root.getD .missing
  | top :: rest => rest.foldl (fun inner outer => (outer.add inner).breakOff) top.breakOff

end Composer

/-- Why a document is not complete. -/
inductive Break
  | fault (fault : Fault)
  | unknownAnchor (mark : Mark)
  | forbiddenCharacter (octets : Nat)
deriving DecidableEq, Repr

def Break.message : Break → String
  | fault f => f.message
  | unknownAnchor mark => "unknown anchor" ++ mark.text
  | forbiddenCharacter octets =>
    "control characters are not allowed" ++
      (if octets = 0 then "" else " at position " ++ toString octets)

/-- The first document of a text. -/
structure Document where
  root : Node
  /-- Why the document is not complete, if it is not. -/
  break? : Option Break := none
  /-- How many events the document has. -/
  size : Nat
  /-- Whether the text ends with the document. -/
  isSingle : Bool := true

/-- Puts events together; `size` counts those taken in. -/
def composeFrom (c : Composer) (size : Nat) (events : Events) : List PlacedEvent → Document
  | [] =>
    { root := c.tree, break? := events.fault.map .fault, size, isSingle := events.isSingle }
  | e :: rest =>
    match c.take? e with
    | some c => composeFrom c (size + 1) events rest
    | none => { root := c.tree, break? := some (.unknownAnchor e.mark), size }

/-- The document of events. -/
def compose (events : Events) : Document := composeFrom {} 0 events events.events

/-- The node an alias means. -/
def Document.target? (d : Document) (target : Nat) : Option Node :=
  d.root.anchored.reverse.lookup target

/-- How many octets stand before the first character that no document may hold. -/
def forbidden? (before : Nat) : List Char → Option Nat
  | [] => none
  | c :: rest =>
    if isAllowed c then forbidden? (before + (Octets.ofChar c).length) rest else some before

/-- The first document in a text. -/
def documentOf (text : List Char) : Document :=
  match forbidden? 0 text with
  | some octets => { root := .missing, break? := some (.forbiddenCharacter octets), size := 0 }
  | none => compose (eventsOf text)

end Extraction.Yaml
