import Extraction.Yaml.Token.Scan

/-! # Events

A document as its scalars, aliases and the starts and ends of its collections,
in order. What is expected of the tokens next is kept on a stack, innermost
first. Entries and values that are left out are empty scalars.
-/

namespace Extraction.Yaml

/-- A piece of a document; anchors and aliases are told by name. -/
inductive Event
  | aliasOf (name : List Char)
  | scalar (anchor : Option (List Char)) (scalar : Scalar)
  | sequenceStart (anchor : Option (List Char))
  | sequenceEnd
  | mappingStart (anchor : Option (List Char))
  | mappingEnd
deriving DecidableEq, Repr

/-- An event and where it begins. -/
structure PlacedEvent where
  event : Event
  mark : Mark
deriving DecidableEq, Repr

/-- What is expected next. A collection remembers where it began. -/
inductive Expectation
  | blockEntry (since : Mark)
  | indentlessEntry
  | blockKey (since : Mark)
  | blockValue (since : Mark)
  | flowEntry (since : Mark) (isFirst : Bool)
  | pairKey
  | pairValue
  | pairEnd
  | flowKey (since : Mark) (isFirst : Bool)
  | flowValue (since : Mark)
  | noFlowValue (since : Mark)
deriving DecidableEq, Repr

/-- The tokens not taken in yet, and what is expected of them. -/
structure Parser where
  tokens : List Token
  /-- The fault that breaks off the tokens. -/
  fault : Option Fault
  stack : List Expectation := []
  /-- What the handles of tags stand for. -/
  handles : List (List Char × Octets) := []

namespace Parser

/-- The next token; past the last one the text has ended. -/
def peek (p : Parser) : Except Fault Token :=
  match p.tokens, p.fault with
  | token :: _, _ => .ok token
  | [], some fault => .error fault
  | [], none => .ok ⟨.streamEnd, {}⟩

def skip (p : Parser) : Parser := { p with tokens := p.tokens.drop 1 }

/-- Expects something before all else. -/
def push (p : Parser) (next : Expectation) : Parser := { p with stack := next :: p.stack }

/-- The empty scalar that stands for what is left out. -/
def omitted (mark : Mark) : PlacedEvent := ⟨.scalar none ⟨[], .plain, none⟩, mark⟩

/-- Properties of a node: where they begin, its anchor, and its tag with the tag's place. -/
structure Properties where
  mark : Mark
  anchor : Option (List Char) := none
  tag : Option ((List Char × Octets) × Mark) := none

/-- Takes in an anchor if one is next and there is none yet. -/
def takeAnchor (p : Parser) (properties : Properties) : Except Fault (Properties × Parser) := do
  let token ← p.peek
  match token.kind, properties.anchor with
  | .anchor name, none => return ({ properties with anchor := some name }, p.skip)
  | _, _ => return (properties, p)

/-- Takes in a tag if one is next and there is none yet. -/
def takeTag (p : Parser) (properties : Properties) : Except Fault (Properties × Parser) := do
  let token ← p.peek
  match token.kind, properties.tag with
  | .tag handle suffix, none =>
    return ({ properties with tag := some ((handle, suffix), token.mark) }, p.skip)
  | _, _ => return (properties, p)

/-- Takes in an anchor and a tag, which may stand in either order. -/
def takeProperties (p : Parser) : Except Fault (Properties × Parser) := do
  let token ← p.peek
  let (properties, p) ← p.takeAnchor ⟨token.mark, none, none⟩
  let (properties, p) ← p.takeTag properties
  if properties.anchor.isNone && properties.tag.isSome then p.takeAnchor properties
  else return (properties, p)

/-- The whole tag; its handle must be known. -/
def wholeTag (p : Parser) (properties : Properties) : Except Fault (Option Octets) :=
  match properties.tag with
  | none => .ok none
  | some (([], suffix), _) => .ok (some suffix)
  | some ((handle, suffix), place) =>
    match p.handles.lookup handle with
    | some expansion => .ok (some (expansion ++ suffix))
    | none => .error ⟨.undefinedHandle, place, some (.node, properties.mark)⟩

/-- Reads a node, or the start of one that is a collection. Block collections are allowed in
blocks only; a sequence that is the value of a mapping need not be indented. -/
def node (p : Parser) (inBlock mayBeIndentless : Bool) : Except Fault (PlacedEvent × Parser) := do
  let token ← p.peek
  match token.kind with
  | .aliasOf name => return (⟨.aliasOf name, token.mark⟩, p.skip)
  | _ =>
    let (properties, p) ← p.takeProperties
    let tag ← p.wholeTag properties
    let token ← p.peek
    let sequence := PlacedEvent.mk (.sequenceStart properties.anchor) properties.mark
    let mapping := PlacedEvent.mk (.mappingStart properties.anchor) properties.mark
    match token.kind, inBlock, mayBeIndentless with
    | .blockEntry, _, true => return (sequence, p.push .indentlessEntry)
    | .scalar text style, _, _ =>
      return (⟨.scalar properties.anchor ⟨text, style, tag⟩, properties.mark⟩, p.skip)
    | .flowSequenceStart, _, _ => return (sequence, p.skip.push (.flowEntry token.mark true))
    | .flowMappingStart, _, _ => return (mapping, p.skip.push (.flowKey token.mark true))
    | .blockSequenceStart, true, _ => return (sequence, p.skip.push (.blockEntry token.mark))
    | .blockMappingStart, true, _ => return (mapping, p.skip.push (.blockKey token.mark))
    | _, _, _ =>
      if properties.anchor.isSome || properties.tag.isSome then
        return (⟨.scalar properties.anchor ⟨[], .plain, tag⟩, properties.mark⟩, p)
      else
        throw ⟨.missingContent, token.mark,
          some (if inBlock then .blockNode else .flowNode, properties.mark)⟩

/-- Reads a node unless one of some tokens is next, before which it has been left out. -/
def nodeUnless (p : Parser) (ends : List TokenKind) (inBlock mayBeIndentless : Bool)
    (place : Option Mark) : Except Fault (PlacedEvent × Parser) := do
  let token ← p.peek
  if ends.contains token.kind then return (omitted (place.getD token.mark), p)
  else p.node inBlock mayBeIndentless

def blockEntry (p : Parser) (since : Mark) : Except Fault (PlacedEvent × Parser) := do
  let token ← p.peek
  match token.kind with
  | .blockEntry =>
    (p.skip.push (.blockEntry since)).nodeUnless [.blockEntry, .blockEnd] true false
      (token.mark.right 1)
  | .blockEnd => return (⟨.sequenceEnd, token.mark⟩, p.skip)
  | _ => throw ⟨.missingDash, token.mark, some (.blockCollection, since)⟩

def indentlessEntry (p : Parser) : Except Fault (PlacedEvent × Parser) := do
  let token ← p.peek
  match token.kind with
  | .blockEntry =>
    (p.skip.push .indentlessEntry).nodeUnless [.blockEntry, .key, .value, .blockEnd] true false
      (token.mark.right 1)
  | _ => return (⟨.sequenceEnd, token.mark⟩, p)

def blockKey (p : Parser) (since : Mark) : Except Fault (PlacedEvent × Parser) := do
  let token ← p.peek
  match token.kind with
  | .key =>
    (p.skip.push (.blockValue since)).nodeUnless [.key, .value, .blockEnd] true true
      (token.mark.right 1)
  | .blockEnd => return (⟨.mappingEnd, token.mark⟩, p.skip)
  | _ => throw ⟨.missingKey, token.mark, some (.blockMapping, since)⟩

def blockValue (p : Parser) (since : Mark) : Except Fault (PlacedEvent × Parser) := do
  let token ← p.peek
  let p := p.push (.blockKey since)
  match token.kind with
  | .value =>
    p.skip.nodeUnless [.key, .value, .blockEnd] true true (token.mark.right 1)
  | _ => return (omitted token.mark, p)

/-- Past the comma in front of an entry of a flow collection other than the first. -/
def flowComma (p : Parser) (isFirst : Bool) (close : TokenKind) (problem : Problem)
    (activity : Activity) (since : Mark) : Except Fault Parser := do
  let token ← p.peek
  if isFirst || token.kind == close then return p
  else if token.kind == .flowEntry then return p.skip
  else throw ⟨problem, token.mark, some (activity, since)⟩

def flowEntry (p : Parser) (since : Mark) (isFirst : Bool) :
    Except Fault (PlacedEvent × Parser) := do
  let p ← p.flowComma isFirst .flowSequenceEnd .missingSequenceEnd .flowSequence since
  let token ← p.peek
  match token.kind with
  | .flowSequenceEnd => return (⟨.sequenceEnd, token.mark⟩, p.skip)
  | .key =>
    return (⟨.mappingStart none, token.mark⟩, (p.skip.push (.flowEntry since false)).push .pairKey)
  | _ => (p.push (.flowEntry since false)).node false false

/-- Reads the key of a single pair in a flow sequence. -/
def pairKey (p : Parser) : Except Fault (PlacedEvent × Parser) := do
  let token ← p.peek
  let p := p.push .pairValue
  if [TokenKind.value, .flowEntry, .flowSequenceEnd].contains token.kind then
    return (omitted (token.mark.right 1), p.skip)
  else p.node false false

def pairValue (p : Parser) : Except Fault (PlacedEvent × Parser) := do
  let token ← p.peek
  let p := p.push .pairEnd
  match token.kind with
  | .value => p.skip.nodeUnless [.flowEntry, .flowSequenceEnd] false false none
  | _ => return (omitted token.mark, p)

def pairEnd (p : Parser) : Except Fault (PlacedEvent × Parser) := do
  let token ← p.peek
  return (⟨.mappingEnd, token.mark⟩, p)

def flowKey (p : Parser) (since : Mark) (isFirst : Bool) :
    Except Fault (PlacedEvent × Parser) := do
  let p ← p.flowComma isFirst .flowMappingEnd .missingMappingEnd .flowMapping since
  let token ← p.peek
  match token.kind with
  | .flowMappingEnd => return (⟨.mappingEnd, token.mark⟩, p.skip)
  | .key =>
    (p.skip.push (.flowValue since)).nodeUnless [.value, .flowEntry, .flowMappingEnd] false false
      none
  | _ => (p.push (.noFlowValue since)).node false false

def flowValue (p : Parser) (since : Mark) : Except Fault (PlacedEvent × Parser) := do
  let token ← p.peek
  let p := p.push (.flowKey since false)
  match token.kind with
  | .value => p.skip.nodeUnless [.flowEntry, .flowMappingEnd] false false none
  | _ => return (omitted token.mark, p)

def noFlowValue (p : Parser) (since : Mark) : Except Fault (PlacedEvent × Parser) := do
  let token ← p.peek
  return (omitted token.mark, p.push (.flowKey since false))

/-- Reads the event that is expected first. -/
def next (p : Parser) : Expectation → Except Fault (PlacedEvent × Parser)
  | .blockEntry since => p.blockEntry since
  | .indentlessEntry => p.indentlessEntry
  | .blockKey since => p.blockKey since
  | .blockValue since => p.blockValue since
  | .flowEntry since isFirst => p.flowEntry since isFirst
  | .pairKey => p.pairKey
  | .pairValue => p.pairValue
  | .pairEnd => p.pairEnd
  | .flowKey since isFirst => p.flowKey since isFirst
  | .flowValue since => p.flowValue since
  | .noFlowValue since => p.noFlowValue since

/-- Events up to a fault, or up to the end of the document. -/
structure Result where
  events : List PlacedEvent
  stop : Except Fault Parser

/-- Reads events until nothing more is expected; a token leads to at most four of them. -/
def run : (steps : Nat) → (read : List PlacedEvent) → Parser → Result
  | 0, read, p => ⟨read.reverse, .ok p⟩
  | steps + 1, read, p =>
    match p.stack with
    | [] => ⟨read.reverse, .ok p⟩
    | first :: stack =>
      match { p with stack }.next first with
      | .error fault => ⟨read.reverse, .error fault⟩
      | .ok (event, p) => run steps (event :: read) p

/-- The handles every document knows. -/
def standardHandles : List (List Char × Octets) :=
  [(['!'], Octets.ofChars ['!']), (['!', '!'], Octets.ofString "tag:yaml.org,2002:")]

/-- The version and the handles that directives have told so far. -/
structure Directives where
  hasVersion : Bool := false
  handles : List (List Char × Octets) := []

/-- Reads the directives in front of a document. -/
def directives (p : Parser) (d : Directives) : List Token → Except Fault Parser
  | ⟨.versionDirective major minor, mark⟩ :: tokens =>
    if d.hasVersion then .error ⟨.repeatedVersion, mark, none⟩
    else if major != 1 || (minor != 1 && minor != 2) then .error ⟨.unsupportedVersion, mark, none⟩
    else directives p { d with hasVersion := true } tokens
  | ⟨.tagDirective handle expansion, mark⟩ :: tokens =>
    if (d.handles.lookup handle).isSome then .error ⟨.repeatedHandle, mark, none⟩
    else directives p { d with handles := d.handles ++ [(handle, expansion)] } tokens
  | tokens => .ok { p with tokens, handles := d.handles ++ standardHandles }

/-- Whether a document with directives or a mark of its start begins with a token. -/
def beginsExplicitly : TokenKind → Bool
  | .versionDirective .. | .tagDirective .. | .documentStart => true
  | _ => false

/-- Whether a document is empty in front of a token. -/
def endsDocument : TokenKind → Bool
  | .versionDirective .. | .tagDirective .. | .documentStart | .documentEnd | .streamEnd => true
  | _ => false

/-- Reads the first event of a document, if there is a document. -/
def start (p : Parser) : Except Fault (Option PlacedEvent × Parser) := do
  let token ← p.peek
  if token.kind == .streamEnd then return (none, p)
  else if beginsExplicitly token.kind then
    let p ← p.directives {} p.tokens
    let token ← p.peek
    if token.kind != .documentStart then throw ⟨.missingDocumentStart, token.mark, none⟩
    let p := p.skip
    let token ← p.peek
    if endsDocument token.kind then return (some (omitted token.mark), p)
    let (event, p) ← p.node true false
    return (some event, p)
  else
    let (event, p) ← { p with handles := standardHandles }.node true false
    return (some event, p)

/-- Whether nothing follows but marks of the document's end. -/
def isAtEnd (p : Parser) : Bool :=
  match p.tokens.dropWhile (·.kind == .documentEnd) with
  | [] => p.fault.isNone
  | token :: _ => token.kind == .streamEnd

end Parser

/-- The events of a text's first document. -/
structure Events where
  events : List PlacedEvent
  /-- The fault that breaks off the document. -/
  fault : Option Fault := none
  /-- Whether the text ends with the document. -/
  isSingle : Bool := true

/-- The events of the first document in a text. An empty text is one empty scalar. -/
def eventsOf (text : List Char) : Events :=
  let tokens := tokensOf text
  match Parser.start { tokens := tokens.tokens, fault := tokens.fault } with
  | .error fault => { events := [], fault := some fault }
  | .ok (none, _) => { events := [Parser.omitted {}] }
  | .ok (some event, p) =>
    let result := p.run (4 * tokens.tokens.length + 4) [event]
    match result.stop.bind fun p => p.peek.map fun _ => p with
    | .error fault => { events := result.events, fault := some fault }
    | .ok p => { events := result.events, isSingle := p.isAtEnd }

end Extraction.Yaml
