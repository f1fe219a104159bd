/-! # Why a text is not YAML

A fault names the problem and its place, and mostly also what was being read
and where that began.
-/

namespace Extraction.Yaml

/-- A place in a text: characters before it, lines before it, and characters before it in its
line. -/
structure Mark where
  index : Nat := 0
  line : Nat := 0
  column : Nat := 0
deriving DecidableEq, Repr

namespace Mark

/-- The place some characters further on in the line. -/
def right (m : Mark) (count : Nat) : Mark :=
  { m with index := m.index + count, column := m.column + count }

/-- The beginning of the next line, behind a line end of some characters. -/
def nextLine (m : Mark) (count : Nat) : Mark := ⟨m.index + count, m.line + 1, 0⟩

/-- Whether this is the first place of the text, which is never told. -/
def isOrigin (m : Mark) : Bool := m.line == 0 && m.column == 0

/-- Lines and columns are counted from one. -/
def text (m : Mark) : String :=
  if m.isOrigin then "" else
    " at line " ++ toString (m.line + 1) ++ " column " ++ toString (m.column + 1)

end Mark

/-- What was being read when a fault was met. -/
inductive Activity
  | nextToken
  | simpleKey
  | directive
  | versionDirective
  | tagDirective
  | tagDirectiveHandle
  | tagDirectiveOpening
  | tagDirectiveAddress
  | anchor
  | aliasName
  | tag
  | tagAddress
  | blockScalar
  | quotedScalar
  | quotedEscape
  | plainScalar
  | node
  | blockNode
  | flowNode
  | blockCollection
  | blockMapping
  | flowSequence
  | flowMapping
deriving DecidableEq, Repr

def Activity.message : Activity → String
  | nextToken => "while scanning for the next token"
  | simpleKey => "while scanning a simple key"
  | directive => "while scanning a directive"
  | versionDirective => "while scanning a %YAML directive"
  | tagDirective => "while scanning a %TAG directive"
  | tagDirectiveOpening => "while scanning a tag directive"
  | tagDirectiveHandle => "while parsing a tag directive"
  | tagDirectiveAddress => "while parsing a %TAG directive"
  | anchor => "while scanning an anchor"
  | aliasName => "while scanning an alias"
  | tag => "while scanning a tag"
  | tagAddress => "while parsing a tag"
  | blockScalar => "while scanning a block scalar"
  | quotedScalar => "while scanning a quoted scalar"
  | quotedEscape => "while parsing a quoted scalar"
  | plainScalar => "while scanning a plain scalar"
  | node => "while parsing a node"
  | blockNode => "while parsing a block node"
  | flowNode => "while parsing a flow node"
  | blockCollection => "while parsing a block collection"
  | blockMapping => "while parsing a block mapping"
  | flowSequence => "while parsing a flow sequence"
  | flowMapping => "while parsing a flow mapping"

/-- What is wrong at a place. -/
inductive Problem
  | badTokenStart
  | missingColon
  | misplacedEntry
  | misplacedKey
  | misplacedValue
  | unknownDirective
  | missingDirectiveName
  | badDirectiveName
  | badVersionSeparator
  | longVersion
  | missingVersion
  | directiveTail
  | missingMark
  | missingBlank
  | missingBlankOrBreak
  | missingClosing
  | missingTagAddress
  | badEscapedOctet
  | badLeadingOctet
  | badTrailingOctet
  | badAnchorName
  | zeroIndentation
  | blockHeaderTail
  | tabInIndentation
  | tabBeforeContent
  | documentMarkInScalar
  | endInScalar
  | unknownEscape
  | missingHexDigits
  | badCodePoint
  | colonInFlow
  | missingDocumentStart
  | repeatedVersion
  | unsupportedVersion
  | repeatedHandle
  | undefinedHandle
  | missingContent
  | missingDash
  | missingKey
  | missingSequenceEnd
  | missingMappingEnd
deriving DecidableEq, Repr

def Problem.message : Problem → String
  | badTokenStart => "found character that cannot start any token"
  | missingColon => "could not find expected ':'"
  | misplacedEntry => "block sequence entries are not allowed in this context"
  | misplacedKey => "mapping keys are not allowed in this context"
  | misplacedValue => "mapping values are not allowed in this context"
  | unknownDirective => "found unknown directive name"
  | missingDirectiveName => "could not find expected directive name"
  | badDirectiveName => "found unexpected non-alphabetical character"
  | badVersionSeparator => "did not find expected digit or '.' character"
  | longVersion => "found extremely long version number"
  | missingVersion => "did not find expected version number"
  | directiveTail => "did not find expected comment or line break"
  | missingMark => "did not find expected '!'"
  | missingBlank => "did not find expected whitespace"
  | missingBlankOrBreak => "did not find expected whitespace or line break"
  | missingClosing => "did not find the expected '>'"
  | missingTagAddress => "did not find expected tag URI"
  | badEscapedOctet => "did not find URI escaped octet"
  | badLeadingOctet => "found an incorrect leading UTF-8 octet"
  | badTrailingOctet => "found an incorrect trailing UTF-8 octet"
  | badAnchorName => "did not find expected alphabetic or numeric character"
  | zeroIndentation => "found an indentation indicator equal to 0"
  | blockHeaderTail => "did not find expected comment or line break"
  | tabInIndentation => "found a tab character where an indentation space is expected"
  | tabBeforeContent => "found a tab character that violates indentation"
  | documentMarkInScalar => "found unexpected document indicator"
  | endInScalar => "found unexpected end of stream"
  | unknownEscape => "found unknown escape character"
  | missingHexDigits => "did not find expected hexadecimal number"
  | badCodePoint => "found invalid Unicode character escape code"
  | colonInFlow => "found unexpected ':'"
  | missingDocumentStart => "did not find expected <document start>"
  | repeatedVersion => "found duplicate %YAML directive"
  | unsupportedVersion => "found incompatible YAML document"
  | repeatedHandle => "found duplicate %TAG directive"
  | undefinedHandle => "found undefined tag handle"
  | missingContent => "did not find expected node content"
  | missingDash => "did not find expected '-' indicator"
  | missingKey => "did not find expected key"
  | missingSequenceEnd => "did not find expected ',' or ']'"
  | missingMappingEnd => "did not find expected ',' or '\x7d'"

/-- A problem, its place, and what was being read since when. -/
structure Fault where
  problem : Problem
  place : Mark
  context : Option (Activity × Mark) := none
deriving DecidableEq, Repr

/-- The beginning of what was being read is told only if it is another place. -/
def Fault.message (f : Fault) : String :=
  f.problem.message ++ f.place.text ++
    match f.context with
    | none => ""
    | some (activity, since) =>
      ", " ++ activity.message ++
        (if since.line == f.place.line && since.column == f.place.column then "" else since.text)

end Extraction.Yaml
