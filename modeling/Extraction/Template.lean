import Extraction.Text.Blank

/-! # Command line templates

A template is text with actions such as `{{.Executable}}` in it. Blank
characters around the dotted name do not matter, and the name must be one of
four parameters. Reading stops at the first bad action. Rendering puts in what
is known of an installed extractor and leaves the parameters of a single run
as they are written; a template that cannot be read is left alone.
-/

namespace Extraction.Template

/-- What an action may stand for. -/
inductive Parameter
  | executable
  | sourceFolder
  | outputFile
  | additionalParameters
deriving DecidableEq, Repr

def Parameter.name : Parameter → List Char
  | executable => "Executable".toList
  | sourceFolder => "SourceFolder".toList
  | outputFile => "OutputFile".toList
  | additionalParameters => "AdditionalParameters".toList

/-- The parameter of a name. -/
def Parameter.ofName? (name : List Char) : Option Parameter :=
  [executable, sourceFolder, outputFile, additionalParameters].find? (·.name == name)

/-- A piece of a template; an action keeps the characters it is written in. -/
inductive Segment
  | text (chars : List Char)
  | action (parameter : Parameter) (written : List Char)
deriving DecidableEq, Repr

/-- What is wrong with a template. -/
inductive Fault
  | unclosed (rest : List Char)
  | unsupported (action : List Char)
  | unknown (name : List Char)
deriving DecidableEq, Repr

def Fault.message : Fault → String
  | unclosed rest => "unclosed action at '" ++ String.ofList rest ++ "'"
  | unsupported action => "unsupported action '" ++ String.ofList action ++ "'"
  | unknown name => "unknown parameter '" ++ String.ofList name ++ "'"

/-- What stands before and after the first place where a character stands twice in a row. -/
def splitAtPair? (mark : Char) : List Char → Option (List Char × List Char)
  | [] => none
  | [_] => none
  | a :: b :: rest =>
    if a = mark ∧ b = mark then some ([], rest)
    else (splitAtPair? mark (b :: rest)).map fun (before, after) => (a :: before, after)

/-- An action as it is written. -/
def enclose (action : List Char) : List Char := '\x7b' :: '\x7b' :: (action ++ ['\x7d', '\x7d'])

/-- Text as a segment, unless there is none. -/
def textSegment (chars : List Char) : List Segment := if chars.isEmpty then [] else [.text chars]

/-- The parameter an action names with a dot in front. -/
def readAction (action : List Char) : Except Fault Parameter :=
  match Text.trim action with
  | '.' :: name =>
    match Parameter.ofName? name with
    | some parameter => .ok parameter
    | none => .error (.unknown name)
  | other => .error (.unsupported other)

theorem splitAtPair?_eq_some {mark : Char} {s before after : List Char}
    (h : splitAtPair? mark s = some (before, after)) : s = before ++ mark :: mark :: after := by
  fun_induction splitAtPair? mark s generalizing before with
  | case1 => cases h
  | case2 => cases h
  | case3 a b rest hmark => cases h; rw [hmark.1, hmark.2]; rfl
  | case4 a b rest _ ih =>
      obtain ⟨⟨inner, tail⟩, hinner, heq⟩ := Option.map_eq_some_iff.mp h
      cases heq
      rw [ih hinner]
      rfl

theorem splitAtPair?_shorter {mark : Char} {s before after : List Char}
    (h : splitAtPair? mark s = some (before, after)) : after.length < s.length := by
  rw [splitAtPair?_eq_some h]
  simp only [List.length_append, List.length_cons]
  omega

/-- Reads a template into its segments. -/
def parse (s : List Char) : Except Fault (List Segment) :=
  match _ : splitAtPair? '\x7b' s with
  | none => .ok (textSegment s)
  | some (before, inner) =>
    match _ : splitAtPair? '\x7d' inner with
    | none => .error (.unclosed ('\x7b' :: '\x7b' :: inner))
    | some (action, after) => do
      let parameter ← readAction action
      let segments ← parse after
      return textSegment before ++ .action parameter (enclose action) :: segments
termination_by s.length
decreasing_by exact Nat.lt_trans (splitAtPair?_shorter ‹_›) (splitAtPair?_shorter ‹_›)

/-- Whether a template can be read. -/
def check (template : String) : Except Fault Unit := (parse template.toList).map fun _ => ()

/-- What a segment becomes when the executable and the additional arguments are known. -/
def Segment.render (executable arguments : List Char) : Segment → List Char
  | .text chars => chars
  | .action .executable _ => executable
  | .action .additionalParameters _ => arguments
  | .action _ written => written

/-- The rendered template without blank characters at its ends. -/
def render (template executable arguments : String) : String :=
  String.ofList <| Text.trim <|
    match parse template.toList with
    | .ok segments => segments.flatMap (·.render executable.toList arguments.toList)
    | .error _ => template.toList

end Extraction.Template
