/-! # Error reports

A report gives the message of an error, and below it the causes one after the
other, numbered if there are several.
-/

namespace Extraction.Command

/-- An error with its causes, the nearest first. -/
structure Report where
  message : String
  causes : List String
deriving DecidableEq, Repr

/-- The lines of a text after the first, indented by some spaces. -/
def indentLines (width : Nat) (s : List Char) : List Char :=
  s.flatMap fun c => if c = '\n' then '\n' :: List.replicate width ' ' else [c]

/-- A number at the end of some spaces, five characters in all. -/
def rightAligned (n : Nat) : List Char :=
  let digits := Nat.toDigits 10 n
  List.replicate (5 - digits.length) ' ' ++ digits

/-- Causes, the first of which has the given number. -/
def numbered (n : Nat) : List String → List Char
  | [] => []
  | cause :: rest =>
    '\n' :: rightAligned n ++ ':' :: ' ' :: indentLines 7 cause.toList ++ numbered (n + 1) rest

/-- The causes below a message. -/
def writeCauses : List String → List Char
  | [] => []
  | [cause] => "\n\nCaused by:\n    ".toList ++ indentLines 4 cause.toList
  | causes => "\n\nCaused by:".toList ++ numbered 0 causes

/-- The report and the end of its last line. -/
def Report.text (r : Report) : String :=
  "Error: " ++ r.message ++ String.ofList (writeCauses r.causes) ++ "\n"

end Extraction.Command
