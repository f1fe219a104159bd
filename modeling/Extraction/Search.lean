import Extraction.Path

/-! # Searching for commands

A command named by a path of several components is looked for there; any other
one in each directory of the search path, in order. A directory of the search
path may begin with a tilde for the home directory, and an empty one is the
current directory.
-/

namespace Extraction.Search

/-- How many components a path has, the root included. -/
def componentCount (p : Path) : Nat :=
  (Path.components p).length + if Path.isAbsolute p then 1 else 0

/-- The path that leads through some components from the current directory. -/
def fromHere (components : List (List Char)) : Path :=
  "/".intercalate ((components.dropWhile (· == ['.'])).map String.ofList)

/-- A directory of the search path, where a tilde in front is the home directory. -/
def expandHome (home : Option String) (directory : Path) : Option Path :=
  if Path.isAbsolute directory then some directory
  else
    match Path.components directory with
    | ['~'] :: rest =>
      home.map fun home => (rest.map String.ofList).foldl Path.join home
    | _ => some directory

/-- The directories of a search path. -/
def directories (searchPath : Option String) (home : Option String) : List Path :=
  match searchPath with
  | none => []
  | some searchPath =>
    (Path.splitOn ':' searchPath.toList).filterMap fun directory =>
      expandHome home (String.ofList directory)

/-- Where a command may lie. -/
def candidates (searchPath home : Option String) (name : String) : List Path :=
  if 1 < componentCount name then
    [if Path.isAbsolute name then name else fromHere (Path.components name)]
  else (directories searchPath home).map (Path.join · name)

end Extraction.Search
