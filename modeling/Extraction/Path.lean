/-! # Paths

A path is a text in which slashes separate components. Joining follows the
second path from the first one: an absolute path replaces what it is joined to.
-/

namespace Extraction

/-- A path, relative or absolute. -/
abbrev Path := String

namespace Path

/-- An absolute path begins with a slash. -/
def isAbsolute (p : Path) : Bool := p.toList.head? == some '/'

/-- The path that follows `p` from `base`. -/
def join (base p : Path) : Path :=
  if isAbsolute p then p
  else
    match base.toList.getLast? with
    | none => p
    | some last => if last = '/' then base ++ p else base ++ "/" ++ p

/-- Splits a text at every occurrence of a character. -/
def splitOn (mark : Char) : List Char → List (List Char)
  | [] => [[]]
  | c :: rest =>
    if c = mark then [] :: splitOn mark rest
    else
      match splitOn mark rest with
      | [] => [[c]]
      | first :: others => (c :: first) :: others

/-- The texts between the slashes of a path. -/
def pieces (p : Path) : List (List Char) := splitOn '/' p.toList

/-- The components of a path: empty pieces and dots do not count, except a dot at the very
beginning. -/
def components (p : Path) : List (List Char) :=
  let proper (piece : List Char) : Bool := piece != [] && piece != ['.']
  match pieces p with
  | ['.'] :: rest => ['.'] :: rest.filter proper
  | all => all.filter proper

end Path

end Extraction
