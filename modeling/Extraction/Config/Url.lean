import Extraction.Text.Blank

/-! # Web addresses

An address is `http://` or `https://`, a host, and then possibly a path, query or fragment;
nowhere a blank character.
-/

namespace Extraction.Config

/-- Whether a character ends the host: it begins a path, a query or a fragment. -/
def endsHost (c : Char) : Bool := c == '/' || c == '?' || c == '#'

/-- Whether a character may stand in the host. -/
def isHostChar (c : Char) : Bool := !Text.isBlankChar c && !endsHost c

/-- What follows the scheme and the two slashes. -/
def afterScheme? (s : List Char) : Option (List Char) :=
  match s with
  | 'h' :: 't' :: 't' :: 'p' :: ':' :: '/' :: '/' :: rest => some rest
  | 'h' :: 't' :: 't' :: 'p' :: 's' :: ':' :: '/' :: '/' :: rest => some rest
  | _ => none

/-- A host that is not empty, and after it nothing or a path, query or fragment. -/
def isHostAndTail (s : List Char) : Bool :=
  let tail := s.dropWhile isHostChar
  !(s.takeWhile isHostChar).isEmpty &&
    match tail with
    | [] => true
    | c :: rest => endsHost c && rest.all (!Text.isBlankChar ·)

/-- Whether a text is a web address. -/
def isWebAddress (s : String) : Bool := (afterScheme? s.toList).any isHostAndTail

end Extraction.Config
