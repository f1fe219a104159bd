import Extraction.Host
import Extraction.Search

/-! # File trees

Files, directories and symbolic links below a current directory. Outside of it
only the directories that lead to it are known. Links are followed up to forty
times on the way to a file.
-/

namespace Extraction

inductive FileEntry
  | file (content : Octets) (isExecutable : Bool)
  | directory
  | link (target : Path)
deriving DecidableEq, Repr

/-- Where a path leads: inside the tree, by the names on the way, innermost first; or outside. -/
inductive Location
  | inside (names : List (List Char))
  | outside
deriving DecidableEq, Repr

/-- The directory above a location. -/
def Location.parent : Location → Location
  | inside (_ :: names) => inside names
  | _ => outside

/-- Entries by the names on the way to them, innermost first. -/
structure FileTree where
  entries : List (List (List Char) × FileEntry) := []

namespace FileTree

/-- The longest name in octets. -/
def longestName : Nat := 255

/-- The length in octets from which on a path is too long. -/
def pathLimit : Nat := 4096

/-- How many links are followed on the way to a file. -/
def linkLimit : Nat := 40

def entryAt (tree : FileTree) : Location → Option FileEntry
  | .outside => some .directory
  | .inside [] => some .directory
  | .inside names => tree.entries.lookup names

/-- Where a path begins that is followed from a location. -/
def startOf (here : Location) (p : Path) : Location := if Path.isAbsolute p then .outside else here

/-- Follows names from a location; `links` more links may be followed. -/
def walk (tree : FileTree) (links : Nat) (here : Location) :
    List (List Char) → Except FileError Location
  | [] => .ok here
  | name :: rest =>
    if tree.entryAt here != some .directory then .error .notDirectory
    else if name = [] ∨ name = ['.'] then tree.walk links here rest
    else if name = ['.', '.'] then tree.walk links here.parent rest
    else if longestName < (Octets.ofChars name).length then .error .nameTooLong
    else
      match here with
      | .outside => .error .notFound
      | .inside names =>
        match tree.entries.lookup (name :: names) with
        | none => .error .notFound
        | some (.link target) =>
          match links with
          | 0 => .error .tooManyLinks
          | links + 1 =>
            tree.walk links (startOf here target) (Path.pieces target ++ rest)
        | some _ => tree.walk links (.inside (name :: names)) rest
termination_by names => (links, names.length)

/-- What lies at a path. -/
def find (tree : FileTree) (p : Path) : Except FileError FileEntry := do
  if p.toList.contains '\x00' then throw .zeroInName
  if p.isEmpty then throw .notFound
  if pathLimit ≤ (Octets.ofString p).length then throw .nameTooLong
  let location ← tree.walk linkLimit (startOf (.inside []) p) (Path.pieces p)
  match tree.entryAt location with
  | some entry => return entry
  | none => throw .notFound

def isFile (tree : FileTree) (p : Path) : Bool :=
  match tree.find p with
  | .ok (.file ..) => true
  | _ => false

/-- Whether a path leads to a file that may be executed. -/
def isExecutable (tree : FileTree) (p : Path) : Bool :=
  match tree.find p with
  | .ok (.file _ true) => true
  | _ => false

def isPresent (tree : FileTree) (p : Path) : Bool := (tree.find p).toOption.isSome

def read (tree : FileTree) (p : Path) : Except FileError Octets :=
  match tree.find p with
  | .ok (.file content _) => .ok content
  | .ok _ => .error .isDirectory
  | .error e => .error e

/-- The tree with an entry at a place. -/
def put (tree : FileTree) (names : List (List Char)) (entry : FileEntry) : FileTree :=
  { entries := (names, entry) :: tree.entries }

/-- Makes the directories on the way through some names, and tells where it leads. -/
def makeWay (tree : FileTree) (here : Location) :
    List (List Char) → FileTree × Option Location
  | [] => (tree, some here)
  | name :: rest =>
    match tree.walk linkLimit here [name], here with
    | .ok next, _ => tree.makeWay next rest
    | .error .notFound, .inside names =>
      (tree.put (name :: names) .directory).makeWay (.inside (name :: names)) rest
    | _, _ => (tree, none)

/-- Where a file is written that is named in a directory: links are followed. -/
def writeTarget (tree : FileTree) : (links : Nat) → (names : List (List Char)) →
    Option (List (List Char))
  | 0, _ => none
  | links + 1, names =>
    match tree.entries.lookup names with
    | some (.link target) =>
      let pieces := Path.pieces target
      match tree.walk linkLimit (startOf (.inside names.tail) target) pieces.dropLast,
        pieces.getLast? with
      | .ok (.inside outer), some name => tree.writeTarget links (name :: outer)
      | _, _ => none
    | _ => some names

/-- The tree after an entry has been made at a path, with the directories on the way to it. -/
def make (tree : FileTree) (p : Path) (entry : FileEntry) : FileTree :=
  let pieces := Path.pieces p
  match entry with
  | .directory => (tree.makeWay (startOf (.inside []) p) pieces).1
  | _ =>
    match tree.makeWay (startOf (.inside []) p) pieces.dropLast, pieces.getLast? with
    | (tree, some (.inside outer)), some name =>
      match entry with
      | .link _ => tree.put (name :: outer) entry
      | _ =>
        match tree.writeTarget linkLimit (name :: outer) with
        | some names => tree.put names entry
        | none => tree
    | (tree, _), _ => tree

/-- The tree as a host with variables. -/
def host (tree : FileTree) (environment : List (String × String))
    (executableDirectory : Option Path) : Host where
  isFile := tree.isFile
  isPresent := tree.isPresent
  read := tree.read
  isCommand name :=
    (Search.candidates (environment.lookup "PATH") (environment.lookup "HOME") name).any
      tree.isExecutable
  lookupVariable name := (environment.lookup name).map Octets.ofString
  executableDirectory

end FileTree

end Extraction
