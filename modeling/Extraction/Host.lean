import Extraction.Path
import Extraction.Text.Octets

/-! # Hosts

What the library asks of the machine it runs on: files, commands on the search
path, variables, and where its own executable lies. All answers are fixed, so a
host is a value.
-/

namespace Extraction

/-- Why a file cannot be read. -/
inductive FileError
  | notFound
  | notDirectory
  | isDirectory
  | nameTooLong
  | tooManyLinks
  | zeroInName
  | other (code : Nat) (text : String)
deriving DecidableEq, Repr

/-- The text of a system error and its code. -/
def FileError.system (text : String) (code : Nat) : String :=
  text ++ " (os error " ++ toString code ++ ")"

def FileError.message : FileError → String
  | notFound => system "No such file or directory" 2
  | notDirectory => system "Not a directory" 20
  | isDirectory => system "Is a directory" 21
  | nameTooLong => system "File name too long" 36
  | tooManyLinks => system "Too many levels of symbolic links" 40
  | zeroInName => "file name contained an unexpected NUL byte"
  | other code text => system text code

/-- What a machine answers. -/
structure Host where
  /-- Whether a path leads to a regular file. -/
  isFile : Path → Bool
  /-- Whether a path leads anywhere. -/
  isPresent : Path → Bool
  /-- The octets of a file. -/
  read : Path → Except FileError Octets
  /-- Whether a name is that of a command the system finds. -/
  isCommand : String → Bool
  /-- The value of a variable, which need not be text. -/
  lookupVariable : String → Option Octets
  /-- The directory of the running executable. -/
  executableDirectory : Option Path

/-- The text a variable is set to. A value that is no text is passed over, as if the variable were
not set. -/
def Host.lookupText (host : Host) (name : String) : Option String :=
  (host.lookupVariable name).bind Octets.toString?

end Extraction
