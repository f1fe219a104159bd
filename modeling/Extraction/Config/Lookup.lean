import Extraction.Config.Reading
import Extraction.Host

/-! # Finding the configuration

A path given explicitly comes first, then the one in a variable, then the first
file among the candidates: next to the executable, and in the user's directory
of configurations. The file found is the only one that is read. Variables count
when they hold text.
-/

namespace Extraction.Config

/-- The name of the configuration in the directories where it is looked for. -/
def defaultFileName : String := "extmethods-config.yaml"

/-- The variable that holds the path of the configuration. -/
def pathVariable : String := "EXTMETHODS_CONFIG"

/-- Why a file's text cannot be read. -/
inductive ReadError
  | file (error : FileError)
  | notText
deriving DecidableEq, Repr

def ReadError.message : ReadError → String
  | file e => e.message
  | notText => "stream did not contain valid UTF-8"

/-- Why there is no configuration. -/
inductive LoadError
  | unreadable (path : Path) (cause : ReadError)
  | text (error : TextError)
  | notFound (searched : List Path)
deriving DecidableEq, Repr

def LoadError.message : LoadError → String
  | unreadable path cause => "failed to read config file " ++ path ++ ": " ++ cause.message
  | text error => error.message
  | notFound searched =>
    "no config file found (searched: " ++ ", ".intercalate searched ++ ")"

/-- The text of octets. -/
def textOf (octets : Octets) : Except ReadError String :=
  match octets.toString? with
  | some text => .ok text
  | none => .error .notText

/-- The text of a file. -/
def readText (host : Host) (path : Path) : Except ReadError String := do
  let octets ← (host.read path).mapError .file
  textOf octets

/-- The valid configuration in a file. -/
def ofFile (host : Host) (path : Path) : Except LoadError Config := do
  let text ← (readText host path).mapError (.unreadable path)
  (ofYaml text).mapError .text

/-- The user's directory of configurations. -/
def userDirectory (host : Host) : Option Path :=
  match host.lookupText "XDG_CONFIG_HOME" with
  | some directory => some directory
  | none => (host.lookupText "HOME").map (Path.join · ".config")

/-- Where the configuration is looked for, in order. -/
def candidates (host : Host) : List Path :=
  (host.executableDirectory.map (Path.join · defaultFileName)).toList ++
    ((userDirectory host).map fun directory =>
      Path.join (Path.join directory "extmethods") defaultFileName).toList

/-- The path of the configuration, if there is one. -/
def choose (host : Host) (explicit : Option Path) : Option Path :=
  match explicit with
  | some path => some path
  | none =>
    match host.lookupText pathVariable with
    | some path => some path
    | none => (candidates host).find? host.isFile

/-- All paths at which the configuration may be found. -/
def possiblePaths (host : Host) (explicit : Option Path) : List Path :=
  explicit.toList ++ (host.lookupText pathVariable).toList ++ candidates host

/-- Finds the configuration and reads it. -/
def load (host : Host) (explicit : Option Path) : Except LoadError (Config × Path) :=
  match choose host explicit with
  | some path => (ofFile host path).map (·, path)
  | none => .error (.notFound (candidates host))

end Extraction.Config
