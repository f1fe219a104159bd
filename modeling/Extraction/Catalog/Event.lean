import Extraction.Host
import Extraction.Template

/-! # Events of building a catalog

Everything that is left out of a catalog is told in an event.
-/

namespace Extraction.Catalog

/-- Why an extractor cannot be used. -/
inductive InstallationFault
  | missing
  | onSearchPath
deriving DecidableEq, Repr

def InstallationFault.message : InstallationFault → String
  | missing => "expected extractor executable does not exist"
  | onSearchPath => "executable file found in PATH of the system"

/-- Why a schema cannot be used. -/
inductive SchemaFault
  | missing
  | unreadable (error : FileError)
  | notJson
deriving DecidableEq, Repr

def SchemaFault.message : SchemaFault → String
  | missing => "schema file not found"
  | unreadable error => "failed to read schema file: " ++ error.message
  | notJson => "schema file does not contain valid json"

/-- Something that happens while a catalog is built. -/
inductive Event
  | registering (extractor : String)
  | downloadUnsupported (extractor : String)
  | notInstalled (extractor : String) (path : Path) (fault : InstallationFault)
  | badTemplate (extractor template : String) (fault : Template.Fault)
  | repeatedMethod (method : String)
  | unusableSchema (method : String) (file : Path) (fault : SchemaFault)
deriving DecidableEq, Repr

/-- How much an event matters. -/
inductive Level
  | info
  | warning
  | error
deriving DecidableEq, Repr

def Level.text : Level → String
  | info => "INFO"
  | warning => "WARN"
  | error => "ERROR"

namespace Event

def level : Event → Level
  | registering _ => .info
  | downloadUnsupported _ => .warning
  | _ => .error

def message : Event → String
  | registering _ => "Registering extractor"
  | downloadUnsupported _ =>
    "Downloading extractors is not supported, using existing installation"
  | notInstalled .. => "Installation verification failed"
  | badTemplate .. => "Failed to parse extractor commandline template"
  | repeatedMethod _ => "Duplicate method name found. Skipping."
  | unusableSchema .. => "Schema unusable. Skipping."

/-- What an event is about, by names. -/
def fields : Event → List (String × String)
  | registering extractor => [("name", extractor)]
  | downloadUnsupported extractor => [("name", extractor)]
  | notInstalled extractor path fault =>
    [("name", extractor), ("path", path), ("error", fault.message)]
  | badTemplate extractor template fault =>
    [("name", extractor), ("template", template), ("error", fault.message)]
  | repeatedMethod method => [("method", method)]
  | unusableSchema method file fault =>
    [("method", method), ("file", file), ("error", fault.message)]

end Event

end Extraction.Catalog
