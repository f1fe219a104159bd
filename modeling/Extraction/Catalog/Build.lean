import Extraction.Base64
import Extraction.Catalog.Event
import Extraction.Config.Basic
import Extraction.Json.Gate
import Extraction.Record
import Extraction.Table

/-! # The catalog of methods

A catalog is built from a configuration and what the host answers. An extractor
is taken in when its executable is installed, is not also a command of the
system, and its template can be read; a method when no method of that name has
been taken in before and its schema is a JSON document. What is not taken in is
told in events and does not keep the rest out.
-/

namespace Extraction

/-- A method of the catalog. -/
structure CatalogMethod where
  name : String
  /-- The octets of the schema, in base64. -/
  schema : String
  /-- The name of the extractor that offers the method. -/
  extractor : String
deriving DecidableEq, Repr

/-- An extractor of the catalog. -/
structure CatalogExtractor where
  executablePath : Path
  commandLineTemplate : String
  additionalArguments : String
  version : String
deriving DecidableEq, Repr

/-- The command line with what is known of the extractor put in. -/
def CatalogExtractor.commandLine (e : CatalogExtractor) : String :=
  Template.render e.commandLineTemplate e.executablePath e.additionalArguments

/-- Methods and extractors by their names. -/
structure Catalog where
  methods : Table CatalogMethod := []
  extractors : Table CatalogExtractor := []

namespace Catalog

def method? (catalog : Catalog) (name : String) : Option CatalogMethod :=
  catalog.methods.lookup name

/-- The extractor that offers a method. -/
def extractorFor? (catalog : Catalog) (method : String) : Option CatalogExtractor := do
  let m ← catalog.method? method
  catalog.extractors.lookup m.extractor

def isEmpty (catalog : Catalog) : Bool := catalog.methods.isEmpty

/-- The records of all methods, in the order of their names. -/
def records (catalog : Catalog) : List Record :=
  catalog.methods.map fun (_, m) => Record.full m.name m.schema

/-- Whether the executable of an extractor is installed and the only one of its name. -/
def verifyInstallation (host : Host) (path : Path) (e : ExtractorEntry) :
    Except InstallationFault Unit :=
  if !host.isFile path then .error .missing
  else if host.isCommand e.executable then .error .onSearchPath
  else .ok ()

/-- The octets of a schema. -/
def readSchema (host : Host) (path : Path) : Except SchemaFault Octets :=
  if !host.isPresent path then .error .missing
  else
    match host.read path with
    | .error e => .error (.unreadable e)
    | .ok schema => if Json.isDocument schema then .ok schema else .error .notJson

/-- The catalog with one method of an extractor taken in, or the event that tells why not. -/
def addMethod (host : Host) (config : Config) (e : ExtractorEntry) (catalog : Catalog)
    (m : MethodEntry) : Catalog × List Event :=
  if (catalog.method? m.name).isSome then (catalog, [.repeatedMethod m.name])
  else
    let path := config.schemaPath m
    match readSchema host path with
    | .error fault => (catalog, [.unusableSchema m.name path fault])
    | .ok schema =>
      let entry : CatalogMethod :=
        { name := m.name, schema := Base64.encode schema, extractor := e.name }
      ({ catalog with methods := catalog.methods.insert m.name entry }, [])

/-- Takes things in one after the other, and tells the events of all. -/
def addEach {α : Type} (add : Catalog → α → Catalog × List Event) (catalog : Catalog) :
    List α → Catalog × List Event
  | [] => (catalog, [])
  | a :: rest =>
    let (catalog, events) := add catalog a
    let (catalog, more) := addEach add catalog rest
    (catalog, events ++ more)

/-- An extractor as it stands in the catalog. -/
def extractorOf (e : ExtractorEntry) (path : Path) : CatalogExtractor :=
  { executablePath := path
    commandLineTemplate := e.commandLineTemplate
    additionalArguments := " ".intercalate e.additionalParameters
    version := e.version }

/-- Whether an extractor can be used, or the event that tells why not. -/
def checkExtractor (host : Host) (path : Path) (e : ExtractorEntry) : Except Event Unit := do
  (verifyInstallation host path e).mapError (.notInstalled e.name path)
  (Template.check e.commandLineTemplate).mapError (.badTemplate e.name e.commandLineTemplate)

/-- The events that announce an extractor. -/
def announce (config : Config) (e : ExtractorEntry) : List Event :=
  .registering e.name ::
    if config.downloadMissingExtractors then [.downloadUnsupported e.name] else []

/-- The catalog with an extractor and its methods taken in. -/
def addExtractor (host : Host) (config : Config) (catalog : Catalog) (e : ExtractorEntry) :
    Catalog × List Event :=
  let path := e.installPath config.installationPath
  match checkExtractor host path e with
  | .error event => (catalog, announce config e ++ [event])
  | .ok _ =>
    let (catalog, events) := addEach (addMethod host config e) catalog e.methods
    ({ catalog with extractors := catalog.extractors.insert e.name (extractorOf e path) },
      announce config e ++ events)

/-- The catalog of a configuration, and what happened while it was built. -/
def build (host : Host) (config : Config) : Catalog × List Event :=
  addEach (addExtractor host config) {} config.extractors

end Catalog

end Extraction
