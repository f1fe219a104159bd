import Extraction.Catalog.Build
import Extraction.Command.Arguments
import Extraction.Command.Help
import Extraction.Command.Report
import Extraction.Config.Lookup
import Extraction.Json.OfTree
import Extraction.Json.Printer
import Extraction.Yaml.Printer

/-! # Running the command

The command lists the methods of the catalog, describes one of them, or decodes
a payload into records. It writes all of its output or, when it fails, nothing
but a report.
-/

namespace Extraction.Command

/-- What comes of a command line that is usable: the output, or a report. -/
abbrev Result := Except Report String

/-- What comes of a command line. -/
inductive Outcome
  | output (text : String)
  | failure (report : Report)
  | usage (error : UsageError)
  | help (topic : HelpTopic)
  | version
deriving DecidableEq, Repr

/-- Zero when all is well, two for an unusable command line, and one for any other failure. -/
def Outcome.exitCode : Outcome → Nat
  | output _ | help _ | version => 0
  | failure _ => 1
  | usage _ => 2

/-- What is written to standard output; a failure leaves it empty. -/
def Outcome.stdout : Outcome → String
  | output text => text
  | help topic => helpText topic
  | version => versionText
  | failure _ | usage _ => ""

/-- A tree in the words of a format, with the end of its last line. -/
def Format.write (format : Format) (tree : Tree) : String :=
  match format with
  | .json => (Json.Value.ofTree tree).prettyText
  | .yaml => Yaml.document tree

/-- The causes of a configuration's absence. -/
def causesOf (e : Config.LoadError) : List String :=
  e.message ::
    match e with
    | .unreadable _ cause => [cause.message]
    | .text (.unreadable failure) => [failure.message]
    | .text (.invalid _) => []
    | .notFound _ => []

/-- The configuration found on a host, or the report that there is none. -/
def loadConfig (host : Host) (explicit : Option Path) : Except Report Config :=
  match Config.load host explicit with
  | .ok (config, _) => .ok config
  | .error e => .error ⟨"Failed to load extractors config", causesOf e⟩

/-- The catalog of the configuration found on a host. -/
def loadCatalog (host : Host) (explicit : Option Path) : Except Report Catalog :=
  (loadConfig host explicit).map fun config => (Catalog.build host config).1

/-- All methods of the catalog. -/
def listMethods (host : Host) (explicit : Option Path) (format : Format) : Result := do
  let catalog ← loadCatalog host explicit
  return format.write (.list (catalog.records.map Record.toTree))

/-- A method and the extractor that offers it. -/
def detailsOf (m : CatalogMethod) (e : Option CatalogExtractor) : Tree :=
  .fields ([("Name", .text m.name), ("Schema", .text m.schema), ("Extractor", .text m.extractor)] ++
    Tree.optional "Executable" (e.map fun e => .text e.executablePath) ++
    Tree.optional "Version" (e.map fun e => .text e.version) ++
    Tree.optional "CommandLine" (e.map fun e => .text e.commandLine))

/-- One method of the catalog. -/
def describeMethod (host : Host) (name : String) (explicit : Option Path) (format : Format) :
    Result := do
  let catalog ← loadCatalog host explicit
  match catalog.method? name with
  | some m => return format.write (detailsOf m (catalog.extractorFor? name))
  | none => throw ⟨"Unknown extraction method: " ++ name, []⟩

/-- The payload: the operand, or standard input when there is none or a single hyphen. -/
def payloadText (input : Octets) (operand : Option String) : Except Report String :=
  match operand.filter (· != "-") with
  | some text => .ok text
  | none =>
    (Config.textOf input).mapError fun e => ⟨"Failed to read payload from stdin", [e.message]⟩

/-- The report of a payload that is not JSON. -/
def reportOf (e : DecodeError) : Report := ⟨e.message, [e.cause.message]⟩

/-- The tree of a payload's record, or of all its records. -/
def decodeTree (text : String) (isList : Bool) : Except DecodeError Tree :=
  if isList then
    (Record.listOfSource (.text text)).map fun records => .list (records.map Record.toTree)
  else (Record.ofSource (.text text)).map Record.toTree

/-- The records of a payload. -/
def decodePayload (input : Octets) (operand : Option String) (isList : Bool) (format : Format) :
    Result := do
  let text ← payloadText input operand
  let tree ← (decodeTree text isList).mapError reportOf
  return format.write tree

/-- The outcome of a result. -/
def Outcome.ofResult : Result → Outcome
  | .ok text => .output text
  | .error report => .failure report

/-- What comes of a command line on a host with some standard input. -/
def run (host : Host) (input : Octets) (arguments : List String) : Outcome :=
  match parse arguments with
  | .error e => .usage e
  | .ok (.list explicit format) => .ofResult (listMethods host explicit format)
  | .ok (.describe method explicit format) =>
    .ofResult (describeMethod host method explicit format)
  | .ok (.decode operand isList format) =>
    .ofResult (decodePayload input operand isList format)
  | .ok (.help topic) => .help topic
  | .ok .version => .version

end Extraction.Command
