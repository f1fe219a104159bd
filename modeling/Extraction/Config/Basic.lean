import Extraction.Path

/-! # The configuration of extractors

Which extractors there are, where they are installed, which methods each one
offers and where the methods' schemas lie.
-/

namespace Extraction

/-- A method an extractor offers. -/
structure MethodEntry where
  name : String := ""
  /-- The file of the schema, from the directory of schemas. -/
  schema : String := ""
  url : Option String := none
deriving DecidableEq, Repr

/-- An extractor. -/
structure ExtractorEntry where
  name : String := ""
  organization : String := ""
  project : String := ""
  version : String := ""
  executable : String := ""
  checksum : String := ""
  checksumAlgorithm : String := ""
  commandLineTemplate : String := ""
  additionalParameters : List String := []
  methods : List MethodEntry := []
deriving DecidableEq, Repr

/-- The extractors and where they and the schemas are installed. -/
structure Config where
  extractors : List ExtractorEntry := []
  installationPath : Path := ""
  schemasLocation : Path := ""
  downloadMissingExtractors : Bool := false
  downloadSchemas : Bool := false
  /-- For how many seconds an extractor may run. -/
  timeout : Option Nat := none
deriving DecidableEq, Repr

namespace ExtractorEntry

/-- Where the executable lies when extractors are installed under `root`. -/
def installPath (e : ExtractorEntry) (root : Path) : Path :=
  [e.organization, e.project, e.version, e.executable].foldl Path.join root

end ExtractorEntry

namespace Config

/-- Where the schema of a method lies. -/
def schemaPath (config : Config) (method : MethodEntry) : Path :=
  Path.join config.schemasLocation method.schema

end Config

end Extraction
