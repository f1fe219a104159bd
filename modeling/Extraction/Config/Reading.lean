import Extraction.Config.Validation
import Extraction.Yaml.Reading

/-! # Configurations from YAML

A configuration is a mapping with known keys. Every key may be missing, and
then has the default of its type.
-/

namespace Extraction

open Yaml (Document Node Step Reading)
open Yaml.Document (FieldReader)

namespace MethodEntry

def fields (d : Document) : List (FieldReader MethodEntry) := [
  ⟨"Name", fun path node m => return { m with name := ← d.readText "a string" path node }⟩,
  ⟨"Schema", fun path node m => return { m with schema := ← d.readText "a string" path node }⟩,
  ⟨"Url", fun path node m =>
    return { m with url := ← d.readOptional (d.readText "a string") path node }⟩]

/-- Reads a method. -/
def ofNode (d : Document) : List Step → Node → Reading MethodEntry :=
  d.readStructure "MethodConfig" (fields d) {}

end MethodEntry

namespace ExtractorEntry

def fields (d : Document) : List (FieldReader ExtractorEntry) := [
  ⟨"Name", fun path node e => return { e with name := ← d.readText "a string" path node }⟩,
  ⟨"GithubOrg", fun path node e =>
    return { e with organization := ← d.readText "a string" path node }⟩,
  ⟨"GithubProject", fun path node e =>
    return { e with project := ← d.readText "a string" path node }⟩,
  ⟨"Version", fun path node e => return { e with version := ← d.readText "a string" path node }⟩,
  ⟨"Executable", fun path node e =>
    return { e with executable := ← d.readText "a string" path node }⟩,
  ⟨"Checksum", fun path node e => return { e with checksum := ← d.readText "a string" path node }⟩,
  ⟨"ChecksumAlg", fun path node e =>
    return { e with checksumAlgorithm := ← d.readText "a string" path node }⟩,
  ⟨"CommandLineTemplate", fun path node e =>
    return { e with commandLineTemplate := ← d.readText "a string" path node }⟩,
  ⟨"AdditionalParameters", fun path node e =>
    return { e with
      additionalParameters := ← d.readList (d.readText "a string") path node }⟩,
  ⟨"Methods", fun path node e =>
    return { e with methods := ← d.readList (MethodEntry.ofNode d) path node }⟩]

/-- Reads an extractor. -/
def ofNode (d : Document) : List Step → Node → Reading ExtractorEntry :=
  d.readStructure "ExtractorConfig" (fields d) {}

end ExtractorEntry

namespace Config

def fields (d : Document) : List (FieldReader Config) := [
  ⟨"Extractors", fun path node c =>
    return { c with extractors := ← d.readList (ExtractorEntry.ofNode d) path node }⟩,
  ⟨"InstallationPath", fun path node c =>
    return { c with installationPath := ← d.readText "path string" path node }⟩,
  ⟨"SchemasLocation", fun path node c =>
    return { c with schemasLocation := ← d.readText "path string" path node }⟩,
  ⟨"DownloadMissingExtractors", fun path node c =>
    return { c with downloadMissingExtractors := ← d.readBool path node }⟩,
  ⟨"DownloadSchemas", fun path node c =>
    return { c with downloadSchemas := ← d.readBool path node }⟩,
  ⟨"Timeout", fun path node c =>
    return { c with timeout := ← d.readOptional d.readNatural path node }⟩]

/-- Reads a configuration. -/
def ofNode (d : Document) : List Step → Node → Reading Config :=
  d.readStructure "ExtractorsConfig" (fields d) {}

/-- The configuration in a document. -/
def ofDocument (d : Document) : Except Yaml.Failure Config := d.read (ofNode d)

/-- Why a text is no valid configuration. -/
inductive TextError
  | unreadable (failure : Yaml.Failure)
  | invalid (violation : Violation)
deriving DecidableEq, Repr

def TextError.message : TextError → String
  | unreadable failure => "failed to parse config: " ++ failure.message
  | invalid violation => violation.message

/-- Checks a configuration that has been read. -/
def checked (read : Except Yaml.Failure Config) : Except TextError Config := do
  let config ← read.mapError .unreadable
  config.validate.mapError .invalid
  return config

/-- The valid configuration in a YAML text. -/
def ofYaml (text : String) : Except TextError Config :=
  checked (ofDocument (Yaml.documentOf text.toList))

end Config

end Extraction
