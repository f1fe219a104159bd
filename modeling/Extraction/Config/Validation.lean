import Extraction.Config.Basic
import Extraction.Config.Url

/-! # Valid configurations

A configuration is checked from top to bottom; the first violation is
reported with the place of the offending field.
-/

namespace Extraction.Config

/-- A field of the configuration, by its indices and its name. -/
inductive Place
  | top (field : String)
  | extractor (index : Nat) (field : String)
  | method (extractor index : Nat) (field : String)
deriving DecidableEq, Repr

def Place.text : Place → String
  | top field => field
  | extractor index field => "Extractors[" ++ toString index ++ "]." ++ field
  | method outer index field =>
    "Extractors[" ++ toString outer ++ "].Methods[" ++ toString index ++ "]." ++ field

/-- What is wrong with a field. -/
inductive Reason
  | missing
  | unsupportedAlgorithm (given : String)
  | noMethods
  | notWebAddress
deriving DecidableEq, Repr

/-- The one checksum algorithm an extractor may declare. -/
def supportedAlgorithm : String := "sha256"

def Reason.text : Reason → String
  | missing => "is required"
  | unsupportedAlgorithm given =>
    "must be one of [" ++ supportedAlgorithm ++ "], got '" ++ given ++ "'"
  | noMethods => "must contain at least one method"
  | notWebAddress => "must be an http(s) URL"

/-- A field that breaks a rule. -/
structure Violation where
  place : Place
  reason : Reason
deriving DecidableEq, Repr

def Violation.message (v : Violation) : String :=
  "invalid config: " ++ v.place.text ++ " " ++ v.reason.text

/-- Refuses unless a condition holds. -/
def require (holds : Bool) (place : Place) (reason : Reason) : Except Violation Unit :=
  if holds then .ok () else .error ⟨place, reason⟩

/-- Refuses a blank text. -/
def requireText (value : String) (place : Place) : Except Violation Unit :=
  require (!Text.isBlank value) place .missing

/-- Checks the elements of a list in order, each with its index. -/
def validateEach {α : Type} (check : Nat → α → Except Violation Unit) :
    Nat → List α → Except Violation Unit
  | _, [] => .ok ()
  | index, item :: rest => do
    check index item
    validateEach check (index + 1) rest

def validateMethod (extractor index : Nat) (m : MethodEntry) : Except Violation Unit := do
  requireText m.name (.method extractor index "Name")
  requireText m.schema (.method extractor index "Schema")
  match m.url with
  | none => return ()
  | some url => require (isWebAddress url) (.method extractor index "Url") .notWebAddress

def validateExtractor (index : Nat) (e : ExtractorEntry) : Except Violation Unit := do
  requireText e.name (.extractor index "Name")
  requireText e.organization (.extractor index "GithubOrg")
  requireText e.project (.extractor index "GithubProject")
  requireText e.version (.extractor index "Version")
  requireText e.executable (.extractor index "Executable")
  requireText e.checksum (.extractor index "Checksum")
  requireText e.commandLineTemplate (.extractor index "CommandLineTemplate")
  require (e.checksumAlgorithm == supportedAlgorithm) (.extractor index "ChecksumAlg")
    (.unsupportedAlgorithm e.checksumAlgorithm)
  require (!e.methods.isEmpty) (.extractor index "Methods") .noMethods
  validateEach (validateMethod index) 0 e.methods

/-- Reports the first violation. A path may be blank, but not empty. -/
def validate (config : Config) : Except Violation Unit := do
  require (config.installationPath != "") (.top "InstallationPath") .missing
  require (config.schemasLocation != "") (.top "SchemasLocation") .missing
  validateEach validateExtractor 0 config.extractors

end Extraction.Config
