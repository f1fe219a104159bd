import Extraction.Config.Reading
import Extraction.Proofs.Yaml.Shape

/-!
# The shape of configurations

Configurations, extractors and methods are structures with known fields, one
within the lists of the other. What is read from a document that says something
is the configuration in what it says.
-/

namespace Extraction

open Yaml (Answers Content Document FieldType Slot Shape)

def MethodEntry.shape : Shape MethodEntry where
  name := "MethodConfig"
  slots := [
    .text "Name" "a string" fun name m => { m with name },
    .text "Schema" "a string" fun schema m => { m with schema },
    .optional "Url" (·.readText "a string") Content.text? (·.answers_readText "a string")
      fun url m => { m with url }]
  initial := {}
  commute := by simp [Slot.Commutes, Slot.text, Slot.optional]
  absent := by simp [Slot.text, Slot.optional]

theorem MethodEntry.answers_ofNode (d : Document) :
    Answers (MethodEntry.ofNode d) MethodEntry.shape.value? :=
  Shape.answers_read d

def ExtractorEntry.shape : Shape ExtractorEntry where
  name := "ExtractorConfig"
  slots := [
    .text "Name" "a string" fun name e => { e with name },
    .text "GithubOrg" "a string" fun organization e => { e with organization },
    .text "GithubProject" "a string" fun project e => { e with project },
    .text "Version" "a string" fun version e => { e with version },
    .text "Executable" "a string" fun executable e => { e with executable },
    .text "Checksum" "a string" fun checksum e => { e with checksum },
    .text "ChecksumAlg" "a string" fun checksumAlgorithm e => { e with checksumAlgorithm },
    .text "CommandLineTemplate" "a string" fun commandLineTemplate e =>
      { e with commandLineTemplate },
    .list "AdditionalParameters" (·.readText "a string") Content.text?
      (·.answers_readText "a string") fun additionalParameters e => { e with additionalParameters },
    .list "Methods" MethodEntry.ofNode MethodEntry.shape.value? MethodEntry.answers_ofNode
      fun methods e => { e with methods }]
  initial := {}
  commute := by simp [Slot.Commutes, Slot.text, Slot.list]
  absent := by simp [Slot.text, Slot.list]

theorem ExtractorEntry.answers_ofNode (d : Document) :
    Answers (ExtractorEntry.ofNode d) ExtractorEntry.shape.value? :=
  Shape.answers_read d

def Config.shape : Shape Config where
  name := "ExtractorsConfig"
  slots := [
    .list "Extractors" ExtractorEntry.ofNode ExtractorEntry.shape.value?
      ExtractorEntry.answers_ofNode fun extractors c => { c with extractors },
    .text "InstallationPath" "path string" fun installationPath c => { c with installationPath },
    .text "SchemasLocation" "path string" fun schemasLocation c => { c with schemasLocation },
    .flag "DownloadMissingExtractors" fun downloadMissingExtractors c =>
      { c with downloadMissingExtractors },
    .flag "DownloadSchemas" fun downloadSchemas c => { c with downloadSchemas },
    .optional "Timeout" Document.readNatural Content.natural? Document.answers_readNatural
      fun timeout c => { c with timeout }]
  initial := {}
  commute := by simp [Slot.Commutes, Slot.text, Slot.flag, Slot.list, Slot.optional]
  absent := by simp [Slot.text, Slot.flag, Slot.list, Slot.optional]

theorem Config.answers_ofNode (d : Document) : Answers (Config.ofNode d) Config.shape.value? :=
  Shape.answers_read d

namespace Config

/-- An entry whose key and value stand without quotes. -/
def plainEntry (key value : String) : Content × Content :=
  (.scalar key.toList true, .scalar value.toList true)

variable {d : Document} {content : Content}

theorem ofDocument_eq_ok (hd : d.Says content) {c : Config} (hc : shape.value? content = some c) :
    ofDocument d = .ok c :=
  hd.read_eq_ok (answers_ofNode d) hc

theorem exists_ofDocument_eq_error (hd : d.Says content) (hnone : shape.value? content = none) :
    ∃ failure, ofDocument d = .error failure :=
  hd.exists_read_eq_error (answers_ofNode d) hnone

theorem checked_ok {c : Config} (h : c.validate = .ok ()) : checked (.ok c) = .ok c := by
  change (c.validate.mapError TextError.invalid >>= fun _ => pure c) = _
  rw [h]
  rfl

theorem checked_ok_of_invalid {c : Config} {v : Violation} (h : c.validate = .error v) :
    checked (.ok c) = .error (.invalid v) := by
  change (c.validate.mapError TextError.invalid >>= fun _ => pure c) = _
  rw [h]
  rfl

end Config

end Extraction
