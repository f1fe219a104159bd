import Extraction.Config.Writing
import Extraction.Proofs.Config.Shape
import Extraction.Proofs.Yaml.Written
import Extraction.Yaml.Printer

/-!
# Configurations that are written are read back

What is left out of a configuration's tree is what a missing field counts as, and
every other field is read back under the name it is written with. So a document
that presents the tree of a configuration is read as this configuration.
-/

namespace Extraction

open Yaml (Content Document Presents Shape)
open Yaml.Shape (writes_text writes_flag writes_list writes_optional)

theorem MethodEntry.value?_of_presents {m : MethodEntry} {content : Content}
    (h : Presents m.toTree content) : shape.value? content = some m := by
  obtain ⟨name, schema, url⟩ := m
  have hrequired : List.Forall₂ shape.Writes [("Name", .text name), ("Schema", .text schema)] _ :=
    .cons (writes_text rfl) (.cons (writes_text rfl) .nil)
  cases url with
  | none => exact Shape.value?_of_presents hrequired (by simp) h
  | some url =>
      have hurl : List.Forall₂ shape.Writes [("Url", .text url)] _ :=
        .cons (writes_optional rfl fun _ h => h.optional?_text_eq) .nil
      exact Shape.value?_of_presents (List.rel_append hrequired hurl) (by simp) h

theorem ExtractorEntry.value?_of_presents {e : ExtractorEntry} {content : Content}
    (h : Presents e.toTree content) : shape.value? content = some e := by
  obtain ⟨name, organization, project, version, executable, checksum, checksumAlgorithm,
    commandLineTemplate, additionalParameters, methods⟩ := e
  have hrequired : List.Forall₂ shape.Writes
      [("Name", .text name), ("GithubOrg", .text organization), ("GithubProject", .text project),
        ("Version", .text version), ("Executable", .text executable), ("Checksum", .text checksum),
        ("ChecksumAlg", .text checksumAlgorithm),
        ("CommandLineTemplate", .text commandLineTemplate)] _ :=
    .cons (writes_text rfl) <| .cons (writes_text rfl) <| .cons (writes_text rfl) <|
    .cons (writes_text rfl) <| .cons (writes_text rfl) <| .cons (writes_text rfl) <|
    .cons (writes_text rfl) <| .cons (writes_text rfl) .nil
  have hmethods : List.Forall₂ shape.Writes
      [("Methods", .list (methods.map MethodEntry.toTree))] _ :=
    .cons (writes_list rfl (fun _ _ => MethodEntry.value?_of_presents) methods) .nil
  cases additionalParameters with
  | nil =>
      exact Shape.value?_of_presents (List.rel_append hrequired hmethods) (by simp) h
  | cons first more =>
      have hparameters : List.Forall₂ shape.Writes
          [("AdditionalParameters", .list ((first :: more).map .text))] _ :=
        .cons (writes_list rfl (fun _ _ h => h.text?_eq) (first :: more)) .nil
      exact Shape.value?_of_presents
        (List.rel_append hrequired (List.rel_append hparameters hmethods)) (by simp) h

namespace Config

theorem value?_of_presents {c : Config} (htimeout : ∀ seconds ∈ c.timeout, seconds < UInt64.size)
    {content : Content} (h : Presents c.toTree content) : shape.value? content = some c := by
  obtain ⟨extractors, installationPath, schemasLocation, downloadMissingExtractors, downloadSchemas,
    timeout⟩ := c
  have hrequired : List.Forall₂ shape.Writes
      [("Extractors", .list (extractors.map ExtractorEntry.toTree)),
        ("InstallationPath", .text installationPath), ("SchemasLocation", .text schemasLocation),
        ("DownloadMissingExtractors", .flag downloadMissingExtractors),
        ("DownloadSchemas", .flag downloadSchemas)] _ :=
    .cons (writes_list rfl (fun _ _ => ExtractorEntry.value?_of_presents) extractors) <|
    .cons (writes_text rfl) <| .cons (writes_text rfl) <| .cons (writes_flag rfl) <|
    .cons (writes_flag rfl) .nil
  cases timeout with
  | none => exact Shape.value?_of_presents hrequired (by simp) h
  | some seconds =>
      have hseconds : List.Forall₂ shape.Writes [("Timeout", .natural seconds)] _ :=
        .cons (writes_optional rfl fun _ h => h.optional?_natural_eq (htimeout seconds rfl)) .nil
      exact Shape.value?_of_presents (List.rel_append hrequired hseconds) (by simp) h

/-- A document that presents the tree of a configuration is read as this configuration. So if its
YAML text is a document that presents its tree, what is read from the text is the configuration when
it is valid, and its violation otherwise. -/
theorem ofDocument_of_presents (c : Config)
    (htimeout : ∀ seconds ∈ c.timeout, seconds < UInt64.size) :
    (∀ (d : Document) (content : Content), d.Says content → Presents c.toTree content →
      ofDocument d = .ok c) ∧
    ∀ content, (Yaml.documentOf (Yaml.document c.toTree).toList).Says content →
      Presents c.toTree content →
      (c.validate = .ok () → ofYaml (Yaml.document c.toTree) = .ok c) ∧
      (∀ v, c.validate = .error v → ofYaml (Yaml.document c.toTree) = .error (.invalid v)) ∧
      ∀ failure, ofYaml (Yaml.document c.toTree) ≠ .error (.unreadable failure) := by
  have hread : ∀ (d : Document) (content : Content), d.Says content → Presents c.toTree content →
      ofDocument d = .ok c := by
    intro d content hd h
    exact ofDocument_eq_ok hd (value?_of_presents htimeout h)
  refine ⟨hread, ?_⟩
  intro content hd h
  have hchecked : ofYaml (Yaml.document c.toTree) = checked (.ok c) := by
    rw [ofYaml, hread _ content hd h]
  rw [hchecked]
  refine ⟨checked_ok, fun v => checked_ok_of_invalid, fun failure => ?_⟩
  cases hvalid : c.validate with
  | ok => rw [checked_ok hvalid]; exact nofun
  | error v => rw [checked_ok_of_invalid hvalid]; exact nofun

/-- A configuration of an extractor with parameters and a method with an address, and with a
directory that would be taken for nothing. -/
def nullDirectory : Config :=
  { extractors := [
      { name := "reader"
        organization := "lab"
        project := "tools"
        version := "v1"
        executable := "reader"
        checksum := "0"
        checksumAlgorithm := "sha256"
        commandLineTemplate := "run"
        additionalParameters := ["--quiet", "yes"]
        methods := [⟨"first", "schema.json", some "https://lab.org/first"⟩] }]
    installationPath := "a"
    schemasLocation := "null"
    timeout := some 30 }

/-- What the method of `nullDirectory` is written as. -/
def firstMethodContent : Content :=
  .mapping [
    plainEntry "Name" "first",
    plainEntry "Schema" "schema.json",
    plainEntry "Url" "https://lab.org/first"]

/-- What the extractor of `nullDirectory` is written as. -/
def quietReaderContent : Content :=
  .mapping [
    plainEntry "Name" "reader",
    plainEntry "GithubOrg" "lab",
    plainEntry "GithubProject" "tools",
    plainEntry "Version" "v1",
    plainEntry "Executable" "reader",
    (.scalar "Checksum".toList true, .scalar "0".toList false),
    plainEntry "ChecksumAlg" "sha256",
    plainEntry "CommandLineTemplate" "run",
    (.scalar "AdditionalParameters".toList true,
      .sequence [.scalar "--quiet".toList true, .scalar "yes".toList true]),
    (.scalar "Methods".toList true, .sequence [firstMethodContent])]

/-- What the document of `nullDirectory` says. -/
def nullDirectoryContent : Content :=
  .mapping [
    (.scalar "Extractors".toList true, .sequence [quietReaderContent]),
    plainEntry "InstallationPath" "a",
    (.scalar "SchemasLocation".toList true, .scalar "null".toList false),
    plainEntry "DownloadMissingExtractors" "false",
    plainEntry "DownloadSchemas" "false",
    plainEntry "Timeout" "30"]

theorem ofDocument_of_presents_nullDirectory :
    (Yaml.documentOf (Yaml.document nullDirectory.toTree).toList).Says nullDirectoryContent ∧
      Presents nullDirectory.toTree nullDirectoryContent ∧
      ofYaml (Yaml.document nullDirectory.toTree) = .ok nullDirectory := by
  have hdocument : (Yaml.documentOf (Yaml.document nullDirectory.toTree).toList).Says
      nullDirectoryContent := by
    rw [Yaml.document, String.toList_ofList]
    decide +kernel
  have hmethod : Presents
      (MethodEntry.toTree ⟨"first", "schema.json", some "https://lab.org/first"⟩)
      firstMethodContent :=
    .fields <| .cons rfl (.text "first" rfl) <| .cons rfl (.text "schema.json" rfl) <|
      .cons rfl (.text "https://lab.org/first" rfl) .nil
  have hreader : ∀ e ∈ nullDirectory.extractors, Presents e.toTree quietReaderContent := by
    refine List.forall_mem_singleton.mpr ?_
    exact .fields <| .cons rfl (.text "reader" rfl) <| .cons rfl (.text "lab" rfl) <|
      .cons rfl (.text "tools" rfl) <| .cons rfl (.text "v1" rfl) <|
      .cons rfl (.text "reader" rfl) <| .cons rfl (.text "0" rfl) <|
      .cons rfl (.text "sha256" rfl) <| .cons rfl (.text "run" rfl) <|
      .cons rfl (.list (.cons (.text "--quiet" rfl) (.cons (.text "yes" rfl) .nil))) <|
      .cons rfl (.list (.cons hmethod .nil)) .nil
  have hpresents : Presents nullDirectory.toTree nullDirectoryContent :=
    .fields <| .cons rfl (.list (.cons (hreader _ List.mem_cons_self) .nil)) <|
      .cons rfl (.text "a" rfl) <| .cons rfl (.text "null" rfl) <| .cons rfl (.flag false) <|
      .cons rfl (.flag false) <| .cons rfl (.natural 30) .nil
  have htimeout : ∀ seconds ∈ nullDirectory.timeout, seconds < UInt64.size := by
    rintro _ ⟨⟩
    decide
  have hvalid : nullDirectory.validate = .ok () := by cbv
  obtain ⟨_, hread⟩ := ofDocument_of_presents nullDirectory htimeout
  exact ⟨hdocument, hpresents, (hread _ hdocument hpresents).1 hvalid⟩

end Config

end Extraction
