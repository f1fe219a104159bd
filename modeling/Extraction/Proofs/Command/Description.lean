import Extraction.Command.Run
import Extraction.Proofs.Catalog.Provenance

/-!
# Describing a method

A registered method refers to its extractor by name, and the reference never
leads nowhere: an accepted extractor of that name answers. So a method is
described together with its extractor or not at all.
-/

namespace Extraction

namespace Catalog

variable {host : Host} {config : Config} {name : String}

theorem extractorFor?_eq_none {catalog : Catalog} (h : catalog.method? name = none) :
    catalog.extractorFor? name = none := by
  rw [Catalog.extractorFor?, h]
  rfl

/-- For a registered method an accepted extractor answers that has the name the method carries. -/
theorem exists_answer {M : CatalogMethod} (hM : (build host config).1.method? name = some M) :
    ∃ e ∈ config.extractors, Accepts host config e ∧ e.name = M.extractor ∧
      (build host config).1.extractorFor? name = some (installed config e) := by
  obtain ⟨before, e, after, hprovides⟩ :=
    (isSome_method?_iff_provides name).mp (Option.isSome_of_eq_some hM)
  obtain ⟨M', hM', hextractor⟩ := hprovides.method?
  obtain ⟨last, ⟨front, back, hsplit, haccepts, hname, _⟩, hanswer⟩ := hprovides.extractorFor?
  have hmem : last ∈ config.extractors := by
    rw [hprovides.split, hsplit]
    simp
  rw [hM, Option.some_inj] at hM'
  exact ⟨last, hmem, haccepts, by rw [hname, hM', hextractor], hanswer⟩

end Catalog

namespace Command

open Catalog

variable {host : Host} {name : String} {explicit : Option Path} {format : Format}

/-- What is told of a method and of the extractor that answers for it. -/
def description (M : CatalogMethod) (E : CatalogExtractor) : Tree :=
  .fields
    [("Name", .text M.name), ("Schema", .text M.schema), ("Extractor", .text M.extractor),
      ("Executable", .text E.executablePath), ("Version", .text E.version),
      ("CommandLine", .text E.commandLine)]

section Outcomes

variable {config : Config}

theorem listMethods_of_unloaded {report : Report} (h : loadConfig host explicit = .error report) :
    listMethods host explicit format = .error report := by
  simp only [listMethods, loadCatalog, h]
  rfl

theorem listMethods_of_loaded (h : loadConfig host explicit = .ok config) :
    listMethods host explicit format =
      .ok (format.write (.list ((build host config).1.records.map Record.toTree))) := by
  simp only [listMethods, loadCatalog, h]
  rfl

theorem describeMethod_of_unloaded {report : Report}
    (h : loadConfig host explicit = .error report) :
    describeMethod host name explicit format = .error report := by
  simp only [describeMethod, loadCatalog, h]
  rfl

theorem describeMethod_of_unknown (h : loadConfig host explicit = .ok config)
    (hM : (build host config).1.method? name = none) :
    describeMethod host name explicit format =
      .error ⟨"Unknown extraction method: " ++ name, []⟩ := by
  simp only [describeMethod, loadCatalog, h, Except.map, bind, Except.bind, hM]
  rfl

theorem describeMethod_of_known {M : CatalogMethod} {E : CatalogExtractor}
    (h : loadConfig host explicit = .ok config)
    (hM : (build host config).1.method? name = some M)
    (hE : (build host config).1.extractorFor? name = some E) :
    describeMethod host name explicit format = .ok (format.write (description M E)) := by
  simp only [describeMethod, loadCatalog, h, Except.map, bind, Except.bind, hM, hE]
  rfl

end Outcomes

/-- An extractor answers for a method exactly when the method is registered, and it is an accepted
one of the configuration, of the name the method carries and as the configuration has it, so its
template can be read. What is described is always a method with the extractor that answers for
it. -/
theorem extractorFor?_build_never_dangles (host : Host) :
    (∀ (config : Config) (name : String),
      (((build host config).1.extractorFor? name).isSome ↔
        ((build host config).1.method? name).isSome) ∧
      ((build host config).1.extractorFor? name = none ∨
        ∃ M e, (build host config).1.method? name = some M ∧ e ∈ config.extractors ∧
          Accepts host config e ∧ e.name = M.extractor ∧
          (build host config).1.extractorFor? name = some
            { executablePath := e.installPath config.installationPath
              commandLineTemplate := e.commandLineTemplate
              additionalArguments := " ".intercalate e.additionalParameters
              version := e.version } ∧
          Template.check e.commandLineTemplate = .ok ())) ∧
    ∀ (name : String) (explicit : Option Path) (format : Format) (text : String),
      describeMethod host name explicit format = .ok text ↔
        ∃ config M E, loadConfig host explicit = .ok config ∧
          (build host config).1.method? name = some M ∧
          (build host config).1.extractorFor? name = some E ∧
          text = format.write (description M E) := by
  constructor
  · intro config name
    cases hM : (build host config).1.method? name with
    | none =>
        have hE := extractorFor?_eq_none hM
        exact ⟨by rw [hE]; rfl, .inl hE⟩
    | some M =>
        obtain ⟨e, hmem, haccepts, hname, hE⟩ := exists_answer hM
        exact ⟨by rw [hE]; rfl, .inr ⟨M, e, rfl, hmem, haccepts, hname, hE, haccepts.readable⟩⟩
  · intro name explicit format text
    cases hload : loadConfig host explicit with
    | error report => simp [describeMethod_of_unloaded hload]
    | ok config =>
        cases hM : (build host config).1.method? name with
        | none => simp [describeMethod_of_unknown hload hM, hM]
        | some M =>
            obtain ⟨e, _, _, _, hE⟩ := exists_answer hM
            simp [describeMethod_of_known hload hM hE, hM, hE, eq_comm]

end Command

end Extraction
