import Extraction.Catalog.Build

/-!
# What a configuration offers

An offer is a method together with the extractor that lists it. Whether it can
be used is a matter of the host alone: the extractor is installed and its
template can be read, and the schema of the method is a JSON document. Nothing
here depends on what else the configuration holds.
-/

namespace Extraction

/-- A method and the extractor that offers it. -/
structure Offer where
  extractor : ExtractorEntry
  method : MethodEntry
deriving DecidableEq, Repr

/-- The methods of an extractor. -/
def ExtractorEntry.offers (e : ExtractorEntry) : List Offer := e.methods.map (⟨e, ·⟩)

/-- The methods of all extractors, in the order of the configuration. -/
def Config.offers (config : Config) : List Offer :=
  config.extractors.flatMap ExtractorEntry.offers

namespace Catalog

/-- The executable of an extractor is installed and is no command of the system, and its template
can be read. -/
structure Accepts (host : Host) (config : Config) (e : ExtractorEntry) : Prop where
  isFile : host.isFile (e.installPath config.installationPath) = true
  notCommand : host.isCommand e.executable = false
  readable : Template.check e.commandLineTemplate = .ok ()

/-- The schema of a method is a file with these octets, which are a JSON document. -/
structure HasSchema (host : Host) (config : Config) (m : MethodEntry) (schema : Octets) : Prop where
  isPresent : host.isPresent (config.schemaPath m) = true
  read : host.read (config.schemaPath m) = .ok schema
  isDocument : Json.isDocument schema = true

/-- An offer that can be used, and the octets of its schema. -/
structure Usable (host : Host) (config : Config) (o : Offer) (schema : Octets) : Prop where
  accepts : Accepts host config o.extractor
  hasSchema : HasSchema host config o.method schema

variable {host : Host} {config : Config}

theorem verifyInstallation_eq_ok_iff {path : Path} {e : ExtractorEntry} :
    verifyInstallation host path e = .ok () ↔
      host.isFile path = true ∧ host.isCommand e.executable = false := by
  unfold verifyInstallation
  cases host.isFile path <;> cases host.isCommand e.executable <;> simp

theorem checkExtractor_eq_ok_iff {e : ExtractorEntry} :
    checkExtractor host (e.installPath config.installationPath) e = .ok () ↔
      Accepts host config e := by
  constructor
  · intro h
    obtain ⟨_, hinstalled, htemplate⟩ := ok_of_bind h
    obtain ⟨hfile, hcommand⟩ := verifyInstallation_eq_ok_iff.mp (ok_of_mapError hinstalled)
    exact ⟨hfile, hcommand, ok_of_mapError htemplate⟩
  · rintro ⟨hfile, hcommand, htemplate⟩
    simp only [checkExtractor, verifyInstallation_eq_ok_iff.mpr ⟨hfile, hcommand⟩, htemplate]
    rfl

theorem readSchema_eq_ok_iff {m : MethodEntry} {schema : Octets} :
    readSchema host (config.schemaPath m) = .ok schema ↔ HasSchema host config m schema := by
  constructor
  · intro h
    unfold readSchema at h
    split at h
    next => cases h
    next hpresent =>
      split at h
      next => cases h
      next hread =>
        split at h
        next hdocument =>
          cases h
          exact ⟨by simpa using hpresent, hread, hdocument⟩
        next => cases h
  · rintro ⟨hpresent, hread, hdocument⟩
    simp [readSchema, hpresent, hread, hdocument]

/-- The method under a name that an offer leads to, if it is of that name and can be used. -/
def taken? (host : Host) (config : Config) (name : String) (o : Offer) : Option CatalogMethod :=
  match checkExtractor host (o.extractor.installPath config.installationPath) o.extractor,
    readSchema host (config.schemaPath o.method) with
  | .ok _, .ok schema =>
    if o.method.name = name then some ⟨name, Base64.encode schema, o.extractor.name⟩ else none
  | _, _ => none

theorem taken?_eq_some_iff {name : String} {o : Offer} {M : CatalogMethod} :
    taken? host config name o = some M ↔
      o.method.name = name ∧ ∃ schema, Usable host config o schema ∧
        M = ⟨name, Base64.encode schema, o.extractor.name⟩ := by
  constructor
  · intro h
    unfold taken? at h
    split at h
    next hcheck hread =>
      split at h
      next hname =>
        cases h
        exact ⟨hname, _, ⟨checkExtractor_eq_ok_iff.mp hcheck, readSchema_eq_ok_iff.mp hread⟩, rfl⟩
      next => cases h
    next => cases h
  · rintro ⟨hname, schema, ⟨haccepts, hschema⟩, rfl⟩
    simp [taken?, checkExtractor_eq_ok_iff.mpr haccepts, readSchema_eq_ok_iff.mpr hschema, hname]

theorem taken?_eq_none_iff {name : String} {o : Offer} :
    taken? host config name o = none ↔
      (o.method.name = name → ∀ schema, ¬ Usable host config o schema) := by
  rw [Option.eq_none_iff_forall_ne_some]
  constructor
  · intro h hname schema husable
    exact h _ (taken?_eq_some_iff.mpr ⟨hname, schema, husable, rfl⟩)
  · intro h M hM
    obtain ⟨hname, schema, husable, _⟩ := taken?_eq_some_iff.mp hM
    exact h hname schema husable

end Catalog

end Extraction
