import Extraction.Proofs.Base64
import Extraction.Proofs.Catalog.Schema

/-!
# Schemas in base64

A method carries the octets of one file, that of the first offer of its name
that can be used. The text of the method gives back these octets, whatever they
are, so methods with the same text have files with the same octets.
-/

namespace Extraction.Catalog

variable {host : Host} {config : Config} {name : String} {schema : Octets}

/-- The octets of the file a method is registered from: the schema of the first offer of its name
that can be used. -/
def RegisteredFrom (host : Host) (config : Config) (name : String) (schema : Octets) : Prop :=
  ∃ before o after, config.offers = before ++ o :: after ∧ o.method.name = name ∧
    Usable host config o schema ∧
    ∀ p ∈ before, p.method.name = name → ∀ schema, ¬ Usable host config p schema

theorem RegisteredFrom.method? (h : RegisteredFrom host config name schema) :
    ∃ M, (build host config).1.method? name = some M ∧ M.schema = Base64.encode schema := by
  obtain ⟨before, o, after, hsplit, hname, husable, hbefore⟩ := h
  refine ⟨⟨name, Base64.encode schema, o.extractor.name⟩, ?_, rfl⟩
  rw [method?_build_eq_some_iff]
  exact ⟨before, o, after, schema, hsplit, hname, husable, hbefore, rfl⟩

theorem exists_registeredFrom {M : CatalogMethod}
    (hM : (build host config).1.method? name = some M) :
    ∃ schema, RegisteredFrom host config name schema := by
  obtain ⟨before, o, after, schema, hsplit, hname, husable, hbefore, _⟩ :=
    method?_build_eq_some_iff.mp hM
  exact ⟨schema, before, o, after, hsplit, hname, husable, hbefore⟩

theorem RegisteredFrom.schema_eq (h : RegisteredFrom host config name schema) {M : CatalogMethod}
    (hM : (build host config).1.method? name = some M) : M.schema = Base64.encode schema := by
  obtain ⟨M', hM', hschema⟩ := h.method?
  obtain rfl := Option.some.inj (hM'.symm.trans hM)
  exact hschema

/-- Each method is registered from a file, and its schema is the octets of that file in base64: four
characters for each three octets begun, padding signs only for the octets missing at the end, and
the octets again when it is decoded. Two methods have the same schema only when their files hold the
same octets. -/
theorem schema_is_base64_of_file (host : Host) (config : Config) :
    (∀ name, ((build host config).1.method? name).isSome ↔
      ∃ schema, RegisteredFrom host config name schema) ∧
    (∀ name M schema, (build host config).1.method? name = some M →
      RegisteredFrom host config name schema →
      M.schema.length = 4 * ((schema.length + 2) / 3) ∧
        Base64.IsWritten schema M.schema.toList ∧ Base64.decode? M.schema = some schema) ∧
    ∀ name name' M M' schema schema',
      (build host config).1.method? name = some M →
      (build host config).1.method? name' = some M' →
      RegisteredFrom host config name schema → RegisteredFrom host config name' schema' →
      M.schema = M'.schema → schema = schema' := by
  refine ⟨fun name => ?_, ?_, ?_⟩
  · rw [Option.isSome_iff_exists]
    constructor
    · rintro ⟨M, hM⟩
      exact exists_registeredFrom hM
    · rintro ⟨schema, h⟩
      obtain ⟨M, hM, _⟩ := h.method?
      exact ⟨M, hM⟩
  · intro name M schema hM h
    rw [h.schema_eq hM]
    refine ⟨?_, ?_, Base64.decode?_encode schema⟩
    · rw [Base64.encode, String.length_ofList, Base64.length_encodeChars]
    · rw [Base64.encode, String.toList_ofList]
      exact Base64.isWritten_encodeChars schema
  · intro name name' M M' schema schema' hM hM' h h' heq
    rw [h.schema_eq hM, h'.schema_eq hM'] at heq
    exact Base64.encode_injective heq

/-- A string of octets that are no text. -/
def noText : Octets := [0x22, 0xFF, 0xFE, 0x22]

theorem schema_is_base64_of_file_noText :
    RegisteredFrom (hostOf noText) oneMethod "first" noText ∧
      "Iv/+Ig==".length = 4 * ((noText.length + 2) / 3) ∧
      Base64.IsWritten noText "Iv/+Ig==".toList ∧ Base64.decode? "Iv/+Ig==" = some noText := by
  have htemplate : Template.check "run" = .ok () := by cbv
  have hregistered : RegisteredFrom (hostOf noText) oneMethod "first" noText :=
    ⟨[], ⟨oneVersion "v1" "first", ⟨"first", "schema.json", none⟩⟩, [], rfl, rfl,
      ⟨⟨rfl, rfl, htemplate⟩, rfl, rfl, by decide⟩, List.forall_mem_nil _⟩
  obtain ⟨M, hM, hschema⟩ := hregistered.method?
  have hencoded : M.schema = "Iv/+Ig==" := hschema.trans (by decide)
  have hfile := (schema_is_base64_of_file _ _).2.1 "first" M noText hM hregistered
  rw [hencoded] at hfile
  exact ⟨hregistered, hfile⟩

end Extraction.Catalog
