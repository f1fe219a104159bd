import Extraction.Proofs.Catalog.Listing
import Extraction.Proofs.Command.Arguments
import Extraction.Proofs.Command.Description
import Extraction.Proofs.Command.WireForm

/-!
# Listing and describing agree

The methods are listed by walking through the catalog, and one is described by
looking it up. The two commands end together in one of four ways, so a method is
described exactly when it is listed, with the same schema.
-/

namespace Extraction

/-- An element of a list of records that has the name. -/
def Json.Value.IsNamed (name : String) (item : Json.Value) : Prop :=
  ∃ members, item = .object members ∧ members.lookup "Name" = some (.string name)

namespace Record

theorem isNamed_toValue_iff {name : String} {r : Record} :
    r.toValue.IsNamed name ↔ r.name = some name := by
  obtain ⟨text, schema⟩ := r
  rw [Json.Value.IsNamed, toValue_eq]
  cases text <;> cases schema <;> simp [Table.lookup_cons]

end Record

namespace Command

open Catalog

/-- A command that ends well and prints an array of these elements. -/
def Outcome.Lists (outcome : Outcome) (items : List Json.Value) : Prop :=
  outcome.exitCode = 0 ∧ Json.parse outcome.stdout = .ok (.array items)

variable {host : Host} {name : String} {explicit : Option Path}

theorem lists_records (rs : List Record) :
    (Outcome.output (Format.json.write (.list (rs.map Record.toTree)))).Lists
      (rs.map Record.toValue) := by
  refine ⟨rfl, ?_⟩
  rw [← Record.listToValue_eq]
  exact Json.parse_prettyText (Record.exact_listToValue rs)
    (Record.depth_listToValue_le_deepest rs)

/-- The members of what is printed about a method. -/
def descriptionMembers (M : CatalogMethod) (E : CatalogExtractor) : List (String × Json.Value) :=
  [("CommandLine", .string E.commandLine), ("Executable", .string E.executablePath),
    ("Extractor", .string M.extractor), ("Name", .string M.name), ("Schema", .string M.schema),
    ("Version", .string E.version)]

/-- The members are printed in another order than that of their keys, and read in this one. -/
theorem reads_description (M : CatalogMethod) (E : CatalogExtractor) :
    Json.Reads (Json.value Json.deepest).run ((Json.Value.ofTree (description M E)).pretty 0)
      (.object (descriptionMembers M E)) := by
  let printed : List (String × Json.Value) :=
    [("Name", .string M.name), ("Schema", .string M.schema), ("Extractor", .string M.extractor),
      ("Executable", .string E.executablePath), ("Version", .string E.version),
      ("CommandLine", .string E.commandLine)]
  have hexact : ∀ entry ∈ printed, entry.2.Exact := by
    simp only [printed, List.forall_mem_cons]
    exact ⟨.string _, .string _, .string _, .string _, .string _, .string _, nofun⟩
  have hdepth : (Json.Value.object printed).depth = 1 := rfl
  have hsorted : Table.ofBindings printed = descriptionMembers M E := rfl
  exact hsorted ▸ Json.reads_prettyObject_of_exact hexact (hdepth ▸ by decide)

theorem parse_description (M : CatalogMethod) (E : CatalogExtractor) :
    Json.parse (Format.json.write (description M E)) = .ok (.object (descriptionMembers M E)) :=
  Json.parse_prettyText_of_reads (reads_description M E)

theorem Outcome.Lists.unique {outcome : Outcome} {items others : List Json.Value}
    (h : outcome.Lists items) (hother : outcome.Lists others) : items = others := by
  have hparse := h.2.symm.trans hother.2
  cases hparse
  rfl

/-- How listing the methods and describing the one of a name end together. -/
inductive Ends (name : String) : Outcome → Outcome → Prop
  | unusable (e : UsageError) : Ends name (.usage e) (.usage e)
  | unloaded (report : Report) : Ends name (.failure report) (.failure report)
  | unknown {rs : List Record} (hothers : ∀ r ∈ rs, r.name ≠ some name) :
      Ends name (.output (Format.json.write (.list (rs.map Record.toTree))))
        (.failure ⟨"Unknown extraction method: " ++ name, []⟩)
  | known {before after : List Record} {M : CatalogMethod} (E : CatalogExtractor)
      (hname : M.name = name) (hothers : ∀ r ∈ before ++ after, r.name ≠ some name) :
      Ends name
        (.output (Format.json.write
          (.list ((before ++ Record.full name M.schema :: after).map Record.toTree))))
        (.output (Format.json.write (description M E)))

theorem ends_of_loaded {config : Config} (hload : loadConfig host explicit = .ok config) :
    Ends name (.ofResult (listMethods host explicit .json))
      (.ofResult (describeMethod host name explicit .json)) := by
  have hordered := ordered_build host config
  have hfilter := hordered.filter_records name
  rw [listMethods_of_loaded hload]
  cases hM : (build host config).1.method? name with
  | none =>
      rw [describeMethod_of_unknown hload hM]
      rw [hM] at hfilter
      refine .unknown fun r hr => ?_
      simpa using List.filter_eq_nil_iff.mp hfilter r hr
  | some M =>
      obtain ⟨e, _, _, _, hE⟩ := exists_answer hM
      rw [describeMethod_of_known hload hM hE]
      rw [hM] at hfilter
      obtain ⟨before, after, hrecords, hbefore, _, hafter⟩ := List.filter_eq_cons_iff.mp hfilter
      rw [hrecords]
      refine .known _ (hordered.name_of_method? hM) fun r hr => ?_
      rcases List.mem_append.mp hr with hr | hr
      · simpa using hbefore r hr
      · simpa using List.filter_eq_nil_iff.mp hafter r hr

/-- Both commands read the configuration alike, so what comes of the one tells what comes of the
other. -/
theorem ends (host : Host) (input input' : Octets) (explicit : Option Path) (name : String) :
    Ends name (run host input (listLine explicit))
      (run host input' (describeLine name explicit)) := by
  rw [run, run, parse_listLine, parse_describeLine]
  cases checkPath explicit with
  | error e => exact .unusable e
  | ok =>
      cases hload : loadConfig host explicit with
      | error report =>
          simp only [Except.map, listMethods_of_unloaded hload, describeMethod_of_unloaded hload]
          exact .unloaded report
      | ok config => exact ends_of_loaded hload

namespace Ends

variable {listed shown : Outcome}

/-- The one element of the name, with what is printed about the method of the name. -/
theorem shown_agrees (h : Ends name listed shown) (hshown : shown.exitCode = 0) :
    ∃ before item after schema, listed.Lists (before ++ item :: after) ∧
      item = .object [("Name", .string name), ("Schema", .string schema)] ∧
      (∀ other ∈ before ++ after, ¬ other.IsNamed name) ∧
      Record.ofSource (.text shown.stdout) = .ok (Record.full name schema) ∧
      ∃ commandLine executable extractor version, Json.parse shown.stdout = .ok (.object
        [("CommandLine", .string commandLine), ("Executable", .string executable),
          ("Extractor", .string extractor), ("Name", .string name), ("Schema", .string schema),
          ("Version", .string version)]) := by
  cases h with
  | unusable => cases hshown
  | unloaded => cases hshown
  | unknown => cases hshown
  | @known before after M E hname hothers =>
      subst hname
      have hparse := parse_description M E
      have hitems : (before ++ Record.full M.name M.schema :: after).map Record.toValue =
          before.map Record.toValue ++ (Record.full M.name M.schema).toValue ::
            after.map Record.toValue := by
        rw [List.map_append, List.map_cons]
      have hlists := hitems ▸ lists_records (before ++ Record.full M.name M.schema :: after)
      refine ⟨_, _, _, M.schema, hlists, rfl, ?_, ?_, ?_⟩
      · intro item hitem
        rw [← List.map_append] at hitem
        obtain ⟨r, hr, rfl⟩ := List.mem_map.mp hitem
        rw [Record.isNamed_toValue_iff]
        exact hothers r hr
      · rw [Record.ofSource, Source.members, Source.decode, Outcome.stdout, hparse]
        rfl
      · exact ⟨_, _, _, _, hparse⟩

theorem exitCode_eq_zero_of_listed (h : Ends name listed shown) {items : List Json.Value}
    (hlists : listed.Lists items) {item : Json.Value} (hitem : item ∈ items)
    (hnamed : item.IsNamed name) : shown.exitCode = 0 := by
  cases h with
  | unusable => cases hlists.1
  | unloaded => cases hlists.1
  | unknown hothers =>
      rw [hlists.unique (lists_records _)] at hitem
      obtain ⟨r, hr, rfl⟩ := List.mem_map.mp hitem
      exact absurd (Record.isNamed_toValue_iff.mp hnamed) (hothers r hr)
  | known => rfl

theorem shown_of_not_listed (h : Ends name listed shown) (hlisted : listed.exitCode = 0) :
    ∃ items, listed.Lists items ∧ ((∀ item ∈ items, ¬ item.IsNamed name) →
      shown = .failure ⟨"Unknown extraction method: " ++ name, []⟩) := by
  cases h with
  | unusable => cases hlisted
  | unloaded => cases hlisted
  | unknown => exact ⟨_, lists_records _, fun _ => rfl⟩
  | @known before after M E hname =>
      refine ⟨_, lists_records _, fun hnone => ?_⟩
      have hmem : (Record.full name M.schema).toValue ∈
          (before ++ Record.full name M.schema :: after).map Record.toValue :=
        List.mem_map_of_mem (by simp)
      have hnamed : (Record.full name M.schema).toValue.IsNamed name :=
        Record.isNamed_toValue_iff.mpr rfl
      exact absurd hnamed (hnone _ hmem)

theorem same_report (h : Ends name listed shown) (hlisted : listed.exitCode = 1) :
    ∃ report, listed = .failure report ∧ shown = .failure report := by
  cases h with
  | unusable => cases hlisted
  | unloaded report => exact ⟨report, rfl, rfl⟩
  | unknown => cases hlisted
  | known => cases hlisted

end Ends

theorem text_unknown (name : String) :
    (Report.mk ("Unknown extraction method: " ++ name) []).text =
      "Error: Unknown extraction method: " ++ name ++ "\n" := by
  have hprefix : "Error: Unknown extraction method: " =
      "Error: " ++ "Unknown extraction method: " := by decide
  have hnone : writeCauses [] = [] := rfl
  rw [Report.text, hnone, String.ofList_nil, String.append_empty, hprefix]
  simp only [String.append_assoc]

/-- A method is described exactly when one of its name is listed. Then it is the only one of its
name, and decoding what is printed about it gives the listed record; the keys of its extractor are
dropped. When none of the name is listed the name is reported as unknown, and when nothing can be
listed both commands report the same. -/
theorem describe_agrees_with_list (host : Host) (input input' : Octets) (explicit : Option Path)
    (name : String) :
    let listed := run host input (listLine explicit)
    let shown := run host input' (describeLine name explicit)
    (shown.exitCode = 0 ↔
      listed.exitCode = 0 ∧ ∃ items, Json.parse listed.stdout = .ok (.array items) ∧
        ∃ item ∈ items, item.IsNamed name) ∧
    (shown.exitCode = 0 → ∃ before item after schema,
      Json.parse listed.stdout = .ok (.array (before ++ item :: after)) ∧
      item = .object [("Name", .string name), ("Schema", .string schema)] ∧
      (∀ other ∈ before ++ after, ¬ other.IsNamed name) ∧
      Record.ofSource (.text shown.stdout) = .ok (Record.full name schema) ∧
      ∃ commandLine executable extractor version, Json.parse shown.stdout = .ok (.object
        [("CommandLine", .string commandLine), ("Executable", .string executable),
          ("Extractor", .string extractor), ("Name", .string name), ("Schema", .string schema),
          ("Version", .string version)])) ∧
    (listed.exitCode = 0 → ∃ items, Json.parse listed.stdout = .ok (.array items) ∧
      ((∀ item ∈ items, ¬ item.IsNamed name) → ∃ report, shown = .failure report ∧
        report.text = "Error: Unknown extraction method: " ++ name ++ "\n")) ∧
    (listed.exitCode = 1 → ∃ report, listed = .failure report ∧ shown = .failure report) := by
  intro listed shown
  have h : Ends name listed shown := ends host input input' explicit name
  refine ⟨⟨fun hshown => ?_, ?_⟩, fun hshown => ?_, fun hlisted => ?_, h.same_report⟩
  · obtain ⟨before, item, after, schema, hlists, hitem, _⟩ := h.shown_agrees hshown
    refine ⟨hlists.1, _, hlists.2, item, by simp, _, hitem, ?_⟩
    simp
  · rintro ⟨hcode, items, hparse, item, hitem, hnamed⟩
    exact h.exitCode_eq_zero_of_listed ⟨hcode, hparse⟩ hitem hnamed
  · obtain ⟨before, item, after, schema, hlists, hrest⟩ := h.shown_agrees hshown
    exact ⟨before, item, after, schema, hlists.2, hrest⟩
  · obtain ⟨items, hlists, hnone⟩ := h.shown_of_not_listed hlisted
    exact ⟨items, hlists.2, fun habsent => ⟨_, hnone habsent, text_unknown name⟩⟩

end Command

end Extraction
