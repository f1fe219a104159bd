import Extraction.Proofs.Command.Agreement
import Extraction.Proofs.Json.Line

/-!
# What the command prints

A command line ends in one of five ways, and only the two in which something
went wrong leave standard output empty. What a request prints as JSON is one
document and a line end, whatever the names and texts in it are, so it can be
read again and passes the gate.
-/

namespace Extraction

namespace Yaml

theorem document_ne_empty {tree : Tree} (h : writeTree 0 false tree ≠ []) :
    document tree ≠ "" := by
  intro hempty
  rw [document, String.ofList_eq_empty_iff] at hempty
  exact h hempty

theorem writeTree_list_ne_nil (items : List Tree) : writeTree 0 false (.list items) ≠ [] := by
  cases items with
  | nil => exact List.cons_ne_nil _ _
  | cons item rest => cases rest <;> simp [writeTree, writeItems]

theorem writeTree_fields_ne_nil (entries : List (String × Tree)) :
    writeTree 0 false (.fields entries) ≠ [] := by
  cases entries with
  | nil => exact List.cons_ne_nil _ _
  | cons entry rest => cases rest <;> simp [writeTree, writeFields]

end Yaml

namespace Command

open Catalog

/-- The format a request asks for; the help pages and the version have none. -/
def Request.format? : Request → Option Format
  | .list _ format | .describe _ _ format | .decode _ _ format => some format
  | .help _ | .version => none

/-- The trees that are printed: all records, one record, or a method with its extractor. -/
inductive Printed : Tree → Prop
  | records (rs : List Record) : Printed (.list (rs.map Record.toTree))
  | record (r : Record) : Printed r.toTree
  | method (M : CatalogMethod) (E : CatalogExtractor) : Printed (description M E)

namespace Printed

variable {tree : Tree}

theorem isDocumentLine (h : Printed tree) : Json.IsDocumentLine (Format.json.write tree) := by
  cases h with
  | records rs =>
      have hcontainer : 0 < (Record.listToValue rs).depth := by
        rw [Record.listToValue_eq]
        exact Nat.succ_pos _
      exact Json.isDocumentLine_prettyText hcontainer
        (Json.reads_pretty (Record.exact_listToValue rs) (Record.depth_listToValue_le_deepest rs) 0)
  | record r =>
      have hcontainer : 0 < r.toValue.depth := Nat.lt_of_lt_of_eq Nat.one_pos r.depth_toValue.symm
      exact Json.isDocumentLine_prettyText hcontainer
        (Json.reads_pretty r.exact_toValue r.depth_toValue_le_deepest 0)
  | method M E => exact Json.isDocumentLine_prettyText (Nat.succ_pos _) (reads_description M E)

theorem write_ne_empty (h : Printed tree) (format : Format) : format.write tree ≠ "" := by
  cases format with
  | json => exact h.isDocumentLine.ne_empty
  | yaml =>
      apply Yaml.document_ne_empty
      cases h with
      | records => exact Yaml.writeTree_list_ne_nil _
      | record => exact Yaml.writeTree_fields_ne_nil _
      | method => exact Yaml.writeTree_fields_ne_nil _

end Printed

/-- What comes of a request for some format: a report, or all of the output. -/
inductive Prints (format : Format) : Result → Prop
  | report (report : Report) : Prints format (.error report)
  | tree {tree : Tree} (h : Printed tree) : Prints format (.ok (format.write tree))

section Requests

variable (host : Host) (explicit : Option Path) (format : Format)

theorem prints_listMethods : Prints format (listMethods host explicit format) := by
  cases hload : loadConfig host explicit with
  | error report =>
      rw [listMethods_of_unloaded hload]
      exact .report report
  | ok config =>
      rw [listMethods_of_loaded hload]
      exact .tree (.records _)

/-- There is an extractor for every method that is described. -/
theorem prints_describeMethod (name : String) :
    Prints format (describeMethod host name explicit format) := by
  cases hload : loadConfig host explicit with
  | error report =>
      rw [describeMethod_of_unloaded hload]
      exact .report report
  | ok config =>
      cases hM : (build host config).1.method? name with
      | none =>
          rw [describeMethod_of_unknown hload hM]
          exact .report _
      | some M =>
          obtain ⟨e, _, _, _, hE⟩ := exists_answer hM
          rw [describeMethod_of_known hload hM hE]
          exact .tree (.method M _)

theorem printed_of_decodeTree {text : String} {isList : Bool} {tree : Tree}
    (h : decodeTree text isList = .ok tree) : Printed tree := by
  cases isList with
  | true =>
      obtain ⟨rs, _, htree⟩ := ok_of_map h
      exact htree ▸ .records rs
  | false =>
      obtain ⟨r, _, htree⟩ := ok_of_map h
      exact htree ▸ .record r

theorem prints_decodePayload (input : Octets) (operand : Option String) (isList : Bool) :
    Prints format (decodePayload input operand isList format) := by
  rw [decodePayload]
  cases payloadText input operand with
  | error report => exact .report report
  | ok text =>
      simp only [bind, Except.bind]
      cases htree : decodeTree text isList with
      | error e => exact .report (reportOf e)
      | ok tree => exact .tree (printed_of_decodeTree htree)

end Requests

/-- The ways in which a command line ends. -/
inductive Ending (arguments : List String) : Outcome → Prop
  | usage {e : UsageError} (h : parse arguments = .error e) : Ending arguments (.usage e)
  | result {request : Request} {format : Format} {result : Result}
      (h : parse arguments = .ok request) (hformat : request.format? = some format)
      (hprints : Prints format result) : Ending arguments (.ofResult result)
  | help {topic : HelpTopic} (h : parse arguments = .ok (.help topic)) :
      Ending arguments (.help topic)
  | version (h : parse arguments = .ok .version) : Ending arguments .version

theorem ending (host : Host) (input : Octets) (arguments : List String) :
    Ending arguments (run host input arguments) := by
  rw [run]
  cases h : parse arguments with
  | error e => exact .usage h
  | ok request =>
      cases request with
      | list explicit format => exact .result h rfl (prints_listMethods host explicit format)
      | describe name explicit format =>
          exact .result h rfl (prints_describeMethod host explicit format name)
      | decode operand isList format =>
          exact .result h rfl (prints_decodePayload format input operand isList)
      | help => exact .help h
      | version => exact .version h

theorem helpText_ne_empty (topic : HelpTopic) : helpText topic ≠ "" := by
  cases topic with
  | command => decide
  | subcommand s => cases s <;> decide
  | help => decide

namespace Ending

variable {arguments : List String} {outcome : Outcome}

theorem stdout_eq_empty_iff (h : Ending arguments outcome) :
    outcome.stdout = "" ↔ outcome.exitCode ≠ 0 := by
  cases h with
  | usage => exact iff_of_true rfl (Nat.succ_ne_zero _)
  | result _ _ hprints =>
      cases hprints with
      | report => exact iff_of_true rfl (Nat.succ_ne_zero _)
      | tree htree => exact iff_of_false (htree.write_ne_empty _) (not_not_intro rfl)
  | help => exact iff_of_false (helpText_ne_empty _) (not_not_intro rfl)
  | version => exact iff_of_false (by decide) (not_not_intro rfl)

theorem isDocumentLine {request : Request} (h : Ending arguments outcome)
    (hparse : parse arguments = .ok request) (hformat : request.format? = some .json)
    (hexit : outcome.exitCode = 0) : Json.IsDocumentLine outcome.stdout := by
  cases h with
  | usage => cases hexit
  | result hparse' hformat' hprints =>
      rw [hparse, Except.ok.injEq] at hparse'
      rw [← hparse', hformat, Option.some.injEq] at hformat'
      cases hprints with
      | report => cases hexit
      | tree htree => exact hformat' ▸ htree.isDocumentLine
  | help hhelp =>
      rw [hparse, Except.ok.injEq] at hhelp
      rw [hhelp] at hformat
      cases hformat
  | version hversion =>
      rw [hparse, Except.ok.injEq] at hversion
      rw [hversion] at hformat
      cases hformat

end Ending

/-- Standard output is empty exactly when the exit status is not zero. When a request for JSON
succeeds, it is one document and a line end, whatever the configuration or the payload holds, and
both the reader and the gate take it. -/
theorem stdout_is_all_or_nothing (host : Host) (input : Octets) (arguments : List String) :
    let outcome := run host input arguments
    (outcome.stdout = "" ↔ outcome.exitCode ≠ 0) ∧
    ∀ request, parse arguments = .ok request → request.format? = some .json →
      outcome.exitCode = 0 → Json.IsDocumentLine outcome.stdout := by
  intro outcome
  have h : Ending arguments outcome := ending host input arguments
  exact ⟨h.stdout_eq_empty_iff, fun _ => h.isDocumentLine⟩

/-- The arguments that decode a list with an escaped control character, a field that is not a text,
and an element that is not an object. -/
def decodeUneven : List String :=
  ["decode", "--list", "--", "[\x7b\"Name\":\"-\\u0000\",\"Schema\":7\x7d,null]"]

theorem stdout_is_all_or_nothing_uneven :
    (run fullHost [] decodeUneven).exitCode = 0 ∧
      Json.IsDocumentLine (run fullHost [] decodeUneven).stdout ∧
      (run fullHost [0xFF] ["decode", "-"]).stdout = "" := by
  have hexit : (run fullHost [] decodeUneven).exitCode = 0 := by decide +kernel
  have hfailed : (run fullHost [0xFF] ["decode", "-"]).exitCode ≠ 0 := by decide +kernel
  exact ⟨hexit, (stdout_is_all_or_nothing fullHost [] decodeUneven).2 _ rfl rfl hexit,
    (stdout_is_all_or_nothing fullHost [0xFF] ["decode", "-"]).1.mpr hfailed⟩

end Command

end Extraction
