import Extraction.Command.Run
import Extraction.Proofs.Json.Pretty
import Extraction.Proofs.Record

/-!
# The wire form of records

A record is written as an object of its fields that are present, in one line or
indented, and a list of records as an array. What is written is a source of the
same records again, so what the command lists can be decoded.
-/

namespace Extraction

namespace Json

theorem ofTrees_eq_map (items : List Tree) : ofTrees items = items.map Value.ofTree := by
  induction items with
  | nil => rfl
  | cons item rest ih => rw [ofTrees, ih, List.map_cons]

end Json

namespace Record

/-- The JSON value of a record. -/
def toValue (r : Record) : Json.Value := .ofTree r.toTree

/-- The JSON value of a list of records. -/
def listToValue (rs : List Record) : Json.Value := .ofTree (.list (rs.map toTree))

theorem listToValue_eq (rs : List Record) : listToValue rs = .array (rs.map toValue) := by
  rw [listToValue, Json.Value.ofTree, Json.ofTrees_eq_map, List.map_map]
  rfl

/-- The fields that are present are the members, in the order of their keys. -/
theorem toValue_eq (r : Record) : r.toValue = .object
    ((r.name.map fun text => ("Name", .string text)).toList ++
      (r.schema.map fun text => ("Schema", .string text)).toList) := by
  obtain ⟨name, schema⟩ := r
  cases name <;> cases schema <;> rfl

theorem exact_toValue (r : Record) : r.toValue.Exact := by
  have horder : Text.before "Name" "Schema" = true := by decide
  rw [toValue_eq]
  refine .object ?_ ?_
  · cases r.name <;> cases r.schema <;> simp [Table.Sorted, horder]
  · intro entry hentry
    rcases List.mem_append.mp hentry with h | h
    · obtain ⟨text, _, rfl⟩ := Option.map_eq_some_iff.mp (Option.mem_toList.mp h)
      exact .string text
    · obtain ⟨text, _, rfl⟩ := Option.map_eq_some_iff.mp (Option.mem_toList.mp h)
      exact .string text

theorem depth_toValue (r : Record) : r.toValue.depth = 1 := by
  obtain ⟨name, schema⟩ := r
  cases name <;> cases schema <;> rfl

theorem exact_listToValue (rs : List Record) : (listToValue rs).Exact := by
  rw [listToValue_eq]
  refine .array fun item hitem => ?_
  obtain ⟨r, _, rfl⟩ := List.mem_map.mp hitem
  exact r.exact_toValue

theorem depth_listToValue_le (rs : List Record) : (listToValue rs).depth ≤ 2 := by
  rw [listToValue_eq, Json.Value.depth]
  refine Nat.succ_le_succ (Json.depthOfItems_le_iff.mpr fun item hitem => ?_)
  obtain ⟨r, _, rfl⟩ := List.mem_map.mp hitem
  exact Nat.le_of_eq r.depth_toValue

theorem depth_toValue_le_deepest (r : Record) : r.toValue.depth ≤ Json.deepest :=
  Nat.le_trans (Nat.le_of_eq r.depth_toValue) (by decide)

theorem depth_listToValue_le_deepest (rs : List Record) :
    (listToValue rs).depth ≤ Json.deepest :=
  Nat.le_trans (depth_listToValue_le rs) (by decide)

theorem ofElement_toValue (r : Record) : ofElement r.toValue = r := by
  obtain ⟨name, schema⟩ := r
  cases name <;> cases schema <;> rfl

/-- A text that is decoded to the value of a record is a source of the record. -/
theorem ofSource_of_decode {source : Source} {r : Record} (h : source.decode = .ok r.toValue) :
    ofSource source = .ok r := by
  rw [ofSource_eq_ofElement h, ofElement_toValue]

theorem listOfSource_of_decode {source : Source} {rs : List Record}
    (h : source.decode = .ok (listToValue rs)) : listOfSource source = .ok rs := by
  rw [listToValue_eq] at h
  rw [listOfSource_eq_map h, List.map_map]
  exact congrArg Except.ok (List.map_id'' ofElement_toValue rs)

end Record

/-- Both texts of a value are decoded to the value. -/
theorem Source.decode_written {v : Json.Value} (hv : v.Exact) (hdepth : v.depth ≤ Json.deepest) :
    (Source.text v.compactText).decode = .ok v ∧ (Source.text v.prettyText).decode = .ok v :=
  ⟨decode_of_parse (Json.parse_compactText hv hdepth),
    decode_of_parse (Json.parse_prettyText hv hdepth)⟩

open Command in
/-- Records are read back from what they are written as, in one line or indented, one by one or as
a list, and so are the records of a catalog from what the command lists. -/
theorem Record.of_written :
    (∀ r : Record,
      ofSource (.text (Json.Value.ofTree r.toTree).compactText) = .ok r ∧
      ofSource (.text (Format.json.write r.toTree)) = .ok r) ∧
    (∀ rs : List Record,
      listOfSource (.text (Json.Value.ofTree (.list (rs.map toTree))).compactText) = .ok rs ∧
      listOfSource (.text (Format.json.write (.list (rs.map toTree)))) = .ok rs) ∧
    ∀ (host : Host) (explicit : Option Path),
      (listMethods host explicit .json).map (fun text => listOfSource (.text text)) =
        (loadCatalog host explicit).map fun catalog => .ok catalog.records := by
  have hlist (rs : List Record) :
      listOfSource (.text (listToValue rs).compactText) = .ok rs ∧
        listOfSource (.text (listToValue rs).prettyText) = .ok rs := by
    obtain ⟨hcompact, hpretty⟩ := Source.decode_written (exact_listToValue rs)
      (Nat.le_trans (depth_listToValue_le rs) (by decide))
    exact ⟨listOfSource_of_decode hcompact, listOfSource_of_decode hpretty⟩
  refine ⟨fun r => ?_, hlist, fun host explicit => ?_⟩
  · obtain ⟨hcompact, hpretty⟩ := Source.decode_written r.exact_toValue
      (Nat.le_trans (Nat.le_of_eq r.depth_toValue) (by decide))
    exact ⟨ofSource_of_decode hcompact, ofSource_of_decode hpretty⟩
  · unfold listMethods
    cases loadCatalog host explicit with
    | error report => rfl
    | ok catalog => exact congrArg Except.ok (hlist catalog.records).2

end Extraction
