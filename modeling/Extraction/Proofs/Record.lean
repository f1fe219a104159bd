import Extraction.Proofs.Json.RoundTrip
import Extraction.Record

/-!
# Records from values and from their text

A JSON value and the text it is written as are sources of the same records, as
long as the text nests no deeper than a document may. The value itself is never
refused; a text that nests deeper always is.
-/

namespace Extraction

namespace Record

variable {source : Source}

/-- Alone a source is taken for the record it would be among the elements of an array. -/
theorem ofSource_eq_ofElement {v : Json.Value} (h : source.decode = .ok v) :
    ofSource source = .ok (ofElement v) := by
  rw [ofSource, Source.members, h]
  cases v <;> rfl

theorem listOfSource_eq_map {items : List Json.Value} (h : source.decode = .ok (.array items)) :
    listOfSource source = .ok (items.map ofElement) := by
  rw [listOfSource, h]
  rfl

end Record

namespace Source

/-- Whatever is taken from one source is taken from the other one as well. -/
structure Agree (source other : Source) : Prop where
  decode : source.decode = other.decode
  members : source.members = other.members
  record : Record.ofSource source = Record.ofSource other
  records : Record.listOfSource source = Record.listOfSource other

/-- Nothing can be taken from a source, always for the same reason. -/
structure Refused (source : Source) (e : DecodeError) : Prop where
  decode : source.decode = .error e
  members : source.members = .error e
  record : Record.ofSource source = .error e
  records : Record.listOfSource source = .error e

/-- Whatever is asked of a source, something is taken from it. -/
structure Accepted (source : Source) : Prop where
  decode : ∃ v, source.decode = .ok v
  members : ∃ members, source.members = .ok members
  record : ∃ record, Record.ofSource source = .ok record
  records : ∃ records, Record.listOfSource source = .ok records

variable {source other : Source}

theorem decode_of_parse {t : String} {v : Json.Value} (h : Json.parse t = .ok v) :
    (text t).decode = .ok v := by
  rw [decode, h]
  rfl

/-- What is taken from a source depends on the value it is decoded to only. -/
theorem Agree.of_decode (h : source.decode = other.decode) : Agree source other := by
  have hmembers : source.members = other.members := by
    unfold Source.members
    rw [h]
  refine ⟨h, hmembers, ?_, ?_⟩
  · unfold Record.ofSource
    rw [hmembers]
  · unfold Record.listOfSource
    rw [h]

theorem Refused.of_decode {e : DecodeError} (h : source.decode = .error e) : Refused source e := by
  have hmembers : source.members = .error e := by
    unfold Source.members
    rw [h]
    rfl
  refine ⟨h, hmembers, ?_, ?_⟩
  · rw [Record.ofSource, hmembers]
    rfl
  · rw [Record.listOfSource, h]
    rfl

theorem accepted_value (v : Json.Value) : Accepted (.value v) :=
  ⟨⟨v, rfl⟩, ⟨_, rfl⟩, ⟨_, rfl⟩, ⟨_, rfl⟩⟩

/-- Up to 127 levels of containers a value and its text are sources of the same things; from 128 on
the text is refused as too deep, whatever is asked of it, and the value is not. -/
theorem text_agrees_with_value_up_to_127_levels {v : Json.Value} (hv : v.Exact) :
    (v.depth ≤ 127 → (Source.text v.compactText).decode = .ok v ∧
      Agree (.text v.compactText) (.value v)) ∧
    (128 ≤ v.depth →
      (∃ e, e.cause.fault = .tooDeep ∧ Refused (.text v.compactText) e) ∧ Accepted (.value v)) := by
  constructor
  · intro hdepth
    have hdecode : (Source.text v.compactText).decode = .ok v := by
      rw [decode, Json.parse_compactText hv hdepth]
      rfl
    exact ⟨hdecode, .of_decode hdecode⟩
  · intro hdeep
    obtain ⟨cause, hparse, hfault⟩ := Json.parse_compactText_of_deep hv hdeep
    have hdecode : (Source.text v.compactText).decode = .error ⟨cause⟩ := by
      rw [decode, hparse]
      rfl
    exact ⟨⟨⟨cause⟩, hfault, .of_decode hdecode⟩, accepted_value v⟩

/-- Keys and texts that need escapes, and the least and the greatest integer of 64 bits. -/
def escapesAndBounds : Json.Value :=
  .object [("Name", .string "say \"é\"\n"), ("Schema\x01", .array
    [.number (.integer (-9223372036854775808)), .number (.integer 18446744073709551615),
      .object [("", .null)], .bool true, .string "\\ 😀"])]

/-- Brackets in brackets. -/
def nested : Nat → Json.Value
  | 0 => .array []
  | n + 1 => .array [nested n]

theorem exact_escapesAndBounds : escapesAndBounds.Exact := by
  have hinner : (Json.Value.object [("", .null)]).Exact := by
    refine .object (List.pairwise_singleton _ _) ?_
    simpa using .null
  refine .object ?_ ?_
  · unfold Table.Sorted
    decide
  · simp only [List.forall_mem_cons]
    refine ⟨.string _, .array ?_, nofun⟩
    simp only [List.forall_mem_cons]
    exact ⟨.integer (by decide) (by decide), .integer (by decide) (by decide), hinner, .bool true,
      .string _, nofun⟩

theorem exact_nested (n : Nat) : (nested n).Exact := by
  induction n with
  | zero => exact .array nofun
  | succ n ih =>
      refine .array fun item hitem => ?_
      rw [List.mem_singleton.mp hitem]
      exact ih

theorem depth_nested (n : Nat) : (nested n).depth = n + 1 := by
  induction n with
  | zero => rfl
  | succ n ih => simp [nested, Json.Value.depth, Json.depthOfItems, ih]

theorem text_agrees_with_value_escapesAndBounds :
    ((Source.text escapesAndBounds.compactText).decode = .ok escapesAndBounds ∧
      Agree (.text escapesAndBounds.compactText) (.value escapesAndBounds)) ∧
    (∃ e, e.cause.fault = .tooDeep ∧ Refused (.text (nested 127).compactText) e) ∧
      Accepted (.value (nested 127)) :=
  ⟨(text_agrees_with_value_up_to_127_levels exact_escapesAndBounds).1 (by decide),
    (text_agrees_with_value_up_to_127_levels (exact_nested 127)).2
      (Nat.le_of_eq (depth_nested 127).symm)⟩

end Source

end Extraction
