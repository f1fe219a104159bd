import Extraction.Proofs.Json.Spelling
import Extraction.Proofs.Record

/-!
# The members a record is taken from

However an object is written, its record is taken from the last member of each
key. What stands there instead of a string hides the strings in front of it, and
members with other keys change nothing.
-/

namespace Extraction

namespace Json.Value

/-- The text of a string. -/
def text? : Value → Option String
  | .string text => some text
  | _ => none

theorem text?_settled (v : Value) : v.settled.text? = v.text? := by
  cases v with
  | array => rw [settled]; rfl
  | object => rw [settled]; rfl
  | _ => rfl

end Json.Value

namespace Record

open Json (Document Phrase SpellsChar SpellsText SpellsUnit Value)

variable {key : String} {members : List (String × Value)} {found : Option String}

/-- The text of the last member with a key, if it is a string. -/
def lastText (key : String) (members : List (String × Value)) : Option String :=
  (members.filter (·.1 = key)).getLast?.bind fun entry => entry.2.text?

/-- What is found under a key: the text of the last member that has it, and nothing when that is no
string or no member has the key. -/
inductive IsLastText (key : String) : List (String × Value) → Option String → Prop
  | string {before after : List (String × Value)} {text : String} :
      (∀ entry ∈ after, entry.1 ≠ key) →
      IsLastText key (before ++ (key, .string text) :: after) (some text)
  | other {before after : List (String × Value)} {v : Value} : (∀ text, v ≠ .string text) →
      (∀ entry ∈ after, entry.1 ≠ key) → IsLastText key (before ++ (key, v) :: after) none
  | absent {members : List (String × Value)} : (∀ entry ∈ members, entry.1 ≠ key) →
      IsLastText key members none

theorem filter_of_absent (h : ∀ entry ∈ members, entry.1 ≠ key) :
    members.filter (·.1 = key) = [] := by
  simpa [List.filter_eq_nil_iff] using h

/-- The last member with a key is the one behind which no other has it. -/
theorem lastText_of_last (v : Value) {before after : List (String × Value)}
    (h : ∀ entry ∈ after, entry.1 ≠ key) :
    lastText key (before ++ (key, v) :: after) = v.text? := by
  simp [lastText, filter_of_absent h]

theorem isLastText_lastText (key : String) (members : List (String × Value)) :
    IsLastText key members (lastText key members) := by
  cases hlast : (members.filter (·.1 = key)).getLast? with
  | none =>
      rw [lastText, hlast]
      exact .absent (by simpa [List.filter_eq_nil_iff] using hlast)
  | some entry =>
      obtain ⟨front, hfilter⟩ := List.getLast?_eq_some_iff.mp hlast
      obtain ⟨before, rest, rfl, -, hrest⟩ := List.filter_eq_append_iff.mp hfilter
      obtain ⟨between, after, rfl, -, hkey, hafter⟩ := List.filter_eq_cons_iff.mp hrest
      obtain ⟨name, v⟩ := entry
      obtain rfl : name = key := of_decide_eq_true hkey
      have habsent : ∀ entry ∈ after, entry.1 ≠ name := by
        simpa [List.filter_eq_nil_iff] using hafter
      rw [← List.append_assoc, lastText_of_last v habsent]
      cases v with
      | string text => exact .string habsent
      | _ => exact .other (by simp) habsent

/-- Exactly one thing is found under a key. -/
theorem lastText_eq_iff : lastText key members = found ↔ IsLastText key members found := by
  refine ⟨fun h => h ▸ isLastText_lastText key members, fun h => ?_⟩
  cases h with
  | string hafter => exact lastText_of_last _ hafter
  | @other _ _ v hv hafter =>
      rw [lastText_of_last v hafter]
      cases v with
      | string text => exact absurd rfl (hv text)
      | _ => rfl
  | absent hmembers => rw [lastText, filter_of_absent hmembers]; rfl

theorem stringMember_eq_bind (key : String) (members : List (String × Value)) :
    stringMember key members = (members.lookup key).bind Value.text? := by
  unfold stringMember
  cases members.lookup key with
  | none => rfl
  | some v => cases v <;> rfl

/-- What the table of an object has under a key is its last member with that key. -/
theorem stringMember_settled (key : String) (members : List (String × Value)) :
    stringMember key (Table.ofBindings (Json.settledMembers members)) = lastText key members := by
  have hfilter : (Json.settledMembers members).filter (·.1 = key) =
      (members.filter (·.1 = key)).map fun entry => (entry.1, entry.2.settled) := by
    rw [Json.settledMembers_eq_map, List.filter_map]
    rfl
  rw [stringMember_eq_bind, Table.lookup_ofBindings, hfilter, List.getLast?_map, lastText]
  cases (members.filter (·.1 = key)).getLast? with
  | none => rfl
  | some entry => exact entry.2.text?_settled

theorem ofSource_text_of_spells {d : Document Char} (h : d.value.Spells (Value.object members))
    (hdepth : ∀ entry ∈ members, entry.2.depth ≤ 126) :
    ofSource (.text (String.ofList d.written)) =
      .ok ⟨lastText "Name" members, lastText "Schema" members⟩ := by
  have hobject : (Value.object members).depth ≤ Json.deepest :=
    Nat.succ_le_succ (Json.depthOfMembers_le_iff.mpr hdepth)
  have hdecode := Source.decode_of_parse (Json.parse_of_spells h hobject)
  rw [ofSource_eq_ofElement hdecode, Value.settled, ofElement, ofMembers, stringMember_settled,
    stringMember_settled]

/-- From an object in any spelling, in which no member nests deeper than 126 levels, a record is
taken, with what is found under the names of its fields. Any other object whose members with these
names are the same gives the same record. -/
theorem ofSource_of_spells {d : Document Char} (h : d.value.Spells (Value.object members))
    (hdepth : ∀ entry ∈ members, entry.2.depth ≤ 126) :
    ∃ record, ofSource (.text (String.ofList d.written)) = .ok record ∧
      IsLastText "Name" members record.name ∧ IsLastText "Schema" members record.schema ∧
      ∀ (other : Document Char) (members' : List (String × Value)),
        other.value.Spells (Value.object members') →
        (∀ entry ∈ members', entry.2.depth ≤ 126) →
        (∀ key ∈ ["Name", "Schema"], members'.filter (·.1 = key) = members.filter (·.1 = key)) →
        ofSource (.text (String.ofList other.written)) = .ok record := by
  refine ⟨_, ofSource_text_of_spells h hdepth, isLastText_lastText "Name" members,
    isLastText_lastText "Schema" members, fun other members' hother hdepth' hsame => ?_⟩
  obtain ⟨hname, hschema, _⟩ := by simpa only [List.forall_mem_cons] using hsame
  rw [ofSource_text_of_spells hother hdepth', lastText, lastText, hname, hschema]
  rfl

/-- A name that is hidden by a list, its key written with an escape, and a schema that begins with
two units. -/
def hiddenName : String :=
  "\t\x7b\"Name\":\"a\", \"N\\u0061me\" : [-1],\"Schema\":\"\\ud83D\\uDE00\\/ \"\x7d\n"

def hiddenNameMembers : List (String × Value) :=
  [("Name", .string "a"), ("Name", .array [.number (.integer (-1))]), ("Schema", .string "😀/ ")]

theorem exists_spells_hiddenName :
    ∃ d : Document Char, String.ofList d.written = hiddenName ∧
      d.value.Spells (Value.object hiddenNameMembers) := by
  have hrest : SpellsText _ ['m', 'e'] := .raw (by decide) (.raw (by decide) .nil)
  have hname : SpellsText _ ['N', 'a', 'm', 'e'] := .raw (by decide) (.raw (by decide) hrest)
  have hescaped : SpellsText _ ['N', 'a', 'm', 'e'] :=
    .raw (by decide) <| .cons (.units <| .cons ⟨⟨'0', by decide⟩, ⟨'0', by decide⟩,
      ⟨'6', by decide⟩, ⟨'1', by decide⟩, rfl, rfl, rfl, rfl, rfl⟩ .nil)
      hrest
  have hschema : SpellsText _ ['S', 'c', 'h', 'e', 'm', 'a'] :=
    .raw (by decide) <| .raw (by decide) <| .raw (by decide) <| .raw (by decide) <|
      .raw (by decide) <| .raw (by decide) .nil
  have ha : SpellsText _ ['a'] := .raw (by decide) .nil
  have hunits : List.Forall₂ SpellsUnit [
      .unit ⟨'d', by decide⟩ ⟨'8', by decide⟩ ⟨'3', by decide⟩ ⟨'D', by decide⟩,
      .unit ⟨'D', by decide⟩ ⟨'E', by decide⟩ ⟨'0', by decide⟩ ⟨'0', by decide⟩]
      (Json.unitsOf '😀') := by
    have heq : Json.unitsOf '😀' = [0xD83D, 0xDE00] := by decide
    rw [heq]
    exact .cons ⟨_, _, _, _, rfl, rfl, rfl, rfl, rfl⟩ <|
      .cons ⟨_, _, _, _, rfl, rfl, rfl, rfl, rfl⟩ .nil
  have hslash : SpellsChar [.escaped ⟨'/', by decide⟩] '/' := .letter (by decide)
  have hface : SpellsText _ ['😀', '/', ' '] :=
    .cons (.units hunits) (.cons hslash (.raw (by decide) .nil))
  have hone : Phrase.Spells (.number ⟨true, .digits ⟨'1', by decide⟩ [], none, none⟩)
    (Value.number (.integer (-1))) := .integer (by decide) (by decide) (by decide)
  have hmembers : Phrase.Spells (p := .value) _ (Value.object hiddenNameMembers) :=
    .object <| .more (.member [] [] [] [] hname (.string ha)) <|
      .more (.member [⟨' ', by decide⟩] [⟨' ', by decide⟩] [⟨' ', by decide⟩] [] hescaped
        (.array (.last (.element [] [] hone)))) <|
      .last (.member [] [] [] [] hschema (.string hface))
  exact ⟨⟨[⟨'\t', by decide⟩], _, [⟨'\n', by decide⟩]⟩, rfl, hmembers⟩

theorem ofSource_of_spells_hiddenName :
    (∃ d : Document Char, String.ofList d.written = hiddenName ∧
      d.value.Spells (Value.object hiddenNameMembers)) ∧
    ofSource (.text hiddenName) = .ok ⟨none, some "😀/ "⟩ := by
  refine ⟨exists_spells_hiddenName, ?_⟩
  obtain ⟨d, hwritten, hspells⟩ := exists_spells_hiddenName
  obtain ⟨⟨name, schema⟩, hrecord, hname, hschema, _⟩ := ofSource_of_spells hspells (by decide)
  rw [← lastText_eq_iff] at hname hschema
  have hlastName : lastText "Name" hiddenNameMembers = none := by rfl
  have hlastSchema : lastText "Schema" hiddenNameMembers = some "😀/ " := by rfl
  rw [← hwritten, hrecord, ← hlastName, ← hlastSchema, hname, hschema]

end Record

end Extraction
