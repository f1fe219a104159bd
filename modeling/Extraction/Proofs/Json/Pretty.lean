import Extraction.Proofs.Json.RoundTrip

/-!
# Indented documents

A value is read back from the text in which each member of a container stands on
a line of its own, as it is from the text without spaces. All that is added is
white space: in front of each member, before each closing bracket and behind
each colon.
-/

namespace Extraction.Json

theorem allSpace_line (level : Nat) : AllSpace ('\n' :: indentation level) := by
  intro c hc
  rcases List.mem_cons.mp hc with rfl | hc
  · rfl
  · rw [List.eq_of_mem_replicate hc]
    rfl

/-- An element on a line of its own. -/
def prettyItem (level : Nat) (item : Value) : List Char :=
  '\n' :: indentation level ++ item.pretty level

/-- A member on a line of its own. -/
def prettyMember (level : Nat) (entry : String × Value) : List Char :=
  '\n' :: indentation level ++ (quote entry.1 ++ ':' :: ' ' :: entry.2.pretty level)

theorem prettyItems_eq_separated (level : Nat) (items : List Value) :
    prettyItems level items = separated (items.map (prettyItem level)) := by
  induction items with
  | nil => rfl
  | cons item rest ih =>
      cases rest with
      | nil => rfl
      | cons next rest => simpa [prettyItems, separated, prettyItem] using ih

theorem prettyMembers_eq_separated (level : Nat) (members : List (String × Value)) :
    prettyMembers level members = separated (members.map (prettyMember level)) := by
  induction members with
  | nil => rfl
  | cons entry rest ih =>
      cases rest with
      | nil => simp [prettyMembers, separated, prettyMember]
      | cons next rest => simpa [prettyMembers, separated, prettyMember] using ih

/-- Only white space stands between the last element and the closing bracket; when there are no
elements there is not even that. -/
theorem pretty_array (level : Nat) (items : List Value) :
    ∃ w, AllSpace w ∧ (Value.array items).pretty level =
      '[' :: (separated (items.map (prettyItem (level + 1))) ++ (w ++ [']'])) := by
  cases items with
  | nil => exact ⟨[], allSpace_nil, by simp [Value.pretty, separated]⟩
  | cons item rest =>
      refine ⟨_, allSpace_line level, ?_⟩
      rw [Value.pretty, prettyItems_eq_separated]
      · rfl
      · intro hnil
        cases hnil

theorem pretty_object (level : Nat) (members : List (String × Value)) :
    ∃ w, AllSpace w ∧ (Value.object members).pretty level =
      '\x7b' :: (separated (members.map (prettyMember (level + 1))) ++ (w ++ ['\x7d'])) := by
  cases members with
  | nil => exact ⟨[], allSpace_nil, by simp [Value.pretty, separated]⟩
  | cons entry rest =>
      refine ⟨_, allSpace_line level, ?_⟩
      rw [Value.pretty, prettyMembers_eq_separated]
      · rfl
      · intro hnil
        cases hnil

/-- What is not a container takes one line. -/
theorem pretty_of_scalar {v : Value} (hdepth : v.depth = 0) (level : Nat) :
    v.pretty level = v.compact := by
  cases v with
  | array => cases hdepth
  | object => cases hdepth
  | _ => rfl

theorem reads_prettyItem {d level : Nat} {item : Value}
    (h : Reads (value d).run (item.pretty level) item) :
    Reads (value d).run (prettyItem level item) item :=
  h.after_space (value_skipSpace d) (allSpace_line level)

theorem reads_prettyMember {d level : Nat} {entry : String × Value}
    (h : Reads (value d).run (entry.2.pretty level) entry.2) :
    Reads (memberAfterSpace (value d)) (prettyMember level entry) entry := by
  have hblank : AllSpace [' '] := by simp [AllSpace, isSpace]
  have hvalue := h.after_space (value_skipSpace d) hblank
  exact (reads_member entry.1 hvalue).after_space (memberAfterSpace_skipSpace (value d))
    (allSpace_line level)

/-- An object is read from its indented text when its members are, and binds them in their order. -/
theorem reads_prettyObject {d level : Nat} {members : List (String × Value)}
    (h : ∀ entry ∈ members, Reads (value d).run (entry.2.pretty (level + 1)) entry.2) :
    Reads (value (d + 1)).run ((Value.object members).pretty level)
      (.object (Table.ofBindings members)) := by
  have hmembers : ∀ entry ∈ members,
      Reads (memberAfterSpace (value d)) (prettyMember (level + 1) entry) entry :=
    fun entry hentry => reads_prettyMember (h entry hentry)
  obtain ⟨w, hw, htext⟩ := pretty_object level members
  rw [htext]
  exact reads_object ((isSequence_members (value d)).reads_spaced
    (IsSequence.forall₂_map_reads hmembers) hw)

/-- A value is read back from its indented text where containers may nest as deep as it does. -/
theorem reads_pretty {v : Value} (hv : v.Exact) {d : Nat} (hdepth : v.depth ≤ d) (level : Nat) :
    Reads (value d).run (v.pretty level) v := by
  induction d generalizing v level with
  | zero =>
      have hscalar := Nat.le_zero.mp hdepth
      rw [pretty_of_scalar hscalar]
      exact reads_scalar none hv hscalar
  | succ d ih =>
      rcases Nat.eq_zero_or_pos v.depth with hscalar | hcontainer
      · rw [pretty_of_scalar hscalar]
        exact reads_scalar _ hv hscalar
      cases hv with
      | @array items hexact =>
          have hdepths := depthOfItems_le_iff.mp (Nat.le_of_succ_le_succ hdepth)
          have hitems : ∀ item ∈ items, Reads (value d).run (prettyItem (level + 1) item) item := by
            intro item hitem
            exact reads_prettyItem (ih (hexact item hitem) (hdepths item hitem) (level + 1))
          obtain ⟨w, hw, htext⟩ := pretty_array level items
          rw [htext]
          exact reads_array ((isSequence_value d).reads_spaced
            (IsSequence.forall₂_map_reads hitems) hw)
      | @object members hsorted hexact =>
          have hdepths := depthOfMembers_le_iff.mp (Nat.le_of_succ_le_succ hdepth)
          have hread := reads_prettyObject fun entry hentry =>
            ih (hexact entry hentry) (hdepths entry hentry) (level + 1)
          -- The members are bound in their order again, which gives back a table in order.
          rwa [Table.ofBindings_of_sorted hsorted] at hread
      | _ => cases hcontainer

theorem parse_prettyText_of_reads {v read : Value}
    (h : Reads (value deepest).run (v.pretty 0) read) : parse v.prettyText = .ok read :=
  parse_of_reads h (by simp [AllSpace, isSpace])

/-- A document is read back from its indented text as long as it nests no deeper than one may. -/
theorem parse_prettyText {v : Value} (hv : v.Exact) (hdepth : v.depth ≤ deepest) :
    parse v.prettyText = .ok v :=
  parse_prettyText_of_reads (reads_pretty hv hdepth 0)

/-- An object whose members are not in order is read from its indented text with them in order, and
of several under one key with the last. -/
theorem reads_prettyObject_of_exact {members : List (String × Value)}
    (hexact : ∀ entry ∈ members, entry.2.Exact)
    (hdepth : (Value.object members).depth ≤ deepest) :
    Reads (value deepest).run ((Value.object members).pretty 0)
      (.object (Table.ofBindings members)) := by
  have hdepths := depthOfMembers_le_iff.mp (Nat.le_of_succ_le_succ hdepth)
  exact reads_prettyObject fun entry hentry =>
    reads_pretty (hexact entry hentry) (hdepths entry hentry) 1

end Extraction.Json
