import Extraction.Proofs.Json.Depth
import Extraction.Proofs.Json.Pretty
import Extraction.Proofs.Record

/-!
# Records of lists

The records of an array are those of its elements, each taken as a source of its
own. That is so for values, and for texts as well: a text is read between the
brackets of an array as it is read alone, with its own white space around it,
as long as it leaves one level of nesting to the array.
-/

namespace Extraction

namespace Json

theorem intercalate_comma (texts : List (List Char)) :
    [','].intercalate texts = separated texts := by
  induction texts with
  | nil => rfl
  | cons text others ih =>
      cases others with
      | nil => simp [separated]
      | cons next others => simp [List.intercalate_cons_cons, ih, separated]

/-- Texts between the brackets of an array. -/
def arrayOf (texts : List String) : String := "[" ++ ",".intercalate texts ++ "]"

theorem arrayOf_eq_ofList (texts : List String) :
    arrayOf texts = String.ofList ('[' :: (separated (texts.map String.toList) ++ [']'])) := by
  rw [← String.toList_inj, String.toList_ofList, ← intercalate_comma]
  simp [arrayOf, String.toList_intercalate]

/-- Texts that are read alone, and leave one level to the array, are read as its elements. -/
theorem parse_arrayOf {texts : List String} {values : List Value}
    (h : List.Forall₂ (fun t v => parse t = .ok v ∧ NestsWithin 126 t) texts values) :
    parse (arrayOf texts) = .ok (.array values) := by
  have hitems : List.Forall₂ (Reads (value 126).run) (texts.map String.toList) values := by
    refine List.forall₂_map_left_iff.mpr (h.imp fun t v ⟨hparse, hnests⟩ => ?_)
    exact reads_of_parse hparse hnests (by decide)
  have hlist := (isSequence_value 126).reads_spaced hitems allSpace_nil
  have hparse := parse_of_reads (reads_array hlist) allSpace_nil
  rw [arrayOf_eq_ofList]
  simpa using hparse

/-- A written text nests as its value does. -/
theorem nestsWithin_compactText {v : Value} {depth : Nat} (hv : v.Exact)
    (hdepth : v.depth ≤ depth) : NestsWithin depth v.compactText := by
  apply nestsWithin_of_reads
  rw [Value.compactText, String.toList_ofList]
  exact reads_compact hv hdepth

theorem nestsWithin_prettyText {v : Value} {depth : Nat} (hv : v.Exact)
    (hdepth : v.depth ≤ depth) : NestsWithin depth v.prettyText := by
  apply nestsWithin_of_reads
  rw [Value.prettyText, String.toList_ofList]
  exact (reads_pretty hv hdepth 0).before_space (by simp [AllSpace, isSpace])

end Json

namespace Record

open Json (Value NestsWithin arrayOf)

/-- Each record is taken from the source at its place. -/
def TakenFrom (sources : List Source) (records : List Record) : Prop :=
  List.Forall₂ (fun source record => ofSource source = .ok record) sources records

/-- The elements of a value that is decoded are records of their own. -/
theorem takenFrom_of_decoded {sources : List Source} {values : List Value}
    (h : List.Forall₂ (fun source v => source.decode = .ok v) sources values) :
    TakenFrom sources (values.map ofElement) :=
  List.forall₂_map_right_iff.mpr (h.imp fun _ _ hdecode => ofSource_eq_ofElement hdecode)

/-- What is no object is the empty record. -/
theorem ofElement_of_not_object {v : Value} (h : ∀ members, v ≠ .object members) :
    ofElement v = ⟨none, none⟩ := by
  cases v with
  | object members => exact absurd rfl (h members)
  | _ => rfl

/-- Texts that can be decoded are decoded to some values. -/
theorem exists_decoded {texts : List String}
    (h : ∀ t ∈ texts, (∃ v, (Source.text t).decode = .ok v) ∧ NestsWithin 126 t) :
    ∃ values, List.Forall₂ (fun t v => Json.parse t = .ok v ∧ NestsWithin 126 t) texts values := by
  induction texts with
  | nil => exact ⟨[], .nil⟩
  | cons t others ih =>
      obtain ⟨⟨⟨v, hdecode⟩, hnests⟩, hothers⟩ := List.forall_mem_cons.mp h
      obtain ⟨values, hvalues⟩ := ih hothers
      exact ⟨v :: values, .cons ⟨ok_of_mapError hdecode, hnests⟩ hvalues⟩

/-- The records of a list are those of its elements, taken one by one: of texts between brackets,
where each can be read and nests one level less than a document may, and of the values of an array,
however deep they nest. What is no object is an empty record in its place. -/
theorem listOfSource_elementwise :
    (∀ texts : List String,
      (∀ t ∈ texts, (∃ v, (Source.text t).decode = .ok v) ∧ NestsWithin 126 t) →
      ∃ records, listOfSource (.text (arrayOf texts)) = .ok records ∧
        TakenFrom (texts.map .text) records) ∧
    (∀ values : List Value,
      ∃ records, listOfSource (.value (.array values)) = .ok records ∧
        TakenFrom (values.map .value) records) ∧
    ∀ (source : Source) (v : Value), source.decode = .ok v → (∀ members, v ≠ .object members) →
      ofSource source = .ok ⟨none, none⟩ := by
  refine ⟨fun texts htexts => ?_, fun values => ?_, fun source v hdecode hv => ?_⟩
  · obtain ⟨values, hvalues⟩ := exists_decoded htexts
    have harray := Source.decode_of_parse (Json.parse_arrayOf hvalues)
    refine ⟨values.map ofElement, listOfSource_eq_map harray, ?_⟩
    refine takenFrom_of_decoded (List.forall₂_map_left_iff.mpr ?_)
    exact hvalues.imp fun _ _ h => Source.decode_of_parse h.1
  · refine ⟨values.map ofElement, listOfSource_eq_map rfl, ?_⟩
    refine takenFrom_of_decoded (List.forall₂_map_left_iff.mpr ?_)
    exact List.forall₂_same.mpr fun _ _ => rfl
  · rw [ofSource_eq_ofElement hdecode, ofElement_of_not_object hv]

/-- An object with white space around it, and an array that leaves just one level. -/
theorem listOfSource_elementwise_mixed :
    listOfSource (.text (arrayOf [Source.escapesAndBounds.prettyText,
        (Source.nested 125).compactText])) = .ok [⟨some "say \"é\"\n", none⟩, ⟨none, none⟩] := by
  obtain ⟨htexts, _, hempty⟩ := listOfSource_elementwise
  have hdepth : (Source.nested 125).depth ≤ 126 := Nat.le_of_eq (Source.depth_nested 125)
  have hobject := Source.decode_of_parse
    (Json.parse_prettyText Source.exact_escapesAndBounds (by decide))
  have harray := Source.decode_of_parse (Json.parse_compactText (Source.exact_nested 125)
    (Nat.le_trans hdepth (by decide)))
  have hobjectNests : NestsWithin 126 Source.escapesAndBounds.prettyText :=
    Json.nestsWithin_prettyText Source.exact_escapesAndBounds (by decide)
  have harrayNests := Json.nestsWithin_compactText (Source.exact_nested 125) hdepth
  obtain ⟨records, hlist, htaken⟩ := htexts
    [Source.escapesAndBounds.prettyText, (Source.nested 125).compactText] (by
      simp only [List.forall_mem_cons]
      exact ⟨⟨⟨_, hobject⟩, hobjectNests⟩, ⟨⟨_, harray⟩, harrayNests⟩, List.forall_mem_nil _⟩)
  obtain ⟨first, _, hfirst, hothers, rfl⟩ := List.forall₂_cons_left_iff.mp htaken
  obtain ⟨second, _, hsecond, hnil, rfl⟩ := List.forall₂_cons_left_iff.mp hothers
  rw [ofSource_eq_ofElement hobject] at hfirst
  rw [hempty _ _ harray (fun _ hmembers => by cases hmembers)] at hsecond
  cases hfirst
  cases hsecond
  cases hnil
  exact hlist

end Record

end Extraction
