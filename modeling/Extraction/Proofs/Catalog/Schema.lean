import Extraction.Proofs.Base64
import Extraction.Proofs.Catalog.Listing
import Extraction.Proofs.Catalog.Provenance
import Extraction.Proofs.Json.Complete
import Extraction.Proofs.Json.Gate.Characters
import Extraction.Proofs.Json.Sound.Value
import Extraction.Proofs.Record
import Extraction.Proofs.Text.Octets

/-!
# Whether the schemas of a catalog can be decoded

A schema is let in by the gate, which only asks whether it is a JSON document.
Those who take the schema from a record build its value and ask for more. So a
schema that is in a catalog is sure to be a document, and whether it can be
decoded is told by what the document holds.
-/

namespace Extraction

open Json

/-- A text is decoded exactly when it is a document that keeps to what building its value asks
for. -/
theorem Source.exists_decode_text_iff {t : String} :
    (∃ v, (Source.text t).decode = .ok v) ↔
      ∃ d : Document Char, d.written = t.toList ∧ d.value.Fits deepest := by
  constructor
  · rintro ⟨v, hdecode⟩
    apply exists_fitting_of_parse
    exact ok_of_mapError hdecode
  · rintro ⟨d, hwritten, hfits⟩
    obtain ⟨v, hparse⟩ := exists_parse_of_fits hfits
    rw [hwritten, String.ofList_toList] at hparse
    refine ⟨v, ?_⟩
    rw [decode, hparse]
    rfl

namespace Catalog

variable {host : Host} {config : Config}

/-- A record of the catalog is that of an offer which can be used. -/
theorem exists_offer_of_mem_records {r : Record} (h : r ∈ (build host config).1.records) :
    ∃ o ∈ config.offers, ∃ schema, Usable host config o schema ∧
      r = Record.full o.method.name (Base64.encode schema) := by
  obtain ⟨name, M, hM, rfl⟩ := (ordered_build host config).mem_records_iff.mp h
  rw [method?_build] at hM
  obtain ⟨o, ho, htaken⟩ := List.exists_of_findSome?_eq_some hM
  obtain ⟨rfl, schema, husable, rfl⟩ := taken?_eq_some_iff.mp htaken
  exact ⟨o, ho, schema, husable, rfl⟩

/-- A host on which every file is there and holds the same octets. -/
def hostOf (schema : Octets) : Host := { fullHost with read _ := .ok schema }

/-- A configuration of one extractor with one method. -/
def oneMethod : Config :=
  { extractors := [oneVersion "v1" "first"]
    installationPath := "extractors"
    schemasLocation := "schemas" }

theorem mem_records_hostOf {schema : Octets} (h : isDocument schema = true) :
    Record.full "first" (Base64.encode schema) ∈ (build (hostOf schema) oneMethod).1.records := by
  let offer : Offer := ⟨oneVersion "v1" "first", ⟨"first", "schema.json", none⟩⟩
  have htemplate : Template.check "run" = .ok () := by cbv
  have husable : Usable (hostOf schema) oneMethod offer schema :=
    ⟨⟨rfl, rfl, htemplate⟩, rfl, rfl, h⟩
  have htaken : taken? (hostOf schema) oneMethod "first" offer =
      some ⟨"first", Base64.encode schema, "reader"⟩ :=
    taken?_eq_some_iff.mpr ⟨rfl, schema, husable, rfl⟩
  refine (ordered_build _ _).mem_records_iff.mpr
    ⟨"first", ⟨"first", Base64.encode schema, "reader"⟩, ?_, rfl⟩
  rw [method?_build]
  change [offer].findSome? _ = _
  rw [List.findSome?_cons, htaken]

/-- The schema in a record gives back the octets of a usable offer's schema, and these are a
document. Where they are a text, it is decoded exactly when a document that is written so has all
numbers in range, all surrogates paired, and containers that do not nest too deep. -/
theorem schema_of_mem_records (host : Host) (config : Config) :
    ∀ r ∈ (build host config).1.records, ∃ o ∈ config.offers, ∃ schema,
      Usable host config o schema ∧
      r = Record.full o.method.name (Base64.encode schema) ∧
      Base64.decode? (Base64.encode schema) = some schema ∧
      ∀ t, schema.toString? = some t →
        (∃ d : Document Char, d.written = t.toList) ∧
        ((∃ v, (Source.text t).decode = .ok v) ↔
          ∃ d : Document Char, d.written = t.toList ∧ d.value.Fits deepest) := by
  intro r hr
  obtain ⟨o, ho, schema, husable, hrecord⟩ := exists_offer_of_mem_records hr
  refine ⟨o, ho, schema, husable, hrecord, Base64.decode?_encode schema, ?_⟩
  intro t htext
  have hoctets : schema = Octets.ofString t := Octets.toString?_eq_some_iff.mp htext
  have hgate := husable.hasSchema.isDocument
  rw [hoctets] at hgate
  exact ⟨isDocument_ofString_iff.mp hgate, Source.exists_decode_text_iff⟩

/-- A value in so many brackets. -/
def enclose (value : Phrase Char .value) : Nat → Phrase Char .value
  | 0 => value
  | n + 1 => .container .array (.last (.element [] (enclose value n) []))

theorem written_enclose (value : Phrase Char .value) (n : Nat) :
    (enclose value n).written = List.replicate n '[' ++ value.written ++ List.replicate n ']' := by
  induction n with
  | zero => simp [enclose]
  | succ n ih =>
      rw [List.replicate_succ, List.replicate_succ']
      simp only [enclose, Phrase.written, ih, writeSpace_nil, List.nil_append, List.append_nil,
        List.cons_append, List.append_assoc]
      rfl

theorem fits_enclose {value : Phrase Char .value} {depth : Nat} (h : value.Fits depth) (n : Nat) :
    (enclose value n).Fits (depth + n) := by
  induction n with
  | zero => exact h
  | succ n ih => exact fits_container (fits_last (fits_element ih [] []))

/-- The largest double and an escaped pair of surrogates, in as many brackets as are read. -/
def utmost : String :=
  String.ofList (List.replicate deepest '[' ++
    "1.7976931348623157e308,\"\\ud83d\\ude00\"".toList ++ List.replicate deepest ']')

/-- The digits among some characters. -/
def digitsIn (s : List Char) : List Digit :=
  s.filterMap fun c => if h : c ∈ digitLetters then some ⟨c, h⟩ else none

theorem exists_utmost :
    ∃ d : Document Char, d.written = utmost.toList ∧ d.value.Fits deepest := by
  let largest : Literal := ⟨false, .digits ⟨'1', by decide⟩ [],
    some ⟨⟨'7', by decide⟩, digitsIn "976931348623157".toList⟩,
    some ⟨⟨'e', by decide⟩, none, ⟨⟨'3', by decide⟩, digitsIn "08".toList⟩⟩⟩
  let high : Piece Char := .unit ⟨'d', by decide⟩ ⟨'8', by decide⟩ ⟨'3', by decide⟩ ⟨'d', by decide⟩
  let low : Piece Char := .unit ⟨'d', by decide⟩ ⟨'e', by decide⟩ ⟨'0', by decide⟩ ⟨'0', by decide⟩
  have hlargest : largest.InRange := by decide +kernel
  have hpaired : Paired [high, low] :=
    .pair ⟨_, rfl, by decide⟩ ⟨_, rfl, by decide⟩ .nil
  let entries : Phrase Char (.entries .array) :=
    .more (.element [] (.number largest) []) (.last (.element [] (.string [high, low]) []))
  have hentries : entries.Fits 0 :=
    fits_more (fits_element (fits_number hlargest) [] [])
      (fits_last (fits_element (fits_string hpaired) [] []))
  refine ⟨⟨[], enclose (.container .array entries) 126, []⟩, ?_,
    fits_enclose (fits_container hentries) 126⟩
  have hinner : (Phrase.container .array entries).written = '[' ::
      ("1.7976931348623157e308,\"\\ud83d\\ude00\"".toList ++ [']']) := rfl
  rw [utmost, String.toList_ofList, show deepest = 126 + 1 from rfl,
    List.replicate_succ' (a := '['), List.replicate_succ (a := ']')]
  simp only [Document.written, writeSpace_nil, written_enclose, hinner, List.nil_append,
    List.append_nil, List.append_assoc, List.cons_append]

theorem schema_of_mem_records_hostOf :
    Record.full "first" (Base64.encode (Octets.ofString utmost)) ∈
        (build (hostOf (Octets.ofString utmost)) oneMethod).1.records ∧
      ∃ v, (Source.text utmost).decode = .ok v := by
  obtain ⟨d, hwritten, hfits⟩ := exists_utmost
  have hmem := mem_records_hostOf (isDocument_ofString_iff.mpr ⟨d, hwritten⟩)
  refine ⟨hmem, ?_⟩
  obtain ⟨o, _, schema, _, hrecord, hdecode, hread⟩ := schema_of_mem_records _ _ _ hmem
  have hencoded : Base64.encode schema = Base64.encode (Octets.ofString utmost) :=
    (Option.some.inj (Record.mk.inj hrecord).2).symm
  rw [hencoded, Base64.decode?_encode] at hdecode
  obtain rfl := Option.some.inj hdecode
  exact (hread utmost (Octets.toString?_ofString utmost)).2.mpr ⟨d, hwritten, hfits⟩

theorem written_enclose_empty (n : Nat) :
    (enclose (.empty .array []) n).written = (Source.nested n).compact := by
  induction n with
  | zero => rfl
  | succ n ih =>
      simp only [enclose, Phrase.written, Source.nested, Value.compact, compactItems, ih,
        writeSpace_nil, List.nil_append, List.append_nil]
      rfl

theorem isDocument_nested (n : Nat) :
    isDocument (Octets.ofString (Source.nested n).compactText) = true := by
  refine isDocument_ofString_iff.mpr ⟨⟨[], enclose (.empty .array []) n, []⟩, ?_⟩
  simp [Document.written, written_enclose_empty, Value.compactText, writeSpace_nil]

/-- A string with a surrogate on its own, numbers out of range of which one is below the largest
double, and brackets that nest too deep. -/
def undecodable : List String :=
  ["\"\\ud800\"", "1e999", "1.797693134862315700e308", (Source.nested 127).compactText]

theorem isDocument_of_undecodable {t : String} (ht : t ∈ undecodable) :
    isDocument (Octets.ofString t) = true := by
  simp only [undecodable, List.mem_cons, List.not_mem_nil, or_false] at ht
  rcases ht with rfl | rfl | rfl | rfl
  · decide
  · decide
  · decide +kernel
  · exact isDocument_nested 127

theorem exists_error_of_undecodable {t : String} (ht : t ∈ undecodable) :
    ∃ e, (Source.text t).decode = .error e := by
  simp only [undecodable, List.mem_cons, List.not_mem_nil, or_false] at ht
  rcases ht with rfl | rfl | rfl | rfl
  · have hrefused : (Source.text "\"\\ud800\"").decode.isOk = false := by cbv
    exact exists_error_of_not_ok hrefused
  · have hrefused : (Source.text "1e999").decode.isOk = false := by decide +kernel
    exact exists_error_of_not_ok hrefused
  · have hrefused : (Source.text "1.797693134862315700e308").decode.isOk = false := by
      decide +kernel
    exact exists_error_of_not_ok hrefused
  · have hdeep : deepest < (Source.nested 127).depth :=
      Nat.lt_of_lt_of_eq (by decide) (Source.depth_nested 127).symm
    obtain ⟨cause, hparse, _⟩ := parse_compactText_of_deep (Source.exact_nested 127) hdeep
    exact ⟨⟨cause⟩, by rw [Source.decode, hparse]; rfl⟩

/-- A valid configuration may list a schema that is refused when it is decoded. -/
theorem mem_records_of_undecodable :
    oneMethod.validate = .ok () ∧ ∀ t ∈ undecodable,
      Record.full "first" (Base64.encode (Octets.ofString t)) ∈
        (build (hostOf (Octets.ofString t)) oneMethod).1.records ∧
      Base64.decode? (Base64.encode (Octets.ofString t)) = some (Octets.ofString t) ∧
      (Octets.ofString t).toString? = some t ∧
      ∃ e, (Source.text t).decode = .error e := by
  refine ⟨by cbv, fun t ht => ?_⟩
  exact ⟨mem_records_hostOf (isDocument_of_undecodable ht), Base64.decode?_encode _,
    Octets.toString?_ofString t, exists_error_of_undecodable ht⟩

end Catalog

end Extraction
