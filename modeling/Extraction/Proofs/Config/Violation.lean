import Extraction.Config.Validation
import Extraction.Success
import Mathlib.Data.List.Basic

/-!
# The first violation

The rules of a configuration stand in a list, from top to bottom. A
configuration is valid exactly when all of them hold, and otherwise what is
reported is the first one that does not. The place that is reported is one the
configuration has, and the text of the place tells it from all others.
-/

namespace Extraction.Config

/-- What is asked of a field, and what is said where it does not hold. -/
structure Rule where
  place : Place
  reason : Reason
  holds : Prop

/-- A text in which some character is not blank. -/
def Rule.notBlank (value : String) (place : Place) : Rule :=
  ⟨place, .missing, ∃ c ∈ value.toList, Text.isBlankChar c = false⟩

def methodRules (extractor : Nat) (m : MethodEntry) (index : Nat) : List Rule :=
  [.notBlank m.name (.method extractor index "Name"),
    .notBlank m.schema (.method extractor index "Schema"),
    ⟨.method extractor index "Url", .notWebAddress, ∀ url ∈ m.url, isWebAddress url = true⟩]

def extractorRules (e : ExtractorEntry) (index : Nat) : List Rule :=
  [.notBlank e.name (.extractor index "Name"),
    .notBlank e.organization (.extractor index "GithubOrg"),
    .notBlank e.project (.extractor index "GithubProject"),
    .notBlank e.version (.extractor index "Version"),
    .notBlank e.executable (.extractor index "Executable"),
    .notBlank e.checksum (.extractor index "Checksum"),
    .notBlank e.commandLineTemplate (.extractor index "CommandLineTemplate"),
    ⟨.extractor index "ChecksumAlg", .unsupportedAlgorithm e.checksumAlgorithm,
      e.checksumAlgorithm = "sha256"⟩,
    ⟨.extractor index "Methods", .noMethods, e.methods ≠ []⟩] ++
  e.methods.zipIdx.flatMap fun (m, number) => methodRules index m number

/-- What is asked of a configuration, in the order in which it is written. -/
def rules (config : Config) : List Rule :=
  [⟨.top "InstallationPath", .missing, config.installationPath ≠ ""⟩,
    ⟨.top "SchemasLocation", .missing, config.schemasLocation ≠ ""⟩] ++
  config.extractors.zipIdx.flatMap fun (e, index) => extractorRules e index

/-- Of some rules this is the first one that does not hold. -/
def IsFirstBroken (rules : List Rule) (rule : Rule) : Prop :=
  ∃ before after, rules = before ++ rule :: after ∧ (∀ other ∈ before, other.holds) ∧ ¬ rule.holds

/-- A check reports the first rule that does not hold, and nothing when all do. -/
inductive Enforces (check : Except Violation Unit) (rules : List Rule) : Prop
  | kept : check = .ok () → (∀ rule ∈ rules, rule.holds) → Enforces check rules
  | broken (rule : Rule) : check = .error ⟨rule.place, rule.reason⟩ → IsFirstBroken rules rule →
      Enforces check rules

section Checks

variable {check next : Except Violation Unit} {rules others : List Rule} {place : Place}
  {reason : Reason}

theorem enforces_nil : Enforces (.ok ()) [] := .kept rfl (List.forall_mem_nil _)

theorem enforces_require {holds : Bool} {p : Prop} (h : holds = true ↔ p) :
    Enforces (require holds place reason) [⟨place, reason, p⟩] := by
  unfold require
  split
  next hholds => exact .kept rfl (List.forall_mem_singleton.mpr (h.mp hholds))
  next hbroken => exact .broken _ rfl ⟨[], [], rfl, List.forall_mem_nil _, mt h.mpr hbroken⟩

/-- Later rules are only looked at when all earlier ones hold. -/
theorem Enforces.bind (h : Enforces check rules) (hnext : Enforces next others) :
    Enforces (check >>= fun _ => next) (rules ++ others) := by
  cases h with
  | broken rule hcheck hfirst =>
      obtain ⟨before, after, rfl, hbefore, hbroken⟩ := hfirst
      refine .broken rule (by rw [hcheck]; rfl) ⟨before, after ++ others, ?_, hbefore, hbroken⟩
      simp
  | kept hcheck hrules =>
      rw [hcheck]
      cases hnext with
      | kept hnext hothers => exact .kept hnext (List.forall_mem_append.mpr ⟨hrules, hothers⟩)
      | broken rule hnext hfirst =>
          obtain ⟨before, after, rfl, hbefore, hbroken⟩ := hfirst
          refine .broken rule hnext ⟨rules ++ before, after, ?_, ?_, hbroken⟩
          · simp
          · exact List.forall_mem_append.mpr ⟨hrules, hbefore⟩

theorem Enforces.require_cons (hnext : Enforces next others) {holds : Bool} {p : Prop}
    (h : holds = true ↔ p) :
    Enforces (require holds place reason >>= fun _ => next) (⟨place, reason, p⟩ :: others) :=
  (enforces_require h).bind hnext

theorem Enforces.requireText_cons (hnext : Enforces next others) (value : String) :
    Enforces (requireText value place >>= fun _ => next) (.notBlank value place :: others) :=
  hnext.require_cons (by simp [Text.isBlank])

/-- Elements are checked in their order, each with its index. -/
theorem enforces_validateEach {α : Type} {check : Nat → α → Except Violation Unit}
    {rules : α → Nat → List Rule} (h : ∀ item index, Enforces (check index item) (rules item index))
    (items : List α) (index : Nat) :
    Enforces (validateEach check index items)
      ((items.zipIdx index).flatMap fun (item, index) => rules item index) := by
  induction items generalizing index with
  | nil => exact enforces_nil
  | cons item rest ih => exact (h item index).bind (ih (index + 1))

theorem enforces_validateMethod (extractor : Nat) (m : MethodEntry) (index : Nat) :
    Enforces (validateMethod extractor index m) (methodRules extractor m index) := by
  refine .requireText_cons (.requireText_cons ?_ _) _
  cases hurl : m.url with
  | none => exact .kept rfl (by simp)
  | some url => exact enforces_require (by simp)

theorem enforces_validateExtractor (e : ExtractorEntry) (index : Nat) :
    Enforces (validateExtractor index e) (extractorRules e index) := by
  have hmethods := enforces_validateEach (enforces_validateMethod index) e.methods 0
  refine .requireText_cons (.requireText_cons (.requireText_cons (.requireText_cons
    (.requireText_cons (.requireText_cons (.requireText_cons
      (.require_cons (hmethods.require_cons ?_) ?_) _) _) _) _) _) _) _
  · simp
  · simp [supportedAlgorithm]

theorem enforces_validate (config : Config) : Enforces config.validate config.rules := by
  have hextractors := enforces_validateEach enforces_validateExtractor config.extractors 0
  refine .require_cons (hextractors.require_cons ?_) ?_
  · simp
  · simp

end Checks

section First

variable {rules : List Rule} {rule other : Rule}

theorem IsFirstBroken.mem (h : IsFirstBroken rules rule) : rule ∈ rules := by
  obtain ⟨before, after, rfl, _⟩ := h
  simp

/-- There is only one first rule that does not hold. -/
theorem IsFirstBroken.unique (h : IsFirstBroken rules rule) (h' : IsFirstBroken rules other) :
    rule = other := by
  obtain ⟨before, after, rfl, hbefore, hbroken⟩ := h
  obtain ⟨before', after', heq, hbefore', hbroken'⟩ := h'
  induction before generalizing before' with
  | nil =>
      cases before' with
      | nil => exact (List.cons.inj heq).1
      | cons first before' =>
          obtain ⟨rfl, _⟩ := List.cons.inj heq
          exact absurd (hbefore' _ List.mem_cons_self) hbroken
  | cons first before ih =>
      cases before' with
      | nil =>
          obtain ⟨rfl, _⟩ := List.cons.inj heq
          exact absurd (hbefore _ List.mem_cons_self) hbroken'
      | cons first' before' =>
          obtain ⟨rfl, hrest⟩ := List.cons.inj heq
          exact ih (List.forall_mem_cons.mp hbefore).2 before' hrest
            (List.forall_mem_cons.mp hbefore').2

theorem IsFirstBroken.not_forall (h : IsFirstBroken rules rule) :
    ¬ ∀ other ∈ rules, other.holds := by
  obtain ⟨before, after, rfl, _, hbroken⟩ := h
  intro hall
  exact hbroken (hall rule (by simp))

end First

section Places

def topFields : List String := ["InstallationPath", "SchemasLocation"]

def extractorFields : List String :=
  ["Name", "GithubOrg", "GithubProject", "Version", "Executable", "Checksum", "CommandLineTemplate",
    "ChecksumAlg", "Methods"]

def methodFields : List String := ["Name", "Schema", "Url"]

/-- A place of a configuration: a field of its own, or one of an entry that is there. -/
inductive HasPlace (config : Config) : Place → Prop
  | top {field : String} : field ∈ topFields → HasPlace config (.top field)
  | extractor {index : Nat} {field : String} : index < config.extractors.length →
      field ∈ extractorFields → HasPlace config (.extractor index field)
  | method {outer index : Nat} {field : String} {e : ExtractorEntry} :
      config.extractors[outer]? = some e → index < e.methods.length → field ∈ methodFields →
      HasPlace config (.method outer index field)

variable {config : Config} {rule : Rule} {place other : Place}

theorem hasPlace_of_mem_methodRules {e : ExtractorEntry} {m : MethodEntry} {outer index : Nat}
    (houter : config.extractors[outer]? = some e) (hindex : e.methods[index]? = some m)
    (hrule : rule ∈ methodRules outer m index) : config.HasPlace rule.place := by
  have hlt : index < e.methods.length := (List.getElem?_eq_some_iff.mp hindex).1
  simp only [methodRules, List.mem_cons, List.not_mem_nil, or_false] at hrule
  rcases hrule with rfl | rfl | rfl <;> exact .method houter hlt (by simp [methodFields])

theorem hasPlace_of_mem_extractorRules {e : ExtractorEntry} {index : Nat}
    (hindex : config.extractors[index]? = some e) (hrule : rule ∈ extractorRules e index) :
    config.HasPlace rule.place := by
  have hlt : index < config.extractors.length := (List.getElem?_eq_some_iff.mp hindex).1
  rcases List.mem_append.mp hrule with hown | hmethod
  · simp only [List.mem_cons, List.not_mem_nil, or_false] at hown
    rcases hown with rfl | rfl | rfl | rfl | rfl | rfl | rfl | rfl | rfl <;>
      exact .extractor hlt (by simp [extractorFields])
  · obtain ⟨⟨m, number⟩, hm, hrule⟩ := List.mem_flatMap.mp hmethod
    exact hasPlace_of_mem_methodRules hindex (List.mem_zipIdx_iff_getElem?.mp hm) hrule

theorem hasPlace_of_mem_rules (hrule : rule ∈ config.rules) : config.HasPlace rule.place := by
  rcases List.mem_append.mp hrule with hown | hextractor
  · simp only [List.mem_cons, List.not_mem_nil, or_false] at hown
    rcases hown with rfl | rfl <;> exact .top (by decide)
  · obtain ⟨⟨e, index⟩, he, hrule⟩ := List.mem_flatMap.mp hextractor
    exact hasPlace_of_mem_extractorRules (List.mem_zipIdx_iff_getElem?.mp he) hrule

theorem bracket_not_mem_extractorField : ∀ field ∈ extractorFields, '[' ∉ field.toList := by decide

theorem closing_not_mem_toString (n : Nat) : ']' ∉ (toString n).toList := by
  intro hmem
  rw [Nat.toString_eq_repr, Nat.toList_repr] at hmem
  exact absurd (Nat.isDigit_of_mem_toDigits (by decide) (by decide) hmem) (by decide)

theorem toString_injective {i j : Nat} (h : (toString i).toList = (toString j).toList) : i = j := by
  simp only [Nat.toString_eq_repr, Nat.toList_repr] at h
  rw [← Nat.ofDigitChars_ten_toDigits (n := i), h, Nat.ofDigitChars_ten_toDigits]

/-- An index and the bracket behind it tell the index and the rest of the text. -/
theorem index_append_inj {i j : Nat} {s t : List Char}
    (h : (toString i).toList ++ ']' :: s = (toString j).toList ++ ']' :: t) : i = j ∧ s = t := by
  have hdigits (n : Nat) (rest : List Char) :
      ((toString n).toList ++ ']' :: rest).takeWhile (· != ']') = (toString n).toList := by
    rw [List.takeWhile_append_of_pos]
    · simp
    · intro c hc
      simpa using fun heq : c = ']' => closing_not_mem_toString n (heq ▸ hc)
  have heq := congrArg (List.takeWhile (· != ']')) h
  rw [hdigits, hdigits] at heq
  obtain rfl := toString_injective heq
  simpa using h

theorem Place.toList_text_extractor (index : Nat) (field : String) :
    (Place.extractor index field).text.toList =
      "Extractors[".toList ++ ((toString index).toList ++ ']' :: '.' :: field.toList) := by
  change ("Extractors[" ++ toString index ++ "]." ++ field).toList = _
  simp only [String.toList_append, List.append_assoc]
  rfl

theorem Place.toList_text_method (outer index : Nat) (field : String) :
    (Place.method outer index field).text.toList = "Extractors[".toList ++
      ((toString outer).toList ++ ']' :: '.' :: ("Methods[".toList ++
        ((toString index).toList ++ ']' :: '.' :: field.toList))) := by
  change ("Extractors[" ++ toString outer ++ "].Methods[" ++ toString index ++ "]." ++
    field).toList = _
  simp only [String.toList_append, List.append_assoc]
  rfl

theorem bracket_mem_text_extractor (index : Nat) (field : String) :
    '[' ∈ (Place.extractor index field).text.toList := by
  rw [Place.toList_text_extractor]
  exact List.mem_append_left _ (by decide)

theorem bracket_mem_text_method (outer index : Nat) (field : String) :
    '[' ∈ (Place.method outer index field).text.toList := by
  rw [Place.toList_text_method]
  exact List.mem_append_left _ (by decide)

/-- A field of the configuration is in none of its entries. -/
theorem text_top_ne {field : String} (hfield : field ∈ topFields)
    (hbracket : '[' ∈ place.text.toList) : (Place.top field).text ≠ place.text := by
  have hfields : ∀ field ∈ topFields, '[' ∉ field.toList := by decide
  intro h
  rw [← h] at hbracket
  exact hfields field hfield hbracket

/-- The field of an extractor is no field of a method. -/
theorem text_extractor_ne_text_method {index outer number : Nat} {field field' : String}
    (hfield : '[' ∉ field.toList) :
    (Place.extractor index field).text.toList ≠ (Place.method outer number field').text.toList := by
  intro h
  rw [Place.toList_text_extractor, Place.toList_text_method, List.append_cancel_left_eq] at h
  obtain ⟨_, hrest⟩ := index_append_inj h
  rw [(List.cons.inj hrest).2] at hfield
  exact hfield (List.mem_append_left _ (by decide))

/-- A configuration has no two places with the same text. -/
theorem HasPlace.eq_of_text_eq (hplace : config.HasPlace place) (hother : config.HasPlace other)
    (h : place.text = other.text) : place = other := by
  have htext : place.text.toList = other.text.toList := congrArg String.toList h
  cases hplace with
  | top hfield =>
      cases hother with
      | top => exact congrArg Place.top h
      | extractor => exact absurd h (text_top_ne hfield (bracket_mem_text_extractor _ _))
      | method => exact absurd h (text_top_ne hfield (bracket_mem_text_method _ _ _))
  | @extractor index field _ hfield =>
      have hbracket := bracket_not_mem_extractorField field hfield
      cases hother with
      | top hfield' => exact absurd h.symm (text_top_ne hfield' (bracket_mem_text_extractor _ _))
      | extractor =>
          rw [Place.toList_text_extractor, Place.toList_text_extractor,
            List.append_cancel_left_eq] at htext
          obtain ⟨rfl, hrest⟩ := index_append_inj htext
          rw [String.toList_inj.mp (List.cons.inj hrest).2]
      | method => exact absurd htext (text_extractor_ne_text_method hbracket)
  | method =>
      cases hother with
      | top hfield' => exact absurd h.symm (text_top_ne hfield' (bracket_mem_text_method _ _ _))
      | @extractor _ field' _ hfield' =>
          have hbracket' := bracket_not_mem_extractorField field' hfield'
          exact absurd htext.symm (text_extractor_ne_text_method hbracket')
      | method =>
          rw [Place.toList_text_method, Place.toList_text_method,
            List.append_cancel_left_eq] at htext
          obtain ⟨rfl, hnumber⟩ := index_append_inj htext
          rw [List.cons_inj_right, List.append_cancel_left_eq] at hnumber
          obtain ⟨rfl, hrest⟩ := index_append_inj hnumber
          rw [String.toList_inj.mp (List.cons.inj hrest).2]

end Places

/-- A configuration is valid exactly when all of its rules hold. A violation is reported exactly
when it is that of the first rule that does not hold. Its place is one that the configuration has,
and the only one with the text that is reported. -/
theorem validate_reports_first_violation (config : Config) :
    (config.validate = .ok () ↔ ∀ rule ∈ config.rules, rule.holds) ∧
    (∀ v, config.validate = .error v ↔
      ∃ rule, IsFirstBroken config.rules rule ∧ v = ⟨rule.place, rule.reason⟩) ∧
    ∀ v, config.validate = .error v → config.HasPlace v.place ∧
      ∀ place, config.HasPlace place → place.text = v.place.text → place = v.place := by
  cases enforces_validate config with
  | kept hvalid hrules =>
      refine ⟨iff_of_true hvalid hrules, fun v => ?_, fun v hv => ?_⟩
      · rw [hvalid]
        refine iff_of_false (by simp) ?_
        rintro ⟨rule, hfirst, _⟩
        exact hfirst.not_forall hrules
      · rw [hvalid] at hv
        cases hv
  | broken rule hinvalid hfirst =>
      refine ⟨iff_of_false (by simp [hinvalid]) hfirst.not_forall, fun v => ?_, fun v hv => ?_⟩
      · rw [hinvalid, Except.error.injEq]
        constructor
        · rintro rfl
          exact ⟨rule, hfirst, rfl⟩
        · rintro ⟨other, hother, rfl⟩
          rw [hfirst.unique hother]
      · rw [hinvalid] at hv
        cases hv
        have hplace := hasPlace_of_mem_rules hfirst.mem
        exact ⟨hplace, fun place hother => hother.eq_of_text_eq hplace⟩

/-- The second method of the second extractor has a blank schema and no web address, and the third
extractor has no methods. -/
def severalViolations : Config where
  extractors :=
    let sound : ExtractorEntry :=
      { name := "reader", organization := "lab", project := "tools", version := "v1"
        executable := "reader", checksum := "0", checksumAlgorithm := "sha256"
        commandLineTemplate := "run", methods := [{ name := "first", schema := "schema.json" }] }
    [sound, { sound with methods := sound.methods ++
        [{ name := "second", schema := "\u2003\t", url := some "ftp://example.org" }] },
      { sound with methods := [] }]
  installationPath := "extractors"
  schemasLocation := "schemas"

theorem validate_reports_first_violation_several :
    severalViolations.validate = .error ⟨.method 1 1 "Schema", .missing⟩ ∧
      (Place.method 1 1 "Schema").text = "Extractors[1].Methods[1].Schema" ∧
      severalViolations.HasPlace (.method 1 1 "Schema") ∧
      (∃ rule, IsFirstBroken severalViolations.rules rule ∧
        (⟨.method 1 1 "Schema", .missing⟩ : Violation) = ⟨rule.place, rule.reason⟩) ∧
      ∀ place, severalViolations.HasPlace place →
        place.text = (Place.method 1 1 "Schema").text → place = .method 1 1 "Schema" := by
  have hinvalid : severalViolations.validate = .error ⟨.method 1 1 "Schema", .missing⟩ := by rfl
  obtain ⟨_, hfirst, hplace⟩ := validate_reports_first_violation severalViolations
  exact ⟨hinvalid, by decide, (hplace _ hinvalid).1, (hfirst _).mp hinvalid, (hplace _ hinvalid).2⟩

end Extraction.Config
