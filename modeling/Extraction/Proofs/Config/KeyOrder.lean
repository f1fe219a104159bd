import Extraction.Proofs.Config.Shape
import Mathlib.Logic.Relation

/-!
# The keys of a configuration

A configuration, its extractors and their methods are mappings, one within the
lists of the other. What is read does not depend on the order of the entries of
any of them, an entry with its type's default is as good as none, and a key that
is unknown or stands there twice keeps everything from being read.
-/

namespace Extraction

open Yaml (Content Document FieldType Shape Slot)

/-- The mappings of a configuration: the configuration itself, its extractors, and their methods. -/
inductive Level
  | config
  | extractor
  | method

namespace Level

/-- The known keys of a level and the types of their values. -/
def known : Level → List (String × FieldType)
  | config => [("Extractors", .list), ("InstallationPath", .text), ("SchemasLocation", .text),
      ("DownloadMissingExtractors", .flag), ("DownloadSchemas", .flag), ("Timeout", .optional)]
  | extractor => [("Name", .text), ("GithubOrg", .text), ("GithubProject", .text),
      ("Version", .text), ("Executable", .text), ("Checksum", .text), ("ChecksumAlg", .text),
      ("CommandLineTemplate", .text), ("AdditionalParameters", .list), ("Methods", .list)]
  | method => [("Name", .text), ("Schema", .text), ("Url", .optional)]

/-- The level that stands below a level, and the key under which it is listed there. -/
def below? : Level → Option (String × Level)
  | config => some ("Extractors", extractor)
  | extractor => some ("Methods", method)
  | method => none

/-- What the mappings of a level are read as. -/
abbrev Value : Level → Type
  | config => Config
  | extractor => ExtractorEntry
  | method => MethodEntry

def shape : (l : Level) → Shape l.Value
  | config => Config.shape
  | extractor => ExtractorEntry.shape
  | method => MethodEntry.shape

theorem names_slots (l : Level) : l.shape.slots.map Slot.name = l.known.map (·.1) := by
  cases l <;> rfl

theorem map_type_slot? (l : Level) :
    ∀ key ∈ l.known, (l.shape.slot? key.1).map Slot.type = some key.2 := by
  cases l <;> decide

end Level

/-- One mapping of a level stands somewhere in one of a level above, or is that one. -/
inductive Within : Level → Content → Level → Content → Prop
  | here {l : Level} {content : Content} : Within l content l content
  | inside {outer inner l : Level} {name : String} {entries : List (Content × Content)}
      {key item content : Content} {items : List Content} :
      outer.below? = some (name, inner) → (key, .sequence items) ∈ entries →
      key.text? = some name → item ∈ items → Within inner item l content →
      Within outer (.mapping entries) l content

/-- The entries of one mapping change, that of a level or one somewhere in it. -/
inductive Rewrites
    (change : Level → List (Content × Content) → List (Content × Content) → Prop) :
    Level → Content → Content → Prop
  | here {l : Level} {entries entries' : List (Content × Content)} :
      change l entries entries' → Rewrites change l (.mapping entries) (.mapping entries')
  | inside {outer inner : Level} {name : String} {key item item' : Content}
      {before after : List (Content × Content)} {items items' : List Content} :
      outer.below? = some (name, inner) → key.text? = some name → Rewrites change inner item item' →
      Rewrites change outer
        (.mapping (before ++ (key, .sequence (items ++ item :: items')) :: after))
        (.mapping (before ++ (key, .sequence (items ++ item' :: items')) :: after))

/-- The entries are put in another order. -/
def Permutes (_ : Level) (entries entries' : List (Content × Content)) : Prop :=
  entries.Perm entries'

/-- A known key that is missing is put in somewhere, with the default of its type. -/
inductive Completes (l : Level) :
    List (Content × Content) → List (Content × Content) → Prop
  | intro {name : String} {type : FieldType} {key content : Content}
      {before after : List (Content × Content)} :
      (name, type) ∈ l.known → (∀ entry ∈ before ++ after, entry.1.text? ≠ some name) →
      key.text? = some name → type.IsDefault content →
      Completes l (before ++ after) (before ++ (key, content) :: after)

/-- A key is none of the known ones. -/
def HasStrayKey (l : Level) (entries : List (Content × Content)) : Prop :=
  ∃ entry ∈ entries, ∀ known ∈ l.known, entry.1.text? ≠ some known.1

/-- A known key stands there more than once. -/
def HasRepeatedKey (l : Level) (entries : List (Content × Content)) : Prop :=
  ∃ known ∈ l.known, 2 ≤ (entries.map (·.1.text?)).count (some known.1)

namespace Level

variable {l outer inner : Level}

/-- A list of the level below is read by the values of its items, each of which needs one. -/
theorem exists_slot_below {name : String} (h : outer.below? = some (name, inner)) :
    ∃ slot, outer.shape.slot? name = some slot ∧
      (∀ before item item' after, inner.shape.value? item = inner.shape.value? item' →
        slot.value? (.sequence (before ++ item :: after)) =
          slot.value? (.sequence (before ++ item' :: after))) ∧
      ∀ items, (slot.value? (.sequence items)).isSome →
        ∀ item ∈ items, (inner.shape.value? item).isSome := by
  cases outer with
  | config =>
      cases h
      exact ⟨_, rfl, fun _ _ _ _ => Content.mapM_replace, fun _ => Content.isSome_of_mapM⟩
  | extractor =>
      cases h
      exact ⟨_, rfl, fun _ _ _ _ => Content.mapM_replace, fun _ => Content.isSome_of_mapM⟩
  | method => cases h

/-- What a change of one mapping leaves as it is for this mapping, it leaves for the whole. -/
theorem value?_of_rewrites
    {change : Level → List (Content × Content) → List (Content × Content) → Prop}
    (hchange : ∀ l entries entries', change l entries entries' →
      l.shape.value? (.mapping entries) = l.shape.value? (.mapping entries'))
    {content content' : Content} (h : Rewrites change l content content') :
    l.shape.value? content = l.shape.value? content' := by
  induction h with
  | here hentries => exact hchange _ _ _ hentries
  | inside hbelow hkey _ ih =>
      obtain ⟨slot, hslot, hitems, _⟩ := exists_slot_below hbelow
      apply Shape.value?_of_update?_eq
      rw [Shape.update?_of_slot (by rw [hkey, Option.bind_some, hslot]),
        Shape.update?_of_slot (by rw [hkey, Option.bind_some, hslot]), hitems _ _ _ _ ih]

theorem value?_of_permutes {entries entries' : List (Content × Content)}
    (h : Permutes l entries entries') :
    l.shape.value? (.mapping entries) = l.shape.value? (.mapping entries') :=
  Shape.value?_perm h

theorem value?_of_completes {entries entries' : List (Content × Content)}
    (h : Completes l entries entries') :
    l.shape.value? (.mapping entries) = l.shape.value? (.mapping entries') := by
  cases h with
  | intro hknown hmissing hkey hdefault =>
      obtain ⟨slot, hslot, htype⟩ := Option.map_eq_some_iff.mp (l.map_type_slot? _ hknown)
      exact (Shape.value?_of_isDefault hslot hkey (htype ▸ hdefault) hmissing).symm

/-- Every mapping within one that has a value has a value. -/
theorem isSome_of_within {content inside : Content} (h : Within outer content l inside)
    (hsome : (outer.shape.value? content).isSome) : (l.shape.value? inside).isSome := by
  induction h with
  | here => exact hsome
  | inside hbelow hentry hkey hitem _ ih =>
      obtain ⟨slot, hslot, _, hitems⟩ := exists_slot_below hbelow
      obtain ⟨a, ha⟩ := Option.isSome_iff_exists.mp hsome
      obtain ⟨slot', hslot', hkey', hvalue⟩ := (Shape.keys_of_value? ha).1 _ hentry
      obtain rfl := Option.some.inj (hkey.symm.trans hkey')
      obtain rfl := Option.some.inj (hslot.symm.trans hslot')
      exact ih (hitems _ hvalue _ hitem)

/-- A mapping with a value has no key that is unknown or repeated. -/
theorem keys_of_isSome {entries : List (Content × Content)}
    (h : (l.shape.value? (.mapping entries)).isSome) :
    ¬ HasStrayKey l entries ∧ ¬ HasRepeatedKey l entries := by
  obtain ⟨a, ha⟩ := Option.isSome_iff_exists.mp h
  obtain ⟨hknown, hnodup⟩ := Shape.keys_of_value? ha
  constructor
  · rintro ⟨entry, hentry, hstray⟩
    obtain ⟨slot, hslot, hname, _⟩ := hknown entry hentry
    have hmem : slot.name ∈ l.known.map (·.1) :=
      l.names_slots ▸ List.mem_map_of_mem (Shape.mem_of_slot? hslot)
    obtain ⟨key, hkey, heq⟩ := List.mem_map.mp hmem
    exact hstray key hkey (by rw [hname, heq])
  · rintro ⟨key, _, hcount⟩
    have hle := List.nodup_iff_count_le_one.mp hnodup (some key.1)
    omega

end Level

namespace Config

/-- The same configuration, the same violation, or no reading either way. -/
inductive SameOutcome : Except TextError Config → Except TextError Config → Prop
  | ok (c : Config) : SameOutcome (.ok c) (.ok c)
  | invalid (v : Violation) : SameOutcome (.error (.invalid v)) (.error (.invalid v))
  | unreadable (failure failure' : Yaml.Failure) :
      SameOutcome (.error (.unreadable failure)) (.error (.unreadable failure'))

variable {d d' : Document} {content content' : Content}

theorem exists_checked_eq_unreadable (hd : d.Says content) (hnone : shape.value? content = none) :
    ∃ failure, checked (ofDocument d) = .error (.unreadable failure) := by
  obtain ⟨failure, hfailure⟩ := exists_ofDocument_eq_error hd hnone
  exact ⟨failure, by rw [hfailure]; rfl⟩

theorem sameOutcome_of_value?_eq (hd : d.Says content) (hd' : d'.Says content')
    (h : shape.value? content = shape.value? content') :
    SameOutcome (checked (ofDocument d)) (checked (ofDocument d')) := by
  cases hvalue : shape.value? content with
  | none =>
      obtain ⟨failure, hfailure⟩ := exists_checked_eq_unreadable hd hvalue
      obtain ⟨failure', hfailure'⟩ := exists_checked_eq_unreadable hd' (h ▸ hvalue)
      rw [hfailure, hfailure']
      exact .unreadable failure failure'
  | some c =>
      rw [ofDocument_eq_ok hd hvalue, ofDocument_eq_ok hd' (h ▸ hvalue)]
      cases hvalid : c.validate with
      | ok =>
          rw [checked_ok hvalid]
          exact .ok c
      | error v =>
          rw [checked_ok_of_invalid hvalid]
          exact .invalid v

/-- What changes of mappings leave as it is for these mappings, any number of them leaves for what
is read. -/
theorem sameOutcome_of_rewrites
    {change : Level → List (Content × Content) → List (Content × Content) → Prop}
    (hchange : ∀ l entries entries', change l entries entries' →
      l.shape.value? (.mapping entries) = l.shape.value? (.mapping entries'))
    (hd : d.Says content) (hd' : d'.Says content')
    (h : Relation.ReflTransGen (Rewrites change .config) content content') :
    SameOutcome (checked (ofDocument d)) (checked (ofDocument d')) := by
  apply sameOutcome_of_value?_eq hd hd'
  clear hd hd'
  induction h with
  | refl => rfl
  | tail _ hstep ih => exact ih.trans (Level.value?_of_rewrites hchange hstep)

/-- A document is read alike when the entries of its mappings are put in another order, and when
known keys that are missing are put in with their defaults. It is not read at all when a mapping
anywhere in it has a key that is unknown or repeated. -/
theorem reading_is_by_known_keys {d : Document} {content : Content} (hd : d.Says content) :
    (∀ (d' : Document) (content' : Content), d'.Says content' →
      Relation.ReflTransGen (Rewrites Permutes .config) content content' →
      SameOutcome (checked (ofDocument d)) (checked (ofDocument d'))) ∧
    (∀ l entries, Within .config content l (.mapping entries) →
      HasStrayKey l entries ∨ HasRepeatedKey l entries →
      ∃ failure, checked (ofDocument d) = .error (.unreadable failure)) ∧
    ∀ (d' : Document) (content' : Content), d'.Says content' →
      Relation.ReflTransGen (Rewrites Completes .config) content content' →
      SameOutcome (checked (ofDocument d)) (checked (ofDocument d')) := by
  refine ⟨?_, ?_, ?_⟩
  · intro d' content' hd' h
    exact sameOutcome_of_rewrites (fun _ _ _ => Level.value?_of_permutes) hd hd' h
  · intro l entries hwithin hkeys
    apply exists_checked_eq_unreadable hd
    rw [← Option.not_isSome_iff_eq_none]
    intro hsome
    obtain ⟨hstray, hrepeated⟩ := Level.keys_of_isSome (Level.isSome_of_within hwithin hsome)
    rcases hkeys with hkeys | hkeys
    · exact hstray hkeys
    · exact hrepeated hkeys
  · intro d' content' hd' h
    exact sameOutcome_of_rewrites (fun _ _ _ => Level.value?_of_completes) hd hd' h

/-- A method with a key that is not spelled as it should be, in the list of an extractor. -/
def strayContent : Content :=
  .mapping [(.scalar "Extractors".toList true, .sequence [
    .mapping [(.scalar "Methods".toList true, .sequence [.mapping [plainEntry "name" "x"]])]])]

theorem reading_is_by_known_keys_of_texts :
    SameOutcome (ofYaml "InstallationPath: a\nSchemasLocation: b\n")
        (ofYaml "SchemasLocation: b\nInstallationPath: a\n") ∧
      SameOutcome (ofYaml "InstallationPath: a\nSchemasLocation: b\n")
        (ofYaml "InstallationPath: a\nExtractors: []\nSchemasLocation: b\n") ∧
      ∃ failure,
        ofYaml "Extractors:\n- Methods:\n  - name: x\n" = .error (.unreadable failure) := by
  have hpaths : (Yaml.documentOf "InstallationPath: a\nSchemasLocation: b\n".toList).Says
      (.mapping [plainEntry "InstallationPath" "a", plainEntry "SchemasLocation" "b"]) := by
    decide +kernel
  have hswapped : (Yaml.documentOf "SchemasLocation: b\nInstallationPath: a\n".toList).Says
      (.mapping [plainEntry "SchemasLocation" "b", plainEntry "InstallationPath" "a"]) := by
    decide +kernel
  have hcompleted : (Yaml.documentOf
      "InstallationPath: a\nExtractors: []\nSchemasLocation: b\n".toList).Says
      (.mapping [plainEntry "InstallationPath" "a",
        (.scalar "Extractors".toList true, .sequence []), plainEntry "SchemasLocation" "b"]) := by
    decide +kernel
  have hstray : (Yaml.documentOf "Extractors:\n- Methods:\n  - name: x\n".toList).Says
      strayContent := by
    decide +kernel
  obtain ⟨hpermutes, _, hcompletes⟩ := reading_is_by_known_keys hpaths
  refine ⟨?_, ?_, ?_⟩
  · exact hpermutes _ _ hswapped (.single (.here (.swap _ _ _)))
  · refine hcompletes _ _ hcompleted (.single (.here ?_))
    exact @Completes.intro .config "Extractors" .list _ _ [_] _ (.head _) (by decide) rfl .list
  · refine (reading_is_by_known_keys hstray).2.1 .method [plainEntry "name" "x"] ?_ (.inl ?_)
    · exact .inside rfl (.head _) rfl (.head _) (.inside rfl (.head _) rfl (.head _) .here)
    · exact ⟨_, .head _, by decide⟩

end Config

end Extraction
