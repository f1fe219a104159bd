import Extraction.Config.Lookup
import Extraction.Proofs.Config.Shape
import Extraction.Proofs.Text.Octets

/-!
# Which configuration counts

Which file holds the configuration is settled before any file is read: the one
named explicitly, the one a variable names, or the first candidate that is a
file. Whatever is wrong with that file, no other one is tried. So all that counts
is which path is chosen, and what reading the file there gives. This holds where
variables that are set hold texts. One that does not is passed over, and the
configuration of a file it does not name is loaded.
-/

namespace Extraction

namespace Config

section Choice

variable {host : Host} {explicit : Option Path}

/-- The path of the configuration beside the executable. -/
def beside (directory : Path) : Path := Path.join directory defaultFileName

/-- The path of the configuration in the user's directory of configurations. -/
def inUserDirectory (directory : Path) : Path :=
  Path.join (Path.join directory "extmethods") defaultFileName

/-- The user's directory of configurations, if there is one. A variable that is set counts, even to
an empty text. -/
inductive UserDirectory (host : Host) : Option Path → Prop
  | named {directory : Path}
      (hnamed : host.lookupVariable "XDG_CONFIG_HOME" = some (Octets.ofString directory)) :
      UserDirectory host (some directory)
  | belowHome {home : Path} (hunnamed : host.lookupVariable "XDG_CONFIG_HOME" = none)
      (hhome : host.lookupVariable "HOME" = some (Octets.ofString home)) :
      UserDirectory host (some (Path.join home ".config"))
  | missing (hunnamed : host.lookupVariable "XDG_CONFIG_HOME" = none)
      (hhomeless : host.lookupVariable "HOME" = none) : UserDirectory host none

/-- Where a configuration is looked for that is not named, in order. -/
inductive Searches (host : Host) : List Path → Prop
  | intro {directory : Option Path} (h : UserDirectory host directory) :
      Searches host ((host.executableDirectory.map beside).toList ++
        (directory.map inUserDirectory).toList)

/-- The path that holds the configuration. -/
inductive Chooses (host : Host) : Option Path → Path → Prop
  | explicit (path : Path) : Chooses host (some path) path
  | named {path : Path}
      (hnamed : host.lookupVariable pathVariable = some (Octets.ofString path)) :
      Chooses host none path
  | found {before after : List Path} {path : Path}
      (hunnamed : host.lookupVariable pathVariable = none)
      (hsearches : Searches host (before ++ path :: after))
      (hbefore : ∀ other ∈ before, host.isFile other = false) (hfile : host.isFile path = true) :
      Chooses host none path

/-- The variables that tell where configurations are. -/
def placeVariables : List String := [pathVariable, "XDG_CONFIG_HOME", "HOME"]

/-- The variables that tell where configurations are hold texts, those of them that are set. -/
def HoldsTexts (host : Host) : Prop :=
  ∀ name ∈ placeVariables, ∀ value, host.lookupVariable name = some value →
    ∃ text, value = Octets.ofString text

/-- Only a text is found in a variable. -/
theorem lookupText_eq_some_iff {name text : String} :
    host.lookupText name = some text ↔ host.lookupVariable name = some (Octets.ofString text) := by
  rw [Host.lookupText, Option.bind_eq_some_iff]
  constructor
  · rintro ⟨value, hvalue, htext⟩
    rw [hvalue, Octets.toString?_eq_some_iff.mp htext]
  · intro h
    exact ⟨_, h, Octets.toString?_ofString text⟩

/-- A variable that holds a text if it is set is passed over only if it is not set. -/
theorem HoldsTexts.lookupText_eq_none_iff (h : HoldsTexts host) (name : String)
    (hname : name ∈ placeVariables) :
    host.lookupText name = none ↔ host.lookupVariable name = none := by
  constructor
  · intro hnone
    cases hvalue : host.lookupVariable name with
    | none => rfl
    | some value =>
        obtain ⟨text, rfl⟩ := h name hname value hvalue
        rw [lookupText_eq_some_iff.mpr hvalue] at hnone
        cases hnone
  · intro hunset
    rw [Host.lookupText, hunset]
    rfl

theorem userDirectory_iff (h : HoldsTexts host) {directory : Option Path} :
    UserDirectory host directory ↔ userDirectory host = directory := by
  have hnamed := h.lookupText_eq_none_iff "XDG_CONFIG_HOME" (by decide)
  have hhome := h.lookupText_eq_none_iff "HOME" (by decide)
  unfold userDirectory
  constructor
  · intro h
    cases h with
    | named hset => rw [lookupText_eq_some_iff.mpr hset]
    | belowHome hunset hset => rw [hnamed.mpr hunset, lookupText_eq_some_iff.mpr hset]; rfl
    | missing hunset hhomeless => rw [hnamed.mpr hunset, hhome.mpr hhomeless]; rfl
  · rintro rfl
    split
    next hset => exact .named (lookupText_eq_some_iff.mp hset)
    next hunset =>
      cases hset : host.lookupText "HOME" with
      | none => exact .missing (hnamed.mp hunset) (hhome.mp hset)
      | some home => exact .belowHome (hnamed.mp hunset) (lookupText_eq_some_iff.mp hset)

theorem searches_iff (h : HoldsTexts host) {searched : List Path} :
    Searches host searched ↔ candidates host = searched := by
  constructor
  · rintro ⟨hdirectory⟩
    rw [← (userDirectory_iff h).mp hdirectory]
    rfl
  · rintro rfl
    exact .intro ((userDirectory_iff h).mpr rfl)

theorem chooses_iff (h : HoldsTexts host) {path : Path} :
    Chooses host explicit path ↔ choose host explicit = some path := by
  have hunnamed := h.lookupText_eq_none_iff pathVariable (by decide)
  unfold choose
  constructor
  · intro hchooses
    cases hchooses with
    | explicit => rfl
    | named hset => rw [lookupText_eq_some_iff.mpr hset]
    | found hunset hsearches hbefore hfile =>
        rw [hunnamed.mpr hunset, (searches_iff h).mp hsearches]
        refine List.find?_eq_some_iff_append.mpr ⟨hfile, _, _, rfl, fun other hother => ?_⟩
        rw [hbefore other hother]
        rfl
  · intro hchoose
    split at hchoose
    next =>
      cases hchoose
      exact .explicit path
    next =>
      split at hchoose
      next hset =>
        cases hchoose
        exact .named (lookupText_eq_some_iff.mp hset)
      next hunset =>
        obtain ⟨hfile, before, after, hcandidates, hbefore⟩ :=
          List.find?_eq_some_iff_append.mp hchoose
        refine .found (hunnamed.mp hunset) ((searches_iff h).mpr hcandidates)
          (fun other hother => ?_) hfile
        simpa using hbefore other hother

theorem Chooses.unique (htexts : HoldsTexts host) {path other : Path}
    (h : Chooses host explicit path) (hother : Chooses host explicit other) : other = path := by
  have heq := ((chooses_iff htexts).mp hother).symm.trans ((chooses_iff htexts).mp h)
  exact Option.some.inj heq

end Choice

/-- What comes of the file at a path, by what reading it gives. -/
inductive Yields (path : Path) : Except FileError Octets → Except LoadError Config → Prop
  | unreadable (e : FileError) : Yields path (.error e) (.error (.unreadable path (.file e)))
  | notText {octets : Octets} (hnoText : ∀ text, octets ≠ Octets.ofString text) :
      Yields path (.ok octets) (.error (.unreadable path .notText))
  | malformed {text : String} {failure : Yaml.Failure}
      (hread : ofDocument (Yaml.documentOf text.toList) = .error failure) :
      Yields path (.ok (Octets.ofString text)) (.error (.text (.unreadable failure)))
  | invalid {text : String} {c : Config} {v : Violation}
      (hread : ofDocument (Yaml.documentOf text.toList) = .ok c)
      (hinvalid : c.validate = .error v) :
      Yields path (.ok (Octets.ofString text)) (.error (.text (.invalid v)))
  | valid {text : String} {c : Config}
      (hread : ofDocument (Yaml.documentOf text.toList) = .ok c) (hvalid : c.validate = .ok ()) :
      Yields path (.ok (Octets.ofString text)) (.ok c)

section Reading

variable {host : Host} {path : Path}

theorem ofFile_of_error {e : FileError} (h : host.read path = .error e) :
    ofFile host path = .error (.unreadable path (.file e)) := by
  rw [ofFile, readText, h]
  rfl

theorem ofFile_of_octets {octets : Octets} (h : host.read path = .ok octets) :
    ofFile host path = (textOf octets).mapError (.unreadable path) >>= fun text =>
      (ofYaml text).mapError .text := by
  rw [ofFile, readText, h]
  rfl

theorem textOf_of_no_text {octets : Octets} (h : ∀ text, octets ≠ Octets.ofString text) :
    textOf octets = .error .notText := by
  cases htext : octets.toString? with
  | none => rw [textOf, htext]
  | some text => exact absurd (Octets.toString?_eq_some_iff.mp htext) (h text)

theorem ofFile_of_text {text : String} (h : host.read path = .ok (Octets.ofString text)) :
    ofFile host path = (ofYaml text).mapError .text := by
  rw [ofFile_of_octets h, textOf, Octets.toString?_ofString]
  rfl

/-- A text holds a valid configuration when what is read from it is one. -/
theorem ofYaml_eq_ok_iff {text : String} {c : Config} :
    ofYaml text = .ok c ↔
      ofDocument (Yaml.documentOf text.toList) = .ok c ∧ c.validate = .ok () := by
  rw [ofYaml]
  constructor
  · intro h
    obtain ⟨read, hread, hchecked⟩ := ok_of_bind h
    obtain ⟨_, hvalid, hresult⟩ := ok_of_bind hchecked
    cases hresult
    exact ⟨ok_of_mapError hread, ok_of_mapError hvalid⟩
  · rintro ⟨hread, hvalid⟩
    rw [hread, checked_ok hvalid]

/-- The file at a path yields its configuration, or what is wrong with it. -/
theorem yields_ofFile (host : Host) (path : Path) :
    Yields path (host.read path) (ofFile host path) := by
  cases hread : host.read path with
  | error e =>
      rw [ofFile_of_error hread]
      exact .unreadable e
  | ok octets =>
      by_cases htext : ∃ text, octets = Octets.ofString text
      · obtain ⟨text, rfl⟩ := htext
        rw [ofFile_of_text hread, ofYaml]
        cases hdocument : ofDocument (Yaml.documentOf text.toList) with
        | error failure => exact .malformed hdocument
        | ok c =>
            cases hvalid : c.validate with
            | ok =>
                rw [checked_ok hvalid]
                exact .valid hdocument hvalid
            | error v =>
                rw [checked_ok_of_invalid hvalid]
                exact .invalid hdocument hvalid
      · have hnoText := not_exists.mp htext
        rw [ofFile_of_octets hread, textOf_of_no_text hnoText]
        exact .notText hnoText

/-- It yields nothing else. -/
theorem yields_iff {outcome : Except LoadError Config} :
    Yields path (host.read path) outcome ↔ ofFile host path = outcome := by
  constructor
  · intro h
    generalize hread : host.read path = octets at h
    cases h with
    | unreadable e => exact ofFile_of_error hread
    | notText hnoText =>
        rw [ofFile_of_octets hread, textOf_of_no_text hnoText]
        rfl
    | malformed hdocument =>
        rw [ofFile_of_text hread, ofYaml, hdocument]
        rfl
    | invalid hdocument hinvalid =>
        rw [ofFile_of_text hread, ofYaml, hdocument, checked_ok_of_invalid hinvalid]
        rfl
    | valid hdocument hvalid =>
        rw [ofFile_of_text hread, ofYaml, hdocument, checked_ok hvalid]
        rfl
  · rintro rfl
    exact yields_ofFile host path

theorem ofFile_eq_ok_iff {c : Config} :
    ofFile host path = .ok c ↔ ∃ text, host.read path = .ok (Octets.ofString text) ∧
      ofYaml text = .ok c := by
  constructor
  · intro h
    have hyields := yields_iff.mpr h
    generalize hread : host.read path = octets at hyields
    cases hyields with
    | valid hdocument hvalid => exact ⟨_, rfl, ofYaml_eq_ok_iff.mpr ⟨hdocument, hvalid⟩⟩
  · rintro ⟨text, hread, hyaml⟩
    rw [ofFile_of_text hread, hyaml]
    rfl

end Reading

section Loading

variable {host host' : Host} {explicit explicit' : Option Path} {path : Path}

theorem load_of_chooses (htexts : HoldsTexts host) (h : Chooses host explicit path) :
    load host explicit = (ofFile host path).map (·, path) := by
  rw [load, (chooses_iff htexts).mp h]

theorem load_of_chooses_nothing (htexts : HoldsTexts host)
    (h : ∀ path, ¬ Chooses host explicit path) :
    load host explicit = .error (.notFound (candidates host)) := by
  have hnone : choose host explicit = none := by
    rw [Option.eq_none_iff_forall_ne_some]
    exact fun path hpath => h path ((chooses_iff htexts).mpr hpath)
  rw [load, hnone]

/-- Two runs that choose the same path and read the same there end alike, whatever else differs on
their hosts. -/
theorem load_congr (htexts : HoldsTexts host) (htexts' : HoldsTexts host')
    (h : Chooses host explicit path) (h' : Chooses host' explicit' path)
    (hread : host'.read path = host.read path) : load host' explicit' = load host explicit := by
  have hyields := yields_ofFile host' path
  rw [hread] at hyields
  rw [load_of_chooses htexts h, load_of_chooses htexts' h', yields_iff.mp hyields]

theorem load_eq_ok_iff (htexts : HoldsTexts host) {c : Config} :
    load host explicit = .ok (c, path) ↔ Chooses host explicit path ∧
      ∃ text, host.read path = .ok (Octets.ofString text) ∧ ofYaml text = .ok c := by
  constructor
  · intro h
    by_cases hchooses : ∃ chosen, Chooses host explicit chosen
    · obtain ⟨chosen, hchosen⟩ := hchooses
      rw [load_of_chooses htexts hchosen] at h
      obtain ⟨_, hfile, heq⟩ := ok_of_map h
      cases heq
      exact ⟨hchosen, ofFile_eq_ok_iff.mp hfile⟩
    · rw [load_of_chooses_nothing htexts (not_exists.mp hchooses)] at h
      cases h
  · rintro ⟨hchooses, hfile⟩
    rw [load_of_chooses htexts hchooses, ofFile_eq_ok_iff.mpr hfile]
    rfl

/-- A host with the same files, on which variables that hold no text are not set. -/
def textsOnly (host : Host) : Host :=
  { host with lookupVariable name := (host.lookupText name).map Octets.ofString }

theorem holdsTexts_textsOnly (host : Host) : HoldsTexts (textsOnly host) := by
  intro name _ value hvalue
  obtain ⟨text, _, htext⟩ := Option.map_eq_some_iff.mp hvalue
  exact ⟨text, htext.symm⟩

theorem lookupText_textsOnly (host : Host) (name : String) :
    (textsOnly host).lookupText name = host.lookupText name := by
  change ((host.lookupText name).map Octets.ofString).bind Octets.toString? = _
  cases host.lookupText name with
  | none => rfl
  | some text => exact Octets.toString?_ofString text

/-- A variable that holds no text does not count. -/
theorem load_textsOnly (host : Host) (explicit : Option Path) :
    load (textsOnly host) explicit = load host explicit := by
  have hcandidates : candidates (textsOnly host) = candidates host := by
    unfold candidates userDirectory
    simp only [lookupText_textsOnly]
    rfl
  have hchoose : choose (textsOnly host) explicit = choose host explicit := by
    unfold choose
    simp only [lookupText_textsOnly, hcandidates]
    rfl
  have hfile (path : Path) : ofFile (textsOnly host) path = ofFile host path := rfl
  unfold load
  simp only [hchoose, hcandidates, hfile]

/-- Loading comes to the same where variables that hold no text are not set. Where all variables
that are set hold texts, either exactly one path is chosen, and loading yields what the file there
yields; so any two runs that choose this path and read the same there end alike. Or none is chosen,
and loading tells where it has looked. A configuration is loaded exactly from the file at the chosen
path, when that is text in which a valid configuration is read. -/
theorem load_is_by_priority (host : Host) (explicit : Option Path) :
    load (textsOnly host) explicit = load host explicit ∧ HoldsTexts (textsOnly host) ∧
    (HoldsTexts host →
      ((∃ path, Chooses host explicit path ∧
          (∀ other, Chooses host explicit other → other = path) ∧
          (∃ outcome, (∀ result, Yields path (host.read path) result ↔ result = outcome) ∧
            load host explicit = outcome.map (·, path)) ∧
          ∀ (host' : Host) (explicit' : Option Path), HoldsTexts host' →
            Chooses host' explicit' path → host'.read path = host.read path →
            load host' explicit' = load host explicit) ∨
        ((∀ path, ¬ Chooses host explicit path) ∧
          ∃ searched, Searches host searched ∧
            load host explicit = .error (.notFound searched))) ∧
      ∀ c path, load host explicit = .ok (c, path) ↔ Chooses host explicit path ∧
        ∃ text, host.read path = .ok (Octets.ofString text) ∧ ofYaml text = .ok c ∧
          ofDocument (Yaml.documentOf text.toList) = .ok c ∧ c.validate = .ok ()) := by
  refine ⟨load_textsOnly host explicit, holdsTexts_textsOnly host, fun htexts => ⟨?_, ?_⟩⟩
  · by_cases hchooses : ∃ path, Chooses host explicit path
    · obtain ⟨path, h⟩ := hchooses
      refine .inl ⟨path, h, fun other => h.unique htexts, ?_,
        fun host' explicit' htexts' => load_congr htexts htexts' h⟩
      refine ⟨ofFile host path, fun result => ?_, load_of_chooses htexts h⟩
      rw [yields_iff, eq_comm]
    · have hnone := not_exists.mp hchooses
      exact .inr ⟨hnone, _, (searches_iff htexts).mpr rfl, load_of_chooses_nothing htexts hnone⟩
  · intro c path
    rw [load_eq_ok_iff htexts]
    refine and_congr_right fun _ => exists_congr fun text => and_congr_right fun _ => ?_
    rw [← ofYaml_eq_ok_iff, and_self]

/-- A host without a configuration beside the executable, and with no text in the file of the user's
directory. -/
def misplaced : Host where
  isFile path := path == "user/extmethods/extmethods-config.yaml"
  isPresent _ := true
  read _ := .ok [0xFF]
  isCommand _ := false
  lookupVariable name :=
    if name = "XDG_CONFIG_HOME" then some (Octets.ofString "user") else none
  executableDirectory := some "bin"

/-- A host with the same in that file, and a valid configuration in all others. -/
def misplacedOnce : Host where
  isFile _ := true
  isPresent _ := true
  read path :=
    .ok (if path = "user/extmethods/extmethods-config.yaml" then [0xFF]
      else Octets.ofString "InstallationPath: a\nSchemasLocation: b\n")
  isCommand _ := false
  lookupVariable name := if name = "HOME" then some (Octets.ofString "home") else none
  executableDirectory := some "bin"

theorem no_text (text : String) : [0xFF] ≠ Octets.ofString text := by
  intro h
  have htext := Octets.toString?_eq_some_iff.mpr h
  have hrefused : Octets.toString? [0xFF] = none := by decide +kernel
  rw [hrefused] at htext
  cases htext

theorem load_is_by_priority_misplaced :
    HoldsTexts misplaced ∧ HoldsTexts misplacedOnce ∧
      Chooses misplaced none "user/extmethods/extmethods-config.yaml" ∧
      load misplaced none =
        .error (.unreadable "user/extmethods/extmethods-config.yaml" .notText) ∧
      load misplacedOnce (some "user/extmethods/extmethods-config.yaml") = load misplaced none := by
  have htexts : HoldsTexts misplaced := by
    intro name _ value hvalue
    simp only [misplaced, Option.ite_none_right_eq_some, Option.some.injEq] at hvalue
    exact ⟨_, hvalue.2.symm⟩
  have htextsOnce : HoldsTexts misplacedOnce := by
    intro name _ value hvalue
    simp only [misplacedOnce, Option.ite_none_right_eq_some, Option.some.injEq] at hvalue
    exact ⟨_, hvalue.2.symm⟩
  have hchooses : Chooses misplaced none "user/extmethods/extmethods-config.yaml" :=
    (chooses_iff htexts).mpr (by decide +kernel)
  refine ⟨htexts, htextsOnce, hchooses, ?_⟩
  obtain ⟨_, _, hpriority⟩ := load_is_by_priority misplaced none
  obtain ⟨⟨path, _, hunique, ⟨outcome, hyields, hload⟩, hcongr⟩ | ⟨hnone, _⟩, _⟩ :=
    hpriority htexts
  · obtain rfl := hunique _ hchooses
    obtain rfl := (hyields _).mp (.notText no_text)
    exact ⟨hload, hcongr misplacedOnce _ htextsOnce (.explicit _) (by decide)⟩
  · exact absurd hchooses (hnone _)

/-- A host on which the path of the configuration is set to what is no text. -/
def misnamed : Host where
  isFile path := path == "bin/extmethods-config.yaml"
  isPresent _ := true
  read path :=
    if path = "bin/extmethods-config.yaml" then
      .ok (Octets.ofString "InstallationPath: a\nSchemasLocation: b\n")
    else .error .notFound
  isCommand _ := false
  lookupVariable name := if name = pathVariable then some [0xFF] else none
  executableDirectory := some "bin"

/-- The variable is set to the text of no path, and another file's configuration is loaded. -/
theorem load_misnamed :
    misnamed.lookupVariable pathVariable = some [0xFF] ∧
      (∀ path : Path, [0xFF] ≠ Octets.ofString path) ∧
      load misnamed none = .ok
        ({ installationPath := "a", schemasLocation := "b" }, "bin/extmethods-config.yaml") := by
  refine ⟨rfl, no_text, ?_⟩
  have hchoose : choose misnamed none = some "bin/extmethods-config.yaml" := by decide +kernel
  have hread : ofYaml "InstallationPath: a\nSchemasLocation: b\n" =
      .ok { installationPath := "a", schemasLocation := "b" } := by
    have hsays : (Yaml.documentOf "InstallationPath: a\nSchemasLocation: b\n".toList).Says
        (.mapping [plainEntry "InstallationPath" "a", plainEntry "SchemasLocation" "b"]) := by
      decide +kernel
    exact ofYaml_eq_ok_iff.mpr ⟨ofDocument_eq_ok hsays (by decide +kernel), by cbv⟩
  rw [load, hchoose]
  dsimp only
  rw [ofFile_of_text rfl, hread]
  rfl

end Loading

end Config

end Extraction
