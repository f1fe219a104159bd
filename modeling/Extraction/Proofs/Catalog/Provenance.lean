import Extraction.Config.Validation
import Extraction.Proofs.Catalog.Registration

/-!
# Which extractor answers for a method

A method keeps the name of the extractor that provides it, and extractors are
found by name. Methods are registered first come, first served, while a later
extractor replaces an earlier one of the same name. So the extractor that
answers for a method is the last accepted one of the provider's name, at or
after the provider: the provider itself only if nothing that tells them apart
follows it.
-/

namespace Extraction.Catalog

variable {α β : Type} {host : Host} {config : Config}

/-- How an extractor of the configuration stands in the catalog. -/
def installed (config : Config) (e : ExtractorEntry) : CatalogExtractor :=
  extractorOf e (e.installPath config.installationPath)

/-- The last accepted extractor of a name in a list. -/
def IsLastAccepted (host : Host) (config : Config) (name : String) (es : List ExtractorEntry)
    (e : ExtractorEntry) : Prop :=
  ∃ before after, es = before ++ e :: after ∧ Accepts host config e ∧ e.name = name ∧
    ∀ f ∈ after, Accepts host config f → f.name ≠ name

/-- The extractor from whose list a method is registered, and the extractors before and after
it. -/
structure Provides (host : Host) (config : Config) (name : String)
    (before : List ExtractorEntry) (e : ExtractorEntry) (after : List ExtractorEntry) : Prop where
  split : config.extractors = before ++ e :: after
  offers : ∃ o ∈ e.offers, o.method.name = name ∧ ∃ schema, Usable host config o schema
  first : ∀ f ∈ before, ∀ o ∈ f.offers, o.method.name = name →
    ∀ schema, ¬ Usable host config o schema

/-- The extractor that an entry puts under a name. -/
def placed? (host : Host) (config : Config) (name : String) (e : ExtractorEntry) :
    Option CatalogExtractor :=
  match checkExtractor host (e.installPath config.installationPath) e with
  | .ok _ => if e.name = name then some (installed config e) else none
  | .error _ => none

theorem placed?_eq_some_iff {name : String} {e : ExtractorEntry} {E : CatalogExtractor} :
    placed? host config name e = some E ↔
      Accepts host config e ∧ e.name = name ∧ E = installed config e := by
  rw [← checkExtractor_eq_ok_iff]
  unfold placed?
  cases checkExtractor host (e.installPath config.installationPath) e with
  | error => simp
  | ok => by_cases hname : e.name = name <;> simp [hname, eq_comm]

theorem placed?_eq_none_iff {name : String} {e : ExtractorEntry} :
    placed? host config name e = none ↔ (Accepts host config e → e.name ≠ name) := by
  rw [Option.eq_none_iff_forall_ne_some]
  constructor
  · intro h haccepts hname
    exact h _ (placed?_eq_some_iff.mpr ⟨haccepts, hname, rfl⟩)
  · intro h E hE
    obtain ⟨haccepts, hname, _⟩ := placed?_eq_some_iff.mp hE
    exact h haccepts hname

/-- When each step that finds something replaces what was there before, a run finds what the last
such step does. -/
theorem addEach_last (add : Catalog → α → Catalog × List Event) (look : Catalog → Option β)
    (found : α → Option β)
    (hstep : ∀ catalog a, look (add catalog a).1 = (found a).or (look catalog))
    (catalog : Catalog) (items : List α) :
    look (addEach add catalog items).1 = (items.reverse.findSome? found).or (look catalog) := by
  induction items generalizing catalog with
  | nil => simp [addEach]
  | cons a rest ih =>
      simp only [addEach, List.reverse_cons, List.findSome?_append]
      -- This step comes last in the reversed list, and only what was there comes after it.
      rw [ih, hstep, Option.or_assoc]
      cases hfound : found a <;> simp [hfound]

theorem extractors_addMethod (e : ExtractorEntry) (catalog : Catalog) (m : MethodEntry) :
    (addMethod host config e catalog m).1.extractors = catalog.extractors := by
  rcases addMethod_cases host config e catalog m with
    ⟨_, heq⟩ | ⟨_, fault, _, heq⟩ | ⟨_, schema, _, heq⟩ <;> rw [heq]

theorem extractors_addEach_addMethod (e : ExtractorEntry) (catalog : Catalog)
    (ms : List MethodEntry) :
    (addEach (addMethod host config e) catalog ms).1.extractors = catalog.extractors :=
  addEach_invariant (fun next => next.extractors = catalog.extractors)
    (fun next m h => (extractors_addMethod e next m).trans h) rfl ms

/-- One extractor: it is put under its own name when it is accepted, and no other name changes. -/
theorem lookup_extractors_addExtractor (name : String) (catalog : Catalog) (e : ExtractorEntry) :
    (addExtractor host config catalog e).1.extractors.lookup name =
      (placed? host config name e).or (catalog.extractors.lookup name) := by
  by_cases he : Accepts host config e
  · rw [addExtractor_of_accepts he, extractors_addEach_addMethod, Table.lookup_insert]
    by_cases hname : name = e.name
    · rw [placed?_eq_some_iff.mpr ⟨he, hname.symm, rfl⟩, if_pos hname]
      rfl
    · rw [placed?_eq_none_iff.mpr fun _ => Ne.symm hname, if_neg hname, Option.none_or]
  · rw [addExtractor_of_not_accepts he, placed?_eq_none_iff.mpr fun h => absurd h he,
      Option.none_or]

theorem lookup_extractors_build (host : Host) (config : Config) (name : String) :
    (build host config).1.extractors.lookup name =
      config.extractors.reverse.findSome? (placed? host config name) := by
  have hrun := addEach_last (addExtractor host config) (·.extractors.lookup name) _
    (lookup_extractors_addExtractor name) {} config.extractors
  rw [build, hrun]
  exact Option.or_none

theorem findSome?_reverse_placed_iff {name : String} {es : List ExtractorEntry}
    {E : CatalogExtractor} :
    es.reverse.findSome? (placed? host config name) = some E ↔
      ∃ e, IsLastAccepted host config name es e ∧ E = installed config e := by
  simp only [List.findSome?_eq_some_iff, placed?_eq_some_iff, placed?_eq_none_iff]
  constructor
  · rintro ⟨after, e, before, hsplit, ⟨haccepts, hname, hE⟩, hafter⟩
    refine ⟨e, ⟨before.reverse, after.reverse, ?_, haccepts, hname, ?_⟩, hE⟩
    · simpa using congrArg List.reverse hsplit
    · exact fun f hf => hafter f (List.mem_reverse.mp hf)
  · rintro ⟨e, ⟨before, after, hsplit, haccepts, hname, hafter⟩, hE⟩
    refine ⟨after.reverse, e, before.reverse, ?_, ⟨haccepts, hname, hE⟩, ?_⟩
    · simp [hsplit]
    · exact fun f hf => hafter f (List.mem_reverse.mp hf)

/-- A method taken from an extractor carries the name of that extractor. -/
theorem Provides.method? {name : String} {before after : List ExtractorEntry} {e : ExtractorEntry}
    (h : Provides host config name before e after) :
    ∃ M, (build host config).1.method? name = some M ∧ M.extractor = e.name := by
  obtain ⟨hsplit, ⟨o, ho, hname, schema, husable⟩, hfirst⟩ := h
  have hbefore : ∀ f ∈ before, f.offers.findSome? (taken? host config name) = none := by
    intro f hf
    rw [List.findSome?_eq_none_iff]
    exact fun p hp => taken?_eq_none_iff.mpr (hfirst f hf p hp)
  have hsome : (e.offers.findSome? (taken? host config name)).isSome := by
    rw [List.findSome?_isSome_iff]
    exact ⟨o, ho, Option.isSome_of_eq_some (taken?_eq_some_iff.mpr ⟨hname, schema, husable, rfl⟩)⟩
  obtain ⟨M, hM⟩ := Option.isSome_iff_exists.mp hsome
  refine ⟨M, ?_, ?_⟩
  · rw [method?_build, findSome?_offers, List.findSome?_eq_some_iff]
    exact ⟨before, e, after, hsplit, hM, hbefore⟩
  · obtain ⟨p, hp, htaken⟩ := List.exists_of_findSome?_eq_some hM
    obtain ⟨_, _, _, rfl⟩ := taken?_eq_some_iff.mp htaken
    obtain ⟨m, _, rfl⟩ := List.mem_map.mp hp
    rfl

/-- Every registered method has an extractor it is taken from. -/
theorem isSome_method?_iff_provides (name : String) :
    ((build host config).1.method? name).isSome ↔
      ∃ before e after, Provides host config name before e after := by
  constructor
  · intro h
    obtain ⟨M, hM⟩ := Option.isSome_iff_exists.mp h
    rw [method?_build, findSome?_offers, List.findSome?_eq_some_iff] at hM
    obtain ⟨before, e, after, hsplit, hfound, hbefore⟩ := hM
    obtain ⟨o, ho, htaken⟩ := List.exists_of_findSome?_eq_some hfound
    obtain ⟨hname, schema, husable, _⟩ := taken?_eq_some_iff.mp htaken
    refine ⟨before, e, after, hsplit, ⟨o, ho, hname, schema, husable⟩, ?_⟩
    intro f hf p hp
    exact taken?_eq_none_iff.mp (List.findSome?_eq_none_iff.mp (hbefore f hf) p hp)
  · rintro ⟨before, e, after, h⟩
    obtain ⟨M, hM, _⟩ := h.method?
    exact Option.isSome_of_eq_some hM

/-- The extractor a method is taken from is accepted. -/
theorem Provides.accepts {name : String} {before after : List ExtractorEntry} {e : ExtractorEntry}
    (h : Provides host config name before e after) : Accepts host config e := by
  obtain ⟨o, ho, _, schema, husable⟩ := h.offers
  obtain ⟨m, _, rfl⟩ := List.mem_map.mp ho
  exact husable.accepts

/-- The last accepted extractor of the provider's name answers for a method. -/
theorem Provides.extractorFor? {name : String} {before after : List ExtractorEntry}
    {e : ExtractorEntry} (h : Provides host config name before e after) :
    ∃ last, IsLastAccepted host config e.name (e :: after) last ∧
      (build host config).1.extractorFor? name = some (installed config last) := by
  obtain ⟨M, hM, hextractor⟩ := h.method?
  have hplaced : ((e :: after).reverse.findSome? (placed? host config e.name)).isSome := by
    rw [List.findSome?_isSome_iff]
    exact ⟨e, by simp, Option.isSome_of_eq_some (placed?_eq_some_iff.mpr ⟨h.accepts, rfl, rfl⟩)⟩
  obtain ⟨E, hE⟩ := Option.isSome_iff_exists.mp hplaced
  obtain ⟨last, hlast, rfl⟩ := findSome?_reverse_placed_iff.mp hE
  refine ⟨last, hlast, ?_⟩
  rw [Catalog.extractorFor?, hM]
  change (build host config).1.extractors.lookup M.extractor = _
  rw [hextractor, lookup_extractors_build, h.split, List.reverse_append, List.findSome?_append, hE]
  rfl

/-- Every registered method is taken from some extractor of the configuration. What answers for it
is the last accepted extractor of that one's name, so the provider answers exactly when that last
one does not differ from it in path, template, arguments or version. -/
theorem extractorFor?_build_eq_provider_iff (host : Host) (config : Config) (name : String) :
    (((build host config).1.method? name).isSome ↔
      ∃ before e after, Provides host config name before e after) ∧
    ∀ before e after, Provides host config name before e after →
      ∃ last, IsLastAccepted host config e.name (e :: after) last ∧
        (build host config).1.extractorFor? name = some (installed config last) ∧
        ((build host config).1.extractorFor? name = some (installed config e) ↔
          installed config last = installed config e) := by
  refine ⟨isSome_method?_iff_provides name, ?_⟩
  intro before e after h
  obtain ⟨last, hlast, hanswer⟩ := h.extractorFor?
  exact ⟨last, hlast, hanswer, by rw [hanswer, Option.some_inj]⟩

/-- A version of an extractor that offers one method. -/
def oneVersion (version method : String) : ExtractorEntry :=
  { name := "reader", organization := "lab", project := "tools", version, executable := "reader"
    checksum := "0", checksumAlgorithm := "sha256", commandLineTemplate := "run"
    methods := [{ name := method, schema := "schema.json" }] }

/-- Two versions of an extractor side by side. -/
def twoVersions : Config :=
  { extractors := [oneVersion "v1" "first", oneVersion "v2" "second"]
    installationPath := "extractors"
    schemasLocation := "schemas" }

/-- A host on which every file is there and holds an empty object. -/
def fullHost : Host where
  isFile _ := true
  isPresent _ := true
  read _ := .ok [0x7B, 0x7D]
  isCommand _ := false
  lookupVariable _ := none
  executableDirectory := none

/-- With two versions under one name in a valid configuration, the second version answers for the
method that only the first one offers. -/
theorem extractorFor?_build_twoVersions :
    twoVersions.validate = .ok () ∧
      Provides fullHost twoVersions "first" [] (oneVersion "v1" "first")
        [oneVersion "v2" "second"] ∧
      (build fullHost twoVersions).1.extractorFor? "first" =
        some (installed twoVersions (oneVersion "v2" "second")) ∧
      (build fullHost twoVersions).1.extractorFor? "first" ≠
        some (installed twoVersions (oneVersion "v1" "first")) := by
  have hread : Template.check "run" = .ok () := by cbv
  have hanswer : (build fullHost twoVersions).1.extractorFor? "first" =
      some (installed twoVersions (oneVersion "v2" "second")) := by decide +kernel
  refine ⟨by cbv, ⟨rfl, ?_, by simp⟩, hanswer, ?_⟩
  · exact ⟨_, List.mem_singleton_self _, rfl, _, ⟨rfl, rfl, hread⟩, rfl, rfl, by decide⟩
  · rw [hanswer]
    decide

end Extraction.Catalog
