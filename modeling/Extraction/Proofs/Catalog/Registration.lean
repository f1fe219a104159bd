import Extraction.Proofs.Catalog.Offer
import Extraction.Proofs.Table

/-!
# Which method is registered

Building goes through the extractors and, for each accepted one, through its
methods. A method is found in the finished catalog exactly when some offer of
its name can be used, and it is the one of the first such offer. What precedes
that offer does not block it, and what follows does not replace it.
-/

namespace Extraction.Catalog

variable {α β : Type} {host : Host} {config : Config}

/-- What each step keeps a run keeps. -/
theorem addEach_invariant {add : Catalog → α → Catalog × List Event} (Inv : Catalog → Prop)
    (hstep : ∀ catalog a, Inv catalog → Inv (add catalog a).1) {catalog : Catalog}
    (h : Inv catalog) (items : List α) : Inv (addEach add catalog items).1 := by
  induction items generalizing catalog with
  | nil => exact h
  | cons a rest ih => exact ih (hstep catalog a h)

/-- When what is looked for is only ever gained where it was missing, a run finds what was there
before, or else what the first step that finds something does. -/
theorem addEach_first (add : Catalog → α → Catalog × List Event) (look : Catalog → Option β)
    (found : α → Option β)
    (hstep : ∀ catalog a, look (add catalog a).1 = (look catalog).or (found a))
    (catalog : Catalog) (items : List α) :
    look (addEach add catalog items).1 = (look catalog).or (items.findSome? found) := by
  induction items generalizing catalog with
  | nil => simp [addEach]
  | cons a rest ih =>
      simp only [addEach, List.findSome?_cons]
      -- What was there counts first, then what this step finds, then what the others do.
      rw [ih, hstep, Option.or_assoc]
      cases found a <;> rfl

/-- What becomes of a method: it is left out for its name or for its schema, or it is registered. -/
theorem addMethod_cases (host : Host) (config : Config) (e : ExtractorEntry) (catalog : Catalog)
    (m : MethodEntry) :
    ((catalog.method? m.name).isSome = true ∧
      addMethod host config e catalog m = (catalog, [.repeatedMethod m.name])) ∨
    (catalog.method? m.name = none ∧ ∃ fault,
      readSchema host (config.schemaPath m) = .error fault ∧
      addMethod host config e catalog m =
        (catalog, [.unusableSchema m.name (config.schemaPath m) fault])) ∨
    (catalog.method? m.name = none ∧ ∃ schema,
      readSchema host (config.schemaPath m) = .ok schema ∧
      addMethod host config e catalog m =
        ({ catalog with methods :=
            catalog.methods.insert m.name ⟨m.name, Base64.encode schema, e.name⟩ }, [])) := by
  unfold addMethod
  split
  next hregistered => exact .inl ⟨hregistered, rfl⟩
  next hmissing =>
    rw [Option.not_isSome_iff_eq_none] at hmissing
    refine .inr ?_
    cases hread : readSchema host (config.schemaPath m) with
    | error fault => exact .inl ⟨hmissing, fault, rfl, by simp only [hread]⟩
    | ok schema => exact .inr ⟨hmissing, schema, rfl, by simp only [hread]⟩

/-- What becomes of an extractor: it is left out, or its methods are taken in and then the extractor
itself. -/
theorem addExtractor_cases (host : Host) (config : Config) (catalog : Catalog)
    (e : ExtractorEntry) :
    (∃ event, checkExtractor host (e.installPath config.installationPath) e = .error event ∧
      addExtractor host config catalog e = (catalog, announce config e ++ [event])) ∨
    (Accepts host config e ∧ addExtractor host config catalog e =
      ({ (addEach (addMethod host config e) catalog e.methods).1 with
          extractors := (addEach (addMethod host config e) catalog e.methods).1.extractors.insert
            e.name (extractorOf e (e.installPath config.installationPath)) },
        announce config e ++ (addEach (addMethod host config e) catalog e.methods).2)) := by
  cases hcheck : checkExtractor host (e.installPath config.installationPath) e with
  | error event => exact .inl ⟨event, rfl, by simp [addExtractor, hcheck]⟩
  | ok =>
      exact .inr ⟨checkExtractor_eq_ok_iff.mp hcheck, by simp [addExtractor, hcheck]⟩

/-- An extractor that is not accepted leaves the catalog as it is. -/
theorem addExtractor_of_not_accepts {e : ExtractorEntry} (he : ¬ Accepts host config e)
    (catalog : Catalog) : (addExtractor host config catalog e).1 = catalog := by
  rcases addExtractor_cases host config catalog e with ⟨event, _, heq⟩ | ⟨haccepts, _⟩
  · rw [heq]
  · exact absurd haccepts he

/-- An accepted extractor has its methods taken in one after the other, and is then put under its
name itself. -/
theorem addExtractor_of_accepts {e : ExtractorEntry} (he : Accepts host config e)
    (catalog : Catalog) :
    (addExtractor host config catalog e).1 =
      { (addEach (addMethod host config e) catalog e.methods).1 with
        extractors :=
          (addEach (addMethod host config e) catalog e.methods).1.extractors.insert e.name
            (extractorOf e (e.installPath config.installationPath)) } := by
  rcases addExtractor_cases host config catalog e with ⟨event, hcheck, _⟩ | ⟨_, heq⟩
  · rw [checkExtractor_eq_ok_iff.mpr he] at hcheck
    cases hcheck
  · rw [heq]

/-- One method of an accepted extractor: only its own name can gain a method, and only when it has
none. -/
theorem method?_addMethod {e : ExtractorEntry} (he : Accepts host config e) (name : String)
    (catalog : Catalog) (m : MethodEntry) :
    (addMethod host config e catalog m).1.method? name =
      (catalog.method? name).or (taken? host config name ⟨e, m⟩) := by
  have hcheck := checkExtractor_eq_ok_iff.mpr he
  rcases addMethod_cases host config e catalog m with
    ⟨hregistered, heq⟩ | ⟨_, fault, hread, heq⟩ | ⟨hmissing, schema, hread, heq⟩
  · -- The name is taken, so the method is left out; no other name is concerned.
    rw [heq]
    by_cases hname : m.name = name
    · obtain ⟨M, hM⟩ := Option.isSome_iff_exists.mp hregistered
      rw [← hname, hM]
      rfl
    · have hnone : taken? host config name ⟨e, m⟩ = none :=
        taken?_eq_none_iff.mpr fun h => absurd h hname
      rw [hnone, Option.or_none]
  · simp [heq, taken?, hread]
  · simp only [heq, method?, taken?, hcheck, hread, Table.lookup_insert]
    by_cases hname : m.name = name
    · subst hname
      rw [method?] at hmissing
      simp [hmissing]
    · simp [hname, Ne.symm hname]

/-- One extractor: each name without a method gains that of the first usable offer among its
own. -/
theorem method?_addExtractor (name : String) (catalog : Catalog) (e : ExtractorEntry) :
    (addExtractor host config catalog e).1.method? name =
      (catalog.method? name).or (e.offers.findSome? (taken? host config name)) := by
  by_cases he : Accepts host config e
  · rw [addExtractor_of_accepts he, ExtractorEntry.offers, List.findSome?_map]
    exact addEach_first (addMethod host config e) (·.method? name) _ (method?_addMethod he name)
      catalog e.methods
  · have hnone : e.offers.findSome? (taken? host config name) = none := by
      rw [List.findSome?_eq_none_iff]
      intro o ho
      obtain ⟨m, _, rfl⟩ := List.mem_map.mp ho
      exact taken?_eq_none_iff.mpr fun _ _ husable => he husable.accepts
    rw [addExtractor_of_not_accepts he, hnone, Option.or_none]

theorem findSome?_offers (found : Offer → Option β) (config : Config) :
    config.offers.findSome? found = config.extractors.findSome? (·.offers.findSome? found) := by
  unfold Config.offers
  induction config.extractors with
  | nil => rfl
  | cons e rest ih =>
      rw [List.flatMap_cons, List.findSome?_append, List.findSome?_cons, ih]
      cases e.offers.findSome? found <;> rfl

/-- A name has the method of the first offer of that name that can be used. -/
theorem method?_build (host : Host) (config : Config) (name : String) :
    (build host config).1.method? name = config.offers.findSome? (taken? host config name) := by
  rw [findSome?_offers]
  exact addEach_first (addExtractor host config) (·.method? name) _ (method?_addExtractor name)
    {} config.extractors

/-- The method of a name is that of an offer of the name that can be used, and is the first such
one. -/
theorem method?_build_eq_some_iff {name : String} {M : CatalogMethod} :
    (build host config).1.method? name = some M ↔
      ∃ before o after schema, config.offers = before ++ o :: after ∧
        o.method.name = name ∧ Usable host config o schema ∧
        (∀ p ∈ before, p.method.name = name → ∀ schema, ¬ Usable host config p schema) ∧
        M = { name := name, schema := Base64.encode schema, extractor := o.extractor.name } := by
  simp only [method?_build, List.findSome?_eq_some_iff, taken?_eq_some_iff, taken?_eq_none_iff]
  constructor
  · rintro ⟨before, o, after, hsplit, ⟨hname, schema, husable, hM⟩, hbefore⟩
    exact ⟨before, o, after, schema, hsplit, hname, husable, hbefore, hM⟩
  · rintro ⟨before, o, after, schema, hsplit, hname, husable, hbefore, hM⟩
    exact ⟨before, o, after, hsplit, ⟨hname, schema, husable, hM⟩, hbefore⟩

/-- A name has a method exactly when an offer of that name can be used, and a method is found under
a name exactly when it comes from the first of these offers in the order of the configuration. -/
theorem method?_build_iff_first_usable (host : Host) (config : Config) (name : String) :
    (((build host config).1.method? name).isSome ↔
      ∃ o ∈ config.offers, o.method.name = name ∧ ∃ schema, Usable host config o schema) ∧
    ∀ M, (build host config).1.method? name = some M ↔
      ∃ before o after schema, config.offers = before ++ o :: after ∧
        o.method.name = name ∧ Usable host config o schema ∧
        (∀ p ∈ before, p.method.name = name → ∀ schema, ¬ Usable host config p schema) ∧
        M = { name := name, schema := Base64.encode schema, extractor := o.extractor.name } := by
  refine ⟨?_, fun M => method?_build_eq_some_iff⟩
  · rw [method?_build, List.findSome?_isSome_iff]
    simp only [Option.isSome_iff_exists, taken?_eq_some_iff]
    constructor
    · rintro ⟨o, ho, M, hname, schema, husable, _⟩
      exact ⟨o, ho, hname, schema, husable⟩
    · rintro ⟨o, ho, hname, schema, husable⟩
      exact ⟨o, ho, _, hname, schema, husable, rfl⟩

end Extraction.Catalog
