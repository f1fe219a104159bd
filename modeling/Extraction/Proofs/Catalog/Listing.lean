import Extraction.Proofs.Catalog.Provenance

/-!
# What is found in a catalog

While a catalog is built its methods stay in order, each under its own name. So
the methods are known by what is found under the names, and the list of records
holds one record for each name that has a method and none for any other. Catalogs
in which the same is found have the same list.
-/

namespace Extraction

/-- Both records have names, and the octets of the one name come before those of the other. -/
def Record.Precedes (r other : Record) : Prop :=
  ∃ name next, r.name = some name ∧ other.name = some next ∧
    Octets.ofString name < Octets.ofString next

namespace Catalog

variable {host : Host} {config : Config} {catalog other : Catalog}

/-- The methods are in order, and each stands under its own name. -/
structure Ordered (catalog : Catalog) : Prop where
  sorted : Table.Sorted catalog.methods
  named : ∀ entry ∈ catalog.methods, entry.2.name = entry.1

/-- Two catalogs that answer every question alike. -/
structure SameAnswers (catalog other : Catalog) : Prop where
  records : catalog.records = other.records
  isEmpty : catalog.isEmpty = other.isEmpty
  method? : ∀ name, catalog.method? name = other.method? name
  extractorFor? : ∀ name, catalog.extractorFor? name = other.extractorFor? name

theorem ordered_addMethod {e : ExtractorEntry} {m : MethodEntry} (h : Ordered catalog) :
    Ordered (addMethod host config e catalog m).1 := by
  rcases addMethod_cases host config e catalog m with
    ⟨_, heq⟩ | ⟨_, fault, _, heq⟩ | ⟨_, schema, _, heq⟩
  · rwa [heq]
  · rwa [heq]
  · rw [heq]
    refine ⟨Table.sorted_insert _ _ h.sorted, fun entry hentry => ?_⟩
    rcases Table.mem_insert hentry with rfl | hentry
    · rfl
    · exact h.named entry hentry

theorem ordered_addExtractor {e : ExtractorEntry} (h : Ordered catalog) :
    Ordered (addExtractor host config catalog e).1 := by
  rcases addExtractor_cases host config catalog e with ⟨event, _, heq⟩ | ⟨_, heq⟩
  · rwa [heq]
  · have hmethods : Ordered (addEach (addMethod host config e) catalog e.methods).1 :=
      addEach_invariant Ordered (fun _ _ => ordered_addMethod) h e.methods
    rw [heq]
    exact ⟨hmethods.sorted, hmethods.named⟩

theorem ordered_build (host : Host) (config : Config) : Ordered (build host config).1 := by
  have hempty : Ordered {} := ⟨.nil, nofun⟩
  exact addEach_invariant Ordered (fun _ _ => ordered_addExtractor) hempty config.extractors

theorem Ordered.name_of_method? (h : Ordered catalog) {name : String} {M : CatalogMethod}
    (hM : catalog.method? name = some M) : M.name = name :=
  h.named (name, M) ((Table.lookup_eq_some_iff_mem h.sorted).mp hM)

/-- A record is in the list when its name has a method and the schema is that method's. -/
theorem Ordered.mem_records_iff (h : Ordered catalog) {r : Record} :
    r ∈ catalog.records ↔
      ∃ name M, catalog.method? name = some M ∧ r = Record.full name M.schema := by
  constructor
  · intro hr
    obtain ⟨⟨name, M⟩, hentry, rfl⟩ := List.mem_map.mp hr
    have hname : M.name = name := h.named _ hentry
    exact ⟨name, M, (Table.lookup_eq_some_iff_mem h.sorted).mpr hentry,
      congrArg (Record.full · M.schema) hname⟩
  · rintro ⟨name, M, hM, rfl⟩
    exact List.mem_map.mpr ⟨(name, M), (Table.lookup_eq_some_iff_mem h.sorted).mp hM,
      congrArg (Record.full · M.schema) (h.name_of_method? hM)⟩

/-- The records of a name: the one of its method, if it has one. -/
theorem Ordered.filter_records (h : Ordered catalog) (name : String) :
    catalog.records.filter (·.name = some name) =
      ((catalog.method? name).map fun m => Record.full name m.schema).toList := by
  obtain ⟨methods, extractors⟩ := catalog
  obtain ⟨hsorted, hnamed⟩ := h
  unfold records Catalog.method?
  induction methods with
  | nil => rfl
  | cons entry rest ih =>
      obtain ⟨key, m⟩ := entry
      obtain ⟨hfirst, hsortedRest⟩ := List.pairwise_cons.mp hsorted
      obtain ⟨hkey, hnamedRest⟩ := List.forall_mem_cons.mp hnamed
      change m.name = key at hkey
      subst hkey
      have hrest := ih hsortedRest hnamedRest
      rw [List.map_cons, List.filter_cons, hrest, Table.lookup_cons]
      by_cases hname : m.name = name
      · subst hname
        -- No method behind this one is of the same name.
        have hnone : List.lookup m.name rest = none := by
          rw [List.lookup_eq_none_iff]
          intro entry hentry
          simpa using Text.ne_of_before (hfirst entry hentry)
        simp [hnone, Record.full]
      · simp [hname, Ne.symm hname, Record.full]

/-- The list goes up in the order of the names. -/
theorem Ordered.pairwise_records (h : Ordered catalog) :
    catalog.records.Pairwise Record.Precedes := by
  rw [Catalog.records, List.pairwise_map]
  refine h.sorted.imp_of_mem fun {entry next} hentry hnext hbefore => ?_
  have hname : entry.2.name = entry.1 := h.named entry hentry
  have hnextName : next.2.name = next.1 := h.named next hnext
  refine ⟨entry.2.name, next.2.name, rfl, rfl, ?_⟩
  rw [hname, hnextName]
  exact of_decide_eq_true hbefore

theorem Ordered.methods_eq (h : Ordered catalog) (hother : Ordered other)
    (hmethods : ∀ name, catalog.method? name = other.method? name) :
    catalog.methods = other.methods :=
  Table.eq_of_lookup_eq h.sorted hother.sorted hmethods

theorem Ordered.sameAnswers (h : Ordered catalog) (hother : Ordered other)
    (hmethods : ∀ name, catalog.method? name = other.method? name)
    (hextractors : ∀ name, catalog.extractors.lookup name = other.extractors.lookup name) :
    SameAnswers catalog other := by
  have htable := h.methods_eq hother hmethods
  refine ⟨?_, ?_, hmethods, fun name => ?_⟩
  · rw [Catalog.records, Catalog.records, htable]
  · rw [Catalog.isEmpty, Catalog.isEmpty, htable]
  · simp only [Catalog.extractorFor?, hmethods, hextractors]

/-- A list of records that is settled by what is found in the catalog. -/
structure IsListing (catalog : Catalog) (records : List Record) : Prop where
  increasing : records.Pairwise Record.Precedes
  distinct : (records.map Record.name).Nodup
  complete : ∀ r ∈ records, r.name.isSome ∧ r.schema.isSome
  named_iff : ∀ name, (∃ r ∈ records, r.name = some name) ↔ (catalog.method? name).isSome
  schema : ∀ name M, catalog.method? name = some M →
    ∀ r ∈ records, r.name = some name → r.schema = some M.schema
  nil_iff : records = [] ↔ catalog.isEmpty = true

theorem Ordered.isListing (h : Ordered catalog) : IsListing catalog catalog.records := by
  refine ⟨h.pairwise_records, ?_, ?_, fun name => ?_, ?_, ?_⟩
  · rw [List.Nodup, List.pairwise_map]
    refine h.pairwise_records.imp ?_
    rintro r other ⟨name, next, hr, hother, hlt⟩ heq
    rw [hr, hother] at heq
    obtain rfl := Option.some.inj heq
    exact List.lt_irrefl _ hlt
  · intro r hr
    obtain ⟨name, M, _, rfl⟩ := h.mem_records_iff.mp hr
    exact ⟨rfl, rfl⟩
  · rw [Option.isSome_iff_exists]
    constructor
    · rintro ⟨r, hr, hname⟩
      obtain ⟨_, M, hM, rfl⟩ := h.mem_records_iff.mp hr
      obtain rfl := Option.some.inj hname
      exact ⟨M, hM⟩
    · rintro ⟨M, hM⟩
      exact ⟨_, h.mem_records_iff.mpr ⟨name, M, hM, rfl⟩, rfl⟩
  · intro name M hM r hr hname
    obtain ⟨_, M', hM', rfl⟩ := h.mem_records_iff.mp hr
    obtain rfl := Option.some.inj hname
    obtain rfl := Option.some.inj (hM.symm.trans hM')
    rfl
  · simp [Catalog.records, Catalog.isEmpty]

/-- The list of records goes up by the octets of the names, no name twice, and holds exactly the
names that have a method, each with the schema of that method. Whatever configurations and hosts
catalogs are built from, when the same is found in them they have the same list. -/
theorem records_build_isListing :
    (∀ host config, IsListing (build host config).1 (build host config).1.records) ∧
    ∀ host config host' config',
      (∀ name, (build host config).1.method? name = (build host' config').1.method? name) →
      (build host config).1.records = (build host' config').1.records := by
  refine ⟨fun host config => (ordered_build host config).isListing, ?_⟩
  intro host config host' config' hmethods
  have htable := (ordered_build host config).methods_eq (ordered_build host' config') hmethods
  rw [Catalog.records, Catalog.records, htable]

/-- The versions the other way round, so that the method of the first one is registered last. -/
def versionsReversed : Config := { twoVersions with extractors := twoVersions.extractors.reverse }

theorem records_build_isListing_versionsReversed :
    IsListing (build fullHost versionsReversed).1
        [Record.full "first" "e30=", Record.full "second" "e30="] ∧
      (build fullHost twoVersions).1.records = (build fullHost versionsReversed).1.records := by
  have hmethods : (build fullHost twoVersions).1.methods =
      (build fullHost versionsReversed).1.methods := by decide +kernel
  have hrecords : (build fullHost versionsReversed).1.records =
      [Record.full "first" "e30=", Record.full "second" "e30="] := by decide +kernel
  constructor
  · rw [← hrecords]
    exact records_build_isListing.1 fullHost versionsReversed
  · refine records_build_isListing.2 _ _ _ _ fun name => ?_
    rw [method?, method?, hmethods]

end Catalog

end Extraction
