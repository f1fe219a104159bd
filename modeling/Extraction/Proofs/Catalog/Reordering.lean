import Extraction.Proofs.Catalog.Listing
import Extraction.Proofs.Catalog.Provenance
import Mathlib.Data.List.Nodup
import Mathlib.Data.List.Perm.Basic

/-!
# The order of a configuration

The first method of a name is registered and the last extractor of a name
answers, so order matters where names are given twice. Where they are not, there
is one entry at most for what is asked, and extractors and their methods can be
listed in any order.
-/

namespace Extraction

/-- The same extractor with its methods in any order. -/
def ExtractorEntry.Reordered (e other : ExtractorEntry) : Prop :=
  ∃ methods, other = { e with methods } ∧ e.methods.Perm methods

/-- The same configuration with its extractors, and the methods of each, in any order. -/
def Config.Reordered (config other : Config) : Prop :=
  ∃ middle extractors, other = { config with extractors } ∧ config.extractors.Perm middle ∧
    List.Forall₂ ExtractorEntry.Reordered middle extractors

theorem ExtractorEntry.Reordered.symm {e other : ExtractorEntry} (h : e.Reordered other) :
    other.Reordered e := by
  obtain ⟨methods, rfl, hperm⟩ := h
  exact ⟨e.methods, rfl, hperm.symm⟩

theorem Config.Reordered.symm {config other : Config} (h : config.Reordered other) :
    other.Reordered config := by
  obtain ⟨middle, extractors, rfl, hperm, hmethods⟩ := h
  -- The methods are put in order first, and the extractors then.
  have hcomp : Relation.Comp List.Perm (List.Forall₂ ExtractorEntry.Reordered)
      config.extractors extractors := ⟨middle, hperm, hmethods⟩
  rw [← List.forall₂_comp_perm_eq_perm_comp_forall₂] at hcomp
  obtain ⟨middle, hmethods, hperm⟩ := hcomp
  refine ⟨middle, config.extractors, rfl, hperm.symm, ?_⟩
  exact (hmethods.imp fun _ _ h => h.symm).flip

/-- Each extractor is there again. -/
theorem Config.Reordered.exists_extractor {config other : Config} (h : config.Reordered other)
    {e : ExtractorEntry} (he : e ∈ config.extractors) :
    ∃ e' ∈ other.extractors, e.Reordered e' := by
  obtain ⟨middle, extractors, rfl, hperm, hmethods⟩ := h
  replace he := hperm.mem_iff.mp he
  clear hperm
  induction hmethods with
  | nil => cases he
  | @cons e e' _ _ hfirst _ ih =>
      rcases List.mem_cons.mp he with rfl | he
      · exact ⟨e', List.mem_cons_self, hfirst⟩
      · obtain ⟨e', he', hreordered⟩ := ih he
        exact ⟨e', List.mem_cons_of_mem _ he', hreordered⟩

namespace Catalog

variable {α β : Type} {host : Host} {config other : Config}

/-- When no two results can be found, any result that is there is the one that is found. -/
theorem findSome?_eq_some_iff_of_unique {f : α → Option β} {l : List α}
    (hunique : ∀ x y, (∃ a ∈ l, f a = some x) → (∃ a ∈ l, f a = some y) → x = y) {x : β} :
    l.findSome? f = some x ↔ ∃ a ∈ l, f a = some x := by
  constructor
  · exact List.exists_of_findSome?_eq_some
  · intro hx
    have hsome : (l.findSome? f).isSome := by
      obtain ⟨a, ha, hfa⟩ := hx
      exact List.findSome?_isSome_iff.mpr ⟨a, ha, Option.isSome_of_eq_some hfa⟩
    obtain ⟨y, hy⟩ := Option.isSome_iff_exists.mp hsome
    rw [hy, hunique y x (List.exists_of_findSome?_eq_some hy) hx]

/-- Where names are given once and one name is looked for, it does not matter in which order the
same results are there. -/
theorem findSome?_eq_of_same_results {f f' : α → Option β} {l l' : List α} {nameOf : α → String}
    {name : String} (hnodup : (l.map nameOf).Nodup) (hname : ∀ a x, f a = some x → nameOf a = name)
    (hsame : ∀ x, (∃ a ∈ l, f a = some x) ↔ ∃ a ∈ l', f' a = some x) :
    l.findSome? f = l'.findSome? f' := by
  have hunique (x y : β) (hx : ∃ a ∈ l, f a = some x) (hy : ∃ a ∈ l, f a = some y) : x = y := by
    obtain ⟨a, ha, hx⟩ := hx
    obtain ⟨b, hb, hy⟩ := hy
    have heq : a = b :=
      List.inj_on_of_nodup_map hnodup ha hb ((hname a x hx).trans (hname b y hy).symm)
    rw [heq, hy] at hx
    exact (Option.some.inj hx).symm
  have hunique' (x y : β) (hx : ∃ a ∈ l', f' a = some x) (hy : ∃ a ∈ l', f' a = some y) : x = y :=
    hunique x y ((hsame x).mpr hx) ((hsame y).mpr hy)
  refine Option.ext fun x => ?_
  rw [findSome?_eq_some_iff_of_unique hunique, findSome?_eq_some_iff_of_unique hunique', hsame]

/-- What an offer leads to, an offer of the reordered configuration leads to as well. -/
theorem exists_taken_of_reordered (h : config.Reordered other) {name : String} {M : CatalogMethod}
    (hM : ∃ o ∈ config.offers, taken? host config name o = some M) :
    ∃ o ∈ other.offers, taken? host other name o = some M := by
  obtain ⟨o, ho, htaken⟩ := hM
  obtain ⟨e, he, ho⟩ := List.mem_flatMap.mp ho
  obtain ⟨m, hm, rfl⟩ := List.mem_map.mp ho
  obtain ⟨e', he', methods, rfl, hperm⟩ := h.exists_extractor he
  refine ⟨⟨{ e with methods }, m⟩, ?_, ?_⟩
  · exact List.mem_flatMap.mpr ⟨_, he', List.mem_map_of_mem (hperm.mem_iff.mp hm)⟩
  · obtain ⟨_, _, rfl, _⟩ := h
    exact htaken

/-- What an extractor puts under a name, one of the reordered configuration puts there as well. -/
theorem exists_placed_of_reordered (h : config.Reordered other) {name : String}
    {E : CatalogExtractor}
    (hE : ∃ e ∈ config.extractors.reverse, placed? host config name e = some E) :
    ∃ e ∈ other.extractors.reverse, placed? host other name e = some E := by
  obtain ⟨e, he, hplaced⟩ := hE
  obtain ⟨e', he', methods, rfl, hperm⟩ := h.exists_extractor (List.mem_reverse.mp he)
  refine ⟨{ e with methods }, List.mem_reverse.mpr he', ?_⟩
  obtain ⟨_, _, rfl, _⟩ := h
  exact hplaced

/-- Where no two extractors share a name and no two methods do, extractors and methods can be listed
in any order, and the catalog gives the same answers. -/
theorem sameAnswers_of_reordered (h : config.Reordered other)
    (hextractors : (config.extractors.map (·.name)).Nodup)
    (hmethods : (config.offers.map (·.method.name)).Nodup) :
    SameAnswers (build host config).1 (build host other).1 := by
  refine (ordered_build host config).sameAnswers (ordered_build host other)
    (fun name => ?_) (fun name => ?_)
  · rw [method?_build, method?_build]
    refine findSome?_eq_of_same_results hmethods
      (fun o M hM => (taken?_eq_some_iff.mp hM).1) fun M => ?_
    exact ⟨exists_taken_of_reordered h, exists_taken_of_reordered h.symm⟩
  · rw [lookup_extractors_build, lookup_extractors_build]
    have hnodup : (config.extractors.reverse.map (·.name)).Nodup := by
      rw [List.map_reverse]
      exact List.nodup_reverse.mpr hextractors
    refine findSome?_eq_of_same_results hnodup
      (fun e E hE => (placed?_eq_some_iff.mp hE).2.1) fun E => ?_
    exact ⟨exists_placed_of_reordered h, exists_placed_of_reordered h.symm⟩

/-- An extractor with two methods in front of one with one method. -/
def readerFirst : Config :=
  { twoVersions with
    extractors :=
      [{ oneVersion "v1" "first" with
          methods := [⟨"first", "schema.json", none⟩, ⟨"second", "schema.json", none⟩] },
        { oneVersion "v2" "third" with name := "writer" }] }

/-- The same extractors and methods the other way round. -/
def writerFirst : Config :=
  { twoVersions with
    extractors :=
      [{ oneVersion "v2" "third" with name := "writer" },
        { oneVersion "v1" "first" with
          methods := [⟨"second", "schema.json", none⟩, ⟨"first", "schema.json", none⟩] }] }

theorem reordered_writerFirst : readerFirst.Reordered writerFirst :=
  ⟨_, _, rfl, .swap _ _ _, .cons ⟨_, rfl, .refl _⟩ (.cons ⟨_, rfl, .swap _ _ _⟩ .nil)⟩

theorem sameAnswers_of_reordered_writerFirst :
    readerFirst.Reordered writerFirst ∧ (readerFirst.extractors.map (·.name)).Nodup ∧
      (readerFirst.offers.map (·.method.name)).Nodup ∧
      SameAnswers (build fullHost readerFirst).1 (build fullHost writerFirst).1 :=
  ⟨reordered_writerFirst, by decide, by decide,
    sameAnswers_of_reordered reordered_writerFirst (by decide) (by decide)⟩

end Catalog

end Extraction
