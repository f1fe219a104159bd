import Extraction.Proofs.Catalog.Listing
import Extraction.Proofs.Catalog.Provenance

/-!
# Entries that are left out

A build leaves out an extractor that it does not accept, and a method whose name
is taken or whose schema cannot be used. Either leaves the catalog as it was, so
the same catalog is built when such entries are deleted, whichever and however
many of them.
-/

namespace Extraction.Catalog

variable {α : Type} {host : Host} {config : Config} {catalog : Catalog}

/-- What is left of the items of a run when some of those that are left out where they stand are
deleted, and others are trimmed. -/
inductive Pruned (add : Catalog → α → Catalog × List Event) (LeavesOut : Catalog → α → Prop)
    (Trims : Catalog → α → α → Prop) : Catalog → List α → List α → Prop
  | nil {catalog : Catalog} : Pruned add LeavesOut Trims catalog [] []
  | keep {catalog : Catalog} {a trimmed : α} {rest kept : List α} : Trims catalog a trimmed →
      Pruned add LeavesOut Trims (add catalog a).1 rest kept →
      Pruned add LeavesOut Trims catalog (a :: rest) (trimmed :: kept)
  | delete {catalog : Catalog} {a : α} {rest kept : List α} : LeavesOut catalog a →
      Pruned add LeavesOut Trims (add catalog a).1 rest kept →
      Pruned add LeavesOut Trims catalog (a :: rest) kept

/-- A method is left out with its extractor, or because its name is taken, or for its schema. -/
def LeavesOutMethod (host : Host) (config : Config) (e : ExtractorEntry) (catalog : Catalog)
    (m : MethodEntry) : Prop :=
  ¬ Accepts host config e ∨ (catalog.method? m.name).isSome ∨
    ∃ fault, readSchema host (config.schemaPath m) = .error fault

/-- The same extractor without some of the methods that are left out. -/
def TrimsExtractor (host : Host) (config : Config) (catalog : Catalog)
    (e trimmed : ExtractorEntry) : Prop :=
  ∃ methods, trimmed = { e with methods } ∧
    Pruned (addMethod host config e) (LeavesOutMethod host config e) (fun _ => Eq)
      catalog e.methods methods

/-- The extractors of a configuration without some of those that its build leaves out, and without
some of the methods that it leaves out. -/
def PrunedExtractors (host : Host) (config : Config) (kept : List ExtractorEntry) : Prop :=
  Pruned (addExtractor host config) (fun _ e => ¬ Accepts host config e)
    (TrimsExtractor host config) {} config.extractors kept

/-- A run over what is left leads where the whole run does, if each item that is deleted changes
nothing and each one that is trimmed leads to the same. -/
theorem Pruned.addEach_eq {add : Catalog → α → Catalog × List Event}
    {LeavesOut : Catalog → α → Prop} {Trims : Catalog → α → α → Prop}
    (hdelete : ∀ catalog a, LeavesOut catalog a → (add catalog a).1 = catalog)
    (htrim : ∀ catalog a trimmed, Trims catalog a trimmed →
      (add catalog trimmed).1 = (add catalog a).1)
    {items kept : List α} (h : Pruned add LeavesOut Trims catalog items kept) :
    (addEach add catalog kept).1 = (addEach add catalog items).1 := by
  induction h with
  | nil => rfl
  | keep hkept _ ih =>
      simp only [addEach]
      rw [htrim _ _ _ hkept, ih]
  | delete hleft _ ih =>
      simp only [addEach]
      rw [hdelete _ _ hleft] at ih ⊢
      exact ih

theorem addMethod_of_left_out {e : ExtractorEntry} {m : MethodEntry}
    (h : (catalog.method? m.name).isSome ∨
      ∃ fault, readSchema host (config.schemaPath m) = .error fault) :
    (addMethod host config e catalog m).1 = catalog := by
  rcases addMethod_cases host config e catalog m with
    ⟨_, heq⟩ | ⟨_, fault, _, heq⟩ | ⟨hmissing, schema, hread, heq⟩
  · rw [heq]
  · rw [heq]
  · rcases h with htaken | ⟨fault, hfault⟩
    · rw [hmissing] at htaken
      cases htaken
    · rw [hread] at hfault
      cases hfault

/-- A trimmed extractor is taken in as the whole one is. -/
theorem addExtractor_of_trims {e trimmed : ExtractorEntry}
    (h : TrimsExtractor host config catalog e trimmed) :
    (addExtractor host config catalog trimmed).1 = (addExtractor host config catalog e).1 := by
  obtain ⟨methods, rfl, hmethods⟩ := h
  have hiff : Accepts host config { e with methods } ↔ Accepts host config e :=
    ⟨fun h => ⟨h.isFile, h.notCommand, h.readable⟩, fun h => ⟨h.isFile, h.notCommand, h.readable⟩⟩
  by_cases he : Accepts host config e
  · have hrun : (addEach (addMethod host config e) catalog methods).1 =
        (addEach (addMethod host config e) catalog e.methods).1 :=
      hmethods.addEach_eq
        (fun _ _ hleft => addMethod_of_left_out (hleft.resolve_left (not_not_intro he)))
        (fun _ _ _ heq => heq ▸ rfl)
    rw [addExtractor_of_accepts he, ← hrun]
    exact addExtractor_of_accepts (hiff.mpr he) catalog
  · rw [addExtractor_of_not_accepts he, addExtractor_of_not_accepts (mt hiff.mp he)]

/-- Entries that a build leaves out can be deleted, whichever and however many of them, and the
catalog still gives the same answers. -/
theorem sameAnswers_of_pruned {kept : List ExtractorEntry}
    (h : PrunedExtractors host config kept) :
    SameAnswers (build host { config with extractors := kept }).1 (build host config).1 := by
  have heq : (build host { config with extractors := kept }).1 = (build host config).1 :=
    h.addEach_eq (fun catalog _ he => addExtractor_of_not_accepts he catalog)
      (fun _ _ _ htrims => addExtractor_of_trims htrims)
  rw [heq]
  exact ⟨rfl, rfl, fun _ => rfl, fun _ => rfl⟩

/-- A host on which one schema is not there. -/
def gapHost : Host := { fullHost with isPresent path := path != "schemas/missing.json" }

/-- An extractor with a method named twice and one without a schema, and an extractor whose template
cannot be read. -/
def faulty : Config :=
  { twoVersions with
    extractors :=
      [{ oneVersion "v1" "first" with
          methods := [⟨"first", "schema.json", none⟩, ⟨"first", "other.json", none⟩,
            ⟨"second", "missing.json", none⟩] },
        { oneVersion "v2" "third" with commandLineTemplate := "\x7b\x7b.Executable" }] }

theorem prunedExtractors_faulty :
    PrunedExtractors gapHost faulty [oneVersion "v1" "first"] := by
  have htemplate : Template.check "\x7b\x7b.Executable" =
      .error (.unclosed "\x7b\x7b.Executable".toList) := by cbv
  refine .keep ⟨_, rfl, .keep rfl (.delete (.inr (.inl ?_)) (.delete (.inr (.inr ?_)) .nil))⟩
    (.delete ?_ .nil)
  · decide +kernel
  · exact ⟨.missing, rfl⟩
  · intro haccepts
    have hreadable := haccepts.readable
    rw [htemplate] at hreadable
    cases hreadable

theorem sameAnswers_of_pruned_faulty :
    PrunedExtractors gapHost faulty [oneVersion "v1" "first"] ∧
      SameAnswers (build gapHost { faulty with extractors := [oneVersion "v1" "first"] }).1
        (build gapHost faulty).1 :=
  ⟨prunedExtractors_faulty, sameAnswers_of_pruned prunedExtractors_faulty⟩

end Extraction.Catalog
