import Extraction.Config.Validation
import Extraction.Proofs.Path
import Extraction.Success

/-!
# Where a valid configuration leads

Executables are meant to lie below the installation path and schemas below their
directory. A valid configuration need not keep to that, as the texts that name
them are only checked for being there: an absolute one replaces the root, and
one that climbs leaves it. Whether they stay below can be told from these texts.
-/

namespace Extraction

/-- The texts that lead from the installation path to the executable. -/
def ExtractorEntry.way (e : ExtractorEntry) : List Path :=
  [e.organization, e.project, e.version, e.executable]

namespace Config

theorem ok_of_require {holds : Bool} {place : Place} {reason : Reason}
    (h : require holds place reason = .ok ()) : holds = true := by
  unfold require at h
  split at h
  next hholds => exact hholds
  next => cases h

/-- The two roots of a valid configuration are not empty. -/
theorem roots_ne_empty {config : Config} (h : config.validate = .ok ()) :
    config.installationPath ≠ "" ∧ config.schemasLocation ≠ "" := by
  obtain ⟨_, hinstallation, h⟩ := ok_of_bind h
  obtain ⟨_, hschemas, _⟩ := ok_of_bind h
  exact ⟨by simpa using ok_of_require hinstallation, by simpa using ok_of_require hschemas⟩

/-- In a valid configuration an executable lies below the installation path, and a schema below the
directory of schemas, exactly when the texts that lead there are relative and do not climb, or lead
back below the root after the last absolute one. -/
theorem below_roots_iff_confined {config : Config} (h : config.validate = .ok ()) :
    ∀ e ∈ config.extractors,
      (Path.Below config.installationPath (e.installPath config.installationPath) ↔
        Path.Confined config.installationPath e.way) ∧
      ∀ m ∈ e.methods,
        (Path.Below config.schemasLocation (config.schemaPath m) ↔
          Path.Confined config.schemasLocation [m.schema]) := by
  obtain ⟨hinstallation, hschemas⟩ := roots_ne_empty h
  intro e _
  have hexecutable := @Path.below_foldl_join_iff _ e.way hinstallation
  refine ⟨hexecutable, fun m _ => ?_⟩
  exact @Path.below_foldl_join_iff _ [m.schema] hschemas

/-- A configuration of one extractor with one method. -/
def readerAt (executable schema : String) : Config :=
  { extractors := [
      { name := "reader", organization := "lab", project := "tools", version := "v1/..", executable
        checksum := "0", checksumAlgorithm := "sha256", commandLineTemplate := "run"
        methods := [{ name := "first", schema }] }]
    installationPath := "extractors"
    schemasLocation := "schemas" }

theorem below_roots_iff_confined_readerAt :
    (readerAt "bin/reader" "json/first.json").validate = .ok () ∧
      ∀ e ∈ (readerAt "bin/reader" "json/first.json").extractors,
        Path.Below "extractors" (e.installPath "extractors") ∧
        ∀ m ∈ e.methods,
          Path.Below "schemas" ((readerAt "bin/reader" "json/first.json").schemaPath m) := by
  have hvalid : (readerAt "bin/reader" "json/first.json").validate = .ok () := by cbv
  refine ⟨hvalid, fun e he => ?_⟩
  obtain ⟨hexecutable, hschema⟩ := below_roots_iff_confined hvalid e he
  obtain rfl := List.mem_singleton.mp he
  refine ⟨hexecutable.mpr (.relative (by decide) (by decide) (by decide)), fun m hm => ?_⟩
  refine (hschema m hm).mpr ?_
  obtain rfl := List.mem_singleton.mp hm
  exact .relative (by decide) (by decide) (by decide)

/-- In a valid configuration an absolute executable lies elsewhere, and a schema whose name climbs
lies outside the directory of schemas. -/
theorem not_below_roots_readerAt :
    (readerAt "/bin/reader" "../secret.json").validate = .ok () ∧
      ∃ e ∈ (readerAt "/bin/reader" "../secret.json").extractors,
        ¬ Path.Below "extractors" (e.installPath "extractors") ∧
        ∃ m ∈ e.methods,
          ¬ Path.Below "schemas" ((readerAt "/bin/reader" "../secret.json").schemaPath m) := by
  refine ⟨by cbv, _, List.mem_singleton_self _, ?_, _, List.mem_singleton_self _, ?_⟩
  · rintro ⟨habsolute, _⟩
    revert habsolute
    decide
  · rintro ⟨_, further, _, hcomponents, hclimbs⟩
    have hfurther : further = [Path.parent, "secret.json".toList] := by
      have hpath : Path.components "schemas" ++ further =
          Path.components "schemas" ++ [Path.parent, "secret.json".toList] := by
        rw [← hcomponents]
        decide
      exact List.append_cancel_left hpath
    subst hfurther
    have hfirst := hclimbs [Path.parent] (by decide)
    revert hfirst
    decide

end Config

end Extraction
