import Extraction.Proofs.Template.Layout

/-!
# What rendering puts in

Rendering goes over the actions of a layout once. The executable and the additional
arguments stand where their actions stood, whatever characters they are made of, and
all else stays as it is written. Only then are the ends of the whole text trimmed.
-/

namespace Extraction.Template

variable (executable arguments : List Char)

/-- What stands in the place of an action when the executable and the additional arguments are
known. -/
def Action.filled (a : Action) : List Char :=
  match a.parameter with
  | .executable => executable
  | .additionalParameters => arguments
  | .sourceFolder | .outputFile => a.written

def Stretch.filled (s : Stretch) : List Char := s.text ++ s.action.filled executable arguments

/-- The text of a layout in which the actions have been filled one by one. -/
def Layout.filled (l : Layout) : List Char :=
  l.stretches.flatMap (·.filled executable arguments) ++ l.rest

theorem Action.render_segment (a : Action) :
    (Segment.action a.parameter a.written).render executable arguments =
      a.filled executable arguments := by
  unfold Action.filled
  cases a.parameter <;> rfl

theorem flatMap_render_textSegment (chars : List Char) :
    (textSegment chars).flatMap (·.render executable arguments) = chars := by
  cases chars <;> simp [textSegment, Segment.render]

theorem Stretch.flatMap_render_segments (s : Stretch) :
    s.segments.flatMap (·.render executable arguments) = s.filled executable arguments := by
  rw [Stretch.segments, List.flatMap_append, flatMap_render_textSegment, List.flatMap_singleton,
    s.action.render_segment]
  rfl

/-- Rendering the segments of a layout fills the layout. -/
theorem Layout.flatMap_render_segments (l : Layout) :
    l.segments.flatMap (·.render executable arguments) = l.filled executable arguments := by
  rw [Layout.segments, List.flatMap_append, flatMap_render_textSegment, List.flatMap_assoc]
  simp only [Stretch.flatMap_render_segments]
  rfl

variable {t : String}

theorem toList_render_of_ok {segments : List Segment} (h : parse t.toList = .ok segments)
    (executable arguments : String) :
    (render t executable arguments).toList =
      Text.trim (segments.flatMap (·.render executable.toList arguments.toList)) := by
  rw [render, h, String.toList_ofList]

theorem toList_render_of_error {fault : Fault} (h : parse t.toList = .error fault)
    (executable arguments : String) :
    (render t executable arguments).toList = Text.trim t.toList := by
  rw [render, h, String.toList_ofList]

/-- A template that can be read has one layout. Whatever the executable and the additional
arguments are, rendering fills the actions of this layout, and then trims the whole. A template that
cannot be read is only trimmed. -/
theorem render_fills_layout (t : String) :
    (check t = .ok () → ∃ l : Layout, l.written = t.toList ∧
      (∀ other : Layout, other.written = t.toList → other = l) ∧
      ∀ (executable arguments : String) (r : List Char),
        Text.TrimsTo (l.filled executable.toList arguments.toList) r ↔
          (render t executable arguments).toList = r) ∧
    (check t ≠ .ok () → ∀ (executable arguments : String) (r : List Char),
      Text.TrimsTo t.toList r ↔ (render t executable arguments).toList = r) := by
  constructor
  · intro hcheck
    obtain ⟨segments, hsegments⟩ := check_eq_ok_iff.mp hcheck
    obtain ⟨l, hl⟩ := exists_layout_of_parse hsegments
    refine ⟨l, hl, fun other hother => written_injective (hother.trans hl.symm), ?_⟩
    intro executable arguments r
    have hparse := parse_written l
    rw [hl] at hparse
    rw [toList_render_of_ok hparse, l.flatMap_render_segments]
    exact Text.trimsTo_iff
  · intro hcheck executable arguments r
    cases hparse : parse t.toList with
    | ok segments => exact absurd (check_eq_ok_iff.mpr ⟨segments, hparse⟩) hcheck
    | error fault =>
        rw [toList_render_of_error hparse]
        exact Text.trimsTo_iff

/-- Three actions, of which two stand side by side and one names what only a run knows. -/
def crowded : Layout where
  stretches := [
    ⟨[], ⟨[], .executable, [], by decide, by decide⟩, by decide, by decide⟩,
    ⟨[], ⟨[' '], .outputFile, ['\t'], by decide, by decide⟩, by decide, by decide⟩,
    ⟨['\n', 'x'], ⟨[], .additionalParameters, [], by decide, by decide⟩, by decide, by decide⟩]
  rest := []
  not_hasPair := by decide

/-- What is filled in looks like other actions and like the ends of some. -/
theorem render_fills_layout_crowded :
    check (String.ofList crowded.written) = .ok () ∧
      render (String.ofList crowded.written)
          " \x7b\x7b.AdditionalParameters\x7d\x7d" "\x7d\x7d\x7b\x7b.Executable\x7d\x7d\u2028" =
        "\x7b\x7b.AdditionalParameters\x7d\x7d\x7b\x7b .OutputFile\t\x7d\x7d\nx" ++
          "\x7d\x7d\x7b\x7b.Executable\x7d\x7d" ∧
      check " \x7b\x7b.Executable\x7d" ≠ .ok () ∧
      render " \x7b\x7b.Executable\x7d" "a" "b" = "\x7b\x7b.Executable\x7d" := by
  have hwritten : crowded.written = (String.ofList crowded.written).toList :=
    String.toList_ofList.symm
  have hcheck : check (String.ofList crowded.written) = .ok () :=
    check_eq_ok_iff.mpr ⟨_, hwritten ▸ parse_written crowded⟩
  have hrefused : check " \x7b\x7b.Executable\x7d" ≠ .ok () := by
    have hbad : (check " \x7b\x7b.Executable\x7d").isOk = false := by decide +kernel
    intro hcheck
    rw [hcheck] at hbad
    cases hbad
  obtain ⟨l, _, hunique, hfills⟩ := (render_fills_layout _).1 hcheck
  obtain rfl := hunique crowded hwritten
  refine ⟨hcheck, ?_, hrefused, ?_⟩
  · exact String.toList_inj.mp ((hfills _ _ _).mp (Text.trimsTo_iff.mpr (by decide)))
  · exact String.toList_inj.mp
      (((render_fills_layout _).2 hrefused _ _ _).mp (Text.trimsTo_iff.mpr (by decide)))

end Extraction.Template
